import Uwe5631.RingBuffer
import Mathlib.Algebra.BigOperators.Group.List.Basic
import Mathlib.Algebra.Order.Group.Multiset
import Mathlib.Data.BitVec

/-!
# Interrupts of the EDMA engine

`legacy_irq_handle` looks through all channels of one interrupt, `msi_irq_handle` serves one vector.
Both clear what they found and have `hisrfunc` process it, at once or from a queue that a tasklet
empties.
-/
namespace Uwe5631.EdmaIrq
open RingBuffer

abbrev TX : ℕ := 1
abbrev RX : ℕ := 0

abbrev TWO_LINK_MODE : ℤ := 0
abbrev ONE_LINK_MODE : ℤ := 1
abbrev NON_LINK_MODE : ℤ := 2

/-- What `union dma_chn_int_reg` has a bit for in each of its groups. -/
inductive IntKind where
  | txPop
  | txComplete
  | rxPop
  | rxPush
  | cfgErr
  deriving DecidableEq, Repr

/-- `union dma_chn_int_reg` as it is read; the bits that clear are only written. -/
structure IntStatus where
  en : IntKind → Bool
  rawStatus : IntKind → Bool
  maskStatus : IntKind → Bool

/-- `union dma_chn_int_reg` as it is written. -/
structure DmaInt extends IntStatus where
  clr : IntKind → Bool

def IntStatus.read (status : IntStatus) : DmaInt := ⟨status, fun _ => false⟩

def DmaInt.setClr (reg : DmaInt) (kind : IntKind) : DmaInt :=
  { reg with clr := Function.update reg.clr kind true }

/-- The clear bit of an interrupt is set if it is pending. -/
def DmaInt.clear (reg : DmaInt) (kind : IntKind) : DmaInt :=
  if reg.maskStatus kind then reg.setClr kind else reg

/-- What a channel is set up to: its part of `chn_sw`, and what `mchn_hw_cb_in_irq` returns, -1 for a
channel that is not registered. -/
structure ChnSw where
  mode : ℤ
  inout : ℕ
  cbInIrq : ℤ

/-- `enum ISR_TASK_MSG_ID` -/
inductive IsrMsg where
  | txPop
  | txComplete
  | rxPop
  | rxPush
  | intx
  deriving DecidableEq, Repr

/-- `struct isr_msg_queue` -/
structure IsrMsgQueue where
  seq : BitVec 32
  chn : ℕ
  evt : IsrMsg
  dmaInt : DmaInt

abbrev MSG_Q_MAX : ℕ := 50

/-- `struct msg_q` -/
structure MsgQ where
  seq : BitVec 32
  wt : ℕ
  rd : ℕ
  max : ℕ
  mem : ℕ → IsrMsgQueue

/-- `enqueue`; the handlers do not look at what it returns. -/
def enqueue (q : MsgQ) (msg : IsrMsgQueue) : MsgQ :=
  if (q.wt + 1) % q.max = q.rd then q
  else { q with
    seq := q.seq + 1
    mem := Function.update q.mem q.wt { msg with seq := q.seq + 1 }
    wt := next q.max q.wt }

/-- `dequeue` -/
def dequeue (q : MsgQ) : Option (IsrMsgQueue × MsgQ) :=
  if q.wt = q.rd then none else some (q.mem q.rd, { q with rd := next q.max q.rd })

/-- The routines that `hisrfunc` calls, in their order. -/
def hisrfunc (sw : ChnSw) (msg : IsrMsgQueue) : List IntKind :=
  match msg.evt with
  | .intx =>
    if sw.mode = TWO_LINK_MODE then
      if sw.inout ≠ 0 then [.txPop, .txComplete].filter msg.dmaInt.maskStatus
      else [.rxPop, .rxPush].filter msg.dmaInt.maskStatus
    else []
  | .txPop => [.txPop]
  | .txComplete => [.txComplete]
  | .rxPop => [.rxPop]
  | .rxPush => [.rxPush]

/-- The queue of `isr_func`, the events that have been processed and the words written to `dma_int`,
with their channels. -/
structure Isr where
  queue : MsgQ
  processed : List (ℕ × IntKind)
  written : List (ℕ × DmaInt)

def Isr.write (s : Isr) (chn : ℕ) (reg : DmaInt) : Isr :=
  { s with written := s.written ++ [(chn, reg)] }

def Isr.process (s : Isr) (chn : ℕ) (kinds : List IntKind) : Isr :=
  { s with processed := s.processed ++ kinds.map fun kind => (chn, kind) }

def Isr.defer (s : Isr) (msg : IsrMsgQueue) : Isr := { s with queue := enqueue s.queue msg }

/-- The body of the loop of `legacy_irq_handle` for a channel, with `ret`. -/
def legacyChannel (sw : ChnSw) (chn : ℕ) (status : IntStatus) (x : Isr × ℤ) : Isr × ℤ :=
  let dmaInt := status.read
  let s := x.1
  if dmaInt.maskStatus .cfgErr then (s.write chn (dmaInt.setClr .cfgErr), x.2)
  else
    let msg : IsrMsgQueue := ⟨0, chn, .intx, dmaInt⟩
    if sw.mode = TWO_LINK_MODE then
      let cleared :=
        if sw.inout ≠ 0 then (dmaInt.clear .txPop).clear .txComplete
        else (dmaInt.clear .rxPop).clear .rxPush
      let discard :=
        if sw.inout ≠ 0 then !dmaInt.maskStatus .txPop && !dmaInt.maskStatus .txComplete
        else !dmaInt.maskStatus .rxPop && !dmaInt.maskStatus .rxPush
      let s := s.write chn cleared
      if discard then (s, x.2)
      -- a message that is queued is processed here as well
      else if sw.cbInIrq = 0 then ((s.defer msg).process chn (hisrfunc sw msg), x.2)
      else if sw.cbInIrq = -1 then (s, -1)
      else (s.process chn (hisrfunc sw msg), x.2)
    else if sw.mode = ONE_LINK_MODE then
      ((s.write chn ((dmaInt.clear .txComplete).clear .txPop)).process chn [.txComplete], x.2)
    else if sw.mode = NON_LINK_MODE then
      ((s.process chn ([.txComplete].filter dmaInt.maskStatus)).write chn
        ((dmaInt.clear .txPop).clear .txComplete), x.2)
    else
      (s.write chn ((((dmaInt.clear .txPop).clear .txComplete).clear .rxPop).clear .rxPush), x.2)

/-- `legacy_irq_handle` for a word of `dma_int_mask_status` and the registers of the channels. -/
def legacyIrqHandle (sw : ℕ → ChnSw) (maskStatus : BitVec 32) (dmaInt : ℕ → IntStatus) (s : Isr) :
    Isr × ℤ :=
  (List.range 32).foldl
    (fun x chn =>
      if maskStatus.getLsbD chn then legacyChannel (sw chn) chn (dmaInt chn) x else x) (s, 0)

/-- `msi_irq_handle`. For `rx_pop` the register is written until the hardware does not show the
interrupt any more. -/
def msiIrqHandle (sw : ℕ → ChnSw) (dmaInt : ℕ → IntStatus) (shown : ℕ) (irq : ℕ) (s : Isr) : Isr × ℤ :=
  let chn := irq / 2
  let reg := (dmaInt chn).read
  let x : Isr × IsrMsg :=
    if (sw chn).inout = TX then
      if irq % 2 = 0 then (s.write chn (reg.setClr .txPop), .txPop)
      else (s.write chn (reg.setClr .txComplete), .txComplete)
    else
      if irq % 2 = 0 then
        ((List.range (shown + 1)).foldl (fun s _ => s.write chn (reg.setClr .rxPop)) s, .rxPop)
      else (s.write chn (reg.setClr .rxPush), .rxPush)
  let msg : IsrMsgQueue := ⟨0, chn, x.2, reg⟩
  if (sw chn).cbInIrq = 0 then (x.1.defer msg, 0)
  else if (sw chn).cbInIrq = -1 then (x.1, -1)
  else (x.1.process chn (hisrfunc (sw chn) msg), 0)

/-- `edma_tasklet`, which finds at most as many messages as the queue has room for. -/
def edmaTasklet (sw : ℕ → ChnSw) : ℕ → Isr → Isr
  | 0, s => s
  | n + 1, s =>
    match dequeue s.queue with
    | none => s
    | some (msg, queue) =>
      edmaTasklet sw n ({ s with queue := queue }.process msg.chn (hisrfunc (sw msg.chn) msg))

/-- Nothing is queued, the next message goes anywhere into the memory of the queue, and the hardware
has not been answered yet. -/
structure Isr.Fresh (s : Isr) : Prop where
  max : s.queue.max = MSG_Q_MAX
  wt : s.queue.wt = s.queue.rd
  rd : s.queue.rd < MSG_Q_MAX
  processed : s.processed = []
  written : s.written = []

/-- An interrupt of all channels, and the tasklet it schedules. -/
def legacyOutcome (sw : ℕ → ChnSw) (maskStatus : BitVec 32) (dmaInt : ℕ → IntStatus) (s : Isr) : Isr :=
  edmaTasklet sw MSG_Q_MAX (legacyIrqHandle sw maskStatus dmaInt s).1

/-- Interrupts of some vectors one after the other, each with the tasklet it schedules. -/
def msiOutcome (sw : ℕ → ChnSw) (dmaInt : ℕ → IntStatus) (shown : ℕ → ℕ) (irqs : List ℕ) (s : Isr) :
    Isr :=
  irqs.foldl
    (fun s irq => edmaTasklet sw MSG_Q_MAX (msiIrqHandle sw dmaInt (shown irq) irq s).1) s

/-! ## What is pending -/

/-- The events of a channel. -/
def events : List IntKind := [.txPop, .txComplete, .rxPop, .rxPush]

/-- The channels of an interrupt. -/
def channels (maskStatus : BitVec 32) : List ℕ := (List.range 32).filter fun chn => maskStatus.getLsbD chn

/-- The pending events of a channel. -/
def IntStatus.pending (status : IntStatus) : List IntKind := events.filter status.maskStatus

/-- The pending events of an interrupt. -/
def pending (maskStatus : BitVec 32) (dmaInt : ℕ → IntStatus) : List (ℕ × IntKind) :=
  (channels maskStatus).flatMap fun chn => (dmaInt chn).pending.map fun kind => (chn, kind)

/-- The vector of an event. -/
def vector (x : ℕ × IntKind) : ℕ :=
  match x.2 with
  | .txPop | .rxPop => 2 * x.1
  | _ => 2 * x.1 + 1

/-- An event of a channel has been cleared. -/
def Isr.Cleared (s : Isr) (x : ℕ × IntKind) : Prop :=
  ∃ reg : DmaInt, (x.1, reg) ∈ s.written ∧ reg.clr x.2 = true

/-- Each pending event is processed exactly once, and what is processed and cleared is the same on
both ways. -/
structure Agrees (pending : List (ℕ × IntKind)) (legacy msi : Isr) : Prop where
  once : ∀ x ∈ pending, legacy.processed.count x = 1
  same : ∀ x, x ∈ legacy.processed ↔ x ∈ msi.processed
  clears : ∀ x, x.2 ∈ events → (legacy.Cleared x ↔ msi.Cleared x)

/-- Nothing is pending on a channel whose interrupt is not taken for a complete transfer; or there
is no configuration error, the channel is registered, and its callback runs in the interrupt and only
its own direction is pending, or it sends without two links and only a complete transfer is pending. -/
def Sane (sw : ChnSw) (status : IntStatus) : Prop :=
  (status.pending = [] ∧ (sw.mode = ONE_LINK_MODE → status.maskStatus .cfgErr = true)) ∨
  (status.maskStatus .cfgErr = false ∧ sw.cbInIrq ≠ -1 ∧
    ((sw.mode = TWO_LINK_MODE ∧ sw.cbInIrq ≠ 0 ∧
      ((sw.inout = TX ∧ status.maskStatus .rxPop = false ∧ status.maskStatus .rxPush = false) ∨
        (sw.inout = RX ∧ status.maskStatus .txPop = false ∧ status.maskStatus .txComplete = false))) ∨
    ((sw.mode = ONE_LINK_MODE ∨ sw.mode = NON_LINK_MODE) ∧ sw.inout = TX ∧
      status.pending = [.txComplete])))

/-! ## The queue -/

/-- The queue has room for some more messages. -/
structure MsgQ.Fits (q : MsgQ) (n : ℕ) : Prop where
  max : q.max = MSG_Q_MAX
  rd : q.rd < q.max
  wt : q.wt < q.max
  room : ahead q.max q.rd q.wt + n < q.max

def MsgQ.messages (q : MsgQ) : List IsrMsgQueue := contents q.mem q.max q.rd q.wt

variable {sw : ℕ → ChnSw} {status : IntStatus} {q : MsgQ} {s s' : Isr} {chn n : ℕ}

theorem MsgQ.Fits.mono (h : q.Fits (n + 1)) : q.Fits n :=
  ⟨h.max, h.rd, h.wt, Nat.lt_of_succ_lt h.room⟩

theorem MsgQ.Fits.enqueue (h : q.Fits (n + 1)) (msg : IsrMsgQueue) :
    (enqueue q msg).Fits n ∧
      (enqueue q msg).messages = q.messages ++ [{ msg with seq := q.seq + 1 }] := by
  have hroom := h.room
  have hopen : (q.wt + 1) % q.max ≠ q.rd := by
    intro hfull
    have hlast := (full_iff h.rd h.wt).mp hfull
    omega
  rw [EdmaIrq.enqueue, if_neg hopen]
  refine ⟨⟨h.max, h.rd, next_lt h.wt, ?_⟩, contents_put h.rd h.wt hopen _⟩
  dsimp only
  rw [ahead_next h.rd h.wt (by omega)]
  omega

/-- What the tasklet does for a message. -/
def IsrMsgQueue.work (sw : ℕ → ChnSw) (msg : IsrMsgQueue) : List (ℕ × IntKind) :=
  (hisrfunc (sw msg.chn) msg).map fun kind => (msg.chn, kind)

/-- What has been processed and what the tasklet still will. -/
def Isr.total (sw : ℕ → ChnSw) (s : Isr) : Multiset (ℕ × IntKind) :=
  s.processed + (s.queue.messages.flatMap (IsrMsgQueue.work sw) : List (ℕ × IntKind))

theorem total_idle (hempty : s.queue.wt = s.queue.rd) : s.total sw = s.processed := by
  rw [Isr.total, MsgQ.messages, hempty, contents_self]
  exact add_zero _

theorem total_process (chn : ℕ) (kinds : List IntKind) :
    (s.process chn kinds).total sw =
      s.total sw + (kinds.map fun kind => (chn, kind) : List (ℕ × IntKind)) := by
  rw [Isr.total, Isr.process, ← Multiset.coe_add, add_right_comm]
  rfl

theorem total_defer (h : s.queue.Fits (n + 1)) (msg : IsrMsgQueue) :
    (s.defer msg).total sw = s.total sw + (msg.work sw : List (ℕ × IntKind)) := by
  rw [Isr.total, Isr.defer]
  dsimp only
  rw [(h.enqueue msg).2, List.flatMap_append, List.flatMap_singleton, ← Multiset.coe_add, ← add_assoc]
  rfl

theorem cleared_write (chn : ℕ) (reg : DmaInt) (x : ℕ × IntKind) :
    (s.write chn reg).Cleared x ↔ s.Cleared x ∨ (x.1 = chn ∧ reg.clr x.2 = true) := by
  rw [Isr.Cleared, Isr.Cleared, Isr.write]
  dsimp only
  constructor
  · rintro ⟨reg', hmem, hclr⟩
    rcases List.mem_append.mp hmem with hmem | hmem
    · exact .inl ⟨reg', hmem, hclr⟩
    · have heq := List.mem_singleton.mp hmem
      have hreg : reg' = reg := congrArg Prod.snd heq
      exact .inr ⟨congrArg Prod.fst heq, hreg ▸ hclr⟩
  · rintro (⟨reg', hmem, hclr⟩ | ⟨rfl, hclr⟩)
    · exact ⟨reg', List.mem_append_left _ hmem, hclr⟩
    · exact ⟨reg, List.mem_append_right _ (List.mem_singleton_self _), hclr⟩

theorem dequeue_none (hempty : q.wt = q.rd) : dequeue q = none := if_pos hempty

theorem dequeue_some (h : q.Fits 0) (hne : q.wt ≠ q.rd) :
    ∃ msg q', dequeue q = some (msg, q') ∧ q'.Fits 0 ∧ q.messages = msg :: q'.messages ∧
      ahead q'.max q'.rd q'.wt + 1 = ahead q.max q.rd q.wt := by
  have hway := ahead_next_left h.rd h.wt hne.symm
  have hroom := h.room
  refine ⟨_, _, if_neg hne, ⟨h.max, next_lt h.rd, h.wt, ?_⟩, contents_take _ h.rd h.wt hne.symm, hway⟩
  dsimp only
  omega

/-- The tasklet leaves nothing in the queue and writes nothing to the hardware. -/
theorem tasklet_spec (sw : ℕ → ChnSw) (h : s.queue.Fits 0) (hn : ahead s.queue.max s.queue.rd s.queue.wt ≤ n) :
    ((edmaTasklet sw n s).processed : Multiset (ℕ × IntKind)) = s.total sw ∧
      (edmaTasklet sw n s).written = s.written ∧
      (edmaTasklet sw n s).queue.wt = (edmaTasklet sw n s).queue.rd ∧
      (edmaTasklet sw n s).queue.rd < MSG_Q_MAX ∧ (edmaTasklet sw n s).queue.max = MSG_Q_MAX := by
  induction n generalizing s with
  | zero =>
    have hempty := (ahead_eq_zero h.rd h.wt).mp (Nat.le_zero.mp hn)
    exact ⟨(total_idle hempty.symm).symm, rfl, hempty.symm, h.max ▸ h.rd, h.max⟩
  | succ n ih =>
    rw [edmaTasklet]
    by_cases hempty : s.queue.wt = s.queue.rd
    · rw [dequeue_none hempty]
      exact ⟨(total_idle hempty).symm, rfl, hempty, h.max ▸ h.rd, h.max⟩
    · obtain ⟨msg, q', hrun, hfits, hmessages, hway⟩ := dequeue_some h hempty
      rw [hrun]
      dsimp only
      have hsame : (({ s with queue := q' } : Isr).process msg.chn
          (hisrfunc (sw msg.chn) msg)).total sw = s.total sw := by
        rw [total_process, Isr.total, Isr.total, hmessages, List.flatMap_cons, ← Multiset.coe_add,
          add_assoc, add_comm (Multiset.ofList (List.flatMap _ _))]
        rfl
      obtain ⟨hprocessed, hwritten, hrest⟩ := ih
        (s := ({ s with queue := q' } : Isr).process msg.chn (hisrfunc (sw msg.chn) msg)) hfits
        (show ahead q'.max q'.rd q'.wt ≤ n by omega)
      exact ⟨hprocessed.trans hsame, hwritten, hrest⟩

/-! ## The legacy interrupt -/

/-- The events of the direction of a channel. -/
def ChnSw.directed (sw : ChnSw) : List IntKind :=
  if sw.inout ≠ 0 then [.txPop, .txComplete] else [.rxPop, .rxPush]

/-- What `legacy_irq_handle` has processed for a channel, at once or by the tasklet. -/
def legacyKinds (sw : ChnSw) (status : IntStatus) : List IntKind :=
  if status.maskStatus .cfgErr then []
  else if sw.mode = TWO_LINK_MODE then
    if sw.cbInIrq = 0 then
      sw.directed.filter status.maskStatus ++ sw.directed.filter status.maskStatus
    else if sw.cbInIrq = -1 then []
    else sw.directed.filter status.maskStatus
  else if sw.mode = ONE_LINK_MODE then [.txComplete]
  else if sw.mode = NON_LINK_MODE then [.txComplete].filter status.maskStatus
  else []

/-- What it clears of the channel. -/
def legacyClears (sw : ChnSw) (status : IntStatus) : List IntKind :=
  if status.maskStatus .cfgErr then []
  else if sw.mode = TWO_LINK_MODE then sw.directed.filter status.maskStatus
  else if sw.mode = ONE_LINK_MODE ∨ sw.mode = NON_LINK_MODE then
    [.txPop, .txComplete].filter status.maskStatus
  else status.pending

/-- What a handler does for some channels: `done` is processed, at once or from the queue, and the
events of which `Clears` tells are cleared. -/
structure Handles (sw : ℕ → ChnSw) (n : ℕ) (s s' : Isr) (done : List (ℕ × IntKind))
    (Clears : ℕ × IntKind → Prop) : Prop where
  fits : s'.queue.Fits n
  total : s'.total sw = s.total sw + (done : Multiset (ℕ × IntKind))
  cleared : ∀ x, x.2 ∈ events → (s'.Cleared x ↔ s.Cleared x ∨ Clears x)

theorem read_maskStatus (status : IntStatus) : status.read.maskStatus = status.maskStatus := rfl

theorem clear_maskStatus (reg : DmaInt) (kind : IntKind) :
    (reg.clear kind).maskStatus = reg.maskStatus := by
  rw [DmaInt.clear]
  split <;> rfl

theorem clear_clr (reg : DmaInt) (kind other : IntKind) :
    (reg.clear kind).clr other = true ↔
      reg.clr other = true ∨ (other = kind ∧ reg.maskStatus kind = true) := by
  rw [DmaInt.clear, DmaInt.setClr]
  by_cases hpending : reg.maskStatus kind = true
  · rw [if_pos hpending]
    by_cases hsame : other = kind
    · rw [hsame]
      exact iff_of_true (Function.update_self ..) (.inr ⟨rfl, hpending⟩)
    · dsimp only
      rw [Function.update_of_ne hsame]
      exact ⟨.inl, fun h => h.resolve_right fun h' => hsame h'.1⟩
  · rw [if_neg hpending]
    exact ⟨.inl, fun h => h.resolve_right fun h' => hpending h'.2⟩

/-- A register is written back with the pending ones of some events cleared. -/
theorem clears_clr (status : IntStatus) (kinds : List IntKind) (other : IntKind) :
    (kinds.foldl DmaInt.clear status.read).clr other = true ↔ other ∈ kinds.filter status.maskStatus := by
  have hfold : ∀ reg : DmaInt, reg.maskStatus = status.maskStatus →
      ((kinds.foldl DmaInt.clear reg).clr other = true ↔
        reg.clr other = true ∨ other ∈ kinds.filter status.maskStatus) := by
    induction kinds with
    | nil =>
      intro reg _
      exact ⟨.inl, fun h => h.resolve_right List.not_mem_nil⟩
    | cons kind kinds ih =>
      intro reg hreg
      rw [List.foldl_cons, ih _ ((clear_maskStatus reg kind).trans hreg), clear_clr, hreg,
        List.mem_filter, List.mem_filter, List.mem_cons]
      grind
  rw [hfold status.read rfl]
  exact or_iff_right Bool.false_ne_true

theorem filter_nil_iff (sw : ChnSw) (status : IntStatus) : sw.directed.filter status.maskStatus = [] ↔
    (if sw.inout ≠ 0 then !status.maskStatus .txPop && !status.maskStatus .txComplete
      else !status.maskStatus .rxPop && !status.maskStatus .rxPush) = true := by
  rw [ChnSw.directed]
  split <;> simp

theorem intx_work (hmode : (sw chn).mode = TWO_LINK_MODE) :
    hisrfunc (sw chn) ⟨0, chn, .intx, status.read⟩ = (sw chn).directed.filter status.maskStatus := by
  rw [hisrfunc, ChnSw.directed]
  dsimp only
  rw [if_pos hmode]
  split <;> rfl

theorem legacyChannel_spec (sw : ℕ → ChnSw) (chn : ℕ) (status : IntStatus)
    (h : s.queue.Fits (n + 1)) (ret : ℤ) :
    Handles sw n s (legacyChannel (sw chn) chn status (s, ret)).1
      ((legacyKinds (sw chn) status).map fun kind => (chn, kind))
      (fun x => x.1 = chn ∧ x.2 ∈ legacyClears (sw chn) status) := by
  -- the handler writes one word and adds to what is processed
  have hwrite (kinds : List IntKind) (x : ℕ × IntKind) :
      (s.write chn (kinds.foldl DmaInt.clear status.read)).Cleared x ↔
        s.Cleared x ∨ (x.1 = chn ∧ x.2 ∈ kinds.filter status.maskStatus) := by
    rw [cleared_write, clears_clr]
  rw [legacyChannel, legacyKinds, legacyClears]
  dsimp only
  rw [read_maskStatus]
  by_cases hcfg : status.maskStatus .cfgErr = true
  · rw [if_pos hcfg, if_pos hcfg, if_pos hcfg]
    refine ⟨h.mono, (add_zero _).symm, fun x hx => ?_⟩
    have hother : x.2 ≠ .cfgErr := by
      intro heq
      rw [heq] at hx
      exact absurd hx (by decide)
    have hclr : (status.read.setClr .cfgErr).clr x.2 = false := Function.update_of_ne hother ..
    rw [cleared_write, hclr]
    exact or_congr_right (iff_of_false (fun h => Bool.false_ne_true h.2)
      fun h => List.not_mem_nil h.2)
  rw [if_neg hcfg, if_neg hcfg, if_neg hcfg]
  by_cases htwo : (sw chn).mode = TWO_LINK_MODE
  · rw [if_pos htwo, if_pos htwo, if_pos htwo]
    have hdirected : (if (sw chn).inout ≠ 0 then (status.read.clear .txPop).clear .txComplete
        else (status.read.clear .rxPop).clear .rxPush) =
        (sw chn).directed.foldl DmaInt.clear status.read := by
      rw [ChnSw.directed]
      split <;> rfl
    have hnil := filter_nil_iff (sw chn) status
    rw [intx_work htwo, hdirected]
    by_cases hdiscard : (sw chn).directed.filter status.maskStatus = []
    · rw [if_pos (hnil.mp hdiscard), hdiscard]
      refine ⟨h.mono, ?_, fun x _ => hdiscard ▸ hwrite _ x⟩
      rw [List.append_nil, ite_self, ite_self]
      exact (add_zero _).symm
    · rw [if_neg (mt hnil.mpr hdiscard)]
      by_cases hlater : (sw chn).cbInIrq = 0
      · rw [if_pos hlater, if_pos hlater]
        refine ⟨(h.enqueue _).1, ?_, fun x _ => hwrite _ x⟩
        rw [total_process, total_defer (s := s.write chn _) h, IsrMsgQueue.work, intx_work htwo,
          List.map_append, ← Multiset.coe_add, ← add_assoc]
        rfl
      · rw [if_neg hlater, if_neg hlater]
        by_cases hunknown : (sw chn).cbInIrq = -1
        · rw [if_pos hunknown, if_pos hunknown]
          exact ⟨h.mono, (add_zero _).symm, fun x _ => hwrite _ x⟩
        · rw [if_neg hunknown, if_neg hunknown]
          exact ⟨h.mono, total_process .., fun x _ => hwrite _ x⟩
  rw [if_neg htwo, if_neg htwo, if_neg htwo]
  by_cases hone : (sw chn).mode = ONE_LINK_MODE
  · rw [if_pos hone, if_pos hone, if_pos (.inl hone)]
    refine ⟨h.mono, total_process .., fun x _ => ?_⟩
    have hswap : x.2 ∈ [IntKind.txComplete, .txPop].filter status.maskStatus ↔
        x.2 ∈ [IntKind.txPop, .txComplete].filter status.maskStatus :=
      ((List.Perm.swap ..).filter _).mem_iff
    exact (hwrite [.txComplete, .txPop] x).trans (or_congr_right (and_congr_right' hswap))
  rw [if_neg hone, if_neg hone]
  by_cases hnon : (sw chn).mode = NON_LINK_MODE
  · rw [if_pos hnon, if_pos hnon, if_pos (.inr hnon)]
    exact ⟨h.mono, total_process .., fun x _ => hwrite [.txPop, .txComplete] x⟩
  · rw [if_neg hnon, if_neg hnon, if_neg (not_or.mpr ⟨hone, hnon⟩)]
    exact ⟨h.mono, (add_zero _).symm, fun x _ => hwrite events x⟩

theorem Handles.trans {s'' : Isr} {m : ℕ} {done done' : List (ℕ × IntKind)}
    {Clears Clears' : ℕ × IntKind → Prop} (h : Handles sw m s s' done Clears)
    (h' : Handles sw n s' s'' done' Clears') :
    Handles sw n s s'' (done ++ done') fun x => Clears x ∨ Clears' x := by
  refine ⟨h'.fits, ?_, fun x hx => ?_⟩
  · rw [h'.total, h.total, ← Multiset.coe_add, add_assoc]
  · rw [h'.cleared x hx, h.cleared x hx, or_assoc]

/-- The loop of `legacy_irq_handle`. -/
theorem legacyLoop_spec (sw : ℕ → ChnSw) (maskStatus : BitVec 32) (dmaInt : ℕ → IntStatus)
    (chns : List ℕ) (ret : ℤ) (h : s.queue.Fits (chns.length + n)) :
    Handles sw n s
      (chns.foldl (fun x chn =>
        if maskStatus.getLsbD chn then legacyChannel (sw chn) chn (dmaInt chn) x else x) (s, ret)).1
      ((chns.filter fun chn => maskStatus.getLsbD chn).flatMap fun chn =>
        (legacyKinds (sw chn) (dmaInt chn)).map fun kind => (chn, kind))
      (fun x => x.1 ∈ (chns.filter fun chn => maskStatus.getLsbD chn) ∧
        x.2 ∈ legacyClears (sw x.1) (dmaInt x.1)) := by
  induction chns generalizing s ret with
  | nil =>
    rw [List.length_nil, Nat.zero_add] at h
    exact ⟨h, (add_zero _).symm, fun x _ => (or_iff_left fun hno => List.not_mem_nil hno.1).symm⟩
  | cons chn chns ih =>
    rw [List.length_cons, Nat.add_right_comm] at h
    rw [List.foldl_cons]
    by_cases hmask : maskStatus.getLsbD chn = true
    · rw [if_pos hmask, List.filter_cons_of_pos hmask, List.flatMap_cons]
      have hfirst := legacyChannel_spec sw chn (dmaInt chn) h ret
      have hall := hfirst.trans (ih (legacyChannel (sw chn) chn (dmaInt chn) (s, ret)).2 hfirst.fits)
      refine ⟨hall.fits, hall.total, fun x hx => (hall.cleared x hx).trans (or_congr_right ?_)⟩
      rw [List.mem_cons, or_and_right]
      refine or_congr_left (and_congr_right fun hsame => ?_)
      rw [hsame]
    · rw [if_neg hmask, List.filter_cons_of_neg hmask]
      exact ih ret h.mono

theorem Isr.Fresh.fits (h : s.Fresh) : s.queue.Fits (MSG_Q_MAX - 1) := by
  have hrd := h.rd
  refine ⟨h.max, h.max.symm ▸ h.rd, h.wt.symm ▸ h.max.symm ▸ h.rd, ?_⟩
  rw [h.wt, ahead_self, h.max]
  decide

theorem Isr.Fresh.total (h : s.Fresh) : s.total sw = 0 := by
  rw [total_idle h.wt, h.processed]
  rfl

theorem Isr.Fresh.not_cleared (h : s.Fresh) (x : ℕ × IntKind) : ¬ s.Cleared x := by
  rintro ⟨reg, hmem, -⟩
  rw [h.written] at hmem
  exact List.not_mem_nil hmem

theorem legacyOutcome_spec (sw : ℕ → ChnSw) (h : s.Fresh) (maskStatus : BitVec 32) (dmaInt : ℕ → IntStatus) :
    ((legacyOutcome sw maskStatus dmaInt s).processed : Multiset (ℕ × IntKind)) =
        ((channels maskStatus).flatMap fun chn =>
          (legacyKinds (sw chn) (dmaInt chn)).map fun kind => (chn, kind) : List (ℕ × IntKind)) ∧
      ∀ x, x.2 ∈ events → ((legacyOutcome sw maskStatus dmaInt s).Cleared x ↔
        x.1 ∈ channels maskStatus ∧ x.2 ∈ legacyClears (sw x.1) (dmaInt x.1)) := by
  have hroom : s.queue.Fits ((List.range 32).length + 17) := h.fits
  have hloop := legacyLoop_spec sw maskStatus dmaInt (List.range 32) 0 hroom
  have hfits : (legacyIrqHandle sw maskStatus dmaInt s).1.queue.Fits 0 :=
    ⟨hloop.fits.max, hloop.fits.rd, hloop.fits.wt, Nat.lt_of_le_of_lt (Nat.le_add_right ..) hloop.fits.room⟩
  obtain ⟨hprocessed, hwritten, -⟩ := tasklet_spec sw (n := MSG_Q_MAX) hfits
    (Nat.le_of_lt (hfits.max ▸ hfits.room))
  refine ⟨?_, fun x hx => ?_⟩
  · rw [legacyOutcome, hprocessed]
    exact hloop.total.trans (by rw [h.total, zero_add]; rfl)
  · have hsame : (legacyOutcome sw maskStatus dmaInt s).Cleared x ↔
        (legacyIrqHandle sw maskStatus dmaInt s).1.Cleared x := by
      rw [Isr.Cleared, Isr.Cleared, legacyOutcome, hwritten]
    exact hsame.trans ((hloop.cleared x hx).trans (or_iff_right (h.not_cleared x)))

/-! ## The vectors -/

/-- The event that `msi_irq_handle` takes the vector of an event for. -/
def ChnSw.served (sw : ChnSw) (kind : IntKind) : IntKind :=
  if sw.inout = TX then
    if kind = .txPop ∨ kind = .rxPop then .txPop else .txComplete
  else
    if kind = .txPop ∨ kind = .rxPop then .rxPop else .rxPush

/-- What `msi_irq_handle` has processed for an event. -/
def msiDone (sw : ℕ → ChnSw) (x : ℕ × IntKind) : List (ℕ × IntKind) :=
  if (sw x.1).cbInIrq = -1 then [] else [(x.1, (sw x.1).served x.2)]

theorem vector_div (x : ℕ × IntKind) : vector x / 2 = x.1 := by
  rw [vector]
  split <;> omega

theorem vector_mod (x : ℕ × IntKind) : vector x % 2 = 0 ↔ x.2 = .txPop ∨ x.2 = .rxPop := by
  obtain ⟨chn, kind⟩ := x
  cases kind <;> simp [vector]

/-- A register is written as often as the hardware asks for, at least once. -/
theorem writes_clear (s : Isr) (chn n : ℕ) (reg : DmaInt) :
    (((List.range (n + 1)).foldl (fun s _ => s.write chn reg) s).queue = s.queue ∧
      ((List.range (n + 1)).foldl (fun s _ => s.write chn reg) s).processed = s.processed) ∧
    ∀ x, ((List.range (n + 1)).foldl (fun s _ => s.write chn reg) s).Cleared x ↔
      s.Cleared x ∨ (x.1 = chn ∧ reg.clr x.2 = true) := by
  induction n with
  | zero => exact ⟨⟨rfl, rfl⟩, cleared_write chn reg⟩
  | succ n ih =>
    rw [List.range_succ, List.foldl_append]
    refine ⟨ih.1, fun x => (cleared_write chn reg x).trans ?_⟩
    rw [ih.2, or_assoc, or_self]

theorem setClr_clr (status : IntStatus) (kind other : IntKind) :
    (status.read.setClr kind).clr other = true ↔ other = kind := by
  by_cases hsame : other = kind
  · exact iff_of_true (hsame ▸ Function.update_self ..) hsame
  · refine iff_of_false (fun h => ?_) hsame
    have hclr : (status.read.setClr kind).clr other = false := Function.update_of_ne hsame ..
    exact Bool.false_ne_true (hclr.symm.trans h)

theorem msiIrqHandle_spec (sw : ℕ → ChnSw) (h : s.queue.Fits (n + 1)) (dmaInt : ℕ → IntStatus) (shown : ℕ)
    (x : ℕ × IntKind) :
    Handles sw n s (msiIrqHandle sw dmaInt shown (vector x) s).1 (msiDone sw x)
      (fun y => y = (x.1, (sw x.1).served x.2)) := by
  have hwrite (kind : IntKind) (y : ℕ × IntKind) :
      (s.write x.1 ((dmaInt x.1).read.setClr kind)).Cleared y ↔ s.Cleared y ∨ y = (x.1, kind) := by
    rw [cleared_write, setClr_clr, Prod.ext_iff]
  -- what is done after the register has been written
  have hcall (s' : Isr) (msg : IsrMsgQueue) (hchn : msg.chn = x.1)
      (hkind : hisrfunc (sw x.1) msg = [(sw x.1).served x.2]) (hqueue : s'.queue = s.queue)
      (hprocessed : s'.processed = s.processed)
      (hcleared : ∀ y, s'.Cleared y ↔ s.Cleared y ∨ y = (x.1, (sw x.1).served x.2)) :
      Handles sw n s (if (sw x.1).cbInIrq = 0 then (s'.defer msg, (0 : ℤ))
        else if (sw x.1).cbInIrq = -1 then (s', -1)
        else (s'.process x.1 (hisrfunc (sw x.1) msg), 0)).1 (msiDone sw x)
        (fun y => y = (x.1, (sw x.1).served x.2)) := by
    have htotal : s'.total sw = s.total sw := by rw [Isr.total, Isr.total, hqueue, hprocessed]
    have hfits : s'.queue.Fits (n + 1) := hqueue ▸ h
    by_cases hlater : (sw x.1).cbInIrq = 0
    · have hdone : msiDone sw x = [(x.1, (sw x.1).served x.2)] :=
        if_neg (by rw [hlater]; decide)
      rw [if_pos hlater, hdone]
      refine ⟨(hfits.enqueue msg).1, ?_, fun y _ => hcleared y⟩
      rw [total_defer hfits, htotal, IsrMsgQueue.work, hchn, hkind]
      rfl
    · rw [if_neg hlater]
      by_cases hunknown : (sw x.1).cbInIrq = -1
      · rw [if_pos hunknown, msiDone, if_pos hunknown]
        exact ⟨hfits.mono, htotal.trans (add_zero _).symm, fun y _ => hcleared y⟩
      · rw [if_neg hunknown, msiDone, if_neg hunknown]
        refine ⟨hfits.mono, ?_, fun y _ => hcleared y⟩
        rw [total_process, htotal, hkind]
        rfl
  rw [msiIrqHandle, vector_div]
  by_cases htx : (sw x.1).inout = TX
  · rw [if_pos htx]
    by_cases hpop : vector x % 2 = 0
    · have hserved : (sw x.1).served x.2 = .txPop := by
        rw [ChnSw.served, if_pos htx, if_pos ((vector_mod x).mp hpop)]
      rw [if_pos hpop]
      exact hcall _ _ rfl (congrArg ([·]) hserved.symm) rfl rfl (hserved ▸ hwrite .txPop)
    · have hserved : (sw x.1).served x.2 = .txComplete := by
        rw [ChnSw.served, if_pos htx, if_neg (hpop ∘ (vector_mod x).mpr)]
      rw [if_neg hpop]
      exact hcall _ _ rfl (congrArg ([·]) hserved.symm) rfl rfl (hserved ▸ hwrite .txComplete)
  · rw [if_neg htx]
    by_cases hpop : vector x % 2 = 0
    · have hserved : (sw x.1).served x.2 = .rxPop := by
        rw [ChnSw.served, if_neg htx, if_pos ((vector_mod x).mp hpop)]
      have hwrites := writes_clear s x.1 shown ((dmaInt x.1).read.setClr .rxPop)
      rw [if_pos hpop]
      refine hcall _ _ rfl (congrArg ([·]) hserved.symm) hwrites.1.1 hwrites.1.2 fun y => ?_
      rw [hwrites.2, setClr_clr, hserved, Prod.ext_iff]
    · have hserved : (sw x.1).served x.2 = .rxPush := by
        rw [ChnSw.served, if_neg htx, if_neg (hpop ∘ (vector_mod x).mpr)]
      rw [if_neg hpop]
      exact hcall _ _ rfl (congrArg ([·]) hserved.symm) rfl rfl (hserved ▸ hwrite .rxPush)

/-- The vectors of some events, one after the other. -/
theorem msiOutcome_spec (sw : ℕ → ChnSw) (dmaInt : ℕ → IntStatus) (shown : ℕ → ℕ) (xs : List (ℕ × IntKind))
    (hmax : s.queue.max = MSG_Q_MAX) (hwt : s.queue.wt = s.queue.rd) (hrd : s.queue.rd < MSG_Q_MAX) :
    ((msiOutcome sw dmaInt shown (xs.map vector) s).processed : Multiset (ℕ × IntKind)) =
        s.processed + (xs.flatMap (msiDone sw) : List (ℕ × IntKind)) ∧
      ∀ y, y.2 ∈ events → ((msiOutcome sw dmaInt shown (xs.map vector) s).Cleared y ↔
        s.Cleared y ∨ ∃ x ∈ xs, y = (x.1, (sw x.1).served x.2)) := by
  induction xs generalizing s with
  | nil => exact ⟨(add_zero _).symm, fun y _ => (or_iff_left fun ⟨_, hno, _⟩ => List.not_mem_nil hno).symm⟩
  | cons x xs ih =>
    have hfits : s.queue.Fits (0 + 1) := by
      refine ⟨hmax, hmax.symm ▸ hrd, hwt.symm ▸ hmax.symm ▸ hrd, ?_⟩
      rw [hwt, ahead_self, hmax]
      decide
    have hfirst := msiIrqHandle_spec sw hfits dmaInt (shown (vector x)) x
    obtain ⟨hprocessed, hwritten, hwt', hrd', hmax'⟩ := tasklet_spec sw (n := MSG_Q_MAX)
      hfirst.fits (Nat.le_of_lt (hfirst.fits.max ▸ hfirst.fits.room))
    obtain ⟨hrest, hcleared⟩ := ih hmax' hwt' hrd'
    refine ⟨hrest.trans ?_, fun y hy => (hcleared y hy).trans ?_⟩
    · rw [hprocessed, hfirst.total, total_idle hwt, List.flatMap_cons, ← Multiset.coe_add, add_assoc]
    · have hsame : (edmaTasklet sw MSG_Q_MAX
          (msiIrqHandle sw dmaInt (shown (vector x)) (vector x) s).1).Cleared y ↔
          (msiIrqHandle sw dmaInt (shown (vector x)) (vector x) s).1.Cleared y := by
        rw [Isr.Cleared, Isr.Cleared, hwritten]
      rw [hsame, hfirst.cleared y hy, or_assoc, List.exists_mem_cons_iff]

/-! ## One channel -/

/-- The two handlers agree on a channel. -/
structure ChannelAgrees (sw : ChnSw) (status : IntStatus) : Prop where
  once : ∀ kind ∈ status.pending, (legacyKinds sw status).count kind = 1
  same : ∀ kind, kind ∈ legacyKinds sw status ↔
    sw.cbInIrq ≠ -1 ∧ ∃ event ∈ status.pending, kind = sw.served event
  clears : ∀ kind ∈ events, (kind ∈ legacyClears sw status ↔
    ∃ event ∈ status.pending, kind = sw.served event)

section Channel
variable {cfg : ChnSw} {kind : IntKind}

theorem directed_events : ∀ kind ∈ cfg.directed, kind ∈ events := by
  rw [ChnSw.directed]
  split <;> decide

theorem pending_off (h : kind ∉ status.pending) (hkind : kind ∈ events) :
    status.maskStatus kind = false :=
  Bool.eq_false_iff.mpr fun hon => h (List.mem_filter.mpr ⟨hkind, hon⟩)

theorem agrees_of_eq (hkinds : legacyKinds cfg status = status.pending)
    (hclears : legacyClears cfg status = status.pending)
    (hregistered : status.pending = [] ∨ cfg.cbInIrq ≠ -1)
    (hserved : ∀ event ∈ status.pending, cfg.served event = event) : ChannelAgrees cfg status := by
  have hnodup : status.pending.Nodup := List.Nodup.filter _ (by decide)
  have hsame (kind : IntKind) :
      kind ∈ status.pending ↔ ∃ event ∈ status.pending, kind = cfg.served event := by
    constructor
    · intro hmem
      exact ⟨kind, hmem, (hserved kind hmem).symm⟩
    · rintro ⟨event, hmem, rfl⟩
      exact (hserved event hmem).symm ▸ hmem
  refine ⟨fun kind hkind => ?_, fun kind => ?_, fun kind _ => ?_⟩
  · rw [hkinds]
    exact List.count_eq_one_of_mem hnodup hkind
  · rw [hkinds, hsame]
    refine (and_iff_right_of_imp fun ⟨event, hmem, _⟩ => ?_).symm
    exact hregistered.resolve_left (List.ne_nil_of_mem hmem)
  · rw [hclears, hsame]

theorem Sane.agrees (h : Sane cfg status) : ChannelAgrees cfg status := by
  obtain ⟨hnone, hone⟩ | ⟨hcfg, hregistered, ⟨htwo, hirq, hdirection⟩ | ⟨hmode, htx, honly⟩⟩ := h
  · have hoff : ∀ kinds : List IntKind, (∀ kind ∈ kinds, kind ∈ events) →
        kinds.filter status.maskStatus = [] := by
      intro kinds hevents
      refine List.filter_eq_nil_iff.mpr fun kind hkind => ?_
      rw [pending_off (hnone ▸ List.not_mem_nil) (hevents kind hkind)]
      exact Bool.false_ne_true
    have hdirected := hoff cfg.directed directed_events
    have hkinds : legacyKinds cfg status = [] := by
      rw [legacyKinds]
      split_ifs with hcfg _ _ _ hmode
      · rfl
      · rw [hdirected]
        rfl
      · rfl
      · exact hdirected
      · exact absurd (hone hmode) hcfg
      · exact hoff _ (by decide)
      · rfl
    have hclears : legacyClears cfg status = [] := by
      rw [legacyClears]
      split_ifs
      · rfl
      · exact hdirected
      · exact hoff _ (by decide)
      · exact hnone
    refine agrees_of_eq (hkinds.trans hnone.symm) (hclears.trans hnone.symm) (.inl hnone) fun _ hmem => ?_
    exact absurd (hnone ▸ hmem) List.not_mem_nil
  · have hcfg' := Bool.eq_false_iff.mp hcfg
    have hdirected : status.pending = cfg.directed.filter status.maskStatus ∧
        ∀ kind ∈ cfg.directed, cfg.served kind = kind := by
      obtain ⟨hinout, hpop, hlast⟩ | ⟨hinout, hpop, hlast⟩ := hdirection
      all_goals
        constructor
        · simp [IntStatus.pending, events, ChnSw.directed, hinout, List.filter_cons, hpop, hlast]
        · simp [ChnSw.directed, ChnSw.served, hinout]
    refine agrees_of_eq ?_ ?_ (.inr hregistered) fun kind hkind => ?_
    · rw [legacyKinds, if_neg hcfg', if_pos htwo, if_neg hirq, if_neg hregistered, hdirected.1]
    · rw [legacyClears, if_neg hcfg', if_pos htwo, hdirected.1]
    · rw [hdirected.1] at hkind
      exact hdirected.2 kind (List.mem_of_mem_filter hkind)
  · have hcfg' := Bool.eq_false_iff.mp hcfg
    have hpop : status.maskStatus .txPop = false := pending_off (by rw [honly]; decide) (by decide)
    have hcomplete : status.maskStatus .txComplete = true := by
      have hmem : IntKind.txComplete ∈ status.pending := honly ▸ List.mem_singleton_self _
      exact (List.mem_filter.mp hmem).2
    have htwo : cfg.mode ≠ TWO_LINK_MODE := by
      rcases hmode with hmode | hmode <;> rw [hmode] <;> decide
    have hkept : [IntKind.txComplete].filter status.maskStatus = [.txComplete] :=
      List.filter_cons_of_pos hcomplete
    refine agrees_of_eq ?_ ?_ (.inr hregistered) fun kind hkind => ?_
    · rw [legacyKinds, if_neg hcfg', if_neg htwo, hkept, honly]
      rcases hmode with hmode | hmode
      · exact if_pos hmode
      · rw [if_pos hmode, ite_self]
    · rw [legacyClears, if_neg hcfg', if_neg htwo, if_pos hmode, honly,
        List.filter_cons_of_neg (Bool.eq_false_iff.mp hpop), hkept]
    · rw [honly, List.mem_singleton] at hkind
      rw [hkind, ChnSw.served, if_pos htx]
      rfl

theorem ChannelAgrees.sane (h : ChannelAgrees cfg status) : Sane cfg status := by
  by_cases hnone : status.pending = []
  · refine .inl ⟨hnone, fun hone => ?_⟩
    by_contra hcfg
    have hkinds : legacyKinds cfg status = [.txComplete] := by
      rw [legacyKinds, if_neg hcfg, if_neg (by rw [hone]; decide), if_pos hone]
    obtain ⟨-, event, hmem, -⟩ := (h.same .txComplete).mp (hkinds ▸ List.mem_singleton_self _)
    exact absurd (hnone ▸ hmem) List.not_mem_nil
  obtain ⟨event, hevent⟩ := List.exists_mem_of_ne_nil _ hnone
  -- what is pending is processed, and what is processed is served
  have hdone : ∀ kind ∈ status.pending, kind ∈ legacyKinds cfg status := fun kind hkind =>
    List.count_pos_iff.mp (h.once kind hkind ▸ Nat.one_pos)
  have hserved : ∀ kind ∈ status.pending, cfg.cbInIrq ≠ -1 ∧ ∃ event, kind = cfg.served event := by
    intro kind hkind
    obtain ⟨hregistered, event, -, heq⟩ := (h.same kind).mp (hdone kind hkind)
    exact ⟨hregistered, event, heq⟩
  obtain ⟨hregistered, source, hsource⟩ := hserved event hevent
  have hsome := hdone event hevent
  have hsub := hdone
  have honce := h.once event hevent
  rw [legacyKinds] at hsome
  simp only [legacyKinds] at hsub
  rw [legacyKinds] at honce
  by_cases hcfg : status.maskStatus .cfgErr = true
  · rw [if_pos hcfg] at hsome
    exact absurd hsome List.not_mem_nil
  rw [if_neg hcfg] at hsome honce
  simp only [if_neg hcfg] at hsub
  refine .inr ⟨Bool.eq_false_iff.mpr hcfg, hregistered, ?_⟩
  by_cases htwo : cfg.mode = TWO_LINK_MODE
  · rw [if_pos htwo] at hsome honce
    simp only [if_pos htwo] at hsub
    have hirq : cfg.cbInIrq ≠ 0 := by
      intro hlater
      rw [if_pos hlater, List.count_append] at honce
      omega
    rw [if_neg hirq, if_neg hregistered] at hsome
    simp only [if_neg hirq, if_neg hregistered] at hsub
    refine .inl ⟨htwo, hirq, ?_⟩
    have hoff : ∀ kind ∈ events, kind ∉ cfg.directed → status.maskStatus kind = false :=
      fun kind hkind hother =>
        pending_off (fun hmem => hother (List.mem_of_mem_filter (hsub kind hmem))) hkind
    have hdirected := List.mem_of_mem_filter hsome
    by_cases hinout : cfg.inout = 0
    · have hrx : cfg.directed = [.rxPop, .rxPush] := if_neg (not_not.mpr hinout)
      rw [hrx] at hoff
      exact .inr ⟨hinout, hoff _ (by decide) (by decide), hoff _ (by decide) (by decide)⟩
    · have htx : cfg.directed = [.txPop, .txComplete] := if_pos hinout
      rw [htx] at hoff hdirected
      refine .inl ⟨?_, hoff _ (by decide) (by decide), hoff _ (by decide) (by decide)⟩
      by_contra hother
      rw [ChnSw.served, if_neg hother] at hsource
      rw [hsource] at hdirected
      split at hdirected <;> exact absurd hdirected (by decide)
  rw [if_neg htwo] at hsome
  simp only [if_neg htwo] at hsub
  -- only a complete transfer is processed
  have hcomplete : (cfg.mode = ONE_LINK_MODE ∨ cfg.mode = NON_LINK_MODE) ∧
      ∀ kind ∈ status.pending, kind = .txComplete := by
    by_cases hone : cfg.mode = ONE_LINK_MODE
    · simp only [if_pos hone] at hsub
      exact ⟨.inl hone, fun kind hkind => List.mem_singleton.mp (hsub kind hkind)⟩
    · rw [if_neg hone] at hsome
      simp only [if_neg hone] at hsub
      by_cases hnon : cfg.mode = NON_LINK_MODE
      · simp only [if_pos hnon] at hsub
        exact ⟨.inr hnon, fun kind hkind => List.mem_singleton.mp (List.mem_of_mem_filter (hsub kind hkind))⟩
      · rw [if_neg hnon] at hsome
        exact absurd hsome List.not_mem_nil
  have hevent' := hcomplete.2 event hevent
  have honly : status.pending = [.txComplete] := by
    have hnodup : status.pending.Nodup := List.Nodup.filter _ (by decide)
    have hall := List.eq_replicate_iff.mpr ⟨rfl, hcomplete.2⟩
    have hlen : status.pending.length = 1 := by
      rw [← List.count_eq_one_of_mem hnodup (hevent' ▸ hevent)]
      exact (List.count_eq_length.mpr fun kind hkind => (hcomplete.2 kind hkind).symm).symm
    rw [hall, hlen]
    rfl
  refine .inr ⟨hcomplete.1, ?_, honly⟩
  by_contra hother
  rw [ChnSw.served, if_neg hother, hevent'] at hsource
  split at hsource <;> cases hsource

end Channel

/-! ## All channels -/

theorem count_pairs {chns : List ℕ} (hnodup : chns.Nodup) (f : ℕ → List IntKind) (x : ℕ × IntKind) :
    (chns.flatMap fun chn => (f chn).map fun kind => (chn, kind)).count x =
      if x.1 ∈ chns then (f x.1).count x.2 else 0 := by
  obtain ⟨own, kind⟩ := x
  induction chns with
  | nil => rfl
  | cons chn chns ih =>
    obtain ⟨hfirst, hrest⟩ := List.nodup_cons.mp hnodup
    rw [List.flatMap_cons, List.count_append, ih hrest]
    by_cases hown : own = chn
    · subst hown
      have hinj : Function.Injective fun kind : IntKind => (own, kind) := fun _ _ h => congrArg Prod.snd h
      rw [if_neg hfirst, if_pos (List.mem_cons_self ..), List.count_map_of_injective _ _ hinj, add_zero]
    · have hnone : ((f chn).map fun kind => (chn, kind)).count (own, kind) = 0 := by
        refine List.count_eq_zero_of_not_mem fun hmem => ?_
        obtain ⟨other, -, heq⟩ := List.mem_map.mp hmem
        exact hown (congrArg Prod.fst heq).symm
      rw [hnone, zero_add]
      simp only [List.mem_cons, hown, false_or]

theorem mem_pending (maskStatus : BitVec 32) (dmaInt : ℕ → IntStatus) (x : ℕ × IntKind) :
    x ∈ pending maskStatus dmaInt ↔ x.1 ∈ channels maskStatus ∧ x.2 ∈ (dmaInt x.1).pending := by
  rw [pending, List.mem_flatMap]
  constructor
  · rintro ⟨chn, hchn, hmem⟩
    obtain ⟨kind, hkind, rfl⟩ := List.mem_map.mp hmem
    exact ⟨hchn, hkind⟩
  · rintro ⟨hchn, hkind⟩
    exact ⟨x.1, hchn, List.mem_map_of_mem hkind⟩

theorem agrees_iff_channels (h : s.Fresh) (maskStatus : BitVec 32) (dmaInt : ℕ → IntStatus)
    (shown : ℕ → ℕ) :
    Agrees (pending maskStatus dmaInt) (legacyOutcome sw maskStatus dmaInt s)
        (msiOutcome sw dmaInt shown ((pending maskStatus dmaInt).map vector) s) ↔
      ∀ chn ∈ channels maskStatus, ChannelAgrees (sw chn) (dmaInt chn) := by
  have hnodup : (channels maskStatus).Nodup := List.nodup_range.filter _
  obtain ⟨hlegacy, hclears⟩ := legacyOutcome_spec sw h maskStatus dmaInt
  obtain ⟨hmsi, hcleared⟩ := msiOutcome_spec sw dmaInt shown (pending maskStatus dmaInt)
    h.max h.wt h.rd
  have hcount (x : ℕ × IntKind) : (legacyOutcome sw maskStatus dmaInt s).processed.count x =
      if x.1 ∈ channels maskStatus then (legacyKinds (sw x.1) (dmaInt x.1)).count x.2 else 0 :=
    ((Multiset.coe_eq_coe.mp hlegacy).count_eq x).trans (count_pairs hnodup _ x)
  have hmem (x : ℕ × IntKind) : x ∈ (legacyOutcome sw maskStatus dmaInt s).processed ↔
      x.1 ∈ channels maskStatus ∧ x.2 ∈ legacyKinds (sw x.1) (dmaInt x.1) := by
    rw [← List.count_pos_iff, hcount]
    split
    · rename_i hchn
      rw [List.count_pos_iff]
      exact (and_iff_right hchn).symm
    · rename_i hchn
      exact iff_of_false (Nat.lt_irrefl 0) fun hno => hchn hno.1
  have hevent (x : ℕ × IntKind) : (∃ y ∈ pending maskStatus dmaInt, x = (y.1, (sw y.1).served y.2)) ↔
      x.1 ∈ channels maskStatus ∧ ∃ event ∈ (dmaInt x.1).pending, x.2 = (sw x.1).served event := by
    constructor
    · rintro ⟨y, hy, rfl⟩
      obtain ⟨hchn, hkind⟩ := (mem_pending ..).mp hy
      exact ⟨hchn, y.2, hkind, rfl⟩
    · rintro ⟨hchn, event, hkind, heq⟩
      exact ⟨(x.1, event), (mem_pending ..).mpr ⟨hchn, hkind⟩, Prod.ext rfl heq⟩
  have hmsiMem (x : ℕ × IntKind) :
      x ∈ (msiOutcome sw dmaInt shown ((pending maskStatus dmaInt).map vector) s).processed ↔
      x.1 ∈ channels maskStatus ∧ ((sw x.1).cbInIrq ≠ -1 ∧
        ∃ event ∈ (dmaInt x.1).pending, x.2 = (sw x.1).served event) := by
    have hdone : x ∈ (pending maskStatus dmaInt).flatMap (msiDone sw) ↔ (sw x.1).cbInIrq ≠ -1 ∧
        ∃ y ∈ pending maskStatus dmaInt, x = (y.1, (sw y.1).served y.2) := by
      rw [List.mem_flatMap]
      constructor
      · rintro ⟨y, hy, hdone⟩
        rw [msiDone] at hdone
        split at hdone
        · exact absurd hdone List.not_mem_nil
        · rename_i hregistered
          obtain rfl := List.mem_singleton.mp hdone
          exact ⟨hregistered, y, hy, rfl⟩
      · rintro ⟨hregistered, y, hy, rfl⟩
        refine ⟨y, hy, ?_⟩
        rw [msiDone, if_neg hregistered]
        exact List.mem_singleton_self _
    rw [← Multiset.mem_coe, hmsi, h.processed, Multiset.coe_nil, zero_add, Multiset.mem_coe, hdone,
      hevent]
    exact and_left_comm
  have hmsiCleared (x : ℕ × IntKind) (hx : x.2 ∈ events) :
      (msiOutcome sw dmaInt shown ((pending maskStatus dmaInt).map vector) s).Cleared x ↔
      x.1 ∈ channels maskStatus ∧ ∃ event ∈ (dmaInt x.1).pending, x.2 = (sw x.1).served event := by
    rw [hcleared x hx, hevent]
    exact or_iff_right (h.not_cleared x)
  constructor
  · intro hagrees chn hchn
    refine ⟨fun kind hkind => ?_, fun kind => ?_, fun kind hkind => ?_⟩
    · have honce := hagrees.once (chn, kind) ((mem_pending ..).mpr ⟨hchn, hkind⟩)
      rwa [hcount, if_pos hchn] at honce
    · have hsame := hagrees.same (chn, kind)
      rwa [hmem, hmsiMem, and_congr_right_iff, forall_prop_of_true hchn] at hsame
    · have hsame := hagrees.clears (chn, kind) hkind
      rwa [hclears _ hkind, hmsiCleared _ hkind, and_congr_right_iff, forall_prop_of_true hchn] at hsame
  · intro hchannels
    refine ⟨fun x hx => ?_, fun x => ?_, fun x hx => ?_⟩
    · obtain ⟨hchn, hkind⟩ := (mem_pending ..).mp hx
      rw [hcount, if_pos hchn]
      exact (hchannels x.1 hchn).once x.2 hkind
    · rw [hmem, hmsiMem]
      exact and_congr_right fun hchn => (hchannels x.1 hchn).same x.2
    · rw [hclears x hx, hmsiCleared x hx]
      exact and_congr_right fun hchn => (hchannels x.1 hchn).clears x.2 hx

/-- The two ways of an interrupt agree if and only if every channel of it is sane. -/
theorem interrupts_agree_iff (sw : ℕ → ChnSw) (maskStatus : BitVec 32) (dmaInt : ℕ → IntStatus)
    (shown : ℕ → ℕ) (h : s.Fresh) :
    Agrees (pending maskStatus dmaInt) (legacyOutcome sw maskStatus dmaInt s)
        (msiOutcome sw dmaInt shown ((pending maskStatus dmaInt).map vector) s) ↔
      ∀ chn ∈ channels maskStatus, Sane (sw chn) (dmaInt chn) :=
  (agrees_iff_channels h maskStatus dmaInt shown).trans
    ⟨fun hall chn hchn => (hall chn hchn).sane, fun hall chn hchn => (hall chn hchn).agrees⟩

/-- `create_queue` -/
def freshIsr : Isr where
  queue := ⟨0, 0, 0, MSG_Q_MAX, fun _ => ⟨0, 0, .intx, IntStatus.read ⟨fun _ => true, fun _ => false, fun _ => false⟩⟩⟩
  processed := []
  written := []

/-- A transfer of the channel is complete. -/
def oneComplete : IntStatus :=
  ⟨fun _ => true, fun kind => kind = .txComplete, fun kind => kind = .txComplete⟩

theorem callback_in_interrupt_agrees :
    Agrees (pending 1 fun _ => oneComplete)
      (legacyOutcome (fun _ => ⟨TWO_LINK_MODE, TX, 1⟩) 1 (fun _ => oneComplete) freshIsr)
      (msiOutcome (fun _ => ⟨TWO_LINK_MODE, TX, 1⟩) (fun _ => oneComplete) (fun _ => 0)
        ((pending 1 fun _ => oneComplete).map vector) freshIsr) :=
  (interrupts_agree_iff (fun _ => ⟨TWO_LINK_MODE, TX, 1⟩) 1 (fun _ => oneComplete) (fun _ => 0)
    (s := freshIsr) ⟨rfl, rfl, by decide, rfl, rfl⟩).mpr fun _ _ =>
    .inr ⟨rfl, by decide, .inl ⟨rfl, by decide, .inl ⟨rfl, rfl, rfl⟩⟩⟩

/-- A complete transfer whose callback is left to the tasklet is processed in the interrupt too. -/
theorem deferred_event_processed_twice :
    ¬ Agrees (pending 1 fun _ => oneComplete)
      (legacyOutcome (fun _ => ⟨TWO_LINK_MODE, TX, 0⟩) 1 (fun _ => oneComplete) freshIsr)
      (msiOutcome (fun _ => ⟨TWO_LINK_MODE, TX, 0⟩) (fun _ => oneComplete) (fun _ => 0)
        ((pending 1 fun _ => oneComplete).map vector) freshIsr) := by
  intro h
  have honce := h.once (0, .txComplete) (by decide)
  exact absurd honce (by decide)

end Uwe5631.EdmaIrq
