import Uwe5631.EdmaRing

/-!
# The pending queue of an EDMA channel

A transmitting channel has one transfer in flight at a time. While it is busy, the lists given to
`edma_push_link_async` wait in a queue, from which the interrupt of a complete transfer pushes the
next one. Calls and interrupts interleave between the sections that hold the lock of the queue.
-/
namespace Uwe5631.Edma
open RingBuffer FallibleRuns

/-- An entry of `pending_q.ring`. -/
structure Link where
  head : Option MbufAddr
  tail : Option MbufAddr
  num : ℤ
  deriving DecidableEq, Repr

abbrev PENDING_RING_SIZE : ℕ := 32

/-- `struct edma_pending_q` -/
structure EdmaPendingQ where
  ring : ℕ → Link
  wt : ℕ
  rd : ℕ
  max : ℕ
  status : Bool

/-- `edma_pending_q_buffer`, with what it returns. -/
def edmaPendingQBuffer (q : EdmaPendingQ) (link : Link) : Except Fault (ℤ × EdmaPendingQ) :=
  if q.max = 0 then .error .divideByZero
  else if (q.wt + 1) % q.max = q.rd then .ok (-1, q)
  else if PENDING_RING_SIZE ≤ q.wt then .error .outOfBounds
  else .ok (0, { q with ring := Function.update q.ring q.wt link, wt := next q.max q.wt })

/-- `edma_pending_q_num` -/
def edmaPendingQNum (q : EdmaPendingQ) : ℕ :=
  if q.rd ≤ q.wt then q.wt - q.rd else q.wt + (q.max - q.rd)

/-- `edma_pending_q_flush` as long as it holds the lock, with the entry it is about to push. -/
def edmaPendingQFlush (q : EdmaPendingQ) : Except Fault (Option Link × EdmaPendingQ) :=
  if edmaPendingQNum q = 0 then .ok (none, { q with status := false })
  else if PENDING_RING_SIZE ≤ q.rd then .error .outOfBounds
  else .ok (some (q.ring q.rd), { q with rd := next q.max q.rd })

/-- `edma_pending_q_init` -/
def edmaPendingQInit (max : ℕ) : EdmaPendingQ where
  ring := fun _ => ⟨none, none, 0⟩
  wt := 0
  rd := 0
  max := max
  status := false

/-- A list that is about to be given to `edma_push_link`, by a call of `edma_push_link_async` or by
`edma_pending_q_flush`. -/
structure Job where
  call : Option ℕ
  link : Link
  deriving DecidableEq, Repr

/-- A channel with its queue, and what calls and interrupts are about to do. -/
structure System where
  channel : Channel
  queue : EdmaPendingQ
  maxPending : ℤ
  wait : ℤ
  /-- between the lock of the queue and `edma_push_link` -/
  pushing : List Job
  /-- interrupts between taking back descriptors and the lock of the queue -/
  flushing : ℕ
  /-- transfers that the hardware has not completed -/
  inFlight : ℕ
  /-- how many calls there have been -/
  calls : ℕ
  /-- the calls that have not returned an error, in the order in which they took the lock -/
  accepted : List (ℕ × Link)
  pushed : List Link

inductive Action where
  /-- a call of `edma_push_link_async` up to its unlock -/
  | async (link : Link)
  /-- a call of `edma_push_link` by one of those who are about to -/
  | push (i : ℕ)
  /-- a transfer is complete: `edma_tx_complete_isr` up to `edma_pending_q_flush` -/
  | complete
  /-- `edma_pending_q_flush` up to its unlock -/
  | flush
  /-- `edma_tx_pop_isr` -/
  | pop
  | hardware (hwNext : ℕ) (reg : ℕ → TransLen)
  | user (mbufs : MbufAddr → Mbuf)

/-- `edma_push_link_async` up to its unlock. -/
def System.async (s : System) (link : Link) : Except Fault System :=
  let accepted := s.accepted ++ [(s.calls, link)]
  if s.channel.inout = RX then
    (edmaPushLink s.channel link.head link.tail link.num).map fun x =>
      if x.1 = 0 then
        { s with
          channel := x.2, calls := s.calls + 1, accepted := accepted, pushed := s.pushed ++ [link] }
      else { s with channel := x.2, calls := s.calls + 1 }
  else if s.queue.status then
    (edmaPendingQBuffer s.queue link).map fun x =>
      if x.1 = 0 then { s with queue := x.2, calls := s.calls + 1, accepted := accepted }
      else { s with queue := x.2, calls := s.calls + 1 }
  else .ok { s with
    queue := { s.queue with status := true }
    pushing := s.pushing ++ [⟨some s.calls, link⟩]
    calls := s.calls + 1
    accepted := accepted }

/-- `edma_push_link` behind the unlock; nobody looks at what it returns but the caller of
`edma_push_link_async`. -/
def System.push (s : System) (i : ℕ) : Except Fault System :=
  match s.pushing[i]? with
  | none => .ok s
  | some job =>
    (edmaPushLink s.channel job.link.head job.link.tail job.link.num).map fun x =>
      let s := { s with channel := x.2, pushing := s.pushing.eraseIdx i }
      if x.1 = 0 then { s with inFlight := s.inFlight + 1, pushed := s.pushed ++ [job.link] }
      else { s with accepted := s.accepted.filter fun call => some call.1 ≠ job.call }

/-- `edma_tx_complete_isr` in `TWO_LINK_MODE` for one of the transfers in flight. -/
def System.complete (s : System) : Except Fault System :=
  if s.inFlight = 0 then .ok s
  else (Edma.step s.channel .pop).map fun channel =>
    let s := { s with channel := channel, inFlight := s.inFlight - 1 }
    if s.wait = 0 then
      if s.channel.inout = TX ∧ 0 < s.maxPending then { s with flushing := s.flushing + 1 } else s
    else { s with wait := 0 }

def System.flush (s : System) : Except Fault System :=
  if s.flushing = 0 then .ok s
  else (edmaPendingQFlush s.queue).map fun x =>
    { s with
      queue := x.2
      flushing := s.flushing - 1
      pushing := s.pushing ++ x.1.toList.map fun link => ⟨none, link⟩ }

def System.step (s : System) : Action → Except Fault System
  | .async link => s.async link
  | .push i => s.push i
  | .complete => s.complete
  | .flush => s.flush
  | .pop =>
    if s.wait = 0 then (Edma.step s.channel .pop).map fun channel => { s with channel := channel }
    else .ok s
  | .hardware hwNext reg =>
    (Edma.step s.channel (.hardware hwNext reg)).map fun channel => { s with channel := channel }
  | .user mbufs =>
    (Edma.step s.channel (.user mbufs)).map fun channel => { s with channel := channel }

/-- `edma_chn_init` of a transmitting channel -/
def System.init (size : ℕ) (interval : ℤ) (maxPending : ℕ) (mbufs : MbufAddr → Mbuf) : System where
  channel := edmaChnInit TX size interval mbufs
  queue := edmaPendingQInit maxPending
  maxPending := maxPending
  wait := 0
  pushing := []
  flushing := 0
  inFlight := 0
  calls := 0
  accepted := []
  pushed := []

/-- The lists that wait. -/
def EdmaPendingQ.waiting (q : EdmaPendingQ) : List Link := contents q.ring q.max q.rd q.wt

/-- The interrupt of a complete transfer looks for the next list. -/
def System.WillFlush (s : System) : Prop :=
  s.wait = 0 ∧ s.channel.inout = TX ∧ 0 < s.maxPending

/-- The accepted lists are pushed one by one in their order, and a busy channel is one that somebody
is about to push to, has a transfer in flight or is about to flush. -/
structure Served (s : System) : Prop where
  fifo : s.accepted.map (·.2) = s.pushed ++ s.pushing.map (·.link) ++ s.queue.waiting
  busy : s.queue.status = true → s.WillFlush ∧ 0 < s.pushing.length + s.inFlight + s.flushing
  waiting : s.queue.waiting ≠ [] → s.queue.status = true

/-- Lists that are pushed have a node and find enough free descriptors. -/
def Fits (s : System) : Action → Prop
  | .push i => ∀ job, s.pushing[i]? = some job →
    WellLinked s.channel.mbufs job.link.head job.link.tail job.link.num ∧
      job.link.num ≤ s.channel.ring.free
  | .hardware hwNext _ => HwBetween s.channel.ring hwNext
  | _ => True

/-! ## The queue -/

variable {q q' : EdmaPendingQ} {link : Link} {s s' : System}

structure EdmaPendingQ.Valid (q : EdmaPendingQ) : Prop where
  max : q.max ≤ PENDING_RING_SIZE
  wt : q.wt < q.max
  rd : q.rd < q.max

theorem edmaPendingQBuffer_spec (h : q.Valid) (link : Link) :
    (∃ q', edmaPendingQBuffer q link = .ok (0, q') ∧ q'.Valid ∧ q'.status = q.status ∧
        q'.waiting = q.waiting ++ [link]) ∨
      edmaPendingQBuffer q link = .ok (-1, q) := by
  have hmax : ¬ q.max = 0 := Nat.ne_of_gt (Nat.zero_lt_of_lt h.wt)
  have hrange : ¬ PENDING_RING_SIZE ≤ q.wt := Nat.not_le.mpr (h.wt.trans_le h.max)
  rw [edmaPendingQBuffer, if_neg hmax]
  by_cases hfull : (q.wt + 1) % q.max = q.rd
  · exact .inr (if_pos hfull)
  · rw [if_neg hfull, if_neg hrange]
    exact .inl ⟨_, rfl, ⟨h.max, next_lt h.wt, h.rd⟩, rfl, contents_put h.rd h.wt hfull link⟩

theorem edmaPendingQFlush_spec (h : q.Valid) :
    (q.waiting = [] ∧ edmaPendingQFlush q = .ok (none, { q with status := false })) ∨
      ∃ link rest q', q.waiting = link :: rest ∧ edmaPendingQFlush q = .ok (some link, q') ∧
        q'.Valid ∧ q'.status = q.status ∧ q'.waiting = rest := by
  have hnum : edmaPendingQNum q = 0 ↔ q.rd = q.wt := ahead_eq_zero h.rd h.wt
  have hrange : ¬ PENDING_RING_SIZE ≤ q.rd := Nat.not_le.mpr (h.rd.trans_le h.max)
  rw [edmaPendingQFlush]
  by_cases hempty : q.rd = q.wt
  · rw [if_pos (hnum.mpr hempty)]
    refine .inl ⟨?_, rfl⟩
    rw [EdmaPendingQ.waiting, hempty, contents_self]
  · rw [if_neg (mt hnum.mp hempty), if_neg hrange]
    exact .inr ⟨_, _, _, contents_take q.ring h.rd h.wt hempty, rfl, ⟨h.max, h.wt, next_lt h.rd⟩,
      rfl, rfl⟩

/-! ## The channel -/

/-- What is kept as long as nothing fails to be pushed. -/
structure Serving (s : System) : Prop where
  sound : Sound s.channel
  queue : s.queue.Valid
  flushes : s.WillFlush
  fifo : s.accepted.map (·.2) = s.pushed ++ s.pushing.map (·.link) ++ s.queue.waiting
  busy : s.queue.status = true → s.pushing.length + s.inFlight + s.flushing = 1
  idle : s.queue.status = false → s.pushing.length + s.inFlight + s.flushing = 0
  waiting : s.queue.waiting ≠ [] → s.queue.status = true

theorem Serving.served (h : Serving s) : Served s where
  fifo := h.fifo
  busy hstatus := ⟨h.flushes, by rw [h.busy hstatus]; exact Nat.one_pos⟩
  waiting := h.waiting

theorem Serving.withChannel (h : Serving s) {channel : Channel} (hsound : Sound channel)
    (hsame : SameSetup s.channel channel) : Serving { s with channel := channel } where
  sound := hsound
  queue := h.queue
  flushes := ⟨h.flushes.1, hsame.inout.trans h.flushes.2.1, h.flushes.2.2⟩
  fifo := h.fifo
  busy := h.busy
  idle := h.idle
  waiting := h.waiting

theorem Serving.async (h : Serving s) (link : Link) :
    ∃ s', s.async link = .ok s' ∧ Serving s' := by
  have htx : ¬ s.channel.inout = RX := by
    rw [h.flushes.2.1]
    decide
  rw [System.async, if_neg htx]
  by_cases hstatus : s.queue.status = true
  · rw [if_pos hstatus]
    rcases edmaPendingQBuffer_spec h.queue link with ⟨q', hbuffer, hvalid, hkept, hwaiting⟩ | hfull
    · rw [hbuffer]
      refine ⟨{ s with
        queue := q'
        calls := s.calls + 1
        accepted := s.accepted ++ [(s.calls, link)] }, rfl, ⟨h.sound, hvalid, h.flushes, ?_,
        fun _ => h.busy hstatus, fun hidle => ?_, fun _ => hkept.trans hstatus⟩⟩
      · dsimp only
        rw [List.map_append, h.fifo, hwaiting, ← List.append_assoc]
        rfl
      · rw [hkept.trans hstatus] at hidle
        cases hidle
    · rw [hfull]
      exact ⟨{ s with calls := s.calls + 1 }, rfl, h.sound, h.queue, h.flushes, h.fifo, h.busy, h.idle,
        h.waiting⟩
  · rw [if_neg hstatus]
    have hnobody := h.idle (Bool.not_eq_true _ ▸ hstatus)
    have hpushing : s.pushing = [] := List.length_eq_zero_iff.mp (by omega)
    have hwaiting : s.queue.waiting = [] := not_not.mp (mt h.waiting hstatus)
    refine ⟨_, rfl, ⟨h.sound, ⟨h.queue.max, h.queue.wt, h.queue.rd⟩, h.flushes, ?_, fun _ => ?_,
      nofun, fun _ => rfl⟩⟩
    · have hsame : EdmaPendingQ.waiting { s.queue with status := true } = [] := hwaiting
      dsimp only
      rw [List.map_append, h.fifo, hwaiting, hpushing, hsame]
      simp
    · dsimp only
      rw [List.length_append, List.length_singleton]
      omega

theorem Serving.push (h : Serving s) (i : ℕ) (hfits : Fits s (.push i)) :
    ∃ s', s.push i = .ok s' ∧ Serving s' := by
  rw [System.push]
  cases hjob : s.pushing[i]? with
  | none => exact ⟨s, rfl, h⟩
  | some job =>
    obtain ⟨hlist, hroom⟩ := hfits job hjob
    obtain ⟨c', hrun, hsound, hsame, -⟩ := h.sound.push_fits hlist hroom
    dsimp only
    rw [hrun]
    -- there is one job only
    have hlt : i < s.pushing.length := (List.getElem?_eq_some_iff.mp hjob).1
    have hstatus : s.queue.status = true := by
      by_contra hidle
      have hnobody := h.idle (Bool.not_eq_true _ ▸ hidle)
      omega
    have hone := h.busy hstatus
    obtain ⟨only, hpushing⟩ := List.length_eq_one_iff.mp (show s.pushing.length = 1 by omega)
    have hi : i = 0 := by omega
    rw [hpushing, hi] at hjob
    cases hjob
    refine ⟨{ s with
      channel := c'
      pushing := s.pushing.eraseIdx i
      inFlight := s.inFlight + 1
      pushed := s.pushed ++ [job.link] }, rfl,
      ⟨hsound, h.queue, ⟨h.flushes.1, hsame.inout.trans h.flushes.2.1, h.flushes.2.2⟩, ?_,
        fun _ => ?_, fun hidle => ?_, h.waiting⟩⟩
    · have hfifo := h.fifo
      rw [hpushing] at hfifo
      dsimp only
      rw [hfifo, hpushing, hi]
      simp
    · dsimp only
      rw [hpushing, hi]
      rw [hpushing] at hone
      simp only [List.length_singleton, List.eraseIdx_cons_zero, List.length_nil] at hone ⊢
      omega
    · have hidle : s.queue.status = false := hidle
      rw [hstatus] at hidle
      cases hidle

theorem Serving.complete (h : Serving s) :
    ∃ s', s.complete = .ok s' ∧ Serving s' ∧ s'.queue = s.queue ∧ s'.pushing = s.pushing ∧
      (0 < s.inFlight → s'.flushing = s.flushing + 1) := by
  rw [System.complete]
  by_cases hnone : s.inFlight = 0
  · refine ⟨s, if_pos hnone, h, rfl, rfl, fun hsome => ?_⟩
    exact absurd hnone (Nat.ne_of_gt hsome)
  · obtain ⟨c', hpop, hsound, hsame, -⟩ := h.sound.pop
    have hinout := hsame.inout.trans h.flushes.2.1
    rw [if_neg hnone, hpop]
    dsimp only [Except.map]
    rw [if_pos h.flushes.1, if_pos ⟨hinout, h.flushes.2.2⟩]
    refine ⟨_, rfl, ⟨hsound, h.queue, ⟨h.flushes.1, hinout, h.flushes.2.2⟩, h.fifo,
      fun hstatus => ?_, fun hstatus => ?_, h.waiting⟩, rfl, rfl, fun _ => rfl⟩
    · have hone := h.busy hstatus
      dsimp only
      omega
    · have hzero := h.idle hstatus
      omega

theorem Serving.flush (h : Serving s) :
    ∃ s', s.flush = .ok s' ∧ Serving s' ∧ (0 < s.flushing → ∀ link rest,
      s.queue.waiting = link :: rest → s'.pushing = s.pushing ++ [⟨none, link⟩]) := by
  rw [System.flush]
  by_cases hnone : s.flushing = 0
  · refine ⟨s, if_pos hnone, h, fun hsome => ?_⟩
    exact absurd hnone (Nat.ne_of_gt hsome)
  rw [if_neg hnone]
  have hstatus : s.queue.status = true := by
    by_contra hidle
    have hzero := h.idle (Bool.not_eq_true _ ▸ hidle)
    omega
  have hone := h.busy hstatus
  have hpushing : s.pushing = [] := List.length_eq_zero_iff.mp (by omega)
  rcases edmaPendingQFlush_spec h.queue with ⟨hempty, hflush⟩ |
    ⟨link, rest, q', hwaiting, hflush, hvalid, hkept, hrest⟩
  · have hsame : EdmaPendingQ.waiting { s.queue with status := false } = [] := hempty
    rw [hflush]
    refine ⟨_, rfl, ⟨h.sound, ⟨h.queue.max, h.queue.wt, h.queue.rd⟩, h.flushes, ?_, nofun,
      fun _ => ?_, fun hsome => absurd hsame hsome⟩, fun _ link rest hsome => ?_⟩
    · have hfifo := h.fifo
      rw [hempty] at hfifo
      dsimp only
      rw [hfifo, hsame]
      simp
    · dsimp only
      rw [hpushing]
      rw [hpushing, List.length_nil] at hone
      simp only [Option.toList_none, List.map_nil, List.append_nil, List.length_nil]
      omega
    · rw [hempty] at hsome
      cases hsome
  · rw [hflush]
    refine ⟨_, rfl, ⟨h.sound, hvalid, h.flushes, ?_, fun _ => ?_, fun hidle => ?_,
      fun _ => hkept.trans hstatus⟩, fun _ link' rest' hsome => ?_⟩
    · have hfifo := h.fifo
      rw [hwaiting] at hfifo
      dsimp only
      rw [hfifo, hrest]
      simp
    · dsimp only
      rw [hpushing]
      rw [hpushing, List.length_nil] at hone
      simp only [Option.toList_some, List.map_cons, List.map_nil, List.nil_append,
        List.length_singleton]
      omega
    · have hidle : q'.status = false := hidle
      rw [hkept.trans hstatus] at hidle
      cases hidle
    · rw [hwaiting] at hsome
      cases hsome
      rfl

theorem Serving.step (h : Serving s) (a : Action) (hfits : Fits s a) :
    ∃ s', s.step a = .ok s' ∧ Serving s' := by
  cases a with
  | async link => exact h.async link
  | push i => exact h.push i hfits
  | complete =>
    obtain ⟨s', hstep, hserving, -⟩ := h.complete
    exact ⟨s', hstep, hserving⟩
  | flush =>
    obtain ⟨s', hstep, hserving, -⟩ := h.flush
    exact ⟨s', hstep, hserving⟩
  | pop =>
    obtain ⟨c', hpop, hsound, hsame, -⟩ := h.sound.pop
    rw [System.step, if_pos h.flushes.1, hpop]
    exact ⟨_, rfl, h.withChannel hsound hsame⟩
  | hardware hwNext reg =>
    obtain ⟨c', hmove, hsound, hsame, -⟩ := h.sound.step (e := .hardware hwNext reg) hfits
    rw [System.step, hmove]
    exact ⟨_, rfl, h.withChannel hsound hsame⟩
  | user mbufs =>
    obtain ⟨c', hwrite, hsound, hsame, -⟩ := h.sound.step (e := .user mbufs) True.intro
    rw [System.step, hwrite]
    exact ⟨_, rfl, h.withChannel hsound hsame⟩

theorem init_serving (size : ℕ) (interval : ℤ) {maxPending : ℕ} (mbufs : MbufAddr → Mbuf)
    (hpos : 0 < maxPending) (hmax : maxPending ≤ PENDING_RING_SIZE) :
    Serving (System.init size interval maxPending mbufs) where
  sound := edmaChnInit_sound TX size interval mbufs
  queue := ⟨hmax, hpos, hpos⟩
  flushes := ⟨rfl, rfl, Int.natCast_pos.mpr hpos⟩
  fifo := (contents_self (fun _ => (⟨none, none, 0⟩ : Link)) maxPending 0).symm
  busy := nofun
  idle _ := rfl
  waiting hsome := absurd (contents_self (fun _ => (⟨none, none, 0⟩ : Link)) maxPending 0) hsome

/-- When nobody is inside, what waits is pushed as soon as the transfer in flight is complete. -/
def NextPushed (s : System) : Prop :=
  ∀ link rest, s.pushing = [] → s.flushing = 0 → s.queue.waiting = link :: rest →
    0 < s.inFlight ∧ ∃ s', run System.step s [.complete, .flush] = .ok s' ∧
      s'.pushing = [⟨none, link⟩]

theorem Serving.nextPushed (h : Serving s) : NextPushed s := by
  intro link rest hpushing hflushing hwaiting
  have hstatus := h.waiting (by rw [hwaiting]; exact List.cons_ne_nil _ _)
  have hone := h.busy hstatus
  rw [hpushing, List.length_nil] at hone
  have hflight : 0 < s.inFlight := by omega
  obtain ⟨s₁, hcomplete, hserving, hqueue, hkept, hmore⟩ := h.complete
  obtain ⟨s₂, hflush, -, hnext⟩ := hserving.flush
  refine ⟨hflight, s₂, ?_, ?_⟩
  · have hfirst : s.step .complete = .ok s₁ := hcomplete
    have hsecond : s₁.step .flush = .ok s₂ := hflush
    rw [run_cons_ok hfirst, run_cons_ok hsecond]
    rfl
  · rw [hnext (by rw [hmore hflight]; exact Nat.succ_pos _) link rest (hqueue ▸ hwaiting), hkept,
      hpushing]
    rfl

/-- As long as every list that is pushed has a node and finds enough free descriptors, the accepted
lists are pushed in their order, and what waits is waited for by a transfer in flight. -/
theorem pending_served (size : ℕ) (interval : ℤ) (maxPending : ℕ) (mbufs : MbufAddr → Mbuf)
    (as : List Action) (hpos : 0 < maxPending) (hmax : maxPending ≤ PENDING_RING_SIZE)
    (hfits : Along System.step Fits (System.init size interval maxPending mbufs) as) :
    ∃ s, run System.step (System.init size interval maxPending mbufs) as = .ok s ∧ Served s ∧
      NextPushed s := by
  obtain ⟨s, hrun, hserving⟩ := run_completes (fun _ a h => h.step a)
    (init_serving size interval mbufs hpos hmax) hfits
  exact ⟨s, hrun, hserving.served, hserving.nextPushed⟩

def oneLink : Link := ⟨some 7, some 7, 1⟩

def notDone : ℕ → TransLen := fun _ => clearedTransLen

def oneMbuf : MbufAddr → Mbuf := fun _ => ⟨none, 0x1000, 64⟩

/-- The second list waits until the first one is complete. -/
theorem two_links_pushed :
    ∃ s, run System.step (System.init 1 0 4 oneMbuf)
        [.async oneLink, .push 0, .async oneLink, .hardware 1 allDone, .complete, .flush, .push 0] =
          .ok s ∧ Served s ∧ NextPushed s := by
  refine pending_served 1 0 4 oneMbuf _ (by decide) (by decide) ⟨True.intro, fun s hfirst => ?_⟩
  cases hfirst
  refine ⟨fun job hjob => ?_, fun s hpush => ?_⟩
  · cases hjob
    exact ⟨⟨by decide, [7], rfl, rfl, rfl, .singleton 7, List.nodup_singleton 7⟩, by decide⟩
  cases hpush
  refine ⟨True.intro, fun s hsecond => ?_⟩
  cases hsecond
  refine ⟨⟨by decide, by decide⟩, fun s hmoved => ?_⟩
  cases hmoved
  refine ⟨True.intro, fun s hcomplete => ?_⟩
  cases hcomplete
  refine ⟨True.intro, fun s hflush => ?_⟩
  cases hflush
  refine ⟨fun job hjob => ?_, fun _ _ => True.intro⟩
  cases hjob
  exact ⟨⟨by decide, [7], rfl, rfl, rfl, .singleton 7, List.nodup_singleton 7⟩, by decide⟩

/-- The descriptor of the first list is not taken back, so that the second one finds none. When its
call returns an error, the channel stays busy with nothing in flight, and the third list waits for
ever. If it is the flush that fails to push, the list is lost. -/
theorem failed_push_stalls :
    (∃ s, run System.step (System.init 1 0 4 oneMbuf)
      [.async oneLink, .push 0, .hardware 1 notDone, .complete, .flush, .async oneLink, .push 0,
        .async oneLink] = .ok s ∧ ¬ Served s) ∧
    ∃ s, run System.step (System.init 1 0 4 oneMbuf)
      [.async oneLink, .push 0, .async oneLink, .hardware 1 notDone, .complete, .flush, .push 0] =
        .ok s ∧ ¬ Served s := by
  refine ⟨⟨_, rfl, fun h => ?_⟩, ⟨_, rfl, fun h => ?_⟩⟩
  · exact absurd (h.busy rfl).2 (by decide)
  · exact absurd h.fifo (by decide)

end Uwe5631.Edma
