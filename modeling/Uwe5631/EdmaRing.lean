import Uwe5631.RingBuffer
import Uwe5631.LinkedChains
import Uwe5631.FallibleRuns
import Mathlib

/-!
# The descriptor ring of an EDMA channel

`edma_push_link` gives a list of mbufs to the descriptors behind the tail of the ring, the hardware
works on the descriptors before the tail, and `edma_pop_link` takes back those before the next one
of the hardware.
-/
namespace Uwe5631.Edma
open RingBuffer LinkedChains FallibleRuns

abbrev TX : ℕ := 1
abbrev RX : ℕ := 0

/-- The address of a `struct mbuf_t`. -/
abbrev MbufAddr := ℕ

/-- `struct mbuf_t`, with what a descriptor takes of it. -/
structure Mbuf where
  next : Option MbufAddr
  phy : BitVec 64
  len : BitVec 16
  deriving DecidableEq, Repr

/-- `union dma_dscr_trans_len_reg` -/
structure TransLen where
  trscLen : BitVec 16
  done : Bool
  pause : Bool
  txIntr : Bool
  rxIntr : Bool
  eof : Bool
  deriving DecidableEq, Repr

/-- `struct desc`; `next` is the index of a descriptor. -/
structure Desc where
  chnTransLen : TransLen
  srcDataAddrHigh : BitVec 8
  dstDataAddrHigh : BitVec 8
  dataSrcAddrLow : BitVec 32
  dataDstAddrLow : BitVec 32
  next : ℕ
  link : Option MbufAddr
  deriving DecidableEq, Repr

/-- `struct dscr_ring` -/
structure DscrRing where
  size : ℕ
  free : ℤ
  head : ℕ
  tail : ℕ
  mem : ℕ → Desc

/-- What the driver knows of a channel, the next descriptor of its hardware, and the mbufs. -/
structure Channel where
  inout : ℕ
  interval : ℤ
  ring : DscrRing
  /-- `rf_chn_en` of the configuration register -/
  enabled : Bool
  /-- requests written to `dma_tx_req` or `dma_rx_req` -/
  requests : ℕ
  hwNext : ℕ
  mbufs : MbufAddr → Mbuf

inductive Fault where
  | nullPointer
  | endless
  | divideByZero
  | outOfBounds
  deriving DecidableEq, Repr

def clearedTransLen : TransLen where
  trscLen := 0
  done := false
  pause := false
  txIntr := false
  rxIntr := false
  eof := false

/-- `dscr_zero` -/
def dscrZero (dscr : Desc) : Desc :=
  { dscr with
    chnTransLen := clearedTransLen
    srcDataAddrHigh := 0xFF
    dstDataAddrHigh := 0xFF
    dataSrcAddrLow := 0xFFFFFFFF
    dataDstAddrLow := 0xFFFFFFFF }

/-- `dscr_link_mbuf`; `GET_8_OF_40` is a constant. -/
def dscrLinkMbuf (inout : ℕ) (dscr : Desc) (addr : MbufAddr) (mbuf : Mbuf) : Desc :=
  if inout = TX then
    { dscr with
      dataSrcAddrLow := mbuf.phy.setWidth 32
      srcDataAddrHigh := 0x80
      chnTransLen := { dscr.chnTransLen with trscLen := mbuf.len }
      link := some addr }
  else
    { dscr with
      dataDstAddrLow := mbuf.phy.setWidth 32
      dstDataAddrHigh := 0x80
      chnTransLen := { dscr.chnTransLen with trscLen := 0 }
      link := some addr }

def setIntr (inout : ℕ) (reg : TransLen) : TransLen :=
  if inout = TX then { reg with txIntr := true } else { reg with rxIntr := true }

/-- The flags of the last descriptor of a list. -/
def setLast (inout : ℕ) (reg : TransLen) : TransLen :=
  if inout = TX then { reg with eof := true } else { reg with rxIntr := true, pause := true }

def DscrRing.write (r : DscrRing) (i : ℕ) (dscr : Desc) : DscrRing :=
  { r with mem := Function.update r.mem i dscr }

/-- The loop of `edma_push_link`, and `last` behind it. -/
def pushLoop (inout : ℕ) (interval : ℤ) (mbufs : MbufAddr → Mbuf) :
    ℕ → ℤ → Option MbufAddr → Option ℕ → DscrRing → Except Fault (Option ℕ × DscrRing)
  | 0, _, _, last, r => .ok (last, r)
  | _ + 1, _, none, _, _ => .error .nullPointer
  | n + 1, j, some addr, _, r =>
    let dscr := dscrLinkMbuf inout (dscrZero (r.mem r.tail)) addr (mbufs addr)
    let j := if interval ≠ 0 then j + 1 else j
    let hit := interval ≠ 0 ∧ j = interval
    let dscr := if hit then { dscr with chnTransLen := setIntr inout dscr.chnTransLen } else dscr
    pushLoop inout interval mbufs n (if hit then 0 else j) (mbufs addr).next (some r.tail)
      { r.write r.tail dscr with tail := dscr.next, free := r.free - 1 }

/-- `edma_push_link`, with what it returns. -/
def edmaPushLink (c : Channel) (head tail : Option MbufAddr) (num : ℤ) :
    Except Fault (ℤ × Channel) :=
  if head = none ∨ tail = none ∨ num = 0 then .ok (-1, c)
  else if c.ring.free < num then .ok (-1, c)
  else
    (pushLoop c.inout c.interval c.mbufs num.toNat 0 head none c.ring).bind fun x =>
      match x.1 with
      | none => .error .nullPointer
      | some last =>
        let dscr := x.2.mem last
        .ok (0, { c with
          ring := x.2.write last { dscr with chnTransLen := setLast c.inout dscr.chnTransLen }
          enabled := if c.inout = TX then true else c.enabled
          requests := c.requests + 1 })

/-- `dscr_polling` of a descriptor that the hardware leaves alone -/
def dscrPolling (dscr : Desc) : ℤ := if dscr.chnTransLen.done then 0 else -1

/-- What `edma_pop_link` hands out: `*head__`, `*tail__` and `*node`. -/
structure Popped where
  head : Option MbufAddr
  tail : Option MbufAddr
  node : ℕ
  deriving DecidableEq, Repr

def setMbufNext (mbufs : MbufAddr → Mbuf) (addr : MbufAddr) (next : Option MbufAddr) :
    MbufAddr → Mbuf :=
  Function.update mbufs addr { mbufs addr with next := next }

/-- The loop of `edma_pop_link` from a descriptor on, with the last mbuf so far. A turn takes a
descriptor, so a walk that ends has as many turns as there are descriptors. -/
def popLoop (tail : ℕ) : ℕ → ℕ → Option MbufAddr → Popped → Channel →
    Except Fault (ℤ × Popped × Channel)
  | 0, _, _, _, _ => .error .endless
  | n + 1, dscr, mbuf, p, c =>
    let d := c.ring.mem dscr
    if dscrPolling d ≠ 0 then .ok (-1, p, c)
    else
      let c := match mbuf with
        | some addr => { c with mbufs := setMbufNext c.mbufs addr d.link }
        | none => c
      let p := { p with head := if p.head = none then d.link else p.head }
      match d.link with
      | none => .ok (-1, p, c)
      | some addr =>
        let mbufs := Function.update c.mbufs addr
          { c.mbufs addr with len := d.chnTransLen.trscLen }
        let p := { p with node := p.node + 1 }
        let ring := { c.ring with head := (c.ring.mem c.ring.head).next, free := c.ring.free + 1 }
        let c := { c with mbufs := mbufs, ring := ring.write dscr (dscrZero d) }
        if d.next = tail then
          .ok (0, { p with tail := some addr }, { c with mbufs := setMbufNext c.mbufs addr none })
        else popLoop tail n d.next (some addr) p c

/-- `edma_pop_link` -/
def edmaPopLink (c : Channel) (head tail : ℕ) : Except Fault (ℤ × Popped × Channel) :=
  popLoop tail (c.ring.size + 1) head none ⟨none, none, 0⟩ c

/-- `dscr_ring_init` -/
def dscrRingInit (inout size : ℕ) : DscrRing where
  size := size
  free := size
  head := 0
  tail := 0
  mem i :=
    { chnTransLen := { clearedTransLen with
        eof := decide (i = 0 ∧ inout = TX)
        pause := decide (i = 0 ∧ inout ≠ TX) }
      srcDataAddrHigh := 0
      dstDataAddrHigh := 0
      dataSrcAddrLow := 0
      dataDstAddrLow := 0
      next := if i < size then i + 1 else 0
      link := none }

/-- `edma_chn_init`, which gives the head of the ring to the hardware -/
def edmaChnInit (inout size : ℕ) (interval : ℤ) (mbufs : MbufAddr → Mbuf) : Channel where
  inout := inout
  interval := interval
  ring := dscrRingInit inout size
  enabled := true
  requests := 0
  hwNext := 0
  mbufs := mbufs

/-! ## The driver and the hardware -/

inductive Event where
  | push (head tail : Option MbufAddr) (num : ℤ)
  /-- an interrupt that takes back what the hardware is through with -/
  | pop
  /-- the hardware moves on and writes status bits and lengths -/
  | hardware (hwNext : ℕ) (reg : ℕ → TransLen)
  /-- the users of the driver write mbufs -/
  | user (mbufs : MbufAddr → Mbuf)

def step (c : Channel) : Event → Except Fault Channel
  | .push head tail num => (edmaPushLink c head tail num).map (·.2)
  | .pop =>
    if c.ring.head = c.hwNext then .ok c
    else (edmaPopLink c c.ring.head c.hwNext).map (·.2.2)
  | .hardware hwNext reg => .ok { c with
      hwNext := hwNext
      ring := { c.ring with mem := fun i => { c.ring.mem i with chnTransLen := reg i } } }
  | .user mbufs => .ok { c with mbufs := mbufs }

/-- How many steps lead along the ring. -/
def DscrRing.ahead (r : DscrRing) (i j : ℕ) : ℕ := RingBuffer.ahead (r.size + 1) i j

/-- The descriptor some steps further. -/
def DscrRing.after (r : DscrRing) (i k : ℕ) : ℕ := RingBuffer.after (r.size + 1) i k

/-- The next descriptor of the hardware lies between the head and the tail. -/
structure HwBetween (r : DscrRing) (hwNext : ℕ) : Prop where
  range : hwNext ≤ r.size
  between : r.ahead r.head hwNext ≤ r.ahead r.head r.tail

/-- A list of at least one node. -/
def WellLinked (mbufs : MbufAddr → Mbuf) (head tail : Option MbufAddr) (num : ℤ) : Prop :=
  1 ≤ num ∧ ∃ xs, Linked (fun a => (mbufs a).next) ⟨head, tail, num.toNat⟩ xs

/-- What the callers of the driver and the hardware keep to. -/
def Assumed (c : Channel) : Event → Prop
  | .push head tail num => WellLinked c.mbufs head tail num
  | .pop => True
  | .hardware hwNext _ => HwBetween c.ring hwNext
  | .user _ => True

/-! ## The accounts -/

structure Accounted (r : DscrRing) : Prop where
  head : r.head ≤ r.size
  tail : r.tail ≤ r.size
  next : ∀ i ≤ r.size, (r.mem i).next = RingBuffer.next (r.size + 1) i
  free : r.free + r.ahead r.head r.tail = r.size

variable {r r' : DscrRing} {c c' : Channel} {i k n : ℕ}

theorem Accounted.head_lt (h : Accounted r) : r.head < r.size + 1 := Nat.lt_succ_of_le h.head

theorem Accounted.tail_lt (h : Accounted r) : r.tail < r.size + 1 := Nat.lt_succ_of_le h.tail

theorem Accounted.free_nonneg (h : Accounted r) : 0 ≤ r.free := by
  have hlt := ahead_lt h.head_lt h.tail_lt
  have hfree := h.free
  rw [DscrRing.ahead] at hfree
  omega

theorem Accounted.write (h : Accounted r) {dscr : Desc} (hnext : dscr.next = (r.mem i).next) :
    Accounted (r.write i dscr) where
  head := h.head
  tail := h.tail
  free := h.free
  next j hj := by
    rw [DscrRing.write]
    dsimp only
    by_cases hij : j = i
    · rw [hij, Function.update_self, hnext]
      exact h.next i (hij ▸ hj)
    · rw [Function.update_of_ne hij]
      exact h.next j hj

theorem write_mem_ne (hne : k ≠ i) (r : DscrRing) (dscr : Desc) : (r.write i dscr).mem k = r.mem k :=
  Function.update_of_ne hne ..

/-- A descriptor more behind the tail. -/
theorem Accounted.put (h : Accounted r) (hroom : 1 ≤ r.free) :
    Accounted { r with tail := (r.mem r.tail).next, free := r.free - 1 } where
  head := h.head
  tail := by
    rw [h.next _ h.tail]
    exact Nat.le_of_lt_succ (next_lt h.tail_lt)
  next := h.next
  free := by
    have hhead := h.head_lt
    have htail := h.tail_lt
    have hfree := h.free
    rw [DscrRing.ahead] at hfree
    rw [DscrRing.ahead, h.next _ h.tail]
    dsimp only
    rw [ahead_next hhead htail (by omega)]
    omega

/-- The descriptor at the head is taken back. -/
theorem Accounted.take (h : Accounted r) (hne : r.head ≠ r.tail) :
    Accounted { r with head := (r.mem r.head).next, free := r.free + 1 } where
  tail := h.tail
  head := by
    rw [h.next _ h.head]
    exact Nat.le_of_lt_succ (next_lt h.head_lt)
  next := h.next
  free := by
    have hhead := h.head_lt
    have htail := h.tail_lt
    have hfree := h.free
    have hstep := ahead_next_left hhead htail hne
    rw [DscrRing.ahead] at hfree
    rw [DscrRing.ahead, h.next _ h.head]
    dsimp only
    omega

/-- The loop of `edma_push_link` writes the free descriptors behind the tail and no others. -/
theorem pushLoop_spec (inout : ℕ) (interval j : ℤ) (last : Option ℕ) {mbufs : MbufAddr → Mbuf}
    {mbuf : Option MbufAddr} (h : Accounted r) (hroom : (n : ℤ) ≤ r.free)
    (hwalk : (walk (fun a => (mbufs a).next) n mbuf).length = n) :
    ∃ last' r', pushLoop inout interval mbufs n j mbuf last r = .ok (last', r') ∧ Accounted r' ∧
      r'.size = r.size ∧ r'.head = r.head ∧ r'.tail = r.after r.tail n ∧ r'.free = r.free - n ∧
      (0 < n → ∃ k < n, last' = some (r.after r.tail k)) ∧
      ∀ i, (∀ k < n, i ≠ r.after r.tail k) → r'.mem i = r.mem i := by
  induction n generalizing j mbuf last r with
  | zero =>
    refine ⟨last, r, rfl, h, rfl, rfl, ?_, (sub_zero _).symm, fun hn => absurd hn (Nat.lt_irrefl 0),
      fun _ _ => rfl⟩
    exact (after_zero h.tail_lt).symm
  | succ n ih =>
    have htail := h.tail_lt
    cases mbuf with
    | none => cases hwalk
    | some addr =>
      set dscr := dscrLinkMbuf inout (dscrZero (r.mem r.tail)) addr (mbufs addr) with hdscr
      have hkeep (reg : TransLen) : ({ dscr with chnTransLen := reg } : Desc).next =
          (r.mem r.tail).next := by
        rw [hdscr, dscrLinkMbuf]
        split <;> rfl
      have hnext (hit : Prop) [Decidable hit] : (if hit then
          { dscr with chnTransLen := setIntr inout dscr.chnTransLen } else dscr).next =
          (r.mem r.tail).next := by
        split
        · exact hkeep _
        · exact hkeep dscr.chnTransLen
      rw [pushLoop]
      dsimp only
      rw [← hdscr]
      generalize (if interval ≠ 0 then j + 1 else j) = j'
      generalize hwrite : (if interval ≠ 0 ∧ j' = interval then
        { dscr with chnTransLen := setIntr inout dscr.chnTransLen } else dscr) = written
      have hwritten : written.next = (r.mem r.tail).next := hwrite ▸ hnext _
      have hput : Accounted { r.write r.tail written with
          tail := written.next, free := r.free - 1 } := by
        have hone := (h.write hwritten).put (by
          show 1 ≤ r.free
          omega)
        have hsame : ((r.write r.tail written).mem r.tail).next = written.next :=
          congrArg Desc.next (Function.update_self ..)
        dsimp only [DscrRing.write] at hone hsame ⊢
        rw [hsame] at hone
        exact hone
      obtain ⟨last', r', hrun, hacc, hsize, hhead, htail', hfree, hlast, hframe⟩ :=
        ih (if interval ≠ 0 ∧ j' = interval then 0 else j') (some r.tail) hput
          (by dsimp only; omega) (Nat.succ.inj hwalk)
      have hafter (k : ℕ) : DscrRing.after { r.write r.tail written with
          tail := written.next, free := r.free - 1 } written.next k = r.after r.tail (k + 1) := by
        rw [hwritten, h.next _ h.tail]
        exact after_next htail k
      refine ⟨last', r', hrun, hacc, hsize, hhead, htail'.trans (hafter n), ?_, fun _ => ?_,
        fun i hi => ?_⟩
      · rw [hfree]
        push_cast
        omega
      · cases n with
        | zero =>
          refine ⟨0, Nat.one_pos, ?_⟩
          rw [DscrRing.after, after_zero htail]
          cases hrun
          rfl
        | succ n =>
          obtain ⟨k, hk, rfl⟩ := hlast (Nat.succ_pos n)
          exact ⟨k + 1, Nat.succ_lt_succ hk, congrArg some (hafter k)⟩
      · have hfirst : i ≠ r.tail := by
          have hzero := hi 0 (Nat.succ_pos n)
          rw [DscrRing.after, after_zero htail] at hzero
          exact hzero
        rw [hframe i fun k hk => by
          rw [hafter k]
          exact hi (k + 1) (Nat.succ_lt_succ hk)]
        exact write_mem_ne hfirst r written

theorem edmaPushLink_reject {head tail : Option MbufAddr} {num : ℤ} (hnum : c.ring.free < num) :
    edmaPushLink c head tail num = .ok (-1, c) := by
  rw [edmaPushLink]
  split
  · rfl
  · rfl

/-- A list that fits is given to the hardware. -/
theorem edmaPushLink_spec {head tail : Option MbufAddr} {num : ℤ} (h : Accounted c.ring)
    (hlist : WellLinked c.mbufs head tail num) (hroom : num ≤ c.ring.free) :
    ∃ c', edmaPushLink c head tail num = .ok (0, c') ∧ Accounted c'.ring ∧
      c'.ring.size = c.ring.size ∧ c'.ring.head = c.ring.head ∧
      c'.ring.tail = c.ring.after c.ring.tail num.toNat ∧ c'.ring.free = c.ring.free - num ∧
      c'.hwNext = c.hwNext ∧ c'.inout = c.inout ∧
      ∀ i, (∀ k < num.toNat, i ≠ c.ring.after c.ring.tail k) → c'.ring.mem i = c.ring.mem i := by
  obtain ⟨hpos, xs, hxs⟩ := hlist
  have hlength : xs.length = num.toNat := hxs.num.symm
  have hne : xs ≠ [] := by
    rintro rfl
    rw [List.length_nil] at hlength
    omega
  have hhead : head = xs.head? := hxs.head
  have htail : tail = xs.getLast? := hxs.tail
  have hargs : ¬ (head = none ∨ tail = none ∨ num = 0) := by
    rintro (hnull | hnull | hzero)
    · exact hne (List.head?_eq_none_iff.mp (hhead.symm.trans hnull))
    · exact hne (List.getLast?_eq_none_iff.mp (htail.symm.trans hnull))
    · omega
  have hwalk : (walk (fun a => (c.mbufs a).next) num.toNat head).length = num.toNat :=
    (congrArg List.length hxs.walk).trans hlength
  obtain ⟨last, r', hrun, hacc, hsize, hsame, htail', hfree, hlast, hframe⟩ :=
    pushLoop_spec c.inout c.interval 0 none h (by omega) hwalk
  obtain ⟨k, hk, rfl⟩ := hlast (by omega)
  rw [edmaPushLink, if_neg hargs, if_neg (by omega), hrun]
  refine ⟨_, rfl, hacc.write rfl, hsize, hsame, htail', ?_, rfl, rfl, fun i hi => ?_⟩
  · exact hfree.trans (by rw [Int.toNat_of_nonneg (by omega)])
  · rw [← hframe i hi]
    exact write_mem_ne (hi k hk) r' _

/-! ## Taking back -/

/-- The loop of `edma_pop_link` up to the next descriptor of the hardware: it may give up on the
way, but it leaves alone what comes behind. -/
theorem popLoop_spec (mbuf : Option MbufAddr) (p : Popped) {tail : ℕ} (h : Accounted c.ring)
    (htail : tail ≤ c.ring.size) (hne : c.ring.head ≠ tail)
    (hle : c.ring.ahead c.ring.head tail ≤ c.ring.ahead c.ring.head c.ring.tail)
    (hn : c.ring.ahead c.ring.head tail ≤ n) :
    ∃ ret p' c', popLoop tail n c.ring.head mbuf p c = .ok (ret, p', c') ∧ Accounted c'.ring ∧
      c'.ring.size = c.ring.size ∧ c'.ring.tail = c.ring.tail ∧ c'.hwNext = c.hwNext ∧
      c'.inout = c.inout ∧ c'.ring.ahead c'.ring.head tail ≤ c'.ring.ahead c'.ring.head c'.ring.tail ∧
      ∀ k, c.ring.ahead c.ring.head tail ≤ k → k ≤ c.ring.size →
        c'.ring.mem (c.ring.after c.ring.head k) = c.ring.mem (c.ring.after c.ring.head k) := by
  induction n generalizing c mbuf p with
  | zero =>
    have hzero := Nat.le_zero.mp hn
    exact absurd ((ahead_eq_zero h.head_lt (Nat.lt_succ_of_le htail)).mp hzero) hne
  | succ n ih =>
    have hhw := Nat.lt_succ_of_le htail
    have hfirst := ahead_next_left h.head_lt hhw hne
    have hopen : c.ring.head ≠ c.ring.tail := by
      intro hempty
      rw [DscrRing.ahead, DscrRing.ahead, ← hempty, ahead_self, Nat.le_zero] at hle
      exact hne ((ahead_eq_zero h.head_lt hhw).mp hle)
    have hsecond := ahead_next_left h.head_lt h.tail_lt hopen
    have hnext := h.next _ h.head
    obtain ⟨mbufs, hmbufs⟩ : ∃ mbufs, (match mbuf with
        | some addr => { c with mbufs := setMbufNext c.mbufs addr (c.ring.mem c.ring.head).link }
        | none => c) = { c with mbufs := mbufs } := by
      cases mbuf with
      | none => exact ⟨c.mbufs, rfl⟩
      | some addr => exact ⟨_, rfl⟩
    unfold popLoop
    dsimp only
    by_cases hpoll : dscrPolling (c.ring.mem c.ring.head) ≠ 0
    · rw [if_pos hpoll]
      exact ⟨-1, p, c, rfl, h, rfl, rfl, rfl, rfl, hle, fun _ _ _ => rfl⟩
    rw [if_neg hpoll, hmbufs]
    cases hlink : (c.ring.mem c.ring.head).link with
    | none => exact ⟨-1, _, _, rfl, h, rfl, rfl, rfl, rfl, hle, fun _ _ _ => rfl⟩
    | some addr =>
      dsimp only
      have htake : Accounted (DscrRing.write { c.ring with
          head := (c.ring.mem c.ring.head).next, free := c.ring.free + 1 } c.ring.head
          (dscrZero (c.ring.mem c.ring.head))) := (h.take hopen).write rfl
      -- what comes behind is not at the head
      have hbehind : ∀ k, c.ring.ahead c.ring.head tail ≤ k → k ≤ c.ring.size →
          c.ring.after c.ring.head k ≠ c.ring.head := by
        intro k hk hmax hsame
        rw [DscrRing.ahead] at hk
        have hzero := after_inj h.head_lt (Nat.lt_succ_of_le hmax) (Nat.succ_pos _)
          (hsame.trans (after_zero h.head_lt).symm)
        omega
      by_cases hend : (c.ring.mem c.ring.head).next = tail
      · rw [if_pos hend]
        refine ⟨0, _, _, rfl, htake, rfl, rfl, rfl, rfl, ?_, fun k hk hmax => ?_⟩
        · dsimp only [DscrRing.write, DscrRing.ahead]
          rw [hend, ahead_self]
          exact Nat.zero_le _
        · exact write_mem_ne (hbehind k hk hmax) _ _
      · rw [if_neg hend]
        rw [DscrRing.ahead] at hn hle
        obtain ⟨ret, p', c', hrun, hacc, hsize, hsame, hhwNext, hinout, hle', hframe⟩ := ih
          (some addr) ⟨if p.head = none then some addr else p.head, p.tail, p.node + 1⟩
          (c := { c with
            ring := DscrRing.write { c.ring with
              head := (c.ring.mem c.ring.head).next, free := c.ring.free + 1 } c.ring.head
              (dscrZero (c.ring.mem c.ring.head))
            mbufs := Function.update mbufs addr
              { mbufs addr with len := (c.ring.mem c.ring.head).chnTransLen.trscLen } })
          htake htail hend
          (by
            dsimp only [DscrRing.write, DscrRing.ahead]
            rw [hnext]
            rw [DscrRing.ahead] at hle
            omega)
          (by
            dsimp only [DscrRing.write, DscrRing.ahead]
            rw [hnext]
            omega)
        refine ⟨ret, p', c', hrun, hacc, hsize, hsame, hhwNext, hinout, hle', fun k hk hmax => ?_⟩
        have hpos : 1 ≤ k := by
          rw [DscrRing.ahead] at hk
          omega
        obtain ⟨k, rfl⟩ := Nat.exists_eq_add_of_le' hpos
        have hstep : RingBuffer.after (c.ring.size + 1) (c.ring.mem c.ring.head).next k =
            c.ring.after c.ring.head (k + 1) := by
          rw [hnext]
          exact after_next h.head_lt k
        have hrest := hframe k (by
          dsimp only [DscrRing.write, DscrRing.ahead]
          rw [hnext]
          rw [DscrRing.ahead] at hk
          omega) (Nat.le_of_succ_le hmax)
        dsimp only [DscrRing.write, DscrRing.after] at hrest
        rw [hstep] at hrest
        rw [hrest]
        exact Function.update_of_ne (hbehind (k + 1) hk hmax) ..

/-! ## Runs -/

/-- The descriptors that the hardware may still read. -/
def MayRead (c : Channel) (i : ℕ) : Prop :=
  ∃ k < c.ring.ahead c.hwNext c.ring.tail, i = c.ring.after c.hwNext k

/-- The steps of the driver on the ring. -/
def Event.byDriver : Event → Bool
  | .push .. => true
  | .pop => true
  | .hardware .. => false
  | .user _ => false

/-- What the steps of a channel leave as it was set up. -/
structure SameSetup (c c' : Channel) : Prop where
  size : c'.ring.size = c.ring.size
  inout : c'.inout = c.inout

structure Sound (c : Channel) : Prop where
  accounted : Accounted c.ring
  hardware : HwBetween c.ring c.hwNext

theorem Sound.mayRead (h : Sound c) (hread : MayRead c i) :
    ∃ k, c.ring.ahead c.ring.head c.hwNext ≤ k ∧ k < c.ring.ahead c.ring.head c.ring.tail ∧
      i = c.ring.after c.ring.head k := by
  obtain ⟨k, hk, rfl⟩ := hread
  have hhw : c.hwNext < c.ring.size + 1 := Nat.lt_succ_of_le h.hardware.range
  have hway := ahead_between h.accounted.head_lt hhw h.accounted.tail_lt h.hardware.between
  rw [DscrRing.ahead] at hk
  refine ⟨c.ring.ahead c.ring.head c.hwNext + k, Nat.le_add_right _ _, ?_, ?_⟩
  · rw [DscrRing.ahead, DscrRing.ahead]
    omega
  · rw [DscrRing.after, DscrRing.after, after_add, DscrRing.ahead,
      after_ahead h.accounted.head_lt hhw]

/-- What the hardware may read is in use, and a push writes what is free. -/
theorem Sound.push_apart (h : Sound c) (hread : MayRead c i) {num : ℤ} (hroom : num ≤ c.ring.free) :
    ∀ k < num.toNat, i ≠ c.ring.after c.ring.tail k := by
  intro k hk hsame
  obtain ⟨m, -, hm, rfl⟩ := h.mayRead hread
  have hfree := h.accounted.free
  have hwritten : c.ring.after c.ring.tail k =
      c.ring.after c.ring.head (c.ring.ahead c.ring.head c.ring.tail + k) := by
    rw [DscrRing.after, DscrRing.after, after_add, DscrRing.ahead,
      after_ahead h.accounted.head_lt h.accounted.tail_lt]
  rw [hwritten] at hsame
  have heq := after_inj h.accounted.head_lt (by omega) (by omega) hsame
  omega

theorem Sound.push_fits (h : Sound c) {head tail : Option MbufAddr} {num : ℤ}
    (hlist : WellLinked c.mbufs head tail num) (hroom : num ≤ c.ring.free) :
    ∃ c', edmaPushLink c head tail num = .ok (0, c') ∧ Sound c' ∧ SameSetup c c' ∧
      ∀ i, MayRead c i → c'.ring.mem i = c.ring.mem i := by
  obtain ⟨c', hrun, hacc, hsize, hhead, htail, hfree, hhw, hinout, hframe⟩ :=
    edmaPushLink_spec h.accounted hlist hroom
  refine ⟨c', hrun, ⟨hacc, hhw ▸ hsize ▸ h.hardware.range, ?_⟩, ⟨hsize, hinout⟩, fun i hi =>
    hframe i (h.push_apart hi hroom)⟩
  have hbetween := h.hardware.between
  have hbefore := h.accounted.free
  have hafter := hacc.free
  rw [DscrRing.ahead, hsize, hhead] at hafter ⊢
  rw [DscrRing.ahead] at hbetween hbefore
  rw [DscrRing.ahead] at hbetween
  rw [DscrRing.ahead, hsize, hhw]
  have hpos := hlist.1
  omega

theorem Sound.push (h : Sound c) {head tail : Option MbufAddr} {num : ℤ}
    (hlist : WellLinked c.mbufs head tail num) :
    ∃ c', step c (.push head tail num) = .ok c' ∧ Sound c' ∧ SameSetup c c' ∧
      ∀ i, MayRead c i → c'.ring.mem i = c.ring.mem i := by
  by_cases hroom : num ≤ c.ring.free
  · obtain ⟨c', hrun, hsound, hsame, hframe⟩ := h.push_fits hlist hroom
    have hstep : step c (.push head tail num) = .ok c' := by
      rw [step, hrun]
      rfl
    exact ⟨c', hstep, hsound, hsame, hframe⟩
  · have hstep : step c (.push head tail num) = .ok c := by
      rw [step, edmaPushLink_reject (not_le.mp hroom)]
      rfl
    exact ⟨c, hstep, h, ⟨rfl, rfl⟩, fun _ _ => rfl⟩

theorem Sound.pop (h : Sound c) :
    ∃ c', step c .pop = .ok c' ∧ Sound c' ∧ SameSetup c c' ∧
      ∀ i, MayRead c i → c'.ring.mem i = c.ring.mem i := by
  by_cases hempty : c.ring.head = c.hwNext
  · exact ⟨c, if_pos hempty, h, ⟨rfl, rfl⟩, fun _ _ => rfl⟩
  · have hshort : c.ring.ahead c.ring.head c.hwNext ≤ c.ring.size + 1 :=
      Nat.le_of_lt (ahead_lt h.accounted.head_lt (Nat.lt_succ_of_le h.hardware.range))
    obtain ⟨ret, p, c', hrun, hacc, hsize, htail, hhw, hinout, hle, hframe⟩ := popLoop_spec
      none ⟨none, none, 0⟩ h.accounted h.hardware.range hempty h.hardware.between
      hshort
    have hstep : step c .pop = .ok c' := by
      rw [step, if_neg hempty, edmaPopLink, hrun]
      rfl
    refine ⟨c', hstep, ⟨hacc, hhw ▸ hsize ▸ h.hardware.range, hhw ▸ hle⟩, ⟨hsize, hinout⟩,
      fun i hi => ?_⟩
    obtain ⟨k, hk, hlt, rfl⟩ := h.mayRead hi
    have hfree := h.accounted.free
    have hnonneg := h.accounted.free_nonneg
    exact hframe k hk (by omega)

theorem Sound.step (h : Sound c) {e : Event} (hassumed : Assumed c e) :
    ∃ c', step c e = .ok c' ∧ Sound c' ∧ SameSetup c c' ∧
      (e.byDriver = true → ∀ i, MayRead c i → c'.ring.mem i = c.ring.mem i) := by
  cases e with
  | push head tail num =>
    obtain ⟨c', hstep, hsound, hsame, hframe⟩ := h.push hassumed
    exact ⟨c', hstep, hsound, hsame, fun _ => hframe⟩
  | pop =>
    obtain ⟨c', hstep, hsound, hsame, hframe⟩ := h.pop
    exact ⟨c', hstep, hsound, hsame, fun _ => hframe⟩
  | hardware hwNext reg =>
    refine ⟨_, rfl, ⟨⟨h.accounted.head, h.accounted.tail, h.accounted.next, h.accounted.free⟩,
      ⟨hassumed.range, hassumed.between⟩⟩, ⟨rfl, rfl⟩, fun hno => ?_⟩
    cases hno
  | user mbufs =>
    refine ⟨_, rfl, ⟨h.accounted, h.hardware⟩, ⟨rfl, rfl⟩, fun hno => ?_⟩
    cases hno

theorem edmaChnInit_sound (inout size : ℕ) (interval : ℤ) (mbufs : MbufAddr → Mbuf) :
    Sound (edmaChnInit inout size interval mbufs) where
  accounted :=
    { head := Nat.zero_le _
      tail := Nat.zero_le _
      next := fun i _ => by
        have hlast : i < size ↔ i + 1 < size + 1 := Nat.succ_lt_succ_iff.symm
        show (if i < size then i + 1 else 0) = RingBuffer.next (size + 1) i
        rw [RingBuffer.next, if_congr hlast rfl rfl]
      free := by
        show (size : ℤ) + (RingBuffer.ahead (size + 1) 0 0 : ℕ) = size
        rw [ahead_self]
        exact add_zero _ }
  hardware := ⟨Nat.zero_le _, Nat.le_refl _⟩

theorem Accounted.free_mod (h : Accounted r) :
    r.free + ((r.tail : ℤ) - r.head) % (r.size + 1) = r.size := by
  have hfree := h.free
  have hhead := h.head_lt
  have htail := h.tail_lt
  have hway : ((r.tail : ℤ) - r.head) % (r.size + 1) = (r.ahead r.head r.tail : ℕ) := by
    rw [DscrRing.ahead, RingBuffer.ahead]
    split
    · rw [Int.emod_eq_of_lt (by omega) (by omega)]
      omega
    · rw [← Int.add_emod_right, Int.emod_eq_of_lt (by omega) (by omega)]
      omega
  rw [hway, hfree]

/-- In every run of a channel the free descriptors are those from the tail to the head, lists that
do not fit are rejected, and what the hardware may still read is left alone. -/
theorem ring_accounted (inout size : ℕ) (interval : ℤ) (mbufs : MbufAddr → Mbuf) (es : List Event)
    (hes : Along step Assumed (edmaChnInit inout size interval mbufs) es) :
    ∃ c, run step (edmaChnInit inout size interval mbufs) es = .ok c ∧
      c.ring.free + ((c.ring.tail : ℤ) - c.ring.head) % (size + 1) = size ∧
      0 ≤ c.ring.free ∧ c.ring.free ≤ size ∧
      (∀ head tail num, c.ring.free < num → edmaPushLink c head tail num = .ok (-1, c)) ∧
      ∀ e, e.byDriver = true → Assumed c e →
        ∃ c', step c e = .ok c' ∧ ∀ i, MayRead c i → c'.ring.mem i = c.ring.mem i := by
  obtain ⟨c, hrun, hsound, rfl⟩ := run_completes
    (I := fun c => Sound c ∧ c.ring.size = size) (C := Assumed)
    (fun c e h hassumed => by
      obtain ⟨c', hstep, hsound, hsame, -⟩ := h.1.step hassumed
      exact ⟨c', hstep, hsound, hsame.size.trans h.2⟩)
    ⟨edmaChnInit_sound inout size interval mbufs, rfl⟩ hes
  have hfree := hsound.accounted.free
  refine ⟨c, hrun, hsound.accounted.free_mod, hsound.accounted.free_nonneg, by omega,
    fun _ _ _ => edmaPushLink_reject, fun e he hassumed => ?_⟩
  obtain ⟨c', hstep, -, -, hframe⟩ := hsound.step hassumed
  exact ⟨c', hstep, hframe he⟩

/-- Each mbuf is linked to the one behind it. -/
def rowOfMbufs : MbufAddr → Mbuf := fun a => ⟨some (a + 1), 0x1000, 64⟩

def allDone : ℕ → TransLen := fun _ => { clearedTransLen with trscLen := 64, done := true }

/-- Three mbufs fill a ring of four descriptors, and come back; two more go over its end. -/
theorem three_mbufs_there_and_back :
    let es := [.push (some 7) (some 9) 3, .hardware 3 allDone, .pop, .push (some 4) (some 5) 2]
    ∃ c, run step (edmaChnInit TX 3 0 rowOfMbufs) es = .ok c ∧
      c.ring.free + ((c.ring.tail : ℤ) - c.ring.head) % (3 + 1) = 3 ∧
      0 ≤ c.ring.free ∧ c.ring.free ≤ 3 ∧
      (∀ head tail num, c.ring.free < num → edmaPushLink c head tail num = .ok (-1, c)) ∧
      ∀ e, e.byDriver = true → Assumed c e →
        ∃ c', step c e = .ok c' ∧ ∀ i, MayRead c i → c'.ring.mem i = c.ring.mem i := by
  have hlist : WellLinked rowOfMbufs (some 7) (some 9) 3 :=
    ⟨by decide, [7, 8, 9], rfl, rfl, rfl, .cons_cons rfl (.cons_cons rfl (.singleton 9)), by decide⟩
  refine ring_accounted TX 3 0 rowOfMbufs _ ⟨hlist, fun c hpush => ?_⟩
  cases hpush
  refine ⟨⟨by decide, by decide⟩, fun c hmoved => ?_⟩
  cases hmoved
  refine ⟨True.intro, fun c hpop => ?_⟩
  cases hpop
  exact ⟨⟨by decide, [4, 5], rfl, rfl, rfl, .cons_cons rfl (.singleton 5), by decide⟩,
    fun _ _ => True.intro⟩

end Uwe5631.Edma
