import Uwe5631.FallibleRuns
import Mathlib

/-!
# The receive buffers of PCIe

`buffer_list` holds the skbs whose addresses the firmware has, or which wait in the address message
for it. An skb is found again by the pointer hidden behind the buffer its address is of.
-/
namespace Uwe5631.Mm
open FallibleRuns

abbrev SPRDWL_PHYS_LEN : ℕ := 5

abbrev SPRDWL_MH_ADDRESS_BIT : BitVec 64 := 1 <<< 39

abbrev SPRDWL_MAX_MH_BUF : ℕ := 500

abbrev SPRDWL_MAX_ADD_MH_BUF_ONCE : ℕ := 200

/-- An address as the messages have it, with `SPRDWL_PHYS_LEN` bytes. -/
abbrev PhysAddr := BitVec 40

structure Skb where
  id : ℕ
  /-- where `dma_map_single` has mapped its buffer -/
  pa : Option (BitVec 64)
  deriving DecidableEq, Repr

structure State where
  bufferList : List Skb
  /-- the addresses of the message at `addr_trans`, `none` for a null pointer -/
  addrTrans : Option (List PhysAddr)
  /-- the addresses that were sent and neither consumed nor handed back -/
  firmware : List PhysAddr
  /-- the skbs that were allocated for the pool and neither freed nor passed on -/
  live : List Skb
  nextId : ℕ
  /-- whether an allocation of the last refill has failed -/
  failed : Bool
  /-- whether the last event was a refill all of whose allocations have succeeded -/
  refilled : Bool
  deriving DecidableEq, Repr

inductive Fault where
  /-- what lies behind an address is not a buffer of the pool -/
  | wildPointer
  deriving DecidableEq, Repr

/-- What one `mm_do_addr_buf` meets: `kmalloc` and `if_tx_addr_trans`. -/
structure DoOutcome where
  kmalloc : Bool
  tx : Bool
  deriving DecidableEq, Repr

/-- The two of `mm_w_addr_buf`. -/
structure WriteOutcome where
  first : DoOutcome
  second : DoOutcome
  deriving DecidableEq, Repr

/-- What one `mm_single_buffer_alloc` meets: `dev_alloc_skb`, `dma_map_single` and the rest. -/
structure AllocOutcome where
  skb : Bool
  map : Option (BitVec 64)
  write : WriteOutcome
  deriving DecidableEq, Repr

/-- `mm_virt_to_phys`, 0 for a mapping error -/
def mmVirtToPhys : Option (BitVec 64) → BitVec 64
  | some pa => pa ||| SPRDWL_MH_ADDRESS_BIT
  | none => 0

/-- The address `mm_phys_to_virt` looks behind. -/
def physOf (pcieAddr : PhysAddr) : BitVec 64 := pcieAddr.setWidth 64 &&& ~~~ SPRDWL_MH_ADDRESS_BIT

/-- `mm_do_addr_buf`, and whether it succeeds -/
def mmDoAddrBuf (s : State) (o : DoOutcome) : State × Bool :=
  match s.addrTrans with
  | none => if o.kmalloc then ({ s with addrTrans := some [] }, true) else (s, false)
  | some value =>
    if value.length ≥ SPRDWL_MAX_ADD_MH_BUF_ONCE then
      if o.tx then
        let s := { s with firmware := s.firmware ++ value }
        if o.kmalloc then ({ s with addrTrans := some [] }, true)
        else ({ s with addrTrans := none }, false)
      else (s, false)
    else (s, true)

/-- `mm_w_addr_buf`, and whether it succeeds; the second `mm_do_addr_buf` does not count. -/
def mmWAddrBuf (s : State) (pcieAddr : PhysAddr) (o : WriteOutcome) : State × Bool :=
  let r := mmDoAddrBuf s o.first
  if r.2 then
    let s := { r.1 with addrTrans := r.1.addrTrans.map (· ++ [pcieAddr]) }
    ((mmDoAddrBuf s o.second).1, true)
  else r

/-- `mm_single_buffer_alloc`, and whether it returns 0 -/
def mmSingleBufferAlloc (s : State) (o : AllocOutcome) : State × Bool :=
  if o.skb then
    let skb : Skb := ⟨s.nextId, o.map⟩
    let s := { s with
      nextId := s.nextId + 1
      live := s.live ++ [skb]
      failed := s.failed || o.map.isNone }
    let pcieAddr := mmVirtToPhys o.map
    -- the test is for the failure of the mapping, and has no other branch
    if pcieAddr = 0 then
      let r := mmWAddrBuf s (pcieAddr.setWidth 40) o.write
      if r.2 then ({ r.1 with bufferList := r.1.bufferList ++ [skb] }, true)
      else ({ r.1 with live := r.1.live.erase skb }, false)
    else (s, false)
  else ({ s with failed := true }, false)

/-- `mm_buffer_alloc`, with the outcomes of its rounds; where they end, there are no more skbs. -/
def mmBufferAlloc (s : State) : ℕ → List AllocOutcome → State
  | 0, _ => s
  | _ + 1, [] => { s with failed := true }
  | n + 1, o :: os =>
    let r := mmSingleBufferAlloc s o
    if r.2 then mmBufferAlloc r.1 n os else r.1

/-- `mm_refill_buffer` -/
def mmRefillBuffer (s : State) (os : List AllocOutcome) : State :=
  if s.bufferList.length < SPRDWL_MAX_MH_BUF then
    mmBufferAlloc s (SPRDWL_MAX_MH_BUF - s.bufferList.length) os
  else s

/-- `mm_single_buffer_unlink` -/
def mmSingleBufferUnlink (s : State) (pcieAddr : PhysAddr) : Except Fault (Skb × State) :=
  match s.bufferList.find? (fun skb => skb.pa = some (physOf pcieAddr)) with
  | some skb => .ok (skb, { s with bufferList := s.bufferList.erase skb })
  | none => .error .wildPointer

/-- The addresses a loop over an event reaches within `total_len`. -/
def fitting {α : Type*} (addresses : List α) (totalLen : ℕ) : List α :=
  addresses.take (totalLen / SPRDWL_PHYS_LEN)

/-- A round of `mm_buffer_unlink`: the skb is passed on or, with a wrong checksum, freed. -/
def unlinkRound (s : State) (a : PhysAddr × AllocOutcome) : Except Fault State :=
  (mmSingleBufferUnlink s a.1).map fun r =>
    (mmSingleBufferAlloc
      { r.2 with live := r.2.live.erase r.1, firmware := r.2.firmware.erase a.1 } a.2).1

/-- `mm_buffer_unlink` -/
def mmBufferUnlink (s : State) (addresses : List (PhysAddr × AllocOutcome)) (totalLen : ℕ) :
    Except Fault State :=
  run unlinkRound s (fitting addresses totalLen)

/-- A round of `mm_buffer_relink` -/
def relinkRound (s : State) (a : PhysAddr × WriteOutcome) : Except Fault State :=
  let r := mmWAddrBuf { s with firmware := s.firmware.erase a.1 } a.1 a.2
  if r.2 then .ok r.1
  else (mmSingleBufferUnlink r.1 a.1).map fun r => { r.2 with live := r.2.live.erase r.1 }

/-- `mm_buffer_relink` -/
def mmBufferRelink (s : State) (addresses : List (PhysAddr × WriteOutcome)) (totalLen : ℕ) :
    Except Fault State :=
  run relinkRound s (fitting addresses totalLen)

/-- `mm_single_event_process` is one of the last two and a refill after it. -/
inductive Event where
  | refill (os : List AllocOutcome)
  | unlink (addresses : List (PhysAddr × AllocOutcome)) (totalLen : ℕ)
  | relink (addresses : List (PhysAddr × WriteOutcome)) (totalLen : ℕ)

def step (s : State) : Event → Except Fault State
  | .refill os =>
    let s := mmRefillBuffer { s with failed := false } os
    .ok { s with refilled := !s.failed }
  | .unlink addresses totalLen => mmBufferUnlink { s with refilled := false } addresses totalLen
  | .relink addresses totalLen => mmBufferRelink { s with refilled := false } addresses totalLen

def State.empty : State := ⟨[], none, [], [], 0, false, false⟩

/-- `sprdwl_mm_init` -/
def mmInit (os : List AllocOutcome) : State := mmBufferAlloc .empty SPRDWL_MAX_MH_BUF os

/-- The addresses that are sent or wait to be sent. -/
def outstanding (s : State) : ℕ := s.firmware.length + (s.addrTrans.getD []).length

/-- Every buffer has its address with the firmware or in the message, no skb is lost, and a refill
without failures fills the pool. -/
structure Conserved (s : State) : Prop where
  count : s.bufferList.length = outstanding s
  live : s.live.Perm s.bufferList
  full : s.refilled = true → s.bufferList.length = SPRDWL_MAX_MH_BUF

/-- Whether the address message takes one more address. -/
def Takes (s : State) (o : WriteOutcome) : Prop :=
  (s.addrTrans = none → o.first.kmalloc = true) ∧
    ∀ value, s.addrTrans = some value → value.length ≥ SPRDWL_MAX_ADD_MH_BUF_ONCE →
      o.first.tx = true ∧ o.first.kmalloc = true

/-- None of the skbs that are allocated in the rounds of `mm_buffer_alloc` is mapped. -/
def Unmapped (s : State) : ℕ → List AllocOutcome → Prop
  | 0, _ => True
  | _ + 1, [] => True
  | n + 1, o :: os =>
    o.skb = true → o.map = none ∧
      (Takes s o.write → Unmapped (mmSingleBufferAlloc s o).1 n os)

/-- A refill maps no skb, the firmware consumes nothing, and it hands back what it has while the
message takes it. -/
def Unused (s : State) : Event → Prop
  | .refill os => Unmapped { s with failed := false } (SPRDWL_MAX_MH_BUF - s.bufferList.length) os
  | .unlink addresses totalLen => fitting addresses totalLen = []
  | .relink addresses totalLen =>
    Along relinkRound (fun s a => a.1 ∈ s.firmware ∧ Takes s a.2) { s with refilled := false }
      (fitting addresses totalLen)

variable {s t : State} {n : ℕ} {o : AllocOutcome} {os : List AllocOutcome} {a : PhysAddr}
  {w : WriteOutcome} {d : DoOutcome}

/-! ## The address message -/

/-- Writing to the address message touches no skb. -/
structure SameSkbs (s t : State) : Prop where
  bufferList : t.bufferList = s.bufferList
  live : t.live = s.live
  failed : t.failed = s.failed
  refilled : t.refilled = s.refilled

theorem mmDoAddrBuf_sameSkbs : SameSkbs s (mmDoAddrBuf s d).1 := by
  rw [mmDoAddrBuf]
  repeat' split
  all_goals exact ⟨rfl, rfl, rfl, rfl⟩

/-- Sending the message changes where its addresses are, not how many there are. -/
theorem outstanding_mmDoAddrBuf : outstanding (mmDoAddrBuf s d).1 = outstanding s := by
  rw [mmDoAddrBuf]
  cases hvalue : s.addrTrans with
  | none => cases d.kmalloc <;> simp [outstanding, hvalue]
  | some value =>
    dsimp only
    split
    · cases d.tx <;> cases d.kmalloc <;> simp [outstanding, hvalue]
    · rfl

theorem mmDoAddrBuf_addrTrans (h : (mmDoAddrBuf s d).2 = true) :
    ∃ value, (mmDoAddrBuf s d).1.addrTrans = some value := by
  rw [mmDoAddrBuf] at h ⊢
  cases hvalue : s.addrTrans with
  | none => cases hk : d.kmalloc <;> simp_all
  | some value =>
    simp only [hvalue] at h ⊢
    split at h
    · cases hx : d.tx <;> cases hk : d.kmalloc <;> simp_all
    · rename_i hroom
      exact ⟨value, by rw [if_neg hroom]; exact hvalue⟩

theorem mmWAddrBuf_snd : (mmWAddrBuf s a w).2 = (mmDoAddrBuf s w.first).2 := by
  rw [mmWAddrBuf]
  dsimp only
  split
  · rename_i h
    exact h.symm
  · rfl

theorem mmWAddrBuf_iff : (mmWAddrBuf s a w).2 = true ↔ Takes s w := by
  rw [mmWAddrBuf_snd, mmDoAddrBuf, Takes]
  cases hvalue : s.addrTrans with
  | none => cases w.first.kmalloc <;> simp
  | some value =>
    dsimp only
    split
    · cases w.first.tx <;> cases w.first.kmalloc <;> simp_all
    · rename_i hroom
      simp_all

theorem mmWAddrBuf_sameSkbs : SameSkbs s (mmWAddrBuf s a w).1 := by
  have hfirst := mmDoAddrBuf_sameSkbs (s := s) (d := w.first)
  rw [mmWAddrBuf]
  dsimp only
  split
  · have hsecond := mmDoAddrBuf_sameSkbs
      (s := { (mmDoAddrBuf s w.first).1 with
        addrTrans := (mmDoAddrBuf s w.first).1.addrTrans.map (· ++ [a]) }) (d := w.second)
    exact ⟨hsecond.bufferList.trans hfirst.bufferList, hsecond.live.trans hfirst.live,
      hsecond.failed.trans hfirst.failed, hsecond.refilled.trans hfirst.refilled⟩
  · exact hfirst

/-- A write that succeeds adds one address. -/
theorem outstanding_mmWAddrBuf :
    outstanding (mmWAddrBuf s a w).1 = outstanding s + if (mmWAddrBuf s a w).2 then 1 else 0 := by
  rw [mmWAddrBuf_snd, mmWAddrBuf]
  dsimp only
  split
  · rename_i h
    obtain ⟨value, hvalue⟩ := mmDoAddrBuf_addrTrans h
    have hfirst := outstanding_mmDoAddrBuf (s := s) (d := w.first)
    rw [outstanding_mmDoAddrBuf]
    simp only [outstanding, hvalue, Option.map_some, Option.getD_some, List.length_append,
      List.length_singleton] at hfirst ⊢
    omega
  · exact outstanding_mmDoAddrBuf

/-! ## Allocation -/

theorem mmVirtToPhys_ne_zero (pa : BitVec 64) : mmVirtToPhys (some pa) ≠ 0 := by
  intro h
  have hbit : (pa ||| SPRDWL_MH_ADDRESS_BIT).getLsbD 39 = true := by
    rw [BitVec.getLsbD_or, Bool.or_eq_true]
    right
    decide
  rw [mmVirtToPhys] at h
  rw [h] at hbit
  cases hbit

/-- Between the events: the skbs and addresses are as many as the buffers, and no buffer of the pool
is one that the firmware could write to. -/
structure Blind (s : State) : Prop where
  count : s.bufferList.length = outstanding s
  live : s.live.Perm s.bufferList
  unmapped : ∀ skb ∈ s.bufferList, skb.pa = none

/-- An skb that is mapped is on no list. -/
theorem mmSingleBufferAlloc_mapped (hskb : o.skb = true) (hmap : o.map ≠ none) :
    (mmSingleBufferAlloc s o).2 = false ∧
      (mmSingleBufferAlloc s o).1.bufferList = s.bufferList ∧
      (mmSingleBufferAlloc s o).1.live.length = s.live.length + 1 := by
  obtain ⟨pa, hpa⟩ := Option.ne_none_iff_exists'.mp hmap
  have hne := mmVirtToPhys_ne_zero pa
  simp only [mmSingleBufferAlloc, hskb, hpa, if_true, if_neg hne, List.length_append,
    List.length_singleton, true_and]

theorem mmSingleBufferAlloc_none (hskb : o.skb = false) :
    mmSingleBufferAlloc s o = ({ s with failed := true }, false) := by
  simp [mmSingleBufferAlloc, hskb]

/-- The state in which `mm_single_buffer_alloc` writes the address of an skb without a mapping. -/
def State.allocated (s : State) : State :=
  { s with nextId := s.nextId + 1, live := s.live ++ [⟨s.nextId, none⟩], failed := true }

theorem mmSingleBufferAlloc_unmapped (hskb : o.skb = true) (hmap : o.map = none) :
    mmSingleBufferAlloc s o =
      if (mmWAddrBuf s.allocated 0#40 o.write).2 then
        ({ (mmWAddrBuf s.allocated 0#40 o.write).1 with
          bufferList := (mmWAddrBuf s.allocated 0#40 o.write).1.bufferList ++ [⟨s.nextId, none⟩] },
          true)
      else
        ({ (mmWAddrBuf s.allocated 0#40 o.write).1 with
          live := (mmWAddrBuf s.allocated 0#40 o.write).1.live.erase ⟨s.nextId, none⟩ }, false) := by
  have hzero : mmVirtToPhys none = 0 := rfl
  simp only [mmSingleBufferAlloc, hskb, hmap, hzero, if_true, Option.isNone_none, Bool.or_true]
  rfl

theorem takes_allocated : Takes s.allocated w ↔ Takes s w := Iff.rfl

/-- A round of allocation that maps nothing, and whether another one follows. -/
theorem Blind.alloc (h : Blind s) (hmap : o.skb = true → o.map = none) :
    Blind (mmSingleBufferAlloc s o).1 ∧ (mmSingleBufferAlloc s o).1.failed = true ∧
      ((mmSingleBufferAlloc s o).2 = true ↔ o.skb = true ∧ Takes s o.write) ∧
      (mmSingleBufferAlloc s o).1.bufferList.length =
        s.bufferList.length + if (mmSingleBufferAlloc s o).2 then 1 else 0 := by
  cases hskb : o.skb with
  | false =>
    rw [mmSingleBufferAlloc_none hskb]
    exact ⟨⟨h.count, h.live, h.unmapped⟩, rfl, by simp, rfl⟩
  | true =>
    have hsame := mmWAddrBuf_sameSkbs (s := s.allocated) (a := 0#40) (w := o.write)
    have hout := outstanding_mmWAddrBuf (s := s.allocated) (a := 0#40) (w := o.write)
    have htakes := mmWAddrBuf_iff (s := s.allocated) (a := 0#40) (w := o.write)
    have hbuffers : (mmWAddrBuf s.allocated 0#40 o.write).1.bufferList = s.bufferList :=
      hsame.bufferList
    have hlive : (mmWAddrBuf s.allocated 0#40 o.write).1.live = s.live ++ [⟨s.nextId, none⟩] :=
      hsame.live
    have hallocated : outstanding s.allocated = outstanding s := rfl
    rw [mmSingleBufferAlloc_unmapped hskb (hmap hskb)]
    cases hw : (mmWAddrBuf s.allocated 0#40 o.write).2 with
    | true =>
      rw [hw, if_pos rfl, hallocated] at hout
      rw [hw] at htakes
      rw [if_pos rfl]
      refine ⟨⟨?_, ?_, ?_⟩, hsame.failed, by simpa [takes_allocated] using htakes, by simp [hbuffers]⟩
      · change (_ ++ [_]).length = outstanding (mmWAddrBuf s.allocated 0#40 o.write).1
        rw [hbuffers, hout, List.length_append, h.count]
        rfl
      · change ((mmWAddrBuf s.allocated 0#40 o.write).1.live).Perm (_ ++ [_])
        rw [hlive, hbuffers]
        exact h.live.append_right _
      · change ∀ skb ∈ _ ++ [_], _
        rw [hbuffers]
        intro skb hmem
        rcases List.mem_append.mp hmem with hmem | hmem
        · exact h.unmapped skb hmem
        · rw [List.mem_singleton.mp hmem]
    | false =>
      rw [hw, if_neg Bool.false_ne_true, hallocated, Nat.add_zero] at hout
      rw [hw] at htakes
      rw [if_neg Bool.false_ne_true]
      refine ⟨⟨?_, ?_, ?_⟩, hsame.failed, by simpa [takes_allocated] using htakes, by simp [hbuffers]⟩
      · change _ = outstanding (mmWAddrBuf s.allocated 0#40 o.write).1
        rw [hbuffers, hout, h.count]
      · change List.Perm (List.erase _ _) (mmWAddrBuf s.allocated 0#40 o.write).1.bufferList
        rw [hlive, hbuffers]
        refine List.Perm.trans ?_ h.live
        have hperm : (s.live ++ [(⟨s.nextId, none⟩ : Skb)]).Perm (⟨s.nextId, none⟩ :: s.live) :=
          List.perm_append_comm
        simpa using hperm.erase ⟨s.nextId, none⟩
      · change ∀ skb ∈ (mmWAddrBuf s.allocated 0#40 o.write).1.bufferList, _
        rw [hbuffers]
        exact h.unmapped

/-- An skb that is on no list stays on none. -/
def Leaked (s : State) : Prop := s.bufferList.length < s.live.length

theorem Leaked.alloc (h : Leaked s) : Leaked (mmSingleBufferAlloc s o).1 := by
  rw [Leaked] at h ⊢
  cases hskb : o.skb with
  | false =>
    rw [mmSingleBufferAlloc_none hskb]
    exact h
  | true =>
    by_cases hmap : o.map = none
    · have hsame := mmWAddrBuf_sameSkbs (s := s.allocated) (a := 0#40) (w := o.write)
      have hbuffers : (mmWAddrBuf s.allocated 0#40 o.write).1.bufferList = s.bufferList :=
        hsame.bufferList
      have hlive : (mmWAddrBuf s.allocated 0#40 o.write).1.live = s.live ++ [⟨s.nextId, none⟩] :=
        hsame.live
      rw [mmSingleBufferAlloc_unmapped hskb hmap]
      split
      · simp only [hbuffers, hlive, List.length_append]
        omega
      · have hmem : (⟨s.nextId, none⟩ : Skb) ∈ s.live ++ [⟨s.nextId, none⟩] := by simp
        simp only [hbuffers, hlive, List.length_erase_of_mem hmem, List.length_append,
          List.length_singleton]
        omega
    · obtain ⟨-, hbuffers, hlive⟩ := mmSingleBufferAlloc_mapped (s := s) hskb hmap
      rw [hbuffers, hlive]
      omega

/-- Rounds of allocation that map nothing. -/
theorem Blind.bufferAlloc (h : Blind s) (hmap : Unmapped s n os) :
    Blind (mmBufferAlloc s n os) ∧ ((mmBufferAlloc s n os).failed = true ∨ n = 0) ∧
      (mmBufferAlloc s n os).bufferList.length ≤ s.bufferList.length + n := by
  induction n generalizing s os with
  | zero => exact ⟨h, Or.inr rfl, Nat.le_refl _⟩
  | succ n ih =>
    cases os with
    | nil => exact ⟨⟨h.count, h.live, h.unmapped⟩, Or.inl rfl, Nat.le_add_right _ _⟩
    | cons o os =>
      obtain ⟨hblind, hfailed, hnext, hlength⟩ := h.alloc fun hskb => (hmap hskb).1
      rw [mmBufferAlloc]
      split
      · rename_i hgoes
        obtain ⟨hskb, htakes⟩ := hnext.mp hgoes
        obtain ⟨hrest, hfails, hle⟩ := ih hblind ((hmap hskb).2 htakes)
        rw [if_pos hgoes] at hlength
        refine ⟨hrest, Or.inl ?_, by omega⟩
        rcases hfails with hfails | rfl
        · exact hfails
        · exact hfailed
      · rename_i hstops
        rw [if_neg hstops] at hlength
        exact ⟨hblind, Or.inl hfailed, by omega⟩

/-- Otherwise an skb is lost. -/
theorem Blind.leaks (h : Blind s) (hmap : ¬ Unmapped s n os) : Leaked (mmBufferAlloc s n os) := by
  induction n generalizing s os with
  | zero => exact absurd trivial hmap
  | succ n ih =>
    cases os with
    | nil => exact absurd trivial hmap
    | cons o os =>
      obtain ⟨hskb, hbad⟩ := Classical.not_imp.mp hmap
      rw [mmBufferAlloc]
      by_cases hnone : o.map = none
      · obtain ⟨hblind, -, hnext, -⟩ := h.alloc fun _ => hnone
        obtain ⟨htakes, hrest⟩ := Classical.not_imp.mp fun hall => hbad ⟨hnone, hall⟩
        rw [if_pos (hnext.mpr ⟨hskb, htakes⟩)]
        exact ih hblind hrest
      · obtain ⟨hstops, hbuffers, hlive⟩ := mmSingleBufferAlloc_mapped (s := s) hskb hnone
        rw [hstops, if_neg Bool.false_ne_true, Leaked, hbuffers, hlive, h.live.length_eq]
        exact Nat.lt_succ_self _

theorem mmSingleBufferAlloc_refilled : (mmSingleBufferAlloc s o).1.refilled = s.refilled := by
  rw [mmSingleBufferAlloc]
  dsimp only
  repeat' split
  all_goals first
    | rfl
    | exact (mmWAddrBuf_sameSkbs ..).refilled

theorem mmBufferAlloc_refilled : (mmBufferAlloc s n os).refilled = s.refilled := by
  induction n generalizing s os with
  | zero => rfl
  | succ n ih =>
    cases os with
    | nil => rfl
    | cons o os =>
      rw [mmBufferAlloc]
      split
      · rw [ih, mmSingleBufferAlloc_refilled]
      · exact mmSingleBufferAlloc_refilled

/-! ## Addresses handed back and consumed -/

/-- No address leads to a buffer of the pool. -/
theorem Blind.wild (h : ∀ skb ∈ s.bufferList, skb.pa = none) :
    mmSingleBufferUnlink s a = .error .wildPointer := by
  have hnone : s.bufferList.find? (fun skb => skb.pa = some (physOf a)) = none := by
    rw [List.find?_eq_none]
    intro skb hmem
    simp [h skb hmem]
  rw [mmSingleBufferUnlink, hnone]

theorem unlinkRound_wild (h : ∀ skb ∈ s.bufferList, skb.pa = none) (x : PhysAddr × AllocOutcome) :
    unlinkRound s x = .error .wildPointer := by
  rw [unlinkRound, Blind.wild h]
  rfl

/-- A round that hands back an address, as far as the message takes it. -/
theorem relinkRound_takes {x : PhysAddr × WriteOutcome} (h : Takes s x.2) :
    ∃ t, relinkRound s x = .ok t ∧ t.bufferList = s.bufferList ∧ t.live = s.live ∧
      t.refilled = s.refilled ∧
      outstanding t + s.firmware.length = outstanding s + (s.firmware.erase x.1).length + 1 := by
  have hsame := mmWAddrBuf_sameSkbs (s := { s with firmware := s.firmware.erase x.1 }) (a := x.1)
    (w := x.2)
  have hout := outstanding_mmWAddrBuf (s := { s with firmware := s.firmware.erase x.1 }) (a := x.1)
    (w := x.2)
  have hok : (mmWAddrBuf { s with firmware := s.firmware.erase x.1 } x.1 x.2).2 = true :=
    mmWAddrBuf_iff.mpr h
  refine ⟨_, if_pos hok, hsame.bufferList, hsame.live, hsame.refilled, ?_⟩
  rw [if_pos hok] at hout
  rw [hout]
  simp only [outstanding]
  omega

theorem relinkRound_wild {x : PhysAddr × WriteOutcome} (h : ∀ skb ∈ s.bufferList, skb.pa = none)
    (hfull : ¬ Takes s x.2) : relinkRound s x = .error .wildPointer := by
  have hsame := mmWAddrBuf_sameSkbs (s := { s with firmware := s.firmware.erase x.1 }) (a := x.1)
    (w := x.2)
  have hfails : ¬ (mmWAddrBuf { s with firmware := s.firmware.erase x.1 } x.1 x.2).2 = true :=
    fun hok => hfull ((mmWAddrBuf_iff (s := { s with firmware := s.firmware.erase x.1 })).mp hok)
  have hbuffers : ∀ skb ∈
      (mmWAddrBuf { s with firmware := s.firmware.erase x.1 } x.1 x.2).1.bufferList,
      skb.pa = none := by
    rw [hsame.bufferList]
    exact h
  rw [relinkRound]
  dsimp only
  rw [if_neg hfails, Blind.wild hbuffers]
  rfl

theorem Blind.relink (h : Blind s) {x : PhysAddr × WriteOutcome} (hmem : x.1 ∈ s.firmware)
    (htakes : Takes s x.2) :
    ∃ t, relinkRound s x = .ok t ∧ Blind t ∧ t.bufferList = s.bufferList ∧
      t.refilled = s.refilled := by
  obtain ⟨t, ht, hbuffers, hlive, hrefilled, hout⟩ := relinkRound_takes htakes
  have hlength := List.length_erase_of_mem hmem
  have hpos := List.length_pos_of_mem hmem
  refine ⟨t, ht, ⟨?_, ?_, ?_⟩, hbuffers, hrefilled⟩
  · have := h.count
    rw [hbuffers]
    omega
  · rw [hlive, hbuffers]
    exact h.live
  · rw [hbuffers]
    exact h.unmapped

/-- There are more addresses than buffers. -/
structure Surplus (s : State) : Prop where
  count : s.bufferList.length < outstanding s
  unmapped : ∀ skb ∈ s.bufferList, skb.pa = none

theorem Surplus.relink (h : Surplus s) {x : PhysAddr × WriteOutcome}
    (ht : relinkRound s x = .ok t) : Surplus t := by
  by_cases htakes : Takes s x.2
  · obtain ⟨t', ht', hbuffers, -, -, hout⟩ := relinkRound_takes htakes
    obtain rfl := Except.ok.inj (ht.symm.trans ht')
    have hcount := h.count
    have hlength := List.le_length_erase (l := s.firmware) (a := x.1)
    refine ⟨?_, ?_⟩
    · rw [hbuffers]
      omega
    · rw [hbuffers]
      exact h.unmapped
  · rw [relinkRound_wild h.unmapped htakes] at ht
    cases ht

/-- The rounds of `mm_buffer_relink`. -/
theorem Blind.relinks (h : Blind s) {xs : List (PhysAddr × WriteOutcome)}
    (hall : Along relinkRound (fun s a => a.1 ∈ s.firmware ∧ Takes s a.2) s xs) :
    ∃ t, run relinkRound s xs = .ok t ∧ Blind t ∧ t.bufferList = s.bufferList ∧
      t.refilled = s.refilled :=
  run_completes (I := fun t => Blind t ∧ t.bufferList = s.bufferList ∧ t.refilled = s.refilled)
    (by
      rintro u x ⟨hu, hbuffers, hrefilled⟩ ⟨hmem, htakes⟩
      obtain ⟨t, ht, hblind, hb, hr⟩ := hu.relink hmem htakes
      exact ⟨t, ht, hblind, hb.trans hbuffers, hr.trans hrefilled⟩)
    ⟨h, rfl, rfl⟩ hall

theorem Blind.relinks_surplus (h : Blind s) {xs : List (PhysAddr × WriteOutcome)}
    (hall : ¬ Along relinkRound (fun s a => a.1 ∈ s.firmware ∧ Takes s a.2) s xs)
    (ht : run relinkRound s xs = .ok t) : Surplus t := by
  induction xs generalizing s with
  | nil => exact absurd trivial hall
  | cons x xs ih =>
    obtain ⟨s', hs', hrest⟩ := bind_eq_ok.mp ht
    by_cases htakes : Takes s x.2
    · by_cases hmem : x.1 ∈ s.firmware
      · obtain ⟨u, hu, hblind, -, -⟩ := h.relink hmem htakes
        obtain rfl := Except.ok.inj (hs'.symm.trans hu)
        refine ih hblind (fun hrun => hall ⟨⟨hmem, htakes⟩, fun v hv => ?_⟩) hrest
        obtain rfl := Except.ok.inj (hs'.symm.trans hv)
        exact hrun
      · -- an address the firmware did not have stays one too many
        obtain ⟨u, hu, hbuffers, -, -, hout⟩ := relinkRound_takes htakes
        obtain rfl := Except.ok.inj (hs'.symm.trans hu)
        have hcount := h.count
        rw [List.erase_of_not_mem hmem] at hout
        have hsurplus : Surplus s' := by
          refine ⟨?_, ?_⟩
          · rw [hbuffers]
            omega
          · rw [hbuffers]
            exact h.unmapped
        exact run_preserves (fun s e s' h hs => h.relink hs) hsurplus hrest
    · rw [relinkRound_wild h.unmapped htakes] at hs'
      cases hs'

/-! ## Runs -/

structure Sound (s : State) : Prop where
  blind : Blind s
  length_le : s.bufferList.length ≤ SPRDWL_MAX_MH_BUF
  full : s.refilled = true → s.bufferList.length = SPRDWL_MAX_MH_BUF

theorem Sound.conserved (h : Sound s) : Conserved s := ⟨h.blind.count, h.blind.live, h.full⟩

theorem Blind.congr (h : Blind s) (hbuffers : t.bufferList = s.bufferList) (hlive : t.live = s.live)
    (hout : outstanding t = outstanding s) : Blind t where
  count := by rw [hbuffers, hout, h.count]
  live := by
    rw [hbuffers, hlive]
    exact h.live
  unmapped := by
    rw [hbuffers]
    exact h.unmapped

/-- `mm_refill_buffer` is `mm_buffer_alloc` for what is missing. -/
theorem mmRefillBuffer_eq :
    mmRefillBuffer s os = mmBufferAlloc s (SPRDWL_MAX_MH_BUF - s.bufferList.length) os := by
  rw [mmRefillBuffer]
  split
  · rfl
  · rename_i hfull
    rw [Nat.sub_eq_zero_of_le (Nat.le_of_not_lt hfull), mmBufferAlloc]

theorem Sound.refill (h : Sound s)
    (hmap : Unmapped { s with failed := false } (SPRDWL_MAX_MH_BUF - s.bufferList.length) os) :
    ∃ t, step s (.refill os) = .ok t ∧ Sound t := by
  have hblind : Blind { s with failed := false } := h.blind.congr rfl rfl rfl
  obtain ⟨hafter, hfailed, hlength⟩ := hblind.bufferAlloc hmap
  have hle := h.length_le
  refine ⟨_, rfl, ?_⟩
  rw [mmRefillBuffer_eq]
  refine ⟨hafter.congr rfl rfl rfl, ?_, ?_⟩
  · change (mmBufferAlloc _ _ _).bufferList.length ≤ _
    refine hlength.trans ?_
    change s.bufferList.length + (SPRDWL_MAX_MH_BUF - s.bufferList.length) ≤ _
    omega
  · intro hrefilled
    rcases hfailed with hfailed | hzero
    · rw [Bool.not_eq_true'] at hrefilled
      rw [hfailed] at hrefilled
      cases hrefilled
    · change (mmBufferAlloc _ (SPRDWL_MAX_MH_BUF - s.bufferList.length) _).bufferList.length = _
      rw [hzero, mmBufferAlloc]
      change s.bufferList.length = _
      omega

theorem Sound.kept (h : Sound s) {e : Event} (hunused : Unused s e) :
    ∃ t, step s e = .ok t ∧ Sound t := by
  cases e with
  | refill os => exact h.refill hunused
  | unlink addresses totalLen =>
    have hnone : fitting addresses totalLen = [] := hunused
    refine ⟨{ s with refilled := false }, ?_, h.blind.congr rfl rfl rfl, h.length_le,
      fun hfalse => by cases hfalse⟩
    rw [step, mmBufferUnlink, hnone]
    rfl
  | relink addresses totalLen =>
    have hblind : Blind { s with refilled := false } := h.blind.congr rfl rfl rfl
    obtain ⟨t, ht, hafter, hbuffers, hrefilled⟩ := hblind.relinks hunused
    refine ⟨t, ht, hafter, ?_, ?_⟩
    · rw [hbuffers]
      exact h.length_le
    · rw [hrefilled]
      intro hfalse
      cases hfalse

theorem Leaked.not_conserved (h : Leaked s) : ¬ Conserved s :=
  fun hbad => absurd hbad.live.length_eq (Nat.ne_of_gt h)

theorem Sound.broken (h : Sound s) {e : Event} (hunused : ¬ Unused s e) (ht : step s e = .ok t) :
    ¬ Conserved t := by
  cases e with
  | refill os =>
    have hblind : Blind { s with failed := false } := h.blind.congr rfl rfl rfl
    have hleaked := hblind.leaks hunused
    have htt : _ = t := Except.ok.inj ht
    rw [mmRefillBuffer_eq] at htt
    rw [← htt]
    exact Leaked.not_conserved hleaked
  | unlink addresses totalLen =>
    rw [step, mmBufferUnlink] at ht
    cases hfit : fitting addresses totalLen with
    | nil => exact absurd hfit hunused
    | cons x xs =>
      rw [hfit, run_cons, unlinkRound_wild (s := { s with refilled := false }) h.blind.unmapped] at ht
      cases ht
  | relink addresses totalLen =>
    have hblind : Blind { s with refilled := false } := h.blind.congr rfl rfl rfl
    have hsurplus := hblind.relinks_surplus hunused ht
    intro hbad
    exact absurd hbad.count (Nat.ne_of_lt hsurplus.count)

theorem empty_blind : Blind .empty := ⟨rfl, List.Perm.nil, by simp [State.empty]⟩

/-- The pool is kept all along a run exactly if no skb is ever mapped, the firmware consumes nothing,
and all it hands back is what it has and the message takes. -/
theorem buffers_conserved_iff (os : List AllocOutcome) (es : List Event) :
    (∀ es₁ es₂, es = es₁ ++ es₂ → ∃ t, run step (mmInit os) es₁ = .ok t ∧ Conserved t) ↔
      Unmapped .empty SPRDWL_MAX_MH_BUF os ∧ Along step Unused (mmInit os) es := by
  by_cases hmap : Unmapped .empty SPRDWL_MAX_MH_BUF os
  · obtain ⟨hblind, -, hlength⟩ := empty_blind.bufferAlloc hmap
    have hrefilled : (mmInit os).refilled = false := mmBufferAlloc_refilled
    have hsound : Sound (mmInit os) := by
      refine ⟨hblind, hlength.trans (Nat.zero_add _).le, ?_⟩
      rw [hrefilled]
      intro hfalse
      cases hfalse
    rw [along_iff_prefixes_reach (fun _ h => h.conserved) hsound
      (fun _ _ h hunused => h.kept hunused) fun _ _ _ h hunused ht => h.broken hunused ht]
    exact (and_iff_right hmap).symm
  · constructor
    · intro h
      obtain ⟨t, ht, hconserved⟩ := h [] es rfl
      obtain rfl := Except.ok.inj ht
      exact absurd hconserved (empty_blind.leaks hmap).not_conserved
    · intro h
      exact absurd h.1 hmap

/-- All that an allocation needs succeeds. -/
def sampleOutcome : AllocOutcome := ⟨true, some 0x1000, ⟨⟨true, true⟩, ⟨true, true⟩⟩⟩

/-- A refill without failures leaves an empty pool empty, and its skb is lost. -/
theorem refill_fills_nothing :
    ∃ t, run step (mmInit []) [.refill [sampleOutcome]] = .ok t ∧ t.refilled = true ∧
      t.bufferList = [] ∧ t.live.length = 1 ∧ ¬ Conserved t := by
  refine ⟨_, rfl, by decide, by decide, by decide, fun h => ?_⟩
  exact absurd (h.full (by decide)) (by decide)

end Uwe5631.Mm
