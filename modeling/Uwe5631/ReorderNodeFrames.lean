import Uwe5631.ReorderBuffer

/-!
# What the functions of a node leave to the table

Whatever its state, a node faults only inside itself: on a missing socket buffer or a
slot beyond its buffer. And it never changes the fields that name it in the table.
-/
namespace Uwe5631.Reorder
open FallibleRuns

/-- Faults inside a node, as opposed to those of the table. -/
def Fault.inNode : Fault → Prop
  | .nullSkb | .slotIndex _ => True
  | .bucketIndex _ | .freedNode _ => False

/-! Slots are the only thing that can be missing in a node's own loops: what holds of every fault of a
slot holds of all their faults. -/

section SlotFaults

variable {P : Fault → Prop}

theorem pkt_faults (hslot : ∀ i, P (.slotIndex i)) (d : RxBaNodeDesc) (i : ℕ) :
    FaultsIn P (d.pkt i) := by
  rw [RxBaNodeDesc.pkt]
  split
  · exact .ok _
  · exact .error (hslot i)

theorem insertFrame_faults (hslot : ∀ i, P (.slotIndex i)) (m : RxMsduDesc) (skb : Option Skb)
    (s : RxState) : FaultsIn P (insertFrame m skb s) :=
  (pkt_faults hslot ..).map.map

/-- Only a chain of socket buffers is linked from a slot. -/
theorem sendReorderSkb_faults (i : ℕ) (b : RxBaPkt) (s : RxState) :
    FaultsIn P (sendReorderSkb i b s) := by
  rw [sendReorderSkb]
  split
  · exact .ok _
  · rename_i hchain
    split
    · rw [reorderSetSkbList, if_neg hchain]
      exact .ok _
    · exact .ok _

theorem inOrderLoop_faults (hslot : ∀ i, P (.slotIndex i)) (n seq : ℕ) (s : RxState) :
    FaultsIn P (inOrderLoop n seq s) := by
  induction n generalizing seq s with
  | zero => exact .ok _
  | succ n ih =>
    refine (pkt_faults hslot ..).bind fun b => ?_
    split
    · exact (sendReorderSkb_faults ..).bind fun t => ih _ _
    · exact .ok _

theorem gapLoop_faults (hslot : ∀ i, P (.slotIndex i)) (n seq numFrms : ℕ) (s : RxState) :
    FaultsIn P (gapLoop n seq numFrms s) := by
  induction n generalizing seq numFrms s with
  | zero => exact .ok _
  | succ n ih =>
    rw [gapLoop]
    split
    · exact ih ..
    · refine (pkt_faults hslot ..).bind fun b => ?_
      split
      · exact ih ..
      · exact (sendReorderSkb_faults ..).bind fun t => ih ..

theorem flushLoop_faults (hslot : ∀ i, P (.slotIndex i)) (n i : ℕ) (s : RxState) :
    FaultsIn P (flushLoop n i s) := by
  induction n generalizing i s with
  | zero => exact .ok _
  | succ n ih => exact (pkt_faults hslot ..).bind fun b => ih ..

theorem betweenSeqloSeqhi_faults (hslot : ∀ i, P (.slotIndex i)) (s : RxState) :
    FaultsIn P (betweenSeqloSeqhi s) :=
  (inOrderLoop_faults hslot ..).map.map

theorem moveWindow_faults (hslot : ∀ i, P (.slotIndex i)) (pos : ℕ) (s : RxState) :
    FaultsIn P (moveWindow pos s) :=
  (gapLoop_faults hslot ..).bind fun _ => betweenSeqloSeqhi_faults hslot _

theorem afterReorderMsdu_faults (hslot : ∀ i, P (.slotIndex i)) (m : RxMsduDesc) (old : ℕ) (ret : ℤ)
    (s : Session) : FaultsIn P (afterReorderMsdu m old ret s) := by
  rw [afterReorderMsdu]
  split
  · split
    · exact (betweenSeqloSeqhi_faults hslot _).map
    · split <;> exact .ok _
  · split <;> exact .ok _

/-- A number that the window reaches is inserted, with a packet or without. -/
theorem reorderMsdu_reached_faults (hslot : ∀ i, P (.slotIndex i)) {m : RxMsduDesc}
    (skb : Option Skb) {s : RxState}
    (h : seqnoGeq m.seqNum s.desc.winStart = true ∨ seqnoGeq m.seqNum s.desc.winStartInit = true) :
    FaultsIn P (reorderMsdu m skb s) := by
  rw [reorderMsdu]
  split
  · split
    · exact insertFrame_faults hslot ..
    · exact (moveWindow_faults hslot ..).bind fun t => insertFrame_faults hslot m skb t
  · rename_i hstart
    rw [if_neg (by simpa using h.resolve_left hstart)]
    exact .ok _

end SlotFaults

/-! With the lists of the packets to be passed on, a socket buffer can be missing as well. -/

theorem inNode_slot (i : ℕ) : Fault.inNode (.slotIndex i) := trivial

theorem reorderSetSkbList_faults (l : RxLists) (sender : Sender) (seq : ℕ) (chain : List Skb) :
    FaultsIn Fault.inNode (reorderSetSkbList l sender seq chain) := by
  rw [reorderSetSkbList]
  split
  · exact .error trivial
  · exact .ok _

theorem sendOrderMsdu_faults (m : RxMsduDesc) (skb : Option Skb) (s : RxState) :
    FaultsIn Fault.inNode (sendOrderMsdu m skb s) := by
  unfold sendOrderMsdu
  cases skb with
  | none => exact .ok _
  | some x =>
    dsimp only
    split
    · exact (reorderSetSkbList_faults ..).map
    · exact .ok _

theorem reorderMsdu_faults (m : RxMsduDesc) (skb : Option Skb) (s : RxState) :
    FaultsIn Fault.inNode (reorderMsdu m skb s) := by
  by_cases hreach : seqnoGeq m.seqNum s.desc.winStart = true ∨
      seqnoGeq m.seqNum s.desc.winStartInit = true
  · exact reorderMsdu_reached_faults inNode_slot skb hreach
  · obtain ⟨hstart, hinit⟩ := not_or.mp hreach
    rw [reorderMsdu, if_neg hstart, if_pos (by simpa using hinit)]
    exact (reorderSetSkbList_faults ..).map

theorem reorderMsduProcess_faults (m : RxMsduDesc) (skb : Option Skb) (s : Session) :
    FaultsIn Fault.inNode (reorderMsduProcess m skb s) := by
  rw [reorderMsduProcess]
  split
  · split
    · exact (sendOrderMsdu_faults ..).map
    · exact (reorderMsdu_faults ..).bind fun r => afterReorderMsdu_faults inNode_slot ..
  · exact (reorderSetSkbList_faults ..).map

theorem firstSeqnoLoop_faults (d : RxBaNodeDesc) (n seqno : ℕ) :
    FaultsIn Fault.inNode (firstSeqnoLoop d n seqno) := by
  induction n generalizing seqno with
  | zero => exact .ok _
  | succ n ih =>
    rw [firstSeqnoLoop]
    split
    · refine (pkt_faults inNode_slot ..).bind fun b => ?_
      split
      · exact .ok _
      · exact ih _
    · exact .ok _

theorem step_faults (s : Session) (e : Event) : FaultsIn Fault.inNode (step s e) := by
  cases e with
  | msdu m skb => exact reorderMsduProcess_faults ..
  | filter seqNum => exact reorderMsduProcess_faults ..
  | timeout =>
    simp only [step, baReorderTimeout]
    split
    · exact (firstSeqnoLoop_faults ..).bind fun v => (moveWindow_faults inNode_slot ..).map
    · exact .ok _
  | expire | resetPn | activate => exact .ok _

/-- The fields of a node that place it in the table. -/
def SameName (n m : RxBaNode) : Prop := m.tid = n.tid ∧ m.staLutIndex = n.staLutIndex

theorem SameName.refl (n : RxBaNode) : SameName n n := ⟨rfl, rfl⟩

theorem sameName_modReorderTimer (n : RxBaNode) : SameName n (modReorderTimer n) := by
  rw [modReorderTimer]
  split <;> exact ⟨rfl, rfl⟩

theorem sameName_countTimeout (n : RxBaNode) : SameName n (countTimeout n) := by
  unfold countTimeout
  dsimp only
  split <;> exact ⟨rfl, rfl⟩

theorem SameName.trans {n m k : RxBaNode} (h : SameName n m) (h' : SameName m k) : SameName n k :=
  ⟨h'.1.trans h.1, h'.2.trans h.2⟩

theorem afterReorderMsdu_sameName {m : RxMsduDesc} {old : ℕ} {ret : ℤ} {s s' : Session}
    (h : afterReorderMsdu m old ret s = .ok s') : SameName s.node s'.node := by
  rw [afterReorderMsdu] at h
  split at h
  · split at h
    · obtain ⟨r, _, rfl⟩ := map_eq_ok.mp h
      exact sameName_modReorderTimer (s.withRx r).node
    · split at h <;> cases h
      · exact sameName_modReorderTimer s.node
      · exact .refl _
  · split at h <;> cases h <;> exact ⟨rfl, rfl⟩

theorem reorderMsduProcess_sameName {m : RxMsduDesc} {skb : Option Skb} {s s' : Session}
    (h : reorderMsduProcess m skb s = .ok s') : SameName s.node s'.node := by
  rw [reorderMsduProcess] at h
  split at h
  · split at h
    · obtain ⟨r, _, rfl⟩ := map_eq_ok.mp h
      exact ⟨rfl, rfl⟩
    · obtain ⟨r, _, hafter⟩ := bind_eq_ok.mp h
      exact afterReorderMsdu_sameName (s := s.withRx r.2) hafter
  · obtain ⟨l, _, rfl⟩ := map_eq_ok.mp h
    exact ⟨rfl, rfl⟩

theorem step_sameName {s s' : Session} {ev : Event} (h : step s ev = .ok s') :
    SameName s.node s'.node := by
  cases ev with
  | msdu m skb => exact reorderMsduProcess_sameName h
  | filter seqNum => exact reorderMsduProcess_sameName h
  | timeout =>
    simp only [step, baReorderTimeout] at h
    split at h
    · obtain ⟨v, _, h⟩ := bind_eq_ok.mp h
      obtain ⟨r, _, rfl⟩ := map_eq_ok.mp h
      exact (sameName_countTimeout (s.withRx r).node).trans (sameName_modReorderTimer _)
    · cases h
      exact .refl _
  | expire | resetPn | activate =>
    cases h
    exact ⟨rfl, rfl⟩

end Uwe5631.Reorder
