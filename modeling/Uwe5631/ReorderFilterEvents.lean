import Uwe5631.BaNodeTable
import Uwe5631.ReorderNodeFrames

/-!
# Filter events and missing socket buffers

`wlan_filter_event` gives `reorder_msdu_process` a sequence number without a packet. Only two of its
branches link what they are given without a look at it.
-/
namespace Uwe5631.Reorder
open FallibleRuns

/-- A fault other than that of a missing socket buffer. -/
abbrev Fault.other (f : Fault) : Prop := f ≠ .nullSkb

theorem other_slot (i : ℕ) : Fault.other (.slotIndex i) := by simp

/-- Without a packet, a number before both is linked as a packet that is missing. -/
theorem reorderMsdu_before {m : RxMsduDesc} {s : RxState}
    (hstart : ¬ seqnoGeq m.seqNum s.desc.winStart = true)
    (hinit : ¬ seqnoGeq m.seqNum s.desc.winStartInit = true) :
    reorderMsdu m none s = .error .nullSkb := by
  rw [reorderMsdu, if_neg hstart, if_pos (by simpa using hinit)]
  rfl

/-- The node is active, and the number is not before both the window and where it was set up. -/
def RxBaNode.Takes (n : RxBaNode) (seqNum : U16) : Prop :=
  n.active = true ∧ (seqnoGeq (filterDesc seqNum).seqNum n.rxBa.winStart = true ∨
    seqnoGeq (filterDesc seqNum).seqNum n.rxBa.winStartInit = true)

instance (n : RxBaNode) (seqNum : U16) : Decidable (n.Takes seqNum) :=
  inferInstanceAs (Decidable (_ ∧ _))

/-- A filter event reaches `reorder_set_skb_list` exactly if the node does not take its number. -/
theorem step_filter_iff (s : Session) (seqNum : U16) :
    step s (.filter seqNum) = .error .nullSkb ↔ ¬ s.node.Takes seqNum := by
  rw [step, reorderMsduProcess, RxBaNode.Takes]
  by_cases hactive : s.node.active = true
  · rw [if_pos hactive]
    by_cases hseq : inSequence (filterDesc seqNum) s.node.rxBa = true
    · have hstart : ((filterDesc seqNum).seqNum : ℕ) = s.node.rxBa.winStart := by
        simp only [inSequence, Bool.and_eq_true, decide_eq_true_eq] at hseq
        exact hseq.1.1
      rw [if_pos hseq, hstart]
      refine ⟨fun h => (by cases h), fun h => absurd ⟨hactive, .inl ?_⟩ h⟩
      simp [seqnoGeq, seqnoLeq]
    · rw [if_neg hseq]
      by_cases hreach : seqnoGeq (filterDesc seqNum).seqNum s.node.rxBa.winStart = true ∨
          seqnoGeq (filterDesc seqNum).seqNum s.node.rxBa.winStartInit = true
      · have hmsdu : FaultsIn Fault.other (reorderMsdu (filterDesc seqNum) none s.rx) :=
          reorderMsdu_reached_faults other_slot none hreach
        have hother := hmsdu.bind fun r =>
          afterReorderMsdu_faults other_slot (filterDesc seqNum) s.node.rxBa.winStart r.1 (s.withRx r.2)
        exact ⟨fun h => absurd rfl (hother.fault _ h), fun h => absurd ⟨hactive, hreach⟩ h⟩
      · obtain ⟨hstart, hinit⟩ := not_or.mp hreach
        refine ⟨fun _ h => hreach h.2, fun _ => ?_⟩
        rw [reorderMsdu_before (s := s.rx) hstart hinit]
        rfl
  · rw [if_neg hactive]
    exact ⟨fun _ h => hactive h.1, fun _ => rfl⟩

/-! ## The table -/

theorem node_other (e : BaEntry) (a : NodeAddr) : FaultsIn Fault.other (e.node a) := by
  rw [BaEntry.node]
  split
  · exact .ok _
  · exact .error (by simp)

theorem findInBucket_other (e : BaEntry) (staLutIndex : ℕ) (as : List NodeAddr) :
    FaultsIn Fault.other (findInBucket e staLutIndex as) := by
  induction as with
  | nil => exact .ok _
  | cons a as ih =>
    refine (node_other e a).bind fun n => ?_
    split
    · exact .ok _
    · exact ih

theorem findBaNode_other (staLutIndex tid : ℕ) (e : BaEntry) :
    FaultsIn Fault.other (findBaNode staLutIndex tid e) := by
  rw [findBaNode]
  split
  · rename_i htid
    have hsame : FaultsIn Fault.other (isSameBa e staLutIndex tid e.currentBaNode) := by
      cases e.currentBaNode with
      | none => exact .ok _
      | some a => exact (node_other e a).map
    refine hsame.bind fun same => ?_
    split
    · exact .ok _
    · rw [BaEntry.hlist, dif_pos htid]
      exact (findInBucket_other ..).map
  · exact .ok _

/-- The node that a filter event is about, if there is one, takes its number. -/
def BaEntry.Takes (e : BaEntry) : BaEvent → Prop
  | .filter sta tid seqNum => ∀ a e' n, findBaNode sta tid e = .ok (some a, e') →
      e'.table.heap a = some n → n.Takes seqNum
  | _ => True

/-- A filter event does not use a socket buffer that it has not got. -/
def BaEntry.Sound (e : BaEntry) : BaEvent → Prop
  | .filter sta tid seqNum => entryStep e (.filter sta tid seqNum) ≠ .error .nullSkb
  | _ => True

theorem sound_iff_takes (e : BaEntry) (ev : BaEvent) : e.Sound ev ↔ e.Takes ev := by
  cases ev with
  | filter sta tid seqNum =>
    rw [BaEntry.Sound, BaEntry.Takes, entryStep, wlanFilterEvent, BaEntry.onFound]
    cases hfind : findBaNode sta tid e with
    | error f =>
      have hother := (findBaNode_other sta tid e).fault f hfind
      refine ⟨fun _ a e' n h => (by cases h), fun _ h => hother ?_⟩
      exact Except.error.inj h
    | ok r =>
      obtain ⟨found, e₁⟩ := r
      cases found with
      | none => exact ⟨fun _ a e' n h => (by cases h), fun _ h => (by cases h)⟩
      | some a =>
        rw [ok_bind]
        dsimp only
        rw [BaEntry.onNode]
        cases hnode : e₁.node a with
        | error f =>
          have hother := (node_other e₁ a).fault f hnode
          refine ⟨fun _ a' e' n h hn => ?_, fun _ h => hother (Except.error.inj h)⟩
          cases h
          rw [BaEntry.node, hn] at hnode
          cases hnode
        | ok n =>
          have hheap : e₁.table.heap a = some n := by
            rw [BaEntry.node] at hnode
            split at hnode
            · cases hnode
              assumption
            · cases hnode
          rw [ok_bind, Ne, map_eq_error, step_filter_iff, not_not]
          constructor
          · intro htakes a' e' n' h hn
            cases h
            rw [hheap] at hn
            cases hn
            exact htakes
          · exact fun h => h a e₁ n rfl hheap
  | _ => exact Iff.rfl

/-- No filter event of a run uses a missing socket buffer if and only if each finds an active node
whose window, or the place where it was set up, its number reaches. -/
theorem filter_events_iff (events : List BaEvent) :
    Along entryStep BaEntry.Sound BaEntry.init events ↔
      Along entryStep BaEntry.Takes BaEntry.init events :=
  along_congr (I := fun _ => True) (fun e ev _ => sound_iff_takes e ev) (fun _ _ _ _ _ _ => trivial)
    trivial

/-- The session has been set up and is not active yet. -/
theorem filter_before_activation :
    ¬ Along entryStep BaEntry.Sound BaEntry.init [.addba 3 0 100 32 (some 1), .filter 3 0 100] := by
  rintro ⟨-, h⟩
  exact (h _ rfl).1 rfl

end Uwe5631.Reorder
