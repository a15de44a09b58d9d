import Uwe5631.ReorderBuffer

/-!
# Replay protection of a node

`replay_detection` is run on a sequence of MPDUs with `reset_pn` calls in between. A log
beside the node notes the packet numbers accepted since the last reset and whether the
first protected MPDU after it is still to come. The permission to go back is cleared
only by the MPDU that uses it: after an MPDU with a greater packet number it stays.
-/
namespace Uwe5631.Reorder
open FallibleRuns

variable {d : RxBaNodeDesc} {p : RxBaPktDesc}

/-- The 48-bit packet number of an MPDU. -/
def RxBaPktDesc.pn (p : RxBaPktDesc) : ℕ := (p.pnH : ℕ) * 4294967296 + p.pnL

/-- The packet number stored in the node. -/
def RxBaNodeDesc.pn (d : RxBaNodeDesc) : ℕ := (d.pnH : ℕ) * 4294967296 + d.pnL

/-- The first test of `replay_detection` applies: both words at or below the stored ones. -/
def MayGoBack (d : RxBaNodeDesc) (p : RxBaPktDesc) : Prop :=
  d.resetPn = true ∧ p.pnL ≤ d.pnL ∧ p.pnH ≤ d.pnH

theorem MayGoBack.pn_le (h : MayGoBack d p) : p.pn ≤ d.pn := by
  rcases h with ⟨_, hl, hh⟩
  have hh' : (p.pnH : ℕ) ≤ d.pnH := hh
  have hl' : (p.pnL : ℕ) ≤ d.pnL := hl
  unfold RxBaPktDesc.pn RxBaNodeDesc.pn
  omega

/-- The two words compared by turns are the packet numbers compared. -/
theorem words_lt_iff :
    ((d.pnH = p.pnH ∧ d.pnL < p.pnL) ∨ d.pnH < p.pnH) ↔ d.pn < p.pn := by
  have hd := d.pnL.isLt
  have hp := p.pnL.isLt
  unfold RxBaPktDesc.pn RxBaNodeDesc.pn
  rw [Fin.ext_iff, Fin.lt_def, Fin.lt_def]
  omega

/-- What `replay_detection` does with a protected MPDU. -/
theorem replayDetection_spec (hc : p.cipherType.numbered = true) :
    ((replayDetection p d).1 = true ↔ MayGoBack d p ∨ d.pn < p.pn) ∧
      (replayDetection p d).2.pn = if (replayDetection p d).1 then p.pn else d.pn := by
  have hwords := words_lt_iff (d := d) (p := p)
  unfold replayDetection MayGoBack
  rw [if_pos hc]
  by_cases hback : (d.resetPn && d.pnL ≥ p.pnL && d.pnH ≥ p.pnH) = true
  · rw [if_pos hback]
    simp only [Bool.and_eq_true, decide_eq_true_eq, and_assoc] at hback
    exact ⟨iff_of_true rfl (Or.inl hback), rfl⟩
  · rw [if_neg hback]
    simp only [Bool.and_eq_true, decide_eq_true_eq, and_assoc] at hback
    by_cases hlt : ((d.pnH = p.pnH && d.pnL < p.pnL) || d.pnH < p.pnH) = true
    · rw [if_pos hlt]
      simp only [Bool.or_eq_true, Bool.and_eq_true, decide_eq_true_eq] at hlt
      exact ⟨iff_of_true rfl (Or.inr (hwords.mp hlt)), rfl⟩
    · rw [if_neg hlt]
      simp only [Bool.or_eq_true, Bool.and_eq_true, decide_eq_true_eq] at hlt
      refine ⟨iff_of_false Bool.false_ne_true ?_, rfl⟩
      rintro (h | h)
      · exact hback h
      · exact hlt (hwords.mpr h)

/-! ## Sequences of MPDUs and resets -/

inductive PnOp where
  /-- `replay_detection` on an MPDU -/
  | mpdu (p : RxBaPktDesc)
  /-- the assignment of `reset_pn` -/
  | resetPn
  deriving DecidableEq, Repr

def pnStep (d : RxBaNodeDesc) : PnOp → Except Fault RxBaNodeDesc
  | .mpdu p => .ok (replayDetection p d).2
  | .resetPn => .ok { d with resetPn := true }

/-- Whether the next protected MPDU is the first one after a reset, and the packet
numbers accepted since then. -/
structure PnLog where
  permitted : Bool
  since : List ℕ
  deriving DecidableEq, Repr

def pnNote (g : PnLog) (d : RxBaNodeDesc) (op : PnOp) (_ : RxBaNodeDesc) : PnLog :=
  match op with
  | .mpdu p =>
    if p.cipherType.numbered then
      ⟨false, if (replayDetection p d).1 then g.since ++ [p.pn] else g.since⟩
    else g
  | .resetPn => ⟨true, []⟩

/-- The log of a node at the beginning; a reset may be pending. -/
def pnStart (d : RxBaNodeDesc) : RxBaNodeDesc × PnLog := (d, ⟨d.resetPn, []⟩)

/-- A protected MPDU is accepted if its packet number is greater than the stored one, and
otherwise only as the first one after a reset. -/
def ProtectedStep (x : RxBaNodeDesc × PnLog) : PnOp → Prop
  | .mpdu p => p.cipherType.numbered = true →
      (x.1.pn < p.pn → (replayDetection p x.1).1 = true) ∧
      ((replayDetection p x.1).1 = true → p.pn ≤ x.1.pn → x.2.permitted = true)
  | .resetPn => True

/-- Every step is protected, and the numbers accepted since a reset always increase. -/
structure ReplayProtected (d : RxBaNodeDesc) (ops : List PnOp) : Prop where
  steps : Along (observe pnStep pnNote) ProtectedStep (pnStart d) ops
  increasing : ∀ fs gs, ops = fs ++ gs → ∀ t, run (observe pnStep pnNote) (pnStart d) fs = .ok t →
    t.2.since.Pairwise (· < ·)

/-- A protected MPDU that meets `reset_pn` set with both words at or below the stored
ones is the first protected MPDU after the reset. -/
def PermissionFresh (x : RxBaNodeDesc × PnLog) : PnOp → Prop
  | .mpdu p => p.cipherType.numbered = true → MayGoBack x.1 p → x.2.permitted = true
  | .resetPn => True

theorem protectedStep_iff (x : RxBaNodeDesc × PnLog) (op : PnOp) :
    ProtectedStep x op ↔ PermissionFresh x op := by
  cases op with
  | mpdu p =>
    refine forall_congr' fun hc => ?_
    have hspec := (replayDetection_spec (d := x.1) hc).1
    constructor
    · rintro ⟨_, h⟩ hback
      exact h (hspec.mpr (Or.inl hback)) hback.pn_le
    · intro h
      refine ⟨fun hlt => hspec.mpr (Or.inr hlt), fun hacc hle => ?_⟩
      rcases hspec.mp hacc with hback | hlt
      · exact h hback
      · omega
  | resetPn => exact Iff.rfl

/-- The accepted numbers increase up to the stored one; before the first protected MPDU
after a reset there are none. -/
structure LogInvariant (x : RxBaNodeDesc × PnLog) : Prop where
  increasing : x.2.since.Pairwise (· < ·)
  bounded : ∀ a ∈ x.2.since, a ≤ x.1.pn
  none : x.2.permitted = true → x.2.since = []

theorem LogInvariant.step {x y : RxBaNodeDesc × PnLog} {op : PnOp} (h : LogInvariant x)
    (hp : ProtectedStep x op) (hs : observe pnStep pnNote x op = .ok y) : LogInvariant y := by
  obtain ⟨hd, hg⟩ := observe_eq_ok.mp hs
  rcases y with ⟨d', g'⟩
  simp only at hd hg
  subst hg
  cases op with
  | resetPn =>
    cases hd
    exact ⟨List.Pairwise.nil, by simp [pnNote], fun _ => rfl⟩
  | mpdu p =>
    cases hd
    by_cases hc : p.cipherType.numbered = true
    · have hpn := (replayDetection_spec (d := x.1) hc).2
      have hstep := (hp hc).2
      cases hacc : (replayDetection p x.1).1 with
      | true =>
        rw [hacc, if_pos rfl] at hpn
        have hbelow : ∀ a ∈ x.2.since, a < p.pn := by
          intro a ha
          by_contra hle
          have hb := h.bounded a ha
          have hnone := h.none (hstep hacc (by omega))
          rw [hnone] at ha
          cases ha
        simp only [pnNote, if_pos hc, hacc, if_true]
        refine ⟨?_, ?_, by simp⟩
        · exact List.pairwise_append.mpr ⟨h.increasing, List.pairwise_singleton _ _,
            fun a ha b hb => by rw [List.mem_singleton.mp hb]; exact hbelow a ha⟩
        · intro a ha
          simp only [hpn]
          rcases List.mem_append.mp ha with ha | ha
          · exact (hbelow a ha).le
          · rw [List.mem_singleton.mp ha]
      | false =>
        rw [hacc, if_neg Bool.false_ne_true] at hpn
        simp only [pnNote, if_pos hc, hacc, Bool.false_eq_true, if_false]
        refine ⟨h.increasing, fun a ha => ?_, by simp⟩
        simp only [hpn]
        exact h.bounded a ha
    · have hsame : (replayDetection p x.1).2 = x.1 := by
        rw [replayDetection, if_neg hc]
      simp only [pnNote, if_neg hc, hsame]
      exact h

/-- Replay protection holds of a sequence exactly when no permission outlives the first
protected MPDU after its reset in a way that a later MPDU can use. -/
theorem replay_protected_iff (d : RxBaNodeDesc) (ops : List PnOp) :
    ReplayProtected d ops ↔
      Along (observe pnStep pnNote) PermissionFresh (pnStart d) ops := by
  constructor
  · intro h
    exact h.steps.mono fun x op => (protectedStep_iff x op).mp
  · intro h
    have hsteps : Along (observe pnStep pnNote) ProtectedStep (pnStart d) ops :=
      h.mono fun x op => (protectedStep_iff x op).mpr
    refine ⟨hsteps, ?_⟩
    rintro fs gs rfl t ht
    have hstart : LogInvariant (pnStart d) := ⟨List.Pairwise.nil, by simp [pnStart], fun _ => rfl⟩
    exact (run_invariant (fun _ _ _ hi hp hs => hi.step hp hs) hstart
      (along_append.mp hsteps).1 ht).increasing

/-- A CCMP MPDU with a packet number of one word. -/
def ccmpMpdu (pnL : U32) : RxBaPktDesc := ⟨pnL, 0, 0, hwCcmp, true, 1⟩

/-- A reset, a greater packet number, and one between it and the stored one. -/
def replayedOps : List PnOp :=
  [.mpdu (ccmpMpdu 5), .resetPn, .mpdu (ccmpMpdu 9), .mpdu (ccmpMpdu 7)]

theorem replay_protected_fails :
    (run (observe pnStep pnNote) (pnStart (newBaNode 0 0 64).rxBa) replayedOps).map
      (·.2.since) = .ok [9, 7] ∧
    ¬ ReplayProtected (newBaNode 0 0 64).rxBa replayedOps := by
  have hrun : ∃ t, run (observe pnStep pnNote) (pnStart (newBaNode 0 0 64).rxBa) replayedOps =
      .ok t ∧ t.2.since = [9, 7] := ⟨_, rfl, rfl⟩
  rcases hrun with ⟨t, ht, hsince⟩
  refine ⟨by rw [ht, ok_map, hsince], fun h => ?_⟩
  have hincr := h.increasing replayedOps [] (by simp) t ht
  rw [hsince] at hincr
  revert hincr
  decide

end Uwe5631.Reorder
