import Mathlib.Tactic.TypeStar

/-!
# Loops with fuel

A `while` loop that gives up when its fuel is spent, and the rule for it: an invariant, and a measure
that every round makes smaller.
-/
namespace Uwe5631.WhileLoops

variable {σ : Type*}

def whileLoop (cond : σ → Bool) (body : σ → Option σ) : Nat → σ → Option σ
  | 0, _ => none
  | fuel + 1, s => if cond s then (body s).bind (whileLoop cond body fuel) else some s

variable (cond : σ → Bool) (body : σ → Option σ) (I : σ → Prop) (measure : σ → Nat)

/-- A loop with enough fuel ends, where the invariant holds and the condition does not. -/
theorem whileLoop_spec
    (hbody : ∀ s, I s → cond s = true → ∃ t, body s = some t ∧ I t ∧ measure t < measure s)
    {fuel : Nat} {s : σ} (hs : I s) (hfuel : measure s < fuel) :
    ∃ t, whileLoop cond body fuel s = some t ∧ I t ∧ cond t = false ∧ measure t ≤ measure s := by
  induction fuel generalizing s with
  | zero => exact absurd hfuel (Nat.not_lt_zero _)
  | succ fuel ih =>
    rw [whileLoop]
    by_cases hcond : cond s = true
    · obtain ⟨t, hbodyt, ht, hlt⟩ := hbody s hs hcond
      obtain ⟨r, hr, hIr, hdone, hle⟩ := ih ht (Nat.lt_of_lt_of_le hlt (Nat.le_of_lt_succ hfuel))
      rw [if_pos hcond, hbodyt, Option.bind_some]
      exact ⟨r, hr, hIr, hdone, Nat.le_trans hle (Nat.le_of_lt hlt)⟩
    · rw [if_neg hcond]
      exact ⟨s, rfl, hs, Bool.eq_false_iff.mpr hcond, Nat.le_refl _⟩

end Uwe5631.WhileLoops
