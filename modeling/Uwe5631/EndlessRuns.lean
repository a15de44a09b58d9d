import Mathlib.Order.Nat
import Mathlib.Data.Nat.Init

/-!
# Endless runs

A machine whose step is a total function, driven by an endless sequence of events. A property leads
to another one if every state with the first is followed by one with the second. It does so by a rank
that no step raises and that the steps of one kind, which keep coming, lower.
-/
namespace Uwe5631.EndlessRuns

variable {σ ε : Type*} {next : σ → ε → σ} {init : σ} {ev : ℕ → ε} {P Q R : σ → Prop}

theorem foldl_keeps (hkeep : ∀ s e, P s → P (next s e)) {s : σ} (hs : P s) (es : List ε) :
    P (es.foldl next s) := by
  induction es generalizing s with
  | nil => exact hs
  | cons e es ih => exact ih (hkeep s e hs)

/-- The state after the first events of an endless sequence. -/
def stateAt (next : σ → ε → σ) (init : σ) (ev : ℕ → ε) : ℕ → σ
  | 0 => init
  | n + 1 => next (stateAt next init ev n) (ev n)

@[simp] theorem stateAt_zero : stateAt next init ev 0 = init := rfl

@[simp] theorem stateAt_succ (n : ℕ) :
    stateAt next init ev (n + 1) = next (stateAt next init ev n) (ev n) := rfl

theorem stateAt_keeps (hkeep : ∀ s e, P s → P (next s e)) (hinit : P init) (n : ℕ) :
    P (stateAt next init ev n) := by
  induction n with
  | zero => exact hinit
  | succ n ih => exact hkeep _ _ ih

/-- Every state of the run with the first property is followed by one with the second. -/
def LeadsTo (next : σ → ε → σ) (init : σ) (ev : ℕ → ε) (P Q : σ → Prop) : Prop :=
  ∀ n, P (stateAt next init ev n) → ∃ m, n ≤ m ∧ Q (stateAt next init ev m)

theorem LeadsTo.of_imp (h : ∀ s, P s → Q s) : LeadsTo next init ev P Q :=
  fun n hn => ⟨n, le_refl n, h _ hn⟩

theorem LeadsTo.trans (h : LeadsTo next init ev P Q) (h' : LeadsTo next init ev Q R) :
    LeadsTo next init ev P R := by
  intro n hn
  obtain ⟨m, hm, hQ⟩ := h n hn
  obtain ⟨k, hk, hR⟩ := h' m hQ
  exact ⟨k, hm.trans hk, hR⟩

theorem LeadsTo.cases (hP : LeadsTo next init ev P R) (hQ : LeadsTo next init ev Q R) :
    LeadsTo next init ev (fun s => P s ∨ Q s) R :=
  fun n hn => hn.elim (hP n) (hQ n)

/-- What a step either keeps or turns into the goal holds up to any later point, or the goal was
met before. -/
theorem waits_until (hstep : ∀ s e, P s → Q (next s e) ∨ P (next s e)) {n : ℕ}
    (hn : P (stateAt next init ev n)) (k : ℕ) :
    (∃ m, n ≤ m ∧ Q (stateAt next init ev m)) ∨ P (stateAt next init ev (n + k)) := by
  induction k with
  | zero => exact Or.inr hn
  | succ k ih =>
    rcases ih with ih | ih
    · exact Or.inl ih
    · rcases hstep _ (ev (n + k)) ih with hQ | hP
      · exact Or.inl ⟨n + k + 1, by omega, hQ⟩
      · exact Or.inr hP

/-- The rank rule: no step raises the rank, those of one kind lower it, and as long as the property
holds another one of that kind is to come. -/
theorem LeadsTo.of_rank (tick : ε → Prop) (rank : σ → ℕ)
    (hfair : ∀ n, P (stateAt next init ev n) → ∃ m, n ≤ m ∧ tick (ev m))
    (hstep : ∀ s e, P s → Q (next s e) ∨
      (P (next s e) ∧ rank (next s e) ≤ rank s ∧ (tick e → rank (next s e) < rank s))) :
    LeadsTo next init ev P Q := by
  have key : ∀ r n, P (stateAt next init ev n) → rank (stateAt next init ev n) = r →
      ∃ m, n ≤ m ∧ Q (stateAt next init ev m) := by
    intro r
    induction r using Nat.strong_induction_on with
    | _ r ih =>
    intro n hn hr
    obtain ⟨m, hm, htick⟩ := hfair n hn
    -- up to the next tick the rank stays at most `r`
    have hstay : ∀ s e, P s ∧ rank s ≤ r → Q (next s e) ∨ (P (next s e) ∧ rank (next s e) ≤ r) := by
      intro s e h
      rcases hstep s e h.1 with hQ | ⟨hP, hle, _⟩
      · exact Or.inl hQ
      · exact Or.inr ⟨hP, hle.trans h.2⟩
    have hwait := waits_until hstay (n := n) ⟨hn, hr.le⟩ (m - n)
    rw [Nat.add_sub_cancel' hm] at hwait
    rcases hwait with hQ | ⟨hP, hle⟩
    · exact hQ
    rcases hstep _ (ev m) hP with hQ | ⟨hP', _, hlt⟩
    · exact ⟨m + 1, by omega, hQ⟩
    · obtain ⟨k, hk, hQ⟩ := ih _ (lt_of_lt_of_le (hlt htick) hle) (m + 1) hP' rfl
      exact ⟨k, by omega, hQ⟩
  intro n hn
  exact key _ n hn rfl

end Uwe5631.EndlessRuns
