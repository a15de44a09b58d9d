import Mathlib.Data.List.Induction

/-!
# Histories

What has happened is a list, the latest last.
-/
namespace Uwe5631.Histories

variable {α β : Type*}

/-- Something with the first property has happened, and all that came after it has the second. -/
def Since (P Q : α → Prop) (h : List α) : Prop :=
  ∃ h₁ a h₂, h = h₁ ++ a :: h₂ ∧ P a ∧ ∀ b ∈ h₂, Q b

variable {P Q : α → Prop} {h : List α} {a : α}

@[simp] theorem not_since_nil : ¬ Since P Q [] := by
  rintro ⟨h₁, a, h₂, heq, -⟩
  simp at heq

theorem since_concat : Since P Q (h ++ [a]) ↔ P a ∨ Since P Q h ∧ Q a := by
  constructor
  · rintro ⟨h₁, b, h₂, heq, hb, hQ⟩
    rcases List.eq_nil_or_concat h₂ with rfl | ⟨h₃, c, rfl⟩
    · obtain ⟨-, hab⟩ := List.append_inj' heq rfl
      obtain rfl := List.singleton_inj.mp hab
      exact .inl hb
    · have heq' : h ++ [a] = (h₁ ++ b :: h₃) ++ [c] := by
        simpa using heq
      obtain ⟨hh, hac⟩ := List.append_inj' heq' rfl
      obtain rfl := List.singleton_inj.mp hac
      refine .inr ⟨⟨h₁, b, h₃, hh, hb, fun x hx => hQ x ?_⟩, hQ a ?_⟩
      · simp [hx]
      · simp
  · rintro (ha | ⟨⟨h₁, b, h₂, rfl, hb, hQ⟩, ha⟩)
    · exact ⟨h, a, [], rfl, ha, by simp⟩
    · refine ⟨h₁, b, h₂ ++ [a], by simp, hb, fun x hx => ?_⟩
      rcases List.mem_append.mp hx with hx | hx
      · exact hQ x hx
      · obtain rfl := List.mem_singleton.mp hx
        exact ha

instance Since.decidable [DecidablePred P] [DecidablePred Q] :
    (h : List α) → Decidable (Since P Q h)
  | [] => isFalse not_since_nil
  | a :: h =>
    have := Since.decidable h
    decidable_of_iff (Since P Q h ∨ P a ∧ ∀ b ∈ h, Q b) (by
      constructor
      · rintro (⟨h₁, b, h₂, rfl, hb, hQ⟩ | ⟨ha, hQ⟩)
        · exact ⟨a :: h₁, b, h₂, rfl, hb, hQ⟩
        · exact ⟨[], a, h, rfl, ha, hQ⟩
      · rintro ⟨h₁, b, h₂, heq, hb, hQ⟩
        cases h₁ with
        | nil =>
          obtain ⟨rfl, rfl⟩ := List.cons.inj heq
          exact .inr ⟨hb, hQ⟩
        | cons c h₁ =>
          obtain ⟨rfl, rfl⟩ := List.cons.inj heq
          exact .inl ⟨h₁, b, h₂, rfl, hb, hQ⟩)

/-- A state that is moved by one event after the other. -/
def after (next : β → α → β) (init : β) (h : List α) : β := h.foldl next init

variable {next : β → α → β} {init : β}

@[simp] theorem after_nil : after next init [] = init := rfl

@[simp] theorem after_concat : after next init (h ++ [a]) = next (after next init h) a := by
  simp [after]

/-- A property of histories and states that each event keeps holds of every history and the state
after it. -/
theorem after_induction {I : List α → β → Prop} (hinit : I [] init)
    (hstep : ∀ h s a, I h s → I (h ++ [a]) (next s a)) (h : List α) : I h (after next init h) := by
  induction h using List.reverseRecOn with
  | nil => exact hinit
  | append_singleton h a ih =>
    rw [after_concat]
    exact hstep h _ a ih

end Uwe5631.Histories
