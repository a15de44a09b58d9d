import Mathlib.Data.Nat.ModEq
import Mathlib.Algebra.Order.BigOperators.Group.List
import Mathlib.Algebra.Order.Monoid.Canonical.Basic
import Mathlib.Algebra.Order.Ring.Nat

/-!
# Windows of positions held in a ring of slots

A ring of `n` slots serves an unbounded line of positions: position `q` lives in
slot `q % n`. The window `[lo, hi)` never spans more than `n` positions, so the
slot of a position in it determines the position. A slot holds the empty value or
a value that is good for the position it serves.
-/
namespace Uwe5631.RingWindow

variable {β : Type*}

theorem position_unique {n lo a b : ℕ} (ha : lo ≤ a) (ha' : a < lo + n) (hb : lo ≤ b)
    (hb' : b < lo + n) (h : a % n = b % n) : a = b := by
  wlog hab : a ≤ b generalizing a b
  · exact (this hb hb' ha ha' h.symm (by omega)).symm
  have hdvd : n ∣ b - a := (Nat.modEq_iff_dvd' hab).mp h
  have hzero : b - a = 0 := Nat.eq_zero_of_dvd_of_lt hdvd (by omega)
  omega

theorem position_ne {n lo q : ℕ} (h : lo < q) (h' : q < lo + n) : lo % n ≠ q % n := by
  intro he
  have := position_unique (Nat.le_refl lo) (by omega) h.le h' he
  omega

/-- The positions in `[lo, hi)` held by the ring. -/
structure Holds (z : β) (good : ℕ → β → Prop) (lo hi : ℕ) (slots : List β) : Prop where
  fits : hi ≤ lo + slots.length
  held : ∀ i b, slots[i]? = some b →
    b = z ∨ ∃ q, lo ≤ q ∧ q < hi ∧ q % slots.length = i ∧ good q b

variable {z : β} {good good' : ℕ → β → Prop} {lo hi : ℕ} {slots : List β}

theorem holds_replicate (n : ℕ) (h : hi ≤ lo + n) :
    Holds z good lo hi (List.replicate n z) where
  fits := by simpa using h
  held i b hb := by
    rw [List.getElem?_replicate] at hb
    split at hb
    · exact Or.inl (Option.some.inj hb).symm
    · cases hb

/-- An occupied slot of a position in the window serves that position. -/
theorem Holds.at_position (h : Holds z good lo hi slots) {q : ℕ} (hq : lo ≤ q)
    (hq' : q < lo + slots.length) {b : β} (hb : slots[q % slots.length]? = some b)
    (hne : b ≠ z) : q < hi ∧ good q b := by
  rcases h.held _ b hb with rfl | ⟨p, hp, hp', hi', hg⟩
  · exact absurd rfl hne
  · have hpq : p = q := position_unique hp (by have := h.fits; omega) hq hq' hi'
    subst hpq
    exact ⟨hp', hg⟩

theorem Holds.widen (h : Holds z good lo hi slots) {hi' : ℕ} (hle : hi ≤ hi')
    (hfit : hi' ≤ lo + slots.length) : Holds z good lo hi' slots where
  fits := hfit
  held i b hb := by
    rcases h.held i b hb with hz | ⟨q, hq, hq', hi, hg⟩
    · exact Or.inl hz
    · exact Or.inr ⟨q, hq, by omega, hi, hg⟩

theorem Holds.imp (h : Holds z good lo hi slots) (hg : ∀ q b, lo ≤ q → good q b → good' q b) :
    Holds z good' lo hi slots where
  fits := h.fits
  held i b hb := by
    rcases h.held i b hb with hz | ⟨q, hq, hq', hi, hgood⟩
    · exact Or.inl hz
    · exact Or.inr ⟨q, hq, hq', hi, hg q b hq hgood⟩

/-- An empty slot at the base lets the window pass it. -/
theorem Holds.pass (h : Holds z good lo hi slots)
    (hz : slots[lo % slots.length]? = some z) : Holds z good (lo + 1) hi slots where
  fits := by have := h.fits; omega
  held i b hb := by
    rcases h.held i b hb with hbz | ⟨q, hq, hq', hi, hg⟩
    · exact Or.inl hbz
    · by_cases hlo : q = lo
      · subst hlo
        rw [hi, hb] at hz
        exact Or.inl (Option.some.inj hz)
      · exact Or.inr ⟨q, by omega, hq', hi, hg⟩

/-- Writing the empty value into the slot at the base lets the window pass it. -/
theorem Holds.clear (h : Holds z good lo hi slots) :
    Holds z good (lo + 1) hi (slots.set (lo % slots.length) z) where
  fits := by
    have := h.fits
    simp only [List.length_set]
    omega
  held i b hb := by
    simp only [List.length_set]
    rw [List.getElem?_set] at hb
    split at hb
    · split at hb
      · exact Or.inl (Option.some.inj hb).symm
      · cases hb
    · rename_i hne
      rcases h.held i b hb with hbz | ⟨q, hq, hq', hi, hg⟩
      · exact Or.inl hbz
      · have hlo : q ≠ lo := by
          rintro rfl
          exact hne hi
        exact Or.inr ⟨q, by omega, hq', hi, hg⟩

/-- Writing the slot of one position, when what is good may change for that position
alone. -/
theorem Holds.update (h : Holds z good lo hi slots) {q : ℕ} (hq : lo ≤ q) (hq' : q < hi) {b : β}
    (hb : good' q b) (hg : ∀ p c, p ≠ q → good p c → good' p c) :
    Holds z good' lo hi (slots.set (q % slots.length) b) where
  fits := by simpa using h.fits
  held i c hc := by
    simp only [List.length_set]
    rw [List.getElem?_set] at hc
    split at hc
    · rename_i hi'
      split at hc
      · cases hc
        exact Or.inr ⟨q, hq, hq', hi', hb⟩
      · cases hc
    · rename_i hne
      rcases h.held i c hc with hcz | ⟨p, hp, hp', hi', hgood⟩
      · exact Or.inl hcz
      · have hpq : p ≠ q := by
          rintro rfl
          exact hne hi'
        exact Or.inr ⟨p, hp, hp', hi', hg p c hpq hgood⟩

/-! ## Counting the occupied slots -/

section Occupied
variable [DecidableEq β]

/-- The number of slots that do not hold the empty value. -/
def occupied (z : β) (slots : List β) : ℕ := slots.countP (fun b => decide (b ≠ z))

@[simp] theorem occupied_replicate (n : ℕ) : occupied z (List.replicate n z) = 0 := by
  simp [occupied, List.countP_replicate]

theorem occupied_eq_zero {slots : List β} :
    occupied z slots = 0 ↔ ∀ (i : ℕ) (b : β), slots[i]? = some b → b = z := by
  simp only [occupied, List.countP_eq_zero, decide_not, Bool.not_eq_eq_eq_not, Bool.not_true,
    decide_eq_false_iff_not, not_not]
  constructor
  · intro h i b hb
    exact h b (List.mem_of_getElem? hb)
  · intro h b hb
    obtain ⟨i, hi⟩ := List.getElem?_of_mem hb
    exact h i b hi

theorem occupied_le_length (z : β) (slots : List β) : occupied z slots ≤ slots.length :=
  List.countP_le_length

theorem occupied_pos {slots : List β} {i : ℕ} {b : β} (hb : slots[i]? = some b) (hne : b ≠ z) :
    0 < occupied z slots := by
  rw [Nat.pos_iff_ne_zero]
  intro h
  exact hne (occupied_eq_zero.mp h i b hb)

private theorem occupied_set (z : β) {slots : List β} {i : ℕ} {b c : β} (hb : slots[i]? = some b) :
    occupied z (slots.set i c) + (if b = z then 0 else 1) =
      occupied z slots + (if c = z then 0 else 1) := by
  obtain ⟨hi, hget⟩ := List.getElem?_eq_some_iff.mp hb
  have hle : b ≠ z → 0 < occupied z slots := occupied_pos hb
  simp only [occupied] at hle ⊢
  rw [List.countP_set hi, hget]
  by_cases hbz : b = z <;> by_cases hcz : c = z <;> simp [hbz, hcz]
  all_goals
    have := hle hbz
    simp only [ne_eq, decide_not] at this
    omega

theorem occupied_clear {slots : List β} {i : ℕ} {b : β} (hb : slots[i]? = some b) (hne : b ≠ z) :
    occupied z (slots.set i z) + 1 = occupied z slots := by
  simpa [hne] using occupied_set z (c := z) hb

theorem occupied_fill {slots : List β} {i : ℕ} {c : β} (hb : slots[i]? = some z) (hne : c ≠ z) :
    occupied z (slots.set i c) = occupied z slots + 1 := by
  simpa [hne] using occupied_set z (c := c) hb

theorem occupied_replace {slots : List β} {i : ℕ} {b c : β} (hb : slots[i]? = some b)
    (hne : b ≠ z) (hne' : c ≠ z) : occupied z (slots.set i c) = occupied z slots := by
  simpa [hne, hne'] using occupied_set z (c := c) hb

end Occupied

/-! ## Totals over the slots -/

/-- The sum of a weight over all slots. -/
def total (weight : β → ℕ) (slots : List β) : ℕ := (slots.map weight).sum

@[simp] theorem total_replicate (weight : β → ℕ) (n : ℕ) (b : β) :
    total weight (List.replicate n b) = n * weight b := by
  simp [total]

theorem total_eq_zero {weight : β → ℕ} {slots : List β} :
    total weight slots = 0 ↔ ∀ b ∈ slots, weight b = 0 := by
  simp [total, List.sum_eq_zero_iff_forall_eq_nat]

/-- A write moves the total by the weights of the old and the new value. -/
theorem total_set {weight : β → ℕ} {slots : List β} {i : ℕ} {b : β} (hb : slots[i]? = some b)
    (c : β) : total weight (slots.set i c) + weight b = total weight slots + weight c := by
  induction slots generalizing i with
  | nil => cases hb
  | cons d ds ih =>
    cases i with
    | zero =>
      cases hb
      simp only [total, List.set_cons_zero, List.map_cons, List.sum_cons]
      omega
    | succ i =>
      have hi := ih (i := i) (by simpa using hb)
      simp only [total, List.set_cons_succ, List.map_cons, List.sum_cons] at hi ⊢
      omega

/-- A total of one is the weight of a single slot. -/
theorem total_eq_one {weight : β → ℕ} {slots : List β} (h : total weight slots = 1) :
    ∃ i b, slots[i]? = some b ∧ weight b = 1 ∧
      ∀ (j : ℕ) (c : β), slots[j]? = some c → weight c ≠ 0 → j = i := by
  induction slots with
  | nil => cases h
  | cons d ds ih =>
    simp only [total, List.map_cons, List.sum_cons] at h
    rcases Nat.eq_zero_or_pos (weight d) with hd | hd
    · obtain ⟨i, b, hb, hw, huniq⟩ := ih (by simpa [total, hd] using h)
      refine ⟨i + 1, b, by simpa using hb, hw, ?_⟩
      intro j c hc hne
      cases j with
      | zero =>
        cases hc
        exact absurd hd hne
      | succ j => rw [huniq j c (by simpa using hc) hne]
    · have hzero : total weight ds = 0 := by
        rw [total]
        omega
      refine ⟨0, d, rfl, by omega, ?_⟩
      intro j c hc hne
      cases j with
      | zero => rfl
      | succ j =>
        have hmem : c ∈ ds := List.mem_of_getElem? (by simpa using hc)
        exact absurd (total_eq_zero.mp hzero c hmem) hne

end Uwe5631.RingWindow
