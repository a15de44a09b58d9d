import Mathlib.Data.BitVec
import Mathlib.Algebra.BigOperators.Group.Finset.Basic
import Mathlib.Algebra.BigOperators.Ring.Finset
import Mathlib.Tactic.Ring

/-!
# Numbers as lists of words

The words of a number, the lowest first, are its digits to the base `2 ^ w`.
-/
namespace Uwe5631.Limbs

variable {w : ℕ}

/-- The number with these digits. -/
def value : List (BitVec w) → ℕ
  | [] => 0
  | x :: xs => x.toNat + 2 ^ w * value xs

@[simp] theorem value_nil : value ([] : List (BitVec w)) = 0 := rfl

@[simp] theorem value_cons (x : BitVec w) (xs : List (BitVec w)) :
    value (x :: xs) = x.toNat + 2 ^ w * value xs := rfl

theorem value_append (xs ys : List (BitVec w)) :
    value (xs ++ ys) = value xs + 2 ^ (w * xs.length) * value ys := by
  induction xs with
  | nil => simp
  | cons x xs ih =>
    rw [List.cons_append, value_cons, ih, value_cons, List.length_cons, Nat.mul_succ, pow_add]
    ring

theorem value_lt (xs : List (BitVec w)) : value xs < 2 ^ (w * xs.length) := by
  induction xs with
  | nil => simp
  | cons x xs ih =>
    have hx := x.isLt
    calc value (x :: xs) < 2 ^ w + 2 ^ w * value xs := Nat.add_lt_add_right hx _
      _ = 2 ^ w * (value xs + 1) := by ring
      _ ≤ 2 ^ w * 2 ^ (w * xs.length) := Nat.mul_le_mul_left _ ih
      _ = 2 ^ (w * (x :: xs).length) := by rw [← pow_add, List.length_cons]; ring_nf

theorem value_injective {xs ys : List (BitVec w)} (hlength : xs.length = ys.length)
    (h : value xs = value ys) : xs = ys := by
  induction xs generalizing ys with
  | nil => exact (List.length_eq_zero_iff.mp hlength.symm).symm
  | cons x xs ih =>
    cases ys with
    | nil => cases hlength
    | cons y ys =>
      rw [value_cons, value_cons] at h
      have hx : x.toNat = y.toNat := by
        have hmod := congrArg (· % 2 ^ w) h
        simpa [Nat.add_mul_mod_self_left, Nat.mod_eq_of_lt x.isLt, Nat.mod_eq_of_lt y.isLt]
          using hmod
      have hxs : value xs = value ys := by
        rw [hx] at h
        exact Nat.eq_of_mul_eq_mul_left (Nat.two_pow_pos w) (Nat.add_left_cancel h)
      rw [BitVec.eq_of_toNat_eq hx, ih (Nat.succ.inj hlength) hxs]

@[simp] theorem value_replicate_zero (n : ℕ) : value (List.replicate n (0 : BitVec w)) = 0 := by
  induction n with
  | zero => rfl
  | succ n ih =>
    rw [List.replicate_succ, value_cons, ih, Nat.mul_zero, Nat.add_zero]
    exact BitVec.toNat_zero

theorem value_eq_zero {xs : List (BitVec w)} : value xs = 0 ↔ ∀ x ∈ xs, x = 0 := by
  induction xs with
  | nil => simp
  | cons x xs ih =>
    have hx : x.toNat = 0 ↔ x = 0 := (BitVec.toNat_eq (x := x) (y := 0)).symm
    simp [ih, hx]

theorem value_eq_sum (xs : List (BitVec w)) :
    value xs = ∑ i ∈ Finset.range xs.length, 2 ^ (w * i) * (xs.getD i 0).toNat := by
  induction xs with
  | nil => rfl
  | cons x xs ih =>
    rw [value_cons, ih, List.length_cons, Finset.sum_range_succ', Nat.add_comm, Finset.mul_sum]
    congr 1
    · refine Finset.sum_congr rfl fun i _ => ?_
      rw [List.getD_cons_succ, Nat.mul_succ, pow_add]
      ring
    · simp

/-- The lowest word decides whether a number is even. -/
theorem value_mod_two {x : BitVec w} {xs : List (BitVec w)} (hw : 0 < w) :
    value (x :: xs) % 2 = x.toNat % 2 := by
  obtain ⟨k, rfl⟩ : ∃ k, w = k + 1 := ⟨w - 1, by omega⟩
  rw [value_cons, pow_succ, show 2 ^ k * 2 * value xs = 2 * (2 ^ k * value xs) by ring,
    Nat.add_mul_mod_self_left]

/-- What a word counts for. -/
theorem value_set (xs : List (BitVec w)) {i : ℕ} (hi : i < xs.length) (x : BitVec w) :
    value (xs.set i x) + 2 ^ (w * i) * (xs.getD i 0).toNat = value xs + 2 ^ (w * i) * x.toNat := by
  induction xs generalizing i with
  | nil => cases hi
  | cons y ys ih =>
    cases i with
    | zero =>
      rw [List.set_cons_zero, value_cons, value_cons, List.getD_cons_zero]
      ring
    | succ i =>
      have h := ih (Nat.lt_of_succ_lt_succ hi)
      rw [List.set_cons_succ, value_cons, value_cons, List.getD_cons_succ, Nat.mul_succ, pow_add]
      calc y.toNat + 2 ^ w * value (ys.set i x) + 2 ^ (w * i) * 2 ^ w * (ys.getD i 0).toNat
          = y.toNat + 2 ^ w * (value (ys.set i x) + 2 ^ (w * i) * (ys.getD i 0).toNat) := by ring
        _ = y.toNat + 2 ^ w * value ys + 2 ^ (w * i) * 2 ^ w * x.toNat := by rw [h]; ring

end Uwe5631.Limbs
