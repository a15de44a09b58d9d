import Mathlib

/-!
# Points with a denominator

A point of a curve `y² = x³ - 3x + b` as three elements of the field, of which the last is the
denominator, and the formulas that double such a point and add an affine one to it.
-/
namespace Uwe5631.Jacobian
open WeierstrassCurve.Affine

variable {F : Type*} [Field F]

/-- `y² = x³ - 3x + b` -/
def curve (b : F) : WeierstrassCurve.Affine F := ⟨0, 0, 0, -3, b⟩

variable {b : F}

/-- Three elements that stand for a point. -/
inductive Represents (x y z : F) : (curve b).Point → Prop
  | infinity : z = 0 → Represents x y z 0
  | affine {X Y : F} (h : (curve b).Nonsingular X Y) :
    z ≠ 0 → x = X * z ^ 2 → y = Y * z ^ 3 → Represents x y z (.some X Y h)

theorem negY_curve (X Y : F) : (curve b).negY X Y = -Y := by
  simp [negY, curve]

theorem addX_curve (X₁ X₂ l : F) : (curve b).addX X₁ X₂ l = l ^ 2 - X₁ - X₂ := by
  simp [addX, curve]

theorem addY_curve (X₁ X₂ Y₁ l : F) :
    (curve b).addY X₁ X₂ Y₁ l = l * (2 * X₁ + X₂ - l ^ 2) - Y₁ := by
  rw [addY, negY_curve, negAddY, addX_curve]
  ring

theorem ne_neg {Y : F} (htwo : (2 : F) ≠ 0) (hY : Y ≠ 0) : Y ≠ -Y := by
  intro h
  have hzero : 2 * Y = 0 := by linear_combination h
  exact (mul_ne_zero htwo hY) hzero

variable {x y z : F} {P Q : (curve b).Point}

theorem Represents.of_eq_some {X Y : F} {h : (curve b).Nonsingular X Y} (hP : P = .some X Y h)
    (hz : z ≠ 0) (hx : x = X * z ^ 2) (hy : y = Y * z ^ 3) : Represents x y z P := by
  rw [hP]
  exact .affine h hz hx hy

theorem Represents.eq_zero (h : Represents x y 0 P) : P = 0 := by
  cases h with
  | infinity => rfl
  | affine _ hz => exact absurd rfl hz

/-- The opposite point. -/
theorem Represents.neg (h : Represents x y 1 P) : Represents x (-y) 1 (-P) := by
  cases h with
  | infinity hone => exact absurd hone one_ne_zero
  | affine h hz hx hy =>
    refine .of_eq_some (Point.neg_some h) hz hx ?_
    rw [negY_curve, hy, neg_mul]

variable [DecidableEq F]

theorem slope_self {X Y : F} (htwo : (2 : F) ≠ 0) (hY : Y ≠ 0) :
    (curve b).slope X X Y Y = 3 * (X ^ 2 - 1) / (2 * Y) := by
  rw [slope_of_Y_ne rfl (by rw [negY_curve]; exact ne_neg htwo hY), negY_curve]
  simp only [curve]
  congr 1 <;> ring

/-- Twice a point. -/
theorem Represents.double (htwo : (2 : F) ≠ 0) (h : Represents x y z P) {a : F}
    (ha : a = 3 * ((x + z ^ 2) * (x - z ^ 2))) {x' y' : F}
    (hx' : x' = a ^ 2 - 8 * (x * y ^ 2)) (hy' : y' = (4 * (x * y ^ 2) - x') * a - 8 * y ^ 4) :
    Represents x' y' (2 * (y * z)) (P + P) := by
  cases h with
  | infinity hz =>
    rw [add_zero]
    exact .infinity (by rw [hz, mul_zero, mul_zero])
  | @affine X Y h hz hx hy =>
    by_cases hY : Y = 0
    · rw [Point.add_self_of_Y_eq (by rw [negY_curve, hY, neg_zero])]
      exact .infinity (by rw [hy, hY, zero_mul, zero_mul, mul_zero])
    · have hslope := slope_self (b := b) (X := X) htwo hY
      refine .of_eq_some (Point.add_self_of_Y_ne (by rw [negY_curve]; exact ne_neg htwo hY)) ?_ ?_ ?_
      · rw [hy]
        exact mul_ne_zero htwo (mul_ne_zero (mul_ne_zero hY (pow_ne_zero 3 hz)) hz)
      · rw [addX_curve, hslope, hx', ha, hx, hy]
        field_simp
        ring
      · rw [addY_curve, hslope, hy', hx', ha, hx, hy]
        field_simp
        ring

/-- A point and an affine one whose coordinates are not its own. -/
theorem Represents.add (h : Represents x y z P) (hz : z ≠ 0) {X Y : F}
    (hQ : Represents X Y 1 Q) {u v : F} (hu : u = X * z ^ 2 - x) (hv : v = Y * z ^ 3 - y)
    (hne : u ≠ 0) {x' y' : F} (hx' : x' = v ^ 2 - 2 * (u ^ 2 * x) - u ^ 3)
    (hy' : y' = (u ^ 2 * x - x') * v - u ^ 3 * y) : Represents x' y' (z * u) (P + Q) := by
  cases h with
  | infinity hzero => exact absurd hzero hz
  | @affine X₁ Y₁ h₁ _ hx hy =>
    cases hQ with
    | infinity hone => exact absurd hone one_ne_zero
    | @affine X₂ Y₂ h₂ _ hX hY =>
      rw [one_pow, mul_one] at hX hY
      have hdiff : X₁ - X₂ ≠ 0 := by
        intro heq
        refine hne ?_
        rw [hu, hx, hX]
        linear_combination -z ^ 2 * heq
      have hslope : (curve b).slope X₁ X₂ Y₁ Y₂ = (Y₁ - Y₂) / (X₁ - X₂) :=
        slope_of_X_ne (sub_ne_zero.mp hdiff)
      refine .of_eq_some (Point.add_of_X_ne (sub_ne_zero.mp hdiff)) (mul_ne_zero hz hne) ?_ ?_
      · rw [addX_curve, hslope, hx', hu, hv, hx, hy, hX, hY]
        field_simp
        ring
      · rw [addY_curve, hslope, hy', hx', hu, hv, hx, hy, hX, hY]
        field_simp
        ring

/-- With the same abscissa the points are the same or opposite. -/
theorem Represents.add_same (h : Represents x y z P) (hz : z ≠ 0) {X Y : F}
    (hQ : Represents X Y 1 Q) (hu : X * z ^ 2 - x = 0) :
    (Y * z ^ 3 - y = 0 → P = Q) ∧ (Y * z ^ 3 - y ≠ 0 → P + Q = 0) := by
  cases h with
  | infinity hzero => exact absurd hzero hz
  | @affine X₁ Y₁ h₁ _ hx hy =>
    cases hQ with
    | infinity hone => exact absurd hone one_ne_zero
    | @affine X₂ Y₂ h₂ _ hX hY =>
      rw [one_pow, mul_one] at hX hY
      have hXeq : X₁ = X₂ := by
        have hmul : (X₁ - X₂) * z ^ 2 = 0 := by rw [hx, hX] at hu; linear_combination -hu
        exact sub_eq_zero.mp ((mul_eq_zero.mp hmul).resolve_right (pow_ne_zero 2 hz))
      constructor
      · intro hv
        have hYeq : Y₁ = Y₂ := by
          have hmul : (Y₁ - Y₂) * z ^ 3 = 0 := by rw [hy, hY] at hv; linear_combination -hv
          exact sub_eq_zero.mp ((mul_eq_zero.mp hmul).resolve_right (pow_ne_zero 3 hz))
        subst hXeq hYeq
        rfl
      · intro hv
        refine Point.add_of_Y_eq hXeq ((Y_eq_of_X_eq h₁.1 h₂.1 hXeq).resolve_left fun hYeq => hv ?_)
        rw [hy, hY, hYeq, sub_self]

end Uwe5631.Jacobian
