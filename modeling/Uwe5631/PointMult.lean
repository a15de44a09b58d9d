import Uwe5631.CurvePoints
import Uwe5631.Recoding
import Mathlib

/-!
# Multiples of a point

`ECC_PointMult_Bin_NAF` doubles and adds from the highest digit down, and divides by the denominator
at the end.
-/
namespace Uwe5631.P256
open Jacobian

/-- A digit of the loop, when `q` has been copied to `r`. -/
def pointRound (p minusP : Point) (sign : Word) (r : Point) : Traced Point := do
  let q ← eccDouble r r
  if sign = 1 then eccAdd q q p else if sign = 3 then eccAdd q q minusP else pure q

/-- The loop over the digits, the highest first. -/
def pointLoop (p minusP : Point) : List Word → Point → Traced Point
  | [], q => pure q
  | sign :: signs, q => do
    let q ← pointRound p minusP sign q
    pointLoop p minusP signs q

/-- `ECC_PointMult_Bin_NAF` -/
def eccPointMultBinNaf (p : Point) (n : Num 8) : Traced Point := do
  let p := { p with z := Num.one }
  let minusP : Point := ⟨p.x, (multiprecisionSub modp p.y).1, Num.one⟩
  let naf ← Traced.ofOption (eccNaf n)
  let q ← pointLoop p minusP naf.reverse Point.init
  let inverse ← Traced.ofOption (multiprecisionInvMod q.z)
  let z ← squaMod inverse
  let x ← multMod q.x z
  let z ← multMod z inverse
  let y ← multMod q.y z
  pure ⟨x, y, z⟩

variable {b : ZMod prime} {P : (curve b).Point} {p minusP q : Point}

theorem denotes_init_point : Point.init.Is (0 : (curve b).Point) :=
  ⟨0, 0, 0, denotes_init, denotes_init, denotes_init, .infinity rfl⟩

theorem pointRound_gives (hp : p.IsAffine P) (hminus : minusP.IsAffine (-P)) {m : ℤ}
    (hq : q.Is (m • P)) (sign : Word) :
    (pointRound p minusP sign q).Gives fun r => r.Is ((2 * m + signValue sign) • P) := by
  rw [add_zsmul, two_mul, add_zsmul, signValue]
  refine (eccDouble_gives hq.residues hq).bind fun r hr => ?_
  split
  · rw [one_zsmul]
    exact eccAdd_gives hr.residues hr hp
  · split
    · rw [neg_one_zsmul]
      exact eccAdd_gives hr.residues hr hminus
    · rw [zero_zsmul, add_zero]
      exact Traced.gives_pure hr

theorem pointLoop_gives (hp : p.IsAffine P) (hminus : minusP.IsAffine (-P)) (signs : List Word)
    {m : ℤ} (hq : q.Is (m • P)) : (pointLoop p minusP signs q).Gives fun r =>
      r.Is (signs.foldl (fun m sign => 2 * m + signValue sign) m • P) := by
  induction signs generalizing q m with
  | nil => exact Traced.gives_pure hq
  | cons sign signs ih => exact (pointRound_gives hp hminus hq sign).bind fun r hr => ih hr

theorem nafValue_eq_foldl (naf : List Word) :
    nafValue naf = naf.reverse.foldl (fun m sign => 2 * m + signValue sign) 0 := by
  induction naf with
  | nil => rfl
  | cons sign naf ih =>
    rw [List.reverse_cons, List.foldl_append, ← ih, List.foldl_cons, List.foldl_nil, nafValue,
      add_comm]

/-- The affine coordinates of a point; those of infinity are zero. -/
def Point.HasCoordinates (q : Point) (P : (curve b).Point) : Prop :=
  (P = 0 ∧ Denotes q.x 0 ∧ Denotes q.y 0) ∨
    ∃ x y h, P = .some x y h ∧ Denotes q.x x ∧ Denotes q.y y

theorem sub_modp_val {a : Num 8} {y : ZMod prime} (h : Denotes a y) (hne : a.val ≠ 0) :
    Denotes (multiprecisionSub modp a).1 (-y) := by
  have hlt := h.1
  have hval := sub_val (a := modp) (b := a) (by rw [val_modp]; exact hlt.le)
  rw [val_modp] at hval
  refine ⟨by omega, ?_⟩
  rw [hval, Nat.cast_sub hlt.le, ZMod.natCast_self, h.2, zero_sub]

theorem eccPointMultBinNaf_gives {x y : ZMod prime} {h : (curve b).Nonsingular x y} {n : Num 8}
    (hx : Denotes p.x x) (hy : Denotes p.y y) (hne : p.y.val ≠ 0) (hn : n.val + 1 < 2 ^ 256) :
    (eccPointMultBinNaf p n).Gives fun r => r.HasCoordinates (n.val • .some x y h) := by
  have hpoint : Represents x y 1 (.some x y h : (curve b).Point) :=
    .affine h one_ne_zero (by ring) (by ring)
  have hpos : ({ p with z := Num.one } : Point).IsAffine (.some x y h : (curve b).Point) :=
    ⟨x, y, hx, hy, denotes_one, hpoint⟩
  have hneg : (⟨p.x, (multiprecisionSub modp p.y).1, Num.one⟩ : Point).IsAffine
      (-.some x y h : (curve b).Point) :=
    ⟨x, -y, hx, sub_modp_val hy hne, denotes_one, hpoint.neg⟩
  refine (Traced.gives_ofOption (eccNaf_value hn)).bind fun naf hnaf => ?_
  have hloop := pointLoop_gives hpos hneg naf.reverse (m := 0) (q := Point.init)
    (by rw [zero_zsmul]; exact denotes_init_point)
  rw [← nafValue_eq_foldl, hnaf, natCast_zsmul] at hloop
  refine hloop.bind fun q hq => ?_
  obtain ⟨X, Y, Z, hX, hY, hZ, hQ⟩ := hq
  refine (Traced.gives_ofOption (invMod_spec hZ)).bind fun inverse hinverse => ?_
  refine hinverse.squaMod.bind fun z hz => ?_
  refine (hX.multMod hz).bind fun x' hx' => ?_
  refine (hz.multMod hinverse).bind fun z' hz' => ?_
  refine (hY.multMod hz').bind fun y' hy' => ?_
  refine Traced.gives_pure ?_
  generalize n.val • (.some x y h : (curve b).Point) = Q at hQ ⊢
  cases hQ with
  | infinity hzero =>
    refine .inl ⟨rfl, ?_, ?_⟩
    · rwa [hzero, inv_zero, mul_zero, mul_zero] at hx'
    · rwa [hzero, inv_zero, mul_zero, mul_zero] at hy'
  | @affine x₁ y₁ h₁ hne hx₁ hy₁ =>
    refine .inr ⟨x₁, y₁, h₁, rfl, ?_, ?_⟩
    · rwa [hx₁, show x₁ * Z ^ 2 * (Z⁻¹ * Z⁻¹) = x₁ by field_simp] at hx'
    · rwa [hy₁, show y₁ * Z ^ 3 * (Z⁻¹ * Z⁻¹ * Z⁻¹) = y₁ by field_simp] at hy'

end Uwe5631.P256
