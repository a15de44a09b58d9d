import Uwe5631.ModularInverse
import Uwe5631.Jacobian
import Mathlib

/-!
# The points of the curve

`ECC_Double` and `ECC_Add` as the code computes them, with a note of the products that are reduced
on the way, and the points that come of them.
-/
namespace Uwe5631.P256
open Jacobian

/-- What a run returns, unless one of its loops does not end, and the products that it reduces. -/
structure Traced (α : Type) where
  result : Option α
  products : List (Num (8 + 8))

instance : Monad Traced where
  pure a := ⟨some a, []⟩
  bind t f :=
    match t.result with
    | none => ⟨none, t.products⟩
    | some a => ⟨(f a).result, t.products ++ (f a).products⟩

/-- A loop that reduces nothing. -/
def Traced.ofOption {α : Type} (o : Option α) : Traced α := ⟨o, []⟩

/-- `multiprecision_mersenns_mult_mod` -/
def multMod (a b : Num 8) : Traced (Num 8) :=
  ⟨some (fastMod (multiprecisionMult a b)), [multiprecisionMult a b]⟩

/-- `multiprecision_mersenns_squa_mod` -/
def squaMod (a : Num 8) : Traced (Num 8) := multMod a a

/-- `Point` -/
structure Point where
  x : Num 8
  y : Num 8
  z : Num 8
  deriving DecidableEq

/-- `p_256_init_point` -/
def Point.init : Point := ⟨Num.init 8, Num.init 8, Num.init 8⟩

/-- `ECC_Double`; `q` is what is written to, and keeps what infinity does not overwrite. -/
def eccDouble (q p : Point) : Traced Point :=
  if multiprecisionIszero p.z then pure { q with z := Num.init 8 }
  else do
    let t1 ← squaMod p.z
    let t2 := subMod p.x t1
    let t1 := addMod p.x t1
    let t2 ← multMod t1 t2
    let t3 := lshiftMod t2
    let t2 := addMod t3 t2
    let z3 ← multMod p.y p.z
    let z3 := lshiftMod z3
    let y3 ← squaMod p.y
    let y3 := lshiftMod y3
    let t3 ← multMod y3 p.x
    let t3 := lshiftMod t3
    let y3 ← squaMod y3
    let y3 := lshiftMod y3
    let x3 ← squaMod t2
    let t1 := lshiftMod t3
    let x3 := subMod x3 t1
    let t1 := subMod t3 x3
    let t1 ← multMod t1 t2
    let y3 := subMod t1 y3
    pure ⟨x3, y3, z3⟩

/-- `ECC_Add`, whose `q` has the denominator one or is infinity. -/
def eccAdd (r p q : Point) : Traced Point :=
  if multiprecisionIszero q.z then pure p
  else if multiprecisionIszero p.z then pure q
  else do
    let t1 ← squaMod p.z
    let t2 ← multMod p.z t1
    let t1 ← multMod q.x t1
    let t2 ← multMod q.y t2
    let t1 := subMod t1 p.x
    let t2 := subMod t2 p.y
    if multiprecisionIszero t1 then
      if multiprecisionIszero t2 then eccDouble r q
      else pure { r with z := Num.init 8 }
    else do
      let z3 ← multMod p.z t1
      let y3 ← squaMod t1
      let z1 ← multMod y3 t1
      let y3 ← multMod y3 p.x
      let t1 := lshiftMod y3
      let x3 ← squaMod t2
      let x3 := subMod x3 t1
      let x3 := subMod x3 z1
      let y3 := subMod y3 x3
      let y3 ← multMod y3 t2
      let z1 ← multMod z1 p.y
      let y3 := subMod y3 z1
      pure ⟨x3, y3, z3⟩

/-! ## Traced results -/

variable {α β : Type} {t : Traced α} {f : α → Traced β} {p : α → Prop} {q : β → Prop}

/-- If the reductions of its products are regular, `t` ends with a result that has `p`. -/
def Traced.Gives (t : Traced α) (p : α → Prop) : Prop :=
  (∀ a ∈ t.products, Regular a) → ∃ a, t.result = some a ∧ p a

theorem Traced.gives_pure {a : α} (h : p a) : (pure a : Traced α).Gives p := fun _ => ⟨a, rfl, h⟩

theorem Traced.gives_ofOption {o : Option α} (h : ∃ a, o = some a ∧ p a) :
    (Traced.ofOption o).Gives p := fun _ => h

theorem Traced.pure_bind (a : α) (f : α → Traced β) : pure a >>= f = f a := rfl

theorem Traced.ofOption_bind (a : α) (f : α → Traced β) : Traced.ofOption (some a) >>= f = f a := rfl

theorem Traced.Gives.bind (h : t.Gives p) (hf : ∀ a, p a → (f a).Gives q) : (t >>= f).Gives q := by
  obtain ⟨result, products⟩ := t
  intro hproducts
  cases result with
  | none =>
    obtain ⟨a, hnone, -⟩ := h hproducts
    cases hnone
  | some a =>
    obtain ⟨_, ⟨⟩, ha⟩ := h fun c hc => hproducts c (List.mem_append_left _ hc)
    exact hf a ha fun c hc => hproducts c (List.mem_append_right _ hc)

variable {a c : Num 8} {x y : ZMod prime}

theorem Denotes.multMod (ha : Denotes a x) (hc : Denotes c y) :
    (multMod a c).Gives fun d => Denotes d (x * y) := by
  intro hproducts
  have hval := fastMod_eq (hproducts _ (List.mem_singleton_self _))
  refine ⟨_, rfl, fastMod_lt _, ?_⟩
  rw [hval, ZMod.natCast_mod, mult_val, Nat.cast_mul, ha.2, hc.2]

theorem Denotes.squaMod (ha : Denotes a x) : (squaMod a).Gives fun c => Denotes c (x * x) :=
  ha.multMod ha

theorem Denotes.iszero (ha : Denotes a x) : multiprecisionIszero a = true ↔ x = 0 := by
  rw [iszero_iff, ← ha.2]
  constructor
  · intro h
    rw [h, Nat.cast_zero]
  · intro h
    rw [ZMod.natCast_eq_zero_iff] at h
    exact Nat.eq_zero_of_dvd_of_lt h ha.1

/-! ## Points -/

/-- What the abscissa and the ordinate of a point are when its denominator is overwritten. -/
def Point.Residues (p : Point) : Prop := p.x.val < prime ∧ p.y.val < prime

variable {b : ZMod prime} {P Q : (curve b).Point}

/-- The coordinates are residues, and stand for a point. -/
def Point.Is (p : Point) (P : (curve b).Point) : Prop :=
  ∃ x y z, Denotes p.x x ∧ Denotes p.y y ∧ Denotes p.z z ∧ Represents x y z P

/-- The same with the denominator one. -/
def Point.IsAffine (p : Point) (P : (curve b).Point) : Prop :=
  ∃ x y, Denotes p.x x ∧ Denotes p.y y ∧ Denotes p.z 1 ∧ Represents x y 1 P

variable {p q r : Point}

theorem Point.IsAffine.is (h : p.IsAffine P) : p.Is P := by
  obtain ⟨x, y, hx, hy, hz, hP⟩ := h
  exact ⟨x, y, 1, hx, hy, hz, hP⟩

theorem Point.Is.residues (h : p.Is P) : p.Residues := by
  obtain ⟨x, y, z, hx, hy, -, -⟩ := h
  exact ⟨hx.1, hy.1⟩

theorem Point.Residues.is_zero (h : r.Residues) :
    ({ r with z := Num.init 8 } : Point).Is (0 : (curve b).Point) :=
  ⟨r.x.val, r.y.val, 0, ⟨h.1, rfl⟩, ⟨h.2, rfl⟩, denotes_init, .infinity rfl⟩

theorem eccDouble_gives (hq : q.Residues) (hp : p.Is P) :
    (eccDouble q p).Gives fun r => r.Is (P + P) := by
  obtain ⟨x, y, z, hx, hy, hz, hP⟩ := hp
  rw [eccDouble]
  split
  next hzero =>
    rw [hz.iszero] at hzero
    subst hzero
    rw [hP.eq_zero, add_zero]
    exact Traced.gives_pure hq.is_zero
  next hzero =>
    refine hz.squaMod.bind fun t1 ht1 => ?_
    have ht2 := hx.subMod ht1
    refine ((hx.addMod ht1).multMod ht2).bind fun t2 ht2 => ?_
    have ha := ht2.lshiftMod.addMod ht2
    refine (hy.multMod hz).bind fun z3 hz3 => ?_
    refine hy.squaMod.bind fun y3 hy3 => ?_
    refine (hy3.lshiftMod.multMod hx).bind fun t3 ht3 => ?_
    refine hy3.lshiftMod.squaMod.bind fun y3 hy3 => ?_
    refine ha.squaMod.bind fun x3 hx3 => ?_
    have hx3 := hx3.subMod ht3.lshiftMod.lshiftMod
    refine ((ht3.lshiftMod.subMod hx3).multMod ha).bind fun t1 ht1 => ?_
    refine Traced.gives_pure ⟨_, _, _, hx3, ht1.subMod hy3.lshiftMod, hz3.lshiftMod, ?_⟩
    exact hP.double two_ne_zero (a := 2 * ((x + z * z) * (x - z * z)) +
      (x + z * z) * (x - z * z)) (by ring) (by ring) (by ring)

theorem eccAdd_gives (hr : r.Residues) (hp : p.Is P) (hq : q.IsAffine Q) :
    (eccAdd r p q).Gives fun r => r.Is (P + Q) := by
  have hq' := hq.is
  obtain ⟨x, y, z, hx, hy, hz, hP⟩ := hp
  obtain ⟨X, Y, hX, hY, hone, hQ⟩ := hq
  rw [eccAdd, if_neg fun hzero => one_ne_zero (hone.iszero.mp hzero)]
  split
  next hzero =>
    rw [hz.iszero] at hzero
    subst hzero
    rw [hP.eq_zero, zero_add]
    exact Traced.gives_pure hq'
  next hzero =>
    rw [hz.iszero] at hzero
    refine hz.squaMod.bind fun t1 ht1 => ?_
    refine (hz.multMod ht1).bind fun t2 ht2 => ?_
    refine (hX.multMod ht1).bind fun t1 ht1 => ?_
    refine (hY.multMod ht2).bind fun t2 ht2 => ?_
    have hu := ht1.subMod hx
    have hv := ht2.subMod hy
    dsimp only
    by_cases hu0 : X * (z * z) - x = 0
    · -- the abscissas are the same: the points are, or their sum is infinity
      have hsame := hP.add_same hzero hQ (by rw [sq, hu0])
      rw [if_pos (hu.iszero.mpr hu0)]
      by_cases hv0 : Y * (z * (z * z)) - y = 0
      · rw [if_pos (hv.iszero.mpr hv0), hsame.1 (by rw [pow_succ', sq, hv0])]
        exact eccDouble_gives hr hq'
      · rw [if_neg (mt hv.iszero.mp hv0), hsame.2 (by rwa [pow_succ', sq])]
        exact Traced.gives_pure hr.is_zero
    · rw [if_neg (mt hu.iszero.mp hu0)]
      refine (hz.multMod hu).bind fun z3 hz3 => ?_
      refine hu.squaMod.bind fun y3 hy3 => ?_
      refine (hy3.multMod hu).bind fun z1 hz1 => ?_
      refine (hy3.multMod hx).bind fun y3 hy3 => ?_
      refine hv.squaMod.bind fun x3 hx3 => ?_
      have hx3 := (hx3.subMod hy3.lshiftMod).subMod hz1
      refine ((hy3.subMod hx3).multMod hv).bind fun y3 hy3 => ?_
      refine (hz1.multMod hy).bind fun z1 hz1 => ?_
      refine Traced.gives_pure ⟨_, _, _, hx3, hy3.subMod hz1, hz3, ?_⟩
      exact hP.add hzero hQ (by ring) (v := Y * (z * (z * z)) - y) (by ring) hu0 (by ring) (by ring)

end Uwe5631.P256
