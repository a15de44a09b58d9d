import Uwe5631.CurvePrime
import Uwe5631.WhileLoops
import Mathlib

/-!
# Arithmetic modulo the prime

Sums, differences, doubles and the inverse of residues, and what they are in the field of the
prime's residues.
-/
namespace Uwe5631.P256
open Limbs WhileLoops

/-- `multiprecision_add_mod` -/
def addMod (a b : Num 8) : Num 8 :=
  let c := multiprecisionAdd a b
  if c.2 ≠ 0 then (multiprecisionSub c.1 modp).1
  else if multiprecisionCompare c.1 modp ≥ 0 then (multiprecisionSub c.1 modp).1
  else c.1

/-- `multiprecision_sub_mod` -/
def subMod (a b : Num 8) : Num 8 :=
  let c := multiprecisionSub a b
  if c.2 ≠ 0 then (multiprecisionAdd c.1 modp).1 else c.1

/-- `multiprecision_lshift_mod` -/
def lshiftMod (a : Num 8) : Num 8 :=
  let c := multiprecisionLshift a
  if c.2 ≠ 0 then (multiprecisionSub c.1 modp).1
  else if multiprecisionCompare c.1 modp ≥ 0 then (multiprecisionSub c.1 modp).1
  else c.1

/-- `a` is the residue that stands for `x`. -/
def Denotes (a : Num 8) (x : ZMod prime) : Prop := a.val < prime ∧ (a.val : ZMod prime) = x

theorem denotes_of_add {a : Num 8} {m k : ℕ} (hlt : a.val < prime) (h : a.val + k * prime = m) :
    Denotes a m := by
  refine ⟨hlt, ?_⟩
  rw [← h, Nat.cast_add, Nat.cast_mul, ZMod.natCast_self, mul_zero, add_zero]

theorem carry_ne_zero {carry : Word} (h : carry.toNat ≤ 1) : carry ≠ 0 ↔ carry.toNat = 1 := by
  rw [Ne, BitVec.toNat_eq, show (0 : Word).toNat = 0 from rfl]
  omega

/-- A number below twice the prime, less the prime when it or its carry says so. -/
theorem denotes_reduced {c : Num 8} {carry : Word} {m : ℕ} (hcarry : carry.toNat ≤ 1)
    (h : c.val + 2 ^ (32 * 8) * carry.toNat = m) (hm : m < 2 * prime) :
    Denotes (if carry ≠ 0 then (multiprecisionSub c modp).1
      else if multiprecisionCompare c modp ≥ 0 then (multiprecisionSub c modp).1 else c) m := by
  have hprime := prime_bounds
  have hc := c.val_lt
  obtain ⟨hsub, hborrow⟩ := sub_spec c modp
  have hlt := (multiprecisionSub c modp).1.val_lt
  rw [val_modp] at hsub
  split
  next hone =>
    rw [carry_ne_zero hcarry] at hone
    exact denotes_of_add (k := 1) (by omega) (by omega)
  next hnone =>
    rw [carry_ne_zero hcarry] at hnone
    split
    next hle =>
      rw [compare_nonneg_iff, val_modp] at hle
      exact denotes_of_add (k := 1) (by omega) (by omega)
    next hlow =>
      rw [compare_nonneg_iff, val_modp] at hlow
      exact denotes_of_add (k := 0) (by omega) (by rw [Nat.zero_mul]; omega)

variable {a b : Num 8} {x y : ZMod prime}

theorem Denotes.addMod (ha : Denotes a x) (hb : Denotes b y) : Denotes (addMod a b) (x + y) := by
  obtain ⟨hsum, hcarry⟩ := add_spec a b
  have h := denotes_reduced hcarry hsum (by linarith only [ha.1, hb.1])
  rwa [Nat.cast_add, ha.2, hb.2] at h

theorem Denotes.lshiftMod (ha : Denotes a x) : Denotes (lshiftMod a) (2 * x) := by
  obtain ⟨hsum, hcarry⟩ := lshift_spec a
  have h := denotes_reduced hcarry hsum (by linarith only [ha.1])
  rwa [Nat.cast_mul, ha.2] at h

theorem Denotes.subMod (ha : Denotes a x) (hb : Denotes b y) : Denotes (subMod a b) (x - y) := by
  have hprime := prime_bounds
  have halt := ha.1
  have hblt := hb.1
  obtain ⟨hsub, hborrow⟩ := sub_spec a b
  have hclt := (multiprecisionSub a b).1.val_lt
  obtain ⟨hadd, hcarry⟩ := add_spec (multiprecisionSub a b).1 modp
  have hlt := (multiprecisionAdd (multiprecisionSub a b).1 modp).1.val_lt
  rw [val_modp] at hadd
  have hcast : ∀ {c : Num 8} {k : ℕ}, c.val < prime → c.val + b.val = a.val + k * prime →
      Denotes c (x - y) := by
    intro c k hc h
    refine ⟨hc, eq_sub_of_add_eq ?_⟩
    rw [← hb.2, ← Nat.cast_add, h, Nat.cast_add, Nat.cast_mul, ZMod.natCast_self, mul_zero,
      add_zero, ha.2]
  rw [P256.subMod]
  split
  next hone =>
    rw [carry_ne_zero hborrow] at hone
    exact hcast (k := 1) (by omega) (by omega)
  next hnone =>
    rw [carry_ne_zero hborrow] at hnone
    exact hcast (k := 0) (by omega) (by rw [Nat.zero_mul]; omega)

/-! ## The inverse -/

/-- `u[0] & 0x01` -/
def Num.isOdd (a : Num 8) : Bool := a.word 0 &&& 1 ≠ 0

/-- Half of `A`, or of `A + p`: the carry of the sum goes to the highest bit. -/
def halveMod (A : Num 8) : Num 8 :=
  if A.isOdd = false then multiprecisionRshift A
  else
    let s := multiprecisionAdd A modp
    let h := multiprecisionRshift s.1
    ⟨h.words.set 7 (h.word 7 ||| s.2 <<< 31), List.length_set.trans h.length_words⟩

/-- The numbers that `multiprecision_inv_mod` works on. -/
structure Euclid where
  u : Num 8
  v : Num 8
  A : Num 8
  C : Num 8

def Euclid.halveU (s : Euclid) : Euclid :=
  { s with u := multiprecisionRshift s.u, A := halveMod s.A }

def Euclid.halveV (s : Euclid) : Euclid :=
  { s with v := multiprecisionRshift s.v, C := halveMod s.C }

def Euclid.subtract (s : Euclid) : Euclid :=
  if multiprecisionCompare s.u s.v ≥ 0 then
    { s with u := (multiprecisionSub s.u s.v).1, A := subMod s.A s.C }
  else { s with v := (multiprecisionSub s.v s.u).1, C := subMod s.C s.A }

/-- More rounds than the loops can take. -/
def fuel : ℕ := 2 ^ 257

/-- A round of the outer loop, with the two loops in it. -/
def Euclid.round (s : Euclid) : Option Euclid :=
  (whileLoop (fun s => !s.u.isOdd) (fun s => some s.halveU) fuel s).bind fun s =>
    (whileLoop (fun s => !s.v.isOdd) (fun s => some s.halveV) fuel s).map Euclid.subtract

def Num.one : Num 8 := ⟨[1, 0, 0, 0, 0, 0, 0, 0], rfl⟩

/-- `multiprecision_inv_mod` -/
def multiprecisionInvMod (u : Num 8) : Option (Num 8) :=
  (whileLoop (fun s => !multiprecisionIszero s.u) Euclid.round fuel
    ⟨u, modp, Num.one, Num.init 8⟩).map fun s =>
      if multiprecisionCompare s.C modp ≥ 0 then (multiprecisionSub s.C modp).1 else s.C

theorem isOdd_iff (a : Num 8) : a.isOdd = true ↔ a.val % 2 = 1 := by
  obtain ⟨words, hlength⟩ := a
  match words with
  | [] => cases hlength
  | w :: ws =>
    rw [Num.isOdd, Num.word, Num.val, value_mod_two (by decide), List.getD_cons_zero,
      decide_eq_true_iff, Ne, BitVec.toNat_eq, BitVec.toNat_and, show (1 : Word).toNat = 1 from rfl,
      Nat.and_one_is_mod, show (0 : Word).toNat = 0 from rfl]
    omega

theorem isOdd_eq_false_iff (a : Num 8) : a.isOdd = false ↔ 2 ∣ a.val := by
  rw [← Bool.not_eq_true, isOdd_iff]
  omega

/-- The top word of a half has room for the carry. -/
theorem carry_word {w carry : Word} (hw : w.toNat < 2 ^ 31) (hcarry : carry.toNat ≤ 1) :
    (w ||| carry <<< 31).toNat = w.toNat + 2 ^ 31 * carry.toNat := by
  rw [BitVec.toNat_or, BitVec.toNat_shiftLeft,
    Nat.mod_eq_of_lt (by rw [Nat.shiftLeft_eq]; omega), Nat.or_comm,
    ← Nat.shiftLeft_add_eq_or_of_lt hw, Nat.shiftLeft_eq]
  omega

theorem value_set_top (a : Num 8) (x : Word) :
    value (a.words.set 7 x) + 2 ^ 224 * (a.word 7).toNat = a.val + 2 ^ 224 * x.toNat :=
  value_set a.words (by rw [a.length_words]; decide) x

theorem word_le_val (a : Num 8) : 2 ^ 224 * (a.word 7).toNat ≤ a.val := by
  have h := value_set_top a 0
  rw [show (0 : Word).toNat = 0 from rfl, Nat.mul_zero, Nat.add_zero] at h
  exact (Nat.le_add_left _ _).trans h.le

theorem halveMod_val (A : Num 8) :
    2 * (halveMod A).val = if A.isOdd = false then A.val else A.val + prime := by
  rw [halveMod]
  split
  next heven =>
    rw [isOdd_eq_false_iff] at heven
    rw [rshift_val]
    omega
  next hodd =>
    rw [Bool.not_eq_false, isOdd_iff] at hodd
    obtain ⟨hsum, hcarry⟩ := add_spec A modp
    have hprime : prime % 2 = 1 := by decide
    have hhalf := rshift_val (multiprecisionAdd A modp).1
    have htop := word_le_val (multiprecisionRshift (multiprecisionAdd A modp).1)
    have hlt := (multiprecisionAdd A modp).1.val_lt
    have hset := value_set_top (multiprecisionRshift (multiprecisionAdd A modp).1)
      ((multiprecisionRshift (multiprecisionAdd A modp).1).word 7 |||
        (multiprecisionAdd A modp).2 <<< 31)
    rw [carry_word (by omega) hcarry] at hset
    rw [val_modp] at hsum
    rw [Num.val]
    dsimp only
    omega

theorem two_ne_zero : (2 : ZMod prime) ≠ 0 := by decide

theorem Denotes.halveMod {A : Num 8} {x : ZMod prime} (h : Denotes A x) :
    Denotes (halveMod A) (x / 2) := by
  have hval := halveMod_val A
  have hlt := h.1
  refine ⟨by split at hval <;> omega, ?_⟩
  have hcast := congrArg (Nat.cast (R := ZMod prime)) hval
  rw [Nat.cast_mul, Nat.cast_ofNat] at hcast
  rw [eq_div_iff two_ne_zero, mul_comm, hcast]
  split
  · exact h.2
  · rw [Nat.cast_add, ZMod.natCast_self, add_zero, h.2]

/-- What every round keeps, for the inverse of `x`. -/
structure Euclid.Inv (x : ZMod prime) (s : Euclid) : Prop where
  A : Denotes s.A (s.u.val / x)
  C : Denotes s.C (s.v.val / x)
  coprime : s.u.val.Coprime s.v.val
  pos : 0 < s.v.val

variable {s : Euclid}

theorem Euclid.halveU_u : s.halveU.u = multiprecisionRshift s.u := rfl

theorem Euclid.halveV_v : s.halveV.v = multiprecisionRshift s.v := rfl

theorem cast_half {m : ℕ} (h : 2 ∣ m) : ((m / 2 : ℕ) : ZMod prime) = m / 2 :=
  Nat.cast_div h two_ne_zero

theorem Euclid.Inv.halveU (h : s.Inv x) (heven : s.u.isOdd = false) : s.halveU.Inv x := by
  rw [isOdd_eq_false_iff] at heven
  have hA := h.A.halveMod
  rw [div_right_comm, ← cast_half heven, ← rshift_val] at hA
  refine ⟨hA, h.C, ?_, h.pos⟩
  rw [Euclid.halveU, rshift_val]
  exact h.coprime.coprime_dvd_left (Nat.div_dvd_of_dvd heven)

theorem Euclid.Inv.halveV (h : s.Inv x) (heven : s.v.isOdd = false) : s.halveV.Inv x := by
  rw [isOdd_eq_false_iff] at heven
  have hC := h.C.halveMod
  have hpos := h.pos
  rw [div_right_comm, ← cast_half heven, ← rshift_val] at hC
  refine ⟨h.A, hC, ?_, ?_⟩
  · rw [Euclid.halveV, rshift_val]
    exact h.coprime.coprime_dvd_right (Nat.div_dvd_of_dvd heven)
  · rw [Euclid.halveV, rshift_val]
    omega

theorem sub_val {a b : Num n} (h : b.val ≤ a.val) :
    (multiprecisionSub a b).1.val = a.val - b.val := by
  obtain ⟨hsub, hborrow⟩ := sub_spec a b
  have hlt := (multiprecisionSub a b).1.val_lt
  have ha := a.val_lt
  rcases Nat.le_one_iff_eq_zero_or_eq_one.mp hborrow with hb | hb
  · rw [hb] at hsub
    omega
  · rw [hb] at hsub
    omega

/-- A difference makes the larger one smaller: `u` when it is not below `v`. -/
theorem Euclid.Inv.subtract (h : s.Inv x) (hu : 0 < s.u.val) : s.subtract.Inv x ∧
    s.subtract.u.val + s.subtract.v.val < s.u.val + s.v.val := by
  have hpos := h.pos
  rw [Euclid.subtract]
  split
  next hle =>
    rw [compare_nonneg_iff] at hle
    have hval := sub_val hle
    have hA := h.A.subMod h.C
    rw [← sub_div, ← Nat.cast_sub hle, ← hval] at hA
    refine ⟨⟨hA, h.C, ?_, hpos⟩, ?_⟩
    · rw [hval]
      exact (Nat.coprime_sub_self_left hle).mpr h.coprime
    · dsimp only
      omega
  next hlt =>
    rw [compare_nonneg_iff, not_le] at hlt
    have hval := sub_val hlt.le
    have hC := h.C.subMod h.A
    rw [← sub_div, ← Nat.cast_sub hlt.le, ← hval] at hC
    refine ⟨⟨h.A, hC, ?_, ?_⟩, ?_⟩
    · rw [hval]
      exact (Nat.coprime_sub_self_right hlt.le).mpr h.coprime
    · dsimp only
      omega
    · dsimp only
      omega

theorem val_le_fuel (a b : Num 8) : a.val + b.val < fuel := by
  have ha := a.val_lt
  have hb := b.val_lt
  rw [fuel]
  omega

/-- The two inner loops end with odd numbers. -/
theorem Euclid.Inv.halvings (h : s.Inv x) (hu : 0 < s.u.val) :
    ∃ t, (whileLoop (fun s => !s.u.isOdd) (fun s => some s.halveU) fuel s).bind (fun s =>
        whileLoop (fun s => !s.v.isOdd) (fun s => some s.halveV) fuel s) = some t ∧
      t.Inv x ∧ 0 < t.u.val ∧ t.u.val + t.v.val ≤ s.u.val + s.v.val := by
  have hfuel := val_le_fuel s.u s.v
  obtain ⟨r, hr, ⟨hrInv, hrpos, hrv⟩, -, hrle⟩ := whileLoop_spec
    (fun s => !s.u.isOdd) (fun s => some s.halveU)
    (fun r : Euclid => r.Inv x ∧ 0 < r.u.val ∧ r.v = s.v) (fun r => r.u.val)
    (fun r ⟨hr, hpos, hv⟩ heven => by
      rw [Bool.not_eq_true', isOdd_eq_false_iff] at heven
      have hval := rshift_val r.u
      exact ⟨_, rfl, ⟨hr.halveU ((isOdd_eq_false_iff _).mpr heven), by
        rw [Euclid.halveU_u]; omega, hv⟩, by rw [Euclid.halveU_u]; omega⟩)
    ⟨h, hu, rfl⟩ ((Nat.le_add_right _ _).trans_lt hfuel)
  obtain ⟨t, ht, ⟨htInv, htu⟩, -, htle⟩ := whileLoop_spec
    (fun s => !s.v.isOdd) (fun s => some s.halveV)
    (fun t : Euclid => t.Inv x ∧ t.u = r.u) (fun t => t.v.val)
    (fun t ⟨ht, hu⟩ heven => by
      rw [Bool.not_eq_true', isOdd_eq_false_iff] at heven
      have hval := rshift_val t.v
      have hpos := ht.pos
      exact ⟨_, rfl, ⟨ht.halveV ((isOdd_eq_false_iff _).mpr heven), hu⟩, by
        rw [Euclid.halveV_v]; omega⟩)
    ⟨hrInv, rfl⟩ (by rw [hrv]; exact (Nat.le_add_left _ _).trans_lt hfuel)
  refine ⟨t, by rw [hr, Option.bind_some, ht], htInv, by rw [htu]; exact hrpos, ?_⟩
  rw [htu]
  rw [hrv] at htle
  omega

theorem Euclid.Inv.round (h : s.Inv x) (hu : 0 < s.u.val) :
    ∃ t, s.round = some t ∧ t.Inv x ∧ t.u.val + t.v.val < s.u.val + s.v.val := by
  obtain ⟨r, hr, hrInv, hrpos, hle⟩ := h.halvings hu
  obtain ⟨ht, hlt⟩ := hrInv.subtract hrpos
  refine ⟨r.subtract, ?_, ht, by omega⟩
  rw [Option.bind_eq_some_iff] at hr
  obtain ⟨m, hm, hr⟩ := hr
  rw [Euclid.round, hm, Option.bind_some, hr, Option.map_some]

theorem val_one : Num.one.val = 1 := by decide

theorem denotes_init : Denotes (Num.init 8) 0 := by
  refine ⟨?_, ?_⟩
  · rw [Num.val_init]
    decide
  · rw [Num.val_init, Nat.cast_zero]

theorem denotes_one : Denotes Num.one 1 := by
  refine ⟨?_, ?_⟩
  · rw [val_one]
    decide
  · rw [val_one, Nat.cast_one]

/-- A residue is returned as it is. -/
theorem reduce_residue {C : Num 8} (h : Denotes C x) :
    (if multiprecisionCompare C modp ≥ 0 then (multiprecisionSub C modp).1 else C) = C := by
  refine if_neg ?_
  rw [compare_nonneg_iff, val_modp]
  exact not_le.mpr h.1

theorem iszero_eq_false_iff {a : Num n} : multiprecisionIszero a = false ↔ 0 < a.val := by
  rw [← Bool.not_eq_true, iszero_iff, Nat.pos_iff_ne_zero]

/-- The loop ends, and what it returns is the inverse; that of zero is zero. -/
theorem invMod_spec {u : Num 8} (hu : Denotes u x) :
    ∃ a, multiprecisionInvMod u = some a ∧ Denotes a x⁻¹ := by
  obtain hzero | hpos := Nat.eq_zero_or_pos u.val
  · obtain rfl : x = 0 := by rw [← hu.2, hzero, Nat.cast_zero]
    obtain ⟨t, ht, rfl, -, -⟩ := whileLoop_spec (fun s => !multiprecisionIszero s.u)
      Euclid.round (· = (⟨u, modp, Num.one, Num.init 8⟩ : Euclid)) (fun _ => 0)
      (fun s hs hcond => by
        rw [hs, Bool.not_eq_true', iszero_eq_false_iff, hzero] at hcond
        exact absurd hcond (lt_irrefl 0)) rfl (show 0 < fuel from Nat.two_pow_pos 257)
    refine ⟨Num.init 8, ?_, by rw [inv_zero]; exact denotes_init⟩
    rw [multiprecisionInvMod, ht, Option.map_some, reduce_residue denotes_init]
  · have hx : x ≠ 0 := by
      rw [← hu.2, Ne, ZMod.natCast_eq_zero_iff]
      exact Nat.not_dvd_of_pos_of_lt hpos hu.1
    have hstart : Euclid.Inv x ⟨u, modp, Num.one, Num.init 8⟩ := by
      refine ⟨?_, ?_, ?_, ?_⟩
      · rw [hu.2, div_self hx]
        exact denotes_one
      · rw [val_modp, ZMod.natCast_self, zero_div]
        exact denotes_init
      · rw [val_modp]
        exact (Nat.coprime_of_lt_prime hpos.ne' hu.1 prime_prime).symm
      · rw [val_modp]
        decide
    obtain ⟨t, ht, hInv, hdone, -⟩ := whileLoop_spec (fun s => !multiprecisionIszero s.u)
      Euclid.round (Euclid.Inv x) (fun s => s.u.val + s.v.val) (fun s hs hcond => by
        rw [Bool.not_eq_true', iszero_eq_false_iff] at hcond
        exact hs.round hcond) hstart (val_le_fuel _ _)
    rw [Bool.not_eq_false', iszero_iff] at hdone
    have hv : t.v.val = 1 := by
      have hcoprime := hInv.coprime
      rwa [hdone, Nat.coprime_zero_left] at hcoprime
    have hC := hInv.C
    rw [hv, Nat.cast_one, one_div] at hC
    refine ⟨t.C, ?_, hC⟩
    rw [multiprecisionInvMod, ht, Option.map_some, reduce_residue hC]

/-- The inverse in plain numbers. -/
theorem invMod_isInverse {u : Num 8} (hlt : u.val < prime) (hpos : 0 < u.val) :
    ∃ a, multiprecisionInvMod u = some a ∧ a.val < prime ∧ a.val * u.val % prime = 1 := by
  obtain ⟨a, ha, halt, haval⟩ := invMod_spec (u := u) ⟨hlt, rfl⟩
  refine ⟨a, ha, halt, ?_⟩
  have hne : (u.val : ZMod prime) ≠ 0 := by
    rw [Ne, ZMod.natCast_eq_zero_iff]
    exact Nat.not_dvd_of_pos_of_lt hpos hlt
  have hone : ((a.val * u.val : ℕ) : ZMod prime) = (1 : ℕ) := by
    rw [Nat.cast_mul, haval, inv_mul_cancel₀ hne, Nat.cast_one]
  rw [ZMod.natCast_eq_natCast_iff'] at hone
  rwa [Nat.mod_eq_of_lt (show 1 < prime by decide)] at hone

theorem invMod_modp_minus_one : ∃ a, multiprecisionInvMod (multiprecisionSub modp Num.one).1 = some a ∧
    a.val < prime ∧ a.val * (multiprecisionSub modp Num.one).1.val % prime = 1 := by
  have hrange : (multiprecisionSub modp Num.one).1.val < prime ∧
      0 < (multiprecisionSub modp Num.one).1.val := by
    decide +kernel
  exact invMod_isInverse hrange.1 hrange.2

end Uwe5631.P256
