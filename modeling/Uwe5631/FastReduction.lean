import Uwe5631.MultiPrecision
import Mathlib

/-!
# The reduction modulo the prime

`multiprecision_fast_mod_P256` adds up the words of a product in eight columns and keeps what is
carried from one to the next in a word with a sign.
-/
namespace Uwe5631.P256
open Limbs

/-- `curve_p256.p` -/
def modp : Num 8 :=
  ⟨[0xFFFFFFFF, 0xFFFFFFFF, 0xFFFFFFFF, 0, 0, 0, 0x00000001, 0xFFFFFFFF], rfl⟩

/-- The prime of the curve. -/
abbrev prime : ℕ := 2 ^ 256 - 2 ^ 224 + 2 ^ 192 + 2 ^ 96 - 1

theorem val_modp : modp.val = prime := by decide

/-- A word, and in `k` bits what has been carried out of it. -/
structure Column (k : ℕ) where
  word : Word
  carry : BitVec k

def Column.plus {k : ℕ} (s : Column k) (x : Word) : Column k :=
  ⟨s.word + x, s.carry + (flag (s.word + x < x)).setWidth k⟩

def Column.minus {k : ℕ} (s : Column k) (x : Word) : Column k :=
  ⟨s.word - x, s.carry - (flag (s.word < x)).setWidth k⟩

/-- With a sum of words, whose carry is a byte. -/
def Column.plusSum (s : Column 32) (t : Column 8) : Column 32 :=
  ⟨s.word + t.word, s.carry + flag (s.word + t.word < t.word) + t.carry.setWidth 32⟩

def Column.minusSum (s : Column 32) (t : Column 8) : Column 32 :=
  ⟨s.word - t.word, s.carry - flag (s.word < t.word) - t.carry.setWidth 32⟩

/-- The next column begins with a word and with what is carried. A word that is too small is a carry
again, as in the source. -/
def nextWord (a U : Word) : Column 32 :=
  if U &&& 0x80000000 ≠ 0 then
    let UU := 0 - U
    ⟨a - UU, flag (a < UU)⟩
  else ⟨a + U, flag (a + U < a)⟩

section
variable (a : Num (8 + 8))

def Num.word {n : ℕ} (a : Num n) (i : ℕ) : Word := a.words.getD i 0

def sumC : Column 8 := ((Column.mk (a.word 13) 0).plus (a.word 14)).plus (a.word 15)
def sumE : Column 8 := (Column.mk (a.word 8) 0).plus (a.word 9)
def sumF : Column 8 := (Column.mk (a.word 9) 0).plus (a.word 10)
def sumG : Column 8 := (Column.mk (a.word 10) 0).plus (a.word 11)
def sumB : Column 8 := (sumC a).plus (a.word 12)
def sumA : Column 8 := ((sumB a).plus (a.word 11)).minus (a.word 15)
def sumD : Column 8 := ((sumA a).plus (a.word 10)).minus (a.word 14)

def column0 : Column 32 := ((Column.mk (a.word 0) 0).plusSum (sumE a)).minusSum (sumA a)

def column1 : Column 32 :=
  ((nextWord (a.word 1) (column0 a).carry).plusSum (sumF a)).minusSum (sumB a)

def column2 : Column 32 :=
  ((nextWord (a.word 2) (column1 a).carry).plusSum (sumG a)).minusSum (sumC a)

def column3 : Column 32 :=
  ((((((nextWord (a.word 3) (column2 a).carry).plusSum (sumA a)).plus (a.word 11)).plus
    (a.word 12)).minus (a.word 14)).minus (a.word 15)).minusSum (sumE a)

def column4 : Column 32 :=
  (((((nextWord (a.word 4) (column3 a).carry).plusSum (sumB a)).minus (a.word 15)).plus
    (a.word 12)).plus (a.word 13)).minusSum (sumF a)

def column5 : Column 32 :=
  ((((nextWord (a.word 5) (column4 a).carry).plusSum (sumC a)).plus (a.word 13)).plus
    (a.word 14)).minusSum (sumG a)

def column6 : Column 32 :=
  (((((nextWord (a.word 6) (column5 a).carry).plusSum (sumC a)).plus (a.word 14)).plus
    (a.word 14)).plus (a.word 15)).minusSum (sumE a)

def column7 : Column 32 :=
  (((((nextWord (a.word 7) (column6 a).carry).plus (a.word 15)).plus (a.word 15)).plus
    (a.word 15)).plus (a.word 8)).minusSum (sumD a)

/-- `c` behind the columns. -/
def columnWords : Num 8 :=
  ⟨[(column0 a).word, (column1 a).word, (column2 a).word, (column3 a).word, (column4 a).word,
    (column5 a).word, (column6 a).word, (column7 a).word], rfl⟩

/-- The two loops on `U`: one counts up to zero and the other down. -/
def adjust (c : Num 8) (U : Word) : Num 8 :=
  if U &&& 0x80000000 ≠ 0 then (fun c => (multiprecisionAdd c modp).1)^[(0 - U).toNat] c
  else (fun c => (multiprecisionSub c modp).1)^[U.toNat] c

def subtractOnce (c : Num 8) : Num 8 :=
  if multiprecisionCompare c modp ≥ 0 then (multiprecisionSub c modp).1 else c

/-- `multiprecision_fast_mod_P256` -/
def fastMod : Num 8 := subtractOnce (adjust (columnWords a) (column7 a).carry)

/-- What is borrowed is there. -/
def Steady (a U : Word) : Prop := U.toInt < 0 → -U.toInt ≤ a.toNat

instance (a U : Word) : Decidable (Steady a U) := inferInstanceAs (Decidable (_ → _))

/-- No column borrows from a word that is too small, and what the loops on `U` come to is a number
of eight words. -/
structure Regular : Prop where
  borrow : Steady (a.word 1) (column0 a).carry ∧ Steady (a.word 2) (column1 a).carry ∧
    Steady (a.word 3) (column2 a).carry ∧ Steady (a.word 4) (column3 a).carry ∧
    Steady (a.word 5) (column4 a).carry ∧ Steady (a.word 6) (column5 a).carry ∧
    Steady (a.word 7) (column6 a).carry
  low : 0 ≤ (columnWords a).val + (column7 a).carry.toInt * (2 ^ 256 - prime : ℤ)
  high : (columnWords a).val + (column7 a).carry.toInt * (2 ^ 256 - prime : ℤ) < 2 ^ 256

instance : Decidable (Regular a) :=
  decidable_of_iff (_ ∧ _ ∧ _) ⟨fun h => ⟨h.1, h.2.1, h.2.2⟩, fun h => ⟨h.borrow, h.low, h.high⟩⟩

end

/-! ## A column -/

/-- A column stands for a number, up to what its carry cannot hold. -/
def Column.Holds {k : ℕ} (s : Column k) (v : ℤ) : Prop :=
  (s.word.toNat + 2 ^ 32 * s.carry.toNat : ℤ) ≡ v [ZMOD 2 ^ (32 + k)]

variable {k : ℕ} {s : Column k} {v : ℤ}

theorem toNat_add_modEq (x y : BitVec k) :
    ((x + y).toNat : ℤ) ≡ x.toNat + y.toNat [ZMOD 2 ^ k] := by
  rw [BitVec.toNat_add]
  push_cast
  exact Int.mod_modEq _ _

theorem toNat_sub_modEq (x y : BitVec k) :
    ((x - y).toNat : ℤ) ≡ x.toNat - y.toNat [ZMOD 2 ^ k] := by
  have h := toNat_add_modEq (x - y) y
  rw [BitVec.sub_add_cancel] at h
  have h' := h.symm.sub_right (y.toNat : ℤ)
  rwa [add_sub_cancel_right] at h'

theorem carry_modEq {x y : ℤ} (h : x ≡ y [ZMOD 2 ^ k]) :
    2 ^ 32 * x ≡ 2 ^ 32 * y [ZMOD 2 ^ (32 + k)] := by
  rw [pow_add]
  exact Int.ModEq.mul_left' h

theorem toNat_flag_setWidth (p : Prop) [Decidable p] (hk : 0 < k) :
    ((flag p).setWidth k).toNat = if p then 1 else 0 := by
  have hpow : 1 < 2 ^ k := Nat.one_lt_two_pow (by omega)
  rw [BitVec.toNat_setWidth, toNat_flag]
  split <;> exact Nat.mod_eq_of_lt (by omega)

theorem word_plus (w x : Word) :
    ((w + x).toNat : ℤ) + 2 ^ 32 * (if w + x < x then 1 else 0 : ℕ) = w.toNat + x.toNat := by
  have hw := w.isLt
  have hx := x.isLt
  simp only [BitVec.lt_def, BitVec.toNat_add]
  split <;> omega

theorem word_minus (w x : Word) :
    ((w - x).toNat : ℤ) = w.toNat - x.toNat + 2 ^ 32 * (if w < x then 1 else 0 : ℕ) := by
  have hw := w.isLt
  have hx := x.isLt
  simp only [BitVec.lt_def, BitVec.toNat_sub]
  split <;> omega

theorem Column.Holds.plus [NeZero k] (h : s.Holds v) (x : Word) :
    (s.plus x).Holds (v + x.toNat) := by
  have hcarry := carry_modEq (toNat_add_modEq s.carry ((flag (s.word + x < x)).setWidth k))
  rw [toNat_flag_setWidth _ (NeZero.pos k)] at hcarry
  have hword := word_plus s.word x
  have hsum := (Int.ModEq.refl ((s.word + x).toNat : ℤ)).add hcarry
  rw [mul_add, ← add_assoc, add_right_comm, hword, add_right_comm] at hsum
  exact hsum.trans (h.add_right _)

theorem Column.Holds.minus [NeZero k] (h : s.Holds v) (x : Word) :
    (s.minus x).Holds (v - x.toNat) := by
  have hcarry := carry_modEq (toNat_sub_modEq s.carry ((flag (s.word < x)).setWidth k))
  rw [toNat_flag_setWidth _ (NeZero.pos k)] at hcarry
  have hword := word_minus s.word x
  have hsum := (Int.ModEq.refl ((s.word - x).toNat : ℤ)).add hcarry
  rw [hword, mul_sub] at hsum
  rw [show ((s.word.toNat : ℤ) - x.toNat + 2 ^ 32 * (if s.word < x then 1 else 0 : ℕ) +
      (2 ^ 32 * s.carry.toNat - 2 ^ 32 * (if s.word < x then 1 else 0 : ℕ))) =
        s.word.toNat + 2 ^ 32 * s.carry.toNat - x.toNat by ring] at hsum
  rw [← hword] at hsum
  exact hsum.trans (h.sub_right _)

theorem Column.Holds.plusCarry (h : s.Holds v) (d : BitVec k) :
    (Column.mk s.word (s.carry + d)).Holds (v + 2 ^ 32 * d.toNat) := by
  have hsum := (Int.ModEq.refl (s.word.toNat : ℤ)).add (carry_modEq (toNat_add_modEq s.carry d))
  rw [mul_add, ← add_assoc] at hsum
  exact hsum.trans (h.add_right _)

theorem Column.Holds.minusCarry (h : s.Holds v) (d : BitVec k) :
    (Column.mk s.word (s.carry - d)).Holds (v - 2 ^ 32 * d.toNat) := by
  have hsum := (Int.ModEq.refl (s.word.toNat : ℤ)).add (carry_modEq (toNat_sub_modEq s.carry d))
  rw [mul_sub, ← add_sub_assoc] at hsum
  exact hsum.trans (h.sub_right _)

/-- A number that fits is the one it stands for. -/
theorem Column.Holds.eq_of_lt (h : s.Holds v) (hpos : 0 ≤ v) (hlt : v < 2 ^ (32 + k)) :
    (s.word.toNat + 2 ^ 32 * s.carry.toNat : ℤ) = v := by
  have hword : (s.word.toNat : ℤ) < 2 ^ 32 := by exact_mod_cast s.word.isLt
  have hcarry : (s.carry.toNat : ℤ) + 1 ≤ 2 ^ k := by exact_mod_cast s.carry.isLt
  have hbound : (s.word.toNat + 2 ^ 32 * s.carry.toNat : ℤ) < 2 ^ (32 + k) := by
    rw [pow_add]
    linarith [mul_le_mul_of_nonneg_left hcarry (show (0 : ℤ) ≤ 2 ^ 32 by norm_num)]
  have heq : _ % _ = _ % _ := h
  rwa [Int.emod_eq_of_lt (by positivity) hbound, Int.emod_eq_of_lt hpos hlt] at heq

theorem setWidth_one_flag (p : Prop) [Decidable p] : (flag p).setWidth 32 = flag p :=
  BitVec.setWidth_eq _

theorem toNat_setWidth_byte (x : BitVec 8) : (x.setWidth 32).toNat = x.toNat := by
  have hx := x.isLt
  rw [BitVec.toNat_setWidth]
  exact Nat.mod_eq_of_lt (by omega)

variable {c : Column 32} {t : Column 8} {u : ℤ}

theorem Column.Holds.plusSum (h : c.Holds v)
    (ht : (t.word.toNat + 2 ^ 32 * t.carry.toNat : ℤ) = u) : (c.plusSum t).Holds (v + u) := by
  have hsum := (h.plus t.word).plusCarry (t.carry.setWidth 32)
  rw [toNat_setWidth_byte, add_assoc, ht] at hsum
  rw [Column.plus, setWidth_one_flag] at hsum
  exact hsum

theorem Column.Holds.minusSum (h : c.Holds v)
    (ht : (t.word.toNat + 2 ^ 32 * t.carry.toNat : ℤ) = u) : (c.minusSum t).Holds (v - u) := by
  have hsum := (h.minus t.word).minusCarry (t.carry.setWidth 32)
  rw [toNat_setWidth_byte, sub_sub, ht] at hsum
  rw [Column.minus, setWidth_one_flag] at hsum
  exact hsum

/-- A carry with a sign. -/
theorem Column.Holds.signed (h : c.Holds v) (hlow : -2 ^ 62 ≤ v) (hhigh : v < 2 ^ 62) :
    (c.word.toNat : ℤ) + 2 ^ 32 * c.carry.toInt = v := by
  have hword := c.word.isLt
  have hcarry := c.carry.isLt
  obtain ⟨q, hq⟩ := (Int.modEq_iff_dvd.mp h)
  rw [BitVec.toInt_eq_toNat_cond]
  norm_num at hq hlow hhigh ⊢
  split <;> omega

theorem msb_iff (U : Word) : U &&& 0x80000000 ≠ 0 ↔ U.toInt < 0 := by
  have hU := U.isLt
  have hand : (U &&& 0x80000000).toNat = (U.toNat / 2 ^ 31 % 2) * 2 ^ 31 := by
    rw [BitVec.toNat_and, show (0x80000000 : Word).toNat = 2 ^ 31 from rfl, Nat.and_two_pow,
      Nat.toNat_testBit]
  rw [BitVec.toInt_neg_iff, Ne, BitVec.toNat_eq, hand, show (0 : Word).toNat = 0 from rfl]
  omega

theorem toNat_zero_sub {U : Word} (h : U.toInt < 0) : ((0 - U).toNat : ℤ) = -U.toInt := by
  have hU := U.isLt
  rw [BitVec.toInt_neg_iff] at h
  rw [BitVec.toInt_eq_toNat_cond, BitVec.toNat_sub, show (0 : Word).toNat = 0 from rfl]
  split <;> omega

theorem toInt_of_nonneg {U : Word} (h : ¬ U.toInt < 0) : (U.toNat : ℤ) = U.toInt := by
  have hU := U.isLt
  rw [BitVec.toInt_neg_iff] at h
  rw [BitVec.toInt_eq_toNat_cond]
  split <;> omega

theorem holds_word (a : Word) (k : ℕ) : (Column.mk a (0 : BitVec k)).Holds a.toNat := by
  rw [Column.Holds, show (0 : BitVec k).toNat = 0 from BitVec.toNat_zero]
  simp

/-- Whether a column borrows from a word that is too small. -/
def slipped (a U : Word) : ℤ := if Steady a U then 0 else 1

/-- What that adds to the column: a carry of one in place of minus one. -/
def slip (a U : Word) : ℤ := 2 ^ 33 * slipped a U

theorem slipped_eq (a U : Word) :
    (Steady a U ∧ slipped a U = 0) ∨ (¬ Steady a U ∧ slipped a U = 1) := by
  by_cases h : Steady a U
  · exact .inl ⟨h, if_pos h⟩
  · exact .inr ⟨h, if_neg h⟩

theorem slip_of_steady {a U : Word} (h : Steady a U) : slip a U = 0 := by
  rw [slip, slipped, if_pos h, mul_zero]

theorem slip_of_not_steady {a U : Word} (h : ¬ Steady a U) : slip a U = 2 ^ 33 := by
  rw [slip, slipped, if_neg h, mul_one]

theorem slip_bounds (a U : Word) : 0 ≤ slip a U ∧ slip a U ≤ 2 ^ 33 := by
  rcases slipped_eq a U with ⟨-, h⟩ | ⟨-, h⟩ <;> rw [slip, h] <;> omega

theorem holds_nextWord (a U : Word) : (nextWord a U).Holds (a.toNat + U.toInt + slip a U) := by
  rw [nextWord]
  by_cases hneg : U.toInt < 0
  · have hUU := toNat_zero_sub hneg
    have hsum := (holds_word a 32).minus (0 - U)
    rw [Column.minus, setWidth_one_flag, hUU, sub_neg_eq_add] at hsum
    rw [if_pos ((msb_iff U).mpr hneg)]
    by_cases hfits : a < 0 - U
    · have hslip : ¬ Steady a U := by
        rw [BitVec.lt_def] at hfits
        exact fun h => absurd (h hneg) (by omega)
      have htwo := hsum.plusCarry 2
      rw [slip_of_not_steady hslip]
      dsimp only at htwo ⊢
      rw [flag, if_pos hfits] at htwo
      rw [flag, if_pos hfits]
      exact htwo
    · have hsteady : Steady a U := by
        rw [BitVec.lt_def] at hfits
        exact fun _ => by omega
      rw [slip_of_steady hsteady, add_zero]
      dsimp only at hsum ⊢
      rw [flag, if_neg hfits, sub_zero] at hsum
      rw [flag, if_neg hfits]
      exact hsum
  · have hU := toInt_of_nonneg hneg
    rw [if_neg (fun hbit => hneg ((msb_iff U).mp hbit)),
      slip_of_steady (fun h => absurd h hneg), add_zero]
    have hsum := (holds_word U 32).plus a
    rw [Column.plus, setWidth_one_flag, hU] at hsum
    dsimp only at hsum
    rw [zero_add, BitVec.add_comm U a, add_comm U.toInt] at hsum
    exact hsum

/-! ## The columns of a product -/

variable (a : Num (8 + 8))

/-- A word of the product, as a number. -/
def Num.digit {n : ℕ} (a : Num n) (i : ℕ) : ℤ := (a.word i).toNat

theorem Num.digit_bounds {n : ℕ} (a : Num n) (i : ℕ) : 0 ≤ a.digit i ∧ a.digit i < 2 ^ 32 := by
  have h := (a.word i).isLt
  rw [Num.digit]
  omega

/-- What a column comes to, when its carry has no sign. -/
def Column.sum {k : ℕ} (s : Column k) : ℤ := s.word.toNat + 2 ^ 32 * s.carry.toNat

theorem Column.Holds.plusDigit [NeZero k] {s : Column k} (h : s.Holds v) (i : ℕ) :
    (s.plus (a.word i)).Holds (v + a.digit i) := h.plus _

theorem Column.Holds.minusDigit [NeZero k] {s : Column k} (h : s.Holds v) (i : ℕ) :
    (s.minus (a.word i)).Holds (v - a.digit i) := h.minus _

theorem holds_digit (i k : ℕ) : (Column.mk (a.word i) (0 : BitVec k)).Holds (a.digit i) :=
  holds_word _ k

theorem holds_sumC : (sumC a).Holds (a.digit 13 + a.digit 14 + a.digit 15) :=
  ((holds_digit a 13 8).plusDigit a 14).plusDigit a 15

theorem holds_sumB : (sumB a).Holds (a.digit 13 + a.digit 14 + a.digit 15 + a.digit 12) :=
  (holds_sumC a).plusDigit a 12

theorem holds_sumA : (sumA a).Holds
    (a.digit 13 + a.digit 14 + a.digit 15 + a.digit 12 + a.digit 11 - a.digit 15) :=
  ((holds_sumB a).plusDigit a 11).minusDigit a 15

theorem holds_sumD : (sumD a).Holds
    (a.digit 13 + a.digit 14 + a.digit 15 + a.digit 12 + a.digit 11 - a.digit 15 + a.digit 10 -
      a.digit 14) :=
  ((holds_sumA a).plusDigit a 10).minusDigit a 14

theorem Column.Holds.sum_eq {s : Column 8} (h : s.Holds v) {u : ℤ} (heq : v = u) (hpos : 0 ≤ u)
    (hlt : u < 2 ^ 40) : s.sum = u := by
  subst heq
  exact h.eq_of_lt hpos hlt

theorem sum_pair {s : Column 8} {i j : ℕ} (h : s.Holds (a.digit i + a.digit j)) :
    s.sum = a.digit i + a.digit j := by
  have hi := a.digit_bounds i
  have hj := a.digit_bounds j
  exact h.sum_eq rfl (by omega) (by omega)

theorem sum_sumE : (sumE a).sum = a.digit 8 + a.digit 9 :=
  sum_pair a ((holds_digit a 8 8).plusDigit a 9)

theorem sum_sumF : (sumF a).sum = a.digit 9 + a.digit 10 :=
  sum_pair a ((holds_digit a 9 8).plusDigit a 10)

theorem sum_sumG : (sumG a).sum = a.digit 10 + a.digit 11 :=
  sum_pair a ((holds_digit a 10 8).plusDigit a 11)

theorem sum_four {s : Column 8} {i j l m : ℕ}
    (h : s.Holds v) (heq : v = a.digit i + a.digit j + a.digit l + a.digit m) :
    s.sum = a.digit i + a.digit j + a.digit l + a.digit m := by
  have hi := a.digit_bounds i
  have hj := a.digit_bounds j
  have hl := a.digit_bounds l
  have hm := a.digit_bounds m
  exact h.sum_eq heq (by omega) (by omega)

theorem sum_sumC : (sumC a).sum = a.digit 13 + a.digit 14 + a.digit 15 := by
  have h13 := a.digit_bounds 13
  have h14 := a.digit_bounds 14
  have h15 := a.digit_bounds 15
  exact (holds_sumC a).sum_eq rfl (by omega) (by omega)

theorem sum_sumB : (sumB a).sum = a.digit 12 + a.digit 13 + a.digit 14 + a.digit 15 :=
  sum_four a (holds_sumB a) (by ring)

theorem sum_sumA : (sumA a).sum = a.digit 11 + a.digit 12 + a.digit 13 + a.digit 14 :=
  sum_four a (holds_sumA a) (by ring)

theorem sum_sumD : (sumD a).sum = a.digit 10 + a.digit 11 + a.digit 12 + a.digit 13 :=
  sum_four a (holds_sumD a) (by ring)

/-- A column whose terms are few has a small carry. -/
def Column.Sums (s : Column 32) (v : ℤ) : Prop :=
  s.word.toNat + 2 ^ 32 * s.carry.toInt = v ∧ -17 ≤ s.carry.toInt ∧ s.carry.toInt ≤ 16

theorem Column.Holds.sums {s : Column 32} (h : s.Holds v) {u : ℤ} (heq : v = u) (hlow : -2 ^ 36 ≤ u)
    (hhigh : u < 2 ^ 36) : s.Sums u := by
  subst heq
  have heq := h.signed (by omega) (by omega)
  have hword := s.word.isLt
  exact ⟨heq, by omega, by omega⟩

theorem sums_column0 : (column0 a).Sums (a.digit 0 + a.digit 8 + a.digit 9 - a.digit 11 -
    a.digit 12 - a.digit 13 - a.digit 14) := by
  have hd := a.digit_bounds
  have hholds := ((holds_digit a 0 32).plusSum (sum_sumE a)).minusSum (sum_sumA a)
  exact hholds.sums (by ring) (by linarith only [hd 0, hd 8, hd 9, hd 11, hd 12, hd 13, hd 14])
    (by linarith only [hd 0, hd 8, hd 9, hd 11, hd 12, hd 13, hd 14])

theorem sums_column1 (hprev : (column0 a).Sums v) :
    (column1 a).Sums (a.digit 1 + (column0 a).carry.toInt + slip (a.word 1) (column0 a).carry +
      a.digit 9 + a.digit 10 - a.digit 12 - a.digit 13 - a.digit 14 - a.digit 15) := by
  have hd := a.digit_bounds
  obtain ⟨-, hlow, hhigh⟩ := hprev
  obtain ⟨hpos, hle⟩ := slip_bounds (a.word 1) (column0 a).carry
  have hprev := holds_nextWord (a.word 1) (column0 a).carry
  have hholds := (hprev.plusSum (sum_sumF a)).minusSum (sum_sumB a)
  exact hholds.sums (by rw [← Num.digit]; ring)
    (by linarith only [hd 1, hd 9, hd 10, hd 12, hd 13, hd 14, hd 15, hlow, hhigh, hpos, hle])
    (by linarith only [hd 1, hd 9, hd 10, hd 12, hd 13, hd 14, hd 15, hlow, hhigh, hpos, hle])

theorem sums_column2 (hprev : (column1 a).Sums v) :
    (column2 a).Sums (a.digit 2 + (column1 a).carry.toInt + slip (a.word 2) (column1 a).carry +
      a.digit 10 + a.digit 11 - a.digit 13 - a.digit 14 - a.digit 15) := by
  have hd := a.digit_bounds
  obtain ⟨-, hlow, hhigh⟩ := hprev
  obtain ⟨hpos, hle⟩ := slip_bounds (a.word 2) (column1 a).carry
  have hprev := holds_nextWord (a.word 2) (column1 a).carry
  have hholds := (hprev.plusSum (sum_sumG a)).minusSum (sum_sumC a)
  exact hholds.sums (by rw [← Num.digit]; ring)
    (by linarith only [hd 2, hd 10, hd 11, hd 13, hd 14, hd 15, hlow, hhigh, hpos, hle])
    (by linarith only [hd 2, hd 10, hd 11, hd 13, hd 14, hd 15, hlow, hhigh, hpos, hle])

theorem sums_column3 (hprev : (column2 a).Sums v) :
    (column3 a).Sums (a.digit 3 + (column2 a).carry.toInt + slip (a.word 3) (column2 a).carry + 2 *
      a.digit 11 + 2 * a.digit 12 + a.digit 13 - a.digit 15 - a.digit 8 - a.digit 9) := by
  have hd := a.digit_bounds
  obtain ⟨-, hlow, hhigh⟩ := hprev
  obtain ⟨hpos, hle⟩ := slip_bounds (a.word 3) (column2 a).carry
  have hprev := holds_nextWord (a.word 3) (column2 a).carry
  have hplus := ((hprev.plusSum (sum_sumA a)).plusDigit a 11).plusDigit a 12
  have hholds := ((hplus.minusDigit a 14).minusDigit a 15).minusSum (sum_sumE a)
  exact hholds.sums (by rw [← Num.digit]; ring)
    (by linarith only [hd 3, hd 8, hd 9, hd 11, hd 12, hd 13, hd 15, hlow, hhigh, hpos, hle])
    (by linarith only [hd 3, hd 8, hd 9, hd 11, hd 12, hd 13, hd 15, hlow, hhigh, hpos, hle])

theorem sums_column4 (hprev : (column3 a).Sums v) :
    (column4 a).Sums (a.digit 4 + (column3 a).carry.toInt + slip (a.word 4) (column3 a).carry + 2 *
      a.digit 12 + 2 * a.digit 13 + a.digit 14 - a.digit 9 - a.digit 10) := by
  have hd := a.digit_bounds
  obtain ⟨-, hlow, hhigh⟩ := hprev
  obtain ⟨hpos, hle⟩ := slip_bounds (a.word 4) (column3 a).carry
  have hprev := holds_nextWord (a.word 4) (column3 a).carry
  have hplus := (((hprev.plusSum (sum_sumB a)).minusDigit a 15).plusDigit a 12).plusDigit a 13
  have hholds := hplus.minusSum (sum_sumF a)
  exact hholds.sums (by rw [← Num.digit]; ring)
    (by linarith only [hd 4, hd 9, hd 10, hd 12, hd 13, hd 14, hlow, hhigh, hpos, hle])
    (by linarith only [hd 4, hd 9, hd 10, hd 12, hd 13, hd 14, hlow, hhigh, hpos, hle])

theorem sums_column5 (hprev : (column4 a).Sums v) :
    (column5 a).Sums (a.digit 5 + (column4 a).carry.toInt + slip (a.word 5) (column4 a).carry + 2 *
      a.digit 13 + 2 * a.digit 14 + a.digit 15 - a.digit 10 - a.digit 11) := by
  have hd := a.digit_bounds
  obtain ⟨-, hlow, hhigh⟩ := hprev
  obtain ⟨hpos, hle⟩ := slip_bounds (a.word 5) (column4 a).carry
  have hprev := holds_nextWord (a.word 5) (column4 a).carry
  have hplus := ((hprev.plusSum (sum_sumC a)).plusDigit a 13).plusDigit a 14
  have hholds := hplus.minusSum (sum_sumG a)
  exact hholds.sums (by rw [← Num.digit]; ring)
    (by linarith only [hd 5, hd 10, hd 11, hd 13, hd 14, hd 15, hlow, hhigh, hpos, hle])
    (by linarith only [hd 5, hd 10, hd 11, hd 13, hd 14, hd 15, hlow, hhigh, hpos, hle])

theorem sums_column6 (hprev : (column5 a).Sums v) :
    (column6 a).Sums (a.digit 6 + (column5 a).carry.toInt + slip (a.word 6) (column5 a).carry +
      a.digit 13 + 3 * a.digit 14 + 2 * a.digit 15 - a.digit 8 - a.digit 9) := by
  have hd := a.digit_bounds
  obtain ⟨-, hlow, hhigh⟩ := hprev
  obtain ⟨hpos, hle⟩ := slip_bounds (a.word 6) (column5 a).carry
  have hprev := holds_nextWord (a.word 6) (column5 a).carry
  have hplus := (((hprev.plusSum (sum_sumC a)).plusDigit a 14).plusDigit a 14).plusDigit a 15
  have hholds := hplus.minusSum (sum_sumE a)
  exact hholds.sums (by rw [← Num.digit]; ring)
    (by linarith only [hd 6, hd 8, hd 9, hd 13, hd 14, hd 15, hlow, hhigh, hpos, hle])
    (by linarith only [hd 6, hd 8, hd 9, hd 13, hd 14, hd 15, hlow, hhigh, hpos, hle])

theorem sums_column7 (hprev : (column6 a).Sums v) :
    (column7 a).Sums (a.digit 7 + (column6 a).carry.toInt + slip (a.word 7) (column6 a).carry + 3 *
      a.digit 15 + a.digit 8 - a.digit 10 - a.digit 11 - a.digit 12 - a.digit 13) := by
  have hd := a.digit_bounds
  obtain ⟨-, hlow, hhigh⟩ := hprev
  obtain ⟨hpos, hle⟩ := slip_bounds (a.word 7) (column6 a).carry
  have hprev := holds_nextWord (a.word 7) (column6 a).carry
  have hplus := (((hprev.plusDigit a 15).plusDigit a 15).plusDigit a 15).plusDigit a 8
  have hholds := hplus.minusSum (sum_sumD a)
  exact hholds.sums (by rw [← Num.digit]; ring)
    (by linarith only [hd 7, hd 8, hd 10, hd 11, hd 12, hd 13, hd 15, hlow, hhigh, hpos, hle])
    (by linarith only [hd 7, hd 8, hd 10, hd 11, hd 12, hd 13, hd 15, hlow, hhigh, hpos, hle])

/-! ## The reduction -/

theorem val_eq_digits : (a.val : ℤ) = ∑ i ∈ Finset.range 8, 2 ^ (32 * i) * a.digit i +
    2 ^ 256 * ∑ i ∈ Finset.range 8, 2 ^ (32 * i) * a.digit (8 + i) := by
  have h : (a.val : ℤ) = ∑ i ∈ Finset.range (8 + 8), 2 ^ (32 * i) * a.digit i := by
    rw [Num.val, value_eq_sum, a.length_words]
    push_cast
    rfl
  rw [h, Finset.sum_range_add, Finset.mul_sum]
  congr 1
  refine Finset.sum_congr rfl fun i _ => ?_
  rw [Nat.mul_add, pow_add, mul_assoc]

/-- What the borrows that are not there add to the product. -/
def slips : ℤ :=
  2 ^ 32 * slip (a.word 1) (column0 a).carry + 2 ^ 64 * slip (a.word 2) (column1 a).carry +
    2 ^ 96 * slip (a.word 3) (column2 a).carry + 2 ^ 128 * slip (a.word 4) (column3 a).carry +
    2 ^ 160 * slip (a.word 5) (column4 a).carry + 2 ^ 192 * slip (a.word 6) (column5 a).carry +
    2 ^ 224 * slip (a.word 7) (column6 a).carry

/-- The columns are the product and the slips, less a multiple of the prime. -/
theorem columnWords_modEq : ((columnWords a).val : ℤ) + 2 ^ 256 * (column7 a).carry.toInt ≡
    a.val + slips a [ZMOD prime] := by
  have h0 := sums_column0 a
  have h1 := sums_column1 a h0
  have h2 := sums_column2 a h1
  have h3 := sums_column3 a h2
  have h4 := sums_column4 a h3
  have h5 := sums_column5 a h4
  have h6 := sums_column6 a h5
  have h7 := sums_column7 a h6
  refine (Int.modEq_iff_dvd.mpr ⟨a.digit 8 + 4294967297 * a.digit 9 +
    18446744078004518912 * a.digit 10 + 79228162532711081667253501951 * a.digit 11 +
    340282367000166625977638945021017194495 * a.digit 12 +
    1461501637671185285124623296161210883009696235519 * a.digit 13 +
    6277101736848182401166692341332123086285927382448418586623 * a.digit 14 +
    26959946673427741530053695850515137729844644212646842236464328081408 * a.digit 15, ?_⟩)
  rw [val_eq_digits, slips]
  simp only [Finset.sum_range_succ, Finset.sum_range_zero, columnWords, Num.val, value_cons,
    value_nil]
  push_cast
  linear_combination -(h0.1 + 2 ^ 32 * h1.1 + 2 ^ 64 * h2.1 + 2 ^ 96 * h3.1 + 2 ^ 128 * h4.1 +
    2 ^ 160 * h5.1 + 2 ^ 192 * h6.1 + 2 ^ 224 * h7.1)

theorem column7_carry : -17 ≤ (column7 a).carry.toInt ∧ (column7 a).carry.toInt ≤ 16 :=
  (sums_column7 a (sums_column6 a (sums_column5 a (sums_column4 a (sums_column3 a (sums_column2 a
    (sums_column1 a (sums_column0 a)))))))).2

theorem add_modEq (c d : Num 8) :
    ((multiprecisionAdd c d).1.val : ℤ) ≡ c.val + d.val [ZMOD 2 ^ 256] := by
  have h := congrArg (Nat.cast (R := ℤ)) (add_spec c d).1
  push_cast at h
  refine Int.modEq_iff_dvd.mpr ⟨(multiprecisionAdd c d).2.toNat, ?_⟩
  linear_combination -h

theorem sub_modEq (c d : Num 8) :
    ((multiprecisionSub c d).1.val : ℤ) ≡ c.val - d.val [ZMOD 2 ^ 256] := by
  have h := congrArg (Nat.cast (R := ℤ)) (sub_spec c d).1
  push_cast at h
  refine Int.modEq_iff_dvd.mpr ⟨-(multiprecisionSub c d).2.toNat, ?_⟩
  linear_combination -h

theorem iterate_add_modEq (c d : Num 8) (m : ℕ) :
    (((fun c => (multiprecisionAdd c d).1)^[m] c).val : ℤ) ≡ c.val + m * d.val [ZMOD 2 ^ 256] := by
  induction m with
  | zero => simp
  | succ m ih =>
    rw [Function.iterate_succ_apply']
    have hstep := (add_modEq _ d).trans (ih.add_right d.val)
    rwa [add_assoc, ← add_one_mul, ← Nat.cast_succ] at hstep

theorem iterate_sub_modEq (c d : Num 8) (m : ℕ) :
    (((fun c => (multiprecisionSub c d).1)^[m] c).val : ℤ) ≡ c.val - m * d.val [ZMOD 2 ^ 256] := by
  induction m with
  | zero => simp
  | succ m ih =>
    rw [Function.iterate_succ_apply']
    have hstep := (sub_modEq _ d).trans (ih.sub_right d.val)
    rwa [sub_sub, ← add_one_mul, ← Nat.cast_succ] at hstep

theorem adjust_modEq (c : Num 8) (U : Word) :
    ((adjust c U).val : ℤ) ≡ c.val - U.toInt * prime [ZMOD 2 ^ 256] := by
  rw [adjust]
  by_cases hneg : U.toInt < 0
  · rw [if_pos ((msb_iff U).mpr hneg)]
    have hloop := iterate_add_modEq c modp (0 - U).toNat
    rwa [toNat_zero_sub hneg, val_modp, neg_mul, ← sub_eq_add_neg] at hloop
  · rw [if_neg (fun hbit => hneg ((msb_iff U).mp hbit))]
    have hloop := iterate_sub_modEq c modp U.toNat
    rwa [toInt_of_nonneg hneg, val_modp] at hloop

/-- What the loops on `U` come to, before it is cut to eight words. -/
def uncut : ℤ := (columnWords a).val + (column7 a).carry.toInt * (2 ^ 256 - prime)

theorem adjust_eq : ((adjust (columnWords a) (column7 a).carry).val : ℤ) = uncut a % 2 ^ 256 := by
  have hlt : ((adjust (columnWords a) (column7 a).carry).val : ℤ) < 2 ^ 256 := by
    exact_mod_cast (adjust (columnWords a) (column7 a).carry).val_lt
  have hmod := (adjust_modEq (columnWords a) (column7 a).carry).trans (Int.modEq_iff_dvd.mpr
    ⟨(column7 a).carry.toInt, by rw [uncut]; ring⟩ : _ ≡ uncut a [ZMOD 2 ^ 256])
  rwa [Int.ModEq, Int.emod_eq_of_lt (Int.natCast_nonneg _) hlt] at hmod

/-- They leave the product, up to the prime, the slips and what has been cut. -/
theorem adjust_columnWords : ((adjust (columnWords a) (column7 a).carry).val : ℤ) ≡
    a.val + (slips a - 2 ^ 256 * (uncut a / 2 ^ 256)) [ZMOD prime] := by
  have hcolumns := columnWords_modEq a
  have hcut := Int.mul_ediv_add_emod (uncut a) (2 ^ 256)
  have hdef : uncut a = (columnWords a).val + (column7 a).carry.toInt * (2 ^ 256 - prime) := rfl
  have hstart : ((adjust (columnWords a) (column7 a).carry).val : ℤ) ≡
      (columnWords a).val + 2 ^ 256 * (column7 a).carry.toInt - 2 ^ 256 * (uncut a / 2 ^ 256)
        [ZMOD prime] := by
    refine Int.modEq_iff_dvd.mpr ⟨(column7 a).carry.toInt, ?_⟩
    rw [adjust_eq]
    linear_combination -hcut - hdef
  rw [← add_sub_assoc]
  exact hstart.trans (hcolumns.sub_right _)

theorem prime_bounds : 2 ^ 255 < prime ∧ prime < 2 ^ 256 := by decide

theorem subtractOnce_val (c : Num 8) : (subtractOnce c).val = c.val % prime := by
  have hc := c.val_lt
  have hprime := prime_bounds
  obtain ⟨heq, hborrow⟩ := sub_spec c modp
  rw [subtractOnce]
  split
  next hle =>
    rw [compare_nonneg_iff, val_modp] at hle
    rw [val_modp] at heq
    have hresult := (multiprecisionSub c modp).1.val_lt
    rw [Nat.mod_eq_sub_mod hle, Nat.mod_eq_of_lt (by omega)]
    generalize prime = p at *
    omega
  next hlt =>
    rw [compare_nonneg_iff, val_modp] at hlt
    exact (Nat.mod_eq_of_lt (by omega)).symm

theorem fastMod_lt : (fastMod a).val < prime := by
  rw [fastMod, subtractOnce_val]
  exact Nat.mod_lt _ (by decide)

theorem prime_cast : (prime : ℤ) = 2 ^ 256 - 2 ^ 224 + 2 ^ 192 + 2 ^ 96 - 1 := by
  norm_num [prime]

/-- What is cut is at most one in either direction. -/
theorem uncut_div : -1 ≤ uncut a / 2 ^ 256 ∧ uncut a / 2 ^ 256 ≤ 1 := by
  have hcolumns := (columnWords a).val_lt
  have hcarry := column7_carry a
  rw [uncut, prime_cast]
  omega

/-- The slips and what is cut never make up for each other. -/
theorem slips_cancel {x₁ x₂ x₃ x₄ x₅ x₆ x₇ m : ℤ} (h1 : 0 ≤ x₁ ∧ x₁ ≤ 1) (h2 : 0 ≤ x₂ ∧ x₂ ≤ 1)
    (h3 : 0 ≤ x₃ ∧ x₃ ≤ 1) (h4 : 0 ≤ x₄ ∧ x₄ ≤ 1) (h5 : 0 ≤ x₅ ∧ x₅ ≤ 1) (h6 : 0 ≤ x₆ ∧ x₆ ≤ 1)
    (h7 : 0 ≤ x₇ ∧ x₇ ≤ 1) (hm : -1 ≤ m ∧ m ≤ 1)
    (h : (prime : ℤ) ∣ 2 ^ 65 * (x₁ + 2 ^ 32 * x₂ + 2 ^ 64 * x₃ + 2 ^ 96 * x₄ + 2 ^ 128 * x₅ +
      2 ^ 160 * x₆ + 2 ^ 192 * x₇ - 2 ^ 191 * m)) :
    (x₁ = 0 ∧ x₂ = 0 ∧ x₃ = 0 ∧ x₄ = 0 ∧ x₅ = 0 ∧ x₆ = 0 ∧ x₇ = 0) ∧ m = 0 := by
  have hcoprime : IsCoprime (prime : ℤ) ((2 ^ 65 : ℕ) : ℤ) :=
    Nat.isCoprime_iff_coprime.mpr (Nat.Coprime.pow_right 65 (by decide))
  rw [Nat.cast_pow, Nat.cast_ofNat] at hcoprime
  obtain ⟨l, hl⟩ := hcoprime.dvd_of_dvd_mul_left h
  rw [prime_cast] at hl
  obtain rfl : l = 0 := by omega
  rw [mul_zero] at hl
  obtain rfl : x₁ = 0 := by omega
  obtain rfl : x₂ = 0 := by omega
  obtain rfl : x₃ = 0 := by omega
  obtain rfl : x₄ = 0 := by omega
  obtain rfl : x₅ = 0 := by omega
  omega

theorem slipped_bounds (a U : Word) : 0 ≤ slipped a U ∧ slipped a U ≤ 1 := by
  rcases slipped_eq a U with ⟨-, h⟩ | ⟨-, h⟩ <;> omega

theorem steady_iff (a U : Word) : Steady a U ↔ slipped a U = 0 := by
  rcases slipped_eq a U with ⟨hsteady, h⟩ | ⟨hsteady, h⟩
  · exact iff_of_true hsteady h
  · exact iff_of_false hsteady (by omega)

/-- A reduction is regular when nothing has been added to the product. -/
theorem regular_iff : Regular a ↔
    (prime : ℤ) ∣ slips a - 2 ^ 256 * (uncut a / 2 ^ 256) := by
  have hcut : 0 ≤ uncut a ∧ uncut a < 2 ^ 256 ↔ uncut a / 2 ^ 256 = 0 := by omega
  constructor
  · intro h
    obtain ⟨s1, s2, s3, s4, s5, s6, s7⟩ := h.borrow
    rw [hcut.mp ⟨h.low, h.high⟩, slips, slip_of_steady s1, slip_of_steady s2, slip_of_steady s3,
      slip_of_steady s4, slip_of_steady s5, slip_of_steady s6, slip_of_steady s7]
    exact ⟨0, by ring⟩
  · intro h
    obtain ⟨⟨s1, s2, s3, s4, s5, s6, s7⟩, hzero⟩ := slips_cancel
      (slipped_bounds (a.word 1) (column0 a).carry) (slipped_bounds (a.word 2) (column1 a).carry)
      (slipped_bounds (a.word 3) (column2 a).carry) (slipped_bounds (a.word 4) (column3 a).carry)
      (slipped_bounds (a.word 5) (column4 a).carry) (slipped_bounds (a.word 6) (column5 a).carry)
      (slipped_bounds (a.word 7) (column6 a).carry) (uncut_div a) (by
        convert h using 1
        simp only [slips, slip]
        ring)
    have hrange := hcut.mpr hzero
    exact ⟨⟨(steady_iff _ _).mpr s1, (steady_iff _ _).mpr s2, (steady_iff _ _).mpr s3,
      (steady_iff _ _).mpr s4, (steady_iff _ _).mpr s5, (steady_iff _ _).mpr s6,
      (steady_iff _ _).mpr s7⟩, hrange.1, hrange.2⟩

theorem fastMod_eq {a : Num (8 + 8)} (h : Regular a) : (fastMod a).val = a.val % prime := by
  have hmod := (adjust_columnWords a).trans (Int.modEq_iff_dvd.mpr (by
    rw [sub_add_cancel_left, dvd_neg]
    exact (regular_iff a).mp h) : _ ≡ (a.val : ℤ) [ZMOD prime])
  rw [fastMod, subtractOnce_val]
  exact_mod_cast hmod

/-- The reduction is right exactly when no column has slipped and nothing has been cut. -/
theorem fastMod_eq_iff (a : Num (8 + 8)) : (fastMod a).val = a.val % prime ↔ Regular a := by
  refine ⟨fun h => (regular_iff a).mpr ?_, fastMod_eq⟩
  rw [fastMod, subtractOnce_val] at h
  have hmod : ((adjust (columnWords a) (column7 a).carry).val : ℤ) ≡ a.val [ZMOD prime] := by
    exact_mod_cast h
  have hdvd := Int.modEq_iff_dvd.mp (hmod.symm.trans (adjust_columnWords a))
  rwa [add_sub_cancel_left] at hdvd

/-- Two residues whose product slips. -/
example : ∃ x y : Num 8, x.val < prime ∧ y.val < prime ∧ ¬ Regular (multiprecisionMult x y) :=
  ⟨⟨[0x083deee4, 0xf682bd9d, 0xe6a16a3b, 0x2827688d, 0x1cfb10f6, 0x5f2dd97f,
     0x7814e8a2, 0xde527100], rfl⟩,
    ⟨[0x9f767c45, 0x4164d839, 0xbde5c099, 0x5bc8fbbc, 0xcb91ce37, 0xb0c11fde,
       0xf1446bea, 0xd76d4330], rfl⟩,
    by decide +kernel⟩

end Uwe5631.P256
