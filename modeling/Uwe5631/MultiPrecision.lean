import Uwe5631.Limbs
import Mathlib

/-!
# Multiprecision arithmetic

The functions of `p_256_multprecision.c` on numbers of a length, word by word as the code computes
them, and the numbers that come of them.
-/
namespace Uwe5631.P256
open Limbs

/-- `DWORD` -/
abbrev Word := BitVec 32

/-- A comparison as a number. -/
def flag (p : Prop) [Decidable p] : Word := if p then 1 else 0

/-- An array of `keyLength` words. -/
structure Num (n : ℕ) where
  words : List Word
  length_words : words.length = n
  deriving DecidableEq

variable {n : ℕ}

def Num.val (a : Num n) : ℕ := value a.words

/-- `multiprecision_init` -/
def Num.init (n : ℕ) : Num n := ⟨List.replicate n 0, List.length_replicate⟩

/-! ## Comparisons -/

/-- The loop of `multiprecision_compare`: the higher words come first. -/
def compareLoop : List Word → List Word → ℤ
  | a :: as, b :: bs =>
    let r := compareLoop as bs
    if r ≠ 0 then r else if a > b then 1 else if a < b then -1 else 0
  | _, _ => 0

def multiprecisionCompare (a b : Num n) : ℤ := compareLoop a.words b.words

def multiprecisionIszero (a : Num n) : Bool := a.words.all (· = 0)

/-- The loop of `multiprecision_dword_bits`, with what is left of the 32 rounds. -/
def dwordBitsLoop : ℕ → Word → ℕ
  | 0, _ => 0
  | left + 1, a => if a = 0 then 0 else 1 + dwordBitsLoop left (a >>> 1)

def multiprecisionDwordBits (a : Word) : ℕ := dwordBitsLoop 32 a

/-- The loop of `multiprecision_most_signdwords`, from the top. -/
def mostSigndwordsLoop : List Word → ℕ
  | [] => 0
  | a :: as =>
    let r := mostSigndwordsLoop as
    if r ≠ 0 then 1 + r else if a ≠ 0 then 1 else 0

def multiprecisionMostSignbits (a : Num n) : ℕ :=
  let dwords := mostSigndwordsLoop a.words
  if dwords = 0 then 0 else (dwords - 1) * 32 + multiprecisionDwordBits (a.words.getD (dwords - 1) 0)

/-! ## Sums and differences -/

def addLoop : List Word → List Word → Word → List Word × Word
  | a :: as, b :: bs, carrier =>
    let temp := a + carrier
    let carrier := flag (temp < carrier)
    let temp := temp + b
    let r := addLoop as bs (carrier ||| flag (temp < b))
    (temp :: r.1, r.2)
  | _, _, carrier => ([], carrier)

def subLoop : List Word → List Word → Word → List Word × Word
  | a :: as, b :: bs, borrow =>
    let temp := a - borrow
    let borrow := flag (temp > a)
    let c := temp - b
    let r := subLoop as bs (borrow ||| flag (c > temp))
    (c :: r.1, r.2)
  | _, _, borrow => ([], borrow)

theorem length_addLoop (as bs : List Word) (carrier : Word) (h : as.length = bs.length) :
    (addLoop as bs carrier).1.length = as.length := by
  induction as generalizing bs carrier with
  | nil => rfl
  | cons a as ih =>
    cases bs with
    | nil => cases h
    | cons b bs => exact congrArg (· + 1) (ih bs _ (Nat.succ.inj h))

theorem length_subLoop (as bs : List Word) (borrow : Word) (h : as.length = bs.length) :
    (subLoop as bs borrow).1.length = as.length := by
  induction as generalizing bs borrow with
  | nil => rfl
  | cons a as ih =>
    cases bs with
    | nil => cases h
    | cons b bs => exact congrArg (· + 1) (ih bs _ (Nat.succ.inj h))

/-- `multiprecision_add`, with the carry that it returns. -/
def multiprecisionAdd (a b : Num n) : Num n × Word :=
  (⟨(addLoop a.words b.words 0).1, (length_addLoop _ _ _
    (a.length_words.trans b.length_words.symm)).trans a.length_words⟩,
    (addLoop a.words b.words 0).2)

/-- `multiprecision_sub`, with the borrow that it returns. -/
def multiprecisionSub (a b : Num n) : Num n × Word :=
  (⟨(subLoop a.words b.words 0).1, (length_subLoop _ _ _
    (a.length_words.trans b.length_words.symm)).trans a.length_words⟩,
    (subLoop a.words b.words 0).2)

/-! ## Shifts -/

/-- The loop of `multiprecision_rshift`, from the top, with the carrier for the word below. -/
def rshiftLoop : List Word → List Word × Word
  | [] => ([], 0)
  | temp :: as =>
    let r := rshiftLoop as
    (((temp >>> 1) ||| r.2) :: r.1, temp <<< 31)

def lshiftLoop : List Word → Word → List Word × Word
  | temp :: as, carrier =>
    let r := lshiftLoop as (temp >>> 31)
    (((temp <<< 1) ||| carrier) :: r.1, r.2)
  | [], carrier => ([], carrier)

theorem length_rshiftLoop (as : List Word) : (rshiftLoop as).1.length = as.length := by
  induction as with
  | nil => rfl
  | cons a as ih => exact congrArg (· + 1) ih

theorem length_lshiftLoop (as : List Word) (carrier : Word) :
    (lshiftLoop as carrier).1.length = as.length := by
  induction as generalizing carrier with
  | nil => rfl
  | cons a as ih => exact congrArg (· + 1) (ih _)

def multiprecisionRshift (a : Num n) : Num n :=
  ⟨(rshiftLoop a.words).1, (length_rshiftLoop _).trans a.length_words⟩

/-- `multiprecision_lshift`, with the carry that it returns. -/
def multiprecisionLshift (a : Num n) : Num n × Word :=
  (⟨(lshiftLoop a.words 0).1, (length_lshiftLoop _ _).trans a.length_words⟩,
    (lshiftLoop a.words 0).2)

/-! ## The product -/

/-- The inner loop of `multiprecision_mult`: the words of `c` from `c[i]` on, and `U`. -/
def multRow (a : Word) : List Word → List Word → Word → List Word × Word
  | b :: bs, c :: cs, U =>
    let result : BitVec 64 := a.setWidth 64 * b.setWidth 64
    let W : Word := (result >>> 32).setWidth 32
    let V := a * b
    let V := V + U
    let U := flag (V < U)
    let U := U + W
    let V := V + c
    let U := U + flag (V < c)
    let r := multRow a bs cs U
    (V :: r.1, r.2)
  | _, _, U => ([], U)

/-- The outer loop: `c[i]` is done after its row, the others are the next row's. -/
def multLoop : List Word → List Word → List Word → List Word
  | [], _, cs => cs
  | a :: as, bs, cs =>
    let r := multRow a bs cs 0
    match r.1 ++ [r.2] with
    | c :: cs => c :: multLoop as bs cs
    | [] => []

theorem length_multRow (a : Word) (bs cs : List Word) (U : Word) (h : cs.length = bs.length) :
    (multRow a bs cs U).1.length = bs.length := by
  induction bs generalizing cs U with
  | nil => cases cs <;> rfl
  | cons b bs ih =>
    cases cs with
    | nil => cases h
    | cons c cs => exact congrArg (· + 1) (ih cs _ (Nat.succ.inj h))

theorem length_multLoop (as bs cs : List Word) (h : cs.length = bs.length) :
    (multLoop as bs cs).length = as.length + bs.length := by
  induction as generalizing cs with
  | nil => rw [multLoop, h, List.length_nil, Nat.zero_add]
  | cons a as ih =>
    have hrow := length_multRow a bs cs 0 h
    rw [multLoop]
    match hwords : (multRow a bs cs 0).1 ++ [(multRow a bs cs 0).2] with
    | [] => simp at hwords
    | c :: cs' =>
      have hlength := congrArg List.length hwords
      rw [List.length_append, hrow, List.length_singleton, List.length_cons] at hlength
      dsimp only
      rw [List.length_cons, ih cs' (Nat.succ.inj hlength).symm, List.length_cons]
      omega

def multiprecisionMult (a b : Num n) : Num (n + n) :=
  ⟨multLoop a.words b.words (List.replicate n 0), by
    rw [length_multLoop _ _ _ (List.length_replicate.trans b.length_words.symm), a.length_words,
      b.length_words]⟩

/-! ## What they compute -/

theorem toNat_flag (p : Prop) [Decidable p] : (flag p).toNat = if p then 1 else 0 := by
  rw [flag]
  split <;> rfl

theorem Num.val_lt (a : Num n) : a.val < 2 ^ (32 * n) := by
  have h := value_lt a.words
  rwa [a.length_words] at h

theorem Num.ext_val {a b : Num n} (h : a.val = b.val) : a = b := by
  obtain ⟨as, ha⟩ := a
  obtain ⟨bs, hb⟩ := b
  obtain rfl := value_injective (ha.trans hb.symm) h
  rfl

@[simp] theorem Num.val_init (n : ℕ) : (Num.init n).val = 0 := value_replicate_zero n

theorem iszero_iff {a : Num n} : multiprecisionIszero a = true ↔ a.val = 0 := by
  rw [multiprecisionIszero, List.all_eq_true, Num.val, value_eq_zero]
  simp only [decide_eq_true_eq]

theorem compareLoop_eq (as bs : List Word) (h : as.length = bs.length) :
    compareLoop as bs = if value as > value bs then 1 else if value as < value bs then -1 else 0 := by
  induction as generalizing bs with
  | nil =>
    cases bs with
    | nil => rfl
    | cons b bs => cases h
  | cons a as ih =>
    cases bs with
    | nil => cases h
    | cons b bs =>
      have ha := a.isLt
      have hb := b.isLt
      rw [compareLoop, ih bs (Nat.succ.inj h), value_cons, value_cons]
      simp only [gt_iff_lt, BitVec.lt_def]
      rcases Nat.lt_trichotomy (value as) (value bs) with hlt | heq | hgt
      · rw [if_neg (show ¬ value bs < value as by omega), if_pos hlt,
          if_neg (show ¬ b.toNat + 2 ^ 32 * value bs < a.toNat + 2 ^ 32 * value as by omega),
          if_pos (show a.toNat + 2 ^ 32 * value as < b.toNat + 2 ^ 32 * value bs by omega)]
        rfl
      · rw [heq]
        simp
      · rw [if_pos hgt,
          if_pos (show b.toNat + 2 ^ 32 * value bs < a.toNat + 2 ^ 32 * value as by omega)]
        rfl

theorem compare_nonneg_iff {a b : Num n} : multiprecisionCompare a b ≥ 0 ↔ b.val ≤ a.val := by
  rw [multiprecisionCompare, compareLoop_eq _ _ (a.length_words.trans b.length_words.symm), Num.val,
    Num.val]
  split
  · omega
  · split <;> omega

theorem dwordBitsLoop_eq_zero (left : ℕ) (a : Word) :
    dwordBitsLoop (left + 1) a = 0 ↔ a = 0 := by
  rw [dwordBitsLoop]
  split
  · simp_all
  · simp_all

theorem mostSigndwordsLoop_spec (as : List Word) :
    (mostSigndwordsLoop as = 0 ∧ value as = 0) ∨
      ∃ k a, mostSigndwordsLoop as = k + 1 ∧ as[k]? = some a ∧ a ≠ 0 ∧ value as ≠ 0 := by
  induction as with
  | nil => exact .inl ⟨rfl, rfl⟩
  | cons a as ih =>
    rw [mostSigndwordsLoop, value_cons]
    rcases ih with ⟨hnone, hzero⟩ | ⟨k, b, hk, hb, hne, hvalue⟩
    · rw [hnone, hzero]
      by_cases ha : a = 0
      · exact .inl ⟨by simp [ha], by simp [ha]⟩
      · have hpos : a.toNat ≠ 0 := fun h => ha (BitVec.eq_of_toNat_eq h)
        exact .inr ⟨0, a, if_pos ha, rfl, ha, by omega⟩
    · exact .inr ⟨k + 1, b, by simp [hk, Nat.add_comm], hb, hne, by omega⟩

theorem mostSignbits_eq_zero {a : Num n} : multiprecisionMostSignbits a = 0 ↔ a.val = 0 := by
  rw [multiprecisionMostSignbits, Num.val]
  rcases mostSigndwordsLoop_spec a.words with ⟨hnone, hzero⟩ | ⟨k, b, hk, hb, hne, hvalue⟩
  · simp [hnone, hzero]
  · have hbits : multiprecisionDwordBits b ≠ 0 := fun h => hne ((dwordBitsLoop_eq_zero 31 b).mp h)
    have hword : a.words.getD (k + 1 - 1) 0 = b := by
      rw [Nat.add_sub_cancel, List.getD_eq_getElem?_getD, hb]
      rfl
    rw [hk, if_neg (Nat.succ_ne_zero k), hword]
    exact iff_of_false (by omega) hvalue

/-- One word of a sum. -/
theorem add_word (a b carrier : Word) (h : carrier.toNat ≤ 1) :
    (a + carrier + b).toNat + 2 ^ 32 *
        (flag (a + carrier < carrier) ||| flag (a + carrier + b < b)).toNat =
      a.toNat + b.toNat + carrier.toNat ∧
    (flag (a + carrier < carrier) ||| flag (a + carrier + b < b)).toNat ≤ 1 := by
  have ha := a.isLt
  have hb := b.isLt
  rw [BitVec.toNat_or, toNat_flag, toNat_flag]
  simp only [BitVec.lt_def, BitVec.toNat_add]
  split <;> split <;> simp <;> omega

theorem addLoop_spec (as bs : List Word) (carrier : Word) (h : as.length = bs.length)
    (hcarrier : carrier.toNat ≤ 1) :
    value (addLoop as bs carrier).1 + 2 ^ (32 * as.length) * (addLoop as bs carrier).2.toNat =
      value as + value bs + carrier.toNat ∧ (addLoop as bs carrier).2.toNat ≤ 1 := by
  induction as generalizing bs carrier with
  | nil =>
    cases bs with
    | nil => exact ⟨by simp [addLoop], hcarrier⟩
    | cons b bs => cases h
  | cons a as ih =>
    cases bs with
    | nil => cases h
    | cons b bs =>
      obtain ⟨hword, hle⟩ := add_word a b carrier hcarrier
      obtain ⟨hrest, hlast⟩ := ih bs _ (Nat.succ.inj h) hle
      refine ⟨?_, hlast⟩
      rw [addLoop]
      dsimp only
      rw [value_cons, value_cons, value_cons, List.length_cons, Nat.mul_succ, pow_add]
      linear_combination hword + 2 ^ 32 * hrest

theorem add_spec (a b : Num n) :
    (multiprecisionAdd a b).1.val + 2 ^ (32 * n) * (multiprecisionAdd a b).2.toNat =
      a.val + b.val ∧ (multiprecisionAdd a b).2.toNat ≤ 1 := by
  have h := addLoop_spec a.words b.words 0 (a.length_words.trans b.length_words.symm) (Nat.zero_le 1)
  rw [a.length_words] at h
  exact h

/-- One word of a difference. -/
theorem sub_word (a b borrow : Word) (h : borrow.toNat ≤ 1) :
    (a - borrow - b).toNat + b.toNat + borrow.toNat = a.toNat + 2 ^ 32 *
        (flag (a - borrow > a) ||| flag (a - borrow - b > a - borrow)).toNat ∧
    (flag (a - borrow > a) ||| flag (a - borrow - b > a - borrow)).toNat ≤ 1 := by
  have ha := a.isLt
  have hb := b.isLt
  rw [BitVec.toNat_or, toNat_flag, toNat_flag]
  simp only [gt_iff_lt, BitVec.lt_def, BitVec.toNat_sub]
  split <;> split <;> simp <;> omega

theorem subLoop_spec (as bs : List Word) (borrow : Word) (h : as.length = bs.length)
    (hborrow : borrow.toNat ≤ 1) :
    value (subLoop as bs borrow).1 + value bs + borrow.toNat =
      value as + 2 ^ (32 * as.length) * (subLoop as bs borrow).2.toNat ∧
    (subLoop as bs borrow).2.toNat ≤ 1 := by
  induction as generalizing bs borrow with
  | nil =>
    cases bs with
    | nil => exact ⟨by simp [subLoop], hborrow⟩
    | cons b bs => cases h
  | cons a as ih =>
    cases bs with
    | nil => cases h
    | cons b bs =>
      obtain ⟨hword, hle⟩ := sub_word a b borrow hborrow
      obtain ⟨hrest, hlast⟩ := ih bs _ (Nat.succ.inj h) hle
      refine ⟨?_, hlast⟩
      rw [subLoop]
      dsimp only
      rw [value_cons, value_cons, value_cons, List.length_cons, Nat.mul_succ, pow_add]
      linear_combination hword + 2 ^ 32 * hrest

theorem sub_spec (a b : Num n) :
    (multiprecisionSub a b).1.val + b.val =
      a.val + 2 ^ (32 * n) * (multiprecisionSub a b).2.toNat ∧
    (multiprecisionSub a b).2.toNat ≤ 1 := by
  have h := subLoop_spec a.words b.words 0 (a.length_words.trans b.length_words.symm) (Nat.zero_le 1)
  rw [a.length_words] at h
  exact h

/-- What has been added is taken away again, and what was carried is borrowed. -/
theorem sub_add_cancel_num (a b : Num n) :
    multiprecisionSub (multiprecisionAdd a b).1 b = (a, (multiprecisionAdd a b).2) := by
  obtain ⟨hadd, hcarry⟩ := add_spec a b
  obtain ⟨hsub, hborrow⟩ := sub_spec (multiprecisionAdd a b).1 b
  have ha := a.val_lt
  have hlt := (multiprecisionSub (multiprecisionAdd a b).1 b).1.val_lt
  have hsame : (multiprecisionSub (multiprecisionAdd a b).1 b).2.toNat =
      (multiprecisionAdd a b).2.toNat := by
    rcases Nat.le_one_iff_eq_zero_or_eq_one.mp hcarry with h | h <;>
      rcases Nat.le_one_iff_eq_zero_or_eq_one.mp hborrow with h' | h' <;>
        rw [h] at hadd <;> rw [h'] at hsub <;> omega
  refine Prod.ext (Num.ext_val ?_) (BitVec.eq_of_toNat_eq hsame)
  rw [hsame] at hsub
  dsimp only
  omega

/-- The bit of the word above becomes the highest one. -/
theorem rshift_word (x y : Word) :
    ((x >>> 1) ||| (y <<< 31)).toNat = x.toNat / 2 + 2 ^ 31 * (y.toNat % 2) := by
  have hx := x.isLt
  have hshift : y.toNat <<< 31 % 2 ^ 32 = (y.toNat % 2) <<< 31 := by
    rw [Nat.shiftLeft_eq, Nat.shiftLeft_eq]
    omega
  rw [BitVec.toNat_or, BitVec.toNat_ushiftRight, BitVec.toNat_shiftLeft, hshift, Nat.or_comm,
    ← Nat.shiftLeft_add_eq_or_of_lt (by rw [Nat.shiftRight_eq_div_pow]; omega),
    Nat.shiftLeft_eq, Nat.shiftRight_eq_div_pow]
  omega

theorem rshiftLoop_spec (as : List Word) : value (rshiftLoop as).1 = value as / 2 ∧
    (rshiftLoop as).2.toNat = 2 ^ 31 * (value as % 2) := by
  induction as with
  | nil => exact ⟨rfl, rfl⟩
  | cons a as ih =>
    have hcarrier : (a <<< 31).toNat = 2 ^ 31 * (a.toNat % 2) := by
      rw [BitVec.toNat_shiftLeft, Nat.shiftLeft_eq]
      omega
    have hfirst : ((a >>> 1) ||| (rshiftLoop as).2).toNat = a.toNat / 2 + 2 ^ 31 * (value as % 2) := by
      cases as with
      | nil => simp [rshiftLoop, Nat.shiftRight_eq_div_pow]
      | cons b bs => rw [value_mod_two (by decide)]; exact rshift_word a b
    rw [rshiftLoop]
    dsimp only
    rw [value_cons, value_cons, hfirst, hcarrier, ih.1]
    omega

theorem rshift_val (a : Num n) : (multiprecisionRshift a).val = a.val / 2 :=
  (rshiftLoop_spec a.words).1

theorem lshift_word (x carrier : Word) (h : carrier.toNat ≤ 1) :
    ((x <<< 1) ||| carrier).toNat + 2 ^ 32 * (x >>> 31).toNat = 2 * x.toNat + carrier.toNat ∧
      (x >>> 31).toNat ≤ 1 := by
  have hx := x.isLt
  have hshift : x.toNat <<< 1 % 2 ^ 32 = (x.toNat % 2 ^ 31) <<< 1 := by
    rw [Nat.shiftLeft_eq, Nat.shiftLeft_eq]
    omega
  rw [BitVec.toNat_or, BitVec.toNat_shiftLeft, BitVec.toNat_ushiftRight, hshift,
    ← Nat.shiftLeft_add_eq_or_of_lt (by omega), Nat.shiftLeft_eq, Nat.shiftRight_eq_div_pow]
  omega

theorem lshiftLoop_spec (as : List Word) (carrier : Word) (h : carrier.toNat ≤ 1) :
    value (lshiftLoop as carrier).1 + 2 ^ (32 * as.length) * (lshiftLoop as carrier).2.toNat =
      2 * value as + carrier.toNat ∧ (lshiftLoop as carrier).2.toNat ≤ 1 := by
  induction as generalizing carrier with
  | nil => exact ⟨by simp [lshiftLoop], h⟩
  | cons a as ih =>
    obtain ⟨hword, hle⟩ := lshift_word a carrier h
    obtain ⟨hrest, hlast⟩ := ih _ hle
    refine ⟨?_, hlast⟩
    rw [lshiftLoop]
    dsimp only
    rw [value_cons, value_cons, List.length_cons, Nat.mul_succ, pow_add]
    linear_combination hword + 2 ^ 32 * hrest

theorem lshift_spec (a : Num n) :
    (multiprecisionLshift a).1.val + 2 ^ (32 * n) * (multiprecisionLshift a).2.toNat = 2 * a.val ∧
      (multiprecisionLshift a).2.toNat ≤ 1 := by
  have h := lshiftLoop_spec a.words 0 (Nat.zero_le 1)
  rw [a.length_words] at h
  exact h

/-- One word of a row: the product, what is carried in and what has been there before. -/
theorem mult_word (a b c U : Word) :
    (a * b + U + c).toNat + 2 ^ 32 * (flag (a * b + U < U) +
        ((a.setWidth 64 * b.setWidth 64 : BitVec 64) >>> 32).setWidth 32 +
          flag (a * b + U + c < c)).toNat = a.toNat * b.toNat + U.toNat + c.toNat := by
  have ha := a.isLt
  have hb := b.isLt
  have hc := c.isLt
  have hU := U.isLt
  have hproduct : a.toNat * b.toNat ≤ (2 ^ 32 - 1) * (2 ^ 32 - 1) :=
    Nat.mul_le_mul (by omega) (by omega)
  have hwide : (a.setWidth 64 * b.setWidth 64 : BitVec 64).toNat = a.toNat * b.toNat := by
    rw [BitVec.toNat_mul, BitVec.toNat_setWidth, BitVec.toNat_setWidth,
      Nat.mod_eq_of_lt (show a.toNat < 2 ^ 64 by omega),
      Nat.mod_eq_of_lt (show b.toNat < 2 ^ 64 by omega),
      Nat.mod_eq_of_lt (show a.toNat * b.toNat < 2 ^ 64 by omega)]
  have hhigh : (((a.setWidth 64 * b.setWidth 64 : BitVec 64) >>> 32).setWidth 32).toNat =
      a.toNat * b.toNat / 2 ^ 32 := by
    rw [BitVec.toNat_setWidth, BitVec.toNat_ushiftRight, hwide, Nat.shiftRight_eq_div_pow]
    exact Nat.mod_eq_of_lt (by omega)
  simp only [BitVec.toNat_add, toNat_flag, hhigh, BitVec.lt_def, BitVec.toNat_mul]
  generalize a.toNat * b.toNat = product at hproduct
  split <;> split <;> omega

theorem multRow_spec (a : Word) (bs cs : List Word) (U : Word) (h : cs.length = bs.length) :
    value (multRow a bs cs U).1 + 2 ^ (32 * bs.length) * (multRow a bs cs U).2.toNat =
      a.toNat * value bs + value cs + U.toNat := by
  induction bs generalizing cs U with
  | nil =>
    cases cs with
    | nil => simp [multRow]
    | cons c cs => cases h
  | cons b bs ih =>
    cases cs with
    | nil => cases h
    | cons c cs =>
      have hword := mult_word a b c U
      have hrest := ih cs (flag (a * b + U < U) +
        ((a.setWidth 64 * b.setWidth 64 : BitVec 64) >>> 32).setWidth 32 +
          flag (a * b + U + c < c)) (Nat.succ.inj h)
      rw [multRow]
      dsimp only
      rw [value_cons, value_cons, value_cons, List.length_cons, Nat.mul_succ, pow_add]
      linear_combination hword + 2 ^ 32 * hrest

theorem multLoop_spec (as bs cs : List Word) (h : cs.length = bs.length) :
    value (multLoop as bs cs) = value as * value bs + value cs := by
  induction as generalizing cs with
  | nil => rw [multLoop, value_nil, Nat.zero_mul, Nat.zero_add]
  | cons a as ih =>
    have hlength := length_multRow a bs cs 0 h
    have hrow := multRow_spec a bs cs 0 h
    have hjoined := value_append (multRow a bs cs 0).1 [(multRow a bs cs 0).2]
    rw [hlength, value_cons, value_nil, Nat.mul_zero, Nat.add_zero] at hjoined
    rw [multLoop]
    match hwords : (multRow a bs cs 0).1 ++ [(multRow a bs cs 0).2] with
    | [] => simp at hwords
    | c :: cs' =>
      have hcount := congrArg List.length hwords
      rw [List.length_append, hlength, List.length_singleton, List.length_cons] at hcount
      rw [hwords, value_cons] at hjoined
      have hzero : (0 : Word).toNat = 0 := rfl
      dsimp only
      rw [value_cons, ih cs' (Nat.succ.inj hcount).symm, value_cons]
      rw [hzero] at hrow
      linear_combination hjoined + hrow

/-- The product is exact, for every length. -/
theorem mult_val (a b : Num n) : (multiprecisionMult a b).val = a.val * b.val := by
  have h := multLoop_spec a.words b.words (List.replicate n 0)
    (List.length_replicate.trans b.length_words.symm)
  rw [value_replicate_zero, Nat.add_zero] at h
  exact h

end Uwe5631.P256
