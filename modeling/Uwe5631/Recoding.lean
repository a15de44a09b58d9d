import Uwe5631.ModularInverse
import Mathlib

/-!
# The non-adjacent form

`ECC_NAF` writes a number with the digits `0`, `1` and `-1`, from the lowest; the last one stands as
`3`.
-/
namespace Uwe5631.P256
open Limbs WhileLoops

/-- `k[0]` plus one, and the next word as long as one overflows. -/
def incrementWords : List Word → List Word
  | [] => []
  | w :: ws => if w + 1 = 0 then (w + 1) :: incrementWords ws else (w + 1) :: ws

theorem length_incrementWords (ws : List Word) : (incrementWords ws).length = ws.length := by
  induction ws with
  | nil => rfl
  | cons w ws ih =>
    rw [incrementWords]
    split
    · exact congrArg (· + 1) ih
    · rfl

def increment (k : Num 8) : Num 8 :=
  ⟨incrementWords k.words, (length_incrementWords _).trans k.length_words⟩

/-- `k[0] = k[0] & 0xFFFFFFFE` -/
def clearLowest (k : Num 8) : Num 8 :=
  ⟨k.words.set 0 (k.word 0 &&& 0xFFFFFFFE), List.length_set.trans k.length_words⟩

/-- The number that is left and the digits that are written, the last one behind the others. -/
structure Naf where
  k : Num 8
  naf : List Word

def nafSign (k : Num 8) : Word := if k.isOdd then k.word 0 &&& 3 else 0

/-- A round of the loop of `ECC_NAF`. -/
def Naf.round (s : Naf) : Naf :=
  let k :=
    if s.k.isOdd then (if nafSign s.k = 1 then clearLowest s.k else increment s.k) else s.k
  ⟨multiprecisionRshift k, s.naf ++ [nafSign s.k]⟩

/-- `ECC_NAF` -/
def eccNaf (k : Num 8) : Option (List Word) :=
  (whileLoop (fun s => decide (1 ≤ multiprecisionMostSignbits s.k)) (fun s : Naf => some s.round)
    fuel ⟨k, []⟩).map Naf.naf

/-- What a digit stands for. -/
def signValue (sign : Word) : ℤ := if sign = 1 then 1 else if sign = 3 then -1 else 0

/-- The number that digits stand for, the lowest first. -/
def nafValue : List Word → ℤ
  | [] => 0
  | sign :: signs => signValue sign + 2 * nafValue signs

theorem nafValue_append (xs ys : List Word) :
    nafValue (xs ++ ys) = nafValue xs + 2 ^ xs.length * nafValue ys := by
  induction xs with
  | nil => simp [nafValue]
  | cons x xs ih =>
    rw [List.cons_append, nafValue, nafValue, ih, List.length_cons, pow_succ]
    ring

theorem value_incrementWords (ws : List Word) (h : value ws + 1 < 2 ^ (32 * ws.length)) :
    value (incrementWords ws) = value ws + 1 := by
  induction ws with
  | nil => simp at h
  | cons w ws ih =>
    have hw := w.isLt
    rw [List.length_cons, Nat.mul_succ, pow_add, value_cons] at h
    have hstep : (w + 1).toNat = (w.toNat + 1) % 2 ^ 32 := by
      rw [BitVec.toNat_add]
      rfl
    rw [incrementWords]
    split
    next hzero =>
      rw [hzero, show (0 : Word).toNat = 0 from rfl] at hstep
      rw [hzero, value_cons, value_cons, ih (by omega), show (0 : Word).toNat = 0 from rfl]
      omega
    next hne =>
      rw [BitVec.toNat_eq, show (0 : Word).toNat = 0 from rfl] at hne
      rw [value_cons, value_cons]
      omega

theorem increment_val {k : Num 8} (h : k.val + 1 < 2 ^ 256) : (increment k).val = k.val + 1 := by
  refine value_incrementWords k.words ?_
  rw [k.length_words]
  exact h

theorem word_zero_mod (k : Num 8) {m : ℕ} (hm : m ∣ 2 ^ 32) :
    k.val % m = (k.word 0).toNat % m := by
  obtain ⟨words, hlength⟩ := k
  match words with
  | [] => cases hlength
  | w :: ws =>
    obtain ⟨l, hl⟩ := hm
    rw [Num.val, Num.word, value_cons, List.getD_cons_zero, hl, mul_assoc,
      Nat.add_mul_mod_self_left]

theorem toNat_and_three (w : Word) : (w &&& 3).toNat = w.toNat % 4 := by
  rw [BitVec.toNat_and]
  exact Nat.and_two_pow_sub_one_eq_mod _ 2

theorem toNat_and_even (w : Word) : (w &&& 0xFFFFFFFE).toNat = 2 * (w.toNat / 2) := by
  have hw := w.isLt
  have hshift : w &&& ~~~1#32 = (w >>> 1) <<< 1 := by
    ext i hi
    rw [BitVec.getElem_and, BitVec.getElem_not, BitVec.getElem_one]
    cases i with
    | zero => simp
    | succ i => simp [Nat.add_comm 1 i, BitVec.getLsbD_eq_getElem hi]
  rw [show (0xFFFFFFFE : Word) = ~~~1#32 from rfl, hshift, BitVec.toNat_shiftLeft,
    BitVec.toNat_ushiftRight, Nat.shiftLeft_eq, Nat.shiftRight_eq_div_pow]
  omega

theorem clearLowest_val {k : Num 8} (h : k.isOdd = true) : (clearLowest k).val + 1 = k.val := by
  rw [isOdd_iff, word_zero_mod k (by decide)] at h
  have hclear := toNat_and_even (k.word 0)
  have hset := value_set k.words (i := 0) (by rw [k.length_words]; decide) (k.word 0 &&& 0xFFFFFFFE)
  rw [Nat.mul_zero, pow_zero, one_mul, one_mul, ← Num.word] at hset
  rw [Num.val, Num.val, clearLowest]
  dsimp only
  omega

theorem nafSign_of_even {k : Num 8} (h : k.isOdd = false) : nafSign k = 0 := by
  rw [nafSign, h]
  rfl

/-- The digit of an odd number is `1` or `3`, as it is modulo four. -/
theorem nafSign_of_odd {k : Num 8} (h : k.isOdd = true) :
    (nafSign k = 1 ∧ k.val % 4 = 1) ∨ (nafSign k = 3 ∧ k.val % 4 = 3) := by
  have hmod := word_zero_mod k (m := 4) (by decide)
  have hthree := toNat_and_three (k.word 0)
  rw [isOdd_iff] at h
  rw [nafSign, if_pos ((isOdd_iff k).mpr h), BitVec.toNat_eq, BitVec.toNat_eq, hthree,
    show (1 : Word).toNat = 1 from rfl, show (3 : Word).toNat = 3 from rfl]
  omega

/-- What a round takes from the number is its digit, and a digit that is not zero leaves an even
number. -/
theorem Naf.round_spec (s : Naf) (h : s.k.val + 1 < 2 ^ 256) :
    (s.k.val : ℤ) = signValue (nafSign s.k) + 2 * s.round.k.val ∧
      (nafSign s.k ≠ 0 → s.round.k.isOdd = false) ∧ 2 * s.round.k.val ≤ s.k.val + 1 ∧
      (s.k.val = 1 → s.round.k.val = 0) := by
  rw [Naf.round]
  dsimp only
  rw [rshift_val, isOdd_eq_false_iff, rshift_val]
  cases hodd : s.k.isOdd with
  | false =>
    have heven := (isOdd_eq_false_iff _).mp hodd
    rw [nafSign_of_even hodd, if_neg Bool.false_ne_true, show signValue 0 = 0 from rfl]
    exact ⟨by omega, fun hne => absurd rfl hne, by omega, by omega⟩
  | true =>
    rcases nafSign_of_odd hodd with ⟨hsign, hmod⟩ | ⟨hsign, hmod⟩
    · have hclear := clearLowest_val hodd
      rw [hsign, if_pos rfl, if_pos rfl, show signValue 1 = 1 from rfl]
      exact ⟨by omega, fun _ => by omega, by omega, by omega⟩
    · have hincrement := increment_val h
      rw [hsign, if_pos rfl, if_neg (by decide), hincrement, show signValue 3 = -1 from rfl]
      exact ⟨by omega, fun _ => by omega, by omega, by omega⟩

/-- What the loop keeps when it started with `n`. -/
structure Naf.Inv (n : ℕ) (s : Naf) : Prop where
  value : nafValue s.naf + 2 ^ s.naf.length * s.k.val = n
  apart : s.naf.IsChain (fun d e => d = 0 ∨ e = 0)
  last : ∀ d ∈ s.naf.getLast?, d ≠ 0 → s.k.isOdd = false
  bits : (s.naf.length ≤ 256 ∧ s.k.val ≤ 2 ^ (256 - s.naf.length)) ∨
    (s.naf.length = 257 ∧ s.k.val = 0)
  bound : s.k.val + 1 < 2 ^ 256

theorem Naf.Inv.round {n : ℕ} {s : Naf} (h : s.Inv n) (hpos : 0 < s.k.val) :
    s.round.Inv n ∧ s.round.k.val < s.k.val := by
  obtain ⟨hval, heven, hhalf, hone⟩ := s.round_spec h.bound
  have hnaf : s.round.naf = s.naf ++ [nafSign s.k] := rfl
  have hlt : s.round.k.val < s.k.val := by
    rcases Nat.lt_or_ge 1 s.k.val with hmore | hle
    · omega
    · rw [hone (by omega)]
      exact hpos
  refine ⟨⟨?_, ?_, ?_, ?_, by have := h.bound; omega⟩, hlt⟩
  · have hvalue := h.value
    rw [hnaf, nafValue_append, List.length_append, List.length_singleton, pow_succ]
    simp only [nafValue]
    rw [hval] at hvalue
    linear_combination hvalue
  · rw [hnaf, List.isChain_append]
    refine ⟨h.apart, .singleton _, fun d hd e he => ?_⟩
    obtain rfl : nafSign s.k = e := by simpa using he
    by_cases hzero : d = 0
    · exact .inl hzero
    · exact .inr (nafSign_of_even (h.last d hd hzero))
  · intro d hd hne
    rw [hnaf, List.getLast?_append, List.getLast?_singleton] at hd
    obtain rfl : nafSign s.k = d := by simpa using hd
    exact heven hne
  · rw [hnaf, List.length_append, List.length_singleton]
    rcases h.bits with ⟨hlength, hle⟩ | ⟨-, hzero⟩
    · rcases Nat.lt_or_eq_of_le hlength with hlt | heq
      · refine .inl ⟨hlt, ?_⟩
        obtain ⟨m, hm⟩ : ∃ m, 256 - s.naf.length = m + 1 := ⟨255 - s.naf.length, by omega⟩
        rw [show 256 - (s.naf.length + 1) = m by omega]
        rw [hm, pow_succ] at hle
        omega
      · rw [heq, Nat.sub_self, pow_zero] at hle
        exact .inr ⟨by rw [heq], hone (by omega)⟩
    · exact absurd hzero hpos.ne'

/-- The loop ends when nothing is left of the number. -/
theorem eccNaf_inv {k : Num 8} (h : k.val + 1 < 2 ^ 256) :
    ∃ t : Naf, eccNaf k = some t.naf ∧ t.Inv k.val ∧ t.k.val = 0 := by
  obtain ⟨t, ht, hInv, hdone, -⟩ := whileLoop_spec
    (fun s => decide (1 ≤ multiprecisionMostSignbits s.k)) (fun s : Naf => some s.round)
    (Naf.Inv k.val) (fun s => s.k.val)
    (fun s hs hcond => by
      rw [decide_eq_true_iff, Nat.one_le_iff_ne_zero, Ne, mostSignbits_eq_zero] at hcond
      exact ⟨_, rfl, hs.round (Nat.pos_of_ne_zero hcond)⟩)
    (s := ⟨k, []⟩) ⟨by simp [nafValue], .nil, by simp, .inl ⟨Nat.zero_le _, k.val_lt.le⟩, h⟩
    ((Nat.le_add_right _ _).trans_lt (val_le_fuel k k))
  rw [decide_eq_false_iff_not, Nat.one_le_iff_ne_zero, not_not, mostSignbits_eq_zero] at hdone
  exact ⟨t, by rw [eccNaf, ht, Option.map_some], hInv, hdone⟩

theorem Naf.Inv.nafValue_eq {n : ℕ} {s : Naf} (h : s.Inv n) (hzero : s.k.val = 0) :
    nafValue s.naf = n := by
  have hvalue := h.value
  rwa [hzero, Nat.cast_zero, mul_zero, add_zero] at hvalue

theorem eccNaf_value {k : Num 8} (h : k.val + 1 < 2 ^ 256) :
    ∃ naf, eccNaf k = some naf ∧ nafValue naf = k.val := by
  obtain ⟨t, ht, hInv, hzero⟩ := eccNaf_inv h
  exact ⟨t.naf, ht, hInv.nafValue_eq hzero⟩

/-- The digits stand for the number, of two that are side by side one is zero, and there are at most
as many as fit in the array. -/
theorem eccNaf_nonadjacent {k : Num 8} (h : k.val + 1 < 2 ^ 256) :
    ∃ naf, eccNaf k = some naf ∧ nafValue naf = k.val ∧
      naf.IsChain (fun d e => d = 0 ∨ e = 0) ∧ naf.length ≤ 257 := by
  obtain ⟨t, ht, hInv, hzero⟩ := eccNaf_inv h
  refine ⟨t.naf, ht, hInv.nafValue_eq hzero, hInv.apart, ?_⟩
  rcases hInv.bits with ⟨hle, -⟩ | ⟨heq, -⟩
  · omega
  · exact heq.le

theorem eccNaf_modp : ∃ naf, eccNaf modp = some naf ∧ nafValue naf = modp.val ∧
    naf.IsChain (fun d e => d = 0 ∨ e = 0) ∧ naf.length ≤ 257 :=
  eccNaf_nonadjacent (by decide +kernel)

end Uwe5631.P256
