import Mathlib.Data.Nat.Bitwise
import Mathlib.Tactic.Ring

/-!
# Twelve-bit sequence numbers

The macros and comparisons of `rx_msg.h`. Sequence numbers name positions on an
unbounded line modulo 4096; the comparisons are decided on the numbers alone and
agree with the order of positions that are at most half the circle apart.
-/
namespace Uwe5631

/-- `SEQNO_ADD`: the sum is an `int`, `& SEQNO_MASK` keeps its low twelve bits. -/
def seqnoAdd (seq1 seq2 : ℤ) : ℕ := ((seq1 + seq2) % 4096).toNat

/-- `SEQNO_SUB`: the difference may be negative before it is masked. -/
def seqnoSub (seq1 seq2 : ℤ) : ℕ := ((seq1 - seq2) % 4096).toNat

/-- `seqno_leq`, with `MAX_SEQNO_BY_TWO` for half the circle. -/
def seqnoLeq (seq1 seq2 : ℕ) : Bool :=
  decide ((seq1 ≤ seq2 ∧ seq2 - seq1 < 2048) ∨ (seq2 < seq1 ∧ 2048 ≤ seq1 - seq2))

/-- `seqno_geq` -/
def seqnoGeq (seq1 seq2 : ℕ) : Bool := seqnoLeq seq2 seq1

theorem seqnoAdd_lt (a b : ℤ) : seqnoAdd a b < 4096 := by
  rw [seqnoAdd]
  omega

theorem seqnoSub_lt (a b : ℤ) : seqnoSub a b < 4096 := by
  rw [seqnoSub]
  omega

theorem seqnoAdd_position (p n : ℕ) : seqnoAdd (p % 4096 : ℕ) n = (p + n) % 4096 := by
  rw [seqnoAdd]
  omega

theorem seqnoSub_position {p q : ℕ} (h : p ≤ q) (h' : q < p + 4096) :
    seqnoSub (q % 4096 : ℕ) (p % 4096 : ℕ) = q - p := by
  rw [seqnoSub]
  omega

/-- The position a sequence number names, counted from the position `p`. -/
theorem position_of_seqno (p : ℕ) {seq : ℕ} (hs : seq < 4096) :
    (p + seqnoSub seq (p % 4096 : ℕ)) % 4096 = seq := by
  rw [seqnoSub]
  omega

theorem seqnoSub_le_of_geq {p seq : ℕ} (hs : seq < 4096)
    (h : seqnoGeq seq (p % 4096) = true) : seqnoSub seq (p % 4096 : ℕ) ≤ 2048 := by
  simp only [seqnoGeq, seqnoLeq, decide_eq_true_eq] at h
  rw [seqnoSub]
  omega

/-- Inside the window the upper end is not exceeded. -/
theorem seqnoLeq_limit {p w seq : ℕ} (hs : seq < 4096) (hw : 1 ≤ w) (hw' : w ≤ 2048)
    (hge : seqnoGeq seq (p % 4096) = true) :
    seqnoLeq seq ((p + w - 1) % 4096) = true ↔ seqnoSub seq (p % 4096 : ℕ) < w := by
  simp only [seqnoGeq, seqnoLeq, decide_eq_true_eq] at hge ⊢
  rw [seqnoSub]
  omega

/-- A position less than half the circle behind the base is older than it. -/
theorem not_seqnoGeq_of_behind {p q : ℕ} (h : q < p) (h' : p < q + 2048) :
    seqnoGeq (q % 4096) (p % 4096) = false := by
  simp only [seqnoGeq, seqnoLeq, decide_eq_false_iff_not]
  omega

theorem seqnoGeq_zero {seq : ℕ} : seqnoGeq seq 0 = true ↔ seq < 2048 := by
  simp only [seqnoGeq, seqnoLeq, decide_eq_true_eq]
  omega

/-- `seq & index_mask` for a mask one below a power of two. -/
theorem land_indexMask {k mask : ℕ} (h : mask + 1 = 2 ^ k) (seq : ℕ) :
    seq &&& mask = seq % 2 ^ k := by
  have hm : mask = 2 ^ k - 1 := by omega
  rw [hm, Nat.and_two_pow_sub_one_eq_mod]

theorem two_pow_dvd_4096 {k : ℕ} (h : k ≤ 12) : 2 ^ k ∣ 4096 := by
  have h12 : (4096 : ℕ) = 2 ^ 12 := by norm_num
  rw [h12]
  exact Nat.pow_dvd_pow 2 h

/-- Numbers that agree modulo 4096 share a slot. -/
theorem slot_eq_of_seqno_eq {k mask seq q : ℕ} (hk : k ≤ 12) (h : mask + 1 = 2 ^ k)
    (he : seq % 4096 = q % 4096) : seq &&& mask = q % 2 ^ k := by
  rw [land_indexMask h, ← Nat.mod_mod_of_dvd seq (two_pow_dvd_4096 hk), he,
    Nat.mod_mod_of_dvd q (two_pow_dvd_4096 hk)]

end Uwe5631
