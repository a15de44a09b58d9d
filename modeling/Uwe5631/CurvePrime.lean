import Uwe5631.FastReduction
import Mathlib

/-!
# The prime of the curve

What the reduction is modulo is a prime, by a chain of Lucas tests.
-/
namespace Uwe5631

/-- A power modulo `p`, bit by bit from the highest of `k`. -/
def powMod (p a : ℕ) : ℕ → ℕ → ℕ
  | 0, _ => 1 % p
  | k + 1, e =>
    let root := powMod p a k (e / 2)
    if e % 2 = 0 then root * root % p else root * root % p * a % p

theorem powMod_eq {p a k e : ℕ} (h : e < 2 ^ k) : powMod p a k e = a ^ e % p := by
  induction k generalizing e with
  | zero =>
    obtain rfl : e = 0 := by omega
    rfl
  | succ k ih =>
    have hsquare : (a ^ (e / 2) % p) * (a ^ (e / 2) % p) % p = a ^ (2 * (e / 2)) % p := by
      rw [← Nat.mul_mod, ← pow_add, two_mul]
    rw [powMod, ih (by omega), hsquare]
    split
    · rw [show 2 * (e / 2) = e by omega]
    · rw [Nat.mod_mul_mod, ← pow_succ, show 2 * (e / 2) + 1 = e by omega]

/-- Lucas's test, with the factors of `p - 1`, on powers of `k` bits. -/
def lucasTest (p a k : ℕ) (factors : List (ℕ × ℕ)) : Bool :=
  decide (1 < p ∧ p < 2 ^ k ∧ (factors.map fun f => f.1 ^ f.2).prod = p - 1 ∧
    powMod p a k (p - 1) = 1 ∧ ∀ f ∈ factors, powMod p a k ((p - 1) / f.1) ≠ 1)

theorem prime_of_lucas {p : ℕ} (a k : ℕ) (factors : List (ℕ × ℕ))
    (htest : lucasTest p a k factors = true) (hfactors : ∀ f ∈ factors, f.1.Prime) : p.Prime := by
  obtain ⟨hp, hk, hproduct, hone, hne⟩ := of_decide_eq_true htest
  have hpow : ∀ e ≤ p - 1, (a : ZMod p) ^ e = 1 ↔ powMod p a k e = 1 := by
    intro e he
    rw [powMod_eq (by omega), ← Nat.cast_pow, ← Nat.cast_one, ZMod.natCast_eq_natCast_iff',
      Nat.mod_eq_of_lt hp]
  refine lucas_primality p (a : ZMod p) ((hpow _ le_rfl).mpr hone) fun q hq hdvd => ?_
  rw [← hproduct, hq.prime.dvd_prod_iff] at hdvd
  obtain ⟨m, hm, hqm⟩ := hdvd
  obtain ⟨f, hf, rfl⟩ := List.mem_map.mp hm
  have heq : q = f.1 := (Nat.prime_dvd_prime_iff_eq hq (hfactors f hf)).mp (hq.dvd_of_dvd_pow hqm)
  rw [heq, Ne, hpow _ (Nat.div_le_self _ _)]
  exact hne f hf

namespace P256

theorem prime_204061199 : Nat.Prime 204061199 := by norm_num

/-- The tests of the chain, from the smallest prime to the largest. -/
theorem lucasTests :
    lucasTest 34282281433 17 35 [(2, 3), (3, 1), (7, 1), (204061199, 1)] = true ∧
    lucasTest 66417393611 6 36 [(2, 1), (5, 1), (53, 1), (173, 1), (197, 1), (3677, 1)] = true ∧
    lucasTest 11290956913871 13 44 [(2, 1), (5, 1), (17, 1), (66417393611, 1)] = true ∧
    lucasTest 46076956964474543 5 56 [(2, 1), (23, 1), (18169, 1), (78283, 1), (704251, 1)] = true ∧
    lucasTest 774023187263532362759620327192479577272145303 3 150 [(2, 1), (3, 2), (2411, 1),
      (34282281433, 1), (11290956913871, 1), (46076956964474543, 1)] = true ∧
    lucasTest 835945042244614951780389953367877943453916927241 11 160 [(2, 3), (3, 3), (5, 1),
      (774023187263532362759620327192479577272145303, 1)] = true ∧
    lucasTest prime 6 256 [(2, 1), (3, 1), (5, 2), (17, 1), (257, 1), (641, 1), (1531, 1),
      (65537, 1), (490463, 1), (6700417, 1),
      (835945042244614951780389953367877943453916927241, 1)] = true := by
  decide +kernel

theorem prime_34282281433 : Nat.Prime 34282281433 :=
  prime_of_lucas 17 35 _ lucasTests.1 (by
    simp only [List.forall_mem_cons]
    exact ⟨by norm_num, by norm_num, by norm_num, prime_204061199, List.forall_mem_nil _⟩)

theorem prime_66417393611 : Nat.Prime 66417393611 :=
  prime_of_lucas 6 36 _ lucasTests.2.1 (by
    simp only [List.forall_mem_cons]
    exact ⟨by norm_num, by norm_num, by norm_num, by norm_num, by norm_num, by norm_num,
        List.forall_mem_nil _⟩)

theorem prime_11290956913871 : Nat.Prime 11290956913871 :=
  prime_of_lucas 13 44 _ lucasTests.2.2.1 (by
    simp only [List.forall_mem_cons]
    exact ⟨by norm_num, by norm_num, by norm_num, prime_66417393611, List.forall_mem_nil _⟩)

theorem prime_46076956964474543 : Nat.Prime 46076956964474543 :=
  prime_of_lucas 5 56 _ lucasTests.2.2.2.1 (by
    simp only [List.forall_mem_cons]
    exact ⟨by norm_num, by norm_num, by norm_num, by norm_num, by norm_num,
        List.forall_mem_nil _⟩)

theorem prime_factor_of_factor : Nat.Prime 774023187263532362759620327192479577272145303 :=
  prime_of_lucas 3 150 _ lucasTests.2.2.2.2.1 (by
    simp only [List.forall_mem_cons]
    exact ⟨by norm_num, by norm_num, by norm_num, prime_34282281433, prime_11290956913871,
        prime_46076956964474543, List.forall_mem_nil _⟩)

theorem prime_factor : Nat.Prime 835945042244614951780389953367877943453916927241 :=
  prime_of_lucas 11 160 _ lucasTests.2.2.2.2.2.1 (by
    simp only [List.forall_mem_cons]
    exact ⟨by norm_num, by norm_num, by norm_num, prime_factor_of_factor, List.forall_mem_nil
        _⟩)

theorem prime_prime : Nat.Prime prime :=
  prime_of_lucas 6 256 _ lucasTests.2.2.2.2.2.2 (by
    simp only [List.forall_mem_cons]
    exact ⟨by norm_num, by norm_num, by norm_num, by norm_num, by norm_num, by norm_num, by
        norm_num, by norm_num, by norm_num, by norm_num, prime_factor, List.forall_mem_nil _⟩)

instance : Fact (Nat.Prime prime) := ⟨prime_prime⟩

end P256

end Uwe5631
