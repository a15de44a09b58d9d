import Mathlib.Data.List.Basic
import Mathlib.Algebra.Order.Ring.Nat
import Mathlib.Tactic.Ring

/-!
# Sums in ones' complement

16-bit words are added with the carry put back at the low end. The sum is a residue modulo 65535, of
which 0 stands for the empty sum only.
-/
namespace Uwe5631.OnesComplement

/-- Two words with the carry put back. -/
def add (a b : ℕ) : ℕ := if a + b < 65536 then a + b else a + b - 65535

def sum (ws : List ℕ) : ℕ := ws.foldl add 0

/-- A word that is the sum of a number of ones: the same residue, and 0 only for 0. -/
structure Folds (s : ℕ) (total : ℕ) : Prop where
  lt : s < 65536
  mod : s % 65535 = total % 65535
  zero : s = 0 ↔ total = 0

theorem Folds.unique {s t total : ℕ} (hs : Folds s total) (ht : Folds t total) : s = t := by
  have hmod := hs.mod.trans ht.mod.symm
  have hzero := hs.zero.trans ht.zero.symm
  have hslt := hs.lt
  have htlt := ht.lt
  omega

theorem Folds.add {s total w : ℕ} (h : Folds s total) (hw : w < 65536) :
    Folds (add s w) (total + w) := by
  obtain ⟨hlt, hmod, hzero⟩ := h
  rw [OnesComplement.add]
  split
  · exact ⟨by omega, by omega, by omega⟩
  · exact ⟨by omega, by omega, by omega⟩

theorem foldl_folds (ws : List ℕ) (hws : ∀ w ∈ ws, w < 65536) {s total : ℕ}
    (h : Folds s total) : Folds (ws.foldl add s) (total + ws.sum) := by
  induction ws generalizing s total with
  | nil => exact h
  | cons w ws ih =>
    rw [List.forall_mem_cons] at hws
    rw [List.foldl_cons, List.sum_cons, ← Nat.add_assoc]
    exact ih hws.2 (h.add hws.1)

theorem sum_folds (ws : List ℕ) (hws : ∀ w ∈ ws, w < 65536) : Folds (sum ws) ws.sum := by
  have h := foldl_folds ws hws (s := 0) ⟨by omega, rfl, Iff.rfl⟩
  rwa [Nat.zero_add] at h

/-- The sum of the two halves, twice. -/
theorem halves_folds {x : ℕ} (h : x < 2 ^ 32) :
    Folds ((x % 65536 + x / 65536) % 65536 + (x % 65536 + x / 65536) / 65536) x :=
  ⟨by omega, by omega, by omega⟩

/-- Exchanging the bytes of a word multiplies its residue by 256. -/
theorem Folds.swap {s total : ℕ} (h : Folds s total) :
    Folds (s % 256 * 256 + s / 256) (256 * total) := by
  obtain ⟨hlt, hmod, hzero⟩ := h
  refine ⟨by omega, ?_, by omega⟩
  have hmul : 256 * total % 65535 = 256 * s % 65535 := by
    rw [Nat.mul_mod, ← hmod, ← Nat.mul_mod]
  rw [hmul]
  omega

end Uwe5631.OnesComplement
