import Mathlib

/-!
# Shares along prefix sums

Numbers from 1 on are dealt out to the members of a list in runs: as many to each as its weight
says, in the order of the list.
-/
namespace Uwe5631.PrefixShares

variable {α : Type*} [DecidableEq α] {weight : α → ℕ} {xs : List α} {a : α} {count k : ℕ}

/-- The member that a number belongs to, after `count` numbers were dealt out. -/
def shareAt (weight : α → ℕ) : List α → ℕ → ℕ → Option α
  | [], _, _ => none
  | a :: xs, count, k =>
    if k ≤ count + weight a then some a else shareAt weight xs (count + weight a) k

omit [DecidableEq α] in
theorem shareAt_mem (h : shareAt weight xs count k = some a) : a ∈ xs := by
  induction xs generalizing count with
  | nil => cases h
  | cons b xs ih =>
    rw [shareAt] at h
    split at h
    · cases h
      exact List.mem_cons_self ..
    · exact List.mem_cons_of_mem b (ih h)

omit [DecidableEq α] in
/-- Within the sum of the weights every number belongs to a member. -/
theorem shareAt_isSome (hk : k ≤ count + (xs.map weight).sum) (hcount : count < k) :
    (shareAt weight xs count k).isSome := by
  induction xs generalizing count with
  | nil =>
    rw [List.map_nil, List.sum_nil] at hk
    omega
  | cons b xs ih =>
    rw [List.map_cons, List.sum_cons] at hk
    rw [shareAt]
    split
    · rfl
    · rename_i hmore
      exact ih (by omega) (by omega)

/-- Each member gets as many numbers as its weight says. -/
theorem count_shareAt (hnodup : xs.Nodup) (ha : a ∈ xs) :
    ((List.range' (count + 1) (xs.map weight).sum).map (shareAt weight xs count)).count (some a) =
      weight a := by
  induction xs generalizing count with
  | nil => cases ha
  | cons b xs ih =>
    obtain ⟨hb, hrest⟩ := List.nodup_cons.mp hnodup
    have hfirst : (List.range' (count + 1) (weight b)).map (shareAt weight (b :: xs) count) =
        List.replicate (weight b) (some b) := by
      refine List.eq_replicate_iff.mpr ⟨by simp, fun x hx => ?_⟩
      obtain ⟨k, hk, rfl⟩ := List.mem_map.mp hx
      have hbound := (List.mem_range'_1.mp hk).2
      exact if_pos (by omega)
    have hsecond : (List.range' (count + weight b + 1) (xs.map weight).sum).map
          (shareAt weight (b :: xs) count) =
        (List.range' (count + weight b + 1) (xs.map weight).sum).map
          (shareAt weight xs (count + weight b)) := by
      refine List.map_congr_left fun k hk => ?_
      have hbound := (List.mem_range'_1.mp hk).1
      exact if_neg (by omega)
    have hsplit : List.range' (count + 1) ((b :: xs).map weight).sum =
        List.range' (count + 1) (weight b) ++
          List.range' (count + weight b + 1) (xs.map weight).sum := by
      rw [List.map_cons, List.sum_cons, Nat.add_right_comm, List.range'_append_1]
    rw [hsplit, List.map_append, List.count_append, hfirst, hsecond]
    by_cases hab : a = b
    · subst hab
      have hnone : ((List.range' (count + weight a + 1) (xs.map weight).sum).map
          (shareAt weight xs (count + weight a))).count (some a) = 0 := by
        refine List.count_eq_zero.mpr fun hmem => ?_
        obtain ⟨k, -, hk⟩ := List.mem_map.mp hmem
        exact hb (shareAt_mem hk)
      rw [hnone, List.count_replicate_self, Nat.add_zero]
    · have hmem : a ∈ xs := (List.mem_cons.mp ha).resolve_left hab
      have hzero : (List.replicate (weight b) (some b)).count (some a) = 0 := by
        refine List.count_eq_zero.mpr fun hmem => hab ?_
        exact Option.some.inj (List.eq_of_mem_replicate hmem)
      rw [hzero, ih hrest hmem, Nat.zero_add]

end Uwe5631.PrefixShares
