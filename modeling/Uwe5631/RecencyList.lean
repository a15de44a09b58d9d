import Mathlib

/-!
# Lists ordered by recency

The members of a list are moved to its head when they are taken into use and to its tail
when they are done with. The first member that meets a condition stays the first when another is
moved out of its way, and a rank that falls from head to tail tells which comes last.
-/
namespace Uwe5631.RecencyList

variable {α : Type*} [DecidableEq α] {l : List α} {a b : α}

def moveToHead (a : α) (l : List α) : List α := a :: l.erase a

def moveToTail (a : α) (l : List α) : List α := l.erase a ++ [a]

theorem moveToHead_perm (h : a ∈ l) : (moveToHead a l).Perm l :=
  (List.perm_cons_erase h).symm

theorem moveToTail_perm (h : a ∈ l) : (moveToTail a l).Perm l :=
  (List.perm_append_singleton a _).trans (List.perm_cons_erase h).symm

/-- Moving the first member to the head changes nothing. -/
theorem moveToHead_head (h : l.head? = some a) : moveToHead a l = l := by
  cases l with
  | nil => cases h
  | cons b bs =>
    cases h
    simp [moveToHead]

theorem moveToTail_last (hl : l.Nodup) (h : l.getLast? = some a) : moveToTail a l = l := by
  obtain ⟨bs, rfl⟩ := List.getLast?_eq_some_iff.mp h
  have hnot : a ∉ bs := by
    intro ha
    exact (List.nodup_append.mp hl).2.2 a ha a (List.mem_singleton_self a) rfl
  simp [moveToTail, List.erase_append_right _ hnot]

/-! ## The first member that meets a condition -/

variable {p : α → Bool}

theorem find_erase (h : l.find? p = some b) (hne : b ≠ a) : (l.erase a).find? p = some b := by
  obtain ⟨hpb, xs, ys, rfl, hxs⟩ := List.find?_eq_some_iff_append.mp h
  refine List.find?_eq_some_iff_append.mpr ⟨hpb, ?_⟩
  by_cases ha : a ∈ xs
  · refine ⟨xs.erase a, ys, by rw [List.erase_append_left _ ha], fun c hc => ?_⟩
    exact hxs c (List.mem_of_mem_erase hc)
  · refine ⟨xs, ys.erase a, ?_, hxs⟩
    rw [List.erase_append_right _ ha, List.erase_cons_tail (by simpa using hne)]

theorem find_moveToTail_ne (h : l.find? p = some b) (hne : b ≠ a) :
    (moveToTail a l).find? p = some b := by
  rw [moveToTail, List.find?_append, find_erase h hne]
  rfl

/-- A change at one member moves the total over all by the change there. -/
theorem sum_update (w w' : α → ℕ) (hl : l.Nodup) (ha : a ∈ l) (hw : ∀ b, b ≠ a → w' b = w b) :
    (l.map w').sum + w a = (l.map w).sum + w' a := by
  rw [← List.sum_map_erase w ha, ← List.sum_map_erase w' ha]
  have hrest : (l.erase a).map w' = (l.erase a).map w :=
    List.map_congr_left fun b hb => hw b ((hl.mem_erase_iff).mp hb).1
  rw [hrest]
  omega

/-! ## Ranks -/

/-- The rank falls from the head to the tail. -/
def Ranked (rank : α → ℤ) (l : List α) : Prop := l.Pairwise fun a b => rank b ≤ rank a

variable {rank : α → ℤ} {n : ℤ}

omit [DecidableEq α] in
theorem Ranked.congr {rank' : α → ℤ} (h : Ranked rank l) (heq : ∀ b ∈ l, rank' b = rank b) :
    Ranked rank' l := by
  refine List.Pairwise.imp_of_mem (fun hx hy hxy => ?_) h
  rw [heq _ hx, heq _ hy]
  exact hxy

/-- A member taken into use is ranked at the top. -/
theorem Ranked.moveToHead (h : Ranked rank l) (hl : l.Nodup) (htop : ∀ b ∈ l, rank b ≤ n) :
    Ranked (Function.update rank a n) (moveToHead a l) := by
  refine List.pairwise_cons.mpr ⟨fun b hb => ?_, ?_⟩
  · obtain ⟨hne, hmem⟩ := (hl.mem_erase_iff).mp hb
    rw [Function.update_self, Function.update_of_ne hne]
    exact htop b hmem
  · refine Ranked.congr (h.sublist List.erase_sublist) fun b hb => ?_
    exact Function.update_of_ne ((hl.mem_erase_iff).mp hb).1 ..

/-- A member done with is ranked at the bottom. -/
theorem Ranked.moveToTail (h : Ranked rank l) (hl : l.Nodup) (hbot : ∀ b ∈ l, n ≤ rank b) :
    Ranked (Function.update rank a n) (moveToTail a l) := by
  refine List.pairwise_append.mpr ⟨?_, List.pairwise_singleton _ a, fun b hb c hc => ?_⟩
  · refine Ranked.congr (h.sublist List.erase_sublist) fun b hb => ?_
    exact Function.update_of_ne ((hl.mem_erase_iff).mp hb).1 ..
  · obtain ⟨hne, hmem⟩ := (hl.mem_erase_iff).mp hb
    rw [List.mem_singleton.mp hc, Function.update_self, Function.update_of_ne hne]
    exact hbot b hmem

omit [DecidableEq α] in
/-- The last member has the lowest rank. -/
theorem Ranked.getLast_le (h : Ranked rank l) (ha : l.getLast? = some a) (hb : b ∈ l) :
    rank a ≤ rank b := by
  obtain ⟨bs, rfl⟩ := List.getLast?_eq_some_iff.mp ha
  rcases List.mem_append.mp hb with hb | hb
  · exact (List.pairwise_append.mp h).2.2 b hb a (List.mem_singleton_self a)
  · rw [List.mem_singleton.mp hb]

end Uwe5631.RecencyList
