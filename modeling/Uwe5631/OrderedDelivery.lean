import Mathlib.Data.List.Pairwise
import Mathlib.Logic.Relation

/-!
# In-order delivery of grouped items

Items arrive for positions at or after a moving base. The base advances over
positions, and on the way hands out some of the groups it passes, each group being
everything accepted for its position in the order of acceptance. The specification
makes no assumption on when and how far the base moves or which groups are withheld.
-/
namespace Uwe5631.OrderedDelivery

variable {α : Type*}

/-- The items accepted for one position, oldest first. -/
def chainAt (accepted : List (ℕ × α)) (q : ℕ) : List α :=
  (accepted.filter (fun e => decide (e.1 = q))).map Prod.snd

@[simp] theorem chainAt_append (xs ys : List (ℕ × α)) (q : ℕ) :
    chainAt (xs ++ ys) q = chainAt xs q ++ chainAt ys q := by
  simp [chainAt]

@[simp] theorem chainAt_singleton_self (q : ℕ) (a : α) : chainAt [(q, a)] q = [a] := by
  simp [chainAt]

theorem chainAt_singleton_ne {p q : ℕ} (h : p ≠ q) (a : α) : chainAt [(p, a)] q = [] := by
  simp [chainAt, h]

@[simp] theorem chainAt_map_self (q : ℕ) (as : List α) :
    chainAt (as.map (fun a => (q, a))) q = as := by
  simp [chainAt, List.filter_map, Function.comp_def]

theorem chainAt_map_ne {p q : ℕ} (h : p ≠ q) (as : List α) :
    chainAt (as.map (fun a => (p, a))) q = [] := by
  simp [chainAt, List.filter_map, Function.comp_def, h]

theorem chainAt_eq_nil {accepted : List (ℕ × α)} {q : ℕ} (h : ∀ e ∈ accepted, e.1 ≠ q) :
    chainAt accepted q = [] := by
  simp only [chainAt, List.map_eq_nil_iff, List.filter_eq_nil_iff, decide_eq_true_eq]
  exact h

/-- Increasing positions inside `[lo, hi)`. -/
structure Ascending (lo hi : ℕ) (qs : List ℕ) : Prop where
  sorted : qs.Pairwise (· < ·)
  bounds : ∀ q ∈ qs, lo ≤ q ∧ q < hi

theorem Ascending.nil (lo hi : ℕ) : Ascending lo hi [] := ⟨List.Pairwise.nil, by simp⟩

theorem Ascending.singleton (q : ℕ) : Ascending q (q + 1) [q] :=
  ⟨List.pairwise_singleton _ _, by simp⟩

theorem Ascending.append {lo mid mid' hi : ℕ} {qs rs : List ℕ} (h : Ascending lo mid qs)
    (h' : Ascending mid' hi rs) (hlo : lo ≤ mid) (hmid : mid ≤ mid') (hhi : mid' ≤ hi) :
    Ascending lo hi (qs ++ rs) := by
  refine ⟨List.pairwise_append.mpr ⟨h.sorted, h'.sorted, ?_⟩, ?_⟩
  · intro a ha b hb
    have := h.bounds a ha
    have := h'.bounds b hb
    omega
  · intro q hq
    rcases List.mem_append.mp hq with hq | hq
    · have := h.bounds q hq
      omega
    · have := h'.bounds q hq
      omega

/-- The base, everything accepted so far and the groups handed out so far. -/
structure Ledger (α : Type*) where
  base : ℕ
  accepted : List (ℕ × α)
  delivered : List (ℕ × List α)

/-- The whole group of a position. -/
def groupAt (accepted : List (ℕ × α)) (q : ℕ) : ℕ × List α := (q, chainAt accepted q)

inductive Step : Ledger α → Ledger α → Prop
  | accept (s : Ledger α) (q : ℕ) (a : α) (hq : s.base ≤ q) :
      Step s { s with accepted := s.accepted ++ [(q, a)] }
  | advance (s : Ledger α) (base : ℕ) (qs : List ℕ) (hb : s.base ≤ base)
      (hqs : Ascending s.base base qs) :
      Step s { s with
        base := base
        delivered := s.delivered ++ qs.map (groupAt s.accepted) }

/-- Any number of specification steps. -/
def Reaches : Ledger α → Ledger α → Prop := Relation.ReflTransGen Step

theorem Reaches.refl (s : Ledger α) : Reaches s s := Relation.ReflTransGen.refl

theorem Reaches.trans {a b c : Ledger α} (h : Reaches a b) (h' : Reaches b c) : Reaches a c :=
  Relation.ReflTransGen.trans h h'

theorem Reaches.of_step {a b : Ledger α} (h : Step a b) : Reaches a b :=
  Relation.ReflTransGen.single h

/-- What the specification promises about the delivered groups. -/
structure InOrder (s : Ledger α) : Prop where
  ascending : Ascending 0 s.base (s.delivered.map Prod.fst)
  complete : ∀ g ∈ s.delivered, g.2 = chainAt s.accepted g.1

theorem inOrder_start (base : ℕ) : InOrder (⟨base, [], []⟩ : Ledger α) :=
  ⟨Ascending.nil _ _, by simp⟩

theorem Step.inOrder {s t : Ledger α} (hs : InOrder s) (h : Step s t) : InOrder t := by
  cases h with
  | accept q a hq =>
    refine ⟨hs.ascending, ?_⟩
    intro g hg
    have hlt := (hs.ascending.bounds g.1 (List.mem_map_of_mem hg)).2
    rw [chainAt_append, chainAt_singleton_ne (by omega), List.append_nil]
    exact hs.complete g hg
  | advance base qs hb hqs =>
    refine ⟨?_, ?_⟩
    · have hmap : (s.delivered ++ qs.map (groupAt s.accepted)).map Prod.fst =
          s.delivered.map Prod.fst ++ qs := by
        simp [groupAt, Function.comp_def]
      rw [hmap]
      exact hs.ascending.append hqs (Nat.zero_le _) (Nat.le_refl _) hb
    · intro g hg
      rcases List.mem_append.mp hg with hg | hg
      · exact hs.complete g hg
      · obtain ⟨q, _, rfl⟩ := List.mem_map.mp hg
        rfl

theorem Reaches.inOrder {s t : Ledger α} (hs : InOrder s) (h : Reaches s t) : InOrder t := by
  induction h with
  | refl => exact hs
  | tail _ hstep ih => exact hstep.inOrder ih

end Uwe5631.OrderedDelivery
