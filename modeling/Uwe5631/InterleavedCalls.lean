import Mathlib
import Uwe5631.FallibleRuns

/-!
# Interleaved calls on a shared state

Several calls are in progress on one shared state. Each is at a control point of its own
and takes one atomic action at a time, in any order. A call may own a resource; what is
asserted of a call at its control point has to survive the actions of all others.
-/
namespace Uwe5631.InterleavedCalls
open FallibleRuns

variable {σ γ φ ρ : Type*}

/-- A shared state and the calls in progress on it. -/
structure System (σ γ : Type*) where
  shared : σ
  calls : List γ
  deriving DecidableEq

/-- The calls after the `k`-th has taken an action; `none` if it has returned. -/
def settle (calls : List γ) (k : ℕ) : Option γ → List γ
  | some c => calls.set k c
  | none => calls.eraseIdx k

/-- Let the `k`-th call take one action. -/
def advance (act : σ → γ → Except φ (σ × Option γ)) (k : ℕ) (s : System σ γ) :
    Except φ (System σ γ) :=
  match s.calls[k]? with
  | some c => (act s.shared c).map fun r => ⟨r.1, settle s.calls k r.2⟩
  | none => .ok s

variable {act : σ → γ → Except φ (σ × Option γ)} {k : ℕ} {s s' : System σ γ} {calls : List γ}
  {c : γ} {r : Option γ}

/-- What advancing a call can do. -/
theorem advance_cases (h : advance act k s = .ok s') :
    s' = s ∧ s.calls[k]? = none ∨
      ∃ c r, s.calls[k]? = some c ∧ act s.shared c = .ok (s'.shared, r) ∧
        s'.calls = settle s.calls k r := by
  cases hk : s.calls[k]? with
  | none =>
    rw [advance, hk] at h
    cases h
    exact Or.inl ⟨rfl, rfl⟩
  | some c =>
    rw [advance, hk] at h
    obtain ⟨r, hr, rfl⟩ := map_eq_ok.mp h
    exact Or.inr ⟨c, r.2, rfl, hr, rfl⟩

theorem eq_splice (hk : calls[k]? = some c) :
    calls = calls.take k ++ c :: calls.drop (k + 1) := by
  obtain ⟨hlt, rfl⟩ := List.getElem?_eq_some_iff.mp hk
  rw [← List.drop_eq_getElem_cons hlt, List.take_append_drop]

/-- One member makes way for what the action leaves of it. -/
theorem settle_eq (hk : calls[k]? = some c) :
    settle calls k r = calls.take k ++ (r.toList ++ calls.drop (k + 1)) := by
  have hlt := (List.getElem?_eq_some_iff.mp hk).1
  cases r with
  | none => rw [settle, List.eraseIdx_eq_take_drop_succ, Option.toList_none, List.nil_append]
  | some d => rw [settle, List.set_eq_take_append_cons_drop, if_pos hlt, Option.toList_some,
      List.singleton_append]

/-! ## Assertions of calls -/

/-- What the calls own. -/
def owned (owns : γ → Option ρ) (calls : List γ) : List ρ := calls.filterMap owns

/-- The shared state keeps its invariant, each call the assertion of its control point, and
no resource is owned twice. -/
structure Asserted (I : σ → Prop) (A : σ → γ → Prop) (owns : γ → Option ρ) (s : System σ γ) :
    Prop where
  shared : I s.shared
  each : ∀ c ∈ s.calls, A s.shared c
  exclusive : (owned owns s.calls).Nodup

variable {I : σ → Prop} {A : σ → γ → Prop} {owns : γ → Option ρ}

theorem Asserted.begin (h : Asserted I A owns s) {c : γ} (hc : A s.shared c)
    (hown : owns c = none) : Asserted I A owns ⟨s.shared, s.calls ++ [c]⟩ where
  shared := h.shared
  each d hd := by
    rcases List.mem_append.mp hd with hd | hd
    · exact h.each d hd
    · rw [List.mem_singleton.mp hd]
      exact hc
  exclusive := by
    simpa [owned, List.filterMap_append, hown] using h.exclusive

/-- A change of the shared state from outside the calls. -/
theorem Asserted.outside (h : Asserted I A owns s) {t : σ} (ht : I t)
    (hstable : ∀ d, A s.shared d → A t d) : Asserted I A owns ⟨t, s.calls⟩ where
  shared := ht
  each d hd := hstable d (h.each d hd)
  exclusive := h.exclusive

/-- An action that keeps the invariant, establishes the next assertion of its call, keeps the
assertions of calls that own something else, and takes no resource but a free one. -/
theorem Asserted.advance (h : Asserted I A owns s) (hs : advance act k s = .ok s')
    (hact : ∀ c r, s.calls[k]? = some c → A s.shared c → act s.shared c = .ok (s'.shared, r) →
      I s'.shared ∧ ∀ d, r = some d → A s'.shared d ∧
        ∀ i, owns d = some i → owns c = some i ∨ i ∉ owned owns s.calls)
    (hstable : ∀ c d r, s.calls[k]? = some c → A s.shared c → d ∈ s.calls → A s.shared d →
      (∀ i, owns c = some i → owns d ≠ some i) → act s.shared c = .ok (s'.shared, r) →
        A s'.shared d) : Asserted I A owns s' := by
  rcases advance_cases hs with ⟨rfl, _⟩ | ⟨c, r, hk, hr, hcalls⟩
  · exact h
  · have hc : A s.shared c := h.each c (List.mem_of_getElem? hk)
    obtain ⟨hI, hnext⟩ := hact c r hk hc hr
    have hsplit := eq_splice hk
    have hexcl := h.exclusive
    rw [hsplit, owned, List.filterMap_append, List.filterMap_cons] at hexcl
    have hother : ∀ d ∈ s.calls.take k ++ s.calls.drop (k + 1),
        ∀ i, owns c = some i → owns d ≠ some i := by
      intro d hd i hi hdi
      simp only [hi, List.nodup_append, List.nodup_cons] at hexcl
      rcases hexcl with ⟨_, ⟨hnot, _⟩, hne⟩
      rcases List.mem_append.mp hd with hd | hd
      · exact hne i (List.mem_filterMap.mpr ⟨d, hd, hdi⟩) i (List.mem_cons_self ..) rfl
      · exact hnot (List.mem_filterMap.mpr ⟨d, hd, hdi⟩)
    refine ⟨hI, fun d hd => ?_, ?_⟩
    · rw [hcalls, settle_eq hk, List.mem_append, List.mem_append, Option.mem_toList] at hd
      rcases hd with hd | hd | hd
      · have hmem := List.mem_of_mem_take hd
        exact hstable c d r hk hc hmem (h.each d hmem) (hother d (List.mem_append_left _ hd)) hr
      · exact (hnext d hd).1
      · have hmem := List.mem_of_mem_drop hd
        exact hstable c d r hk hc hmem (h.each d hmem) (hother d (List.mem_append_right _ hd)) hr
    · -- without the call that acted, nothing is owned twice
      have hrest : (owned owns (s.calls.take k ++ s.calls.drop (k + 1))).Nodup := by
        refine hexcl.sublist ?_
        rw [owned, List.filterMap_append]
        apply List.Sublist.append (List.Sublist.refl _)
        cases owns c with
        | none => exact List.Sublist.refl _
        | some i => exact List.sublist_cons_self ..
      rw [hcalls, settle_eq hk]
      cases r with
      | none => exact hrest
      | some d =>
        rw [owned, Option.toList_some, List.singleton_append, List.filterMap_append,
          List.filterMap_cons]
        rw [owned, List.filterMap_append] at hrest
        cases hd : owns d with
        | none => exact hrest
        | some i =>
          refine List.perm_middle.nodup_iff.mpr (List.nodup_cons.mpr ⟨?_, hrest⟩)
          rw [← List.filterMap_append]
          intro hmem
          obtain ⟨b, hb, hbi⟩ := List.mem_filterMap.mp hmem
          rcases (hnext d rfl).2 i hd with hci | hfree
          · exact hother b hb i hci hbi
          · refine hfree (List.mem_filterMap.mpr ⟨b, ?_, hbi⟩)
            rcases List.mem_append.mp hb with hb | hb
            · exact List.mem_of_mem_take hb
            · exact List.mem_of_mem_drop hb

/-- An action moves the total of a weight over the calls by the weight of its own call. -/
theorem sum_settle (w : γ → ℕ) (hk : calls[k]? = some c) :
    ((settle calls k r).map w).sum + w c = (calls.map w).sum + (r.toList.map w).sum := by
  conv_rhs => rw [eq_splice hk]
  rw [settle_eq hk]
  simp only [List.map_append, List.sum_append, List.map_cons, List.sum_cons]
  omega

end Uwe5631.InterleavedCalls
