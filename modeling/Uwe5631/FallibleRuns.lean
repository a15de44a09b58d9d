import Mathlib.Logic.Relation
import Mathlib.Data.List.Basic

/-!
# Runs of fallible state machines

A step takes a state and an event to a new state or stops in a fault. A run is a
finite list of events. Conditions on single steps are carried along a run, and an
observer may keep a record beside the state without influencing it.
-/
namespace Uwe5631.FallibleRuns

variable {σ ε φ γ α β : Type*}

theorem bind_eq_ok {x : Except φ α} {f : α → Except φ β} {b : β} :
    x.bind f = .ok b ↔ ∃ a, x = .ok a ∧ f a = .ok b := by
  cases x with
  | error e => simp [Except.bind]
  | ok a => simp [Except.bind]

theorem map_eq_ok {x : Except φ α} {f : α → β} {b : β} :
    x.map f = .ok b ↔ ∃ a, x = .ok a ∧ f a = b := by
  cases x with
  | error e => simp [Except.map]
  | ok a => simp [Except.map]

theorem bind_eq_error {x : Except φ α} {f : α → Except φ β} {e : φ} :
    x.bind f = .error e ↔ x = .error e ∨ ∃ a, x = .ok a ∧ f a = .error e := by
  cases x with
  | error e => simp [Except.bind]
  | ok a => simp [Except.bind]

theorem map_eq_error {x : Except φ α} {f : α → β} {e : φ} :
    x.map f = .error e ↔ x = .error e := by
  cases x with
  | error e => simp [Except.map]
  | ok a => simp [Except.map]

@[simp] theorem ok_bind (a : α) (f : α → Except φ β) : (Except.ok a).bind f = f a := rfl

@[simp] theorem ok_map (a : α) (f : α → β) : (Except.ok a : Except φ α).map f = .ok (f a) := rfl

/-- If the computation faults, then with a fault of the given kind. -/
structure FaultsIn (P : φ → Prop) (x : Except φ α) : Prop where
  fault : ∀ f, x = .error f → P f

theorem FaultsIn.ok {P : φ → Prop} (a : α) : FaultsIn P (.ok a : Except φ α) where
  fault f h := by cases h

theorem FaultsIn.error {P : φ → Prop} {e : φ} (h : P e) : FaultsIn P (.error e : Except φ α) where
  fault f hf := by
    cases hf
    exact h

theorem FaultsIn.bind {P : φ → Prop} {x : Except φ α} {f : α → Except φ β} (hx : FaultsIn P x)
    (hf : ∀ a, FaultsIn P (f a)) : FaultsIn P (x.bind f) where
  fault e he := by
    rcases bind_eq_error.mp he with he | ⟨a, _, he⟩
    · exact hx.fault e he
    · exact (hf a).fault e he

theorem FaultsIn.map {P : φ → Prop} {x : Except φ α} {f : α → β} (hx : FaultsIn P x) :
    FaultsIn P (x.map f) where
  fault e he := hx.fault e (map_eq_error.mp he)

/-- The state after a list of events, or the first fault. -/
def run (step : σ → ε → Except φ σ) : σ → List ε → Except φ σ
  | s, [] => .ok s
  | s, e :: es => (step s e).bind (fun s' => run step s' es)

variable {step : σ → ε → Except φ σ}

@[simp] theorem run_nil (s : σ) : run step s [] = .ok s := rfl

theorem run_cons (s : σ) (e : ε) (es : List ε) :
    run step s (e :: es) = (step s e).bind (fun s' => run step s' es) := rfl

theorem run_cons_ok {s s' : σ} {e : ε} (h : step s e = .ok s') (es : List ε) :
    run step s (e :: es) = run step s' es := by
  rw [run_cons, h, ok_bind]

theorem run_append (s : σ) (es fs : List ε) :
    run step s (es ++ fs) = (run step s es).bind (fun s' => run step s' fs) := by
  induction es generalizing s with
  | nil => rfl
  | cons e es ih =>
    simp only [List.cons_append, run_cons]
    cases step s e with
    | error x => rfl
    | ok s' => simpa using ih s'

theorem run_append_ok {s t u : σ} {es fs : List ε} (h : run step s es = .ok t)
    (h' : run step t fs = .ok u) : run step s (es ++ fs) = .ok u := by
  rw [run_append, h, ok_bind, h']

/-- Every step the run takes meets the condition at the state it is taken from. -/
def Along (step : σ → ε → Except φ σ) (C : σ → ε → Prop) : σ → List ε → Prop
  | _, [] => True
  | s, e :: es => C s e ∧ ∀ s', step s e = .ok s' → Along step C s' es

/-- The condition is checked by running. -/
instance Along.decidable {C : σ → ε → Prop} [∀ s e, Decidable (C s e)] :
    (s : σ) → (es : List ε) → Decidable (Along step C s es)
  | _, [] => isTrue True.intro
  | s, e :: es =>
    match h : step s e with
    | .ok s' =>
      have := Along.decidable (C := C) s' es
      decidable_of_iff (C s e ∧ Along step C s' es) (by simp [Along, h])
    | .error _ => decidable_of_iff (C s e) (by simp [Along, h])

theorem Along.trivial {C : σ → ε → Prop} (hC : ∀ s e, C s e) (s : σ) (es : List ε) :
    Along step C s es := by
  induction es generalizing s with
  | nil => exact True.intro
  | cons e es ih => exact ⟨hC s e, fun s' _ => ih s'⟩

theorem Along.mono {C D : σ → ε → Prop} (hCD : ∀ s e, C s e → D s e) {s : σ} {es : List ε}
    (h : Along step C s es) : Along step D s es := by
  induction es generalizing s with
  | nil => exact True.intro
  | cons e es ih => exact ⟨hCD s e h.1, fun s' hs => ih (h.2 s' hs)⟩

theorem Along.and {C D : σ → ε → Prop} {s : σ} {es : List ε} (h : Along step C s es)
    (h' : Along step D s es) : Along step (fun s e => C s e ∧ D s e) s es := by
  induction es generalizing s with
  | nil => exact True.intro
  | cons e es ih => exact ⟨⟨h.1, h'.1⟩, fun s' hs => ih (h.2 s' hs) (h'.2 s' hs)⟩

theorem along_append {C : σ → ε → Prop} {s : σ} {es fs : List ε} :
    Along step C s (es ++ fs) ↔
      Along step C s es ∧ ∀ t, run step s es = .ok t → Along step C t fs := by
  induction es generalizing s with
  | nil => simp [Along]
  | cons e es ih =>
    simp only [List.cons_append, Along, ih, run_cons, bind_eq_ok]
    constructor
    · intro ⟨hc, h⟩
      exact ⟨⟨hc, fun s' hs => (h s' hs).1⟩, fun t ⟨s', hs, hr⟩ => (h s' hs).2 t hr⟩
    · intro ⟨⟨hc, h⟩, h'⟩
      exact ⟨hc, fun s' hs => ⟨h s' hs, fun t hr => h' t ⟨s', hs, hr⟩⟩⟩

/-- The condition holds along a run exactly if each state the run reaches meets it together with the
next event. -/
theorem along_iff_forall {C : σ → ε → Prop} {s : σ} {es : List ε} :
    Along step C s es ↔
      ∀ es₁ e es₂ t, es = es₁ ++ e :: es₂ → run step s es₁ = .ok t → C t e := by
  constructor
  · rintro h es₁ e es₂ t rfl ht
    exact ((along_append.mp h).2 t ht).1
  · intro h
    induction es generalizing s with
    | nil => exact True.intro
    | cons e es ih =>
      refine ⟨h [] e es s rfl rfl, fun s' hs' => ih ?_⟩
      intro es₁ f es₂ t hes ht
      apply h (e :: es₁) f es₂ t
      · rw [hes, List.cons_append]
      · rw [run_cons_ok hs', ht]

/-- Two conditions that agree under an invariant, which steps that meet them keep, hold along the
same runs. -/
theorem along_congr {I : σ → Prop} {C D : σ → ε → Prop} (hiff : ∀ s e, I s → (C s e ↔ D s e))
    (hkeep : ∀ s e s', I s → D s e → step s e = .ok s' → I s') {s : σ} {es : List ε} (hs : I s) :
    Along step C s es ↔ Along step D s es := by
  induction es generalizing s with
  | nil => exact Iff.rfl
  | cons e es ih =>
    constructor
    · intro ⟨hC, hrest⟩
      have hD := (hiff s e hs).mp hC
      exact ⟨hD, fun s' hs' => (ih (hkeep s e s' hs hD hs')).mp (hrest s' hs')⟩
    · intro ⟨hD, hrest⟩
      exact ⟨(hiff s e hs).mpr hD, fun s' hs' => (ih (hkeep s e s' hs hD hs')).mpr (hrest s' hs')⟩

/-- An invariant kept by every step that meets the condition holds at the end of
every run whose steps meet it. -/
theorem run_invariant {I : σ → Prop} {C : σ → ε → Prop}
    (hstep : ∀ s e s', I s → C s e → step s e = .ok s' → I s')
    {s t : σ} {es : List ε} (hs : I s) (hC : Along step C s es)
    (hr : run step s es = .ok t) : I t := by
  induction es generalizing s with
  | nil =>
    cases hr
    exact hs
  | cons e es ih =>
    obtain ⟨s', hs', hr'⟩ := bind_eq_ok.mp hr
    exact ih (hstep s e s' hs hC.1 hs') (hC.2 s' hs') hr'

/-- If every step that meets the condition succeeds and keeps an invariant, a run whose steps meet
it goes through. -/
theorem run_completes {I : σ → Prop} {C : σ → ε → Prop}
    (hstep : ∀ s e, I s → C s e → ∃ s', step s e = .ok s' ∧ I s') {s : σ} {es : List ε} (hs : I s)
    (hC : Along step C s es) : ∃ t, run step s es = .ok t ∧ I t := by
  induction es generalizing s with
  | nil => exact ⟨s, rfl, hs⟩
  | cons e es ih =>
    obtain ⟨s', hs', hI⟩ := hstep s e hs hC.1
    rw [run_cons_ok hs']
    exact ih hI (hC.2 s' hs')

/-- Steps that meet the condition succeed and keep an invariant, and the others stop the run. Then a
run goes through exactly if all its steps meet the condition. -/
theorem completes_iff_along {I : σ → Prop} {C : σ → ε → Prop}
    (hgoes : ∀ s e, I s → C s e → ∃ s', step s e = .ok s' ∧ I s')
    (hstops : ∀ s e, I s → ¬ C s e → ∃ f, step s e = .error f) {s : σ} {es : List ε} (hs : I s) :
    (∃ t, run step s es = .ok t) ↔ Along step C s es := by
  constructor
  · intro ⟨t, ht⟩
    induction es generalizing s with
    | nil => exact True.intro
    | cons e es ih =>
      obtain ⟨s', hs', hr⟩ := bind_eq_ok.mp ht
      have hC : C s e := by
        by_contra hC
        obtain ⟨f, hf⟩ := hstops s e hs hC
        rw [hs'] at hf
        cases hf
      refine ⟨hC, fun u hu => ?_⟩
      obtain ⟨v, hv, hI⟩ := hgoes s e hs hC
      obtain rfl := Except.ok.inj (hs'.symm.trans hu)
      obtain rfl := Except.ok.inj (hs'.symm.trans hv)
      exact ih hI hr
  · intro h
    obtain ⟨t, ht, -⟩ := run_completes hgoes hs h
    exact ⟨t, ht⟩

/-- Steps that meet the condition keep an invariant, and the others break what follows from it.
Then what follows holds in every state of a run exactly if all steps meet the condition. -/
theorem along_iff_prefixes_of {I P : σ → Prop} {C : σ → ε → Prop} (hIP : ∀ s, I s → P s) {s : σ}
    {es : List ε} (hs : I s) (hkeep : ∀ s e s', I s → C s e → step s e = .ok s' → I s')
    (hbreak : ∀ s e, I s → ¬ C s e → ∃ s', step s e = .ok s' ∧ ¬ P s') :
    (∀ es₁ es₂ t, es = es₁ ++ es₂ → run step s es₁ = .ok t → P t) ↔ Along step C s es := by
  constructor
  · intro h
    induction es generalizing s with
    | nil => exact True.intro
    | cons e es ih =>
      have hC : C s e := by
        by_contra hC
        obtain ⟨s', hs', hP⟩ := hbreak s e hs hC
        exact hP (h [e] es s' rfl (run_cons_ok hs' []))
      refine ⟨hC, fun s' hs' => ?_⟩
      apply ih (hkeep s e s' hs hC hs')
      intro es₁ es₂ t hes ht
      exact h (e :: es₁) es₂ t (by rw [hes, List.cons_append]) (by rw [run_cons_ok hs', ht])
  · rintro h es₁ es₂ t rfl ht
    exact hIP t (run_invariant hkeep hs (along_append.mp h).1 ht)

/-- If exactly the steps that meet the condition keep what holds at the start, it holds in
every state of a run exactly if all steps of the run meet the condition. -/
theorem along_iff_prefixes {I : σ → Prop} {C : σ → ε → Prop} {s : σ} {es : List ε} (hs : I s)
    (hkeep : ∀ s e s', I s → C s e → step s e = .ok s' → I s')
    (hbreak : ∀ s e, I s → ¬ C s e → ∃ s', step s e = .ok s' ∧ ¬ I s') :
    (∀ es₁ es₂ t, es = es₁ ++ es₂ → run step s es₁ = .ok t → I t) ↔ Along step C s es :=
  along_iff_prefixes_of (fun _ h => h) hs hkeep hbreak

/-- The same for steps that never fault. -/
theorem along_iff_prefixes_total {next : σ → ε → σ} {I P : σ → Prop} {C : σ → ε → Prop}
    (hnext : ∀ s e, step s e = .ok (next s e)) (hIP : ∀ s, I s → P s) {s : σ} {es : List ε}
    (hs : I s) (hkeep : ∀ s e, I s → C s e → I (next s e))
    (hbreak : ∀ s e, I s → ¬ C s e → ¬ P (next s e)) :
    (∀ es₁ es₂ t, es = es₁ ++ es₂ → run step s es₁ = .ok t → P t) ↔ Along step C s es := by
  apply along_iff_prefixes_of hIP hs
  · intro s e s' h hC hs'
    obtain rfl := Except.ok.inj ((hnext s e).symm.trans hs')
    exact hkeep s e h hC
  · intro s e h hC
    exact ⟨next s e, hnext s e, hbreak s e h hC⟩

/-- What follows from the invariant holds in every state of a run of steps that never fault. -/
theorem prefixes_of_along_total {next : σ → ε → σ} {I P : σ → Prop} {C : σ → ε → Prop}
    (hnext : ∀ s e, step s e = .ok (next s e)) (hIP : ∀ s, I s → P s) {s : σ} {es : List ε}
    (hs : I s) (hkeep : ∀ s e, I s → C s e → I (next s e)) (hC : Along step C s es) :
    ∀ es₁ es₂ t, es = es₁ ++ es₂ → run step s es₁ = .ok t → P t := by
  rintro es₁ es₂ t rfl ht
  refine hIP t (run_invariant (fun s e s' h hCe hs' => ?_) hs (along_append.mp hC).1 ht)
  obtain rfl := Except.ok.inj ((hnext s e).symm.trans hs')
  exact hkeep s e h hCe

/-- Steps that meet the condition succeed and keep an invariant, and after any other step that
succeeds what follows from the invariant fails. Then a run gets through all its steps with what
follows holding in every state exactly if all steps meet the condition. -/
theorem along_iff_prefixes_reach {I P : σ → Prop} {C : σ → ε → Prop} (hIP : ∀ s, I s → P s) {s : σ}
    {es : List ε} (hs : I s) (hkeep : ∀ s e, I s → C s e → ∃ s', step s e = .ok s' ∧ I s')
    (hbreak : ∀ s e s', I s → ¬ C s e → step s e = .ok s' → ¬ P s') :
    (∀ es₁ es₂, es = es₁ ++ es₂ → ∃ t, run step s es₁ = .ok t ∧ P t) ↔ Along step C s es := by
  constructor
  · intro h
    induction es generalizing s with
    | nil => exact True.intro
    | cons e es ih =>
      obtain ⟨s₁, hs₁, hP⟩ := h [e] es rfl
      obtain ⟨s', hs', hnil⟩ := bind_eq_ok.mp hs₁
      obtain rfl := Except.ok.inj hnil
      have hC : C s e := by
        by_contra hC
        exact hbreak s e s' hs hC hs' hP
      obtain ⟨s'', hs'', hI⟩ := hkeep s e hs hC
      obtain rfl := Except.ok.inj (hs'.symm.trans hs'')
      refine ⟨hC, fun u hu => ?_⟩
      obtain rfl := Except.ok.inj (hs'.symm.trans hu)
      apply ih hI
      intro es₁ es₂ hes
      obtain ⟨t, ht, hPt⟩ := h (e :: es₁) es₂ (by rw [hes, List.cons_append])
      exact ⟨t, by rwa [run_cons_ok hs'] at ht, hPt⟩
  · rintro h es₁ es₂ rfl
    obtain ⟨t, ht, hI⟩ := run_completes hkeep hs (along_append.mp h).1
    exact ⟨t, ht, hIP t hI⟩

/-- The fault a run stops in is one that a step from a state of the invariant can have. -/
theorem run_fault {I : σ → Prop} {C : σ → ε → Prop} {P : φ → Prop}
    (hstep : ∀ s e s', I s → C s e → step s e = .ok s' → I s')
    (hfault : ∀ s e f, I s → C s e → step s e = .error f → P f)
    {s : σ} {es : List ε} {f : φ} (hs : I s) (hC : Along step C s es)
    (hr : run step s es = .error f) : P f := by
  induction es generalizing s with
  | nil => cases hr
  | cons e es ih =>
    rcases bind_eq_error.mp hr with he | ⟨s', hs', hr'⟩
    · exact hfault s e f hs hC.1 he
    · exact ih (hstep s e s' hs hC.1 hs') (hC.2 s' hs') hr'

/-- The unconditional form of `run_invariant`. -/
theorem run_preserves {I : σ → Prop} (hstep : ∀ s e s', I s → step s e = .ok s' → I s')
    {s t : σ} {es : List ε} (hs : I s) (hr : run step s es = .ok t) : I t :=
  run_invariant (C := fun _ _ => True) (fun s e s' h _ => hstep s e s' h) hs
    (Along.trivial (fun _ _ => True.intro) s es) hr

/-- A run with a record kept beside the state. -/
def observe (step : σ → ε → Except φ σ) (note : γ → σ → ε → σ → γ) (p : σ × γ) (e : ε) :
    Except φ (σ × γ) :=
  (step p.1 e).map (fun s' => (s', note p.2 p.1 e s'))

theorem observe_eq_ok {note : γ → σ → ε → σ → γ} {p q : σ × γ} {e : ε} :
    observe step note p e = .ok q ↔ step p.1 e = .ok q.1 ∧ q.2 = note p.2 p.1 e q.1 := by
  rw [observe, map_eq_ok]
  constructor
  · rintro ⟨s', hs, rfl⟩
    exact ⟨hs, rfl⟩
  · intro ⟨hs, hq⟩
    exact ⟨q.1, hs, by rw [← hq]⟩

/-- Observing changes no run. -/
theorem run_observe {note : γ → σ → ε → σ → γ} {p q : σ × γ} {es : List ε}
    (h : run (observe step note) p es = .ok q) : run step p.1 es = .ok q.1 := by
  induction es generalizing p with
  | nil =>
    cases h
    rfl
  | cons e es ih =>
    obtain ⟨p', hp, hr⟩ := bind_eq_ok.mp h
    rw [run_cons_ok (observe_eq_ok.mp hp).1]
    exact ih hr

/-- Every run can be observed. -/
theorem run_observe_exists (note : γ → σ → ε → σ → γ) {s t : σ} {es : List ε}
    (h : run step s es = .ok t) (g : γ) :
    ∃ g', run (observe step note) (s, g) es = .ok (t, g') := by
  induction es generalizing s g with
  | nil =>
    cases h
    exact ⟨g, rfl⟩
  | cons e es ih =>
    obtain ⟨s', hs, hr⟩ := bind_eq_ok.mp h
    obtain ⟨g', hg⟩ := ih hr (note g s e s')
    have hfirst : observe step note (s, g) e = .ok (s', note g s e s') :=
      observe_eq_ok.mpr ⟨hs, rfl⟩
    exact ⟨g', by rw [run_cons_ok hfirst, hg]⟩

theorem Along.observe {note : γ → σ → ε → σ → γ} {C : σ → ε → Prop} {s : σ} {es : List ε}
    (h : Along step C s es) (g : γ) :
    Along (observe step note) (fun p e => C p.1 e) (s, g) es := by
  induction es generalizing s g with
  | nil => exact True.intro
  | cons e es ih =>
    refine ⟨h.1, ?_⟩
    intro ⟨s', g'⟩ hp
    exact ih (h.2 s' (observe_eq_ok.mp hp).1) g'

end Uwe5631.FallibleRuns
