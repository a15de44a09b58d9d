import Uwe5631.FallibleRuns
import Mathlib.Algebra.Ring.Int.Defs

/-!
# Reference counts

Calls look objects up in a table and give them back, each at its own pace. A lookup takes a
reference to the object it finds.
-/
namespace Uwe5631.ReferenceCounts
open FallibleRuns

variable {τ κ ι ω : Type*} [DecidableEq ι]

/-- What a call still does: it returns, looks an object up, or gives back what its variable
holds. -/
inductive Script (κ : Type*) where
  | done
  | lookup (key : κ) (found missing : Script κ)
  | put (rest : Script κ)
  deriving DecidableEq, Repr

/-- The variable of a call holds nothing, an object whose reference is the call's, or an object
whose reference is not, or no longer, the call's. -/
inductive Var (ι : Type*) where
  | empty
  | taken (i : ι)
  | given (i : ι)
  deriving DecidableEq, Repr

structure Thread (κ ι ω : Type*) where
  op : ω
  var : Var ι
  script : Script κ

structure State (τ κ ι ω : Type*) where
  table : τ
  ref : ι → ℤ
  threads : List (Thread κ ι ω)

/-- A call begins or goes on, or the table changes. -/
inductive Event (τ ω : Type*) where
  | start (op : ω)
  | act (k : ℕ)
  | change (table : τ)
  deriving DecidableEq, Repr

/-- What a call is and how objects are found. -/
structure Calls (τ κ ι ω : Type*) where
  find : τ → κ → Option ι
  own : ω → Var ι
  script : ω → Script κ

def State.onRef (s : State τ κ ι ω) (i : ι) (d : ℤ) : State τ κ ι ω :=
  { s with ref := Function.update s.ref i (s.ref i + d) }

def State.setThread (s : State τ κ ι ω) (k : ℕ) (th : Thread κ ι ω) : State τ κ ι ω :=
  { s with threads := s.threads.set k th }

/-- A call goes on. One that has returned holds nothing any more. -/
def act (c : Calls τ κ ι ω) (s : State τ κ ι ω) (k : ℕ) (th : Thread κ ι ω) : State τ κ ι ω :=
  match th.script, th.var with
  | .done, _ => s.setThread k ⟨th.op, .empty, .done⟩
  | .lookup key found missing, _ =>
    match c.find s.table key with
    | some i => (s.onRef i 1).setThread k ⟨th.op, .taken i, found⟩
    | none => s.setThread k ⟨th.op, .empty, missing⟩
  | .put rest, .empty => s.setThread k ⟨th.op, .empty, rest⟩
  | .put rest, .taken i => (s.onRef i (-1)).setThread k ⟨th.op, .given i, rest⟩
  | .put rest, .given i => (s.onRef i (-1)).setThread k ⟨th.op, .given i, rest⟩

def next (c : Calls τ κ ι ω) (s : State τ κ ι ω) : Event τ ω → State τ κ ι ω
  | .start op => { s with threads := s.threads ++ [⟨op, c.own op, c.script op⟩] }
  | .act k => s.threads[k]?.elim s (act c s k)
  | .change table => { s with table := table }

/-- No step faults. -/
def step (c : Calls τ κ ι ω) (s : State τ κ ι ω) (e : Event τ ω) : Except Empty (State τ κ ι ω) :=
  .ok (next c s e)

/-- No call has begun. -/
def init (table : τ) : State τ κ ι ω := ⟨table, fun _ => 0, []⟩

def Thread.Uses (th : Thread κ ι ω) (i : ι) : Prop := th.var = .taken i

instance (th : Thread κ ι ω) (i : ι) : Decidable (th.Uses i) :=
  inferInstanceAs (Decidable (_ = _))

/-- How many calls use the object. -/
def State.users (s : State τ κ ι ω) (i : ι) : ℕ := s.threads.countP fun th => th.Uses i

/-- The rest of a call gives back what it has and no more, except what a call that may keep objects
looks up. -/
def Returns (keeps : Prop) : Var ι → Script κ → Prop
  | .taken _, .done => False
  | .empty, .done => True
  | .given _, .done => True
  | .taken _, .lookup _ _ _ => False
  | .empty, .lookup _ found missing =>
    (¬ keeps → ∀ i, Returns keeps (.taken i) found) ∧ Returns keeps .empty missing
  | .given _, .lookup _ found missing =>
    (¬ keeps → ∀ i, Returns keeps (.taken i) found) ∧ Returns keeps .empty missing
  | .empty, .put rest => Returns keeps .empty rest
  | .taken i, .put rest => Returns keeps (.given i) rest
  | .given _, .put _ => False

/-- A call that may keep objects finds none. -/
def Misses (c : Calls τ κ ι ω) (keeps : ω → Prop) (s : State τ κ ι ω) (k : ℕ) : Prop :=
  ∀ th key found missing, s.threads[k]? = some th → keeps th.op →
    th.script = .lookup key found missing → c.find s.table key = none

/-- The references are counted, and every call under way will give back what it has. -/
structure Counted (keeps : ω → Prop) (s : State τ κ ι ω) : Prop where
  ref_eq : ∀ i, s.ref i = s.users i
  returns : ∀ th ∈ s.threads, Returns (keeps th.op) th.var th.script

variable {c : Calls τ κ ι ω} {keeps : ω → Prop} {s : State τ κ ι ω} {k : ℕ} {i : ι}
  {th th' : Thread κ ι ω} {e : Event τ ω}

theorem users_setThread (h : s.threads[k]? = some th) (i : ι) :
    ((s.setThread k th').users i : ℤ) =
      s.users i - (if th.Uses i then 1 else 0) + (if th'.Uses i then 1 else 0) := by
  obtain ⟨hk, hget⟩ := List.getElem?_eq_some_iff.mp h
  have hset := List.countP_set (p := fun th => decide (th.Uses i)) (a := th') hk
  rw [hget] at hset
  have hpos : th.Uses i → 0 < s.users i := fun huses =>
    List.countP_pos_iff.mpr ⟨th, List.mem_of_getElem? h, by simpa using huses⟩
  change (List.countP (fun th => decide (th.Uses i)) (s.threads.set k th') : ℤ) = _
  rw [hset]
  change (((s.users i - _ + _ : ℕ)) : ℤ) = _
  by_cases hold : th.Uses i
  · have := hpos hold
    by_cases hnew : th'.Uses i
    · simp only [hold, hnew, decide_true, if_true]
      omega
    · simp only [hold, hnew, decide_true, decide_false, if_true, if_false, Bool.false_eq_true]
      omega
  · by_cases hnew : th'.Uses i
    · simp only [hold, hnew, decide_true, decide_false, if_true, if_false, Bool.false_eq_true]
      omega
    · simp only [hold, hnew, decide_false, if_false, Bool.false_eq_true]
      omega

/-- A call goes on while its use of an object and the count of the object change alike. -/
theorem Counted.setThread (h : Counted keeps s) (hk : s.threads[k]? = some th) {r : ι → ℤ}
    (hr : ∀ i, r i =
      s.ref i - (if th.Uses i then 1 else 0) + (if th'.Uses i then 1 else 0))
    (hreturns : Returns (keeps th'.op) th'.var th'.script) :
    Counted keeps (State.setThread { s with ref := r } k th') where
  ref_eq i := by
    have husers : ((s.setThread k th').users i : ℤ) =
        s.users i - (if th.Uses i then 1 else 0) + (if th'.Uses i then 1 else 0) :=
      users_setThread hk i
    change r i = ((s.setThread k th').users i : ℤ)
    rw [husers, hr i, h.ref_eq i]
  returns x hx := by
    rcases List.mem_or_eq_of_mem_set hx with hx | rfl
    · exact h.returns x hx
    · exact hreturns

theorem Counted.act (h : Counted keeps s) (hk : s.threads[k]? = some th)
    (hmiss : Misses c keeps s k) : Counted keeps (act c s k th) := by
  have hth := h.returns th (List.mem_of_getElem? hk)
  obtain ⟨op, var, script⟩ := th
  cases script with
  | done =>
    refine h.setThread hk (r := s.ref) (fun i => ?_) True.intro
    cases var with
    | taken j => exact hth.elim
    | empty => simp [Thread.Uses]
    | given j => simp [Thread.Uses]
  | lookup key found missing =>
    obtain ⟨hnot, hfound, hmissing⟩ : (∀ i, var ≠ .taken i) ∧
        (¬ keeps op → ∀ i, Returns (keeps op) (.taken i) found) ∧
        Returns (keeps op) .empty missing := by
      cases var with
      | taken j => exact hth.elim
      | empty => exact ⟨by simp, hth.1, hth.2⟩
      | given j => exact ⟨by simp, hth.1, hth.2⟩
    cases hfind : c.find s.table key with
    | none =>
      simp only [ReferenceCounts.act, hfind]
      exact h.setThread hk (r := s.ref) (fun i => by simp [Thread.Uses, hnot]) hmissing
    | some j =>
      simp only [ReferenceCounts.act, hfind]
      have hkeeps : ¬ keeps op := by
        intro hkeeps
        rw [hmiss _ key found missing hk hkeeps rfl] at hfind
        cases hfind
      refine h.setThread hk (fun i => ?_) (hfound hkeeps j)
      by_cases hij : i = j
      · subst hij
        simp [Thread.Uses, hnot]
      · simp [Thread.Uses, hnot, Function.update_of_ne hij, Ne.symm hij]
  | put rest =>
    cases var with
    | empty => exact h.setThread hk (r := s.ref) (fun i => by simp [Thread.Uses]) hth
    | taken j =>
      refine h.setThread hk (fun i => ?_) hth
      by_cases hij : i = j
      · subst hij
        simp [Thread.Uses, sub_eq_add_neg]
      · simp [Thread.Uses, Function.update_of_ne hij, Ne.symm hij]
    | given j => exact hth.elim

/-- One step keeps the references counted. -/
theorem Counted.next (h : Counted keeps s)
    (hstart : ∀ op, e = .start op →
      (∀ i, c.own op ≠ .taken i) ∧ Returns (keeps op) (c.own op) (c.script op))
    (hact : ∀ k, e = .act k → Misses c keeps s k) : Counted keeps (next c s e) := by
  cases e with
  | start op =>
    obtain ⟨hown, hreturns⟩ := hstart op rfl
    constructor
    · intro i
      have href := h.ref_eq i
      simpa [ReferenceCounts.next, State.users, Thread.Uses, hown] using href
    · intro th hth
      rcases List.mem_append.mp hth with hth | hth
      · exact h.returns th hth
      · obtain rfl := List.mem_singleton.mp hth
        exact hreturns
  | act k =>
    cases hk : s.threads[k]? with
    | none =>
      simp only [ReferenceCounts.next, hk, Option.elim_none]
      exact h
    | some th =>
      simp only [ReferenceCounts.next, hk, Option.elim_some]
      exact h.act hk (hact k rfl)
  | change table => exact ⟨h.ref_eq, h.returns⟩

theorem init_counted (table : τ) : Counted keeps (init table : State τ κ ι ω) where
  ref_eq _ := rfl
  returns _ h := absurd h List.not_mem_nil

theorem Counted.nonneg (h : Counted keeps s) (i : ι) : 0 ≤ s.ref i := by
  rw [h.ref_eq]
  exact Int.natCast_nonneg _

/-- An object that nobody uses has no reference. -/
theorem Counted.unused (h : Counted keeps s) (hi : ∀ th ∈ s.threads, ¬ th.Uses i) :
    s.ref i = 0 := by
  rw [h.ref_eq, State.users, List.countP_eq_zero.mpr fun th hth => by simpa using hi th hth]
  rfl

end Uwe5631.ReferenceCounts
