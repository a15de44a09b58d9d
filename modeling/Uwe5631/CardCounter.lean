import Uwe5631.FallibleRuns
import Mathlib

/-!
# The card counter

`xmit_cnt` counts the bus operations between `sdiohal_card_lock` and `sdiohal_card_unlock`, and
carries the mark of an absent card as a large addend.
-/
namespace Uwe5631.Card
open FallibleRuns

abbrev SDIOHAL_REMOVE_CARD_VAL : ℤ := 0x8000

/-- The bus operations. -/
inductive Op where
  | writel
  | readl
  | dtWrite
  | dtRead
  | sdioPtWrite
  | sdioPtRead
  | admaPtWrite
  | admaPtRead
  | aonReadb
  | aonWriteb
  deriving DecidableEq, Repr

/-- Whether an operation looks at `dt_rw_fail` and sets it when it fails. -/
def Op.dt : Op → Bool
  | .writel | .readl | .dtWrite | .dtRead => true
  | .sdioPtWrite | .sdioPtRead | .admaPtWrite | .admaPtRead | .aonReadb | .aonWriteb => false

/-- Where an operation is between its increment of `xmit_cnt` and its return. -/
inductive Phase where
  /-- in `sdiohal_card_lock`, about to decrement and to fail -/
  | refused
  /-- behind `sdiohal_card_lock` -/
  | locked
  /-- behind the test of `dt_rw_fail` -/
  | running
  deriving DecidableEq, Repr

structure Running where
  op : Op
  phase : Phase
  deriving DecidableEq, Repr

/-- The functions that mark the card. -/
inductive Life where
  | probe
  | remove
  | suspend
  | resume
  | shutdown
  | removeCard
  deriving DecidableEq, Repr

/-- Whether a function marks the card as absent or suspended. -/
def Life.absent : Life → Bool
  | .probe | .resume => false
  | .remove | .suspend | .shutdown | .removeCard => true

/-- What is fixed when the driver is built. -/
structure Config where
  /-- `CONFIG_ARCH_SUNXI` -/
  archSunxi : Bool
  /-- `CONFIG_AML_BOARD` -/
  amlBoard : Bool
  deriving DecidableEq, Repr

structure State where
  xmitCnt : ℤ
  xmitStart : Bool
  dtRwFail : Bool
  /-- whether the function that was last to mark the card marked it as absent or suspended -/
  absent : Bool
  /-- the operations that have incremented `xmit_cnt` and not returned -/
  ops : List Running
  /-- the functions between their test and their change of `xmit_cnt` -/
  changes : List Life
  deriving DecidableEq, Repr

inductive Event where
  /-- the increment of `sdiohal_card_lock` and its test -/
  | lock (op : Op)
  /-- the next step of an operation, and whether `sdiohal_dt_set_addr` and the transfer succeed -/
  | next (i : ℕ) (setAddr transfer : Bool)
  /-- the test of a function that marks the card -/
  | test (f : Life)
  /-- its change of `xmit_cnt` -/
  | change (i : ℕ)
  /-- `atomic_set(&p_data->xmit_start, …)` -/
  | start (on : Bool)
  deriving DecidableEq, Repr

/-- `WCN_CARD_EXIST` -/
def wcnCardExist (s : State) : Bool := s.xmitCnt < SDIOHAL_REMOVE_CARD_VAL

/-- The first step of `sdiohal_card_lock`. -/
def cardLock (s : State) (op : Op) : State :=
  let xmitCnt := s.xmitCnt + 1
  let phase := if xmitCnt ≥ SDIOHAL_REMOVE_CARD_VAL ∨ !s.xmitStart then .refused else .locked
  { s with xmitCnt := xmitCnt, ops := s.ops ++ [⟨op, phase⟩] }

/-- Whether an operation returns without `sdiohal_card_unlock`. -/
def returnsLocked (cfg : Config) (s : State) (r : Running) : Bool :=
  r.phase = .locked ∧ cfg.archSunxi ∧ r.op.dt ∧ s.dtRwFail

/-- An operation goes on. -/
def opStep (cfg : Config) (s : State) (i : ℕ) (setAddr transfer : Bool) : State :=
  match s.ops[i]? with
  | none => s
  | some r =>
    match r.phase with
    | .refused => { s with xmitCnt := s.xmitCnt - 1, ops := s.ops.eraseIdx i }
    | .locked =>
      if returnsLocked cfg s r then { s with ops := s.ops.eraseIdx i }
      else { s with ops := s.ops.set i { r with phase := .running } }
    | .running =>
      { s with
        xmitCnt := s.xmitCnt - 1
        ops := s.ops.eraseIdx i
        dtRwFail := s.dtRwFail || (r.op.dt && setAddr && !transfer) }

/-- A function that marks the card tests whether it is marked; `sdiohal_remove_card` does nothing on
some boards. -/
def lifeTest (cfg : Config) (s : State) (f : Life) : State :=
  if f = .removeCard ∧ cfg.amlBoard then s
  else if wcnCardExist s = f.absent then { s with changes := s.changes ++ [f] }
  else { s with absent := f.absent }

/-- It adds or subtracts the mark. -/
def lifeChange (s : State) (i : ℕ) : State :=
  match s.changes[i]? with
  | none => s
  | some f =>
    { s with
      xmitCnt := if f.absent then s.xmitCnt + SDIOHAL_REMOVE_CARD_VAL
        else s.xmitCnt - SDIOHAL_REMOVE_CARD_VAL
      absent := f.absent
      changes := s.changes.eraseIdx i }

def stepTo (cfg : Config) (s : State) : Event → State
  | .lock op => cardLock s op
  | .next i setAddr transfer => opStep cfg s i setAddr transfer
  | .test f => lifeTest cfg s f
  | .change i => lifeChange s i
  | .start on => { s with xmitStart := on }

/-- Every step can be taken. -/
def step (cfg : Config) (s : State) (e : Event) : Except Empty State := .ok (stepTo cfg s e)

/-- `sdiohal_init` -/
def init : State where
  xmitCnt := SDIOHAL_REMOVE_CARD_VAL
  xmitStart := false
  dtRwFail := false
  absent := true
  ops := []
  changes := []

/-- The counter is the number of operations and the mark. While the card is marked, the loop of
`sdiohal_remove_card` waits exactly for operations, and none gets behind `sdiohal_card_lock`. -/
structure Counted (s : State) : Prop where
  count : s.xmitCnt = s.ops.length + if s.absent then SDIOHAL_REMOVE_CARD_VAL else 0
  drains : s.absent = true → (s.xmitCnt > SDIOHAL_REMOVE_CARD_VAL ↔ s.ops ≠ [])
  refuses : s.absent = true → ∀ op, (cardLock s op).ops = s.ops ++ [⟨op, .refused⟩]

/-- No operation returns locked; a card that is not marked is not taken for one because of the number
of operations; and a mark is changed only if it is not yet what it is changed to. -/
def Balanced (cfg : Config) (s : State) : Event → Prop
  | .next i _ _ => ∀ r, s.ops[i]? = some r → returnsLocked cfg s r = false
  | .test f => f.absent = true → ¬ (f = .removeCard ∧ cfg.amlBoard) → s.absent = false →
    wcnCardExist s = true
  | .change i => ∀ f, s.changes[i]? = some f → s.absent ≠ f.absent
  | .lock _ | .start _ => True

variable {cfg : Config} {s s' : State}

theorem counted_of_count
    (h : s.xmitCnt = s.ops.length + if s.absent then SDIOHAL_REMOVE_CARD_VAL else 0) : Counted s where
  count := h
  drains := by
    intro habsent
    rw [h, if_pos habsent, ← List.length_pos_iff]
    omega
  refuses := by
    intro habsent op
    rw [if_pos habsent] at h
    have hfull : s.xmitCnt + 1 ≥ SDIOHAL_REMOVE_CARD_VAL ∨ (!s.xmitStart) = true := by
      left
      omega
    simp only [cardLock, if_pos hfull]

theorem Counted.exist (h : Counted s) (habsent : s.absent = true) : wcnCardExist s = false := by
  have := h.count
  rw [if_pos habsent] at this
  rw [wcnCardExist, decide_eq_false_iff_not]
  omega

theorem Counted.afterStep (h : Counted s) {i : ℕ} (setAddr transfer : Bool)
    (hbal : ∀ r, s.ops[i]? = some r → returnsLocked cfg s r = false) :
    Counted (opStep cfg s i setAddr transfer) := by
  have hcount := h.count
  rw [opStep]
  cases hop : s.ops[i]? with
  | none => exact h
  | some r =>
    have hi := (List.getElem?_eq_some_iff.mp hop).1
    have hlength := List.length_eraseIdx_add_one hi
    dsimp only
    cases hphase : r.phase with
    | refused | running =>
      apply counted_of_count
      dsimp only
      omega
    | locked =>
      rw [if_neg (by simp [hbal r hop])]
      apply counted_of_count
      rw [List.length_set]
      exact hcount

theorem Counted.afterTest (h : Counted s) {f : Life}
    (hbal : f.absent = true → ¬ (f = .removeCard ∧ cfg.amlBoard) → s.absent = false →
      wcnCardExist s = true) : Counted (lifeTest cfg s f) := by
  rw [lifeTest]
  split
  · exact h
  · rename_i haml
    split
    · exact counted_of_count h.count
    · rename_i hexist
      have hsame : s.absent = f.absent := by
        cases hf : f.absent with
        | true =>
          by_contra hnot
          have := hbal hf haml (by simpa using hnot)
          exact hexist (this.trans hf.symm)
        | false =>
          by_contra hnot
          have := h.exist (by simpa using hnot)
          exact hexist (this.trans hf.symm)
      rw [← hsame]
      exact h

theorem Counted.afterChange (h : Counted s) {i : ℕ}
    (hbal : ∀ f, s.changes[i]? = some f → s.absent ≠ f.absent) : Counted (lifeChange s i) := by
  rw [lifeChange]
  cases hchange : s.changes[i]? with
  | none => exact h
  | some f =>
    have hne := hbal f hchange
    have hcount := h.count
    apply counted_of_count
    cases hf : f.absent <;> cases habsent : s.absent <;> simp_all

theorem Counted.kept (h : Counted s) {e : Event} (hbal : Balanced cfg s e) :
    Counted (stepTo cfg s e) := by
  cases e with
  | lock op =>
    apply counted_of_count
    simp only [stepTo, cardLock, List.length_append, List.length_singleton]
    rw [h.count]
    push_cast
    exact Int.add_right_comm _ _ _
  | next i setAddr transfer => exact h.afterStep setAddr transfer hbal
  | test f => exact h.afterTest hbal
  | change i => exact h.afterChange hbal
  | start on => exact counted_of_count h.count

/-- A step that is not balanced leaves a wrong count. -/
theorem Counted.broken (h : Counted s) {e : Event} (hbal : ¬ Balanced cfg s e) :
    ¬ Counted (stepTo cfg s e) := by
  have hcount := h.count
  have hval : SDIOHAL_REMOVE_CARD_VAL = 0x8000 := rfl
  intro hbad
  have hbad := hbad.count
  cases e with
  | next i setAddr transfer =>
    obtain ⟨r, hop, hreturns⟩ : ∃ r, s.ops[i]? = some r ∧ returnsLocked cfg s r = true := by
      simpa [Balanced] using hbal
    have hphase : r.phase = .locked := by
      simp only [returnsLocked, decide_eq_true_eq] at hreturns
      exact hreturns.1
    have hlength := List.length_eraseIdx_add_one (List.getElem?_eq_some_iff.mp hop).1
    simp only [stepTo, opStep, hop, hphase, hreturns, if_true] at hbad
    omega
  | test f =>
    obtain ⟨hf, haml, habsent, hexist⟩ : f.absent = true ∧ ¬ (f = .removeCard ∧ cfg.amlBoard) ∧
        s.absent = false ∧ wcnCardExist s ≠ true := by
      simpa only [Balanced, Classical.not_imp] using hbal
    rw [stepTo, lifeTest, if_neg haml, if_neg fun heq => hexist (heq.trans hf)] at hbad
    simp only [hf, habsent, if_true, Bool.false_eq_true, if_false] at hbad hcount
    omega
  | change i =>
    obtain ⟨f, hchange, hf⟩ : ∃ f, s.changes[i]? = some f ∧ s.absent = f.absent := by
      simpa [Balanced] using hbal
    simp only [stepTo, lifeChange, hchange, ← hf] at hbad
    cases habsent : s.absent <;> simp only [habsent, if_true, Bool.false_eq_true, if_false] at hbad hcount <;>
      omega
  | lock | start => exact absurd trivial hbal

theorem init_counted : Counted init := counted_of_count rfl

end Uwe5631.Card
