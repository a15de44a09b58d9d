import Uwe5631.FallibleRuns
import Mathlib

/-!
# The command lock

`refcnt` of `struct sprdwl_cmd` counts the callers of `sprdwl_cmd_lock` and the responses that are
processed, and carries the mark that `sprdwl_cmd_deinit` has started.
-/
namespace Uwe5631.CmdLock
open FallibleRuns

abbrev SPRDWL_CMD_EXIT_VAL : ℤ := 0x8000

/-- The functions that count themselves. -/
inductive Kind where
  | sendRecv
  | sendRecvNoWait
  | rxRspProcess
  | syncDisconnectEvent
  deriving DecidableEq, Repr

/-- Where a caller is. -/
inductive Phase where
  /-- it has incremented `refcnt` too far, and is about to decrement it -/
  | refused
  /-- in `sprdwl_cmd_lock`, at `mutex_lock` -/
  | waiting
  /-- behind `sprdwl_cmd_lock`, which has returned 0 -/
  | holding
  /-- in `sprdwl_cmd_unlock`, behind `mutex_unlock` -/
  | releasing
  /-- in `sprdwl_rx_rsp_process`, behind its increment -/
  | processing
  /-- behind `sprdwl_cmd_lock`, which has failed -/
  | lockFailed
  /-- in `sprdwl_cmd_unlock` all the same -/
  | strayReleasing
  deriving DecidableEq, Repr

structure Caller where
  kind : Kind
  phase : Phase
  deriving DecidableEq, Repr

/-- Whether a caller is between an increment and its decrement. -/
def Caller.counted (c : Caller) : Bool :=
  match c.phase with
  | .refused | .waiting | .holding | .releasing | .processing => true
  | .lockFailed | .strayReleasing => false

structure State where
  refcnt : ℤ
  /-- whether `sprdwl_cmd_deinit` has started -/
  exited : Bool
  /-- whether its loop has ended by its condition -/
  drained : Bool
  callers : List Caller
  /-- how often a caller whose `sprdwl_cmd_lock` failed has got into `sprdwl_cmd_unlock` -/
  strayUnlocks : ℕ
  deriving DecidableEq, Repr

inductive Event where
  /-- a call up to its increment, and what `sprdwl_api_available_check` says of it -/
  | enter (kind : Kind) (available : Bool)
  /-- the next step of a caller -/
  | next (i : ℕ)
  | deinit
  /-- the test of the loop of `sprdwl_cmd_deinit` -/
  | drainTest
  deriving DecidableEq, Repr

/-- `atomic_inc_return` and its test, in `sprdwl_cmd_lock` and in `sprdwl_rx_rsp_process`. -/
def enter (s : State) (kind : Kind) (available : Bool) : State :=
  if kind = .sendRecv ∧ !available then s
  else
    let refcnt := s.refcnt + 1
    let phase := if refcnt ≥ SPRDWL_CMD_EXIT_VAL then .refused
      else if kind = .rxRspProcess then .processing else .waiting
    { s with refcnt := refcnt, callers := s.callers ++ [⟨kind, phase⟩] }

/-- `atomic_dec`, behind which a function returns. -/
def State.decReturn (s : State) (i : ℕ) : State :=
  { s with refcnt := s.refcnt - 1, callers := s.callers.eraseIdx i }

def State.moveOn (s : State) (i : ℕ) (c : Caller) (phase : Phase) : State :=
  { s with callers := s.callers.set i ⟨c.kind, phase⟩ }

/-- A caller goes on. Behind the lock every way of a sender ends in one `sprdwl_cmd_unlock`, and every
way of a response in one `atomic_dec`; `sprdwl_sync_disconnect_event` does not look at what
`sprdwl_cmd_lock` returns. -/
def goOn (s : State) (i : ℕ) : State :=
  match s.callers[i]? with
  | none => s
  | some c =>
    match c.phase with
    | .refused =>
      if c.kind = .syncDisconnectEvent then { s.moveOn i c .lockFailed with refcnt := s.refcnt - 1 }
      else s.decReturn i
    | .waiting => if s.callers.any (·.phase = .holding) then s else s.moveOn i c .holding
    | .holding => s.moveOn i c .releasing
    | .releasing | .processing | .strayReleasing => s.decReturn i
    | .lockFailed => { s.moveOn i c .strayReleasing with strayUnlocks := s.strayUnlocks + 1 }

def stepTo (s : State) : Event → State
  | .enter kind available => enter s kind available
  | .next i => goOn s i
  | .deinit =>
    if s.exited then s else { s with refcnt := s.refcnt + SPRDWL_CMD_EXIT_VAL, exited := true }
  | .drainTest =>
    if s.exited ∧ s.refcnt ≤ SPRDWL_CMD_EXIT_VAL then { s with drained := true } else s

/-- Every step can be taken; a caller at a mutex that is held stays there. -/
def step (s : State) (e : Event) : Except Empty State := .ok (stepTo s e)

/-- `sprdwl_cmd_init` -/
def init : State := ⟨0, false, false, [], 0⟩

/-- What `sprdwl_cmd_deinit` adds to the counter. -/
def exitMark (exited : Bool) : ℤ := if exited then SPRDWL_CMD_EXIT_VAL else 0

/-- The counter is the number of callers and the mark, only callers with the lock release it, and
behind the loop of `sprdwl_cmd_deinit` no caller has it or waits for it. -/
structure Balanced (s : State) : Prop where
  count : s.refcnt = (s.callers.countP Caller.counted : ℕ) + exitMark s.exited
  unlocks : s.strayUnlocks = 0
  drained : s.drained = true → ∀ c ∈ s.callers, c.phase ≠ .waiting ∧ c.phase ≠ .holding

/-- No caller goes on to `sprdwl_cmd_unlock` behind a `sprdwl_cmd_lock` that failed. -/
def Locked (s : State) : Event → Prop
  | .next i => ∀ c, s.callers[i]? = some c → c.phase ≠ .lockFailed
  | .enter .. | .deinit | .drainTest => True

/-- A caller behind the loop of `sprdwl_cmd_deinit`. -/
def Caller.late (c : Caller) : Prop := c.phase = .refused ∨ c.phase = .lockFailed

/-- What holds along runs in which callers release what they have. -/
structure Sound (s : State) : Prop where
  count : s.refcnt = (s.callers.countP Caller.counted : ℕ) + exitMark s.exited
  unlocks : s.strayUnlocks = 0
  stray : ∀ c ∈ s.callers, c.phase ≠ .strayReleasing
  late : s.drained = true → s.exited = true ∧ ∀ c ∈ s.callers, c.late

variable {s : State} {i : ℕ} {c : Caller}

theorem Sound.balanced (h : Sound s) : Balanced s where
  count := h.count
  unlocks := h.unlocks
  drained := by
    intro hdrained c hc
    rcases (h.late hdrained).2 c hc with hphase | hphase <;> simp [hphase]

theorem countP_eraseIdx (hc : s.callers[i]? = some c) :
    (s.callers.eraseIdx i).countP Caller.counted + (if c.counted then 1 else 0) =
      s.callers.countP Caller.counted := by
  obtain ⟨hi, rfl⟩ := List.getElem?_eq_some_iff.mp hc
  rw [← (List.getElem_cons_eraseIdx_perm hi).countP_eq Caller.counted, List.countP_cons]

theorem countP_moveOn (hc : s.callers[i]? = some c) (phase : Phase) :
    (s.moveOn i c phase).callers.countP Caller.counted + (if c.counted then 1 else 0) =
      s.callers.countP Caller.counted + if Caller.counted ⟨c.kind, phase⟩ then 1 else 0 := by
  have hrest := countP_eraseIdx hc
  obtain ⟨hi, rfl⟩ := List.getElem?_eq_some_iff.mp hc
  rw [State.moveOn, List.countP_set hi]
  omega

theorem mem_moveOn {phase : Phase} {d : Caller} (hd : d ∈ (s.moveOn i c phase).callers) :
    d ∈ s.callers ∨ d = ⟨c.kind, phase⟩ := List.mem_or_eq_of_mem_set hd

/-- A caller that is counted returns. -/
theorem Sound.decReturn (h : Sound s) (hc : s.callers[i]? = some c) (hcounted : c.counted = true) :
    Sound (s.decReturn i) where
  count := by
    have hrest := countP_eraseIdx hc
    have hcount := h.count
    rw [if_pos hcounted] at hrest
    simp only [State.decReturn]
    omega
  unlocks := h.unlocks
  stray := fun d hd => h.stray d (List.mem_of_mem_eraseIdx hd)
  late := fun hdrained =>
    ⟨(h.late hdrained).1, fun d hd => (h.late hdrained).2 d (List.mem_of_mem_eraseIdx hd)⟩

/-- A caller that is counted goes on and stays so. -/
theorem Sound.moveOn (h : Sound s) (hc : s.callers[i]? = some c) {phase : Phase}
    (hcounted : Caller.counted ⟨c.kind, phase⟩ = c.counted) (hstray : phase ≠ .strayReleasing)
    (hlate : s.drained = false) : Sound (s.moveOn i c phase) where
  count := by
    have hmoved := countP_moveOn hc phase
    rw [hcounted] at hmoved
    have hsame := Nat.add_right_cancel hmoved
    rw [hsame]
    exact h.count
  unlocks := h.unlocks
  stray := by
    intro d hd
    rcases mem_moveOn hd with hd | rfl
    · exact h.stray d hd
    · exact hstray
  late := by
    intro hdrained
    rw [show s.drained = true from hdrained] at hlate
    cases hlate

/-- A caller goes on. -/
theorem Sound.goOn (h : Sound s) (hlocked : ∀ c, s.callers[i]? = some c → c.phase ≠ .lockFailed) :
    Sound (goOn s i) := by
  rw [CmdLock.goOn]
  cases hc : s.callers[i]? with
  | none => exact h
  | some c =>
    have hmem := List.mem_of_getElem? hc
    have hlate (hphase : c.phase ≠ .refused) (hlocked : c.phase ≠ .lockFailed) : s.drained = false := by
      by_contra hdrained
      rcases (h.late (by simpa using hdrained)).2 c hmem with hlate | hlate
      · exact hphase hlate
      · exact hlocked hlate
    dsimp only
    cases hphase : c.phase with
    | refused =>
      have hcounted : c.counted = true := by rw [Caller.counted, hphase]
      dsimp only
      split
      · have hmoved := countP_moveOn hc .lockFailed
        have hcount := h.count
        rw [if_pos hcounted, if_neg (by simp [Caller.counted])] at hmoved
        refine ⟨?_, h.unlocks, fun d hd => ?_, fun hdrained => ⟨(h.late hdrained).1, fun d hd => ?_⟩⟩
        · simp only [State.moveOn] at hmoved ⊢
          omega
        · rcases mem_moveOn hd with hd | rfl
          · exact h.stray d hd
          · exact Phase.noConfusion
        · rcases mem_moveOn hd with hd | rfl
          · exact (h.late hdrained).2 d hd
          · exact Or.inr rfl
      · exact h.decReturn hc hcounted
    | waiting =>
      dsimp only
      split
      · exact h
      · exact h.moveOn hc (by simp [Caller.counted, hphase]) Phase.noConfusion (hlate (by simp [hphase]) (by simp [hphase]))
    | holding =>
      exact h.moveOn hc (by simp [Caller.counted, hphase]) Phase.noConfusion (hlate (by simp [hphase]) (by simp [hphase]))
    | releasing | processing => exact h.decReturn hc (by simp [Caller.counted, hphase])
    | lockFailed => exact absurd hphase (hlocked c hc)
    | strayReleasing => exact absurd hphase (h.stray c hmem)

theorem Sound.enter (h : Sound s) (kind : Kind) (available : Bool) : Sound (enter s kind available) := by
  rw [CmdLock.enter]
  split
  · exact h
  · have hcount := h.count
    refine ⟨?_, h.unlocks, ?_, ?_⟩
    · have hcounted : Caller.counted ⟨kind, if s.refcnt + 1 ≥ SPRDWL_CMD_EXIT_VAL then .refused
          else if kind = .rxRspProcess then .processing else .waiting⟩ = true := by
        split <;> [rfl; split <;> rfl]
      simp only [List.countP_append, List.countP_singleton, hcounted, if_true]
      omega
    · intro d hd
      rcases List.mem_append.mp hd with hd | hd
      · exact h.stray d hd
      · rw [List.mem_singleton.mp hd]
        dsimp only
        split <;> [exact Phase.noConfusion; split <;> exact Phase.noConfusion]
    · intro hdrained
      obtain ⟨hexited, hlate⟩ := h.late hdrained
      refine ⟨hexited, fun d hd => ?_⟩
      rcases List.mem_append.mp hd with hd | hd
      · exact hlate d hd
      · rw [hexited, exitMark, if_pos rfl] at hcount
        rw [List.mem_singleton.mp hd, Caller.late]
        dsimp only
        rw [if_pos (by omega)]
        exact Or.inl rfl

/-- The loop of `sprdwl_cmd_deinit` ends when no caller is counted. -/
theorem Sound.drainTest (h : Sound s) (hexited : s.exited = true)
    (hrefcnt : s.refcnt ≤ SPRDWL_CMD_EXIT_VAL) : Sound { s with drained := true } where
  count := h.count
  unlocks := h.unlocks
  stray := h.stray
  late := by
    refine fun _ => ⟨hexited, fun c hc => ?_⟩
    have hcount := h.count
    rw [hexited, exitMark, if_pos rfl] at hcount
    have hnone : s.callers.countP Caller.counted = 0 := by omega
    have hc' := List.countP_eq_zero.mp hnone c hc
    have hstray := h.stray c hc
    rw [Caller.counted] at hc'
    cases hphase : c.phase <;> simp_all [Caller.late]

theorem Sound.kept (h : Sound s) {e : Event} (hlocked : Locked s e) : Sound (stepTo s e) := by
  cases e with
  | enter kind available => exact h.enter kind available
  | next i => exact h.goOn hlocked
  | deinit =>
    rw [stepTo]
    split
    · exact h
    · rename_i hexited
      refine ⟨?_, h.unlocks, h.stray, fun hdrained => absurd (h.late hdrained).1 hexited⟩
      have hcount := h.count
      have hmark : exitMark s.exited = 0 := if_neg hexited
      have hexit : exitMark true = SPRDWL_CMD_EXIT_VAL := rfl
      simp only [hexit]
      omega
  | drainTest =>
    rw [stepTo]
    split
    · rename_i hends
      exact h.drainTest hends.1 hends.2
    · exact h

theorem not_balanced {e : Event} (hlocked : ¬ Locked s e) : ¬ Balanced (stepTo s e) := by
  intro hbad
  cases e with
  | next i =>
    obtain ⟨c, hc, hphase⟩ : ∃ c, s.callers[i]? = some c ∧ c.phase = .lockFailed := by
      simpa [Locked] using hlocked
    have hunlocks := hbad.unlocks
    rw [stepTo, CmdLock.goOn, hc] at hunlocks
    simp only [hphase] at hunlocks
    omega
  | enter | deinit | drainTest => exact absurd trivial hlocked

theorem init_sound : Sound init := ⟨rfl, rfl, by simp [init], by simp [init]⟩

/-- Counter and lock are balanced all along a run exactly if no caller goes on to unlock behind a
lock that failed. -/
theorem command_lock_balanced_iff (es : List Event) :
    (∀ es₁ es₂ t, es = es₁ ++ es₂ → run step init es₁ = .ok t → Balanced t) ↔
      Along step Locked init es := by
  apply along_iff_prefixes_total (fun _ _ => rfl) (fun s (h : Sound s) => h.balanced) init_sound
  · intro s e h hlocked
    exact h.kept hlocked
  · intro s e _ hlocked
    exact not_balanced hlocked

/-- `sprdwl_sync_disconnect_event` behind the start of `sprdwl_cmd_deinit`. -/
theorem disconnect_unlocks_what_it_has_not :
    ¬ ∀ es₁ es₂ t, [.deinit, .enter .syncDisconnectEvent true, .next 0, .next 0, .next 0] = es₁ ++ es₂ →
      run step init es₁ = .ok t → Balanced t := by
  intro h
  have hcount := (h _ [] _ (List.append_nil _).symm rfl).count
  exact absurd hcount (by decide)

end Uwe5631.CmdLock
