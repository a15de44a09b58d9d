import Uwe5631.FallibleRuns
import Mathlib

/-!
# AT commands of the kernel and the loop check

The AT commands share `atcmd_completion`, the rounds of the loop check wait on a completion of their
own; both are sent under `atcmd_lock`. `stop_loopcheck` cancels the work of the rounds, and a round
that timed out calls it as well.
-/
namespace Uwe5631.Loopcheck
open FallibleRuns

abbrev Byte := BitVec 8

abbrev MDBG_AT_CMD_SIZE : ℕ := 128

abbrev MDBG_LOOPCHECK_SIZE : ℕ := 128

abbrev MARLIN_TWO_ANT : ℕ := 2

abbrev MARLIN_THREE_ANT : ℕ := 3

abbrev UINT_MAX : ℕ := 2 ^ 32 - 1

/-- The commands that wait on `atcmd_completion`. -/
inductive Command where
  | switchCp2Log (flag : Bool)
  | getBoardAntNum
  | getCp2Version
  deriving DecidableEq, Repr

/-- How `at_cmd_send` ends. -/
inductive Send where
  /-- `-EIO`, the module is not open -/
  | closed
  /-- `-ENOMEM` -/
  | nomem
  /-- 0, though there was no node for the command -/
  | lost
  | sent
  deriving DecidableEq, Repr

/-- Who holds `atcmd_lock`. -/
inductive Holder where
  | command (k : ℕ) (cmd : Command)
  | round (k : ℕ)
  deriving DecidableEq, Repr

/-- Where a `start_loopcheck` is that has set the open bit. -/
inductive StartPhase where
  /-- before `reinit_completion` -/
  | reinit
  /-- before `queue_delayed_work` -/
  | queue
  deriving DecidableEq, Repr

/-- Where a `stop_loopcheck` is that has cleared the open bit. -/
inductive StopPhase where
  /-- before `complete_all` -/
  | complete
  /-- before `cancel_delayed_work_sync` -/
  | cancel
  /-- in `cancel_delayed_work_sync`, which waits for a running round -/
  | wait
  deriving DecidableEq, Repr

/-- Where `loopcheck_work_queue` is. -/
inductive Round where
  /-- before its first test of the open bit -/
  | begin
  /-- before `mutex_lock` -/
  | lock
  | wait (k : ℕ)
  /-- it has released the lock -/
  | woken (k : ℕ) (timeleft : Bool)
  /-- before the test in `stop_loopcheck` -/
  | stop (k : ℕ)
  | stopping (k : ℕ) (p : StopPhase)
  /-- before `mdbg_assert_interface` -/
  | assert (k : ℕ)
  deriving DecidableEq, Repr

/-- A round that has ended. -/
structure RoundEnd where
  k : ℕ
  /-- whether its response has arrived -/
  answered : Bool
  timedOut : Bool
  /-- whether the loop check is open -/
  opened : Bool
  asserted : Bool
  deriving DecidableEq, Repr

structure State where
  /-- `WCN_LOOPCHECK_OPEN` in `loopcheck.status` -/
  opened : Bool
  /-- `atcmd_lock` -/
  lock : Option Holder
  /-- `atcmd_completion` -/
  atcmd : ℕ
  /-- `loopcheck.completion` -/
  loop : ℕ
  /-- `mdbg_proc->at_cmd.buf`, which is zero after these bytes -/
  buf : List Byte
  /-- whether `loopcheck.work` is pending -/
  queued : Bool
  round : Option Round
  starts : List StartPhase
  stops : List StopPhase
  /-- the calls of `get_board_ant_num` that have still to evaluate the buffer -/
  reading : List ℕ
  /-- the number of commands so far -/
  count : ℕ
  /-- the commands that CP2 has not answered -/
  atOut : List ℕ
  loopOut : List ℕ
  /-- the answers received, each with the number of its command -/
  atAnswers : List (ℕ × List Byte)
  loopAnswers : List ℕ
  /-- the acknowledged commands, with whether their answer had been received -/
  acks : List (ℕ × Bool)
  /-- what `get_board_ant_num` evaluated -/
  ants : List (ℕ × List Byte)
  /-- what it returned -/
  antNums : List (ℕ × ℕ)
  rounds : List RoundEnd
  deriving DecidableEq, Repr

/-- After `loopcheck_init`. -/
def loopcheckInit : State where
  opened := false
  lock := none
  atcmd := 0
  loop := 0
  buf := []
  queued := false
  round := none
  starts := []
  stops := []
  reading := []
  count := 0
  atOut := []
  loopOut := []
  atAnswers := []
  loopAnswers := []
  acks := []
  ants := []
  antNums := []
  rounds := []

/-- `complete` -/
def complete (done : ℕ) : ℕ := if done = UINT_MAX then done else done + 1

/-- What `wait_for_completion_timeout` leaves of a completion that is done. -/
def consume (done : ℕ) : ℕ := if done = UINT_MAX then done else done - 1

/-- Whether the answer to an AT command has been received. -/
def answered (s : State) (k : ℕ) : Bool := s.atAnswers.any (·.1 = k)

/-! ## The commands -/

/-- What a command returns if `at_cmd_send` fails: `ret` is an `unsigned char`. -/
def Send.ret : Send → ℕ
  | .closed => 256 - 5
  | .nomem => 256 - 12
  | _ => 0

/-- A command up to its wait -/
def atCommand (s : State) (cmd : Command) (send : Send) : State :=
  if s.lock.isSome then s
  else
    match send with
    | .sent => { s with
        lock := some (.command s.count cmd), count := s.count + 1, atOut := s.atOut ++ [s.count] }
    | .lost => { s with lock := some (.command s.count cmd), count := s.count + 1 }
    | send =>
      { s with
        count := s.count + 1
        antNums := if cmd = .getBoardAntNum then s.antNums ++ [(s.count, send.ret)]
          else s.antNums }

/-- The wait of a command ends with time left. -/
def atWake (s : State) : State :=
  match s.lock with
  | some (.command k cmd) =>
    if s.atcmd = 0 then s
    else { s with
      lock := none
      atcmd := consume s.atcmd
      acks := s.acks ++ [(k, answered s k)]
      reading := if cmd = .getBoardAntNum then s.reading ++ [k] else s.reading }
  | _ => s

def atTimeout (s : State) : State :=
  match s.lock with
  | some (.command k cmd) =>
    if s.atcmd = 0 then
      { s with
        lock := none
        antNums := if cmd = .getBoardAntNum then s.antNums ++ [(k, MARLIN_THREE_ANT)]
          else s.antNums }
    else s
  | _ => s

/-- What `get_board_ant_num` makes of the buffer. -/
def antNum (buf : List Byte) : ℕ :=
  if buf.headD 0 = 0x32 then MARLIN_TWO_ANT
  else if buf.headD 0 = 0x33 then MARLIN_THREE_ANT
  else MARLIN_THREE_ANT

/-- The end of `get_board_ant_num` -/
def antRead (s : State) (k : ℕ) : State :=
  if k ∈ s.reading then
    { s with
      reading := s.reading.erase k
      ants := s.ants ++ [(k, s.buf)]
      antNums := s.antNums ++ [(k, antNum s.buf)] }
  else s

/-- `mdbg_at_cmd_read` -/
def mdbgAtCmdRead (s : State) (k : ℕ) (data : List Byte) : State :=
  if k ∈ s.atOut then
    if MDBG_AT_CMD_SIZE < data.length then { s with atOut := s.atOut.filter (· ≠ k) }
    else { s with
      atOut := s.atOut.filter (· ≠ k)
      buf := data
      atcmd := complete s.atcmd
      atAnswers := s.atAnswers ++ [(k, data)] }
  else s

/-- `mdbg_loopcheck_read` -/
def mdbgLoopcheckRead (s : State) (k : ℕ) (length : ℕ) : State :=
  if k ∈ s.loopOut then
    if MDBG_LOOPCHECK_SIZE < length then { s with loopOut := s.loopOut.filter (· ≠ k) }
    else { s with
      loopOut := s.loopOut.filter (· ≠ k)
      loop := complete s.loop
      loopAnswers := s.loopAnswers ++ [k] }
  else s

/-! ## The loop check -/

/-- Whether a `cancel_delayed_work_sync` waits. -/
def cancelling (s : State) : Bool :=
  decide (StopPhase.wait ∈ s.stops) ||
    match s.round with
    | some (.stopping _ .wait) => true
    | _ => false

/-- `queue_delayed_work`, which does nothing while the work is being cancelled -/
def queueDelayedWork (s : State) : State :=
  if cancelling s then s else { s with queued := true }

def workRun (s : State) : State :=
  if s.queued ∧ s.round = none then { s with queued := false, round := some .begin } else s

/-- A round ends. -/
def endRound (s : State) (k : ℕ) (timedOut asserted : Bool) : State :=
  { s with
    round := none
    rounds := s.rounds ++ [⟨k, decide (k ∈ s.loopAnswers), timedOut, s.opened, asserted⟩] }

/-- The next step of `loopcheck_work_queue` -/
def roundNext (s : State) (send : Send) : State :=
  match s.round with
  | none => s
  | some .begin => if s.opened then { s with round := some .lock } else { s with round := none }
  | some .lock =>
    if s.lock.isSome then s
    else { s with
      lock := some (.round s.count)
      round := some (.wait s.count)
      count := s.count + 1
      loopOut := if send = .sent then s.loopOut ++ [s.count] else s.loopOut }
  | some (.wait k) =>
    if s.loop = 0 then s
    else { s with lock := none, loop := consume s.loop, round := some (.woken k true) }
  | some (.woken k timeleft) =>
    if s.opened = false then endRound s k (!timeleft) false
    else if timeleft = false then { s with round := some (.stop k) }
    else queueDelayedWork (endRound s k false false)
  | some (.stop k) =>
    if s.opened then { s with opened := false, round := some (.stopping k .complete) }
    else { s with round := some (.assert k) }
  | some (.stopping k .complete) =>
    { s with loop := UINT_MAX, round := some (.stopping k .cancel) }
  | some (.stopping k .cancel) => { s with queued := false, round := some (.stopping k .wait) }
  -- `cancel_delayed_work_sync` waits for the running round, which is the one that waits
  | some (.stopping _ .wait) => s
  | some (.assert k) => endRound s k true true

def roundTimeout (s : State) : State :=
  match s.round with
  | some (.wait k) =>
    if s.loop = 0 then { s with lock := none, round := some (.woken k false) } else s
  | _ => s

/-- `start_loopcheck` up to `test_and_set_bit` -/
def startLoopcheck (s : State) : State :=
  if s.opened then s else { s with opened := true, starts := s.starts ++ [.reinit] }

def startNext (s : State) (i : ℕ) : State :=
  match s.starts[i]? with
  | none => s
  | some .reinit => { s with loop := 0, starts := s.starts.set i .queue }
  | some .queue => { queueDelayedWork s with starts := s.starts.eraseIdx i }

/-- `stop_loopcheck` up to `test_and_clear_bit` -/
def stopLoopcheck (s : State) : State :=
  if s.opened then { s with opened := false, stops := s.stops ++ [.complete] } else s

def stopNext (s : State) (i : ℕ) : State :=
  match s.stops[i]? with
  | none => s
  | some .complete => { s with loop := UINT_MAX, stops := s.stops.set i .cancel }
  | some .cancel => { s with queued := false, stops := s.stops.set i .wait }
  | some .wait => if s.round.isSome then s else { s with stops := s.stops.eraseIdx i }

inductive Event where
  | atCommand (cmd : Command) (send : Send)
  | atWake
  | atTimeout
  | antRead (k : ℕ)
  | atResponse (k : ℕ) (data : List Byte)
  | loopResponse (k : ℕ) (length : ℕ)
  | workRun
  | roundNext (send : Send)
  | roundTimeout
  | start
  | startNext (i : ℕ)
  | stop
  | stopNext (i : ℕ)
  deriving DecidableEq, Repr

def next (s : State) : Event → State
  | .atCommand cmd send => atCommand s cmd send
  | .atWake => atWake s
  | .atTimeout => atTimeout s
  | .antRead k => antRead s k
  | .atResponse k data => mdbgAtCmdRead s k data
  | .loopResponse k length => mdbgLoopcheckRead s k length
  | .workRun => workRun s
  | .roundNext send => roundNext s send
  | .roundTimeout => roundTimeout s
  | .start => startLoopcheck s
  | .startNext i => startNext s i
  | .stop => stopLoopcheck s
  | .stopNext i => stopNext s i

def step (s : State) (e : Event) : Except Empty State := .ok (next s e)

/-! ## What is claimed -/

/-- The round in progress will not end, whatever happens. -/
def Hung (s : State) : Prop := s.round ≠ none ∧ ∀ es : List Event, (es.foldl next s).round = s.round

structure Paired (s : State) : Prop where
  /-- a command is acknowledged by its own answer -/
  acks : ∀ a ∈ s.acks, a.2 = true
  /-- `get_board_ant_num` evaluates its own answer -/
  ants : ∀ a ∈ s.ants, a ∈ s.atAnswers
  /-- a round without an answer was stopped before its time-out, or it has stopped the loop check and
  raised the assert -/
  rounds : ∀ r ∈ s.rounds, r.answered = false →
    r.opened = false ∧ (r.timedOut = false ∨ r.asserted = true)
  /-- every round ends -/
  ends : ¬ Hung s

/-- Whether an AT command holds the lock. -/
def Holder.isCommand (k : ℕ) : Holder → Bool
  | .command j _ => j = k
  | .round _ => false

def Round.waits : Round → Bool
  | .wait _ => true
  | _ => false

/-- Answers come in time: that to an AT command while the command waits and no call of
`get_board_ant_num` has its buffer still to read, that to a round while the round waits or the loop
check is stopped; no round times out; and `start_loopcheck` opens the loop check only when no earlier
call of it or of `stop_loopcheck` is in progress and no round is left. -/
def Timely (s : State) : Event → Prop
  | .atResponse k data => k ∈ s.atOut → data.length ≤ MDBG_AT_CMD_SIZE →
      (∃ h ∈ s.lock, h.isCommand k = true) ∧ s.reading = []
  | .loopResponse k length => k ∈ s.loopOut → length ≤ MDBG_LOOPCHECK_SIZE →
      s.round = some (.wait k) ∨ s.opened = false ∨ StartPhase.reinit ∈ s.starts
  | .roundTimeout => ∀ r ∈ s.round, r.waits = true → s.loop ≠ 0
  | .start => s.opened = false →
      s.starts = [] ∧ s.stops = [] ∧ s.queued = false ∧ s.round = none
  | _ => True

/-! ## The AT commands -/

structure AtSound (s : State) : Prop where
  out : ∀ k ∈ s.atOut, k < s.count ∧ answered s k = false
  count : ∀ a ∈ s.atAnswers, a.1 < s.count
  idle : (∀ k cmd, s.lock ≠ some (.command k cmd)) → s.atcmd = 0
  held : ∀ k cmd, s.lock = some (.command k cmd) →
    s.atcmd = (if answered s k then 1 else 0) ∧ (answered s k = true → (k, s.buf) ∈ s.atAnswers)
  reading : ∀ k ∈ s.reading, (k, s.buf) ∈ s.atAnswers
  acks : ∀ a ∈ s.acks, a.2 = true
  ants : ∀ a ∈ s.ants, a ∈ s.atAnswers

variable {s t : State}

theorem answered_lt (h : AtSound s) {k : ℕ} (hk : answered s k = true) : k < s.count := by
  simp only [answered, List.any_eq_true, decide_eq_true_eq] at hk
  obtain ⟨a, ha, rfl⟩ := hk
  exact h.count a ha

/-- What else happens does not matter to the AT commands. -/
theorem AtSound.congr (h : AtSound s) (hout : t.atOut = s.atOut) (hans : t.atAnswers = s.atAnswers)
    (hatcmd : t.atcmd = s.atcmd) (hbuf : t.buf = s.buf) (hreading : t.reading = s.reading)
    (hacks : t.acks = s.acks) (hants : t.ants = s.ants) (hcount : s.count ≤ t.count)
    (hlock : ∀ k cmd, t.lock = some (.command k cmd) ↔ s.lock = some (.command k cmd)) :
    AtSound t := by
  have hanswered : ∀ k, answered t k = answered s k := by
    intro k
    rw [answered, answered, hans]
  refine ⟨?_, ?_, ?_, ?_, ?_, ?_, ?_⟩
  · intro k hk
    rw [hout] at hk
    rw [hanswered]
    exact ⟨lt_of_lt_of_le (h.out k hk).1 hcount, (h.out k hk).2⟩
  · intro a ha
    rw [hans] at ha
    exact lt_of_lt_of_le (h.count a ha) hcount
  · intro hno
    rw [hatcmd]
    exact h.idle fun k cmd hl => hno k cmd ((hlock k cmd).mpr hl)
  · intro k cmd hl
    rw [hatcmd, hbuf, hans, hanswered]
    exact h.held k cmd ((hlock k cmd).mp hl)
  · intro k hk
    rw [hreading] at hk
    rw [hbuf, hans]
    exact h.reading k hk
  · rw [hacks]
    exact h.acks
  · rw [hants, hans]
    exact h.ants

theorem AtSound.atCommand (h : AtSound s) (cmd : Command) (send : Send) :
    AtSound (atCommand s cmd send) := by
  unfold Loopcheck.atCommand
  split
  · exact h
  · rename_i hfree
    have hnone : s.lock = none := by simpa using hfree
    have hzero : s.atcmd = 0 := h.idle (by simp [hnone])
    have hfresh : answered s s.count = false := by
      rw [Bool.eq_false_iff]
      intro hk
      exact absurd (answered_lt h hk) (lt_irrefl _)
    -- the command has a number that no answer has
    have hheld : ∀ k c, some (Holder.command s.count cmd) = some (.command k c) →
        s.atcmd = (if answered s k then 1 else 0) ∧
          (answered s k = true → (k, s.buf) ∈ s.atAnswers) := by
      intro k c hkc
      cases hkc
      rw [hfresh]
      exact ⟨hzero, by simp⟩
    have hcount : ∀ a ∈ s.atAnswers, a.1 < s.count + 1 := fun a ha => (h.count a ha).trans (by omega)
    cases send with
    | sent =>
      refine ⟨?_, hcount, fun hno => absurd rfl (hno _ _), hheld, h.reading, h.acks, h.ants⟩
      intro k hk
      rcases List.mem_append.mp hk with hk | hk
      · exact ⟨(h.out k hk).1.trans (by simp), (h.out k hk).2⟩
      · rw [List.mem_singleton.mp hk]
        exact ⟨by simp, hfresh⟩
    | lost =>
      refine ⟨?_, hcount, fun hno => absurd rfl (hno _ _), hheld, h.reading, h.acks, h.ants⟩
      intro k hk
      exact ⟨(h.out k hk).1.trans (by simp), (h.out k hk).2⟩
    | closed => exact h.congr rfl rfl rfl rfl rfl rfl rfl (by simp) (by simp)
    | nomem => exact h.congr rfl rfl rfl rfl rfl rfl rfl (by simp) (by simp)

theorem AtSound.atWake (h : AtSound s) : AtSound (atWake s) := by
  rw [Loopcheck.atWake]
  split
  · rename_i k cmd hlock
    split
    · exact h
    · rename_i hdone
      obtain ⟨hatcmd, hbuf⟩ := h.held k cmd hlock
      have hanswered : answered s k = true := by
        by_contra hno
        exact hdone (by simpa [hno] using hatcmd)
      have hzero : consume s.atcmd = 0 := by
        rw [hatcmd, hanswered]
        decide
      refine ⟨h.out, h.count, fun _ => hzero, ?_, ?_, ?_, h.ants⟩
      · intro k' c hk'
        cases hk'
      · intro k' hk'
        dsimp only at hk'
        split at hk'
        · rcases List.mem_append.mp hk' with hk' | hk'
          · exact h.reading k' hk'
          · rw [List.mem_singleton.mp hk']
            exact hbuf hanswered
        · exact h.reading k' hk'
      · intro a ha
        rcases List.mem_append.mp ha with ha | ha
        · exact h.acks a ha
        · rw [List.mem_singleton.mp ha]
          exact hanswered
  · exact h

theorem AtSound.atTimeout (h : AtSound s) : AtSound (atTimeout s) := by
  rw [Loopcheck.atTimeout]
  split
  · split
    · rename_i hzero
      refine ⟨h.out, h.count, fun _ => hzero, ?_, h.reading, h.acks, h.ants⟩
      intro k c hk
      cases hk
    · exact h
  · exact h

theorem AtSound.antRead (h : AtSound s) (k : ℕ) : AtSound (antRead s k) := by
  rw [Loopcheck.antRead]
  split
  · rename_i hk
    refine ⟨h.out, h.count, h.idle, h.held, ?_, h.acks, ?_⟩
    · intro k' hk'
      exact h.reading k' (List.mem_of_mem_erase hk')
    · intro a ha
      rcases List.mem_append.mp ha with ha | ha
      · exact h.ants a ha
      · rw [List.mem_singleton.mp ha]
        exact h.reading k hk
  · exact h

theorem AtSound.mdbgAtCmdRead (h : AtSound s) {k : ℕ} {data : List Byte}
    (hC : Timely s (.atResponse k data)) : AtSound (mdbgAtCmdRead s k data) := by
  rw [Loopcheck.mdbgAtCmdRead]
  split
  · rename_i hk
    split
    · refine ⟨?_, h.count, h.idle, h.held, h.reading, h.acks, h.ants⟩
      intro k' hk'
      exact h.out k' (List.mem_filter.mp hk').1
    · rename_i hlen
      obtain ⟨⟨holder, hholder, hcommand⟩, hreading⟩ := hC hk (not_lt.mp hlen)
      obtain ⟨cmd, rfl⟩ : ∃ cmd, holder = .command k cmd := by
        cases holder with
        | command j cmd =>
          obtain rfl : j = k := by simpa [Holder.isCommand] using hcommand
          exact ⟨cmd, rfl⟩
        | round j => cases hcommand
      have hlock : s.lock = some (.command k cmd) := hholder
      obtain ⟨hlt, hfresh⟩ := h.out k hk
      have hzero : s.atcmd = 0 := by simpa [hfresh] using (h.held k cmd hlock).1
      have hanswered : ∀ k', answered { s with atAnswers := s.atAnswers ++ [(k, data)] } k' =
          (answered s k' || decide (k = k')) := by
        intro k'
        simp [answered]
      refine ⟨?_, ?_, ?_, ?_, ?_, h.acks, ?_⟩
      · intro k' hk'
        obtain ⟨hk', hne⟩ := List.mem_filter.mp hk'
        refine ⟨(h.out k' hk').1, (hanswered k').trans ?_⟩
        rw [(h.out k' hk').2]
        simpa using fun heq : k = k' => (by simpa using hne : k' ≠ k) heq.symm
      · intro a ha
        rcases List.mem_append.mp ha with ha | ha
        · exact h.count a ha
        · rw [List.mem_singleton.mp ha]
          exact hlt
      · intro hno
        exact absurd hlock (hno k cmd)
      · intro k' c hk'
        obtain ⟨rfl, rfl⟩ : k = k' ∧ cmd = c := by simpa [hlock] using hk'
        have hyes : answered { s with atAnswers := s.atAnswers ++ [(k, data)] } k = true := by
          rw [hanswered]
          simp
        refine ⟨?_, fun _ => List.mem_append_right _ (List.mem_singleton.mpr rfl)⟩
        refine Eq.trans ?_ (if_pos hyes).symm
        simp only [hzero]
        decide
      · intro k' hk'
        dsimp only at hk'
        rw [hreading] at hk'
        cases hk'
      · intro a ha
        exact List.mem_append_left _ (h.ants a ha)
  · exact h

/-! ## The rounds -/

structure LoopSound (s : State) : Prop where
  out : ∀ k ∈ s.loopOut, k < s.count ∧ k ∉ s.loopAnswers
  count : ∀ k ∈ s.loopAnswers, k < s.count
  holder : ∀ k, s.lock = some (.round k) ↔ s.round = some (.wait k)
  /-- while the loop check is open, the completion is that of the round that waits -/
  waits : ∀ k, s.round = some (.wait k) → s.opened = true →
    s.loop = if k ∈ s.loopAnswers then 1 else 0
  rest : s.opened = true → StartPhase.reinit ∉ s.starts → (∀ k, s.round ≠ some (.wait k)) →
    s.loop = 0
  woken : ∀ k timeleft, s.round = some (.woken k timeleft) →
    timeleft = true ∧ (s.opened = true → k ∈ s.loopAnswers)
  /-- the loop check is opened with nothing left of an earlier round -/
  quiet : s.opened = true → StartPhase.reinit ∈ s.starts → s.round = none ∧ s.queued = false
  starts : s.starts.length ≤ 1
  stops : StopPhase.complete ∈ s.stops → s.opened = false
  runs : ∀ k, s.round ≠ some (.stop k) ∧ s.round ≠ some (.assert k) ∧
    ∀ p, s.round ≠ some (.stopping k p)
  rounds : ∀ r ∈ s.rounds, r.answered = false →
    r.opened = false ∧ (r.timedOut = false ∨ r.asserted = true)

/-- What happens to the AT commands does not matter to the rounds. -/
theorem LoopSound.congr (h : LoopSound s) (hopened : t.opened = s.opened) (hloop : t.loop = s.loop)
    (hqueued : t.queued = s.queued) (hround : t.round = s.round) (hstarts : t.starts = s.starts)
    (hstops : t.stops = s.stops) (hout : t.loopOut = s.loopOut)
    (hans : t.loopAnswers = s.loopAnswers) (hrounds : t.rounds = s.rounds)
    (hcount : s.count ≤ t.count)
    (hlock : ∀ k, t.lock = some (.round k) ↔ s.lock = some (.round k)) : LoopSound t := by
  refine ⟨?_, ?_, ?_, ?_, ?_, ?_, ?_, ?_, ?_, ?_, ?_⟩
  · intro k hk
    rw [hout] at hk
    rw [hans]
    exact ⟨lt_of_lt_of_le (h.out k hk).1 hcount, (h.out k hk).2⟩
  · intro k hk
    rw [hans] at hk
    exact lt_of_lt_of_le (h.count k hk) hcount
  · intro k
    rw [hround, hlock k]
    exact h.holder k
  · rw [hround, hopened, hloop, hans]
    exact h.waits
  · rw [hround, hopened, hloop, hstarts]
    exact h.rest
  · rw [hround, hopened, hans]
    exact h.woken
  · rw [hround, hopened, hqueued, hstarts]
    exact h.quiet
  · rw [hstarts]
    exact h.starts
  · rw [hopened, hstops]
    exact h.stops
  · rw [hround]
    exact h.runs
  · rw [hrounds]
    exact h.rounds

/-- The loop check is stopped. -/
theorem LoopSound.close (h : LoopSound s) (stops : List StopPhase) :
    LoopSound { s with opened := false, stops := stops } where
  out := h.out
  count := h.count
  holder := h.holder
  waits _ _ ho := by cases ho
  rest ho := by cases ho
  woken k timeleft hk := ⟨(h.woken k timeleft hk).1, fun ho => by cases ho⟩
  quiet ho := by cases ho
  starts := h.starts
  stops _ := rfl
  runs := h.runs
  rounds := h.rounds

theorem LoopSound.mdbgLoopcheckRead (h : LoopSound s) {k length : ℕ}
    (hC : Timely s (.loopResponse k length)) : LoopSound (mdbgLoopcheckRead s k length) := by
  rw [Loopcheck.mdbgLoopcheckRead]
  split
  · rename_i hk
    obtain ⟨hlt, hfresh⟩ := h.out k hk
    split
    · refine ⟨?_, h.count, h.holder, h.waits, h.rest, h.woken, h.quiet, h.starts, h.stops, h.runs,
        h.rounds⟩
      intro k' hk'
      exact h.out k' (List.mem_filter.mp hk').1
    · rename_i hlen
      have hopen : s.opened = true → StartPhase.reinit ∉ s.starts → s.round = some (.wait k) := by
        intro ho hs
        rcases hC hk (not_lt.mp hlen) with hw | hc | hr
        · exact hw
        · rw [ho] at hc
          cases hc
        · exact absurd hr hs
      refine ⟨?_, ?_, h.holder, ?_, ?_, ?_, h.quiet, h.starts, h.stops, h.runs, h.rounds⟩
      · intro k' hk'
        obtain ⟨hk', hne⟩ := List.mem_filter.mp hk'
        refine ⟨(h.out k' hk').1, ?_⟩
        simp only [List.mem_append, List.mem_singleton, not_or]
        exact ⟨(h.out k' hk').2, by simpa using hne⟩
      · intro k' hk'
        rcases List.mem_append.mp hk' with hk' | hk'
        · exact h.count k' hk'
        · rw [List.mem_singleton.mp hk']
          exact hlt
      · intro k' hk' ho
        -- a round runs, so the completion was initialised for it
        have hs : StartPhase.reinit ∉ s.starts := by
          intro hs
          rw [(h.quiet ho hs).1] at hk'
          cases hk'
        obtain rfl : k = k' := by simpa [hopen ho hs] using hk'
        have hzero : s.loop = 0 := by simpa [hfresh] using h.waits k hk' ho
        simp only [hzero]
        simp [complete, UINT_MAX]
      · intro ho hs hno
        exact absurd (hopen ho hs) (hno k)
      · intro k' timeleft hk'
        refine ⟨(h.woken k' timeleft hk').1, fun ho => ?_⟩
        exact List.mem_append_left _ ((h.woken k' timeleft hk').2 ho)
  · exact h

theorem LoopSound.workRun (h : LoopSound s) : LoopSound (workRun s) := by
  rw [Loopcheck.workRun]
  split
  · rename_i hq
    have hclosed : s.opened = true → StartPhase.reinit ∉ s.starts := by
      intro ho hs
      rw [(h.quiet ho hs).2] at hq
      cases hq.1
    refine ⟨h.out, h.count, ?_, ?_, ?_, ?_, ?_, h.starts, h.stops, ?_, h.rounds⟩
    · intro k
      rw [h.holder k, hq.2]
      simp
    · intro k hk
      cases hk
    · intro ho hs _
      exact h.rest ho hs (by simp [hq.2])
    · intro k timeleft hk
      cases hk
    · intro ho hs
      exact absurd hs (hclosed ho)
    · simp
  · exact h

/-- A round ends that was answered or stopped. -/
theorem LoopSound.endRound (h : LoopSound s) {k : ℕ} (hk : s.round = some (.woken k true))
    (timeleft : Bool) (ht : timeleft = true) (hopened : s.opened = true → k ∈ s.loopAnswers) :
    LoopSound (endRound s k (!timeleft) false) where
  out := h.out
  count := h.count
  holder k' := by
    rw [Loopcheck.endRound, h.holder k', hk]
    simp
  waits _ hk' := by cases hk'
  rest ho hs _ := h.rest ho hs (by simp [hk])
  woken _ _ hk' := by cases hk'
  quiet ho hs := ⟨rfl, (h.quiet ho hs).2⟩
  starts := h.starts
  stops := h.stops
  runs := by simp [Loopcheck.endRound]
  rounds r hr hno := by
    rcases List.mem_append.mp hr with hr | hr
    · exact h.rounds r hr hno
    · rw [List.mem_singleton.mp hr] at hno ⊢
      refine ⟨?_, Or.inl (by simp [ht])⟩
      rw [Bool.eq_false_iff]
      intro ho
      simp [hopened ho] at hno

/-- The work is queued with the loop check reinitialised. -/
theorem LoopSound.queueDelayedWork (h : LoopSound s)
    (hs : s.opened = true → StartPhase.reinit ∉ s.starts) : LoopSound (queueDelayedWork s) := by
  rw [Loopcheck.queueDelayedWork]
  split
  · exact h
  · exact ⟨h.out, h.count, h.holder, h.waits, h.rest, h.woken,
      fun ho hr => absurd hr (hs ho), h.starts, h.stops, h.runs, h.rounds⟩

theorem LoopSound.roundNext (h : LoopSound s) (send : Send) : LoopSound (roundNext s send) := by
  -- a round runs, so no call is about to reinitialise the completion
  have hquiet : ∀ r, s.round = some r → s.opened = true → StartPhase.reinit ∉ s.starts := by
    intro r hr ho hs
    rw [(h.quiet ho hs).1] at hr
    cases hr
  unfold Loopcheck.roundNext
  cases hr : s.round with
  | none => exact h
  | some r =>
    cases r with
    | begin =>
      dsimp only
      split
      · exact ⟨h.out, h.count, fun k => by simp [h.holder k, hr], by simp,
          fun ho hs _ => h.rest ho hs (by simp [hr]), by simp,
          fun ho hs => absurd hs (hquiet _ hr ho), h.starts, h.stops, by simp, h.rounds⟩
      · exact ⟨h.out, h.count, fun k => by simp [h.holder k, hr], by simp,
          fun ho hs _ => h.rest ho hs (by simp [hr]), by simp,
          fun ho hs => absurd hs (hquiet _ hr ho), h.starts, h.stops, by simp, h.rounds⟩
    | lock =>
      dsimp only
      split
      · exact h
      · have hfresh : s.count ∉ s.loopAnswers := fun hmem => absurd (h.count _ hmem) (lt_irrefl _)
        refine ⟨?_, ?_, ?_, ?_, ?_, by simp, fun ho hs => absurd hs (hquiet _ hr ho), h.starts,
          h.stops, by simp, h.rounds⟩
        · intro k hk
          dsimp only at hk
          split at hk
          · rcases List.mem_append.mp hk with hk | hk
            · exact ⟨(h.out k hk).1.trans (by simp), (h.out k hk).2⟩
            · rw [List.mem_singleton.mp hk]
              exact ⟨by simp, hfresh⟩
          · exact ⟨(h.out k hk).1.trans (by simp), (h.out k hk).2⟩
        · intro k hk
          exact (h.count k hk).trans (by simp)
        · simp
        · intro k hk ho
          cases hk
          rw [if_neg hfresh]
          exact h.rest ho (hquiet _ hr ho) (by simp [hr])
        · intro _ _ hno
          exact absurd rfl (hno s.count)
    | wait k =>
      dsimp only
      split
      · exact h
      · rename_i hdone
        -- with the loop check open only the answer completes the wait
        have hans : s.opened = true → k ∈ s.loopAnswers := by
          intro ho
          by_contra hno
          exact hdone (by simpa [hno] using h.waits k hr ho)
        refine ⟨h.out, h.count, by simp, by simp, ?_, ?_, fun ho hs => absurd hs (hquiet _ hr ho),
          h.starts, h.stops, by simp, h.rounds⟩
        · intro ho _ _
          have hone := h.waits k hr ho
          rw [if_pos (hans ho)] at hone
          simp [hone, consume, UINT_MAX]
        · intro k' timeleft hk'
          cases hk'
          exact ⟨rfl, hans⟩
    | woken k timeleft =>
      obtain ⟨rfl, hans⟩ := h.woken k timeleft hr
      have hend := h.endRound hr true rfl hans
      dsimp only
      split
      · exact hend
      · simp only [Bool.true_eq_false, if_false]
        exact hend.queueDelayedWork (hquiet _ hr)
    | stop k => exact absurd hr (h.runs k).1
    | stopping k p => exact absurd hr ((h.runs k).2.2 p)
    | assert k => exact absurd hr (h.runs k).2.1

theorem LoopSound.startLoopcheck (h : LoopSound s) (hC : Timely s .start) :
    LoopSound (startLoopcheck s) := by
  rw [Loopcheck.startLoopcheck]
  split
  · exact h
  · rename_i ho
    obtain ⟨hstarts, hstops, hqueued, hround⟩ := hC (by simpa using ho)
    refine ⟨h.out, h.count, h.holder, ?_, ?_, ?_, fun _ _ => ⟨hround, hqueued⟩, ?_, ?_, h.runs,
      h.rounds⟩
    · intro k hk
      dsimp only at hk
      rw [hround] at hk
      cases hk
    · intro _ hs
      exact absurd (List.mem_append_right _ (List.mem_singleton.mpr rfl)) hs
    · intro k timeleft hk
      dsimp only at hk
      rw [hround] at hk
      cases hk
    · simp [hstarts]
    · intro hmem
      dsimp only at hmem
      rw [hstops] at hmem
      cases hmem

theorem LoopSound.startNext (h : LoopSound s) (i : ℕ) : LoopSound (startNext s i) := by
  unfold Loopcheck.startNext
  cases hi : s.starts[i]? with
  | none => exact h
  | some p =>
    -- there is only one call
    obtain ⟨rfl, hone⟩ : i = 0 ∧ s.starts = [p] := by
      have hlt := (List.getElem?_eq_some_iff.mp hi).1
      have hi0 : i = 0 := by
        have := h.starts
        omega
      subst hi0
      have hlen : s.starts.length = 1 := by
        have := h.starts
        omega
      obtain ⟨q, hq⟩ := List.length_eq_one_iff.mp hlen
      rw [hq] at hi ⊢
      simpa using hi
    cases p with
    | reinit =>
      have hmem : StartPhase.reinit ∈ s.starts := by simp [hone]
      refine ⟨h.out, h.count, h.holder, ?_, fun _ _ _ => rfl, h.woken, ?_, ?_, h.stops, h.runs,
        h.rounds⟩
      · intro k hk ho
        dsimp only at hk
        rw [(h.quiet ho hmem).1] at hk
        cases hk
      · intro _ hs
        simp [hone] at hs
      · simp [hone]
    | queue =>
      have hno : StartPhase.reinit ∉ s.starts := by simp [hone]
      have hq := h.queueDelayedWork fun _ => hno
      have hstarts : (Loopcheck.queueDelayedWork s).starts = s.starts := by
        rw [Loopcheck.queueDelayedWork]
        split <;> rfl
      refine ⟨hq.out, hq.count, hq.holder, hq.waits, ?_, hq.woken, ?_, ?_, hq.stops, hq.runs,
        hq.rounds⟩
      · intro ho _ hnowait
        exact hq.rest ho (by simpa [hstarts] using hno) hnowait
      · intro _ hs
        simp [hone] at hs
      · simp [hone]

theorem LoopSound.stopNext (h : LoopSound s) (i : ℕ) : LoopSound (stopNext s i) := by
  unfold Loopcheck.stopNext
  cases hi : s.stops[i]? with
  | none => exact h
  | some p =>
    cases p with
    | complete =>
      have hclosed := h.stops (List.mem_of_getElem? hi)
      refine ⟨h.out, h.count, h.holder, ?_, ?_, h.woken, h.quiet, h.starts, fun _ => hclosed,
        h.runs, h.rounds⟩
      · intro k _ ho
        rw [hclosed] at ho
        cases ho
      · intro ho
        rw [hclosed] at ho
        cases ho
    | cancel =>
      refine ⟨h.out, h.count, h.holder, h.waits, h.rest, h.woken,
        fun ho hs => ⟨(h.quiet ho hs).1, rfl⟩, h.starts, ?_, h.runs, h.rounds⟩
      intro hmem
      refine h.stops ((List.mem_or_eq_of_mem_set hmem).resolve_right ?_)
      simp
    | wait =>
      dsimp only
      split
      · exact h
      · exact ⟨h.out, h.count, h.holder, h.waits, h.rest, h.woken, h.quiet, h.starts,
          fun hmem => h.stops (List.mem_of_mem_eraseIdx hmem), h.runs, h.rounds⟩

/-! ## Runs -/

structure Sound (s : State) : Prop where
  atCommands : AtSound s
  loop : LoopSound s

theorem sound_init : Sound loopcheckInit where
  atCommands := by
    refine ⟨?_, ?_, fun _ => rfl, ?_, ?_, ?_, ?_⟩
    all_goals simp [loopcheckInit]
  loop := by
    refine ⟨?_, ?_, ?_, ?_, fun _ _ _ => rfl, ?_, ?_, ?_, ?_, ?_, ?_⟩
    all_goals simp [loopcheckInit]

/-- A command that holds the lock gives it back. -/
theorem lock_freed {k : ℕ} {cmd : Command} (hlock : s.lock = some (.command k cmd)) :
    ∃ e, (next s e).lock = none ∧ (next s e).round = s.round := by
  by_cases hdone : s.atcmd = 0
  · exact ⟨.atTimeout, by simp [next, atTimeout, hlock, hdone]⟩
  · exact ⟨.atWake, by simp [next, atWake, hlock, hdone]⟩

theorem Sound.not_hung (h : Sound s) : ¬ Hung s := by
  rintro ⟨hsome, hsame⟩
  have hnext : (roundNext s .lost).round = s.round := hsame [.roundNext .lost]
  unfold roundNext at hnext
  cases hr : s.round with
  | none => exact hsome hr
  | some r =>
    rw [hr] at hnext
    cases r with
    | begin =>
      dsimp only at hnext
      split at hnext <;> cases hnext
    | lock =>
      cases hlock : s.lock with
      | none =>
        simp [hlock] at hnext
      | some holder =>
        cases holder with
        | round k =>
          rw [h.loop.holder k, hr] at hlock
          cases hlock
        | command k cmd =>
          -- it is the command's turn first
          obtain ⟨e, hfree, hround⟩ := lock_freed hlock
          have hafter : (roundNext (next s e) .lost).round = s.round := hsame [e, .roundNext .lost]
          simp [roundNext, hround, hr, hfree] at hafter
    | wait k =>
      by_cases hdone : s.loop = 0
      · have hafter := hsame [.roundTimeout]
        simp [next, roundTimeout, hr, hdone] at hafter
      · simp [hdone] at hnext
    | woken k timeleft =>
      dsimp only at hnext
      split at hnext
      · cases hnext
      · split at hnext
        · cases hnext
        · simp only [queueDelayedWork] at hnext
          split at hnext <;> cases hnext
    | stop k => exact (h.loop.runs k).1 hr
    | stopping k p => exact (h.loop.runs k).2.2 p hr
    | assert k => exact (h.loop.runs k).2.1 hr

theorem Sound.paired (h : Sound s) : Paired s :=
  ⟨h.atCommands.acks, h.atCommands.ants, h.loop.rounds, h.not_hung⟩

theorem Sound.next (h : Sound s) {e : Event} (hC : Timely s e) : Sound (next s e) := by
  cases e with
  | atCommand cmd send =>
    refine ⟨h.atCommands.atCommand cmd send, ?_⟩
    simp only [Loopcheck.next, Loopcheck.atCommand]
    split
    · exact h.loop
    · rename_i hfree
      have hnone : s.lock = none := by simpa using hfree
      split
      all_goals exact h.loop.congr rfl rfl rfl rfl rfl rfl rfl rfl rfl (by simp) (by simp [hnone])
  | atWake =>
    refine ⟨h.atCommands.atWake, ?_⟩
    simp only [Loopcheck.next, Loopcheck.atWake]
    split
    · rename_i k cmd hlock
      split
      · exact h.loop
      · exact h.loop.congr rfl rfl rfl rfl rfl rfl rfl rfl rfl (le_refl _) (by simp [hlock])
    · exact h.loop
  | atTimeout =>
    refine ⟨h.atCommands.atTimeout, ?_⟩
    simp only [Loopcheck.next, Loopcheck.atTimeout]
    split
    · rename_i k cmd hlock
      split
      · exact h.loop.congr rfl rfl rfl rfl rfl rfl rfl rfl rfl (le_refl _) (by simp [hlock])
      · exact h.loop
    · exact h.loop
  | antRead k =>
    refine ⟨h.atCommands.antRead k, ?_⟩
    simp only [Loopcheck.next, Loopcheck.antRead]
    split
    · exact h.loop.congr rfl rfl rfl rfl rfl rfl rfl rfl rfl (le_refl _) (by simp)
    · exact h.loop
  | atResponse k data =>
    refine ⟨h.atCommands.mdbgAtCmdRead hC, ?_⟩
    simp only [Loopcheck.next, Loopcheck.mdbgAtCmdRead]
    split
    · split
      all_goals exact h.loop.congr rfl rfl rfl rfl rfl rfl rfl rfl rfl (le_refl _) (by simp)
    · exact h.loop
  | loopResponse k length =>
    refine ⟨?_, h.loop.mdbgLoopcheckRead hC⟩
    simp only [Loopcheck.next, Loopcheck.mdbgLoopcheckRead]
    split
    · split
      all_goals exact h.atCommands.congr rfl rfl rfl rfl rfl rfl rfl (le_refl _) (by simp)
    · exact h.atCommands
  | workRun =>
    refine ⟨?_, h.loop.workRun⟩
    simp only [Loopcheck.next, Loopcheck.workRun]
    split
    · exact h.atCommands.congr rfl rfl rfl rfl rfl rfl rfl (le_refl _) (by simp)
    · exact h.atCommands
  | roundNext send =>
    refine ⟨?_, h.loop.roundNext send⟩
    simp only [Loopcheck.next, Loopcheck.roundNext]
    split
    · exact h.atCommands
    · split
      all_goals exact h.atCommands.congr rfl rfl rfl rfl rfl rfl rfl (le_refl _) (by simp)
    · split
      · exact h.atCommands
      · rename_i hfree
        have hnone : s.lock = none := by simpa using hfree
        exact h.atCommands.congr rfl rfl rfl rfl rfl rfl rfl (by simp) (by simp [hnone])
    · rename_i k hr
      split
      · exact h.atCommands
      · have hlock := (h.loop.holder k).mpr hr
        exact h.atCommands.congr rfl rfl rfl rfl rfl rfl rfl (le_refl _) (by simp [hlock])
    · rename_i k timeleft _
      have hend : ∀ timedOut, AtSound (endRound s k timedOut false) := fun _ =>
        h.atCommands.congr rfl rfl rfl rfl rfl rfl rfl (le_refl _) (by simp [endRound])
      split
      · exact hend _
      · split
        · exact h.atCommands.congr rfl rfl rfl rfl rfl rfl rfl (le_refl _) (by simp)
        · rw [queueDelayedWork]
          split
          · exact hend false
          · exact (hend false).congr rfl rfl rfl rfl rfl rfl rfl (le_refl _) (by simp)
    · split
      all_goals exact h.atCommands.congr rfl rfl rfl rfl rfl rfl rfl (le_refl _) (by simp)
    · exact h.atCommands.congr rfl rfl rfl rfl rfl rfl rfl (le_refl _) (by simp)
    · exact h.atCommands.congr rfl rfl rfl rfl rfl rfl rfl (le_refl _) (by simp)
    · exact h.atCommands
    · exact h.atCommands.congr rfl rfl rfl rfl rfl rfl rfl (le_refl _) (by simp [endRound])
  | roundTimeout =>
    simp only [Loopcheck.next, Loopcheck.roundTimeout]
    split
    · rename_i k hr
      rw [if_neg (hC (.wait k) hr rfl)]
      exact h
    · exact h
  | start =>
    refine ⟨?_, h.loop.startLoopcheck hC⟩
    simp only [Loopcheck.next, Loopcheck.startLoopcheck]
    split
    · exact h.atCommands
    · exact h.atCommands.congr rfl rfl rfl rfl rfl rfl rfl (le_refl _) (by simp)
  | startNext i =>
    refine ⟨?_, h.loop.startNext i⟩
    simp only [Loopcheck.next, Loopcheck.startNext]
    split
    · exact h.atCommands
    · exact h.atCommands.congr rfl rfl rfl rfl rfl rfl rfl (le_refl _) (by simp)
    · rw [queueDelayedWork]
      split
      all_goals exact h.atCommands.congr rfl rfl rfl rfl rfl rfl rfl (le_refl _) (by simp)
  | stop =>
    simp only [Loopcheck.next, Loopcheck.stopLoopcheck]
    split
    · exact ⟨h.atCommands.congr rfl rfl rfl rfl rfl rfl rfl (le_refl _) (by simp),
        h.loop.close _⟩
    · exact h
  | stopNext i =>
    refine ⟨?_, h.loop.stopNext i⟩
    simp only [Loopcheck.next, Loopcheck.stopNext]
    split
    · exact h.atCommands
    · exact h.atCommands.congr rfl rfl rfl rfl rfl rfl rfl (le_refl _) (by simp)
    · exact h.atCommands.congr rfl rfl rfl rfl rfl rfl rfl (le_refl _) (by simp)
    · split
      · exact h.atCommands
      · exact h.atCommands.congr rfl rfl rfl rfl rfl rfl rfl (le_refl _) (by simp)

/-- In a run whose answers come in time and whose starts find nothing left, every command, every
antenna number and every round is paired with its own answer. -/
theorem paired_of_timely (es : List Event) (h : Along step Timely loopcheckInit es) :
    ∀ es₁ es₂ t, es = es₁ ++ es₂ → run step loopcheckInit es₁ = .ok t → Paired t := by
  apply prefixes_of_along_total (fun _ _ => rfl) (fun s (h : Sound s) => h.paired) sound_init
  · intro s e h hC
    exact h.next hC
  · exact h

instance (s : State) (e : Event) : Decidable (Timely s e) :=
  match e with
  | .atResponse k data => inferInstanceAs (Decidable (k ∈ s.atOut →
      data.length ≤ MDBG_AT_CMD_SIZE → (∃ h ∈ s.lock, h.isCommand k = true) ∧ s.reading = []))
  | .loopResponse k length => inferInstanceAs (Decidable (k ∈ s.loopOut →
      length ≤ MDBG_LOOPCHECK_SIZE →
        s.round = some (.wait k) ∨ s.opened = false ∨ StartPhase.reinit ∈ s.starts))
  | .roundTimeout => inferInstanceAs (Decidable (∀ r ∈ s.round, r.waits = true → s.loop ≠ 0))
  | .start => inferInstanceAs (Decidable (s.opened = false →
      s.starts = [] ∧ s.stops = [] ∧ s.queued = false ∧ s.round = none))
  | .atCommand .. | .atWake | .atTimeout | .antRead _ | .workRun | .roundNext _ | .startNext _
  | .stop | .stopNext _ => isTrue trivial

/-- The antenna number is asked for, a round is answered, and the next one is stopped. -/
def sampleRun : List Event :=
  [.atCommand .getBoardAntNum .sent, .atResponse 0 [0x32], .atWake, .antRead 0, .start,
    .startNext 0, .startNext 0, .workRun, .roundNext .sent, .roundNext .sent, .loopResponse 1 4,
    .roundNext .sent, .roundNext .sent, .workRun, .roundNext .sent, .roundNext .sent, .stop,
    .stopNext 0, .roundNext .sent, .stopNext 0, .roundNext .sent, .stopNext 0]

theorem sampleRun_paired : ∃ t, run step loopcheckInit sampleRun = .ok t ∧ Paired t :=
  ⟨_, rfl, paired_of_timely sampleRun (by decide) sampleRun [] _ (List.append_nil _).symm rfl⟩

/-! ## Where it goes wrong -/

/-- A round in the `stop_loopcheck` it called itself waits for itself for good. -/
theorem stopping_hangs {k : ℕ} (h : s.round = some (.stopping k .wait)) : Hung s := by
  refine ⟨by simp [h], fun es => ?_⟩
  induction es generalizing s with
  | nil => rfl
  | cons e es ih =>
    have hkeep : (next s e).round = s.round := by
      cases e with
      | atCommand cmd send =>
        simp only [next, atCommand]
        split
        · rfl
        · split <;> rfl
      | atWake =>
        simp only [next, atWake]
        split
        · split <;> rfl
        · rfl
      | atTimeout =>
        simp only [next, atTimeout]
        split
        · split <;> rfl
        · rfl
      | antRead k => simp only [next, antRead]; split <;> rfl
      | atResponse k data =>
        simp only [next, mdbgAtCmdRead]
        split
        · split <;> rfl
        · rfl
      | loopResponse k length =>
        simp only [next, mdbgLoopcheckRead]
        split
        · split <;> rfl
        · rfl
      | workRun => simp [next, workRun, h]
      | roundNext send => simp [next, roundNext, h]
      | roundTimeout => simp [next, roundTimeout, h]
      | start => simp only [next, startLoopcheck]; split <;> rfl
      | startNext i =>
        simp only [next, startNext]
        split
        · rfl
        · rfl
        · simp only [queueDelayedWork]
          split <;> rfl
      | stop => simp only [next, stopLoopcheck]; split <;> rfl
      | stopNext i =>
        simp only [next, stopNext]
        split
        · rfl
        · rfl
        · rfl
        · split <;> rfl
    rw [List.foldl_cons, ← hkeep]
    exact ih (hkeep.trans h)

/-- The answer to a command that timed out acknowledges the next one, which CP2 has not answered;
an answer to another command is evaluated as the antenna number; and a round without a response
never comes out of its `stop_loopcheck`. -/
theorem late_answers_mispair :
    (∃ a ∈ ([.atCommand .getCp2Version .sent, .atTimeout, .atResponse 0 [],
        .atCommand (.switchCp2Log true) .sent, .atWake].foldl next loopcheckInit).acks,
      a = (1, false)) ∧
    (∃ a ∈ ([.atCommand .getBoardAntNum .sent, .atResponse 0 [0x32], .atWake,
        .atCommand .getCp2Version .sent, .atResponse 1 [0x33], .antRead 0].foldl next
          loopcheckInit).ants,
      a = (0, [0x33])) ∧
    ¬ ∀ es : List Event, Paired (es.foldl next loopcheckInit) := by
  refine ⟨⟨_, by decide, rfl⟩, ⟨_, by decide, rfl⟩, fun hpaired => ?_⟩
  have h := hpaired [.start, .startNext 0, .startNext 0, .workRun, .roundNext .sent,
    .roundNext .sent, .roundTimeout, .roundNext .sent, .roundNext .sent, .roundNext .sent,
    .roundNext .sent]
  exact h.ends (stopping_hangs (k := 0) (by decide))

end Uwe5631.Loopcheck
