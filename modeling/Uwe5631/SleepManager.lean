import Uwe5631.FallibleRuns
import Mathlib

/-!
# The sleep manager

Users of the bus mark their subsystem as active, wake the CP up, and take the mark away again; the CP
may sleep when no subsystem is marked.
-/
namespace Uwe5631.SlpMgr
open FallibleRuns

/-- `enum slp_subsys` -/
abbrev Subsys := ℕ

abbrev PACKER_DT_RX : Subsys := 3
abbrev DBG_TOOL : Subsys := 10

/-- How a chip tells its sleep status. -/
structure Chip where
  /-- `SLEEP_STATUS_FLAG` -/
  sleepStatusFlag : BitVec 8
  /-- the masked statuses that are not awake -/
  asleep : List (BitVec 8)
  /-- whether bit 31 of `CP_WAKE_STATUS` has to be clear -/
  cpWakeStatus : Bool

def uwe5621 : Chip := ⟨0xF0, [0x00, 0x30], false⟩
def uwe5622 : Chip := ⟨0xF0, [0x00, 0x30, 0x40, 0x10, 0x20], false⟩
def uwe5623 : Chip := ⟨0x0F, [0x00, 0x03, 0x04, 0x01, 0x02], true⟩

/-- What a turn of the loop of `slp_mgr_wakeup` reads, and whether the time is over at its end. -/
structure Poll where
  /-- `REG_BTWF_SLP_STS`, or an error -/
  slpSts : Option (BitVec 8)
  /-- `CP_WAKE_STATUS`, or an error -/
  wakeStatus : Option (BitVec 32)
  late : Bool

/-- The sleep status is one of a CP that is awake. -/
def Chip.statusAwake (chip : Chip) (poll : Poll) : Bool :=
  match poll.slpSts with
  | none => false
  | some slpSts => !chip.asleep.contains (slpSts &&& chip.sleepStatusFlag)

/-- The turn leaves the loop. `reg_val` is 0 behind a read of `CP_WAKE_STATUS` that fails, whose result
is not looked at. -/
def Chip.awake (chip : Chip) (poll : Poll) : Bool :=
  chip.statusAwake poll && (!chip.cpWakeStatus || !(poll.wakeStatus.getD 0).getLsbD 31)

/-- What has been read is that the CP is awake. -/
def Chip.observed (chip : Chip) (poll : Poll) : Bool :=
  chip.statusAwake poll &&
    (!chip.cpWakeStatus || poll.wakeStatus.any fun regVal => !regVal.getLsbD 31)

/-- `cp2_state` -/
inductive Cp2State where
  | staySlping
  | stayAwaking
  deriving DecidableEq, Repr

/-- Where a user is. -/
inductive Phase where
  /-- behind `slp_mgr_drv_sleep(s, false)` -/
  | marked
  /-- in the loop of `slp_mgr_wakeup` -/
  | polling (doDump : Bool)
  /-- behind the loop, about to set `cp2_state` and to return 0 -/
  | woken
  /-- the same, but to return -1 -/
  | failing
  /-- behind `slp_mgr_wakeup`, which has returned 0 -/
  | awake
  /-- the same, but -1 -/
  | failed
  /-- in `slp_mgr_drv_sleep(s, true)`, about to call `slp_allow_sleep` -/
  | allowing
  /-- in `slp_mgr_drv_sleep(s, true)`, about to set `cp2_state` -/
  | allowed
  deriving DecidableEq, Repr

structure User where
  subsys : Subsys
  phase : Phase
  deriving DecidableEq, Repr

/-- `struct slp_mgr_t` and its users. -/
structure State where
  /-- the subsystems whose bit is set in `active_module` -/
  activeModule : Finset Subsys
  cp2State : Cp2State
  users : List User
  /-- whether the CP has been seen awake since the last `slp_allow_sleep` -/
  seenAwake : Bool

inductive Event where
  /-- `slp_mgr_drv_sleep(s, false)` -/
  | enter (subsys : Subsys)
  /-- the next step of a user, and what it reads if it is in the loop of `slp_mgr_wakeup` -/
  | next (i : ℕ) (poll : Poll)

/-- `drv_slp_lock` is held. -/
def State.drvSlpLocked (s : State) : Bool :=
  s.users.any fun u => u.phase = .allowing ∨ u.phase = .allowed

/-- `wakeup_lock` is held. -/
def State.wakeupLocked (s : State) : Bool :=
  s.users.any fun u => u.phase = .polling false ∨ u.phase = .polling true ∨ u.phase = .woken ∨
    u.phase = .failing

def State.moveOn (s : State) (i : ℕ) (u : User) (phase : Phase) : State :=
  { s with users := s.users.set i ⟨u.subsys, phase⟩ }

def State.leave (s : State) (i : ℕ) : State := { s with users := s.users.eraseIdx i }

/-- `slp_mgr_drv_sleep(s, false)`: the mask is not 0 behind it. -/
def enter (s : State) (subsys : Subsys) : State :=
  if s.drvSlpLocked then s
  else
    { s with
      activeModule := insert subsys s.activeModule
      users := s.users ++ [⟨subsys, .marked⟩] }

/-- The next step of a user; one at a mutex that is held stays there. `host` is
`marlin_get_bt_wl_wake_host_en`. -/
def goOn (chip : Chip) (host : Bool) (s : State) (i : ℕ) (poll : Poll) : State :=
  match s.users[i]? with
  | none => s
  | some u =>
    match u.phase with
    | .marked =>
      if s.wakeupLocked then s
      else if s.cp2State = .staySlping then s.moveOn i u (.polling false) else s.moveOn i u .awake
    | .polling doDump =>
      let s := { s with seenAwake := s.seenAwake || chip.observed poll }
      if chip.awake poll then s.moveOn i u .woken
      else if doDump then s.moveOn i u .failing
      else s.moveOn i u (.polling poll.late)
    | .woken => { s.moveOn i u .awake with cp2State := .stayAwaking }
    | .failing => { s.moveOn i u .failed with cp2State := .stayAwaking }
    | .awake | .failed =>
      if s.drvSlpLocked then s
      else
        let s := { s with activeModule := s.activeModule.erase u.subsys }
        if s.activeModule = ∅ ∧ (host ∨ PACKER_DT_RX < u.subsys) then s.moveOn i u .allowing
        else s.leave i
    | .allowing => { s.moveOn i u .allowed with seenAwake := false }
    | .allowed => { s.leave i with cp2State := .staySlping }

def stepTo (chip : Chip) (host : Bool) (s : State) : Event → State
  | .enter subsys => enter s subsys
  | .next i poll => goOn chip host s i poll

def step (chip : Chip) (host : Bool) (s : State) (e : Event) : Except Empty State :=
  .ok (stepTo chip host s e)

/-- `slp_mgr_init` -/
def init : State := ⟨∅, .stayAwaking, [], true⟩

/-- A user whose `slp_mgr_wakeup` has returned 0 relies on a CP that has been seen awake since the last
`slp_allow_sleep`, until it calls `slp_mgr_drv_sleep(s, true)`. -/
def Safe (s : State) : Prop := ∀ u ∈ s.users, u.phase = .awake → s.seenAwake = true

/-- `CP_WAKE_STATUS` is read where the chip has it and the sleep status is one of a CP that is awake. -/
def Chip.Reads (chip : Chip) (poll : Poll) : Prop :=
  chip.cpWakeStatus = true → chip.statusAwake poll = true → poll.wakeStatus.isSome = true

instance (chip : Chip) (poll : Poll) : Decidable (chip.Reads poll) :=
  inferInstanceAs (Decidable (_ → _ → _))

/-- No wake-up fails, no read of `CP_WAKE_STATUS` does, and no subsystem is unmarked while another user
of it is between its calls of `slp_mgr_drv_sleep`. -/
def Apart (chip : Chip) (s : State) : Event → Prop
  | .enter _ => True
  | .next i poll => ∀ u, s.users[i]? = some u →
    (u.phase = .polling true → chip.awake poll = true) ∧
      (u.phase = .polling false ∨ u.phase = .polling true → chip.Reads poll) ∧
      (u.phase = .awake → u.subsys ∉ (s.users.eraseIdx i).map User.subsys)

/-- Between its calls of `slp_mgr_drv_sleep`. -/
def Phase.marks : Phase → Bool
  | .marked | .polling _ | .woken | .failing | .awake | .failed => true
  | .allowing | .allowed => false

/-- What holds along runs whose users keep apart. -/
structure Sound (s : State) : Prop where
  /-- a user between its calls has its subsystem marked -/
  marks : ∀ u ∈ s.users, u.phase.marks = true → u.subsys ∈ s.activeModule
  /-- no subsystem is marked while one lets the CP sleep -/
  none : ∀ u ∈ s.users, u.phase = .allowing ∨ u.phase = .allowed → s.activeModule = ∅
  /-- no wake-up has failed -/
  wakes : ∀ u ∈ s.users, u.phase ≠ .failing ∧ u.phase ≠ .failed
  /-- a user that has woken the CP has seen it awake -/
  seen : ∀ u ∈ s.users, u.phase = .woken ∨ u.phase = .awake → s.seenAwake = true
  /-- `cp2_state` claims no CP awake that has not been seen so, except behind `slp_allow_sleep` -/
  state : s.cp2State = .stayAwaking → s.seenAwake = true ∨ ∃ u ∈ s.users, u.phase = .allowed

variable {chip : Chip} {host : Bool} {s : State} {i : ℕ} {u v : User}

instance (chip : Chip) (s : State) (e : Event) : Decidable (Apart chip s e) :=
  match e with
  | .enter _ => isTrue trivial
  | .next i poll =>
    match h : s.users[i]? with
    | none => isTrue (by simp [Apart, h])
    | some u =>
      decidable_of_iff ((u.phase = .polling true → chip.awake poll = true) ∧
        (u.phase = .polling false ∨ u.phase = .polling true → chip.Reads poll) ∧
        (u.phase = .awake → u.subsys ∉ (s.users.eraseIdx i).map User.subsys)) (by simp [Apart, h])

/-- A turn that leaves the loop has seen the CP awake, if it could read that. -/
theorem Chip.observed_of_awake {poll : Poll} (hreads : chip.Reads poll)
    (h : chip.awake poll = true) : chip.observed poll = true := by
  obtain ⟨hstatus, hwake⟩ := Bool.and_eq_true_iff.mp h
  refine Bool.and_eq_true_iff.mpr ⟨hstatus, ?_⟩
  cases hchip : chip.cpWakeStatus with
  | false => rfl
  | true =>
    obtain ⟨regVal, hregVal⟩ := Option.isSome_iff_exists.mp (hreads hchip hstatus)
    rw [hchip, hregVal] at hwake
    rw [hregVal]
    exact hwake

theorem mem_of_others (hv : v ∈ s.users.eraseIdx i) : v ∈ s.users := List.mem_of_mem_eraseIdx hv

/-- The users are the one that has gone on and the others. -/
theorem mem_moveOn (hu : s.users[i]? = some u) {phase : Phase} :
    v ∈ (s.moveOn i u phase).users ↔ v = ⟨u.subsys, phase⟩ ∨ v ∈ s.users.eraseIdx i := by
  have hi := (List.getElem?_eq_some_iff.mp hu).1
  rw [State.moveOn, (List.set_perm_cons_eraseIdx hi _).mem_iff, List.mem_cons]

/-- While one user has its subsystem marked, none lets the CP sleep. -/
theorem Sound.apart (h : Sound s) (hu : u ∈ s.users) (hmarks : u.phase.marks = true)
    (hv : v ∈ s.users) : ¬ (v.phase = .allowing ∨ v.phase = .allowed) := by
  intro hallow
  have hmarked := h.marks u hu hmarks
  rw [h.none v hv hallow] at hmarked
  exact Finset.notMem_empty _ hmarked

/-- A user with its subsystem marked finds `cp2_state` right. -/
theorem Sound.awaking (h : Sound s) (hu : u ∈ s.users) (hmarks : u.phase.marks = true)
    (hstate : s.cp2State = .stayAwaking) : s.seenAwake = true := by
  rcases h.state hstate with hseen | ⟨v, hv, hallowed⟩
  · exact hseen
  · exact absurd (Or.inr hallowed) (h.apart hu hmarks hv)

theorem Sound.see (h : Sound s) (observed : Bool) :
    Sound { s with seenAwake := s.seenAwake || observed } where
  marks := h.marks
  none := h.none
  wakes := h.wakes
  seen := fun u hu hphase => Bool.or_eq_true_iff.mpr (Or.inl (h.seen u hu hphase))
  state := fun hstate => (h.state hstate).imp_left fun hseen => Bool.or_eq_true_iff.mpr (Or.inl hseen)

theorem Sound.setAwaking (h : Sound s) (hseen : s.seenAwake = true) :
    Sound { s with cp2State := .stayAwaking } where
  marks := h.marks
  none := h.none
  wakes := h.wakes
  seen := h.seen
  state := fun _ => Or.inl hseen

/-- A user goes on between its calls. -/
theorem Sound.moveOn (h : Sound s) (hu : s.users[i]? = some u) {phase : Phase}
    (hold : u.phase.marks = true) (hnew : phase.marks = true)
    (hwakes : phase ≠ .failing ∧ phase ≠ .failed)
    (hseen : phase = .woken ∨ phase = .awake → s.seenAwake = true) : Sound (s.moveOn i u phase) where
  marks := by
    intro v hv hmarks
    rcases (mem_moveOn hu).mp hv with rfl | hv
    · exact h.marks u (List.mem_of_getElem? hu) hold
    · exact h.marks v (mem_of_others hv) hmarks
  none := by
    intro v hv hallow
    rcases (mem_moveOn hu).mp hv with rfl | hv
    · rcases hallow with rfl | rfl <;> cases hnew
    · exact h.none v (mem_of_others hv) hallow
  wakes := by
    intro v hv
    rcases (mem_moveOn hu).mp hv with rfl | hv
    · exact hwakes
    · exact h.wakes v (mem_of_others hv)
  seen := by
    intro v hv hphase
    rcases (mem_moveOn hu).mp hv with rfl | hv
    · exact hseen hphase
    · exact h.seen v (mem_of_others hv) hphase
  state := fun hstate => Or.inl (h.awaking (List.mem_of_getElem? hu) hold hstate)

theorem not_allowing (hfree : s.drvSlpLocked = false) (hv : v ∈ s.users) :
    ¬ (v.phase = .allowing ∨ v.phase = .allowed) := by
  have := List.any_eq_false.mp hfree v hv
  simpa using this

/-- A user leaves, with its subsystem unmarked. -/
theorem Sound.unmark (h : Sound s) (hu : s.users[i]? = some u) (hfree : s.drvSlpLocked = false)
    (hmarks : u.phase.marks = true) (hapart : u.subsys ∉ (s.users.eraseIdx i).map User.subsys)
    {users : List User} (hall : ∀ v ∈ users, v ∈ s.users.eraseIdx i ∨
      v.phase = .allowing ∧ s.activeModule.erase u.subsys = ∅) :
    Sound { s with activeModule := s.activeModule.erase u.subsys, users := users } where
  marks := by
    intro v hv hphase
    rcases hall v hv with hv | ⟨hallow, -⟩
    · have hne : v.subsys ≠ u.subsys := fun heq => hapart (heq ▸ List.mem_map_of_mem hv)
      exact Finset.mem_erase.mpr ⟨hne, h.marks v (mem_of_others hv) hphase⟩
    · rw [hallow] at hphase
      cases hphase
  none := by
    intro v hv hallow
    rcases hall v hv with hv | ⟨-, hempty⟩
    · exact absurd hallow (not_allowing hfree (mem_of_others hv))
    · exact hempty
  wakes := by
    intro v hv
    rcases hall v hv with hv | ⟨hallow, -⟩
    · exact h.wakes v (mem_of_others hv)
    · simp [hallow]
  seen := by
    intro v hv hphase
    rcases hall v hv with hv | ⟨hallow, -⟩
    · exact h.seen v (mem_of_others hv) hphase
    · simp [hallow] at hphase
  state := fun hstate => Or.inl (h.awaking (List.mem_of_getElem? hu) hmarks hstate)

/-- `slp_allow_sleep` is called while no user has its subsystem marked. -/
theorem Sound.allow (h : Sound s) (hu : s.users[i]? = some u) (hphase : u.phase = .allowing) :
    Sound { s.moveOn i u .allowed with seenAwake := false } where
  marks := by
    intro v hv hmarks
    rcases (mem_moveOn hu).mp hv with rfl | hv
    · cases hmarks
    · exact h.marks v (mem_of_others hv) hmarks
  none := fun _ _ _ => h.none u (List.mem_of_getElem? hu) (Or.inl hphase)
  wakes := by
    intro v hv
    rcases (mem_moveOn hu).mp hv with rfl | hv
    · simp
    · exact h.wakes v (mem_of_others hv)
  seen := by
    intro v hv hawake
    rcases (mem_moveOn hu).mp hv with rfl | hv
    · simp at hawake
    · have hmarks : v.phase.marks = true := by rcases hawake with hawake | hawake <;> simp [hawake, Phase.marks]
      exact absurd (Or.inl hphase) (h.apart (mem_of_others hv) hmarks (List.mem_of_getElem? hu))
  state := fun _ => Or.inr ⟨⟨u.subsys, .allowed⟩, (mem_moveOn hu).mpr (Or.inl rfl), rfl⟩

theorem Sound.sleep (h : Sound s) : Sound { s.leave i with cp2State := .staySlping } where
  marks := fun v hv => h.marks v (mem_of_others hv)
  none := fun v hv => h.none v (mem_of_others hv)
  wakes := fun v hv => h.wakes v (mem_of_others hv)
  seen := fun v hv => h.seen v (mem_of_others hv)
  state := fun hstate => by cases hstate

theorem Sound.enter (h : Sound s) (subsys : Subsys) : Sound (enter s subsys) := by
  rw [SlpMgr.enter]
  split
  · exact h
  · rename_i hlocked
    have hfree : s.drvSlpLocked = false := by simpa using hlocked
    have hmem {v : User} (hv : v ∈ s.users ++ [⟨subsys, .marked⟩]) :
        v ∈ s.users ∨ v = ⟨subsys, .marked⟩ := by simpa using hv
    constructor
    · intro v hv hmarks
      rcases hmem hv with hv | rfl
      · exact Finset.mem_insert_of_mem (h.marks v hv hmarks)
      · exact Finset.mem_insert_self _ _
    · intro v hv hallow
      rcases hmem hv with hv | rfl
      · exact absurd hallow (not_allowing hfree hv)
      · simp at hallow
    · intro v hv
      rcases hmem hv with hv | rfl
      · exact h.wakes v hv
      · simp
    · intro v hv hawake
      rcases hmem hv with hv | rfl
      · exact h.seen v hv hawake
      · simp at hawake
    · intro hstate
      rcases h.state hstate with hseen | ⟨v, hv, hallowed⟩
      · exact Or.inl hseen
      · exact absurd (Or.inr hallowed) (not_allowing hfree hv)

theorem Sound.goOn (h : Sound s) {poll : Poll} (hapart : Apart chip s (.next i poll)) :
    Sound (goOn chip host s i poll) := by
  rw [SlpMgr.goOn]
  cases hu : s.users[i]? with
  | none => exact h
  | some u =>
    have hmem := List.mem_of_getElem? hu
    obtain ⟨hwake, hreads, hunmark⟩ := hapart u hu
    dsimp only
    cases hphase : u.phase with
    | marked =>
      have hmarks : u.phase.marks = true := by rw [hphase]; rfl
      dsimp only
      split
      · exact h
      · split
        · exact h.moveOn hu hmarks rfl (by simp) (by simp)
        · rename_i hstate
          have hawaking : s.cp2State = .stayAwaking := by
            cases hcp2 : s.cp2State with
            | staySlping => exact absurd hcp2 hstate
            | stayAwaking => rfl
          exact h.moveOn hu hmarks rfl (by simp) fun _ => h.awaking hmem hmarks hawaking
    | polling doDump =>
      have hmarks : u.phase.marks = true := by rw [hphase]; rfl
      have hread : chip.Reads poll := hreads (by cases doDump <;> simp [hphase])
      have hsee := h.see (chip.observed poll)
      dsimp only
      split
      · rename_i hawake
        refine hsee.moveOn hu hmarks rfl (by simp) fun _ => ?_
        exact Bool.or_eq_true_iff.mpr (Or.inr (Chip.observed_of_awake hread hawake))
      · rename_i hasleep
        split
        · rename_i hdump
          rw [hdump] at hphase
          exact absurd (hwake hphase) hasleep
        · exact hsee.moveOn hu hmarks rfl (by simp) (by simp)
    | woken =>
      have hseen := h.seen u hmem (Or.inl hphase)
      exact (h.setAwaking hseen).moveOn hu (by rw [hphase]; rfl) rfl (by simp) fun _ => hseen
    | failing => exact absurd hphase (h.wakes u hmem).1
    | awake =>
      have hmarks : u.phase.marks = true := by rw [hphase]; rfl
      dsimp only
      split
      · exact h
      · rename_i hlocked
        have hfree : s.drvSlpLocked = false := by simpa using hlocked
        split
        · rename_i hempty
          apply h.unmark hu hfree hmarks (hunmark hphase)
          intro v hv
          rcases (mem_moveOn hu).mp hv with rfl | hv
          · exact Or.inr ⟨rfl, hempty.1⟩
          · exact Or.inl hv
        · exact h.unmark hu hfree hmarks (hunmark hphase) fun v hv => Or.inl hv
    | failed => exact absurd hphase (h.wakes u hmem).2
    | allowing => exact h.allow hu hphase
    | allowed => exact h.sleep

theorem Sound.safe (h : Sound s) : Safe s := fun u hu hawake => h.seen u hu (Or.inr hawake)

theorem init_sound : Sound init := by
  constructor <;> simp [init]

/-- In every state of a run whose users keep apart, a user that has woken the CP has it awake. -/
theorem sleep_manager_safe (chip : Chip) (host : Bool) (es : List Event)
    (hapart : Along (step chip host) (Apart chip) init es) :
    ∀ es₁ es₂ t, es = es₁ ++ es₂ → run (step chip host) init es₁ = .ok t → Safe t := by
  apply prefixes_of_along_total (fun _ _ => rfl) (fun s (h : Sound s) => h.safe) init_sound
  · intro s e h hC
    cases e with
    | enter subsys => exact h.enter subsys
    | next i poll => exact h.goOn hC
  · exact hapart

/-- A user after another, the second one after the CP has been let sleep. -/
def sampleUsers : List Event :=
  [.enter DBG_TOOL, .next 0 ⟨none, none, false⟩, .next 0 ⟨none, none, false⟩,
    .next 0 ⟨none, none, false⟩, .next 0 ⟨none, none, false⟩, .enter DBG_TOOL,
    .next 0 ⟨none, none, false⟩, .next 0 ⟨some 0x0F, some 0x80000000, false⟩,
    .next 0 ⟨some 0x0F, some 0, false⟩, .next 0 ⟨none, none, false⟩]

theorem two_users_safe : ∃ t, run (step uwe5623 true) init sampleUsers = .ok t ∧ Safe t :=
  ⟨_, rfl, sleep_manager_safe uwe5623 true sampleUsers (by decide) sampleUsers [] _
    (List.append_nil _).symm rfl⟩

/-- A user whose read of `CP_WAKE_STATUS` fails; the second of two users of a subsystem, the first of
which lets the CP sleep; and a user behind one whose wake-up failed. -/
theorem users_find_cp_asleep :
    (∃ t, run (step uwe5623 true) init
      [.enter DBG_TOOL, .next 0 ⟨none, none, false⟩, .next 0 ⟨none, none, false⟩,
        .next 0 ⟨none, none, false⟩, .next 0 ⟨none, none, false⟩, .enter DBG_TOOL,
        .next 0 ⟨none, none, false⟩, .next 0 ⟨some 0x0F, none, false⟩,
        .next 0 ⟨none, none, false⟩] = .ok t ∧ ¬ Safe t) ∧
    (∃ t, run (step uwe5621 true) init
      [.enter DBG_TOOL, .enter DBG_TOOL, .next 0 ⟨none, none, false⟩, .next 1 ⟨none, none, false⟩,
        .next 0 ⟨none, none, false⟩, .next 0 ⟨none, none, false⟩] = .ok t ∧ ¬ Safe t) ∧
    ∃ t, run (step uwe5621 true) init
      [.enter DBG_TOOL, .next 0 ⟨none, none, false⟩, .next 0 ⟨none, none, false⟩,
        .next 0 ⟨none, none, false⟩, .next 0 ⟨none, none, false⟩, .enter DBG_TOOL,
        .next 0 ⟨none, none, false⟩, .next 0 ⟨none, none, true⟩, .next 0 ⟨none, none, true⟩,
        .next 0 ⟨none, none, false⟩, .enter DBG_TOOL, .next 1 ⟨none, none, false⟩] = .ok t ∧
      ¬ Safe t := by
  refine ⟨⟨_, rfl, fun h => ?_⟩, ⟨_, rfl, fun h => ?_⟩, _, rfl, fun h => ?_⟩
  · exact absurd (h ⟨DBG_TOOL, .awake⟩ (by decide) rfl) (by decide)
  · exact absurd (h ⟨DBG_TOOL, .awake⟩ (by decide) rfl) (by decide)
  · exact absurd (h ⟨DBG_TOOL, .awake⟩ (by decide) rfl) (by decide)

end Uwe5631.SlpMgr
