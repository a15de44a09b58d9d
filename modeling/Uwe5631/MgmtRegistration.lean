import Uwe5631.FallibleRuns
import Uwe5631.MachineIntegers
import Mathlib.Logic.Function.Basic
import Mathlib.Data.List.Basic

/-!
# Registered management frames

cfg80211 asks for management subtypes one by one or with a complete bitmap. The driver keeps
its own bitmap and queues a work for each subtype that changes; the works tell the firmware,
in their order. The firmware's set with the waiting works applied is the driver's bitmap.
-/
namespace Uwe5631.MgmtReg
open FallibleRuns

/-- The subtype field of a management frame; bit N of a bitmap stands for `N << 4`. -/
abbrev Subtype := BitVec 4

abbrev Stypes := Subtype → Bool

/-- `IEEE80211_STYPE_AUTH >> 4` -/
def STYPE_AUTH : Subtype := 0xb

/-- `struct sprdwl_reg_mgmt` -/
structure RegMgmt where
  type : Subtype
  reg : Bool
  deriving DecidableEq, Repr

structure State where
  /-- `vif->mode` is not `SPRDWL_MODE_NONE`. -/
  modeSet : Bool
  mgmtReg : Stypes
  /-- The works `SPRDWL_WORK_REG_MGMT`, the oldest first. -/
  works : List RegMgmt
  /-- What the firmware has registered. -/
  firmware : Stypes
  /-- What was last asked for while the interface was open. -/
  requested : Stypes

/-- `sprdwl_register_frame`, in the firmware -/
def registerFrame (firmware : Stypes) (w : RegMgmt) : Stypes :=
  Function.update firmware w.type w.reg

/-- `sprdwl_cfg80211_mgmt_frame_reg_one`. The bitmap is changed before the work is there. -/
def mgmtFrameRegOne (s : State) (type : Subtype) (reg allocated : Bool) : State :=
  if s.modeSet = false then s
  else if type = STYPE_AUTH then s
  else if s.mgmtReg type = reg then s
  else
    let s := { s with mgmtReg := Function.update s.mgmtReg type reg }
    if allocated then { s with works := s.works ++ [⟨type, reg⟩] } else s

/-- The subtypes in the order of `for_each_set_bit`. -/
def subtypes : List Subtype := (List.range 16).map (BitVec.ofNat 4)

/-- `sprdwl_cfg80211_update_mgmt_frame_registrations`: `changed` is taken before the loop. -/
def updateMgmtFrameRegistrations (s : State) (newRegs : Stypes) (allocated : Subtype → Bool) :
    State :=
  (subtypes.filter fun type => newRegs type != s.mgmtReg type).foldl
    (fun t type => mgmtFrameRegOne t type (newRegs type) (allocated type)) s

/-- A work of `sprdwl_do_work`; the command reaches the firmware or not. -/
def sprdwlDoWork (s : State) (delivered : Bool) : State :=
  match s.works with
  | [] => s
  | w :: works =>
    { s with
      works := works
      firmware := if delivered then registerFrame s.firmware w else s.firmware }

inductive Event where
  /-- The interface is opened or closed. -/
  | setMode (modeSet : Bool)
  | registerOne (type : Subtype) (reg allocated : Bool)
  | update (newRegs : Stypes) (allocated : Subtype → Bool)
  | doWork (delivered : Bool)

/-- What is asked for after an event. What comes while the mode is not set cannot be queued. -/
def request (s : State) : Event → Stypes
  | .registerOne type reg _ => if s.modeSet then Function.update s.requested type reg else s.requested
  | .update newRegs _ => if s.modeSet then newRegs else s.requested
  | _ => s.requested

def next (s : State) (e : Event) : State :=
  let t := match e with
    | .setMode modeSet => { s with modeSet := modeSet }
    | .registerOne type reg allocated => mgmtFrameRegOne s type reg allocated
    | .update newRegs allocated => updateMgmtFrameRegistrations s newRegs allocated
    | .doWork delivered => sprdwlDoWork s delivered
  { t with requested := request s e }

/-- A new interface, whose mode is not set. -/
def initial : State := ⟨false, fun _ => false, [], fun _ => false, fun _ => false⟩

/-- No event faults. -/
def step (s : State) (e : Event) : Except Empty State := .ok (next s e)

/-- A registration that gets as far as the allocation of its work. -/
def Changes (s : State) (type : Subtype) (reg : Bool) : Prop :=
  s.modeSet = true ∧ type ≠ STYPE_AUTH ∧ s.mgmtReg type ≠ reg

/-- The work for a change is allocated, and the command of a work reaches the firmware. -/
def Succeeds (s : State) : Event → Prop
  | .setMode _ => True
  | .registerOne type reg allocated => Changes s type reg → allocated = true
  | .update newRegs allocated => ∀ type, Changes s type (newRegs type) → allocated type = true
  | .doWork delivered => s.works ≠ [] → delivered = true

/-- The firmware's set, once the works are done, is the driver's; subtype AUTH is in neither. -/
structure Agrees (s : State) : Prop where
  firmware : s.works.foldl registerFrame s.firmware = s.mgmtReg
  auth : s.mgmtReg STYPE_AUTH = false

variable {s : State}

/-- What one subtype changes. -/
theorem mgmtFrameRegOne_mgmtReg (s : State) (type : Subtype) (reg allocated : Bool) :
    (mgmtFrameRegOne s type reg allocated).mgmtReg =
      if s.modeSet = true ∧ type ≠ STYPE_AUTH then Function.update s.mgmtReg type reg
      else s.mgmtReg := by
  rw [mgmtFrameRegOne]
  cases hmode : s.modeSet with
  | false => simp
  | true =>
    by_cases hauth : type = STYPE_AUTH
    · simp [hauth]
    · by_cases hreg : s.mgmtReg type = reg
      · subst hreg
        simp [hauth]
      · cases allocated <;> simp [hauth, hreg]

theorem mgmtFrameRegOne_modeSet (s : State) (type : Subtype) (reg allocated : Bool) :
    (mgmtFrameRegOne s type reg allocated).modeSet = s.modeSet := by
  rw [mgmtFrameRegOne]
  repeat' split
  all_goals rfl

/-- A registration that changes nothing. -/
theorem mgmtFrameRegOne_same {type : Subtype} {reg : Bool} (h : ¬ Changes s type reg)
    (allocated : Bool) : mgmtFrameRegOne s type reg allocated = s := by
  rw [mgmtFrameRegOne]
  cases hmode : s.modeSet with
  | false => rw [if_pos rfl]
  | true =>
    rw [if_neg (by decide)]
    split
    · rfl
    · rename_i htype
      have hreg : s.mgmtReg type = reg := by
        by_contra hreg
        exact h ⟨hmode, htype, hreg⟩
      rw [if_pos hreg]

theorem mgmtFrameRegOne_agrees (h : Agrees s) {type : Subtype} {reg allocated : Bool}
    (hallocated : Changes s type reg → allocated = true) :
    Agrees (mgmtFrameRegOne s type reg allocated) := by
  by_cases hchanges : Changes s type reg
  · obtain ⟨hmode, htype, hreg⟩ := hchanges
    have heq : mgmtFrameRegOne s type reg allocated =
        { s with
          mgmtReg := Function.update s.mgmtReg type reg
          works := s.works ++ [⟨type, reg⟩] } := by
      simp [mgmtFrameRegOne, hmode, htype, hreg, hallocated ⟨hmode, htype, hreg⟩]
    rw [heq]
    refine ⟨?_, ?_⟩
    · dsimp only
      rw [List.foldl_append, h.firmware]
      rfl
    · dsimp only
      rw [Function.update_of_ne htype.symm]
      exact h.auth
  · rw [mgmtFrameRegOne_same hchanges]
    exact h

/-- A registration leaves no more to change than there was. -/
theorem changes_of_mgmtFrameRegOne {type other : Subtype} {newRegs : Stypes} {allocated : Bool}
    (h : Changes (mgmtFrameRegOne s type (newRegs type) allocated) other (newRegs other)) :
    Changes s other (newRegs other) := by
  obtain ⟨hmode, hother, hreg⟩ := h
  rw [mgmtFrameRegOne_modeSet] at hmode
  refine ⟨hmode, hother, fun hsame => hreg ?_⟩
  rw [mgmtFrameRegOne_mgmtReg]
  split
  · by_cases htype : other = type
    · rw [htype, Function.update_self]
    · rw [Function.update_of_ne htype, hsame]
  · exact hsame

/-- What the loop over a list of subtypes changes. -/
theorem foldl_regOne (newRegs : Stypes) {allocated : Subtype → Bool} (h : Agrees s)
    (types : List Subtype)
    (hallocated : ∀ type, Changes s type (newRegs type) → allocated type = true) :
    let t := types.foldl (fun t type => mgmtFrameRegOne t type (newRegs type) (allocated type)) s
    Agrees t ∧ t.mgmtReg = fun type =>
      if s.modeSet = true ∧ type ∈ types ∧ type ≠ STYPE_AUTH then newRegs type else s.mgmtReg type := by
  induction types generalizing s with
  | nil => exact ⟨h, by simp⟩
  | cons type types ih =>
    obtain ⟨hagrees, hreg⟩ := ih (mgmtFrameRegOne_agrees h (hallocated type))
      (fun other hother => hallocated other (changes_of_mgmtFrameRegOne hother))
    rw [List.foldl_cons]
    refine ⟨hagrees, hreg.trans (funext fun other => ?_)⟩
    rw [mgmtFrameRegOne_modeSet, mgmtFrameRegOne_mgmtReg]
    cases s.modeSet with
    | false => simp
    | true =>
      by_cases hother : other = type
      · subst hother
        by_cases hauth : other = STYPE_AUTH <;> simp [hauth]
      · by_cases hauth : type = STYPE_AUTH
        · subst hauth
          simp [hother]
        · simp [hauth, hother]

theorem mem_subtypes (type : Subtype) : type ∈ subtypes :=
  List.mem_map.mpr ⟨type.toNat, List.mem_range.mpr type.isLt, by rw [BitVec.ofNat_toNat, BitVec.setWidth_eq]⟩

theorem update_agrees (h : Agrees s) (newRegs : Stypes) {allocated : Subtype → Bool}
    (hallocated : ∀ type, Changes s type (newRegs type) → allocated type = true) :
    Agrees (updateMgmtFrameRegistrations s newRegs allocated) ∧
      ∀ type, type ≠ STYPE_AUTH → (updateMgmtFrameRegistrations s newRegs allocated).mgmtReg type =
        if s.modeSet then newRegs type else s.mgmtReg type := by
  obtain ⟨hagrees, hreg⟩ := foldl_regOne newRegs h
    (subtypes.filter fun type => newRegs type != s.mgmtReg type) hallocated
  refine ⟨hagrees, fun type htype => (congrFun hreg type).trans ?_⟩
  cases s.modeSet with
  | false => simp
  | true =>
    by_cases hsame : newRegs type = s.mgmtReg type
    · simp [hsame]
    · simp [hsame, htype, mem_subtypes]

theorem doWork_agrees (h : Agrees s) {delivered : Bool} (hdelivered : s.works ≠ [] → delivered = true) :
    Agrees (sprdwlDoWork s delivered) := by
  rw [sprdwlDoWork]
  split
  · exact h
  · rename_i w works hworks
    rw [hdelivered (by rw [hworks]; exact List.cons_ne_nil _ _), if_pos rfl]
    refine ⟨?_, h.auth⟩
    have hfirmware := h.firmware
    rw [hworks, List.foldl_cons] at hfirmware
    exact hfirmware

theorem doWork_mgmtReg (s : State) (delivered : Bool) :
    (sprdwlDoWork s delivered).mgmtReg = s.mgmtReg := by
  rw [sprdwlDoWork]
  split <;> rfl

/-- The driver's bitmap is what was asked for, without AUTH. -/
structure Follows (s : State) : Prop extends Agrees s where
  requested : ∀ type, type ≠ STYPE_AUTH → s.mgmtReg type = s.requested type

theorem next_follows (h : Follows s) {e : Event} (he : Succeeds s e) : Follows (next s e) := by
  cases e with
  | setMode modeSet => exact ⟨⟨h.firmware, h.auth⟩, h.requested⟩
  | registerOne type reg allocated =>
    have hagrees := mgmtFrameRegOne_agrees h.toAgrees he
    refine ⟨⟨hagrees.firmware, hagrees.auth⟩, fun other hother => ?_⟩
    refine (congrFun (mgmtFrameRegOne_mgmtReg s type reg allocated) other).trans ?_
    simp only [next, request]
    cases s.modeSet with
    | false => simpa using h.requested other hother
    | true =>
      by_cases htype : other = type
      · subst htype
        simp [hother]
      · by_cases hauth : type = STYPE_AUTH <;> simp [hauth, htype, hother, h.requested other hother]
  | update newRegs allocated =>
    obtain ⟨hagrees, hreg⟩ := update_agrees h.toAgrees newRegs he
    refine ⟨⟨hagrees.firmware, hagrees.auth⟩, fun other hother => (hreg other hother).trans ?_⟩
    simp only [next, request]
    cases s.modeSet with
    | false => exact h.requested other hother
    | true => rfl
  | doWork delivered =>
    have hagrees := doWork_agrees h.toAgrees he
    refine ⟨⟨hagrees.firmware, hagrees.auth⟩, fun other hother => ?_⟩
    exact (congrFun (doWork_mgmtReg s delivered) other).trans (h.requested other hother)

theorem run_follows {es : List Event} (hes : Along step Succeeds initial es) :
    ∃ s, run step initial es = .ok s ∧ Follows s :=
  run_completes (fun s e h he => ⟨next s e, rfl, next_follows h he⟩) ⟨⟨rfl, rfl⟩, fun _ _ => rfl⟩ hes

/-- Where the work for every change is allocated and no command is lost, the driver's bitmap is
always the set last asked for while the mode was set, without AUTH; once no work is left, the
firmware has it too. An update that comes while the mode is not set changes nothing. -/
theorem registrations_follow {es : List Event} (hes : Along step Succeeds initial es) :
    ∃ s, run step initial es = .ok s ∧
      (∀ type, s.mgmtReg type = (s.requested type && type != STYPE_AUTH)) ∧
      (s.works = [] → s.firmware = s.mgmtReg) ∧
      (s.modeSet = false → ∀ newRegs allocated,
        updateMgmtFrameRegistrations s newRegs allocated = s) := by
  obtain ⟨s, hr, h⟩ := run_follows hes
  refine ⟨s, hr, fun type => ?_, fun hworks => ?_, fun hmode newRegs allocated => ?_⟩
  · by_cases htype : type = STYPE_AUTH
    · rw [htype, h.auth, bne_self_eq_false, Bool.and_false]
    · rw [h.requested type htype, bne_iff_ne.mpr htype, Bool.and_true]
  · have hfirmware := h.firmware
    rw [hworks] at hfirmware
    exact hfirmware
  · rw [updateMgmtFrameRegistrations]
    generalize subtypes.filter _ = types
    induction types with
    | nil => rfl
    | cons type types ih =>
      rw [List.foldl_cons, mgmtFrameRegOne_same (fun hchanges => by simp [hchanges.1] at hmode)]
      exact ih

/-- Probe requests are asked for, sent, and given up again in a bitmap with AUTH. -/
def threeUpdates : List Event :=
  [.setMode true, .registerOne 4 true true, .doWork true,
    .update (fun type => type == STYPE_AUTH) (fun _ => true), .doWork true]

theorem registrations_follow_three :
    ∃ s, run step initial threeUpdates = .ok s ∧
      (∀ type, s.mgmtReg type = (s.requested type && type != STYPE_AUTH)) ∧
      (s.works = [] → s.firmware = s.mgmtReg) ∧
      (s.modeSet = false → ∀ newRegs allocated,
        updateMgmtFrameRegistrations s newRegs allocated = s) :=
  registrations_follow (by simp [threeUpdates, Along, Succeeds])

/-- Probe requests are asked for while there is no memory: the bitmap says that they are registered,
and asking again does not tell the firmware. -/
theorem update_without_memory_kept :
    ∃ s, run step initial
        [.setMode true, .registerOne 4 true false, .registerOne 4 true true] = .ok s ∧
      s.works = [] ∧ s.mgmtReg 4 = true ∧ s.firmware 4 = false :=
  ⟨_, rfl, by decide, by decide, by decide⟩

end Uwe5631.MgmtReg
