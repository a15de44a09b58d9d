import Uwe5631.FallibleRuns
import Mathlib

/-!
# The power state of the chip

`marlin_set_power` powers the chip on for the first subsystem that asks for it and off with the last
one. The chip-enable pin and the reset pin are counted; the functions for the regulators return
before they touch them.
-/
namespace Uwe5631.ChipPower
open FallibleRuns

/-- `marlin_sub_sys` -/
inductive SubSys where
  | MARLIN_BLUETOOTH
  | MARLIN_FM
  | MARLIN_WIFI
  | MARLIN_WIFI_FLUSH
  | MARLIN_SDIO_TX
  | MARLIN_SDIO_RX
  | MARLIN_MDBG
  | MARLIN_GNSS
  | WCN_AUTO
  | MARLIN_ALL
  deriving DecidableEq, Repr

/-- `AUTO_RUN_MASK` and `GNSS_MASK` -/
def readyMask : List SubSys := [.WCN_AUTO, .MARLIN_GNSS]

structure Config where
  /-- `CONFIG_WCN_GNSS` -/
  gnss : Bool
  /-- `CONFIG_AML_BOARD` and `CONFIG_WCN_SDIO` -/
  amlSdio : Bool

/-- What a call finds: a card, and the downloads completed in time. -/
structure Outcome where
  card : Bool
  gnss : Bool
  btwf : Bool
  deriving DecidableEq, Repr

/-- A call of `marlin_set_power` that has returned. -/
structure Record where
  subsys : SubSys
  val : Bool
  ret : ℤ
  before : Finset SubSys
  after : Finset SubSys
  /-- how often it pulled up the chip-enable pin, downloaded the firmware and powered off the chip -/
  pullUps : ℕ
  downloads : ℕ
  powerOffs : ℕ
  deriving DecidableEq

structure State where
  powerState : Finset SubSys
  chipEnCount : BitVec 32
  resetCount : BitVec 32
  /-- the chip-enable pin -/
  chipEn : Bool
  /-- the reset pin -/
  reset : Bool
  /-- whether one of the regulators is enabled -/
  regulators : Bool
  downloadFinishFlag : Bool
  firstPowerOnFlag : BitVec 32
  noPowerOff : Bool
  flagReset : Bool
  pullUps : ℕ
  downloads : ℕ
  powerOffs : ℕ
  calls : List Record
  deriving DecidableEq

/-- After `marlin_probe`. -/
def probed : State where
  powerState := ∅
  chipEnCount := 0
  resetCount := 0
  chipEn := false
  reset := false
  regulators := false
  downloadFinishFlag := false
  firstPowerOnFlag := 0
  noPowerOff := false
  flagReset := false
  pullUps := 0
  downloads := 0
  powerOffs := 0
  calls := []

/-! ## The pins -/

/-- `marlin_chip_en` -/
def marlinChipEn (s : State) (enable reset : Bool) : State :=
  if reset then { s with chipEn := true }
  else if enable then
    if s.chipEnCount = 0 then
      { s with chipEn := true, pullUps := s.pullUps + 1, chipEnCount := s.chipEnCount + 1 }
    else { s with chipEnCount := s.chipEnCount + 1 }
  else
    { s with
      chipEnCount := s.chipEnCount - 1
      chipEn := if s.chipEnCount - 1 = 0 then false else s.chipEn }

/-- `chip_reset_release` -/
def chipResetRelease (s : State) (val : Bool) : State :=
  if val then
    { s with reset := if s.resetCount = 0 then true else s.reset, resetCount := s.resetCount + 1 }
  else { s with reset := false, resetCount := s.resetCount - 1 }

/-- `chip_power_on`, which fails without a card -/
def chipPowerOn (cfg : Config) (s : State) : State :=
  let s := chipResetRelease (marlinChipEn s true false) true
  if cfg.amlSdio then marlinChipEn s false true else s

/-- `chip_power_off` -/
def chipPowerOff (s : State) : State :=
  { chipResetRelease (marlinChipEn s false false) false with
    powerState := ∅, powerOffs := s.powerOffs + 1 }

/-! ## Power on and off -/

def setBit (s : State) (subsys : SubSys) : State :=
  { s with powerState := insert subsys s.powerState }

/-- `download_wq` is scheduled. -/
def scheduleDownload (s : State) : State := { s with downloads := s.downloads + 1 }

/-- What follows the label `out` -/
def out (s : State) : State × ℤ := ({ chipResetRelease s false with powerState := ∅ }, -1)

/-- A power-on that is not the first -/
def powerOnAgain (cfg : Config) (s : State) (subsys : SubSys) (o : Outcome) : State × ℤ :=
  if subsys = .WCN_AUTO then
    if s.noPowerOff then (setBit s subsys, 0) else (s, 0)
  else if ∃ x ∈ readyMask, x ∈ s.powerState then (setBit s subsys, 0)
  else if s.powerState.Nonempty then
    if subsys = .MARLIN_GNSS ∧ cfg.gnss ∧ !o.gnss then out (setBit s subsys)
    else (setBit s subsys, 0)
  else if !o.card then out (chipPowerOn cfg s)
  else
    let s := scheduleDownload (setBit (chipPowerOn cfg s) subsys)
    if !o.btwf then out s
    else
      let s := { s with downloadFinishFlag := true }
      if subsys = .MARLIN_GNSS ∧ cfg.gnss ∧ !o.gnss then out s else (s, 0)

def powerOff (s : State) (subsys : SubSys) : State × ℤ :=
  if s.powerState = ∅ then (s, 0)
  else
    let s := if s.flagReset ∨ subsys = .MARLIN_ALL then { s with powerState := ∅ } else s
    if s.noPowerOff ∧ !s.flagReset then
      if subsys = .WCN_AUTO then (s, 0)
      else ({ s with powerState := (insert .WCN_AUTO s.powerState).erase subsys }, 0)
    else if !s.downloadFinishFlag then (s, 0)
    else
      let s := { s with powerState := s.powerState.erase subsys }
      if s.powerState.Nonempty then (s, 0)
      else ({ chipPowerOff s with downloadFinishFlag := false, flagReset := false }, 0)

/-- The first power-on, which ends with a power-off and a power-on of its own for `MARLIN_GNSS` -/
def powerOnFirst (cfg : Config) (s : State) (subsys : SubSys) (o again : Outcome) : State × ℤ :=
  if !o.card then out (chipPowerOn cfg s)
  else
    let s := setBit (chipPowerOn cfg s) subsys
    if cfg.gnss ∧ !o.gnss then out s
    else
      let s := scheduleDownload s
      if !o.btwf then out s
      else
        let s := { s with downloadFinishFlag := true, firstPowerOnFlag := 2 }
        if cfg.gnss ∧ subsys = .WCN_AUTO then ((powerOff s .WCN_AUTO).1, 0)
        else if subsys = .MARLIN_GNSS then
          let s := (powerOff s .MARLIN_GNSS).1
          ((powerOnAgain cfg { s with firstPowerOnFlag := s.firstPowerOnFlag + 1 } .MARLIN_GNSS
            again).1, 0)
        else (s, 0)

def marlinSetPower (cfg : Config) (s : State) (subsys : SubSys) (val : Bool) (o again : Outcome) :
    State × ℤ :=
  if val then
    let s := { s with firstPowerOnFlag := s.firstPowerOnFlag + 1 }
    if s.firstPowerOnFlag = 1 then powerOnFirst cfg s subsys o again
    else powerOnAgain cfg s subsys o
  else powerOff s subsys

/-- A call for a client subsystem, with what it and a call it makes itself find. -/
structure Event where
  subsys : SubSys
  client : subsys ≠ .WCN_AUTO ∧ subsys ≠ .MARLIN_ALL
  val : Bool
  o : Outcome
  again : Outcome

def next (cfg : Config) (s : State) (e : Event) : State :=
  let r := marlinSetPower cfg s e.subsys e.val e.o e.again
  { r.1 with calls := s.calls ++ [⟨e.subsys, e.val, r.2, s.powerState, r.1.powerState,
    r.1.pullUps - s.pullUps, r.1.downloads - s.downloads, r.1.powerOffs - s.powerOffs⟩] }

def step (cfg : Config) (s : State) (e : Event) : Except Empty State := .ok (next cfg s e)

/-! ## What is claimed -/

/-- What a call has done. -/
structure Record.Right (r : Record) : Prop where
  /-- a power-on that returns 0 leaves its bit set -/
  on : r.val = true → r.ret = 0 → r.subsys ∈ r.after
  /-- and with the chip off before, as after a failure, it goes through the whole sequence -/
  sequence : r.val = true → r.ret = 0 → r.before = ∅ → 0 < r.pullUps ∧ 0 < r.downloads
  /-- a power-off clears its own bit only and powers off the chip if that was the last one -/
  off : r.val = false → r.after = r.before.erase r.subsys
  last : r.val = false → (0 < r.powerOffs ↔ r.before = {r.subsys})

structure Consistent (s : State) : Prop where
  on : s.powerState ≠ ∅ →
    s.chipEnCount = 1 ∧ s.resetCount = 1 ∧ s.downloadFinishFlag = true
  off : s.powerState = ∅ → s.chipEnCount = 0 ∧ s.resetCount = 0 ∧ s.downloadFinishFlag = false ∧
    s.chipEn = false ∧ s.reset = false ∧ s.regulators = false
  calls : ∀ r ∈ s.calls, r.Right

/-- Every card and every download that the call waits for comes in time, and `first_power_on_flag`
has not come round to 0 with the chip on. -/
def InTime (cfg : Config) (s : State) (e : Event) : Prop :=
  e.val = true →
    if s.firstPowerOnFlag = 0 then
      s.powerState = ∅ ∧ e.o.card = true ∧ (cfg.gnss = true → e.o.gnss = true) ∧
        e.o.btwf = true ∧ (e.subsys = .MARLIN_GNSS → e.again.card = true ∧ e.again.btwf = true ∧
          (cfg.gnss = true → e.again.gnss = true))
    else
      (s.powerState = ∅ → e.o.card = true ∧ e.o.btwf = true) ∧
        (e.subsys = .MARLIN_GNSS → .MARLIN_GNSS ∉ s.powerState → .WCN_AUTO ∉ s.powerState →
          cfg.gnss = true → e.o.gnss = true)

/-! ## What a call does -/

/-- What is kept from call to call. -/
structure Level (s : State) : Prop where
  on : s.powerState ≠ ∅ →
    s.chipEnCount = 1 ∧ s.resetCount = 1 ∧ s.downloadFinishFlag = true
  off : s.powerState = ∅ → s.chipEnCount = 0 ∧ s.resetCount = 0 ∧ s.downloadFinishFlag = false ∧
    s.chipEn = false ∧ s.reset = false
  regulators : s.regulators = false
  noPowerOff : s.noPowerOff = false
  flagReset : s.flagReset = false

variable {cfg : Config} {s : State} {x : SubSys} {o again : Outcome}

theorem chipPowerOn_eq (cfg : Config) (hchip : s.chipEnCount = 0) (hreset : s.resetCount = 0) :
    chipPowerOn cfg s = { s with
      chipEn := true, reset := true, pullUps := s.pullUps + 1, chipEnCount := 1, resetCount := 1 } := by
  unfold chipPowerOn
  cases cfg.amlSdio <;> simp [chipResetRelease, marlinChipEn, hchip, hreset]

theorem chipPowerOff_eq (hchip : s.chipEnCount = 1) (hreset : s.resetCount = 1) :
    chipPowerOff s = { s with
      powerState := ∅, chipEn := false, reset := false, chipEnCount := 0, resetCount := 0,
      powerOffs := s.powerOffs + 1 } := by
  simp [chipPowerOff, chipResetRelease, marlinChipEn, hchip, hreset]

@[simp] theorem chipPowerOn_chipEnCount (cfg : Config) (s : State) :
    (chipPowerOn cfg s).chipEnCount = s.chipEnCount + 1 := by
  unfold chipPowerOn
  cases cfg.amlSdio <;> simp [chipResetRelease, marlinChipEn] <;> split <;> rfl

@[simp] theorem chipPowerOn_powerState (cfg : Config) (s : State) :
    (chipPowerOn cfg s).powerState = s.powerState := by
  unfold chipPowerOn
  cases cfg.amlSdio <;> simp [chipResetRelease, marlinChipEn] <;> split <;> rfl

@[simp] theorem chipPowerOn_noPowerOff (cfg : Config) (s : State) :
    (chipPowerOn cfg s).noPowerOff = s.noPowerOff := by
  unfold chipPowerOn
  cases cfg.amlSdio <;> simp [chipResetRelease, marlinChipEn] <;> split <;> rfl

@[simp] theorem chipPowerOn_flagReset (cfg : Config) (s : State) :
    (chipPowerOn cfg s).flagReset = s.flagReset := by
  unfold chipPowerOn
  cases cfg.amlSdio <;> simp [chipResetRelease, marlinChipEn] <;> split <;> rfl

@[simp] theorem out_chipEnCount (s : State) : (out s).1.chipEnCount = s.chipEnCount := rfl

@[simp] theorem out_powerState (s : State) : (out s).1.powerState = ∅ := rfl

theorem powerOff_spec (h : Level s) (hx : x ≠ .MARLIN_ALL) : ∃ t, powerOff s x = (t, 0) ∧ Level t ∧
    t.powerState = s.powerState.erase x ∧ t.pullUps = s.pullUps ∧ t.downloads = s.downloads ∧
    t.firstPowerOnFlag = s.firstPowerOnFlag ∧
    t.powerOffs = s.powerOffs + if s.powerState = {x} then 1 else 0 := by
  unfold powerOff
  by_cases hempty : s.powerState = ∅
  · refine ⟨s, by rw [if_pos hempty], h, ?_, rfl, rfl, rfl, ?_⟩
    · simp [hempty]
    · simp [hempty, (Finset.singleton_ne_empty x).symm]
  · obtain ⟨hchip, hreset, hflag⟩ := h.on hempty
    have hstays : ¬ (s.flagReset = true ∨ x = .MARLIN_ALL) := by simp [h.flagReset, hx]
    have hoffs : ¬ (s.noPowerOff = true ∧ (!s.flagReset) = true) := by simp [h.noPowerOff]
    have hdone : ¬ (!s.downloadFinishFlag) = true := by simp [hflag]
    simp only [if_neg hempty, if_neg hstays, if_neg hoffs, if_neg hdone]
    by_cases hlast : s.powerState.erase x = ∅
    · -- it was the last one
      have hsingle : s.powerState = {x} := by
        rcases Finset.erase_eq_empty_iff s.powerState x |>.mp hlast with he | he
        · exact absurd he hempty
        · exact he
      rw [if_neg (by simp [hlast])]
      have hoff := chipPowerOff_eq (s := { s with powerState := s.powerState.erase x }) hchip hreset
      rw [hoff]
      refine ⟨_, rfl, ?_, hlast.symm, rfl, rfl, rfl, by simp [hsingle]⟩
      exact ⟨fun hne => absurd rfl hne, fun _ => ⟨rfl, rfl, rfl, rfl, rfl⟩, h.regulators,
        h.noPowerOff, rfl⟩
    · have hsingle : s.powerState ≠ {x} := by
        intro he
        exact hlast (by simp [he])
      rw [if_pos (Finset.nonempty_iff_ne_empty.mpr hlast)]
      refine ⟨_, rfl, ?_, rfl, rfl, rfl, rfl, by simp [hsingle]⟩
      exact ⟨fun _ => ⟨hchip, hreset, hflag⟩, fun he => absurd he hlast, h.regulators,
        h.noPowerOff, h.flagReset⟩

/-- The bit of a subsystem is set with the chip on. -/
theorem Level.setBit (h : Level s) (hon : s.powerState ≠ ∅) (x : SubSys) : Level (setBit s x) where
  on _ := h.on hon
  off he := absurd he (Finset.insert_ne_empty x s.powerState)
  regulators := h.regulators
  noPowerOff := h.noPowerOff
  flagReset := h.flagReset

/-- What a power-on that is not the first waits for. -/
def Needs (cfg : Config) (s : State) (x : SubSys) (o : Outcome) : Prop :=
  (s.powerState = ∅ → o.card = true ∧ o.btwf = true) ∧
    (x = .MARLIN_GNSS → .MARLIN_GNSS ∉ s.powerState → .WCN_AUTO ∉ s.powerState →
      cfg.gnss = true → o.gnss = true)

theorem ready_iff (s : State) : (∃ x ∈ readyMask, x ∈ s.powerState) ↔
    (SubSys.WCN_AUTO ∈ s.powerState ∨ SubSys.MARLIN_GNSS ∈ s.powerState) := by
  simp [readyMask]

theorem powerOnAgain_spec (h : Level s) (hx : x ≠ .WCN_AUTO) (hneeds : Needs cfg s x o) :
    ∃ t, powerOnAgain cfg s x o = (t, 0) ∧ Level t ∧ x ∈ t.powerState ∧
      t.powerOffs = s.powerOffs ∧
      (s.powerState = ∅ → t.pullUps = s.pullUps + 1 ∧ t.downloads = s.downloads + 1) := by
  unfold powerOnAgain
  rw [if_neg hx]
  by_cases hempty : s.powerState = ∅
  · obtain ⟨hchip, hreset, hflag, _⟩ := h.off hempty
    obtain ⟨hcard, hbtwf⟩ := hneeds.1 hempty
    have hgnss : ¬ (x = .MARLIN_GNSS ∧ cfg.gnss = true ∧ (!o.gnss) = true) := by
      rintro ⟨hg, hcfg, hno⟩
      have := hneeds.2 hg (by simp [hempty]) (by simp [hempty]) hcfg
      simp [this] at hno
    rw [if_neg (by simp [hempty]), if_neg (by simp [hempty])]
    simp only [hcard, hbtwf, Bool.not_true, Bool.false_eq_true, if_false, hgnss]
    rw [chipPowerOn_eq cfg hchip hreset]
    refine ⟨_, rfl, ?_, Finset.mem_insert_self _ _, rfl, fun _ => ⟨rfl, rfl⟩⟩
    exact ⟨fun _ => ⟨rfl, rfl, rfl⟩, fun he => absurd he (Finset.insert_ne_empty _ _),
      h.regulators, h.noPowerOff, h.flagReset⟩
  · have hset := h.setBit hempty x
    have hmem : x ∈ (setBit s x).powerState := Finset.mem_insert_self _ _
    split
    · exact ⟨_, rfl, hset, hmem, rfl, fun he => absurd he hempty⟩
    · rename_i hready
      rw [ready_iff, not_or] at hready
      have hgnss : ¬ (x = .MARLIN_GNSS ∧ cfg.gnss = true ∧ (!o.gnss) = true) := by
        rintro ⟨hg, hcfg, hno⟩
        have := hneeds.2 hg hready.2 hready.1 hcfg
        simp [this] at hno
      rw [if_pos (Finset.nonempty_iff_ne_empty.mpr hempty), if_neg hgnss]
      exact ⟨_, rfl, hset, hmem, rfl, fun he => absurd he hempty⟩

/-- A state with the chip enabled once too often. -/
def Uneven (s : State) : Prop := s.chipEnCount = 2 ∨ (s.powerState = ∅ ∧ s.chipEnCount = 1)

theorem Uneven.not_consistent (h : Uneven s) : ¬ Consistent s := by
  intro hc
  rcases h with h | ⟨hempty, h⟩
  · by_cases hempty : s.powerState = ∅
    · rw [(hc.off hempty).1] at h
      exact absurd h (by decide)
    · rw [(hc.on hempty).1] at h
      exact absurd h (by decide)
  · rw [(hc.off hempty).1] at h
    exact absurd h (by decide)

variable (cfg s o) in
/-- A power-on that is not the first enables the chip if no subsystem is on. -/
theorem powerOnAgain_count (hx : x ≠ .WCN_AUTO) : (powerOnAgain cfg s x o).1.chipEnCount =
    s.chipEnCount + if s.powerState = ∅ then 1 else 0 := by
  unfold powerOnAgain
  rw [if_neg hx]
  by_cases hempty : s.powerState = ∅
  · rw [if_neg (by simp [hempty]), if_neg (by simp [hempty]), if_pos hempty]
    split
    · simp
    · dsimp only
      split
      · simp [scheduleDownload, setBit]
      · split <;> simp [scheduleDownload, setBit]
  · rw [if_neg hempty]
    split
    · simp [setBit]
    · rw [if_pos (Finset.nonempty_iff_ne_empty.mpr hempty)]
      split <;> simp [setBit]

theorem powerOnAgain_fails (h : Level s) (hx : x ≠ .WCN_AUTO) (hneeds : ¬ Needs cfg s x o) :
    Uneven (powerOnAgain cfg s x o).1 := by
  have hcount := powerOnAgain_count cfg s o hx
  have hpower : (powerOnAgain cfg s x o).1.powerState = ∅ := by
    unfold powerOnAgain
    rw [if_neg hx]
    by_cases hempty : s.powerState = ∅
    · rw [if_neg (by simp [hempty]), if_neg (by simp [hempty])]
      split
      · rfl
      · rename_i hcard
        dsimp only
        split
        · rfl
        · rename_i hbtwf
          split
          · rfl
          · rename_i hgnss
            refine absurd ⟨fun _ => ⟨by simpa using hcard, by simpa using hbtwf⟩, ?_⟩ hneeds
            intro hg _ _ hcfg
            by_contra hno
            exact hgnss ⟨hg, hcfg, by simpa using hno⟩
    · split
      · rename_i hready
        rw [ready_iff] at hready
        refine absurd ⟨fun he => absurd he hempty, ?_⟩ hneeds
        intro _ hg ha
        exact absurd hready (by simp [hg, ha])
      · rw [if_pos (Finset.nonempty_iff_ne_empty.mpr hempty)]
        split
        · rfl
        · rename_i hgnss
          refine absurd ⟨fun he => absurd he hempty, ?_⟩ hneeds
          intro hg _ _ hcfg
          by_contra hno
          exact hgnss ⟨hg, hcfg, by simpa using hno⟩
  refine Or.inr ⟨hpower, hcount.trans ?_⟩
  by_cases hempty : s.powerState = ∅
  · simp [hempty, (h.off hempty).1]
  · simp [hempty, (h.on hempty).1]

theorem powerOff_count (hx : x ≠ .MARLIN_ALL) (hempty : s.powerState ≠ ∅)
    (hflag : s.downloadFinishFlag = true) (hno : s.noPowerOff = false)
    (hreset : s.flagReset = false) :
    (powerOff s x).1.powerState = s.powerState.erase x ∧
      (powerOff s x).1.chipEnCount =
        s.chipEnCount - if s.powerState.erase x = ∅ then 1 else 0 := by
  unfold powerOff
  have hstays : ¬ (s.flagReset = true ∨ x = .MARLIN_ALL) := by simp [hreset, hx]
  have hoffs : ¬ (s.noPowerOff = true ∧ (!s.flagReset) = true) := by simp [hno]
  have hdone : ¬ (!s.downloadFinishFlag) = true := by simp [hflag]
  simp only [if_neg hempty, if_neg hstays, if_neg hoffs, if_neg hdone]
  by_cases hlast : s.powerState.erase x = ∅
  · rw [if_neg (by simp [hlast])]
    simp [chipPowerOff, chipResetRelease, marlinChipEn, hlast]
  · rw [if_pos (Finset.nonempty_iff_ne_empty.mpr hlast)]
    simp [hlast]

/-- What the first power-on waits for. -/
def NeedsFirst (cfg : Config) (x : SubSys) (o again : Outcome) : Prop :=
  o.card = true ∧ (cfg.gnss = true → o.gnss = true) ∧ o.btwf = true ∧
    (x = .MARLIN_GNSS → again.card = true ∧ again.btwf = true ∧
      (cfg.gnss = true → again.gnss = true))

/-- The state in which the first power-on has downloaded the firmware. -/
def started (cfg : Config) (s : State) (x : SubSys) : State :=
  { scheduleDownload (setBit (chipPowerOn cfg s) x) with
    downloadFinishFlag := true, firstPowerOnFlag := 2 }

theorem Level.started (h : Level s) (hempty : s.powerState = ∅) (cfg : Config) (x : SubSys) :
    Level (started cfg s x) ∧ (started cfg s x).powerState = {x} ∧
      (started cfg s x).pullUps = s.pullUps + 1 ∧
      (started cfg s x).downloads = s.downloads + 1 := by
  obtain ⟨hchip, hreset, _⟩ := h.off hempty
  have hpower : (ChipPower.started cfg s x).powerState = {x} := by
    simp [ChipPower.started, scheduleDownload, ChipPower.setBit, hempty]
  refine ⟨⟨fun _ => ?_, fun he => ?_, ?_, ?_, ?_⟩, hpower, ?_, ?_⟩
  · simp [ChipPower.started, scheduleDownload, ChipPower.setBit, chipPowerOn_eq cfg hchip hreset]
  · rw [hpower] at he
    exact absurd he (Finset.singleton_ne_empty x)
  · simp [ChipPower.started, scheduleDownload, ChipPower.setBit, chipPowerOn_eq cfg hchip hreset,
      h.regulators]
  · simp [ChipPower.started, scheduleDownload, ChipPower.setBit, h.noPowerOff]
  · simp [ChipPower.started, scheduleDownload, ChipPower.setBit, h.flagReset]
  · simp [ChipPower.started, scheduleDownload, ChipPower.setBit, chipPowerOn_eq cfg hchip hreset]
  · simp [ChipPower.started, scheduleDownload, ChipPower.setBit, chipPowerOn_eq cfg hchip hreset]

/-- The first power-on with everything it waits for until the download is done. -/
theorem powerOnFirst_started (hx : x ≠ .WCN_AUTO) (hcard : o.card = true)
    (hgnss : cfg.gnss = true → o.gnss = true) (hbtwf : o.btwf = true) :
    powerOnFirst cfg s x o again =
      if x = .MARLIN_GNSS then
        ((powerOnAgain cfg { (powerOff (started cfg s x) .MARLIN_GNSS).1 with
          firstPowerOnFlag := (powerOff (started cfg s x) .MARLIN_GNSS).1.firstPowerOnFlag + 1 }
          .MARLIN_GNSS again).1, 0)
      else (started cfg s x, 0) := by
  have hno : ¬ (cfg.gnss = true ∧ (!o.gnss) = true) := by
    rintro ⟨hcfg, hg⟩
    simp [hgnss hcfg] at hg
  have hauto : ¬ (cfg.gnss = true ∧ x = .WCN_AUTO) := fun hc => hx hc.2
  have hcard' : ¬ (!o.card) = true := by simp [hcard]
  have hbtwf' : ¬ (!o.btwf) = true := by simp [hbtwf]
  simp only [powerOnFirst, if_neg hno, if_neg hauto, if_neg hcard', if_neg hbtwf', started]

/-- The state the chip is powered on again in for `MARLIN_GNSS`. -/
theorem started_off (h : Level s) (hempty : s.powerState = ∅) (cfg : Config) :
    ∃ t, powerOff (started cfg s .MARLIN_GNSS) .MARLIN_GNSS = (t, 0) ∧ Level t ∧
      t.powerState = ∅ ∧ t.pullUps = s.pullUps + 1 ∧ t.downloads = s.downloads + 1 := by
  obtain ⟨hlevel, hpower, hpull, hdown⟩ := h.started hempty cfg .MARLIN_GNSS
  obtain ⟨t, ht, hlt, hpt, hput, hdt, _⟩ := powerOff_spec (x := .MARLIN_GNSS) hlevel (by decide)
  refine ⟨t, ht, hlt, ?_, hput.trans hpull, hdt.trans hdown⟩
  rw [hpt, hpower]
  simp

theorem Level.setFlag (h : Level s) (n : BitVec 32) : Level { s with firstPowerOnFlag := n } :=
  ⟨h.on, h.off, h.regulators, h.noPowerOff, h.flagReset⟩

theorem powerOnFirst_spec (h : Level s) (hempty : s.powerState = ∅) (hx : x ≠ .WCN_AUTO)
    (hneeds : NeedsFirst cfg x o again) :
    ∃ t, powerOnFirst cfg s x o again = (t, 0) ∧ Level t ∧ x ∈ t.powerState ∧
      s.pullUps < t.pullUps ∧ s.downloads < t.downloads := by
  obtain ⟨hcard, hgnss, hbtwf, hagain⟩ := hneeds
  rw [powerOnFirst_started hx hcard hgnss hbtwf]
  split
  · rename_i hg
    subst hg
    obtain ⟨hcard', hbtwf', hgnss'⟩ := hagain rfl
    obtain ⟨t, ht, hlt, hpt, hput, hdt⟩ := started_off h hempty cfg
    rw [ht]
    have hneeds : Needs cfg { t with firstPowerOnFlag := t.firstPowerOnFlag + 1 } .MARLIN_GNSS
        again := ⟨fun _ => ⟨hcard', hbtwf'⟩, fun _ _ _ => hgnss'⟩
    obtain ⟨u, hu, hlu, hxu, _, hcounts⟩ := powerOnAgain_spec (hlt.setFlag _) (by decide) hneeds
    obtain ⟨hpu, hdu⟩ := hcounts hpt
    dsimp only at hpu hdu ⊢
    rw [hu]
    exact ⟨u, rfl, hlu, hxu, by omega, by omega⟩
  · obtain ⟨hlevel, hpower, hpull, hdown⟩ := h.started hempty cfg x
    exact ⟨_, rfl, hlevel, by simp [hpower], by omega, by omega⟩

theorem powerOnFirst_fails (h : Level s) (hempty : s.powerState = ∅) (hx : x ≠ .WCN_AUTO)
    (hneeds : ¬ NeedsFirst cfg x o again) : Uneven (powerOnFirst cfg s x o again).1 := by
  have hone : s.chipEnCount + 1 = 1 := by simp [(h.off hempty).1]
  by_cases hcard : o.card = true
  · by_cases hgnss : cfg.gnss = true → o.gnss = true
    · by_cases hbtwf : o.btwf = true
      · -- it is the power-on at its end that fails
        rw [powerOnFirst_started hx hcard hgnss hbtwf]
        split
        · rename_i hg
          subst hg
          obtain ⟨t, ht, hlt, hpt, _⟩ := started_off h hempty cfg
          rw [ht]
          refine powerOnAgain_fails (hlt.setFlag _) (by decide) fun hagain => hneeds ?_
          obtain ⟨hcard', hbtwf'⟩ := hagain.1 hpt
          exact ⟨hcard, hgnss, hbtwf, fun _ => ⟨hcard', hbtwf', hagain.2 rfl (by simp [hpt])
            (by simp [hpt])⟩⟩
        · rename_i hg
          exact absurd ⟨hcard, hgnss, hbtwf, fun heq => absurd heq hg⟩ hneeds
      · have hno : ¬ (cfg.gnss = true ∧ (!o.gnss) = true) := by
          rintro ⟨hcfg, hg⟩
          simp [hgnss hcfg] at hg
        have hcard' : ¬ (!o.card) = true := by simp [hcard]
        have hbtwf' : (!o.btwf) = true := by simpa using hbtwf
        simp only [powerOnFirst, if_neg hno, if_neg hcard', if_pos hbtwf']
        exact Or.inr ⟨rfl, by simpa [scheduleDownload, setBit] using hone⟩
    · have hno : cfg.gnss = true ∧ (!o.gnss) = true := by simpa using hgnss
      have hcard' : ¬ (!o.card) = true := by simp [hcard]
      simp only [powerOnFirst, if_pos hno, if_neg hcard']
      exact Or.inr ⟨rfl, by simpa [setBit] using hone⟩
  · have hcard' : (!o.card) = true := by simpa using hcard
    simp only [powerOnFirst, if_pos hcard']
    exact Or.inr ⟨rfl, by simpa using hone⟩

/-- A first power-on with the chip on enables it a second time. -/
theorem powerOnFirst_twice (h : Level s) (hne : s.powerState ≠ ∅) (hx : x ≠ .WCN_AUTO) :
    (powerOnFirst cfg s x o again).1.chipEnCount = 2 := by
  have htwo : s.chipEnCount + 1 = 2 := by
    rw [(h.on hne).1]
    decide
  unfold powerOnFirst
  split
  · simpa using htwo
  dsimp only
  split
  · simpa [setBit] using htwo
  split
  · simpa [setBit, scheduleDownload] using htwo
  split
  · rename_i hauto
    exact absurd hauto.2 hx
  split
  · rename_i hg
    subst hg
    obtain ⟨hpower, hcount⟩ := powerOff_count (x := .MARLIN_GNSS)
      (s := started cfg s .MARLIN_GNSS) (by decide)
      (by simp [started, scheduleDownload, setBit]) rfl
      (by simp [started, scheduleDownload, setBit, h.noPowerOff])
      (by simp [started, scheduleDownload, setBit, h.flagReset])
    have hstarted : (started cfg s .MARLIN_GNSS).chipEnCount = 2 := by
      simpa [started, scheduleDownload, setBit] using htwo
    rw [hstarted] at hcount
    rw [powerOnAgain_count _ _ _ (by decide)]
    change (powerOff (started cfg s .MARLIN_GNSS) .MARLIN_GNSS).1.chipEnCount +
      (if (powerOff (started cfg s .MARLIN_GNSS) .MARLIN_GNSS).1.powerState = ∅ then 1 else 0) = 2
    rw [hpower, hcount]
    -- the chip is disabled and enabled once more, or neither
    by_cases hrest : (started cfg s .MARLIN_GNSS).powerState.erase .MARLIN_GNSS = ∅
    · rw [if_pos hrest]
      decide
    · rw [if_neg hrest]
      decide
  · simpa [setBit, scheduleDownload] using htwo

/-! ## Runs -/

structure Sound (s : State) : Prop where
  level : Level s
  calls : ∀ r ∈ s.calls, r.Right

theorem Sound.consistent (h : Sound s) : Consistent s where
  on := h.level.on
  off he := by
    obtain ⟨hchip, hreset, hflag, hpin, hrst⟩ := h.level.off he
    exact ⟨hchip, hreset, hflag, hpin, hrst, h.level.regulators⟩
  calls := h.calls

theorem probed_sound : Sound probed where
  level := ⟨fun hne => absurd rfl hne, fun _ => ⟨rfl, rfl, rfl, rfl, rfl⟩, rfl, rfl, rfl⟩
  calls _ hr := by cases hr

theorem first_iff (n : BitVec 32) : n + 1 = 1 ↔ n = 0 := add_eq_right

theorem inTime_iff {e : Event} (hval : e.val = true) : InTime cfg s e ↔
    if s.firstPowerOnFlag = 0 then s.powerState = ∅ ∧ NeedsFirst cfg e.subsys e.o e.again
    else Needs cfg s e.subsys e.o := by
  simp only [InTime, hval, forall_const, NeedsFirst, Needs]

/-- The record of a call is appended, and the rest is as the call left it. -/
theorem Sound.record (h : Sound s) {t : State} {ret : ℤ} {e : Event} (hlevel : Level t)
    (ht : marlinSetPower cfg s e.subsys e.val e.o e.again = (t, ret))
    (hright : Record.Right ⟨e.subsys, e.val, ret, s.powerState, t.powerState,
      t.pullUps - s.pullUps, t.downloads - s.downloads, t.powerOffs - s.powerOffs⟩) :
    Sound (next cfg s e) := by
  rw [next, ht]
  refine ⟨⟨hlevel.on, hlevel.off, hlevel.regulators, hlevel.noPowerOff, hlevel.flagReset⟩, ?_⟩
  intro r hr
  rcases List.mem_append.mp hr with hr | hr
  · exact h.calls r hr
  · rw [List.mem_singleton.mp hr]
    exact hright

theorem Sound.next (h : Sound s) {e : Event} (hC : InTime cfg s e) : Sound (next cfg s e) := by
  cases hval : e.val with
  | false =>
    obtain ⟨t, ht, hlevel, hpower, _, _, _, hoffs⟩ := powerOff_spec (x := e.subsys) h.level
      e.client.2
    have hcall : marlinSetPower cfg s e.subsys e.val e.o e.again = (t, 0) := by
      simp [marlinSetPower, hval, ht]
    refine h.record hlevel hcall ⟨?_, ?_, fun _ => hpower, fun _ => ?_⟩
    · intro hv
      rw [hval] at hv
      cases hv
    · intro hv
      rw [hval] at hv
      cases hv
    · rw [hoffs]
      split
      · simpa
      · simpa
  | true =>
    rw [inTime_iff hval] at hC
    by_cases hfirst : s.firstPowerOnFlag = 0
    · rw [if_pos hfirst] at hC
      obtain ⟨t, ht, hlevel, hmem, hpull, hdown⟩ :=
        powerOnFirst_spec (h.level.setFlag (s.firstPowerOnFlag + 1)) hC.1 e.client.1 hC.2
      have hcall : marlinSetPower cfg s e.subsys e.val e.o e.again = (t, 0) := by
        simp only [marlinSetPower, hval, if_true, first_iff, if_pos hfirst]
        exact ht
      refine h.record hlevel hcall ⟨fun _ _ => hmem, fun _ _ _ => ?_, ?_, ?_⟩
      · exact ⟨Nat.sub_pos_of_lt hpull, Nat.sub_pos_of_lt hdown⟩
      · intro hv
        rw [hval] at hv
        cases hv
      · intro hv
        rw [hval] at hv
        cases hv
    · rw [if_neg hfirst] at hC
      obtain ⟨t, ht, hlevel, hmem, _, hcounts⟩ :=
        powerOnAgain_spec (h.level.setFlag (s.firstPowerOnFlag + 1)) e.client.1 hC
      have hcall : marlinSetPower cfg s e.subsys e.val e.o e.again = (t, 0) := by
        simp only [marlinSetPower, hval, if_true, first_iff, if_neg hfirst]
        exact ht
      refine h.record hlevel hcall ⟨fun _ _ => hmem, fun _ _ hempty => ?_, ?_, ?_⟩
      · obtain ⟨hpull, hdown⟩ := hcounts hempty
        simp [hpull, hdown]
      · intro hv
        rw [hval] at hv
        cases hv
      · intro hv
        rw [hval] at hv
        cases hv

theorem Sound.breaks (h : Sound s) {e : Event} (hC : ¬ InTime cfg s e) :
    ¬ Consistent (ChipPower.next cfg s e) := by
  have hval : e.val = true := by
    by_contra hv
    exact hC fun hv' => absurd hv' hv
  rw [inTime_iff hval] at hC
  have huneven : Uneven (marlinSetPower cfg s e.subsys e.val e.o e.again).1 := by
    by_cases hfirst : s.firstPowerOnFlag = 0
    · rw [if_pos hfirst] at hC
      simp only [marlinSetPower, hval, if_true, first_iff, if_pos hfirst]
      by_cases hempty : s.powerState = ∅
      · exact powerOnFirst_fails (h.level.setFlag _) hempty e.client.1 fun hn => hC ⟨hempty, hn⟩
      · exact Or.inl (powerOnFirst_twice (h.level.setFlag _) hempty e.client.1)
    · rw [if_neg hfirst] at hC
      simp only [marlinSetPower, hval, if_true, first_iff, if_neg hfirst]
      exact powerOnAgain_fails (h.level.setFlag _) e.client.1 hC
  -- the record does not change the counts
  have hrecord : Uneven (ChipPower.next cfg s e) := huneven
  exact hrecord.not_consistent

/-- In every state of a run of calls the counts and flags are consistent and every call has done
what it should exactly if every call finds the card and gets the downloads it waits for. -/
theorem consistent_iff (cfg : Config) (es : List Event) :
    (∀ es₁ es₂ t, es = es₁ ++ es₂ → run (step cfg) probed es₁ = .ok t → Consistent t) ↔
      Along (step cfg) (InTime cfg) probed es := by
  apply along_iff_prefixes_total (fun _ _ => rfl) (fun s (h : Sound s) => h.consistent) probed_sound
  · intro s e h hC
    exact h.next hC
  · intro s e h hC
    exact h.breaks hC

/-- A call without a card. -/
def noCard : Event := ⟨.MARLIN_WIFI, by decide, true, ⟨false, true, true⟩, ⟨true, true, true⟩⟩

/-- After a power-on without a card no subsystem is powered, but the chip is still enabled. -/
theorem failed_power_on_keeps_chip_enabled :
    ¬ ∀ es t, run (step ⟨false, true⟩) probed es = .ok t → Consistent t := by
  intro hall
  have h := hall [noCard] _ rfl
  exact absurd (h.off (by decide)).1 (by decide)

end Uwe5631.ChipPower
