import Uwe5631.FallibleRuns
import Mathlib

/-!
# Powering down the memory of the CP

`mem_pd_mgr` switches the memory of a subsystem of the CP on and off, writes its saved image back and
waits for the CP. Beside its record of the subsystem there are the bits of the power register and the
content of the memory.
-/
namespace Uwe5631.MemPd
open FallibleRuns

/-- The subsystems with memory of their own, `MARLIN_WIFI` and `MARLIN_BLUETOOTH`; for any other one
`mem_pd_mgr` returns 0 at once. -/
inductive Subsys where
  | wifi
  | bluetooth
  deriving DecidableEq, Repr

/-- `THREAD_DELETE` and `THREAD_CREATE` -/
inductive Thread where
  | delete
  | create
  deriving DecidableEq, Repr

/-- `REG_AON_APB_BTWF_MEM_CGG1` and the two after it -/
inductive Reg where
  | cgg1
  | cgg2
  | cgg3
  deriving DecidableEq, Repr

/-- The ranges of memory that are switched together. -/
inductive Bank where
  | wifiIram
  | wifiDram
  | btRam
  deriving DecidableEq, Repr

structure Config where
  /-- whether the chip is a `WCN_CHIP_MARLIN3L`, as `CONFIG_UWE5622` says it -/
  marlin3l : Bool
  /-- `wifi_begin_addr` and `bt_begin_addr` -/
  beginAddr : Subsys → BitVec 32
  /-- `wifi_mem` and `bt_mem` -/
  mem : Subsys → List (BitVec 8)

def Bank.reg (cfg : Config) : Bank → Reg
  | .wifiIram => .cgg1
  | .wifiDram => if cfg.marlin3l then .cgg2 else .cgg3
  | .btRam => if cfg.marlin3l then .cgg2 else .cgg1

def Bank.mask (cfg : Config) : Bank → BitVec 32
  | .wifiIram => if cfg.marlin3l then 0xFC00 else 0xE0000000
  | .wifiDram => if cfg.marlin3l then 0x80 else 0x1FFF0000
  | .btRam => if cfg.marlin3l then 0xC00 else 0x0FE00000

/-- The ranges of a subsystem, in the order they are switched. -/
def Subsys.banks : Subsys → List Bank
  | .wifi => [.wifiIram, .wifiDram]
  | .bluetooth => [.btRam]

abbrev Regs := Reg → BitVec 32

structure State where
  /-- `wifi_state` and `bt_state` -/
  thread : Subsys → Thread
  /-- whether the CP has no such function -/
  cpVersion : Bool
  /-- `wifi_open_completion` and `bt_open_completion` -/
  openCompletion : Subsys → ℕ
  /-- `wifi_cls_cpl` and `bt_close_completion` -/
  closeCompletion : Subsys → ℕ
  regs : Regs
  /-- where and what was written to the memory of a subsystem since its request to be switched on -/
  content : Subsys → Option (BitVec 32 × List (BitVec 8))
  /-- whether the CP has opened a subsystem since the request to switch it on -/
  opened : Subsys → Bool
  /-- whether the CP has closed a subsystem since the last request to switch it on -/
  closed : Subsys → Bool
  /-- the last call, if it was the last event, and its result -/
  returned : Option (Subsys × Bool × ℤ)

/-- Whether `sprdwcn_bus_reg_read` and `sprdwcn_bus_reg_write` succeed. -/
structure Access where
  read : Bool
  write : Bool
  deriving DecidableEq, Repr

/-- What a call meets. The hardware spinlock and `sprdwcn_bus_aon_writeb` are not here as their results
decide nothing. -/
structure Outcome where
  access : Bank → Access
  /-- whether `sprdwcn_bus_direct_write` succeeds -/
  download : Bool
  /-- whether the interrupt of the CP comes before the time-out -/
  ack : Bool

/-- One range of `mem_pd_power_switch`, and whether the next one is reached. -/
def switchBank (cfg : Config) (val : Bool) (access : Bank → Access) (regs : Regs) (b : Bank) :
    Regs × Bool :=
  let regVal := regs (b.reg cfg)
  if !(access b).read then (regs, false)
  else if val then
    if regVal &&& b.mask cfg ≠ 0 then
      if !(access b).write then (regs, false)
      else (Function.update regs (b.reg cfg) (regVal &&& ~~~ b.mask cfg), true)
    else (regs, true)
  else
    if regVal &&& b.mask cfg = 0 then
      if !(access b).write then (regs, false)
      else (Function.update regs (b.reg cfg) (regVal ||| b.mask cfg), true)
    else (regs, true)

/-- The ranges one after the other, up to the first failure. -/
def switchBanks (cfg : Config) (val : Bool) (access : Bank → Access) (regs : Regs) :
    List Bank → Regs
  | [] => regs
  | b :: bs =>
    let r := switchBank cfg val access regs b
    if r.2 then switchBanks cfg val access r.1 bs else r.1

/-- `mem_pd_power_switch` -/
def memPdPowerSwitch (cfg : Config) (s : State) (subsys : Subsys) (val : Bool)
    (access : Bank → Access) : State :=
  if s.thread subsys = if val then .delete else .create then s
  else { s with regs := switchBanks cfg val access s.regs subsys.banks }

/-- `mem_pd_download_mem_bin` -/
def memPdDownloadMemBin (cfg : Config) (s : State) (subsys : Subsys) (download : Bool) : State :=
  if download then
    { s with
      content := Function.update s.content subsys (some (cfg.beginAddr subsys, cfg.mem subsys)) }
  else s

/-- The interrupt with which the CP reports that it has opened or closed a subsystem. -/
def interrupt (s : State) (subsys : Subsys) (opens : Bool) : State :=
  if opens then
    { s with
      openCompletion := Function.update s.openCompletion subsys (s.openCompletion subsys + 1)
      opened := Function.update s.opened subsys true }
  else
    { s with
      closeCompletion := Function.update s.closeCompletion subsys (s.closeCompletion subsys + 1)
      closed := Function.update s.closed subsys true }

/-- `wait_for_completion_timeout` of an open completion, and whether it times out -/
def waitOpen (s : State) (subsys : Subsys) (ack : Bool) : State × Bool :=
  let s := if s.openCompletion subsys = 0 ∧ ack then interrupt s subsys true else s
  if s.openCompletion subsys = 0 then (s, true)
  else
    ({ s with
      openCompletion := Function.update s.openCompletion subsys (s.openCompletion subsys - 1) },
      false)

/-- `wait_for_completion_timeout` of a close completion, and whether it times out -/
def waitClose (s : State) (subsys : Subsys) (ack : Bool) : State × Bool :=
  let s := if s.closeCompletion subsys = 0 ∧ ack then interrupt s subsys false else s
  if s.closeCompletion subsys = 0 then (s, true)
  else
    ({ s with
      closeCompletion := Function.update s.closeCompletion subsys (s.closeCompletion subsys - 1) },
      false)

/-- The part of `mem_pd_mgr` that switches on. -/
def powerOn (cfg : Config) (s : State) (subsys : Subsys) (o : Outcome) : State × ℤ :=
  if s.thread subsys ≠ .delete then (s, 0)
  else
    let s := { s with
      thread := Function.update s.thread subsys .create
      content := Function.update s.content subsys none
      opened := Function.update s.opened subsys false
      closed := Function.update s.closed subsys false }
    let s := memPdPowerSwitch cfg s subsys true o.access
    let s := memPdDownloadMemBin cfg s subsys o.download
    let s := { s with openCompletion := Function.update s.openCompletion subsys 0 }
    let r := waitOpen s subsys o.ack
    (r.1, if r.2 then -1 else 0)

/-- The part of `mem_pd_mgr` that switches off; `bt_close_completion` is not initialised again. -/
def powerOff (cfg : Config) (s : State) (subsys : Subsys) (o : Outcome) : State × ℤ :=
  if s.thread subsys ≠ .create then (s, 0)
  else
    let s := if subsys = .wifi then
        { s with closeCompletion := Function.update s.closeCompletion subsys 0 }
      else s
    let r := waitClose s subsys o.ack
    if r.2 then (r.1, -1)
    else
      let s := { r.1 with thread := Function.update r.1.thread subsys .delete }
      (memPdPowerSwitch cfg s subsys false o.access, 0)

/-- `mem_pd_mgr` -/
def memPdMgr (cfg : Config) (s : State) (subsys : Subsys) (val : Bool) (o : Outcome) : State × ℤ :=
  if s.cpVersion then (s, 0)
  else if val then powerOn cfg s subsys o
  else powerOff cfg s subsys o

inductive Event where
  | memPdMgr (subsys : Subsys) (val : Bool) (o : Outcome)
  /-- an interrupt that comes while no call waits for it -/
  | interrupt (subsys : Subsys) (opens : Bool)

def stepTo (cfg : Config) (s : State) : Event → State
  | .memPdMgr subsys val o =>
    let r := memPdMgr cfg s subsys val o
    { r.1 with returned := some (subsys, val, r.2) }
  | .interrupt subsys opens => { interrupt s subsys opens with returned := none }

def step (cfg : Config) (s : State) (e : Event) : Except Empty State := .ok (stepTo cfg s e)

/-- The state `mem_pd_save_bin` leaves: the images are saved and all memory is off, whatever the other
bits of the registers are. -/
def init (cfg : Config) (regs : Regs) : State where
  thread := fun _ => .delete
  cpVersion := false
  openCompletion := fun _ => 0
  closeCompletion := fun _ => 0
  regs := fun r => [Bank.wifiIram, .wifiDram, .btRam].foldl
    (fun v b => if b.reg cfg = r then v ||| b.mask cfg else v) (regs r)
  content := fun _ => none
  opened := fun _ => false
  closed := fun _ => true
  returned := none

/-- The bits of a range: 0 is on, and the whole mask is off. -/
def bits (cfg : Config) (regs : Regs) (b : Bank) : BitVec 32 := regs (b.reg cfg) &&& b.mask cfg

/-- The memory is on with the saved image in it, and the CP has opened the subsystem. -/
structure PoweredOn (cfg : Config) (s : State) (subsys : Subsys) : Prop where
  on : ∀ b ∈ subsys.banks, bits cfg s.regs b = 0
  restored : s.content subsys = some (cfg.beginAddr subsys, cfg.mem subsys)
  opened : s.opened subsys = true

/-- The memory is off, and the CP has closed the subsystem. -/
structure PoweredOff (cfg : Config) (s : State) (subsys : Subsys) : Prop where
  off : ∀ b ∈ subsys.banks, bits cfg s.regs b = b.mask cfg
  closed : s.closed subsys = true

/-- What the result of the last call says. After an error the same request is carried out again, since
the record is not what it asks for. -/
def Truthful (cfg : Config) (s : State) : Prop :=
  ∀ subsys val ret, s.returned = some (subsys, val, ret) →
    (ret = 0 → if val then PoweredOn cfg s subsys else PoweredOff cfg s subsys) ∧
    (ret ≠ 0 → s.thread subsys = if val then .delete else .create)

/-- All accesses of a switch succeed. -/
def Outcome.switches (o : Outcome) (subsys : Subsys) : Prop :=
  ∀ b ∈ subsys.banks, (o.access b).read = true ∧ (o.access b).write = true

/-- Whether a wait for the closing of a subsystem ends before the time-out. -/
def closes (s : State) (subsys : Subsys) (o : Outcome) : Prop :=
  o.ack = true ∨ subsys = .bluetooth ∧ s.closeCompletion subsys ≠ 0

/-- Where a call switches on, nothing fails; where it switches off after the wait, its accesses
succeed, and the interrupt it has waited for is not one of an earlier time. -/
def Faultless (s : State) : Event → Prop
  | .memPdMgr subsys true o =>
    s.thread subsys = .delete → o.switches subsys ∧ o.download = true ∧ o.ack = true
  | .memPdMgr subsys false o =>
    s.thread subsys = .create → closes s subsys o → o.switches subsys ∧
      (subsys = .bluetooth → s.closeCompletion subsys ≠ 0 → s.closed subsys = true)
  | .interrupt _ _ => True

variable {cfg : Config} {s t : State} {val : Bool} {access : Bank → Access} {regs : Regs}
  {b c : Bank} {bs : List Bank} {subsys x : Subsys} {o : Outcome}

theorem mask_ne_zero (cfg : Config) (b : Bank) : b.mask cfg ≠ 0 := by
  cases b <;> rw [Bank.mask] <;> split <;> decide

theorem mask_disjoint (h : b ≠ c) (hreg : b.reg cfg = c.reg cfg) :
    b.mask cfg &&& c.mask cfg = 0 := by
  cases hm : cfg.marlin3l <;> cases b <;> cases c <;> simp_all [Bank.reg, Bank.mask]

theorem banks_nodup (subsys : Subsys) : subsys.banks.Nodup := by
  cases subsys <;> decide

theorem banks_disjoint (h : x ≠ subsys) (hb : b ∈ x.banks) : b ∉ subsys.banks := by
  cases x <;> cases subsys <;> simp_all [Subsys.banks]
  rcases hb with rfl | rfl <;> decide

/-- Clearing and setting the bits of one mask leaves those of another one. -/
theorem clear_and (v : BitVec 32) {m m' : BitVec 32} (h : m &&& m' = 0) :
    (v &&& ~~~ m) &&& m' = v &&& m' := by
  ext i hi
  have hbit : (m[i] && m'[i]) = false := by
    rw [← BitVec.getElem_and, h]
    simp
  simp only [BitVec.getElem_and, BitVec.getElem_not]
  revert hbit
  cases m[i] <;> cases m'[i] <;> simp

theorem set_and (v : BitVec 32) {m m' : BitVec 32} (h : m &&& m' = 0) :
    (v ||| m) &&& m' = v &&& m' := by
  simp [BitVec.and_or_distrib_right, h]

theorem clear_and_self (v m : BitVec 32) : (v &&& ~~~ m) &&& m = 0 := by
  simp [BitVec.and_assoc, BitVec.and_comm (~~~ m)]

theorem set_and_self (v m : BitVec 32) : (v ||| m) &&& m = m := by
  ext i hi
  simp only [BitVec.getElem_and, BitVec.getElem_or]
  cases m[i] <;> simp

/-! ## The power switch -/

/-- What the bits of a range are when it is switched on or off. -/
def target (cfg : Config) (val : Bool) (b : Bank) : BitVec 32 := if val then 0 else b.mask cfg

theorem target_not_ne (cfg : Config) (val : Bool) (b : Bank) :
    target cfg (!val) b ≠ target cfg val b := by
  have := mask_ne_zero cfg b
  cases val with
  | false => exact this.symm
  | true => exact this

/-- Writing the register of a range leaves the bits of the others. -/
theorem bits_update_of_ne (h : b ≠ c) {v : BitVec 32}
    (hv : b.mask cfg &&& c.mask cfg = 0 → v &&& c.mask cfg = regs (b.reg cfg) &&& c.mask cfg) :
    bits cfg (Function.update regs (b.reg cfg) v) c = bits cfg regs c := by
  rw [bits, bits]
  by_cases hreg : b.reg cfg = c.reg cfg
  · rw [← hreg, Function.update_self]
    exact hv (mask_disjoint h hreg)
  · rw [Function.update_of_ne (Ne.symm hreg)]

theorem bits_switchBank_of_ne (h : b ≠ c) :
    bits cfg (switchBank cfg val access regs b).1 c = bits cfg regs c := by
  rw [switchBank]
  repeat' split
  all_goals first
    | rfl
    | exact bits_update_of_ne h (clear_and _)
    | exact bits_update_of_ne h (set_and _)

variable (val) in
/-- A range that is not yet what it is to be is switched if both accesses succeed. -/
theorem switchBank_succeeds (hb : bits cfg regs b = target cfg (!val) b)
    (ha : (access b).read = true ∧ (access b).write = true) :
    bits cfg (switchBank cfg val access regs b).1 b = target cfg val b ∧
      (switchBank cfg val access regs b).2 = true := by
  have hmask := mask_ne_zero cfg b
  rw [bits] at hb
  cases val with
  | true =>
    have hne : regs (b.reg cfg) &&& b.mask cfg ≠ 0 := by
      rw [hb]
      exact hmask
    simp only [switchBank, ha.1, ha.2, Bool.not_true, Bool.false_eq_true, if_false, if_true,
      if_pos hne, bits, Function.update_self, and_true]
    exact clear_and_self _ _
  | false =>
    have heq : regs (b.reg cfg) &&& b.mask cfg = 0 := hb
    simp only [switchBank, ha.1, ha.2, Bool.not_true, Bool.false_eq_true, if_false,
      if_pos heq, bits, Function.update_self, and_true]
    exact set_and_self _ _

theorem switchBank_fails (hb : bits cfg regs b = target cfg (!val) b)
    (ha : ¬ ((access b).read = true ∧ (access b).write = true)) :
    switchBank cfg val access regs b = (regs, false) := by
  have hmask := mask_ne_zero cfg b
  rw [bits] at hb
  cases hread : (access b).read with
  | false => simp [switchBank, hread]
  | true =>
    have hwrite : (access b).write = false := by simpa [hread] using ha
    cases val with
    | true =>
      have hne : regs (b.reg cfg) &&& b.mask cfg ≠ 0 := by
        rw [hb]
        exact hmask
      simp only [switchBank, hread, hwrite, if_pos hne, Bool.not_true, Bool.not_false,
        Bool.false_eq_true, if_true, if_false]
    | false =>
      have heq : regs (b.reg cfg) &&& b.mask cfg = 0 := hb
      simp only [switchBank, hread, hwrite, if_pos heq, Bool.not_true, Bool.not_false,
        Bool.false_eq_true, if_true, if_false]

theorem bits_switchBanks_of_notMem (hc : c ∉ bs) :
    bits cfg (switchBanks cfg val access regs bs) c = bits cfg regs c := by
  induction bs generalizing regs with
  | nil => rfl
  | cons b bs ih =>
    obtain ⟨hne, hmem⟩ := not_or.mp (List.mem_cons.not.mp hc)
    rw [switchBanks]
    split
    · rw [ih hmem, bits_switchBank_of_ne (Ne.symm hne)]
    · exact bits_switchBank_of_ne (Ne.symm hne)

variable (val) in
theorem switchBanks_succeeds (hnodup : bs.Nodup)
    (hbits : ∀ b ∈ bs, bits cfg regs b = target cfg (!val) b)
    (ha : ∀ b ∈ bs, (access b).read = true ∧ (access b).write = true) :
    ∀ b ∈ bs, bits cfg (switchBanks cfg val access regs bs) b = target cfg val b := by
  induction bs generalizing regs with
  | nil => simp
  | cons b bs ih =>
    obtain ⟨hb, hnodup⟩ := List.nodup_cons.mp hnodup
    obtain ⟨hswitched, hnext⟩ := switchBank_succeeds val (hbits b List.mem_cons_self)
      (ha b List.mem_cons_self)
    rw [switchBanks]
    rw [if_pos hnext]
    intro c hc
    rcases List.mem_cons.mp hc with rfl | hc
    · rw [bits_switchBanks_of_notMem hb, hswitched]
    · apply ih hnodup _ (fun c hc => ha c (List.mem_cons_of_mem _ hc)) c hc
      intro d hd
      rw [bits_switchBank_of_ne fun h : b = d => hb (h ▸ hd)]
      exact hbits d (List.mem_cons_of_mem _ hd)

variable (val) in
theorem switchBanks_fails (hnodup : bs.Nodup)
    (hbits : ∀ b ∈ bs, bits cfg regs b = target cfg (!val) b)
    (ha : ¬ ∀ b ∈ bs, (access b).read = true ∧ (access b).write = true) :
    ¬ ∀ b ∈ bs, bits cfg (switchBanks cfg val access regs bs) b = target cfg val b := by
  induction bs generalizing regs with
  | nil => simp at ha
  | cons b bs ih =>
    obtain ⟨hb, hnodup⟩ := List.nodup_cons.mp hnodup
    have hfirst := hbits b List.mem_cons_self
    rw [switchBanks]
    by_cases hab : (access b).read = true ∧ (access b).write = true
    · obtain ⟨-, hnext⟩ := switchBank_succeeds val hfirst hab
      rw [if_pos hnext]
      have hrest : ¬ ∀ b ∈ bs, (access b).read = true ∧ (access b).write = true := by
        intro h
        apply ha
        simpa [hab] using h
      intro hall
      refine ih hnodup (fun c hc => ?_) hrest fun c hc => hall c (List.mem_cons_of_mem _ hc)
      rw [bits_switchBank_of_ne fun h : b = c => hb (h ▸ hc)]
      exact hbits c (List.mem_cons_of_mem _ hc)
    · rw [switchBank_fails hfirst hab, if_neg Bool.false_ne_true]
      intro hall
      exact target_not_ne cfg val b (hfirst.symm.trans (hall b List.mem_cons_self))

/-! ## Calls -/

variable (cfg o) in
/-- What a call that switches on does. -/
theorem powerOn_spec (h : s.thread subsys = .delete) :
    (powerOn cfg s subsys o).1.thread = Function.update s.thread subsys .create ∧
      (powerOn cfg s subsys o).1.regs = switchBanks cfg true o.access s.regs subsys.banks ∧
      (powerOn cfg s subsys o).1.content = Function.update s.content subsys
        (if o.download then some (cfg.beginAddr subsys, cfg.mem subsys) else none) ∧
      (powerOn cfg s subsys o).1.opened = Function.update s.opened subsys o.ack ∧
      (powerOn cfg s subsys o).1.closed = Function.update s.closed subsys false ∧
      (powerOn cfg s subsys o).1.cpVersion = s.cpVersion ∧
      (powerOn cfg s subsys o).2 = if o.ack then 0 else -1 := by
  cases hd : o.download <;> cases ha : o.ack <;>
    simp [powerOn, h, memPdPowerSwitch, memPdDownloadMemBin, waitOpen, interrupt, hd, ha]

variable (cfg) in
/-- What a call that switches off does if the CP does not close the subsystem in time. -/
theorem powerOff_timeout (h : s.thread subsys = .create) (hcloses : ¬ closes s subsys o) :
    (powerOff cfg s subsys o).1.thread = s.thread ∧ (powerOff cfg s subsys o).1.regs = s.regs ∧
      (powerOff cfg s subsys o).1.content = s.content ∧
      (powerOff cfg s subsys o).1.opened = s.opened ∧
      (powerOff cfg s subsys o).1.closed = s.closed ∧
      (powerOff cfg s subsys o).1.cpVersion = s.cpVersion ∧ (powerOff cfg s subsys o).2 = -1 := by
  obtain ⟨hack, hcount⟩ := not_or.mp hcloses
  cases subsys with
  | wifi => simp [powerOff, h, waitClose, hack]
  | bluetooth =>
    have hzero : s.closeCompletion .bluetooth = 0 := by simpa using hcount
    simp [powerOff, h, waitClose, hack, hzero]

variable (cfg) in
/-- What it does if the CP does. -/
theorem powerOff_spec (h : s.thread subsys = .create) (hcloses : closes s subsys o) :
    (powerOff cfg s subsys o).1.thread = Function.update s.thread subsys .delete ∧
      (powerOff cfg s subsys o).1.regs =
        switchBanks cfg false o.access s.regs subsys.banks ∧
      (powerOff cfg s subsys o).1.content = s.content ∧
      (powerOff cfg s subsys o).1.opened = s.opened ∧
      (powerOff cfg s subsys o).1.closed = Function.update s.closed subsys
        (if subsys = .bluetooth ∧ s.closeCompletion subsys ≠ 0 then s.closed subsys else true) ∧
      (powerOff cfg s subsys o).1.cpVersion = s.cpVersion ∧ (powerOff cfg s subsys o).2 = 0 := by
  cases subsys with
  | wifi =>
    have hack : o.ack = true := by simpa [closes] using hcloses
    simp [powerOff, h, waitClose, hack, interrupt, memPdPowerSwitch]
  | bluetooth =>
    by_cases hzero : s.closeCompletion .bluetooth = 0
    · have hack : o.ack = true := by simpa [closes, hzero] using hcloses
      simp [powerOff, h, waitClose, hack, hzero, interrupt, memPdPowerSwitch]
    · simp [powerOff, h, waitClose, hzero, memPdPowerSwitch]

/-- A subsystem has the same record and memory in two states. -/
structure SameAt (cfg : Config) (s t : State) (x : Subsys) : Prop where
  thread : t.thread x = s.thread x
  bits : ∀ b ∈ x.banks, bits cfg t.regs b = bits cfg s.regs b
  content : t.content x = s.content x
  opened : t.opened x = s.opened x
  closed : t.closed x = s.closed x

theorem PoweredOn.congr (h : PoweredOn cfg s x) (hsame : SameAt cfg s t x) : PoweredOn cfg t x where
  on b hb := (hsame.bits b hb).trans (h.on b hb)
  restored := hsame.content.trans h.restored
  opened := hsame.opened.trans h.opened

theorem PoweredOff.congr (h : PoweredOff cfg s x) (hsame : SameAt cfg s t x) :
    PoweredOff cfg t x where
  off b hb := (hsame.bits b hb).trans (h.off b hb)
  closed := hsame.closed.trans h.closed

/-- Between the calls each subsystem is what its record says, and the last result was true. -/
structure Sound (cfg : Config) (s : State) : Prop where
  version : s.cpVersion = false
  on : ∀ x, s.thread x = .create → PoweredOn cfg s x
  off : ∀ x, s.thread x = .delete → PoweredOff cfg s x
  truthful : Truthful cfg s

/-- A call that leaves its subsystem as its record says, and the others as they were. -/
theorem Sound.after {ret : ℤ} (h : Sound cfg s) (val : Bool) (hversion : t.cpVersion = s.cpVersion)
    (hother : ∀ x, x ≠ subsys → SameAt cfg s t x) (hreturned : t.returned = some (subsys, val, ret))
    (hon : t.thread subsys = .create → PoweredOn cfg t subsys)
    (hoff : t.thread subsys = .delete → PoweredOff cfg t subsys)
    (hzero : ret = 0 → t.thread subsys = if val then .create else .delete)
    (herror : ret ≠ 0 → t.thread subsys = if val then .delete else .create) : Sound cfg t where
  version := hversion.trans h.version
  on x hx := by
    by_cases heq : x = subsys
    · subst heq
      exact hon hx
    · have hsame := hother x heq
      exact (h.on x (hsame.thread.symm.trans hx)).congr hsame
  off x hx := by
    by_cases heq : x = subsys
    · subst heq
      exact hoff hx
    · have hsame := hother x heq
      exact (h.off x (hsame.thread.symm.trans hx)).congr hsame
  truthful := by
    intro x v r hr
    obtain ⟨rfl, rfl, rfl⟩ : x = subsys ∧ v = val ∧ r = ret := by
      simpa using hr.symm.trans hreturned
    refine ⟨fun h0 => ?_, herror⟩
    have hthread := hzero h0
    cases v with
    | true => exact hon hthread
    | false => exact hoff hthread

theorem Sound.powerOn (h : Sound cfg s)
    (hfault : s.thread subsys = .delete → o.switches subsys ∧ o.download = true ∧ o.ack = true) :
    Sound cfg (stepTo cfg s (.memPdMgr subsys true o)) := by
  simp only [stepTo, memPdMgr, h.version, Bool.false_eq_true, if_false, if_true]
  by_cases hthread : s.thread subsys = .delete
  · obtain ⟨hswitches, hdownload, hack⟩ := hfault hthread
    obtain ⟨hth, hregs, hcontent, hopened, hcl, hversion, hret⟩ :=
      powerOn_spec cfg o hthread
    have hoff := h.off subsys hthread
    refine h.after true hversion ?_ rfl ?_ ?_ ?_ ?_
    · intro x hx
      refine ⟨?_, fun b hb => ?_, ?_, ?_, ?_⟩
      · exact (congrFun hth x).trans (Function.update_of_ne hx ..)
      · exact (congrArg (bits cfg · b) hregs).trans
          (bits_switchBanks_of_notMem (banks_disjoint hx hb))
      · exact (congrFun hcontent x).trans (Function.update_of_ne hx ..)
      · exact (congrFun hopened x).trans (Function.update_of_ne hx ..)
      · exact (congrFun hcl x).trans (Function.update_of_ne hx ..)
    · intro _
      refine ⟨fun b hb => ?_, ?_, ?_⟩
      · exact (congrArg (bits cfg · b) hregs).trans
          (switchBanks_succeeds true (banks_nodup subsys) hoff.off hswitches b hb)
      · refine (congrFun hcontent subsys).trans ?_
        rw [Function.update_self, if_pos hdownload]
      · refine (congrFun hopened subsys).trans ?_
        rw [Function.update_self, hack]
    · intro hdelete
      have hcreate := (congrFun hth subsys).symm.trans hdelete
      rw [Function.update_self] at hcreate
      cases hcreate
    · intro _
      exact (congrFun hth subsys).trans (Function.update_self ..)
    · intro herror
      rw [hret, hack] at herror
      exact absurd rfl herror
  · have hcreate : s.thread subsys = .create := by
      cases hx : s.thread subsys with
      | delete => exact absurd hx hthread
      | create => rfl
    simp only [MemPd.powerOn, if_pos hthread]
    refine h.after true rfl (fun x _ => ⟨rfl, fun _ _ => rfl, rfl, rfl, rfl⟩) rfl ?_ ?_
      (fun _ => hcreate) fun herror => absurd rfl herror
    · intro _
      exact (h.on subsys hcreate).congr ⟨rfl, fun _ _ => rfl, rfl, rfl, rfl⟩
    · intro hdelete
      exact absurd hdelete hthread

theorem Sound.powerOff (h : Sound cfg s)
    (hfault : s.thread subsys = .create → closes s subsys o → o.switches subsys ∧
      (subsys = .bluetooth → s.closeCompletion subsys ≠ 0 → s.closed subsys = true)) :
    Sound cfg (stepTo cfg s (.memPdMgr subsys false o)) := by
  simp only [stepTo, memPdMgr, h.version, Bool.false_eq_true, if_false]
  by_cases hthread : s.thread subsys = .create
  · have hon := h.on subsys hthread
    by_cases hcloses : closes s subsys o
    · obtain ⟨hswitches, hclosed⟩ := hfault hthread hcloses
      obtain ⟨hth, hregs, hcontent, hopened, hcl, hversion, hret⟩ :=
        powerOff_spec cfg hthread hcloses
      refine h.after false hversion ?_ rfl ?_ ?_ ?_ ?_
      · intro x hx
        refine ⟨?_, fun b hb => ?_, ?_, ?_, ?_⟩
        · exact (congrFun hth x).trans (Function.update_of_ne hx ..)
        · exact (congrArg (bits cfg · b) hregs).trans
            (bits_switchBanks_of_notMem (banks_disjoint hx hb))
        · exact congrFun hcontent x
        · exact congrFun hopened x
        · exact (congrFun hcl x).trans (Function.update_of_ne hx ..)
      · intro hcreate
        have hdelete := (congrFun hth subsys).symm.trans hcreate
        rw [Function.update_self] at hdelete
        cases hdelete
      · intro _
        refine ⟨fun b hb => ?_, ?_⟩
        · exact (congrArg (bits cfg · b) hregs).trans
            (switchBanks_succeeds false (banks_nodup subsys) hon.on hswitches b hb)
        · refine (congrFun hcl subsys).trans ?_
          rw [Function.update_self]
          split
          · rename_i hbt
            exact hclosed hbt.1 hbt.2
          · rfl
      · intro _
        exact (congrFun hth subsys).trans (Function.update_self ..)
      · intro herror
        exact absurd hret herror
    · obtain ⟨hth, hregs, hcontent, hopened, hcl, hversion, hret⟩ :=
        powerOff_timeout cfg hthread hcloses
      have hsame (x : Subsys) : SameAt cfg s
          { (MemPd.powerOff cfg s subsys o).1 with
            returned := some (subsys, false, (MemPd.powerOff cfg s subsys o).2) } x :=
        ⟨congrFun hth x, fun b _ => congrArg (bits cfg · b) hregs, congrFun hcontent x,
          congrFun hopened x, congrFun hcl x⟩
      refine h.after false hversion (fun x _ => hsame x) rfl (fun _ => hon.congr (hsame _))
        ?_ ?_ fun _ => (hsame subsys).thread.trans hthread
      · intro hdelete
        have hcreate := (hsame subsys).thread.trans hthread
        rw [hdelete] at hcreate
        cases hcreate
      · intro hzero
        rw [hret] at hzero
        cases hzero
  · have hdelete : s.thread subsys = .delete := by
      cases hx : s.thread subsys with
      | create => exact absurd hx hthread
      | delete => rfl
    simp only [MemPd.powerOff, if_pos hthread]
    refine h.after false rfl (fun x _ => ⟨rfl, fun _ _ => rfl, rfl, rfl, rfl⟩) rfl ?_ ?_
      (fun _ => hdelete) fun herror => absurd rfl herror
    · intro hcreate
      exact absurd hcreate hthread
    · intro _
      exact (h.off subsys hdelete).congr ⟨rfl, fun _ _ => rfl, rfl, rfl, rfl⟩

/-- An interrupt opens or closes no memory. -/
theorem Sound.interrupt (h : Sound cfg s) (subsys : Subsys) (opens : Bool) :
    Sound cfg (stepTo cfg s (.interrupt subsys opens)) := by
  have hfields : (stepTo cfg s (.interrupt subsys opens)).thread = s.thread ∧
      (stepTo cfg s (.interrupt subsys opens)).regs = s.regs ∧
      (stepTo cfg s (.interrupt subsys opens)).content = s.content ∧
      (stepTo cfg s (.interrupt subsys opens)).cpVersion = s.cpVersion := by
    cases opens <;> exact ⟨rfl, rfl, rfl, rfl⟩
  obtain ⟨hth, hregs, hcontent, hversion⟩ := hfields
  constructor
  · exact hversion.trans h.version
  · intro x hx
    have hon := h.on x ((congrFun hth x).symm.trans hx)
    refine ⟨fun b hb => ?_, ?_, ?_⟩
    · exact (congrArg (bits cfg · b) hregs).trans (hon.on b hb)
    · exact (congrFun hcontent x).trans hon.restored
    · cases opens with
      | false => exact hon.opened
      | true =>
        by_cases heq : x = subsys
        · subst heq
          exact Function.update_self ..
        · exact (Function.update_of_ne heq ..).trans hon.opened
  · intro x hx
    have hoff := h.off x ((congrFun hth x).symm.trans hx)
    refine ⟨fun b hb => ?_, ?_⟩
    · exact (congrArg (bits cfg · b) hregs).trans (hoff.off b hb)
    · cases opens with
      | true => exact hoff.closed
      | false =>
        by_cases heq : x = subsys
        · subst heq
          exact Function.update_self ..
        · exact (Function.update_of_ne heq ..).trans hoff.closed
  · intro x val ret hret
    cases hret

theorem Sound.kept (h : Sound cfg s) {e : Event} (hfault : Faultless s e) :
    Sound cfg (stepTo cfg s e) := by
  cases e with
  | memPdMgr subsys val o =>
    cases val with
    | true => exact h.powerOn hfault
    | false => exact h.powerOff hfault
  | interrupt subsys opens => exact h.interrupt subsys opens

/-- A call that meets a fault where it counts returns something untrue. -/
theorem Sound.broken (h : Sound cfg s) {e : Event} (hfault : ¬ Faultless s e) :
    ¬ Truthful cfg (stepTo cfg s e) := by
  cases e with
  | interrupt subsys opens => exact absurd trivial hfault
  | memPdMgr subsys val o =>
    cases val with
    | true =>
      obtain ⟨hthread, hfails⟩ := Classical.not_imp.mp hfault
      obtain ⟨hth, hregs, hcontent, hopened, hcl, hversion, hret⟩ :=
        powerOn_spec cfg o hthread
      have hoff := h.off subsys hthread
      simp only [stepTo, memPdMgr, h.version, Bool.false_eq_true, if_false, if_true]
      intro htrue
      obtain ⟨hzero, herror⟩ := htrue subsys true _ rfl
      cases hack : o.ack with
      | false =>
        rw [hret, hack] at herror
        have hdelete := (congrFun hth subsys).symm.trans (herror (by decide))
        rw [Function.update_self] at hdelete
        cases hdelete
      | true =>
        rw [hret, hack] at hzero
        have hon : PoweredOn cfg _ subsys := hzero rfl
        refine hfails ⟨?_, ?_, hack⟩
        · by_contra hswitches
          refine switchBanks_fails true (banks_nodup subsys) hoff.off hswitches
            fun b hb => ?_
          exact (congrArg (bits cfg · b) hregs).symm.trans (hon.on b hb)
        · by_contra hdownload
          have hrestored := (congrFun hcontent subsys).symm.trans hon.restored
          rw [Function.update_self, if_neg hdownload] at hrestored
          cases hrestored
    | false =>
      obtain ⟨hthread, hfails⟩ := Classical.not_imp.mp hfault
      obtain ⟨hcloses, hfails⟩ := Classical.not_imp.mp hfails
      obtain ⟨hth, hregs, hcontent, hopened, hcl, hversion, hret⟩ :=
        powerOff_spec cfg hthread hcloses
      have hon := h.on subsys hthread
      simp only [stepTo, memPdMgr, h.version, Bool.false_eq_true, if_false]
      intro htrue
      have hoff : PoweredOff cfg _ subsys := (htrue subsys false _ rfl).1 hret
      refine hfails ⟨?_, ?_⟩
      · by_contra hswitches
        refine switchBanks_fails false (banks_nodup subsys) hon.on hswitches fun b hb => ?_
        exact (congrArg (bits cfg · b) hregs).symm.trans (hoff.off b hb)
      · intro hbt hcount
        have hclosed := (congrFun hcl subsys).symm.trans hoff.closed
        rwa [Function.update_self, if_pos ⟨hbt, hcount⟩] at hclosed

theorem init_sound (cfg : Config) (regs : Regs) : Sound cfg (init cfg regs) := by
  constructor
  · rfl
  · intro x hx
    cases hx
  · intro x _
    refine ⟨fun b _ => ?_, rfl⟩
    cases hm : cfg.marlin3l <;> cases b <;>
      simp [init, bits, Bank.reg, Bank.mask, hm, set_and, set_and_self]
  · intro x val ret hret
    cases hret

/-- The results of all calls of a run are true exactly if no call meets a fault where it counts. -/
theorem mem_pd_truthful_iff (cfg : Config) (regs : Regs) (es : List Event) :
    (∀ es₁ es₂ t, es = es₁ ++ es₂ → run (step cfg) (init cfg regs) es₁ = .ok t → Truthful cfg t) ↔
      Along (step cfg) Faultless (init cfg regs) es :=
  along_iff_prefixes_total (fun _ _ => rfl) (fun _ h => h.truthful) (init_sound cfg regs)
    (fun _ _ h hfault => h.kept hfault) fun _ _ h hfault => h.broken hfault

/-- The CP does not open WiFi in time, and WiFi is switched on again. -/
def sampleRetry : List Event :=
  [.memPdMgr .wifi true ⟨fun _ => ⟨true, true⟩, true, false⟩,
    .memPdMgr .wifi true ⟨fun _ => ⟨true, true⟩, true, true⟩]

/-- The second call reports success without the CP. -/
theorem retry_reports_success :
    ∃ t, run (step ⟨false, fun _ => 0, fun _ => []⟩) (init ⟨false, fun _ => 0, fun _ => []⟩ fun _ => 0)
        sampleRetry = .ok t ∧
      t.returned = some (.wifi, true, 0) ∧ t.opened .wifi = false ∧
      ¬ Truthful ⟨false, fun _ => 0, fun _ => []⟩ t := by
  refine ⟨_, rfl, by decide, by decide, fun h => ?_⟩
  have hon : PoweredOn _ _ Subsys.wifi := (h .wifi true 0 rfl).1 rfl
  exact absurd hon.opened (by decide)

end Uwe5631.MemPd
