import Uwe5631.FallibleRuns
import Mathlib

/-!
# Private commands

`sprdwl_priv_cmd` and `sprdwl_set_power_save` compare a buffer from the user with the names of
commands and parse what follows the name. The buffer has no byte behind it that ends a string.
-/
namespace Uwe5631.PrivCmd
open FallibleRuns

abbrev Byte := BitVec 8

abbrev MAX_PRIV_CMD_LEN : ℕ := 1596
abbrev ETH_ALEN : ℕ := 6
abbrev SPRDWL_COUNTRY_CODE_LEN : ℕ := 2
abbrev EINVAL : ℤ := 22
abbrev ENOMEM : ℤ := 12
abbrev EFAULT : ℤ := 14
abbrev ENOTSUPP : ℤ := 524

inductive Fault
  | readOutside
  | writeOutside
  | nullPointer
  deriving DecidableEq, Repr

/-! ## Strings -/

def ascii (s : String) : List Byte := s.toList.map fun c => BitVec.ofNat 8 c.toNat

def tolower (c : Byte) : Byte := if 0x41 ≤ c ∧ c ≤ 0x5a then c + 0x20 else c

/-- Whether `strncasecmp` finds the bytes equal to a literal. -/
def strncasecmp : List Byte → List Byte → Except Fault Bool
  | _, [] => .ok true
  | [], _ :: _ => .error .readOutside
  | c :: s, d :: lit => if tolower c = tolower d then strncasecmp s lit else .ok false

/-- The string up to the byte that ends it. -/
def cstring (s : List Byte) : Except Fault (List Byte) :=
  if 0 ∈ s then .ok (s.takeWhile (· ≠ 0)) else .error .readOutside

def byteAt (s : List Byte) (i : ℕ) : Except Fault Byte :=
  match s[i]? with
  | some b => .ok b
  | none => .error .readOutside

/-- The parsers of the kernel, on the bytes from a place to the end of the buffer: `none` if they read
behind it. `sscanf` gives the fields that it has converted, the others a number or an error. -/
structure Kernel where
  sscanf : List Byte → Option (List (BitVec 32))
  kstrtou32 : List Byte → Option (Except ℤ (BitVec 32))
  kstrtoint : List Byte → Option (Except ℤ ℤ)

/-- The build, the level of the log, the features, whether the buffers are there, what the firmware and
the kernel return, and what the stack of each call of `str2mac` holds. -/
structure Env where
  ott : Bool
  logErr : Bool
  std11v : Bool
  wnmFtSupport : Byte
  allocCommand : Bool
  allocList : Bool
  copyToUser : Bool
  ret : ℤ
  stack : ℕ → ℕ → BitVec 32

inductive Firmware
  | blacklist (subType : Byte) (macs : List (List Byte))
  | whitelist (subType : Byte) (macs : List (List Byte))
  | set11vFeatureSupport (cfg : Byte)
  | set11vSleepMode (status : Byte) (interval : Byte)
  | regulatoryHint (country : List Byte)
  | setMaxClientsAllowed (n : BitVec 32)
  | powerSave (subType : Byte) (value : ℤ)
  deriving DecidableEq

/-- The value, what is sent, the text for the user, and the buffers that are not freed. -/
structure Outcome where
  ret : ℤ
  sent : List Firmware
  reply : Option (List Byte)
  leaked : ℕ

def done (ret : ℤ) (sent : List Firmware) : Except Fault Outcome := .ok ⟨ret, sent, none, 0⟩

abbrev SPRDWL_SUBCMD_ADD : Byte := 3
abbrev SPRDWL_SUBCMD_DEL : Byte := 4
abbrev SPRDWL_SUBCMD_ENABLE : Byte := 7
abbrev SPRDWL_SUBCMD_DISABLE : Byte := 8
abbrev SPRDWL_SCREEN_ON_OFF : Byte := 1
abbrev SPRDWL_SET_FCC_CHANNEL : Byte := 2

/-! ## Addresses -/

/-- The address of the fields, with what the stack holds for the others. -/
def macOf (fields : List (BitVec 32)) (stack : ℕ → BitVec 32) : List Byte :=
  (List.range ETH_ALEN).map fun i => (fields.getD i (stack i)).setWidth 8

def str2mac (k : Kernel) (env : Env) (stack : ℕ → BitVec 32) (s : List Byte) :
    Except Fault (List Byte) :=
  match k.sscanf s with
  | none => .error .readOutside
  | some fields =>
    if fields.length ≠ ETH_ALEN ∧ env.logErr = true then
      match cstring s with
      | .error f => .error f
      | .ok _ => .ok (macOf fields stack)
    else .ok (macOf fields stack)

/-- `is_valid_ether_addr` -/
def isValidEtherAddr (mac : List Byte) : Bool := !(mac.getD 0 0).getLsbD 0 && mac.any (· ≠ 0)

/-- The commands with one address. -/
def oneMac (k : Kernel) (env : Env) (fw : List (List Byte) → Firmware) (cmd : List Byte) (skip : ℕ) :
    Except Fault Outcome :=
  match str2mac k env (env.stack 0) (cmd.drop skip) with
  | .error f => .error f
  | .ok mac => if isValidEtherAddr mac then done env.ret [fw [mac]] else done 0 []

/-- The loop over the addresses of a list; `none` where it is left for an address that is not valid. -/
def readMacs (k : Kernel) (env : Env) (cmd : List Byte) :
    ℕ → ℕ → ℕ → Except Fault (Option (List (List Byte)))
  | 0, _, _ => .ok (some [])
  | n + 1, index, tmp =>
    match str2mac k env (env.stack index) (cmd.drop tmp) with
    | .error f => .error f
    | .ok mac =>
      if isValidEtherAddr mac then
        (readMacs k env cmd n (index + 1) (tmp + 18)).map (Option.map (mac :: ·))
      else .ok none

/-- The commands with a counter and a list. -/
def macList (k : Kernel) (env : Env) (subType : Byte) (cmd : List Byte) (skip : ℕ) :
    Except Fault Outcome :=
  match byteAt cmd skip with
  | .error f => .error f
  | .ok counter =>
    if counter = 0 then done env.ret [.whitelist subType []]
    else if env.allocList = false then .error .nullPointer
    else
      match readMacs k env cmd counter.toNat 0 (skip + 1) with
      | .error f => .error f
      | .ok none => .ok ⟨0, [], none, 1⟩
      | .ok (some macs) => done env.ret [.whitelist subType macs]

/-! ## The other commands -/

def CMD_11V_GET_CFG : List Byte := ascii "11VCFG_GET"

/-- `"%d"` of a byte. -/
def decimal (n : Byte) : List Byte :=
  let digit := fun m : ℕ => BitVec.ofNat 8 (0x30 + m % 10)
  if n.toNat < 10 then [digit n.toNat]
  else if n.toNat < 100 then [digit (n.toNat / 10), digit n.toNat]
  else [digit (n.toNat / 100), digit (n.toNat / 10), digit n.toNat]

def feat (env : Env) : Byte := if env.std11v then env.wnmFtSupport else 0

/-- What `sprintf` writes. -/
def cfgText (env : Env) : List Byte := CMD_11V_GET_CFG ++ (0x20 :: (decimal (feat env) ++ [0]))

def get11vCfg (env : Env) (cmd : List Byte) : Except Fault Outcome :=
  if cmd.length < CMD_11V_GET_CFG.length + 4 then done (-ENOMEM) []
  else if cmd.length < (cfgText env).length then .error .writeOutside
  else if env.copyToUser then
    .ok ⟨0, [], some (cfgText env ++ List.replicate (cmd.length - (cfgText env).length) 0), 0⟩
  else done (-EFAULT) []

def set11vCfg (cmd : List Byte) (skip : ℕ) : Except Fault Outcome :=
  match byteAt cmd skip with
  | .error f => .error f
  | .ok cfg => done 0 [.set11vFeatureSupport cfg]

def wnmSleep (cmd : List Byte) (skip : ℕ) : Except Fault Outcome :=
  match byteAt cmd skip with
  | .error f => .error f
  | .ok status =>
    if status = 0 then done 0 [.set11vSleepMode 0 0]
    else
      match byteAt cmd (skip + 1) with
      | .error f => .error f
      | .ok interval => done 0 [.set11vSleepMode status interval]

def setCountry (env : Env) (cmd : List Byte) (skip : ℕ) : Except Fault Outcome :=
  match cstring (cmd.drop skip) with
  | .error f => .error f
  | .ok country =>
    if country.length ≠ SPRDWL_COUNTRY_CODE_LEN then done (-EINVAL) []
    else done env.ret [.regulatoryHint country]

/-- The commands with a number, of a parser. -/
def number {α : Type} (parse : List Byte → Option (Except ℤ α)) (failed : ℤ → ℤ) (env : Env)
    (fw : α → Firmware) (cmd : List Byte) (skip : ℕ) : Except Fault Outcome :=
  match parse (cmd.drop skip) with
  | none => .error .readOutside
  | some (.error ret) => done (failed ret) []
  | some (.ok n) => done env.ret [fw n]

/-! ## What the commands should do -/

/-- An address that is parsed and valid. -/
def parsed (k : Kernel) (s : List Byte) : Option (List Byte) :=
  match k.sscanf s with
  | some fields =>
    if fields.length = ETH_ALEN ∧ isValidEtherAddr (macOf fields fun _ => 0) = true then
      some (macOf fields fun _ => 0)
    else none
  | none => none

def wantedOne (k : Kernel) (subType : Byte) (cmd : List Byte) (skip : ℕ) : List Firmware :=
  match parsed k (cmd.drop skip) with
  | some mac => [.whitelist subType [mac]]
  | none => []

/-- The addresses of a list, if all of them are parsed. -/
def wantedMacs (k : Kernel) (cmd : List Byte) : ℕ → ℕ → Option (List (List Byte))
  | 0, _ => some []
  | n + 1, tmp =>
    match parsed k (cmd.drop tmp) with
    | some mac => (wantedMacs k cmd n (tmp + 18)).map (mac :: ·)
    | none => none

def wantedList (k : Kernel) (subType : Byte) (cmd : List Byte) (skip : ℕ) : List Firmware :=
  match cmd[skip]? with
  | none => []
  | some counter =>
    match wantedMacs k cmd counter.toNat (skip + 1) with
    | some macs => [.whitelist subType macs]
    | none => []

/-- A command: its name, what is done, what should be sent, and the buffers for which that comes
true. -/
structure Command where
  name : List Byte
  run : List Byte → Except Fault Outcome
  should : List Byte → List Firmware → Prop
  fine : List Byte → Prop

/-- The call returns with all buffers freed and what should be sent. -/
def Goes (should : List Firmware → Prop) (x : Except Fault Outcome) : Prop :=
  ∃ o, x = .ok o ∧ o.leaked = 0 ∧ should o.sent

/-- An address is read inside the buffer; one that is not parsed is printed, up to the end of its
string. -/
def MacFine (k : Kernel) (env : Env) (s : List Byte) (malformed : List (BitVec 32) → Prop) : Prop :=
  ∃ fields, k.sscanf s = some fields ∧
    (fields.length ≠ ETH_ALEN → (env.logErr = true → 0 ∈ s) ∧ malformed fields)

section
variable (k : Kernel) (env : Env)

def blacklistCmd (name : String) (subType : Byte) : Command where
  name := ascii name
  run cmd := oneMac k env (.blacklist subType) cmd ((ascii name).length + 1)
  should _ _ := True
  fine cmd := MacFine k env (cmd.drop ((ascii name).length + 1)) fun _ => True

/-- What is not parsed is taken from the stack. -/
def whitelistCmd (name : String) (subType : Byte) : Command where
  name := ascii name
  run cmd := oneMac k env (.whitelist subType) cmd ((ascii name).length + 1)
  should cmd sent := sent = wantedOne k subType cmd ((ascii name).length + 1)
  fine cmd := MacFine k env (cmd.drop ((ascii name).length + 1)) fun fields =>
    isValidEtherAddr (macOf fields (env.stack 0)) = false

/-- A counter that is not zero needs the second buffer and that many addresses. -/
def whitelistModeCmd (name : String) (subType : Byte) : Command where
  name := ascii name
  run cmd := macList k env subType cmd ((ascii name).length + 1)
  should cmd sent := sent = wantedList k subType cmd ((ascii name).length + 1)
  fine cmd := ∃ counter, cmd[(ascii name).length + 1]? = some counter ∧
    (counter ≠ 0 → env.allocList = true ∧ ∀ i < counter.toNat,
      (parsed k (cmd.drop ((ascii name).length + 1 + 1 + 18 * i))).isSome = true)

def get11vCfgCmd : Command where
  name := CMD_11V_GET_CFG
  run cmd := get11vCfg env cmd
  should _ _ := True
  fine cmd := cmd.length = CMD_11V_GET_CFG.length + 4 → (feat env).toNat < 100

def set11vCfgCmd : Command where
  name := ascii "11VCFG_SET"
  run cmd := set11vCfg cmd ((ascii "11VCFG_SET").length + 1)
  should _ _ := True
  fine cmd := (ascii "11VCFG_SET").length + 1 < cmd.length

def wnmSleepCmd : Command where
  name := ascii "WNM_SLEEP"
  run cmd := wnmSleep cmd ((ascii "WNM_SLEEP").length + 1)
  should _ _ := True
  fine cmd := ∃ status, cmd[(ascii "WNM_SLEEP").length + 1]? = some status ∧
    (status ≠ 0 → (ascii "WNM_SLEEP").length + 1 + 1 < cmd.length)

def countryCmd : Command where
  name := ascii "COUNTRY"
  run cmd := setCountry env cmd ((ascii "COUNTRY").length + 1)
  should _ _ := True
  fine cmd := 0 ∈ cmd.drop ((ascii "COUNTRY").length + 1)

def numberCmd {α : Type} (name : String) (parse : List Byte → Option (Except ℤ α)) (failed : ℤ → ℤ)
    (fw : α → Firmware) : Command where
  name := ascii name
  run cmd := number parse failed env fw cmd ((ascii name).length + 1)
  should _ _ := True
  fine cmd := parse (cmd.drop ((ascii name).length + 1)) ≠ none

/-- A command that is known and does nothing. -/
def knownCmd (name : String) : Command where
  name := ascii name
  run _ := done 0 []
  should _ _ := True
  fine _ := True

/-- The comparisons of `sprdwl_priv_cmd`, in their order. -/
def privCommands : List Command :=
  [blacklistCmd k env "BLOCK" SPRDWL_SUBCMD_ADD,
    blacklistCmd k env "UNBLOCK" SPRDWL_SUBCMD_DEL,
    whitelistCmd k env "WHITE_ADD" SPRDWL_SUBCMD_ADD,
    whitelistCmd k env "WHITE_DEL" SPRDWL_SUBCMD_DEL,
    whitelistModeCmd k env "WHITE_EN" SPRDWL_SUBCMD_ENABLE,
    whitelistModeCmd k env "WHITE_DIS" SPRDWL_SUBCMD_DISABLE,
    get11vCfgCmd env, set11vCfgCmd, wnmSleepCmd, countryCmd env,
    numberCmd env "MAX_STA" k.kstrtou32 (fun _ => -EINVAL) .setMaxClientsAllowed,
    numberCmd env "SETSUSPENDMODE" k.kstrtoint id (.powerSave SPRDWL_SCREEN_ON_OFF)] ++
  if env.ott then
    ["BTCOEXSCAN-STOP", "BTCOEXSCAN-START", "RXFILTER-STOP", "RXFILTER-ADD", "RXFILTER-START",
      "RXFILTER-REMOVE", "BTCOEXMODE", "WLS_BATCHING", "SETBAND", "SET_AP_WPS_P2P_IE",
      "GTK_REKEY_OFFLOAD"].map knownCmd
  else []

/-- The comparisons of `sprdwl_set_power_save`. -/
def powerSaveCommands : List Command :=
  [numberCmd env "SETSUSPENDMODE" k.kstrtoint id (.powerSave SPRDWL_SCREEN_ON_OFF),
    numberCmd env "SET_FCC_CHANNEL" k.kstrtoint id (.powerSave SPRDWL_SET_FCC_CHANNEL)]

end

/-! ## The two functions -/

/-- The first command whose name is found, or what is done without one. -/
def dispatch (cmd : List Byte) (other : Except Fault Outcome) :
    List Command → Except Fault Outcome
  | [] => other
  | c :: cs =>
    match strncasecmp cmd c.name with
    | .error f => .error f
    | .ok true => c.run cmd
    | .ok false => dispatch cmd other cs

/-- Behind the last comparison `sprdwl_priv_cmd` prints the whole command. -/
def unknown (env : Env) (cmd : List Byte) : Except Fault Outcome :=
  if env.logErr then
    match cstring cmd with
    | .error f => .error f
    | .ok _ => done (-ENOTSUPP) []
  else done (-ENOTSUPP) []

/-- The bytes that are copied from the user, for a length, or the error before that. -/
def copyCommand (env : Env) (user : List Byte) (totalLen : ℤ) : Except ℤ (List Byte) :=
  if totalLen = 0 then .error (-EINVAL)
  else if min totalLen MAX_PRIV_CMD_LEN < 0 ∨ env.allocCommand = false then .error (-ENOMEM)
  else if (user.length : ℤ) < min totalLen MAX_PRIV_CMD_LEN then .error (-EFAULT)
  else .ok (user.take (min totalLen MAX_PRIV_CMD_LEN).toNat)

def privCmd (k : Kernel) (env : Env) (user : List Byte) (totalLen : ℤ) : Except Fault Outcome :=
  match copyCommand env user totalLen with
  | .error ret => done ret []
  | .ok cmd => dispatch cmd (unknown env cmd) (privCommands k env)

def setPowerSave (k : Kernel) (env : Env) (user : List Byte) (totalLen : ℤ) :
    Except Fault Outcome :=
  match copyCommand env user totalLen with
  | .error ret => done ret []
  | .ok cmd => dispatch cmd (done (-ENOTSUPP) []) (powerSaveCommands k env)

/-- The two functions, and what they compare and do without a name. -/
inductive Function
  | privCmd
  | setPowerSave

def Function.call : Function → Kernel → Env → List Byte → ℤ → Except Fault Outcome
  | privCmd => PrivCmd.privCmd
  | setPowerSave => PrivCmd.setPowerSave

def Function.commands : Function → Kernel → Env → List Command
  | privCmd => privCommands
  | setPowerSave => powerSaveCommands

def Function.other : Function → Env → List Byte → Except Fault Outcome
  | privCmd, env, cmd => unknown env cmd
  | setPowerSave, _, _ => done (-ENOTSUPP) []

def Function.OtherFine : Function → Env → List Byte → Prop
  | privCmd, env, cmd => env.logErr = true → 0 ∈ cmd
  | setPowerSave, _, _ => True

def StartsWith (cmd name : List Byte) : Prop := name.map tolower <+: cmd.map tolower

instance (cmd name : List Byte) : Decidable (StartsWith cmd name) :=
  inferInstanceAs (Decidable (_ <+: _))

/-- The buffer ends within the name. -/
def CutBy (cmd name : List Byte) : Prop :=
  cmd.length < name.length ∧ cmd.map tolower <+: name.map tolower

/-- What the command whose name comes first should send. -/
def Should (cmd : List Byte) (sent : List Firmware) : List Command → Prop
  | [] => True
  | c :: cs => if StartsWith cmd c.name then c.should cmd sent else Should cmd sent cs

/-- No name that is compared goes on behind the end of the buffer, and the rest is as the command needs
it. -/
def Fine (cmd : List Byte) (other : Prop) : List Command → Prop
  | [] => other
  | c :: cs => ¬ CutBy cmd c.name ∧ if StartsWith cmd c.name then c.fine cmd else Fine cmd other cs

/-! ## The comparisons -/

theorem strncasecmp_eq (cmd name : List Byte) (hcut : ¬ CutBy cmd name) :
    strncasecmp cmd name = .ok (decide (StartsWith cmd name)) := by
  induction name generalizing cmd with
  | nil =>
    rw [strncasecmp]
    exact congrArg Except.ok (decide_eq_true (List.nil_prefix)).symm
  | cons d lit ih =>
    cases cmd with
    | nil => exact absurd ⟨Nat.zero_lt_succ _, List.nil_prefix⟩ hcut
    | cons c s =>
      have hstarts : StartsWith (c :: s) (d :: lit) ↔ tolower d = tolower c ∧ StartsWith s lit :=
        List.cons_prefix_cons
      rw [strncasecmp]
      by_cases heq : tolower c = tolower d
      · rw [if_pos heq, ih]
        · congr 1
          rw [decide_eq_decide, hstarts]
          exact ⟨fun h => ⟨heq.symm, h⟩, fun h => h.2⟩
        · intro h
          apply hcut
          refine ⟨Nat.succ_lt_succ h.1, ?_⟩
          rw [List.map_cons, List.map_cons]
          exact List.cons_prefix_cons.mpr ⟨heq, h.2⟩
      · rw [if_neg heq]
        congr 1
        symm
        rw [decide_eq_false_iff_not, hstarts]
        exact fun h => heq h.1.symm

theorem strncasecmp_cut (cmd name : List Byte) (hcut : CutBy cmd name) :
    strncasecmp cmd name = .error .readOutside := by
  induction name generalizing cmd with
  | nil => exact absurd hcut.1 (Nat.not_lt_zero _)
  | cons d lit ih =>
    cases cmd with
    | nil => rfl
    | cons c s =>
      obtain ⟨hlength, hmap⟩ := hcut
      rw [List.map_cons, List.map_cons, List.cons_prefix_cons] at hmap
      rw [strncasecmp, if_pos hmap.1]
      exact ih s ⟨Nat.lt_of_succ_lt_succ hlength, hmap.2⟩

theorem dispatch_iff {cmd : List Byte} {other : Except Fault Outcome} {fine : Prop}
    (hother : Goes (fun _ => True) other ↔ fine) {cs : List Command}
    (hcs : ∀ c ∈ cs, Goes (c.should cmd) (c.run cmd) ↔ c.fine cmd) :
    Goes (fun sent => Should cmd sent cs) (dispatch cmd other cs) ↔ Fine cmd fine cs := by
  induction cs with
  | nil => exact hother
  | cons c cs ih =>
    rw [dispatch, Fine]
    by_cases hcut : CutBy cmd c.name
    · rw [strncasecmp_cut _ _ hcut]
      refine ⟨?_, fun h => absurd hcut h.1⟩
      rintro ⟨o, ho, -⟩
      cases ho
    · rw [strncasecmp_eq _ _ hcut, and_iff_right hcut]
      by_cases hstarts : StartsWith cmd c.name
      · rw [decide_eq_true hstarts, if_pos hstarts, ← hcs c List.mem_cons_self]
        simp only [Should, if_pos hstarts]
      · rw [decide_eq_false hstarts, if_neg hstarts,
          ← ih fun c hc => hcs c (List.mem_cons_of_mem _ hc)]
        simp only [Should, if_neg hstarts]

/-! ## Each command -/

theorem goes_done {should : List Firmware → Prop} {ret : ℤ} {sent : List Firmware} :
    Goes should (done ret sent) ↔ should sent :=
  ⟨fun ⟨_, ho, _, h⟩ => by obtain rfl := Except.ok.inj ho; exact h, fun h => ⟨_, rfl, rfl, h⟩⟩

theorem goes_error {should : List Firmware → Prop} {f : Fault} : ¬ Goes should (.error f) := by
  rintro ⟨o, ho, -⟩
  cases ho

variable {k : Kernel} {env : Env}

/-- Of six fields the stack is not seen. -/
theorem macOf_six {fields : List (BitVec 32)} (h : fields.length = ETH_ALEN)
    (stack stack' : ℕ → BitVec 32) : macOf fields stack = macOf fields stack' := by
  rw [macOf, macOf]
  refine List.map_congr_left fun i hi => ?_
  have hlt : i < fields.length := h ▸ List.mem_range.mp hi
  rw [List.getD_eq_getElem _ _ hlt, List.getD_eq_getElem _ _ hlt]

theorem str2mac_eq {stack : ℕ → BitVec 32} {s : List Byte} {fields : List (BitVec 32)}
    (h : k.sscanf s = some fields) (hlog : fields.length ≠ ETH_ALEN → env.logErr = true → 0 ∈ s) :
    str2mac k env stack s = .ok (macOf fields stack) := by
  rw [str2mac, h]
  dsimp only
  split
  · rename_i hbad
    rw [cstring, if_pos (hlog hbad.1 hbad.2)]
  · rfl

theorem str2mac_some {stack : ℕ → BitVec 32} {s mac : List Byte}
    (h : str2mac k env stack s = .ok mac) :
    ∃ fields, k.sscanf s = some fields ∧ (fields.length ≠ ETH_ALEN → env.logErr = true → 0 ∈ s) ∧
      mac = macOf fields stack := by
  rw [str2mac] at h
  cases hscan : k.sscanf s with
  | none =>
    rw [hscan] at h
    cases h
  | some fields =>
    rw [hscan] at h
    dsimp only at h
    refine ⟨fields, rfl, ?_⟩
    split at h
    · by_cases hzero : 0 ∈ s
      · rw [cstring, if_pos hzero] at h
        exact ⟨fun _ _ => hzero, (Except.ok.inj h).symm⟩
      · rw [cstring, if_neg hzero] at h
        cases h
    · rename_i hgood
      exact ⟨fun hbad hlog => absurd ⟨hbad, hlog⟩ hgood, (Except.ok.inj h).symm⟩

theorem oneMac_iff {fw : List (List Byte) → Firmware} {cmd : List Byte} {skip : ℕ}
    {should : List Firmware → Prop} : Goes should (oneMac k env fw cmd skip) ↔
      ∃ fields, k.sscanf (cmd.drop skip) = some fields ∧
        (fields.length ≠ ETH_ALEN → env.logErr = true → 0 ∈ cmd.drop skip) ∧
        should (if isValidEtherAddr (macOf fields (env.stack 0)) then
          [fw [macOf fields (env.stack 0)]] else []) := by
  have hrun : ∀ fields, Goes should (if isValidEtherAddr (macOf fields (env.stack 0)) then
      done env.ret [fw [macOf fields (env.stack 0)]] else done 0 []) ↔
        should (if isValidEtherAddr (macOf fields (env.stack 0)) then
          [fw [macOf fields (env.stack 0)]] else []) := by
    intro fields
    split <;> exact goes_done
  rw [oneMac]
  constructor
  · intro h
    cases hmac : str2mac k env (env.stack 0) (cmd.drop skip) with
    | error f =>
      rw [hmac] at h
      exact absurd h goes_error
    | ok mac =>
      rw [hmac] at h
      obtain ⟨fields, hfields, hlog, rfl⟩ := str2mac_some hmac
      exact ⟨fields, hfields, hlog, (hrun fields).mp h⟩
  · rintro ⟨fields, hfields, hlog, h⟩
    rw [str2mac_eq hfields hlog]
    exact (hrun fields).mpr h

theorem blacklistCmd_iff (name : String) (subType : Byte) (cmd : List Byte) :
    Goes ((blacklistCmd k env name subType).should cmd) ((blacklistCmd k env name subType).run cmd) ↔
      (blacklistCmd k env name subType).fine cmd := by
  refine oneMac_iff.trans (exists_congr fun fields => and_congr_right fun _ => ?_)
  exact ⟨fun h hbad => ⟨h.1 hbad, True.intro⟩, fun h => ⟨fun hbad => (h hbad).1, True.intro⟩⟩

theorem parsed_eq {s : List Byte} {fields : List (BitVec 32)} (h : k.sscanf s = some fields) :
    parsed k s = if fields.length = ETH_ALEN ∧ isValidEtherAddr (macOf fields fun _ => 0) = true then
      some (macOf fields fun _ => 0) else none := by
  rw [parsed, h]

theorem whitelistCmd_iff (name : String) (subType : Byte) (cmd : List Byte) :
    Goes ((whitelistCmd k env name subType).should cmd) ((whitelistCmd k env name subType).run cmd) ↔
      (whitelistCmd k env name subType).fine cmd := by
  refine oneMac_iff.trans (exists_congr fun fields => and_congr_right fun hfields => ?_)
  show _ ∧ _ = wantedOne k subType cmd ((ascii name).length + 1) ↔ _
  rw [wantedOne, parsed_eq hfields]
  by_cases hsix : fields.length = ETH_ALEN
  · rw [macOf_six hsix (env.stack 0) fun _ => 0]
    refine ⟨fun _ hbad => absurd hsix hbad, fun _ => ⟨fun hbad => absurd hsix hbad, ?_⟩⟩
    by_cases hvalid : isValidEtherAddr (macOf fields fun _ => 0) = true
    · rw [if_pos hvalid, if_pos ⟨hsix, hvalid⟩]
    · rw [if_neg hvalid, if_neg fun h => hvalid h.2]
  · have hnot : ¬ (fields.length = ETH_ALEN ∧ isValidEtherAddr (macOf fields fun _ => 0) = true) :=
      fun h => hsix h.1
    rw [if_neg hnot]
    cases hvalid : isValidEtherAddr (macOf fields (env.stack 0)) with
    | true =>
      refine ⟨fun h => ?_, fun h => ?_⟩
      · cases h.2
      · exact absurd ((h hsix).2.symm.trans hvalid) Bool.false_ne_true
    | false => exact ⟨fun h hbad => ⟨h.1 hbad, hvalid⟩, fun h => ⟨fun hbad => (h hbad).1, rfl⟩⟩

theorem str2mac_parsed (env : Env) (stack : ℕ → BitVec 32) {s mac : List Byte}
    (h : parsed k s = some mac) :
    str2mac k env stack s = .ok mac ∧ isValidEtherAddr mac = true := by
  rw [parsed] at h
  cases hscan : k.sscanf s with
  | none =>
    rw [hscan] at h
    cases h
  | some fields =>
    rw [hscan] at h
    dsimp only at h
    split at h
    · rename_i hgood
      obtain rfl := Option.some.inj h
      rw [str2mac_eq hscan fun hbad => absurd hgood.1 hbad, macOf_six hgood.1 stack fun _ => 0]
      exact ⟨rfl, hgood.2⟩
    · cases h

theorem wantedMacs_isSome (cmd : List Byte) (n tmp : ℕ) : (wantedMacs k cmd n tmp).isSome = true ↔
    ∀ i < n, (parsed k (cmd.drop (tmp + 18 * i))).isSome = true := by
  induction n generalizing tmp with
  | zero => exact ⟨fun _ i hi => absurd hi (Nat.not_lt_zero i), fun _ => rfl⟩
  | succ n ih =>
    rw [wantedMacs]
    constructor
    · intro h i hi
      cases hmac : parsed k (cmd.drop tmp) with
      | none =>
        rw [hmac] at h
        cases h
      | some mac =>
        rw [hmac] at h
        dsimp only at h
        rw [Option.isSome_map] at h
        cases i with
        | zero =>
          rw [Nat.mul_zero, Nat.add_zero, hmac]
          rfl
        | succ i =>
          have hnext := (ih (tmp + 18)).mp h i (Nat.lt_of_succ_lt_succ hi)
          rwa [Nat.mul_succ, Nat.add_comm (18 * i), ← Nat.add_assoc]
    · intro h
      have hfirst := h 0 (Nat.succ_pos n)
      rw [Nat.mul_zero, Nat.add_zero] at hfirst
      obtain ⟨mac, hmac⟩ := Option.isSome_iff_exists.mp hfirst
      rw [hmac]
      dsimp only
      rw [Option.isSome_map]
      refine (ih (tmp + 18)).mpr fun i hi => ?_
      have hnext := h (i + 1) (Nat.succ_lt_succ hi)
      rwa [Nat.mul_succ, Nat.add_comm (18 * i), ← Nat.add_assoc] at hnext

/-- Addresses that are all parsed are read, whatever the stack holds. -/
theorem readMacs_wanted {cmd : List Byte} {n tmp : ℕ} {macs : List (List Byte)} (index : ℕ)
    (h : wantedMacs k cmd n tmp = some macs) : readMacs k env cmd n index tmp = .ok (some macs) := by
  induction n generalizing tmp macs index with
  | zero =>
    obtain rfl := Option.some.inj h
    rfl
  | succ n ih =>
    rw [wantedMacs] at h
    cases hmac : parsed k (cmd.drop tmp) with
    | none =>
      rw [hmac] at h
      cases h
    | some mac =>
      rw [hmac] at h
      obtain ⟨rest, hrest, rfl⟩ := Option.map_eq_some_iff.mp h
      obtain ⟨hstr, hvalid⟩ := str2mac_parsed env (env.stack index) hmac
      rw [readMacs, hstr]
      dsimp only
      rw [if_pos hvalid, ih (index + 1) hrest]
      rfl

theorem whitelistModeCmd_iff (name : String) (subType : Byte) (cmd : List Byte) :
    Goes ((whitelistModeCmd k env name subType).should cmd)
        ((whitelistModeCmd k env name subType).run cmd) ↔
      (whitelistModeCmd k env name subType).fine cmd := by
  show Goes (fun sent => sent = wantedList k subType cmd ((ascii name).length + 1))
    (macList k env subType cmd ((ascii name).length + 1)) ↔
      ∃ counter, cmd[(ascii name).length + 1]? = some counter ∧
        (counter ≠ 0 → env.allocList = true ∧ ∀ i < counter.toNat,
          (parsed k (cmd.drop ((ascii name).length + 1 + 1 + 18 * i))).isSome = true)
  generalize (ascii name).length + 1 = skip
  rw [macList, byteAt, wantedList]
  cases hcounter : cmd[skip]? with
  | none => exact ⟨fun h => absurd h goes_error, fun ⟨_, h, _⟩ => (by cases h)⟩
  | some counter =>
    dsimp only
    have hexists : (∃ c, some counter = some c ∧ (c ≠ 0 → env.allocList = true ∧ ∀ i < c.toNat,
        (parsed k (cmd.drop (skip + 1 + 18 * i))).isSome = true)) ↔
          (counter ≠ 0 → env.allocList = true ∧
            (wantedMacs k cmd counter.toNat (skip + 1)).isSome = true) := by
      rw [wantedMacs_isSome]
      exact ⟨fun ⟨c, hc, h⟩ => Option.some.inj hc ▸ h, fun h => ⟨counter, rfl, h⟩⟩
    rw [hexists]
    by_cases hzero : counter = 0
    · rw [if_pos hzero, goes_done, hzero]
      exact ⟨fun _ h => absurd rfl h, fun _ => rfl⟩
    rw [if_neg hzero]
    by_cases halloc : env.allocList = false
    · rw [if_pos halloc]
      refine ⟨fun h => absurd h goes_error, fun h => ?_⟩
      have := (h hzero).1
      rw [halloc] at this
      cases this
    rw [if_neg halloc]
    cases hwanted : wantedMacs k cmd counter.toNat (skip + 1) with
    | some macs =>
      rw [readMacs_wanted 0 hwanted]
      exact ⟨fun _ _ => ⟨by simpa using halloc, rfl⟩, fun _ => goes_done.mpr rfl⟩
    | none =>
      refine ⟨fun h => ?_, fun h => (by cases (h hzero).2)⟩
      cases hread : readMacs k env cmd counter.toNat 0 (skip + 1) with
      | error f =>
        rw [hread] at h
        exact absurd h goes_error
      | ok macs =>
        rw [hread] at h
        cases macs with
        | none =>
          obtain ⟨o, ho, hleaked, -⟩ := h
          obtain rfl := Except.ok.inj ho
          cases hleaked
        | some macs => cases goes_done.mp h

theorem length_decimal (n : Byte) :
    (decimal n).length = if n.toNat < 10 then 1 else if n.toNat < 100 then 2 else 3 := by
  rw [decimal]
  split
  · rfl
  · split <;> rfl

theorem length_cfgText (env : Env) :
    (cfgText env).length = CMD_11V_GET_CFG.length + 2 + (decimal (feat env)).length := by
  rw [cfgText, List.length_append, List.length_cons, List.length_append, List.length_singleton]
  omega

theorem get11vCfgCmd_iff (cmd : List Byte) :
    Goes ((get11vCfgCmd env).should cmd) ((get11vCfgCmd env).run cmd) ↔
      (get11vCfgCmd env).fine cmd := by
  show Goes (fun _ => True) (get11vCfg env cmd) ↔
    (cmd.length = CMD_11V_GET_CFG.length + 4 → (feat env).toNat < 100)
  have htext := length_cfgText env
  rw [length_decimal] at htext
  rw [get11vCfg]
  by_cases hshort : cmd.length < CMD_11V_GET_CFG.length + 4
  · rw [if_pos hshort]
    exact ⟨fun _ h => absurd hshort (by omega), fun _ => goes_done.mpr True.intro⟩
  rw [if_neg hshort]
  by_cases hover : cmd.length < (cfgText env).length
  · rw [if_pos hover]
    refine ⟨fun h => absurd h goes_error, fun h => ?_⟩
    split_ifs at htext with h10 h100
    · omega
    · omega
    · exact absurd (h (by omega)) h100
  · rw [if_neg hover]
    refine ⟨fun _ hlength => ?_, fun _ => ?_⟩
    · split_ifs at htext with h10 h100
      · omega
      · exact h100
      · omega
    · split
      · exact ⟨_, rfl, rfl, True.intro⟩
      · exact goes_done.mpr True.intro

theorem byteAt_eq {s : List Byte} {i : ℕ} (h : i < s.length) : byteAt s i = .ok s[i] := by
  rw [byteAt, List.getElem?_eq_getElem h]

theorem byteAt_outside {s : List Byte} {i : ℕ} (h : ¬ i < s.length) :
    byteAt s i = .error .readOutside := by
  rw [byteAt, List.getElem?_eq_none (Nat.le_of_not_lt h)]

theorem set11vCfgCmd_iff (cmd : List Byte) :
    Goes (set11vCfgCmd.should cmd) (set11vCfgCmd.run cmd) ↔ set11vCfgCmd.fine cmd := by
  show Goes (fun _ => True) (set11vCfg cmd ((ascii "11VCFG_SET").length + 1)) ↔
    (ascii "11VCFG_SET").length + 1 < cmd.length
  generalize (ascii "11VCFG_SET").length + 1 = skip
  rw [set11vCfg]
  by_cases hinside : skip < cmd.length
  · rw [byteAt_eq hinside]
    exact ⟨fun _ => hinside, fun _ => goes_done.mpr True.intro⟩
  · rw [byteAt_outside hinside]
    exact ⟨fun h => absurd h goes_error, fun h => absurd h hinside⟩

theorem wnmSleepCmd_iff (cmd : List Byte) :
    Goes (wnmSleepCmd.should cmd) (wnmSleepCmd.run cmd) ↔ wnmSleepCmd.fine cmd := by
  show Goes (fun _ => True) (wnmSleep cmd ((ascii "WNM_SLEEP").length + 1)) ↔
    ∃ status, cmd[(ascii "WNM_SLEEP").length + 1]? = some status ∧
      (status ≠ 0 → (ascii "WNM_SLEEP").length + 1 + 1 < cmd.length)
  generalize (ascii "WNM_SLEEP").length + 1 = skip
  rw [wnmSleep, byteAt]
  cases hstatus : cmd[skip]? with
  | none => exact ⟨fun h => absurd h goes_error, fun ⟨_, h, _⟩ => (by cases h)⟩
  | some status =>
    dsimp only
    by_cases hzero : status = 0
    · rw [if_pos hzero]
      exact ⟨fun _ => ⟨status, rfl, fun h => absurd hzero h⟩, fun _ => goes_done.mpr True.intro⟩
    rw [if_neg hzero]
    by_cases hinside : skip + 1 < cmd.length
    · rw [byteAt_eq hinside]
      exact ⟨fun _ => ⟨status, rfl, fun _ => hinside⟩, fun _ => goes_done.mpr True.intro⟩
    · rw [byteAt_outside hinside]
      refine ⟨fun h => absurd h goes_error, ?_⟩
      rintro ⟨status', hsame, h⟩
      obtain rfl := Option.some.inj hsame
      exact absurd (h hzero) hinside

theorem countryCmd_iff (cmd : List Byte) :
    Goes ((countryCmd env).should cmd) ((countryCmd env).run cmd) ↔ (countryCmd env).fine cmd := by
  show Goes (fun _ => True) (setCountry env cmd ((ascii "COUNTRY").length + 1)) ↔
    0 ∈ cmd.drop ((ascii "COUNTRY").length + 1)
  rw [setCountry, cstring]
  by_cases hzero : 0 ∈ cmd.drop ((ascii "COUNTRY").length + 1)
  · rw [if_pos hzero]
    refine ⟨fun _ => hzero, fun _ => ?_⟩
    dsimp only
    split <;> exact goes_done.mpr True.intro
  · rw [if_neg hzero]
    exact ⟨fun h => absurd h goes_error, fun h => absurd h hzero⟩

theorem numberCmd_iff {α : Type} (name : String) (parse : List Byte → Option (Except ℤ α))
    (failed : ℤ → ℤ) (fw : α → Firmware) (cmd : List Byte) :
    Goes ((numberCmd env name parse failed fw).should cmd)
        ((numberCmd env name parse failed fw).run cmd) ↔
      (numberCmd env name parse failed fw).fine cmd := by
  show Goes (fun _ => True) (number parse failed env fw cmd ((ascii name).length + 1)) ↔
    parse (cmd.drop ((ascii name).length + 1)) ≠ none
  rw [number]
  cases parse (cmd.drop ((ascii name).length + 1)) with
  | none => exact ⟨fun h => absurd h goes_error, fun h => absurd rfl h⟩
  | some r =>
    refine ⟨fun _ h => (by cases h), fun _ => ?_⟩
    cases r <;> exact goes_done.mpr True.intro

theorem knownCmd_iff (name : String) (cmd : List Byte) :
    Goes ((knownCmd name).should cmd) ((knownCmd name).run cmd) ↔ (knownCmd name).fine cmd :=
  ⟨fun _ => True.intro, fun _ => goes_done.mpr True.intro⟩

/-! ## Both functions -/

theorem privCommands_iff (cmd : List Byte) : ∀ c ∈ privCommands k env,
    Goes (c.should cmd) (c.run cmd) ↔ c.fine cmd := by
  intro c hc
  rw [privCommands, List.mem_append] at hc
  rcases hc with hc | hc
  · simp only [List.mem_cons, List.not_mem_nil, or_false] at hc
    rcases hc with rfl | rfl | rfl | rfl | rfl | rfl | rfl | rfl | rfl | rfl | rfl | rfl
    · exact blacklistCmd_iff _ _ cmd
    · exact blacklistCmd_iff _ _ cmd
    · exact whitelistCmd_iff _ _ cmd
    · exact whitelistCmd_iff _ _ cmd
    · exact whitelistModeCmd_iff _ _ cmd
    · exact whitelistModeCmd_iff _ _ cmd
    · exact get11vCfgCmd_iff cmd
    · exact set11vCfgCmd_iff cmd
    · exact wnmSleepCmd_iff cmd
    · exact countryCmd_iff cmd
    · exact numberCmd_iff _ _ _ _ cmd
    · exact numberCmd_iff _ _ _ _ cmd
  · split at hc
    · obtain ⟨name, -, rfl⟩ := List.mem_map.mp hc
      exact knownCmd_iff name cmd
    · cases hc

theorem powerSaveCommands_iff (cmd : List Byte) : ∀ c ∈ powerSaveCommands k env,
    Goes (c.should cmd) (c.run cmd) ↔ c.fine cmd := by
  intro c hc
  simp only [powerSaveCommands, List.mem_cons, List.not_mem_nil, or_false] at hc
  rcases hc with rfl | rfl
  · exact numberCmd_iff _ _ _ _ cmd
  · exact numberCmd_iff _ _ _ _ cmd

theorem unknown_iff (cmd : List Byte) :
    Goes (fun _ => True) (unknown env cmd) ↔ (env.logErr = true → 0 ∈ cmd) := by
  rw [unknown]
  by_cases hlog : env.logErr = true
  · rw [if_pos hlog, cstring]
    by_cases hzero : 0 ∈ cmd
    · rw [if_pos hzero]
      exact ⟨fun _ _ => hzero, fun _ => goes_done.mpr True.intro⟩
    · rw [if_neg hzero]
      exact ⟨fun h => absurd h goes_error, fun h => absurd (h hlog) hzero⟩
  · rw [if_neg hlog]
    exact ⟨fun _ h => absurd h hlog, fun _ => goes_done.mpr True.intro⟩

/-- The call reads and writes inside its buffers, frees them, and for the whitelist sends what is
parsed, exactly if the command that is copied is as it needs it. -/
theorem priv_cmd_iff (f : Function) (k : Kernel) (env : Env) (user : List Byte) (totalLen : ℤ) :
    (∃ o, f.call k env user totalLen = .ok o ∧ o.leaked = 0 ∧
      ∀ cmd, copyCommand env user totalLen = .ok cmd → Should cmd o.sent (f.commands k env)) ↔
    ∀ cmd, copyCommand env user totalLen = .ok cmd →
      Fine cmd (f.OtherFine env cmd) (f.commands k env) := by
  have hcall : f.call k env user totalLen = match copyCommand env user totalLen with
      | .error ret => done ret []
      | .ok cmd => dispatch cmd (f.other env cmd) (f.commands k env) := by
    cases f <;> rfl
  rw [hcall]
  cases copyCommand env user totalLen with
  | error ret =>
    exact ⟨fun _ cmd h => (by cases h), fun _ => ⟨_, rfl, rfl, fun cmd h => (by cases h)⟩⟩
  | ok cmd =>
    have hdispatch : Goes (fun sent => Should cmd sent (f.commands k env))
        (dispatch cmd (f.other env cmd) (f.commands k env)) ↔
          Fine cmd (f.OtherFine env cmd) (f.commands k env) := by
      cases f with
      | privCmd => exact dispatch_iff (unknown_iff cmd) (privCommands_iff cmd)
      | setPowerSave =>
        exact dispatch_iff ⟨fun _ => True.intro, fun _ => goes_done.mpr True.intro⟩
          (powerSaveCommands_iff cmd)
    constructor
    · rintro ⟨o, ho, hleaked, hshould⟩ cmd' hcmd
      obtain rfl := Except.ok.inj hcmd
      exact hdispatch.mp ⟨o, ho, hleaked, hshould cmd rfl⟩
    · intro hfine
      obtain ⟨o, ho, hleaked, hshould⟩ := hdispatch.mpr (hfine cmd rfl)
      refine ⟨o, ho, hleaked, fun cmd' hcmd => ?_⟩
      obtain rfl := Except.ok.inj hcmd
      exact hshould

/-- Parsers that find nothing. -/
def noKernel : Kernel :=
  ⟨fun _ => some [], fun _ => some (.error (-EINVAL)), fun _ => some (.error (-EINVAL))⟩

def noEnv : Env := ⟨false, false, false, 0, true, true, true, 0, fun _ _ => 0⟩

/-- A list of one address that is not there: the second buffer is not freed. -/
theorem malformed_address_leaks : ¬ ∃ o,
    Function.privCmd.call noKernel noEnv (ascii "WHITE_EN" ++ [0x20, 1, 0]) 11 = .ok o ∧ o.leaked = 0 ∧
      ∀ cmd, copyCommand noEnv (ascii "WHITE_EN" ++ [0x20, 1, 0]) 11 = .ok cmd →
        Should cmd o.sent (Function.privCmd.commands noKernel noEnv) := by
  rintro ⟨o, ho, hleaked, -⟩
  cases ho
  cases hleaked

end Uwe5631.PrivCmd
