import Uwe5631.FallibleRuns
import Uwe5631.IniParse
import Mathlib

/-!
# The text of the RF configuration

`wifi_nvm_buf_operate` takes the lines of a text. `get_cmd_par` finds the words and the numbers of
one, and `wifi_nvm_set_cmd` puts the numbers where the table says.
-/
namespace Uwe5631.RfConfig
open FallibleRuns
open IniParse (isEnd NUL)

abbrev Byte := BitVec 8
abbrev Token := List Char

/-! ## The table -/

/-- `struct nvm_name_table`, with the size of the field. -/
structure NvmName where
  itm : String
  memOffset : ℕ
  type : ℕ
  size : ℕ
  deriving DecidableEq, Repr

-- the offsets in `struct wifi_conf_t`
def VERSION : ℕ := 0
def BOARD_CONFIG : ℕ := VERSION + 4
def BOARD_CONFIG_TPC : ℕ := BOARD_CONFIG + 4
def TPC_LUT : ℕ := BOARD_CONFIG_TPC + 40
def BOARD_CONF_FREQ_COMP : ℕ := TPC_LUT + 64
def POWER_20M : ℕ := BOARD_CONF_FREQ_COMP + 80
def POWER_BACKOFF : ℕ := POWER_20M + 52
def REG_DOMAIN : ℕ := POWER_BACKOFF + 8
def BAND_EDGE_POWER_OFFSET : ℕ := REG_DOMAIN + 8
def TX_SCALE : ℕ := BAND_EDGE_POWER_OFFSET + 68
def MISC : ℕ := TX_SCALE + 1248
def DEBUG_REG : ℕ := MISC + 4
def COEX_CONFIG : ℕ := DEBUG_REG + 128
def RF_CONFIG : ℕ := COEX_CONFIG + 84

def gConfigTable : List NvmName :=
  [⟨"Major", VERSION, 2, 2⟩, ⟨"Minor", VERSION + 2, 2, 2⟩, ⟨"Calib_Bypass", BOARD_CONFIG, 2, 2⟩,
    ⟨"TxChain_Mask", BOARD_CONFIG + 2, 1, 1⟩, ⟨"RxChain_Mask", BOARD_CONFIG + 3, 1, 1⟩,
    ⟨"DPD_LUT_idx", BOARD_CONFIG_TPC, 1, 8⟩, ⟨"TPC_Goal_Chain0", BOARD_CONFIG_TPC + 8, 2, 16⟩,
    ⟨"TPC_Goal_Chain1", BOARD_CONFIG_TPC + 24, 2, 16⟩, ⟨"Chain0_LUT_0", TPC_LUT, 1, 4⟩,
    ⟨"Chain0_LUT_1", TPC_LUT + 4, 1, 4⟩, ⟨"Chain0_LUT_2", TPC_LUT + 8, 1, 4⟩,
    ⟨"Chain0_LUT_3", TPC_LUT + 12, 1, 4⟩, ⟨"Chain0_LUT_4", TPC_LUT + 16, 1, 4⟩,
    ⟨"Chain0_LUT_5", TPC_LUT + 20, 1, 4⟩, ⟨"Chain0_LUT_6", TPC_LUT + 24, 1, 4⟩,
    ⟨"Chain0_LUT_7", TPC_LUT + 28, 1, 4⟩, ⟨"Chain1_LUT_0", TPC_LUT + 32, 1, 4⟩,
    ⟨"Chain1_LUT_1", TPC_LUT + 36, 1, 4⟩, ⟨"Chain1_LUT_2", TPC_LUT + 40, 1, 4⟩,
    ⟨"Chain1_LUT_3", TPC_LUT + 44, 1, 4⟩, ⟨"Chain1_LUT_4", TPC_LUT + 48, 1, 4⟩,
    ⟨"Chain1_LUT_5", TPC_LUT + 52, 1, 4⟩, ⟨"Chain1_LUT_6", TPC_LUT + 56, 1, 4⟩,
    ⟨"Chain1_LUT_7", TPC_LUT + 60, 1, 4⟩, ⟨"2G_Channel_Chain0", BOARD_CONF_FREQ_COMP, 1, 14⟩,
    ⟨"2G_Channel_Chain1", BOARD_CONF_FREQ_COMP + 14, 1, 14⟩,
    ⟨"5G_Channel_Chain0", BOARD_CONF_FREQ_COMP + 28, 1, 25⟩,
    ⟨"5G_Channel_Chain1", BOARD_CONF_FREQ_COMP + 53, 1, 25⟩, ⟨"11b_Power", POWER_20M, 1, 4⟩,
    ⟨"11ag_Power", POWER_20M + 4, 1, 8⟩, ⟨"11n_Power", POWER_20M + 12, 1, 17⟩,
    ⟨"11ac_Power", POWER_20M + 29, 1, 20⟩, ⟨"Green_WIFI_offset", POWER_BACKOFF, 1, 1⟩,
    ⟨"HT40_Power_offset", POWER_BACKOFF + 1, 1, 1⟩,
    ⟨"VHT40_Power_offset", POWER_BACKOFF + 2, 1, 1⟩,
    ⟨"VHT80_Power_offset", POWER_BACKOFF + 3, 1, 1⟩, ⟨"SAR_Power_offset", POWER_BACKOFF + 4, 1, 1⟩,
    ⟨"Mean_Power_offset", POWER_BACKOFF + 5, 1, 1⟩, ⟨"TPC_mode", POWER_BACKOFF + 6, 1, 1⟩,
    ⟨"MAGIC_word", POWER_BACKOFF + 7, 1, 1⟩, ⟨"reg_domain1", REG_DOMAIN, 4, 4⟩,
    ⟨"reg_domain2", REG_DOMAIN + 4, 4, 4⟩, ⟨"BW20M", BAND_EDGE_POWER_OFFSET, 1, 39⟩,
    ⟨"BW40M", BAND_EDGE_POWER_OFFSET + 39, 1, 21⟩, ⟨"BW80M", BAND_EDGE_POWER_OFFSET + 60, 1, 6⟩,
    ⟨"Chain0_1", TX_SCALE + 16 * 0, 1, 16⟩, ⟨"Chain1_1", TX_SCALE + 624 + 16 * 0, 1, 16⟩,
    ⟨"Chain0_2", TX_SCALE + 16 * 1, 1, 16⟩, ⟨"Chain1_2", TX_SCALE + 624 + 16 * 1, 1, 16⟩,
    ⟨"Chain0_3", TX_SCALE + 16 * 2, 1, 16⟩, ⟨"Chain1_3", TX_SCALE + 624 + 16 * 2, 1, 16⟩,
    ⟨"Chain0_4", TX_SCALE + 16 * 3, 1, 16⟩, ⟨"Chain1_4", TX_SCALE + 624 + 16 * 3, 1, 16⟩,
    ⟨"Chain0_5", TX_SCALE + 16 * 4, 1, 16⟩, ⟨"Chain1_5", TX_SCALE + 624 + 16 * 4, 1, 16⟩,
    ⟨"Chain0_6", TX_SCALE + 16 * 5, 1, 16⟩, ⟨"Chain1_6", TX_SCALE + 624 + 16 * 5, 1, 16⟩,
    ⟨"Chain0_7", TX_SCALE + 16 * 6, 1, 16⟩, ⟨"Chain1_7", TX_SCALE + 624 + 16 * 6, 1, 16⟩,
    ⟨"Chain0_8", TX_SCALE + 16 * 7, 1, 16⟩, ⟨"Chain1_8", TX_SCALE + 624 + 16 * 7, 1, 16⟩,
    ⟨"Chain0_9", TX_SCALE + 16 * 8, 1, 16⟩, ⟨"Chain1_9", TX_SCALE + 624 + 16 * 8, 1, 16⟩,
    ⟨"Chain0_10", TX_SCALE + 16 * 9, 1, 16⟩, ⟨"Chain1_10", TX_SCALE + 624 + 16 * 9, 1, 16⟩,
    ⟨"Chain0_11", TX_SCALE + 16 * 10, 1, 16⟩, ⟨"Chain1_11", TX_SCALE + 624 + 16 * 10, 1, 16⟩,
    ⟨"Chain0_12", TX_SCALE + 16 * 11, 1, 16⟩, ⟨"Chain1_12", TX_SCALE + 624 + 16 * 11, 1, 16⟩,
    ⟨"Chain0_13", TX_SCALE + 16 * 12, 1, 16⟩, ⟨"Chain1_13", TX_SCALE + 624 + 16 * 12, 1, 16⟩,
    ⟨"Chain0_14", TX_SCALE + 16 * 13, 1, 16⟩, ⟨"Chain1_14", TX_SCALE + 624 + 16 * 13, 1, 16⟩,
    ⟨"Chain0_36", TX_SCALE + 16 * 14, 1, 16⟩, ⟨"Chain1_36", TX_SCALE + 624 + 16 * 14, 1, 16⟩,
    ⟨"Chain0_40", TX_SCALE + 16 * 15, 1, 16⟩, ⟨"Chain1_40", TX_SCALE + 624 + 16 * 15, 1, 16⟩,
    ⟨"Chain0_44", TX_SCALE + 16 * 16, 1, 16⟩, ⟨"Chain1_44", TX_SCALE + 624 + 16 * 16, 1, 16⟩,
    ⟨"Chain0_48", TX_SCALE + 16 * 17, 1, 16⟩, ⟨"Chain1_48", TX_SCALE + 624 + 16 * 17, 1, 16⟩,
    ⟨"Chain0_52", TX_SCALE + 16 * 18, 1, 16⟩, ⟨"Chain1_52", TX_SCALE + 624 + 16 * 18, 1, 16⟩,
    ⟨"Chain0_56", TX_SCALE + 16 * 19, 1, 16⟩, ⟨"Chain1_56", TX_SCALE + 624 + 16 * 19, 1, 16⟩,
    ⟨"Chain0_60", TX_SCALE + 16 * 20, 1, 16⟩, ⟨"Chain1_60", TX_SCALE + 624 + 16 * 20, 1, 16⟩,
    ⟨"Chain0_64", TX_SCALE + 16 * 21, 1, 16⟩, ⟨"Chain1_64", TX_SCALE + 624 + 16 * 21, 1, 16⟩,
    ⟨"Chain0_100", TX_SCALE + 16 * 22, 1, 16⟩, ⟨"Chain1_100", TX_SCALE + 624 + 16 * 22, 1, 16⟩,
    ⟨"Chain0_104", TX_SCALE + 16 * 23, 1, 16⟩, ⟨"Chain1_104", TX_SCALE + 624 + 16 * 23, 1, 16⟩,
    ⟨"Chain0_108", TX_SCALE + 16 * 24, 1, 16⟩, ⟨"Chain1_108", TX_SCALE + 624 + 16 * 24, 1, 16⟩,
    ⟨"Chain0_112", TX_SCALE + 16 * 25, 1, 16⟩, ⟨"Chain1_112", TX_SCALE + 624 + 16 * 25, 1, 16⟩,
    ⟨"Chain0_116", TX_SCALE + 16 * 26, 1, 16⟩, ⟨"Chain1_116", TX_SCALE + 624 + 16 * 26, 1, 16⟩,
    ⟨"Chain0_120", TX_SCALE + 16 * 27, 1, 16⟩, ⟨"Chain1_120", TX_SCALE + 624 + 16 * 27, 1, 16⟩,
    ⟨"Chain0_124", TX_SCALE + 16 * 28, 1, 16⟩, ⟨"Chain1_124", TX_SCALE + 624 + 16 * 28, 1, 16⟩,
    ⟨"Chain0_128", TX_SCALE + 16 * 29, 1, 16⟩, ⟨"Chain1_128", TX_SCALE + 624 + 16 * 29, 1, 16⟩,
    ⟨"Chain0_132", TX_SCALE + 16 * 30, 1, 16⟩, ⟨"Chain1_132", TX_SCALE + 624 + 16 * 30, 1, 16⟩,
    ⟨"Chain0_136", TX_SCALE + 16 * 31, 1, 16⟩, ⟨"Chain1_136", TX_SCALE + 624 + 16 * 31, 1, 16⟩,
    ⟨"Chain0_140", TX_SCALE + 16 * 32, 1, 16⟩, ⟨"Chain1_140", TX_SCALE + 624 + 16 * 32, 1, 16⟩,
    ⟨"Chain0_144", TX_SCALE + 16 * 33, 1, 16⟩, ⟨"Chain1_144", TX_SCALE + 624 + 16 * 33, 1, 16⟩,
    ⟨"Chain0_149", TX_SCALE + 16 * 34, 1, 16⟩, ⟨"Chain1_149", TX_SCALE + 624 + 16 * 34, 1, 16⟩,
    ⟨"Chain0_153", TX_SCALE + 16 * 35, 1, 16⟩, ⟨"Chain1_153", TX_SCALE + 624 + 16 * 35, 1, 16⟩,
    ⟨"Chain0_157", TX_SCALE + 16 * 36, 1, 16⟩, ⟨"Chain1_157", TX_SCALE + 624 + 16 * 36, 1, 16⟩,
    ⟨"Chain0_161", TX_SCALE + 16 * 37, 1, 16⟩, ⟨"Chain1_161", TX_SCALE + 624 + 16 * 37, 1, 16⟩,
    ⟨"Chain0_165", TX_SCALE + 16 * 38, 1, 16⟩, ⟨"Chain1_165", TX_SCALE + 624 + 16 * 38, 1, 16⟩,
    ⟨"DFS_switch", MISC, 1, 1⟩, ⟨"power_save_switch", MISC + 1, 1, 1⟩,
    ⟨"ex-Fem_and_ex-LNA_param_setup", MISC + 2, 1, 1⟩, ⟨"rssi_report_diff", MISC + 3, 1, 1⟩,
    ⟨"address", DEBUG_REG, 4, 64⟩, ⟨"value", DEBUG_REG + 64, 4, 64⟩,
    ⟨"bt_performance_cfg0", COEX_CONFIG, 4, 4⟩, ⟨"bt_performance_cfg1", COEX_CONFIG + 4, 4, 4⟩,
    ⟨"wifi_performance_cfg0", COEX_CONFIG + 8, 4, 4⟩,
    ⟨"wifi_performance_cfg2", COEX_CONFIG + 12, 4, 4⟩, ⟨"strategy_cfg0", COEX_CONFIG + 16, 4, 4⟩,
    ⟨"strategy_cfg1", COEX_CONFIG + 20, 4, 4⟩, ⟨"strategy_cfg2", COEX_CONFIG + 24, 4, 4⟩,
    ⟨"compatibility_cfg0", COEX_CONFIG + 28, 4, 4⟩, ⟨"compatibility_cfg1", COEX_CONFIG + 32, 4, 4⟩,
    ⟨"ant_cfg0", COEX_CONFIG + 36, 4, 4⟩, ⟨"ant_cfg1", COEX_CONFIG + 40, 4, 4⟩,
    ⟨"isolation_cfg0", COEX_CONFIG + 44, 4, 4⟩, ⟨"isolation_cfg1", COEX_CONFIG + 48, 4, 4⟩,
    ⟨"reserved_cfg0", COEX_CONFIG + 52, 4, 4⟩, ⟨"reserved_cfg1", COEX_CONFIG + 56, 4, 4⟩,
    ⟨"reserved_cfg2", COEX_CONFIG + 60, 4, 4⟩, ⟨"reserved_cfg3", COEX_CONFIG + 64, 4, 4⟩,
    ⟨"reserved_cfg4", COEX_CONFIG + 68, 4, 4⟩, ⟨"reserved_cfg5", COEX_CONFIG + 72, 4, 4⟩,
    ⟨"reserved_cfg6", COEX_CONFIG + 76, 4, 4⟩, ⟨"reserved_cfg7", COEX_CONFIG + 80, 4, 4⟩,
    ⟨"rf_config", RF_CONFIG + 4, 1, 1500⟩]

/-! ## The code -/

/-- A write or read outside of the text, of `tmp`, of `itm`, of `par` or of the field. -/
inductive Fault
  | text
  | token
  | item
  | value
  | field

def findType (key : Char) : ℕ :=
  if ('a' ≤ key ∧ key ≤ 'w') ∨ ('y' ≤ key ∧ key ≤ 'z') ∨ ('A' ≤ key ∧ key ≤ 'W') ∨
      ('Y' ≤ key ∧ key ≤ 'Z') ∨ key = '_' then 1
  else if ('0' ≤ key ∧ key ≤ '9') ∨ key = '-' then 2
  else if key = 'x' ∨ key = 'X' ∨ key = '.' then 3
  else if key = NUL ∨ key = '\r' ∨ key = '\n' ∨ key = '#' then 4
  else 0

/-- `struct nvm_cali_cmd`; `num` is the length of `par`. -/
structure Cmd where
  itm : Token
  par : List (BitVec 32)

/-- `bufType`, which is -1, 1 or 2. -/
inductive BufType
  | unset
  | word
  | number
  deriving DecidableEq, Repr

def BufType.next : BufType → ℕ → BufType
  | .unset, cType => if cType = 2 then .number else .word
  | .number, cType => if cType = 1 then .word else .number
  | .word, _ => .word

/-- The variables of `get_cmd_par`; `j` is the length of `tmp`. -/
structure Scan where
  tmp : Token
  bufType : BufType
  flag : Bool
  cmd : Cmd
  val : BitVec 64

def Scan.store (s : Scan) (c : Char) : Except Fault Scan :=
  if s.tmp.length < 128 then
    .ok { s with tmp := s.tmp ++ [c], bufType := s.bufType.next (findType c) }
  else .error .token

section Code
variable (kstrtol : Token → Option (BitVec 64))

/-- `val` behind `kstrtol`, which leaves it as it is if it fails. -/
def number (val : BitVec 64) (t : Token) : BitVec 64 := (kstrtol t).getD val

/-- What is done with a token behind its last character. -/
def Scan.flush (s : Scan) : Except Fault Scan :=
  if s.bufType = .unset then .ok s
  else if 128 ≤ s.tmp.length then .error .token
  else if s.bufType = .word ∧ s.flag = false then
    if 64 ≤ s.tmp.length then .error .item
    else
      .ok { s with tmp := [], bufType := .unset, flag := true, cmd := { s.cmd with itm := s.tmp } }
  else if 512 ≤ s.cmd.par.length then .error .value
  else
    .ok
      { s with
        tmp := []
        bufType := .unset
        val := number kstrtol s.val s.tmp
        cmd := { s.cmd with par := s.cmd.par ++ [(number kstrtol s.val s.tmp).setWidth 32] } }

/-- The loop of `get_cmd_par`, on the text from the line on. -/
def scanLine : List Char → Scan → Except Fault Cmd
  | [], _ => .error .text
  | c :: str, s =>
    if findType c = 1 ∨ findType c = 2 ∨ findType c = 3 then (s.store c).bind (scanLine str)
    else
      (s.flush kstrtol).bind fun s' =>
        if findType c = 4 then .ok s'.cmd else scanLine str s'

/-- Where `get_cmd_par` starts; `val` is not set then. -/
def Scan.start (val : BitVec 64) : Scan := ⟨[], .unset, false, ⟨[], []⟩, val⟩

def getCmdPar (val : BitVec 64) (str : List Char) : Except Fault Cmd :=
  scanLine kstrtol str (Scan.start val)

def cfTableMatch (itm : Token) : Option NvmName := gConfigTable.find? fun e => e.itm.toList == itm

/-- The bytes of a number that is written as one of 1, 2 or 4 bytes. -/
def bytes (type : ℕ) (v : BitVec 32) : List Byte :=
  (List.range type).map fun j => (v >>> (8 * j)).setWidth 8

/-- Memory with some bytes written from an address on. -/
def write (conf : ℕ → Byte) (a : ℕ) (bs : List Byte) (x : ℕ) : Byte :=
  if a ≤ x then (bs[x - a]?).getD (conf x) else conf x

/-- The loop of `wifi_nvm_set_cmd` from `i` on. -/
def setLoop (e : NvmName) : List (BitVec 32) → ℕ → (ℕ → Byte) → Except Fault (ℕ → Byte)
  | [], _, conf => .ok conf
  | v :: par, i, conf =>
    if e.size < (i + 1) * e.type then .error .field
    else setLoop e par (i + 1) (write conf (e.memOffset + i * e.type) (bytes e.type v))

/-- `wifi_nvm_set_cmd` -/
def setCmd (e : NvmName) (cmd : Cmd) (conf : ℕ → Byte) : Except Fault (ℕ → Byte) :=
  if e.type ≠ 1 ∧ e.type ≠ 2 ∧ e.type ≠ 4 then .ok conf else setLoop e cmd.par 0 conf

/-- What `wifi_nvm_buf_operate` does at the end of a line, on the text from the line on. -/
def operateLine (val : BitVec 64) (str : List Char) (conf : ℕ → Byte) : Except Fault (ℕ → Byte) :=
  (getCmdPar kstrtol val str).bind fun cmd =>
    match cfTableMatch cmd.itm with
    | none => .ok conf
    | some e =>
      (setCmd e cmd conf).map fun conf' =>
        if e.itm = "rf_config" then write conf' RF_CONFIG (bytes 4 (BitVec.ofNat 32 cmd.par.length))
        else conf'

/-- The loop of `wifi_nvm_buf_operate`: the text from `p` on, `i - p`, and the text from `i` on. -/
def operate (val : BitVec 64) :
    List Char → ℕ → List Char → (ℕ → Byte) → Except Fault (ℕ → Byte)
  | _, _, [], conf => .ok conf
  | str, n, c :: rest, conf =>
    if isEnd c then
      (if 5 ≤ n then operateLine kstrtol val str conf else .ok conf).bind
        (operate val rest 0 rest)
    else operate val str (n + 1) rest conf

def wifiNvmBufOperate (val : BitVec 64) (text : List Char) (conf : ℕ → Byte) :
    Except Fault (ℕ → Byte) :=
  operate kstrtol val text 0 text conf

/-! ## What a text says -/

/-- What a token is: a number if it begins with a digit or `-` and has no letter but `x`. -/
def kindOf (t : Token) : BufType := t.foldl (fun b c => b.next (findType c)) .unset

def isWord (t : Token) : Bool := kindOf t = .word

/-- What is between characters that belong to no token. -/
def pieces (content : List Char) : List Token := content.splitOnP fun c => findType c = 0

/-- The tokens of a line before its comment. -/
def tokens (line : List Char) : List Token :=
  (pieces (line.takeWhile fun c => c != '#')).filter fun t => t != []

def item (line : List Char) : Token := ((tokens line).find? isWord).getD []

/-- All tokens but the item. -/
def values (line : List Char) : List Token := (tokens line).eraseP isWord

/-- The numbers of tokens; one that is not a number is read as the one before it. -/
def numbers : BitVec 64 → List Token → List (BitVec 32)
  | _, [] => []
  | val, t :: ts => (number kstrtol val t).setWidth 32 :: numbers (number kstrtol val t) ts

/-- The lines of a text that have an end. -/
def endedLines (text : List Char) : List (List Char) := (text.splitOnP isEnd).dropLast

/-- What is behind the last end of a line. -/
def lastLine (text : List Char) : List Char := (text.splitOnP isEnd).getLastD []

/-- A line of a text that is well formed: nothing, or an item with numbers. -/
def WellFormed (line : List Char) : Prop :=
  ∀ t ts, tokens line = t :: ts → isWord t = true ∧ ∀ v ∈ ts, (kstrtol v).isSome

/-- The bytes that a line lists for a field. -/
def listing (e : NvmName) (line : List Char) : Option (List Byte) :=
  if cfTableMatch (item line) = some e then
    some (((values line).map fun v => (number kstrtol 0 v).setWidth 32).flatMap (bytes e.type))
  else none

/-- The field of every entry that a line names starts with what the last such line lists. -/
def Received (text : List Char) (conf : ℕ → Byte) : Prop :=
  ∀ e bs, ((text.splitOnP isEnd).filterMap (listing kstrtol e)).getLast? = some bs →
    bs.length ≤ e.size ∧ ∀ j (h : j < bs.length), conf (e.memOffset + j) = bs[j]

/-- What the lines leave in a field, from what they have left there before. -/
def held (e : NvmName) (old : List Byte) (lines : List (List Char)) : List Byte :=
  (lines.filterMap (listing kstrtol e)).foldl (fun old bs => bs ++ old.drop bs.length) old

end Code

/-- The tokens of a line have room, and its values have room in the field that it names. -/
structure Fits (line : List Char) : Prop where
  token : ∀ t ∈ tokens line, t.length < 128
  item : ∀ t, (tokens line).find? isWord = some t → t.length < 64
  values : (values line).length ≤ 512
  field : ∀ e, cfTableMatch (RfConfig.item line) = some e →
    (RfConfig.values line).length * e.type ≤ e.size

/-- Every line with an end has room, and what is behind the last end, if all is well formed, says
nothing that the lines have not said. -/
structure Covered (kstrtol : Token → Option (BitVec 64)) (text : List Char) : Prop where
  fits : ∀ line ∈ endedLines text, 5 ≤ line.length → Fits line
  last : (∀ line ∈ text.splitOnP isEnd, WellFormed kstrtol line) →
    ∀ e bs, listing kstrtol e (lastLine text) = some bs → bs <+: held kstrtol e [] (endedLines text)

/-! ## The tokens of a line -/

/-- The characters of tokens. -/
abbrev isTokenChar (c : Char) : Prop := findType c = 1 ∨ findType c = 2 ∨ findType c = 3

theorem findType_eq_four {c : Char} : findType c = 4 ↔ isEnd c = true ∨ c = '#' := by
  constructor
  · intro h
    rw [findType] at h
    split at h
    · cases h
    · split at h
      · cases h
      · split at h
        · cases h
        · split at h
          · rename_i hend
            simpa [isEnd, or_assoc] using hend
          · cases h
  · intro h
    have hcases : c = NUL ∨ c = '\r' ∨ c = '\n' ∨ c = '#' := by simpa [isEnd, or_assoc] using h
    rcases hcases with rfl | rfl | rfl | rfl <;> decide

theorem isTokenChar_of {c : Char} (h₀ : findType c ≠ 0) (h₄ : findType c ≠ 4) : isTokenChar c := by
  rw [isTokenChar]
  rw [findType] at h₀ h₄ ⊢
  split_ifs at * <;> simp_all

theorem kindOf_append (t : Token) (c : Char) :
    kindOf (t ++ [c]) = (kindOf t).next (findType c) := by
  rw [kindOf, List.foldl_append]
  rfl

theorem next_ne_unset (b : BufType) (cType : ℕ) : b.next cType ≠ .unset := by
  cases b with
  | unset =>
    rw [BufType.next]
    split <;> simp
  | word => simp [BufType.next]
  | number =>
    rw [BufType.next]
    split <;> simp

theorem kindOf_ne_unset {t : Token} (h : t ≠ []) : kindOf t ≠ .unset := by
  obtain ⟨t', c, rfl⟩ := (List.eq_nil_or_concat t).resolve_left h
  rw [List.concat_eq_append, kindOf_append]
  exact next_ne_unset _ _

section Scanning
variable {kstrtol : Token → Option (BitVec 64)}

/-- Between two tokens. -/
def Scan.Idle (s : Scan) : Prop := s.tmp = [] ∧ s.bufType = .unset

/-- What is done with a token as a whole. -/
def Scan.take (kstrtol : Token → Option (BitVec 64)) (s : Scan) (t : Token) : Except Fault Scan :=
  ({ s with tmp := t, bufType := kindOf t } : Scan).flush kstrtol

theorem take_nil {s : Scan} (h : s.Idle) : s.take kstrtol [] = .ok s := by
  obtain ⟨htmp, hbuf⟩ := h
  rw [Scan.take, Scan.flush, if_pos (show kindOf [] = .unset from rfl)]
  cases s
  cases htmp
  cases hbuf
  rfl

theorem take_idle {s s' : Scan} {t : Token} (h : s.Idle) (hs : s.take kstrtol t = .ok s') :
    s'.Idle := by
  by_cases hnil : t = []
  · rw [hnil, take_nil h] at hs
    cases hs
    exact h
  · rw [Scan.take, Scan.flush, if_neg (kindOf_ne_unset hnil)] at hs
    split at hs
    · cases hs
    · split at hs
      · split at hs
        · cases hs
        · cases hs
          exact ⟨rfl, rfl⟩
      · split at hs
        · cases hs
        · cases hs
          exact ⟨rfl, rfl⟩

/-- The characters of a token are collected as long as they have room. -/
theorem scanLine_run {w : Token} (hw : ∀ c ∈ w, isTokenChar c) (str : List Char) (s : Scan)
    (hkind : s.bufType = kindOf s.tmp) (hroom : s.tmp.length ≤ 128) :
    scanLine kstrtol (w ++ str) s =
      if s.tmp.length + w.length ≤ 128 then
        scanLine kstrtol str { s with tmp := s.tmp ++ w, bufType := kindOf (s.tmp ++ w) }
      else .error .token := by
  induction w generalizing s with
  | nil =>
    rw [if_pos (by simpa using hroom), List.append_nil, ← hkind]
    rfl
  | cons c w ih =>
    obtain ⟨hc, hw⟩ := List.forall_mem_cons.mp hw
    rw [List.cons_append, scanLine, if_pos hc, Scan.store]
    by_cases hlen : s.tmp.length < 128
    · rw [if_pos hlen, ok_bind, ih hw]
      · simp only [List.length_append, List.length_nil, List.length_cons, List.append_assoc,
          List.singleton_append, Nat.zero_add, Nat.add_assoc, Nat.add_comm 1]
      · dsimp only
        rw [hkind, kindOf_append]
      · simp only [List.length_append, List.length_singleton]
        omega
    · rw [if_neg hlen, if_neg (by rw [List.length_cons]; omega)]
      rfl

/-- A token, or nothing, and the character behind it. -/
theorem scanLine_piece {w : Token} (hw : ∀ c ∈ w, isTokenChar c) {c : Char} (hc : ¬ isTokenChar c)
    (str : List Char) {s : Scan} (hs : s.Idle) :
    scanLine kstrtol (w ++ c :: str) s =
      (s.take kstrtol w).bind fun s' =>
        if findType c = 4 then .ok s'.cmd else scanLine kstrtol str s' := by
  obtain ⟨htmp, hbuf⟩ := hs
  rw [scanLine_run hw _ s (by rw [hbuf, htmp]; rfl) (by rw [htmp]; decide), htmp, List.nil_append,
    List.length_nil, Nat.zero_add]
  by_cases hlen : w.length ≤ 128
  · rw [if_pos hlen, scanLine, if_neg hc]
    rfl
  · have hnil : w ≠ [] := by
      rintro rfl
      exact hlen (by decide)
    rw [if_neg hlen, Scan.take, Scan.flush, if_neg (kindOf_ne_unset hnil),
      if_pos (show 128 ≤ w.length by omega)]
    rfl

theorem piece_cases (content : List Char) :
    (∀ c ∈ content, findType c ≠ 0) ∨
      ∃ w b rest, content = w ++ b :: rest ∧ (∀ c ∈ w, findType c ≠ 0) ∧ findType b = 0 := by
  simpa using IniParse.cut_cases (fun c => decide (findType c = 0)) content

/-- The loop takes the pieces of what comes before the first character of type 4. -/
theorem scanLine_content {d : Char} (hd : findType d = 4) (rest : List Char) :
    ∀ (n : ℕ) {content : List Char}, content.length ≤ n → (∀ c ∈ content, findType c ≠ 4) →
      ∀ {s : Scan}, s.Idle → scanLine kstrtol (content ++ d :: rest) s =
        (run (Scan.take kstrtol) s (pieces content)).map Scan.cmd := by
  have hd' : ¬ isTokenChar d := by
    rw [isTokenChar, hd]
    decide
  intro n
  induction n with
  | zero =>
    intro content hlen _ s hs
    obtain rfl := List.eq_nil_of_length_eq_zero (Nat.le_zero.mp hlen)
    rw [scanLine_piece (by simp) hd' rest hs, take_nil hs, ok_bind, if_pos hd,
      show pieces [] = [[]] from rfl, run_cons_ok (take_nil hs)]
    rfl
  | succ n ih =>
    intro content hlen h₄ s hs
    rcases piece_cases content with hall | ⟨w, b, content', rfl, hw, hb⟩
    · rw [scanLine_piece (fun c hc => isTokenChar_of (hall c hc) (h₄ c hc)) hd' rest hs, pieces,
        List.splitOnP_eq_singleton (by simpa using hall), run_cons]
      cases s.take kstrtol content with
      | error f => rfl
      | ok s' => simp [hd]
    · have hb' : ¬ isTokenChar b := by
        rw [isTokenChar, hb]
        decide
      have hw' : ∀ c ∈ w, isTokenChar c := fun c hc =>
        isTokenChar_of (hw c hc) (h₄ c (List.mem_append_left _ hc))
      rw [List.append_assoc, List.cons_append, scanLine_piece hw' hb' _ hs, pieces,
        List.splitOnP_append_cons _ _ (by simpa using hb),
        List.splitOnP_eq_singleton (by simpa using hw), List.singleton_append, run_cons]
      cases htake : s.take kstrtol w with
      | error f => rfl
      | ok s' =>
        rw [ok_bind, ok_bind, if_neg (by rw [hb]; decide)]
        rw [List.length_append, List.length_cons] at hlen
        exact ih (by omega) (fun c hc => h₄ c (List.mem_append_right _ (List.mem_cons_of_mem _ hc)))
          (take_idle hs htake)

/-- Pieces that are empty do nothing. -/
theorem run_take_filter (ts : List Token) {s : Scan} (hs : s.Idle) :
    run (Scan.take kstrtol) s ts = run (Scan.take kstrtol) s (ts.filter fun t => t != []) := by
  induction ts generalizing s with
  | nil => rfl
  | cons t ts ih =>
    by_cases hnil : t = []
    · rw [hnil, run_cons_ok (take_nil hs), List.filter_cons_of_neg (by simp)]
      exact ih hs
    · rw [List.filter_cons_of_pos (by simpa using hnil), run_cons, run_cons]
      cases htake : s.take kstrtol t with
      | error f => rfl
      | ok s' => exact ih (take_idle hs htake)

/-- `get_cmd_par` on a line with its end takes the tokens of the line. -/
theorem getCmdPar_eq {line : List Char} (hline : ∀ c ∈ line, isEnd c = false) {e : Char}
    (he : isEnd e = true) (rest : List Char) (val : BitVec 64) :
    getCmdPar kstrtol val (line ++ e :: rest) =
      (run (Scan.take kstrtol) (Scan.start val) (tokens line)).map Scan.cmd := by
  have hidle : (Scan.start val).Idle := ⟨rfl, rfl⟩
  have hcontent : ∀ c ∈ line.takeWhile (fun c => c != '#'), findType c ≠ 4 := by
    intro c hc h
    have hmem := hline c (List.takeWhile_subset _ hc)
    rcases findType_eq_four.mp h with hend | rfl
    · rw [hmem] at hend
      cases hend
    · simpa using List.mem_takeWhile_imp hc
  have hstop : ∃ d rest', line ++ e :: rest = line.takeWhile (fun c => c != '#') ++ d :: rest' ∧
      findType d = 4 := by
    cases hdrop : line.dropWhile (fun c => c != '#') with
    | nil =>
      refine ⟨e, rest, ?_, findType_eq_four.mpr (Or.inl he)⟩
      nth_rewrite 1 [← List.takeWhile_append_dropWhile (p := fun c => c != '#') (l := line)]
      rw [hdrop, List.append_nil]
    | cons d tail =>
      have hd := List.head?_dropWhile_not (fun c => c != '#') line
      rw [hdrop] at hd
      refine ⟨d, tail ++ e :: rest, ?_, findType_eq_four.mpr (Or.inr (by simpa using hd))⟩
      nth_rewrite 1 [← List.takeWhile_append_dropWhile (p := fun c => c != '#') (l := line)]
      rw [hdrop, List.append_assoc, List.cons_append]
  obtain ⟨d, rest', heq, hd⟩ := hstop
  rw [getCmdPar, heq, scanLine_content hd rest' _ (Nat.le_refl _) hcontent hidle,
    run_take_filter _ hidle]
  rfl

/-! ## The room for the tokens -/

/-- The tokens that become numbers. -/
def numerals (flag : Bool) (ts : List Token) : List Token := if flag then ts else ts.eraseP isWord

def itemOf (s : Scan) (ts : List Token) : Token :=
  if s.flag then s.cmd.itm else (ts.find? isWord).getD s.cmd.itm

/-- The tokens have room behind those before. -/
structure Room (s : Scan) (ts : List Token) : Prop where
  token : ∀ t ∈ ts, t.length < 128
  item : s.flag = false → ∀ t, ts.find? isWord = some t → t.length < 64
  value : s.cmd.par.length + (numerals s.flag ts).length ≤ 512

/-- Behind the item. -/
def Scan.named (s : Scan) (t : Token) : Scan :=
  { s with tmp := [], bufType := .unset, flag := true, cmd := { s.cmd with itm := t } }

/-- Behind a number. -/
def Scan.counted (kstrtol : Token → Option (BitVec 64)) (s : Scan) (t : Token) : Scan :=
  { s with
    tmp := []
    bufType := .unset
    val := number kstrtol s.val t
    cmd := { s.cmd with par := s.cmd.par ++ [(number kstrtol s.val t).setWidth 32] } }

theorem take_long {s : Scan} {t : Token} (hnil : t ≠ []) (h : 128 ≤ t.length) :
    s.take kstrtol t = .error .token := by
  rw [Scan.take, Scan.flush, if_neg (kindOf_ne_unset hnil), if_pos h]

variable (kstrtol) in
theorem take_item {s : Scan} {t : Token} (hnil : t ≠ []) (h : t.length < 128)
    (hword : isWord t = true) (hflag : s.flag = false) :
    s.take kstrtol t = if 64 ≤ t.length then .error .item else .ok (s.named t) := by
  rw [Scan.take, Scan.flush, if_neg (kindOf_ne_unset hnil), if_neg (show ¬ 128 ≤ t.length by omega),
    if_pos ⟨of_decide_eq_true hword, hflag⟩]
  rfl

variable (kstrtol) in
theorem take_value {s : Scan} {t : Token} (hnil : t ≠ []) (h : t.length < 128)
    (hvalue : ¬ (isWord t = true ∧ s.flag = false)) :
    s.take kstrtol t =
      if 512 ≤ s.cmd.par.length then .error .value else .ok (s.counted kstrtol t) := by
  rw [Scan.take, Scan.flush, if_neg (kindOf_ne_unset hnil), if_neg (show ¬ 128 ≤ t.length by omega),
    if_neg fun h => hvalue ⟨decide_eq_true h.1, h.2⟩]
  rfl

theorem numerals_item {ts : List Token} {t : Token} (h : isWord t = true) :
    numerals false (t :: ts) = ts := List.eraseP_cons_of_pos h

theorem numerals_value {flag : Bool} {ts : List Token} {t : Token}
    (h : ¬ (isWord t = true ∧ flag = false)) :
    numerals flag (t :: ts) = t :: numerals flag ts := by
  cases flag with
  | true => rfl
  | false => exact List.eraseP_cons_of_neg fun hword => h ⟨hword, rfl⟩

theorem find_value {flag : Bool} {ts : List Token} {t : Token}
    (h : ¬ (isWord t = true ∧ flag = false)) (hflag : flag = false) :
    (t :: ts).find? isWord = ts.find? isWord :=
  List.find?_cons_of_neg fun hword => h ⟨hword, hflag⟩

theorem room_item {s : Scan} {ts : List Token} {t : Token} (hword : isWord t = true)
    (hflag : s.flag = false) :
    Room s (t :: ts) ↔ t.length < 128 ∧ t.length < 64 ∧ Room (s.named t) ts := by
  have hfind : (t :: ts).find? isWord = some t := List.find?_cons_of_pos hword
  constructor
  · rintro ⟨htoken, hitem, hvalue⟩
    rw [hflag, numerals_item hword] at hvalue
    exact ⟨htoken t List.mem_cons_self, hitem hflag t hfind,
      fun u hu => htoken u (List.mem_cons_of_mem _ hu), fun h => (by cases h), hvalue⟩
  · rintro ⟨hlen, hlen', htoken, -, hvalue⟩
    refine ⟨List.forall_mem_cons.mpr ⟨hlen, htoken⟩, fun _ u hu => ?_, ?_⟩
    · rw [hfind] at hu
      cases hu
      exact hlen'
    · rw [hflag, numerals_item hword]
      exact hvalue

variable (kstrtol) in
theorem room_value {s : Scan} {ts : List Token} {t : Token}
    (h : ¬ (isWord t = true ∧ s.flag = false)) :
    Room s (t :: ts) ↔ t.length < 128 ∧ s.cmd.par.length < 512 ∧ Room (s.counted kstrtol t) ts := by
  have hlength : (s.counted kstrtol t).cmd.par.length = s.cmd.par.length + 1 := List.length_append
  constructor
  · rintro ⟨htoken, hitem, hvalue⟩
    rw [numerals_value h, List.length_cons] at hvalue
    refine ⟨htoken t List.mem_cons_self, by omega, fun u hu => htoken u (List.mem_cons_of_mem _ hu),
      fun hflag u hu => hitem hflag u ?_, ?_⟩
    · rw [find_value h hflag]
      exact hu
    · rw [hlength]
      change s.cmd.par.length + 1 + (numerals s.flag ts).length ≤ 512
      omega
  · rintro ⟨hlen, hroom, htoken, hitem, hvalue⟩
    rw [hlength] at hvalue
    change s.cmd.par.length + 1 + (numerals s.flag ts).length ≤ 512 at hvalue
    refine ⟨List.forall_mem_cons.mpr ⟨hlen, htoken⟩, fun hflag u hu => hitem hflag u ?_, ?_⟩
    · rw [← find_value h hflag]
      exact hu
    · rw [numerals_value h, List.length_cons]
      omega

variable (kstrtol) in
/-- Tokens with room give their item and their numbers. -/
theorem run_take_ok (ts : List Token) (hne : ∀ t ∈ ts, t ≠ []) {s : Scan} (h : Room s ts) :
    ∃ s', run (Scan.take kstrtol) s ts = .ok s' ∧
      s'.cmd = ⟨itemOf s ts, s.cmd.par ++ numbers kstrtol s.val (numerals s.flag ts)⟩ := by
  induction ts generalizing s with
  | nil =>
    refine ⟨s, rfl, ?_⟩
    have hnil : numerals s.flag [] = [] := by cases s.flag <;> rfl
    have hitem : itemOf s [] = s.cmd.itm := ite_self _
    rw [hnil, hitem, numbers, List.append_nil]
  | cons t ts ih =>
    obtain ⟨hnil, hne⟩ := List.forall_mem_cons.mp hne
    by_cases hword : isWord t = true ∧ s.flag = false
    · obtain ⟨hlen, hlen', hrest⟩ := (room_item hword.1 hword.2).mp h
      have htake := take_item kstrtol hnil hlen hword.1 hword.2
      rw [if_neg (by omega)] at htake
      obtain ⟨s', hs', hcmd⟩ := ih hne hrest
      refine ⟨s', by rw [run_cons_ok htake, hs'], hcmd.trans ?_⟩
      have hitem : itemOf s (t :: ts) = t := by
        rw [itemOf, hword.2, List.find?_cons_of_pos hword.1]
        rfl
      rw [hitem, hword.2, numerals_item hword.1]
      rfl
    · obtain ⟨hlen, hroom, hrest⟩ := (room_value kstrtol hword).mp h
      have htake := take_value kstrtol hnil hlen hword
      rw [if_neg (by omega)] at htake
      obtain ⟨s', hs', hcmd⟩ := ih hne hrest
      refine ⟨s', by rw [run_cons_ok htake, hs'], hcmd.trans ?_⟩
      have hitem : itemOf (s.counted kstrtol t) ts = itemOf s (t :: ts) := by
        rw [itemOf, itemOf]
        change (if s.flag = true then _ else _) = _
        split
        · rfl
        · rename_i hflag
          rw [find_value hword (Bool.eq_false_iff.mpr hflag)]
          rfl
      rw [hitem, numerals_value hword, numbers]
      change Cmd.mk _ (s.cmd.par ++ [_] ++ numbers kstrtol _ (numerals s.flag ts)) = _
      rw [List.append_assoc]
      rfl

variable (kstrtol) in
theorem run_take_error (ts : List Token) (hne : ∀ t ∈ ts, t ≠ []) {s : Scan} (h : ¬ Room s ts)
    (hpar : s.cmd.par.length ≤ 512) : ∃ f, run (Scan.take kstrtol) s ts = .error f := by
  induction ts generalizing s with
  | nil =>
    have hnil : numerals s.flag [] = [] := by cases s.flag <;> rfl
    refine absurd ⟨by simp, fun _ t ht => (by cases ht), ?_⟩ h
    rw [hnil]
    exact hpar
  | cons t ts ih =>
    obtain ⟨hnil, hne⟩ := List.forall_mem_cons.mp hne
    by_cases hlen : t.length < 128
    · by_cases hword : isWord t = true ∧ s.flag = false
      · have htake := take_item kstrtol hnil hlen hword.1 hword.2
        by_cases hlen' : t.length < 64
        · rw [if_neg (by omega)] at htake
          rw [run_cons_ok htake]
          exact ih hne (fun hrest => h ((room_item hword.1 hword.2).mpr ⟨hlen, hlen', hrest⟩)) hpar
        · rw [if_pos (by omega)] at htake
          exact ⟨.item, by rw [run_cons, htake]; rfl⟩
      · have htake := take_value kstrtol hnil hlen hword
        by_cases hroom : s.cmd.par.length < 512
        · rw [if_neg (by omega)] at htake
          rw [run_cons_ok htake]
          refine ih hne (fun hrest => h ((room_value kstrtol hword).mpr ⟨hlen, hroom, hrest⟩)) ?_
          change (s.cmd.par ++ [_]).length ≤ 512
          rw [List.length_append, List.length_singleton]
          omega
        · rw [if_pos (by omega)] at htake
          exact ⟨.value, by rw [run_cons, htake]; rfl⟩
    · exact ⟨.token, by rw [run_cons, take_long hnil (by omega)]; rfl⟩

theorem tokens_ne_nil (line : List Char) : ∀ t ∈ tokens line, t ≠ [] := by
  intro t ht
  simpa using (List.mem_filter.mp ht).2

/-! ## The fields -/

theorem length_bytes (type : ℕ) (v : BitVec 32) : (bytes type v).length = type := by simp [bytes]

theorem length_flatMap_bytes (type : ℕ) (vs : List (BitVec 32)) :
    (vs.flatMap (bytes type)).length = vs.length * type := by
  induction vs with
  | nil => simp
  | cons v vs ih =>
    rw [List.flatMap_cons, List.length_append, length_bytes, ih, List.length_cons, Nat.succ_mul,
      Nat.add_comm]

theorem write_nil (conf : ℕ → Byte) (a : ℕ) : write conf a [] = conf := by
  funext x
  rw [write]
  split <;> rfl

theorem write_append (conf : ℕ → Byte) (a : ℕ) (bs bs' : List Byte) :
    write (write conf a bs) (a + bs.length) bs' = write conf a (bs ++ bs') := by
  funext x
  rw [write, write, write]
  by_cases ha : a ≤ x
  · rw [if_pos ha, if_pos ha]
    by_cases hx : a + bs.length ≤ x
    · have hbehind : bs[x - a]? = none := List.getElem?_eq_none (by omega)
      rw [if_pos hx, List.getElem?_append_right (by omega), hbehind, Nat.sub_sub]
      rfl
    · rw [if_neg hx, List.getElem?_append_left (by omega)]
  · rw [if_neg ha, if_neg ha, if_neg (by omega)]

theorem write_outside (conf : ℕ → Byte) {a x : ℕ} {bs : List Byte} (h : x < a ∨ a + bs.length ≤ x) :
    write conf a bs x = conf x := by
  rw [write]
  split
  · rw [List.getElem?_eq_none (by omega)]
    rfl
  · rfl

/-- The loop writes the numbers one behind the other if they have room. -/
theorem setLoop_eq (e : NvmName) (vs : List (BitVec 32)) (i : ℕ) (conf : ℕ → Byte)
    (hi : i * e.type ≤ e.size) :
    setLoop e vs i conf =
      if (i + vs.length) * e.type ≤ e.size then
        .ok (write conf (e.memOffset + i * e.type) (vs.flatMap (bytes e.type)))
      else .error .field := by
  induction vs generalizing i conf with
  | nil =>
    rw [setLoop, List.length_nil, Nat.add_zero, if_pos hi, List.flatMap_nil, write_nil]
  | cons v vs ih =>
    rw [setLoop]
    by_cases hroom : e.size < (i + 1) * e.type
    · have hle : (i + 1) * e.type ≤ (i + (v :: vs).length) * e.type :=
        Nat.mul_le_mul_right _ (by rw [List.length_cons]; omega)
      rw [if_pos hroom, if_neg (by omega)]
    · rw [if_neg hroom, ih _ _ (by omega), List.length_cons, List.flatMap_cons,
        show i + 1 + vs.length = i + (vs.length + 1) by omega, ← write_append, length_bytes,
        Nat.add_assoc e.memOffset, Nat.succ_mul]

def NvmName.Apart (e e' : NvmName) : Prop :=
  e.memOffset + e.size ≤ e'.memOffset ∨ e'.memOffset + e'.size ≤ e.memOffset

instance (e e' : NvmName) : Decidable (e.Apart e') := inferInstanceAs (Decidable (_ ∨ _))

/-- What the table keeps to in every row, and its fields apart. -/
theorem gConfigTable_keeps :
    (∀ e ∈ gConfigTable, (e.type = 1 ∨ e.type = 2 ∨ e.type = 4) ∧ 5 ≤ e.itm.toList.length ∧
      (e.memOffset + e.size ≤ RF_CONFIG ∨ RF_CONFIG + 4 ≤ e.memOffset)) ∧
    gConfigTable.Pairwise NvmName.Apart := by
  decide +kernel

theorem type_of_match {itm : Token} {e : NvmName} (h : cfTableMatch itm = some e) :
    e.type = 1 ∨ e.type = 2 ∨ e.type = 4 :=
  (gConfigTable_keeps.1 e (List.mem_of_find?_eq_some h)).1

theorem length_of_match {itm : Token} {e : NvmName} (h : cfTableMatch itm = some e) :
    5 ≤ itm.length := by
  have hitm : e.itm.toList = itm := by simpa using List.find?_some h
  rw [← hitm]
  exact (gConfigTable_keeps.1 e (List.mem_of_find?_eq_some h)).2.1

/-- The fields of the table lie apart. -/
theorem apart_of_match {itm itm' : Token} {e e' : NvmName} (h : cfTableMatch itm = some e)
    (h' : cfTableMatch itm' = some e') (hne : e ≠ e') : e.Apart e' := by
  have : Std.Symm NvmName.Apart := ⟨fun _ _ => Or.symm⟩
  exact gConfigTable_keeps.2.forall (List.mem_of_find?_eq_some h) (List.mem_of_find?_eq_some h') hne

/-- `rf_data_len` is in no field of the table. -/
theorem behind_rf_data_len {itm : Token} {e : NvmName} (h : cfTableMatch itm = some e) :
    e.memOffset + e.size ≤ RF_CONFIG ∨ RF_CONFIG + 4 ≤ e.memOffset :=
  (gConfigTable_keeps.1 e (List.mem_of_find?_eq_some h)).2.2

/-! ## The lines of a text -/

/-- What a line with room leaves in memory. -/
def assign (kstrtol : Token → Option (BitVec 64)) (val : BitVec 64) (conf : ℕ → Byte)
    (line : List Char) : ℕ → Byte :=
  match cfTableMatch (item line) with
  | none => conf
  | some e =>
    let conf' := write conf e.memOffset ((numbers kstrtol val (values line)).flatMap (bytes e.type))
    if e.itm = "rf_config" then
      write conf' RF_CONFIG (bytes 4 (BitVec.ofNat 32 (numbers kstrtol val (values line)).length))
    else conf'

theorem length_numbers (val : BitVec 64) (ts : List Token) :
    (numbers kstrtol val ts).length = ts.length := by
  induction ts generalizing val with
  | nil => rfl
  | cons t ts ih => rw [numbers, List.length_cons, List.length_cons, ih]

variable (kstrtol) in
theorem operateLine_eq {line : List Char} (hline : ∀ c ∈ line, isEnd c = false) {e : Char}
    (he : isEnd e = true) (rest : List Char) (val : BitVec 64) (conf : ℕ → Byte) :
    (Fits line → operateLine kstrtol val (line ++ e :: rest) conf =
        .ok (assign kstrtol val conf line)) ∧
      (¬ Fits line → ∃ f, operateLine kstrtol val (line ++ e :: rest) conf = .error f) := by
  have hroom : Room (Scan.start val) (tokens line) ↔
      (∀ t ∈ tokens line, t.length < 128) ∧
        (∀ t, (tokens line).find? isWord = some t → t.length < 64) ∧ (values line).length ≤ 512 := by
    constructor
    · rintro ⟨htoken, hitem, hvalue⟩
      exact ⟨htoken, hitem rfl, (Nat.zero_add _).symm.trans_le hvalue⟩
    · rintro ⟨htoken, hitem, hvalue⟩
      exact ⟨htoken, fun _ => hitem, (Nat.zero_add _).trans_le hvalue⟩
  rw [operateLine, getCmdPar_eq hline he]
  by_cases hr : Room (Scan.start val) (tokens line)
  · obtain ⟨htoken, hitem, hvalue⟩ := hroom.mp hr
    obtain ⟨s', hs', hcmd⟩ := run_take_ok kstrtol _ (tokens_ne_nil line) hr
    have hcmd' : s'.cmd = ⟨item line, numbers kstrtol val (values line)⟩ := hcmd
    rw [hs', ok_map, ok_bind, hcmd', assign]
    dsimp only
    cases hmatch : cfTableMatch (item line) with
    | none =>
      exact ⟨fun _ => rfl, fun h => absurd ⟨htoken, hitem, hvalue, fun e he => by
        rw [hmatch] at he
        cases he⟩ h⟩
    | some n =>
      have htype := type_of_match hmatch
      have hset := setLoop_eq n (numbers kstrtol val (values line)) 0 conf (by omega)
      rw [Nat.zero_add, Nat.zero_mul, Nat.add_zero, length_numbers] at hset
      dsimp only
      rw [setCmd, if_neg (by omega), hset]
      constructor
      · intro h
        rw [if_pos (h.field n hmatch), ok_map]
      · intro h
        have hfield : ¬ (values line).length * n.type ≤ n.size := fun hf =>
          h ⟨htoken, hitem, hvalue, fun e he => by
            rw [hmatch] at he
            cases he
            exact hf⟩
        rw [if_neg hfield]
        exact ⟨_, rfl⟩
  · obtain ⟨f, hf⟩ := run_take_error kstrtol _ (tokens_ne_nil line) hr
      (show 0 ≤ 512 by decide)
    rw [hf]
    exact ⟨fun h => absurd (hroom.mpr ⟨h.token, h.item, h.values⟩) hr, fun _ => ⟨f, rfl⟩⟩

theorem length_pieces (content : List Char) : ∀ t ∈ pieces content, t.length ≤ content.length := by
  have hall : ∀ (n : ℕ) (content : List Char), content.length ≤ n →
      ∀ t ∈ pieces content, t.length ≤ content.length := by
    intro n
    induction n with
    | zero =>
      intro content hlen t ht
      obtain rfl := List.eq_nil_of_length_eq_zero (Nat.le_zero.mp hlen)
      obtain rfl := List.mem_singleton.mp ht
      exact Nat.le_refl _
    | succ n ih =>
      intro content hlen t ht
      rcases piece_cases content with hall | ⟨w, b, content', rfl, hw, hb⟩
      · rw [pieces, List.splitOnP_eq_singleton (by simpa using hall)] at ht
        rw [List.mem_singleton.mp ht]
      · rw [pieces, List.splitOnP_append_cons _ _ (by simpa using hb),
          List.splitOnP_eq_singleton (by simpa using hw), List.singleton_append] at ht
        rw [List.length_append, List.length_cons] at hlen ⊢
        rcases List.mem_cons.mp ht with rfl | ht
        · omega
        · have hle := ih content' (by omega) t ht
          omega
  exact hall _ content (Nat.le_refl _)

/-- A line of fewer than five characters names no field. -/
theorem match_short {line : List Char} (h : line.length < 5) : cfTableMatch (item line) = none := by
  by_contra hsome
  obtain ⟨e, he⟩ := Option.ne_none_iff_exists'.mp hsome
  have hlen := length_of_match he
  rw [item] at hlen
  cases hfind : (tokens line).find? isWord with
  | none =>
    rw [hfind] at hlen
    exact absurd hlen (by decide)
  | some t =>
    rw [hfind, Option.getD_some] at hlen
    have hmem := List.mem_of_mem_filter (List.mem_of_find?_eq_some hfind)
    have hle := length_pieces _ t hmem
    have htake := (List.takeWhile_sublist (fun c => c != '#') (l := line)).length_le
    omega

/-- The loop up to the end of a line. -/
theorem operate_line {line : List Char} (hline : ∀ c ∈ line, isEnd c = false) {e : Char}
    (he : isEnd e = true) (rest str : List Char) (n : ℕ) (val : BitVec 64) (conf : ℕ → Byte) :
    operate kstrtol val str n (line ++ e :: rest) conf =
      (if 5 ≤ n + line.length then operateLine kstrtol val str conf else .ok conf).bind
        (operate kstrtol val rest 0 rest) := by
  induction line generalizing n with
  | nil => rw [List.nil_append, operate, if_pos he, List.length_nil, Nat.add_zero]
  | cons c line ih =>
    obtain ⟨hc, hline⟩ := List.forall_mem_cons.mp hline
    rw [List.cons_append, operate, hc, if_neg Bool.false_ne_true, ih hline, List.length_cons,
      show n + 1 + line.length = n + (line.length + 1) by omega]

theorem operate_unended {line : List Char} (hline : ∀ c ∈ line, isEnd c = false) (str : List Char)
    (n : ℕ) (val : BitVec 64) (conf : ℕ → Byte) :
    operate kstrtol val str n line conf = .ok conf := by
  induction line generalizing n with
  | nil => rfl
  | cons c line ih =>
    obtain ⟨hc, hline⟩ := List.forall_mem_cons.mp hline
    rw [operate, hc, if_neg Bool.false_ne_true]
    exact ih hline _

theorem split_line {line : List Char} (hline : ∀ c ∈ line, isEnd c = false) {e : Char}
    (he : isEnd e = true) (rest : List Char) :
    endedLines (line ++ e :: rest) = line :: endedLines rest := by
  rw [endedLines, List.splitOnP_append_cons _ _ he, List.splitOnP_eq_singleton hline,
    List.singleton_append, List.dropLast_cons_of_ne_nil (List.splitOnP_ne_nil _ _)]
  rfl

theorem split_text (text : List Char) : text.splitOnP isEnd = endedLines text ++ [lastLine text] := by
  rw [endedLines, lastLine, List.getLastD_eq_getLast?,
    List.getLast?_eq_some_getLast (List.splitOnP_ne_nil _ _)]
  exact (List.dropLast_append_getLast (List.splitOnP_ne_nil isEnd text)).symm

variable (kstrtol) in
/-- A text goes through exactly if its lines with ends have room, and then each is assigned. -/
theorem operate_text (val : BitVec 64) :
    ∀ (n : ℕ) (text : List Char), text.length ≤ n → ∀ conf : ℕ → Byte,
      ((∀ line ∈ endedLines text, 5 ≤ line.length → Fits line) →
        wifiNvmBufOperate kstrtol val text conf =
          .ok ((endedLines text).foldl (assign kstrtol val) conf)) ∧
      (¬ (∀ line ∈ endedLines text, 5 ≤ line.length → Fits line) →
        ∃ f, wifiNvmBufOperate kstrtol val text conf = .error f) := by
  intro n
  induction n with
  | zero =>
    intro text hlen conf
    obtain rfl := List.eq_nil_of_length_eq_zero (Nat.le_zero.mp hlen)
    exact ⟨fun _ => rfl, fun h => absurd (fun line hline => (by cases hline)) h⟩
  | succ n ih =>
    intro text hlen conf
    rcases IniParse.cut_cases isEnd text with hall | ⟨line, e, rest, rfl, hline, he⟩
    · rw [wifiNvmBufOperate, operate_unended hall, endedLines, List.splitOnP_eq_singleton hall]
      exact ⟨fun _ => rfl, fun h => absurd (fun line hline => (by cases hline)) h⟩
    · rw [List.length_append, List.length_cons] at hlen
      rw [wifiNvmBufOperate, operate_line hline he, split_line hline he, List.forall_mem_cons,
        List.foldl_cons, Nat.zero_add]
      by_cases hlong : 5 ≤ line.length
      · rw [if_pos hlong]
        obtain ⟨hfits, hfault⟩ := operateLine_eq kstrtol hline he rest val conf
        by_cases h : Fits line
        · rw [hfits h, ok_bind]
          obtain ⟨hok, herror⟩ := ih rest (by omega) (assign kstrtol val conf line)
          exact ⟨fun hall => hok hall.2, fun hnot => herror fun hrest => hnot ⟨fun _ => h, hrest⟩⟩
        · obtain ⟨f, hf⟩ := hfault h
          rw [hf]
          exact ⟨fun hall => absurd (hall.1 hlong) h, fun _ => ⟨f, rfl⟩⟩
      · have hassign : assign kstrtol val conf line = conf := by
          rw [assign, match_short (by omega)]
        rw [if_neg hlong, ok_bind, hassign]
        obtain ⟨hok, herror⟩ := ih rest (by omega) conf
        exact ⟨fun hall => hok hall.2,
          fun hnot => herror fun hrest => hnot ⟨fun h => absurd h hlong, hrest⟩⟩

/-! ## What the fields receive -/

theorem numbers_eq_map {ts : List Token} (h : ∀ t ∈ ts, (kstrtol t).isSome) (val : BitVec 64) :
    numbers kstrtol val ts = ts.map fun t => (number kstrtol 0 t).setWidth 32 := by
  induction ts generalizing val with
  | nil => rfl
  | cons t ts ih =>
    obtain ⟨ht, hts⟩ := List.forall_mem_cons.mp h
    obtain ⟨v, hv⟩ := Option.isSome_iff_exists.mp ht
    rw [numbers, List.map_cons, ih hts, number, number, hv]
    rfl

theorem WellFormed.numbers_eq {line : List Char} (h : WellFormed kstrtol line) (val : BitVec 64) :
    numbers kstrtol val (values line) =
      (values line).map fun t => (number kstrtol 0 t).setWidth 32 := by
  apply numbers_eq_map
  rw [values]
  cases htokens : tokens line with
  | nil => simp
  | cons t ts =>
    obtain ⟨hword, hnumbers⟩ := h t ts htokens
    rw [List.eraseP_cons_of_pos hword]
    exact hnumbers

theorem match_of_listing {e : NvmName} {line : List Char} {bs : List Byte}
    (h : listing kstrtol e line = some bs) : cfTableMatch (item line) = some e := by
  rw [listing] at h
  split at h
  · assumption
  · cases h

theorem length_listing {e : NvmName} {line : List Char} {bs : List Byte}
    (h : listing kstrtol e line = some bs) : bs.length = (values line).length * e.type := by
  rw [listing, if_pos (match_of_listing h)] at h
  rw [← Option.some.inj h, length_flatMap_bytes, List.length_map]

/-- What a line lists has room in the field. -/
theorem listing_le {e : NvmName} {line : List Char} {bs : List Byte}
    (hfits : 5 ≤ line.length → Fits line) (h : listing kstrtol e line = some bs) :
    bs.length ≤ e.size := by
  have hmatch := match_of_listing h
  rw [length_listing h]
  by_cases hlong : 5 ≤ line.length
  · exact (hfits hlong).field e hmatch
  · rw [match_short (by omega)] at hmatch
    cases hmatch

/-- A line changes the field that it names, and no other. -/
theorem assign_field {line itm : List Char} {e : NvmName} (he : cfTableMatch itm = some e)
    (hfits : 5 ≤ line.length → Fits line) (hline : WellFormed kstrtol line) (val : BitVec 64)
    (conf : ℕ → Byte) {j : ℕ} (hj : j < e.size) :
    assign kstrtol val conf line (e.memOffset + j) =
      (((listing kstrtol e line).getD [])[j]?).getD (conf (e.memOffset + j)) := by
  rw [assign]
  cases hmatch : cfTableMatch (item line) with
  | none =>
    rw [listing, hmatch, if_neg (by simp)]
    rfl
  | some n =>
    have hlist : listing kstrtol n line =
        some ((numbers kstrtol val (values line)).flatMap (bytes n.type)) := by
      rw [listing, if_pos hmatch, hline.numbers_eq val]
    have hle := listing_le hfits hlist
    -- the length of the data lies in no field
    have hlen : ∀ conf' : ℕ → Byte,
        (if n.itm = "rf_config" then
          write conf' RF_CONFIG (bytes 4 (BitVec.ofNat 32 (numbers kstrtol val (values line)).length))
          else conf') (e.memOffset + j) = conf' (e.memOffset + j) := by
      intro conf'
      split
      · apply write_outside
        rw [length_bytes]
        rcases behind_rf_data_len he with h | h <;> omega
      · rfl
    dsimp only
    rw [hlen]
    by_cases hne : n = e
    · rw [hne] at hlist ⊢
      rw [hlist, Option.getD_some, write, if_pos (Nat.le_add_right _ _), Nat.add_sub_cancel_left]
    · have hother : listing kstrtol e line = none := by
        rw [listing, hmatch, if_neg fun h => hne (Option.some.inj h)]
      rw [hother]
      apply write_outside
      rcases apart_of_match hmatch he hne with h | h <;> omega

theorem getElem?_overlay (bs old : List Byte) (j : ℕ) (x : Byte) :
    ((bs ++ old.drop bs.length)[j]?).getD x = (bs[j]?).getD ((old[j]?).getD x) := by
  by_cases hj : j < bs.length
  · rw [List.getElem?_append_left hj, List.getElem?_eq_getElem hj]
    rfl
  · rw [List.getElem?_append_right (by omega), List.getElem?_drop,
      List.getElem?_eq_none (l := bs) (by omega), show bs.length + (j - bs.length) = j by omega]
    rfl

theorem held_cons (e : NvmName) (old : List Byte) (line : List Char) (lines : List (List Char)) :
    held kstrtol e old (line :: lines) =
      match listing kstrtol e line with
      | none => held kstrtol e old lines
      | some bs => held kstrtol e (bs ++ old.drop bs.length) lines := by
  rw [held, List.filterMap_cons]
  cases listing kstrtol e line <;> rfl

/-- The lines leave in a field what they list for it, and the rest as it was. -/
theorem assign_lines {itm : List Char} {e : NvmName} (he : cfTableMatch itm = some e)
    (val : BitVec 64) (conf₀ : ℕ → Byte) (lines : List (List Char))
    (hfits : ∀ line ∈ lines, 5 ≤ line.length → Fits line)
    (hlines : ∀ line ∈ lines, WellFormed kstrtol line) (conf : ℕ → Byte) (old : List Byte)
    (hconf : ∀ j < e.size, conf (e.memOffset + j) = (old[j]?).getD (conf₀ (e.memOffset + j))) :
    ∀ j < e.size, lines.foldl (assign kstrtol val) conf (e.memOffset + j) =
      ((held kstrtol e old lines)[j]?).getD (conf₀ (e.memOffset + j)) := by
  induction lines generalizing conf old with
  | nil => exact hconf
  | cons line lines ih =>
    obtain ⟨hfits, hfits'⟩ := List.forall_mem_cons.mp hfits
    obtain ⟨hline, hlines⟩ := List.forall_mem_cons.mp hlines
    have hassign := fun (j : ℕ) (hj : j < e.size) => assign_field he hfits hline val conf hj
    rw [List.foldl_cons, held_cons]
    cases hlist : listing kstrtol e line with
    | none =>
      apply ih hfits' hlines
      intro j hj
      rw [hassign j hj, hlist]
      exact hconf j hj
    | some bs =>
      apply ih hfits' hlines
      intro j hj
      rw [hassign j hj, hlist, Option.getD_some, hconf j hj, getElem?_overlay]

theorem length_held {e : NvmName} (lines : List (List Char))
    (hfits : ∀ line ∈ lines, 5 ≤ line.length → Fits line) (old : List Byte)
    (hold : old.length ≤ e.size) : (held kstrtol e old lines).length ≤ e.size := by
  induction lines generalizing old with
  | nil => exact hold
  | cons line lines ih =>
    obtain ⟨hfits, hfits'⟩ := List.forall_mem_cons.mp hfits
    rw [held_cons]
    cases hlist : listing kstrtol e line with
    | none => exact ih hfits' old hold
    | some bs =>
      have hle := listing_le hfits hlist
      apply ih hfits'
      rw [List.length_append, List.length_drop]
      omega

/-- The lines leave in a field what the last one that names it lists. -/
theorem prefix_held {e : NvmName} {lines : List (List Char)} {bs : List Byte}
    (h : (lines.filterMap (listing kstrtol e)).getLast? = some bs) :
    bs <+: held kstrtol e [] lines := by
  obtain ⟨ls, hls⟩ := List.getLast?_eq_some_iff.mp h
  rw [held, hls, List.foldl_append]
  exact List.prefix_append _ _

theorem received_iff {text : List Char} (val : BitVec 64)
    (hfits : ∀ line ∈ endedLines text, 5 ≤ line.length → Fits line)
    (hlines : ∀ line ∈ text.splitOnP isEnd, WellFormed kstrtol line) :
    (∀ conf, Received kstrtol text ((endedLines text).foldl (assign kstrtol val) conf)) ↔
      ∀ e bs, listing kstrtol e (lastLine text) = some bs →
        bs <+: held kstrtol e [] (endedLines text) := by
  have hended : ∀ line ∈ endedLines text, WellFormed kstrtol line := fun line hline =>
    hlines line (List.dropLast_subset _ hline)
  have hfield : ∀ {itm : List Char} {e : NvmName} (_ : cfTableMatch itm = some e) (conf : ℕ → Byte),
      ∀ j < e.size, (endedLines text).foldl (assign kstrtol val) conf (e.memOffset + j) =
        ((held kstrtol e [] (endedLines text))[j]?).getD (conf (e.memOffset + j)) :=
    fun he conf => assign_lines he val conf _ hfits hended conf [] fun _ _ => rfl
  have hlast : ∀ e, ((text.splitOnP isEnd).filterMap (listing kstrtol e)).getLast? =
      (listing kstrtol e (lastLine text)).or
        ((endedLines text).filterMap (listing kstrtol e)).getLast? := by
    intro e
    rw [split_text, List.filterMap_append, List.getLast?_append]
    cases hlist : listing kstrtol e (lastLine text) <;> simp [hlist]
  constructor
  · intro h e bs hlist
    have hmatch := match_of_listing hlist
    have hbs := fun conf => h conf e bs (by rw [hlast, hlist]; rfl)
    refine List.prefix_iff_getElem?.mpr fun j hj => ?_
    -- memory that holds something else shows that the lines have written it
    obtain ⟨hle, hget⟩ := hbs fun _ => bs[j] + 1
    have hj' := hget j hj
    rw [hfield hmatch _ j (by omega)] at hj'
    cases hheld : (held kstrtol e [] (endedLines text))[j]? with
    | none =>
      rw [hheld, Option.getD_none] at hj'
      exact absurd hj' (by simp)
    | some b =>
      rw [hheld, Option.getD_some] at hj'
      rw [hj']
  · intro h conf e bs hbs
    have hstarts : bs <+: held kstrtol e [] (endedLines text) ∧
        ∃ itm, cfTableMatch itm = some e := by
      rw [hlast] at hbs
      cases hlist : listing kstrtol e (lastLine text) with
      | some bs' =>
        rw [hlist, Option.some_or] at hbs
        rw [← Option.some.inj hbs]
        exact ⟨h e bs' hlist, _, match_of_listing hlist⟩
      | none =>
        rw [hlist, Option.none_or] at hbs
        obtain ⟨line, -, hline⟩ := List.mem_filterMap.mp (List.mem_of_getLast? hbs)
        exact ⟨prefix_held hbs, _, match_of_listing hline⟩
    obtain ⟨hstarts, itm, hmatch⟩ := hstarts
    have hle := hstarts.length_le.trans (length_held _ hfits [] (Nat.zero_le _))
    refine ⟨hle, fun j hj => ?_⟩
    rw [hfield hmatch conf j (by omega), List.prefix_iff_getElem?.mp hstarts j hj]
    rfl

/-- A text is read inside all buffers, and each field of a well-formed one gets what the last line
that names it lists, exactly if its lines have room and the last one is not left out. -/
theorem rf_config_iff (kstrtol : Token → Option (BitVec 64)) (val : BitVec 64) (text : List Char) :
    (∀ conf, ∃ conf', wifiNvmBufOperate kstrtol val text conf = .ok conf' ∧
        ((∀ line ∈ text.splitOnP isEnd, WellFormed kstrtol line) → Received kstrtol text conf')) ↔
      Covered kstrtol text := by
  have htext := fun conf => operate_text kstrtol val _ text (Nat.le_refl _) conf
  constructor
  · intro h
    have hfits : ∀ line ∈ endedLines text, 5 ≤ line.length → Fits line := by
      by_contra hnot
      obtain ⟨f, hf⟩ := (htext fun _ => 0).2 hnot
      obtain ⟨conf', hok, -⟩ := h fun _ => 0
      rw [hf] at hok
      cases hok
    refine ⟨hfits, fun hlines => (received_iff val hfits hlines).mp fun conf => ?_⟩
    obtain ⟨conf', hok, hreceived⟩ := h conf
    rw [(htext conf).1 hfits] at hok
    cases hok
    exact hreceived hlines
  · intro h conf
    exact ⟨_, (htext conf).1 h.fits,
      fun hlines => (received_iff val h.fits hlines).mpr (h.last hlines) conf⟩

end Scanning

/-- Two values for a field that has room for one. -/
theorem field_overrun :
    ¬ ∀ conf, ∃ conf',
      wifiNvmBufOperate IniParse.decimal 0 "Major 1 2\n".toList conf = .ok conf' ∧
        ((∀ line ∈ "Major 1 2\n".toList.splitOnP isEnd, WellFormed IniParse.decimal line) →
          Received IniParse.decimal "Major 1 2\n".toList conf') := by
  intro h
  obtain ⟨conf', hok, -⟩ := h fun _ => 0
  have herror : wifiNvmBufOperate IniParse.decimal 0 "Major 1 2\n".toList (fun _ => 0) =
      .error .field := rfl
  rw [herror] at hok
  cases hok

end Uwe5631.RfConfig
