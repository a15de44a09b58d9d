import Mathlib.Data.BitVec
import Mathlib.Data.List.GetD
import Mathlib.Data.List.Forall2
import Mathlib.Data.List.SplitLengths
import Mathlib.Data.List.TakeWhile

/-!
# The event of a background scan

`sprdwl_event_gscan_frame` goes through the records of its buffer and hands each to a cache or to a
report. Changes of the signal go into a table of their own.
-/
namespace Uwe5631.GscanFrame

abbrev Byte := BitVec 8

/-- `sizeof(struct sprdwl_gscan_result)`, and the place of `ie_length` in it -/
abbrev GSCAN_RESULT_LEN : ℕ := 64
abbrev IE_LENGTH_AT : ℕ := 61

/-- The places of `ssid` and `bssid` -/
abbrev SSID_AT : ℕ := 8
/-- `sizeof(struct significant_change_info)` -/
abbrev CHANGE_INFO_LEN : ℕ := 11

def MAX_SIGNIFICANT_CHANGE_APS : ℕ := 16

theorem sizes : GSCAN_RESULT_LEN = 64 ∧ IE_LENGTH_AT = 61 ∧ CHANGE_INFO_LEN = 11 := ⟨rfl, rfl, rfl⟩

/-- `REPORT_EVENTS_BUFFER_FULL` and the bits of the others -/
def REPORT_EVENTS_BUFFER_FULL : ℕ := 0
def EACH_SCAN_BIT : ℕ := 0
def FULL_RESULTS_BIT : ℕ := 1
def HOTLIST_RESULTS_FOUND_BIT : ℕ := 3
def HOTLIST_RESULTS_LOST_BIT : ℕ := 4
def SIGNIFICANT_CHANGE_BIT : ℕ := 5
def EPNO_BIT : ℕ := 6

/-- What is called with a record. -/
inductive Kind where
  /-- `sprdwl_vendor_cache_scan_result` -/
  | scanResult
  /-- `sprdwl_vendor_report_full_scan` -/
  | fullScan
  /-- `sprdwl_vendor_cache_hotlist_result` -/
  | hotlistResult
  deriving DecidableEq, Repr

def kindOf (reportEvent : ℕ) : Option Kind :=
  if reportEvent = REPORT_EVENTS_BUFFER_FULL ∨ reportEvent.testBit EACH_SCAN_BIT then some .scanResult
  else if reportEvent.testBit FULL_RESULTS_BIT then some .fullScan
  else if reportEvent.testBit HOTLIST_RESULTS_FOUND_BIT ∨
      reportEvent.testBit HOTLIST_RESULTS_LOST_BIT then
    some .hotlistResult
  else none

/-- What becomes of a record. -/
inductive Taken where
  /-- it is not looked at: no table, no such bucket, a full table or no memory for the report -/
  | refused
  /-- no entry of the table has its `bssid`, or it is reported -/
  | stored
  /-- an entry has its `bssid`, and `strlen` is called with its `ssid` -/
  | compared
  deriving DecidableEq, Repr

/-- A record that is handed over: the place of its structure and what its `ie_length` says. -/
structure Handed where
  kind : Kind
  bucketId : Byte
  frame : ℕ
  ieLength : ℕ
  taken : Taken
  deriving DecidableEq, Repr

/-- What is reported at the end. -/
inductive Notice where
  | bufferFull
  | gscanDone (bucketId : Byte)
  | hotlistChange (reportEvent : ℕ)
  | significantChange
  /-- the networks that were found, as the places of their results -/
  | epnoFound (requestId : Byte) (results : List ℕ)
  deriving DecidableEq, Repr

/-- The pieces of the event that the function reads or writes, what it hands over, the last
`bucket_id`, the table of changes and what is reported. -/
structure Run where
  accesses : List (ℕ × ℕ)
  handed : List Handed
  bucketId : Byte
  significant : Option (List (List Byte))
  notice : Option Notice
  deriving DecidableEq, Repr

section Function
variable (data : List Byte) (taken : ℕ → Taken) (room : Option ℕ)

def byteAt (pos : ℕ) : Byte := data.getD pos 0

def word (pos : ℕ) : ℕ := (byteAt data pos).toNat + 256 * (byteAt data (pos + 1)).toNat

/-- What `strlen` reads: up to the first 0, which need not be in the event. -/
def cstring (pos : ℕ) : ℕ × ℕ := (pos, ((data.drop pos).takeWhile (· ≠ 0)).length + 1)

/-- `report_event` -/
def reportEventOf : ℕ := word data 0 + 65536 * word data 2

end Function

/-! ## Events -/

/-- A record: its bucket, the fields up to `ie_length`, the elements and a last byte. -/
structure Record where
  bucketId : Byte
  fields : List Byte
  ie : List Byte
  last : Byte
  deriving DecidableEq, Repr

def le16 (n : ℕ) : List Byte := [BitVec.ofNat 8 n, BitVec.ofNat 8 (n / 256)]

def Record.encode (r : Record) : List Byte :=
  r.bucketId :: r.fields ++ le16 r.ie.length ++ r.ie ++ [r.last]

structure Record.Wf (r : Record) : Prop where
  fields : r.fields.length = IE_LENGTH_AT
  ie : r.ie.length < 65536

/-- The event with some records. -/
def encode (reportEvent : ℕ) (records : List Record) : List Byte :=
  le16 (reportEvent % 65536) ++ le16 (reportEvent / 65536) ++ records.flatMap Record.encode

section Parsing
variable (data : List Byte)

def Inside (piece : ℕ × ℕ) : Prop := piece.1 + piece.2 ≤ data.length

/-- The SSID of a structure ends in the event. -/
def Terminated (frame : ℕ) : Prop := (0 : Byte) ∈ data.drop (frame + SSID_AT)

instance (frame : ℕ) : Decidable (Terminated data frame) := inferInstanceAs (Decidable (_ ∈ _))

variable (taken : ℕ → Taken)

/-- A record, cut or not, is refused, or has its structure in the event, and its elements if they are
reported, and its SSID if it is compared. -/
def roundFits (kind : Option Kind) (pos availLen : ℕ) : Prop :=
  kind = none ∨ taken (pos + 1) = .refused ∨
    if kind = some .fullScan then GSCAN_RESULT_LEN + word data (pos + 1 + IE_LENGTH_AT) ≤ availLen
    else
      availLen ≠ GSCAN_RESULT_LEN ∧ (taken (pos + 1) = .compared → Terminated data (pos + 1))

instance (kind : Option Kind) (pos availLen : ℕ) :
    Decidable (roundFits data taken kind pos availLen) :=
  inferInstanceAs (Decidable (_ ∨ _ ∨ _))

/-- The rounds of the loop. -/
inductive RoundsFit (kind : Option Kind) : ℕ → ℕ → Prop
  | stop {pos availLen : ℕ} : availLen < GSCAN_RESULT_LEN → RoundsFit kind pos availLen
  | round {pos availLen : ℕ} : GSCAN_RESULT_LEN ≤ availLen → roundFits data taken kind pos availLen →
      RoundsFit kind (pos + (GSCAN_RESULT_LEN + word data (pos + 1 + IE_LENGTH_AT) + 1))
        (availLen - (GSCAN_RESULT_LEN + word data (pos + 1 + IE_LENGTH_AT) + 1)) →
      RoundsFit kind pos availLen

/-- The changes of the event find room, or the event has none, or is not well-formed and rejected. -/
def ChangesFit (significant : Option (List (List Byte))) (availLen : ℕ) : Prop :=
  availLen / (CHANGE_INFO_LEN + 1) = 0 ∨
  match significant with
  | none => availLen % (CHANGE_INFO_LEN + 1) ≠ 0
  | some results =>
    results.length + availLen / (CHANGE_INFO_LEN + 1) ≤ MAX_SIGNIFICANT_CHANGE_APS ∨
      (MAX_SIGNIFICANT_CHANGE_APS ≤ results.length ∧ availLen % (CHANGE_INFO_LEN + 1) ≠ 0)

/-- The number of results of the event, and how many of them are read. -/
def numberOf : ℕ := (byteAt data 13).toNat

def looked (room : Option ℕ) : ℕ := min (numberOf data) ((room.getD 0) - 1)

/-- An event with results has them as far as they are read, with an SSID that ends, and the message
has room for all, or the event is not well-formed. -/
structure ResultsFit (room : Option ℕ) : Prop where
  number : 14 ≤ data.length
  read : ∀ i < looked data room,
    14 + GSCAN_RESULT_LEN * i + IE_LENGTH_AT ≤ data.length ∧ Terminated data (14 + GSCAN_RESULT_LEN * i)
  room : numberOf data = 0 ∨ numberOf data < room.getD 0 ∨
    data.length ≠ 14 + GSCAN_RESULT_LEN * numberOf data

/-- The condition on the event and the table. -/
def Fits (room : Option ℕ) (significant : Option (List (List Byte))) : Prop :=
  4 ≤ data.length ∧
  if (reportEventOf data).testBit EPNO_BIT then ResultsFit data room
  else if (reportEventOf data).testBit SIGNIFICANT_CHANGE_BIT then
    ChangesFit significant (data.length - 4)
  else RoundsFit data taken (kindOf (reportEventOf data)) 4 (data.length - 4)

end Parsing

variable {data : List Byte} {taken : ℕ → Taken} {room : Option ℕ}

theorem Record.Wf.length {r : Record} (h : r.Wf) :
    r.encode.length = GSCAN_RESULT_LEN + r.ie.length + 1 := by
  have hsizes := sizes
  have hfields := h.fields
  simp only [Record.encode, List.length_append, List.length_cons, le16, List.length_nil]
  omega

end Uwe5631.GscanFrame
