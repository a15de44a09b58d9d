import Uwe5631.BeaconOverride
import Uwe5631.FallibleRuns
import Uwe5631.ScanReport
import Mathlib

/-!
# The message that starts an access point

`sprdwl_cfg80211_start_ap` puts the SSID and whether it is hidden in the place of the SSID element of
the beacon head, and the tail behind.
-/
namespace Uwe5631.ApStart
open Elements FallibleRuns
open ScanReport (strncpy length_strncpy Plain strncpy_eq_self)
open BeaconOverride (newBeaconHead newBeaconTail headAction tailAction erpInfo override overridden
  Overrides Suits TailSuits tailWritten ROOM)

abbrev SSID_LEN_OFFSET : ℕ := 37
abbrev IEEE80211_MAX_SSID_LEN : ℕ := 32
abbrev WLAN_EID_SSID : Byte := 0

/-- `enum nl80211_hidden_ssid` -/
inductive HiddenSsid
  | notInUse
  | zeroLen
  | zeroContents
  deriving DecidableEq, Repr

def HiddenSsid.code : HiddenSsid → Byte
  | notInUse => 0
  | zeroLen => 1
  | zeroContents => 2

inductive Fault
  | readOutside
  | writeOutside
  | override (f : BeaconOverride.Fault)
  deriving DecidableEq, Repr

/-- A copy from a buffer, of an `int` of bytes. -/
def load (src : List Byte) (pos : ℕ) (n : ℤ) : Except Fault (List Byte) :=
  if n < 0 ∨ (src.length : ℤ) < pos + n then .error .readOutside
  else .ok ((src.drop pos).take n.toNat)

/-- A copy to a buffer of bytes that may not be written yet. -/
def write (data : List (Option Byte)) (pos : ℕ) (bs : List Byte) :
    Except Fault (List (Option Byte)) :=
  if bs = [] then .ok data
  else if data.length < pos + bs.length then .error .writeOutside
  else .ok (data.take pos ++ (bs.map some ++ data.drop (pos + bs.length)))

/-- The length of the SSID, where it is counted. -/
def HiddenSsid.extra (hidden : HiddenSsid) (ssid : List Byte) : ℕ :=
  if hidden ≠ .notInUse then ssid.length else 0

/-- `mgmt_len` -/
def mgmtLen (hidden : HiddenSsid) (head tail ssid : List Byte) : BitVec 16 :=
  BitVec.ofNat 16 (head.length + 1 + hidden.extra ssid + tail.length)

/-- `index` behind the flag. -/
def indexBehind (ssid : List Byte) : ℕ := SSID_LEN_OFFSET + 1 + ssid.length + 1

def hiddenIndex (hidden : HiddenSsid) (ssid : List Byte) : ℕ := indexBehind ssid - hidden.extra ssid

def message (hidden : HiddenSsid) (head tail ssid : List Byte) :
    Except Fault (List (Option Byte)) := do
  let data := List.replicate (mgmtLen hidden head tail ssid).toNat none
  let fixed ← load head 0 SSID_LEN_OFFSET
  let data ← write data 0 fixed
  let data ← write data SSID_LEN_OFFSET [BitVec.ofNat 8 (ssid.length + 1)]
  let data ← write data (SSID_LEN_OFFSET + 1) (strncpy ssid)
  let data ← write data (SSID_LEN_OFFSET + 1 + ssid.length) [hidden.code]
  let others ← load head (hiddenIndex hidden ssid - 1) (head.length + 1 - hiddenIndex hidden ssid)
  let data ← write data (indexBehind ssid) others
  write data (head.length + 1 + hidden.extra ssid) tail

/-- `struct sprdwl_cmd_start_ap` -/
structure CmdStartAp where
  len : BitVec 16
  value : List (Option Byte)
  deriving DecidableEq

/-- `sprdwl_start_ap`; the length of its buffer has 16 bits. -/
def startApCmd (beacon : List (Option Byte)) (len : BitVec 16) : Except Fault CmdStartAp :=
  if (2 + len).toNat < 2 + len.toNat then .error .writeOutside else .ok ⟨len, beacon⟩

/-- The head and the tail, for a channel that is valid with another channel in them; `newHead` and
`newTail` are the buffers for them. -/
def beaconFor (valid : Bool) (chn : BitVec 16) (head newHead tail newTail : List Byte) :
    Except Fault (List Byte × List Byte) :=
  if valid then
    match BeaconOverride.newBeaconHead head newHead chn,
      BeaconOverride.newBeaconTail tail newTail chn with
    | .ok (headLen, h), .ok (tailLen, t) => .ok (h.take headLen, t.take tailLen)
    | .error f, _ => .error (.override f)
    | _, .error f => .error (.override f)
  else .ok (head, tail)

/-- `sprdwl_cfg80211_start_ap`, from the choice of the beacon to the message. -/
def startAp (valid : Bool) (chn : BitVec 16) (hidden : HiddenSsid)
    (head newHead tail newTail ssid : List Byte) : Except Fault CmdStartAp := do
  let beacon ← beaconFor valid chn head newHead tail newTail
  let mgmt ← message hidden beacon.1 beacon.2 ssid
  startApCmd mgmt (mgmtLen hidden beacon.1 beacon.2 ssid)

/-! ## What should be sent -/

/-- The SSID element of a beacon. -/
def HiddenSsid.shown (ssid : List Byte) : HiddenSsid → List Byte
  | notInUse => ssid
  | zeroLen => []
  | zeroContents => List.replicate ssid.length 0

/-- The fixed part, the SSID with the flag, the other elements and the tail. -/
def expected (hidden : HiddenSsid) (fixed : List Byte) (es : List Element) (tail ssid : List Byte) :
    List Byte :=
  fixed ++ (WLAN_EID_SSID :: BitVec.ofNat 8 (ssid.length + 1) :: (ssid ++ (hidden.code ::
    (encode es ++ tail))))

/-- An SSID whose contents are hidden is empty, it is a string, and the lengths have 16 bits. -/
structure Fine (hidden : HiddenSsid) (es : List Element) (tail ssid : List Byte) : Prop where
  contents : hidden = .zeroContents → ssid = []
  plain : Plain ssid
  fits : 39 + ssid.length + (encode es).length + tail.length + 2 < 65536

/-- The other elements of the head, with another channel in them if it is valid. -/
def others (valid : Bool) (chn : BitVec 16) (es : List Element) : List Element :=
  if valid then override (headAction chn) (chn.setWidth 8) es else es

/-- The tail, with another channel in it if it is valid. -/
def tailFor (valid : Bool) (chn : BitVec 16) (ts : List Element) (torn : List Byte) : List Byte :=
  if valid then tailWritten chn ts torn else encode ts ++ torn

/-- The head of `fixed`, the SSID element `e` and `es` and the tail of `ts` and `torn` are overridden
as configured if the channel is valid, and the message has their parts in full. -/
structure Starts (valid : Bool) (chn : BitVec 16) (hidden : HiddenSsid) (fixed : List Byte)
    (e : Element) (es ts : List Element) (torn newHead newTail ssid : List Byte) : Prop where
  head : valid = true → Overrides (newBeaconHead (fixed ++ encode (e :: es)) newHead chn) fixed
    (headAction chn) (chn.setWidth 8) (e :: es) []
  tail : valid = true → Overrides (newBeaconTail (encode ts ++ torn) newTail chn)
    (encode (erpInfo chn)) (tailAction chn) (chn.setWidth 8) ts torn
  message : startAp valid chn hidden (fixed ++ encode (e :: es)) newHead (encode ts ++ torn) newTail
      ssid =
    .ok ⟨BitVec.ofNat 16
        (expected hidden fixed (others valid chn es) (tailFor valid chn ts torn) ssid).length,
      (expected hidden fixed (others valid chn es) (tailFor valid chn ts torn) ssid).map some⟩

/-- For a valid channel the head and the tail suit the override; what it leaves makes a message. -/
structure AllFine (valid : Bool) (chn : BitVec 16) (hidden : HiddenSsid) (e : Element)
    (es ts : List Element) (torn ssid : List Byte) : Prop where
  head : valid = true → Suits (headAction chn) (chn.setWidth 8) ((encode (e :: es)).length + ROOM)
    (e :: es) []
  tail : valid = true → TailSuits (tailAction chn) (chn.setWidth 8)
    ((encode ts ++ torn).length + ROOM - (encode (erpInfo chn)).length) ts torn
  message : Fine hidden (others valid chn es) (tailFor valid chn ts torn) ssid

/-! ## The copies -/

theorem write_ok {data data' : List (Option Byte)} {pos : ℕ} {bs : List Byte}
    (h : write data pos bs = .ok data') :
    data'.length = data.length ∧ (bs = [] ∨ pos + bs.length ≤ data.length) := by
  rw [write] at h
  split at h
  · rename_i hnil
    obtain rfl := Except.ok.inj h
    exact ⟨rfl, .inl hnil⟩
  · split at h
    · cases h
    · rename_i hfits
      obtain rfl := Except.ok.inj h
      simp only [List.length_append, List.length_take, List.length_map, List.length_drop]
      omega

/-- A buffer whose first bytes are written. -/
def written (total : ℕ) (bs : List Byte) : List (Option Byte) :=
  bs.map some ++ List.replicate (total - bs.length) none

theorem write_written {total : ℕ} {before bs : List Byte} {pos : ℕ} (hpos : pos = before.length)
    (h : before.length + bs.length ≤ total) :
    write (written total before) pos bs = .ok (written total (before ++ bs)) := by
  rw [write, written, written, hpos]
  by_cases hnil : bs = []
  · rw [if_pos hnil, hnil, List.append_nil]
  · have hlength : (before.map some ++ List.replicate (total - before.length) none :
        List (Option Byte)).length = total := by
      rw [List.length_append, List.length_map, List.length_replicate]
      omega
    have htake : (before.map some ++ List.replicate (total - before.length) none :
        List (Option Byte)).take before.length = before.map some := by
      rw [List.take_append_of_le_length (by rw [List.length_map]),
        List.take_of_length_le (by rw [List.length_map])]
    have hdrop : (before.map some ++ List.replicate (total - before.length) none :
        List (Option Byte)).drop (before.length + bs.length) =
          List.replicate (total - (before ++ bs).length) none := by
      rw [List.drop_append, List.length_map, List.drop_of_length_le (by rw [List.length_map]; omega),
        List.nil_append, List.drop_replicate, List.length_append]
      congr 1
      omega
    rw [if_neg hnil, hlength, if_neg (by omega), htake, hdrop, List.map_append, List.append_assoc]

theorem write_bind {total : ℕ} {before bs : List Byte} {pos : ℕ} {β : Type}
    (hpos : pos = before.length) (h : before.length + bs.length ≤ total)
    (f : List (Option Byte) → Except Fault β) :
    (write (written total before) pos bs >>= f) = f (written total (before ++ bs)) := by
  rw [write_written hpos h]
  rfl

theorem load_all {src : List Byte} {pos : ℕ} {n : ℤ} (h : (pos : ℤ) + n = src.length) (hn : 0 ≤ n) :
    load src pos n = .ok (src.drop pos) := by
  rw [load, if_neg (by omega), List.take_of_length_le (by rw [List.length_drop]; omega)]

/-! ## The message -/

/-- What the copy of the other elements starts with. -/
def HiddenSsid.spare (ssid : List Byte) : HiddenSsid → List Byte
  | notInUse => []
  | zeroLen => []
  | zeroContents => List.replicate ssid.length 0

/-- A head whose fixed part and SSID element are as the mode prescribes. -/
structure Prescribed (hidden : HiddenSsid) (fixed : List Byte) (e : Element) (ssid : List Byte) :
    Prop where
  fixed : fixed.length = BeaconOverride.BEACON_VARIABLE
  id : e.id = WLAN_EID_SSID
  body : e.body = hidden.shown ssid
  ssid : ssid.length ≤ IEEE80211_MAX_SSID_LEN

variable {hidden : HiddenSsid} {fixed : List Byte} {e : Element} {es : List Element}
  {tail ssid : List Byte}

theorem encode_head (es : List Element) :
    fixed ++ encode (e :: es) = fixed ++ (e.id :: e.len :: (e.body ++ encode es)) := by
  have hcons := encode_cons e es []
  rw [List.append_nil, List.append_nil] at hcons
  rw [hcons]

theorem length_head (h : Prescribed hidden fixed e ssid) (es : List Element) :
    (fixed ++ encode (e :: es)).length + 1 + hidden.extra ssid =
      39 + ssid.length + (hidden.spare ssid).length + (encode es).length := by
  have hfixed : fixed.length = 36 := h.fixed
  rw [encode_head, List.length_append, List.length_cons, List.length_cons, List.length_append, h.body,
    HiddenSsid.extra]
  cases hidden with
  | notInUse =>
    rw [if_neg (not_not.mpr rfl), HiddenSsid.shown, HiddenSsid.spare]
    simp only [List.length_nil]
    omega
  | zeroLen =>
    rw [if_pos (by decide), HiddenSsid.shown, HiddenSsid.spare]
    simp only [List.length_nil]
    omega
  | zeroContents =>
    rw [if_pos (by decide), HiddenSsid.shown, HiddenSsid.spare, List.length_replicate]
    omega

theorem drop_head (h : Prescribed hidden fixed e ssid) (es : List Element) :
    (fixed ++ encode (e :: es)).drop (hiddenIndex hidden ssid - 1) =
      hidden.spare ssid ++ encode es := by
  have hfixed : fixed.length = 36 := h.fixed
  have hafter : (fixed ++ encode (e :: es)).drop 38 = e.body ++ encode es := by
    rw [encode_head, show 38 = fixed.length + 2 by omega, List.drop_length_add_append]
    rfl
  have hskip : ∀ n, (fixed ++ encode (e :: es)).drop (38 + n) = (e.body ++ encode es).drop n := by
    intro n
    rw [← hafter, List.drop_drop]
  rw [hiddenIndex, indexBehind, HiddenSsid.extra]
  cases hidden with
  | notInUse =>
    rw [if_neg (not_not.mpr rfl), show 37 + 1 + ssid.length + 1 - 0 - 1 = 38 + ssid.length by omega,
      hskip, h.body]
    exact List.drop_left
  | zeroLen =>
    rw [if_pos (by decide), show 37 + 1 + ssid.length + 1 - ssid.length - 1 = 38 + 0 by omega, hskip,
      h.body]
    rfl
  | zeroContents =>
    rw [if_pos (by decide), show 37 + 1 + ssid.length + 1 - ssid.length - 1 = 38 + 0 by omega, hskip,
      h.body]
    rfl

/-- The bytes that the copies leave in a message that is long enough. -/
def sent (hidden : HiddenSsid) (fixed : List Byte) (es : List Element) (tail ssid : List Byte) :
    List Byte :=
  fixed ++ (WLAN_EID_SSID :: BitVec.ofNat 8 (ssid.length + 1) :: (strncpy ssid ++ (hidden.code ::
    (hidden.spare ssid ++ (encode es ++ tail)))))

theorem length_sent (h : Prescribed hidden fixed e ssid) (es : List Element) (tail : List Byte) :
    (sent hidden fixed es tail ssid).length =
      (fixed ++ encode (e :: es)).length + 1 + hidden.extra ssid + tail.length := by
  have hfixed : fixed.length = 36 := h.fixed
  rw [length_head h, sent]
  simp only [List.length_append, List.length_cons, length_strncpy, hfixed]
  omega

/-- The copy of the other elements is inside the head. -/
theorem load_others (h : Prescribed hidden fixed e ssid) (es : List Element) :
    load (fixed ++ encode (e :: es)) (hiddenIndex hidden ssid - 1)
      ((fixed ++ encode (e :: es)).length + 1 - hiddenIndex hidden ssid) =
        .ok (hidden.spare ssid ++ encode es) := by
  have hlength := length_head h es
  have hindex : hiddenIndex hidden ssid = 39 + ssid.length - hidden.extra ssid := by
    rw [hiddenIndex, indexBehind, show SSID_LEN_OFFSET = 37 from rfl]
    omega
  have hextra : hidden.extra ssid ≤ ssid.length := by
    rw [HiddenSsid.extra]
    split <;> omega
  rw [load_all (by omega) (by omega), drop_head h]

theorem load_fixed (h : Prescribed hidden fixed e ssid) (es : List Element) :
    load (fixed ++ encode (e :: es)) 0 SSID_LEN_OFFSET = .ok (fixed ++ [WLAN_EID_SSID]) := by
  have hfixed : fixed.length = 36 := h.fixed
  have hcut : (fixed ++ encode (e :: es)).take 37 = fixed ++ [WLAN_EID_SSID] := by
    rw [encode_head, h.id, show 37 = fixed.length + 1 by omega, List.take_length_add_append]
    rfl
  rw [load, if_neg ?_]
  · exact congrArg Except.ok hcut
  · rw [encode_head, List.length_append, List.length_cons, List.length_cons,
      show SSID_LEN_OFFSET = 37 from rfl]
    omega

theorem message_fits (h : Prescribed hidden fixed e ssid)
    (hfits : (sent hidden fixed es tail ssid).length < 65536) :
    message hidden (fixed ++ encode (e :: es)) tail ssid =
      .ok ((sent hidden fixed es tail ssid).map some) := by
  have hfixed : fixed.length = 36 := h.fixed
  have hlength := length_sent h es tail
  have hhead := length_head h es
  have htotal : (mgmtLen hidden (fixed ++ encode (e :: es)) tail ssid).toNat =
      (sent hidden fixed es tail ssid).length := by
    rw [mgmtLen, ← hlength, BitVec.toNat_ofNat]
    exact Nat.mod_eq_of_lt hfits
  have hstart : List.replicate (sent hidden fixed es tail ssid).length none =
      written (sent hidden fixed es tail ssid).length [] := rfl
  rw [message, load_fixed h, load_others h, htotal, hstart, indexBehind]
  change (write _ 0 (fixed ++ [WLAN_EID_SSID]) >>= _) = _
  rw [write_bind (by simp) (by
      simp only [List.length_append, List.length_nil, List.length_singleton]; omega),
    write_bind (by simp [hfixed]) (by
      simp only [List.length_append, List.length_nil, List.length_singleton]; omega),
    write_bind (by simp [hfixed]) (by
      simp only [List.length_append, List.length_nil, List.length_singleton, length_strncpy]; omega),
    write_bind (by simp [hfixed, length_strncpy, SSID_LEN_OFFSET]; omega) (by
      simp only [List.length_append, List.length_nil, List.length_singleton, length_strncpy]; omega)]
  change (write _ _ _ >>= _) = _
  rw [write_bind (by simp [hfixed, length_strncpy, SSID_LEN_OFFSET]; omega) (by
      simp only [List.length_append, List.length_nil, List.length_singleton, length_strncpy]; omega),
    write_written (by
      rw [hhead]
      simp only [List.length_append, List.length_nil, List.length_singleton, length_strncpy]; omega) (by
      simp only [List.length_append, List.length_nil, List.length_singleton, length_strncpy]; omega)]
  have hall : [] ++ (fixed ++ [WLAN_EID_SSID]) ++ [BitVec.ofNat 8 (ssid.length + 1)] ++ strncpy ssid ++
      [hidden.code] ++ (hidden.spare ssid ++ encode es) ++ tail = sent hidden fixed es tail ssid := by
    simp only [sent, List.nil_append, List.append_assoc, List.cons_append]
  rw [hall, written, Nat.sub_self, List.replicate_zero, List.append_nil]

/-- A message that is longer than 16 bits say is not written. -/
theorem message_overflows (h : Prescribed hidden fixed e ssid)
    (hover : 65536 ≤ (sent hidden fixed es tail ssid).length) (mgmt : List (Option Byte)) :
    message hidden (fixed ++ encode (e :: es)) tail ssid ≠ .ok mgmt := by
  intro hmessage
  have hssid : ssid.length ≤ 32 := h.ssid
  have hlength := length_sent h es tail
  have hhead := length_head h es
  have htotal : (mgmtLen hidden (fixed ++ encode (e :: es)) tail ssid).toNat < 65536 := BitVec.isLt _
  rw [message, load_fixed h, load_others h, indexBehind,
    show SSID_LEN_OFFSET = 37 from rfl] at hmessage
  obtain ⟨d₁, h₁, hmessage⟩ := bind_eq_ok.mp hmessage
  obtain ⟨d₂, h₂, hmessage⟩ := bind_eq_ok.mp hmessage
  obtain ⟨d₃, h₃, hmessage⟩ := bind_eq_ok.mp hmessage
  obtain ⟨d₄, h₄, hmessage⟩ := bind_eq_ok.mp hmessage
  obtain ⟨d₅, h₅, hmessage⟩ := bind_eq_ok.mp hmessage
  obtain ⟨d₆, h₆, hmessage⟩ := bind_eq_ok.mp hmessage
  obtain ⟨d₇, h₇, htail⟩ := bind_eq_ok.mp hmessage
  obtain rfl := Except.ok.inj h₆
  have hl₂ := (write_ok h₂).1
  have hl₃ := (write_ok h₃).1
  have hl₄ := (write_ok h₄).1
  have hl₅ := (write_ok h₅).1
  obtain ⟨hl₇, hothers⟩ := write_ok h₇
  obtain ⟨-, htail⟩ := write_ok htail
  rw [List.length_replicate] at hl₂
  rcases htail with hnil | hfits
  · have hshort := congrArg List.length hnil
    rw [List.length_nil] at hshort
    rcases hothers with hnone | hfits
    · have hzero := congrArg List.length hnone
      rw [List.length_append, List.length_nil] at hzero
      omega
    · rw [List.length_append] at hfits
      omega
  · omega

theorem startApCmd_iff {value : List (Option Byte)} {len : BitVec 16} {cmd : CmdStartAp} :
    startApCmd value len = .ok cmd ↔ len.toNat + 2 < 65536 ∧ cmd = ⟨len, value⟩ := by
  have hlen := len.isLt
  have hsum : (2 + len).toNat = (2 + len.toNat) % 65536 := by
    rw [BitVec.toNat_add]
    rfl
  rw [startApCmd, hsum]
  by_cases hfits : len.toNat + 2 < 65536
  · rw [if_neg (by omega)]
    exact ⟨fun h => ⟨hfits, (Except.ok.inj h).symm⟩, fun h => congrArg Except.ok h.2.symm⟩
  · rw [if_pos (by omega)]
    exact ⟨fun h => (by cases h), fun h => absurd h.1 hfits⟩

/-- Nothing is spare and the SSID is copied exactly if the bytes are the right ones. -/
theorem sent_iff (hidden : HiddenSsid) (fixed : List Byte) (es : List Element)
    (tail ssid : List Byte) :
    sent hidden fixed es tail ssid = expected hidden fixed es tail ssid ↔
      (hidden = .zeroContents → ssid = []) ∧ Plain ssid := by
  rw [sent, expected, List.append_right_inj, List.cons.injEq, List.cons.injEq, and_iff_right rfl,
    and_iff_right rfl]
  constructor
  · intro h
    obtain ⟨hssid, hrest⟩ := List.append_inj h (length_strncpy ssid)
    refine ⟨?_, strncpy_eq_self.mp hssid⟩
    rintro rfl
    have hlength := congrArg List.length (List.cons.inj hrest).2
    rw [List.length_append, HiddenSsid.spare, List.length_replicate] at hlength
    exact List.eq_nil_of_length_eq_zero (by omega)
  · rintro ⟨hcontents, hplain⟩
    have hspare : hidden.spare ssid = [] := by
      cases hidden with
      | notInUse => rfl
      | zeroLen => rfl
      | zeroContents =>
        rw [hcontents rfl]
        rfl
    rw [strncpy_eq_self.mpr hplain, hspare, List.nil_append]

theorem length_expected (hidden : HiddenSsid) (es : List Element) (tail ssid : List Byte)
    (hfixed : fixed.length = BeaconOverride.BEACON_VARIABLE) :
    (expected hidden fixed es tail ssid).length =
      39 + ssid.length + (encode es).length + tail.length := by
  rw [expected, List.length_append, List.length_cons, List.length_cons, List.length_append,
    List.length_cons, List.length_append, hfixed, BeaconOverride.BEACON_VARIABLE]
  omega

/-- The message of a beacon that the choice of the channel has left. -/
theorem startAp_iff {valid : Bool} {chn : BitVec 16} {head newHead beaconTail newTail : List Byte}
    (h : Prescribed hidden fixed e ssid)
    (hbeacon : beaconFor valid chn head newHead beaconTail newTail =
      .ok (fixed ++ encode (e :: es), tail)) :
    startAp valid chn hidden head newHead beaconTail newTail ssid =
        .ok ⟨BitVec.ofNat 16 (expected hidden fixed es tail ssid).length,
          (expected hidden fixed es tail ssid).map some⟩ ↔ Fine hidden es tail ssid := by
  have hlength := length_sent h es tail
  have hhead := length_head h es
  have hexpected := length_expected hidden es tail ssid h.fixed
  rw [startAp, hbeacon]
  change (message hidden (fixed ++ encode (e :: es)) tail ssid >>= _) = _ ↔ _
  by_cases hfits : (sent hidden fixed es tail ssid).length < 65536
  · rw [message_fits h hfits]
    change startApCmd _ _ = _ ↔ _
    have hlen : (mgmtLen hidden (fixed ++ encode (e :: es)) tail ssid).toNat =
        (sent hidden fixed es tail ssid).length := by
      rw [mgmtLen, ← hlength, BitVec.toNat_ofNat]
      exact Nat.mod_eq_of_lt hfits
    rw [startApCmd_iff, hlen]
    constructor
    · rintro ⟨hcmd, heq⟩
      have hvalue := List.map_injective_iff.mpr (Option.some_injective _) (CmdStartAp.mk.inj heq).2
      obtain ⟨hcontents, hplain⟩ := (sent_iff hidden fixed es tail ssid).mp hvalue.symm
      exact ⟨hcontents, hplain, by rw [← hvalue, hexpected] at hcmd; exact hcmd⟩
    · intro hfine
      have hvalue := (sent_iff hidden fixed es tail ssid).mpr ⟨hfine.contents, hfine.plain⟩
      have hcmd := hfine.fits
      rw [hvalue, hexpected]
      refine ⟨hcmd, ?_⟩
      rw [mgmtLen, ← hlength, hvalue, hexpected]
  · constructor
    · intro hok
      obtain ⟨mgmt, hmgmt, -⟩ := bind_eq_ok.mp hok
      exact absurd hmgmt (message_overflows h (by omega) mgmt)
    · intro hfine
      have hvalue := (sent_iff hidden fixed es tail ssid).mpr ⟨hfine.contents, hfine.plain⟩
      have hcmd := hfine.fits
      rw [hvalue, hexpected] at hfits
      omega

/-- The SSID element is copied. -/
theorem override_head (h : Prescribed hidden fixed e ssid) (chn : BitVec 16) (es : List Element) :
    override (headAction chn) (chn.setWidth 8) (e :: es) =
      e :: override (headAction chn) (chn.setWidth 8) es := by
  have hid := h.id
  have hcopy : headAction chn e.id = .copy := by
    rw [hid]
    rfl
  rw [override, List.flatMap_cons, overridden, hcopy]
  rfl

/-- A beacon that suits the override is left with its elements overridden. -/
theorem beaconFor_eq {valid : Bool} {chn : BitVec 16} {es ts : List Element}
    {torn newHead newTail : List Byte} (h : Prescribed hidden fixed e ssid) (htorn : Torn torn)
    (hroom : newTail.length = (encode ts ++ torn).length + ROOM)
    (hhead : valid = true → Overrides (newBeaconHead (fixed ++ encode (e :: es)) newHead chn) fixed
      (headAction chn) (chn.setWidth 8) (e :: es) [])
    (htail : valid = true → TailSuits (tailAction chn) (chn.setWidth 8)
      ((encode ts ++ torn).length + ROOM - (encode (erpInfo chn)).length) ts torn) :
    beaconFor valid chn (fixed ++ encode (e :: es)) newHead (encode ts ++ torn) newTail =
      .ok (fixed ++ encode (e :: others valid chn es), tailFor valid chn ts torn) := by
  cases valid with
  | false => rfl
  | true =>
    obtain ⟨len, buf, hok, hout⟩ := hhead rfl
    have hsuits := htail rfl
    obtain ⟨rest, hokTail⟩ := (BeaconOverride.newBeaconTail_encode chn ts htorn hroom).1
      ⟨hsuits.ends, hsuits.fits⟩
    rw [beaconFor, if_pos rfl, hok, hokTail]
    dsimp only
    rw [hout rfl, override_head h, List.take_left]
    rfl

/-- The copies stay inside the buffers and the message is as it should be, with all its bytes
written, exactly under the conditions. -/
theorem start_ap_iff {valid : Bool} {chn : BitVec 16} {es ts : List Element}
    {torn newHead newTail : List Byte} (h : Prescribed hidden fixed e ssid) (htorn : Torn torn)
    (hhead : newHead.length = (fixed ++ encode (e :: es)).length + ROOM)
    (htail : newTail.length = (encode ts ++ torn).length + ROOM) :
    Starts valid chn hidden fixed e es ts torn newHead newTail ssid ↔
      AllFine valid chn hidden e es ts torn ssid := by
  have hheadIff := @BeaconOverride.newBeaconHead_iff fixed newHead [] chn (e :: es) h.fixed
    True.intro (by rw [List.append_nil]; exact hhead)
  rw [List.append_nil] at hheadIff
  have htailIff := BeaconOverride.newBeaconTail_iff chn ts htorn htail
  constructor
  · intro hstarts
    have hbeacon := beaconFor_eq h htorn htail hstarts.head
      fun hvalid => htailIff.mp (hstarts.tail hvalid)
    exact ⟨fun hvalid => hheadIff.mp (hstarts.head hvalid),
      fun hvalid => htailIff.mp (hstarts.tail hvalid), (startAp_iff h hbeacon).mp hstarts.message⟩
  · intro hfine
    have hoverrides := fun hvalid => hheadIff.mpr (hfine.head hvalid)
    have hbeacon := beaconFor_eq h htorn htail hoverrides hfine.tail
    exact ⟨hoverrides, fun hvalid => htailIff.mpr (hfine.tail hvalid),
      (startAp_iff h hbeacon).mpr hfine.message⟩

/-- The head of a hidden SSID with a channel, the tail of one byte, both with channel 6 in them. -/
theorem start_ap_iff_zero_len :
    Starts true 6 .zeroLen (List.replicate 36 0) ⟨WLAN_EID_SSID, [], by decide⟩
      [⟨BeaconOverride.WLAN_EID_DS_PARAMS, [1], by decide⟩] [] [5] (List.replicate 73 0)
      (List.replicate 33 0) [97] := by
  refine (start_ap_iff ⟨rfl, rfl, rfl, by decide⟩ (show Torn [5] from True.intro) (by decide)
    (by decide)).mpr
    ⟨fun _ => ⟨by decide, True.intro, fun _ e he hbody => ?_⟩,
      fun _ => ⟨Nat.le_succ 1, by decide, fun hnil => absurd hnil (by decide)⟩,
      ⟨fun h => (by cases h), by decide, by decide⟩⟩
  obtain rfl := Option.some.inj he
  cases hbody

/-- A head with an SSID element of these contents. -/
def headOf (body : List Byte) (h : body.length < 256) : List Byte :=
  List.replicate 36 0 ++ encode [⟨WLAN_EID_SSID, body, h⟩]

/-- The zero of a hidden SSID `a` is copied as well. -/
theorem zero_contents_copied :
    startAp false 6 .zeroContents (headOf [0] (by decide)) [] [5] [] [97] ≠
      .ok ⟨BitVec.ofNat 16 (expected .zeroContents (List.replicate 36 0) [] [5] [97]).length,
        (expected .zeroContents (List.replicate 36 0) [] [5] [97]).map some⟩ := by
  decide

end Uwe5631.ApStart
