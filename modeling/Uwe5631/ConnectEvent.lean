import Mathlib.Data.BitVec
import Mathlib.Data.List.GetD

/-!
# The event of a connection

`sprdwl_event_connect` cuts the fields of a connection from its buffer and hands pointers to them to
`sprdwl_report_connection`.
-/
namespace Uwe5631.ConnectEvent

abbrev Byte := BitVec 8

abbrev ETH_ALEN : ℕ := 6

def SPRDWL_CONNECT_SUCCESS : Byte := 0
def SPRDWL_ROAM_SUCCESS : Byte := 2

/-- `struct sprdwl_connect_info`; a pointer is a place in the buffer, `none` is `NULL`. -/
structure ConnectInfo where
  status : Byte
  bssid : Option ℕ
  channel : Byte
  signal : Byte
  reqIe : Option ℕ
  reqIeLen : ℕ
  respIe : Option ℕ
  respIeLen : ℕ
  beaIe : Option ℕ
  beaIeLen : ℕ
  deriving DecidableEq, Repr

/-- `memset(&conn_info, 0, sizeof(conn_info))` -/
def ConnectInfo.zero : ConnectInfo := ⟨0, none, 0, 0, none, 0, none, 0, none, 0⟩

inductive Fault where
  | outOfBounds
  deriving DecidableEq, Repr

def read8 (data : List Byte) (pos : ℕ) : Except Fault Byte :=
  match data[pos]? with
  | some b => .ok b
  | none => .error .outOfBounds

/-- Two bytes, the low one first. -/
def read16 (data : List Byte) (pos : ℕ) : Except Fault ℕ :=
  (read8 data pos).bind fun lo => (read8 data (pos + 1)).map fun hi => lo.toNat + 256 * hi.toNat

/-- `parse BEA IE` -/
def parseBea (data : List Byte) (info : ConnectInfo) (pos : ℕ) (left : ℤ) :
    Except Fault ConnectInfo :=
  if left < 0 then .ok info
  else (read16 data pos).map fun len => { info with beaIeLen := len, beaIe := some (pos + 2) }

/-- `parse RESP IE` -/
def parseResp (data : List Byte) (info : ConnectInfo) (pos : ℕ) (left : ℤ) :
    Except Fault ConnectInfo :=
  if left < 0 then .ok info
  else (read16 data pos).bind fun len =>
    parseBea data { info with respIeLen := len, respIe := some (pos + 2) } (pos + 2 + len)
      (left - 2 - len)

/-- `parse REQ IE` -/
def parseReq (data : List Byte) (info : ConnectInfo) (pos : ℕ) (left : ℤ) :
    Except Fault ConnectInfo :=
  if left < 0 then .ok info
  else (read16 data pos).bind fun len =>
    parseResp data { info with reqIeLen := len, reqIe := some (pos + 2) } (pos + 2 + len)
      (left - 2 - len)

/-- `get signal` -/
def getSignal (data : List Byte) (info : ConnectInfo) (pos : ℕ) (left : ℤ) :
    Except Fault ConnectInfo :=
  if left < 1 then .ok info
  else (read8 data pos).bind fun b => parseReq data { info with signal := b } (pos + 1) (left - 1)

/-- `get channel` -/
def getChannel (data : List Byte) (info : ConnectInfo) (pos : ℕ) (left : ℤ) :
    Except Fault ConnectInfo :=
  if left < 1 then .ok info
  else (read8 data pos).bind fun b => getSignal data { info with channel := b } (pos + 1) (left - 1)

/-- `parse BSSID` -/
def parseBssid (data : List Byte) (info : ConnectInfo) (pos : ℕ) (left : ℤ) :
    Except Fault ConnectInfo :=
  if left < ETH_ALEN then .ok info
  else getChannel data { info with bssid := some pos } (pos + ETH_ALEN) (left - ETH_ALEN)

/-- `sprdwl_event_connect`: the information and the status code that it reports. -/
def eventConnect (data : List Byte) : Except Fault (ConnectInfo × Byte) :=
  (read8 data 0).bind fun status =>
    if status ≠ SPRDWL_CONNECT_SUCCESS ∧ status ≠ SPRDWL_ROAM_SUCCESS then
      (read8 data 2).map fun code => ({ ConnectInfo.zero with status := status }, code)
    else (parseBssid data { ConnectInfo.zero with status := status } 1 (data.length - 1)).map
      fun info => (info, 0)

/-! ## What is handed to `sprdwl_report_connection` -/

/-- The pointers with the lengths of what is behind them. -/
def ConnectInfo.pairs (info : ConnectInfo) : List (Option ℕ × ℕ) :=
  [(info.bssid, if info.bssid = none then 0 else ETH_ALEN), (info.reqIe, info.reqIeLen),
    (info.respIe, info.respIeLen), (info.beaIe, info.beaIeLen)]

/-- A piece of the buffer, or an empty one. -/
def Inside (data : List Byte) (pair : Option ℕ × ℕ) : Prop :=
  pair.2 = 0 ∨ ∃ pos, pair.1 = some pos ∧ pos + pair.2 ≤ data.length

def le16 (n : ℕ) : List Byte := [BitVec.ofNat 8 n, BitVec.ofNat 8 (n / 256)]

/-- The event of a connection, with its parts. -/
def encode (status : Byte) (bssid : List Byte) (channel signal : Byte) (req resp bea : List Byte) :
    List Byte :=
  status :: bssid ++ channel :: signal :: le16 req.length ++ req ++ le16 resp.length ++ resp ++
    le16 bea.length ++ bea

/-- The bytes a pointer and a length stand for. -/
def content (data : List Byte) (pos : Option ℕ) (len : ℕ) : List Byte :=
  match pos with
  | none => []
  | some pos => (data.drop pos).take len

/-- A well-formed success event is reported with the parts it encodes. -/
def Reports (data : List Byte) : Prop :=
  ∀ status bssid channel signal req resp bea,
    status = SPRDWL_CONNECT_SUCCESS ∨ status = SPRDWL_ROAM_SUCCESS → bssid.length = ETH_ALEN →
    req.length < 65536 → resp.length < 65536 → bea.length < 65536 →
    data = encode status bssid channel signal req resp bea →
    ∃ info, eventConnect data = .ok (info, 0) ∧ info.status = status ∧
      content data info.bssid ETH_ALEN = bssid ∧ info.channel = channel ∧ info.signal = signal ∧
      content data info.reqIe info.reqIeLen = req ∧
      content data info.respIe info.respIeLen = resp ∧ content data info.beaIe info.beaIeLen = bea

/-- Two bytes of a buffer, 0 behind its end. -/
def word (data : List Byte) (pos : ℕ) : ℕ :=
  (data.getD pos 0).toNat + 256 * (data.getD (pos + 1) 0).toNat

/-- The places of the lengths of the elements. -/
def respAt (data : List Byte) : ℕ := 11 + word data 9
def beaAt (data : List Byte) : ℕ := respAt data + 2 + word data (respAt data)

/-- A failure has a status code; a success ends before the length of its request elements or has room
for all three lengths and what they announce. -/
def Covered (data : List Byte) : Prop :=
  if data.head? = some SPRDWL_CONNECT_SUCCESS ∨ data.head? = some SPRDWL_ROAM_SUCCESS then
    data.length ≤ 8 ∨ beaAt data + 2 + word data (beaAt data) ≤ data.length
  else 3 ≤ data.length

instance (data : List Byte) : Decidable (Covered data) := by
  unfold Covered
  infer_instance

theorem read8_of_lt {data : List Byte} {pos : ℕ} (h : pos < data.length) :
    read8 data pos = .ok (data.getD pos 0) := by
  rw [read8, List.getElem?_eq_getElem h, List.getD_eq_getElem _ _ h]

theorem read8_of_le {data : List Byte} {pos : ℕ} (h : data.length ≤ pos) :
    read8 data pos = .error .outOfBounds := by
  rw [read8, List.getElem?_eq_none h]

theorem read16_of_lt {data : List Byte} {pos : ℕ} (h : pos + 1 < data.length) :
    read16 data pos = .ok (word data pos) := by
  rw [read16, read8_of_lt (Nat.lt_of_succ_lt h), read8_of_lt h]
  rfl

theorem read16_of_le {data : List Byte} {pos : ℕ} (h : data.length ≤ pos + 1) :
    read16 data pos = .error .outOfBounds := by
  rw [read16]
  rcases Nat.lt_or_ge pos data.length with hlt | hge
  · rw [read8_of_lt hlt, Except.bind, read8_of_le h]
    rfl
  · rw [read8_of_le hge]
    rfl

/-- The run stays inside the buffer, and so does what it reports. -/
def Safe (data : List Byte) (r : Except Fault ConnectInfo) : Prop :=
  ∃ info, r = .ok info ∧ ∀ pair ∈ info.pairs, Inside data pair

/-- What has been cut before the last element. -/
def Cut (data : List Byte) (info : ConnectInfo) : Prop := ∀ pair ∈ info.pairs, Inside data pair

theorem cut_iff (data : List Byte) (info : ConnectInfo) : Cut data info ↔
    (Inside data (info.bssid, if info.bssid = none then 0 else ETH_ALEN) ∧
      Inside data (info.reqIe, info.reqIeLen) ∧ Inside data (info.respIe, info.respIeLen) ∧
      Inside data (info.beaIe, info.beaIeLen)) := by
  simp [Cut, ConnectInfo.pairs]

theorem safe_ok_iff {data : List Byte} {info : ConnectInfo} :
    Safe data (.ok info) ↔ Cut data info := by
  constructor
  · rintro ⟨info', hok, h⟩
    cases hok
    exact h
  · exact fun h => ⟨info, rfl, h⟩

theorem not_safe_error {data : List Byte} {e : Fault} : ¬ Safe data (.error e) := by
  rintro ⟨info, h, _⟩
  cases h

/-- A piece that is announced behind its length. -/
theorem inside_some_iff {data : List Byte} {pos len : ℕ} (h : pos ≤ data.length) :
    Inside data (some pos, len) ↔ pos + len ≤ data.length := by
  constructor
  · rintro (hzero | ⟨pos', heq, hle⟩)
    · have hzero : len = 0 := hzero
      omega
    · cases heq
      exact hle
  · exact fun hle => .inr ⟨pos, rfl, hle⟩

variable {data : List Byte} {info : ConnectInfo} {pos : ℕ} {left : ℤ}

theorem parseBea_safe_iff (hleft : left = data.length - pos) (hpos : pos ≤ data.length)
    (hcut : Cut data info) :
    Safe data (parseBea data info pos left) ↔ pos + 2 + word data pos ≤ data.length := by
  rw [parseBea, if_neg (by omega)]
  rcases Nat.lt_or_ge (pos + 1) data.length with hlt | hge
  · rw [read16_of_lt hlt, Except.map, safe_ok_iff, cut_iff]
    rw [cut_iff] at hcut
    rw [inside_some_iff (by omega)]
    exact ⟨fun h => h.2.2.2, fun h => ⟨hcut.1, hcut.2.1, hcut.2.2.1, h⟩⟩
  · rw [read16_of_le hge, Except.map]
    exact ⟨fun h => absurd h not_safe_error, fun h => by omega⟩

theorem parseResp_safe_iff (hleft : left = data.length - pos) (hpos : pos ≤ data.length)
    (hcut : Cut data info) :
    Safe data (parseResp data info pos left) ↔
      pos + 2 + word data pos + 2 + word data (pos + 2 + word data pos) ≤ data.length := by
  rw [parseResp, if_neg (by omega)]
  rcases Nat.lt_or_ge (pos + 1) data.length with hlt | hge
  · rw [read16_of_lt hlt, Except.bind]
    rw [cut_iff] at hcut
    rcases Nat.lt_or_ge data.length (pos + 2 + word data pos) with hlong | hfits
    · rw [parseBea, if_pos (by omega), safe_ok_iff, cut_iff,
        inside_some_iff (show pos + 2 ≤ data.length by omega)]
      exact ⟨fun h => absurd h.2.2.1 (Nat.not_le.mpr hlong), fun h => by omega⟩
    · refine parseBea_safe_iff (by omega) hfits ((cut_iff _ _).mpr ?_)
      exact ⟨hcut.1, hcut.2.1, (inside_some_iff (by omega)).mpr hfits, hcut.2.2.2⟩
  · rw [read16_of_le hge, Except.bind]
    exact ⟨fun h => absurd h not_safe_error, fun h => by omega⟩

theorem parseReq_safe_iff (hleft : left = data.length - pos) (hpos : pos ≤ data.length)
    (hcut : Cut data info) :
    Safe data (parseReq data info pos left) ↔
      pos + 2 + word data pos + 2 + word data (pos + 2 + word data pos) + 2 +
        word data (pos + 2 + word data pos + 2 + word data (pos + 2 + word data pos)) ≤
          data.length := by
  rw [parseReq, if_neg (by omega)]
  rcases Nat.lt_or_ge (pos + 1) data.length with hlt | hge
  · rw [read16_of_lt hlt, Except.bind]
    rw [cut_iff] at hcut
    rcases Nat.lt_or_ge data.length (pos + 2 + word data pos) with hlong | hfits
    · rw [parseResp, if_pos (by omega), safe_ok_iff, cut_iff,
        inside_some_iff (show pos + 2 ≤ data.length by omega)]
      exact ⟨fun h => absurd h.2.1 (Nat.not_le.mpr hlong), fun h => by omega⟩
    · refine parseResp_safe_iff (by omega) hfits ((cut_iff _ _).mpr ?_)
      exact ⟨hcut.1, (inside_some_iff (by omega)).mpr hfits, hcut.2.2.1, hcut.2.2.2⟩
  · rw [read16_of_le hge, Except.bind]
    exact ⟨fun h => absurd h not_safe_error, fun h => by omega⟩

/-- What `memset` leaves, with the status, hands over nothing. -/
theorem cut_zero (data : List Byte) (status : Byte) :
    Cut data { ConnectInfo.zero with status := status } :=
  (cut_iff _ _).mpr ⟨.inl rfl, .inl rfl, .inl rfl, .inl rfl⟩

theorem parseBssid_safe_iff (status : Byte) (hpos : 1 ≤ data.length) :
    Safe data (parseBssid data { ConnectInfo.zero with status := status } 1 (data.length - 1)) ↔
      data.length ≤ 8 ∨ beaAt data + 2 + word data (beaAt data) ≤ data.length := by
  have hzero := cut_zero data status
  have halen : ETH_ALEN = 6 := rfl
  rw [parseBssid]
  rcases Nat.lt_or_ge data.length 7 with hshort | hbssid
  · rw [if_pos (by omega), safe_ok_iff]
    exact ⟨fun _ => .inl (by omega), fun _ => hzero⟩
  · have hcut : ∀ channel signal, Cut data { ConnectInfo.zero with
        status := status, bssid := some 1, channel := channel, signal := signal } := by
      intro channel signal
      rw [cut_iff] at hzero ⊢
      exact ⟨.inr ⟨1, rfl, hbssid⟩, .inl rfl, .inl rfl, .inl rfl⟩
    rw [if_neg (by omega), getChannel]
    rcases Nat.lt_or_ge data.length 8 with hshort | hchannel
    · rw [if_pos (by omega), safe_ok_iff]
      exact ⟨fun _ => .inl (by omega), fun _ => hcut 0 0⟩
    · rw [if_neg (by omega), read8_of_lt (by omega), Except.bind, getSignal]
      rcases Nat.lt_or_ge data.length 9 with hshort | hsignal
      · rw [if_pos (by omega), safe_ok_iff]
        exact ⟨fun _ => .inl (by omega), fun _ => hcut _ 0⟩
      · rw [if_neg (by omega), read8_of_lt (by omega), Except.bind,
          parseReq_safe_iff (by push_cast; omega) (by omega) (hcut _ _)]
        exact ⟨.inr, fun h => h.resolve_left (by omega)⟩

/-- The run and what it hands over stay inside the buffer if what the lengths announce lies in it. -/
theorem eventConnect_safe_iff (data : List Byte) :
    (∃ info code, eventConnect data = .ok (info, code) ∧ ∀ pair ∈ info.pairs, Inside data pair) ↔
      Covered data := by
  cases data with
  | nil => exact ⟨fun ⟨_, _, h, _⟩ => (by cases h), fun h => absurd h (by decide)⟩
  | cons status rest =>
    have hstatus : read8 (status :: rest) 0 = .ok status := rfl
    rw [eventConnect, hstatus, Except.bind, Covered, List.head?_cons]
    by_cases hhead : some status = some SPRDWL_CONNECT_SUCCESS ∨ some status = some SPRDWL_ROAM_SUCCESS
    · have hsuccess : status = SPRDWL_CONNECT_SUCCESS ∨ status = SPRDWL_ROAM_SUCCESS :=
        hhead.imp Option.some.inj Option.some.inj
      have hno : ¬ (status ≠ SPRDWL_CONNECT_SUCCESS ∧ status ≠ SPRDWL_ROAM_SUCCESS) :=
        fun h => hsuccess.elim h.1 h.2
      rw [if_neg hno, if_pos hhead,
        ← parseBssid_safe_iff status (show 1 ≤ (status :: rest).length from Nat.succ_pos _)]
      cases parseBssid (status :: rest) { ConnectInfo.zero with status := status } 1
        ((status :: rest).length - 1) with
      | error e => exact ⟨fun ⟨_, _, h, _⟩ => (by cases h), fun ⟨_, h, _⟩ => (by cases h)⟩
      | ok info =>
        constructor
        · rintro ⟨info', code, h, hinside⟩
          cases h
          exact ⟨info, rfl, hinside⟩
        · rintro ⟨info', h, hinside⟩
          cases h
          exact ⟨info, 0, rfl, hinside⟩
    · have hyes : status ≠ SPRDWL_CONNECT_SUCCESS ∧ status ≠ SPRDWL_ROAM_SUCCESS :=
        ⟨fun h => hhead (.inl (congrArg some h)), fun h => hhead (.inr (congrArg some h))⟩
      rw [if_pos hyes, if_neg hhead]
      rcases Nat.lt_or_ge 2 (status :: rest).length with hlt | hge
      · rw [read8_of_lt hlt]
        exact ⟨fun _ => hlt, fun _ => ⟨_, _, rfl, cut_zero _ status⟩⟩
      · rw [read8_of_le hge]
        exact ⟨fun ⟨_, _, h, _⟩ => (by cases h), fun h => by omega⟩

/-! ## Well-formed events -/

theorem read8_append {front later : List Byte} {b : Byte} (hpos : pos = front.length) :
    read8 (front ++ b :: later) pos = .ok b := by
  rw [read8, hpos, List.getElem?_append_right (Nat.le_refl _), Nat.sub_self]
  rfl

theorem read16_append {front later : List Byte} {n : ℕ} (hpos : pos = front.length) (hn : n < 65536) :
    read16 (front ++ (le16 n ++ later)) pos = .ok n := by
  have hhigh : front ++ (le16 n ++ later) =
      (front ++ [BitVec.ofNat 8 n]) ++ BitVec.ofNat 8 (n / 256) :: later := by simp [le16]
  have hlow : read8 (front ++ (le16 n ++ later)) pos = .ok (BitVec.ofNat 8 n) := read8_append hpos
  rw [read16, hlow, Except.bind, hhigh,
    read8_append (by rw [hpos, List.length_append, List.length_singleton])]
  refine congrArg Except.ok ?_
  dsimp only
  rw [BitVec.toNat_ofNat, BitVec.toNat_ofNat]
  omega

theorem content_append {front xs later : List Byte} (hpos : pos = front.length) :
    content (front ++ (xs ++ later)) (some pos) xs.length = xs := by
  rw [content, hpos, List.drop_left, List.take_left]

/-- An element behind its length. -/
theorem content_le16 {front xs later : List Byte} (hpos : pos = front.length) :
    content (front ++ (le16 xs.length ++ (xs ++ later))) (some (pos + 2)) xs.length = xs := by
  rw [← List.append_assoc]
  exact content_append (by rw [List.length_append, hpos]; rfl)

/-- The elements are reported with their contents. -/
theorem parseReq_encode (info : ConnectInfo) (left : ℤ) {front req resp bea : List Byte}
    (hpos : pos = front.length) (hreq : req.length < 65536) (hresp : resp.length < 65536) (hbea : bea.length < 65536)
    (hdata : data = front ++ (le16 req.length ++ (req ++ (le16 resp.length ++ (resp ++
      (le16 bea.length ++ bea)))))) (hleft : left = data.length - pos) :
    ∃ info', parseReq data info pos left = .ok info' ∧ info'.status = info.status ∧
      info'.bssid = info.bssid ∧ info'.channel = info.channel ∧ info'.signal = info.signal ∧
      content data info'.reqIe info'.reqIeLen = req ∧
      content data info'.respIe info'.respIeLen = resp ∧
      content data info'.beaIe info'.beaIeLen = bea := by
  have hlen : data.length = pos + 2 + req.length + 2 + resp.length + 2 + bea.length := by
    rw [hdata, hpos]
    simp only [List.length_append, le16, List.length_cons, List.length_nil]
    omega
  -- the buffer up to the length of each element
  have hsecond : data = (front ++ le16 req.length ++ req) ++ (le16 resp.length ++ (resp ++
      (le16 bea.length ++ bea))) := by rw [hdata]; simp only [List.append_assoc]
  have hthird : data = (front ++ le16 req.length ++ req ++ le16 resp.length ++ resp) ++
      (le16 bea.length ++ (bea ++ [])) := by rw [hdata]; simp only [List.append_assoc, List.append_nil]
  have hposSecond : pos + 2 + req.length = (front ++ le16 req.length ++ req).length := by
    simp only [List.length_append, hpos]
    rfl
  have hposThird : pos + 2 + req.length + 2 + resp.length =
      (front ++ le16 req.length ++ req ++ le16 resp.length ++ resp).length := by
    rw [List.length_append, List.length_append, ← hposSecond]
    rfl
  have hreadReq : read16 data pos = .ok req.length := hdata ▸ read16_append hpos hreq
  have hreadResp : read16 data (pos + 2 + req.length) = .ok resp.length := by
    rw [hsecond]
    exact read16_append hposSecond hresp
  have hreadBea : read16 data (pos + 2 + req.length + 2 + resp.length) = .ok bea.length := by
    rw [hthird]
    exact read16_append hposThird hbea
  rw [parseReq, if_neg (by omega), hreadReq, Except.bind, parseResp, if_neg (by omega), hreadResp,
    Except.bind, parseBea, if_neg (by omega), hreadBea]
  refine ⟨_, rfl, rfl, rfl, rfl, rfl, ?_, ?_, ?_⟩
  · rw [hdata]
    exact content_le16 hpos
  · rw [hsecond]
    exact content_le16 hposSecond
  · rw [hthird]
    exact content_le16 hposThird

theorem reports (data : List Byte) : Reports data := by
  intro status bssid channel signal req resp bea hsuccess hbssid hreq hresp hbea hdata
  have halen : ETH_ALEN = 6 := rfl
  have hno : ¬ (status ≠ SPRDWL_CONNECT_SUCCESS ∧ status ≠ SPRDWL_ROAM_SUCCESS) :=
    fun h => hsuccess.elim h.1 h.2
  have hfront : data = (status :: bssid ++ [channel, signal]) ++ (le16 req.length ++ (req ++
      (le16 resp.length ++ (resp ++ (le16 bea.length ++ bea))))) := by
    rw [hdata, encode]
    simp
  have hpos : 1 + ETH_ALEN + 1 + 1 = (status :: bssid ++ [channel, signal]).length := by
    simp only [List.length_append, List.length_cons, List.length_nil, hbssid]
    omega
  have hlen : 9 ≤ data.length := by
    rw [hfront, List.length_append, ← hpos]
    omega
  have hstatus : read8 data 0 = .ok status := by rw [hdata]; rfl
  have hchannel : read8 data (1 + ETH_ALEN) = .ok channel := by
    have hsplit : data = (status :: bssid) ++ channel :: (signal :: (le16 req.length ++ (req ++
        (le16 resp.length ++ (resp ++ (le16 bea.length ++ bea)))))) := by rw [hfront]; simp
    rw [hsplit]
    exact read8_append (by rw [List.length_cons, hbssid, Nat.add_comm])
  have hsignal : read8 data (1 + ETH_ALEN + 1) = .ok signal := by
    have hsplit : data = (status :: bssid ++ [channel]) ++ signal :: (le16 req.length ++ (req ++
        (le16 resp.length ++ (resp ++ (le16 bea.length ++ bea))))) := by rw [hfront]; simp
    rw [hsplit]
    exact read8_append (by simp [hbssid]; omega)
  obtain ⟨info, hrun, hstatus', hbssid', hchannel', hsignal', helements⟩ := parseReq_encode
    { ConnectInfo.zero with status := status, bssid := some 1, channel := channel, signal := signal }
    ((data.length : ℤ) - 1 - ETH_ALEN - 1 - 1) hpos hreq hresp hbea hfront
    (by push_cast; omega)
  have hcontent : content data info.bssid ETH_ALEN = bssid := by
    have hsplit : data = [status] ++ (bssid ++ (channel :: signal :: (le16 req.length ++ (req ++
        (le16 resp.length ++ (resp ++ (le16 bea.length ++ bea))))))) := by rw [hfront]; simp
    rw [hbssid', hsplit, ← hbssid]
    exact content_append rfl
  refine ⟨info, ?_, hstatus', hcontent, hchannel', hsignal', helements⟩
  rw [eventConnect, hstatus, Except.bind, if_neg hno, parseBssid, if_neg (by omega), getChannel,
    if_neg (by omega), hchannel, Except.bind, getSignal, if_neg (by omega), hsignal, Except.bind, hrun]
  rfl

/-- `sprdwl_event_connect` stays inside the event and reports what it says if and only if the lengths
in it announce no more than it has. -/
theorem eventConnect_iff (data : List Byte) :
    ((∃ info code, eventConnect data = .ok (info, code) ∧ ∀ pair ∈ info.pairs, Inside data pair) ∧
      Reports data) ↔ Covered data :=
  ⟨fun h => (eventConnect_safe_iff data).mp h.1,
    fun h => ⟨(eventConnect_safe_iff data).mpr h, reports data⟩⟩

/-- Request elements of 255 bytes announced at the end of the event, and none there. -/
theorem request_overruns :
    ¬ ((∃ info code, eventConnect [0, 1, 2, 3, 4, 5, 6, 11, 0xC4, 255, 0] = .ok (info, code) ∧
      ∀ pair ∈ info.pairs, Inside [0, 1, 2, 3, 4, 5, 6, 11, 0xC4, 255, 0] pair) ∧
      Reports [0, 1, 2, 3, 4, 5, 6, 11, 0xC4, 255, 0]) := by
  rintro ⟨hsafe, -⟩
  exact absurd ((eventConnect_safe_iff _).mp hsafe) (by decide)

end Uwe5631.ConnectEvent
