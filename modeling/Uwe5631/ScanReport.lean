import Uwe5631.ElementLists
import Mathlib

/-!
# The elements of a scan result

`sprdwl_report_scan_result` hands the elements of a frame on; before that it fills in the SSID of the
connected BSS, and after it a probe of a false BSS is built from them.
-/
namespace Uwe5631.ScanReport
open Elements

abbrev SPRDWL_MAX_IE_LEN : ℕ := 500
abbrev IEEE80211_MAX_SSID_LEN : ℕ := 32
abbrev WLAN_EID_SSID : Byte := 0

/-- `offsetof(struct ieee80211_mgmt, u.probe_resp.variable)` -/
abbrev VARIABLE : ℕ := 36

inductive Fault
  | readOutside
  | writeOutside
  deriving DecidableEq, Repr

/-- The bytes that `strncpy` writes for a count that is the length of its source. -/
def strncpy (src : List Byte) : List Byte :=
  src.takeWhile (· ≠ 0) ++ List.replicate (src.length - (src.takeWhile (· ≠ 0)).length) 0

theorem length_strncpy (src : List Byte) : (strncpy src).length = src.length := by
  have := (List.takeWhile_prefix (l := src) (fun b : Byte => decide (b ≠ 0))).length_le
  rw [strncpy, List.length_append, List.length_replicate]
  omega

/-- The first `ssid_len` bytes of `ssid`, and what else is read of an interface. -/
structure Vif where
  connected : Bool
  bssid : List Byte
  ssid : List Byte
  localMacFlag : Bool

/-- The static variables of `sprdwl_report_fake_probe`; `ie` are the first `fake_ielen` bytes. -/
structure Fake where
  localMacInd : Bool
  flushCount : ℕ
  ie : List Byte
  deriving DecidableEq

/-- `"&%^#!%&&?@#$&@3iU@Code1"` -/
def fakeSsid : List Byte :=
  [0x26, 0x25, 0x5e, 0x23, 0x21, 0x25, 0x26, 0x26, 0x3f, 0x40, 0x23, 0x24, 0x26, 0x40, 0x33, 0x69,
    0x55, 0x40, 0x43, 0x6f, 0x64, 0x65, 0x31]

def fakeElement : Element := ⟨WLAN_EID_SSID, fakeSsid, by decide⟩

/-- The two memory copies, after the element pointer has moved. -/
def buildFake (ie : List Byte) : Except Fault (List Byte) :=
  match ie[1]? with
  | none => .error .readOutside
  | some n =>
    match ie[n.toNat + 2 + 1]? with
    | none => .error .readOutside
    | some n' =>
      let ielen := (BitVec.ofNat 64 ie.length - n'.setWidth 64 - 2).toNat
      if ie.length < n.toNat + 2 + ielen then .error .readOutside
      else if SPRDWL_MAX_IE_LEN < 2 + fakeSsid.length + ielen then .error .writeOutside
      else .ok (fakeElement.bytes ++ (ie.drop (n.toNat + 2)).take ielen)

/-- What the false probe hands on. -/
def Fake.flush (f : Fake) : Fake × Option (List Byte) :=
  ({ f with flushCount := f.flushCount + 1 }, if f.flushCount % 5 = 0 then some f.ie else none)

def reportFakeProbe (f : Fake) (ie : List Byte) : Except Fault (Fake × Option (List Byte)) :=
  if f.localMacInd = false then
    if ie.length + IEEE80211_MAX_SSID_LEN < SPRDWL_MAX_IE_LEN then
      (buildFake ie).map fun fakeIe => { f with localMacInd := true, ie := fakeIe }.flush
    else .ok (f, none)
  else .ok f.flush

variable (findIe : List Byte → Option ℕ)

/-- The SSID of the connected BSS, in the place of a hidden one; `findIe` is `cfg80211_find_ie` for an
SSID element, an offset. -/
def coverSsid (ssid ie : List Byte) : Except Fault (List Byte) :=
  match findIe ie with
  | none => .ok ie
  | some k =>
    match ie[k + 1]? with
    | none => .error .readOutside
    | some n =>
      if n = 0 then .ok ie
      else if ie.length < k + 2 + n.toNat then .error .readOutside
      else if (∀ b ∈ (ie.drop (k + 2)).take n.toNat, b = 0) ∧ ssid.length = n.toNat then
        .ok (ie.take (k + 2) ++ (strncpy ssid ++ ie.drop (k + 2 + n.toNat)))
      else .ok ie

/-- The frame afterwards, the element range that is handed on, and the false probe. -/
structure Outcome where
  frame : List Byte
  informed : Option (ℕ × ℕ)
  fake : Fake
  probe : Option (List Byte)
  deriving DecidableEq

def Connected (vif : Vif) (frame : List Byte) : Prop :=
  vif.connected = true ∧ vif.bssid = (frame.drop 16).take 6

instance (vif : Vif) (frame : List Byte) : Decidable (Connected vif frame) :=
  inferInstanceAs (Decidable (_ ∧ _))

/-- The elements of the frame, with the SSID filled in for the BSS of the connection. -/
def fillSsid (vif : Vif) (frame : List Byte) : Except Fault (List Byte) :=
  if Connected vif frame then coverSsid findIe vif.ssid (frame.drop VARIABLE)
  else .ok (frame.drop VARIABLE)

/-- The probe, for an interface that asks for it. -/
def probeFor (vif : Vif) (fake : Fake) (ie : List Byte) : Except Fault (Fake × Option (List Byte)) :=
  if vif.localMacFlag = true then reportFakeProbe fake ie else .ok (fake, none)

/-- `accepted` says that a scan is going on, the channel is known and there is a frame. -/
def reportScanResult (vif : Vif) (fake : Fake) (accepted : Bool) (frame : List Byte) :
    Except Fault Outcome :=
  if accepted = false then .ok ⟨frame, none, fake, none⟩
  else if frame.length < VARIABLE then .error .readOutside
  else do
    let ie ← fillSsid findIe vif frame
    let p ← probeFor vif fake ie
    .ok ⟨frame.take VARIABLE ++ ie, some (VARIABLE, frame.length - VARIABLE), p.1, p.2⟩

/-! ## What should come of it -/

/-- The element of a hidden SSID takes one of the same length. -/
def setSsid (ssid : List Byte) (e : Element) : Element :=
  if h : (∀ b ∈ e.body, b = 0) ∧ ssid.length = e.body.length then
    ⟨e.id, ssid, h.2 ▸ e.short⟩
  else e

def cover (ssid : List Byte) : List Element → List Element
  | [] => []
  | e :: es => if e.id = WLAN_EID_SSID then setSsid ssid e :: es else e :: cover ssid es

def ssidOffset : List Element → Option ℕ
  | [] => none
  | e :: es => if e.id = WLAN_EID_SSID then some 0 else (ssidOffset es).map (e.bytes.length + ·)

/-- What is documented of `cfg80211_find_ie`: it finds the first element. -/
def Finds : Prop := ∀ es rest, Torn rest → findIe (encode es ++ rest) = ssidOffset es

/-- The elements that are to be handed on. -/
def handed (vif : Vif) (frame : List Byte) (es : List Element) : List Element :=
  if Connected vif frame then cover vif.ssid es else es

/-- The false SSID and all but the first element. -/
def fakeElements (es : List Element) (rest : List Byte) : List Byte :=
  encode (fakeElement :: es.tail) ++ rest

/-- The probe is built from this frame. -/
def Builds (vif : Vif) (fake : Fake) (ie : List Byte) : Prop :=
  vif.localMacFlag = true ∧ fake.localMacInd = false ∧
    ie.length + IEEE80211_MAX_SSID_LEN < SPRDWL_MAX_IE_LEN

instance (vif : Vif) (fake : Fake) (ie : List Byte) : Decidable (Builds vif fake ie) :=
  inferInstanceAs (Decidable (_ ∧ _ ∧ _))

def expected (vif : Vif) (fake : Fake) (accepted : Bool) (frame : List Byte) (es : List Element)
    (rest : List Byte) : Outcome :=
  if accepted = false then ⟨frame, none, fake, none⟩
  else
    let ie := encode (handed vif frame es) ++ rest
    let probe := if vif.localMacFlag = true then
        if Builds vif fake ie then
          { fake with localMacInd := true, ie := fakeElements (handed vif frame es) rest }.flush
        else if fake.localMacInd = true then fake.flush else (fake, none)
      else (fake, none)
    ⟨frame.take VARIABLE ++ ie, some (VARIABLE, frame.length - VARIABLE), probe.1, probe.2⟩

/-- A string in C. -/
def Plain (ssid : List Byte) : Prop := ∀ b ∈ ssid.dropWhile (· ≠ 0), b = 0

instance : DecidablePred Plain := fun _ => inferInstanceAs (Decidable (∀ b ∈ List.dropWhile _ _, _))

/-- A frame has its fixed part; where the SSID is filled in it has no byte after a zero; and where the
probe is built, the second element is as long as the first. -/
structure Fine (vif : Vif) (fake : Fake) (frame : List Byte) (es : List Element)
    (rest : List Byte) : Prop where
  fixed : VARIABLE ≤ frame.length
  plain : Connected vif frame → ∀ e, es.find? (·.id = WLAN_EID_SSID) = some e →
    (∀ b ∈ e.body, b = 0) → vif.ssid.length = e.body.length → Plain vif.ssid
  second : Builds vif fake (frame.drop VARIABLE) →
    ∃ e es', es = e :: es' ∧ (encode es' ++ rest)[1]? = some e.len

/-! ## The SSID -/

theorem strncpy_eq_self {ssid : List Byte} : strncpy ssid = ssid ↔ Plain ssid := by
  have hsplit := List.takeWhile_append_dropWhile (p := fun b : Byte => decide (b ≠ 0)) (l := ssid)
  have hlength := congrArg List.length hsplit
  rw [List.length_append] at hlength
  have hcount : ssid.length - (ssid.takeWhile fun b => decide (b ≠ 0)).length =
      (ssid.dropWhile fun b => decide (b ≠ 0)).length := by omega
  rw [strncpy, Plain, hcount]
  constructor
  · intro h b hb
    have hzero := List.append_cancel_left (h.trans hsplit.symm)
    rw [← hzero] at hb
    exact List.eq_of_mem_replicate hb
  · intro h
    rw [← List.eq_replicate_of_mem h]
    exact hsplit

@[simp] theorem setSsid_id (ssid : List Byte) (e : Element) : (setSsid ssid e).id = e.id := by
  rw [setSsid]
  split <;> rfl

@[simp] theorem setSsid_length (ssid : List Byte) (e : Element) :
    (setSsid ssid e).body.length = e.body.length := by
  rw [setSsid]
  split
  · rename_i h
    exact h.2
  · rfl

theorem setSsid_len (ssid : List Byte) (e : Element) : (setSsid ssid e).len = e.len := by
  rw [Element.len, Element.len, setSsid_length]

theorem setSsid_bytes {ssid : List Byte} {e : Element}
    (h : (∀ b ∈ e.body, b = 0) ∧ ssid.length = e.body.length) :
    (setSsid ssid e).bytes = e.id :: e.len :: ssid := by
  rw [Element.bytes, setSsid_id, setSsid_len, setSsid, dif_pos h]

theorem setSsid_eq_self {ssid : List Byte} {e : Element}
    (h : ¬ ((∀ b ∈ e.body, b = 0) ∧ ssid.length = e.body.length)) : setSsid ssid e = e := by
  rw [setSsid, dif_neg h]

theorem setSsid_empty {ssid : List Byte} {e : Element} (hnil : e.body = []) :
    (setSsid ssid e).bytes = e.bytes := by
  by_cases h : (∀ b ∈ e.body, b = 0) ∧ ssid.length = e.body.length
  · have hssid : ssid = e.body := by
      rw [hnil, ← List.length_eq_zero_iff, h.2, hnil]
      rfl
    rw [setSsid_bytes h, hssid]
    rfl
  · rw [setSsid_eq_self h]

theorem cover_of_find (ssid : List Byte) {es : List Element}
    (h : es.find? (·.id = WLAN_EID_SSID) = none) : cover ssid es = es ∧ ssidOffset es = none := by
  induction es with
  | nil => exact ⟨rfl, rfl⟩
  | cons e es ih =>
    rw [List.find?_cons] at h
    by_cases he : e.id = WLAN_EID_SSID
    · simp [he] at h
    · simp only [he, decide_false] at h
      obtain ⟨hcover, hoffset⟩ := ih h
      rw [cover, ssidOffset, if_neg he, if_neg he, hcover, hoffset]
      exact ⟨rfl, rfl⟩

/-- The first SSID element and what is around it. -/
theorem cover_split {es : List Element} {e : Element}
    (h : es.find? (·.id = WLAN_EID_SSID) = some e) :
    ∃ before after, es = before ++ e :: after ∧ ssidOffset es = some (encode before).length ∧
      ∀ ssid, cover ssid es = before ++ setSsid ssid e :: after := by
  induction es with
  | nil => cases h
  | cons e' es ih =>
    rw [List.find?_cons] at h
    by_cases he : e'.id = WLAN_EID_SSID
    · simp only [he, decide_true] at h
      obtain rfl := Option.some.inj h
      refine ⟨[], es, rfl, ?_, fun ssid => ?_⟩
      · rw [ssidOffset, if_pos he]
        rfl
      · rw [cover, if_pos he]
        rfl
    · simp only [he, decide_false] at h
      obtain ⟨before, after, hes, hoffset, hcover⟩ := ih h
      refine ⟨e' :: before, after, by rw [hes]; rfl, ?_, fun ssid => ?_⟩
      · rw [ssidOffset, if_neg he, hoffset, length_encode_cons, Option.map_some,
          Element.length_bytes]
      · rw [cover, if_neg he, hcover ssid]
        rfl

variable {findIe}

theorem coverSsid_eq (hfind : Finds findIe) (ssid : List Byte) (es : List Element) {rest : List Byte}
    (htorn : Torn rest) :
    coverSsid findIe ssid (encode es ++ rest) = .ok (encode (cover (strncpy ssid) es) ++ rest) := by
  rw [coverSsid, hfind es rest htorn]
  cases h : es.find? (·.id = WLAN_EID_SSID) with
  | none =>
    obtain ⟨hcover, hoffset⟩ := cover_of_find (strncpy ssid) h
    rw [hoffset, hcover]
  | some e =>
    obtain ⟨before, after, hes, hoffset, hcover⟩ := cover_split h
    have hbytes : encode es ++ rest =
        encode before ++ (e.id :: e.len :: (e.body ++ (encode after ++ rest))) := by
      rw [hes, encode_append, List.append_assoc, encode_cons]
    have hlen : (encode es ++ rest)[(encode before).length + 1]? = some e.len := by
      rw [hbytes]
      simp
    have htake : (encode es ++ rest).take ((encode before).length + 2) =
        encode before ++ [e.id, e.len] := by
      rw [hbytes, List.take_length_add_append]
      rfl
    have hdrop : (encode es ++ rest).drop ((encode before).length + 2) =
        e.body ++ (encode after ++ rest) := by
      rw [hbytes, List.drop_length_add_append]
      rfl
    have hdrop' : (encode es ++ rest).drop ((encode before).length + 2 + e.body.length) =
        encode after ++ rest := by
      rw [← List.drop_drop, hdrop, List.drop_left]
    have hinside : ¬ (encode es ++ rest).length < (encode before).length + 2 + e.body.length := by
      rw [hbytes]
      simp only [List.length_append, List.length_cons]
      omega
    rw [hoffset]
    dsimp only
    rw [hlen]
    dsimp only
    have hcovered : encode (cover (strncpy ssid) es) ++ rest =
        encode before ++ ((setSsid (strncpy ssid) e).bytes ++ (encode after ++ rest)) := by
      rw [hcover, encode_append, List.append_assoc, encode_cons]
      rfl
    rw [Element.toNat_len, hdrop, List.take_left, if_neg hinside, htake, hdrop', hcovered]
    by_cases hzero : e.len = 0
    · have hnil : e.body = [] := by
        rw [← List.length_eq_zero_iff, ← Element.toNat_len, hzero]
        rfl
      rw [if_pos hzero, setSsid_empty hnil, hbytes]
      rfl
    rw [if_neg hzero]
    by_cases hset : (∀ b ∈ e.body, b = 0) ∧ ssid.length = e.body.length
    · rw [if_pos hset, setSsid_bytes (by rwa [length_strncpy]), List.append_assoc]
      rfl
    · rw [if_neg hset, setSsid_eq_self (by rwa [length_strncpy]), hbytes]
      rfl

/-- The two ways to fill in the SSID are the same if it is a string. -/
theorem encode_cover_iff (ssid : List Byte) (es : List Element) :
    encode (cover (strncpy ssid) es) = encode (cover ssid es) ↔
      ∀ e, es.find? (·.id = WLAN_EID_SSID) = some e → (∀ b ∈ e.body, b = 0) →
        ssid.length = e.body.length → Plain ssid := by
  cases h : es.find? (·.id = WLAN_EID_SSID) with
  | none =>
    rw [(cover_of_find _ h).1, (cover_of_find _ h).1]
    exact ⟨fun _ e he => (by cases he), fun _ => rfl⟩
  | some e =>
    obtain ⟨before, after, -, -, hcover⟩ := cover_split h
    rw [hcover, hcover, encode_append, encode_append, List.append_right_inj]
    by_cases hset : (∀ b ∈ e.body, b = 0) ∧ ssid.length = e.body.length
    · have hbytes : encode (setSsid ssid e :: after) = e.id :: e.len :: (ssid ++ encode after) := by
        rw [encode, List.flatMap_cons, setSsid_bytes hset]
        rfl
      have hbytes' : encode (setSsid (strncpy ssid) e :: after) =
          e.id :: e.len :: (strncpy ssid ++ encode after) := by
        rw [encode, List.flatMap_cons, setSsid_bytes (by rwa [length_strncpy])]
        rfl
      rw [hbytes, hbytes']
      constructor
      · rintro heq e' ⟨⟩ - -
        rw [← strncpy_eq_self]
        exact (List.append_inj (List.cons.inj (List.cons.inj heq).2).2 (length_strncpy ssid)).1
      · intro hplain
        rw [strncpy_eq_self.mpr (hplain e rfl hset.1 hset.2)]
    · rw [setSsid_eq_self hset, setSsid_eq_self (by rwa [length_strncpy])]
      refine ⟨?_, fun _ => rfl⟩
      rintro - e' ⟨⟩ hzero hlength
      exact absurd ⟨hzero, hlength⟩ hset

/-! ## The probe -/

/-- Without a whole element a length byte is missing. -/
theorem buildFake_torn {rest : List Byte} (htorn : Torn rest) (bs : List Byte) :
    buildFake rest ≠ .ok bs := by
  rw [buildFake]
  match rest with
  | [] => exact fun h => (by cases h)
  | [_] => exact fun h => (by cases h)
  | id :: n :: body =>
    have hshort : body.length < n.toNat := htorn
    have hnone : (id :: n :: body)[n.toNat + 2 + 1]? = none := by
      rw [List.getElem?_eq_none_iff, List.length_cons, List.length_cons]
      omega
    rw [show (id :: n :: body)[1]? = some n from rfl]
    dsimp only
    rw [hnone]
    exact fun h => (by cases h)

/-- The count that is copied, from the length byte of the second element. -/
def copied (e : Element) (behind : List Byte) (n : Byte) : ℕ :=
  (BitVec.ofNat 64 (e.body.length + 2 + behind.length) - n.setWidth 64 - 2).toNat

theorem buildFake_cons (e : Element) (behind : List Byte) :
    buildFake (e.bytes ++ behind) = match behind[1]? with
      | none => .error .readOutside
      | some n =>
        if behind.length < copied e behind n then .error .readOutside
        else if SPRDWL_MAX_IE_LEN < 25 + copied e behind n then .error .writeOutside
        else .ok (fakeElement.bytes ++ behind.take (copied e behind n)) := by
  have hlength : (e.bytes ++ behind).length = e.body.length + 2 + behind.length := by
    rw [List.length_append, Element.length_bytes]
  have hfirst : (e.bytes ++ behind)[1]? = some e.len := rfl
  have hdrop : (e.bytes ++ behind).drop (e.body.length + 2) = behind := by
    rw [Element.bytes, List.cons_append, List.cons_append, List.drop_succ_cons, List.drop_succ_cons,
      List.drop_left]
  have hsecond : (e.bytes ++ behind)[e.body.length + 2 + 1]? = behind[1]? := by
    rw [← List.getElem?_drop, hdrop]
  rw [buildFake, hfirst]
  dsimp only
  rw [Element.toNat_len, hsecond, hdrop, hlength]
  cases behind[1]? with
  | none => rfl
  | some n =>
    dsimp only
    rw [copied, show 2 + fakeSsid.length = 25 from rfl]
    simp only [Nat.add_lt_add_iff_left]

/-- All that stands behind the first element is copied if the two lengths are one, else not. -/
theorem copied_eq_iff {e : Element} {behind : List Byte} {n : Byte}
    (hfits : e.body.length + 2 + behind.length < SPRDWL_MAX_IE_LEN) :
    copied e behind n = behind.length ↔ n = e.len := by
  have hfits' : e.body.length + 2 + behind.length < 500 := hfits
  have hn := n.isLt
  have hlen : n = e.len ↔ n.toNat = e.body.length := by
    rw [← Element.toNat_len]
    exact BitVec.toNat_inj.symm
  rw [copied, BitVec.toNat_sub, BitVec.toNat_sub, BitVec.toNat_ofNat, BitVec.toNat_setWidth,
    show (2 : BitVec 64).toNat = 2 from rfl, hlen]
  omega

/-- The copy is the rest of the elements exactly if the second length is the first one. -/
theorem buildFake_iff {es : List Element} {rest : List Byte} (htorn : Torn rest)
    (hfits : (encode es ++ rest).length + IEEE80211_MAX_SSID_LEN < SPRDWL_MAX_IE_LEN) :
    buildFake (encode es ++ rest) = .ok (fakeElements es rest) ↔
      ∃ e es', es = e :: es' ∧ (encode es' ++ rest)[1]? = some e.len := by
  cases es with
  | nil =>
    rw [encode_nil, List.nil_append]
    refine ⟨fun h => absurd h (buildFake_torn htorn _), ?_⟩
    rintro ⟨e, es', hes, -⟩
    cases hes
  | cons e es =>
    have hexists : (∃ e' es', e :: es = e' :: es' ∧ (encode es' ++ rest)[1]? = some e'.len) ↔
        (encode es ++ rest)[1]? = some e.len := by
      constructor
      · rintro ⟨e', es', ⟨⟩, h⟩
        exact h
      · exact fun h => ⟨e, es, rfl, h⟩
    have hfake : fakeElements (e :: es) rest = fakeElement.bytes ++ (encode es ++ rest) := by
      rw [fakeElements, List.tail_cons, encode_cons]
      rfl
    have hlength : (encode (e :: es) ++ rest).length =
        e.body.length + 2 + (encode es ++ rest).length := by
      rw [List.length_append, length_encode_cons, List.length_append]
      omega
    have hfits' : e.body.length + 2 + (encode es ++ rest).length + 32 < 500 := hlength ▸ hfits
    rw [hexists, hfake, show encode (e :: es) ++ rest = e.bytes ++ (encode es ++ rest) from
      List.append_assoc _ _ _, buildFake_cons]
    cases hn : (encode es ++ rest)[1]? with
    | none => exact ⟨fun h => (by cases h), fun h => (by cases h)⟩
    | some n =>
      have hroom : e.body.length + 2 + (encode es ++ rest).length < SPRDWL_MAX_IE_LEN :=
        show _ < 500 by omega
      dsimp only
      rw [Option.some.injEq, ← copied_eq_iff hroom]
      constructor
      · intro h
        split at h
        · cases h
        · rename_i hread
          split at h
          · cases h
          · have htake := congrArg List.length (List.append_cancel_left (Except.ok.inj h))
            rw [List.length_take] at htake
            omega
      · intro h
        rw [h, if_neg (lt_irrefl _),
          if_neg (show ¬ 500 < 25 + (encode es ++ rest).length by omega), List.take_length]

/-- What is handed on has the lengths of what came. -/
theorem length_cover (ssid : List Byte) (es : List Element) :
    (encode (cover ssid es)).length = (encode es).length := by
  induction es with
  | nil => rfl
  | cons e es ih =>
    rw [cover]
    split
    · rw [length_encode_cons, length_encode_cons, setSsid_length]
    · rw [length_encode_cons, length_encode_cons, ih]

theorem second_cover (ssid : List Byte) (es : List Element) (rest : List Byte) :
    (encode (cover ssid es) ++ rest)[1]? = (encode es ++ rest)[1]? := by
  cases es with
  | nil => rfl
  | cons e es =>
    rw [cover]
    split
    · rw [encode_cons, encode_cons, setSsid_len]
      rfl
    · rw [encode_cons, encode_cons]
      rfl

theorem repeats_cover (ssid : List Byte) (es : List Element) (rest : List Byte) :
    (∃ e es', cover ssid es = e :: es' ∧ (encode es' ++ rest)[1]? = some e.len) ↔
      ∃ e es', es = e :: es' ∧ (encode es' ++ rest)[1]? = some e.len := by
  cases es with
  | nil => exact Iff.rfl
  | cons e es =>
    rw [cover]
    split
    · constructor
      · rintro ⟨e', es', ⟨⟩, h⟩
        exact ⟨e, es, rfl, by rwa [setSsid_len] at h⟩
      · rintro ⟨e', es', ⟨⟩, h⟩
        exact ⟨_, es, rfl, by rwa [setSsid_len]⟩
    · constructor
      · rintro ⟨e', es', ⟨⟩, h⟩
        exact ⟨e, es, rfl, by rwa [second_cover] at h⟩
      · rintro ⟨e', es', ⟨⟩, h⟩
        exact ⟨e, _, rfl, by rwa [second_cover]⟩

variable (vif : Vif) (fake : Fake) (frame : List Byte) (es : List Element) (rest : List Byte)

theorem length_handed :
    (encode (handed vif frame es) ++ rest).length = (encode es ++ rest).length := by
  rw [handed, List.length_append, List.length_append]
  split
  · rw [length_cover]
  · rfl

theorem repeats_handed :
    (∃ e es', handed vif frame es = e :: es' ∧ (encode es' ++ rest)[1]? = some e.len) ↔
      ∃ e es', es = e :: es' ∧ (encode es' ++ rest)[1]? = some e.len := by
  rw [handed]
  split
  · exact repeats_cover vif.ssid es rest
  · exact Iff.rfl

/-- The probe from what is handed on, when it is to be reported. -/
theorem reportFakeProbe_iff {es : List Element} {rest : List Byte} (htorn : Torn rest) :
    (reportFakeProbe fake (encode es ++ rest) =
      .ok (if fake.localMacInd = false ∧
            (encode es ++ rest).length + IEEE80211_MAX_SSID_LEN < SPRDWL_MAX_IE_LEN then
          { fake with localMacInd := true, ie := fakeElements es rest }.flush
        else if fake.localMacInd = true then fake.flush else (fake, none))) ↔
      (fake.localMacInd = false ∧
          (encode es ++ rest).length + IEEE80211_MAX_SSID_LEN < SPRDWL_MAX_IE_LEN →
        ∃ e es', es = e :: es' ∧ (encode es' ++ rest)[1]? = some e.len) := by
  rw [reportFakeProbe]
  by_cases hind : fake.localMacInd = false
  · rw [if_pos hind]
    by_cases hfits : (encode es ++ rest).length + IEEE80211_MAX_SSID_LEN < SPRDWL_MAX_IE_LEN
    · rw [if_pos hfits, if_pos ⟨hind, hfits⟩, ← buildFake_iff htorn hfits]
      constructor
      · intro h _
        cases hbuild : buildFake (encode es ++ rest) with
        | error f =>
          rw [hbuild] at h
          cases h
        | ok ie =>
          rw [hbuild] at h
          have hflush := congrArg (fun p => p.1.ie) (Except.ok.inj h)
          exact congrArg Except.ok hflush
      · intro h
        rw [h ⟨hind, hfits⟩]
        rfl
    · rw [if_neg hfits, if_neg fun h => hfits h.2, hind]
      exact ⟨fun _ h => absurd h.2 hfits, fun _ => rfl⟩
  · rw [if_neg hind, if_neg fun h => hind h.1, if_pos (by simpa using hind)]
    exact ⟨fun _ h => absurd h.1 hind, fun _ => rfl⟩

/-- The elements as the code hands them on. -/
def covered : List Element := if Connected vif frame then cover (strncpy vif.ssid) es else es

theorem covered_iff : encode (covered vif frame es) = encode (handed vif frame es) ↔
    (Connected vif frame → ∀ e, es.find? (·.id = WLAN_EID_SSID) = some e →
      (∀ b ∈ e.body, b = 0) → vif.ssid.length = e.body.length → Plain vif.ssid) := by
  rw [covered, handed]
  by_cases h : Connected vif frame
  · rw [if_pos h, if_pos h, encode_cover_iff]
    exact ⟨fun hplain _ => hplain, fun hplain => hplain h⟩
  · rw [if_neg h, if_neg h]
    exact ⟨fun _ hconnected => absurd hconnected h, fun _ => rfl⟩

variable {vif fake frame es rest}

theorem fillSsid_eq (hfind : Finds findIe) (hframe : frame.drop VARIABLE = encode es ++ rest)
    (htorn : Torn rest) :
    fillSsid findIe vif frame = .ok (encode (covered vif frame es) ++ rest) := by
  rw [fillSsid, covered, hframe]
  split
  · exact coverSsid_eq hfind vif.ssid es htorn
  · rfl

/-- The probe that should come of what is handed on. -/
def probe (vif : Vif) (fake : Fake) (es : List Element) (rest : List Byte) :
    Fake × Option (List Byte) :=
  if vif.localMacFlag = true then
    if Builds vif fake (encode es ++ rest) then
      { fake with localMacInd := true, ie := fakeElements es rest }.flush
    else if fake.localMacInd = true then fake.flush else (fake, none)
  else (fake, none)

theorem probeFor_iff (htorn : Torn rest) :
    probeFor vif fake (encode es ++ rest) = .ok (probe vif fake es rest) ↔
      (Builds vif fake (encode es ++ rest) →
        ∃ e es', es = e :: es' ∧ (encode es' ++ rest)[1]? = some e.len) := by
  rw [probeFor, probe]
  by_cases hflag : vif.localMacFlag = true
  · have hboth : Builds vif fake (encode es ++ rest) ↔ fake.localMacInd = false ∧
        (encode es ++ rest).length + IEEE80211_MAX_SSID_LEN < SPRDWL_MAX_IE_LEN := by
      rw [Builds, and_iff_right hflag]
    simp only [hboth]
    rw [if_pos hflag, if_pos hflag]
    exact reportFakeProbe_iff fake htorn
  · rw [if_neg hflag, if_neg hflag]
    exact ⟨fun _ h => absurd h.1 hflag, fun _ => rfl⟩

/-- The elements that are handed on lie inside the frame and have the SSID, and a probe has the false
SSID and the other elements, exactly under the conditions. The frame is any: the bytes behind its
fixed part are a list of elements and a rest. -/
theorem scan_report_iff (hfind : Finds findIe) (accepted : Bool)
    (hframe : frame.drop VARIABLE = encode es ++ rest) (htorn : Torn rest) :
    reportScanResult findIe vif fake accepted frame =
        .ok (expected vif fake accepted frame es rest) ↔
      (accepted = true → Fine vif fake frame es rest) := by
  cases accepted with
  | false => exact ⟨fun _ h => (by cases h), fun _ => rfl⟩
  | true =>
  rw [reportScanResult, if_neg (Bool.noConfusion ·)]
  by_cases hfixed : frame.length < VARIABLE
  · rw [if_pos hfixed]
    exact ⟨fun h => (by cases h), fun h => absurd (h rfl).fixed (by omega)⟩
  rw [if_neg hfixed, fillSsid_eq hfind hframe htorn]
  change (probeFor vif fake (encode (covered vif frame es) ++ rest) >>= _) =
    Except.ok (Outcome.mk (frame.take VARIABLE ++ (encode (handed vif frame es) ++ rest))
      (some (VARIABLE, frame.length - VARIABLE)) (probe vif fake (handed vif frame es) rest).1
      (probe vif fake (handed vif frame es) rest).2) ↔ _
  by_cases hplain : encode (covered vif frame es) = encode (handed vif frame es)
  · have hbuilds : Builds vif fake (frame.drop VARIABLE) ↔
        Builds vif fake (encode (handed vif frame es) ++ rest) := by
      rw [Builds, Builds, length_handed, hframe]
    have hfine : (true = true → Fine vif fake frame es rest) ↔
        (Builds vif fake (encode (handed vif frame es) ++ rest) →
          ∃ e es', handed vif frame es = e :: es' ∧ (encode es' ++ rest)[1]? = some e.len) := by
      rw [repeats_handed, ← hbuilds]
      exact ⟨fun h => (h rfl).second,
        fun h _ => ⟨by omega, (covered_iff vif frame es).mp hplain, h⟩⟩
    rw [hplain, hfine, ← probeFor_iff htorn]
    cases probeFor vif fake (encode (handed vif frame es) ++ rest) with
    | error f => exact ⟨fun h => (by cases h), fun h => (by cases h)⟩
    | ok p =>
      constructor
      · intro h
        have houtcome := Outcome.mk.inj (Except.ok.inj h)
        exact congrArg Except.ok (Prod.ext houtcome.2.2.1 houtcome.2.2.2)
      · intro h
        rw [Except.ok.inj h]
        rfl
  · refine ⟨fun h => ?_, fun h => absurd ((covered_iff vif frame es).mpr (h rfl).plain) hplain⟩
    cases hprobe : probeFor vif fake (encode (covered vif frame es) ++ rest) with
    | error f =>
      rw [hprobe] at h
      cases h
    | ok p =>
      rw [hprobe] at h
      have hbytes := List.append_cancel_left (Outcome.mk.inj (Except.ok.inj h)).1
      exact absurd (List.append_cancel_right hbytes) hplain

/-- A search for the first SSID element. -/
def findSsid : List Byte → Option ℕ
  | id :: n :: body =>
    if body.length < n.toNat then none
    else if id = WLAN_EID_SSID then some 0
    else (findSsid (body.drop n.toNat)).map (n.toNat + 2 + ·)
  | _ => none
termination_by bs => bs.length
decreasing_by simp only [List.length_drop, List.length_cons]; omega

theorem findSsid_finds : Finds findSsid := by
  intro es rest htorn
  induction es with
  | nil =>
    rw [encode_nil, List.nil_append]
    match rest with
    | [] => rw [findSsid]; rfl; simp
    | [_] => rw [findSsid]; rfl; simp
    | id :: n :: body =>
      have hshort : body.length < n.toNat := htorn
      rw [findSsid, if_pos hshort]
      rfl
  | cons e es ih =>
    rw [encode_cons, findSsid, ssidOffset, Element.toNat_len, List.drop_left, ih,
      if_neg (by rw [List.length_append]; omega)]
    rfl

/-- A frame with a hidden SSID, whose first two elements are of one length. -/
def hiddenSsid : List Byte := List.replicate 36 0 ++ [0, 1, 0, 3, 1, 6]

theorem scan_report_iff_probe :
    reportScanResult findSsid ⟨true, List.replicate 6 0, [97], true⟩ ⟨false, 0, []⟩ true hiddenSsid =
      .ok (expected ⟨true, List.replicate 6 0, [97], true⟩ ⟨false, 0, []⟩ true hiddenSsid
        [⟨0, [0], by decide⟩, ⟨3, [6], by decide⟩] []) :=
  (scan_report_iff findSsid_finds true rfl (show Torn [] from True.intro)).mpr fun _ =>
    { fixed := by decide
      plain := fun _ _ _ _ _ => (by decide)
      second := fun _ => ⟨_, _, rfl, rfl⟩ }

/-- The second element has no length byte in the frame. -/
theorem second_read_outside : reportScanResult findSsid ⟨false, [], [], true⟩ ⟨false, 0, []⟩ true
    (List.replicate 36 0 ++ [0, 1, 97]) ≠
      .ok (expected ⟨false, [], [], true⟩ ⟨false, 0, []⟩ true (List.replicate 36 0 ++ [0, 1, 97])
        [⟨0, [97], by decide⟩] []) := by
  intro h
  cases h

end Uwe5631.ScanReport
