import Uwe5631.ConnectElements
import Uwe5631.ConnectionState
import Uwe5631.KeyStore

/-!
# Saved connect parameters

The copy that the connect call saves is shallow: a pointer that is not set to an array of the copy
dangles after the call. A connect reads what it is asked for from such a copy as from the memory of
its caller.
-/
namespace Uwe5631.Suspend

open FallibleRuns
open ConnectionState (Mac SmState ConnectInfo reportConnection reportDisconnection)
open KeyStore (CipherSuite)

abbrev Bytes := List (BitVec 8)

inductive Fault where
  | badPointer
  | beyondArray
  deriving DecidableEq, Repr

/-- What a connection uses of `struct ieee80211_channel`. -/
structure Channel where
  centerFreq : BitVec 16
  flags : BitVec 32
  deriving DecidableEq, Repr

/-- `struct cfg80211_crypto_settings`, of the arrays the entries that are read -/
structure Crypto where
  wpaVersions : BitVec 32
  cipherGroup : CipherSuite
  nCiphersPairwise : ℕ
  ciphersPairwise : CipherSuite
  nAkmSuites : ℕ
  akmSuites : BitVec 32
  deriving DecidableEq, Repr

inductive Ptr (α : Type) where
  | null
  /-- To memory of the caller. -/
  | caller (a : α)
  /-- To memory of a caller that has returned. -/
  | dangling
  /-- To the array of the saved copy. -/
  | own
  deriving DecidableEq, Repr

/-- `struct cfg80211_connect_params` -/
structure ConnectParams where
  channel : Ptr Channel
  channelHint : Ptr Channel
  bssid : Ptr Mac
  bssidHint : Ptr Mac
  ssid : Ptr Bytes
  ssidLen : ℕ
  authType : ℕ
  ie : Ptr Bytes
  ieLen : ℕ
  mfp : ℕ
  crypto : Crypto
  key : Ptr Bytes
  keyLen : ℕ
  keyIdx : ℕ
  deriving DecidableEq, Repr

/-- `struct sprdwl_suspend_resume_connect` -/
structure SuspendResumeConnect where
  connectParams : ConnectParams
  channel : Channel
  channelHint : Channel
  ie : Bytes
  key : Bytes
  bssid : Mac
  bssidHint : Mac
  ssid : Bytes
  reconnectFlag : Bool
  deriving DecidableEq, Repr

/-- `sizeof(con->ie)` -/
abbrev IE_SIZE : ℕ := 100

abbrev WLAN_MAX_KEY_LEN : ℕ := 32

abbrev IEEE80211_MAX_SSID_LEN : ℕ := 32

/-- The values a connect reads. -/
structure Params where
  channel : Option Channel
  bssid : Option Mac
  ssid : Option Bytes
  authType : ℕ
  ie : Bytes
  mfp : ℕ
  crypto : Crypto
  key : Bytes
  keyIdx : ℕ
  deriving DecidableEq, Repr

def Ptr.get {α : Type} (own : α) : Ptr α → Except Fault α
  | .caller a => .ok a
  | .own => .ok own
  | .null => .error .badPointer
  | .dangling => .error .badPointer

/-- The pointer after its caller has returned. -/
def Ptr.kept {α : Type} : Ptr α → Ptr α
  | .caller _ => .dangling
  | p => p

/-- The bytes at a pointer. -/
def Ptr.bytes (own : Bytes) (p : Ptr Bytes) (len : ℕ) : Except Fault Bytes :=
  (p.get own).bind fun m => if len ≤ m.length then .ok (m.take len) else .error .beyondArray

/-- A value through a pointer that may be null. -/
def Ptr.get? {α : Type} (own : α) : Ptr α → Except Fault (Option α)
  | .null => .ok none
  | p => (p.get own).map some

/-- The first pointer, or the second if the first is null. -/
def readHinted {α : Type} (own hintOwn : α) (p hint : Ptr α) : Except Fault (Option α) :=
  match p with
  | .null => hint.get? hintOwn
  | p => (p.get own).map some

def readBytes (own : Bytes) (p : Ptr Bytes) (len : ℕ) : Except Fault Bytes :=
  if 0 < len then p.bytes own len else .ok []

def readSsid (own : Bytes) (p : Ptr Bytes) (len : ℕ) : Except Fault (Option Bytes) :=
  match p with
  | .null => .ok none
  | p => (p.bytes own len).map some

/-- What a connect reads of its parameters; its own pointers are those of the saved copy. -/
def readParams (con : SuspendResumeConnect) (sme : ConnectParams) : Except Fault Params :=
  (readHinted con.channel con.channelHint sme.channel sme.channelHint).bind fun channel =>
  (readHinted con.bssid con.bssidHint sme.bssid sme.bssidHint).bind fun bssid =>
  (readSsid con.ssid sme.ssid sme.ssidLen).bind fun ssid =>
  (readBytes con.ie sme.ie sme.ieLen).bind fun ie =>
  (readBytes con.key sme.key sme.keyLen).bind fun key =>
  .ok ⟨channel, bssid, ssid, sme.authType, ie, sme.mfp, sme.crypto, key, sme.keyIdx⟩

/-- `memset` of an array to zero and `memcpy` to it -/
def copyInto (size : ℕ) (p : Ptr Bytes) (len : ℕ) : Except Fault Bytes :=
  (p.bytes (List.replicate size 0) len).bind fun m =>
    if m.length ≤ size then .ok (m ++ List.replicate (size - m.length) 0)
    else .error .beyondArray

/-- Elements or key, if there are any: the pointer and the array after it. -/
def saveBytes (size : ℕ) (array : Bytes) (p : Ptr Bytes) (len : ℕ) :
    Except Fault (Ptr Bytes × Bytes) :=
  if 0 < len then (copyInto size p len).map fun m => (.own, m) else .ok (p.kept, array)

def saveSsid (size : ℕ) (array : Bytes) (p : Ptr Bytes) (len : ℕ) :
    Except Fault (Ptr Bytes × Bytes) :=
  match p with
  | .null => .ok (.null, array)
  | p => (copyInto size p len).map fun m => (.own, m)

/-- Channel or BSSID: both pointers and both copies. The hint is saved only without the first. -/
structure Hinted (α : Type) where
  ptr : Ptr α
  hint : Ptr α
  copy : α
  hintCopy : α

def saveHinted {α : Type} (zero copy hintCopy : α) (p hint : Ptr α) : Except Fault (Hinted α) :=
  match p, hint with
  | .null, .null => .ok ⟨.null, .null, copy, hintCopy⟩
  | .null, hint => (hint.get zero).map fun c => ⟨.null, .own, copy, c⟩
  | p, hint => (p.get zero).map fun c => ⟨.own, hint.kept, c, hintCopy⟩

/-- The copy with the pointers of `connect_params` set to its arrays. -/
def patched (sme : ConnectParams) (con : SuspendResumeConnect) (ie key ssid : Ptr Bytes × Bytes)
    (channel : Hinted Channel) (bssid : Hinted Mac) : SuspendResumeConnect :=
  { con with
    connectParams :=
      { sme with
        ie := ie.1, key := key.1, ssid := ssid.1, channel := channel.ptr,
        channelHint := channel.hint, bssid := bssid.ptr, bssidHint := bssid.hint }
    ie := ie.2, key := key.2, ssid := ssid.2, channel := channel.copy,
    channelHint := channel.hintCopy, bssid := bssid.copy, bssidHint := bssid.hintCopy }

/-- `sprdwl_set_suspend_resume_connect_params` -/
def setSuspendResumeConnectParams (sme : ConnectParams) (con : SuspendResumeConnect) :
    Except Fault SuspendResumeConnect :=
  (saveBytes IE_SIZE con.ie sme.ie sme.ieLen).bind fun ie =>
  (saveBytes WLAN_MAX_KEY_LEN con.key sme.key sme.keyLen).bind fun key =>
  (saveHinted ⟨0, 0⟩ con.channel con.channelHint sme.channel sme.channelHint).bind fun channel =>
  (saveHinted 0 con.bssid con.bssidHint sme.bssid sme.bssidHint).bind fun bssid =>
  (saveSsid IEEE80211_MAX_SSID_LEN con.ssid sme.ssid sme.ssidLen).bind fun ssid =>
  .ok (patched sme con ie key ssid channel bssid)

structure Vif where
  conn : ConnectionState.Vif
  suspendResumeConnect : SuspendResumeConnect
  deriving DecidableEq, Repr

/-- A disconnect: whether the command succeeds and whether its event is there in time. -/
structure DisconnectOutcome where
  sent : Bool
  event : Bool
  deriving DecidableEq, Repr

/-- `sprdwl_cfg80211_disconnect`; the driver itself gives no wiphy. -/
def sprdwlCfg80211Disconnect (wiphy : Bool) (o : DisconnectOutcome) (v : ConnectionState.Vif) :
    ConnectionState.Vif :=
  let w := { v with smState := if wiphy then .disconnecting else .driverDisconnecting }
  if !o.sent then v
  else if o.event then (reportDisconnection w).1
  else w

/-- The outcomes of the commands of a connect call. The elements go in one or more calls of
`sprdwl_set_ie`, whose values these are; behind them it returns 0. -/
structure ConnectOutcome where
  disconnect : DisconnectOutcome
  setIe : List ℤ
  addKey : Bool
  connect : Bool
  deriving DecidableEq, Repr

/-- A connect that was not stopped at a closed interface: what it read, whether it has sent the
command to connect, and whether the firmware has accepted it. -/
structure ConnectCall where
  asked : Params
  sent : Bool
  accepted : Bool
  deriving DecidableEq, Repr

def Crypto.KeyIsWep (c : Crypto) : Prop := c.cipherGroup.IsWep ∨ c.ciphersPairwise.IsWep

instance (c : Crypto) : Decidable c.KeyIsWep := inferInstanceAs (Decidable (_ ∨ _))

def Params.KeyTooLong (p : Params) : Prop :=
  ¬ p.crypto.KeyIsWep ∧ WLAN_MAX_KEY_LEN < p.key.length

instance (p : Params) : Decidable p.KeyTooLong := inferInstanceAs (Decidable (_ ∧ _))

def Params.WepKeyRefused (p : Params) : Prop :=
  p.crypto.cipherGroup.IsWep ∧ p.key ≠ [] ∧ p.key.length ≠ 13 ∧ p.key.length ≠ 5

instance (p : Params) : Decidable p.WepKeyRefused := inferInstanceAs (Decidable (_ ∧ _))

/-- A key that `sprdwl_cfg80211_connect` refuses. -/
def Params.KeyRefused (p : Params) : Prop := p.KeyTooLong ∨ p.WepKeyRefused

instance (p : Params) : Decidable p.KeyRefused := inferInstanceAs (Decidable (_ ∨ _))

/-- The search of the elements and the calls of `sprdwl_set_ie`. -/
def sendElements (o : ConnectOutcome) (ie : Bytes) : Except Fault ℤ :=
  match ConnectElements.connect (o.setIe.getD · 0) ie with
  | .ok sent => .ok sent.ret
  | .error .readOutside => .error .beyondArray

def AddKeyFails (p : Params) (o : ConnectOutcome) : Prop :=
  p.key ≠ [] ∧ p.crypto.KeyIsWep ∧ o.addKey = false

instance (p : Params) (o : ConnectOutcome) : Decidable (AddKeyFails p o) :=
  inferInstanceAs (Decidable (_ ∧ _))

/-- A command before the one to connect fails. -/
def CommandFails (p : Params) (o : ConnectOutcome) : Prop :=
  (∀ ret, sendElements o p.ie = .ok ret → ret ≠ 0) ∨ AddKeyFails p o

/-- The search of the elements stays inside them. -/
def Params.Searchable (p : Params) : Prop :=
  p.ie = [] ∨ 6 ≤ p.ie.length ∧ p.ie.length < 2 ^ 64

instance (p : Params) : Decidable p.Searchable := inferInstanceAs (Decidable (_ ∨ _))

/-- `sprdwl_cfg80211_connect` of the station. -/
def sprdwlCfg80211Connect (closed : Bool) (sme : ConnectParams) (o : ConnectOutcome) (v : Vif) :
    Except Fault (Vif × Option ConnectCall) :=
  if closed then .ok (v, none)
  else
    (readParams v.suspendResumeConnect sme).bind fun p =>
      let w :=
        if v.conn.smState = .connecting ∨ v.conn.smState = .connected then
          sprdwlCfg80211Disconnect false o.disconnect v.conn
        else v.conn
      -- The label `err` puts `old_state` back, even after a disconnect.
      let err := fun (w : ConnectionState.Vif) =>
        { v with conn := { w with smState := v.conn.smState } }
      (sendElements o p.ie).bind fun ret =>
      if ret ≠ 0 ∨ AddKeyFails p o ∨ p.KeyTooLong then .ok (err w, some ⟨p, false, false⟩)
      else
        let w := { w with bssid := p.bssid.getD w.bssid }
        if p.WepKeyRefused then .ok (err w, some ⟨p, false, false⟩)
        else if p.ssid = none then .ok ({ v with conn := w }, some ⟨p, false, false⟩)
        else if !o.connect then .ok (err w, some ⟨p, true, false⟩)
        else
          let w := { w with smState := .connecting }
          if v.suspendResumeConnect.reconnectFlag then
            .ok ({ v with conn := w }, some ⟨p, true, true⟩)
          else
            (setSuspendResumeConnectParams sme v.suspendResumeConnect).map fun con =>
              (⟨w, con⟩, some ⟨p, true, true⟩)

/-- What cfg80211 asks for: everything in its own memory, of the lengths it says. -/
structure Sme where
  channel : Option Channel
  channelHint : Option Channel
  bssid : Option Mac
  bssidHint : Option Mac
  ssid : Option Bytes
  authType : ℕ
  ie : Bytes
  mfp : ℕ
  crypto : Crypto
  key : Bytes
  keyIdx : ℕ
  deriving DecidableEq, Repr

def callerPtr {α : Type} : Option α → Ptr α
  | none => .null
  | some a => .caller a

def Sme.connectParams (sme : Sme) : ConnectParams where
  channel := callerPtr sme.channel
  channelHint := callerPtr sme.channelHint
  bssid := callerPtr sme.bssid
  bssidHint := callerPtr sme.bssidHint
  ssid := callerPtr sme.ssid
  ssidLen := (sme.ssid.getD []).length
  authType := sme.authType
  ie := .caller sme.ie
  ieLen := sme.ie.length
  mfp := sme.mfp
  crypto := sme.crypto
  key := .caller sme.key
  keyLen := sme.key.length
  keyIdx := sme.keyIdx

/-- What a connect reads of it. -/
def Sme.params (sme : Sme) : Params where
  channel := sme.channel.or sme.channelHint
  bssid := sme.bssid.or sme.bssidHint
  ssid := sme.ssid
  authType := sme.authType
  ie := sme.ie
  mfp := sme.mfp
  crypto := sme.crypto
  key := sme.key
  keyIdx := sme.keyIdx

section Copy

variable {α : Type} {m : Bytes} {size : ℕ}

theorem copyInto_caller (h : m.length ≤ size) :
    copyInto size (.caller m) m.length = .ok (m ++ List.replicate (size - m.length) 0) := by
  simp [copyInto, Ptr.bytes, Ptr.get, h]

theorem bytes_own_append (n : ℕ) :
    Ptr.bytes (m ++ List.replicate n 0) .own m.length = .ok m := by
  simp [Ptr.bytes, Ptr.get]

/-- Bytes that fit are saved, and read back. -/
theorem saveBytes_caller (array : Bytes) (ha : array.length = size) (h : m.length ≤ size) :
    ∃ r, saveBytes size array (.caller m) m.length = .ok r ∧ r.2.length = size ∧
      readBytes r.2 r.1 m.length = .ok m := by
  by_cases hm : 0 < m.length
  · refine ⟨(.own, m ++ List.replicate (size - m.length) 0), ?_, ?_, ?_⟩
    · rw [saveBytes, if_pos hm, copyInto_caller h, ok_map]
    · simp [h]
    · rw [readBytes, if_pos hm, bytes_own_append]
  · refine ⟨(.dangling, array), ?_, ha, ?_⟩
    · rw [saveBytes, if_neg hm]
      rfl
    · rw [readBytes, if_neg hm]
      have hnil : m = [] := List.length_eq_zero_iff.mp (Nat.eq_zero_of_not_pos hm)
      rw [hnil]

theorem saveSsid_caller (array : Bytes) (ha : array.length = size) (ssid : Option Bytes)
    (h : (ssid.getD []).length ≤ size) :
    ∃ r, saveSsid size array (callerPtr ssid) (ssid.getD []).length = .ok r ∧ r.2.length = size ∧
      readSsid r.2 r.1 (ssid.getD []).length = .ok ssid := by
  cases ssid with
  | none => exact ⟨(.null, array), rfl, ha, rfl⟩
  | some m =>
    simp only [Option.getD_some] at h ⊢
    refine ⟨(.own, m ++ List.replicate (size - m.length) 0), ?_, ?_, ?_⟩
    · simp [saveSsid, callerPtr, copyInto_caller h]
    · simp [h]
    · change (Ptr.bytes _ .own m.length).map some = _
      rw [bytes_own_append, ok_map]

theorem saveHinted_caller (zero copy hintCopy : α) (p hint : Option α) :
    ∃ r, saveHinted zero copy hintCopy (callerPtr p) (callerPtr hint) = .ok r ∧
      readHinted r.copy r.hintCopy r.ptr r.hint = .ok (p.or hint) := by
  cases p with
  | none =>
    cases hint with
    | none => exact ⟨⟨.null, .null, copy, hintCopy⟩, rfl, rfl⟩
    | some c => exact ⟨⟨.null, .own, copy, c⟩, rfl, rfl⟩
  | some c =>
    refine ⟨⟨.own, (callerPtr hint).kept, c, hintCopy⟩, ?_, rfl⟩
    cases hint <;> rfl

theorem readHinted_caller (own hintOwn : α) (p hint : Option α) :
    readHinted own hintOwn (callerPtr p) (callerPtr hint) = .ok (p.or hint) := by
  cases p with
  | none => cases hint <;> rfl
  | some c => rfl

theorem readBytes_caller (own : Bytes) : readBytes own (.caller m) m.length = .ok m := by
  by_cases hm : 0 < m.length
  · simp [readBytes, hm, Ptr.bytes, Ptr.get]
  · have hnil : m = [] := List.length_eq_zero_iff.mp (Nat.eq_zero_of_not_pos hm)
    simp [readBytes, hnil]

theorem readSsid_caller (own : Bytes) (ssid : Option Bytes) :
    readSsid own (callerPtr ssid) (ssid.getD []).length = .ok ssid := by
  cases ssid with
  | none => rfl
  | some m => simp [readSsid, callerPtr, Ptr.bytes, Ptr.get]

end Copy

/-- A connect reads all of what it is asked for. -/
theorem readParams_caller (con : SuspendResumeConnect) (sme : Sme) :
    readParams con sme.connectParams = .ok sme.params := by
  simp only [readParams, Sme.connectParams, readHinted_caller, readSsid_caller, readBytes_caller,
    ok_bind]
  rfl

/-- The copies lie inside the arrays of the structure. -/
structure Inside (con : SuspendResumeConnect) : Prop where
  ie : con.ie.length = IE_SIZE
  key : con.key.length = WLAN_MAX_KEY_LEN
  ssid : con.ssid.length = IEEE80211_MAX_SSID_LEN

/-- The arrays of the copy have room for what is asked for. -/
def Sme.Fits (sme : Sme) : Prop :=
  sme.ie.length ≤ IE_SIZE ∧ sme.key.length ≤ WLAN_MAX_KEY_LEN ∧
    (sme.ssid.getD []).length ≤ IEEE80211_MAX_SSID_LEN

instance (sme : Sme) : Decidable sme.Fits := inferInstanceAs (Decidable (_ ∧ _))

/-- What fits is saved, and a connect from the copy reads the same. -/
theorem set_params {sme : Sme} (hfits : sme.Fits) {con : SuspendResumeConnect} (h : Inside con) :
    ∃ con', setSuspendResumeConnectParams sme.connectParams con = .ok con' ∧ Inside con' ∧
      readParams con' con'.connectParams = .ok sme.params := by
  obtain ⟨hie, hkey, hssid⟩ := hfits
  obtain ⟨ie, hsie, hlie, hrie⟩ := saveBytes_caller con.ie h.ie hie
  obtain ⟨key, hskey, hlkey, hrkey⟩ := saveBytes_caller con.key h.key hkey
  obtain ⟨channel, hschannel, hrchannel⟩ :=
    saveHinted_caller ⟨0, 0⟩ con.channel con.channelHint sme.channel sme.channelHint
  obtain ⟨bssid, hsbssid, hrbssid⟩ :=
    saveHinted_caller 0 con.bssid con.bssidHint sme.bssid sme.bssidHint
  obtain ⟨ssid, hsssid, hlssid, hrssid⟩ := saveSsid_caller con.ssid h.ssid sme.ssid hssid
  refine ⟨patched sme.connectParams con ie key ssid channel bssid, ?_, ?_, ?_⟩
  · simp only [setSuspendResumeConnectParams]
    simp only [Sme.connectParams, hsie, hskey, hschannel, hsbssid, hsssid, ok_bind]
  · exact ⟨hlie, hlkey, hlssid⟩
  · simp only [readParams, patched, Sme.connectParams, hrie, hrkey, hrchannel, hrbssid, hrssid,
      ok_bind]
    rfl

/-- The interface is connecting or connected. -/
def Live (v : ConnectionState.Vif) : Prop := v.smState = .connecting ∨ v.smState = .connected

theorem not_live_reportDisconnection (v : ConnectionState.Vif) : ¬ Live (reportDisconnection v).1 := by
  obtain ⟨sm, bssid⟩ := v
  cases sm <;> simp [reportDisconnection, Live]

/-- Only a disconnect whose command fails leaves an interface connecting or connected. -/
theorem disconnect_sent {o : DisconnectOutcome} (h : o.sent = true) (wiphy : Bool)
    (v : ConnectionState.Vif) : ¬ Live (sprdwlCfg80211Disconnect wiphy o v) := by
  simp only [sprdwlCfg80211Disconnect, h, Bool.not_true, Bool.false_eq_true, if_false]
  split
  · exact not_live_reportDisconnection _
  · cases wiphy <;> simp [Live]

theorem disconnect_failed {o : DisconnectOutcome} (h : o.sent = false) (wiphy : Bool)
    (v : ConnectionState.Vif) : sprdwlCfg80211Disconnect wiphy o v = v := by
  simp [sprdwlCfg80211Disconnect, h]

theorem live_of_disconnect {wiphy : Bool} {o : DisconnectOutcome} {v : ConnectionState.Vif}
    (h : Live (sprdwlCfg80211Disconnect wiphy o v)) : Live v := by
  cases hs : o.sent with
  | true => exact absurd h (disconnect_sent hs wiphy v)
  | false => rwa [disconnect_failed hs] at h

theorem live_of_reportConnection {v : ConnectionState.Vif} {info : ConnectInfo}
    (h : Live (reportConnection v info).1) : Live v := by
  by_contra hv
  have hsm : v.smState ≠ .connecting ∧ v.smState ≠ .connected := not_or.mp hv
  rw [reportConnection, if_pos hsm] at h
  exact hv h

/-- The search of no elements, or of six bytes or more, ends inside them. -/
theorem exists_sendElements {p : Params} (h : p.Searchable) (o : ConnectOutcome) :
    ∃ ret, sendElements o p.ie = .ok ret := by
  rcases h with hnil | ⟨hlen, hsize⟩
  · exact ⟨0, by rw [sendElements, hnil]; rfl⟩
  · exact ⟨_, by rw [sendElements, ConnectElements.connect_eq _ hsize hlen]⟩

theorem commandFails_iff {p : Params} {o : ConnectOutcome} {ret : ℤ}
    (h : sendElements o p.ie = .ok ret) : CommandFails p o ↔ ret ≠ 0 ∨ AddKeyFails p o := by
  refine or_congr_left ⟨fun hall => hall ret h, ?_⟩
  rintro hret ret' h'
  rw [← Except.ok.inj (h.symm.trans h')]
  exact hret

/-- The firmware is asked to connect. -/
def Params.Sendable (p : Params) (o : ConnectOutcome) : Prop :=
  ¬ CommandFails p o ∧ ¬ p.KeyRefused ∧ p.ssid ≠ none

/-- The firmware accepts the connect. -/
def Params.Accepted (p : Params) (o : ConnectOutcome) : Prop :=
  p.Sendable o ∧ o.connect = true

section Connect

variable {v : Vif} {sme : ConnectParams} {p : Params} {o : ConnectOutcome}

/-- A connect that is not accepted leaves the copy as it is, and connects nothing. -/
theorem connect_not_accepted (hread : readParams v.suspendResumeConnect sme = .ok p)
    (hsearch : p.Searchable) (h : ¬ p.Accepted o) :
    ∃ conn sent, sprdwlCfg80211Connect false sme o v =
        .ok ({ v with conn := conn }, some ⟨p, sent, false⟩) ∧
      (Live conn → Live v.conn) ∧ (p.Sendable o → sent = true) := by
  obtain ⟨ret, helements⟩ := exists_sendElements hsearch o
  have hfails := commandFails_iff helements
  simp only [sprdwlCfg80211Connect, Bool.false_eq_true, if_false, hread, ok_bind, helements]
  split
  case isTrue hfail =>
    refine ⟨_, false, rfl, fun hl => hl, fun hs => ?_⟩
    rcases or_assoc.mpr hfail with hc | hk
    · exact absurd (hfails.mpr hc) hs.1
    · exact absurd (Or.inl hk) hs.2.1
  case isFalse hfail =>
    obtain ⟨hcalls, hlong⟩ := not_or.mp (mt or_assoc.mp hfail)
    have hcommand := mt hfails.mp hcalls
    split
    case isTrue hwep => exact ⟨_, false, rfl, fun hl => hl, fun hs => absurd (Or.inr hwep) hs.2.1⟩
    case isFalse hwep =>
      split
      case isTrue hssid =>
        refine ⟨_, false, rfl, fun hl => ?_, fun hs => absurd hssid hs.2.2⟩
        change Live (if _ then _ else _ : ConnectionState.Vif) at hl
        split at hl
        · exact live_of_disconnect hl
        · exact hl
      case isFalse hssid =>
        have hs : p.Sendable o := ⟨hcommand, not_or.mpr ⟨hlong, hwep⟩, hssid⟩
        have ho : o.connect = false := by
          simpa using fun ho => h ⟨hs, ho⟩
        rw [ho]
        exact ⟨_, true, rfl, fun hl => hl, fun _ => rfl⟩

/-- One that is accepted saves what it is asked for, unless a reconnect is to come. -/
theorem connect_accepted (hread : readParams v.suspendResumeConnect sme = .ok p)
    (hsearch : p.Searchable) (h : p.Accepted o) :
    ∃ bssid, sprdwlCfg80211Connect false sme o v =
      if v.suspendResumeConnect.reconnectFlag then
        .ok ({ v with conn := ⟨.connecting, bssid⟩ }, some ⟨p, true, true⟩)
      else
        (setSuspendResumeConnectParams sme v.suspendResumeConnect).map fun con =>
          (⟨⟨.connecting, bssid⟩, con⟩, some ⟨p, true, true⟩) := by
  obtain ⟨⟨hcommand, hkey, hssid⟩, ho⟩ := h
  obtain ⟨hlong, hwep⟩ := not_or.mp hkey
  obtain ⟨ret, helements⟩ := exists_sendElements hsearch o
  obtain ⟨hret, hadd⟩ := not_or.mp (mt (commandFails_iff helements).mpr hcommand)
  simp only [sprdwlCfg80211Connect, Bool.false_eq_true, if_false, hread, ok_bind, helements, hret, hadd,
    hlong, hwep, or_self, hssid, ho, Bool.not_true]
  exact ⟨_, rfl⟩

end Connect

end Uwe5631.Suspend
