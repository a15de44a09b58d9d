import Uwe5631.SavedConnect
import Uwe5631.VifReferences

/-!
# Suspend and resume

A suspend disconnects the station and a resume connects it again, from the copy that the last connect
call has saved. What the firmware accepted last is recorded beside the state, and whether a suspend
that succeeded has disconnected the station.
-/
namespace Uwe5631.Suspend

open FallibleRuns
open ConnectionState (Mac SmState ConnectInfo reportConnection reportDisconnection)

/-- `intf->suspend_mode` -/
inductive SuspendMode where
  | resumed
  | suspending
  | suspended
  | resuming
  deriving DecidableEq, Repr

structure State where
  suspendMode : SuspendMode
  /-- `vif->ref` of the interface of each mode. -/
  ref : VifReferences.Mode → ℕ
  /-- The interface of the station. -/
  vif : Vif
  /-- What the last connect that the firmware accepted has read. -/
  last : Option Params
  /-- A suspend that succeeded has disconnected the station, and no resume has followed. -/
  owed : Bool

/-- What a call of `sprdwl_suspend_resume_handle` meets: which modes are open and which have an
interface, and what the commands come to. -/
structure HandleEnv where
  fwStat : VifReferences.Mode → Bool
  vifs : VifReferences.Mode → Bool
  cpAsserted : Bool
  /-- Frames or commands wait to be sent. -/
  queued : Bool
  /-- `sprdwcn_bus_get_wl_wake_host_en` says `SPRDWL_NO_WAKE_HOST`. -/
  noWakeHost : Bool
  disconnect : DisconnectOutcome
  powerSave : ℤ
  reconnect : ConnectOutcome

abbrev EBUSY : ℤ := 16

structure Handled where
  state : State
  ret : ℤ
  call : Option ConnectCall

/-- The first mode that is open, in the order of `enum sprdwl_mode`. -/
def openMode (fwStat : VifReferences.Mode → Bool) : Option VifReferences.Mode :=
  [VifReferences.Mode.station, .ap, .p2pDevice, .p2pClient, .p2pGo, .ibss].find? fwStat

/-- `mode_to_vif`, where there is an interface of the mode -/
def State.getVif (s : State) (mode : VifReferences.Mode) : State :=
  { s with ref := Function.update s.ref mode (s.ref mode + 1) }

/-- `sprdwl_put_vif` -/
def State.putVif (s : State) (mode : VifReferences.Mode) : State :=
  { s with ref := Function.update s.ref mode (s.ref mode - 1) }

def setReconnectFlag (v : Vif) (flag : Bool) : Vif :=
  { v with suspendResumeConnect := { v.suspendResumeConnect with reconnectFlag := flag } }

/-- The suspend disconnects the station first. -/
def Disconnects (env : HandleEnv) (mode : VifReferences.Mode) (s : State) : Prop :=
  mode = .station ∧ s.vif.conn.smState = .connected ∧ env.noWakeHost = true

instance (env : HandleEnv) (mode : VifReferences.Mode) (s : State) :
    Decidable (Disconnects env mode s) :=
  inferInstanceAs (Decidable (_ ∧ _))

/-- The interface after the disconnect of a suspend. -/
def suspendedVif (env : HandleEnv) (mode : VifReferences.Mode) (s : State) : Vif :=
  if Disconnects env mode s then
    { setReconnectFlag s.vif true with
      conn := sprdwlCfg80211Disconnect false env.disconnect s.vif.conn }
  else s.vif

/-- The branch of `sprdwl_suspend_resume_handle` for mode 0 -/
def suspend (env : HandleEnv) (mode : VifReferences.Mode) (s : State) : State × ℤ :=
  if env.queued then (s, -EBUSY)
  else
    ({ s with
        suspendMode := if env.powerSave = 0 then .suspended else .resumed
        vif := suspendedVif env mode s },
      env.powerSave)

/-- The branch for mode 1 -/
def resume (env : HandleEnv) (mode : VifReferences.Mode) (s : State) :
    Except Fault (State × Option ConnectCall) :=
  if mode = .station ∧ s.vif.suspendResumeConnect.reconnectFlag = true then
    -- The mode was found open, so the connect is not stopped at a closed interface.
    (sprdwlCfg80211Connect false s.vif.suspendResumeConnect.connectParams env.reconnect s.vif).map
      fun r =>
        ({ s with suspendMode := .resuming, vif := setReconnectFlag r.1 false }, r.2)
  else .ok ({ s with suspendMode := .resuming }, none)

/-- `sprdwl_suspend_resume_handle` -/
def sprdwlSuspendResumeHandle (s : State) (handleMode : ℕ) (env : HandleEnv) :
    Except Fault Handled :=
  match openMode env.fwStat with
  | none => .ok ⟨s, -EBUSY, none⟩
  | some mode =>
    if !env.vifs mode then .ok ⟨s, -EBUSY, none⟩
    else if env.cpAsserted then .ok ⟨(s.getVif mode).putVif mode, -EBUSY, none⟩
    else if handleMode = 0 then
      let r := suspend env mode (s.getVif mode)
      .ok ⟨r.1.putVif mode, r.2, none⟩
    else if handleMode = 1 then
      (resume env mode (s.getVif mode)).map fun r => ⟨r.1.putVif mode, env.powerSave, r.2⟩
    else .ok ⟨(s.getVif mode).putVif mode, -EBUSY, none⟩

inductive Event where
  /-- cfg80211 asks for a connection; the interface may be closed. -/
  | connect (closed : Bool) (sme : Sme) (o : ConnectOutcome)
  /-- cfg80211 ends the connection. -/
  | disconnect (o : DisconnectOutcome)
  /-- The firmware reports a connection. -/
  | reportConnection (info : ConnectInfo)
  | reportDisconnection
  /-- `sprdwl_event_suspend_resume` -/
  | resumed (status : ℕ)
  | handle (handleMode : ℕ) (env : HandleEnv)
  /-- The interface is removed, and added again with its memory zero. -/
  | added

def emptyParams : ConnectParams where
  channel := .null
  channelHint := .null
  bssid := .null
  bssidHint := .null
  ssid := .null
  ssidLen := 0
  authType := 0
  ie := .null
  ieLen := 0
  mfp := 0
  crypto := ⟨0, .unknown, 0, .unknown, 0, 0⟩
  key := .null
  keyLen := 0
  keyIdx := 0

def emptyVif : Vif :=
  ⟨⟨.disconnected, 0⟩,
    ⟨emptyParams, ⟨0, 0⟩, ⟨0, 0⟩, List.replicate IE_SIZE 0, List.replicate WLAN_MAX_KEY_LEN 0, 0, 0,
      List.replicate IEEE80211_MAX_SSID_LEN 0, false⟩⟩

def initial : State := ⟨.resumed, fun _ => 1, emptyVif, none, false⟩

/-- The parameters of the last accepted connect, after a call. -/
def lastAfter (last : Option Params) : Option ConnectCall → Option Params
  | some ⟨p, _, true⟩ => some p
  | _ => last

def State.Connected (s : State) : Prop := s.vif.conn.smState = .connected

instance (s : State) : Decidable s.Connected := inferInstanceAs (Decidable (_ = _))

/-- The state after a call, with what the suspends and resumes have come to. -/
def noteHandled (s : State) (handleMode : ℕ) (r : Handled) : State :=
  { r.state with
    last := lastAfter s.last r.call
    owed :=
      if handleMode = 0 then
        s.owed || decide (r.ret = 0 ∧ s.Connected ∧ ¬ r.state.Connected)
      else if handleMode = 1 then false
      else s.owed }

def step (s : State) : Event → Except Fault State
  | .connect closed sme o =>
    (sprdwlCfg80211Connect closed sme.connectParams o s.vif).map fun (vif, call) =>
      { s with vif := vif, last := lastAfter s.last call }
  | .disconnect o =>
    .ok { s with vif := { s.vif with conn := sprdwlCfg80211Disconnect true o s.vif.conn } }
  | .reportConnection info =>
    .ok { s with vif := { s.vif with conn := (reportConnection s.vif.conn info).1 } }
  | .reportDisconnection =>
    .ok { s with vif := { s.vif with conn := (reportDisconnection s.vif.conn).1 } }
  | .resumed status =>
    .ok
      { s with
        suspendMode :=
          if status = 1 ∧ s.suspendMode = .resuming then .resumed else s.suspendMode }
  | .handle handleMode env =>
    (sprdwlSuspendResumeHandle s handleMode env).map (noteHandled s handleMode)
  | .added => .ok { s with vif := emptyVif, last := none, owed := false }

/-- The station has been connected with what was saved last, and the copy is ready for a connect. -/
structure Sound (s : State) : Prop where
  inside : Inside s.vif.suspendResumeConnect
  known : Live s.vif.conn → s.last.isSome
  flagged : s.vif.suspendResumeConnect.reconnectFlag = true → s.last.isSome
  saved : ∀ p, s.last = some p →
    readParams s.vif.suspendResumeConnect s.vif.suspendResumeConnect.connectParams = .ok p ∧
      p.Searchable ∧ ¬ p.KeyRefused ∧ p.ssid ≠ none
  owed : s.owed = true → s.vif.suspendResumeConnect.reconnectFlag = true

/-- The mode whose interface the call works on, if it gets so far. -/
def HandleEnv.opened (env : HandleEnv) : Option VifReferences.Mode :=
  (openMode env.fwStat).filter fun mode => env.vifs mode && !env.cpAsserted

/-- An early error comes while nothing is suspended; where the station is disconnected for a suspend,
the firmware suspends; and the resume owed to the station finds it. -/
structure HandledOrderly (s : State) (handleMode : ℕ) (env : HandleEnv) : Prop where
  refused : handleMode = 0 → env.opened = none ∨ env.queued = true → s.suspendMode = .resumed
  disconnected : handleMode = 0 → ∀ mode, env.opened = some mode → env.queued = false →
    Disconnects env mode s → env.disconnect.sent = true → env.powerSave = 0
  resumes : handleMode = 1 → s.owed = true → env.opened = some .station

instance (s : State) (handleMode : ℕ) (env : HandleEnv) :
    Decidable (HandledOrderly s handleMode env) :=
  decidable_of_iff
    ((handleMode = 0 → env.opened = none ∨ env.queued = true → s.suspendMode = .resumed) ∧
      (handleMode = 0 → ∀ mode ∈ env.opened, env.queued = false →
        Disconnects env mode s → env.disconnect.sent = true → env.powerSave = 0) ∧
      (handleMode = 1 → s.owed = true → env.opened = some .station))
    ⟨fun ⟨h, h', h''⟩ => ⟨h, h', h''⟩, fun ⟨h, h', h''⟩ => ⟨h, h', h''⟩⟩

/-- The elements can be searched; and what is saved fits, and is saved: no reconnect is to come. -/
def Orderly (s : State) : Event → Prop
  | .connect closed sme o => closed = false → sme.params.Searchable ∧ (sme.params.Accepted o →
      s.vif.suspendResumeConnect.reconnectFlag = false ∧ sme.Fits)
  | .handle handleMode env => HandledOrderly s handleMode env
  | _ => True

/-- What holds of a call of `sprdwl_suspend_resume_handle`. -/
structure Kept (s : State) (handleMode : ℕ) (env : HandleEnv) (r : Handled) : Prop where
  error_resumed : handleMode = 0 → r.ret ≠ 0 → r.state.suspendMode = .resumed
  error_station : handleMode = 0 → r.ret ≠ 0 → s.Connected →
    r.state.Connected ∨ ∃ c, r.call = some c ∧ c.sent = true
  /-- The reconnect asks for what the last accepted connect was asked for, and the firmware is asked
  to connect unless a command for the elements or the key fails. -/
  reconnects : handleMode = 1 → s.owed = true → ∃ c, r.call = some c ∧ s.last = some c.asked ∧
    (¬ CommandFails c.asked env.reconnect → c.sent = true)
  ref : r.state.ref = s.ref

section Handle

variable {s : State} {env : HandleEnv} {mode : VifReferences.Mode}

@[simp] theorem putVif_getVif (s : State) (mode : VifReferences.Mode) :
    (s.getVif mode).putVif mode = s := by
  simp [State.getVif, State.putVif]

/-- The call returns early, or works on the interface of the mode. -/
theorem handle_refused (h : env.opened = none) (handleMode : ℕ) :
    sprdwlSuspendResumeHandle s handleMode env = .ok ⟨s, -EBUSY, none⟩ := by
  simp only [sprdwlSuspendResumeHandle]
  cases hm : openMode env.fwStat with
  | none => rfl
  | some mode =>
    have hgo : ¬ (env.vifs mode = true ∧ env.cpAsserted = false) := by
      simpa [HandleEnv.opened, hm, Option.filter] using h
    cases hv : env.vifs mode with
    | false => simp [hv]
    | true =>
      have hcp : env.cpAsserted = true := by simpa [hv] using hgo
      simp [hv, hcp]

theorem handle_opened (h : env.opened = some mode) (handleMode : ℕ) :
    sprdwlSuspendResumeHandle s handleMode env =
      if handleMode = 0 then
        let r := suspend env mode (s.getVif mode)
        .ok ⟨r.1.putVif mode, r.2, none⟩
      else if handleMode = 1 then
        (resume env mode (s.getVif mode)).map fun r => ⟨r.1.putVif mode, env.powerSave, r.2⟩
      else .ok ⟨s, -EBUSY, none⟩ := by
  obtain ⟨hm, hgo⟩ := Option.filter_eq_some_iff.mp h
  have hv : env.vifs mode = true ∧ env.cpAsserted = false := by simpa using hgo
  simp [sprdwlSuspendResumeHandle, hm, hv.1, hv.2]

/-- A state that differs in its counts and its suspend mode only is as sound. -/
theorem Sound.of_same {t : State} (h : Sound s) (hvif : t.vif = s.vif) (hlast : t.last = s.last)
    (howed : t.owed = true → s.owed = true) : Sound t where
  inside := hvif ▸ h.inside
  known hl := hlast ▸ h.known (hvif ▸ hl)
  flagged hf := hlast ▸ h.flagged (hvif ▸ hf)
  saved p hp := hvif ▸ h.saved p (hlast ▸ hp)
  owed ho := hvif ▸ h.owed (howed ho)

/-- A call that has returned early. -/
theorem kept_refused (h : Sound s) {handleMode : ℕ}
    (hmode : handleMode = 0 → s.suspendMode = .resumed)
    (howed : handleMode = 1 → s.owed = false) :
    Kept s handleMode env ⟨s, -EBUSY, none⟩ ∧
      Sound (noteHandled s handleMode ⟨s, -EBUSY, none⟩) := by
  refine ⟨⟨fun h0 _ => hmode h0, fun _ _ hc => Or.inl hc, fun h1 ho => ?_, rfl⟩, ?_⟩
  · rw [howed h1] at ho
    cases ho
  · refine h.of_same rfl rfl fun ho => ?_
    simp only [noteHandled] at ho
    split at ho
    · simpa [EBUSY] using ho
    · split at ho
      · cases ho
      · exact ho

/-- What a suspend leaves of the interface. -/
structure Suspended (s : State) (env : HandleEnv) (v : Vif) : Prop where
  con : readParams v.suspendResumeConnect v.suspendResumeConnect.connectParams =
    readParams s.vif.suspendResumeConnect s.vif.suspendResumeConnect.connectParams
  inside : Inside v.suspendResumeConnect
  live : Live v.conn → Live s.vif.conn
  flag : v.suspendResumeConnect.reconnectFlag = true →
    s.vif.suspendResumeConnect.reconnectFlag = true ∨ s.Connected
  kept_flag : s.vif.suspendResumeConnect.reconnectFlag = true →
    v.suspendResumeConnect.reconnectFlag = true
  disconnected : s.Connected → v.conn.smState ≠ .connected →
    v.suspendResumeConnect.reconnectFlag = true

theorem suspended_vif (h : Sound s) : Suspended s env (suspendedVif env mode s) := by
  by_cases hd : Disconnects env mode s
  · rw [suspendedVif, if_pos hd]
    exact ⟨rfl, ⟨h.inside.ie, h.inside.key, h.inside.ssid⟩, live_of_disconnect,
      fun _ => Or.inr hd.2.1, fun _ => rfl, fun _ _ => rfl⟩
  · rw [suspendedVif, if_neg hd]
    exact ⟨rfl, h.inside, id, Or.inl, id, fun hc hn => absurd hc hn⟩

/-- A suspend that fails leaves the station connected, if it does not fail after the disconnect. -/
theorem suspended_connected (hok : Disconnects env mode s → env.disconnect.sent = false)
    (hc : s.Connected) : (suspendedVif env mode s).conn.smState = .connected := by
  by_cases hd : Disconnects env mode s
  · rw [suspendedVif, if_pos hd, disconnect_failed (hok hd)]
    exact hc
  · rw [suspendedVif, if_neg hd]
    exact hc

theorem suspend_eq (s : State) (mode : VifReferences.Mode) (hq : env.queued = false) :
    ((suspend env mode (s.getVif mode)).1.putVif mode, (suspend env mode (s.getVif mode)).2) =
      ({ s with
          suspendMode := if env.powerSave = 0 then .suspended else .resumed
          vif := suspendedVif env mode s }, env.powerSave) := by
  have hvif : suspendedVif env mode (s.getVif mode) = suspendedVif env mode s := rfl
  simp only [suspend, hq, Bool.false_eq_true, if_false, hvif]
  simp [State.getVif, State.putVif]

/-- The call for a suspend. -/
theorem kept_suspend (h : Sound s) (ho : HandledOrderly s 0 env) (hopen : env.opened = some mode)
    (r : Handled)
    (hr : r = ⟨(suspend env mode (s.getVif mode)).1.putVif mode,
      (suspend env mode (s.getVif mode)).2, none⟩) :
    Kept s 0 env r ∧ Sound (noteHandled s 0 r) := by
  cases hq : env.queued with
  | true =>
    have hsame : r = ⟨s, -EBUSY, none⟩ := by simp [hr, suspend, hq]
    rw [hsame]
    exact kept_refused h (fun _ => ho.refused rfl (Or.inr hq)) fun h1 => absurd h1 (by decide)
  | false =>
    obtain ⟨hstate, hret⟩ := Prod.mk.inj (suspend_eq s mode hq)
    rw [hstate, hret] at hr
    subst hr
    have hv : Suspended s env (suspendedVif env mode s) := suspended_vif h
    refine ⟨⟨fun _ hne => if_neg hne, fun _ hne hc => Or.inl ?_, fun h1 => absurd h1 (by decide),
      rfl⟩, ?_⟩
    · refine suspended_connected (fun hd => ?_) hc
      by_contra hsent
      exact hne (ho.disconnected rfl mode hopen hq hd (by simpa using hsent))
    · refine ⟨hv.inside, fun hl => h.known (hv.live hl), fun hf => ?_, fun p hp => ?_, fun howed => ?_⟩
      · rcases hv.flag hf with hf | hc
        · exact h.flagged hf
        · exact h.known (Or.inr hc)
      · obtain ⟨hread, hk⟩ := h.saved p hp
        exact ⟨hv.con.trans hread, hk⟩
      · simp only [noteHandled, if_true, Bool.or_eq_true, decide_eq_true_eq] at howed
        rcases howed with howed | ⟨-, hc, hn⟩
        · exact hv.kept_flag (h.owed howed)
        · exact hv.disconnected hc hn

/-- The connect for a resume, from the copy, and whether the firmware accepts it. -/
theorem reconnect {p : Params} (h : Sound s) (hlast : s.last = some p)
    (hf : s.vif.suspendResumeConnect.reconnectFlag = true) (o : ConnectOutcome) :
    ∃ conn sent accepted,
      sprdwlCfg80211Connect false s.vif.suspendResumeConnect.connectParams o s.vif =
        .ok ({ s.vif with conn := conn }, some ⟨p, sent, accepted⟩) ∧
      (¬ CommandFails p o → sent = true) := by
  obtain ⟨hread, hsearch, hkey, hssid⟩ := h.saved p hlast
  by_cases hacc : p.Accepted o
  · obtain ⟨bssid, heq⟩ := connect_accepted hread hsearch hacc
    rw [if_pos hf] at heq
    exact ⟨_, true, true, heq, fun _ => rfl⟩
  · obtain ⟨conn, sent, heq, -, hsent⟩ := connect_not_accepted hread hsearch hacc
    exact ⟨conn, sent, false, heq, fun hc => hsent ⟨hc, hkey, hssid⟩⟩

/-- The call for a resume. -/
theorem kept_resume (h : Sound s) (ho : HandledOrderly s 1 env) (hopen : env.opened = some mode) :
    ∃ r, (resume env mode (s.getVif mode)).map
        (fun r => (⟨r.1.putVif mode, env.powerSave, r.2⟩ : Handled)) = .ok r ∧
      Kept s 1 env r ∧ Sound (noteHandled s 1 r) := by
  have href : ∀ w, (({ s.getVif mode with suspendMode := .resuming, vif := w } : State).putVif mode) =
      { s with suspendMode := .resuming, vif := w } := by
    intro w
    simp [State.getVif, State.putVif]
  by_cases hgo : mode = .station ∧ s.vif.suspendResumeConnect.reconnectFlag = true
  · obtain ⟨p, hlast⟩ := Option.isSome_iff_exists.mp (h.flagged hgo.2)
    obtain ⟨conn, sent, accepted, hconnect, hsent⟩ := reconnect h hlast hgo.2 env.reconnect
    refine ⟨⟨{ s with
        suspendMode := .resuming
        vif := setReconnectFlag { s.vif with conn := conn } false }, env.powerSave,
      some ⟨p, sent, accepted⟩⟩, ?_, ?_, ?_⟩
    · have hresume : resume env mode (s.getVif mode) =
          .ok ({ s.getVif mode with
            suspendMode := .resuming
            vif := setReconnectFlag { s.vif with conn := conn } false },
            some ⟨p, sent, accepted⟩) := by
        change (if mode = .station ∧ s.vif.suspendResumeConnect.reconnectFlag = true then
          (sprdwlCfg80211Connect false s.vif.suspendResumeConnect.connectParams env.reconnect
            s.vif).map _ else _) = _
        rw [if_pos hgo, hconnect, ok_map]
      rw [hresume, ok_map, href]
    · exact ⟨fun h0 => absurd h0 (by decide), fun h0 => absurd h0 (by decide),
        fun _ _ => ⟨_, rfl, hlast, hsent⟩, rfl⟩
    · have hafter : lastAfter s.last (some ⟨p, sent, accepted⟩) = some p := by
        cases accepted with
        | true => rfl
        | false => exact hlast
      refine ⟨⟨h.inside.ie, h.inside.key, h.inside.ssid⟩, fun _ => ?_, fun hf => ?_, fun q hq => ?_,
        fun howed => ?_⟩
      · exact Option.isSome_iff_exists.mpr ⟨p, hafter⟩
      · cases hf
      · have hqp : s.last = some q := hlast.trans (hafter.symm.trans hq)
        exact h.saved q hqp
      · cases howed
  · have hresume : resume env mode (s.getVif mode) =
        .ok ({ s.getVif mode with suspendMode := .resuming, vif := s.vif }, none) := by
      change (if mode = .station ∧ s.vif.suspendResumeConnect.reconnectFlag = true then _ else _) = _
      rw [if_neg hgo]
      rfl
    refine ⟨⟨{ s with suspendMode := .resuming, vif := s.vif }, env.powerSave, none⟩, ?_, ?_, ?_⟩
    · rw [hresume, ok_map, href]
    · refine ⟨fun h0 => absurd h0 (by decide), fun h0 => absurd h0 (by decide), fun _ howed => ?_, rfl⟩
      have hstation : mode = .station := by
        have := ho.resumes rfl howed
        rw [hopen] at this
        exact Option.some.inj this
      exact absurd ⟨hstation, h.owed howed⟩ hgo
    · exact h.of_same rfl rfl fun howed => by cases howed

/-- Every orderly call of `sprdwl_suspend_resume_handle` does what it should. -/
theorem handle_kept (h : Sound s) {handleMode : ℕ} (ho : HandledOrderly s handleMode env) :
    ∃ r, sprdwlSuspendResumeHandle s handleMode env = .ok r ∧ Kept s handleMode env r ∧
      Sound (noteHandled s handleMode r) := by
  cases hopen : env.opened with
  | none =>
    refine ⟨_, handle_refused hopen handleMode, kept_refused h (fun h0 => ?_) fun h1 => ?_⟩
    · exact ho.refused h0 (Or.inl hopen)
    · by_contra howed
      have hstation := ho.resumes h1 (by simpa using howed)
      rw [hopen] at hstation
      cases hstation
  | some mode =>
    rw [handle_opened hopen]
    by_cases h0 : handleMode = 0
    · subst h0
      exact ⟨_, if_pos rfl, kept_suspend h ho hopen _ rfl⟩
    · rw [if_neg h0]
      by_cases h1 : handleMode = 1
      · subst h1
        rw [if_pos rfl]
        exact kept_resume h ho hopen
      · rw [if_neg h1]
        exact ⟨_, rfl, kept_refused h (fun h => absurd h h0) fun h => absurd h h1⟩

end Handle

theorem initial_sound : Sound initial where
  inside := ⟨rfl, rfl, rfl⟩
  known h := by rcases h with h | h <;> cases h
  flagged h := by cases h
  saved p hp := by cases hp
  owed h := by cases h

/-- A connect of cfg80211 keeps the copy sound. -/
theorem step_connect {s : State} (h : Sound s) {closed : Bool} {sme : Sme} {o : ConnectOutcome}
    (ho : Orderly s (.connect closed sme o)) :
    ∃ t, step s (.connect closed sme o) = .ok t ∧ Sound t := by
  simp only [step]
  cases closed with
  | true => exact ⟨_, rfl, h.of_same rfl rfl id⟩
  | false =>
    have hread : readParams s.vif.suspendResumeConnect sme.connectParams = .ok sme.params :=
      readParams_caller _ sme
    obtain ⟨hsearch, hsave⟩ := ho rfl
    by_cases hacc : sme.params.Accepted o
    · obtain ⟨hflag, hfits⟩ := hsave hacc
      obtain ⟨bssid, heq⟩ := connect_accepted hread hsearch hacc
      obtain ⟨con, hset, hinside, hsaved⟩ := set_params hfits h.inside
      rw [hflag, if_neg Bool.false_ne_true, hset, ok_map] at heq
      rw [heq, ok_map]
      refine ⟨_, rfl, hinside, fun _ => rfl, fun _ => rfl, fun p hp => ?_, fun howed => ?_⟩
      · cases hp
        exact ⟨hsaved, hsearch, hacc.1.2.1, hacc.1.2.2⟩
      · have := h.owed howed
        rw [hflag] at this
        cases this
    · obtain ⟨conn, sent, heq, hlive, -⟩ := connect_not_accepted hread hsearch hacc
      rw [heq, ok_map]
      exact ⟨_, rfl, h.inside, fun hl => h.known (hlive hl), h.flagged, h.saved, h.owed⟩

/-- Every orderly event leaves the copy sound. -/
theorem step_sound {s : State} {e : Event} (h : Sound s) (ho : Orderly s e) :
    ∃ t, step s e = .ok t ∧ Sound t := by
  cases e with
  | connect closed sme o => exact step_connect h ho
  | disconnect o =>
    exact ⟨_, rfl, h.inside, fun hl => h.known (live_of_disconnect hl), h.flagged, h.saved, h.owed⟩
  | reportConnection info =>
    exact ⟨_, rfl, h.inside, fun hl => h.known (live_of_reportConnection hl), h.flagged, h.saved,
      h.owed⟩
  | reportDisconnection =>
    exact ⟨_, rfl, h.inside, fun hl => absurd hl (not_live_reportDisconnection _), h.flagged,
      h.saved, h.owed⟩
  | resumed status => exact ⟨_, rfl, h.of_same rfl rfl id⟩
  | handle handleMode env =>
    obtain ⟨r, hr, -, hsound⟩ := handle_kept h ho
    refine ⟨noteHandled s handleMode r, ?_, hsound⟩
    rw [step, hr, ok_map]
  | added =>
    exact ⟨_, rfl, initial_sound.inside, initial_sound.known, initial_sound.flagged,
      initial_sound.saved, initial_sound.owed⟩

/-- The reference is given back, whatever the call does. -/
theorem handle_ref {s : State} {handleMode : ℕ} {env : HandleEnv} {r : Handled}
    (hr : sprdwlSuspendResumeHandle s handleMode env = .ok r) : r.state.ref = s.ref := by
  cases hopen : env.opened with
  | none =>
    rw [handle_refused hopen] at hr
    cases hr
    rfl
  | some mode =>
    rw [handle_opened hopen] at hr
    have href : ∀ t : State, t.ref = (s.getVif mode).ref → (t.putVif mode).ref = s.ref := by
      intro t ht
      simp [State.putVif, State.getVif, ht]
    split at hr
    · cases hr
      apply href
      simp only [suspend]
      split <;> rfl
    · split at hr
      · obtain ⟨t, ht, rfl⟩ := map_eq_ok.mp hr
        apply href
        simp only [resume] at ht
        split at ht
        · obtain ⟨w, -, rfl⟩ := map_eq_ok.mp ht
          rfl
        · cases ht
          rfl
      · cases hr
        rfl

/-- In a run whose steps are orderly nothing is copied or read beyond its memory, the copy lies in
its arrays, and every orderly suspend or resume that comes next does what it should. The reference is
given back by every call, orderly or not. -/
theorem suspend_and_resume (es : List Event) (h : Along step Orderly initial es) :
    (∃ s, run step initial es = .ok s ∧ Inside s.vif.suspendResumeConnect ∧
      ∀ handleMode env, HandledOrderly s handleMode env →
        ∃ r, sprdwlSuspendResumeHandle s handleMode env = .ok r ∧ Kept s handleMode env r) ∧
      ∀ s handleMode env r,
        sprdwlSuspendResumeHandle s handleMode env = .ok r → r.state.ref = s.ref := by
  refine ⟨?_, fun s handleMode env r hr => handle_ref hr⟩
  obtain ⟨s, hr, hs⟩ := run_completes (fun _ _ => step_sound) initial_sound h
  refine ⟨s, hr, hs.inside, fun handleMode env ho => ?_⟩
  obtain ⟨r, hr, hkept, -⟩ := handle_kept hs ho
  exact ⟨r, hr, hkept⟩

/-- A network with an element of 22 bytes and a passphrase. -/
def network : Sme where
  channel := none
  channelHint := some ⟨2437, 0⟩
  bssid := none
  bssidHint := some 0x2200a1b2c3d4
  ssid := some [0x6c, 0x61, 0x62]
  authType := 0
  ie := [0x30, 0x14, 1, 0, 0, 0x0f, 0xac, 4, 1, 0, 0, 0x0f, 0xac, 4, 1, 0, 0, 0x0f, 0xac, 2, 0, 0]
  mfp := 0
  crypto := ⟨2, .ccmp, 1, .ccmp, 1, 0x000fac02⟩
  key := [1, 2, 3, 4, 5, 6, 7, 8]
  keyIdx := 0

def allAccepted : ConnectOutcome := ⟨⟨true, true⟩, [], true, true⟩

/-- The station is open, the host is not to be woken, and power save returns `ret`. -/
def stationOpen (ret : ℤ) : HandleEnv where
  fwStat mode := decide (mode = .station)
  vifs mode := decide (mode = .station)
  cpAsserted := false
  queued := false
  noWakeHost := true
  disconnect := ⟨true, true⟩
  powerSave := ret
  reconnect := allAccepted

theorem sendElements_allAccepted {ie : Bytes} (h : 6 ≤ ie.length) (hsize : ie.length < 2 ^ 64) :
    sendElements allAccepted ie = .ok 0 := by
  rw [sendElements, ConnectElements.connect_eq _ hsize h]
  exact congrArg Except.ok
    (congrArg ConnectElements.Sent.ret (ConnectElements.calls_zero _ ConnectElements.Sent.none rfl))

/-- The station behind a connect that everything accepts. -/
def connected (s : State) (sme : Sme) (con : SuspendResumeConnect) : State :=
  { s with vif := ⟨⟨.connecting, sme.params.bssid.getD 0⟩, con⟩, last := some sme.params }

theorem step_allAccepted {sme : Sme} (h : 6 ≤ sme.ie.length) (hsize : sme.ie.length < 2 ^ 64)
    (hkey : ¬ sme.params.KeyRefused) (hssid : sme.params.ssid ≠ none)
    (hadd : ¬ AddKeyFails sme.params allAccepted) :
    step initial (.connect false sme allAccepted) =
      (setSuspendResumeConnectParams sme.connectParams emptyVif.suspendResumeConnect).map
        (connected initial sme) := by
  have hread : readParams emptyVif.suspendResumeConnect sme.connectParams = .ok sme.params :=
    readParams_caller _ sme
  have helements : sendElements allAccepted sme.params.ie = .ok 0 := sendElements_allAccepted h hsize
  obtain ⟨hlong, hwep⟩ := not_or.mp hkey
  rw [step, sprdwlCfg80211Connect, if_neg Bool.false_ne_true]
  simp only [initial, hread, ok_bind, helements, ne_eq, not_true_eq_false, hadd, hlong, or_self, if_false,
    hwep, hssid]
  change (Except.map _ (Except.map _ _)) = _
  cases setSuspendResumeConnectParams sme.connectParams emptyVif.suspendResumeConnect with
  | error f => rfl
  | ok con => rfl

def reported : Event := .reportConnection ⟨.connectSuccess, some 0x2200a1b2c3d4, 20, 20, none⟩

/-- The station is connected to the network, and the copy is saved. -/
theorem run_network : ∃ con s, s.Connected ∧ s.suspendMode = .resumed ∧ s.owed = false ∧
    step initial (.connect false network allAccepted) = .ok (connected initial network con) ∧
    step (connected initial network con) reported = .ok s := by
  have hstep := @step_allAccepted network (by decide) (by decide) (by decide) (by decide)
    (by decide)
  obtain ⟨con, hset, -, -⟩ := @set_params network (by decide) _ initial_sound.inside
  refine ⟨con, _, ?_, ?_, ?_, hstep.trans (congrArg (Except.map _) hset), rfl⟩
  · rfl
  · rfl
  · rfl

theorem suspend_and_resume_connected :
    ∃ s, run step initial [.connect false network allAccepted, reported, .handle 0 (stationOpen 0)] =
        .ok s ∧
      ∃ r, sprdwlSuspendResumeHandle s 1 (stationOpen 0) = .ok r ∧ Kept s 1 (stationOpen 0) r := by
  obtain ⟨con, s, hconnected, hmode, howed, hconnect, hreport⟩ := run_network
  have horderly : Along step Orderly initial
      [.connect false network allAccepted, reported, .handle 0 (stationOpen 0)] := by
    refine ⟨fun _ => ⟨by decide, fun _ => ⟨rfl, by decide⟩⟩, fun s₁ hs₁ => ?_⟩
    obtain rfl := Except.ok.inj (hconnect.symm.trans hs₁)
    refine ⟨True.intro, fun s₂ hs₂ => ?_⟩
    obtain rfl := Except.ok.inj (hreport.symm.trans hs₂)
    exact ⟨⟨fun _ _ => hmode, fun _ _ _ _ _ _ => rfl, fun h1 => absurd h1 (by decide)⟩,
      fun _ _ => True.intro⟩
  obtain ⟨⟨t, hr, -, h⟩, -⟩ := suspend_and_resume _ horderly
  exact ⟨t, hr, h 1 (stationOpen 0) ⟨fun h0 => absurd h0 (by decide),
    fun h0 => absurd h0 (by decide), fun _ _ => rfl⟩⟩

/-- The station is disconnected, power save fails, and no reconnect is issued. Elements of 101 bytes
are copied beyond their array, and two bytes are searched beyond their end. -/
theorem suspend_fails_after_disconnect :
    (∃ s r, run step initial [.connect false network allAccepted, reported] = .ok s ∧ s.Connected ∧
      sprdwlSuspendResumeHandle s 0 (stationOpen (-110)) = .ok r ∧ r.ret = -110 ∧
      ¬ r.state.Connected ∧ r.call = none) ∧
    step initial (.connect false { network with ie := List.replicate 101 0 } allAccepted) =
      .error .beyondArray ∧
    step initial (.connect false { network with ie := [0x30, 0x14] } allAccepted) =
      .error .beyondArray := by
  refine ⟨?_, ?_, ?_⟩
  · obtain ⟨con, s, hconnected, -, -, hconnect, hreport⟩ := run_network
    refine ⟨s, _, ?_, hconnected, rfl, rfl, ?_, rfl⟩
    · rw [run_cons_ok hconnect, run_cons_ok hreport, run_nil]
    · have hd : Disconnects (stationOpen (-110)) .station (s.getVif .station) := ⟨rfl, hconnected, rfl⟩
      change ¬ (suspendedVif (stationOpen (-110)) .station (s.getVif .station)).conn.smState = .connected
      rw [suspendedVif, if_pos hd]
      exact fun hlive => disconnect_sent rfl false _ (Or.inr hlive)
  · rw [step_allAccepted (by decide) (by decide) (by decide) (by decide) (by decide)]
    rfl
  · rw [step, sprdwlCfg80211Connect, if_neg Bool.false_ne_true]
    have hread : readParams initial.vif.suspendResumeConnect
        ({ network with ie := [0x30, 0x14] } : Sme).connectParams =
          .ok ({ network with ie := [0x30, 0x14] } : Sme).params := readParams_caller _ _
    have helements : sendElements allAccepted [0x30, 0x14] = .error .beyondArray := by
      rw [sendElements, ConnectElements.connect, if_pos (by decide),
        ConnectElements.search_short _ (by decide) 0 (by decide)]
      rfl
    rw [hread, ok_bind]
    dsimp only [Sme.params]
    rw [helements]
    rfl

end Uwe5631.Suspend
