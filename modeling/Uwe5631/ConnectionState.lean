import Uwe5631.FallibleRuns
import Mathlib.Data.BitVec

/-!
# Connection state

The connect and disconnect calls of cfg80211 and the connection events of the firmware all set
`sm_state`. The calls come one at a time and wait for their commands, while events come at any time.
-/
namespace Uwe5631.ConnectionState
open FallibleRuns

/-- An Ethernet address. -/
abbrev Mac := BitVec 48

/-- What the driver uses of `enum sm_state`. -/
inductive SmState where
  | disconnecting
  | disconnected
  | connecting
  | connected
  | driverDisconnecting
  deriving DecidableEq, Repr

/-- `enum connect_result`, with the two for an IBSS. -/
inductive ConnectResult where
  | connectSuccess
  | connectFailed
  | roamSuccess
  | ibssJoin
  | ibssStart
  deriving DecidableEq, Repr

/-- The beacon of a connection event, with what cfg80211 says to it. -/
structure Beacon where
  channelKnown : Bool
  mgmt : Option Mac
  informed : Bool
  deriving DecidableEq, Repr

/-- `struct sprdwl_connect_info` -/
structure ConnectInfo where
  status : ConnectResult
  bssid : Option Mac
  reqIeLen : ℕ
  respIeLen : ℕ
  beacon : Option Beacon
  deriving DecidableEq, Repr

/-- What cfg80211 is told. -/
inductive Report where
  | connectResult (bssid : Mac) (success : Bool)
  | roamed (bss : Option Mac)
  | ibssJoined (bssid : Mac)
  | disconnected
  deriving DecidableEq, Repr

structure Vif where
  smState : SmState
  bssid : Mac
  deriving DecidableEq, Repr

/-- The channel and the frame of the beacon are there. -/
def Beacon.usable (b : Beacon) : Bool := b.channelKnown && b.mgmt.isSome

/-- `bss` in `sprdwl_report_connection` -/
def ConnectInfo.bss (info : ConnectInfo) : Option Mac :=
  info.beacon.bind fun b => if b.informed then b.mgmt else none

/-- The address of an event that passes the checks of `sprdwl_report_connection`. -/
def ConnectInfo.checked (info : ConnectInfo) : Option Mac :=
  if info.status = .connectFailed ∨ info.reqIeLen = 0 ∨ info.respIeLen = 0 then none
  else if info.beacon.all Beacon.usable then info.bssid
  else none

/-- What `sprdwl_report_connection` reports of an event that passes its checks. -/
def ConnectInfo.report (info : ConnectInfo) (sm : SmState) (bssid : Mac) : Option Report :=
  match sm, info.status with
  | .connecting, .connectSuccess => some (.connectResult bssid true)
  | .connected, .roamSuccess => some (.roamed info.bss)
  | .connected, .ibssJoin => some (.ibssJoined bssid)
  | .connected, .ibssStart => some (.ibssJoined bssid)
  | _, _ => none

/-- The label `err` of `sprdwl_report_connection` -/
def connectionFailed (v : Vif) : Vif × Option Report :=
  ({ v with bssid := 0 },
    if v.smState = .connecting then some (.connectResult v.bssid false) else none)

/-- `sprdwl_report_connection` -/
def reportConnection (v : Vif) (info : ConnectInfo) : Vif × Option Report :=
  if v.smState ≠ .connecting ∧ v.smState ≠ .connected then (v, none)
  else
    match info.checked with
    | none => connectionFailed v
    | some bssid =>
      match info.report v.smState bssid with
      | none => connectionFailed v
      | some r => (⟨.connected, bssid⟩, some r)

/-- `sprdwl_report_disconnection` -/
def reportDisconnection (v : Vif) : Vif × Option Report :=
  match v.smState with
  | .driverDisconnecting => (⟨.disconnected, 0⟩, none)
  | .connecting => (⟨.disconnected, 0⟩, some (.connectResult v.bssid false))
  | .connected => (⟨.disconnected, 0⟩, some .disconnected)
  | .disconnecting => (⟨.disconnected, 0⟩, some .disconnected)
  | .disconnected => (v, none)

/-- The call under way, with its `old_state`. A disconnect may be the one of a connect call. -/
inductive Call where
  | none
  | begun (old : SmState)
  | prepared (old : SmState)
  | addressed (old : SmState)
  | sent (old : SmState)
  | disconnect (wiphy : Bool) (old : SmState) (outer : Option SmState)
  deriving DecidableEq, Repr

/-- What the driver owes cfg80211: a request may be open, the last result may have been a success
with no disconnect since, and a disconnect may have been asked for. -/
structure Ledger where
  asked : Bool
  joined : Option Mac
  leaving : Bool
  deriving DecidableEq, Repr

structure State where
  vif : Vif
  call : Call
  ledger : Ledger
  deriving DecidableEq, Repr

inductive Event where
  /-- a connect call -/
  | connect (fwClosed : Bool)
  /-- its test of the state, after the random address is set -/
  | testState
  /-- the address it asks for -/
  | setBssid (bssid : Option Mac)
  /-- a failure before the connect command -/
  | connectError
  /-- its end without a connect command -/
  | noSsid
  /-- its connect command -/
  | sendConnect
  /-- the outcome of the connect command -/
  | connectDone (ok : Bool)
  /-- a disconnect call, with or without `wiphy`, and its command -/
  | disconnect (wiphy : Bool)
  /-- the outcome of the disconnect command -/
  | disconnectDone (ok : Bool)
  | fwConnect (info : ConnectInfo)
  | fwDisconnect
  deriving DecidableEq, Repr

def State.setSm (s : State) (sm : SmState) (call : Call) : State :=
  { s with vif := { s.vif with smState := sm }, call := call }

def Ledger.empty : Ledger := ⟨false, none, false⟩

/-- A disconnect that the firmware has taken withdraws what is open. -/
def Ledger.leave (l : Ledger) (wiphy : Bool) : Ledger :=
  ⟨false, none, l.leaving || wiphy && (l.asked || l.joined.isSome)⟩

def Ledger.hear (l : Ledger) : Report → Ledger
  | .connectResult bssid true => { l with asked := false, joined := some bssid }
  | .connectResult _ false => { l with asked := false }
  | .roamed bss => { l with joined := bss.or l.joined }
  | .ibssJoined bssid => { l with joined := some bssid }
  | .disconnected => .empty

def disconnectState (wiphy : Bool) : SmState :=
  if wiphy then .disconnecting else .driverDisconnecting

/-- `sprdwl_cfg80211_disconnect` up to its command -/
def disconnect (s : State) (wiphy : Bool) (outer : Option SmState) : State :=
  s.setSm (disconnectState wiphy) (.disconnect wiphy s.vif.smState outer)

/-- What is reported in a step, and what becomes of the interface. -/
def tell (s : State) : Event → Vif × Option Report
  | .fwConnect info => reportConnection s.vif info
  | .fwDisconnect => reportDisconnection s.vif
  | _ => (s.vif, none)

def next (s : State) (e : Event) : State :=
  match e, s.call with
  | .connect fwClosed, .none => if fwClosed then s else { s with call := .begun s.vif.smState }
  | .testState, .begun old =>
    if s.vif.smState = .connecting ∨ s.vif.smState = .connected then disconnect s false (some old)
    else { s with call := .prepared old }
  | .setBssid bssid, .prepared old =>
    { s with vif := { s.vif with bssid := bssid.getD s.vif.bssid }, call := .addressed old }
  | .connectError, .prepared old => s.setSm old .none
  | .connectError, .addressed old => s.setSm old .none
  | .noSsid, .addressed _ => { s with call := .none, ledger := { s.ledger with asked := true } }
  | .sendConnect, .addressed old =>
    { s.setSm .connecting (.sent old) with ledger := { s.ledger with asked := true } }
  | .connectDone true, .sent _ => { s with call := .none }
  | .connectDone false, .sent old =>
    { s.setSm old .none with ledger := { s.ledger with asked := false } }
  | .disconnect wiphy, .none => disconnect s wiphy none
  | .disconnectDone true, .disconnect wiphy _ outer =>
    { s with call := outer.elim .none .prepared, ledger := s.ledger.leave wiphy }
  | .disconnectDone false, .disconnect _ old outer => s.setSm old (outer.elim .none .prepared)
  | .fwConnect info, _ =>
    let (vif, r) := reportConnection s.vif info
    { s with vif := vif, ledger := r.elim s.ledger s.ledger.hear }
  | .fwDisconnect, _ => { s with vif := (reportDisconnection s.vif).1, ledger := .empty }
  | _, _ => s

/-- No step faults. -/
def step (s : State) (e : Event) : Except Empty State := .ok (next s e)

def init : State := ⟨⟨.disconnected, 0⟩, .none, .empty⟩

/-- An open request or a reported connection accounts for the report. -/
def Accounted (l : Ledger) : Report → Prop
  | .connectResult _ _ => l.asked = true
  | .roamed _ => l.joined.isSome
  | .ibssJoined _ => l.joined.isSome
  | .disconnected => l.asked = true ∨ l.joined.isSome ∨ l.leaving = true

/-- `sm_state` and `bssid` say what is owed. While a disconnect command is under way, it is not yet
known whether what is owed is withdrawn. -/
structure Consistent (s : State) : Prop where
  connecting : s.vif.smState = .connecting → s.ledger.asked = true
  connected : s.vif.smState = .connected → s.ledger.joined = some s.vif.bssid
  asked : (∀ wiphy old outer, s.call ≠ .disconnect wiphy old outer) → s.ledger.asked = true →
    s.vif.smState = .connecting
  joined : (∀ wiphy old outer, s.call ≠ .disconnect wiphy old outer) →
    s.ledger.joined.isSome → s.vif.smState = .connected

/-- What a step keeps to. -/
structure Sound (s : State) (e : Event) : Prop where
  accounted : ∀ r, (tell s e).2 = some r → Accounted s.ledger r
  consistent : Consistent (next s e)

/-- Neither connecting nor connected. -/
def Idle (sm : SmState) : Prop := sm ≠ .connecting ∧ sm ≠ .connected

instance (sm : SmState) : Decidable (Idle sm) :=
  inferInstanceAs (Decidable (sm ≠ .connecting ∧ sm ≠ .connected))

/-- The old state is one to go back to when nothing is open any more. -/
def Quiet (s : State) (old : SmState) : Prop :=
  Idle old ∧ (old = .disconnecting → s.ledger.leaving = true)

instance (s : State) (old : SmState) : Decidable (Quiet s old) :=
  inferInstanceAs (Decidable (_ ∧ _))

/-- A failing call goes back to a state that still holds; a connect command goes out while neither
connecting nor connected; cfg80211 asks for a disconnect while something is open; an event of the
firmware while connecting is a success, and one while connected tells cfg80211 of the address that
the driver stores. -/
def Fine (s : State) (e : Event) : Prop :=
  let v := s.vif
  match e, s.call with
  | .setBssid bssid, .prepared _ => v.smState = .connected → bssid.getD v.bssid = v.bssid
  | .connectError, .prepared old => v.smState = old ∨ Quiet s old
  | .connectError, .addressed old => v.smState = old ∨ Quiet s old
  | .noSsid, .addressed _ => False
  | .sendConnect, .addressed _ => Idle v.smState
  | .connectDone false, .sent old => v.smState ≠ .connected ∧ Quiet s old
  | .disconnect true, .none => v.smState ≠ .disconnected ∧ v.smState ≠ .driverDisconnecting
  | .disconnectDone false, .disconnect _ old _ =>
    v.smState = .disconnected → old = .disconnected ∨ old = .driverDisconnecting
  | .fwConnect info, _ =>
    (v.smState = .connecting → info.checked.isSome ∧ info.status = .connectSuccess) ∧
    (v.smState = .connected → info.checked.isSome ∧ info.status ≠ .connectSuccess ∧
      (info.status = .roamSuccess → info.checked = some (info.bss.getD v.bssid)))
  | _, _ => True

/-- What is owed in a state. -/
def Owes (v : Vif) (l : Ledger) : SmState → Prop
  | .connecting => l.asked = true ∧ l.joined = none
  | .connected => l.asked = false ∧ l.joined = some v.bssid
  | .disconnecting => l.asked = false ∧ l.joined = none ∧ l.leaving = true
  | .disconnected => l.asked = false ∧ l.joined = none
  | .driverDisconnecting => l.asked = false ∧ l.joined = none

/-- What the call under way may rely on. -/
def Inv (s : State) : Prop :=
  match s.call with
  | .none => Owes s.vif s.ledger s.vif.smState
  | .begun old => Owes s.vif s.ledger s.vif.smState ∧ (Idle old → Idle s.vif.smState)
  | .prepared old => Owes s.vif s.ledger s.vif.smState ∧ (Idle old → Idle s.vif.smState)
  | .addressed old => Owes s.vif s.ledger s.vif.smState ∧ (Idle old → Idle s.vif.smState)
  | .sent _ => Owes s.vif s.ledger s.vif.smState
  | .disconnect wiphy old outer =>
    (Owes s.vif s.ledger old ∧ s.vif.smState = disconnectState wiphy ∨
      s.vif.smState = .disconnected ∧ s.ledger = .empty) ∧
    (wiphy = true → old ≠ .disconnected ∧ old ≠ .driverDisconnecting) ∧
    ∀ o, outer = some o → Idle o → Idle old

variable {s : State} {v v' : Vif} {l : Ledger} {e : Event} {sm old : SmState} {info : ConnectInfo}

theorem Owes.consistent (h : Owes s.vif s.ledger s.vif.smState) : Consistent s := by
  cases hsm : s.vif.smState with
  | connecting =>
    rw [hsm] at h
    exact ⟨fun _ => h.1, by simp [hsm], fun _ _ => hsm, by simp [h.2]⟩
  | connected =>
    rw [hsm] at h
    exact ⟨by simp [hsm], fun _ => h.2, by simp [h.1], fun _ _ => hsm⟩
  | disconnecting =>
    rw [hsm] at h
    exact ⟨by simp [hsm], by simp [hsm], by simp [h.1], by simp [h.2.1]⟩
  | disconnected =>
    rw [hsm] at h
    exact ⟨by simp [hsm], by simp [hsm], by simp [h.1], by simp [h.2]⟩
  | driverDisconnecting =>
    rw [hsm] at h
    exact ⟨by simp [hsm], by simp [hsm], by simp [h.1], by simp [h.2]⟩

/-- Only the address of a connection matters. -/
theorem Owes.vif (h : Owes v l sm) (hbssid : sm = .connected → v'.bssid = v.bssid) :
    Owes v' l sm := by
  cases sm with
  | connecting => exact h
  | connected => exact ⟨h.1, by rw [h.2, hbssid rfl]⟩
  | disconnecting => exact h
  | disconnected => exact h
  | driverDisconnecting => exact h

theorem disconnectState_idle (wiphy : Bool) : Idle (disconnectState wiphy) := by
  cases wiphy <;> decide

theorem Inv.consistent (h : Inv s) : Consistent s := by
  obtain ⟨v, call, l⟩ := s
  cases call with
  | none => exact Owes.consistent h
  | begun old => exact Owes.consistent h.1
  | prepared old => exact Owes.consistent h.1
  | addressed old => exact Owes.consistent h.1
  | sent old => exact Owes.consistent h
  | disconnect wiphy old outer =>
    have hidle : Idle v.smState := by
      rcases h.1 with ⟨-, hsm⟩ | ⟨hsm, -⟩
      · rw [show v.smState = _ from hsm]
        exact disconnectState_idle wiphy
      · rw [show v.smState = _ from hsm]
        decide
    exact ⟨fun hsm => absurd hsm hidle.1, fun hsm => absurd hsm hidle.2,
      fun hcall => absurd rfl (hcall wiphy old outer),
      fun hcall => absurd rfl (hcall wiphy old outer)⟩

/-- With nothing open, an old state that is quiet can be gone back to. -/
theorem Owes.restore (h : Owes v l v.smState) (hidle : Idle v.smState)
    (hold : Idle old ∧ (old = .disconnecting → l.leaving = true)) : Owes v' l old := by
  have hnothing : l.asked = false ∧ l.joined = none := by
    cases hsm : v.smState with
    | connecting => exact absurd hsm hidle.1
    | connected => exact absurd hsm hidle.2
    | disconnecting =>
      rw [hsm] at h
      exact ⟨h.1, h.2.1⟩
    | disconnected =>
      rw [hsm] at h
      exact h
    | driverDisconnecting =>
      rw [hsm] at h
      exact h
  cases old with
  | connecting => exact absurd rfl hold.1.1
  | connected => exact absurd rfl hold.1.2
  | disconnecting => exact ⟨hnothing.1, hnothing.2, hold.2 rfl⟩
  | disconnected => exact hnothing
  | driverDisconnecting => exact hnothing

/-! ## The events of the firmware -/

theorem reportConnection_idle (hidle : Idle v.smState) : reportConnection v info = (v, none) := by
  unfold reportConnection
  exact if_pos hidle

/-- What a connection event leads to that is as it should be. -/
theorem reportConnection_owes (h : Owes v l v.smState)
    (hconnecting : v.smState = .connecting → info.checked.isSome ∧ info.status = .connectSuccess)
    (hconnected : v.smState = .connected → info.checked.isSome ∧ info.status ≠ .connectSuccess ∧
      (info.status = .roamSuccess → info.checked = some (info.bss.getD v.bssid))) :
    Owes (reportConnection v info).1 ((reportConnection v info).2.elim l l.hear)
        (reportConnection v info).1.smState ∧
      (Idle v.smState → Idle (reportConnection v info).1.smState) ∧
      ∀ r, (reportConnection v info).2 = some r → Accounted l r := by
  by_cases hidle : Idle v.smState
  · rw [reportConnection_idle hidle]
    exact ⟨h, fun _ => hidle, by simp⟩
  · obtain ⟨sm, stored⟩ := v
    cases sm with
    | disconnecting => exact absurd (by simp [Idle]) hidle
    | disconnected => exact absurd (by simp [Idle]) hidle
    | driverDisconnecting => exact absurd (by simp [Idle]) hidle
    | connecting =>
      obtain ⟨hchecked, hstatus⟩ := hconnecting rfl
      obtain ⟨bssid, hbssid⟩ := Option.isSome_iff_exists.mp hchecked
      have hreport : reportConnection ⟨.connecting, stored⟩ info =
          (⟨.connected, bssid⟩, some (.connectResult bssid true)) := by
        simp [reportConnection, hbssid, ConnectInfo.report, hstatus]
      rw [hreport]
      refine ⟨⟨rfl, rfl⟩, fun hi => absurd hi hidle, fun r hr => ?_⟩
      obtain rfl := Option.some.inj hr
      exact h.1
    | connected =>
      obtain ⟨hchecked, hstatus, hroam⟩ := hconnected rfl
      obtain ⟨bssid, hbssid⟩ := Option.isSome_iff_exists.mp hchecked
      obtain ⟨hasked, hjoined⟩ := h
      have hibss (hs : info.status = .ibssJoin ∨ info.status = .ibssStart) :
          reportConnection ⟨.connected, stored⟩ info =
            (⟨.connected, bssid⟩, some (.ibssJoined bssid)) := by
        rcases hs with hs | hs <;> simp [reportConnection, hbssid, ConnectInfo.report, hs]
      cases hs : info.status with
      | connectSuccess => exact absurd hs hstatus
      | connectFailed =>
        rw [ConnectInfo.checked, if_pos (.inl hs)] at hbssid
        cases hbssid
      | ibssJoin =>
        rw [hibss (.inl hs)]
        refine ⟨⟨hasked, rfl⟩, fun hi => absurd hi hidle, fun r hr => ?_⟩
        obtain rfl := Option.some.inj hr
        simp [Accounted, hjoined]
      | ibssStart =>
        rw [hibss (.inr hs)]
        refine ⟨⟨hasked, rfl⟩, fun hi => absurd hi hidle, fun r hr => ?_⟩
        obtain rfl := Option.some.inj hr
        simp [Accounted, hjoined]
      | roamSuccess =>
        have hreport : reportConnection ⟨.connected, stored⟩ info =
            (⟨.connected, bssid⟩, some (.roamed info.bss)) := by
          simp [reportConnection, hbssid, ConnectInfo.report, hs]
        have hsame : bssid = info.bss.getD stored :=
          Option.some.inj (hbssid.symm.trans (hroam hs))
        rw [hreport]
        refine ⟨⟨hasked, ?_⟩, fun hi => absurd hi hidle, fun r hr => ?_⟩
        · rw [hsame]
          cases hbss : info.bss with
          | none => simpa [Ledger.hear] using hjoined
          | some b => simp [Ledger.hear]
        · obtain rfl := Option.some.inj hr
          simp [Accounted, hjoined]

theorem reportDisconnection_disconnected (v : Vif) :
    (reportDisconnection v).1.smState = .disconnected := by
  obtain ⟨sm, bssid⟩ := v
  cases sm <;> rfl

theorem reportDisconnection_accounted (h : Owes v l v.smState) {r : Report}
    (hr : (reportDisconnection v).2 = some r) : Accounted l r := by
  obtain ⟨sm, bssid⟩ := v
  cases sm with
  | disconnecting =>
    obtain rfl := Option.some.inj hr
    exact .inr (.inr h.2.2)
  | disconnected => cases hr
  | connecting =>
    obtain rfl := Option.some.inj hr
    exact h.1
  | connected =>
    obtain rfl := Option.some.inj hr
    exact .inr (.inl (by rw [h.2]; rfl))
  | driverDisconnecting => cases hr

theorem owes_empty (v : Vif) : Owes v .empty .disconnected := ⟨rfl, rfl⟩

theorem fwDisconnect_inv (h : Inv s) : Inv (next s .fwDisconnect) := by
  obtain ⟨v, call, l⟩ := s
  have hsm := reportDisconnection_disconnected v
  have howes : Owes (reportDisconnection v).1 .empty (reportDisconnection v).1.smState := by
    rw [hsm]
    exact owes_empty _
  have hidle : Idle (reportDisconnection v).1.smState := by
    rw [hsm]
    decide
  cases call with
  | none => exact howes
  | begun old => exact ⟨howes, fun _ => hidle⟩
  | prepared old => exact ⟨howes, fun _ => hidle⟩
  | addressed old => exact ⟨howes, fun _ => hidle⟩
  | sent old => exact howes
  | disconnect wiphy old outer => exact ⟨.inr ⟨hsm, rfl⟩, h.2⟩

/-- Under a disconnect command an event of a connection is unexpected. -/
theorem disconnect_idle {wiphy : Bool} {outer : Option SmState}
    (h : Inv ⟨v, .disconnect wiphy old outer, l⟩) : Idle v.smState := by
  rcases h.1 with ⟨-, hsm⟩ | ⟨hsm, -⟩
  · rw [show v.smState = _ from hsm]
    exact disconnectState_idle wiphy
  · rw [show v.smState = _ from hsm]
    decide

theorem fwConnect_inv (h : Inv s) (hf : Fine s (.fwConnect info)) :
    Inv (next s (.fwConnect info)) := by
  obtain ⟨v, call, l⟩ := s
  obtain ⟨hconnecting, hconnected⟩ := hf
  cases call with
  | none => exact (reportConnection_owes h hconnecting hconnected).1
  | begun old =>
    obtain ⟨howes, hidle, -⟩ := reportConnection_owes h.1 hconnecting hconnected
    exact ⟨howes, fun ho => hidle (h.2 ho)⟩
  | prepared old =>
    obtain ⟨howes, hidle, -⟩ := reportConnection_owes h.1 hconnecting hconnected
    exact ⟨howes, fun ho => hidle (h.2 ho)⟩
  | addressed old =>
    obtain ⟨howes, hidle, -⟩ := reportConnection_owes h.1 hconnecting hconnected
    exact ⟨howes, fun ho => hidle (h.2 ho)⟩
  | sent old => exact (reportConnection_owes h hconnecting hconnected).1
  | disconnect wiphy old outer =>
    simp only [next, reportConnection_idle (disconnect_idle h), Option.elim_none]
    exact h

/-! ## The calls -/

/-- A disconnect command leaves what is owed open until its outcome. -/
theorem disconnect_inv {wiphy : Bool} {outer : Option SmState}
    (h : Owes s.vif s.ledger s.vif.smState)
    (hwiphy : wiphy = true → s.vif.smState ≠ .disconnected ∧ s.vif.smState ≠ .driverDisconnecting)
    (houter : ∀ o, outer = some o → Idle o → Idle s.vif.smState) :
    Inv (disconnect s wiphy outer) := by
  exact ⟨.inl ⟨h.vif fun _ => rfl, rfl⟩, hwiphy, houter⟩

/-- After a disconnect command that the firmware has taken nothing is open. -/
theorem Owes.leave {wiphy : Bool} (h : Owes v l old)
    (hwiphy : wiphy = true → old ≠ .disconnected ∧ old ≠ .driverDisconnecting) :
    Owes v' (l.leave wiphy) (disconnectState wiphy) := by
  cases wiphy with
  | false => exact ⟨rfl, rfl⟩
  | true =>
    refine ⟨rfl, rfl, ?_⟩
    obtain ⟨hdis, hdriver⟩ := hwiphy rfl
    cases old with
    | connecting => simp [Ledger.leave, h.1]
    | connected => simp [Ledger.leave, h.2]
    | disconnecting => simp [Ledger.leave, h.2.2]
    | disconnected => exact absurd rfl hdis
    | driverDisconnecting => exact absurd rfl hdriver

theorem disconnectDone_inv {wiphy ok : Bool} {outer : Option SmState}
    (h : Inv ⟨v, .disconnect wiphy old outer, l⟩)
    (hf : Fine ⟨v, .disconnect wiphy old outer, l⟩ (.disconnectDone ok)) :
    Inv (next ⟨v, .disconnect wiphy old outer, l⟩ (.disconnectDone ok)) := by
  obtain ⟨howed, hwiphy, houter⟩ := h
  -- what is owed in the state the call leaves behind
  obtain ⟨w, l', hnext, howes, hidle⟩ : ∃ w l',
      next ⟨v, .disconnect wiphy old outer, l⟩ (.disconnectDone ok) =
        ⟨w, outer.elim .none .prepared, l'⟩ ∧ Owes w l' w.smState ∧
        ∀ o, outer = some o → Idle o → Idle w.smState := by
    cases ok with
    | true =>
      refine ⟨v, l.leave wiphy, rfl, ?_, fun o ho _ => ?_⟩
      · rcases howed with ⟨howes, hsm⟩ | ⟨hsm, -⟩
        · rw [show v.smState = _ from hsm]
          exact howes.leave hwiphy
        · rw [show v.smState = _ from hsm]
          exact ⟨rfl, rfl⟩
      · exact disconnect_idle ⟨howed, hwiphy, houter⟩
    | false =>
      refine ⟨{ v with smState := old }, l, rfl, ?_, houter⟩
      rcases howed with ⟨howes, -⟩ | ⟨hsm, hl⟩
      · exact howes.vif fun _ => rfl
      · obtain rfl : l = .empty := hl
        rcases hf hsm with rfl | rfl <;> exact ⟨rfl, rfl⟩
  rw [hnext]
  cases outer with
  | none => exact howes
  | some o => exact ⟨howes, hidle o rfl⟩

/-- A connect call that fails before its command. -/
theorem connectError_owes (h : Owes v l v.smState) (hidle : Idle old → Idle v.smState)
    (hold : v.smState = old ∨ Idle old ∧ (old = .disconnecting → l.leaving = true)) :
    Owes { v with smState := old } l old := by
  rcases hold with rfl | hquiet
  · exact h.vif fun _ => rfl
  · exact h.restore (hidle hquiet.1) hquiet

theorem next_inv (h : Inv s) (hf : Fine s e) : Inv (next s e) := by
  cases e with
  | fwConnect info => exact fwConnect_inv h hf
  | fwDisconnect => exact fwDisconnect_inv h
  | connect fwClosed =>
    obtain ⟨v, call, l⟩ := s
    cases call with
    | none =>
      cases fwClosed with
      | true => exact h
      | false => exact ⟨h, fun hidle => hidle⟩
    | _ => exact h
  | testState =>
    obtain ⟨v, call, l⟩ := s
    cases call with
    | begun old =>
      simp only [next]
      split
      · exact disconnect_inv h.1 (by simp) (fun o ho hidle => h.2 (Option.some.inj ho ▸ hidle))
      · exact h
    | _ => exact h
  | setBssid bssid =>
    obtain ⟨v, call, l⟩ := s
    cases call with
    | prepared old =>
      exact ⟨h.1.vif hf, h.2⟩
    | _ => exact h
  | connectError =>
    obtain ⟨v, call, l⟩ := s
    cases call with
    | prepared old => exact connectError_owes h.1 h.2 hf
    | addressed old => exact connectError_owes h.1 h.2 hf
    | _ => exact h
  | noSsid =>
    obtain ⟨v, call, l⟩ := s
    cases call with
    | addressed old => exact hf.elim
    | _ => exact h
  | sendConnect =>
    obtain ⟨v, call, l⟩ := s
    cases call with
    | addressed old =>
      have hnothing : Owes v l .disconnected := h.1.restore hf (by simp [Idle])
      exact ⟨rfl, hnothing.2⟩
    | _ => exact h
  | connectDone ok =>
    obtain ⟨v, call, l⟩ := s
    cases call with
    | sent old =>
      cases ok with
      | true => exact h
      | false =>
        obtain ⟨hconnected, hidle, hleaving⟩ := hf
        have hjoined : l.joined = none := by
          cases hsm : v.smState with
          | connected => exact absurd hsm hconnected
          | _ =>
            have howes : Owes v l v.smState := h
            rw [hsm] at howes
            first | exact howes.2 | exact howes.2.1
        cases old with
        | connecting => exact absurd rfl hidle.1
        | connected => exact absurd rfl hidle.2
        | disconnecting => exact ⟨rfl, hjoined, hleaving rfl⟩
        | disconnected => exact ⟨rfl, hjoined⟩
        | driverDisconnecting => exact ⟨rfl, hjoined⟩
    | _ => cases ok <;> exact h
  | disconnect wiphy =>
    obtain ⟨v, call, l⟩ := s
    cases call with
    | none =>
      refine disconnect_inv h (fun hwiphy => ?_) (by simp)
      subst hwiphy
      exact hf
    | _ => exact h
  | disconnectDone ok =>
    obtain ⟨v, call, l⟩ := s
    cases call with
    | disconnect wiphy old outer => exact disconnectDone_inv h hf
    | _ => cases ok <;> exact h

/-! ## What is reported -/

theorem fwDisconnect_accounted (h : Inv s) {r : Report}
    (hr : (reportDisconnection s.vif).2 = some r) : Accounted s.ledger r := by
  obtain ⟨v, call, l⟩ := s
  cases call with
  | none => exact reportDisconnection_accounted h hr
  | begun old => exact reportDisconnection_accounted h.1 hr
  | prepared old => exact reportDisconnection_accounted h.1 hr
  | addressed old => exact reportDisconnection_accounted h.1 hr
  | sent old => exact reportDisconnection_accounted h hr
  | disconnect wiphy old outer =>
    obtain ⟨sm, bssid⟩ := v
    obtain ⟨howed, hwiphy, -⟩ := h
    rcases howed with ⟨howes, hsm⟩ | ⟨hsm, -⟩
    · obtain rfl : sm = disconnectState wiphy := hsm
      cases wiphy with
      | false => cases hr
      | true =>
        obtain rfl := Option.some.inj hr
        obtain ⟨hdis, hdriver⟩ := hwiphy rfl
        cases old with
        | connecting => exact .inl howes.1
        | connected => exact .inr (.inl (by rw [howes.2]; rfl))
        | disconnecting => exact .inr (.inr howes.2.2)
        | disconnected => exact absurd rfl hdis
        | driverDisconnecting => exact absurd rfl hdriver
    · obtain rfl : sm = .disconnected := hsm
      cases hr

theorem fwConnect_accounted (h : Inv s) (hf : Fine s (.fwConnect info)) {r : Report}
    (hr : (reportConnection s.vif info).2 = some r) : Accounted s.ledger r := by
  obtain ⟨v, call, l⟩ := s
  obtain ⟨hconnecting, hconnected⟩ := hf
  cases call with
  | none => exact (reportConnection_owes h hconnecting hconnected).2.2 r hr
  | begun old => exact (reportConnection_owes h.1 hconnecting hconnected).2.2 r hr
  | prepared old => exact (reportConnection_owes h.1 hconnecting hconnected).2.2 r hr
  | addressed old => exact (reportConnection_owes h.1 hconnecting hconnected).2.2 r hr
  | sent old => exact (reportConnection_owes h hconnecting hconnected).2.2 r hr
  | disconnect wiphy old outer =>
    rw [reportConnection_idle (disconnect_idle h)] at hr
    cases hr

theorem fine_sound (h : Inv s) (hf : Fine s e) : Sound s e where
  consistent := (next_inv h hf).consistent
  accounted r hr := by
    cases e with
    | fwConnect info => exact fwConnect_accounted h hf hr
    | fwDisconnect => exact fwDisconnect_accounted h hr
    | _ => cases hr

/-- In a run of calls and events that meet their conditions every report is accounted for, and the
state is the one of what is owed. -/
theorem connection_accounted {es : List Event} (hf : Along step Fine init es) :
    ∀ h e rest s, es = h ++ e :: rest → run step init h = .ok s → Sound s e := by
  rintro h e rest s rfl hs
  obtain ⟨hbefore, hafter⟩ := along_append.mp hf
  refine fine_sound (run_invariant (I := Inv) (fun s e t hI hfe ht => ?_) ?_ hbefore hs)
    (hafter s hs).1
  · obtain rfl := Except.ok.inj ht
    exact next_inv hI hfe
  · exact ⟨rfl, rfl⟩

/-- An event of a success at an address, with its beacon. -/
def success (status : ConnectResult) (bssid : Mac) : ConnectInfo :=
  ⟨status, some bssid, 1, 1, some ⟨true, some bssid, true⟩⟩

/-- A connect call that goes well. -/
def sampleConnect : List Event :=
  [.connect false, .testState, .setBssid (some 1), .sendConnect, .connectDone true]

/-- A connection that roams and is ended by cfg80211. -/
def sampleRun : List Event :=
  sampleConnect ++ [.fwConnect (success .connectSuccess 1), .fwConnect (success .roamSuccess 2),
    .disconnect true, .disconnectDone true, .fwDisconnect]

theorem sampleRun_accounted :
    ∃ s, run step init sampleRun.dropLast = .ok s ∧ Sound s .fwDisconnect := by
  refine ⟨_, rfl, @connection_accounted sampleRun ?_ sampleRun.dropLast .fwDisconnect [] _ rfl rfl⟩
  simp [sampleRun, sampleConnect, Along, step, next, init, Fine, State.setSm, disconnect, success,
    reportConnection, ConnectInfo.checked, ConnectInfo.report, ConnectInfo.bss, Beacon.usable, Idle]

/-- The access point refuses, and then refuses once more. -/
def sampleRefused : List Event :=
  sampleConnect ++ [.fwConnect ⟨.connectFailed, some 1, 0, 0, none⟩]

/-- The request is answered, the state goes on to say that it is open, and the next failure answers
it again. -/
theorem failed_result_stays_connecting :
    (∃ s, run step init sampleRefused = .ok s ∧ s.vif.smState = .connecting ∧
      s.ledger.asked = false ∧
      (tell s (.fwConnect ⟨.connectFailed, some 1, 0, 0, none⟩)).2 =
        some (.connectResult 0 false)) ∧
    ¬ ∀ h e rest s, sampleRefused = h ++ e :: rest → run step init h = .ok s → Sound s e := by
  refine ⟨⟨_, rfl, rfl, rfl, rfl⟩, fun hall => ?_⟩
  have hsound := hall sampleConnect _ [] _ rfl rfl
  exact absurd (hsound.consistent.connecting rfl) (by decide)

end Uwe5631.ConnectionState
