import Uwe5631.FallibleRuns
import Mathlib

/-!
# The ranging session

A session is started and aborted by requests and ended by the firmware, which reports measurements of
one peer after the other. They are collected in `ftm_res` and passed on as results of a peer. All
operations run under `ftm.lock`.
-/
namespace Uwe5631.Ftm
open FallibleRuns

abbrev EAGAIN : ℤ := 11

abbrev ENOMEM : ℤ := 12

abbrev EINVAL : ℤ := 22

abbrev EALREADY : ℤ := 114

/-- `SPRDWL_VENDOR_ATTR_FTM_PEER_RES_STATUS_OK` and `_INVALID` -/
inductive PeerStatus where
  | ok
  | invalid
  deriving DecidableEq, Repr

/-- `struct sprdwl_ftm_peer_meas` -/
structure Meas where
  t1 : BitVec 64
  t2 : BitVec 64
  t3 : BitVec 64
  t4 : BitVec 64
  deriving DecidableEq, Repr

/-- What `struct sprdwl_ftm_peer_meas_res` has of the `n_meas` measurements in it. -/
structure PeerMeasRes where
  macAddr : BitVec 48
  status : PeerStatus
  meas : List Meas
  deriving DecidableEq, Repr

/-- `struct sprdwl_ftm_meas_peer_info`, with the channel its frequency is found at and 0 for none -/
structure PeerInfo where
  macAddr : BitVec 48
  channel : BitVec 8
  measPerBurst : BitVec 8
  deriving DecidableEq, Repr

/-- `struct sprdwl_ftm_session_request` -/
structure SessionRequest where
  sessionCookie : BitVec 64
  peers : List PeerInfo
  deriving DecidableEq, Repr

/-- `struct ftm_per_dest_res`, with the measurements of `actual_ftm_per_burst` -/
structure PerDestRes where
  dstMac : BitVec 48
  status : BitVec 8
  flags : BitVec 8
  responderFtmRes : List Meas
  deriving DecidableEq, Repr

/-- What a request to start a session meets. -/
structure StartOutcome where
  /-- the first `kzalloc` -/
  ftmRes : Bool
  /-- the second one -/
  cmd : Bool
  /-- `sprdwl_cmd_getbuf` -/
  msg : Bool
  /-- `sprdwl_cmd_send_recv` -/
  ret : ℤ
  deriving DecidableEq, Repr

structure State where
  /-- whether `ftm.lock` is taken by an operation that has returned -/
  locked : Bool
  sessionStarted : Bool
  sessionCookie : BitVec 64
  ftmRes : Option PeerMeasRes
  hasFtmRes : Bool
  maxFtmMeas : ℕ
  /-- the measurements that were recorded, with the address they were received for -/
  recorded : List (BitVec 48 × Meas)
  /-- the results that were passed on -/
  reports : List PeerMeasRes
  deriving DecidableEq, Repr

/-- `sprdwl_ftm_send_meas_result`, with whether the event is allocated and filled -/
def sendMeasResult (s : State) (res : PeerMeasRes) (sent : Bool) : State :=
  if sent then { s with reports := s.reports ++ [res] } else s

/-- `sprdwl_ftm_send_peer_res` -/
def sendPeerRes (s : State) (sent : Bool) : State :=
  if !s.hasFtmRes then s
  else
    match s.ftmRes with
    | none => s
    | some res =>
      { sendMeasResult s res sent with
        hasFtmRes := false
        ftmRes := some { res with meas := [] } }

/-- `max_meas` -/
def maxMeas (request : SessionRequest) : ℕ :=
  request.peers.foldl (fun m peer => max m peer.measPerBurst.toNat) 0

/-- `sprdwl_ftm_cfg80211_start_session` -/
def startSession (s : State) (request : SessionRequest) (o : StartOutcome) : State × ℤ :=
  if s.sessionStarted then (s, -EALREADY)
  else if !o.ftmRes then ({ s with ftmRes := none }, -ENOMEM)
  else
    let s := { s with ftmRes := some ⟨0, .ok, []⟩, maxFtmMeas := maxMeas request }
    let ret : ℤ :=
      if !o.cmd then -ENOMEM
      else if request.peers.any (fun peer => peer.channel = 0) then -EINVAL
      else if !o.msg then -ENOMEM
      else o.ret
    if ret ≠ 0 then ({ s with ftmRes := none }, ret)
    else ({ s with sessionCookie := request.sessionCookie, sessionStarted := true }, 0)

/-- `sprdwl_ftm_session_ended`, with whether the left-over results can be sent; the event that tells
of the end changes nothing. -/
def sessionEnded (s : State) (sent : Bool) : State :=
  if !s.sessionStarted then { s with locked := true }
  else { sendPeerRes s sent with sessionStarted := false, ftmRes := none }

/-- The loop of `sprdwl_ftm_event_per_dest_res` over the measurements. -/
def recordMeas (s : State) (dstMac : BitVec 48) : List Meas → State
  | [] => s
  | m :: ms =>
    match s.ftmRes with
    | none => s
    | some res =>
      if res.meas.length ≥ s.maxFtmMeas then s
      else recordMeas
        { s with
          ftmRes := some { res with meas := res.meas ++ [m] }
          recorded := s.recorded ++ [(dstMac, m)] } dstMac ms

/-- The status and the measurements of a report that count. -/
def reported (res : PerDestRes) : PeerStatus × List Meas :=
  match res.status.toNat with
  | 0x00 => (.ok, res.responderFtmRes)
  -- the firmware reports corrupted results here
  | 0x01 => (.ok, [])
  | _ => (.invalid, res.responderFtmRes)

/-- `FTM_PER_DEST_RES_BURST_REPORT_END` -/
def burstReportEnd (res : PerDestRes) : Bool := res.flags &&& 0x02 ≠ 0

/-- The part of `sprdwl_ftm_event_per_dest_res` that has `ftm_res` hold the peer of the report. -/
def setPeer (s : State) (dstMac : BitVec 48) (sent : Bool) : State :=
  match s.ftmRes with
  | none => s
  | some res =>
    let s := if s.hasFtmRes ∧ dstMac ≠ res.macAddr then sendPeerRes s sent else s
    if s.hasFtmRes then s
    else
      { s with
        ftmRes := s.ftmRes.map fun res => { res with macAddr := dstMac }
        hasFtmRes := true }

/-- The part that adds the measurements of the report to it. -/
def collect (s : State) (res : PerDestRes) (sentPrevious : Bool) : State :=
  let s := setPeer s res.dstMac sentPrevious
  let s := { s with ftmRes := s.ftmRes.map fun r => { r with status := (reported res).1 } }
  recordMeas s res.dstMac (reported res).2

/-- `sprdwl_ftm_event_per_dest_res`, with whether the results of the previous peer and those of this
one can be sent. -/
def eventPerDestRes (s : State) (res : PerDestRes) (sentPrevious sent : Bool) : State :=
  if !s.sessionStarted ∨ s.ftmRes = none then s
  else
    let s := collect s res sentPrevious
    if burstReportEnd res then sendPeerRes s sent else s

/-- `sprdwl_ftm_abort_session`, with the outcomes of `sprdwl_cmd_getbuf` and `sprdwl_cmd_send_recv` -/
def abortSession (s : State) (msg : Bool) (ret : ℤ) : State × ℤ :=
  if !s.sessionStarted then ({ s with locked := true }, -EAGAIN)
  else if !msg then ({ s with locked := true }, -ENOMEM)
  else (s, ret)

inductive Event where
  | startSession (request : SessionRequest) (o : StartOutcome)
  | sessionEnded (sent : Bool)
  | perDestRes (res : PerDestRes) (sentPrevious sent : Bool)
  | abortSession (msg : Bool) (ret : ℤ)
  deriving DecidableEq, Repr

/-- What an operation does that has got the lock. -/
def body (s : State) : Event → State
  | .startSession request o => (startSession s request o).1
  | .sessionEnded sent => sessionEnded s sent
  | .perDestRes res sentPrevious sent => eventPerDestRes s res sentPrevious sent
  | .abortSession msg ret => (abortSession s msg ret).1

/-- An operation waits for the lock, for good if one before it has kept it. -/
def stepTo (s : State) (e : Event) : State := if s.locked then s else body s e

def step (s : State) (e : Event) : Except Empty State := .ok (stepTo s e)

/-- `sprdwl_ftm_init` -/
def init : State := ⟨false, false, 0, none, false, 0, [], []⟩

/-- The measurements in `ftm_res`, with the address they are for. -/
def pending (s : State) : List (BitVec 48 × Meas) :=
  match s.ftmRes with
  | none => []
  | some res => res.meas.map (res.macAddr, ·)

/-- The measurements in the results that were passed on. -/
def passedOn (s : State) : List (BitVec 48 × Meas) :=
  s.reports.flatMap fun res => res.meas.map (res.macAddr, ·)

/-- The lock is free, `ftm_res` is there exactly in a session and not too full, and each recorded
measurement is in one result for the address it was received for, or still to be passed on. -/
structure Orderly (s : State) : Prop where
  unlocked : s.locked = false
  res : s.ftmRes.isSome = s.sessionStarted
  bounded : ∀ res, s.ftmRes = some res → res.meas.length ≤ s.maxFtmMeas
  has : s.hasFtmRes = true → s.sessionStarted = true
  reported : s.recorded = passedOn s ++ pending s

/-- Whether `ftm_res` holds results of another peer than that of a report. -/
def otherPeer (s : State) (res : PerDestRes) : Prop :=
  s.hasFtmRes = true ∧ ∀ r, s.ftmRes = some r → res.dstMac ≠ r.macAddr

/-- What an operation must meet: an abort and the end a session, and a result that has measurements
the means to be sent. -/
def Met (s : State) : Event → Prop
  | .startSession _ _ => True
  | .sessionEnded sent => s.sessionStarted = true ∧ (pending s ≠ [] → sent = true)
  | .perDestRes res sentPrevious sent => s.sessionStarted = true →
    (otherPeer s res → pending s ≠ [] → sentPrevious = true) ∧
    (burstReportEnd res = true →
      pending s ≠ [] ∧ ¬ otherPeer s res ∨ (reported res).2 ≠ [] ∧ s.maxFtmMeas ≠ 0 → sent = true)
  | .abortSession msg _ => s.sessionStarted = true ∧ msg = true

variable {s t : State} {sent : Bool} {res : PeerMeasRes} {mac : BitVec 48} {ms : List Meas}

/-! ## Sending results -/

theorem pending_of_some (h : s.ftmRes = some res) : pending s = res.meas.map (res.macAddr, ·) := by
  rw [pending, h]

theorem passedOn_sendMeasResult :
    passedOn (sendMeasResult s res sent) =
      passedOn s ++ if sent then res.meas.map (res.macAddr, ·) else [] := by
  cases sent <;> simp [sendMeasResult, passedOn]

theorem sendPeerRes_of_not_has (h : s.hasFtmRes = false) : sendPeerRes s sent = s := by
  simp [sendPeerRes, h]

theorem sendPeerRes_of_has (h : s.hasFtmRes = true) (hres : s.ftmRes = some res) :
    sendPeerRes s sent =
      { sendMeasResult s res sent with
        hasFtmRes := false
        ftmRes := some { res with meas := [] } } := by
  simp [sendPeerRes, h, hres]

/-- The fields that sending a result does not change. -/
structure SameSession (s t : State) : Prop where
  locked : t.locked = s.locked
  sessionStarted : t.sessionStarted = s.sessionStarted
  maxFtmMeas : t.maxFtmMeas = s.maxFtmMeas

theorem SameSession.refl (s : State) : SameSession s s := ⟨rfl, rfl, rfl⟩

variable (s sent) in
theorem sendPeerRes_sameSession : SameSession s (sendPeerRes s sent) := by
  rw [sendPeerRes]
  split
  · exact .refl s
  · cases s.ftmRes with
    | none => exact .refl s
    | some res => cases sent <;> exact ⟨rfl, rfl, rfl⟩

/-- What has been recorded is passed on or pending. -/
def Balanced (s : State) : Prop := s.recorded = passedOn s ++ pending s

/-- A measurement is neither passed on nor pending. -/
def Lost (s : State) : Prop := (passedOn s).length + (pending s).length < s.recorded.length

theorem Balanced.not_lost (h : Balanced s) : ¬ Lost s := by
  intro hlost
  have hlength := congrArg List.length h
  rw [List.length_append] at hlength
  exact absurd hlost (by rw [Lost]; omega)

variable (sent) in
/-- What sending the results of a peer leaves. -/
theorem sendPeerRes_spec (h : s.hasFtmRes = true) (hres : s.ftmRes = some res) :
    (sendPeerRes s sent).ftmRes = some { res with meas := [] } ∧
      (sendPeerRes s sent).hasFtmRes = false ∧ (sendPeerRes s sent).recorded = s.recorded ∧
      passedOn (sendPeerRes s sent) = passedOn s ++ (if sent then pending s else []) ∧
      pending (sendPeerRes s sent) = [] := by
  rw [sendPeerRes_of_has h hres, pending_of_some hres]
  refine ⟨rfl, rfl, ?_, passedOn_sendMeasResult, rfl⟩
  cases sent <;> rfl

/-! ## Collecting measurements -/

/-- In a session `ftm_res` is there and not too full; without results it is empty. -/
structure Sound (s : State) : Prop where
  orderly : Orderly s
  empty : s.hasFtmRes = false → pending s = []

theorem Sound.some (h : Sound s) (hstarted : s.sessionStarted = true) :
    ∃ res, s.ftmRes = some res ∧ res.meas.length ≤ s.maxFtmMeas := by
  have hsome := h.orderly.res.trans hstarted
  obtain ⟨res, hres⟩ := Option.isSome_iff_exists.mp hsome
  exact ⟨res, hres, h.orderly.bounded res hres⟩

variable (s mac sent) in
theorem setPeer_sameSession : SameSession s (setPeer s mac sent) := by
  rw [setPeer]
  cases s.ftmRes with
  | none => exact .refl s
  | some res =>
    dsimp only
    by_cases hother : s.hasFtmRes = true ∧ mac ≠ res.macAddr
    · rw [if_pos hother]
      have hsame := sendPeerRes_sameSession s sent
      split
      · exact hsame
      · exact ⟨hsame.locked, hsame.sessionStarted, hsame.maxFtmMeas⟩
    · rw [if_neg hother]
      split <;> exact ⟨rfl, rfl, rfl⟩

variable (sent) in
/-- `ftm_res` holds the peer of a report, with the results it has if they are of this peer. -/
theorem setPeer_spec (h : Sound s) (hstarted : s.sessionStarted = true) (r : PerDestRes) :
    ∃ res, (setPeer s r.dstMac sent).ftmRes = some res ∧ res.macAddr = r.dstMac ∧
      res.meas.length ≤ s.maxFtmMeas ∧ (setPeer s r.dstMac sent).hasFtmRes = true ∧
      (setPeer s r.dstMac sent).recorded = s.recorded ∧
      (¬ otherPeer s r → passedOn (setPeer s r.dstMac sent) = passedOn s ∧
        pending (setPeer s r.dstMac sent) = pending s) ∧
      (otherPeer s r →
        passedOn (setPeer s r.dstMac sent) = passedOn s ++ (if sent then pending s else []) ∧
        pending (setPeer s r.dstMac sent) = []) := by
  obtain ⟨res, hres, hlength⟩ := h.some hstarted
  have hother : otherPeer s r ↔ s.hasFtmRes = true ∧ r.dstMac ≠ res.macAddr := by
    simp [otherPeer, hres]
  by_cases hhas : s.hasFtmRes = true
  · by_cases hmac : r.dstMac = res.macAddr
    · have hsame : setPeer s r.dstMac sent = s := by
        simp [setPeer, hres, hhas, hmac]
      rw [hsame]
      refine ⟨res, hres, hmac.symm, hlength, hhas, rfl, fun _ => ⟨rfl, rfl⟩, fun hbad => ?_⟩
      exact absurd hmac (hother.mp hbad).2
    · obtain ⟨hres', hhas', hrecorded, hpassed, -⟩ := sendPeerRes_spec sent hhas hres
      have heq : setPeer s r.dstMac sent =
          { sendPeerRes s sent with
            ftmRes := Option.some { res with meas := [], macAddr := r.dstMac }
            hasFtmRes := true } := by
        simp only [setPeer, hres, hhas, ne_eq, hmac, not_false_eq_true, and_self, if_true, hhas',
          Bool.false_eq_true, if_false, hres', Option.map_some]
      rw [heq]
      exact ⟨_, rfl, rfl, Nat.zero_le _, rfl, hrecorded,
        fun hno => absurd (hother.mpr ⟨hhas, hmac⟩) hno, fun _ => ⟨hpassed, rfl⟩⟩
  · have hhas : s.hasFtmRes = false := by simpa using hhas
    have hempty := h.empty hhas
    have hmeas : res.meas = [] := by simpa [pending, hres] using hempty
    have heq : setPeer s r.dstMac sent =
        { s with ftmRes := Option.some { res with macAddr := r.dstMac }, hasFtmRes := true } := by
      simp [setPeer, hres, hhas]
    rw [heq]
    refine ⟨_, rfl, rfl, hlength, rfl, rfl, fun _ => ⟨rfl, ?_⟩, fun hbad => ?_⟩
    · rw [hempty]
      simp [pending, hmeas]
    · exact absurd (hother.mp hbad).1 (by simp [hhas])

variable (ms) in
/-- The loop records as many measurements as there is room for. -/
theorem recordMeas_spec (hres : s.ftmRes = some res) (hmac : res.macAddr = mac)
    (hlength : res.meas.length ≤ s.maxFtmMeas) :
    ∃ taken, recordMeas s mac ms =
        { s with
          ftmRes := some { res with meas := res.meas ++ taken }
          recorded := s.recorded ++ taken.map (mac, ·) } ∧
      (res.meas ++ taken).length ≤ s.maxFtmMeas ∧
      (taken = [] ↔ ms = [] ∨ s.maxFtmMeas ≤ res.meas.length) := by
  induction ms generalizing s res with
  | nil =>
    refine ⟨[], ?_, by simpa using hlength, by simp⟩
    simp only [recordMeas, List.append_nil, List.map_nil, ← hres]
  | cons m ms ih =>
    by_cases hfull : s.maxFtmMeas ≤ res.meas.length
    · refine ⟨[], ?_, by simpa using hlength, by simp [hfull]⟩
      rw [recordMeas]
      simp only [hres, ge_iff_le, if_pos hfull, List.append_nil, List.map_nil]
      rw [← hres]
    · have hnext : ({ s with
          ftmRes := some { res with meas := res.meas ++ [m] }
          recorded := s.recorded ++ [(mac, m)] } : State).ftmRes =
          some { res with meas := res.meas ++ [m] } := rfl
      obtain ⟨taken, hrest, hle, -⟩ := ih hnext hmac (by simp; omega)
      refine ⟨m :: taken, ?_, by simpa using hle, by simp [hfull]⟩
      rw [recordMeas, hres]
      dsimp only
      rw [if_neg hfull, hrest]
      simp

/-- What a report of the firmware adds in a session: what is sent of the previous peer, what is kept,
and what is taken of the report. -/
structure Collected (s t : State) (r : PerDestRes) (sentPrevious : Bool)
    (first held taken : List (BitVec 48 × Meas)) : Prop where
  other : otherPeer s r → first = (if sentPrevious then pending s else []) ∧ held = []
  same : ¬ otherPeer s r → first = [] ∧ held = pending s
  taken_eq_nil : taken = [] ↔ (reported r).2 = [] ∨ s.maxFtmMeas ≤ held.length
  session : SameSession s t
  recorded : t.recorded = s.recorded ++ taken
  passed : passedOn t = passedOn s ++ first
  waits : pending t = held ++ taken
  has : t.hasFtmRes = true
  some : ∃ res, t.ftmRes = some res ∧ res.meas.length ≤ s.maxFtmMeas

theorem collect_spec (h : Sound s) (hstarted : s.sessionStarted = true) (r : PerDestRes)
    (sentPrevious : Bool) :
    ∃ first held taken, Collected s (collect s r sentPrevious) r sentPrevious first held taken := by
  obtain ⟨res, hres, hmac, hlength, hhas, hrecorded, hsame, hother⟩ :=
    setPeer_spec sentPrevious h hstarted r
  have hsession := setPeer_sameSession s sentPrevious r.dstMac
  have hmax := hsession.maxFtmMeas
  have hkept : pending (setPeer s r.dstMac sentPrevious) = res.meas.map (r.dstMac, ·) := by
    rw [pending_of_some hres, hmac]
  have hset : ({ setPeer s r.dstMac sentPrevious with
      ftmRes := (setPeer s r.dstMac sentPrevious).ftmRes.map fun x =>
        { x with status := (reported r).1 } } : State).ftmRes =
      some { res with status := (reported r).1 } := by
    rw [hres]
    rfl
  obtain ⟨taken, hrecord, hle, htaken⟩ :=
    recordMeas_spec (reported r).2 hset hmac (hlength.trans_eq hmax.symm)
  have hcollect : collect s r sentPrevious =
      { setPeer s r.dstMac sentPrevious with
        ftmRes := Option.some { res with status := (reported r).1, meas := res.meas ++ taken }
        recorded := (setPeer s r.dstMac sentPrevious).recorded ++ taken.map (r.dstMac, ·) } :=
    hrecord
  have hpassed : passedOn (collect s r sentPrevious) =
      passedOn (setPeer s r.dstMac sentPrevious) := by
    rw [hcollect]
    rfl
  have hpending : pending (collect s r sentPrevious) =
      res.meas.map (r.dstMac, ·) ++ taken.map (r.dstMac, ·) := by
    rw [hcollect, ← List.map_append, ← hmac]
    rfl
  obtain ⟨first, hfirst, hother', hsame'⟩ : ∃ first,
      passedOn (setPeer s r.dstMac sentPrevious) = passedOn s ++ first ∧
      (otherPeer s r → first = if sentPrevious then pending s else []) ∧
      (¬ otherPeer s r → first = []) := by
    by_cases ho : otherPeer s r
    · exact ⟨_, (hother ho).1, fun _ => rfl, fun hno => absurd ho hno⟩
    · exact ⟨[], by rw [(hsame ho).1, List.append_nil], fun hyes => absurd hyes ho, fun _ => rfl⟩
  refine ⟨first, res.meas.map (r.dstMac, ·), taken.map (r.dstMac, ·), ?_, ?_, ?_, ?_, ?_,
    hpassed.trans hfirst, hpending, ?_, ?_⟩
  · intro ho
    exact ⟨hother' ho, hkept.symm.trans (hother ho).2⟩
  · intro ho
    exact ⟨hsame' ho, hkept.symm.trans (hsame ho).2⟩
  · rw [List.map_eq_nil_iff, List.length_map, ← hmax]
    exact htaken
  · rw [hcollect]
    exact ⟨hsession.locked, hsession.sessionStarted, hmax⟩
  · rw [hcollect, ← hrecorded]
  · rw [hcollect]
    exact hhas
  · rw [hcollect]
    exact ⟨_, rfl, hle.trans_eq hmax⟩

/-- The whole report, the sending at its end included. -/
theorem eventPerDestRes_eq (h : Sound s) (hstarted : s.sessionStarted = true) (r : PerDestRes)
    (sentPrevious : Bool) : eventPerDestRes s r sentPrevious sent =
      if burstReportEnd r then sendPeerRes (collect s r sentPrevious) sent
      else collect s r sentPrevious := by
  obtain ⟨res, hres, -⟩ := h.some hstarted
  have hguard : ¬ ((!s.sessionStarted) = true ∨ s.ftmRes = none) := by
    simp [hstarted, hres]
  rw [eventPerDestRes, if_neg hguard]

/-- Sending results that can be sent, or that there are none of. -/
theorem Balanced.sendPeerRes (h : Balanced s) (hhas : s.hasFtmRes = true)
    (hres : s.ftmRes = some res) (hsent : pending s ≠ [] → sent = true) :
    Balanced (sendPeerRes s sent) := by
  obtain ⟨-, -, hrecorded, hpassed, hpending⟩ := sendPeerRes_spec sent hhas hres
  rw [Balanced, hrecorded, hpassed, hpending, List.append_nil]
  by_cases hnone : pending s = []
  · rw [Balanced, hnone] at h
    rw [h, hnone, ite_self]
  · rw [hsent hnone, if_pos rfl]
    exact h

theorem Balanced.sendPeerRes_lost (h : Balanced s) (hhas : s.hasFtmRes = true)
    (hres : s.ftmRes = some res) (hpending : pending s ≠ []) : Lost (Ftm.sendPeerRes s false) := by
  obtain ⟨-, -, hrecorded, hpassed, hnone⟩ := sendPeerRes_spec false hhas hres
  have hpos := List.length_pos_of_ne_nil hpending
  rw [Lost, hrecorded, hpassed, hnone, h, List.length_append]
  simpa using hpos

theorem Lost.sendPeerRes (h : Lost s) (hhas : s.hasFtmRes = true) (hres : s.ftmRes = some res) :
    Lost (sendPeerRes s sent) := by
  obtain ⟨-, -, hrecorded, hpassed, hnone⟩ := sendPeerRes_spec sent hhas hres
  rw [Lost] at h ⊢
  rw [hrecorded, hpassed, hnone]
  cases sent
  · simp only [Bool.false_eq_true, if_false, List.append_nil, List.length_nil]
    omega
  · simp only [if_true, List.length_append, List.length_nil]
    omega

variable {r : PerDestRes} {sentPrevious : Bool} {first held taken : List (BitVec 48 × Meas)}

theorem Collected.balanced (h : Collected s t r sentPrevious first held taken) (hs : Sound s)
    (hprevious : otherPeer s r → pending s ≠ [] → sentPrevious = true) : Balanced t := by
  rw [Balanced, h.recorded, h.passed, h.waits, hs.orderly.reported]
  by_cases ho : otherPeer s r
  · obtain ⟨rfl, rfl⟩ := h.other ho
    by_cases hnone : pending s = []
    · simp [hnone]
    · simp [hprevious ho hnone]
  · obtain ⟨rfl, rfl⟩ := h.same ho
    simp

theorem Collected.lost (h : Collected s t r sentPrevious first held taken) (hs : Sound s)
    (ho : otherPeer s r) (hpending : pending s ≠ []) (hprevious : sentPrevious = false) :
    Lost t := by
  obtain ⟨rfl, rfl⟩ := h.other ho
  have hpos := List.length_pos_of_ne_nil hpending
  rw [Lost, h.recorded, h.passed, h.waits, hs.orderly.reported, hprevious]
  simp only [Bool.false_eq_true, if_false, List.append_nil, List.nil_append, List.length_append]
  omega

/-- When there is something to send at the end of a report. -/
theorem Collected.pending_ne_nil_iff (h : Collected s t r sentPrevious first held taken) :
    pending t ≠ [] ↔
      pending s ≠ [] ∧ ¬ otherPeer s r ∨ (reported r).2 ≠ [] ∧ s.maxFtmMeas ≠ 0 := by
  rw [h.waits]
  have htaken := h.taken_eq_nil
  by_cases ho : otherPeer s r
  · obtain ⟨-, rfl⟩ := h.other ho
    simp [ho, htaken]
  · obtain ⟨-, rfl⟩ := h.same ho
    by_cases hnone : pending s = []
    · rw [hnone] at htaken
      simp [hnone, htaken]
    · simp [hnone, ho]

theorem Sound.perDestRes (h : Sound s) (hstarted : s.sessionStarted = true)
    (hprevious : otherPeer s r → pending s ≠ [] → sentPrevious = true)
    (hsent : burstReportEnd r = true →
      pending s ≠ [] ∧ ¬ otherPeer s r ∨ (reported r).2 ≠ [] ∧ s.maxFtmMeas ≠ 0 → sent = true) :
    Sound (eventPerDestRes s r sentPrevious sent) := by
  obtain ⟨first, kept, taken, hc⟩ := collect_spec h hstarted r sentPrevious
  obtain ⟨res, hres, hlength⟩ := hc.some
  have hbalanced := hc.balanced h hprevious
  have hsession := hc.session
  rw [eventPerDestRes_eq h hstarted]
  split
  · rename_i hend
    obtain ⟨hres', hhas, -, -, hpending⟩ := sendPeerRes_spec sent hc.has hres
    have hsame := sendPeerRes_sameSession (collect s r sentPrevious) sent
    refine ⟨⟨?_, ?_, ?_, ?_, ?_⟩, fun _ => hpending⟩
    · rw [hsame.locked, hsession.locked, h.orderly.unlocked]
    · rw [hres', hsame.sessionStarted, hsession.sessionStarted, hstarted]
      rfl
    · intro x hx
      obtain rfl := Option.some.inj (hres'.symm.trans hx)
      exact Nat.zero_le _
    · rw [hhas]
      intro hfalse
      cases hfalse
    · exact hbalanced.sendPeerRes hc.has hres fun hne =>
        hsent hend (hc.pending_ne_nil_iff.mp hne)
  · refine ⟨⟨?_, ?_, ?_, ?_, hbalanced⟩, fun hno => ?_⟩
    · rw [hsession.locked, h.orderly.unlocked]
    · rw [hres, hsession.sessionStarted, hstarted]
      rfl
    · intro x hx
      obtain rfl := Option.some.inj (hres.symm.trans hx)
      exact hlength.trans_eq hsession.maxFtmMeas.symm
    · intro _
      exact hsession.sessionStarted.trans hstarted
    · rw [hc.has] at hno
      cases hno

/-- A result that cannot be sent is lost. -/
theorem Sound.perDestRes_lost (h : Sound s) (hstarted : s.sessionStarted = true)
    (hfails : ¬ ((otherPeer s r → pending s ≠ [] → sentPrevious = true) ∧
      (burstReportEnd r = true →
        pending s ≠ [] ∧ ¬ otherPeer s r ∨ (reported r).2 ≠ [] ∧ s.maxFtmMeas ≠ 0 →
          sent = true))) :
    Lost (eventPerDestRes s r sentPrevious sent) := by
  obtain ⟨first, kept, taken, hc⟩ := collect_spec h hstarted r sentPrevious
  obtain ⟨res, hres, -⟩ := hc.some
  rw [eventPerDestRes_eq h hstarted]
  by_cases hprevious : otherPeer s r → pending s ≠ [] → sentPrevious = true
  · obtain ⟨hend, hlast⟩ := Classical.not_imp.mp fun hall => hfails ⟨hprevious, hall⟩
    obtain ⟨hne, hsent⟩ := Classical.not_imp.mp hlast
    obtain rfl : sent = false := by simpa using hsent
    rw [if_pos hend]
    exact (hc.balanced h hprevious).sendPeerRes_lost hc.has hres (hc.pending_ne_nil_iff.mpr hne)
  · obtain ⟨ho, hrest⟩ := Classical.not_imp.mp hprevious
    obtain ⟨hne, hsent⟩ := Classical.not_imp.mp hrest
    have hlost := hc.lost h ho hne (by simpa using hsent)
    split
    · exact hlost.sendPeerRes hc.has hres
    · exact hlost

/-! ## Starting and ending a session -/

/-- Without a session there is nothing to pass on. -/
theorem Sound.without (h : Sound s) (hstarted : s.sessionStarted = false) :
    s.ftmRes = none ∧ s.hasFtmRes = false := by
  constructor
  · have hsome := h.orderly.res.trans hstarted
    exact Option.not_isSome_iff_eq_none.mp (by simp [hsome])
  · by_contra hhas
    have := h.orderly.has (by simpa using hhas)
    rw [hstarted] at this
    cases this

theorem Sound.start (h : Sound s) (request : SessionRequest) (o : StartOutcome) :
    Sound (startSession s request o).1 := by
  rw [startSession]
  by_cases hyes : s.sessionStarted = true
  · rw [if_pos hyes]
    exact h
  · rw [if_neg hyes]
    have hstarted : s.sessionStarted = false := by simpa using hyes
    obtain ⟨hres, hhas⟩ := h.without hstarted
    have hpending : pending s = [] := h.empty hhas
    have hreported : s.recorded = passedOn s ++ [] := hpending ▸ h.orderly.reported
    have hno {n : ℕ} : Sound { s with ftmRes := none, maxFtmMeas := n } := by
      refine ⟨⟨h.orderly.unlocked, ?_, ?_, ?_, hreported⟩, fun _ => rfl⟩
      · exact hstarted.symm
      · intro x hx
        cases hx
      · exact h.orderly.has
    split
    · exact hno
    · generalize (if (!o.cmd) = true then -ENOMEM
        else if (request.peers.any fun peer => decide (peer.channel = 0)) = true then -EINVAL
          else if (!o.msg) = true then -ENOMEM else o.ret) = ret
      by_cases hret : ret = 0
      · rw [if_neg (not_not.mpr hret)]
        refine ⟨⟨h.orderly.unlocked, rfl, ?_, fun _ => rfl, hreported⟩, fun _ => rfl⟩
        intro x hx
        obtain rfl := Option.some.inj hx
        exact Nat.zero_le _
      · rw [if_pos hret]
        exact hno

theorem Sound.ended (h : Sound s) (hstarted : s.sessionStarted = true)
    (hsent : pending s ≠ [] → sent = true) : Sound (sessionEnded s sent) := by
  have hsame := sendPeerRes_sameSession s sent
  obtain ⟨res, hres, -⟩ := h.some hstarted
  have hdone : (sendPeerRes s sent).recorded = passedOn (sendPeerRes s sent) ++ [] ∧
      (sendPeerRes s sent).hasFtmRes = false := by
    cases hhas : s.hasFtmRes with
    | false =>
      rw [sendPeerRes_of_not_has hhas]
      exact ⟨h.empty hhas ▸ h.orderly.reported, hhas⟩
    | true =>
      obtain ⟨-, hno, -, -, hpending⟩ := sendPeerRes_spec sent hhas hres
      have hbalanced := Balanced.sendPeerRes h.orderly.reported hhas hres hsent
      rw [Balanced, hpending] at hbalanced
      exact ⟨hbalanced, hno⟩
  simp only [sessionEnded, hstarted, Bool.not_true, Bool.false_eq_true, if_false]
  refine ⟨⟨hsame.locked.trans h.orderly.unlocked, rfl, ?_, ?_, hdone.1⟩, fun _ => rfl⟩
  · intro x hx
    cases hx
  · intro hhas
    cases hdone.2.symm.trans hhas

theorem Sound.ended_lost (h : Sound s) (hstarted : s.sessionStarted = true)
    (hpending : pending s ≠ []) : Lost (sessionEnded s false) := by
  obtain ⟨res, hres, -⟩ := h.some hstarted
  have hhas : s.hasFtmRes = true := by
    by_contra hno
    exact hpending (h.empty (by simpa using hno))
  obtain ⟨-, -, -, -, hnone⟩ := sendPeerRes_spec false hhas hres
  have hlost := Balanced.sendPeerRes_lost h.orderly.reported hhas hres hpending
  simp only [sessionEnded, hstarted, Bool.not_true, Bool.false_eq_true, if_false]
  rw [Lost, hnone] at hlost
  exact hlost

/-! ## Runs -/

theorem Sound.kept (h : Sound s) {e : Event} (hmet : Met s e) : Sound (stepTo s e) := by
  rw [stepTo, h.orderly.unlocked, if_neg Bool.false_ne_true]
  cases e with
  | startSession request o => exact h.start request o
  | sessionEnded sent => exact h.ended hmet.1 hmet.2
  | perDestRes res sentPrevious sent =>
    cases hstarted : s.sessionStarted with
    | true => exact h.perDestRes hstarted (hmet hstarted).1 (hmet hstarted).2
    | false =>
      have hsame : eventPerDestRes s res sentPrevious sent = s := by
        simp [eventPerDestRes, hstarted]
      rw [body, hsame]
      exact h
  | abortSession msg ret =>
    have hsame : (abortSession s msg ret).1 = s := by
      simp [abortSession, hmet.1, hmet.2]
    rw [body, hsame]
    exact h

theorem Sound.broken (h : Sound s) {e : Event} (hmet : ¬ Met s e) : ¬ Orderly (stepTo s e) := by
  rw [stepTo, h.orderly.unlocked, if_neg Bool.false_ne_true]
  have hlocked {t : State} (ht : t.locked = true) : ¬ Orderly t := by
    intro hbad
    cases ht.symm.trans hbad.unlocked
  have hlost {t : State} (ht : Lost t) : ¬ Orderly t := fun hbad => Balanced.not_lost hbad.reported ht
  cases e with
  | startSession request o => exact absurd trivial hmet
  | sessionEnded sent =>
    cases hstarted : s.sessionStarted with
    | false => exact hlocked (by simp [body, sessionEnded, hstarted])
    | true =>
      obtain ⟨hpending, hsent⟩ := Classical.not_imp.mp fun hall => hmet ⟨hstarted, hall⟩
      obtain rfl : sent = false := by simpa using hsent
      exact hlost (h.ended_lost hstarted hpending)
  | perDestRes res sentPrevious sent =>
    obtain ⟨hstarted, hfails⟩ := Classical.not_imp.mp hmet
    exact hlost (h.perDestRes_lost hstarted hfails)
  | abortSession msg ret =>
    apply hlocked
    cases hstarted : s.sessionStarted with
    | false => simp [body, abortSession, hstarted]
    | true =>
      have hmsg : msg = false := by simpa [Met, hstarted] using hmet
      simp [body, abortSession, hstarted, hmsg]

theorem init_sound : Sound init := by
  refine ⟨⟨rfl, rfl, ?_, ?_, rfl⟩, fun _ => rfl⟩
  · intro res hres
    cases hres
  · intro hhas
    cases hhas

/-- The session is in order all along a run exactly if each operation of the run meets what it must. -/
theorem ftm_session_iff (es : List Event) :
    (∀ es₁ es₂ t, es = es₁ ++ es₂ → run step init es₁ = .ok t → Orderly t) ↔
      Along step Met init es :=
  along_iff_prefixes_total (fun _ _ => rfl) (fun _ h => h.orderly) init_sound
    (fun _ _ h hmet => h.kept hmet) fun _ _ h hmet => h.broken hmet

/-- The firmware ends a session that was not started, and a request to start one waits for good. -/
theorem end_without_session_keeps_lock :
    ∃ t, run step init [.sessionEnded true] = .ok t ∧ t.locked = true ∧ ¬ Orderly t ∧
      stepTo t (.startSession ⟨1, [⟨1, 1, 1⟩]⟩ ⟨true, true, true, 0⟩) = t := by
  refine ⟨_, rfl, rfl, fun h => ?_, rfl⟩
  exact absurd h.unlocked (by decide)

end Uwe5631.Ftm
