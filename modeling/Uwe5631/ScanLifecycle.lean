import Uwe5631.FallibleRuns
import Mathlib.Data.BitVec
import Mathlib.Logic.Function.Basic

/-!
# Scan requests

A scan request is completed by the event of the firmware, by the closing or the cancelling of its
interface, or by a timer. What they do under `scan_lock` is one step, and everything before it may
have changed by then.
-/
namespace Uwe5631.ScanLifecycle
open FallibleRuns

/-- An Ethernet address. -/
abbrev Mac := BitVec 48

/-- `struct cfg80211_scan_request`, numbered in the order cfg80211 makes them. -/
structure Request where
  id : ℕ
  nChannels : ℕ
  deriving DecidableEq, Repr

/-- How far `sprdwl_scan_done` or `sprdwl_cancel_scan` is. -/
inductive DonePc where
  | enter
  | timerPending
  | delTimerSync
  | lock
  deriving DecidableEq, Repr

/-- How far `sprdwl_cfg80211_scan` is. -/
inductive ScanCall (ν : Type*) where
  | none
  | begun (vif : ν) (request : Request)
  | listed (vif : ν) (request : Request)
  | unarmed (vif : ν) (request : Request)
  | sent (vif : ν) (request : Request)
  | cancelling (vif : ν) (request : Request) (pc : DonePc)
  deriving DecidableEq, Repr

/-- How far `sprdwl_scan_timeout` is: not running, before its first line, or before the lock. -/
inductive Timeout where
  | idle
  | started
  | waiting
  deriving DecidableEq, Repr

structure State (ν : Type*) where
  scanRequest : Option Request
  scanVif : Option ν
  timerPending : Bool
  timeout : Timeout
  /-- `scan_head_ptr` of each interface -/
  scanList : ν → List Mac
  scan : ScanCall ν
  /-- the calls of `sprdwl_scan_done` and `sprdwl_cancel_scan` -/
  dones : List (ν × DonePc)
  /-- the calls of `signal_level_enhance` that have not got the lock yet -/
  results : List (ν × Mac)
  /-- the requests made, how often each was completed, and which scan calls failed -/
  made : ℕ
  completed : ℕ → ℕ
  refused : ℕ → Bool

inductive Event (ν : Type*) where
  /-- `sprdwl_cfg80211_scan` -/
  | scan (vif : ν) (nChannels : ℕ)
  /-- a failure of it before the request is stored -/
  | scanError
  | initScanList
  | setRequest
  | modTimer
  /-- the outcome of its command -/
  | scanSent (ok : Bool)
  /-- its `sprdwl_cancel_scan` goes on -/
  | scanCancel
  /-- `sprdwl_scan_done` or `sprdwl_cancel_scan`, from an event, a close or a reset -/
  | done (vif : ν)
  | doneStep (k : ℕ)
  /-- `sprdwl_scan_timeout` -/
  | fire
  | timeoutLog
  | timeoutLock
  /-- `signal_level_enhance` of a scan result -/
  | result (vif : ν) (bssid : Mac)
  | resultLock (k : ℕ) (noMem : Bool)
  deriving DecidableEq, Repr

/-- `scan_vif` is dereferenced while it is `NULL`. -/
inductive Fault where
  | nullScanVif
  deriving DecidableEq, Repr

variable {ν : Type*} [DecidableEq ν]

/-- The pending request is taken away, and completed if it is not taken for freed. -/
def State.finish (s : State ν) (r : Request) (complete : Bool) : State ν :=
  { s with
    scanRequest := none
    scanVif := none
    completed :=
      if complete then Function.update s.completed r.id (s.completed r.id + 1) else s.completed }

/-- `sprdwl_scan_done` and `sprdwl_cancel_scan` under the lock -/
def doneLock (s : State ν) (vif : ν) : State ν :=
  match s.scanRequest with
  | some r =>
    { s with scanList := Function.update s.scanList vif [] }.finish r (r.nChannels != 0)
  | none => s

/-- A step of `sprdwl_scan_done` or `sprdwl_cancel_scan`. -/
def doneNext (s : State ν) (vif : ν) : DonePc → State ν × Option DonePc
  | .enter => (s, if s.scanVif = some vif then some .timerPending else none)
  | .timerPending => (s, some (if s.timerPending then .delTimerSync else .lock))
  | .delTimerSync =>
    if s.timeout = .idle then ({ s with timerPending := false }, some .lock)
    else (s, some .delTimerSync)
  | .lock => (doneLock s vif, none)

/-- `sprdwl_scan_timeout` under the lock -/
def timeoutLock (s : State ν) : State ν :=
  match s.scanRequest with
  | some r => s.finish r true
  | none => s

/-- `signal_level_enhance` under the lock -/
def resultLock (s : State ν) (vif : ν) (bssid : Mac) (noMem : Bool) : State ν :=
  if s.scanRequest.isSome ∧ bssid ∈ s.scanList vif then s
  else if noMem then s
  else { s with scanList := Function.update s.scanList vif (s.scanList vif ++ [bssid]) }

/-- cfg80211 starts a scan when the last one is completed or refused. -/
def Over (s : State ν) : Prop :=
  s.made = 0 ∨ s.completed (s.made - 1) ≠ 0 ∨ s.refused (s.made - 1) = true

instance (s : State ν) : Decidable (Over s) := inferInstanceAs (Decidable (_ ∨ _ ∨ _))

def State.setScan (s : State ν) (scan : ScanCall ν) : State ν := { s with scan := scan }

def State.refuse (s : State ν) (r : Request) : State ν :=
  { s with scan := .none, refused := Function.update s.refused r.id true }

/-- The steps of `sprdwl_cfg80211_scan` -/
def scanNext (s : State ν) : Event ν → State ν
  | .scan vif nChannels =>
    if s.scan = .none ∧ Over s then
      { s with scan := .begun vif ⟨s.made, nChannels⟩, made := s.made + 1 }
    else s
  | .scanError =>
    match s.scan with
    | .begun _ r => s.refuse r
    | _ => s
  | .initScanList =>
    match s.scan with
    | .begun vif r =>
      { s with scan := .listed vif r, scanList := Function.update s.scanList vif [] }
    | _ => s
  | .setRequest =>
    match s.scan with
    | .listed vif r => { s with scan := .unarmed vif r, scanRequest := some r, scanVif := some vif }
    | _ => s
  | .modTimer =>
    match s.scan with
    | .unarmed vif r => { s with scan := .sent vif r, timerPending := true }
    | _ => s
  | .scanSent ok =>
    match s.scan with
    | .sent vif r => if ok then s.setScan .none else s.setScan (.cancelling vif r .enter)
    | _ => s
  | .scanCancel =>
    match s.scan with
    | .cancelling vif r pc =>
      match doneNext s vif pc with
      | (s', some pc') => s'.setScan (.cancelling vif r pc')
      | (s', none) => s'.refuse r
    | _ => s
  | _ => s

/-- A step of the driver, with whether the debug level lets `sprdwl_scan_timeout` log. -/
def step (debug : Bool) (s : State ν) (e : Event ν) : Except Fault (State ν) :=
  match e with
  | .done vif => .ok { s with dones := s.dones ++ [(vif, .enter)] }
  | .doneStep k =>
    match s.dones[k]? with
    | some (vif, pc) =>
      match doneNext s vif pc with
      | (s', some pc') => .ok { s' with dones := s.dones.set k (vif, pc') }
      | (s', none) => .ok { s' with dones := s.dones.eraseIdx k }
    | none => .ok s
  | .fire =>
    if s.timerPending = true ∧ s.timeout = .idle then
      .ok { s with timerPending := false, timeout := .started }
    else .ok s
  | .timeoutLog =>
    if s.timeout = .started then
      if debug = true ∧ s.scanVif = none then .error .nullScanVif
      else .ok { s with timeout := .waiting }
    else .ok s
  | .timeoutLock =>
    if s.timeout = .waiting then .ok { timeoutLock s with timeout := .idle } else .ok s
  | .result vif bssid =>
    if s.scanVif = some vif then .ok { s with results := s.results ++ [(vif, bssid)] } else .ok s
  | .resultLock k noMem =>
    match s.results[k]? with
    | some (vif, bssid) =>
      .ok { resultLock s vif bssid noMem with results := s.results.eraseIdx k }
    | none => .ok s
  | e => .ok (scanNext s e)

/-- No scan has been asked for. -/
def init : State ν :=
  ⟨none, none, false, .idle, fun _ => [], .none, [], [], 0, fun _ => 0, fun _ => false⟩

/-- What the driver keeps to. -/
structure Sound (s : State ν) : Prop where
  completed_once : ∀ id, s.completed id ≤ 1
  refused_silent : ∀ id, s.refused id = true → s.completed id = 0
  together : s.scanRequest.isSome = s.scanVif.isSome
  list_empty : s.scanRequest = none → ∀ vif, s.scanList vif = []
  timer_off : s.scanRequest = none → s.timerPending = false

/-- The request of a scan call is stored and its timer is still to be armed. -/
def Unarmed (s : State ν) : Prop := ∃ vif r, s.scan = .unarmed vif r

/-- Under the lock a pending request can be completed: the timer is not armed and will not be armed
for it, the timeout does not log yet, and its results are in the list that is cleaned. -/
def Completable (debug : Bool) (s : State ν) (cleaned : Option ν) : Prop :=
  s.scanRequest.isSome → s.timerPending = false ∧ ¬ Unarmed s ∧
    (debug = true → s.timeout ≠ .started) ∧
    ∀ vif, s.scanVif = some vif → cleaned ≠ some vif → s.scanList vif = []

/-- The scan command is carried out, whoever gets the lock finds a request that can be completed,
and a result is listed while the request of its interface is pending. -/
def Fine (debug : Bool) (s : State ν) : Event ν → Prop
  | .scanSent ok => ∀ vif r, s.scan = .sent vif r → ok = true
  | .doneStep k => ∀ vif, s.dones[k]? = some (vif, .lock) → Completable debug s (some vif)
  | .timeoutLock => s.timeout = .waiting → Completable debug s none
  | .resultLock k noMem => ∀ vif bssid, s.results[k]? = some (vif, bssid) →
    s.scanVif = some vif ∨ noMem = true ∨ s.scanRequest.isSome ∧ bssid ∈ s.scanList vif
  | _ => True

/-- A request that a scan call has not stored yet is new. -/
def New (s : State ν) (r : Request) : Prop :=
  r.id + 1 = s.made ∧ s.completed r.id = 0 ∧ s.refused r.id = false

structure Inv (debug : Bool) (s : State ν) : Prop where
  pending : ∀ r, s.scanRequest = some r → New s r
  together : s.scanRequest.isSome = s.scanVif.isSome
  listed : ∀ vif, s.scanList vif ≠ [] → s.scanVif = some vif
  timer : s.timerPending = true → s.scanRequest.isSome
  started : debug = true → s.timeout = .started → s.scanRequest.isSome
  fresh : ∀ id, s.made ≤ id → s.completed id = 0 ∧ s.refused id = false
  once : ∀ id, s.completed id ≤ 1
  silent : ∀ id, s.refused id = true → s.completed id = 0
  begun : ∀ vif r, s.scan = .begun vif r ∨ s.scan = .listed vif r →
    s.scanRequest = none ∧ New s r
  unarmed : Unarmed s → s.scanRequest.isSome
  carried : ∀ vif r pc, s.scan ≠ .cancelling vif r pc

variable {s : State ν} {e : Event ν} {debug : Bool} {vif : ν} {r : Request}

omit [DecidableEq ν] in
theorem Inv.scanVif_none (h : Inv debug s) (hnone : s.scanRequest = none) : s.scanVif = none := by
  have htogether := h.together
  rw [hnone] at htogether
  simpa using htogether.symm

omit [DecidableEq ν] in
theorem Inv.scanList_empty (h : Inv debug s) (hnone : s.scanRequest = none) (vif : ν) :
    s.scanList vif = [] := by
  by_contra hlist
  have hvif := h.listed vif hlist
  rw [h.scanVif_none hnone] at hvif
  cases hvif

omit [DecidableEq ν] in
theorem Inv.sound (h : Inv debug s) : Sound s where
  completed_once := h.once
  refused_silent := h.silent
  together := h.together
  list_empty := h.scanList_empty
  timer_off hnone := by
    by_contra htimer
    have hsome := h.timer (by simpa using htimer)
    rw [hnone] at hsome
    cases hsome

omit [DecidableEq ν] in
/-- cfg80211 makes no request while one is pending. -/
theorem Inv.over (h : Inv debug s) (hover : Over s) : s.scanRequest = none := by
  cases hreq : s.scanRequest with
  | none => rfl
  | some r =>
    obtain ⟨hid, hcompleted, hrefused⟩ := h.pending r hreq
    have hlast : s.made - 1 = r.id := by omega
    rcases hover with hmade | hdone | hfail
    · omega
    · rw [hlast] at hdone
      exact absurd hcompleted hdone
    · rw [hlast, hrefused] at hfail
      cases hfail

omit [DecidableEq ν] in
/-- A pending request is taken away once. -/
theorem Inv.finish (h : Inv debug s) (hreq : s.scanRequest = some r) (complete : Bool)
    (htimer : s.timerPending = false) (hunarmed : ¬ Unarmed s)
    (hstarted : debug = true → s.timeout ≠ .started) (hlist : ∀ vif, s.scanList vif = []) :
    Inv debug (s.finish r complete) := by
  obtain ⟨hid, hcompleted, hrefused⟩ := h.pending r hreq
  have hcount (id : ℕ) : (s.finish r complete).completed id =
      if complete = true ∧ id = r.id then 1 else s.completed id := by
    by_cases hcomplete : complete = true
    · by_cases hi : id = r.id
      · subst hi
        simp [State.finish, hcomplete, hcompleted]
      · simp [State.finish, hcomplete, hi]
    · simp [State.finish, hcomplete]
  constructor
  · intro r' hr'
    cases hr'
  · rfl
  · intro vif hvif
    exact absurd (hlist vif) hvif
  · intro ht
    rw [show (s.finish r complete).timerPending = s.timerPending from rfl, htimer] at ht
    cases ht
  · intro hd ht
    exact absurd ht (hstarted hd)
  · intro id hmade
    refine ⟨?_, (h.fresh id hmade).2⟩
    rw [hcount, if_neg, (h.fresh id hmade).1]
    rintro ⟨-, rfl⟩
    exact absurd hmade (by rw [show (s.finish r complete).made = s.made from rfl]; omega)
  · intro id
    rw [hcount]
    split
    · exact le_refl 1
    · exact h.once id
  · intro id hfail
    rw [hcount, if_neg]
    · exact h.silent id hfail
    · rintro ⟨-, rfl⟩
      rw [show (s.finish r complete).refused = s.refused from rfl, hrefused] at hfail
      cases hfail
  · intro vif r' hscan
    have hnone := (h.begun vif r' hscan).1
    rw [hreq] at hnone
    cases hnone
  · exact fun hun => absurd hun hunarmed
  · exact h.carried

omit [DecidableEq ν] in
/-- The list of the interface whose request is pending is all there is. -/
theorem Inv.setList (h : Inv debug s) {l : ν → List Mac}
    (hl : ∀ vif, l vif ≠ [] → s.scanVif = some vif) : Inv debug { s with scanList := l } :=
  ⟨h.pending, h.together, hl, h.timer, h.started, h.fresh, h.once, h.silent, h.begun, h.unarmed,
    h.carried⟩

theorem doneLock_inv (h : Inv debug s) (hf : Completable debug s (some vif)) :
    Inv debug (doneLock s vif) := by
  cases hreq : s.scanRequest with
  | none =>
    simp only [doneLock, hreq]
    exact h
  | some r =>
    obtain ⟨htimer, hunarmed, hstarted, hlist⟩ := hf (by rw [hreq]; rfl)
    have hcleaned (u : ν) : Function.update s.scanList vif [] u = [] := by
      by_cases hu : u = vif
      · subst hu
        simp
      · rw [Function.update_of_ne hu]
        by_contra hne
        have hvif := h.listed u hne
        exact hne (hlist u hvif (by simpa using Ne.symm hu))
    simp only [doneLock, hreq]
    refine Inv.finish (h.setList fun u hu => absurd (hcleaned u) hu) hreq _ htimer hunarmed
      hstarted hcleaned

theorem doneNext_inv (h : Inv debug s) (pc : DonePc)
    (hf : pc = .lock → Completable debug s (some vif)) : Inv debug (doneNext s vif pc).1 := by
  cases pc with
  | enter => exact h
  | timerPending => exact h
  | delTimerSync =>
    simp only [doneNext]
    split
    · exact ⟨h.pending, h.together, h.listed, by simp, h.started, h.fresh, h.once, h.silent,
        h.begun, h.unarmed, h.carried⟩
    · exact h
  | lock => exact doneLock_inv h (hf rfl)

omit [DecidableEq ν] in
theorem timeoutLock_inv (h : Inv debug s) (hf : Completable debug s none) :
    Inv debug (timeoutLock s) := by
  cases hreq : s.scanRequest with
  | none =>
    simp only [timeoutLock, hreq]
    exact h
  | some r =>
    obtain ⟨htimer, hunarmed, hstarted, hlist⟩ := hf (by rw [hreq]; rfl)
    simp only [timeoutLock, hreq]
    refine h.finish hreq true htimer hunarmed hstarted fun u => ?_
    by_contra hne
    exact hne (hlist u (h.listed u hne) (by simp))

theorem resultLock_inv (h : Inv debug s) {bssid : Mac} {noMem : Bool}
    (hf : s.scanVif = some vif ∨ noMem = true ∨
      s.scanRequest.isSome ∧ bssid ∈ s.scanList vif) :
    Inv debug (resultLock s vif bssid noMem) := by
  rw [resultLock]
  split
  · exact h
  · rename_i hnew
    split
    · exact h
    · rename_i hmem
      have hvif : s.scanVif = some vif := by
        rcases hf with hvif | hno | hold
        · exact hvif
        · exact absurd hno hmem
        · exact absurd hold hnew
      refine h.setList fun u hu => ?_
      by_cases huv : u = vif
      · rw [huv, hvif]
      · rw [Function.update_of_ne huv] at hu
        exact h.listed u hu

/-! ## The scan call -/

theorem scan_inv (h : Inv debug s) (nChannels : ℕ) :
    Inv debug (scanNext s (.scan vif nChannels)) := by
  unfold scanNext
  dsimp only
  split
  · rename_i hstart
    have hnone := h.over hstart.2
    constructor
    · intro r hr
      rw [show s.scanRequest = some r from hr] at hnone
      cases hnone
    · exact h.together
    · exact h.listed
    · exact h.timer
    · exact h.started
    · intro id hmade
      exact h.fresh id (by have : s.made + 1 ≤ id := hmade; omega)
    · exact h.once
    · exact h.silent
    · rintro vif' r (hscan | hscan)
      · obtain ⟨rfl, rfl⟩ := ScanCall.begun.inj hscan
        exact ⟨hnone, rfl, (h.fresh _ (le_refl _)).1, (h.fresh _ (le_refl _)).2⟩
      · cases hscan
    · rintro ⟨vif', r, hscan⟩
      cases hscan
    · rintro vif' r pc hscan
      cases hscan
  · exact h

omit [DecidableEq ν] in
/-- A scan call that has no request of its own to store or to arm. -/
theorem Inv.setScan (h : Inv debug s) {scan : ScanCall ν} (hbegun : ∀ vif r, scan ≠ .begun vif r)
    (hlisted : ∀ vif r, scan ≠ .listed vif r) (hunarmed : ∀ vif r, scan ≠ .unarmed vif r)
    (hcarried : ∀ vif r pc, scan ≠ .cancelling vif r pc) : Inv debug (s.setScan scan) := by
  refine ⟨h.pending, h.together, h.listed, h.timer, h.started, h.fresh, h.once, h.silent, ?_, ?_,
    hcarried⟩
  · rintro vif r (hscan | hscan)
    · exact absurd hscan (hbegun vif r)
    · exact absurd hscan (hlisted vif r)
  · rintro ⟨vif, r, hscan⟩
    exact absurd hscan (hunarmed vif r)

theorem scanError_inv (h : Inv debug s) : Inv debug (scanNext s .scanError) := by
  unfold scanNext
  dsimp only
  split
  · rename_i vif r hscan
    obtain ⟨hnone, hid, hcompleted, -⟩ := h.begun vif r (.inl hscan)
    have hidle : Inv debug (s.setScan .none) :=
      h.setScan (by simp) (by simp) (by simp) (by simp)
    refine ⟨fun r' hr' => ?_, hidle.together, hidle.listed, hidle.timer, hidle.started,
      fun id hmade => ?_, hidle.once, fun id hfail => ?_, fun vif' r' hscan' => ?_, hidle.unarmed,
      hidle.carried⟩
    · rw [show s.scanRequest = some r' from hr'] at hnone
      cases hnone
    · refine ⟨(h.fresh id hmade).1, ?_⟩
      have hne : id ≠ r.id := by
        have : s.made ≤ id := hmade
        omega
      exact (Function.update_of_ne hne _ _).trans (h.fresh id hmade).2
    · by_cases hi : id = r.id
      · rw [hi]
        exact hcompleted
      · exact h.silent id ((Function.update_of_ne hi _ _).symm.trans hfail)
    · rcases hscan' with hscan' | hscan' <;> cases hscan'
  · exact h

theorem initScanList_inv (h : Inv debug s) : Inv debug (scanNext s .initScanList) := by
  unfold scanNext
  dsimp only
  split
  · rename_i vif r hscan
    have hnew := h.begun vif r (.inl hscan)
    have hlist : ∀ u, Function.update s.scanList vif [] u ≠ [] → s.scanVif = some u := by
      intro u hu
      by_cases huv : u = vif
      · subst huv
        simp at hu
      · rw [Function.update_of_ne huv] at hu
        exact h.listed u hu
    refine ⟨h.pending, h.together, hlist, h.timer, h.started, h.fresh, h.once, h.silent, ?_, ?_,
      ?_⟩
    · rintro vif' r' (hscan' | hscan')
      · cases hscan'
      · obtain ⟨rfl, rfl⟩ := ScanCall.listed.inj hscan'
        exact hnew
    · rintro ⟨vif', r', hscan'⟩
      cases hscan'
    · rintro vif' r' pc hscan'
      cases hscan'
  · exact h

theorem setRequest_inv (h : Inv debug s) : Inv debug (scanNext s .setRequest) := by
  unfold scanNext
  dsimp only
  split
  · rename_i vif r hscan
    obtain ⟨hnone, hnew⟩ := h.begun vif r (.inr hscan)
    refine ⟨?_, rfl, fun u hu => absurd (h.scanList_empty hnone u) hu, fun _ => rfl,
      fun _ _ => rfl, h.fresh, h.once, h.silent, ?_, fun _ => rfl, ?_⟩
    · intro r' hr'
      obtain rfl := Option.some.inj hr'
      exact hnew
    · rintro vif' r' (hscan' | hscan') <;> cases hscan'
    · rintro vif' r' pc hscan'
      cases hscan'
  · exact h

theorem modTimer_inv (h : Inv debug s) : Inv debug (scanNext s .modTimer) := by
  unfold scanNext
  dsimp only
  split
  · rename_i vif r hscan
    have hsome := h.unarmed ⟨vif, r, hscan⟩
    have hsent : Inv debug (s.setScan (.sent vif r)) :=
      h.setScan (by simp) (by simp) (by simp) (by simp)
    exact ⟨h.pending, h.together, h.listed, fun _ => hsome, h.started, h.fresh, h.once, h.silent,
      hsent.begun, hsent.unarmed, hsent.carried⟩
  · exact h

theorem scanSent_inv (h : Inv debug s) {ok : Bool}
    (hf : ∀ vif r, s.scan = .sent vif r → ok = true) : Inv debug (scanNext s (.scanSent ok)) := by
  unfold scanNext
  dsimp only
  split
  · rename_i vif r hscan
    rw [if_pos (hf vif r hscan)]
    exact h.setScan (by simp) (by simp) (by simp) (by simp)
  · exact h

theorem scanCancel_inv (h : Inv debug s) : Inv debug (scanNext s .scanCancel) := by
  unfold scanNext
  dsimp only
  split
  · rename_i vif r pc hscan
    exact absurd hscan (h.carried vif r pc)
  · exact h

/-! ## Runs -/

omit [DecidableEq ν] in
theorem Inv.setDones (h : Inv debug s) (dones : List (ν × DonePc)) :
    Inv debug { s with dones := dones } :=
  ⟨h.pending, h.together, h.listed, h.timer, h.started, h.fresh, h.once, h.silent, h.begun,
    h.unarmed, h.carried⟩

omit [DecidableEq ν] in
theorem Inv.setResults (h : Inv debug s) (results : List (ν × Mac)) :
    Inv debug { s with results := results } :=
  ⟨h.pending, h.together, h.listed, h.timer, h.started, h.fresh, h.once, h.silent, h.begun,
    h.unarmed, h.carried⟩

omit [DecidableEq ν] in
theorem Inv.setTimeout (h : Inv debug s) {timeout : Timeout}
    (hstarted : debug = true → timeout = .started → s.scanRequest.isSome) :
    Inv debug { s with timeout := timeout } :=
  ⟨h.pending, h.together, h.listed, h.timer, hstarted, h.fresh, h.once, h.silent, h.begun,
    h.unarmed, h.carried⟩

theorem step_inv (h : Inv debug s) (hf : Fine debug s e) :
    ∃ t, step debug s e = .ok t ∧ Inv debug t := by
  cases e with
  | scan vif nChannels => exact ⟨_, rfl, scan_inv h nChannels⟩
  | scanError => exact ⟨_, rfl, scanError_inv h⟩
  | initScanList => exact ⟨_, rfl, initScanList_inv h⟩
  | setRequest => exact ⟨_, rfl, setRequest_inv h⟩
  | modTimer => exact ⟨_, rfl, modTimer_inv h⟩
  | scanSent ok => exact ⟨_, rfl, scanSent_inv h hf⟩
  | scanCancel => exact ⟨_, rfl, scanCancel_inv h⟩
  | done vif => exact ⟨_, rfl, h.setDones _⟩
  | doneStep k =>
    cases hk : s.dones[k]? with
    | none => exact ⟨s, by simp only [step, hk], h⟩
    | some call =>
      obtain ⟨vif, pc⟩ := call
      have hnext : Inv debug (doneNext s vif pc).1 := by
        refine doneNext_inv h pc ?_
        rintro rfl
        exact hf vif hk
      cases hpc : doneNext s vif pc with
      | mk s' rest =>
        rw [hpc] at hnext
        cases rest with
        | none => exact ⟨_, by simp only [step, hk, hpc]; rfl, hnext.setDones _⟩
        | some pc' => exact ⟨_, by simp only [step, hk, hpc]; rfl, hnext.setDones _⟩
  | fire =>
    simp only [step]
    split
    · rename_i hfire
      refine ⟨_, rfl, ?_⟩
      have hsome := h.timer hfire.1
      exact ⟨h.pending, h.together, h.listed, by simp, fun _ _ => hsome, h.fresh, h.once,
        h.silent, h.begun, h.unarmed, h.carried⟩
    · exact ⟨s, rfl, h⟩
  | timeoutLog =>
    simp only [step]
    split
    · rename_i hstarted
      have hvif : ¬ (debug = true ∧ s.scanVif = none) := by
        rintro ⟨hdebug, hvif⟩
        have hsome := h.started hdebug hstarted
        rw [h.together, hvif] at hsome
        cases hsome
      rw [if_neg hvif]
      exact ⟨_, rfl, h.setTimeout (by simp)⟩
    · exact ⟨s, rfl, h⟩
  | timeoutLock =>
    simp only [step]
    split
    · rename_i hwaiting
      exact ⟨_, rfl, (timeoutLock_inv h (hf hwaiting)).setTimeout (by simp)⟩
    · exact ⟨s, rfl, h⟩
  | result vif bssid =>
    simp only [step]
    split
    · exact ⟨_, rfl, h.setResults _⟩
    · exact ⟨s, rfl, h⟩
  | resultLock k noMem =>
    cases hk : s.results[k]? with
    | none => exact ⟨s, by simp only [step, hk], h⟩
    | some result =>
      obtain ⟨vif, bssid⟩ := result
      exact ⟨_, by simp only [step, hk]; rfl, (resultLock_inv h (hf vif bssid hk)).setResults _⟩

omit [DecidableEq ν] in
theorem init_inv : Inv debug (init : State ν) where
  pending _ h := by cases h
  together := rfl
  listed _ h := absurd rfl h
  timer h := by cases h
  started _ h := by cases h
  fresh _ _ := ⟨rfl, rfl⟩
  once _ := Nat.zero_le 1
  silent _ h := by cases h
  begun _ _ h := by rcases h with h | h <;> cases h
  unarmed h := by
    obtain ⟨vif, r, h⟩ := h
    cases h
  carried _ _ _ h := by cases h

/-- A run whose steps meet their conditions goes through, and what the driver keeps to holds in
every state of it. -/
theorem scan_lifecycle {es : List (Event ν)} (hf : Along (step debug) (Fine debug) init es) :
    ∀ h rest, es = h ++ rest → ∃ t, run (step debug) (init : State ν) h = .ok t ∧ Sound t := by
  rintro h rest rfl
  obtain ⟨t, ht, hinv⟩ := run_completes (fun s e hI hfe => step_inv hI hfe) init_inv
    (along_append.mp hf).1
  exact ⟨t, ht, hinv.sound⟩

/-- The scan of an interface up to its command. -/
def sampleScan : List (Event ℕ) := [.scan 0 1, .initScanList, .setRequest, .modTimer]

/-- A scan with one result that the firmware completes. -/
def sampleDone : List (Event ℕ) :=
  sampleScan ++ [.scanSent true, .result 0 5, .resultLock 0 false, .done 0, .doneStep 0,
    .doneStep 0, .doneStep 0, .doneStep 0]

theorem sampleDone_lifecycle :
    ∃ t, run (step true) (init : State ℕ) sampleDone = .ok t ∧ Sound t := by
  refine scan_lifecycle ?_ sampleDone [] (List.append_nil sampleDone).symm
  simp [sampleDone, sampleScan, Along, step, scanNext, init, Over, State.setScan, Fine, doneNext,
    resultLock, Completable, Unarmed]

/-- A scan with one result whose event stays out. -/
def sampleTimeout : List (Event ℕ) :=
  sampleScan ++ [.scanSent true, .result 0 5, .resultLock 0 false, .fire, .timeoutLog,
    .timeoutLock]

/-- The timeout completes the request and leaves its result in the list. -/
theorem timeout_keeps_results :
    (∃ t, run (step true) (init : State ℕ) sampleTimeout = .ok t ∧ t.scanRequest = none ∧
      t.scanList 0 = [5]) ∧
    ¬ ∀ h rest, sampleTimeout = h ++ rest → ∃ t, run (step true) (init : State ℕ) h = .ok t ∧
      Sound t := by
  refine ⟨⟨_, rfl, rfl, rfl⟩, fun hall => ?_⟩
  obtain ⟨t, ht, hsound⟩ := hall sampleTimeout [] (by simp)
  obtain rfl := Except.ok.inj ht
  exact absurd (hsound.list_empty rfl 0) (by decide)

end Uwe5631.ScanLifecycle
