import Uwe5631.ReferenceCounts
import Mathlib.Data.BitVec

/-!
# Interface references

`ctx_id_to_vif` and `mode_to_vif` count a reference on the interface they find and `sprdwl_put_vif`
takes it off again. The functions of the driver run beside each other and beside the adding,
deleting, opening and closing of interfaces.
-/
namespace Uwe5631.VifReferences
open FallibleRuns ReferenceCounts

/-- `enum sprdwl_mode` -/
inductive Mode where
  | none
  | station
  | ap
  | p2pDevice
  | p2pClient
  | p2pGo
  | ibss
  deriving DecidableEq, Repr

/-- An interface in `vif_list`. No two that are ever allocated have one `id`. -/
structure Vif where
  id : ℕ
  ctxId : BitVec 8
  mode : Mode
  deriving DecidableEq, Repr

/-- What an interface is looked up by. -/
inductive Key where
  | ctxId (ctxId : BitVec 8)
  | mode (mode : Mode)
  deriving DecidableEq, Repr

/-- `ctx_id_to_vif` -/
def ctxIdToVif (vifs : List Vif) (ctxId : BitVec 8) : Option ℕ :=
  (vifs.find? fun vif => vif.ctxId = ctxId).map Vif.id

/-- `mode_to_vif` -/
def modeToVif (vifs : List Vif) (mode : Mode) : Option ℕ :=
  (vifs.find? fun vif => vif.mode = mode).map Vif.id

def findVif (vifs : List Vif) : Key → Option ℕ
  | .ctxId ctxId => ctxIdToVif vifs ctxId
  | .mode mode => modeToVif vifs mode

abbrev WIFI_CMD_OPEN : ℕ := 3

abbrev STAP_MODE_P2P_DEVICE : ℕ := 2

abbrev SPRDWL_MAC_INDEX_MAX : ℕ := 4

/-- An interface is given back when it is found. -/
def putFound (key : Key) : Script Key := .lookup key (.put .done) .done

/-- `sprdwl_put_vif` is called whatever is found. -/
def putAlways (key : Key) : Script Key := .lookup key (.put .done) (.put .done)

/-- `__sprdwl_cmd_getbuf` -/
def cmdGetbuf (refused : Bool) (cmdId : ℕ) (ctxId : BitVec 8) : Script Key :=
  if refused then .done
  else if WIFI_CMD_OPEN ≤ cmdId then putAlways (.ctxId ctxId)
  else .done

/-- `sprdwl_cmd_send_recv`, with whether the response to a command that was sent stays out. -/
def cmdSendRecv (timeout isClose : Bool) (ctxId : BitVec 8) : Script Key :=
  if timeout = false then .done
  else if isClose then .done
  else putFound (.ctxId ctxId)

/-- `sprdwl_rx_event_process`, with whether the data of the event must be copied and cannot. -/
def rxEventProcess (noPriv noMem : Bool) (ctxId : BitVec 8) : Script Key :=
  if STAP_MODE_P2P_DEVICE < ctxId.toNat then .done
  else if noPriv then .done
  else .lookup (.ctxId ctxId) (if noMem then .put .done else .put .done) .done

/-- `sprdwl_netflowcontrl_mode` -/
def netflowcontrlMode (mode : Mode) : Script Key := putFound (.mode mode)

/-- The wakeup of the firmware in `sprdwl_tx_work_queue` -/
def txWorkQueueWakeup (mode : Mode) : Script Key := putAlways (.mode mode)

/-- `sprdwl_rx_send_cmd_process` -/
def rxSendCmdProcess (noPriv : Bool) (ctxId : BitVec 8) : Script Key :=
  if noPriv then .done
  else if STAP_MODE_P2P_DEVICE < ctxId.toNat then .done
  else putFound (.ctxId ctxId)

/-- `sprdwl_rx_skb_process`, with whether an MSDU is dropped as an attack and whether it is an IPv6
frame from and to one address. -/
def rxSkbProcess (ctxId : BitVec 8) (attack loopback : Bool) : Script Key :=
  if SPRDWL_MAC_INDEX_MAX ≤ ctxId.toNat then .done
  else if attack then .done
  else .lookup (.ctxId ctxId) (if loopback then .done else .put .done) .done

/-- `sprdwl_suspend_resume_handle`, with the first mode that is open. -/
def suspendResumeHandle (opened : Option Mode) (refused : Bool) : Script Key :=
  match opened with
  | none => .done
  | some mode => .lookup (.mode mode) (if refused then .put .done else .put .done) (.put .done)

/-- `sprdwl_tx_addba` -/
def txAddba (noMem : Bool) (ctxId : BitVec 8) : Script Key :=
  .lookup (.ctxId ctxId) (if noMem then .put .done else .put .done) .done

/-- `sprdwl_tx_delba` -/
def txDelba (noMem : Bool) (ctxId : BitVec 8) : Script Key :=
  .lookup (.ctxId ctxId) (if noMem then .put .done else .put .done) .done

/-- `sprdwl_cfg80211_start_ap` -/
def startAp (isAp : Bool) : Script Key := if isAp then putAlways (.mode .p2pDevice) else .done

/-- `sprdwl_cfg80211_stop_ap` -/
def stopAp (isAp : Bool) : Script Key := if isAp then putAlways (.mode .p2pDevice) else .done

/-- `sprdwl_check_p2p_coex` -/
def checkP2pCoex : Script Key :=
  .lookup (.mode .p2pClient) .done (.lookup (.mode .p2pGo) .done .done)

/-- `sprdwl_cfg80211_add_iface` up to the adding -/
def addIface (valid : Bool) : Script Key := if valid then checkP2pCoex else .done

/-- `sprdwl_nl_get_info_handler`, which starts from the interface of a net device. -/
def nlGetInfoHandler : Script Key := .put .done

inductive Op where
  | cmdGetbuf (refused : Bool) (cmdId : ℕ) (ctxId : BitVec 8)
  | cmdSendRecv (timeout isClose : Bool) (ctxId : BitVec 8)
  | rxEventProcess (noPriv noMem : Bool) (ctxId : BitVec 8)
  | netflowcontrlMode (mode : Mode)
  | txWorkQueueWakeup (mode : Mode)
  | rxSendCmdProcess (noPriv : Bool) (ctxId : BitVec 8)
  | rxSkbProcess (ctxId : BitVec 8) (attack loopback : Bool)
  | suspendResumeHandle (opened : Option Mode) (refused : Bool)
  | txAddba (noMem : Bool) (ctxId : BitVec 8)
  | txDelba (noMem : Bool) (ctxId : BitVec 8)
  | startAp (isAp : Bool)
  | stopAp (isAp : Bool)
  | addIface (valid : Bool)
  | nlGetInfoHandler (id : ℕ)
  deriving DecidableEq, Repr

def Op.script : Op → Script Key
  | .cmdGetbuf refused cmdId ctxId => VifReferences.cmdGetbuf refused cmdId ctxId
  | .cmdSendRecv timeout isClose ctxId => VifReferences.cmdSendRecv timeout isClose ctxId
  | .rxEventProcess noPriv noMem ctxId => VifReferences.rxEventProcess noPriv noMem ctxId
  | .netflowcontrlMode mode => VifReferences.netflowcontrlMode mode
  | .txWorkQueueWakeup mode => VifReferences.txWorkQueueWakeup mode
  | .rxSendCmdProcess noPriv ctxId => VifReferences.rxSendCmdProcess noPriv ctxId
  | .rxSkbProcess ctxId attack loopback => VifReferences.rxSkbProcess ctxId attack loopback
  | .suspendResumeHandle opened refused => VifReferences.suspendResumeHandle opened refused
  | .txAddba noMem ctxId => VifReferences.txAddba noMem ctxId
  | .txDelba noMem ctxId => VifReferences.txDelba noMem ctxId
  | .startAp isAp => VifReferences.startAp isAp
  | .stopAp isAp => VifReferences.stopAp isAp
  | .addIface valid => VifReferences.addIface valid
  | .nlGetInfoHandler _ => VifReferences.nlGetInfoHandler

/-- The interface a function has without a lookup. -/
def Op.own : Op → Var ℕ
  | .nlGetInfoHandler id => .given id
  | _ => .empty

def calls : Calls (List Vif) Key ℕ Op where
  find := findVif
  own := Op.own
  script := Op.script

abbrev State := ReferenceCounts.State (List Vif) Key ℕ Op

abbrev Event := ReferenceCounts.Event (List Vif) Op

/-- The driver with the interfaces of the beginning. -/
def init (vifs : List Vif) : State := ReferenceCounts.init vifs

def next (s : State) (e : Event) : State := ReferenceCounts.next calls s e

def step (s : State) (e : Event) : Except Empty State := ReferenceCounts.step calls s e

/-- The condition of the loop in `sprdwl_deinit_vif` -/
def deinitWaits (s : State) (id : ℕ) : Prop := 0 < s.ref id

/-- The function that a step goes on with returns. -/
def Returning (s : State) (e : Event) (th : Thread Key ℕ Op) : Prop :=
  ∃ k, e = .act k ∧ s.threads[k]? = some th ∧ th.script = .done

/-- The function that a step goes on with calls `sprdwl_put_vif`. -/
def Putting (s : State) (e : Event) (th : Thread Key ℕ Op) : Prop :=
  ∃ k rest, e = .act k ∧ s.threads[k]? = some th ∧ th.script = .put rest

/-- What a step keeps to. -/
structure Sound (s : State) (e : Event) : Prop where
  ref_eq : ∀ id, (next s e).ref id = (next s e).users id
  nonneg : ∀ id, 0 ≤ (next s e).ref id
  gives_back : ∀ th, Returning s e th → ∀ id, ¬ th.Uses id
  once : ∀ th, Putting s e th → ∀ id, th.var ≠ .given id
  wait_ends : ∀ id, (∀ th ∈ (next s e).threads, ¬ th.Uses id) → ¬ deinitWaits (next s e) id

/-- The functions that keep what they look up: `sprdwl_rx_skb_process` of an IPv6 frame from and to
one address, and `sprdwl_check_p2p_coex`. -/
def Keeps : Op → Prop
  | .rxSkbProcess _ _ loopback => loopback = true
  | .addIface _ => True
  | _ => False

instance : DecidablePred Keeps
  | .rxSkbProcess _ _ loopback => inferInstanceAs (Decidable (loopback = true))
  | .addIface _ => isTrue True.intro
  | .cmdGetbuf _ _ _ => isFalse id
  | .cmdSendRecv _ _ _ => isFalse id
  | .rxEventProcess _ _ _ => isFalse id
  | .netflowcontrlMode _ => isFalse id
  | .txWorkQueueWakeup _ => isFalse id
  | .rxSendCmdProcess _ _ => isFalse id
  | .suspendResumeHandle _ _ => isFalse id
  | .txAddba _ _ => isFalse id
  | .txDelba _ _ => isFalse id
  | .startAp _ => isFalse id
  | .stopAp _ => isFalse id
  | .nlGetInfoHandler _ => isFalse id

/-- No information is asked for over netlink, and when such a frame gets to its lookup and when
an interface is to be added, there is no interface of the context, and none in P2P client or P2P GO
mode. -/
def Fine (s : State) : Event → Prop
  | .start (.nlGetInfoHandler _) => False
  | .start _ => True
  | .act k => Misses calls Keeps s k
  | .change _ => True

variable {s : State} {e : Event}

/-- Every function but the netlink handler gives back what it takes, apart from what it keeps. -/
theorem script_returns (op : Op) (h : ∀ id, op ≠ .nlGetInfoHandler id) :
    op.own = .empty ∧ Returns (ι := ℕ) (Keeps op) .empty op.script := by
  cases op with
  | nlGetInfoHandler id => exact absurd rfl (h id)
  | cmdGetbuf refused cmdId ctxId =>
    refine ⟨rfl, ?_⟩
    simp only [Op.script, cmdGetbuf, putAlways]
    split
    · exact True.intro
    · split
      · exact ⟨fun _ _ => True.intro, True.intro⟩
      · exact True.intro
  | cmdSendRecv timeout isClose ctxId =>
    refine ⟨rfl, ?_⟩
    simp only [Op.script, cmdSendRecv, putFound]
    split
    · exact True.intro
    · split
      · exact True.intro
      · exact ⟨fun _ _ => True.intro, True.intro⟩
  | rxEventProcess noPriv noMem ctxId =>
    refine ⟨rfl, ?_⟩
    simp only [Op.script, rxEventProcess, ite_self]
    split
    · exact True.intro
    · split
      · exact True.intro
      · exact ⟨fun _ _ => True.intro, True.intro⟩
  | netflowcontrlMode mode => exact ⟨rfl, fun _ _ => True.intro, True.intro⟩
  | txWorkQueueWakeup mode => exact ⟨rfl, fun _ _ => True.intro, True.intro⟩
  | rxSendCmdProcess noPriv ctxId =>
    refine ⟨rfl, ?_⟩
    simp only [Op.script, rxSendCmdProcess, putFound]
    split
    · exact True.intro
    · split
      · exact True.intro
      · exact ⟨fun _ _ => True.intro, True.intro⟩
  | rxSkbProcess ctxId attack loopback =>
    refine ⟨rfl, ?_⟩
    simp only [Op.script, rxSkbProcess]
    split
    · exact True.intro
    · split
      · exact True.intro
      · refine ⟨fun hkeeps _ => ?_, True.intro⟩
        rw [if_neg (show ¬ loopback = true from hkeeps)]
        exact True.intro
  | suspendResumeHandle opened refused =>
    refine ⟨rfl, ?_⟩
    cases opened with
    | none => exact True.intro
    | some mode =>
      simp only [Op.script, suspendResumeHandle, ite_self]
      exact ⟨fun _ _ => True.intro, True.intro⟩
  | txAddba noMem ctxId =>
    simp only [Op.script, txAddba, ite_self]
    exact ⟨rfl, fun _ _ => True.intro, True.intro⟩
  | txDelba noMem ctxId =>
    simp only [Op.script, txDelba, ite_self]
    exact ⟨rfl, fun _ _ => True.intro, True.intro⟩
  | startAp isAp =>
    refine ⟨rfl, ?_⟩
    simp only [Op.script, startAp, putAlways]
    split
    · exact ⟨fun _ _ => True.intro, True.intro⟩
    · exact True.intro
  | stopAp isAp =>
    refine ⟨rfl, ?_⟩
    simp only [Op.script, stopAp, putAlways]
    split
    · exact ⟨fun _ _ => True.intro, True.intro⟩
    · exact True.intro
  | addIface valid =>
    refine ⟨rfl, ?_⟩
    simp only [Op.script, addIface, checkP2pCoex]
    split
    · exact ⟨fun hkeeps => absurd True.intro hkeeps, fun hkeeps => absurd True.intro hkeeps,
        True.intro⟩
    · exact True.intro

theorem next_counted (h : Counted Keeps s) (hf : Fine s e) : Counted Keeps (next s e) := by
  refine h.next (fun op he => ?_) (fun k he => ?_)
  · subst he
    have hop : ∀ id, op ≠ .nlGetInfoHandler id := by
      rintro id rfl
      exact hf
    obtain ⟨hown, hreturns⟩ := script_returns op hop
    change (∀ id, op.own ≠ .taken id) ∧ Returns (Keeps op) op.own op.script
    rw [hown]
    exact ⟨by simp, hreturns⟩
  · subst he
    exact hf

theorem fine_sound (h : Counted Keeps s) (hf : Fine s e) : Sound s e where
  ref_eq := (next_counted h hf).ref_eq
  nonneg := (next_counted h hf).nonneg
  gives_back := by
    rintro th ⟨k, rfl, hk, hscript⟩ id huses
    have hreturns := h.returns th (List.mem_of_getElem? hk)
    rw [show th.var = _ from huses, hscript] at hreturns
    exact hreturns
  once := by
    rintro th ⟨k, rest, rfl, hk, hscript⟩ id hgiven
    have hreturns := h.returns th (List.mem_of_getElem? hk)
    rw [hgiven, hscript] at hreturns
    exact hreturns
  wait_ends id hid := by
    rw [deinitWaits, (next_counted h hf).unused hid]
    exact lt_irrefl 0

/-- In a run of the functions each count is the number of the results in use, and each function
gives back what it takes. -/
theorem vif_references {vifs : List Vif} {es : List Event} (hf : Along step Fine (init vifs) es) :
    ∀ h e rest s, es = h ++ e :: rest → run step (init vifs) h = .ok s → Sound s e := by
  rintro h e rest s rfl hs
  obtain ⟨hbefore, hafter⟩ := along_append.mp hf
  refine fine_sound (run_invariant (I := Counted Keeps) (fun s e t hI hfe ht => ?_)
    (init_counted vifs) hbefore hs) (hafter s hs).1
  obtain rfl := Except.ok.inj ht
  exact next_counted hI hfe

/-- An event of an interface that is deleted while the event is processed. -/
def sampleEvent : List Event :=
  [.start (.rxEventProcess false false 1), .act 0, .change [], .act 0, .act 0]

theorem sampleEvent_references :
    ∃ s, run step (init [⟨7, 1, .station⟩]) sampleEvent.dropLast = .ok s ∧ Sound s (.act 0) := by
  refine ⟨_, rfl, @vif_references _ sampleEvent ?_ sampleEvent.dropLast (.act 0) [] _ rfl rfl⟩
  have hmiss (s : State) (k : ℕ) (hops : ∀ th ∈ s.threads, ¬ Keeps th.op) :
      Misses calls Keeps s k := by
    intro th key found missing hk hkeeps
    exact absurd hkeeps (hops th (List.mem_of_getElem? hk))
  refine ⟨True.intro, fun s₁ hs₁ => ?_⟩
  obtain rfl := Except.ok.inj hs₁
  refine ⟨hmiss _ _ (by decide), fun s₂ hs₂ => ?_⟩
  obtain rfl := Except.ok.inj hs₂
  refine ⟨True.intro, fun s₃ hs₃ => ?_⟩
  obtain rfl := Except.ok.inj hs₃
  refine ⟨hmiss _ _ (by decide), fun s₄ hs₄ => ?_⟩
  obtain rfl := Except.ok.inj hs₄
  exact ⟨hmiss _ _ (by decide), fun _ _ => True.intro⟩

/-- An IPv6 frame that a station has sent to itself. -/
def sampleLoopback : List Event := [.start (.rxSkbProcess 1 false true), .act 0, .act 0]

/-- The frame is dropped with its reference, and the interface waits to be deleted. -/
theorem loopback_frame_keeps_reference :
    (∃ s, run step (init [⟨7, 1, .station⟩]) sampleLoopback = .ok s ∧ s.users 7 = 0 ∧
      s.ref 7 = 1 ∧ deinitWaits s 7) ∧
    ¬ ∀ h e rest s, sampleLoopback = h ++ e :: rest →
      run step (init [⟨7, 1, .station⟩]) h = .ok s → Sound s e := by
  refine ⟨⟨_, rfl, rfl, rfl, Int.one_pos⟩, fun hall => ?_⟩
  have hsound := hall [_, _] _ [] _ rfl rfl
  exact absurd (hsound.ref_eq 7) (by decide)

end Uwe5631.VifReferences
