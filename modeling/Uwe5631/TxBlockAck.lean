import Uwe5631.FallibleRuns
import Uwe5631.MachineIntegers
import Mathlib.Logic.Function.Basic
import Mathlib.Data.List.Nodup
import Mathlib.Data.List.Basic

/-!
# Block acks for transmission

`ba_tx_done_map` marks the tids of a peer for which a block ack was asked for. The mark is set
when the request is made; a work sends it; its answer may take the mark back. Requests name
their station by its index, and an index passes from one station to the next.
-/
namespace Uwe5631.TxBlockAck
open FallibleRuns

abbrev Tid := BitVec 4

/-- An index of the table `peer_entry`. -/
abbrev Lut := BitVec 8

def MAX_LUT_NUM : ℕ := 32
def ADDBA_REQ_RESULT_SUCCESS : BitVec 8 := 0

inductive Fault where
  /-- An entry beyond `peer_entry`. -/
  | peerEntry
  deriving DecidableEq, Repr

/-- `struct sprdwl_peer_entry`, with the `tx_num` of its index. -/
structure PeerEntry where
  da : BitVec 48
  lutIndex : Lut
  ctxId : BitVec 8
  htEnable : Bool
  ipAcquired : Bool
  vowifiEnabled : Bool
  baTxDoneMap : Tid → Bool
  /-- When the last request was made, in nanoseconds. -/
  time : Tid → ℕ
  txNum : ℕ

def PeerEntry.zero : PeerEntry :=
  ⟨0, 0, 0, false, false, false, fun _ => false, fun _ => 0, 0⟩

/-- `struct host_addba_param`; `station` tells which station of its index is meant. -/
structure AddbaParam where
  lutIndex : Lut
  perrMacAddr : BitVec 48
  tid : Tid
  station : ℕ
  deriving DecidableEq, Repr

/-- `struct host_delba_param`; `marked` tells whether it named a station and a marked tid. -/
structure DelbaParam where
  lutIndex : Lut
  perrMacAddr : BitVec 48
  tid : Tid
  marked : Bool
  deriving DecidableEq, Repr

inductive Work where
  | addba (param : AddbaParam)
  | delba (params : List DelbaParam)
  deriving DecidableEq, Repr

structure State where
  peers : Lut → PeerEntry
  works : List Work
  /-- The request whose answer the worker waits for. -/
  inFlight : Option AddbaParam
  delbaSent : List DelbaParam
  /-- How many stations an index has had. -/
  stations : Lut → ℕ
  /-- The requests that were accepted and not torn down. -/
  accepted : List (Lut × ℕ × Tid)

/-- The answer to a request. -/
structure Reply where
  result : BitVec 8
  lutIndex : Lut
  tid : Tid
  deriving DecidableEq, Repr

inductive LutAction where
  | del
  | upd
  | add
  | other
  deriving DecidableEq, Repr

def State.setPeer (s : State) (i : Lut) (p : PeerEntry) : State :=
  { s with peers := Function.update s.peers i p }

/-- `sprdwl_tx_addba` -/
def sprdwlTxAddba (vif : BitVec 8 → Bool) (s : State) (i : Lut) (tid : Tid) (allocated : Bool) :
    State :=
  let p := s.peers i
  if vif p.ctxId = false then s
  else if allocated = false then s
  else { s with works := s.works ++ [.addba ⟨p.lutIndex, p.da, tid, s.stations p.lutIndex⟩] }

/-- The test of `prepare_addba`; a failed request is repeated after three seconds. -/
def due (p : PeerEntry) (group : Bool) (tid : Tid) (now : ℕ) : Bool :=
  decide (9 < p.txNum) && (p.ipAcquired || !group) && p.htEnable && !p.vowifiEnabled &&
    !p.baTxDoneMap tid &&
    (decide (3000 < (now - p.time tid) / 1000000) || decide (p.time tid % 1000000000 = 0))

/-- `prepare_addba` -/
def prepareAddba (vif : BitVec 8 → Bool) (s : State) (i : Lut) (group : Bool) (tid : Tid) (now : ℕ)
    (allocated : Bool) : State :=
  let p := s.peers i
  if due p group tid now then
    sprdwlTxAddba vif
      (s.setPeer i { p with
        time := Function.update p.time tid now
        baTxDoneMap := Function.update p.baTxDoneMap tid true }) i tid allocated
  else s

/-- `qos_index_2_tid` -/
def qosIndex2Tid (acIndex : Fin 4) : Tid := ![6, 4, 0, 1] acIndex

/-- The `delba` of `sprdwl_tx_delba`: one entry is filled in, the others stay zero. -/
def delbaParams (s : State) (i : Lut) (acIndex : Fin 4) : List DelbaParam :=
  let p := s.peers i
  let marked (lut : Lut) (mac : BitVec 48) (tid : Tid) : Bool :=
    (s.peers lut).da == mac && (s.peers lut).baTxDoneMap tid
  (List.finRange 4).map fun j =>
    if j = acIndex then
      ⟨p.lutIndex, p.da, qosIndex2Tid acIndex, marked p.lutIndex p.da (qosIndex2Tid acIndex)⟩
    else ⟨0, 0, 0, marked 0 0 0⟩

/-- `sprdwl_tx_delba` -/
def sprdwlTxDelba (vif : BitVec 8 → Bool) (s : State) (i : Lut) (acIndex : Fin 4)
    (allocated : Bool) : State :=
  let p := s.peers i
  if vif p.ctxId = false then s
  else if allocated = false then s
  else
    { s.setPeer i { p with htEnable := false, baTxDoneMap := fun _ => false } with
      works := s.works ++ [.delba (delbaParams s i acIndex)]
      accepted := s.accepted.filter fun k =>
        k != (p.lutIndex, s.stations p.lutIndex, qosIndex2Tid acIndex) }

/-- `sprdwl_event_sta_lut`; a new station is counted. -/
def sprdwlEventStaLut (s : State) (i : Lut) (action : LutAction) (ctxId : BitVec 8)
    (isHtEnable : Bool) (ra : BitVec 48) : State :=
  let counted := { s with stations := Function.update s.stations i (s.stations i + 1) }
  match action with
  | .del => counted.setPeer i { PeerEntry.zero with ctxId := 0xff }
  | .upd | .add => counted.setPeer i { s.peers i with
      lutIndex := i, ctxId := ctxId, htEnable := isHtEnable, baTxDoneMap := fun _ => false
      txNum := 0, da := ra }
  | .other => s

/-- `sprdwl_do_work` up to the answer of `sprdwl_cmd_send_recv`. -/
def sprdwlDoWork (s : State) (allocated : Bool) : State :=
  match s.inFlight, s.works with
  | none, .addba param :: works =>
    if allocated then { s with works := works, inFlight := some param } else { s with works := works }
  | none, .delba params :: works =>
    { s with works := works, delbaSent := if allocated then s.delbaSent ++ params else s.delbaSent }
  | _, _ => s

/-- `sprdwl_tx_ba_mgmt` from the answer on; none comes in time, or the peer it names is
beyond the table. -/
def sprdwlTxBaMgmt (s : State) (reply : Option Reply) : Except Fault State :=
  match s.inFlight, reply with
  | none, _ => .ok s
  | some _, none => .ok { s with inFlight := none }
  | some param, some r =>
    if r.result = ADDBA_REQ_RESULT_SUCCESS then
      .ok { s with
        inFlight := none
        accepted := s.accepted ++ [(param.lutIndex, param.station, param.tid)] }
    else if MAX_LUT_NUM ≤ r.lutIndex.toNat then .error .peerEntry
    else
      let p := s.peers r.lutIndex
      .ok { s.setPeer r.lutIndex { p with
        baTxDoneMap := Function.update p.baTxDoneMap r.tid false } with inFlight := none }

inductive Event where
  | transmit (vif : BitVec 8 → Bool) (i : Lut) (group : Bool) (tid : Tid) (now : ℕ)
      (allocated : Bool)
  | txDelba (vif : BitVec 8 → Bool) (i : Lut) (acIndex : Fin 4) (allocated : Bool)
  | staLut (i : Lut) (action : LutAction) (ctxId : BitVec 8) (isHtEnable : Bool) (ra : BitVec 48)
  | doWork (allocated : Bool)
  | reply (reply : Option Reply)
  /-- What other parts of the driver note about a peer. -/
  | note (i : Lut) (ipAcquired vowifiEnabled : Bool) (txNum : ℕ)

/-- The entry of the peer an event is about is in the table. -/
def Event.inTable : Event → Bool
  | .transmit _ i _ _ _ _ | .txDelba _ i _ _ | .staLut i _ _ _ _ | .note i _ _ _ =>
    decide (i.toNat < MAX_LUT_NUM)
  | _ => true

def step (s : State) (e : Event) : Except Fault State :=
  if e.inTable = false then .error .peerEntry
  else match e with
    | .transmit vif i group tid now allocated => .ok (prepareAddba vif s i group tid now allocated)
    | .txDelba vif i acIndex allocated => .ok (sprdwlTxDelba vif s i acIndex allocated)
    | .staLut i action ctxId isHtEnable ra => .ok (sprdwlEventStaLut s i action ctxId isHtEnable ra)
    | .doWork allocated => .ok (sprdwlDoWork s allocated)
    | .reply reply => sprdwlTxBaMgmt s reply
    | .note i ipAcquired vowifiEnabled txNum =>
      .ok (s.setPeer i { s.peers i with
        ipAcquired := ipAcquired, vowifiEnabled := vowifiEnabled, txNum := txNum })

def initial : State := ⟨fun _ => .zero, [], none, [], fun _ => 0, []⟩

/-! ## The condition -/

/-- The request is meant for the station that has its index now. -/
def Current (s : State) (param : AddbaParam) : Prop := param.station = s.stations param.lutIndex

/-- A refusal names the request it belongs to; if that one's station is gone, it names a tid that
is not marked anyway. The answer to a request of a station that is there does come. -/
def ReplyFits (s : State) (param : AddbaParam) : Option Reply → Prop
  | none => ¬ Current s param
  | some r => r.result = ADDBA_REQ_RESULT_SUCCESS ∨ r.lutIndex.toNat < MAX_LUT_NUM ∧
      (Current s param → r.lutIndex = param.lutIndex ∧ r.tid = param.tid) ∧
      (¬ Current s param → (s.peers r.lutIndex).baTxDoneMap r.tid = false)

/-- A request that is due is queued, and sent if its station is still there; no station is torn
down. -/
def Fits (s : State) : Event → Prop
  | .transmit vif i group tid now allocated =>
    i.toNat < MAX_LUT_NUM ∧
      (due (s.peers i) group tid now = true → vif (s.peers i).ctxId = true ∧ allocated = true)
  | .txDelba vif i _ allocated =>
    i.toNat < MAX_LUT_NUM ∧ (vif (s.peers i).ctxId = false ∨ allocated = false)
  | .staLut i _ _ _ _ | .note i _ _ _ => i.toNat < MAX_LUT_NUM
  | .doWork allocated => allocated = true ∨ s.inFlight ≠ none ∨
      ∀ param, s.works.head? = some (.addba param) → ¬ Current s param
  | .reply reply => ∀ param, s.inFlight = some param → ReplyFits s param reply

/-! ## The marks and the requests -/

def AddbaParam.key (param : AddbaParam) : Lut × ℕ × Tid :=
  (param.lutIndex, param.station, param.tid)

def Work.param : Work → Option AddbaParam
  | .addba param => some param
  | .delba _ => none

/-- The requests that were accepted, are in flight or queued. -/
def State.asked (s : State) : List (Lut × ℕ × Tid) :=
  s.accepted ++ (s.inFlight.toList ++ s.works.filterMap Work.param).map AddbaParam.key

structure Booked (s : State) : Prop where
  marked : ∀ i tid, (s.peers i).baTxDoneMap tid = true ↔ (i, s.stations i, tid) ∈ s.asked
  /-- No request is for a station that is still to come. -/
  past : ∀ k ∈ s.asked, k.2.1 ≤ s.stations k.1
  once : s.asked.Nodup
  lutIndex : ∀ i, (s.peers i).htEnable = true → (s.peers i).lutIndex = i
  noDelba : ∀ w ∈ s.works, ∀ params, w ≠ .delba params
  delbaSent : s.delbaSent = []

variable {s : State}

theorem initial_booked : Booked initial where
  marked _ _ := iff_of_false Bool.false_ne_true List.not_mem_nil
  past _ hk := by cases hk
  once := List.nodup_nil
  lutIndex _ h := by cases h
  noDelba _ hw := by cases hw
  delbaSent := rfl

theorem due_spec {p : PeerEntry} {group : Bool} {tid : Tid} {now : ℕ}
    (h : due p group tid now = true) : p.htEnable = true ∧ p.baTxDoneMap tid = false := by
  simp only [due, Bool.and_eq_true, Bool.not_eq_true'] at h
  exact ⟨h.1.1.1.2, h.1.2⟩

theorem transmit_booked (h : Booked s) {vif : BitVec 8 → Bool} {i : Lut} {group : Bool} {tid : Tid}
    {now : ℕ} {allocated : Bool}
    (hfits : due (s.peers i) group tid now = true → vif (s.peers i).ctxId = true ∧ allocated = true) :
    Booked (prepareAddba vif s i group tid now allocated) := by
  rw [prepareAddba]
  split
  · rename_i hdue
    obtain ⟨hvif, rfl⟩ := hfits hdue
    obtain ⟨hht, hmap⟩ := due_spec hdue
    have hlut := h.lutIndex i hht
    have hnew : (i, s.stations i, tid) ∉ s.asked := fun hmem => by
      rw [(h.marked i tid).mpr hmem] at hmap
      cases hmap
    generalize hp : { s.peers i with
      time := Function.update (s.peers i).time tid now
      baTxDoneMap := Function.update (s.peers i).baTxDoneMap tid true } = p
    have hpmap : p.baTxDoneMap = Function.update (s.peers i).baTxDoneMap tid true := by rw [← hp]
    have hplut : p.lutIndex = i := by rw [← hp]; exact hlut
    have hpctx : p.ctxId = (s.peers i).ctxId := by rw [← hp]
    have hpeer : (s.setPeer i p).peers i = p := Function.update_self ..
    have hqueued : sprdwlTxAddba vif (s.setPeer i p) i tid true =
        { s.setPeer i p with works := s.works ++ [.addba ⟨i, p.da, tid, s.stations i⟩] } := by
      rw [sprdwlTxAddba, hpeer, hpctx, hvif, hplut]
      rfl
    have hasked : State.asked
        { s.setPeer i p with works := s.works ++ [.addba ⟨i, p.da, tid, s.stations i⟩] } =
          s.asked ++ [(i, s.stations i, tid)] := by
      simp [State.asked, State.setPeer, Work.param, AddbaParam.key]
    rw [hqueued]
    refine ⟨fun j other => ?_, fun k hk => ?_, ?_, fun j hj => ?_, fun w hw => ?_, h.delbaSent⟩
    · rw [hasked, List.mem_append, List.mem_singleton]
      change (Function.update s.peers i p j).baTxDoneMap other = true ↔
        (j, s.stations j, other) ∈ s.asked ∨ (j, s.stations j, other) = (i, s.stations i, tid)
      rw [← h.marked j other]
      by_cases hj : j = i
      · subst hj
        by_cases hother : other = tid
        · subst hother
          simp [hpmap]
        · simp [hpmap, hother]
      · simp [hj]
    · rw [hasked, List.mem_append, List.mem_singleton] at hk
      rcases hk with hk | rfl
      · exact h.past k hk
      · exact Nat.le_refl _
    · rw [hasked]
      exact List.nodup_append.mpr ⟨h.once, List.nodup_singleton _, fun a ha b hb hab =>
        hnew (List.mem_singleton.mp hb ▸ hab ▸ ha)⟩
    · by_cases hji : j = i
      · subst hji
        exact (congrArg PeerEntry.lutIndex hpeer).trans hplut
      · have hother : (s.setPeer i p).peers j = s.peers j := Function.update_of_ne hji ..
        exact (congrArg PeerEntry.lutIndex hother).trans
          (h.lutIndex j ((congrArg PeerEntry.htEnable hother).symm.trans hj))
    · intro params
      rcases List.mem_append.mp hw with hw | hw
      · exact h.noDelba w hw params
      · rw [List.mem_singleton.mp hw]
        exact Work.noConfusion
  · exact h

/-- A new entry for a peer: what was asked for its index is in the past. -/
theorem newStation_booked (h : Booked s) (i : Lut) {p : PeerEntry}
    (hmap : p.baTxDoneMap = fun _ => false) (hlut : p.htEnable = true → p.lutIndex = i) :
    Booked ({ s with stations := Function.update s.stations i (s.stations i + 1) }.setPeer i p) := by
  refine ⟨fun j tid => ?_, fun k hk => (h.past k hk).trans ?_, h.once, fun j hj => ?_, h.noDelba,
    h.delbaSent⟩
  · by_cases hj : j = i
    · subst hj
      have hnot : (j, s.stations j + 1, tid) ∉ s.asked := fun hmem =>
        absurd (h.past _ hmem) (Nat.not_succ_le_self _)
      change (Function.update s.peers j p j).baTxDoneMap tid = true ↔
        (j, Function.update s.stations j (s.stations j + 1) j, tid) ∈ s.asked
      rw [Function.update_self, Function.update_self, hmap]
      exact iff_of_false Bool.false_ne_true hnot
    · change (Function.update s.peers i p j).baTxDoneMap tid = true ↔
        (j, Function.update s.stations i (s.stations i + 1) j, tid) ∈ s.asked
      rw [Function.update_of_ne hj, Function.update_of_ne hj]
      exact h.marked j tid
  · by_cases hk : k.1 = i
    · simp [State.setPeer, hk]
    · simp [State.setPeer, hk]
  · by_cases hji : j = i
    · subst hji
      simp only [State.setPeer, Function.update_self] at hj ⊢
      exact hlut hj
    · simp only [State.setPeer, Function.update_of_ne hji] at hj ⊢
      exact h.lutIndex j hj

theorem staLut_booked (h : Booked s) (i : Lut) (action : LutAction) (ctxId : BitVec 8)
    (isHtEnable : Bool) (ra : BitVec 48) :
    Booked (sprdwlEventStaLut s i action ctxId isHtEnable ra) := by
  cases action with
  | del => exact newStation_booked h i rfl (fun hht => by cases hht)
  | upd | add => exact newStation_booked h i rfl (fun _ => rfl)
  | other => exact h

/-- A request whose station is gone is no longer waited for. -/
theorem dropped_booked (h : Booked s) {t : State} (hpeers : t.peers = s.peers)
    (hstations : t.stations = s.stations) (hworks : ∀ w ∈ t.works, w ∈ s.works)
    (hsent : t.delbaSent = s.delbaSent) {param : AddbaParam} (hgone : ¬ Current s param)
    {front back : List (Lut × ℕ × Tid)} (hs : s.asked = front ++ param.key :: back)
    (ht : t.asked = front ++ back) : Booked t := by
  have hmem (k : Lut × ℕ × Tid) : k ∈ s.asked ↔ k = param.key ∨ k ∈ t.asked := by
    rw [hs, ht]
    simp only [List.mem_append, List.mem_cons]
    tauto
  refine ⟨fun i tid => ?_, fun k hk => ?_, ?_, fun i => ?_, fun w hw => h.noDelba w (hworks w hw),
    hsent.trans h.delbaSent⟩
  · rw [hpeers, hstations]
    refine (h.marked i tid).trans ((hmem _).trans (or_iff_right ?_))
    intro hkey
    simp only [AddbaParam.key, Prod.mk.injEq] at hkey
    exact hgone (by rw [Current, ← hkey.1, ← hkey.2.1])
  · rw [hstations]
    exact h.past k ((hmem k).mpr (.inr hk))
  · rw [ht]
    exact (hs ▸ h.once).sublist (List.Sublist.append_left (List.sublist_cons_self _ _) _)
  · rw [hpeers]
    exact h.lutIndex i

theorem doWork_booked (h : Booked s) {allocated : Bool} (hfits : Fits s (.doWork allocated)) :
    Booked (sprdwlDoWork s allocated) := by
  rw [sprdwlDoWork]
  split
  · rename_i param works hflight hworks
    have hasked : s.asked = s.accepted ++ param.key :: (works.filterMap Work.param).map
        AddbaParam.key := by
      simp [State.asked, hflight, hworks, Work.param]
    have hmore : ∀ w ∈ works, w ∈ s.works := fun w hw => hworks ▸ List.mem_cons_of_mem _ hw
    cases allocated with
    | true =>
      have hsame : State.asked { s with works := works, inFlight := some param } = s.asked := by
        rw [hasked]
        simp [State.asked]
      rw [if_pos rfl]
      exact ⟨fun i tid => by rw [hsame]; exact h.marked i tid, fun k hk => h.past k (hsame ▸ hk),
        hsame ▸ h.once, h.lutIndex, fun w hw => h.noDelba w (hmore w hw), h.delbaSent⟩
    | false =>
      have hgone : ¬ Current s param := by
        rcases hfits with hfits | hfits | hfits
        · cases hfits
        · exact absurd hflight hfits
        · exact hfits param (by rw [hworks]; rfl)
      rw [if_neg Bool.false_ne_true]
      exact dropped_booked h rfl rfl hmore rfl hgone hasked (by simp [State.asked, hflight])
  · rename_i params works hflight hworks
    exact absurd rfl (h.noDelba _ (by rw [hworks]; exact List.mem_cons_self) params)
  · exact h

theorem asked_of_inFlight {param : AddbaParam} (hflight : s.inFlight = some param) :
    s.asked = s.accepted ++ param.key :: (s.works.filterMap Work.param).map AddbaParam.key := by
  simp [State.asked, hflight]

/-- The mark of a request that is refused is taken back. -/
theorem refused_booked (h : Booked s) {param : AddbaParam} (hflight : s.inFlight = some param)
    (hcurrent : Current s param) :
    Booked { s.setPeer param.lutIndex { s.peers param.lutIndex with
      baTxDoneMap := Function.update (s.peers param.lutIndex).baTxDoneMap param.tid false } with
        inFlight := none } := by
  have hs := asked_of_inFlight hflight
  generalize hp : { s.peers param.lutIndex with
      baTxDoneMap := Function.update (s.peers param.lutIndex).baTxDoneMap param.tid false } = p
  have hpmap : p.baTxDoneMap =
    Function.update (s.peers param.lutIndex).baTxDoneMap param.tid false := by rw [← hp]
  have ht : State.asked { s.setPeer param.lutIndex p with inFlight := none } =
      s.accepted ++ (s.works.filterMap Work.param).map AddbaParam.key := by
    simp [State.asked, State.setPeer]
  have hnodup := h.once
  rw [hs] at hnodup
  have hkey := List.nodup_middle.mp hnodup
  have hmem (k : Lut × ℕ × Tid) : k ∈ s.asked ↔ k = param.key ∨
      k ∈ State.asked { s.setPeer param.lutIndex p with inFlight := none } := by
    rw [hs, ht]
    simp only [List.mem_append, List.mem_cons]
    tauto
  refine ⟨fun j tid => ?_, fun k hk => h.past k ((hmem k).mpr (.inr hk)), ?_, fun j hj => ?_,
    h.noDelba, h.delbaSent⟩
  · rw [ht]
    change (Function.update s.peers param.lutIndex p j).baTxDoneMap tid = true ↔
      (j, s.stations j, tid) ∈ s.accepted ++ (s.works.filterMap Work.param).map AddbaParam.key
    by_cases hj : j = param.lutIndex
    · rw [hj, Function.update_self, hpmap]
      by_cases htid : tid = param.tid
      · rw [htid, Function.update_self, ← hcurrent]
        exact iff_of_false Bool.false_ne_true (List.nodup_cons.mp hkey).1
      · rw [Function.update_of_ne htid]
        refine (h.marked _ tid).trans ((hmem _).trans ((or_iff_right ?_).trans (by rw [ht])))
        intro heq
        exact htid (congrArg (fun k => k.2.2) heq)
    · rw [Function.update_of_ne hj]
      refine (h.marked _ tid).trans ((hmem _).trans ((or_iff_right ?_).trans (by rw [ht])))
      intro heq
      exact hj (congrArg Prod.fst heq)
  · rw [ht]
    exact (List.nodup_cons.mp hkey).2
  · by_cases hji : j = param.lutIndex
    · subst hji
      have hself : (s.setPeer param.lutIndex p).peers param.lutIndex = p := Function.update_self ..
      refine (congrArg PeerEntry.lutIndex hself).trans ?_
      have hht : p.htEnable = true := (congrArg PeerEntry.htEnable hself).symm.trans hj
      rw [← hp] at hht ⊢
      exact h.lutIndex _ hht
    · have hother : (s.setPeer param.lutIndex p).peers j = s.peers j := Function.update_of_ne hji ..
      exact (congrArg PeerEntry.lutIndex hother).trans
        (h.lutIndex j ((congrArg PeerEntry.htEnable hother).symm.trans hj))

/-- The answer to a request whose station is gone changes no mark. -/
theorem reply_booked (h : Booked s) {reply : Option Reply} (hfits : Fits s (.reply reply)) :
    ∃ s', sprdwlTxBaMgmt s reply = .ok s' ∧ Booked s' ∧
      ∀ param, s.inFlight = some param → ¬ Current s param → s'.peers = s.peers := by
  cases hflight : s.inFlight with
  | none =>
    refine ⟨s, ?_, h, fun param hparam => by cases hparam⟩
    simp only [sprdwlTxBaMgmt, hflight]
  | some param =>
    have hreply := hfits param hflight
    have hs := asked_of_inFlight hflight
    have hgone (hg : ¬ Current s param) : Booked { s with inFlight := none } :=
      dropped_booked h rfl rfl (fun _ hw => hw) rfl hg hs (by simp [State.asked])
    cases reply with
    | none =>
      refine ⟨{ s with inFlight := none }, ?_, hgone hreply, fun _ _ _ => rfl⟩
      simp only [sprdwlTxBaMgmt, hflight]
    | some r =>
      by_cases hresult : r.result = ADDBA_REQ_RESULT_SUCCESS
      · have hsame : State.asked { s with
            inFlight := none
            accepted := s.accepted ++ [(param.lutIndex, param.station, param.tid)] } = s.asked := by
          rw [hs]
          simp [State.asked, AddbaParam.key]
        refine ⟨{ s with
            inFlight := none
            accepted := s.accepted ++ [(param.lutIndex, param.station, param.tid)] }, ?_,
          ⟨fun i tid => ?_, fun k hk => h.past k (hsame ▸ hk), hsame ▸ h.once, h.lutIndex,
            h.noDelba, h.delbaSent⟩, fun _ _ _ => rfl⟩
        · simp only [sprdwlTxBaMgmt, hflight, if_pos hresult]
        · rw [hsame]
          exact h.marked i tid
      · obtain ⟨hlut, hnamed, hunmarked⟩ := hreply.resolve_left hresult
        have hanswer : sprdwlTxBaMgmt s (some r) = .ok { s.setPeer r.lutIndex
            { s.peers r.lutIndex with
              baTxDoneMap := Function.update (s.peers r.lutIndex).baTxDoneMap r.tid false } with
            inFlight := none } := by
          simp only [sprdwlTxBaMgmt, hflight, if_neg hresult, if_neg (Nat.not_le.mpr hlut)]
        by_cases hcurrent : Current s param
        · obtain ⟨hindex, htid⟩ := hnamed hcurrent
          rw [hindex, htid] at hanswer
          exact ⟨_, hanswer, refused_booked h hflight hcurrent, fun other hother hnot =>
            absurd (Option.some.inj hother ▸ hcurrent) hnot⟩
        · have hmap : Function.update (s.peers r.lutIndex).baTxDoneMap r.tid false =
              (s.peers r.lutIndex).baTxDoneMap := by
            rw [← hunmarked hcurrent, Function.update_eq_self]
          have hpeer : s.setPeer r.lutIndex { s.peers r.lutIndex with
              baTxDoneMap := (s.peers r.lutIndex).baTxDoneMap } = s := by
            rw [State.setPeer, Function.update_eq_self]
          rw [hmap, hpeer] at hanswer
          exact ⟨_, hanswer, hgone hcurrent, fun _ _ _ => rfl⟩

theorem txDelba_skipped {vif : BitVec 8 → Bool} {i : Lut} {acIndex : Fin 4} {allocated : Bool}
    (h : vif (s.peers i).ctxId = false ∨ allocated = false) :
    sprdwlTxDelba vif s i acIndex allocated = s := by
  rw [sprdwlTxDelba]
  rcases h with h | rfl
  · exact if_pos h
  · split <;> rfl

/-- Other fields of a peer do not matter. -/
theorem note_booked (h : Booked s) (i : Lut) {p : PeerEntry}
    (hmap : p.baTxDoneMap = (s.peers i).baTxDoneMap) (hht : p.htEnable = (s.peers i).htEnable)
    (hlut : p.lutIndex = (s.peers i).lutIndex) : Booked (s.setPeer i p) := by
  refine ⟨fun j tid => ?_, h.past, h.once, fun j hj => ?_, h.noDelba, h.delbaSent⟩
  · refine Iff.trans (Eq.to_iff ?_) (h.marked j tid)
    by_cases hji : j = i
    · subst hji
      simp [State.setPeer, hmap]
    · simp [State.setPeer, hji]
  · by_cases hji : j = i
    · subst hji
      simp only [State.setPeer, Function.update_self] at hj ⊢
      rw [hht] at hj
      rw [hlut]
      exact h.lutIndex j hj
    · simp only [State.setPeer, Function.update_of_ne hji] at hj ⊢
      exact h.lutIndex j hj

theorem step_booked (h : Booked s) {e : Event} (hfits : Fits s e) :
    ∃ s', step s e = .ok s' ∧ Booked s' := by
  have htable (hi : e.inTable = true) : ¬ e.inTable = false := by simp [hi]
  cases e with
  | transmit vif i group tid now allocated =>
    refine ⟨_, if_neg (htable (decide_eq_true hfits.1)), transmit_booked h hfits.2⟩
  | txDelba vif i acIndex allocated =>
    refine ⟨_, if_neg (htable (decide_eq_true hfits.1)), ?_⟩
    rw [txDelba_skipped hfits.2]
    exact h
  | staLut i action ctxId isHtEnable ra =>
    exact ⟨_, if_neg (htable (decide_eq_true hfits)), staLut_booked h i action ctxId isHtEnable ra⟩
  | doWork allocated => exact ⟨_, if_neg (htable rfl), doWork_booked h hfits⟩
  | reply reply =>
    obtain ⟨s', hs', hbooked, _⟩ := reply_booked h hfits
    exact ⟨s', (if_neg (htable rfl)).trans hs', hbooked⟩
  | note i ipAcquired vowifiEnabled txNum =>
    exact ⟨_, if_neg (htable (decide_eq_true hfits)), note_booked h i rfl rfl rfl⟩

theorem run_booked (h : Booked s) {es : List Event} (hfits : Along step Fits s es) :
    ∃ t, run step s es = .ok t ∧ Booked t := by
  induction es generalizing s with
  | nil => exact ⟨s, rfl, h⟩
  | cons e es ih =>
    obtain ⟨s', hs', hbooked⟩ := step_booked h hfits.1
    rw [run_cons_ok hs']
    exact ih hbooked (hfits.2 s' hs')

/-- In a run whose steps fit a tid is marked exactly if the peer's station was asked for a block
ack that is queued, in flight or accepted; what was torn down was marked; and the answer
to a request of a station that is gone leaves every peer as it is. -/
theorem block_ack_bookkeeping {es : List Event} (hfits : Along step Fits initial es) :
    ∃ s, run step initial es = .ok s ∧
      (∀ i tid, (s.peers i).baTxDoneMap tid = true ↔
        (i, s.stations i, tid) ∈ s.accepted ∨
          ∃ param, (s.inFlight = some param ∨ .addba param ∈ s.works) ∧
            param.lutIndex = i ∧ param.station = s.stations i ∧ param.tid = tid) ∧
      (∀ d ∈ s.delbaSent, d.marked = true) ∧
      ∀ reply param, Fits s (.reply reply) → s.inFlight = some param → ¬ Current s param →
        ∃ s', step s (.reply reply) = .ok s' ∧ s'.peers = s.peers := by
  obtain ⟨s, hr, h⟩ := run_booked initial_booked hfits
  refine ⟨s, hr, fun i tid => (h.marked i tid).trans ?_, fun d hd => ?_,
    fun reply param hreply hflight hgone => ?_⟩
  · simp only [State.asked, List.mem_append, List.mem_map, Option.mem_toList,
      List.mem_filterMap, AddbaParam.key, Prod.mk.injEq]
    refine or_congr Iff.rfl (exists_congr fun param => and_congr (or_congr Iff.rfl ?_) Iff.rfl)
    constructor
    · rintro ⟨w, hw, hparam⟩
      cases w with
      | addba p =>
        cases hparam
        exact hw
      | delba params => cases hparam
    · exact fun hw => ⟨_, hw, rfl⟩
  · rw [h.delbaSent] at hd
    cases hd
  · obtain ⟨s', hs', _, hpeers⟩ := reply_booked h hreply
    exact ⟨s', (if_neg (by simp [Event.inTable])).trans hs', hpeers param hflight hgone⟩

/-- Station 1 comes to index 3 and has sent enough for a block ack on tid 5. -/
def stationJoins : List Event :=
  [.staLut 3 .add 1 true 0x404500000001, .note 3 true false 10]

/-- A frame of tid 5 for index 3. -/
def frame (allocated : Bool) : Event := .transmit (fun _ => true) 3 false 5 1000 allocated

/-- The request is sent and accepted. -/
def acceptedRun : List Event :=
  stationJoins ++ [frame true, .doWork true, .reply (some ⟨0, 3, 5⟩)]

theorem along_cons {s s' : State} {e : Event} {es : List Event} (hfits : Fits s e)
    (hs : step s e = .ok s') (h : Along step Fits s' es) : Along step Fits s (e :: es) :=
  ⟨hfits, fun _ ht => Except.ok.inj (hs.symm.trans ht) ▸ h⟩

theorem acceptedRun_fits : Along step Fits initial acceptedRun := by
  refine along_cons (show (3 : Lut).toNat < MAX_LUT_NUM by decide) rfl ?_
  refine along_cons (show (3 : Lut).toNat < MAX_LUT_NUM by decide) rfl ?_
  refine along_cons ⟨by decide, fun _ => ⟨rfl, rfl⟩⟩ rfl ?_
  refine along_cons (.inl rfl) rfl ?_
  exact ⟨fun _ _ => .inl rfl, fun _ _ => True.intro⟩

theorem block_ack_bookkeeping_accepted : ∃ s, run step initial acceptedRun = .ok s ∧
      (∀ i tid, (s.peers i).baTxDoneMap tid = true ↔
        (i, s.stations i, tid) ∈ s.accepted ∨
          ∃ param, (s.inFlight = some param ∨ .addba param ∈ s.works) ∧
            param.lutIndex = i ∧ param.station = s.stations i ∧ param.tid = tid) ∧
      (∀ d ∈ s.delbaSent, d.marked = true) ∧
      ∀ reply param, Fits s (.reply reply) → s.inFlight = some param → ¬ Current s param →
        ∃ s', step s (.reply reply) = .ok s' ∧ s'.peers = s.peers :=
  block_ack_bookkeeping acceptedRun_fits

/-- Without memory for the work tid 5 is marked and nothing is asked for. Three of the requests
that tear a block ack down name no station. And a refusal that was meant for the station
before takes the mark of the next one, whose request is still queued. -/
theorem refusal_for_the_station_before :
    (∃ s, run step initial (stationJoins ++ [frame false]) = .ok s ∧
      (s.peers 3).baTxDoneMap 5 = true ∧ s.asked = []) ∧
    (∃ s, run step initial (acceptedRun ++ [.txDelba (fun _ => true) 3 0 true, .doWork true]) =
      .ok s ∧ ∃ d ∈ s.delbaSent, d.marked = false) ∧
    ∃ s s', run step initial (stationJoins ++ [frame true, .doWork true] ++ stationJoins ++
        [.note 3 true false 10, .transmit (fun _ => true) 3 false 5 4000000000000 true]) = .ok s ∧
      step s (.reply (some ⟨1, 3, 5⟩)) = .ok s' ∧
      (s.peers 3).baTxDoneMap 5 = true ∧ (s'.peers 3).baTxDoneMap 5 = false ∧
      (3, s'.stations 3, 5) ∈ s'.asked := by
  refine ⟨⟨_, rfl, by decide, by decide⟩, ⟨_, rfl, ⟨0, 0, 0, false⟩, by decide, rfl⟩,
    ⟨_, _, rfl, rfl, by decide, by decide, by decide⟩⟩

end Uwe5631.TxBlockAck
