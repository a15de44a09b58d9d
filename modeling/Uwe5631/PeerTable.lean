import Uwe5631.FallibleRuns
import Uwe5631.MachineIntegers
import Mathlib.Data.BitVec
import Mathlib.Data.Fin.Basic

/-!
# Peer table

`sprdwl_event_sta_lut` adds, updates and deletes the entries of `peer_entry` under an index that
comes from the firmware.
-/
namespace Uwe5631.PeerTable
open FallibleRuns

abbrev MAX_LUT_NUM : ℕ := 32

abbrev NUM_TIDS : ℕ := 8

abbrev SPRDWL_AC_MAX : ℕ := 4

/-- `SPRDWL_MODE_NONE` and the others; there is no mode 3. -/
inductive Mode where
  | none
  | station
  | ap
  | p2pDevice
  | p2pClient
  | p2pGo
  | ibss
  deriving DecidableEq, Repr

/-- `DEL_LUT_INDEX`, `ADD_LUT_INDEX`, `UPD_LUT_INDEX` or another number -/
inductive Action where
  | del
  | add
  | upd
  | unknown
  deriving DecidableEq, Repr

/-- `struct sprdwl_sta_lut_ind` -/
structure StaLutInd where
  ctxId : BitVec 8
  action : Action
  staLutIndex : BitVec 8
  ra : BitVec 48
  isHtEnable : BitVec 8
  isVhtEnable : BitVec 8
  deriving DecidableEq, Repr

/-- What the driver keeps about the traffic of a station. -/
structure Station where
  ipAcquired : BitVec 8
  baTxDoneMap : BitVec 64
  vowifiEnabled : BitVec 8
  vowifiPktCnt : BitVec 8
  deriving DecidableEq, Repr

def Station.zero : Station := ⟨0, 0, 0, 0⟩

/-- `struct sprdwl_peer_entry` -/
structure PeerEntry where
  /-- `tx.da` -/
  da : BitVec 48
  lutIndex : BitVec 8
  ctxId : BitVec 8
  htEnable : BitVec 8
  vhtEnable : BitVec 8
  station : Station
  deriving DecidableEq, Repr

/-- What `memset` leaves. -/
def PeerEntry.zero : PeerEntry := ⟨0, 0, 0, 0, 0, .zero⟩

structure Intf where
  peerEntry : Fin MAX_LUT_NUM → PeerEntry
  txNum : Fin MAX_LUT_NUM → ℕ
  /-- the nodes of the receive BA sessions, by LUT index and TID -/
  baNode : BitVec 8 → Fin NUM_TIDS → Bool
  /-- the messages in the list of a peer, by mode and access category -/
  pList : Mode → Fin SPRDWL_AC_MAX → Fin MAX_LUT_NUM → ℕ

inductive Fault where
  /-- an access behind the end of `peer_entry` -/
  | outOfBounds
  deriving DecidableEq, Repr

/-- `peer_entry_delba` -/
def peerEntryDelba (s : Intf) (lutIndex : BitVec 8) : Intf :=
  { s with baNode := Function.update s.baNode lutIndex fun _ => false }

/-- `sprdwl_dis_flush_txlist` -/
def disFlushTxlist (s : Intf) (i : Fin MAX_LUT_NUM) : Intf :=
  if (i : ℕ) ≤ 5 then s
  else { s with pList := fun mode ac => Function.update (s.pList mode ac) i 0 }

/-- The case `DEL_LUT_INDEX`. What the first `if` resets the `memset` resets too. -/
def delLutIndex (s : Intf) (ind : StaLutInd) (i : Fin MAX_LUT_NUM) : Intf :=
  let s := peerEntryDelba s ind.staLutIndex
  disFlushTxlist
    { s with
      peerEntry := Function.update s.peerEntry i { PeerEntry.zero with ctxId := 0xFF }
      txNum := Function.update s.txNum i 0 } i

/-- The case `ADD_LUT_INDEX`. -/
def addLutIndex (s : Intf) (ind : StaLutInd) (i : Fin MAX_LUT_NUM) : Intf :=
  { s with
    peerEntry := Function.update s.peerEntry i
      { da := ind.ra
        lutIndex := ind.staLutIndex
        ctxId := ind.ctxId
        htEnable := ind.isHtEnable
        vhtEnable := ind.isVhtEnable
        station := { (s.peerEntry i).station with baTxDoneMap := 0 } }
    txNum := Function.update s.txNum i 0 }

/-- `sprdwl_event_sta_lut` on a message that is long enough. -/
def eventStaLut (s : Intf) (ind : StaLutInd) : Except Fault Intf :=
  if ind.action = .unknown then .ok s
  else if h : ind.staLutIndex.toNat < MAX_LUT_NUM then
    let i : Fin MAX_LUT_NUM := ⟨ind.staLutIndex.toNat, h⟩
    match ind.action with
    | .del => .ok (delLutIndex s ind i)
    | .upd => .ok (addLutIndex (disFlushTxlist (peerEntryDelba s ind.staLutIndex) i) ind i)
    | .add => .ok (addLutIndex s ind i)
    | .unknown => .ok s
  else .error .outOfBounds

/-- The first entry that meets a test. -/
def firstEntry (s : Intf) (test : PeerEntry → Bool) : Option (Fin MAX_LUT_NUM) :=
  (List.finRange MAX_LUT_NUM).find? fun i => test (s.peerEntry i)

/-- `sprdwl_find_peer_entry_using_addr` -/
def findPeerEntryUsingAddr (s : Intf) (addr : BitVec 48) : Option (Fin MAX_LUT_NUM) :=
  firstEntry s fun e => e.da == addr

/-- `sprdwl_find_peer_entry_using_lut_index` -/
def findPeerEntryUsingLutIndex (s : Intf) (staLutIndex : BitVec 8) : Option (Fin MAX_LUT_NUM) :=
  firstEntry s fun e => staLutIndex == e.lutIndex

/-- `sprdwl_is_group`: the lowest bit of the first byte. -/
def isGroup (addr : BitVec 48) : Bool := addr.getLsbD 40

/-- The end of `sprdwl_find_lut_index`. -/
def reservedLutIndex : Mode → BitVec 8
  | .ap => 4
  | .p2pGo => 5
  | _ => 0

/-- `sprdwl_find_lut_index` -/
def findLutIndex (s : Intf) (mode : Mode) (ctxId : BitVec 8) : Option (BitVec 48) → BitVec 8
  | none => reservedLutIndex mode
  | some skbDa =>
    if isGroup skbDa ∧ (mode = .ap ∨ mode = .p2pGo) then
      match firstEntry s fun e => isGroup e.da && e.ctxId == ctxId with
      | some i => (s.peerEntry i).lutIndex
      | none => reservedLutIndex mode
    else
      match firstEntry s fun e => e.da == skbDa && e.ctxId == ctxId with
      | some i => (s.peerEntry i).lutIndex
      | none =>
        match firstEntry s fun e => (mode = .station ∨ mode = .p2pClient) && e.ctxId == ctxId with
        | some i => (s.peerEntry i).lutIndex
        | none => reservedLutIndex mode

/-- What else the driver does to the state of an index goes into `traffic`. -/
inductive Event where
  | staLut (ind : StaLutInd)
  | traffic (i : Fin MAX_LUT_NUM) (station : Station) (baNode : Fin NUM_TIDS → Bool)
    (pList : Mode → Fin SPRDWL_AC_MAX → ℕ)
  | usingAddr (addr : BitVec 48)
  | usingLutIndex (staLutIndex : BitVec 8)
  | lutIndex (mode : Mode) (ctxId : BitVec 8) (skbDa : Option (BitVec 48))

def traffic (s : Intf) (i : Fin MAX_LUT_NUM) (station : Station) (baNode : Fin NUM_TIDS → Bool)
    (pList : Mode → Fin SPRDWL_AC_MAX → ℕ) : Intf :=
  { s with
    peerEntry := Function.update s.peerEntry i { s.peerEntry i with station := station }
    baNode := Function.update s.baNode (BitVec.ofNat 8 i) baNode
    pList := fun mode ac => Function.update (s.pList mode ac) i (pList mode ac) }

def step (s : Intf) : Event → Except Fault Intf
  | .staLut ind => eventStaLut s ind
  | .traffic i station baNode pList => .ok (traffic s i station baNode pList)
  | _ => .ok s

/-- The entries that have been added and not deleted since. -/
abbrev Live := Fin MAX_LUT_NUM → Bool

/-- An update adds as well. -/
def note (live : Live) (_ : Intf) (e : Event) (_ : Intf) : Live :=
  match e with
  | .staLut ind => fun i =>
    if (i : ℕ) = ind.staLutIndex.toNat ∧ ind.action ≠ .unknown then decide (ind.action ≠ .del)
    else live i
  | _ => live

/-- Nothing is left of a station. -/
structure Clean (s : Intf) (i : Fin MAX_LUT_NUM) : Prop where
  ipAcquired : (s.peerEntry i).station.ipAcquired = 0
  vowifiEnabled : (s.peerEntry i).station.vowifiEnabled = 0
  baTxDoneMap : (s.peerEntry i).station.baTxDoneMap = 0
  baNode : ∀ tid, s.baNode (BitVec.ofNat 8 i) tid = false
  pList : ∀ mode ac, s.pList mode ac i = 0

/-- What an event or a lookup finds and leaves. -/
def Serves (t : Intf) (live : Live) : Event → Prop
  | .staLut ind => ind.action = .add ∨ ind.action = .upd →
    ∀ i : Fin MAX_LUT_NUM, (i : ℕ) = ind.staLutIndex.toNat → Clean t i
  | .traffic _ _ _ _ => True
  | .usingAddr addr => ∀ i, findPeerEntryUsingAddr t addr = some i → live i = true
  | .usingLutIndex staLutIndex =>
    ∀ i, findPeerEntryUsingLutIndex t staLutIndex = some i → live i = true
  | .lutIndex mode ctxId skbDa =>
    (∃ i : Fin MAX_LUT_NUM, live i = true ∧ (findLutIndex t mode ctxId skbDa).toNat = i) ∨
      (findLutIndex t mode ctxId skbDa).toNat < 6

/-- The event touches no memory behind the table, the entries carry their positions, and the event
or the lookup does what it is for. -/
def Sound (p : Intf × Live) (e : Event) : Prop :=
  ∃ t, step p.1 e = .ok t ∧
    (∀ i : Fin MAX_LUT_NUM, note p.2 p.1 e t i = true → (t.peerEntry i).lutIndex.toNat = i) ∧
    Serves t (note p.2 p.1 e t) e

/-- The index of an action is in the table; an addition finds nothing of another station, an update
neither an IP nor vowifi nor, below 6, messages; address 0 is looked up with a live entry of that
address before all dead entries, and LUT index 0 with a live entry 0. -/
def Fine (p : Intf × Live) : Event → Prop
  | .staLut ind => ind.action ≠ .unknown → ∃ h : ind.staLutIndex.toNat < MAX_LUT_NUM,
    let i : Fin MAX_LUT_NUM := ⟨ind.staLutIndex.toNat, h⟩
    let station := (p.1.peerEntry i).station
    let silent := ∀ mode ac, p.1.pList mode ac i = 0
    (ind.action ≠ .del → station.ipAcquired = 0 ∧ station.vowifiEnabled = 0) ∧
      (ind.action = .add → (∀ tid, p.1.baNode ind.staLutIndex tid = false) ∧ silent) ∧
      (ind.action = .upd → (i : ℕ) ≤ 5 → silent)
  | .traffic _ _ _ _ => True
  | .usingAddr addr => addr = 0 →
    ∀ j, p.2 j = false → ∃ i < j, p.2 i = true ∧ (p.1.peerEntry i).da = 0
  | .usingLutIndex staLutIndex => staLutIndex = 0 → p.2 0 = true
  | .lutIndex _ _ _ => True

/-- `kzalloc`, and `ctx_id` as it is set after it -/
def init : Intf × Live :=
  (⟨fun _ => { PeerEntry.zero with ctxId := 0xFF }, fun _ => 0, fun _ _ => false, fun _ _ _ => 0⟩,
    fun _ => false)

/-- An entry carries its position if it is live, and no index and no address if it is not. -/
structure TableInv (p : Intf × Live) : Prop where
  live : ∀ i : Fin MAX_LUT_NUM, p.2 i = true → (p.1.peerEntry i).lutIndex.toNat = i
  dead : ∀ i, p.2 i = false → (p.1.peerEntry i).lutIndex = 0 ∧ (p.1.peerEntry i).da = 0

variable {s t : Intf} {live : Live} {ind : StaLutInd} {i : Fin MAX_LUT_NUM} {p : Intf × Live}

/-! ## Lookups -/

theorem firstEntry_eq_some {test : PeerEntry → Bool} (h : firstEntry s test = some i) :
    test (s.peerEntry i) = true ∧ ∀ j < i, test (s.peerEntry j) = false := by
  obtain ⟨hi, n, hn, hget, hbefore⟩ := List.find?_eq_some_iff_getElem.mp h
  refine ⟨hi, fun j hj => ?_⟩
  have hval : n = (i : ℕ) := by
    rw [← hget]
    simp
  have hjn : (j : ℕ) < n := by
    rw [hval]
    exact hj
  simpa using hbefore j hjn

theorem firstEntry_isSome {f : PeerEntry → Bool} (h : f (s.peerEntry i) = true) :
    ∃ j, firstEntry s f = some j := by
  apply Option.isSome_iff_exists.mp
  rw [firstEntry, List.find?_isSome]
  exact ⟨i, List.mem_finRange i, h⟩

theorem usingAddr_iff (hp : TableInv (s, live)) (addr : BitVec 48) :
    (∀ i, findPeerEntryUsingAddr s addr = some i → live i = true) ↔
      (addr = 0 → ∀ j, live j = false →
        ∃ i < j, live i = true ∧ (s.peerEntry i).da = 0) := by
  constructor
  · rintro h rfl j hj
    have htest : ((s.peerEntry j).da == 0) = true := by
      simpa using (hp.dead j hj).2
    obtain ⟨i, hi⟩ := firstEntry_isSome (f := fun e => e.da == 0) htest
    obtain ⟨hda, hfirst⟩ := firstEntry_eq_some hi
    have hlive := h i hi
    refine ⟨i, ?_, hlive, by simpa using hda⟩
    rcases lt_trichotomy i j with hij | rfl | hji
    · exact hij
    · rw [hj] at hlive
      cases hlive
    · have hno := hfirst j hji
      rw [htest] at hno
      cases hno
  · intro h i hi
    obtain ⟨hda, hfirst⟩ := firstEntry_eq_some hi
    by_contra hdead
    have hdead' : live i = false := by
      simpa using hdead
    have haddr : addr = 0 := by
      rw [← (hp.dead i hdead').2]
      simpa using Eq.symm (by simpa using hda)
    obtain ⟨j, hji, -, hj⟩ := h haddr i hdead'
    have hno := hfirst j hji
    simp [hj, haddr] at hno

theorem usingLutIndex_iff (hp : TableInv (s, live)) (k : BitVec 8) :
    (∀ i, findPeerEntryUsingLutIndex s k = some i → live i = true) ↔ (k = 0 → live 0 = true) := by
  constructor
  · rintro h rfl
    by_contra hdead
    have hdead' : live 0 = false := by
      simpa using hdead
    have htest : (0 == (s.peerEntry 0).lutIndex) = true := by
      simpa using (hp.dead 0 hdead').1.symm
    obtain ⟨i, hi⟩ := firstEntry_isSome (f := fun e => 0 == e.lutIndex) htest
    obtain ⟨-, hfirst⟩ := firstEntry_eq_some hi
    rcases Fin.eq_zero_or_eq_succ i with rfl | ⟨j, rfl⟩
    · exact hdead (h 0 hi)
    · have hno := hfirst 0 (Fin.succ_pos j)
      rw [htest] at hno
      cases hno
  · intro h i hi
    obtain ⟨hlut, hfirst⟩ := firstEntry_eq_some hi
    by_contra hdead
    have hdead' : live i = false := by
      simpa using hdead
    have hk : k = 0 := by
      rw [← (hp.dead i hdead').1]
      simpa using hlut
    have hzero := h hk
    have hpos : 0 < i := by
      apply Fin.pos_of_ne_zero
      rintro rfl
      exact hdead hzero
    have hlut0 : (s.peerEntry 0).lutIndex = 0 := BitVec.eq_of_toNat_eq (hp.live 0 hzero)
    have hno := hfirst 0 hpos
    simp [hlut0, hk] at hno

/-- `sprdwl_find_lut_index` returns what an entry has, or a reserved index. -/
theorem findLutIndex_cases (s : Intf) (mode : Mode) (ctxId : BitVec 8)
    (skbDa : Option (BitVec 48)) :
    (∃ i, findLutIndex s mode ctxId skbDa = (s.peerEntry i).lutIndex) ∨
      findLutIndex s mode ctxId skbDa = reservedLutIndex mode := by
  cases skbDa with
  | none => exact .inr rfl
  | some da =>
    simp only [findLutIndex]
    split
    · split
      · exact .inl ⟨_, rfl⟩
      · exact .inr rfl
    · split
      · exact .inl ⟨_, rfl⟩
      · split
        · exact .inl ⟨_, rfl⟩
        · exact .inr rfl

theorem lutIndex_live (hp : TableInv (s, live)) (mode : Mode) (ctxId : BitVec 8)
    (skbDa : Option (BitVec 48)) :
    (∃ i : Fin MAX_LUT_NUM, live i = true ∧ (findLutIndex s mode ctxId skbDa).toNat = i) ∨
      (findLutIndex s mode ctxId skbDa).toNat < 6 := by
  rcases findLutIndex_cases s mode ctxId skbDa with ⟨i, hi⟩ | hres
  · rw [hi]
    cases hlive : live i with
    | true => exact .inl ⟨i, hlive, hp.live i hlive⟩
    | false =>
      right
      rw [(hp.dead i hlive).1]
      decide
  · right
    rw [hres]
    cases mode <;> decide

/-! ## Events -/

theorem ofNat_staLutIndex (h : ind.staLutIndex.toNat < MAX_LUT_NUM) :
    BitVec.ofNat 8 (⟨ind.staLutIndex.toNat, h⟩ : Fin MAX_LUT_NUM) = ind.staLutIndex := by
  simp

/-- What an addition leaves of another station. -/
theorem clean_addLutIndex_iff (h : ind.staLutIndex.toNat < MAX_LUT_NUM) :
    Clean (addLutIndex s ind ⟨ind.staLutIndex.toNat, h⟩) ⟨ind.staLutIndex.toNat, h⟩ ↔
      ((s.peerEntry ⟨ind.staLutIndex.toNat, h⟩).station.ipAcquired = 0 ∧
        (s.peerEntry ⟨ind.staLutIndex.toNat, h⟩).station.vowifiEnabled = 0) ∧
      (∀ tid, s.baNode ind.staLutIndex tid = false) ∧
      ∀ mode ac, s.pList mode ac ⟨ind.staLutIndex.toNat, h⟩ = 0 := by
  constructor
  · intro hclean
    have hip := hclean.ipAcquired
    have hvowifi := hclean.vowifiEnabled
    have hnode := hclean.baNode
    simp only [addLutIndex, Function.update_self] at hip hvowifi
    rw [ofNat_staLutIndex] at hnode
    exact ⟨⟨hip, hvowifi⟩, hnode, hclean.pList⟩
  · rintro ⟨⟨hip, hvowifi⟩, hnode, hlist⟩
    constructor
    · simpa only [addLutIndex, Function.update_self] using hip
    · simpa only [addLutIndex, Function.update_self] using hvowifi
    · simp only [addLutIndex, Function.update_self]
    · rw [ofNat_staLutIndex]
      exact hnode
    · exact hlist

@[simp] theorem peerEntry_disFlushTxlist : (disFlushTxlist s i).peerEntry = s.peerEntry := by
  rw [disFlushTxlist]
  split <;> rfl

@[simp] theorem baNode_disFlushTxlist : (disFlushTxlist s i).baNode = s.baNode := by
  rw [disFlushTxlist]
  split <;> rfl

theorem pList_disFlushTxlist :
    (∀ mode ac, (disFlushTxlist s i).pList mode ac i = 0) ↔
      ((i : ℕ) ≤ 5 → ∀ mode ac, s.pList mode ac i = 0) := by
  rw [disFlushTxlist]
  split
  · rename_i hle
    simp [hle]
  · rename_i hle
    simp [hle]

theorem eventStaLut_eq (hknown : ind.action ≠ .unknown)
    (h : ind.staLutIndex.toNat < MAX_LUT_NUM) :
    eventStaLut s ind = .ok (match ind.action with
      | .del => delLutIndex s ind ⟨ind.staLutIndex.toNat, h⟩
      | .upd => addLutIndex
          (disFlushTxlist (peerEntryDelba s ind.staLutIndex) ⟨ind.staLutIndex.toNat, h⟩) ind
          ⟨ind.staLutIndex.toNat, h⟩
      | .add => addLutIndex s ind ⟨ind.staLutIndex.toNat, h⟩
      | .unknown => s) := by
  rw [eventStaLut, if_neg hknown, dif_pos h]
  cases ind.action <;> rfl

/-- Every step keeps the positions. -/
theorem TableInv.step (hp : TableInv p) {e : Event} (ht : step p.1 e = .ok t) :
    TableInv (t, note p.2 p.1 e t) := by
  cases e with
  | staLut ind =>
    by_cases hknown : ind.action = .unknown
    · have hstay : t = p.1 := by
        rw [PeerTable.step, eventStaLut, if_pos hknown] at ht
        exact (Except.ok.inj ht).symm
      have hnote : note p.2 p.1 (.staLut ind) t = p.2 := by
        funext i
        simp [note, hknown]
      rw [hnote, hstay]
      exact hp
    · by_cases hidx : ind.staLutIndex.toNat < MAX_LUT_NUM
      · rw [PeerTable.step, eventStaLut_eq hknown hidx] at ht
        obtain rfl := Except.ok.inj ht
        have hother (i : Fin MAX_LUT_NUM) (hi : (i : ℕ) ≠ ind.staLutIndex.toNat) :
            i ≠ ⟨ind.staLutIndex.toNat, hidx⟩ := fun h => hi (congrArg Fin.val h)
        constructor
        · intro i hlive
          by_cases hi : (i : ℕ) = ind.staLutIndex.toNat
          · obtain rfl : i = ⟨ind.staLutIndex.toNat, hidx⟩ := Fin.ext hi
            cases hact : ind.action with
            | unknown => exact absurd hact hknown
            | del => simp [note, hact] at hlive
            | add => simp [addLutIndex]
            | upd => simp [addLutIndex]
          · have hold : p.2 i = true := by
              simpa [note, hi] using hlive
            have hne := hother i hi
            cases hact : ind.action <;>
              simp [delLutIndex, addLutIndex, peerEntryDelba, hne, hp.live i hold]
        · intro i hdead
          by_cases hi : (i : ℕ) = ind.staLutIndex.toNat
          · obtain rfl : i = ⟨ind.staLutIndex.toNat, hidx⟩ := Fin.ext hi
            cases hact : ind.action with
            | unknown => exact absurd hact hknown
            | del => simp [delLutIndex, PeerEntry.zero]
            | add => simp [note, hact] at hdead
            | upd => simp [note, hact] at hdead
          · have hold : p.2 i = false := by
              simpa [note, hi] using hdead
            have hne := hother i hi
            cases hact : ind.action <;>
              simp [delLutIndex, addLutIndex, peerEntryDelba, hne, hp.dead i hold]
      · rw [PeerTable.step, eventStaLut, if_neg hknown, dif_neg hidx] at ht
        cases ht
  | traffic i station baNode pList =>
    obtain rfl := Except.ok.inj ht
    have hkeep (j : Fin MAX_LUT_NUM) :
        ((traffic p.1 i station baNode pList).peerEntry j).lutIndex = (p.1.peerEntry j).lutIndex ∧
          ((traffic p.1 i station baNode pList).peerEntry j).da = (p.1.peerEntry j).da := by
      by_cases hj : j = i
      · subst hj
        simp [traffic]
      · simp [traffic, hj]
    constructor
    · intro j hlive
      rw [(hkeep j).1]
      exact hp.live j hlive
    · intro j hdead
      rw [(hkeep j).1, (hkeep j).2]
      exact hp.dead j hdead
  | usingAddr addr =>
    obtain rfl := Except.ok.inj ht
    exact hp
  | usingLutIndex staLutIndex =>
    obtain rfl := Except.ok.inj ht
    exact hp
  | lutIndex mode ctxId skbDa =>
    obtain rfl := Except.ok.inj ht
    exact hp

/-- An event or a lookup is served exactly under its condition. -/
theorem serves_iff_fine (hp : TableInv p) {e : Event} (ht : step p.1 e = .ok t) :
    Serves t (note p.2 p.1 e t) e ↔ Fine p e := by
  cases e with
  | staLut ind =>
    by_cases hknown : ind.action = .unknown
    · simp [Serves, Fine, hknown]
    · by_cases hidx : ind.staLutIndex.toNat < MAX_LUT_NUM
      · rw [step, eventStaLut_eq hknown hidx] at ht
        obtain rfl := Except.ok.inj ht
        have hall (P : Fin MAX_LUT_NUM → Prop) :
            (∀ i : Fin MAX_LUT_NUM, (i : ℕ) = ind.staLutIndex.toNat → P i) ↔
              P ⟨ind.staLutIndex.toNat, hidx⟩ := by
          constructor
          · intro h
            exact h _ rfl
          · intro h i hi
            obtain rfl : i = ⟨ind.staLutIndex.toNat, hidx⟩ := Fin.ext hi
            exact h
        simp only [Serves, hall]
        cases hact : ind.action with
        | unknown => exact absurd hact hknown
        | del => simp [Fine, hact, hidx]
        | add => simp [Fine, hact, hidx, clean_addLutIndex_iff]
        | upd =>
          simp only [clean_addLutIndex_iff, pList_disFlushTxlist]
          simp [Fine, hact, hidx, peerEntryDelba]
      · rw [step, eventStaLut, if_neg hknown, dif_neg hidx] at ht
        cases ht
  | traffic i station baNode pList => exact Iff.rfl
  | usingAddr addr =>
    obtain rfl := Except.ok.inj ht
    exact usingAddr_iff hp addr
  | usingLutIndex staLutIndex =>
    obtain rfl := Except.ok.inj ht
    exact usingLutIndex_iff hp staLutIndex
  | lutIndex mode ctxId skbDa =>
    obtain rfl := Except.ok.inj ht
    exact iff_of_true (lutIndex_live hp mode ctxId skbDa) True.intro

/-- An event that meets its condition touches nothing behind the table. -/
theorem Fine.step {e : Event} (h : Fine p e) : ∃ t, step p.1 e = .ok t := by
  cases e with
  | staLut ind =>
    by_cases hknown : ind.action = .unknown
    · exact ⟨p.1, if_pos hknown⟩
    · obtain ⟨hidx, -⟩ := h hknown
      exact ⟨_, eventStaLut_eq hknown hidx⟩
  | traffic i station baNode pList => exact ⟨_, rfl⟩
  | usingAddr addr => exact ⟨_, rfl⟩
  | usingLutIndex staLutIndex => exact ⟨_, rfl⟩
  | lutIndex mode ctxId skbDa => exact ⟨_, rfl⟩

theorem sound_iff_fine (hp : TableInv p) (e : Event) : Sound p e ↔ Fine p e := by
  constructor
  · rintro ⟨t, ht, -, hserves⟩
    exact (serves_iff_fine hp ht).mp hserves
  · intro h
    obtain ⟨t, ht⟩ := h.step
    exact ⟨t, ht, (hp.step ht).live, (serves_iff_fine hp ht).mpr h⟩

theorem init_tableInv : TableInv init where
  live i hi := by cases hi
  dead i _ := ⟨rfl, rfl⟩

/-- In a run of events and lookups all is as it should be exactly if each of them meets its
condition. -/
theorem peer_table_iff (es : List Event) :
    (∀ h e rest p, es = h ++ e :: rest → run (observe step note) init h = .ok p → Sound p e) ↔
      Along (observe step note) Fine init es := by
  rw [← along_iff_forall]
  refine along_congr (I := TableInv) (fun p e hp => sound_iff_fine hp e) ?_ init_tableInv
  intro p e q hp _ hq
  obtain ⟨ht, hnote⟩ := observe_eq_ok.mp hq
  have hinv := hp.step ht
  rwa [← hnote] at hinv

/-- The firmware names index 40. -/
def sampleInd : StaLutInd := ⟨0, .add, 40, 0x021122334455, 1, 1⟩

/-- The event writes behind the table. -/
theorem index_past_table : step init.1 (.staLut sampleInd) = .error .outOfBounds ∧
    ¬ ∀ h e rest p, [Event.staLut sampleInd] = h ++ e :: rest →
      run (observe step note) init h = .ok p → Sound p e := by
  refine ⟨rfl, fun hall => ?_⟩
  obtain ⟨t, ht, -⟩ := hall [] (.staLut sampleInd) [] init rfl rfl
  cases ht

end Uwe5631.PeerTable
