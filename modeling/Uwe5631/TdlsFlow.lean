import Uwe5631.MachineIntegers
import Uwe5631.FallibleRuns
import Mathlib

/-!
# The traffic of TDLS peers

The firmware names peers and a threshold for each. `count_tdls_flow` adds up what is exchanged with a
peer in a window of time and asks for a direct link above the threshold.
-/
namespace Uwe5631.TdlsFlow
open FallibleRuns

abbrev MAX_TDLS_PEER : ℕ := 32

abbrev MacAddr := BitVec 48

structure TdlsFlowCountPara where
  valid : Bool
  da : MacAddr
  threshold : BitVec 16
  dataLenCounted : BitVec 16
  startMstime : BitVec 32
  timer : BitVec 8

/-- What `memset` leaves. -/
def TdlsFlowCountPara.zero : TdlsFlowCountPara := ⟨false, 0, 0, 0, 0, 0⟩

abbrev Table := Fin MAX_TDLS_PEER → TdlsFlowCountPara

/-- `tdls_flow_count` and `tdls_flow_count_enable`. What the frames of the window of an entry have
come to is noted beside them: a window begins where `start_mstime` is set. -/
structure State where
  table : Table
  enable : Bool
  window : Fin MAX_TDLS_PEER → ℕ

def State.init : State := ⟨fun _ => .zero, false, fun _ => 0⟩

inductive Fault
  | divideByZero
  deriving DecidableEq, Repr

/-- `struct tdls_update_peer_infor` -/
structure PeerInfor where
  da : MacAddr
  valid : BitVec 8
  timer : BitVec 8
  txrxLen : BitVec 16

def PEER_INFOR_LEN : ℕ := 12

def lookup (t : Table) (da : MacAddr) : Option (Fin MAX_TDLS_PEER) :=
  (List.finRange MAX_TDLS_PEER).find? fun i => (t i).da = da

def lookupFree (t : Table) : Option (Fin MAX_TDLS_PEER) :=
  (List.finRange MAX_TDLS_PEER).find? fun i => !(t i).valid

def lookupValid (t : Table) (da : MacAddr) : Option (Fin MAX_TDLS_PEER) :=
  (List.finRange MAX_TDLS_PEER).find? fun i => (t i).valid && (t i).da = da

def State.put (s : State) (i : Fin MAX_TDLS_PEER) (e : TdlsFlowCountPara) (window : ℕ) : State :=
  { s with table := Function.update s.table i e, window := Function.update s.window i window }

/-- The count of the valid entries, and what follows from none. -/
def State.recount (s : State) : State :=
  if ∃ i, (s.table i).valid = true then s else { s with enable := false }

/-- `sprdwl_tdls_flow_flush`; `setup` says whether the operation is a setup or enables the link. -/
def flowFlush (peer : MacAddr) (setup : Bool) (s : State) : State :=
  if setup then
    match lookup s.table peer with
    | some i => s.put i .zero 0
    | none => s
  else s

/-- The entry for a peer: its own, a free one, or the first. -/
def entryFor (t : Table) (da : MacAddr) : Fin MAX_TDLS_PEER :=
  ((lookup t da).or (lookupFree t)).getD 0

/-- `sprdwl_event_tdls_flow_count` at a time. -/
def eventTdlsFlowCount (msec : BitVec 32) (info : PeerInfor) (len : ℕ) (s : State) : State :=
  if len < PEER_INFOR_LEN then s
  else if info.valid = 0 then
    match lookup s.table info.da with
    | none => s
    | some i => (s.put i .zero 0).recount
  else if info.valid = 1 then
    let s := s.put (entryFor s.table info.da)
      ⟨true, info.da, info.txrxLen, 0, msec, info.timer⟩ 0
    { s with enable := true }
  else s

/-- The elapsed time is kept in a byte. -/
def unitTime (msec : BitVec 32) (e : TdlsFlowCountPara) : ℕ :=
  (msec - e.startMstime).toNat / 1000 % 256 / e.timer.toNat

/-- The comparison with the threshold, in an `int`. -/
def exceeds (e : TdlsFlowCountPara) (len : BitVec 16) (unit : ℕ) : Bool :=
  (e.dataLenCounted = 0 && len.toNat > e.threshold.toNat * 1024) ||
    (e.dataLenCounted ≠ 0 && ((e.dataLenCounted.toNat + len.toNat : ℕ) : ℤ) >
      (((e.threshold.toNat * 1024 * (if unit = 0 then 1 else unit) : ℕ) : ℤ).bmod (2 ^ 32)))

/-! The three assignments below the threshold. -/

def TdlsFlowCountPara.begin (e : TdlsFlowCountPara) (msec : BitVec 32) (len : BitVec 16) :
    TdlsFlowCountPara :=
  if e.dataLenCounted = 0 then
    { e with startMstime := msec, dataLenCounted := e.dataLenCounted + len }
  else e

def TdlsFlowCountPara.restart (e : TdlsFlowCountPara) (msec : BitVec 32) (len : BitVec 16)
    (unit : ℕ) : TdlsFlowCountPara :=
  if e.dataLenCounted ≠ 0 ∧ 1 < unit then { e with startMstime := msec, dataLenCounted := len }
  else e

def TdlsFlowCountPara.add (e : TdlsFlowCountPara) (len : BitVec 16) (unit : ℕ) :
    TdlsFlowCountPara :=
  if e.dataLenCounted ≠ 0 ∧ unit ≤ 1 then { e with dataLenCounted := e.dataLenCounted + len } else e

def TdlsFlowCountPara.count (e : TdlsFlowCountPara) (msec : BitVec 32) (len : BitVec 16)
    (unit : ℕ) : TdlsFlowCountPara :=
  ((e.begin msec len).restart msec len unit).add len unit

/-- `new_threshold` is a setting; 0 for none. -/
def TdlsFlowCountPara.adjust (e : TdlsFlowCountPara) (newThreshold : BitVec 32) :
    TdlsFlowCountPara :=
  if newThreshold ≠ 0 then { e with threshold := newThreshold.setWidth 16 } else e

/-- The window with one more frame. -/
def windowWith (e : TdlsFlowCountPara) (window : ℕ) (len : BitVec 16) (unit : ℕ) : ℕ :=
  if e.dataLenCounted = 0 ∨ 1 < unit then len.toNat else window + len.toNat

def countTdlsFlow (msec : BitVec 32) (newThreshold : BitVec 32) (da : MacAddr) (len : BitVec 16)
    (s : State) : Except Fault State :=
  match lookupValid s.table da with
  | none => .ok s
  | some i =>
    let e := (s.table i).adjust newThreshold
    if e.timer = 0 then .error .divideByZero
    else if exceeds e len (unitTime msec e) then .ok (s.put i .zero 0).recount
    else
      .ok (s.put i (e.count msec len (unitTime msec e))
        (windowWith e (s.window i) len (unitTime msec e))).recount

inductive Event
  | flush (peer : MacAddr) (setup : Bool)
  | info (msec : BitVec 32) (info : PeerInfor) (len : ℕ)
  | frame (msec : BitVec 32) (newThreshold : BitVec 32) (da : MacAddr) (len : BitVec 16)

def step (s : State) : Event → Except Fault State
  | .flush peer setup => .ok (flowFlush peer setup s)
  | .info msec info len => .ok (eventTdlsFlowCount msec info len s)
  | .frame msec newThreshold da len => countTdlsFlow msec newThreshold da len s

/-! ## What a state says -/

structure Sound (s : State) : Prop where
  distinct : ∀ i j, (s.table i).valid = true → (s.table j).valid = true →
    (s.table i).da = (s.table j).da → i = j
  counted : ∀ i, (s.table i).valid = true → (s.table i).dataLenCounted.toNat = s.window i
  enabled : s.enable = true ↔ ∃ i, (s.table i).valid = true

/-- A peer that is named again is found under its address; the last entry is not flushed; and a frame
is counted in whole seconds, once, and without an overflow. -/
def Fine (s : State) : Event → Prop
  | .flush peer setup => setup = true → ∀ i, lookup s.table peer = some i →
      (s.table i).valid = true → ∃ j, j ≠ i ∧ (s.table j).valid = true
  | .info _ info len => PEER_INFOR_LEN ≤ len → info.valid = 1 →
      ∀ j, (s.table j).valid = true → (s.table j).da = info.da → entryFor s.table info.da = j
  | .frame msec newThreshold da len => ∀ i, lookupValid s.table da = some i →
      let e := (s.table i).adjust newThreshold
      e.timer ≠ 0 ∧ (exceeds e len (unitTime msec e) = true ∨ 1 < unitTime msec e ∨ len = 0 ∨
        (e.dataLenCounted ≠ 0 ∧ e.dataLenCounted.toNat + len.toNat < 65536))

@[simp] theorem put_table (s : State) (i : Fin MAX_TDLS_PEER) (e : TdlsFlowCountPara) (w : ℕ) :
    (s.put i e w).table = Function.update s.table i e := rfl

@[simp] theorem put_window (s : State) (i : Fin MAX_TDLS_PEER) (e : TdlsFlowCountPara) (w : ℕ) :
    (s.put i e w).window = Function.update s.window i w := rfl

@[simp] theorem put_enable (s : State) (i : Fin MAX_TDLS_PEER) (e : TdlsFlowCountPara) (w : ℕ) :
    (s.put i e w).enable = s.enable := rfl

@[simp] theorem recount_table (s : State) : s.recount.table = s.table := by
  rw [State.recount]
  split <;> rfl

@[simp] theorem recount_window (s : State) : s.recount.window = s.window := by
  rw [State.recount]
  split <;> rfl

theorem recount_enable {s : State} (h : (∃ i, (s.table i).valid = true) → s.enable = true) :
    s.recount.enable = true ↔ ∃ i, (s.table i).valid = true := by
  rw [State.recount]
  split
  · rename_i hsome
    exact ⟨fun _ => hsome, fun _ => h hsome⟩
  · rename_i hnone
    exact ⟨fun h => (by cases h), fun h => absurd h hnone⟩

variable {s : State}

/-- An entry is put in place: the others are as they were. -/
theorem Sound.put {s' : State} (h : Sound s) (i : Fin MAX_TDLS_PEER) (e : TdlsFlowCountPara) (w : ℕ)
    (htable : s'.table = Function.update s.table i e)
    (hwindow : s'.window = Function.update s.window i w)
    (hda : e.valid = true → ∀ j, (s.table j).valid = true → (s.table j).da = e.da → j = i)
    (hcounted : e.valid = true → e.dataLenCounted.toNat = w)
    (henabled : s'.enable = true ↔ ∃ i, (s'.table i).valid = true) : Sound s' := by
  refine ⟨fun j k hj hk hjk => ?_, fun j hj => ?_, henabled⟩
  · rw [htable] at hj hk hjk
    by_cases hji : j = i
    · by_cases hki : k = i
      · rw [hji, hki]
      · rw [hji, Function.update_self] at hj hjk
        rw [Function.update_of_ne hki] at hk hjk
        exact absurd (hda hj k hk hjk.symm) hki
    · rw [Function.update_of_ne hji] at hj hjk
      by_cases hki : k = i
      · rw [hki, Function.update_self] at hk hjk
        exact absurd (hda hk j hj hjk) hji
      · rw [Function.update_of_ne hki] at hk hjk
        exact h.distinct j k hj hk hjk
  · rw [htable] at hj ⊢
    rw [hwindow]
    by_cases hji : j = i
    · rw [hji, Function.update_self] at hj ⊢
      rw [Function.update_self]
      exact hcounted hj
    · rw [Function.update_of_ne hji] at hj ⊢
      rw [Function.update_of_ne hji]
      exact h.counted j hj

/-- An entry goes, and the valid ones are counted. -/
theorem Sound.cleared (h : Sound s) (i : Fin MAX_TDLS_PEER) : Sound (s.put i .zero 0).recount := by
  refine h.put i .zero 0 (recount_table _) (recount_window _) (fun h => (by cases h))
    (fun h => (by cases h)) ?_
  rw [recount_table]
  refine recount_enable ?_
  rintro ⟨j, hj⟩
  rw [put_table] at hj
  refine h.enabled.mpr ⟨j, ?_⟩
  by_cases hji : j = i
  · rw [hji, Function.update_self] at hj
    cases hj
  · rwa [Function.update_of_ne hji] at hj

theorem lookupValid_some {t : Table} {da : MacAddr} {i : Fin MAX_TDLS_PEER}
    (h : lookupValid t da = some i) : (t i).valid = true ∧ (t i).da = da := by
  simpa using List.find?_some h

theorem adjust_fields (e : TdlsFlowCountPara) (n : BitVec 32) :
    (e.adjust n).valid = e.valid ∧ (e.adjust n).da = e.da ∧
      (e.adjust n).dataLenCounted = e.dataLenCounted := by
  rw [TdlsFlowCountPara.adjust]
  split <;> exact ⟨rfl, rfl, rfl⟩

theorem begin_fields (e : TdlsFlowCountPara) (msec : BitVec 32) (len : BitVec 16) :
    (e.begin msec len).valid = e.valid ∧ (e.begin msec len).da = e.da ∧
      (e.begin msec len).dataLenCounted = if e.dataLenCounted = 0 then len else e.dataLenCounted := by
  rw [TdlsFlowCountPara.begin]
  split
  · rename_i hzero
    refine ⟨rfl, rfl, ?_⟩
    show e.dataLenCounted + len = len
    rw [hzero]
    exact BitVec.zero_add len
  · exact ⟨rfl, rfl, rfl⟩

theorem restart_fields (e : TdlsFlowCountPara) (msec : BitVec 32) (len : BitVec 16) (unit : ℕ) :
    (e.restart msec len unit).valid = e.valid ∧ (e.restart msec len unit).da = e.da ∧
      (e.restart msec len unit).dataLenCounted =
        if e.dataLenCounted ≠ 0 ∧ 1 < unit then len else e.dataLenCounted := by
  rw [TdlsFlowCountPara.restart]
  split <;> exact ⟨rfl, rfl, rfl⟩

theorem add_fields (e : TdlsFlowCountPara) (len : BitVec 16) (unit : ℕ) :
    (e.add len unit).valid = e.valid ∧ (e.add len unit).da = e.da ∧
      (e.add len unit).dataLenCounted =
        if e.dataLenCounted ≠ 0 ∧ unit ≤ 1 then e.dataLenCounted + len else e.dataLenCounted := by
  rw [TdlsFlowCountPara.add]
  split <;> exact ⟨rfl, rfl, rfl⟩

theorem count_fields (e : TdlsFlowCountPara) (msec : BitVec 32) (len : BitVec 16) (unit : ℕ) :
    (e.count msec len unit).valid = e.valid ∧ (e.count msec len unit).da = e.da := by
  obtain ⟨hbv, hbd, -⟩ := begin_fields e msec len
  obtain ⟨hrv, hrd, -⟩ := restart_fields (e.begin msec len) msec len unit
  obtain ⟨hav, had, -⟩ := add_fields ((e.begin msec len).restart msec len unit) len unit
  exact ⟨hav.trans (hrv.trans hbv), had.trans (hrd.trans hbd)⟩

theorem count_dataLenCounted (e : TdlsFlowCountPara) (msec : BitVec 32) (len : BitVec 16)
    (unit : ℕ) : (e.count msec len unit).dataLenCounted =
      if e.dataLenCounted = 0 then (if len = 0 ∨ 1 < unit then len else len + len)
      else if 1 < unit then len else e.dataLenCounted + len := by
  rw [TdlsFlowCountPara.count, (add_fields _ _ _).2.2, (restart_fields _ _ _ _).2.2,
    (begin_fields _ _ _).2.2]
  have hadd : len = 0 → len + len = len := by
    rintro rfl
    rfl
  by_cases hunit : 1 < unit
  · have hnot : ¬ unit ≤ 1 := by omega
    simp only [hunit, hnot, and_true, and_false, if_false, or_true, if_true]
    split_ifs with hzero hlen <;> simp_all
  · have hle : unit ≤ 1 := by omega
    simp only [hunit, hle, and_true, and_false, if_false, or_false]
    split_ifs <;> simp_all

/-- A frame is counted right exactly if it is not the first of its window, counted twice, and there is
no overflow. -/
theorem count_iff {e : TdlsFlowCountPara} {window : ℕ} (h : e.dataLenCounted.toNat = window)
    (msec : BitVec 32) (len : BitVec 16) (unit : ℕ) :
    (e.count msec len unit).dataLenCounted.toNat = windowWith e window len unit ↔
      1 < unit ∨ len = 0 ∨ (e.dataLenCounted ≠ 0 ∧ e.dataLenCounted.toNat + len.toNat < 65536) := by
  have hlen := len.isLt
  rw [windowWith, count_dataLenCounted, ← h]
  by_cases hzero : e.dataLenCounted = 0
  · rw [if_pos hzero, if_pos (show e.dataLenCounted = 0 ∨ 1 < unit from .inl hzero)]
    by_cases hfine : len = 0 ∨ 1 < unit
    · rw [if_pos hfine]
      exact ⟨fun _ => hfine.elim (fun h => .inr (.inl h)) .inl, fun _ => rfl⟩
    · have hpos : len.toNat ≠ 0 := fun h => hfine (.inl (BitVec.eq_of_toNat_eq h))
      rw [if_neg hfine, BitVec.toNat_add]
      constructor
      · intro heq
        omega
      · rintro (hunit | hl | ⟨hne, -⟩)
        · exact absurd (.inr hunit) hfine
        · exact absurd (.inl hl) hfine
        · exact absurd hzero hne
  · rw [if_neg hzero]
    by_cases hunit : 1 < unit
    · rw [if_pos hunit, if_pos (show e.dataLenCounted = 0 ∨ 1 < unit from .inr hunit)]
      exact ⟨fun _ => .inl hunit, fun _ => rfl⟩
    · rw [if_neg hunit, if_neg (by tauto), BitVec.toNat_add]
      have hbound := e.dataLenCounted.isLt
      constructor
      · intro heq
        exact .inr (.inr ⟨hzero, by omega⟩)
      · rintro (h | rfl | ⟨-, hsum⟩)
        · exact absurd h hunit
        · exact Nat.mod_eq_of_lt hbound
        · omega

theorem Sound.flush (h : Sound s) {peer : MacAddr} {setup : Bool} :
    Sound (flowFlush peer setup s) ↔ Fine s (.flush peer setup) := by
  rw [flowFlush, Fine]
  cases setup with
  | false => exact ⟨fun _ h => (by cases h), fun _ => h⟩
  | true =>
    rw [if_pos rfl]
    cases hlookup : lookup s.table peer with
    | none => exact ⟨fun _ _ i h => (by cases h), fun _ => h⟩
    | some i =>
      dsimp only
      have hothers : ∀ j, ((s.put i .zero 0).table j).valid = true ↔
          j ≠ i ∧ (s.table j).valid = true := by
        intro j
        rw [put_table]
        by_cases hji : j = i
        · rw [hji, Function.update_self]
          exact ⟨fun h => (by cases h), fun h => absurd rfl h.1⟩
        · rw [Function.update_of_ne hji]
          exact ⟨fun h => ⟨hji, h⟩, fun h => h.2⟩
      constructor
      · rintro hsound - j ⟨⟩ hvalid
        have henable : s.enable = true := h.enabled.mpr ⟨i, hvalid⟩
        obtain ⟨k, hk⟩ := hsound.enabled.mp henable
        exact ⟨k, (hothers k).mp hk⟩
      · intro hfine
        refine h.put i .zero 0 rfl rfl (fun h => (by cases h)) (fun h => (by cases h)) ?_
        rw [put_enable, h.enabled]
        constructor
        · rintro ⟨k, hk⟩
          by_cases hki : k = i
          · rw [hki] at hk
            obtain ⟨j, hj⟩ := hfine rfl i rfl hk
            exact ⟨j, (hothers j).mpr hj⟩
          · exact ⟨k, (hothers k).mpr ⟨hki, hk⟩⟩
        · rintro ⟨k, hk⟩
          exact ⟨k, ((hothers k).mp hk).2⟩

theorem Sound.info (h : Sound s) {msec : BitVec 32} {info : PeerInfor} {len : ℕ} :
    Sound (eventTdlsFlowCount msec info len s) ↔ Fine s (.info msec info len) := by
  rw [eventTdlsFlowCount, Fine]
  by_cases hlen : len < PEER_INFOR_LEN
  · rw [if_pos hlen]
    exact ⟨fun _ hle => absurd hlen (by omega), fun _ => h⟩
  rw [if_neg hlen]
  by_cases hzero : info.valid = 0
  · rw [if_pos hzero]
    refine ⟨fun _ _ hone => ?_, fun _ => ?_⟩
    · rw [hzero] at hone
      cases hone
    · cases lookup s.table info.da with
      | none => exact h
      | some i => exact h.cleared i
  rw [if_neg hzero]
  by_cases hone : info.valid = 1
  · rw [if_pos hone]
    have hself : ((s.put (entryFor s.table info.da)
        ⟨true, info.da, info.txrxLen, 0, msec, info.timer⟩ 0).table
          (entryFor s.table info.da)).valid = true := by
      rw [put_table, Function.update_self]
    constructor
    · intro hsound _ _ j hj hda
      by_contra hne
      have hj' : ((s.put (entryFor s.table info.da)
          ⟨true, info.da, info.txrxLen, 0, msec, info.timer⟩ 0).table j) = s.table j := by
        rw [put_table, Function.update_of_ne (Ne.symm hne)]
      apply hne
      refine hsound.distinct _ _ hself ?_ ?_
      · dsimp only
        rw [hj']
        exact hj
      · dsimp only
        rw [hj', put_table, Function.update_self]
        exact hda.symm
    · intro hfine
      refine h.put (entryFor s.table info.da) ⟨true, info.da, info.txrxLen, 0, msec, info.timer⟩ 0
        rfl rfl (fun _ j hj hda => ?_) (fun _ => rfl) ⟨fun _ => ⟨_, hself⟩, fun _ => rfl⟩
      exact (hfine (by omega) hone j hj hda).symm
  · rw [if_neg hone]
    exact ⟨fun _ _ h => absurd h hone, fun _ => h⟩

theorem Sound.frame (h : Sound s) {msec : BitVec 32} {newThreshold : BitVec 32} {da : MacAddr}
    {len : BitVec 16} :
    (∃ s', countTdlsFlow msec newThreshold da len s = .ok s' ∧ Sound s') ↔
      Fine s (.frame msec newThreshold da len) := by
  rw [countTdlsFlow, Fine]
  cases hlookup : lookupValid s.table da with
  | none => exact ⟨fun _ i h => (by cases h), fun _ => ⟨s, rfl, h⟩⟩
  | some i =>
    obtain ⟨hvalid, hda⟩ := lookupValid_some hlookup
    obtain ⟨hv, hd, hc⟩ := adjust_fields (s.table i) newThreshold
    have hcounted := h.counted i hvalid
    rw [← hc] at hcounted
    dsimp only
    by_cases htimer : ((s.table i).adjust newThreshold).timer = 0
    · rw [if_pos htimer]
      constructor
      · rintro ⟨s', hs', -⟩
        cases hs'
      · exact fun hfine => absurd htimer (hfine i rfl).1
    rw [if_neg htimer]
    by_cases hexceeds : exceeds ((s.table i).adjust newThreshold) len
        (unitTime msec ((s.table i).adjust newThreshold)) = true
    · rw [if_pos hexceeds]
      refine ⟨fun _ j hj => ?_, fun _ => ⟨_, rfl, h.cleared i⟩⟩
      cases hj
      exact ⟨htimer, .inl hexceeds⟩
    rw [if_neg hexceeds]
    have hcount := count_iff hcounted msec len (unitTime msec ((s.table i).adjust newThreshold))
    obtain ⟨hv', hd'⟩ := count_fields ((s.table i).adjust newThreshold) msec len
      (unitTime msec ((s.table i).adjust newThreshold))
    rw [hv, hvalid] at hv'
    rw [hd, hda] at hd'
    constructor
    · rintro ⟨s', ⟨⟩, hsound⟩ j hj
      cases hj
      refine ⟨htimer, .inr (hcount.mp ?_)⟩
      have hwindow := hsound.counted i
      rw [recount_table, recount_window, put_table, put_window, Function.update_self,
        Function.update_self] at hwindow
      exact hwindow hv'
    · intro hfine
      have hright := (hfine i rfl).2.resolve_left hexceeds
      refine ⟨_, rfl, h.put i _ _ (recount_table _) (recount_window _) (fun _ j hj hjda => ?_)
        (fun _ => hcount.mpr hright) ?_⟩
      · exact h.distinct j i hj hvalid (hjda.trans (hd'.trans hda.symm))
      · rw [recount_table]
        exact recount_enable fun _ => h.enabled.mpr ⟨i, hvalid⟩

theorem step_iff (h : Sound s) (e : Event) :
    (∃ s', step s e = .ok s' ∧ Sound s') ↔ Fine s e := by
  have hok : ∀ t : State, (∃ s', (Except.ok t : Except Fault State) = .ok s' ∧ Sound s') ↔ Sound t :=
    fun t => ⟨fun ⟨s', hs', hsound⟩ => Except.ok.inj hs' ▸ hsound, fun h => ⟨t, rfl, h⟩⟩
  cases e with
  | flush peer setup => exact (hok _).trans h.flush
  | info msec info len => exact (hok _).trans h.info
  | frame msec newThreshold da len => exact h.frame

theorem sound_init : Sound State.init where
  distinct i j hi := by cases hi
  counted i hi := by cases hi
  enabled := ⟨fun h => (by cases h), fun ⟨i, hi⟩ => (by cases hi)⟩

/-- A run goes through with its sums right in every state if and only if all its steps are fine. -/
theorem traffic_counted_iff (events : List Event) :
    (∀ es₁ es₂, events = es₁ ++ es₂ → ∃ t, run step State.init es₁ = .ok t ∧ Sound t) ↔
      Along step Fine State.init events :=
  along_iff_prefixes_reach (I := Sound) (fun _ h => h) sound_init
    (fun _ e h hfine => (step_iff h e).mpr hfine)
    (fun _ e s' h hnot hs' hsound => hnot ((step_iff h e).mp ⟨s', hs', hsound⟩))

/-- The first frame of a window, of 100 bytes, is counted as 200. -/
theorem first_frame_twice :
    ¬ ∀ es₁ es₂, [Event.info 0 ⟨1, 1, 10, 50⟩ 12, .frame 1000 0 1 100] = es₁ ++ es₂ →
      ∃ t, run step State.init es₁ = .ok t ∧ Sound t := by
  intro h
  obtain ⟨t, ht, hsound⟩ := h [Event.info 0 ⟨1, 1, 10, 50⟩ 12, .frame 1000 0 1 100] [] rfl
  cases ht
  exact absurd (hsound.counted 0 rfl) (by decide)

end Uwe5631.TdlsFlow
