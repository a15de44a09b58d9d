import Uwe5631.FallibleRuns
import Mathlib

/-!
# Admitted medium time

`g_wmmac_admittedtime` is moved by each command that adds or deletes a traffic stream, beside the
table `g_sta_ts_info` of the streams.
-/
namespace Uwe5631.Wmmac
open FallibleRuns

abbrev NUM_TID : ℕ := 16

abbrev WMMAC_EDCA_TIMEOUT_MS : ℕ := 1000

abbrev WMMAC_TIME_RATIO : BitVec 32 := 12

/-- `edca_ac_t` -/
inductive EdcaAc where
  | bk
  | be
  | vi
  | vo
  deriving DecidableEq, Repr

/-- `struct wmm_ac_ts_t` -/
structure WmmAcTs where
  exist : Bool
  ac : EdcaAc
  up : BitVec 8
  admittedTime : BitVec 16
  deriving DecidableEq, Repr

/-- What `memset` leaves. -/
def WmmAcTs.zero : WmmAcTs := ⟨false, .bk, 0, 0⟩

/-- `struct sprdwl_cmd_tx_ts` -/
structure CmdTxTs where
  tsid : BitVec 8
  peer : BitVec 48
  userPrio : BitVec 8
  admittedTime : BitVec 16
  deriving DecidableEq, Repr

/-- What `memset` leaves. -/
def CmdTxTs.zero : CmdTxTs := ⟨0, 0, 0, 0⟩

structure State where
  /-- `g_sta_ts_info` -/
  staTsInfo : Fin NUM_TID → WmmAcTs
  /-- `g_wmmac_admittedtime` -/
  admittedTime : EdcaAc → BitVec 32
  /-- `g_wmmac_usedtime` -/
  usedTime : EdcaAc → BitVec 32
  /-- `g_wmmac_available` -/
  available : EdcaAc → Bool
  /-- the time in ms `wmmac_edcaf_timer` was armed with, if it is pending -/
  edcafTimer : Option ℕ
  /-- the time in µs `wmmac_vo_timer` was armed with, if it is pending -/
  voTimer : Option (BitVec 32)
  /-- the time in µs `wmmac_vi_timer` was armed with, if it is pending -/
  viTimer : Option (BitVec 32)

inductive Fault where
  /-- an access behind the end of `g_sta_ts_info` -/
  | outOfBounds
  deriving DecidableEq, Repr

def mapPriorityToEdcaAc (priority : BitVec 8) : EdcaAc :=
  match priority.toNat with
  | 1 | 2 => .bk
  | 4 | 5 => .vi
  | 6 | 7 => .vo
  | _ => .be

/-- The entry of `g_sta_ts_info` for a stream. -/
def index (tsid : BitVec 8) : Except Fault (Fin NUM_TID) :=
  if h : tsid.toNat < NUM_TID then .ok ⟨tsid.toNat, h⟩ else .error .outOfBounds

/-- `update_wmmac_ts_info` -/
def updateWmmacTsInfo (s : State) (tsid : Fin NUM_TID) (up : BitVec 8) (ac : EdcaAc) (status : Bool)
    (admittedTime : BitVec 16) : State :=
  { s with staTsInfo := Function.update s.staTsInfo tsid ⟨status, ac, up, admittedTime⟩ }

/-- `remove_wmmac_ts_info` -/
def removeWmmacTsInfo (s : State) (tsid : Fin NUM_TID) : State :=
  { s with staTsInfo := Function.update s.staTsInfo tsid .zero }

/-- `medium_time << 5` -/
def shifted (mediumTime : BitVec 16) : BitVec 32 := mediumTime.setWidth 32 <<< 5

/-- The part of `update_admitted_time` that adds. -/
def increaseAdmittedTime (s : State) (ac : EdcaAc) (mediumTime : BitVec 16) : State :=
  let admitted := s.admittedTime ac + shifted mediumTime
  { s with
    admittedTime := Function.update s.admittedTime ac admitted
    edcafTimer := some WMMAC_EDCA_TIMEOUT_MS
    voTimer := if ac = .vo then some (admitted * WMMAC_TIME_RATIO) else s.voTimer
    viTimer := if ac = .vi then some (admitted * WMMAC_TIME_RATIO) else s.viTimer }

/-- The part of `update_admitted_time` that takes away. -/
def decreaseAdmittedTime (s : State) (ac : EdcaAc) (mediumTime : BitVec 16) : State :=
  if s.admittedTime ac > shifted mediumTime then
    { s with
      admittedTime := Function.update s.admittedTime ac (s.admittedTime ac - shifted mediumTime) }
  else
    { s with
      admittedTime := Function.update s.admittedTime ac 0
      edcafTimer := none
      voTimer := none
      viTimer := none }

/-- `update_admitted_time` -/
def updateAdmittedTime (s : State) (tsid : Fin NUM_TID) (mediumTime : BitVec 16) (increase : Bool) :
    State :=
  let ac := (s.staTsInfo tsid).ac
  let s' := if increase then increaseAdmittedTime s ac mediumTime
    else decreaseAdmittedTime s ac mediumTime
  { s' with
    available := Function.update s'.available ac (s'.usedTime ac < s'.admittedTime ac) }

/-- `sprdwl_add_tx_ts` up to `sprdwl_cmd_send_recv`, with whether `sprdwl_cmd_getbuf` finds a
buffer. -/
def addTxTs (s : State) (tsid : BitVec 8) (peer : BitVec 48) (userPrio : BitVec 8)
    (admittedTime : BitVec 16) (buf : Bool) : Except Fault State :=
  if buf then
    let p : CmdTxTs := ⟨tsid, peer, userPrio, admittedTime⟩
    let ac := mapPriorityToEdcaAc p.userPrio
    (index p.tsid).map fun i =>
      updateAdmittedTime (updateWmmacTsInfo s i p.userPrio ac true p.admittedTime) i p.admittedTime
        true
  else .ok s

/-- `sprdwl_del_tx_ts` up to `sprdwl_cmd_send_recv` -/
def delTxTs (s : State) (tsid : BitVec 8) (peer : BitVec 48) (buf : Bool) : Except Fault State :=
  if buf then
    let p : CmdTxTs := { CmdTxTs.zero with tsid := tsid, peer := peer }
    (index p.tsid).map fun i =>
      removeWmmacTsInfo (updateAdmittedTime s i p.admittedTime false) i
  else .ok s

/-- The answer of the firmware to a command does not go into the state. -/
inductive Event where
  | addTxTs (tsid : BitVec 8) (peer : BitVec 48) (userPrio : BitVec 8) (admittedTime : BitVec 16)
    (buf : Bool)
  | delTxTs (tsid : BitVec 8) (peer : BitVec 48) (buf : Bool)
  deriving DecidableEq, Repr

def Event.tsid : Event → BitVec 8
  | .addTxTs tsid _ _ _ _ => tsid
  | .delTxTs tsid _ _ => tsid

def Event.buf : Event → Bool
  | .addTxTs _ _ _ _ buf => buf
  | .delTxTs _ _ buf => buf

def step (s : State) : Event → Except Fault State
  | .addTxTs tsid peer userPrio admittedTime buf => addTxTs s tsid peer userPrio admittedTime buf
  | .delTxTs tsid peer buf => delTxTs s tsid peer buf

/-- `wmm_ac_init` and `reset_wmmac_ts_info` -/
def init : State where
  staTsInfo := fun _ => .zero
  admittedTime := fun _ => 0
  usedTime := fun _ => 0
  available := fun _ => false
  edcafTimer := none
  voTimer := none
  viTimer := none

/-- What a stream is admitted of an access category. -/
def WmmAcTs.share (ac : EdcaAc) (ts : WmmAcTs) : ℕ :=
  if ts.exist ∧ ts.ac = ac then ts.admittedTime.toNat else 0

/-- Each total is the admitted time of the streams of its category, in µs. -/
def Admitted (s : State) : Prop :=
  ∀ ac, (s.admittedTime ac).toNat = 32 * ∑ i, (s.staTsInfo i).share ac

/-- The stream a command is about has an entry in the table, and no live stream that holds medium time
is in it. -/
def Fresh (s : State) (e : Event) : Prop :=
  e.buf = true → ∃ h : e.tsid.toNat < NUM_TID,
    (s.staTsInfo ⟨e.tsid.toNat, h⟩).exist = true →
      (s.staTsInfo ⟨e.tsid.toNat, h⟩).admittedTime = 0

variable {s : State} {i : Fin NUM_TID} {ac : EdcaAc}

theorem index_eq {tsid : BitVec 8} (h : tsid.toNat < NUM_TID) :
    index tsid = .ok ⟨tsid.toNat, h⟩ := dif_pos h

theorem index_eq_error {tsid : BitVec 8} (h : ¬ tsid.toNat < NUM_TID) :
    index tsid = .error .outOfBounds := dif_neg h

theorem toNat_shifted (m : BitVec 16) : (shifted m).toNat = 32 * m.toNat := by
  have hm := m.isLt
  simp only [shifted, BitVec.toNat_shiftLeft, BitVec.toNat_setWidth, Nat.shiftLeft_eq]
  omega

theorem share_le (ts : WmmAcTs) : ts.share ac ≤ 65535 := by
  have hm := ts.admittedTime.isLt
  rw [WmmAcTs.share]
  split <;> omega

@[simp] theorem share_zero : WmmAcTs.zero.share ac = 0 := rfl

/-- A stream without medium time has no share. -/
theorem share_eq_zero {ts : WmmAcTs} (h : ts.exist = true → ts.admittedTime = 0) :
    ts.share ac = 0 := by
  rw [WmmAcTs.share]
  split
  · rename_i hts
    rw [h hts.1]
    rfl
  · rfl

/-- A live stream with medium time has a share of its category. -/
theorem share_ne_zero {ts : WmmAcTs} (hexist : ts.exist = true) (htime : ts.admittedTime ≠ 0) :
    ts.share ts.ac ≠ 0 := by
  rw [WmmAcTs.share, if_pos ⟨hexist, rfl⟩]
  intro hzero
  apply htime
  exact BitVec.eq_of_toNat_eq hzero

/-- Changing one entry of a table moves its total by the difference. -/
theorem sum_update {α ι : Type*} [Fintype ι] [DecidableEq ι] (f : α → ℕ) (table : ι → α) (i : ι)
    (x : α) : ∑ j, f (Function.update table i x j) + f (table i) = ∑ j, f (table j) + f x := by
  have hfun : (fun j => f (Function.update table i x j))
      = Function.update (fun j => f (table j)) i (f x) := by
    funext j
    exact Function.apply_update (fun _ => f) table i x j
  have hrest := Finset.add_sum_erase Finset.univ (fun j => f (table j)) (Finset.mem_univ i)
  rw [hfun, Finset.sum_update_of_mem (Finset.mem_univ i), ← hrest, Finset.sdiff_singleton_eq_erase]
  omega

variable (ac) in
theorem sum_share_le (table : Fin NUM_TID → WmmAcTs) : ∑ i, (table i).share ac ≤ 16 * 65535 :=
  Finset.sum_le_card_nsmul _ _ 65535 fun _ _ => share_le _

/-- Taking nothing away changes no total. -/
theorem admittedTime_decrease_zero :
    (decreaseAdmittedTime s ac 0).admittedTime = s.admittedTime := by
  have hzero : shifted 0 = 0 := rfl
  rw [decreaseAdmittedTime, hzero]
  split
  · simp
  · rename_i hle
    have h : s.admittedTime ac = 0 := by
      simpa using hle
    dsimp only
    rw [← h, Function.update_eq_self]

theorem addTxTs_spec {tsid : BitVec 8} (h : tsid.toNat < NUM_TID) (peer : BitVec 48)
    (up : BitVec 8) (m : BitVec 16) :
    ∃ t, addTxTs s tsid peer up m true = .ok t ∧
      t.staTsInfo = Function.update s.staTsInfo ⟨tsid.toNat, h⟩
        ⟨true, mapPriorityToEdcaAc up, up, m⟩ ∧
      t.admittedTime = Function.update s.admittedTime (mapPriorityToEdcaAc up)
        (s.admittedTime (mapPriorityToEdcaAc up) + shifted m) := by
  have hstep : addTxTs s tsid peer up m true = .ok (updateAdmittedTime
      (updateWmmacTsInfo s ⟨tsid.toNat, h⟩ up (mapPriorityToEdcaAc up) true m)
      ⟨tsid.toNat, h⟩ m true) := by
    simp only [addTxTs, index_eq h, ok_map, if_true]
  refine ⟨_, hstep, rfl, ?_⟩
  simp [updateAdmittedTime, updateWmmacTsInfo, increaseAdmittedTime]

theorem delTxTs_spec {tsid : BitVec 8} (h : tsid.toNat < NUM_TID) (peer : BitVec 48) :
    ∃ t, delTxTs s tsid peer true = .ok t ∧
      t.staTsInfo = Function.update s.staTsInfo ⟨tsid.toNat, h⟩ .zero ∧
      t.admittedTime = s.admittedTime := by
  have hstep : delTxTs s tsid peer true = .ok (removeWmmacTsInfo
      (updateAdmittedTime s ⟨tsid.toNat, h⟩ 0 false) ⟨tsid.toNat, h⟩) := by
    simp only [delTxTs, index_eq h, ok_map, if_true, CmdTxTs.zero]
  have hinfo (ac : EdcaAc) : (decreaseAdmittedTime s ac 0).staTsInfo = s.staTsInfo := by
    rw [decreaseAdmittedTime]
    split <;> rfl
  refine ⟨_, hstep, ?_, ?_⟩
  · exact congrArg (Function.update · _ WmmAcTs.zero) (hinfo _)
  · exact admittedTime_decrease_zero

/-- A command leaves the totals apart from the table by the share of the stream it replaces. -/
theorem Admitted.drift (h : Admitted s) {e : Event} (hbuf : e.buf = true)
    (htsid : e.tsid.toNat < NUM_TID) :
    ∃ t, step s e = .ok t ∧ ∀ ac, (t.admittedTime ac).toNat =
      32 * (∑ i, (t.staTsInfo i).share ac + (s.staTsInfo ⟨e.tsid.toNat, htsid⟩).share ac) := by
  cases e with
  | addTxTs tsid peer up m buf =>
    obtain rfl : buf = true := hbuf
    change tsid.toNat < NUM_TID at htsid
    obtain ⟨t, ht, hinfo, htime⟩ := addTxTs_spec (s := s) htsid peer up m
    refine ⟨t, ht, fun ac => ?_⟩
    simp only [Event.tsid]
    have hsum := sum_update (WmmAcTs.share ac) s.staTsInfo ⟨tsid.toNat, htsid⟩
      ⟨true, mapPriorityToEdcaAc up, up, m⟩
    have hle := sum_share_le ac s.staTsInfo
    have hold := h ac
    have hm := m.isLt
    rw [hinfo, htime, hsum]
    by_cases hac : ac = mapPriorityToEdcaAc up
    · subst hac
      have hshare : WmmAcTs.share (mapPriorityToEdcaAc up)
          ⟨true, mapPriorityToEdcaAc up, up, m⟩ = m.toNat := if_pos ⟨rfl, rfl⟩
      rw [Function.update_self, BitVec.toNat_add, toNat_shifted, hshare]
      omega
    · have hshare : WmmAcTs.share ac ⟨true, mapPriorityToEdcaAc up, up, m⟩ = 0 :=
        if_neg fun hts => hac hts.2.symm
      rw [Function.update_of_ne hac, hshare]
      omega
  | delTxTs tsid peer buf =>
    obtain rfl : buf = true := hbuf
    change tsid.toNat < NUM_TID at htsid
    obtain ⟨t, ht, hinfo, htime⟩ := delTxTs_spec (s := s) htsid peer
    refine ⟨t, ht, fun ac => ?_⟩
    simp only [Event.tsid]
    have hsum := sum_update (WmmAcTs.share ac) s.staTsInfo ⟨tsid.toNat, htsid⟩ .zero
    rw [hinfo, htime, hsum, share_zero, Nat.add_zero]
    exact h ac

/-- Without a command buffer nothing happens. -/
theorem step_eq_self {e : Event} (hbuf : e.buf = false) : step s e = .ok s := by
  cases e with
  | addTxTs tsid peer up m buf =>
    obtain rfl : buf = false := hbuf
    rfl
  | delTxTs tsid peer buf =>
    obtain rfl : buf = false := hbuf
    rfl

theorem step_eq_error {e : Event} (hbuf : e.buf = true) (htsid : ¬ e.tsid.toNat < NUM_TID) :
    step s e = .error .outOfBounds := by
  cases e with
  | addTxTs tsid peer up m buf =>
    obtain rfl : buf = true := hbuf
    change ¬ tsid.toNat < NUM_TID at htsid
    simp only [step, addTxTs, if_true, index_eq_error htsid, Except.map]
  | delTxTs tsid peer buf =>
    obtain rfl : buf = true := hbuf
    change ¬ tsid.toNat < NUM_TID at htsid
    simp only [step, delTxTs, if_true, index_eq_error htsid, Except.map]

theorem Admitted.kept (h : Admitted s) {e : Event} (hfresh : Fresh s e) :
    ∃ t, step s e = .ok t ∧ Admitted t := by
  cases hbuf : e.buf with
  | false => exact ⟨s, step_eq_self hbuf, h⟩
  | true =>
    obtain ⟨htsid, hnone⟩ := hfresh hbuf
    obtain ⟨t, ht, hdrift⟩ := h.drift hbuf htsid
    refine ⟨t, ht, fun ac => ?_⟩
    rw [hdrift ac, share_eq_zero hnone, Nat.add_zero]

theorem Admitted.broken (h : Admitted s) {e : Event} (hfresh : ¬ Fresh s e) {t : State}
    (ht : step s e = .ok t) : ¬ Admitted t := by
  obtain ⟨hbuf, hlive⟩ : e.buf = true ∧ ¬ ∃ h : e.tsid.toNat < NUM_TID,
      (s.staTsInfo ⟨e.tsid.toNat, h⟩).exist = true →
        (s.staTsInfo ⟨e.tsid.toNat, h⟩).admittedTime = 0 := by
    simpa only [Fresh, Classical.not_imp] using hfresh
  by_cases htsid : e.tsid.toNat < NUM_TID
  · obtain ⟨hexist, htime⟩ : (s.staTsInfo ⟨e.tsid.toNat, htsid⟩).exist = true ∧
        (s.staTsInfo ⟨e.tsid.toNat, htsid⟩).admittedTime ≠ 0 := by
      by_contra hnot
      exact hlive ⟨htsid, fun hexist => by
        by_contra htime
        exact hnot ⟨hexist, htime⟩⟩
    obtain ⟨t', ht', hdrift⟩ := h.drift hbuf htsid
    obtain rfl := Except.ok.inj (ht.symm.trans ht')
    intro hbad
    have hac := (hbad (s.staTsInfo ⟨e.tsid.toNat, htsid⟩).ac).symm.trans (hdrift _)
    have hshare := share_ne_zero hexist htime
    omega
  · rw [step_eq_error hbuf htsid] at ht
    cases ht

theorem init_admitted : Admitted init := by
  intro ac
  simp [init]

/-- All commands of a run find their entry of the table, and the totals are those of the live streams
after each of them, exactly if each of them finds no live stream with medium time in its entry. -/
theorem admitted_time_iff (es : List Event) :
    (∀ es₁ es₂, es = es₁ ++ es₂ → ∃ t, run step init es₁ = .ok t ∧ Admitted t) ↔
      Along step Fresh init es :=
  along_iff_prefixes_reach (fun _ h => h) init_admitted (fun _ _ h hfresh => h.kept hfresh)
    fun _ _ _ h hfresh ht => h.broken hfresh ht

/-- A stream of voice is added and deleted. -/
def sampleCommands : List Event := [.addTxTs 6 0 6 100 true, .delTxTs 6 0 true]

/-- Its 3200 µs stay admitted. -/
theorem deleted_stream_stays_admitted :
    ∃ t, run step init sampleCommands = .ok t ∧ (∀ i, (t.staTsInfo i).exist = false) ∧
      (t.admittedTime .vo).toNat = 3200 ∧ ¬ Admitted t := by
  refine ⟨_, rfl, by decide, by decide, fun h => ?_⟩
  exact absurd (h .vo) (by decide)

end Uwe5631.Wmmac
