import Uwe5631.AdmittedTime

/-!
# Admission control

Beside the commands for traffic streams, the timers and the transmit path move the counters of the
access categories. `g_wmmac_available` keeps a comparison of two of them. With admission control the
transmit path lowers the category of a packet until one takes it.
-/
namespace Uwe5631.AdmissionControl
open FallibleRuns Wmmac

def WMM_AC_ACM : BitVec 8 := 0x10

/-- `qos_head_type_t` -/
inductive QosIndex where
  | vo
  | vi
  | be
  | bk
  | max
  deriving DecidableEq, Repr

structure DscpException where
  dscp : BitVec 8
  up : BitVec 8
  deriving DecidableEq, Repr

structure QosMapRange where
  low : BitVec 8
  high : BitVec 8
  up : BitVec 8
  deriving DecidableEq, Repr

/-- `struct qos_map_set`, with `QOS_MAP_MAX_DSCP_EXCEPTION` exceptions. -/
structure QosMapSet where
  qosExceptions : Vector DscpException 21
  qosRanges : Vector QosMapRange 8

/-- The settings that the transmit path reads: `g_qos_enable`, `g_11u_qos_map` and `wmmac_ratio`. -/
structure Settings where
  qosEnable : BitVec 32
  qosMap : QosMapSet
  wmmacRatio : BitVec 32

/-- The counters and the flags `priv->wmmac.ac[]` of the access point, by the index `edca_ac_t`. -/
structure Station where
  wmmac : State
  aciAifsn : EdcaAc → BitVec 8

def Station.acm (s : Station) (ac : EdcaAc) : Bool := s.aciAifsn ac &&& WMM_AC_ACM != 0

def edcaAc : ℕ → EdcaAc
  | 0 => .bk
  | 1 => .be
  | 2 => .vi
  | _ => .vo

def edcaIndex : EdcaAc → ℕ
  | .bk => 0
  | .be => 1
  | .vi => 2
  | .vo => 3

/-- `map_edca_ac_to_priority` -/
def mapEdcaAcToPriority : EdcaAc → BitVec 8
  | .bk => 1
  | .vi => 4
  | .vo => 6
  | .be => 0

/-- The switch at the end of `change_priority_if`. -/
def qosIndexOf (tid : BitVec 8) : QosIndex :=
  match tid.toNat with
  | 1 => .bk
  | 4 => .vi
  | 6 => .vo
  | _ => .be

/-- The TID that the map gives a code point, or the old one. -/
def mapTid (qosMap : QosMapSet) (priority tid : BitVec 8) : BitVec 8 :=
  match qosMap.qosExceptions.toList.find? fun e => priority == e.dscp with
  | some e => e.up
  | none =>
    match qosMap.qosRanges.toList.find? fun r => r.low ≤ priority && priority ≤ r.high with
    | some r => r.up
    | none => tid

/-- `(len + 4) * 8 * wmmac_ratio / 10 / 54` -/
def airtime (len : BitVec 16) (wmmacRatio : BitVec 32) : BitVec 32 :=
  (len.setWidth 32 + 4) * 8 * wmmacRatio / 10 / 54

/-- The time of a packet is charged to a category. -/
def charge (s : State) (ac : EdcaAc) (time : BitVec 32) : State :=
  { s with
    usedTime := Function.update s.usedTime ac (s.usedTime ac + time)
    available := Function.update s.available ac (s.usedTime ac + time < s.admittedTime ac) }

/-- The loop of `change_priority_if` at a category: the category it stops at with the counters then,
or none for `SPRDWL_AC_MAX`. -/
def downgrade (s : Station) (time : BitVec 32) : ℕ → Option (EdcaAc × State)
  | 0 => some (edcaAc 0, s.wmmac)
  | ac + 1 =>
    if s.acm (edcaAc (ac + 1)) then
      if s.wmmac.available (edcaAc (ac + 1)) then
        some (edcaAc (ac + 1), charge s.wmmac (edcaAc (ac + 1)) time)
      else if s.wmmac.usedTime (edcaAc (ac + 1)) ≠ 0 then none
      else downgrade s time ac
    else some (edcaAc (ac + 1), s.wmmac)

/-- `change_priority_if`: the queue it selects, `*tid` and the counters after it. -/
def changePriorityIf (g : Settings) (s : Station) (tid tos : BitVec 8) (len : BitVec 16) :
    QosIndex × BitVec 8 × State :=
  let tid := mapTid g.qosMap (tos >>> 2) tid
  if g.qosEnable = 1 then
    match downgrade s (airtime len g.wmmacRatio) (edcaIndex (mapPriorityToEdcaAc tid)) with
    | none => (.max, tid, s.wmmac)
    | some (ac, wmmac) => (qosIndexOf (mapEdcaAcToPriority ac), mapEdcaAcToPriority ac, wmmac)
  else (qosIndexOf tid, tid, s.wmmac)

/-- `wmm_ac_init`, and `reset_wmmac_parameters`, which stops the timers that the former sets up. -/
def resetWmmacParameters (s : Station) : Station where
  wmmac :=
    { s.wmmac with
      usedTime := fun _ => 0
      available := fun _ => false
      admittedTime := fun _ => 0
      edcafTimer := none
      voTimer := none
      viTimer := none }
  aciAifsn := fun _ => 0

/-- The part of the edcaf timeout for a category. -/
def restart (s : State) (ac : EdcaAc) : State :=
  if s.admittedTime ac > 0 then
    { s with
      usedTime := Function.update s.usedTime ac 0
      available := Function.update s.available ac true }
  else s

/-- `update_wmmac_edcaftime_timeout` -/
def updateWmmacEdcaftimeTimeout (s : State) : State :=
  { restart (restart s .vo) .vi with
    edcafTimer := some WMMAC_EDCA_TIMEOUT_MS
    voTimer := if s.admittedTime .vo > 0 then some (s.admittedTime .vo * WMMAC_TIME_RATIO)
      else s.voTimer
    viTimer := if s.admittedTime .vi > 0 then some (s.admittedTime .vi * WMMAC_TIME_RATIO)
      else s.viTimer }

/-- The time of a category is used up. -/
def exhaust (s : State) (ac : EdcaAc) : State :=
  { s with
    usedTime := Function.update s.usedTime ac (s.admittedTime ac)
    available := Function.update s.available ac false }

def updateWmmacVoTimeout (s : State) : State := { exhaust s .vo with voTimer := none }

def updateWmmacViTimeout (s : State) : State := { exhaust s .vi with viTimer := none }

inductive Call where
  | wmmAcInit
  | resetWmmacParameters
  | updateWmmacTsInfo (tsid up : BitVec 8) (ac : EdcaAc) (status : Bool) (admittedTime : BitVec 16)
  | removeWmmacTsInfo (tsid : BitVec 8)
  | updateAdmittedTime (tsid : BitVec 8) (mediumTime : BitVec 16) (increase : Bool)
  | edcafTimeout
  | voTimeout
  | viTimeout
  | changePriorityIf (g : Settings) (tid tos : BitVec 8) (len : BitVec 16)
  /-- an association copies the flags of the access point -/
  | associate (aciAifsn : EdcaAc → BitVec 8)

def step (s : Station) : Call → Except Fault Station
  | .wmmAcInit => .ok (resetWmmacParameters s)
  | .resetWmmacParameters => .ok (resetWmmacParameters s)
  | .updateWmmacTsInfo tsid up ac status m =>
    (index tsid).map fun i => { s with wmmac := updateWmmacTsInfo s.wmmac i up ac status m }
  | .removeWmmacTsInfo tsid =>
    (index tsid).map fun i => { s with wmmac := removeWmmacTsInfo s.wmmac i }
  | .updateAdmittedTime tsid m increase =>
    (index tsid).map fun i => { s with wmmac := updateAdmittedTime s.wmmac i m increase }
  | .edcafTimeout => .ok { s with wmmac := updateWmmacEdcaftimeTimeout s.wmmac }
  | .voTimeout => .ok { s with wmmac := updateWmmacVoTimeout s.wmmac }
  | .viTimeout => .ok { s with wmmac := updateWmmacViTimeout s.wmmac }
  | .changePriorityIf g tid tos len =>
    .ok { s with wmmac := (changePriorityIf g s tid tos len).2.2 }
  | .associate aciAifsn => .ok { s with aciAifsn := aciAifsn }

/-- The state of the globals before the first call. -/
def start : Station := ⟨Wmmac.init, fun _ => 0⟩

/-- A stream of the table. -/
def Call.InTable : Call → Prop
  | .updateWmmacTsInfo tsid _ _ _ _ | .removeWmmacTsInfo tsid | .updateAdmittedTime tsid _ _ =>
    tsid.toNat < NUM_TID
  | _ => True

/-- The flag is the comparison it stands for. -/
def Cached (s : State) : Prop :=
  ∀ ac, s.available ac = true ↔ s.usedTime ac < s.admittedTime ac

/-- The category of a queue. -/
def QosIndex.ac : QosIndex → Option EdcaAc
  | .vo => some .vo
  | .vi => some .vi
  | .be => some .be
  | .bk => some .bk
  | .max => none

/-- The category that is selected is the lowest, or needs no admission, or was available. -/
def Allowed (s : Station) (qos : QosIndex) : Prop :=
  ∀ ac ∈ qos.ac, ac = .bk ∨ s.acm ac = false ∨ s.wmmac.available ac = true

/-- A packet is charged to categories with admission control only, and with admission control goes
to a category that may take it; without, it is not charged at all. -/
structure Admits (g : Settings) (s : Station) (tid tos : BitVec 8) (len : BitVec 16) : Prop where
  charged : ∀ ac, (changePriorityIf g s tid tos len).2.2.usedTime ac ≠ s.wmmac.usedTime ac →
    s.acm ac = true
  allowed : g.qosEnable = 1 → Allowed s (changePriorityIf g s tid tos len).1
  disabled : g.qosEnable ≠ 1 → (changePriorityIf g s tid tos len).2.2 = s.wmmac

section Cached
variable {s : State}

/-- Changing the counters and the flag of one category together. -/
theorem Cached.update (h : Cached s) (ac : EdcaAc) {t : State} {flag : Bool} {used admitted : BitVec 32}
    (hflag : flag = true ↔ used < admitted)
    (havailable : t.available = Function.update s.available ac flag)
    (hused : t.usedTime = Function.update s.usedTime ac used)
    (hadmitted : t.admittedTime = Function.update s.admittedTime ac admitted) : Cached t := by
  intro ac'
  rw [havailable, hused, hadmitted]
  by_cases hac : ac' = ac
  · subst hac
    simpa only [Function.update_self] using hflag
  · simpa only [Function.update_of_ne hac] using h ac'

/-- Only the counters and the flags count. -/
theorem Cached.congr (h : Cached s) {t : State} (havailable : t.available = s.available)
    (hused : t.usedTime = s.usedTime) (hadmitted : t.admittedTime = s.admittedTime) :
    Cached t := by
  intro ac
  rw [havailable, hused, hadmitted]
  exact h ac

theorem Cached.charge (h : Cached s) (ac : EdcaAc) (time : BitVec 32) :
    Cached (charge s ac time) :=
  h.update ac (by exact decide_eq_true_iff) rfl rfl (Function.update_eq_self _ _).symm

theorem Cached.restart (h : Cached s) (ac : EdcaAc) : Cached (restart s ac) := by
  rw [AdmissionControl.restart]
  split
  · exact h.update ac (iff_of_true rfl ‹_›) rfl rfl (Function.update_eq_self _ _).symm
  · exact h

theorem Cached.exhaust (h : Cached s) (ac : EdcaAc) : Cached (exhaust s ac) :=
  h.update ac (iff_of_false Bool.false_ne_true (BitVec.lt_irrefl _)) rfl rfl
    (Function.update_eq_self _ _).symm

theorem updateAdmittedTime_fields (i : Fin NUM_TID) (m : BitVec 16) (increase : Bool) :
    ∃ admitted, (updateAdmittedTime s i m increase).admittedTime =
        Function.update s.admittedTime (s.staTsInfo i).ac admitted ∧
      (updateAdmittedTime s i m increase).usedTime = s.usedTime ∧
      (updateAdmittedTime s i m increase).available =
        Function.update s.available (s.staTsInfo i).ac
          (s.usedTime (s.staTsInfo i).ac < admitted) := by
  cases increase with
  | true =>
    refine ⟨_, rfl, rfl, ?_⟩
    simp [updateAdmittedTime, increaseAdmittedTime]
  | false =>
    by_cases hmore : s.admittedTime (s.staTsInfo i).ac > shifted m
    · refine ⟨s.admittedTime (s.staTsInfo i).ac - shifted m, ?_, ?_, ?_⟩
      all_goals simp [updateAdmittedTime, decreaseAdmittedTime, hmore]
    · refine ⟨0, ?_, ?_, ?_⟩
      all_goals simp [updateAdmittedTime, decreaseAdmittedTime, hmore]

theorem Cached.updateAdmittedTime (h : Cached s) (i : Fin NUM_TID) (m : BitVec 16)
    (increase : Bool) : Cached (updateAdmittedTime s i m increase) := by
  obtain ⟨admitted, hadmitted, hused, havailable⟩ :=
    updateAdmittedTime_fields (s := s) i m increase
  exact h.update _ decide_eq_true_iff havailable
    (hused.trans (Function.update_eq_self _ _).symm) hadmitted

end Cached

/-- Where the loop stops, and what it charges. -/
theorem downgrade_cases {s : Station} {time : BitVec 32} {n : ℕ} {ac : EdcaAc} {t : State}
    (h : downgrade s time n = some (ac, t)) :
    (ac = .bk ∧ t = s.wmmac) ∨ (s.acm ac = false ∧ t = s.wmmac) ∨
      (s.acm ac = true ∧ s.wmmac.available ac = true ∧ t = charge s.wmmac ac time) := by
  induction n with
  | zero =>
    cases h
    exact .inl ⟨rfl, rfl⟩
  | succ n ih =>
    rw [downgrade] at h
    split at h
    · split at h
      · cases h
        exact .inr (.inr ⟨‹_›, ‹_›, rfl⟩)
      · split at h
        · cases h
        · exact ih h
    · cases h
      exact .inr (.inl ⟨Bool.eq_false_of_not_eq_true ‹_›, rfl⟩)

section Change
variable (g : Settings) (s : Station) (tid tos : BitVec 8) (len : BitVec 16)

/-- What one call selects and does to the counters. -/
theorem changePriorityIf_cases :
    (g.qosEnable ≠ 1 ∧ (changePriorityIf g s tid tos len).2.2 = s.wmmac) ∨
    (g.qosEnable = 1 ∧ (changePriorityIf g s tid tos len).1 = .max ∧
      (changePriorityIf g s tid tos len).2.2 = s.wmmac) ∨
    ∃ ac n, g.qosEnable = 1 ∧
      (changePriorityIf g s tid tos len).1.ac = some ac ∧
      downgrade s (airtime len g.wmmacRatio) n =
        some (ac, (changePriorityIf g s tid tos len).2.2) := by
  by_cases hon : g.qosEnable = 1
  · rw [changePriorityIf, if_pos hon]
    cases hdown : downgrade s (airtime len g.wmmacRatio)
        (edcaIndex (mapPriorityToEdcaAc (mapTid g.qosMap (tos >>> 2) tid))) with
    | none => exact .inr (.inl ⟨hon, rfl, rfl⟩)
    | some r =>
      obtain ⟨ac, t⟩ := r
      have hac : (qosIndexOf (mapEdcaAcToPriority ac)).ac = some ac := by
        cases ac <;> rfl
      exact .inr (.inr ⟨ac, _, hon, hac, hdown⟩)
  · rw [changePriorityIf, if_neg hon]
    exact .inl ⟨hon, rfl⟩

theorem changePriorityIf_admits : Admits g s tid tos len := by
  rcases changePriorityIf_cases g s tid tos len with
    ⟨hoff, heq⟩ | ⟨hon, hmax, heq⟩ | ⟨ac, n, hon, hac, hdown⟩
  · exact ⟨fun ac h => absurd (by rw [heq]) h, fun hon => absurd hon hoff, fun _ => heq⟩
  · refine ⟨fun ac h => absurd (by rw [heq]) h, fun _ ac h => ?_, fun hoff => absurd hon hoff⟩
    rw [hmax] at h
    cases h
  · refine ⟨fun ac' h => ?_, fun _ ac' h => ?_, fun hoff => absurd hon hoff⟩
    · rcases downgrade_cases hdown with ⟨-, heq⟩ | ⟨-, heq⟩ | ⟨hacm, -, heq⟩
      · exact absurd (by rw [heq]) h
      · exact absurd (by rw [heq]) h
      · rw [heq] at h
        have hsame : ac' = ac := by
          by_contra hne
          exact h (Function.update_of_ne hne _ _)
        rwa [hsame]
    · obtain rfl := Option.some.inj (hac.symm.trans h)
      rcases downgrade_cases hdown with ⟨hbk, -⟩ | ⟨hacm, -⟩ | ⟨-, havailable, -⟩
      · exact .inl hbk
      · exact .inr (.inl hacm)
      · exact .inr (.inr havailable)

theorem Cached.changePriorityIf {s : Station} (h : Cached s.wmmac) :
    Cached (changePriorityIf g s tid tos len).2.2 := by
  rcases changePriorityIf_cases g s tid tos len with
    ⟨-, heq⟩ | ⟨-, -, heq⟩ | ⟨ac, n, -, -, hdown⟩
  · rwa [heq]
  · rwa [heq]
  · rcases downgrade_cases hdown with ⟨-, heq⟩ | ⟨-, heq⟩ | ⟨-, -, heq⟩
    · rwa [heq]
    · rwa [heq]
    · rw [heq]
      exact h.charge ac _

end Change

/-- Each call keeps the comparison fresh, if its stream is of the table. -/
theorem Cached.step {s : Station} (h : Cached s.wmmac) {c : Call} (hc : c.InTable) :
    ∃ t, step s c = .ok t ∧ Cached t.wmmac := by
  cases c with
  | wmmAcInit => exact ⟨_, rfl, fun _ => by simp [resetWmmacParameters]⟩
  | resetWmmacParameters => exact ⟨_, rfl, fun _ => by simp [resetWmmacParameters]⟩
  | updateWmmacTsInfo tsid up ac status m =>
    refine ⟨{ s with wmmac := updateWmmacTsInfo s.wmmac ⟨tsid.toNat, hc⟩ up ac status m }, ?_,
      h.congr rfl rfl rfl⟩
    rw [AdmissionControl.step, index_eq hc, ok_map]
  | removeWmmacTsInfo tsid =>
    refine ⟨{ s with wmmac := removeWmmacTsInfo s.wmmac ⟨tsid.toNat, hc⟩ }, ?_,
      h.congr rfl rfl rfl⟩
    rw [AdmissionControl.step, index_eq hc, ok_map]
  | updateAdmittedTime tsid m increase =>
    refine ⟨{ s with wmmac := Wmmac.updateAdmittedTime s.wmmac ⟨tsid.toNat, hc⟩ m increase }, ?_,
      h.updateAdmittedTime _ _ _⟩
    rw [AdmissionControl.step, index_eq hc, ok_map]
  | edcafTimeout => exact ⟨_, rfl, ((h.restart .vo).restart .vi).congr rfl rfl rfl⟩
  | voTimeout => exact ⟨_, rfl, (h.exhaust .vo).congr rfl rfl rfl⟩
  | viTimeout => exact ⟨_, rfl, (h.exhaust .vi).congr rfl rfl rfl⟩
  | changePriorityIf g tid tos len => exact ⟨_, rfl, h.changePriorityIf g tid tos len⟩
  | associate aciAifsn => exact ⟨_, rfl, h⟩

/-- After every sequence of calls the flags are the comparisons they stand for, and every packet
then goes to a category that may take it. -/
theorem admission_control (calls : List Call) (h : ∀ c ∈ calls, c.InTable) :
    ∃ t, run step start calls = .ok t ∧ Cached t.wmmac ∧
      ∀ g tid tos len, Admits g t tid tos len := by
  have hstart : Cached start.wmmac := fun _ => by simp [start, Wmmac.init]
  have halong : Along step (fun _ (c : Call) => c.InTable) start calls := by
    rw [along_iff_forall]
    rintro es₁ c es₂ t rfl -
    exact h c (List.mem_append_right _ List.mem_cons_self)
  obtain ⟨t, hrun, hcached⟩ := run_completes (I := fun s => Cached s.wmmac)
    (fun _ _ hI hC => Cached.step hI hC) hstart halong
  exact ⟨t, hrun, hcached, fun g tid tos len => changePriorityIf_admits g t tid tos len⟩

/-- The default map has no exceptions; the ranges do not matter here. -/
def sampleSettings (qosEnable : BitVec 32) : Settings where
  qosEnable := qosEnable
  qosMap := ⟨Vector.replicate 21 ⟨0xff, 0⟩, Vector.replicate 8 ⟨1, 0, 0⟩⟩
  wmmacRatio := 10

/-- An access point that asks for admission in every category, a stream of voice and a packet. -/
def voiceCalls : List Call :=
  [.wmmAcInit, .associate fun _ => 0x10, .updateWmmacTsInfo 6 6 .vo true 1,
    .updateAdmittedTime 6 1 true, .changePriorityIf (sampleSettings 1) 6 0 100, .edcafTimeout]

theorem admission_control_voice :
    ∃ t, run step start voiceCalls = .ok t ∧ Cached t.wmmac ∧
      ∀ g tid tos len, Admits g t tid tos len :=
  admission_control voiceCalls (by simp [voiceCalls, Call.InTable, NUM_TID])

/-- With no stream admitted a packet goes to background, which has the flag and is not available; so
does a packet of voice to voice without admission control; and a stream behind the table is read. -/
theorem admission_control_background :
    ∃ t, run step start [.associate fun _ => 0x10] = .ok t ∧
      (changePriorityIf (sampleSettings 1) t 6 0 100).1 = .bk ∧
      t.acm .bk = true ∧ t.wmmac.available .bk = false ∧
      (changePriorityIf (sampleSettings 0) t 6 0 100).1 = .vo ∧
      t.acm .vo = true ∧ t.wmmac.available .vo = false ∧
      run step t [.updateAdmittedTime 16 1 true] = .error .outOfBounds :=
  ⟨_, rfl, by decide, by decide, by decide, by decide, by decide, by decide, rfl⟩

end Uwe5631.AdmissionControl
