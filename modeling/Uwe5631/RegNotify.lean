import Uwe5631.FallibleRuns
import Mathlib

/-!
# The regulatory domain of a notification

`sprdwl_reg_notify` counts the rules of the channels in one pass over the bands, where it also keeps
the frequencies, and fills the domain for the firmware in another.
-/
namespace Uwe5631.RegNotify
open FallibleRuns

abbrev TOTAL_2G_5G_CHANNEL_NUM : ℕ := 39

inductive Fault
  | writeOutside
  deriving DecidableEq, Repr

/-- `struct ieee80211_reg_rule` -/
structure RegRule where
  startFreqKhz : BitVec 32
  endFreqKhz : BitVec 32
  maxBandwidthKhz : BitVec 32
  maxAntennaGain : BitVec 32
  maxEirp : BitVec 32
  flags : BitVec 32
  dfsCacMs : BitVec 32
  deriving DecidableEq, Repr

structure Channel where
  centerFreq : BitVec 32
  disabled : Bool
  radar : Bool

inductive Band
  | band2ghz
  | band5ghz
  deriving DecidableEq, Repr

/-- `ch_2g4_info`, `ch_5g_without_dfs_info` and `ch_5g_dfs_info` -/
structure ChInfo where
  ch2g4 : List (BitVec 32)
  ch5gWithoutDfs : List (BitVec 32)
  ch5gDfs : List (BitVec 32)
  deriving DecidableEq

def addChannel (channels : List (BitVec 32)) (freq : BitVec 32) : Except Fault (List (BitVec 32)) :=
  if channels.length < TOTAL_2G_5G_CHANNEL_NUM then .ok (channels ++ [freq]) else .error .writeOutside

def saveChInfo (band : Band) (chan : Channel) (info : ChInfo) : Except Fault ChInfo :=
  match band with
  | .band2ghz => (addChannel info.ch2g4 chan.centerFreq).map fun l => { info with ch2g4 := l }
  | .band5ghz =>
    if chan.radar then
      (addChannel info.ch5gDfs chan.centerFreq).map fun l => { info with ch5gDfs := l }
    else
      (addChannel info.ch5gWithoutDfs chan.centerFreq).map fun l => { info with ch5gWithoutDfs := l }

/-! ## The rule of a frequency -/

def MHZ_TO_KHZ (freq : BitVec 32) : BitVec 32 := freq * 1000

def freqInRuleBand (rule : RegRule) (freqKhz : BitVec 32) : Bool :=
  let limit := if 45000000 < freqKhz.toNat then 10000000 else 2000000
  (freqKhz - rule.startFreqKhz).toInt.natAbs ≤ limit ||
    (freqKhz - rule.endFreqKhz).toInt.natAbs ≤ limit

def regDoesBwFit (rule : RegRule) (centerFreqKhz bwKhz : BitVec 32) : Bool :=
  rule.startFreqKhz ≤ centerFreqKhz - bwKhz / 2 && centerFreqKhz + bwKhz / 2 ≤ rule.endFreqKhz

/-- The loop of `sprd_freq_reg_info_regd`, with `band_rule_found`. -/
def findRule (centerFreq : BitVec 32) : List RegRule → Bool → Option RegRule
  | [], _ => none
  | rr :: rules, found =>
    let found := found || freqInRuleBand rr centerFreq
    if found && regDoesBwFit rr centerFreq (MHZ_TO_KHZ 20) then some rr
    else findRule centerFreq rules found

def sprdFreqRegInfoRegd (regd : List RegRule) (centerFreq : BitVec 32) : Option RegRule :=
  findRule centerFreq regd false

/-- The two builds: the rules of the kernel, or of the custom domain of the country. -/
inductive Build
  | standard (freqRegInfo : BitVec 32 → Option RegRule)
  | custom (pRegdom : List RegRule)

def Build.regRule (build : Build) (chan : Channel) : Option RegRule :=
  match build with
  | .standard freqRegInfo => freqRegInfo (MHZ_TO_KHZ chan.centerFreq)
  | .custom pRegdom => sprdFreqRegInfoRegd pRegdom (MHZ_TO_KHZ chan.centerFreq)

/-! ## The two passes -/

/-- The first pass over a band, with `last_start_freq`. -/
def countBand (build : Build) (band : Band) :
    List Channel → BitVec 32 → ℕ × ChInfo → Except Fault (ℕ × ChInfo)
  | [], _, s => .ok s
  | chan :: chans, last, (nRules, info) =>
    match build.regRule chan with
    | none => countBand build band chans last (nRules, info)
    | some rule => do
      let info ← saveChInfo band chan info
      if last ≠ rule.startFreqKhz then
        countBand build band chans rule.startFreqKhz (nRules + 1, info)
      else countBand build band chans last (nRules, info)

/-- The second pass over a band; the rules so far are `i` many. -/
def fillBand (build : Build) (nRules : ℕ) : List Channel → BitVec 32 → List RegRule → List RegRule
  | [], _, rules => rules
  | chan :: chans, last, rules =>
    if chan.disabled then fillBand build nRules chans last rules
    else
      match build.regRule chan with
      | none => fillBand build nRules chans last rules
      | some rule =>
        if last ≠ rule.startFreqKhz ∧ rules.length < nRules then
          fillBand build nRules chans rule.startFreqKhz (rules ++ [rule])
        else fillBand build nRules chans last rules

/-- The domain that is sent, of the rules filled in, and the frequency lists. -/
structure Outcome where
  nRegRules : ℕ
  regRules : List RegRule
  info : ChInfo
  deriving DecidableEq

/-- `sprdwl_reg_notify`, from the empty lists to the domain. -/
def regNotify (build : Build) (band2 band5 : List Channel) : Except Fault Outcome := do
  let s ← countBand build .band2ghz band2 0 (0, ⟨[], [], []⟩)
  let s ← countBand build .band5ghz band5 0 s
  let rules := fillBand build s.1 band5 0 (fillBand build s.1 band2 0 [])
  .ok ⟨s.1, rules, s.2⟩

/-! ## What the domain should have -/

def enabled (chans : List Channel) : List Channel := chans.filter fun c => !c.disabled

/-- The channels that have a rule. -/
def ruled (build : Build) (chans : List Channel) : List Channel :=
  chans.filter fun c => (build.regRule c).isSome

def rulesOf (build : Build) (chans : List Channel) : List RegRule := chans.filterMap build.regRule

def expectedInfo (build : Build) (band2 band5 : List Channel) : ChInfo :=
  ⟨(ruled build band2).map Channel.centerFreq,
    ((ruled build band5).filter fun c => !c.radar).map Channel.centerFreq,
    ((ruled build band5).filter (·.radar)).map Channel.centerFreq⟩

/-- The count is right, the rules are those of the enabled channels, each once, and the lists have each
channel with a rule. -/
structure Right (build : Build) (band2 band5 : List Channel) (o : Outcome) : Prop where
  count : o.nRegRules = o.regRules.length
  nodup : o.regRules.Nodup
  rules : ∀ r, r ∈ o.regRules ↔ r ∈ rulesOf build (enabled band2) ∨ r ∈ rulesOf build (enabled band5)
  info : o.info = expectedInfo build band2 band5

/-- The rules whose start differs from the one before, which is zero before the first. -/
def changes (rules : List RegRule) : List RegRule :=
  ((rules.zip (0 :: rules.map RegRule.startFreqKhz)).filter fun p => p.1.startFreqKhz ≠ p.2).map
    Prod.fst

/-- The start changes as often among the enabled channels as among all; each rule of an enabled channel
stands at exactly one change; and the lists have room. -/
structure Fine (build : Build) (band2 band5 : List Channel) : Prop where
  agree : (changes (rulesOf build band2)).length + (changes (rulesOf build band5)).length =
    (changes (rulesOf build (enabled band2))).length + (changes (rulesOf build (enabled band5))).length
  once : ∀ r, r ∈ rulesOf build (enabled band2) ∨ r ∈ rulesOf build (enabled band5) →
    (changes (rulesOf build (enabled band2)) ++ changes (rulesOf build (enabled band5))).count r = 1
  room : (expectedInfo build band2 band5).ch2g4.length ≤ TOTAL_2G_5G_CHANNEL_NUM ∧
    (expectedInfo build band2 band5).ch5gWithoutDfs.length ≤ TOTAL_2G_5G_CHANNEL_NUM ∧
    (expectedInfo build band2 band5).ch5gDfs.length ≤ TOTAL_2G_5G_CHANNEL_NUM

/-! ## The passes -/

/-- The changes after a start. -/
def changesFrom : BitVec 32 → List RegRule → List RegRule
  | _, [] => []
  | last, r :: rs =>
    if last ≠ r.startFreqKhz then r :: changesFrom r.startFreqKhz rs else changesFrom last rs

theorem changesFrom_eq (last : BitVec 32) (rules : List RegRule) :
    changesFrom last rules = ((rules.zip (last :: rules.map RegRule.startFreqKhz)).filter
      fun p => p.1.startFreqKhz ≠ p.2).map Prod.fst := by
  induction rules generalizing last with
  | nil => rfl
  | cons r rs ih =>
    rw [changesFrom, List.map_cons, List.zip_cons_cons, List.filter_cons]
    by_cases h : last = r.startFreqKhz
    · rw [if_neg (not_not.mpr h), if_neg (by simp [h]), ih, h]
    · rw [if_pos h, if_pos (by simpa using Ne.symm h), ih, List.map_cons]

theorem mem_of_mem_changes {last : BitVec 32} {rules : List RegRule} {r : RegRule}
    (h : r ∈ changesFrom last rules) : r ∈ rules := by
  induction rules generalizing last with
  | nil => exact h
  | cons r' rs ih =>
    rw [changesFrom] at h
    split at h
    · rcases List.mem_cons.mp h with rfl | hmem
      · exact List.mem_cons_self
      · exact List.mem_cons_of_mem _ (ih hmem)
    · exact List.mem_cons_of_mem _ (ih h)

/-- Another start before them is at most one change more. -/
theorem length_changesFrom_le (a b : BitVec 32) (rules : List RegRule) :
    (changesFrom a rules).length ≤ (changesFrom b rules).length + 1 := by
  induction rules generalizing a b with
  | nil => exact Nat.zero_le _
  | cons r rs ih =>
    rw [changesFrom, changesFrom]
    by_cases ha : a = r.startFreqKhz
    · rw [if_neg (not_not.mpr ha)]
      by_cases hb : b = r.startFreqKhz
      · rw [if_neg (not_not.mpr hb)]
        exact ih a b
      · rw [if_pos hb, ha, List.length_cons]
        omega
    · rw [if_pos ha, List.length_cons]
      by_cases hb : b = r.startFreqKhz
      · rw [if_neg (not_not.mpr hb), hb]
      · rw [if_pos hb, List.length_cons]
        omega

/-- Fewer rules do not change more often. -/
theorem length_changesFrom_sublist {rules rules' : List RegRule} (h : rules'.Sublist rules)
    (last : BitVec 32) : (changesFrom last rules').length ≤ (changesFrom last rules).length := by
  induction h generalizing last with
  | slnil => exact le_rfl
  | cons r _ ih =>
    rw [changesFrom]
    split
    · rw [List.length_cons]
      exact (ih last).trans (length_changesFrom_le _ _ _)
    · exact ih last
  | cons_cons r _ ih =>
    rw [changesFrom, changesFrom]
    split
    · rw [List.length_cons, List.length_cons]
      exact Nat.succ_le_succ (ih _)
    · exact ih last

theorem rulesOf_cons (build : Build) (chan : Channel) (chans : List Channel) :
    rulesOf build (chan :: chans) = match build.regRule chan with
      | none => rulesOf build chans
      | some r => r :: rulesOf build chans := by
  rw [rulesOf, List.filterMap_cons]
  cases build.regRule chan <;> rfl

variable {build : Build}

/-- The count and the frequencies of a band. -/
theorem countBand_eq (band : Band) (chans : List Channel) (last : BitVec 32) (nRules : ℕ)
    (info : ChInfo) : countBand build band chans last (nRules, info) =
      (run (fun i c => saveChInfo band c i) info (ruled build chans)).map
        fun i => (nRules + (changesFrom last (rulesOf build chans)).length, i) := by
  induction chans generalizing last nRules info with
  | nil => rfl
  | cons chan chans ih =>
    rw [countBand, rulesOf_cons, ruled, List.filter_cons]
    cases hrule : build.regRule chan with
    | none => exact ih last nRules info
    | some rule =>
      rw [if_pos (by rfl)]
      dsimp only
      rw [run, changesFrom]
      cases saveChInfo band chan info with
      | error f => rfl
      | ok info =>
        change (if last ≠ rule.startFreqKhz then _ else _) = (run _ info _).map _
        split
        · rw [ih, List.length_cons, Nat.add_right_comm, Nat.add_assoc]
          rfl
        · exact ih last nRules info

theorem addChannel_room {channels : List (BitVec 32)} (freq : BitVec 32)
    (h : channels.length < TOTAL_2G_5G_CHANNEL_NUM) :
    addChannel channels freq = .ok (channels ++ [freq]) := if_pos h

theorem addChannel_full {channels : List (BitVec 32)} (freq : BitVec 32)
    (h : ¬ channels.length < TOTAL_2G_5G_CHANNEL_NUM) :
    addChannel channels freq = .error .writeOutside := if_neg h

theorem save_band2 (chans : List Channel) (l a b : List (BitVec 32))
    (hl : l.length ≤ TOTAL_2G_5G_CHANNEL_NUM) :
    run (fun i c => saveChInfo .band2ghz c i) ⟨l, a, b⟩ chans =
      if l.length + chans.length ≤ TOTAL_2G_5G_CHANNEL_NUM then
        .ok ⟨l ++ chans.map Channel.centerFreq, a, b⟩
      else .error .writeOutside := by
  induction chans generalizing l with
  | nil =>
    rw [List.length_nil, Nat.add_zero, if_pos hl, List.map_nil, List.append_nil]
    rfl
  | cons c cs ih =>
    rw [run, saveChInfo]
    by_cases hroom : l.length < TOTAL_2G_5G_CHANNEL_NUM
    · rw [addChannel_room _ hroom]
      refine (ih (l ++ [c.centerFreq]) (by rw [List.length_append]; exact hroom)).trans ?_
      rw [List.length_append, List.length_singleton, List.length_cons, List.append_assoc,
        Nat.add_assoc, Nat.add_comm 1]
      rfl
    · rw [addChannel_full _ hroom, if_neg (by rw [List.length_cons]; omega)]
      rfl

theorem save_band5 (chans : List Channel) (l a b : List (BitVec 32))
    (ha : a.length ≤ TOTAL_2G_5G_CHANNEL_NUM) (hb : b.length ≤ TOTAL_2G_5G_CHANNEL_NUM) :
    run (fun i c => saveChInfo .band5ghz c i) ⟨l, a, b⟩ chans =
      if a.length + (chans.filter fun c => !c.radar).length ≤ TOTAL_2G_5G_CHANNEL_NUM ∧
          b.length + (chans.filter (·.radar)).length ≤ TOTAL_2G_5G_CHANNEL_NUM then
        .ok ⟨l, a ++ (chans.filter fun c => !c.radar).map Channel.centerFreq,
          b ++ (chans.filter (·.radar)).map Channel.centerFreq⟩
      else .error .writeOutside := by
  induction chans generalizing a b with
  | nil =>
    rw [if_pos ⟨ha, hb⟩]
    simp only [List.filter_nil, List.map_nil, List.append_nil]
    rfl
  | cons c cs ih =>
    rw [run, saveChInfo, List.filter_cons, List.filter_cons]
    cases hradar : c.radar with
    | true =>
      by_cases hroom : b.length < TOTAL_2G_5G_CHANNEL_NUM
      · rw [if_pos rfl, addChannel_room _ hroom]
        refine (ih a (b ++ [c.centerFreq]) ha (by rw [List.length_append]; exact hroom)).trans ?_
        rw [List.length_append, List.length_singleton, List.append_assoc, Nat.add_assoc,
          Nat.add_comm 1]
        rfl
      · rw [if_pos rfl, addChannel_full _ hroom, if_neg]
        · rfl
        · simp only [if_true, List.length_cons]
          omega
    | false =>
      by_cases hroom : a.length < TOTAL_2G_5G_CHANNEL_NUM
      · rw [if_neg (by decide), addChannel_room _ hroom]
        refine (ih (a ++ [c.centerFreq]) b (by rw [List.length_append]; exact hroom) hb).trans ?_
        rw [List.length_append, List.length_singleton, List.append_assoc, Nat.add_assoc,
          Nat.add_comm 1]
        rfl
      · rw [if_neg (by decide), addChannel_full _ hroom, if_neg]
        · rfl
        · simp only [Bool.not_false, if_true, List.length_cons]
          omega

/-- The rules that are filled in for a band, when the count has room for them. -/
theorem fillBand_eq {nRules : ℕ} (chans : List Channel) (last : BitVec 32) (rules : List RegRule)
    (h : rules.length + (changesFrom last (rulesOf build (enabled chans))).length ≤ nRules) :
    fillBand build nRules chans last rules =
      rules ++ changesFrom last (rulesOf build (enabled chans)) := by
  induction chans generalizing last rules with
  | nil => exact (List.append_nil _).symm
  | cons chan chans ih =>
    rw [fillBand]
    rw [enabled, List.filter_cons] at h ⊢
    cases hdisabled : chan.disabled with
    | true =>
      rw [hdisabled] at h
      exact ih last rules h
    | false =>
      rw [hdisabled] at h
      rw [if_neg (by decide)]
      simp only [Bool.not_false, if_true] at h ⊢
      rw [rulesOf_cons] at h ⊢
      cases hrule : build.regRule chan with
      | none =>
        rw [hrule] at h
        exact ih last rules h
      | some rule =>
        rw [hrule] at h
        dsimp only at h ⊢
        rw [changesFrom] at h ⊢
        by_cases hlast : last = rule.startFreqKhz
        · rw [if_neg (not_not.mpr hlast)] at h
          rw [if_neg fun h => h.1 hlast, if_neg (not_not.mpr hlast)]
          exact ih last rules h
        · rw [if_pos hlast, List.length_cons] at h
          rw [if_pos ⟨hlast, by omega⟩, if_pos hlast,
            ih _ _ (by rw [List.length_append, List.length_singleton]; unfold enabled; omega),
            List.append_assoc]
          rfl

theorem changes_eq (rules : List RegRule) : changes rules = changesFrom 0 rules :=
  (changesFrom_eq 0 rules).symm

/-- The enabled channels do not change the start more often than all. -/
theorem changes_enabled_le (build : Build) (chans : List Channel) :
    (changes (rulesOf build (enabled chans))).length ≤ (changes (rulesOf build chans)).length := by
  rw [changes_eq, changes_eq]
  exact length_changesFrom_sublist (List.filter_sublist.filterMap build.regRule) 0

def Room (info : ChInfo) : Prop :=
  info.ch2g4.length ≤ TOTAL_2G_5G_CHANNEL_NUM ∧
    info.ch5gWithoutDfs.length ≤ TOTAL_2G_5G_CHANNEL_NUM ∧
    info.ch5gDfs.length ≤ TOTAL_2G_5G_CHANNEL_NUM

variable {band2 band5 : List Channel}

theorem save_band2_nil (chans : List Channel) :
    run (fun i c => saveChInfo .band2ghz c i) ⟨[], [], []⟩ chans =
      if chans.length ≤ TOTAL_2G_5G_CHANNEL_NUM then .ok ⟨chans.map Channel.centerFreq, [], []⟩
      else .error .writeOutside := by
  rw [save_band2 _ _ _ _ (Nat.zero_le _), List.length_nil, Nat.zero_add, List.nil_append]

theorem save_band5_nil (chans : List Channel) (l : List (BitVec 32)) :
    run (fun i c => saveChInfo .band5ghz c i) ⟨l, [], []⟩ chans =
      if (chans.filter fun c => !c.radar).length ≤ TOTAL_2G_5G_CHANNEL_NUM ∧
          (chans.filter (·.radar)).length ≤ TOTAL_2G_5G_CHANNEL_NUM then
        .ok ⟨l, (chans.filter fun c => !c.radar).map Channel.centerFreq,
          (chans.filter (·.radar)).map Channel.centerFreq⟩
      else .error .writeOutside := by
  rw [save_band5 _ _ _ _ (Nat.zero_le _) (Nat.zero_le _), List.length_nil, Nat.zero_add,
    Nat.zero_add, List.nil_append, List.nil_append]

/-- The domain of the two passes. -/
theorem regNotify_room (h : Room (expectedInfo build band2 band5)) :
    regNotify build band2 band5 =
      .ok ⟨(changes (rulesOf build band2)).length + (changes (rulesOf build band5)).length,
        changes (rulesOf build (enabled band2)) ++ changes (rulesOf build (enabled band5)),
        expectedInfo build band2 band5⟩ := by
  obtain ⟨h2, h5, hdfs⟩ := h
  simp only [expectedInfo, List.length_map] at h2 h5 hdfs
  have hle2 := changes_enabled_le build band2
  have hle5 := changes_enabled_le build band5
  have hcount2 : countBand build .band2ghz band2 0 (0, ⟨[], [], []⟩) =
      .ok ((changes (rulesOf build band2)).length,
        ⟨(ruled build band2).map Channel.centerFreq, [], []⟩) := by
    rw [countBand_eq, save_band2_nil, if_pos h2, Nat.zero_add, ← changes_eq]
    rfl
  have hcount5 : countBand build .band5ghz band5 0 ((changes (rulesOf build band2)).length,
        ⟨(ruled build band2).map Channel.centerFreq, [], []⟩) =
      .ok ((changes (rulesOf build band2)).length + (changes (rulesOf build band5)).length,
        expectedInfo build band2 band5) := by
    rw [countBand_eq, save_band5_nil, if_pos ⟨h5, hdfs⟩, ← changes_eq]
    rfl
  have hfill2 : fillBand build ((changes (rulesOf build band2)).length +
      (changes (rulesOf build band5)).length) band2 0 [] =
        changes (rulesOf build (enabled band2)) := by
    rw [fillBand_eq _ _ _ (by rw [← changes_eq, List.length_nil]; omega), ← changes_eq,
      List.nil_append]
  have hfill5 : fillBand build ((changes (rulesOf build band2)).length +
      (changes (rulesOf build band5)).length) band5 0 (changes (rulesOf build (enabled band2))) =
        changes (rulesOf build (enabled band2)) ++ changes (rulesOf build (enabled band5)) := by
    rw [fillBand_eq _ _ _ (by rw [← changes_eq]; omega), ← changes_eq]
  rw [regNotify, hcount2]
  change (countBand build .band5ghz band5 0 _ >>= _) = _
  rw [hcount5]
  change Except.ok (Outcome.mk _ (fillBand _ _ band5 0 (fillBand _ _ band2 0 [])) _) = _
  rw [hfill2, hfill5]

/-- A list that is too long is written behind its end. -/
theorem regNotify_full (h : ¬ Room (expectedInfo build band2 band5)) :
    regNotify build band2 band5 = .error .writeOutside := by
  rw [regNotify, countBand_eq, save_band2_nil]
  by_cases h2 : (ruled build band2).length ≤ TOTAL_2G_5G_CHANNEL_NUM
  · rw [if_pos h2]
    change (countBand build .band5ghz band5 0 _ >>= _) = _
    rw [countBand_eq, save_band5_nil, if_neg]
    · rfl
    · intro h5
      apply h
      rw [Room, expectedInfo]
      simp only [List.length_map]
      exact ⟨h2, h5⟩
  · rw [if_neg h2]
    rfl

/-- The rules of the changes are those of the enabled channels, each once, exactly if each stands at
one change. -/
theorem once_iff (l l' : List RegRule) :
    ((changes l ++ changes l').Nodup ∧ ∀ r, r ∈ changes l ++ changes l' ↔ r ∈ l ∨ r ∈ l') ↔
      ∀ r, r ∈ l ∨ r ∈ l' → (changes l ++ changes l').count r = 1 := by
  have hsub : ∀ r, r ∈ changes l ++ changes l' → r ∈ l ∨ r ∈ l' := by
    intro r hr
    rw [changes_eq, changes_eq] at hr
    exact (List.mem_append.mp hr).imp mem_of_mem_changes mem_of_mem_changes
  constructor
  · rintro ⟨hnodup, hmem⟩ r hr
    exact List.count_eq_one_of_mem hnodup ((hmem r).mpr hr)
  · intro h
    refine ⟨List.nodup_iff_count_le_one.mpr fun r => ?_, fun r => ⟨hsub r, fun hr => ?_⟩⟩
    · by_cases hr : r ∈ changes l ++ changes l'
      · exact (h r (hsub r hr)).le
      · rw [List.count_eq_zero_of_not_mem hr]
        exact Nat.zero_le 1
    · apply List.count_pos_iff.mp
      rw [h r hr]
      exact Nat.one_pos

/-- The domain is the right one, and the lists hold the channels, exactly under the conditions. -/
theorem reg_notify_iff (build : Build) (band2 band5 : List Channel) :
    (∃ o, regNotify build band2 band5 = .ok o ∧ Right build band2 band5 o) ↔
      Fine build band2 band5 := by
  constructor
  · rintro ⟨o, ho, hright⟩
    have hroom : Room (expectedInfo build band2 band5) := by
      by_contra hfull
      rw [regNotify_full hfull] at ho
      cases ho
    rw [regNotify_room hroom] at ho
    obtain rfl := Except.ok.inj ho
    have hcount := hright.count
    dsimp only at hcount
    rw [List.length_append] at hcount
    exact ⟨hcount, (once_iff _ _).mp ⟨hright.nodup, hright.rules⟩, hroom⟩
  · intro hfine
    obtain ⟨hnodup, hrules⟩ := (once_iff _ _).mpr hfine.once
    exact ⟨_, regNotify_room hfine.room,
      { count := by rw [List.length_append]; exact hfine.agree
        nodup := hnodup
        rules := hrules
        info := rfl }⟩

/-- A rule with a start, and two channels: the one with the second rule is disabled. -/
def ruleAt (start : BitVec 32) : RegRule := ⟨start, start + 40000, 20000, 0, 20, 0, 0⟩

/-- The rule of the disabled channel is counted and not filled in. -/
theorem disabled_rule_counted : ¬ ∃ o,
    regNotify (.standard fun f => some (ruleAt (f - 20000)))
      [⟨2412, false, false⟩, ⟨2467, true, false⟩] [] = .ok o ∧
      Right (.standard fun f => some (ruleAt (f - 20000)))
        [⟨2412, false, false⟩, ⟨2467, true, false⟩] [] o := by
  rintro ⟨o, ho, hright⟩
  obtain rfl := Except.ok.inj ho
  exact absurd hright.count (by decide)

end Uwe5631.RegNotify
