import Uwe5631.CreditColours
import Uwe5631.FallibleRuns

/-!
# The ledger of credits

Credits are added and reset by the firmware, reserved and charged by the transmit thread and
dropped when interfaces are closed. The ledger is balanced while no such step comes between a
reservation and the charge for it.
-/
namespace Uwe5631.Credit
open FallibleRuns

variable {tx : TxMsg} {priv : Priv} {i c : Color} {is : List Color} {sendNum : ℤ}

/-- The bytes of a credit event or of a data descriptor, added to the colours. -/
def TxMsg.addCredit (tx : TxMsg) (flow : Color → BitVec 8) : TxMsg :=
  { tx with
    flowCtrl := fun i => { tx.flowCtrl i with
      flow := (tx.flowCtrl i).flow + (flow i).setWidth 32 }
    ringCp := tx.ringCp + BitVec.ofNat 64 (∑ i, (flow i).toNat) }

/-- One turn of the loop that resets the credits. -/
def TxMsg.resetColor (tx : TxMsg) (i : Color) : TxMsg :=
  { tx with
    ringCp := if tx.ringCp ≠ 0 then tx.ringCp - BitVec.ofInt 64 (tx.flowCtrl i).flow.toInt
      else tx.ringCp
    flowCtrl := Function.update tx.flowCtrl i { tx.flowCtrl i with flow := 0 }
    colorNum := Function.update tx.colorNum i 0 }

def TxMsg.resetCredit (tx : TxMsg) : TxMsg :=
  (List.finRange MAX_COLOR_BIT).foldl TxMsg.resetColor tx

/-- `sprdwl_sdio_process_credit` for a credit event (`ret == -1`) or the credits of a data frame. -/
def sprdwlSdioProcessCredit (tx : TxMsg) (event : Bool) (flow : Color → BitVec 8) : TxMsg :=
  if ∑ i, (flow i).toNat = 0 then (if event then tx.resetCredit else tx) else tx.addCredit flow

/-- `handle_tx_status_after_close` for an interface of a mode. -/
def handleTxStatusAfterClose (tx : TxMsg) (priv : Priv) (mode : Mode) : TxMsg :=
  if ∀ m, m ≠ SPRDWL_MODE_NONE → priv.fwStat m = .close then
    { tx with
      flowCtrl := fun _ => ⟨SPRDWL_MODE_NONE, 0⟩
      ringCp := 0
      ringAp := 0 }
  else
    { tx with flowCtrl := fun i =>
        if (tx.flowCtrl i).mode = mode then { tx.flowCtrl i with mode := SPRDWL_MODE_NONE }
        else tx.flowCtrl i }

/-- `sprdwl_fc_add_share_credit` -/
def sprdwlFcAddShareCredit (tx : TxMsg) (mode : Mode) : TxMsg :=
  ((List.finRange MAX_COLOR_BIT).find? fun i => (tx.flowCtrl i).mode == mode).elim tx fun i =>
    tx.setMode i SPRDWL_MODE_NONE

/-! ## Runs -/

/-- The state of the flow control. A batch that is being sent has reserved credits. -/
structure State where
  tx : TxMsg
  priv : Priv
  batch : Option ℤ

inductive Event where
  | processCredit (event : Bool) (flow : Color → BitVec 8)
  | openMode (mode : Mode)
  | closingMode (mode : Mode)
  | closeMode (mode : Mode)
  | shareCredit (mode : Mode)
  | testSendNum (mode : Mode) (dataNum : ℤ)
  | getSendNum (mode : Mode) (dataNum : ℕ)
  | txReturn (ret : ℤ)

/-- The transmit thread has a batch under way, or none. -/
inductive Fault where
  | busy
  | noBatch

def Priv.setStat (priv : Priv) (mode : Mode) (stat : FwStat) : Priv :=
  { priv with fwStat := Function.update priv.fwStat mode stat }

def step (s : State) : Event → Except Fault State
  | .processCredit event flow => .ok { s with tx := sprdwlSdioProcessCredit s.tx event flow }
  | .openMode mode => .ok { s with priv := s.priv.setStat mode .opened }
  | .closingMode mode => .ok { s with priv := s.priv.setStat mode .closing }
  | .closeMode mode =>
    let priv := s.priv.setStat mode .close
    .ok { s with tx := handleTxStatusAfterClose s.tx priv mode, priv := priv }
  | .shareCredit mode => .ok { s with tx := sprdwlFcAddShareCredit s.tx mode }
  | .testSendNum mode dataNum => .ok { s with tx := (sprdwlFcTestSendNum s.tx s.priv mode dataNum).1 }
  | .getSendNum mode dataNum =>
    if s.batch.isSome then .error .busy
    else
      let r := sprdwlFcGetSendNum s.tx s.priv mode dataNum
      .ok { s with tx := r.1, batch := if r.2 ≤ 0 then none else some r.2 }
  | .txReturn ret =>
    match s.batch with
    | none => .error .noBatch
    | some sendNum =>
      .ok { s with tx := sprdwlHandleTxReturn s.tx s.priv sendNum ret, batch := none }

/-- After `sprdwl_tx_init`. -/
def State.init (hwType : HwType) (creditCapa : CreditCapa) : State where
  tx := ⟨0, 0, fun _ => ⟨SPRDWL_MODE_NONE, 0⟩, fun _ => 0⟩
  priv := ⟨hwType, creditCapa, fun _ => .close⟩
  batch := none

/-- No colour is overdrawn, and what was received and not charged is what is available. -/
structure Balanced (tx : TxMsg) : Prop where
  nonneg : ∀ c, 0 ≤ (tx.flowCtrl c).flow.toInt
  ring : tx.ringCp - tx.ringAp = BitVec.ofInt 64 (∑ c, (tx.flowCtrl c).flow.toInt)

/-! ## Steps that move no credit -/

theorem Balanced.of_same {tx' : TxMsg} (h : Balanced tx)
    (hflow : ∀ c, (tx'.flowCtrl c).flow = (tx.flowCtrl c).flow) (hcp : tx'.ringCp = tx.ringCp)
    (hap : tx'.ringAp = tx.ringAp) : Balanced tx' := by
  refine ⟨fun c => ?_, ?_⟩
  · rw [hflow c]
    exact h.nonneg c
  · simp only [hflow, hcp, hap]
    exact h.ring

theorem sharedNumLoop_same (num shared : ℕ) (tx : TxMsg) :
    (sharedNumLoop num is shared tx).1.flowCtrl = tx.flowCtrl ∧
      (sharedNumLoop num is shared tx).1.ringCp = tx.ringCp ∧
      (sharedNumLoop num is shared tx).1.ringAp = tx.ringAp := by
  induction is generalizing shared tx with
  | nil => exact ⟨rfl, rfl, rfl⟩
  | cons i is ih =>
    rw [sharedNumLoop]
    split
    · split
      · exact ⟨rfl, rfl, rfl⟩
      · exact ih ..
    · exact ih ..

theorem reserve_same (tx : TxMsg) (i : Color) (dataNum : ℕ) :
    (tx.reserve i dataNum).1.flowCtrl = tx.flowCtrl ∧ (tx.reserve i dataNum).1.ringCp = tx.ringCp ∧
      (tx.reserve i dataNum).1.ringAp = tx.ringAp := by
  rw [TxMsg.reserve]
  dsimp only
  split
  · exact ⟨rfl, rfl, rfl⟩
  · exact sharedNumLoop_same ..

theorem Balanced.getSendNum (h : Balanced tx) (priv : Priv) (mode : Mode) (dataNum : ℕ) :
    Balanced (sprdwlFcGetSendNum tx priv mode dataNum).1 := by
  have hfound := (findColorPerMode_spec tx.clearColorNum priv mode).1
  have hclear : Balanced (sprdwlFcFindColorPerMode tx.clearColorNum priv mode).1 :=
    h.of_same hfound.flow hfound.ringCp hfound.ringAp
  rw [sprdwlFcGetSendNum]
  split
  · exact h
  · split
    · exact h
    · dsimp only
      split
      · exact h
      · split
        · rename_i i _
          generalize (if 100 < dataNum then 100 else dataNum) = num
          obtain ⟨hctrl, hcp, hap⟩ := reserve_same
            (sprdwlFcFindColorPerMode tx.clearColorNum priv mode).1 i num
          have hreserved := hclear.of_same (fun c => by rw [hctrl]) hcp hap
          split <;> exact hreserved
        · exact hclear

theorem Balanced.testSendNum (h : Balanced tx) (priv : Priv) (mode : Mode) (dataNum : ℤ) :
    Balanced (sprdwlFcTestSendNum tx priv mode dataNum).1 := by
  have hfound := (findColorPerMode_spec tx priv mode).1
  have hsame := h.of_same hfound.flow hfound.ringCp hfound.ringAp
  rw [sprdwlFcTestSendNum]
  split
  · exact h
  · split
    · exact h
    · dsimp only
      split
      · exact h
      · split <;> exact hsame

theorem Balanced.shareCredit (h : Balanced tx) (mode : Mode) :
    Balanced (sprdwlFcAddShareCredit tx mode) := by
  rw [sprdwlFcAddShareCredit]
  cases (List.finRange MAX_COLOR_BIT).find? fun i => (tx.flowCtrl i).mode == mode with
  | none => exact h
  | some i => exact h.of_same (fun c => setMode_flow ..) rfl rfl

/-- Closing the last interface drops all credits. -/
theorem Balanced.afterClose (h : Balanced tx) (priv : Priv) (mode : Mode) :
    Balanced (handleTxStatusAfterClose tx priv mode) := by
  rw [handleTxStatusAfterClose]
  split
  · exact ⟨fun _ => le_refl _, by simp⟩
  · refine h.of_same (fun c => ?_) rfl rfl
    dsimp only
    split <;> rfl

/-! ## Credits from the firmware -/

/-- The credits of a colour, as they are added to and subtracted from the ring counters. -/
def TxMsg.flowInt (tx : TxMsg) (c : Color) : BitVec 64 := BitVec.ofInt 64 (tx.flowCtrl c).flow.toInt

theorem ofInt_sum (f : Color → ℤ) (is : List Color) :
    BitVec.ofInt 64 (is.map f).sum = (is.map fun c => BitVec.ofInt 64 (f c)).sum := by
  induction is with
  | nil => rfl
  | cons i is ih => rw [List.map_cons, List.sum_cons, BitVec.ofInt_add, ih, List.map_cons, List.sum_cons]

theorem toInt_add_byte {x : BitVec 32} (hx : 0 ≤ x.toInt) (b : BitVec 8) :
    (x + b.setWidth 32).toInt =
      if x.toInt + b.toNat < 2 ^ 31 then x.toInt + b.toNat else x.toInt + b.toNat - 2 ^ 32 := by
  have hbyte : (b.setWidth 32).toNat = b.toNat := by
    rw [BitVec.toNat_setWidth]
    exact Nat.mod_eq_of_lt (b.isLt.trans (by decide))
  have hint := toInt_eq_toNat hx
  have hsmall : x.toInt < 2 ^ 31 := BitVec.toInt_lt
  have hbound := b.isLt
  have hsum : (x + b.setWidth 32).toNat = x.toNat + b.toNat := by
    rw [BitVec.toNat_add, hbyte]
    exact Nat.mod_eq_of_lt (by omega)
  rw [BitVec.toInt_eq_toNat_cond, hsum]
  split_ifs <;> omega

/-- Adding credits keeps the balance unless a colour's count overflows. -/
theorem addCredit_balanced_iff (h : Balanced tx) (flow : Color → BitVec 8) :
    Balanced (tx.addCredit flow) ↔ ∀ c, (tx.flowCtrl c).flow.toInt + (flow c).toNat < 2 ^ 31 := by
  have hflow : ∀ c, ((tx.addCredit flow).flowCtrl c).flow.toInt =
      if (tx.flowCtrl c).flow.toInt + (flow c).toNat < 2 ^ 31 then
        (tx.flowCtrl c).flow.toInt + (flow c).toNat
      else (tx.flowCtrl c).flow.toInt + (flow c).toNat - 2 ^ 32 :=
    fun c => toInt_add_byte (h.nonneg c) (flow c)
  constructor
  · intro h' c
    by_contra hover
    have hneg := h'.nonneg c
    rw [hflow, if_neg hover] at hneg
    have hsmall : (tx.flowCtrl c).flow.toInt < 2 ^ 31 := BitVec.toInt_lt
    have hbound := (flow c).isLt
    omega
  · intro hfits
    refine ⟨fun c => ?_, ?_⟩
    · rw [hflow, if_pos (hfits c)]
      exact add_nonneg (h.nonneg c) (Int.natCast_nonneg _)
    · have hsum : ∑ c, ((tx.addCredit flow).flowCtrl c).flow.toInt =
          ∑ c, (tx.flowCtrl c).flow.toInt + ((∑ c, (flow c).toNat : ℕ) : ℤ) := by
        rw [Nat.cast_sum, ← Finset.sum_add_distrib]
        exact Finset.sum_congr rfl fun c _ => by rw [hflow, if_pos (hfits c)]
      have hcp : (tx.addCredit flow).ringCp = tx.ringCp + BitVec.ofNat 64 (∑ c, (flow c).toNat) := rfl
      have hap : (tx.addCredit flow).ringAp = tx.ringAp := rfl
      rw [hsum, BitVec.ofInt_add, ← h.ring, BitVec.ofInt_natCast, hcp, hap]
      ring

/-- The loop that resets the credits never finds `ring_cp` 0 at a colour with credits left. -/
def ResetSubtracts (tx : TxMsg) (is : List Color) : Prop :=
  ∀ before c after, is = before ++ c :: after → (tx.flowCtrl c).flow ≠ 0 →
    tx.ringCp ≠ (before.map tx.flowInt).sum

theorem ofInt_inj {x y : ℤ} (hx : |x| < 2 ^ 62) (hy : |y| < 2 ^ 62)
    (h : BitVec.ofInt 64 x = BitVec.ofInt 64 y) : x = y := by
  obtain ⟨hx, hx'⟩ := abs_lt.mp hx
  obtain ⟨hy, hy'⟩ := abs_lt.mp hy
  have hint := congrArg BitVec.toInt h
  rw [BitVec.toInt_ofInt, BitVec.toInt_ofInt] at hint
  rw [Int.bmod_eq_of_le (by norm_num; omega) (by norm_num; omega),
    Int.bmod_eq_of_le (by norm_num; omega) (by norm_num; omega)] at hint
  exact hint

theorem resetColor_ne (tx : TxMsg) {i c : Color} (hc : c ≠ i) :
    (tx.resetColor i).flowCtrl c = tx.flowCtrl c := Function.update_of_ne hc ..

theorem resetColor_flowInt (hi : i ∉ is) :
    is.map (tx.resetColor i).flowInt = is.map tx.flowInt := by
  refine List.map_congr_left fun c hc => ?_
  rw [TxMsg.flowInt, TxMsg.flowInt, resetColor_ne tx (ne_of_mem_of_not_mem hc hi)]

theorem resetColor_ringCp (h : (tx.flowCtrl i).flow ≠ 0 → tx.ringCp ≠ 0) :
    (tx.resetColor i).ringCp = tx.ringCp - tx.flowInt i := by
  rw [TxMsg.resetColor]
  dsimp only
  split
  · rfl
  · rename_i hzero
    have hcp : tx.ringCp = 0 := not_not.mp hzero
    have hflow : (tx.flowCtrl i).flow = 0 := not_not.mp fun hne => h hne hcp
    rw [TxMsg.flowInt, hflow]
    simp

theorem resetSubtracts_cons (hi : i ∉ is) :
    ResetSubtracts tx (i :: is) ↔
      ((tx.flowCtrl i).flow ≠ 0 → tx.ringCp ≠ 0) ∧ ResetSubtracts (tx.resetColor i) is := by
  constructor
  · intro h
    have hfirst : (tx.flowCtrl i).flow ≠ 0 → tx.ringCp ≠ 0 := h [] i is rfl
    refine ⟨hfirst, fun before c after hsplit hne => ?_⟩
    have hmem : c ∈ is := by simp [hsplit]
    have hbefore : i ∉ before := fun hb => hi (by simp [hsplit, hb])
    rw [resetColor_ne tx (ne_of_mem_of_not_mem hmem hi)] at hne
    have hgo := h (i :: before) c after (by rw [hsplit]; rfl) hne
    rw [List.map_cons, List.sum_cons] at hgo
    rw [resetColor_ringCp hfirst, resetColor_flowInt hbefore]
    exact fun heq => hgo (by rw [← heq]; ring)
  · rintro ⟨hfirst, hrest⟩ before c after hsplit hne
    cases before with
    | nil =>
      obtain ⟨rfl, -⟩ := List.cons.inj hsplit
      exact hfirst hne
    | cons j before =>
      obtain ⟨rfl, hbehind⟩ := List.cons.inj hsplit
      have hmem : c ∈ is := by simp [hbehind]
      have hbefore : i ∉ before := fun hb => hi (by simp [hbehind, hb])
      have hgo := hrest before c after hbehind (by
        rw [resetColor_ne tx (ne_of_mem_of_not_mem hmem hi)]
        exact hne)
      rw [resetColor_ringCp hfirst, resetColor_flowInt hbefore] at hgo
      rw [List.map_cons, List.sum_cons]
      exact fun heq => hgo (by rw [heq]; ring)

theorem reset_fields (is : List Color) (tx : TxMsg) :
    (is.foldl TxMsg.resetColor tx).ringAp = tx.ringAp ∧
      ∀ c, (c ∈ is ∨ (tx.flowCtrl c).flow = 0) →
        ((is.foldl TxMsg.resetColor tx).flowCtrl c).flow = 0 := by
  induction is generalizing tx with
  | nil => exact ⟨rfl, fun c hc => hc.resolve_left List.not_mem_nil⟩
  | cons i is ih =>
    obtain ⟨hap, hflow⟩ := ih (tx.resetColor i)
    refine ⟨hap, fun c hc => hflow c ?_⟩
    by_cases hci : c = i
    · subst hci
      exact .inr (congrArg FlowControl.flow (Function.update_self c _ tx.flowCtrl))
    · rw [resetColor_ne tx hci]
      exact hc.imp_left fun hmem => (List.mem_cons.mp hmem).resolve_left hci

theorem reset_ringCp (hnodup : is.Nodup) (h : ResetSubtracts tx is) :
    (is.foldl TxMsg.resetColor tx).ringCp = tx.ringCp - (is.map tx.flowInt).sum := by
  induction is generalizing tx with
  | nil => simp
  | cons i is ih =>
    obtain ⟨hi, hrest⟩ := List.nodup_cons.mp hnodup
    obtain ⟨hfirst, htail⟩ := (resetSubtracts_cons hi).mp h
    rw [List.foldl_cons, ih hrest htail, resetColor_ringCp hfirst, resetColor_flowInt hi,
      List.map_cons, List.sum_cons]
    ring

theorem reset_stays_zero (is : List Color) (h : tx.ringCp = 0) :
    (is.foldl TxMsg.resetColor tx).ringCp = 0 := by
  induction is generalizing tx with
  | nil => exact h
  | cons i is ih =>
    refine ih ?_
    rw [TxMsg.resetColor]
    dsimp only
    rw [if_neg (not_not.mpr h), h]

theorem reset_skips (hnodup : is.Nodup) (h : ¬ ResetSubtracts tx is) :
    (is.foldl TxMsg.resetColor tx).ringCp = 0 := by
  induction is generalizing tx with
  | nil => exact absurd (fun before c after hsplit => by simp at hsplit) h
  | cons i is ih =>
    obtain ⟨hi, hrest⟩ := List.nodup_cons.mp hnodup
    rw [resetSubtracts_cons hi, not_and_or] at h
    rcases h with hfirst | htail
    · obtain ⟨-, hzero⟩ := Classical.not_imp.mp hfirst
      exact reset_stays_zero (i :: is) (not_not.mp hzero)
    · exact ih hrest htail

theorem Balanced.ring_list (h : Balanced tx) :
    tx.ringCp - tx.ringAp = ((List.finRange MAX_COLOR_BIT).map tx.flowInt).sum := by
  rw [h.ring, Fin.sum_univ_def, ofInt_sum]
  rfl

theorem sum_nonneg (h : Balanced tx) (is : List Color) :
    0 ≤ (is.map fun c => (tx.flowCtrl c).flow.toInt).sum := by
  refine List.sum_nonneg fun x hx => ?_
  obtain ⟨c, -, rfl⟩ := List.mem_map.mp hx
  exact h.nonneg c

theorem abs_sum_lt (h : Balanced tx) (hlength : is.length ≤ 4) :
    |(is.map fun c => (tx.flowCtrl c).flow.toInt).sum| < 2 ^ 62 := by
  have hle : (is.map fun c => (tx.flowCtrl c).flow.toInt).sum ≤
      (is.map fun c => (tx.flowCtrl c).flow.toInt).length • (2 ^ 31 : ℤ) := by
    refine List.sum_le_card_nsmul _ _ fun x hx => ?_
    obtain ⟨c, -, rfl⟩ := List.mem_map.mp hx
    exact le_of_lt BitVec.toInt_lt
  rw [abs_of_nonneg (sum_nonneg h is)]
  rw [List.length_map, nsmul_eq_mul] at hle
  have hfour : ((is.length : ℕ) : ℤ) ≤ 4 := by exact_mod_cast hlength
  omega

/-- A reset keeps the balance unless the loop stops subtracting at a counter that is 0. -/
theorem resetCredit_balanced_iff (h : Balanced tx) :
    Balanced tx.resetCredit ↔ ResetSubtracts tx (List.finRange MAX_COLOR_BIT) := by
  obtain ⟨hap, hflow⟩ := reset_fields (List.finRange MAX_COLOR_BIT) tx
  have hzero : ∀ c, (tx.resetCredit.flowCtrl c).flow = 0 := fun c =>
    hflow c (.inl (List.mem_finRange c))
  have hring := h.ring_list
  constructor
  · intro h'
    by_contra hskip
    have hcp : tx.resetCredit.ringCp = 0 := reset_skips (List.nodup_finRange MAX_COLOR_BIT) hskip
    have hcharged := h'.ring
    simp only [hzero] at hcharged
    rw [hcp, show tx.resetCredit.ringAp = tx.ringAp from hap] at hcharged
    have hapZero : tx.ringAp = 0 := by simpa using hcharged
    rw [ResetSubtracts] at hskip
    push Not at hskip
    obtain ⟨before, c, after, hsplit, hne, hsum⟩ := hskip
    -- what is left from this colour on adds up to 0 although the colour has credits
    have hleft : BitVec.ofInt 64 ((c :: after).map fun d => (tx.flowCtrl d).flow.toInt).sum =
        BitVec.ofInt 64 0 := by
      have hall := hring
      rw [hsplit, List.map_append, List.sum_append, ← hsum, hapZero, sub_zero] at hall
      rw [ofInt_sum]
      exact (left_eq_add.mp hall).trans (by simp)
    have hlength : (c :: after).length ≤ 4 := by
      have hall : before.length + (c :: after).length = 4 := by
        rw [← List.length_append, ← hsplit, List.length_finRange]
      omega
    have hnone := ofInt_inj (abs_sum_lt h hlength) (by norm_num) hleft
    rw [List.map_cons, List.sum_cons] at hnone
    have hrest := sum_nonneg h after
    have hfirst := h.nonneg c
    have hint : (tx.flowCtrl c).flow.toInt = 0 := by omega
    exact hne (BitVec.eq_of_toInt_eq (by rw [hint]; rfl))
  · intro hsub
    refine ⟨fun c => by rw [hzero c]; exact le_refl _, ?_⟩
    have hcp : tx.resetCredit.ringCp = tx.ringCp - ((List.finRange MAX_COLOR_BIT).map tx.flowInt).sum :=
      reset_ringCp (List.nodup_finRange MAX_COLOR_BIT) hsub
    simp only [hzero]
    rw [hcp, show tx.resetCredit.ringAp = tx.ringAp from hap, ← hring]
    simp

/-! ## Charging a batch -/

/-- What a batch has reserved is still there when it is charged. -/
def Stands (tx : TxMsg) (priv : Priv) (sendNum : ℤ) : Prop :=
  if priv.creditCapa = .noCredit then BitVec.ofInt 64 sendNum = 0
  else BitVec.ofInt 64 sendNum = BitVec.ofNat 64 (∑ c, (tx.colorNum c).toNat) ∧
    ∀ c, ((tx.colorNum c).toNat : ℤ) ≤ (tx.flowCtrl c).flow.toInt

theorem toInt_sub_byte {x : BitVec 32} (hx : 0 ≤ x.toInt) (b : BitVec 8) :
    (x - b.setWidth 32).toInt = x.toInt - b.toNat := by
  have hbyte : (b.setWidth 32).toNat = b.toNat := by
    rw [BitVec.toNat_setWidth]
    exact Nat.mod_eq_of_lt (b.isLt.trans (by decide))
  have hint := toInt_eq_toNat hx
  have hsmall : x.toInt < 2 ^ 31 := BitVec.toInt_lt
  have hbound := b.isLt
  rw [BitVec.toInt_eq_toNat_cond, BitVec.toNat_sub, hbyte]
  split_ifs <;> omega

theorem handleTxReturn_toInt (h : Balanced tx) (hcapa : priv.creditCapa ≠ .noCredit) (c : Color) :
    ((sprdwlHandleTxReturn tx priv sendNum 0).flowCtrl c).flow.toInt =
      (tx.flowCtrl c).flow.toInt - (tx.colorNum c).toNat := by
  rw [sprdwlHandleTxReturn, if_neg (not_not.mpr rfl)]
  dsimp only
  rw [if_neg hcapa]
  dsimp only
  split
  · rename_i hzero
    rw [hzero]
    simp
  · exact toInt_sub_byte (h.nonneg c) (tx.colorNum c)

/-- A batch is charged to the ring counter and to the colours alike if what it reserved stands. -/
theorem handleTxReturn_balanced_iff (h : Balanced tx) :
    Balanced (sprdwlHandleTxReturn tx priv sendNum 0) ↔ Stands tx priv sendNum := by
  have hcp : (sprdwlHandleTxReturn tx priv sendNum 0).ringCp = tx.ringCp := by
    rw [sprdwlHandleTxReturn, if_neg (not_not.mpr rfl)]
    dsimp only
    split <;> rfl
  have hap : (sprdwlHandleTxReturn tx priv sendNum 0).ringAp =
      tx.ringAp + BitVec.ofInt 64 sendNum := by
    rw [sprdwlHandleTxReturn, if_neg (not_not.mpr rfl)]
    dsimp only
    split <;> rfl
  rw [Stands]
  split
  · rename_i hcapa
    have hflow : (sprdwlHandleTxReturn tx priv sendNum 0).flowCtrl = tx.flowCtrl := by
      rw [sprdwlHandleTxReturn, if_neg (not_not.mpr rfl)]
      dsimp only
      rw [if_pos hcapa]
    constructor
    · intro h'
      have hring := h'.ring
      rw [hcp, hap, hflow, ← h.ring, ← sub_sub] at hring
      exact sub_eq_self.mp hring
    · intro hnone
      refine h.of_same (fun c => by rw [hflow]) hcp ?_
      rw [hap, hnone, add_zero]
  · rename_i hcapa
    have hflow : ∀ c, ((sprdwlHandleTxReturn tx priv sendNum 0).flowCtrl c).flow.toInt =
        (tx.flowCtrl c).flow.toInt - (tx.colorNum c).toNat := handleTxReturn_toInt h hcapa
    have hsum : BitVec.ofInt 64
          (∑ c, ((sprdwlHandleTxReturn tx priv sendNum 0).flowCtrl c).flow.toInt) =
        tx.ringCp - tx.ringAp - BitVec.ofNat 64 (∑ c, (tx.colorNum c).toNat) := by
      rw [Finset.sum_congr rfl fun c _ => hflow c, Finset.sum_sub_distrib, sub_eq_add_neg,
        BitVec.ofInt_add, BitVec.ofInt_neg, ← h.ring, ← Nat.cast_sum, BitVec.ofInt_natCast,
        ← sub_eq_add_neg]
    constructor
    · intro h'
      refine ⟨?_, fun c => ?_⟩
      · have hring := h'.ring
        rw [hsum, hcp, hap, ← sub_sub] at hring
        exact sub_right_injective hring
      · have hnonneg := h'.nonneg c
        rw [hflow] at hnonneg
        omega
    · rintro ⟨hnum, hle⟩
      refine ⟨fun c => ?_, ?_⟩
      · rw [hflow]
        exact sub_nonneg.mpr (hle c)
      · rw [hsum, hcp, hap, hnum, ← sub_sub]

theorem handleTxReturn_failed_balanced (h : Balanced tx) {ret : ℤ} (hret : ret ≠ 0) :
    Balanced (sprdwlHandleTxReturn tx priv sendNum ret) := by
  rw [sprdwlHandleTxReturn, if_pos hret]
  exact h.of_same (fun _ => rfl) rfl rfl

theorem Reserved.stands {mode : Mode} {n : ℕ} (h : Balanced tx) (hreserved : Reserved tx mode n)
    (hcapa : priv.creditCapa ≠ .noCredit) : Stands tx priv n := by
  rw [Stands, if_neg hcapa, hreserved.sum]
  refine ⟨BitVec.ofInt_natCast .., fun c => ?_⟩
  rw [toInt_eq_toNat (h.nonneg c)]
  exact_mod_cast hreserved.le c

/-- A batch stands when it has just reserved its credits. -/
theorem getSendNum_stands {mode : Mode} {dataNum : ℕ} (h : Balanced tx) (hhw : priv.hwType ≠ .pcie)
    (hcapa : priv.creditCapa = .withCredit) (hnum : dataNum ≠ 0) (hmode : mode ≠ SPRDWL_MODE_NONE)
    (hcredits : tx.credits priv mode ≠ 0) :
    Stands (sprdwlFcGetSendNum tx priv mode dataNum).1 priv
      (sprdwlFcGetSendNum tx priv mode dataNum).2 := by
  obtain ⟨-, hspec, -⟩ := getSendNum_spec hhw hcapa h.nonneg hnum hmode
  obtain ⟨hsend, hreserved⟩ := hspec hcredits
  rw [hsend]
  exact hreserved.stands (h.getSendNum ..) (by simp [hcapa])

/-! ## The ledger of a run -/

/-- No count overflows, a reset finds `ring_cp` above 0 while credits are left, and a batch that
was accepted still has what it reserved. -/
def Settles (s : State) : Event → Prop
  | .processCredit event flow =>
    if ∑ i, (flow i).toNat = 0 then
      event = true → ResetSubtracts s.tx (List.finRange MAX_COLOR_BIT)
    else ∀ c, (s.tx.flowCtrl c).flow.toInt + (flow c).toNat < 2 ^ 31
  | .txReturn ret => ∀ sendNum, s.batch = some sendNum → ret = 0 → Stands s.tx s.priv sendNum
  | _ => True

/-- A step keeps the balance exactly if it settles. -/
theorem step_balanced_iff {s s' : State} {e : Event} (h : Balanced s.tx) (hs : step s e = .ok s') :
    Balanced s'.tx ↔ Settles s e := by
  cases e with
  | processCredit event flow =>
    cases hs
    dsimp only
    rw [sprdwlSdioProcessCredit, Settles]
    split
    · cases event with
      | false => simpa using h
      | true =>
        rw [if_pos rfl, resetCredit_balanced_iff h]
        simp
    · exact addCredit_balanced_iff h flow
  | openMode mode =>
    cases hs
    exact iff_of_true h True.intro
  | closingMode mode =>
    cases hs
    exact iff_of_true h True.intro
  | closeMode mode =>
    cases hs
    exact iff_of_true (h.afterClose ..) True.intro
  | shareCredit mode =>
    cases hs
    exact iff_of_true (h.shareCredit mode) True.intro
  | testSendNum mode dataNum =>
    cases hs
    exact iff_of_true (h.testSendNum ..) True.intro
  | getSendNum mode dataNum =>
    rw [step] at hs
    split at hs
    · cases hs
    · cases hs
      exact iff_of_true (h.getSendNum ..) True.intro
  | txReturn ret =>
    rw [step] at hs
    split at hs
    · cases hs
    · rename_i sendNum hbatch
      cases hs
      dsimp only
      rw [Settles, hbatch]
      by_cases hret : ret = 0
      · subst hret
        rw [handleTxReturn_balanced_iff h]
        simp
      · refine iff_of_true (handleTxReturn_failed_balanced h hret) fun _ _ hzero => ?_
        exact absurd hzero hret

theorem not_settles_runs {s : State} {e : Event} (h : ¬ Settles s e) : ∃ s', step s e = .ok s' := by
  cases e with
  | processCredit event flow => exact ⟨_, rfl⟩
  | txReturn ret =>
    cases hbatch : s.batch with
    | none =>
      refine absurd ?_ h
      intro sendNum hsome
      rw [hbatch] at hsome
      cases hsome
    | some sendNum =>
      rw [step, hbatch]
      exact ⟨_, rfl⟩
  | _ => exact absurd True.intro h

theorem init_balanced (hwType : HwType) (creditCapa : CreditCapa) :
    Balanced (State.init hwType creditCapa).tx := ⟨fun _ => le_refl _, by simp [State.init]⟩

/-- The ledger is balanced in every state of a run exactly if every step of the run settles. -/
theorem credit_ledger_iff (hwType : HwType) (creditCapa : CreditCapa) (es : List Event) :
    (∀ es₁ es₂ t, es = es₁ ++ es₂ → run step (State.init hwType creditCapa) es₁ = .ok t →
      (∀ c, 0 ≤ (t.tx.flowCtrl c).flow.toInt) ∧
      t.tx.ringCp - t.tx.ringAp = BitVec.ofInt 64 (∑ c, (t.tx.flowCtrl c).flow.toInt)) ↔
    Along step Settles (State.init hwType creditCapa) es := by
  have hbreak : ∀ (s : State) (e : Event), Balanced s.tx → ¬ Settles s e →
      ∃ s', step s e = .ok s' ∧ ¬ Balanced s'.tx := by
    intro s e hs hC
    obtain ⟨s', hstep⟩ := not_settles_runs hC
    exact ⟨s', hstep, fun hs' => hC ((step_balanced_iff hs hstep).mp hs')⟩
  rw [← along_iff_prefixes (I := fun s : State => Balanced s.tx)
    (init_balanced hwType creditCapa) (fun s e s' hs hC hstep => (step_balanced_iff hs hstep).mpr hC) hbreak]
  constructor
  · intro h es₁ es₂ t hes ht
    obtain ⟨hnonneg, hring⟩ := h es₁ es₂ t hes ht
    exact ⟨hnonneg, hring⟩
  · intro h es₁ es₂ t hes ht
    exact ⟨(h es₁ es₂ t hes ht).nonneg, (h es₁ es₂ t hes ht).ring⟩

/-- The last interface is closed while a batch of one packet is handed over. -/
def closedInFlight : List Event :=
  [.openMode SPRDWL_MODE_STATION, .processCredit true fun _ => 1,
    .getSendNum SPRDWL_MODE_STATION 1, .closeMode SPRDWL_MODE_STATION, .txReturn 0]

/-- The charge for the batch overdraws its colour. -/
theorem close_overdraws :
    ∃ t, run step (State.init .sdio .withCredit) closedInFlight = .ok t ∧
      (t.tx.flowCtrl 0).flow.toInt = -1 := ⟨_, rfl, by decide⟩

end Uwe5631.Credit
