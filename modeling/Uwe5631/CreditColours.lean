import Uwe5631.Interfaces
import Uwe5631.PrefixShares

/-!
# Credits by colour

The firmware grants credits in four colours. A colour belongs to a mode or is shared. A batch
reserves credits of its mode's colour first and of the shared colours then, its packets are
stamped with the colours they use, and an accepted batch is charged.
-/
namespace Uwe5631.Credit
open PrefixShares

abbrev MAX_COLOR_BIT : ℕ := 4

abbrev Color := Fin MAX_COLOR_BIT

/-- `hw_type` -/
inductive HwType where
  | sipc
  | sdio
  | pcie
  | usb
  deriving DecidableEq, Repr

/-- `credit_capa` -/
inductive CreditCapa where
  | withCredit
  | noCredit
  deriving DecidableEq, Repr

/-- An entry of `fw_stat[]`. -/
inductive FwStat where
  | close
  | opened
  | closing
  deriving DecidableEq, Repr

/-- The fields of `struct sprdwl_priv` that credits depend on. -/
structure Priv where
  hwType : HwType
  creditCapa : CreditCapa
  fwStat : Mode → FwStat

/-- `struct sprdwl_flow_control` -/
structure FlowControl where
  mode : Mode
  flow : BitVec 32
  deriving DecidableEq, Repr

/-- The fields of `struct sprdwl_tx_msg` that keep the credits. -/
structure TxMsg where
  ringCp : BitVec 64
  ringAp : BitVec 64
  flowCtrl : Color → FlowControl
  colorNum : Color → BitVec 8

def ENOMEM : ℤ := 12

def TxMsg.setMode (tx : TxMsg) (i : Color) (mode : Mode) : TxMsg :=
  { tx with flowCtrl := Function.update tx.flowCtrl i { tx.flowCtrl i with mode := mode } }

def TxMsg.setColorNum (tx : TxMsg) (i : Color) (num : BitVec 8) : TxMsg :=
  { tx with colorNum := Function.update tx.colorNum i num }

/-- `memset(tx_msg->color_num, 0x00, MAX_COLOR_BIT)` -/
def TxMsg.clearColorNum (tx : TxMsg) : TxMsg := { tx with colorNum := fun _ => 0 }

/-- The colours of closed modes are shared again. -/
def TxMsg.shareClosed (tx : TxMsg) (priv : Priv) : TxMsg :=
  { tx with flowCtrl := fun i =>
      if (tx.flowCtrl i).mode ≠ SPRDWL_MODE_NONE ∧ priv.fwStat (tx.flowCtrl i).mode = .close then
        { tx.flowCtrl i with mode := SPRDWL_MODE_NONE }
      else tx.flowCtrl i }

/-- `sprdwl_fc_find_color_per_mode`, with the index if a colour is found. -/
def sprdwlFcFindColorPerMode (tx : TxMsg) (priv : Priv) (mode : Mode) : TxMsg × Option Color :=
  match (List.finRange MAX_COLOR_BIT).find? fun i => (tx.flowCtrl i).mode == mode with
  | some i => (tx, some i)
  | none =>
    let tx := tx.shareClosed priv
    match (List.finRange MAX_COLOR_BIT).find? fun i => (tx.flowCtrl i).mode == SPRDWL_MODE_NONE with
    | some i => (tx.setMode i mode, some i)
    | none => (tx, none)

/-- The loop of `sprdwl_fc_get_shared_num` over the colours still to come. -/
def sharedNumLoop (num : ℕ) : List Color → ℕ → TxMsg → TxMsg × ℕ
  | [], shared, tx => (tx, shared)
  | i :: is, shared, tx =>
    let colorFlow := (tx.flowCtrl i).flow.toNat
    if (tx.flowCtrl i).mode = SPRDWL_MODE_NONE ∧ 0 ≠ colorFlow then
      if num - shared ≤ colorFlow then
        (tx.setColorNum i (BitVec.ofNat 8 (num - shared)), shared + (num - shared))
      else
        sharedNumLoop num is (shared + colorFlow) (tx.setColorNum i (BitVec.ofNat 8 colorFlow))
    else sharedNumLoop num is shared tx

def sprdwlFcGetSharedNum (tx : TxMsg) (num : BitVec 8) : TxMsg × ℕ :=
  sharedNumLoop num.toNat (List.finRange MAX_COLOR_BIT) 0 tx

/-- The credits that `sprdwl_fc_get_send_num` takes for a mode with a colour. -/
def TxMsg.reserve (tx : TxMsg) (i : Color) (dataNum : ℕ) : TxMsg × ℤ :=
  let excusive := (tx.flowCtrl i).flow.toInt
  if (dataNum : ℤ) ≤ excusive then (tx.setColorNum i (BitVec.ofNat 8 dataNum), dataNum)
  else
    let r := sprdwlFcGetSharedNum tx (BitVec.ofInt 8 (dataNum - excusive))
    (r.1.setColorNum i (BitVec.ofInt 8 excusive), excusive + r.2)

/-- `sprdwl_fc_get_send_num` for a queue of `dataNum` packets. -/
def sprdwlFcGetSendNum (tx : TxMsg) (priv : Priv) (mode : Mode) (dataNum : ℕ) : TxMsg × ℤ :=
  if dataNum ≤ 0 ∨ mode = SPRDWL_MODE_NONE then (tx, 0)
  else if priv.hwType = .pcie then (tx, dataNum)
  else
    let dataNum := if 100 < dataNum then 100 else dataNum
    if priv.creditCapa = .noCredit then (tx, dataNum)
    else
      let found := sprdwlFcFindColorPerMode tx.clearColorNum priv mode
      match found.2 with
      | some i =>
        let r := found.1.reserve i dataNum
        if r.2 ≤ 0 then (r.1, -ENOMEM) else r
      | none => (found.1, -ENOMEM)

/-- `sprdwl_fc_test_shared_num` -/
def sprdwlFcTestSharedNum (tx : TxMsg) : BitVec 32 :=
  (List.finRange MAX_COLOR_BIT).foldl (fun shared i =>
    if (tx.flowCtrl i).mode = SPRDWL_MODE_NONE ∧ (tx.flowCtrl i).flow ≠ 0 then
      shared + (tx.flowCtrl i).flow
    else shared) 0

/-- `sprdwl_fc_test_send_num`, which reserves nothing. -/
def sprdwlFcTestSendNum (tx : TxMsg) (priv : Priv) (mode : Mode) (dataNum : ℤ) : TxMsg × ℤ :=
  if dataNum ≤ 0 ∨ mode = SPRDWL_MODE_NONE then (tx, 0)
  else if priv.hwType = .pcie then (tx, dataNum)
  else
    let dataNum := if 100 < dataNum then 100 else dataNum
    if priv.creditCapa = .noCredit then (tx, dataNum)
    else
      let found := sprdwlFcFindColorPerMode tx priv mode
      match found.2 with
      | some i =>
        let sendNum := ((found.1.flowCtrl i).flow + sprdwlFcTestSharedNum found.1).toInt
        (found.1, if sendNum ≤ 0 then -ENOMEM else min sendNum dataNum)
      | none => (found.1, -ENOMEM)

/-- `sprdwl_fc_set_clor_bit`: the colour of the packet with a number, `MAX_COLOR_BIT` if none. -/
def sprdwlFcSetClorBit (tx : TxMsg) (priv : Priv) (num : ℕ) : ℕ :=
  if priv.creditCapa = .noCredit then 0
  else (shareAt (fun i => (tx.colorNum i).toNat) (List.finRange MAX_COLOR_BIT) 0 num).elim
    MAX_COLOR_BIT Fin.val

/-- The part of `sprdwl_handle_tx_return` that concerns credits. -/
def sprdwlHandleTxReturn (tx : TxMsg) (priv : Priv) (sendNum ret : ℤ) : TxMsg :=
  if ret ≠ 0 then tx.clearColorNum
  else
    let tx := { tx with ringAp := tx.ringAp + BitVec.ofInt 64 sendNum }
    if priv.creditCapa = .noCredit then tx
    else
      { tx with flowCtrl := fun i =>
          if tx.colorNum i = 0 then tx.flowCtrl i
          else { tx.flowCtrl i with
            flow := (tx.flowCtrl i).flow - (tx.colorNum i).setWidth 32 } }

/-! ## Reserving credits -/

variable {tx tx' : TxMsg} {priv : Priv} {mode : Mode} {i c : Color} {is : List Color}
  {num shared : ℕ}

/-- The credits of a colour that any mode may use. -/
def TxMsg.sharedFlow (tx : TxMsg) (c : Color) : ℕ :=
  if (tx.flowCtrl c).mode = SPRDWL_MODE_NONE then (tx.flowCtrl c).flow.toNat else 0

/-- A part of `num` shared credits is put on the colours of a list. -/
structure Shared (tx : TxMsg) (is : List Color) (num : ℕ) (tx' : TxMsg) : Prop where
  flowCtrl : tx'.flowCtrl = tx.flowCtrl
  ring : tx'.ringCp = tx.ringCp ∧ tx'.ringAp = tx.ringAp
  others : ∀ c, c ∉ is → tx'.colorNum c = tx.colorNum c
  le : ∀ c ∈ is, (tx'.colorNum c).toNat ≤ tx.sharedFlow c
  sum : (is.map fun c => (tx'.colorNum c).toNat).sum = min num (is.map tx.sharedFlow).sum

theorem setColorNum_self (tx : TxMsg) (i : Color) (num : BitVec 8) :
    (tx.setColorNum i num).colorNum i = num := Function.update_self ..

theorem setColorNum_ne (tx : TxMsg) {i : Color} (num : BitVec 8) (h : c ≠ i) :
    (tx.setColorNum i num).colorNum c = tx.colorNum c := Function.update_of_ne h ..

theorem toNat_ofNat_of_lt (h : num < 256) : (BitVec.ofNat 8 num).toNat = num := by
  rw [BitVec.toNat_ofNat]
  exact Nat.mod_eq_of_lt h

theorem Shared.zero (hzero : ∀ c ∈ is, tx.colorNum c = 0) : Shared tx is 0 tx := by
  refine ⟨rfl, ⟨rfl, rfl⟩, fun _ _ => rfl, fun c hc => ?_, ?_⟩
  · rw [hzero c hc]
    exact Nat.zero_le _
  · rw [Nat.zero_min]
    refine List.sum_eq_zero fun x hx => ?_
    obtain ⟨c, hc, rfl⟩ := List.mem_map.mp hx
    rw [hzero c hc]
    rfl

theorem Shared.cons (tx₁ : TxMsg) (hi : i ∉ is)
    (hset : (tx₁.colorNum i).toNat = min num (tx.sharedFlow i))
    (hflow : tx₁.flowCtrl = tx.flowCtrl) (hring : tx₁.ringCp = tx.ringCp ∧ tx₁.ringAp = tx.ringAp)
    (hothers : ∀ c, c ≠ i → tx₁.colorNum c = tx.colorNum c)
    (h : Shared tx₁ is (num - min num (tx.sharedFlow i)) tx') : Shared tx (i :: is) num tx' := by
  have hshared : tx₁.sharedFlow = tx.sharedFlow := by
    funext c
    rw [TxMsg.sharedFlow, TxMsg.sharedFlow, hflow]
  refine ⟨h.flowCtrl.trans hflow, ⟨h.ring.1.trans hring.1, h.ring.2.trans hring.2⟩,
    fun c hc => ?_, fun c hc => ?_, ?_⟩
  · obtain ⟨hci, hcis⟩ := not_or.mp (mt List.mem_cons.mpr hc)
    exact (h.others c hcis).trans (hothers c hci)
  · rcases List.mem_cons.mp hc with rfl | hc
    · rw [h.others c hi, hset]
      exact Nat.min_le_right ..
    · rw [← hshared]
      exact h.le c hc
  · rw [List.map_cons, List.sum_cons, h.others i hi, hset, h.sum, List.map_cons, List.sum_cons,
      hshared]
    omega

/-- The loop stops as soon as the rest of the need is met. -/
theorem sharedNumLoop_spec (hshared : shared < num) (hnum : num < 256) (hnodup : is.Nodup)
    (hzero : ∀ c ∈ is, tx.colorNum c = 0) :
    Shared tx is (num - shared) (sharedNumLoop num is shared tx).1 ∧
      (sharedNumLoop num is shared tx).2 = shared + min (num - shared) (is.map tx.sharedFlow).sum := by
  induction is generalizing shared tx with
  | nil => exact ⟨⟨rfl, ⟨rfl, rfl⟩, fun _ _ => rfl, by simp, by simp⟩, by simp [sharedNumLoop]⟩
  | cons i is ih =>
    obtain ⟨hi, hrest⟩ := List.nodup_cons.mp hnodup
    have hne : ∀ c ∈ is, c ≠ i := fun c hc hci => hi (hci ▸ hc)
    -- writing the number of this colour leaves the others as they are
    have hbehind : ∀ k : BitVec 8, ∀ c ∈ is, (tx.setColorNum i k).colorNum c = 0 := by
      intro k c hc
      rw [setColorNum_ne _ _ (hne c hc)]
      exact hzero c (List.mem_cons_of_mem i hc)
    rw [sharedNumLoop, List.map_cons, List.sum_cons]
    split
    · rename_i hmode
      have hflow : tx.sharedFlow i = (tx.flowCtrl i).flow.toNat := if_pos hmode.1
      split
      · rename_i henough
        have hset : (BitVec.ofNat 8 (num - shared)).toNat = num - shared :=
          toNat_ofNat_of_lt (by omega)
        have hall : num - shared - min (num - shared) (tx.sharedFlow i) = 0 := by omega
        refine ⟨.cons (tx.setColorNum i (BitVec.ofNat 8 (num - shared))) hi ?_ rfl ⟨rfl, rfl⟩
          (fun c hc => setColorNum_ne _ _ hc) ?_, by omega⟩
        · rw [setColorNum_self, hset]
          omega
        · rw [hall]
          exact .zero (hbehind _)
      · rename_i hmore
        have hset : (BitVec.ofNat 8 (tx.flowCtrl i).flow.toNat).toNat =
            (tx.flowCtrl i).flow.toNat := toNat_ofNat_of_lt (by omega)
        obtain ⟨hspec, hnum'⟩ := ih (show shared + (tx.flowCtrl i).flow.toNat < num by omega) hrest
          (hbehind (BitVec.ofNat 8 (tx.flowCtrl i).flow.toNat))
        have hleft : num - shared - min (num - shared) (tx.sharedFlow i) =
            num - (shared + (tx.flowCtrl i).flow.toNat) := by omega
        refine ⟨.cons (tx.setColorNum i (BitVec.ofNat 8 (tx.flowCtrl i).flow.toNat)) hi ?_ rfl
          ⟨rfl, rfl⟩ (fun c hc => setColorNum_ne _ _ hc) (hleft ▸ hspec), ?_⟩
        · rw [setColorNum_self, hset]
          omega
        · have hsame : (tx.setColorNum i (BitVec.ofNat 8 (tx.flowCtrl i).flow.toNat)).sharedFlow =
              tx.sharedFlow := rfl
          rw [hnum', hsame]
          omega
    · rename_i hmode
      have hflow : tx.sharedFlow i = 0 := by
        rw [TxMsg.sharedFlow]
        split
        · rename_i hnone
          exact (not_not.mp fun hne => hmode ⟨hnone, hne⟩).symm
        · rfl
      obtain ⟨hspec, hnum'⟩ := ih hshared hrest fun c hc => hzero c (List.mem_cons_of_mem i hc)
      refine ⟨.cons tx hi ?_ rfl ⟨rfl, rfl⟩ (fun _ _ => rfl) ?_, ?_⟩
      · rw [hzero i (List.mem_cons_self ..), hflow, Nat.min_zero]
        rfl
      · rw [hflow, Nat.min_zero, Nat.sub_zero]
        exact hspec
      · rw [hnum', hflow, Nat.zero_add]

/-- What finding a colour leaves as it is. -/
structure SameCredits (tx tx' : TxMsg) : Prop where
  flow : ∀ c, (tx'.flowCtrl c).flow = (tx.flowCtrl c).flow
  colorNum : tx'.colorNum = tx.colorNum
  ringCp : tx'.ringCp = tx.ringCp
  ringAp : tx'.ringAp = tx.ringAp

theorem shareClosed_same (tx : TxMsg) (priv : Priv) : SameCredits tx (tx.shareClosed priv) := by
  refine ⟨fun c => ?_, rfl, rfl, rfl⟩
  rw [TxMsg.shareClosed]
  dsimp only
  split <;> rfl

theorem setMode_flow (tx : TxMsg) (i c : Color) (mode : Mode) :
    ((tx.setMode i mode).flowCtrl c).flow = (tx.flowCtrl c).flow := by
  rw [TxMsg.setMode]
  by_cases hc : c = i
  · subst hc
    dsimp only
    rw [Function.update_self]
  · dsimp only
    rw [Function.update_of_ne hc]

theorem setMode_self (tx : TxMsg) (i : Color) (mode : Mode) :
    ((tx.setMode i mode).flowCtrl i).mode = mode := by
  rw [TxMsg.setMode]
  dsimp only
  rw [Function.update_self]

/-- The colour found belongs to the mode. -/
theorem findColorPerMode_spec (tx : TxMsg) (priv : Priv) (mode : Mode) :
    SameCredits tx (sprdwlFcFindColorPerMode tx priv mode).1 ∧
      ∀ i, (sprdwlFcFindColorPerMode tx priv mode).2 = some i →
        ((sprdwlFcFindColorPerMode tx priv mode).1.flowCtrl i).mode = mode := by
  rw [sprdwlFcFindColorPerMode]
  split
  · rename_i j hj
    refine ⟨⟨fun _ => rfl, rfl, rfl, rfl⟩, fun i hi => ?_⟩
    cases hi
    have hmode := List.find?_some hj
    exact eq_of_beq hmode
  · dsimp only
    have hsame := shareClosed_same tx priv
    split
    · rename_i j hj
      refine ⟨⟨fun c => ?_, hsame.colorNum, hsame.ringCp, hsame.ringAp⟩, fun i hi => ?_⟩
      · rw [setMode_flow, hsame.flow]
      · cases hi
        exact setMode_self _ _ mode
    · exact ⟨hsame, fun i hi => by cases hi⟩

/-- A batch has reserved credits of colours that its mode may use. -/
structure Reserved (tx : TxMsg) (mode : Mode) (sendNum : ℕ) : Prop where
  sum : ∑ c, (tx.colorNum c).toNat = sendNum
  le : ∀ c, (tx.colorNum c).toNat ≤ (tx.flowCtrl c).flow.toNat
  usable : ∀ c, tx.colorNum c ≠ 0 →
    (tx.flowCtrl c).mode = mode ∨ (tx.flowCtrl c).mode = SPRDWL_MODE_NONE

/-- The credits a mode may use that owns a colour. -/
def TxMsg.available (tx : TxMsg) (i : Color) : ℕ :=
  (tx.flowCtrl i).flow.toNat + ∑ c, tx.sharedFlow c

theorem sum_setColorNum {k : BitVec 8} (hzero : tx.colorNum i = 0) :
    ∑ c, ((tx.setColorNum i k).colorNum c).toNat = k.toNat + ∑ c, (tx.colorNum c).toNat := by
  rw [← Finset.add_sum_erase _ _ (Finset.mem_univ i), ← Finset.add_sum_erase _ (fun c =>
    (tx.colorNum c).toNat) (Finset.mem_univ i), setColorNum_self, hzero]
  have hrest : ∀ c ∈ Finset.univ.erase i,
      ((tx.setColorNum i k).colorNum c).toNat = (tx.colorNum c).toNat := by
    intro c hc
    rw [setColorNum_ne _ _ (Finset.ne_of_mem_erase hc)]
  rw [Finset.sum_congr rfl hrest]
  simp

theorem toInt_eq_toNat {x : BitVec 32} (h : 0 ≤ x.toInt) : x.toInt = x.toNat := by
  have hcond := BitVec.toInt_eq_toNat_cond x
  split_ifs at hcond
  · exact hcond
  · have hlt := x.isLt
    omega

theorem reserve_spec (dataNum : ℕ) (hnum : dataNum ≤ 100) (hmode : mode ≠ SPRDWL_MODE_NONE)
    (hi : (tx.flowCtrl i).mode = mode) (hzero : ∀ c, tx.colorNum c = 0)
    (hflow : 0 ≤ (tx.flowCtrl i).flow.toInt) :
    (tx.reserve i dataNum).1.flowCtrl = tx.flowCtrl ∧
      ((tx.reserve i dataNum).1.ringCp = tx.ringCp ∧ (tx.reserve i dataNum).1.ringAp = tx.ringAp) ∧
      (tx.reserve i dataNum).2 = min dataNum (tx.available i) ∧
      Reserved (tx.reserve i dataNum).1 mode (min dataNum (tx.available i)) := by
  have hown : (tx.flowCtrl i).flow.toInt = (tx.flowCtrl i).flow.toNat := toInt_eq_toNat hflow
  have hsharedOwn : tx.sharedFlow i = 0 := if_neg (hi ▸ hmode)
  have hsumZero : ∑ c, (tx.colorNum c).toNat = 0 := by simp [hzero]
  rw [TxMsg.reserve, hown]
  split
  · rename_i henough
    have hle : dataNum ≤ (tx.flowCtrl i).flow.toNat := by omega
    have hmin : min dataNum (tx.available i) = dataNum :=
      Nat.min_eq_left (hle.trans (Nat.le_add_right ..))
    have hset : (BitVec.ofNat 8 dataNum).toNat = dataNum := toNat_ofNat_of_lt (by omega)
    refine ⟨rfl, ⟨rfl, rfl⟩, by rw [hmin], ?_, fun c => ?_, fun c hc => ?_⟩
    · rw [sum_setColorNum (hzero i), hset, hsumZero, hmin, Nat.add_zero]
    · by_cases hci : c = i
      · subst hci
        rw [setColorNum_self, hset]
        exact hle
      · rw [setColorNum_ne _ _ hci, hzero c]
        exact Nat.zero_le _
    · by_cases hci : c = i
      · subst hci
        exact .inl hi
      · rw [setColorNum_ne _ _ hci, hzero c] at hc
        exact absurd rfl hc
  · rename_i hmore
    have hlt : (tx.flowCtrl i).flow.toNat < dataNum := by omega
    have hneed : BitVec.ofInt 8 ((dataNum : ℤ) - (tx.flowCtrl i).flow.toNat) =
        BitVec.ofNat 8 (dataNum - (tx.flowCtrl i).flow.toNat) := by
      rw [← Nat.cast_sub hlt.le, BitVec.ofInt_natCast]
    have hneedNat : (BitVec.ofNat 8 (dataNum - (tx.flowCtrl i).flow.toNat)).toNat =
        dataNum - (tx.flowCtrl i).flow.toNat := toNat_ofNat_of_lt (by omega)
    obtain ⟨hspec, hshared⟩ := sharedNumLoop_spec (Nat.sub_pos_of_lt hlt)
      (show dataNum - (tx.flowCtrl i).flow.toNat < 256 by omega)
      (List.nodup_finRange MAX_COLOR_BIT) (fun c _ => hzero c)
    rw [Nat.sub_zero] at hspec hshared
    rw [← Fin.sum_univ_def] at hshared
    have hexclusive : BitVec.ofInt 8 ((tx.flowCtrl i).flow.toNat : ℤ) =
        BitVec.ofNat 8 (tx.flowCtrl i).flow.toNat := BitVec.ofInt_natCast ..
    have hexclusiveNat : (BitVec.ofNat 8 (tx.flowCtrl i).flow.toNat).toNat =
        (tx.flowCtrl i).flow.toNat := toNat_ofNat_of_lt (by omega)
    rw [hneed, hexclusive, sprdwlFcGetSharedNum, hneedNat]
    dsimp only
    set tx' := (sharedNumLoop (dataNum - (tx.flowCtrl i).flow.toNat) (List.finRange MAX_COLOR_BIT) 0
      tx).1 with htx'
    have hsum := hspec.sum
    rw [← Fin.sum_univ_def, ← Fin.sum_univ_def] at hsum
    have hownZero : tx'.colorNum i = 0 := by
      have hle := hspec.le i (List.mem_finRange i)
      rw [hsharedOwn] at hle
      exact BitVec.eq_of_toNat_eq (Nat.le_zero.mp hle)
    have htotal : (tx.flowCtrl i).flow.toNat + min (dataNum - (tx.flowCtrl i).flow.toNat)
        (∑ c, tx.sharedFlow c) = min dataNum (tx.available i) := by
      rw [TxMsg.available]
      omega
    refine ⟨hspec.flowCtrl, hspec.ring, ?_, ?_, fun c => ?_, fun c hc => ?_⟩
    · rw [hshared, Nat.zero_add, ← htotal]
      push_cast
      rfl
    · rw [sum_setColorNum hownZero, hexclusiveNat, hsum, htotal]
    · have hflowCtrl : (tx'.setColorNum i (BitVec.ofNat 8 (tx.flowCtrl i).flow.toNat)).flowCtrl =
          tx.flowCtrl := hspec.flowCtrl
      rw [hflowCtrl]
      by_cases hci : c = i
      · subst hci
        rw [setColorNum_self, hexclusiveNat]
      · rw [setColorNum_ne _ _ hci]
        refine (hspec.le c (List.mem_finRange c)).trans ?_
        rw [TxMsg.sharedFlow]
        split <;> omega
    · have hflowCtrl : (tx'.setColorNum i (BitVec.ofNat 8 (tx.flowCtrl i).flow.toNat)).flowCtrl =
          tx.flowCtrl := hspec.flowCtrl
      rw [hflowCtrl]
      by_cases hci : c = i
      · subst hci
        exact .inl hi
      · right
        rw [setColorNum_ne _ _ hci] at hc
        by_contra hmodeNe
        have hle := hspec.le c (List.mem_finRange c)
        rw [TxMsg.sharedFlow, if_neg hmodeNe] at hle
        exact hc (BitVec.eq_of_toNat_eq (Nat.le_zero.mp hle))

/-- The credits a mode may use: none without a colour for it. -/
def TxMsg.credits (tx : TxMsg) (priv : Priv) (mode : Mode) : ℕ :=
  let found := sprdwlFcFindColorPerMode tx.clearColorNum priv mode
  found.2.elim 0 found.1.available

/-- What `sprdwl_fc_get_send_num` returns, and that it reserves as much. -/
theorem getSendNum_spec {dataNum : ℕ} (hhw : priv.hwType ≠ .pcie)
    (hcapa : priv.creditCapa = .withCredit) (hflow : ∀ c, 0 ≤ (tx.flowCtrl c).flow.toInt)
    (hnum : dataNum ≠ 0) (hmode : mode ≠ SPRDWL_MODE_NONE) :
    (tx.credits priv mode = 0 → (sprdwlFcGetSendNum tx priv mode dataNum).2 = -ENOMEM) ∧
      (tx.credits priv mode ≠ 0 → (sprdwlFcGetSendNum tx priv mode dataNum).2 =
        (min (min dataNum 100) (tx.credits priv mode) : ℕ) ∧
        Reserved (sprdwlFcGetSendNum tx priv mode dataNum).1 mode
          (min (min dataNum 100) (tx.credits priv mode))) ∧
      ∀ c, ((sprdwlFcGetSendNum tx priv mode dataNum).1.flowCtrl c).flow = (tx.flowCtrl c).flow := by
  obtain ⟨hsame, hfound⟩ := findColorPerMode_spec tx.clearColorNum priv mode
  have hgo : ¬ (dataNum ≤ 0 ∨ mode = SPRDWL_MODE_NONE) :=
    not_or.mpr ⟨fun h => hnum (Nat.le_zero.mp h), hmode⟩
  have hcapa' : ¬ priv.creditCapa = .noCredit := by simp [hcapa]
  have hlimit : (if 100 < dataNum then 100 else dataNum) = min dataNum 100 := by
    split <;> omega
  rw [sprdwlFcGetSendNum, if_neg hgo, if_neg hhw, hlimit, TxMsg.credits]
  dsimp only
  rw [if_neg hcapa']
  split
  · rename_i i hi
    have hzero : ∀ c, (sprdwlFcFindColorPerMode tx.clearColorNum priv mode).1.colorNum c = 0 := by
      intro c
      rw [hsame.colorNum]
      rfl
    have hown : 0 ≤ ((sprdwlFcFindColorPerMode tx.clearColorNum priv mode).1.flowCtrl i).flow.toInt := by
      rw [hsame.flow]
      exact hflow i
    obtain ⟨hctrl, -, hsend, hreserved⟩ := reserve_spec (min dataNum 100) (Nat.min_le_right ..) hmode
      (hfound i hi) hzero hown
    have hflows : ∀ c, (((sprdwlFcFindColorPerMode tx.clearColorNum priv mode).1.reserve i
        (min dataNum 100)).1.flowCtrl c).flow = (tx.flowCtrl c).flow := by
      intro c
      rw [hctrl, hsame.flow]
      rfl
    rw [hi, Option.elim_some]
    split
    · rename_i hle
      rw [hsend] at hle
      refine ⟨fun _ => rfl, fun hne => ?_, hflows⟩
      omega
    · rename_i hlt
      rw [hsend] at hlt
      refine ⟨fun hzero => ?_, fun _ => ⟨hsend, hreserved⟩, hflows⟩
      rw [hzero, Nat.min_zero] at hlt
      exact absurd (le_refl _) hlt
  · rename_i hnone
    rw [hnone]
    refine ⟨fun _ => rfl, fun hne => absurd rfl hne, fun c => ?_⟩
    rw [hsame.flow]
    rfl

/-! ## Stamping and charging -/

theorem setClorBit_eq (hcapa : priv.creditCapa = .withCredit) (num : ℕ) :
    sprdwlFcSetClorBit tx priv num =
      (shareAt (fun i => (tx.colorNum i).toNat) (List.finRange MAX_COLOR_BIT) 0 num).elim
        MAX_COLOR_BIT Fin.val := by
  rw [sprdwlFcSetClorBit, if_neg (by simp [hcapa])]

/-- Every packet of a batch gets a colour. -/
theorem setClorBit_lt {sendNum num : ℕ} (hcapa : priv.creditCapa = .withCredit)
    (h : Reserved tx mode sendNum) (hnum : num ∈ List.range' 1 sendNum) :
    sprdwlFcSetClorBit tx priv num < MAX_COLOR_BIT := by
  have hbound := List.mem_range'_1.mp hnum
  have hsum := h.sum
  rw [Fin.sum_univ_def] at hsum
  obtain ⟨c, hc⟩ := Option.isSome_iff_exists.mp (shareAt_isSome
    (show num ≤ 0 + ((List.finRange MAX_COLOR_BIT).map fun i => (tx.colorNum i).toNat).sum by omega)
    (by omega))
  rw [setClorBit_eq hcapa, hc]
  exact c.isLt

/-- As many packets get a colour as credits of it were reserved. -/
theorem count_setClorBit {sendNum : ℕ} (hcapa : priv.creditCapa = .withCredit)
    (h : Reserved tx mode sendNum) (c : Color) :
    ((List.range' 1 sendNum).map (sprdwlFcSetClorBit tx priv)).count c.val =
      (tx.colorNum c).toNat := by
  have hsum := h.sum
  rw [Fin.sum_univ_def] at hsum
  have hcount : ((List.range' 1 sendNum).map (shareAt (fun i => (tx.colorNum i).toNat)
      (List.finRange MAX_COLOR_BIT) 0)).count (some c) = (tx.colorNum c).toNat := by
    rw [← hsum]
    exact count_shareAt (List.nodup_finRange MAX_COLOR_BIT) (List.mem_finRange c)
  rw [← hcount, List.count, List.count, List.countP_map, List.countP_map]
  refine List.countP_congr fun num _ => ?_
  rw [Function.comp_apply, Function.comp_apply, setClorBit_eq hcapa, beq_iff_eq, beq_iff_eq]
  cases shareAt (fun i => (tx.colorNum i).toNat) (List.finRange MAX_COLOR_BIT) 0 num with
  | none => simp [Nat.ne_of_gt c.isLt]
  | some d => simp [Fin.ext_iff]

/-- An accepted batch is charged what it reserved. -/
theorem handleTxReturn_flow {sendNum : ℤ} (hcapa : priv.creditCapa = .withCredit) (c : Color)
    (hflow : 0 ≤ (tx.flowCtrl c).flow.toInt)
    (hle : (tx.colorNum c).toNat ≤ (tx.flowCtrl c).flow.toNat) :
    ((sprdwlHandleTxReturn tx priv sendNum 0).flowCtrl c).flow.toInt =
      (tx.flowCtrl c).flow.toInt - (tx.colorNum c).toNat := by
  rw [sprdwlHandleTxReturn, if_neg (not_not.mpr rfl)]
  dsimp only
  rw [if_neg (by simp [hcapa])]
  dsimp only
  split
  · rename_i hzero
    rw [hzero]
    simp
  · have hcolor : ((tx.colorNum c).setWidth 32).toNat = (tx.colorNum c).toNat := by
      rw [BitVec.toNat_setWidth]
      exact Nat.mod_eq_of_lt ((tx.colorNum c).isLt.trans (by decide))
    have hsub : ((tx.flowCtrl c).flow - (tx.colorNum c).setWidth 32).toNat =
        (tx.flowCtrl c).flow.toNat - (tx.colorNum c).toNat := by
      rw [BitVec.toNat_sub_of_le, hcolor]
      rw [BitVec.le_def, hcolor]
      exact hle
    have hint := toInt_eq_toNat hflow
    have hsmall : (tx.flowCtrl c).flow.toInt < 2 ^ 31 := BitVec.toInt_lt
    have hcond := BitVec.toInt_eq_toNat_cond ((tx.flowCtrl c).flow - (tx.colorNum c).setWidth 32)
    rw [hsub] at hcond
    rw [hcond]
    split_ifs <;> omega

theorem handleTxReturn_failed {sendNum ret : ℤ} (h : ret ≠ 0) :
    (sprdwlHandleTxReturn tx priv sendNum ret).flowCtrl = tx.flowCtrl := by
  rw [sprdwlHandleTxReturn, if_pos h]
  rfl

/-- In credit mode a batch is as large as the queue, the limit and the mode's credits allow; its
packets are stamped with the reserved colours; it is charged for them once it is accepted. -/
theorem credit_colouring (tx : TxMsg) (priv : Priv) (mode : Mode) (dataNum : ℕ)
    (hhw : priv.hwType ≠ .pcie) (hcapa : priv.creditCapa = .withCredit)
    (hflow : ∀ c, 0 ≤ (tx.flowCtrl c).flow.toInt) :
    let r := sprdwlFcGetSendNum tx priv mode dataNum
    (dataNum = 0 ∨ mode = SPRDWL_MODE_NONE → r.2 = 0) ∧
    (dataNum ≠ 0 → mode ≠ SPRDWL_MODE_NONE → tx.credits priv mode = 0 → r.2 = -ENOMEM) ∧
    (dataNum ≠ 0 → mode ≠ SPRDWL_MODE_NONE → tx.credits priv mode ≠ 0 → ∃ sendNum : ℕ,
      r.2 = sendNum ∧ 0 < sendNum ∧ sendNum = min (min dataNum 100) (tx.credits priv mode) ∧
      ∑ c, (r.1.colorNum c).toNat = sendNum ∧
      (∀ c, (r.1.colorNum c).toNat ≤ (tx.flowCtrl c).flow.toNat ∧ (r.1.colorNum c ≠ 0 →
        (r.1.flowCtrl c).mode = mode ∨ (r.1.flowCtrl c).mode = SPRDWL_MODE_NONE)) ∧
      (∀ num ∈ List.range' 1 sendNum, sprdwlFcSetClorBit r.1 priv num < MAX_COLOR_BIT) ∧
      ∀ c, let stamped := ((List.range' 1 sendNum).map (sprdwlFcSetClorBit r.1 priv)).count c.val
        stamped = (r.1.colorNum c).toNat ∧
        ((sprdwlHandleTxReturn r.1 priv sendNum 0).flowCtrl c).flow.toInt =
          (tx.flowCtrl c).flow.toInt - stamped ∧
        ∀ ret : ℤ, ret ≠ 0 →
          ((sprdwlHandleTxReturn r.1 priv sendNum ret).flowCtrl c).flow = (tx.flowCtrl c).flow) := by
  refine ⟨fun h => ?_, fun hnum hmode hzero => ?_, fun hnum hmode hne => ?_⟩
  · rw [sprdwlFcGetSendNum, if_pos (h.imp Nat.le_of_eq id)]
  · exact (getSendNum_spec hhw hcapa hflow hnum hmode).1 hzero
  · obtain ⟨-, hsome, hflows⟩ := getSendNum_spec hhw hcapa hflow hnum hmode
    obtain ⟨hsend, hreserved⟩ := hsome hne
    have hle : ∀ c, ((sprdwlFcGetSendNum tx priv mode dataNum).1.colorNum c).toNat ≤
        (tx.flowCtrl c).flow.toNat := fun c => (hreserved.le c).trans_eq (by rw [hflows])
    refine ⟨_, hsend, by omega, rfl, hreserved.sum, fun c => ⟨hle c, hreserved.usable c⟩,
      fun num hnum => setClorBit_lt hcapa hreserved hnum, fun c => ?_⟩
    have hcount := count_setClorBit hcapa hreserved c
    refine ⟨hcount, ?_, fun ret hret => ?_⟩
    · rw [handleTxReturn_flow hcapa c (by rw [hflows]; exact hflow c) (hreserved.le c), hflows,
        hcount]
    · rw [handleTxReturn_failed hret, hflows]

def samplePriv : Priv := ⟨.sdio, .withCredit, fun _ => .opened⟩

/-- Own credits in the first colour and shared ones in the second. -/
def sampleTx (own shared : BitVec 32) : TxMsg where
  ringCp := 0
  ringAp := 0
  flowCtrl c := if c = 0 then ⟨SPRDWL_MODE_STATION, own⟩ else
    if c = 1 then ⟨SPRDWL_MODE_NONE, shared⟩ else ⟨SPRDWL_MODE_NONE, 0⟩
  colorNum _ := 0

theorem credit_colouring_five :
    (sprdwlFcGetSendNum (sampleTx 3 2) samplePriv SPRDWL_MODE_STATION 7).2 = 5 ∧
      ((List.range' 1 5).map (sprdwlFcSetClorBit (sprdwlFcGetSendNum (sampleTx 3 2) samplePriv
        SPRDWL_MODE_STATION 7).1 samplePriv)).count 1 = 2 := by
  obtain ⟨-, -, h⟩ := credit_colouring (sampleTx 3 2) samplePriv SPRDWL_MODE_STATION 7 (by decide)
    (by decide) (by decide)
  obtain ⟨sendNum, hsend, -, hmin, -, -, -, hcount⟩ := h (by decide) (by decide) (by decide)
  have hfive : sendNum = 5 := hmin.trans (by decide)
  subst hfive
  exact ⟨hsend, (hcount 1).1.trans (by decide)⟩

/-- Without credits an error is returned, which is not the sum of the reserved numbers. -/
theorem no_credit_is_an_error :
    ∃ tx priv mode dataNum, priv.hwType ≠ .pcie ∧ priv.creditCapa = .withCredit ∧
      (∀ c, 0 ≤ (tx.flowCtrl c).flow.toInt) ∧
      ¬ (sprdwlFcGetSendNum tx priv mode dataNum).2 =
        ((∑ c, ((sprdwlFcGetSendNum tx priv mode dataNum).1.colorNum c).toNat : ℕ) : ℤ) :=
  ⟨sampleTx 0 0, samplePriv, SPRDWL_MODE_STATION, 1, by decide, by decide, by decide, by decide⟩

end Uwe5631.Credit
