import Uwe5631.CreditLedger

/-!
# The credits that a mode may use

Its own and the shared ones. Looking for a colour does not change them, the limits on what a mode
may send agree with them, and a batch that the bus takes uses up as many as it has packets.
-/
namespace Uwe5631.TxStalls
open Credit

/-- SDIO or USB with credits, where the mode none is never open. -/
structure WithCredits (priv : Priv) : Prop where
  hwType : priv.hwType ≠ .pcie
  creditCapa : priv.creditCapa = .withCredit
  noneClosed : priv.fwStat SPRDWL_MODE_NONE ≠ .opened

/-- The credits a mode may use. -/
def usable (tx : TxMsg) (m : Mode) : ℕ :=
  ∑ c, if (tx.flowCtrl c).mode = m ∨ (tx.flowCtrl c).mode = SPRDWL_MODE_NONE then
    (tx.flowCtrl c).flow.toNat else 0

/-- No mode has two colours, only open modes have one, and there are not too many credits. -/
structure Colours (priv : Priv) (tx : TxMsg) : Prop where
  one : ∀ i j, (tx.flowCtrl i).mode = (tx.flowCtrl j).mode →
    (tx.flowCtrl i).mode ≠ SPRDWL_MODE_NONE → i = j
  opened : ∀ i, (tx.flowCtrl i).mode ≠ SPRDWL_MODE_NONE →
    priv.fwStat (tx.flowCtrl i).mode = .opened
  bound : ∑ c, (tx.flowCtrl c).flow.toNat < 2 ^ 31

/-- Credits have been used up, and shared colours may have gone to a mode. -/
structure Serves (tx tx' : TxMsg) (m : Mode) : Prop where
  mode : ∀ c, (tx'.flowCtrl c).mode = (tx.flowCtrl c).mode ∨
    (tx.flowCtrl c).mode = SPRDWL_MODE_NONE ∧ (tx'.flowCtrl c).mode = m
  flow : ∀ c, (tx'.flowCtrl c).flow.toNat ≤ (tx.flowCtrl c).flow.toNat

variable {tx tx' tx'' : TxMsg} {priv : Priv} {m m' : Mode} {c i : Color}

theorem Serves.refl (tx : TxMsg) (m : Mode) : Serves tx tx m :=
  ⟨fun _ => .inl rfl, fun _ => le_refl _⟩

theorem Serves.trans (h : Serves tx tx' m) (h' : Serves tx' tx'' m) : Serves tx tx'' m where
  mode c := by
    rcases h.mode c with hc | ⟨hc, hm⟩
    · rcases h'.mode c with hc' | ⟨hc', hm'⟩
      · exact .inl (hc'.trans hc)
      · exact .inr ⟨hc ▸ hc', hm'⟩
    · rcases h'.mode c with hc' | ⟨hc', hm'⟩
      · exact .inr ⟨hc, hc'.trans hm⟩
      · exact .inr ⟨hc, hm'⟩
  flow c := (h'.flow c).trans (h.flow c)

theorem usable_eq_zero : usable tx m = 0 ↔ ∀ c, (tx.flowCtrl c).mode = m ∨
    (tx.flowCtrl c).mode = SPRDWL_MODE_NONE → (tx.flowCtrl c).flow.toNat = 0 := by
  rw [usable, Finset.sum_eq_zero_iff]
  constructor
  · intro h c hc
    have hzero := h c (Finset.mem_univ c)
    rwa [if_pos hc] at hzero
  · intro h c _
    split
    · rename_i hc
      exact h c hc
    · rfl

/-- What no mode could use stays so. -/
theorem Serves.unusable (h : Serves tx tx' m) (hzero : usable tx m' = 0) : usable tx' m' = 0 := by
  rw [usable_eq_zero] at hzero ⊢
  intro c hc
  have hold : (tx.flowCtrl c).mode = m' ∨ (tx.flowCtrl c).mode = SPRDWL_MODE_NONE := by
    rcases h.mode c with hmode | ⟨hnone, -⟩
    · rwa [hmode] at hc
    · exact .inr hnone
  have hflow := h.flow c
  have hflow' := hzero c hold
  omega

theorem Colours.small (h : Colours priv tx) (c : Color) : (tx.flowCtrl c).flow.toNat < 2 ^ 31 :=
  lt_of_le_of_lt (Finset.single_le_sum (f := fun c => (tx.flowCtrl c).flow.toNat)
    (fun _ _ => Nat.zero_le _) (Finset.mem_univ c)) h.bound

theorem Colours.toInt_nonneg (h : Colours priv tx) (c : Color) :
    0 ≤ (tx.flowCtrl c).flow.toInt := by
  have hsmall := h.small c
  rw [BitVec.toInt_eq_toNat_cond]
  split <;> omega

theorem usable_le (tx : TxMsg) (m : Mode) : usable tx m ≤ ∑ c, (tx.flowCtrl c).flow.toNat := by
  refine Finset.sum_le_sum fun c _ => ?_
  split
  · exact le_refl _
  · exact Nat.zero_le _

/-- With the one colour of a mode, what it may use is what the driver reckons. -/
theorem available_eq (h : Colours priv tx) (hm : m ≠ SPRDWL_MODE_NONE)
    (hi : (tx.flowCtrl i).mode = m) : tx.available i = usable tx m := by
  have hown : ∑ c, (if (tx.flowCtrl c).mode = m then (tx.flowCtrl c).flow.toNat else 0) =
      (tx.flowCtrl i).flow.toNat := by
    rw [Finset.sum_eq_single i]
    · rw [if_pos hi]
    · intro c _ hc
      refine if_neg fun hmode => hc ?_
      exact h.one c i (hmode.trans hi.symm) (hmode ▸ hm)
    · exact fun hmem => absurd (Finset.mem_univ i) hmem
  rw [TxMsg.available, ← hown, ← Finset.sum_add_distrib, usable]
  refine Finset.sum_congr rfl fun c _ => ?_
  rw [TxMsg.sharedFlow]
  by_cases hmode : (tx.flowCtrl c).mode = m
  · have hnone : ¬ (tx.flowCtrl c).mode = SPRDWL_MODE_NONE := hmode ▸ hm
    rw [if_pos hmode, if_neg hnone, if_pos (.inl hmode), Nat.add_zero]
  · by_cases hnone : (tx.flowCtrl c).mode = SPRDWL_MODE_NONE
    · rw [if_neg hmode, if_pos hnone, if_pos (.inr hnone), Nat.zero_add]
    · rw [if_neg hmode, if_neg hnone, if_neg (by simp [hmode, hnone])]

theorem shareClosed_eq (h : Colours priv tx) : tx.shareClosed priv = tx := by
  have hctrl : (tx.shareClosed priv).flowCtrl = tx.flowCtrl := by
    funext i
    refine if_neg fun hclosed => ?_
    have hopened := h.opened i hclosed.1
    rw [hclosed.2] at hopened
    cases hopened
  rw [TxMsg.shareClosed] at hctrl ⊢
  cases tx
  simp only at hctrl ⊢
  rw [hctrl]

/-- What finding a colour for an open mode does. -/
structure Finds (priv : Priv) (tx : TxMsg) (m : Mode) (r : TxMsg × Option Color) : Prop where
  colours : Colours priv r.1
  serves : Serves tx r.1 m
  usable_eq : usable r.1 m = usable tx m
  found : ∀ i, r.2 = some i → (r.1.flowCtrl i).mode = m
  notFound : r.2 = none → usable tx m = 0

theorem find_finds (h : Colours priv tx)
    (hopen : priv.fwStat m = .opened) :
    Finds priv tx m (sprdwlFcFindColorPerMode tx priv m) := by
  rw [sprdwlFcFindColorPerMode]
  cases hown : (List.finRange MAX_COLOR_BIT).find? fun i => (tx.flowCtrl i).mode == m with
  | some i =>
    have hmode := List.find?_some hown
    refine ⟨h, Serves.refl tx m, rfl, fun j hj => ?_, fun hj => (by cases hj)⟩
    cases hj
    exact eq_of_beq hmode
  | none =>
    have hnone (c : Color) : (tx.flowCtrl c).mode ≠ m := by
      have hc := List.find?_eq_none.mp hown c (List.mem_finRange c)
      simpa using hc
    simp only [shareClosed_eq h]
    cases hfree : (List.finRange MAX_COLOR_BIT).find? fun i =>
        (tx.flowCtrl i).mode == SPRDWL_MODE_NONE with
    | none =>
      refine ⟨h, Serves.refl tx m, rfl, fun j hj => (by cases hj), fun _ => ?_⟩
      rw [usable_eq_zero]
      rintro c (hc | hc)
      · exact absurd hc (hnone c)
      · have hfree' := List.find?_eq_none.mp hfree c (List.mem_finRange c)
        exact absurd hc (by simpa using hfree')
    | some i =>
      have hbeq := List.find?_some hfree
      have hi : (tx.flowCtrl i).mode = SPRDWL_MODE_NONE := eq_of_beq hbeq
      have hself : ((tx.setMode i m).flowCtrl i).mode = m := setMode_self tx i m
      have hother (j : Color) (hj : j ≠ i) :
          ((tx.setMode i m).flowCtrl j).mode = (tx.flowCtrl j).mode :=
        congrArg FlowControl.mode (Function.update_of_ne hj _ _)
      refine ⟨⟨fun j k hjk hj => ?_, fun j hj => ?_, ?_⟩, ⟨fun j => ?_, fun j => ?_⟩, ?_,
        fun j hj => ?_, fun hj => (by cases hj)⟩
      · by_cases hji : j = i
        · by_cases hki : k = i
          · rw [hji, hki]
          · rw [hji, hself, hother k hki] at hjk
            exact absurd hjk.symm (hnone k)
        · by_cases hki : k = i
          · rw [hki, hself, hother j hji] at hjk
            exact absurd hjk (hnone j)
          · rw [hother j hji, hother k hki] at hjk
            rw [hother j hji] at hj
            exact h.one j k hjk hj
      · by_cases hji : j = i
        · rw [hji, hself]
          exact hopen
        · rw [hother j hji] at hj ⊢
          exact h.opened j hj
      · simp only [setMode_flow]
        exact h.bound
      · by_cases hji : j = i
        · rw [hji]
          exact .inr ⟨hi, hself⟩
        · exact .inl (hother j hji)
      · rw [setMode_flow]
      · rw [usable, usable]
        refine Finset.sum_congr rfl fun j _ => ?_
        rw [setMode_flow]
        by_cases hji : j = i
        · rw [hji, if_pos (.inl hself), if_pos (.inr hi)]
        · rw [hother j hji]
      · cases hj
        exact hself

theorem credits_eq (h : Colours priv tx) (hm : m ≠ SPRDWL_MODE_NONE)
    (hopen : priv.fwStat m = .opened) : tx.credits priv m = usable tx m := by
  have hclear : Colours priv tx.clearColorNum := ⟨h.one, h.opened, h.bound⟩
  have hfinds := find_finds hclear hopen
  rw [TxMsg.credits]
  cases hfound : (sprdwlFcFindColorPerMode tx.clearColorNum priv m).2 with
  | none => exact (hfinds.notFound hfound).symm
  | some i =>
    rw [Option.elim_some, available_eq hfinds.colours hm (hfinds.found i hfound)]
    exact hfinds.usable_eq

theorem Colours.congr (h : Colours priv tx) (hctrl : tx'.flowCtrl = tx.flowCtrl) :
    Colours priv tx' := by
  refine ⟨?_, ?_, ?_⟩
  · rw [hctrl]
    exact h.one
  · rw [hctrl]
    exact h.opened
  · rw [hctrl]
    exact h.bound

theorem Serves.congr (h : Serves tx tx' m) (hctrl : tx''.flowCtrl = tx'.flowCtrl) :
    Serves tx tx'' m := by
  refine ⟨?_, ?_⟩
  · rw [hctrl]
    exact h.mode
  · rw [hctrl]
    exact h.flow

theorem usable_congr (hctrl : tx'.flowCtrl = tx.flowCtrl) : usable tx' m = usable tx m := by
  rw [usable, usable, hctrl]

theorem foldl_shared (is : List Color) (num : BitVec 32)
    (hsmall : num.toNat + (is.map tx.sharedFlow).sum < 2 ^ 31) :
    (is.foldl (fun shared i =>
      if (tx.flowCtrl i).mode = SPRDWL_MODE_NONE ∧ (tx.flowCtrl i).flow ≠ 0 then
        shared + (tx.flowCtrl i).flow
      else shared) num).toNat = num.toNat + (is.map tx.sharedFlow).sum := by
  induction is generalizing num with
  | nil => rfl
  | cons i is ih =>
    rw [List.map_cons, List.sum_cons] at hsmall ⊢
    rw [List.foldl_cons]
    by_cases hmode : (tx.flowCtrl i).mode = SPRDWL_MODE_NONE
    · have hshared : tx.sharedFlow i = (tx.flowCtrl i).flow.toNat := if_pos hmode
      by_cases hzero : (tx.flowCtrl i).flow = 0
      · rw [if_neg (by simp [hzero])]
        have hnone : tx.sharedFlow i = 0 := by
          rw [hshared, hzero]
          rfl
        rw [hnone, Nat.zero_add] at hsmall ⊢
        exact ih num hsmall
      · rw [if_pos ⟨hmode, hzero⟩]
        have hadd : (num + (tx.flowCtrl i).flow).toNat = num.toNat + tx.sharedFlow i := by
          rw [BitVec.toNat_add, hshared]
          exact Nat.mod_eq_of_lt (by omega)
        rw [ih _ (by omega), hadd, Nat.add_assoc]
    · have hnone : tx.sharedFlow i = 0 := if_neg hmode
      rw [if_neg fun h => hmode h.1]
      rw [hnone, Nat.zero_add] at hsmall ⊢
      exact ih num hsmall

theorem testSharedNum_eq (h : Colours priv tx) :
    (sprdwlFcTestSharedNum tx).toNat = ∑ c, tx.sharedFlow c := by
  have hle : ∑ c, tx.sharedFlow c ≤ ∑ c, (tx.flowCtrl c).flow.toNat := by
    refine Finset.sum_le_sum fun c _ => ?_
    rw [TxMsg.sharedFlow]
    split
    · exact le_refl _
    · exact Nat.zero_le _
  have hbound := h.bound
  have hsum : ((List.finRange MAX_COLOR_BIT).map tx.sharedFlow).sum = ∑ c, tx.sharedFlow c :=
    (Fin.sum_univ_def _).symm
  have hzero : (0 : BitVec 32).toNat = 0 := rfl
  rw [sprdwlFcTestSharedNum, foldl_shared _ _ (by omega), hsum, hzero, Nat.zero_add]

/-- How many packets of `n` a mode may send, and what finding that out does. -/
structure Limits (priv : Priv) (tx : TxMsg) (m : Mode) (n : ℕ) (r : TxMsg × ℤ) : Prop where
  colours : Colours priv r.1
  serves : Serves tx r.1 m
  usable_eq : usable r.1 m = usable tx m
  empty : usable tx m = 0 → r.2 ≤ 0
  some : usable tx m ≠ 0 → r.2 = (min (min n 100) (usable tx m) : ℕ)

theorem WithCredits.ne_none (hpriv : WithCredits priv) (hopen : priv.fwStat m = .opened) :
    m ≠ SPRDWL_MODE_NONE := by
  rintro rfl
  exact hpriv.noneClosed hopen

theorem testSendNum_limits {n : ℕ} (hpriv : WithCredits priv) (h : Colours priv tx)
    (hopen : priv.fwStat m = .opened) (hn : 0 < n) :
    Limits priv tx m n (sprdwlFcTestSendNum tx priv m n) := by
  have hm := hpriv.ne_none hopen
  have hfinds := find_finds h hopen
  have hlimit : (if (100 : ℤ) < n then (100 : ℤ) else n) = (min n 100 : ℕ) := by
    split <;> omega
  rw [sprdwlFcTestSendNum, if_neg (not_or.mpr ⟨by omega, hm⟩), if_neg hpriv.hwType]
  simp only [hpriv.creditCapa, reduceCtorEq, if_false, hlimit]
  cases hfound : (sprdwlFcFindColorPerMode tx priv m).2 with
  | none =>
    have hzero := hfinds.notFound hfound
    exact ⟨hfinds.colours, hfinds.serves, hfinds.usable_eq,
      fun _ => (by decide : (-ENOMEM : ℤ) ≤ 0), fun hne => absurd hzero hne⟩
  | some i =>
    have havailable := available_eq hfinds.colours hm (hfinds.found i hfound)
    rw [hfinds.usable_eq, TxMsg.available] at havailable
    have hle := usable_le tx m
    have hbound := h.bound
    have hshared := testSharedNum_eq hfinds.colours
    generalize sprdwlFcFindColorPerMode tx priv m = found at *
    have hadd : ((found.1.flowCtrl i).flow + sprdwlFcTestSharedNum found.1).toNat =
        usable tx m := by
      rw [BitVec.toNat_add, hshared, havailable]
      exact Nat.mod_eq_of_lt (by omega)
    have hint : ((found.1.flowCtrl i).flow + sprdwlFcTestSharedNum found.1).toInt =
        (usable tx m : ℤ) := by
      rw [BitVec.toInt_eq_toNat_of_lt (by omega), hadd]
    refine ⟨hfinds.colours, hfinds.serves, hfinds.usable_eq, fun hzero => ?_, fun hne => ?_⟩
    · simp only [hint]
      rw [if_pos (by omega)]
      decide
    · simp only [hint]
      rw [if_neg (by omega)]
      omega

theorem getSendNum_flowCtrl {n : ℕ} (hpriv : WithCredits priv) (hm : m ≠ SPRDWL_MODE_NONE)
    (hn : 0 < n) : (sprdwlFcGetSendNum tx priv m n).1.flowCtrl =
      (sprdwlFcFindColorPerMode tx.clearColorNum priv m).1.flowCtrl := by
  rw [sprdwlFcGetSendNum, if_neg (not_or.mpr ⟨by omega, hm⟩), if_neg hpriv.hwType]
  simp only [hpriv.creditCapa, reduceCtorEq, if_false]
  generalize (if 100 < n then 100 else n) = num
  split
  · rename_i i _
    have hsame := reserve_same (sprdwlFcFindColorPerMode tx.clearColorNum priv m).1 i num
    split <;> exact hsame.1
  · rfl

theorem getSendNum_limits {n : ℕ} (hpriv : WithCredits priv) (h : Colours priv tx)
    (hopen : priv.fwStat m = .opened) (hn : 0 < n) :
    Limits priv tx m n (sprdwlFcGetSendNum tx priv m n) ∧
      (usable tx m ≠ 0 → Reserved (sprdwlFcGetSendNum tx priv m n).1 m
        (min (min n 100) (usable tx m))) := by
  have hm := hpriv.ne_none hopen
  have hclear : Colours priv tx.clearColorNum := ⟨h.one, h.opened, h.bound⟩
  have hfinds := find_finds hclear hopen
  have hctrl := @getSendNum_flowCtrl tx priv m n hpriv hm hn
  obtain ⟨hzero, hsome, -⟩ := @getSendNum_spec tx priv m n hpriv.hwType hpriv.creditCapa
    h.toInt_nonneg hn.ne' hm
  rw [credits_eq h hm hopen] at hzero hsome
  refine ⟨⟨hfinds.colours.congr hctrl, ?_, ?_, fun hempty => ?_, fun hne => (hsome hne).1⟩,
    fun hne => (hsome hne).2⟩
  · have hserves := hfinds.serves.congr hctrl
    exact ⟨hserves.mode, hserves.flow⟩
  · rw [usable_congr hctrl]
    exact hfinds.usable_eq
  · rw [hzero hempty]
    decide

/-- A batch that the bus takes uses up what it has reserved. -/
theorem handleTxReturn_serves {n : ℕ} {sendNum : ℤ} (hpriv : WithCredits priv) (h : Colours priv tx)
    (hreserved : Reserved tx m n) :
    Colours priv (sprdwlHandleTxReturn tx priv sendNum 0) ∧
      Serves tx (sprdwlHandleTxReturn tx priv sendNum 0) m ∧
      usable (sprdwlHandleTxReturn tx priv sendNum 0) m + n = usable tx m := by
  have hmode (c : Color) : ((sprdwlHandleTxReturn tx priv sendNum 0).flowCtrl c).mode =
      (tx.flowCtrl c).mode := by
    rw [sprdwlHandleTxReturn, if_neg (not_not.mpr rfl)]
    simp only [hpriv.creditCapa, reduceCtorEq, if_false]
    split <;> rfl
  have hflow (c : Color) : ((sprdwlHandleTxReturn tx priv sendNum 0).flowCtrl c).flow.toNat +
      (tx.colorNum c).toNat = (tx.flowCtrl c).flow.toNat := by
    have hold := toInt_eq_toNat (h.toInt_nonneg c)
    have hle := hreserved.le c
    have hnew := @handleTxReturn_flow tx priv sendNum hpriv.creditCapa c (h.toInt_nonneg c) hle
    have hpos : 0 ≤ ((sprdwlHandleTxReturn tx priv sendNum 0).flowCtrl c).flow.toInt := by omega
    have hnat := toInt_eq_toNat hpos
    omega
  refine ⟨⟨fun i j => ?_, fun i => ?_, ?_⟩, ⟨fun c => .inl (hmode c), fun c => ?_⟩, ?_⟩
  · rw [hmode, hmode]
    exact h.one i j
  · rw [hmode]
    exact h.opened i
  · refine lt_of_le_of_lt (Finset.sum_le_sum fun c _ => ?_) h.bound
    have hc := hflow c
    omega
  · have hc := hflow c
    omega
  · rw [usable, usable, ← hreserved.sum, ← Finset.sum_add_distrib]
    refine Finset.sum_congr rfl fun c _ => ?_
    rw [hmode]
    split
    · exact hflow c
    · rename_i hnot
      have hzero : tx.colorNum c = 0 := by
        by_contra hne
        exact hnot (hreserved.usable c hne)
      rw [hzero]
      rfl

end Uwe5631.TxStalls
