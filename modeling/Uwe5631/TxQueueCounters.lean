import Uwe5631.TxQueues
import Mathlib.Algebra.BigOperators.Fin

/-!
# Counters of the transmit queues

Each queue and each mode keeps a count beside the lists. A step keeps all counts right unless a
queue is so long that the square of its length wraps when old packets are dropped.
-/
namespace Uwe5631.TxQueue

variable {tx tx' : TxMsg} {k k' : Mode × Peer} {mode m : Mode} {p : Peer} {num : ℤ}
  {maxnum : ℤ} {expired : MsgBuf → Bool}

/-- How far a queue's count is ahead of its list. -/
def TxMsg.lag (tx : TxMsg) (k : Mode × Peer) : ℤ :=
  (tx.pList k).lNum - (tx.pList k).headList.length

/-- How far a mode's count is ahead of its lists. -/
def TxMsg.modeLag (tx : TxMsg) (mode : Mode) : ℤ :=
  tx.modeListNum mode - ∑ p, ((tx.pList (mode, p)).headList.length : ℤ)

/-- All counts are right, and packets wait in queues of their mode. -/
structure Counted (tx : TxMsg) : Prop where
  lag : ∀ k, tx.lag k = 0
  modeLag : ∀ mode, tx.modeLag mode = 0
  home : ∀ k, ∀ msg ∈ (tx.pList k).headList, msg.mode = k.1

theorem setPeer_self (tx : TxMsg) (k : Mode × Peer) (list : PeerList) :
    (tx.setPeer k list).pList k = list := Function.update_self ..

theorem setPeer_ne (tx : TxMsg) (list : PeerList) (h : k' ≠ k) :
    (tx.setPeer k list).pList k' = tx.pList k' := Function.update_of_ne h ..

theorem addModeListNum_self (tx : TxMsg) (mode : Mode) (num : ℤ) :
    (tx.addModeListNum mode num).modeListNum mode = tx.modeListNum mode + num :=
  Function.update_self ..

theorem addModeListNum_ne (tx : TxMsg) (num : ℤ) (h : m ≠ mode) :
    (tx.addModeListNum mode num).modeListNum m = tx.modeListNum m := Function.update_of_ne h ..

theorem lag_setPeer (tx : TxMsg) (k k' : Mode × Peer) (list : PeerList) :
    (tx.setPeer k list).lag k' = if k' = k then list.lNum - list.headList.length else tx.lag k' := by
  rw [TxMsg.lag]
  split
  · rename_i hk
    rw [hk, setPeer_self]
  · rename_i hk
    rw [setPeer_ne tx list hk]
    rfl

theorem sum_setPeer (tx : TxMsg) (k : Mode × Peer) (list : PeerList) (mode : Mode) :
    ∑ p, (((tx.setPeer k list).pList (mode, p)).headList.length : ℤ) =
      ∑ p, ((tx.pList (mode, p)).headList.length : ℤ) +
        if mode = k.1 then (list.headList.length : ℤ) - (tx.pList k).headList.length else 0 := by
  split
  · rename_i hmode
    subst hmode
    rw [← Finset.add_sum_erase _ _ (Finset.mem_univ k.2), ← Finset.add_sum_erase _ (fun p =>
      ((tx.pList (k.1, p)).headList.length : ℤ)) (Finset.mem_univ k.2)]
    have hrest : ∀ p ∈ Finset.univ.erase k.2,
        (((tx.setPeer k list).pList (k.1, p)).headList.length : ℤ) =
          (tx.pList (k.1, p)).headList.length := by
      intro p hp
      rw [setPeer_ne tx list fun hk => Finset.ne_of_mem_erase hp (congrArg Prod.snd hk)]
    rw [Finset.sum_congr rfl hrest, setPeer_self]
    ring
  · rename_i hmode
    rw [add_zero]
    refine Finset.sum_congr rfl fun p _ => ?_
    rw [setPeer_ne tx list fun hk => hmode (congrArg Prod.fst hk)]

theorem modeLag_setPeer (tx : TxMsg) (k : Mode × Peer) (list : PeerList) (mode : Mode) :
    (tx.setPeer k list).modeLag mode = tx.modeLag mode -
      if mode = k.1 then (list.headList.length : ℤ) - (tx.pList k).headList.length else 0 := by
  rw [TxMsg.modeLag, sum_setPeer, TxMsg.modeLag]
  exact (sub_sub _ _ _).symm

theorem modeLag_addModeListNum (tx : TxMsg) (mode m : Mode) (num : ℤ) :
    (tx.addModeListNum mode num).modeLag m = tx.modeLag m + if m = mode then num else 0 := by
  rw [TxMsg.modeLag, TxMsg.modeLag]
  have hlists : (tx.addModeListNum mode num).pList = tx.pList := rfl
  rw [hlists]
  split
  · rename_i hm
    rw [hm, addModeListNum_self]
    ring
  · rename_i hm
    rw [addModeListNum_ne tx num hm, add_zero]

theorem Counted.lNum (h : Counted tx) (k : Mode × Peer) :
    (tx.pList k).lNum = (tx.pList k).headList.length := sub_eq_zero.mp (h.lag k)

/-- A list is replaced, and the count of its mode follows. -/
def TxMsg.replace (tx : TxMsg) (k : Mode × Peer) (list : PeerList) : TxMsg :=
  (tx.setPeer k list).addModeListNum k.1
    ((list.headList.length : ℤ) - (tx.pList k).headList.length)

theorem replace_self (tx : TxMsg) (k : Mode × Peer) (list : PeerList) :
    (tx.replace k list).pList k = list := setPeer_self ..

theorem replace_ne (tx : TxMsg) (list : PeerList) (h : k' ≠ k) :
    (tx.replace k list).pList k' = tx.pList k' := setPeer_ne tx list h

theorem replace_lag (tx : TxMsg) (k k' : Mode × Peer) (list : PeerList) :
    (tx.replace k list).lag k' = if k' = k then list.lNum - list.headList.length else tx.lag k' :=
  lag_setPeer ..

theorem replace_modeLag (tx : TxMsg) (k : Mode × Peer) (list : PeerList) (mode : Mode) :
    (tx.replace k list).modeLag mode = tx.modeLag mode := by
  rw [TxMsg.replace, modeLag_addModeListNum, modeLag_setPeer]
  ring

theorem replace_home {list : PeerList} (h : ∀ k, ∀ msg ∈ (tx.pList k).headList, msg.mode = k.1)
    (hlist : ∀ msg ∈ list.headList, msg.mode = k.1) (k' : Mode × Peer) :
    ∀ msg ∈ ((tx.replace k list).pList k').headList, msg.mode = k'.1 := by
  by_cases hk : k' = k
  · rw [hk, replace_self]
    exact hlist
  · rw [replace_ne tx list hk]
    exact h k'

theorem Counted.replace (h : Counted tx) (list : PeerList)
    (hnum : list.lNum = list.headList.length) (hhome : ∀ msg ∈ list.headList, msg.mode = k.1) :
    Counted (tx.replace k list) where
  lag k' := by rw [replace_lag, hnum, sub_self, h.lag, ite_self]
  modeLag m := by rw [replace_modeLag, h.modeLag]
  home := replace_home h.home hhome

/-- Counts depend on the queues only. -/
theorem Counted.of_same (h : Counted tx) (hlist : tx'.pList = tx.pList)
    (hnum : tx'.modeListNum = tx.modeListNum) : Counted tx' where
  lag k := by
    rw [TxMsg.lag, hlist]
    exact h.lag k
  modeLag m := by
    rw [TxMsg.modeLag, hlist, hnum]
    exact h.modeLag m
  home k msg hmsg := by
    rw [hlist] at hmsg
    exact h.home k msg hmsg

/-! ## Steps that keep the counts right -/

theorem Counted.queue (h : Counted tx) (msg : MsgBuf) (p : Peer) (swRate : Bool) :
    Counted (sprdwlQueueDataMsgBuf tx msg p swRate) := by
  have hlength : ∀ l : List MsgBuf, (if swRate then msg :: l else l ++ [msg]).length =
      l.length + 1 := by
    intro l
    cases swRate <;> simp
  have hset := h.replace (k := (msg.mode, p))
    { headList := if swRate then msg :: (tx.pList (msg.mode, p)).headList
        else (tx.pList (msg.mode, p)).headList ++ [msg]
      lNum := (tx.pList (msg.mode, p)).lNum + 1 }
    (by rw [hlength, h.lNum]; push_cast; rfl)
    (fun m hm => by
      have hmem : m = msg ∨ m ∈ (tx.pList (msg.mode, p)).headList := by
        cases swRate with
        | false => simpa [or_comm] using hm
        | true => simpa using hm
      rcases hmem with rfl | hmem
      · rfl
      · exact h.home _ m hmem)
  rw [TxMsg.replace, hlength] at hset
  push_cast at hset
  rw [add_sub_cancel_left] at hset
  exact hset

theorem Counted.flushQoslist (h : Counted tx) (mode : Mode) (p : Peer) :
    Counted (sprdwlFlushTxQoslist tx mode p).1 := by
  rw [sprdwlFlushTxQoslist]
  split
  · exact h
  · have hset := h.replace (k := (mode, p)) ⟨[], 0⟩ rfl (by simp)
    rw [TxMsg.replace, List.length_nil, Nat.cast_zero, zero_sub] at hset
    rw [h.lNum]
    exact hset

theorem Counted.flushMode (h : Counted tx) (mode : Mode) :
    Counted (sprdwlFlushModeTxlist tx mode).1 := by
  have hempty : ∀ p, ((sprdwlFlushModeTxlist tx mode).1.pList (mode, p)).headList = [] := by
    intro p
    rw [sprdwlFlushModeTxlist]
    dsimp only
    rw [if_pos rfl]
    split
    · assumption
    · rfl
  have hother : ∀ k, k.1 ≠ mode → (sprdwlFlushModeTxlist tx mode).1.pList k = tx.pList k :=
    fun k hk => if_neg hk
  refine ⟨fun k => ?_, fun m => ?_, fun k msg hmsg => ?_⟩
  · by_cases hk : k.1 = mode
    · rw [TxMsg.lag, sprdwlFlushModeTxlist]
      dsimp only
      rw [if_pos hk]
      split
      · exact h.lag k
      · rfl
    · rw [TxMsg.lag, hother k hk]
      exact h.lag k
  · by_cases hm : m = mode
    · subst hm
      have hnum : (sprdwlFlushModeTxlist tx m).1.modeListNum m = 0 := Function.update_self ..
      rw [TxMsg.modeLag, hnum]
      simp [hempty]
    · have hnum : (sprdwlFlushModeTxlist tx mode).1.modeListNum m = tx.modeListNum m :=
        Function.update_of_ne hm ..
      rw [TxMsg.modeLag, hnum]
      simp only [hother _ (show (m, _).1 ≠ mode from hm)]
      exact h.modeLag m
  · by_cases hk : k.1 = mode
    · obtain ⟨m, p⟩ := k
      dsimp only at hk
      subst hk
      rw [hempty p] at hmsg
      cases hmsg
    · rw [hother k hk] at hmsg
      exact h.home k msg hmsg

theorem addXmitListTail_moves (h : 0 < num ∧ num ≤ (tx.pList k).headList.length) :
    addXmitListTail tx k num =
      { tx.setPeer k { tx.pList k with headList := (tx.pList k).headList.drop num.toNat } with
        toSendList := tx.toSendList ++ (tx.pList k).headList.take num.toNat } := if_pos h

/-- Merging no more than there is takes the same from list and counts. -/
theorem merge_fits (hpos : 0 < num) (hle : num ≤ (tx.pList k).headList.length) :
    (tx.merge k num).pList = (tx.replace k
      ⟨(tx.pList k).headList.drop num.toNat, (tx.pList k).lNum - num⟩).pList ∧
    (tx.merge k num).modeListNum = (tx.replace k
      ⟨(tx.pList k).headList.drop num.toNat, (tx.pList k).lNum - num⟩).modeListNum := by
  have hlength : (((tx.pList k).headList.drop num.toNat).length : ℤ) -
      (tx.pList k).headList.length = -num := by
    rw [List.length_drop]
    omega
  rw [TxMsg.replace, hlength, TxMsg.merge, addXmitListTail_moves ⟨hpos, hle⟩]
  refine ⟨?_, rfl⟩
  funext k'
  by_cases hk : k' = k
  · subst hk
    simp [TxMsg.addModeListNum, TxMsg.setPeer]
  · simp [TxMsg.addModeListNum, TxMsg.setPeer, Function.update_of_ne hk]

theorem merge_lag_of_fits (hpos : 0 < num) (hle : num ≤ (tx.pList k).headList.length)
    (k' : Mode × Peer) : (tx.merge k num).lag k' = tx.lag k' := by
  rw [TxMsg.lag, (merge_fits hpos hle).1]
  change (tx.replace k _).lag k' = _
  rw [replace_lag]
  split
  · rename_i hk
    rw [hk, TxMsg.lag]
    dsimp only
    rw [List.length_drop]
    omega
  · rfl

theorem merge_modeLag_of_fits (hpos : 0 < num) (hle : num ≤ (tx.pList k).headList.length)
    (mode : Mode) : (tx.merge k num).modeLag mode = tx.modeLag mode := by
  rw [TxMsg.modeLag, (merge_fits hpos hle).1, (merge_fits hpos hle).2]
  exact replace_modeLag ..

/-- Merging more than there is takes from the counts alone. -/
theorem merge_over (h : (tx.pList k).headList.length < num) :
    tx.merge k num =
      (tx.setPeer k { tx.pList k with lNum := (tx.pList k).lNum - num }).addModeListNum k.1 (-num) := by
  rw [TxMsg.merge, addXmitListTail, if_neg (by omega)]

theorem merge_ne (h : k' ≠ k) : (tx.merge k num).pList k' = tx.pList k' := by
  have htail : (addXmitListTail tx k num).pList k' = tx.pList k' := by
    rw [addXmitListTail]
    dsimp only
    split
    · exact setPeer_ne tx _ h
    · rfl
  exact (setPeer_ne _ _ h).trans htail

theorem Counted.merge (h : Counted tx) (hpos : 0 < num)
    (hle : num ≤ (tx.pList k).headList.length) : Counted (tx.merge k num) where
  lag k' := (merge_lag_of_fits hpos hle k').trans (h.lag k')
  modeLag m := (merge_modeLag_of_fits hpos hle m).trans (h.modeLag m)
  home := by
    rw [(merge_fits hpos hle).1]
    exact replace_home h.home fun msg hmsg => h.home k msg (List.mem_of_mem_drop hmsg)

/-- Shares of different queues, none more than its queue holds, are merged. -/
theorem Counted.mergeAll {shares : List (Peer × ℤ)} (h : Counted tx)
    (hnodup : (shares.map Prod.fst).Nodup)
    (hfit : ∀ share ∈ shares, 0 < share.2 ∧ share.2 ≤ (tx.pList (mode, share.1)).headList.length) :
    Counted (tx.mergeAll mode shares) := by
  induction shares generalizing tx with
  | nil => exact h
  | cons share shares ih =>
    rw [List.map_cons, List.nodup_cons] at hnodup
    obtain ⟨hpos, hle⟩ := hfit share (List.mem_cons_self ..)
    refine ih (h.merge hpos hle) hnodup.2 fun other hother => ?_
    have hne : (mode, other.1) ≠ (mode, share.1) := by
      intro heq
      exact hnodup.1 (List.mem_map.mpr ⟨other, hother, congrArg Prod.snd heq⟩)
    rw [merge_ne hne]
    exact hfit other (List.mem_cons_of_mem share hother)

/-! ## Dropping old packets -/

/-- The square of the length wraps to a number that makes the drop negative. -/
def Overflows (maxnum : ℤ) (expired : MsgBuf → Bool) (list : PeerList) : Prop :=
  (∃ tailbuf ∈ list.headList.head?, expired tailbuf = true) ∧ delListNum list.lNum maxnum < 0

/-- No queue's count is behind its list, and the counts of the modes are right. -/
structure Ahead (tx : TxMsg) : Prop where
  lag : ∀ k, 0 ≤ tx.lag k
  modeLag : ∀ mode, tx.modeLag mode = 0
  home : ∀ k, ∀ msg ∈ (tx.pList k).headList, msg.mode = k.1

theorem Counted.ahead (h : Counted tx) : Ahead tx := ⟨fun k => (h.lag k).ge, h.modeLag, h.home⟩

theorem Ahead.counted (h : Ahead tx) (hlag : ∀ k, tx.lag k = 0) : Counted tx :=
  ⟨hlag, h.modeLag, h.home⟩

/-- What the first loop leaves: a queue is out of step exactly if its drop overflowed. -/
structure Dropped (maxnum : ℤ) (expired : MsgBuf → Bool) (mode : Mode) (ps : List Peer) (tx : TxMsg)
    (pListNum : Peer → ℤ) (tx' : TxMsg) (pListNum' : Peer → ℤ) : Prop where
  ahead : Ahead tx'
  others : ∀ k, (k.1 = mode → k.2 ∉ ps) → tx'.pList k = tx.pList k
  lag : ∀ p ∈ ps, tx'.lag (mode, p) = 0 ↔ ¬ Overflows maxnum expired (tx.pList (mode, p))
  counted : ∀ p ∈ ps, pListNum' p = (tx'.pList (mode, p)).lNum
  uncounted : ∀ p, p ∉ ps → pListNum' p = pListNum p

theorem Dropped.cons {ps : List Peer} {tx₁ : TxMsg} {pListNum pListNum₁ pListNum' : Peer → ℤ}
    (hp : p ∉ ps) (hothers : ∀ k, k ≠ (mode, p) → tx₁.pList k = tx.pList k)
    (hlag : tx₁.lag (mode, p) = 0 ↔ ¬ Overflows maxnum expired (tx.pList (mode, p)))
    (hcounted : pListNum₁ p = (tx₁.pList (mode, p)).lNum)
    (huncounted : ∀ p', p' ≠ p → pListNum₁ p' = pListNum p')
    (h : Dropped maxnum expired mode ps tx₁ pListNum₁ tx' pListNum') :
    Dropped maxnum expired mode (p :: ps) tx pListNum tx' pListNum' := by
  have hself : tx'.pList (mode, p) = tx₁.pList (mode, p) := h.others (mode, p) fun _ => hp
  have hne : ∀ q ∈ ps, (mode, q) ≠ (mode, p) := by
    intro q hq heq
    have hqp : q = p := congrArg Prod.snd heq
    exact hp (hqp ▸ hq)
  refine ⟨h.ahead, fun k hk => ?_, fun q hq => ?_, fun q hq => ?_, fun q hq => ?_⟩
  · rw [h.others k fun hmode hmem => hk hmode (List.mem_cons_of_mem p hmem)]
    refine hothers k fun heq => ?_
    subst heq
    exact hk rfl (List.mem_cons_self ..)
  · rcases List.mem_cons.mp hq with rfl | hq
    · rw [TxMsg.lag, hself]
      exact hlag
    · rw [h.lag q hq, hothers _ (hne q hq)]
  · rcases List.mem_cons.mp hq with rfl | hq
    · rw [h.uncounted q hp, hcounted, hself]
    · exact h.counted q hq
  · obtain ⟨hqp, hqs⟩ := not_or.mp (mt List.mem_cons.mpr hq)
    rw [h.uncounted q hqs, huncounted q hqp]

/-- The shares are of different queues, and none is more than was counted of its queue. -/
structure Fits (pListNum : Peer → ℤ) (shares : List (Peer × ℤ)) : Prop where
  nodup : (shares.map Prod.fst).Nodup
  pos : ∀ share ∈ shares, 0 < share.2
  le : ∀ share ∈ shares, share.2 ≤ pListNum share.1

variable {pListNum : Peer → ℤ}

theorem qListNum_nonneg (hnum : ∀ p, 0 ≤ pListNum p) (i : Ac) : 0 ≤ qListNum pListNum i := by
  refine List.sum_nonneg fun x hx => ?_
  obtain ⟨j, -, rfl⟩ := List.mem_map.mp hx
  exact hnum (i, j)

theorem fits_allCounted (hnum : ∀ p, 0 ≤ pListNum p) : Fits pListNum (allCounted pListNum) := by
  have hmem : ∀ i, ∀ share ∈ (if qListNum pListNum i ≤ 0 then []
      else (List.finRange MAX_LUT_NUM).filterMap fun j =>
        if pListNum (i, j) = 0 then none else some ((i, j), pListNum (i, j))),
      share.1.1 = i ∧ share.2 = pListNum share.1 ∧ share.2 ≠ 0 := by
    intro i share hshare
    split at hshare
    · cases hshare
    · obtain ⟨j, -, hj⟩ := List.mem_filterMap.mp hshare
      split at hj
      · cases hj
      · rename_i hne
        cases hj
        exact ⟨rfl, rfl, hne⟩
  have hall : ∀ share ∈ allCounted pListNum, share.2 = pListNum share.1 ∧ share.2 ≠ 0 := by
    intro share hshare
    obtain ⟨i, -, hi⟩ := List.mem_flatMap.mp hshare
    exact (hmem i share hi).2
  refine ⟨?_, fun share hshare => ?_, fun share hshare => (hall share hshare).1.le⟩
  · rw [allCounted, List.map_flatMap, List.nodup_flatMap]
    refine ⟨fun i _ => ?_, (List.nodup_finRange _).imp fun {i j} hij => ?_⟩
    · split
      · exact List.nodup_nil
      · rw [List.map_filterMap]
        refine (List.nodup_finRange _).filterMap fun j j' p hj hj' => ?_
        split at hj
        · cases hj
        · split at hj'
          · cases hj'
          · cases hj
            cases hj'
            rfl
    · intro p hp hp'
      obtain ⟨share, hshare, rfl⟩ := List.mem_map.mp hp
      obtain ⟨share', hshare', heq⟩ := List.mem_map.mp hp'
      refine hij ?_
      rw [← (hmem i share hshare).1, ← (hmem j share' hshare').1, heq]
  · obtain ⟨heq, hne⟩ := hall share hshare
    exact lt_of_le_of_ne (heq ▸ hnum share.1) (Ne.symm hne)

theorem tdiv_le_left {a b q : ℤ} (ha : 0 ≤ a) (hb : 0 ≤ b) (hbq : b ≤ q) : (a * b).tdiv q ≤ a := by
  rw [Int.tdiv_eq_ediv_of_nonneg (mul_nonneg ha hb)]
  rcases eq_or_lt_of_le (hb.trans hbq) with hq | hq
  · rw [← hq, Int.ediv_zero]
    exact ha
  · exact Int.ediv_le_of_le_mul hq (mul_le_mul_of_nonneg_left hbq ha)

/-- What is left of a share is no more than what is left of the packets. -/
theorem sub_tdiv_le {a b q : ℤ} (ha : 0 ≤ a) (haq : a ≤ q) (hb : 0 ≤ b) (hbq : b ≤ q) :
    b - (a * b).tdiv q ≤ q - a := by
  rw [Int.tdiv_eq_ediv_of_nonneg (mul_nonneg ha hb)]
  rcases eq_or_lt_of_le (hb.trans hbq) with hq | hq
  · rw [← hq, Int.ediv_zero]
    omega
  · have hdiv := Int.mul_ediv_add_emod (a * b) q
    have hmod := Int.emod_lt_of_pos (a * b) hq
    have hprod : (q - a) * b ≤ (q - a) * q := mul_le_mul_of_nonneg_left hbq (sub_nonneg.mpr haq)
    have hlt : q * (b - a * b / q) < q * (q - a + 1) := by
      calc q * (b - a * b / q) = q * b - a * b + a * b % q := by rw [mul_sub]; omega
        _ = (q - a) * b + a * b % q := by ring
        _ < (q - a) * q + q := by omega
        _ = q * (q - a + 1) := by ring
    have hsub := lt_of_mul_lt_mul_left hlt hq.le
    omega

theorem peerShares_fits (i : Ac) {num : Lut → ℤ} (hnum : ∀ j, 0 ≤ num j) {js : List Lut}
    (hnodup : js.Nodup) {fp q : ℤ} (hfp : 0 ≤ fp) (hle : fp ≤ q) (hq : (js.map num).sum = q) :
    ((peerShares i num js fp q).map Prod.fst).Nodup ∧
      ∀ share ∈ peerShares i num js fp q,
        share.1.1 = i ∧ share.1.2 ∈ js ∧ 0 < share.2 ∧ share.2 ≤ num share.1.2 := by
  induction js generalizing fp q with
  | nil => exact ⟨List.nodup_nil, fun share hshare => by cases hshare⟩
  | cons j js ih =>
    obtain ⟨hj, hrest⟩ := List.nodup_cons.mp hnodup
    rw [List.map_cons, List.sum_cons] at hq
    have htail : 0 ≤ (js.map num).sum := by
      refine List.sum_nonneg fun x hx => ?_
      obtain ⟨j', -, rfl⟩ := List.mem_map.mp hx
      exact hnum j'
    have hfirst := hnum j
    rw [peerShares]
    dsimp only
    split
    · rename_i hzero
      obtain ⟨hdistinct, hfits⟩ := ih hrest hfp hle (by omega)
      exact ⟨hdistinct, fun share hshare => by
        obtain ⟨hi, hmem, hshare⟩ := hfits share hshare
        exact ⟨hi, List.mem_cons_of_mem j hmem, hshare⟩⟩
    · rename_i hsome
      have hround : (num j * fp).tdiv q ≤ num j := tdiv_le_left hfirst hfp hle
      have hleft := sub_tdiv_le hfirst (by omega) hfp hle
      generalize hr : (if 0 < fp ∧ (num j * fp).tdiv q = 0 then 1
        else (num j * fp).tdiv q) = roundNum
      have hbounds : roundNum ≤ num j ∧ fp - roundNum ≤ q - num j := by
        rw [← hr]
        split_ifs <;> omega
      split
      · exact ⟨List.nodup_nil, fun share hshare => by cases hshare⟩
      · rename_i hmin
        split
        · refine ⟨List.nodup_singleton _, fun share hshare => ?_⟩
          rw [List.mem_singleton] at hshare
          subst hshare
          exact ⟨rfl, List.mem_cons_self .., by omega, by dsimp only; omega⟩
        · obtain ⟨hdistinct, hfits⟩ := @ih hrest (fp - min roundNum fp) (q - num j)
            (by omega) (by omega) (by omega)
          refine ⟨?_, fun share hshare => ?_⟩
          · rw [List.map_cons, List.nodup_cons]
            refine ⟨fun hmem => ?_, hdistinct⟩
            obtain ⟨share, hshare, heq⟩ := List.mem_map.mp hmem
            have hjs := (hfits share hshare).2.1
            rw [heq] at hjs
            exact hj hjs
          · rcases List.mem_cons.mp hshare with rfl | hshare
            · exact ⟨rfl, List.mem_cons_self .., by omega, by dsimp only; omega⟩
            · obtain ⟨hi, hmem, hshare⟩ := hfits share hshare
              exact ⟨hi, List.mem_cons_of_mem j hmem, hshare⟩

/-- An access category gets no more than it has, and the others no less than what is left. -/
theorem fpNum_spec (ratios : Ratios) (i : Ac) (sendNum total q : ℤ) (hq : 0 < q) (hqt : q ≤ total)
    (hsend : 0 < sendNum) (hst : sendNum ≤ total) :
    0 ≤ fpNum ratios i sendNum total q ∧ fpNum ratios i sendNum total q ≤ q ∧
      (total - q ≤ 0 ∨ sendNum - fpNum ratios i sendNum total q ≤ total - q) := by
  have hpercent : ∀ ratio, 0 ≤ percent sendNum ratio := fun ratio => Int.natCast_nonneg _
  have hdiv : (sendNum * q).tdiv total ≤ q := by
    rw [mul_comm]
    exact tdiv_le_left hq.le hsend.le hst
  have hdiv' : 0 ≤ (sendNum * q).tdiv total :=
    Int.tdiv_nonneg (mul_nonneg hsend.le hq.le) (hq.le.trans hqt)
  have hvo := hpercent ratios.vo
  have hvi := hpercent ratios.vi
  have hbe := hpercent ratios.be
  rw [fpNum]
  generalize hbase : (if i = SPRDWL_AC_VO ∧ q < total then min (percent sendNum ratios.vo) q
    else if i = SPRDWL_AC_VI ∧ q < total then min (percent sendNum ratios.vi) q
    else if i = SPRDWL_AC_BE ∧ q < total then min (percent sendNum ratios.be) q
    else (sendNum * q).tdiv total) = base
  have hbounds : 0 ≤ base ∧ base ≤ q := by
    rw [← hbase]
    split_ifs <;> omega
  split_ifs <;> omega

theorem acShares_fits (ratios : Ratios) (hnum : ∀ p, 0 ≤ pListNum p) {is : List Ac}
    (hnodup : is.Nodup) {sendNum total : ℤ} (htotal : (is.map (qListNum pListNum)).sum = total)
    (hle : total ≤ 0 ∨ sendNum ≤ total) :
    Fits pListNum (acShares ratios pListNum is sendNum total) ∧
      ∀ share ∈ acShares ratios pListNum is sendNum total, share.1.1 ∈ is := by
  induction is generalizing sendNum total with
  | nil => exact ⟨⟨List.nodup_nil, fun _ h => (by cases h), fun _ h => (by cases h)⟩,
      fun _ h => (by cases h)⟩
  | cons i is ih =>
    obtain ⟨hi, hrest⟩ := List.nodup_cons.mp hnodup
    rw [List.map_cons, List.sum_cons] at htotal
    have hfirst := qListNum_nonneg hnum i
    have htail : 0 ≤ (is.map (qListNum pListNum)).sum := by
      refine List.sum_nonneg fun x hx => ?_
      obtain ⟨i', -, rfl⟩ := List.mem_map.mp hx
      exact qListNum_nonneg hnum i'
    rw [acShares]
    split
    · rename_i hzero
      obtain ⟨hfits, hmem⟩ := @ih hrest sendNum total (by omega) hle
      exact ⟨hfits, fun share hshare => List.mem_cons_of_mem i (hmem share hshare)⟩
    · rename_i hsome
      split
      · exact ⟨⟨List.nodup_nil, fun _ h => (by cases h), fun _ h => (by cases h)⟩,
          fun _ h => (by cases h)⟩
      · rename_i hsend
        obtain ⟨hfp, hfpq, hleft⟩ := fpNum_spec ratios i sendNum total
          (qListNum pListNum i) (by omega) (by omega) (by omega) (by omega)
        obtain ⟨hdistinct, hpeer⟩ := peerShares_fits i
          (fun j => hnum (i, j)) (List.nodup_finRange MAX_LUT_NUM) hfp hfpq rfl
        obtain ⟨hfits, hmem⟩ := @ih hrest _ (total - qListNum pListNum i) (by omega) hleft
        have hkey : ∀ share ∈ peerShares i (fun j => pListNum (i, j)) (List.finRange MAX_LUT_NUM)
            (fpNum ratios i sendNum total (qListNum pListNum i)) (qListNum pListNum i),
            0 < share.2 ∧ share.2 ≤ pListNum share.1 := by
          intro share hshare
          obtain ⟨hac, -, hpos, hcount⟩ := hpeer share hshare
          rw [← hac] at hcount
          exact ⟨hpos, hcount⟩
        refine ⟨⟨?_, fun share hshare => ?_, fun share hshare => ?_⟩, fun share hshare => ?_⟩
        · rw [List.map_append, List.nodup_append]
          refine ⟨hdistinct, hfits.nodup, fun p hp p' hp' heq => ?_⟩
          obtain ⟨share, hshare, rfl⟩ := List.mem_map.mp hp
          obtain ⟨share', hshare', rfl⟩ := List.mem_map.mp hp'
          have hac := (hpeer share hshare).1
          rw [heq] at hac
          exact hi (hac ▸ hmem share' hshare')
        · exact (List.mem_append.mp hshare).elim (fun h => (hkey share h).1) (hfits.pos share)
        · exact (List.mem_append.mp hshare).elim (fun h => (hkey share h).2) (hfits.le share)
        · rcases List.mem_append.mp hshare with h | h
          · rw [(hpeer share h).1]
            exact List.mem_cons_self ..
          · exact List.mem_cons_of_mem i (hmem share h)

/-! ## Runs of the queues -/

/-- A mode's count is behind its lists, or is right while a queue's count is ahead. -/
def Behind (tx : TxMsg) (mode : Mode) : Prop :=
  tx.modeLag mode < 0 ∨ tx.modeLag mode = 0 ∧ ∃ k, 0 < tx.lag k

/-- A count that an overflow has put out of step is not put right by merging. -/
theorem Behind.merge (h : Behind tx mode) (hpos : 0 < num) (p : Peer) :
    Behind (tx.merge (mode, p) num) mode := by
  by_cases hle : num ≤ (tx.pList (mode, p)).headList.length
  · have hlag := merge_lag_of_fits hpos hle
    rw [Behind, merge_modeLag_of_fits hpos hle]
    simp only [hlag]
    exact h
  · have hmode : (tx.merge (mode, p) num).modeLag mode = tx.modeLag mode - num := by
      rw [merge_over (not_le.mp hle), modeLag_addModeListNum, modeLag_setPeer, if_pos rfl,
        if_pos rfl]
      dsimp only
      omega
    refine .inl ?_
    rcases h with h | ⟨h, -⟩ <;> omega

theorem Behind.mergeAll {shares : List (Peer × ℤ)} (h : Behind tx mode)
    (hpos : ∀ share ∈ shares, 0 < share.2) : Behind (tx.mergeAll mode shares) mode := by
  induction shares generalizing tx with
  | nil => exact h
  | cons share shares ih =>
    exact ih (h.merge (hpos share (List.mem_cons_self ..)) share.1)
      fun other hother => hpos other (List.mem_cons_of_mem share hother)

/-- The counts are right. -/
def CountsRight (tx : TxMsg) : Prop :=
  (∀ k, (tx.pList k).lNum = (tx.pList k).headList.length) ∧
    ∀ mode, tx.modeListNum mode = ∑ p, (tx.pList (mode, p)).lNum

theorem CountsRight.of_same (h : CountsRight tx) (hlist : tx'.pList = tx.pList)
    (hnum : tx'.modeListNum = tx.modeListNum) : CountsRight tx' := by
  rw [CountsRight, hlist, hnum]
  exact h

theorem init_counted : Counted .init where
  lag _ := rfl
  modeLag mode := by simp [TxMsg.modeLag, TxMsg.init]
  home k msg hmsg := by cases hmsg

end Uwe5631.TxQueue
