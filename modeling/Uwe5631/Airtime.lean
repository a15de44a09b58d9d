import Uwe5631.TxStalls

/-!
# Airtime apportionment

With fewer credits than packets `sprdwl_tx_eachmode_data` gives each access category a part of the
credits and each peer a part of its access category's. Here the divisions are carried out by a
machine that stops where a divisor is zero or a product is too large.
-/
namespace Uwe5631.Airtime
open TxQueue FallibleRuns
open TxStalls (Sane fpNum_le peerShares_sum acShares_sum)

inductive Fault where
  | divideByZero
  | overflow

/-- `a * b / c`, where an int holds numbers up to the limit. -/
def mulDiv (limit a b c : ℤ) : Except Fault ℤ :=
  if limit < a * b then .error .overflow
  else if c = 0 then .error .divideByZero
  else .ok ((a * b).tdiv c)

/-- `fp_num` of an access category. -/
def roundNum (limit : ℤ) (ratios : Ratios) (i : Ac) (sendNum total qNum : ℤ) : Except Fault ℤ :=
  (if i = SPRDWL_AC_VO ∧ qNum < total then .ok (min (percent sendNum ratios.vo) qNum)
    else if i = SPRDWL_AC_VI ∧ qNum < total then .ok (min (percent sendNum ratios.vi) qNum)
    else if i = SPRDWL_AC_BE ∧ qNum < total then .ok (min (percent sendNum ratios.be) qNum)
    else mulDiv limit sendNum qNum total).map fun fpNum =>
      if total - qNum < sendNum - fpNum ∧ 0 < total - qNum then
        fpNum + (sendNum - fpNum - (total - qNum))
      else fpNum

/-- The inner loop over the peers of an access category. -/
def peerLoop (limit : ℤ) (i : Ac) (pListNum : Lut → ℤ) :
    List Lut → ℤ → ℤ → Except Fault (List (Peer × ℤ))
  | [], _, _ => .ok []
  | j :: js, fpNum, qNum =>
    if pListNum j = 0 then peerLoop limit i pListNum js fpNum qNum
    else
      (mulDiv limit (pListNum j) fpNum qNum).bind fun roundNum =>
        let roundNum := if 0 < fpNum ∧ roundNum = 0 then 1 else roundNum
        let minNum := min roundNum fpNum
        if minNum ≤ 0 then .ok []
        else if fpNum - minNum ≤ 0 then .ok [((i, j), minNum)]
        else (peerLoop limit i pListNum js (fpNum - minNum) (qNum - pListNum j)).map
          fun shares => ((i, j), minNum) :: shares

/-- What an access category is asked for, and its peers. -/
structure AcShare where
  ac : Ac
  fpNum : ℤ
  peers : List (Peer × ℤ)

/-- The loop over the access categories. -/
def acLoop (limit : ℤ) (ratios : Ratios) (pListNum : Peer → ℤ) :
    List Ac → ℤ → ℤ → Except Fault (List AcShare)
  | [], _, _ => .ok []
  | i :: is, sendNum, total =>
    let qNum := qListNum pListNum i
    if qNum ≤ 0 then acLoop limit ratios pListNum is sendNum total
    else if sendNum ≤ 0 then .ok []
    else
      (roundNum limit ratios i sendNum total qNum).bind fun fp =>
      (peerLoop limit i (fun j => pListNum (i, j)) (List.finRange MAX_LUT_NUM) fp qNum).bind
        fun peers => (acLoop limit ratios pListNum is (sendNum - fp) (total - qNum)).map
          fun rest => ⟨i, fp, peers⟩ :: rest

variable {limit : ℤ} {ratios : Ratios} {pListNum : Peer → ℤ}

theorem mulDiv_eq {a b c : ℤ} (hlimit : a * b ≤ limit) (hc : c ≠ 0) :
    mulDiv limit a b c = .ok ((a * b).tdiv c) := by
  rw [mulDiv, if_neg (not_lt.mpr hlimit), if_neg hc]

theorem roundNum_eq (i : Ac) {sendNum total q : ℤ} (htotal : total ≠ 0)
    (hlimit : sendNum * q ≤ limit) :
    roundNum limit ratios i sendNum total q = .ok (fpNum ratios i sendNum total q) := by
  rw [roundNum, fpNum, mulDiv_eq hlimit htotal]
  by_cases hvo : i = SPRDWL_AC_VO ∧ q < total
  · simp only [if_pos hvo, ok_map]
  · by_cases hvi : i = SPRDWL_AC_VI ∧ q < total
    · simp only [if_neg hvo, if_pos hvi, ok_map]
    · by_cases hbe : i = SPRDWL_AC_BE ∧ q < total
      · simp only [if_neg hvo, if_neg hvi, if_pos hbe, ok_map]
      · simp only [if_neg hvo, if_neg hvi, if_neg hbe, ok_map]

/-- No divisor of the inner loop is zero. -/
theorem peerLoop_eq (i : Ac) {num : Lut → ℤ} (hnum : ∀ j, 0 ≤ num j) {js : List Lut} {fp q : ℤ}
    (hfp : 0 ≤ fp) (hle : fp ≤ q) (hq : (js.map num).sum = q) (hlimit : q * fp ≤ limit) :
    peerLoop limit i num js fp q = .ok (peerShares i num js fp q) := by
  induction js generalizing fp q with
  | nil => rfl
  | cons j js ih =>
    rw [List.map_cons, List.sum_cons] at hq
    have htail : 0 ≤ (js.map num).sum := by
      refine List.sum_nonneg fun x hx => ?_
      obtain ⟨j', -, rfl⟩ := List.mem_map.mp hx
      exact hnum j'
    have hfirst := hnum j
    rw [peerLoop, peerShares]
    dsimp only
    split
    · exact ih hfp hle (by omega) hlimit
    · rename_i hsome
      have hprod : num j * fp ≤ limit :=
        (mul_le_mul_of_nonneg_right (by omega) hfp).trans hlimit
      rw [mulDiv_eq hprod (by omega), ok_bind]
      have hround : (num j * fp).tdiv q ≤ num j := tdiv_le_left hfirst hfp hle
      have hleft := sub_tdiv_le hfirst (by omega) hfp hle
      generalize hr : (if 0 < fp ∧ (num j * fp).tdiv q = 0 then 1
        else (num j * fp).tdiv q) = round
      have hbounds : round ≤ num j ∧ fp - round ≤ q - num j := by
        rw [← hr]
        split_ifs <;> omega
      split
      · rfl
      · split
        · rfl
        · have hrest : (q - num j) * (fp - min round fp) ≤ limit :=
            (mul_le_mul (by omega) (by omega) (by omega) (by omega)).trans hlimit
          rw [ih (by omega) (by omega) (by omega) hrest, ok_map]

/-- What one access category gets. -/
structure Fair (pListNum : Peer → ℤ) (a : AcShare) : Prop where
  le : a.fpNum ≤ qListNum pListNum a.ac
  sum : (a.peers.map Prod.snd).sum = a.fpNum
  peer : ∀ share ∈ a.peers, share.1.1 = a.ac ∧ 0 < share.2 ∧ share.2 ≤ pListNum share.1
  nodup : (a.peers.map Prod.fst).Nodup

theorem acLoop_spec (hratios : Sane ratios) (hnum : ∀ p, 0 ≤ pListNum p) {is : List Ac}
    {sendNum total : ℤ} (htotal : (is.map (qListNum pListNum)).sum = total) (hsend : 0 ≤ sendNum)
    (hle : sendNum ≤ total) (hlimit : sendNum * total ≤ limit) :
    ∃ acs, acLoop limit ratios pListNum is sendNum total = .ok acs ∧
      (acs.map AcShare.fpNum).sum = sendNum ∧ (∀ a ∈ acs, Fair pListNum a) ∧
      acs.flatMap AcShare.peers = acShares ratios pListNum is sendNum total := by
  induction is generalizing sendNum total with
  | nil =>
    rw [List.map_nil, List.sum_nil] at htotal
    refine ⟨[], rfl, ?_, fun a ha => absurd ha List.not_mem_nil, rfl⟩
    rw [List.map_nil, List.sum_nil]
    omega
  | cons i is ih =>
    rw [List.map_cons, List.sum_cons] at htotal
    have hfirst := qListNum_nonneg hnum i
    have htail : 0 ≤ (is.map (qListNum pListNum)).sum := by
      refine List.sum_nonneg fun x hx => ?_
      obtain ⟨i', -, rfl⟩ := List.mem_map.mp hx
      exact qListNum_nonneg hnum i'
    rw [acLoop, acShares]
    dsimp only
    split
    · exact ih (by omega) hsend hle hlimit
    · rename_i hsome
      split
      · refine ⟨[], rfl, ?_, fun a ha => absurd ha List.not_mem_nil, rfl⟩
        rw [List.map_nil, List.sum_nil]
        omega
      · rename_i hpos
        have hqt : qListNum pListNum i ≤ total := by omega
        obtain ⟨hfp, hfpq, hleft⟩ := fpNum_spec ratios i sendNum total (qListNum pListNum i)
          (by omega) hqt (by omega) (by omega)
        obtain ⟨hfps, hlast⟩ := @fpNum_le ratios hratios i sendNum total (qListNum pListNum i)
          (by omega) hqt (by omega)
        have hprod : sendNum * qListNum pListNum i ≤ limit :=
          (mul_le_mul_of_nonneg_left hqt hsend).trans hlimit
        rw [roundNum_eq i (by omega) hprod, ok_bind]
        generalize fpNum ratios i sendNum total (qListNum pListNum i) = fp at *
        have hpeers : qListNum pListNum i * fp ≤ limit := by
          rw [mul_comm]
          exact (mul_le_mul hfps hqt hfirst hsend).trans hlimit
        obtain ⟨hnodup, hpeer⟩ := peerShares_fits i (fun j => hnum (i, j))
          (List.nodup_finRange MAX_LUT_NUM) hfp hfpq rfl
        have hsum : ((peerShares i (fun j => pListNum (i, j)) (List.finRange MAX_LUT_NUM) fp
            (qListNum pListNum i)).map Prod.snd).sum = fp :=
          peerShares_sum i (fun j => hnum (i, j)) hfp hfpq rfl
        rw [peerLoop_eq i (fun j => hnum (i, j)) hfp hfpq rfl hpeers, ok_bind]
        have hrest : (sendNum - fp) * (total - qListNum pListNum i) ≤ limit :=
          (mul_le_mul (by omega) (by omega) (by omega) hsend).trans hlimit
        obtain ⟨acs, hacs, hacsum, hfair, hflat⟩ := @ih (sendNum - fp)
          (total - qListNum pListNum i) (by omega) (by omega) (by omega) hrest
        rw [hacs, ok_map]
        refine ⟨_, rfl, ?_, fun a ha => ?_, ?_⟩
        · rw [List.map_cons, List.sum_cons, hacsum]
          dsimp only
          omega
        · rcases List.mem_cons.mp ha with rfl | ha
          · exact ⟨hfpq, hsum, fun share hshare => ⟨(hpeer share hshare).1,
              (hpeer share hshare).2.2.1, by
                obtain ⟨hac, -, -, hcount⟩ := hpeer share hshare
                rw [← hac] at hcount
                exact hcount⟩, hnodup⟩
          · exact hfair a ha
        · rw [List.flatMap_cons, hflat]

/-! ## The packets that go -/

theorem merge_toSendList {tx : TxMsg} {k : Mode × Peer} {num : ℤ} (hpos : 0 < num)
    (hle : num ≤ (tx.pList k).headList.length) :
    (tx.merge k num).toSendList = tx.toSendList ++ (tx.pList k).headList.take num.toNat := by
  rw [TxMsg.merge, addXmitListTail_moves ⟨hpos, hle⟩]
  rfl

/-- Shares of different peers that fit move as many packets as they say. -/
theorem mergeAll_length {tx : TxMsg} {mode : Mode} {shares : List (Peer × ℤ)}
    (hnodup : (shares.map Prod.fst).Nodup) (hpos : ∀ share ∈ shares, 0 < share.2)
    (hle : ∀ share ∈ shares, share.2 ≤ (tx.pList (mode, share.1)).headList.length) :
    ((tx.mergeAll mode shares).toSendList.length : ℤ) =
      tx.toSendList.length + (shares.map Prod.snd).sum := by
  induction shares generalizing tx with
  | nil => exact (add_zero _).symm
  | cons share shares ih =>
    rw [List.map_cons, List.nodup_cons] at hnodup
    have hp := hpos share List.mem_cons_self
    have hl := hle share List.mem_cons_self
    have hlength : ((tx.merge (mode, share.1) share.2).toSendList.length : ℤ) =
        tx.toSendList.length + share.2 := by
      rw [merge_toSendList hp hl, List.length_append, List.length_take]
      omega
    have hrest := @ih (tx.merge (mode, share.1) share.2) hnodup.2
      (fun other h => hpos other (List.mem_cons_of_mem _ h)) fun other h => by
        have hne : (mode, other.1) ≠ (mode, share.1) := by
          intro heq
          exact hnodup.1 ((Prod.mk.inj heq).2 ▸ List.mem_map_of_mem h)
        rw [merge_ne hne]
        exact hle other (List.mem_cons_of_mem _ h)
    rw [List.map_cons, List.sum_cons, ← add_assoc, ← hlength, ← hrest]
    rfl

/-- With fewer credits than packets no division is by zero, no access category and no peer is asked
for more than it has, and exactly as many packets as there are credits are moved. No product is
larger than the credits times the packets. -/
theorem apportionment_exact (ratios : Ratios) (pListNum : Peer → ℤ) (sendNum total : ℤ)
    (hratios : ratios.vo ≤ 100 ∧ ratios.vi ≤ 100 ∧ ratios.be ≤ 100) (hnum : ∀ p, 0 ≤ pListNum p)
    (htotal : ((List.finRange SPRDWL_AC_MAX).map (qListNum pListNum)).sum = total)
    (hsend : 0 < sendNum) (hless : sendNum < total) :
    ∃ acs, acLoop (sendNum * total) ratios pListNum (List.finRange SPRDWL_AC_MAX) sendNum total =
        .ok acs ∧
      (∀ a ∈ acs, a.fpNum ≤ qListNum pListNum a.ac ∧ (a.peers.map Prod.snd).sum = a.fpNum ∧
        ∀ share ∈ a.peers, share.1.1 = a.ac ∧ 0 < share.2 ∧ share.2 ≤ pListNum share.1) ∧
      (acs.map AcShare.fpNum).sum = sendNum ∧
      acs.flatMap AcShare.peers =
        acShares ratios pListNum (List.finRange SPRDWL_AC_MAX) sendNum total ∧
      ∀ (tx : TxMsg) (mode : Mode),
        (∀ p, ((tx.pList (mode, p)).headList.length : ℤ) = pListNum p) →
        ((tx.mergeAll mode (acs.flatMap AcShare.peers)).toSendList.length : ℤ) =
          tx.toSendList.length + sendNum := by
  obtain ⟨acs, hacs, hsum, hfair, hflat⟩ := acLoop_spec hratios hnum htotal hsend.le hless.le le_rfl
  obtain ⟨hfits, -⟩ := acShares_fits ratios hnum (List.nodup_finRange SPRDWL_AC_MAX) htotal
    (.inr hless.le)
  refine ⟨acs, hacs, fun a ha => ⟨(hfair a ha).le, (hfair a ha).sum, (hfair a ha).peer⟩, hsum, hflat,
    fun tx mode hlength => ?_⟩
  have hshares := acShares_sum hratios hnum htotal hsend.le hless.le
  rw [hflat, mergeAll_length hfits.nodup hfits.pos, hshares]
  intro share hshare
  rw [hlength]
  exact hfits.le share hshare

/-- Seven packets of a voice peer and three of two others, and four credits. -/
theorem apportionment_exact_ten : ∃ acs, acLoop 40 ⟨87, 90, 81⟩
    (fun p => if p = (0, 6) then 7 else if p = (2, 6) then 2 else if p = (2, 7) then 1 else 0)
    (List.finRange SPRDWL_AC_MAX) 4 10 = .ok acs ∧ (acs.map AcShare.fpNum).sum = 4 := by
  obtain ⟨acs, hacs, -, hsum, -⟩ := apportionment_exact ⟨87, 90, 81⟩
    (fun p => if p = (0, 6) then 7 else if p = (2, 6) then 2 else if p = (2, 7) then 1 else 0) 4 10
    (by decide) (by decide +kernel) (by decide +kernel) (by decide) (by decide)
  exact ⟨acs, hacs, hsum⟩

end Uwe5631.Airtime
