import Uwe5631.FallibleRuns
import Uwe5631.TxQueueCounters
import Uwe5631.UsableCredits

/-!
# The waits of the transmit thread

Every packet and every credit event completes `tx_completed` once, and the transmit thread takes one
completion for each turn of its loop, however much that turn has sent.
-/
namespace Uwe5631.TxStalls
open FallibleRuns Credit
open TxQueue (Ac Lut Peer Ratios Fits SPRDWL_AC_MAX SPRDWL_AC_VO SPRDWL_AC_VI SPRDWL_AC_BE
  qListNum allCounted percent fpNum peerShares acShares)

/-- The packets of a mode by queue. -/
def total (q : Peer → ℕ) : ℕ := ∑ p, q p

/-- A share of a queue goes to the list to send, if the queue is as long. -/
def merge (r : (Peer → ℕ) × ℕ) (share : Peer × ℤ) : (Peer → ℕ) × ℕ :=
  if 0 < share.2 ∧ share.2 ≤ r.1 share.1 then
    (Function.update r.1 share.1 (r.1 share.1 - share.2.toNat), r.2 + share.2.toNat)
  else r

/-- What a turn of the thread finds: how many packets of each queue are too old, whether the
firmware is asserted, the ratios and the answer of the bus. -/
structure Env where
  drops : Peer → ℕ
  cpAsserted : Bool
  ratios : Ratios
  ret : ℤ

/-- Where the thread is: in `tx_down`, before the to-send list or before the next modes. -/
inductive Pc where
  | waiting
  | sending
  | serving (modes : List Mode)
  deriving DecidableEq

/-- The mode that is served next. -/
def Pc.mode : Pc → Option Mode
  | .serving (mode :: _) => some mode
  | _ => none

/-- The numbers of queued packets, the list to send, the credits and the completions. -/
structure State where
  queued : Mode → Peer → ℕ
  toSend : ℕ
  xmitMode : Mode
  failcount : ℕ
  credit : TxMsg
  pending : ℕ
  pc : Pc

/-- `sprdwl_handle_to_send_list`, with whether it returns 0. -/
def sprdwlHandleToSendList (s : State) (priv : Priv) (env : Env) (mode : Mode) : State × Bool :=
  if s.toSend = 0 ∨ env.cpAsserted = true then (s, true)
  else
    let r := sprdwlFcGetSendNum s.credit priv mode s.toSend
    if r.2 ≤ 0 then ({ s with credit := r.1 }, false)
    else
      let credit := sprdwlHandleTxReturn r.1 priv r.2 env.ret
      if env.ret ≠ 0 then
        if 10 < s.failcount + 1 then
          ({ s with credit := credit, xmitMode := mode, toSend := 0, failcount := 0 }, false)
        else ({ s with credit := credit, xmitMode := mode, failcount := s.failcount + 1 }, false)
      else ({ s with credit := credit, xmitMode := mode, toSend := s.toSend - r.2.toNat }, true)

/-- What the timeouts leave of the queues of a mode. -/
def left (s : State) (env : Env) (mode : Mode) : Peer → ℕ := fun p => s.queued mode p - env.drops p

/-- The part of `sprdwl_tx_eachmode_data` that merges queues into the list to send. The counts of
the queues are right. -/
def mergeQosLists (s : State) (priv : Priv) (env : Env) (mode : Mode) : State :=
  let q := left s env mode
  let test := sprdwlFcTestSendNum s.credit priv mode (total q)
  let shares := if total q ≤ test.2 then allCounted fun p => q p
    else acShares env.ratios (fun p => q p) (List.finRange SPRDWL_AC_MAX) test.2 (total q)
  let r := shares.foldl merge (q, s.toSend)
  { s with
    queued := Function.update s.queued mode r.1
    toSend := r.2
    credit := test.1 }

/-- `sprdwl_tx_eachmode_data` -/
def sprdwlTxEachmodeData (s : State) (priv : Priv) (env : Env) (mode : Mode) : State :=
  let q := left s env mode
  let test := sprdwlFcTestSendNum s.credit priv mode (total q)
  if total q ≠ 0 ∧ test.2 ≤ 0 then
    { s with queued := Function.update s.queued mode q, credit := test.1 }
  else (sprdwlHandleToSendList (mergeQosLists s priv env mode) priv env mode).1

/-- The loop of `sprdwl_tx_work_queue` over the modes, for one of them. -/
def serveMode (s : State) (priv : Priv) (env : Env) (mode : Mode) : State :=
  if total (s.queued mode) = 0 then s
  else if priv.fwStat mode ≠ .opened then
    { s with queued := Function.update s.queued mode fun _ => 0 }
  else
    let test := sprdwlFcTestSendNum s.credit priv mode (total (s.queued mode))
    let s := { s with credit := test.1 }
    if 0 < test.2 then sprdwlTxEachmodeData s priv env mode else s

/-- A packet or a command is queued with its `tx_up`, credits come, or the thread goes on. -/
inductive Event where
  | enqueue (mode : Mode) (p : Peer)
  | enqueueCmd
  | credit (event : Bool) (flow : Color → BitVec 8)
  | wake
  | send (env : Env)
  | serve (env : Env)

inductive Fault where
  | outOfTurn

def sendTurn (s : State) (priv : Priv) (env : Env) : State :=
  let modes := List.finRange SPRDWL_MODE_MAX
  if s.toSend = 0 then { s with pc := .serving modes }
  else
    let r := sprdwlHandleToSendList s priv env s.xmitMode
    if r.2 = true then { r.1 with pc := .serving modes } else { r.1 with pc := .waiting }

/-- The commands that a turn sends first take no credit. -/
def step (priv : Priv) (s : State) : Event → Except Fault State
  | .enqueue mode p =>
    .ok { s with
      queued := Function.update s.queued mode
        (Function.update (s.queued mode) p (s.queued mode p + 1))
      pending := s.pending + 1 }
  | .enqueueCmd => .ok { s with pending := s.pending + 1 }
  | .credit event flow =>
    .ok { s with
      credit := sprdwlSdioProcessCredit s.credit event flow
      pending := if ∑ i, (flow i).toNat = 0 then s.pending else s.pending + 1 }
  | .wake =>
    match s.pc, s.pending with
    | .waiting, pending + 1 => .ok { s with pending := pending, pc := .sending }
    | _, _ => .error .outOfTurn
  | .send env =>
    match s.pc with
    | .sending => .ok (sendTurn s priv env)
    | _ => .error .outOfTurn
  | .serve env =>
    match s.pc with
    | .serving [] => .ok { s with pc := .waiting }
    | .serving (mode :: modes) =>
      .ok { serveMode s priv env mode with pc := .serving modes }
    | _ => .error .outOfTurn

/-- After `sprdwl_tx_init`. -/
def init : State where
  queued := fun _ _ => 0
  toSend := 0
  xmitMode := SPRDWL_MODE_NONE
  failcount := 0
  credit := ⟨0, 0, fun _ => ⟨SPRDWL_MODE_NONE, 0⟩, fun _ => 0⟩
  pending := 0
  pc := .waiting

/-- A mode has packets in its queues or in the list to send. -/
def HasPackets (s : State) (mode : Mode) : Prop :=
  0 < total (s.queued mode) ∨ 0 < s.toSend ∧ s.xmitMode = mode

/-- No open mode with packets has credits to use. -/
def Settled (priv : Priv) (s : State) : Prop :=
  ∀ mode, priv.fwStat mode = .opened → HasPackets s mode → usable s.credit mode = 0

def Sane (ratios : Ratios) : Prop := ratios.vo ≤ 100 ∧ ratios.vi ≤ 100 ∧ ratios.be ≤ 100

/-- What a turn must find so that it sends all it can. It matters in a turn that takes the last
completion only, but for an asserted firmware. -/
def Fine (priv : Priv) (s : State) : Event → Prop
  | .credit _ flow =>
    ∑ c, (s.credit.flowCtrl c).flow.toNat + ∑ i, (flow i).toNat < 2 ^ 31
  | .send env => s.pending = 0 → s.toSend = 0 ∨ Settled priv s ∨
      env.cpAsserted = false ∧ env.ret = 0 ∧ s.toSend ≤ 100 ∧ s.toSend ≤ usable s.credit s.xmitMode
  | .serve env => env.cpAsserted = false ∧ (s.pending = 0 → ∀ mode,
      s.pc.mode = some mode → priv.fwStat mode = .opened →
      0 < total (s.queued mode) → usable s.credit mode ≠ 0 →
      env.ret = 0 ∧ Sane env.ratios ∧
        (total (left s env mode) ≤ 100 ∨ usable s.credit mode ≤ 100))
  | _ => True

instance decidable_hasPackets (s : State) (mode : Mode) : Decidable (HasPackets s mode) :=
  inferInstanceAs (Decidable (0 < total (s.queued mode) ∨ 0 < s.toSend ∧ s.xmitMode = mode))

instance decidable_settled (priv : Priv) (s : State) : Decidable (Settled priv s) :=
  inferInstanceAs (Decidable (∀ mode, priv.fwStat mode = .opened → HasPackets s mode →
    usable s.credit mode = 0))

instance decidable_sane (ratios : Ratios) : Decidable (Sane ratios) :=
  inferInstanceAs (Decidable (ratios.vo ≤ 100 ∧ ratios.vi ≤ 100 ∧ ratios.be ≤ 100))

instance decidable_fine (priv : Priv) (s : State) (e : Event) : Decidable (Fine priv s e) := by
  cases e <;> dsimp only [Fine] <;> infer_instance

/-! ## The shares of the queues -/

variable {tx tx' : TxMsg} {priv : Priv} {m : Mode} {s : State} {env : Env}

theorem peerShares_sum (i : Ac) {num : Lut → ℤ} (hnum : ∀ j, 0 ≤ num j) {js : List Lut} {fp q : ℤ}
    (hfp : 0 ≤ fp) (hle : fp ≤ q) (hq : (js.map num).sum = q) :
    ((peerShares i num js fp q).map Prod.snd).sum = fp := by
  induction js generalizing fp q with
  | nil =>
    rw [List.map_nil, List.sum_nil] at hq
    rw [peerShares, List.map_nil, List.sum_nil]
    omega
  | cons j js ih =>
    rw [List.map_cons, List.sum_cons] at hq
    have htail : 0 ≤ (js.map num).sum := by
      refine List.sum_nonneg fun x hx => ?_
      obtain ⟨j', -, rfl⟩ := List.mem_map.mp hx
      exact hnum j'
    have hfirst := hnum j
    rw [peerShares]
    dsimp only
    split
    · exact ih hfp hle (by omega)
    · rename_i hsome
      have hround : (num j * fp).tdiv q ≤ num j := TxQueue.tdiv_le_left hfirst hfp hle
      have hleft := TxQueue.sub_tdiv_le hfirst (by omega) hfp hle
      have hpos : 0 ≤ (num j * fp).tdiv q :=
        Int.tdiv_nonneg (mul_nonneg hfirst hfp) (hfp.trans hle)
      generalize hr : (if 0 < fp ∧ (num j * fp).tdiv q = 0 then 1
        else (num j * fp).tdiv q) = roundNum
      have hbounds : roundNum ≤ num j ∧ fp - roundNum ≤ q - num j ∧ 0 ≤ roundNum ∧
          (0 < fp → 0 < roundNum) := by
        rw [← hr]
        split_ifs <;> omega
      split
      · rw [List.map_nil, List.sum_nil]
        omega
      · split
        · simp only [List.map_cons, List.map_nil, List.sum_cons, List.sum_nil]
          omega
        · rw [List.map_cons, List.sum_cons, @ih (fp - min roundNum fp) (q - num j) (by omega)
            (by omega) (by omega)]
          dsimp only
          omega

theorem fpNum_le {ratios : Ratios} (hratios : Sane ratios) (i : Ac) {sendNum sum q : ℤ} (hq : 0 < q)
    (hqs : q ≤ sum) (hsend : 0 < sendNum) :
    fpNum ratios i sendNum sum q ≤ sendNum ∧
      (sum ≤ q → fpNum ratios i sendNum sum q = sendNum) := by
  have hpercent (ratio : ℕ) (hratio : ratio ≤ 100) : percent sendNum ratio ≤ sendNum := by
    have hmul : sendNum.toNat * ratio ≤ sendNum.toNat * 100 := Nat.mul_le_mul_left _ hratio
    have hmod := Nat.mod_le (sendNum.toNat * ratio) (2 ^ 32)
    have hdiv : sendNum.toNat * ratio % 2 ^ 32 / 100 ≤ sendNum.toNat :=
      Nat.div_le_of_le_mul (by omega)
    rw [percent]
    omega
  have hdiv : (sendNum * q).tdiv sum ≤ sendNum := TxQueue.tdiv_le_left hsend.le hq.le hqs
  have hall (h : sum ≤ q) : (sendNum * q).tdiv sum = sendNum := by
    rw [le_antisymm h hqs]
    exact Int.mul_tdiv_cancel _ hq.ne'
  have hvo := hpercent ratios.vo hratios.1
  have hvi := hpercent ratios.vi hratios.2.1
  have hbe := hpercent ratios.be hratios.2.2
  rw [fpNum]
  generalize hbase : (if i = SPRDWL_AC_VO ∧ q < sum then min (percent sendNum ratios.vo) q
    else if i = SPRDWL_AC_VI ∧ q < sum then min (percent sendNum ratios.vi) q
    else if i = SPRDWL_AC_BE ∧ q < sum then min (percent sendNum ratios.be) q
    else (sendNum * q).tdiv sum) = base
  have hbounds : base ≤ sendNum ∧ (sum ≤ q → base = sendNum) := by
    rw [← hbase]
    split_ifs
    · omega
    · omega
    · omega
    · exact ⟨hdiv, hall⟩
  split_ifs <;> omega

variable {pListNum : Peer → ℤ}

/-- All credits are given out. -/
theorem acShares_sum {ratios : Ratios} (hratios : Sane ratios) (hnum : ∀ p, 0 ≤ pListNum p)
    {is : List Ac} {sendNum sum : ℤ} (hsum : (is.map (qListNum pListNum)).sum = sum)
    (hsend : 0 ≤ sendNum) (hle : sendNum ≤ sum) :
    ((acShares ratios pListNum is sendNum sum).map Prod.snd).sum = sendNum := by
  induction is generalizing sendNum sum with
  | nil =>
    rw [List.map_nil, List.sum_nil] at hsum
    rw [acShares, List.map_nil, List.sum_nil]
    omega
  | cons i is ih =>
    rw [List.map_cons, List.sum_cons] at hsum
    have hfirst := TxQueue.qListNum_nonneg hnum i
    have htail : 0 ≤ (is.map (qListNum pListNum)).sum := by
      refine List.sum_nonneg fun x hx => ?_
      obtain ⟨i', -, rfl⟩ := List.mem_map.mp hx
      exact TxQueue.qListNum_nonneg hnum i'
    rw [acShares]
    split
    · exact ih (by omega) hsend hle
    · split
      · rw [List.map_nil, List.sum_nil]
        omega
      · obtain ⟨hfp, hfpq, hleft⟩ := TxQueue.fpNum_spec ratios i sendNum sum
          (qListNum pListNum i) (by omega) (by omega) (by omega) (by omega)
        obtain ⟨hfps, hlast⟩ := @fpNum_le ratios hratios i sendNum sum (qListNum pListNum i)
          (by omega) (by omega) (by omega)
        rw [List.map_append, List.sum_append,
          peerShares_sum i (fun j => hnum (i, j)) hfp hfpq rfl,
          @ih _ (sum - qListNum pListNum i) (by omega) (by omega) (by omega)]
        omega

theorem filterMap_sum (i : Ac) (js : List Lut) :
    ((js.filterMap fun j =>
      if pListNum (i, j) = 0 then none else some ((i, j), pListNum (i, j))).map Prod.snd).sum =
      (js.map fun j => pListNum (i, j)).sum := by
  induction js with
  | nil => rfl
  | cons j js ih =>
    rw [List.map_cons, List.sum_cons]
    by_cases hzero : pListNum (i, j) = 0
    · simp only [List.filterMap_cons, if_pos hzero]
      rw [ih, hzero, zero_add]
    · simp only [List.filterMap_cons, if_neg hzero]
      rw [List.map_cons, List.sum_cons, ih]

theorem allCounted_sum (hnum : ∀ p, 0 ≤ pListNum p) :
    ((allCounted pListNum).map Prod.snd).sum =
      ((List.finRange SPRDWL_AC_MAX).map (qListNum pListNum)).sum := by
  rw [allCounted]
  generalize List.finRange SPRDWL_AC_MAX = is
  induction is with
  | nil => rfl
  | cons i is ih =>
    rw [List.flatMap_cons, List.map_append, List.sum_append, List.map_cons, List.sum_cons, ih]
    have hfirst := TxQueue.qListNum_nonneg hnum i
    split
    · rw [List.map_nil, List.sum_nil]
      omega
    · rw [filterMap_sum, qListNum]

theorem total_eq (q : Peer → ℕ) :
    ((List.finRange SPRDWL_AC_MAX).map (qListNum fun p => (q p : ℤ))).sum = total q := by
  rw [total, Nat.cast_sum, Fintype.sum_prod_type, ← Fin.sum_univ_def]
  refine Finset.sum_congr rfl fun i _ => ?_
  rw [qListNum, ← Fin.sum_univ_def]

theorem total_update {q : Peer → ℕ} {p : Peer} {n : ℕ} (hn : n ≤ q p) :
    total (Function.update q p (q p - n)) + n = total q := by
  have hself := Finset.sum_update_of_mem (Finset.mem_univ p) q (q p)
  rw [Function.update_eq_self] at hself
  rw [total, total, Finset.sum_update_of_mem (Finset.mem_univ p), hself]
  omega

attribute [irreducible] total

/-- Shares that fit move as many packets as they say. -/
theorem merge_sum {shares : List (Peer × ℤ)} {q : Peer → ℕ} {n : ℕ}
    (hfits : Fits (fun p => (q p : ℤ)) shares) :
    ((shares.foldl merge (q, n)).2 : ℤ) = n + (shares.map Prod.snd).sum ∧
      (total (shares.foldl merge (q, n)).1 : ℤ) = total q - (shares.map Prod.snd).sum := by
  induction shares generalizing q n with
  | nil =>
    rw [List.foldl_nil, List.map_nil, List.sum_nil, add_zero, sub_zero]
    exact ⟨rfl, rfl⟩
  | cons share shares ih =>
    obtain ⟨hdistinct, hpos, hle⟩ := hfits
    rw [List.map_cons, List.nodup_cons] at hdistinct
    have hp := hpos share List.mem_cons_self
    have hl := hle share List.mem_cons_self
    have hmerge : merge (q, n) share =
        (Function.update q share.1 (q share.1 - share.2.toNat), n + share.2.toNat) :=
      if_pos ⟨hp, hl⟩
    have htotal := @total_update q share.1 share.2.toNat (by omega)
    have hrest : Fits (fun p =>
        (Function.update q share.1 (q share.1 - share.2.toNat) p : ℤ)) shares := by
      refine ⟨hdistinct.2, fun other h => hpos other (List.mem_cons_of_mem _ h), fun other h => ?_⟩
      have hne : other.1 ≠ share.1 := by
        intro heq
        exact hdistinct.1 (heq ▸ List.mem_map_of_mem h)
      have hother := hle other (List.mem_cons_of_mem _ h)
      simpa only [Function.update_of_ne hne] using hother
    obtain ⟨hsent, hleft⟩ := @ih _ (n + share.2.toNat) hrest
    rw [List.foldl_cons, hmerge, List.map_cons, List.sum_cons]
    constructor <;> omega

theorem shares_spec {ratios : Ratios} (hratios : Sane ratios) (q : Peer → ℕ) {k : ℕ}
    (hle : k ≤ total q) {shares : List (Peer × ℤ)}
    (hshares : shares = if (total q : ℤ) ≤ k then allCounted fun p => (q p : ℤ)
      else acShares ratios (fun p => (q p : ℤ)) (List.finRange SPRDWL_AC_MAX) k (total q)) :
    Fits (fun p => (q p : ℤ)) shares ∧ (shares.map Prod.snd).sum = k := by
  have hnum (p : Peer) : (0 : ℤ) ≤ q p := Int.natCast_nonneg _
  have hsum := total_eq q
  rw [hshares]
  split
  · rename_i hall
    refine ⟨TxQueue.fits_allCounted hnum, ?_⟩
    rw [allCounted_sum hnum, hsum]
    omega
  · have hle' : (k : ℤ) ≤ total q := by omega
    exact ⟨(TxQueue.acShares_fits ratios hnum (List.nodup_finRange _) hsum (.inr hle')).1,
      acShares_sum hratios hnum hsum (Int.natCast_nonneg _) hle'⟩

/-! ## One turn of the thread -/

/-- What handing over the list to send does in any case. -/
structure Handled (priv : Priv) (s : State) (m : Mode) (s' : State) : Prop where
  colours : Colours priv s'.credit
  serves : Serves s.credit s'.credit m
  queued : s'.queued = s.queued
  toSend : s'.toSend ≤ s.toSend
  pending : s'.pending = s.pending
  xmitMode : s'.xmitMode = m ∨ s'.xmitMode = s.xmitMode

theorem handle_spec (hpriv : WithCredits priv) (h : Colours priv s.credit)
    (hopen : priv.fwStat m = .opened) :
    Handled priv s m (sprdwlHandleToSendList s priv env m).1 := by
  rw [sprdwlHandleToSendList]
  split
  · exact ⟨h, Serves.refl _ _, rfl, le_refl _, rfl, .inr rfl⟩
  · rename_i hgo
    obtain ⟨hempty, -⟩ := not_or.mp hgo
    obtain ⟨hlimits, hreserved⟩ := getSendNum_limits hpriv h hopen (Nat.pos_of_ne_zero hempty)
    dsimp only
    split
    · exact ⟨hlimits.colours, hlimits.serves, rfl, le_refl _, rfl, .inr rfl⟩
    · rename_i hpos
      have hne : usable s.credit m ≠ 0 := fun hzero => hpos (hlimits.empty hzero)
      split
      · rename_i hret
        have hctrl := @handleTxReturn_failed (sprdwlFcGetSendNum s.credit priv m s.toSend).1 priv
          (sprdwlFcGetSendNum s.credit priv m s.toSend).2 env.ret hret
        have hcolours := hlimits.colours.congr hctrl
        have hserves := hlimits.serves.congr hctrl
        split
        · exact ⟨hcolours, hserves, rfl, Nat.zero_le _, rfl, .inl rfl⟩
        · exact ⟨hcolours, hserves, rfl, le_refl _, rfl, .inl rfl⟩
      · rename_i hret
        rw [not_not.mp hret]
        obtain ⟨hcolours, hserves, -⟩ :=
          handleTxReturn_serves hpriv hlimits.colours (hreserved hne)
        exact ⟨hcolours, hlimits.serves.trans hserves, rfl, Nat.sub_le _ _, rfl, .inl rfl⟩

/-- A short list that has the credits goes out. -/
theorem handle_all (hpriv : WithCredits priv) (h : Colours priv s.credit)
    (hopen : priv.fwStat m = .opened) (hassert : env.cpAsserted = false) (hret : env.ret = 0)
    (hlimit : s.toSend ≤ 100) (hle : s.toSend ≤ usable s.credit m) :
    (sprdwlHandleToSendList s priv env m).1.toSend = 0 ∧
      (sprdwlHandleToSendList s priv env m).2 = true ∧
      usable (sprdwlHandleToSendList s priv env m).1.credit m + s.toSend =
        usable s.credit m := by
  rw [sprdwlHandleToSendList]
  by_cases hzero : s.toSend = 0
  · rw [if_pos (.inl hzero), hzero]
    exact ⟨rfl, rfl, Nat.add_zero _⟩
  · obtain ⟨hlimits, hreserved⟩ := getSendNum_limits hpriv h hopen (Nat.pos_of_ne_zero hzero)
    have hne : usable s.credit m ≠ 0 := by omega
    have hmin : min (min s.toSend 100) (usable s.credit m) = s.toSend := by omega
    have hsend := hlimits.some hne
    have hbatch := hreserved hne
    rw [hmin] at hsend hbatch
    obtain ⟨-, -, hused⟩ := @handleTxReturn_serves _ priv m s.toSend
      (sprdwlFcGetSendNum s.credit priv m s.toSend).2 hpriv hlimits.colours hbatch
    rw [hlimits.usable_eq] at hused
    rw [if_neg (by simp [hzero, hassert])]
    dsimp only
    rw [if_neg (by omega), if_neg (not_not.mpr hret), hret]
    refine ⟨?_, rfl, hused⟩
    dsimp only
    omega

theorem handle_xmitMode (hpriv : WithCredits priv) (h : Colours priv s.credit)
    (hopen : priv.fwStat m = .opened) (hassert : env.cpAsserted = false)
    (hne : usable s.credit m ≠ 0) (hsend : s.toSend ≠ 0) :
    (sprdwlHandleToSendList s priv env m).1.xmitMode = m := by
  obtain ⟨hlimits, -⟩ := getSendNum_limits hpriv h hopen (Nat.pos_of_ne_zero hsend)
  have hnum := hlimits.some hne
  rw [sprdwlHandleToSendList, if_neg (by simp [hsend, hassert])]
  dsimp only
  rw [if_neg (by omega)]
  split
  · split <;> rfl
  · rfl

/-- The list to send is of an open mode. -/
def XmitOpen (priv : Priv) (s : State) : Prop :=
  s.toSend ≠ 0 → priv.fwStat s.xmitMode = .opened

/-- What serving a mode does in any case. -/
structure Served (priv : Priv) (s : State) (m : Mode) (s' : State) : Prop where
  colours : Colours priv s'.credit
  serves : Serves s.credit s'.credit m
  queued : ∀ m', m' ≠ m → s'.queued m' = s.queued m'
  pending : s'.pending = s.pending
  xmitOpen : XmitOpen priv s → XmitOpen priv s'

theorem test_keeps (hpriv : WithCredits priv) (h : Colours priv tx)
    (hopen : priv.fwStat m = .opened) (n : ℕ) :
    Colours priv (sprdwlFcTestSendNum tx priv m n).1 ∧
      Serves tx (sprdwlFcTestSendNum tx priv m n).1 m ∧
      usable (sprdwlFcTestSendNum tx priv m n).1 m = usable tx m := by
  cases n with
  | zero =>
    rw [sprdwlFcTestSendNum, if_pos (.inl (le_refl _))]
    exact ⟨h, Serves.refl tx m, rfl⟩
  | succ n =>
    have hlimits := testSendNum_limits hpriv h hopen n.succ_pos
    exact ⟨hlimits.colours, hlimits.serves, hlimits.usable_eq⟩

theorem eachmode_served (hpriv : WithCredits priv) (h : Colours priv s.credit)
    (hopen : priv.fwStat m = .opened) (hassert : env.cpAsserted = false)
    (hne : usable s.credit m ≠ 0) : Served priv s m (sprdwlTxEachmodeData s priv env m) := by
  obtain ⟨hcolours, hserves, husable⟩ := test_keeps hpriv h hopen (total (left s env m))
  rw [sprdwlTxEachmodeData]
  split
  · exact ⟨hcolours, hserves, fun m' hm' => Function.update_of_ne hm' _ _, rfl, id⟩
  · have hcolours' : Colours priv (mergeQosLists s priv env m).credit := hcolours
    have hne' : usable (mergeQosLists s priv env m).credit m ≠ 0 := by
      rw [← husable] at hne
      exact hne
    have hhandled := @handle_spec priv m _ env hpriv hcolours' hopen
    refine ⟨hhandled.colours, hserves.trans hhandled.serves, fun m' hm' => ?_, hhandled.pending,
      fun _ hsend => ?_⟩
    · rw [hhandled.queued]
      exact Function.update_of_ne hm' _ _
    · have hle := hhandled.toSend
      rw [handle_xmitMode hpriv hcolours' hopen hassert hne' (by omega)]
      exact hopen

/-- A mode's packets are merged as far as the credits go. -/
theorem merged_spec (hpriv : WithCredits priv) (h : Colours priv s.credit)
    (hopen : priv.fwStat m = .opened) (hratios : Sane env.ratios) (hsend : s.toSend = 0)
    (hne : usable s.credit m ≠ 0)
    (hlimit : total (left s env m) ≤ 100 ∨ usable s.credit m ≤ 100) :
    (mergeQosLists s priv env m).toSend ≤ 100 ∧
      (mergeQosLists s priv env m).toSend ≤ usable s.credit m ∧
      (total ((mergeQosLists s priv env m).queued m) = 0 ∨
        (mergeQosLists s priv env m).toSend = usable s.credit m) := by
  obtain ⟨k, hk, hhundred, husable, hle, hend⟩ : ∃ k : ℕ,
      (sprdwlFcTestSendNum s.credit priv m (total (left s env m))).2 = k ∧ k ≤ 100 ∧
        k ≤ usable s.credit m ∧ k ≤ total (left s env m) ∧
        (k = total (left s env m) ∨ k = usable s.credit m) := by
    by_cases hzero : total (left s env m) = 0
    · refine ⟨0, ?_, by omega, by omega, by omega, .inl hzero.symm⟩
      rw [hzero, sprdwlFcTestSendNum, if_pos (.inl (le_refl _))]
      rfl
    · have hlimits := testSendNum_limits hpriv h hopen (Nat.pos_of_ne_zero hzero)
      exact ⟨_, hlimits.some hne, by omega, by omega, by omega, by omega⟩
  obtain ⟨hfits, hsum⟩ := shares_spec hratios (left s env m) hle rfl
  obtain ⟨hsent, hleft⟩ := @merge_sum _ _ s.toSend hfits
  rw [hsum] at hsent hleft
  rw [mergeQosLists]
  dsimp only
  rw [hk, Function.update_self]
  omega

theorem eachmode_fine (hpriv : WithCredits priv) (h : Colours priv s.credit)
    (hopen : priv.fwStat m = .opened) (hassert : env.cpAsserted = false) (hret : env.ret = 0)
    (hratios : Sane env.ratios) (hsend : s.toSend = 0) (hne : usable s.credit m ≠ 0)
    (hlimit : total (left s env m) ≤ 100 ∨ usable s.credit m ≤ 100) :
    (sprdwlTxEachmodeData s priv env m).toSend = 0 ∧
      (0 < total ((sprdwlTxEachmodeData s priv env m).queued m) →
        usable (sprdwlTxEachmodeData s priv env m).credit m = 0) := by
  obtain ⟨hcolours, hserves, husable⟩ := test_keeps hpriv h hopen (total (left s env m))
  obtain ⟨hhundred, hle, hend⟩ := merged_spec hpriv h hopen hratios hsend hne hlimit
  have hcolours' : Colours priv (mergeQosLists s priv env m).credit := hcolours
  have husable' : usable (mergeQosLists s priv env m).credit m = usable s.credit m := husable
  rw [sprdwlTxEachmodeData]
  split
  · rename_i hnone
    have hlimits := testSendNum_limits hpriv h hopen (Nat.pos_of_ne_zero hnone.1)
    have hsome := hlimits.some hne
    have hpos := Nat.pos_of_ne_zero hnone.1
    omega
  · obtain ⟨hall, -, hused⟩ := handle_all hpriv hcolours' hopen hassert hret hhundred
      (hle.trans_eq husable'.symm)
    have hhandled := @handle_spec priv m _ env hpriv hcolours' hopen
    refine ⟨hall, fun hpos => ?_⟩
    rw [hhandled.queued] at hpos
    omega

theorem serveMode_served (hpriv : WithCredits priv) (h : Colours priv s.credit)
    (hassert : env.cpAsserted = false) (m : Mode) :
    Served priv s m (serveMode s priv env m) := by
  rw [serveMode]
  split
  · exact ⟨h, Serves.refl _ _, fun _ _ => rfl, rfl, id⟩
  · rename_i hpackets
    split
    · exact ⟨h, Serves.refl _ _, fun m' hm' => Function.update_of_ne hm' _ _, rfl, id⟩
    · rename_i hclosed
      have hopen := not_not.mp hclosed
      have hlimits := testSendNum_limits hpriv h hopen (Nat.pos_of_ne_zero hpackets)
      dsimp only
      split
      · rename_i hpos
        have hne : usable s.credit m ≠ 0 := by
          intro hzero
          exact absurd (hlimits.empty hzero) (not_le.mpr hpos)
        rw [← hlimits.usable_eq] at hne
        have hserved := @eachmode_served priv m { s with
          credit := (sprdwlFcTestSendNum s.credit priv m (total (s.queued m))).1 } env hpriv
          hlimits.colours hopen hassert hne
        exact ⟨hserved.colours, hlimits.serves.trans hserved.serves, hserved.queued,
          hserved.pending, hserved.xmitOpen⟩
      · exact ⟨hlimits.colours, hlimits.serves, fun _ _ => rfl, rfl, id⟩

theorem serveMode_fine (hpriv : WithCredits priv) (h : Colours priv s.credit)
    (hassert : env.cpAsserted = false) (hsend : s.toSend = 0)
    (hfine : priv.fwStat m = .opened → 0 < total (s.queued m) → usable s.credit m ≠ 0 →
      env.ret = 0 ∧ Sane env.ratios ∧ (total (left s env m) ≤ 100 ∨ usable s.credit m ≤ 100)) :
    (serveMode s priv env m).toSend = 0 ∧ (priv.fwStat m = .opened →
      0 < total ((serveMode s priv env m).queued m) →
        usable (serveMode s priv env m).credit m = 0) := by
  rw [serveMode]
  split
  · rename_i hzero
    exact ⟨hsend, fun _ hpos => absurd hzero hpos.ne'⟩
  · rename_i hpackets
    split
    · rename_i hclosed
      exact ⟨hsend, fun hopen => absurd hopen hclosed⟩
    · rename_i hclosed
      have hopen := not_not.mp hclosed
      have hlimits := testSendNum_limits hpriv h hopen (Nat.pos_of_ne_zero hpackets)
      dsimp only
      by_cases hzero : usable s.credit m = 0
      · rw [if_neg (not_lt.mpr (hlimits.empty hzero))]
        exact ⟨hsend, fun _ _ => hlimits.usable_eq.trans hzero⟩
      · have hnum := hlimits.some hzero
        have hpos := Nat.pos_of_ne_zero hpackets
        rw [if_pos (by omega)]
        obtain ⟨hret, hratios, hlimit⟩ := hfine hopen hpos hzero
        rw [← hlimits.usable_eq] at hzero hlimit
        obtain ⟨hall, hused⟩ := @eachmode_fine priv m { s with
          credit := (sprdwlFcTestSendNum s.credit priv m (total (s.queued m))).1 } env hpriv
          hlimits.colours hopen hassert hret hratios hsend hzero hlimit
        exact ⟨hall, fun _ => hused⟩

/-! ## Runs -/

theorem Settled.of {s' : State} (h : Settled priv s) (hserves : Serves s.credit s'.credit m)
    (hpackets : ∀ m', priv.fwStat m' = .opened → HasPackets s' m' → HasPackets s m') :
    Settled priv s' := fun m' hopen hm' => hserves.unusable (h m' hopen (hpackets m' hopen hm'))

/-- In a settled state a mode that is served only loses what it cannot send. -/
theorem Settled.serveMode (hpriv : WithCredits priv) (hcolours : Colours priv s.credit)
    (h : Settled priv s) (m : Mode) : Settled priv (serveMode s priv env m) := by
  rw [TxStalls.serveMode]
  split
  · exact h
  · rename_i hpackets
    split
    · rename_i hclosed
      refine h.of (Serves.refl s.credit m) fun m' hopen hm' => ?_
      have hne : m' ≠ m := by
        rintro rfl
        exact hclosed hopen
      rcases hm' with hq | hsend
      · refine .inl ?_
        dsimp only at hq
        rwa [Function.update_of_ne hne] at hq
      · exact .inr hsend
    · rename_i hclosed
      have hopen := not_not.mp hclosed
      have hlimits := testSendNum_limits hpriv hcolours hopen (Nat.pos_of_ne_zero hpackets)
      have hzero := h m hopen (.inl (Nat.pos_of_ne_zero hpackets))
      dsimp only
      rw [if_neg (not_lt.mpr (hlimits.empty hzero))]
      exact h.of hlimits.serves fun _ _ hm' => hm'

/-- What a turn that has taken the last completion has reached. -/
def Turn (priv : Priv) (s : State) : Prop :=
  match s.pc with
  | .waiting => Settled priv s
  | .sending => True
  | .serving modes => Settled priv s ∨ s.toSend = 0 ∧ ∀ mode, mode ∉ modes →
      priv.fwStat mode = .opened → 0 < total (s.queued mode) → usable s.credit mode = 0

structure Inv (priv : Priv) (s : State) : Prop where
  colours : Colours priv s.credit
  xmitOpen : XmitOpen priv s
  turn : s.pending = 0 → Turn priv s

theorem usable_init : usable init.credit m = 0 :=
  usable_eq_zero.mpr fun _ _ => rfl

theorem init_inv (priv : Priv) : Inv priv init where
  colours := ⟨fun _ _ _ hm => absurd rfl hm, fun _ hm => absurd rfl hm, by decide⟩
  xmitOpen h := absurd rfl h
  turn _ := fun _ _ _ => usable_init

theorem sendTurn_inv (hpriv : WithCredits priv) (h : Inv priv s) (hf : Fine priv s (.send env)) :
    Inv priv (sendTurn s priv env) := by
  rw [sendTurn]
  dsimp only
  split
  · rename_i hzero
    exact ⟨h.colours, h.xmitOpen, fun _ => .inr ⟨hzero, fun m hm =>
      absurd (List.mem_finRange m) hm⟩⟩
  · rename_i hsend
    have hopen := h.xmitOpen hsend
    have hhandled := @handle_spec priv s.xmitMode s env hpriv h.colours hopen
    have hxmit : (sprdwlHandleToSendList s priv env s.xmitMode).1.xmitMode = s.xmitMode :=
      hhandled.xmitMode.elim id id
    have hxmitOpen : XmitOpen priv (sprdwlHandleToSendList s priv env s.xmitMode).1 := by
      intro _
      rw [hxmit]
      exact hopen
    have hsettled (hs : Settled priv s) :
        Settled priv (sprdwlHandleToSendList s priv env s.xmitMode).1 := by
      refine hs.of hhandled.serves fun m' _ hm' => ?_
      rcases hm' with hq | ⟨hpos, hmode⟩
      · rw [hhandled.queued] at hq
        exact .inl hq
      · rw [hxmit] at hmode
        exact .inr ⟨Nat.pos_of_ne_zero hsend, hmode⟩
    split
    · refine ⟨hhandled.colours, hxmitOpen, fun hpending => ?_⟩
      have hlast := hf (hhandled.pending.symm.trans hpending)
      rcases hlast with hzero | hs | ⟨hassert, hret, hlimit, hle⟩
      · exact absurd hzero hsend
      · exact .inl (hsettled hs)
      · exact .inr ⟨(handle_all hpriv h.colours hopen hassert hret hlimit hle).1, fun m hm =>
          absurd (List.mem_finRange m) hm⟩
    · rename_i hfailed
      refine ⟨hhandled.colours, hxmitOpen, fun hpending => ?_⟩
      have hlast := hf (hhandled.pending.symm.trans hpending)
      rcases hlast with hzero | hs | ⟨hassert, hret, hlimit, hle⟩
      · exact absurd hzero hsend
      · exact hsettled hs
      · exact absurd (handle_all hpriv h.colours hopen hassert hret hlimit hle).2.1 hfailed

theorem serve_inv {modes : List Mode} (hpriv : WithCredits priv) (h : Inv priv s)
    (hpc : s.pc = .serving (m :: modes)) (hf : Fine priv s (.serve env)) :
    Inv priv { serveMode s priv env m with pc := .serving modes } := by
  obtain ⟨hassert, hlast⟩ := hf
  have hserved := serveMode_served hpriv h.colours hassert m
  refine ⟨hserved.colours, hserved.xmitOpen h.xmitOpen, fun hpending => ?_⟩
  have hold := hserved.pending.symm.trans hpending
  have hturn := h.turn hold
  rw [Turn, hpc] at hturn
  rcases hturn with hs | ⟨hsend, hdone⟩
  · exact .inl (hs.serveMode hpriv h.colours m)
  · obtain ⟨hsent, hused⟩ := serveMode_fine hpriv h.colours hassert hsend (hlast hold m (by rw [hpc]; rfl))
    refine .inr ⟨hsent, fun m' hm' hopen hpos => ?_⟩
    by_cases hme : m' = m
    · subst hme
      exact hused hopen hpos
    · have hqueue := hserved.queued m' hme
      have hpos' : 0 < total (s.queued m') := by
        rw [← hqueue]
        exact hpos
      have hnot : m' ∉ m :: modes := fun hmem => (List.mem_cons.mp hmem).elim hme hm'
      exact hserved.serves.unusable (hdone m' hnot hopen hpos')

theorem resetColors_mode (is : List Color) (c : Color) :
    ((is.foldl TxMsg.resetColor tx).flowCtrl c).mode = (tx.flowCtrl c).mode := by
  induction is generalizing tx with
  | nil => rfl
  | cons i is ih =>
    rw [List.foldl_cons, ih]
    by_cases hc : c = i
    · rw [TxMsg.resetColor, hc]
      dsimp only
      rw [Function.update_self]
    · rw [resetColor_ne tx hc]

theorem reset_serves (h : Colours priv tx) (m : Mode) :
    Colours priv tx.resetCredit ∧ Serves tx tx.resetCredit m := by
  have hmode (c : Color) : (tx.resetCredit.flowCtrl c).mode = (tx.flowCtrl c).mode :=
    resetColors_mode _ c
  have hflow (c : Color) : (tx.resetCredit.flowCtrl c).flow = 0 :=
    (reset_fields _ tx).2 c (.inl (List.mem_finRange c))
  have hzero (c : Color) : (tx.resetCredit.flowCtrl c).flow.toNat = 0 := by
    rw [hflow]
    rfl
  refine ⟨⟨fun i j => ?_, fun i => ?_, ?_⟩, ⟨fun c => .inl (hmode c), fun c => ?_⟩⟩
  · rw [hmode, hmode]
    exact h.one i j
  · rw [hmode]
    exact h.opened i
  · rw [Finset.sum_eq_zero fun c _ => hzero c]
    decide
  · rw [hzero]
    exact Nat.zero_le _

theorem addCredit_colours (h : Colours priv tx) {flow : Color → BitVec 8}
    (hsum : ∑ c, (tx.flowCtrl c).flow.toNat + ∑ i, (flow i).toNat < 2 ^ 31) :
    Colours priv (tx.addCredit flow) := by
  refine ⟨h.one, h.opened, lt_of_le_of_lt ?_ hsum⟩
  rw [← Finset.sum_add_distrib]
  refine Finset.sum_le_sum fun c _ => ?_
  have hwidth : ((flow c).setWidth 32).toNat ≤ (flow c).toNat := by
    rw [BitVec.toNat_setWidth]
    exact Nat.mod_le _ _
  change ((tx.flowCtrl c).flow + (flow c).setWidth 32).toNat ≤ _
  rw [BitVec.toNat_add]
  exact (Nat.mod_le _ _).trans (Nat.add_le_add_left hwidth _)

/-- Losing credits changes nothing. -/
theorem Turn.loses {credit : TxMsg} (h : Turn priv s) (hserves : Serves s.credit credit m) :
    Turn priv { s with credit := credit } := by
  rw [Turn] at h ⊢
  dsimp only
  cases hpc : s.pc with
  | waiting =>
    rw [hpc] at h
    exact Settled.of h hserves fun _ _ hm' => hm'
  | sending => exact True.intro
  | serving modes =>
    rw [hpc] at h
    rcases h with hs | ⟨hsend, hdone⟩
    · exact .inl (Settled.of hs hserves fun _ _ hm' => hm')
    · exact .inr ⟨hsend, fun m' hm' hopen hpos => hserves.unusable (hdone m' hm' hopen hpos)⟩

theorem credit_inv {event : Bool} {flow : Color → BitVec 8} (h : Inv priv s)
    (hf : Fine priv s (.credit event flow)) :
    Inv priv { s with
      credit := sprdwlSdioProcessCredit s.credit event flow
      pending := if ∑ i, (flow i).toNat = 0 then s.pending else s.pending + 1 } := by
  rw [sprdwlSdioProcessCredit]
  by_cases hzero : ∑ i, (flow i).toNat = 0
  · simp only [if_pos hzero]
    by_cases hevent : event = true
    · obtain ⟨hcolours, hserves⟩ := reset_serves h.colours SPRDWL_MODE_NONE
      rw [if_pos hevent]
      exact ⟨hcolours, h.xmitOpen, fun hpending => (h.turn hpending).loses hserves⟩
    · rw [if_neg hevent]
      exact h
  · simp only [if_neg hzero]
    exact ⟨addCredit_colours h.colours hf, h.xmitOpen, fun hpending =>
      absurd hpending (Nat.succ_ne_zero _)⟩

theorem step_inv {s' : State} {e : Event} (hpriv : WithCredits priv) (h : Inv priv s)
    (hf : Fine priv s e) (hs : step priv s e = .ok s') : Inv priv s' := by
  cases e with
  | enqueue mode p =>
    cases hs
    exact ⟨h.colours, h.xmitOpen, fun hpending => absurd hpending (Nat.succ_ne_zero _)⟩
  | enqueueCmd =>
    cases hs
    exact ⟨h.colours, h.xmitOpen, fun hpending => absurd hpending (Nat.succ_ne_zero _)⟩
  | credit event flow =>
    cases hs
    exact credit_inv h hf
  | wake =>
    simp only [step] at hs
    split at hs
    · cases hs
      exact ⟨h.colours, h.xmitOpen, fun _ => True.intro⟩
    · cases hs
  | send env =>
    simp only [step] at hs
    split at hs
    · cases hs
      exact sendTurn_inv hpriv h hf
    · cases hs
  | serve env =>
    simp only [step] at hs
    split at hs
    · rename_i hpc
      cases hs
      refine ⟨h.colours, h.xmitOpen, fun hpending => ?_⟩
      have hturn := h.turn hpending
      rw [Turn, hpc] at hturn
      rcases hturn with hs | ⟨hsend, hdone⟩
      · exact hs
      · intro m hopen hm
        rcases hm with hpos | ⟨hpos, -⟩
        · exact hdone m List.not_mem_nil hopen hpos
        · exact absurd hsend hpos.ne'
    · rename_i hpc
      cases hs
      exact serve_inv hpriv h hpc hf
    · cases hs

end Uwe5631.TxStalls
