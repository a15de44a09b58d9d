import Uwe5631.Interfaces

/-!
# Transmit queues

A packet waits in the queue of its mode, access category and peer. The transmit thread drops
what is too old, merges what the credits allow into the list of packets to send and hands that
list to the bus.
-/
namespace Uwe5631.TxQueue

/-- `SPRDWL_AC_MAX` -/
abbrev SPRDWL_AC_MAX : ℕ := 4

/-- An index of `q_list[]`. -/
abbrev Ac := Fin SPRDWL_AC_MAX

/-- An index of `p_list[]`. -/
abbrev Lut := Fin MAX_LUT_NUM

instance neZero_acs : NeZero SPRDWL_AC_MAX := ⟨by decide⟩

instance neZero_luts : NeZero MAX_LUT_NUM := ⟨by decide⟩

def SPRDWL_AC_VO : Ac := 0
def SPRDWL_AC_VI : Ac := 1
def SPRDWL_AC_BE : Ac := 2
def SPRDWL_AC_BK : Ac := 3

/-- A `struct sprdwl_msg_buf` by its address. -/
structure MsgBuf where
  addr : ℕ
  mode : Mode
  deriving DecidableEq, Repr

/-- `struct peer_list` -/
structure PeerList where
  headList : List MsgBuf
  lNum : ℤ
  deriving DecidableEq, Repr

abbrev Peer := Ac × Lut

/-- The fields of `struct sprdwl_tx_msg` that hold the data packets. -/
structure TxMsg where
  pList : Mode × Peer → PeerList
  modeListNum : Mode → ℤ
  toSendList : List MsgBuf
  toFreeList : List MsgBuf
  failcount : ℕ

def TxMsg.setPeer (tx : TxMsg) (k : Mode × Peer) (list : PeerList) : TxMsg :=
  { tx with pList := Function.update tx.pList k list }

def TxMsg.addModeListNum (tx : TxMsg) (mode : Mode) (num : ℤ) : TxMsg :=
  { tx with modeListNum := Function.update tx.modeListNum mode (tx.modeListNum mode + num) }

/-- All queues are empty after `sprdwl_tx_init`. -/
def TxMsg.init : TxMsg := ⟨fun _ => ⟨[], 0⟩, fun _ => 0, [], [], 0⟩

/-- `sprdwl_queue_data_msg_buf` and the count of the mode. ARP and the like go to the front. -/
def sprdwlQueueDataMsgBuf (tx : TxMsg) (msg : MsgBuf) (p : Peer) (swRate : Bool) : TxMsg :=
  let list := tx.pList (msg.mode, p)
  (tx.setPeer (msg.mode, p)
    { headList := if swRate then msg :: list.headList else list.headList ++ [msg]
      lNum := list.lNum + 1 }).addModeListNum msg.mode 1

/-- `sprdwl_flush_tx_qoslist`, with the buffers it frees. -/
def sprdwlFlushTxQoslist (tx : TxMsg) (mode : Mode) (p : Peer) : TxMsg × List MsgBuf :=
  let list := tx.pList (mode, p)
  if list.headList = [] then (tx, [])
  else ((tx.addModeListNum mode (-list.lNum)).setPeer (mode, p) ⟨[], 0⟩, list.headList)

/-- The pairs of indices in the order of the nested loops. -/
def peers : List Peer := List.finRange SPRDWL_AC_MAX ×ˢ List.finRange MAX_LUT_NUM

/-- `sprdwl_flush_mode_txlist`, with the buffers it frees. -/
def sprdwlFlushModeTxlist (tx : TxMsg) (mode : Mode) : TxMsg × List MsgBuf :=
  ({ tx with
      pList := fun k =>
        if k.1 = mode then
          if (tx.pList k).headList = [] then tx.pList k else ⟨[], 0⟩
        else tx.pList k
      modeListNum := Function.update tx.modeListNum mode 0 },
    peers.flatMap fun p => (tx.pList (mode, p)).headList)

/-- `sprdwl_flush_tosendlist`, with the buffers it frees. -/
def sprdwlFlushTosendlist (tx : TxMsg) : TxMsg × List MsgBuf :=
  ({ tx with toSendList := [] }, tx.toSendList)

/-- The number of packets that `handle_tx_timeout` means to drop. The square wraps. -/
def delListNum (lNum maxnum : ℤ) : ℤ :=
  let del := (BitVec.ofInt 32 (lNum * lNum)).toInt.tdiv maxnum
  if lNum ≤ del then lNum else del

/-- `handle_tx_timeout` for the queue of a peer, with the buffers it drops. -/
def handleTxTimeout (tx : TxMsg) (maxnum : ℤ) (expired : MsgBuf → Bool) (k : Mode × Peer) :
    TxMsg × List MsgBuf :=
  let list := tx.pList k
  match list.headList with
  | [] => (tx, [])
  | tailbuf :: _ =>
    if expired tailbuf then
      let del := delListNum list.lNum maxnum
      let dropped := list.headList.take del.toNat
      ((tx.addModeListNum tailbuf.mode (-dropped.length)).setPeer k
        { headList := list.headList.drop del.toNat
          lNum := list.lNum - del }, dropped)
    else (tx, [])

/-- `add_xmit_list_tail` moves nothing if the list is shorter than the number. -/
def addXmitListTail (tx : TxMsg) (k : Mode × Peer) (addNum : ℤ) : TxMsg :=
  let list := tx.pList k
  if 0 < addNum ∧ addNum ≤ list.headList.length then
    { tx.setPeer k { list with headList := list.headList.drop addNum.toNat } with
      toSendList := tx.toSendList ++ list.headList.take addNum.toNat }
  else tx

/-- Packets of a peer are merged into the list to send and taken off both counts. -/
def TxMsg.merge (tx : TxMsg) (k : Mode × Peer) (num : ℤ) : TxMsg :=
  let tx := addXmitListTail tx k num
  let list := tx.pList k
  (tx.setPeer k { list with lNum := list.lNum - num }).addModeListNum k.1 (-num)

/-- The first loop of `sprdwl_tx_eachmode_data`, with the buffers it drops and `p_list_num`. -/
def timeoutLoop (maxnum : ℤ) (expired : MsgBuf → Bool) (mode : Mode) :
    List Peer → TxMsg → (Peer → ℤ) → TxMsg × List MsgBuf × (Peer → ℤ)
  | [], tx, pListNum => (tx, [], pListNum)
  | p :: ps, tx, pListNum =>
    if 0 < (tx.pList (mode, p)).lNum then
      let r := handleTxTimeout tx maxnum expired (mode, p)
      let rest := timeoutLoop maxnum expired mode ps r.1
        (Function.update pListNum p (r.1.pList (mode, p)).lNum)
      (rest.1, r.2 ++ rest.2.1, rest.2.2)
    else timeoutLoop maxnum expired mode ps tx pListNum

/-- `q_list_num[i]` -/
def qListNum (pListNum : Peer → ℤ) (i : Ac) : ℤ :=
  ((List.finRange MAX_LUT_NUM).map fun j => pListNum (i, j)).sum

/-- Case 1: everything that was counted is merged. -/
def allCounted (pListNum : Peer → ℤ) : List (Peer × ℤ) :=
  (List.finRange SPRDWL_AC_MAX).flatMap fun i =>
    if qListNum pListNum i ≤ 0 then []
    else (List.finRange MAX_LUT_NUM).filterMap fun j =>
      if pListNum (i, j) = 0 then none else some ((i, j), pListNum (i, j))

/-- `vo_ratio`, `vi_ratio` and `be_ratio` -/
structure Ratios where
  vo : ℕ
  vi : ℕ
  be : ℕ

/-- A percentage in unsigned arithmetic. -/
def percent (sendNum : ℤ) (ratio : ℕ) : ℤ := (sendNum.toNat * ratio % 2 ^ 32 / 100 : ℕ)

/-- `fp_num`, the part of `sendNum` that an access category with `qNum` packets gets. -/
def fpNum (ratios : Ratios) (i : Ac) (sendNum total qNum : ℤ) : ℤ :=
  let fpNum :=
    if i = SPRDWL_AC_VO ∧ qNum < total then min (percent sendNum ratios.vo) qNum
    else if i = SPRDWL_AC_VI ∧ qNum < total then min (percent sendNum ratios.vi) qNum
    else if i = SPRDWL_AC_BE ∧ qNum < total then min (percent sendNum ratios.be) qNum
    else (sendNum * qNum).tdiv total
  if total - qNum < sendNum - fpNum ∧ 0 < total - qNum then
    fpNum + (sendNum - fpNum - (total - qNum))
  else fpNum

/-- Case 2: the inner loop over the peers of an access category. -/
def peerShares (i : Ac) (pListNum : Lut → ℤ) : List Lut → ℤ → ℤ → List (Peer × ℤ)
  | [], _, _ => []
  | j :: js, fpNum, qNum =>
    if pListNum j = 0 then peerShares i pListNum js fpNum qNum
    else
      let roundNum := (pListNum j * fpNum).tdiv qNum
      let roundNum := if 0 < fpNum ∧ roundNum = 0 then 1 else roundNum
      let minNum := min roundNum fpNum
      if minNum ≤ 0 then []
      else if fpNum - minNum ≤ 0 then [((i, j), minNum)]
      else ((i, j), minNum) :: peerShares i pListNum js (fpNum - minNum) (qNum - pListNum j)

/-- Case 2: the loop over the access categories. -/
def acShares (ratios : Ratios) (pListNum : Peer → ℤ) : List Ac → ℤ → ℤ → List (Peer × ℤ)
  | [], _, _ => []
  | i :: is, sendNum, total =>
    let qNum := qListNum pListNum i
    if qNum ≤ 0 then acShares ratios pListNum is sendNum total
    else if sendNum ≤ 0 then []
    else
      let fp := fpNum ratios i sendNum total qNum
      peerShares i (fun j => pListNum (i, j)) (List.finRange MAX_LUT_NUM) fp qNum ++
        acShares ratios pListNum is (sendNum - fp) (total - qNum)

/-- The packets that are merged are chosen by `p_list_num` alone. -/
def TxMsg.mergeAll (tx : TxMsg) (mode : Mode) (shares : List (Peer × ℤ)) : TxMsg :=
  shares.foldl (fun tx share => tx.merge (mode, share.1) share.2) tx

/-- What the transmit thread reads of the rest of the driver. -/
structure Env where
  maxnum : ℤ
  expired : MsgBuf → Bool
  ratios : Ratios
  testSendNum : ℤ → ℤ
  cpAsserted : Bool
  /-- The second test, in `sprdwl_intf_tx_list`. -/
  cpAssertedAgain : Bool
  getSendNum : ℕ → ℤ
  ret : ℤ

/-- The packets after a call, the buffers it frees and what it takes off `ref` in bulk. -/
structure Outcome where
  tx : TxMsg
  freed : List MsgBuf
  handedOver : ℤ

/-- The lists of `sprdwl_intf_tx_list` and what it returns. A batch that the bus refuses is put
back in front. -/
def sprdwlIntfTxList (tx : TxMsg) (cpAsserted : Bool) (txCount ret : ℤ) : TxMsg × ℤ :=
  if cpAsserted = true then (tx, 0)
  else if ret = 0 ∧ txCount ≤ tx.toSendList.length then
    ({ tx with
        toSendList := tx.toSendList.drop txCount.toNat
        toFreeList := tx.toFreeList ++ tx.toSendList.take txCount.toNat }, ret)
  else (tx, ret)

def sprdwlHandleToSendList (tx : TxMsg) (env : Env) : Outcome :=
  if tx.toSendList = [] ∨ env.cpAsserted = true then ⟨tx, [], 0⟩
  else
    let credit := env.getSendNum tx.toSendList.length
    if credit ≤ 0 then ⟨tx, [], 0⟩
    else
      let r := sprdwlIntfTxList tx env.cpAssertedAgain credit env.ret
      let tx := r.1
      if r.2 ≠ 0 then
        if 10 < tx.failcount + 1 then
          let flushed := sprdwlFlushTosendlist tx
          ⟨{ flushed.1 with failcount := 0 }, flushed.2, 0⟩
        else ⟨{ tx with failcount := tx.failcount + 1 }, [], 0⟩
      else ⟨tx, [], credit⟩

/-- `sprdwl_tx_eachmode_data` up to the last call: what it merges, what it frees and whether it
goes on to hand the list over. -/
def mergeQosLists (tx : TxMsg) (env : Env) (mode : Mode) : TxMsg × List MsgBuf × Bool :=
  let r := timeoutLoop env.maxnum env.expired mode peers tx fun _ => 0
  let pListNum := r.2.2
  let total := ((List.finRange SPRDWL_AC_MAX).map (qListNum pListNum)).sum
  let sendNum := env.testSendNum total
  if total ≠ 0 ∧ sendNum ≤ 0 then (r.1, r.2.1, false)
  else
    let shares := if total ≤ sendNum then allCounted pListNum
      else acShares env.ratios pListNum (List.finRange SPRDWL_AC_MAX) sendNum total
    (r.1.mergeAll mode shares, r.2.1, true)

/-- `sprdwl_tx_eachmode_data` -/
def sprdwlTxEachmodeData (tx : TxMsg) (env : Env) (mode : Mode) : Outcome :=
  let r := mergeQosLists tx env mode
  if r.2.2 = true then
    let sent := sprdwlHandleToSendList r.1 env
    { sent with freed := r.2.1 ++ sent.freed }
  else ⟨r.1, r.2.1, 0⟩

end Uwe5631.TxQueue
