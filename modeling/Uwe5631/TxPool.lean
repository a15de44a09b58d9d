import Uwe5631.CreditColours
import Uwe5631.TxQueues
import Uwe5631.FallibleRuns
import Mathlib.Algebra.BigOperators.Group.Multiset.Basic

/-!
# The pool of message buffers

A buffer is free, held by a caller, waiting to be sent or with the bus. The pool counts in `ref`
what is in use. A buffer that was handed to an SDIO or USB bus is no longer counted, one that was
handed to a PCIe bus is counted until it is freed: its transfer is completed long before the
firmware reports that the packet was sent.
-/
namespace Uwe5631.TxQueue
open FallibleRuns
open Credit (HwType CreditCapa FwStat)

/-- `SPRDWL_TX_QOS_POOL_SIZE` -/
abbrev SPRDWL_TX_QOS_POOL_SIZE : ℕ := 20000

/-- `SPRDWL_MSG_EXIT_VAL` -/
abbrev SPRDWL_MSG_EXIT_VAL : ℤ := 0x8000

/-- `SPRDWL_MAX_DATA_TXLEN` -/
abbrev SPRDWL_MAX_DATA_TXLEN : ℕ := 1672

/-- `tx_list_qos_pool` with the packets, and the buffers that callers hold. -/
structure State where
  hwType : HwType
  tx : TxMsg
  freelist : List ℕ
  ref : ℤ
  maxnum : ℤ
  held : List MsgBuf

/-- `sprdwl_msg_init` with the addresses of its buffers. -/
def State.init (hwType : HwType) (addrs : List ℕ) : State :=
  ⟨hwType, .init, addrs, 0, addrs.length, []⟩

/-- `sprdwl_alloc_msg_buf` -/
def State.allocMsgBuf (s : State) (mode : Mode) : State :=
  if SPRDWL_MSG_EXIT_VAL ≤ s.ref + 1 then s
  else
    match s.freelist with
    | [] => s
    | addr :: rest =>
      { s with freelist := rest, ref := s.ref + 1, held := ⟨addr, mode⟩ :: s.held }

/-- `sprdwl_get_msg_buf` for data. The pool grows by a new buffer when most of it is in use. -/
def State.getMsgBuf (s : State) (mode : Mode) (kzalloc : Option ℕ) : State :=
  if ((SPRDWL_TX_QOS_POOL_SIZE * 8 / 10 : ℕ) : ℤ) < s.ref then
    match kzalloc with
    | some addr =>
      { s with freelist := s.freelist ++ [addr], maxnum := s.maxnum + 1 }.allocMsgBuf mode
    | none => s
  else s.allocMsgBuf mode

/-- `sprdwl_free_msg_buf` for each buffer of a list. -/
def State.freeMsgBufs (s : State) (msgs : List MsgBuf) : State :=
  { s with
    freelist := s.freelist ++ msgs.map MsgBuf.addr
    ref := s.ref - msgs.length }

/-- The buffers that a call frees, and the batch that it takes off `ref`. -/
def State.settle (s : State) (out : Outcome) : State :=
  let s := { s with tx := out.tx }.freeMsgBufs out.freed
  { s with ref := s.ref - out.handedOver }

/-- `sprdwl_dequeue_data_list` and `sprdwl_handle_pop_list` leave `ref` as it is. What completes
on a PCIe bus are address buffers. -/
def State.complete (s : State) (msgs : List MsgBuf) : State :=
  if s.hwType = .pcie then s
  else
    { s with
      tx := { s.tx with toFreeList := s.tx.toFreeList.filter (· ∉ msgs) }
      freelist := s.freelist ++ msgs.map MsgBuf.addr }

/-- The loop of `sprdwl_tx_free_pcie_data` over the packets the firmware did not report in time.
`sprdwl_dequeue_data_buf` takes each off `ref`. -/
def State.freeLate (s : State) (late : MsgBuf → Bool) : State :=
  { s with tx := { s.tx with toFreeList := s.tx.toFreeList.dropWhile late } }.freeMsgBufs
    (s.tx.toFreeList.takeWhile late)

/-- What a round of the transmit thread reads. -/
structure Round where
  expired : MsgBuf → Bool
  ratios : Ratios
  creditCapa : CreditCapa
  fwStat : Mode → FwStat
  atTest : Credit.TxMsg
  atSend : Credit.TxMsg
  cpAsserted : Bool
  cpAssertedAgain : Bool
  ret : ℤ

/-- The credits decide how much a round may send. -/
def State.env (s : State) (round : Round) (mode : Mode) : Env where
  maxnum := s.maxnum
  expired := round.expired
  ratios := round.ratios
  testSendNum total :=
    (Credit.sprdwlFcTestSendNum round.atTest ⟨s.hwType, round.creditCapa, round.fwStat⟩ mode total).2
  cpAsserted := round.cpAsserted
  cpAssertedAgain := round.cpAssertedAgain
  getSendNum num :=
    (Credit.sprdwlFcGetSendNum round.atSend ⟨s.hwType, round.creditCapa, round.fwStat⟩ mode num).2
  ret := round.ret

inductive PoolEvent where
  | getMsgBuf (mode : Mode) (kzalloc : Option ℕ)
  | freeMsgBuf (msg : MsgBuf)
  | startXmit (msg : MsgBuf) (len : ℕ) (p : Peer) (swRate : Bool)
  | releaseAck (msg : MsgBuf) (len : ℕ) (p : Peer) (swRate : Bool)
  | flushQoslist (mode : Mode) (p : Peer)
  | flushMode (mode : Mode)
  | flushTosend
  | eachMode (mode : Mode) (round : Round)
  | toSend (mode : Mode) (round : Round)
  | complete (msgs : List MsgBuf)
  | txFreePcieData (named : List MsgBuf) (late : MsgBuf → Bool)

/-- The allocator gives out an address that is in use, or a buffer is not where it is taken from.
`sprdwl_tx_free_pcie_data` takes the place in front of a packet, where the address of its buffer
stands, for the buffer itself. -/
inductive PoolFault where
  | inUse
  | notHeld
  | notInFlight
  | notABuffer

/-- The packets that wait in a queue. -/
def TxMsg.queued (tx : TxMsg) : Multiset MsgBuf :=
  ∑ k, ((tx.pList k).headList : Multiset MsgBuf)

/-- The packets that wait in a queue or to be sent. -/
def TxMsg.waiting (tx : TxMsg) : Multiset MsgBuf := tx.queued + tx.toSendList

/-- The addresses of all buffers of the pool. -/
def State.buffers (s : State) : Multiset ℕ :=
  s.freelist + ((s.held : Multiset MsgBuf) + s.tx.waiting + s.tx.toFreeList).map MsgBuf.addr

/-- `sprdwl_tx_msg_func` frees a packet that is too long and reports an error. -/
def State.txMsgFunc (s : State) (msg : MsgBuf) (len : ℕ) (p : Peer) (swRate : Bool) :
    State × Bool :=
  let s := { s with held := s.held.erase msg }
  if SPRDWL_MAX_DATA_TXLEN < len then (s.freeMsgBufs [msg], false)
  else ({ s with tx := sprdwlQueueDataMsgBuf s.tx msg p swRate }, true)

/-- After an error `sprdwl_start_xmit` frees the buffer, the timer of the TCP ACKs does not. -/
def poolStep (s : State) : PoolEvent → Except PoolFault State
  | .getMsgBuf mode kzalloc =>
    if ∃ addr ∈ kzalloc, s.buffers.count addr ≠ 0 then .error .inUse else .ok (s.getMsgBuf mode kzalloc)
  | .freeMsgBuf msg =>
    if msg ∈ s.held then .ok ({ s with held := s.held.erase msg }.freeMsgBufs [msg])
    else .error .notHeld
  | .startXmit msg len p swRate =>
    if msg ∈ s.held then
      let r := s.txMsgFunc msg len p swRate
      .ok (if r.2 = true then r.1 else r.1.freeMsgBufs [msg])
    else .error .notHeld
  | .releaseAck msg len p swRate =>
    if msg ∈ s.held then .ok (s.txMsgFunc msg len p swRate).1 else .error .notHeld
  | .flushQoslist mode p =>
    let r := sprdwlFlushTxQoslist s.tx mode p
    .ok (s.settle ⟨r.1, r.2, 0⟩)
  | .flushMode mode =>
    let r := sprdwlFlushModeTxlist s.tx mode
    .ok (s.settle ⟨r.1, r.2, 0⟩)
  | .flushTosend =>
    let r := sprdwlFlushTosendlist s.tx
    .ok (s.settle ⟨r.1, r.2, 0⟩)
  | .eachMode mode round => .ok (s.settle (sprdwlTxEachmodeData s.tx (s.env round mode) mode))
  | .toSend mode round => .ok (s.settle (sprdwlHandleToSendList s.tx (s.env round mode)))
  | .complete msgs =>
    if msgs.Nodup ∧ ∀ msg ∈ msgs, msg ∈ s.tx.toFreeList then .ok (s.complete msgs)
    else .error .notInFlight
  | .txFreePcieData named late =>
    -- Other buses have no such event.
    if s.hwType ≠ .pcie then .ok s
    else if ¬ ∀ msg ∈ named, msg ∈ s.tx.toFreeList then .error .notInFlight
    else if named ≠ [] then .error .notABuffer
    else .ok (s.freeLate late)

/-- The buffers outside the free list that the bus counts as in use. -/
def State.inUse (s : State) : ℕ :=
  s.held.length + s.tx.waiting.card + if s.hwType = .pcie then s.tx.toFreeList.length else 0

/-- `ref` is right, and every buffer of the pool is in one place. -/
structure PoolRight (s : State) : Prop where
  ref : s.ref = s.inUse
  total : (s.buffers.card : ℤ) = s.maxnum
  once : ∀ addr, s.buffers.count addr ≤ 1

/-! ## Where the buffers go -/

variable {tx tx' : TxMsg} {k : Mode × Peer} {mode : Mode} {num : ℤ} {s s' : State} {env : Env}

theorem waiting_eq (tx : TxMsg) : tx.waiting = tx.queued + tx.toSendList := rfl

/-- A call frees buffers and hands others to the bus; the others stay where they are. -/
structure Moves (tx tx' : TxMsg) (freed : List MsgBuf) (handed : Multiset MsgBuf) : Prop where
  waiting : tx'.waiting + freed + handed = tx.waiting
  toFree : (tx'.toFreeList : Multiset MsgBuf) = tx.toFreeList + handed

theorem Moves.refl (tx : TxMsg) : Moves tx tx [] 0 := ⟨by simp, by simp⟩

theorem Moves.trans {tx₁ : TxMsg} {freed freed₁ : List MsgBuf} {handed handed₁ : Multiset MsgBuf}
    (h : Moves tx tx₁ freed handed) (h₁ : Moves tx₁ tx' freed₁ handed₁) :
    Moves tx tx' (freed ++ freed₁) (handed + handed₁) := by
  constructor
  · rw [← h.waiting, ← h₁.waiting, ← Multiset.coe_add]
    abel
  · rw [h₁.toFree, h.toFree, add_assoc]

theorem coe_flatMap (ps : List Peer) (f : Peer → List MsgBuf) :
    ((ps.flatMap f : List MsgBuf) : Multiset MsgBuf) =
      (ps.map fun p => (f p : Multiset MsgBuf)).sum := by
  induction ps with
  | nil => rfl
  | cons p ps ih => rw [List.flatMap_cons, ← Multiset.coe_add, ih, List.map_cons, List.sum_cons]

theorem sum_peers (f : Peer → Multiset MsgBuf) : (peers.map f).sum = ∑ p, f p := by
  have hnodup : peers.Nodup := (List.nodup_finRange _).product (List.nodup_finRange _)
  have hall : peers.toFinset = Finset.univ := by
    ext p
    have hp : p ∈ peers := List.mem_product.mpr ⟨List.mem_finRange p.1, List.mem_finRange p.2⟩
    simp [hp]
  rw [← List.sum_toFinset f hnodup, hall]

theorem flushMode_moves (tx : TxMsg) (mode : Mode) :
    Moves tx (sprdwlFlushModeTxlist tx mode).1 (sprdwlFlushModeTxlist tx mode).2 0 := by
  have hmode : ∀ p, ((sprdwlFlushModeTxlist tx mode).1.pList (mode, p)).headList = [] := by
    intro p
    rw [sprdwlFlushModeTxlist]
    dsimp only
    rw [if_pos rfl]
    split
    · assumption
    · rfl
  have hother : ∀ m ∈ Finset.univ.erase mode,
      ∑ p, (((sprdwlFlushModeTxlist tx mode).1.pList (m, p)).headList : Multiset MsgBuf) =
        ∑ p, ((tx.pList (m, p)).headList : Multiset MsgBuf) := by
    intro m hm
    refine Finset.sum_congr rfl fun p _ => ?_
    have hne : (sprdwlFlushModeTxlist tx mode).1.pList (m, p) = tx.pList (m, p) :=
      if_neg (Finset.ne_of_mem_erase hm)
    rw [hne]
  have hfreed : ((sprdwlFlushModeTxlist tx mode).2 : Multiset MsgBuf) =
      ∑ p, ((tx.pList (mode, p)).headList : Multiset MsgBuf) := by
    rw [sprdwlFlushModeTxlist]
    dsimp only
    rw [coe_flatMap, sum_peers]
  have hqueued : (sprdwlFlushModeTxlist tx mode).1.queued + (sprdwlFlushModeTxlist tx mode).2 =
      tx.queued := by
    rw [TxMsg.queued, TxMsg.queued, Fintype.sum_prod_type, Fintype.sum_prod_type,
      ← Finset.add_sum_erase _ _ (Finset.mem_univ mode), Finset.sum_congr rfl hother, hfreed,
      ← Finset.add_sum_erase _ (fun m => ∑ p, ((tx.pList (m, p)).headList : Multiset MsgBuf))
        (Finset.mem_univ mode)]
    simp only [hmode]
    simp [add_comm]
  refine ⟨?_, (add_zero _).symm⟩
  rw [waiting_eq, waiting_eq, add_zero, add_right_comm, hqueued]
  rfl

/-- There are packets to send and credits for some when the firmware is first looked at. -/
def Offers (tx : TxMsg) (env : Env) : Prop :=
  tx.toSendList ≠ [] ∧ env.cpAsserted = false ∧ 0 < env.getSendNum tx.toSendList.length

/-- The bus takes a batch from the list to send. -/
def Accepts (tx : TxMsg) (env : Env) : Prop :=
  Offers tx env ∧ env.cpAssertedAgain = false ∧ env.ret = 0

/-- The firmware is asserted between the two tests. -/
def Asserts (tx : TxMsg) (env : Env) : Prop := Offers tx env ∧ env.cpAssertedAgain = true

/-- What is taken off `ref` in bulk: the packets handed over, and those that were not sent because
the firmware was asserted between the tests. -/
structure HandsOver (tx : TxMsg) (out : Outcome) (handed : Multiset MsgBuf) (lost : ℕ) : Prop where
  moves : Moves tx out.tx out.freed handed
  num : out.handedOver = handed.card + lost

theorem HandsOver.none {out : Outcome} (h : Moves tx out.tx out.freed 0) (hnum : out.handedOver = 0) :
    HandsOver tx out 0 0 := ⟨h, by rw [hnum]; rfl⟩

/-- What a round hands to the bus comes from the list it has merged. -/
def AcceptsRound (tx : TxMsg) (env : Env) (mode : Mode) : Prop :=
  (mergeQosLists tx env mode).2.2 = true ∧ Accepts (mergeQosLists tx env mode).1 env

def AssertsRound (tx : TxMsg) (env : Env) (mode : Mode) : Prop :=
  (mergeQosLists tx env mode).2.2 = true ∧ Asserts (mergeQosLists tx env mode).1 env

theorem buffers_eq (s : State) : s.buffers = (s.freelist : Multiset ℕ) +
    (s.held : Multiset MsgBuf).map MsgBuf.addr + s.tx.waiting.map MsgBuf.addr +
      (s.tx.toFreeList : Multiset MsgBuf).map MsgBuf.addr := by
  rw [State.buffers, Multiset.map_add, Multiset.map_add]
  abel

theorem settle_ref (s : State) (out : Outcome) :
    (s.settle out).ref = s.ref - out.freed.length - out.handedOver := rfl

theorem toFree_nodup (h : PoolRight s) : s.tx.toFreeList.Nodup := by
  refine List.nodup_iff_count_le_one.mpr fun msg => ?_
  have hcount := h.once msg.addr
  rw [buffers_eq, Multiset.count_add, Multiset.map_coe _ s.tx.toFreeList, Multiset.coe_count] at hcount
  have hmap := List.count_le_count_map (l := s.tx.toFreeList) (f := MsgBuf.addr) (x := msg)
  omega

/-- No packet is too long for `sprdwl_tx_msg_func`, no batch goes to a PCIe bus, and the firmware
is not asserted between the two tests. -/
def Sound (s : State) : PoolEvent → Prop
  | .startXmit msg len _ _ => msg ∈ s.held → len ≤ SPRDWL_MAX_DATA_TXLEN
  | .eachMode mode round =>
    (s.hwType = .pcie → ¬ AcceptsRound s.tx (s.env round mode) mode) ∧
      ¬ AssertsRound s.tx (s.env round mode) mode
  | .toSend mode round =>
    (s.hwType = .pcie → ¬ Accepts s.tx (s.env round mode)) ∧ ¬ Asserts s.tx (s.env round mode)
  | _ => True

end Uwe5631.TxQueue
