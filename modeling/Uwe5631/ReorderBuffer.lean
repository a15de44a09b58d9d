import Uwe5631.MachineIntegers
import Uwe5631.SequenceNumbers
import Uwe5631.FallibleRuns

/-!
# The receive reorder buffer

The functions of `reorder.c` that work on one block-ack node, in the order of the
source. A chain of socket buffers is the list of its members, `NULL` being the empty
chain. `kfree_skb_list` and `dev_kfree_skb` append to a list of freed buffers. A C
access that would be undefined ends in a `Fault`.
-/
namespace Uwe5631.Reorder

abbrev U8 := Fin 256
abbrev U16 := Fin 65536
abbrev U32 := Fin 4294967296

/-- The address of an `sk_buff`. -/
abbrev Skb := ℕ

inductive Fault where
  /-- `reorder_set_skb_list` dereferences `skb_last`, which is `NULL`. -/
  | nullSkb
  /-- An index at or beyond the slots allocated for the node. -/
  | slotIndex (index : ℕ)
  /-- An index at or beyond `NUM_TIDS` into `hlist`. -/
  | bucketIndex (tid : ℕ)
  /-- An access to a node that is not allocated. -/
  | freedNode (node : ℕ)
  deriving DecidableEq, Repr

/-- The four-bit `cipher_type` of the hardware descriptor. -/
abbrev CipherType := Fin 16

def hwTkip : CipherType := 1
def hwCcmp : CipherType := 2

/-- Replay detection and `is_same_pn` only look at these cipher types. -/
def CipherType.numbered (c : CipherType) : Bool := c == hwTkip || c == hwCcmp

/-- The fields of `rx_msdu_desc` that the reorder code reads. -/
structure RxMsduDesc where
  seqNum : Fin 4096
  lastMsduOfMpdu : Bool
  pnL : U32
  pnH : U16
  cipherType : CipherType
  tid : Fin 16
  staLutIndex : Fin 32
  qosFlag : Bool
  bcMcFlag : Bool
  deriving DecidableEq, Repr

structure RxBaPktDesc where
  pnL : U32
  pnH : U16
  seq : ℕ
  cipherType : CipherType
  last : Bool
  msduNum : ℕ
  deriving DecidableEq, Repr

/-- A reorder slot; `skbs` is the chain from `skb` to `skb_last`. -/
structure RxBaPkt where
  skbs : List Skb
  desc : RxBaPktDesc
  deriving DecidableEq, Repr

/-- `memset(pkt, 0, sizeof(struct rx_ba_pkt))` -/
def RxBaPkt.zero : RxBaPkt := ⟨[], ⟨0, 0, 0, 0, false, 0⟩⟩

structure RxBaNodeDesc where
  winStartInit : ℕ
  winStart : ℕ
  winLimit : ℕ
  winTail : ℕ
  winSize : ℕ
  buffCnt : ℕ
  pnH : U16
  pnL : U32
  resetPn : Bool
  indexMask : ℕ
  reorderBuffer : List RxBaPkt
  deriving DecidableEq, Repr

structure RxBaNode where
  staLutIndex : ℕ
  tid : ℕ
  active : Bool
  timeoutCnt : ℕ
  timerPending : Bool
  rxBa : RxBaNodeDesc
  deriving DecidableEq, Repr

/-- The function that links a chain to the delivery list. -/
inductive Sender where
  | sendOrderMsdu
  | sendReorderSkb
  | reorderMsdu
  | reorderMsduProcess
  | reorderDataProcess
  deriving DecidableEq, Repr

/-- Linked as the next MPDU of the window, not around it. -/
def Sender.inWindow : Sender → Bool
  | .sendOrderMsdu | .sendReorderSkb => true
  | .reorderMsdu | .reorderMsduProcess | .reorderDataProcess => false

/-- One chain linked to the delivery list. The list itself is the concatenation of
the chains; who linked a chain and for which sequence number is noted beside it. -/
structure Delivery where
  sender : Sender
  seq : ℕ
  skbs : List Skb
  deriving DecidableEq, Repr

/-- Where socket buffers leave the reorder code. -/
structure RxLists where
  delivered : List Delivery
  freed : List Skb
  deriving DecidableEq, Repr

def RxLists.empty : RxLists := ⟨[], []⟩

def RxLists.kfreeSkbList (l : RxLists) (chain : List Skb) : RxLists :=
  { l with freed := l.freed ++ chain }

/-- What the release functions work on: `ba_entry` and `ba_node_desc`. -/
structure RxState where
  lists : RxLists
  desc : RxBaNodeDesc
  deriving DecidableEq, Repr

/-- `reorder_buffer[index]` -/
def RxBaNodeDesc.pkt (d : RxBaNodeDesc) (index : ℕ) : Except Fault RxBaPkt :=
  match d.reorderBuffer[index]? with
  | some pkt => .ok pkt
  | none => .error (.slotIndex index)

def RxBaNodeDesc.setPkt (d : RxBaNodeDesc) (index : ℕ) (pkt : RxBaPkt) : RxBaNodeDesc :=
  { d with reorderBuffer := d.reorderBuffer.set index pkt }

/-! ## Window parameters -/

/-- The doubling loop of `get_index_size`; twenty-five doublings take the index size
from `MIN_INDEX_SIZE` to the top bit of an `unsigned int`. -/
def getIndexSizeLoop (size : ℕ) : ℕ → ℕ → ℕ
  | 0, indexSize => indexSize
  | n + 1, indexSize => if size > indexSize then getIndexSizeLoop size n (indexSize * 2) else indexSize

def getIndexSize (size : ℕ) : ℕ := getIndexSizeLoop size 25 64

/-- The loop doubles a power of two, and not beyond one that is large enough. -/
theorem getIndexSizeLoop_eq {size a b : ℕ} (n : ℕ) (ha : a ≤ b) (h : size ≤ 2 ^ b) :
    ∃ i ≤ b, getIndexSizeLoop size n (2 ^ a) = 2 ^ i := by
  induction n generalizing a with
  | zero => exact ⟨a, ha, rfl⟩
  | succ n ih =>
    rw [getIndexSizeLoop]
    split
    · rename_i hlt
      have hab : a < b := (Nat.pow_lt_pow_iff_right (by norm_num)).mp (lt_of_lt_of_le hlt h)
      rw [← pow_succ]
      exact ih hab
    · exact ⟨a, ha, rfl⟩

theorem getIndexSize_eq {size b : ℕ} (hb : 6 ≤ b) (h : size ≤ 2 ^ b) :
    ∃ i ≤ b, getIndexSize size = 2 ^ i :=
  getIndexSizeLoop_eq 25 hb h

theorem le_getIndexSizeLoop {size n m : ℕ} (h : size ≤ m * 2 ^ n) :
    size ≤ getIndexSizeLoop size n m := by
  induction n generalizing m with
  | zero => simpa [getIndexSizeLoop] using h
  | succ n ih =>
    rw [getIndexSizeLoop]
    split
    · apply ih
      rw [mul_assoc, ← pow_succ']
      exact h
    · omega

/-- The slots allocated for a size suffice for it. -/
theorem le_getIndexSize {size : ℕ} (h : size ≤ 2 ^ 31) : size ≤ getIndexSize size :=
  le_getIndexSizeLoop (by omega)

def setBaNodeDesc (d : RxBaNodeDesc) (winStart winSize indexMask : ℕ) : RxBaNodeDesc :=
  { d with
    winSize := winSize
    winStart := winStart
    winStartInit := winStart
    winLimit := seqnoAdd winStart ((winSize : ℤ) - 1)
    winTail := seqnoSub winStart 1
    indexMask := indexMask
    buffCnt := 0 }

def setBaPktDesc (p : RxBaPktDesc) (m : RxMsduDesc) : RxBaPktDesc :=
  { p with seq := m.seqNum, pnL := m.pnL, pnH := m.pnH, cipherType := m.cipherType }

/-! ## Delivery and replay detection -/

def reorderSetSkbList (l : RxLists) (sender : Sender) (seq : ℕ) (chain : List Skb) :
    Except Fault RxLists :=
  if chain = [] then .error .nullSkb
  else .ok { l with delivered := l.delivered ++ [⟨sender, seq, chain⟩] }

def modReorderTimer (n : RxBaNode) : RxBaNode :=
  if n.rxBa.buffCnt ≠ 0 then { n with timerPending := true }
  else { n with timerPending := false, timeoutCnt := 0 }

@[simp] theorem modReorderTimer_rxBa (n : RxBaNode) : (modReorderTimer n).rxBa = n.rxBa := by
  rw [modReorderTimer]
  split <;> rfl

def isSamePn (p : RxBaPktDesc) (m : RxMsduDesc) : Bool :=
  if p.cipherType.numbered then !(p.pnL ≠ m.pnL || p.pnH ≠ m.pnH) else true

def replayDetection (p : RxBaPktDesc) (d : RxBaNodeDesc) : Bool × RxBaNodeDesc :=
  if p.cipherType.numbered then
    if d.resetPn && d.pnL ≥ p.pnL && d.pnH ≥ p.pnH then
      (true, { d with resetPn := false, pnL := p.pnL, pnH := p.pnH })
    else if (d.pnH = p.pnH && d.pnL < p.pnL) || d.pnH < p.pnH then
      (true, { d with pnL := p.pnL, pnH := p.pnH })
    else (false, d)
  else (true, d)

def sendOrderMsdu (m : RxMsduDesc) (skb : Option Skb) (s : RxState) : Except Fault RxState :=
  let winStart := seqnoAdd s.desc.winStart 1
  let d := { s.desc with
    winStart := winStart
    winLimit := seqnoAdd s.desc.winLimit 1
    winTail := seqnoSub winStart 1 }
  match skb with
  | none => .ok { s with desc := d }
  | some k =>
    match replayDetection (setBaPktDesc RxBaPkt.zero.desc m) d with
    | (true, d) => (reorderSetSkbList s.lists .sendOrderMsdu m.seqNum [k]).map (⟨·, d⟩)
    | (false, d) => .ok ⟨s.lists.kfreeSkbList [k], d⟩

/-- `send_reorder_skb` on the slot with the given index and content. -/
def sendReorderSkb (index : ℕ) (pkt : RxBaPkt) (s : RxState) : Except Fault RxState :=
  if pkt.skbs = [] then .ok { s with desc := s.desc.setPkt index RxBaPkt.zero }
  else
    match replayDetection pkt.desc s.desc with
    | (true, d) => (reorderSetSkbList s.lists .sendReorderSkb pkt.desc.seq pkt.skbs).map
        (⟨·, d.setPkt index RxBaPkt.zero⟩)
    | (false, d) => .ok ⟨s.lists.kfreeSkbList pkt.skbs, d.setPkt index RxBaPkt.zero⟩

/-- The loop of `flush_reorder_buffer` over the `n` slots from `i` on. -/
def flushLoop : ℕ → ℕ → RxState → Except Fault RxState
  | 0, _, s => .ok s
  | n + 1, i, s => (s.desc.pkt i).bind fun pkt =>
      flushLoop n (i + 1) ⟨s.lists.kfreeSkbList pkt.skbs, s.desc.setPkt i RxBaPkt.zero⟩

def flushReorderBuffer (s : RxState) : Except Fault RxState :=
  (flushLoop (s.desc.indexMask + 1) 0 s).map fun s => { s with desc := { s.desc with buffCnt := 0 } }

def jointMsdu (pkt : RxBaPkt) (newsk : Option Skb) : RxBaPkt :=
  { pkt with skbs := pkt.skbs ++ newsk.toList }

/-! ## Release loops -/

/-- `while (1)` of `send_msdu_in_order`, which stops at `buff_cnt` zero at the latest:
the recursion is on `buff_cnt`. -/
def inOrderLoop : ℕ → ℕ → RxState → Except Fault (ℕ × RxState)
  | 0, seqNum, s => .ok (seqNum, s)
  | n + 1, seqNum, s =>
    let index := seqNum &&& s.desc.indexMask
    (s.desc.pkt index).bind fun pkt =>
      if pkt.desc.last then
        (sendReorderSkb index pkt s).bind fun s =>
          inOrderLoop n ((seqNum + 1) % 65536) { s with desc := { s.desc with buffCnt := n } }
      else .ok (seqNum, s)

/-- Returns the next sequence number expected. -/
def sendMsduInOrder (s : RxState) : Except Fault (ℕ × RxState) :=
  (inOrderLoop s.desc.buffCnt s.desc.winStart s).map fun r => (r.1 &&& 0xfff, r.2)

/-- `while (num--)` of `send_msdu_with_gap`. -/
def gapLoop : ℕ → ℕ → ℕ → RxState → Except Fault (ℕ × RxState)
  | 0, _, numFrms, s => .ok (numFrms, s)
  | n + 1, seqNum, numFrms, s =>
    let index := seqNum &&& s.desc.indexMask
    if s.desc.buffCnt = 0 then gapLoop n ((seqNum + 1) % 65536) numFrms s
    else
      (s.desc.pkt index).bind fun pkt =>
        if pkt.desc.msduNum = 0 then gapLoop n ((seqNum + 1) % 65536) numFrms s
        else
          (sendReorderSkb index pkt s).bind fun s =>
            gapLoop n ((seqNum + 1) % 65536) ((numFrms + 1) % 65536)
              { s with desc := { s.desc with buffCnt := s.desc.buffCnt - 1 } }

/-- Returns the number of MPDUs released. -/
def sendMsduWithGap (lastSeqno : ℕ) (s : RxState) : Except Fault (ℕ × RxState) :=
  gapLoop (seqnoSub lastSeqno s.desc.winStart) s.desc.winStart 0 s

/-- `win_start = send_msdu_in_order(..); win_limit = SEQNO_ADD(win_start, win_size - 1)` -/
def betweenSeqloSeqhi (s : RxState) : Except Fault RxState :=
  (sendMsduInOrder s).map fun r => { r.2 with
    desc := { r.2.desc with
      winStart := r.1
      winLimit := seqnoAdd r.1 ((r.2.desc.winSize : ℤ) - 1) } }

/-- Release everything before `pos`, put the window there and release in order from it. -/
def moveWindow (pos : ℕ) (s : RxState) : Except Fault RxState :=
  (sendMsduWithGap pos s).bind fun r =>
    betweenSeqloSeqhi { r.2 with desc := { r.2.desc with winStart := pos } }

def greaterThanSeqhi (seqNum : ℕ) (s : RxState) : Except Fault RxState :=
  moveWindow (seqnoSub seqNum ((s.desc.winSize : ℤ) - 1)) s

/-! ## Insertion -/

def EINVAL : ℤ := 22

def insertMsdu (m : RxMsduDesc) (skb : Option Skb) (d : RxBaNodeDesc) :
    Except Fault (ℤ × RxBaNodeDesc) :=
  let index := m.seqNum &&& d.indexMask
  (d.pkt index).map fun insert =>
    if insert.desc.msduNum ≠ 0 then
      if insert.desc.seq = (m.seqNum : ℕ) && !insert.desc.last && isSamePn insert.desc m then
        let pkt := jointMsdu insert skb
        (0, d.setPkt index { pkt with
          desc := { pkt.desc with
            msduNum := (pkt.desc.msduNum + 1) % 65536
            last := m.lastMsduOfMpdu } })
      else (-EINVAL, d)
    else
      let pkt := jointMsdu insert skb
      (0, { d.setPkt index { pkt with
          desc := { setBaPktDesc pkt.desc m with
            last := m.lastMsduOfMpdu
            msduNum := 1 } } with
        buffCnt := (d.buffCnt + 1) % 65536 })

/-- The common end of `reorder_msdu`: `if (ret && skb) dev_kfree_skb(skb)`. -/
def dropIfFailed (ret : ℤ) (skb : Option Skb) (s : RxState) : RxState :=
  if ret ≠ 0 then { s with lists := s.lists.kfreeSkbList skb.toList } else s

@[simp] theorem dropIfFailed_desc (ret : ℤ) (skb : Option Skb) (s : RxState) :
    (dropIfFailed ret skb s).desc = s.desc := by
  rw [dropIfFailed]
  split <;> rfl

@[simp] theorem dropIfFailed_delivered (ret : ℤ) (skb : Option Skb) (s : RxState) :
    (dropIfFailed ret skb s).lists.delivered = s.lists.delivered := by
  rw [dropIfFailed]
  split <;> rfl

/-- `if (!ret && seqno_geq(seq_num, win_tail)) win_tail = seq_num` -/
def noteTail (ret : ℤ) (m : RxMsduDesc) (d : RxBaNodeDesc) : RxBaNodeDesc :=
  if ret = 0 && seqnoGeq m.seqNum d.winTail then { d with winTail := m.seqNum } else d

@[simp] theorem noteTail_winStartInit (ret : ℤ) (m : RxMsduDesc) (d : RxBaNodeDesc) :
    (noteTail ret m d).winStartInit = d.winStartInit := by
  rw [noteTail]
  split <;> rfl

/-- Insertion in `reorder_msdu`, once the window reaches the frame. -/
def insertFrame (m : RxMsduDesc) (skb : Option Skb) (s : RxState) : Except Fault (ℤ × RxState) :=
  (insertMsdu m skb s.desc).map fun r =>
    (r.1, dropIfFailed r.1 skb { s with desc := noteTail r.1 m r.2 })

/-- `win_start_init = 0` -/
def RxState.leaveInitMode (s : RxState) : RxState :=
  { s with desc := { s.desc with winStartInit := 0 } }

def reorderMsdu (m : RxMsduDesc) (skb : Option Skb) (s : RxState) : Except Fault (ℤ × RxState) :=
  if seqnoGeq m.seqNum s.desc.winStart then
    (if seqnoLeq m.seqNum s.desc.winLimit then .ok s.leaveInitMode
      else greaterThanSeqhi m.seqNum s.leaveInitMode).bind (insertFrame m skb)
  else if !seqnoGeq m.seqNum s.desc.winStartInit then
    (reorderSetSkbList s.lists .reorderMsdu m.seqNum skb.toList).map fun l => (0, { s with lists := l })
  else .ok (-EINVAL, dropIfFailed (-EINVAL) skb s)

/-! ## The entry points of a node -/

/-- A block-ack node and the lists it feeds. -/
structure Session where
  node : RxBaNode
  lists : RxLists
  deriving DecidableEq, Repr

def Session.rx (s : Session) : RxState := ⟨s.lists, s.node.rxBa⟩

/-- Write back what the release functions changed. -/
def Session.withRx (s : Session) (r : RxState) : Session :=
  ⟨{ s.node with rxBa := r.desc }, r.lists⟩

def Session.mapNode (s : Session) (f : RxBaNode → RxBaNode) : Session := { s with node := f s.node }

/-- The next MSDU in sequence, with nothing buffered. -/
def inSequence (m : RxMsduDesc) (d : RxBaNodeDesc) : Bool :=
  (m.seqNum : ℕ) = d.winStart && d.buffCnt = 0 && m.lastMsduOfMpdu

/-- The end of `reorder_msdu_process` after `reorder_msdu` returned `ret`. -/
def afterReorderMsdu (m : RxMsduDesc) (oldWinStart : ℕ) (ret : ℤ) (s : Session) :
    Except Fault Session :=
  if ret = 0 then
    if m.lastMsduOfMpdu && (m.seqNum : ℕ) = s.node.rxBa.winStart then
      (betweenSeqloSeqhi s.rx).map fun r => (s.withRx r).mapNode modReorderTimer
    else if !s.node.timerPending || oldWinStart ≠ s.node.rxBa.winStart then
      .ok (s.mapNode modReorderTimer)
    else .ok s
  else if s.node.rxBa.buffCnt = 0 then
    .ok (s.mapNode fun n => { n with timerPending := false, timeoutCnt := 0 })
  else .ok s

def reorderMsduProcess (m : RxMsduDesc) (skb : Option Skb) (s : Session) : Except Fault Session :=
  if s.node.active then
    if inSequence m s.node.rxBa then
      (sendOrderMsdu m skb s.rx.leaveInitMode).map s.withRx
    else
      (reorderMsdu m skb s.rx).bind fun r =>
        afterReorderMsdu m s.node.rxBa.winStart r.1 (s.withRx r.2)
  else
    (reorderSetSkbList s.lists .reorderMsduProcess m.seqNum skb.toList).map
      fun l => { s with lists := l }

/-- The loop of `get_first_seqno_in_buff`, cut off after `n` turns. -/
def firstSeqnoLoop (d : RxBaNodeDesc) : ℕ → ℕ → Except Fault ℕ
  | 0, seqno => .ok seqno
  | n + 1, seqno =>
    if seqnoLeq seqno d.winTail then
      (d.pkt (seqno &&& d.indexMask)).bind fun pkt =>
        if pkt.desc.last then .ok seqno else firstSeqnoLoop d n (seqnoAdd seqno 1)
    else .ok seqno

def getFirstSeqnoInBuff (d : RxBaNodeDesc) : Except Fault ℕ := firstSeqnoLoop d 4097 d.winStart

/-- Started `m - 2` numbers or less before `win_tail`, the loop ends within `m` turns. -/
theorem firstSeqnoLoop_stable {d : RxBaNodeDesc} (htail : d.winTail < 4096) (n : ℕ) {m seqno : ℕ}
    (hs : seqno < 4096) (h : seqnoSub d.winTail seqno + 2 ≤ m) :
    firstSeqnoLoop d (n + m) seqno = firstSeqnoLoop d m seqno := by
  induction m generalizing seqno with
  | zero => omega
  | succ m ih =>
    rw [← Nat.add_assoc, firstSeqnoLoop, firstSeqnoLoop]
    split
    · congr 1
      funext pkt
      congr 1
      by_cases hzero : seqnoSub d.winTail seqno = 0
      · -- the next number is behind the tail
        obtain ⟨m, rfl⟩ : ∃ m', m = m' + 1 := ⟨m - 1, by omega⟩
        have hbehind : ¬ seqnoLeq (seqnoAdd seqno 1) d.winTail = true := by
          simp only [seqnoLeq, decide_eq_true_eq]
          simp only [seqnoSub, seqnoAdd] at hzero ⊢
          omega
        rw [← Nat.add_assoc, firstSeqnoLoop, firstSeqnoLoop, if_neg hbehind, if_neg hbehind]
      · apply ih (seqnoAdd_lt seqno 1)
        simp only [seqnoSub, seqnoAdd] at h hzero ⊢
        omega
    · rfl

/-- From any number on, 2051 turns are enough. -/
theorem firstSeqnoLoop_enough {d : RxBaNodeDesc} (htail : d.winTail < 4096) (n seqno : ℕ) {m : ℕ}
    (hm : 2050 ≤ m) : firstSeqnoLoop d (n + (m + 1)) seqno = firstSeqnoLoop d (m + 1) seqno := by
  rw [← Nat.add_assoc, firstSeqnoLoop, firstSeqnoLoop]
  split
  · congr 1
    funext pkt
    congr 1
    by_cases hleq : seqnoLeq (seqnoAdd seqno 1) d.winTail = true
    · have hlt := seqnoAdd_lt seqno 1
      apply firstSeqnoLoop_stable htail n hlt
      simp only [seqnoLeq, decide_eq_true_eq] at hleq
      simp only [seqnoSub]
      omega
    · obtain ⟨m, rfl⟩ : ∃ m', m = m' + 1 := ⟨m - 1, by omega⟩
      rw [← Nat.add_assoc, firstSeqnoLoop, firstSeqnoLoop, if_neg hleq, if_neg hleq]
  · rfl

/-- `get_first_seqno_in_buff` returns before its loop is cut off. -/
theorem getFirstSeqnoInBuff_enough {d : RxBaNodeDesc} (htail : d.winTail < 4096) (n : ℕ) :
    firstSeqnoLoop d (n + 4097) d.winStart = getFirstSeqnoInBuff d :=
  firstSeqnoLoop_enough htail n d.winStart (m := 4096) (by omega)

/-- Count a timeout; past `MAX_TIMEOUT_CNT` the session is given up (`send_delba`). -/
def countTimeout (n : RxBaNode) : RxBaNode :=
  let timeoutCnt := (n.timeoutCnt + 1) % 256
  if timeoutCnt > 60 then { n with active := false, timeoutCnt := 0 }
  else { n with timeoutCnt := timeoutCnt }

@[simp] theorem countTimeout_rxBa (n : RxBaNode) : (countTimeout n).rxBa = n.rxBa := by
  unfold countTimeout
  dsimp only
  split <;> rfl

def baReorderTimeout (s : Session) : Except Fault Session :=
  if s.node.active && s.node.rxBa.buffCnt ≠ 0 && !s.node.timerPending then
    (getFirstSeqnoInBuff s.node.rxBa).bind fun posSeqno =>
      (moveWindow posSeqno s.rx.leaveInitMode).map fun r =>
        (s.withRx r).mapNode fun n => modReorderTimer (countTimeout n)
  else .ok s

/-! ## Runs of one session -/

/-- The descriptor `wlan_filter_event` builds; the sequence number goes into a
twelve-bit field. -/
def filterDesc (seqNum : U16) : RxMsduDesc where
  seqNum := Fin.ofNat 4096 seqNum
  lastMsduOfMpdu := true
  pnL := 0
  pnH := 0
  cipherType := 0
  tid := 0
  staLutIndex := 0
  qosFlag := false
  bcMcFlag := false

inductive Event where
  /-- `reorder_msdu_process` on a received MSDU -/
  | msdu (m : RxMsduDesc) (skb : Skb)
  /-- `wlan_filter_event` -/
  | filter (seqNum : U16)
  /-- the reorder timer expires, before its handler gets the node lock -/
  | expire
  /-- `ba_reorder_timeout` -/
  | timeout
  /-- the assignment of `reset_pn` -/
  | resetPn
  /-- `sprdwl_active_ba_node` -/
  | activate
  deriving DecidableEq, Repr

def step (s : Session) : Event → Except Fault Session
  | .msdu m skb => reorderMsduProcess m (some skb) s
  | .filter seqNum => reorderMsduProcess (filterDesc seqNum) none s
  | .expire => .ok (s.mapNode fun n => { n with timerPending := false })
  | .timeout => baReorderTimeout s
  | .resetPn => .ok (s.mapNode fun n => { n with rxBa := { n.rxBa with resetPn := true } })
  | .activate => .ok (s.mapNode fun n => { n with active := true })

/-- The node `create_ba_node` allocates and `init_ba_node` fills in. -/
def newBaNode (staLutIndex tid size : ℕ) : RxBaNode where
  staLutIndex := staLutIndex
  tid := tid
  active := false
  timeoutCnt := 0
  timerPending := false
  rxBa := {
    winStartInit := 0
    winStart := 0
    winLimit := 0
    winTail := 0
    winSize := 0
    buffCnt := 0
    pnH := 0
    pnL := 0
    resetPn := false
    indexMask := 0
    reorderBuffer := List.replicate size RxBaPkt.zero }

/-- A new session: `create_ba_node` with `indexSize` slots, then `set_ba_node_desc`. -/
def freshSession (staLutIndex tid winStart winSize indexSize : ℕ) : Session where
  node :=
    let n := newBaNode staLutIndex tid indexSize
    { n with rxBa := setBaNodeDesc n.rxBa winStart winSize (indexSize - 1) }
  lists := RxLists.empty

end Uwe5631.Reorder
