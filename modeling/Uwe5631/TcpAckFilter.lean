import Uwe5631.InterleavedCalls
import Uwe5631.TcpAckFrames

/-!
# The filter of TCP acknowledgements

The functions of `tcp_ack.c` as calls that take one atomic action at a time. An action is
one critical section of an entry's `seqlock` or of `ack_m->lock`, or one access to the
shared state outside both; what a call only does with its own variables is part of the
action before. Messages passed on for transmission and messages dropped are appended to
lists.
-/
namespace Uwe5631.TcpAck
open FallibleRuns InterleavedCalls

/-- An `unsigned long` count of ticks. -/
abbrev Jiffies := BitVec 64

/-- `time_after` -/
def timeAfter (a b : Jiffies) : Bool := (b - a).msb

abbrev SPRDWL_TCP_ACK_NUM : ℕ := 32
def SPRDWL_TCP_ACK_DROP_CNT : BitVec 32 := 24
def MAX_TCP_ACK : ℕ := 200
def MIN_WIN : ℕ := 256
def SIZE_KB : ℕ := 1024

abbrev Index := Fin SPRDWL_TCP_ACK_NUM

/-- `i++` in a loop over all entries; `none` ends the loop. -/
def Index.next (i : Index) : Option Index :=
  if h : i.val + 1 < SPRDWL_TCP_ACK_NUM then some ⟨i.val + 1, h⟩ else none

/-- `i--` in a loop over all entries. -/
def Index.prev (i : Index) : Option Index :=
  if i.val = 0 then none else some ⟨i.val - 1, by have := i.isLt; omega⟩

/-- A `sprdwl_msg_buf`: its address, its `len`, and the frame in its socket buffer with the
length that `sprdwl_send_data` passes as `plen`. -/
structure MsgBuf where
  addr : ℕ
  len : ℕ
  frame : List Byte
  plen : ℕ
  deriving DecidableEq, Repr

/-- `struct sprdwl_tcp_ack_info`. The timer is pending from `mod_timer` until it expires or
is deleted, and running from then until its handler has run. -/
structure AckInfo where
  busy : Bool
  dropCnt : BitVec 32
  pshFlag : Bool
  pshSeq : BitVec 32
  winScale : ℕ
  lastTime : Jiffies
  timeout : Jiffies
  timerPending : Bool
  timerRunning : Bool
  msgbuf : Option MsgBuf
  inSendMsg : Option MsgBuf
  ackMsg : AckMsg
  deriving DecidableEq, Repr

/-- `struct sprdwl_tcp_ack_manage`; `freeIndex` is `none` for -1. -/
structure AckManage where
  enable : Bool
  maxNum : ℤ
  freeIndex : Option Index
  lastTime : Jiffies
  timeout : Jiffies
  maxDropCnt : BitVec 32
  ackWinsize : ℕ
  ackInfo : Index → AckInfo

/-- What all calls share. -/
structure Filter extends AckManage where
  jiffies : Jiffies
  lockHeld : Bool
  sent : List MsgBuf
  freed : List MsgBuf

def Filter.onEntry (s : Filter) (i : Index) (f : AckInfo → AckInfo) : Filter :=
  { s with ackInfo := Function.update s.ackInfo i (f (s.ackInfo i)) }

/-- `sprdwl_intf_tx`, by the filter or by the caller that gets 0 from it. -/
def Filter.intfTx (s : Filter) (msgs : List MsgBuf) : Filter := { s with sent := s.sent ++ msgs }

/-- `sprdwl_intf_tcp_drop_msg` -/
def Filter.dropMsg (s : Filter) (msgs : List MsgBuf) : Filter := { s with freed := s.freed ++ msgs }

section Fields
variable (s : Filter) (i : Index) (f : AckInfo → AckInfo) (msgs : List MsgBuf)

@[simp] theorem onEntry_self : (s.onEntry i f).ackInfo i = f (s.ackInfo i) :=
  Function.update_self ..

theorem onEntry_ne {i j : Index} (h : j ≠ i) : (s.onEntry i f).ackInfo j = s.ackInfo j :=
  Function.update_of_ne h ..

@[simp] theorem onEntry_freeIndex : (s.onEntry i f).freeIndex = s.freeIndex := rfl
@[simp] theorem onEntry_sent : (s.onEntry i f).sent = s.sent := rfl
@[simp] theorem onEntry_freed : (s.onEntry i f).freed = s.freed := rfl
@[simp] theorem intfTx_ackInfo : (s.intfTx msgs).ackInfo = s.ackInfo := rfl
@[simp] theorem intfTx_freeIndex : (s.intfTx msgs).freeIndex = s.freeIndex := rfl
@[simp] theorem intfTx_sent : (s.intfTx msgs).sent = s.sent ++ msgs := rfl
@[simp] theorem intfTx_freed : (s.intfTx msgs).freed = s.freed := rfl
@[simp] theorem dropMsg_ackInfo : (s.dropMsg msgs).ackInfo = s.ackInfo := rfl
@[simp] theorem dropMsg_sent : (s.dropMsg msgs).sent = s.sent := rfl
@[simp] theorem dropMsg_freed : (s.dropMsg msgs).freed = s.freed ++ msgs := rfl

end Fields

/-- `sprdwl_tcp_ack_init` at the time `now`, with `SPRDWL_ACK_OLD_TIME` in ticks. -/
def sprdwlTcpAckInit (now oldTime : Jiffies) : Filter where
  enable := true
  maxNum := 0
  freeIndex := some 0
  lastTime := now
  timeout := oldTime
  maxDropCnt := SPRDWL_TCP_ACK_DROP_CNT
  ackWinsize := MIN_WIN
  ackInfo := fun _ => ⟨false, 0, false, 0, 0, now, oldTime, false, false, none, none,
    ⟨0, 0, 0, 0, 0, 0⟩⟩
  jiffies := now
  lockHeld := false
  sent := []
  freed := []

/-! ## Critical sections of an entry -/

/-- The read section of `sprdwl_tcp_ack_match`. -/
def AckInfo.matched (e : AckInfo) (ackMsg : AckMsg) : Bool :=
  e.busy && e.ackMsg.sameFlow ackMsg

/-- The entry is recycled by `sprdwl_tcp_ack_update`. -/
def AckInfo.aged (e : AckInfo) (jiffies : Jiffies) : Bool :=
  e.busy && timeAfter jiffies (e.lastTime + e.timeout)

/-- A pushed segment is acknowledged, and with it all that was to be acknowledged at once. -/
def AckInfo.pushed (e : AckInfo) (seq : BitVec 32) : Bool :=
  e.pshFlag && !u32Before seq e.pshSeq

/-- `drop_cnt` after one more acknowledgement that is not sent at once. -/
def AckInfo.counted (e : AckInfo) (seq : BitVec 32) : BitVec 32 :=
  if e.pushed seq then e.dropCnt else e.dropCnt + 1

/-- The entry after an acknowledgement at or after its last one, which replaces what it
held. -/
def AckInfo.acknowledge (e : AckInfo) (jiffies : Jiffies) (seq : BitVec 32) : AckInfo :=
  { e with
    lastTime := jiffies
    pshFlag := e.pshFlag && !e.pushed seq
    msgbuf := none
    ackMsg := { e.ackMsg with seq := seq } }

/-- What `sprdwl_tcp_ack_handle` leaves: the entry, `drop_msg`, and 1 if the caller is not to
transmit the new message. -/
structure Handled where
  entry : AckInfo
  dropMsg : Option MsgBuf
  ret : Bool

/-- The new message is before the last acknowledgement and is dropped. -/
def AckInfo.refuse (e : AckInfo) (jiffies : Jiffies) (new : MsgBuf) : Handled where
  entry := { e with lastTime := jiffies }
  dropMsg := some new
  ret := true

/-- The acknowledgement may not be held: `type` is 2. -/
def AckInfo.sendAtOnce (e : AckInfo) (maxDropCnt : BitVec 32) (jiffies : Jiffies)
    (seq : BitVec 32) : Handled where
  entry :=
    { e.acknowledge jiffies seq with
      -- `del_timer`, only if a message was held
      timerPending := e.timerPending && e.msgbuf.isNone
      inSendMsg := none
      dropCnt := maxDropCnt }
  dropMsg := e.msgbuf
  ret := false

/-- The acknowledgement may be held. -/
def AckInfo.holdOrSend (e : AckInfo) (maxDropCnt : BitVec 32) (jiffies : Jiffies) (new : MsgBuf)
    (seq : BitVec 32) : Handled :=
  if e.pushed seq ∨ e.inSendMsg = none ∧ maxDropCnt.sle (e.counted seq) then
    { entry :=
        { e.acknowledge jiffies seq with
          dropCnt := 0
          inSendMsg := some new
          timerPending := false }
      dropMsg := e.msgbuf
      ret := false }
  else
    { entry :=
        { e.acknowledge jiffies seq with
          dropCnt := e.counted seq
          msgbuf := some new
          timerPending := true }
      dropMsg := e.msgbuf
      ret := true }

def tcpAckHandle (e : AckInfo) (maxDropCnt : BitVec 32) (jiffies : Jiffies) (new : MsgBuf)
    (ackMsg : AckMsg) (type : ℕ) : Handled :=
  if type = 2 then
    if u32Before e.ackMsg.seq ackMsg.seq then e.sendAtOnce maxDropCnt jiffies ackMsg.seq
    else e.refuse jiffies new
  else if u32Before e.ackMsg.seq ackMsg.seq then e.holdOrSend maxDropCnt jiffies new ackMsg.seq
  else e.refuse jiffies new

/-- What `sprdwl_tcp_ack_handle` does with a new message: drop it, have it transmitted, or
hold it. -/
inductive Handles (e : AckInfo) (new : MsgBuf) (seq : BitVec 32) (r : Handled) : Prop
  | refused (before : u32Before e.ackMsg.seq seq = false) (busy : r.entry.busy = e.busy)
      (ackMsg : r.entry.ackMsg = e.ackMsg) (msgbuf : r.entry.msgbuf = e.msgbuf)
      (pending : r.entry.timerPending = e.timerPending)
      (running : r.entry.timerRunning = e.timerRunning)
      (dropMsg : r.dropMsg = some new) (ret : r.ret = true)
  | passed (before : u32Before e.ackMsg.seq seq = true) (busy : r.entry.busy = e.busy)
      (ackMsg : r.entry.ackMsg = { e.ackMsg with seq := seq }) (msgbuf : r.entry.msgbuf = none)
      (dropMsg : r.dropMsg = e.msgbuf) (ret : r.ret = false)
  | held (before : u32Before e.ackMsg.seq seq = true) (busy : r.entry.busy = e.busy)
      (ackMsg : r.entry.ackMsg = { e.ackMsg with seq := seq }) (msgbuf : r.entry.msgbuf = some new)
      (pending : r.entry.timerPending = true) (dropMsg : r.dropMsg = e.msgbuf) (ret : r.ret = true)

theorem refuse_handles {e : AckInfo} {jiffies : Jiffies} {new : MsgBuf} {seq : BitVec 32}
    (h : ¬ u32Before e.ackMsg.seq seq = true) : Handles e new seq (e.refuse jiffies new) :=
  .refused (Bool.not_eq_true _ ▸ h) rfl rfl rfl rfl rfl rfl rfl

theorem tcpAckHandle_handles (e : AckInfo) (maxDropCnt : BitVec 32) (jiffies : Jiffies)
    (new : MsgBuf) (ackMsg : AckMsg) (type : ℕ) :
    Handles e new ackMsg.seq (tcpAckHandle e maxDropCnt jiffies new ackMsg type) := by
  rw [tcpAckHandle]
  split
  · split
    · rename_i hbefore
      exact .passed hbefore rfl rfl rfl rfl rfl
    · rename_i hbefore
      exact refuse_handles hbefore
  · split
    · rename_i hbefore
      rw [AckInfo.holdOrSend]
      split
      · exact .passed hbefore rfl rfl rfl rfl rfl
      · exact .held hbefore rfl rfl rfl rfl rfl rfl
    · rename_i hbefore
      exact refuse_handles hbefore

/-- The write section at the end of `sprdwl_filter_send_tcp_ack`. -/
def AckInfo.start (e : AckInfo) (maxDropCnt : BitVec 32) (jiffies : Jiffies) (winScale : ℕ)
    (ackMsg : AckMsg) : AckInfo :=
  { e with
    busy := true
    pshFlag := false
    lastTime := jiffies
    dropCnt := maxDropCnt
    winScale := if winScale ≠ 0 then winScale else 1
    ackMsg := { ackMsg with win := e.ackMsg.win } }

/-- The write section of `sprdwl_tcp_ack_update`, at an entry that has aged. -/
def AckInfo.recycle (e : AckInfo) : AckInfo := { e with busy := false }

/-- The first write section of `sprdwl_filter_send_tcp_ack`. -/
def AckInfo.rescale (e : AckInfo) (winScale : ℕ) : AckInfo := { e with winScale := winScale }

/-- The write section of `sprdwl_filter_rx_tcp_ack`. -/
def AckInfo.push (e : AckInfo) (seq : BitVec 32) : AckInfo :=
  { e with pshFlag := true, pshSeq := seq }

/-- The write section of `sprdwl_move_tcpack_msg`. -/
def AckInfo.moved (e : AckInfo) (msg : MsgBuf) : AckInfo :=
  if e.busy ∧ e.inSendMsg.map MsgBuf.addr = some msg.addr then { e with inSendMsg := none } else e

/-- `sprdwl_tcp_ack_timeout`: the entry and the message to transmit. -/
def sprdwlTcpAckTimeout (e : AckInfo) : AckInfo × Option MsgBuf :=
  if e.busy ∧ e.inSendMsg = none then
    match e.msgbuf with
    | some msg =>
      ({ e with msgbuf := none, dropCnt := 0, inSendMsg := some msg, timerRunning := false },
        some msg)
    | none => ({ e with timerRunning := false }, none)
  else ({ e with timerRunning := false }, none)

/-- What the timer handler does: transmit the message the entry holds, or nothing. -/
inductive TimesOut (e : AckInfo) (r : AckInfo × Option MsgBuf) : Prop
  | sent (msg : MsgBuf) (busy : e.busy = true) (inSendMsg : e.inSendMsg = none)
      (msgbuf : e.msgbuf = some msg)
      (entry : r.1 =
        { e with msgbuf := none, dropCnt := 0, inSendMsg := some msg, timerRunning := false })
      (out : r.2 = some msg)
  | idle (why : e.msgbuf = none ∨ e.busy = false ∨ e.inSendMsg ≠ none)
      (entry : r.1 = { e with timerRunning := false }) (out : r.2 = none)

theorem sprdwlTcpAckTimeout_timesOut (e : AckInfo) : TimesOut e (sprdwlTcpAckTimeout e) := by
  rw [sprdwlTcpAckTimeout]
  split
  · rename_i hcond
    split
    · rename_i msg hmsg
      exact .sent msg hcond.1 hcond.2 hmsg rfl rfl
    · rename_i hmsg
      exact .idle (Or.inl hmsg) rfl rfl
  · rename_i hcond
    refine .idle (Or.inr ?_) rfl rfl
    cases hbusy : e.busy with
    | false => exact Or.inl rfl
    | true => exact Or.inr fun hnone => hcond ⟨hbusy, hnone⟩

/-! ## Sections under `ack_m->lock` -/

/-- One turn of the loop of `sprdwl_tcp_ack_update`. -/
def Filter.ageEntry (s : Filter) (i : Index) : Filter :=
  if (s.ackInfo i).aged s.jiffies then
    { s.onEntry i AckInfo.recycle with
      freeIndex := some i
      maxNum := s.maxNum - 1 }
  else s

/-- `sprdwl_tcp_ack_alloc_index`. Entries only become busy while the lock is held, so the scan
finds what is free at the moment it ends. -/
def sprdwlTcpAckAllocIndex (s : Filter) : Option Index × Filter :=
  if s.maxNum = SPRDWL_TCP_ACK_NUM then (none, s)
  else
    match s.freeIndex with
    | some i => (some i, { s with freeIndex := none, maxNum := s.maxNum + 1 })
    | none =>
      match (List.finRange SPRDWL_TCP_ACK_NUM).find? (fun i => !(s.ackInfo i).busy) with
      | some i => (some i, { s with maxNum := s.maxNum + 1 })
      | none => (none, s)

/-! ## Calls -/

/-- Where a call of `sprdwl_filter_send_tcp_ack` is. -/
inductive SendPc where
  /-- before the test of `plen` and the time test of `sprdwl_tcp_ack_update` -/
  | enter
  /-- before `spin_lock_bh(&ack_m->lock)` in `sprdwl_tcp_ack_update` -/
  | lockUpdate
  /-- in its loop, with the lock held -/
  | age (i : Index)
  /-- before `sprdwl_tcp_check_ack` -/
  | check
  /-- in the loop of `sprdwl_tcp_ack_match` -/
  | search (c : CheckedAck) (i : Index)
  /-- before `win_scale` of the entry found is compared, written, and used -/
  | scale (c : CheckedAck) (i : Index)
  | setScale (c : CheckedAck) (i : Index)
  | weigh (c : CheckedAck) (i : Index)
  /-- before `sprdwl_tcp_ack_handle` -/
  | handle (c : CheckedAck) (i : Index) (type : ℕ)
  /-- before `sprdwl_tcp_ack_alloc_index` -/
  | alloc (c : CheckedAck)
  /-- before the section that initialises the entry allocated -/
  | start (c : CheckedAck) (i : Index)
  deriving DecidableEq, Repr

/-- Where a call of `sprdwl_filter_rx_tcp_ack` is. -/
inductive RxPc where
  | enter (buf : List Byte) (plen : ℕ)
  | search (ackMsg : AckMsg) (i : Index)
  | push (ackMsg : AckMsg) (i : Index)
  deriving DecidableEq, Repr

/-- Where a call of `sprdwl_move_tcpack_msg` is. -/
inductive MovePc where
  | enter
  | sweep (i : Index)
  deriving DecidableEq, Repr

inductive Call where
  | send (msgbuf : MsgBuf) (pc : SendPc)
  | rx (pc : RxPc)
  | move (msg : MsgBuf) (pc : MovePc)
  deriving DecidableEq, Repr

/-- `win_scale * win < ack_winsize * SIZE_KB`, in `unsigned int`: then the type is 2. -/
def weighedType (s : Filter) (c : CheckedAck) (i : Index) : ℕ :=
  if (s.ackInfo i).winScale * c.msg.win.toNat < s.ackWinsize * SIZE_KB % 2 ^ 32 then 2 else c.drop

def sprdwlFilterSendTcpAck (s : Filter) (msgbuf : MsgBuf) :
    SendPc → Except Fault (Filter × Option SendPc)
  | .enter =>
    if MAX_TCP_ACK < msgbuf.plen then .ok (s.intfTx [msgbuf], none)
    else if timeAfter s.jiffies (s.lastTime + s.timeout) then .ok (s, some .lockUpdate)
    else .ok (s, some .check)
  | .lockUpdate =>
    if s.lockHeld then .ok (s, some .lockUpdate)
    else .ok ({ s with lockHeld := true, lastTime := s.jiffies }, some (.age (Fin.last 31)))
  | .age i =>
    match i.prev with
    | some j => .ok (s.ageEntry i, some (.age j))
    | none => .ok ({ s.ageEntry i with lockHeld := false }, some .check)
  | .check =>
    (sprdwlTcpCheckAck msgbuf.frame).map fun c =>
      if c.drop = 0 ∧ c.winScale = 0 then (s.intfTx [msgbuf], none) else (s, some (.search c 0))
  | .search c i =>
    if (s.ackInfo i).matched c.msg then .ok (s, some (.scale c i))
    else
      match i.next with
      | some j => .ok (s, some (.search c j))
      | none => .ok (s, some (.alloc c))
  | .scale c i =>
    if c.winScale ≠ 0 ∧ (s.ackInfo i).winScale ≠ c.winScale then .ok (s, some (.setScale c i))
    else .ok (s, some (.weigh c i))
  | .setScale c i =>
    .ok (s.onEntry i fun e => e.rescale c.winScale, some (.weigh c i))
  | .weigh c i =>
    if 0 < c.drop ∧ s.enable then .ok (s, some (.handle c i (weighedType s c i)))
    else .ok (s.intfTx [msgbuf], none)
  | .handle c i type =>
    let r := tcpAckHandle (s.ackInfo i) s.maxDropCnt s.jiffies msgbuf c.msg type
    let s := (s.onEntry i fun _ => r.entry).dropMsg r.dropMsg.toList
    .ok (if r.ret then s else s.intfTx [msgbuf], none)
  | .alloc c =>
    if s.lockHeld then .ok (s, some (.alloc c))
    else
      match sprdwlTcpAckAllocIndex s with
      | (some i, s) => .ok (s, some (.start c i))
      | (none, s) => .ok (s.intfTx [msgbuf], none)
  | .start c i =>
    .ok ((s.onEntry i fun e => e.start s.maxDropCnt s.jiffies c.winScale c.msg).intfTx [msgbuf],
      none)

def sprdwlFilterRxTcpAck (s : Filter) : RxPc → Except Fault (Filter × Option RxPc)
  | .enter buf plen =>
    if !s.enable ∨ MAX_TCP_ACK < plen then .ok (s, none)
    else (sprdwlTcpCheckQuickAck buf).map fun ackMsg => (s, ackMsg.map fun a => .search a 0)
  | .search ackMsg i =>
    if (s.ackInfo i).matched ackMsg then .ok (s, some (.push ackMsg i))
    else .ok (s, i.next.map fun j => .search ackMsg j)
  | .push ackMsg i => .ok (s.onEntry i fun e => e.push ackMsg.seq, none)

def sprdwlMoveTcpackMsg (s : Filter) (msg : MsgBuf) : MovePc → Filter × Option MovePc
  | .enter =>
    if !s.enable ∨ MAX_TCP_ACK < msg.len then (s, none) else (s, some (.sweep 0))
  | .sweep i => (s.onEntry i fun e => e.moved msg, i.next.map .sweep)

/-- One atomic action of a call. -/
def act (s : Filter) : Call → Except Fault (Filter × Option Call)
  | .send msgbuf pc => (sprdwlFilterSendTcpAck s msgbuf pc).map fun r => (r.1, r.2.map (.send msgbuf))
  | .rx pc => (sprdwlFilterRxTcpAck s pc).map fun r => (r.1, r.2.map .rx)
  | .move msg pc =>
    let r := sprdwlMoveTcpackMsg s msg pc
    .ok (r.1, r.2.map (.move msg))

/-! ## Runs -/

inductive Event where
  /-- a call begins -/
  | send (msgbuf : MsgBuf)
  | receive (buf : List Byte) (plen : ℕ)
  | move (msg : MsgBuf)
  /-- a call takes its next action -/
  | advance (k : ℕ)
  | tick (n : Jiffies)
  /-- the hold timer of an entry expires, or its handler runs -/
  | expire (i : Index)
  | timeout (i : Index)
  deriving DecidableEq, Repr

abbrev State := System Filter Call

def State.init (now oldTime : Jiffies) : State := ⟨sprdwlTcpAckInit now oldTime, []⟩

/-- The timer expires: its handler is about to run. -/
def AckInfo.expire (e : AckInfo) : AckInfo :=
  if e.timerPending ∧ ¬ e.timerRunning then { e with timerPending := false, timerRunning := true }
  else e

/-- The handler of the timer, if it is about to run. -/
def Filter.runTimer (s : Filter) (i : Index) : Filter :=
  if (s.ackInfo i).timerRunning then
    (s.onEntry i fun e => (sprdwlTcpAckTimeout e).1).intfTx
      (sprdwlTcpAckTimeout (s.ackInfo i)).2.toList
  else s

def step (s : State) : Event → Except Fault State
  | .send msgbuf => .ok ⟨s.shared, s.calls ++ [.send msgbuf .enter]⟩
  | .receive buf plen => .ok ⟨s.shared, s.calls ++ [.rx (.enter buf plen)]⟩
  | .move msg => .ok ⟨s.shared, s.calls ++ [.move msg .enter]⟩
  | .advance k => advance act k s
  | .tick n => .ok ⟨{ s.shared with jiffies := s.shared.jiffies + n }, s.calls⟩
  | .expire i => .ok ⟨s.shared.onEntry i AckInfo.expire, s.calls⟩
  | .timeout i => .ok ⟨s.shared.runTimer i, s.calls⟩

end Uwe5631.TcpAck
