import Uwe5631.ReorderBuffer
import Uwe5631.BucketTable

/-!
# The table of block-ack nodes

The functions of `reorder.c` that look nodes up, create and delete them, and the events
that reach a node through the table. `hlist_del` takes a node out of the list it is in.
`kzalloc` is an input of the ADDBA event: the address it returns, or `none`.
-/
namespace Uwe5631.Reorder
open FallibleRuns BucketTable

/-- The address of an `rx_ba_node`. -/
abbrev NodeAddr := ℕ

def NUM_TIDS : ℕ := 8

def ENOMEM : ℤ := 12

structure BaEntry where
  table : Table NUM_TIDS NodeAddr RxBaNode
  currentBaNode : Option NodeAddr
  lists : RxLists

/-- `sprdwl_reorder_init` -/
def BaEntry.init : BaEntry := ⟨Table.empty, none, RxLists.empty⟩

/-- A dereference of a node. -/
def BaEntry.node (e : BaEntry) (a : NodeAddr) : Except Fault RxBaNode :=
  match e.table.heap a with
  | some n => .ok n
  | none => .error (.freedNode a)

/-- `&ba_entry->hlist[tid]` -/
def BaEntry.hlist (e : BaEntry) (tid : ℕ) : Except Fault (List NodeAddr) :=
  if h : tid < NUM_TIDS then .ok (e.table.bucket ⟨tid, h⟩) else .error (.bucketIndex tid)

def isSameBa (e : BaEntry) (staLutIndex tid : ℕ) : Option NodeAddr → Except Fault Bool
  | none => .ok false
  | some a => (e.node a).map fun n => n.staLutIndex = staLutIndex && n.tid = tid

/-- `hlist_for_each_entry` with the `break` of `find_ba_node`. -/
def findInBucket (e : BaEntry) (staLutIndex : ℕ) : List NodeAddr → Except Fault (Option NodeAddr)
  | [] => .ok none
  | a :: as => (e.node a).bind fun n =>
    if staLutIndex = n.staLutIndex then .ok (some a) else findInBucket e staLutIndex as

/-- The node found and the entry, whose `current_ba_node` may have been set. -/
def findBaNode (staLutIndex tid : ℕ) (e : BaEntry) : Except Fault (Option NodeAddr × BaEntry) :=
  if tid < NUM_TIDS then
    (isSameBa e staLutIndex tid e.currentBaNode).bind fun same =>
      if same then .ok (e.currentBaNode, e)
      else (e.hlist tid).bind fun head => (findInBucket e staLutIndex head).map fun
        | some a => (some a, { e with currentBaNode := some a })
        | none => (none, e)
  else .ok (none, e)

/-- `alloc` is none if one of the two allocations fails. -/
def createBaNode (staLutIndex tid size : ℕ) (alloc : Option NodeAddr) (e : BaEntry) :
    Except Fault (Option NodeAddr × BaEntry) :=
  match alloc with
  | none => .ok (none, e)
  | some a =>
    if h : tid < NUM_TIDS then
      .ok (some a, { e with
        table := e.table.insert ⟨tid, h⟩ a (newBaNode staLutIndex tid size)
        currentBaNode := some a })
    else .error (.bucketIndex tid)

/-- Run a function of a node on the node at an address. -/
def BaEntry.onNode (e : BaEntry) (a : NodeAddr) (f : Session → Except Fault Session) :
    Except Fault BaEntry :=
  (e.node a).bind fun n => (f ⟨n, e.lists⟩).map fun s =>
    { e with table := e.table.write a s.node, lists := s.lists }

/-! ## The events of `wlan_ba_session_event` -/

/-- What `wlan_addba_event` writes with `CP2_RESET_SUPPORT`. -/
def startSession (winStart winSize indexSize : ℕ) (n : RxBaNode) : RxBaNode :=
  { n with
    active := false
    rxBa := setBaNodeDesc n.rxBa winStart winSize (indexSize - 1) }

/-- The node an ADDBA event is about, created if it does not exist. -/
def findOrCreate (staLutIndex tid size : ℕ) (alloc : Option NodeAddr) (e : BaEntry) :
    Except Fault (Option NodeAddr × BaEntry) :=
  (findBaNode staLutIndex tid e).bind fun
    | (some a, e) => .ok (some a, e)
    | (none, e) => createBaNode staLutIndex tid size alloc e

def wlanAddbaEvent (staLutIndex tid winStart winSize : ℕ) (alloc : Option NodeAddr)
    (e : BaEntry) : Except Fault (ℤ × BaEntry) :=
  let indexSize := getIndexSize (2 * winSize)
  (findOrCreate staLutIndex tid indexSize alloc e).bind fun
    | (none, e) => .ok (-ENOMEM, e)
    | (some a, e) =>
      (e.onNode a fun s => .ok (s.mapNode (startSession winStart winSize indexSize))).map
        fun e => (0, e)

/-- `active = 0; timeout_cnt = 0` -/
def RxBaNode.deactivate (n : RxBaNode) : RxBaNode := { n with active := false, timeoutCnt := 0 }

/-- The critical section of `wlan_delba_event`. -/
def releaseAndFlush (s : Session) : Except Fault Session :=
  if s.node.active then
    (betweenSeqloSeqhi (s.mapNode RxBaNode.deactivate).rx).bind fun r =>
      (flushReorderBuffer r).map (s.mapNode RxBaNode.deactivate).withRx
  else .ok s

/-- The critical section of `peer_entry_delba`. -/
def flushOnly (s : Session) : Except Fault Session :=
  if s.node.active then
    (flushReorderBuffer (s.mapNode RxBaNode.deactivate).rx).map
      (s.mapNode RxBaNode.deactivate).withRx
  else .ok s

/-- `del_timer_sync`, the critical section, `hlist_del`, `kfree` and
`current_ba_node = NULL`. -/
def BaEntry.deleteNode (e : BaEntry) (a : NodeAddr) (f : Session → Except Fault Session) :
    Except Fault BaEntry :=
  (e.node a).bind fun n => (f ⟨{ n with timerPending := false }, e.lists⟩).map fun s =>
    { table := e.table.remove a, currentBaNode := none, lists := s.lists }

def wlanDelbaEvent (staLutIndex tid : ℕ) (e : BaEntry) : Except Fault BaEntry :=
  (findBaNode staLutIndex tid e).bind fun
    | (some a, e) => e.deleteNode a releaseAndFlush
    | (none, e) => .ok e

/-- One turn of the loop of `peer_entry_delba`. -/
def peerDelbaTid (lutIndex : ℕ) (e : BaEntry) (tid : ℕ) : Except Fault BaEntry :=
  (findBaNode lutIndex tid e).bind fun
    | (some a, e) => e.deleteNode a flushOnly
    | (none, e) => .ok e

def peerEntryDelba (lutIndex : ℕ) (e : BaEntry) : Except Fault BaEntry :=
  run (peerDelbaTid lutIndex) e (List.range NUM_TIDS)

/-- Look a node up and run a function on it, if there is one. -/
def BaEntry.onFound (e : BaEntry) (staLutIndex tid : ℕ) (f : Session → Except Fault Session) :
    Except Fault BaEntry :=
  (findBaNode staLutIndex tid e).bind fun
    | (some a, e) => e.onNode a f
    | (none, e) => .ok e

/-- The descriptor names the node as well, but only for the log. -/
def wlanFilterEvent (staLutIndex tid : ℕ) (seqNum : U16) (e : BaEntry) : Except Fault BaEntry :=
  e.onFound staLutIndex tid fun s => step s (.filter seqNum)

def reorderDataProcess (m : RxMsduDesc) (skb : Skb) (e : BaEntry) : Except Fault BaEntry :=
  if !m.bcMcFlag && m.qosFlag then
    (findBaNode m.staLutIndex m.tid e).bind fun
      | (some a, e) => e.onNode a fun s => step s (.msdu m skb)
      | (none, e) => (reorderSetSkbList e.lists .reorderDataProcess m.seqNum [skb]).map
          fun l => { e with lists := l }
  else (reorderSetSkbList e.lists .reorderDataProcess m.seqNum [skb]).map
    fun l => { e with lists := l }

/-- `reset_pn`, once the peer's `lut_id` is known. -/
def resetPn (lutId : ℕ) (e : BaEntry) : Except Fault BaEntry :=
  run (fun e tid => e.onFound lutId tid fun s => step s .resetPn) e (List.range NUM_TIDS)

def sprdwlActiveBaNode (staLutIndex tid : ℕ) (e : BaEntry) : Except Fault BaEntry :=
  e.onFound staLutIndex tid fun s => step s .activate

/-! ## Runs of the table -/

inductive BaEvent where
  | addba (staLutIndex tid : U8) (winStart winSize : U16) (alloc : Option NodeAddr)
  | delba (staLutIndex tid : U8)
  | filter (staLutIndex tid : U8) (seqNum : U16)
  | data (m : RxMsduDesc) (skb : Skb)
  | peerDelba (lutIndex : U8)
  | resetPn (lutId : U8)
  | activate (staLutIndex tid : U8)
  /-- the timer of a node expires, or its handler runs -/
  | timer (a : NodeAddr) (handler : Bool)
  deriving DecidableEq, Repr

/-- `kzalloc` returns no address that is in use. -/
def BaEntry.kzalloc (e : BaEntry) (alloc : Option NodeAddr) : Option NodeAddr :=
  alloc.filter fun a => (e.table.heap a).isNone

def entryStep (e : BaEntry) : BaEvent → Except Fault BaEntry
  | .addba sta tid winStart winSize alloc =>
    (wlanAddbaEvent sta tid winStart winSize (e.kzalloc alloc) e).map Prod.snd
  | .delba sta tid => wlanDelbaEvent sta tid e
  | .filter sta tid seqNum => wlanFilterEvent sta tid seqNum e
  | .data m skb => reorderDataProcess m skb e
  | .peerDelba lut => peerEntryDelba lut e
  | .resetPn lut => resetPn lut e
  | .activate sta tid => sprdwlActiveBaNode sta tid e
  | .timer a handler =>
    -- only a live node has a timer
    match e.table.heap a with
    | some _ => e.onNode a fun s => step s (if handler then .timeout else .expire)
    | none => .ok e

end Uwe5631.Reorder
