import Uwe5631.Interfaces
import Uwe5631.SequenceNumbers
import Uwe5631.FallibleRuns
import Uwe5631.RecencyList

/-!
# Reassembly of fragments

The functions of `defrag.c` in the order of the source. Nodes are never freed after
`sprdwl_defrag_init`; the entry links them in a list. `skb_queue_purge` and `dev_kfree_skb`
append to a list of freed buffers, and what `defrag_data_process` returns is put on
`net_rx_list` by its caller.
-/
namespace Uwe5631.Defrag
open FallibleRuns RecencyList

/-- `MAX_DEFRAG_NUM` -/
def MAX_DEFRAG_NUM : ℕ := 3
def ETH_ALEN : ℕ := 6
def ETH_HLEN : ℕ := 14

/-- The bit fields of `struct rx_msdu_desc` that reassembly reads. -/
structure RxMsduDesc where
  staLutIndex : BitVec 5
  tid : BitVec 4
  seqNum : BitVec 12
  fragNum : BitVec 4
  moreFragBit : Bool
  snapHdrPresent : Bool
  msduOffset : BitVec 8
  msduLen : BitVec 16
  deriving DecidableEq, Repr

/-- A socket buffer: its address and the descriptor at the start of its data. -/
structure Skb where
  addr : ℕ
  desc : RxMsduDesc
  deriving DecidableEq, Repr

/-- `struct rx_defrag_desc`. Its fields are only ever set from those of a descriptor. -/
structure RxDefragDesc where
  staLutIndex : BitVec 5
  tid : BitVec 4
  fragNum : BitVec 4
  seqNum : BitVec 12
  deriving DecidableEq, Repr

/-- `struct rx_defrag_node` -/
structure RxDefragNode where
  desc : RxDefragDesc
  skbList : List Skb
  msduLen : BitVec 32
  lastFragNum : BitVec 4
  deriving DecidableEq, Repr

/-- The address of a node. -/
abbrev NodeAddr := ℕ

/-- A `memcpy` from a fragment into the new buffer. -/
structure Copy where
  skb : Skb
  srcOffset : ℕ
  dstOffset : ℕ
  len : ℕ
  deriving DecidableEq, Repr

/-- The buffer made of fragments: its size, `msdu_len` of its descriptor, and what was
copied into it. -/
structure Msdu where
  size : BitVec 32
  msduLen : BitVec 16
  copies : List Copy
  deriving DecidableEq, Repr

/-- What `defrag_data_process` returns, if it returns a buffer. -/
inductive Returned where
  | whole (skb : Skb)
  | msdu (m : Msdu)
  deriving DecidableEq, Repr

inductive Fault where
  /-- `list_entry(list.prev)` of an empty list is no node. -/
  | emptyList
  deriving DecidableEq, Repr

/-- `struct sprdwl_rx_defrag_entry` and its nodes, the buffers freed, and `net_rx_list`. -/
structure RxDefragEntry where
  list : List NodeAddr
  node : NodeAddr → RxDefragNode
  freed : List Skb
  netRxList : List Returned

def RxDefragEntry.onNode (e : RxDefragEntry) (a : NodeAddr) (f : RxDefragNode → RxDefragNode) :
    RxDefragEntry :=
  { e with node := Function.update e.node a (f (e.node a)) }

/-- `dev_kfree_skb` of each buffer. -/
def RxDefragEntry.kfree (e : RxDefragEntry) (skbs : List Skb) : RxDefragEntry :=
  { e with freed := e.freed ++ skbs }

/-- `skb_queue_purge(&node->skb_list)` -/
def RxDefragEntry.purge (e : RxDefragEntry) (a : NodeAddr) : RxDefragEntry :=
  (e.onNode a fun n => { n with skbList := [] }).kfree (e.node a).skbList

/-- The node has the station and the traffic identifier of the fragment. -/
def RxDefragNode.carries (n : RxDefragNode) (d : RxMsduDesc) : Bool :=
  n.desc.staLutIndex == d.staLutIndex && n.desc.tid == d.tid

/-- The fragment is the next one of the node's sequence. -/
def RxDefragNode.continuedBy (n : RxDefragNode) (d : RxMsduDesc) : Bool :=
  n.desc.seqNum == d.seqNum && n.lastFragNum.toNat + 1 == d.fragNum.toNat

def findDefragNode (e : RxDefragEntry) (d : RxMsduDesc) : Option NodeAddr × RxDefragEntry :=
  match e.list.find? fun a => (e.node a).carries d with
  | some a =>
    if (e.node a).continuedBy d then
      (some a, e.onNode a fun n => { n with lastFragNum := d.fragNum })
    else (none, e)
  | none => (none, e)

/-- The length of the header that comes before the payload of a fragment. -/
def RxMsduDesc.headerLen (d : RxMsduDesc) : ℕ :=
  if d.snapHdrPresent then ETH_HLEN else 2 * ETH_ALEN

/-- `__init_first_frag_node` after its purge. -/
def RxDefragNode.initFirstFrag (n : RxDefragNode) (d : RxMsduDesc) : RxDefragNode :=
  { n with
    desc := ⟨d.staLutIndex, d.tid, d.fragNum, d.seqNum⟩
    msduLen := BitVec.ofNat 32 (d.headerLen + d.msduOffset.toNat)
    lastFragNum := d.fragNum }

/-- `__init_first_frag_node`, and the node is moved to the head. -/
def RxDefragEntry.startNode (e : RxDefragEntry) (a : NodeAddr) (d : RxMsduDesc) : RxDefragEntry :=
  let e := (e.purge a).onNode a fun n => n.initFirstFrag d
  if e.list.head? = some a then e else { e with list := moveToHead a e.list }

def initFirstDefragNode (e : RxDefragEntry) (d : RxMsduDesc) :
    Except Fault (Option NodeAddr × RxDefragEntry) :=
  match e.list.find? fun a => (e.node a).carries d with
  | some a =>
    if seqnoLeq d.seqNum.toNat (e.node a).desc.seqNum.toNat then .ok (none, e)
    else .ok (some a, e.startNode a d)
  | none =>
    match e.list.getLast? with
    | some a => .ok (some a, e.startNode a d)
    | none => .error .emptyList

def getDefragNode (e : RxDefragEntry) (d : RxMsduDesc) :
    Except Fault (Option NodeAddr × RxDefragEntry) :=
  if d.fragNum ≠ 0 then .ok (findDefragNode e d) else initFirstDefragNode e d

/-- `frag_len`, an `unsigned short`. -/
def RxMsduDesc.fragLen (d : RxMsduDesc) : BitVec 16 := d.msduLen - BitVec.ofNat 16 d.headerLen

/-- `msdu_total_len`, kept in an `unsigned short`. -/
def RxMsduDesc.totalLen (d : RxMsduDesc) : BitVec 16 := d.msduOffset.setWidth 16 + d.msduLen

/-- The loop that copies the payloads behind the first fragment. -/
def copyRest : BitVec 16 → List Skb → List Copy
  | _, [] => []
  | offset, s :: rest =>
    ⟨s, s.desc.msduOffset.toNat + s.desc.headerLen, offset.toNat, s.desc.fragLen.toNat⟩ ::
      copyRest (offset + s.desc.fragLen) rest

/-- The buffer made of the fragments of a node. -/
def assemble (msduLen : BitVec 32) (first : Skb) (rest : List Skb) : Msdu where
  size := msduLen
  msduLen := (msduLen - first.desc.msduOffset.setWidth 32).setWidth 16
  copies := ⟨first, 0, 0, first.desc.totalLen.toNat⟩ :: copyRest first.desc.totalLen rest

/-- The node's queue, moved to the tail when it is done with. -/
def RxDefragEntry.retire (e : RxDefragEntry) (a : NodeAddr) : RxDefragEntry :=
  if e.list.getLast? = some a then e else { e with list := moveToTail a e.list }

/-- The last fragment is in the queue. `alloc` tells whether `dev_alloc_skb` succeeds. -/
def RxDefragEntry.complete (e : RxDefragEntry) (a : NodeAddr) (alloc : Bool) :
    Option Msdu × RxDefragEntry :=
  match (e.node a).skbList with
  | [] => (none, e)
  | first :: rest =>
    let e' := e.onNode a fun n => { n with skbList := [] }
    if alloc then
      (some (assemble (e.node a).msduLen first rest), (e'.kfree (first :: rest)).retire a)
    else (none, (e'.kfree (rest ++ [first])).retire a)

/-- The fragment is queued in its node. -/
def RxDefragEntry.queueTail (e : RxDefragEntry) (a : NodeAddr) (pskb : Skb) : RxDefragEntry :=
  e.onNode a fun n =>
    { n with
      skbList := n.skbList ++ [pskb]
      msduLen := n.msduLen + pskb.desc.fragLen.setWidth 32 }

def defragSingleDataProcess (e : RxDefragEntry) (pskb : Skb) (alloc : Bool) :
    Except Fault (Option Msdu × RxDefragEntry) :=
  (getDefragNode e pskb.desc).map fun
    | (some a, e) =>
      if pskb.desc.moreFragBit then (none, e.queueTail a pskb)
      else (e.queueTail a pskb).complete a alloc
    | (none, e) => (none, e.kfree [pskb])

def RxMsduDesc.isFragment (d : RxMsduDesc) : Bool := d.fragNum != 0 || d.moreFragBit

def defragDataProcess (e : RxDefragEntry) (pskb : Skb) (alloc : Bool) :
    Except Fault (Option Returned × RxDefragEntry) :=
  if pskb.desc.isFragment then
    (defragSingleDataProcess e pskb alloc).map fun r => (r.1.map .msdu, r.2)
  else .ok (some (.whole pskb), e)

/-- The peer of an interface, as `sprdwl_defrag_recover` looks it up. -/
def recoverLutIndex (mode : Mode) (ctxId : BitVec 8) (peerEntry : List PeerEntry) :
    Option (BitVec 8) :=
  (peerEntry.find? fun p =>
    (mode == SPRDWL_MODE_STATION || mode == SPRDWL_MODE_P2P_CLIENT) && p.ctxId == ctxId).map
      PeerEntry.lutIndex

def sprdwlDefragRecover (e : RxDefragEntry) (mode : Mode) (ctxId : BitVec 8)
    (peerEntry : List PeerEntry) : RxDefragEntry :=
  match recoverLutIndex mode ctxId peerEntry with
  | some lutIndex =>
    e.list.foldl (fun e a =>
      if lutIndex = (e.node a).desc.staLutIndex.setWidth 8 ∧ (e.node a).skbList ≠ [] then e.purge a
      else e) e
  | none => e

/-- A node fresh from `kzalloc`. -/
def RxDefragNode.zero : RxDefragNode := ⟨⟨0, 0, 0, 0⟩, [], 0, 0⟩

/-- `sprdwl_defrag_init`, all allocations successful; each node is put before the others. -/
def sprdwlDefragInit : RxDefragEntry where
  list := (List.range MAX_DEFRAG_NUM).reverse
  node := fun _ => .zero
  freed := []
  netRxList := []

/-! ## Runs -/

inductive Event where
  /-- a frame is given to `defrag_data_process` -/
  | data (pskb : Skb) (alloc : Bool)
  | recover (mode : Mode) (ctxId : BitVec 8) (peerEntry : List PeerEntry)
  deriving DecidableEq, Repr

def step (e : RxDefragEntry) : Event → Except Fault RxDefragEntry
  | .data pskb alloc =>
    (defragDataProcess e pskb alloc).map fun r =>
      { r.2 with netRxList := r.2.netRxList ++ r.1.toList }
  | .recover mode ctxId peerEntry => .ok (sprdwlDefragRecover e mode ctxId peerEntry)

end Uwe5631.Defrag
