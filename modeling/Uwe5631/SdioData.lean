import Uwe5631.LinkedChains
import Uwe5631.MachineIntegers

/-!
# Lists of the SDIO layer

The data of `sdiohal.h` and the functions of `sdiohal_common.c` and `sdiohal_rx.c` that
receive packets, sort mbufs onto the lists of their channels and hand them to the pop
callbacks. Calls of `pop_link` are recorded with the mbufs they are given.
-/
namespace Uwe5631.Sdio
open LinkedChains

abbrev SDIO_CHN_TX_NUM : ℕ := 12
abbrev SDIO_CHN_RX_NUM : ℕ := 14
abbrev SDIO_CHANNEL_NUM : ℕ := SDIO_CHN_TX_NUM + SDIO_CHN_RX_NUM
abbrev SDIO_PUB_HEADER_SIZE : ℕ := 4

instance neZero_txChannels : NeZero SDIO_CHN_TX_NUM := ⟨by decide⟩

instance neZero_rxChannels : NeZero SDIO_CHN_RX_NUM := ⟨by decide⟩

/-- `SDIOHAL_ALIGN_4BYTE` -/
def align4Byte (a : ℕ) : ℕ := (a + 3) / 4 * 4

abbrev Memory := ℕ → BitVec 8

/-- `struct sdio_puh_t` without its padding. -/
structure SdioPuh where
  checkSum : Bool
  len : BitVec 16
  eof : Bool
  subtype : BitVec 4
  type : BitVec 4
  deriving DecidableEq, Repr

/-- The header at an address, bit fields from the least significant bit. -/
def puhAt (mem : Memory) (a : ℕ) : SdioPuh where
  checkSum := (mem a).getLsbD 6
  len := (mem (a + 2)).extractLsb' 0 7 ++ mem (a + 1) ++ (mem a).extractLsb' 7 1
  eof := (mem (a + 2)).getLsbD 7
  subtype := (mem (a + 3)).extractLsb' 0 4
  type := (mem (a + 3)).extractLsb' 4 4

/-- `puh->len = len` -/
def setLen (mem : Memory) (a : ℕ) (len : BitVec 16) : Memory :=
  Function.update (Function.update (Function.update mem a
    (len.extractLsb' 0 1 ++ (mem a).extractLsb' 0 7 : BitVec 8))
    (a + 1) (len.extractLsb' 1 8))
    (a + 2) ((mem (a + 2)).extractLsb' 7 1 ++ len.extractLsb' 9 7 : BitVec 8)

/-- The address of a `struct mbuf_t`. -/
abbrev MbufAddr := ℕ

/-- `struct mbuf_t`; a null `buf` is 0. -/
structure Mbuf where
  next : Option MbufAddr
  buf : ℕ
  len : BitVec 16
  deriving DecidableEq, Repr

/-- `struct sdiohal_list_t` -/
structure SdiohalList where
  mbufHead : Option MbufAddr
  mbufTail : Option MbufAddr
  type : ℕ
  subtype : ℕ
  nodeNum : ℕ
  deriving DecidableEq, Repr

def SdiohalList.chain (l : SdiohalList) : Chain MbufAddr := ⟨l.mbufHead, l.mbufTail, l.nodeNum⟩

/-- The lists of `struct sdiohal_data_t`: `list_tx[]`, `list_rx[]` and `list_rx_buf`. -/
inductive ListId where
  | tx (channel : Fin SDIO_CHN_TX_NUM)
  | rx (channel : Fin SDIO_CHN_RX_NUM)
  | rxBuf
  deriving DecidableEq, Repr

/-- A call of `pop_link`: its arguments, and the mbufs they link. -/
structure PopLink where
  channel : ℕ
  head : Option MbufAddr
  tail : Option MbufAddr
  num : ℕ
  mbufs : List MbufAddr
  deriving DecidableEq, Repr

/-- `struct sdiohal_data_t` with the memory it refers to. `ops` tells which channels have a
`pop_link`, `kzalloc` how many allocations succeed before one fails. -/
structure SdiohalData where
  mem : Memory
  mbuf : MbufAddr → Mbuf
  list : ListId → SdiohalList
  flagInit : Bool
  ops : ℕ → Bool
  kzalloc : ℕ
  popped : List PopLink

def SdiohalData.next (p : SdiohalData) (m : MbufAddr) : Option MbufAddr := (p.mbuf m).next

def SdiohalData.setList (p : SdiohalData) (i : ListId) (l : SdiohalList) : SdiohalData :=
  { p with list := Function.update p.list i l }

/-- `m->next = next` -/
def SdiohalData.setNext (p : SdiohalData) (m : MbufAddr) (next : Option MbufAddr) : SdiohalData :=
  { p with mbuf := Function.update p.mbuf m { p.mbuf m with next := next } }

/-- `tail->next = next`; the tail of a list that is not empty is not null. -/
def SdiohalData.setTailNext (p : SdiohalData) (tail next : Option MbufAddr) : SdiohalData :=
  tail.elim p fun t => p.setNext t next

/-- `struct sdiohal_list_t` with one more mbuf, of the header's type. -/
def SdiohalList.add (l : SdiohalList) (m : MbufAddr) (puh : SdioPuh) : SdiohalList where
  mbufHead := if l.nodeNum = 0 then some m else l.mbufHead
  mbufTail := some m
  type := puh.type.toNat
  subtype := puh.subtype.toNat
  nodeNum := l.nodeNum + 1

def sdiohalHwtypeToChannel (inout : Bool) (_type subtype : ℕ) : ℕ :=
  if inout then subtype else subtype + SDIO_CHN_TX_NUM

/-! ## Sorting mbufs -/

/-- One turn of the loop of `sdiohal_tx_pop_assignment`, at a channel in range. -/
def SdiohalData.txAssign (p : SdiohalData) (c : Fin SDIO_CHN_TX_NUM) (m : MbufAddr) (puh : SdioPuh) :
    SdiohalData :=
  let l := p.list (.tx c)
  let p := p.setNext m none
  let p := if l.nodeNum = 0 then p else p.setTailNext l.mbufTail (some m)
  p.setList (.tx c) (l.add m puh)

/-- The loop of `sdiohal_tx_pop_assignment` over the mbufs still to come. -/
def sdiohalTxPopAssignment : ℕ → Option MbufAddr → SdiohalData → SdiohalData
  | 0, _, p => p
  -- `-EFAULT`
  | _ + 1, none, p => p
  | n + 1, some m, p =>
    let puh := puhAt p.mem (p.mbuf m).buf
    let channel := sdiohalHwtypeToChannel true puh.type.toNat puh.subtype.toNat
    sdiohalTxPopAssignment n (p.next m)
      (if h : channel < SDIO_CHN_TX_NUM then p.txAssign ⟨channel, h⟩ m puh else p)

/-- `sdiohal_get_rx_channel_list`, for a channel that is at least `SDIO_CHN_TX_NUM`. -/
def sdiohalGetRxChannelList (p : SdiohalData) (channel : ℕ) : Option (Fin SDIO_CHN_RX_NUM) :=
  if p.flagInit then
    if h : channel - SDIO_CHN_TX_NUM < SDIO_CHN_RX_NUM then some ⟨channel - SDIO_CHN_TX_NUM, h⟩
    else none
  else none

def SdiohalData.rxAssign (p : SdiohalData) (c : Fin SDIO_CHN_RX_NUM) (m : MbufAddr) (puh : SdioPuh) :
    SdiohalData :=
  let l := p.list (.rx c)
  let p := if l.nodeNum = 0 then p else p.setTailNext l.mbufTail (some m)
  let p := p.setNext m none
  p.setList (.rx c) (l.add m puh)

/-- `none` if the list is a null pointer. -/
def sdiohalDataListAssignment (p : SdiohalData) (m : MbufAddr) (puh : SdioPuh) (channel : ℕ) :
    Option SdiohalData :=
  (sdiohalGetRxChannelList p channel).map fun c => p.rxAssign c m puh

/-! ## Handing mbufs over -/

/-- `put_page` and the other changes to the mbufs from `head` on, which become the last ones of
`list_rx_buf`. -/
def sdiohalRxListFree (p : SdiohalData) (head tail : Option MbufAddr) (num : ℕ) : SdiohalData :=
  let mbufs := walk p.next num head
  let l := p.list .rxBuf
  let p := { p with mbuf := fun m => if m ∈ mbufs then { p.mbuf m with buf := 0, len := 0 } else p.mbuf m }
  let p := if l.nodeNum = 0 then p else p.setTailNext l.mbufTail head
  p.setList .rxBuf
    { l with
      mbufHead := if l.nodeNum = 0 then head else l.mbufHead
      mbufTail := tail
      nodeNum := l.nodeNum + num }

/-- `sdiohal_ops->pop_link(channel, mbuf_head, mbuf_tail, node_num)` -/
def SdiohalData.popLink (p : SdiohalData) (channel : ℕ) (l : SdiohalList) : SdiohalData :=
  { p with
    popped := p.popped ++
      [⟨channel, l.mbufHead, l.mbufTail, l.nodeNum, walk p.next l.nodeNum l.mbufHead⟩] }

/-- The body of the loops of `sdiohal_tx_list_denq` and `sdiohal_rx_list_dispatch`. -/
def SdiohalData.dispatch (inout : Bool) (channelNum : ℕ)
    (noOps : SdiohalData → SdiohalList → SdiohalData) (i : ListId) (p : SdiohalData) : SdiohalData :=
  let l := p.list i
  if l.nodeNum = 0 then p
  else
    let channel := sdiohalHwtypeToChannel inout l.type l.subtype
    if channelNum ≤ channel then p
    else
      let p := if p.ops channel then p.popLink channel l else noOps p l
      p.setList i { l with nodeNum := 0 }

def SdiohalData.txDispatch (p : SdiohalData) (c : Fin SDIO_CHN_TX_NUM) : SdiohalData :=
  p.dispatch true SDIO_CHN_TX_NUM (fun p _ => p) (.tx c)

def SdiohalData.rxDispatch (p : SdiohalData) (c : Fin SDIO_CHN_RX_NUM) : SdiohalData :=
  p.dispatch false SDIO_CHANNEL_NUM
    (fun p l => sdiohalRxListFree p l.mbufHead l.mbufTail l.nodeNum) (.rx c)

/-- The heads of `list_tx[]` are linked in the order of the channels by `sdiohal_list_init`. -/
def sdiohalTxListDenq (p : SdiohalData) (dataList : SdiohalList) : SdiohalData :=
  ringWalk (n := 11) (fun c p => p.txDispatch c) 0
    (sdiohalTxPopAssignment dataList.nodeNum dataList.mbufHead p)

/-- `sdiohal_rx_list_dispatch`; without `flag_init` it returns `-ENODEV`. -/
def sdiohalRxListDispatch (p : SdiohalData) : SdiohalData :=
  if p.flagInit then ringWalk (n := 13) (fun c p => p.rxDispatch c) 0 p else p

end Uwe5631.Sdio
