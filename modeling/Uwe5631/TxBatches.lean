import Uwe5631.FallibleRuns
import Mathlib.Data.List.Infix
import Mathlib.Data.List.Perm.Basic
import Mathlib.Data.List.Nodup

/-!
# Transmit batches

`sprdwl_intf_tx_list` takes the first messages off the to-send list, keeps them in the to-free list
and hands them to the bus in mbufs. What the bus completes is cut out of the to-free list.
-/
namespace Uwe5631.TxBatches
open FallibleRuns

abbrev ENOMEM : ℤ := 12

abbrev PCIE_TX_NUM : ℕ := 96

inductive HwType where
  | sdio
  | usb
  | pcie
  deriving DecidableEq, Repr

/-- An address buffer with the places that were written and the messages written there. -/
structure AddrBuffer where
  size : ℕ
  pcieAddr : List (ℕ × ℕ)
  deriving DecidableEq, Repr

/-- The lists of the driver, in numbers of messages, and what it has handed out. -/
structure State where
  hwType : HwType
  /-- the messages queued so far -/
  made : ℕ
  toSend : List ℕ
  toFree : List ℕ
  /-- the messages of the mbufs that the bus has, one chain after the other -/
  bus : List ℕ
  /-- the address buffers that the bus has, one for each mbuf -/
  addrChains : List (List AddrBuffer)
  /-- the completed mbufs that wait for `sprdwl_handle_pop_list` -/
  works : List (List ℕ)
  freelist : List ℕ
  /-- how often the skb of a message was freed -/
  freed : ℕ → ℕ
  /-- mbufs and address buffers that are neither free nor handed out -/
  mbufsLeft : ℕ
  addrsLeft : ℕ

/-- What happens to a batch: how many mbufs are free, which address buffers can be
allocated, what the push returns and whether the work that frees a batch can be allocated. -/
structure Env where
  coexBtOn : Bool
  cpAsserted : Bool
  mbufs : ℕ
  addrAlloc : ℕ → Bool
  push : ℤ
  workAlloc : Bool

/-- A `NULL` mbuf is used, or a message is looked for where there is none. -/
inductive Fault where
  | nullMbuf
  | badMsgBuf
  deriving DecidableEq, Repr

/-- The part of a list from one entry to another, and the rest: what `list_cut_position` does from
the predecessor of the first entry, and `sprdwl_add_tx_list_head` by hand. -/
def cutSegment (first last : ℕ) (l : List ℕ) : List ℕ × List ℕ :=
  let before := l.takeWhile (· ≠ first)
  let rest := l.dropWhile (· ≠ first)
  let segment := rest.takeWhile (· ≠ last) ++ [last]
  (segment, before ++ rest.drop segment.length)

/-- The entries between the ends of a list that was spliced elsewhere. -/
def cutEnds (ends l : List ℕ) : List ℕ × List ℕ :=
  match ends.head?, ends.getLast? with
  | some first, some last => cutSegment first last l
  | _, _ => ([], l)

/-- `sprdwl_list_cut_position` and `sprdwl_add_to_free_list` -/
def State.toFreeList (s : State) (txCount : ℕ) : State :=
  { s with
    toSend := s.toSend.drop txCount
    toFree := s.toFree ++ s.toSend.take txCount }

/-- `sprdwl_add_tx_list_head` -/
def State.addTxListHead (s : State) (txListHead : List ℕ) : State :=
  let (segment, rest) := cutEnds txListHead s.toFree
  { s with toSend := segment ++ s.toSend, toFree := rest }

/-- `sprdwl_add_topop_list`. The works are done in their order. -/
def State.addTopopList (s : State) (chunk : List ℕ) (workAlloc : Bool) : State :=
  if workAlloc then { s with works := s.works ++ [chunk] } else s

/-! ## Address buffers -/

/-- The loop of `sprdwl_intf_tx_list` for PCIe. -/
structure PcieLoop where
  i : ℕ
  j : ℕ
  num : ℕ
  /-- where in the chain of mbufs it is -/
  mbufPos : ℕ
  buffers : List AddrBuffer
  deriving Repr

/-- `sprdwl_set_pcie_addr_to_mbuf` -/
def setPcieAddrToMbuf (env : Env) (pcieCount : ℕ) (p : PcieLoop) (txCount : ℕ) :
    Except Fault (Option PcieLoop) :=
  if env.addrAlloc p.buffers.length = false then .ok none
  else if pcieCount ≤ p.mbufPos then .error .nullMbuf
  else .ok (some { p with buffers := p.buffers ++ [⟨txCount, []⟩] })

/-- The address of a message is written to the current address buffer. -/
def PcieLoop.store (p : PcieLoop) (msg : ℕ) : PcieLoop :=
  { p with
    buffers := p.buffers.modify (p.buffers.length - 1)
      fun b => { b with pcieAddr := b.pcieAddr ++ [(p.i, msg)] } }

/-- Another address buffer where one is due. -/
def nextAddrBuffer (env : Env) (pcieCount cnt : ℕ) (p : PcieLoop) :
    Except Fault (Option PcieLoop) :=
  if 1 < pcieCount ∧ 0 < p.num ∧ p.j ≤ p.i then
    let p := { p with num := p.num - 1 }
    if p.num = 0 then
      if 0 < cnt then setPcieAddrToMbuf env pcieCount p cnt else .ok (some p)
    else setPcieAddrToMbuf env pcieCount { p with j := p.j + PCIE_TX_NUM } PCIE_TX_NUM
  else .ok (some p)

/-- The messages of a batch get into address buffers. The result says how many buffers there are and
whether all could be allocated. -/
def pcieLoop (env : Env) (pcieCount txCount cnt : ℕ) :
    List ℕ → PcieLoop → Except Fault (PcieLoop × Bool)
  | [], p => .ok (p, true)
  | msg :: msgs, p =>
    (nextAddrBuffer env pcieCount cnt p).bind fun
      | none => .ok (p, false)
      | some p =>
        let p := p.store msg
        if pcieCount ≤ p.mbufPos then .error .nullMbuf
        else
          let p := { p with mbufPos := p.mbufPos + 1, i := p.i + 1 }
          if p.i = txCount then .ok (p, true) else pcieLoop env pcieCount txCount cnt msgs p

/-- `num` and `cnt` in `sprdwl_intf_tx_list` -/
def pcieSplit (txCount : ℕ) : ℕ × ℕ :=
  if txCount ≤ PCIE_TX_NUM then (0, 0)
  else ((txCount - 1) / PCIE_TX_NUM, txCount - (txCount - 1) / PCIE_TX_NUM * PCIE_TX_NUM)

/-- `sprdwl_intf_tx_list` for PCIe, with `pcie_count` mbufs. -/
def intfTxListPcie (s : State) (env : Env) (txCount pcieCount : ℕ) : Except Fault (State × ℤ) :=
  let (num, cnt) := pcieSplit txCount
  let size := if 1 < pcieCount then PCIE_TX_NUM else txCount
  (setPcieAddrToMbuf env pcieCount ⟨0, PCIE_TX_NUM, num, 0, []⟩ size).bind fun
    | none => .ok ({ s with mbufsLeft := s.mbufsLeft + pcieCount }, -1)
    | some p =>
      (pcieLoop env pcieCount txCount cnt s.toSend p).bind fun
        | (p, false) =>
          .ok ({ s with
            mbufsLeft := s.mbufsLeft + pcieCount
            addrsLeft := s.addrsLeft + p.buffers.length }, -1)
        | (p, true) =>
          let t := s.toFreeList txCount
          if env.push ≠ 0 then
            -- `pcie_count` is 0 when the mbufs are to be freed
            .ok ({ t.addTxListHead (s.toSend.take txCount) with
              mbufsLeft := s.mbufsLeft + pcieCount }, env.push)
          else .ok ({ t with addrChains := t.addrChains ++ [p.buffers] }, 0)

/-! ## The batch -/

/-- `sprdwl_intf_tx_list` for SDIO and USB, with an mbuf for each message. -/
def intfTxListMbufs (s : State) (env : Env) (txCount : ℕ) : State × ℤ :=
  let chain := s.toSend.take txCount
  let t := s.toFreeList txCount
  if env.push ≠ 0 then (t.addTxListHead chain, env.push)
  else if s.hwType = .sdio ∧ env.coexBtOn = false then (t.addTopopList chain env.workAlloc, 0)
  else ({ t with bus := t.bus ++ chain }, 0)

/-- `sprdwl_intf_tx_list` -/
def intfTxList (s : State) (env : Env) (txCount : ℕ) : Except Fault (State × ℤ) :=
  if env.cpAsserted then .ok (s, 0)
  else
    -- on PCIe an mbuf is asked for where another address buffer is due
    let asked := if s.hwType = .pcie then (pcieSplit txCount).1 + 1 else txCount
    let given := min env.mbufs asked
    if given = 0 then .ok (s, -ENOMEM)
    else if s.hwType = .pcie then intfTxListPcie s env txCount given
    else if given ≠ txCount then .ok (s, -ENOMEM)
    else .ok (intfTxListMbufs s env txCount)

/-- `sprdwl_handle_pop_list` -/
def handlePopList (s : State) (chunk : List ℕ) : State :=
  let (segment, rest) := cutEnds chunk s.toFree
  { s with
    toFree := rest
    freelist := s.freelist ++ segment
    freed := fun m => s.freed m + chunk.count m }

/-- The loop of `sprdwl_tx_free_pcie_data` over the messages the firmware did not report in time. -/
def freeLate (s : State) (late : ℕ → Bool) : State :=
  let freed := s.toFree.takeWhile late
  { s with
    toFree := s.toFree.dropWhile late
    freelist := s.freelist ++ freed
    freed := fun m => s.freed m + freed.count m }

inductive Event where
  /-- a message gets into the to-send list -/
  | queue
  | intfTxList (env : Env) (txCount : ℕ)
  /-- the bus completes some of the mbufs it has, of one chain or of several that it has put
  together: `sprdwl_tx_data_pop_list` -/
  | txDataPopList (skip num : ℕ) (workAlloc : Bool)
  /-- the same for PCIe -/
  | txDataPopListPcie (chain : ℕ)
  /-- `sprdwl_handle_pop_list` of the first work -/
  | handlePopList
  /-- `sprdwl_tx_free_pcie_data` with the messages that the firmware is done with -/
  | txFreePcieData (named : List ℕ) (late : ℕ → Bool)

def step (s : State) : Event → Except Fault State
  | .queue => .ok { s with made := s.made + 1, toSend := s.toSend ++ [s.made] }
  | .intfTxList env txCount =>
    if 0 < txCount ∧ txCount ≤ s.toSend.length then (intfTxList s env txCount).map Prod.fst
    else .ok s
  | .txDataPopList skip num workAlloc =>
    let chunk := (s.bus.drop skip).take num
    if chunk = [] then .ok s
    else
      .ok ({ s with
        bus := s.bus.take skip ++ (s.bus.drop skip).drop num }.addTopopList chunk workAlloc)
  | .txDataPopListPcie k =>
    match s.addrChains[k]? with
    | some buffers =>
      -- `num` is 0 when the mbufs are to be freed
      .ok { s with
        addrChains := s.addrChains.eraseIdx k
        mbufsLeft := s.mbufsLeft + buffers.length }
    | none => .ok s
  | .handlePopList =>
    match s.works with
    | chunk :: works => .ok (handlePopList { s with works := works } chunk)
    | [] => .ok s
  | .txFreePcieData named late =>
    -- other buses have no such event
    if s.hwType ≠ .pcie then .ok s
    -- the place of the pointer to the message is taken for the message
    else if named ≠ [] then .error .badMsgBuf
    else .ok (freeLate s late)

def init (hwType : HwType) : State := ⟨hwType, 0, [], [], [], [], [], [], fun _ => 0, 0, 0⟩

/-- The messages of a batch are each in one address entry, inside its address buffer. -/
structure Addressed (buffers : List AddrBuffer) (batch : List ℕ) : Prop where
  once : ∀ msg ∈ batch, (buffers.flatMap fun b => b.pcieAddr.map Prod.snd).count msg = 1
  inside : ∀ b ∈ buffers, ∀ entry ∈ b.pcieAddr, entry.1 < b.size

/-- A batch that goes out is moved as it is. One mbuf more refers to each of its messages, on PCIe
one address entry. -/
structure HandedOver (s t : State) (txCount : ℕ) : Prop where
  toSend : t.toSend = s.toSend.drop txCount
  toFree : t.toFree = s.toFree ++ s.toSend.take txCount
  mbufs : s.hwType ≠ .pcie →
    (t.bus ++ t.works.flatten).Perm (s.bus ++ s.works.flatten ++ s.toSend.take txCount)
  entries : s.hwType = .pcie →
    ∃ buffers, t.addrChains = s.addrChains ++ [buffers] ∧ Addressed buffers (s.toSend.take txCount)

/-- A batch that fails leaves nothing behind. -/
structure Undone (s t : State) : Prop where
  toSend : t.toSend = s.toSend
  toFree : t.toFree = s.toFree
  chains : t.bus = s.bus ∧ t.works = s.works ∧ t.addrChains = s.addrChains
  mbufs : t.mbufsLeft = s.mbufsLeft
  addrs : t.addrsLeft = s.addrsLeft

/-- A message that was moved was not freed and waits, for the one completion of its mbuf where it
has one, or was freed once. -/
structure Settles (s : State) (msg : ℕ) : Prop where
  due : msg ∈ s.toFree → s.freed msg = 0 ∧ s.toFree.count msg = 1 ∧ msg ∉ s.freelist ∧
    (s.hwType ≠ .pcie → (s.bus ++ s.works.flatten).count msg = 1)
  done : msg ∉ s.toFree → s.freed msg = 1 ∧ s.freelist.count msg = 1 ∧
    msg ∉ s.bus ++ s.works.flatten

/-- What the driver keeps to. -/
structure Sound (s : State) (e : Event) : Prop where
  batch : ∀ env txCount, e = .intfTxList env txCount → 0 < txCount → txCount ≤ s.toSend.length →
    ∃ t ret, intfTxList s env txCount = .ok (t, ret) ∧
      (ret = 0 → HandedOver s t txCount) ∧ (ret ≠ 0 → Undone s t)
  settles : ∃ t, step s e = .ok t ∧ ∀ msg < t.made, msg ∉ t.toSend → Settles t msg

/-- The firmware is not asserted when a batch is sent. PCIe has no mbuf for it, or it is a single
message whose address buffer can be allocated and is taken by the bus. The work that frees a batch
can be allocated when the bus is done with it, and the firmware names no message. -/
def Fine (s : State) : Event → Prop
  | .intfTxList env txCount => 0 < txCount → txCount ≤ s.toSend.length →
    env.cpAsserted = false ∧
    (s.hwType = .pcie →
      env.mbufs = 0 ∨ txCount = 1 ∧ env.addrAlloc 0 = true ∧ env.push = 0) ∧
    (s.hwType = .sdio → env.coexBtOn = false → txCount ≤ env.mbufs → env.push = 0 →
      env.workAlloc = true)
  | .txDataPopList skip num workAlloc => (s.bus.drop skip).take num ≠ [] → workAlloc = true
  | .txFreePcieData named _ => s.hwType = .pcie → named = []
  | _ => True

/-- The works cut their messages out of the to-free list one after the other, and what is left is
what the bus has, in its order. -/
def Peels : List (List ℕ) → List ℕ → List ℕ → Prop
  | [], toFree, bus => toFree = bus
  | chunk :: works, toFree, bus => ∃ a b, toFree = a ++ chunk ++ b ∧ Peels works (a ++ b) bus

structure Inv (s : State) : Prop where
  all : (s.toSend ++ s.toFree ++ s.freelist).Perm (List.range s.made)
  peels : s.hwType ≠ .pcie → Peels s.works s.toFree s.bus
  pcie : s.hwType = .pcie → s.bus = [] ∧ s.works = []
  nonempty : ∀ chunk ∈ s.works, chunk ≠ []
  freed : ∀ msg, s.freed msg = s.freelist.count msg

variable {s t : State} {e : Event} {env : Env} {txCount : ℕ}
  {l a b segment chunk toFree bus batch : List ℕ} {works : List (List ℕ)} {hwType : HwType}

/-! ## Cutting a segment -/

theorem takeWhile_ne {x : ℕ} (hx : x ∉ a) (b : List ℕ) :
    (a ++ x :: b).takeWhile (· ≠ x) = a := by
  rw [List.takeWhile_append_of_pos]
  · simp
  · intro y hy
    simp only [decide_eq_true_eq]
    rintro rfl
    exact hx hy

theorem dropWhile_ne {x : ℕ} (hx : x ∉ a) (b : List ℕ) :
    (a ++ x :: b).dropWhile (· ≠ x) = x :: b := by
  rw [List.dropWhile_append_of_pos]
  · simp
  · intro y hy
    simp only [decide_eq_true_eq]
    rintro rfl
    exact hx hy

/-- Between its ends lies the segment. -/
theorem cutEnds_eq (hnodup : (a ++ segment ++ b).Nodup) (hne : segment ≠ []) :
    cutEnds segment (a ++ segment ++ b) = (segment, a ++ b) := by
  obtain ⟨first, rest, hhead⟩ := List.exists_cons_of_ne_nil hne
  obtain ⟨before, last, htail⟩ := (List.eq_nil_or_concat segment).resolve_left hne
  have hfirst : first ∉ a := by
    intro hmem
    rw [hhead, List.append_assoc, List.nodup_append] at hnodup
    exact hnodup.2.2 first hmem first (by simp) rfl
  have hlast : last ∉ before := by
    intro hmem
    have hsegment := (List.nodup_append.mp (List.nodup_append.mp hnodup).1).2.1
    rw [htail, List.concat_eq_append, List.nodup_append] at hsegment
    exact hsegment.2.2 last hmem last (by simp) rfl
  have hends : cutEnds segment (a ++ segment ++ b) = cutSegment first last (a ++ segment ++ b) := by
    have hlast? : segment.getLast? = some last := by
      rw [htail]
      simp
    have hhead? : segment.head? = some first := by
      rw [hhead, List.head?_cons]
    simp only [cutEnds, hlast?, hhead?]
  have hstart : a ++ segment ++ b = a ++ first :: (rest ++ b) := by
    simp [hhead]
  have hend : first :: (rest ++ b) = before ++ last :: b := by
    have hboth : first :: rest = before ++ [last] := by
      rw [← hhead, htail, List.concat_eq_append]
    rw [← List.cons_append, hboth]
    simp
  have hsegment : before ++ [last] = segment := by
    rw [htail, List.concat_eq_append]
  rw [hends, cutSegment, hstart, takeWhile_ne hfirst, dropWhile_ne hfirst, hend,
    takeWhile_ne hlast, hsegment]
  have hdrop : (before ++ last :: b).drop segment.length = b := by
    rw [← hsegment]
    simp
  rw [hdrop]

/-! ## The order of the to-free list -/

/-- A batch that the bus keeps comes last in both. -/
theorem Peels.push (h : Peels works toFree bus) (batch : List ℕ) :
    Peels works (toFree ++ batch) (bus ++ batch) := by
  induction works generalizing toFree with
  | nil =>
    rw [Peels] at h ⊢
    rw [h]
  | cons chunk works ih =>
    obtain ⟨a, b, rfl, hrest⟩ := h
    refine ⟨a, b ++ batch, by simp, ?_⟩
    have hrest' := ih hrest
    rwa [List.append_assoc] at hrest'

/-- A batch that is sent at once is cut out when all before it are. -/
theorem Peels.pushDirect (h : Peels works toFree bus) (batch : List ℕ) :
    Peels (works ++ [batch]) (toFree ++ batch) bus := by
  induction works generalizing toFree with
  | nil =>
    rw [Peels] at h
    exact ⟨bus, [], by simp [h], by simp [Peels]⟩
  | cons chunk works ih =>
    obtain ⟨a, b, rfl, hrest⟩ := h
    refine ⟨a, b ++ batch, by simp, ?_⟩
    have hrest' := ih hrest
    rwa [List.append_assoc] at hrest'

/-- What the bus completes lies together when all before it are cut out. -/
theorem Peels.pop (h : Peels works toFree (a ++ chunk ++ b)) :
    Peels (works ++ [chunk]) toFree (a ++ b) := by
  induction works generalizing toFree with
  | nil =>
    rw [Peels] at h
    exact ⟨a, b, h, rfl⟩
  | cons first works ih =>
    obtain ⟨c, d, rfl, hrest⟩ := h
    exact ⟨c, d, rfl, ih hrest⟩

theorem Peels.perm (h : Peels works toFree bus) : toFree.Perm (bus ++ works.flatten) := by
  induction works generalizing toFree with
  | nil =>
    rw [Peels] at h
    rw [h, List.flatten_nil, List.append_nil]
  | cons chunk works ih =>
    obtain ⟨a, b, rfl, hrest⟩ := h
    have hperm := ih hrest
    rw [List.perm_iff_count] at hperm ⊢
    intro m
    have hcount := hperm m
    simp only [List.count_append, List.flatten_cons] at hcount ⊢
    omega

/-! ## A batch -/

theorem Inv.nodup (h : Inv s) : (s.toSend ++ s.toFree ++ s.freelist).Nodup :=
  h.all.nodup_iff.mpr List.nodup_range

theorem Inv.toFree_nodup (h : Inv s) : (s.toSend ++ s.toFree).Nodup :=
  (List.nodup_append.mp h.nodup).1

theorem take_ne_nil (hpos : 0 < txCount) (hle : txCount ≤ l.length) : l.take txCount ≠ [] := by
  intro hnil
  have hlength := congrArg List.length hnil
  simp only [List.length_take, List.length_nil] at hlength
  omega

/-- A batch that comes back is where it was. -/
theorem addTxListHead_eq (h : Inv s) (hpos : 0 < txCount) (hle : txCount ≤ s.toSend.length) :
    (s.toFreeList txCount).addTxListHead (s.toSend.take txCount) = s := by
  have hne := take_ne_nil hpos hle
  have hnodup : (s.toFree ++ s.toSend.take txCount ++ []).Nodup := by
    rw [List.append_nil]
    refine List.Nodup.sublist ?_ (List.perm_append_comm.nodup_iff.mp h.toFree_nodup)
    exact (List.Sublist.refl s.toFree).append (List.take_sublist txCount s.toSend)
  have hcut := cutEnds_eq hnodup hne
  simp only [List.append_nil] at hcut
  simp only [State.addTxListHead, State.toFreeList, hcut, List.take_append_drop]

/-- A single message gets into a single address entry. -/
theorem intfTxListPcie_one {msg : ℕ} {rest : List ℕ} (hsend : s.toSend = msg :: rest)
    (halloc : env.addrAlloc 0 = true) (hpush : env.push = 0) :
    intfTxListPcie s env 1 1 =
      .ok ({ s.toFreeList 1 with addrChains := s.addrChains ++ [[⟨1, [(0, msg)]⟩]] }, 0) := by
  have hset : setPcieAddrToMbuf env 1 ⟨0, PCIE_TX_NUM, 0, 0, []⟩ 1 =
      .ok (some ⟨0, PCIE_TX_NUM, 0, 0, [⟨1, []⟩]⟩) := by
    simp [setPcieAddrToMbuf, halloc]
  have hloop : pcieLoop env 1 1 0 s.toSend ⟨0, PCIE_TX_NUM, 0, 0, [⟨1, []⟩]⟩ =
      .ok (⟨1, PCIE_TX_NUM, 0, 1, [⟨1, [(0, msg)]⟩]⟩, true) := by
    rw [hsend]
    rfl
  rw [intfTxListPcie]
  change (setPcieAddrToMbuf env 1 ⟨0, PCIE_TX_NUM, 0, 0, []⟩ 1).bind _ = _
  rw [hset, ok_bind]
  dsimp only
  rw [hloop, ok_bind]
  dsimp only
  rw [if_neg (not_not.mpr hpush)]
  rfl

/-- What a batch does to the driver: nothing, or it is handed over to the bus or to the work. -/
theorem intfTxList_cases (h : Inv s) (hf : Fine s (.intfTxList env txCount)) (hpos : 0 < txCount)
    (hle : txCount ≤ s.toSend.length) :
    ∃ t ret, intfTxList s env txCount = .ok (t, ret) ∧ (ret ≠ 0 ∧ t = s ∨
      ret = 0 ∧ (s.hwType ≠ .pcie ∧
          (t = { s.toFreeList txCount with bus := s.bus ++ s.toSend.take txCount } ∨
            t = { s.toFreeList txCount with works := s.works ++ [s.toSend.take txCount] }) ∨
        s.hwType = .pcie ∧ ∃ msg, s.toSend.take txCount = [msg] ∧
          t = { s.toFreeList txCount with
            addrChains := s.addrChains ++ [[⟨1, [(0, msg)]⟩]] })) := by
  obtain ⟨hasserted, hpcie, hwork⟩ := hf hpos hle
  simp only [intfTxList, hasserted, Bool.false_eq_true, if_false]
  by_cases hhw : s.hwType = .pcie
  · simp only [hhw, if_true]
    rcases hpcie hhw with hzero | ⟨rfl, halloc, hpush⟩
    · rw [hzero, Nat.zero_min, if_pos rfl]
      exact ⟨s, -ENOMEM, rfl, .inl ⟨by decide, rfl⟩⟩
    · by_cases hzero : env.mbufs = 0
      · rw [hzero, Nat.zero_min, if_pos rfl]
        exact ⟨s, -ENOMEM, rfl, .inl ⟨by decide, rfl⟩⟩
      · obtain ⟨msg, rest, hsend⟩ := List.exists_cons_of_length_pos hle
        have hone : min env.mbufs ((pcieSplit 1).1 + 1) = 1 := by
          change min env.mbufs 1 = 1
          omega
        rw [hone, if_neg Nat.one_ne_zero, intfTxListPcie_one hsend halloc hpush]
        exact ⟨_, 0, rfl, .inr ⟨rfl, .inr ⟨True.intro, msg, by rw [hsend]; rfl, rfl⟩⟩⟩
  · simp only [hhw, if_false]
    by_cases hfew : env.mbufs < txCount
    · have hgiven : min env.mbufs txCount ≠ txCount := by omega
      rw [if_pos hgiven, ite_self]
      exact ⟨s, -ENOMEM, rfl, .inl ⟨by decide, rfl⟩⟩
    · have hgiven : min env.mbufs txCount = txCount := by omega
      rw [hgiven, if_neg hpos.ne', if_neg (not_not.mpr rfl), intfTxListMbufs]
      by_cases hpush : env.push = 0
      · rw [if_neg (not_not.mpr hpush)]
        by_cases hdirect : s.hwType = .sdio ∧ env.coexBtOn = false
        · have halloc := hwork hdirect.1 hdirect.2 (not_lt.mp hfew) hpush
          rw [if_pos hdirect, State.addTopopList, if_pos halloc]
          exact ⟨_, 0, rfl, .inr ⟨rfl, .inl ⟨hhw, .inr rfl⟩⟩⟩
        · rw [if_neg hdirect]
          exact ⟨_, 0, rfl, .inr ⟨rfl, .inl ⟨hhw, .inl rfl⟩⟩⟩
      · rw [if_pos hpush, addTxListHead_eq h hpos hle]
        exact ⟨s, env.push, rfl, .inl ⟨hpush, rfl⟩⟩

/-- The first messages go from one list to the other. -/
theorem toFreeList_perm (s : State) (txCount : ℕ) :
    (s.toSend.drop txCount ++ (s.toFree ++ s.toSend.take txCount) ++ s.freelist).Perm
      (s.toSend ++ s.toFree ++ s.freelist) := by
  refine List.Perm.append_right s.freelist ?_
  calc
    (s.toSend.drop txCount ++ (s.toFree ++ s.toSend.take txCount)).Perm
        (s.toFree ++ s.toSend.take txCount ++ s.toSend.drop txCount) := List.perm_append_comm
    _ = s.toFree ++ s.toSend := by rw [List.append_assoc, List.take_append_drop]
    (s.toFree ++ s.toSend).Perm (s.toSend ++ s.toFree) := List.perm_append_comm

theorem take_perm (h : Inv s) (txCount : ℕ) :
    ((s.toFreeList txCount).toSend ++ (s.toFreeList txCount).toFree ++ s.freelist).Perm
      (List.range s.made) := (toFreeList_perm s txCount).trans h.all

theorem intfTxList_inv (h : Inv s) (hf : Fine s (.intfTxList env txCount)) (hpos : 0 < txCount)
    (hle : txCount ≤ s.toSend.length) :
    ∃ t ret, intfTxList s env txCount = .ok (t, ret) ∧ Inv t ∧
      (ret = 0 → HandedOver s t txCount) ∧ (ret ≠ 0 → Undone s t) := by
  obtain ⟨t, ret, ht, ⟨hret, rfl⟩ | ⟨rfl, ⟨hhw, rfl | rfl⟩ | ⟨hhw, msg, hbatch, rfl⟩⟩⟩ :=
    intfTxList_cases h hf hpos hle
  · exact ⟨_, ret, ht, h, fun hz => absurd hz hret,
      fun _ => ⟨rfl, rfl, ⟨rfl, rfl, rfl⟩, rfl, rfl⟩⟩
  · refine ⟨_, 0, ht, ⟨take_perm h txCount, fun hhw => (h.peels hhw).push _, fun hpcie => ?_,
      h.nonempty, h.freed⟩, fun _ => ⟨rfl, rfl, fun _ => ?_, fun hpcie => absurd hpcie hhw⟩,
      fun hz => absurd rfl hz⟩
    · exact absurd hpcie hhw
    · rw [List.perm_iff_count]
      intro m
      simp only [List.count_append, State.toFreeList]
      omega
  · refine ⟨_, 0, ht, ⟨take_perm h txCount, fun hhw => (h.peels hhw).pushDirect _,
      fun hpcie => ?_, fun chunk hchunk => ?_, h.freed⟩,
      fun _ => ⟨rfl, rfl, fun _ => ?_, fun hpcie => absurd hpcie hhw⟩, fun hz => absurd rfl hz⟩
    · exact absurd hpcie hhw
    · rcases List.mem_append.mp hchunk with hold | hnew
      · exact h.nonempty chunk hold
      · rw [List.mem_singleton.mp hnew]
        exact take_ne_nil hpos hle
    · rw [List.perm_iff_count]
      intro m
      simp only [List.count_append, List.flatten_append, List.flatten_cons, List.flatten_nil,
        List.count_nil, State.toFreeList]
      omega
  · refine ⟨_, 0, ht, ⟨take_perm h txCount, fun hne => absurd hhw hne, h.pcie, h.nonempty,
      h.freed⟩, fun _ => ⟨rfl, rfl, fun hne => absurd hhw hne, fun _ => ⟨_, rfl, ?_, ?_⟩⟩,
      fun hz => absurd rfl hz⟩
    · rw [hbatch]
      simp
    · simp

/-! ## Completions -/

theorem queue_inv (h : Inv s) :
    Inv { s with made := s.made + 1, toSend := s.toSend ++ [s.made] } where
  all := by
    have hmade : (s.toSend ++ [s.made] ++ s.toFree ++ s.freelist).Perm
        (s.toSend ++ s.toFree ++ s.freelist ++ [s.made]) := by
      rw [List.perm_iff_count]
      intro m
      simp only [List.count_append]
      omega
    rw [List.range_succ]
    exact hmade.trans (h.all.append_right [s.made])
  peels := h.peels
  pcie := h.pcie
  nonempty := h.nonempty
  freed := h.freed

/-- The bus gives back some of its mbufs. -/
theorem txDataPopList_inv (h : Inv s) {skip num : ℕ} (hne : (s.bus.drop skip).take num ≠ []) :
    Inv { s with
      bus := s.bus.take skip ++ (s.bus.drop skip).drop num
      works := s.works ++ [(s.bus.drop skip).take num] } where
  all := h.all
  peels hhw := by
    refine Peels.pop ?_
    rw [List.append_assoc, List.take_append_drop, List.take_append_drop]
    exact h.peels hhw
  pcie hhw := by
    rw [(h.pcie hhw).1] at hne
    simp at hne
  nonempty chunk hchunk := by
    rcases List.mem_append.mp hchunk with hold | hnew
    · exact h.nonempty chunk hold
    · rw [List.mem_singleton.mp hnew]
      exact hne
  freed := h.freed

/-- A completed chunk is cut out of the to-free list. -/
theorem handlePopList_inv (h : Inv s) (hworks : s.works = chunk :: works) :
    Inv (handlePopList { s with works := works } chunk) := by
  have hhw : s.hwType ≠ .pcie := by
    intro hhw
    rw [(h.pcie hhw).2] at hworks
    cases hworks
  have hpeels := h.peels hhw
  rw [hworks] at hpeels
  obtain ⟨a, b, hfree, hrest⟩ := hpeels
  have hnodup : (a ++ chunk ++ b).Nodup := by
    rw [← hfree]
    exact (List.nodup_append.mp h.toFree_nodup).2.1
  have hcut : cutEnds chunk s.toFree = (chunk, a ++ b) := by
    rw [hfree]
    exact cutEnds_eq hnodup (h.nonempty chunk (by rw [hworks]; exact List.mem_cons_self))
  simp only [handlePopList, hcut]
  refine ⟨?_, fun _ => hrest, fun hpcie => absurd hpcie hhw, ?_, ?_⟩
  · refine List.Perm.trans ?_ h.all
    rw [hfree, List.perm_iff_count]
    intro m
    simp only [List.count_append]
    omega
  · intro other hother
    exact h.nonempty other (by rw [hworks]; exact List.mem_cons_of_mem _ hother)
  · intro m
    change s.freed m + chunk.count m = (s.freelist ++ chunk).count m
    rw [h.freed, List.count_append]

/-- What is late on PCIe is freed. -/
theorem freeLate_inv (h : Inv s) (hhw : s.hwType = .pcie) (late : ℕ → Bool) :
    Inv (freeLate s late) where
  all := by
    refine List.Perm.trans ?_ h.all
    rw [List.perm_iff_count]
    intro m
    have hsplit := congrArg (List.count m) (@List.takeWhile_append_dropWhile _ late s.toFree)
    simp only [freeLate, List.count_append] at hsplit ⊢
    omega
  peels hne := absurd hhw hne
  pcie := h.pcie
  nonempty := h.nonempty
  freed m := by
    change s.freed m + _ = (s.freelist ++ _).count m
    rw [h.freed, List.count_append]

theorem step_inv (h : Inv s) (hf : Fine s e) : ∃ t, step s e = .ok t ∧ Inv t := by
  cases e with
  | queue => exact ⟨_, rfl, queue_inv h⟩
  | intfTxList env txCount =>
    simp only [step]
    split
    · rename_i hcount
      obtain ⟨t, ret, ht, hinv, -⟩ := intfTxList_inv h hf hcount.1 hcount.2
      exact ⟨t, by rw [ht]; rfl, hinv⟩
    · exact ⟨s, rfl, h⟩
  | txDataPopList skip num workAlloc =>
    simp only [step]
    split
    · exact ⟨s, rfl, h⟩
    · rename_i hne
      obtain rfl : workAlloc = true := hf hne
      exact ⟨_, rfl, txDataPopList_inv h hne⟩
  | txDataPopListPcie k =>
    simp only [step]
    split
    · exact ⟨_, rfl, h.all, h.peels, h.pcie, h.nonempty, h.freed⟩
    · exact ⟨s, rfl, h⟩
  | handlePopList =>
    cases hworks : s.works with
    | nil => exact ⟨s, by simp only [step, hworks], h⟩
    | cons chunk works =>
      exact ⟨_, by simp only [step, hworks], handlePopList_inv h hworks⟩
  | txFreePcieData named late =>
    by_cases hhw : s.hwType = .pcie
    · refine ⟨freeLate s late, ?_, freeLate_inv h hhw late⟩
      rw [step, if_neg (not_not.mpr hhw), if_neg (not_not.mpr (hf hhw))]
    · exact ⟨s, if_pos hhw, h⟩

theorem Inv.due (h : Inv s) (hhw : s.hwType ≠ .pcie) :
    s.toFree.Perm (s.bus ++ s.works.flatten) := (h.peels hhw).perm

theorem Inv.settles (h : Inv s) {msg : ℕ} (hmade : msg < s.made) (hsend : msg ∉ s.toSend) :
    Settles s msg := by
  have hall := h.all.count_eq msg
  rw [List.count_eq_one_of_mem List.nodup_range (List.mem_range.mpr hmade)] at hall
  have hnone := List.count_eq_zero_of_not_mem hsend
  simp only [List.count_append] at hall
  constructor
  · intro hfree
    have hpos := List.count_pos_iff.mpr hfree
    rw [h.freed]
    refine ⟨by omega, by omega, fun hmem => ?_, fun hhw => ?_⟩
    · have hlist := List.count_pos_iff.mpr hmem
      omega
    · rw [← (h.due hhw).count_eq msg]
      omega
  · intro hfree
    have hzero := List.count_eq_zero_of_not_mem hfree
    rw [h.freed]
    refine ⟨by omega, by omega, fun hmem => ?_⟩
    by_cases hhw : s.hwType = .pcie
    · rw [(h.pcie hhw).1, (h.pcie hhw).2] at hmem
      cases hmem
    · exact hfree ((h.due hhw).mem_iff.mpr hmem)

theorem init_inv (hwType : HwType) : Inv (init hwType) where
  all := List.Perm.refl _
  peels _ := rfl
  pcie _ := ⟨rfl, rfl⟩
  nonempty _ h := by cases h
  freed _ := rfl

theorem fine_sound (h : Inv s) (hf : Fine s e) : Sound s e where
  batch := by
    rintro env txCount rfl hpos hle
    obtain ⟨t, ret, ht, -, hret⟩ := intfTxList_inv h hf hpos hle
    exact ⟨t, ret, ht, hret⟩
  settles := by
    obtain ⟨t, ht, hinv⟩ := step_inv h hf
    exact ⟨t, ht, fun msg hmade hsend => hinv.settles hmade hsend⟩

/-- In a run whose steps meet their conditions every batch is handed over or comes back whole, and
every message that was moved is freed once, where it has an mbuf by the one completion it waits
for. -/
theorem tx_batches (hwType : HwType) {es : List Event} (hf : Along step Fine (init hwType) es) :
    ∀ h e rest, es = h ++ e :: rest → ∃ s, run step (init hwType) h = .ok s ∧ Sound s e := by
  rintro h e rest rfl
  obtain ⟨hbefore, hafter⟩ := along_append.mp hf
  obtain ⟨s, hs, hinv⟩ := run_completes (fun s e hI hfe => step_inv hI hfe) (init_inv hwType) hbefore
  exact ⟨s, hs, fine_sound hinv (hafter s hs).1⟩

/-- An environment in which all goes well. -/
def goodEnv (coexBtOn : Bool) : Env := ⟨coexBtOn, false, 96, fun _ => true, 0, true⟩

/-- Over SDIO a batch waits for the thread of the bus, one is sent at once and another waits. The
bus completes the two that waited together. -/
def sampleSdio : List Event :=
  [.queue, .queue, .queue, .queue, .intfTxList (goodEnv true) 1, .intfTxList (goodEnv false) 1,
    .intfTxList (goodEnv true) 2, .txDataPopList 0 3 true, .handlePopList, .handlePopList]

/-- A message over PCIe, which the firmware does not report. -/
def sampleLate : List Event :=
  [.queue, .intfTxList (goodEnv false) 1, .txDataPopListPcie 0, .txFreePcieData [] fun _ => true]

theorem sampleSdio_batches :
    (∃ s, run step (init .sdio) sampleSdio.dropLast = .ok s ∧ Sound s .handlePopList) ∧
    ∃ s, run step (init .pcie) sampleLate.dropLast = .ok s ∧
      Sound s (.txFreePcieData [] fun _ => true) := by
  constructor
  · refine @tx_batches .sdio sampleSdio ?_ sampleSdio.dropLast .handlePopList [] rfl
    simp [sampleSdio, goodEnv, Along, step, init, Fine, intfTxList, intfTxListMbufs,
      State.toFreeList, State.addTopopList, Except.map]
  · refine @tx_batches .pcie sampleLate ?_ sampleLate.dropLast _ [] rfl
    simp [sampleLate, goodEnv, Along, step, init, Fine]

/-- Two messages over PCIe. -/
def samplePcie : List Event := [.queue, .queue, .intfTxList (goodEnv false) 2]

/-- There is one mbuf for both, and the loop goes on to the next. -/
theorem pcie_batch_walks_off :
    run step (init .pcie) samplePcie = .error .nullMbuf ∧
    ¬ ∀ h e rest, samplePcie = h ++ e :: rest →
      ∃ s, run step (init .pcie) h = .ok s ∧ Sound s e := by
  refine ⟨rfl, fun hall => ?_⟩
  obtain ⟨s, hs, hsound⟩ := hall [.queue, .queue] _ [] rfl
  obtain rfl := Except.ok.inj hs
  obtain ⟨t, ret, ht, -⟩ := hsound.batch _ _ rfl (by decide) (by decide)
  cases ht

end Uwe5631.TxBatches
