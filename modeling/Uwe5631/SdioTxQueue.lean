import Uwe5631.SdioPacker
import Uwe5631.FallibleRuns

/-!
# The transmit queue

Chains of mbufs are put into the queue by `sdiohal_tx_list_enq` and taken out in batches by
`sdiohal_tx_find_data_list`, both under `tx_spinlock`; the headers are filled in before the lock is
taken, which changes no link. The mbufs that are not in the queue belong to others, who may change
them at any time.
-/
namespace Uwe5631.Sdio
open LinkedChains FallibleRuns

abbrev MAX_CHAIN_NODE_NUM : ℕ := 100

/-- `struct sdiohal_data_t` with its transmit queue. -/
structure SdiohalTx where
  data : SdiohalData
  txListHead : Chain MbufAddr
  txMbufNum : ℤ

inductive Fault where
  | nullPointer
  deriving DecidableEq, Repr

def deref (m : Option MbufAddr) : Except Fault MbufAddr := m.elim (.error .nullPointer) .ok

/-- The body of the loop of `sdiohal_tx_fill_puh`. -/
def SdiohalData.fillPuh (p : SdiohalData) (channel : ℕ) (m : MbufAddr) : SdiohalData :=
  let hw := sdiohalChannelToHwtype true channel
  let puh : SdioPuh := ⟨(puhAt p.mem (p.mbuf m).buf).checkSum, (p.mbuf m).len, false,
    BitVec.ofNat 4 hw.2, BitVec.ofNat 4 hw.1⟩
  { p with mem := storePuh p.mem (p.mbuf m).buf puh }

/-- The loop of `sdiohal_tx_fill_puh` over the mbufs still to come. -/
def SdiohalData.txFillPuh (channel : ℕ) : ℕ → Option MbufAddr → SdiohalData → SdiohalData
  | 0, _, p => p
  -- `-EFAULT`
  | _ + 1, none, p => p
  | n + 1, some m, p => txFillPuh channel n (p.next m) (p.fillPuh channel m)

def sdiohalTxListEnq (channel : ℕ) (c : Chain MbufAddr) (p : SdiohalTx) : Except Fault SdiohalTx :=
  let data := p.data.txFillPuh channel c.num c.head
  (if p.txMbufNum = 0 then .ok { p with data := data, txListHead.head := c.head }
  else (deref p.txListHead.tail).map fun t => { p with data := data.setNext t c.head }).bind fun p =>
    (deref c.tail).map fun t =>
      { data := p.data.setNext t none
        txListHead := ⟨p.txListHead.head, some t, p.txListHead.num + c.num⟩
        txMbufNum := p.txMbufNum + c.num }

/-- `for (i = 1; i < num; i++) mbuf_node = mbuf_node->next` for the turns still to come. -/
def nodeAt (next : MbufAddr → Option MbufAddr) : ℕ → Option MbufAddr → Except Fault (Option MbufAddr)
  | 0, m => .ok m
  | n + 1, m => (deref m).bind fun m => nodeAt next n (next m)

/-- The `data_list` found, and the data with the mbufs left. -/
def sdiohalTxFindDataList (p : SdiohalTx) : Except Fault (Chain MbufAddr × SdiohalTx) :=
  let num := min p.txListHead.num MAX_CHAIN_NODE_NUM
  (nodeAt p.data.next (num - 1) p.txListHead.head).bind fun m =>
    -- a null pointer has no `next`, neither to go on with nor to be cleared
    (deref m).map fun m =>
      let left := p.txMbufNum - num
      (⟨p.txListHead.head, some m, num⟩,
        { data := p.data.setNext m none
          txListHead := ⟨if left = 0 then none else p.data.next m,
            if left = 0 then none else p.txListHead.tail, p.txListHead.num - num⟩
          txMbufNum := left })

/-! ## Runs of calls -/

/-- A `data_list` that was found, with the links of that moment. -/
structure Found where
  list : Chain MbufAddr
  next : MbufAddr → Option MbufAddr

def Found.mbufs (f : Found) : List MbufAddr := walk f.next f.list.num f.list.head

/-- The mbufs of each chain put into the queue, and the lists found in it. -/
structure TxLog where
  enqueued : List (List MbufAddr)
  found : List Found

inductive TxCall where
  | listEnq (channel : ℕ) (c : Chain MbufAddr)
  | findDataList
  /-- Another part of the driver changes an mbuf. -/
  | write (m : MbufAddr) (mbuf : Mbuf)

def TxCall.step (s : SdiohalTx × TxLog) : TxCall → Except Fault (SdiohalTx × TxLog)
  | listEnq channel c => (sdiohalTxListEnq channel c s.1).map fun p =>
      (p, { s.2 with enqueued := s.2.enqueued ++ [walk s.1.data.next c.num c.head] })
  | findDataList => (sdiohalTxFindDataList s.1).map fun x =>
      (x.2, { s.2 with found := s.2.found ++ [⟨x.1, x.2.data.next⟩] })
  | write m mbuf =>
    .ok ({ s.1 with data := { s.1.data with mbuf := Function.update s.1.data.mbuf m mbuf } }, s.2)

/-- The mbufs in the queue. -/
def SdiohalTx.queue (p : SdiohalTx) : List MbufAddr :=
  walk p.data.next p.txListHead.num p.txListHead.head

/-- Chains put into the queue are well linked and belong to the caller; the queue is looked into if
it is not empty; nobody changes the mbufs in it. -/
def TxCall.Allowed (s : SdiohalTx × TxLog) : TxCall → Prop
  | listEnq _ c => 1 ≤ c.num ∧ ∃ xs, Linked s.1.data.next c xs ∧ s.1.queue.Disjoint xs
  | findDataList => s.1.txMbufNum ≠ 0
  | write m _ => m ∉ s.1.queue

/-- Both counters say how many mbufs are linked from head to tail, and each mbuf put into the queue
is in a list found, in order, or still there. -/
structure Fifo (s : SdiohalTx × TxLog) : Prop where
  holds : Holds s.1.data.next s.1.txListHead s.1.queue
  txMbufNum : s.1.txMbufNum = s.1.queue.length
  order : (s.2.found.map Found.mbufs).flatten ++ s.1.queue = s.2.enqueued.flatten
  found : ∀ f ∈ s.2.found, 1 ≤ f.list.num ∧ f.list.num ≤ MAX_CHAIN_NODE_NUM ∧
    Holds f.next f.list f.mbufs

variable {s : SdiohalTx × TxLog} {p p' : SdiohalTx} {data : SdiohalData} {channel n : ℕ}
  {c : Chain MbufAddr} {xs ys : List MbufAddr} {m t : MbufAddr} {log : TxLog}

theorem txFillPuh_mbuf (channel n : ℕ) (o : Option MbufAddr) (data : SdiohalData) :
    (data.txFillPuh channel n o).mbuf = data.mbuf := by
  induction n generalizing o data with
  | zero => rfl
  | succ n ih =>
    cases o with
    | none => rfl
    | some m => exact ih ..

theorem txFillPuh_next (channel n : ℕ) (o : Option MbufAddr) (data : SdiohalData) :
    (data.txFillPuh channel n o).next = data.next := by
  funext m
  rw [SdiohalData.next, SdiohalData.next, txFillPuh_mbuf]

theorem nodeAt_linked {a : MbufAddr} {next : MbufAddr → Option MbufAddr}
    (hlinked : (a :: xs).IsChain fun a b => next a = some b) (hn : n ≤ xs.length) :
    nodeAt next n (some a) = .ok ((a :: xs).take (n + 1)).getLast? := by
  induction n generalizing a xs with
  | zero => rfl
  | succ n ih =>
    obtain ⟨b, rest, rfl⟩ := List.exists_cons_of_length_pos (Nat.zero_lt_of_lt hn)
    rw [List.isChain_cons_cons] at hlinked
    have hrest := ih hlinked.2 (Nat.le_of_succ_le_succ hn)
    have hstep : nodeAt next (n + 1) (some a) = nodeAt next n (next a) := rfl
    rw [hstep, hlinked.1, hrest, List.take_succ_cons (i := n + 1), List.take_succ_cons, List.getLast?_cons_cons]

/-! ## The calls -/

theorem listEnq_spec (channel : ℕ) (h : Holds p.data.next p.txListHead xs)
    (hnum : p.txMbufNum = xs.length) (hc : Linked p.data.next c ys) (hpos : 1 ≤ c.num)
    (hdisj : xs.Disjoint ys) :
    ∃ p', sdiohalTxListEnq channel c p = .ok p' ∧ Holds p'.data.next p'.txListHead (xs ++ ys) ∧
      p'.txMbufNum = (xs ++ ys).length := by
  have hys : ys ≠ [] := by
    rintro rfl
    exact absurd hc.num (Nat.ne_of_gt hpos)
  obtain ⟨t, ht⟩ : ∃ t, ys.getLast? = some t := ⟨_, List.getLast?_eq_getLast_of_ne_nil hys⟩
  have htail : c.tail = some t := hc.tail.trans ht
  have htxs : t ∉ xs := fun hmem => hdisj hmem (List.mem_of_getLast? ht)
  have hjoined := (h.frame_update htxs).splice (hc.end ht) hys hdisj
  rw [← update_linkBehind h htxs] at hjoined
  have hcount : p.txMbufNum + c.num = (xs ++ ys).length := by
    rw [hnum, hc.num, List.length_append, Nat.cast_add]
  have hfill := txFillPuh_next channel c.num c.head p.data
  rw [sdiohalTxListEnq, htail]
  by_cases hempty : p.txMbufNum = 0
  · have hzero : p.txListHead.num = 0 := by
      rw [h.num]
      omega
    refine ⟨_, by rw [if_pos hempty]; rfl, ?_, hcount⟩
    rw [setNext_next, hfill]
    rw [linkBehind, if_pos hzero, Chain.splice, if_pos hzero, htail] at hjoined
    exact hjoined
  · have hxs : xs ≠ [] := by
      rintro rfl
      exact hempty hnum
    obtain ⟨u, hu⟩ : ∃ u, xs.getLast? = some u := ⟨_, List.getLast?_eq_getLast_of_ne_nil hxs⟩
    have hlast : p.txListHead.tail = some u := (h.tail hxs).trans hu
    have hzero : p.txListHead.num ≠ 0 := by
      rw [h.num]
      omega
    refine ⟨_, by rw [if_neg hempty, hlast]; rfl, ?_, hcount⟩
    rw [setNext_next, setNext_next, hfill]
    rw [linkBehind, if_neg hzero, hlast, Chain.splice, if_neg hzero, htail] at hjoined
    exact hjoined

/-- The first nodes of a chain, found by going along the links, are cut off it. -/
theorem nodeAt_split {next : MbufAddr → Option MbufAddr} (h : Holds next c xs) (hpos : 1 ≤ n)
    (hle : n ≤ xs.length) :
    ∃ m, nodeAt next (n - 1) c.head = .ok (some m) ∧
      Holds (Function.update next m none) ⟨c.head, some m, n⟩ (xs.take n) ∧
      Holds (Function.update next m none)
        ⟨if c.num - n = 0 then none else next m, if c.num - n = 0 then none else c.tail, c.num - n⟩
        (xs.drop n) := by
  have hne : xs ≠ [] := by
    rintro rfl
    exact absurd (hpos.trans hle) (by simp)
  obtain ⟨a, rest, rfl⟩ := List.exists_cons_of_ne_nil hne
  have hrest : n - 1 ≤ rest.length := by
    rw [List.length_cons] at hle
    omega
  have hnode := nodeAt_linked h.linked hrest
  rw [Nat.sub_add_cancel hpos] at hnode
  have htake : ((a :: rest).take n).length = n := by
    rw [List.length_take]
    exact Nat.min_eq_left hle
  have hdrop : ((a :: rest).drop n).length = c.num - n := by
    rw [List.length_drop, h.num]
  obtain ⟨m, hm⟩ : ∃ m, ((a :: rest).take n).getLast? = some m := by
    refine ⟨_, List.getLast?_eq_getLast_of_ne_nil fun hnil => ?_⟩
    rw [hnil] at htake
    exact absurd htake (Nat.ne_of_lt hpos)
  have hsplit := h
  rw [← List.take_append_drop n (a :: rest)] at hsplit
  obtain ⟨hfront, hback⟩ := hsplit.split hm
  rw [htake] at hfront
  rw [hdrop] at hback
  refine ⟨m, ?_, hfront, ?_⟩
  · rw [h.head hne, List.head?_cons, hnode, hm]
  · split
    · rename_i hzero
      rw [hzero] at hdrop
      rw [List.eq_nil_of_length_eq_zero hdrop, hzero]
      exact holds_empty ..
    · exact hback

theorem findDataList_spec (h : Holds p.data.next p.txListHead xs) (hnum : p.txMbufNum = xs.length)
    (hne : xs ≠ []) :
    ∃ d p', sdiohalTxFindDataList p = .ok (d, p') ∧ 1 ≤ d.num ∧ d.num ≤ MAX_CHAIN_NODE_NUM ∧
      Holds p'.data.next d (xs.take d.num) ∧ Holds p'.data.next p'.txListHead (xs.drop d.num) ∧
      p'.txMbufNum = (xs.drop d.num).length := by
  obtain ⟨num, hmin⟩ : ∃ num, min p.txListHead.num MAX_CHAIN_NODE_NUM = num := ⟨_, rfl⟩
  have hlen := h.num
  have hpos := List.length_pos_of_ne_nil hne
  have hmin' : min p.txListHead.num 100 = num := hmin
  have hbounds : 1 ≤ num ∧ num ≤ xs.length ∧ num ≤ 100 := by omega
  obtain ⟨m, hnode, hfront, hback⟩ := nodeAt_split h hbounds.1 hbounds.2.1
  have hleft : p.txMbufNum - num = ((xs.drop num).length : ℤ) := by
    rw [List.length_drop, hnum]
    omega
  have hempty : p.txMbufNum - num = 0 ↔ p.txListHead.num - num = 0 := by omega
  have hfound : sdiohalTxFindDataList p = .ok (⟨p.txListHead.head, some m, num⟩,
      { data := p.data.setNext m none
        txListHead := ⟨if p.txMbufNum - num = 0 then none else p.data.next m,
          if p.txMbufNum - num = 0 then none else p.txListHead.tail, p.txListHead.num - num⟩
        txMbufNum := p.txMbufNum - num }) := by
    rw [sdiohalTxFindDataList, hmin, hnode]
    rfl
  refine ⟨_, _, hfound, hbounds.1, hbounds.2.2, ?_, ?_, hleft⟩
  · rw [setNext_next]
    exact hfront
  · simp only [setNext_next, hempty]
    exact hback

/-! ## Whole runs -/

theorem Fifo.of_holds (h : Holds p.data.next p.txListHead xs) (hnum : p.txMbufNum = xs.length)
    (horder : (log.found.map Found.mbufs).flatten ++ xs = log.enqueued.flatten)
    (hfound : ∀ f ∈ log.found, 1 ≤ f.list.num ∧ f.list.num ≤ MAX_CHAIN_NODE_NUM ∧
      Holds f.next f.list f.mbufs) : Fifo (p, log) := by
  obtain rfl : p.queue = xs := h.walk
  exact ⟨h, hnum, horder, hfound⟩

theorem Fifo.step {e : TxCall} (h : Fifo s) (he : e.Allowed s) :
    ∃ s', TxCall.step s e = .ok s' ∧ Fifo s' := by
  obtain ⟨p, log⟩ := s
  have hholds := h.holds
  cases e with
  | listEnq channel c =>
    obtain ⟨hpos, ys, hc, hdisj⟩ := he
    obtain ⟨p', henq, hholds', hnum'⟩ := listEnq_spec channel hholds h.txMbufNum hc hpos hdisj
    have hstep : TxCall.step (p, log) (.listEnq channel c) = .ok (p',
        { log with enqueued := log.enqueued ++ [walk p.data.next c.num c.head] }) := by
      rw [TxCall.step, henq, ok_map]
    refine ⟨_, hstep, .of_holds hholds' hnum' ?_ h.found⟩
    have horder := h.order
    dsimp only at horder ⊢
    rw [hc.walk, ← List.append_assoc, horder, List.flatten_append, List.flatten_singleton]
  | findDataList =>
    have hne : p.queue ≠ [] := by
      intro hnil
      have hnum := h.txMbufNum
      rw [hnil] at hnum
      exact he hnum
    obtain ⟨d, p', hfind, hpos, hmax, hfound, hholds', hnum'⟩ :=
      findDataList_spec hholds h.txMbufNum hne
    have hmbufs : Found.mbufs ⟨d, p'.data.next⟩ = p.queue.take d.num := hfound.walk
    have hstep : TxCall.step (p, log) .findDataList = .ok (p',
        { log with found := log.found ++ [⟨d, p'.data.next⟩] }) := by
      rw [TxCall.step, hfind, ok_map]
    refine ⟨_, hstep, .of_holds hholds' hnum' ?_ fun f hf => ?_⟩
    · have horder := h.order
      dsimp only at horder ⊢
      rw [List.map_append, List.map_singleton, List.flatten_append, List.flatten_singleton, hmbufs,
        List.append_assoc, List.take_append_drop, horder]
    · rcases List.mem_append.mp hf with hf | hf
      · exact h.found f hf
      · obtain rfl := List.mem_singleton.mp hf
        exact ⟨hpos, hmax, hmbufs ▸ hfound⟩
  | write m mbuf =>
    refine ⟨_, rfl, .of_holds (hholds.frame fun x hx => ?_) h.txMbufNum h.order h.found⟩
    have hxm : x ≠ m := ne_of_mem_of_not_mem hx he
    exact congrArg Mbuf.next (Function.update_of_ne hxm ..)

/-- From an empty queue on, calls with well-linked chains and looks into a queue that is not empty
go through, and what they find is what was put in, in order. -/
theorem tx_queue_fifo {p : SdiohalTx} {calls : List TxCall} (hhead : p.txListHead.num = 0)
    (hnum : p.txMbufNum = 0) (h : Along TxCall.step (fun s e => e.Allowed s) (p, ⟨[], []⟩) calls) :
    ∃ s, run TxCall.step (p, ⟨[], []⟩) calls = .ok s ∧ Fifo s := by
  have hqueue : p.queue = [] := by
    rw [SdiohalTx.queue, hhead]
    rfl
  have hstart : Fifo (p, ⟨[], []⟩) := by
    refine ⟨?_, ?_, ?_, fun f hf => absurd hf List.not_mem_nil⟩
    · rw [hqueue]
      have hempty : p.txListHead = ⟨p.txListHead.head, p.txListHead.tail, 0⟩ := by rw [← hhead]
      rw [hempty]
      exact holds_empty ..
    · rw [hqueue]
      exact hnum
    · rw [hqueue]
      rfl
  exact run_completes (fun _ _ hI he => hI.step he) hstart h

/-- Each mbuf is linked to the one behind it. -/
def rowOfMbufs : SdiohalTx where
  data := { sampleRxData with mbuf := fun m => ⟨some (m + 1), 0, 0⟩ }
  txListHead := ⟨none, none, 0⟩
  txMbufNum := 0

theorem rowOfMbufs_linked :
    Linked rowOfMbufs.data.next ⟨some 0, some 100, 101⟩ (List.range' 0 101) where
  num := rfl
  head := rfl
  tail := rfl
  linked := (List.isChain_range' 0 101 1).imp fun a b hab => congrArg some hab.symm
  nodup := List.nodup_range'

/-- A chain of 101 mbufs and one of two behind it are found in two batches. -/
theorem two_chains_found : ∃ s, run TxCall.step (rowOfMbufs, ⟨[], []⟩)
    [.listEnq 1 ⟨some 0, some 100, 101⟩, .listEnq 1 ⟨some 200, some 201, 2⟩, .findDataList,
      .findDataList] = .ok s ∧ Fifo s := by
  have hempty : Holds rowOfMbufs.data.next rowOfMbufs.txListHead [] := holds_empty ..
  obtain ⟨p₁, henq₁, hholds₁, hnum₁⟩ := listEnq_spec 1 hempty rfl rowOfMbufs_linked (by decide)
    (List.disjoint_nil_left _)
  have hsecond : Linked p₁.data.next ⟨some 200, some 201, 2⟩ [200, 201] := by
    cases henq₁
    refine ⟨rfl, rfl, rfl, .cons_cons ?_ (.singleton 201), by decide⟩
    rw [setNext_next, txFillPuh_next]
    rfl
  have hdisj : ([] ++ List.range' 0 101).Disjoint [200, 201] := by
    intro a ha hb
    simp only [List.nil_append, List.mem_range'_1, List.mem_cons, List.not_mem_nil, or_false] at ha hb
    omega
  obtain ⟨p₂, henq₂, hholds₂, hnum₂⟩ := listEnq_spec 1 hholds₁ hnum₁ hsecond (by decide) hdisj
  obtain ⟨d, p₃, hfind, -, hmax, -, -, hnum₃⟩ := findDataList_spec hholds₂ hnum₂ (by decide)
  have hlength : ([] ++ List.range' 0 101 ++ [200, 201]).length = 103 := rfl
  rw [hlength] at hnum₂
  rw [List.length_drop, hlength] at hnum₃
  refine tx_queue_fifo rfl rfl ⟨⟨by decide, _, rowOfMbufs_linked, List.disjoint_nil_left _⟩,
    fun s₁ hs₁ => ⟨?_, fun s₂ hs₂ => ⟨?_, fun s₃ hs₃ => ⟨?_, fun _ _ => True.intro⟩⟩⟩⟩
  all_goals
    rw [TxCall.step, henq₁] at hs₁
    cases hs₁
  · exact ⟨by decide, _, hsecond, by rw [SdiohalTx.queue, hholds₁.walk]; exact hdisj⟩
  all_goals
    rw [TxCall.step, henq₂] at hs₂
    cases hs₂
  · exact ne_of_eq_of_ne hnum₂ (by decide)
  · rw [TxCall.step, hfind] at hs₃
    cases hs₃
    have hleft : p₃.txMbufNum ≠ 0 := by
      rw [hnum₃]
      have : d.num ≤ 100 := hmax
      omega
    exact hleft

end Uwe5631.Sdio
