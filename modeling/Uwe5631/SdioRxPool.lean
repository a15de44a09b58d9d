import Uwe5631.SdioTxQueue
import Uwe5631.PageFragments

/-!
# The pool of receive mbufs

`list_rx_buf` gives chains of mbufs to those who receive packets, with or without buffers, and gets
them back by `sdiohal_rx_list_free`. Who has an mbuf may change it at any time.
-/
namespace Uwe5631.Sdio
open LinkedChains FallibleRuns

/-- `struct sdiohal_data_t` with the fragments its mbufs point to, and the mbufs that are not in the
pool. -/
structure SdiohalRx where
  data : SdiohalData
  frag : FragState
  taken : List MbufAddr

/-- A list without its mbufs up to `m`. -/
def SdiohalList.takeFront (l : SdiohalList) (num : ℕ) (next : Option MbufAddr) : SdiohalList :=
  { l with
    mbufHead := if l.nodeNum - num = 0 then none else next
    mbufTail := if l.nodeNum - num = 0 then none else l.mbufTail
    nodeNum := l.nodeNum - num }

/-- `sdiohal_get_rx_mbuf_node(num)`: the `idle_list`, or `none` for a null pointer. -/
def sdiohalGetRxMbufNodes (num : ℕ) (p : SdiohalData) :
    Except Fault (Option (Chain MbufAddr) × SdiohalData) :=
  let l := p.list .rxBuf
  if num = 0 then .ok (none, p)
  else if l.nodeNum < num then .ok (none, p)
  else if p.kzalloc = 0 then .ok (none, p)
  else
    (nodeAt p.next (num - 1) l.mbufHead).bind fun m => (deref m).map fun m =>
      (some ⟨l.mbufHead, some m, num⟩,
        ({ p with kzalloc := p.kzalloc - 1 }.setList .rxBuf (l.takeFront num (p.next m))).setNext m none)

/-- `sdiohal_rx_list_free` -/
def SdiohalRx.rxListFree (s : SdiohalRx) (c : Chain MbufAddr) : SdiohalRx :=
  let bufs := (walk s.data.next c.num c.head).map fun m => (s.data.mbuf m).buf
  { s with
    data := sdiohalRxListFree s.data c.head c.tail c.num
    frag := (bufs.filter (· ≠ 0)).foldl FragState.putPage s.frag }

variable {z : FragSizes}

/-- `mbuf->buf` is what `sdiohal_alloc_frag` has returned. -/
def SdiohalRx.gotFrag (s : SdiohalRx) (m : MbufAddr) (r : Option ℕ × FragState) : SdiohalRx :=
  { s with
    frag := r.2
    data := s.data.setBuf m (r.1.getD 0) (s.data.mbuf m).len }

/-- The loop of `sdiohal_get_rx_mbuf_list` for the fragments still to be asked for: whether all
were had. -/
def fillMbufs : List (FragRequest z) → Option MbufAddr → SdiohalRx → Except Fault (Bool × SdiohalRx)
  | [], _, s => .ok (true, s)
  | request :: requests, m, s => (deref m).bind fun m =>
    let r := sdiohalAllocFrag MAX_MBUF_SIZE request s.frag
    let s := s.gotFrag m r
    if r.1 = none then .ok (false, s) else fillMbufs requests (s.data.next m) s

/-- `sdiohal_get_rx_mbuf_list`, with a request for each of the mbufs. -/
def sdiohalGetRxMbufList (requests : List (FragRequest z)) (s : SdiohalRx) :
    Except Fault (Option (Chain MbufAddr) × SdiohalRx) :=
  (sdiohalGetRxMbufNodes requests.length s.data).bind fun x =>
    match x.1 with
    | none => .ok (none, { s with data := x.2 })
    | some c => (fillMbufs requests c.head { s with data := x.2 }).map fun y =>
      if y.1 then (some c, y.2) else (none, y.2.rxListFree c)

/-! ## Runs of calls -/

inductive RxCall (z : FragSizes) where
  | getNodes (num : ℕ)
  | getList (requests : List (FragRequest z))
  | listFree (c : Chain MbufAddr)
  /-- A fragment is released by those it was passed on to. -/
  | putPage (data : ℕ)
  /-- Who has an mbuf changes it. -/
  | write (m : MbufAddr) (mbuf : Mbuf)
  /-- So many allocations succeed from now on. -/
  | kzalloc (n : ℕ)

/-- The mbufs of a list that was given out. -/
def SdiohalRx.give (s : SdiohalRx) (c : Option (Chain MbufAddr)) : SdiohalRx :=
  { s with taken := (c.elim [] fun c => walk s.data.next c.num c.head) ++ s.taken }

def RxCall.step (s : SdiohalRx) : RxCall z → Except Fault SdiohalRx
  | getNodes num => (sdiohalGetRxMbufNodes num s.data).map fun x =>
      SdiohalRx.give { s with data := x.2 } x.1
  | getList requests => (sdiohalGetRxMbufList requests s).map fun x => x.2.give x.1
  | listFree c =>
    .ok { s.rxListFree c with taken := s.taken.diff (walk s.data.next c.num c.head) }
  | putPage data => .ok { s with frag := s.frag.putPage data }
  | write m mbuf => .ok { s with data := { s.data with mbuf := Function.update s.data.mbuf m mbuf } }
  | kzalloc n => .ok { s with data := { s.data with kzalloc := n } }

/-- The mbufs in the pool. -/
def SdiohalRx.pool (s : SdiohalRx) : List MbufAddr := s.data.nodes .rxBuf

/-- Well-formed chains of mbufs that were given out come back, and nobody changes those in the
pool. -/
def RxCall.Allowed (s : SdiohalRx) : RxCall z → Prop
  | listFree c => ∃ xs, xs ≠ [] ∧ Holds s.data.next c xs ∧ xs ⊆ s.taken
  | write m _ => m ∉ s.pool
  | _ => True

/-- The pool is linked from head to tail with the right count, and each mbuf is in it or given
out. -/
structure Pooled (nodes : List MbufAddr) (s : SdiohalRx) : Prop where
  holds : Holds s.data.next (s.data.list .rxBuf).chain s.pool
  conserved : (s.pool ++ s.taken).Perm nodes

variable {s s' : SdiohalRx} {p p' : SdiohalData} {c : Chain MbufAddr} {xs nodes : List MbufAddr}
  {num : ℕ} {m : MbufAddr}

/-! ## The calls -/

theorem getNodes_spec (num : ℕ) (h : Holds p.next (p.list .rxBuf).chain xs) :
    sdiohalGetRxMbufNodes num p = .ok (none, p) ∨
      ∃ c p', sdiohalGetRxMbufNodes num p = .ok (some c, p') ∧ 1 ≤ num ∧ num ≤ xs.length ∧
        Holds p'.next c (xs.take num) ∧ Holds p'.next (p'.list .rxBuf).chain (xs.drop num) := by
  rw [sdiohalGetRxMbufNodes]
  split
  · exact .inl rfl
  rename_i hpos
  split
  · exact .inl rfl
  rename_i hmany
  split
  · exact .inl rfl
  have hlen : (p.list .rxBuf).nodeNum = xs.length := h.num
  have hle : num ≤ xs.length := by omega
  obtain ⟨m, hnode, hfront, hback⟩ := nodeAt_split h (Nat.pos_of_ne_zero hpos) hle
  have hhead : (p.list .rxBuf).chain.head = (p.list .rxBuf).mbufHead := rfl
  rw [← hhead, hnode]
  refine .inr ⟨_, _, rfl, Nat.pos_of_ne_zero hpos, hle, ?_, ?_⟩
  · rw [setNext_next]
    exact hfront
  · rw [setNext_next]
    have hlist : ((({ p with kzalloc := p.kzalloc - 1 }.setList .rxBuf
        ((p.list .rxBuf).takeFront num (p.next m))).setNext m none).list) =
        Function.update p.list .rxBuf ((p.list .rxBuf).takeFront num (p.next m)) := rfl
    rw [hlist, Function.update_self]
    exact hback

/-- The parser takes lists of one mbuf. -/
theorem getNodes_one (h : Holds p.next (p.list .rxBuf).chain xs) :
    sdiohalGetRxMbufNodes 1 p = .ok ((sdiohalGetRxMbufNode p).elim (none, p) fun x =>
      (some ⟨some x.1, some x.1, 1⟩, x.2)) := by
  rw [sdiohalGetRxMbufNodes, sdiohalGetRxMbufNode, if_neg Nat.one_ne_zero]
  by_cases hnum : (p.list .rxBuf).nodeNum < 1
  · rw [if_pos hnum, if_pos hnum]
    rfl
  by_cases halloc : p.kzalloc = 0
  · rw [if_neg hnum, if_neg hnum, if_pos halloc, if_pos halloc]
    rfl
  have hlen : (p.list .rxBuf).nodeNum = xs.length := h.num
  have hne : xs ≠ [] := List.ne_nil_of_length_pos (by omega)
  obtain ⟨a, rest, rfl⟩ := List.exists_cons_of_ne_nil hne
  have hhead : (p.list .rxBuf).mbufHead = some a := h.head hne
  rw [if_neg hnum, if_neg hnum, if_neg halloc, if_neg halloc, hhead]
  rfl

theorem listFree_spec (h : Holds s.data.next (s.data.list .rxBuf).chain nodes)
    (hc : Holds s.data.next c xs) (hne : xs ≠ []) (hdisj : nodes.Disjoint xs) :
    Holds (s.rxListFree c).data.next ((s.rxListFree c).data.list .rxBuf).chain (nodes ++ xs) := by
  have hspliced := h.splice hc hne hdisj
  have hlist : ((s.rxListFree c).data.list .rxBuf).chain = (s.data.list .rxBuf).chain.splice c := by
    rw [SdiohalRx.rxListFree]
    dsimp only
    rw [rxListFree_list, Function.update_self]
    rfl
  have hnext : (s.rxListFree c).data.next = linkBehind s.data.next (s.data.list .rxBuf).chain c.head :=
    rxListFree_next ..
  rw [hlist, hnext]
  exact hspliced

theorem gotFrag_next (s : SdiohalRx) (m : MbufAddr) (r : Option ℕ × FragState) :
    (s.gotFrag m r).data.next = s.data.next := setBuf_next ..

/-- Giving buffers to mbufs goes along the list and changes no link. -/
theorem fillMbufs_spec (requests : List (FragRequest z)) {a : MbufAddr} {s : SdiohalRx}
    (hlinked : (a :: xs).IsChain fun a b => s.data.next a = some b)
    (hlen : requests.length ≤ (a :: xs).length) :
    ∃ full s', fillMbufs requests (some a) s = .ok (full, s') ∧ s'.data.next = s.data.next ∧
      s'.data.list = s.data.list ∧ s'.taken = s.taken := by
  induction requests generalizing a xs s with
  | nil => exact ⟨true, s, rfl, rfl, rfl, rfl⟩
  | cons request requests ih =>
    have hturn : fillMbufs (request :: requests) (some a) s =
        if (sdiohalAllocFrag MAX_MBUF_SIZE request s.frag).1 = none then
          .ok (false, s.gotFrag a (sdiohalAllocFrag MAX_MBUF_SIZE request s.frag))
        else fillMbufs requests (s.data.next a)
          (s.gotFrag a (sdiohalAllocFrag MAX_MBUF_SIZE request s.frag)) := by
      rw [← gotFrag_next s a (sdiohalAllocFrag MAX_MBUF_SIZE request s.frag)]
      rfl
    rw [hturn]
    split
    · exact ⟨false, _, rfl, gotFrag_next .., rfl, rfl⟩
    cases requests with
    | nil => exact ⟨true, _, rfl, gotFrag_next .., rfl, rfl⟩
    | cons request' requests =>
      obtain ⟨b, rest, rfl⟩ := List.exists_cons_of_length_pos
        (Nat.lt_of_lt_of_le (Nat.zero_lt_succ _) (Nat.le_of_succ_le_succ hlen))
      rw [List.isChain_cons_cons] at hlinked
      have hlinked' : (b :: rest).IsChain fun x y =>
          (s.gotFrag a (sdiohalAllocFrag MAX_MBUF_SIZE request s.frag)).data.next x = some y := by
        rw [gotFrag_next]
        exact hlinked.2
      obtain ⟨full, s', hfill, hnext, hlist, htaken⟩ := ih hlinked' (Nat.le_of_succ_le_succ hlen)
      rw [hlinked.1]
      exact ⟨full, s', hfill, hnext.trans (gotFrag_next ..), hlist, htaken⟩

/-- Some mbufs of the pool have become a list that is given out, and the others are still in it. -/
structure Gives (xs : List MbufAddr) (s : SdiohalRx) (c : Option (Chain MbufAddr)) (s' : SdiohalRx) :
    Prop where
  taken : s'.taken = s.taken
  conserved : ((c.elim [] fun c => walk s'.data.next c.num c.head) ++ s'.pool).Perm xs
  holds : Holds s'.data.next (s'.data.list .rxBuf).chain s'.pool

theorem Gives.of_holds {ys given : List MbufAddr} {o : Option (Chain MbufAddr)}
    (h : Holds s'.data.next (s'.data.list .rxBuf).chain ys) (htaken : s'.taken = s.taken)
    (hgiven : (o.elim [] fun c => walk s'.data.next c.num c.head) = given)
    (hperm : (given ++ ys).Perm xs) : Gives xs s o s' := by
  obtain rfl : s'.pool = ys := h.walk
  exact ⟨htaken, hgiven ▸ hperm, h⟩

theorem getNodes_gives (num : ℕ) (h : Holds s.data.next (s.data.list .rxBuf).chain xs) :
    ∃ o p, sdiohalGetRxMbufNodes num s.data = .ok (o, p) ∧ Gives xs s o { s with data := p } := by
  rcases getNodes_spec num h with hnone | ⟨c, p, hsome, -, -, hc, hrest⟩
  · exact ⟨none, s.data, hnone, .of_holds h rfl rfl (.refl xs)⟩
  · refine ⟨some c, p, hsome, .of_holds hrest rfl hc.walk ?_⟩
    rw [List.take_append_drop]

/-- A list for which a fragment is missing goes back to the pool whole. -/
theorem getList_gives (requests : List (FragRequest z))
    (h : Holds s.data.next (s.data.list .rxBuf).chain xs) :
    ∃ o s', sdiohalGetRxMbufList requests s = .ok (o, s') ∧ Gives xs s o s' := by
  rw [sdiohalGetRxMbufList]
  rcases getNodes_spec requests.length h with hnone | ⟨c, p, hsome, hpos, hle, hc, hrest⟩
  · rw [hnone]
    exact ⟨none, s, rfl, .of_holds h rfl rfl (.refl xs)⟩
  have hlen : (xs.take requests.length).length = requests.length := by
    rw [List.length_take]
    exact Nat.min_eq_left hle
  have hne : xs.take requests.length ≠ [] := fun hnil => by
    rw [hnil] at hlen
    exact Nat.ne_of_lt hpos hlen
  obtain ⟨a, front, hfront⟩ := List.exists_cons_of_ne_nil hne
  have hhead : c.head = some a := by
    rw [hc.head hne, hfront]
    rfl
  have hlinked := hc.linked
  rw [hfront] at hlinked hlen
  obtain ⟨full, t, hfill, hnext, hlist, htaken⟩ :=
    fillMbufs_spec requests (s := { s with data := p }) hlinked hlen.ge
  have hct : Holds t.data.next c (xs.take requests.length) := by
    rw [hnext]
    exact hc
  have hrestt : Holds t.data.next (t.data.list .rxBuf).chain (xs.drop requests.length) := by
    rw [hnext, hlist]
    exact hrest
  rw [hsome, ok_bind]
  dsimp only
  rw [hhead, hfill, ok_map]
  cases full with
  | true =>
    refine ⟨some c, t, rfl, .of_holds hrestt htaken hct.walk ?_⟩
    rw [List.take_append_drop]
  | false =>
    have hdisj : (xs.drop requests.length).Disjoint (xs.take requests.length) :=
      (List.disjoint_take_drop h.nodup (Nat.le_refl _)).symm
    have hperm : (xs.drop requests.length ++ xs.take requests.length).Perm xs := by
      refine List.perm_append_comm.trans ?_
      rw [List.take_append_drop]
    exact ⟨none, t.rxListFree c, rfl,
      .of_holds (listFree_spec hrestt hct hne hdisj) htaken rfl hperm⟩

/-! ## Whole runs -/

theorem Pooled.of_holds (h : Holds s.data.next (s.data.list .rxBuf).chain xs)
    (hperm : (xs ++ s.taken).Perm nodes) : Pooled nodes s := by
  obtain rfl : s.pool = xs := h.walk
  exact ⟨h, hperm⟩

theorem Pooled.give {o : Option (Chain MbufAddr)} (h : Pooled nodes s) (hgives : Gives s.pool s o s') :
    Pooled nodes (s'.give o) := by
  refine .of_holds hgives.holds (List.Perm.trans ?_ h.conserved)
  rw [SdiohalRx.give, hgives.taken, ← List.append_assoc]
  exact (List.perm_append_comm.trans hgives.conserved).append_right _

theorem Pooled.step {e : RxCall z} (hnodup : nodes.Nodup) (h : Pooled nodes s) (he : e.Allowed s) :
    ∃ s', e.step s = .ok s' ∧ Pooled nodes s' := by
  cases e with
  | getNodes num =>
    obtain ⟨o, p, hget, hgives⟩ := getNodes_gives num h.holds
    exact ⟨_, by rw [RxCall.step, hget, ok_map], h.give hgives⟩
  | getList requests =>
    obtain ⟨o, s', hget, hgives⟩ := getList_gives requests h.holds
    exact ⟨_, by rw [RxCall.step, hget, ok_map], h.give hgives⟩
  | listFree c =>
    obtain ⟨xs, hne, hc, hsub⟩ := he
    have hdisj : s.pool.Disjoint s.taken :=
      (List.nodup_append'.mp (h.conserved.nodup_iff.mpr hnodup)).2.2
    refine ⟨_, rfl, .of_holds (listFree_spec h.holds hc hne fun x hx hx' => hdisj hx (hsub hx')) ?_⟩
    refine List.Perm.trans ?_ h.conserved
    rw [hc.walk, List.append_assoc]
    refine List.Perm.append_left _ (List.subperm_append_diff_self_of_count_le fun x hx => ?_)
    rw [List.count_eq_one_of_mem hc.nodup hx]
    exact List.one_le_count_iff.mpr (hsub hx)
  | putPage data => exact ⟨_, rfl, h.holds, h.conserved⟩
  | write m mbuf =>
    refine ⟨_, rfl, .of_holds (h.holds.frame fun x hx => ?_) h.conserved⟩
    have hxm : x ≠ m := ne_of_mem_of_not_mem hx he
    exact congrArg Mbuf.next (Function.update_of_ne hxm ..)
  | kzalloc n => exact ⟨_, rfl, h.holds, h.conserved⟩

/-- The pool has as many mbufs as it counts, none of them is given out, and together they are as many
as at the start. A list that cannot be filled leaves the pool with the mbufs it had. -/
structure PoolConserved (z : FragSizes) (nodes : List MbufAddr) (s : SdiohalRx) : Prop where
  holds : Holds s.data.next (s.data.list .rxBuf).chain s.pool
  apart : s.pool.Disjoint s.taken
  total : s.pool.length + s.taken.length = nodes.length
  givesBack : ∀ requests : List (FragRequest z), ∃ o s', sdiohalGetRxMbufList requests s = .ok (o, s') ∧
    (o = none → s'.pool.Perm s.pool ∧ s'.taken = s.taken)

theorem Pooled.poolConserved (hnodup : nodes.Nodup) (h : Pooled nodes s) : PoolConserved z nodes s where
  holds := h.holds
  apart := (List.nodup_append'.mp (h.conserved.nodup_iff.mpr hnodup)).2.2
  total := by
    rw [← List.length_append]
    exact h.conserved.length_eq
  givesBack requests := by
    obtain ⟨o, s', hget, hgives⟩ := getList_gives requests h.holds
    refine ⟨o, s', hget, ?_⟩
    rintro rfl
    exact ⟨hgives.conserved, hgives.taken⟩

/-- Whatever is taken and given back, with whatever failures. -/
theorem rx_pool_conserved {calls : List (RxCall z)}
    (hpool : Holds s.data.next (s.data.list .rxBuf).chain nodes) (htaken : s.taken = [])
    (h : Along RxCall.step (fun s e => e.Allowed s) s calls) :
    ∃ t, run RxCall.step s calls = .ok t ∧ PoolConserved z nodes t := by
  have hstart : Pooled nodes s := by
    refine .of_holds hpool ?_
    rw [htaken, List.append_nil]
  obtain ⟨t, ht, hpooled⟩ := run_completes (fun _ _ hI he => hI.step hpool.nodup he) hstart h
  exact ⟨t, ht, hpooled.poolConserved hpool.nodup⟩

/-- A row of five mbufs, and a block with room for one more fragment. -/
def sampleRx : SdiohalRx where
  data := { sampleRxData with
    mbuf := fun m => ⟨if m < 4 then some (m + 1) else none, 0, 0⟩
    list := fun i => if i = .rxBuf then ⟨some 0, some 4, 0, 0, 5⟩ else ⟨none, none, 0, 0, 0⟩ }
  frag := ⟨⟨some 4096, 4096 * 63 + 2048, 4096 * 64, 1⟩, true,
    ⟨fun _ => 1, fun _ => 4096 * 64, fun _ => 4096⟩, []⟩
  taken := []

/-- No page is left. -/
def noBlock : PageAlloc pages4K where
  allocPages _ _ := none
  pos _ _ _ h := by cases h
  free _ _ _ h := by cases h

/-- Two mbufs go and come back, and then a list of three fails at its second mbuf. -/
theorem failed_list_given_back : ∃ t, run RxCall.step sampleRx
    [.getNodes 2, .listFree ⟨some 0, some 1, 2⟩, .kzalloc 1,
      .getList [⟨noBlock, []⟩, ⟨noBlock, []⟩, ⟨noBlock, []⟩]] = .ok t ∧
    PoolConserved pages4K [0, 1, 2, 3, 4] t := by
  have hpool : Holds sampleRx.data.next (sampleRx.data.list .rxBuf).chain [0, 1, 2, 3, 4] := by
    refine ⟨rfl, fun _ => rfl, fun _ => rfl, ?_, fun a ha => ?_, by decide⟩
    · exact .cons_cons rfl (.cons_cons rfl (.cons_cons rfl (.cons_cons rfl (.singleton 4))))
    · cases ha
      rfl
  refine rx_pool_conserved hpool rfl ⟨True.intro, fun t ht => ?_⟩
  cases ht
  refine ⟨⟨[0, 1], List.cons_ne_nil 0 [1], ?_, List.Subset.refl _⟩, fun t ht => ?_⟩
  · refine ⟨rfl, fun _ => rfl, fun _ => rfl, .cons_cons rfl (.singleton 1), fun a ha => ?_, by decide⟩
    cases ha
    rfl
  · exact ⟨True.intro, fun t' ht' => ⟨True.intro, fun _ _ => True.intro⟩⟩

end Uwe5631.Sdio
