import Uwe5631.DefragStore

/-!
# Conservation of buffers in reassembly

Every buffer given to `defrag_data_process` is dropped, copied into a returned buffer and
freed, passed on whole, or queued in one node.
-/
namespace Uwe5631.Defrag
open FallibleRuns RecencyList

variable {e e₁ e' : RxDefragEntry} {a b : NodeAddr} {d : RxMsduDesc} {pskb x : Skb}
  {alloc : Bool} {ev : Event} {given : List Skb}

/-- The buffers that a returned one is, or is made of. -/
def Returned.skbs : Returned → List Skb
  | .whole skb => [skb]
  | .msdu m => m.copies.map Copy.skb

/-- The fragments that a returned buffer is made of; they are freed. -/
def Returned.fragments : Returned → List Skb
  | .whole _ => []
  | .msdu m => m.copies.map Copy.skb

/-- The buffers in the queues of the nodes. -/
def RxDefragEntry.queued (e : RxDefragEntry) : List Skb :=
  e.list.flatMap fun a => (e.node a).skbList

/-- The buffer an event gives to `defrag_data_process`. -/
def Event.skbs : Event → List Skb
  | .data pskb _ => [pskb]
  | .recover .. => []

/-! ## Queues -/

theorem queued_count (e : RxDefragEntry) (x : Skb) :
    e.queued.count x = (e.list.map fun a => (e.node a).skbList.count x).sum := by
  rw [RxDefragEntry.queued, List.count_flatMap]
  rfl

theorem queued_onNode (hl : e.list.Nodup) (ha : a ∈ e.list) (f : RxDefragNode → RxDefragNode)
    (x : Skb) : (e.onNode a f).queued.count x + (e.node a).skbList.count x =
      e.queued.count x + (f (e.node a)).skbList.count x := by
  rw [queued_count, queued_count, onNode_list]
  have hsum := sum_update (fun b => (e.node b).skbList.count x)
    (fun b => ((e.onNode a f).node b).skbList.count x) hl ha
    fun b hb => by rw [onNode_ne _ _ _ hb]
  simpa using hsum

theorem queued_congr (hlist : e'.list.Perm e.list) (hnode : e'.node = e.node) (x : Skb) :
    e'.queued.count x = e.queued.count x := by
  rw [RxDefragEntry.queued, RxDefragEntry.queued, hnode]
  exact (hlist.flatMap_right _).count_eq x

theorem queued_queueTail (pskb : Skb) (hl : e.list.Nodup) (ha : a ∈ e.list) (x : Skb) :
    (e.queueTail a pskb).queued.count x = e.queued.count x + [pskb].count x := by
  have h := queued_onNode hl ha (fun n =>
    { n with
      skbList := n.skbList ++ [pskb]
      msduLen := n.msduLen + pskb.desc.fragLen.setWidth 32 }) x
  simp only [List.count_append] at h
  rw [RxDefragEntry.queueTail]
  omega

theorem queued_emptied (hl : e.list.Nodup) (ha : a ∈ e.list) (x : Skb) :
    (e.onNode a fun n => { n with skbList := [] }).queued.count x + (e.node a).skbList.count x =
      e.queued.count x := by
  simpa using queued_onNode hl ha (fun n => { n with skbList := [] }) x

/-- What is freed or queued does not change when a node is got for a fragment. -/
theorem Got.count (h : Got e d a e₁) (hl : e.list.Nodup) (x : Skb) :
    e₁.freed.count x + e₁.queued.count x = e.freed.count x + e.queued.count x := by
  have hstart : (e.startNode a d).freed.count x + (e.startNode a d).queued.count x =
      e.freed.count x + e.queued.count x := by
    have hpurge := queued_emptied hl h.mem x
    have hinit : ((e.purge a).onNode a fun n => n.initFirstFrag d).queued.count x =
        (e.purge a).queued.count x := by
      have := queued_onNode (e := e.purge a) hl h.mem (fun n => n.initFirstFrag d) x
      simpa [RxDefragNode.initFirstFrag] using this
    have hmove : (e.startNode a d).queued.count x =
        ((e.purge a).onNode a fun n => n.initFirstFrag d).queued.count x :=
      queued_congr (by rw [startNode_list]; exact moveToHead_perm h.mem) (startNode_node e a d) x
    have hkfree : (e.purge a).queued.count x =
        (e.onNode a fun n => { n with skbList := [] }).queued.count x := rfl
    rw [startNode_freed, List.count_append]
    omega
  cases h with
  | continued hfrag hfind =>
    have h := queued_onNode hl (List.mem_of_find?_eq_some hfind)
      (fun n => { n with lastFragNum := d.fragNum }) x
    simp only [onNode_freed] at h ⊢
    omega
  | renewed | replaced => exact hstart

theorem Got.freed_le (h : Got e d a e₁) (x : Skb) : e.freed.count x ≤ e₁.freed.count x := by
  cases h with
  | continued => exact le_rfl
  | renewed | replaced =>
    rw [startNode_freed, List.count_append]
    exact Nat.le_add_right ..

theorem Got.nodup (h : Got e d a e₁) (hl : e.list.Nodup) : e₁.list.Nodup := by
  cases h with
  | continued => exact hl
  | renewed _ hfind =>
    rw [startNode_list]
    exact ((moveToHead_perm (List.mem_of_find?_eq_some hfind)).nodup_iff).mpr hl
  | replaced _ _ hlast =>
    rw [startNode_list]
    exact ((moveToHead_perm (List.mem_of_getLast? hlast)).nodup_iff).mpr hl

theorem Got.mem_list (h : Got e d a e₁) : a ∈ e₁.list := by
  have hmem := h.mem
  cases h with
  | continued => exact hmem
  | renewed | replaced =>
    rw [startNode_list]
    exact List.mem_cons_self ..

/-! ## Steps and runs -/

/-- Every buffer given is freed, passed on whole or queued, and those that a returned buffer
is made of are freed. -/
structure Conserved (e : RxDefragEntry) (given : List Skb) : Prop where
  total : ∀ x, given.count x + (e.netRxList.flatMap Returned.fragments).count x =
    e.freed.count x + (e.netRxList.flatMap Returned.skbs).count x + e.queued.count x
  fragments : ∀ x, (e.netRxList.flatMap Returned.fragments).count x ≤ e.freed.count x

/-- What an event adds to the buffers given, freed, returned and queued balances. -/
theorem Conserved.move (h : Conserved e given) (rx : List Returned) {skbs : List Skb}
    (hrx : e'.netRxList = e.netRxList ++ rx)
    (htotal : ∀ x, e'.freed.count x + (rx.flatMap Returned.skbs).count x + e'.queued.count x =
      e.freed.count x + e.queued.count x + skbs.count x +
        (rx.flatMap Returned.fragments).count x)
    (hfreed : ∀ x, e.freed.count x + (rx.flatMap Returned.fragments).count x ≤ e'.freed.count x) :
    Conserved e' (given ++ skbs) where
  total x := by
    have h₀ := h.total x
    have h₁ := htotal x
    rw [hrx]
    simp only [List.flatMap_append, List.count_append]
    omega
  fragments x := by
    have h₀ := h.fragments x
    have h₁ := hfreed x
    rw [hrx, List.flatMap_append, List.count_append]
    omega

theorem Conserved.purge (h : Conserved e given) (hl : e.list.Nodup) (ha : a ∈ e.list) :
    Conserved (e.purge a) given := by
  rw [← List.append_nil given]
  refine h.move [] (by simp) (fun x => ?_) (fun x => ?_)
  · have hqueue : (e.purge a).queued.count x + (e.node a).skbList.count x = e.queued.count x :=
      queued_emptied hl ha x
    simp only [purge_freed, List.count_append, List.flatMap_nil, List.count_nil]
    omega
  · simp

/-- The queue of a completed or abandoned node is freed, and the node moved. -/
theorem retired_count (h : Got e pskb.desc a e₁) (hl : e.list.Nodup) {skbs : List Skb}
    (hskbs : skbs.Perm ((e₁.node a).skbList ++ [pskb])) (x : Skb) :
    let e' := (((e₁.queueTail a pskb).onNode a fun n => { n with skbList := [] }).kfree
      skbs).retire a
    e'.freed.count x = e₁.freed.count x + skbs.count x ∧
      e'.queued.count x + skbs.count x = e₁.queued.count x + [pskb].count x := by
  have hnodup : (e₁.queueTail a pskb).list.Nodup := h.nodup hl
  have hqueue := queued_queueTail pskb (h.nodup hl) h.mem_list x
  have hempty := queued_emptied hnodup (show a ∈ (e₁.queueTail a pskb).list from h.mem_list) x
  rw [queueTail_self, ← hskbs.count_eq x] at hempty
  constructor
  · rw [retire_freed, kfree_freed, List.count_append]
    rfl
  · rw [← hqueue, ← hempty]
    congr 1
    apply queued_congr _ (retire_node _ a)
    rw [retire_list (e := ((e₁.queueTail a pskb).onNode a fun n => { n with skbList := [] }).kfree
      skbs) hnodup]
    exact moveToTail_perm h.mem_list

variable {r : Option Returned × RxDefragEntry}

theorem Processed.netRxList (h : Processed e pskb alloc r) : r.2.netRxList = e.netRxList := by
  cases h with
  | whole | refused => rfl
  | queued a e₁ hgot => exact hgot.netRxList
  | completed a e₁ first rest _ hgot | abandoned a e₁ first rest _ hgot =>
    rw [retire_netRxList]
    exact hgot.netRxList

/-- The frame given is freed, queued or returned, and so are the buffers queued before it. -/
theorem Processed.balance (h : Processed e pskb alloc r) (hl : e.list.Nodup) (x : Skb) :
    r.2.freed.count x + (r.1.toList.flatMap Returned.skbs).count x + r.2.queued.count x =
      e.freed.count x + e.queued.count x + [pskb].count x +
        (r.1.toList.flatMap Returned.fragments).count x := by
  cases h with
  | whole => exact Nat.add_right_comm ..
  | refused =>
    have hqueued : (e.kfree [pskb]).queued = e.queued := rfl
    simp only [hqueued, kfree_freed, List.count_append, Option.toList_none, List.flatMap_nil,
      List.count_nil]
    omega
  | queued a e₁ hgot =>
    have hcount := hgot.count hl x
    have hqueued := queued_queueTail pskb (hgot.nodup hl) hgot.mem_list x
    have hfreed : (e₁.queueTail a pskb).freed = e₁.freed := rfl
    simp only [hqueued, hfreed, Option.toList_none, List.flatMap_nil, List.count_nil]
    omega
  | completed a e₁ first rest _ hgot _ hqueue =>
    have hcount := hgot.count hl x
    have hretired := retired_count hgot hl (List.Perm.of_eq hqueue.symm) x
    simp only [Option.toList_some, List.flatMap_singleton, Returned.skbs, Returned.fragments,
      assemble_skbs]
    omega
  | abandoned a e₁ first rest _ hgot _ hqueue =>
    have hcount := hgot.count hl x
    have hperm : (rest ++ [first]).Perm ((e₁.node a).skbList ++ [pskb]) :=
      hqueue ▸ List.perm_append_singleton first rest
    have hretired := retired_count hgot hl hperm x
    simp only [Option.toList_none, List.flatMap_nil, List.count_nil]
    omega

/-- The fragments of a returned buffer are freed. -/
theorem Processed.freed (h : Processed e pskb alloc r) (hl : e.list.Nodup) (x : Skb) :
    e.freed.count x + (r.1.toList.flatMap Returned.fragments).count x ≤ r.2.freed.count x := by
  cases h with
  | whole => exact le_rfl
  | refused =>
    rw [kfree_freed, List.count_append]
    exact Nat.le_add_right ..
  | queued a e₁ hgot => exact hgot.freed_le x
  | completed a e₁ first rest _ hgot _ hqueue =>
    have hfreed := (retired_count hgot hl (List.Perm.of_eq hqueue.symm) x).1
    have hle := hgot.freed_le x
    simp only [Option.toList_some, List.flatMap_singleton, Returned.fragments, assemble_skbs]
    omega
  | abandoned a e₁ first rest _ hgot =>
    rw [retire_freed, kfree_freed, List.count_append]
    exact (hgot.freed_le x).trans (Nat.le_add_right ..)

theorem step_conserved (h : Conserved e given) (hl : e.list.Nodup) (hs : step e ev = .ok e') :
    Conserved e' (given ++ ev.skbs) := by
  cases ev with
  | recover mode ctxId peerEntry =>
    cases hs
    rw [Event.skbs, List.append_nil]
    have hrecover := recover_induct (P := fun e' => e'.list = e.list ∧ Conserved e' given)
      (fun e' a ha h' => ⟨h'.1, h'.2.purge (h'.1 ▸ hl) (h'.1 ▸ ha)⟩) ⟨rfl, h⟩ mode ctxId peerEntry
    exact hrecover.2
  | data pskb alloc =>
    obtain ⟨r, hr, rfl⟩ := map_eq_ok.mp hs
    have hprocessed := defragDataProcess_processed hr
    exact h.move _ (congrArg (· ++ _) hprocessed.netRxList) (hprocessed.balance hl)
      (hprocessed.freed hl)

theorem init_conserved : Conserved sprdwlDefragInit [] where
  total _ := rfl
  fragments _ := le_rfl

theorem run_conserved {es : List Event} {p q : RxDefragEntry × Uses} (hi : StoreInv p)
    (h : Conserved p.1 given) (hr : run (observe step noteUse) p es = .ok q) :
    Conserved q.1 (given ++ es.flatMap Event.skbs) := by
  induction es generalizing p given with
  | nil =>
    cases hr
    rwa [List.flatMap_nil, List.append_nil]
  | cons ev es ih =>
    obtain ⟨p', hp', hr'⟩ := bind_eq_ok.mp hr
    have h' := step_conserved h hi.nodup (observe_eq_ok.mp hp').1
    have htail := ih (observe_storeInv hi hp') h' hr'
    rwa [List.flatMap_cons, ← List.append_assoc]

/-- The buffers freed are those dropped and the fragments of what was returned; what was given
is what was dropped, returned or is queued. -/
theorem Conserved.perm (h : Conserved e given) : ∃ dropped,
    e.freed.Perm (dropped ++ e.netRxList.flatMap Returned.fragments) ∧
      given.Perm (dropped ++ e.netRxList.flatMap Returned.skbs ++ e.queued) := by
  have hfreed := List.subperm_append_diff_self_of_count_le fun x _ => h.fragments x
  refine ⟨_, hfreed.symm.trans List.perm_append_comm, List.perm_iff_count.mpr fun x => ?_⟩
  have htotal := h.total x
  have hcount := hfreed.count_eq x
  simp only [List.count_append] at hcount ⊢
  omega

/-! ## The node a sequence takes -/

/-- The first fragment of a sequence takes the first node of its station and traffic
identifier if it is newer than that node's sequence, and the node ranked lowest if no node
has them. -/
inductive Takes (e : RxDefragEntry) (u : Uses) (d : RxMsduDesc) (a : NodeAddr) : Prop
  | renewed (hfind : (e.list.find? fun c => (e.node c).carries d) = some a)
      (hnew : seqnoLeq d.seqNum.toNat (e.node a).desc.seqNum.toNat = false)
  | replaced (hnone : ∀ b ∈ e.list, (e.node b).carries d = false) (hmem : a ∈ e.list)
      (hlowest : ∀ b ∈ e.list, u.rank a ≤ u.rank b)

/-- A first fragment that is not newer than the node found for it is dropped. -/
def Refused (e : RxDefragEntry) (pskb : Skb) : Prop :=
  ∃ a, (e.list.find? fun c => (e.node c).carries pskb.desc) = some a ∧
    seqnoLeq pskb.desc.seqNum.toNat (e.node a).desc.seqNum.toNat = true ∧
      ∀ alloc, step e (.data pskb alloc) = .ok (e.kfree [pskb])

theorem StoreInv.takes {u : Uses} (h : StoreInv (e, u)) (hfrag : pskb.desc.fragNum = 0)
    (hmore : pskb.desc.moreFragBit = true) :
    (∃ a, (∀ alloc, startedBy e (.data pskb alloc) = some a) ∧ Takes e u pskb.desc a) ∨
      (∀ alloc, startedBy e (.data pskb alloc) = none) ∧ Refused e pskb := by
  have hisfrag : pskb.desc.isFragment = true := by simp [RxMsduDesc.isFragment, hmore]
  cases hfind : e.list.find? fun c => (e.node c).carries pskb.desc with
  | some a =>
    cases hleq : seqnoLeq pskb.desc.seqNum.toNat (e.node a).desc.seqNum.toNat with
    | false =>
      have hgot := Got.renewed hfrag hfind hleq
      exact Or.inl ⟨a, fun _ => hgot.startedBy hfrag hmore, .renewed hfind hleq⟩
    | true =>
      have hget : getDefragNode e pskb.desc = .ok (none, e) := by
        rw [getDefragNode, if_neg (not_not.mpr hfrag), initFirstDefragNode, hfind]
        simp only [hleq, if_true]
      refine Or.inr ⟨fun _ => startedBy_refused hget, a, hfind, hleq, fun alloc => ?_⟩
      simp [step, defragDataProcess, defragSingleDataProcess, hisfrag, hget, RxDefragEntry.kfree]
  | none =>
    obtain ⟨a, hlast⟩ : ∃ a, e.list.getLast? = some a :=
      ⟨_, List.getLast?_eq_getLast_of_ne_nil h.list_ne⟩
    have hgot := Got.replaced hfrag hfind hlast
    refine Or.inl ⟨a, fun _ => hgot.startedBy hfrag hmore, .replaced ?_ hgot.mem ?_⟩
    · exact fun b hb => by simpa using List.find?_eq_none.mp hfind b hb
    · exact fun b hb => h.ranked.getLast_le hlast hb

/-- The store after every run: the same nodes, each in use for a station and a traffic
identifier of its own, a node taken by the rule, and every buffer in one place. -/
theorem defrag_store (es : List Event) : ∃ e u,
    run (observe step noteUse) (sprdwlDefragInit, Uses.init) es = .ok (e, u) ∧
      e.list.Perm (List.range MAX_DEFRAG_NUM) ∧
      (∀ a ∈ e.list, ∀ b ∈ e.list, (e.node a).skbList ≠ [] → (e.node b).skbList ≠ [] →
        (e.node a).desc.staLutIndex = (e.node b).desc.staLutIndex →
        (e.node a).desc.tid = (e.node b).desc.tid → a = b) ∧
      (∀ pskb : Skb, pskb.desc.fragNum = 0 → pskb.desc.moreFragBit = true →
        (∃ a, (∀ alloc, startedBy e (.data pskb alloc) = some a) ∧ Takes e u pskb.desc a) ∨
          (∀ alloc, startedBy e (.data pskb alloc) = none) ∧ Refused e pskb) ∧
      ∃ dropped, e.freed.Perm (dropped ++ e.netRxList.flatMap Returned.fragments) ∧
        (es.flatMap Event.skbs).Perm
          (dropped ++ e.netRxList.flatMap Returned.skbs ++ e.queued) := by
  obtain ⟨⟨e, u⟩, hr, h⟩ := run_storeInv es
  refine ⟨e, u, hr, h.nodes, ?_, fun pskb => h.takes, ?_⟩
  · intro a ha b hb hua hub hsta htid
    let d : RxMsduDesc :=
      ⟨(e.node a).desc.staLutIndex, (e.node a).desc.tid, 0, 0, false, false, 0, 0⟩
    exact h.found.unique (d := d) ha hb hua hub (carries_iff.mpr ⟨rfl, rfl⟩)
      (carries_iff.mpr ⟨hsta.symm, htid.symm⟩)
  · exact (run_conserved init_storeInv init_conserved hr).perm

/-- The first fragments of two sequences of one station. -/
def firstFragment (addr : ℕ) (seqNum : BitVec 12) : Skb :=
  ⟨addr, ⟨1, 0, seqNum, 0, true, true, 0, 100⟩⟩

/-- A new sequence of the same station takes the node started last, though its sequence is
unfinished and the other nodes were never used. -/
theorem defrag_renewed_node : ∃ e u,
    run (observe step noteUse) (sprdwlDefragInit, Uses.init) [.data (firstFragment 10 5) true] =
        .ok (e, u) ∧
      startedBy e (.data (firstFragment 11 6) true) = some 0 ∧
      (e.node 0).skbList = [firstFragment 10 5] ∧ u.rank 0 = 1 ∧ u.rank 1 = 0 ∧
      ¬ ∀ b ∈ e.list, u.rank 0 ≤ u.rank b :=
  ⟨_, _, rfl, rfl, rfl, rfl, rfl, by decide⟩

end Uwe5631.Defrag
