import Uwe5631.DefragSequences

/-!
# The store of defragmentation nodes

The list always links the same nodes, at most one of them is in use for a station and a
traffic identifier, and every buffer given to reassembly ends up in one place. A ghost
record of the uses of the nodes explains the order of the list.
-/
namespace Uwe5631.Defrag
open FallibleRuns RecencyList

variable {e e₁ e' : RxDefragEntry} {a b : NodeAddr} {d d₁ : RxMsduDesc} {pskb x : Skb}
  {alloc : Bool} {f : RxDefragNode → RxDefragNode}

/-! ## Nodes in use -/

/-- A node in use is the first in the list for its station and traffic identifier. -/
def Found (e : RxDefragEntry) : Prop :=
  ∀ b ∈ e.list, (e.node b).skbList ≠ [] → ∀ d, (e.node b).carries d = true →
    (e.list.find? fun c => (e.node c).carries d) = some b

theorem carries_congr {n : RxDefragNode} {d d' : RxMsduDesc} (h : n.carries d = true)
    (h' : n.carries d' = true) (c : RxDefragNode) : c.carries d = c.carries d' := by
  obtain ⟨hsta, htid⟩ := carries_iff.mp h
  obtain ⟨hsta', htid'⟩ := carries_iff.mp h'
  rw [RxDefragNode.carries, RxDefragNode.carries, ← hsta, ← htid, hsta', htid']

/-- A node that keeps its identity changes the outcome of no search. -/
theorem find_onNode (hkey : ∀ d, (f (e.node a)).carries d = (e.node a).carries d)
    (d : RxMsduDesc) :
    ((e.onNode a f).list.find? fun c => ((e.onNode a f).node c).carries d) =
      e.list.find? fun c => (e.node c).carries d := by
  congr 1
  funext c
  by_cases hc : c = a
  · subst hc
    rw [onNode_self, hkey]
  · rw [onNode_ne _ _ _ hc]

theorem Found.onNode (h : Found e) (hkey : ∀ d, (f (e.node a)).carries d = (e.node a).carries d)
    (huse : (f (e.node a)).skbList ≠ [] → ∀ d, (e.node a).carries d = true →
      (e.list.find? fun c => (e.node c).carries d) = some a) : Found (e.onNode a f) := by
  intro b hb hne d hd
  rw [find_onNode hkey]
  by_cases hba : b = a
  · subst hba
    rw [onNode_self] at hne hd
    exact huse hne d (hkey d ▸ hd)
  · rw [onNode_ne _ _ _ hba] at hne hd
    exact h b hb hne d hd

/-- A node whose queue is emptied. -/
theorem Found.emptied (h : Found e) (a : NodeAddr) :
    Found (e.onNode a fun n => { n with skbList := [] }) :=
  h.onNode (fun _ => rfl) fun hne => absurd rfl hne

theorem Found.purge (h : Found e) (a : NodeAddr) : Found (e.purge a) := h.emptied a

/-- Only the node taken may be in use for the station and the traffic identifier. -/
theorem Found.startNode (h : Found e) (hl : e.list.Nodup)
    (honly : ∀ b ∈ e.list, b ≠ a → (e.node b).skbList ≠ [] → (e.node b).carries d = false) :
    Found (e.startNode a d) := by
  intro b hb hne d' hd'
  have hba : b ≠ a := by
    rintro rfl
    rw [startNode_node, onNode_self, purge_self] at hne
    exact hne rfl
  have hnode : ∀ c, c ≠ a → (e.startNode a d).node c = e.node c := fun c hc => by
    rw [startNode_node, onNode_ne _ _ _ hc, purge_ne _ _ hc]
  rw [hnode b hba] at hne hd'
  rw [startNode_list, moveToHead, List.mem_cons] at hb
  have hmem := List.mem_of_mem_erase (hb.resolve_left hba)
  have hkey : ((e.startNode a d).node a).carries d' = false := by
    rw [Bool.eq_false_iff]
    intro hcarries
    have hsame : d.staLutIndex = d'.staLutIndex ∧ d.tid = d'.tid := by
      rw [startNode_node, onNode_self] at hcarries
      exact carries_iff.mp hcarries
    have hb' : (e.node b).carries d = true := by
      rw [carries_iff, hsame.1, hsame.2]
      exact carries_iff.mp hd'
    rw [honly b hmem hba hne] at hb'
    cases hb'
  rw [startNode_list, moveToHead, List.find?_cons_of_neg (by simp [hkey]),
    ← find_erase (h b hmem hne d' hd') hba]
  apply List.find?_congr
  intro c hc
  rw [hnode c ((hl.mem_erase_iff).mp hc).1]

theorem retire_list (hl : e.list.Nodup) : (e.retire a).list = moveToTail a e.list := by
  rw [RxDefragEntry.retire]
  split
  · rename_i hlast
    exact (moveToTail_last hl hlast).symm
  · rfl

theorem Found.retire (h : Found e) (hl : e.list.Nodup) (ha : (e.node a).skbList = []) :
    Found (e.retire a) := by
  intro b hb hne d hd
  rw [retire_node] at hne hd ⊢
  rw [retire_list hl] at hb ⊢
  have hba : b ≠ a := by
    rintro rfl
    exact hne ha
  have hmem : b ∈ e.list := by
    rcases List.mem_append.mp hb with hb | hb
    · exact List.mem_of_mem_erase hb
    · exact absurd (List.mem_singleton.mp hb) hba
  exact find_moveToTail_ne (h b hmem hne d hd) hba

/-- At most one node is in use for a station and a traffic identifier. -/
theorem Found.unique (h : Found e) (ha : a ∈ e.list) (hb : b ∈ e.list)
    (hua : (e.node a).skbList ≠ []) (hub : (e.node b).skbList ≠ [])
    (hda : (e.node a).carries d = true) (hdb : (e.node b).carries d = true) : a = b :=
  Option.some.inj ((h a ha hua d hda).symm.trans (h b hb hub d hdb))

/-! ## The order of the list -/

/-- The node a frame starts a sequence in. -/
def startedBy (e : RxDefragEntry) : Event → Option NodeAddr
  | .data pskb _ =>
    if pskb.desc.isFragment ∧ pskb.desc.fragNum = 0 then
      match initFirstDefragNode e pskb.desc with
      | .ok (a, _) => a
      | .error _ => none
    else none
  | .recover .. => none

/-- The node a frame completes or abandons. -/
def finishedBy (e : RxDefragEntry) : Event → Option NodeAddr
  | .data pskb _ =>
    if pskb.desc.fragNum ≠ 0 ∧ pskb.desc.moreFragBit = false then (findDefragNode e pskb.desc).1
    else none
  | .recover .. => none

/-- The uses of the nodes: the time a node was last started, negative if that was the time it
was last finished, and 0 if it was never used. -/
structure Uses where
  time : ℕ
  rank : NodeAddr → ℤ

def Uses.init : Uses := ⟨0, fun _ => 0⟩

def noteUse (u : Uses) (e : RxDefragEntry) (ev : Event) (_ : RxDefragEntry) : Uses where
  time := u.time + 1
  rank :=
    match startedBy e ev, finishedBy e ev with
    | some a, _ => Function.update u.rank a (u.time + 1)
    | none, some a => Function.update u.rank a (-(u.time + 1))
    | none, none => u.rank

/-- What holds of the store and the record of its uses. -/
structure StoreInv (p : RxDefragEntry × Uses) : Prop where
  nodes : p.1.list.Perm (List.range MAX_DEFRAG_NUM)
  found : Found p.1
  ranked : Ranked p.2.rank p.1.list
  bounds : ∀ b, -(p.2.time : ℤ) ≤ p.2.rank b ∧ p.2.rank b ≤ p.2.time

theorem StoreInv.nodup {p : RxDefragEntry × Uses} (h : StoreInv p) : p.1.list.Nodup :=
  (h.nodes.nodup_iff).mpr List.nodup_range

theorem Got.find (h : Got e d a e₁) (hfrag : d.fragNum ≠ 0) :
    findDefragNode e d = (some a, e₁) ∧ (e.list.find? fun c => (e.node c).carries d) = some a ∧
      e₁ = e.onNode a fun n => { n with lastFragNum := d.fragNum } := by
  cases h with
  | continued _ hfind hnext =>
    rw [findDefragNode, hfind]
    simp only [hnext, if_true]
    exact ⟨trivial, trivial, trivial⟩
  | renewed hzero | replaced hzero => exact absurd hzero hfrag

theorem Got.init (h : Got e d a e₁) (hfrag : d.fragNum = 0) :
    initFirstDefragNode e d = .ok (some a, e₁) ∧ e₁ = e.startNode a d := by
  cases h with
  | continued hne => exact absurd hfrag hne
  | renewed _ hfind hnew => simp [initFirstDefragNode, hfind, hnew]
  | replaced _ hfind hlast => simp [initFirstDefragNode, hfind, hlast]

theorem Got.mem (h : Got e d a e₁) : a ∈ e.list := by
  cases h with
  | continued _ hfind | renewed _ hfind => exact List.mem_of_find?_eq_some hfind
  | replaced _ _ hlast => exact List.mem_of_getLast? hlast

/-- A node at the head is the first for what it carries. -/
theorem find_startNode (h : ((e.startNode a d).node a).carries d₁ = true) :
    ((e.startNode a d).list.find? fun c => ((e.startNode a d).node c).carries d₁) = some a := by
  rw [startNode_list, moveToHead]
  exact List.find?_cons_of_pos h

/-- Starting a sequence in the node found for it, or in one that none carries it, leaves every
node in use the first of its kind. -/
theorem Got.found_started (h : Got e d a e₁) (hfrag : d.fragNum = 0) (hs : Found e)
    (hl : e.list.Nodup) : Found (e.startNode a d) := by
  apply hs.startNode hl
  intro b hb hba hne
  rw [Bool.eq_false_iff]
  intro hcarries
  have hfirst := hs b hb hne d hcarries
  cases h with
  | continued hne => exact hne hfrag
  | renewed _ hfind =>
    rw [hfind] at hfirst
    exact hba (Option.some.inj hfirst).symm
  | replaced _ hfind =>
    rw [hfind] at hfirst
    cases hfirst

/-- The node of a fragment is the first of its kind when the fragment is queued in it. -/
theorem Got.found (h : Got e pskb.desc a e₁) (hs : Found e) (hl : e.list.Nodup) :
    Found (e₁.queueTail a pskb) := by
  by_cases hfrag : pskb.desc.fragNum = 0
  · obtain ⟨_, rfl⟩ := h.init hfrag
    exact (h.found_started hfrag hs hl).onNode (fun _ => rfl) fun _ d hd => find_startNode hd
  · obtain ⟨_, hfind, rfl⟩ := h.find hfrag
    have hcarries : (e.node a).carries pskb.desc = true := by simpa using List.find?_some hfind
    have hfound : Found (e.onNode a fun n => { n with lastFragNum := pskb.desc.fragNum }) :=
      hs.onNode (fun _ => rfl) fun hne d hd => hs a h.mem hne d hd
    apply hfound.onNode fun _ => rfl
    intro _ d hd
    rw [onNode_self] at hd
    rw [find_onNode fun _ => rfl, ← hfind]
    congr 1
    funext c
    exact carries_congr hd hcarries (e.node c)

/-! ## Steps and runs -/

theorem startedBy_whole (h : pskb.desc.isFragment = false) :
    startedBy e (.data pskb alloc) = none := by
  simp [startedBy, h]

theorem finishedBy_zero (h : pskb.desc.fragNum = 0) : finishedBy e (.data pskb alloc) = none := by
  simp [finishedBy, h]

theorem finishedBy_more (h : pskb.desc.moreFragBit = true) :
    finishedBy e (.data pskb alloc) = none := by
  simp [finishedBy, h]

theorem startedBy_ne (h : pskb.desc.fragNum ≠ 0) : startedBy e (.data pskb alloc) = none := by
  rw [startedBy, if_neg fun hzero => h hzero.2]

theorem Got.startedBy (h : Got e pskb.desc a e₁) (hfrag : pskb.desc.fragNum = 0)
    (hmore : pskb.desc.moreFragBit = true) : startedBy e (.data pskb alloc) = some a := by
  simp [Defrag.startedBy, RxMsduDesc.isFragment, hfrag, hmore, (h.init hfrag).1]

theorem Got.finishedBy (h : Got e pskb.desc a e₁) (hfrag : pskb.desc.fragNum ≠ 0)
    (hmore : pskb.desc.moreFragBit = false) : finishedBy e (.data pskb alloc) = some a := by
  rw [Defrag.finishedBy, if_pos ⟨hfrag, hmore⟩, (h.find hfrag).1]

theorem startedBy_refused (h : getDefragNode e pskb.desc = .ok (none, e)) :
    startedBy e (.data pskb alloc) = none := by
  by_cases hfrag : pskb.desc.fragNum = 0
  · rw [getDefragNode, if_neg (not_not.mpr hfrag)] at h
    simp [startedBy, h]
  · exact startedBy_ne hfrag

theorem finishedBy_refused (h : getDefragNode e pskb.desc = .ok (none, e)) :
    finishedBy e (.data pskb alloc) = none := by
  by_cases hfrag : pskb.desc.fragNum = 0
  · exact finishedBy_zero hfrag
  · rw [getDefragNode, if_pos hfrag] at h
    simp [finishedBy, Except.ok.inj h]

variable {u : Uses} {ev : Event}

/-- An event that neither starts nor finishes a node leaves the order of the list. -/
theorem StoreInv.idle (h : StoreInv (e, u)) (hstarted : startedBy e ev = none)
    (hfinished : finishedBy e ev = none) (hlist : e'.list = e.list) (hfound : Found e') :
    StoreInv (e', noteUse u e ev e') where
  nodes := hlist ▸ h.nodes
  found := hfound
  ranked := by
    simp only [noteUse, hstarted, hfinished, hlist]
    exact h.ranked
  bounds b := by
    have hb := h.bounds b
    simp only [noteUse, hstarted, hfinished] at hb ⊢
    omega

theorem StoreInv.started (h : StoreInv (e, u)) (hstarted : startedBy e ev = some a)
    (ha : a ∈ e.list) (hlist : e'.list = moveToHead a e.list) (hfound : Found e') :
    StoreInv (e', noteUse u e ev e') where
  nodes := hlist ▸ (moveToHead_perm ha).trans h.nodes
  found := hfound
  ranked := by
    simp only [noteUse, hstarted, hlist]
    apply h.ranked.moveToHead h.nodup
    intro b _
    exact (h.bounds b).2.trans (show (u.time : ℤ) ≤ u.time + 1 by omega)
  bounds b := by
    have hb := h.bounds b
    simp only [noteUse, hstarted, Function.update_apply] at hb ⊢
    split <;> omega

theorem StoreInv.finished (h : StoreInv (e, u)) (hstarted : startedBy e ev = none)
    (hfinished : finishedBy e ev = some a) (ha : a ∈ e.list)
    (hlist : e'.list = moveToTail a e.list) (hfound : Found e') :
    StoreInv (e', noteUse u e ev e') where
  nodes := hlist ▸ (moveToTail_perm ha).trans h.nodes
  found := hfound
  ranked := by
    simp only [noteUse, hstarted, hfinished, hlist]
    apply h.ranked.moveToTail h.nodup
    intro b _
    exact le_trans (show -(u.time + 1 : ℤ) ≤ -u.time by omega) (h.bounds b).1
  bounds b := by
    have hb := h.bounds b
    simp only [noteUse, hstarted, hfinished, Function.update_apply] at hb ⊢
    split <;> omega

theorem Got.list_found (h : Got e pskb.desc a e₁) (hfrag : pskb.desc.fragNum ≠ 0) :
    (e₁.queueTail a pskb).list = e.list := by
  obtain ⟨_, _, rfl⟩ := h.find hfrag
  rfl

/-- The node that a last fragment completes or abandons is moved to the tail with an empty
queue. -/
theorem StoreInv.retired (h : StoreInv (e, u)) (hgot : Got e pskb.desc a e₁)
    (hfrag : pskb.desc.fragNum ≠ 0) (hmore : pskb.desc.moreFragBit = false) (skbs : List Skb)
    (rx : List Returned) :
    let e' := (((e₁.queueTail a pskb).onNode a fun n => { n with skbList := [] }).kfree
      skbs).retire a
    StoreInv ({ e' with netRxList := rx },
      noteUse u e (.data pskb alloc) { e' with netRxList := rx }) := by
  have hlist := hgot.list_found hfrag
  have hnodup : (e₁.queueTail a pskb).list.Nodup := hlist ▸ h.nodup
  have hfound : Found (((e₁.queueTail a pskb).onNode a fun n => { n with skbList := [] }).kfree
      skbs) := (hgot.found h.found h.nodup).emptied a
  refine h.finished (startedBy_ne hfrag) (hgot.finishedBy hfrag hmore) hgot.mem ?_ ?_
  · rw [← hlist]
    exact retire_list hnodup
  · exact hfound.retire hnodup (by rw [kfree_node, onNode_self])

theorem Got.list (h : Got e pskb.desc a e₁) (hfrag : pskb.desc.fragNum = 0) :
    (e₁.queueTail a pskb).list = moveToHead a e.list := by
  obtain ⟨_, rfl⟩ := h.init hfrag
  exact startNode_list e a pskb.desc

theorem StoreInv.queued (h : StoreInv (e, u)) (hgot : Got e pskb.desc a e₁)
    (hmore : pskb.desc.moreFragBit = true) (rx : List Returned) :
    StoreInv ({ e₁.queueTail a pskb with netRxList := rx },
      noteUse u e (.data pskb alloc) { e₁.queueTail a pskb with netRxList := rx }) := by
  have hfound := hgot.found h.found h.nodup
  by_cases hfrag : pskb.desc.fragNum = 0
  · exact h.started (hgot.startedBy hfrag hmore) hgot.mem (hgot.list hfrag) hfound
  · exact h.idle (startedBy_ne hfrag) (finishedBy_more hmore) (hgot.list_found hfrag) hfound

theorem observe_storeInv {p q : RxDefragEntry × Uses} (h : StoreInv p)
    (hs : observe step noteUse p ev = .ok q) : StoreInv q := by
  obtain ⟨e, u⟩ := p
  obtain ⟨e', u'⟩ := q
  obtain ⟨hstep, hnote⟩ := observe_eq_ok.mp hs
  dsimp only at hstep hnote
  subst hnote
  cases ev with
  | recover mode ctxId peerEntry =>
    cases hstep
    have hrecover := recover_induct (P := fun e' => e'.list = e.list ∧ Found e')
      (fun e' a _ h' => ⟨h'.1, h'.2.purge a⟩) ⟨rfl, h.found⟩ mode ctxId peerEntry
    exact h.idle rfl rfl hrecover.1 hrecover.2
  | data pskb alloc =>
    obtain ⟨r, hr, rfl⟩ := map_eq_ok.mp hstep
    cases defragDataProcess_processed hr with
    | whole hfrag =>
      have hzero : pskb.desc.fragNum = 0 := by
        simp only [RxMsduDesc.isFragment, Bool.or_eq_false_iff, bne_eq_false_iff_eq] at hfrag
        exact hfrag.1
      exact h.idle (startedBy_whole hfrag) (finishedBy_zero hzero) rfl h.found
    | refused _ hget =>
      exact h.idle (startedBy_refused hget) (finishedBy_refused hget) rfl h.found
    | queued a e₁ hgot hmore => exact h.queued hgot hmore _
    | completed a e₁ first rest hfrag hgot hmore | abandoned a e₁ first rest hfrag hgot hmore =>
      exact h.retired hgot hfrag hmore _ _

theorem init_storeInv : StoreInv (sprdwlDefragInit, Uses.init) where
  nodes := List.reverse_perm _
  found := by
    intro b _ hne
    exact absurd rfl hne
  ranked := List.pairwise_of_forall fun _ _ => le_rfl
  bounds b := ⟨by simp [Uses.init], by simp [Uses.init]⟩

/-- With a node in the list no frame faults. -/
theorem step_ok (h : e.list ≠ []) (ev : Event) : ∃ e', step e ev = .ok e' := by
  obtain ⟨a, hlast⟩ : ∃ a, e.list.getLast? = some a := ⟨_, List.getLast?_eq_getLast_of_ne_nil h⟩
  cases ev with
  | recover mode ctxId peerEntry => exact ⟨_, rfl⟩
  | data pskb alloc =>
    obtain ⟨g, hg⟩ : ∃ g, getDefragNode e pskb.desc = .ok g := by
      rw [getDefragNode, initFirstDefragNode, hlast]
      split_ifs
      · exact ⟨_, rfl⟩
      · split
        · split <;> exact ⟨_, rfl⟩
        · exact ⟨_, rfl⟩
    rw [step, defragDataProcess, defragSingleDataProcess, hg]
    split <;> exact ⟨_, rfl⟩

theorem StoreInv.list_ne {p : RxDefragEntry × Uses} (h : StoreInv p) : p.1.list ≠ [] := by
  intro hnil
  have hlen := h.nodes.length_eq
  rw [hnil, List.length_range] at hlen
  cases hlen

/-- Every run comes to an end, with the invariant. -/
theorem run_storeInv (es : List Event) : ∃ q,
    run (observe step noteUse) (sprdwlDefragInit, Uses.init) es = .ok q ∧ StoreInv q := by
  suffices hrun : ∀ p, StoreInv p → ∃ q, run (observe step noteUse) p es = .ok q ∧ StoreInv q from
    hrun _ init_storeInv
  induction es with
  | nil => exact fun p h => ⟨p, rfl, h⟩
  | cons ev es ih =>
    intro p h
    obtain ⟨e', he'⟩ := step_ok h.list_ne ev
    have hobs : observe step noteUse p ev = .ok (e', noteUse p.2 p.1 ev e') :=
      observe_eq_ok.mpr ⟨he', rfl⟩
    rw [run_cons_ok hobs]
    exact ih _ (observe_storeInv h hobs)

end Uwe5631.Defrag
