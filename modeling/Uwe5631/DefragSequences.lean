import Uwe5631.Defrag

/-!
# Reassembled sequences

The queue of a node holds the fragments 0, 1, .. of one sequence as long as no fragment
other than 0 is accepted by a node whose queue is empty.
-/
namespace Uwe5631.Defrag
open FallibleRuns RecencyList

variable {e e₁ e' : RxDefragEntry} {a b : NodeAddr} {d : RxMsduDesc} {pskb x : Skb}
  {alloc : Bool} {skbs : List Skb}

section Fields
variable (e : RxDefragEntry) (a : NodeAddr) (f : RxDefragNode → RxDefragNode)

@[simp] theorem onNode_self : (e.onNode a f).node a = f (e.node a) := Function.update_self ..

theorem onNode_ne {b : NodeAddr} (h : b ≠ a) : (e.onNode a f).node b = e.node b :=
  Function.update_of_ne h ..

@[simp] theorem onNode_list : (e.onNode a f).list = e.list := rfl
@[simp] theorem onNode_freed : (e.onNode a f).freed = e.freed := rfl
@[simp] theorem onNode_netRxList : (e.onNode a f).netRxList = e.netRxList := rfl
@[simp] theorem kfree_node : (e.kfree skbs).node = e.node := rfl
@[simp] theorem kfree_list : (e.kfree skbs).list = e.list := rfl
@[simp] theorem kfree_freed : (e.kfree skbs).freed = e.freed ++ skbs := rfl
@[simp] theorem kfree_netRxList : (e.kfree skbs).netRxList = e.netRxList := rfl
@[simp] theorem purge_list : (e.purge a).list = e.list := rfl
@[simp] theorem purge_freed : (e.purge a).freed = e.freed ++ (e.node a).skbList := rfl
@[simp] theorem purge_netRxList : (e.purge a).netRxList = e.netRxList := rfl

@[simp] theorem purge_self : (e.purge a).node a = { e.node a with skbList := [] } := by
  rw [RxDefragEntry.purge, kfree_node, onNode_self]

theorem purge_ne {b : NodeAddr} (h : b ≠ a) : (e.purge a).node b = e.node b := by
  rw [RxDefragEntry.purge, kfree_node, onNode_ne _ _ _ h]

@[simp] theorem retire_node : (e.retire a).node = e.node := by
  rw [RxDefragEntry.retire]
  split <;> rfl

@[simp] theorem retire_freed : (e.retire a).freed = e.freed := by
  rw [RxDefragEntry.retire]
  split <;> rfl

@[simp] theorem retire_netRxList : (e.retire a).netRxList = e.netRxList := by
  rw [RxDefragEntry.retire]
  split <;> rfl

theorem startNode_list (d : RxMsduDesc) : (e.startNode a d).list = moveToHead a e.list := by
  by_cases hhead : e.list.head? = some a
  · simp [RxDefragEntry.startNode, hhead, moveToHead_head hhead]
  · simp [RxDefragEntry.startNode, hhead]

theorem startNode_node (d : RxMsduDesc) :
    (e.startNode a d).node = ((e.purge a).onNode a fun n => n.initFirstFrag d).node := by
  simp only [RxDefragEntry.startNode]
  split <;> rfl

theorem startNode_freed (d : RxMsduDesc) :
    (e.startNode a d).freed = e.freed ++ (e.node a).skbList := by
  simp only [RxDefragEntry.startNode]
  split <;> rfl

theorem startNode_netRxList (d : RxMsduDesc) : (e.startNode a d).netRxList = e.netRxList := by
  simp only [RxDefragEntry.startNode]
  split <;> rfl

end Fields

/-! ## What a frame does -/

/-- The node of a fragment: one that it continues, or one in which it starts a sequence. -/
inductive Got (e : RxDefragEntry) (d : RxMsduDesc) (a : NodeAddr) : RxDefragEntry → Prop
  | continued (hfrag : d.fragNum ≠ 0) (hfind : (e.list.find? fun a => (e.node a).carries d) = some a)
      (hnext : (e.node a).continuedBy d = true) :
      Got e d a (e.onNode a fun n => { n with lastFragNum := d.fragNum })
  | renewed (hfrag : d.fragNum = 0) (hfind : (e.list.find? fun a => (e.node a).carries d) = some a)
      (hnew : seqnoLeq d.seqNum.toNat (e.node a).desc.seqNum.toNat = false) :
      Got e d a (e.startNode a d)
  | replaced (hfrag : d.fragNum = 0) (hfind : (e.list.find? fun a => (e.node a).carries d) = none)
      (hlast : e.list.getLast? = some a) : Got e d a (e.startNode a d)

/-- What `defrag_data_process` does with a frame: pass it on, free it, queue it, or complete
a sequence with it. -/
inductive Processed (e : RxDefragEntry) (pskb : Skb) (alloc : Bool) :
    Option Returned × RxDefragEntry → Prop
  | whole (hfrag : pskb.desc.isFragment = false) : Processed e pskb alloc (some (.whole pskb), e)
  | refused (hfrag : pskb.desc.isFragment = true)
      (hget : getDefragNode e pskb.desc = .ok (none, e)) :
      Processed e pskb alloc (none, e.kfree [pskb])
  | queued (a : NodeAddr) (e₁ : RxDefragEntry) (hgot : Got e pskb.desc a e₁)
      (hmore : pskb.desc.moreFragBit = true) : Processed e pskb alloc (none, e₁.queueTail a pskb)
  | completed (a : NodeAddr) (e₁ : RxDefragEntry) (first : Skb) (rest : List Skb)
      (hfrag : pskb.desc.fragNum ≠ 0) (hgot : Got e pskb.desc a e₁)
      (hmore : pskb.desc.moreFragBit = false)
      (hqueue : (e₁.node a).skbList ++ [pskb] = first :: rest) (halloc : alloc = true) :
      Processed e pskb alloc
        (some (.msdu (assemble ((e₁.queueTail a pskb).node a).msduLen first rest)),
          (((e₁.queueTail a pskb).onNode a fun n => { n with skbList := [] }).kfree
            (first :: rest)).retire a)
  | abandoned (a : NodeAddr) (e₁ : RxDefragEntry) (first : Skb) (rest : List Skb)
      (hfrag : pskb.desc.fragNum ≠ 0) (hgot : Got e pskb.desc a e₁)
      (hmore : pskb.desc.moreFragBit = false)
      (hqueue : (e₁.node a).skbList ++ [pskb] = first :: rest) (halloc : alloc = false) :
      Processed e pskb alloc
        (none, (((e₁.queueTail a pskb).onNode a fun n => { n with skbList := [] }).kfree
          (rest ++ [first])).retire a)

theorem getDefragNode_got {r : Option NodeAddr × RxDefragEntry}
    (h : getDefragNode e d = .ok r) :
    r = (none, e) ∨ ∃ a e₁, r = (some a, e₁) ∧ Got e d a e₁ := by
  rw [getDefragNode] at h
  split at h
  · rename_i hfrag
    cases h
    rw [findDefragNode]
    split
    · rename_i a hfind
      split
      · rename_i hnext
        exact Or.inr ⟨a, _, rfl, .continued hfrag hfind hnext⟩
      · exact Or.inl rfl
    · exact Or.inl rfl
  · rename_i hfrag
    rw [initFirstDefragNode] at h
    split at h
    · rename_i a hfind
      split at h
      · cases h
        exact Or.inl rfl
      · rename_i hnew
        cases h
        exact Or.inr ⟨a, _, rfl, .renewed (not_not.mp hfrag) hfind (Bool.not_eq_true _ ▸ hnew)⟩
    · rename_i hfind
      split at h
      · rename_i a hlast
        cases h
        exact Or.inr ⟨a, _, rfl, .replaced (not_not.mp hfrag) hfind hlast⟩
      · cases h

theorem queueTail_self (e : RxDefragEntry) (a : NodeAddr) (pskb : Skb) :
    ((e.queueTail a pskb).node a).skbList = (e.node a).skbList ++ [pskb] := by
  rw [RxDefragEntry.queueTail, onNode_self]

/-- Every result of `defrag_data_process` is one of these. -/
theorem defragDataProcess_processed {r : Option Returned × RxDefragEntry}
    (h : defragDataProcess e pskb alloc = .ok r) : Processed e pskb alloc r := by
  rw [defragDataProcess] at h
  split at h
  · rename_i hfrag
    obtain ⟨r', h', rfl⟩ := map_eq_ok.mp h
    obtain ⟨g, hg, rfl⟩ := map_eq_ok.mp h'
    rcases getDefragNode_got hg with rfl | ⟨a, e₁, rfl, hgot⟩
    · exact .refused hfrag hg
    · dsimp only
      split
      · rename_i hmore
        exact .queued a e₁ hgot hmore
      · rename_i hmore
        have hmore : pskb.desc.moreFragBit = false := Bool.not_eq_true _ ▸ hmore
        have hne : pskb.desc.fragNum ≠ 0 := by
          simpa [RxMsduDesc.isFragment, hmore] using hfrag
        rw [RxDefragEntry.complete]
        split
        · rename_i hempty
          rw [queueTail_self] at hempty
          simp at hempty
        · rename_i first rest hqueue
          rw [queueTail_self] at hqueue
          cases halloc : alloc with
          | true => exact .completed a e₁ first rest hne hgot hmore hqueue rfl
          | false => exact .abandoned a e₁ first rest hne hgot hmore hqueue rfl
  · rename_i hfrag
    cases h
    exact .whole (Bool.not_eq_true _ ▸ hfrag)

/-! ## Sequences -/

/-- The buffers are the fragments 0, 1, .. of the sequence of a descriptor. -/
def IsSequence (d : RxDefragDesc) (skbs : List Skb) : Prop :=
  ∀ (i : ℕ) (s : Skb), skbs[i]? = some s →
    s.desc.fragNum.toNat = i ∧ s.desc.staLutIndex = d.staLutIndex ∧ s.desc.tid = d.tid ∧
      s.desc.seqNum = d.seqNum

/-- The node's queue is a sequence as far as it has come. -/
structure RxDefragNode.Sound (n : RxDefragNode) : Prop where
  sequence : IsSequence n.desc n.skbList
  length : n.skbList ≠ [] → n.skbList.length = n.lastFragNum.toNat + 1

/-- The buffer consists of the fragments 0, 1, .., n of one sequence, in order, with `1 ≤ n`
and the more-fragments bit clear in the last. -/
def Msdu.Whole (m : Msdu) : Prop :=
  ∃ (desc : RxDefragDesc) (front : List Skb) (last : Skb),
    m.copies.map Copy.skb = front ++ [last] ∧ front ≠ [] ∧
      IsSequence desc (front ++ [last]) ∧ last.desc.moreFragBit = false

/-- A fragment other than 0 is accepted by a node whose queue is empty. -/
def orphan (e : RxDefragEntry) : Event → Bool
  | .data pskb _ =>
    pskb.desc.fragNum != 0 &&
      (e.list.find? fun a => (e.node a).carries pskb.desc).any fun a =>
        (e.node a).continuedBy pskb.desc && (e.node a).skbList.isEmpty
  | .recover .. => false

theorem sound_empty {n : RxDefragNode} (h : n.skbList = []) : n.Sound where
  sequence := by
    intro i s hs
    rw [h] at hs
    cases hs
  length hne := absurd h hne

theorem carries_iff {n : RxDefragNode} :
    n.carries d = true ↔ n.desc.staLutIndex = d.staLutIndex ∧ n.desc.tid = d.tid := by
  rw [RxDefragNode.carries, Bool.and_eq_true, beq_iff_eq, beq_iff_eq]

theorem continuedBy_iff {n : RxDefragNode} :
    n.continuedBy d = true ↔
      n.desc.seqNum = d.seqNum ∧ n.lastFragNum.toNat + 1 = d.fragNum.toNat := by
  rw [RxDefragNode.continuedBy, Bool.and_eq_true, beq_iff_eq, beq_iff_eq]

/-- The next fragment extends a sequence that has begun. -/
theorem Sound.extend {n n' : RxDefragNode} (h : n.Sound) (hne : n.skbList ≠ [])
    (hcarries : n.carries pskb.desc = true) (hnext : n.continuedBy pskb.desc = true)
    (hdesc : n'.desc = n.desc) (hskbs : n'.skbList = n.skbList ++ [pskb])
    (hlast : n'.lastFragNum = pskb.desc.fragNum) : n'.Sound := by
  obtain ⟨hsta, htid⟩ := carries_iff.mp hcarries
  obtain ⟨hseq, hfrag⟩ := continuedBy_iff.mp hnext
  have hlen := h.length hne
  constructor
  · intro i s hs
    rw [hdesc]
    rw [hskbs, List.getElem?_append] at hs
    split at hs
    · exact h.sequence i s hs
    · rename_i hi
      obtain ⟨rfl⟩ : pskb = s ∧ i = n.skbList.length := by
        have hlt := (List.getElem?_eq_some_iff.mp hs).1
        simp only [List.length_singleton] at hlt
        have hzero : i - n.skbList.length = 0 := by omega
        rw [hzero] at hs
        exact ⟨Option.some.inj hs, by omega⟩
      exact ⟨by omega, hsta.symm, htid.symm, hseq.symm⟩
  · intro _
    rw [hskbs, hlast, List.length_append, List.length_singleton]
    omega

/-- A fragment 0 starts a sequence in a node. -/
theorem Sound.begin {n' : RxDefragNode} (hfrag : pskb.desc.fragNum = 0)
    (hdesc : n'.desc = ⟨pskb.desc.staLutIndex, pskb.desc.tid, pskb.desc.fragNum, pskb.desc.seqNum⟩)
    (hskbs : n'.skbList = [pskb]) (hlast : n'.lastFragNum = pskb.desc.fragNum) : n'.Sound := by
  constructor
  · intro i s hs
    rw [hskbs] at hs
    cases i with
    | zero =>
      cases hs
      rw [hdesc, hfrag]
      exact ⟨rfl, rfl, rfl, rfl⟩
    | succ i => cases hs
  · intro _
    rw [hskbs, hlast, hfrag]
    rfl

theorem queueTail_ne (pskb : Skb) (h : b ≠ a) : (e.queueTail a pskb).node b = e.node b :=
  onNode_ne _ _ _ h

theorem Got.node_ne (h : Got e d a e₁) (hb : b ≠ a) : e₁.node b = e.node b := by
  cases h with
  | continued => exact onNode_ne _ _ _ hb
  | renewed | replaced => rw [startNode_node, onNode_ne _ _ _ hb, purge_ne _ _ hb]

theorem started_sound (hfrag : pskb.desc.fragNum = 0) :
    (((e.startNode a pskb.desc).queueTail a pskb).node a).Sound := by
  apply Sound.begin hfrag
  · rw [RxDefragEntry.queueTail, onNode_self, startNode_node, onNode_self]
    rfl
  · rw [queueTail_self, startNode_node, onNode_self, purge_self]
    rfl
  · rw [RxDefragEntry.queueTail, onNode_self, startNode_node, onNode_self]
    rfl

/-- Unless the fragment is an orphan, the node it is queued in stays sound. -/
theorem Got.sound (h : Got e pskb.desc a e₁) (hs : ∀ b, (e.node b).Sound)
    (horphan : orphan e (.data pskb alloc) = false) :
    ((e₁.queueTail a pskb).node a).Sound := by
  cases h with
  | continued hfrag hfind hnext =>
    have hne : (e.node a).skbList ≠ [] := by
      intro hempty
      simp only [orphan, hfind, Option.any_some, hnext, hempty, List.isEmpty_nil, Bool.and_true,
        bne_eq_false_iff_eq] at horphan
      exact hfrag horphan
    refine Sound.extend (hs a) hne (by simpa using List.find?_some hfind) hnext ?_ ?_ ?_
    · simp [RxDefragEntry.queueTail]
    · simp [RxDefragEntry.queueTail]
    · simp [RxDefragEntry.queueTail]
  | renewed hfrag | replaced hfrag => exact started_sound hfrag

theorem Got.all_sound (h : Got e pskb.desc a e₁) (hs : ∀ b, (e.node b).Sound)
    (horphan : orphan e (.data pskb alloc) = false) (b : NodeAddr) :
    ((e₁.queueTail a pskb).node b).Sound := by
  by_cases hb : b = a
  · subst hb
    exact h.sound hs horphan
  · rw [queueTail_ne pskb hb, h.node_ne hb]
    exact hs b

theorem copyRest_skbs (offset : BitVec 16) (skbs : List Skb) :
    (copyRest offset skbs).map Copy.skb = skbs := by
  induction skbs generalizing offset with
  | nil => rfl
  | cons s skbs ih => simp [copyRest, ih]

theorem assemble_skbs (msduLen : BitVec 32) (first : Skb) (rest : List Skb) :
    (assemble msduLen first rest).copies.map Copy.skb = first :: rest := by
  simp [assemble, copyRest_skbs]

/-- A completed sequence has at least two fragments. -/
theorem assemble_whole {n : RxDefragNode} {skbs : List Skb} {first : Skb} {rest : List Skb}
    (h : n.Sound) (hskbs : n.skbList = skbs ++ [pskb]) (hqueue : skbs ++ [pskb] = first :: rest)
    (hfrag : pskb.desc.fragNum ≠ 0) (hmore : pskb.desc.moreFragBit = false)
    (msduLen : BitVec 32) : (assemble msduLen first rest).Whole := by
  refine ⟨n.desc, skbs, pskb, by rw [assemble_skbs, hqueue], ?_, hskbs ▸ h.sequence, hmore⟩
  rintro rfl
  have hzero := (h.sequence 0 pskb (by rw [hskbs]; rfl)).1
  exact hfrag (BitVec.eq_of_toNat_eq hzero)

/-! ## Steps and runs -/

/-- Every queue is a sequence, and every reassembled buffer a whole one. -/
structure Reassembles (e : RxDefragEntry) : Prop where
  sound : ∀ a, (e.node a).Sound
  whole : ∀ m, .msdu m ∈ e.netRxList → m.Whole

/-- What every purge keeps, `sprdwl_defrag_recover` keeps. -/
theorem recover_induct {P : RxDefragEntry → Prop}
    (hpurge : ∀ e' a, a ∈ e.list → P e' → P (e'.purge a)) (h : P e) (mode : Mode)
    (ctxId : BitVec 8) (peerEntry : List PeerEntry) :
    P (sprdwlDefragRecover e mode ctxId peerEntry) := by
  rw [sprdwlDefragRecover]
  split
  · rename_i lutIndex _
    suffices hfold : ∀ (l : List NodeAddr) (e₀ : RxDefragEntry), (∀ a ∈ l, a ∈ e.list) → P e₀ →
        P (l.foldl (fun e a =>
          if lutIndex = (e.node a).desc.staLutIndex.setWidth 8 ∧ (e.node a).skbList ≠ [] then
            e.purge a
          else e) e₀) from hfold e.list e (fun _ ha => ha) h
    intro l
    induction l with
    | nil => exact fun e₀ _ h₀ => h₀
    | cons a l ih =>
      intro e₀ hl h₀
      rw [List.foldl_cons]
      apply ih _ fun b hb => hl b (List.mem_cons_of_mem a hb)
      split
      · exact hpurge e₀ a (hl a (List.mem_cons_self ..)) h₀
      · exact h₀
  · exact h

theorem purge_reassembles (h : Reassembles e) (a : NodeAddr) : Reassembles (e.purge a) where
  sound b := by
    by_cases hb : b = a
    · subst hb
      exact sound_empty (by rw [purge_self])
    · rw [purge_ne _ _ hb]
      exact h.sound b
  whole := h.whole

/-- The queue of a node that is done with is empty. -/
theorem emptied_sound (h : ∀ b, (e.node b).Sound) (a b : NodeAddr) :
    ((e.onNode a fun n => { n with skbList := [] }).node b).Sound := by
  by_cases hb : b = a
  · subst hb
    exact sound_empty (by rw [onNode_self])
  · rw [onNode_ne _ _ _ hb]
    exact h b

theorem Got.netRxList (h : Got e d a e₁) : e₁.netRxList = e.netRxList := by
  cases h with
  | continued => rfl
  | renewed | replaced => exact startNode_netRxList _ _ d

theorem step_reassembles (h : Reassembles e) {ev : Event} (horphan : orphan e ev = false)
    (hs : step e ev = .ok e') : Reassembles e' := by
  cases ev with
  | recover mode ctxId peerEntry =>
    cases hs
    exact recover_induct (P := Reassembles) (fun e' a _ h' => purge_reassembles h' a) h mode ctxId peerEntry
  | data pskb alloc =>
    obtain ⟨r, hr, rfl⟩ := map_eq_ok.mp hs
    cases defragDataProcess_processed hr with
    | whole =>
      refine ⟨h.sound, fun m hm => ?_⟩
      simp only [Option.toList_some, List.mem_append, List.mem_singleton, reduceCtorEq,
        or_false] at hm
      exact h.whole m hm
    | refused =>
      refine ⟨h.sound, fun m hm => h.whole m ?_⟩
      simpa using hm
    | queued a e₁ hgot hmore =>
      refine ⟨hgot.all_sound h.sound horphan, fun m hm => h.whole m ?_⟩
      simpa [RxDefragEntry.queueTail, hgot.netRxList] using hm
    | completed a e₁ first rest hfrag hgot hmore hqueue halloc =>
      have hsound := hgot.all_sound h.sound horphan
      constructor
      · intro b
        simp only [retire_node, kfree_node]
        exact emptied_sound hsound a b
      · intro m hm
        simp only [retire_netRxList, kfree_netRxList, onNode_netRxList, Option.toList_some,
          List.mem_append, List.mem_singleton, Returned.msdu.injEq] at hm
        rcases hm with hm | rfl
        · exact h.whole m (hgot.netRxList ▸ hm)
        · exact assemble_whole (hsound a) (queueTail_self e₁ a pskb) hqueue hfrag hmore _
    | abandoned a e₁ first rest hfrag hgot hmore hqueue halloc =>
      refine ⟨fun b => ?_, fun m hm => h.whole m ?_⟩
      · simp only [retire_node, kfree_node]
        exact emptied_sound (hgot.all_sound h.sound horphan) a b
      · simpa [RxDefragEntry.queueTail, hgot.netRxList] using hm

theorem init_reassembles : Reassembles sprdwlDefragInit where
  sound _ := sound_empty rfl
  whole m hm := by cases hm

/-- Every buffer that reassembly returns is made of the fragments 0, 1, .., n of one sequence
if no step of the run accepts an orphan. -/
theorem reassembles_whole_sequences {es : List Event}
    (hr : run step sprdwlDefragInit es = .ok e)
    (hC : Along step (fun e ev => orphan e ev = false) sprdwlDefragInit es) : ∀ m, .msdu m ∈ e.netRxList → m.Whole :=
  (run_invariant (fun _ _ _ h hC hs => step_reassembles h hC hs) init_reassembles hC hr).whole

/-- A fragment of station 1 with sequence number 5. -/
def fragment (addr : ℕ) (fragNum : BitVec 4) (moreFragBit : Bool) : Skb :=
  ⟨addr, ⟨1, 0, 5, fragNum, moreFragBit, true, 0, 100⟩⟩

/-- Two fragments that make up a sequence. -/
def twoFragments : List Event :=
  [.data (fragment 10 0 true) true, .data (fragment 11 1 false) true]

theorem reassembles_whole_sequences_two : ∃ e m, run step sprdwlDefragInit twoFragments = .ok e ∧
    e.netRxList = [.msdu m] ∧ m.Whole :=
  ⟨_, _, rfl, rfl, reassembles_whole_sequences
    (show run step sprdwlDefragInit twoFragments = _ from rfl) (by decide) _
      (List.mem_singleton_self _)⟩

/-- The node keeps its descriptor when it is done with: a late fragment 2 continues the
completed sequence and is returned on its own. -/
theorem reassembles_late_fragment : ∃ e m,
    run step sprdwlDefragInit (twoFragments ++ [.data (fragment 12 2 false) true]) = .ok e ∧
      .msdu m ∈ e.netRxList ∧ m.copies.map Copy.skb = [fragment 12 2 false] ∧ ¬ m.Whole := by
  refine ⟨_, _, rfl, List.mem_cons_of_mem _ (List.mem_singleton_self _), rfl, ?_⟩
  rintro ⟨desc, front, last, hskbs, hfront, _⟩
  have hlen := congrArg List.length hskbs
  rw [List.length_append, List.length_singleton] at hlen
  have hpos := List.length_pos_iff.mpr hfront
  simp only [List.length_map] at hlen
  have hone : (1 : ℕ) = front.length + 1 := hlen
  omega

end Uwe5631.Defrag
