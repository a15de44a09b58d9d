import Uwe5631.BaNodeTableIntegrity
import Uwe5631.ReorderReleaseLoops
import Uwe5631.ReorderConservation

/-!
# Restarting and deleting a node

An ADDBA event for an existing node writes new window parameters over the slots of the
old session. A deletion drains the slots only while the node is active, and only those
its index mask reaches. Both are right exactly for the nodes described here.
-/
namespace Uwe5631.Reorder
open FallibleRuns RingWindow BucketTable

variable {x : Skb} {s s' : RxState} {n : RxBaNode} {e e' : BaEntry} {sta tid : ℕ} {a : NodeAddr}

/-- How often a buffer has left the driver. -/
def RxLists.out (x : Skb) (l : RxLists) : ℕ := l.deliveredSkbs.count x + l.freed.count x

theorem load_eq (x : Skb) (s : RxState) : s.load x = s.lists.out x + linkedIn x s.desc := rfl

theorem linkedIn_eq_zero_iff {d : RxBaNodeDesc} :
    (∀ x, linkedIn x d = 0) ↔ ∀ b ∈ d.reorderBuffer, b.skbs = [] := by
  constructor
  · intro h b hb
    rw [List.eq_nil_iff_forall_not_mem]
    intro x
    exact List.count_eq_zero.mp (total_eq_zero.mp (h x) b hb)
  · intro h x
    refine total_eq_zero.mpr fun b hb => ?_
    rw [h b hb, List.count_nil]

/-! ## Restarting a node -/

/-- The slot holds an MPDU. -/
def RxBaPkt.Holds (b : RxBaPkt) : Prop := b.skbs ≠ [] ∨ b.desc.msduNum ≠ 0

/-- The node is as a newly created one for the window. -/
structure LikeNew (start size : ℕ) (n : RxBaNode) : Prop where
  active : n.active = false
  winStart : n.rxBa.winStart = start
  winSize : n.rxBa.winSize = size
  winLimit : n.rxBa.winLimit = seqnoAdd start ((size : ℤ) - 1)
  empty : ∀ b ∈ n.rxBa.reorderBuffer, ¬ b.Holds
  count : n.rxBa.buffCnt = 0
  allocated : n.rxBa.indexMask + 1 ≤ n.rxBa.reorderBuffer.length

/-- The ADDBA event renews the node, and what was buffered has left. -/
def Renews (e : BaEntry) (sta tid winStart winSize : ℕ) (alloc : Option NodeAddr) (a : NodeAddr)
    (n : RxBaNode) : Prop :=
  ∃ e' n', wlanAddbaEvent sta tid winStart winSize alloc e = .ok (0, e') ∧
    e'.table.heap a = some n' ∧ LikeNew winStart winSize n' ∧
    ∀ x, e'.lists.out x = e.lists.out x + linkedIn x n.rxBa

/-- What an ADDBA event does to an existing node. -/
theorem wlanAddbaEvent_existing (h : TableInv e) (ha : e.table.heap a = some n) (winStart winSize : ℕ)
    (alloc : Option NodeAddr) :
    ∃ e', wlanAddbaEvent n.staLutIndex n.tid winStart winSize alloc e = .ok (0, e') ∧
      e'.table.heap a = some (startSession winStart winSize (getIndexSize (2 * winSize)) n) ∧
      e'.lists = e.lists := by
  obtain ⟨r, c, hr, hinv, hnode⟩ := findBaNode_spec h n.staLutIndex n.tid
  rw [(hnode a).mpr ⟨n, ha, rfl, rfl⟩] at hr
  have hn : BaEntry.node { e with currentBaNode := c } a = .ok n := node_eq_ok ha
  rw [wlanAddbaEvent, findOrCreate, hr]
  simp only [ok_bind, BaEntry.onNode, hn, ok_map]
  exact ⟨_, rfl, heap_write_self .., rfl⟩

theorem getIndexSize_pos (size : ℕ) (h : size ≤ 2 ^ 31) : 0 < getIndexSize size := by
  obtain ⟨i, _, hi⟩ := getIndexSize_eq (b := 31) (by omega) h
  rw [hi]
  exact Nat.two_pow_pos i

/-- In every reachable state, an ADDBA event renews an existing node exactly when none of
its slots holds an MPDU and the new window fits the slots allocated for the node. -/
theorem readdba_renews_iff {es : List BaEvent} (hr : run entryStep BaEntry.init es = .ok e)
    (ha : e.table.heap a = some n) (winStart winSize : U16) (alloc : Option NodeAddr) :
    Renews e n.staLutIndex n.tid winStart winSize alloc a n ↔
      (∀ b ∈ n.rxBa.reorderBuffer, ¬ b.Holds) ∧
        getIndexSize (2 * winSize) ≤ n.rxBa.reorderBuffer.length := by
  obtain ⟨e', he', hn', hl⟩ :=
    wlanAddbaEvent_existing (reachable_tableInv hr) ha winStart winSize alloc
  have hsize := winSize.isLt
  have hpos := getIndexSize_pos (2 * winSize) (by omega)
  constructor
  · rintro ⟨e'', n'', he'', hn'', hnew, _⟩
    rw [he'] at he''
    cases he''
    rw [hn'] at hn''
    cases hn''
    refine ⟨hnew.empty, ?_⟩
    have halloc := hnew.allocated
    simp only [startSession, setBaNodeDesc] at halloc
    omega
  · rintro ⟨hempty, hfit⟩
    refine ⟨e', _, he', hn', ⟨rfl, rfl, rfl, rfl, hempty, rfl, ?_⟩, fun x => ?_⟩
    · simp only [startSession, setBaNodeDesc]
      omega
    · have hnone : linkedIn x n.rxBa = 0 := linkedIn_eq_zero_iff.mpr (fun b hb => by
        by_contra hne
        exact hempty b hb (Or.inl hne)) x
      rw [hl, hnone, Nat.add_zero]

/-- The MSDU of a data frame for the node of station 0 and traffic identifier 0. -/
def dataMsdu (seqNum : Fin 4096) : RxMsduDesc :=
  { filterDesc 0 with
    seqNum := seqNum
    qosFlag := true }

/-- A session of 64 slots with one MPDU waiting. -/
def waitingSession : List BaEvent :=
  [.addba 0 0 0 8 (some 1), .activate 0 0, .data (dataMsdu 2) 7]

set_option maxRecDepth 4000 in
theorem readdba_renews_iff_waiting : ∃ e n,
    run entryStep BaEntry.init waitingSession = .ok e ∧ e.table.heap 1 = some n ∧
      (Renews e n.staLutIndex n.tid 0 64 none 1 n ↔
        (∀ b ∈ n.rxBa.reorderBuffer, ¬ b.Holds) ∧
          getIndexSize (2 * 64) ≤ n.rxBa.reorderBuffer.length) :=
  ⟨_, _, rfl, rfl, readdba_renews_iff (show run entryStep BaEntry.init waitingSession = _ from rfl)
    rfl 0 64 none⟩

set_option maxRecDepth 4000 in
/-- A second ADDBA event leaves the waiting MPDU in its slot and makes the mask larger than
the slots. -/
theorem readdba_does_not_renew : ∃ e n e' n',
    run entryStep BaEntry.init waitingSession = .ok e ∧ e.table.heap 1 = some n ∧
      wlanAddbaEvent 0 0 0 64 none e = .ok (0, e') ∧ e'.table.heap 1 = some n' ∧
      (n'.rxBa.reorderBuffer[2]?).map (·.skbs) = some [7] ∧ n'.rxBa.indexMask = 127 ∧
      n'.rxBa.reorderBuffer.length = 64 ∧ ¬ Renews e 0 0 0 64 none 1 n := by
  refine ⟨_, _, _, _, rfl, rfl, rfl, rfl, rfl, rfl, rfl, ?_⟩
  rintro ⟨e'', n'', he, hn, hnew, _⟩
  cases he
  cases hn
  have halloc := hnew.allocated
  revert halloc
  decide

/-! ## Draining a node -/

/-- The node is active, its slots are all there, and nothing waits beyond its mask; or it
is inactive and nothing waits. -/
def Drainable (n : RxBaNode) : Prop :=
  if n.active = true then
    n.rxBa.indexMask < n.rxBa.reorderBuffer.length ∧
      ∀ (i : ℕ) (b : RxBaPkt), n.rxBa.reorderBuffer[i]? = some b → n.rxBa.indexMask < i → b.skbs = []
  else ∀ b ∈ n.rxBa.reorderBuffer, b.skbs = []

/-- What a release does not touch: the mask, the number of slots, the slots beyond the mask. -/
structure SameBeyond (s s' : RxState) : Prop where
  mask : s'.desc.indexMask = s.desc.indexMask
  length : s'.desc.reorderBuffer.length = s.desc.reorderBuffer.length
  beyond : ∀ i, s.desc.indexMask < i → s'.desc.reorderBuffer[i]? = s.desc.reorderBuffer[i]?

theorem sameBeyond : ReleaseRelation SameBeyond where
  refl _ := ⟨rfl, rfl, fun _ _ => rfl⟩
  trans a b c h h' :=
    ⟨h'.mask.trans h.mask, h'.length.trans h.length, fun i hi =>
      (h'.beyond i (by rw [h.mask]; exact hi)).trans (h.beyond i hi)⟩
  release seq b s s' _ h := by
    obtain ⟨t, ht, hsame, _, hbuf, _⟩ := sendReorderSkb_spec (seq &&& s.desc.indexMask) b s
    rw [h] at ht
    cases ht
    refine ⟨hsame.indexMask, by rw [hbuf, List.length_set], fun i hi => ?_⟩
    have hle : seq &&& s.desc.indexMask ≤ s.desc.indexMask := Nat.and_le_right
    rw [hbuf, List.getElem?_set_ne (by omega)]
  move _ _ _ _ := ⟨rfl, rfl, fun _ _ => rfl⟩

/-- With all slots there, the in-order release returns. -/
theorem inOrderLoop_total (m seq : ℕ)
    (h : s.desc.indexMask < s.desc.reorderBuffer.length) : ∃ r, inOrderLoop m seq s = .ok r := by
  induction m generalizing seq s with
  | zero => exact ⟨_, rfl⟩
  | succ m ih =>
    have hle : seq &&& s.desc.indexMask ≤ s.desc.indexMask := Nat.and_le_right
    have hlt : seq &&& s.desc.indexMask < s.desc.reorderBuffer.length := by omega
    rw [inOrderLoop, pkt_eq_ok (List.getElem?_eq_getElem hlt), ok_bind]
    split
    · obtain ⟨t, ht, hsame, _, hbuf, _⟩ := sendReorderSkb_spec (seq &&& s.desc.indexMask)
        s.desc.reorderBuffer[seq &&& s.desc.indexMask] s
      rw [ht, ok_bind]
      apply ih
      simp only [hsame.indexMask, hbuf, List.length_set]
      exact h
    · exact ⟨_, rfl⟩

theorem betweenSeqloSeqhi_total (h : s.desc.indexMask < s.desc.reorderBuffer.length) :
    ∃ s', betweenSeqloSeqhi s = .ok s' := by
  obtain ⟨r, hr⟩ := inOrderLoop_total s.desc.buffCnt s.desc.winStart h
  rw [betweenSeqloSeqhi, sendMsduInOrder, hr]
  exact ⟨_, rfl⟩

/-- The flush loop empties the slots it runs over and leaves the others. -/
theorem flushLoop_total (m : ℕ) {i : ℕ} (h : i + m ≤ s.desc.reorderBuffer.length) :
    ∃ s', flushLoop m i s = .ok s' ∧ ∀ j, s'.desc.reorderBuffer[j]? =
      if i ≤ j ∧ j < i + m then some RxBaPkt.zero else s.desc.reorderBuffer[j]? := by
  induction m generalizing i s with
  | zero =>
    refine ⟨s, rfl, fun j => ?_⟩
    rw [if_neg (by omega)]
  | succ m ih =>
    have hlt : i < s.desc.reorderBuffer.length := by omega
    rw [flushLoop, pkt_eq_ok (List.getElem?_eq_getElem hlt), ok_bind]
    obtain ⟨s', hs', hslots⟩ := ih (i := i + 1) (s := ⟨s.lists.kfreeSkbList _,
      s.desc.setPkt i RxBaPkt.zero⟩) (by simp only [RxBaNodeDesc.setPkt, List.length_set]; omega)
    refine ⟨s', hs', fun j => ?_⟩
    rw [hslots j]
    simp only [RxBaNodeDesc.setPkt, List.getElem?_set]
    by_cases hj : j = i
    · subst hj
      rw [if_neg (by omega), if_pos rfl, if_pos hlt, if_pos (by omega)]
    · by_cases hin : i + 1 ≤ j ∧ j < i + 1 + m
      · rw [if_pos hin, if_pos (by omega)]
      · rw [if_neg hin, if_neg (Ne.symm hj), if_neg (by omega)]

theorem flushLoop_fits {m i : ℕ} (h : flushLoop m i s = .ok s') :
    m = 0 ∨ i + m ≤ s.desc.reorderBuffer.length := by
  induction m generalizing i s with
  | zero => exact Or.inl rfl
  | succ m ih =>
    obtain ⟨b, hb, h⟩ := bind_eq_ok.mp h
    have hlt := (List.getElem?_eq_some_iff.mp (slot_of_pkt hb)).1
    right
    rcases ih h with rfl | hle
    · omega
    · simp only [RxBaNodeDesc.setPkt, List.length_set] at hle
      omega

/-- A flush that returns empties all chains exactly if nothing waits beyond the mask. -/
theorem flushReorderBuffer_spec (h : flushReorderBuffer s = .ok s') :
    s.desc.indexMask < s.desc.reorderBuffer.length ∧ (∀ x, s'.load x = s.load x) ∧
      ((∀ b ∈ s'.desc.reorderBuffer, b.skbs = []) ↔
        ∀ (i : ℕ) (b : RxBaPkt), s.desc.reorderBuffer[i]? = some b → s.desc.indexMask < i →
          b.skbs = []) := by
  obtain ⟨t, ht, rfl⟩ := map_eq_ok.mp h
  have hfit : 0 + (s.desc.indexMask + 1) ≤ s.desc.reorderBuffer.length :=
    (flushLoop_fits ht).resolve_left (by omega)
  obtain ⟨t', ht', hslots⟩ := flushLoop_total (s.desc.indexMask + 1) hfit
  rw [ht] at ht'
  cases ht'
  have hload : ∀ x, t.load x = s.load x := fun x => flushLoop_load ht
  refine ⟨by omega, hload, ?_⟩
  constructor
  · intro hempty i b hb hi
    have hget : t.desc.reorderBuffer[i]? = some b := by
      rw [hslots i, if_neg (by omega), hb]
    exact hempty b (List.mem_of_getElem? hget)
  · intro hbeyond b hb
    obtain ⟨i, hi⟩ := List.getElem?_of_mem hb
    simp only [hslots i] at hi
    split at hi
    · cases hi
      rfl
    · exact hbeyond i b hi (by omega)

/-- A critical section puts out everything linked exactly for the drainable nodes, and
never more than that. -/
structure Drains (f : Session → Except Fault Session) : Prop where
  bound : ∀ s s', f s = .ok s' → ∀ x, s'.lists.out x ≤ s.lists.out x + linkedIn x s.node.rxBa
  exact_iff : ∀ s, (∃ s', f s = .ok s' ∧
    ∀ x, s'.lists.out x = s.lists.out x + linkedIn x s.node.rxBa) ↔ Drainable s.node

/-- From the flush of a state that holds the load of the node and its slots beyond the mask. -/
theorem drains_of_flush {f : Session → Except Fault Session}
    (hinactive : ∀ s, s.node.active = false → f s = .ok s)
    (hactive : ∀ s, s.node.active = true → ∀ s', f s = .ok s' → ∃ r r',
      (∀ x, r.load x = s.rx.load x) ∧ SameBeyond s.rx r ∧ flushReorderBuffer r = .ok r' ∧
        s'.lists = r'.lists)
    (htotal : ∀ s, s.node.active = true →
      s.node.rxBa.indexMask < s.node.rxBa.reorderBuffer.length → ∃ s', f s = .ok s') :
    Drains f := by
  have hflush : ∀ s, s.node.active = true → ∀ s', f s = .ok s' →
      ∃ r' : RxState, s'.lists = r'.lists ∧ (∀ x, r'.load x = s.rx.load x) ∧
        s.node.rxBa.indexMask < s.node.rxBa.reorderBuffer.length ∧
        ((∀ b ∈ r'.desc.reorderBuffer, b.skbs = []) ↔ Drainable s.node) := by
    intro s hact s' hs
    obtain ⟨r, r', hload, hsame, hr, hl⟩ := hactive s hact s' hs
    obtain ⟨hlen, hload', hempty⟩ := flushReorderBuffer_spec hr
    have hmask : s.node.rxBa.indexMask < s.node.rxBa.reorderBuffer.length := by
      rw [hsame.mask, hsame.length] at hlen
      exact hlen
    refine ⟨r', hl, fun x => (hload' x).trans (hload x), hmask, hempty.trans ?_⟩
    rw [Drainable, if_pos hact, hsame.mask]
    constructor
    · intro h
      exact ⟨hmask, fun i b hb hi => h i b ((hsame.beyond i hi).trans hb) hi⟩
    · rintro ⟨_, h⟩ i b hb hi
      exact h i b ((hsame.beyond i hi).symm.trans hb) hi
  refine ⟨fun s s' hs x => ?_, fun s => ?_⟩
  · cases hact : s.node.active with
    | false =>
      rw [hinactive s hact] at hs
      cases hs
      omega
    | true =>
      obtain ⟨r', hl, hload, _, _⟩ := hflush s hact s' hs
      have := hload x
      rw [load_eq, load_eq] at this
      rw [hl]
      simp only [Session.rx] at this
      omega
  · cases hact : s.node.active with
    | false =>
      rw [hinactive s hact, Drainable, if_neg (by simp [hact]), ← linkedIn_eq_zero_iff]
      constructor
      · rintro ⟨s', hs, hout⟩ x
        cases hs
        have := hout x
        omega
      · intro hzero
        exact ⟨s, rfl, fun x => by rw [hzero x, Nat.add_zero]⟩
    | true =>
      constructor
      · rintro ⟨s', hs, hout⟩
        obtain ⟨r', hl, hload, _, hempty⟩ := hflush s hact s' hs
        rw [← hempty, ← linkedIn_eq_zero_iff]
        intro x
        have hx := hload x
        have hox := hout x
        rw [load_eq, load_eq] at hx
        rw [hl] at hox
        simp only [Session.rx] at hx
        omega
      · intro hdrain
        have hlen : s.node.rxBa.indexMask < s.node.rxBa.reorderBuffer.length := by
          rw [Drainable, if_pos hact] at hdrain
          exact hdrain.1
        obtain ⟨s', hs⟩ := htotal s hact hlen
        obtain ⟨r', hl, hload, _, hempty⟩ := hflush s hact s' hs
        refine ⟨s', hs, fun x => ?_⟩
        have hx := hload x
        have hzero := linkedIn_eq_zero_iff.mpr (hempty.mpr hdrain) x
        rw [load_eq, load_eq] at hx
        rw [hl]
        simp only [Session.rx] at hx
        omega

theorem flushReorderBuffer_total (h : s.desc.indexMask < s.desc.reorderBuffer.length) :
    ∃ s', flushReorderBuffer s = .ok s' := by
  obtain ⟨t, ht, _⟩ := flushLoop_total (s := s) (s.desc.indexMask + 1) (i := 0) (by omega)
  rw [flushReorderBuffer, ht]
  exact ⟨_, rfl⟩

theorem flushOnly_drains : Drains flushOnly := by
  refine drains_of_flush (fun s h => by simp [flushOnly, h]) (fun s h s' hs => ?_) fun s h hlen => ?_
  · rw [flushOnly, if_pos h] at hs
    obtain ⟨r, hr, rfl⟩ := map_eq_ok.mp hs
    exact ⟨_, r, fun x => rfl, sameBeyond.refl _, hr, rfl⟩
  · obtain ⟨r, hr⟩ := flushReorderBuffer_total (s := (s.mapNode RxBaNode.deactivate).rx) hlen
    rw [flushOnly, if_pos h, hr]
    exact ⟨_, rfl⟩

theorem releaseAndFlush_drains : Drains releaseAndFlush := by
  refine drains_of_flush (fun s h => by simp [releaseAndFlush, h]) (fun s h s' hs => ?_)
    fun s h hlen => ?_
  · rw [releaseAndFlush, if_pos h] at hs
    obtain ⟨r, hr, hs⟩ := bind_eq_ok.mp hs
    obtain ⟨r', hr', rfl⟩ := map_eq_ok.mp hs
    exact ⟨r, r', fun x => betweenSeqloSeqhi_related (keepsLoad x) hr,
      betweenSeqloSeqhi_related sameBeyond hr, hr', rfl⟩
  · obtain ⟨r, hr⟩ := betweenSeqloSeqhi_total (s := (s.mapNode RxBaNode.deactivate).rx) hlen
    have hsame := betweenSeqloSeqhi_related sameBeyond hr
    obtain ⟨r', hr'⟩ := flushReorderBuffer_total (s := r) (by
      rw [hsame.mask, hsame.length]
      exact hlen)
    rw [releaseAndFlush, if_pos h, hr, ok_bind, hr']
    exact ⟨_, rfl⟩

/-! ## Deleting a node from the table -/

/-- How often a buffer is linked in the node of a pair. -/
def linkedAt (x : Skb) (sta tid : ℕ) (e : BaEntry) : ℕ :=
  match findBaNode sta tid e with
  | .ok (some a, _) => ((e.table.heap a).map fun n => linkedIn x n.rxBa).getD 0
  | _ => 0

/-- The node of a pair, if there is one, is drainable. -/
def DrainableAt (e : BaEntry) (sta tid : ℕ) : Prop :=
  ∀ a n, e.table.heap a = some n → n.tid = tid → n.staLutIndex = sta → Drainable n

theorem linkedAt_eq (h : TableInv e) (ha : e.table.heap a = some n) (x : Skb) :
    linkedAt x n.staLutIndex n.tid e = linkedIn x n.rxBa := by
  obtain ⟨r, c, hr, _, hnode⟩ := findBaNode_spec h n.staLutIndex n.tid
  rw [(hnode a).mpr ⟨n, ha, rfl, rfl⟩] at hr
  simp [linkedAt, hr, ha]

theorem linkedAt_eq_zero (h : TableInv e) (hno : ∀ a, ¬ IsNodeOf e sta tid a) (x : Skb) :
    linkedAt x sta tid e = 0 := by
  obtain ⟨r, c, hr, _, hnode⟩ := findBaNode_spec h sta tid
  cases r with
  | none => simp [linkedAt, hr]
  | some a => exact absurd ((hnode a).mp rfl) (hno a)

/-- The table agrees about all nodes of another traffic identifier. -/
def SameElsewhere (tid : ℕ) (e e' : BaEntry) : Prop :=
  ∀ b m, m.tid ≠ tid → (e'.table.heap b = some m ↔ e.table.heap b = some m)

theorem SameElsewhere.drainableAt {tid' : ℕ} (h : SameElsewhere tid e e') (hne : tid' ≠ tid) :
    DrainableAt e' sta tid' ↔ DrainableAt e sta tid' := by
  refine forall_congr' fun b => forall_congr' fun m => ?_
  constructor
  · intro hd hb htid
    exact hd ((h b m (by rw [htid]; exact hne)).mpr hb) htid
  · intro hd hb htid
    exact hd ((h b m (by rw [htid]; exact hne)).mp hb) htid

theorem SameElsewhere.linkedAt {tid' : ℕ} (h : SameElsewhere tid e e') (he : TableInv e)
    (he' : TableInv e') (hne : tid' ≠ tid) (x : Skb) :
    linkedAt x sta tid' e' = linkedAt x sta tid' e := by
  by_cases hnode : ∃ a, IsNodeOf e sta tid' a
  · rcases hnode with ⟨a, n, hn, rfl, rfl⟩
    rw [linkedAt_eq he hn, linkedAt_eq he' ((h a n hne).mpr hn)]
  · have hnone : ∀ a, ¬ IsNodeOf e sta tid' a := fun a ha => hnode ⟨a, ha⟩
    rw [linkedAt_eq_zero he hnone, linkedAt_eq_zero he']
    rintro a ⟨n, hn, rfl, hsta⟩
    exact hnone a ⟨n, (h a n hne).mp hn, rfl, hsta⟩

/-- Both deletions of the node of a pair. -/
theorem deleteFound_drains (h : TableInv e) (sta tid : ℕ) {f : Session → Except Fault Session}
    (hf : Drains f) {D : Except Fault BaEntry}
    (hD : D = (findBaNode sta tid e).bind fun
      | (some a, e) => e.deleteNode a f
      | (none, e) => .ok e) :
    (∀ e', D = .ok e' → SameElsewhere tid e e' ∧
      ∀ x, e'.lists.out x ≤ e.lists.out x + linkedAt x sta tid e) ∧
    ((∃ e', D = .ok e' ∧ ∀ x, e'.lists.out x = e.lists.out x + linkedAt x sta tid e) ↔
      DrainableAt e sta tid) := by
  obtain ⟨r, c, hr, _, hnode⟩ := findBaNode_spec h sta tid
  rw [hr, ok_bind] at hD
  cases r with
  | none =>
    have hno : ∀ a, ¬ IsNodeOf e sta tid a := fun a ha => by cases (hnode a).mpr ha
    simp only at hD
    subst hD
    refine ⟨fun e' he => ?_, ?_⟩
    · cases he
      exact ⟨fun _ _ _ => Iff.rfl, fun x => Nat.le_add_right _ _⟩
    · refine iff_of_true ⟨_, rfl, fun x => ?_⟩ fun a n ha htid hsta => ?_
      · rw [linkedAt_eq_zero h hno, Nat.add_zero]
      · exact absurd ⟨n, ha, htid, hsta⟩ (hno a)
  | some a =>
    obtain ⟨n, hn, rfl, rfl⟩ := (hnode a).mp rfl
    have hnode' : BaEntry.node { e with currentBaNode := c } a = .ok n := node_eq_ok hn
    simp only [BaEntry.deleteNode, hnode', ok_bind] at hD
    have hlink := linkedAt_eq h hn
    have hdrain : DrainableAt e n.staLutIndex n.tid ↔ Drainable n := by
      constructor
      · intro hd
        exact hd a n hn rfl rfl
      · intro hd b m hm htid hsta
        have hba := h.valid.unique b a m n hm hn htid hsta
        rw [hba, hn] at hm
        cases hm
        exact hd
    subst hD
    refine ⟨fun e' he => ?_, ?_⟩
    · obtain ⟨s, hs, rfl⟩ := map_eq_ok.mp he
      refine ⟨fun b m hm => ?_, fun x => ?_⟩
      · by_cases hba : b = a
        · subst hba
          simp only [heap_remove_self, reduceCtorEq, false_iff]
          intro hb
          rw [hn] at hb
          cases hb
          exact hm rfl
        · rw [heap_remove_ne _ hba]
      · rw [hlink]
        exact hf.bound _ s hs x
    · rw [hdrain]
      have hiff := hf.exact_iff ⟨{ n with timerPending := false }, e.lists⟩
      refine Iff.trans ?_ hiff
      constructor
      · rintro ⟨e', he, hout⟩
        obtain ⟨s, hs, rfl⟩ := map_eq_ok.mp he
        exact ⟨s, hs, fun x => by rw [← hlink]; exact hout x⟩
      · rintro ⟨s, hs, hout⟩
        exact ⟨_, by rw [hs, ok_map], fun x => by rw [hlink]; exact hout x⟩

/-- `wlan_delba_event` puts out everything linked in the node of the pair. -/
def DelbaDrains (e : BaEntry) (sta tid : ℕ) : Prop :=
  ∃ e', wlanDelbaEvent sta tid e = .ok e' ∧
    ∀ x, e'.lists.out x = e.lists.out x + linkedAt x sta tid e

/-- `peer_entry_delba` puts out everything linked in the nodes of the station. -/
def PeerDelbaDrains (e : BaEntry) (lut : ℕ) : Prop :=
  ∃ e', peerEntryDelba lut e = .ok e' ∧
    ∀ x, e'.lists.out x = e.lists.out x +
      ((List.range NUM_TIDS).map fun tid => linkedAt x lut tid e).sum

/-- The deletions of a station, over any of the traffic identifiers. -/
theorem peerDelba_drains (lut : ℕ) {tids : List ℕ} (hnodup : tids.Nodup) (h : TableInv e) :
    (∀ e', run (peerDelbaTid lut) e tids = .ok e' → ∀ x,
      e'.lists.out x ≤ e.lists.out x + (tids.map fun tid => linkedAt x lut tid e).sum) ∧
    ((∃ e', run (peerDelbaTid lut) e tids = .ok e' ∧ ∀ x,
        e'.lists.out x = e.lists.out x + (tids.map fun tid => linkedAt x lut tid e).sum) ↔
      ∀ tid ∈ tids, DrainableAt e lut tid) := by
  induction tids generalizing e with
  | nil =>
    refine ⟨fun e' he x => ?_, iff_of_true ⟨e, rfl, fun x => rfl⟩ (by simp)⟩
    cases he
    exact Nat.le_refl _
  | cons tid tids ih =>
    obtain ⟨hnot, hnodup⟩ := List.nodup_cons.mp hnodup
    obtain ⟨hfirst, hfirst_iff⟩ := deleteFound_drains h lut tid flushOnly_drains
      (D := peerDelbaTid lut e tid) rfl
    have hinv : ∀ e₁, peerDelbaTid lut e tid = .ok e₁ → TableInv e₁ := fun e₁ he =>
      ((deleteFound_yields h lut tid flushOnly_faults).inv e₁ he).1
    have hne : ∀ tid' ∈ tids, tid' ≠ tid := by
      rintro tid' hmem rfl
      exact hnot hmem
    -- the rest of the loop sees the same nodes as before the first turn
    have hsum : ∀ e₁, peerDelbaTid lut e tid = .ok e₁ → ∀ x,
        (tids.map fun tid' => linkedAt x lut tid' e₁).sum =
          (tids.map fun tid' => linkedAt x lut tid' e).sum := by
      intro e₁ he x
      congr 1
      exact List.map_congr_left fun tid' hmem =>
        (hfirst e₁ he).1.linkedAt h (hinv e₁ he) (hne tid' hmem) x
    have hrest : ∀ e₁, peerDelbaTid lut e tid = .ok e₁ →
        ((∀ tid' ∈ tids, DrainableAt e₁ lut tid') ↔ ∀ tid' ∈ tids, DrainableAt e lut tid') := by
      intro e₁ he
      exact forall₂_congr fun tid' hmem => (hfirst e₁ he).1.drainableAt (hne tid' hmem)
    simp only [List.map_cons, List.sum_cons, List.forall_mem_cons]
    refine ⟨fun e' he x => ?_, ?_⟩
    · obtain ⟨e₁, he₁, he'⟩ := bind_eq_ok.mp he
      have hb := (hfirst e₁ he₁).2 x
      have hr := (ih hnodup (hinv e₁ he₁)).1 e' he' x
      rw [hsum e₁ he₁ x] at hr
      omega
    · constructor
      · rintro ⟨e', he, hout⟩
        obtain ⟨e₁, he₁, he'⟩ := bind_eq_ok.mp he
        have hih := ih hnodup (hinv e₁ he₁)
        have hboth : ∀ x, e₁.lists.out x = e.lists.out x + linkedAt x lut tid e ∧
            e'.lists.out x = e₁.lists.out x +
              (tids.map fun tid' => linkedAt x lut tid' e₁).sum := by
          intro x
          have hb := (hfirst e₁ he₁).2 x
          have hr := hih.1 e' he' x
          have ho := hout x
          have hs := hsum e₁ he₁ x
          omega
        exact ⟨hfirst_iff.mp ⟨e₁, he₁, fun x => (hboth x).1⟩,
          (hrest e₁ he₁).mp (hih.2.mp ⟨e', he', fun x => (hboth x).2⟩)⟩
      · rintro ⟨hd, hds⟩
        obtain ⟨e₁, he₁, hout₁⟩ := hfirst_iff.mpr hd
        obtain ⟨e', he', hout'⟩ :=
          (ih hnodup (hinv e₁ he₁)).2.mpr ((hrest e₁ he₁).mpr hds)
        refine ⟨e', by rw [run_cons_ok he₁, he'], fun x => ?_⟩
        rw [hout' x, hout₁ x, hsum e₁ he₁ x, Nat.add_assoc]

/-- In every reachable state, a deletion puts out everything linked in the nodes it deletes
exactly when these nodes are drainable. -/
theorem teardown_drains_iff {es : List BaEvent} (hr : run entryStep BaEntry.init es = .ok e) :
    (∀ sta tid, DelbaDrains e sta tid ↔ DrainableAt e sta tid) ∧
      ∀ lut, PeerDelbaDrains e lut ↔ ∀ tid, DrainableAt e lut tid := by
  have h := reachable_tableInv hr
  refine ⟨fun sta tid => (deleteFound_drains h sta tid releaseAndFlush_drains rfl).2, fun lut => ?_⟩
  apply (peerDelba_drains lut List.nodup_range h).2.trans
  constructor
  · intro hd tid a n ha htid hsta
    have hlt : tid < NUM_TIDS := by
      obtain ⟨hlt, _⟩ := h.valid.linked a n ha
      rw [← htid]
      exact hlt
    exact hd tid (List.mem_range.mpr hlt) a n ha htid hsta
  · exact fun hd tid _ => hd tid

set_option maxRecDepth 4000 in
theorem teardown_drains_iff_waiting : ∃ e,
    run entryStep BaEntry.init waitingSession = .ok e ∧
      (DelbaDrains e 0 0 ↔ DrainableAt e 0 0) ∧
      (PeerDelbaDrains e 0 ↔ ∀ tid, DrainableAt e 0 tid) := by
  obtain ⟨e, he⟩ : ∃ e, run entryStep BaEntry.init waitingSession = .ok e := ⟨_, rfl⟩
  obtain ⟨hdelba, hpeer⟩ := teardown_drains_iff he
  exact ⟨e, he, hdelba 0 0, hpeer 0⟩

/-- Every second MPDU of a window of 128 arrives, then the timer expires until the node is
made inactive. -/
def exhaustedSession : List BaEvent :=
  [BaEvent.addba 0 0 0 128 (some 1), BaEvent.activate 0 0] ++
    (List.range 62).map (fun i => BaEvent.data (dataMsdu (Fin.ofNat 4096 (2 * i + 2))) i) ++
    (List.replicate 61 [BaEvent.timer 1 false, BaEvent.timer 1 true]).flatten

/-- What the two deletions of a node put out of a buffer, beside what is linked. -/
def deletionOf (x : Skb) (e : BaEntry) : ℕ × Option ℕ × Option ℕ :=
  (e.lists.out x + linkedAt x 0 0 e,
    (wlanDelbaEvent 0 0 e).toOption.map fun e' => e'.lists.out x,
    (peerEntryDelba 0 e).toOption.map fun e' => e'.lists.out x)

theorem deletionOf_exhausted :
    (run entryStep BaEntry.init exhaustedSession).map (deletionOf 61) =
      .ok (1, some 0, some 0) := by
  decide +kernel

/-- The last MPDU is still linked when the timer makes the node inactive, and both deletions
free the node without it. -/
theorem teardown_does_not_drain : ∃ e, run entryStep BaEntry.init exhaustedSession = .ok e ∧
    ¬ DelbaDrains e 0 0 ∧ ¬ PeerDelbaDrains e 0 := by
  obtain ⟨e, he, hfact⟩ := map_eq_ok.mp deletionOf_exhausted
  simp only [deletionOf, Prod.mk.injEq] at hfact
  rcases hfact with ⟨hlinked, hdelba, hpeer⟩
  refine ⟨e, he, ?_, ?_⟩
  · rintro ⟨e', he', hout⟩
    have hx := hout 61
    rw [he'] at hdelba
    have hzero : e'.lists.out 61 = 0 := Option.some.inj hdelba
    omega
  · rintro ⟨e', he', hout⟩
    have hx := hout 61
    rw [he'] at hpeer
    have hzero : e'.lists.out 61 = 0 := Option.some.inj hpeer
    have hle : linkedAt 61 0 0 e ≤
        ((List.range NUM_TIDS).map fun tid => linkedAt 61 0 tid e).sum :=
      List.le_sum_of_mem (List.mem_map_of_mem (List.mem_range.mpr (by decide)))
    omega

end Uwe5631.Reorder
