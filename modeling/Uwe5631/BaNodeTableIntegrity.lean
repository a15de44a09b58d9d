import Uwe5631.BaNodeTable
import Uwe5631.ReorderNodeFrames

/-!
# Integrity of the table of block-ack nodes

Lookup trusts the bucket for the traffic identifier and compares the station only, and
the one-entry cache is not cleared by every path. In a valid table the two agree: a
lookup finds the one node of a pair. The only way out of a valid table is a creation for
a traffic identifier that has no bucket.
-/
namespace Uwe5631.Reorder
open FallibleRuns BucketTable

variable {e e' : BaEntry} {sta tid : ℕ} {a : NodeAddr}

/-- Every node is in the bucket of its traffic identifier, there is one node for a pair,
and the cache is empty or holds a live node. -/
structure TableInv (e : BaEntry) : Prop where
  valid : Valid RxBaNode.tid RxBaNode.staLutIndex e.table
  current : ∀ a, e.currentBaNode = some a → ∃ n, e.table.heap a = some n

theorem tableInv_init : TableInv BaEntry.init := ⟨valid_empty, by simp [BaEntry.init]⟩

/-- The node of a pair. -/
def IsNodeOf (e : BaEntry) (sta tid : ℕ) (a : NodeAddr) : Prop :=
  ∃ n, e.table.heap a = some n ∧ n.tid = tid ∧ n.staLutIndex = sta

theorem TableInv.isNodeOf_unique (h : TableInv e) {b : NodeAddr} (ha : IsNodeOf e sta tid a)
    (hb : IsNodeOf e sta tid b) : a = b := by
  rcases ha with ⟨n, hn, hnt, hns⟩
  rcases hb with ⟨m, hm, hmt, hms⟩
  exact h.valid.unique a b n m hn hm (by rw [hnt, hmt]) (by rw [hns, hms])

theorem node_eq_ok {n : RxBaNode} (h : e.table.heap a = some n) : e.node a = .ok n := by
  simp [BaEntry.node, h]

/-! ## Lookup -/

theorem findInBucket_spec (sta : ℕ) {as : List NodeAddr}
    (hlive : ∀ a ∈ as, ∃ n, e.table.heap a = some n) :
    ∃ r, findInBucket e sta as = .ok r ∧
      (∀ a, r = some a → a ∈ as ∧ ∃ n, e.table.heap a = some n ∧ n.staLutIndex = sta) ∧
      (r = none → ∀ a ∈ as, ∀ n, e.table.heap a = some n → n.staLutIndex ≠ sta) := by
  induction as with
  | nil => exact ⟨none, rfl, by simp, by simp⟩
  | cons b bs ih =>
    obtain ⟨m, hm⟩ := hlive b (List.mem_cons_self ..)
    rw [findInBucket, node_eq_ok hm, ok_bind]
    by_cases hsta : sta = m.staLutIndex
    · rw [if_pos hsta]
      refine ⟨some b, rfl, ?_, by simp⟩
      intro a ha
      cases ha
      exact ⟨List.mem_cons_self .., m, hm, hsta.symm⟩
    · rw [if_neg hsta]
      obtain ⟨r, hr, hsome, hnone⟩ := ih fun a ha => hlive a (List.mem_cons_of_mem _ ha)
      refine ⟨r, hr, fun a ha => ?_, fun hn a ha n hn' => ?_⟩
      · obtain ⟨hmem, hn⟩ := hsome a ha
        exact ⟨List.mem_cons_of_mem _ hmem, hn⟩
      · rcases List.mem_cons.mp ha with rfl | ha
        · rw [hm] at hn'
          cases hn'
          exact Ne.symm hsta
        · exact hnone hn a ha n hn'

/-- A lookup finds the node of the pair and only moves the cache. -/
theorem findBaNode_spec (h : TableInv e) (sta tid : ℕ) :
    ∃ r c, findBaNode sta tid e = .ok (r, { e with currentBaNode := c }) ∧
      TableInv { e with currentBaNode := c } ∧ ∀ a, r = some a ↔ IsNodeOf e sta tid a := by
  rw [findBaNode]
  by_cases htid : tid < NUM_TIDS
  · rw [if_pos htid]
    have hsame : ∃ b, isSameBa e sta tid e.currentBaNode = .ok b ∧
        (b = true → ∃ a, e.currentBaNode = some a ∧ IsNodeOf e sta tid a) := by
      cases hc : e.currentBaNode with
      | none => exact ⟨false, rfl, by simp⟩
      | some a =>
        obtain ⟨n, hn⟩ := h.current a hc
        rw [isSameBa, node_eq_ok hn, ok_map]
        refine ⟨_, rfl, fun hb => ⟨a, rfl, n, hn, ?_⟩⟩
        simp only [Bool.and_eq_true, decide_eq_true_eq] at hb
        exact ⟨hb.2, hb.1⟩
    rcases hsame with ⟨b, hb, hcache⟩
    rw [hb, ok_bind]
    cases b with
    | true =>
      obtain ⟨a, ha, hnode⟩ := hcache rfl
      refine ⟨some a, e.currentBaNode, by rw [if_pos rfl, ← ha], h, fun a' => ?_⟩
      constructor
      · intro heq
        cases heq
        exact hnode
      · intro hn
        rw [h.isNodeOf_unique hnode hn]
    | false =>
      rw [if_neg Bool.false_ne_true, BaEntry.hlist, dif_pos htid, ok_bind]
      obtain ⟨r, hr, hsome, hnone⟩ := findInBucket_spec sta fun a ha => by
        obtain ⟨n, hn, _⟩ := h.valid.live ⟨tid, htid⟩ a ha
        exact ⟨n, hn⟩
      rw [hr, ok_map]
      cases r with
      | none =>
        refine ⟨none, e.currentBaNode, rfl, h, fun a => ?_⟩
        simp only [reduceCtorEq, false_iff]
        rintro ⟨n, hn, rfl, hsta⟩
        obtain ⟨_, hmem⟩ := h.valid.linked a n hn
        exact hnone rfl a hmem n hn hsta
      | some b =>
        obtain ⟨hmem, n, hn, hsta⟩ := hsome b rfl
        obtain ⟨m, hm, hkey⟩ := h.valid.live _ b hmem
        rw [hn] at hm
        cases hm
        have hnode : IsNodeOf e sta tid b := ⟨n, hn, hkey, hsta⟩
        refine ⟨some b, some b, rfl, ⟨h.valid, ?_⟩, fun a => ?_⟩
        · intro a ha
          cases ha
          exact ⟨n, hn⟩
        · constructor
          · intro heq
            cases heq
            exact hnode
          · intro ha
            rw [h.isNodeOf_unique hnode ha]
  · rw [if_neg htid]
    refine ⟨none, e.currentBaNode, rfl, h, fun a => ?_⟩
    simp only [reduceCtorEq, false_iff]
    rintro ⟨n, hn, rfl, _⟩
    obtain ⟨hlt, _⟩ := h.valid.linked a n hn
    exact htid hlt

/-! ## Operations -/

/-- The pairs that have a node, the traffic identifier first. -/
def BaEntry.names (e : BaEntry) : Set (ℕ × ℕ) :=
  BucketTable.names RxBaNode.tid RxBaNode.staLutIndex e.table

/-- The operation faults only inside nodes and leaves a valid table with the given names. -/
structure Yields (N : Set (ℕ × ℕ)) (x : Except Fault BaEntry) : Prop where
  faults : FaultsIn Fault.inNode x
  inv : ∀ e', x = .ok e' → TableInv e' ∧ e'.names = N

theorem Yields.same (h : TableInv e) : Yields e.names (.ok e) where
  faults := .ok e
  inv e' he := by
    cases he
    exact ⟨h, rfl⟩

theorem isNodeOf_iff_names : (∃ a, IsNodeOf e sta tid a) ↔ (tid, sta) ∈ e.names := Iff.rfl

/-- A function that keeps the name of its node keeps the table. -/
def KeepsName (f : Session → Except Fault Session) : Prop :=
  ∀ s, FaultsIn Fault.inNode (f s) ∧ ∀ s', f s = .ok s' → SameName s.node s'.node

theorem keepsName_step (ev : Event) : KeepsName (fun s => step s ev) :=
  fun s => ⟨step_faults s ev, fun _ h => step_sameName h⟩

theorem onNode_yields (h : TableInv e) (ha : IsNodeOf e sta tid a)
    {f : Session → Except Fault Session} (hf : KeepsName f) : Yields e.names (e.onNode a f) := by
  rcases ha with ⟨n, hn, _, _⟩
  obtain ⟨hfault, hname⟩ := hf ⟨n, e.lists⟩
  rw [BaEntry.onNode, node_eq_ok hn, ok_bind]
  refine ⟨hfault.map, fun e' he => ?_⟩
  obtain ⟨s, hs, rfl⟩ := map_eq_ok.mp he
  obtain ⟨htid, hsta⟩ := hname s hs
  refine ⟨⟨h.valid.write hn htid hsta, fun b hb => ?_⟩, names_write hn htid hsta⟩
  obtain ⟨m, hm⟩ := h.current b hb
  by_cases hba : b = a
  · subst hba
    exact ⟨s.node, heap_write_self ..⟩
  · exact ⟨m, by simp only [heap_write_ne _ hba, hm]⟩

theorem deleteNode_yields (h : TableInv e) (ha : IsNodeOf e sta tid a)
    {f : Session → Except Fault Session} (hf : ∀ s, FaultsIn Fault.inNode (f s)) :
    Yields (e.names \ {(tid, sta)}) (e.deleteNode a f) := by
  rcases ha with ⟨n, hn, rfl, rfl⟩
  rw [BaEntry.deleteNode, node_eq_ok hn, ok_bind]
  refine ⟨(hf _).map, fun e' he => ?_⟩
  obtain ⟨s, _, rfl⟩ := map_eq_ok.mp he
  exact ⟨⟨h.valid.remove, by simp⟩, h.valid.names_remove hn⟩

theorem onFound_yields (h : TableInv e) (sta tid : ℕ) {f : Session → Except Fault Session}
    (hf : KeepsName f) : Yields e.names (e.onFound sta tid f) := by
  obtain ⟨r, c, hr, hinv, hnode⟩ := findBaNode_spec h sta tid
  rw [BaEntry.onFound, hr, ok_bind]
  cases r with
  | none => exact Yields.same hinv
  | some a => exact onNode_yields (e := { e with currentBaNode := c }) hinv ((hnode a).mp rfl) hf

/-- Both deletions, up to what they do with the buffered MPDUs. -/
theorem deleteFound_yields (h : TableInv e) (sta tid : ℕ) {f : Session → Except Fault Session}
    (hf : ∀ s, FaultsIn Fault.inNode (f s)) :
    Yields (e.names \ {(tid, sta)}) ((findBaNode sta tid e).bind fun
      | (some a, e) => e.deleteNode a f
      | (none, e) => .ok e) := by
  obtain ⟨r, c, hr, hinv, hnode⟩ := findBaNode_spec h sta tid
  rw [hr, ok_bind]
  cases r with
  | none =>
    have habsent : (tid, sta) ∉ e.names := by
      rw [← isNodeOf_iff_names]
      intro ⟨a, ha⟩
      cases (hnode a).mpr ha
    rw [Set.sdiff_singleton_eq_self habsent]
    exact Yields.same hinv
  | some a => exact deleteNode_yields (e := { e with currentBaNode := c }) hinv ((hnode a).mp rfl) hf

theorem flushReorderBuffer_faults (s : RxState) :
    FaultsIn Fault.inNode (flushReorderBuffer s) :=
  (flushLoop_faults inNode_slot ..).map

theorem releaseAndFlush_faults (s : Session) : FaultsIn Fault.inNode (releaseAndFlush s) := by
  rw [releaseAndFlush]
  split
  · exact (betweenSeqloSeqhi_faults inNode_slot _).bind fun r => (flushReorderBuffer_faults r).map
  · exact .ok s

theorem flushOnly_faults (s : Session) : FaultsIn Fault.inNode (flushOnly s) := by
  rw [flushOnly]
  split
  · exact (flushReorderBuffer_faults _).map
  · exact .ok s

theorem wlanDelbaEvent_yields (h : TableInv e) (sta tid : ℕ) :
    Yields (e.names \ {(tid, sta)}) (wlanDelbaEvent sta tid e) :=
  deleteFound_yields h sta tid releaseAndFlush_faults

theorem peerDelba_yields (h : TableInv e) (lut : ℕ) (tids : List ℕ) :
    Yields {p ∈ e.names | ¬ (p.2 = lut ∧ p.1 ∈ tids)} (run (peerDelbaTid lut) e tids) := by
  induction tids generalizing e with
  | nil => simpa using Yields.same h
  | cons tid tids ih =>
    have hfirst := deleteFound_yields h lut tid flushOnly_faults
    rw [run_cons]
    have hnames : ∀ e' : BaEntry, e'.names = e.names \ {(tid, lut)} →
        {p ∈ e'.names | ¬ (p.2 = lut ∧ p.1 ∈ tids)} =
          {p ∈ e.names | ¬ (p.2 = lut ∧ p.1 ∈ tid :: tids)} := by
      intro e' he'
      ext ⟨k, g⟩
      rw [he']
      simp only [Set.mem_sdiff, Set.mem_singleton_iff, Set.mem_ofPred_eq, Prod.mk.injEq,
        List.mem_cons]
      tauto
    refine ⟨⟨fun f hf => ?_⟩, fun e'' he'' => ?_⟩
    · rcases bind_eq_error.mp hf with hf | ⟨e', he', hf⟩
      · exact hfirst.faults.fault f hf
      · exact (ih (hfirst.inv e' he').1).faults.fault f hf
    · obtain ⟨e', he', hrest⟩ := bind_eq_ok.mp he''
      obtain ⟨hinv, hn⟩ := hfirst.inv e' he'
      rw [← hnames e' hn]
      exact (ih hinv).inv e'' hrest

theorem TableInv.tid_lt (h : TableInv e) {p : ℕ × ℕ} (hp : p ∈ e.names) : p.1 < NUM_TIDS := by
  rcases hp with ⟨a, n, hn, hkey, _⟩
  obtain ⟨hlt, _⟩ := h.valid.linked a n hn
  rw [← hkey]
  exact hlt

theorem peerEntryDelba_yields (h : TableInv e) (lut : ℕ) :
    Yields {p ∈ e.names | p.2 ≠ lut} (peerEntryDelba lut e) := by
  have hset : {p ∈ e.names | p.2 ≠ lut} =
      {p ∈ e.names | ¬ (p.2 = lut ∧ p.1 ∈ List.range NUM_TIDS)} := by
    ext p
    simp only [Set.mem_ofPred_eq, List.mem_range]
    constructor
    · intro ⟨hp, hne⟩
      exact ⟨hp, fun hq => hne hq.1⟩
    · intro ⟨hp, hne⟩
      exact ⟨hp, fun hq => hne ⟨hq, h.tid_lt hp⟩⟩
  rw [hset]
  exact peerDelba_yields h lut _

theorem resetPn_yields (h : TableInv e) (lut : ℕ) : Yields e.names (resetPn lut e) := by
  have hrun : ∀ tids : List ℕ, ∀ e : BaEntry, TableInv e → Yields e.names
      (run (fun e tid => e.onFound lut tid fun s => step s .resetPn) e tids) := by
    intro tids
    induction tids with
    | nil => exact fun e he => Yields.same he
    | cons tid tids ih =>
      intro e he
      have hfirst := onFound_yields he lut tid (keepsName_step .resetPn)
      rw [run_cons]
      refine ⟨⟨fun f hf => ?_⟩, fun e'' he'' => ?_⟩
      · rcases bind_eq_error.mp hf with hf | ⟨e', he', hf⟩
        · exact hfirst.faults.fault f hf
        · exact (ih e' (hfirst.inv e' he').1).faults.fault f hf
      · obtain ⟨e', he', hrest⟩ := bind_eq_ok.mp he''
        obtain ⟨hinv, hn⟩ := hfirst.inv e' he'
        rw [← hn]
        exact (ih e' hinv).inv e'' hrest
  exact hrun _ e h

theorem reorderDataProcess_yields (h : TableInv e) (m : RxMsduDesc) (skb : Skb) :
    Yields e.names (reorderDataProcess m skb e) := by
  have hpass : ∀ c, TableInv { e with currentBaNode := c } → Yields e.names
      ((reorderSetSkbList e.lists .reorderDataProcess m.seqNum [skb]).map
        fun l => { e with currentBaNode := c, lists := l }) := by
    intro c hc
    refine ⟨(reorderSetSkbList_faults ..).map, fun e' he => ?_⟩
    obtain ⟨l, _, rfl⟩ := map_eq_ok.mp he
    exact ⟨⟨hc.valid, hc.current⟩, rfl⟩
  rw [reorderDataProcess]
  split
  · obtain ⟨r, c, hr, hinv, hnode⟩ := findBaNode_spec h m.staLutIndex m.tid
    rw [hr, ok_bind]
    cases r with
    | none => exact hpass c hinv
    | some a =>
      exact onNode_yields (e := { e with currentBaNode := c }) hinv ((hnode a).mp rfl)
        (keepsName_step (.msdu m skb))
  · exact hpass e.currentBaNode h

/-! ## Creation -/

/-- The names after an ADDBA event: an allocation that succeeds adds the pair. -/
def afterAddba (alloc : Option NodeAddr) (p : ℕ × ℕ) (N : Set (ℕ × ℕ)) : Set (ℕ × ℕ) :=
  {q | q ∈ N ∨ (alloc.isSome = true ∧ q = p)}

theorem afterAddba_none (p : ℕ × ℕ) (N : Set (ℕ × ℕ)) : afterAddba none p N = N := by
  ext q
  simp [afterAddba]

theorem afterAddba_mem {alloc : Option NodeAddr} {p : ℕ × ℕ} {N : Set (ℕ × ℕ)} (hp : p ∈ N) :
    afterAddba alloc p N = N := by
  ext q
  simp only [afterAddba, Set.mem_ofPred_eq]
  constructor
  · rintro (hq | ⟨_, rfl⟩)
    · exact hq
    · exact hp
  · exact Or.inl

theorem startSession_keepsName (winStart winSize indexSize : ℕ) :
    KeepsName fun s => .ok (s.mapNode (startSession winStart winSize indexSize)) := by
  intro s
  refine ⟨.ok _, fun s' hs => ?_⟩
  cases hs
  exact ⟨rfl, rfl⟩

/-- With a bucket for the traffic identifier, or no memory, ADDBA keeps the table. -/
theorem wlanAddbaEvent_yields (h : TableInv e) {winStart winSize : ℕ} {alloc : Option NodeAddr}
    (hfresh : ∀ a, alloc = some a → e.table.heap a = none) (htid : tid < NUM_TIDS ∨ alloc = none) :
    Yields (afterAddba alloc (tid, sta) e.names)
      ((wlanAddbaEvent sta tid winStart winSize alloc e).map Prod.snd) := by
  have hstart : ∀ e₁ : BaEntry, TableInv e₁ → ∀ a, IsNodeOf e₁ sta tid a → Yields e₁.names
      (((e₁.onNode a fun s => .ok (s.mapNode (startSession winStart winSize
        (getIndexSize (2 * winSize))))).map fun e => ((0 : ℤ), e)).map Prod.snd) := by
    intro e₁ h₁ a ha
    have hy := onNode_yields h₁ ha (startSession_keepsName winStart winSize
      (getIndexSize (2 * winSize)))
    refine ⟨hy.faults.map.map, fun e' he => ?_⟩
    obtain ⟨x, hx, rfl⟩ := map_eq_ok.mp he
    obtain ⟨e₂, he₂, rfl⟩ := map_eq_ok.mp hx
    exact hy.inv e₂ he₂
  obtain ⟨r, c, hr, hinv, hnode⟩ := findBaNode_spec h sta tid
  rw [wlanAddbaEvent, findOrCreate, hr, ok_bind]
  cases r with
  | some a =>
    have ha := (hnode a).mp rfl
    rw [afterAddba_mem (isNodeOf_iff_names.mp ⟨a, ha⟩)]
    exact hstart { e with currentBaNode := c } hinv a ha
  | none =>
    cases alloc with
    | none =>
      rw [afterAddba_none]
      exact Yields.same hinv
    | some a =>
      have hlt : tid < NUM_TIDS := htid.resolve_right (by simp)
      have ha := hfresh a rfl
      have habsent : (tid, sta) ∉ e.names := by
        rw [← isNodeOf_iff_names]
        intro ⟨b, hb⟩
        cases (hnode b).mpr hb
      simp only [createBaNode, dif_pos hlt, ok_bind]
      have hnames : afterAddba (some a) (tid, sta) e.names =
          BaEntry.names ⟨e.table.insert ⟨tid, hlt⟩ a
            (newBaNode sta tid (getIndexSize (2 * winSize))), some a, e.lists⟩ := by
        ext q
        simp only [BaEntry.names, names_insert ha, Set.mem_insert_iff, afterAddba,
          Set.mem_ofPred_eq, Option.isSome_some, true_and]
        exact or_comm
      have hvalid : Valid RxBaNode.tid RxBaNode.staLutIndex (e.table.insert ⟨tid, hlt⟩ a
          (newBaNode sta tid (getIndexSize (2 * winSize)))) :=
        h.valid.insert (v := newBaNode sta tid (getIndexSize (2 * winSize))) ha hlt habsent
      rw [hnames]
      refine hstart _ ⟨hvalid, ?_⟩ a ⟨_, heap_insert_self .., rfl, rfl⟩
      intro b hb
      cases hb
      exact ⟨_, heap_insert_self ..⟩

/-! ## Runs -/

/-- The pairs for which a node was created and not yet deleted, noted from the events. -/
def registryNote (N : Set (ℕ × ℕ)) (e : BaEntry) (ev : BaEvent) (_ : BaEntry) : Set (ℕ × ℕ) :=
  match ev with
  | .addba sta tid _ _ alloc => afterAddba (e.kzalloc alloc) (tid, sta) N
  | .delba sta tid => N \ {((tid : ℕ), (sta : ℕ))}
  | .peerDelba lut => {p ∈ N | p.2 ≠ lut}
  | .filter .. | .data .. | .resetPn .. | .activate .. | .timer .. => N

/-- An ADDBA event that creates a node carries a traffic identifier with a bucket. -/
def TidFits : BaEvent → Prop
  | .addba _ tid _ _ alloc => (tid : ℕ) < NUM_TIDS ∨ alloc = none
  | .delba .. | .filter .. | .data .. | .peerDelba .. | .resetPn .. | .activate .. | .timer .. =>
    True

instance : DecidablePred TidFits
  | .addba _ tid _ _ alloc => inferInstanceAs (Decidable ((tid : ℕ) < NUM_TIDS ∨ alloc = none))
  | .delba .. | .filter .. | .data .. | .peerDelba .. | .resetPn .. | .activate .. | .timer .. =>
    isTrue trivial

theorem entryStep_yields (h : TableInv e) {ev : BaEvent} (hev : TidFits ev) :
    Yields (registryNote e.names e ev e) (entryStep e ev) := by
  cases ev with
  | addba sta tid winStart winSize alloc =>
    refine wlanAddbaEvent_yields h (fun a ha => ?_) ?_
    · simp only [BaEntry.kzalloc, Option.filter_eq_some_iff, Option.isNone_iff_eq_none] at ha
      exact ha.2
    · rcases hev with hlt | rfl
      · exact Or.inl hlt
      · exact Or.inr rfl
  | delba sta tid => exact wlanDelbaEvent_yields h sta tid
  | filter sta tid seqNum => exact onFound_yields h sta tid (keepsName_step _)
  | data m skb => exact reorderDataProcess_yields h m skb
  | peerDelba lut => exact peerEntryDelba_yields h lut
  | resetPn lut => exact resetPn_yields h lut
  | activate sta tid => exact onFound_yields h sta tid (keepsName_step _)
  | timer a handler =>
    simp only [entryStep, registryNote]
    cases hn : e.table.heap a with
    | none => exact Yields.same h
    | some n => exact onNode_yields h ⟨n, hn, rfl, rfl⟩ (keepsName_step _)

theorem run_yields {es : List BaEvent} (h : TableInv e) (hes : ∀ ev ∈ es, TidFits ev) :
    (∀ t N, run (observe entryStep registryNote) (e, e.names) es = .ok (t, N) →
      TableInv t ∧ t.names = N) ∧ FaultsIn Fault.inNode (run entryStep e es) := by
  induction es generalizing e with
  | nil =>
    refine ⟨fun t N hr => ?_, .ok e⟩
    cases hr
    exact ⟨h, rfl⟩
  | cons ev es ih =>
    have hstep := entryStep_yields h (hes ev (List.mem_cons_self ..))
    have hrest : ∀ ev' ∈ es, TidFits ev' := fun ev' hev' => hes ev' (List.mem_cons_of_mem _ hev')
    refine ⟨fun t N hr => ?_, ⟨fun f hf => ?_⟩⟩
    · obtain ⟨⟨e₁, N₁⟩, h₁, hr⟩ := bind_eq_ok.mp hr
      obtain ⟨he₁, hnote⟩ := observe_eq_ok.mp h₁
      obtain ⟨hinv, hnames⟩ := hstep.inv e₁ he₁
      have hN : N₁ = e₁.names := by
        rw [hnames]
        exact hnote
      rw [hN] at hr
      exact (ih hinv hrest).1 t N hr
    · rcases bind_eq_error.mp hf with hf | ⟨e₁, he₁, hf⟩
      · exact hstep.faults.fault f hf
      · exact (ih (hstep.inv e₁ he₁).1 hrest).2.fault f hf

theorem names_init : BaEntry.init.names = ∅ := by
  ext p
  simp [BaEntry.names, BucketTable.names, BaEntry.init, Table.empty]

/-- In every run whose ADDBA events carry traffic identifiers with a bucket, the table is
valid in every state reached, a lookup returns a node exactly for the pairs created and
not yet deleted, and no bucket or node is accessed that does not exist. -/
theorem table_integrity {es : List BaEvent} (hes : ∀ ev ∈ es, TidFits ev) :
    (∀ t N, run (observe entryStep registryNote) (BaEntry.init, ∅) es = .ok (t, N) →
      TableInv t ∧ ∀ sta tid,
        (∃ a t', findBaNode sta tid t = .ok (some a, t')) ↔ (tid, sta) ∈ N) ∧
      FaultsIn Fault.inNode (run entryStep BaEntry.init es) := by
  obtain ⟨hok, hfault⟩ := run_yields tableInv_init hes
  rw [names_init] at hok
  refine ⟨fun t N hr => ?_, hfault⟩
  obtain ⟨hinv, rfl⟩ := hok t N hr
  refine ⟨hinv, fun sta tid => ?_⟩
  obtain ⟨r, c, hr, _, hnode⟩ := findBaNode_spec hinv sta tid
  rw [hr, ← isNodeOf_iff_names]
  constructor
  · intro ⟨a, t', heq⟩
    cases heq
    exact ⟨a, (hnode a).mp rfl⟩
  · intro ⟨a, ha⟩
    rw [(hnode a).mpr ha]
    exact ⟨a, _, rfl⟩

/-- Two stations with one traffic identifier, a deletion in between. -/
def twoStations : List BaEvent :=
  [.addba 1 3 100 16 (some 7), .addba 2 3 0 8 (some 9), .data { filterDesc 5 with tid := 3 } 1,
    .delba 1 3, .addba 4 9 0 8 none]

theorem table_integrity_two_stations : ∃ t,
    run (observe entryStep registryNote) (BaEntry.init, ∅) twoStations = .ok t ∧ TableInv t.1 :=
  ⟨_, rfl, ((@table_integrity twoStations (by decide)).1 _ _ rfl).1⟩

/-- An ADDBA event with the traffic identifier 8 uses a bucket that does not exist. -/
theorem table_integrity_fails_for_tid_8 :
    run entryStep BaEntry.init [.addba 0 8 0 16 (some 1)] = .error (.bucketIndex 8) ∧
      ¬ FaultsIn Fault.inNode (run entryStep BaEntry.init [.addba 0 8 0 16 (some 1)]) := by
  have hrun : run entryStep BaEntry.init [.addba 0 8 0 16 (some 1)] = .error (.bucketIndex 8) := rfl
  exact ⟨hrun, fun h => h.fault _ hrun⟩

/-! ## Reachable states -/

/-- A creation without a bucket does not return, so every step that returns keeps the
table valid. -/
theorem entryStep_tableInv (h : TableInv e) {ev : BaEvent} (hs : entryStep e ev = .ok e') :
    TableInv e' := by
  by_cases hfit : TidFits ev
  · exact ((entryStep_yields h hfit).inv e' hs).1
  cases ev with
  | addba sta tid winStart winSize alloc =>
    have hge : ¬ (tid : ℕ) < NUM_TIDS := fun hlt => hfit (Or.inl hlt)
    cases hk : e.kzalloc alloc with
    | none =>
      rw [entryStep, hk] at hs
      exact ((wlanAddbaEvent_yields h (by simp) (Or.inr rfl)).inv e' hs).1
    | some a =>
      have hfind : findBaNode sta tid e = .ok (none, e) := by rw [findBaNode, if_neg hge]
      rw [entryStep, hk, wlanAddbaEvent, findOrCreate, hfind, ok_bind] at hs
      simp only [createBaNode, dif_neg hge] at hs
      cases hs
  | delba | filter | data | peerDelba | resetPn | activate | timer => exact absurd trivial hfit

/-- Every reachable table is valid. -/
theorem reachable_tableInv {es : List BaEvent} {t : BaEntry}
    (hr : run entryStep BaEntry.init es = .ok t) : TableInv t :=
  run_preserves (fun _ _ _ h hs => entryStep_tableInv h hs) tableInv_init hr

end Uwe5631.Reorder
