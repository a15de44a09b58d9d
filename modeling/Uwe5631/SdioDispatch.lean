import Uwe5631.SdioData

/-!
# Mbufs on the lists of channels

Sorting puts each mbuf behind the others of its channel, and handing over empties a list into
one call of its callback. Both loops that hand over end one head early in the ring.
-/
namespace Uwe5631.Sdio
open LinkedChains

variable {p p' : SdiohalData} {m : MbufAddr} {i j : ListId} {puh : SdioPuh} {n : ℕ}
  {mbufs : List MbufAddr}

/-- The mbufs on a list. -/
def SdiohalData.nodes (p : SdiohalData) (i : ListId) : List MbufAddr :=
  walk p.next (p.list i).nodeNum (p.list i).mbufHead

/-- The subtype of the mbufs on a list of a channel. -/
def ListId.subtype : ListId → Option ℕ
  | .tx c => some c.val
  | .rx c => some c.val
  | .rxBuf => none

/-- The driver is initialised, its lists are linked and share no mbuf, and a list that is not
empty is marked with the subtype of its channel. -/
structure Ready (p : SdiohalData) : Prop where
  init : p.flagInit = true
  stored : Stored p.next (fun i => (p.list i).chain) p.nodes
  marked : ∀ i s, i.subtype = some s → (p.list i).nodeNum ≠ 0 → (p.list i).subtype = s

theorem nodes_of_stored {nodes : ListId → List MbufAddr}
    (h : Stored p.next (fun i => (p.list i).chain) nodes) : p.nodes = nodes :=
  funext fun i => (h.holds i).walk

theorem Ready.nodeNum_zero_iff (h : Ready p) (i : ListId) :
    (p.list i).nodeNum = 0 ↔ p.nodes i = [] := (h.stored.holds i).num_zero_iff

/-! ## Sorting -/

@[simp] theorem setNext_next (p : SdiohalData) (m : MbufAddr) (n : Option MbufAddr) :
    (p.setNext m n).next = Function.update p.next m n := by
  funext x
  by_cases hx : x = m
  · subst hx
    simp [SdiohalData.next, SdiohalData.setNext]
  · simp [SdiohalData.next, SdiohalData.setNext, Function.update_of_ne hx]

theorem setTailNext_next (p : SdiohalData) (tail n : Option MbufAddr) :
    (p.setTailNext tail n).next = tail.elim p.next fun t => Function.update p.next t n := by
  cases tail with
  | none => rfl
  | some t => exact setNext_next p t n

@[simp] theorem setList_next (p : SdiohalData) (i : ListId) (l : SdiohalList) :
    (p.setList i l).next = p.next := rfl

theorem setList_list (p : SdiohalData) (i : ListId) (l : SdiohalList) :
    (p.setList i l).list = Function.update p.list i l := rfl

/-- What sorting an mbuf leaves as it is. -/
structure SameMbufs (p p' : SdiohalData) : Prop where
  mem : p'.mem = p.mem
  buf : ∀ m, (p'.mbuf m).buf = (p.mbuf m).buf
  len : ∀ m, (p'.mbuf m).len = (p.mbuf m).len
  flagInit : p'.flagInit = p.flagInit
  ops : p'.ops = p.ops
  popped : p'.popped = p.popped

theorem SameMbufs.refl (p : SdiohalData) : SameMbufs p p :=
  ⟨rfl, fun _ => rfl, fun _ => rfl, rfl, rfl, rfl⟩

theorem SameMbufs.trans {p'' : SdiohalData} (h : SameMbufs p p') (h' : SameMbufs p' p'') :
    SameMbufs p p'' where
  mem := h'.mem.trans h.mem
  buf m := (h'.buf m).trans (h.buf m)
  len m := (h'.len m).trans (h.len m)
  flagInit := h'.flagInit.trans h.flagInit
  ops := h'.ops.trans h.ops
  popped := h'.popped.trans h.popped

theorem setNext_same (p : SdiohalData) (m : MbufAddr) (n : Option MbufAddr) :
    SameMbufs p (p.setNext m n) := by
  refine ⟨rfl, fun x => ?_, fun x => ?_, rfl, rfl, rfl⟩
  all_goals
    by_cases hx : x = m
    · subst hx
      simp [SdiohalData.setNext]
    · simp [SdiohalData.setNext, Function.update_of_ne hx]

theorem setTailNext_same (p : SdiohalData) (tail n : Option MbufAddr) :
    SameMbufs p (p.setTailNext tail n) := by
  cases tail with
  | none => exact .refl p
  | some t => exact setNext_same p t n

theorem setTailNext_list (p : SdiohalData) (tail n : Option MbufAddr) :
    (p.setTailNext tail n).list = p.list := by
  cases tail <;> rfl

/-- One mbuf more on one list. -/
structure Assigned (p : SdiohalData) (i : ListId) (m : MbufAddr) (puh : SdioPuh)
    (p' : SdiohalData) : Prop where
  same : SameMbufs p p'
  next : p'.next = attachNext p.next (p.list i).chain m
  list : p'.list = Function.update p.list i ((p.list i).add m puh)

theorem SameMbufs.setList (h : SameMbufs p p') (i : ListId) (l : SdiohalList) :
    SameMbufs p (p'.setList i l) := ⟨h.mem, h.buf, h.len, h.flagInit, h.ops, h.popped⟩

theorem linkBehind_first {l : SdiohalList} {head : Option MbufAddr} (h : l.nodeNum = 0) :
    linkBehind p.next l.chain head = p.next := if_pos h

theorem linkBehind_last {l : SdiohalList} {head : Option MbufAddr} (h : l.nodeNum ≠ 0) :
    linkBehind p.next l.chain head =
      l.mbufTail.elim p.next fun t => Function.update p.next t head := if_neg h

theorem rxAssign_assigned (p : SdiohalData) (c : Fin SDIO_CHN_RX_NUM) (m : MbufAddr)
    (puh : SdioPuh) : Assigned p (.rx c) m puh (p.rxAssign c m puh) := by
  rw [SdiohalData.rxAssign]
  split
  · rename_i hnum
    refine ⟨(setNext_same p m none).setList _ _, ?_, rfl⟩
    rw [setList_next, setNext_next, attachNext, linkBehind_first hnum]
  · rename_i hnum
    refine ⟨((setTailNext_same p _ _).trans (setNext_same _ m none)).setList _ _, ?_, ?_⟩
    · rw [setList_next, setNext_next, setTailNext_next, attachNext, linkBehind_last hnum]
    · exact congrArg (Function.update · (ListId.rx c) _) (setTailNext_list p _ _)

/-- The link of the new mbuf is cleared before the last one is linked to it. -/
theorem txAssign_assigned {c : Fin SDIO_CHN_TX_NUM}
    (hm : (p.list (.tx c)).nodeNum ≠ 0 → (p.list (.tx c)).mbufTail ≠ some m) (puh : SdioPuh) :
    Assigned p (.tx c) m puh (p.txAssign c m puh) := by
  rw [SdiohalData.txAssign]
  split
  · rename_i hnum
    refine ⟨(setNext_same p m none).setList _ _, ?_, rfl⟩
    rw [setList_next, setNext_next, attachNext, linkBehind_first hnum]
  · rename_i hnum
    refine ⟨((setNext_same p m none).trans (setTailNext_same _ _ _)).setList _ _, ?_, ?_⟩
    · rw [setList_next, setTailNext_next, setNext_next, attachNext, linkBehind_last hnum]
      cases htail : (p.list (.tx c)).mbufTail with
      | none => rfl
      | some t =>
        have hmt : m ≠ t := by
          rintro rfl
          exact hm hnum htail
        rw [Option.elim_some, Option.elim_some, Function.update_comm hmt]
    · exact congrArg (Function.update · (ListId.tx c) _) (setTailNext_list _ _ _)

theorem update_chain (list : ListId → SdiohalList) (i : ListId) (l : SdiohalList) :
    (fun j => (Function.update list i l j).chain) =
      Function.update (fun j => (list j).chain) i l.chain := by
  funext j
  by_cases hji : j = i
  · subst hji
    rw [Function.update_self, Function.update_self]
  · rw [Function.update_of_ne hji, Function.update_of_ne hji]

/-- An mbuf of no list is the last one of its list after it is sorted. -/
theorem Assigned.ready (h : Assigned p i m puh p') (hp : Ready p) (hm : ∀ j, m ∉ p.nodes j)
    (hi : i.subtype = some puh.subtype.toNat) :
    Ready p' ∧ p'.nodes = Function.update p.nodes i (p.nodes i ++ [m]) := by
  have hstored : Stored p'.next (fun i => (p'.list i).chain)
      (Function.update p.nodes i (p.nodes i ++ [m])) := by
    have hattach := hp.stored.attach i hm
    rw [← h.next] at hattach
    rw [h.list, update_chain]
    exact hattach
  have hnodes := nodes_of_stored hstored
  refine ⟨⟨h.same.flagInit.trans hp.init, hnodes ▸ hstored, fun j s hj hnum => ?_⟩, hnodes⟩
  rw [h.list] at hnum ⊢
  by_cases hji : j = i
  · subst hji
    rw [Function.update_self]
    exact Option.some.inj (hi.symm.trans hj)
  · rw [Function.update_of_ne hji] at hnum ⊢
    exact hp.marked j s hj hnum

theorem Ready.tail_ne (h : Ready p) (hm : m ∉ p.nodes i) (hnum : (p.list i).nodeNum ≠ 0) :
    (p.list i).mbufTail ≠ some m := by
  intro htail
  have hne : p.nodes i ≠ [] := fun hnil => hnum ((h.nodeNum_zero_iff i).mpr hnil)
  have hlast := (h.stored.holds i).tail hne
  exact hm (List.mem_of_getLast? (hlast.symm.trans htail))

/-- The channel of an mbuf to be sent. -/
def SdiohalData.txChannel (p : SdiohalData) (m : MbufAddr) : ℕ :=
  sdiohalHwtypeToChannel true (puhAt p.mem (p.mbuf m).buf).type.toNat
    (puhAt p.mem (p.mbuf m).buf).subtype.toNat

/-- The list that sorting puts an mbuf to be sent on. -/
def SdiohalData.txTakes (p : SdiohalData) : ListId → MbufAddr → Bool
  | .tx c, m => p.txChannel m == c.val
  | .rx _, _ | .rxBuf, _ => false

theorem SameMbufs.txTakes (h : SameMbufs p p') : p'.txTakes = p.txTakes := by
  funext i m
  cases i with
  | rx | rxBuf => rfl
  | tx c => simp only [SdiohalData.txTakes, SdiohalData.txChannel, h.mem, h.buf]

theorem txAssign_spec (hp : Ready p) (hm : ∀ i, m ∉ p.nodes i)
    (hc : p.txChannel m < SDIO_CHN_TX_NUM) :
    let p' := p.txAssign ⟨p.txChannel m, hc⟩ m (puhAt p.mem (p.mbuf m).buf)
    Ready p' ∧ SameMbufs p p' ∧
      p'.next = attachNext p.next (p.list (.tx ⟨p.txChannel m, hc⟩)).chain m ∧
      ∀ i, p'.nodes i = p.nodes i ++ [m].filter (p.txTakes i) := by
  have hassigned := txAssign_assigned (p := p) (c := ⟨p.txChannel m, hc⟩)
    (fun hnum => hp.tail_ne (hm _) hnum) (puhAt p.mem (p.mbuf m).buf)
  obtain ⟨hready, hnodes⟩ := hassigned.ready hp hm rfl
  refine ⟨hready, hassigned.same, hassigned.next, fun i => ?_⟩
  rw [hnodes]
  by_cases hi : i = .tx ⟨p.txChannel m, hc⟩
  · subst hi
    rw [Function.update_self]
    simp [SdiohalData.txTakes]
  · rw [Function.update_of_ne hi]
    cases i with
    | rx | rxBuf => simp [SdiohalData.txTakes]
    | tx c =>
      have hne : p.txChannel m ≠ c.val := by
        rintro heq
        exact hi (congrArg ListId.tx (Fin.ext heq.symm))
      simp [SdiohalData.txTakes, hne]

theorem txPopAssignment_cons (n : ℕ) (m : MbufAddr) (p : SdiohalData) :
    sdiohalTxPopAssignment (n + 1) (some m) p = sdiohalTxPopAssignment n (p.next m)
      (if h : p.txChannel m < SDIO_CHN_TX_NUM then
        p.txAssign ⟨p.txChannel m, h⟩ m (puhAt p.mem (p.mbuf m).buf)
      else p) := rfl

/-- Every mbuf of the chain ends up behind the others of its channel, in the order of the chain. -/
theorem txPopAssignment_spec (hp : Ready p) (hlinked : mbufs.IsChain fun a b => p.next a = some b)
    (hnodup : mbufs.Nodup) (hfresh : ∀ i, (p.nodes i).Disjoint mbufs) :
    let p' := sdiohalTxPopAssignment mbufs.length mbufs.head? p
    Ready p' ∧ SameMbufs p p' ∧ ∀ i, p'.nodes i = p.nodes i ++ mbufs.filter (p.txTakes i) := by
  induction mbufs generalizing p with
  | nil => exact ⟨hp, .refl p, fun i => by simp [sdiohalTxPopAssignment]⟩
  | cons m rest ih =>
    obtain ⟨hmrest, hrest⟩ := List.nodup_cons.mp hnodup
    have hm : ∀ i, m ∉ p.nodes i := fun i hmi => hfresh i hmi (List.mem_cons_self ..)
    have hnext : rest ≠ [] → p.next m = rest.head? := by
      intro hne
      obtain ⟨b, rest', rfl⟩ := List.exists_cons_of_ne_nil hne
      exact (List.isChain_cons_cons.mp hlinked).1
    -- the loop goes on at the next mbuf, which was read before the lists changed
    have hgo : ∀ q, sdiohalTxPopAssignment rest.length (p.next m) q =
        sdiohalTxPopAssignment rest.length rest.head? q := by
      intro q
      cases rest with
      | nil => rfl
      | cons b rest' => rw [hnext (List.cons_ne_nil b rest')]
    rw [List.length_cons, List.head?_cons, txPopAssignment_cons, hgo]
    by_cases hc : p.txChannel m < SDIO_CHN_TX_NUM
    · obtain ⟨hready, hsame, hnexts, hnodes⟩ := txAssign_spec hp hm hc
      rw [dif_pos hc]
      have hstep := ih hready (hlinked.tail.imp_of_mem_imp fun x y hx _ hxy => ?_) hrest ?_
      · refine ⟨hstep.1, hsame.trans hstep.2.1, fun i => ?_⟩
        rw [hstep.2.2 i, hnodes i, hsame.txTakes, List.append_assoc, ← List.filter_append,
          List.singleton_append]
      · rw [hnexts, attachNext_ne (hp.stored.holds _), hxy]
        · exact fun hmem => hfresh _ hmem (List.mem_cons_of_mem m hx)
        · rintro rfl
          exact hmrest hx
      · intro i x hx hxrest
        rw [hnodes i] at hx
        rcases List.mem_append.mp hx with hx | hx
        · exact hfresh i hx (List.mem_cons_of_mem m hxrest)
        · rw [List.mem_singleton.mp (List.mem_of_mem_filter hx)] at hxrest
          exact hmrest hxrest
    · rw [dif_neg hc]
      have hstep := ih hp hlinked.tail hrest fun i =>
        (List.disjoint_cons_right.mp (hfresh i)).2
      refine ⟨hstep.1, hstep.2.1, fun i => ?_⟩
      have htakes : p.txTakes i m = false := by
        cases i with
        | rx | rxBuf => rfl
        | tx c =>
          have hne : p.txChannel m ≠ c.val := fun heq => hc (heq ▸ c.isLt)
          simp [SdiohalData.txTakes, hne]
      rw [hstep.2.2 i, List.filter_cons_of_neg (by simp [htakes])]

theorem txPopAssignment_chain {dataList : SdiohalList} (hp : Ready p)
    (hlist : Holds p.next dataList.chain mbufs) (hfresh : ∀ i, (p.nodes i).Disjoint mbufs) :
    let p' := sdiohalTxPopAssignment dataList.nodeNum dataList.mbufHead p
    Ready p' ∧ SameMbufs p p' ∧ ∀ i, p'.nodes i = p.nodes i ++ mbufs.filter (p.txTakes i) := by
  have hnum : dataList.nodeNum = mbufs.length := hlist.num
  have hspec := txPopAssignment_spec hp hlist.linked hlist.nodup hfresh
  rw [hnum]
  cases mbufs with
  | nil => exact hspec
  | cons m rest =>
    have hhead : dataList.mbufHead = some m := hlist.head (List.cons_ne_nil m rest)
    rw [hhead]
    exact hspec

/-- `sdiohal_data_list_assignment` for received mbufs one after the other, each with its header and
at the channel of the header. -/
def rxAssignAll (p : SdiohalData) (items : List (MbufAddr × SdioPuh)) : Option SdiohalData :=
  items.foldlM (fun p r => sdiohalDataListAssignment p r.1 r.2
    (sdiohalHwtypeToChannel false r.2.type.toNat r.2.subtype.toNat)) p

/-- The list that sorting puts a received mbuf on. -/
def rxTakes : ListId → MbufAddr × SdioPuh → Bool
  | .rx c, r => r.2.subtype.toNat == c.val
  | .tx _, _ | .rxBuf, _ => false

theorem rxAssign_spec {c : Fin SDIO_CHN_RX_NUM} (hp : Ready p) (hm : ∀ i, m ∉ p.nodes i)
    (hc : puh.subtype.toNat = c.val) :
    Ready (p.rxAssign c m puh) ∧ SameMbufs p (p.rxAssign c m puh) ∧
      ∀ i, (p.rxAssign c m puh).nodes i = p.nodes i ++ ([(m, puh)].filter (rxTakes i)).map Prod.fst := by
  have hassigned := rxAssign_assigned p c m puh
  obtain ⟨hready, hnodes⟩ := hassigned.ready hp hm (congrArg some hc.symm)
  refine ⟨hready, hassigned.same, fun i => ?_⟩
  rw [hnodes]
  by_cases hi : i = .rx c
  · subst hi
    rw [Function.update_self]
    simp [rxTakes, hc]
  · rw [Function.update_of_ne hi]
    cases i with
    | tx | rxBuf => simp [rxTakes]
    | rx d =>
      have hne : puh.subtype.toNat ≠ d.val := by
        intro heq
        exact hi (congrArg ListId.rx (Fin.ext (heq.symm.trans hc)))
      simp [rxTakes, hne]

theorem rxChannelList_eq {channel : ℕ} {c : Fin SDIO_CHN_RX_NUM}
    (h : sdiohalGetRxChannelList p (channel + SDIO_CHN_TX_NUM) = some c) : channel = c.val := by
  rw [sdiohalGetRxChannelList, Nat.add_sub_cancel] at h
  split_ifs at h with _ hlt
  cases h
  rfl

theorem rxAssignAll_spec {items : List (MbufAddr × SdioPuh)} (hp : Ready p)
    (hnodup : (items.map Prod.fst).Nodup) (hfresh : ∀ i, (p.nodes i).Disjoint (items.map Prod.fst))
    (h : rxAssignAll p items = some p') :
    Ready p' ∧ SameMbufs p p' ∧
      ∀ i, p'.nodes i = p.nodes i ++ (items.filter (rxTakes i)).map Prod.fst := by
  induction items generalizing p with
  | nil =>
    cases h
    exact ⟨hp, .refl _, fun i => by simp⟩
  | cons r rest ih =>
    obtain ⟨m, puh⟩ := r
    rw [rxAssignAll, List.foldlM_cons] at h
    obtain ⟨q, hq, h⟩ := Option.bind_eq_some_iff.mp h
    obtain ⟨c, hc, rfl⟩ := Option.map_eq_some_iff.mp hq
    obtain ⟨hmrest, hrest⟩ := List.nodup_cons.mp hnodup
    have hm : ∀ i, m ∉ p.nodes i := fun i hmi => hfresh i hmi (List.mem_cons_self ..)
    obtain ⟨hready, hsame, hnodes⟩ := rxAssign_spec hp hm (rxChannelList_eq hc)
    have hstep := ih hready hrest (fun i x hx hxrest => ?_) h
    · refine ⟨hstep.1, hsame.trans hstep.2.1, fun i => ?_⟩
      rw [hstep.2.2 i, hnodes i, List.append_assoc, ← List.map_append, ← List.filter_append,
        List.singleton_append]
    · rw [hnodes i] at hx
      rcases List.mem_append.mp hx with hx | hx
      · exact hfresh i hx (List.mem_cons_of_mem m hxrest)
      · obtain ⟨r, hr, rfl⟩ := List.mem_map.mp hx
        rw [List.mem_singleton.mp (List.mem_of_mem_filter hr)] at hxrest
        exact hmrest hxrest

/-! ## Handing over -/

variable {inout : Bool} {channelNum ch : ℕ} {noOps : SdiohalData → SdiohalList → SdiohalData}

/-- The call that hands over a list, if it is not empty. -/
def SdiohalData.handOver (p : SdiohalData) (channel : ℕ) (i : ListId) : List PopLink :=
  if (p.list i).nodeNum = 0 then []
  else [⟨channel, (p.list i).mbufHead, (p.list i).mbufTail, (p.list i).nodeNum, p.nodes i⟩]

theorem handOver_mbufs (p : SdiohalData) (channel : ℕ) (i : ListId) :
    (p.handOver channel i).flatMap PopLink.mbufs = p.nodes i := by
  rw [SdiohalData.handOver]
  split
  · rename_i hnum
    rw [SdiohalData.nodes, hnum]
    rfl
  · simp

theorem handOver_filter (p : SdiohalData) (channel ch : ℕ) (i : ListId) :
    (p.handOver channel i).filter (·.channel == ch) =
      if channel = ch then p.handOver channel i else [] := by
  rw [SdiohalData.handOver]
  split
  · simp
  · by_cases h : channel = ch <;> simp [h]

/-- What is done with a list whose channel has no callback: no call is made, and only mbufs and
`list_rx_buf` change. -/
structure Discards (noOps : SdiohalData → SdiohalList → SdiohalData) : Prop where
  popped : ∀ p l, (noOps p l).popped = p.popped
  ops : ∀ p l, (noOps p l).ops = p.ops
  list : ∀ p l i, i ≠ .rxBuf → (noOps p l).list i = p.list i

theorem rxListFree_discards :
    Discards fun p l => sdiohalRxListFree p l.mbufHead l.mbufTail l.nodeNum := by
  have hfields : ∀ p : SdiohalData, ∀ l : SdiohalList,
      (sdiohalRxListFree p l.mbufHead l.mbufTail l.nodeNum).popped = p.popped ∧
      (sdiohalRxListFree p l.mbufHead l.mbufTail l.nodeNum).ops = p.ops ∧
      ∀ i, i ≠ .rxBuf →
        (sdiohalRxListFree p l.mbufHead l.mbufTail l.nodeNum).list i = p.list i := by
    intro p l
    rw [sdiohalRxListFree]
    dsimp only
    split
    · exact ⟨rfl, rfl, fun i hi => Function.update_of_ne hi ..⟩
    · refine ⟨(setTailNext_same _ _ _).popped, (setTailNext_same _ _ _).ops, fun i hi => ?_⟩
      exact (Function.update_of_ne hi ..).trans (congrFun (setTailNext_list ..) i)
  exact ⟨fun p l => (hfields p l).1, fun p l => (hfields p l).2.1, fun p l => (hfields p l).2.2⟩

/-- A list is handed over to the callback of its channel. -/
theorem dispatch_eq (noOps : SdiohalData → SdiohalList → SdiohalData)
    (hch : (p.list i).nodeNum ≠ 0 →
      sdiohalHwtypeToChannel inout (p.list i).type (p.list i).subtype = ch)
    (hlt : ch < channelNum) (hops : (p.list i).nodeNum ≠ 0 → p.ops ch = true) :
    p.dispatch inout channelNum noOps i =
      { p with
        list := Function.update p.list i { p.list i with nodeNum := 0 }
        popped := p.popped ++ p.handOver ch i } := by
  rw [SdiohalData.dispatch, SdiohalData.handOver]
  dsimp only
  split
  · rename_i hnum
    have hlist : Function.update p.list i { p.list i with nodeNum := 0 } = p.list := by
      rw [← hnum]
      exact Function.update_eq_self i p.list
    rw [hlist, List.append_nil]
  · rename_i hnum
    rw [hch hnum, if_neg (Nat.not_le.mpr hlt), if_pos (hops hnum)]
    rfl

theorem dispatch_calls (inout : Bool) (channelNum : ℕ) (hdis : Discards noOps) (p : SdiohalData) (i : ListId) :
    ∃ calls, (p.dispatch inout channelNum noOps i).popped = p.popped ++ calls ∧
      (∀ q ∈ calls, p.ops q.channel = true) ∧
      (p.dispatch inout channelNum noOps i).ops = p.ops ∧
      ∀ j, j ≠ i → j ≠ .rxBuf → (p.dispatch inout channelNum noOps i).list j = p.list j := by
  have hsame : ∃ calls, p.popped = p.popped ++ calls ∧ (∀ q ∈ calls, p.ops q.channel = true) ∧
      p.ops = p.ops ∧ ∀ j, j ≠ i → j ≠ ListId.rxBuf → p.list j = p.list j :=
    ⟨[], by simp, by simp, rfl, fun _ _ _ => rfl⟩
  rw [SdiohalData.dispatch]
  dsimp only
  split
  · exact hsame
  · split
    · exact hsame
    · split
      · rename_i hops
        refine ⟨[_], rfl, fun q hq => ?_, rfl, fun j hji _ => Function.update_of_ne hji ..⟩
        rw [List.mem_singleton.mp hq]
        exact hops
      · refine ⟨[], ?_, by simp, hdis.ops p _, fun j hji hj => ?_⟩
        · rw [List.append_nil]
          exact hdis.popped p _
        · exact (Function.update_of_ne hji ..).trans (hdis.list p _ j hj)

theorem Ready.of_stored (hp : Ready p) (nodes : ListId → List MbufAddr)
    (hflag : p'.flagInit = p.flagInit) (hstored : Stored p'.next (fun i => (p'.list i).chain) nodes)
    (hlist : ∀ j, j ≠ .rxBuf → (p'.list j).nodeNum ≠ 0 → p'.list j = p.list j) : Ready p' := by
  refine ⟨hflag.trans hp.init, nodes_of_stored hstored ▸ hstored, fun j s hj hnum => ?_⟩
  have hbuf : j ≠ .rxBuf := by
    rintro rfl
    cases hj
  have hsame := hlist j hbuf hnum
  rw [hsame] at hnum ⊢
  exact hp.marked j s hj hnum

/-- A list gives up its mbufs. -/
theorem Ready.drop (hp : Ready p) (i : ListId) :
    Ready (p.setList i { p.list i with nodeNum := 0 }) := by
  have hshrunk := hp.stored.shrink (i := i) (List.nil_subset _)
    (holds_empty p.next (p.list i).mbufHead (p.list i).mbufTail)
  refine hp.of_stored (Function.update p.nodes i []) rfl ?_ fun j _ hnum => ?_
  · rw [setList_list, update_chain, setList_next]
    exact hshrunk
  · rw [setList_list] at hnum ⊢
    by_cases hji : j = i
    · subst hji
      rw [Function.update_self] at hnum
      exact absurd rfl hnum
    · exact Function.update_of_ne hji ..

section
variable (p : SdiohalData) (head tail : Option MbufAddr) (num : ℕ)

theorem rxListFree_next : (sdiohalRxListFree p head tail num).next =
    linkBehind p.next (p.list .rxBuf).chain head := by
  have hnext : ∀ q : SdiohalData, (∀ m, (q.mbuf m).next = (p.mbuf m).next) → q.next = p.next :=
    fun q hq => funext hq
  rw [sdiohalRxListFree]
  dsimp only
  split
  · rename_i hempty
    rw [setList_next, linkBehind_first hempty]
    exact hnext _ fun m => by dsimp only; split <;> rfl
  · rename_i hempty
    rw [setList_next, setTailNext_next, linkBehind_last hempty, hnext]
    exact fun m => by dsimp only; split <;> rfl

theorem rxListFree_list : (sdiohalRxListFree p head tail num).list =
    Function.update p.list .rxBuf
      { p.list .rxBuf with
        mbufHead := if (p.list .rxBuf).nodeNum = 0 then head else (p.list .rxBuf).mbufHead
        mbufTail := tail
        nodeNum := (p.list .rxBuf).nodeNum + num } := by
  rw [sdiohalRxListFree]
  dsimp only
  split
  · rfl
  · exact congrArg (Function.update · ListId.rxBuf _) (setTailNext_list ..)

theorem rxListFree_flagInit : (sdiohalRxListFree p head tail num).flagInit = p.flagInit := by
  rw [sdiohalRxListFree]
  dsimp only
  split
  · rfl
  · exact (setTailNext_same _ _ _).flagInit

end

/-- The mbufs of a list go back to `list_rx_buf`. -/
theorem Ready.rxFree (hp : Ready p) (hi : i ≠ .rxBuf) (hnum : (p.list i).nodeNum ≠ 0) :
    Ready ((sdiohalRxListFree p (p.list i).mbufHead (p.list i).mbufTail
      (p.list i).nodeNum).setList i { p.list i with nodeNum := 0 }) := by
  have hne : p.nodes i ≠ [] := fun hnil => hnum ((hp.nodeNum_zero_iff i).mpr hnil)
  have hspliced := hp.stored.splice hi hne (p.list i).mbufHead (p.list i).mbufTail
  refine hp.of_stored
    (Function.update (Function.update p.nodes .rxBuf (p.nodes .rxBuf ++ p.nodes i)) i [])
    (rxListFree_flagInit p _ (p.list i).mbufTail _) ?_ fun j hj hjnum => ?_
  · rw [setList_list, setList_next, rxListFree_next, rxListFree_list, update_chain, update_chain]
    exact hspliced
  · rw [setList_list] at hjnum ⊢
    by_cases hji : j = i
    · subst hji
      rw [Function.update_self] at hjnum
      exact absurd rfl hjnum
    · rw [Function.update_of_ne hji, rxListFree_list, Function.update_of_ne hj]

theorem Ready.dispatch (hp : Ready p)
    (hnoOps : (p.list i).nodeNum ≠ 0 →
      Ready ((noOps p (p.list i)).setList i { p.list i with nodeNum := 0 })) :
    Ready (p.dispatch inout channelNum noOps i) := by
  rw [SdiohalData.dispatch]
  dsimp only
  split
  · exact hp
  · rename_i hnum
    split
    · exact hp
    · split
      · -- a callback changes no list
        have hdrop := hp.drop i
        exact ⟨hdrop.init, hdrop.stored, hdrop.marked⟩
      · exact hnoOps hnum

theorem Ready.ringWalk {body : Fin (n + 1) → SdiohalData → SdiohalData}
    (hbody : ∀ c p, Ready p → Ready (body c p)) (hp : Ready p) (pos : Fin (n + 1)) :
    Ready (ringWalk body pos p) := by
  induction pos, p using ringWalk.induct body with
  | case1 pos p hlast =>
    rw [LinkedChains.ringWalk, if_pos hlast]
    exact hp
  | case2 pos p hnext ih =>
    rw [LinkedChains.ringWalk, if_neg hnext]
    exact ih (hbody pos p hp)

/-- Between the calls of the driver its lists stay linked and apart, also where it hands over
less than it should. -/
theorem Ready.txListDenq {dataList : SdiohalList} (hp : Ready p)
    (hlist : Holds p.next dataList.chain mbufs) (hfresh : ∀ i, (p.nodes i).Disjoint mbufs) :
    Ready (sdiohalTxListDenq p dataList) := by
  obtain ⟨hsorted, -⟩ := txPopAssignment_chain hp hlist hfresh
  exact hsorted.ringWalk (fun c p h => h.dispatch fun _ => h.drop _) 0

theorem Ready.rxListDispatch (hp : Ready p) : Ready (sdiohalRxListDispatch p) := by
  rw [sdiohalRxListDispatch, if_pos hp.init]
  exact hp.ringWalk (fun c p h => h.dispatch fun hnum => h.rxFree (by simp) hnum) 0

/-! ## Whole rings -/

/-- The loops of `sdiohal_tx_list_denq` and `sdiohal_rx_list_dispatch` over some lists. -/
def SdiohalData.dispatchAll (p : SdiohalData) (inout : Bool) (channelNum : ℕ)
    (noOps : SdiohalData → SdiohalList → SdiohalData) (ids : List ListId) : SdiohalData :=
  ids.foldl (fun p i => p.dispatch inout channelNum noOps i) p

variable {ids : List ListId} {chan : ListId → ℕ}

theorem dispatchAll_eq (p : SdiohalData) (inout : Bool) (channelNum : ℕ)
    (noOps : SdiohalData → SdiohalList → SdiohalData) (chan : ListId → ℕ) (hnodup : ids.Nodup)
    (hch : ∀ i ∈ ids, (p.list i).nodeNum ≠ 0 →
      sdiohalHwtypeToChannel inout (p.list i).type (p.list i).subtype = chan i)
    (hlt : ∀ i ∈ ids, chan i < channelNum)
    (hops : ∀ i ∈ ids, (p.list i).nodeNum ≠ 0 → p.ops (chan i) = true) :
    p.dispatchAll inout channelNum noOps ids =
      { p with
        list := fun j => if j ∈ ids then { p.list j with nodeNum := 0 } else p.list j
        popped := p.popped ++ ids.flatMap fun i => p.handOver (chan i) i } := by
  induction ids generalizing p with
  | nil => simp [SdiohalData.dispatchAll]
  | cons i rest ih =>
    obtain ⟨hi, hrest⟩ := List.nodup_cons.mp hnodup
    have hne : ∀ j ∈ rest, j ≠ i := fun j hj hji => hi (hji ▸ hj)
    have hstep := dispatch_eq noOps (hch i (List.mem_cons_self ..))
      (hlt i (List.mem_cons_self ..)) (hops i (List.mem_cons_self ..))
    rw [SdiohalData.dispatchAll, List.foldl_cons, ← SdiohalData.dispatchAll, hstep, ih _ hrest]
    · have hlist : ∀ j ∈ rest,
          Function.update p.list i { p.list i with nodeNum := 0 } j = p.list j :=
        fun j hj => Function.update_of_ne (hne j hj) ..
      have hcalls : rest.flatMap (fun j => { p with
          list := Function.update p.list i { p.list i with nodeNum := 0 }
          popped := p.popped ++ p.handOver (chan i) i : SdiohalData }.handOver (chan j) j) =
          rest.flatMap fun j => p.handOver (chan j) j := by
        refine List.flatMap_congr fun j hj => ?_
        simp only [SdiohalData.handOver, SdiohalData.nodes, hlist j hj]
        rfl
      rw [hcalls, List.flatMap_cons, List.append_assoc]
      congr 1
      funext j
      by_cases hji : j = i
      · subst hji
        simp [hi]
      · simp [hji]
    · intro j hj
      dsimp only
      rw [Function.update_of_ne (hne j hj)]
      exact hch j (List.mem_cons_of_mem i hj)
    · exact fun j hj => hlt j (List.mem_cons_of_mem i hj)
    · intro j hj
      dsimp only
      rw [Function.update_of_ne (hne j hj)]
      exact hops j (List.mem_cons_of_mem i hj)

theorem dispatchAll_calls (inout : Bool) (channelNum : ℕ) (hdis : Discards noOps) (p : SdiohalData) (ids : List ListId) :
    ∃ calls, (p.dispatchAll inout channelNum noOps ids).popped = p.popped ++ calls ∧
      (∀ q ∈ calls, p.ops q.channel = true) ∧
      ∀ j, j ∉ ids → j ≠ .rxBuf →
        (p.dispatchAll inout channelNum noOps ids).list j = p.list j := by
  induction ids generalizing p with
  | nil => exact ⟨[], by simp [SdiohalData.dispatchAll], by simp, fun _ _ _ => rfl⟩
  | cons i rest ih =>
    obtain ⟨first, hfirst, hfirstOps, hops, hlist⟩ :=
      dispatch_calls inout channelNum hdis p i
    obtain ⟨calls, hcalls, hcallsOps, hrest⟩ := ih (p.dispatch inout channelNum noOps i)
    refine ⟨first ++ calls, ?_, fun q hq => ?_, fun j hj hbuf => ?_⟩
    · rw [SdiohalData.dispatchAll, List.foldl_cons, ← SdiohalData.dispatchAll, hcalls, hfirst,
        List.append_assoc]
    · rcases List.mem_append.mp hq with hq | hq
      · exact hfirstOps q hq
      · rw [← hops]
        exact hcallsOps q hq
    · obtain ⟨hji, hjrest⟩ := not_or.mp (mt List.mem_cons.mpr hj)
      exact (hrest j hjrest hbuf).trans (hlist j hji hbuf)

/-- The calls added are calls of the channels' own callbacks with exactly the mbufs of each channel,
in their order, and the lists of the channels are empty. -/
structure HandedOver {n : ℕ} (p p' : SdiohalData) (id : Fin n → ListId) (channel : Fin n → ℕ)
    (queued : Fin n → List MbufAddr) : Prop where
  calls : ∃ calls, p'.popped = p.popped ++ calls ∧ (∀ q ∈ calls, ∃ c, q.channel = channel c) ∧
    ∀ c, (calls.filter (·.channel == channel c)).flatMap PopLink.mbufs = queued c
  num : ∀ c, (p'.list (id c)).nodeNum = 0
  empty : ∀ c, p'.nodes (id c) = []

theorem calls_filter (hnodup : ids.Nodup) (hinj : ∀ j ∈ ids, chan j = chan i → j = i) :
    ((ids.flatMap fun j => p.handOver (chan j) j).filter (·.channel == chan i)).flatMap
      PopLink.mbufs = if i ∈ ids then p.nodes i else [] := by
  induction ids with
  | nil => rfl
  | cons j rest ih =>
    obtain ⟨hj, hrest⟩ := List.nodup_cons.mp hnodup
    rw [List.flatMap_cons, List.filter_append, List.flatMap_append, handOver_filter,
      ih hrest fun k hk => hinj k (List.mem_cons_of_mem j hk)]
    by_cases hji : j = i
    · subst hji
      rw [if_pos rfl, handOver_mbufs, if_neg hj, if_pos (List.mem_cons_self ..), List.append_nil]
    · have hne : chan j ≠ chan i := fun heq => hji (hinj j (List.mem_cons_self ..) heq)
      have hmem : i ∈ j :: rest ↔ i ∈ rest := by simp [Ne.symm hji]
      rw [if_neg hne, List.flatMap_nil, List.nil_append, if_congr hmem rfl rfl]

variable {id : Fin (n + 1) → ListId}

theorem castSucc_nodup (hid : Function.Injective id) :
    ((List.finRange n).map fun c => id c.castSucc).Nodup :=
  (List.nodup_finRange n).map (hid.comp (Fin.castSucc_injective n))

theorem last_not_mem (hid : Function.Injective id) :
    id (Fin.last n) ∉ (List.finRange n).map fun c => id c.castSucc := by
  rintro hmem
  obtain ⟨c, -, hc⟩ := List.mem_map.mp hmem
  exact Fin.castSucc_ne_last c (hid hc)

/-- The walk over all heads but the last hands over everything exactly if the last list is empty,
given that the channels have callbacks. -/
theorem handedOver_iff (chan : ListId → ℕ) (hp : Ready p) (hdis : Discards noOps) (hid : Function.Injective id)
    (hbuf : ∀ c, id c ≠ .rxBuf) (hinj : ∀ c d, chan (id c) = chan (id d) → c = d)
    (hlt : ∀ c, chan (id c) < channelNum)
    (hch : ∀ c, (p.list (id c)).nodeNum ≠ 0 →
      sdiohalHwtypeToChannel inout (p.list (id c)).type (p.list (id c)).subtype = chan (id c)) :
    HandedOver p
        (p.dispatchAll inout channelNum noOps ((List.finRange n).map fun c => id c.castSucc))
        id (fun c => chan (id c)) (fun c => p.nodes (id c)) ↔
      p.nodes (id (Fin.last n)) = [] ∧ ∀ c, p.nodes (id c) ≠ [] → p.ops (chan (id c)) = true := by
  constructor
  · intro h
    obtain ⟨made, hmade, hmadeOps, hlist⟩ := dispatchAll_calls inout channelNum hdis
      p ((List.finRange n).map fun c => id c.castSucc)
    refine ⟨?_, fun c hc => ?_⟩
    · rw [← hp.nodeNum_zero_iff, ← hlist _ (last_not_mem hid) (hbuf _)]
      exact h.num (Fin.last n)
    · obtain ⟨calls, hcalls, -, hmbufs⟩ := h.calls
      have hsame : made = calls := List.append_cancel_left (hmade.symm.trans hcalls)
      rw [← hmbufs c] at hc
      obtain ⟨m, hm⟩ := List.exists_mem_of_ne_nil _ hc
      obtain ⟨q, hq, -⟩ := List.mem_flatMap.mp hm
      obtain ⟨hqmem, hqchan⟩ := List.mem_filter.mp hq
      rw [← eq_of_beq hqchan]
      exact hmadeOps q (hsame ▸ hqmem)
  · rintro ⟨hlast, hops⟩
    have hall : ∀ i ∈ (List.finRange n).map fun c => id c.castSucc, ∃ c, id c = i := by
      intro i hi
      obtain ⟨c, -, rfl⟩ := List.mem_map.mp hi
      exact ⟨c.castSucc, rfl⟩
    have heq := dispatchAll_eq p inout channelNum noOps chan (castSucc_nodup hid) (fun i hi => ?_) (fun i hi => ?_)
      (fun i hi hnum => ?_)
    rotate_left
    · obtain ⟨c, rfl⟩ := hall i hi
      exact hch c
    · obtain ⟨c, rfl⟩ := hall i hi
      exact hlt c
    · obtain ⟨c, rfl⟩ := hall i hi
      exact hops c fun hnil => hnum ((hp.nodeNum_zero_iff _).mpr hnil)
    have hmem : ∀ c, id c ∈ (List.finRange n).map (fun c => id c.castSucc) ↔ c ≠ Fin.last n := by
      intro c
      refine ⟨?_, fun hc => ?_⟩
      · rintro hmem rfl
        exact last_not_mem hid hmem
      · exact List.mem_map.mpr ⟨c.castPred hc, List.mem_finRange _, by simp⟩
    have hnum : ∀ c, ((p.dispatchAll inout channelNum noOps
        ((List.finRange n).map fun c => id c.castSucc)).list (id c)).nodeNum = 0 := by
      intro c
      rw [heq]
      dsimp only
      split
      · rfl
      · rename_i hnot
        rw [not_not.mp fun hne => hnot ((hmem c).mpr hne)]
        exact (hp.nodeNum_zero_iff _).mpr hlast
    refine ⟨⟨_, congrArg SdiohalData.popped heq, fun q hq => ?_, fun c => ?_⟩, hnum, fun c => ?_⟩
    · obtain ⟨i, hi, hq⟩ := List.mem_flatMap.mp hq
      obtain ⟨c, rfl⟩ := hall i hi
      refine ⟨c, ?_⟩
      rw [SdiohalData.handOver] at hq
      split at hq
      · cases hq
      · rw [List.mem_singleton.mp hq]
    · rw [calls_filter (castSucc_nodup hid)]
      · split
        · rfl
        · rename_i hnot
          rw [not_not.mp fun hne => hnot ((hmem c).mpr hne), hlast]
      · intro j hj heqChan
        obtain ⟨d, rfl⟩ := hall j hj
        rw [hinj d c heqChan]
    · rw [SdiohalData.nodes, hnum c]
      rfl

/-! ## Both directions -/

/-- The channel whose mbufs a list takes. -/
def ListId.channel : ListId → ℕ
  | .tx c => c.val
  | .rx c => c.val + SDIO_CHN_TX_NUM
  | .rxBuf => SDIO_CHANNEL_NUM

theorem txRing_eq (p : SdiohalData) : ringWalk (n := 11) (fun c p => p.txDispatch c) 0 p =
    p.dispatchAll true SDIO_CHN_TX_NUM (fun p _ => p)
      ((List.finRange 11).map fun c => ListId.tx c.castSucc) := by
  rw [ringWalk_eq_foldl, SdiohalData.dispatchAll, List.foldl_map, List.foldl_map]
  rfl

theorem rxListDispatch_eq (h : p.flagInit = true) : sdiohalRxListDispatch p =
    p.dispatchAll false SDIO_CHANNEL_NUM
      (fun p l => sdiohalRxListFree p l.mbufHead l.mbufTail l.nodeNum)
      ((List.finRange 13).map fun c => ListId.rx c.castSucc) := by
  rw [sdiohalRxListDispatch, if_pos h, ringWalk_eq_foldl, SdiohalData.dispatchAll,
    List.foldl_map, List.foldl_map]
  rfl

theorem txDispatch_iff (hp : Ready p) :
    HandedOver p (ringWalk (n := 11) (fun c p => p.txDispatch c) 0 p) .tx (fun c => c.val)
        (fun c => p.nodes (.tx c)) ↔
      p.nodes (.tx (Fin.last 11)) = [] ∧ ∀ c, p.nodes (.tx c) ≠ [] → p.ops c.val = true := by
  have hdis : Discards fun p _ => p := ⟨fun _ _ => rfl, fun _ _ => rfl, fun _ _ _ _ => rfl⟩
  rw [txRing_eq]
  refine handedOver_iff ListId.channel hp hdis (fun _ _ h => ListId.tx.inj h)
    (fun c => by simp) (fun c d h => Fin.ext h) (fun c => c.isLt) fun c hnum => ?_
  exact hp.marked _ _ rfl hnum

theorem rxDispatch_iff (hp : Ready p) :
    HandedOver p (sdiohalRxListDispatch p) .rx (fun c => c.val + SDIO_CHN_TX_NUM)
        (fun c => p.nodes (.rx c)) ↔
      p.nodes (.rx (Fin.last 13)) = [] ∧
        ∀ c, p.nodes (.rx c) ≠ [] → p.ops (c.val + SDIO_CHN_TX_NUM) = true := by
  rw [rxListDispatch_eq hp.init]
  refine handedOver_iff ListId.channel hp rxListFree_discards
    (fun _ _ h => ListId.rx.inj h) (fun c => by simp)
    (fun c d h => Fin.ext (Nat.add_right_cancel h))
    (fun c => Nat.add_lt_add_right c.isLt SDIO_CHN_TX_NUM) fun c hnum => ?_
  rw [hp.marked _ _ rfl hnum]
  rfl

theorem SameMbufs.handedOver {p'' : SdiohalData} {id : Fin n → ListId} {channel : Fin n → ℕ}
    {queued : Fin n → List MbufAddr} (h : SameMbufs p p') :
    HandedOver p p'' id channel queued ↔ HandedOver p' p'' id channel queued :=
  ⟨fun ⟨hc, hn, he⟩ => ⟨h.popped ▸ hc, hn, he⟩, fun ⟨hc, hn, he⟩ => ⟨h.popped ▸ hc, hn, he⟩⟩

/-- Everything sorted onto the lists of channels is handed over by the dispatch that follows, exactly
if there is nothing for the last channel of the direction and every channel with an mbuf has its
callback. -/
theorem dispatch_hands_over_iff {p q : SdiohalData} {dataList : SdiohalList} {mbufs : List MbufAddr}
    {items : List (MbufAddr × SdioPuh)} (hp : Ready p)
    (hlist : Holds p.next dataList.chain mbufs) (hfresh : ∀ i, (p.nodes i).Disjoint mbufs)
    (hnodup : (items.map Prod.fst).Nodup) (hitems : ∀ i, (p.nodes i).Disjoint (items.map Prod.fst))
    (hq : rxAssignAll p items = some q) :
    let txQueued := fun c => p.nodes (.tx c) ++ mbufs.filter (p.txTakes (.tx c))
    let rxQueued := fun c => p.nodes (.rx c) ++ (items.filter (rxTakes (.rx c))).map Prod.fst
    (HandedOver p (sdiohalTxListDenq p dataList) .tx (fun c => c.val) txQueued ↔
      txQueued (Fin.last 11) = [] ∧ ∀ c, txQueued c ≠ [] → p.ops c.val = true) ∧
    (HandedOver p (sdiohalRxListDispatch q) .rx (fun c => c.val + SDIO_CHN_TX_NUM) rxQueued ↔
      rxQueued (Fin.last 13) = [] ∧
        ∀ c, rxQueued c ≠ [] → p.ops (c.val + SDIO_CHN_TX_NUM) = true) := by
  constructor
  · obtain ⟨hready, hsame, hnodes⟩ := txPopAssignment_chain hp hlist hfresh
    rw [sdiohalTxListDenq, hsame.handedOver, ← hsame.ops]
    simp only [← hnodes]
    exact txDispatch_iff hready
  · obtain ⟨hready, hsame, hnodes⟩ := rxAssignAll_spec hp hnodup hitems hq
    rw [hsame.handedOver, ← hsame.ops]
    simp only [← hnodes]
    exact rxDispatch_iff hready

/-- After the lists are initialised. -/
theorem ready_of_empty (hinit : p.flagInit = true) (hnum : ∀ i, i ≠ .rxBuf → (p.list i).nodeNum = 0)
    (hbuf : Holds p.next (p.list .rxBuf).chain mbufs) : Ready p := by
  have hstored : Stored p.next (fun i => (p.list i).chain)
      (Function.update (fun _ => []) ListId.rxBuf mbufs) := by
    refine ⟨fun i => ?_, fun i j hij => ?_⟩
    · by_cases hi : i = .rxBuf
      · subst hi
        rw [Function.update_self]
        exact hbuf
      · rw [Function.update_of_ne hi]
        have hchain : (p.list i).chain = ⟨(p.list i).mbufHead, (p.list i).mbufTail, 0⟩ :=
          congrArg (Chain.mk _ _) (hnum i hi)
        rw [hchain]
        exact holds_empty ..
    · by_cases hi : i = .rxBuf
      · subst hi
        rw [Function.update_of_ne (Ne.symm hij)]
        exact List.disjoint_nil_right _
      · rw [Function.update_of_ne hi]
        exact List.disjoint_nil_left _
  refine ⟨hinit, nodes_of_stored hstored ▸ hstored, fun i s hi hne => absurd (hnum i ?_) hne⟩
  rintro rfl
  cases hi

/-- Two linked mbufs and a third one, all with headers of one subtype, and no mbuf on a list. -/
def sampleData (subtype : BitVec 8) : SdiohalData where
  mem a := if a % 8 = 3 then subtype else 0
  mbuf m := ⟨if m = 0 then some 1 else none, m * 8, 0⟩
  list _ := ⟨none, none, 0, 0, 0⟩
  flagInit := true
  ops _ := true
  kzalloc := 0
  popped := []

def sampleTxList : SdiohalList := ⟨some 0, some 1, 0, 0, 2⟩

theorem sampleData_ready (subtype : BitVec 8) : Ready (sampleData subtype) :=
  ready_of_empty rfl (fun _ _ => rfl) (holds_empty ..)

theorem sampleTxList_holds (subtype : BitVec 8) :
    Holds (sampleData subtype).next sampleTxList.chain [0, 1] := by
  refine ⟨rfl, fun _ => rfl, fun _ => rfl, .cons_cons rfl (.singleton 1), ?_, by decide⟩
  intro a ha
  cases ha
  rfl

theorem dispatch_hands_over_channel_one :
    HandedOver (sampleData 1) (sdiohalTxListDenq (sampleData 1) sampleTxList) .tx (fun c => c.val)
        (fun c => if c = 1 then [0, 1] else []) ∧
      HandedOver (sampleData 1)
        (sdiohalRxListDispatch ((sampleData 1).rxAssign 1 2 (puhAt (sampleData 1).mem 16))) .rx
        (fun c => c.val + SDIO_CHN_TX_NUM) (fun c => if c = 1 then [2] else []) := by
  have h := dispatch_hands_over_iff (sampleData_ready 1) (sampleTxList_holds 1)
    (fun i => List.disjoint_nil_left _) (by decide) (fun i => List.disjoint_nil_left _)
    (show rxAssignAll (sampleData 1) [(2, puhAt (sampleData 1).mem 16)] = some _ from rfl)
  have htx : (fun c => (sampleData 1).nodes (.tx c) ++
      [0, 1].filter ((sampleData 1).txTakes (.tx c))) = fun c => if c = 1 then [0, 1] else [] := by
    decide
  have hrx : (fun c => (sampleData 1).nodes (.rx c) ++
      ([(2, puhAt (sampleData 1).mem 16)].filter (rxTakes (.rx c))).map Prod.fst) =
      fun c => if c = 1 then [2] else [] := by decide
  dsimp only at h
  rw [htx, hrx] at h
  exact ⟨h.1.mpr ⟨rfl, fun _ _ => rfl⟩, h.2.mpr ⟨rfl, fun _ _ => rfl⟩⟩

/-- Mbufs of the last channel of either direction stay on their list. -/
theorem last_channels_skipped :
    (∃ p dataList mbufs, Ready p ∧ Holds p.next dataList.chain mbufs ∧
      (∀ i, (p.nodes i).Disjoint mbufs) ∧ (∀ channel, p.ops channel = true) ∧
      ¬ HandedOver p (sdiohalTxListDenq p dataList) .tx (fun c => c.val)
        fun c => p.nodes (.tx c) ++ mbufs.filter (p.txTakes (.tx c))) ∧
    ∃ p q items, Ready p ∧ (items.map Prod.fst).Nodup ∧
      (∀ i, (p.nodes i).Disjoint (items.map Prod.fst)) ∧ (∀ channel, p.ops channel = true) ∧
      rxAssignAll p items = some q ∧
      ¬ HandedOver p (sdiohalRxListDispatch q) .rx (fun c => c.val + SDIO_CHN_TX_NUM)
        fun c => p.nodes (.rx c) ++ (items.filter (rxTakes (.rx c))).map Prod.fst := by
  refine ⟨⟨sampleData 11, sampleTxList, [0, 1], sampleData_ready 11, sampleTxList_holds 11,
    fun i => List.disjoint_nil_left _, fun _ => rfl, fun h => ?_⟩,
    sampleData 13, _, [(2, puhAt (sampleData 13).mem 16)], sampleData_ready 13, by decide,
    fun i => List.disjoint_nil_left _, fun _ => rfl, rfl, fun h => ?_⟩
  · have hnum := h.num 11
    rw [sdiohalTxListDenq, txRing_eq] at hnum
    exact absurd hnum (by decide)
  · have hnum := h.num 13
    rw [rxListDispatch_eq rfl] at hnum
    exact absurd hnum (by decide)

end Uwe5631.Sdio
