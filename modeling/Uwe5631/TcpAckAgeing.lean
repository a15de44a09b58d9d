import Uwe5631.TcpAckSupersession

/-!
# Ageing keeps the flows apart

An entry changes its flow when it ages out and is initialised for another one. As long as it
ages only when it holds nothing and no call that found it is in progress, what is freed,
replaced or counted is so because of an acknowledgement of its own flow.
-/
namespace Uwe5631.TcpAck
open FallibleRuns InterleavedCalls

variable {s s' : Filter} {i j : Index} {c d : Call} {r : Option Call} {m : MsgBuf}

/-- The entry a call has found for its acknowledgement. -/
def Call.found : Call → Option Index
  | .send _ (.scale _ i) | .send _ (.setScale _ i) | .send _ (.weigh _ i)
  | .send _ (.handle _ i _) => some i
  | .send .. | .rx _ | .move .. => none

/-- The entry the action recycles. -/
def Call.recycles (s : Filter) : Call → Option Index
  | .send _ (.age i) => if (s.ackInfo i).aged s.jiffies then some i else none
  | .send .. | .rx _ | .move .. => none

/-- An entry ages out that holds a message, or that a call in progress has found. -/
def recyclesInUse (t : State) (ev : Event) : Bool :=
  (actor t ev).any fun c => (c.recycles t.shared).any fun i =>
    (t.shared.ackInfo i).msgbuf.isSome || t.calls.any fun d => d.found == some i

/-! ## What calls rely on -/

/-- What a call relies on at its control point. An entry it was handed is free and not offered
to others. -/
def Call.Trusts (s : Filter) : Call → Prop
  | .send m (.start c i) =>
    ackOf m.frame = some c.msg ∧ s.freeIndex ≠ some i ∧ (s.ackInfo i).busy = false
  | c => c.Asserts s

theorem Call.Asserts.trusts (h : c.Asserts s) : c.Trusts s := by
  cases c with
  | rx | move => exact h
  | send m pc =>
    cases pc with
    | start a i => exact ⟨h.1, h.2.1 ▸ (Option.some_ne_none i).symm, h.2.2⟩
    | enter | lockUpdate | age | check | search | scale | setScale | weigh | handle | alloc =>
      exact h

theorem Call.Trusts.asserts (h : c.Trusts s) (hinit : c.initialises = none) : c.Asserts s := by
  cases c with
  | rx | move => exact h
  | send m pc =>
    cases pc with
    | start a i => cases hinit
    | enter | lockUpdate | age | check | search | scale | setScale | weigh | handle | alloc =>
      exact h

/-- An action of another call that recycles no entry. -/
theorem Follows.trusts {own : Option Index} (h : Follows own s s')
    (hfree : s'.freeIndex = s.freeIndex ∨ s'.freeIndex = none)
    (hown : ∀ i, own = some i → d.initialises ≠ some i) (hd : d.Trusts s) : d.Trusts s' := by
  cases hinit : d.initialises with
  | none => exact (h.stable hown (hd.asserts hinit)).trusts
  | some i =>
    obtain ⟨m, a, rfl⟩ : ∃ m a, d = .send m (.start a i) := by
      cases d with
      | rx | move => cases hinit
      | send m pc => cases pc <;> cases hinit; exact ⟨m, _, rfl⟩
    refine ⟨hd.1, ?_, h.free i (fun hi => hown i hi rfl) hd.2.2⟩
    rcases hfree with hfree | hfree
    · rw [hfree]
      exact hd.2.1
    · rw [hfree]
      exact (Option.some_ne_none i).symm

/-! ## Actions -/

theorem allocIndex_freeIndex {o : Option Index} (h : sprdwlTcpAckAllocIndex s = (o, s')) :
    s'.freeIndex = s.freeIndex ∨ s'.freeIndex = none := by
  rw [sprdwlTcpAckAllocIndex] at h
  split at h
  · cases h
    exact Or.inl rfl
  · split at h
    · cases h
      exact Or.inr rfl
    · split at h <;> cases h <;> exact Or.inl rfl

/-- Only ageing offers an entry for allocation. -/
theorem act_freeIndex (hage : c.ages s = false) (h : act s c = .ok (s', r)) :
    s'.freeIndex = s.freeIndex ∨ s'.freeIndex = none := by
  cases c with
  | rx pc =>
    obtain ⟨⟨t, o⟩, ht, h⟩ := map_eq_ok.mp h
    cases h
    cases pc with
    | enter buf plen =>
      simp only [sprdwlFilterRxTcpAck] at ht
      split at ht
      · cases ht
        exact Or.inl rfl
      · obtain ⟨_, _, ht⟩ := map_eq_ok.mp ht
        cases ht
        exact Or.inl rfl
    | search a i =>
      simp only [sprdwlFilterRxTcpAck] at ht
      split at ht <;> cases ht <;> exact Or.inl rfl
    | push a i =>
      cases ht
      exact Or.inl rfl
  | move b pc =>
    cases h
    cases pc with
    | enter =>
      simp only [sprdwlMoveTcpackMsg]
      split <;> exact Or.inl rfl
    | sweep i => exact Or.inl rfl
  | send b pc =>
    obtain ⟨⟨t, o⟩, ht, h⟩ := map_eq_ok.mp h
    cases h
    cases pc with
    | enter | lockUpdate | search | scale | weigh =>
      simp only [sprdwlFilterSendTcpAck] at ht
      split at ht
      all_goals first
        | cases ht
          exact Or.inl rfl
        | split at ht <;> cases ht <;> exact Or.inl rfl
    | setScale | start =>
      cases ht
      exact Or.inl rfl
    | check =>
      obtain ⟨_, _, ht⟩ := map_eq_ok.mp ht
      split at ht <;> cases ht <;> exact Or.inl rfl
    | age i =>
      simp only [sprdwlFilterSendTcpAck, quiet_ageEntry hage] at ht
      split at ht <;> cases ht <;> exact Or.inl rfl
    | handle a i type =>
      simp only [sprdwlFilterSendTcpAck, Except.ok.injEq, Prod.mk.injEq] at ht
      obtain ⟨rfl, _⟩ := ht
      split <;> exact Or.inl rfl
    | alloc a =>
      simp only [sprdwlFilterSendTcpAck] at ht
      split at ht
      · cases ht
        exact Or.inl rfl
      · split at ht
        · rename_i halloc
          cases ht
          exact allocIndex_freeIndex halloc
        · rename_i u halloc
          cases ht
          have hfree : u.freeIndex = s.freeIndex ∨ u.freeIndex = none := allocIndex_freeIndex halloc
          exact hfree

/-- What an action leaves to the shared state, to its own call and to the others. -/
structure Proceeds (s : Filter) (c : Call) (s' : Filter) (r : Option Call) : Prop where
  inv : FlowInv s'
  next : ∀ d, r = some d → d.Trusts s' ∧ ∀ i, d.initialises = some i → c.allocates s = some i
  stable : ∀ d : Call, (∀ i, c.initialises = some i → d.initialises ≠ some i) →
    (∀ i, c.recycles s = some i → d.found ≠ some i) → d.Trusts s → d.Trusts s'

theorem Advances.proceeds (h : Advances s c s' r)
    (hfree : s'.freeIndex = s.freeIndex ∨ s'.freeIndex = none) : Proceeds s c s' r where
  inv := h.inv
  next d hd := ⟨(h.next d hd).1.trusts, (h.next d hd).2⟩
  stable _ hown _ hd := h.follows.trusts hfree hown hd

/-- The initialisation of an entry that may compete with one offered since. -/
theorem start_proceeds {a : CheckedAck} (hs : FlowInv s)
    (hA : (Call.send m (.start a i)).Trusts s) :
    Proceeds s (.send m (.start a i))
      ((s.onEntry i fun e => e.start s.maxDropCnt s.jiffies a.winScale a.msg).intfTx [m]) none where
  inv := by
    refine ⟨fun j => ?_, fun j hj => ?_⟩
    · by_cases hji : j = i
      · subst hji
        rw [intfTx_ackInfo, onEntry_self]
        exact start_entryInv (hs.entry j) hA.2.2 hA.1 _ _ _
      · rw [intfTx_ackInfo, onEntry_ne _ _ hji]
        exact (SameCore.refl _).entryInv (hs.entry j) (List.subset_append_left _ _)
    · have hji : j ≠ i := fun h => hA.2.1 (h ▸ hj)
      rw [intfTx_ackInfo, onEntry_ne _ _ hji]
      exact hs.free j hj
  next d hd := by cases hd
  stable d hown _ hd := by
    refine Follows.trusts (follows_section (fun a' ha' => ?_) fun hne => absurd rfl hne)
      (Or.inl rfl) hown hd
    rw [AckInfo.matched, hA.2.2] at ha'
    cases ha'

theorem recycle_ne (hji : j ≠ i) : (s.ageEntry i).ackInfo j = s.ackInfo j := by
  rw [Filter.ageEntry]
  split
  · exact onEntry_ne _ _ hji
  · rfl

theorem recycle_freeIndex (haged : (s.ackInfo i).aged s.jiffies = true) :
    (s.ageEntry i).freeIndex = some i := by
  rw [Filter.ageEntry, if_pos haged]

theorem recycle_self (haged : (s.ackInfo i).aged s.jiffies = true) :
    (s.ageEntry i).ackInfo i = (s.ackInfo i).recycle := by
  rw [Filter.ageEntry, if_pos haged]
  exact onEntry_self s i AckInfo.recycle

theorem recycle_sent (i : Index) : (s.ageEntry i).sent = s.sent := by
  rw [Filter.ageEntry]
  split <;> rfl

theorem recycle_flowInv (hs : FlowInv s) (haged : (s.ackInfo i).aged s.jiffies = true)
    (hclean : (s.ackInfo i).msgbuf = none) : FlowInv (s.ageEntry i) where
  entry j := by
    rw [recycle_sent]
    by_cases hji : j = i
    · subst hji
      rw [recycle_self haged]
      constructor
      · intro b hb
        exact absurd (hclean.symm.trans hb) (Option.some_ne_none b).symm
      · intro hbusy
        cases hbusy
    · rw [recycle_ne hji]
      exact hs.entry j
  free j hj := by
    rw [recycle_freeIndex haged] at hj
    cases hj
    rw [recycle_self haged]
    rfl

/-- The calls that have not found the entry that ages out are not concerned. -/
theorem recycle_trusts (haged : (s.ackInfo i).aged s.jiffies = true) (hfound : d.found ≠ some i)
    (hd : d.Trusts s) : d.Trusts (s.ageEntry i) := by
  have hbusy : (s.ackInfo i).busy = true := by
    rw [AckInfo.aged, Bool.and_eq_true] at haged
    exact haged.1
  cases d with
  | rx | move => exact hd
  | send b pc =>
    cases pc with
    | enter | lockUpdate | age | check | search | alloc => exact hd
    | scale a j | setScale a j | weigh a j | handle a j =>
      have hji : j ≠ i := fun h => hfound (congrArg some h)
      exact ⟨hd.1, by rw [recycle_ne hji]; exact hd.2⟩
    | start a j =>
      have hji : j ≠ i := by
        rintro rfl
        exact absurd (hd.2.2.symm.trans hbusy) Bool.false_ne_true
      refine ⟨hd.1, ?_, by rw [recycle_ne hji]; exact hd.2.2⟩
      rw [recycle_freeIndex haged]
      exact fun h => hji (Option.some.inj h).symm

theorem age_proceeds (hs : FlowInv s) (haged : (s.ackInfo i).aged s.jiffies = true)
    (hclean : (s.ackInfo i).msgbuf = none)
    (h : act s (.send m (.age i)) = .ok (s', r)) : Proceeds s (.send m (.age i)) s' r := by
  have hinv := recycle_flowInv hs haged hclean
  have hrecycles : (Call.send m (.age i)).recycles s = some i := if_pos haged
  have hstable : ∀ d : Call, (∀ j, (Call.send m (.age i)).recycles s = some j → d.found ≠ some j) →
      d.Trusts s → d.Trusts (s.ageEntry i) := fun d hfound hd =>
    recycle_trusts haged (hfound i hrecycles) hd
  obtain ⟨⟨t, o⟩, ht, h⟩ := map_eq_ok.mp h
  cases h
  simp only [sprdwlFilterSendTcpAck] at ht
  split at ht <;> cases ht
  · refine ⟨hinv, fun d hd => ?_, fun d _ => hstable d⟩
    cases hd
    exact ⟨True.intro, fun j hj => by cases hj⟩
  · refine ⟨⟨hinv.entry, hinv.free⟩, fun d hd => ?_, fun d _ hfound hd => ?_⟩
    · cases hd
      exact ⟨True.intro, fun j hj => by cases hj⟩
    · have hquiet : Quiet (s.ageEntry i) { s.ageEntry i with lockHeld := false } :=
        ⟨fun _ h => h, rfl, Or.inl rfl, fun _ => .refl _⟩
      exact (hquiet.follows none).trusts (Or.inl rfl) (fun j hj => by cases hj)
        (hstable d hfound hd)

theorem initialises_eq (h : c.initialises = some i) : ∃ m a, c = .send m (.start a i) := by
  cases c with
  | rx | move => cases h
  | send m pc =>
    cases pc <;> cases h
    exact ⟨m, _, rfl⟩

theorem ages_eq (h : c.ages s = true) :
    ∃ m i, c = .send m (.age i) ∧ (s.ackInfo i).aged s.jiffies = true := by
  cases c with
  | rx | move => cases h
  | send m pc =>
    cases pc with
    | age i => exact ⟨m, i, rfl, h⟩
    | enter | lockUpdate | check | search | scale | setScale | weigh | handle | alloc | start =>
      cases h

/-- An action that recycles an entry only if it holds nothing. -/
theorem act_proceeds (hs : FlowInv s) (hA : c.Trusts s)
    (hclean : ∀ i, c.recycles s = some i → (s.ackInfo i).msgbuf = none)
    (h : act s c = .ok (s', r)) : Proceeds s c s' r := by
  cases hage : c.ages s with
  | true =>
    obtain ⟨m, i, rfl, haged⟩ := ages_eq hage
    exact age_proceeds hs haged (hclean i (if_pos haged)) h
  | false =>
    cases hinit : c.initialises with
    | none =>
      exact (act_advances hs (hA.asserts hinit) hage h).proceeds (act_freeIndex hage h)
    | some i =>
      obtain ⟨m, a, rfl⟩ := initialises_eq hinit
      cases h
      exact start_proceeds hs hA

/-! ## Steps and runs -/

/-- The invariant of the shared state, and of each call that of its control point. -/
abbrev Trusting : State → Prop :=
  Asserted FlowInv (fun s c => c.Trusts s) Call.initialises

theorem Quiet.trusting {t : State} (h : Quiet t.shared s') (ht : Trusting t) :
    Trusting ⟨s', t.calls⟩ :=
  ht.outside (h.flowInv ht.shared) fun _ hd =>
    (h.follows none).trusts h.freeIndex (fun _ hi => by cases hi) hd

theorem runTimer_freeIndex (s : Filter) (i : Index) : (s.runTimer i).freeIndex = s.freeIndex := by
  rw [Filter.runTimer]
  split <;> rfl

theorem step_trusting {t t' : State} {ev : Event} (ht : Trusting t)
    (hage : recyclesInUse t ev = false) (halloc : reallocates t ev = false)
    (h : step t ev = .ok t') : Trusting t' := by
  cases ev with
  | send b | receive buf plen | move b =>
    cases h
    exact ht.begin True.intro rfl
  | tick n =>
    cases h
    exact Quiet.trusting ⟨fun _ h => h, rfl, Or.inl rfl, fun _ => .refl _⟩ ht
  | expire i =>
    cases h
    exact (quiet_onEntry t.shared i expire_core).trusting ht
  | timeout i =>
    cases h
    exact ht.outside (runTimer_flowInv ht.shared i) fun _ hd =>
      (runTimer_follows t.shared i).trusts (Or.inl (runTimer_freeIndex t.shared i))
        (fun _ hi => by cases hi) hd
  | advance k =>
    have hclean : ∀ c i, t.calls[k]? = some c → c.recycles t.shared = some i →
        (t.shared.ackInfo i).msgbuf = none ∧ ∀ d ∈ t.calls, d.found ≠ some i := by
      intro c i hk hi
      simpa [recyclesInUse, actor, hk, hi] using hage
    have hproceeds : ∀ c r, t.calls[k]? = some c → act t.shared c = .ok (t'.shared, r) →
        Proceeds t.shared c t'.shared r := fun c r hk hact =>
      act_proceeds ht.shared (ht.each c (List.mem_of_getElem? hk))
        (fun i hi => (hclean c i hk hi).1) hact
    refine ht.advance h (fun c r hk _ hact => ⟨(hproceeds c r hk hact).inv, fun d hd => ?_⟩)
      fun c d r hk _ hmem hd hown hact => (hproceeds c r hk hact).stable d hown
        (fun i hi => (hclean c i hk hi).2 d hmem) hd
    obtain ⟨htrusts, hinit⟩ := (hproceeds c r hk hact).next d hd
    refine ⟨htrusts, fun i hi => Or.inr ?_⟩
    simpa [reallocates, actor, hk, hinit i hi] using halloc

/-! ## What steps free, replace and count -/

/-- Nothing is freed, and no entry holds another message or has another count. -/
structure Spares (s s' : Filter) : Prop where
  freed : s'.freed = s.freed
  msgbuf : ∀ i, (s'.ackInfo i).msgbuf = (s.ackInfo i).msgbuf
  dropCnt : ∀ i, (s'.ackInfo i).dropCnt = (s.ackInfo i).dropCnt

theorem Spares.refl (s : Filter) : Spares s s := ⟨rfl, fun _ => rfl, fun _ => rfl⟩

theorem spares_same (hinfo : s'.ackInfo = s.ackInfo) (hfreed : s'.freed = s.freed) :
    Spares s s' := ⟨hfreed, fun _ => by rw [hinfo], fun _ => by rw [hinfo]⟩

theorem spares_onEntry (s : Filter) (i : Index) {f : AckInfo → AckInfo}
    (hmsgbuf : ∀ e, (f e).msgbuf = e.msgbuf) (hdropCnt : ∀ e, (f e).dropCnt = e.dropCnt) :
    Spares s (s.onEntry i f) where
  freed := rfl
  msgbuf j := by
    by_cases hji : j = i
    · subst hji
      rw [onEntry_self, hmsgbuf]
    · rw [onEntry_ne _ _ hji]
  dropCnt j := by
    by_cases hji : j = i
    · subst hji
      rw [onEntry_self, hdropCnt]
    · rw [onEntry_ne _ _ hji]

theorem ageEntry_spares (s : Filter) (i : Index) : Spares s (s.ageEntry i) := by
  have hrecycle := spares_onEntry s i (f := AckInfo.recycle) (fun _ => rfl) fun _ => rfl
  rw [Filter.ageEntry]
  split
  · exact ⟨hrecycle.freed, hrecycle.msgbuf, hrecycle.dropCnt⟩
  · exact .refl s

theorem expire_spares (s : Filter) (i : Index) : Spares s (s.onEntry i AckInfo.expire) := by
  refine spares_onEntry s i (fun e => ?_) fun e => ?_
  all_goals
    rw [AckInfo.expire]
    split <;> rfl

/-- Only the handling of an acknowledgement and the initialisation of an entry do more. -/
theorem act_spares (hhandle : ∀ m a i type, c ≠ .send m (.handle a i type))
    (hstart : ∀ m a i, c ≠ .send m (.start a i)) (h : act s c = .ok (s', r)) : Spares s s' := by
  cases c with
  | rx pc =>
    obtain ⟨⟨t, o⟩, ht, h⟩ := map_eq_ok.mp h
    cases h
    cases pc with
    | enter buf plen =>
      simp only [sprdwlFilterRxTcpAck] at ht
      split at ht
      · cases ht
        exact .refl s
      · obtain ⟨_, _, ht⟩ := map_eq_ok.mp ht
        cases ht
        exact .refl s
    | search a i =>
      simp only [sprdwlFilterRxTcpAck] at ht
      split at ht <;> cases ht <;> exact .refl s
    | push a i =>
      cases ht
      exact spares_onEntry s i (f := fun e => e.push a.seq) (fun _ => rfl) fun _ => rfl
  | move b pc =>
    cases h
    cases pc with
    | enter =>
      simp only [sprdwlMoveTcpackMsg]
      split <;> exact .refl s
    | sweep i =>
      refine spares_onEntry s i (f := fun e => e.moved b) (fun e => ?_) fun e => ?_
      all_goals
        rw [AckInfo.moved]
        split <;> rfl
  | send b pc =>
    obtain ⟨⟨t, o⟩, ht, h⟩ := map_eq_ok.mp h
    cases h
    cases pc with
    | enter | lockUpdate | search | scale | weigh =>
      simp only [sprdwlFilterSendTcpAck] at ht
      split at ht
      all_goals first
        | cases ht
          exact spares_same rfl rfl
        | split at ht <;> cases ht <;> exact spares_same rfl rfl
    | setScale a i =>
      cases ht
      exact spares_onEntry s i (f := fun e => e.rescale a.winScale) (fun _ => rfl) fun _ => rfl
    | check =>
      obtain ⟨_, _, ht⟩ := map_eq_ok.mp ht
      split at ht <;> cases ht <;> exact spares_same rfl rfl
    | age i =>
      have hage := ageEntry_spares s i
      simp only [sprdwlFilterSendTcpAck] at ht
      split at ht <;> cases ht
      · exact hage
      · exact ⟨hage.freed, hage.msgbuf, hage.dropCnt⟩
    | alloc a =>
      simp only [sprdwlFilterSendTcpAck] at ht
      split at ht
      · cases ht
        exact .refl s
      · split at ht
        all_goals
          rename_i halloc
          obtain ⟨_, hinfo, hfreed⟩ := allocIndex_same halloc
          cases ht
          exact spares_same hinfo hfreed
    | handle a i type => exact absurd rfl (hhandle b a i type)
    | start a i => exact absurd rfl (hstart b a i)

/-! ## Flows apart -/

/-- The entry is of the flow: so are the acknowledgement that its number is from, and the
message it holds. -/
structure Filter.OfFlow (s : Filter) (i : Index) (a : AckMsg) : Prop where
  matched : (s.ackInfo i).matched a = true
  last : ∃ b a', ackOf b.frame = some a' ∧ a'.sameFlow a = true ∧
    a'.seq = (s.ackInfo i).ackMsg.seq ∧ (b ∈ s.sent ∨ (s.ackInfo i).msgbuf = some b)
  held : ∀ b, (s.ackInfo i).msgbuf = some b → ∃ a', ackOf b.frame = some a' ∧ a'.sameFlow a = true

/-- A step initialises only an entry that holds nothing and handles an acknowledgement only at
an entry of its flow, and nothing but this handling frees a message, replaces one or counts. -/
structure FlowsApart (t : State) (ev : Event) (t' : State) : Prop where
  clean : ∀ m a i, actor t ev = some (.send m (.start a i)) → (t.shared.ackInfo i).msgbuf = none
  ownFlow : ∀ m a i type, actor t ev = some (.send m (.handle a i type)) →
    ackOf m.frame = some a.msg ∧ t.shared.OfFlow i a.msg
  freed : ∀ x, t.shared.freed.count x < t'.shared.freed.count x →
    ∃ m a i type, actor t ev = some (.send m (.handle a i type)) ∧
      ∃ a', ackOf x.frame = some a' ∧ a'.sameFlow a.msg = true
  replaced : ∀ i, (t'.shared.ackInfo i).msgbuf ≠ (t.shared.ackInfo i).msgbuf →
    (∃ m a type, actor t ev = some (.send m (.handle a i type))) ∨
      ev = .timeout i ∧ (t'.shared.ackInfo i).msgbuf = none
  counted : ∀ i, (t'.shared.ackInfo i).dropCnt ≠ (t.shared.ackInfo i).dropCnt →
    (∃ m a, actor t ev = some (.send m (.start a i)) ∨
      ∃ type, actor t ev = some (.send m (.handle a i type))) ∨
      ev = .timeout i ∧ (t'.shared.ackInfo i).dropCnt = 0

theorem EntryInv.ofFlow {a : AckMsg} (h : EntryInv s.sent (s.ackInfo i))
    (hmatched : (s.ackInfo i).matched a = true) : s.OfFlow i a where
  matched := hmatched
  last := by
    obtain ⟨hbusy, hflow⟩ := matched_iff.mp hmatched
    obtain ⟨b, ⟨a', ha', hsame, hseq⟩, hwhere⟩ := h.last hbusy
    exact ⟨b, a', ha', AckMsg.sameFlow_trans hsame hflow, hseq, hwhere⟩
  held b hb := by
    obtain ⟨_, a', ha', hsame, _⟩ := h.held b hb
    exact ⟨a', ha', AckMsg.sameFlow_trans hsame (matched_iff.mp hmatched).2⟩

/-- A step that no call takes, or one that neither handles nor initialises. -/
theorem Spares.flowsApart {t t' : State} {ev : Event} (h : Spares t.shared t'.shared)
    (hactor : ∀ c, actor t ev = some c →
      (∀ m a i type, c ≠ .send m (.handle a i type)) ∧ ∀ m a i, c ≠ .send m (.start a i)) :
    FlowsApart t ev t' where
  clean m a i hm := absurd rfl ((hactor _ hm).2 m a i)
  ownFlow m a i type hm := absurd rfl ((hactor _ hm).1 m a i type)
  freed x hx := by
    rw [h.freed] at hx
    exact absurd hx (Nat.lt_irrefl _)
  replaced i hi := absurd (h.msgbuf i) hi
  counted i hi := absurd (h.dropCnt i) hi

/-- What handling drops is the new message or the one held. -/
theorem Handles.dropMsg_cases {e : AckInfo} {new x : MsgBuf} {seq : BitVec 32} {h : Handled}
    (hh : Handles e new seq h) (hx : h.dropMsg = some x) : x = new ∨ e.msgbuf = some x := by
  cases hh with
  | refused _ _ _ _ _ _ hdrop =>
    rw [hdrop] at hx
    exact Or.inl (Option.some.inj hx).symm
  | passed _ _ _ _ hdrop | held _ _ _ _ _ hdrop => exact Or.inr (hdrop.symm.trans hx)

theorem handle_flowsApart {t t' : State} {k : ℕ} {a : CheckedAck} {type : ℕ} (ht : Trusting t)
    (hk : t.calls[k]? = some (.send m (.handle a i type)))
    (h : act t.shared (.send m (.handle a i type)) = .ok (t'.shared, r)) :
    FlowsApart t (.advance k) t' := by
  obtain ⟨hack, hmatched⟩ := ht.each _ (List.mem_of_getElem? hk)
  have hof := (ht.shared.entry i).ofFlow hmatched
  have hr := tcpAckHandle_handles (t.shared.ackInfo i) t.shared.maxDropCnt t.shared.jiffies m a.msg
    type
  generalize hR : tcpAckHandle (t.shared.ackInfo i) t.shared.maxDropCnt t.shared.jiffies m a.msg
    type = R at hr
  simp only [act, sprdwlFilterSendTcpAck, hR, ok_map, Except.ok.injEq, Prod.mk.injEq] at h
  have hfreed : t'.shared.freed = t.shared.freed ++ R.dropMsg.toList := by
    rw [← h.1]
    split <;> rfl
  have helse : ∀ j, j ≠ i → t'.shared.ackInfo j = t.shared.ackInfo j := by
    intro j hji
    rw [← h.1]
    split <;> exact onEntry_ne t.shared (fun _ => R.entry) hji
  have hactor : actor t (.advance k) = some (.send m (.handle a i type)) := hk
  constructor
  · intro m' a' j hm'
    rw [hactor] at hm'
    cases hm'
  · intro m' a' j type' hm'
    rw [hactor] at hm'
    cases hm'
    exact ⟨hack, hof⟩
  · intro x hx
    refine ⟨m, a, i, type, hactor, ?_⟩
    have hdrop : R.dropMsg = some x := by
      rw [hfreed, List.count_append] at hx
      have hpos : 0 < R.dropMsg.toList.count x := by omega
      exact Option.mem_toList.mp (List.count_pos_iff.mp hpos)
    rcases hr.dropMsg_cases hdrop with rfl | hheld
    · exact ⟨a.msg, hack, AckMsg.sameFlow_iff.mpr ⟨rfl, rfl, rfl, rfl⟩⟩
    · exact hof.held x hheld
  · intro j hj
    by_cases hji : j = i
    · exact Or.inl ⟨m, a, type, hji ▸ hactor⟩
    · exact absurd (congrArg AckInfo.msgbuf (helse j hji)) hj
  · intro j hj
    by_cases hji : j = i
    · exact Or.inl ⟨m, a, Or.inr ⟨type, hji ▸ hactor⟩⟩
    · exact absurd (congrArg AckInfo.dropCnt (helse j hji)) hj

theorem start_flowsApart {t t' : State} {k : ℕ} {a : CheckedAck} (ht : Trusting t)
    (hk : t.calls[k]? = some (.send m (.start a i)))
    (h : act t.shared (.send m (.start a i)) = .ok (t'.shared, r)) :
    FlowsApart t (.advance k) t' := by
  obtain ⟨_, _, hbusy⟩ := ht.each _ (List.mem_of_getElem? hk)
  simp only [act, sprdwlFilterSendTcpAck, ok_map, Except.ok.injEq, Prod.mk.injEq] at h
  have hactor : actor t (.advance k) = some (.send m (.start a i)) := hk
  have hfreed : t'.shared.freed = t.shared.freed := by rw [← h.1]; rfl
  have hmsgbuf : ∀ j, (t'.shared.ackInfo j).msgbuf = (t.shared.ackInfo j).msgbuf := by
    intro j
    rw [← h.1, intfTx_ackInfo]
    by_cases hji : j = i
    · subst hji
      rw [onEntry_self]
      rfl
    · rw [onEntry_ne _ _ hji]
  constructor
  · intro m' a' j hm'
    rw [hactor] at hm'
    cases hm'
    -- an entry that holds something is busy
    by_contra hheld
    obtain ⟨b, hb⟩ := Option.ne_none_iff_exists'.mp hheld
    exact absurd (hbusy.symm.trans ((ht.shared.entry i).held b hb).1) Bool.false_ne_true
  · intro m' a' j type' hm'
    rw [hactor] at hm'
    cases hm'
  · intro x hx
    rw [hfreed] at hx
    exact absurd hx (Nat.lt_irrefl _)
  · exact fun j hj => absurd (hmsgbuf j) hj
  · intro j hj
    by_cases hji : j = i
    · exact Or.inl ⟨m, a, Or.inl (hji ▸ hactor)⟩
    · rw [← h.1, intfTx_ackInfo, onEntry_ne _ _ hji] at hj
      exact absurd rfl hj

theorem timeout_flowsApart {t t' : State} (h : step t (.timeout i) = .ok t') :
    FlowsApart t (.timeout i) t' := by
  cases h
  have hactor : ∀ c, actor t (.timeout i) ≠ some c := fun c hc => by cases hc
  have helse : ∀ j, j ≠ i → (t.shared.runTimer i).ackInfo j = t.shared.ackInfo j := by
    intro j hji
    rw [Filter.runTimer]
    split
    · rw [intfTx_ackInfo, onEntry_ne _ _ hji]
    · rfl
  have hself : (t.shared.runTimer i).ackInfo i = t.shared.ackInfo i ∨
      (t.shared.runTimer i).ackInfo i = (sprdwlTcpAckTimeout (t.shared.ackInfo i)).1 := by
    rw [Filter.runTimer]
    split
    · rw [intfTx_ackInfo, onEntry_self]
      exact Or.inr rfl
    · exact Or.inl rfl
  have hout := sprdwlTcpAckTimeout_timesOut (t.shared.ackInfo i)
  constructor
  · exact fun m a j hm => absurd hm (hactor _)
  · exact fun m a j type hm => absurd hm (hactor _)
  · intro x hx
    have hfreed : (t.shared.runTimer i).freed = t.shared.freed := by
      rw [Filter.runTimer]
      split <;> rfl
    rw [hfreed] at hx
    exact absurd hx (Nat.lt_irrefl _)
  · intro j hj
    by_cases hji : j = i
    · subst hji
      refine Or.inr ⟨rfl, ?_⟩
      rcases hself with hself | hself
      · exact absurd (congrArg AckInfo.msgbuf hself) hj
      · rw [hself] at hj ⊢
        cases hout with
        | sent _ _ _ _ hentry => rw [hentry]
        | idle _ hentry => exact absurd (congrArg AckInfo.msgbuf hentry) hj
    · exact absurd (congrArg AckInfo.msgbuf (helse j hji)) hj
  · intro j hj
    by_cases hji : j = i
    · subst hji
      refine Or.inr ⟨rfl, ?_⟩
      rcases hself with hself | hself
      · exact absurd (congrArg AckInfo.dropCnt hself) hj
      · rw [hself] at hj ⊢
        cases hout with
        | sent _ _ _ _ hentry => rw [hentry]
        | idle _ hentry => exact absurd (congrArg AckInfo.dropCnt hentry) hj
    · exact absurd (congrArg AckInfo.dropCnt (helse j hji)) hj

theorem step_flowsApart {t t' : State} {ev : Event} (ht : Trusting t) (h : step t ev = .ok t') :
    FlowsApart t ev t' := by
  cases ev with
  | send b | receive buf plen | move b =>
    cases h
    exact Spares.flowsApart (Spares.refl t.shared) (by intro c hc; cases hc)
  | tick n =>
    cases h
    exact Spares.flowsApart (spares_same rfl rfl) (by intro c hc; cases hc)
  | expire i =>
    cases h
    exact Spares.flowsApart (expire_spares t.shared i) (by intro c hc; cases hc)
  | timeout i => exact timeout_flowsApart h
  | advance k =>
    rcases advance_cases h with ⟨rfl, hk⟩ | ⟨c, r, hk, hact, _⟩
    · refine (Spares.refl t'.shared).flowsApart fun c hc => ?_
      rw [actor, hk] at hc
      cases hc
    · by_cases hhandle : ∃ m a i type, c = .send m (.handle a i type)
      · obtain ⟨m, a, i, type, rfl⟩ := hhandle
        exact handle_flowsApart ht hk hact
      by_cases hstart : ∃ m a i, c = .send m (.start a i)
      · obtain ⟨m, a, i, rfl⟩ := hstart
        exact start_flowsApart ht hk hact
      have hne : ∀ m a i type, c ≠ .send m (.handle a i type) := fun m a i type hc =>
        hhandle ⟨m, a, i, type, hc⟩
      have hne' : ∀ m a i, c ≠ .send m (.start a i) := fun m a i hc => hstart ⟨m, a, i, hc⟩
      refine (act_spares hne hne' hact).flowsApart fun d hd => ?_
      rw [actor, hk] at hd
      cases hd
      exact ⟨hne, hne'⟩

theorem init_trusting (now oldTime : Jiffies) : Trusting (State.init now oldTime) where
  shared := (consistent_init now oldTime).shared
  each c hc := by cases hc
  exclusive := List.nodup_nil

/-- If an entry ages out only when it holds nothing and is in use by no call, and no entry is
handed out twice, every step of a run keeps the flows apart. -/
theorem ageing_keeps_flows_apart {now oldTime : Jiffies} {es : List Event}
    (hC : Along step (fun t ev => recyclesInUse t ev = false ∧ reallocates t ev = false)
      (State.init now oldTime) es) :
    ∀ es₁ ev es₂ u u', es = es₁ ++ ev :: es₂ → run step (State.init now oldTime) es₁ = .ok u →
      step u ev = .ok u' → FlowsApart u ev u' := by
  intro es₁ ev es₂ u u' hes hu hstep
  rw [hes, along_append] at hC
  have htrusting : Trusting u :=
    run_invariant (fun t ev t' ht hc hs => step_trusting ht hc.1 hc.2 hs)
      (init_trusting now oldTime) hC.1 hu
  exact step_flowsApart htrusting hstep

/-- A call that ages the entries and finds none of its flow, up to its last action. -/
def ageAndSearch : List Event := List.replicate 68 (.advance 0)

/-- The only flow ages out, and another one's acknowledgement is to start its entry. -/
def cleanAgeing : List Event :=
  List.flatten [[.send (ackMsgBuf 7 10 [])], searchAll 0,
    [.advance 0, .tick 5000, .send (ackMsgBuf 8 5 [])], ageAndSearch]

theorem cleanAgeing_next :
    ((run step (State.init 0 4000) cleanAgeing).bind fun u => (step u (.advance 0)).map fun _ =>
      actor u (.advance 0)) =
      .ok (some (.send (ackMsgBuf 8 5 []) (.start ⟨1, 0, ⟨8, 80, 0x0a000001, 0x0a000002, 5, 0xffff⟩⟩ 0))) := by
  decide +kernel

theorem ageing_keeps_flows_apart_clean : ∃ u u',
    run step (State.init 0 4000) cleanAgeing = .ok u ∧ step u (.advance 0) = .ok u' ∧
      (u.shared.ackInfo 0).msgbuf = none ∧ FlowsApart u (.advance 0) u' := by
  obtain ⟨u, hu, h⟩ := bind_eq_ok.mp cleanAgeing_next
  obtain ⟨u', hu', hactor⟩ := map_eq_ok.mp h
  have hclean : Along step (fun t ev => recyclesInUse t ev = false ∧ reallocates t ev = false)
      (State.init 0 4000) (cleanAgeing ++ [.advance 0]) := by decide +kernel
  have happart : FlowsApart u (.advance 0) u' :=
    ageing_keeps_flows_apart hclean cleanAgeing (.advance 0) [] u u' rfl hu hu'
  exact ⟨u, u', hu, hu', happart.clean _ _ _ hactor, happart⟩

/-- While one acknowledgement is in flight the next one is held and its timer expires in vain;
then the flow ages out, and two acknowledgements of another flow arrive. -/
def ageingWithHeld : List Event :=
  List.flatten [[.send (ackMsgBuf 7 10 [3, 3, 7, 1])], searchAll 0,
    [.advance 0, .send (ackMsgBuf 7 20 [])], List.replicate 6 (.advance 0),
    [.send (ackMsgBuf 7 30 [])], List.replicate 6 (.advance 0),
    [.tick 5, .expire 0, .timeout 0, .tick 5000, .send (ackMsgBuf 8 5 [])], ageAndSearch,
    [.advance 0, .send (ackMsgBuf 8 9 [])], List.replicate 5 (.advance 0)]

/-- The acknowledgement of the second flow is handled at the entry that holds one of the first. -/
def mixedHandling : Call :=
  .send (ackMsgBuf 8 9 []) (.handle ⟨1, 0, ⟨8, 80, 0x0a000001, 0x0a000002, 9, 0xffff⟩⟩ 0 2)

theorem ageingWithHeld_next :
    ((run step (State.init 0 4000) ageingWithHeld).bind fun u => (step u (.advance 0)).map fun u' =>
      (actor u (.advance 0), (u.shared.ackInfo 0).msgbuf, u.shared.freed, u'.shared.freed)) =
      .ok (some mixedHandling, some (ackMsgBuf 7 30 []), [], [ackMsgBuf 7 30 []]) := by
  decide +kernel

/-- An acknowledgement of one flow is dropped because of one of another. -/
theorem ageing_mixes_flows : ∃ u u',
    run step (State.init 0 4000) ageingWithHeld = .ok u ∧ step u (.advance 0) = .ok u' ∧
      actor u (.advance 0) = some mixedHandling ∧ u.shared.freed = [] ∧
      u'.shared.freed = [ackMsgBuf 7 30 []] ∧ ¬ FlowsApart u (.advance 0) u' := by
  obtain ⟨u, hu, h⟩ := bind_eq_ok.mp ageingWithHeld_next
  obtain ⟨u', hu', h⟩ := map_eq_ok.mp h
  simp only [Prod.mk.injEq] at h
  obtain ⟨hactor, hheld, hfreed, hfreed'⟩ := h
  refine ⟨u, u', hu, hu', hactor, hfreed, hfreed', fun happart => ?_⟩
  obtain ⟨a', ha', hsame⟩ := (happart.ownFlow _ _ _ _ hactor).2.held _ hheld
  have hown : ackOf (ackMsgBuf 7 30 []).frame =
      some ⟨7, 80, 0x0a000001, 0x0a000002, 30, 0xffff⟩ := by decide
  rw [hown] at ha'
  cases ha'
  exact absurd hsame (by decide)

end Uwe5631.TcpAck
