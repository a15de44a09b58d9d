import Uwe5631.TcpAckConservation

/-!
# Dropped acknowledgements are superseded

An entry belongs to one flow from its initialisation on, and its `seq` is the number of a
message of the flow that was passed on or is held. Both rest on an allocation that hands out
an entry nobody else was handed; without it two flows meet in one entry.
-/
namespace Uwe5631.TcpAck
open FallibleRuns InterleavedCalls

variable {s s' : Filter} {e : AckInfo} {i : Index} {m : MsgBuf} {a : AckMsg}
  {sent sent' : List MsgBuf}

/-- For the same flow, an acknowledgement at or after the message's own is held or has been
passed on. -/
def Superseded (m : MsgBuf) (s : Filter) : Prop :=
  ∃ a, ackOf m.frame = some a ∧ ∃ b a', ackOf b.frame = some a' ∧ a'.sameFlow a = true ∧
    u32Before a.seq a'.seq = true ∧ (b ∈ s.sent ∨ ∃ i, (s.ackInfo i).msgbuf = some b)

/-- The message carries the last acknowledgement of the entry. -/
def AckInfo.LastIs (e : AckInfo) (m : MsgBuf) : Prop :=
  ∃ a, ackOf m.frame = some a ∧ a.sameFlow e.ackMsg = true ∧ a.seq = e.ackMsg.seq

/-- What an entry holds is its last acknowledgement, and that one did not get lost. -/
structure EntryInv (sent : List MsgBuf) (e : AckInfo) : Prop where
  held : ∀ m, e.msgbuf = some m → e.busy = true ∧ e.LastIs m
  last : e.busy = true → ∃ b, e.LastIs b ∧ (b ∈ sent ∨ e.msgbuf = some b)

/-- The fields of an entry that the invariant is about. -/
structure SameCore (e e' : AckInfo) : Prop where
  busy : e'.busy = e.busy
  msgbuf : e'.msgbuf = e.msgbuf
  ackMsg : e'.ackMsg = e.ackMsg

theorem SameCore.refl (e : AckInfo) : SameCore e e := ⟨rfl, rfl, rfl⟩

theorem SameCore.entryInv {e' : AckInfo} (h : SameCore e e') (hinv : EntryInv sent e)
    (hsent : sent ⊆ sent') : EntryInv sent' e' where
  held m hm := by
    rw [h.msgbuf] at hm
    rw [h.busy, AckInfo.LastIs, h.ackMsg]
    exact hinv.held m hm
  last hbusy := by
    rw [h.busy] at hbusy
    obtain ⟨b, hb, hwhere⟩ := hinv.last hbusy
    rw [h.msgbuf]
    refine ⟨b, ?_, hwhere.imp_left (hsent ·)⟩
    rw [AckInfo.LastIs, h.ackMsg]
    exact hb

/-! ## The sections that change the core of an entry -/

theorem lastIs_acknowledged {new : MsgBuf} {e' : AckInfo} (hack : ackOf new.frame = some a)
    (hflow : e.ackMsg.sameFlow a = true) (hmsg : e'.ackMsg = { e.ackMsg with seq := a.seq }) :
    e'.LastIs new := by
  refine ⟨a, hack, ?_, by rw [hmsg]⟩
  rw [hmsg]
  exact AckMsg.sameFlow_comm hflow

theorem Handles.entryInv {new : MsgBuf} {r : Handled} (h : Handles e new a.seq r)
    (hinv : EntryInv sent e) (hbusy : e.busy = true) (hflow : e.ackMsg.sameFlow a = true)
    (hack : ackOf new.frame = some a) :
    EntryInv (sent ++ if r.ret then [] else [new]) r.entry := by
  cases h with
  | refused _ hb ha hm _ _ _ hret =>
    exact SameCore.entryInv ⟨hb, hm, ha⟩ hinv (List.subset_append_left _ _)
  | passed _ hb ha hm _ hret =>
    constructor
    · intro m hheld
      rw [hm] at hheld
      cases hheld
    · intro _
      exact ⟨new, lastIs_acknowledged hack hflow ha, Or.inl (by simp [hret])⟩
  | held _ hb ha hm _ _ _ =>
    constructor
    · intro m hheld
      rw [hm] at hheld
      cases hheld
      exact ⟨hb.trans hbusy, lastIs_acknowledged hack hflow ha⟩
    · intro _
      exact ⟨new, lastIs_acknowledged hack hflow ha, Or.inr hm⟩

/-- What `sprdwl_tcp_ack_handle` drops is not after what the entry acknowledged last or
acknowledges now. -/
theorem Handles.superseded {new : MsgBuf} {r : Handled} (h : Handles e new a.seq r)
    (hinv : EntryInv sent e) (hbusy : e.busy = true) (hflow : e.ackMsg.sameFlow a = true)
    (hack : ackOf new.frame = some a) (hm : r.dropMsg = some m) :
    ∃ a₁, ackOf m.frame = some a₁ ∧ ∃ b a₂, ackOf b.frame = some a₂ ∧ a₂.sameFlow a₁ = true ∧
      u32Before a₁.seq a₂.seq = true ∧
      (b ∈ sent ++ (if r.ret then [] else [new]) ∨ r.entry.msgbuf = some b) := by
  have hold : ∀ b, e.msgbuf = some b → u32Before e.ackMsg.seq a.seq = true →
      ∃ a₁, ackOf b.frame = some a₁ ∧ a.sameFlow a₁ = true ∧ u32Before a₁.seq a.seq = true := by
    intro b hb hbefore
    obtain ⟨_, a₁, ha₁, hsame, hseq⟩ := hinv.held b hb
    refine ⟨a₁, ha₁, ?_, by rw [hseq]; exact hbefore⟩
    exact AckMsg.sameFlow_comm (AckMsg.sameFlow_trans hsame hflow)
  cases h with
  | refused hbefore _ _ hmsg _ _ hdrop _ =>
    -- the last acknowledgement supersedes the new message
    rw [hdrop] at hm
    cases hm
    obtain ⟨b, ⟨a₂, ha₂, hsame, hseq⟩, hwhere⟩ := hinv.last hbusy
    refine ⟨a, hack, b, a₂, ha₂, AckMsg.sameFlow_trans hsame hflow, ?_, ?_⟩
    · rw [hseq]
      exact u32Before_of_not hbefore
    · rw [hmsg]
      exact hwhere.imp_left (List.mem_append_left _)
  | passed hbefore _ _ _ hdrop hret =>
    rw [hdrop] at hm
    obtain ⟨a₁, ha₁, hsame, hseq⟩ := hold m hm hbefore
    exact ⟨a₁, ha₁, new, a, hack, hsame, hseq, Or.inl (by simp [hret])⟩
  | held hbefore _ _ hmsg _ hdrop _ =>
    rw [hdrop] at hm
    obtain ⟨a₁, ha₁, hsame, hseq⟩ := hold m hm hbefore
    exact ⟨a₁, ha₁, new, a, hack, hsame, hseq, Or.inr hmsg⟩

theorem start_entryInv {new : MsgBuf} (hinv : EntryInv sent e) (hbusy : e.busy = false)
    (hack : ackOf new.frame = some a) (maxDropCnt : BitVec 32) (jiffies : Jiffies)
    (winScale : ℕ) : EntryInv (sent ++ [new]) (e.start maxDropCnt jiffies winScale a) where
  held m hm := by
    have hheld := (hinv.held m hm).1
    rw [hbusy] at hheld
    cases hheld
  last _ := by
    refine ⟨new, ⟨a, hack, ?_, rfl⟩, Or.inl (by simp)⟩
    simp [AckMsg.sameFlow_iff, AckInfo.start]

theorem TimesOut.entryInv {r : AckInfo × Option MsgBuf} (h : TimesOut e r)
    (hinv : EntryInv sent e) : EntryInv (sent ++ r.2.toList) r.1 := by
  cases h with
  | sent msg hbusy _ hmsg hentry hout =>
    rw [hentry, hout]
    constructor
    · intro m hm
      cases hm
    · intro _
      exact ⟨msg, (hinv.held msg hmsg).2, Or.inl (by simp)⟩
  | idle _ hentry hout =>
    rw [hentry, hout]
    exact SameCore.entryInv (e := e) ⟨rfl, rfl, rfl⟩ hinv (List.subset_append_left _ _)

/-- The timer handler leaves the flow of an entry. -/
theorem TimesOut.core {r : AckInfo × Option MsgBuf} (h : TimesOut e r) :
    r.1.busy = e.busy ∧ r.1.ackMsg = e.ackMsg := by
  cases h with
  | sent _ _ _ _ hentry | idle _ hentry =>
    rw [hentry]
    exact ⟨rfl, rfl⟩

/-! ## Actions that leave the core of all entries -/

/-- Nothing is dropped, and no entry gets another flow, number or message. -/
structure Quiet (s s' : Filter) : Prop where
  sent : s.sent ⊆ s'.sent
  freed : s'.freed = s.freed
  freeIndex : s'.freeIndex = s.freeIndex ∨ s'.freeIndex = none
  core : ∀ i, SameCore (s.ackInfo i) (s'.ackInfo i)

theorem Quiet.refl (s : Filter) : Quiet s s :=
  ⟨fun _ h => h, rfl, Or.inl rfl, fun _ => .refl _⟩

theorem quiet_intfTx (s : Filter) (msgs : List MsgBuf) : Quiet s (s.intfTx msgs) :=
  ⟨List.subset_append_left _ _, rfl, Or.inl rfl, fun _ => .refl _⟩

theorem quiet_onEntry (s : Filter) (i : Index) {f : AckInfo → AckInfo}
    (h : ∀ e, SameCore e (f e)) : Quiet s (s.onEntry i f) where
  sent := fun _ h => h
  freed := rfl
  freeIndex := Or.inl rfl
  core j := by
    by_cases hji : j = i
    · subst hji
      rw [onEntry_self]
      exact h _
    · rw [onEntry_ne _ _ hji]
      exact .refl _

theorem quiet_ageEntry (h : (s.ackInfo i).aged s.jiffies = false) : s.ageEntry i = s := by
  rw [Filter.ageEntry, if_neg (by simp [h])]

theorem moved_core (e : AckInfo) (msg : MsgBuf) : SameCore e (e.moved msg) := by
  rw [AckInfo.moved]
  split
  · exact ⟨rfl, rfl, rfl⟩
  · exact .refl e

theorem expire_core (e : AckInfo) : SameCore e e.expire := by
  rw [AckInfo.expire]
  split
  · exact ⟨rfl, rfl, rfl⟩
  · exact .refl e

/-- An allocation gives up the free index and finds an entry that is not busy. -/
theorem allocIndex_spec {o : Option Index} (h : sprdwlTcpAckAllocIndex s = (o, s'))
    (hfree : ∀ i, s.freeIndex = some i → (s.ackInfo i).busy = false) :
    Quiet s s' ∧ ∀ i, o = some i → s'.freeIndex = none ∧ (s'.ackInfo i).busy = false := by
  rw [sprdwlTcpAckAllocIndex] at h
  split at h
  · cases h
    exact ⟨.refl s, fun i hi => by cases hi⟩
  · split at h
    · rename_i j hj
      cases h
      refine ⟨⟨fun _ h => h, rfl, Or.inr rfl, fun _ => .refl _⟩, fun i hi => ?_⟩
      cases hi
      exact ⟨rfl, hfree j hj⟩
    · rename_i hnone
      split at h
      · rename_i j hj
        cases h
        refine ⟨⟨fun _ h => h, rfl, Or.inl rfl, fun _ => .refl _⟩, fun i hi => ?_⟩
        cases hi
        exact ⟨hnone, by simpa using List.find?_some hj⟩
      · cases h
        exact ⟨.refl s, fun i hi => by cases hi⟩

/-! ## What holds between the actions -/

/-- The shared state between two actions. -/
structure FlowInv (s : Filter) : Prop where
  entry : ∀ i, EntryInv s.sent (s.ackInfo i)
  free : ∀ i, s.freeIndex = some i → (s.ackInfo i).busy = false

/-- The entry a call was handed and has not initialised. -/
def Call.initialises : Call → Option Index
  | .send _ (.start _ i) => some i
  | .send .. | .rx _ | .move .. => none

/-- What a call relies on at its control point: from the search on it has an acknowledgement,
once it has found an entry this is one of its flow, and the entry it was handed is free. -/
def Call.Asserts (s : Filter) : Call → Prop
  | .send m (.search c _) | .send m (.alloc c) => ackOf m.frame = some c.msg
  | .send m (.scale c i) | .send m (.setScale c i) | .send m (.weigh c i)
  | .send m (.handle c i _) =>
    ackOf m.frame = some c.msg ∧ (s.ackInfo i).matched c.msg = true
  | .send m (.start c i) =>
    ackOf m.frame = some c.msg ∧ s.freeIndex = none ∧ (s.ackInfo i).busy = false
  | .send _ .enter | .send _ .lockUpdate | .send _ (.age _) | .send _ .check => True
  | .rx _ | .move .. => True

/-- What other calls see of an action that initialises at most its own entry. -/
structure Follows (own : Option Index) (s s' : Filter) : Prop where
  matched : ∀ i a, (s.ackInfo i).matched a = true → (s'.ackInfo i).matched a = true
  free : ∀ i, own ≠ some i → (s.ackInfo i).busy = false → (s'.ackInfo i).busy = false
  freeIndex : s.freeIndex = none → s'.freeIndex = none

theorem Follows.stable {own : Option Index} {d : Call} (h : Follows own s s')
    (hown : ∀ i, own = some i → d.initialises ≠ some i) (hd : d.Asserts s) :
    d.Asserts s' := by
  cases d with
  | rx | move => exact True.intro
  | send m pc =>
    cases pc with
    | enter | lockUpdate | age | check => exact True.intro
    | search | alloc => exact hd
    | scale | setScale | weigh | handle => exact ⟨hd.1, h.matched _ _ hd.2⟩
    | start c' i =>
      refine ⟨hd.1, h.freeIndex hd.2.1, h.free i ?_ hd.2.2⟩
      intro hi
      exact hown i hi rfl

theorem SameCore.matched {e' : AckInfo} (h : SameCore e e') (a : AckMsg) :
    e'.matched a = e.matched a := by
  rw [AckInfo.matched, AckInfo.matched, h.busy, h.ackMsg]

theorem Quiet.follows (h : Quiet s s') (own : Option Index) : Follows own s s' where
  matched i a := by
    rw [(h.core i).matched]
    exact id
  free i _ := by
    rw [(h.core i).busy]
    exact id
  freeIndex hnone := by
    rcases h.freeIndex with hf | hf
    · rw [hf, hnone]
    · exact hf

theorem Quiet.flowInv (h : Quiet s s') (hs : FlowInv s) : FlowInv s' where
  entry i := (h.core i).entryInv (hs.entry i) h.sent
  free i hi := by
    rw [(h.core i).busy]
    rcases h.freeIndex with hf | hf
    · exact hs.free i (hf.symm.trans hi)
    · rw [hf] at hi
      cases hi

/-! ## One action -/

/-- The action recycles an entry. -/
def Call.ages (s : Filter) : Call → Bool
  | .send _ (.age i) => (s.ackInfo i).aged s.jiffies
  | .send .. | .rx _ | .move .. => false

/-- The entry the action hands out. -/
def Call.allocates (s : Filter) : Call → Option Index
  | .send _ (.alloc _) => if s.lockHeld then none else (sprdwlTcpAckAllocIndex s).1
  | .send .. | .rx _ | .move .. => none

/-- What an action of a call does. -/
structure Advances (s : Filter) (c : Call) (s' : Filter) (r : Option Call) : Prop where
  inv : FlowInv s'
  follows : Follows c.initialises s s'
  next : ∀ d, r = some d → d.Asserts s' ∧ ∀ i, d.initialises = some i → c.allocates s = some i
  superseded : ∀ m, s.freed.count m < s'.freed.count m → Superseded m s'

theorem Quiet.advances {c : Call} {r : Option Call} (h : Quiet s s') (hs : FlowInv s)
    (hnext : ∀ d, r = some d → d.Asserts s' ∧
      ∀ i, d.initialises = some i → c.allocates s = some i) : Advances s c s' r where
  inv := h.flowInv hs
  follows := h.follows _
  next := hnext
  superseded m hm := by
    rw [h.freed] at hm
    exact absurd hm (Nat.lt_irrefl _)

/-- A call that returns relies on nothing. -/
theorem Quiet.returns {c : Call} (h : Quiet s s') (hs : FlowInv s) : Advances s c s' none :=
  h.advances hs fun d hd => by cases hd

/-- A call that goes on without an allocation. -/
theorem Quiet.goesOn {c d : Call} (h : Quiet s s') (hs : FlowInv s) (hd : d.Asserts s')
    (hinit : d.initialises = none) : Advances s c s' (some d) :=
  h.advances hs fun d' hd' => by
    cases hd'
    exact ⟨hd, fun i hi => by rw [hinit] at hi; cases hi⟩

/-- The entry section of a call that owns the entry, or leaves it with its flow. -/
theorem flowInv_section (hs : FlowInv s) {f : AckInfo → AckInfo} {new : List MsgBuf}
    (hentry : EntryInv (s.sent ++ new) (f (s.ackInfo i)))
    (hfree : s.freeIndex = none ∨ (f (s.ackInfo i)).busy = (s.ackInfo i).busy) :
    FlowInv ((s.onEntry i f).intfTx new) where
  entry j := by
    by_cases hji : j = i
    · subst hji
      simpa using hentry
    · rw [intfTx_ackInfo, onEntry_ne _ _ hji]
      exact (SameCore.refl _).entryInv (hs.entry j) (List.subset_append_left _ _)
  free j hj := by
    rw [intfTx_freeIndex, onEntry_freeIndex] at hj
    rw [intfTx_ackInfo]
    by_cases hji : j = i
    · subst hji
      rw [onEntry_self]
      rcases hfree with hnone | hbusy
      · rw [hnone] at hj
        cases hj
      · rw [hbusy]
        exact hs.free j hj
    · rw [onEntry_ne _ _ hji]
      exact hs.free j hj

theorem follows_section {f : AckInfo → AckInfo} {own : Option Index} {new : List MsgBuf}
    (hmatched : ∀ a, (s.ackInfo i).matched a = true → (f (s.ackInfo i)).matched a = true)
    (hfree : own ≠ some i → (f (s.ackInfo i)).busy = (s.ackInfo i).busy) :
    Follows own s ((s.onEntry i f).intfTx new) where
  matched j a hj := by
    rw [intfTx_ackInfo]
    by_cases hji : j = i
    · subst hji
      rw [onEntry_self]
      exact hmatched a hj
    · rw [onEntry_ne _ _ hji]
      exact hj
  free j hown hj := by
    rw [intfTx_ackInfo]
    by_cases hji : j = i
    · subst hji
      rw [onEntry_self, hfree hown]
      exact hj
    · rw [onEntry_ne _ _ hji]
      exact hj
  freeIndex := id

theorem Handles.busy {new : MsgBuf} {r : Handled} (h : Handles e new a.seq r) :
    r.entry.busy = e.busy := by
  cases h <;> assumption

theorem Handles.matched {new : MsgBuf} {r : Handled} (h : Handles e new a.seq r) (a' : AckMsg) :
    r.entry.matched a' = e.matched a' := by
  have hflow : r.entry.ackMsg.sameFlow a' = e.ackMsg.sameFlow a' := by
    cases h with
    | refused _ _ hmsg => rw [hmsg]
    | passed _ _ hmsg | held _ _ hmsg =>
      rw [hmsg]
      rfl
  rw [AckInfo.matched, AckInfo.matched, h.busy, hflow]

theorem matched_iff : e.matched a = true ↔ e.busy = true ∧ e.ackMsg.sameFlow a = true := by
  rw [AckInfo.matched, Bool.and_eq_true]

/-- `sprdwl_tcp_ack_handle` in a call. -/
theorem handle_advances {new : MsgBuf} {c : CheckedAck} {type : ℕ} {o : Option SendPc}
    (hs : FlowInv s) (hA : (Call.send new (.handle c i type)).Asserts s)
    (h : sprdwlFilterSendTcpAck s new (.handle c i type) = .ok (s', o)) :
    Advances s (.send new (.handle c i type)) s' (o.map (.send new)) := by
  rcases hA with ⟨hack, hmatched⟩
  obtain ⟨hbusy, hflow⟩ := matched_iff.mp hmatched
  have hr := tcpAckHandle_handles (s.ackInfo i) s.maxDropCnt s.jiffies new c.msg type
  generalize hR : tcpAckHandle (s.ackInfo i) s.maxDropCnt s.jiffies new c.msg type = r at hr
  simp only [sprdwlFilterSendTcpAck, hR, Except.ok.injEq, Prod.mk.injEq] at h
  rcases h with ⟨hs', rfl⟩
  -- the message is transmitted or not, and what is dropped is beside the point
  have hshape : s' = ((s.onEntry i fun _ => r.entry).intfTx
      (if r.ret then [] else [new])).dropMsg r.dropMsg.toList := by
    rw [← hs']
    cases r.ret with
    | false => rfl
    | true => simp [Filter.intfTx, Filter.dropMsg]
  have hinv : FlowInv ((s.onEntry i fun _ => r.entry).intfTx (if r.ret then [] else [new])) :=
    flowInv_section hs (hr.entryInv (hs.entry i) hbusy hflow hack) (Or.inr hr.busy)
  have hfollows : Follows (Call.send new (.handle c i type)).initialises s
      ((s.onEntry i fun _ => r.entry).intfTx (if r.ret then [] else [new])) :=
    follows_section (fun a' ha' => (hr.matched a').trans ha') fun _ => hr.busy
  rw [hshape]
  refine ⟨⟨hinv.entry, hinv.free⟩, ⟨hfollows.matched, hfollows.free, hfollows.freeIndex⟩, ?_,
    fun m hm => ?_⟩
  · intro d hd
    cases hd
  have hdrop : r.dropMsg = some m := by
    simp only [dropMsg_freed, intfTx_freed, onEntry_freed, List.count_append] at hm
    have hpos : 0 < r.dropMsg.toList.count m := by omega
    exact Option.mem_toList.mp (List.count_pos_iff.mp hpos)
  obtain ⟨a₁, ha₁, b, a₂, ha₂, hsame, hbefore, hwhere⟩ :=
    hr.superseded (hs.entry i) hbusy hflow hack hdrop
  refine ⟨a₁, ha₁, b, a₂, ha₂, hsame, hbefore, ?_⟩
  rcases hwhere with hsent | hheld
  · exact Or.inl hsent
  · refine Or.inr ⟨i, ?_⟩
    rw [dropMsg_ackInfo, intfTx_ackInfo, onEntry_self]
    exact hheld

/-- The initialisation of an entry in a call. -/
theorem start_advances {new : MsgBuf} {c : CheckedAck} (hs : FlowInv s)
    (hA : (Call.send new (.start c i)).Asserts s) :
    Advances s (.send new (.start c i))
      ((s.onEntry i fun e => e.start s.maxDropCnt s.jiffies c.winScale c.msg).intfTx [new])
      none where
  inv := flowInv_section hs (start_entryInv (hs.entry i) hA.2.2 hA.1 _ _ _) (Or.inl hA.2.1)
  follows := by
    refine follows_section (fun a' ha' => ?_) fun hown => absurd rfl hown
    rw [AckInfo.matched, hA.2.2] at ha'
    cases ha'
  next d hd := by cases hd
  superseded m hm := absurd hm (Nat.lt_irrefl _)

end Uwe5631.TcpAck
