import Uwe5631.TcpAckFlows

/-!
# The filter conserves acknowledgements and drops superseded ones

In every interleaving each message given to the filter is in one state. What it drops is
superseded, unless two calls that overlap are handed one entry.
-/
namespace Uwe5631.TcpAck
open FallibleRuns InterleavedCalls

variable {s s' : Filter} {e : AckInfo} {i : Index} {m : MsgBuf} {a : AckMsg}

/-- An action of a sending call that recycles no entry. -/
theorem sendAct_advances {b : MsgBuf} {pc : SendPc} {o : Option SendPc} (hs : FlowInv s)
    (hA : (Call.send b pc).Asserts s) (hage : (Call.send b pc).ages s = false)
    (h : sprdwlFilterSendTcpAck s b pc = .ok (s', o)) :
    Advances s (.send b pc) s' (o.map (.send b)) := by
  cases pc with
  | enter =>
    simp only [sprdwlFilterSendTcpAck] at h
    split_ifs at h <;> cases h
    · exact (quiet_intfTx s [b]).returns hs
    · exact (Quiet.refl s).goesOn hs True.intro rfl
    · exact (Quiet.refl s).goesOn hs True.intro rfl
  | lockUpdate =>
    simp only [sprdwlFilterSendTcpAck] at h
    split_ifs at h <;> cases h
    · exact (Quiet.refl s).goesOn hs True.intro rfl
    · exact Quiet.goesOn ⟨fun _ h => h, rfl, Or.inl rfl, fun _ => .refl _⟩ hs True.intro rfl
  | age i =>
    simp only [sprdwlFilterSendTcpAck, quiet_ageEntry hage] at h
    split at h <;> cases h
    · exact (Quiet.refl s).goesOn hs True.intro rfl
    · exact Quiet.goesOn ⟨fun _ h => h, rfl, Or.inl rfl, fun _ => .refl _⟩ hs True.intro rfl
  | check =>
    obtain ⟨c, hc, h⟩ := map_eq_ok.mp h
    split_ifs at h with hdrop
    · cases h
      exact (quiet_intfTx s [b]).returns hs
    · cases h
      refine (Quiet.refl s).goesOn hs (ackOf_eq hc fun hzero => ?_) rfl
      exact hdrop ⟨hzero, sprdwlTcpCheckAck_unset hc hzero⟩
  | search c i =>
    simp only [sprdwlFilterSendTcpAck] at h
    split at h
    · rename_i hmatched
      cases h
      exact (Quiet.refl s).goesOn hs ⟨hA, hmatched⟩ rfl
    · split at h <;> cases h
      · exact (Quiet.refl s).goesOn hs hA rfl
      · exact (Quiet.refl s).goesOn hs hA rfl
  | scale c i =>
    simp only [sprdwlFilterSendTcpAck] at h
    split_ifs at h <;> cases h
    · exact (Quiet.refl s).goesOn hs hA rfl
    · exact (Quiet.refl s).goesOn hs hA rfl
  | setScale c i =>
    cases h
    have hquiet := quiet_onEntry s i (f := fun e => e.rescale c.winScale) fun e => ⟨rfl, rfl, rfl⟩
    exact hquiet.goesOn hs ⟨hA.1, ((hquiet.core i).matched _).trans hA.2⟩ rfl
  | weigh c i =>
    simp only [sprdwlFilterSendTcpAck] at h
    split_ifs at h <;> cases h
    · exact (Quiet.refl s).goesOn hs hA rfl
    · exact (quiet_intfTx s [b]).returns hs
  | handle c i type => exact handle_advances hs hA h
  | alloc c =>
    simp only [sprdwlFilterSendTcpAck] at h
    split_ifs at h with hlock
    · cases h
      exact (Quiet.refl s).goesOn hs hA rfl
    · split at h
      · rename_i j t halloc
        cases h
        obtain ⟨hquiet, hfree⟩ := allocIndex_spec halloc hs.free
        refine hquiet.advances hs fun d hd => ?_
        cases hd
        refine ⟨⟨hA, hfree j rfl⟩, fun i hi => ?_⟩
        rw [Call.allocates, if_neg hlock, halloc]
        exact hi
      · rename_i t halloc
        cases h
        obtain ⟨hquiet, _⟩ := allocIndex_spec halloc hs.free
        have hsent := quiet_intfTx t [b]
        exact Quiet.returns ⟨fun _ hm => hsent.sent (hquiet.sent hm), hquiet.freed,
          hquiet.freeIndex, hquiet.core⟩ hs
  | start c i =>
    cases h
    exact start_advances hs hA

/-- An action of any call that recycles no entry. -/
theorem act_advances {c : Call} {r : Option Call} (hs : FlowInv s) (hA : c.Asserts s)
    (hage : c.ages s = false) (h : act s c = .ok (s', r)) : Advances s c s' r := by
  cases c with
  | send b pc =>
    obtain ⟨⟨t, o⟩, ht, h⟩ := map_eq_ok.mp h
    cases h
    exact sendAct_advances hs hA hage ht
  | rx pc =>
    obtain ⟨⟨t, o⟩, ht, h⟩ := map_eq_ok.mp h
    cases h
    have hquiet : Quiet s t := by
      cases pc with
      | enter buf plen =>
        simp only [sprdwlFilterRxTcpAck] at ht
        split at ht
        · cases ht
          exact .refl s
        · obtain ⟨ackMsg, _, ht⟩ := map_eq_ok.mp ht
          cases ht
          exact .refl s
      | search ackMsg i =>
        simp only [sprdwlFilterRxTcpAck] at ht
        split at ht <;> cases ht <;> exact .refl s
      | push ackMsg i =>
        cases ht
        exact quiet_onEntry s i fun e => ⟨rfl, rfl, rfl⟩
    refine hquiet.advances hs fun d hd => ?_
    obtain ⟨pc', _, rfl⟩ := Option.map_eq_some_iff.mp hd
    exact ⟨True.intro, fun i hi => by cases hi⟩
  | move b pc =>
    cases h
    have hquiet : Quiet s (sprdwlMoveTcpackMsg s b pc).1 := by
      cases pc with
      | enter =>
        simp only [sprdwlMoveTcpackMsg]
        split <;> exact .refl s
      | sweep i => exact quiet_onEntry s i (f := fun e => e.moved b) fun e => moved_core e b
    refine hquiet.advances hs fun d hd => ?_
    obtain ⟨pc', _, rfl⟩ := Option.map_eq_some_iff.mp hd
    exact ⟨True.intro, fun i hi => by cases hi⟩

/-! ## Steps and runs -/

/-- The call that takes its next action. -/
def actor (t : State) : Event → Option Call
  | .advance k => t.calls[k]?
  | .send _ | .receive .. | .move _ | .tick _ | .expire _ | .timeout _ => none

/-- A flow ages out of its entry. -/
def ages (t : State) (ev : Event) : Bool := (actor t ev).any (Call.ages t.shared)

/-- An allocation hands out an entry that another call was handed and has not initialised. -/
def reallocates (t : State) (ev : Event) : Bool :=
  (actor t ev).any fun c =>
    (c.allocates t.shared).any fun i => decide (i ∈ owned Call.initialises t.calls)

/-- The invariant of the shared state, and of each call that of its control point. -/
abbrev Consistent : State → Prop :=
  Asserted FlowInv (fun s c => c.Asserts s) Call.initialises

theorem consistent_init (now oldTime : Jiffies) : Consistent (State.init now oldTime) where
  shared := by
    refine ⟨fun i => ⟨?_, ?_⟩, fun _ _ => rfl⟩
    · intro m hm
      cases hm
    · intro hbusy
      cases hbusy
  each c hc := by cases hc
  exclusive := List.nodup_nil

theorem quiet_superseded (h : Quiet s s') (hm : s.freed.count m < s'.freed.count m) :
    Superseded m s' := by
  rw [h.freed] at hm
  exact absurd hm (Nat.lt_irrefl _)

theorem Quiet.consistent {t : State} (h : Quiet t.shared s') (ht : Consistent t) :
    Consistent ⟨s', t.calls⟩ :=
  ht.outside (h.flowInv ht.shared) fun _ hd =>
    (h.follows none).stable (fun _ hi => by cases hi) hd

theorem runTimer_flowInv (hs : FlowInv s) (i : Index) : FlowInv (s.runTimer i) := by
  rw [Filter.runTimer]
  split
  · have hout := sprdwlTcpAckTimeout_timesOut (s.ackInfo i)
    exact flowInv_section hs (hout.entryInv (hs.entry i)) (Or.inr hout.core.1)
  · exact hs

/-- The timer handler leaves every entry its flow. -/
theorem runTimer_follows (s : Filter) (i : Index) : Follows none s (s.runTimer i) := by
  rw [Filter.runTimer]
  split
  · obtain ⟨hbusy, hmsg⟩ := (sprdwlTcpAckTimeout_timesOut (s.ackInfo i)).core
    refine follows_section (fun a ha => ?_) fun _ => hbusy
    rw [AckInfo.matched, hbusy, hmsg]
    exact ha
  · exact (Quiet.refl s).follows none

theorem runTimer_consistent {t : State} (ht : Consistent t) (i : Index) :
    Consistent ⟨t.shared.runTimer i, t.calls⟩ :=
  ht.outside (runTimer_flowInv ht.shared i) fun _ hd =>
    (runTimer_follows t.shared i).stable (fun _ hi => by cases hi) hd

/-- One step of a run without ageing and without double allocation. -/
theorem step_consistent {t t' : State} {ev : Event} (ht : Consistent t)
    (hage : ages t ev = false) (halloc : reallocates t ev = false) (h : step t ev = .ok t') :
    Consistent t' ∧
      ∀ m, t.shared.freed.count m < t'.shared.freed.count m → Superseded m t'.shared := by
  cases ev with
  | send b =>
    cases h
    exact ⟨ht.begin True.intro rfl, fun m hm => absurd hm (Nat.lt_irrefl _)⟩
  | receive buf plen =>
    cases h
    exact ⟨ht.begin True.intro rfl, fun m hm => absurd hm (Nat.lt_irrefl _)⟩
  | move b =>
    cases h
    exact ⟨ht.begin True.intro rfl, fun m hm => absurd hm (Nat.lt_irrefl _)⟩
  | advance k =>
    have hadv : ∀ c r, t.calls[k]? = some c → act t.shared c = .ok (t'.shared, r) →
        Advances t.shared c t'.shared r := by
      intro c r hk hact
      refine act_advances ht.shared (ht.each c (List.mem_of_getElem? hk)) ?_ hact
      simpa [ages, actor, hk] using hage
    refine ⟨ht.advance h (fun c r hk _ hact => ⟨(hadv c r hk hact).inv, fun d hd => ?_⟩)
      (fun c d r hk _ _ hd hown hact => (hadv c r hk hact).follows.stable hown hd), fun m hm => ?_⟩
    · obtain ⟨hasserts, hinit⟩ := (hadv c r hk hact).next d hd
      refine ⟨hasserts, fun i hi => Or.inr ?_⟩
      simpa [reallocates, actor, hk, hinit i hi] using halloc
    · rcases advance_cases h with ⟨rfl, _⟩ | ⟨c, r, hk, hact, _⟩
      · exact absurd hm (Nat.lt_irrefl _)
      · exact (hadv c r hk hact).superseded m hm
  | tick n =>
    cases h
    have hquiet : Quiet t.shared { t.shared with jiffies := t.shared.jiffies + n } :=
      ⟨fun _ h => h, rfl, Or.inl rfl, fun _ => .refl _⟩
    exact ⟨hquiet.consistent ht, fun m => quiet_superseded hquiet⟩
  | expire i =>
    cases h
    have hquiet := quiet_onEntry t.shared i expire_core
    exact ⟨hquiet.consistent ht, fun m => quiet_superseded hquiet⟩
  | timeout i =>
    cases h
    refine ⟨runTimer_consistent ht i, fun m hm => ?_⟩
    simp only [Filter.runTimer] at hm
    split at hm <;> exact absurd hm (Nat.lt_irrefl _)

theorem run_consistent {now oldTime : Jiffies} {es : List Event} {t : State}
    (hage : Along step (fun t ev => ages t ev = false) (State.init now oldTime) es)
    (halloc : Along step (fun t ev => reallocates t ev = false) (State.init now oldTime) es)
    (hr : run step (State.init now oldTime) es = .ok t) : Consistent t := by
  have hboth := hage.and halloc
  refine run_invariant (fun t ev t' ht hc hs => ?_) (consistent_init now oldTime) hboth hr
  exact (step_consistent ht hc.1 hc.2 hs).1

/-- In every interleaving each message given to the filter is counted once, and one that was
given once is in one state. If no flow ages out and no entry is handed out twice, what a step
drops is superseded. -/
theorem acks_conserved_and_superseded {now oldTime : Jiffies} {es : List Event} {t : State}
    (hr : run step (State.init now oldTime) es = .ok t)
    (hage : Along step (fun t ev => ages t ev = false) (State.init now oldTime) es)
    (halloc : Along step (fun t ev => reallocates t ev = false) (State.init now oldTime) es) :
    (∀ m, t.load m = (given es).count m ∧ ((given es).count m = 1 → InOneState m t)) ∧
      ∀ es₁ ev es₂ u u', es = es₁ ++ ev :: es₂ →
        run step (State.init now oldTime) es₁ = .ok u → step u ev = .ok u' →
        ∀ m, u.shared.freed.count m < u'.shared.freed.count m → Superseded m u'.shared := by
  constructor
  · intro m
    have hload : t.load m = (given es).count m := by
      rw [run_load hr, init_load, Nat.zero_add]
    exact ⟨hload, fun hone => inOneState_of_load (hload.trans hone)⟩
  · intro es₁ ev es₂ u u' hes hu hstep
    rw [hes, along_append] at hage halloc
    have hu' := run_consistent hage.1 halloc.1 hu
    exact (step_consistent hu' (hage.2 u hu).1 (halloc.2 u hu).1 hstep).2

/-! ## Two runs -/

/-- An acknowledgement from the port `source` with the number `seq` and the given options. -/
def ackFrame (source seq : Byte) (options : List Byte) : List Byte :=
  List.replicate 12 0 ++ [0x08, 0x00] ++
    [0x45, 0, 0, BitVec.ofNat 8 (40 + options.length), 0, 0, 0, 0, 64, 6, 0, 0] ++
    [10, 0, 0, 1, 10, 0, 0, 2] ++
    [0, source, 0, 80, 0, 0, 0, 0, 0, 0, 0, seq,
      BitVec.ofNat 8 ((20 + options.length) * 4), 0x10, 0xff, 0xff, 0, 0, 0, 0] ++ options

/-- A message with such a frame, behind eleven bytes of a descriptor. -/
def ackMsgBuf (source seq : Byte) (options : List Byte) : MsgBuf :=
  ⟨source.toNat * 256 + seq.toNat, 65 + options.length, ackFrame source seq options,
    54 + options.length⟩

/-- A call that finds no entry, up to its last action. -/
def searchAll (k : ℕ) : List Event := List.replicate 35 (.advance k)

/-- An acknowledgement starts an entry, and an older one of its flow arrives. -/
def olderAck : List Event :=
  [Event.send (ackMsgBuf 7 50 [])] ++ searchAll 0 ++
    [Event.advance 0, Event.send (ackMsgBuf 7 20 [])] ++ List.replicate 5 (Event.advance 0)

theorem olderAck_dropped :
    ((run step (State.init 0 4000) olderAck).bind fun u => (step u (.advance 0)).map fun u' =>
      (u.shared.freed.count (ackMsgBuf 7 20 []), u'.shared.freed.count (ackMsgBuf 7 20 []))) =
      .ok (0, 1) := by
  decide +kernel

theorem acks_conserved_and_superseded_older_ack : ∃ u u',
    run step (State.init 0 4000) olderAck = .ok u ∧ step u (.advance 0) = .ok u' ∧
      Superseded (ackMsgBuf 7 20 []) u'.shared := by
  obtain ⟨u, hu, h⟩ := bind_eq_ok.mp olderAck_dropped
  obtain ⟨u', hu', hcount⟩ := map_eq_ok.mp h
  obtain ⟨hbefore, hafter⟩ := Prod.mk.inj hcount
  have hr : run step (State.init 0 4000) (olderAck ++ [.advance 0]) = .ok u' :=
    run_append_ok hu (run_cons_ok hu' [])
  refine ⟨u, u', hu, hu', ?_⟩
  exact (acks_conserved_and_superseded hr (by decide +kernel) (by decide +kernel)).2 olderAck
    (.advance 0) [] u u' rfl hu hu' _ (by omega)

/-- Acknowledgements of two flows are handed the first entry; a later acknowledgement of the
first flow finds it before the second flow initialises it. -/
def overlappingStarts : List Event :=
  [Event.send (ackMsgBuf 7 10 []), Event.send (ackMsgBuf 8 50 [])] ++ searchAll 0 ++ searchAll 1 ++
    [Event.advance 0, Event.send (ackMsgBuf 7 20 [])] ++ List.replicate 5 (Event.advance 1) ++
    [Event.advance 0, Event.advance 0]

theorem overlappingStarts_lists :
    (run step (State.init 0 4000) overlappingStarts).map (fun t =>
      (t.shared.sent, t.shared.freed,
        (List.finRange SPRDWL_TCP_ACK_NUM).all fun i => (t.shared.ackInfo i).msgbuf.isNone)) =
      .ok ([ackMsgBuf 7 10 [], ackMsgBuf 8 50 []], [ackMsgBuf 7 20 []], true) := by
  decide +kernel

/-- The later acknowledgement is dropped though its flow has no other at or after it. -/
theorem acks_superseded_fails_on_double_allocation : ∃ t,
    run step (State.init 0 4000) overlappingStarts = .ok t ∧
      Along step (fun t ev => ages t ev = false) (State.init 0 4000) overlappingStarts ∧
      t.shared.freed = [ackMsgBuf 7 20 []] ∧ ¬ Superseded (ackMsgBuf 7 20 []) t.shared := by
  obtain ⟨t, ht, hlists⟩ := map_eq_ok.mp overlappingStarts_lists
  simp only [Prod.mk.injEq, List.all_eq_true, Option.isNone_iff_eq_none] at hlists
  rcases hlists with ⟨hsent, hfreed, hnone⟩
  refine ⟨t, ht, by decide +kernel, hfreed, ?_⟩
  intro ⟨a, ha, b, a', ha', hsame, hbefore, hwhere⟩
  have hown : ackOf (ackMsgBuf 7 20 []).frame = some ⟨7, 80, 0x0a000001, 0x0a000002, 20, 0xffff⟩ :=
    by decide
  rw [hown] at ha
  cases ha
  rcases hwhere with hb | ⟨i, hi⟩
  · rw [hsent] at hb
    have hother : ∀ m ∈ [ackMsgBuf 7 10 [], ackMsgBuf 8 50 []], ∀ c ∈ ackOf m.frame,
        ¬ (c.sameFlow ⟨7, 80, 0x0a000001, 0x0a000002, 20, 0xffff⟩ = true ∧
          u32Before 20 c.seq = true) := by
      decide
    exact hother b hb a' ha' ⟨hsame, hbefore⟩
  · rw [hnone i (List.mem_finRange i)] at hi
    cases hi

end Uwe5631.TcpAck
