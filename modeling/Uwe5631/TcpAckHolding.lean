import Uwe5631.TcpAckSupersession

/-!
# Held acknowledgements and their timer

A held acknowledgement leaves its entry through the hold timer or through a later
acknowledgement of its flow. It is stranded if the timer handler finds it and does nothing:
what completes a message in flight only clears a pointer.
-/
namespace Uwe5631.TcpAck
open FallibleRuns InterleavedCalls

variable {s s' : Filter} {e : AckInfo} {i : Index} {t t' : State}

/-- What an entry holds is under its timer, or under the completion of a message in flight
that releases it or arms the timer again. -/
def AckInfo.Attended (e : AckInfo) : Prop :=
  e.msgbuf ≠ none → e.timerPending = true ∨ e.timerRunning = true ∨
    ∃ msg, e.inSendMsg = some msg ∧
      ((e.moved msg).msgbuf = none ∨ (e.moved msg).timerPending = true)

def NoneStranded (s : Filter) : Prop := ∀ i, (s.ackInfo i).Attended

theorem moved_timerPending (e : AckInfo) (msg : MsgBuf) :
    (e.moved msg).timerPending = e.timerPending := by
  rw [AckInfo.moved]
  split <;> rfl

/-- No completion releases what is held or arms the timer. -/
theorem attended_iff : e.Attended ↔
    (e.msgbuf ≠ none → e.timerPending = true ∨ e.timerRunning = true) := by
  refine forall_congr' fun hheld => ?_
  constructor
  · rintro (hpending | hrunning | ⟨msg, _, hreleased | harmed⟩)
    · exact Or.inl hpending
    · exact Or.inr hrunning
    · rw [moved_msgbuf] at hreleased
      exact absurd hreleased hheld
    · rw [moved_timerPending] at harmed
      exact Or.inl harmed
  · rintro (hpending | hrunning)
    · exact Or.inl hpending
    · exact Or.inr (Or.inl hrunning)

/-! ## Sections of an entry -/

/-- The sections that leave the message held and the timer alone. -/
theorem Attended.same {e' : AckInfo} (h : e.Attended) (hmsg : e'.msgbuf = e.msgbuf)
    (hpending : e'.timerPending = e.timerPending) (hrunning : e'.timerRunning = e.timerRunning) :
    e'.Attended := by
  rw [attended_iff, hmsg, hpending, hrunning]
  exact attended_iff.mp h

theorem moved_attended (h : e.Attended) (msg : MsgBuf) : (e.moved msg).Attended := by
  apply Attended.same h (moved_msgbuf e msg) (moved_timerPending e msg)
  rw [AckInfo.moved]
  split <;> rfl

theorem expire_attended (h : e.Attended) : e.expire.Attended := by
  rw [AckInfo.expire]
  split
  · rw [attended_iff]
    intro _
    exact Or.inr rfl
  · exact h

theorem Handles.attended {new : MsgBuf} {seq : BitVec 32} {r : Handled}
    (h : Handles e new seq r) (he : e.Attended) : r.entry.Attended := by
  cases h with
  | refused _ _ _ hmsg hpending hrunning => exact Attended.same he hmsg hpending hrunning
  | passed _ _ _ hmsg => exact fun hheld => absurd hmsg hheld
  | held _ _ _ _ hpending => exact fun _ => Or.inl hpending

/-- The handler finds a message to which it does nothing, and no timer set again meanwhile. -/
def AckInfo.abandoned (e : AckInfo) : Bool :=
  e.timerRunning && e.msgbuf.isSome && !e.timerPending && (!e.busy || e.inSendMsg.isSome)

/-- The handler strands what is held exactly if it abandons it. -/
theorem TimesOut.attended_iff {r : AckInfo × Option MsgBuf} (h : TimesOut e r)
    (hrunning : e.timerRunning = true) : r.1.Attended ↔ e.abandoned = false := by
  cases h with
  | sent msg hbusy hsend hmsg hentry =>
    rw [hentry]
    apply iff_of_true (fun hheld => absurd rfl hheld)
    simp [AckInfo.abandoned, hbusy, hsend]
  | idle why hentry =>
    rw [hentry, TcpAck.attended_iff]
    have hsend : (!e.busy || e.inSendMsg.isSome) = true ∨ e.msgbuf = none := by
      rcases why with hnone | hbusy | hsend
      · exact Or.inr hnone
      · simp [hbusy]
      · simp [Option.isSome_iff_ne_none, hsend]
    cases hmsg : e.msgbuf with
    | none => simp [AckInfo.abandoned, hmsg]
    | some msg =>
      have hsend' := hsend.resolve_right (by simp [hmsg])
      simp [AckInfo.abandoned, hmsg, hrunning, hsend']

/-! ## Actions, steps and runs -/

theorem NoneStranded.onEntry (h : NoneStranded s) {f : AckInfo → AckInfo}
    (hf : (s.ackInfo i).Attended → (f (s.ackInfo i)).Attended) : NoneStranded (s.onEntry i f) := by
  intro j
  by_cases hji : j = i
  · subst hji
    rw [onEntry_self]
    exact hf (h j)
  · rw [onEntry_ne _ _ hji]
    exact h j

theorem sendAct_attended {b : MsgBuf} {pc : SendPc} {o : Option SendPc} (hs : NoneStranded s)
    (h : sprdwlFilterSendTcpAck s b pc = .ok (s', o)) : NoneStranded s' := by
  cases pc with
  | enter | lockUpdate | scale | weigh =>
    simp only [sprdwlFilterSendTcpAck] at h
    split_ifs at h <;> cases h <;> exact hs
  | age i =>
    have hage : NoneStranded (s.ageEntry i) := by
      rw [Filter.ageEntry]
      split
      · exact hs.onEntry fun he => Attended.same he rfl rfl rfl
      · exact hs
    simp only [sprdwlFilterSendTcpAck] at h
    split at h <;> cases h <;> exact hage
  | check =>
    obtain ⟨c, _, h⟩ := map_eq_ok.mp h
    split_ifs at h <;> cases h <;> exact hs
  | search c i =>
    simp only [sprdwlFilterSendTcpAck] at h
    split at h
    · cases h
      exact hs
    · split at h <;> cases h <;> exact hs
  | setScale c i =>
    cases h
    exact hs.onEntry fun he => Attended.same he rfl rfl rfl
  | handle c i type =>
    have hr := tcpAckHandle_handles (s.ackInfo i) s.maxDropCnt s.jiffies b c.msg type
    have hentry := hs.onEntry (i := i) (f := fun _ =>
      (tcpAckHandle (s.ackInfo i) s.maxDropCnt s.jiffies b c.msg type).entry) hr.attended
    simp only [sprdwlFilterSendTcpAck, Except.ok.injEq, Prod.mk.injEq] at h
    rcases h with ⟨rfl, _⟩
    split <;> exact hentry
  | alloc c =>
    simp only [sprdwlFilterSendTcpAck] at h
    split_ifs at h
    · cases h
      exact hs
    · split at h
      · rename_i j u halloc
        cases h
        rw [NoneStranded, (allocIndex_same halloc).2.1]
        exact hs
      · rename_i u halloc
        cases h
        rw [NoneStranded, intfTx_ackInfo, (allocIndex_same halloc).2.1]
        exact hs
  | start c i =>
    cases h
    exact hs.onEntry (f := fun e => e.start s.maxDropCnt s.jiffies c.winScale c.msg)
      fun he => Attended.same he rfl rfl rfl

theorem act_attended {c : Call} {r : Option Call} (hs : NoneStranded s)
    (h : act s c = .ok (s', r)) : NoneStranded s' := by
  cases c with
  | send b pc =>
    obtain ⟨⟨u, o⟩, hu, h⟩ := map_eq_ok.mp h
    cases h
    exact sendAct_attended hs hu
  | rx pc =>
    obtain ⟨⟨u, o⟩, hu, h⟩ := map_eq_ok.mp h
    cases h
    cases pc with
    | enter buf plen =>
      simp only [sprdwlFilterRxTcpAck] at hu
      split at hu
      · cases hu
        exact hs
      · obtain ⟨ackMsg, _, hu⟩ := map_eq_ok.mp hu
        cases hu
        exact hs
    | search ackMsg i =>
      simp only [sprdwlFilterRxTcpAck] at hu
      split at hu <;> cases hu <;> exact hs
    | push ackMsg i =>
      cases hu
      exact hs.onEntry fun he => Attended.same he rfl rfl rfl
  | move b pc =>
    cases h
    cases pc with
    | enter =>
      simp only [sprdwlMoveTcpackMsg]
      split <;> exact hs
    | sweep i => exact hs.onEntry (f := fun e => e.moved b) fun he => moved_attended he b

/-- The timer handler abandons what an entry holds. -/
def abandons (t : State) : Event → Bool
  | .timeout i => (t.shared.ackInfo i).abandoned
  | .send _ | .receive .. | .move _ | .advance _ | .tick _ | .expire _ => false

theorem runTimer_attended_iff (hs : NoneStranded s) :
    NoneStranded (s.runTimer i) ↔ (s.ackInfo i).abandoned = false := by
  rw [Filter.runTimer]
  split
  · rename_i hrunning
    have hout := (sprdwlTcpAckTimeout_timesOut (s.ackInfo i)).attended_iff hrunning
    rw [← hout]
    constructor
    · intro h
      have hi := h i
      rw [intfTx_ackInfo, onEntry_self] at hi
      exact hi
    · intro h
      exact hs.onEntry (f := fun e => (sprdwlTcpAckTimeout e).1) fun _ => h
  · rename_i hrunning
    apply iff_of_true hs
    simp [AckInfo.abandoned, hrunning]

/-- A step that abandons nothing strands nothing. -/
theorem step_attended {ev : Event} (hs : NoneStranded t.shared) (hev : abandons t ev = false)
    (h : step t ev = .ok t') : NoneStranded t'.shared := by
  cases ev with
  | send | receive | move | tick =>
    cases h
    exact hs
  | advance k =>
    rcases advance_cases h with ⟨rfl, _⟩ | ⟨c, r, _, hact, _⟩
    · exact hs
    · exact act_attended hs hact
  | expire i =>
    cases h
    exact hs.onEntry expire_attended
  | timeout i =>
    cases h
    exact (runTimer_attended_iff hs).mpr hev

/-- A step that abandons something strands it. -/
theorem step_strands {ev : Event} (hs : NoneStranded t.shared) (hev : ¬ abandons t ev = false) :
    ∃ t', step t ev = .ok t' ∧ ¬ NoneStranded t'.shared := by
  cases ev with
  | send | receive | move | advance | tick | expire => exact absurd rfl hev
  | timeout i => exact ⟨_, rfl, fun h => hev ((runTimer_attended_iff hs).mp h)⟩

/-- In every run, no state strands an acknowledgement exactly if no step of the run abandons
one. -/
theorem none_stranded_iff (now oldTime : Jiffies) (es : List Event) :
    (∀ es₁ es₂ t, es = es₁ ++ es₂ → run step (State.init now oldTime) es₁ = .ok t →
      NoneStranded t.shared) ↔
      Along step (fun t ev => abandons t ev = false) (State.init now oldTime) es := by
  apply along_iff_prefixes
  · intro i hheld
    exact absurd rfl hheld
  · exact fun t ev t' => step_attended
  · exact fun t ev => step_strands

/-- While one acknowledgement is in flight the next one is held and its timer expires; then
the first one is moved to the transmit queue. -/
def strandingRun : List Event :=
  [Event.send (ackMsgBuf 7 10 [3, 3, 7, 1])] ++ searchAll 0 ++
    [Event.advance 0, Event.send (ackMsgBuf 7 20 [])] ++ List.replicate 6 (Event.advance 0) ++
    [Event.send (ackMsgBuf 7 30 [])] ++ List.replicate 6 (Event.advance 0) ++
    [Event.tick 5, Event.expire 0, Event.timeout 0, Event.move (ackMsgBuf 7 20 [])] ++
    List.replicate 33 (Event.advance 0)

theorem strandingRun_entry :
    (run step (State.init 0 4000) strandingRun).map (fun t =>
      (t.calls, (t.shared.ackInfo 0).msgbuf, (t.shared.ackInfo 0).inSendMsg,
        (t.shared.ackInfo 0).timerPending, (t.shared.ackInfo 0).timerRunning)) =
      .ok ([], some (ackMsgBuf 7 30 []), none, false, false) := by
  decide +kernel

/-- The second acknowledgement stays, with no timer, nothing in flight and no call in
progress. -/
theorem acknowledgement_stranded : ∃ t, run step (State.init 0 4000) strandingRun = .ok t ∧
    t.calls = [] ∧ (t.shared.ackInfo 0).msgbuf = some (ackMsgBuf 7 30 []) ∧
    (t.shared.ackInfo 0).inSendMsg = none ∧ (t.shared.ackInfo 0).timerPending = false ∧
    (t.shared.ackInfo 0).timerRunning = false ∧ ¬ NoneStranded t.shared := by
  obtain ⟨t, ht, hentry⟩ := map_eq_ok.mp strandingRun_entry
  simp only [Prod.mk.injEq] at hentry
  rcases hentry with ⟨hcalls, hmsg, hsend, hpending, hrunning⟩
  refine ⟨t, ht, hcalls, hmsg, hsend, hpending, hrunning, fun h => ?_⟩
  rcases attended_iff.mp (h 0) (by simp [hmsg]) with hp | hr
  · rw [hpending] at hp
    cases hp
  · rw [hrunning] at hr
    cases hr

end Uwe5631.TcpAck
