import Uwe5631.ReorderReleaseRelations
import Uwe5631.ReorderOrderedDelivery

/-!
# Frames older than the window

`win_start_init` is zeroed by the first frame at or after `win_start`, to end the mode in
which frames before the initial window are passed on. Zero is a sequence number as well:
afterwards an old frame is dropped when it is at or after sequence number zero in the
circular order, and passed on otherwise.
-/
namespace Uwe5631.Reorder
open FallibleRuns OrderedDelivery

variable {m : RxMsduDesc} {s s' t : Session}

/-! ## The end of the initial mode -/

theorem keepsInit : ReleaseRelation (fun a b => b.desc.winStartInit = a.desc.winStartInit) where
  refl _ := rfl
  trans _ _ _ h h' := h'.trans h
  release _ b s s' _ h := by
    obtain ⟨t, ht, hsame, _⟩ := sendReorderSkb_spec _ b s
    rw [h] at ht
    cases ht
    exact hsame.winStartInit
  move _ _ _ _ := rfl

theorem insertFrame_winStartInit {skb : Option Skb} {r r' : RxState} {ret : ℤ}
    (h : insertFrame m skb r = .ok (ret, r')) : r'.desc.winStartInit = r.desc.winStartInit := by
  obtain ⟨⟨ret', d⟩, hins, heq⟩ := map_eq_ok.mp h
  obtain ⟨b, hb, hd⟩ := map_eq_ok.mp hins
  cases heq
  rw [dropIfFailed_desc, noteTail_winStartInit]
  split at hd
  · split at hd <;> cases hd <;> rfl
  · cases hd
    rfl

theorem reorderMsdu_winStartInit {skb : Option Skb} {r r' : RxState} {ret : ℤ}
    (h : reorderMsdu m skb r = .ok (ret, r')) :
    r'.desc.winStartInit =
      if seqnoGeq m.seqNum r.desc.winStart then 0 else r.desc.winStartInit := by
  rw [reorderMsdu] at h
  split at h
  · rename_i hge
    rw [if_pos hge]
    obtain ⟨a, ha, hins⟩ := bind_eq_ok.mp h
    rw [insertFrame_winStartInit hins]
    split at ha
    · cases ha
      rfl
    · exact moveWindow_related keepsInit ha
  · rename_i hge
    rw [if_neg hge]
    split at h
    · obtain ⟨l, _, heq⟩ := map_eq_ok.mp h
      cases heq
      rfl
    · cases h
      simp

theorem sendOrderMsdu_winStartInit {skb : Option Skb} {r r' : RxState}
    (h : sendOrderMsdu m skb r = .ok r') : r'.desc.winStartInit = r.desc.winStartInit := by
  unfold sendOrderMsdu at h
  cases skb with
  | none =>
    cases h
    rfl
  | some x =>
    dsimp only at h
    generalize hd : ({ r.desc with
      winStart := seqnoAdd r.desc.winStart 1
      winLimit := seqnoAdd r.desc.winLimit 1
      winTail := seqnoSub (seqnoAdd r.desc.winStart 1 : ℕ) 1 } : RxBaNodeDesc) = d at h
    obtain ⟨_, _, _, hframe⟩ := replayDetection_frame (setBaPktDesc RxBaPkt.zero.desc m) d
    cases hr : replayDetection (setBaPktDesc RxBaPkt.zero.desc m) d with
    | mk pass d' =>
      rw [hr] at h hframe
      subst hd hframe
      cases pass with
      | true =>
        obtain ⟨l, _, rfl⟩ := map_eq_ok.mp h
        rfl
      | false =>
        cases h
        rfl

theorem seqnoGeq_self (seq : ℕ) : seqnoGeq seq seq = true := by simp [seqnoGeq, seqnoLeq]

/-- A frame at or after `win_start` ends the initial mode, other frames leave it alone. -/
theorem reorderMsduProcess_winStartInit {skb : Option Skb}
    (h : reorderMsduProcess m skb s = .ok s') :
    s'.node.rxBa.winStartInit =
      if s.node.active && seqnoGeq m.seqNum s.node.rxBa.winStart then 0
      else s.node.rxBa.winStartInit := by
  rw [reorderMsduProcess] at h
  by_cases hact : s.node.active = true
  · rw [if_pos hact] at h
    rw [hact, Bool.true_and]
    by_cases hin : inSequence m s.node.rxBa = true
    · rw [if_pos hin] at h
      obtain ⟨r, hr, rfl⟩ := map_eq_ok.mp h
      simp only [inSequence, Bool.and_eq_true, decide_eq_true_eq] at hin
      rw [hin.1.1, seqnoGeq_self, if_pos rfl]
      exact sendOrderMsdu_winStartInit hr
    · rw [if_neg hin] at h
      obtain ⟨⟨ret, r⟩, hr, h⟩ := bind_eq_ok.mp h
      have hafter := afterReorderMsdu_related keepsInit h
      have hbefore := reorderMsdu_winStartInit hr
      exact hafter.trans hbefore
  · rw [if_neg hact] at h
    obtain ⟨l, _, rfl⟩ := map_eq_ok.mp h
    simp [hact]

theorem baReorderTimeout_winStartInit (h : baReorderTimeout s = .ok s') :
    s'.node.rxBa.winStartInit = 0 ∨ s' = s := by
  rw [baReorderTimeout] at h
  split at h
  · obtain ⟨v, _, h⟩ := bind_eq_ok.mp h
    obtain ⟨r, hr, rfl⟩ := map_eq_ok.mp h
    left
    have hinit : r.desc.winStartInit = 0 := moveWindow_related keepsInit hr
    simpa [Session.mapNode, Session.withRx] using hinit
  · cases h
    exact Or.inr rfl

/-- The initial mode does not come back. -/
theorem step_winStartInit {e : Event} (hs : s.node.rxBa.winStartInit = 0)
    (h : step s e = .ok s') : s'.node.rxBa.winStartInit = 0 := by
  cases e with
  | msdu m skb =>
    rw [reorderMsduProcess_winStartInit h, hs]
    split <;> rfl
  | filter seqNum =>
    rw [reorderMsduProcess_winStartInit h, hs]
    split <;> rfl
  | timeout =>
    rcases baReorderTimeout_winStartInit h with h0 | rfl
    · exact h0
    · exact hs
  | expire | resetPn | activate =>
    cases h
    exact hs

/-! ## Old frames -/

/-- The event is a frame at or after `win_start` for an active node. -/
def ReachesWindow (s : Session) (e : Event) : Prop :=
  ∃ m, e.frame = some m ∧ s.node.active = true ∧ seqnoGeq m.seqNum s.node.rxBa.winStart = true

theorem ReachesWindow.step {e : Event} (h : ReachesWindow s e) (hs : step s e = .ok s') :
    s'.node.rxBa.winStartInit = 0 := by
  rcases h with ⟨m, hm, hact, hge⟩
  have hframe : ∀ skb, reorderMsduProcess m skb s = .ok s' → s'.node.rxBa.winStartInit = 0 := by
    intro skb hp
    rw [reorderMsduProcess_winStartInit hp, hact, hge]
    rfl
  cases e with
  | msdu m' skb =>
    cases hm
    exact hframe _ hs
  | filter seqNum =>
    cases hm
    exact hframe _ hs
  | expire | timeout | resetPn | activate => cases hm

/-- The MSDU is freed, and nothing is put on the delivery list. -/
def FreesOnly (s : Session) (m : RxMsduDesc) (skb : Skb) : Prop :=
  ∃ s', step s (.msdu m skb) = .ok s' ∧ s'.lists.freed = s.lists.freed ++ [skb] ∧
    s'.lists.delivered = s.lists.delivered

theorem not_inSequence_of_old (hold : seqnoGeq m.seqNum s.node.rxBa.winStart = false) :
    ¬ inSequence m s.node.rxBa = true := by
  intro hin
  simp only [inSequence, Bool.and_eq_true, decide_eq_true_eq] at hin
  rw [hin.1.1, seqnoGeq_self] at hold
  cases hold

/-- Below 2048 an old MSDU is dropped. -/
theorem step_old_low {skb : Skb} (hact : s.node.active = true)
    (hinit : s.node.rxBa.winStartInit = 0)
    (hold : seqnoGeq m.seqNum s.node.rxBa.winStart = false) (hlow : (m.seqNum : ℕ) < 2048) :
    FreesOnly s m skb := by
  have hgeq : seqnoGeq m.seqNum s.node.rxBa.winStartInit = true := by
    rw [hinit]
    exact seqnoGeq_zero.mpr hlow
  have hmsdu : reorderMsdu m (some skb) s.rx =
      .ok (-EINVAL, ⟨s.lists.kfreeSkbList [skb], s.node.rxBa⟩) := by
    simp [reorderMsdu, Session.rx, hold, hgeq, dropIfFailed, EINVAL]
  rw [FreesOnly]
  rw [step, reorderMsduProcess, if_pos hact, if_neg (not_inSequence_of_old hold), hmsdu, ok_bind,
    afterReorderMsdu, if_neg (show ¬ (-EINVAL : ℤ) = 0 by decide)]
  split <;> exact ⟨_, rfl, rfl, rfl⟩

/-- From 2048 on it is passed on. -/
theorem step_old_high {skb : Skb} (hact : s.node.active = true)
    (hinit : s.node.rxBa.winStartInit = 0)
    (hold : seqnoGeq m.seqNum s.node.rxBa.winStart = false) (hhigh : ¬ (m.seqNum : ℕ) < 2048) :
    ∃ s', step s (.msdu m skb) = .ok s' ∧
      s'.lists.delivered = s.lists.delivered ++ [⟨.reorderMsdu, m.seqNum, [skb]⟩] := by
  have hgeq : seqnoGeq m.seqNum s.node.rxBa.winStartInit = false := by
    rw [hinit, Bool.eq_false_iff]
    exact fun h => hhigh (seqnoGeq_zero.mp h)
  have hmsdu : reorderMsdu m (some skb) s.rx = .ok (0, ⟨{ s.lists with
      delivered := s.lists.delivered ++ [⟨.reorderMsdu, m.seqNum, [skb]⟩] }, s.node.rxBa⟩) := by
    simp [reorderMsdu, Session.rx, hold, hgeq, reorderSetSkbList]
  have hne : ¬ (m.lastMsduOfMpdu && (m.seqNum : ℕ) = s.node.rxBa.winStart) = true := by
    intro h
    simp only [Bool.and_eq_true, decide_eq_true_eq] at h
    rw [h.2, seqnoGeq_self] at hold
    cases hold
  rw [step, reorderMsduProcess, if_pos hact, if_neg (not_inSequence_of_old hold), hmsdu, ok_bind,
    afterReorderMsdu, if_pos rfl, if_neg (by exact hne)]
  split <;> exact ⟨_, rfl, rfl⟩

/-- An inactive node passes everything on. -/
theorem step_inactive {skb : Skb} (hact : ¬ s.node.active = true) :
    ∃ s', step s (.msdu m skb) = .ok s' ∧
      s'.lists.delivered = s.lists.delivered ++ [⟨.reorderMsduProcess, m.seqNum, [skb]⟩] := by
  rw [step, reorderMsduProcess, if_neg hact]
  exact ⟨_, rfl, rfl⟩

theorem not_freesOnly_of_delivers {skb : Skb} {x : Delivery}
    (h : ∃ s', step s (.msdu m skb) = .ok s' ∧ s'.lists.delivered = s.lists.delivered ++ [x]) :
    ¬ FreesOnly s m skb := by
  intro ⟨s', hs, _, hdel⟩
  rcases h with ⟨s'', hs', hdel'⟩
  rw [hs] at hs'
  cases hs'
  rw [hdel] at hdel'
  simp at hdel'

/-- In every run, once a frame reached the window, an MSDU older than the window is freed
and not delivered exactly when the node is active and the MSDU lies in the lower half of
the sequence numbers. -/
theorem old_frame_freed_iff {fs : List Event} {e : Event} (he : ReachesWindow s e)
    (ht : run step s (e :: fs) = .ok t) {skb : Skb}
    (hold : seqnoGeq m.seqNum t.node.rxBa.winStart = false) :
    FreesOnly t m skb ↔ t.node.active = true ∧ (m.seqNum : ℕ) < 2048 := by
  obtain ⟨v, hv, hrest⟩ := bind_eq_ok.mp ht
  have hinit : t.node.rxBa.winStartInit = 0 :=
    run_preserves (fun _ _ _ h hs => step_winStartInit h hs) (he.step hv) hrest
  constructor
  · intro hfree
    by_contra hcond
    by_cases hact : t.node.active = true
    · have hhigh : ¬ (m.seqNum : ℕ) < 2048 := fun h => hcond ⟨hact, h⟩
      exact not_freesOnly_of_delivers (step_old_high hact hinit hold hhigh) hfree
    · exact not_freesOnly_of_delivers (step_inactive hact) hfree
  · intro ⟨hact, hlow⟩
    exact step_old_low hact hinit hold hlow

/-- A new session after its activation. -/
def activeSession (winStart winSize : ℕ) : Session :=
  (freshSession 0 0 winStart winSize (getIndexSize winSize)).mapNode
    fun n => { n with active := true }

set_option maxRecDepth 4000 in
theorem old_frame_freed_iff_duplicate_of_five : ∃ t,
    run step (activeSession 5 32) [.msdu (msduOf 5 true) 1] = .ok t ∧
      (FreesOnly t (msduOf 5 true) 2 ↔
        t.node.active = true ∧ ((msduOf 5 true).seqNum : ℕ) < 2048) :=
  ⟨_, rfl, old_frame_freed_iff (s := activeSession 5 32) (e := .msdu (msduOf 5 true) 1)
    ⟨_, rfl, rfl, rfl⟩
    (show run step (activeSession 5 32) [.msdu (msduOf 5 true) 1] = _ from rfl) rfl⟩

set_option maxRecDepth 4000 in
/-- With the window at 3000 a frame is delivered a second time. -/
theorem old_frame_delivered_twice : ∃ t t',
    run step (activeSession 3000 32) [.msdu (msduOf 3000 true) 1] = .ok t ∧
      ReachesWindow (activeSession 3000 32) (.msdu (msduOf 3000 true) 1) ∧
      seqnoGeq (msduOf 3000 true).seqNum t.node.rxBa.winStart = false ∧
      step t (.msdu (msduOf 3000 true) 2) = .ok t' ∧
      t'.lists.delivered = [⟨.sendOrderMsdu, 3000, [1]⟩, ⟨.reorderMsdu, 3000, [2]⟩] ∧
      ¬ FreesOnly t (msduOf 3000 true) 2 := by
  refine ⟨_, _, rfl, ⟨_, rfl, rfl, rfl⟩, rfl, rfl, rfl, ?_⟩
  exact not_freesOnly_of_delivers ⟨_, rfl, rfl⟩

/-- What went through the window less than half the circle ago is older than the window. -/
theorem delivered_is_old {k w : ℕ} {j : Ledger Skb} (h : Tracks k w s j) (hj : InOrder j)
    {g : ℕ × List Skb} (hg : g ∈ j.delivered) (hnear : j.base < g.1 + 2048) :
    seqnoGeq (g.1 % 4096) s.node.rxBa.winStart = false := by
  have hlt := (hj.ascending.bounds g.1 (List.mem_map_of_mem hg)).2
  rw [h.winStart]
  exact not_seqnoGeq_of_behind hlt hnear

end Uwe5631.Reorder
