import Uwe5631.ReorderWindow

/-!
# Runs of a reorder session

A journal is kept beside a run: the position of the window base, which MSDUs were
accepted for which position, and which groups went out through the window. It is read
off the states around each step. Every step of the driver is matched by steps of the
in-order delivery specification on the journal.
-/
namespace Uwe5631.Reorder
open FallibleRuns RingWindow OrderedDelivery

variable {k w lo hi p q : ℕ} {acc : List (ℕ × Skb)} {m : RxMsduDesc} {skb : Option Skb}

/-- The frame an event hands to `reorder_msdu_process`. -/
def Event.frame : Event → Option RxMsduDesc
  | .msdu m _ => some m
  | .filter seqNum => some (filterDesc seqNum)
  | .expire | .timeout | .resetPn | .activate => none

/-- No frame is joined to a slot whose MSDU counter would wrap. -/
def CountsFit (s : Session) (e : Event) : Prop :=
  ∀ m, e.frame = some m → s.node.active = true → ¬ JoinsFullSlot s.node.rxBa m

instance (s : Session) (e : Event) : Decidable (CountsFit s e) :=
  match h : e.frame with
  | some m => decidable_of_iff (s.node.active = true → ¬ JoinsFullSlot s.node.rxBa m)
      (by simp [CountsFit, h])
  | none => isTrue (by simp [CountsFit, h])

/-- The frame arrives at an active node at or after `win_start`, and `reorder_msdu` (or
the shortcut for frames in sequence) takes it. -/
def takes (s : Session) (m : RxMsduDesc) (skb : Option Skb) : Bool :=
  s.node.active && seqnoGeq m.seqNum s.node.rxBa.winStart &&
    (inSequence m s.node.rxBa ||
      match reorderMsdu m skb s.rx with
      | .ok (ret, _) => ret = 0
      | .error _ => false)

/-- The position a sequence number names at the present window. -/
def positionOf (j : Ledger Skb) (s : Session) (seq : ℕ) : ℕ :=
  j.base + seqnoSub seq s.node.rxBa.winStart

/-- What a step adds to the accepted MSDUs. -/
def acceptedIn (j : Ledger Skb) (s : Session) : Event → List (ℕ × Skb)
  | .msdu m skb => if takes s m (some skb) then [(positionOf j s m.seqNum, skb)] else []
  | .filter _ | .expire | .timeout | .resetPn | .activate => []

/-- The chains `send_order_msdu` and `send_reorder_skb` linked between two states. -/
def windowDeliveries (s s' : Session) : List Delivery :=
  (s'.lists.delivered.drop s.lists.delivered.length).filter (·.sender.inWindow)

def note (j : Ledger Skb) (s : Session) (e : Event) (s' : Session) : Ledger Skb where
  base := positionOf j s s'.node.rxBa.winStart
  accepted := j.accepted ++ acceptedIn j s e
  delivered := j.delivered ++
    (windowDeliveries s s').map (fun x => (positionOf j s x.seq, x.skbs))

/-- The journal of a session that has seen nothing. -/
def startJournal (winStart : ℕ) : Ledger Skb := ⟨winStart, [], []⟩

/-! ## One step -/

/-- Between two lists, groups of ascending positions in `[lo, hi)` went out through the
window, and possibly chains that bypass it. -/
def PassedOn (acc : List (ℕ × Skb)) (lo hi : ℕ) (l l' : RxLists) : Prop :=
  ∃ ds qs, l'.delivered = l.delivered ++ ds ∧ Ascending lo hi qs ∧
    (ds.filter (·.sender.inWindow)).map (fun x => (x.seq, x.skbs)) =
      qs.map (fun q => (q % 4096, chainAt acc q))

theorem PassedOn.nothing {l l' : RxLists} (h : l'.delivered = l.delivered) :
    PassedOn acc lo hi l l' :=
  ⟨[], [], by simpa using h, Ascending.nil _ _, rfl⟩

theorem PassedOn.bypass {l l' : RxLists} {x : Delivery} (hx : x.sender.inWindow = false)
    (h : l'.delivered = l.delivered ++ [x]) : PassedOn acc lo hi l l' :=
  ⟨[x], [], h, Ascending.nil _ _, by simp [hx]⟩

theorem Released.passedOn {sender : Sender} {l l' : RxLists} (hs : sender.inWindow = true)
    (h : Released sender acc lo hi l l') : PassedOn acc lo hi l l' := by
  rcases h with ⟨qs, hqs, hl⟩
  refine ⟨_, qs, hl, hqs, ?_⟩
  rw [List.filter_eq_self.mpr]
  · simp [deliveryOf, Function.comp_def]
  · intro x hx
    obtain ⟨q, _, rfl⟩ := List.mem_map.mp hx
    exact hs

theorem PassedOn.trans {mid : ℕ} {a b c : RxLists} (h : PassedOn acc lo mid a b)
    (h' : PassedOn acc mid hi b c) (hlo : lo ≤ mid) (hhi : mid ≤ hi) : PassedOn acc lo hi a c := by
  rcases h with ⟨ds, qs, hb, hqs, hds⟩
  rcases h' with ⟨es, rs, hc, hrs, hes⟩
  refine ⟨ds ++ es, qs ++ rs, ?_, hqs.append hrs hlo (Nat.le_refl _) hhi, ?_⟩
  · rw [hc, hb, List.append_assoc]
  · rw [List.filter_append, List.map_append, List.map_append, hds, hes]

/-- The state a step leads to, with the window at a position less than one round ahead. -/
def Outcome (k w : ℕ) (acc : List (ℕ × Skb)) (p : ℕ) (l : RxLists) (s' : Session) : Prop :=
  ∃ p', p ≤ p' ∧ p' < p + 4096 ∧ Settled k w acc p' (p' + w) s'.node.rxBa ∧
    PassedOn acc p p' l s'.lists

theorem Outcome.same {s s' : Session} (h : Settled k w acc p (p + w) s.node.rxBa)
    (hd : s'.node.rxBa = s.node.rxBa) (hl : PassedOn acc p p s.lists s'.lists) :
    Outcome k w acc p s.lists s' :=
  ⟨p, le_refl _, by omega, by rw [hd]; exact h, hl⟩

/-- The shortcut for a frame in sequence. -/
theorem sendOrderMsdu_spec {s : RxState} (skb : Option Skb)
    (h : Settled k w acc p (p + w) s.desc)
    (hseq : inSequence m s.desc = true) :
    ∃ s', sendOrderMsdu m skb s = .ok s' ∧
      Settled k w (acc ++ entered p skb) (p + 1) (p + 1 + w) s'.desc ∧
      PassedOn (acc ++ entered p skb) p (p + 1) s.lists s'.lists := by
  simp only [inSequence, Bool.and_eq_true, decide_eq_true_eq] at hseq
  obtain ⟨⟨hseq, hcnt⟩, _⟩ := hseq
  obtain ⟨b, hb⟩ := h.window.slot p
  have hz : b = RxBaPkt.zero :=
    occupied_eq_zero.mp (h.window.count.symm.trans hcnt) _ b hb
  subst hz
  have hchain := h.window.chain_empty (le_refl p) hb
  have hpos := h.sizePos
  have hset : ∀ tail pnH pnL reset, Settled k w (acc ++ entered p skb) (p + 1) (p + w)
      { s.desc with
        winStart := seqnoAdd s.desc.winStart 1
        winLimit := seqnoAdd s.desc.winLimit 1
        winTail := tail
        pnH := pnH
        pnL := pnL
        resetPn := reset } := by
    intro tail pnH pnL reset
    exact {
      window := ((h.window.pass hb).enter (Nat.lt_succ_self p)).congr rfl rfl rfl
      winStart := by
        simp only [h.winStart]
        exact seqnoAdd_position p 1
      winSize := h.winSize
      winLimit := by
        simp only [h.winLimit, seqnoAdd]
        omega
      reach := by omega
      sizePos := h.sizePos
      sizeLe := h.sizeLe
      fits := h.fits }
  unfold sendOrderMsdu
  cases skb with
  | none => exact ⟨_, rfl, (hset _ _ _ _).rest, .nothing rfl⟩
  | some x =>
    dsimp only
    generalize hd : ({ s.desc with
      winStart := seqnoAdd s.desc.winStart 1
      winLimit := seqnoAdd s.desc.winLimit 1
      winTail := seqnoSub (seqnoAdd s.desc.winStart 1 : ℕ) 1 } : RxBaNodeDesc) = d
    obtain ⟨r, l, h', hframe⟩ := replayDetection_frame (setBaPktDesc RxBaPkt.zero.desc m) d
    cases hr : replayDetection (setBaPktDesc RxBaPkt.zero.desc m) d with
    | mk pass d' =>
      rw [hr] at hframe
      subst hd hframe
      cases pass with
      | true =>
        simp only [reorderSetSkbList, List.cons_ne_nil, if_false, ok_map]
        refine ⟨_, rfl, (hset _ _ _ _).rest,
          [⟨.sendOrderMsdu, m.seqNum, [x]⟩], [p], rfl, Ascending.singleton p, ?_⟩
        simp [Sender.inWindow, hseq, h.winStart, hchain, entered]
      | false =>
        exact ⟨_, rfl, (hset _ _ _ _).rest, .nothing rfl⟩

theorem reorderSetSkbList_cases (l : RxLists) (sender : Sender) (seq : ℕ) (chain : List Skb) :
    reorderSetSkbList l sender seq chain = .error .nullSkb ∨
      reorderSetSkbList l sender seq chain =
        .ok { l with delivered := l.delivered ++ [⟨sender, seq, chain⟩] } := by
  unfold reorderSetSkbList
  split
  · exact Or.inl rfl
  · exact Or.inr rfl

/-- What one call of `reorder_msdu_process` does to a settled session. -/
theorem reorderMsduProcess_spec {s : Session} (skb : Option Skb)
    (h : Settled k w acc p (p + w) s.node.rxBa)
    (hq : q = p + seqnoSub (m.seqNum : ℕ) s.node.rxBa.winStart)
    (hfull : s.node.active = true → ¬ JoinsFullSlot s.node.rxBa m) :
    reorderMsduProcess m skb s = .error .nullSkb ∨
      ∃ s', reorderMsduProcess m skb s = .ok s' ∧
        Outcome k w (if takes s m skb then acc ++ entered q skb else acc) p s.lists s' := by
  rw [reorderMsduProcess]
  by_cases hact : s.node.active = true
  · rw [if_pos hact]
    by_cases hin : inSequence m s.node.rxBa = true
    · -- in sequence
      rw [if_pos hin]
      obtain ⟨r, hr, hset, hpass⟩ :=
        sendOrderMsdu_spec (s := s.rx.leaveInitMode) skb (Settled.leaveInitMode h) hin
      have hseq : (m.seqNum : ℕ) = p % 4096 := by
        simp only [inSequence, Bool.and_eq_true, decide_eq_true_eq] at hin
        exact hin.1.1.trans h.winStart
      have hqp : q = p := by
        rw [hq, h.winStart, hseq, seqnoSub_position (le_refl p) (by omega)]
        omega
      have htakes : takes s m skb = true := by
        have hge : seqnoGeq (m.seqNum : ℕ) s.node.rxBa.winStart = true := by
          rw [hseq, h.winStart]
          simp [seqnoGeq, seqnoLeq]
        simp [takes, hact, hge, hin]
      rw [hr, ok_map, if_pos htakes, hqp]
      exact Or.inr ⟨_, rfl, p + 1, by omega, by omega, hset, hpass⟩
    · rw [if_neg hin]
      by_cases hge : seqnoGeq (m.seqNum : ℕ) s.node.rxBa.winStart = true
      · -- at or after the window start
        obtain ⟨ret, r, p', hr, hle, hle', _, hset, hrel⟩ :=
          reorderMsdu_spec (s := s.rx) skb h hge hq (hfull hact)
        obtain ⟨s', p'', hs', hle'', hmax, _, hset', hrel'⟩ :=
          afterReorderMsdu_spec (t := s.withRx r) hset s.node.rxBa.winStart ret
        have hbound := seqnoSub_le_of_geq m.seqNum.isLt (h.winStart ▸ hge)
        rw [← h.winStart] at hbound
        have hw := h.sizeLe
        have hacc : (if takes s m skb then acc ++ entered q skb else acc) =
            acceptedBy ret acc q skb := by
          have hin' : inSequence m s.node.rxBa = false := by simpa using hin
          simp [takes, hact, hge, hin', hr, acceptedBy]
        have hrel0 : Released .sendReorderSkb (acceptedBy ret acc q skb) p p' s.lists r.lists := by
          unfold acceptedBy
          split
          · exact hrel.enter hle'
          · exact hrel
        rw [hr, ok_bind, hs', hacc]
        exact Or.inr ⟨s', rfl, p'', by omega, by omega, hset'.rest,
          (hrel0.trans hrel' hle hle'').passedOn rfl⟩
      · -- older than the window
        have htakes : takes s m skb = false := by simp [takes, hge]
        rw [reorderMsdu, if_neg (by exact hge), htakes]
        split
        · rcases reorderSetSkbList_cases s.lists .reorderMsdu m.seqNum skb.toList with hl | hl
          · exact Or.inl (by rw [Session.rx, hl]; rfl)
          · right
            rw [Session.rx, hl, ok_map, ok_bind]
            obtain ⟨s', p', hs', hle, hmax, _, hset, hrel⟩ := afterReorderMsdu_spec
              (m := m) (t := s.withRx ⟨{ s.lists with
                delivered := s.lists.delivered ++ [⟨.reorderMsdu, m.seqNum, skb.toList⟩] },
                s.node.rxBa⟩) h s.node.rxBa.winStart 0
            have hw := h.sizeLe
            have hby : PassedOn acc p p s.lists { s.lists with
                delivered := s.lists.delivered ++ [⟨.reorderMsdu, m.seqNum, skb.toList⟩] } :=
              .bypass rfl rfl
            exact ⟨s', hs', p', hle, by omega, hset.rest,
              hby.trans (hrel.passedOn rfl) (le_refl p) hle⟩
        · right
          rw [ok_bind]
          obtain ⟨s', p', hs', hle, hmax, _, hset, hrel⟩ := afterReorderMsdu_spec
            (m := m) (t := s.withRx (dropIfFailed (-EINVAL) skb s.rx))
            (by simpa [Session.withRx, Session.rx] using h) s.node.rxBa.winStart (-EINVAL)
          have hw := h.sizeLe
          refine ⟨s', hs', p', hle, by omega, hset.rest, ?_⟩
          obtain ⟨ds, qs, hd, hqs, hf⟩ := hrel.passedOn rfl
          exact ⟨ds, qs, by simpa [Session.withRx, Session.rx] using hd, hqs, hf⟩
  · rw [if_neg hact]
    have htakes : takes s m skb = false := by simp [takes, hact]
    rw [htakes]
    rcases reorderSetSkbList_cases s.lists .reorderMsduProcess m.seqNum skb.toList with hl | hl
    · exact Or.inl (by rw [hl]; rfl)
    · right
      rw [hl, ok_map]
      exact ⟨_, rfl, Outcome.same h rfl (.bypass rfl rfl)⟩

theorem firstSeqnoLoop_spec {d : RxBaNodeDesc} (h : Window k acc lo hi d) (n : ℕ) {seqno : ℕ}
    (hs : seqno < 4096) : ∃ v, firstSeqnoLoop d n seqno = .ok v ∧ v < 4096 := by
  induction n generalizing seqno with
  | zero => exact ⟨seqno, rfl, hs⟩
  | succ n ih =>
    obtain ⟨b, hb⟩ := h.slot seqno
    rw [firstSeqnoLoop, h.index (q := seqno) rfl, pkt_eq_ok hb, ok_bind]
    split
    · split
      · exact ⟨seqno, rfl, hs⟩
      · exact ih (seqnoAdd_lt _ _)
    · exact ⟨seqno, rfl, hs⟩

theorem baReorderTimeout_spec {s : Session} (h : Settled k w acc p (p + w) s.node.rxBa) :
    ∃ s', baReorderTimeout s = .ok s' ∧ Outcome k w acc p s.lists s' := by
  rw [baReorderTimeout]
  split
  · have hstart : s.node.rxBa.winStart < 4096 := by
      rw [h.winStart]
      exact Nat.mod_lt _ (by norm_num)
    obtain ⟨v, hv, hlt⟩ := firstSeqnoLoop_spec h.window 4097 hstart
    have hpos := position_of_seqno p hlt
    have hsub := seqnoSub_lt v (p % 4096 : ℕ)
    obtain ⟨r, p', hr, hle, hmax, _, hset, hrel⟩ := Settled.move
      (q := p + seqnoSub v (p % 4096 : ℕ)) (Settled.leaveInitMode (s := s.rx) h)
      (by omega) (by omega)
    rw [hpos] at hr
    have hw := h.sizeLe
    rw [getFirstSeqnoInBuff, hv, ok_bind, hr, ok_map]
    refine ⟨_, rfl, p', by omega, by omega, ?_, hrel.passedOn rfl⟩
    simpa [Session.withRx, Session.mapNode] using hset.rest
  · exact ⟨s, rfl, Outcome.same h rfl (.nothing rfl)⟩

/-- The journal names the window of the session. -/
def Tracks (k w : ℕ) (s : Session) (j : Ledger Skb) : Prop :=
  Settled k w j.accepted j.base (j.base + w) s.node.rxBa

/-- A step of a tracked session only faults on a missing socket buffer. -/
theorem step_spec {s : Session} {j : Ledger Skb} (h : Tracks k w s j) {e : Event}
    (hfit : CountsFit s e) :
    step s e = .error .nullSkb ∨
      ∃ s', step s e = .ok s' ∧
        Outcome k w (j.accepted ++ acceptedIn j s e) j.base s.lists s' := by
  cases e with
  | msdu m skb =>
    rcases reorderMsduProcess_spec (some skb) h rfl (hfit m rfl) with he | ⟨s', hs, ho⟩
    · exact Or.inl he
    · refine Or.inr ⟨s', hs, ?_⟩
      have hacc : (if takes s m (some skb) then j.accepted ++
            entered (j.base + seqnoSub (m.seqNum : ℕ) s.node.rxBa.winStart) (some skb)
          else j.accepted) = j.accepted ++ acceptedIn j s (.msdu m skb) := by
        cases ht : takes s m (some skb) <;> simp [acceptedIn, positionOf, entered, ht]
      rw [← hacc]
      exact ho
  | filter seqNum =>
    rcases reorderMsduProcess_spec (m := filterDesc seqNum) none h rfl
      (hfit _ rfl) with he | ⟨s', hs, ho⟩
    · exact Or.inl he
    · refine Or.inr ⟨s', hs, ?_⟩
      simpa [acceptedIn, entered] using ho
  | timeout =>
    obtain ⟨s', hs, ho⟩ := baReorderTimeout_spec h
    exact Or.inr ⟨s', hs, by simpa [acceptedIn] using ho⟩
  | expire | activate =>
    exact Or.inr ⟨_, rfl, Outcome.same (by simpa [acceptedIn, Tracks] using h) rfl (.nothing rfl)⟩
  | resetPn =>
    refine Or.inr ⟨_, rfl, j.base, le_refl _, by omega, ?_, .nothing rfl⟩
    have h' : Settled k w (j.accepted ++ acceptedIn j s .resetPn) j.base (j.base + w)
        s.node.rxBa := by simpa [acceptedIn, Tracks] using h
    exact { h' with window := h'.window.congr rfl rfl rfl }

/-! ## The journal follows the specification -/

theorem windowDeliveries_eq {s s' : Session} {ds : List Delivery}
    (h : s'.lists.delivered = s.lists.delivered ++ ds) :
    windowDeliveries s s' = ds.filter (·.sender.inWindow) := by
  rw [windowDeliveries, h, List.drop_left]

theorem positionOf_position {s : Session} {j : Ledger Skb} (h : Tracks k w s j) (hq : j.base ≤ q)
    (hq' : q < j.base + 4096) : positionOf j s (q % 4096) = q := by
  rw [positionOf, h.winStart, seqnoSub_position hq hq']
  omega

theorem acceptedIn_reaches (j : Ledger Skb) (s : Session) (e : Event) :
    Reaches j { j with accepted := j.accepted ++ acceptedIn j s e } := by
  cases e with
  | msdu m skb =>
    simp only [acceptedIn]
    split
    · exact .of_step (.accept j _ skb (Nat.le_add_right _ _))
    · simpa using Reaches.refl j
  | filter | expire | timeout | resetPn | activate => simpa [acceptedIn] using Reaches.refl j

/-- What a step adds to the journal is what it put on the delivery list. -/
theorem note_spec {s s' : Session} {j : Ledger Skb} (h : Tracks k w s j) {e : Event}
    (hfit : CountsFit s e) (hs : step s e = .ok s') :
    ∃ qs p' ds, j.base ≤ p' ∧ Ascending j.base p' qs ∧
      note j s e s' = ⟨p', j.accepted ++ acceptedIn j s e,
        j.delivered ++ qs.map (groupAt (j.accepted ++ acceptedIn j s e))⟩ ∧
      Tracks k w s' (note j s e s') ∧ s'.lists.delivered = s.lists.delivered ++ ds ∧
      (ds.filter (·.sender.inWindow)).map (fun x => (x.seq, x.skbs)) =
        (qs.map (groupAt (j.accepted ++ acceptedIn j s e))).map (fun g => (g.1 % 4096, g.2)) := by
  rcases step_spec h hfit with he | ⟨t, ht, ho⟩
  · rw [hs] at he
    cases he
  rw [hs] at ht
  cases ht
  rcases ho with ⟨p', hle, hlt, hset, ds, qs, hds, hqs, hgroups⟩
  have hbase : (note j s e s').base = p' := by
    simp only [note, hset.winStart]
    exact positionOf_position h hle hlt
  have hdel : (note j s e s').delivered =
      j.delivered ++ qs.map (groupAt (j.accepted ++ acceptedIn j s e)) := by
    have hmap := congrArg (List.map fun x => (positionOf j s x.1, x.2)) hgroups
    simp only [List.map_map, Function.comp_def] at hmap
    simp only [note, windowDeliveries_eq hds, hmap]
    congr 1
    apply List.map_congr_left
    intro q hq
    have hb := hqs.bounds q hq
    rw [positionOf_position h hb.1 (by omega), groupAt]
  have hnote : note j s e s' = ⟨p', j.accepted ++ acceptedIn j s e,
      j.delivered ++ qs.map (groupAt (j.accepted ++ acceptedIn j s e))⟩ := by
    rw [← hbase, ← hdel]
    rfl
  refine ⟨qs, p', ds, hle, hqs, hnote, ?_, hds, ?_⟩
  · rw [hnote]
    exact hset
  · rw [hgroups]
    simp [groupAt, Function.comp_def]

/-- Each step of the driver is matched by steps of the specification. -/
theorem note_refines {s s' : Session} {j : Ledger Skb} (h : Tracks k w s j) {e : Event}
    (hfit : CountsFit s e) (hs : step s e = .ok s') :
    Tracks k w s' (note j s e s') ∧ Reaches j (note j s e s') := by
  obtain ⟨qs, p', ds, hle, hqs, hnote, htrack, _⟩ := note_spec h hfit hs
  refine ⟨htrack, ?_⟩
  rw [hnote]
  exact (acceptedIn_reaches j s e).trans (.of_step (.advance _ p' qs hle hqs))

/-- A whole observed run of the driver is a run of the specification. -/
theorem run_refines {s t : Session} {j j' : Ledger Skb} {es : List Event} (h : Tracks k w s j)
    (hfit : Along step CountsFit s es)
    (hr : run (observe step note) (s, j) es = .ok (t, j')) :
    Tracks k w t j' ∧ Reaches j j' := by
  refine run_invariant (I := fun x => Tracks k w x.1 x.2 ∧ Reaches j x.2)
    (C := fun x e => CountsFit x.1 e) ?_ ⟨h, .refl j⟩ (hfit.observe j) hr
  intro ⟨s, i⟩ e ⟨s', i'⟩ ⟨hs, hi⟩ hc he
  obtain ⟨hstep, hnote⟩ := observe_eq_ok.mp he
  simp only at hnote
  subst hnote
  obtain ⟨ht, hreach⟩ := note_refines hs hc hstep
  exact ⟨ht, hi.trans hreach⟩

/-- The only fault of a tracked run is a missing socket buffer. -/
theorem run_fault_of_tracks {s : Session} {j : Ledger Skb} {es : List Event} {f : Fault}
    (h : Tracks k w s j) (hfit : Along step CountsFit s es) (hr : run step s es = .error f) :
    f = .nullSkb := by
  refine run_fault (I := fun x => ∃ i, Tracks k w x i) (P := fun f => f = .nullSkb) ?_ ?_
    ⟨j, h⟩ hfit hr
  · intro s e s' ⟨i, hi⟩ hc he
    exact ⟨_, (note_refines hi hc he).1⟩
  · intro s e f ⟨i, hi⟩ hc he
    rcases step_spec hi hc with hf | ⟨s', hs, _⟩
    · rw [he] at hf
      exact Except.error.inj hf
    · rw [he] at hs
      cases hs

/-! ## The start of a session -/

/-- A session set up with enough slots starts with a settled, empty window. -/
theorem tracks_freshSession {winStart winSize size : ℕ} (sta tid : ℕ) (hstart : winStart < 4096)
    (hpos : 1 ≤ winSize) (hle : winSize ≤ 2048) (hsize : winSize ≤ size) (hfit : size ≤ 4096) :
    ∃ k, Tracks k winSize (freshSession sta tid winStart winSize (getIndexSize size))
      (startJournal winStart) := by
  obtain ⟨k, hk, heq⟩ := getIndexSize_eq (b := 12) (by omega) hfit
  have hslots : size ≤ getIndexSize size := le_getIndexSize (by omega)
  have hpow := Nat.two_pow_pos k
  rw [heq] at hslots ⊢
  refine ⟨k, ⟨⟨hk, ?_, ?_, ?_, ?_, ?_⟩, ?_, rfl, ?_, le_refl _, hpos, hle, by omega⟩⟩
  · simp only [freshSession, setBaNodeDesc]
    omega
  · simp [freshSession, setBaNodeDesc, newBaNode]
  · exact holds_replicate _ (by simp only [startJournal]; omega)
  · simp [freshSession, setBaNodeDesc, newBaNode]
  · intro e he
    cases he
  · simp only [freshSession, setBaNodeDesc, startJournal]
    omega
  · simp only [freshSession, setBaNodeDesc, startJournal, seqnoAdd]
    omega

end Uwe5631.Reorder
