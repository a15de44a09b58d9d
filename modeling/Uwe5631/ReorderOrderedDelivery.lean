import Uwe5631.ReorderWindowInvariant

/-!
# In-order delivery of a reorder session

The journal of a run is a run of the in-order delivery specification, and it records
exactly what `send_order_msdu` and `send_reorder_skb` put on the delivery list. When the
MSDU counter of a slot has wrapped, the chain of the slot is delivered with a later MPDU.
-/
namespace Uwe5631.Reorder
open FallibleRuns RingWindow OrderedDelivery

variable {k w : ℕ}

/-- The sequence numbers and chains that went through the window. -/
def windowGroups (l : RxLists) : List (ℕ × List Skb) :=
  (l.delivered.filter (·.sender.inWindow)).map (fun x => (x.seq, x.skbs))

/-- The journal records the delivery list, and its groups are delivered in order and
whole. -/
structure DeliversInOrder (s : Session) (j : Ledger Skb) : Prop where
  recorded : windowGroups s.lists = j.delivered.map (fun g => (g.1 % 4096, g.2))
  inOrder : InOrder j

theorem note_recorded {s s' : Session} {j : Ledger Skb} (h : Tracks k w s j) {e : Event}
    (hfit : CountsFit s e) (hs : step s e = .ok s')
    (hj : windowGroups s.lists = j.delivered.map (fun g => (g.1 % 4096, g.2))) :
    windowGroups s'.lists = (note j s e s').delivered.map (fun g => (g.1 % 4096, g.2)) := by
  obtain ⟨qs, p', ds, _, _, hnote, _, hds, hgroups⟩ := note_spec h hfit hs
  rw [hnote, List.map_append, ← hj, ← hgroups]
  simp [windowGroups, hds]

/-- In every run of a new session whose frames meet no full slot, the MPDUs go through
the window at strictly increasing positions, each with everything accepted for it in the
order of arrival. -/
theorem delivers_in_order_of_counts_fit {winStart winSize size sta tid : ℕ}
    (hstart : winStart < 4096) (hpos : 1 ≤ winSize) (hle : winSize ≤ 2048)
    (hsize : winSize ≤ size) (hfit : size ≤ 4096) {es : List Event}
    (hc : Along step CountsFit (freshSession sta tid winStart winSize (getIndexSize size)) es)
    {t : Session}
    (hr : run step (freshSession sta tid winStart winSize (getIndexSize size)) es = .ok t) :
    ∃ j, run (observe step note)
        (freshSession sta tid winStart winSize (getIndexSize size), startJournal winStart) es =
          .ok (t, j) ∧ DeliversInOrder t j := by
  obtain ⟨k, htrack⟩ := tracks_freshSession sta tid hstart hpos hle hsize hfit
  obtain ⟨j, hj⟩ := run_observe_exists note hr (startJournal winStart)
  refine ⟨j, hj, ?_, ?_⟩
  · refine (run_invariant (I := fun x => Tracks k winSize x.1 x.2 ∧
      windowGroups x.1.lists = x.2.delivered.map (fun g => (g.1 % 4096, g.2)))
      (C := fun x e => CountsFit x.1 e) ?_ ⟨htrack, rfl⟩ (hc.observe _) hj).2
    intro ⟨s, i⟩ e ⟨s', i'⟩ ⟨hs, hi⟩ hfit he
    obtain ⟨hstep, hnote⟩ := observe_eq_ok.mp he
    simp only at hnote
    subst hnote
    exact ⟨(note_refines hs hfit hstep).1, note_recorded hs hfit hstep hi⟩
  · exact (run_refines htrack hc hj).2.inOrder (inOrder_start winStart)

set_option maxRecDepth 4000 in
theorem delivers_in_order_of_counts_fit_wrapping : ∃ t j,
    run (observe step note)
      (freshSession 3 5 4090 32 (getIndexSize 32), startJournal 4090) wrappingRun = .ok (t, j) ∧
      DeliversInOrder t j := by
  obtain ⟨j, hj⟩ := @delivers_in_order_of_counts_fit 4090 32 32 3 5 (by omega) (by omega)
    (by omega) (by omega) (by omega) wrappingRun (by decide) _ rfl
  exact ⟨_, j, hj⟩

/-! ## A chain delivered with a later MPDU -/

/-- The gap loop passes over slots that count no MSDU. -/
theorem gapLoop_uncounted {s : RxState} (n seq numFrms : ℕ)
    (h : ∀ seq : ℕ, ∃ b, s.desc.pkt (seq &&& s.desc.indexMask) = .ok b ∧ b.desc.msduNum = 0) :
    gapLoop n seq numFrms s = .ok (numFrms, s) := by
  induction n generalizing seq with
  | zero => rfl
  | succ n ih =>
    obtain ⟨b, hb, hzero⟩ := h seq
    rw [gapLoop, hb, ok_bind, if_pos hzero, ih]
    simp

theorem pkt_oneSlotSession (winStart winTail buffCnt : ℕ) (b : RxBaPkt) (seq : ℕ) :
    (oneSlotSession winStart winTail buffCnt b).rx.desc.pkt (seq &&& 63) =
      .ok (if seq &&& 63 = 1 then b else RxBaPkt.zero) := by
  have hlt : seq &&& 63 < 64 := by
    rw [land_indexMask (k := 6) rfl]
    omega
  apply pkt_eq_ok
  simp only [Session.rx, oneSlotSession, List.getElem?_set, List.getElem?_replicate,
    List.length_replicate, if_pos hlt]
  by_cases h : seq &&& 63 = 1
  · simp [h]
  · simp [h, Ne.symm h]

/-- An uncounted slot stays behind when the window moves past it. -/
theorem greaterThanSeqhi_openSession (skbs : List Skb) :
    greaterThanSeqhi (65 : Fin 4096) (openSession skbs 0).rx =
      .ok (oneSlotSession 65 1 1 ⟨skbs, ⟨0, 0, 1, 0, false, 0⟩⟩).rx := by
  have hgap : sendMsduWithGap 65 (openSession skbs 0).rx = .ok (0, (openSession skbs 0).rx) := by
    apply gapLoop_uncounted
    intro seq
    refine ⟨_, pkt_oneSlotSession _ _ _ _ seq, ?_⟩
    split <;> rfl
  have hpos : seqnoSub (65 : Fin 4096) (((openSession skbs 0).rx.desc.winSize : ℤ) - 1) = 65 := rfl
  rw [greaterThanSeqhi, hpos, moveWindow, hgap, ok_bind]
  simp [betweenSeqloSeqhi, sendMsduInOrder, inOrderLoop, openSession, oneSlotSession, Session.rx,
    RxBaNodeDesc.pkt, seqnoAdd]

theorem insertFrame_stale (skbs : List Skb) (y : Skb) :
    insertFrame (msduOf 65 true) (some y)
      (oneSlotSession 65 1 1 ⟨skbs, ⟨0, 0, 1, 0, false, 0⟩⟩).rx =
        .ok (0, (oneSlotSession 65 65 2 ⟨skbs ++ [y], ⟨0, 0, 65, 0, true, 1⟩⟩).rx) := by
  simp [insertFrame, insertMsdu, oneSlotSession, Session.rx, msduOf, RxBaNodeDesc.pkt,
    RxBaNodeDesc.setPkt, jointMsdu, setBaPktDesc, noteTail, dropIfFailed, seqnoGeq, seqnoLeq]

theorem betweenSeqloSeqhi_stale {skbs : List Skb} (h : skbs ≠ []) :
    betweenSeqloSeqhi (oneSlotSession 65 65 2 ⟨skbs, ⟨0, 0, 65, 0, true, 1⟩⟩).rx =
      .ok ⟨⟨[⟨.sendReorderSkb, 65, skbs⟩], []⟩, (oneSlotSession 66 65 1 RxBaPkt.zero).rx.desc⟩ := by
  simp [betweenSeqloSeqhi, sendMsduInOrder, inOrderLoop, oneSlotSession, Session.rx,
    RxBaNodeDesc.pkt, seqnoAdd, sendReorderSkb, h, replayDetection, CipherType.numbered, hwTkip,
    hwCcmp, reorderSetSkbList, RxBaNodeDesc.setPkt, RxLists.empty, RxBaPkt.zero]

theorem step_stale (skbs : List Skb) (y : Skb) (acc : List (ℕ × Skb)) :
    ∃ t, observe step note (openSession skbs 0, ⟨1, acc, []⟩) (.msdu (msduOf 65 true) y) =
      .ok (t, ⟨66, acc ++ [(65, y)], [(65, skbs ++ [y])]⟩) := by
  have hmode : (openSession skbs 0).rx.leaveInitMode = (openSession skbs 0).rx := rfl
  have hge : seqnoGeq ((msduOf 65 true).seqNum : ℕ) (openSession skbs 0).rx.desc.winStart =
    true := rfl
  have hleq : ¬ seqnoLeq ((msduOf 65 true).seqNum : ℕ) (openSession skbs 0).rx.desc.winLimit =
    true := Bool.eq_false_iff.mp rfl
  have hshift : greaterThanSeqhi ((msduOf 65 true).seqNum : ℕ) (openSession skbs 0).rx = _ :=
    greaterThanSeqhi_openSession skbs
  have hmsdu : reorderMsdu (msduOf 65 true) (some y) (openSession skbs 0).rx =
      .ok (0, (oneSlotSession 65 65 2 ⟨skbs ++ [y], ⟨0, 0, 65, 0, true, 1⟩⟩).rx) := by
    rw [reorderMsdu, if_pos hge, if_neg hleq, hmode, hshift, ok_bind, insertFrame_stale]
  have hact : (openSession skbs 0).node.active = true := rfl
  have hseq : ¬ inSequence (msduOf 65 true) (openSession skbs 0).node.rxBa = true := by
    simp [inSequence, openSession, oneSlotSession, msduOf]
  have htakes : takes (openSession skbs 0) (msduOf 65 true) (some y) = true := by
    rw [takes, hmsdu]
    rfl
  have hwith : (openSession skbs 0).withRx
      (oneSlotSession 65 65 2 ⟨skbs ++ [y], ⟨0, 0, 65, 0, true, 1⟩⟩).rx =
        oneSlotSession 65 65 2 ⟨skbs ++ [y], ⟨0, 0, 65, 0, true, 1⟩⟩ := rfl
  have hstep : ∃ t, step (openSession skbs 0) (.msdu (msduOf 65 true) y) = .ok t ∧
      t.lists.delivered = [⟨.sendReorderSkb, 65, skbs ++ [y]⟩] ∧ t.node.rxBa.winStart = 66 := by
    rw [step, reorderMsduProcess, if_pos hact, if_neg hseq, hmsdu, ok_bind, hwith,
      afterReorderMsdu, if_pos (by rfl), if_pos (by rfl), betweenSeqloSeqhi_stale (by simp), ok_map]
    exact ⟨_, rfl, rfl, by simp [Session.withRx, Session.mapNode, Session.rx, oneSlotSession]⟩
  rcases hstep with ⟨t, ht, hdel, hstart⟩
  refine ⟨t, observe_eq_ok.mpr ⟨ht, ?_⟩⟩
  simp only [note, acceptedIn, htakes, if_true, windowDeliveries, hdel, hstart]
  rfl

theorem run_stale {skbs : List Skb} (h : skbs.length = 65536) (y : Skb) :
    ∃ t, run (observe step note) (freshSession 0 0 1 1 (getIndexSize 1), startJournal 1)
      (openRun skbs ++ [.msdu (msduOf 65 true) y]) =
        .ok (t, ⟨66, skbs.map (fun x => (1, x)) ++ [(65, y)], [(65, skbs ++ [y])]⟩) := by
  obtain ⟨t, ht⟩ := step_stale skbs y (skbs.map (fun x => (1, x)))
  exact ⟨t, run_append_ok (run_openRun h) (run_cons_ok ht [])⟩

/-- 65536 subframes accepted for sequence number 1 are delivered with the MPDU 65. -/
theorem delivers_in_order_fails_on_wrap : ∃ t j,
    run (observe step note) (freshSession 0 0 1 1 (getIndexSize 1), startJournal 1)
      (openRun (List.range 65536) ++ [.msdu (msduOf 65 true) 65536]) = .ok (t, j) ∧
      j.delivered = [(65, List.range 65536 ++ [65536])] ∧ chainAt j.accepted 65 = [65536] ∧
      ¬ DeliversInOrder t j := by
  obtain ⟨t, ht⟩ := run_stale (List.length_range (n := 65536)) 65536
  have hother : ∀ xs : List Skb, chainAt (xs.map (fun x => (1, x)) ++ [(65, 65536)]) 65 =
      [65536] := by
    intro xs
    rw [chainAt_append, chainAt_map_ne (by omega), chainAt_singleton_self, List.nil_append]
  have hchain := hother (List.range 65536)
  refine ⟨t, _, ht, rfl, hchain, fun h => ?_⟩
  have hgroup := h.inOrder.complete (65, List.range 65536 ++ [65536]) (List.mem_singleton_self _)
  have hnil : List.range 65536 = [] := List.append_left_eq_self.mp (hgroup.trans hchain)
  cases List.range_eq_nil.mp hnil

end Uwe5631.Reorder
