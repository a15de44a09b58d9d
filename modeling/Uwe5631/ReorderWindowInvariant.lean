import Uwe5631.ReorderSessionRuns

/-!
# The window invariant of a reorder session

As long as no frame is joined to a slot whose sixteen-bit MSDU counter is full, every
state of a session agrees with its window. The counter of a slot does wrap: after 65536
MSDUs for one open sequence number the slot counts none.
-/
namespace Uwe5631.Reorder
open FallibleRuns RingWindow OrderedDelivery

variable {k w : ℕ} {acc : List (ℕ × Skb)}

/-- The number of slots with a non-zero `msdu_num`. -/
def countedSlots (d : RxBaNodeDesc) : ℕ := d.reorderBuffer.countP (fun b => b.desc.msduNum ≠ 0)

/-- `seq` lies in the window `win_start .. win_start + win_size - 1` modulo 4096. -/
def InWindow (winSize : ℕ) (d : RxBaNodeDesc) (seq : ℕ) : Prop :=
  seq < 4096 ∧ seqnoSub seq d.winStart < winSize

/-- The state of a node agrees with its window. -/
structure WindowInvariant (winSize : ℕ) (d : RxBaNodeDesc) : Prop where
  count : d.buffCnt = countedSlots d
  slots : ∀ i b, d.reorderBuffer[i]? = some b → b.desc.msduNum ≠ 0 →
    b.desc.seq &&& d.indexMask = i ∧ InWindow winSize d b.desc.seq
  limit : d.winLimit = (d.winStart + winSize - 1) % 4096
  separate : ∀ x y, InWindow winSize d x → InWindow winSize d y →
    x &&& d.indexMask = y &&& d.indexMask → x = y

/-- In a settled window the counted slots are those that are not empty. -/
theorem Window.countedSlots_eq {lo hi : ℕ} {d : RxBaNodeDesc} (h : Window k acc lo hi d) :
    countedSlots d = occupied RxBaPkt.zero d.reorderBuffer := by
  unfold countedSlots occupied
  apply List.countP_congr
  intro b hb
  obtain ⟨i, hi⟩ := List.getElem?_of_mem hb
  simp only [ne_eq, decide_not, Bool.not_eq_eq_eq_not, Bool.not_true, decide_eq_false_iff_not]
  constructor
  · rintro hne rfl
    exact hne rfl
  · intro hne
    exact (h.counted hi).resolve_left hne

theorem Settled.windowInvariant {p : ℕ} {d : RxBaNodeDesc} (h : Settled k w acc p (p + w) d) :
    WindowInvariant w d where
  count := h.window.count.trans h.window.countedSlots_eq.symm
  slots i b hb hcounted := by
    rcases h.window.ring.held i b hb with rfl | ⟨q, hlo, hhi, hi, hheld⟩
    · exact absurd rfl hcounted
    · rw [h.window.length] at hi
      have hw := h.sizeLe
      refine ⟨?_, ?_, ?_⟩
      · rw [h.window.index (q := q) (by rw [hheld.seq]; omega), hi]
      · rw [hheld.seq]
        exact Nat.mod_lt _ (by norm_num)
      · rw [hheld.seq, h.winStart, seqnoSub_position hlo (by omega)]
        omega
  limit := by
    have := h.sizePos
    rw [h.winLimit, h.winStart]
    omega
  separate x y hx hy hxy := by
    rcases hx with ⟨hx, hxw⟩
    rcases hy with ⟨hy, hyw⟩
    rw [h.winStart] at hxw hyw
    have hxp := position_of_seqno p hx
    have hyp := position_of_seqno p hy
    have hfit := h.fits
    rw [h.window.index (q := p + seqnoSub x (p % 4096 : ℕ)) (by omega),
      h.window.index (q := p + seqnoSub y (p % 4096 : ℕ)) (by omega)] at hxy
    have heq := position_unique (Nat.le_add_right p _) (by omega) (by omega) (by omega) hxy
    rw [← hxp, ← hyp, heq]

/-- An unprotected MSDU of a session. -/
def msduOf (seqNum : Fin 4096) (last : Bool) : RxMsduDesc where
  seqNum := seqNum
  lastMsduOfMpdu := last
  pnL := 0
  pnH := 0
  cipherType := 0
  tid := 0
  staLutIndex := 0
  qosFlag := true
  bcMcFlag := false

/-- In every run of a new session whose frames meet no full slot, the state agrees with
its window, and the only fault is a missing socket buffer in `reorder_set_skb_list`. -/
theorem window_invariant_of_counts_fit {winStart winSize size sta tid : ℕ}
    (hstart : winStart < 4096) (hpos : 1 ≤ winSize) (hle : winSize ≤ 2048)
    (hsize : winSize ≤ size) (hfit : size ≤ 4096) {es : List Event}
    (hc : Along step CountsFit (freshSession sta tid winStart winSize (getIndexSize size)) es) :
    (∀ t, run step (freshSession sta tid winStart winSize (getIndexSize size)) es = .ok t →
      WindowInvariant winSize t.node.rxBa) ∧
    ∀ f, run step (freshSession sta tid winStart winSize (getIndexSize size)) es = .error f →
      f = .nullSkb := by
  obtain ⟨k, htrack⟩ := tracks_freshSession sta tid hstart hpos hle hsize hfit
  refine ⟨fun t ht => ?_, fun f hf => ?_⟩
  · obtain ⟨j, hj⟩ := run_observe_exists note ht (startJournal winStart)
    exact (run_refines htrack hc hj).1.windowInvariant
  · exact run_fault_of_tracks htrack hc hf

/-- A window that wraps, with a gap, a second subframe, a duplicate and a timeout. -/
def wrappingRun : List Event :=
  [.activate, .msdu (msduOf 4092 true) 1, .msdu (msduOf 4 false) 2, .msdu (msduOf 4 true) 3,
    .msdu (msduOf 4092 true) 4, .expire, .timeout, .filter 4093, .msdu (msduOf 40 true) 5]

set_option maxRecDepth 4000 in
theorem window_invariant_of_counts_fit_wrapping : ∃ t,
    run step (freshSession 3 5 4090 32 (getIndexSize 32)) wrappingRun = .ok t ∧
      WindowInvariant 32 t.node.rxBa :=
  ⟨_, rfl, (@window_invariant_of_counts_fit 4090 32 32 3 5 (by omega) (by omega) (by omega)
    (by omega) (by omega) wrappingRun (by decide)).1 _ rfl⟩

/-! ## The MSDU counter wraps -/

/-- An MSDU of an A-MSDU with more to come. -/
def openMsdu : RxMsduDesc := msduOf 1 false

/-- An active session with a window of one and nothing but the slot of index one in use. -/
def oneSlotSession (winStart winTail buffCnt : ℕ) (pkt : RxBaPkt) : Session where
  node := {
    staLutIndex := 0
    tid := 0
    active := true
    timeoutCnt := 0
    timerPending := true
    rxBa := {
      winStartInit := 0
      winStart := winStart
      winLimit := winStart
      winTail := winTail
      winSize := 1
      buffCnt := buffCnt
      pnH := 0
      pnL := 0
      resetPn := false
      indexMask := 63
      reorderBuffer := (List.replicate 64 RxBaPkt.zero).set 1 pkt } }
  lists := RxLists.empty

/-- The session after some MSDUs `openMsdu`. -/
def openSession (skbs : List Skb) (msduNum : ℕ) : Session :=
  oneSlotSession 1 1 1 ⟨skbs, ⟨0, 0, 1, 0, false, msduNum⟩⟩

set_option maxRecDepth 4000 in
theorem run_first_openMsdu (x : Skb) :
    run (observe step note) (freshSession 0 0 1 1 (getIndexSize 1), startJournal 1)
      [.activate, .msdu openMsdu x] = .ok (openSession [x] 1, ⟨1, [(1, x)], []⟩) := rfl

theorem reorderMsdu_openMsdu (skbs : List Skb) {msduNum : ℕ} (x : Skb) (h : msduNum ≠ 0) :
    reorderMsdu openMsdu (some x) (openSession skbs msduNum).rx =
      .ok (0, (openSession (skbs ++ [x]) ((msduNum + 1) % 65536)).rx) := by
  have hins : insertMsdu openMsdu (some x) (openSession skbs msduNum).node.rxBa =
      .ok (0, (openSession (skbs ++ [x]) ((msduNum + 1) % 65536)).node.rxBa) := by
    simp [insertMsdu, openSession, oneSlotSession, openMsdu, msduOf, RxBaNodeDesc.pkt, RxBaNodeDesc.setPkt, h,
      isSamePn, CipherType.numbered, hwTkip, hwCcmp, jointMsdu, EINVAL]
  have hge : seqnoGeq (openMsdu.seqNum : ℕ) (openSession skbs msduNum).rx.desc.winStart = true :=
    rfl
  have hleq : seqnoLeq (openMsdu.seqNum : ℕ) (openSession skbs msduNum).rx.desc.winLimit = true :=
    rfl
  have hmode : (openSession skbs msduNum).rx.leaveInitMode = (openSession skbs msduNum).rx := rfl
  have hframe : insertFrame openMsdu (some x) (openSession skbs msduNum).rx =
      .ok (0, (openSession (skbs ++ [x]) ((msduNum + 1) % 65536)).rx) := by
    rw [insertFrame, Session.rx, hins]
    rfl
  rw [reorderMsdu, if_pos hge, if_pos hleq, hmode, ok_bind, hframe]

theorem step_openMsdu (skbs : List Skb) (msduNum : ℕ) (x : Skb) (h : msduNum ≠ 0)
    (acc : List (ℕ × Skb)) :
    observe step note (openSession skbs msduNum, ⟨1, acc, []⟩) (.msdu openMsdu x) =
      .ok (openSession (skbs ++ [x]) ((msduNum + 1) % 65536), ⟨1, acc ++ [(1, x)], []⟩) := by
  have hmsdu := reorderMsdu_openMsdu skbs x h
  have hact : (openSession skbs msduNum).node.active = true := rfl
  have hseq : ¬ inSequence openMsdu (openSession skbs msduNum).node.rxBa = true := by
    simp [inSequence, openSession, oneSlotSession, openMsdu, msduOf]
  have htakes : takes (openSession skbs msduNum) openMsdu (some x) = true := by
    rw [takes, hmsdu]
    rfl
  refine observe_eq_ok.mpr ⟨?_, ?_⟩
  · rw [step, reorderMsduProcess, if_pos hact, if_neg hseq, hmsdu]
    rfl
  · rw [note, acceptedIn, if_pos htakes]
    rfl

/-- Before the counter wraps. -/
theorem run_openMsdu (xs skbs : List Skb) (msduNum : ℕ) (h : msduNum ≠ 0)
    (hlt : msduNum + xs.length < 65536) (acc : List (ℕ × Skb)) :
    run (observe step note) (openSession skbs msduNum, ⟨1, acc, []⟩) (xs.map (.msdu openMsdu)) =
      .ok (openSession (skbs ++ xs) (msduNum + xs.length),
        ⟨1, acc ++ xs.map (fun x => (1, x)), []⟩) := by
  induction xs generalizing skbs msduNum acc with
  | nil => simp
  | cons x xs ih =>
    rw [List.length_cons] at hlt
    have hnext : (msduNum + 1) % 65536 = msduNum + 1 := Nat.mod_eq_of_lt (by omega)
    rw [List.map_cons, run_cons_ok (step_openMsdu skbs msduNum x h acc), hnext,
      ih _ _ (by omega) (by omega)]
    simp [Nat.add_comm, Nat.add_left_comm]

/-- Activation and one MSDU for each of the socket buffers. -/
def openRun (skbs : List Skb) : List Event := .activate :: skbs.map (.msdu openMsdu)

/-- The last of 65536 MSDUs makes the counter zero again. -/
theorem run_openRun {skbs : List Skb} (h : skbs.length = 65536) :
    run (observe step note) (freshSession 0 0 1 1 (getIndexSize 1), startJournal 1)
      (openRun skbs) =
        .ok (openSession skbs 0, ⟨1, skbs.map (fun x => (1, x)), []⟩) := by
  obtain ⟨x, rest, rfl⟩ := List.exists_cons_of_length_pos (l := skbs) (by omega)
  have hrest : rest ≠ [] := by
    rintro rfl
    cases h
  obtain ⟨xs, y, rfl⟩ := (List.eq_nil_or_concat' rest).resolve_left hrest
  simp only [List.length_cons, List.length_append, List.length_nil] at h
  have hmid := run_openMsdu xs [x] 1 (by omega) (by omega) [(1, x)]
  have hcount : 1 + xs.length = 65535 := by omega
  rw [hcount] at hmid
  have hlast := step_openMsdu ([x] ++ xs) 65535 y (by omega)
    ([(1, x)] ++ xs.map (fun x => (1, x)))
  have hsplit : openRun (x :: (xs ++ [y])) = [.activate, .msdu openMsdu x] ++
      (xs.map (.msdu openMsdu) ++ [.msdu openMsdu y]) := by
    simp [openRun]
  rw [hsplit]
  refine run_append_ok (run_first_openMsdu x) (run_append_ok hmid ?_)
  rw [run_cons_ok hlast, run_nil]
  simp

theorem run_openRun_session {skbs : List Skb} (h : skbs.length = 65536) :
    run step (freshSession 0 0 1 1 (getIndexSize 1)) (openRun skbs) = .ok (openSession skbs 0) :=
  run_observe (run_openRun h)

theorem countedSlots_openSession (skbs : List Skb) :
    countedSlots (openSession skbs 0).node.rxBa = 0 := by
  simp [openSession, oneSlotSession, countedSlots, RxBaPkt.zero]

/-- 65536 MSDUs of one A-MSDU leave a buffered MPDU that no slot counts. -/
theorem window_invariant_fails_on_wrap : ∃ t,
    run step (freshSession 0 0 1 1 (getIndexSize 1)) (openRun (List.range 65536)) = .ok t ∧
      t.node.active = true ∧ t.node.rxBa.buffCnt = 1 ∧ countedSlots t.node.rxBa = 0 ∧
      ¬ WindowInvariant 1 t.node.rxBa := by
  have hcounted := countedSlots_openSession (List.range 65536)
  refine ⟨_, run_openRun_session List.length_range, rfl, rfl, hcounted, fun h => ?_⟩
  have hcount := h.count
  rw [hcounted] at hcount
  cases hcount

end Uwe5631.Reorder
