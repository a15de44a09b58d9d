import Uwe5631.ReorderBuffer
import Uwe5631.RingWindow
import Uwe5631.OrderedDelivery

/-!
# The release loops of the reorder buffer

The slots of a node hold a window of positions; a position is a sequence number
counted without wrapping. The in-order loop and the gap loop walk the positions from
the base of the window and release what they find. Each released slot moves the base
by one, so what they deliver ascends.
-/
namespace Uwe5631.Reorder
open FallibleRuns RingWindow OrderedDelivery

variable {k w lo hi p : ℕ} {acc : List (ℕ × Skb)} {s : RxState} {d : RxBaNodeDesc}

/-- An occupied slot serving the position `q`, given what was accepted so far. -/
structure Held (acc : List (ℕ × Skb)) (q : ℕ) (b : RxBaPkt) : Prop where
  seq : b.desc.seq = q % 4096
  counted : b.desc.msduNum ≠ 0
  bounded : b.desc.msduNum < 65536
  chain : b.skbs = chainAt acc q

theorem Held.ne_zero {q : ℕ} {b : RxBaPkt} (h : Held acc q b) : b ≠ RxBaPkt.zero := by
  rintro rfl
  exact h.counted rfl

/-- The slots hold positions of `[lo, hi)` only, `buff_cnt` counts the occupied ones,
and everything accepted for a position not yet passed is still there. -/
structure Window (k : ℕ) (acc : List (ℕ × Skb)) (lo hi : ℕ) (d : RxBaNodeDesc) : Prop where
  kLe : k ≤ 12
  mask : d.indexMask + 1 = 2 ^ k
  length : d.reorderBuffer.length = 2 ^ k
  ring : Holds RxBaPkt.zero (Held acc) lo hi d.reorderBuffer
  count : d.buffCnt = occupied RxBaPkt.zero d.reorderBuffer
  complete : ∀ e ∈ acc, lo ≤ e.1 →
    e.1 < hi ∧ ∃ b, d.reorderBuffer[e.1 % 2 ^ k]? = some b ∧ b ≠ RxBaPkt.zero

theorem Window.fits (h : Window k acc lo hi d) : hi ≤ lo + 2 ^ k := by
  rw [← h.length]
  exact h.ring.fits

theorem Window.widen (h : Window k acc lo hi d) {hi' : ℕ} (hle : hi ≤ hi')
    (hfit : hi' ≤ lo + 2 ^ k) : Window k acc lo hi' d where
  kLe := h.kLe
  mask := h.mask
  length := h.length
  ring := h.ring.widen hle (by rw [h.length]; exact hfit)
  count := h.count
  complete e he hlo := by
    obtain ⟨hlt, hslot⟩ := h.complete e he hlo
    exact ⟨by omega, hslot⟩

/-- The window only depends on the slots, their count and the mask. -/
theorem Window.congr (h : Window k acc lo hi d) {d' : RxBaNodeDesc}
    (hmask : d'.indexMask = d.indexMask) (hbuf : d'.reorderBuffer = d.reorderBuffer)
    (hcnt : d'.buffCnt = d.buffCnt) : Window k acc lo hi d' where
  kLe := h.kLe
  mask := by rw [hmask, h.mask]
  length := by rw [hbuf, h.length]
  ring := by
    rw [hbuf]
    exact h.ring
  count := by rw [hcnt, hbuf, h.count]
  complete := by
    rw [hbuf]
    exact h.complete

theorem Window.slot (h : Window k acc lo hi d) (q : ℕ) :
    ∃ b, d.reorderBuffer[q % 2 ^ k]? = some b := by
  have hlt : q % 2 ^ k < d.reorderBuffer.length := by
    rw [h.length]
    exact Nat.mod_lt _ (Nat.two_pow_pos k)
  exact ⟨_, List.getElem?_eq_getElem hlt⟩

theorem Window.index (h : Window k acc lo hi d) {seq q : ℕ} (he : seq % 4096 = q % 4096) :
    seq &&& d.indexMask = q % 2 ^ k :=
  slot_eq_of_seqno_eq h.kLe h.mask he

theorem pkt_eq_ok {d : RxBaNodeDesc} {i : ℕ} {b : RxBaPkt} (h : d.reorderBuffer[i]? = some b) :
    d.pkt i = .ok b := by
  simp [RxBaNodeDesc.pkt, h]

/-- A slot inside the window with anything in it is counted. -/
theorem Window.counted (h : Window k acc lo hi d) {i : ℕ} {b : RxBaPkt}
    (hb : d.reorderBuffer[i]? = some b) : b = RxBaPkt.zero ∨ b.desc.msduNum ≠ 0 := by
  rcases h.ring.held i b hb with hz | ⟨q, _, _, _, hq⟩
  · exact Or.inl hz
  · exact Or.inr hq.counted

theorem Window.held_at (h : Window k acc lo hi d) {q : ℕ} (hlo : lo ≤ q) (hq : q < lo + 2 ^ k)
    {b : RxBaPkt} (hb : d.reorderBuffer[q % 2 ^ k]? = some b) (hne : b ≠ RxBaPkt.zero) :
    q < hi ∧ Held acc q b :=
  h.ring.at_position hlo (by rw [h.length]; exact hq) (by rw [h.length]; exact hb) hne

/-- The window passes an empty slot. -/
theorem Window.pass (h : Window k acc lo hi d)
    (hz : d.reorderBuffer[lo % 2 ^ k]? = some RxBaPkt.zero) : Window k acc (lo + 1) hi d where
  kLe := h.kLe
  mask := h.mask
  length := h.length
  ring := h.ring.pass (by rw [h.length]; exact hz)
  count := h.count
  complete e he hlo := h.complete e he (by omega)

/-- The window passes a slot that is cleared and taken out of the count. -/
theorem Window.clear (h : Window k acc lo hi d) {b : RxBaPkt}
    (hb : d.reorderBuffer[lo % 2 ^ k]? = some b) (hne : b ≠ RxBaPkt.zero) {d' : RxBaNodeDesc}
    (hmask : d'.indexMask = d.indexMask) (hcnt : d'.buffCnt = d.buffCnt - 1)
    (hbuf : d'.reorderBuffer = d.reorderBuffer.set (lo % 2 ^ k) RxBaPkt.zero) :
    Window k acc (lo + 1) hi d' where
  kLe := h.kLe
  mask := by rw [hmask, h.mask]
  length := by rw [hbuf, List.length_set, h.length]
  ring := by
    rw [hbuf, ← h.length]
    exact h.ring.clear
  count := by
    have := occupied_clear hb hne
    rw [hcnt, hbuf, h.count]
    omega
  complete e he hlo := by
    obtain ⟨hlt, c, hc, hcne⟩ := h.complete e he (by omega)
    refine ⟨hlt, c, ?_, hcne⟩
    have hfit := h.fits
    rw [hbuf, List.getElem?_set_ne (position_ne (by omega) (by omega))]
    exact hc

/-! ## What the loops leave alone -/

/-- Everything but the slots, their count and the packet number state. -/
structure SameWindow (d d' : RxBaNodeDesc) : Prop where
  winStartInit : d'.winStartInit = d.winStartInit
  winStart : d'.winStart = d.winStart
  winLimit : d'.winLimit = d.winLimit
  winTail : d'.winTail = d.winTail
  winSize : d'.winSize = d.winSize
  indexMask : d'.indexMask = d.indexMask

theorem SameWindow.refl (d : RxBaNodeDesc) : SameWindow d d := ⟨rfl, rfl, rfl, rfl, rfl, rfl⟩

theorem SameWindow.trans {a b c : RxBaNodeDesc} (h : SameWindow a b) (h' : SameWindow b c) :
    SameWindow a c where
  winStartInit := h'.winStartInit.trans h.winStartInit
  winStart := h'.winStart.trans h.winStart
  winLimit := h'.winLimit.trans h.winLimit
  winTail := h'.winTail.trans h.winTail
  winSize := h'.winSize.trans h.winSize
  indexMask := h'.indexMask.trans h.indexMask

theorem SameWindow.withCount {d d' : RxBaNodeDesc} (h : SameWindow d d') (n : ℕ) :
    SameWindow d { d' with buffCnt := n } :=
  ⟨h.winStartInit, h.winStart, h.winLimit, h.winTail, h.winSize, h.indexMask⟩

/-- Replay detection only writes the packet number state. -/
theorem replayDetection_frame (b : RxBaPktDesc) (d : RxBaNodeDesc) :
    ∃ r l h, (replayDetection b d).2 = { d with resetPn := r, pnL := l, pnH := h } := by
  rw [replayDetection]
  split
  · split
    · exact ⟨false, b.pnL, b.pnH, rfl⟩
    · split
      · exact ⟨d.resetPn, b.pnL, b.pnH, rfl⟩
      · exact ⟨d.resetPn, d.pnL, d.pnH, rfl⟩
  · exact ⟨d.resetPn, d.pnL, d.pnH, rfl⟩

/-- The chain linked for position `q`. -/
def deliveryOf (sender : Sender) (acc : List (ℕ × Skb)) (q : ℕ) : Delivery :=
  ⟨sender, q % 4096, chainAt acc q⟩

/-- The deliveries between two states are groups of ascending positions in `[lo, hi)`. -/
def Released (sender : Sender) (acc : List (ℕ × Skb)) (lo hi : ℕ) (l l' : RxLists) : Prop :=
  ∃ qs, Ascending lo hi qs ∧ l'.delivered = l.delivered ++ qs.map (deliveryOf sender acc)

theorem Released.refl (sender : Sender) (acc : List (ℕ × Skb)) (lo hi : ℕ) (l : RxLists) :
    Released sender acc lo hi l l :=
  ⟨[], Ascending.nil lo hi, by simp⟩

theorem Released.trans {sender : Sender} {mid : ℕ} {a b c : RxLists}
    (h : Released sender acc lo mid a b) (h' : Released sender acc mid hi b c)
    (hlo : lo ≤ mid) (hhi : mid ≤ hi) : Released sender acc lo hi a c := by
  rcases h with ⟨qs, hqs, hb⟩
  rcases h' with ⟨rs, hrs, hc⟩
  refine ⟨qs ++ rs, hqs.append hrs hlo (Nat.le_refl _) hhi, ?_⟩
  rw [hc, hb, List.map_append, List.append_assoc]

theorem sendReorderSkb_spec (i : ℕ) (b : RxBaPkt) (s : RxState) :
    ∃ s', sendReorderSkb i b s = .ok s' ∧ SameWindow s.desc s'.desc ∧
      s'.desc.buffCnt = s.desc.buffCnt ∧
      s'.desc.reorderBuffer = s.desc.reorderBuffer.set i RxBaPkt.zero ∧
      (s'.lists.delivered = s.lists.delivered ∨
        s'.lists.delivered = s.lists.delivered ++ [⟨.sendReorderSkb, b.desc.seq, b.skbs⟩]) := by
  unfold sendReorderSkb
  split
  · exact ⟨_, rfl, ⟨rfl, rfl, rfl, rfl, rfl, rfl⟩, rfl, rfl, Or.inl rfl⟩
  · rename_i hne
    obtain ⟨r, l, h, hd⟩ := replayDetection_frame b.desc s.desc
    cases hr : replayDetection b.desc s.desc with
    | mk pass d =>
      rw [hr] at hd
      subst hd
      cases pass with
      | true =>
        simp only [reorderSetSkbList, if_neg hne, ok_map]
        exact ⟨_, rfl, ⟨rfl, rfl, rfl, rfl, rfl, rfl⟩, rfl, rfl, Or.inr rfl⟩
      | false => exact ⟨_, rfl, ⟨rfl, rfl, rfl, rfl, rfl, rfl⟩, rfl, rfl, Or.inl rfl⟩

/-- Releasing the slot at the base of the window. -/
theorem Window.release (h : Window k acc lo hi s.desc) {b : RxBaPkt}
    (hb : s.desc.reorderBuffer[lo % 2 ^ k]? = some b) (hne : b ≠ RxBaPkt.zero) :
    ∃ s', sendReorderSkb (lo % 2 ^ k) b s = .ok s' ∧ lo < hi ∧ SameWindow s.desc s'.desc ∧
      s'.desc.buffCnt = s.desc.buffCnt ∧
      Window k acc (lo + 1) hi { s'.desc with buffCnt := s.desc.buffCnt - 1 } ∧
      Released .sendReorderSkb acc lo (lo + 1) s.lists s'.lists := by
  obtain ⟨s', hs, hsame, hcnt, hbuf, hdel⟩ := sendReorderSkb_spec (lo % 2 ^ k) b s
  obtain ⟨hlt, hheld⟩ := h.held_at (Nat.le_refl lo) (by have := Nat.two_pow_pos k; omega) hb hne
  refine ⟨s', hs, hlt, hsame, hcnt, h.clear hb hne hsame.indexMask rfl hbuf, ?_⟩
  rcases hdel with hdel | hdel
  · exact ⟨[], Ascending.nil _ _, by simpa using hdel⟩
  · refine ⟨[lo], Ascending.singleton lo, ?_⟩
    rw [hdel, hheld.seq, hheld.chain]
    rfl

/-! ## The loops -/

theorem gapLoop_spec (n seq numFrms : ℕ) (h : Window k acc lo hi s.desc)
    (hseq : seq % 4096 = lo % 4096) :
    ∃ m s', gapLoop n seq numFrms s = .ok (m, s') ∧ SameWindow s.desc s'.desc ∧
      Window k acc (lo + n) hi s'.desc ∧
      Released .sendReorderSkb acc lo (lo + n) s.lists s'.lists := by
  induction n generalizing lo seq numFrms s with
  | zero => exact ⟨_, s, rfl, .refl _, h, .refl _ _ _ _ _⟩
  | succ n ih =>
    have hnext : ((seq + 1) % 65536) % 4096 = (lo + 1) % 4096 := by omega
    have hlen : lo + 1 + n = lo + (n + 1) := by omega
    obtain ⟨b, hb⟩ := h.slot lo
    rw [gapLoop, h.index hseq]
    by_cases hc : s.desc.buffCnt = 0
    · rw [if_pos hc]
      have hz : b = RxBaPkt.zero := occupied_eq_zero.mp (h.count.symm.trans hc) _ b hb
      obtain ⟨m, s', hs, hsame, hw, hrel⟩ := ih _ numFrms (h.pass (by rw [hb, hz])) hnext
      rw [hlen] at hw hrel
      exact ⟨m, s', hs, hsame, hw,
        (Released.refl _ _ lo (lo + 1) _).trans hrel (by omega) (by omega)⟩
    · rw [if_neg hc, pkt_eq_ok hb, ok_bind]
      by_cases hm : b.desc.msduNum = 0
      · rw [if_pos hm]
        have hz : b = RxBaPkt.zero := (h.counted hb).resolve_right (by simp [hm])
        obtain ⟨m, s', hs, hsame, hw, hrel⟩ := ih _ numFrms (h.pass (by rw [hb, hz])) hnext
        rw [hlen] at hw hrel
        exact ⟨m, s', hs, hsame, hw,
          (Released.refl _ _ lo (lo + 1) _).trans hrel (by omega) (by omega)⟩
      · rw [if_neg hm]
        have hne : b ≠ RxBaPkt.zero := by
          rintro rfl
          exact hm rfl
        obtain ⟨t, ht, _, hsame, hcnt, hwin, hrel⟩ := h.release hb hne
        rw [ht, ok_bind, hcnt]
        obtain ⟨m, s', hs, hsame', hw, hrel'⟩ := ih _ ((numFrms + 1) % 65536)
          (s := { t with desc := { t.desc with buffCnt := s.desc.buffCnt - 1 } }) hwin hnext
        rw [hlen] at hw hrel'
        exact ⟨m, s', hs, (hsame.withCount _).trans hsame', hw,
          hrel.trans hrel' (by omega) (by omega)⟩

theorem inOrderLoop_spec (n seq : ℕ) (h : Window k acc lo hi s.desc)
    (hn : s.desc.buffCnt = n) (hseq : seq % 4096 = lo % 4096) :
    ∃ seq' s' lo', inOrderLoop n seq s = .ok (seq', s') ∧ lo ≤ lo' ∧ lo' ≤ max lo hi ∧
      seq' % 4096 = lo' % 4096 ∧ SameWindow s.desc s'.desc ∧ Window k acc lo' hi s'.desc ∧
      Released .sendReorderSkb acc lo lo' s.lists s'.lists := by
  induction n generalizing lo seq s with
  | zero =>
    exact ⟨seq, s, lo, rfl, le_refl _, le_max_left _ _, hseq, .refl _, h, .refl _ _ _ _ _⟩
  | succ n ih =>
    obtain ⟨b, hb⟩ := h.slot lo
    rw [inOrderLoop, h.index hseq, pkt_eq_ok hb, ok_bind]
    by_cases hl : b.desc.last = true
    · rw [if_pos hl]
      have hne : b ≠ RxBaPkt.zero := by
        rintro rfl
        cases hl
      obtain ⟨t, ht, hlt, hsame, _, hwin, hrel⟩ := h.release hb hne
      rw [ht, ok_bind]
      have hn' : s.desc.buffCnt - 1 = n := by omega
      rw [hn'] at hwin
      obtain ⟨seq', s', lo', hs, hle, hmax, hseq', hsame', hw, hrel'⟩ := ih
        ((seq + 1) % 65536) (s := { t with desc := { t.desc with buffCnt := n } })
        hwin rfl (by omega)
      refine ⟨seq', s', lo', hs, by omega, ?_, hseq', (hsame.withCount _).trans hsame', hw,
        hrel.trans hrel' (by omega) hle⟩
      rw [max_eq_right (by omega)] at hmax ⊢
      exact hmax
    · rw [if_neg hl]
      exact ⟨seq, s, lo, rfl, le_refl _, le_max_left _ _, hseq, .refl _, h, .refl _ _ _ _ _⟩

/-! ## Moving the window -/

/-- The window of a node between two calls: its positions, of which `[p, hi)` may be
held, are the `win_size` ones from `win_start` on. -/
structure Settled (k w : ℕ) (acc : List (ℕ × Skb)) (p hi : ℕ) (d : RxBaNodeDesc) : Prop where
  window : Window k acc p hi d
  winStart : d.winStart = p % 4096
  winSize : d.winSize = w
  winLimit : d.winLimit = (p + w - 1) % 4096
  reach : hi ≤ p + w
  sizePos : 1 ≤ w
  sizeLe : w ≤ 2048
  fits : w ≤ 2 ^ k

theorem Settled.rest (h : Settled k w acc p hi d) : Settled k w acc p (p + w) d :=
  { h with
    window := h.window.widen h.reach (by have := h.fits; omega)
    reach := Nat.le_refl _ }

/-- `win_start` and `win_limit` after a release that ended at position `p`. -/
structure Placed (w p : ℕ) (d d' : RxBaNodeDesc) : Prop where
  winStartInit : d'.winStartInit = d.winStartInit
  winStart : d'.winStart = p % 4096
  winLimit : d'.winLimit = (p + w - 1) % 4096
  winSize : d'.winSize = d.winSize

theorem Placed.settled {p' hi' : ℕ} {d' : RxBaNodeDesc} (hp : Placed w p' d d')
    (hw : Window k acc p' hi' d') (hle : hi' ≤ p' + w) (h : Settled k w acc p hi d) :
    Settled k w acc p' hi' d' where
  window := hw
  winStart := hp.winStart
  winSize := hp.winSize.trans h.winSize
  winLimit := hp.winLimit
  reach := hle
  sizePos := h.sizePos
  sizeLe := h.sizeLe
  fits := h.fits

theorem sendMsduInOrder_spec (h : Window k acc p hi s.desc) (hstart : s.desc.winStart = p % 4096) :
    ∃ s' p', sendMsduInOrder s = .ok (p' % 4096, s') ∧ p ≤ p' ∧ p' ≤ max p hi ∧
      SameWindow s.desc s'.desc ∧ Window k acc p' hi s'.desc ∧
      Released .sendReorderSkb acc p p' s.lists s'.lists := by
  obtain ⟨seq', s', p', hs, hle, hmax, hseq, hsame, hw, hrel⟩ :=
    inOrderLoop_spec s.desc.buffCnt s.desc.winStart h rfl (by rw [hstart]; omega)
  refine ⟨s', p', ?_, hle, hmax, hsame, hw, hrel⟩
  have hmask : seq' &&& 0xfff = p' % 4096 := by
    rw [land_indexMask (k := 12) rfl]
    exact hseq
  rw [sendMsduInOrder, hs, ok_map, hmask]

theorem betweenSeqloSeqhi_spec (h : Window k acc p hi s.desc)
    (hstart : s.desc.winStart = p % 4096) (hsize : s.desc.winSize = w) (hpos : 1 ≤ w) :
    ∃ s' p', betweenSeqloSeqhi s = .ok s' ∧ p ≤ p' ∧ p' ≤ max p hi ∧
      Placed w p' s.desc s'.desc ∧ Window k acc p' hi s'.desc ∧
      Released .sendReorderSkb acc p p' s.lists s'.lists := by
  obtain ⟨s', p', hs, hle, hmax, hsame, hw, hrel⟩ := sendMsduInOrder_spec h hstart
  rw [betweenSeqloSeqhi, hs, ok_map]
  refine ⟨_, p', rfl, hle, hmax, ⟨hsame.winStartInit, rfl, ?_, hsame.winSize⟩,
    hw.congr rfl rfl rfl, hrel⟩
  simp only [hsame.winSize, hsize, seqnoAdd]
  omega

theorem Settled.between (h : Settled k w acc p hi s.desc) :
    ∃ s' p', betweenSeqloSeqhi s = .ok s' ∧ p ≤ p' ∧ p' ≤ max p hi ∧
      s'.desc.winStartInit = s.desc.winStartInit ∧ Settled k w acc p' hi s'.desc ∧
      Released .sendReorderSkb acc p p' s.lists s'.lists := by
  obtain ⟨s', p', hs, hle, hmax, hpl, hw, hrel⟩ :=
    betweenSeqloSeqhi_spec h.window h.winStart h.winSize h.sizePos
  have hreach := h.reach
  exact ⟨s', p', hs, hle, hmax, hpl.winStartInit, hpl.settled hw (by omega) h, hrel⟩

/-- Moving the window to the position `q`. -/
theorem Settled.move (h : Settled k w acc p hi s.desc) {q : ℕ} (hq : p ≤ q)
    (hq' : q < p + 4096) :
    ∃ s' p', moveWindow (q % 4096) s = .ok s' ∧ q ≤ p' ∧ p' ≤ max q hi ∧
      s'.desc.winStartInit = s.desc.winStartInit ∧ Settled k w acc p' hi s'.desc ∧
      Released .sendReorderSkb acc p p' s.lists s'.lists := by
  have hnum : seqnoSub (q % 4096 : ℕ) s.desc.winStart = q - p := by
    rw [h.winStart]
    exact seqnoSub_position hq hq'
  obtain ⟨m, t, ht, hsame, hw, hrel⟩ := gapLoop_spec (q - p) s.desc.winStart 0
    h.window (by rw [h.winStart]; omega)
  have hpq : p + (q - p) = q := by omega
  rw [hpq] at hw hrel
  obtain ⟨s', p', hs, hle, hmax, hpl, hw', hrel'⟩ :=
    betweenSeqloSeqhi_spec (w := w) (s := { t with desc := { t.desc with winStart := q % 4096 } })
      (hw.congr rfl rfl rfl) rfl (hsame.winSize.trans h.winSize) h.sizePos
  have hplaced : Placed w p' s.desc s'.desc :=
    ⟨hpl.winStartInit.trans hsame.winStartInit, hpl.winStart, hpl.winLimit,
      hpl.winSize.trans hsame.winSize⟩
  have hreach := h.reach
  refine ⟨s', p', ?_, hle, hmax, hplaced.winStartInit, hplaced.settled hw' (by omega) h,
    hrel.trans hrel' hq hle⟩
  rw [moveWindow, sendMsduWithGap, hnum, ht, ok_bind]
  exact hs

end Uwe5631.Reorder
