import Uwe5631.ReorderWindowInvariant

/-!
# The reorder timeout

`win_tail` follows the last number that was buffered, by comparison modulo 4096. As long
as no frame is taken so far ahead of it that the comparison turns round, everything
buffered lies between `win_start` and `win_tail`, and a timeout releases some of it.
-/
namespace Uwe5631.Reorder
open FallibleRuns RingWindow OrderedDelivery

variable {k w lo hi p q u : ℕ} {acc : List (ℕ × Skb)} {s : RxState} {d : RxBaNodeDesc}
  {m : RxMsduDesc} {skb : Option Skb}

/-! ## What leaves `win_tail` alone -/

theorem sendReorderSkb_same {i : ℕ} {b : RxBaPkt} {t : RxState} (h : sendReorderSkb i b s = .ok t) :
    SameWindow s.desc t.desc ∧ t.desc.reorderBuffer = s.desc.reorderBuffer.set i RxBaPkt.zero := by
  obtain ⟨s', hs, hsame, _, hbuf, _⟩ := sendReorderSkb_spec i b s
  rw [hs] at h
  cases h
  exact ⟨hsame, hbuf⟩

theorem betweenSeqloSeqhi_winTail {t : RxState} (h : Window k acc p hi s.desc)
    (hstart : s.desc.winStart = p % 4096) (hr : betweenSeqloSeqhi s = .ok t) :
    t.desc.winTail = s.desc.winTail := by
  obtain ⟨s', p', hs, _, _, hsame, _, _⟩ := sendMsduInOrder_spec h hstart
  rw [betweenSeqloSeqhi, hs, ok_map] at hr
  cases hr
  exact hsame.winTail

theorem moveWindow_winTail {t : RxState} (h : Settled k w acc p hi s.desc) (hq : p ≤ q)
    (hq' : q < p + 4096) (hr : moveWindow (q % 4096) s = .ok t) :
    t.desc.winTail = s.desc.winTail := by
  have hnum : seqnoSub (q % 4096 : ℕ) s.desc.winStart = q - p := by
    rw [h.winStart]
    exact seqnoSub_position hq hq'
  obtain ⟨n, r, hgap, hsame, hw, _⟩ := gapLoop_spec (q - p) s.desc.winStart 0
    h.window (by rw [h.winStart]; omega)
  have hpq : p + (q - p) = q := by omega
  rw [hpq] at hw
  rw [moveWindow, sendMsduWithGap, hnum, hgap, ok_bind] at hr
  exact (betweenSeqloSeqhi_winTail (p := q)
    (s := { r with desc := { r.desc with winStart := q % 4096 } })
    (hw.congr rfl rfl rfl) rfl hr).trans hsame.winTail

/-- The loop over the gap does not reach the slots behind it. -/
theorem gapLoop_slot {n seq numFrms : ℕ} (h : Window k acc lo hi s.desc)
    (hseq : seq % 4096 = lo % 4096) {r : ℕ × RxState} (hr : gapLoop n seq numFrms s = .ok r)
    (hq : lo + n ≤ q) (hq' : q < lo + 2 ^ k) :
    r.2.desc.reorderBuffer[q % 2 ^ k]? = s.desc.reorderBuffer[q % 2 ^ k]? := by
  induction n generalizing lo seq numFrms s with
  | zero =>
    cases hr
    rfl
  | succ n ih =>
    have hnext : ((seq + 1) % 65536) % 4096 = (lo + 1) % 4096 := by omega
    obtain ⟨b, hb⟩ := h.slot lo
    rw [gapLoop, h.index hseq] at hr
    by_cases hc : s.desc.buffCnt = 0
    · rw [if_pos hc] at hr
      have hz : b = RxBaPkt.zero := occupied_eq_zero.mp (h.count.symm.trans hc) _ b hb
      exact ih (h.pass (by rw [hb, hz])) hnext hr (by omega) (by omega)
    · rw [if_neg hc, pkt_eq_ok hb, ok_bind] at hr
      by_cases hm : b.desc.msduNum = 0
      · rw [if_pos hm] at hr
        have hz : b = RxBaPkt.zero := (h.counted hb).resolve_right (by simp [hm])
        exact ih (h.pass (by rw [hb, hz])) hnext hr (by omega) (by omega)
      · rw [if_neg hm] at hr
        have hne : b ≠ RxBaPkt.zero := by
          rintro rfl
          exact hm rfl
        obtain ⟨t, ht, _, _, hcnt, hwin, _⟩ := h.release hb hne
        rw [ht, ok_bind, hcnt] at hr
        have hother : lo % 2 ^ k ≠ q % 2 ^ k := fun heq => by
          have := position_unique (Nat.le_refl lo) (by omega) (by omega) hq' heq
          omega
        refine (ih (s := { t with desc := { t.desc with buffCnt := s.desc.buffCnt - 1 } })
          hwin hnext hr (by omega) (by omega)).trans ?_
        change t.desc.reorderBuffer[q % 2 ^ k]? = _
        rw [(sendReorderSkb_same ht).2, List.getElem?_set_ne hother]

/-- A complete MPDU at the new start of the window goes out. -/
theorem moveWindow_last (h : Settled k w acc p hi s.desc) (hq : p ≤ q) (hqhi : q < hi) {b : RxBaPkt}
    (hb : s.desc.reorderBuffer[q % 2 ^ k]? = some b) (hlast : b.desc.last = true) :
    ∃ t lo', moveWindow (q % 4096) s = .ok t ∧ q + 1 ≤ lo' ∧ lo' ≤ hi ∧
      t.desc.winStart = lo' % 4096 := by
  have hreach := h.reach
  have hfits := h.fits
  have hsize := h.sizeLe
  have hnum : seqnoSub (q % 4096 : ℕ) s.desc.winStart = q - p := by
    rw [h.winStart]
    exact seqnoSub_position hq (by omega)
  obtain ⟨n, r, hgap, hsame, hw, _⟩ := gapLoop_spec (q - p) s.desc.winStart 0
    h.window (by rw [h.winStart]; omega)
  have hslot : r.desc.reorderBuffer[q % 2 ^ k]? = some b :=
    (gapLoop_slot h.window (by rw [h.winStart]; omega) hgap (by omega) (by omega)).trans hb
  have hne : b ≠ RxBaPkt.zero := by
    rintro rfl
    cases hlast
  have hpq : p + (q - p) = q := by omega
  rw [hpq] at hw
  obtain ⟨n', hn'⟩ : ∃ n', r.desc.buffCnt = n' + 1 :=
    Nat.exists_eq_succ_of_ne_zero (by rw [hw.count]; exact (occupied_pos hslot hne).ne')
  obtain ⟨t, ht, _, _, _, hwin, _⟩ := Window.release
    (s := { r with desc := { r.desc with winStart := q % 4096 } }) (hw.congr rfl rfl rfl) hslot hne
  have hcnt : ({ r.desc with winStart := q % 4096 } : RxBaNodeDesc).buffCnt - 1 = n' := by
    change r.desc.buffCnt - 1 = n'
    omega
  rw [hcnt] at hwin
  obtain ⟨seq', s', lo', hs, hle, hmax, hseq', _, _, _⟩ := inOrderLoop_spec n'
    ((q % 4096 + 1) % 65536) (s := { t with desc := { t.desc with buffCnt := n' } }) hwin rfl
    (by omega)
  have hindex : q % 4096 &&& r.desc.indexMask = q % 2 ^ k := hw.index (by omega)
  have horder (c : ℕ) (hc : c = n' + 1) : inOrderLoop c (q % 4096)
      { r with desc := { r.desc with winStart := q % 4096 } } = .ok (seq', s') := by
    rw [hc, inOrderLoop]
    dsimp only
    rw [hindex, pkt_eq_ok (d := { r.desc with winStart := q % 4096 }) hslot, ok_bind, if_pos hlast,
      ht, ok_bind]
    exact hs
  have hmask : seq' &&& 0xfff = lo' % 4096 := by
    rw [land_indexMask (k := 12) (by norm_num), ← hseq']
    norm_num
  have hsend : sendMsduInOrder { r with desc := { r.desc with winStart := q % 4096 } } =
      .ok (lo' % 4096, s') := by
    rw [sendMsduInOrder]
    dsimp only
    rw [horder _ hn', ok_map, hmask]
  have hmove : moveWindow (q % 4096) s = .ok { s' with
      desc := { s'.desc with
        winStart := lo' % 4096
        winLimit := seqnoAdd (lo' % 4096 : ℕ) ((s'.desc.winSize : ℤ) - 1) } } := by
    rw [moveWindow, sendMsduWithGap, hnum, hgap, ok_bind, betweenSeqloSeqhi, hsend, ok_map]
  exact ⟨_, lo', hmove, hle, by omega, rfl⟩

/-! ## The tail of the window -/

/-- Everything held lies before the position `u`, and `win_tail` is the number before it. -/
structure Tailed (k w : ℕ) (acc : List (ℕ × Skb)) (p u : ℕ) (d : RxBaNodeDesc) : Prop
    extends Settled k w acc p u d where
  tail : d.winTail = (u + 4095) % 4096

/-- Some window ends with `win_tail`. -/
def TailFollows (k w : ℕ) (d : RxBaNodeDesc) : Prop :=
  ∃ acc p u, p ≤ u ∧ Tailed k w acc p u d

theorem Tailed.tail_next (h : Tailed k w acc p u d) (hpu : p ≤ u) :
    seqnoSub (seqnoAdd d.winTail 1 : ℕ) d.winStart = u - p := by
  have hreach := h.reach
  have hsize := h.sizeLe
  have hnext : seqnoAdd d.winTail 1 = u % 4096 := by
    rw [h.tail, seqnoAdd]
    omega
  rw [hnext, h.winStart]
  exact seqnoSub_position hpu (by omega)

theorem TailFollows.congr {d' : RxBaNodeDesc} (h : TailFollows k w d)
    (hstart : d'.winStart = d.winStart) (hlimit : d'.winLimit = d.winLimit)
    (htail : d'.winTail = d.winTail) (hsize : d'.winSize = d.winSize)
    (hmask : d'.indexMask = d.indexMask) (hbuf : d'.reorderBuffer = d.reorderBuffer)
    (hcnt : d'.buffCnt = d.buffCnt) : TailFollows k w d' := by
  obtain ⟨acc, p, u, hpu, h⟩ := h
  exact ⟨acc, p, u, hpu, { h with
    window := h.window.congr hmask hbuf hcnt
    winStart := hstart.trans h.winStart
    winSize := hsize.trans h.winSize
    winLimit := hlimit.trans h.winLimit
    tail := htail.trans h.tail }⟩

theorem betweenSeqloSeqhi_tail (h : Tailed k w acc p u s.desc) (hpu : p ≤ u) :
    ∃ s', betweenSeqloSeqhi s = .ok s' ∧ TailFollows k w s'.desc := by
  obtain ⟨s', p', hs, hle, hmax, _, hset, _⟩ := h.toSettled.between
  have htail := betweenSeqloSeqhi_winTail h.window h.winStart hs
  exact ⟨s', hs, acc, p', u, by omega, { hset with tail := htail.trans h.tail }⟩

/-- A frame that is new to its slot is taken. -/
theorem insertMsdu_empty (skb : Option Skb)
    (hz : d.reorderBuffer[(m.seqNum : ℕ) &&& d.indexMask]? = some RxBaPkt.zero) :
    ∃ d', insertMsdu m skb d = .ok (0, d') := by
  rw [insertMsdu, pkt_eq_ok hz, ok_map, if_neg (by simp [RxBaPkt.zero])]
  exact ⟨_, rfl⟩

/-- The comparison with `win_tail` is right for a frame at position `q`. -/
def TailKnows (m : RxMsduDesc) (d : RxBaNodeDesc) (u q : ℕ) : Prop :=
  u ≤ q → seqnoGeq m.seqNum d.winTail = true

/-- What `reorder_msdu` does once the window reaches the frame: a frame that is taken moves
`win_tail` if it lies behind it. -/
theorem insertFrame_tail (skb : Option Skb) (h : Settled k w acc p u s.desc)
    (htail : s.desc.winTail = (u + 4095) % 4096)
    (hlo : p ≤ q) (hhi : q < p + w) (hseq : (m.seqNum : ℕ) = q % 4096)
    (hfull : ¬ JoinsFullSlot s.desc m) (hknows : TailKnows m s.desc u q)
    (hpu : p ≤ u ∨ s.desc.reorderBuffer[q % 2 ^ k]? = some RxBaPkt.zero) :
    ∃ ret s', insertFrame m skb s = .ok (ret, s') ∧ TailFollows k w s'.desc := by
  have hreach := h.reach
  have hfits := h.fits
  have hsize := h.sizeLe
  have hidx : (m.seqNum : ℕ) &&& s.desc.indexMask = q % 2 ^ k := h.window.index (by omega)
  obtain ⟨ret, d', hins, hsame, hres⟩ := insertMsdu_spec skb
    (h.window.widen (le_max_left u (q + 1)) (by omega)) hlo (by omega) hseq hfull
  rw [insertFrame, hins, ok_map]
  refine ⟨ret, _, rfl, ?_⟩
  rw [dropIfFailed_desc]
  rcases hres with ⟨rfl, hwin⟩ | ⟨rfl, rfl⟩
  · -- taken
    have hset : Settled k w (acc ++ entered q skb) p (max u (q + 1)) (noteTail 0 m d') :=
      Settled.noteTail { h with
        window := hwin
        winStart := hsame.winStart.trans h.winStart
        winSize := hsame.winSize.trans h.winSize
        winLimit := hsame.winLimit.trans h.winLimit
        reach := by omega } 0 m
    refine ⟨_, p, max u (q + 1), by omega, { hset with tail := ?_ }⟩
    rw [noteTail, hsame.winTail, htail]
    by_cases hbehind : u ≤ q
    · have hgeq := hknows hbehind
      rw [htail] at hgeq
      rw [if_pos (by simp [hgeq])]
      change (m.seqNum : ℕ) = _
      rw [hseq, max_eq_right (by omega)]
      omega
    · rw [max_eq_left (by omega)]
      split
      · rename_i hgeq
        have hgeq' : seqnoGeq m.seqNum ((u + 4095) % 4096) = true := by
          simpa using hgeq
        have hlast : q + 1 = u := by
          by_contra hne
          have hold := not_seqnoGeq_of_behind (q := q) (p := u - 1) (by omega) (by omega)
          have hmod : (u - 1) % 4096 = (u + 4095) % 4096 := by omega
          rw [hmod, ← hseq, hgeq'] at hold
          cases hold
        change (m.seqNum : ℕ) = _
        rw [hseq]
        omega
      · exact hsame.winTail.trans htail
  · -- refused, so the slot was in use
    have hpu' : p ≤ u := by
      rcases hpu with hpu | hz
      · exact hpu
      · obtain ⟨d', hok⟩ := insertMsdu_empty (m := m) (d := s.desc) skb (by rw [hidx]; exact hz)
        rw [hok] at hins
        cases hins
    refine ⟨acc, p, u, hpu', { h.noteTail (-EINVAL) m with tail := ?_ }⟩
    rw [noteTail, if_neg (by simp [EINVAL])]
    exact htail

/-- A frame at or after `win_start` that lies behind `win_tail`, counted from `win_start`, is
found to do so by `seqno_geq`. -/
def TailFits (s : Session) (e : Event) : Prop :=
  ∀ m, e.frame = some m → s.node.active = true → inSequence m s.node.rxBa = false →
    seqnoGeq m.seqNum s.node.rxBa.winStart = true →
    seqnoSub (seqnoAdd s.node.rxBa.winTail 1 : ℕ) s.node.rxBa.winStart ≤
      seqnoSub (m.seqNum : ℕ) s.node.rxBa.winStart →
    seqnoGeq m.seqNum s.node.rxBa.winTail = true

instance (s : Session) (e : Event) : Decidable (TailFits s e) :=
  match h : e.frame with
  | some m => decidable_of_iff (s.node.active = true → inSequence m s.node.rxBa = false →
      seqnoGeq m.seqNum s.node.rxBa.winStart = true →
      seqnoSub (seqnoAdd s.node.rxBa.winTail 1 : ℕ) s.node.rxBa.winStart ≤
        seqnoSub (m.seqNum : ℕ) s.node.rxBa.winStart →
      seqnoGeq m.seqNum s.node.rxBa.winTail = true) (by simp [TailFits, h])
  | none => isTrue (by simp [TailFits, h])

theorem reorderMsdu_tail {r : ℤ × RxState} (h : Tailed k w acc p u s.desc) (hpu : p ≤ u)
    (hfull : ¬ JoinsFullSlot s.desc m)
    (hfits : seqnoGeq m.seqNum s.desc.winStart = true →
      seqnoSub (seqnoAdd s.desc.winTail 1 : ℕ) s.desc.winStart ≤
        seqnoSub (m.seqNum : ℕ) s.desc.winStart → seqnoGeq m.seqNum s.desc.winTail = true)
    (hr : reorderMsdu m skb s = .ok r) : TailFollows k w r.2.desc := by
  have hsame : TailFollows k w s.desc := ⟨acc, p, u, hpu, h⟩
  rw [reorderMsdu] at hr
  by_cases hge : seqnoGeq m.seqNum s.desc.winStart = true
  · have hm := m.seqNum.isLt
    have hnext := hfits hge
    rw [h.tail_next hpu] at hnext
    generalize hq : p + seqnoSub (m.seqNum : ℕ) s.desc.winStart = q
    have hknows : TailKnows m s.desc u q := fun hbehind => hnext (by omega)
    rw [h.winStart] at hge hq
    have hseq : (m.seqNum : ℕ) = q % 4096 := by
      rw [← hq, position_of_seqno p hm]
    have hbound := seqnoSub_le_of_geq hm hge
    have hin := seqnoLeq_limit hm h.sizePos h.sizeLe hge
    have hreach := h.reach
    have hfit := h.fits
    have hsize := h.sizeLe
    have hpos := h.sizePos
    rw [h.winStart, if_pos hge, h.winLimit] at hr
    by_cases hle : seqnoLeq (m.seqNum : ℕ) ((p + w - 1) % 4096) = true
    · have hlt := hin.mp hle
      obtain ⟨ret, s', hs, hfollows⟩ := insertFrame_tail skb h.toSettled.leaveInitMode
        h.tail (q := q) (by omega) (by omega) hseq hfull hknows (.inl hpu)
      rw [if_pos hle, ok_bind, hs] at hr
      cases hr
      exact hfollows
    · have hge' : w ≤ seqnoSub (m.seqNum : ℕ) (p % 4096 : ℕ) := by
        by_contra hlt
        exact hle (hin.mpr (by omega))
      have hstart : seqnoSub (m.seqNum : ℕ) ((s.leaveInitMode.desc.winSize : ℤ) - 1) =
          (q + 1 - w) % 4096 := by
        rw [h.toSettled.leaveInitMode.winSize, seqnoSub]
        omega
      obtain ⟨t, p', ht, hle', hmax, _, hset, _⟩ :=
        h.toSettled.leaveInitMode.move (q := q + 1 - w) (by omega) (by omega)
      have htail : t.desc.winTail = s.desc.winTail :=
        moveWindow_winTail (s := s.leaveInitMode) (q := q + 1 - w) h.toSettled.leaveInitMode
          (by omega) (by omega) ht
      have hpq : p' ≤ q := by omega
      have hempty : t.desc.reorderBuffer[q % 2 ^ k]? = some RxBaPkt.zero := by
        obtain ⟨b, hb⟩ := hset.window.slot q
        by_cases hz : b = RxBaPkt.zero
        · rw [hb, hz]
        · have := (hset.window.held_at hpq (by omega) hb hz).1
          omega
      obtain ⟨ret, s', hs, hfollows⟩ := insertFrame_tail skb hset (htail.trans h.tail) hpq
        (by omega) hseq (hset.window.not_joinsFullSlot hpq (by omega) (by omega) hseq)
        (fun hbehind => by rw [htail]; exact hknows hbehind) (.inr hempty)
      rw [if_neg hle, greaterThanSeqhi, hstart, ht, ok_bind, hs] at hr
      cases hr
      exact hfollows
  · rw [if_neg hge] at hr
    split at hr
    · obtain ⟨l, _, rfl⟩ := map_eq_ok.mp hr
      exact hsame
    · cases hr
      rw [dropIfFailed_desc]
      exact hsame

theorem afterReorderMsdu_tail {t t' : Session} {old : ℕ} {ret : ℤ} (h : TailFollows k w t.node.rxBa)
    (hr : afterReorderMsdu m old ret t = .ok t') : TailFollows k w t'.node.rxBa := by
  rw [afterReorderMsdu] at hr
  split at hr
  · split at hr
    · obtain ⟨r, hbetween, rfl⟩ := map_eq_ok.mp hr
      obtain ⟨acc, p, u, hpu, htailed⟩ := h
      obtain ⟨s', hs', hfollows⟩ := betweenSeqloSeqhi_tail (s := t.rx) htailed hpu
      obtain rfl := Except.ok.inj (hs'.symm.trans hbetween)
      simpa [Session.withRx, Session.mapNode] using hfollows
    · split at hr
      · cases hr
        simpa [Session.mapNode] using h
      · cases hr
        exact h
  · split at hr <;>
    · cases hr
      exact h

/-- With nothing buffered the window may end where it starts. -/
theorem Window.shrink (h : Window k acc lo hi d) (hcnt : d.buffCnt = 0) : Window k acc lo lo d := by
  have hzero := occupied_eq_zero.mp (h.count.symm.trans hcnt)
  refine ⟨h.kLe, h.mask, h.length, ⟨Nat.le_add_right _ _, fun i b hb => .inl (hzero i b hb)⟩,
    h.count, fun e he hle => ?_⟩
  obtain ⟨_, b, hb, hne⟩ := h.complete e he hle
  exact absurd (hzero _ b hb) hne

theorem sendOrderMsdu_frame {t : RxState} (hr : sendOrderMsdu m skb s = .ok t) :
    t.desc.winTail = seqnoSub (seqnoAdd s.desc.winStart 1 : ℕ) 1 ∧
      t.desc.buffCnt = s.desc.buffCnt := by
  unfold sendOrderMsdu at hr
  cases skb with
  | none =>
    cases hr
    exact ⟨rfl, rfl⟩
  | some x =>
    dsimp only at hr
    obtain ⟨r, l, h', hframe⟩ := replayDetection_frame (setBaPktDesc RxBaPkt.zero.desc m)
      { s.desc with
        winStart := seqnoAdd s.desc.winStart 1
        winLimit := seqnoAdd s.desc.winLimit 1
        winTail := seqnoSub (seqnoAdd s.desc.winStart 1 : ℕ) 1 }
    split at hr
    · rename_i d' hd'
      rw [hd'] at hframe
      obtain ⟨l', _, rfl⟩ := map_eq_ok.mp hr
      dsimp only at hframe ⊢
      rw [hframe]
      exact ⟨rfl, rfl⟩
    · rename_i d' hd'
      rw [hd'] at hframe
      cases hr
      dsimp only at hframe ⊢
      rw [hframe]
      exact ⟨rfl, rfl⟩

theorem sendOrderMsdu_tail {t : RxState} (h : TailFollows k w s.desc)
    (hseq : inSequence m s.desc = true) (hr : sendOrderMsdu m skb s = .ok t) :
    TailFollows k w t.desc := by
  obtain ⟨acc, p, u, hpu, htailed⟩ := h
  obtain ⟨s', hs', hset, _⟩ := sendOrderMsdu_spec (m := m) skb htailed.toSettled.rest hseq
  obtain ⟨htail, hcnt⟩ := sendOrderMsdu_frame hr
  obtain rfl := Except.ok.inj (hs'.symm.trans hr)
  have hzero : s'.desc.buffCnt = 0 := by
    simp only [inSequence, Bool.and_eq_true, decide_eq_true_eq] at hseq
    exact hcnt.trans hseq.1.2
  refine ⟨acc ++ entered p skb, p + 1, p + 1, Nat.le_refl _, { hset with
    window := hset.window.shrink hzero
    reach := Nat.le_add_right _ _
    tail := ?_ }⟩
  rw [htail, htailed.winStart, seqnoAdd, seqnoSub]
  omega

theorem reorderMsduProcess_tail {s s' : Session} (h : TailFollows k w s.node.rxBa) (skb : Option Skb)
    (hfull : s.node.active = true → ¬ JoinsFullSlot s.node.rxBa m)
    (hfits : s.node.active = true → inSequence m s.node.rxBa = false →
      seqnoGeq m.seqNum s.node.rxBa.winStart = true →
      seqnoSub (seqnoAdd s.node.rxBa.winTail 1 : ℕ) s.node.rxBa.winStart ≤
        seqnoSub (m.seqNum : ℕ) s.node.rxBa.winStart →
      seqnoGeq m.seqNum s.node.rxBa.winTail = true)
    (hr : reorderMsduProcess m skb s = .ok s') : TailFollows k w s'.node.rxBa := by
  rw [reorderMsduProcess] at hr
  by_cases hact : s.node.active = true
  · rw [if_pos hact] at hr
    by_cases hin : inSequence m s.node.rxBa = true
    · rw [if_pos hin] at hr
      obtain ⟨r, hsend, rfl⟩ := map_eq_ok.mp hr
      exact sendOrderMsdu_tail (s := s.rx.leaveInitMode) (h.congr rfl rfl rfl rfl rfl rfl rfl) hin
        hsend
    · rw [if_neg hin] at hr
      obtain ⟨r, hreorder, hafter⟩ := bind_eq_ok.mp hr
      obtain ⟨acc, p, u, hpu, htailed⟩ := h
      exact afterReorderMsdu_tail (t := s.withRx r.2)
        (reorderMsdu_tail (s := s.rx) htailed hpu (hfull hact)
          (hfits hact (Bool.eq_false_iff.mpr hin)) hreorder) hafter
  · rw [if_neg hact] at hr
    obtain ⟨l, _, rfl⟩ := map_eq_ok.mp hr
    exact h

/-! ## The timeout -/

/-- From a position of the window on, the loop stops at the first complete MPDU, or behind
`win_tail` when there is none. -/
theorem firstSeqnoLoop_tail (h : Tailed k w acc p u d) {n x : ℕ} (hx : p ≤ x) (hxu : x ≤ u)
    (hn : u - x < n) :
    ∃ r, firstSeqnoLoop d n (x % 4096) = .ok (r % 4096) ∧ x ≤ r ∧ r ≤ u ∧
      (∀ y, x ≤ y → y < r → ∀ b, d.reorderBuffer[y % 2 ^ k]? = some b → b.desc.last = false) ∧
      (r < u → ∃ b, d.reorderBuffer[r % 2 ^ k]? = some b ∧ b.desc.last = true) := by
  have hreach := h.reach
  have hsize := h.sizeLe
  induction n generalizing x with
  | zero => omega
  | succ n ih =>
    rw [firstSeqnoLoop, h.tail]
    by_cases hend : x = u
    · subst hend
      have hbehind : ¬ seqnoLeq (x % 4096) ((x + 4095) % 4096) = true := by
        simp only [seqnoLeq, decide_eq_true_eq]
        omega
      rw [if_neg hbehind]
      exact ⟨x, rfl, Nat.le_refl _, Nat.le_refl _, fun y hy hyx => absurd hyx (by omega),
        fun hlt => absurd hlt (Nat.lt_irrefl _)⟩
    · have hbefore : seqnoLeq (x % 4096) ((u + 4095) % 4096) = true := by
        simp only [seqnoLeq, decide_eq_true_eq]
        omega
      obtain ⟨b, hb⟩ := h.window.slot x
      rw [if_pos hbefore, h.window.index (q := x) (by omega), pkt_eq_ok hb, ok_bind]
      by_cases hlast : b.desc.last = true
      · rw [if_pos hlast]
        exact ⟨x, rfl, Nat.le_refl _, hxu, fun y hy hyx => absurd hyx (by omega),
          fun _ => ⟨b, hb, hlast⟩⟩
      · have hadd : seqnoAdd (x % 4096 : ℕ) 1 = (x + 1) % 4096 := by
          rw [seqnoAdd]
          omega
        rw [if_neg hlast, hadd]
        obtain ⟨r, hr, hle, hru, hnone, hsome⟩ := ih (x := x + 1) (by omega) (by omega) (by omega)
        refine ⟨r, hr, by omega, hru, fun y hy hyr c hc => ?_, hsome⟩
        by_cases hyx : y = x
        · subst hyx
          rw [hb] at hc
          cases hc
          exact Bool.eq_false_iff.mpr hlast
        · exact hnone y (by omega) hyr c hc

/-- A buffered MPDU that the new window has left behind, and whose slot is free now. -/
def Releases (d d' : RxBaNodeDesc) : Prop :=
  ∃ (i : ℕ) (b : RxBaPkt), d.reorderBuffer[i]? = some b ∧ b.desc.msduNum ≠ 0 ∧
    d'.reorderBuffer[i]? = some RxBaPkt.zero ∧
    seqnoSub b.desc.seq d.winStart < seqnoSub d'.winStart d.winStart

/-- What is held before the position to which the window moves is released. -/
theorem Settled.releases {d' : RxBaNodeDesc} {acc' : List (ℕ × Skb)} {p' x : ℕ} {b : RxBaPkt}
    (h : Settled k w acc p u d) (h' : Settled k w acc' p' u d') (hx : p ≤ x) (hxu : x < u)
    (hxp : x < p') (hp' : p' < p + 4096) (hb : d.reorderBuffer[x % 2 ^ k]? = some b)
    (hne : b ≠ RxBaPkt.zero) : Releases d d' := by
  have hreach := h.reach
  have hfits := h.fits
  have hsize := h.sizeLe
  obtain ⟨_, hheld⟩ := h.window.held_at hx (by omega) hb hne
  have hfree : d'.reorderBuffer[x % 2 ^ k]? = some RxBaPkt.zero := by
    obtain ⟨c, hc⟩ := h'.window.slot x
    rcases h'.window.ring.held _ c hc with rfl | ⟨y, hy, hyu, hi, _⟩
    · exact hc
    · rw [h'.window.length] at hi
      have := position_unique (n := 2 ^ k) (show p ≤ y by omega) (by omega) hx
        (by omega) hi
      omega
  refine ⟨_, b, hb, hheld.counted, hfree, ?_⟩
  rw [hheld.seq, h.winStart, h'.winStart, seqnoSub_position hx (by omega),
    seqnoSub_position (by omega) hp']
  omega

theorem baReorderTimeout_tail {s : Session} (h : Tailed k w acc p u s.node.rxBa) (hpu : p ≤ u) :
    ∃ s', baReorderTimeout s = .ok s' ∧ TailFollows k w s'.node.rxBa ∧
      (s.node.active = true → s.node.rxBa.buffCnt ≠ 0 → s.node.timerPending = false →
        Releases s.node.rxBa s'.node.rxBa) := by
  have hreach := h.reach
  have hsize := h.sizeLe
  rw [baReorderTimeout]
  by_cases hrun : (s.node.active && decide (s.node.rxBa.buffCnt ≠ 0) && !s.node.timerPending) = true
  · rw [if_pos hrun]
    obtain ⟨r, hr, hpr, hru, _, hsome⟩ := firstSeqnoLoop_tail h (n := 4097) (Nat.le_refl p) hpu
      (by omega)
    have hinit := h.toSettled.leaveInitMode (s := s.rx)
    obtain ⟨t, p', ht, hle, hmax, _, hset, _⟩ := hinit.move (q := r) hpr (by omega)
    have htail := moveWindow_winTail (s := s.rx.leaveInitMode) hinit hpr (by omega) ht
    have hp'u : p' ≤ u := by omega
    rw [getFirstSeqnoInBuff, h.winStart, hr, ok_bind, ht, ok_map]
    refine ⟨_, rfl, ?_, fun _ hbuff _ => ?_⟩
    · have hfollows : TailFollows k w t.desc :=
        ⟨acc, p', u, hp'u, { hset with tail := htail.trans h.tail }⟩
      simpa [Session.withRx, Session.mapNode] using hfollows
    · -- a held position below the new window
      have hheld : ∃ x b, p ≤ x ∧ x < p' ∧ x < u ∧
          s.node.rxBa.reorderBuffer[x % 2 ^ k]? = some b ∧ b ≠ RxBaPkt.zero := by
        by_cases hlt : r < u
        · obtain ⟨b, hb, hlast⟩ := hsome hlt
          obtain ⟨t', lo', ht', hlo, hlou, hstart⟩ := moveWindow_last hinit hpr hlt hb hlast
          obtain rfl := Except.ok.inj (ht.symm.trans ht')
          have heq := hset.winStart.symm.trans hstart
          refine ⟨r, b, hpr, by omega, hlt, hb, ?_⟩
          rintro rfl
          cases hlast
        · have hocc : occupied RxBaPkt.zero s.node.rxBa.reorderBuffer ≠ 0 := by
            rw [← h.window.count]
            exact hbuff
          have hsome : ∃ (i : ℕ) (b : RxBaPkt),
              s.node.rxBa.reorderBuffer[i]? = some b ∧ b ≠ RxBaPkt.zero := by
            by_contra hnone
            refine hocc (occupied_eq_zero.mpr fun i b hb => ?_)
            by_contra hne
            exact hnone ⟨i, b, hb, hne⟩
          obtain ⟨i, b, hb, hne⟩ := hsome
          obtain ⟨x, hx, hxu, hi, _⟩ := (h.window.ring.held i b hb).resolve_left hne
          rw [h.window.length] at hi
          exact ⟨x, b, hx, by omega, hxu, by rw [hi]; exact hb, hne⟩
      obtain ⟨x, b, hx, hxp, hxu, hb, hne⟩ := hheld
      have hrel := h.toSettled.releases hset hx hxu hxp (by omega) hb hne
      simpa [Session.withRx, Session.mapNode] using hrel
  · rw [if_neg hrun]
    refine ⟨s, rfl, ⟨acc, p, u, hpu, h⟩, fun hact hbuff htimer => absurd ?_ hrun⟩
    simp [hact, hbuff, htimer]

/-! ## Runs -/

theorem step_tail {s s' : Session} (h : TailFollows k w s.node.rxBa) {e : Event}
    (hcount : CountsFit s e) (hfits : TailFits s e) (hs : step s e = .ok s') :
    TailFollows k w s'.node.rxBa := by
  cases e with
  | msdu m skb =>
    exact reorderMsduProcess_tail h (some skb) (hcount m rfl) (hfits m rfl) hs
  | filter seqNum =>
    exact reorderMsduProcess_tail h none (hcount _ rfl) (hfits _ rfl) hs
  | timeout =>
    obtain ⟨acc, p, u, hpu, htailed⟩ := h
    obtain ⟨t, ht, hfollows, _⟩ := baReorderTimeout_tail htailed hpu
    obtain rfl := Except.ok.inj (ht.symm.trans hs)
    exact hfollows
  | expire | activate =>
    cases hs
    exact h
  | resetPn =>
    cases hs
    exact h.congr rfl rfl rfl rfl rfl rfl rfl

/-- A new session holds nothing, and `win_tail` is the number before `win_start`. -/
theorem tailFollows_freshSession {winStart winSize size : ℕ} (sta tid : ℕ) (hstart : winStart < 4096)
    (hpos : 1 ≤ winSize) (hle : winSize ≤ 2048) (hsize : winSize ≤ size) (hfit : size ≤ 4096) :
    ∃ k, TailFollows k winSize
      (freshSession sta tid winStart winSize (getIndexSize size)).node.rxBa := by
  obtain ⟨k, h⟩ := tracks_freshSession sta tid hstart hpos hle hsize hfit
  refine ⟨k, _, _, _, Nat.le_refl _, { h with
    window := h.window.shrink rfl
    reach := Nat.le_add_right _ _
    tail := ?_ }⟩
  simp only [freshSession, setBaNodeDesc, startJournal, seqnoSub]
  omega

/-- `win_tail` is at or after everything buffered, counted from `win_start`. -/
def TailReaches (d : RxBaNodeDesc) : Prop :=
  ∀ (i : ℕ) (b : RxBaPkt), d.reorderBuffer[i]? = some b → b.desc.msduNum ≠ 0 →
    seqnoSub b.desc.seq d.winStart < seqnoSub (seqnoAdd d.winTail 1 : ℕ) d.winStart

/-- `get_first_seqno_in_buff` finds the first complete MPDU: none is before it, and it is one,
or there is none at all and the number is the one behind `win_tail`. -/
def FindsFirst (d : RxBaNodeDesc) : Prop :=
  ∃ v, getFirstSeqnoInBuff d = .ok v ∧
    (∀ (i : ℕ) (b : RxBaPkt), d.reorderBuffer[i]? = some b → b.desc.last = true →
      seqnoSub v d.winStart ≤ seqnoSub b.desc.seq d.winStart) ∧
    (v = seqnoAdd d.winTail 1 ∨
      ∃ (i : ℕ) (b : RxBaPkt), d.reorderBuffer[i]? = some b ∧ b.desc.last = true ∧ b.desc.seq = v)

/-- The first MPDU that is held, counted from `win_start`, is complete. -/
def FirstComplete (d : RxBaNodeDesc) : Prop :=
  ∃ (i : ℕ) (b : RxBaPkt), d.reorderBuffer[i]? = some b ∧ b.desc.last = true ∧
    ∀ (j : ℕ) (c : RxBaPkt), d.reorderBuffer[j]? = some c → c.desc.msduNum ≠ 0 →
      seqnoSub b.desc.seq d.winStart ≤ seqnoSub c.desc.seq d.winStart

/-- `get_first_seqno_in_buff` finds the first MPDU that is held, complete or not. -/
def FindsHeld (d : RxBaNodeDesc) : Prop :=
  ∃ v, getFirstSeqnoInBuff d = .ok v ∧
    (∃ (i : ℕ) (b : RxBaPkt), d.reorderBuffer[i]? = some b ∧ b.desc.msduNum ≠ 0 ∧
      b.desc.seq = v) ∧
    ∀ (j : ℕ) (c : RxBaPkt), d.reorderBuffer[j]? = some c → c.desc.msduNum ≠ 0 →
      seqnoSub v d.winStart ≤ seqnoSub c.desc.seq d.winStart

theorem Tailed.tailReaches (h : Tailed k w acc p u d) (hpu : p ≤ u) : TailReaches d := by
  intro i b hb hcounted
  have hreach := h.reach
  have hsize := h.sizeLe
  rcases h.window.ring.held i b hb with rfl | ⟨x, hx, hxu, _, hheld⟩
  · exact absurd rfl hcounted
  · rw [h.tail_next hpu, hheld.seq, h.winStart, seqnoSub_position hx (by omega)]
    omega

theorem Tailed.findsFirst (h : Tailed k w acc p u d) (hpu : p ≤ u) : FindsFirst d := by
  have hreach := h.reach
  have hfits := h.fits
  have hsize := h.sizeLe
  obtain ⟨r, hr, hpr, hru, hnone, hsome⟩ := firstSeqnoLoop_tail h (n := 4097) (Nat.le_refl p) hpu
    (by omega)
  refine ⟨r % 4096, by rw [getFirstSeqnoInBuff, h.winStart, hr], fun i b hb hlast => ?_, ?_⟩
  · rcases h.window.ring.held i b hb with rfl | ⟨x, hx, hxu, hi, hheld⟩
    · cases hlast
    · rw [h.window.length] at hi
      have hrx : r ≤ x := by
        by_contra hlt
        have := hnone x hx (by omega) b (by rw [hi]; exact hb)
        rw [hlast] at this
        cases this
      rw [hheld.seq, h.winStart, seqnoSub_position hpr (by omega), seqnoSub_position hx (by omega)]
      omega
  · by_cases hlt : r < u
    · obtain ⟨b, hb, hlast⟩ := hsome hlt
      have hne : b ≠ RxBaPkt.zero := by
        rintro rfl
        cases hlast
      exact .inr ⟨_, b, hb, hlast, (h.window.held_at hpr (by omega) hb hne).2.seq⟩
    · left
      rw [h.tail, seqnoAdd]
      omega

theorem Tailed.counted_of_last (h : Tailed k w acc p u d) {i : ℕ} {b : RxBaPkt}
    (hb : d.reorderBuffer[i]? = some b) (hlast : b.desc.last = true) : b.desc.msduNum ≠ 0 := by
  rcases h.window.ring.held i b hb with rfl | ⟨x, hx, hxu, _, hheld⟩
  · cases hlast
  · exact hheld.counted

/-- The search passes over what is not complete: it finds the first MPDU that is held exactly if that
one is complete. -/
theorem Tailed.findsHeld_iff (h : Tailed k w acc p u d) (hpu : p ≤ u) :
    FindsHeld d ↔ FirstComplete d := by
  obtain ⟨v, hv, hbefore, hfound⟩ := h.findsFirst hpu
  have hreaches := h.tailReaches hpu
  constructor
  · rintro ⟨v', hv', ⟨i, b, hb, hcounted, hseq⟩, hfirst⟩
    obtain rfl := Except.ok.inj (hv.symm.trans hv')
    rcases hfound with htail | ⟨j, c, hc, hlast, rfl⟩
    · have hlt := hreaches i b hb hcounted
      rw [hseq, ← htail] at hlt
      exact absurd hlt (lt_irrefl _)
    · exact ⟨j, c, hc, hlast, hfirst⟩
  · rintro ⟨i, b, hb, hlast, hfirst⟩
    have hle := hbefore i b hb hlast
    rcases hfound with htail | ⟨j, c, hc, hclast, rfl⟩
    · have hlt := hreaches i b hb (h.counted_of_last hb hlast)
      rw [← htail] at hlt
      exact absurd hlt (not_lt.mpr hle)
    · exact ⟨_, hv, ⟨j, c, hc, h.counted_of_last hc hclast, rfl⟩,
        fun j' c' hc' hcounted => hle.trans (hfirst j' c' hc' hcounted)⟩

/-- In a run in which no MSDU counter wraps and `seqno_geq` knows every frame behind `win_tail`,
every state reached has its buffered numbers up to `win_tail`, finds the first complete
MPDU, which is the first that is held exactly if that one is complete, and in its release branch
lets a timeout give out a buffered MPDU and move `win_start` past it. -/
theorem timeout_makes_progress {winStart winSize size sta tid : ℕ} (hstart : winStart < 4096)
    (hpos : 1 ≤ winSize) (hle : winSize ≤ 2048) (hsize : winSize ≤ size) (hfit : size ≤ 4096)
    {es : List Event} {s : Session}
    (hC : Along step (fun s e => CountsFit s e ∧ TailFits s e)
      (freshSession sta tid winStart winSize (getIndexSize size)) es)
    (hr : run step (freshSession sta tid winStart winSize (getIndexSize size)) es = .ok s) :
    TailReaches s.node.rxBa ∧ FindsFirst s.node.rxBa ∧
      (FindsHeld s.node.rxBa ↔ FirstComplete s.node.rxBa) ∧
      ∃ s', step s .timeout = .ok s' ∧
        (s.node.active = true → s.node.rxBa.buffCnt ≠ 0 → s.node.timerPending = false →
          Releases s.node.rxBa s'.node.rxBa) := by
  obtain ⟨k, hfresh⟩ := tailFollows_freshSession sta tid hstart hpos hle hsize hfit
  obtain ⟨acc, p, u, hpu, h⟩ : TailFollows k winSize s.node.rxBa :=
    run_invariant (I := fun s => TailFollows k winSize s.node.rxBa)
      (fun _ _ _ h hc hs => step_tail h hc.1 hc.2 hs) hfresh hC hr
  obtain ⟨s', hs', _, hrel⟩ := baReorderTimeout_tail h hpu
  exact ⟨h.tailReaches hpu, h.findsFirst hpu, h.findsHeld_iff hpu, s', hs', hrel⟩

/-- A gap at 4090, a frame behind it, and the timer that waited for the gap. -/
def gapRun : List Event := [.activate, .msdu (msduOf 4092 true) 1, .expire]

theorem timeout_makes_progress_gap : ∃ s,
    run step (freshSession 3 5 4090 32 (getIndexSize 32)) gapRun = .ok s ∧
      s.node.rxBa.buffCnt = 1 ∧
      TailReaches s.node.rxBa ∧ FindsFirst s.node.rxBa ∧
      (FindsHeld s.node.rxBa ↔ FirstComplete s.node.rxBa) ∧
      ∃ s', step s .timeout = .ok s' ∧
        (s.node.active = true → s.node.rxBa.buffCnt ≠ 0 → s.node.timerPending = false →
          Releases s.node.rxBa s'.node.rxBa) :=
  ⟨_, rfl, rfl, @timeout_makes_progress 4090 32 32 3 5 (by omega) (by omega) (by omega) (by omega)
    (by omega) gapRun _ (by decide) rfl⟩

set_option maxRecDepth 8000 in
/-- The number 2048 arrives while the window starts at 1: `win_tail` stays at 0, half the number
space behind, and the timeout releases nothing and leaves the window where it is. -/
theorem timeout_stalls_half_way : ∃ s s',
    run step (freshSession 3 5 1 64 (getIndexSize 64))
      [.activate, .msdu (msduOf 2048 true) 1, .expire] = .ok s ∧
      s.node.active = true ∧ s.node.timerPending = false ∧ s.node.rxBa.buffCnt = 1 ∧
      s.node.rxBa.winTail = 0 ∧ step s .timeout = .ok s' ∧
      s'.node.rxBa.winStart = s.node.rxBa.winStart ∧
      s'.node.rxBa.reorderBuffer = s.node.rxBa.reorderBuffer := by
  refine ⟨_, _, rfl, rfl, rfl, rfl, rfl, rfl, rfl, rfl⟩

end Uwe5631.Reorder
