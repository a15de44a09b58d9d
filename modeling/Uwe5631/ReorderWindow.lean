import Uwe5631.ReorderReleaseLoops

/-!
# The window of a session

Insertion keeps the window as long as the sixteen-bit MSDU counter of a slot does not
wrap. Every entry point of a node then takes a settled window to a settled window, and
what it delivers through the window are whole groups of ascending positions.
-/
namespace Uwe5631.Reorder
open FallibleRuns RingWindow OrderedDelivery

variable {k w lo hi p q : ℕ} {acc : List (ℕ × Skb)} {s : RxState} {d : RxBaNodeDesc}
  {m : RxMsduDesc} {skb : Option Skb}

/-- The frame would be joined to a slot that already counts 65535 MSDUs. -/
def JoinsFullSlot (d : RxBaNodeDesc) (m : RxMsduDesc) : Prop :=
  ∃ b, d.reorderBuffer[(m.seqNum : ℕ) &&& d.indexMask]? = some b ∧ b.desc.seq = (m.seqNum : ℕ) ∧
    b.desc.last = false ∧ isSamePn b.desc m = true ∧ b.desc.msduNum = 65535

instance (d : RxBaNodeDesc) (m : RxMsduDesc) : Decidable (JoinsFullSlot d m) :=
  match h : d.reorderBuffer[(m.seqNum : ℕ) &&& d.indexMask]? with
  | some b => decidable_of_iff (b.desc.seq = (m.seqNum : ℕ) ∧ b.desc.last = false ∧
      isSamePn b.desc m = true ∧ b.desc.msduNum = 65535) (by simp [JoinsFullSlot, h])
  | none => isFalse (by simp [JoinsFullSlot, h])

/-- What a frame adds to the accepted items. -/
def entered (q : ℕ) (skb : Option Skb) : List (ℕ × Skb) := skb.toList.map (fun x => (q, x))

theorem Held.other {q' : ℕ} {b : RxBaPkt} (h : Held acc q' b) (hne : q' ≠ q) :
    Held (acc ++ entered q skb) q' b where
  seq := h.seq
  counted := h.counted
  bounded := h.bounded
  chain := by
    rw [h.chain, chainAt_append, entered, chainAt_map_ne (Ne.symm hne), List.append_nil]

/-- Writing the slot of one position. -/
theorem Window.write (h : Window k acc lo hi d) (hlo : lo ≤ q) (hhi : q < hi) {b c : RxBaPkt}
    (hb : d.reorderBuffer[q % 2 ^ k]? = some b) (hc : Held (acc ++ entered q skb) q c)
    {d' : RxBaNodeDesc} (hmask : d'.indexMask = d.indexMask)
    (hbuf : d'.reorderBuffer = d.reorderBuffer.set (q % 2 ^ k) c)
    (hcnt : d'.buffCnt = occupied RxBaPkt.zero d'.reorderBuffer) :
    Window k (acc ++ entered q skb) lo hi d' where
  kLe := h.kLe
  mask := by rw [hmask, h.mask]
  length := by rw [hbuf, List.length_set, h.length]
  ring := by
    rw [hbuf, ← h.length]
    exact h.ring.update hlo hhi hc (fun _ _ hne hheld => hheld.other hne)
  count := hcnt
  complete e he hle := by
    have hset : d'.reorderBuffer[q % 2 ^ k]? = some c := by
      rw [hbuf, List.getElem?_set_self (List.getElem?_eq_some_iff.mp hb).1]
    rcases List.mem_append.mp he with he | he
    · obtain ⟨hlt, a, ha, hane⟩ := h.complete e he hle
      by_cases hi : e.1 % 2 ^ k = q % 2 ^ k
      · exact ⟨hlt, c, by rw [hi, hset], hc.ne_zero⟩
      · exact ⟨hlt, a, by rw [hbuf, List.getElem?_set_ne (Ne.symm hi), ha], hane⟩
    · obtain ⟨x, _, rfl⟩ := List.mem_map.mp he
      exact ⟨hhi, c, hset, hc.ne_zero⟩

/-- Nothing was accepted for a position of the window whose slot is empty. -/
theorem Window.chain_empty (h : Window k acc lo hi d) (hlo : lo ≤ q)
    (hz : d.reorderBuffer[q % 2 ^ k]? = some RxBaPkt.zero) : chainAt acc q = [] := by
  apply chainAt_eq_nil
  rintro e he rfl
  obtain ⟨_, b, hb, hne⟩ := h.complete e he hlo
  rw [hz] at hb
  exact hne (Option.some.inj hb).symm

theorem insertMsdu_spec (skb : Option Skb) (h : Window k acc lo hi d) (hlo : lo ≤ q) (hhi : q < hi)
    (hseq : (m.seqNum : ℕ) = q % 4096) (hfull : ¬ JoinsFullSlot d m) :
    ∃ ret d', insertMsdu m skb d = .ok (ret, d') ∧ SameWindow d d' ∧
      ((ret = 0 ∧ Window k (acc ++ entered q skb) lo hi d') ∨ (ret = -EINVAL ∧ d' = d)) := by
  have hidx : (m.seqNum : ℕ) &&& d.indexMask = q % 2 ^ k := h.index (by omega)
  obtain ⟨b, hb⟩ := h.slot q
  have hqk : q < lo + 2 ^ k := by
    have := h.fits
    omega
  rw [insertMsdu, hidx, pkt_eq_ok hb, ok_map]
  by_cases hm : b.desc.msduNum = 0
  · have hz : b = RxBaPkt.zero := (h.counted hb).resolve_right (by simp [hm])
    subst hz
    have hchain := h.chain_empty hlo hb
    rw [if_neg (by simp [hm])]
    refine ⟨_, _, rfl, ⟨rfl, rfl, rfl, rfl, rfl, rfl⟩, Or.inl ⟨rfl, ?_⟩⟩
    have hne : Held (acc ++ entered q skb) q
        { jointMsdu RxBaPkt.zero skb with
          desc := { setBaPktDesc RxBaPkt.zero.desc m with
            last := m.lastMsduOfMpdu
            msduNum := 1 } } := by
      refine ⟨hseq, by simp, by simp, ?_⟩
      simp [jointMsdu, RxBaPkt.zero, hchain, entered]
    refine h.write hlo hhi hb hne rfl rfl ?_
    have hle := occupied_le_length RxBaPkt.zero d.reorderBuffer
    have hpow : 2 ^ k ≤ 4096 := Nat.le_of_dvd (by norm_num) (two_pow_dvd_4096 h.kLe)
    have hfill := occupied_fill hb hne.ne_zero
    rw [h.length] at hle
    simp only [RxBaNodeDesc.setPkt, h.count]
    exact (Nat.mod_eq_of_lt (by omega)).trans hfill.symm
  · have hbz : b ≠ RxBaPkt.zero := by
      rintro rfl
      exact hm rfl
    obtain ⟨_, hheld⟩ := h.held_at hlo hqk hb hbz
    rw [if_pos hm]
    by_cases hj : (b.desc.seq = (m.seqNum : ℕ) && !b.desc.last && isSamePn b.desc m) = true
    · rw [if_pos hj]
      refine ⟨_, _, rfl, ⟨rfl, rfl, rfl, rfl, rfl, rfl⟩, Or.inl ⟨rfl, ?_⟩⟩
      simp only [Bool.and_eq_true, decide_eq_true_eq, Bool.not_eq_true'] at hj
      have hcnt : b.desc.msduNum ≠ 65535 := fun he =>
        hfull ⟨b, by rw [hidx, hb], hj.1.1, hj.1.2, hj.2, he⟩
      have hbound := hheld.bounded
      have hne : Held (acc ++ entered q skb) q
          { jointMsdu b skb with
            desc := { (jointMsdu b skb).desc with
              msduNum := ((jointMsdu b skb).desc.msduNum + 1) % 65536
              last := m.lastMsduOfMpdu } } := by
        refine ⟨hheld.seq, ?_, by simp only [jointMsdu]; omega, ?_⟩
        · simp only [jointMsdu]
          omega
        · simp [jointMsdu, hheld.chain, entered]
      refine h.write hlo hhi hb hne rfl rfl ?_
      exact h.count.trans (occupied_replace hb hbz hne.ne_zero).symm
    · rw [if_neg hj]
      exact ⟨_, d, rfl, .refl _, Or.inr ⟨rfl, rfl⟩⟩

/-- A slot beyond everything held is empty, so nothing is joined there. -/
theorem Window.not_joinsFullSlot (h : Window k acc lo hi d) (hlo : lo ≤ q)
    (hq : q < lo + 2 ^ k) (hhi : hi ≤ q) (hseq : (m.seqNum : ℕ) = q % 4096) :
    ¬ JoinsFullSlot d m := by
  intro ⟨b, hb, _, _, _, hnum⟩
  rw [h.index (q := q) (by omega)] at hb
  have hne : b ≠ RxBaPkt.zero := by
    rintro rfl
    cases hnum
  have := (h.held_at hlo hq hb hne).1
  omega

theorem Window.enter (h : Window k acc lo hi d) (hq : q < lo) :
    Window k (acc ++ entered q skb) lo hi d where
  kLe := h.kLe
  mask := h.mask
  length := h.length
  ring := h.ring.imp (fun _ _ hlo hheld => hheld.other (by omega))
  count := h.count
  complete e he hlo := by
    rcases List.mem_append.mp he with he | he
    · exact h.complete e he hlo
    · obtain ⟨x, _, rfl⟩ := List.mem_map.mp he
      simp only at hlo
      omega

theorem Released.enter {sender : Sender} {l l' : RxLists} (h : Released sender acc lo hi l l')
    (hq : hi ≤ q) : Released sender (acc ++ entered q skb) lo hi l l' := by
  rcases h with ⟨qs, hqs, hl⟩
  refine ⟨qs, hqs, ?_⟩
  rw [hl]
  congr 1
  apply List.map_congr_left
  intro r hr
  have hne : q ≠ r := by
    have := (hqs.bounds r hr).2
    omega
  rw [deliveryOf, deliveryOf, chainAt_append, entered, chainAt_map_ne hne, List.append_nil]

/-! ## The two halves of `reorder_msdu_process` -/

/-- What `reorder_msdu` accepted when it returned `ret`. -/
def acceptedBy (ret : ℤ) (acc : List (ℕ × Skb)) (q : ℕ) (skb : Option Skb) : List (ℕ × Skb) :=
  if ret = 0 then acc ++ entered q skb else acc

theorem Settled.noteTail (h : Settled k w acc p hi d) (ret : ℤ) (m : RxMsduDesc) :
    Settled k w acc p hi (noteTail ret m d) := by
  rw [Reorder.noteTail]
  split
  · exact { h with window := h.window.congr rfl rfl rfl }
  · exact h

theorem Settled.leaveInitMode (h : Settled k w acc p hi s.desc) :
    Settled k w acc p hi s.leaveInitMode.desc :=
  { h with window := h.window.congr rfl rfl rfl }

/-- The part of `reorder_msdu` after the window has been made to reach the frame. -/
theorem insertFrame_spec (skb : Option Skb) (h : Settled k w acc p hi s.desc) (hlo : p ≤ q) (hhi : q < hi)
    (hseq : (m.seqNum : ℕ) = q % 4096) (hfull : ¬ JoinsFullSlot s.desc m) :
    ∃ ret s', insertFrame m skb s = .ok (ret, s') ∧
      s'.desc.winStartInit = s.desc.winStartInit ∧
      Settled k w (acceptedBy ret acc q skb) p hi s'.desc ∧
      s'.lists.delivered = s.lists.delivered := by
  obtain ⟨ret, d', hins, hsame, hres⟩ := insertMsdu_spec skb h.window hlo hhi hseq hfull
  rw [insertFrame, hins, ok_map]
  have hwin : Window k (acceptedBy ret acc q skb) p hi d' := by
    rcases hres with ⟨rfl, hw⟩ | ⟨rfl, rfl⟩
    · exact hw
    · exact h.window
  have hset : Settled k w (acceptedBy ret acc q skb) p hi d' :=
    { h with
      window := hwin
      winStart := hsame.winStart.trans h.winStart
      winSize := hsame.winSize.trans h.winSize
      winLimit := hsame.winLimit.trans h.winLimit }
  refine ⟨ret, _, rfl, ?_, ?_, by simp⟩
  · simpa using hsame.winStartInit
  · simpa using hset.noteTail ret m

theorem reorderMsdu_spec (skb : Option Skb) (h : Settled k w acc p (p + w) s.desc)
    (hge : seqnoGeq m.seqNum s.desc.winStart = true)
    (hq : q = p + seqnoSub (m.seqNum : ℕ) s.desc.winStart)
    (hfull : ¬ JoinsFullSlot s.desc m) :
    ∃ ret s' p', reorderMsdu m skb s = .ok (ret, s') ∧ p ≤ p' ∧ p' ≤ q ∧
      s'.desc.winStartInit = 0 ∧
      Settled k w (acceptedBy ret acc q skb) p' (max (p + w) (q + 1)) s'.desc ∧
      Released .sendReorderSkb acc p p' s.lists s'.lists := by
  have hm := m.seqNum.isLt
  rw [h.winStart] at hge hq
  have hseq : (m.seqNum : ℕ) = q % 4096 := by
    rw [hq, position_of_seqno p hm]
  have hbound := seqnoSub_le_of_geq hm hge
  have hin := seqnoLeq_limit hm h.sizePos h.sizeLe hge
  have hw := h.sizeLe
  have hpos := h.sizePos
  have hfit := h.fits
  rw [reorderMsdu, h.winStart, if_pos hge, h.winLimit]
  by_cases hle : seqnoLeq (m.seqNum : ℕ) ((p + w - 1) % 4096) = true
  · -- the frame lies in the window
    have hlt := hin.mp hle
    rw [if_pos hle, ok_bind]
    obtain ⟨ret, s', hs, hinit, hset, hdel⟩ :=
      insertFrame_spec skb h.leaveInitMode (q := q) (by omega) (by omega) hseq hfull
    rw [max_eq_left (by omega)]
    refine ⟨ret, s', p, hs, Nat.le_refl _, by omega, hinit, hset, [], Ascending.nil _ _, ?_⟩
    simpa [RxState.leaveInitMode] using hdel
  · -- the window moves until it ends with the frame
    have hge' : w ≤ seqnoSub (m.seqNum : ℕ) (p % 4096 : ℕ) := by
      by_contra hlt
      exact hle (hin.mpr (by omega))
    rw [if_neg hle]
    have hstart : seqnoSub (m.seqNum : ℕ) ((s.leaveInitMode.desc.winSize : ℤ) - 1) =
        (q + 1 - w) % 4096 := by
      rw [h.leaveInitMode.winSize]
      rw [seqnoSub]
      omega
    obtain ⟨t, p', ht, hle', hmax, hinit, hset, hrel⟩ :=
      h.leaveInitMode.move (q := q + 1 - w) (by omega) (by omega)
    rw [greaterThanSeqhi, hstart, ht, ok_bind]
    have hpq : p' ≤ q := by omega
    have hnot := hset.window.not_joinsFullSlot hpq (by omega) (by omega) hseq
    have hset' : Settled k w acc p' (q + 1) t.desc :=
      { hset with
        window := hset.window.widen (by omega) (by omega)
        reach := by omega }
    obtain ⟨ret, s', hs, hinit', hset'', hdel⟩ :=
      insertFrame_spec skb hset' hpq (by omega) hseq hnot
    rw [max_eq_right (by omega)]
    refine ⟨ret, s', p', hs, by omega, hpq, hinit'.trans hinit, hset'', ?_⟩
    rcases hrel with ⟨qs, hqs, hl⟩
    exact ⟨qs, hqs, hdel.trans hl⟩

theorem afterReorderMsdu_spec {t : Session} (h : Settled k w acc p hi t.node.rxBa) (old : ℕ)
    (ret : ℤ) :
    ∃ t' p', afterReorderMsdu m old ret t = .ok t' ∧ p ≤ p' ∧ p' ≤ max p hi ∧
      t'.node.rxBa.winStartInit = t.node.rxBa.winStartInit ∧
      Settled k w acc p' hi t'.node.rxBa ∧
      Released .sendReorderSkb acc p p' t.lists t'.lists := by
  rw [afterReorderMsdu]
  split
  · split
    · obtain ⟨r, p', hr, hle, hmax, hinit, hset, hrel⟩ := Settled.between (s := t.rx) h
      rw [Session.rx] at hinit
      rw [hr, ok_map]
      refine ⟨_, p', rfl, hle, hmax, ?_, ?_, hrel⟩
      · simpa [Session.withRx, Session.mapNode] using hinit
      · simpa [Session.withRx, Session.mapNode] using hset
    · split
      · exact ⟨_, p, rfl, le_refl _, le_max_left _ _, by simp [Session.mapNode],
          by simpa [Session.mapNode] using h, .refl _ _ _ _ _⟩
      · exact ⟨_, p, rfl, le_refl _, le_max_left _ _, rfl, h, .refl _ _ _ _ _⟩
  · split <;> exact ⟨_, p, rfl, le_refl _, le_max_left _ _, rfl, h, .refl _ _ _ _ _⟩

end Uwe5631.Reorder
