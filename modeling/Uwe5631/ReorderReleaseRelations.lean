import Uwe5631.ReorderBuffer

/-!
# Relations kept by every release

A release clears a slot through `send_reorder_skb`; the loops around it only move the
window and the count. A relation between states that these two kinds of moves keep is
kept by every release function, on any node.
-/
namespace Uwe5631.Reorder
open FallibleRuns

/-- A relation between states kept by clearing a slot and by moving the window. -/
structure ReleaseRelation (R : RxState → RxState → Prop) : Prop where
  refl : ∀ s, R s s
  trans : ∀ a b c, R a b → R b c → R a c
  release : ∀ (seq : ℕ) b s s', s.desc.pkt (seq &&& s.desc.indexMask) = .ok b →
    sendReorderSkb (seq &&& s.desc.indexMask) b s = .ok s' → R s s'
  move : ∀ (s : RxState) (winStart winLimit buffCnt : ℕ),
    R s { s with desc := { s.desc with
      winStart := winStart
      winLimit := winLimit
      buffCnt := buffCnt } }

variable {R : RxState → RxState → Prop} {s s' : RxState}

theorem ReleaseRelation.count (hR : ReleaseRelation R) {t : RxState} (h : R s t) (n : ℕ) :
    R s { t with desc := { t.desc with buffCnt := n } } :=
  hR.trans _ _ _ h (hR.move t t.desc.winStart t.desc.winLimit n)

theorem inOrderLoop_related (hR : ReleaseRelation R) {n seq seq' : ℕ}
    (h : inOrderLoop n seq s = .ok (seq', s')) : R s s' := by
  induction n generalizing seq s with
  | zero =>
    cases h
    exact hR.refl _
  | succ n ih =>
    obtain ⟨b, hb, h⟩ := bind_eq_ok.mp h
    split at h
    · obtain ⟨t, ht, h⟩ := bind_eq_ok.mp h
      exact hR.trans _ _ _ (hR.count (hR.release _ b s t hb ht) n) (ih h)
    · cases h
      exact hR.refl _

theorem gapLoop_related (hR : ReleaseRelation R) {n seq numFrms m : ℕ}
    (h : gapLoop n seq numFrms s = .ok (m, s')) : R s s' := by
  induction n generalizing seq numFrms s with
  | zero =>
    cases h
    exact hR.refl _
  | succ n ih =>
    rw [gapLoop] at h
    split at h
    · exact ih h
    · obtain ⟨b, hb, h⟩ := bind_eq_ok.mp h
      split at h
      · exact ih h
      · obtain ⟨t, ht, h⟩ := bind_eq_ok.mp h
        exact hR.trans _ _ _ (hR.count (hR.release _ b s t hb ht) _) (ih h)

theorem betweenSeqloSeqhi_related (hR : ReleaseRelation R) (h : betweenSeqloSeqhi s = .ok s') :
    R s s' := by
  obtain ⟨⟨seq, t⟩, ht, rfl⟩ := map_eq_ok.mp h
  obtain ⟨⟨seq', t'⟩, ht', heq⟩ := map_eq_ok.mp ht
  cases heq
  exact hR.trans _ _ _ (inOrderLoop_related hR ht') (hR.move t' _ _ t'.desc.buffCnt)

theorem moveWindow_related (hR : ReleaseRelation R) {pos : ℕ} (h : moveWindow pos s = .ok s') :
    R s s' := by
  obtain ⟨⟨m, t⟩, ht, h⟩ := bind_eq_ok.mp h
  have hgap : R s t := gapLoop_related hR ht
  have hstart := hR.move t pos t.desc.winLimit t.desc.buffCnt
  exact hR.trans _ _ _ (hR.trans _ _ _ hgap hstart) (betweenSeqloSeqhi_related hR h)

/-- Everything after `reorder_msdu`, seen on the lists and the descriptor. -/
theorem afterReorderMsdu_related (hR : ReleaseRelation R) {m : RxMsduDesc} {old : ℕ} {ret : ℤ}
    {t t' : Session} (h : afterReorderMsdu m old ret t = .ok t') : R t.rx t'.rx := by
  rw [afterReorderMsdu] at h
  split at h
  · split at h
    · obtain ⟨r, hr, rfl⟩ := map_eq_ok.mp h
      have hrel := betweenSeqloSeqhi_related hR hr
      have hrx : ((t.withRx r).mapNode modReorderTimer).rx = r := by
        simp [Session.rx, Session.withRx, Session.mapNode]
      rw [hrx]
      exact hrel
    · split at h
      · cases h
        have hrx : (t.mapNode modReorderTimer).rx = t.rx := by
          simp [Session.rx, Session.mapNode]
        rw [hrx]
        exact hR.refl _
      · cases h
        exact hR.refl _
  · split at h
    · cases h
      exact hR.refl _
    · cases h
      exact hR.refl _

end Uwe5631.Reorder
