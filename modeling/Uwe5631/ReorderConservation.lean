import Uwe5631.ReorderReleaseRelations
import Uwe5631.RingWindow

/-!
# Conservation of socket buffers

Every socket buffer passed to a node is counted on the delivery list, among the freed
ones or in the slots, as often as it was passed in. Nothing about the window is needed:
the count is kept by each single move of the driver.
-/
namespace Uwe5631.Reorder
open FallibleRuns RingWindow

variable {x : Skb} {s s' : RxState} {d d' : RxBaNodeDesc} {m : RxMsduDesc} {skb : Option Skb}
  {ret : ℤ}

def RxLists.deliveredSkbs (l : RxLists) : List Skb := l.delivered.flatMap (·.skbs)

/-- How often a buffer is linked in the slots. -/
def linkedIn (x : Skb) (d : RxBaNodeDesc) : ℕ := total (fun b => b.skbs.count x) d.reorderBuffer

/-- How often a buffer was delivered, was freed or is linked. -/
def RxState.load (x : Skb) (s : RxState) : ℕ :=
  s.lists.deliveredSkbs.count x + s.lists.freed.count x + linkedIn x s.desc

theorem slot_of_pkt {i : ℕ} {b : RxBaPkt} (h : d.pkt i = .ok b) :
    d.reorderBuffer[i]? = some b := by
  rw [RxBaNodeDesc.pkt] at h
  split at h
  · rename_i hb
    cases h
    exact hb
  · cases h

/-- A write to a slot moves the links by the old and the new chain. -/
theorem linkedIn_write {i : ℕ} {b c : RxBaPkt} (h : d.pkt i = .ok b)
    (hbuf : d'.reorderBuffer = d.reorderBuffer.set i c) :
    linkedIn x d' + b.skbs.count x = linkedIn x d + c.skbs.count x := by
  rw [linkedIn, hbuf]
  exact total_set (slot_of_pkt h) c

theorem linkedIn_clear {i : ℕ} {b : RxBaPkt} (h : d.pkt i = .ok b)
    (hbuf : d'.reorderBuffer = d.reorderBuffer.set i RxBaPkt.zero) :
    linkedIn x d' + b.skbs.count x = linkedIn x d :=
  linkedIn_write h hbuf

/-- Only the slots matter for the links. -/
theorem linkedIn_congr (h : d'.reorderBuffer = d.reorderBuffer) : linkedIn x d' = linkedIn x d := by
  rw [linkedIn, h, linkedIn]

theorem reorderSetSkbList_load {l l' : RxLists} {sender : Sender} {seq : ℕ} {chain : List Skb}
    (h : reorderSetSkbList l sender seq chain = .ok l') :
    l'.deliveredSkbs.count x = l.deliveredSkbs.count x + chain.count x ∧ l'.freed = l.freed := by
  rw [reorderSetSkbList] at h
  split at h
  · cases h
  · cases h
    simp [RxLists.deliveredSkbs, List.flatMap_append]

theorem replayDetection_reorderBuffer (p : RxBaPktDesc) (d : RxBaNodeDesc) :
    (replayDetection p d).2.reorderBuffer = d.reorderBuffer := by
  rw [replayDetection]
  split
  · split
    · rfl
    · split <;> rfl
  · rfl

theorem sendReorderSkb_load {i : ℕ} {b : RxBaPkt} (hb : s.desc.pkt i = .ok b)
    (h : sendReorderSkb i b s = .ok s') : s'.load x = s.load x := by
  have hclear : ∀ d : RxBaNodeDesc, d.reorderBuffer = s.desc.reorderBuffer →
      linkedIn x (d.setPkt i RxBaPkt.zero) + b.skbs.count x = linkedIn x s.desc := by
    intro d hd
    exact linkedIn_clear hb (by simp only [RxBaNodeDesc.setPkt, hd])
  rw [sendReorderSkb] at h
  split at h
  · rename_i hnil
    cases h
    have hset := hclear s.desc rfl
    rw [hnil, List.count_nil] at hset
    simp only [RxState.load]
    omega
  · have hset := hclear _ (replayDetection_reorderBuffer b.desc s.desc)
    cases hr : replayDetection b.desc s.desc with
    | mk pass d =>
      rw [hr] at h hset
      simp only at hset
      cases pass with
      | true =>
        obtain ⟨l, hl, rfl⟩ := map_eq_ok.mp h
        obtain ⟨hdel, hfree⟩ := reorderSetSkbList_load (x := x) hl
        simp only [RxState.load, hdel, hfree]
        omega
      | false =>
        cases h
        simp only [RxState.load, RxLists.kfreeSkbList, RxLists.deliveredSkbs, List.count_append]
        omega

theorem keepsLoad (x : Skb) : ReleaseRelation (fun a b => b.load x = a.load x) where
  refl _ := rfl
  trans _ _ _ h h' := h'.trans h
  release _ _ _ _ hb h := sendReorderSkb_load hb h
  move _ _ _ _ := rfl

theorem flushLoop_load {n i : ℕ} (h : flushLoop n i s = .ok s') : s'.load x = s.load x := by
  induction n generalizing i s with
  | zero =>
    cases h
    rfl
  | succ n ih =>
    obtain ⟨b, hb, h⟩ := bind_eq_ok.mp h
    have hset : linkedIn x (s.desc.setPkt i RxBaPkt.zero) + b.skbs.count x = linkedIn x s.desc :=
      linkedIn_clear hb rfl
    rw [ih h]
    simp only [RxState.load, RxLists.kfreeSkbList, RxLists.deliveredSkbs, List.count_append]
    omega

/-! ## Frames -/

/-- What a socket buffer that may be `NULL` adds. -/
def added (x : Skb) (skb : Option Skb) : ℕ := skb.toList.count x

theorem insertMsdu_load (h : insertMsdu m skb d = .ok (ret, d')) :
    linkedIn x d' = linkedIn x d + if ret = 0 then added x skb else 0 := by
  obtain ⟨b, hb, h⟩ := map_eq_ok.mp h
  have hjoin : (jointMsdu b skb).skbs.count x = b.skbs.count x + added x skb := by
    simp [jointMsdu, added]
  have hwrite : ∀ (d' : RxBaNodeDesc) (c : RxBaPkt),
      d'.reorderBuffer = d.reorderBuffer.set ((m.seqNum : ℕ) &&& d.indexMask) c →
      c.skbs = (jointMsdu b skb).skbs → linkedIn x d' = linkedIn x d + added x skb := by
    intro d' c hbuf hc
    have hset := linkedIn_write (x := x) hb hbuf
    rw [hc, hjoin] at hset
    omega
  split at h
  · split at h
    · cases h
      exact hwrite _ _ rfl rfl
    · cases h
      rw [if_neg (by decide)]
      rfl
  · cases h
    exact hwrite _ _ rfl rfl

theorem dropIfFailed_load (r : RxState) :
    (dropIfFailed ret skb r).load x = r.load x + if ret = 0 then 0 else added x skb := by
  rw [dropIfFailed]
  by_cases h : ret = 0
  · simp [h]
  · simp only [ne_eq, h, not_false_eq_true, if_true, if_false, RxState.load, RxLists.kfreeSkbList,
      RxLists.deliveredSkbs, List.count_append, added]
    omega

theorem noteTail_reorderBuffer (ret : ℤ) (m : RxMsduDesc) (d : RxBaNodeDesc) :
    (noteTail ret m d).reorderBuffer = d.reorderBuffer := by
  rw [noteTail]
  split <;> rfl

theorem insertFrame_load (h : insertFrame m skb s = .ok (ret, s')) :
    s'.load x = s.load x + added x skb := by
  obtain ⟨⟨ret', d⟩, hins, heq⟩ := map_eq_ok.mp h
  cases heq
  have hlink := insertMsdu_load (x := x) hins
  have htail := linkedIn_congr (x := x) (noteTail_reorderBuffer ret' m d)
  rw [dropIfFailed_load]
  simp only [RxState.load, htail, hlink]
  split <;> omega

theorem reorderMsdu_load (h : reorderMsdu m skb s = .ok (ret, s')) :
    s'.load x = s.load x + added x skb := by
  rw [reorderMsdu] at h
  split at h
  · obtain ⟨a, ha, hins⟩ := bind_eq_ok.mp h
    rw [insertFrame_load hins]
    congr 1
    split at ha
    · cases ha
      rfl
    · exact moveWindow_related (s := s.leaveInitMode) (keepsLoad x) ha
  · split at h
    · obtain ⟨l, hl, heq⟩ := map_eq_ok.mp h
      cases heq
      obtain ⟨hdel, hfree⟩ := reorderSetSkbList_load (x := x) hl
      simp only [RxState.load, hdel, hfree, added]
      omega
    · cases h
      rw [dropIfFailed_load, if_neg (by decide)]

theorem sendOrderMsdu_load (h : sendOrderMsdu m skb s = .ok s') :
    s'.load x = s.load x + added x skb := by
  unfold sendOrderMsdu at h
  cases skb with
  | none =>
    cases h
    rfl
  | some y =>
    dsimp only at h
    generalize hd : ({ s.desc with
      winStart := seqnoAdd s.desc.winStart 1
      winLimit := seqnoAdd s.desc.winLimit 1
      winTail := seqnoSub (seqnoAdd s.desc.winStart 1 : ℕ) 1 } : RxBaNodeDesc) = d at h
    have hframe := replayDetection_reorderBuffer (setBaPktDesc RxBaPkt.zero.desc m) d
    cases hr : replayDetection (setBaPktDesc RxBaPkt.zero.desc m) d with
    | mk pass d' =>
      rw [hr] at h hframe
      have hlink : linkedIn x d' = linkedIn x s.desc :=
        linkedIn_congr (hframe.trans (by rw [← hd]))
      cases pass with
      | true =>
        obtain ⟨l, hl, rfl⟩ := map_eq_ok.mp h
        obtain ⟨hdel, hfree⟩ := reorderSetSkbList_load (x := x) hl
        simp only [RxState.load, hdel, hfree, hlink, added, Option.toList_some]
        omega
      | false =>
        cases h
        simp only [RxState.load, RxLists.kfreeSkbList, RxLists.deliveredSkbs, List.count_append,
          hlink, added, Option.toList_some]
        omega

theorem reorderMsduProcess_load {t t' : Session} (h : reorderMsduProcess m skb t = .ok t') :
    t'.rx.load x = t.rx.load x + added x skb := by
  rw [reorderMsduProcess] at h
  split at h
  · split at h
    · obtain ⟨r, hr, rfl⟩ := map_eq_ok.mp h
      exact sendOrderMsdu_load (s := t.rx.leaveInitMode) hr
    · obtain ⟨⟨ret, r⟩, hr, hafter⟩ := bind_eq_ok.mp h
      have hkeep := afterReorderMsdu_related (keepsLoad x) hafter
      exact hkeep.trans (reorderMsdu_load hr)
  · obtain ⟨l, hl, rfl⟩ := map_eq_ok.mp h
    obtain ⟨hdel, hfree⟩ := reorderSetSkbList_load (x := x) hl
    simp only [Session.rx, RxState.load, hdel, hfree, added]
    omega

/-! ## Steps and runs -/

/-- The socket buffers an event passes in. -/
def Event.skbs : Event → List Skb
  | .msdu _ skb => [skb]
  | .filter _ | .expire | .timeout | .resetPn | .activate => []

def passedIn (es : List Event) : List Skb := es.flatMap Event.skbs

theorem step_load {t t' : Session} {e : Event} (h : step t e = .ok t') :
    t'.rx.load x = t.rx.load x + e.skbs.count x := by
  cases e with
  | msdu m skb => exact reorderMsduProcess_load h
  | filter seqNum => exact reorderMsduProcess_load h
  | timeout =>
    simp only [step, baReorderTimeout] at h
    split at h
    · obtain ⟨v, _, h⟩ := bind_eq_ok.mp h
      obtain ⟨r, hr, rfl⟩ := map_eq_ok.mp h
      have hkeep : r.load x = t.rx.load x :=
        moveWindow_related (s := t.rx.leaveInitMode) (keepsLoad x) hr
      simpa [Session.rx, Session.withRx, Session.mapNode, Event.skbs] using hkeep
    · cases h
      rfl
  | expire | resetPn | activate =>
    cases h
    rfl

theorem run_load {t t' : Session} {es : List Event} (h : run step t es = .ok t') :
    t'.rx.load x = t.rx.load x + (passedIn es).count x := by
  induction es generalizing t with
  | nil =>
    cases h
    rfl
  | cons e es ih =>
    obtain ⟨u, hu, h⟩ := bind_eq_ok.mp h
    rw [ih h, step_load hu, passedIn, passedIn, List.flatMap_cons, List.count_append, Nat.add_assoc]

/-- A buffer is in one place, once: delivered, freed, or linked in one slot. -/
inductive InOnePlace (x : Skb) (s : RxState) : Prop
  | delivered (h : s.lists.deliveredSkbs.count x = 1) (hf : x ∉ s.lists.freed)
      (hs : ∀ (i : ℕ) (b : RxBaPkt), s.desc.reorderBuffer[i]? = some b → x ∉ b.skbs)
  | freed (h : s.lists.freed.count x = 1) (hd : x ∉ s.lists.deliveredSkbs)
      (hs : ∀ (i : ℕ) (b : RxBaPkt), s.desc.reorderBuffer[i]? = some b → x ∉ b.skbs)
  | linked (i : ℕ) (b : RxBaPkt) (h : s.desc.reorderBuffer[i]? = some b) (hb : b.skbs.count x = 1)
      (hs : ∀ (j : ℕ) (c : RxBaPkt), s.desc.reorderBuffer[j]? = some c → x ∈ c.skbs → j = i)
      (hd : x ∉ s.lists.deliveredSkbs) (hf : x ∉ s.lists.freed)

theorem not_linked (h : linkedIn x s.desc = 0) (i : ℕ) (b : RxBaPkt)
    (hb : s.desc.reorderBuffer[i]? = some b) : x ∉ b.skbs :=
  List.count_eq_zero.mp (total_eq_zero.mp h b (List.mem_of_getElem? hb))

theorem inOnePlace_of_load (h : s.load x = 1) : InOnePlace x s := by
  simp only [RxState.load] at h
  rcases Nat.eq_zero_or_pos (linkedIn x s.desc) with hl | hl
  · rcases Nat.eq_zero_or_pos (s.lists.freed.count x) with hf | hf
    · exact .delivered (by omega) (List.count_eq_zero.mp hf) (not_linked hl)
    · exact .freed (by omega) (List.count_eq_zero.mp (by omega)) (not_linked hl)
  · obtain ⟨i, b, hb, hone, huniq⟩ := total_eq_one (show linkedIn x s.desc = 1 by omega)
    refine .linked i b hb hone ?_ (List.count_eq_zero.mp (by omega))
      (List.count_eq_zero.mp (by omega))
    intro j c hc hx
    exact huniq j c hc (List.count_pos_iff.mpr hx).ne'

/-- After every run of a session each socket buffer is counted as often as it was passed
in; one that was passed in once is in one place. -/
theorem skb_conservation {sta tid winStart winSize indexSize : ℕ} {es : List Event} {t : Session}
    (h : run step (freshSession sta tid winStart winSize indexSize) es = .ok t) (x : Skb) :
    t.rx.load x = (passedIn es).count x ∧ ((passedIn es).count x = 1 → InOnePlace x t.rx) := by
  have hload : t.rx.load x = (passedIn es).count x := by
    rw [run_load h]
    simp [freshSession, Session.rx, RxState.load, RxLists.empty, RxLists.deliveredSkbs, linkedIn,
      setBaNodeDesc, newBaNode, RxBaPkt.zero]
  exact ⟨hload, fun hone => inOnePlace_of_load (hload.trans hone)⟩

/-- A subframe, linked while the MPDUs around it are delivered or dropped. -/
def linkedRun : List Event :=
  [.activate, .msdu (filterDesc 10) 1, .msdu { filterDesc 12 with lastMsduOfMpdu := false } 2,
    .msdu (filterDesc 10) 3]

set_option maxRecDepth 4000 in
theorem skb_conservation_linked : ∃ t,
    run step (freshSession 1 2 10 32 64) linkedRun = .ok t ∧ InOnePlace 2 t.rx :=
  ⟨_, rfl, (@skb_conservation 1 2 10 32 64 linkedRun _ rfl 2).2 rfl⟩

end Uwe5631.Reorder
