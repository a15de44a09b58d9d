import Uwe5631.EndlessRuns
import Mathlib

/-!
# Deferred work

`sprdwl_queue_work` appends an item to the work list and queues the work on an ordered workqueue
unless it looks pending; `sprdwl_do_work` takes the items one by one until the list is empty;
`sprdwl_cancle_work` removes the items of a vif and flushes the work. Each critical section, each
test and each call into the workqueue is a step.
-/
namespace Uwe5631.Work
open EndlessRuns

/-- A `sprdwl_work`, numbered by when it was queued. -/
structure Item where
  serial : ℕ
  vif : Option ℕ
  id : ℕ
  deriving DecidableEq, Repr

/-- Where `sprdwl_do_work` is. -/
inductive Worker where
  /-- not running -/
  | idle
  /-- before `sprdwl_get_work` -/
  | fetch
  | executing (x : Item)
  /-- `sprdwl_get_work` has returned `NULL` -/
  | leaving
  deriving DecidableEq, Repr

/-- A call of `sprdwl_cancle_work`, with the number of items that were queued before it. -/
structure Cancel where
  vif : Option ℕ
  before : ℕ
  deriving DecidableEq, Repr

structure State where
  list : List Item
  /-- `work_pending(&priv->work)` -/
  pending : Bool
  worker : Worker
  /-- the items whose `sprdwl_queue_work` is before its test -/
  testing : List ℕ
  /-- the items whose `sprdwl_queue_work` is before `queue_work` -/
  queueing : List ℕ
  /-- the calls of `sprdwl_cancle_work` before `flush_work` -/
  flushing : List Cancel
  /-- those in `flush_work`, with the run of the work they wait for -/
  waiting : List (Cancel × ℕ)
  /-- the number of finished runs of the work -/
  finished : ℕ
  queued : List Item
  executed : List Item
  cancelled : List Item
  /-- the calls of `sprdwl_cancle_work` that have returned -/
  returned : List Cancel
  deriving DecidableEq, Repr

/-- After `sprdwl_init_work`. -/
def initWork : State where
  list := []
  pending := false
  worker := .idle
  testing := []
  queueing := []
  flushing := []
  waiting := []
  finished := 0
  queued := []
  executed := []
  cancelled := []
  returned := []

inductive Event where
  | queueWork (vif : Option ℕ) (id : ℕ)
  | queueNext (serial : ℕ)
  | doWork
  | cancleWork (vif : Option ℕ)
  | flushWork (k : ℕ)
  | flushed (k : ℕ)
  deriving DecidableEq, Repr

/-- The item a worker executes. -/
def Worker.hand : Worker → List Item
  | .executing x => [x]
  | _ => []

/-- Whether a running worker will examine the list again. -/
def Worker.rereads : Worker → Bool
  | .fetch => true
  | .executing _ => true
  | _ => false

/-- The critical section of `sprdwl_queue_work` -/
def queueWork (s : State) (vif : Option ℕ) (id : ℕ) : State :=
  { s with
    list := s.list ++ [⟨s.queued.length, vif, id⟩]
    queued := s.queued ++ [⟨s.queued.length, vif, id⟩]
    testing := s.testing ++ [s.queued.length] }

/-- The rest of `sprdwl_queue_work`: the test of `work_pending`, then `queue_work`. -/
def queueNext (s : State) (serial : ℕ) : State :=
  if serial ∈ s.queueing then { s with queueing := s.queueing.erase serial, pending := true }
  else if serial ∈ s.testing then
    if s.pending then { s with testing := s.testing.erase serial }
    else { s with testing := s.testing.erase serial, queueing := s.queueing ++ [serial] }
  else s

/-- A step of the worker. The workqueue clears the pending bit before it calls `sprdwl_do_work`. -/
def doWork (s : State) : State :=
  match s.worker with
  | .idle => if s.pending then { s with pending := false, worker := .fetch } else s
  | .fetch =>
    match s.list with
    | [] => { s with worker := .leaving }
    | x :: list => { s with list := list, worker := .executing x }
  | .executing x => { s with worker := .fetch, executed := s.executed ++ [x] }
  | .leaving => { s with worker := .idle, finished := s.finished + 1 }

/-- The critical section of `sprdwl_cancle_work` -/
def cancleWork (s : State) (vif : Option ℕ) : State :=
  { s with
    list := s.list.filter (·.vif ≠ vif)
    cancelled := s.cancelled ++ s.list.filter (·.vif = vif)
    flushing := s.flushing ++ [⟨vif, s.queued.length⟩] }

/-- The number of the run of the work that `flush_work` waits for: the pending one, else the one
in progress, else the last one that has finished. -/
def flushTarget (s : State) : ℕ :=
  s.finished + (if s.worker = .idle then 0 else 1) + (if s.pending then 1 else 0)

/-- `flush_work` begins to wait. -/
def flushWork (s : State) (k : ℕ) : State :=
  match s.flushing[k]? with
  | none => s
  | some c => { s with
      flushing := s.flushing.eraseIdx k
      waiting := s.waiting ++ [(c, flushTarget s)] }

/-- `flush_work` returns if what it waits for has finished. -/
def flushed (s : State) (k : ℕ) : State :=
  match s.waiting[k]? with
  | none => s
  | some c =>
    if c.2 ≤ s.finished then
      { s with waiting := s.waiting.eraseIdx k, returned := s.returned ++ [c.1] }
    else s

def next (s : State) : Event → State
  | .queueWork vif id => queueWork s vif id
  | .queueNext serial => queueNext s serial
  | .doWork => doWork s
  | .cancleWork vif => cancleWork s vif
  | .flushWork k => flushWork s k
  | .flushed k => flushed s k

/-! ## What is kept -/

/-- The worker is pending or running and will examine the list again. -/
def Armed (s : State) : Prop := s.pending = true ∨ s.worker.rereads = true

/-- An item that was queued before a call of `sprdwl_cancle_work` for its vif. -/
def Cancel.Covers (c : Cancel) (x : Item) : Prop := x.vif = c.vif ∧ x.serial < c.before

/-- What the queue promises in every state. -/
structure Kept (s : State) : Prop where
  /-- the worker looks at a list that is not empty again -/
  woken : s.list ≠ [] → s.testing = [] → s.queueing = [] → Armed s
  /-- no item is executed twice, and one that is being executed was not executed before -/
  once : (s.executed ++ s.worker.hand).Nodup
  /-- the items are executed in the order they were queued -/
  order : (s.executed ++ s.worker.hand).Sublist s.queued
  /-- an item that is not waiting or being executed was executed or cancelled -/
  accounted : ∀ x ∈ s.queued,
    x ∈ s.list ∨ x ∈ s.worker.hand ∨ x ∈ s.executed ∨ x ∈ s.cancelled
  /-- a cancelled item is not executed -/
  apart : ∀ x ∈ s.cancelled, x ∉ s.executed ∧ x ∉ s.worker.hand
  /-- what was queued before a call of `sprdwl_cancle_work` that has returned is not executed -/
  cancelled : ∀ c ∈ s.returned, ∀ x, c.Covers x → x ∉ s.worker.hand

/-- The items are numbered in the order they were queued. -/
structure Numbered (s : State) : Prop where
  serials : s.queued.map Item.serial = List.range s.queued.length
  order : (s.executed ++ s.worker.hand ++ s.list).Sublist s.queued

/-- Each queued item is in one place. -/
structure Placed (s : State) : Prop where
  accounted : ∀ x ∈ s.queued,
    x ∈ s.list ∨ x ∈ s.worker.hand ∨ x ∈ s.executed ∨ x ∈ s.cancelled
  known : ∀ x ∈ s.cancelled, x ∈ s.queued
  apart : ∀ x ∈ s.cancelled, x ∉ s.executed ++ s.worker.hand ++ s.list

/-- Where the items are that a call of `sprdwl_cancle_work` covers. -/
structure Flushed (s : State) : Prop where
  flushing : ∀ c ∈ s.flushing, c.before ≤ s.queued.length ∧ ∀ x, c.Covers x → x ∉ s.list
  waiting : ∀ c ∈ s.waiting, c.1.before ≤ s.queued.length ∧
    ∀ x, c.1.Covers x → x ∉ s.list ∧ (x ∈ s.worker.hand → s.finished < c.2)
  returned : ∀ c ∈ s.returned, c.before ≤ s.queued.length ∧
    ∀ x, c.Covers x → x ∉ s.list ∧ x ∉ s.worker.hand

structure Sound (s : State) : Prop where
  numbered : Numbered s
  placed : Placed s
  flushed : Flushed s
  woken : s.list ≠ [] → Armed s ∨ s.testing ≠ [] ∨ s.queueing ≠ []

theorem Numbered.nodup {s : State} (h : Numbered s) : s.queued.Nodup := by
  apply List.Nodup.of_map Item.serial
  rw [h.serials]
  exact List.nodup_range

theorem Numbered.serial_lt {s : State} (h : Numbered s) {x : Item} (hx : x ∈ s.queued) :
    x.serial < s.queued.length := by
  have hmem := List.mem_map_of_mem (f := Item.serial) hx
  rw [h.serials, List.mem_range] at hmem
  exact hmem

theorem Sound.kept {s : State} (h : Sound s) : Kept s where
  woken hl ht hq := by
    rcases h.woken hl with ha | ht' | hq'
    · exact ha
    · exact absurd ht ht'
    · exact absurd hq hq'
  once := by
    have hn := h.numbered.order.nodup h.numbered.nodup
    exact (List.nodup_append.mp hn).1
  order := (List.sublist_append_left _ _).trans h.numbered.order
  accounted := h.placed.accounted
  apart x hx := by
    have := h.placed.apart x hx
    simp only [List.mem_append, not_or] at this
    exact this.1
  cancelled c hc x hx := ((h.flushed.returned c hc).2 x hx).2

theorem sound_init : Sound initWork where
  numbered := ⟨rfl, List.Sublist.refl _⟩
  placed := by
    refine ⟨?_, ?_, ?_⟩
    all_goals
      intro x hx
      cases hx
  flushed := by
    refine ⟨?_, ?_, ?_⟩
    all_goals
      intro c hc
      cases hc
  woken hl := absurd rfl hl

/-! ## The steps -/

theorem Numbered.fresh {s : State} (h : Numbered s) (vif : Option ℕ) (id : ℕ) :
    (⟨s.queued.length, vif, id⟩ : Item) ∉ s.queued := by
  intro hmem
  exact absurd (h.serial_lt hmem) (lt_irrefl _)

theorem Sound.queueWork {s : State} (h : Sound s) (vif : Option ℕ) (id : ℕ) :
    Sound (queueWork s vif id) where
  numbered := by
    refine ⟨?_, ?_⟩
    · simp only [Work.queueWork, List.map_append, List.map_cons, List.map_nil, h.numbered.serials,
        List.length_append, List.length_singleton, List.range_succ]
    · simp only [Work.queueWork, ← List.append_assoc]
      exact h.numbered.order.append (List.Sublist.refl _)
  placed := by
    refine ⟨?_, ?_, ?_⟩
    · intro x hx
      rcases List.mem_append.mp hx with hx | hx
      · rcases h.placed.accounted x hx with hl | hrest
        · exact Or.inl (List.mem_append_left _ hl)
        · exact Or.inr hrest
      · exact Or.inl (List.mem_append_right _ hx)
    · intro x hx
      exact List.mem_append_left _ (h.placed.known x hx)
    · intro x hx hmem
      simp only [Work.queueWork, ← List.append_assoc] at hmem
      rcases List.mem_append.mp hmem with hmem | hmem
      · exact h.placed.apart x hx hmem
      · rw [List.mem_singleton.mp hmem] at hx
        exact h.numbered.fresh vif id (h.placed.known _ hx)
  flushed := by
    -- the new item has a number that no earlier call covers
    have hnew : ∀ (c : Cancel) (x : Item), c.before ≤ s.queued.length → c.Covers x → x ∉ s.list →
        x ∉ (Work.queueWork s vif id).list := by
      intro c x hc hx hl hmem
      rcases List.mem_append.mp hmem with hmem | hmem
      · exact hl hmem
      · rw [List.mem_singleton.mp hmem] at hx
        exact absurd (lt_of_lt_of_le hx.2 hc) (lt_irrefl _)
    have hlen : s.queued.length ≤ (Work.queueWork s vif id).queued.length := by
      simp [Work.queueWork]
    refine ⟨?_, ?_, ?_⟩
    · intro c hc
      obtain ⟨hb, hl⟩ := h.flushed.flushing c hc
      exact ⟨hb.trans hlen, fun x hx => hnew c x hb hx (hl x hx)⟩
    · intro c hc
      obtain ⟨hb, hl⟩ := h.flushed.waiting c hc
      exact ⟨hb.trans hlen, fun x hx => ⟨hnew c.1 x hb hx (hl x hx).1, (hl x hx).2⟩⟩
    · intro c hc
      obtain ⟨hb, hl⟩ := h.flushed.returned c hc
      exact ⟨hb.trans hlen, fun x hx => ⟨hnew c x hb hx (hl x hx).1, (hl x hx).2⟩⟩
  woken _ := Or.inr (Or.inl (by simp [Work.queueWork]))

theorem Sound.queueNext {s : State} (h : Sound s) (serial : ℕ) : Sound (queueNext s serial) := by
  unfold Work.queueNext
  split
  · exact ⟨⟨h.numbered.serials, h.numbered.order⟩,
      ⟨h.placed.accounted, h.placed.known, h.placed.apart⟩,
      ⟨h.flushed.flushing, h.flushed.waiting, h.flushed.returned⟩,
      fun _ => Or.inl (Or.inl rfl)⟩
  split
  · split
    · case isTrue hp =>
      -- the work looked pending, and no step of the worker came between
      exact ⟨⟨h.numbered.serials, h.numbered.order⟩,
        ⟨h.placed.accounted, h.placed.known, h.placed.apart⟩,
        ⟨h.flushed.flushing, h.flushed.waiting, h.flushed.returned⟩,
        fun _ => Or.inl (Or.inl hp)⟩
    · exact ⟨⟨h.numbered.serials, h.numbered.order⟩,
        ⟨h.placed.accounted, h.placed.known, h.placed.apart⟩,
        ⟨h.flushed.flushing, h.flushed.waiting, h.flushed.returned⟩,
        fun _ => Or.inr (Or.inr (by simp))⟩
  · exact h

theorem Sound.doWork {s : State} (h : Sound s) : Sound (doWork s) := by
  obtain ⟨⟨hserials, horder⟩, ⟨hacc, hknown, hapart⟩, ⟨hflushing, hwaiting, hreturned⟩, hwoken⟩ := h
  unfold Work.doWork
  cases hw : s.worker with
  | idle =>
    simp only [hw, Worker.hand, List.append_nil] at horder hacc hapart hwaiting hreturned
    by_cases hp : s.pending = true
    · simp only [hp, if_true]
      exact ⟨⟨hserials, by simpa [Worker.hand] using horder⟩,
        ⟨hacc, hknown, by simpa [Worker.hand] using hapart⟩,
        ⟨hflushing, hwaiting, hreturned⟩, fun _ => Or.inl (Or.inr rfl)⟩
    · simp only [hp]
      exact ⟨⟨hserials, by simpa [Worker.hand, hw] using horder⟩,
        ⟨by simpa [Worker.hand, hw] using hacc, hknown, by simpa [Worker.hand, hw] using hapart⟩,
        ⟨hflushing, by simpa [Worker.hand, hw] using hwaiting,
          by simpa [Worker.hand, hw] using hreturned⟩, hwoken⟩
  | fetch =>
    simp only [hw, Worker.hand, List.append_nil] at horder hacc hapart hwaiting hreturned
    cases hl : s.list with
    | nil =>
      exact ⟨⟨hserials, by simpa [Worker.hand, hl] using horder⟩,
        ⟨by simpa [Worker.hand, hl] using hacc, hknown, by simpa [Worker.hand, hl] using hapart⟩,
        ⟨by simpa [hl] using hflushing, by simpa [Worker.hand, hl] using hwaiting,
          by simpa [Worker.hand, hl] using hreturned⟩, fun hne => absurd rfl hne⟩
    | cons x list =>
      simp only [hl] at horder hacc hapart hwaiting hreturned hflushing
      refine ⟨⟨hserials, by simpa [Worker.hand] using horder⟩, ⟨?_, hknown, ?_⟩, ⟨?_, ?_, ?_⟩,
        fun _ => Or.inl (Or.inr rfl)⟩
      · intro y hy
        have := hacc y hy
        simp only [List.mem_cons] at this
        simp only [Worker.hand, List.mem_singleton]
        tauto
      · simpa [Worker.hand] using hapart
      · intro c hc
        exact ⟨(hflushing c hc).1,
          fun y hy hmem => (hflushing c hc).2 y hy (List.mem_cons_of_mem _ hmem)⟩
      · intro c hc
        refine ⟨(hwaiting c hc).1, fun y hy => ?_⟩
        have hnot := ((hwaiting c hc).2 y hy).1
        refine ⟨fun hmem => hnot (List.mem_cons_of_mem _ hmem), fun hmem => ?_⟩
        -- what the worker takes was in the list, and nothing in it is covered
        rw [List.mem_singleton.mp hmem] at hnot
        exact absurd List.mem_cons_self hnot
      · intro c hc
        refine ⟨(hreturned c hc).1, fun y hy => ?_⟩
        have hnot := ((hreturned c hc).2 y hy).1
        refine ⟨fun hmem => hnot (List.mem_cons_of_mem _ hmem), fun hmem => ?_⟩
        rw [List.mem_singleton.mp hmem] at hnot
        exact hnot List.mem_cons_self
  | executing x =>
    simp only [hw, Worker.hand] at horder hacc hapart hwaiting hreturned
    refine ⟨⟨hserials, by simpa [Worker.hand] using horder⟩, ⟨?_, hknown, ?_⟩, ⟨hflushing, ?_, ?_⟩,
      fun _ => Or.inl (Or.inr rfl)⟩
    · intro y hy
      have := hacc y hy
      simp only [Worker.hand, List.mem_append, List.mem_singleton] at this ⊢
      tauto
    · simpa [Worker.hand] using hapart
    · intro c hc
      refine ⟨(hwaiting c hc).1, fun y hy => ⟨((hwaiting c hc).2 y hy).1, fun hmem => ?_⟩⟩
      cases hmem
    · intro c hc
      refine ⟨(hreturned c hc).1, fun y hy => ⟨((hreturned c hc).2 y hy).1, fun hmem => ?_⟩⟩
      cases hmem
  | leaving =>
    simp only [hw, Worker.hand, List.append_nil] at horder hacc hapart hwaiting hreturned
    refine ⟨⟨hserials, by simpa [Worker.hand] using horder⟩,
      ⟨hacc, hknown, by simpa [Worker.hand] using hapart⟩, ⟨hflushing, ?_, hreturned⟩, ?_⟩
    · intro c hc
      refine ⟨(hwaiting c hc).1, fun y hy => ⟨((hwaiting c hc).2 y hy).1, fun hmem => ?_⟩⟩
      cases hmem
    · intro hne
      rcases hwoken hne with (hp | hr) | hrest
      · exact Or.inl (Or.inl hp)
      · simp [hw, Worker.rereads] at hr
      · exact Or.inr hrest

theorem Sound.cancleWork {s : State} (h : Sound s) (vif : Option ℕ) :
    Sound (cancleWork s vif) where
  numbered := ⟨h.numbered.serials,
    ((List.Sublist.refl _).append List.filter_sublist).trans h.numbered.order⟩
  placed := by
    refine ⟨?_, ?_, ?_⟩
    · intro x hx
      simp only [Work.cancleWork, List.mem_filter, List.mem_append, decide_eq_true_eq]
      have := h.placed.accounted x hx
      tauto
    · intro x hx
      simp only [Work.cancleWork, List.mem_append, List.mem_filter] at hx
      rcases hx with hx | hx
      · exact h.placed.known x hx
      · exact h.numbered.order.subset (List.mem_append_right _ hx.1)
    · intro x hx hmem
      simp only [Work.cancleWork, List.mem_append, List.mem_filter, decide_eq_true_eq] at hx hmem
      rcases hx with hx | ⟨hx, hv⟩
      · refine h.placed.apart x hx ?_
        simp only [List.mem_append]
        tauto
      · rcases hmem with hmem | hmem
        · -- an item of the list is not executed, for the queued items are distinct
          have hn := h.numbered.order.nodup h.numbered.nodup
          rw [← List.mem_append] at hmem
          exact (List.nodup_append.mp hn).2.2 x hmem x hx rfl
        · exact hmem.2 hv
  flushed := by
    refine ⟨?_, ?_, ?_⟩
    · intro c hc
      simp only [Work.cancleWork, List.mem_append, List.mem_singleton] at hc
      rcases hc with hc | rfl
      · obtain ⟨hb, hl⟩ := h.flushed.flushing c hc
        exact ⟨hb, fun x hx hmem => hl x hx (List.mem_filter.mp hmem).1⟩
      · refine ⟨le_refl _, fun x hx hmem => ?_⟩
        simp only [Work.cancleWork, List.mem_filter, decide_eq_true_eq] at hmem
        exact hmem.2 hx.1
    · intro c hc
      obtain ⟨hb, hl⟩ := h.flushed.waiting c hc
      exact ⟨hb, fun x hx => ⟨fun hmem => (hl x hx).1 (List.mem_filter.mp hmem).1, (hl x hx).2⟩⟩
    · intro c hc
      obtain ⟨hb, hl⟩ := h.flushed.returned c hc
      exact ⟨hb, fun x hx => ⟨fun hmem => (hl x hx).1 (List.mem_filter.mp hmem).1, (hl x hx).2⟩⟩
  woken hl := by
    refine h.woken fun hnil => hl ?_
    simp [Work.cancleWork, hnil]

theorem hand_running {s : State} {x : Item} (hx : x ∈ s.worker.hand) : s.worker ≠ .idle := by
  intro hw
  simp [hw, Worker.hand] at hx

theorem Sound.flushWork {s : State} (h : Sound s) (k : ℕ) : Sound (flushWork s k) := by
  unfold Work.flushWork
  cases hk : s.flushing[k]? with
  | none => exact h
  | some c =>
    refine ⟨⟨h.numbered.serials, h.numbered.order⟩,
      ⟨h.placed.accounted, h.placed.known, h.placed.apart⟩, ⟨?_, ?_, h.flushed.returned⟩, h.woken⟩
    · intro c' hc'
      exact h.flushed.flushing c' (List.mem_of_mem_eraseIdx hc')
    · intro c' hc'
      simp only [List.mem_append, List.mem_singleton] at hc'
      rcases hc' with hc' | rfl
      · exact h.flushed.waiting c' hc'
      · obtain ⟨hb, hl⟩ := h.flushed.flushing c (List.mem_of_getElem? hk)
        refine ⟨hb, fun x hx => ⟨hl x hx, fun hmem => ?_⟩⟩
        -- the item is being executed, so the run in progress has to finish
        have hrun := hand_running hmem
        simp only [flushTarget, hrun, if_false]
        omega

theorem Sound.flushed_step {s : State} (h : Sound s) (k : ℕ) : Sound (Work.flushed s k) := by
  unfold Work.flushed
  cases hk : s.waiting[k]? with
  | none => exact h
  | some c =>
    simp only
    split
    · case isTrue hfin =>
      refine ⟨⟨h.numbered.serials, h.numbered.order⟩,
        ⟨h.placed.accounted, h.placed.known, h.placed.apart⟩, ⟨h.flushed.flushing, ?_, ?_⟩, h.woken⟩
      · intro c' hc'
        exact h.flushed.waiting c' (List.mem_of_mem_eraseIdx hc')
      · intro c' hc'
        simp only [List.mem_append, List.mem_singleton] at hc'
        rcases hc' with hc' | rfl
        · exact h.flushed.returned c' hc'
        · obtain ⟨hb, hl⟩ := h.flushed.waiting c (List.mem_of_getElem? hk)
          refine ⟨hb, fun x hx => ⟨(hl x hx).1, fun hmem => ?_⟩⟩
          exact absurd ((hl x hx).2 hmem) (not_lt.mpr hfin)
    · exact h

theorem Sound.next {s : State} (h : Sound s) (e : Event) : Sound (next s e) := by
  cases e with
  | queueWork vif id => exact h.queueWork vif id
  | queueNext serial => exact h.queueNext serial
  | doWork => exact h.doWork
  | cancleWork vif => exact h.cancleWork vif
  | flushWork k => exact h.flushWork k
  | flushed k => exact h.flushed_step k

/-! ## Progress -/

/-- The worker of a work that is pending or running goes on, and so do the calls of
`sprdwl_queue_work`. -/
structure Fair (ev : ℕ → Event) : Prop where
  worker : ∀ n, (stateAt next initWork ev n).pending = true ∨
    (stateAt next initWork ev n).worker ≠ .idle → ∃ m, n ≤ m ∧ ev m = .doWork
  calls : ∀ n serial, serial ∈ (stateAt next initWork ev n).testing ∨
    serial ∈ (stateAt next initWork ev n).queueing → ∃ m, n ≤ m ∧ ev m = .queueNext serial

theorem idxOf_filter_le {x : Item} (p : Item → Bool) (hp : p x = true) (l : List Item) :
    (l.filter p).idxOf x ≤ l.idxOf x := by
  induction l with
  | nil => simp
  | cons y l ih =>
    by_cases hy : y = x
    · simp [hy, hp]
    · by_cases hpy : p y = true
      · simp only [List.filter_cons, hpy, if_true, List.idxOf_cons_ne _ hy]
        omega
      · simp only [List.filter_cons, hpy, Bool.false_eq_true, if_false, List.idxOf_cons_ne _ hy]
        omega

@[simp] theorem queueNext_list (s : State) (serial : ℕ) :
    (queueNext s serial).list = s.list := by
  unfold queueNext
  split_ifs <;> rfl

@[simp] theorem queueNext_worker (s : State) (serial : ℕ) :
    (queueNext s serial).worker = s.worker := by
  unfold queueNext
  split_ifs <;> rfl

theorem queueNext_pending {s : State} (h : s.pending = true) (serial : ℕ) :
    (queueNext s serial).pending = true := by
  unfold queueNext
  split_ifs <;> first | rfl | exact h

/-- Neither step of a flush touches the list, the worker or the calls of `sprdwl_queue_work`. -/
theorem flush_frame (s : State) (k : ℕ) (t : State) (ht : t = flushWork s k ∨ t = flushed s k) :
    t.list = s.list ∧ t.pending = s.pending ∧ t.worker = s.worker ∧ t.testing = s.testing ∧
      t.queueing = s.queueing := by
  rcases ht with rfl | rfl
  · unfold flushWork
    split <;> simp
  · unfold flushed
    split
    · simp
    · split <;> simp

/-- The worker does not touch the calls of `sprdwl_queue_work`. -/
theorem doWork_calls (s : State) :
    (doWork s).testing = s.testing ∧ (doWork s).queueing = s.queueing := by
  unfold doWork
  split
  · split <;> simp
  · split <;> simp
  · simp
  · simp

/-- What becomes of an item of the list: it moves towards the head unless it is cancelled or the
worker takes it. -/
theorem listed_next {s : State} {x : Item} (hx : x ∈ s.list) (e : Event) :
    x ∈ (next s e).cancelled ∨ x ∈ (next s e).worker.hand ∨
      (x ∈ (next s e).list ∧ (next s e).list.idxOf x ≤ s.list.idxOf x) := by
  cases e with
  | queueWork vif id =>
    refine Or.inr (Or.inr ⟨List.mem_append_left _ hx, ?_⟩)
    exact (List.idxOf_append_of_mem hx).le
  | queueNext serial =>
    refine Or.inr (Or.inr ?_)
    simp only [next, queueNext_list]
    exact ⟨hx, le_refl _⟩
  | doWork =>
    simp only [next, doWork]
    cases hw : s.worker with
    | idle =>
      by_cases hp : s.pending = true
      · simp [hp, hx]
      · simp [hp, hx]
    | fetch =>
      cases hl : s.list with
      | nil =>
        rw [hl] at hx
        cases hx
      | cons y list =>
        rw [hl] at hx
        by_cases hy : y = x
        · exact Or.inr (Or.inl (by simp [Worker.hand, hy]))
        · have hmem : x ∈ list := (List.mem_cons.mp hx).resolve_left fun h => hy h.symm
          refine Or.inr (Or.inr ⟨hmem, ?_⟩)
          rw [List.idxOf_cons_ne _ hy]
          exact Nat.le_succ _
    | executing y => simp [hx]
    | leaving => simp [hx]
  | cancleWork vif =>
    by_cases hv : x.vif = vif
    · refine Or.inl (List.mem_append_right _ (List.mem_filter.mpr ⟨hx, ?_⟩))
      simpa using hv
    · refine Or.inr (Or.inr ⟨List.mem_filter.mpr ⟨hx, ?_⟩, ?_⟩)
      · simpa using hv
      · exact idxOf_filter_le _ (by simpa using hv) _
  | flushWork k =>
    have hf := flush_frame s k _ (Or.inl rfl)
    refine Or.inr (Or.inr ?_)
    simp only [next, hf.1]
    exact ⟨hx, le_refl _⟩
  | flushed k =>
    have hf := flush_frame s k _ (Or.inr rfl)
    refine Or.inr (Or.inr ?_)
    simp only [next, hf.1]
    exact ⟨hx, le_refl _⟩

/-- The steps of the worker up to its next `sprdwl_get_work`. -/
def Worker.rank : Worker → ℕ
  | .fetch => 1
  | .executing _ => 2
  | .idle => 2
  | .leaving => 3

/-- An armed worker stays armed as long as there is something in the list, and each of its steps
brings it closer to it. -/
theorem armed_next {s : State} {x : Item} (hx : x ∈ s.list) (ha : Armed s) (e : Event) :
    (x ∈ (next s e).cancelled ∨ x ∈ (next s e).worker.hand) ∨
      ((x ∈ (next s e).list ∧ Armed (next s e)) ∧
        2 * (next s e).list.idxOf x + (next s e).worker.rank ≤
          2 * s.list.idxOf x + s.worker.rank ∧
        (e = .doWork → 2 * (next s e).list.idxOf x + (next s e).worker.rank <
          2 * s.list.idxOf x + s.worker.rank)) := by
  rcases listed_next hx e with hc | hh | ⟨hl, hle⟩
  · exact Or.inl (Or.inl hc)
  · exact Or.inl (Or.inr hh)
  · cases e with
    | queueWork vif id =>
      refine Or.inr ⟨⟨hl, ha⟩, ?_, by simp⟩
      simp only [next, queueWork] at hle ⊢
      omega
    | queueNext serial =>
      refine Or.inr ⟨⟨hl, ?_⟩, ?_, by simp⟩
      · simp only [next, Armed, queueNext_worker]
        exact ha.imp_left fun hp => queueNext_pending hp serial
      · simp only [next, queueNext_list, queueNext_worker]
        exact le_refl _
    | doWork =>
      simp only [next, doWork] at hl hle ⊢
      cases hw : s.worker with
      | idle =>
        have hp : s.pending = true := ha.resolve_right (by simp [hw, Worker.rereads])
        refine Or.inr ?_
        simp [hp, hx, Armed, Worker.rereads, Worker.rank]
      | fetch =>
        cases hs : s.list with
        | nil =>
          rw [hs] at hx
          cases hx
        | cons y list =>
          rw [hs] at hx
          by_cases hy : y = x
          · exact Or.inl (Or.inr (by simp [Worker.hand, hy]))
          · have hmem : x ∈ list := (List.mem_cons.mp hx).resolve_left fun h => hy h.symm
            refine Or.inr ⟨⟨hmem, Or.inr rfl⟩, ?_, fun _ => ?_⟩
            all_goals
              simp only [List.idxOf_cons_ne _ hy, Worker.rank]
              omega
      | executing y =>
        refine Or.inr ?_
        simp [hx, Armed, Worker.rereads, Worker.rank]
      | leaving =>
        have hp : s.pending = true := ha.resolve_right (by simp [hw, Worker.rereads])
        refine Or.inr ?_
        simp [hp, hx, Armed, Worker.rank]
    | cancleWork vif =>
      refine Or.inr ⟨⟨hl, ha⟩, ?_, by simp⟩
      simp only [next, cancleWork] at hle ⊢
      omega
    | flushWork k =>
      obtain ⟨_, hp, hw, _, _⟩ := flush_frame s k _ (Or.inl rfl)
      refine Or.inr ⟨⟨hl, ?_⟩, ?_, by simp⟩
      · simpa only [next, Armed, hp, hw] using ha
      · simp only [next, hw] at hle ⊢
        omega
    | flushed k =>
      obtain ⟨_, hp, hw, _, _⟩ := flush_frame s k _ (Or.inr rfl)
      refine Or.inr ⟨⟨hl, ?_⟩, ?_, by simp⟩
      · simpa only [next, Armed, hp, hw] using ha
      · simp only [next, hw] at hle ⊢
        omega

/-- An item whose call of `sprdwl_queue_work` is on its way to `queue_work`, with a worker that will
not look at the list by itself. -/
def Coming (x : Item) (serial : ℕ) (s : State) : Prop :=
  x ∈ s.list ∧ ¬ Armed s ∧ (serial ∈ s.testing ∨ serial ∈ s.queueing)

theorem coming_next {s : State} {x : Item} {serial : ℕ} (h : Coming x serial s) (e : Event) :
    (x ∈ (next s e).cancelled ∨ x ∈ (next s e).worker.hand ∨
        (x ∈ (next s e).list ∧ Armed (next s e))) ∨
      (Coming x serial (next s e) ∧
        (if serial ∈ (next s e).queueing then 0 else 1) ≤ (if serial ∈ s.queueing then 0 else 1) ∧
        (e = .queueNext serial →
          (if serial ∈ (next s e).queueing then 0 else 1) <
            (if serial ∈ s.queueing then 0 else 1))) := by
  obtain ⟨hx, ha, hin⟩ := h
  rcases listed_next hx e with hc | hh | ⟨hl, _⟩
  · exact Or.inl (Or.inl hc)
  · exact Or.inl (Or.inr (Or.inl hh))
  by_cases ha' : Armed (next s e)
  · exact Or.inl (Or.inr (Or.inr ⟨hl, ha'⟩))
  refine Or.inr ?_
  cases e with
  | queueWork vif id =>
    refine ⟨⟨hl, ha', hin.imp_left (List.mem_append_left _)⟩, le_refl _, by simp⟩
  | queueNext j =>
    have hp : s.pending ≠ true := fun hp => ha (Or.inl hp)
    by_cases hq : j ∈ s.queueing
    · exact absurd (Or.inl (by simp [next, queueNext, hq])) ha'
    by_cases ht : j ∈ s.testing
    · have hnext : next s (.queueNext j) =
          { s with testing := s.testing.erase j, queueing := s.queueing ++ [j] } := by
        simp [next, queueNext, hq, ht, hp]
      rw [hnext] at hl ha' ⊢
      by_cases hj : serial = j
      · subst hj
        simp [Coming, hl, ha', hq]
      · refine ⟨⟨hl, ha', ?_⟩, ?_, ?_⟩
        · simpa [List.mem_erase_of_ne hj, hj] using hin
        · simp [hj]
        · intro he
          exact absurd (Event.queueNext.inj he).symm hj
    · have hnext : next s (.queueNext j) = s := by simp [next, queueNext, hq, ht]
      rw [hnext]
      refine ⟨⟨hx, ha, hin⟩, le_refl _, ?_⟩
      intro he
      rw [← Event.queueNext.inj he] at hin
      exact absurd hin (by simp [hq, ht])
  | doWork =>
    refine ⟨⟨hl, ha', ?_⟩, ?_, by simp⟩
    · simpa only [next, doWork_calls] using hin
    · simp only [next, doWork_calls]
      exact le_refl _
  | cancleWork vif => exact ⟨⟨hl, ha', hin⟩, le_refl _, by simp⟩
  | flushWork k =>
    obtain ⟨_, _, _, ht, hq⟩ := flush_frame s k _ (Or.inl rfl)
    refine ⟨⟨hl, ha', by simpa only [next, ht, hq] using hin⟩, ?_, by simp⟩
    simp only [next, hq]
    exact le_refl _
  | flushed k =>
    obtain ⟨_, _, _, ht, hq⟩ := flush_frame s k _ (Or.inr rfl)
    refine ⟨⟨hl, ha', by simpa only [next, ht, hq] using hin⟩, ?_, by simp⟩
    simp only [next, hq]
    exact le_refl _

/-- What the worker has in hand is executed with its next step. -/
theorem hand_next {s : State} {x : Item} (hx : x ∈ s.worker.hand) (e : Event) :
    x ∈ (next s e).executed ∨ (x ∈ (next s e).worker.hand ∧ e ≠ .doWork) := by
  cases e with
  | doWork =>
    left
    cases hw : s.worker with
    | executing y =>
      rw [hw] at hx
      simpa [next, doWork, hw, Worker.hand] using Or.inr hx
    | idle => simp [hw, Worker.hand] at hx
    | fetch => simp [hw, Worker.hand] at hx
    | leaving => simp [hw, Worker.hand] at hx
  | queueWork vif id => exact Or.inr ⟨hx, by simp⟩
  | queueNext serial => exact Or.inr ⟨by simpa only [next, queueNext_worker] using hx, by simp⟩
  | cancleWork vif => exact Or.inr ⟨hx, by simp⟩
  | flushWork k =>
    obtain ⟨_, _, hw, _, _⟩ := flush_frame s k _ (Or.inl rfl)
    exact Or.inr ⟨by simpa only [next, hw] using hx, by simp⟩
  | flushed k =>
    obtain ⟨_, _, hw, _, _⟩ := flush_frame s k _ (Or.inr rfl)
    exact Or.inr ⟨by simpa only [next, hw] using hx, by simp⟩

section
variable {ev : ℕ → Event} (hfair : Fair ev) (x : Item)
include hfair

theorem hand_leadsTo : LeadsTo next initWork ev (fun s => x ∈ s.worker.hand)
    (fun s => x ∈ s.executed ∨ x ∈ s.cancelled) := by
  refine LeadsTo.of_rank (· = .doWork) (fun _ => 0) ?_ ?_
  · intro n hn
    exact hfair.worker n (Or.inr (hand_running hn))
  · intro s e hs
    rcases hand_next hs e with hd | ⟨hh, hne⟩
    · exact Or.inl (Or.inl hd)
    · exact Or.inr ⟨hh, le_refl _, fun he => absurd he hne⟩

theorem armed_leadsTo : LeadsTo next initWork ev (fun s => x ∈ s.list ∧ Armed s)
    (fun s => x ∈ s.executed ∨ x ∈ s.cancelled) := by
  have htaken : LeadsTo next initWork ev (fun s => x ∈ s.list ∧ Armed s)
      (fun s => x ∈ s.cancelled ∨ x ∈ s.worker.hand) := by
    refine LeadsTo.of_rank (· = .doWork)
      (fun s => 2 * s.list.idxOf x + s.worker.rank) ?_ ?_
    · intro n hn
      refine hfair.worker n (hn.2.imp_right fun hr hw => ?_)
      simp [hw, Worker.rereads] at hr
    · intro s e hs
      exact armed_next hs.1 hs.2 e
  refine htaken.trans (LeadsTo.cases ?_ (hand_leadsTo hfair x))
  exact LeadsTo.of_imp fun s hc => Or.inr hc

theorem coming_leadsTo (serial : ℕ) : LeadsTo next initWork ev (Coming x serial)
    (fun s => x ∈ s.executed ∨ x ∈ s.cancelled) := by
  have harmed : LeadsTo next initWork ev (Coming x serial)
      (fun s => x ∈ s.cancelled ∨ x ∈ s.worker.hand ∨ (x ∈ s.list ∧ Armed s)) := by
    refine LeadsTo.of_rank (· = .queueNext serial)
      (fun s => if serial ∈ s.queueing then 0 else 1) ?_ ?_
    · intro n hn
      exact hfair.calls n serial hn.2.2
    · intro s e hs
      exact coming_next hs e
  refine harmed.trans (LeadsTo.cases ?_ ((hand_leadsTo hfair x).cases (armed_leadsTo hfair x)))
  exact LeadsTo.of_imp fun s hc => Or.inr hc

theorem queued_leadsTo : LeadsTo next initWork ev (fun s => x ∈ s.queued)
    (fun s => x ∈ s.executed ∨ x ∈ s.cancelled) := by
  intro n hn
  have hs : Sound (stateAt next initWork ev n) := stateAt_keeps (fun s e h => h.next e) sound_init n
  rcases hs.placed.accounted x hn with hl | hh | hd | hc
  · by_cases ha : Armed (stateAt next initWork ev n)
    · exact armed_leadsTo hfair x n ⟨hl, ha⟩
    · -- some call has not yet come to `queue_work`
      have hcall : ∃ serial, serial ∈ (stateAt next initWork ev n).testing ∨
          serial ∈ (stateAt next initWork ev n).queueing := by
        rcases (hs.woken (List.ne_nil_of_mem hl)).resolve_left ha with ht | hq
        · exact (List.exists_mem_of_ne_nil _ ht).imp fun _ => Or.inl
        · exact (List.exists_mem_of_ne_nil _ hq).imp fun _ => Or.inr
      obtain ⟨serial, hserial⟩ := hcall
      exact coming_leadsTo hfair x serial n ⟨hl, ha, hserial⟩
  · exact hand_leadsTo hfair x n hh
  · exact ⟨n, le_refl n, Or.inl hd⟩
  · exact ⟨n, le_refl n, Or.inr hc⟩

end

/-- In every interleaving the queue keeps what it promises, and each queued item is executed or
cancelled in the end if the worker and the calls that queue items go on. -/
theorem deferred_work_kept :
    (∀ es : List Event, Kept (es.foldl next initWork)) ∧
      ∀ ev, Fair ev → ∀ n x, x ∈ (stateAt next initWork ev n).queued →
        ∃ m, n ≤ m ∧ (x ∈ (stateAt next initWork ev m).executed ∨
          x ∈ (stateAt next initWork ev m).cancelled) := by
  refine ⟨?_, ?_⟩
  · intro es
    exact (foldl_keeps (P := Sound) (fun _ e h => h.next e) sound_init es).kept
  · intro ev hfair n x hx
    exact queued_leadsTo hfair x n hx

/-- Two calls queue an item each at the same time, the worker runs in between, one item is cancelled,
and then only the worker goes on. -/
def quietRun : ℕ → Event
  | 0 => .queueWork none 0
  | 1 => .queueWork (some 3) 1
  | 2 => .queueNext 0
  | 3 => .queueNext 1
  | 4 => .queueNext 0
  | 5 => .doWork
  | 6 => .cancleWork (some 3)
  | 7 => .queueNext 1
  | _ + 8 => .doWork

theorem quietRun_calls (n : ℕ) : (stateAt next initWork quietRun (n + 8)).testing = [] ∧
    (stateAt next initWork quietRun (n + 8)).queueing = [] := by
  induction n with
  | zero => decide
  | succ n ih =>
    rw [stateAt_succ]
    simp only [quietRun, next, doWork_calls]
    exact ih

theorem quietRun_comes : ∀ n < 8, ∀ serial ∈ (stateAt next initWork quietRun n).testing ++
    (stateAt next initWork quietRun n).queueing, ∃ m < 8, n ≤ m ∧ quietRun m = .queueNext serial := by
  decide

theorem quietRun_fair : Fair quietRun where
  worker n _ := ⟨n + 8, by omega, rfl⟩
  calls n serial h := by
    by_cases hn : n < 8
    · obtain ⟨m, -, hm, hcall⟩ := quietRun_comes n hn serial (List.mem_append.mpr h)
      exact ⟨m, hm, hcall⟩
    · obtain ⟨k, rfl⟩ := Nat.exists_eq_add_of_le' (Nat.le_of_not_lt hn)
      obtain ⟨ht, hq⟩ := quietRun_calls k
      rw [ht, hq] at h
      simp at h

theorem quietRun_executes :
    (∃ m, 2 ≤ m ∧ ((⟨0, none, 0⟩ : Item) ∈ (stateAt next initWork quietRun m).executed ∨
      (⟨0, none, 0⟩ : Item) ∈ (stateAt next initWork quietRun m).cancelled)) ∧
    ∃ m, 2 ≤ m ∧ ((⟨1, some 3, 1⟩ : Item) ∈ (stateAt next initWork quietRun m).executed ∨
      (⟨1, some 3, 1⟩ : Item) ∈ (stateAt next initWork quietRun m).cancelled) :=
  ⟨deferred_work_kept.2 quietRun quietRun_fair 2 _ (by decide),
    deferred_work_kept.2 quietRun quietRun_fair 2 _ (by decide)⟩

end Uwe5631.Work
