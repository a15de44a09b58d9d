import Mathlib

/-!
# Chains of linked nodes

A chain is known by its first node, its last node and a count; the nodes are linked by a
pointer from each to the next. A store is a family of chains that share no node. The heads
of the chains may themselves be linked in a ring.
-/
namespace Uwe5631.LinkedChains

variable {α ι σ : Type*} [DecidableEq α] [DecidableEq ι] {next next' : α → Option α}
  {xs ys : List α} {a b : α}

structure Chain (α : Type*) where
  head : Option α
  tail : Option α
  num : ℕ
  deriving DecidableEq, Repr

variable {c : Chain α}

/-- The nodes from a pointer on, as many as the count says. -/
def walk (next : α → Option α) : ℕ → Option α → List α
  | 0, _ => []
  | _ + 1, none => []
  | n + 1, some a => a :: walk next n (next a)

/-- A chain put behind another. -/
def Chain.splice (c d : Chain α) : Chain α :=
  ⟨if c.num = 0 then d.head else c.head, d.tail, c.num + d.num⟩

/-- The chain with a node put behind its last one. -/
def Chain.attach (c : Chain α) (a : α) : Chain α :=
  ⟨if c.num = 0 then some a else c.head, some a, c.num + 1⟩

/-- The links after the last node of a chain, if it has one, is linked to a head. -/
def linkBehind (next : α → Option α) (c : Chain α) (head : Option α) : α → Option α :=
  if c.num = 0 then next else c.tail.elim next fun t => Function.update next t head

/-- The links after a node is put behind the last one. -/
def attachNext (next : α → Option α) (c : Chain α) (a : α) : α → Option α :=
  Function.update (linkBehind next c (some a)) a none

/-- The chain has exactly these nodes, in this order. -/
structure Holds (next : α → Option α) (c : Chain α) (xs : List α) : Prop where
  num : c.num = xs.length
  head : xs ≠ [] → c.head = xs.head?
  tail : xs ≠ [] → c.tail = xs.getLast?
  linked : xs.IsChain fun a b => next a = some b
  ends : ∀ a, xs.getLast? = some a → next a = none
  nodup : xs.Nodup

omit [DecidableEq α] in
theorem holds_empty (next : α → Option α) (head tail : Option α) : Holds next ⟨head, tail, 0⟩ [] where
  num := rfl
  head h := absurd rfl h
  tail h := absurd rfl h
  linked := .nil
  ends a ha := by cases ha
  nodup := List.nodup_nil

omit [DecidableEq α] in
theorem Holds.num_zero_iff (h : Holds next c xs) : c.num = 0 ↔ xs = [] := by
  rw [h.num, List.length_eq_zero_iff]

omit [DecidableEq α] in
/-- Links of other nodes do not matter. -/
theorem Holds.frame (h : Holds next c xs) (heq : ∀ x ∈ xs, next' x = next x) :
    Holds next' c xs where
  num := h.num
  head := h.head
  tail := h.tail
  linked := by
    refine h.linked.imp_of_mem_imp fun x y hx _ hxy => ?_
    rw [heq x hx, hxy]
  ends a ha := by
    rw [heq a (List.mem_of_getLast? ha)]
    exact h.ends a ha
  nodup := h.nodup

omit [DecidableEq α] in
theorem walk_linked (hlinked : (a :: xs).IsChain fun a b => next a = some b) :
    walk next (xs.length + 1) (some a) = a :: xs := by
  induction xs generalizing a with
  | nil => rfl
  | cons b xs ih =>
    rw [List.isChain_cons_cons] at hlinked
    rw [walk, hlinked.1, List.length_cons, ih hlinked.2]

omit [DecidableEq α] in
/-- Walking along the links finds the nodes. -/
theorem Holds.walk (h : Holds next c xs) : walk next c.num c.head = xs := by
  cases xs with
  | nil =>
    rw [h.num]
    rfl
  | cons a xs =>
    rw [h.num, h.head (List.cons_ne_nil a xs)]
    exact walk_linked h.linked

theorem linkBehind_ne {head : Option α} (h : Holds next c xs) (hb : b ∉ xs) :
    linkBehind next c head b = next b := by
  rw [linkBehind]
  split
  · rfl
  · rename_i hnum
    have hne : xs ≠ [] := fun hnil => hnum (h.num_zero_iff.mpr hnil)
    obtain ⟨t, ht⟩ : ∃ t, xs.getLast? = some t := ⟨_, List.getLast?_eq_getLast_of_ne_nil hne⟩
    rw [h.tail hne, ht, Option.elim_some]
    refine Function.update_of_ne (fun hbt => hb ?_) ..
    rw [hbt]
    exact List.mem_of_getLast? ht

theorem attachNext_ne (h : Holds next c xs) (hb : b ∉ xs) (hba : b ≠ a) :
    attachNext next c a b = next b := by
  rw [attachNext, Function.update_of_ne hba, linkBehind_ne h hb]

/-- The nodes of the second chain follow those of the first. -/
theorem Holds.splice {d : Chain α} (h : Holds next c xs) (hd : Holds next d ys) (hne : ys ≠ [])
    (hdisj : xs.Disjoint ys) :
    Holds (linkBehind next c d.head) (c.splice d) (xs ++ ys) := by
  rcases List.eq_nil_or_concat' xs with rfl | ⟨front, t, rfl⟩
  · have hnum : c.num = 0 := h.num
    have hchain : c.splice d = d := by simp [Chain.splice, hnum]
    rw [linkBehind, if_pos hnum, hchain]
    exact hd
  · have hfirst : front ++ [t] ≠ [] := by simp
    have hnum : c.num ≠ 0 := fun hzero => hfirst (h.num_zero_iff.mp hzero)
    have htail : c.tail = some t := by rw [h.tail hfirst, List.getLast?_concat]
    have hnext : linkBehind next c d.head = Function.update next t d.head := by
      rw [linkBehind, if_neg hnum, htail]
      rfl
    obtain ⟨-, -, hapart⟩ := List.nodup_append.mp h.nodup
    -- only the link of the last node of the first chain changed
    have hkeep : ∀ b ∈ front, linkBehind next c d.head b = next b := by
      intro b hb
      rw [hnext]
      exact Function.update_of_ne (hapart b hb t (List.mem_singleton_self t)) ..
    have hkeepBehind : ∀ b ∈ ys, linkBehind next c d.head b = next b := by
      intro b hb
      exact linkBehind_ne h fun hmem => hdisj hmem hb
    obtain ⟨hlinked, -, hjoin⟩ := List.isChain_append.mp h.linked
    have hchain : (front ++ [t]).IsChain fun x y => linkBehind next c d.head x = some y := by
      refine List.isChain_append.mpr ⟨?_, .singleton t, fun x hx y hy => ?_⟩
      · exact hlinked.imp_of_mem_imp fun x y hx _ hxy => (hkeep x hx).trans hxy
      · exact (hkeep x (List.mem_of_getLast? hx)).trans (hjoin x hx y hy)
    have hbehind := hd.frame hkeepBehind
    refine ⟨?_, fun _ => ?_, fun _ => ?_, ?_, fun x hx => ?_, ?_⟩
    · have hsum : (c.splice d).num = c.num + d.num := rfl
      rw [hsum, h.num, hd.num]
      exact List.length_append.symm
    · rw [Chain.splice, if_neg hnum, h.head hfirst, List.head?_append_of_ne_nil _ hfirst]
    · rw [Chain.splice, hd.tail hne, List.getLast?_append_of_ne_nil _ hne]
    · refine List.isChain_append.mpr ⟨hchain, hbehind.linked, fun x hx y hy => ?_⟩
      rw [List.getLast?_concat] at hx
      cases hx
      rw [hnext, Function.update_self, hd.head hne]
      exact hy
    · rw [List.getLast?_append_of_ne_nil _ hne] at hx
      exact hbehind.ends x hx
    · exact List.nodup_append'.mpr ⟨h.nodup, hd.nodup, hdisj⟩

/-- Ending another chain does not touch the link of the last node. -/
theorem update_linkBehind {head : Option α} (h : Holds next c xs) (ha : a ∉ xs) :
    Function.update (linkBehind next c head) a none =
      linkBehind (Function.update next a none) c head := by
  rw [linkBehind, linkBehind]
  split
  · rfl
  · rename_i hnum
    have hne : xs ≠ [] := fun hnil => hnum (h.num_zero_iff.mpr hnil)
    obtain ⟨t, ht⟩ : ∃ t, xs.getLast? = some t := ⟨_, List.getLast?_eq_getLast_of_ne_nil hne⟩
    have hta : t ≠ a := by
      rintro rfl
      exact ha (List.mem_of_getLast? ht)
    rw [h.tail hne, ht, Option.elim_some, Option.elim_some, Function.update_comm hta]

theorem Holds.frame_update (h : Holds next c xs) (ha : a ∉ xs) :
    Holds (Function.update next a none) c xs := by
  refine h.frame fun x hx => Function.update_of_ne ?_ ..
  rintro rfl
  exact ha hx

/-- A new node becomes the last one. -/
theorem Holds.attach (h : Holds next c xs) (ha : a ∉ xs) :
    Holds (attachNext next c a) (c.attach a) (xs ++ [a]) := by
  have hself : Holds (Function.update next a none) ⟨some a, some a, 1⟩ [a] := by
    refine ⟨rfl, fun _ => rfl, fun _ => rfl, .singleton a, fun b hb => ?_, List.nodup_singleton a⟩
    cases hb
    exact Function.update_self ..
  rw [attachNext, update_linkBehind h ha]
  exact (h.frame_update ha).splice hself (List.cons_ne_nil a []) (List.disjoint_singleton.mpr ha)

/-! ## Chains whose end is not marked yet -/

/-- The nodes of a chain are linked; what comes after the last one does not matter. -/
structure Linked (next : α → Option α) (c : Chain α) (xs : List α) : Prop where
  num : c.num = xs.length
  head : c.head = xs.head?
  tail : c.tail = xs.getLast?
  linked : xs.IsChain fun a b => next a = some b
  nodup : xs.Nodup

omit [DecidableEq α] in
theorem Linked.walk (h : Linked next c xs) : walk next c.num c.head = xs := by
  cases xs with
  | nil =>
    rw [h.num]
    rfl
  | cons a xs =>
    rw [h.num, h.head]
    exact walk_linked h.linked

/-- Links that lead on from a node other than the last one are kept when the last one is ended. -/
theorem isChain_end (hlinked : xs.IsChain fun a b => next a = some b) (hnodup : xs.Nodup)
    (hlast : xs.getLast? = some a) :
    xs.IsChain fun b d => Function.update next a none b = some d := by
  obtain ⟨front, rfl⟩ := List.getLast?_eq_some_iff.mp hlast
  obtain ⟨-, -, hapart⟩ := List.nodup_append.mp hnodup
  obtain ⟨hfront, -, hjoin⟩ := List.isChain_append.mp hlinked
  have hkeep : ∀ b ∈ front, Function.update next a none b = next b := fun b hb =>
    Function.update_of_ne (hapart b hb a (List.mem_singleton_self a)) ..
  refine List.isChain_append.mpr ⟨?_, .singleton a, fun b hb d hd => ?_⟩
  · exact hfront.imp_of_mem_imp fun b d hb _ hbd => (hkeep b hb).trans hbd
  · exact (hkeep b (List.mem_of_getLast? hb)).trans (hjoin b hb d hd)

/-- Ending a linked chain at its last node. -/
theorem Linked.end (h : Linked next c xs) (hlast : xs.getLast? = some a) :
    Holds (Function.update next a none) c xs where
  num := h.num
  head _ := h.head
  tail _ := h.tail
  linked := isChain_end h.linked h.nodup hlast
  ends b hb := by
    rw [hlast] at hb
    cases hb
    exact Function.update_self ..
  nodup := h.nodup

/-- Cutting a chain behind one of its nodes gives two chains. -/
theorem Holds.split (h : Holds next c (xs ++ ys)) (hlast : xs.getLast? = some a) :
    Holds (Function.update next a none) ⟨c.head, some a, xs.length⟩ xs ∧
      Holds (Function.update next a none) ⟨next a, c.tail, ys.length⟩ ys := by
  have hxs : xs ≠ [] := by
    rintro rfl
    cases hlast
  have hne : xs ++ ys ≠ [] := List.append_ne_nil_of_left_ne_nil hxs ys
  obtain ⟨hleft, hright, hjoin⟩ := List.isChain_append.mp h.linked
  obtain ⟨hnodup, hnodup', hdisj⟩ := List.nodup_append'.mp h.nodup
  have ha : a ∉ ys := hdisj (List.mem_of_getLast? hlast)
  constructor
  · have hfront : Linked next ⟨c.head, some a, xs.length⟩ xs := by
      refine ⟨rfl, ?_, hlast.symm, hleft, hnodup⟩
      rw [← List.head?_append_of_ne_nil xs hxs]
      exact h.head hne
    exact hfront.end hlast
  · refine Holds.frame_update ⟨rfl, fun hys => ?_, fun hys => ?_, hright, fun b hb => ?_, hnodup'⟩ ha
    · obtain ⟨b, rest, rfl⟩ := List.exists_cons_of_ne_nil hys
      exact hjoin a hlast b rfl
    · rw [← List.getLast?_append_of_ne_nil xs hys]
      exact h.tail hne
    · refine h.ends b ?_
      rw [List.getLast?_append_of_ne_nil xs (by rintro rfl; cases hb)]
      exact hb

/-- The chain without its first node. -/
def Chain.pop (c : Chain α) (next : α → Option α) : Chain α :=
  if c.num - 1 = 0 then ⟨none, none, 0⟩ else ⟨c.head.bind next, c.tail, c.num - 1⟩

omit [DecidableEq α] in
theorem Holds.pop (h : Holds next c (a :: xs)) : Holds next (c.pop next) xs := by
  have hnum : c.num - 1 = xs.length := by rw [h.num]; rfl
  have hhead : c.head = some a := h.head (List.cons_ne_nil a xs)
  rw [Chain.pop, hnum]
  cases xs with
  | nil => exact holds_empty next none none
  | cons b rest =>
    have hlinked := List.isChain_cons_cons.mp h.linked
    rw [if_neg (by simp), hhead, Option.bind_some]
    refine ⟨rfl, fun _ => hlinked.1, fun _ => ?_, hlinked.2, fun x hx => ?_, h.nodup.of_cons⟩
    · exact h.tail (List.cons_ne_nil a _)
    · exact h.ends x hx

/-! ## Stores -/

/-- Each chain has its nodes, and no node is in two chains. -/
structure Stored (next : α → Option α) (list : ι → Chain α) (nodes : ι → List α) : Prop where
  holds : ∀ i, Holds next (list i) (nodes i)
  apart : ∀ i j, i ≠ j → (nodes i).Disjoint (nodes j)

variable {list : ι → Chain α} {nodes : ι → List α} {i : ι}

/-- A node of no chain is attached to one. -/
theorem Stored.attach (h : Stored next list nodes) (i : ι) (ha : ∀ j, a ∉ nodes j) :
    Stored (attachNext next (list i) a) (Function.update list i ((list i).attach a))
      (Function.update nodes i (nodes i ++ [a])) where
  holds j := by
    by_cases hji : j = i
    · subst hji
      rw [Function.update_self, Function.update_self]
      exact (h.holds j).attach (ha j)
    · rw [Function.update_of_ne hji, Function.update_of_ne hji]
      refine (h.holds j).frame fun x hx => attachNext_ne (h.holds i) ?_ ?_
      · exact h.apart j i hji hx
      · rintro rfl
        exact ha j hx
  apart j k hjk := by
    have hnew : ∀ j, j ≠ i → (nodes j).Disjoint (nodes i ++ [a]) := by
      intro j hji
      refine List.disjoint_append_right.mpr ⟨h.apart j i hji, ?_⟩
      exact List.disjoint_singleton.mpr (ha j)
    by_cases hji : j = i
    · subst hji
      rw [Function.update_self, Function.update_of_ne (Ne.symm hjk)]
      exact (hnew k (Ne.symm hjk)).symm
    · rw [Function.update_of_ne hji]
      by_cases hki : k = i
      · subst hki
        rw [Function.update_self]
        exact hnew j hji
      · rw [Function.update_of_ne hki]
        exact h.apart j k hjk

omit [DecidableEq α] in
/-- A chain that gives up nodes. -/
theorem Stored.shrink (h : Stored next list nodes) (hsub : ys ⊆ nodes i)
    (hc : Holds next c ys) :
    Stored next (Function.update list i c) (Function.update nodes i ys) where
  holds j := by
    by_cases hji : j = i
    · subst hji
      rw [Function.update_self, Function.update_self]
      exact hc
    · rw [Function.update_of_ne hji, Function.update_of_ne hji]
      exact h.holds j
  apart j k hjk := by
    by_cases hji : j = i
    · subst hji
      rw [Function.update_self, Function.update_of_ne (Ne.symm hjk)]
      exact List.disjoint_of_subset_left hsub (h.apart j k hjk)
    · rw [Function.update_of_ne hji]
      by_cases hki : k = i
      · subst hki
        rw [Function.update_self]
        exact List.disjoint_of_subset_right hsub (h.apart j k hjk)
      · rw [Function.update_of_ne hki]
        exact h.apart j k hjk

/-- The nodes of one chain go behind those of another, and the first is left without nodes. -/
theorem Stored.splice {k : ι} (h : Stored next list nodes) (hik : i ≠ k) (hne : nodes i ≠ [])
    (head tail : Option α) :
    Stored (linkBehind next (list k) (list i).head)
      (Function.update (Function.update list k ((list k).splice (list i))) i ⟨head, tail, 0⟩)
      (Function.update (Function.update nodes k (nodes k ++ nodes i)) i []) := by
  have hapart := h.apart k i hik.symm
  refine ⟨fun j => ?_, fun j l hjl => ?_⟩
  · by_cases hji : j = i
    · subst hji
      rw [Function.update_self, Function.update_self]
      exact holds_empty ..
    · rw [Function.update_of_ne hji, Function.update_of_ne hji]
      by_cases hjk : j = k
      · subst hjk
        rw [Function.update_self, Function.update_self]
        exact (h.holds j).splice (h.holds i) hne hapart
      · rw [Function.update_of_ne hjk, Function.update_of_ne hjk]
        exact (h.holds j).frame fun x hx => linkBehind_ne (h.holds k) (h.apart j k hjk hx)
  · have hnew : ∀ j, j ≠ i → j ≠ k → (nodes k ++ nodes i).Disjoint (nodes j) := fun j hji hjk =>
      List.disjoint_append_left.mpr ⟨h.apart k j (Ne.symm hjk), h.apart i j (Ne.symm hji)⟩
    by_cases hji : j = i
    · rw [hji, Function.update_self]
      exact List.disjoint_nil_left _
    by_cases hli : l = i
    · rw [hli, Function.update_self]
      exact List.disjoint_nil_right _
    rw [Function.update_of_ne hji, Function.update_of_ne hli]
    by_cases hjk : j = k
    · subst hjk
      rw [Function.update_self, Function.update_of_ne (Ne.symm hjl)]
      exact hnew l hli (Ne.symm hjl)
    · rw [Function.update_of_ne hjk]
      by_cases hlk : l = k
      · subst hlk
        rw [Function.update_self]
        exact (hnew j hji hjk).symm
      · rw [Function.update_of_ne hlk]
        exact h.apart j l hjl

omit [DecidableEq α] [DecidableEq ι] in
theorem Stored.frame (h : Stored next list nodes) (heq : ∀ i, ∀ x ∈ nodes i, next' x = next x) :
    Stored next' list nodes where
  holds i := (h.holds i).frame (heq i)
  apart := h.apart

/-! ## A ring of heads -/

theorem ring_next {n : ℕ} {pos : Fin (n + 1)} (h : ¬ pos + 1 = 0) :
    (pos + 1).val = pos.val + 1 ∧ pos.val < n := by
  have hne : pos ≠ Fin.last n := by
    rintro rfl
    exact h (Fin.last_add_one n)
  have hlt := lt_of_le_of_ne (Fin.le_last pos) hne
  exact ⟨Fin.val_add_one_of_lt hlt, hlt⟩

/-- `for (pos = head; pos->next != head; pos = pos->next)` over a ring of `n + 1` heads that are
linked in order. -/
def ringWalk {n : ℕ} (body : Fin (n + 1) → σ → σ) (pos : Fin (n + 1)) (s : σ) : σ :=
  if pos + 1 = 0 then s else ringWalk body (pos + 1) (body pos s)
  termination_by n - pos.val
  decreasing_by
    have hnext := ring_next ‹_›
    omega

/-- The walk leaves out the last head of the ring. -/
theorem ringWalk_eq_foldl {n : ℕ} (body : Fin (n + 1) → σ → σ) (pos : Fin (n + 1)) (s : σ) :
    ringWalk body pos s =
      (((List.finRange n).drop pos.val).map Fin.castSucc).foldl (fun s i => body i s) s := by
  induction pos, s using ringWalk.induct body with
  | case1 pos s hlast =>
    have hval : pos.val = n := by
      by_contra hne
      have hlt : pos < Fin.last n := lt_of_le_of_ne (Fin.le_last pos) fun h => hne (congrArg Fin.val h)
      have hnext := Fin.val_add_one_of_lt hlt
      rw [hlast] at hnext
      exact absurd hnext (by simp)
    rw [ringWalk, if_pos hlast, hval, List.drop_of_length_le (by simp)]
    rfl
  | case2 pos s hnext ih =>
    obtain ⟨hval, hlt⟩ := ring_next hnext
    have hlen : pos.val < (List.finRange n).length := by simpa using hlt
    rw [ringWalk, if_neg hnext, ih, hval, List.drop_eq_getElem_cons hlen, List.map_cons,
      List.foldl_cons, List.getElem_finRange]
    rfl

/-! ## Pointers through nodes -/

/-- From a pointer the links lead through some nodes to another pointer. -/
def Threads (next : α → Option α) : Option α → List α → Option α → Prop
  | p, [], q => p = q
  | p, a :: xs, q => p = some a ∧ Threads next (next a) xs q

variable {p q : Option α}

omit [DecidableEq α] in
theorem threads_append : Threads next p (xs ++ ys) q ↔
    ∃ r, Threads next p xs r ∧ Threads next r ys q := by
  induction xs generalizing p with
  | nil => exact ⟨fun h => ⟨p, rfl, h⟩, fun ⟨r, hr, h⟩ => hr ▸ h⟩
  | cons a xs ih =>
    rw [List.cons_append, Threads, ih]
    constructor
    · rintro ⟨hp, r, hxs, hys⟩
      exact ⟨r, ⟨hp, hxs⟩, hys⟩
    · rintro ⟨r, ⟨hp, hxs⟩, hys⟩
      exact ⟨hp, r, hxs, hys⟩

omit [DecidableEq α] in
theorem Threads.frame (h : Threads next p xs q) (heq : ∀ x ∈ xs, next' x = next x) :
    Threads next' p xs q := by
  induction xs generalizing p with
  | nil => exact h
  | cons a xs ih =>
    refine ⟨h.1, ?_⟩
    rw [heq a List.mem_cons_self]
    exact ih h.2 fun x hx => heq x (List.mem_cons_of_mem a hx)

/-- The last node is linked elsewhere. -/
theorem Threads.relink (h : Threads next p xs q) (hnodup : xs.Nodup) (hlast : xs.getLast? = some a)
    (r : Option α) : Threads (Function.update next a r) p xs r := by
  obtain ⟨front, rfl⟩ := List.getLast?_eq_some_iff.mp hlast
  obtain ⟨-, -, hapart⟩ := List.nodup_append.mp hnodup
  obtain ⟨m, hfront, hend⟩ := threads_append.mp h
  refine threads_append.mpr ⟨m, hfront.frame fun x hx => ?_, hend.1, ?_⟩
  · exact Function.update_of_ne (hapart x hx a (List.mem_singleton_self a)) ..
  · exact Function.update_self ..

omit [DecidableEq α] in
/-- The rest of a list, from the node that the first one leads to. -/
theorem Holds.behind {tail : Option α} (h : Holds next ⟨some a, tail, xs.length + 1⟩ (a :: xs)) :
    Holds next ⟨next a, tail, xs.length⟩ xs ∧ next a = xs.head? := by
  obtain ⟨-, -, htail, hlinked, hends, hnodup⟩ := h
  cases xs with
  | nil => exact ⟨holds_empty .., hends a rfl⟩
  | cons b xs =>
    rw [List.isChain_cons_cons] at hlinked
    refine ⟨⟨rfl, fun _ => hlinked.1, fun _ => ?_, hlinked.2, fun d hd => hends d ?_,
      (List.nodup_cons.mp hnodup).2⟩, hlinked.1⟩
    · exact (htail (List.cons_ne_nil _ _)).trans List.getLast?_cons_cons
    · rw [List.getLast?_cons_cons]
      exact hd

/-! ## Chains that are put together -/

/-- The links after a list of nodes is put together node by node behind the last one so far, and
ended. -/
def relink (next : α → Option α) : Option α → List α → α → Option α
  | none, [] => next
  | some l, [] => Function.update next l none
  | none, a :: as => relink next (some a) as
  | some l, a :: as => relink (Function.update next l (some a)) (some a) as

section Relink
variable {l : α} {as : List α}

theorem relink_ne (hb : b ∉ l :: as) : relink next (some l) as b = next b := by
  induction as generalizing next l with
  | nil => exact Function.update_of_ne (by simpa using hb) ..
  | cons a as ih =>
    rw [List.mem_cons, not_or] at hb
    rw [relink, ih hb.2, Function.update_of_ne hb.1]

theorem relink_isChain (h : (l :: as).Nodup) :
    (l :: as).IsChain fun x y => relink next (some l) as x = some y := by
  induction as generalizing next l with
  | nil => exact .singleton l
  | cons a as ih =>
    obtain ⟨hl, hrest⟩ := List.nodup_cons.mp h
    refine List.isChain_cons_cons.mpr ⟨?_, ih hrest⟩
    rw [relink, relink_ne hl, Function.update_self]

theorem relink_ends (h : (l :: as).Nodup) (hb : (l :: as).getLast? = some b) :
    relink next (some l) as b = none := by
  induction as generalizing next l with
  | nil =>
    cases hb
    exact Function.update_self ..
  | cons a as ih => exact ih (List.nodup_cons.mp h).2 (by rwa [List.getLast?_cons_cons] at hb)

/-- The list that is put together is a chain, if no node occurs twice. -/
theorem relink_holds (next : α → Option α) (h : as.Nodup) :
    Holds (relink next none as) ⟨as.head?, as.getLast?, as.length⟩ as := by
  cases as with
  | nil => exact holds_empty ..
  | cons a as =>
    exact ⟨rfl, fun _ => rfl, fun _ => rfl, relink_isChain h, fun b hb => relink_ends h hb, h⟩

end Relink

end Uwe5631.LinkedChains
