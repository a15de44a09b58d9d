import Mathlib.Data.List.Basic

/-!
# Framing a stream as it arrives

A frame begins with a symbol that can begin one and has a length that some of its first symbols
tell. A stream is cut into frames as a whole, or symbol by symbol with what has come of the current
frame; both give the same frames, however the stream is cut into pieces.
-/
namespace Uwe5631.IncrementalFraming

variable {α : Type*}

/-- How a frame begins, and the length of the frame that a list begins with, once it is known. -/
structure Framing (α : Type*) where
  starts : α → Bool
  length : List α → Option ℕ
  /-- What comes later does not change the length. -/
  stable : ∀ xs ys n, length xs = some n → length (xs ++ ys) = some n
  /-- The symbols of the frame itself tell its length. -/
  known : ∀ xs n, length xs = some n → n ≤ xs.length → length (xs.take n) = some n
  pos : ∀ xs n, length xs = some n → 0 < n

variable (f : Framing α)

/-- The complete frames of a stream. -/
def Framing.frames : List α → List (List α)
  | [] => []
  | a :: xs =>
    if f.starts a then
      match f.length (a :: xs) with
      | none => []
      | some n =>
        if n ≤ (a :: xs).length then (a :: xs).take n :: frames (xs.drop (n - 1)) else []
    else frames xs
  termination_by xs => xs.length

/-- No frame of a stream is longer than a bound, nor is one that is not complete. -/
inductive Framing.Bounded (bound : ℕ) : List α → Prop
  | nil : Bounded bound []
  | skip {a : α} {xs : List α} : f.starts a = false → Bounded bound xs → Bounded bound (a :: xs)
  | short {a : α} {xs : List α} : f.starts a = true → f.length (a :: xs) = none →
      Bounded bound (a :: xs)
  | frame {a : α} {xs : List α} {n : ℕ} : f.starts a = true → f.length (a :: xs) = some n →
      n ≤ bound → Bounded bound (xs.drop (n - 1)) → Bounded bound (a :: xs)

/-- One symbol more: what is left of the current frame, and the frame if it is complete. -/
def Framing.advance (acc : List α) (a : α) : List α × Option (List α) :=
  if acc = [] ∧ f.starts a = false then ([], none)
  else if f.length (acc ++ [a]) = some (acc ++ [a]).length then ([], some (acc ++ [a]))
  else (acc ++ [a], none)

/-- Symbol by symbol: what is left of the current frame, and the frames completed. -/
def Framing.feed : List α → List α → List α × List (List α)
  | acc, [] => (acc, [])
  | acc, a :: xs =>
    let r := f.advance acc a
    ((feed r.1 xs).1, r.2.toList ++ (feed r.1 xs).2)

variable {f} {acc xs ys : List α} {a : α} {n bound : ℕ}

theorem feed_append (acc xs ys : List α) : f.feed acc (xs ++ ys) =
    ((f.feed (f.feed acc xs).1 ys).1, (f.feed acc xs).2 ++ (f.feed (f.feed acc xs).1 ys).2) := by
  induction xs generalizing acc with
  | nil => rfl
  | cons a xs ih =>
    rw [List.cons_append, Framing.feed, Framing.feed, ih]
    simp

theorem advance_skip (h : f.starts a = false) : f.advance [] a = ([], none) := if_pos ⟨rfl, h⟩

/-- A symbol that does not complete the frame. -/
theorem advance_short (hgo : acc ≠ [] ∨ f.starts a = true)
    (h : f.length (acc ++ [a]) ≠ some (acc ++ [a]).length) : f.advance acc a = (acc ++ [a], none) := by
  have hno : ¬ (acc = [] ∧ f.starts a = false) := by
    rintro ⟨hnil, hstart⟩
    rcases hgo with hgo | hgo
    · exact hgo hnil
    · rw [hstart] at hgo
      cases hgo
  rw [Framing.advance, if_neg hno, if_neg h]

theorem advance_last (hgo : acc ≠ [] ∨ f.starts a = true)
    (h : f.length (acc ++ [a]) = some (acc ++ [a]).length) :
    f.advance acc a = ([], some (acc ++ [a])) := by
  have hno : ¬ (acc = [] ∧ f.starts a = false) := by
    rintro ⟨hnil, hstart⟩
    rcases hgo with hgo | hgo
    · exact hgo hnil
    · rw [hstart] at hgo
      cases hgo
  rw [Framing.advance, if_neg hno, if_pos h]

/-- Symbols that do not complete the frame are only kept. -/
theorem feed_short (hgo : acc ≠ [] ∨ ∃ a, xs.head? = some a ∧ f.starts a = true)
    (h : ∀ n, f.length (acc ++ xs) = some n → (acc ++ xs).length < n) :
    f.feed acc xs = (acc ++ xs, []) := by
  induction xs generalizing acc with
  | nil => rw [List.append_nil]; rfl
  | cons a xs ih =>
    have hassoc : acc ++ [a] ++ xs = acc ++ a :: xs := by simp
    have hfirst : acc ≠ [] ∨ f.starts a = true := by
      rcases hgo with hgo | ⟨b, hb, hstart⟩
      · exact .inl hgo
      · cases hb
        exact .inr hstart
    have hnot : f.length (acc ++ [a]) ≠ some (acc ++ [a]).length := by
      intro hlast
      have hall := h _ (hassoc ▸ f.stable _ xs _ hlast)
      simp only [List.length_append, List.length_cons, List.length_nil] at hall
      omega
    have hrest := ih (.inl (by simp)) (hassoc ▸ h)
    rw [Framing.feed, advance_short hfirst hnot, hrest, hassoc]
    rfl

/-- The symbols up to the last one of a frame complete it. -/
theorem feed_frame (hgo : acc ≠ [] ∨ ∃ a, xs.head? = some a ∧ f.starts a = true) (hxs : xs ≠ [])
    (h : f.length (acc ++ xs) = some (acc ++ xs).length) : f.feed acc xs = ([], [acc ++ xs]) := by
  obtain ⟨front, a, rfl⟩ := (List.eq_nil_or_concat' xs).resolve_left hxs
  have hshort : ∀ n, f.length (acc ++ front) = some n → (acc ++ front).length < n := by
    intro n hn
    have hall := f.stable _ [a] n hn
    rw [List.append_assoc, h] at hall
    cases hall
    simp
  have hgo' : acc ≠ [] ∨ front = [] ∨ ∃ a, front.head? = some a ∧ f.starts a = true := by
    rcases hgo with hgo | ⟨b, hb, hstart⟩
    · exact .inl hgo
    · cases front with
      | nil => exact .inr (.inl rfl)
      | cons c front => exact .inr (.inr ⟨b, hb, hstart⟩)
  have hfront : f.feed acc front = (acc ++ front, []) := by
    rcases hgo' with hacc | rfl | hhead
    · exact feed_short (.inl hacc) hshort
    · rw [List.append_nil]; rfl
    · exact feed_short (.inr hhead) hshort
  have hlast : acc ++ front ≠ [] ∨ f.starts a = true := by
    rcases hgo with hgo | ⟨b, hb, hstart⟩
    · exact .inl (List.append_ne_nil_of_left_ne_nil hgo _)
    · cases front with
      | nil =>
        cases hb
        exact .inr hstart
      | cons c front => exact .inl (by simp)
  rw [← List.append_assoc] at h
  rw [feed_append, hfront]
  dsimp only
  rw [Framing.feed, advance_last hlast h, List.append_assoc]
  rfl

theorem take_pos (hpos : 0 < n) (a : α) (xs : List α) :
    (a :: xs).take n = a :: xs.take (n - 1) := by
  obtain ⟨k, rfl⟩ := Nat.exists_eq_succ_of_ne_zero (Nat.ne_of_gt hpos)
  rfl

/-- Framing symbol by symbol gives the frames of the stream. -/
theorem feed_eq_frames (f : Framing α) (xs : List α) : (f.feed [] xs).2 = f.frames xs := by
  induction xs using Framing.frames.induct f with
  | case1 =>
    rw [Framing.frames]
    rfl
  | case2 a xs hstart hnone =>
    have hshort : ∀ n, f.length ([] ++ a :: xs) = some n → ([] ++ a :: xs).length < n := by
      intro n hn
      rw [List.nil_append, hnone] at hn
      cases hn
    rw [Framing.frames, if_pos hstart, hnone, feed_short (.inr ⟨a, rfl, hstart⟩) hshort]
  | case3 a xs hstart n hlen hle ih =>
    have hpos := f.pos _ _ hlen
    have hframe : f.length ([] ++ (a :: xs).take n) = some ([] ++ (a :: xs).take n).length := by
      rw [List.nil_append, f.known _ n hlen hle, List.length_take, Nat.min_eq_left hle]
    have hhead : ((a :: xs).take n).head? = some a := by rw [take_pos hpos, List.head?_cons]
    have hne : (a :: xs).take n ≠ [] := by rw [take_pos hpos]; exact List.cons_ne_nil _ _
    have hsplit : a :: xs = (a :: xs).take n ++ xs.drop (n - 1) := by
      rw [take_pos hpos, List.cons_append, List.take_append_drop]
    rw [Framing.frames, if_pos hstart, hlen]
    dsimp only
    rw [if_pos hle, ← ih]
    conv_lhs => rw [hsplit]
    rw [feed_append, feed_frame (.inr ⟨a, hhead, hstart⟩) hne hframe]
    rfl
  | case4 a xs hstart n hlen hle =>
    have hshort : ∀ m, f.length ([] ++ a :: xs) = some m → ([] ++ a :: xs).length < m := by
      intro m hm
      rw [List.nil_append, hlen] at hm
      cases hm
      exact Nat.lt_of_not_le hle
    rw [Framing.frames, if_pos hstart, hlen, feed_short (.inr ⟨a, rfl, hstart⟩) hshort]
    exact (if_neg hle).symm
  | case5 a xs hstart ih =>
    rw [Bool.not_eq_true] at hstart
    rw [Framing.frames, if_neg (ne_true_of_eq_false hstart), ← ih, Framing.feed, advance_skip hstart]
    rfl

/-! ## Bounded frames -/

theorem drop_pos (hpos : 0 < n) (a : α) (xs : List α) : (a :: xs).drop n = xs.drop (n - 1) := by
  obtain ⟨k, rfl⟩ := Nat.exists_eq_succ_of_ne_zero (Nat.ne_of_gt hpos)
  rfl

theorem Framing.Bounded.of_skip (h : f.Bounded bound (a :: xs)) (hstart : f.starts a = false) :
    f.Bounded bound xs := by
  cases h with
  | skip _ hxs => exact hxs
  | short hgo | frame hgo =>
    rw [hstart] at hgo
    cases hgo

/-- The frame that a stream begins with. -/
theorem Framing.Bounded.of_frame (h : f.Bounded bound xs)
    (hstart : ∃ a, xs.head? = some a ∧ f.starts a = true) (hlen : f.length xs = some n) :
    n ≤ bound ∧ f.Bounded bound (xs.drop n) := by
  obtain ⟨a, ha, hstart⟩ := hstart
  cases h with
  | nil => cases ha
  | skip hno =>
    cases ha
    rw [hstart] at hno
    cases hno
  | short _ hnone => cases hlen.symm.trans hnone
  | frame _ hsome hle hrest =>
    cases hlen.symm.trans hsome
    rw [drop_pos (f.pos _ _ hlen)]
    exact ⟨hle, hrest⟩

end Uwe5631.IncrementalFraming
