import Mathlib.Data.List.Basic
import Mathlib.Data.Nat.Basic
import Mathlib.Logic.Function.Basic

/-!
# Ring buffers

Positions on a ring, the way from one to another, and the contents of an array that is written at
one position and read at another.
-/
namespace Uwe5631.RingBuffer

variable {α : Type*} {max i j k : ℕ}

/-- The next position. -/
def next (max i : ℕ) : ℕ := if i + 1 < max then i + 1 else 0

/-- The position some steps further. -/
def after (max i k : ℕ) : ℕ := (i + k) % max

/-- How many steps lead from one position to another. -/
def ahead (max i j : ℕ) : ℕ := if i ≤ j then j - i else j + (max - i)

theorem next_lt (hi : i < max) : next max i < max := by
  rw [next]
  split <;> omega

theorem next_eq_after (hi : i < max) : next max i = after max i 1 := by
  rw [next, after]
  split
  · exact (Nat.mod_eq_of_lt ‹_›).symm
  · have hlast : i + 1 = max := by omega
    rw [hlast, Nat.mod_self]

theorem after_lt (hmax : 0 < max) : after max i k < max := Nat.mod_lt _ hmax

theorem after_zero (hi : i < max) : after max i 0 = i := Nat.mod_eq_of_lt hi

theorem after_add (max i j k : ℕ) : after max i (j + k) = after max (after max i j) k := by
  rw [after, after, after, Nat.mod_add_mod, Nat.add_assoc]

theorem after_next (hi : i < max) (k : ℕ) : after max (next max i) k = after max i (k + 1) := by
  rw [next_eq_after hi, ← after_add, Nat.add_comm]

theorem next_after (hmax : 0 < max) (i k : ℕ) : next max (after max i k) = after max i (k + 1) := by
  rw [next_eq_after (after_lt hmax), ← after_add]

theorem ahead_lt (hi : i < max) (hj : j < max) : ahead max i j < max := by
  rw [ahead]
  split <;> omega

theorem ahead_self (max i : ℕ) : ahead max i i = 0 := by
  rw [ahead, if_pos (Nat.le_refl i), Nat.sub_self]

theorem after_eq (hi : i < max) (hk : k < max) :
    after max i k = if i + k < max then i + k else i + k - max := by
  rw [after]
  split
  · exact Nat.mod_eq_of_lt ‹_›
  · rw [Nat.mod_eq_sub_mod (by omega), Nat.mod_eq_of_lt (by omega)]

theorem after_ahead (hi : i < max) (hj : j < max) : after max i (ahead max i j) = j := by
  rw [after_eq hi (ahead_lt hi hj), ahead]
  split <;> split <;> omega

theorem ahead_after (hi : i < max) (hk : k < max) : ahead max i (after max i k) = k := by
  rw [after_eq hi hk, ahead]
  split <;> split <;> omega

/-- Fewer steps than the ring has positions lead to different positions. -/
theorem after_inj (hi : i < max) (hj : j < max) (hk : k < max) (h : after max i j = after max i k) :
    j = k := by
  rw [← ahead_after hi hj, h, ahead_after hi hk]

theorem ahead_eq_zero (hi : i < max) (hj : j < max) : ahead max i j = 0 ↔ i = j := by
  constructor
  · intro h
    rw [← after_ahead hi hj, h, after_zero hi]
  · rintro rfl
    exact ahead_self max i

theorem ahead_next (hi : i < max) (hj : j < max) (hroom : ahead max i j + 1 < max) :
    ahead max i (next max j) = ahead max i j + 1 := by
  have hstep : next max j = after max i (ahead max i j + 1) := by
    rw [← next_after (Nat.zero_lt_of_lt hi), after_ahead hi hj]
  rw [hstep, ahead_after hi hroom]

/-- The way gets shorter at its other end. -/
theorem ahead_next_left (hi : i < max) (hj : j < max) (hne : i ≠ j) :
    ahead max (next max i) j + 1 = ahead max i j := by
  rw [ahead, ahead, next]
  split <;> split <;> split <;> omega

/-- A position between two others divides the way. -/
theorem ahead_between {l : ℕ} (hi : i < max) (hj : j < max) (hl : l < max)
    (hle : ahead max i j ≤ ahead max i l) : ahead max i j + ahead max j l = ahead max i l := by
  obtain ⟨k, hk⟩ := Nat.exists_eq_add_of_le hle
  have hlt := ahead_lt hi hl
  have hreach : after max j k = l := by
    rw [← after_ahead hi hl, hk, after_add, after_ahead hi hj]
  rw [hk, ← hreach, ahead_after hj (by omega)]

/-! ## Contents -/

/-- What stands between the position that is read next and the one that is written next. -/
def contents (slots : ℕ → α) (max rd wt : ℕ) : List α :=
  (List.range (ahead max rd wt)).map fun k => slots (after max rd k)

variable {slots : ℕ → α} {rd wt : ℕ}

theorem contents_length (slots : ℕ → α) (max rd wt : ℕ) :
    (contents slots max rd wt).length = ahead max rd wt := by rw [contents, List.length_map,
      List.length_range]

theorem contents_self (slots : ℕ → α) (max rd : ℕ) : contents slots max rd rd = [] := by
  rw [contents, ahead_self]
  rfl

/-- One position is left free, so that a full ring differs from an empty one. -/
theorem full_iff (hrd : rd < max) (hwt : wt < max) :
    (wt + 1) % max = rd ↔ ahead max rd wt + 1 = max := by
  have hstep : (wt + 1) % max = after max rd (ahead max rd wt + 1) := by
    rw [← next_after (Nat.zero_lt_of_lt hrd), after_ahead hrd hwt, next_eq_after hwt, after]
  have hle := ahead_lt hrd hwt
  constructor
  · intro hfull
    by_contra hne
    have hroom : ahead max rd wt + 1 < max := by omega
    rw [hstep] at hfull
    have hzero := after_inj hrd hroom (Nat.zero_lt_of_lt hrd) (hfull.trans (after_zero hrd).symm)
    omega
  · intro hfull
    rw [hstep, hfull, after, Nat.add_mod_right, Nat.mod_eq_of_lt hrd]

theorem contents_put (hrd : rd < max) (hwt : wt < max)
    (hroom : (wt + 1) % max ≠ rd) (a : α) :
    contents (Function.update slots wt a) max rd (next max wt) = contents slots max rd wt ++ [a] := by
  have hlt := ahead_lt hrd hwt
  have hmore : ahead max rd wt + 1 < max := by
    have hnot := mt (full_iff hrd hwt).mpr hroom
    omega
  rw [contents, contents, ahead_next hrd hwt hmore, List.range_succ, List.map_append]
  congr 1
  · refine List.map_congr_left fun k hk => ?_
    have hk := List.mem_range.mp hk
    refine Function.update_of_ne (fun hsame => ?_) _ _
    rw [← after_ahead hrd hwt] at hsame
    exact Nat.ne_of_lt hk (after_inj hrd (Nat.lt_trans hk hlt) hlt hsame)
  · rw [List.map_singleton, after_ahead hrd hwt, Function.update_self]

theorem contents_take (slots : ℕ → α) (hrd : rd < max) (hwt : wt < max) (hne : rd ≠ wt) :
    contents slots max rd wt = slots rd :: contents slots max (next max rd) wt := by
  rw [contents, contents, ← ahead_next_left hrd hwt hne, List.range_succ_eq_map, List.map_cons,
    after_zero hrd, List.map_map]
  refine congrArg (slots rd :: ·) (List.map_congr_left fun k _ => ?_)
  rw [Function.comp, after_next hrd]


/-! ## Blocks -/

/-- The way gets longer at its end. -/
theorem ahead_after_end (hrd : rd < max) (hwt : wt < max) {n : ℕ}
    (hroom : ahead max rd wt + n < max) :
    ahead max rd (after max wt n) = ahead max rd wt + n := by
  have hstep : after max wt n = after max rd (ahead max rd wt + n) := by
    rw [after_add, after_ahead hrd hwt]
  rw [hstep, ahead_after hrd hroom]

/-- The way gets shorter at its start. -/
theorem ahead_after_start (hrd : rd < max) (hwt : wt < max) {n : ℕ} (hn : n ≤ ahead max rd wt) :
    n + ahead max (after max rd n) wt = ahead max rd wt := by
  have hlt := ahead_lt hrd hwt
  have hway := ahead_between hrd (after_lt (Nat.zero_lt_of_lt hrd)) hwt
    (show ahead max rd (after max rd n) ≤ ahead max rd wt by rwa [ahead_after hrd (by omega)])
  rwa [ahead_after hrd (by omega)] at hway

/-- More positions filled behind the last one. -/
theorem contents_append {slots' : ℕ → α} {data : List α} (hrd : rd < max) (hwt : wt < max)
    (hroom : ahead max rd wt + data.length < max)
    (hold : ∀ k < ahead max rd wt, slots' (after max rd k) = slots (after max rd k))
    (hnew : ∀ k (hk : k < data.length), slots' (after max wt k) = data[k]) :
    contents slots' max rd (after max wt data.length) = contents slots max rd wt ++ data := by
  rw [contents, contents, ahead_after_end hrd hwt hroom, List.range_add, List.map_append, List.map_map]
  congr 1
  · exact List.map_congr_left fun k hk => hold k (List.mem_range.mp hk)
  · apply List.ext_getElem
    · simp
    · intro k hk hk'
      rw [List.getElem_map, List.getElem_range, Function.comp, after_add, after_ahead hrd hwt]
      exact hnew k hk'

/-- The first positions and those behind them. -/
theorem contents_split {n : ℕ} (slots : ℕ → α) (hrd : rd < max) (hwt : wt < max)
    (hn : n ≤ ahead max rd wt) :
    contents slots max rd wt =
      (List.range n).map (fun k => slots (after max rd k)) ++
        contents slots max (after max rd n) wt := by
  rw [contents, contents, ← ahead_after_start hrd hwt hn, List.range_add, List.map_append, List.map_map]
  congr 1
  exact List.map_congr_left fun k _ => by rw [Function.comp, after_add]

/-- A list written from a position on. -/
def store (slots : ℕ → α) (off : ℕ) (data : List α) : ℕ → α :=
  fun p => if off ≤ p then (data[p - off]?).getD (slots p) else slots p

/-- A list read from a position on. -/
def load (slots : ℕ → α) (off n : ℕ) : List α := (List.range n).map fun k => slots (off + k)

theorem store_at (slots : ℕ → α) {off p : ℕ} {data : List α} (hle : off ≤ p)
    (hlt : p - off < data.length) : store slots off data p = data[p - off] := by
  rw [store, if_pos hle, List.getElem?_eq_getElem hlt, Option.getD_some]

theorem store_outside (slots : ℕ → α) {off p : ℕ} {data : List α}
    (h : off ≤ p → data.length ≤ p - off) : store slots off data p = slots p := by
  rw [store]
  split
  · rw [List.getElem?_eq_none (h ‹_›), Option.getD_none]
  · rfl

/-- A list written from a position on and, behind the last position, from the first one on. -/
def wrapStore (slots : ℕ → α) (max wt : ℕ) (data : List α) : ℕ → α :=
  if wt + data.length < max then store slots wt data
  else store (store slots wt (data.take (max - wt))) 0 (data.drop (max - wt))

/-- A list read the same way. -/
def wrapLoad (slots : ℕ → α) (max rd n : ℕ) : List α :=
  if rd + n < max then load slots rd n else load slots rd (max - rd) ++ load slots 0 (n - (max - rd))

theorem wrapStore_new (slots : ℕ → α) {data : List α} (hwt : wt < max) (hlen : data.length < max)
    (hk : k < data.length) : wrapStore slots max wt data (after max wt k) = data[k] := by
  rw [after_eq hwt (by omega), wrapStore]
  by_cases hall : wt + data.length < max
  · rw [if_pos hall, if_pos (by omega), store_at slots (Nat.le_add_right _ _) (by omega)]
    simp
  · rw [if_neg hall]
    by_cases hturn : wt + k < max
    · have hout : store (store slots wt (data.take (max - wt))) 0 (data.drop (max - wt)) (wt + k) =
          store slots wt (data.take (max - wt)) (wt + k) := by
        apply store_outside
        intro _
        rw [List.length_drop]
        omega
      have hin : wt + k - wt < (data.take (max - wt)).length := by
        rw [List.length_take]
        omega
      rw [if_pos hturn, hout, store_at slots (Nat.le_add_right _ _) hin]
      simp
    · have hin : wt + k - max - 0 < (data.drop (max - wt)).length := by
        rw [List.length_drop]
        omega
      rw [if_neg hturn, store_at _ (Nat.zero_le _) hin, List.getElem_drop]
      congr 1
      omega

theorem wrapStore_old (slots : ℕ → α) {data : List α} {p : ℕ} (hwt : wt < max) (hp : p < max)
    (hlen : data.length < max) (hne : ∀ k < data.length, p ≠ after max wt k) :
    wrapStore slots max wt data p = slots p := by
  have hbehind : wt ≤ p → data.length ≤ p - wt := by
    intro hle
    by_contra hlt
    apply hne (p - wt) (by omega)
    rw [after_eq hwt (by omega), if_pos (by omega)]
    omega
  have hbefore : data.length - (max - wt) ≤ p := by
    by_contra hlt
    apply hne (p + (max - wt)) (by omega)
    rw [after_eq hwt (by omega), if_neg (by omega)]
    omega
  rw [wrapStore]
  split
  · exact store_outside slots hbehind
  · have htake : (data.take (max - wt)).length ≤ data.length := List.length_take_le' _ _
    rw [store_outside, store_outside slots fun hle => Nat.le_trans htake (hbehind hle)]
    intro _
    rw [List.length_drop]
    exact hbefore

theorem wrapLoad_eq (slots : ℕ → α) {n : ℕ} (hrd : rd < max) (hn : n < max) :
    wrapLoad slots max rd n = (List.range n).map fun k => slots (after max rd k) := by
  rw [wrapLoad]
  split
  · refine List.map_congr_left fun k hk => ?_
    have hk := List.mem_range.mp hk
    rw [after_eq hrd (by omega), if_pos (by omega)]
  · obtain ⟨m, hm⟩ := Nat.exists_eq_add_of_le (show max - rd ≤ n by omega)
    rw [hm, Nat.add_sub_cancel_left, List.range_add, List.map_append, List.map_map, load, load]
    congr 1
    · refine List.map_congr_left fun k hk => ?_
      have hk := List.mem_range.mp hk
      rw [after_eq hrd (by omega), if_pos (by omega)]
    · refine List.map_congr_left fun k hk => ?_
      have hk := List.mem_range.mp hk
      rw [Function.comp, after_eq hrd (by omega), if_neg (by omega)]
      congr 1
      omega

/-- Writing a block that leaves a position free puts it behind the contents. -/
theorem contents_wrapStore (hrd : rd < max) (hwt : wt < max) {data : List α}
    (hroom : ahead max rd wt + data.length < max) :
    contents (wrapStore slots max wt data) max rd (after max wt data.length) =
      contents slots max rd wt ++ data := by
  have hlt := ahead_lt hrd hwt
  apply contents_append hrd hwt hroom
  · intro k hk
    apply wrapStore_old slots hwt (after_lt (Nat.zero_lt_of_lt hrd)) (by omega)
    intro l hl hsame
    rw [← after_ahead hrd hwt, ← after_add] at hsame
    have := after_inj hrd (by omega) (by omega) hsame
    omega
  · intro k hk
    exact wrapStore_new slots hwt (by omega) hk

/-- Reading a block takes the first of the contents. -/
theorem contents_wrapLoad (slots : ℕ → α) {n : ℕ} (hrd : rd < max) (hwt : wt < max)
    (hn : n ≤ ahead max rd wt) :
    contents slots max rd wt =
      wrapLoad slots max rd n ++ contents slots max (after max rd n) wt := by
  have hlt := ahead_lt hrd hwt
  rw [wrapLoad_eq slots hrd (by omega), ← contents_split slots hrd hwt hn]

end Uwe5631.RingBuffer
