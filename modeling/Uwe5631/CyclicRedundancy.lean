import Mathlib.Data.BitVec
import Mathlib.Data.List.GetD

/-!
# Cyclic redundancy checks, a bit at a time

The register of a reflected check takes a bit into its lowest place and moves down, with the
polynomial added for a one that leaves it. It is linear in exclusive or, and moving down can be
undone if the polynomial has its highest bit.
-/
namespace Uwe5631.CyclicRedundancy

variable {w : ℕ} (poly : BitVec w)

/-- The register moves down by a place. -/
def shift (r : BitVec w) : BitVec w := if r.getLsbD 0 then (r >>> 1) ^^^ poly else r >>> 1

def shifts : ℕ → BitVec w → BitVec w
  | 0, r => r
  | n + 1, r => shifts n (shift poly r)

/-- A bit in the lowest place. -/
def ofBit (w : ℕ) (b : Bool) : BitVec w := if b then 1#w else 0#w

/-- The register takes a bit. -/
def feed (r : BitVec w) (b : Bool) : BitVec w := shift poly (r ^^^ ofBit w b)

/-- The register after a string of bits. -/
def check (r : BitVec w) (bits : List Bool) : BitVec w := bits.foldl (feed poly) r

theorem xor_middle (a b p : BitVec w) : a ^^^ p ^^^ (b ^^^ p) = a ^^^ b := by
  rw [BitVec.xor_assoc a p (b ^^^ p), ← BitVec.xor_assoc p b p, BitVec.xor_comm p b,
    BitVec.xor_assoc b p p, BitVec.xor_self, BitVec.xor_zero]

theorem shift_xor (r s : BitVec w) : shift poly (r ^^^ s) = shift poly r ^^^ shift poly s := by
  rw [shift, shift, shift, BitVec.getLsbD_xor, BitVec.ushiftRight_xor_distrib]
  cases r.getLsbD 0 <;> cases s.getLsbD 0
  · rfl
  · exact BitVec.xor_assoc _ _ _
  · change r >>> 1 ^^^ s >>> 1 ^^^ poly = r >>> 1 ^^^ poly ^^^ s >>> 1
    rw [BitVec.xor_assoc, BitVec.xor_comm (s >>> 1), ← BitVec.xor_assoc]
  · exact (xor_middle _ _ poly).symm

@[simp] theorem shift_zero : shift poly 0#w = 0#w := by
  rw [shift, BitVec.getLsbD_zero]
  simp

theorem shifts_xor (n : ℕ) (r s : BitVec w) :
    shifts poly n (r ^^^ s) = shifts poly n r ^^^ shifts poly n s := by
  induction n generalizing r s with
  | zero => rfl
  | succ n ih => rw [shifts, shifts, shifts, shift_xor, ih]

@[simp] theorem shifts_zero (n : ℕ) : shifts poly n 0#w = 0#w := by
  induction n with
  | zero => rfl
  | succ n ih => rw [shifts, shift_zero, ih]

theorem ofBit_xor (a b : Bool) : ofBit w (a ^^ b) = ofBit w a ^^^ ofBit w b := by
  cases a <;> cases b <;> simp [ofBit]

theorem feed_xor (r s : BitVec w) (a b : Bool) :
    feed poly (r ^^^ s) (a ^^ b) = feed poly r a ^^^ feed poly s b := by
  rw [feed, feed, feed, ← shift_xor, ofBit_xor]
  congr 1
  ac_rfl

/-- The register of a sum of strings is the sum of the registers. -/
theorem check_xor (xs ys : List Bool) (hlen : xs.length = ys.length) (r s : BitVec w) :
    check poly (r ^^^ s) (xs.zipWith xor ys) = check poly r xs ^^^ check poly s ys := by
  induction xs generalizing ys r s with
  | nil =>
    obtain rfl := List.eq_nil_of_length_eq_zero hlen.symm
    rfl
  | cons x xs ih =>
    cases ys with
    | nil => cases hlen
    | cons y ys =>
      rw [check, List.zipWith_cons_cons, List.foldl_cons, feed_xor]
      exact ih ys (Nat.succ.inj hlen) _ _

theorem check_append (r : BitVec w) (xs ys : List Bool) :
    check poly r (xs ++ ys) = check poly (check poly r xs) ys := List.foldl_append

/-- A string of zeros moves the register down. -/
theorem check_zeros (r : BitVec w) (n : ℕ) :
    check poly r (List.replicate n false) = shifts poly n r := by
  induction n generalizing r with
  | zero => rfl
  | succ n ih =>
    have hfeed : feed poly r false = shift poly r := by
      rw [feed, ofBit]
      simp
    rw [List.replicate_succ, check, List.foldl_cons, hfeed]
    exact ih _

/-! ## Several bits at once -/

/-- A string of bits as a number, its first bit the lowest. -/
def ofBits (w : ℕ) : List Bool → BitVec w
  | [] => 0#w
  | b :: bits => ofBit w b ^^^ ofBits w bits <<< 1

theorem getLsbD_ofBit (b : Bool) (i : ℕ) :
    (ofBit w b).getLsbD i = (decide (i < w) && decide (i = 0) && b) := by
  cases b
  · simp [ofBit]
  · simp only [ofBit, if_true, BitVec.getLsbD_one, Bool.and_true]
    rcases Nat.eq_zero_or_pos i with rfl | hi
    · simp
    · simp [Nat.pos_iff_ne_zero.mp hi]

theorem getLsbD_ofBits (bits : List Bool) (i : ℕ) :
    (ofBits w bits).getLsbD i = (decide (i < w) && bits.getD i false) := by
  induction bits generalizing i with
  | nil => simp [ofBits]
  | cons b bits ih =>
    rw [ofBits, BitVec.getLsbD_xor, BitVec.getLsbD_shiftLeft, getLsbD_ofBit, ih]
    cases i with
    | zero => simp
    | succ i =>
      by_cases hi : i + 1 < w
      · simp [hi, Nat.lt_of_succ_lt hi]
      · simp [hi]

/-- What has no bit in the lowest place only moves down. -/
theorem shift_shiftLeft {r : BitVec w} (htop : r.getLsbD (w - 1) = false) :
    shift poly (r <<< 1) = r := by
  have hlow : (r <<< 1).getLsbD 0 = false := by simp
  rw [shift, hlow]
  refine BitVec.eq_of_getLsbD_eq fun i hi => ?_
  simp only [Bool.false_eq_true, if_false, BitVec.getLsbD_ushiftRight, BitVec.getLsbD_shiftLeft]
  by_cases hlast : 1 + i < w
  · simp [hlast]
  · obtain rfl : i = w - 1 := by omega
    simp [hlast, htop]

/-- Bits that fit into the register may be taken all at once. -/
theorem check_eq_shifts (r : BitVec w) (bits : List Bool) (hlen : bits.length ≤ w) :
    check poly r bits = shifts poly bits.length (r ^^^ ofBits w bits) := by
  induction bits generalizing r with
  | nil => simp [check, ofBits, shifts]
  | cons b bits ih =>
    have hfit : bits.length < w := hlen
    have htop : (ofBits w bits).getLsbD (w - 1) = false := by
      rw [getLsbD_ofBits, List.getD_eq_default _ _ (by omega), Bool.and_false]
    have htail := ih (feed poly r b) hfit.le
    rw [check, List.foldl_cons, List.length_cons, shifts, ofBits, ← BitVec.xor_assoc, shift_xor,
      shift_shiftLeft poly htop]
    exact htail

/-- What leaves the register unseen only moves down. -/
theorem shifts_eq_ushiftRight (r : BitVec w) (n : ℕ) (hlow : ∀ i < n, r.getLsbD i = false) :
    shifts poly n r = r >>> n := by
  induction n generalizing r with
  | zero => simp [shifts]
  | succ n ih =>
    have hshift : shift poly r = r >>> 1 := by
      rw [shift, hlow 0 (Nat.succ_pos n)]
      rfl
    rw [shifts, hshift, ih _ fun i hi => ?_, ← BitVec.shiftRight_add, Nat.add_comm]
    rw [BitVec.getLsbD_ushiftRight]
    exact hlow _ (by omega)

/-! ## Errors -/

/-- Moving down loses nothing if the polynomial has its highest bit. -/
theorem shift_eq_zero (hpoly : poly.getLsbD (w - 1) = true) {r : BitVec w} (h : shift poly r = 0#w) :
    r = 0#w := by
  have hw : 0 < w := by
    rcases Nat.eq_zero_or_pos w with rfl | hw
    · simp at hpoly
    · exact hw
  cases hlow : r.getLsbD 0 with
  | true =>
    have htop : (shift poly r).getLsbD (w - 1) = true := by
      rw [shift, hlow, if_pos rfl, BitVec.getLsbD_xor, BitVec.getLsbD_ushiftRight,
        BitVec.getLsbD_of_ge r _ (by omega), hpoly]
      rfl
    rw [h] at htop
    simp at htop
  | false =>
    refine BitVec.eq_of_getLsbD_eq fun i _ => ?_
    rw [BitVec.getLsbD_zero]
    cases i with
    | zero => exact hlow
    | succ i =>
      have hi := congrArg (BitVec.getLsbD · i) h
      simp only [shift, hlow, Bool.false_eq_true, if_false, BitVec.getLsbD_ushiftRight,
        BitVec.getLsbD_zero] at hi
      rw [Nat.add_comm]
      exact hi

theorem shifts_eq_zero (hpoly : poly.getLsbD (w - 1) = true) {n : ℕ} {r : BitVec w}
    (h : shifts poly n r = 0#w) : r = 0#w := by
  induction n generalizing r with
  | zero => exact h
  | succ n ih => exact shift_eq_zero poly hpoly (ih h)

/-- Bits that fit into the register leave it zero only if they all are. -/
theorem check_zero_of_fits (hpoly : poly.getLsbD (w - 1) = true) {bits : List Bool}
    (hlen : bits.length ≤ w) (h : check poly 0#w bits = 0#w) : ∀ b ∈ bits, b = false := by
  rw [check_eq_shifts poly _ _ hlen, BitVec.zero_xor] at h
  have hzero := shifts_eq_zero poly hpoly h
  intro b hb
  obtain ⟨i, hi, rfl⟩ := List.mem_iff_getElem.mp hb
  have hbit := congrArg (BitVec.getLsbD · i) hzero
  simp only [getLsbD_ofBits, BitVec.getLsbD_zero, Nat.lt_of_lt_of_le hi hlen, decide_true,
    Bool.true_and] at hbit
  rwa [List.getD_eq_getElem _ _ hi] at hbit

/-- A string that is zero but for a window of the register's width does not leave the register
zero. -/
theorem check_burst (hpoly : poly.getLsbD (w - 1) = true) (p m : ℕ) {bits : List Bool}
    (hlen : bits.length ≤ w)
    (h : check poly 0#w (List.replicate p false ++ bits ++ List.replicate m false) = 0#w) :
    ∀ b ∈ bits, b = false := by
  rw [check_append, check_append, check_zeros poly (check poly _ bits), check_zeros,
    shifts_zero] at h
  exact check_zero_of_fits poly hpoly hlen (shifts_eq_zero poly hpoly h)

/-- Two strings of one length with one check differ in no bit if they differ in a window of the
register's width at most. -/
theorem eq_of_check_eq (hpoly : poly.getLsbD (w - 1) = true) {xs ys : List Bool}
    (hlen : xs.length = ys.length) {p n : ℕ} (hn : n ≤ w)
    (hdiff : ∀ i, xs.getD i false ≠ ys.getD i false → p ≤ i ∧ i < p + n) (r : BitVec w)
    (h : check poly r xs = check poly r ys) : xs = ys := by
  have herror : check poly 0#w (xs.zipWith xor ys) = 0#w := by
    have hsum := check_xor poly xs ys hlen r r
    rwa [h, BitVec.xor_self, BitVec.xor_self] at hsum
  have hz : (xs.zipWith xor ys).length = xs.length := by
    rw [List.length_zipWith, hlen, Nat.min_self]
  have hget : ∀ i, (xs.zipWith xor ys).getD i false = (xs.getD i false ^^ ys.getD i false) := by
    intro i
    by_cases hi : i < xs.length
    · rw [List.getD_eq_getElem _ _ (hz ▸ hi), List.getElem_zipWith, List.getD_eq_getElem _ _ hi,
        List.getD_eq_getElem _ _ (hlen ▸ hi)]
    · rw [List.getD_eq_default _ _ (by omega), List.getD_eq_default _ _ (by omega),
        List.getD_eq_default _ _ (by omega)]
      rfl
  generalize hes : xs.zipWith xor ys = es at herror hz hget
  have hout : ∀ i, ¬ (p ≤ i ∧ i < p + n) → es.getD i false = false := by
    intro i hi
    rw [hget, not_ne_iff.mp fun hne => hi (hdiff i hne), Bool.xor_self]
  -- the string of differences: zeros, the window, zeros
  have hsplit : es = List.replicate (es.take p).length false ++ (es.drop p).take n ++
      List.replicate (es.drop (p + n)).length false := by
    have hfront : es.take p = List.replicate (es.take p).length false := by
      refine List.eq_replicate_iff.mpr ⟨rfl, fun b hb => ?_⟩
      obtain ⟨i, hi, rfl⟩ := List.mem_iff_getElem.mp hb
      rw [List.length_take] at hi
      rw [List.getElem_take, ← List.getD_eq_getElem _ false (by omega)]
      exact hout i (by omega)
    have hback : es.drop (p + n) = List.replicate (es.drop (p + n)).length false := by
      refine List.eq_replicate_iff.mpr ⟨rfl, fun b hb => ?_⟩
      obtain ⟨i, hi, rfl⟩ := List.mem_iff_getElem.mp hb
      rw [List.length_drop] at hi
      rw [List.getElem_drop, ← List.getD_eq_getElem _ false (by omega)]
      exact hout _ (by omega)
    rw [← hfront, ← hback, List.append_assoc, ← List.drop_drop, List.take_append_drop,
      List.take_append_drop]
  rw [hsplit] at herror
  have hwindow := check_burst poly hpoly _ _
    (by rw [List.length_take]; omega : ((es.drop p).take n).length ≤ w) herror
  refine List.ext_getElem hlen fun i hi hi' => ?_
  have hzero : es.getD i false = false := by
    by_cases hin : p ≤ i ∧ i < p + n
    · have hi'' : i < es.length := hz ▸ hi
      rw [List.getD_eq_getElem _ _ hi'']
      refine hwindow _ (List.mem_iff_getElem.mpr ⟨i - p, ?_, ?_⟩)
      · rw [List.length_take, List.length_drop]
        omega
      · simp only [List.getElem_take, List.getElem_drop]
        congr 1
        omega
    · exact hout i hin
  rw [hget, List.getD_eq_getElem _ _ hi, List.getD_eq_getElem _ _ hi'] at hzero
  simpa using hzero

end Uwe5631.CyclicRedundancy
