import Uwe5631.MdbgRing

/-!
# The log ring with and without a reader

Calls of all functions on the ring while it is opened and released: when what can be read is what
has been written and has neither been read nor been overwritten.
-/
namespace Uwe5631.Mdbg
open FallibleRuns RingBuffer

/-- The ring, `mdbg_dev->open_count`, and how many bytes have been written and neither been read nor
been overwritten. -/
structure Logged where
  ring : MdbgRing
  openCount : ℤ
  live : ℕ

inductive Use where
  | write (buf : List Byte)
  | writeExt (len : ℕ)
  | read (len : ℕ)
  | open
  | release
  deriving DecidableEq, Repr

def Use.len : Use → ℕ
  | .write buf => buf.length
  | .writeExt len | .read len => len
  | .open | .release => 0

/-- The bytes that are left when some are written: the oldest are overwritten. -/
def overwrite (size live len : ℕ) : ℕ := min (live + len) size

/-- A call, or a step of the reader, on the ring. -/
def use (s : Logged) : Use → Except Fault Logged
  | .write buf => (mdbgRingWrite (s.openCount ≠ 0) s.ring buf).map fun r =>
    { s with
      ring := r.2
      live := if s.openCount ≠ 0 ∧ ¬ Fits s.ring buf then s.live
        else overwrite s.ring.size s.live buf.length }
  | .writeExt len =>
    let r := mdbgRingWriteExt s.ring len
    .ok { s with
      ring := r.2
      live := if r.1.isSome then overwrite s.ring.size s.live len else s.live }
  | .read len => (mdbgRingRead s.ring len).map fun r =>
    { s with ring := r.2.2, live := s.live - r.2.1.length }
  | .open => .ok { s with openCount := s.openCount + 1 }
  | .release => .ok { s with openCount := s.openCount - 1 }

/-- Lengths are below the size of the ring. -/
def useBelow (s : Logged) (e : Use) : Except Fault Logged :=
  if e.len < s.ring.size then use s e else .ok s

/-- The pointers are in the buffer, and what can be read is what is left. -/
structure Accounted (s : Logged) : Prop where
  inBuffer : InBuffer s.ring
  live : mdbgRingReadableLen s.ring = s.live

/-- A write without a reader leaves one position free, and what is reserved ends in the buffer and
leaves one position free. -/
def LeavesFree (s : Logged) : Use → Prop
  | .write buf => s.openCount = 0 → Fits s.ring buf
  | .writeExt len => mdbgRingOverLoop s.ring len .r = false → mdbgRingWillFull s.ring len = false →
    s.ring.wp + len < s.ring.size ∧ (len : ℤ) < mdbgRingFreeSpace s.ring
  | .read _ | .open | .release => True

instance (s : Logged) (e : Use) : Decidable (LeavesFree s e) := by
  cases e with
  | write buf => exact inferInstanceAs (Decidable (s.openCount = 0 → Fits s.ring buf))
  | writeExt len => exact inferInstanceAs (Decidable (_ → _ → _ ∧ _))
  | read | «open» | release => exact isTrue trivial

variable {ring : MdbgRing} {buf : List Byte} {len : ℕ} {s s' : Logged}

theorem Accounted.live_eq (h : Accounted s) : s.live = s.ring.count := by
  have := h.live
  rw [readableLen_eq h.inBuffer] at this
  omega

theorem accounted_of_count {openCount : ℤ} {live : ℕ} (h : InBuffer ring)
    (hlive : live = ring.count) : Accounted ⟨ring, openCount, live⟩ where
  inBuffer := h
  live := by
    change mdbgRingReadableLen ring = live
    rw [readableLen_eq h, hlive]

theorem fits_iff (h : InBuffer ring) (buf : List Byte) :
    Fits ring buf ↔ ring.count + buf.length < ring.size := by
  have := h.count_lt
  rw [Fits, freeSpace_eq h]
  omega

theorem count_put (h : InBuffer ring) (hroom : ring.count + buf.length < ring.size) :
    (ring.put buf).count = ring.count + buf.length := ahead_after_end h.rp h.wp hroom

theorem count_drop (h : InBuffer ring) {n : ℕ} (hn : n ≤ ring.count) :
    n + (ring.drop n).count = ring.count := ahead_after_start h.rp h.wp hn

/-- What a write leaves on the ring. -/
theorem use_write (h : InBuffer s.ring) (hlen : buf.length < s.ring.size) :
    use s (.write buf) = .ok (if s.openCount ≠ 0 ∧ ¬ Fits s.ring buf then s
      else
        { s with
          ring := if buf = [] then s.ring else s.ring.put buf
          live := overwrite s.ring.size s.live buf.length }) := by
  by_cases hbuf : buf = []
  · have hfits := (fits_iff h buf).mpr (by simpa [hbuf] using h.count_lt)
    have hwrite (opened : Bool) : mdbgRingWrite opened s.ring buf = .ok (-MDBG_ERR_BAD_PARAM, s.ring) := by
      simp [mdbgRingWrite, hbuf]
    simp only [use, hwrite, ok_map, hfits, not_true_eq_false, and_false, if_false, if_pos hbuf]
  · by_cases hdiscard : s.openCount ≠ 0 ∧ ¬ Fits s.ring buf
    · have hroom := Nat.not_lt.mp (mt (fits_iff h buf).mpr hdiscard.2)
      have hopened : decide (s.openCount ≠ 0) = true := decide_eq_true hdiscard.1
      simp only [use, hopened, write_discards h hbuf hroom, ok_map, if_pos hdiscard]
    · have hroom : decide (s.openCount ≠ 0) = true → s.ring.count + buf.length < s.ring.size := by
        intro hopened
        by_contra hroom
        exact hdiscard ⟨of_decide_eq_true hopened, mt (fits_iff h buf).mp hroom⟩
      simp only [use, write_stores h hlen hbuf hroom, ok_map, if_neg hdiscard, if_neg hbuf]

/-- What a reservation leaves on the ring. -/
theorem use_writeExt (s : Logged) (len : ℕ) :
    use s (.writeExt len) = .ok (if len = 0 ∨ mdbgRingOverLoop s.ring len .r ∨
        mdbgRingWillFull s.ring len then s
      else { s with
        ring := { s.ring with wp := s.ring.wp + len }
        live := overwrite s.ring.size s.live len }) := by
  by_cases hzero : len = 0
  · simp [use, mdbgRingWriteExt, hzero]
  · by_cases hfull : mdbgRingOverLoop s.ring len .r ∨ mdbgRingWillFull s.ring len
    · simp [use, mdbgRingWriteExt, hzero, hfull]
    · simp [use, mdbgRingWriteExt, hzero, hfull]

/-- What a read leaves on the ring. -/
theorem use_read (h : InBuffer s.ring) (len : ℕ) :
    use s (.read len) = .ok { s with
      ring := s.ring.drop (min len s.ring.count)
      live := s.live - min len s.ring.count } := by
  have hlt := h.count_lt
  have hle := Nat.min_le_right len s.ring.count
  simp only [use, read_loads h len, ok_map]
  rw [wrapLoad_eq _ h.rp (Nat.lt_of_le_of_lt hle hlt), List.length_map, List.length_range]

/-- No copy of a call on an accounted ring runs past the end. -/
theorem Accounted.goes (h : Accounted s) (e : Use) : ∃ s', useBelow s e = .ok s' := by
  rw [useBelow]
  split
  · rename_i hlen
    cases e with
    | write buf => exact ⟨_, use_write h.inBuffer hlen⟩
    | writeExt len => exact ⟨_, use_writeExt s len⟩
    | read len => exact ⟨_, use_read h.inBuffer len⟩
    | «open» | release => exact ⟨_, rfl⟩
  · exact ⟨s, rfl⟩

theorem useBelow_eq {e : Use} (hlen : e.len < s.ring.size) : useBelow s e = use s e := if_pos hlen

/-- A call that leaves a position free keeps the account. -/
theorem Accounted.kept (h : Accounted s) {e : Use} (hfree : e.len < s.ring.size → LeavesFree s e)
    (hs : useBelow s e = .ok s') : Accounted s' := by
  by_cases hlen : e.len < s.ring.size
  · rw [useBelow_eq hlen] at hs
    have hfree := hfree hlen
    have hlive := h.live_eq
    have hlt := h.inBuffer.count_lt
    cases e with
    | write buf =>
      rw [use_write h.inBuffer hlen] at hs
      obtain rfl := Except.ok.inj hs
      split
      · exact h
      · rename_i hkept
        have hfits : Fits s.ring buf := by
          by_contra hnot
          exact hkept ⟨mt hfree hnot, hnot⟩
        have hroom := (fits_iff h.inBuffer buf).mp hfits
        have hover : overwrite s.ring.size s.live buf.length = s.ring.count + buf.length := by
          rw [overwrite, hlive]
          exact Nat.min_eq_left (Nat.le_of_lt hroom)
        split
        · rename_i hbuf
          refine accounted_of_count h.inBuffer (hover.trans ?_)
          rw [hbuf, List.length_nil, Nat.add_zero]
        · exact accounted_of_count (h.inBuffer.put buf) (hover.trans (count_put h.inBuffer hroom).symm)
    | writeExt len =>
      rw [use_writeExt] at hs
      obtain rfl := Except.ok.inj hs
      split
      · exact h
      · rename_i hgiven
        obtain ⟨-, hgiven⟩ := not_or.mp hgiven
        obtain ⟨hloop, hfull⟩ := not_or.mp hgiven
        obtain ⟨hend, hless⟩ := hfree (by simpa using hloop) (by simpa using hfull)
        rw [freeSpace_eq h.inBuffer] at hless
        have hroom : ahead s.ring.size s.ring.rp s.ring.wp + len < s.ring.size := by
          change s.ring.count + len < s.ring.size
          omega
        have hafter : after s.ring.size s.ring.wp len = s.ring.wp + len := Nat.mod_eq_of_lt hend
        have hcount := ahead_after_end h.inBuffer.rp h.inBuffer.wp hroom
        rw [hafter] at hcount
        have hover : overwrite s.ring.size s.live len = s.ring.count + len := by
          rw [overwrite, hlive]
          exact Nat.min_eq_left (Nat.le_of_lt hroom)
        have hinBuffer : InBuffer { s.ring with wp := s.ring.wp + len } := ⟨h.inBuffer.rp, hend⟩
        exact accounted_of_count hinBuffer (hover.trans hcount.symm)
    | read len =>
      rw [use_read h.inBuffer] at hs
      obtain rfl := Except.ok.inj hs
      have hcount := count_drop h.inBuffer (Nat.min_le_right len s.ring.count)
      exact accounted_of_count (h.inBuffer.drop _) (by omega)
    | «open» | release =>
      cases hs
      exact ⟨h.inBuffer, h.live⟩
  · rw [useBelow, if_neg hlen] at hs
    cases hs
    exact h

/-- A call that fills the ring, or reserves up to its end, leaves it without an account. -/
theorem Accounted.broken (h : Accounted s) {e : Use} (hlen : e.len < s.ring.size)
    (hfree : ¬ LeavesFree s e) : ∃ s', useBelow s e = .ok s' ∧ ¬ Accounted s' := by
  rw [useBelow_eq hlen]
  have hlive := h.live_eq
  have hlt := h.inBuffer.count_lt
  cases e with
  | write buf =>
    obtain ⟨hclosed, hfits⟩ := Classical.not_imp.mp hfree
    refine ⟨_, use_write h.inBuffer hlen, fun hbad => ?_⟩
    rw [if_neg fun hopened => hopened.1 hclosed] at hbad
    have hover : overwrite s.ring.size s.live buf.length = s.ring.size := by
      rw [overwrite, hlive]
      exact Nat.min_eq_right (Nat.not_lt.mp (mt (fits_iff h.inBuffer buf).mpr hfits))
    have hcount := hbad.live_eq
    have hsmall := hbad.inBuffer.count_lt
    simp only [hover] at hcount
    split at hcount
    · omega
    · rename_i hbuf
      rw [if_neg hbuf] at hsmall
      exact Nat.ne_of_lt hsmall hcount.symm
  | writeExt len =>
    simp only [LeavesFree, Classical.not_imp, not_and_or, not_lt] at hfree
    obtain ⟨hloop, hfull, hbad⟩ := hfree
    refine ⟨_, use_writeExt s len, fun hacc => ?_⟩
    have hwp := h.inBuffer.wp
    rw [freeSpace_eq h.inBuffer] at hbad
    have hgiven : ¬ (len = 0 ∨ mdbgRingOverLoop s.ring len .r ∨ mdbgRingWillFull s.ring len) := by
      simp only [hloop, hfull, Bool.false_eq_true, or_false]
      omega
    rw [if_neg hgiven] at hacc
    have hend : s.ring.wp + len < s.ring.size := hacc.inBuffer.wp
    have hsmall : ahead s.ring.size s.ring.rp (s.ring.wp + len) < s.ring.size := hacc.inBuffer.count_lt
    have hcount : overwrite s.ring.size s.live len =
        ahead s.ring.size s.ring.rp (s.ring.wp + len) := hacc.live_eq
    rw [overwrite, hlive] at hcount
    omega
  | read | «open» | release => exact absurd trivial hfree

theorem Accounted.alloc {size : ℕ} (halloc : mdbgRingAlloc size = some ring) :
    Accounted ⟨ring, 0, 0⟩ := by
  rw [mdbgRingAlloc] at halloc
  split at halloc
  · cases halloc
  · rename_i hsize
    cases halloc
    have hpos : 0 < size := by
      rw [MDBG_RING_MIN_SIZE] at hsize
      omega
    exact accounted_of_count ⟨hpos, hpos⟩ (ahead_self size 0).symm

/-- In every state the pointers are in the buffer and what can be read is what has been written and
is left, and no copy has run past the end, exactly if every call leaves a position free. -/
theorem ring_accounted_iff {size : ℕ} (halloc : mdbgRingAlloc size = some ring) (es : List Use) :
    ((∃ t, run useBelow ⟨ring, 0, 0⟩ es = .ok t) ∧
      ∀ es₁ es₂ t, es = es₁ ++ es₂ → run useBelow ⟨ring, 0, 0⟩ es₁ = .ok t → Accounted t) ↔
    Along useBelow (fun s e => e.len < s.ring.size → LeavesFree s e) ⟨ring, 0, 0⟩ es := by
  have hinit := Accounted.alloc halloc
  have hkeep (s : Logged) (e : Use) (s' : Logged) (h : Accounted s)
      (hfree : e.len < s.ring.size → LeavesFree s e) (hs : useBelow s e = .ok s') : Accounted s' :=
    h.kept hfree hs
  constructor
  · rintro ⟨-, h⟩
    refine (along_iff_prefixes hinit hkeep ?_).mp h
    intro s e hacc hfree
    obtain ⟨hlen, hfree⟩ := Classical.not_imp.mp hfree
    exact hacc.broken hlen hfree
  · intro h
    constructor
    · have hgoes (s : Logged) (e : Use) (hacc : Accounted s)
          (hfree : e.len < s.ring.size → LeavesFree s e) :
          ∃ s', useBelow s e = .ok s' ∧ Accounted s' := by
        obtain ⟨s', hs⟩ := hacc.goes e
        exact ⟨s', hs, hkeep s e s' hacc hfree hs⟩
      obtain ⟨t, ht, -⟩ := run_completes hgoes hinit h
      exact ⟨t, ht⟩
    · rintro es₁ es₂ t rfl ht
      exact run_invariant hkeep hinit (along_append.mp h).1 ht

/-- A write without a reader. -/
theorem closed_write (h : InBuffer s.ring) (hclosed : s.openCount = 0) (hbuf : buf ≠ [])
    (hlen : buf.length < s.ring.size) : useBelow s (.write buf) =
      .ok ⟨s.ring.put buf, s.openCount, overwrite s.ring.size s.live buf.length⟩ := by
  have hkept : ¬ (s.openCount ≠ 0 ∧ ¬ Fits s.ring buf) := fun hopened => hopened.1 hclosed
  rw [useBelow_eq (show (Use.write buf).len < s.ring.size from hlen), use_write h hlen, if_neg hkept,
    if_neg hbuf]

theorem write_and_read_accounted :
    ((∃ t, run useBelow ⟨⟨MDBG_RING_MIN_SIZE, 0, 0, fun _ => 0⟩, 0, 0⟩
        [.write [1, 2], .open, .read 1] = .ok t) ∧
      ∀ es₁ es₂ t, [.write [1, 2], .open, .read 1] = es₁ ++ es₂ →
        run useBelow ⟨⟨MDBG_RING_MIN_SIZE, 0, 0, fun _ => 0⟩, 0, 0⟩ es₁ = .ok t →
        Accounted t) := by
  have halloc : mdbgRingAlloc MDBG_RING_MIN_SIZE = some _ := rfl
  exact (ring_accounted_iff halloc _).mpr (by decide)

/-- A ring without a reader that is filled up to its last position and then by one more byte. -/
theorem full_ring_seen_empty :
    ¬ ∀ es₁ es₂ t, [.write (List.replicate 4095 0), .write [0]] = es₁ ++ es₂ →
      run useBelow ⟨⟨MDBG_RING_MIN_SIZE, 0, 0, fun _ => 0⟩, 0, 0⟩ es₁ = .ok t → Accounted t := by
  intro h
  have hinit : Accounted ⟨⟨MDBG_RING_MIN_SIZE, 0, 0, fun _ => 0⟩, 0, 0⟩ :=
    .alloc (show mdbgRingAlloc MDBG_RING_MIN_SIZE = some _ from rfl)
  have hlen : (List.replicate 4095 (0 : Byte)).length = 4095 := List.length_replicate
  have hfirst := closed_write hinit.inBuffer rfl (List.ne_nil_of_length_pos (by rw [hlen]; decide))
    (show (List.replicate 4095 (0 : Byte)).length < MDBG_RING_MIN_SIZE by rw [hlen]; decide)
  rw [List.length_replicate] at hfirst
  have hacc := h [_] [_] _ rfl (run_cons_ok hfirst [])
  have hsecond := closed_write hacc.inBuffer rfl (List.cons_ne_nil 0 []) (show 1 < 4096 by decide)
  have hfull := h [_, _] [] _ rfl (by rw [run_cons_ok hfirst, run_cons_ok hsecond, run_nil])
  have hlt := hfull.inBuffer.count_lt
  rw [← hfull.live_eq] at hlt
  exact absurd hlt (by decide)

end Uwe5631.Mdbg
