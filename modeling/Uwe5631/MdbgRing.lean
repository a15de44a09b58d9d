import Uwe5631.RingBuffer
import Uwe5631.FallibleRuns
import Mathlib

/-!
# The log ring

`mdbg_ring_write`, `mdbg_ring_read` and `mdbg_ring_write_ext` of the ring buffer in which the log of
the firmware waits for its reader. Pointers are offsets into the buffer.
-/
namespace Uwe5631.Mdbg
open FallibleRuns RingBuffer

abbrev Byte := BitVec 8

abbrev MDBG_RING_MIN_SIZE : ℕ := 1024 * 4
abbrev MDBG_ERR_BAD_PARAM : ℤ := 3

/-- `struct mdbg_ring_t`, with the memory at `pbuff`. -/
structure MdbgRing where
  size : ℕ
  rp : ℕ
  wp : ℕ
  pbuff : ℕ → Byte

inductive Fault where
  /-- a copy beyond the end of the buffer -/
  | overrun
  deriving DecidableEq, Repr

/-- `end`, the last position. -/
def MdbgRing.end (ring : MdbgRing) : ℕ := ring.size - 1

/-- `mdbg_ring_free_space` -/
def mdbgRingFreeSpace (ring : MdbgRing) : ℤ :=
  if ring.rp ≤ ring.wp then (ring.size : ℤ) - ring.wp + ring.rp else (ring.rp : ℤ) - ring.wp

/-- `mdbg_ring_readable_len` -/
def mdbgRingReadableLen (ring : MdbgRing) : ℤ := ring.size - mdbgRingFreeSpace ring

/-- `mdbg_ring_will_full` -/
def mdbgRingWillFull (ring : MdbgRing) (len : ℕ) : Bool := mdbgRingFreeSpace ring < len

/-- `MDBG_RING_R` and `MDBG_RING_W` -/
inductive Side where
  | r
  | w
  deriving DecidableEq, Repr

/-- `mdbg_ring_over_loop` -/
def mdbgRingOverLoop (ring : MdbgRing) (len : ℕ) : Side → Bool
  | .r => ring.end < ring.rp + len
  | .w => ring.end < ring.wp + len

/-- `memcpy` to a position of the buffer. -/
def MdbgRing.memcpyTo (ring : MdbgRing) (off : ℕ) (data : List Byte) : Except Fault MdbgRing :=
  if off + data.length ≤ ring.size then .ok { ring with pbuff := store ring.pbuff off data }
  else .error .overrun

/-- `memcpy` from a position of the buffer. -/
def MdbgRing.memcpyFrom (ring : MdbgRing) (off n : ℕ) : Except Fault (List Byte) :=
  if off + n ≤ ring.size then .ok (load ring.pbuff off n) else .error .overrun

/-- `mdbg_ring_alloc` -/
def mdbgRingAlloc (size : ℕ) : Option MdbgRing :=
  if size < MDBG_RING_MIN_SIZE then none else some ⟨size, 0, 0, fun _ => 0⟩

/-- `mdbg_ring_read`: what it returns, and the bytes copied to the reader. -/
def mdbgRingRead (ring : MdbgRing) (len : ℕ) : Except Fault (ℤ × List Byte × MdbgRing) :=
  if len = 0 then .ok (-MDBG_ERR_BAD_PARAM, [], ring)
  else
    let contLen := (mdbgRingReadableLen ring).toNat
    let readLen := if contLen ≥ len then len else contLen
    if readLen = 0 ∨ contLen = 0 then .ok (0, [], ring)
    else if mdbgRingOverLoop ring readLen .r then
      let len1 := ring.end + 1 - ring.rp
      let len2 := readLen - len1
      (ring.memcpyFrom ring.rp len1).bind fun first =>
        (ring.memcpyFrom 0 len2).map fun second =>
          (readLen, first ++ second, { ring with rp := len2 })
    else
      (ring.memcpyFrom ring.rp readLen).map fun bytes =>
        (readLen, bytes, { ring with rp := ring.rp + readLen })

/-- `mdbg_ring_write`, given whether `mdbg_dev->open_count` is not 0. -/
def mdbgRingWrite (opened : Bool) (ring : MdbgRing) (buf : List Byte) : Except Fault (ℤ × MdbgRing) :=
  let len := buf.length
  if len = 0 then .ok (-MDBG_ERR_BAD_PARAM, ring)
  else if mdbgRingFreeSpace ring - 1 < len ∧ opened then .ok (len, ring)
  else if mdbgRingOverLoop ring len .w then
    let len1 := ring.end + 1 - ring.wp
    let len2 := (len - len1) % ring.size
    (ring.memcpyTo ring.wp (buf.take len1)).bind fun ring =>
      (ring.memcpyTo 0 ((buf.drop len1).take len2)).map fun ring => (len, { ring with wp := len2 })
  else
    (ring.memcpyTo ring.wp buf).map fun ring => (len, { ring with wp := ring.wp + len })

/-- `mdbg_ring_write_ext`: where the caller may write, and the ring. -/
def mdbgRingWriteExt (ring : MdbgRing) (len : ℕ) : Option ℕ × MdbgRing :=
  if len = 0 then (none, ring)
  else if mdbgRingOverLoop ring len .r ∨ mdbgRingWillFull ring len then (none, ring)
  else (some ring.wp, { ring with wp := ring.wp + len })

/-! ## The functions on a ring -/

/-- Both pointers are in the buffer. -/
structure InBuffer (ring : MdbgRing) : Prop where
  rp : ring.rp < ring.size
  wp : ring.wp < ring.size

/-- What can be read. -/
def MdbgRing.bytes (ring : MdbgRing) : List Byte := contents ring.pbuff ring.size ring.rp ring.wp

def MdbgRing.count (ring : MdbgRing) : ℕ := ahead ring.size ring.rp ring.wp

variable {ring : MdbgRing} {buf : List Byte} {len : ℕ}

theorem bytes_length (ring : MdbgRing) : ring.bytes.length = ring.count := contents_length ..

theorem InBuffer.count_lt (h : InBuffer ring) : ring.count < ring.size := ahead_lt h.rp h.wp

theorem freeSpace_eq (h : InBuffer ring) :
    mdbgRingFreeSpace ring = (ring.size : ℤ) - ring.count := by
  have := h.rp
  have := h.wp
  rw [mdbgRingFreeSpace, MdbgRing.count, ahead]
  split <;> omega

theorem readableLen_eq (h : InBuffer ring) : mdbgRingReadableLen ring = ring.count := by
  rw [mdbgRingReadableLen, freeSpace_eq h]
  omega

theorem overLoop_w (h : InBuffer ring) (len : ℕ) :
    mdbgRingOverLoop ring len .w = true ↔ ¬ ring.wp + len < ring.size := by
  have := h.wp
  rw [mdbgRingOverLoop, decide_eq_true_iff, MdbgRing.end]
  omega

theorem overLoop_r (h : InBuffer ring) (len : ℕ) :
    mdbgRingOverLoop ring len .r = true ↔ ¬ ring.rp + len < ring.size := by
  have := h.rp
  rw [mdbgRingOverLoop, decide_eq_true_iff, MdbgRing.end]
  omega

/-- The ring with more bytes. -/
def MdbgRing.put (ring : MdbgRing) (buf : List Byte) : MdbgRing :=
  { ring with
    wp := after ring.size ring.wp buf.length
    pbuff := wrapStore ring.pbuff ring.size ring.wp buf }

/-- The ring without its first bytes. -/
def MdbgRing.drop (ring : MdbgRing) (n : ℕ) : MdbgRing :=
  { ring with rp := after ring.size ring.rp n }

theorem InBuffer.put (h : InBuffer ring) (buf : List Byte) : InBuffer (ring.put buf) :=
  ⟨h.rp, after_lt (Nat.zero_lt_of_lt h.rp)⟩

theorem InBuffer.drop (h : InBuffer ring) (n : ℕ) : InBuffer (ring.drop n) :=
  ⟨after_lt (Nat.zero_lt_of_lt h.rp), h.wp⟩

theorem bytes_put (h : InBuffer ring) (hroom : ring.count + buf.length < ring.size) :
    (ring.put buf).bytes = ring.bytes ++ buf := contents_wrapStore h.rp h.wp hroom

theorem bytes_drop (h : InBuffer ring) {n : ℕ} (hn : n ≤ ring.count) :
    ring.bytes = wrapLoad ring.pbuff ring.size ring.rp n ++ (ring.drop n).bytes :=
  contents_wrapLoad ring.pbuff h.rp h.wp hn

/-- A write that is not discarded. -/
theorem write_stores (h : InBuffer ring) {opened : Bool} (hlen : buf.length < ring.size)
    (hbuf : buf ≠ []) (hroom : opened = true → ring.count + buf.length < ring.size) :
    mdbgRingWrite opened ring buf = .ok (buf.length, ring.put buf) := by
  have hwp := h.wp
  have hpos : buf.length ≠ 0 := fun h0 => hbuf (List.length_eq_zero_iff.mp h0)
  have hnot : ¬ (mdbgRingFreeSpace ring - 1 < (buf.length : ℤ) ∧ opened = true) := by
    rintro ⟨hless, hopen⟩
    have := hroom hopen
    rw [freeSpace_eq h] at hless
    omega
  rw [mdbgRingWrite]
  simp only [if_neg hpos, if_neg hnot, overLoop_w h]
  rw [MdbgRing.put, after_eq hwp hlen, wrapStore]
  by_cases hall : ring.wp + buf.length < ring.size
  · rw [if_neg (not_not.mpr hall), if_pos hall, if_pos hall, MdbgRing.memcpyTo,
      if_pos (Nat.le_of_lt hall)]
    rfl
  · have hlen1 : ring.end + 1 - ring.wp = ring.size - ring.wp := by
      rw [MdbgRing.end]
      omega
    have hlen2 : (buf.length - (ring.size - ring.wp)) % ring.size =
        ring.wp + buf.length - ring.size := by
      rw [Nat.mod_eq_of_lt (by omega)]
      omega
    have hrest : (buf.drop (ring.size - ring.wp)).take (ring.wp + buf.length - ring.size) =
        buf.drop (ring.size - ring.wp) := by
      apply List.take_of_length_le
      rw [List.length_drop]
      omega
    have hfirst : ring.wp + (buf.take (ring.size - ring.wp)).length ≤ ring.size := by
      rw [List.length_take]
      omega
    have hsecond : 0 + (buf.drop (ring.size - ring.wp)).length ≤ ring.size := by
      rw [List.length_drop]
      omega
    rw [if_pos hall, if_neg hall, if_neg hall, hlen1, hlen2, hrest, MdbgRing.memcpyTo, if_pos hfirst,
      ok_bind, MdbgRing.memcpyTo, if_pos hsecond]
    rfl

/-- A write that an opened ring has no room for. -/
theorem write_discards (h : InBuffer ring) (hbuf : buf ≠ [])
    (hroom : ring.size ≤ ring.count + buf.length) :
    mdbgRingWrite true ring buf = .ok (buf.length, ring) := by
  have hpos : buf.length ≠ 0 := fun h0 => hbuf (List.length_eq_zero_iff.mp h0)
  have hless : mdbgRingFreeSpace ring - 1 < (buf.length : ℤ) := by
    rw [freeSpace_eq h]
    omega
  rw [mdbgRingWrite]
  simp only [if_neg hpos]
  exact if_pos ⟨hless, trivial⟩

/-- A read takes as much as there is. -/
theorem read_loads (h : InBuffer ring) (len : ℕ) :
    mdbgRingRead ring len = .ok (if len = 0 then -MDBG_ERR_BAD_PARAM else (min len ring.count : ℕ),
      wrapLoad ring.pbuff ring.size ring.rp (min len ring.count), ring.drop (min len ring.count)) := by
  have hrp := h.rp
  have hlt := h.count_lt
  have hread : (if ring.count ≥ len then len else ring.count) = min len ring.count := rfl
  rw [mdbgRingRead, MdbgRing.drop]
  by_cases hlen : len = 0
  · rw [if_pos hlen, if_pos hlen, hlen, Nat.zero_min, after_zero hrp, wrapLoad_eq _ hrp (by omega)]
    rfl
  · rw [if_neg hlen, if_neg hlen]
    simp only [readableLen_eq h, Int.toNat_natCast, hread, overLoop_r h]
    by_cases hempty : min len ring.count = 0 ∨ ring.count = 0
    · have hzero : min len ring.count = 0 := by omega
      rw [if_pos hempty, hzero, after_zero hrp, wrapLoad_eq _ hrp (by omega)]
      rfl
    · rw [if_neg hempty, after_eq hrp (by omega), wrapLoad]
      by_cases hall : ring.rp + min len ring.count < ring.size
      · rw [if_neg (not_not.mpr hall), if_pos hall, if_pos hall, MdbgRing.memcpyFrom,
          if_pos (Nat.le_of_lt hall)]
        rfl
      · have hlen1 : ring.end + 1 - ring.rp = ring.size - ring.rp := by
          rw [MdbgRing.end]
          omega
        have hlen2 : min len ring.count - (ring.size - ring.rp) =
            ring.rp + min len ring.count - ring.size := by omega
        rw [if_pos hall, if_neg hall, if_neg hall, hlen1, hlen2, MdbgRing.memcpyFrom,
          if_pos (by omega), ok_bind, MdbgRing.memcpyFrom, if_pos (by omega)]
        rfl


/-! ## An opened ring -/

inductive Call where
  | write (buf : List Byte)
  | read (len : ℕ)
  deriving DecidableEq, Repr

/-- The ring, the writes that were not discarded and what the reads gave. -/
structure Served where
  ring : MdbgRing
  accepted : List (List Byte)
  returned : List (List Byte)

/-- A write of some bytes that leaves one position free. -/
def Fits (ring : MdbgRing) (buf : List Byte) : Prop := (buf.length : ℤ) ≤ mdbgRingFreeSpace ring - 1

instance (ring : MdbgRing) (buf : List Byte) : Decidable (Fits ring buf) :=
  inferInstanceAs (Decidable (_ ≤ _))

/-- A call while a reader has the ring open. -/
def serve (s : Served) : Call → Except Fault Served
  | .write buf => (mdbgRingWrite true s.ring buf).map fun r =>
    { s with
      ring := r.2
      accepted := if Fits s.ring buf then s.accepted ++ [buf] else s.accepted }
  | .read len => (mdbgRingRead s.ring len).map fun r =>
    { s with ring := r.2.2, returned := s.returned ++ [r.2.1] }

/-- How many bytes have been accepted and not been returned. -/
def Served.available (s : Served) : ℕ := s.accepted.flatten.length - s.returned.flatten.length

/-- A write is accepted whole or leaves the ring as it is; a read returns as many bytes as are asked
for and available. -/
def Answered (s s' : Served) : Call → Prop
  | .write buf =>
    if s.available + buf.length < s.ring.size then s'.accepted = s.accepted ++ [buf]
    else s'.accepted = s.accepted ∧ s'.ring = s.ring
  | .read len => ∃ bytes, s'.returned = s.returned ++ [bytes] ∧
    bytes.length = min len s.available ∧
    mdbgRingRead s.ring len =
      .ok (if len = 0 then -MDBG_ERR_BAD_PARAM else (min len s.available : ℕ), bytes, s'.ring)

/-- What has been accepted is what has been returned and what is still in the ring. -/
structure Queued (size : ℕ) (s : Served) : Prop where
  size : s.ring.size = size
  inBuffer : InBuffer s.ring
  bytes : s.accepted.flatten = s.returned.flatten ++ s.ring.bytes

variable {s : Served} {size : ℕ}

theorem Queued.available (h : Queued size s) : s.available = s.ring.count := by
  rw [Served.available, h.bytes, List.length_append, bytes_length, Nat.add_sub_cancel_left]

theorem Queued.fits_iff (h : Queued size s) (buf : List Byte) :
    Fits s.ring buf ↔ s.ring.count + buf.length < s.ring.size := by
  have := h.inBuffer.count_lt
  rw [Fits, freeSpace_eq h.inBuffer]
  omega

theorem Queued.write (h : Queued size s) (buf : List Byte) :
    ∃ s', serve s (.write buf) = .ok s' ∧ Queued size s' ∧ Answered s s' (.write buf) := by
  by_cases hroom : s.ring.count + buf.length < s.ring.size
  · have hfits := (h.fits_iff buf).mpr hroom
    have haccepted (ring : MdbgRing) :
        Answered s { s with ring := ring, accepted := s.accepted ++ [buf] } (.write buf) := by
      rw [Answered, h.available, if_pos hroom]
    by_cases hbuf : buf = []
    · refine ⟨{ s with accepted := s.accepted ++ [buf] }, ?_, ⟨h.size, h.inBuffer, ?_⟩,
        haccepted s.ring⟩
      · simp [serve, mdbgRingWrite, hbuf ▸ hfits, hbuf]
      · simpa [hbuf] using h.bytes
    · have hstored := write_stores h.inBuffer (by omega) hbuf fun _ : true = true => hroom
      refine ⟨{ s with ring := s.ring.put buf, accepted := s.accepted ++ [buf] }, ?_,
        ⟨h.size, h.inBuffer.put buf, ?_⟩, haccepted _⟩
      · simp only [serve, hstored, if_pos hfits, ok_map]
      · simp only [List.flatten_append, h.bytes, bytes_put h.inBuffer hroom, List.flatten_singleton,
          List.append_assoc]
  · have hbuf : buf ≠ [] := by
      rintro rfl
      exact hroom h.inBuffer.count_lt
    have hdiscarded := write_discards h.inBuffer hbuf (Nat.not_lt.mp hroom)
    refine ⟨s, ?_, h, ?_⟩
    · simp only [serve, hdiscarded, if_neg (mt (h.fits_iff buf).mp hroom), ok_map]
    · rw [Answered, h.available, if_neg hroom]
      exact ⟨rfl, rfl⟩

theorem Queued.read (h : Queued size s) (len : ℕ) :
    ∃ s', serve s (.read len) = .ok s' ∧ Queued size s' ∧ Answered s s' (.read len) := by
  have hloaded := read_loads h.inBuffer len
  have hle := Nat.min_le_right len s.ring.count
  have hlt := h.inBuffer.count_lt
  let bytes := wrapLoad s.ring.pbuff s.ring.size s.ring.rp (min len s.ring.count)
  refine ⟨{ s with ring := s.ring.drop (min len s.ring.count), returned := s.returned ++ [bytes] },
    ?_, ⟨h.size, h.inBuffer.drop _, ?_⟩, bytes, rfl, ?_, ?_⟩
  · simp only [serve, hloaded, ok_map, bytes]
  · simp only [List.flatten_append, h.bytes, bytes_drop h.inBuffer hle, List.flatten_singleton,
      List.append_assoc, bytes]
  · simp only [bytes, wrapLoad_eq _ h.inBuffer.rp (show min len s.ring.count < s.ring.size by omega),
      List.length_map, List.length_range, h.available]
  · rw [h.available]
    exact hloaded

/-- A ring that is open is a queue of whole writes. -/
theorem opened_ring_is_fifo {ring : MdbgRing} (halloc : mdbgRingAlloc size = some ring)
    (es : List Call) :
    (∃ t, run serve ⟨ring, [], []⟩ es = .ok t ∧
      t.accepted.flatten = t.returned.flatten ++ t.ring.bytes) ∧
    ∀ es₁ e es₂ s, es = es₁ ++ e :: es₂ → run serve ⟨ring, [], []⟩ es₁ = .ok s →
      ∃ s', serve s e = .ok s' ∧ Answered s s' e := by
  rw [mdbgRingAlloc] at halloc
  split at halloc
  · cases halloc
  · rename_i hsize
    cases halloc
    have hpos : 0 < size := by
      rw [MDBG_RING_MIN_SIZE] at hsize
      omega
    have hinit : Queued size ⟨⟨size, 0, 0, fun _ => 0⟩, [], []⟩ :=
      ⟨rfl, ⟨hpos, hpos⟩, (contents_self ..).symm⟩
    have hserve : ∀ s e, Queued size s →
        ∃ s', serve s e = .ok s' ∧ Queued size s' ∧ Answered s s' e := by
      intro s e h
      cases e with
      | write buf => exact h.write buf
      | read len => exact h.read len
    have hkeep : ∀ s e s', Queued size s → serve s e = .ok s' → Queued size s' := by
      intro s e s' h hs
      obtain ⟨t, ht, hqueued, -⟩ := hserve s e h
      rwa [Except.ok.inj (hs.symm.trans ht)]
    constructor
    · have hgoes : ∀ s e, Queued size s → True → ∃ s', serve s e = .ok s' ∧ Queued size s' := by
        intro s e h _
        obtain ⟨s', hs, hqueued, -⟩ := hserve s e h
        exact ⟨s', hs, hqueued⟩
      obtain ⟨t, ht, hqueued⟩ := run_completes hgoes hinit (Along.trivial (fun _ _ => trivial) _ es)
      exact ⟨t, ht, hqueued.bytes⟩
    · intro es₁ e es₂ s _ hs
      obtain ⟨s', hs', -, hanswered⟩ := hserve s e (run_preserves hkeep hinit hs)
      exact ⟨s', hs', hanswered⟩

theorem two_writes_read_back :
    (∃ t, run serve ⟨⟨MDBG_RING_MIN_SIZE, 0, 0, fun _ => 0⟩, [], []⟩
        [.write [1, 2], .write [3], .read 2] = .ok t ∧
      t.accepted.flatten = t.returned.flatten ++ t.ring.bytes) ∧
    ∀ es₁ e es₂ s, [.write [1, 2], .write [3], .read 2] = es₁ ++ e :: es₂ →
      run serve ⟨⟨MDBG_RING_MIN_SIZE, 0, 0, fun _ => 0⟩, [], []⟩ es₁ = .ok s →
      ∃ s', serve s e = .ok s' ∧ Answered s s' e :=
  opened_ring_is_fifo (show mdbgRingAlloc MDBG_RING_MIN_SIZE = some _ from rfl) _

end Uwe5631.Mdbg
