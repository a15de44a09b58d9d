import Uwe5631.SitmBounds
import Mathlib

/-!
# The framing of the vendor library

`parse_frame` of the vendor library takes what it parses from a descriptor. A read may bring less than
was asked for, or nothing. Between two bytes of a body it is the parser of the driver, without padding.
-/
namespace Uwe5631.VendorSitm
open Sitm IncrementalFraming FallibleRuns

/-- `HCI_HAL_SERIAL_BUFFER_SIZE + BYTE_ALIGNMENT`, with the alignment of the configuration -/
abbrev BUFFER_SIZE : ℕ := 1026

/-- What `read` does: it returns -1, or brings so many bytes at most of those there are and were asked
for. -/
inductive ReadResult where
  | error
  | bytes (n : ℕ)
  deriving DecidableEq, Repr

/-- `data_ready`, from what the descriptor has -/
def dataReady (stream : List Byte) (count : ℕ) : ReadResult → Option (List Byte)
  | .error => none
  | .bytes n => some (stream.take (min n count))

/-- The results of the reads of a turn of the loop: of one byte, and of the rest of a body. -/
structure Turn where
  first : ReadResult
  rest : ReadResult
  deriving DecidableEq, Repr

/-- The parser, with what the descriptor has as its fifo, and the frames it has handed down. -/
structure Parser where
  rd : PacketReceiveData
  handed : List (List Byte)

/-- `receive_data->buffer[receive_data->index] = byte` and the counters -/
def storeByte (rd : PacketReceiveData) (byte : Byte) : Except Fault PacketReceiveData :=
  if rd.index + 1 ≤ BUFFER_SIZE then
    .ok { rd with
      buffer := store rd.buffer rd.index [byte]
      index := rd.index + 1
      bytesRemaining := rd.bytesRemaining - 1 }
  else .error .outOfBounds

/-- The read of the rest of the body. What it returns is counted in 16 bits, -1 too. -/
def readRest (rd : PacketReceiveData) (r : ReadResult) : Except Fault PacketReceiveData :=
  match dataReady rd.fifo rd.bytesRemaining r with
  | some bytes =>
    if rd.index + bytes.length ≤ BUFFER_SIZE then
      .ok { rd with
        fifo := rd.fifo.drop bytes.length
        buffer := store rd.buffer rd.index bytes
        index := rd.index + bytes.length
        bytesRemaining := rd.bytesRemaining - bytes.length }
    else .error .outOfBounds
  | none =>
    .ok { rd with
      index := (rd.index + 65535) % 65536
      bytesRemaining := (rd.bytesRemaining + 1) % 65536 }

/-- `case BODY` -/
def onBody (rd : PacketReceiveData) (byte : Byte) (r : ReadResult) : Except Fault PacketReceiveData :=
  (storeByte rd byte).bind fun rd => (readRest rd r).map fun rd =>
    { rd with state := if rd.bytesRemaining = 0 then .finished else rd.state }

/-- The `switch`; the other cases are those of the driver. -/
def onByte (rd : PacketReceiveData) (byte : Byte) (r : ReadResult) : Except Fault PacketReceiveData :=
  if rd.state = .body then onBody rd byte r else rd.onByte byte

/-- The end of the body of the loop. -/
def finish (handed : List (List Byte)) (rd : PacketReceiveData) : Parser :=
  if rd.state = .finished then
    ⟨{ rd with state := .brandNew }, handed ++ [(List.range rd.index).map rd.buffer]⟩
  else ⟨rd, handed⟩

/-- A turn of the loop, or the end of a call where no byte comes. -/
def step (p : Parser) (t : Turn) : Except Fault Parser :=
  match dataReady p.rd.fifo 1 t.first with
  | some [byte] =>
    (onByte { p.rd with fifo := p.rd.fifo.drop 1 } byte t.rest).map (finish p.handed)
  | _ => .ok p

/-- A call of `parse_frame`, which returns where no byte comes and behind a complete frame. -/
def parseFrame : List Turn → Parser → Except Fault Parser
  | [], p => .ok p
  | t :: ts, p => (step p t).bind fun p' =>
    if p'.rd.fifo = p.rd.fifo ∨ p'.handed ≠ p.handed then .ok p' else parseFrame ts p'

/-- A call is a run of turns. -/
theorem parseFrame_eq_run (ts : List Turn) (p : Parser) :
    ∃ used, used <+: ts ∧ parseFrame ts p = run step p used := by
  induction ts generalizing p with
  | nil => exact ⟨[], List.nil_prefix, rfl⟩
  | cons t ts ih =>
    cases hstep : step p t with
    | error e =>
      refine ⟨[t], ⟨ts, rfl⟩, ?_⟩
      rw [parseFrame, run_cons, hstep]
      rfl
    | ok p' =>
      by_cases hreturns : p'.rd.fifo = p.rd.fifo ∨ p'.handed ≠ p.handed
      · refine ⟨[t], ⟨ts, rfl⟩, ?_⟩
        rw [parseFrame, run_cons, hstep, ok_bind, ok_bind, if_pos hreturns]
        rfl
      · obtain ⟨used, ⟨later, hused⟩, hrun⟩ := ih p'
        refine ⟨t :: used, ⟨later, by rw [List.cons_append, hused]⟩, ?_⟩
        rw [parseFrame, run_cons, hstep, ok_bind, ok_bind, if_neg hreturns, hrun]

/-- The parser before a stream. -/
def start (stream : List Byte) : Parser := ⟨{ sitmInit with fifo := stream }, []⟩

/-! ## What a turn should do -/

/-- A turn stores inside the buffer, leaves the parser as it is where a read brings nothing, keeps
what is stored and what remains of a body together the same, and has handed down the packets of the
bytes that were read. -/
structure Sound (stream : List Byte) (p : Parser) (t : Turn) : Prop where
  inside : ∃ p', step p t = .ok p'
  idle : (t.first = .error ∨ t.first = .bytes 0) → step p t = .ok p
  rest : ∀ byte later rd, p.rd.state = .body → p.rd.fifo = byte :: later →
    storeByte { p.rd with fifo := later } byte = .ok rd →
    dataReady p.rd.fifo 1 t.first = some [byte] →
    (t.rest = .error ∨ t.rest = .bytes 0) → readRest rd t.rest = .ok rd
  sum : p.rd.state = .body → ∀ p', step p t = .ok p' →
    p'.rd.index + p'.rd.bytesRemaining = p.rd.index + p.rd.bytesRemaining
  frames : ∀ p', step p t = .ok p' → ∀ taken, stream = taken ++ p'.rd.fifo →
    p'.handed = (h4.feed [] taken).2

/-- The turn does not take a byte of a body, or the read behind it does not return -1 and what comes
fits into the buffer. -/
def Untroubled (p : Parser) (t : Turn) : Prop :=
  p.rd.state = .body → ∀ byte later, p.rd.fifo = byte :: later →
    dataReady p.rd.fifo 1 t.first = some [byte] →
      ∃ n, t.rest = .bytes n ∧
        p.rd.index + 1 + (later.take (min n (p.rd.bytesRemaining - 1))).length ≤ BUFFER_SIZE

/-- The parser is in the packet that the bytes read so far end in. -/
structure Tracks (stream : List Byte) (p : Parser) : Prop where
  intro ::
  taken : ∃ taken acc, stream = taken ++ p.rd.fifo ∧ h4.feed [] taken = (acc, p.handed) ∧
    Receiving acc p.rd

theorem tracks_start (stream : List Byte) : Tracks stream (start stream) :=
  ⟨[], [], rfl, rfl, .idle rfl⟩

variable {stream acc : List Byte} {rd : PacketReceiveData} {p : Parser} {t : Turn}

theorem Tracks.handed (h : Tracks stream p) {taken : List Byte} (htaken : stream = taken ++ p.rd.fifo) :
    p.handed = (h4.feed [] taken).2 := by
  obtain ⟨taken', acc, htaken', hfeed, -⟩ := h.taken
  have hsame : taken' = taken := List.append_cancel_right (htaken'.symm.trans htaken)
  rw [← hsame, hfeed]

/-- A byte of a body, with the bytes of its rest that come with it. -/
theorem onBody_ok (h : InBody acc rd) (byte : Byte) (n : ℕ) {xs : List Byte}
    (hxs : xs = rd.fifo.take (min n (rd.bytesRemaining - 1)))
    (hfit : rd.index + 1 + xs.length ≤ BUFFER_SIZE) :
    ∃ rd', onBody rd byte (.bytes n) = .ok rd' ∧ rd.fifo = xs ++ rd'.fifo ∧
      rd'.index + rd'.bytesRemaining = rd.index + rd.bytesRemaining ∧
      (InBody (acc ++ byte :: xs) rd' ∨ Complete (acc ++ byte :: xs) rd') := by
  have hpos := h.pos
  have hindex := h.index
  have htaken : xs.length ≤ rd.bytesRemaining - 1 :=
    hxs ▸ (List.length_take_le _ _).trans (Nat.min_le_right _ _)
  have hassoc : acc ++ [byte] ++ xs = acc ++ byte :: xs := by simp
  have hlen : (acc ++ byte :: xs).length = rd.index + 1 + xs.length := by
    rw [List.length_append, List.length_cons, hindex]
    omega
  have hhead : (acc ++ byte :: xs).head? = some rd.type := by
    rw [List.head?_append, h.head]
    rfl
  have hlength : packetLength (acc ++ byte :: xs) = some (rd.index + rd.bytesRemaining) :=
    hindex ▸ h4.stable _ _ _ h.length
  have hfirst : (acc ++ [byte]).length = rd.index + 1 := by
    rw [List.length_append, List.length_singleton, hindex]
  have hwritten : Written (store (store rd.buffer rd.index [byte]) (rd.index + 1) xs)
      (acc ++ byte :: xs) := by
    have hstored := (h.written.store [byte]).store xs
    rw [hfirst, hassoc, ← hindex] at hstored
    exact hstored
  have hdrop : xs ++ rd.fifo.drop xs.length = rd.fifo := by
    have hprefix : xs <+: rd.fifo := hxs ▸ List.take_prefix _ _
    obtain ⟨later, hlater⟩ := hprefix
    rw [← hlater, List.drop_left]
  rw [onBody, storeByte, if_pos (by omega), ok_bind, readRest]
  dsimp only [dataReady]
  rw [← hxs, if_pos hfit, ok_map]
  refine ⟨_, rfl, hdrop.symm, ?_, ?_⟩
  · dsimp only
    omega
  · by_cases hlast : rd.bytesRemaining - 1 - xs.length = 0
    · refine .inr ⟨if_pos hlast, h.starts, hhead, hlen.symm, ?_, hwritten⟩
      rw [hlength, hlen]
      exact congrArg some (by omega)
    · refine .inl ⟨(if_neg hlast).trans h.state, h.starts, hhead, hlen.symm, ?_,
        Nat.pos_of_ne_zero hlast, hwritten⟩
      rw [hlength, hlen]
      exact congrArg some (by dsimp only; omega)

/-- What a byte is, when the read of one brings it. -/
theorem dataReady_one {fifo : List Byte} {r : ReadResult} {byte : Byte}
    (h : dataReady fifo 1 r = some [byte]) : ∃ later, fifo = byte :: later := by
  cases r with
  | error => cases h
  | bytes n =>
    have htake := Option.some.inj h
    cases fifo with
    | nil =>
      rw [List.take_nil] at htake
      cases htake
    | cons b later =>
      have hone : min n 1 = 1 := by
        by_contra hzero
        rw [show min n 1 = 0 by omega] at htake
        cases htake
      rw [hone] at htake
      cases htake
      exact ⟨later, rfl⟩

/-- Where the read of one byte brings none, the call ends. -/
theorem step_idle (h : ∀ byte, dataReady p.rd.fifo 1 t.first ≠ some [byte]) : step p t = .ok p := by
  rw [step]
  split
  · rename_i byte hbyte
    exact absurd hbyte (h byte)
  · rfl

theorem step_byte {byte : Byte} {later : List Byte} (hfifo : p.rd.fifo = byte :: later)
    (h : dataReady p.rd.fifo 1 t.first = some [byte]) :
    step p t = (onByte { p.rd with fifo := later } byte t.rest).map (finish p.handed) := by
  rw [step, h]
  dsimp only
  rw [hfifo]
  rfl

/-- What the grammar says of the bytes of a turn. -/
theorem tracks_finish {taken xs : List Byte} {byte : Byte} {rd' : PacketReceiveData}
    {handed : List (List Byte)} (hstream : stream = taken ++ byte :: (xs ++ rd'.fifo))
    (hfeed : h4.feed [] taken = (acc, handed))
    (hnext : InHeader (acc ++ byte :: xs) rd' ∨ InBody (acc ++ byte :: xs) rd' ∨
      Complete (acc ++ byte :: xs) rd') : Tracks stream (finish handed rd') := by
  have hsplit : stream = (taken ++ byte :: xs) ++ rd'.fifo := by rw [hstream]; simp
  have hall (r : List Byte × List (List Byte)) (h : h4.feed acc (byte :: xs) = r) :
      h4.feed [] (taken ++ byte :: xs) = (r.1, handed ++ r.2) := by rw [feed_append, hfeed, h]
  rcases hnext with hheader | hbody | hcomplete
  · have hmore := feed_short (begun hheader.head hheader.starts)
      fun n hn => absurd (hheader.short.symm.trans hn) (Option.some_ne_none n).symm
    rw [finish, if_neg (by rw [hheader.state]; decide)]
    exact ⟨_, _, hsplit, by rw [hall _ hmore, List.append_nil], .header hheader⟩
  · have hpos := hbody.pos
    have hmore := feed_short (begun hbody.head hbody.starts) fun n hn => by
      have hsum := Option.some.inj (hbody.length.symm.trans hn)
      omega
    rw [finish, if_neg (by rw [hbody.state]; decide)]
    exact ⟨_, _, hsplit, by rw [hall _ hmore, List.append_nil], .body hbody⟩
  · have hmore := feed_frame (begun hcomplete.head hcomplete.starts) (List.cons_ne_nil _ _)
      hcomplete.length
    rw [finish, if_pos hcomplete.state, hcomplete.index, hcomplete.written.range]
    exact ⟨_, [], hsplit, hall _ hmore, .idle rfl⟩

/-- An untroubled turn goes through and keeps track. -/
theorem Tracks.step (h : Tracks stream p) (ht : Untroubled p t) :
    ∃ p', VendorSitm.step p t = .ok p' ∧ Tracks stream p' ∧
      (p.rd.state = .body → p'.rd.index + p'.rd.bytesRemaining = p.rd.index + p.rd.bytesRemaining) := by
  by_cases hread : ∃ byte, dataReady p.rd.fifo 1 t.first = some [byte]
  · obtain ⟨byte, hread⟩ := hread
    obtain ⟨later, hfifo⟩ := dataReady_one hread
    obtain ⟨taken, acc, hstream, hfeed, hreceiving⟩ := h.taken
    rw [step_byte hfifo hread]
    have hindex : ∀ rd' : PacketReceiveData, (finish p.handed rd').rd.index = rd'.index ∧
        (finish p.handed rd').rd.bytesRemaining = rd'.bytesRemaining := by
      intro rd'
      rw [finish]
      split <;> exact ⟨rfl, rfl⟩
    by_cases hbody : p.rd.state = .body
    · obtain ⟨n, hn, hfit⟩ := ht hbody byte later hfifo hread
      have hin : InBody acc { p.rd with fifo := later } := by
        cases hreceiving with
        | idle hstate =>
          rw [hbody] at hstate
          cases hstate
        | header hheader =>
          rw [hheader.state] at hbody
          cases hbody
        | body h => exact ⟨h.state, h.starts, h.head, h.index, h.length, h.pos, h.written⟩
      obtain ⟨rd', hrun, hrest, hsum, hnext⟩ := onBody_ok hin byte n rfl hfit
      have hrest : later = _ ++ rd'.fifo := hrest
      refine ⟨finish p.handed rd', ?_, ?_, fun _ => ?_⟩
      · rw [onByte, if_pos hbody, hn, hrun]
        rfl
      · refine tracks_finish ?_ hfeed (.inr hnext)
        rw [hstream, hfifo, ← hrest]
      · rw [(hindex rd').1, (hindex rd').2]
        exact hsum
    · have hnone : ∀ n, packetLength acc = some n → n ≤ HCI_HAL_SERIAL_BUFFER_SIZE := by
        intro n hn
        cases hreceiving with
        | idle => cases hn
        | header hheader =>
          rw [hheader.short] at hn
          cases hn
        | body h => exact absurd h.state hbody
      obtain ⟨rd', xs, hrun, hrest, -, hskip | hnext⟩ :=
        (hreceiving.withFifo later).onByte hnone byte
      · obtain ⟨rfl, hunknown, rfl, hstate⟩ := hskip
        have hrest : later = rd'.fifo := hrest
        refine ⟨finish p.handed rd', ?_, ?_, fun hb => absurd hb hbody⟩
        · rw [onByte, if_neg hbody, hrun]
          rfl
        · rw [finish, if_neg (by rw [hstate]; decide)]
          refine ⟨taken ++ [byte], [], ?_, ?_, .idle hstate⟩
          · rw [hstream, hfifo, hrest, List.append_assoc]
            rfl
          · rw [feed_append, hfeed, Framing.feed, advance_skip hunknown]
            simp [Framing.feed]
      · have hrest : later = xs ++ rd'.fifo := hrest
        refine ⟨finish p.handed rd', ?_, ?_, fun hb => absurd hb hbody⟩
        · rw [onByte, if_neg hbody, hrun]
          rfl
        · refine tracks_finish ?_ hfeed hnext
          rw [hstream, hfifo, hrest]
  · rw [step_idle fun byte hbyte => hread ⟨byte, hbyte⟩]
    exact ⟨p, rfl, h, fun _ => rfl⟩

theorem store_nil (array : ℕ → Byte) (i : ℕ) : store array i [] = array := by
  funext j
  rw [store, if_neg]
  rw [List.length_nil]
  omega

/-- A read of the rest that brings nothing leaves the parser as it is. -/
theorem readRest_zero (h : rd.index ≤ BUFFER_SIZE) : readRest rd (.bytes 0) = .ok rd := by
  rw [readRest]
  simp only [dataReady, Nat.zero_min, List.take_zero, List.length_nil, Nat.add_zero, List.drop_zero,
    store_nil, Nat.sub_zero]
  exact if_pos h

/-- One that returns -1 moves the index back. -/
theorem readRest_error_ne : readRest rd .error ≠ .ok rd := by
  intro h
  rw [readRest] at h
  simp only [dataReady, Except.ok.injEq] at h
  have hindex := congrArg PacketReceiveData.index h
  dsimp only at hindex
  omega

theorem Sound.untroubled (h : Sound stream p t) : Untroubled p t := by
  intro hbody byte later hfifo hread
  obtain ⟨p', hstep⟩ := h.inside
  rw [step_byte hfifo hread, onByte, if_pos hbody] at hstep
  obtain ⟨rd', hrun, -⟩ := map_eq_ok.mp hstep
  obtain ⟨rd, hstored, hrest⟩ := bind_eq_ok.mp hrun
  obtain ⟨rd'', hrest, -⟩ := map_eq_ok.mp hrest
  have hsame := h.rest byte later rd hbody hfifo hstored hread
  cases hr : t.rest with
  | error =>
    rw [hr] at hsame
    exact absurd (hsame (.inl rfl)) readRest_error_ne
  | bytes n =>
    refine ⟨n, rfl, ?_⟩
    rw [hr, readRest] at hrest
    rw [storeByte] at hstored
    split at hstored
    · cases hstored
      dsimp only [dataReady] at hrest
      split at hrest
      · rename_i hfit
        exact hfit
      · cases hrest
    · cases hstored

theorem Tracks.sound_iff (h : Tracks stream p) : Sound stream p t ↔ Untroubled p t := by
  refine ⟨Sound.untroubled, fun ht => ?_⟩
  obtain ⟨p', hstep, htracks, hsum⟩ := h.step ht
  refine ⟨⟨p', hstep⟩, ?_, ?_, ?_, ?_⟩
  · intro hnone
    refine step_idle fun byte hbyte => ?_
    rcases hnone with hnone | hnone
    · rw [hnone] at hbyte
      cases hbyte
    · rw [hnone] at hbyte
      cases hbyte
  · intro byte later rd hbody hfifo hstored hread hnone
    obtain ⟨n, hn, -⟩ := ht hbody byte later hfifo hread
    rcases hnone with hnone | hnone
    · rw [hn] at hnone
      cases hnone
    · rw [hnone]
      rw [storeByte] at hstored
      split at hstored
      · rename_i hroom
        cases hstored
        exact readRest_zero hroom
      · cases hstored
  · intro hbody q hq
    rw [hstep] at hq
    cases hq
    exact hsum hbody
  · intro q hq taken htaken
    rw [hstep] at hq
    cases hq
    exact htracks.handed htaken

/-- The parser frames a stream under short reads if and only if no read for the rest of a body returns
-1 and the bodies fit into the buffer. -/
theorem sound_along_iff (stream : List Byte) (turns : List Turn) :
    Along step (Sound stream) (start stream) turns ↔ Along step Untroubled (start stream) turns := by
  refine along_congr (I := Tracks stream) (fun p t h => h.sound_iff) (fun p t p' h ht hstep => ?_)
    (tracks_start stream)
  obtain ⟨q, hq, htracks, -⟩ := h.step ht
  rw [hstep] at hq
  cases hq
  exact htracks

/-- Once all of the stream is read, its packets have been handed down. -/
theorem handed_of_read {turns : List Turn} (h : Along step Untroubled (start stream) turns)
    (hrun : run step (start stream) turns = .ok p) (hend : p.rd.fifo = []) :
    p.handed = h4.frames stream := by
  have htracks : Tracks stream p := by
    refine run_invariant (I := Tracks stream) (fun p t p' h ht hstep => ?_) (tracks_start stream) h hrun
    obtain ⟨q, hq, htracks, -⟩ := h.step ht
    rw [hstep] at hq
    cases hq
    exact htracks
  rw [htracks.handed (show stream = stream ++ p.rd.fifo by rw [hend, List.append_nil]),
    feed_eq_frames]

/-- Single bytes of the header of an event, and of its body one byte, behind which a read returns -1:
the next byte is stored over it. -/
theorem failed_read_loses_byte :
    ¬ Along step (Sound [4, 14, 2, 7, 8]) (start [4, 14, 2, 7, 8])
      [⟨.bytes 1, .error⟩, ⟨.bytes 1, .error⟩, ⟨.bytes 1, .error⟩, ⟨.bytes 1, .error⟩] := by
  intro h
  have hbody := h.2 _ rfl |>.2 _ rfl |>.2 _ rfl
  obtain ⟨n, hn, -⟩ := hbody.1.untroubled rfl 7 [8] rfl rfl
  cases hn

end Uwe5631.VendorSitm
