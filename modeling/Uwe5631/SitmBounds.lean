import Uwe5631.SitmFraming
import Mathlib

/-!
# What `parse_frame` stores in the receive buffer

The length of a body is announced by the stream, and padding follows the body of a command and of
data. The buffer holds both for every packet but some of data.
-/
namespace Uwe5631.Sitm
open IncrementalFraming

/-- The longest packet that the buffer holds with its padding. -/
def MAX_PADDED : ℕ := 1027

theorem buffer_size : HCI_HAL_SERIAL_BUFFER_SIZE + BYTE_ALIGNMENT = 1030 := rfl

/-- The packets of a stream so far are no longer than the buffer holds, the last, which is not
complete, without padding. -/
def Fits (r : List Byte × List (List Byte)) : Prop :=
  r.1.length ≤ HCI_HAL_SERIAL_BUFFER_SIZE + BYTE_ALIGNMENT ∧ ∀ p ∈ r.2, p.length ≤ MAX_PADDED

theorem advance_le (acc : List Byte) (a : Byte)
    (hrest : (h4.advance acc a).1.length ≤ HCI_HAL_SERIAL_BUFFER_SIZE + BYTE_ALIGNMENT)
    (hframe : ∀ p ∈ (h4.advance acc a).2.toList, p.length ≤ MAX_PADDED) :
    acc.length ≤ HCI_HAL_SERIAL_BUFFER_SIZE + BYTE_ALIGNMENT := by
  have hmax : MAX_PADDED = 1027 := rfl
  have hsize := buffer_size
  have hlen : (acc ++ [a]).length = acc.length + 1 := by simp
  rw [Framing.advance] at hrest hframe
  split at hrest
  · rename_i hskip
    rw [hskip.1]
    exact Nat.zero_le _
  · rename_i hgo
    rw [if_neg hgo] at hframe
    split at hrest
    · rename_i hlast
      rw [if_pos hlast] at hframe
      have hle := hframe (acc ++ [a]) (by simp)
      omega
    · dsimp only at hrest
      rw [hlen] at hrest
      omega

/-- What fits at the end has fitted all the way. -/
theorem length_le_of_fits {acc xs : List Byte} (h : Fits (h4.feed acc xs)) :
    acc.length ≤ HCI_HAL_SERIAL_BUFFER_SIZE + BYTE_ALIGNMENT := by
  induction xs generalizing acc with
  | nil => exact h.1
  | cons a xs ih =>
    rw [Framing.feed] at h
    have hnext : Fits (h4.feed (h4.advance acc a).1 xs) :=
      ⟨h.1, fun p hp => h.2 p (List.mem_append_right _ hp)⟩
    exact advance_le acc a (ih hnext) fun p hp => h.2 p (List.mem_append_left _ hp)

theorem fits_append_iff {acc xs ys : List Byte} : Fits (h4.feed acc (xs ++ ys)) ↔
    Fits (h4.feed acc xs) ∧ Fits (h4.feed (h4.feed acc xs).1 ys) := by
  rw [feed_append]
  constructor
  · intro h
    have hback : Fits (h4.feed (h4.feed acc xs).1 ys) :=
      ⟨h.1, fun p hp => h.2 p (List.mem_append_right _ hp)⟩
    exact ⟨⟨length_le_of_fits hback, fun p hp => h.2 p (List.mem_append_left _ hp)⟩, hback⟩
  · rintro ⟨hfront, hback⟩
    refine ⟨hback.1, fun p hp => ?_⟩
    rcases List.mem_append.mp hp with hmem | hmem
    · exact hfront.2 p hmem
    · exact hback.2 p hmem

/-- Only data can be longer than 259 bytes. -/
theorem length_padded_le_iff {frame : List Byte} {type : Byte} (hhead : frame.head? = some type)
    (hlength : packetLength frame = some frame.length) :
    (padded frame).length ≤ HCI_HAL_SERIAL_BUFFER_SIZE + BYTE_ALIGNMENT ↔
      frame.length ≤ MAX_PADDED := by
  have hmax : MAX_PADDED = 1027 := rfl
  have hsize := buffer_size
  rw [padded]
  split
  · rw [List.length_append, List.length_replicate]
    omega
  · rename_i hkind
    rw [packetLength_of_head hhead] at hlength
    split at hlength
    · have hsum := Option.some.inj hlength
      have hbounds := headerLength_bounds type
      have htype : type ≠ 2 := fun h => hkind (.inr (h ▸ hhead))
      rw [bodyLength, if_neg htype] at hsum
      have hbyte := (frame.getD (headerLength type - 1) 0).isLt
      omega
    · cases hlength

variable {rd : PacketReceiveData} {acc : List Byte}

/-- A byte of the body that finds no room, or the bytes behind it. -/
theorem InBody.onBody_error (h : InBody acc rd) (byte : Byte) {xs : List Byte}
    (hxs : xs = rd.fifo.take (rd.bytesRemaining - 1))
    (hlong : ¬ (acc ++ byte :: xs).length ≤ HCI_HAL_SERIAL_BUFFER_SIZE + BYTE_ALIGNMENT) :
    rd.onBody byte = .error .outOfBounds := by
  have hlen : (acc ++ byte :: xs).length = acc.length + 1 + xs.length := by
    rw [List.length_append, List.length_cons]
    omega
  rw [PacketReceiveData.onBody, PacketReceiveData.write, h.index]
  split
  · simp only [Except.bind, List.length_singleton]
    rw [← hxs, PacketReceiveData.write, if_neg (by dsimp only; omega)]
    rfl
  · rfl

/-- A complete packet that finds no room for its padding. -/
theorem Complete.finish_error (h : Complete acc rd)
    (hlong : ¬ (padded acc).length ≤ HCI_HAL_SERIAL_BUFFER_SIZE + BYTE_ALIGNMENT)
    (hroom : acc.length ≤ HCI_HAL_SERIAL_BUFFER_SIZE + BYTE_ALIGNMENT) :
    rd.finish = .error .outOfBounds := by
  have hhead (b : Byte) : acc.head? = some b ↔ rd.type = b := by rw [h.head, Option.some_inj]
  rw [padded] at hlong
  rw [PacketReceiveData.finish, if_pos h.state]
  dsimp only
  split at hlong
  · rename_i hkind
    rw [hhead, hhead] at hkind
    have htail : BYTE_ALIGNMENT - (rd.index + BYTE_ALIGNMENT) % BYTE_ALIGNMENT = 4 - acc.length % 4 := by
      rw [h.index, Nat.add_mod_right]
    rw [List.length_append] at hlong
    rw [if_pos (show rd.type = DATA_TYPE_COMMAND ∨ rd.type = DATA_TYPE_ACL from hkind), htail,
      PacketReceiveData.write, h.index, if_neg hlong]
    rfl
  · exact absurd hroom hlong

/-- What has begun a packet goes on with it. -/
theorem begun {byte b : Byte} {xs : List Byte} (hb : (acc ++ byte :: xs).head? = some b)
    (hstarts : h4.starts b = true) :
    acc ≠ [] ∨ ∃ b, (byte :: xs).head? = some b ∧ h4.starts b = true := by
  cases acc with
  | nil => exact .inr ⟨b, hb, hstarts⟩
  | cons => exact .inl (List.cons_ne_nil _ _)

/-- The end of a turn that has completed a packet. -/
theorem Complete.finish_cases (h : Complete acc rd)
    (hroom : acc.length ≤ HCI_HAL_SERIAL_BUFFER_SIZE + BYTE_ALIGNMENT) :
    (acc.length ≤ MAX_PADDED ∧ ∃ rd', rd.finish = .ok ([padded acc], rd') ∧ rd'.state = .brandNew ∧
      rd'.fifo = rd.fifo) ∨ (¬ acc.length ≤ MAX_PADDED ∧ rd.finish = .error .outOfBounds) := by
  have hiff := length_padded_le_iff h.head h.length
  by_cases hle : acc.length ≤ MAX_PADDED
  · exact .inl ⟨hle, h.finish (hiff.mpr hle)⟩
  · exact .inr ⟨hle, h.finish_error (mt hiff.mp hle) hroom⟩

/-- A turn that stores inside the buffer, with the bytes it takes. -/
structure TurnInside (acc : List Byte) (rd : PacketReceiveData) (byte : Byte) (xs : List Byte)
    (rd' : PacketReceiveData) : Prop where
  run : ((rd.onByte byte).bind PacketReceiveData.finish) =
    .ok ((h4.feed acc (byte :: xs)).2.map padded, rd')
  fifo : rd.fifo = xs ++ rd'.fifo
  receiving : Receiving (h4.feed acc (byte :: xs)).1 rd'
  fits : Fits (h4.feed acc (byte :: xs))

/-- A turn that stores behind the buffer. -/
structure TurnOutside (acc : List Byte) (rd : PacketReceiveData) (byte : Byte) (xs : List Byte) :
    Prop where
  run : ((rd.onByte byte).bind PacketReceiveData.finish) = .error .outOfBounds
  fifo : xs <+: rd.fifo
  not_fits : ¬ Fits (h4.feed acc (byte :: xs))

/-- The end of a turn whose byte was stored, with what the grammar says of it. -/
theorem turn_of_onByte {rd₁ : PacketReceiveData} {byte : Byte} {xs : List Byte}
    (hrun : rd.onByte byte = .ok rd₁) (hfifo : rd.fifo = xs ++ rd₁.fifo)
    (hroom : (acc ++ byte :: xs).length ≤ HCI_HAL_SERIAL_BUFFER_SIZE + BYTE_ALIGNMENT)
    (hnext : InHeader (acc ++ byte :: xs) rd₁ ∨ InBody (acc ++ byte :: xs) rd₁ ∨
      Complete (acc ++ byte :: xs) rd₁) :
    (∃ rd', TurnInside acc rd byte xs rd') ∨ TurnOutside acc rd byte xs := by
  rcases hnext with hheader | hbody | hcomplete
  · have hfinish : rd₁.finish = .ok ([], rd₁) :=
      PacketReceiveData.finish_eq (by rw [hheader.state]; decide)
    have hfeed := feed_short (begun hheader.head hheader.starts)
      fun n hn => absurd (hheader.short.symm.trans hn) (Option.some_ne_none n).symm
    refine .inl ⟨rd₁, ?_, hfifo, ?_, ?_⟩
    · rw [hrun, hfeed]
      exact hfinish
    · rw [hfeed]
      exact .header hheader
    · rw [hfeed]
      exact ⟨hroom, fun p hp => by cases hp⟩
  · have hfinish : rd₁.finish = .ok ([], rd₁) :=
      PacketReceiveData.finish_eq (by rw [hbody.state]; decide)
    have hpos := hbody.pos
    have hfeed := feed_short (begun hbody.head hbody.starts) fun n hn => by
      have hsum := Option.some.inj (hbody.length.symm.trans hn)
      omega
    refine .inl ⟨rd₁, ?_, hfifo, ?_, ?_⟩
    · rw [hrun, hfeed]
      exact hfinish
    · rw [hfeed]
      exact .body hbody
    · rw [hfeed]
      exact ⟨hroom, fun p hp => by cases hp⟩
  · have hfeed := feed_frame (begun hcomplete.head hcomplete.starts) (List.cons_ne_nil _ _)
      hcomplete.length
    rcases hcomplete.finish_cases hroom with ⟨hle, rd₂, hfinish, hstate, hsame⟩ | ⟨hlong, hfinish⟩
    · refine .inl ⟨rd₂, ?_, hsame ▸ hfifo, ?_, ?_⟩
      · rw [hrun, hfeed]
        exact hfinish
      · rw [hfeed]
        exact .idle hstate
      · rw [hfeed]
        refine ⟨Nat.zero_le _, fun p hp => ?_⟩
        rw [List.mem_singleton.mp hp]
        exact hle
    · refine .inr ⟨?_, ⟨_, hfifo.symm⟩, ?_⟩
      · rw [hrun]
        exact hfinish
      · rw [hfeed]
        exact fun h => hlong (h.2 _ (List.mem_singleton_self _))

/-- A turn of the loop stores inside the buffer or the packet it is in does not fit. -/
theorem Receiving.turn_cases (h : Receiving acc rd) (byte : Byte) :
    ∃ xs, (∃ rd', TurnInside acc rd byte xs rd') ∨ TurnOutside acc rd byte xs := by
  have hsize := buffer_size
  by_cases hbody : InBody acc rd
  · refine ⟨rd.fifo.take (rd.bytesRemaining - 1), ?_⟩
    have hon : rd.onByte byte = rd.onBody byte := by rw [PacketReceiveData.onByte, hbody.state]
    by_cases hroom : (acc ++ byte :: rd.fifo.take (rd.bytesRemaining - 1)).length ≤
        HCI_HAL_SERIAL_BUFFER_SIZE + BYTE_ALIGNMENT
    · obtain ⟨rd₁, hrun, hfifo, hnext⟩ := hbody.onBody byte rfl hroom
      exact turn_of_onByte (hon.trans hrun) hfifo hroom (.inr hnext)
    · refine .inr ⟨?_, List.take_prefix _ _, ?_⟩
      · rw [hon, hbody.onBody_error byte rfl hroom]
        rfl
      · -- the bytes are those of one packet, complete or not
        intro hfits
        have hpos := hbody.pos
        have htaken := List.length_take_le (rd.bytesRemaining - 1) rd.fifo
        have hhead : (acc ++ byte :: rd.fifo.take (rd.bytesRemaining - 1)).head? = some rd.type := by
          rw [List.head?_append, hbody.head]
          rfl
        have hgo := begun hhead hbody.starts
        have hlength := h4.stable _ (byte :: rd.fifo.take (rd.bytesRemaining - 1)) _ hbody.length
        have hlen : (acc ++ byte :: rd.fifo.take (rd.bytesRemaining - 1)).length =
            acc.length + 1 + (rd.fifo.take (rd.bytesRemaining - 1)).length := by
          rw [List.length_append, List.length_cons]
          omega
        rcases Nat.lt_or_ge (acc ++ byte :: rd.fifo.take (rd.bytesRemaining - 1)).length
          (acc.length + rd.bytesRemaining) with hlt | hge
        · rw [feed_short hgo fun n hn => by
            rw [← Option.some.inj (hlength.symm.trans hn)]
            exact hlt] at hfits
          exact hroom hfits.1
        · have hall : acc.length + rd.bytesRemaining =
              (acc ++ byte :: rd.fifo.take (rd.bytesRemaining - 1)).length := by omega
          rw [feed_frame hgo (List.cons_ne_nil _ _) (hlength.trans (congrArg some hall))] at hfits
          have hle := hfits.2 _ (List.mem_singleton_self _)
          have hmax : MAX_PADDED = 1027 := rfl
          omega
  · -- an octet between packets or in a header is the only one taken
    have hnone : ∀ n, packetLength acc = some n → n ≤ HCI_HAL_SERIAL_BUFFER_SIZE := by
      intro n hn
      cases h with
      | idle => cases hn
      | header hheader =>
        rw [hheader.short] at hn
        cases hn
      | body h => exact absurd h hbody
    have hfew : acc.length ≤ 5 := by
      cases h with
      | idle => exact Nat.zero_le _
      | header hheader =>
        have hbounds := headerLength_bounds rd.type
        have hlength := hheader.length
        omega
      | body h => exact absurd h hbody
    obtain ⟨rd₁, xs, hrun, hfifo, hone, ⟨rfl, hunknown, rfl, hstate⟩ | hnext⟩ := h.onByte hnone byte
    · have hfeed : h4.feed [] [byte] = ([], []) := by
        rw [Framing.feed, advance_skip hunknown]
        rfl
      refine ⟨[], .inl ⟨rd₁, ?_, hfifo, ?_, ?_⟩⟩
      · rw [hrun, hfeed]
        exact PacketReceiveData.finish_eq (by rw [hstate]; decide)
      · rw [hfeed]
        exact .idle hstate
      · rw [hfeed]
        exact ⟨Nat.zero_le _, fun p hp => by cases hp⟩
    · obtain rfl := hone.resolve_left hbody
      refine ⟨[], turn_of_onByte hrun hfifo ?_ hnext⟩
      rw [List.length_append, List.length_singleton]
      omega

/-- The loop stores inside the buffer until a packet does not fit. -/
theorem Receiving.parseLoop_cases {n : ℕ} (h : Receiving acc rd)
    (hroom : acc.length ≤ HCI_HAL_SERIAL_BUFFER_SIZE + BYTE_ALIGNMENT) (hn : rd.fifo.length ≤ n) :
    (∃ rd', Sitm.parseLoop n rd = .ok ((h4.feed acc rd.fifo).2.map padded, rd') ∧ rd'.fifo = [] ∧
      Receiving (h4.feed acc rd.fifo).1 rd' ∧ Fits (h4.feed acc rd.fifo)) ∨
    (Sitm.parseLoop n rd = .error .outOfBounds ∧ ¬ Fits (h4.feed acc rd.fifo)) := by
  induction n generalizing acc rd with
  | zero =>
    have hnil : rd.fifo = [] := List.length_eq_zero_iff.mp (Nat.le_zero.mp hn)
    rw [hnil]
    exact .inl ⟨rd, rfl, hnil, h, hroom, fun p hp => by cases hp⟩
  | succ n ih =>
    cases hfifo : rd.fifo with
    | nil =>
      refine .inl ⟨rd, ?_, hfifo, h, hroom, fun p hp => by cases hp⟩
      rw [Sitm.parseLoop, hfifo]
      rfl
    | cons byte fifo =>
      rw [hfifo] at hn
      have hloop : Sitm.parseLoop (n + 1) rd =
          ((PacketReceiveData.onByte { rd with fifo := fifo } byte).bind
            PacketReceiveData.finish).bind
              fun x => (Sitm.parseLoop n x.2).map fun y => (x.1 ++ y.1, y.2) := by
        rw [Sitm.parseLoop, hfifo]
        dsimp only
        cases PacketReceiveData.onByte { rd with fifo := fifo } byte with
        | error e => rfl
        | ok rd₁ =>
          dsimp only [Except.bind]
          rw [if_neg fun hstop => h.not_ignore hstop.1]
      obtain ⟨xs, ⟨rd₂, hturn⟩ | hturn⟩ := (h.withFifo fifo).turn_cases byte
      · have hxs : fifo = xs ++ rd₂.fifo := hturn.fifo
        have hsplit : byte :: fifo = (byte :: xs) ++ rd₂.fifo := by rw [hxs, List.cons_append]
        have hshorter : rd₂.fifo.length ≤ n := by
          rw [hxs, List.length_cons, List.length_append] at hn
          omega
        rw [hloop, hturn.run, hsplit, fits_append_iff, feed_append]
        dsimp only [Except.bind]
        rcases ih hturn.receiving hturn.fits.1 hshorter with
          ⟨rd', hrest, hempty, hlast, hfits⟩ | ⟨hrest, hfits⟩
        · refine .inl ⟨rd', ?_, hempty, hlast, hturn.fits, hfits⟩
          rw [hrest, List.map_append]
          rfl
        · refine .inr ⟨?_, fun hall => hfits hall.2⟩
          rw [hrest]
          rfl
      · obtain ⟨later, hxs⟩ := hturn.fifo
        have hxs : xs ++ later = fifo := hxs
        have hsplit : byte :: fifo = (byte :: xs) ++ later := by rw [← hxs, List.cons_append]
        refine .inr ⟨?_, fun hall => hturn.not_fits ?_⟩
        · rw [hloop, hturn.run]
          rfl
        · rw [hsplit, fits_append_iff] at hall
          exact hall.1

theorem Receiving.sitmWrite_cases (h : Receiving acc rd) (hempty : rd.fifo = [])
    (hroom : acc.length ≤ HCI_HAL_SERIAL_BUFFER_SIZE + BYTE_ALIGNMENT) (size : ℕ) (buf : List Byte) :
    (∃ count frames rd', Sitm.sitmWrite size rd buf = .ok (count, frames, rd') ∧ rd'.fifo = [] ∧
      Receiving (h4.feed acc (buf.take size)).1 rd' ∧ Fits (h4.feed acc (buf.take size))) ∨
    (Sitm.sitmWrite size rd buf = .error .outOfBounds ∧ ¬ Fits (h4.feed acc (buf.take size))) := by
  rw [Sitm.sitmWrite, hempty, List.length_nil, Nat.sub_zero]
  dsimp only
  by_cases hsize : size = 0
  · rw [if_pos hsize, hsize]
    exact .inl ⟨0, [], rd, rfl, hempty, h, hroom, fun p hp => by cases hp⟩
  · have hcount : buf.take (if size < buf.length then size else buf.length) = buf.take size := by
      split
      · rfl
      · rename_i hlong
        rw [List.take_length, List.take_of_length_le (Nat.le_of_not_lt hlong)]
    rw [if_neg hsize, hcount, List.nil_append, parseFrame]
    rcases (h.withFifo (buf.take size)).parseLoop_cases hroom (Nat.le_refl (buf.take size).length) with
      ⟨rd', hloop, hrest⟩ | ⟨hloop, hfits⟩
    · exact .inl ⟨_, _, rd', congrArg (Except.map _) hloop, hrest⟩
    · exact .inr ⟨congrArg (Except.map _) hloop, hfits⟩

theorem Receiving.sitmWrites_iff (h : Receiving acc rd) (hempty : rd.fifo = [])
    (hroom : acc.length ≤ HCI_HAL_SERIAL_BUFFER_SIZE + BYTE_ALIGNMENT) (size : ℕ)
    (bufs : List (List Byte)) :
    (∃ r, Sitm.sitmWrites size rd bufs = .ok r) ↔
      Fits (h4.feed acc (bufs.map (·.take size)).flatten) := by
  induction bufs generalizing acc rd with
  | nil => exact ⟨fun _ => ⟨hroom, fun p hp => by cases hp⟩, fun _ => ⟨_, rfl⟩⟩
  | cons buf bufs ih =>
    rw [List.map_cons, List.flatten_cons, fits_append_iff, Sitm.sitmWrites]
    rcases h.sitmWrite_cases hempty hroom size buf with
      ⟨count, frames, rd', hwrite, hempty', hnext, hfits⟩ | ⟨hwrite, hfits⟩
    · rw [hwrite, ← ih hnext hempty' hfits.1]
      dsimp only [Except.bind]
      cases Sitm.sitmWrites size rd' bufs with
      | error e =>
        constructor
        · rintro ⟨_, hr⟩
          cases hr
        · rintro ⟨_, _, hr⟩
          cases hr
      | ok r => exact ⟨fun _ => ⟨hfits, r, rfl⟩, fun _ => ⟨_, rfl⟩⟩
    · rw [hwrite]
      refine ⟨?_, fun hall => absurd hall.1 hfits⟩
      rintro ⟨_, hr⟩
      cases hr

/-- What is written through `sitm_write` in any pieces is stored inside the buffer if and only if no
packet of it is longer than leaves room for the padding, nor the one it ends in longer than the
buffer. -/
theorem stores_inside_iff (size : ℕ) (bufs : List (List Byte)) :
    (∃ r, sitmWrites size sitmInit bufs = .ok r) ↔
      (∀ p ∈ h4.frames (bufs.map (·.take size)).flatten, p.length ≤ MAX_PADDED) ∧
      (h4.feed [] (bufs.map (·.take size)).flatten).1.length ≤
        HCI_HAL_SERIAL_BUFFER_SIZE + BYTE_ALIGNMENT := by
  rw [(Receiving.idle rfl : Receiving [] sitmInit).sitmWrites_iff rfl (Nat.zero_le _) size bufs, Fits,
    feed_eq_frames]
  exact And.comm

/-- One packet and nothing else. -/
theorem feed_packet {packet : List Byte} {b : Byte} (hhead : packet.head? = some b)
    (hstarts : h4.starts b = true) (hlength : packetLength packet = some packet.length) :
    h4.feed [] packet = ([], [packet]) := by
  have hne : packet ≠ [] := by
    rintro rfl
    cases hhead
  exact feed_frame (.inr ⟨b, hhead, hstarts⟩) hne hlength

/-- Data with a body of 1024 bytes in one piece: a byte of the padding is stored behind the buffer. -/
theorem data_overruns :
    ¬ ∃ r, sitmWrites 2048 sitmInit [[2, 0, 0, 0, 4] ++ List.replicate 1024 0] = .ok r := by
  rw [(Receiving.idle rfl : Receiving [] sitmInit).sitmWrites_iff rfl (Nat.zero_le _)]
  rintro ⟨-, hframes⟩
  have htake : ([[2, 0, 0, 0, 4] ++ List.replicate 1024 0].map (·.take 2048)).flatten =
      [2, 0, 0, 0, 4] ++ List.replicate 1024 (0 : Byte) := by
    rw [List.map_singleton, List.flatten_singleton, List.take_of_length_le]
    rw [List.length_append, List.length_replicate]
    decide
  have hlength : packetLength ([2, 0, 0, 0, 4] ++ List.replicate 1024 (0 : Byte)) =
      some ([2, 0, 0, 0, 4] ++ List.replicate 1024 (0 : Byte)).length := by
    rw [packetLength_of_head (show List.head? _ = some (2 : Byte) from rfl), List.length_append,
      List.length_replicate, if_pos (by decide)]
    rfl
  have hframe := feed_packet (show List.head? _ = some (2 : Byte) from rfl) rfl hlength
  rw [htake, hframe] at hframes
  have hle := hframes _ (List.mem_singleton_self _)
  rw [List.length_append, List.length_replicate] at hle
  exact absurd hle (by decide)

end Uwe5631.Sitm
