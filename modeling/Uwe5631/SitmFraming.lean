import Uwe5631.IncrementalFraming
import Uwe5631.FallibleRuns
import Mathlib

/-!
# Framing of HCI packets

`sitm_write` puts what is written to the Bluetooth port into a fifo, from which `parse_frame` takes
it byte by byte, or the rest of a body at once, and hands down each packet when it is complete.
-/
namespace Uwe5631.Sitm
open IncrementalFraming FallibleRuns

abbrev Byte := BitVec 8

abbrev HCI_HAL_SERIAL_BUFFER_SIZE : ℕ := 1026
abbrev BYTE_ALIGNMENT : ℕ := 4
abbrev PREAMBLE_BUFFER_SIZE : ℕ := 5

abbrev DATA_TYPE_COMMAND : Byte := 1
abbrev DATA_TYPE_ACL : Byte := 2
abbrev DATA_TYPE_EVENT : Byte := 4

/-- `enum receive_state_t` -/
inductive ReceiveState where
  | brandNew
  | preamble
  | body
  | ignore
  | finished
  deriving DecidableEq, Repr

def preambleSizes : List ℕ := [3, 4, 3, 2]

/-- `struct packet_receive_data_t`; an index leaves its buffer before it gets out of 16 bits. -/
structure PacketReceiveData where
  state : ReceiveState
  bytesRemaining : ℕ
  type : Byte
  preamble : ℕ → Byte
  index : ℕ
  fifo : List Byte
  buffer : ℕ → Byte

inductive Fault where
  | outOfBounds
  deriving DecidableEq, Repr

/-- Bytes written into an array from an index on. -/
def store (array : ℕ → Byte) (i : ℕ) (bytes : List Byte) : ℕ → Byte :=
  fun j => if i ≤ j ∧ j < i + bytes.length then bytes.getD (j - i) 0 else array j

/-- Bytes written to `rd->buffer + rd->index`, and `rd->index` set behind them. -/
def PacketReceiveData.write (rd : PacketReceiveData) (bytes : List Byte) :
    Except Fault PacketReceiveData :=
  if rd.index + bytes.length ≤ HCI_HAL_SERIAL_BUFFER_SIZE + BYTE_ALIGNMENT then
    .ok { rd with buffer := store rd.buffer rd.index bytes, index := rd.index + bytes.length }
  else .error .outOfBounds

/-- `RETRIEVE_ACL_LENGTH` -/
def retrieveAclLength (preamble : ℕ → Byte) : ℕ :=
  ((preamble 4).toNat &&& 0xFFFF) <<< 8 ||| (preamble 3).toNat

/-- `case PREAMBLE` -/
def PacketReceiveData.onPreamble (rd : PacketReceiveData) (byte : Byte) :
    Except Fault PacketReceiveData :=
  if rd.index < PREAMBLE_BUFFER_SIZE then
    let preamble := store rd.preamble rd.index [byte]
    let index := rd.index + 1
    let rd := { rd with preamble := preamble, index := index }
    if rd.bytesRemaining - 1 = 0 then
      let bytesRemaining := if rd.type = DATA_TYPE_ACL then retrieveAclLength preamble else byte.toNat
      .ok { rd with
        bytesRemaining := bytesRemaining
        buffer := store rd.buffer 0 ((List.range index).map preamble)
        state := if 0 < bytesRemaining then .body else .finished }
    else .ok { rd with bytesRemaining := rd.bytesRemaining - 1 }
  else .error .outOfBounds

/-- `case BODY` -/
def PacketReceiveData.onBody (rd : PacketReceiveData) (byte : Byte) :
    Except Fault PacketReceiveData :=
  (rd.write [byte]).bind fun rd : PacketReceiveData =>
    let bytes := rd.fifo.take (rd.bytesRemaining - 1)
    let rd := { rd with fifo := rd.fifo.drop (rd.bytesRemaining - 1) }
    (rd.write bytes).map fun rd =>
      let bytesRemaining := rd.bytesRemaining - 1 - bytes.length
      { rd with
        bytesRemaining := bytesRemaining
        state := if bytesRemaining = 0 then .finished else rd.state }

/-- The `switch` of `parse_frame`. -/
def PacketReceiveData.onByte (rd : PacketReceiveData) (byte : Byte) : Except Fault PacketReceiveData :=
  match rd.state with
  | .brandNew =>
    if DATA_TYPE_EVENT < byte ∨ byte < DATA_TYPE_COMMAND then .ok rd
    else
      { rd with
        type := byte
        bytesRemaining := preambleSizes.getD (byte.toNat - 1) 0 + 1
        preamble := fun _ => 0
        index := 0
        state := .preamble }.onPreamble byte
  | .preamble => rd.onPreamble byte
  | .body => rd.onBody byte
  | .ignore =>
    .ok { rd with
      bytesRemaining := rd.bytesRemaining - 1
      state := if rd.bytesRemaining - 1 = 0 then .brandNew else .ignore }
  | .finished => .ok rd

/-- The end of the body of the loop of `parse_frame`, with the frame it hands down. -/
def PacketReceiveData.finish (rd : PacketReceiveData) :
    Except Fault (List (List Byte) × PacketReceiveData) :=
  if rd.state = .finished then
    let tail := BYTE_ALIGNMENT - (rd.index + BYTE_ALIGNMENT) % BYTE_ALIGNMENT
    (if rd.type = DATA_TYPE_COMMAND ∨ rd.type = DATA_TYPE_ACL then rd.write (List.replicate tail 0)
      else .ok rd).map fun rd => ([(List.range rd.index).map rd.buffer], { rd with state := .brandNew })
  else .ok ([], rd)

/-- The loop of `parse_frame`. A turn takes a byte at least, so there are at most as many turns as
bytes in the fifo. -/
def parseLoop : ℕ → PacketReceiveData → Except Fault (List (List Byte) × PacketReceiveData)
  | 0, rd => .ok ([], rd)
  | n + 1, rd =>
    match rd.fifo with
    | [] => .ok ([], rd)
    | byte :: fifo => (PacketReceiveData.onByte { rd with fifo := fifo } byte).bind fun rd' =>
      -- only `case IGNORE` returns
      if rd.state = .ignore ∧ rd'.state = .brandNew then .ok ([], rd')
      else rd'.finish.bind fun x => (parseLoop n x.2).map fun y => (x.1 ++ y.1, y.2)

def parseFrame (rd : PacketReceiveData) : Except Fault (List (List Byte) × PacketReceiveData) :=
  parseLoop rd.fifo.length rd

/-- `sitm_write` with a fifo of some size: how many bytes it takes, and the frames it hands down. -/
def sitmWrite (size : ℕ) (rd : PacketReceiveData) (buf : List Byte) :
    Except Fault (ℕ × List (List Byte) × PacketReceiveData) :=
  let avail := size - rd.fifo.length
  if avail = 0 then .ok (0, [], rd)
  else
    let count := if avail < buf.length then avail else buf.length
    (parseFrame { rd with fifo := rd.fifo ++ buf.take count }).map fun x => (count, x)

/-- Successive calls of `sitm_write`, with the bytes each takes and all frames handed down. -/
def sitmWrites (size : ℕ) : PacketReceiveData → List (List Byte) →
    Except Fault (List (List Byte) × List (List Byte) × PacketReceiveData)
  | rd, [] => .ok ([], [], rd)
  | rd, buf :: bufs => (sitmWrite size rd buf).bind fun x =>
    (sitmWrites size x.2.2 bufs).map fun y =>
      (buf.take x.1 :: y.1, x.2.1 ++ y.2.1, y.2.2)

/-! ## The grammar -/

/-- The bytes of a packet up to its length field: a type octet, then opcode and length of a command,
handle and length of data, code and length of an event. -/
def headerLength (type : Byte) : ℕ := if type = 1 ∨ type = 3 then 4 else if type = 2 then 5 else 3

/-- The length field, of two bytes for ACL data. -/
def bodyLength (type : Byte) (packet : List Byte) : ℕ :=
  if type = 2 then (packet.getD 3 0).toNat + 256 * (packet.getD 4 0).toNat
  else (packet.getD (headerLength type - 1) 0).toNat

def packetLength : List Byte → Option ℕ
  | [] => none
  | type :: rest =>
    if headerLength type ≤ rest.length + 1 then
      some (headerLength type + bodyLength type (type :: rest))
    else none

theorem headerLength_bounds (type : Byte) : 3 ≤ headerLength type ∧ headerLength type ≤ 5 := by
  rw [headerLength]
  split
  · omega
  · split <;> omega

/-- The length is read from bytes of the header. -/
theorem bodyLength_congr {type : Byte} {xs ys : List Byte}
    (h : ∀ i < headerLength type, xs.getD i 0 = ys.getD i 0) :
    bodyLength type xs = bodyLength type ys := by
  have hbounds := headerLength_bounds type
  rw [bodyLength, bodyLength]
  split
  · rename_i htype
    have hlen : headerLength type = 5 := by rw [htype]; rfl
    rw [h 3 (by omega), h 4 (by omega)]
  · rw [h _ (by omega)]

/-- Packets of types 1 to 4. -/
def h4 : Framing Byte where
  starts b := decide (1 ≤ b ∧ b ≤ 4)
  length := packetLength
  stable xs ys n h := by
    cases xs with
    | nil => cases h
    | cons type rest =>
      rw [packetLength] at h
      split at h
      · rename_i hle
        rw [List.cons_append, packetLength, if_pos (by rw [List.length_append]; omega), ← h]
        refine congrArg (fun k => some (headerLength type + k)) (bodyLength_congr fun i hi => ?_)
        rw [← List.cons_append]
        exact List.getD_append _ _ _ _ (by rw [List.length_cons]; omega)
      · cases h
  known xs n h hn := by
    cases xs with
    | nil => cases h
    | cons type rest =>
      rw [packetLength] at h
      split at h
      · have hsum := Option.some.inj h
        have hbounds := headerLength_bounds type
        obtain ⟨k, rfl⟩ : ∃ k, n = k + 1 := ⟨n - 1, by omega⟩
        have hk : (rest.take k).length = k := by
          rw [List.length_take]
          exact Nat.min_eq_left (Nat.le_of_succ_le_succ hn)
        rw [List.take_succ_cons, packetLength, hk, if_pos (by omega), ← h]
        refine congrArg (fun k => some (headerLength type + k)) (bodyLength_congr fun i hi => ?_)
        rw [← List.take_succ_cons, List.getD_eq_getElem?_getD, List.getD_eq_getElem?_getD,
          List.getElem?_take_of_lt (by omega)]
      · cases h
  pos xs n h := by
    cases xs with
    | nil => cases h
    | cons type rest =>
      rw [packetLength] at h
      split at h
      · have hsum := Option.some.inj h
        have hbounds := headerLength_bounds type
        omega
      · cases h

theorem packetLength_of_head {type : Byte} {xs : List Byte} (h : xs.head? = some type) :
    packetLength xs =
      if headerLength type ≤ xs.length then some (headerLength type + bodyLength type xs) else none := by
  cases xs with
  | nil => cases h
  | cons b rest =>
    cases h
    rfl

theorem starts_cases {b : Byte} (h : h4.starts b = true) : b = 1 ∨ b = 2 ∨ b = 3 ∨ b = 4 := by
  obtain ⟨hlow, hhigh⟩ := of_decide_eq_true h
  rw [BitVec.le_def] at hlow hhigh
  have hone : (1 : Byte).toNat = 1 := rfl
  have hfour : (4 : Byte).toNat = 4 := rfl
  have hval : b.toNat = 1 ∨ b.toNat = 2 ∨ b.toNat = 3 ∨ b.toNat = 4 := by omega
  rcases hval with hval | hval | hval | hval
  · exact .inl (BitVec.eq_of_toNat_eq hval)
  · exact .inr (.inl (BitVec.eq_of_toNat_eq hval))
  · exact .inr (.inr (.inl (BitVec.eq_of_toNat_eq hval)))
  · exact .inr (.inr (.inr (BitVec.eq_of_toNat_eq hval)))

/-- The table of the code has the sizes of the grammar. -/
theorem preambleSizes_eq {b : Byte} (h : h4.starts b = true) :
    preambleSizes.getD (b.toNat - 1) 0 + 1 = headerLength b := by
  rcases starts_cases h with rfl | rfl | rfl | rfl <;> rfl

theorem unknown_iff (b : Byte) :
    (DATA_TYPE_EVENT < b ∨ b < DATA_TYPE_COMMAND) ↔ h4.starts b = false := by
  have hstarts : h4.starts b = decide (1 ≤ b ∧ b ≤ 4) := rfl
  rw [hstarts, decide_eq_false_iff_not, not_and_or, BitVec.not_le, BitVec.not_le]
  exact or_comm

/-! ## Arrays -/

/-- An array begins with some bytes. -/
def Written (array : ℕ → Byte) (xs : List Byte) : Prop := ∀ i < xs.length, array i = xs.getD i 0

theorem Written.store {array : ℕ → Byte} {xs : List Byte} (h : Written array xs) (ys : List Byte) :
    Written (store array xs.length ys) (xs ++ ys) := by
  intro i hi
  rw [List.length_append] at hi
  by_cases hlt : i < xs.length
  · have hout : ¬ (xs.length ≤ i ∧ i < xs.length + ys.length) := by omega
    rw [Sitm.store, if_neg hout, List.getD_append _ _ _ _ hlt]
    exact h i hlt
  · have hle := Nat.le_of_not_lt hlt
    rw [Sitm.store, if_pos ⟨hle, hi⟩, List.getD_append_right _ _ _ _ hle]

theorem Written.range {array : ℕ → Byte} {xs : List Byte} (h : Written array xs) :
    (List.range xs.length).map array = xs := by
  refine List.ext_getElem (by simp) fun i _ hi => ?_
  rw [List.getElem_map, List.getElem_range, h i hi, List.getD_eq_getElem _ _ hi]

/-! ## One packet -/

variable {rd rd' : PacketReceiveData} {acc : List Byte} {byte : Byte}

structure InHeader (acc : List Byte) (rd : PacketReceiveData) : Prop where
  state : rd.state = .preamble
  starts : h4.starts rd.type = true
  head : acc.head? = some rd.type
  index : rd.index = acc.length
  length : acc.length + rd.bytesRemaining = headerLength rd.type
  pos : 0 < rd.bytesRemaining
  written : Written rd.preamble acc

structure InBody (acc : List Byte) (rd : PacketReceiveData) : Prop where
  state : rd.state = .body
  starts : h4.starts rd.type = true
  head : acc.head? = some rd.type
  index : rd.index = acc.length
  length : packetLength acc = some (acc.length + rd.bytesRemaining)
  pos : 0 < rd.bytesRemaining
  written : Written rd.buffer acc

structure Complete (acc : List Byte) (rd : PacketReceiveData) : Prop where
  state : rd.state = .finished
  starts : h4.starts rd.type = true
  head : acc.head? = some rd.type
  index : rd.index = acc.length
  length : packetLength acc = some acc.length
  written : Written rd.buffer acc

/-- The bytes of the current packet that have come, none between two packets. -/
inductive Receiving : List Byte → PacketReceiveData → Prop
  | idle {rd : PacketReceiveData} : rd.state = .brandNew → Receiving [] rd
  | header {acc : List Byte} {rd : PacketReceiveData} : InHeader acc rd → Receiving acc rd
  | body {acc : List Byte} {rd : PacketReceiveData} : InBody acc rd → Receiving acc rd

/-- A byte of the header, which may be its last one. -/
theorem onPreamble_spec (hstate : rd.state = .preamble) (hstarts : h4.starts rd.type = true)
    (hhead : (acc ++ [byte]).head? = some rd.type) (hindex : rd.index = acc.length)
    (hlength : acc.length + rd.bytesRemaining = headerLength rd.type) (hpos : 0 < rd.bytesRemaining)
    (hwritten : Written rd.preamble acc) :
    ∃ rd', rd.onPreamble byte = .ok rd' ∧ rd'.fifo = rd.fifo ∧
      (InHeader (acc ++ [byte]) rd' ∨ InBody (acc ++ [byte]) rd' ∨ Complete (acc ++ [byte]) rd') := by
  have hbounds := headerLength_bounds rd.type
  have hlen : (acc ++ [byte]).length = acc.length + 1 := by simp
  have hpreamble := hwritten.store [byte]
  have hroom : rd.index < PREAMBLE_BUFFER_SIZE := by
    rw [hindex]
    exact Nat.lt_of_lt_of_le (by omega) hbounds.2
  rw [PacketReceiveData.onPreamble, if_pos hroom]
  dsimp only
  split
  · rename_i hlast
    have hheader : headerLength rd.type = acc.length + 1 := by omega
    -- the length that the code reads is the one of the grammar
    have hbody : (if rd.type = DATA_TYPE_ACL then
        retrieveAclLength (store rd.preamble rd.index [byte]) else byte.toNat) =
        bodyLength rd.type (acc ++ [byte]) := by
      rw [bodyLength]
      split
      · rename_i htype
        have hfive : headerLength rd.type = 5 := by rw [htype]; rfl
        have hthird := hpreamble 3 (by omega)
        have hfourth := hpreamble 4 (by omega)
        have hlow := ((acc ++ [byte]).getD 3 0).isLt
        have hmask : ((acc ++ [byte]).getD 4 0).toNat &&& 0xFFFF = ((acc ++ [byte]).getD 4 0).toNat :=
          (Nat.and_two_pow_sub_one_eq_mod _ 16).trans (Nat.mod_eq_of_lt (by omega))
        rw [retrieveAclLength, hindex, hthird, hfourth, hmask, ← Nat.shiftLeft_add_eq_or_of_lt hlow,
          Nat.shiftLeft_eq]
        omega
      · rw [hheader, Nat.add_sub_cancel, List.getD_append_right _ _ _ _ (Nat.le_refl _), Nat.sub_self]
        rfl
    have hpacket : packetLength (acc ++ [byte]) =
        some ((acc ++ [byte]).length + bodyLength rd.type (acc ++ [byte])) := by
      rw [packetLength_of_head hhead, hlen, if_pos hheader.le, hheader]
    have hbuffer : Written (store rd.buffer 0
        ((List.range (rd.index + 1)).map (store rd.preamble rd.index [byte]))) (acc ++ [byte]) := by
      have hcopied := hpreamble.range
      rw [hlen] at hcopied
      rw [hindex, hcopied]
      have hnone : Written rd.buffer [] := fun i hi => absurd hi (Nat.not_lt_zero i)
      exact hnone.store (acc ++ [byte])
    rw [hbody]
    refine ⟨_, rfl, rfl, .inr ?_⟩
    by_cases hsome : 0 < bodyLength rd.type (acc ++ [byte])
    · exact .inl ⟨if_pos hsome, hstarts, hhead, by rw [hlen, hindex], hpacket, hsome, hbuffer⟩
    · have hzero : bodyLength rd.type (acc ++ [byte]) = 0 := by omega
      rw [hzero] at hpacket
      exact .inr ⟨if_neg hsome, hstarts, hhead, by rw [hlen, hindex], hpacket, hbuffer⟩
  · refine ⟨_, rfl, rfl, .inl ⟨hstate, hstarts, hhead, by rw [hlen, hindex], ?_, ?_, hindex ▸ hpreamble⟩⟩
    · dsimp only
      omega
    · dsimp only
      omega

theorem write_spec (hindex : rd.index = acc.length) (hwritten : Written rd.buffer acc) (xs : List Byte)
    (hfit : acc.length + xs.length ≤ HCI_HAL_SERIAL_BUFFER_SIZE + BYTE_ALIGNMENT) :
    ∃ buffer, rd.write xs = .ok { rd with buffer := buffer, index := (acc ++ xs).length } ∧
      Written buffer (acc ++ xs) := by
  refine ⟨store rd.buffer rd.index xs, ?_, hindex ▸ hwritten.store xs⟩
  rw [PacketReceiveData.write, hindex, if_pos hfit, List.length_append]

/-- A byte of the body, with what the fifo has of the rest of it. -/
theorem InBody.onBody (h : InBody acc rd) (byte : Byte) {xs : List Byte}
    (hxs : xs = rd.fifo.take (rd.bytesRemaining - 1))
    (hfit : (acc ++ byte :: xs).length ≤ HCI_HAL_SERIAL_BUFFER_SIZE + BYTE_ALIGNMENT) :
    ∃ rd', rd.onBody byte = .ok rd' ∧ rd.fifo = xs ++ rd'.fifo ∧
      (InBody (acc ++ byte :: xs) rd' ∨ Complete (acc ++ byte :: xs) rd') := by
  have hpos := h.pos
  have htaken : xs.length ≤ rd.bytesRemaining - 1 := hxs ▸ List.length_take_le _ _
  have hassoc : acc ++ [byte] ++ xs = acc ++ byte :: xs := by simp
  have hlen : (acc ++ byte :: xs).length = acc.length + 1 + xs.length := by
    rw [List.length_append, List.length_cons]
    omega
  obtain ⟨first, hfirst, hwritten⟩ := write_spec h.index h.written [byte]
    (by rw [List.length_singleton]; omega)
  have hindex : ({ rd with
      buffer := first
      index := (acc ++ [byte]).length
      fifo := rd.fifo.drop (rd.bytesRemaining - 1) } : PacketReceiveData).index =
      (acc ++ [byte]).length := rfl
  obtain ⟨buffer, hrest, hwritten⟩ := write_spec hindex hwritten xs
    (by rw [List.length_append, List.length_singleton]; omega)
  rw [hassoc] at hrest hwritten
  have hhead : (acc ++ byte :: xs).head? = some rd.type := by
    rw [List.head?_append, h.head]
    rfl
  have hlength : packetLength (acc ++ byte :: xs) = some (acc.length + rd.bytesRemaining) :=
    h4.stable _ _ _ h.length
  rw [PacketReceiveData.onBody, hfirst]
  dsimp only [Except.bind]
  rw [← hxs, hrest]
  refine ⟨_, rfl, hxs ▸ (List.take_append_drop _ _).symm, ?_⟩
  by_cases hlast : rd.bytesRemaining - 1 - xs.length = 0
  · refine .inr ⟨if_pos hlast, h.starts, hhead, rfl, ?_, hwritten⟩
    rw [hlength, hlen]
    exact congrArg some (by omega)
  · refine .inl ⟨(if_neg hlast).trans h.state, h.starts, hhead, rfl, ?_, Nat.pos_of_ne_zero hlast,
      hwritten⟩
    rw [hlength, hlen]
    exact congrArg some (by dsimp only; omega)

/-- A frame as it is handed down. -/
def padded (frame : List Byte) : List Byte :=
  if frame.head? = some 1 ∨ frame.head? = some 2 then
    frame ++ List.replicate (4 - frame.length % 4) 0
  else frame

theorem Complete.finish (h : Complete acc rd)
    (hfit : (padded acc).length ≤ HCI_HAL_SERIAL_BUFFER_SIZE + BYTE_ALIGNMENT) :
    ∃ rd', rd.finish = .ok ([padded acc], rd') ∧ rd'.state = .brandNew ∧ rd'.fifo = rd.fifo := by
  have hhead (b : Byte) : acc.head? = some b ↔ rd.type = b := by rw [h.head, Option.some_inj]
  rw [PacketReceiveData.finish, if_pos h.state]
  dsimp only
  by_cases hkind : rd.type = DATA_TYPE_COMMAND ∨ rd.type = DATA_TYPE_ACL
  · have htail : BYTE_ALIGNMENT - (rd.index + BYTE_ALIGNMENT) % BYTE_ALIGNMENT = 4 - acc.length % 4 := by
      rw [h.index, Nat.add_mod_right]
    have hpadded : padded acc = acc ++ List.replicate (4 - acc.length % 4) 0 :=
      if_pos (by rw [hhead, hhead]; exact hkind)
    obtain ⟨buffer, hpad, hwritten⟩ := write_spec h.index h.written
      (List.replicate (4 - acc.length % 4) 0) (by rwa [hpadded, List.length_append] at hfit)
    rw [if_pos hkind, htail, hpad, hpadded]
    refine ⟨_, congrArg (fun xs => Except.ok ([xs], _)) hwritten.range, rfl, rfl⟩
  · have hpadded : padded acc = acc := if_neg (by rw [hhead, hhead]; exact hkind)
    rw [if_neg hkind, hpadded]
    refine ⟨_, congrArg (fun xs => Except.ok ([xs], _)) ?_, rfl, rfl⟩
    rw [h.index]
    exact h.written.range

theorem length_padded_le (frame : List Byte) : (padded frame).length ≤ frame.length + BYTE_ALIGNMENT := by
  rw [padded]
  split
  · rw [List.length_append, List.length_replicate]
    exact Nat.add_le_add_left (Nat.sub_le _ _) _
  · exact Nat.le_add_right _ _

/-! ## Many packets -/

/-- What a byte does, with the bytes of the body that `case BODY` takes behind it. -/
theorem Receiving.onByte (h : Receiving acc rd)
    (hfit : ∀ n, packetLength acc = some n → n ≤ HCI_HAL_SERIAL_BUFFER_SIZE) (byte : Byte) :
    ∃ rd' xs, rd.onByte byte = .ok rd' ∧ rd.fifo = xs ++ rd'.fifo ∧ (InBody acc rd ∨ xs = []) ∧
      ((acc = [] ∧ h4.starts byte = false ∧ xs = [] ∧ rd'.state = .brandNew) ∨
        (InHeader (acc ++ byte :: xs) rd' ∨ InBody (acc ++ byte :: xs) rd' ∨
          Complete (acc ++ byte :: xs) rd')) := by
  cases h with
  | idle hstate =>
    rw [PacketReceiveData.onByte, hstate]
    dsimp only
    by_cases hunknown : h4.starts byte = false
    · rw [if_pos ((unknown_iff byte).mpr hunknown)]
      exact ⟨rd, [], rfl, rfl, .inr rfl, .inl ⟨rfl, hunknown, rfl, hstate⟩⟩
    · rw [if_neg (hunknown ∘ (unknown_iff byte).mp)]
      have hstarts := (Bool.not_eq_false _).mp hunknown
      have hsize := preambleSizes_eq hstarts
      have hstate : ({ rd with
          type := byte
          bytesRemaining := preambleSizes.getD (byte.toNat - 1) 0 + 1
          preamble := fun _ => 0
          index := 0
          state := .preamble } : PacketReceiveData).state = .preamble := rfl
      have hhead : ([] ++ [byte]).head? = some byte := rfl
      obtain ⟨rd', hrun, hfifo, hnext⟩ := onPreamble_spec hstate hstarts hhead rfl (by
          rw [List.length_nil, Nat.zero_add]
          exact hsize) (Nat.succ_pos _) (fun i hi => absurd hi (Nat.not_lt_zero i))
      exact ⟨rd', [], hrun, hfifo.symm, .inr rfl, .inr hnext⟩
  | header h =>
    have hhead : (acc ++ [byte]).head? = some rd.type := by
      rw [List.head?_append, h.head]
      rfl
    obtain ⟨rd', hrun, hfifo, hnext⟩ :=
      onPreamble_spec h.state h.starts hhead h.index h.length h.pos h.written
    rw [PacketReceiveData.onByte, h.state]
    exact ⟨rd', [], hrun, hfifo.symm, .inr rfl, .inr hnext⟩
  | body h =>
    have hpos := h.pos
    have hle := hfit _ h.length
    have htaken := List.length_take_le (rd.bytesRemaining - 1) rd.fifo
    obtain ⟨rd', hrun, hfifo, hnext⟩ := h.onBody byte rfl (by
      rw [List.length_append, List.length_cons]
      omega)
    rw [PacketReceiveData.onByte, h.state]
    exact ⟨rd', _, hrun, hfifo, .inl h, .inr (.inr hnext)⟩

theorem Receiving.head (h : Receiving acc rd) :
    acc = [] ∨ ∃ b, acc.head? = some b ∧ h4.starts b = true := by
  cases h with
  | idle => exact .inl rfl
  | header h => exact .inr ⟨_, h.head, h.starts⟩
  | body h => exact .inr ⟨_, h.head, h.starts⟩

theorem Receiving.not_ignore (h : Receiving acc rd) : rd.state ≠ .ignore := by
  cases h with
  | idle h => rw [h]; decide
  | header h => rw [h.state]; decide
  | body h => rw [h.state]; decide

/-- The current packet fits when the packets of the stream do. -/
theorem Receiving.fits (h : Receiving acc rd) {rest : List Byte} {bound : ℕ}
    (hfit : h4.Bounded bound (acc ++ rest)) : ∀ n, packetLength acc = some n → n ≤ bound := by
  intro n hn
  rcases h.head with rfl | ⟨b, hb, hstarts⟩
  · cases hn
  · have hhead : (acc ++ rest).head? = some b := by
      rw [List.head?_append, hb]
      rfl
    exact (hfit.of_frame ⟨b, hhead, hstarts⟩ (h4.stable _ rest _ hn)).1

theorem InHeader.short (h : InHeader acc rd) : packetLength acc = none := by
  have hlength := h.length
  have hpos := h.pos
  rw [packetLength_of_head h.head, if_neg (by omega)]

theorem PacketReceiveData.finish_eq (h : rd.state ≠ .finished) : rd.finish = .ok ([], rd) := if_neg h

/-- A turn of the loop does what the grammar does with the bytes it takes. -/
theorem Receiving.turn (h : Receiving acc rd) {byte : Byte} {later : List Byte}
    (hfit : h4.Bounded HCI_HAL_SERIAL_BUFFER_SIZE (acc ++ byte :: (rd.fifo ++ later))) :
    ∃ rd₁ rd₂ xs frames acc', rd.onByte byte = .ok rd₁ ∧
      rd₁.finish = .ok (frames.map padded, rd₂) ∧ rd.fifo = xs ++ rd₂.fifo ∧
      h4.feed acc (byte :: xs) = (acc', frames) ∧ Receiving acc' rd₂ ∧
      h4.Bounded HCI_HAL_SERIAL_BUFFER_SIZE (acc' ++ (rd₂.fifo ++ later)) := by
  obtain ⟨rd₁, xs, hrun, hfifo, -, ⟨rfl, hunknown, rfl, hstate⟩ | hnext⟩ :=
    h.onByte (h.fits hfit) byte
  · have hfinish : rd₁.finish = .ok ([], rd₁) :=
      PacketReceiveData.finish_eq (by rw [hstate]; decide)
    have hfeed : h4.feed [] [byte] = ([], []) := by
      rw [Framing.feed, advance_skip hunknown]
      rfl
    rw [hfifo] at hfit
    exact ⟨rd₁, rd₁, [], [], [], hrun, hfinish, hfifo, hfeed, .idle hstate,
      hfit.of_skip hunknown⟩
  · have hassoc : acc ++ byte :: (rd.fifo ++ later) =
        (acc ++ byte :: xs) ++ (rd₁.fifo ++ later) := by
      rw [hfifo]
      simp
    rw [hassoc] at hfit
    have hgo (b : Byte) (hb : (acc ++ byte :: xs).head? = some b) (hstarts : h4.starts b = true) :
        acc ≠ [] ∨ ∃ b, (byte :: xs).head? = some b ∧ h4.starts b = true := by
      cases acc with
      | nil => exact .inr ⟨b, hb, hstarts⟩
      | cons => exact .inl (List.cons_ne_nil _ _)
    rcases hnext with hheader | hbody | hcomplete
    · have hfinish : rd₁.finish = .ok ([], rd₁) :=
        PacketReceiveData.finish_eq (by rw [hheader.state]; decide)
      have hfeed := feed_short (hgo _ hheader.head hheader.starts)
        fun n hn => absurd (hheader.short.symm.trans hn) (Option.some_ne_none n).symm
      exact ⟨rd₁, rd₁, xs, [], _, hrun, hfinish, hfifo, hfeed, .header hheader, hfit⟩
    · have hfinish : rd₁.finish = .ok ([], rd₁) :=
        PacketReceiveData.finish_eq (by rw [hbody.state]; decide)
      have hpos := hbody.pos
      have hfeed := feed_short (hgo _ hbody.head hbody.starts) fun n hn => by
        have hsum := Option.some.inj (hbody.length.symm.trans hn)
        omega
      exact ⟨rd₁, rd₁, xs, [], _, hrun, hfinish, hfifo, hfeed, .body hbody, hfit⟩
    · have hhead : ((acc ++ byte :: xs) ++ (rd₁.fifo ++ later)).head? = some rd₁.type := by
        rw [List.head?_append, hcomplete.head]
        rfl
      obtain ⟨hle, hrest⟩ := hfit.of_frame ⟨_, hhead, hcomplete.starts⟩
        (h4.stable _ _ _ hcomplete.length)
      rw [List.drop_left] at hrest
      obtain ⟨rd₂, hfinish, hstate, hsame⟩ := hcomplete.finish
        ((length_padded_le _).trans (Nat.add_le_add_right hle _))
      have hfeed := feed_frame (hgo _ hcomplete.head hcomplete.starts) (List.cons_ne_nil _ _)
        hcomplete.length
      rw [← hsame] at hfifo hrest
      exact ⟨rd₁, rd₂, xs, [_], [], hrun, hfinish, hfifo, hfeed, .idle hstate, hrest⟩

theorem Receiving.withFifo (h : Receiving acc rd) (fifo : List Byte) :
    Receiving acc { rd with fifo := fifo } := by
  cases h with
  | idle h => exact .idle h
  | header h => exact .header ⟨h.state, h.starts, h.head, h.index, h.length, h.pos, h.written⟩
  | body h => exact .body ⟨h.state, h.starts, h.head, h.index, h.length, h.pos, h.written⟩

/-- The loop empties the fifo, and hands down the packets that its bytes complete. -/
theorem Receiving.parseLoop {later : List Byte} {n : ℕ} (h : Receiving acc rd)
    (hn : rd.fifo.length ≤ n)
    (hfit : h4.Bounded HCI_HAL_SERIAL_BUFFER_SIZE (acc ++ (rd.fifo ++ later))) :
    ∃ rd', parseLoop n rd = .ok ((h4.feed acc rd.fifo).2.map padded, rd') ∧ rd'.fifo = [] ∧
      Receiving (h4.feed acc rd.fifo).1 rd' ∧
      h4.Bounded HCI_HAL_SERIAL_BUFFER_SIZE ((h4.feed acc rd.fifo).1 ++ later) := by
  induction n generalizing acc rd with
  | zero =>
    have hnil : rd.fifo = [] := List.length_eq_zero_iff.mp (Nat.le_zero.mp hn)
    rw [hnil] at hfit ⊢
    exact ⟨rd, rfl, hnil, h, hfit⟩
  | succ n ih =>
    cases hfifo : rd.fifo with
    | nil =>
      rw [hfifo] at hfit
      refine ⟨rd, ?_, hfifo, h, hfit⟩
      rw [Sitm.parseLoop, hfifo]
      rfl
    | cons byte fifo =>
      rw [hfifo] at hfit hn
      obtain ⟨rd₁, rd₂, xs, frames, acc', hrun, hfinish, hxs, hfeed, hnext, hfit'⟩ :=
        (h.withFifo fifo).turn hfit
      have hxs : fifo = xs ++ rd₂.fifo := hxs
      have hshorter : rd₂.fifo.length ≤ n := by
        rw [hxs, List.length_cons, List.length_append] at hn
        omega
      obtain ⟨rd', hloop, hempty, hlast, hfit'⟩ := ih hnext hshorter hfit'
      have hstay : ¬ (rd.state = .ignore ∧ rd₁.state = .brandNew) := fun hstop =>
        h.not_ignore hstop.1
      have hall : h4.feed acc (byte :: fifo) =
          ((h4.feed acc' rd₂.fifo).1, frames ++ (h4.feed acc' rd₂.fifo).2) := by
        rw [hxs, ← List.cons_append, feed_append, hfeed]
      rw [hall]
      refine ⟨rd', ?_, hempty, hlast, hfit'⟩
      rw [Sitm.parseLoop, hfifo]
      dsimp only
      rw [hrun]
      dsimp only [Except.bind]
      rw [if_neg hstay, hfinish]
      dsimp only
      rw [hloop, List.map_append]
      rfl

theorem Receiving.sitmWrite {later : List Byte} (h : Receiving acc rd) (hempty : rd.fifo = [])
    (size : ℕ) (buf : List Byte)
    (hfit : h4.Bounded HCI_HAL_SERIAL_BUFFER_SIZE (acc ++ (buf.take size ++ later))) :
    ∃ count rd', sitmWrite size rd buf =
        .ok (count, (h4.feed acc (buf.take size)).2.map padded, rd') ∧
      buf.take count = buf.take size ∧ rd'.fifo = [] ∧
      Receiving (h4.feed acc (buf.take size)).1 rd' ∧
      h4.Bounded HCI_HAL_SERIAL_BUFFER_SIZE ((h4.feed acc (buf.take size)).1 ++ later) := by
  rw [Sitm.sitmWrite, hempty, List.length_nil, Nat.sub_zero]
  dsimp only
  by_cases hsize : size = 0
  · rw [if_pos hsize, hsize]
    rw [hsize] at hfit
    exact ⟨0, rd, rfl, rfl, hempty, h, hfit⟩
  · have hcount : buf.take (if size < buf.length then size else buf.length) = buf.take size := by
      split
      · rfl
      · rename_i hlong
        rw [List.take_length, List.take_of_length_le (Nat.le_of_not_lt hlong)]
    rw [if_neg hsize, hcount, List.nil_append]
    obtain ⟨rd', hloop, hrest⟩ :=
      (h.withFifo (buf.take size)).parseLoop (Nat.le_refl (buf.take size).length) hfit
    refine ⟨_, rd', ?_, hcount, hrest⟩
    rw [parseFrame, hloop]
    rfl

theorem Receiving.sitmWrites (h : Receiving acc rd) (hempty : rd.fifo = []) (size : ℕ)
    (bufs : List (List Byte))
    (hfit : h4.Bounded HCI_HAL_SERIAL_BUFFER_SIZE (acc ++ (bufs.map (·.take size)).flatten)) :
    ∃ rd', sitmWrites size rd bufs = .ok (bufs.map (·.take size),
      (h4.feed acc (bufs.map (·.take size)).flatten).2.map padded, rd') := by
  induction bufs generalizing acc rd with
  | nil => exact ⟨rd, rfl⟩
  | cons buf bufs ih =>
    rw [List.map_cons, List.flatten_cons] at hfit
    obtain ⟨count, rd₁, hwrite, htaken, hempty₁, hnext, hfit'⟩ :=
      h.sitmWrite hempty size buf hfit
    obtain ⟨rd', hrest⟩ := ih hnext hempty₁ hfit'
    refine ⟨rd', ?_⟩
    rw [Sitm.sitmWrites, hwrite]
    dsimp only [Except.bind]
    rw [hrest, htaken, List.map_cons, List.flatten_cons, feed_append, List.map_append]
    rfl

/-- However a stream is cut into calls of `sitm_write`, the frames handed down are the packets of the
stream, padded, as long as each packet fits the receive buffer. Each call takes what the fifo has
room for. -/
theorem frames_independent_of_cuts (size : ℕ) (rd : PacketReceiveData) (bufs : List (List Byte))
    (hstate : rd.state = .brandNew) (hempty : rd.fifo = [])
    (hfit : h4.Bounded HCI_HAL_SERIAL_BUFFER_SIZE (bufs.map (·.take size)).flatten) :
    ∃ rd', sitmWrites size rd bufs = .ok (bufs.map (·.take size),
      (h4.frames (bufs.map (·.take size)).flatten).map padded, rd') := by
  rw [← feed_eq_frames]
  exact (Receiving.idle hstate).sitmWrites hempty size bufs hfit

/-- `sitm_init` -/
def sitmInit : PacketReceiveData where
  state := .brandNew
  bytesRemaining := 0
  type := 0
  preamble := fun _ => 0
  index := 0
  fifo := []
  buffer := fun _ => 0

/-- An unknown octet, a command and an event, cut inside both headers. -/
theorem command_and_event_framed :
    ∃ rd', sitmWrites 2048 sitmInit [[0, 1], [3, 12], [0, 4, 14], [1, 9]] =
      .ok ([[0, 1], [3, 12], [0, 4, 14], [1, 9]], [[1, 3, 12, 0, 0, 0, 0, 0], [4, 14, 1, 9]], rd') := by
  have hevent : h4.Bounded HCI_HAL_SERIAL_BUFFER_SIZE [4, 14, 1, 9] :=
    .frame (n := 4) rfl rfl (by decide) .nil
  have hcommand : h4.Bounded HCI_HAL_SERIAL_BUFFER_SIZE [1, 3, 12, 0, 4, 14, 1, 9] :=
    .frame (n := 4) rfl rfl (by decide) hevent
  have hframes : (h4.frames [0, 1, 3, 12, 0, 4, 14, 1, 9]).map padded =
      [[1, 3, 12, 0, 0, 0, 0, 0], [4, 14, 1, 9]] := by
    rw [← feed_eq_frames]
    rfl
  rw [← hframes]
  exact frames_independent_of_cuts 2048 sitmInit [[0, 1], [3, 12], [0, 4, 14], [1, 9]] rfl rfl
    (.skip rfl hcommand)

end Uwe5631.Sitm
