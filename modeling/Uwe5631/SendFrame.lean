import Uwe5631.FallibleRuns
import Mathlib

/-!
# The image of a frame to transmit

`sprdwl_intf_fill_msdu_dscr` puts a descriptor before a frame, and `sprdwl_send_data` moves both to an
address that four divides. A pointer to the frame from before is what the filter of TCP
acknowledgements is given.
-/
namespace Uwe5631.SendFrame
open FallibleRuns

abbrev Byte := BitVec 8

abbrev DSCR_LEN : ℕ := 11
abbrev MSG_PTR_LEN : ℕ := 8
abbrev MSDU_DSCR_RSVD : ℕ := 5
abbrev MAX_TCP_ACK : ℕ := 200

/-- A linear skb whose buffer starts at an address: the bytes of the headroom, of the data and of the
tailroom. -/
structure Skb where
  head : ℕ
  headroom : List Byte
  data : List Byte
  tailroom : List Byte

def Skb.address (s : Skb) : ℕ := s.head + s.headroom.length

def Skb.buffer (s : Skb) : List Byte := s.headroom ++ (s.data ++ s.tailroom)

inductive Fault
  /-- a push or a put that the buffer has no room for -/
  | panic
  | outside
  | useAfterFree
  deriving DecidableEq, Repr

def Skb.push (s : Skb) (n : ℕ) : Except Fault Skb :=
  if s.headroom.length < n then .error .panic
  else .ok { s with
    headroom := s.headroom.take (s.headroom.length - n)
    data := s.headroom.drop (s.headroom.length - n) ++ s.data }

def Skb.pull (s : Skb) (n : ℕ) : Except Fault Skb :=
  if s.data.length < n then .error .panic
  else .ok { s with headroom := s.headroom ++ s.data.take n, data := s.data.drop n }

def Skb.put (s : Skb) (n : ℕ) : Except Fault Skb :=
  if s.tailroom.length < n then .error .panic
  else .ok { s with data := s.data ++ s.tailroom.take n, tailroom := s.tailroom.drop n }

/-- The data moved up, in the buffer. -/
def Skb.moveUp (s : Skb) (n : ℕ) : Except Fault Skb :=
  if s.tailroom.length < n then .error .outside
  else .ok { s with
    data := (s.data.take n ++ s.data).take s.data.length
    tailroom := (s.data.take n ++ s.data).drop s.data.length ++ s.tailroom.drop n }

/-- What `CHECKSUM_PARTIAL` comes with: the distances of the headers of the network and of the transport
from that of Ethernet. -/
structure Offload where
  network : ℕ
  transport : BitVec 16

/-- What the two functions find: the build, the interface, the index that `sprdwl_find_lut_index`
returns, and whether a copy with more headroom can be had. -/
structure Env where
  ott : Bool
  pcie : Bool
  hifOffset : ℕ
  ctxId : BitVec 3
  lutIndex : Byte
  checksum : Option Offload
  realloc : Bool

def Env.dscrRsvd (env : Env) : ℕ := if env.pcie then MSDU_DSCR_RSVD else 0

abbrev SPRDWL_TYPE_DATA : Byte := 2
abbrev SPRDWL_MAX_DATA_TXLEN : ℕ := 1672
abbrev IPPROTO_TCP : Byte := 6
abbrev ETH_P_ARP : List Byte := [0x08, 0x06]
abbrev ETH_P_TDLS : List Byte := [0x89, 0x0d]
abbrev ETH_P_PREAUTH : List Byte := [0x88, 0xc7]
abbrev ETH_P_IPV6 : List Byte := [0x86, 0xdd]

/-- `h_proto`, in the order of the network. -/
def hProto (frame : List Byte) : List Byte := (frame.drop 12).take 2

def isSpecialData (frame : List Byte) : Bool :=
  hProto frame = ETH_P_ARP || hProto frame = ETH_P_TDLS || hProto frame = ETH_P_PREAUTH

/-- `sprdwl_is_group` -/
def isGroup (frame : List Byte) : Bool := (frame.getD 0 0).getLsbD 0

def protocol (frame : List Byte) (o : Offload) : Byte :=
  if hProto frame = ETH_P_IPV6 then frame.getD (o.network + 6) 0 else frame.getD (o.network + 9) 0

/-- The fields of `struct tx_msdu_dscr` that are not zero. -/
structure TxMsduDscr where
  interface : BitVec 3
  swRate : Bool
  checksumOffload : Bool
  checksumType : Bool
  pktLen : BitVec 16
  staLutIndex : Byte
  tcpUdpHeaderOffset : BitVec 16

/-- `tx_ctrl`, from the lowest bit. -/
def TxMsduDscr.txCtrl (d : TxMsduDscr) : Byte :=
  BitVec.ofNat 8 (d.checksumOffload.toNat + 2 * d.checksumType.toNat + 4 * d.swRate.toNat)

def TxMsduDscr.bytes (d : TxMsduDscr) : List Byte :=
  [SPRDWL_TYPE_DATA + (d.interface.setWidth 8 <<< 5), BitVec.ofNat 8 DSCR_LEN, d.txCtrl,
    d.pktLen.setWidth 8, (d.pktLen >>> 8).setWidth 8, 0, d.staLutIndex, 0, 0,
    d.tcpUdpHeaderOffset.setWidth 8, (d.tcpUdpHeaderOffset >>> 8).setWidth 8]

/-- The descriptor of a frame, with a length. -/
def dscrOf (env : Env) (frame : List Byte) (len : ℕ) : TxMsduDscr where
  interface := env.ctxId
  swRate := isSpecialData frame
  checksumOffload := env.checksum.isSome
  checksumType := match env.checksum with
    | some o => protocol frame o = IPPROTO_TCP
    | none => false
  pktLen := BitVec.ofNat 16 len
  staLutIndex := env.lutIndex
  tcpUdpHeaderOffset := match env.checksum with
    | some o => o.transport
    | none => 0

/-- The station is not there. -/
def Refuses (env : Env) (frame : List Byte) : Prop := env.lutIndex.toNat < 6 ∧ isGroup frame = false

instance (env : Env) (frame : List Byte) : Decidable (Refuses env frame) :=
  inferInstanceAs (Decidable (_ ∧ _))

def needed (env : Env) : ℕ := DSCR_LEN + env.hifOffset + MSG_PTR_LEN + env.dscrRsvd

/-- `sprdwl_intf_fill_msdu_dscr` of a data frame; `none` is an error. A copy is not given to the caller,
who goes on with the skb that is freed. -/
def fillMsduDscr (env : Env) (s : Skb) : Except Fault (Option Skb) :=
  if s.headroom.length < needed env then
    if env.realloc = false ∨ Refuses env s.data then .ok none else .error .useAfterFree
  else if Refuses env s.data then .ok none
  else (s.push (DSCR_LEN + env.dscrRsvd)).map fun p =>
    some { p with
      data := (dscrOf env s.data (p.data.length - DSCR_LEN - env.dscrRsvd)).bytes ++
        p.data.drop DSCR_LEN }

inductive Outcome
  | refused
  /-- the bytes and the address of the message, and what the filter sees of its buffer -/
  | sent (message : List Byte) (address : ℕ) (seen : Option (List Byte))

/-- The message, and the filter at a place of the buffer; the buffer is another one if it has moved. -/
def fillMsg (s : Skb) (buf plen : ℕ) (moved : Bool) : Except Fault Outcome :=
  if MAX_TCP_ACK < plen then .ok (.sent s.data s.address none)
  else if moved then .error .useAfterFree
  else .ok (.sent s.data s.address (some ((s.buffer.drop buf).take plen)))

/-- The move to the next address that four divides. -/
def Skb.align (s : Skb) : Except Fault Skb := do
  let delta := (s.address + 3) / 4 * 4 - s.address
  let s ← s.moveUp delta
  let s ← s.pull delta
  s.put delta

variable (pad : Skb → Option (Skb × Bool))

/-- `sprdwl_send_data`; `pad` is `skb_pad` by 8 bytes, with whether the buffer is another one then. -/
def sendData (env : Env) (s : Skb) : Except Fault Outcome := do
  match ← fillMsduDscr env s with
  | none => .ok .refused
  | some filled =>
    if env.ott then
      let p ← filled.push 3
      if p.address % 4 ≠ 0 then
        match pad p with
        | none => .ok .refused
        | some (padded, moved) =>
          let a ← padded.align
          fillMsg a s.headroom.length (s.data.length % 65536) moved
      else fillMsg p s.headroom.length (s.data.length % 65536) false
    else fillMsg filled s.headroom.length (s.data.length % 65536) false

/-- What is documented of `skb_pad`: the data is the same, behind as much headroom, and has the room
behind it; in the same buffer nothing before it changes. -/
structure Pads : Prop where
  data : ∀ s s' moved, pad s = some (s', moved) → s'.data = s.data
  headroom : ∀ s s' moved, pad s = some (s', moved) → s'.headroom.length = s.headroom.length
  tailroom : ∀ s s' moved, pad s = some (s', moved) → 8 ≤ s'.tailroom.length
  same : ∀ s s', pad s = some (s', false) → s'.headroom = s.headroom ∧ s'.head = s.head

/-! ## What should be sent -/

/-- The alignment prefix, the descriptor and the frame; an aligned address; and for the filter the
bytes of the frame, if it is short enough to be looked at. -/
def Right (env : Env) (s : Skb) : Outcome → Prop
  | .refused => True
  | .sent message address seen =>
    (∃ before rsvd, before.length = (if env.ott then 3 else 0) ∧ rsvd.length = env.dscrRsvd ∧
      message = before ++ ((dscrOf env s.data s.data.length).bytes ++ (rsvd ++ s.data))) ∧
    (env.ott = true → address % 4 = 0) ∧
    seen = if MAX_TCP_ACK < s.data.length then none else some s.data

/-- The skb with the descriptor and the prefix. -/
def pushed (env : Env) (s : Skb) (n : ℕ) : Skb :=
  { s with
    headroom := s.headroom.take (s.headroom.length - (n + DSCR_LEN + env.dscrRsvd))
    data := (s.headroom.drop (s.headroom.length - (n + DSCR_LEN + env.dscrRsvd))).take n ++
      ((dscrOf env s.data s.data.length).bytes ++
        (s.headroom.drop (s.headroom.length - env.dscrRsvd) ++ s.data)) }

/-- The distance of the move. -/
def delta (address : ℕ) : ℕ := (address + 3) / 4 * 4 - address

/-- The headroom is enough or no copy is sent; and the data has not to be moved to an aligned address,
or the frame is not looked at by the filter, or it is the same behind the move. -/
structure Fine (env : Env) (s : Skb) : Prop where
  room : s.headroom.length < needed env → env.realloc = false ∨ Refuses env s.data
  aligned : needed env ≤ s.headroom.length → ¬ Refuses env s.data → env.ott = true →
    (pushed env s 3).address % 4 ≠ 0 → ∀ s' moved, pad (pushed env s 3) = some (s', moved) →
      MAX_TCP_ACK < s.data.length ∨ moved = false ∧
        ((pushed env s 3).data.drop (3 + DSCR_LEN + env.dscrRsvd - delta (pushed env s 3).address)).take
          s.data.length = s.data

/-! ## The moves -/

@[simp] theorem length_bytes (d : TxMsduDscr) : d.bytes.length = DSCR_LEN := rfl

theorem length_pushed_headroom (env : Env) (s : Skb) (n : ℕ) :
    (pushed env s n).headroom.length = s.headroom.length - (n + DSCR_LEN + env.dscrRsvd) := by
  rw [pushed]
  dsimp only
  rw [List.length_take]
  omega

theorem needed_le {env : Env} {s : Skb} (hroom : needed env ≤ s.headroom.length) :
    19 + env.dscrRsvd ≤ s.headroom.length := by
  rw [needed, show DSCR_LEN = 11 from rfl, show MSG_PTR_LEN = 8 from rfl] at hroom
  omega

theorem fillMsduDscr_room {env : Env} {s : Skb} (hroom : needed env ≤ s.headroom.length)
    (hstation : ¬ Refuses env s.data) : fillMsduDscr env s = .ok (some (pushed env s 0)) := by
  have hneeded := needed_le hroom
  have hdscr : DSCR_LEN = 11 := rfl
  have hcount : (s.headroom.drop (s.headroom.length - (DSCR_LEN + env.dscrRsvd)) ++ s.data).length -
      DSCR_LEN - env.dscrRsvd = s.data.length := by
    rw [List.length_append, List.length_drop]
    omega
  have hbehind : (s.headroom.drop (s.headroom.length - (DSCR_LEN + env.dscrRsvd)) ++ s.data).drop
      DSCR_LEN = s.headroom.drop (s.headroom.length - env.dscrRsvd) ++ s.data := by
    rw [List.drop_append_of_le_length (by rw [List.length_drop]; omega), List.drop_drop]
    congr 2
    omega
  rw [fillMsduDscr, if_neg (by omega), if_neg hstation, Skb.push, if_neg (by omega), pushed]
  simp only [Except.map, hcount, hbehind, List.take_zero, List.nil_append, Nat.zero_add]

theorem push_pushed {env : Env} {s : Skb} (hroom : needed env ≤ s.headroom.length) :
    (pushed env s 0).push 3 = .ok (pushed env s 3) := by
  have hneeded := needed_le hroom
  have hdscr : DSCR_LEN = 11 := rfl
  have hlength := length_pushed_headroom env s 0
  rw [Skb.push, if_neg (by omega), hlength]
  simp only [pushed, List.take_zero, List.nil_append, Nat.zero_add, List.take_take, List.drop_take]
  congr 2
  · congr 1
    omega
  · rw [show s.headroom.length - (DSCR_LEN + env.dscrRsvd) -
        (s.headroom.length - (DSCR_LEN + env.dscrRsvd) - 3) = 3 by omega,
      show s.headroom.length - (DSCR_LEN + env.dscrRsvd) - 3 =
        s.headroom.length - (3 + DSCR_LEN + env.dscrRsvd) by omega]

/-- The move keeps the data and takes the room from behind it. -/
theorem align_eq {s : Skb} (hdata : delta s.address ≤ s.data.length)
    (htail : delta s.address ≤ s.tailroom.length) :
    s.align = .ok { s with
      headroom := s.headroom ++ s.data.take (delta s.address)
      tailroom := s.tailroom.drop (delta s.address) } := by
  have htake : (s.data.take (delta s.address)).length = delta s.address := by
    rw [List.length_take]
    omega
  have hmoved : (s.data.take (delta s.address) ++ s.data).take s.data.length =
      s.data.take (delta s.address) ++ s.data.take (s.data.length - delta s.address) := by
    rw [List.take_append, htake, List.take_of_length_le (by omega)]
  have hbehind : (s.data.take (delta s.address) ++ s.data).drop s.data.length =
      s.data.drop (s.data.length - delta s.address) := by
    rw [List.drop_append, htake, List.drop_of_length_le (by omega), List.nil_append]
  have hrest : (s.data.drop (s.data.length - delta s.address)).length = delta s.address := by
    rw [List.length_drop]
    omega
  have hmove : s.moveUp (delta s.address) = .ok { s with
      data := s.data.take (delta s.address) ++ s.data.take (s.data.length - delta s.address)
      tailroom := s.data.drop (s.data.length - delta s.address) ++
        s.tailroom.drop (delta s.address) } := by
    rw [Skb.moveUp, if_neg (by omega), hmoved, hbehind]
  have hpull : (Skb.mk s.head s.headroom
        (s.data.take (delta s.address) ++ s.data.take (s.data.length - delta s.address))
        (s.data.drop (s.data.length - delta s.address) ++ s.tailroom.drop (delta s.address))).pull
          (delta s.address) = .ok ⟨s.head, s.headroom ++ s.data.take (delta s.address),
        s.data.take (s.data.length - delta s.address),
        s.data.drop (s.data.length - delta s.address) ++ s.tailroom.drop (delta s.address)⟩ := by
    rw [Skb.pull, if_neg (by rw [List.length_append]; omega)]
    dsimp only
    rw [List.take_left' htake, List.drop_left' htake]
  have hput : (Skb.mk s.head (s.headroom ++ s.data.take (delta s.address))
        (s.data.take (s.data.length - delta s.address))
        (s.data.drop (s.data.length - delta s.address) ++ s.tailroom.drop (delta s.address))).put
          (delta s.address) = .ok ⟨s.head, s.headroom ++ s.data.take (delta s.address), s.data,
        s.tailroom.drop (delta s.address)⟩ := by
    rw [Skb.put, if_neg (by rw [List.length_append]; omega)]
    dsimp only
    rw [List.take_left' hrest, List.drop_left' hrest, List.take_append_drop]
  rw [Skb.align]
  change (s.moveUp (delta s.address) >>= _) = _
  rw [hmove]
  change (Skb.pull _ (delta s.address) >>= _) = _
  rw [hpull]
  exact hput

theorem delta_le (address : ℕ) : delta address ≤ 3 := by
  rw [delta]
  omega

theorem add_delta_mod (address : ℕ) : (address + delta address) % 4 = 0 := by
  rw [delta]
  omega

/-! ## The message -/

variable {env : Env} {s : Skb}

theorem length_before {n : ℕ} (h : n + DSCR_LEN + env.dscrRsvd ≤ s.headroom.length) :
    ((s.headroom.drop (s.headroom.length - (n + DSCR_LEN + env.dscrRsvd))).take n).length = n := by
  rw [List.length_take, List.length_drop]
  omega

theorem length_rsvd (h : env.dscrRsvd ≤ s.headroom.length) :
    (s.headroom.drop (s.headroom.length - env.dscrRsvd)).length = env.dscrRsvd := by
  rw [List.length_drop]
  omega

/-- The data behind the prefix and the descriptor is the frame. -/
theorem drop_pushed {n : ℕ} (h : n + DSCR_LEN + env.dscrRsvd ≤ s.headroom.length) (rest : List Byte) :
    ((pushed env s n).data ++ rest).drop (n + DSCR_LEN + env.dscrRsvd) = s.data ++ rest := by
  have hprefix := length_before h
  have hrsvd := length_rsvd (show env.dscrRsvd ≤ s.headroom.length by omega)
  rw [pushed]
  dsimp only
  generalize (s.headroom.drop (s.headroom.length - (n + DSCR_LEN + env.dscrRsvd))).take n = before
    at hprefix
  generalize s.headroom.drop (s.headroom.length - env.dscrRsvd) = rsvd at hrsvd
  rw [List.append_assoc, List.append_assoc, List.append_assoc, Nat.add_assoc, ← List.drop_drop,
    List.drop_left' hprefix, ← List.drop_drop, List.drop_left' (length_bytes _),
    List.drop_left' hrsvd]

theorem length_pushed_data {n : ℕ} (h : n + DSCR_LEN + env.dscrRsvd ≤ s.headroom.length) :
    (pushed env s n).data.length = n + DSCR_LEN + env.dscrRsvd + s.data.length := by
  have hdscr : DSCR_LEN = 11 := rfl
  rw [pushed]
  dsimp only
  rw [List.length_append, List.length_append, List.length_append, length_before h, length_bytes,
    length_rsvd (by omega)]
  omega

/-- The pointer from before finds the frame. -/
theorem seen_pushed {n : ℕ} (h : n + DSCR_LEN + env.dscrRsvd ≤ s.headroom.length) :
    ((pushed env s n).buffer.drop s.headroom.length).take s.data.length = s.data := by
  have hlength := length_pushed_headroom env s n
  rw [Skb.buffer, List.drop_append, List.drop_of_length_le (by omega), List.nil_append,
    show s.headroom.length - (pushed env s n).headroom.length = n + DSCR_LEN + env.dscrRsvd by omega,
    drop_pushed h]
  exact List.take_left

/-- Behind a move it finds what stands that much before. -/
theorem seen_moved {p : Skb} (h : 3 + DSCR_LEN + env.dscrRsvd ≤ s.headroom.length)
    (hdata : p.data = (pushed env s 3).data) (hheadroom : p.headroom = (pushed env s 3).headroom)
    {k : ℕ} (hk : k ≤ 3) :
    ((Skb.mk p.head (p.headroom ++ p.data.take k) p.data (p.tailroom.drop k)).buffer.drop
      s.headroom.length).take s.data.length =
        ((pushed env s 3).data.drop (3 + DSCR_LEN + env.dscrRsvd - k)).take s.data.length := by
  have hdscr : DSCR_LEN = 11 := rfl
  have hlength := length_pushed_headroom env s 3
  have hcount := length_pushed_data h
  have htake : ((pushed env s 3).data.take k).length = k := by
    rw [List.length_take]
    omega
  rw [Skb.buffer]
  dsimp only
  rw [hdata, hheadroom, List.append_assoc, List.drop_append, List.drop_of_length_le (by omega),
    List.nil_append, List.drop_append, htake, List.drop_of_length_le (by omega), List.nil_append,
    show s.headroom.length - (pushed env s 3).headroom.length - k =
      3 + DSCR_LEN + env.dscrRsvd - k by omega,
    List.drop_append_of_le_length (by omega),
    List.take_append_of_le_length (by rw [List.length_drop]; omega)]

/-- A message at an address, with what the filter sees of its buffer. -/
def Sends (env : Env) (s : Skb) (x : Except Fault Outcome) : Prop := ∃ o, x = .ok o ∧ Right env s o

theorem sends_ok {o : Outcome} : Sends env s (.ok o) ↔ Right env s o :=
  ⟨fun ⟨_, h, hr⟩ => Except.ok.inj h ▸ hr, fun h => ⟨o, rfl, h⟩⟩

theorem sends_error {f : Fault} : ¬ Sends env s (.error f) := by
  rintro ⟨o, h, -⟩
  cases h

/-- The message is the one it should be; what is left is the filter. -/
theorem sends_fillMsg {p : Skb} {n plen : ℕ} {moved : Bool}
    (hn : n = if env.ott then 3 else 0) (h : n + DSCR_LEN + env.dscrRsvd ≤ s.headroom.length)
    (hdata : p.data = (pushed env s n).data) (haddress : env.ott = true → p.address % 4 = 0)
    (hplen : plen = s.data.length) :
    Sends env s (fillMsg p s.headroom.length plen moved) ↔
      MAX_TCP_ACK < s.data.length ∨ moved = false ∧
        (p.buffer.drop s.headroom.length).take s.data.length = s.data := by
  have hmessage : ∃ before rsvd : List Byte, before.length = (if env.ott then 3 else 0) ∧
      rsvd.length = env.dscrRsvd ∧
      p.data = before ++ ((dscrOf env s.data s.data.length).bytes ++ (rsvd ++ s.data)) :=
    ⟨_, _, (length_before h).trans hn, length_rsvd (by omega), hdata⟩
  rw [fillMsg, hplen]
  by_cases hlong : MAX_TCP_ACK < s.data.length
  · rw [if_pos hlong, sends_ok, Right, if_pos hlong]
    exact ⟨fun _ => .inl hlong, fun _ => ⟨hmessage, haddress, rfl⟩⟩
  · rw [if_neg hlong, or_iff_right hlong]
    cases moved with
    | true =>
      rw [if_pos rfl]
      exact ⟨fun h => absurd h sends_error, fun h => (by cases h.1)⟩
    | false =>
      rw [if_neg Bool.false_ne_true, sends_ok, Right, if_neg hlong, and_iff_right rfl]
      exact ⟨fun h => Option.some.inj h.2.2, fun h => ⟨hmessage, haddress, congrArg some h⟩⟩

/-- The move keeps the message right; the filter sees what stands before the frame, unless the buffer
is another one. -/
theorem sends_align {p : Skb} {moved : Bool} (hpad : Pads pad) (hott : env.ott = true)
    (hroom : needed env ≤ s.headroom.length) (hresult : pad (pushed env s 3) = some (p, moved)) :
    Sends env s (p.align >>= fun a => fillMsg a s.headroom.length s.data.length moved) ↔
      MAX_TCP_ACK < s.data.length ∨ moved = false ∧
        ((pushed env s 3).data.drop (3 + DSCR_LEN + env.dscrRsvd - delta (pushed env s 3).address)).take
          s.data.length = s.data := by
  have hneeded := needed_le hroom
  have hdscr : DSCR_LEN = 11 := rfl
  have hdata := hpad.data _ _ _ hresult
  have htail := hpad.tailroom _ _ _ hresult
  have hcount := length_pushed_data
    (show 3 + DSCR_LEN + env.dscrRsvd ≤ s.headroom.length by omega)
  have hdelta := delta_le p.address
  have haligned := add_delta_mod p.address
  rw [align_eq (s := p) (by rw [hdata]; omega) (by omega)]
  change Sends env s (fillMsg _ _ _ moved) ↔ _
  rw [sends_fillMsg (p := ⟨p.head, p.headroom ++ p.data.take (delta p.address), p.data,
    p.tailroom.drop (delta p.address)⟩) (n := 3) (by rw [if_pos hott]) (by omega) hdata ?_ rfl]
  · refine or_congr_right (and_congr_right ?_)
    rintro rfl
    obtain ⟨hheadroom, hhead⟩ := hpad.same _ _ hresult
    have hsame : p.address = (pushed env s 3).address := by
      rw [Skb.address, Skb.address, hheadroom, hhead]
    rw [seen_moved (by omega) hdata hheadroom hdelta, hsame]
  · intro _
    have htake : (p.data.take (delta p.address)).length = delta p.address := by
      rw [List.length_take, hdata]
      omega
    rw [Skb.address, List.length_append, htake, ← Nat.add_assoc]
    exact haligned

/-- What is sent is the descriptor and the frame, at an address the build asks for, and the filter sees
the frame, exactly under the conditions. -/
theorem send_frame_iff (hpad : Pads pad) (hlen : s.data.length ≤ SPRDWL_MAX_DATA_TXLEN) :
    (∃ o, sendData pad env s = .ok o ∧ Right env s o) ↔ Fine pad env s := by
  change Sends env s (sendData pad env s) ↔ _
  have hplen : s.data.length % 65536 = s.data.length := by
    rw [show SPRDWL_MAX_DATA_TXLEN = 1672 from rfl] at hlen
    omega
  have hdscr : DSCR_LEN = 11 := rfl
  by_cases hroom : s.headroom.length < needed env
  · rw [sendData, fillMsduDscr, if_pos hroom]
    by_cases hnone : env.realloc = false ∨ Refuses env s.data
    · rw [if_pos hnone]
      exact ⟨fun _ => ⟨fun _ => hnone, fun h => absurd hroom (by omega)⟩,
        fun _ => sends_ok.mpr True.intro⟩
    · rw [if_neg hnone]
      exact ⟨fun h => absurd h sends_error, fun h => absurd (h.room hroom) hnone⟩
  have hneeded := needed_le (Nat.le_of_not_lt hroom)
  by_cases hstation : Refuses env s.data
  · rw [sendData, fillMsduDscr, if_neg hroom, if_pos hstation]
    exact ⟨fun _ => ⟨fun h => absurd h hroom, fun _ h => absurd hstation h⟩,
      fun _ => sends_ok.mpr True.intro⟩
  rw [sendData, fillMsduDscr_room (by omega) hstation, hplen]
  change Sends env s (if env.ott = true then _ else _) ↔ _
  by_cases hott : env.ott = true
  · rw [if_pos hott, push_pushed (by omega)]
    change Sends env s (if (pushed env s 3).address % 4 ≠ 0 then _ else _) ↔ _
    by_cases haddress : (pushed env s 3).address % 4 ≠ 0
    · rw [if_pos haddress]
      cases hresult : pad (pushed env s 3) with
      | none =>
        exact ⟨fun _ => ⟨fun h => absurd h hroom, fun _ _ _ _ s' moved h => (by simp [hresult] at h)⟩,
          fun _ => sends_ok.mpr True.intro⟩
      | some r =>
        obtain ⟨p, moved⟩ := r
        dsimp only
        rw [sends_align pad hpad hott (by omega) hresult]
        constructor
        · intro h
          refine ⟨fun h => absurd h hroom, fun _ _ _ _ s' moved' h' => ?_⟩
          obtain ⟨rfl, rfl⟩ := Prod.mk.inj (Option.some.inj (hresult.symm.trans h'))
          exact h
        · exact fun h => h.aligned (by omega) hstation hott haddress p moved hresult
    · rw [if_neg haddress, sends_fillMsg (n := 3) (by rw [if_pos hott]) (by omega) rfl
        (fun _ => by omega) rfl]
      exact ⟨fun _ => ⟨fun h => absurd h hroom, fun _ _ _ h => absurd h haddress⟩,
        fun _ => .inr ⟨rfl, seen_pushed (by omega)⟩⟩
  · rw [if_neg hott, sends_fillMsg (n := 0) (by rw [if_neg hott]) (by omega) rfl
      (fun h => absurd h hott) rfl]
    exact ⟨fun _ => ⟨fun h => absurd h hroom, fun _ _ h => absurd h hott⟩,
      fun _ => .inr ⟨rfl, seen_pushed (by omega)⟩⟩

/-- The padding in the buffer, or in another one behind an address that is a multiple of 64. -/
def padTail (s : Skb) : Option (Skb × Bool) :=
  if 8 ≤ s.tailroom.length then
    some ({ s with tailroom := List.replicate 8 0 ++ s.tailroom.drop 8 }, false)
  else some ({ s with head := (s.head + 64) / 64 * 64, tailroom := List.replicate 8 0 }, true)

theorem padTail_eq {s s' : Skb} {moved : Bool} (h : padTail s = some (s', moved)) :
    s'.data = s.data ∧ s'.headroom = s.headroom ∧ 8 ≤ s'.tailroom.length ∧
      (moved = false → s'.head = s.head) := by
  rw [padTail] at h
  split at h
  · obtain ⟨rfl, rfl⟩ := Prod.mk.inj (Option.some.inj h)
    refine ⟨rfl, rfl, ?_, fun _ => rfl⟩
    rw [List.length_append, List.length_replicate]
    omega
  · obtain ⟨rfl, rfl⟩ := Prod.mk.inj (Option.some.inj h)
    exact ⟨rfl, rfl, (List.length_replicate).ge, fun h => (by cases h)⟩

theorem padTail_pads : Pads padTail where
  data _ _ _ h := (padTail_eq h).1
  headroom _ _ _ h := congrArg List.length (padTail_eq h).2.1
  tailroom _ _ _ h := (padTail_eq h).2.2.1
  same _ _ h := ⟨(padTail_eq h).2.1, (padTail_eq h).2.2.2 rfl⟩

/-- The build with the move, and a station. -/
def ottEnv : Env := ⟨true, false, 0, 0, 6, none, false⟩

/-- A frame of ones with the headroom that is needed, in a buffer at an address. -/
def ones (head : ℕ) : Skb :=
  ⟨head, List.replicate 19 0, List.replicate 14 1, List.replicate 8 0⟩

theorem send_frame_iff_aligned :
    ∃ o, sendData padTail ottEnv (ones 3) = .ok o ∧ Right ottEnv (ones 3) o :=
  (send_frame_iff padTail padTail_pads (by decide)).mpr
    ⟨fun h => absurd h (by decide), fun _ _ _ h => absurd h (by decide)⟩

/-- Moved by three bytes, the filter sees the end of the descriptor first. -/
theorem descriptor_seen :
    ¬ ∃ o, sendData padTail ottEnv (ones 0) = .ok o ∧ Right ottEnv (ones 0) o := by
  rintro ⟨o, ho, hright⟩
  cases ho
  exact absurd hright.2.2 (by decide)

end Uwe5631.SendFrame
