import Uwe5631.MachineIntegers
import Uwe5631.FallibleRuns

/-!
# TCP acknowledgements on the wire

The functions of `tcp_ack.c` that read an Ethernet frame. A frame is the memory from its
first byte on, as far as the code may read; a read beyond it is a `Fault`. Fields that are
only compared, never computed with, are read in network order.
-/
namespace Uwe5631.TcpAck
open FallibleRuns

abbrev Byte := BitVec 8

inductive Fault where
  /-- A read beyond the memory of the frame. -/
  | frameRead
  deriving DecidableEq, Repr

def byteAt (buf : List Byte) (offset : ℕ) : Except Fault Byte :=
  match buf[offset]? with
  | some b => .ok b
  | none => .error .frameRead

/-- `ntohs` of a field of two bytes. -/
def be16 (buf : List Byte) (offset : ℕ) : Except Fault (BitVec 16) :=
  (byteAt buf offset).bind fun hi => (byteAt buf (offset + 1)).map fun lo => hi ++ lo

/-- `ntohl` of a field of four bytes. -/
def be32 (buf : List Byte) (offset : ℕ) : Except Fault (BitVec 32) :=
  (be16 buf offset).bind fun hi => (be16 buf (offset + 2)).map fun lo => hi ++ lo

/-- `struct sprdwl_tcp_ack_msg` -/
structure AckMsg where
  source : BitVec 16
  dest : BitVec 16
  saddr : BitVec 32
  daddr : BitVec 32
  seq : BitVec 32
  win : BitVec 16
  deriving DecidableEq, Repr

/-- The comparison of `sprdwl_tcp_ack_match`. -/
def AckMsg.sameFlow (a b : AckMsg) : Bool :=
  a.dest == b.dest && a.source == b.source && a.saddr == b.saddr && a.daddr == b.daddr

/-- `SPRDWL_U32_BEFORE` -/
def u32Before (a b : BitVec 32) : Bool := decide ((a - b).toInt ≤ 0)

theorem AckMsg.sameFlow_iff {a b : AckMsg} : a.sameFlow b = true ↔
    a.dest = b.dest ∧ a.source = b.source ∧ a.saddr = b.saddr ∧ a.daddr = b.daddr := by
  simp [AckMsg.sameFlow, and_assoc]

theorem AckMsg.sameFlow_comm {a b : AckMsg} (h : a.sameFlow b = true) : b.sameFlow a = true := by
  simp only [AckMsg.sameFlow_iff] at h ⊢
  exact ⟨h.1.symm, h.2.1.symm, h.2.2.1.symm, h.2.2.2.symm⟩

theorem AckMsg.sameFlow_trans {a b c : AckMsg} (h : a.sameFlow b = true)
    (h' : b.sameFlow c = true) : a.sameFlow c = true := by
  simp only [AckMsg.sameFlow_iff] at h h' ⊢
  exact ⟨h.1.trans h'.1, h.2.1.trans h'.2.1, h.2.2.1.trans h'.2.2.1, h.2.2.2.trans h'.2.2.2⟩

/-- Of two numbers one is before the other; both, if they are half the circle apart. -/
theorem u32Before_of_not {a b : BitVec 32} (h : u32Before a b = false) : u32Before b a = true := by
  simp only [u32Before, decide_eq_false_iff_not, decide_eq_true_eq, BitVec.toInt_sub,
    Int.bmod_def] at h ⊢
  omega

/-! ## Headers -/

def ETH_P_IP : BitVec 16 := 0x0800
def IPPROTO_TCP : Byte := 6

/-- `sizeof(struct ethhdr)`, the offset of the IP header. -/
def ipOffset : ℕ := 14

/-- The offset of the TCP header, `iphdr->ihl * 4` bytes behind the start of the IP header;
`none` if the frame is not IPv4 with TCP. -/
def tcpOffset (buf : List Byte) : Except Fault (Option ℕ) :=
  (be16 buf 12).bind fun proto =>
    if proto ≠ ETH_P_IP then .ok none
    else (byteAt buf ipOffset).bind fun versionIhl =>
      (byteAt buf (ipOffset + 9)).map fun protocol =>
        if versionIhl.extractLsb' 4 4 ≠ 4#4 ∨ protocol ≠ IPPROTO_TCP then none
        else some (ipOffset + (versionIhl.extractLsb' 0 4).toNat * 4)

/-- The flags byte, `temp[13]`. -/
def tcpFlags (buf : List Byte) (tcp : ℕ) : Except Fault Byte := byteAt buf (tcp + 13)

/-- `sprdwl_tcp_check_quick_ack`: for a received segment that is pushed, the flow its
acknowledgement will have and its sequence number. -/
def sprdwlTcpCheckQuickAck (buf : List Byte) : Except Fault (Option AckMsg) :=
  (tcpOffset buf).bind fun
    | none => .ok none
    | some tcp => (tcpFlags buf tcp).bind fun flags =>
      if flags &&& 0x10 = 0 then .ok none
      else if flags &&& 0x8 = 0 then .ok none
      else
        (be32 buf (ipOffset + 12)).bind fun saddr =>
        (be32 buf (ipOffset + 16)).bind fun daddr =>
        (be16 buf tcp).bind fun source =>
        (be16 buf (tcp + 2)).bind fun dest =>
        (be32 buf (tcp + 4)).map fun seq =>
          some { source := dest, dest := source, saddr := daddr, daddr := saddr, seq := seq,
                 win := 0 }

/-! ## The options of an acknowledgement -/

def TCPOPT_EOL : Byte := 0
def TCPOPT_NOP : Byte := 1
def TCPOPT_WINDOW : Byte := 3
def TCPOPT_TIMESTAMP : Byte := 8

/-- The loop of `is_drop_tcp_ack`. The list is the memory from `ptr` on, of which `skip`
bytes are still to be passed over (`ptr += opsize - 2`). `TCPOPT_EOL` and an option size
that does not fit leave the `switch`, not the loop, and keep `len`. -/
def optionLoop : List Byte → ℕ → ℕ → ℕ → ℕ → Except Fault (ℕ × ℕ)
  | _, _, 0, drop, winScale => .ok (drop, winScale)
  | [], _, _ + 1, _, _ => .error .frameRead
  | _ :: ptr, skip + 1, len + 1, drop, winScale => optionLoop ptr skip (len + 1) drop winScale
  | opcode :: ptr, 0, len + 1, drop, winScale =>
    if opcode = TCPOPT_EOL then optionLoop ptr 0 (len + 1) drop winScale
    else if opcode = TCPOPT_NOP then optionLoop ptr 0 len drop winScale
    else
      match ptr with
      | [] => .error .frameRead
      | opsize :: ptr =>
        let size := opsize.toNat
        if size < 2 ∨ len + 1 < size then optionLoop ptr 0 (len + 1) drop winScale
        else if opcode = TCPOPT_TIMESTAMP then
          optionLoop ptr (size - 2) (len + 1 - size) drop winScale
        else if opcode = TCPOPT_WINDOW then
          match ptr with
          | [] => .error .frameRead
          | shift :: ptr' =>
            optionLoop (shift :: ptr') (size - 2) (len + 1 - size) drop
              (if shift.toNat < 15 then 1 <<< shift.toNat else winScale)
        else optionLoop ptr (size - 2) (len + 1 - size) 2 winScale

/-- `is_drop_tcp_ack` with `win_scale` 0: what it returns and the `win_scale` it leaves. -/
def isDropTcpAck (buf : List Byte) (tcp : ℕ) (tcpTotLen : ℤ) : Except Fault (ℕ × ℕ) :=
  (byteAt buf (tcp + 12)).bind fun doff =>
    if ((doff.extractLsb' 4 4).toNat * 4 : ℤ) < tcpTotLen then .ok (0, 0)
    else optionLoop (buf.drop (tcp + 20)) 0 ((doff.extractLsb' 4 4).toNat * 4 - 20) 1 0

/-- What `sprdwl_tcp_check_ack` returns and writes; `msg` is not written when `drop` is 0. -/
structure CheckedAck where
  drop : ℕ
  winScale : ℕ
  msg : AckMsg
  deriving DecidableEq, Repr

/-- The frame is no acknowledgement. -/
def CheckedAck.none : CheckedAck := ⟨0, 0, ⟨0, 0, 0, 0, 0, 0⟩⟩

def sprdwlTcpCheckAck (buf : List Byte) : Except Fault CheckedAck :=
  (tcpOffset buf).bind fun
    | .none => .ok .none
    | some tcp => (tcpFlags buf tcp).bind fun flags =>
      if flags &&& 0x10 = 0 then .ok .none
      else
        (be16 buf (ipOffset + 2)).bind fun totLen =>
        (isDropTcpAck buf tcp ((totLen.toNat : ℤ) - (tcp - ipOffset : ℕ))).bind fun
          | (0, winScale) => .ok { CheckedAck.none with winScale := winScale }
          | (drop + 1, winScale) =>
            (be32 buf (ipOffset + 12)).bind fun saddr =>
            (be32 buf (ipOffset + 16)).bind fun daddr =>
            (be16 buf tcp).bind fun source =>
            (be16 buf (tcp + 2)).bind fun dest =>
            (be32 buf (tcp + 8)).bind fun seq =>
            (be16 buf (tcp + 14)).map fun win =>
              ⟨drop + 1, winScale, ⟨source, dest, saddr, daddr, seq, win⟩⟩

/-- The loop does not take back that the acknowledgement may be dropped. -/
theorem optionLoop_drop {ptr : List Byte} {skip len drop winScale d w : ℕ}
    (h : optionLoop ptr skip len drop winScale = .ok (d, w)) (hdrop : drop ≠ 0) : d ≠ 0 := by
  fun_induction optionLoop ptr skip len drop winScale with
  | case1 =>
    cases h
    exact hdrop
  | case2 | case6 | case9 => cases h
  | case3 | case4 | case5 | case7 | case8 | case10 =>
    rename_i ih
    exact ih h hdrop
  | case11 =>
    rename_i ih
    exact ih h (by decide)

theorem isDropTcpAck_zero {buf : List Byte} {tcp w : ℕ} {tcpTotLen : ℤ}
    (h : isDropTcpAck buf tcp tcpTotLen = .ok (0, w)) : w = 0 := by
  obtain ⟨doff, _, h⟩ := bind_eq_ok.mp h
  split at h
  · cases h
    rfl
  · exact absurd rfl (optionLoop_drop h (by decide))

/-- A call leaves the filter before it reads a `msg` that was not written. -/
theorem sprdwlTcpCheckAck_unset {buf : List Byte} {c : CheckedAck}
    (h : sprdwlTcpCheckAck buf = .ok c) (hdrop : c.drop = 0) : c.winScale = 0 := by
  obtain ⟨tcp, _, h⟩ := bind_eq_ok.mp h
  cases tcp with
  | none =>
    cases h
    rfl
  | some tcp =>
    obtain ⟨flags, _, h⟩ := bind_eq_ok.mp h
    split at h
    · cases h
      rfl
    · obtain ⟨totLen, _, h⟩ := bind_eq_ok.mp h
      obtain ⟨⟨drop, winScale⟩, hwalk, h⟩ := bind_eq_ok.mp h
      cases drop with
      | zero =>
        cases h
        exact isDropTcpAck_zero hwalk
      | succ drop =>
        simp only [bind_eq_ok, map_eq_ok] at h
        rcases h with ⟨_, _, _, _, _, _, _, _, _, _, _, _, rfl⟩
        cases hdrop

/-- The flow and the number a frame acknowledges, if the filter handles it. -/
def ackOf (buf : List Byte) : Option AckMsg :=
  match sprdwlTcpCheckAck buf with
  | .ok c => if c.drop = 0 then none else some c.msg
  | .error _ => none

theorem ackOf_eq {buf : List Byte} {c : CheckedAck} (h : sprdwlTcpCheckAck buf = .ok c)
    (hdrop : c.drop ≠ 0) : ackOf buf = some c.msg := by
  rw [ackOf, h]
  exact if_neg hdrop

end Uwe5631.TcpAck
