import Uwe5631.OnesComplement
import Mathlib.Data.BitVec

/-!
# The check sums of packets that go by command

`do_csum` adds words of 32 bits at aligned addresses. `sprdwl_mc_pkt_checksum` and
`sprdwl_tx_filter_ip_pkt` complete the check sum of UDP with it, on a little-endian machine.
-/
namespace Uwe5631.DoCsum
open OnesComplement

abbrev Byte := BitVec 8

/-- `*(unsigned short *) buff` -/
def short (b0 b1 : Byte) : BitVec 32 := BitVec.ofNat 32 (b0.toNat + 256 * b1.toNat)

/-- `*(unsigned int *) buff` -/
def word (b0 b1 b2 b3 : Byte) : BitVec 32 :=
  BitVec.ofNat 32 (b0.toNat + 256 * b1.toNat + 65536 * b2.toNat + 16777216 * b3.toNat)

/-- `(x & 0xffff) + (x >> 16)` -/
def halves (x : BitVec 32) : BitVec 32 := (x &&& 0xffff#32) + (x >>> 16)

def from32to16 (x : BitVec 32) : BitVec 16 := (halves (halves x)).setWidth 16

/-- The byte at an odd address, with the bytes behind it. -/
def oddByte (odd : Bool) : List Byte → BitVec 32 × List Byte
  | b :: rest => if odd then (b.setWidth 32 <<< 8, rest) else (0, b :: rest)
  | [] => (0, [])

/-- The two bytes before an address that four divides. -/
def firstShort (unaligned : Bool) (result : BitVec 32) : List Byte → BitVec 32 × List Byte
  | b0 :: b1 :: rest => if unaligned then (result + short b0 b1, rest) else (result, b0 :: b1 :: rest)
  | rest => (result, rest)

/-- The loop over words; `carry` is that of the addition before. -/
def wordLoop : List Byte → BitVec 32 → BitVec 32 → BitVec 32 × List Byte
  | b0 :: b1 :: b2 :: b3 :: rest, result, carry =>
    wordLoop rest (result + carry + word b0 b1 b2 b3)
      (if result + carry + word b0 b1 b2 b3 < word b0 b1 b2 b3 then 1 else 0)
  | rest, result, carry => (result + carry, rest)

def words (result : BitVec 32) (bs : List Byte) : BitVec 32 × List Byte :=
  if 4 ≤ bs.length then (halves (wordLoop bs result 0).1, (wordLoop bs result 0).2)
  else (result, bs)

/-- What is left: two bytes, one or none. -/
def lastBytes (result : BitVec 32) : List Byte → BitVec 32
  | b0 :: b1 :: rest =>
    match rest with
    | b :: _ => result + short b0 b1 + b.setWidth 32
    | [] => result + short b0 b1
  | [b] => result + b.setWidth 32
  | [] => result

/-- `((result >> 8) & 0xff) | ((result & 0xff) << 8)` -/
def swap (x : BitVec 16) : BitVec 16 := (x >>> 8 &&& 0xff#16) ||| ((x &&& 0xff#16) <<< 8)

/-- The sum before it is folded, of bytes that start at an address. -/
def rawSum (addr : ℕ) (bs : List Byte) : BitVec 32 :=
  let s₁ := oddByte (addr % 2 == 1) bs
  let s₂ := firstShort ((addr + addr % 2) / 2 % 2 == 1) s₁.1 s₁.2
  let s₃ := words s₂.1 s₂.2
  lastBytes s₃.1 s₃.2

/-- `do_csum` -/
def doCsum (addr : ℕ) (bs : List Byte) : BitVec 16 :=
  if addr % 2 == 1 then swap (from32to16 (rawSum addr bs)) else from32to16 (rawSum addr bs)

/-- `skb->ip_summed` -/
inductive IpSummed where
  | checksumNone
  | checksumPartial
  | other
  deriving DecidableEq, Repr

structure Skb where
  /-- the address of the data -/
  addr : ℕ
  data : List Byte
  ipSummed : IpSummed
  deriving DecidableEq, Repr

def ETHER_HDR_LEN : ℕ := 14
def IPV6_HDR_LEN : ℕ := 40
def IPPROTO_TCP : Byte := 6
def IPPROTO_UDP : Byte := 17
/-- `offsetof(struct udphdr, check)` -/
def UDP_CHECK : ℕ := 6
/-- `offsetof(struct tcphdr, check)` -/
def TCP_CHECK : ℕ := 16

/-- A store of 16 bits. -/
def storeShort (data : List Byte) (i : ℕ) (x : BitVec 16) : List Byte :=
  (data.set i (x.setWidth 8)).set (i + 1) ((x >>> 8).setWidth 8)

/-- The check sum of what starts at `off` is stored there at `check`. -/
def Skb.complete (s : Skb) (off check : ℕ) : Skb :=
  { s with
    data := storeShort s.data (off + check) (~~~ doCsum (s.addr + off) (s.data.drop off))
    ipSummed := .checksumNone }

/-- `sprdwl_mc_pkt_checksum` -/
def mcPktChecksum (s : Skb) : ℤ × Skb :=
  if s.ipSummed = .checksumPartial then
    if s.data.getD (ETHER_HDR_LEN + 6) 0 = IPPROTO_UDP then
      (0, s.complete (ETHER_HDR_LEN + IPV6_HDR_LEN) UDP_CHECK)
    else if s.data.getD (ETHER_HDR_LEN + 6) 0 = IPPROTO_TCP then
      (0, s.complete (ETHER_HDR_LEN + IPV6_HDR_LEN) TCP_CHECK)
    else (1, s)
  else (1, s)

/-- A 16-bit number of the packet, high byte first. -/
def netShort (data : List Byte) (i : ℕ) : ℕ :=
  256 * (data.getD i 0).toNat + (data.getD (i + 1) 0).toNat

def ETH_P_IP : ℕ := 0x0800
def ETH_P_IPV6 : ℕ := 0x86dd
def DHCP_SERVER_PORT : ℕ := 0x0043
def DHCP_CLIENT_PORT : ℕ := 0x0044
def DHCP_SERVER_PORT_IPV6 : ℕ := 0x0223
def DHCP_CLIENT_PORT_IPV6 : ℕ := 0x0222
def VOWIFI_SIP_DSCP : ℕ := 0x1a
def VOWIFI_IKE_DSCP : ℕ := 0x30
def VOWIFI_IKE_SIP_PORT : ℕ := 4500
def VOWIFI_IKE_ONLY_PORT : ℕ := 500

/-- `iphdr->ihl * 4` -/
def ihlLen (data : List Byte) : ℕ := (data.getD ETHER_HDR_LEN 0).toNat % 16 * 4

/-- The length of the IP header of a UDP packet. -/
def ipHdrLen (data : List Byte) : Option ℕ :=
  if netShort data 12 = ETH_P_IPV6 then
    if data.getD (ETHER_HDR_LEN + 6) 0 = IPPROTO_UDP then some IPV6_HDR_LEN else none
  else if netShort data 12 = ETH_P_IP then
    if data.getD (ETHER_HDR_LEN + 9) 0 = IPPROTO_UDP then some (ihlLen data) else none
  else none

/-- `is_vowifi_pkt` and whether the packet goes by command. -/
def isVowifi2cmd (data : List Byte) : Bool :=
  if netShort data 12 = ETH_P_IP ∧ data.getD (ETHER_HDR_LEN + 9) 0 = IPPROTO_UDP then
    let dest := netShort data (ETHER_HDR_LEN + ihlLen data + 2)
    let dscp := (data.getD (ETHER_HDR_LEN + 1) 0).toNat / 4
    if dscp = VOWIFI_IKE_DSCP then dest == VOWIFI_IKE_SIP_PORT || dest == VOWIFI_IKE_ONLY_PORT
    else if dscp = VOWIFI_SIP_DSCP then dest == VOWIFI_IKE_SIP_PORT
    else false
  else false

/-- `is_data2cmd` -/
def isData2cmd (data : List Byte) (iphdrlen : ℕ) : Bool :=
  let source := netShort data (ETHER_HDR_LEN + iphdrlen)
  (netShort data 12 == ETH_P_IP && (source == DHCP_SERVER_PORT || source == DHCP_CLIENT_PORT)) ||
    (netShort data 12 == ETH_P_IPV6 &&
      (source == DHCP_SERVER_PORT_IPV6 || source == DHCP_CLIENT_PORT_IPV6)) ||
    isVowifi2cmd data

/-- `sprdwl_tx_filter_ip_pkt`, with the packet it gives to `sprdwl_xmit_data2cmd_wq`. -/
def txFilterIpPkt (s : Skb) : ℤ × Skb :=
  match ipHdrLen s.data with
  | none => (1, s)
  | some iphdrlen =>
    if isData2cmd s.data iphdrlen then
      if s.ipSummed = .checksumPartial then (0, s.complete (ETHER_HDR_LEN + iphdrlen) UDP_CHECK)
      else (0, s)
    else (1, s)

/-- The 16-bit words of a string of bytes, with a byte of zeros behind an odd one. -/
def shorts : List Byte → List ℕ
  | b0 :: b1 :: rest => (b0.toNat + 256 * b1.toNat) :: shorts rest
  | [b] => [b.toNat]
  | [] => []

/-- The sum of the words in ones' complement. -/
def rfcSum (bs : List Byte) : ℕ := OnesComplement.sum (shorts bs)

/-- The sum of the words, of which the first starts with a high byte if `high` is set. -/
def total (high : Bool) : List Byte → ℕ
  | [] => 0
  | b :: rest => (if high then 256 * b.toNat else b.toNat) + total (!high) rest

theorem shorts_lt (bs : List Byte) : ∀ w ∈ shorts bs, w < 65536 := by
  induction bs using shorts.induct with
  | case1 b0 b1 rest ih =>
    have h0 := b0.isLt
    have h1 := b1.isLt
    rw [shorts, List.forall_mem_cons]
    exact ⟨by omega, ih⟩
  | case2 b =>
    have h := b.isLt
    rw [shorts, List.forall_mem_singleton]
    omega
  | case3 => simp [shorts]

theorem sum_shorts (bs : List Byte) : (shorts bs).sum = total false bs := by
  induction bs using shorts.induct with
  | case1 b0 b1 rest ih =>
    rw [shorts, List.sum_cons, ih]
    simp [total]
    omega
  | case2 b => simp [shorts, total]
  | case3 => rfl

theorem rfcSum_folds (bs : List Byte) : Folds (rfcSum bs) (total false bs) :=
  sum_shorts bs ▸ sum_folds (shorts bs) (shorts_lt bs)

/-- Exchanging the weights of the bytes is a factor of 256. -/
theorem total_true (bs : List Byte) :
    256 * total true bs % 65535 = total false bs % 65535 ∧
      256 * total false bs % 65535 = total true bs % 65535 ∧
      (total true bs = 0 ↔ total false bs = 0) := by
  induction bs with
  | nil => simp [total]
  | cons b bs ih =>
    have hb := b.isLt
    simp only [total, if_true, Bool.not_true, Bool.not_false, Bool.false_eq_true, if_false]
    omega

/-- The bytes of a result and those that are left. -/
structure Adds (result : BitVec 32) (rest : List Byte) (all : ℕ) : Prop where
  mod : (result.toNat + total false rest) % 65535 = all % 65535
  zero : result.toNat + total false rest = 0 ↔ all = 0

theorem toNat_short (b0 b1 : Byte) : (short b0 b1).toNat = b0.toNat + 256 * b1.toNat := by
  have h0 := b0.isLt
  have h1 := b1.isLt
  exact Nat.mod_eq_of_lt (by omega)

theorem toNat_word (b0 b1 b2 b3 : Byte) : (word b0 b1 b2 b3).toNat =
    b0.toNat + 256 * b1.toNat + 65536 * b2.toNat + 16777216 * b3.toNat := by
  have h0 := b0.isLt
  have h1 := b1.isLt
  have h2 := b2.isLt
  have h3 := b3.isLt
  exact Nat.mod_eq_of_lt (by omega)

theorem toNat_halves (x : BitVec 32) :
    (halves x).toNat = x.toNat % 65536 + x.toNat / 65536 := by
  have hand : (x &&& 0xffff#32).toNat = x.toNat % 65536 := by
    rw [BitVec.toNat_and]
    exact Nat.and_two_pow_sub_one_eq_mod x.toNat 16
  have hshift : (x >>> 16).toNat = x.toNat / 65536 := by
    rw [BitVec.toNat_ushiftRight, Nat.shiftRight_eq_div_pow]
  rw [halves, BitVec.toNat_add, hand, hshift]
  omega

theorem from32to16_folds (x : BitVec 32) : Folds (from32to16 x).toNat x.toNat := by
  have h := halves_folds x.isLt
  have hlt := h.lt
  rw [from32to16, BitVec.toNat_setWidth, toNat_halves, toNat_halves, Nat.mod_eq_of_lt hlt]
  exact h

theorem toNat_swap (x : BitVec 16) : (swap x).toNat = x.toNat % 256 * 256 + x.toNat / 256 := by
  have hx := x.isLt
  have hhigh : (x >>> 8 &&& 0xff#16).toNat = x.toNat / 256 := by
    rw [BitVec.toNat_and, BitVec.toNat_ushiftRight, Nat.shiftRight_eq_div_pow]
    exact (Nat.and_two_pow_sub_one_eq_mod _ 8).trans (Nat.mod_eq_of_lt (by omega))
  have hlow : ((x &&& 0xff#16) <<< 8).toNat = 2 ^ 8 * (x.toNat % 256) := by
    have hand : (x &&& 0xff#16).toNat = x.toNat % 256 := by
      rw [BitVec.toNat_and]
      exact Nat.and_two_pow_sub_one_eq_mod _ 8
    rw [BitVec.toNat_shiftLeft, hand, Nat.shiftLeft_eq]
    omega
  rw [swap, BitVec.toNat_or, hhigh, hlow, Nat.or_comm,
    ← Nat.two_pow_add_eq_or_of_lt (by omega : x.toNat / 256 < 2 ^ 8)]
  omega

theorem oddByte_spec (odd : Bool) (bs : List Byte) :
    Adds (oddByte odd bs).1 (oddByte odd bs).2 (total odd bs) ∧
      (oddByte odd bs).1.toNat < 65536 := by
  cases bs with
  | nil => exact ⟨⟨rfl, Iff.rfl⟩, by simp [oddByte]⟩
  | cons b rest =>
    cases odd with
    | false => exact ⟨⟨by simp [oddByte], by simp [oddByte]⟩, by simp [oddByte]⟩
    | true =>
      have hb := b.isLt
      have hshift : (b.setWidth 32 <<< 8).toNat = 256 * b.toNat := by
        rw [BitVec.toNat_shiftLeft, BitVec.toNat_setWidth, Nat.shiftLeft_eq]
        omega
      simp only [oddByte, if_true, hshift, total, Bool.not_true]
      exact ⟨⟨by rw [hshift], by rw [hshift]⟩, by omega⟩

theorem firstShort_spec (unaligned : Bool) {result : BitVec 32} {bs : List Byte} {all : ℕ}
    (h : Adds result bs all) (hlt : result.toNat < 65536) :
    Adds (firstShort unaligned result bs).1 (firstShort unaligned result bs).2 all ∧
      (firstShort unaligned result bs).1.toNat < 2 * 65536 := by
  match bs, h with
  | [], h => exact ⟨h, by simp only [firstShort]; omega⟩
  | [b], h => exact ⟨h, by simp only [firstShort]; omega⟩
  | b0 :: b1 :: rest, h =>
    cases unaligned with
    | false => exact ⟨h, by simp only [firstShort, Bool.false_eq_true, if_false]; omega⟩
    | true =>
      have h0 := b0.isLt
      have h1 := b1.isLt
      obtain ⟨hmod, hzero⟩ := h
      have hsum : (result + short b0 b1).toNat =
          result.toNat + (b0.toNat + 256 * b1.toNat) := by
        rw [BitVec.toNat_add, toNat_short]
        omega
      simp only [total, Bool.not_false, Bool.not_true, Bool.false_eq_true, if_false, if_true]
        at hmod hzero
      simp only [firstShort, if_true]
      exact ⟨⟨by rw [hsum]; omega, by rw [hsum]; omega⟩, by rw [hsum]; omega⟩

/-- Each turn of the loop keeps the residue, and the carry never overflows. -/
theorem wordLoop_spec (bs : List Byte) (result carry : BitVec 32) {all : ℕ}
    (hmod : (result.toNat + carry.toNat + total false bs) % 65535 = all % 65535)
    (hzero : result.toNat + carry.toNat + total false bs = 0 ↔ all = 0)
    (hlt : result.toNat + carry.toNat < 2 ^ 32) :
    Adds (wordLoop bs result carry).1 (wordLoop bs result carry).2 all ∧
      (wordLoop bs result carry).2.length < 4 := by
  induction bs, result, carry using wordLoop.induct with
  | case1 b0 b1 b2 b3 rest result carry ih =>
    have h0 := b0.isLt
    have h1 := b1.isLt
    have h2 := b2.isLt
    have h3 := b3.isLt
    have hword := toNat_word b0 b1 b2 b3
    simp only [total, Bool.not_false, Bool.not_true, Bool.false_eq_true, if_false, if_true]
      at hmod hzero
    have hold : (result + carry).toNat = result.toNat + carry.toNat := by
      rw [BitVec.toNat_add]
      omega
    have hnew : (result + carry + word b0 b1 b2 b3).toNat =
        (result.toNat + carry.toNat + (word b0 b1 b2 b3).toNat) % 2 ^ 32 := by
      rw [BitVec.toNat_add, hold]
    have hwlt := (word b0 b1 b2 b3).isLt
    rw [wordLoop]
    by_cases hcarry : result + carry + word b0 b1 b2 b3 < word b0 b1 b2 b3
    · rw [if_pos hcarry]
      rw [if_pos hcarry] at ih
      rw [BitVec.lt_def, hnew] at hcarry
      have hone : (1 : BitVec 32).toNat = 1 := rfl
      exact ih (by rw [hnew, hone]; omega) (by rw [hnew, hone]; omega) (by rw [hnew, hone]; omega)
    · rw [if_neg hcarry]
      rw [if_neg hcarry] at ih
      rw [BitVec.lt_def, hnew] at hcarry
      have hnone : (0 : BitVec 32).toNat = 0 := rfl
      exact ih (by rw [hnew, hnone]; omega) (by rw [hnew, hnone]; omega)
        (by rw [hnew, hnone]; omega)
  | case2 bs result carry hshort =>
    have hadd : (result + carry).toNat = result.toNat + carry.toNat := by
      rw [BitVec.toNat_add]
      omega
    rw [wordLoop.eq_2 _ _ _ hshort]
    refine ⟨⟨by rw [hadd]; exact hmod, by rw [hadd]; exact hzero⟩, ?_⟩
    rcases bs with _ | ⟨b0, _ | ⟨b1, _ | ⟨b2, _ | ⟨b3, rest⟩⟩⟩⟩
    case cons.cons.cons.cons => exact absurd rfl (hshort b0 b1 b2 b3 rest)
    all_goals simp

theorem words_spec {result : BitVec 32} {bs : List Byte} {all : ℕ} (h : Adds result bs all)
    (hlt : result.toNat < 2 * 65536) :
    Adds (words result bs).1 (words result bs).2 all ∧ (words result bs).1.toNat < 2 * 65536 ∧
      (words result bs).2.length < 4 := by
  rw [words]
  split
  · have hnone : (0 : BitVec 32).toNat = 0 := rfl
    obtain ⟨⟨hmod, hzero⟩, hlen⟩ :
        Adds (wordLoop bs result 0).1 (wordLoop bs result 0).2 all ∧
          (wordLoop bs result 0).2.length < 4 :=
      wordLoop_spec bs result 0 (by rw [hnone]; exact h.mod) (by rw [hnone]; exact h.zero)
        (by rw [hnone]; omega)
    have hx := (wordLoop bs result 0).1.isLt
    dsimp only
    refine ⟨⟨?_, ?_⟩, ?_, hlen⟩
    · rw [toNat_halves]
      omega
    · rw [toNat_halves]
      omega
    · rw [toNat_halves]
      omega
  · exact ⟨h, hlt, Nat.lt_of_not_le ‹_›⟩

theorem lastBytes_spec {result : BitVec 32} {bs : List Byte} {all : ℕ} (h : Adds result bs all)
    (hlt : result.toNat < 2 * 65536) (hlen : bs.length < 4) :
    (lastBytes result bs).toNat % 65535 = all % 65535 ∧
      ((lastBytes result bs).toNat = 0 ↔ all = 0) := by
  obtain ⟨hmod, hzero⟩ := h
  match bs with
  | [] => exact ⟨hmod, hzero⟩
  | [b] =>
    have hb := b.isLt
    have hsum : (result + b.setWidth 32).toNat = result.toNat + b.toNat := by
      rw [BitVec.toNat_add, BitVec.toNat_setWidth]
      omega
    rw [lastBytes, hsum]
    exact ⟨hmod, hzero⟩
  | [b0, b1] =>
    have h0 := b0.isLt
    have h1 := b1.isLt
    have hsum : (result + short b0 b1).toNat = result.toNat + (b0.toNat + 256 * b1.toNat) := by
      rw [BitVec.toNat_add, toNat_short]
      omega
    rw [lastBytes, hsum]
    exact ⟨hmod, hzero⟩
  | [b0, b1, b] =>
    have h0 := b0.isLt
    have h1 := b1.isLt
    have hb := b.isLt
    have hsum : (result + short b0 b1 + b.setWidth 32).toNat =
        result.toNat + (b0.toNat + 256 * b1.toNat) + b.toNat := by
      rw [BitVec.toNat_add, BitVec.toNat_add, toNat_short, BitVec.toNat_setWidth]
      omega
    rw [lastBytes, hsum]
    simp only [total, Bool.not_false, Bool.not_true, Bool.false_eq_true, if_false, if_true]
      at hmod hzero
    exact ⟨by omega, by omega⟩
  | _ :: _ :: _ :: _ :: _ => simp only [List.length_cons] at hlen; omega

theorem rawSum_spec (addr : ℕ) (bs : List Byte) :
    (rawSum addr bs).toNat % 65535 = total (addr % 2 == 1) bs % 65535 ∧
      ((rawSum addr bs).toNat = 0 ↔ total (addr % 2 == 1) bs = 0) := by
  have hodd := oddByte_spec (addr % 2 == 1) bs
  have hfirst := firstShort_spec ((addr + addr % 2) / 2 % 2 == 1) hodd.1 hodd.2
  obtain ⟨hwords, hlt, hlen⟩ := words_spec hfirst.1 hfirst.2
  exact lastBytes_spec hwords hlt hlen

/-- `do_csum` is the sum of the words, at every address. -/
theorem doCsum_eq (addr : ℕ) (bs : List Byte) : (doCsum addr bs).toNat = rfcSum bs := by
  obtain ⟨hmod, hzero⟩ := rawSum_spec addr bs
  have hfolds := from32to16_folds (rawSum addr bs)
  refine Folds.unique ?_ (rfcSum_folds bs)
  rw [doCsum]
  cases hodd : addr % 2 == 1 with
  | false =>
    rw [hodd] at hmod hzero
    rw [if_neg Bool.false_ne_true]
    exact ⟨hfolds.lt, hfolds.mod.trans hmod, hfolds.zero.trans hzero⟩
  | true =>
    obtain ⟨htrue, -, hboth⟩ := total_true bs
    rw [hodd] at hmod hzero
    rw [if_pos rfl, toNat_swap]
    obtain ⟨hslt, hsmod, hszero⟩ := hfolds.swap
    have hfactor : 256 * (rawSum addr bs).toNat = 0 ↔ (rawSum addr bs).toNat = 0 := by omega
    refine ⟨hslt, ?_, hszero.trans (hfactor.trans (hzero.trans hboth))⟩
    rw [hsmod, ← Nat.mul_mod_mod, hmod, Nat.mul_mod_mod]
    exact htrue

/-! ## The packets -/

/-- A UDP packet that is to be completed: its check sum has the sum of the pseudo header, which is an
even number of bytes and not all zeros. -/
structure Incomplete (s : Skb) (front head payload pseudo : List Byte) (c₀ c₁ : Byte) : Prop where
  ipSummed : s.ipSummed = .checksumPartial
  data : s.data = front ++ (head ++ c₀ :: c₁ :: payload)
  head : head.length = UDP_CHECK
  even : pseudo.length % 2 = 0
  nonzero : total false pseudo ≠ 0
  check : (c₀.toNat + 256 * c₁.toNat) % 65535 = total false pseudo % 65535

/-- The packet with its check sum: a receiver's sum with the pseudo header is all ones, and it is not
the one that means that there is none. -/
def Completed (r : ℤ × Skb) (s : Skb) (front head payload pseudo : List Byte) : Prop :=
  ∃ c₀ c₁ : Byte, r = (0, ⟨s.addr, front ++ (head ++ c₀ :: c₁ :: payload), .checksumNone⟩) ∧
    rfcSum (pseudo ++ (head ++ c₀ :: c₁ :: payload)) = 0xffff ∧ ¬ (c₀ = 0 ∧ c₁ = 0)

theorem total_append {bs : List Byte} (h : bs.length % 2 = 0) (cs : List Byte) :
    total false (bs ++ cs) = total false bs + total false cs := by
  induction bs using shorts.induct with
  | case1 b0 b1 rest ih =>
    have hrest : rest.length % 2 = 0 := by
      simp only [List.length_cons] at h
      omega
    have hsum := ih hrest
    simp only [List.cons_append, total, Bool.not_false, Bool.not_true, Bool.false_eq_true, if_false,
      if_true, hsum]
    omega
  | case2 b => simp at h
  | case3 => simp [total]

theorem storeShort_append (front bs : List Byte) (c₀ c₁ : Byte) (x : BitVec 16) :
    storeShort (front ++ c₀ :: c₁ :: bs) front.length x =
      front ++ x.setWidth 8 :: (x >>> 8).setWidth 8 :: bs := by
  simp [storeShort]

theorem toNat_low (x : BitVec 16) : (x.setWidth 8).toNat = x.toNat % 256 := by
  rw [BitVec.toNat_setWidth]

theorem toNat_high (x : BitVec 16) : ((x >>> 8).setWidth 8).toNat = x.toNat / 256 := by
  have hx := x.isLt
  rw [BitVec.toNat_setWidth, BitVec.toNat_ushiftRight, Nat.shiftRight_eq_div_pow]
  omega

theorem toNat_compl (x : BitVec 16) : (~~~ x).toNat = 65535 - x.toNat := by
  rw [BitVec.toNat_not]

/-- A sum with a check word in it that is the complement of the sum with `c` in its place. -/
theorem ones_of_check {sum x y h p c ps : ℕ} (hx : x < 65536) (hy : y = 65535 - x)
    (hmod : x % 65535 = (h + (c + p)) % 65535) (hc : c % 65535 = ps % 65535) (hps : ps ≠ 0)
    (hsum : sum < 65536) (hsmod : sum % 65535 = (ps + (h + (y + p))) % 65535)
    (hzero : sum = 0 ↔ ps + (h + (y + p)) = 0) : sum = 65535 := by
  have hsplit : ps + (h + (y + p)) = ps + (h + p + y) := by omega
  have hjoin : c + (h + p + y) = h + (c + p) + y := by omega
  have hones : x + y = 65535 := by omega
  have hdvd : (ps + (h + (y + p))) % 65535 = 0 := by
    rw [hsplit, Nat.add_mod, ← hc, ← Nat.add_mod, hjoin, Nat.add_mod, ← hmod, ← Nat.add_mod, hones,
      Nat.mod_self]
  have hne : sum ≠ 0 := by
    intro hnone
    exact hps (Nat.eq_zero_of_add_eq_zero_right (hzero.mp hnone))
  omega

theorem ones_of_bytes {x : ℕ} (hx : x < 65536) (hlow : (65535 - x) % 256 = 0)
    (hhigh : (65535 - x) / 256 = 0) : x = 65535 := by
  omega

section Packet
variable {s : Skb} {front head payload pseudo : List Byte} {c₀ c₁ : Byte}

theorem Incomplete.complete (h : Incomplete s front head payload pseudo c₀ c₁) :
    s.complete front.length UDP_CHECK = ⟨s.addr, front ++ (head ++
        (~~~ doCsum (s.addr + front.length) (head ++ c₀ :: c₁ :: payload)).setWidth 8 ::
        (~~~ doCsum (s.addr + front.length) (head ++ c₀ :: c₁ :: payload) >>> 8).setWidth 8 ::
        payload), .checksumNone⟩ := by
  have hdrop : s.data.drop front.length = head ++ c₀ :: c₁ :: payload := by
    rw [h.data, List.drop_left]
  have hstore := storeShort_append (front ++ head) payload c₀ c₁
    (~~~ doCsum (s.addr + front.length) (head ++ c₀ :: c₁ :: payload))
  rw [List.length_append, h.head, List.append_assoc, List.append_assoc] at hstore
  rw [Skb.complete, hdrop, h.data, hstore]

theorem Completed.check {addr : ℕ}
    (h : Completed (0, ⟨addr, front ++ (head ++ c₀ :: c₁ :: payload), .checksumNone⟩) s front head
      payload pseudo) : ¬ (c₀ = 0 ∧ c₁ = 0) := by
  obtain ⟨d₀, d₁, heq, -, hne⟩ := h
  have hdata := congrArg (fun r : ℤ × Skb => r.2.data) heq
  dsimp only at hdata
  rw [List.append_cancel_left_eq, List.append_cancel_left_eq] at hdata
  obtain ⟨hfirst, hrest⟩ := List.cons.inj hdata
  obtain ⟨hsecond, -⟩ := List.cons.inj hrest
  rw [hfirst, hsecond]
  exact hne

/-- The completed packet always verifies; its check sum is 0 if the sum is all ones. -/
theorem Incomplete.completed_iff (h : Incomplete s front head payload pseudo c₀ c₁) :
    Completed (0, s.complete front.length UDP_CHECK) s front head payload pseudo ↔
      rfcSum (head ++ c₀ :: c₁ :: payload) ≠ 0xffff := by
  have hsum := doCsum_eq (s.addr + front.length) (head ++ c₀ :: c₁ :: payload)
  rw [h.complete]
  generalize doCsum (s.addr + front.length) (head ++ c₀ :: c₁ :: payload) = x at hsum
  have hx := x.isLt
  obtain ⟨hlt, hmod, hzero⟩ := rfcSum_folds (head ++ c₀ :: c₁ :: payload)
  have hheadEven : head.length % 2 = 0 := by
    rw [h.head]
    rfl
  have hlow := toNat_low (~~~ x)
  have hhigh := toNat_high (~~~ x)
  rw [toNat_compl] at hlow hhigh
  have hverify : rfcSum (pseudo ++ (head ++ (~~~ x).setWidth 8 :: (~~~ x >>> 8).setWidth 8 ::
      payload)) = 0xffff := by
    obtain ⟨hlt', hmod', hzero'⟩ := rfcSum_folds (pseudo ++ (head ++ (~~~ x).setWidth 8 ::
      (~~~ x >>> 8).setWidth 8 :: payload))
    have hcheck := h.check
    have hnonzero := h.nonzero
    rw [total_append h.even, total_append hheadEven] at hmod' hzero'
    rw [total_append hheadEven] at hmod
    simp only [total, Bool.not_false, Bool.not_true, Bool.false_eq_true, if_false, if_true,
      ← Nat.add_assoc (BitVec.toNat _) (256 * _)] at hmod hmod' hzero'
    refine ones_of_check hx ?_ (hsum ▸ hmod) hcheck hnonzero hlt' hmod' hzero'
    omega
  constructor
  · intro hcompleted hones
    apply hcompleted.check
    rw [← BitVec.toNat_inj, ← BitVec.toNat_inj, hlow, hhigh, hsum, hones]
    exact ⟨rfl, rfl⟩
  · intro hnot
    refine ⟨_, _, rfl, hverify, fun hnone => hnot ?_⟩
    rw [← BitVec.toNat_inj, ← BitVec.toNat_inj, hlow, hhigh] at hnone
    have hones := ones_of_bytes hx hnone.1 hnone.2
    exact hsum.symm.trans hones

end Packet

/-- `do_csum` is the sum of the words in ones' complement at every address, and every packet of UDP
is completed as it should be exactly if its sum is not all ones and, where it goes to a group, its
header is the one that the IPv6 header announces. -/
theorem udp_checksum_iff {s : Skb} {front head payload pseudo : List Byte} {c₀ c₁ : Byte}
    (h : Incomplete s front head payload pseudo c₀ c₁) :
    (∀ addr bs, (doCsum addr bs).toNat = rfcSum bs) ∧
    ((s.data.getD (ETHER_HDR_LEN + 6) 0 = IPPROTO_UDP →
        front.length = ETHER_HDR_LEN + IPV6_HDR_LEN) →
      s.data.getD (ETHER_HDR_LEN + 6) 0 ≠ IPPROTO_TCP →
        (Completed (mcPktChecksum s) s front head payload pseudo ↔
          s.data.getD (ETHER_HDR_LEN + 6) 0 = IPPROTO_UDP ∧
            rfcSum (head ++ c₀ :: c₁ :: payload) ≠ 0xffff)) ∧
    ∀ iphdrlen, ipHdrLen s.data = some iphdrlen → front.length = ETHER_HDR_LEN + iphdrlen →
      isData2cmd s.data iphdrlen = true →
        (Completed (txFilterIpPkt s) s front head payload pseudo ↔
          rfcSum (head ++ c₀ :: c₁ :: payload) ≠ 0xffff) := by
  refine ⟨doCsum_eq, fun hfront htcp => ?_, fun iphdrlen hlen hfront hcmd => ?_⟩
  · by_cases hudp : s.data.getD (ETHER_HDR_LEN + 6) 0 = IPPROTO_UDP
    · rw [mcPktChecksum, if_pos h.ipSummed, if_pos hudp, ← hfront hudp, h.completed_iff]
      exact (and_iff_right hudp).symm
    · -- the UDP header is behind another one, and nothing is stored
      rw [mcPktChecksum, if_pos h.ipSummed, if_neg hudp, if_neg htcp]
      constructor
      · rintro ⟨d₀, d₁, heq, -⟩
        exact absurd (congrArg Prod.fst heq) one_ne_zero
      · intro hboth
        exact absurd hboth.1 hudp
  · have hrun : txFilterIpPkt s = (0, s.complete (ETHER_HDR_LEN + iphdrlen) UDP_CHECK) := by
      simp only [txFilterIpPkt, hlen, hcmd, if_true, h.ipSummed]
    rw [hrun, ← hfront]
    exact h.completed_iff

/-- An IPv6 header for UDP. -/
def exampleFront : List Byte :=
  List.replicate 12 0 ++ [0x86, 0xdd] ++ List.replicate 6 0 ++ [17] ++ List.replicate 33 0

/-- The sum of its pseudo header is `0x1b00`, in memory order. -/
def examplePseudo : List Byte := List.replicate 32 0 ++ [0, 0, 0, 10, 0, 0, 0, 17]

def exampleHead : List Byte := [0x14, 0xe9, 0x14, 0xe9, 0, 10]

def exampleSkb (payload : List Byte) : Skb where
  addr := 2
  data := exampleFront ++ (exampleHead ++ 0 :: 0x1b :: payload)
  ipSummed := .checksumPartial

theorem incomplete_example (payload : List Byte) :
    Incomplete (exampleSkb payload) exampleFront exampleHead payload examplePseudo 0 0x1b where
  ipSummed := rfl
  data := rfl
  head := rfl
  even := rfl
  nonzero := by decide
  check := by decide

theorem udp_checksum_iff_zeros :
    Completed (mcPktChecksum (exampleSkb [0, 0])) (exampleSkb [0, 0]) exampleFront exampleHead [0, 0]
      examplePseudo :=
  ((udp_checksum_iff (incomplete_example [0, 0])).2.1 (fun _ => rfl) (by decide)).2
    ⟨by decide, by decide⟩

/-- The sum of this packet is all ones, and its check sum becomes 0. -/
theorem udp_checksum_zero :
    Incomplete (exampleSkb [0xd6, 0x08]) exampleFront exampleHead [0xd6, 0x08] examplePseudo 0
        0x1b ∧
      mcPktChecksum (exampleSkb [0xd6, 0x08]) =
        (0, ⟨2, exampleFront ++ (exampleHead ++ 0 :: 0 :: [0xd6, 0x08]), .checksumNone⟩) ∧
      ¬ Completed (mcPktChecksum (exampleSkb [0xd6, 0x08])) (exampleSkb [0xd6, 0x08]) exampleFront
        exampleHead [0xd6, 0x08] examplePseudo := by
  have hrun : mcPktChecksum (exampleSkb [0xd6, 0x08]) =
      (0, ⟨2, exampleFront ++ (exampleHead ++ 0 :: 0 :: [0xd6, 0x08]), .checksumNone⟩) := by
    decide +kernel
  refine ⟨incomplete_example _, hrun, ?_⟩
  rw [hrun]
  exact fun hcompleted => hcompleted.check ⟨rfl, rfl⟩

end Uwe5631.DoCsum
