import Mathlib.Data.List.Basic
import Mathlib.Data.BitVec

/-!
# The extension headers of a received packet

To check the sum that the firmware gives with a packet, `ipv6_csum` looks for the header of the
upper protocol behind the extension headers. The offset has 16 bits, and only three kinds of headers
are passed.
-/
namespace Uwe5631.Ipv6Headers

abbrev Byte := BitVec 8

inductive Fault where
  /-- a read behind the MSDU -/
  | beyond
  /-- the walk needs more turns -/
  | running
  deriving DecidableEq, Repr

def NEXTHDR_HOP : Byte := 0
def NEXTHDR_TCP : Byte := 6
def NEXTHDR_UDP : Byte := 17
def NEXTHDR_ROUTING : Byte := 43
def NEXTHDR_FRAGMENT : Byte := 44
def NEXTHDR_AUTH : Byte := 51
def NEXTHDR_DEST : Byte := 60
def ETH_HLEN : ℕ := 14
/-- `sizeof(struct ipv6hdr)` -/
def IPV6_HLEN : ℕ := 40

def mhIpv6ExtHdr (nexthdr : Byte) : Bool :=
  nexthdr == NEXTHDR_HOP || nexthdr == NEXTHDR_ROUTING || nexthdr == NEXTHDR_DEST

/-- `ipv6_optlen` -/
def ipv6Optlen (hdrlen : Byte) : ℕ := (hdrlen.toNat + 1) * 8

def read (msdu : List Byte) (i : ℕ) : Except Fault Byte :=
  match msdu[i]? with
  | some b => .ok b
  | none => .error .beyond

def readBytes (msdu : List Byte) (i n : ℕ) : Except Fault (List Byte) :=
  if i + n ≤ msdu.length then .ok ((msdu.drop i).take n) else .error .beyond

/-- What the walk finds. -/
structure Found where
  dataoff : BitVec 16
  nexthdr : Byte
  deriving DecidableEq, Repr

/-- The loop of `ipv6_csum`. -/
def walk (msdu : List Byte) : ℕ → BitVec 16 → Byte → Except Fault Found
  | 0, dataoff, nexthdr =>
    if mhIpv6ExtHdr nexthdr then .error .running else .ok ⟨dataoff, nexthdr⟩
  | fuel + 1, dataoff, nexthdr =>
    if mhIpv6ExtHdr nexthdr then do
      let hdrlen ← read msdu (dataoff.toNat + 1)
      let next ← read msdu dataoff.toNat
      walk msdu fuel (dataoff + BitVec.ofNat 16 (ipv6Optlen hdrlen)) next
    else .ok ⟨dataoff, nexthdr⟩

/-- The walk over an MSDU: it starts behind the IPv6 header. -/
def findData (fuel : ℕ) (msdu : List Byte) : Except Fault Found := do
  let nexthdr ← read msdu (ETH_HLEN + 6)
  walk msdu fuel (BitVec.ofNat 16 (ETH_HLEN + IPV6_HLEN)) nexthdr

/-- `eth->h_proto == cpu_to_be16(ETH_P_IPV6)` -/
def isIpv6 (msdu : List Byte) : Except Fault Bool := do
  let high ← read msdu 12
  let low ← read msdu 13
  return high == 0x86 && low == 0xdd

/-- `ipv6_csum` with the kernel's `csum_ipv6_magic`. -/
def ipv6Csum (magic : List Byte → List Byte → ℤ → Byte → BitVec 32 → BitVec 16) (fuel : ℕ)
    (msdu : List Byte) (csum : BitVec 32) : Except Fault ℤ := do
  if ← isIpv6 msdu then
    let found ← findData fuel msdu
    let saddr ← readBytes msdu (ETH_HLEN + 8) 16
    let daddr ← readBytes msdu (ETH_HLEN + 24) 16
    if magic saddr daddr ((msdu.length : ℤ) - found.dataoff.toNat) found.nexthdr csum = 0 then
      return 1
    else return -1
  else return 0

/-- The length of an extension header, by its kind and its second byte. -/
def rfcLength (kind hdrlen : Byte) : ℕ :=
  if kind = NEXTHDR_FRAGMENT then 8
  else if kind = NEXTHDR_AUTH then (hdrlen.toNat + 2) * 4
  else (hdrlen.toNat + 1) * 8

/-- The kinds of extension headers that stand before a readable upper protocol. -/
def rfcKinds : List Byte :=
  [NEXTHDR_HOP, NEXTHDR_ROUTING, NEXTHDR_FRAGMENT, NEXTHDR_AUTH, NEXTHDR_DEST]

/-- An extension header without its first byte, which names what follows it. A fragment is the
first one: only this has the upper protocol's header. -/
structure Header where
  kind : Byte
  hdrlen : Byte
  body : List Byte
  known : kind ∈ rfcKinds
  sized : body.length + 2 = rfcLength kind hdrlen
  first : kind = NEXTHDR_FRAGMENT → body.getD 0 0 = 0 ∧ body.getD 1 0 >>> 3 = 0

/-- What the byte before a chain names. -/
def firstKind (upper : Byte) : List Header → Byte
  | [] => upper
  | h :: _ => h.kind

@[simp] theorem firstKind_nil (upper : Byte) : firstKind upper [] = upper := rfl

@[simp] theorem firstKind_cons (upper : Byte) (h : Header) (hs : List Header) :
    firstKind upper (h :: hs) = h.kind := rfl

def chain (upper : Byte) : List Header → List Byte
  | [] => []
  | h :: hs => firstKind upper hs :: h.hdrlen :: (h.body ++ chain upper hs)

/-- A packet of TCP or UDP with the extension headers `hs`: addresses and type, the IPv6 header that
tells the length and what follows, the headers, of which only the first may be hop-by-hop, and the
transport. -/
structure WellFormed (msdu : List Byte) (hs : List Header) (upper : Byte) : Prop where
  bytes : ∃ eth flow length hops transport, msdu =
    (eth ++ [0x86, 0xdd] ++ flow ++ length ++ [firstKind upper hs] ++ hops) ++
      (chain upper hs ++ transport) ∧
    eth.length = 12 ∧ flow.length = 4 ∧ hops.length = 33 ∧
    length = [BitVec.ofNat 8 ((chain upper hs ++ transport).length / 256),
      BitVec.ofNat 8 (chain upper hs ++ transport).length]
  transport : upper = NEXTHDR_TCP ∨ upper = NEXTHDR_UDP
  hop : ∀ h ∈ hs.tail, h.kind ≠ NEXTHDR_HOP

/-- The offset of the transport header. -/
def transportOffset (upper : Byte) (hs : List Header) : ℕ :=
  ETH_HLEN + IPV6_HLEN + (chain upper hs).length

/-- The headers of the three kinds, each at the 16-bit offset behind the one before it, have their
first two bytes inside and come to an end. -/
inductive ChainInside (msdu : List Byte) : BitVec 16 → Byte → Prop
  | stop {dataoff : BitVec 16} {nexthdr : Byte} (h : mhIpv6ExtHdr nexthdr = false) :
    ChainInside msdu dataoff nexthdr
  | next {dataoff : BitVec 16} {nexthdr hdrlen next : Byte} (h : mhIpv6ExtHdr nexthdr = true)
    (hlen : msdu[dataoff.toNat + 1]? = some hdrlen) (hnext : msdu[dataoff.toNat]? = some next)
    (hrest : ChainInside msdu (dataoff + BitVec.ofNat 16 (ipv6Optlen hdrlen)) next) :
    ChainInside msdu dataoff nexthdr

/-- The walk over the packet ends inside, and finds the transport header of a well-formed one. -/
def Walks (magic : List Byte → List Byte → ℤ → Byte → BitVec 32 → BitVec 16) (msdu : List Byte)
    (csum : BitVec 32) : Prop :=
  ∃ fuel found ret, findData fuel msdu = .ok found ∧ ipv6Csum magic fuel msdu csum = .ok ret ∧
    ∀ hs upper, WellFormed msdu hs upper →
      found.nexthdr = upper ∧ found.dataoff.toNat = transportOffset upper hs

variable {msdu : List Byte}

@[simp] theorem read_eq_ok {i : ℕ} {b : Byte} : read msdu i = .ok b ↔ msdu[i]? = some b := by
  rw [read]
  split <;> simp_all

theorem chainInside_of_walk {fuel : ℕ} {dataoff : BitVec 16} {nexthdr : Byte} {found : Found}
    (h : walk msdu fuel dataoff nexthdr = .ok found) : ChainInside msdu dataoff nexthdr := by
  induction fuel generalizing dataoff nexthdr with
  | zero =>
    cases hext : mhIpv6ExtHdr nexthdr with
    | false => exact .stop hext
    | true => rw [walk, if_pos hext] at h; cases h
  | succ fuel ih =>
    cases hext : mhIpv6ExtHdr nexthdr with
    | false => exact .stop hext
    | true =>
      rw [walk, if_pos hext] at h
      cases hlen : read msdu (dataoff.toNat + 1) with
      | error f => rw [hlen] at h; cases h
      | ok hdrlen =>
        cases hnext : read msdu dataoff.toNat with
        | error f => rw [hlen, hnext] at h; cases h
        | ok next =>
          rw [hlen, hnext] at h
          exact .next hext (read_eq_ok.mp hlen) (read_eq_ok.mp hnext) (ih h)

theorem walk_next {fuel : ℕ} {dataoff : BitVec 16} {nexthdr hdrlen next : Byte}
    (h : mhIpv6ExtHdr nexthdr = true) (hlen : msdu[dataoff.toNat + 1]? = some hdrlen)
    (hnext : msdu[dataoff.toNat]? = some next) :
    walk msdu (fuel + 1) dataoff nexthdr =
      walk msdu fuel (dataoff + BitVec.ofNat 16 (ipv6Optlen hdrlen)) next := by
  rw [walk, if_pos h, read_eq_ok.mpr hlen, read_eq_ok.mpr hnext]
  rfl

theorem walk_stop (fuel : ℕ) {dataoff : BitVec 16} {nexthdr : Byte}
    (h : mhIpv6ExtHdr nexthdr = false) :
    walk msdu fuel dataoff nexthdr = .ok ⟨dataoff, nexthdr⟩ := by
  cases fuel with
  | zero => rw [walk, if_neg (by simp [h])]
  | succ fuel => rw [walk, if_neg (by simp [h])]

theorem exists_walk {dataoff : BitVec 16} {nexthdr : Byte} (h : ChainInside msdu dataoff nexthdr) :
    ∃ fuel found, walk msdu fuel dataoff nexthdr = .ok found := by
  induction h with
  | stop h => exact ⟨0, _, walk_stop 0 h⟩
  | next h hlen hnext _ ih =>
    obtain ⟨fuel, found, hwalk⟩ := ih
    exact ⟨fuel + 1, found, by rw [walk_next h hlen hnext, hwalk]⟩

/-- Another number of turns finds the same. -/
theorem walk_unique {fuel fuel' : ℕ} {dataoff : BitVec 16} {nexthdr : Byte} {found found' : Found}
    (h : walk msdu fuel dataoff nexthdr = .ok found)
    (h' : walk msdu fuel' dataoff nexthdr = .ok found') : found = found' := by
  induction fuel generalizing fuel' dataoff nexthdr with
  | zero =>
    cases hext : mhIpv6ExtHdr nexthdr with
    | true => rw [walk, if_pos hext] at h; cases h
    | false =>
      rw [walk_stop _ hext] at h h'
      exact Except.ok.inj (h.symm.trans h')
  | succ fuel ih =>
    cases chainInside_of_walk h with
    | stop hext =>
      rw [walk_stop _ hext] at h h'
      exact Except.ok.inj (h.symm.trans h')
    | next hext hlen hnext hrest =>
      cases fuel' with
      | zero => rw [walk, if_pos hext] at h'; cases h'
      | succ fuel' =>
        rw [walk_next hext hlen hnext] at h h'
        exact ih h h'

theorem rfcLength_of_ext {kind : Byte} (h : mhIpv6ExtHdr kind = true) (hdrlen : Byte) :
    rfcLength kind hdrlen = ipv6Optlen hdrlen := by
  have hfrag : kind ≠ NEXTHDR_FRAGMENT := by
    rintro rfl
    cases h
  have hauth : kind ≠ NEXTHDR_AUTH := by
    rintro rfl
    cases h
  rw [rfcLength, if_neg hfrag, if_neg hauth, ipv6Optlen]

/-- The walk over the headers of a packet finds the upper protocol exactly if it passes them all. -/
theorem walk_chain {upper : Byte} (hupper : upper = NEXTHDR_TCP ∨ upper = NEXTHDR_UDP)
    (hs : List Header) (front transport : List Byte) {dataoff : BitVec 16}
    (hoff : dataoff.toNat = front.length)
    (hmax : (front ++ (chain upper hs ++ transport)).length < 2 ^ 16) :
    ∃ fuel found, walk (front ++ (chain upper hs ++ transport)) fuel dataoff
        (firstKind upper hs) = .ok found ∧
      (found.nexthdr = upper ∧ found.dataoff.toNat = front.length + (chain upper hs).length ↔
        ∀ h ∈ hs, mhIpv6ExtHdr h.kind = true) := by
  induction hs generalizing front dataoff with
  | nil =>
    have hstop : mhIpv6ExtHdr upper = false := by
      rcases hupper with rfl | rfl <;> rfl
    exact ⟨0, _, walk_stop 0 hstop, by simp [chain, hoff]⟩
  | cons h hs ih =>
    cases hext : mhIpv6ExtHdr h.kind with
    | false =>
      refine ⟨0, _, walk_stop 0 hext, iff_of_false ?_ (by simp [hext])⟩
      rintro ⟨hkind, -⟩
      have hknown := h.known
      rw [show h.kind = upper from hkind] at hknown
      rcases hupper with rfl | rfl <;> revert hknown <;> decide
    | true =>
      have hbytes : front ++ (chain upper (h :: hs) ++ transport) =
          (front ++ firstKind upper hs :: h.hdrlen :: h.body) ++
            (chain upper hs ++ transport) := by
        simp [chain]
      have hsize : h.body.length + 2 = ipv6Optlen h.hdrlen :=
        h.sized.trans (rfcLength_of_ext hext h.hdrlen)
      rw [hbytes] at hmax ⊢
      have hfront : (dataoff + BitVec.ofNat 16 (ipv6Optlen h.hdrlen)).toNat =
          (front ++ firstKind upper hs :: h.hdrlen :: h.body).length := by
        simp only [List.length_append, List.length_cons] at hmax ⊢
        rw [BitVec.toNat_add, BitVec.toNat_ofNat, hoff, ← hsize]
        omega
      obtain ⟨fuel, found, hwalk, hiff⟩ := ih _ hfront hmax
      refine ⟨fuel + 1, found, ?_, ?_⟩
      · have hlen : (front ++ firstKind upper hs :: h.hdrlen :: h.body ++
            (chain upper hs ++ transport))[dataoff.toNat + 1]? = some h.hdrlen := by
          simp [hoff]
        have hnext : (front ++ firstKind upper hs :: h.hdrlen :: h.body ++
            (chain upper hs ++ transport))[dataoff.toNat]? = some (firstKind upper hs) := by
          simp [hoff]
        rw [firstKind_cons, walk_next hext hlen hnext, hwalk]
      · rw [List.forall_mem_cons, ← hiff]
        simp [chain, hext]
        omega

/-- The walk over a well-formed packet ends inside, at the transport header exactly if no fragment
or authentication header stands before it. -/
theorem findData_wellFormed {hs : List Header} {upper : Byte} (h : WellFormed msdu hs upper)
    (hmax : msdu.length < 2 ^ 16) :
    ∃ fuel found, findData fuel msdu = .ok found ∧
      (found.nexthdr = upper ∧ found.dataoff.toNat = transportOffset upper hs ↔
        ∀ h ∈ hs, h.kind ≠ NEXTHDR_FRAGMENT ∧ h.kind ≠ NEXTHDR_AUTH) := by
  obtain ⟨⟨eth, flow, length, hops, transport, rfl, heth, hflow, hhops, rfl⟩, hupper, -⟩ := h
  obtain ⟨fuel, found, hwalk, hiff⟩ := walk_chain hupper hs _ transport
    (show (BitVec.ofNat 16 (ETH_HLEN + IPV6_HLEN)).toNat = _ by
      simp [heth, hflow, hhops, ETH_HLEN, IPV6_HLEN]) hmax
  refine ⟨fuel, found, ?_, ?_⟩
  · rw [findData, (read_eq_ok (b := firstKind upper hs)).mpr]
    · exact hwalk
    · simp [ETH_HLEN, List.getElem?_append, heth, hflow]
  · have hkinds : ∀ h : Header, mhIpv6ExtHdr h.kind = true ↔
        h.kind ≠ NEXTHDR_FRAGMENT ∧ h.kind ≠ NEXTHDR_AUTH := by
      intro h
      have hknown := h.known
      revert hknown
      generalize h.kind = kind
      simp only [rfcKinds, List.mem_cons, List.not_mem_nil, or_false]
      rintro (rfl | rfl | rfl | rfl | rfl) <;> decide
    rw [transportOffset, ← show (∀ h ∈ hs, mhIpv6ExtHdr h.kind = true) ↔ _ from
      forall₂_congr fun h _ => hkinds h, ← hiff]
    simp [heth, hflow, hhops, ETH_HLEN, IPV6_HLEN]

theorem findData_unique {fuel fuel' : ℕ} {found found' : Found}
    (h : findData fuel msdu = .ok found) (h' : findData fuel' msdu = .ok found') :
    found = found' := by
  rw [findData] at h h'
  cases hnext : read msdu (ETH_HLEN + 6) with
  | error f => rw [hnext] at h; cases h
  | ok next =>
    rw [hnext] at h h'
    exact walk_unique h h'

/-- The chain of headers of an MSDU lies inside. -/
def HeadersInside (msdu : List Byte) : Prop :=
  ∃ nexthdr, msdu[ETH_HLEN + 6]? = some nexthdr ∧
    ChainInside msdu (BitVec.ofNat 16 (ETH_HLEN + IPV6_HLEN)) nexthdr

theorem findData_iff : (∃ fuel found, findData fuel msdu = .ok found) ↔ HeadersInside msdu := by
  constructor
  · rintro ⟨fuel, found, h⟩
    rw [findData] at h
    cases hnext : read msdu (ETH_HLEN + 6) with
    | error f => rw [hnext] at h; cases h
    | ok next =>
      rw [hnext] at h
      exact ⟨next, read_eq_ok.mp hnext, chainInside_of_walk h⟩
  · rintro ⟨next, hnext, hchain⟩
    obtain ⟨fuel, found, hwalk⟩ := exists_walk hchain
    refine ⟨fuel, found, ?_⟩
    rw [findData, read_eq_ok.mpr hnext]
    exact hwalk

section Csum
variable {magic : List Byte → List Byte → ℤ → Byte → BitVec 32 → BitVec 16} {fuel : ℕ}
  {csum : BitVec 32}

theorem length_of_ipv6Csum {ret : ℤ} (hipv6 : isIpv6 msdu = .ok true)
    (h : ipv6Csum magic fuel msdu csum = .ok ret) : ETH_HLEN + IPV6_HLEN ≤ msdu.length := by
  cases hfind : findData fuel msdu with
  | error f => rw [ipv6Csum, hipv6, hfind] at h; cases h
  | ok found =>
    by_contra hshort
    have hdaddr : readBytes msdu (ETH_HLEN + 24) 16 = .error .beyond := if_neg hshort
    rw [ipv6Csum, hipv6, hfind, hdaddr] at h
    cases hsaddr : readBytes msdu (ETH_HLEN + 8) 16 <;> rw [hsaddr] at h <;> cases h

theorem ipv6Csum_of_findData (magic : List Byte → List Byte → ℤ → Byte → BitVec 32 → BitVec 16)
    (csum : BitVec 32) {found : Found} (hipv6 : isIpv6 msdu = .ok true)
    (hlen : ETH_HLEN + IPV6_HLEN ≤ msdu.length) (hfind : findData fuel msdu = .ok found) :
    ∃ ret, ipv6Csum magic fuel msdu csum = .ok ret := by
  have hsaddr : readBytes msdu (ETH_HLEN + 8) 16 = .ok ((msdu.drop (ETH_HLEN + 8)).take 16) :=
    if_pos (by simp only [ETH_HLEN, IPV6_HLEN] at hlen ⊢; omega)
  have hdaddr : readBytes msdu (ETH_HLEN + 24) 16 = .ok ((msdu.drop (ETH_HLEN + 24)).take 16) :=
    if_pos hlen
  refine ⟨if magic ((msdu.drop (ETH_HLEN + 8)).take 16) ((msdu.drop (ETH_HLEN + 24)).take 16)
    ((msdu.length : ℤ) - found.dataoff.toNat) found.nexthdr csum = 0 then 1 else -1, ?_⟩
  rw [ipv6Csum, hipv6, hfind, hsaddr, hdaddr]
  simp only [bind, Except.bind, pure, Except.pure, if_true]
  split <;> rfl

end Csum

/-! ## The headers of a packet are its own -/

theorem upper_not_known {upper : Byte} (h : upper = NEXTHDR_TCP ∨ upper = NEXTHDR_UDP) :
    upper ∉ rfcKinds := by
  rcases h with rfl | rfl <;> decide

theorem chain_unique {upper upper' : Byte} {hs hs' : List Header} {transport transport' : List Byte}
    (hupper : upper ∉ rfcKinds) (hupper' : upper' ∉ rfcKinds)
    (hfirst : firstKind upper hs = firstKind upper' hs')
    (hbytes : chain upper hs ++ transport = chain upper' hs' ++ transport') :
    hs = hs' ∧ upper = upper' := by
  induction hs generalizing hs' with
  | nil =>
    cases hs' with
    | nil => exact ⟨rfl, hfirst⟩
    | cons h' hs' =>
      rw [firstKind_nil, firstKind_cons] at hfirst
      exact absurd (hfirst ▸ h'.known) hupper
  | cons h hs ih =>
    cases hs' with
    | nil =>
      rw [firstKind_nil, firstKind_cons] at hfirst
      exact absurd (hfirst ▸ h.known) hupper'
    | cons h' hs' =>
      obtain ⟨kind, hdrlen, body, known, sized, first⟩ := h
      obtain ⟨kind', hdrlen', body', known', sized', first'⟩ := h'
      obtain rfl : kind = kind' := hfirst
      simp only [chain, List.cons_append, List.append_assoc, List.cons.injEq] at hbytes
      obtain ⟨hnext, rfl, hrest⟩ := hbytes
      have hlength : body.length = body'.length := by omega
      obtain ⟨rfl, htail⟩ := List.append_inj hrest hlength
      obtain ⟨rfl, rfl⟩ := ih hnext htail
      exact ⟨rfl, rfl⟩

theorem WellFormed.unique {hs hs' : List Header} {upper upper' : Byte} (h : WellFormed msdu hs upper)
    (h' : WellFormed msdu hs' upper') : hs = hs' ∧ upper = upper' := by
  obtain ⟨eth, flow, len, hops, transport, hbytes, heth, hflow, hhops, hlen⟩ := h.bytes
  obtain ⟨eth', flow', len', hops', transport', hbytes', heth', hflow', hhops', hlen'⟩ := h'.bytes
  have hsame := hbytes.symm.trans hbytes'
  have hlens : len.length = 2 ∧ len'.length = 2 := by
    rw [hlen, hlen']
    exact ⟨rfl, rfl⟩
  obtain ⟨hfront, hchain⟩ := List.append_inj hsame (by
    simp only [List.length_append, heth, hflow, hhops, hlens, heth', hflow', hhops', List.length_cons,
      List.length_nil])
  have hkind := (List.append_inj' hfront (hhops.trans hhops'.symm)).1
  exact chain_unique (upper_not_known h.transport) (upper_not_known h'.transport)
    (List.append_singleton_inj.mp hkind).2 hchain

/-- The walk ends inside and finds the transport header exactly if the addresses and the chain of
headers lie inside, and no fragment or authentication header stands before the transport. -/
theorem ipv6_walk_iff (magic : List Byte → List Byte → ℤ → Byte → BitVec 32 → BitVec 16)
    (msdu : List Byte) (csum : BitVec 32) (hmax : msdu.length < 2 ^ 16)
    (hipv6 : isIpv6 msdu = .ok true) :
    Walks magic msdu csum ↔
      ETH_HLEN + IPV6_HLEN ≤ msdu.length ∧ HeadersInside msdu ∧
        ∀ hs upper, WellFormed msdu hs upper →
          ∀ h ∈ hs, h.kind ≠ NEXTHDR_FRAGMENT ∧ h.kind ≠ NEXTHDR_AUTH := by
  constructor
  · rintro ⟨fuel, found, ret, hfind, hrun, htransport⟩
    refine ⟨length_of_ipv6Csum hipv6 hrun, findData_iff.mp ⟨fuel, found, hfind⟩, ?_⟩
    intro hs upper hwf
    obtain ⟨fuel', found', hfind', hiff⟩ := findData_wellFormed hwf hmax
    rw [findData_unique hfind hfind'] at htransport
    exact hiff.mp (htransport hs upper hwf)
  · rintro ⟨hlen, hinside, hheaders⟩
    obtain ⟨fuel, found, hfind⟩ := findData_iff.mpr hinside
    obtain ⟨ret, hrun⟩ := ipv6Csum_of_findData magic csum hipv6 hlen hfind
    refine ⟨fuel, found, ret, hfind, hrun, fun hs upper hwf => ?_⟩
    obtain ⟨fuel', found', hfind', hiff⟩ := findData_wellFormed hwf hmax
    rw [findData_unique hfind hfind']
    exact hiff.mpr (hheaders hs upper hwf)

/-- The Ethernet and the IPv6 header of a packet with `len` bytes behind them. -/
def ipv6Front (len nexthdr : Byte) : List Byte :=
  List.replicate 12 0 ++ [0x86, 0xdd] ++ [0x60, 0, 0, 0] ++ [0, len] ++ [nexthdr] ++
    (64 :: List.replicate 32 1)

/-- A UDP header without payload. -/
def udp : List Byte := [0, 53, 0, 53, 0, 8, 0, 0]

/-- A packet whose one extension header is an authentication header of 12 bytes. -/
def authenticated : List Byte :=
  ipv6Front 20 NEXTHDR_AUTH ++ ([NEXTHDR_UDP, 1, 0, 0, 0, 0, 0, 1, 0, 0, 0, 1] ++ udp)

def auth : Header := ⟨NEXTHDR_AUTH, 1, [0, 0, 0, 0, 0, 1, 0, 0, 0, 1], by decide, by decide, by decide⟩

theorem authenticated_wellFormed : WellFormed authenticated [auth] NEXTHDR_UDP where
  bytes := ⟨List.replicate 12 0, [0x60, 0, 0, 0], [0, 20], 64 :: List.replicate 32 1, udp,
    by decide, by decide, by decide, by decide, by decide⟩
  transport := .inr rfl
  hop := by simp

/-- A hop-by-hop and a destination header of eight bytes each before UDP. -/
def withOptions : List Byte :=
  ipv6Front 24 NEXTHDR_HOP ++ ([NEXTHDR_DEST, 0, 1, 4, 0, 0, 0, 0] ++
    ([NEXTHDR_UDP, 0, 1, 4, 0, 0, 0, 0] ++ udp))

theorem withOptions_wellFormed : WellFormed withOptions
    [⟨NEXTHDR_HOP, 0, [1, 4, 0, 0, 0, 0], by decide, by decide, by decide⟩,
      ⟨NEXTHDR_DEST, 0, [1, 4, 0, 0, 0, 0], by decide, by decide, by decide⟩] NEXTHDR_UDP where
  bytes := ⟨List.replicate 12 0, [0x60, 0, 0, 0], [0, 24], 64 :: List.replicate 32 1, udp,
    by decide, by decide, by decide, by decide, by decide⟩
  transport := .inr rfl
  hop := by decide

/-- The sum of the 16-bit words of a string of bytes. -/
def words : List Byte → ℕ
  | high :: low :: rest => high.toNat * 256 + low.toNat + words rest
  | _ => 0

/-- The kernel's check: the complement of the folded sum over the pseudo header and `csum`. -/
def csumIpv6Magic (saddr daddr : List Byte) (len : ℤ) (proto : Byte) (csum : BitVec 32) :
    BitVec 16 :=
  let sum := words saddr + words daddr + (len % 2 ^ 32).toNat + proto.toNat + csum.toNat
  if sum = 0 then 0xffff else BitVec.ofNat 16 (65535 - ((sum - 1) % 65535 + 1))

theorem ipv6_walk_iff_options : Walks csumIpv6Magic withOptions 0 := by
  refine (ipv6_walk_iff csumIpv6Magic withOptions 0 (by decide) (by decide)).mpr
    ⟨by decide, findData_iff.mp ⟨2, ⟨70, NEXTHDR_UDP⟩, by decide⟩, fun hs upper hwf => ?_⟩
  obtain ⟨rfl, rfl⟩ := hwf.unique withOptions_wellFormed
  decide

/-- The walk stops at the authentication header, 12 bytes before the transport header; and a packet
that ends behind a hop-by-hop header's announcement is read beyond its end. -/
theorem ipv6_walk_fails :
    WellFormed authenticated [auth] NEXTHDR_UDP ∧
    findData 1 authenticated = .ok ⟨54, NEXTHDR_AUTH⟩ ∧
    transportOffset NEXTHDR_UDP [auth] = 66 ∧
    findData 1 (ipv6Front 0 NEXTHDR_HOP) = .error .beyond :=
  ⟨authenticated_wellFormed, by decide, by decide, by decide⟩

end Uwe5631.Ipv6Headers
