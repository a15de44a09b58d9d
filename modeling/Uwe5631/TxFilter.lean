import Uwe5631.DoCsum
import Mathlib

/-!
# The classification of frames to transmit

`sprdwl_tx_filter_packet` gives some frames to the command path, frees others and leaves the rest to
the data path. It reads the headers at offsets that the headers themselves say.
-/
namespace Uwe5631.TxFilter
open DoCsum

inductive Fault
  | outside
  deriving DecidableEq, Repr

/-- What is read or written next lies below an offset. -/
def below {α : Type} (data : List Byte) (n : ℕ) (next : Except Fault α) : Except Fault α :=
  if n ≤ data.length then next else .error .outside

theorem below_eq_ok {α : Type} {data : List Byte} {n : ℕ} {next : Except Fault α} {a : α} :
    below data n next = .ok a ↔ n ≤ data.length ∧ next = .ok a := by
  rw [below]
  by_cases h : n ≤ data.length
  · rw [if_pos h]
    exact ⟨fun hok => ⟨h, hok⟩, fun hok => hok.2⟩
  · rw [if_neg h]
    exact ⟨fun hok => (by cases hok), fun hok => absurd hok.1 h⟩

/-- What is read and written of a `sprdwl_peer_entry`. -/
structure Peer where
  ipAcquired : Byte
  baTxDoneMap : Byte
  vowifiEnabled : Byte
  vowifiPktCnt : Byte
  deriving DecidableEq, Repr

inductive Mode
  | ap
  | p2pGo
  | other
  deriving DecidableEq, Repr

/-- The mode of the interface, the index that `sprdwl_find_lut_index` returns, and whether messages for
debugging are printed. -/
structure Env where
  mode : Mode
  lutIndex : Byte
  debug : Bool

inductive Act
  | xmitData2cmdWq
  | devKfreeSkb
  | vowifiDataProtection
  deriving DecidableEq, Repr

/-- The value, what is done, the skb before that, and the peer. -/
structure Result where
  ret : ℤ
  acts : List Act
  skb : Skb
  peer : Peer
  deriving DecidableEq

def ETH_P_ARP : ℕ := 0x0806
def VOWIFI_VIDEO_DSCP : ℕ := 0x28
def VOWIFI_AUDIO_DSCP : ℕ := 0x36

/-- `offsetof(struct ipv6hdr, nexthdr)` and `offsetof(struct iphdr, protocol)` behind the header of
Ethernet. -/
def NEXTHDR : ℕ := 20
def PROTOCOL : ℕ := 23

/-- `sprdwl_is_group` -/
def isGroup (data : List Byte) : Bool := (data.getD 0 0).getLsbD 0

def isMulticastMacAddr (data : List Byte) : Bool := data.getD 0 0 ≠ 0xff && (data.getD 0 0).getLsbD 0

/-- What the checksum of a multicast packet touches. -/
def mcTouched (s : Skb) : ℕ :=
  if s.ipSummed = .checksumPartial then
    if s.data.getD NEXTHDR 0 = IPPROTO_UDP then ETHER_HDR_LEN + IPV6_HDR_LEN + UDP_CHECK + 2
    else if s.data.getD NEXTHDR 0 = IPPROTO_TCP then ETHER_HDR_LEN + IPV6_HDR_LEN + TCP_CHECK + 2
    else NEXTHDR + 1
  else 0

/-- `sprdwl_tx_mc_pkt` of a packet that it takes. -/
def txMcPkt (s : Skb) (peer : Peer) : Except Fault Result :=
  below s.data (mcTouched s) (.ok ⟨0, [.xmitData2cmdWq], (mcPktChecksum s).2, peer⟩)

def dscp (data : List Byte) : ℕ := (data.getD (ETHER_HDR_LEN + 1) 0).toNat / 4

/-- The port of the destination is read for two of the classes. -/
def vowifiTouched (data : List Byte) (udphdr : ℕ) : ℕ :=
  if netShort data 12 = ETH_P_IP ∧ (dscp data = VOWIFI_IKE_DSCP ∨ dscp data = VOWIFI_SIP_DSCP) then
    udphdr + 4
  else 0

/-- `is_vowifi_pkt` of a packet that does not go by command. -/
def isVowifiMedia (data : List Byte) : Bool :=
  netShort data 12 = ETH_P_IP && (dscp data = VOWIFI_VIDEO_DSCP || dscp data = VOWIFI_AUDIO_DSCP)

/-- The packets of a call are counted. -/
def Peer.countVowifi (peer : Peer) : Peer × List Act :=
  if peer.vowifiEnabled = 1 then
    let cnt := if peer.vowifiPktCnt.toNat < 11 then peer.vowifiPktCnt + 1 else peer.vowifiPktCnt
    ({ peer with vowifiPktCnt := cnt }, if cnt = 10 then [.vowifiDataProtection] else [])
  else (peer, [])

def isIpv4Dhcp (data : List Byte) (udphdr : ℕ) : Bool :=
  netShort data 12 = ETH_P_IP &&
    (netShort data udphdr = DHCP_SERVER_PORT || netShort data udphdr = DHCP_CLIENT_PORT)

def isIpv6Dhcp (data : List Byte) (udphdr : ℕ) : Bool :=
  netShort data 12 = ETH_P_IPV6 &&
    (netShort data udphdr = DHCP_SERVER_PORT_IPV6 || netShort data udphdr = DHCP_CLIENT_PORT_IPV6)

/-- Where the type of a DHCP message is looked for, behind the header of UDP. -/
def DHCPDATA : ℕ := 250

def Peer.dhcp (peer : Peer) (data : List Byte) (udphdr : ℕ) : Peer :=
  if data.getD (udphdr + DHCPDATA) 0 = 3 then
    { peer with ipAcquired := 1, baTxDoneMap := if isGroup data then 0 else peer.baTxDoneMap }
  else if data.getD (udphdr + DHCPDATA) 0 = 5 then { peer with ipAcquired := 1 }
  else peer

/-- The rest for a packet that goes by command. -/
def sendByCmd (env : Env) (s : Skb) (peer : Peer) (udphdr : ℕ) (acts : List Act) :
    Except Fault Result :=
  below s.data
    (if env.debug ∧ (isIpv4Dhcp s.data udphdr ∨ isIpv6Dhcp s.data udphdr) then udphdr + 8 else 0)
    (if s.ipSummed = .checksumPartial then
      below s.data (udphdr + UDP_CHECK + 2)
        (.ok ⟨0, acts ++ [.xmitData2cmdWq], s.complete udphdr UDP_CHECK, peer⟩)
    else .ok ⟨0, acts ++ [.xmitData2cmdWq], s, peer⟩)

/-- `sprdwl_tx_filter_ip_pkt` of a UDP packet. -/
def filterUdp (env : Env) (s : Skb) (peer : Peer) (udphdr : ℕ) : Except Fault Result :=
  below s.data (udphdr + 2) <| below s.data (vowifiTouched s.data udphdr) <|
    let counted := if isVowifiMedia s.data then peer.countVowifi else (peer, [])
    if isIpv4Dhcp s.data udphdr then
      below s.data (udphdr + DHCPDATA + 1)
        (sendByCmd env s (counted.1.dhcp s.data udphdr) udphdr counted.2)
    else if isIpv6Dhcp s.data udphdr ∨ isVowifi2cmd s.data then
      sendByCmd env s counted.1 udphdr counted.2
    else .ok ⟨1, counted.2, s, counted.1⟩

def txFilterIpPkt (env : Env) (s : Skb) (peer : Peer) : Except Fault Result :=
  if netShort s.data 12 = ETH_P_IPV6 then
    below s.data (NEXTHDR + 1) <|
      if s.data.getD NEXTHDR 0 ≠ IPPROTO_UDP then .ok ⟨1, [], s, peer⟩
      else filterUdp env s peer (ETHER_HDR_LEN + IPV6_HDR_LEN)
  else if netShort s.data 12 = ETH_P_IP then
    below s.data (PROTOCOL + 1) <|
      if s.data.getD PROTOCOL 0 ≠ IPPROTO_UDP then .ok ⟨1, [], s, peer⟩
      else filterUdp env s peer (ETHER_HDR_LEN + ihlLen s.data)
  else .ok ⟨1, [], s, peer⟩

def txFilterPacket (env : Env) (s : Skb) (peer : Peer) : Except Fault Result :=
  below s.data ETHER_HDR_LEN <|
    if netShort s.data 12 = ETH_P_ARP then .ok ⟨0, [.xmitData2cmdWq], s, peer⟩
    else if netShort s.data 12 = ETH_P_IPV6 ∧ (env.mode = .ap ∨ env.mode = .p2pGo) ∧
        env.lutIndex ≠ 4 ∧ peer.ipAcquired = 0 then
      .ok ⟨0, [.devKfreeSkb], s, peer⟩
    else if netShort s.data 12 = ETH_P_IPV6 ∧ isMulticastMacAddr s.data ∧ env.mode = .ap then
      txMcPkt s peer
    else txFilterIpPkt env s peer

/-! ## What a call should do -/

def Act.takes : Act → Bool
  | xmitData2cmdWq => true
  | devKfreeSkb => true
  | vowifiDataProtection => false

/-- The value of the message type among the options. -/
def messageType : List Byte → Option (List Byte)
  | tag :: rest =>
    if tag = 0 then messageType rest
    else if tag = 0xff then none
    else
      match rest with
      | [] => none
      | len :: rest =>
        if rest.length < len.toNat then none
        else if tag = 53 then some (rest.take len.toNat)
        else messageType (rest.drop len.toNat)
  | [] => none
termination_by options => options.length
decreasing_by all_goals simp only [List.length_cons, List.length_drop]; omega

def IsDhcpPort (port : ℕ) : Prop := port = DHCP_SERVER_PORT ∨ port = DHCP_CLIENT_PORT

/-- A message of DHCPv4 whose type is REQUEST or ACK: UDP in an IPv4 packet with a whole header that
is no later fragment, between the ports, with the cookie before its options. -/
def Acquires (data : List Byte) : Prop :=
  netShort data 12 = ETH_P_IP ∧ (data.getD ETHER_HDR_LEN 0).toNat / 16 = 4 ∧ 20 ≤ ihlLen data ∧
    data.getD PROTOCOL 0 = IPPROTO_UDP ∧ netShort data 20 % 8192 = 0 ∧
    let udphdr := ETHER_HDR_LEN + ihlLen data
    IsDhcpPort (netShort data udphdr) ∧ IsDhcpPort (netShort data (udphdr + 2)) ∧
      (data.drop (udphdr + 8 + 236)).take 4 = [0x63, 0x82, 0x53, 0x63] ∧
        (messageType (data.drop (udphdr + 8 + 240)) = some [3] ∨
          messageType (data.drop (udphdr + 8 + 240)) = some [5])

def SameFlags (peer peer' : Peer) : Prop :=
  peer'.ipAcquired = peer.ipAcquired ∧ peer'.baTxDoneMap = peer.baTxDoneMap

structure Right (s : Skb) (peer : Peer) (r : Result) : Prop where
  handled : r.ret = 0 → (r.acts.filter Act.takes).length = 1
  passed : r.ret ≠ 0 → r.acts.filter Act.takes = [] ∧ r.skb = s
  flags : ¬ SameFlags peer r.peer → Acquires s.data

/-- The header of UDP and the place of the check sum lie in the frame, where they are used. -/
def SendFine (env : Env) (s : Skb) (udphdr : ℕ) : Prop :=
  (env.debug = true ∧ (isIpv4Dhcp s.data udphdr = true ∨ isIpv6Dhcp s.data udphdr = true) →
      udphdr + 8 ≤ s.data.length) ∧
    (s.ipSummed = .checksumPartial → udphdr + 8 ≤ s.data.length)

/-- The byte at the place of the type would change the flags. -/
def WouldChange (peer : Peer) (data : List Byte) (udphdr : ℕ) : Prop :=
  data.getD (udphdr + DHCPDATA) 0 = 3 ∧
      (peer.ipAcquired ≠ 1 ∨ isGroup data = true ∧ peer.baTxDoneMap ≠ 0) ∨
    data.getD (udphdr + DHCPDATA) 0 = 5 ∧ peer.ipAcquired ≠ 1

/-- A UDP packet has the ports that are read; from a port of DHCPv4 it has the byte at the place of the
type, and where that would change the flags, it is such a message. -/
structure UdpFine (env : Env) (s : Skb) (peer : Peer) (udphdr : ℕ) : Prop where
  source : udphdr + 2 ≤ s.data.length
  dest : vowifiTouched s.data udphdr ≤ s.data.length
  dhcp : isIpv4Dhcp s.data udphdr = true → udphdr + DHCPDATA + 1 ≤ s.data.length ∧
    SendFine env s udphdr ∧ (WouldChange peer s.data udphdr → Acquires s.data)
  cmd : isIpv4Dhcp s.data udphdr = false →
    isIpv6Dhcp s.data udphdr = true ∨ isVowifi2cmd s.data = true → SendFine env s udphdr

/-- An IPv6 packet that is freed. -/
def Freed (env : Env) (s : Skb) (peer : Peer) : Prop :=
  netShort s.data 12 = ETH_P_IPV6 ∧ (env.mode = .ap ∨ env.mode = .p2pGo) ∧ env.lutIndex ≠ 4 ∧
    peer.ipAcquired = 0

def Multicast (env : Env) (s : Skb) : Prop :=
  netShort s.data 12 = ETH_P_IPV6 ∧ isMulticastMacAddr s.data = true ∧ env.mode = .ap

/-- The headers that are read lie in the frame. -/
structure Fine (env : Env) (s : Skb) (peer : Peer) : Prop where
  multicast : ¬ Freed env s peer → Multicast env s → mcTouched s ≤ s.data.length
  ipv6 : ¬ Freed env s peer → ¬ Multicast env s → netShort s.data 12 = ETH_P_IPV6 →
    NEXTHDR + 1 ≤ s.data.length ∧ (s.data.getD NEXTHDR 0 = IPPROTO_UDP →
      UdpFine env s peer (ETHER_HDR_LEN + IPV6_HDR_LEN))
  ipv4 : netShort s.data 12 = ETH_P_IP → PROTOCOL + 1 ≤ s.data.length ∧
    (s.data.getD PROTOCOL 0 = IPPROTO_UDP → UdpFine env s peer (ETHER_HDR_LEN + ihlLen s.data))

/-! ## One function after the other -/

/-- The call returns, and does what it should. -/
def Goes (s : Skb) (peer : Peer) (x : Except Fault Result) : Prop := ∃ r, x = .ok r ∧ Right s peer r

variable {env : Env} {s : Skb} {peer : Peer}

theorem goes_ok {r : Result} : Goes s peer (.ok r) ↔ Right s peer r :=
  ⟨fun ⟨_, h, hr⟩ => Except.ok.inj h ▸ hr, fun h => ⟨r, rfl, h⟩⟩

theorem goes_below {n : ℕ} {next : Except Fault Result} :
    Goes s peer (below s.data n next) ↔ n ≤ s.data.length ∧ Goes s peer next := by
  constructor
  · rintro ⟨r, hr, hright⟩
    obtain ⟨hn, hnext⟩ := below_eq_ok.mp hr
    exact ⟨hn, r, hnext, hright⟩
  · rintro ⟨hn, r, hnext, hright⟩
    exact ⟨r, below_eq_ok.mpr ⟨hn, hnext⟩, hright⟩

theorem sameFlags_refl (peer : Peer) : SameFlags peer peer := ⟨rfl, rfl⟩

/-- A frame that is left. -/
theorem right_passed {acts : List Act} {peer' : Peer} (hacts : acts.filter Act.takes = [])
    (hpeer : SameFlags peer peer') : Right s peer ⟨1, acts, s, peer'⟩ where
  handled h := absurd h one_ne_zero
  passed _ := ⟨hacts, rfl⟩
  flags h := absurd hpeer h

/-- A frame that is taken: what it does to the flags is left to see. -/
theorem right_taken (acts : List Act) {skb : Skb} {peer' : Peer} {act : Act} (hact : act.takes = true)
    (hacts : acts.filter Act.takes = []) :
    Right s peer ⟨0, acts ++ [act], skb, peer'⟩ ↔ (¬ SameFlags peer peer' → Acquires s.data) := by
  refine ⟨fun h => h.flags, fun h => ⟨fun _ => ?_, fun hret => absurd rfl hret, h⟩⟩
  rw [List.filter_append, hacts, List.filter_cons_of_pos hact]
  rfl

theorem countVowifi_flags (peer : Peer) : SameFlags peer peer.countVowifi.1 := by
  rw [Peer.countVowifi]
  split <;> exact ⟨rfl, rfl⟩

theorem countVowifi_acts (peer : Peer) : peer.countVowifi.2.filter Act.takes = [] := by
  rw [Peer.countVowifi]
  split
  · dsimp only
    split_ifs <;> rfl
  · rfl

theorem dhcp_flags (peer : Peer) (data : List Byte) (udphdr : ℕ) :
    ¬ SameFlags peer (peer.dhcp data udphdr) ↔ WouldChange peer data udphdr := by
  rw [Peer.dhcp, WouldChange]
  generalize data.getD (udphdr + DHCPDATA) 0 = type
  by_cases h3 : type = 3
  · have h5 : type ≠ 5 := by
      rw [h3]
      decide
    have hgroup : ((if isGroup data = true then 0 else peer.baTxDoneMap) = peer.baTxDoneMap) ↔
        ¬ (isGroup data = true ∧ peer.baTxDoneMap ≠ 0) := by
      by_cases hgroup : isGroup data = true
      · rw [if_pos hgroup, and_iff_right hgroup, not_not]
        exact eq_comm
      · rw [if_neg hgroup]
        exact ⟨fun _ h => hgroup h.1, fun _ => rfl⟩
    rw [if_pos h3, SameFlags, hgroup, and_iff_right h3, not_and_or, not_not,
      or_iff_left (b := type = 5 ∧ _) fun h => h5 h.1]
    exact or_congr_left (not_congr eq_comm)
  · rw [if_neg h3, or_iff_right (a := type = 3 ∧ _) fun h => h3 h.1]
    by_cases h5 : type = 5
    · rw [if_pos h5, SameFlags, and_iff_left rfl, and_iff_right h5]
      exact not_congr eq_comm
    · rw [if_neg h5]
      exact ⟨fun h => absurd (sameFlags_refl peer) h, fun h => absurd h.1 h5⟩

theorem ite_le_iff {c : Prop} [Decidable c] {n m : ℕ} : (if c then n else 0) ≤ m ↔ (c → n ≤ m) := by
  by_cases h : c
  · rw [if_pos h]
    exact ⟨fun hle _ => hle, fun hle => hle h⟩
  · rw [if_neg h]
    exact ⟨fun _ hc => absurd hc h, fun _ => Nat.zero_le m⟩

theorem sendByCmd_iff {peer' : Peer} {udphdr : ℕ} {acts : List Act}
    (hacts : acts.filter Act.takes = []) :
    Goes s peer (sendByCmd env s peer' udphdr acts) ↔
      SendFine env s udphdr ∧ (¬ SameFlags peer peer' → Acquires s.data) := by
  rw [sendByCmd, goes_below, ite_le_iff, SendFine, and_assoc]
  refine and_congr_right fun _ => ?_
  by_cases hpartial : s.ipSummed = .checksumPartial
  · rw [if_pos hpartial, goes_below, goes_ok, right_taken acts rfl hacts]
    exact and_congr_left fun _ => ⟨fun h _ => h, fun h => h hpartial⟩
  · rw [if_neg hpartial, goes_ok, right_taken acts rfl hacts]
    exact ⟨fun h => ⟨fun hp => absurd hp hpartial, h⟩, fun h => h.2⟩

theorem filterUdp_iff {udphdr : ℕ} :
    Goes s peer (filterUdp env s peer udphdr) ↔ UdpFine env s peer udphdr := by
  have hcounted : SameFlags peer
      (if isVowifiMedia s.data then peer.countVowifi else (peer, [])).1 := by
    split
    · exact countVowifi_flags peer
    · exact sameFlags_refl peer
  have hacts : (if isVowifiMedia s.data then peer.countVowifi else (peer, [])).2.filter Act.takes =
      [] := by
    split
    · exact countVowifi_acts peer
    · rfl
  rw [filterUdp, goes_below, goes_below]
  dsimp only
  generalize (if isVowifiMedia s.data then peer.countVowifi else (peer, [])) = counted
    at hcounted hacts
  cases h4 : isIpv4Dhcp s.data udphdr with
  | true =>
    have hflags : ¬ SameFlags peer (counted.1.dhcp s.data udphdr) ↔
        WouldChange peer s.data udphdr := by
      have hsame : SameFlags counted.1 (counted.1.dhcp s.data udphdr) ↔
          SameFlags peer (counted.1.dhcp s.data udphdr) := by
        rw [SameFlags, SameFlags, hcounted.1, hcounted.2]
      have hchange : WouldChange counted.1 s.data udphdr ↔ WouldChange peer s.data udphdr := by
        rw [WouldChange, WouldChange, hcounted.1, hcounted.2]
      rw [← hsame, ← hchange]
      exact dhcp_flags _ _ _
    rw [if_pos rfl, goes_below, sendByCmd_iff hacts, hflags]
    exact ⟨fun ⟨hsource, hdest, hdhcp⟩ => ⟨hsource, hdest, fun _ => hdhcp,
        fun h => (by simp [h4] at h)⟩,
      fun h => ⟨h.source, h.dest, h.dhcp h4⟩⟩
  | false =>
    rw [if_neg Bool.false_ne_true]
    by_cases hcmd : isIpv6Dhcp s.data udphdr = true ∨ isVowifi2cmd s.data = true
    · rw [if_pos hcmd, sendByCmd_iff hacts]
      exact ⟨fun ⟨hsource, hdest, hsend, _⟩ => ⟨hsource, hdest, fun h => (by simp [h4] at h),
          fun _ _ => hsend⟩,
        fun h => ⟨h.source, h.dest, h.cmd h4 hcmd, fun hchanged => absurd hcounted hchanged⟩⟩
    · rw [if_neg hcmd, goes_ok]
      exact ⟨fun h => ⟨h.1, h.2.1, fun h => (by simp [h4] at h), fun _ h => absurd h hcmd⟩,
        fun h => ⟨h.source, h.dest, right_passed hacts hcounted⟩⟩

theorem txMcPkt_iff : Goes s peer (txMcPkt s peer) ↔ mcTouched s ≤ s.data.length := by
  rw [txMcPkt, goes_below, goes_ok]
  refine and_iff_left ?_
  exact (right_taken [] rfl rfl).mpr fun h => absurd (sameFlags_refl peer) h

theorem right_left (s : Skb) (peer : Peer) : Right s peer ⟨1, [], s, peer⟩ :=
  right_passed rfl (sameFlags_refl peer)

theorem right_act {act : Act} (hact : act.takes = true) : Right s peer ⟨0, [act], s, peer⟩ :=
  (right_taken [] hact rfl).mpr fun h => absurd (sameFlags_refl peer) h

theorem goes_udp {protocol udphdr : ℕ} :
    Goes s peer (below s.data (protocol + 1) (if s.data.getD protocol 0 ≠ IPPROTO_UDP then
        .ok ⟨1, [], s, peer⟩ else filterUdp env s peer udphdr)) ↔
      protocol + 1 ≤ s.data.length ∧
        (s.data.getD protocol 0 = IPPROTO_UDP → UdpFine env s peer udphdr) := by
  rw [goes_below]
  refine and_congr_right fun _ => ?_
  by_cases hudp : s.data.getD protocol 0 = IPPROTO_UDP
  · rw [if_neg (not_not.mpr hudp), filterUdp_iff]
    exact ⟨fun h _ => h, fun h => h hudp⟩
  · rw [if_pos hudp, goes_ok]
    exact ⟨fun _ h => absurd h hudp, fun _ => right_left s peer⟩

theorem txFilterIpPkt_iff : Goes s peer (txFilterIpPkt env s peer) ↔
    (netShort s.data 12 = ETH_P_IPV6 → NEXTHDR + 1 ≤ s.data.length ∧
      (s.data.getD NEXTHDR 0 = IPPROTO_UDP →
        UdpFine env s peer (ETHER_HDR_LEN + IPV6_HDR_LEN))) ∧
    (netShort s.data 12 = ETH_P_IP → PROTOCOL + 1 ≤ s.data.length ∧
      (s.data.getD PROTOCOL 0 = IPPROTO_UDP →
        UdpFine env s peer (ETHER_HDR_LEN + ihlLen s.data))) := by
  have hdistinct : ETH_P_IPV6 ≠ ETH_P_IP := by decide
  rw [txFilterIpPkt]
  by_cases h6 : netShort s.data 12 = ETH_P_IPV6
  · rw [if_pos h6, goes_udp]
    exact ⟨fun h => ⟨fun _ => h, fun h4 => absurd (h6.symm.trans h4) hdistinct⟩, fun h => h.1 h6⟩
  · rw [if_neg h6]
    by_cases h4 : netShort s.data 12 = ETH_P_IP
    · rw [if_pos h4, goes_udp]
      exact ⟨fun h => ⟨fun h6' => absurd h6' h6, fun _ => h⟩, fun h => h.2 h4⟩
    · rw [if_neg h4, goes_ok]
      exact ⟨fun _ => ⟨fun h => absurd h h6, fun h => absurd h h4⟩, fun _ => right_left s peer⟩

/-- A frame is classified with all accesses inside it, taken once or left as it is, and with the flags
of its peer changed for a DHCP message alone, exactly under the conditions. -/
theorem tx_filter_iff (env : Env) (s : Skb) (peer : Peer) (hlen : ETHER_HDR_LEN ≤ s.data.length) :
    (∃ r, txFilterPacket env s peer = .ok r ∧ Right s peer r) ↔ Fine env s peer := by
  change Goes s peer (txFilterPacket env s peer) ↔ _
  have hip : ETH_P_IPV6 ≠ ETH_P_IP := by decide
  rw [txFilterPacket, goes_below, and_iff_right hlen]
  by_cases harp : netShort s.data 12 = ETH_P_ARP
  · have h6 : netShort s.data 12 ≠ ETH_P_IPV6 := by
      rw [harp]
      decide
    have h4 : netShort s.data 12 ≠ ETH_P_IP := by
      rw [harp]
      decide
    rw [if_pos harp, goes_ok]
    exact ⟨fun _ => ⟨fun _ h => absurd h.1 h6, fun _ _ h => absurd h h6, fun h => absurd h h4⟩,
      fun _ => right_act rfl⟩
  rw [if_neg harp]
  by_cases hfreed : Freed env s peer
  · rw [if_pos (show netShort s.data 12 = ETH_P_IPV6 ∧ (env.mode = .ap ∨ env.mode = .p2pGo) ∧
      env.lutIndex ≠ 4 ∧ peer.ipAcquired = 0 from hfreed), goes_ok]
    exact ⟨fun _ => ⟨fun h => absurd hfreed h, fun h => absurd hfreed h,
      fun h => absurd (hfreed.1.symm.trans h) hip⟩, fun _ => right_act rfl⟩
  rw [if_neg (show ¬ (netShort s.data 12 = ETH_P_IPV6 ∧ (env.mode = .ap ∨ env.mode = .p2pGo) ∧
    env.lutIndex ≠ 4 ∧ peer.ipAcquired = 0) from hfreed)]
  by_cases hmc : Multicast env s
  · rw [if_pos (show netShort s.data 12 = ETH_P_IPV6 ∧ isMulticastMacAddr s.data = true ∧
      env.mode = .ap from hmc), txMcPkt_iff]
    exact ⟨fun h => ⟨fun _ _ => h, fun _ h => absurd hmc h, fun h => absurd (hmc.1.symm.trans h) hip⟩,
      fun h => h.multicast hfreed hmc⟩
  · rw [if_neg (show ¬ (netShort s.data 12 = ETH_P_IPV6 ∧ isMulticastMacAddr s.data = true ∧
      env.mode = .ap) from hmc), txFilterIpPkt_iff]
    exact ⟨fun h => ⟨fun _ h' => absurd h' hmc, fun _ _ => h.1, h.2⟩,
      fun h => ⟨h.ipv6 hfreed hmc, h.ipv4⟩⟩

/-- A DHCP REQUEST from port 68 to port 67, to all stations. -/
def dhcpRequest : List Byte :=
  (List.replicate 6 0xff ++ List.replicate 6 2 ++ [8, 0]) ++
    ([0x45, 0, 1, 0x10, 0, 0, 0x40, 0, 64, 17, 0, 0] ++ List.replicate 4 0 ++ List.replicate 4 0xff) ++
    ([0, 68, 0, 67, 0, 0xfc, 0, 0] ++ List.replicate 236 0) ++ [0x63, 0x82, 0x53, 0x63, 53, 1, 3, 0xff]

theorem le_length_dhcpRequest {n : ℕ} (h : n ≤ 286) : n ≤ dhcpRequest.length := by
  have hlength : dhcpRequest.length = 286 := by
    simp only [dhcpRequest, List.length_append, List.length_replicate, List.length_cons,
      List.length_nil]
  omega

theorem dhcpRequest_acquires : Acquires dhcpRequest := by
  refine ⟨by decide, by decide, by decide, by decide, by decide, .inr (by decide), .inl (by decide),
    by decide, .inl ?_⟩
  have hoptions : dhcpRequest.drop (ETHER_HDR_LEN + ihlLen dhcpRequest + 8 + 240) =
      [53, 1, 3, 0xff] := by
    decide
  rw [hoptions]
  simp [messageType]

/-- The check sum is left to the device, and messages are printed. -/
theorem tx_filter_iff_request : ∃ r, txFilterPacket ⟨.other, 0, true⟩
    ⟨0, dhcpRequest, .checksumPartial⟩ ⟨0, 3, 0, 0⟩ = .ok r ∧
      Right ⟨0, dhcpRequest, .checksumPartial⟩ ⟨0, 3, 0, 0⟩ r := by
  have hsend : SendFine ⟨.other, 0, true⟩ ⟨0, dhcpRequest, .checksumPartial⟩
      (ETHER_HDR_LEN + ihlLen dhcpRequest) :=
    ⟨fun _ => le_length_dhcpRequest (by decide), fun _ => le_length_dhcpRequest (by decide)⟩
  have hudp : UdpFine ⟨.other, 0, true⟩ ⟨0, dhcpRequest, .checksumPartial⟩ ⟨0, 3, 0, 0⟩
      (ETHER_HDR_LEN + ihlLen dhcpRequest) :=
    { source := le_length_dhcpRequest (by decide)
      dest := le_length_dhcpRequest (by decide)
      dhcp := fun _ => ⟨le_length_dhcpRequest (by decide), hsend, fun _ => dhcpRequest_acquires⟩
      cmd := fun _ _ => hsend }
  exact (tx_filter_iff _ _ _ (le_length_dhcpRequest (by decide))).mpr
    ⟨fun _ h => absurd h.1 (by decide), fun _ _ h => absurd h (by decide),
      fun _ => ⟨le_length_dhcpRequest (by decide), fun _ => hudp⟩⟩

/-- An IPv6 frame of 14 bytes has no next header. -/
theorem next_header_outside : ¬ ∃ r, txFilterPacket ⟨.other, 0, false⟩
    ⟨0, List.replicate 12 0 ++ [0x86, 0xdd], .checksumNone⟩ ⟨0, 0, 0, 0⟩ = .ok r ∧
      Right ⟨0, List.replicate 12 0 ++ [0x86, 0xdd], .checksumNone⟩ ⟨0, 0, 0, 0⟩ r := by
  rintro ⟨r, hr, -⟩
  cases hr

end Uwe5631.TxFilter
