import Mathlib.Data.BitVec
import Mathlib.Data.Fintype.Basic

/-!
# Ownership in `sprdwl_start_xmit`

What a call does to the skb it is handed, to the copies that replace it and to the message it takes
is a list of acts.
-/
namespace Uwe5631.StartXmit

abbrev EPERM : ℤ := 1

abbrev EAGAIN : ℤ := 11

abbrev ENOMEM : ℤ := 12

abbrev SPRDWL_MAX_CMD_TXLEN : ℕ := 1596

abbrev SPRDWL_MAX_DATA_TXLEN : ℕ := 1672

abbrev DSCR_LEN : ℕ := 11

abbrev MSG_PTR_LEN : ℕ := 8

abbrev MSDU_DSCR_RSVD : ℕ := 5

abbrev FLAG_SIZE : ℕ := 5

abbrev LLC_HEADER_LEN : ℕ := 8

/-- `sizeof(struct sprdwl_cmd_hdr)` -/
abbrev CMD_HDR_LEN : ℕ := 12

/-- The skb handed in, and the copies with more headroom that each of three places makes at most
once. -/
inductive SkbId where
  | handed
  | startXmitCopy
  | pppoeCopy
  | fillDscrCopy
  deriving DecidableEq, Repr

instance : Fintype SkbId where
  elems := {SkbId.handed, SkbId.startXmitCopy, SkbId.pppoeCopy, SkbId.fillDscrCopy}
  complete s := by cases s <;> decide

inductive Act where
  /-- `dev_kfree_skb`, `kfree_skb` or `consume_skb` -/
  | free (skb : SkbId)
  /-- `skb_realloc_headroom` returns this copy -/
  | copied (skb : SkbId)
  /-- the bytes or the header of the skb are written to -/
  | alter (skb : SkbId)
  /-- `memcpy` into a work that is queued -/
  | toWork (skb : SkbId)
  /-- a message is taken from its pool -/
  | takeMsg
  /-- a message is queued, or held back by the TCP ACK filter, with the skb it owns -/
  | queueMsg (skb : Option SkbId)
  /-- the TCP ACK filter drops the message and its skb -/
  | dropMsg (skb : SkbId)
  /-- the message goes back into its pool -/
  | putMsg
  deriving DecidableEq, Repr

inductive Mode where
  | station
  | ap
  | p2pGo
  | other
  deriving DecidableEq, Repr

/-- `skb->protocol` -/
inductive SkbProtocol where
  | pae
  | wapi
  | other
  deriving DecidableEq, Repr

/-- `h_proto` -/
inductive EthProto where
  | arp
  | ip
  | ipv6
  | pppDisc
  | pppSes
  | other
  deriving DecidableEq, Repr

/-- How it goes with the buffer of a command. -/
inductive CmdBuf where
  | noMsg
  | noData
  | ok
  deriving DecidableEq, Repr

/-- What `sprdwl_filter_send_tcp_ack` does to a message. -/
inductive TcpAck where
  | pass
  | held
  | dropped
  deriving DecidableEq, Repr

/-- What a call finds: the state of the driver and of the interface, the frame, and how it goes with
the calls that can fail. `skb_realloc_headroom` returns the headroom of the copy. -/
structure Env where
  cpAsserted : Bool
  suspended : Bool
  mode : Mode
  connected : Bool
  fwOpen : Bool
  /-- `refcnt` of the command path -/
  refcnt : ℕ
  pcie : Bool
  hifOffset : ℕ
  neededHeadroom : ℕ
  protocol : SkbProtocol
  ethProto : EthProto
  eapFailure : Bool
  len : ℕ
  headroom : ℕ
  nonlinear : Bool
  udp : Bool
  dhcp : Bool
  vowifi2cmd : Bool
  /-- the first byte of the destination -/
  da : BitVec 8
  checksumPartial : Bool
  /-- what `sprdwl_find_lut_index` returns -/
  lutIndex : ℕ
  ipAcquired : Bool
  linearize : Bool
  cmdBuf : CmdBuf
  work : Bool
  msg : Bool
  startXmitRealloc : Option ℕ
  pppoeRealloc : Option ℕ
  fillDscrRealloc : Option ℕ
  /-- the data begins at a multiple of 4 -/
  aligned : Bool
  /-- `skb_pad` finds room -/
  pad : Bool
  tcpAck : TcpAck
  /-- `change_priority_if` finds no access category -/
  acRefused : Bool
  deriving DecidableEq, Repr

/-- An skb with what is left of its headroom and with its length. -/
structure Skb where
  id : SkbId
  headroom : ℕ
  len : ℕ

inductive Ret where
  | NETDEV_TX_OK
  | NETDEV_TX_BUSY
  deriving DecidableEq, Repr

def Env.dscrRsvd (env : Env) : ℕ := if env.pcie then MSDU_DSCR_RSVD else 0

/-- The headroom `sprdwl_intf_fill_msdu_dscr` asks for. -/
def Env.dscrRoom (env : Env) : ℕ := DSCR_LEN + env.hifOffset + MSG_PTR_LEN + env.dscrRsvd

/-- `sprdwl_is_group` -/
def Env.isGroup (env : Env) : Bool := env.da.getLsbD 0

/-- `is_multicast_mac_addr` -/
def Env.isMulticastMacAddr (env : Env) : Bool := env.da != 0xff && env.da.getLsbD 0

/-- A frame to a single station for which there is no entry of the peer table. -/
def Env.Unknown (env : Env) : Prop := env.lutIndex < 6 ∧ env.isGroup = false

instance (env : Env) : Decidable env.Unknown := inferInstanceAs (Decidable (_ ∧ _))

/-- The end of `sprdwl_intf_fill_msdu_dscr`. -/
def fillDscr (env : Env) (skb : SkbId) : List Act × ℤ :=
  if env.Unknown then ([], -EPERM) else ([.alter skb], 0)

/-- `sprdwl_intf_fill_msdu_dscr`. The copy is known to itself only. -/
def intfFillMsduDscr (env : Env) (skb : Skb) : List Act × ℤ :=
  if skb.headroom < env.dscrRoom then
    match env.fillDscrRealloc with
    | none => ([.free skb.id], -EPERM)
    | some _ =>
      let r := fillDscr env .fillDscrCopy
      ([.copied .fillDscrCopy, .free skb.id] ++ r.1, r.2)
  else fillDscr env skb.id

/-- `sprdwl_tx_msg_func` on a message, with the skb it owns. -/
def txMsgFunc (refused : Bool) (skb : Option SkbId) : List Act × ℤ :=
  if refused then ([.putMsg], -EPERM) else ([.queueMsg skb], 0)

/-- `sprdwl_cmd_getbuf_atomic` -/
def cmdGetbufAtomic (env : Env) : List Act × Bool :=
  match env.cmdBuf with
  | .noMsg => ([], false)
  | .noData => ([.takeMsg, .putMsg], false)
  | .ok => ([.takeMsg], true)

/-- A command that carries the skb is too long. -/
def Env.CmdTooLong (env : Env) : Prop :=
  (CMD_HDR_LEN + (env.len + DSCR_LEN + env.dscrRsvd + FLAG_SIZE)) % 65536 > SPRDWL_MAX_CMD_TXLEN

instance (env : Env) : Decidable env.CmdTooLong := inferInstanceAs (Decidable (_ > _))

/-- `sprdwl_xmit_data2cmd` -/
def xmitData2cmd (env : Env) (skb : Skb) : List Act × ℤ :=
  if env.refcnt > 0 then ([], -EAGAIN)
  else
    let fill := intfFillMsduDscr env skb
    if fill.2 ≠ 0 then (fill.1 ++ [.free skb.id], -EPERM)
    else
      let buf := cmdGetbufAtomic env
      if buf.2 = false then (fill.1 ++ [.alter skb.id] ++ buf.1 ++ [.free skb.id], -ENOMEM)
      else
        let tx := txMsgFunc (decide env.CmdTooLong) none
        (fill.1 ++ [.alter skb.id] ++ buf.1 ++ [.free skb.id] ++ tx.1, tx.2)

/-- `sprdwl_xmit_data2cmd_wq` -/
def xmitData2cmdWq (env : Env) (skb : Skb) : List Act × ℤ :=
  let fill := intfFillMsduDscr env skb
  if fill.2 ≠ 0 then (fill.1 ++ [.free skb.id], -EPERM)
  else if env.work = false then (fill.1 ++ [.alter skb.id, .free skb.id], -1)
  else (fill.1 ++ [.alter skb.id, .toWork skb.id, .free skb.id], 0)

/-- `sprdwl_tx_filter_packet` with `sprdwl_tx_mc_pkt` and `sprdwl_tx_filter_ip_pkt`: what is done if
it returns 0. -/
def txFilterPacket (env : Env) (skb : Skb) : Option (List Act) :=
  let checksum := if env.checksumPartial then [.alter skb.id] else []
  if env.ethProto = .arp then some (xmitData2cmdWq env skb).1
  else if env.ethProto = .ipv6 ∧ (env.mode = .ap ∨ env.mode = .p2pGo) ∧ env.lutIndex ≠ 4 ∧
      env.ipAcquired = false then some [.free skb.id]
  else if env.ethProto = .ipv6 ∧ env.isMulticastMacAddr = true ∧ env.mode = .ap then
    some (checksum ++ (xmitData2cmdWq env skb).1)
  else if (env.ethProto = .ip ∨ env.ethProto = .ipv6) ∧ env.udp = true ∧
      (env.dhcp = true ∨ env.ethProto = .ip ∧ env.vowifi2cmd = true) then
    some (checksum ++ (xmitData2cmdWq env skb).1)
  else none

/-- `sprdwl_fill_pppoe_llc_header`, with the skb to go on with. -/
def fillPppoeLlcHeader (env : Env) (skb : Skb) : List Act × Option Skb :=
  if env.ethProto ≠ .pppDisc ∧ env.ethProto ≠ .pppSes then ([], some skb)
  else if skb.headroom < LLC_HEADER_LEN then
    match env.pppoeRealloc with
    | none => ([.free skb.id], none)
    | some headroom =>
      ([.copied .pppoeCopy, .free skb.id, .alter .pppoeCopy],
        some ⟨.pppoeCopy, headroom - LLC_HEADER_LEN, skb.len + LLC_HEADER_LEN⟩)
  else ([.alter skb.id], some ⟨skb.id, skb.headroom - LLC_HEADER_LEN, skb.len + LLC_HEADER_LEN⟩)

/-- A message that carries the skb is too long, or WMM refuses it. -/
def Env.Refused (env : Env) (skb : Skb) : Prop :=
  (skb.len + DSCR_LEN + env.dscrRsvd + 3) % 65536 > SPRDWL_MAX_DATA_TXLEN ∨ env.acRefused = true

instance (env : Env) (skb : Skb) : Decidable (env.Refused skb) :=
  inferInstanceAs (Decidable (_ ∨ _))

/-- `sprdwl_send_data` behind the descriptor. -/
def sendFilled (env : Env) (skb : Skb) : List Act × ℤ :=
  if env.aligned = false ∧ env.pad = false then ([.alter skb.id, .free skb.id], -1)
  else
    match env.tcpAck with
    | .held => ([.alter skb.id, .queueMsg (some skb.id)], 0)
    | .dropped => ([.alter skb.id, .dropMsg skb.id], 0)
    | .pass =>
      let tx := txMsgFunc (decide (env.Refused skb)) (some skb.id)
      (.alter skb.id :: tx.1, tx.2)

/-- `sprdwl_send_data` -/
def sendData (env : Env) (skb : Skb) : List Act × ℤ :=
  let fill := intfFillMsduDscr env skb
  if fill.2 ≠ 0 then (fill.1, -EPERM)
  else
    let r := sendFilled env skb
    (fill.1 ++ r.1, r.2)

/-- The headroom in `sprdwl_start_xmit`, with the skb to go on with. -/
def makeHeadroom (env : Env) (skb : Skb) : List Act × Option Skb :=
  if skb.headroom < env.neededHeadroom then
    match env.startXmitRealloc with
    | none => ([.free skb.id], none)
    | some headroom =>
      ([.copied .startXmitCopy, .free skb.id], some ⟨.startXmitCopy, headroom, skb.len⟩)
  else ([], some skb)

/-- `sprdwl_start_xmit` from `sprdwl_send_data` on. -/
def startXmitSend (env : Env) (skb : Skb) : List Act :=
  let r := sendData env skb
  if r.2 ≠ 0 then r.1 ++ [.free skb.id, .putMsg] else r.1

/-- `sprdwl_start_xmit` with a message in hand. -/
def startXmitMsg (env : Env) (skb : Skb) : List Act :=
  let room := makeHeadroom env skb
  match room.2 with
  | none => room.1 ++ [.putMsg]
  | some skb =>
    let llc := fillPppoeLlcHeader env skb
    match llc.2 with
    | none => room.1 ++ llc.1 ++ [.putMsg]
    | some skb => room.1 ++ llc.1 ++ startXmitSend env skb

/-- The skb as it is handed in. -/
def Env.skb (env : Env) : Skb := ⟨.handed, env.headroom, env.len⟩

/-- `sprdwl_start_xmit` on a linear skb. -/
def startXmitLinear (env : Env) : List Act × Ret :=
  if env.mode = .p2pGo ∧ env.protocol = .pae ∧ env.eapFailure = true then
    ((xmitData2cmd env env.skb).1, .NETDEV_TX_OK)
  else if env.protocol = .pae ∨ env.protocol = .wapi then
    let r := xmitData2cmdWq env env.skb
    (r.1, if r.2 = -EAGAIN then .NETDEV_TX_BUSY else .NETDEV_TX_OK)
  else
    match txFilterPacket env env.skb with
    | some acts => (acts, .NETDEV_TX_OK)
    | none =>
      if env.fwOpen = false then ([.free .handed], .NETDEV_TX_OK)
      else if env.msg = false then ([.free .handed], .NETDEV_TX_BUSY)
      else (.takeMsg :: startXmitMsg env env.skb, .NETDEV_TX_OK)

/-- `sprdwl_start_xmit` -/
def startXmit (env : Env) : List Act × Ret :=
  if env.cpAsserted = true ∨ env.suspended = true then ([.free .handed], .NETDEV_TX_OK)
  else if env.mode = .station ∧ env.connected = false then ([.free .handed], .NETDEV_TX_OK)
  else if env.nonlinear = true ∧ env.linearize = false then ([.free .handed], .NETDEV_TX_OK)
  else
    let r := startXmitLinear env
    ((if env.nonlinear then [.alter .handed] else []) ++ r.1, r.2)

/-! ## What is owed -/

/-- The act ends the ownership of the skb: it is freed, or a message owns it. -/
def Act.Consumes (s : SkbId) : Act → Bool
  | .free skb => skb = s
  | .queueMsg skb => skb = some s
  | .dropMsg skb => skb = s
  | _ => false

/-- The act ends the ownership of the message. -/
def Act.Settles : Act → Bool
  | .queueMsg _ => true
  | .dropMsg _ => true
  | .putMsg => true
  | _ => false

/-- How many skbs there are of an identity: one that is handed in, and the copies. -/
def made (s : SkbId) (acts : List Act) : ℕ :=
  (if s = .handed then 1 else 0) + acts.count (.copied s)

/-- Each skb is consumed exactly once, and the message is queued or back in its pool exactly
once. -/
structure Settled (acts : List Act) : Prop where
  skb : ∀ s, acts.countP (Act.Consumes s) = made s acts
  msg : acts.countP Act.Settles = acts.count .takeMsg

/-- The skb is neither consumed nor altered, and no message is held. -/
structure Untouched (acts : List Act) : Prop where
  consumed : acts.countP (Act.Consumes .handed) = 0
  altered : Act.alter .handed ∉ acts
  msg : acts.count .putMsg = acts.count .takeMsg

/-- What a call owes its caller. -/
def Owned (r : List Act × Ret) : Prop :=
  match r.2 with
  | .NETDEV_TX_OK => Settled r.1
  | .NETDEV_TX_BUSY => Untouched r.1

instance (acts : List Act) : Decidable (Settled acts) :=
  decidable_of_iff (_ ∧ _) ⟨fun h => ⟨h.1, h.2⟩, fun h => ⟨h.skb, h.msg⟩⟩

instance (acts : List Act) : Decidable (Untouched acts) :=
  decidable_of_iff (_ ∧ _ ∧ _)
    ⟨fun h => ⟨h.1, h.2.1, h.2.2⟩, fun h => ⟨h.consumed, h.altered, h.msg⟩⟩

/-! ## When it is paid -/

/-- The skb has room for the descriptor and is not replaced behind the back of the caller. -/
def Env.Roomy (env : Env) (skb : Skb) : Prop := env.dscrRoom ≤ skb.headroom

/-- An skb is aligned or there is room to align it, and the message is not refused where the TCP ACK
filter lets it pass. -/
def FilledFine (env : Env) (skb : Skb) : Prop :=
  (env.aligned = true ∨ env.pad = true) ∧ (env.tcpAck = .pass → ¬ env.Refused skb)

/-- An skb that `sprdwl_send_data` gets has room, and all is well with it unless the station is
unknown. -/
def SendFine (env : Env) (skb : Skb) : Prop :=
  env.Roomy skb ∧ (¬ env.Unknown → FilledFine env skb)

/-- With a message in hand. -/
def MsgFine (env : Env) : Prop :=
  ∀ skb ∈ (makeHeadroom env env.skb).2, ∀ skb' ∈ (fillPppoeLlcHeader env skb).2, SendFine env skb'

/-- A frame that `sprdwl_tx_filter_packet` sends by a command. -/
def Env.ByCommand (env : Env) : Prop :=
  env.ethProto = .arp ∨ env.ethProto = .ipv6 ∧ env.isMulticastMacAddr = true ∧ env.mode = .ap ∨
    (env.ethProto = .ip ∨ env.ethProto = .ipv6) ∧ env.udp = true ∧
      (env.dhcp = true ∨ env.ethProto = .ip ∧ env.vowifi2cmd = true)

instance (env : Env) : Decidable env.ByCommand := inferInstanceAs (Decidable (_ ∨ _))

/-- A linear skb: no command is under way when an EAP failure is to be sent, an skb that goes out by
a command has room, and there is a message for data. -/
def LinearFine (env : Env) : Prop :=
  if env.mode = .p2pGo ∧ env.protocol = .pae ∧ env.eapFailure = true then
    env.refcnt = 0 ∧ env.Roomy env.skb
  else if env.protocol = .pae ∨ env.protocol = .wapi then env.Roomy env.skb
  else if env.ethProto = .ipv6 ∧ (env.mode = .ap ∨ env.mode = .p2pGo) ∧ env.lutIndex ≠ 4 ∧
      env.ipAcquired = false then True
  else if env.ByCommand then env.Roomy env.skb
  else env.fwOpen = true → env.msg = true ∧ MsgFine env

/-- A call that drops the skb at once owes nothing more. -/
def Fine (env : Env) : Prop :=
  ¬ (env.cpAsserted = true ∨ env.suspended = true) →
    ¬ (env.mode = .station ∧ env.connected = false) →
    ¬ (env.nonlinear = true ∧ env.linearize = false) → LinearFine env

variable {env : Env} {s : SkbId} {skb skb' : Skb} {acts pre rest : List Act}

theorem settled_alter : Settled (.alter s :: acts) ↔ Settled acts := by
  constructor
  · intro h
    refine ⟨fun t => ?_, ?_⟩
    · simpa [Act.Consumes, made] using h.skb t
    · simpa [Act.Settles] using h.msg
  · intro h
    refine ⟨fun t => ?_, ?_⟩
    · simpa [Act.Consumes, made] using h.skb t
    · simpa [Act.Settles] using h.msg

theorem settled_alter_if {p : Prop} [Decidable p] :
    Settled ((if p then [.alter s] else []) ++ acts) ↔ Settled acts := by
  split
  · exact settled_alter
  · exact Iff.rfl

/-- So far one skb and the message are in hand, and nothing else is. -/
structure Holding (s : SkbId) (acts : List Act) : Prop where
  skb : ∀ t, acts.countP (Act.Consumes t) + (if t = s then 1 else 0) = made t acts
  settles : acts.countP Act.Settles = 0
  takeMsg : acts.count .takeMsg = 1

/-- The skb and the message in hand and the copies made from now on are consumed once. -/
structure Pays (s : SkbId) (acts : List Act) : Prop where
  skb : ∀ t, acts.countP (Act.Consumes t) = (if t = s then 1 else 0) + acts.count (.copied t)
  msg : acts.countP Act.Settles = 1 + acts.count .takeMsg

instance (s : SkbId) (acts : List Act) : Decidable (Holding s acts) :=
  decidable_of_iff (_ ∧ _ ∧ _)
    ⟨fun h => ⟨h.1, h.2.1, h.2.2⟩, fun h => ⟨h.skb, h.settles, h.takeMsg⟩⟩

instance (s : SkbId) (acts : List Act) : Decidable (Pays s acts) :=
  decidable_of_iff (_ ∧ _) ⟨fun h => ⟨h.1, h.2⟩, fun h => ⟨h.skb, h.msg⟩⟩

/-- What is left to do after the first part of a call. -/
theorem settled_append_iff (h : Holding s pre) : Settled (pre ++ rest) ↔ Pays s rest := by
  have htake := h.takeMsg
  have hsettles := h.settles
  constructor
  · intro hset
    refine ⟨fun t => ?_, ?_⟩
    · have hpre := h.skb t
      have hall := hset.skb t
      simp only [made, List.countP_append, List.count_append] at hpre hall
      omega
    · have hall := hset.msg
      rw [List.countP_append, List.count_append] at hall
      omega
  · intro hpays
    refine ⟨fun t => ?_, ?_⟩
    · have hpre := h.skb t
      have hrest := hpays.skb t
      simp only [made, List.countP_append, List.count_append] at hpre hrest ⊢
      omega
    · have hrest := hpays.msg
      rw [List.countP_append, List.count_append]
      omega

/-- The first part of a call goes on. -/
theorem Holding.append (h : Holding s pre) {t : SkbId}
    (hrest : ∀ u, rest.countP (Act.Consumes u) + (if u = t then 1 else 0) =
      (if u = s then 1 else 0) + rest.count (.copied u))
    (hsettles : rest.countP Act.Settles = 0) (htake : rest.count .takeMsg = 0) :
    Holding t (pre ++ rest) := by
  refine ⟨fun u => ?_, ?_, ?_⟩
  · have hpre := h.skb u
    have hu := hrest u
    simp only [made, List.countP_append, List.count_append] at hpre hu ⊢
    omega
  · rw [List.countP_append, h.settles, hsettles]
  · rw [List.count_append, h.takeMsg, htake]

/-! ## Frames that go out by a command -/

theorem skb_id : env.skb.id = .handed := rfl

/-- What `sprdwl_intf_fill_msdu_dscr` does. -/
inductive Fills (env : Env) (skb : Skb) : List Act × ℤ → Prop where
  | unknown (hroom : env.Roomy skb) (hunknown : env.Unknown) : Fills env skb ([], -EPERM)
  | filled (hroom : env.Roomy skb) (hknown : ¬ env.Unknown) : Fills env skb ([.alter skb.id], 0)
  | noCopy (hroom : ¬ env.Roomy skb) : Fills env skb ([.free skb.id], -EPERM)
  | copyUnknown (hroom : ¬ env.Roomy skb) :
    Fills env skb ([.copied .fillDscrCopy, .free skb.id], -EPERM)
  | copyFilled (hroom : ¬ env.Roomy skb) :
    Fills env skb ([.copied .fillDscrCopy, .free skb.id, .alter .fillDscrCopy], 0)

theorem intfFillMsduDscr_fills (env : Env) (skb : Skb) :
    Fills env skb (intfFillMsduDscr env skb) := by
  by_cases hroom : env.Roomy skb
  · rw [intfFillMsduDscr, if_neg (Nat.not_lt.mpr hroom), fillDscr]
    split
    · exact .unknown hroom ‹_›
    · exact .filled hroom ‹_›
  · rw [intfFillMsduDscr, if_pos (Nat.lt_of_not_le hroom)]
    cases env.fillDscrRealloc with
    | none => exact .noCopy hroom
    | some n =>
      simp only [fillDscr]
      split
      · exact .copyUnknown hroom
      · exact .copyFilled hroom

theorem xmitData2cmdWq_settled_iff :
    Settled (xmitData2cmdWq env env.skb).1 ↔ env.Roomy env.skb := by
  have hfill := intfFillMsduDscr_fills env env.skb
  rw [xmitData2cmdWq]
  generalize intfFillMsduDscr env env.skb = r at hfill ⊢
  cases hfill with
  | unknown hroom hunknown =>
    refine iff_of_true ?_ hroom
    rw [skb_id]
    cases env.work <;> decide
  | filled hroom hknown =>
    refine iff_of_true ?_ hroom
    rw [skb_id]
    cases env.work <;> decide
  | noCopy hroom =>
    refine iff_of_false ?_ hroom
    rw [skb_id]
    cases env.work <;> decide
  | copyUnknown hroom =>
    refine iff_of_false ?_ hroom
    rw [skb_id]
    cases env.work <;> decide
  | copyFilled hroom =>
    refine iff_of_false ?_ hroom
    rw [skb_id]
    cases env.work <;> decide

theorem xmitData2cmd_settled_iff :
    Settled (xmitData2cmd env env.skb).1 ↔ env.refcnt = 0 ∧ env.Roomy env.skb := by
  by_cases hbusy : env.refcnt > 0
  · refine iff_of_false ?_ fun h => Nat.ne_of_gt hbusy h.1
    rw [xmitData2cmd, if_pos hbusy]
    decide
  · have hzero : env.refcnt = 0 := Nat.eq_zero_of_not_pos hbusy
    have hfill := intfFillMsduDscr_fills env env.skb
    rw [xmitData2cmd, if_neg hbusy, cmdGetbufAtomic]
    generalize intfFillMsduDscr env env.skb = r at hfill ⊢
    generalize decide env.CmdTooLong = refused
    rw [skb_id]
    cases hfill with
    | unknown hroom hunknown =>
      refine iff_of_true ?_ ⟨hzero, hroom⟩
      cases env.cmdBuf <;> cases refused <;> decide
    | filled hroom hknown =>
      refine iff_of_true ?_ ⟨hzero, hroom⟩
      rw [skb_id]
      cases env.cmdBuf <;> cases refused <;> decide
    | noCopy hroom =>
      refine iff_of_false ?_ fun h => hroom h.2
      rw [skb_id]
      cases env.cmdBuf <;> cases refused <;> decide
    | copyUnknown hroom =>
      refine iff_of_false ?_ fun h => hroom h.2
      rw [skb_id]
      cases env.cmdBuf <;> cases refused <;> decide
    | copyFilled hroom =>
      refine iff_of_false ?_ fun h => hroom h.2
      rw [skb_id]
      cases env.cmdBuf <;> cases refused <;> decide

/-! ## Data -/

/-- What `sprdwl_send_data` does behind the descriptor. -/
inductive Sends (env : Env) (skb : Skb) : List Act × ℤ → Prop where
  | unaligned (hbad : ¬ FilledFine env skb) : Sends env skb ([.alter skb.id, .free skb.id], -1)
  | refused (hbad : ¬ FilledFine env skb) : Sends env skb ([.alter skb.id, .putMsg], -EPERM)
  | queued (hfine : FilledFine env skb) :
    Sends env skb ([.alter skb.id, .queueMsg (some skb.id)], 0)
  | dropped (hfine : FilledFine env skb) : Sends env skb ([.alter skb.id, .dropMsg skb.id], 0)

theorem sendFilled_sends (env : Env) (skb : Skb) : Sends env skb (sendFilled env skb) := by
  rw [sendFilled]
  split
  · rename_i hpad
    refine .unaligned fun h => ?_
    rcases h.1 with haligned | hpadded
    · rw [hpad.1] at haligned
      cases haligned
    · rw [hpad.2] at hpadded
      cases hpadded
  · rename_i hpad
    have haligned : env.aligned = true ∨ env.pad = true := by
      cases ha : env.aligned with
      | true => exact .inl rfl
      | false =>
        cases hp : env.pad with
        | true => exact .inr rfl
        | false => exact absurd ⟨ha, hp⟩ hpad
    split
    · rename_i hack
      exact .queued ⟨haligned, fun h => by rw [hack] at h; cases h⟩
    · rename_i hack
      exact .dropped ⟨haligned, fun h => by rw [hack] at h; cases h⟩
    · rename_i hack
      by_cases hrefused : env.Refused skb
      · simp only [hrefused, decide_true, txMsgFunc, if_true]
        exact .refused fun h => h.2 hack hrefused
      · simp only [hrefused, decide_false, txMsgFunc]
        exact .queued ⟨haligned, fun _ => hrefused⟩

/-- What is left of the call once the skb has its headroom and its header. -/
theorem pays_startXmitSend_iff (hid : skb.id ≠ .fillDscrCopy) :
    Pays skb.id (startXmitSend env skb) ↔ SendFine env skb := by
  have hfill := intfFillMsduDscr_fills env skb
  have hsend := sendFilled_sends env skb
  rw [startXmitSend, sendData, SendFine]
  generalize intfFillMsduDscr env skb = r at hfill ⊢
  generalize sendFilled env skb = r' at hsend ⊢
  cases hfill with
  | unknown hroom hunknown =>
    refine iff_of_true ?_ ⟨hroom, fun h => absurd hunknown h⟩
    change Pays skb.id [.free skb.id, .putMsg]
    cases skb.id <;> decide
  | filled hroom hknown =>
    simp only [hroom, hknown, not_false_eq_true, true_implies, true_and]
    cases hsend with
    | unaligned hbad =>
      refine iff_of_false ?_ hbad
      generalize skb.id = id
      cases id <;> decide
    | refused hbad =>
      refine iff_of_false ?_ hbad
      generalize skb.id = id
      cases id <;> decide
    | queued hfine =>
      refine iff_of_true ?_ hfine
      generalize skb.id = id
      cases id <;> decide
    | dropped hfine =>
      refine iff_of_true ?_ hfine
      generalize skb.id = id
      cases id <;> decide
  | noCopy hroom =>
    refine iff_of_false ?_ fun h => hroom h.1
    change ¬ Pays skb.id [.free skb.id, .free skb.id, .putMsg]
    cases skb.id <;> decide
  | copyUnknown hroom =>
    refine iff_of_false ?_ fun h => hroom h.1
    change ¬ Pays skb.id [.copied .fillDscrCopy, .free skb.id, .free skb.id, .putMsg]
    generalize skb.id = id at hid
    cases id with
    | fillDscrCopy => exact absurd rfl hid
    | _ => decide
  | copyFilled hroom =>
    refine iff_of_false ?_ fun h => hroom h.1
    cases hsend <;> generalize skb.id = id at hid ⊢ <;> cases id <;>
      first | exact absurd rfl hid | decide

/-- With its headroom an skb is in hand. -/
theorem holding_makeHeadroom (h : (makeHeadroom env env.skb).2 = some skb) :
    skb.id ≠ .fillDscrCopy ∧ skb.id ≠ .pppoeCopy ∧
      Holding skb.id (.takeMsg :: (makeHeadroom env env.skb).1) := by
  rw [makeHeadroom] at h ⊢
  split at h
  · rename_i hlow
    rw [if_pos hlow]
    cases hcopy : env.startXmitRealloc with
    | none =>
      rw [hcopy] at h
      cases h
    | some n =>
      rw [hcopy] at h
      obtain rfl := Option.some.inj h
      have hold : Holding .startXmitCopy [.takeMsg, .copied .startXmitCopy, .free .handed] := by
        decide
      exact ⟨(by decide : SkbId.startXmitCopy ≠ .fillDscrCopy),
        (by decide : SkbId.startXmitCopy ≠ .pppoeCopy), hold⟩
  · rename_i hroom
    rw [if_neg hroom]
    obtain rfl := Option.some.inj h
    have hold : Holding .handed [.takeMsg] := by
      decide
    exact ⟨by rw [skb_id]; decide, by rw [skb_id]; decide, hold⟩

/-- Without its headroom it is freed. -/
theorem settled_makeHeadroom (h : (makeHeadroom env env.skb).2 = none) :
    Settled (.takeMsg :: ((makeHeadroom env env.skb).1 ++ [.putMsg])) := by
  rw [makeHeadroom] at h ⊢
  split at h
  · rename_i hlow
    rw [if_pos hlow]
    cases hcopy : env.startXmitRealloc with
    | none =>
      have hset : Settled [.takeMsg, .free .handed, .putMsg] := by
        decide
      exact hset
    | some n =>
      rw [hcopy] at h
      cases h
  · cases h

theorem pays_free_put (s : SkbId) : Pays s [.free s, .putMsg] := by
  cases s <;> decide

theorem pppoeCopy_counts (hpppoe : s ≠ .pppoeCopy) (u : SkbId) :
    [Act.copied .pppoeCopy, .free s, .alter .pppoeCopy].countP (Act.Consumes u) +
        (if u = .pppoeCopy then 1 else 0) =
      (if u = s then 1 else 0) +
        [Act.copied .pppoeCopy, .free s, .alter .pppoeCopy].count (.copied u) := by
  cases s <;> cases u <;> first | exact absurd rfl hpppoe | decide

/-- With the LLC header an skb is in hand, or it is freed. -/
theorem holding_fillPppoeLlcHeader (hold : Holding skb.id pre) (hpppoe : skb.id ≠ .pppoeCopy)
    (hfill : skb.id ≠ .fillDscrCopy) :
    (∀ skb' ∈ (fillPppoeLlcHeader env skb).2, skb'.id ≠ .fillDscrCopy ∧
        Holding skb'.id (pre ++ (fillPppoeLlcHeader env skb).1)) ∧
      ((fillPppoeLlcHeader env skb).2 = none →
        Pays skb.id ((fillPppoeLlcHeader env skb).1 ++ [.putMsg])) := by
  rw [fillPppoeLlcHeader]
  split
  · refine ⟨fun skb' h => ?_, fun h => (by cases h)⟩
    obtain rfl := Option.some.inj h
    rw [List.append_nil]
    exact ⟨hfill, hold⟩
  · split
    · cases env.pppoeRealloc with
      | none => exact ⟨fun skb' h => (by cases h), fun _ => pays_free_put skb.id⟩
      | some n =>
        refine ⟨fun skb' h => ?_, fun h => (by cases h)⟩
        obtain rfl := Option.some.inj h
        exact ⟨(by decide : SkbId.pppoeCopy ≠ .fillDscrCopy),
          hold.append (pppoeCopy_counts hpppoe) rfl rfl⟩
    · refine ⟨fun skb' h => ?_, fun h => (by cases h)⟩
      obtain rfl := Option.some.inj h
      refine ⟨hfill, hold.append (fun u => ?_) rfl rfl⟩
      simp [Act.Consumes]

/-- A call that has a message settles everything exactly if the skb it goes on with is fine. -/
theorem startXmitMsg_settled_iff :
    Settled (.takeMsg :: startXmitMsg env env.skb) ↔ MsgFine env := by
  rw [startXmitMsg, MsgFine]
  cases hroom : (makeHeadroom env env.skb).2 with
  | none => exact iff_of_true (settled_makeHeadroom hroom) fun skb h => by cases h
  | some skb =>
    obtain ⟨hfill, hpppoe, hold⟩ := holding_makeHeadroom hroom
    obtain ⟨hgo, hstop⟩ := @holding_fillPppoeLlcHeader env skb _ hold hpppoe hfill
    simp only [Option.mem_some_iff, forall_eq']
    cases hllc : (fillPppoeLlcHeader env skb).2 with
    | none =>
      refine iff_of_true ?_ fun skb' h => by cases h
      simp only [List.append_assoc]
      exact (settled_append_iff hold).mpr (hstop hllc)
    | some skb' =>
      obtain ⟨hfill', hold'⟩ := hgo skb' hllc
      simp only [Option.mem_some_iff, forall_eq']
      rw [← pays_startXmitSend_iff hfill', ← settled_append_iff hold']
      rfl

/-! ## The whole call -/

theorem settled_free_handed : Settled [.free .handed] := by
  decide

/-- A call that frees the skb does not leave it untouched. -/
theorem not_untouched_free : ¬ Untouched [.free .handed] := by
  decide

theorem xmitData2cmdWq_ret : (xmitData2cmdWq env skb).2 ≠ -EAGAIN := by
  rw [xmitData2cmdWq]
  split
  · exact (by decide : -EPERM ≠ -EAGAIN)
  · split
    · exact (by decide : (-1 : ℤ) ≠ -EAGAIN)
    · exact (by decide : (0 : ℤ) ≠ -EAGAIN)

theorem linear_owned_iff : Owned (startXmitLinear env) ↔ LinearFine env := by
  rw [startXmitLinear, LinearFine]
  split
  · exact xmitData2cmd_settled_iff
  · split
    · simp only [if_neg xmitData2cmdWq_ret]
      exact xmitData2cmdWq_settled_iff
    · by_cases harp : env.ethProto = .arp
      · have hcmd : env.ByCommand := .inl harp
        simp only [txFilterPacket, harp, hcmd, if_true]
        rw [if_neg fun h => by cases h.1]
        exact xmitData2cmdWq_settled_iff
      · simp only [txFilterPacket, harp, if_false]
        by_cases hipv6 : env.ethProto = .ipv6 ∧ (env.mode = .ap ∨ env.mode = .p2pGo) ∧
            env.lutIndex ≠ 4 ∧ env.ipAcquired = false
        · rw [if_pos hipv6, if_pos hipv6]
          exact iff_of_true settled_free_handed True.intro
        · rw [if_neg hipv6, if_neg hipv6]
          by_cases hmulticast :
              env.ethProto = .ipv6 ∧ env.isMulticastMacAddr = true ∧ env.mode = .ap
          · have hcmd : env.ByCommand := .inr (.inl hmulticast)
            rw [if_pos hmulticast, if_pos hcmd]
            exact settled_alter_if.trans xmitData2cmdWq_settled_iff
          · rw [if_neg hmulticast]
            by_cases hudp : (env.ethProto = .ip ∨ env.ethProto = .ipv6) ∧ env.udp = true ∧
                (env.dhcp = true ∨ env.ethProto = .ip ∧ env.vowifi2cmd = true)
            · have hcmd : env.ByCommand := .inr (.inr hudp)
              rw [if_pos hudp, if_pos hcmd]
              exact settled_alter_if.trans xmitData2cmdWq_settled_iff
            · have hdata : ¬ env.ByCommand := by
                rintro (h | h | h)
                · exact harp h
                · exact hmulticast h
                · exact hudp h
              rw [if_neg hudp, if_neg hdata]
              cases hopen : env.fwOpen with
              | false => exact iff_of_true settled_free_handed fun h => by cases h
              | true =>
                cases hmsg : env.msg with
                | false => exact iff_of_false not_untouched_free fun h => by cases (h rfl).1
                | true =>
                  simp only [true_implies, true_and]
                  exact startXmitMsg_settled_iff

/-- A call that is not to be tried again has taken the skb. -/
theorem busy_frees (h : (startXmitLinear env).2 = .NETDEV_TX_BUSY) :
    (startXmitLinear env).1 = [.free .handed] := by
  rw [startXmitLinear] at h ⊢
  split at h
  · cases h
  · rename_i heap
    rw [if_neg heap]
    split at h
    · simp only [if_neg xmitData2cmdWq_ret] at h
      cases h
    · rename_i hpae
      rw [if_neg hpae]
      cases hfilter : txFilterPacket env env.skb with
      | some acts =>
        rw [hfilter] at h
        cases h
      | none =>
        simp only [hfilter] at h ⊢
        split at h
        · cases h
        · rename_i hopen
          rw [if_neg hopen]
          split at h
          · rename_i hmsg
            rw [if_pos hmsg]
          · cases h

/-- Making the skb linear alters nothing about what is owed. -/
theorem owned_alter_if {p : Prop} [Decidable p] :
    Owned ((if p then [.alter .handed] else []) ++ (startXmitLinear env).1,
      (startXmitLinear env).2) ↔ Owned (startXmitLinear env) := by
  cases hret : (startXmitLinear env).2 with
  | NETDEV_TX_OK =>
    rw [Owned, Owned, hret]
    exact settled_alter_if
  | NETDEV_TX_BUSY =>
    rw [Owned, Owned, hret, busy_frees hret]
    refine iff_of_false (fun h => ?_) not_untouched_free
    have hnone := List.countP_eq_zero.mp h.consumed (.free .handed) (by simp)
    exact hnone (by decide)

/-- A call of `sprdwl_start_xmit` owes nothing exactly if the frame meets the condition of the way
it goes. -/
theorem start_xmit_owned_iff (env : Env) : Owned (startXmit env) ↔ Fine env := by
  rw [startXmit, Fine]
  by_cases hdown : env.cpAsserted = true ∨ env.suspended = true
  · rw [if_pos hdown]
    exact iff_of_true settled_free_handed fun h => absurd hdown h
  · rw [if_neg hdown]
    by_cases hsta : env.mode = .station ∧ env.connected = false
    · rw [if_pos hsta]
      exact iff_of_true settled_free_handed fun _ h => absurd hsta h
    · rw [if_neg hsta]
      by_cases hlinear : env.nonlinear = true ∧ env.linearize = false
      · rw [if_pos hlinear]
        exact iff_of_true settled_free_handed fun _ _ h => absurd hlinear h
      · rw [if_neg hlinear]
        simp only [hdown, hsta, hlinear, not_false_eq_true, true_implies]
        exact owned_alter_if.trans linear_owned_iff

/-- A frame of data from a connected station, with enough headroom, while the pool of messages is
empty. -/
def sampleEnv : Env where
  cpAsserted := false
  suspended := false
  mode := .station
  connected := true
  fwOpen := true
  refcnt := 0
  pcie := false
  hifOffset := 0
  neededHeadroom := 16
  protocol := .other
  ethProto := .ip
  eapFailure := false
  len := 100
  headroom := 64
  nonlinear := false
  udp := false
  dhcp := false
  vowifi2cmd := false
  da := 0x02
  checksumPartial := false
  lutIndex := 6
  ipAcquired := true
  linearize := true
  cmdBuf := .ok
  work := true
  msg := false
  startXmitRealloc := none
  pppoeRealloc := none
  fillDscrRealloc := none
  aligned := true
  pad := true
  tcpAck := .pass
  acRefused := false

/-- The caller is told to try again with an skb that has been freed. -/
theorem busy_skb_freed : startXmit sampleEnv = ([.free .handed], .NETDEV_TX_BUSY) ∧
    ¬ Owned (startXmit sampleEnv) := by
  have hrun : startXmit sampleEnv = ([.free .handed], .NETDEV_TX_BUSY) := by
    decide
  rw [hrun]
  exact ⟨rfl, not_untouched_free⟩

end Uwe5631.StartXmit
