import Uwe5631.SdioPacker
import Uwe5631.SdioTxQueue

/-!
# The scatter list of a batch

With ADMA a batch is not copied: `sdiohal_config_packer_chain` makes an entry of a scatter list for
each mbuf and one for the header that ends them. The bytes that go out are to be those of the send
buffer.
-/
namespace Uwe5631.Sdio

/-- `ARRAY_SIZE(p_data->sg_list)` -/
abbrev SG_LIST_SIZE : ℕ := MAX_CHAIN_NODE_NUM + 1

/-- `SDIOHAL_ALIGN_BLK` -/
def alignBlk (blkSize a : ℕ) : ℕ :=
  if blkSize = 512 then (a + 511) / 512 * 512
  else if a % blkSize ≠ 0 then (a / blkSize + 1) * blkSize else a

/-- An entry of `sg_list`. -/
structure SgEntry where
  buf : Memory
  length : ℕ

/-- The limits of `struct mmc_host`. The last two only go into numbers that are not looked at. -/
structure MmcHost where
  maxSegSize : ℕ
  maxReqSize : ℕ
  maxBlkCount : ℕ

/-- What is asked of the host: the data, and the number of blocks in the argument of CMD53. -/
structure MmcRequest where
  sg : List SgEntry
  blksz : ℕ
  blocks : ℕ
  argBlocks : ℕ

/-- `SDIOHAL_ALIGN_4BYTE(mbuf_node->len + sizeof(struct sdio_puh_t))` -/
def TxMbuf.size (m : TxMbuf) : ℕ := align4Byte (m.len.toNat + SDIO_PUB_HEADER_SIZE)

/-- The loop of `sdiohal_config_packer_chain` for a write. -/
def packerChainLoop (blkSize : ℕ) (host : MmcHost) :
    List TxMbuf → List SgEntry → ℕ → Option (List SgEntry × ℕ)
  | [], sg, ttlLen => some (sg, ttlLen)
  | m :: mbufs, sg, ttlLen =>
    if SG_LIST_SIZE ≤ sg.length then none
    else if MAX_PAC_SIZE blkSize < m.size then none
    else
      let sgDataSize := if host.maxSegSize < m.size then host.maxSegSize else m.size
      packerChainLoop blkSize host mbufs (sg ++ [⟨m.buf, sgDataSize⟩]) (ttlLen + sgDataSize)

/-- `sdiohal_config_packer_chain` for a write, up to the request. -/
def sdiohalConfigPackerChain (blkSize : ℕ) (host : MmcHost) (mbufs : List TxMbuf) :
    Option MmcRequest :=
  (packerChainLoop blkSize host (mbufs.take MAX_CHAIN_NODE_NUM) [] 0).bind fun r =>
    let ttlLen := alignBlk blkSize (r.2 + SDIO_PUB_HEADER_SIZE)
    let sgDataSize := ttlLen - r.2
    if MAX_PAC_SIZE blkSize < sgDataSize then none
    else if ttlLen % blkSize ≠ 0 then none
    else
      let blkNum := ttlLen / blkSize
      some ⟨r.1 ++ [⟨eofBuf, sgDataSize⟩], blkSize, blkNum, blkNum % 512⟩

/-- The bytes of a scatter list, one entry behind the other. -/
def gather : List SgEntry → Memory
  | [] => fun _ => 0
  | e :: sg => fun b => if b < e.length then e.buf b else gather sg (b - e.length)

def sgLength (sg : List SgEntry) : ℕ := (sg.map SgEntry.length).sum

/-- A byte between two packets, of packets that start at an address. -/
def Pad : ℕ → List TxMbuf → ℕ → Prop
  | _, [], _ => False
  | a, m :: mbufs, b =>
    (a + m.len.toNat + SDIO_PUB_HEADER_SIZE ≤ b ∧ b < nextPuh a m.len) ∨ Pad (nextPuh a m.len) mbufs b

/-- The request is well formed and has the bytes of the one send buffer that is sent for the same
mbufs, up to the end of the header that ends them. -/
structure ModesAgree (mbufs : List TxMbuf) (sendBuf : SdiohalSendbuf) (req : MmcRequest) : Prop where
  entries : req.sg.length ≤ SG_LIST_SIZE
  length : sgLength req.sg = req.blocks * req.blksz
  announced : req.argBlocks = req.blocks
  bytes : ∃ sent : SdiohalSendbuf, sdiohalTxDataListSend [] mbufs sendBuf.clear = [⟨sent, mbufs⟩] ∧
    sent.usedLen ≤ sgLength req.sg ∧
    ∀ b < sent.usedLen, ¬ Pad 0 mbufs b → gather req.sg b = sent.buf b

variable {blkSize : ℕ} {host : MmcHost} {mem mem' : Memory} {m : TxMbuf} {mbufs packed : List TxMbuf}
  {sendBuf : SdiohalSendbuf} {sg : List SgEntry} {a b e ttlLen : ℕ}

/-! ## The send buffer -/

/-- How long the packets are together. -/
def sizes (mbufs : List TxMbuf) : ℕ := (mbufs.map TxMbuf.size).sum

theorem nextPuh_size (a : ℕ) (m : TxMbuf) : nextPuh a m.len = a + m.size := by
  rw [nextPuh, TxMbuf.size, align4Byte, align4Byte]
  dsimp only [SDIO_PUB_HEADER_SIZE]
  omega

theorem len_le_size (m : TxMbuf) : m.len.toNat + 4 ≤ m.size := by
  rw [TxMbuf.size, align4Byte]
  dsimp only [SDIO_PUB_HEADER_SIZE]
  omega

theorem Pad.lt (h : Pad a mbufs b) : b < a + sizes mbufs := by
  induction mbufs generalizing a with
  | nil => exact h.elim
  | cons m mbufs ih =>
    rw [sizes, List.map_cons, List.sum_cons, ← Nat.add_assoc, ← nextPuh_size]
    rcases h with ⟨-, hlt⟩ | hrest
    · exact Nat.lt_of_lt_of_le hlt (Nat.le_add_right ..)
    · exact ih hrest

/-- Where the same packets lie, the bytes that are not between them are the same. -/
theorem Laid.same (h : Laid mem a mbufs e) (h' : Laid mem' a mbufs e) (ha : a ≤ b) (hb : b < e)
    (hpad : ¬ Pad a mbufs b) : mem b = mem' b := by
  induction h with
  | nil => omega
  | @cons a e m mbufs hm hrest ih =>
    cases h' with
    | cons hm' hrest' =>
      obtain ⟨hfirst, hpads⟩ := not_or.mp hpad
      by_cases hnext : nextPuh a m.len ≤ b
      · exact ih hrest' hnext hb hpads
      · have hin : b - a < m.len.toNat + 4 := by
          by_contra hno
          exact hfirst ⟨by dsimp only [SDIO_PUB_HEADER_SIZE]; omega, by omega⟩
        have hboth := (hm (b - a) hin).trans (hm' (b - a) hin).symm
        rwa [Nat.add_sub_cancel' ha] at hboth

theorem foldl_packer_laid (mbufs : List TxMbuf) (h : Laid sendBuf.buf 0 packed sendBuf.usedLen) :
    Laid (mbufs.foldl sdiohalTxPacker sendBuf).buf 0 (packed ++ mbufs)
      (mbufs.foldl sdiohalTxPacker sendBuf).usedLen := by
  induction mbufs generalizing packed sendBuf with
  | nil =>
    rw [List.append_nil]
    exact h
  | cons m mbufs ih =>
    have hrest := ih (packer_laid h m)
    rwa [List.append_assoc, List.singleton_append] at hrest

theorem packer_usedLen (sendBuf : SdiohalSendbuf) (m : TxMbuf) :
    (sdiohalTxPacker sendBuf m).usedLen = sendBuf.usedLen + m.size := by
  rw [← nextPuh_size, nextPuh, Nat.add_assoc]
  rfl

theorem foldl_packer_usedLen (mbufs : List TxMbuf) (sendBuf : SdiohalSendbuf) :
    (mbufs.foldl sdiohalTxPacker sendBuf).usedLen = sendBuf.usedLen + sizes mbufs := by
  induction mbufs generalizing sendBuf with
  | nil => rfl
  | cons m mbufs ih =>
    rw [List.foldl_cons, ih, packer_usedLen, sizes, sizes, List.map_cons, List.sum_cons, Nat.add_assoc]

/-- What fits into the send buffer is sent in one go. -/
theorem dataListSend_once (mbufs : List TxMbuf)
    (hfits : sendBuf.usedLen + sizes mbufs ≤ SDIOHAL_TX_SENDBUF_LEN) :
    sdiohalTxDataListSend packed mbufs sendBuf =
      [⟨sdiohalTxSetEof (mbufs.foldl sdiohalTxPacker sendBuf), packed ++ mbufs⟩] := by
  induction mbufs generalizing packed sendBuf with
  | nil =>
    rw [List.append_nil]
    rfl
  | cons m mbufs ih =>
    have hused := packer_usedLen sendBuf m
    rw [sizes, List.map_cons, List.sum_cons, ← Nat.add_assoc, ← hused] at hfits
    have hroom : ¬ SDIOHAL_TX_SENDBUF_LEN <
        sendBuf.usedLen + SDIO_PUB_HEADER_SIZE + align4Byte m.len.toNat := by
      have hnext : sendBuf.usedLen + SDIO_PUB_HEADER_SIZE + align4Byte m.len.toNat =
          (sdiohalTxPacker sendBuf m).usedLen := Nat.add_assoc ..
      rw [hnext]
      omega
    rw [sdiohalTxDataListSend, if_neg hroom, ih hfits, List.append_assoc, List.singleton_append]
    rfl

/-! ## The scatter list -/

/-- The entry of an mbuf. -/
def MmcHost.entry (host : MmcHost) (m : TxMbuf) : SgEntry :=
  ⟨m.buf, if host.maxSegSize < m.size then host.maxSegSize else m.size⟩

theorem entry_le (host : MmcHost) (m : TxMbuf) : (host.entry m).length ≤ m.size := by
  rw [MmcHost.entry]
  dsimp only
  split <;> omega

theorem packerChainLoop_some (hfits : ∀ m ∈ mbufs, m.size ≤ MAX_PAC_SIZE blkSize)
    (hroom : sg.length + mbufs.length ≤ SG_LIST_SIZE) :
    packerChainLoop blkSize host mbufs sg ttlLen =
      some (sg ++ mbufs.map host.entry, ttlLen + sgLength (mbufs.map host.entry)) := by
  induction mbufs generalizing sg ttlLen with
  | nil =>
    rw [List.map_nil, List.append_nil]
    rfl
  | cons m mbufs ih =>
    rw [List.length_cons] at hroom
    have hfirst := hfits m (List.mem_cons_self ..)
    rw [packerChainLoop, if_neg (by omega), if_neg (by omega)]
    refine (ih (fun x hx => hfits x (List.mem_cons_of_mem m hx)) ?_).trans ?_
    · rw [List.length_append, List.length_singleton]
      omega
    · rw [List.append_assoc, List.singleton_append, sgLength, sgLength, List.map_cons, List.map_cons,
        List.sum_cons, Nat.add_assoc]
      rfl

theorem packerChainLoop_none (hm : m ∈ mbufs) (hlong : MAX_PAC_SIZE blkSize < m.size) :
    packerChainLoop blkSize host mbufs sg ttlLen = none := by
  induction mbufs generalizing sg ttlLen with
  | nil => exact absurd hm List.not_mem_nil
  | cons first mbufs ih =>
    rw [packerChainLoop]
    rcases List.mem_cons.mp hm with rfl | hm
    · rw [if_pos hlong, ite_self]
    · dsimp only
      rw [ih hm, ite_self, ite_self]

theorem gather_cons (entry : SgEntry) (sg : List SgEntry) (b : ℕ) :
    gather (entry :: sg) b = if b < entry.length then entry.buf b else gather sg (b - entry.length) := rfl

theorem gather_behind (sg sg' : List SgEntry) (i : ℕ) :
    gather (sg ++ sg') (sgLength sg + i) = gather sg' i := by
  induction sg with
  | nil => rw [sgLength, List.map_nil, List.sum_nil, Nat.zero_add, List.nil_append]
  | cons e sg ih =>
    rw [sgLength, List.map_cons, List.sum_cons, List.cons_append, gather_cons, if_neg (by omega)]
    rw [← ih, sgLength]
    exact congrArg _ (by omega)

/-- If no entry is cut off, the packets lie in the bytes of the scatter list. -/
theorem gather_laid (sg : List SgEntry) (hwhole : ∀ m ∈ mbufs, m.size ≤ host.maxSegSize) :
    Laid (gather (mbufs.map host.entry ++ sg)) 0 mbufs (sizes mbufs) := by
  induction mbufs with
  | nil => exact .nil
  | cons m mbufs ih =>
    have hlen : (host.entry m).length = m.size :=
      if_neg (Nat.not_lt.mpr (hwhole m (List.mem_cons_self ..)))
    rw [List.map_cons, List.cons_append, sizes, List.map_cons, List.sum_cons]
    refine .cons (fun i hi => ?_) ?_
    · have hin := len_le_size m
      rw [gather_cons, hlen, if_pos (by omega), Nat.zero_add]
      rfl
    · have hrest := ih fun x hx => hwhole x (List.mem_cons_of_mem m hx)
      rw [nextPuh_size, Nat.add_comm 0]
      refine hrest.copy fun b _ _ => ?_
      rw [gather_cons, hlen, if_neg (by omega), Nat.add_sub_cancel_left]

theorem sgLength_le (host : MmcHost) (mbufs : List TxMbuf) : sgLength (mbufs.map host.entry) ≤ sizes mbufs := by
  rw [sgLength, List.map_map]
  exact List.sum_le_sum fun m _ => entry_le host m

/-- A host with too short segments cuts something off. -/
theorem sgLength_lt (hm : m ∈ mbufs) (hlong : host.maxSegSize < m.size) :
    sgLength (mbufs.map host.entry) < sizes mbufs := by
  rw [sgLength, List.map_map]
  refine List.sum_lt_sum _ _ (fun x _ => entry_le host x) ⟨m, hm, ?_⟩
  rw [Function.comp, MmcHost.entry, if_pos hlong]
  exact hlong

theorem sizes_le (hfits : ∀ m ∈ mbufs, m.size ≤ MAX_PAC_SIZE blkSize) :
    sizes mbufs ≤ mbufs.length * MAX_PAC_SIZE blkSize := by
  have hsum := List.sum_le_card_nsmul (mbufs.map TxMbuf.size) (MAX_PAC_SIZE blkSize) fun x hx => by
    obtain ⟨m, hm, rfl⟩ := List.mem_map.mp hx
    exact hfits m hm
  rwa [List.length_map, smul_eq_mul] at hsum

/-! ## Both modes -/

theorem alignBlk_spec (blk : Bool) (a : ℕ) :
    a ≤ alignBlk (sdiohalGetBlkSize blk) a ∧
      alignBlk (sdiohalGetBlkSize blk) a < a + sdiohalGetBlkSize blk ∧
      alignBlk (sdiohalGetBlkSize blk) a % sdiohalGetBlkSize blk = 0 := by
  cases blk with
  | true =>
    have haligned : alignBlk (sdiohalGetBlkSize true) a = (a + 511) / 512 * 512 := rfl
    have hblk : sdiohalGetBlkSize true = 512 := rfl
    rw [haligned, hblk]
    omega
  | false =>
    have haligned : alignBlk (sdiohalGetBlkSize false) a =
        if a % 840 ≠ 0 then (a / 840 + 1) * 840 else a := rfl
    have hblk : sdiohalGetBlkSize false = 840 := rfl
    rw [haligned, hblk]
    split <;> omega

theorem blkSize_fits (blk : Bool) : sdiohalGetBlkSize blk + 4 ≤ MAX_PAC_SIZE (sdiohalGetBlkSize blk) ∧
    0 < sdiohalGetBlkSize blk ∧ MAX_PAC_SIZE (sdiohalGetBlkSize blk) ≤ 2048 ∧
    100 * MAX_PAC_SIZE (sdiohalGetBlkSize blk) + 4 + sdiohalGetBlkSize blk ≤
      512 * sdiohalGetBlkSize blk := by
  cases blk <;> decide

/-- The request for a batch of which no packet is too long. -/
def madeRequest (blkSize : ℕ) (host : MmcHost) (mbufs : List TxMbuf) : MmcRequest :=
  let ttlLen := sgLength (mbufs.map host.entry)
  let aligned := alignBlk blkSize (ttlLen + SDIO_PUB_HEADER_SIZE)
  ⟨mbufs.map host.entry ++ [⟨eofBuf, aligned - ttlLen⟩], blkSize, aligned / blkSize,
    aligned / blkSize % 512⟩

theorem configPackerChain_made (host : MmcHost) (blk : Bool) (hlen : mbufs.length ≤ MAX_CHAIN_NODE_NUM)
    (hfits : ∀ m ∈ mbufs, m.size ≤ MAX_PAC_SIZE (sdiohalGetBlkSize blk)) :
    sdiohalConfigPackerChain (sdiohalGetBlkSize blk) host mbufs =
      some (madeRequest (sdiohalGetBlkSize blk) host mbufs) := by
  obtain ⟨hmin, hmax, hmod⟩ := alignBlk_spec blk
    (sgLength (mbufs.map host.entry) + SDIO_PUB_HEADER_SIZE)
  have hpac := (blkSize_fits blk).1
  have hroom : ([] : List SgEntry).length + mbufs.length ≤ SG_LIST_SIZE := by
    rw [List.length_nil, Nat.zero_add]
    exact Nat.le_succ_of_le hlen
  rw [sdiohalConfigPackerChain, List.take_of_length_le hlen, packerChainLoop_some hfits hroom,
    Option.bind_some, Nat.zero_add, List.nil_append]
  dsimp only
  rw [if_neg ?_, if_neg (not_not.mpr hmod)]
  · rfl
  · dsimp only [SDIO_PUB_HEADER_SIZE] at hmax ⊢
    omega

theorem configPackerChain_none (hm : m ∈ mbufs) (hlen : mbufs.length ≤ MAX_CHAIN_NODE_NUM)
    (hlong : MAX_PAC_SIZE blkSize < m.size) : sdiohalConfigPackerChain blkSize host mbufs = none := by
  rw [sdiohalConfigPackerChain, List.take_of_length_le hlen, packerChainLoop_none hm hlong]
  rfl

theorem madeRequest_length (host : MmcHost) (mbufs : List TxMbuf) (blk : Bool) :
    sgLength (madeRequest (sdiohalGetBlkSize blk) host mbufs).sg =
      alignBlk (sdiohalGetBlkSize blk) (sgLength (mbufs.map host.entry) + SDIO_PUB_HEADER_SIZE) := by
  have hmin := (alignBlk_spec blk (sgLength (mbufs.map host.entry) + SDIO_PUB_HEADER_SIZE)).1
  rw [madeRequest]
  dsimp only [SDIO_PUB_HEADER_SIZE] at hmin ⊢
  generalize alignBlk (sdiohalGetBlkSize blk) (sgLength (mbufs.map host.entry) + 4) = aligned at hmin ⊢
  rw [sgLength, List.map_append, List.sum_append, ← sgLength, List.map_singleton, List.sum_singleton]
  dsimp only
  omega

/-- The header that ends the packets, and zeros behind it. -/
theorem eofBuf_zero (ha : 3 ≤ a) : eofBuf a = 0 := by
  by_cases hlast : a = 3
  · rw [hlast]
    rfl
  · exact storePuh_behind _ _ (by omega)

theorem sent_once (blk : Bool) (sendBuf : SdiohalSendbuf) (hlen : mbufs.length ≤ MAX_CHAIN_NODE_NUM)
    (hfits : ∀ m ∈ mbufs, m.size ≤ MAX_PAC_SIZE (sdiohalGetBlkSize blk)) :
    ∃ sent, sdiohalTxDataListSend [] mbufs sendBuf.clear = [⟨sent, mbufs⟩] ∧
      sent.usedLen = sizes mbufs + 4 ∧ Laid sent.buf 0 mbufs (sizes mbufs) ∧
      ∀ i < 4, sent.buf (sizes mbufs + i) = eofBuf i := by
  have hsizes := sizes_le hfits
  have hmax := (blkSize_fits blk).2.2.1
  have hmany := Nat.mul_le_mul hlen hmax
  have hused : (mbufs.foldl sdiohalTxPacker sendBuf.clear).usedLen = sizes mbufs := by
    rw [foldl_packer_usedLen]
    exact Nat.zero_add _
  have hlaid := foldl_packer_laid mbufs (show Laid sendBuf.clear.buf 0 [] sendBuf.clear.usedLen from .nil)
  rw [List.nil_append, hused] at hlaid
  refine ⟨_, dataListSend_once mbufs ?_, ?_, ?_, fun i hi => ?_⟩
  · exact (Nat.zero_add (sizes mbufs)).le.trans (hsizes.trans hmany)
  · rw [sdiohalTxSetEof, hused]
  · refine hlaid.frame fun b hb => ?_
    rw [sdiohalTxSetEof, hused]
    exact memcpy_before _ _ _ hb
  · rw [sdiohalTxSetEof, hused]
    exact memcpy_copied _ _ _ hi

theorem agree_iff_whole (blk : Bool) (sendBuf : SdiohalSendbuf)
    (hlen : mbufs.length ≤ MAX_CHAIN_NODE_NUM)
    (hfits : ∀ m ∈ mbufs, m.size ≤ MAX_PAC_SIZE (sdiohalGetBlkSize blk)) :
    ModesAgree mbufs sendBuf (madeRequest (sdiohalGetBlkSize blk) host mbufs) ↔
      ∀ m ∈ mbufs, m.size ≤ host.maxSegSize := by
  obtain ⟨sent, hsend, hused, hlaid, heof⟩ := sent_once blk sendBuf hlen hfits
  obtain ⟨hmin, hmax, hmod⟩ := alignBlk_spec blk
    (sgLength (mbufs.map host.entry) + SDIO_PUB_HEADER_SIZE)
  have hlength := madeRequest_length host mbufs blk
  obtain ⟨-, hpos, -, hmany⟩ := blkSize_fits blk
  have hle := sgLength_le host mbufs
  have hsizes := sizes_le hfits
  have htotal := Nat.mul_le_mul_right (MAX_PAC_SIZE (sdiohalGetBlkSize blk)) hlen
  have hbehind (i : ℕ) : gather (madeRequest (sdiohalGetBlkSize blk) host mbufs).sg
      (sgLength (mbufs.map host.entry) + i) =
      if i < alignBlk (sdiohalGetBlkSize blk) (sgLength (mbufs.map host.entry) +
        SDIO_PUB_HEADER_SIZE) - sgLength (mbufs.map host.entry) then eofBuf i else 0 :=
    gather_behind ..
  dsimp only [SDIO_PUB_HEADER_SIZE] at hmin hmax hmod hlength hbehind
  constructor
  · -- a packet that is cut off brings the end of the packets forward
    intro hagrees m hm
    by_contra hlong
    have hlt := sgLength_lt hm (Nat.lt_of_not_le hlong)
    obtain ⟨sent', hsend', hcover, hbytes⟩ := hagrees.bytes
    have hsame : sent' = sent :=
      congrArg Sending.sendBuf (List.singleton_injective (hsend'.symm.trans hsend))
    rw [hsame] at hcover hbytes
    obtain ⟨i, hi⟩ := Nat.exists_eq_add_of_lt hlt
    have hbyte := hbytes (sizes mbufs + 2) (by omega) fun hpad => by
      have hend := hpad.lt
      omega
    have hposition : sizes mbufs + 2 = sgLength (mbufs.map host.entry) + (i + 3) := by omega
    rw [heof 2 (by decide), hposition, hbehind, eofBuf_zero (by omega), ite_self] at hbyte
    exact absurd hbyte (by decide)
  · intro hwhole
    have hsg : sgLength (mbufs.map host.entry) = sizes mbufs := by
      rw [sgLength, List.map_map, sizes]
      refine congrArg List.sum (List.map_congr_left fun m hm => ?_)
      exact if_neg (Nat.not_lt.mpr (hwhole m hm))
    refine ⟨?_, ?_, ?_, sent, hsend, ?_, fun b hb hpad => ?_⟩
    · rw [madeRequest]
      dsimp only
      rw [List.length_append, List.length_map, List.length_singleton]
      exact Nat.succ_le_succ hlen
    · rw [hlength]
      exact (Nat.div_mul_cancel (Nat.dvd_of_mod_eq_zero hmod)).symm
    · refine Nat.mod_eq_of_lt ((Nat.div_lt_iff_lt_mul hpos).mpr ?_)
      dsimp only [SDIO_PUB_HEADER_SIZE, MAX_CHAIN_NODE_NUM] at htotal ⊢
      omega
    · rw [hlength, hused, ← hsg]
      exact hmin
    · by_cases hpacket : b < sizes mbufs
      · exact (gather_laid _ hwhole).same hlaid (Nat.zero_le b) hpacket hpad
      · obtain ⟨i, rfl⟩ := Nat.exists_eq_add_of_le (Nat.le_of_not_lt hpacket)
        have hi : i < 4 := by omega
        rw [heof i hi, ← hsg, hbehind, if_pos (by omega)]

/-- A batch is rejected or goes out as the send buffer does, if and only if one of its packets is too
long for any host or none is too long for the segments of this one. -/
theorem modes_agree_iff (blk : Bool) (host : MmcHost) (sendBuf : SdiohalSendbuf) (mbufs : List TxMbuf)
    (hlen : mbufs.length ≤ MAX_CHAIN_NODE_NUM) :
    (∀ req, sdiohalConfigPackerChain (sdiohalGetBlkSize blk) host mbufs = some req →
      ModesAgree mbufs sendBuf req) ↔
      (∃ m ∈ mbufs, MAX_PAC_SIZE (sdiohalGetBlkSize blk) < m.size) ∨
        ∀ m ∈ mbufs, m.size ≤ host.maxSegSize := by
  by_cases hlong : ∃ m ∈ mbufs, MAX_PAC_SIZE (sdiohalGetBlkSize blk) < m.size
  · obtain ⟨m, hm, hmlong⟩ := hlong
    refine iff_of_true (fun req hreq => ?_) (.inl ⟨m, hm, hmlong⟩)
    rw [configPackerChain_none hm hlen hmlong] at hreq
    cases hreq
  · have hfits : ∀ m ∈ mbufs, m.size ≤ MAX_PAC_SIZE (sdiohalGetBlkSize blk) :=
      fun m hm => Nat.le_of_not_lt fun hno => hlong ⟨m, hm, hno⟩
    rw [or_iff_right hlong, configPackerChain_made host blk hlen hfits, ← agree_iff_whole blk sendBuf hlen hfits]
    constructor
    · intro hall
      exact hall _ rfl
    · rintro hagrees req hreq
      cases hreq
      exact hagrees

/-- A payload of 600 bytes. -/
def longMbuf : TxMbuf := ⟨8, fun _ => 1, 600⟩

theorem longMbuf_fits : ∀ m ∈ sdiohalTxFillPuh [longMbuf],
    m.size ≤ MAX_PAC_SIZE (sdiohalGetBlkSize true) := by
  intro m hm
  rw [List.mem_singleton.mp hm]
  decide

theorem long_payload_agrees : ∃ req,
    sdiohalConfigPackerChain 512 ⟨65536, 65536, 511⟩ (sdiohalTxFillPuh [longMbuf]) = some req ∧
      ModesAgree (sdiohalTxFillPuh [longMbuf]) emptySendbuf req := by
  have hone : (sdiohalTxFillPuh [longMbuf]).length ≤ MAX_CHAIN_NODE_NUM := by decide
  have hmade := configPackerChain_made ⟨65536, 65536, 511⟩ true hone longMbuf_fits
  refine ⟨_, hmade, (modes_agree_iff true _ emptySendbuf _ hone).mpr (.inr fun m hm => ?_) _ hmade⟩
  rw [List.mem_singleton.mp hm]
  decide

/-- A host whose segments have at most 512 bytes cuts the payload off. -/
theorem long_payload_cut_off : ∃ req,
    sdiohalConfigPackerChain 512 ⟨512, 65536, 511⟩ (sdiohalTxFillPuh [longMbuf]) = some req ∧
      ¬ ModesAgree (sdiohalTxFillPuh [longMbuf]) emptySendbuf req := by
  have hone : (sdiohalTxFillPuh [longMbuf]).length ≤ MAX_CHAIN_NODE_NUM := by decide
  refine ⟨_, configPackerChain_made _ true hone longMbuf_fits, fun hagrees => ?_⟩
  have hwhole := (agree_iff_whole true emptySendbuf hone longMbuf_fits).mp hagrees
  exact absurd (hwhole longMbuf.fillPuh (List.mem_singleton_self _)) (by decide)

end Uwe5631.Sdio
