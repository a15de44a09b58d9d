import Uwe5631.SdioParserRuns

/-!
# Packing a batch of mbufs

`sdiohal_tx_fill_puh` writes the header of a packet into the mbuf, `sdiohal_tx_packer` copies
headers and payloads one behind the other into the send buffer, and `sdiohal_tx_set_eof` copies
the header that ends them. What is sent is read by `sdiohal_tx_retrybuf_left` and by the parser of
receive buffers.
-/
namespace Uwe5631.Sdio

abbrev SDIOHAL_TX_SENDBUF_LEN : ℕ := 100 * 2048

/-- Writing all bit fields of a header, its padding as 0. -/
def storePuh (mem : Memory) (a : ℕ) (puh : SdioPuh) : Memory :=
  Function.update (Function.update (Function.update (Function.update mem
    a (puh.len.extractLsb' 0 1 ++ (BitVec.ofBool puh.checkSum ++ 0#6) : BitVec 8))
    (a + 1) (puh.len.extractLsb' 1 8))
    (a + 2) (BitVec.ofBool puh.eof ++ puh.len.extractLsb' 9 7 : BitVec 8))
    (a + 3) (puh.type ++ puh.subtype : BitVec 8)

/-- An mbuf given to a channel with what `buf` points to: room for the header, and the payload. -/
structure TxMbuf where
  channel : Fin SDIO_CHN_TX_NUM
  buf : Memory
  len : BitVec 16

def sdiohalChannelToHwtype (inout : Bool) (channel : ℕ) : ℕ × ℕ :=
  (0, if inout then channel else channel - SDIO_CHN_TX_NUM)

/-- The body of the loop of `sdiohal_tx_fill_puh`. `check_sum` stays as it is in the buffer. -/
def TxMbuf.fillPuh (m : TxMbuf) : TxMbuf :=
  let hw := sdiohalChannelToHwtype true m.channel
  { m with
    buf := storePuh m.buf 0
      ⟨(puhAt m.buf 0).checkSum, m.len, false, BitVec.ofNat 4 hw.2, BitVec.ofNat 4 hw.1⟩ }

def sdiohalTxFillPuh (mbufs : List TxMbuf) : List TxMbuf := mbufs.map TxMbuf.fillPuh

/-- `struct sdiohal_sendbuf_t`; `retry_buf` points into `buf`. -/
structure SdiohalSendbuf where
  usedLen : ℕ
  buf : Memory
  retryLen : BitVec 32
  retryBuf : ℕ

/-- `memcpy(mem + a, src, n)` -/
def memcpy (mem : Memory) (a : ℕ) (src : Memory) (n : ℕ) : Memory :=
  fun b => if a ≤ b ∧ b < a + n then src (b - a) else mem b

def sdiohalTxPacker (sendBuf : SdiohalSendbuf) (m : TxMbuf) : SdiohalSendbuf :=
  { sendBuf with
    buf := memcpy sendBuf.buf sendBuf.usedLen m.buf (m.len.toNat + SDIO_PUB_HEADER_SIZE)
    usedLen := sendBuf.usedLen + (SDIO_PUB_HEADER_SIZE + align4Byte m.len.toNat) }

/-- What `sdiohal_eof_buf_init` makes of the zeros of `kzalloc`. -/
def eofBuf : Memory := storePuh (fun _ => 0) 0 ⟨false, 0, true, 0, 0⟩

/-- Memory has no end here; in the driver the end header may lie behind the buffer, since the test for
room is about the packets alone. -/
def sdiohalTxSetEof (sendBuf : SdiohalSendbuf) : SdiohalSendbuf :=
  { sendBuf with
    buf := memcpy sendBuf.buf sendBuf.usedLen eofBuf SDIO_PUB_HEADER_SIZE
    usedLen := sendBuf.usedLen + SDIO_PUB_HEADER_SIZE }

/-- `send_buf.used_len = 0` -/
def SdiohalSendbuf.clear (sendBuf : SdiohalSendbuf) : SdiohalSendbuf := { sendBuf with usedLen := 0 }

/-- A call of `sdiohal_send`: the buffer, and the mbufs packed since the call before. -/
structure Sending where
  sendBuf : SdiohalSendbuf
  mbufs : List TxMbuf

/-- The loop of `sdiohal_tx_data_list_send` over the mbufs still to come, and the calls of
`sdiohal_send` from there on; `packed` are the mbufs in the buffer. -/
def sdiohalTxDataListSend : List TxMbuf → List TxMbuf → SdiohalSendbuf → List Sending
  | packed, [], sendBuf => [⟨sdiohalTxSetEof sendBuf, packed⟩]
  | packed, m :: mbufs, sendBuf =>
    if SDIOHAL_TX_SENDBUF_LEN <
        sendBuf.usedLen + SDIO_PUB_HEADER_SIZE + align4Byte m.len.toNat then
      let sent := sdiohalTxSetEof sendBuf
      ⟨sent, packed⟩ ::
        sdiohalTxDataListSend [m] mbufs (sdiohalTxPacker sent.clear m)
    else sdiohalTxDataListSend (packed ++ [m]) mbufs (sdiohalTxPacker sendBuf m)

def sdiohalGetBlkSize (blkSize : Bool) : ℕ := if blkSize then 512 else 840

def sdiohalTxInitRetrybuf (sendBuf : SdiohalSendbuf) : SdiohalSendbuf :=
  { sendBuf with retryBuf := 0, retryLen := BitVec.ofNat 32 sendBuf.usedLen }

/-- One turn of the loop of `sdiohal_tx_retrybuf_left`. -/
def SdiohalSendbuf.skip (sendBuf : SdiohalSendbuf) (len : BitVec 16) : SdiohalSendbuf :=
  { sendBuf with
    retryLen := sendBuf.retryLen - BitVec.ofNat 32 SDIO_PUB_HEADER_SIZE -
      BitVec.ofNat 32 (align4Byte len.toNat)
    retryBuf := nextPuh sendBuf.retryBuf len }

/-- The loop of `sdiohal_tx_retrybuf_left` for the packets still to be counted. -/
def sdiohalTxRetrybufLeft : ℕ → SdiohalSendbuf → SdiohalSendbuf
  | 0, sendBuf => sendBuf
  | cnt + 1, sendBuf =>
    let puh := puhAt sendBuf.buf sendBuf.retryBuf
    if puh.eof then sendBuf else sdiohalTxRetrybufLeft cnt (sendBuf.skip puh.len)

variable {blkSize : ℕ} {validLen parseLen : BitVec 32} {mem mem' : Memory} {s r : Parser}
  {puh : SdioPuh} {m : TxMbuf} {mbufs packed : List TxMbuf} {sendBuf : SdiohalSendbuf} {a b e n k : ℕ}

/-! ## The bytes of a header -/

/-- A header is read as it was written. -/
theorem puhAt_storePuh (mem : Memory) (a : ℕ) (puh : SdioPuh) :
    puhAt (storePuh mem a puh) a = puh := by
  have hfirst : storePuh mem a puh a =
      (puh.len.extractLsb' 0 1 ++ (BitVec.ofBool puh.checkSum ++ 0#6) : BitVec 8) := by
    simp [storePuh]
  have hsecond : storePuh mem a puh (a + 1) = puh.len.extractLsb' 1 8 := by simp [storePuh]
  have hthird : storePuh mem a puh (a + 2) =
      (BitVec.ofBool puh.eof ++ puh.len.extractLsb' 9 7 : BitVec 8) := by simp [storePuh]
  have hfourth : storePuh mem a puh (a + 3) = (puh.type ++ puh.subtype : BitVec 8) := by
    simp [storePuh]
  have hcheck : (puh.len.extractLsb' 0 1 ++ (BitVec.ofBool puh.checkSum ++ 0#6) :
      BitVec 8).getLsbD 6 = puh.checkSum := by
    rw [BitVec.getLsbD_append, BitVec.getLsbD_append]
    simp
  have heof : (BitVec.ofBool puh.eof ++ puh.len.extractLsb' 9 7 : BitVec 8).getLsbD 7 =
      puh.eof := by
    rw [BitVec.getLsbD_append]
    simp
  rw [puhAt, hfirst, hsecond, hthird, hfourth, append_high (puh.len.extractLsb' 0 1),
    append_low _ (puh.len.extractLsb' 9 7), len_bits, hcheck, heof, append_low, append_high]

theorem storePuh_behind (mem : Memory) (puh : SdioPuh) (hb : a + 4 ≤ b) :
    storePuh mem a puh b = mem b := by
  have h0 : b ≠ a := by omega
  have h1 : b ≠ a + 1 := by omega
  have h2 : b ≠ a + 2 := by omega
  have h3 : b ≠ a + 3 := by omega
  rw [storePuh, Function.update_of_ne h3, Function.update_of_ne h2, Function.update_of_ne h1,
    Function.update_of_ne h0]

/-- A header that was copied is read as the one it is a copy of. -/
theorem puhAt_of_bytes (h : ∀ i < 4, mem' (b + i) = mem (a + i)) : puhAt mem' b = puhAt mem a := by
  have h0 : mem' b = mem a := h 0 (by omega)
  rw [puhAt, puhAt, h0, h 1 (by omega), h 2 (by omega), h 3 (by omega)]

theorem fillPuh_puh (m : TxMbuf) : puhAt m.fillPuh.buf 0 =
    ⟨(puhAt m.buf 0).checkSum, m.len, false, BitVec.ofNat 4 m.channel, 0⟩ :=
  puhAt_storePuh ..

theorem eofBuf_puh : (puhAt eofBuf 0).eof = true := by
  rw [eofBuf, puhAt_storePuh]

theorem memcpy_copied (mem src : Memory) (a : ℕ) {i n : ℕ} (hi : i < n) :
    memcpy mem a src n (a + i) = src i := by
  rw [memcpy, if_pos ⟨Nat.le_add_right a i, Nat.add_lt_add_left hi a⟩, Nat.add_sub_cancel_left]

theorem memcpy_before (mem src : Memory) (n : ℕ) (hb : b < a) : memcpy mem a src n b = mem b :=
  if_neg fun h => Nat.not_le_of_lt hb h.1

/-! ## Packets one behind the other -/

/-- Headers and payloads of mbufs lie one behind the other from an address to another one. -/
inductive Laid (mem : Memory) : ℕ → List TxMbuf → ℕ → Prop
  | nil {a : ℕ} : Laid mem a [] a
  | cons {a e : ℕ} {m : TxMbuf} {mbufs : List TxMbuf} :
      (∀ i < m.len.toNat + 4, mem (a + i) = m.buf i) → Laid mem (nextPuh a m.len) mbufs e →
      Laid mem a (m :: mbufs) e

theorem Laid.le (h : Laid mem a mbufs e) : a ≤ e := by
  induction h with
  | nil => exact Nat.le_refl _
  | @cons a e m mbufs _ _ ih =>
    have hnext := le_nextPuh a m.len
    omega

theorem nextPuh_add (d a : ℕ) (len : BitVec 16) : nextPuh (d + a) len = d + nextPuh a len := by
  rw [nextPuh, nextPuh]
  omega

/-- The packets lie in any memory that has the same bytes, also at other addresses. -/
theorem Laid.copy {d : ℕ} (h : Laid mem a mbufs e) (hbytes : ∀ b, a ≤ b → b < e → mem' (d + b) = mem b) :
    Laid mem' (d + a) mbufs (d + e) := by
  induction h with
  | nil => exact .nil
  | @cons a e m mbufs hm hrest ih =>
    have hnext := le_nextPuh a m.len
    have hend := hrest.le
    refine .cons (fun i hi => ?_) ?_
    · rw [Nat.add_assoc, hbytes (a + i) (by omega) (by omega)]
      exact hm i hi
    · rw [nextPuh_add]
      exact ih fun b hb hbe => hbytes b (by omega) hbe

theorem Laid.frame (h : Laid mem a mbufs e) (hbytes : ∀ b < e, mem' b = mem b) :
    Laid mem' a mbufs e := by
  have hcopy : Laid mem' (0 + a) mbufs (0 + e) := h.copy fun b _ hb => by
    rw [Nat.zero_add]
    exact hbytes b hb
  rwa [Nat.zero_add, Nat.zero_add] at hcopy

theorem Laid.snoc (h : Laid mem a mbufs e) (hm : ∀ i < m.len.toNat + 4, mem (e + i) = m.buf i) :
    Laid mem a (mbufs ++ [m]) (nextPuh e m.len) := by
  induction h with
  | nil => exact .cons hm .nil
  | cons hfirst _ ih => exact .cons hfirst (ih hm)

theorem packer_laid (h : Laid sendBuf.buf 0 packed sendBuf.usedLen) (m : TxMbuf) :
    Laid (sdiohalTxPacker sendBuf m).buf 0 (packed ++ [m]) (sdiohalTxPacker sendBuf m).usedLen := by
  have hkept : Laid (sdiohalTxPacker sendBuf m).buf 0 packed sendBuf.usedLen :=
    h.frame fun b hb => memcpy_before _ _ _ hb
  have hnext : (sdiohalTxPacker sendBuf m).usedLen = nextPuh sendBuf.usedLen m.len :=
    (Nat.add_assoc ..).symm
  rw [hnext]
  exact hkept.snoc fun i hi => memcpy_copied _ _ _ hi

/-- The first packet after a flush. -/
theorem packer_first (sendBuf : SdiohalSendbuf) (m : TxMbuf) :
    Laid (sdiohalTxPacker sendBuf.clear m).buf 0 [m] (sdiohalTxPacker sendBuf.clear m).usedLen := by
  have hempty : Laid sendBuf.clear.buf 0 [] sendBuf.clear.usedLen := .nil
  exact packer_laid hempty m

/-- What a buffer has when it is sent: the packets, and the header that ends them. -/
structure Packed (t : Sending) (e : ℕ) : Prop where
  laid : Laid t.sendBuf.buf 0 t.mbufs e
  eof : (puhAt t.sendBuf.buf e).eof = true
  usedLen : t.sendBuf.usedLen = e + 4

theorem setEof_packed (h : Laid sendBuf.buf 0 packed sendBuf.usedLen) :
    Packed ⟨sdiohalTxSetEof sendBuf, packed⟩ sendBuf.usedLen := by
  refine ⟨h.frame fun b hb => memcpy_before _ _ _ hb, ?_, rfl⟩
  have hcopied : puhAt (sdiohalTxSetEof sendBuf).buf sendBuf.usedLen = puhAt eofBuf 0 :=
    puhAt_of_bytes fun i hi => by
      rw [Nat.zero_add]
      exact memcpy_copied _ _ _ hi
  rw [hcopied, eofBuf_puh]

theorem dataListSend_packed (mbufs : List TxMbuf) (h : Laid sendBuf.buf 0 packed sendBuf.usedLen) :
    (sdiohalTxDataListSend packed mbufs sendBuf).flatMap Sending.mbufs = packed ++ mbufs ∧
      ∀ t ∈ sdiohalTxDataListSend packed mbufs sendBuf, ∃ e, Packed t e := by
  induction mbufs generalizing packed sendBuf with
  | nil =>
    refine ⟨by simp [sdiohalTxDataListSend], fun t ht => ⟨sendBuf.usedLen, ?_⟩⟩
    rw [sdiohalTxDataListSend, List.mem_singleton] at ht
    exact ht ▸ setEof_packed h
  | cons m mbufs ih =>
    rw [sdiohalTxDataListSend]
    split
    · obtain ⟨hall, hpacked⟩ := ih (packer_first (sdiohalTxSetEof sendBuf) m)
      refine ⟨?_, fun t ht => ?_⟩
      · rw [List.flatMap_cons, hall, List.singleton_append]
      · rcases List.mem_cons.mp ht with rfl | ht
        · exact ⟨sendBuf.usedLen, setEof_packed h⟩
        · exact hpacked t ht
    · obtain ⟨hall, hpacked⟩ := ih (packer_laid h m)
      refine ⟨?_, hpacked⟩
      rw [hall, List.append_assoc, List.singleton_append]

/-! ## The walk over a buffer to be sent again -/

/-- The header in an mbuf is the one `sdiohal_tx_fill_puh` writes. -/
def TxMbuf.Filled (m : TxMbuf) : Prop :=
  puhAt m.buf 0 = ⟨(puhAt m.buf 0).checkSum, m.len, false, BitVec.ofNat 4 m.channel, 0⟩

theorem fillPuh_filled (m : TxMbuf) : m.fillPuh.Filled := by
  rw [TxMbuf.Filled, fillPuh_puh]
  rfl

theorem puhAt_laid (hm : ∀ i < m.len.toNat + 4, mem (a + i) = m.buf i) : puhAt mem a = puhAt m.buf 0 :=
  puhAt_of_bytes fun i hi => by
    rw [Nat.zero_add]
    exact hm i (by omega)

/-- At most `cnt` packets are left behind, and the walk stops at the header that ends them. -/
theorem retrybufLeft_of_laid (hfilled : ∀ m ∈ mbufs, m.Filled)
    (h : Laid sendBuf.buf sendBuf.retryBuf mbufs e) (heof : (puhAt sendBuf.buf e).eof = true)
    (hlen : sendBuf.retryLen = BitVec.ofNat 32 (e + 4 - sendBuf.retryBuf)) (cnt : ℕ) :
    ∃ a, Laid sendBuf.buf sendBuf.retryBuf (mbufs.take cnt) a ∧
      Laid sendBuf.buf a (mbufs.drop cnt) e ∧ sdiohalTxRetrybufLeft cnt sendBuf =
        { sendBuf with retryBuf := a, retryLen := BitVec.ofNat 32 (e + 4 - a) } := by
  induction cnt generalizing mbufs sendBuf with
  | zero =>
    refine ⟨sendBuf.retryBuf, .nil, h, ?_⟩
    rw [sdiohalTxRetrybufLeft, ← hlen]
  | succ cnt ih =>
    rw [sdiohalTxRetrybufLeft]
    cases h with
    | nil =>
      refine ⟨sendBuf.retryBuf, .nil, .nil, ?_⟩
      rw [← hlen]
      exact if_pos heof
    | @cons _ _ m mbufs hm hrest =>
      have hpuh : puhAt sendBuf.buf sendBuf.retryBuf = puhAt m.buf 0 := puhAt_laid hm
      have hlen' : (puhAt m.buf 0).len = m.len := by
        rw [hfilled m (List.mem_cons_self ..)]
      have hgo : ¬ (puhAt m.buf 0).eof = true := by
        rw [hfilled m (List.mem_cons_self ..)]
        exact Bool.false_ne_true
      have hend := hrest.le
      have hnext : nextPuh sendBuf.retryBuf m.len =
          sendBuf.retryBuf + 4 + align4Byte m.len.toNat := rfl
      have hsplit : e + 4 - sendBuf.retryBuf =
          e + 4 - nextPuh sendBuf.retryBuf m.len + align4Byte m.len.toNat + 4 := by omega
      have hskip : Laid (sendBuf.skip m.len).buf (sendBuf.skip m.len).retryBuf mbufs e := hrest
      have hleft : (sendBuf.skip m.len).retryLen =
          BitVec.ofNat 32 (e + 4 - (sendBuf.skip m.len).retryBuf) := by
        rw [SdiohalSendbuf.skip, hlen, hsplit, BitVec.ofNat_add, BitVec.ofNat_add]
        simp
      obtain ⟨a, htaken, hrest', hwalk⟩ := ih
        (fun x hx => hfilled x (List.mem_cons_of_mem _ hx)) hskip heof hleft
      rw [hpuh, if_neg hgo, hlen']
      exact ⟨a, .cons hm htaken, hrest', hwalk⟩

/-! ## What a turn of the parser writes -/

/-- The parser has gone on, and has written at most the first four of the bytes it came from. -/
structure Onward (s s' : Parser) : Prop where
  puh : s.puh ≤ s'.puh
  mem : ∀ b, b < s.puh ∨ s.puh + 4 ≤ b → s'.data.mem b = s.data.mem b

theorem setLen_outside (mem : Memory) (len : BitVec 16) (hb : b < a ∨ a + 4 ≤ b) :
    setLen mem a len b = mem b := by
  rcases hb with hb | hb
  · have h0 : b ≠ a := by omega
    have h1 : b ≠ a + 1 := by omega
    have h2 : b ≠ a + 2 := by omega
    rw [setLen, Function.update_of_ne h2, Function.update_of_ne h1, Function.update_of_ne h0]
  · exact setLen_behind mem len hb

theorem count_onward (s : Parser) (puh : SdioPuh) : Onward s (s.count puh) := by
  refine ⟨Nat.le_refl _, fun b hb => ?_⟩
  rw [Parser.count]
  dsimp only
  split
  · exact setLen_outside _ _ hb
  · rfl

theorem getRxMbufNode_mem {p p' : SdiohalData} {x : MbufAddr}
    (h : sdiohalGetRxMbufNode p = some (x, p')) : p'.mem = p.mem := by
  rw [sdiohalGetRxMbufNode] at h
  split at h
  · cases h
  · split at h
    · cases h
    · obtain ⟨y, -, heq⟩ := Option.map_eq_some_iff.mp h
      cases heq
      rfl

theorem dataListAssignment_mem {p p' : SdiohalData} {x : MbufAddr} {channel : ℕ}
    (h : sdiohalDataListAssignment p x puh channel = some p') : p'.mem = p.mem := by
  obtain ⟨c, -, rfl⟩ := Option.map_eq_some_iff.mp h
  exact (rxAssign_assigned p c x puh).same.mem

theorem attach_onward {channel : ℕ} (h : s.attach puh channel = .inl r ∨ s.attach puh channel = .inr r) :
    Onward s r := by
  have hself : Onward s s := ⟨Nat.le_refl _, fun _ _ => rfl⟩
  rw [Parser.attach] at h
  split at h
  · rcases h with h | h
    · exact (Sum.inl.inj h) ▸ hself
    · cases h
  · rename_i x p hnode
    split at h
    · rcases h with h | h
      · exact (Sum.inl.inj h) ▸ hself
      · cases h
    · rename_i p' hassign
      rcases h with h | h
      · cases h
      · obtain rfl := Sum.inr.inj h
        refine ⟨(Nat.le_add_right _ 4).trans (add_four_le_nextPuh ..), fun b _ => ?_⟩
        have htaken : p.mem = s.data.mem := getRxMbufNode_mem hnode
        exact congrFun ((dataListAssignment_mem hassign).trans htaken) b

theorem body_onward (h : parserBody blkSize validLen s = .inl r ∨ parserBody blkSize validLen s = .inr r) :
    Onward s r := by
  have hself : Onward s s := ⟨Nat.le_refl _, fun _ _ => rfl⟩
  rw [parserBody] at h
  split at h
  swap
  · rcases h with h | h
    · exact (Sum.inl.inj h) ▸ hself
    · cases h
  dsimp only at h
  split at h
  · rcases h with h | h
    · obtain rfl := Sum.inl.inj h
      exact ⟨Nat.le_refl _, fun _ _ => rfl⟩
    · cases h
  split at h
  · rcases h with h | h
    · cases h
    · obtain rfl := Sum.inr.inj h
      exact ⟨(Nat.le_add_right _ 4).trans (add_four_le_nextPuh ..), fun _ _ => rfl⟩
  have hcount := count_onward (s.access s.puh SDIO_PUB_HEADER_SIZE) (puhAt s.data.mem s.puh)
  split at h
  · rcases h with h | h
    · cases h
    · obtain rfl := Sum.inr.inj h
      exact ⟨hcount.puh, hcount.mem⟩
  · have hattach := attach_onward h
    exact ⟨hattach.puh, fun b hb => (hattach.mem b hb).trans (hcount.mem b hb)⟩

theorem run_onward (hr : r ∈ parserLoop blkSize validLen s) :
    s.puh ≤ r.puh ∧ ∀ b < s.puh, r.data.mem b = s.data.mem b := by
  refine parserLoop_induct (motive := fun s => s.puh ≤ r.puh ∧ ∀ b < s.puh, r.data.mem b = s.data.mem b)
    hr fun s hs ih => ?_
  rcases mem_parserLoop.mp hs with hend | ⟨s', hgo, -⟩
  · have hturn := body_onward (.inl hend)
    exact ⟨hturn.puh, fun b hb => hturn.mem b (.inl hb)⟩
  · have hturn := body_onward (.inr hgo)
    obtain ⟨-, hpuh, hmem⟩ := ih s' hgo
    exact ⟨hturn.puh.trans hpuh, fun b hb =>
      (hmem b (hb.trans_le hturn.puh)).trans (hturn.mem b (.inl hb))⟩

/-! ## Runs over packed mbufs -/

theorem returned_of_stop {s' : Parser} (hr : r ∈ parserLoop blkSize validLen s)
    (hbody : parserBody blkSize validLen s = .inl s') : r = s' := by
  rcases mem_parserLoop.mp hr with hend | ⟨s'', hgo, -⟩
  · exact Sum.inl.inj (hend.symm.trans hbody)
  · cases hgo.symm.trans hbody

theorem Ready.visited (hs : Ready s.data) : Ready s.visited.data := ⟨hs.init, hs.stored, hs.marked⟩

/-- Counting the length of a header changes no mbuf and no list. -/
theorem Attached.of_visited {p : SdiohalData} {xs : List MbufAddr} {packets : List Packet}
    (h : Attached s.visited.data p xs packets) : Attached s.data p xs packets :=
  ⟨h.taken, h.written, h.rx, h.tx, h.others⟩

/-- The parser has attached the packet at a header in the first visit in which it is not refused,
after `j` others. -/
structure LeftBehind (blkSize : ℕ) (mem : Memory) (a : ℕ) (parseLen : BitVec 32) (j : ℕ)
    (x : MbufAddr) (s s' : Parser) : Prop where
  refused : ∀ i < j, (puhAt mem a).RefusedAt blkSize i
  accepted : ¬ (puhAt mem a).RefusedAt blkSize j
  next : At mem (nextPuh a ((puhAt mem a).lenAt (j + 1))) ((puhAt mem a).parsedAt parseLen (j + 1)) 0 s'
  ready : Ready s'.data
  avail : s.data.avail = s'.data.avail + 1
  attached : Attached s.data s'.data [x] [(a, (puhAt mem a).visit (j + 1))]

/-- A run that returns ends at the header of a packet or leaves it behind. -/
theorem run_at_packet (hr : r ∈ parserLoop blkSize validLen s) (hat : At mem a parseLen k s)
    (hs : Ready s.data) (heof : (puhAt mem a).eof = false) (htype : (puhAt mem a).type ≠ 0xF)
    (hrefused : ∀ i < k, (puhAt mem a).RefusedAt blkSize i) :
    (r.puh = a ∧ Attached s.data r.data [] []) ∨
      ∃ j x s', LeftBehind blkSize mem a parseLen j x s s' ∧ r ∈ parserLoop blkSize validLen s' := by
  refine parserLoop_induct (motive := fun s => ∀ k, At mem a parseLen k s → Ready s.data →
    (∀ i < k, (puhAt mem a).RefusedAt blkSize i) →
    (r.puh = a ∧ Attached s.data r.data [] []) ∨
      ∃ j x s', LeftBehind blkSize mem a parseLen j x s s' ∧ r ∈ parserLoop blkSize validLen s') hr
    (fun s hr ih k hat hs hrefused => ?_) k hat hs hrefused
  by_cases hlt : (puhAt mem a).parsedAt parseLen k < validLen
  swap
  · obtain rfl := returned_of_stop hr (body_limit hat hlt)
    exact .inl ⟨hat.puh, .nil r.data⟩
  have hbody : parserBody blkSize validLen s = _ := body_counted hat hlt heof htype
  by_cases href : (puhAt mem a).RefusedAt blkSize k
  · have hrefused' : ∀ i < k + 1, (puhAt mem a).RefusedAt blkSize i := by
      intro i hi
      rcases Nat.lt_succ_iff_lt_or_eq.mp hi with hi | rfl
      · exact hrefused i hi
      · exact href
    obtain ⟨-, hnext⟩ := ih _ (hbody.trans (if_pos href))
    rcases hnext (k + 1) hat.visited hs.visited hrefused' with ⟨hpuh, hnone⟩ | ⟨j, x, s', hleft, hr'⟩
    · exact .inl ⟨hpuh, hnone.of_visited⟩
    · exact .inr ⟨j, x, s', ⟨hleft.refused, hleft.accepted, hleft.next, hleft.ready, hleft.avail,
        hleft.attached.of_visited⟩, hr'⟩
  · by_cases havail : s.data.avail = 0
    · have hstop := hbody.trans (if_neg href)
      rw [attach_none (show s.visited.data.avail = 0 from havail)] at hstop
      obtain rfl := returned_of_stop hr hstop
      exact .inl ⟨hat.puh, (Attached.nil s.visited.data).of_visited⟩
    · obtain ⟨x, s', hgo, hat', hs', havail', -, hattached⟩ :=
        turn_of_packet hat hlt heof htype href hs havail
      exact .inr ⟨k, x, s', ⟨hrefused, href, hat', hs', by omega, hattached⟩, (ih s' hgo).1⟩

/-- Any run that returns has attached some packets. -/
theorem run_attached (hr : r ∈ parserLoop blkSize validLen s) (hs : Ready s.data) :
    ∃ xs packets, Attached s.data r.data xs packets := by
  refine parserLoop_induct (motive := fun s => Ready s.data →
    ∃ xs packets, Attached s.data r.data xs packets) hr (fun s hr ih hs => ?_) hs
  have hat : At s.data.mem s.puh s.parseLen 0 s := .start rfl rfl fun _ _ => rfl
  by_cases hlt : (puhAt s.data.mem s.puh).parsedAt s.parseLen 0 < validLen
  swap
  · obtain rfl := returned_of_stop hr (body_limit hat hlt)
    exact ⟨[], [], .nil r.data⟩
  cases heof : (puhAt s.data.mem s.puh).eof with
  | true =>
    obtain rfl := returned_of_stop hr (body_eof hat hlt heof)
    exact ⟨[], [], .nil s.data⟩
  | false =>
    by_cases htype : (puhAt s.data.mem s.puh).type = 0xF
    · exact (ih _ (body_filler hat hlt blkSize heof htype)).2 hs
    · have hbody : parserBody blkSize validLen s = _ := body_counted hat hlt heof htype
      by_cases href : (puhAt s.data.mem s.puh).RefusedAt blkSize 0
      · obtain ⟨xs, packets, hattached⟩ := (ih _ (hbody.trans (if_pos href))).2 hs.visited
        exact ⟨xs, packets, hattached.of_visited⟩
      · by_cases havail : s.data.avail = 0
        · have hstop := hbody.trans (if_neg href)
          rw [attach_none (show s.visited.data.avail = 0 from havail)] at hstop
          obtain rfl := returned_of_stop hr hstop
          exact ⟨[], [], (Attached.nil s.visited.data).of_visited⟩
        · obtain ⟨x, s', hgo, -, hs', -, -, hone⟩ :=
            turn_of_packet hat hlt heof htype href hs havail
          obtain ⟨xs, packets, hattached⟩ := (ih s' hgo).2 hs'
          exact ⟨_, _, hone.cons (hs.stored.holds .rxBuf).nodup hattached⟩

/-- An mbuf whose packet the parser of receive buffers hands on as it is. -/
structure TxMbuf.Parsable (blkSize : ℕ) (m : TxMbuf) : Prop where
  checkSum : (puhAt m.buf 0).checkSum = false
  pos : m.len ≠ 0
  le : m.len.toNat ≤ MAX_PAC_SIZE blkSize - SDIO_PUB_HEADER_SIZE

theorem not_refused_iff {channel : ℕ} {len : BitVec 16} (h : channel < SDIO_CHANNEL_NUM) :
    ¬ Refused blkSize channel len ↔
      len ≠ 0 ∧ len.toNat ≤ MAX_PAC_SIZE blkSize - SDIO_PUB_HEADER_SIZE := by
  rw [Refused]
  constructor
  · intro hacc
    exact ⟨fun hzero => hacc (.inr (.inr hzero)),
      Nat.le_of_not_lt fun hlt => hacc (.inr (.inl hlt))⟩
  · rintro ⟨hpos, hle⟩ (hchannel | hlt | hzero)
    · exact Nat.not_le_of_lt h hchannel
    · exact Nat.not_lt_of_le hle hlt
    · exact hpos hzero

theorem lenAt_toNat (hcheck : puh.checkSum = true) (k : ℕ) :
    (puh.lenAt k).toNat = (puh.len.toNat + 2 * k) % 65536 := by
  rw [SdioPuh.lenAt, if_pos hcheck, BitVec.toNat_add, BitVec.toNat_ofNat, Nat.add_mod_mod]

/-- If check sums are added until the length is back at its value, the header is accepted before. -/
theorem checkSum_of_lenAt {j : ℕ} (hmax : 8 ≤ MAX_PAC_SIZE blkSize)
    (hrefused : ∀ i < j, puh.RefusedAt blkSize i) (haccepted : ¬ puh.RefusedAt blkSize j)
    (hlen : puh.lenAt (j + 1) = puh.len) : puh.checkSum = false := by
  by_contra hcheck
  rw [Bool.not_eq_false] at hcheck
  have hchannel : sdiohalHwtypeToChannel false puh.type.toNat puh.subtype.toNat <
      SDIO_CHANNEL_NUM := Nat.lt_of_not_le fun hle => haccepted (.inl hle)
  obtain ⟨hpos, hle⟩ := (not_refused_iff hchannel).mp haccepted
  have hback := congrArg BitVec.toNat hlen
  rw [hlen] at hpos hle
  rw [lenAt_toNat hcheck] at hback
  have hlt := puh.len.isLt
  have hpos' : 0 < puh.len.toNat := Nat.pos_of_ne_zero fun hzero =>
    hpos (BitVec.eq_of_toNat_eq hzero)
  -- the visit that finds a length from 1 to 4 which is accepted
  have haccept : ∀ i < j, ¬ (0 < (puh.len.toNat + 2 * (i + 1)) % 65536 ∧
      (puh.len.toNat + 2 * (i + 1)) % 65536 ≤ 4) := by
    rintro i hi ⟨hzero, hfour⟩
    refine (not_refused_iff hchannel).mpr ⟨fun hnone => ?_, ?_⟩ (hrefused i hi)
    · have hval := lenAt_toNat hcheck (i + 1)
      rw [hnone] at hval
      exact absurd hval.symm (Nat.ne_of_gt hzero)
    · rw [lenAt_toNat hcheck]
      exact hfour.trans (Nat.le_sub_of_add_le hmax)
  have hj : 32767 ≤ j := by omega
  by_cases hsmall : puh.len.toNat ≤ 2
  · exact haccept 0 (by omega) (by omega)
  · exact haccept ((65536 - puh.len.toNat + 2 - puh.len.toNat % 2) / 2 - 1) (by omega) (by omega)

theorem blkSize_max (blk : Bool) : 8 ≤ MAX_PAC_SIZE (sdiohalGetBlkSize blk) := by
  cases blk <;> decide

section
variable (hm : m.Filled) (hbytes : ∀ i < m.len.toNat + 4, mem (a + i) = m.buf i)
include hm hbytes

theorem filled_eof : (puhAt mem a).eof = false := by
  rw [puhAt_laid hbytes, hm]

theorem filled_type : (puhAt mem a).type ≠ 0xF := by
  rw [puhAt_laid hbytes, hm]
  exact (by decide : (0 : BitVec 4) ≠ 0xF)

theorem filled_len : (puhAt mem a).len = m.len := by
  rw [puhAt_laid hbytes, hm]

theorem filled_channel : sdiohalHwtypeToChannel false (puhAt mem a).type.toNat
    (puhAt mem a).subtype.toNat < SDIO_CHANNEL_NUM := by
  have hsub : (puhAt mem a).subtype.toNat ≤ m.channel := by
    rw [puhAt_laid hbytes, hm]
    exact Nat.mod_le ..
  have hlt : (m.channel : ℕ) < 12 := m.channel.isLt
  rw [sdiohalHwtypeToChannel, if_neg Bool.false_ne_true]
  exact (Nat.add_lt_add_right (hsub.trans_lt hlt) SDIO_CHN_TX_NUM).trans (by decide)

end

/-- What a run tells that ends behind all packets and hands on their lengths. -/
theorem parsable_of_run {xs : List MbufAddr} (hmax : 8 ≤ MAX_PAC_SIZE blkSize)
    (hlaid : Laid mem a mbufs e) (hfilled : ∀ m ∈ mbufs, m.Filled)
    (hr : r ∈ parserLoop blkSize validLen s) (hat : At mem a parseLen 0 s) (hs : Ready s.data)
    (hend : r.puh = e) (htaken : s.data.nodes .rxBuf = xs ++ r.data.nodes .rxBuf)
    (hlens : List.Forall₂ (fun x (m : TxMbuf) => (r.data.mbuf x).len = m.len) xs mbufs) :
    mbufs.length ≤ s.data.avail ∧ ∀ m ∈ mbufs, m.Parsable blkSize := by
  induction hlaid generalizing s parseLen xs with
  | nil => exact ⟨Nat.zero_le _, fun m hm => absurd hm List.not_mem_nil⟩
  | @cons a e m mbufs hbytes hrest ih =>
    have hm := hfilled m (List.mem_cons_self ..)
    have hlen := filled_len hm hbytes
    rcases run_at_packet hr hat hs (filled_eof hm hbytes) (filled_type hm hbytes)
      (fun i hi => absurd hi (Nat.not_lt_zero i)) with ⟨hpuh, -⟩ | ⟨j, x, s', hleft, hr'⟩
    · have hnext := le_nextPuh a m.len
      have hle := hrest.le
      omega
    obtain ⟨ys, packets, hlater⟩ := run_attached hr' hleft.ready
    have hnodup := (hs.stored.holds .rxBuf).nodup
    have hall := hleft.attached.cons hnodup hlater
    obtain rfl : xs = x :: ys := List.append_cancel_right (htaken.symm.trans hall.taken)
    obtain ⟨hx, hys⟩ := List.forall₂_cons.mp hlens
    have hfound : (puhAt mem a).lenAt (j + 1) = (puhAt mem a).len :=
      (List.forall₂_cons.mp hall.written).1.2.symm.trans (hx.trans hlen.symm)
    have haccepted := (not_refused_iff (filled_channel hm hbytes)).mp hleft.accepted
    have hcheck := checkSum_of_lenAt hmax hleft.refused hleft.accepted hfound
    rw [hfound, hlen] at haccepted
    have hnext := hleft.next
    rw [hfound, hlen] at hnext
    obtain ⟨hlength, hparsable⟩ := ih (fun y hy => hfilled y (List.mem_cons_of_mem _ hy)) hr' hnext
      hleft.ready hend hlater.taken hys
    refine ⟨?_, fun y hy => ?_⟩
    · have havail := hleft.avail
      rw [List.length_cons]
      omega
    · rcases List.mem_cons.mp hy with rfl | hy
      · rw [puhAt_laid hbytes] at hcheck
        exact ⟨hcheck, haccepted.1, haccepted.2⟩
      · exact hparsable y hy

/-- A packet in memory is the one of an mbuf: its channel as type and subtype, its length and its
payload. -/
structure Carries (mem : Memory) (q : Packet) (m : TxMbuf) : Prop where
  type : q.2.type = 0
  subtype : q.2.subtype.toNat = m.channel
  len : q.2.len = m.len
  payload : ∀ i < m.len.toNat, mem (q.1 + SDIO_PUB_HEADER_SIZE + i) = m.buf (SDIO_PUB_HEADER_SIZE + i)

/-- The parser goes over parsable packets and stops at the header that ends them. -/
theorem run_of_parsable {dataBuf : ℕ} (hlaid : Laid mem a mbufs e) (hfilled : ∀ m ∈ mbufs, m.Filled)
    (hparsable : ∀ m ∈ mbufs, m.Parsable blkSize) (hat : At mem a parseLen 0 s) (hs : Ready s.data)
    (havail : mbufs.length ≤ s.data.avail) (heof : (puhAt mem e).eof = true)
    (hparse : dataBuf + parseLen.toNat ≤ a) (hvalid : e + 4 ≤ dataBuf + validLen.toNat) :
    ∃ r ∈ parserLoop blkSize validLen s, r.puh = e ∧ (puhAt r.data.mem e).eof = true ∧
      ∃ xs packets, Attached s.data r.data xs packets ∧
        List.Forall₂ (Carries r.data.mem) packets mbufs := by
  induction hlaid generalizing s parseLen with
  | @nil a =>
    have hlt : (puhAt mem a).parsedAt parseLen 0 < validLen := by
      rw [parsedAt_zero, BitVec.lt_def]
      omega
    refine ⟨_, mem_parserLoop.mpr (.inl (body_eof hat hlt heof)), hat.puh, ?_, [], [], .nil s.data,
      .nil⟩
    have hheader : puhAt s.data.mem a = puhAt mem a := by
      rw [hat.header, visit_zero]
    exact (congrArg SdioPuh.eof hheader).trans heof
  | @cons a e m mbufs hbytes hrest ih =>
    have hm := hfilled m (List.mem_cons_self ..)
    have hgood := hparsable m (List.mem_cons_self ..)
    have hlen := filled_len hm hbytes
    have hcheck : (puhAt mem a).checkSum = false := by
      rw [puhAt_laid hbytes]
      exact hgood.checkSum
    have hlenAt : ∀ k, (puhAt mem a).lenAt k = m.len := by
      intro k
      rw [SdioPuh.lenAt, hcheck, ← hlen]
      rfl
    have hle := hrest.le
    have hnext := le_nextPuh a m.len
    have hlt : (puhAt mem a).parsedAt parseLen 0 < validLen := by
      rw [parsedAt_zero, BitVec.lt_def]
      omega
    have haccepted : ¬ (puhAt mem a).RefusedAt blkSize 0 := by
      rw [SdioPuh.RefusedAt, not_refused_iff (filled_channel hm hbytes), hlenAt]
      exact ⟨hgood.pos, hgood.le⟩
    rw [List.length_cons] at havail
    obtain ⟨x, s', hbody, hat', hs', havail', -, hattached⟩ := turn_of_packet hat hlt
      (filled_eof hm hbytes) (filled_type hm hbytes) haccepted hs (by omega)
    rw [hlenAt] at hat'
    have hparsed := parsedAt_one_le (puhAt mem a) parseLen
    rw [hlen] at hparsed
    obtain ⟨r, hr, hpuh, heof', xs, packets, hlater, hcarries⟩ := ih
      (fun y hy => hfilled y (List.mem_cons_of_mem _ hy))
      (fun y hy => hparsable y (List.mem_cons_of_mem _ hy)) hat' hs' (by omega) heof
      (by rw [Nat.zero_add]; omega) hvalid
    have hturn := body_onward (.inr hbody)
    refine ⟨r, mem_parserLoop.mpr (.inr ⟨s', hbody, hr⟩), hpuh, heof', x :: xs, _,
      hattached.cons (hs.stored.holds .rxBuf).nodup hlater, .cons ⟨?_, ?_, ?_, fun i hi => ?_⟩ hcarries⟩
    · rw [SdioPuh.visit, puhAt_laid hbytes, hm]
    · have hlt12 : (m.channel : ℕ) < 12 := m.channel.isLt
      have hsub : (BitVec.ofNat 4 m.channel).toNat = m.channel := Nat.mod_eq_of_lt (by omega)
      rw [SdioPuh.visit, puhAt_laid hbytes, hm, hsub]
    · exact hlenAt 1
    · -- the payload lies behind the header and before where the rest of the run writes
      have hkept := (run_onward hr).2 (a + 4 + i) (by rw [hat'.puh]; omega)
      have hwritten := hturn.mem (a + 4 + i) (.inr (by rw [hat.puh]; omega))
      rw [hkept, hwritten, hat.behind _ (by omega), Nat.add_assoc]
      exact hbytes (4 + i) (by omega)

/-! ## Round trips -/

/-- A receive buffer that has what was sent, and the arguments of its parser. -/
structure Receiver (t : Sending) where
  data : SdiohalData
  dataBuf : ℕ
  validLen : BitVec 32
  ready : Ready data
  loaded : ∀ b < t.sendBuf.usedLen, data.mem (dataBuf + b) = t.sendBuf.buf b
  valid : t.sendBuf.usedLen ≤ validLen.toNat

/-- The mbufs of a sent buffer are handed on one by one, and both walks stop at the header that
ends them. -/
structure Returned (blkSize : ℕ) (t : Sending) (c : Receiver t) : Prop where
  parsed : ∃ r ∈ sdiohalRxBufParser blkSize c.dataBuf c.validLen c.data,
    r.puh + SDIO_PUB_HEADER_SIZE = c.dataBuf + t.sendBuf.usedLen ∧ (puhAt r.data.mem r.puh).eof = true ∧
    ∃ xs packets, Attached c.data r.data xs packets ∧
      List.Forall₂ (Carries r.data.mem) packets t.mbufs
  retried : ∀ cnt, ∃ a, Laid t.sendBuf.buf 0 (t.mbufs.take cnt) a ∧
    Laid t.sendBuf.buf a (t.mbufs.drop cnt) (t.sendBuf.usedLen - SDIO_PUB_HEADER_SIZE) ∧
    sdiohalTxRetrybufLeft cnt (sdiohalTxInitRetrybuf t.sendBuf) =
      { t.sendBuf with retryBuf := a, retryLen := BitVec.ofNat 32 (t.sendBuf.usedLen - a) }

theorem fillPuh_parsable (m : TxMbuf) : m.fillPuh.Parsable blkSize ↔ m.Parsable blkSize := by
  have hsame : (puhAt m.fillPuh.buf 0).checkSum = (puhAt m.buf 0).checkSum := by rw [fillPuh_puh]
  exact ⟨fun h => ⟨hsame ▸ h.checkSum, h.pos, h.le⟩, fun h => ⟨hsame.trans h.checkSum, h.pos, h.le⟩⟩

theorem handed_lens {p : SdiohalData} {xs : List MbufAddr} {packets : List Packet}
    (hwritten : List.Forall₂ (fun x (q : Packet) => (p.mbuf x).buf = q.1 ∧ (p.mbuf x).len = q.2.len)
      xs packets) (hcarries : List.Forall₂ (Carries mem) packets mbufs) :
    List.Forall₂ (fun x (m : TxMbuf) => (p.mbuf x).len = m.len) xs mbufs := by
  induction hwritten generalizing mbufs with
  | nil =>
    cases hcarries
    exact .nil
  | cons hx _ ih =>
    cases hcarries with
    | cons hq hrest => exact .cons (hx.2.trans hq.len) (ih hrest)

theorem returned_iff {t : Sending} (hmax : 8 ≤ MAX_PAC_SIZE blkSize) (ht : Packed t e)
    (hfilled : ∀ m ∈ t.mbufs, m.Filled) (c : Receiver t) :
    Returned blkSize t c ↔ t.mbufs.length ≤ c.data.avail ∧ ∀ m ∈ t.mbufs, m.Parsable blkSize := by
  have hused := ht.usedLen
  have hlaid : Laid c.data.mem (c.dataBuf + 0) t.mbufs (c.dataBuf + e) :=
    ht.laid.copy fun b _ hb => c.loaded b (by omega)
  have heof : (puhAt c.data.mem (c.dataBuf + e)).eof = true := by
    rw [puhAt_of_bytes fun i hi => ?_]
    · exact ht.eof
    · rw [Nat.add_assoc]
      exact c.loaded (e + i) (by omega)
  have hat : At c.data.mem (c.dataBuf + 0) 0 0 ⟨c.dataBuf, 0, c.data, []⟩ :=
    .start rfl rfl fun _ _ => rfl
  have hvalid := c.valid
  constructor
  · rintro ⟨⟨r, hr, hend, -, xs, packets, hattached, hcarries⟩, -⟩
    have hputs : r.puh = c.dataBuf + e := by
      rw [hused, ← Nat.add_assoc] at hend
      exact Nat.add_right_cancel hend
    refine parsable_of_run hmax hlaid hfilled hr hat c.ready hputs hattached.taken
      (handed_lens hattached.written hcarries)
  · rintro ⟨hlength, hparsable⟩
    have hroom : c.dataBuf + e + 4 ≤ c.dataBuf + c.validLen.toNat := by omega
    obtain ⟨r, hr, hend, heof', hattached⟩ := run_of_parsable hlaid hfilled hparsable hat c.ready
      hlength heof (Nat.le_refl _) hroom
    refine ⟨⟨r, hr, ?_, hend ▸ heof', hattached⟩, fun cnt => ?_⟩
    · rw [hend, hused, Nat.add_assoc]
    · have hstart : Laid (sdiohalTxInitRetrybuf t.sendBuf).buf
          (sdiohalTxInitRetrybuf t.sendBuf).retryBuf t.mbufs e := ht.laid
      have hlen : (sdiohalTxInitRetrybuf t.sendBuf).retryLen = BitVec.ofNat 32 (e + 4 - 0) :=
        congrArg (BitVec.ofNat 32) hused
      obtain ⟨a, htaken, hleft, hwalk⟩ := retrybufLeft_of_laid hfilled hstart ht.eof hlen cnt
      refine ⟨a, htaken, ?_, ?_⟩
      · rw [hused]
        exact hleft
      · rw [hwalk, hused]
        rfl

/-- The mbufs of a batch are sent in order, and what is sent comes back exactly if there is an mbuf
for each packet, no buffer has the check sum bit set, and no payload is empty or too long. -/
theorem pack_parse_iff (blk : Bool) (mbufs : List TxMbuf) (sendBuf : SdiohalSendbuf) :
    (sdiohalTxDataListSend [] (sdiohalTxFillPuh mbufs) sendBuf.clear).flatMap Sending.mbufs =
      sdiohalTxFillPuh mbufs ∧
    ∀ t ∈ sdiohalTxDataListSend [] (sdiohalTxFillPuh mbufs) sendBuf.clear, ∀ c : Receiver t,
      (Returned (sdiohalGetBlkSize blk) t c ↔ t.mbufs.length ≤ c.data.avail ∧
        ∀ m ∈ t.mbufs, m.Parsable (sdiohalGetBlkSize blk)) := by
  have hempty : Laid sendBuf.clear.buf 0 [] sendBuf.clear.usedLen := .nil
  obtain ⟨hall, hpacked⟩ := dataListSend_packed (sdiohalTxFillPuh mbufs) hempty
  refine ⟨hall, fun t ht c => ?_⟩
  obtain ⟨e, hend⟩ := hpacked t ht
  refine returned_iff (blkSize_max blk) hend (fun m hm => ?_) c
  have hmem : m ∈ [] ++ sdiohalTxFillPuh mbufs := hall ▸ List.mem_flatMap.mpr ⟨t, ht, hm⟩
  obtain ⟨m', -, rfl⟩ := List.mem_map.mp hmem
  exact fillPuh_filled m'

/-- An mbuf of 4 bytes for channel 1, in whose buffer the bit of the check sum is set. -/
def staleMbuf : TxMbuf := ⟨1, fun a => if a = 0 then 64 else 0, 4⟩

def emptySendbuf : SdiohalSendbuf := ⟨0, fun _ => 0, 0, 0⟩

/-- The buffer that is sent for one mbuf. -/
def staleSending : Sending :=
  ⟨sdiohalTxSetEof (sdiohalTxPacker emptySendbuf.clear staleMbuf.fillPuh), [staleMbuf.fillPuh]⟩

def staleReceiver : Receiver staleSending where
  data := { sampleRxData with mem := staleSending.sendBuf.buf }
  dataBuf := 0
  validLen := 12
  ready := ⟨sampleRxData_ready.init, sampleRxData_ready.stored, sampleRxData_ready.marked⟩
  loaded b _ := congrArg staleSending.sendBuf.buf (Nat.zero_add b)
  valid := by decide

/-- The bit of the check sum that was left in the buffer makes the packet come back longer. -/
theorem stale_check_sum_misread : ∃ (mbufs : List TxMbuf) (sendBuf : SdiohalSendbuf),
    ∃ t ∈ sdiohalTxDataListSend [] (sdiohalTxFillPuh mbufs) sendBuf.clear, ∃ c : Receiver t,
      t.mbufs.length ≤ c.data.avail ∧ ¬ Returned (sdiohalGetBlkSize true) t c := by
  refine ⟨[staleMbuf], emptySendbuf, staleSending, ?_, staleReceiver, by decide, fun hreturned => ?_⟩
  · have hsent : sdiohalTxDataListSend [] (sdiohalTxFillPuh [staleMbuf]) emptySendbuf.clear =
        [staleSending] := if_neg (by decide)
    rw [hsent]
    exact List.mem_singleton_self _
  · have hempty : Laid emptySendbuf.clear.buf 0 [] emptySendbuf.clear.usedLen := .nil
    have hpacked := setEof_packed (packer_laid hempty staleMbuf.fillPuh)
    have hfilled : ∀ m ∈ staleSending.mbufs, m.Filled := fun m hm =>
      List.mem_singleton.mp hm ▸ fillPuh_filled staleMbuf
    obtain ⟨-, hparsable⟩ :=
      (returned_iff (blkSize_max true) hpacked hfilled staleReceiver).mp hreturned
    have hgood := (fillPuh_parsable staleMbuf).mp (hparsable _ (List.mem_singleton_self _))
    exact absurd hgood.checkSum (by decide)

end Uwe5631.Sdio
