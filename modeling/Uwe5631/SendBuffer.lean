import Uwe5631.SdioScatter

/-!
# The length of the send buffer

Before each packet `sdiohal_tx_data_list_send` compares the length with that of the buffer. The
header that ends the packets and the rest of the last block come later.
-/
namespace Uwe5631.Sdio

/-- The send buffer after a batch: `used_len` is 0 again. -/
def bufferAfter (sendBuf : SdiohalSendbuf) (sent : List Sending) : SdiohalSendbuf :=
  match sent.getLast? with
  | some t => t.sendBuf.clear
  | none => sendBuf

/-- The calls of `sdiohal_send` for batches one after the other. -/
def sendBatches (sendBuf : SdiohalSendbuf) : List (List TxMbuf) → List Sending
  | [] => []
  | batch :: batches =>
    sdiohalTxDataListSend [] batch sendBuf ++
      sendBatches (bufferAfter sendBuf (sdiohalTxDataListSend [] batch sendBuf)) batches

/-- The runs of mbufs that share the buffer: a run ends before the mbuf that would make it too
long. -/
def runs : List TxMbuf → List TxMbuf → List (List TxMbuf)
  | run, [] => [run]
  | run, m :: mbufs =>
    if SDIOHAL_TX_SENDBUF_LEN < sizes run + m.size then run :: runs [m] mbufs
    else runs (run ++ [m]) mbufs

/-- Each mbuf of the batches is sent once, from a buffer that has it in full, and no buffer is used
beyond its length, the end of the last block included. -/
structure SentWhole (blkSize : ℕ) (batches : List (List TxMbuf)) (sent : List Sending) : Prop where
  once : sent.flatMap Sending.mbufs = batches.flatten
  full : ∀ t ∈ sent, ∃ e, Packed t e
  inside : ∀ t ∈ sent, alignBlk blkSize t.sendBuf.usedLen ≤ SDIOHAL_TX_SENDBUF_LEN

variable {mbufs packed run : List TxMbuf} {sendBuf : SdiohalSendbuf}
  {batches : List (List TxMbuf)}

@[simp] theorem sizes_nil : sizes [] = 0 := rfl

theorem sizes_append (ms ns : List TxMbuf) : sizes (ms ++ ns) = sizes ms + sizes ns := by
  simp [sizes]

@[simp] theorem sizes_singleton (m : TxMbuf) : sizes [m] = m.size := by
  simp [sizes]

@[simp] theorem clear_usedLen (sendBuf : SdiohalSendbuf) : sendBuf.clear.usedLen = 0 := rfl

theorem bufferAfter_usedLen (h : sendBuf.usedLen = 0) (sent : List Sending) :
    (bufferAfter sendBuf sent).usedLen = 0 := by
  rw [bufferAfter]
  split
  · rfl
  · exact h

/-- The limit is the last whole block. -/
theorem alignBlk_le_iff (blk : Bool) (a len : ℕ) :
    alignBlk (sdiohalGetBlkSize blk) a ≤ len ↔
      a ≤ len / sdiohalGetBlkSize blk * sdiohalGetBlkSize blk := by
  obtain ⟨hle, hlt, hmod⟩ := alignBlk_spec blk a
  cases blk with
  | true =>
    change a ≤ alignBlk 512 a at hle
    change alignBlk 512 a < a + 512 at hlt
    change alignBlk 512 a % 512 = 0 at hmod
    change alignBlk 512 a ≤ len ↔ a ≤ len / 512 * 512
    omega
  | false =>
    change a ≤ alignBlk 840 a at hle
    change alignBlk 840 a < a + 840 at hlt
    change alignBlk 840 a % 840 = 0 at hmod
    change alignBlk 840 a ≤ len ↔ a ≤ len / 840 * 840
    omega

theorem dataListSend_runs (packed : List TxMbuf) (h : sendBuf.usedLen = sizes packed) (mbufs : List TxMbuf) :
    (sdiohalTxDataListSend packed mbufs sendBuf).map (fun t => (t.mbufs, t.sendBuf.usedLen)) =
      (runs packed mbufs).map fun run => (run, sizes run + SDIO_PUB_HEADER_SIZE) := by
  induction mbufs generalizing packed sendBuf with
  | nil => simp [sdiohalTxDataListSend, runs, sdiohalTxSetEof, h]
  | cons m mbufs ih =>
    have hsum : sendBuf.usedLen + SDIO_PUB_HEADER_SIZE + align4Byte m.len.toNat =
        sizes packed + m.size := by
      rw [← h, ← packer_usedLen]
      exact Nat.add_assoc ..
    rw [sdiohalTxDataListSend, runs, hsum]
    split
    · rw [List.map_cons, List.map_cons, ih _ (by rw [packer_usedLen, clear_usedLen]; simp)]
      simp [sdiohalTxSetEof, h]
    · exact ih _ (by rw [packer_usedLen, h, sizes_append, sizes_singleton])

theorem dataListSend_inside (blk : Bool) (h : sendBuf.usedLen = 0) (mbufs : List TxMbuf) :
    (∀ t ∈ sdiohalTxDataListSend [] mbufs sendBuf,
        alignBlk (sdiohalGetBlkSize blk) t.sendBuf.usedLen ≤ SDIOHAL_TX_SENDBUF_LEN) ↔
      ∀ run ∈ runs [] mbufs, sizes run + SDIO_PUB_HEADER_SIZE ≤
        SDIOHAL_TX_SENDBUF_LEN / sdiohalGetBlkSize blk * sdiohalGetBlkSize blk := by
  have hmap := dataListSend_runs [] h mbufs
  constructor
  · intro hinside run hrun
    have hmem : (run, sizes run + SDIO_PUB_HEADER_SIZE) ∈
        (sdiohalTxDataListSend [] mbufs sendBuf).map fun t => (t.mbufs, t.sendBuf.usedLen) := by
      rw [hmap]
      exact List.mem_map_of_mem hrun
    obtain ⟨t, ht, heq⟩ := List.mem_map.mp hmem
    obtain ⟨-, hused⟩ := Prod.mk.inj heq
    rw [← hused, ← alignBlk_le_iff]
    exact hinside t ht
  · intro hruns t ht
    have hmem : (t.mbufs, t.sendBuf.usedLen) ∈
        (runs [] mbufs).map fun run => (run, sizes run + SDIO_PUB_HEADER_SIZE) := by
      rw [← hmap]
      exact List.mem_map_of_mem ht
    obtain ⟨run, hrun, heq⟩ := List.mem_map.mp hmem
    obtain ⟨-, hused⟩ := Prod.mk.inj heq
    rw [← hused, alignBlk_le_iff]
    exact hruns run hrun

theorem sentWhole_iff (blk : Bool) (h : sendBuf.usedLen = 0) :
    SentWhole (sdiohalGetBlkSize blk) batches (sendBatches sendBuf batches) ↔
      ∀ batch ∈ batches, ∀ run ∈ runs [] batch, sizes run + SDIO_PUB_HEADER_SIZE ≤
        SDIOHAL_TX_SENDBUF_LEN / sdiohalGetBlkSize blk * sdiohalGetBlkSize blk := by
  induction batches generalizing sendBuf with
  | nil =>
    refine iff_of_true ⟨rfl, ?_, ?_⟩ (by simp)
    · simp [sendBatches]
    · simp [sendBatches]
  | cons batch batches ih =>
    have hrest := ih (bufferAfter_usedLen h (sdiohalTxDataListSend [] batch sendBuf))
    have hempty : Laid sendBuf.buf 0 [] sendBuf.usedLen := by
      rw [h]
      exact .nil
    obtain ⟨hall, hpacked⟩ := dataListSend_packed batch hempty
    rw [List.forall_mem_cons, ← hrest, ← dataListSend_inside blk h]
    constructor
    · rintro ⟨honce, hfull, hinside⟩
      rw [sendBatches] at honce hfull hinside
      simp only [List.mem_append] at hfull hinside
      refine ⟨fun t ht => hinside t (.inl ht), ?_, fun t ht => hfull t (.inr ht),
        fun t ht => hinside t (.inr ht)⟩
      rw [List.flatMap_append, hall, List.nil_append, List.flatten_cons] at honce
      exact List.append_cancel_left honce
    · rintro ⟨hfirst, honce, hfull, hinside⟩
      rw [sendBatches]
      refine ⟨?_, ?_, ?_⟩
      · rw [List.flatMap_append, hall, honce, List.nil_append, List.flatten_cons]
      · simp only [List.mem_append]
        exact fun t ht => ht.elim (hpacked t) (hfull t)
      · simp only [List.mem_append]
        exact fun t ht => ht.elim (hfirst t) (hinside t)

/-- The mbufs of every sequence of batches are sent once, in full and inside the buffer exactly if
no run of mbufs that share the buffer, with the header that ends it, is longer than the whole blocks
of the buffer. -/
theorem send_buffer_iff (blk : Bool) (batches : List (List TxMbuf)) (sendBuf : SdiohalSendbuf) :
    SentWhole (sdiohalGetBlkSize blk) batches (sendBatches sendBuf.clear batches) ↔
      ∀ batch ∈ batches, ∀ run ∈ runs [] batch, sizes run + SDIO_PUB_HEADER_SIZE ≤
        SDIOHAL_TX_SENDBUF_LEN / sdiohalGetBlkSize blk * sdiohalGetBlkSize blk :=
  sentWhole_iff blk rfl

theorem runs_of_le (h : sizes run + sizes mbufs ≤ SDIOHAL_TX_SENDBUF_LEN) :
    runs run mbufs = [run ++ mbufs] := by
  induction mbufs generalizing run with
  | nil => rw [runs, List.append_nil]
  | cons m mbufs ih =>
    rw [← List.singleton_append, sizes_append, sizes_singleton] at h
    rw [runs, if_neg (by omega), ih (by rw [sizes_append, sizes_singleton]; omega),
      List.append_assoc, List.singleton_append]

/-- An mbuf of 2044 bytes. -/
def wholeMbuf : TxMbuf := ⟨8, fun _ => 0, 2044⟩

/-- A hundred of them fill the buffer exactly; the header that ends them comes behind it. -/
theorem send_buffer_overflows :
    ∃ t ∈ sendBatches emptySendbuf.clear [List.replicate 100 wholeMbuf],
      t.sendBuf.usedLen = SDIOHAL_TX_SENDBUF_LEN + SDIO_PUB_HEADER_SIZE ∧
      alignBlk 512 t.sendBuf.usedLen = SDIOHAL_TX_SENDBUF_LEN + 512 := by
  have hsizes : sizes (List.replicate 100 wholeMbuf) = SDIOHAL_TX_SENDBUF_LEN := by
    rw [sizes, List.map_replicate, List.sum_replicate]
    rfl
  have hmap := dataListSend_runs [] (clear_usedLen emptySendbuf)
    (List.replicate 100 wholeMbuf)
  rw [runs_of_le (by rw [hsizes]; decide), List.nil_append, List.map_singleton, hsizes] at hmap
  obtain ⟨t, ht, heq⟩ := List.map_eq_singleton_iff.mp hmap
  obtain ⟨-, hused⟩ := Prod.mk.inj heq
  refine ⟨t, ?_, hused, by rw [hused]; decide⟩
  rw [sendBatches, ht]
  exact List.mem_append_left _ (List.mem_singleton_self t)

end Uwe5631.Sdio
