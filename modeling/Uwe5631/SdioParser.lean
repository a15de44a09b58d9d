import Uwe5631.SdioDispatch

/-!
# Parsing a receive buffer

`sdiohal_rx_buf_parser` goes from header to header by the lengths it finds. A header it does not
accept is read again in the next turn, with its length 2 greater if it announces a check sum.
-/
namespace Uwe5631.Sdio
open LinkedChains

variable {p p' : SdiohalData} {m : MbufAddr} {i j : ListId} {puh : SdioPuh} {mem mem' : Memory}
  {a : ℕ}

/-- `MAX_PAC_SIZE` for a value of `SDIOHAL_BLK_SIZE`. -/
def MAX_PAC_SIZE (blkSize : ℕ) : ℕ := if blkSize = 512 then blkSize * 4 else blkSize * 2

/-- A list without its first mbuf, after which `next` comes. -/
def SdiohalList.pop (l : SdiohalList) (next : Option MbufAddr) : SdiohalList :=
  { l with
    mbufHead := if l.nodeNum - 1 = 0 then none else next
    mbufTail := if l.nodeNum - 1 = 0 then none else l.mbufTail
    nodeNum := l.nodeNum - 1 }

/-- The first mbuf of `list_rx_buf` leaves it. -/
def SdiohalData.popRxBuf (p : SdiohalData) (m : MbufAddr) : SdiohalData :=
  ({ p with kzalloc := p.kzalloc - 1 }.setList .rxBuf ((p.list .rxBuf).pop (p.next m))).setNext m none

/-- `sdiohal_get_rx_mbuf_node(1)`: the mbuf taken off `list_rx_buf`, or `none` for a null pointer. -/
def sdiohalGetRxMbufNode (p : SdiohalData) : Option (MbufAddr × SdiohalData) :=
  if (p.list .rxBuf).nodeNum < 1 then none
  else if p.kzalloc = 0 then none
  else (p.list .rxBuf).mbufHead.map fun m => (m, p.popRxBuf m)

/-- `mbuf->buf = buf; mbuf->len = len` -/
def SdiohalData.setBuf (p : SdiohalData) (m : MbufAddr) (buf : ℕ) (len : BitVec 16) : SdiohalData :=
  { p with mbuf := Function.update p.mbuf m { p.mbuf m with buf := buf, len := len } }

/-- The variables of `sdiohal_rx_buf_parser`, with the ranges it has read as headers or handed on
as payloads. -/
structure Parser where
  puh : ℕ
  parseLen : BitVec 32
  data : SdiohalData
  accesses : List (ℕ × ℕ)

def Parser.access (s : Parser) (a : ℕ) (len : ℕ) : Parser :=
  { s with accesses := s.accesses ++ [(a, len)] }

/-- `p += sizeof(struct sdio_puh_t) + SDIOHAL_ALIGN_4BYTE(puh->len)` -/
def nextPuh (a : ℕ) (len : BitVec 16) : ℕ := a + SDIO_PUB_HEADER_SIZE + align4Byte len.toNat

/-- The header is refused: no such channel, too long or without payload. -/
def Refused (blkSize : ℕ) (channel : ℕ) (len : BitVec 16) : Prop :=
  SDIO_CHANNEL_NUM ≤ channel ∨ MAX_PAC_SIZE blkSize - SDIO_PUB_HEADER_SIZE < len.toNat ∨ len = 0

instance (blkSize channel : ℕ) (len : BitVec 16) : Decidable (Refused blkSize channel len) := by
  unfold Refused
  infer_instance

/-- The end of the body of the loop, for a header that is not refused. -/
def Parser.attach (s : Parser) (puh : SdioPuh) (channel : ℕ) : Parser ⊕ Parser :=
  match sdiohalGetRxMbufNode s.data with
  -- `-ENOMEM`
  | none => .inl s
  | some (m, p) =>
    match sdiohalDataListAssignment (p.setBuf m s.puh puh.len) m puh channel with
    -- a null pointer
    | none => .inl s
    | some p =>
      let s := s.access (s.puh + SDIO_PUB_HEADER_SIZE) puh.len.toNat
      .inr { s with puh := nextPuh s.puh puh.len, data := p }

/-- `parse_len += puh->len`, and `puh->len += 2` if the header announces a check sum. -/
def Parser.count (s : Parser) (puh : SdioPuh) : Parser :=
  { s with
    parseLen := s.parseLen + puh.len.setWidth 32
    data := { s.data with
      mem := if puh.checkSum then setLen s.data.mem s.puh (puh.len + 2) else s.data.mem } }

/-- One turn of the loop of `sdiohal_rx_buf_parser`: the state it returns in, or the next one.
The comparison with `parse_len` makes `valid_len` unsigned. -/
def parserBody (blkSize : ℕ) (validLen : BitVec 32) (s : Parser) : Parser ⊕ Parser :=
  if s.parseLen < validLen then
    let puh := puhAt s.data.mem s.puh
    let s := s.access s.puh SDIO_PUB_HEADER_SIZE
    if puh.eof then .inl s
    else if puh.type = 0xF then .inr { s with puh := nextPuh s.puh puh.len }
    else
      let channel := sdiohalHwtypeToChannel false puh.type.toNat puh.subtype.toNat
      let s := s.count puh
      let puh := puhAt s.data.mem s.puh
      if Refused blkSize channel puh.len then .inr s else s.attach puh channel
  else .inl s

def parserLoop (blkSize : ℕ) (validLen : BitVec 32) : Parser →. Parser :=
  PFun.fix fun s => Part.some (parserBody blkSize validLen s)

def sdiohalRxBufParser (blkSize : ℕ) (dataBuf : ℕ) (validLen : BitVec 32) (p : SdiohalData) :
    Part Parser := parserLoop blkSize validLen ⟨dataBuf, 0, p, []⟩

/-! ## Header bytes -/

theorem append_high {v w : ℕ} (x : BitVec v) (y : BitVec w) : (x ++ y).extractLsb' w v = x := by
  apply BitVec.eq_of_getLsbD_eq
  intro i hi
  simp [BitVec.getLsbD_append, hi]

theorem append_low {v w : ℕ} (x : BitVec v) (y : BitVec w) : (x ++ y).extractLsb' 0 w = y := by
  apply BitVec.eq_of_getLsbD_eq
  intro i hi
  simp [BitVec.getLsbD_append, hi]

theorem len_bits (len : BitVec 16) :
    len.extractLsb' 9 7 ++ len.extractLsb' 1 8 ++ len.extractLsb' 0 1 = len := by
  apply BitVec.eq_of_getLsbD_eq
  intro i hi
  simp only [BitVec.getLsbD_append, BitVec.getLsbD_extractLsb']
  by_cases hlow : i < 1
  · have hzero : i = 0 := by omega
    subst hzero
    simp
  · by_cases hmid : i - 1 < 8
    · have hbit : 1 + (i - 1) = i := by omega
      simp [hlow, hmid, hbit]
    · have htop : i - 1 - 8 < 7 := by omega
      have hbit : 9 + (i - 1 - 8) = i := by omega
      simp [hlow, hmid, htop, hbit]

/-- Writing the length of a header changes its length only. -/
theorem puhAt_setLen (mem : Memory) (a : ℕ) (len : BitVec 16) :
    puhAt (setLen mem a len) a = { puhAt mem a with len := len } := by
  have hfirst : setLen mem a len a =
      (len.extractLsb' 0 1 ++ (mem a).extractLsb' 0 7 : BitVec 8) := by simp [setLen]
  have hsecond : setLen mem a len (a + 1) = len.extractLsb' 1 8 := by simp [setLen]
  have hthird : setLen mem a len (a + 2) =
      ((mem (a + 2)).extractLsb' 7 1 ++ len.extractLsb' 9 7 : BitVec 8) := by simp [setLen]
  have hfourth : setLen mem a len (a + 3) = mem (a + 3) := by simp [setLen]
  have hcheck : (len.extractLsb' 0 1 ++ (mem a).extractLsb' 0 7 : BitVec 8).getLsbD 6 =
      (mem a).getLsbD 6 := by
    rw [BitVec.getLsbD_append]
    simp
  have heof : ((mem (a + 2)).extractLsb' 7 1 ++ len.extractLsb' 9 7 : BitVec 8).getLsbD 7 =
      (mem (a + 2)).getLsbD 7 := by
    rw [BitVec.getLsbD_append]
    simp
  rw [puhAt, hfirst, hsecond, hthird, hfourth, append_high (len.extractLsb' 0 1),
    append_low _ (len.extractLsb' 9 7), len_bits, hcheck, heof, puhAt]

theorem setLen_behind (mem : Memory) {b : ℕ} (len : BitVec 16) (hb : a + 4 ≤ b) :
    setLen mem a len b = mem b := by
  have h0 : b ≠ a := by omega
  have h1 : b ≠ a + 1 := by omega
  have h2 : b ≠ a + 2 := by omega
  rw [setLen, Function.update_of_ne h2, Function.update_of_ne h1, Function.update_of_ne h0]

theorem puhAt_congr (h : ∀ b, a ≤ b → mem' b = mem b) : puhAt mem' a = puhAt mem a := by
  rw [puhAt, puhAt, h a (Nat.le_refl a), h (a + 1) (Nat.le_add_right ..),
    h (a + 2) (Nat.le_add_right ..), h (a + 3) (Nat.le_add_right ..)]

theorem le_nextPuh (a : ℕ) (len : BitVec 16) : a + 4 + len.toNat ≤ nextPuh a len := by
  rw [nextPuh, align4Byte, SDIO_PUB_HEADER_SIZE]
  omega

/-! ## Taking an mbuf -/

/-- How many more mbufs can be had. -/
def SdiohalData.avail (p : SdiohalData) : ℕ := min p.kzalloc (p.list .rxBuf).nodeNum

theorem getRxMbufNode_none (h : p.avail = 0) : sdiohalGetRxMbufNode p = none := by
  rw [sdiohalGetRxMbufNode]
  split
  · rfl
  · rename_i hnum
    have hk : p.kzalloc = 0 := by
      rw [SdiohalData.avail] at h
      omega
    rw [if_pos hk]

theorem pop_chain {l : SdiohalList} {next : MbufAddr → Option MbufAddr} (h : l.mbufHead = some m) :
    (l.pop (next m)).chain = l.chain.pop next := by
  have hhead : l.chain.head = some m := h
  have hnum : l.chain.num = l.nodeNum := rfl
  rw [Chain.pop, SdiohalList.pop, SdiohalList.chain, hhead, hnum]
  dsimp only
  split
  · rename_i hzero
    rw [hzero]
  · rfl

theorem popRxBuf_list (p : SdiohalData) (m : MbufAddr) : (p.popRxBuf m).list =
    Function.update p.list .rxBuf ((p.list .rxBuf).pop (p.next m)) := rfl

/-- What taking the first mbuf off `list_rx_buf` does. -/
theorem popRxBuf_spec {rest : List MbufAddr} (hp : Ready p) (hnodes : p.nodes .rxBuf = m :: rest) :
    Ready (p.popRxBuf m) ∧ SameMbufs p (p.popRxBuf m) ∧
      (p.popRxBuf m).nodes = Function.update p.nodes .rxBuf rest := by
  have hholds := hp.stored.holds .rxBuf
  rw [hnodes] at hholds
  have hhead : (p.list .rxBuf).mbufHead = some m := hholds.head (List.cons_ne_nil m rest)
  have hmrest := (List.nodup_cons.mp hholds.nodup).1
  have hsub : rest ⊆ p.nodes .rxBuf := by
    rw [hnodes]
    exact List.subset_cons_self m rest
  have hshrunk := hp.stored.shrink hsub hholds.pop
  -- the mbuf is on no list any more, so clearing its link does not matter
  have haway : ∀ j, m ∉ Function.update p.nodes .rxBuf rest j := by
    intro j
    by_cases hj : j = .rxBuf
    · subst hj
      rw [Function.update_self]
      exact hmrest
    · rw [Function.update_of_ne hj]
      refine fun hmem => hp.stored.apart j .rxBuf hj hmem ?_
      rw [hnodes]
      exact List.mem_cons_self ..
  have hnext : (p.popRxBuf m).next = Function.update p.next m none := by
    rw [SdiohalData.popRxBuf, setNext_next]
    rfl
  have hstored : Stored (p.popRxBuf m).next (fun i => ((p.popRxBuf m).list i).chain)
      (Function.update p.nodes .rxBuf rest) := by
    rw [popRxBuf_list, update_chain, pop_chain hhead]
    refine hshrunk.frame fun j x hx => ?_
    rw [hnext]
    exact Function.update_of_ne (ne_of_mem_of_not_mem hx (haway j)) ..
  have hsame := setNext_same ({ p with kzalloc := p.kzalloc - 1 }.setList .rxBuf
    ((p.list .rxBuf).pop (p.next m))) m none
  refine ⟨hp.of_stored _ rfl hstored fun j hj _ => ?_, ?_, nodes_of_stored hstored⟩
  · rw [popRxBuf_list]
    exact Function.update_of_ne hj ..
  · exact ⟨hsame.mem, hsame.buf, hsame.len, hsame.flagInit, hsame.ops, hsame.popped⟩

theorem getRxMbufNode_some (hp : Ready p) (h : p.avail ≠ 0) :
    ∃ m, sdiohalGetRxMbufNode p = some (m, p.popRxBuf m) ∧ Ready (p.popRxBuf m) ∧
      SameMbufs p (p.popRxBuf m) ∧ p.nodes .rxBuf = m :: (p.popRxBuf m).nodes .rxBuf ∧
      (∀ i, i ≠ .rxBuf → (p.popRxBuf m).nodes i = p.nodes i) ∧
      (p.popRxBuf m).avail = p.avail - 1 := by
  rw [SdiohalData.avail] at h
  have hnum : ¬ (p.list .rxBuf).nodeNum < 1 := by omega
  have hk : p.kzalloc ≠ 0 := by omega
  have hne : p.nodes .rxBuf ≠ [] := by
    intro hnil
    have hzero := (hp.nodeNum_zero_iff .rxBuf).mpr hnil
    omega
  obtain ⟨m, rest, hnodes⟩ := List.exists_cons_of_ne_nil hne
  have hhead : (p.list .rxBuf).mbufHead = some m := by
    have hfirst := (hp.stored.holds .rxBuf).head hne
    rw [hnodes] at hfirst
    exact hfirst
  obtain ⟨hready, hsame, hpopped⟩ := popRxBuf_spec hp hnodes
  refine ⟨m, ?_, hready, hsame, ?_, fun i hi => ?_, ?_⟩
  · rw [sdiohalGetRxMbufNode, if_neg hnum, if_neg hk, hhead, Option.map_some]
  · rw [hpopped, Function.update_self, hnodes]
  · rw [hpopped, Function.update_of_ne hi]
  · have hleft : ((p.popRxBuf m).list .rxBuf).nodeNum = (p.list .rxBuf).nodeNum - 1 := by
      rw [popRxBuf_list, Function.update_self, SdiohalList.pop]
    have halloc : (p.popRxBuf m).kzalloc = p.kzalloc - 1 := rfl
    rw [SdiohalData.avail, SdiohalData.avail, hleft, halloc]
    omega

/-! ## Attaching packets -/

/-- A packet lies at an address; its header has the length that is handed on. -/
abbrev Packet := ℕ × SdioPuh

/-- The first mbufs of `list_rx_buf` were taken, one for each packet, and put behind the others of
the packets' channels. -/
structure Attached (p p' : SdiohalData) (mbufs : List MbufAddr) (packets : List Packet) : Prop where
  taken : p.nodes .rxBuf = mbufs ++ p'.nodes .rxBuf
  written : List.Forall₂ (fun m (q : Packet) => (p'.mbuf m).buf = q.1 ∧ (p'.mbuf m).len = q.2.len)
    mbufs packets
  rx : ∀ c, p'.nodes (.rx c) = p.nodes (.rx c) ++
    ((mbufs.zip packets).filter fun x => x.2.2.subtype.toNat == c.val).map Prod.fst
  tx : ∀ c, p'.nodes (.tx c) = p.nodes (.tx c)
  others : ∀ m, m ∉ mbufs → (p'.mbuf m).buf = (p.mbuf m).buf ∧ (p'.mbuf m).len = (p.mbuf m).len

theorem Attached.nil (p : SdiohalData) : Attached p p [] [] :=
  ⟨rfl, .nil, fun c => by simp, fun _ => rfl, fun _ _ => ⟨rfl, rfl⟩⟩

theorem Attached.cons {q : Packet} {packets : List Packet} {p'' : SdiohalData}
    {mbufs : List MbufAddr} (hnodup : (p.nodes .rxBuf).Nodup) (h : Attached p p' [m] [q])
    (h' : Attached p' p'' mbufs packets) : Attached p p'' (m :: mbufs) (q :: packets) := by
  have htaken : p.nodes .rxBuf = m :: mbufs ++ p''.nodes .rxBuf := by
    rw [h.taken, h'.taken]
    rfl
  have hm : m ∉ mbufs := by
    rw [htaken] at hnodup
    exact fun hmem => (List.nodup_cons.mp hnodup).1 (List.mem_append_left _ hmem)
  refine ⟨htaken, .cons ?_ h'.written, fun c => ?_, fun c => (h'.tx c).trans (h.tx c),
    fun x hx => ?_⟩
  · obtain ⟨hbuf, hlen⟩ := (List.forall₂_cons.mp h.written).1
    exact ⟨(h'.others m hm).1.trans hbuf, (h'.others m hm).2.trans hlen⟩
  · rw [h'.rx c, h.rx c, List.append_assoc, ← List.map_append, ← List.filter_append]
    rfl
  · obtain ⟨hxm, hxs⟩ := not_or.mp (mt List.mem_cons.mpr hx)
    have hone := h.others x fun hmem => hxm (List.mem_singleton.mp hmem)
    exact ⟨(h'.others x hxs).1.trans hone.1, (h'.others x hxs).2.trans hone.2⟩

theorem setBuf_next (p : SdiohalData) (m : MbufAddr) (buf : ℕ) (len : BitVec 16) :
    (p.setBuf m buf len).next = p.next := by
  funext x
  by_cases hx : x = m
  · subst hx
    simp [SdiohalData.setBuf, SdiohalData.next]
  · simp [SdiohalData.setBuf, SdiohalData.next, Function.update_of_ne hx]

theorem setBuf_nodes (p : SdiohalData) (m : MbufAddr) (buf : ℕ) (len : BitVec 16) :
    (p.setBuf m buf len).nodes = p.nodes := by
  funext i
  rw [SdiohalData.nodes, setBuf_next]
  rfl

theorem Ready.setBuf (hp : Ready p) (m : MbufAddr) (buf : ℕ) (len : BitVec 16) :
    Ready (p.setBuf m buf len) := by
  refine ⟨hp.init, ?_, hp.marked⟩
  rw [setBuf_next, setBuf_nodes]
  exact hp.stored

theorem rxAssign_kzalloc (p : SdiohalData) (c : Fin SDIO_CHN_RX_NUM) (m : MbufAddr) (puh : SdioPuh) :
    (p.rxAssign c m puh).kzalloc = p.kzalloc := by
  have htail : ∀ tail n, (p.setTailNext tail n).kzalloc = p.kzalloc := by
    intro tail n
    cases tail <;> rfl
  rw [SdiohalData.rxAssign]
  split
  · rfl
  · exact htail ..

theorem rxAssign_avail (p : SdiohalData) (c : Fin SDIO_CHN_RX_NUM) (m : MbufAddr) (puh : SdioPuh) :
    (p.rxAssign c m puh).avail = p.avail := by
  have hlist : (p.rxAssign c m puh).list .rxBuf = p.list .rxBuf := by
    rw [(rxAssign_assigned p c m puh).list, Function.update_of_ne (by simp)]
  rw [SdiohalData.avail, SdiohalData.avail, rxAssign_kzalloc, hlist]

variable {s : Parser} {blkSize channel : ℕ} {validLen parseLen : BitVec 32}

theorem attach_none (h : s.data.avail = 0) (puh : SdioPuh) (channel : ℕ) :
    s.attach puh channel = .inl s := by
  rw [Parser.attach, getRxMbufNode_none h]

/-- The turn of a header that is not refused, with an mbuf to be had. -/
theorem attach_some (hs : Ready s.data) (h : s.data.avail ≠ 0) (hsub : puh.subtype.toNat < SDIO_CHN_RX_NUM) :
    ∃ m p', s.attach puh (sdiohalHwtypeToChannel false puh.type.toNat puh.subtype.toNat) =
        .inr { s.access (s.puh + SDIO_PUB_HEADER_SIZE) puh.len.toNat with
          puh := nextPuh s.puh puh.len, data := p' } ∧
      Ready p' ∧ p'.mem = s.data.mem ∧ p'.avail = s.data.avail - 1 ∧
      Attached s.data p' [m] [(s.puh, puh)] := by
  obtain ⟨m, hnode, hready, hsame, htaken, hkeep, havail⟩ := getRxMbufNode_some hs h
  have hnodup := (hs.stored.holds .rxBuf).nodup
  rw [htaken] at hnodup
  have hfresh : ∀ i, m ∉ ((s.data.popRxBuf m).setBuf m s.puh puh.len).nodes i := by
    intro i
    rw [setBuf_nodes]
    by_cases hi : i = .rxBuf
    · subst hi
      exact (List.nodup_cons.mp hnodup).1
    · rw [hkeep i hi]
      refine fun hmem => hs.stored.apart i .rxBuf hi hmem ?_
      rw [htaken]
      exact List.mem_cons_self ..
  have hassign := rxAssign_spec (c := ⟨puh.subtype.toNat, hsub⟩)
    (hready.setBuf m s.puh puh.len) hfresh rfl
  have hchannel : sdiohalGetRxChannelList ((s.data.popRxBuf m).setBuf m s.puh puh.len)
      (sdiohalHwtypeToChannel false puh.type.toNat puh.subtype.toNat) =
      some ⟨puh.subtype.toNat, hsub⟩ := by
    rw [sdiohalGetRxChannelList, if_pos (hready.setBuf m s.puh puh.len).init]
    exact dif_pos hsub
  rw [Parser.attach, hnode]
  dsimp only
  rw [sdiohalDataListAssignment, hchannel, Option.map_some]
  refine ⟨m, _, rfl, hassign.1, ?_, ?_, ?_⟩
  · exact hassign.2.1.mem.trans hsame.mem
  · rw [rxAssign_avail, ← havail]
    rfl
  · have hnodes := hassign.2.2
    have hself : ((s.data.popRxBuf m).setBuf m s.puh puh.len).mbuf m =
        { (s.data.popRxBuf m).mbuf m with buf := s.puh, len := puh.len } := Function.update_self ..
    refine ⟨?_, .cons ⟨?_, ?_⟩ .nil, fun c => ?_, fun c => ?_, fun x hx => ?_⟩
    · rw [hnodes, setBuf_nodes, htaken]
      simp [rxTakes]
    · rw [hassign.2.1.buf, hself]
    · rw [hassign.2.1.len, hself]
    · rw [hnodes, setBuf_nodes, hkeep _ (by simp)]
      by_cases hc : puh.subtype.toNat = c.val <;> simp [rxTakes, hc]
    · rw [hnodes, setBuf_nodes, hkeep _ (by simp)]
      simp [rxTakes]
    · have hxm : x ≠ m := fun heq => hx (heq ▸ List.mem_singleton_self x)
      have hother : ((s.data.popRxBuf m).setBuf m s.puh puh.len).mbuf x =
          (s.data.popRxBuf m).mbuf x := Function.update_of_ne hxm ..
      rw [hassign.2.1.buf, hassign.2.1.len, hother]
      exact ⟨hsame.buf x, hsame.len x⟩

end Uwe5631.Sdio
