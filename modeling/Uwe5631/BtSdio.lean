import Uwe5631.SdioDispatch
import Uwe5631.FallibleRuns
import Mathlib

/-!
# Bluetooth over SDIO

`marlin_sdio_write` takes a credit of a semaphore and gives a block to the bus, whose callback
`marlin_sdio_tx_cb` frees the blocks and gives the credit back. `marlin_sdio_rx_cb` hands received
packets to the Bluetooth interface.
-/
namespace Uwe5631.BtSdio
open FallibleRuns Sdio

abbrev BT_TX_CHANNEL : ℕ := 3
abbrev BT_RX_CHANNEL : ℕ := 17
abbrev BT_TX_POOL_SIZE : ℕ := 64
abbrev BT_SDIO_HEAD_LEN : ℕ := 4

/-! ## Transmit credits -/

/-- The number of a block, in the order of `kmalloc`. -/
abbrev Block := ℕ

/-- The semaphore and the blocks of the driver, and the mbufs that it got from the bus. -/
structure Tx where
  sem : ℕ
  /-- how many blocks there have been -/
  blocks : ℕ
  /-- the blocks in the order in which they were freed -/
  freed : List Block
  /-- the mbufs that are allocated and not given back -/
  held : List MbufAddr
  /-- those that the bus has been given and has not called back for -/
  inFlight : List MbufAddr
  buf : MbufAddr → Option Block

inductive Fault where
  | nullPointer
  deriving DecidableEq, Repr

inductive TxEvent where
  /-- a call of `marlin_sdio_write`: whether `kmalloc` succeeds, the mbuf that
  `sprdwcn_bus_list_alloc` finds, whether `sprdwcn_bus_push_list` and, if not, whether
  `sprdwcn_bus_list_free` succeeds -/
  | write (kmalloc : Bool) (alloc : Option MbufAddr) (push listFree : Bool)
  /-- a callback for some mbufs, and whether `sprdwcn_bus_list_free` succeeds -/
  | txCb (mbufs : List MbufAddr) (listFree : Bool)

/-- `kfree(mbuf->buf); mbuf->buf = NULL` -/
def Tx.kfreeBuf (s : Tx) (m : MbufAddr) : Tx :=
  { s with freed := s.freed ++ (s.buf m).toList, buf := Function.update s.buf m none }

/-- `sprdwcn_bus_list_free` -/
def Tx.listFree (s : Tx) (mbufs : List MbufAddr) : Tx := { s with held := s.held.diff mbufs }

/-- `marlin_sdio_write` -/
def marlinSdioWrite (s : Tx) (kmalloc : Bool) (alloc : Option MbufAddr) (push listFree : Bool) : Tx :=
  if !kmalloc then s
  else
    let block := s.blocks
    let s := { s with blocks := s.blocks + 1, sem := s.sem - 1 }
    match alloc with
    | none => { s with sem := s.sem + 1 }
    | some m =>
      let s := { s with held := s.held ++ [m], buf := Function.update s.buf m (some block) }
      if push then { s with inFlight := s.inFlight ++ [m] }
      else
        let s := s.kfreeBuf m
        if listFree then s.listFree [m] else s

/-- `marlin_sdio_tx_cb` -/
def marlinSdioTxCb (s : Tx) (mbufs : List MbufAddr) (listFree : Bool) : Tx :=
  let s := { s with inFlight := s.inFlight.diff mbufs }
  let s := mbufs.foldl Tx.kfreeBuf s
  if listFree then { s.listFree mbufs with sem := s.sem + 1 } else s

/-- What the bus does: it hands out mbufs that are not held, and calls back for one or more of those
in flight. A write waits for a credit. -/
def Allowed (s : Tx) : TxEvent → Prop
  | .write kmalloc alloc _ _ => kmalloc = true → 0 < s.sem ∧ ∀ m, alloc = some m → m ∉ s.held
  | .txCb mbufs _ => mbufs ≠ [] ∧ mbufs.Subperm s.inFlight

instance (s : Tx) (e : TxEvent) : Decidable (Allowed s e) := by
  cases e with
  | write kmalloc alloc push listFree =>
    cases alloc with
    | none => exact decidable_of_iff (kmalloc = true → 0 < s.sem) (by simp [Allowed])
    | some m => exact decidable_of_iff (kmalloc = true → 0 < s.sem ∧ m ∉ s.held) (by simp [Allowed])
  | txCb mbufs listFree => exact inferInstanceAs (Decidable (_ ∧ _))

def txStep (s : Tx) (e : TxEvent) : Except Fault Tx :=
  if Allowed s e then
    match e with
    | .write kmalloc alloc push listFree => .ok (marlinSdioWrite s kmalloc alloc push listFree)
    | .txCb mbufs listFree => .ok (marlinSdioTxCb s mbufs listFree)
  else .ok s

/-- `marlin_sdio_init` -/
def txInit : Tx where
  sem := BT_TX_POOL_SIZE - 1
  blocks := 0
  freed := []
  held := []
  inFlight := []
  buf := fun _ => none

/-- The credits are free or with mbufs that are held, and each block has been freed once or is with
an mbuf in flight. -/
structure CreditsConserved (s : Tx) : Prop where
  credits : s.sem + s.held.length = BT_TX_POOL_SIZE - 1
  blocks : (s.freed ++ s.inFlight.filterMap s.buf).Perm (List.range s.blocks)

/-- An mbuf is found for the block of a write, what cannot be pushed cannot be given back either, and
mbufs that are given back come alone. -/
def Single : TxEvent → Prop
  | .write kmalloc alloc push listFree =>
    kmalloc = true → alloc ≠ none ∧ (push = false → listFree = false)
  | .txCb mbufs listFree => listFree = true → mbufs.length = 1


/-! ### The steps -/

/-- What `kfree(pos->buf)` for each of some mbufs does. -/
theorem foldl_kfreeBuf (s : Tx) {mbufs : List MbufAddr} (hnodup : mbufs.Nodup) :
    mbufs.foldl Tx.kfreeBuf s =
      { s with
        freed := s.freed ++ mbufs.filterMap s.buf
        buf := fun m => if m ∈ mbufs then none else s.buf m } := by
  induction mbufs generalizing s with
  | nil => simp
  | cons m mbufs ih =>
    obtain ⟨hm, hnodup⟩ := List.nodup_cons.mp hnodup
    have htail : mbufs.filterMap (s.kfreeBuf m).buf = mbufs.filterMap s.buf := by
      apply List.filterMap_congr
      intro x hx
      exact Function.update_of_ne (fun heq : x = m => hm (heq ▸ hx)) _ _
    rw [List.foldl_cons, ih (s.kfreeBuf m) hnodup, htail]
    simp only [Tx.kfreeBuf, Tx.mk.injEq, true_and]
    constructor
    · cases hbuf : s.buf m <;> simp [hbuf]
    · funext x
      by_cases hx : x = m
      · simp [hx]
      · simp [hx]

/-- The states of runs with single completions: what the bus has is held, and each of its mbufs has a
block. -/
structure Sound (s : Tx) : Prop where
  conserved : CreditsConserved s
  nodup : s.held.Nodup
  inFlight : s.inFlight.Nodup
  subset : s.inFlight ⊆ s.held
  buf : ∀ m ∈ s.inFlight, (s.buf m).isSome

theorem txInit_sound : Sound txInit where
  conserved := ⟨rfl, by simp [txInit]⟩
  nodup := List.nodup_nil
  inFlight := List.nodup_nil
  subset := List.nil_subset _
  buf := by simp [txInit]

theorem subperm_nodup {xs ys : List MbufAddr} (h : xs.Subperm ys) (hys : ys.Nodup) : xs.Nodup := by
  obtain ⟨l, hperm, hl⟩ := h
  exact hperm.nodup_iff.mp (hl.nodup hys)

/-- What the mbufs of a callback add to the rest of what is held. -/
theorem Sound.length_diff (h : Sound s) {mbufs : List MbufAddr} (hsub : mbufs.Subperm s.inFlight) :
    mbufs.length + (s.held.diff mbufs).length = s.held.length := by
  have hheld : mbufs ⊆ s.held := fun m hm => h.subset (hsub.subset hm)
  have hcount := ((subperm_nodup hsub h.inFlight).subperm hheld).count_le
  have hperm := List.subperm_append_diff_self_of_count_le fun x _ => hcount x
  rw [← List.length_append, hperm.length_eq]

/-- A callback frees the blocks of its mbufs, and the bus no longer has them. -/
theorem Sound.freed_perm (h : Sound s) {mbufs : List MbufAddr} (hsub : mbufs.Subperm s.inFlight) :
    ((s.freed ++ mbufs.filterMap s.buf) ++
        (s.inFlight.diff mbufs).filterMap fun m => if m ∈ mbufs then none else s.buf m).Perm
      (List.range s.blocks) := by
  have hrest : ((s.inFlight.diff mbufs).filterMap fun m => if m ∈ mbufs then none else s.buf m) =
      (s.inFlight.diff mbufs).filterMap s.buf := by
    apply List.filterMap_congr
    intro m hm
    exact if_neg (h.inFlight.mem_sdiff_iff.mp hm).2
  have hsplit : (mbufs ++ s.inFlight.diff mbufs).Perm s.inFlight :=
    List.subperm_append_diff_self_of_count_le fun x _ => hsub.count_le x
  rw [hrest, List.append_assoc, ← List.filterMap_append]
  exact (List.Perm.append_left _ (hsplit.filterMap s.buf)).trans h.conserved.blocks

/-- What is left of the blocks and of the mbufs in flight does not depend on the credit. -/
theorem Sound.txCb (h : Sound s) {mbufs : List MbufAddr} (hsub : mbufs.Subperm s.inFlight)
    (hlen : listFree = true → mbufs.length = 1) : Sound (marlinSdioTxCb s mbufs listFree) := by
  have hnodup := subperm_nodup hsub h.inFlight
  rw [marlinSdioTxCb, foldl_kfreeBuf _ hnodup]
  have hbuf : ∀ m ∈ s.inFlight.diff mbufs,
      (if m ∈ mbufs then none else s.buf m).isSome := by
    intro m hm
    obtain ⟨hm, hnot⟩ := h.inFlight.mem_sdiff_iff.mp hm
    rw [if_neg hnot]
    exact h.buf m hm
  cases listFree with
  | false =>
    exact {
      conserved := ⟨h.conserved.credits, h.freed_perm hsub⟩
      nodup := h.nodup
      inFlight := h.inFlight.diff
      subset := fun m hm => h.subset (h.inFlight.mem_sdiff_iff.mp hm).1
      buf := hbuf }
  | true =>
    have hcredits : s.sem + 1 + (s.held.diff mbufs).length = BT_TX_POOL_SIZE - 1 := by
      have hback := h.length_diff hsub
      have := h.conserved.credits
      have := hlen rfl
      omega
    refine {
      conserved := ⟨hcredits, h.freed_perm hsub⟩
      nodup := h.nodup.diff
      inFlight := h.inFlight.diff
      subset := ?_
      buf := hbuf }
    intro m hm
    obtain ⟨hm, hnot⟩ := h.inFlight.mem_sdiff_iff.mp hm
    exact h.nodup.mem_sdiff_iff.mpr ⟨h.subset hm, hnot⟩

theorem filterMap_update (s : Tx) {m : MbufAddr} {b : Option Block} (hnot : m ∉ s.inFlight) :
    s.inFlight.filterMap (Function.update s.buf m b) = s.inFlight.filterMap s.buf := by
  apply List.filterMap_congr
  intro x hx
  exact Function.update_of_ne (fun heq : x = m => hnot (heq ▸ hx)) _ _

/-- The bus takes the mbuf of the write. -/
theorem marlinSdioWrite_pushed (s : Tx) (m : MbufAddr) (listFree : Bool) :
    marlinSdioWrite s true (some m) true listFree =
      { s with
        sem := s.sem - 1
        blocks := s.blocks + 1
        held := s.held ++ [m]
        inFlight := s.inFlight ++ [m]
        buf := Function.update s.buf m (some s.blocks) } := rfl

/-- The bus takes neither the mbuf of the write nor, afterwards, gets it back. -/
theorem marlinSdioWrite_stuck (s : Tx) (m : MbufAddr) :
    marlinSdioWrite s true (some m) false false =
      { s with
        sem := s.sem - 1
        blocks := s.blocks + 1
        freed := s.freed ++ [s.blocks]
        held := s.held ++ [m]
        buf := Function.update s.buf m none } := by
  simp [marlinSdioWrite, Tx.kfreeBuf]

theorem Sound.pushed (h : Sound s) {m : MbufAddr} (hsem : 0 < s.sem) (hm : m ∉ s.held)
    (listFree : Bool) : Sound (marlinSdioWrite s true (some m) true listFree) := by
  have hnot : m ∉ s.inFlight := fun hin => hm (h.subset hin)
  rw [marlinSdioWrite_pushed]
  constructor
  · constructor
    · have := h.conserved.credits
      simp only [List.length_append, List.length_singleton]
      omega
    · simp only [List.filterMap_append, filterMap_update s hnot, List.range_succ]
      simpa [← List.append_assoc] using h.conserved.blocks.append_right [s.blocks]
  · simpa [List.nodup_append] using ⟨h.nodup, fun x hx heq => hm (heq ▸ hx)⟩
  · simpa [List.nodup_append] using ⟨h.inFlight, fun x hx heq => hnot (heq ▸ hx)⟩
  · intro x hx
    rcases List.mem_append.mp hx with hx | hx
    · exact List.mem_append_left _ (h.subset hx)
    · exact List.mem_append_right _ hx
  · intro x hx
    by_cases heq : x = m
    · simp [heq]
    · have hx : x ∈ s.inFlight := by simpa [heq] using hx
      simpa [heq] using h.buf x hx

theorem Sound.stuck (h : Sound s) {m : MbufAddr} (hsem : 0 < s.sem) (hm : m ∉ s.held) :
    Sound (marlinSdioWrite s true (some m) false false) := by
  have hnot : m ∉ s.inFlight := fun hin => hm (h.subset hin)
  rw [marlinSdioWrite_stuck]
  constructor
  · constructor
    · have := h.conserved.credits
      simp only [List.length_append, List.length_singleton]
      omega
    · simp only [filterMap_update s hnot, List.range_succ]
      have hnew := h.conserved.blocks.append_right [s.blocks]
      rw [List.append_assoc] at hnew ⊢
      exact (List.Perm.append_left _ List.perm_append_comm).trans hnew
  · simpa [List.nodup_append] using ⟨h.nodup, fun x hx heq => hm (heq ▸ hx)⟩
  · exact h.inFlight
  · intro x hx
    exact List.mem_append_left _ (h.subset hx)
  · intro x hx
    have hne : x ≠ m := fun heq => hnot (heq ▸ hx)
    simpa [hne] using h.buf x hx

theorem Sound.kept (h : Sound s) {e : TxEvent} (hsingle : Allowed s e → Single e)
    (hs : txStep s e = .ok s') : Sound s' := by
  by_cases hall : Allowed s e
  · cases e with
    | write kmalloc alloc push listFree =>
      obtain rfl : marlinSdioWrite s kmalloc alloc push listFree = s' :=
        Except.ok.inj ((if_pos hall).symm.trans hs)
      cases kmalloc with
      | false => exact h
      | true =>
        obtain ⟨hsem, hm⟩ := hall rfl
        obtain ⟨halloc, hfree⟩ := hsingle hall rfl
        obtain ⟨m, rfl⟩ := Option.ne_none_iff_exists'.mp halloc
        cases push with
        | true => exact h.pushed hsem (hm m rfl) listFree
        | false =>
          cases hfree rfl
          exact h.stuck hsem (hm m rfl)
    | txCb mbufs listFree =>
      obtain rfl : marlinSdioTxCb s mbufs listFree = s' :=
        Except.ok.inj ((if_pos hall).symm.trans hs)
      exact h.txCb hall.2 (hsingle hall)
  · obtain rfl : s = s' := Except.ok.inj ((if_neg hall).symm.trans hs)
    exact h

/-- A step that is not single loses a block or changes the number of credits. -/
theorem Sound.broken (h : Sound s) {e : TxEvent} (hall : Allowed s e) (hsingle : ¬ Single e) :
    ∃ s', txStep s e = .ok s' ∧ ¬ CreditsConserved s' := by
  cases e with
  | write kmalloc alloc push listFree =>
    refine ⟨_, if_pos hall, fun hc => hsingle fun hk => ?_⟩
    subst hk
    obtain ⟨hsem, hm⟩ := hall rfl
    cases alloc with
    | none =>
      have hold := h.conserved.blocks.length_eq
      have hnew : (s.freed ++ s.inFlight.filterMap s.buf).length = (List.range (s.blocks + 1)).length :=
        hc.blocks.length_eq
      rw [hold, List.length_range, List.length_range] at hnew
      omega
    | some m =>
      refine ⟨Option.some_ne_none m, fun hp => ?_⟩
      subst hp
      by_contra hf
      obtain rfl : listFree = true := by simpa using hf
      have hold := h.conserved.credits
      have hnew : s.sem - 1 + ((s.held ++ [m]).diff [m]).length = BT_TX_POOL_SIZE - 1 := hc.credits
      have hback : ((s.held ++ [m]).diff [m]).length = s.held.length := by
        simp [List.diff_cons, List.length_erase_of_mem]
      omega
  | txCb mbufs listFree =>
    refine ⟨_, if_pos hall, fun hc => hsingle fun hf => ?_⟩
    subst hf
    have hpos := List.length_pos_iff.mpr hall.1
    have hold := h.conserved.credits
    have hnodup : mbufs.Nodup := subperm_nodup hall.2 h.inFlight
    have hback := h.length_diff hall.2
    have hnew := hc.credits
    simp only [marlinSdioTxCb, foldl_kfreeBuf _ hnodup, if_true, Tx.listFree] at hnew
    omega

/-- The credits are conserved all along a run exactly if what fails in it and what is called back for
is single. -/
theorem credits_conserved_iff (es : List TxEvent) :
    (∀ es₁ es₂ t, es = es₁ ++ es₂ → run txStep txInit es₁ = .ok t → CreditsConserved t) ↔
      Along txStep (fun s e => Allowed s e → Single e) txInit es := by
  apply along_iff_prefixes_of (fun s (h : Sound s) => h.conserved) txInit_sound
  · intro s e s' h hC hs
    exact h.kept hC hs
  · intro s e h hC
    obtain ⟨hall, hsingle⟩ := Classical.not_imp.mp hC
    exact h.broken hall hsingle

/-- Two writes whose mbufs come back in one callback. -/
theorem callback_for_two_loses_credit :
    ¬ ∀ es₁ es₂ t,
      [.write true (some 0) true true, .write true (some 1) true true, .txCb [0, 1] true] =
        es₁ ++ es₂ →
      run txStep txInit es₁ = .ok t → CreditsConserved t := by
  intro h
  have hrun := h _ [] _ (List.append_nil _).symm rfl
  exact absurd hrun.credits (by decide)

/-! ## Receive -/

/-- What the callback of the receive channel calls. -/
inductive Call where
  /-- `bt_data_if_cb->recv`, with an address and a length -/
  | recv (data len : ℕ)
  /-- `sprdwcn_bus_push_list` -/
  | pushList (channel : ℕ) (head tail : Option MbufAddr) (num : ℕ)
  deriving DecidableEq, Repr

/-- `((buf[2] & 0x7F) << 9) + (buf[1] << 1) + (buf[0] >> 7)` -/
def blockSize (mem : Memory) (buf : ℕ) : ℕ :=
  (((mem (buf + 2)).toNat &&& 0x7F) <<< 9) + ((mem (buf + 1)).toNat <<< 1) + ((mem buf).toNat >>> 7)

/-- `marlin_sdio_rx_cb`, given whether `bt_data_if_cb` is set: what it returns, and the calls it
makes. -/
def marlinSdioRxCb (bt_data_if_cb : Bool) (mem : Memory) (mbuf : MbufAddr → Mbuf) (chn : ℕ)
    (head tail : Option MbufAddr) (num : ℕ) : Except Fault (ℤ × List Call) :=
  match head with
  | none => .error .nullPointer
  | some m =>
    let blockSize := blockSize mem (mbuf m).buf
    if !bt_data_if_cb then .ok (-1, [])
    else .ok (0, [.recv ((mbuf m).buf + BT_SDIO_HEAD_LEN) blockSize, .pushList chn head tail num])

/-- The list of `list_rx[]` for the receive channel. -/
def btRxList : Fin SDIO_CHN_RX_NUM := 5

/-- The payload of an mbuf: what is behind its header, as long as the header says. -/
def payload (p : SdiohalData) (m : MbufAddr) : Call :=
  .recv ((p.mbuf m).buf + SDIO_PUB_HEADER_SIZE) (puhAt p.mem (p.mbuf m).buf).len.toNat

/-- The callback hands each payload to the registered interface in order, and then the list back to
the bus. -/
def Delivers (p : SdiohalData) (q : PopLink) : Prop :=
  marlinSdioRxCb true p.mem p.mbuf q.channel q.head q.tail q.num =
    .ok (0, q.mbufs.map (payload p) ++ [.pushList q.channel q.head q.tail q.num])

instance (p : SdiohalData) (q : PopLink) : Decidable (Delivers p q) :=
  inferInstanceAs (Decidable (_ = _))

theorem header_len (b₀ b₁ b₂ : BitVec 8) :
    (b₂.extractLsb' 0 7 ++ b₁ ++ b₀.extractLsb' 7 1).toNat =
      ((b₂.toNat &&& 0x7F) <<< 9) + (b₁.toNat <<< 1) + (b₀.toNat >>> 7) := by
  have hlow : b₀.toNat >>> 7 % 2 ^ 1 = b₀.toNat >>> 7 := by
    have := b₀.isLt
    rw [Nat.shiftRight_eq_div_pow]
    omega
  have hhigh : b₂.toNat % 2 ^ 7 = b₂.toNat &&& 0x7F := (Nat.and_two_pow_sub_one_eq_mod _ 7).symm
  have hbit : b₀.toNat >>> 7 < 2 ^ 1 := by omega
  rw [BitVec.toNat_append, BitVec.toNat_append, BitVec.extractLsb'_toNat, BitVec.extractLsb'_toNat,
    Nat.shiftRight_zero, hlow, hhigh, ← Nat.shiftLeft_add_eq_or_of_lt b₁.isLt,
    ← Nat.shiftLeft_add_eq_or_of_lt hbit]
  simp only [Nat.shiftLeft_eq]
  omega

/-- The length that the callback computes is the one in the header. -/
theorem blockSize_eq (mem : Memory) (buf : ℕ) : blockSize mem buf = (puhAt mem buf).len.toNat :=
  (header_len _ _ _).symm

theorem delivers_cons_iff (p : SdiohalData) (channel num : ℕ) (tail : Option MbufAddr) (m : MbufAddr)
    (rest : List MbufAddr) : Delivers p ⟨channel, some m, tail, num, m :: rest⟩ ↔ rest = [] := by
  have hcalls : marlinSdioRxCb true p.mem p.mbuf channel (some m) tail num =
      .ok (0, [payload p m, .pushList channel (some m) tail num]) := by
    rw [payload, ← blockSize_eq]
    rfl
  rw [Delivers, hcalls]
  constructor
  · intro h
    have hlist := congrArg (fun r => r.2.length) (Except.ok.inj h)
    simpa using hlist
  · rintro rfl
    rfl

/-- What the bus hands over is delivered exactly if it is a single mbuf. -/
theorem rx_cb_delivers_iff {p : SdiohalData} (hp : Ready p) (hops : p.ops BT_RX_CHANNEL = true)
    (hnum : (p.list (.rx btRxList)).nodeNum ≠ 0) :
    ∃ q, (p.rxDispatch btRxList).popped = p.popped ++ [q] ∧ q.channel = BT_RX_CHANNEL ∧
      q.mbufs = p.nodes (.rx btRxList) ∧
      (Delivers p q ↔ (p.nodes (.rx btRxList)).length = 1) := by
  have hsubtype := hp.marked (.rx btRxList) _ rfl hnum
  have hchannel : sdiohalHwtypeToChannel false (p.list (.rx btRxList)).type
      (p.list (.rx btRxList)).subtype = BT_RX_CHANNEL := by
    rw [hsubtype]
    rfl
  have hpopped : (p.rxDispatch btRxList).popped =
      (p.popLink BT_RX_CHANNEL (p.list (.rx btRxList))).popped := by
    simp only [SdiohalData.rxDispatch, SdiohalData.dispatch, if_neg hnum, hchannel]
    rw [if_neg (by decide), if_pos hops]
    rfl
  refine ⟨_, hpopped, rfl, rfl, ?_⟩
  have hne : p.nodes (.rx btRxList) ≠ [] := fun hnil => hnum ((hp.nodeNum_zero_iff _).mpr hnil)
  have hhead : (p.list (.rx btRxList)).mbufHead = _ := (hp.stored.holds (.rx btRxList)).head hne
  change Delivers p ⟨_, (p.list (.rx btRxList)).mbufHead, _, _, p.nodes (.rx btRxList)⟩ ↔ _
  rw [hhead]
  cases hnodes : p.nodes (.rx btRxList) with
  | nil => exact absurd hnodes hne
  | cons m rest =>
    rw [List.head?_cons, delivers_cons_iff, List.length_cons]
    simp

/-- Received Bluetooth packets that the parser found in one burst. -/
def sampleBurst (mbufs : List MbufAddr) : Option SdiohalData :=
  rxAssignAll (sampleData 5) (mbufs.map fun m => (m, puhAt (sampleData 5).mem (m * 8)))

theorem sampleBurst_ready {p : SdiohalData} (mbufs : List MbufAddr) (hnodup : mbufs.Nodup)
    (h : sampleBurst mbufs = some p) : Ready p :=
  (rxAssignAll_spec (sampleData_ready 5) (by simpa [List.map_map, Function.comp_def] using hnodup)
    (fun i => List.disjoint_nil_left _) h).1

theorem single_packet_delivered :
    ∃ p, sampleBurst [2] = some p ∧
      ∃ q, (p.rxDispatch btRxList).popped = p.popped ++ [q] ∧ q.mbufs = [2] ∧ Delivers p q := by
  have hready := sampleBurst_ready [2] (by decide) rfl
  obtain ⟨q, hpopped, -, hmbufs, hiff⟩ := rx_cb_delivers_iff hready rfl (by decide)
  exact ⟨_, rfl, q, hpopped, hmbufs, hiff.mpr rfl⟩

/-- The second of two packets of a burst is not delivered. -/
theorem second_packet_lost :
    ∃ p, sampleBurst [2, 3] = some p ∧ Ready p ∧ p.ops BT_RX_CHANNEL = true ∧
      ∃ q, (p.rxDispatch btRxList).popped = p.popped ++ [q] ∧ q.channel = BT_RX_CHANNEL ∧
        q.mbufs = [2, 3] ∧ ¬ Delivers p q :=
  ⟨_, rfl, sampleBurst_ready [2, 3] (by decide) rfl, rfl, _, rfl, rfl, by decide, by decide⟩

end Uwe5631.BtSdio
