import Uwe5631.DefragSequences

/-!
# The bytes of a reassembled buffer

The length of a reassembled buffer is added up while its fragments arrive, the copies are made from
their descriptors afterwards, both in machine integers.
-/
namespace Uwe5631.Defrag
open FallibleRuns RecencyList

/-- The length of a fragment with what comes before its 802.3 header. -/
def Skb.wire (s : Skb) : ℕ := s.desc.msduOffset.toNat + s.desc.msduLen.toNat

/-- The length of a fragment without its header. -/
def Skb.payload (s : Skb) : ℕ := s.desc.msduLen.toNat - s.desc.headerLen

/-- The payloads one behind the other from an offset on. -/
def payloadCopies : ℕ → List Skb → List Copy
  | _, [] => []
  | offset, s :: rest =>
    ⟨s, s.desc.msduOffset.toNat + s.desc.headerLen, offset, s.payload⟩ ::
      payloadCopies (offset + s.payload) rest

/-- The first fragment in full and then the payloads of the others; as many bytes as the buffer was
made for and as its descriptor says; within fragments and buffer; and no length and no offset has
wrapped. -/
structure Msdu.Right (m : Msdu) (first : Skb) (rest : List Skb) : Prop where
  copies : m.copies = ⟨first, 0, 0, first.wire⟩ :: payloadCopies first.wire rest
  size : m.size.toNat = (m.copies.map Copy.len).sum
  announced : m.msduLen.toNat + first.desc.msduOffset.toNat = (m.copies.map Copy.len).sum
  source : ∀ c ∈ m.copies, c.srcOffset + c.len ≤ c.skb.wire
  dest : ∀ c ∈ m.copies, c.dstOffset + c.len ≤ m.size.toNat
  lengths : ∀ s ∈ first :: rest, s.desc.fragLen.toNat + s.desc.headerLen = s.desc.msduLen.toNat
  offsets : (rest.foldl (fun offset s => offset + s.desc.fragLen) first.desc.totalLen).toNat =
    first.wire + (rest.map Skb.payload).sum

/-- No fragment is shorter than its header, and the whole is shorter than 64 KiB. -/
def LengthsFit (first : Skb) (rest : List Skb) : Prop :=
  (∀ s ∈ first :: rest, s.desc.headerLen ≤ s.desc.msduLen.toNat) ∧
    first.wire + (rest.map Skb.payload).sum < 2 ^ 16

/-! ## The length of a node -/

/-- `msdu_len` of a node that a first fragment and others have gone into. -/
def nodeLen (first : Skb) (rest : List Skb) : BitVec 32 :=
  rest.foldl (fun len s => len + s.desc.fragLen.setWidth 32)
    (BitVec.ofNat 32 (first.desc.headerLen + first.desc.msduOffset.toNat) +
      first.desc.fragLen.setWidth 32)

/-- A node that begins with a first fragment has the length of its queue. -/
def RxDefragNode.Measured (n : RxDefragNode) : Prop :=
  ∀ first rest, n.skbList = first :: rest → first.desc.fragNum = 0 → n.msduLen = nodeLen first rest

/-- The buffer was made of a queue, for its length. -/
def Msdu.Made (m : Msdu) : Prop :=
  ∃ first rest len, m = assemble len first rest ∧
    (first.desc.fragNum = 0 → len = nodeLen first rest)

structure Measures (e : RxDefragEntry) : Prop where
  node : ∀ a, (e.node a).Measured
  made : ∀ m, .msdu m ∈ e.netRxList → m.Made

variable {e e₁ e' : RxDefragEntry} {a b : NodeAddr} {pskb first s : Skb} {rest skbs : List Skb}
  {alloc : Bool} {m : Msdu}

theorem measured_empty {n : RxDefragNode} (h : n.skbList = []) : n.Measured := by
  intro first rest hqueue
  rw [h] at hqueue
  cases hqueue

/-- A fragment that goes on with a sequence adds its length. -/
theorem Measured.extend {n n' : RxDefragNode} (h : n.Measured) (hfrag : pskb.desc.fragNum ≠ 0)
    (hskbs : n'.skbList = n.skbList ++ [pskb])
    (hlen : n'.msduLen = n.msduLen + pskb.desc.fragLen.setWidth 32) : n'.Measured := by
  intro first rest hqueue hfirst
  rw [hskbs] at hqueue
  cases hold : n.skbList with
  | nil =>
    rw [hold, List.nil_append] at hqueue
    cases hqueue
    exact absurd hfirst hfrag
  | cons s skbs =>
    rw [hold, List.cons_append] at hqueue
    cases hqueue
    rw [hlen, h _ skbs hold hfirst, nodeLen, nodeLen, List.foldl_append]
    rfl

theorem Got.measured (h : Got e pskb.desc a e₁) (hm : ∀ b, (e.node b).Measured) (b : NodeAddr) :
    ((e₁.queueTail a pskb).node b).Measured := by
  by_cases hb : b = a
  · subst hb
    cases h with
    | continued hfrag hfind hnext =>
      refine Measured.extend (hm b) hfrag ?_ ?_
      · simp [RxDefragEntry.queueTail]
      · simp [RxDefragEntry.queueTail]
    | renewed hfrag | replaced hfrag =>
      intro first rest hqueue hfirst
      rw [queueTail_self, startNode_node, onNode_self, purge_self] at hqueue
      cases hqueue
      rw [RxDefragEntry.queueTail, onNode_self, startNode_node, onNode_self]
      rfl
  · rw [queueTail_ne pskb hb, h.node_ne hb]
    exact hm b

theorem purge_measures (h : Measures e) (a : NodeAddr) : Measures (e.purge a) where
  node b := by
    by_cases hb : b = a
    · subst hb
      exact measured_empty (by rw [purge_self])
    · rw [purge_ne _ _ hb]
      exact h.node b
  made := h.made

theorem emptied_measured (h : ∀ b, (e.node b).Measured) (a b : NodeAddr) :
    ((e.onNode a fun n => { n with skbList := [] }).node b).Measured := by
  by_cases hb : b = a
  · subst hb
    exact measured_empty (by rw [onNode_self])
  · rw [onNode_ne _ _ _ hb]
    exact h b

theorem step_measures (h : Measures e) {ev : Event} (hs : step e ev = .ok e') : Measures e' := by
  cases ev with
  | recover mode ctxId peerEntry =>
    cases hs
    exact recover_induct (P := Measures) (fun e' a _ h' => purge_measures h' a) h mode ctxId
      peerEntry
  | data pskb alloc =>
    obtain ⟨r, hr, rfl⟩ := map_eq_ok.mp hs
    cases defragDataProcess_processed hr with
    | whole =>
      refine ⟨h.node, fun m hm => h.made m ?_⟩
      simpa using hm
    | refused =>
      refine ⟨h.node, fun m hm => h.made m ?_⟩
      simpa using hm
    | queued a e₁ hgot hmore =>
      refine ⟨hgot.measured h.node, fun m hm => h.made m ?_⟩
      simpa [RxDefragEntry.queueTail, hgot.netRxList] using hm
    | completed a e₁ first rest hfrag hgot hmore hqueue halloc =>
      have hmeasured := hgot.measured h.node
      constructor
      · intro b
        simp only [retire_node, kfree_node]
        exact emptied_measured hmeasured a b
      · intro m hm
        simp only [retire_netRxList, kfree_netRxList, onNode_netRxList, Option.toList_some,
          List.mem_append, List.mem_singleton, Returned.msdu.injEq] at hm
        rcases hm with hm | rfl
        · exact h.made m (hgot.netRxList ▸ hm)
        · refine ⟨first, rest, _, rfl, hmeasured a first rest ?_⟩
          rw [queueTail_self, hqueue]
    | abandoned a e₁ first rest hfrag hgot hmore hqueue halloc =>
      refine ⟨fun b => ?_, fun m hm => h.made m ?_⟩
      · simp only [retire_node, kfree_node]
        exact emptied_measured (hgot.measured h.node) a b
      · simpa [RxDefragEntry.queueTail, hgot.netRxList] using hm

theorem init_measures : Measures sprdwlDefragInit where
  node _ := measured_empty rfl
  made m hm := by cases hm

/-! ## The copies -/

theorem headerLen_lt (d : RxMsduDesc) : d.headerLen < 2 ^ 16 := by
  rw [RxMsduDesc.headerLen]
  split <;> decide

theorem fragLen_eq (h : s.desc.headerLen ≤ s.desc.msduLen.toNat) :
    s.desc.fragLen.toNat = s.payload := by
  have hheader : (BitVec.ofNat 16 s.desc.headerLen).toNat = s.desc.headerLen :=
    Nat.mod_eq_of_lt (headerLen_lt s.desc)
  rw [RxMsduDesc.fragLen, BitVec.toNat_sub_of_le, hheader, Skb.payload]
  rw [BitVec.le_def, hheader]
  exact h

theorem totalLen_eq (h : s.wire < 2 ^ 16) : s.desc.totalLen.toNat = s.wire := by
  have hoffset : (s.desc.msduOffset.setWidth 16).toNat = s.desc.msduOffset.toNat := by
    rw [BitVec.toNat_setWidth]
    exact Nat.mod_eq_of_lt (s.desc.msduOffset.isLt.trans (by decide))
  rw [RxMsduDesc.totalLen, BitVec.toNat_add, hoffset]
  exact Nat.mod_eq_of_lt h

theorem add_fragLen {offset : BitVec 16} (hs : s.desc.headerLen ≤ s.desc.msduLen.toNat)
    (h : offset.toNat + s.payload < 2 ^ 16) :
    (offset + s.desc.fragLen).toNat = offset.toNat + s.payload := by
  rw [BitVec.toNat_add, fragLen_eq hs]
  exact Nat.mod_eq_of_lt h

/-- While nothing wraps the copies are those of the payloads. -/
theorem copyRest_eq {offset : BitVec 16}
    (hheader : ∀ s ∈ rest, s.desc.headerLen ≤ s.desc.msduLen.toNat)
    (h : offset.toNat + (rest.map Skb.payload).sum < 2 ^ 16) :
    copyRest offset rest = payloadCopies offset.toNat rest ∧
      (rest.foldl (fun offset s => offset + s.desc.fragLen) offset).toNat =
        offset.toNat + (rest.map Skb.payload).sum := by
  induction rest generalizing offset with
  | nil => exact ⟨rfl, rfl⟩
  | cons s rest ih =>
    rw [List.map_cons, List.sum_cons] at h ⊢
    have hs := hheader s List.mem_cons_self
    have hnext := @add_fragLen s offset hs (by omega)
    obtain ⟨hcopies, hoffset⟩ := @ih (offset + s.desc.fragLen)
      (fun s' hs' => hheader s' (List.mem_cons_of_mem s hs')) (by rw [hnext]; omega)
    rw [copyRest, payloadCopies, List.foldl_cons, hcopies, hoffset, hnext, fragLen_eq hs]
    exact ⟨rfl, Nat.add_assoc _ _ _⟩

theorem foldl_len {len : BitVec 32}
    (hheader : ∀ s ∈ rest, s.desc.headerLen ≤ s.desc.msduLen.toNat)
    (h : len.toNat + (rest.map Skb.payload).sum < 2 ^ 16) :
    (rest.foldl (fun len s => len + s.desc.fragLen.setWidth 32) len).toNat =
      len.toNat + (rest.map Skb.payload).sum := by
  induction rest generalizing len with
  | nil => rfl
  | cons s rest ih =>
    rw [List.map_cons, List.sum_cons] at h ⊢
    have hs := hheader s List.mem_cons_self
    have hwide : (s.desc.fragLen.setWidth 32).toNat = s.payload := by
      rw [BitVec.toNat_setWidth, fragLen_eq hs]
      exact Nat.mod_eq_of_lt (by omega)
    have hnext : (len + s.desc.fragLen.setWidth 32).toNat = len.toNat + s.payload := by
      rw [BitVec.toNat_add, hwide]
      exact Nat.mod_eq_of_lt (by omega)
    rw [List.foldl_cons, ih (fun s' hs' => hheader s' (List.mem_cons_of_mem s hs'))
      (by rw [hnext]; omega), hnext, Nat.add_assoc]

theorem nodeLen_eq (h : LengthsFit first rest) :
    (nodeLen first rest).toNat = first.wire + (rest.map Skb.payload).sum := by
  obtain ⟨hheader, hsum⟩ := h
  have hfirst := hheader first List.mem_cons_self
  have hheaderLen := headerLen_lt first.desc
  have hoffset := first.desc.msduOffset.isLt
  have hbegin : (BitVec.ofNat 32 (first.desc.headerLen + first.desc.msduOffset.toNat)).toNat =
      first.desc.headerLen + first.desc.msduOffset.toNat := Nat.mod_eq_of_lt (by omega)
  have hpayload : first.desc.headerLen + first.desc.msduOffset.toNat + first.payload =
      first.wire := by
    rw [Skb.wire, Skb.payload]
    omega
  have hwide : (first.desc.fragLen.setWidth 32).toNat = first.payload := by
    rw [BitVec.toNat_setWidth, fragLen_eq hfirst]
    exact Nat.mod_eq_of_lt (by omega)
  have hstart : (BitVec.ofNat 32 (first.desc.headerLen + first.desc.msduOffset.toNat) +
      first.desc.fragLen.setWidth 32).toNat = first.wire := by
    rw [BitVec.toNat_add, hbegin, hwide, hpayload]
    exact Nat.mod_eq_of_lt (by omega)
  rw [nodeLen, foldl_len (fun s hs => hheader s (List.mem_cons_of_mem first hs))
    (by rw [hstart]; exact hsum), hstart]

theorem payloadCopies_sum (offset : ℕ) (rest : List Skb) :
    ((payloadCopies offset rest).map Copy.len).sum = (rest.map Skb.payload).sum := by
  induction rest generalizing offset with
  | nil => rfl
  | cons s rest ih =>
    rw [payloadCopies, List.map_cons, List.map_cons, List.sum_cons, List.sum_cons, ih]

/-- The copies of payloads stay within their fragments and below the end of the last. -/
theorem payloadCopies_inside {offset : ℕ} {c : Copy}
    (hheader : ∀ s ∈ rest, s.desc.headerLen ≤ s.desc.msduLen.toNat)
    (hc : c ∈ payloadCopies offset rest) : c.srcOffset + c.len ≤ c.skb.wire ∧
      c.dstOffset + c.len ≤ offset + (rest.map Skb.payload).sum := by
  induction rest generalizing offset with
  | nil => cases hc
  | cons s rest ih =>
    rw [List.map_cons, List.sum_cons]
    rcases List.mem_cons.mp hc with rfl | hc
    · have hs := hheader s List.mem_cons_self
      dsimp only
      rw [Skb.wire, Skb.payload]
      omega
    · obtain ⟨hsource, hdest⟩ := ih (fun s' hs' => hheader s' (List.mem_cons_of_mem s hs')) hc
      exact ⟨hsource, by omega⟩

theorem assemble_right_iff (first : Skb) (rest : List Skb) :
    (assemble (nodeLen first rest) first rest).Right first rest ↔ LengthsFit first rest := by
  constructor
  · intro h
    refine ⟨fun s hs => ?_, ?_⟩
    · have hlen := h.lengths s hs
      omega
    · rw [← h.offsets]
      exact BitVec.isLt _
  · intro h
    obtain ⟨hheader, hsum⟩ := id h
    have hrest (s : Skb) (hs : s ∈ rest) : s.desc.headerLen ≤ s.desc.msduLen.toNat :=
      hheader s (List.mem_cons_of_mem first hs)
    have hwire : first.desc.totalLen.toNat = first.wire := totalLen_eq (by omega)
    obtain ⟨hcopies, hoffsets⟩ := @copyRest_eq rest first.desc.totalLen hrest
      (by rw [hwire]; exact hsum)
    rw [hwire] at hcopies hoffsets
    have hsize := nodeLen_eq h
    have hall : (assemble (nodeLen first rest) first rest).copies =
        ⟨first, 0, 0, first.wire⟩ :: payloadCopies first.wire rest := by
      rw [assemble, hcopies, hwire]
    have htotal : ((assemble (nodeLen first rest) first rest).copies.map Copy.len).sum =
        first.wire + (rest.map Skb.payload).sum := by
      rw [hall, List.map_cons, List.sum_cons, payloadCopies_sum]
    have hoffset : first.desc.msduOffset.toNat ≤ first.wire := Nat.le_add_right _ _
    refine ⟨hall, ?_, ?_, fun c hc => ?_, fun c hc => ?_, fun s hs => ?_, hoffsets⟩
    · rw [htotal]
      exact hsize
    · rw [htotal]
      have hwide : (first.desc.msduOffset.setWidth 32).toNat = first.desc.msduOffset.toNat := by
        rw [BitVec.toNat_setWidth]
        exact Nat.mod_eq_of_lt (first.desc.msduOffset.isLt.trans (by decide))
      have hannounced : ((nodeLen first rest - first.desc.msduOffset.setWidth 32).setWidth
          16).toNat = first.wire + (rest.map Skb.payload).sum - first.desc.msduOffset.toNat := by
        rw [BitVec.toNat_setWidth, BitVec.toNat_sub_of_le, hwide, hsize]
        · exact Nat.mod_eq_of_lt (by omega)
        · rw [BitVec.le_def, hwide, hsize]
          omega
      rw [assemble]
      dsimp only
      omega
    · rw [hall] at hc
      rcases List.mem_cons.mp hc with rfl | hc
      · exact (Nat.zero_add _).le
      · exact (payloadCopies_inside hrest hc).1
    · rw [hall] at hc
      change _ ≤ (nodeLen first rest).toNat
      rw [hsize]
      rcases List.mem_cons.mp hc with rfl | hc
      · dsimp only
        omega
      · exact (payloadCopies_inside hrest hc).2
    · have hs' := hheader s hs
      rw [fragLen_eq hs', Skb.payload]
      omega

/-- In every run the buffer made of a whole sequence has the right bytes exactly if no fragment is
shorter than its header and the buffer is shorter than 64 KiB. -/
theorem reassembled_bytes_iff {es : List Event} (hr : run step sprdwlDefragInit es = .ok e)
    (hm : .msdu m ∈ e.netRxList) (hwhole : m.Whole) :
    ∃ first rest, m.copies.map Copy.skb = first :: rest ∧
      (m.Right first rest ↔ LengthsFit first rest) := by
  have hmeasures : Measures e := run_invariant (C := fun _ _ => True)
    (fun _ _ _ h _ hs => step_measures h hs) init_measures (Along.trivial (fun _ _ => trivial) _ _) hr
  obtain ⟨first, rest, len, rfl, hlen⟩ := hmeasures.made m hm
  obtain ⟨desc, front, last, hskbs, hfront, hseq, -⟩ := hwhole
  rw [assemble_skbs] at hskbs
  have hfirst : first.desc.fragNum = 0 := by
    have hzero := (hseq 0 first (by rw [← hskbs]; rfl)).1
    exact BitVec.eq_of_toNat_eq hzero
  rw [hlen hfirst]
  exact ⟨first, rest, assemble_skbs _ _ _, assemble_right_iff first rest⟩

/-- Two fragments with 86 bytes of payload each. -/
theorem reassembled_bytes_two : ∃ e m, run step sprdwlDefragInit twoFragments = .ok e ∧
    e.netRxList = [.msdu m] ∧ ∃ first rest, m.copies.map Copy.skb = first :: rest ∧
      (m.Right first rest ↔ LengthsFit first rest) := by
  refine ⟨_, _, rfl, rfl, ?_⟩
  refine reassembled_bytes_iff (show run step sprdwlDefragInit twoFragments = _ from rfl)
    (List.mem_singleton_self _) ?_
  exact reassembles_whole_sequences
    (show run step sprdwlDefragInit twoFragments = _ from rfl) (by decide) _
    (List.mem_singleton_self _)

/-- The second fragment is shorter than its header. -/
def shortFragment : List Event :=
  [.data (fragment 10 0 true) true,
    .data ⟨11, ⟨1, 0, 5, 1, false, true, 0, 10⟩⟩ true]

/-- 65532 bytes are copied out of it, into a buffer that is larger than its descriptor says. -/
theorem short_fragment_overruns : ∃ e m, run step sprdwlDefragInit shortFragment = .ok e ∧
    e.netRxList = [.msdu m] ∧ m.Whole ∧ m.copies.map Copy.len = [100, 65532] ∧
      ∀ first rest, m.copies.map Copy.skb = first :: rest → ¬ m.Right first rest := by
  refine ⟨_, _, rfl, rfl, ?_, rfl, fun first rest hskbs h => ?_⟩
  · exact (run_invariant (fun _ _ _ h hC hs => step_reassembles h hC hs) init_reassembles
      (by decide : Along step (fun e ev => orphan e ev = false) sprdwlDefragInit shortFragment)
      rfl).whole _ (List.mem_singleton_self _)
  · cases hskbs
    have hshort := h.lengths _ (List.mem_cons_of_mem _ List.mem_cons_self)
    revert hshort
    decide

end Uwe5631.Defrag
