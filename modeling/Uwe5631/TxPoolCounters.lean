import Uwe5631.TxPool
import Uwe5631.TxQueueCounters

/-!
# Counters over runs of the pool

The counts of the transmit queues stay right in a run of the driver unless a queue has grown so
long that the square of its length wraps when old packets are dropped. The pool lets queues grow
that long once `ref` is too low.
-/
namespace Uwe5631.TxQueue
open FallibleRuns

variable {s s' t : State} {tx : TxMsg} {free n sent : ℕ}

/-- The queue that grows. -/
abbrev longQueue : Mode × Peer := (SPRDWL_MODE_STATION, (SPRDWL_AC_BE, 6))

/-- Packets wait in one queue only, and `sent` packets were handed to the PCIe bus. -/
structure Filled (s : State) (free n sent : ℕ) : Prop where
  bus : s.hwType = .pcie
  held : s.held = []
  freeNum : s.freelist.length = free
  counted : Counted s.tx
  others : ∀ k, k ≠ longQueue → (s.tx.pList k).headList = []
  queued : (s.tx.pList longQueue).headList.length = n
  toSend : s.tx.toSendList = []
  sentNum : s.tx.toFreeList.length = sent
  maxnum : s.maxnum = free + n + sent

/-- Some events lead from one state to another. -/
def Leads (s t : State) : Prop := ∃ es, run poolStep s es = .ok t

theorem Leads.refl (s : State) : Leads s s := ⟨[], rfl⟩

theorem Leads.trans {u : State} (h : Leads s t) (h' : Leads t u) : Leads s u := by
  obtain ⟨es, hes⟩ := h
  obtain ⟨fs, hfs⟩ := h'
  exact ⟨es ++ fs, run_append_ok hes hfs⟩

theorem Leads.step {e : PoolEvent} (h : poolStep s e = .ok t) : Leads s t :=
  ⟨[e], run_cons_ok h []⟩

theorem exists_fresh (s : State) : ∃ addr, s.buffers.count addr = 0 := by
  obtain ⟨addr, haddr⟩ := Infinite.exists_notMem_finset s.buffers.toFinset
  rw [Multiset.mem_toFinset] at haddr
  exact ⟨addr, Multiset.count_eq_zero_of_notMem haddr⟩

/-- A buffer is taken from the free list, or a new one is added once most of the pool is in use. -/
theorem getMsgBuf_taken (s : State) (href : s.ref + 1 < SPRDWL_MSG_EXIT_VAL)
    (hfree : s.ref ≤ 16000 → 0 < s.freelist.length) :
    ∃ kzalloc rest addr, (¬ ∃ a ∈ kzalloc, s.buffers.count a ≠ 0) ∧
      s.getMsgBuf SPRDWL_MODE_STATION kzalloc =
        { s with
          freelist := rest
          ref := s.ref + 1
          held := ⟨addr, SPRDWL_MODE_STATION⟩ :: s.held
          maxnum := s.maxnum + if s.ref ≤ 16000 then 0 else 1 } ∧
      rest.length = if s.ref ≤ 16000 then s.freelist.length - 1 else s.freelist.length := by
  have hexit : ¬ SPRDWL_MSG_EXIT_VAL ≤ s.ref + 1 := not_le.mpr href
  have hsize : ((SPRDWL_TX_QOS_POOL_SIZE * 8 / 10 : ℕ) : ℤ) = 16000 := rfl
  by_cases hmost : s.ref ≤ 16000
  · obtain ⟨addr, rest, hlist⟩ := List.exists_cons_of_length_pos (hfree hmost)
    refine ⟨none, rest, addr, by simp, ?_, ?_⟩
    · rw [State.getMsgBuf.eq_def, hsize, if_neg (not_lt.mpr hmost), State.allocMsgBuf,
        if_neg hexit, hlist, if_pos hmost, add_zero]
    · rw [if_pos hmost, hlist, List.length_cons, Nat.add_sub_cancel]
  · obtain ⟨new, hnew⟩ := exists_fresh s
    obtain ⟨addr, rest, hlist⟩ := List.exists_cons_of_length_pos (l := s.freelist ++ [new])
      (by simp)
    refine ⟨some new, rest, addr, by simpa using hnew, ?_, ?_⟩
    · rw [State.getMsgBuf.eq_def, hsize, if_pos (not_le.mp hmost)]
      dsimp only
      rw [State.allocMsgBuf]
      dsimp only
      rw [if_neg hexit, if_neg hmost, hlist]
    · have hlength := congrArg List.length hlist
      rw [List.length_append, List.length_singleton, List.length_cons] at hlength
      rw [if_neg hmost]
      omega

theorem startXmit_queued {msg : MsgBuf} {len : ℕ} (hheld : msg ∈ s.held)
    (hlen : len ≤ SPRDWL_MAX_DATA_TXLEN) (p : Peer) (swRate : Bool) :
    poolStep s (.startXmit msg len p swRate) =
      .ok { s with
        held := s.held.erase msg
        tx := sprdwlQueueDataMsgBuf s.tx msg p swRate } := by
  rw [poolStep, if_pos hheld, State.txMsgFunc, if_neg (not_lt.mpr hlen)]
  rfl

theorem queue_longQueue (tx : TxMsg) (addr : ℕ) :
    ((sprdwlQueueDataMsgBuf tx ⟨addr, SPRDWL_MODE_STATION⟩ (SPRDWL_AC_BE, 6) false).pList
      longQueue).headList = (tx.pList longQueue).headList ++ [⟨addr, SPRDWL_MODE_STATION⟩] :=
  congrArg PeerList.headList (setPeer_self tx longQueue _)

/-- A packet comes and is queued. -/
theorem Filled.fillOne (h : Filled s free n sent) (href : s.ref < 32767)
    (hfree : s.ref ≤ 16000 → 0 < free) :
    ∃ t, Leads s t ∧ t.ref = s.ref + 1 ∧
      Filled t (if s.ref ≤ 16000 then free - 1 else free) (n + 1) sent := by
  obtain ⟨kzalloc, rest, addr, hfresh, hget, hrest⟩ := getMsgBuf_taken s
    (show s.ref + 1 < 32768 by omega) (by rwa [h.freeNum])
  rw [h.freeNum] at hrest
  have hgot : poolStep s (.getMsgBuf SPRDWL_MODE_STATION kzalloc) = .ok _ := if_neg hfresh
  rw [hget, h.held] at hgot
  have hsent := @startXmit_queued { s with
    freelist := rest
    ref := s.ref + 1
    maxnum := s.maxnum + if s.ref ≤ 16000 then 0 else 1
    held := [⟨addr, SPRDWL_MODE_STATION⟩] } ⟨addr, SPRDWL_MODE_STATION⟩ 100
    (List.mem_singleton.mpr rfl) (by decide) (SPRDWL_AC_BE, 6) false
  refine ⟨_, (Leads.step hgot).trans (.step hsent), rfl, h.bus, ?_, hrest, h.counted.queue ..,
    fun k hk => ?_, ?_, h.toSend, h.sentNum, ?_⟩
  · exact List.erase_cons_head ..
  · exact (congrArg PeerList.headList (setPeer_ne s.tx _ hk)).trans (h.others k hk)
  · refine (congrArg List.length (queue_longQueue s.tx addr)).trans ?_
    rw [List.length_append, List.length_singleton, h.queued]
  · change s.maxnum + _ = _
    rw [h.maxnum]
    split
    · rename_i hmost
      have hpos := hfree hmost
      omega
    · push_cast
      omega

theorem Filled.waiting (h : Filled s free n sent) : s.tx.waiting.card = n := by
  rw [TxMsg.waiting, TxMsg.queued, ← Finset.add_sum_erase _ _ (Finset.mem_univ longQueue),
    Finset.sum_eq_zero fun k hk => ?_, add_zero, h.toSend, Multiset.coe_nil, add_zero,
    Multiset.coe_card, h.queued]
  rw [h.others k (Finset.ne_of_mem_erase hk)]
  rfl

/-- The mode is closed, and its packets are freed. -/
theorem Filled.flush (h : Filled s free n sent) :
    ∃ t, Leads s t ∧ t.ref = s.ref - n ∧ Filled t (free + n) 0 sent := by
  have hempty : ∀ k, ((sprdwlFlushModeTxlist s.tx SPRDWL_MODE_STATION).1.pList k).headList = [] := by
    intro k
    rw [sprdwlFlushModeTxlist]
    dsimp only
    split
    · split
      · assumption
      · rfl
    · rename_i hk
      exact h.others k fun hlong => hk (congrArg Prod.fst hlong)
  have hfreed : (sprdwlFlushModeTxlist s.tx SPRDWL_MODE_STATION).2.length = n := by
    have hmoves := congrArg Multiset.card (flushMode_moves s.tx SPRDWL_MODE_STATION).waiting
    have hnone : (sprdwlFlushModeTxlist s.tx SPRDWL_MODE_STATION).1.waiting = 0 := by
      rw [TxMsg.waiting, TxMsg.queued, Finset.sum_eq_zero fun k _ => ?_, zero_add]
      · exact congrArg _ h.toSend
      · rw [hempty k]
        rfl
    rw [hnone, h.waiting, zero_add, add_zero, Multiset.coe_card] at hmoves
    exact hmoves
  refine ⟨_, .step (e := .flushMode SPRDWL_MODE_STATION) rfl, ?_, h.bus, h.held, ?_,
    h.counted.flushMode _, fun k _ => hempty k, ?_, h.toSend, h.sentNum, ?_⟩
  · rw [settle_ref, hfreed]
    exact sub_zero _
  · change (s.freelist ++ _).length = _
    rw [List.length_append, List.length_map, hfreed, h.freeNum]
  · exact congrArg List.length (hempty longQueue)
  · refine h.maxnum.trans ?_
    push_cast
    ring

/-- What the firmware does not report is freed when it is late. -/
theorem Filled.late (h : Filled s free n sent) :
    ∃ t, Leads s t ∧ t.ref = s.ref - sent ∧ Filled t (free + sent) n 0 := by
  have hstep : poolStep s (.txFreePcieData [] fun _ => true) = .ok (s.freeLate fun _ => true) := by
    simp [poolStep, h.bus]
  have htake : s.tx.toFreeList.takeWhile (fun _ => true) = s.tx.toFreeList :=
    List.takeWhile_eq_self_iff.mpr fun _ _ => rfl
  have hdrop : s.tx.toFreeList.dropWhile (fun _ => true) = [] :=
    List.dropWhile_eq_nil_iff.mpr fun _ _ => rfl
  rw [State.freeLate, htake, hdrop] at hstep
  refine ⟨_, .step hstep, ?_, h.bus, h.held, ?_, h.counted.of_same rfl rfl, h.others, h.queued,
    h.toSend, rfl, ?_⟩
  · change s.ref - s.tx.toFreeList.length = _
    rw [h.sentNum]
  · change (s.freelist ++ s.tx.toFreeList.map MsgBuf.addr).length = _
    rw [List.length_append, List.length_map, h.freeNum, h.sentNum]
  · refine h.maxnum.trans ?_
    push_cast
    ring

end Uwe5631.TxQueue
