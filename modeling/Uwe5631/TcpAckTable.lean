import Uwe5631.TcpAckSupersession

/-!
# The table of flows

With one call at a time `max_num` counts the busy entries, `free_index` is not one of them,
and no two busy entries are of one flow. Time passes and timers run at any moment.
-/
namespace Uwe5631.TcpAck
open FallibleRuns InterleavedCalls

variable {s s' : Filter} {i j : Index} {c : Call} {r : Option Call} {n : ℕ}

/-- The number of busy entries. -/
def Filter.busyNum (s : Filter) : ℕ := (Finset.univ.filter fun i => (s.ackInfo i).busy).card

/-- The table between two actions, with `n` entries handed out that are not yet busy. -/
structure Table (s : Filter) (n : ℕ) : Prop where
  count : s.maxNum = s.busyNum + n
  free : ∀ i, s.freeIndex = some i → (s.ackInfo i).busy = false
  unique : ∀ i j a, (s.ackInfo i).matched a = true → (s.ackInfo j).matched a = true → i = j

/-- What the call has found out about the table. -/
def Call.Located (s : Filter) : Call → Prop
  | .send _ (.search c i) => ∀ j < i, (s.ackInfo j).matched c.msg = false
  | .send _ (.alloc c) => ∀ j, (s.ackInfo j).matched c.msg = false
  | .send _ (.start c i) =>
    (∀ j, (s.ackInfo j).matched c.msg = false) ∧ s.freeIndex = none ∧ (s.ackInfo i).busy = false
  | .send .. | .rx _ | .move .. => True

/-- The entries handed out to a call and not yet busy. -/
def Call.handedOut (c : Call) : ℕ := if c.initialises.isSome then 1 else 0

/-- The calls and the table agree, with one call at most. -/
structure TableInv (s : State) : Prop where
  single : s.calls.length ≤ 1
  table : Table s.shared (s.calls.map Call.handedOut).sum
  located : ∀ c ∈ s.calls, c.Located s.shared

/-! ## Counting the busy entries -/

theorem busyNum_eq_sum (s : Filter) : s.busyNum = ∑ i, if (s.ackInfo i).busy then 1 else 0 :=
  Finset.card_filter ..

theorem busyNum_onEntry (s : Filter) (i : Index) (f : AckInfo → AckInfo) :
    (s.onEntry i f).busyNum + (if (s.ackInfo i).busy then 1 else 0) =
      s.busyNum + if (f (s.ackInfo i)).busy then 1 else 0 := by
  rw [busyNum_eq_sum, busyNum_eq_sum]
  exact sum_onEntry (fun e => if e.busy then 1 else 0) s i f

theorem busyNum_congr (h : ∀ i, (s'.ackInfo i).busy = (s.ackInfo i).busy) :
    s'.busyNum = s.busyNum := by
  simp only [Filter.busyNum, h]

theorem busyNum_eq_iff (s : Filter) :
    s.busyNum = SPRDWL_TCP_ACK_NUM ↔ ∀ i, (s.ackInfo i).busy = true := by
  have hall : s.busyNum = (Finset.univ : Finset Index).card ↔ ∀ i, (s.ackInfo i).busy = true := by
    rw [Filter.busyNum, Finset.card_filter_eq_iff]
    simp
  rwa [Finset.card_fin] at hall

theorem busyNum_le (s : Filter) : s.busyNum ≤ SPRDWL_TCP_ACK_NUM :=
  (Finset.card_filter_le ..).trans (Finset.card_fin _).le

theorem busyNum_lt (h : (s.ackInfo i).busy = false) : s.busyNum < SPRDWL_TCP_ACK_NUM := by
  refine lt_of_le_of_ne (busyNum_le s) fun heq => ?_
  rw [(busyNum_eq_iff s).mp heq i] at h
  cases h

/-! ## Actions that leave the table -/

/-- The table is the same, whatever else happened. -/
structure SameTable (s s' : Filter) : Prop where
  maxNum : s'.maxNum = s.maxNum
  freeIndex : s'.freeIndex = s.freeIndex
  busy : ∀ i, (s'.ackInfo i).busy = (s.ackInfo i).busy
  matched : ∀ i a, (s'.ackInfo i).matched a = (s.ackInfo i).matched a

theorem SameTable.refl (s : Filter) : SameTable s s := ⟨rfl, rfl, fun _ => rfl, fun _ _ => rfl⟩

theorem SameTable.table (h : SameTable s s') (ht : Table s n) : Table s' n where
  count := by rw [h.maxNum, busyNum_congr h.busy, ht.count]
  free i hi := by
    rw [h.busy]
    exact ht.free i (h.freeIndex ▸ hi)
  unique i j a hi hj := ht.unique i j a (h.matched i a ▸ hi) (h.matched j a ▸ hj)

theorem SameTable.located (h : SameTable s s') (hc : c.Located s) : c.Located s' := by
  cases c with
  | rx | move => exact True.intro
  | send m pc =>
    cases pc with
    | enter | lockUpdate | age | check | scale | setScale | weigh | handle => exact True.intro
    | search | alloc => simpa only [Call.Located, h.matched] using hc
    | start => simpa only [Call.Located, h.matched, h.freeIndex, h.busy] using hc

/-- A section that leaves the flow of its entry. -/
theorem sameTable_onEntry (s : Filter) (i : Index) {f : AckInfo → AckInfo}
    (hbusy : (f (s.ackInfo i)).busy = (s.ackInfo i).busy)
    (hmatched : ∀ a, (f (s.ackInfo i)).matched a = (s.ackInfo i).matched a) :
    SameTable s (s.onEntry i f) where
  maxNum := rfl
  freeIndex := rfl
  busy j := by
    by_cases hji : j = i
    · subst hji
      rw [onEntry_self, hbusy]
    · rw [onEntry_ne _ _ hji]
  matched j a := by
    by_cases hji : j = i
    · subst hji
      rw [onEntry_self, hmatched]
    · rw [onEntry_ne _ _ hji]

theorem SameCore.sameTable {f : AckInfo → AckInfo} (h : ∀ e, SameCore e (f e)) (s : Filter)
    (i : Index) : SameTable s (s.onEntry i f) :=
  sameTable_onEntry s i (h _).busy fun a => (h _).matched a

/-! ## Ageing, allocation and initialisation -/

theorem ageEntry_table (ht : Table s n) (i : Index) : Table (s.ageEntry i) n := by
  rw [Filter.ageEntry]
  split
  · rename_i haged
    have hbusy : (s.ackInfo i).busy = true := by
      rw [AckInfo.aged, Bool.and_eq_true] at haged
      exact haged.1
    have hmatched : ∀ j a, ((s.onEntry i AckInfo.recycle).ackInfo j).matched a = true →
        (s.ackInfo j).matched a = true := by
      intro j a hj
      by_cases hji : j = i
      · subst hji
        rw [onEntry_self] at hj
        cases hj
      · rwa [onEntry_ne _ _ hji] at hj
    constructor
    · have hcount := busyNum_onEntry s i AckInfo.recycle
      have hmax := ht.count
      simp only [hbusy, AckInfo.recycle, if_true, Bool.false_eq_true, if_false] at hcount
      change s.maxNum - 1 = ((s.onEntry i AckInfo.recycle).busyNum : ℤ) + n
      omega
    · intro j hj
      cases hj
      exact congrArg AckInfo.busy (onEntry_self s i AckInfo.recycle)
    · exact fun j k a hj hk => ht.unique j k a (hmatched j a hj) (hmatched k a hk)
  · exact ht

/-- An allocation fails exactly if all entries are busy. -/
theorem allocIndex_none_iff (ht : Table s 0) :
    (sprdwlTcpAckAllocIndex s).1 = none ↔ ∀ i, (s.ackInfo i).busy = true := by
  rw [← busyNum_eq_iff]
  have hcount := ht.count
  rw [sprdwlTcpAckAllocIndex]
  split
  · rename_i hmax
    exact iff_of_true rfl (by omega)
  · rename_i hmax
    have hlt : s.busyNum ≠ SPRDWL_TCP_ACK_NUM := by omega
    split
    · exact iff_of_false (by simp) hlt
    · split
      · exact iff_of_false (by simp) hlt
      · rename_i hscan
        refine iff_of_false (fun _ => ?_) hlt
        refine hlt ((busyNum_eq_iff s).mpr fun i => ?_)
        simpa using List.find?_eq_none.mp hscan i (List.mem_finRange i)

theorem allocIndex_table {o : Option Index} (ht : Table s 0)
    (h : sprdwlTcpAckAllocIndex s = (o, s')) : Table s' (if o.isSome then 1 else 0) := by
  have hcount : s.maxNum + 1 = s.busyNum + (1 : ℕ) := by
    have hmax := ht.count
    omega
  rw [sprdwlTcpAckAllocIndex] at h
  split at h
  · cases h
    exact ht
  · split at h
    · cases h
      exact ⟨hcount, fun j hj => (by cases hj), ht.unique⟩
    · split at h
      · cases h
        exact ⟨hcount, ht.free, ht.unique⟩
      · cases h
        exact ht

theorem start_table {a : AckMsg} (ht : Table s 1) (hnone : ∀ j, (s.ackInfo j).matched a = false)
    (hfree : s.freeIndex = none) (hbusy : (s.ackInfo i).busy = false) (maxDropCnt : BitVec 32)
    (jiffies : Jiffies) (winScale : ℕ) :
    Table (s.onEntry i fun e => e.start maxDropCnt jiffies winScale a) 0 where
  count := by
    have hcount := busyNum_onEntry s i fun e => e.start maxDropCnt jiffies winScale a
    have hmax := ht.count
    simp only [hbusy, AckInfo.start, if_true, Bool.false_eq_true, if_false] at hcount
    change s.maxNum = _
    simp only [AckInfo.start]
    omega
  free j hj := by
    rw [onEntry_freeIndex, hfree] at hj
    cases hj
  unique := by
    have hold : ∀ j a', ((s.onEntry i fun e =>
        e.start maxDropCnt jiffies winScale a).ackInfo j).matched a' = true → j ≠ i →
          (s.ackInfo j).matched a' = true := by
      intro j a' hj hji
      rwa [onEntry_ne _ _ hji] at hj
    -- what the new entry matches is what the acknowledgement is of, and no other entry matched it
    have hnew : ∀ j a', ((s.onEntry i fun e =>
        e.start maxDropCnt jiffies winScale a).ackInfo i).matched a' = true → j ≠ i →
          (s.ackInfo j).matched a' = false := by
      intro j a' hi hji
      rw [Bool.eq_false_iff]
      intro hj
      rw [onEntry_self] at hi
      have hflow : a.sameFlow a' = true := (matched_iff.mp hi).2
      obtain ⟨hjbusy, hjflow⟩ := matched_iff.mp hj
      have hmatched : (s.ackInfo j).matched a = true :=
        matched_iff.mpr ⟨hjbusy, AckMsg.sameFlow_trans hjflow (AckMsg.sameFlow_comm hflow)⟩
      rw [hnone j] at hmatched
      cases hmatched
    intro j k a' hj hk
    by_cases hji : j = i
    · by_cases hki : k = i
      · rw [hji, hki]
      · subst hji
        have := hnew k a' hj hki
        rw [hold k a' hk hki] at this
        cases this
    · by_cases hki : k = i
      · subst hki
        have := hnew j a' hk hji
        rw [hold j a' hj hji] at this
        cases this
      · exact ht.unique j k a' (hold j a' hj hji) (hold k a' hk hki)

/-! ## One action -/

theorem Handles.sameTable {new : MsgBuf} {a : AckMsg} {h : Handled}
    (hh : Handles (s.ackInfo i) new a.seq h) : SameTable s (s.onEntry i fun _ => h.entry) :=
  sameTable_onEntry s i hh.busy fun a' => hh.matched a'

theorem sameTable_intfTx (s : Filter) (msgs : List MsgBuf) : SameTable s (s.intfTx msgs) :=
  ⟨rfl, rfl, fun _ => rfl, fun _ _ => rfl⟩

theorem SameTable.dropMsg (h : SameTable s s') (msgs : List MsgBuf) :
    SameTable s (s'.dropMsg msgs) := ⟨h.maxNum, h.freeIndex, h.busy, h.matched⟩

/-- The table and the call after an action. -/
structure Leaves (s' : Filter) (r : Option Call) : Prop where
  table : Table s' (r.elim 0 Call.handedOut)
  located : ∀ d, r = some d → d.Located s'

theorem SameTable.returns (h : SameTable s s') (ht : Table s 0) : Leaves s' none where
  table := h.table ht
  located d hd := by cases hd

theorem SameTable.goesOn (h : SameTable s s') (ht : Table s 0) (hd : c.Located s')
    (hinit : c.initialises = none) : Leaves s' (some c) where
  table := by
    rw [Option.elim_some, Call.handedOut, hinit]
    exact h.table ht
  located d hd' := by
    cases hd'
    exact hd

/-- The scan for a flow has passed one more entry. -/
theorem search_leaves {m : MsgBuf} {a : CheckedAck} (ht : Table s 0)
    (hl : (Call.send m (.search a i)).Located s) (hi : ¬ (s.ackInfo i).matched a.msg = true) :
    Leaves s (some (.send m (i.next.elim (.alloc a) (.search a)))) := by
  have hpassed : ∀ j : Index, j.val ≤ i.val → (s.ackInfo j).matched a.msg = false := by
    intro j hj
    rcases lt_or_eq_of_le hj with hlt | heq
    · exact hl j hlt
    · rw [Fin.ext heq]
      exact Bool.not_eq_true _ ▸ hi
  rw [Index.next]
  split
  · exact (SameTable.refl s).goesOn ht (fun j hj => hpassed j (Nat.lt_succ_iff.mp hj)) rfl
  · rename_i hlast
    refine (SameTable.refl s).goesOn ht (fun j => hpassed j ?_) rfl
    have := j.isLt
    omega

theorem alloc_leaves {m : MsgBuf} {a : CheckedAck} (ht : Table s 0)
    (hl : (Call.send m (.alloc a)).Located s) {o : Option Index}
    (h : sprdwlTcpAckAllocIndex s = (o, s')) :
    Leaves s' (o.map fun i => .send m (.start a i)) := by
  have htable := allocIndex_table ht h
  obtain ⟨hquiet, hfree⟩ := allocIndex_spec h ht.free
  cases o with
  | none => exact ⟨htable, fun d hd => by cases hd⟩
  | some i =>
    refine ⟨htable, fun d hd => ?_⟩
    cases hd
    refine ⟨fun j => ?_, hfree i rfl⟩
    rw [(hquiet.core j).matched]
    exact hl j

theorem Leaves.intfTx {msgs : List MsgBuf} (h : Leaves s' r) : Leaves (s'.intfTx msgs) r where
  table := (sameTable_intfTx s' msgs).table h.table
  located d hd := (sameTable_intfTx s' msgs).located (h.located d hd)

theorem sprdwlFilterSendTcpAck_leaves {m : MsgBuf} {pc : SendPc} {o : Option SendPc}
    (ht : Table s (Call.send m pc).handedOut) (hl : (Call.send m pc).Located s)
    (h : sprdwlFilterSendTcpAck s m pc = .ok (s', o)) : Leaves s' (o.map (Call.send m)) := by
  cases pc with
  | enter =>
    simp only [sprdwlFilterSendTcpAck] at h
    split_ifs at h <;> cases h
    · exact (sameTable_intfTx s _).returns ht
    · exact (SameTable.refl s).goesOn ht True.intro rfl
    · exact (SameTable.refl s).goesOn ht True.intro rfl
  | lockUpdate =>
    simp only [sprdwlFilterSendTcpAck] at h
    split_ifs at h <;> cases h
    · exact (SameTable.refl s).goesOn ht True.intro rfl
    · exact SameTable.goesOn (s := s) ⟨rfl, rfl, fun _ => rfl, fun _ _ => rfl⟩ ht True.intro rfl
  | age i =>
    have haged := ageEntry_table ht i
    simp only [sprdwlFilterSendTcpAck] at h
    split at h <;> cases h
    · exact (SameTable.refl _).goesOn haged True.intro rfl
    · exact SameTable.goesOn (s := s.ageEntry i) ⟨rfl, rfl, fun _ => rfl, fun _ _ => rfl⟩ haged
        True.intro rfl
  | check =>
    obtain ⟨a, _, h⟩ := map_eq_ok.mp h
    split_ifs at h <;> cases h
    · exact (sameTable_intfTx s _).returns ht
    · exact (SameTable.refl s).goesOn ht (fun j hj => absurd hj (Fin.not_lt_zero j)) rfl
  | search a i =>
    simp only [sprdwlFilterSendTcpAck] at h
    split at h
    · cases h
      exact (SameTable.refl s).goesOn ht True.intro rfl
    · rename_i hmatched
      have hleaves := search_leaves ht hl hmatched
      split at h <;> cases h
      all_goals
        rename_i hnext
        rwa [hnext] at hleaves
  | scale a i =>
    simp only [sprdwlFilterSendTcpAck] at h
    split_ifs at h <;> cases h
    all_goals exact (SameTable.refl s).goesOn ht True.intro rfl
  | setScale a i =>
    cases h
    exact (SameCore.sameTable (f := fun e => e.rescale a.winScale) (fun e => ⟨rfl, rfl, rfl⟩) s
      i).goesOn ht True.intro rfl
  | weigh a i =>
    simp only [sprdwlFilterSendTcpAck] at h
    split_ifs at h <;> cases h
    · exact (SameTable.refl s).goesOn ht True.intro rfl
    · exact (sameTable_intfTx s _).returns ht
  | handle a i type =>
    have hsame := (tcpAckHandle_handles (s.ackInfo i) s.maxDropCnt s.jiffies m a.msg type).sameTable
    simp only [sprdwlFilterSendTcpAck, Except.ok.injEq, Prod.mk.injEq] at h
    obtain ⟨rfl, rfl⟩ := h
    split
    · exact (hsame.dropMsg _).returns ht
    · exact ((hsame.dropMsg _).returns ht).intfTx
  | alloc a =>
    simp only [sprdwlFilterSendTcpAck] at h
    split at h
    · cases h
      exact (SameTable.refl s).goesOn ht hl rfl
    · split at h <;> cases h
      · rename_i halloc
        exact alloc_leaves ht hl halloc
      · rename_i halloc
        exact (alloc_leaves ht hl halloc).intfTx
  | start a i =>
    cases h
    have htable := start_table ht hl.1 hl.2.1 hl.2.2 s.maxDropCnt s.jiffies a.winScale
    exact (sameTable_intfTx _ _).returns htable

theorem act_leaves (ht : Table s c.handedOut) (hl : c.Located s) (h : act s c = .ok (s', r)) :
    Leaves s' r := by
  cases c with
  | send m pc =>
    obtain ⟨o, ho, h⟩ := map_eq_ok.mp h
    cases h
    exact sprdwlFilterSendTcpAck_leaves ht hl ho
  | rx pc =>
    obtain ⟨o, ho, h⟩ := map_eq_ok.mp h
    cases h
    have hsame : SameTable s o.1 := by
      cases pc with
      | enter buf plen =>
        simp only [sprdwlFilterRxTcpAck] at ho
        split at ho
        · cases ho
          exact .refl s
        · obtain ⟨_, _, rfl⟩ := map_eq_ok.mp ho
          exact .refl s
      | search a i =>
        simp only [sprdwlFilterRxTcpAck] at ho
        split at ho <;> cases ho <;> exact .refl s
      | push a i =>
        cases ho
        exact SameCore.sameTable (f := fun e => e.push a.seq) (fun _ => ⟨rfl, rfl, rfl⟩) s i
    cases o.2 with
    | none => exact hsame.returns ht
    | some pc' => exact hsame.goesOn ht True.intro rfl
  | move msg pc =>
    have hsame : SameTable s (sprdwlMoveTcpackMsg s msg pc).1 := by
      cases pc with
      | enter =>
        rw [sprdwlMoveTcpackMsg]
        split <;> exact .refl s
      | sweep i => exact SameCore.sameTable (fun e => moved_core e msg) s i
    cases h
    cases (sprdwlMoveTcpackMsg s msg pc).2 with
    | none => exact hsame.returns ht
    | some pc' => exact hsame.goesOn ht True.intro rfl

/-! ## Steps and runs -/

/-- A call begins only when no other is in progress. -/
def beginsAlone (s : State) : Event → Bool
  | .send _ | .receive .. | .move _ => s.calls.isEmpty
  | .advance _ | .tick _ | .expire _ | .timeout _ => true

theorem TableInv.begin {s : State} (h : TableInv s) (hnone : s.calls = [])
    (hinit : c.initialises = none) (hc : c.Located s.shared) :
    TableInv ⟨s.shared, s.calls ++ [c]⟩ where
  single := by simp [hnone]
  table := by
    have ht := h.table
    rw [hnone] at ht ⊢
    simpa [Call.handedOut, hinit] using ht
  located d hd := by
    simp only [hnone, List.nil_append, List.mem_singleton] at hd
    exact hd ▸ hc

theorem TableInv.outside {s : State} (h : TableInv s) {t : Filter} (ht : SameTable s.shared t) :
    TableInv ⟨t, s.calls⟩ where
  single := h.single
  table := ht.table h.table
  located d hd := ht.located (h.located d hd)

theorem runTimer_sameTable (s : Filter) (i : Index) : SameTable s (s.runTimer i) := by
  rw [Filter.runTimer]
  split
  · obtain ⟨hbusy, hmsg⟩ := (sprdwlTcpAckTimeout_timesOut (s.ackInfo i)).core
    have hsame := sameTable_onEntry s i (f := fun e => (sprdwlTcpAckTimeout e).1) hbusy
      fun a => by rw [AckInfo.matched, AckInfo.matched, hbusy, hmsg]
    exact ⟨hsame.maxNum, hsame.freeIndex, hsame.busy, hsame.matched⟩
  · exact .refl s

theorem step_table {s s' : State} {e : Event} (h : TableInv s) (hone : beginsAlone s e = true)
    (hs : step s e = .ok s') : TableInv s' := by
  cases e with
  | send m | receive buf plen | move m =>
    cases hs
    exact h.begin (List.isEmpty_iff.mp hone) rfl True.intro
  | tick n =>
    cases hs
    exact h.outside ⟨rfl, rfl, fun _ => rfl, fun _ _ => rfl⟩
  | expire i =>
    cases hs
    exact h.outside (SameCore.sameTable expire_core s.shared i)
  | timeout i =>
    cases hs
    exact h.outside (runTimer_sameTable s.shared i)
  | advance k =>
    rcases advance_cases hs with ⟨rfl, _⟩ | ⟨c, r, hk, hact, hcalls⟩
    · exact h
    · -- the call that acts is the only one
      have honly : s.calls = [c] ∧ k = 0 := by
        have hlt := (List.getElem?_eq_some_iff.mp hk).1
        have hsingle := h.single
        obtain ⟨d, hd⟩ := List.length_eq_one_iff.mp (show s.calls.length = 1 by omega)
        have hzero : k = 0 := by omega
        rw [hd, hzero] at hk
        exact ⟨hd.trans (congrArg (fun c => [c]) (Option.some.inj hk)), hzero⟩
      obtain ⟨honly, rfl⟩ := honly
      have ht := h.table
      rw [honly, List.map_singleton, List.sum_singleton] at ht
      have hleaves := act_leaves ht (h.located c (honly ▸ List.mem_singleton_self c)) hact
      rw [honly] at hcalls
      cases r with
      | none =>
        refine ⟨by simp [hcalls, settle], ?_, fun d hd => ?_⟩
        · simpa [hcalls, settle] using hleaves.table
        · simp [hcalls, settle] at hd
      | some d =>
        refine ⟨by simp [hcalls, settle], ?_, fun d' hd' => ?_⟩
        · simpa [hcalls, settle] using hleaves.table
        · simp only [hcalls, settle, List.set_cons_zero, List.mem_singleton] at hd'
          exact hd' ▸ hleaves.located d rfl

theorem init_table (now oldTime : Jiffies) : TableInv (State.init now oldTime) where
  single := Nat.zero_le 1
  table := by
    refine ⟨?_, fun _ _ => rfl, fun i j a hi => by cases hi⟩
    simp [State.init, sprdwlTcpAckInit, Filter.busyNum]
  located c hc := by cases hc

theorem Call.Located.busyNum_le (h : c.Located s) : s.busyNum + c.handedOut ≤ SPRDWL_TCP_ACK_NUM := by
  have hle := TcpAck.busyNum_le s
  cases c with
  | rx | move => exact hle
  | send m pc =>
    cases pc with
    | start a i => exact busyNum_lt h.2.2
    | enter | lockUpdate | age | check | search | scale | setScale | weigh | handle | alloc =>
      exact hle

theorem TableInv.busyNum_le {s : State} (h : TableInv s) :
    s.shared.busyNum + (s.calls.map Call.handedOut).sum ≤ SPRDWL_TCP_ACK_NUM := by
  have hsingle := h.single
  match hcalls : s.calls with
  | [] => exact TcpAck.busyNum_le s.shared
  | [c] =>
    rw [List.map_singleton, List.sum_singleton]
    exact (h.located c (hcalls ▸ List.mem_singleton_self c)).busyNum_le
  | c :: d :: rest =>
    rw [hcalls, List.length_cons, List.length_cons] at hsingle
    omega

/-- With one call at a time the table is right in every state: `max_num` counts the busy
entries and the one handed out, `free_index` is not busy, a flow has one entry, and an
allocation fails exactly if all entries are busy. -/
theorem tcp_ack_table {now oldTime : Jiffies} {es : List Event} {s : State}
    (hr : run step (State.init now oldTime) es = .ok s)
    (hone : Along step (fun s e => beginsAlone s e = true) (State.init now oldTime) es) :
    s.shared.maxNum = s.shared.busyNum + (s.calls.map Call.handedOut).sum ∧
      (s.calls = [] → s.shared.maxNum = s.shared.busyNum) ∧
      s.shared.maxNum ≤ SPRDWL_TCP_ACK_NUM ∧
      (∀ i, s.shared.freeIndex = some i → (s.shared.ackInfo i).busy = false) ∧
      (∀ i j, (s.shared.ackInfo i).busy = true → (s.shared.ackInfo j).busy = true →
        (s.shared.ackInfo i).ackMsg.sameFlow (s.shared.ackInfo j).ackMsg = true → i = j) ∧
      ∀ m a, s.calls = [.send m (.alloc a)] →
        ((sprdwlTcpAckAllocIndex s.shared).1 = none ↔ ∀ i, (s.shared.ackInfo i).busy = true) := by
  have h := run_invariant (fun _ _ _ h hone hs => step_table h hone hs) (init_table now oldTime)
    hone hr
  refine ⟨h.table.count, fun hnone => ?_, ?_, h.table.free, ?_, fun m a hcalls => ?_⟩
  · have hcount := h.table.count
    simpa [hnone] using hcount
  · rw [h.table.count]
    exact_mod_cast h.busyNum_le
  · intro i j hi hj hflow
    exact h.table.unique i j _ (matched_iff.mpr ⟨hi, hflow⟩)
      (matched_iff.mpr ⟨hj, AckMsg.sameFlow_iff.mpr ⟨rfl, rfl, rfl, rfl⟩⟩)
  · have ht := h.table
    rw [hcalls] at ht
    exact allocIndex_none_iff ht

/-- Two flows begin, and age out when a third one begins. -/
def threeFlows : List Event :=
  List.flatten [[.send (ackMsgBuf 7 10 [])], searchAll 0,
    [.advance 0, .send (ackMsgBuf 8 20 [])], searchAll 0,
    [.advance 0, .tick 5000, .send (ackMsgBuf 9 5 [])], List.replicate 69 (.advance 0)]

theorem threeFlows_ends :
    (run step (State.init 0 4000) threeFlows).map (fun s =>
      (s.calls, (s.shared.ackInfo 0).busy, (s.shared.ackInfo 1).busy)) = .ok ([], true, false) := by
  decide +kernel

theorem tcp_ack_table_three_flows : ∃ s, run step (State.init 0 4000) threeFlows = .ok s ∧
    (s.shared.ackInfo 0).busy = true ∧ (s.shared.ackInfo 1).busy = false ∧
      s.shared.maxNum = s.shared.busyNum := by
  obtain ⟨s, hs, h⟩ := map_eq_ok.mp threeFlows_ends
  obtain ⟨hcalls, hbusy⟩ := Prod.mk.inj h
  obtain ⟨hfirst, hsecond⟩ := Prod.mk.inj hbusy
  exact ⟨s, hs, hfirst, hsecond, (tcp_ack_table hs (by decide +kernel)).2.1 hcalls⟩

end Uwe5631.TcpAck
