import Uwe5631.TcpAckFilter

/-!
# Conservation of acknowledgements

Every message given to the filter is, in every interleaving, carried by a call that has not
decided on it, passed on, held by an entry, or dropped.
-/
namespace Uwe5631.TcpAck
open FallibleRuns InterleavedCalls

variable {s s' : Filter} {i : Index} {m : MsgBuf}

/-- A change of one entry moves a sum over the entries by the change of its term. -/
theorem sum_onEntry (w : AckInfo → ℕ) (s : Filter) (i : Index) (f : AckInfo → AckInfo) :
    ∑ j, w ((s.onEntry i f).ackInfo j) + w (s.ackInfo i) =
      ∑ j, w (s.ackInfo j) + w (f (s.ackInfo i)) := by
  have hrest : ∑ j ∈ Finset.univ.erase i, w ((s.onEntry i f).ackInfo j) =
      ∑ j ∈ Finset.univ.erase i, w (s.ackInfo j) := by
    refine Finset.sum_congr rfl fun j hj => ?_
    rw [onEntry_ne _ _ (Finset.ne_of_mem_erase hj)]
  rw [← Finset.add_sum_erase _ _ (Finset.mem_univ i), hrest, onEntry_self,
    ← Finset.add_sum_erase _ (fun j => w (s.ackInfo j)) (Finset.mem_univ i)]
  omega

/-- How often an entry holds a message. -/
def AckInfo.holds (m : MsgBuf) (e : AckInfo) : ℕ := e.msgbuf.toList.count m

/-- How often the filter has a message or has let it out. -/
def Filter.load (m : MsgBuf) (s : Filter) : ℕ :=
  s.sent.count m + ∑ i, (s.ackInfo i).holds m + s.freed.count m

/-- How often a call carries a message it has not decided on. -/
def Call.carries (m : MsgBuf) : Call → ℕ
  | .send b _ => [b].count m
  | .rx _ | .move _ _ => 0

/-- How often a message is in the filter, in its calls, or was let out. -/
def State.load (m : MsgBuf) (s : State) : ℕ :=
  (s.calls.map (Call.carries m)).sum + s.shared.load m

@[simp] theorem load_intfTx (s : Filter) (msgs : List MsgBuf) :
    (s.intfTx msgs).load m = s.load m + msgs.count m := by
  simp only [Filter.load, intfTx_sent, intfTx_ackInfo, intfTx_freed, List.count_append]
  omega

@[simp] theorem load_dropMsg (s : Filter) (msgs : List MsgBuf) :
    (s.dropMsg msgs).load m = s.load m + msgs.count m := by
  simp only [Filter.load, dropMsg_sent, dropMsg_ackInfo, dropMsg_freed, List.count_append]
  omega

theorem load_onEntry (s : Filter) (i : Index) (f : AckInfo → AckInfo) :
    (s.onEntry i f).load m + (s.ackInfo i).holds m = s.load m + (f (s.ackInfo i)).holds m := by
  have := sum_onEntry (AckInfo.holds m) s i f
  simp only [Filter.load, onEntry_sent, onEntry_freed]
  omega

/-- A section that leaves `msgbuf` alone. -/
theorem load_onEntry_same (s : Filter) (i : Index) {f : AckInfo → AckInfo}
    (h : ∀ e, (f e).msgbuf = e.msgbuf) : (s.onEntry i f).load m = s.load m := by
  have hload := load_onEntry (m := m) s i f
  simp only [AckInfo.holds, h] at hload
  omega

/-- The new message and the held one are held, dropped or transmitted. -/
theorem Handles.holds {e : AckInfo} {new : MsgBuf} {seq : BitVec 32} {r : Handled}
    (h : Handles e new seq r) (m : MsgBuf) :
    r.entry.holds m + r.dropMsg.toList.count m + (if r.ret then 0 else [new].count m) =
      e.holds m + [new].count m := by
  cases h with
  | refused _ _ _ hmsgbuf _ _ hdrop hret =>
    simp [AckInfo.holds, hmsgbuf, hdrop, hret]
  | passed _ _ _ hmsgbuf hdrop hret =>
    simp [AckInfo.holds, hmsgbuf, hdrop, hret]
  | held _ _ _ hmsgbuf _ hdrop hret =>
    simp [AckInfo.holds, hmsgbuf, hdrop, hret, Nat.add_comm]

theorem TimesOut.holds {e : AckInfo} {r : AckInfo × Option MsgBuf} (h : TimesOut e r)
    (m : MsgBuf) : r.1.holds m + r.2.toList.count m = e.holds m := by
  cases h with
  | sent msg _ _ hmsgbuf hentry hout => simp [AckInfo.holds, hmsgbuf, hentry, hout]
  | idle _ hentry hout => simp [AckInfo.holds, hentry, hout]

theorem load_congr (hsent : s'.sent = s.sent) (hinfo : s'.ackInfo = s.ackInfo)
    (hfreed : s'.freed = s.freed) : s'.load m = s.load m := by
  rw [Filter.load, Filter.load, hsent, hinfo, hfreed]

theorem ageEntry_load (s : Filter) (i : Index) : (s.ageEntry i).load m = s.load m := by
  rw [Filter.ageEntry]
  split
  · exact (load_congr (s := s.onEntry i AckInfo.recycle) rfl rfl rfl).trans
      (load_onEntry_same s i fun _ => rfl)
  · rfl

/-- What an allocation leaves as it is. -/
theorem allocIndex_same {o : Option Index} (h : sprdwlTcpAckAllocIndex s = (o, s')) :
    s'.sent = s.sent ∧ s'.ackInfo = s.ackInfo ∧ s'.freed = s.freed := by
  rw [sprdwlTcpAckAllocIndex] at h
  split at h
  · cases h
    exact ⟨rfl, rfl, rfl⟩
  · split at h
    · cases h
      exact ⟨rfl, rfl, rfl⟩
    · split at h
      · cases h
        exact ⟨rfl, rfl, rfl⟩
      · cases h
        exact ⟨rfl, rfl, rfl⟩

/-- An action of a sending call keeps the count, the message of the call included. -/
theorem sprdwlFilterSendTcpAck_load {b : MsgBuf} {pc : SendPc} {o : Option SendPc}
    (h : sprdwlFilterSendTcpAck s b pc = .ok (s', o)) :
    s'.load m + (o.elim 0 fun _ => [b].count m) = s.load m + [b].count m := by
  cases pc with
  | enter =>
    simp only [sprdwlFilterSendTcpAck] at h
    split_ifs at h <;> cases h <;> simp
  | lockUpdate =>
    simp only [sprdwlFilterSendTcpAck] at h
    split_ifs at h <;> cases h <;> rfl
  | age i =>
    simp only [sprdwlFilterSendTcpAck] at h
    split at h
    · cases h
      exact congrArg (· + [b].count m) (ageEntry_load s i)
    · cases h
      exact congrArg (· + [b].count m) ((load_congr rfl rfl rfl).trans (ageEntry_load s i))
  | check =>
    obtain ⟨c, _, h⟩ := map_eq_ok.mp h
    split_ifs at h <;> cases h <;> simp
  | search c i =>
    simp only [sprdwlFilterSendTcpAck] at h
    split at h
    · cases h
      rfl
    · split at h <;> cases h <;> rfl
  | scale c i =>
    simp only [sprdwlFilterSendTcpAck] at h
    split_ifs at h <;> cases h <;> rfl
  | setScale c i =>
    cases h
    exact congrArg (· + [b].count m)
      (load_onEntry_same s i (f := fun e => e.rescale c.winScale) fun _ => rfl)
  | weigh c i =>
    simp only [sprdwlFilterSendTcpAck] at h
    split_ifs at h <;> cases h <;> simp
  | handle c i type =>
    have hholds := (tcpAckHandle_handles (s.ackInfo i) s.maxDropCnt s.jiffies b c.msg type).holds m
    have hentry := load_onEntry (m := m) s i fun _ =>
      (tcpAckHandle (s.ackInfo i) s.maxDropCnt s.jiffies b c.msg type).entry
    simp only [sprdwlFilterSendTcpAck, Except.ok.injEq, Prod.mk.injEq] at h
    rcases h with ⟨rfl, rfl⟩
    split_ifs at hholds ⊢ <;> simp <;> omega
  | alloc c =>
    simp only [sprdwlFilterSendTcpAck] at h
    split_ifs at h
    · cases h
      rfl
    · split at h
      · rename_i i t halloc
        obtain ⟨hsent, hinfo, hfreed⟩ := allocIndex_same halloc
        cases h
        rw [load_congr hsent hinfo hfreed]
        rfl
      · rename_i t halloc
        obtain ⟨hsent, hinfo, hfreed⟩ := allocIndex_same halloc
        cases h
        rw [load_intfTx, load_congr hsent hinfo hfreed, Option.elim_none, Nat.add_zero]
  | start c i =>
    cases h
    rw [load_intfTx, load_onEntry_same s i
      (f := fun e => e.start s.maxDropCnt s.jiffies c.winScale c.msg) fun _ => rfl,
      Option.elim_none, Nat.add_zero]

theorem sprdwlFilterRxTcpAck_load {pc : RxPc} {o : Option RxPc}
    (h : sprdwlFilterRxTcpAck s pc = .ok (s', o)) : s'.load m = s.load m := by
  cases pc with
  | enter buf plen =>
    simp only [sprdwlFilterRxTcpAck] at h
    split at h
    · cases h
      rfl
    · obtain ⟨ackMsg, _, h⟩ := map_eq_ok.mp h
      cases h
      rfl
  | search ackMsg i =>
    simp only [sprdwlFilterRxTcpAck] at h
    split at h <;> cases h <;> rfl
  | push ackMsg i =>
    cases h
    exact load_onEntry_same s i fun _ => rfl

theorem moved_msgbuf (e : AckInfo) (msg : MsgBuf) : (e.moved msg).msgbuf = e.msgbuf := by
  rw [AckInfo.moved]
  split <;> rfl

theorem sprdwlMoveTcpackMsg_load (s : Filter) (b : MsgBuf) (pc : MovePc) :
    (sprdwlMoveTcpackMsg s b pc).1.load m = s.load m := by
  cases pc with
  | enter =>
    simp only [sprdwlMoveTcpackMsg]
    split <;> rfl
  | sweep i => exact load_onEntry_same s i (f := fun e => e.moved b) fun e => moved_msgbuf e b

theorem act_load {c : Call} {r : Option Call} (h : act s c = .ok (s', r)) :
    s'.load m + (r.toList.map (Call.carries m)).sum = s.load m + c.carries m := by
  cases c with
  | send b pc =>
    obtain ⟨⟨t, o⟩, ht, h⟩ := map_eq_ok.mp h
    cases h
    have hload := sprdwlFilterSendTcpAck_load (m := m) ht
    cases o with
    | none => exact hload
    | some pc' => simpa [Call.carries] using hload
  | rx pc =>
    obtain ⟨⟨t, o⟩, ht, h⟩ := map_eq_ok.mp h
    cases h
    have hload := sprdwlFilterRxTcpAck_load (m := m) ht
    cases o <;> simpa [Call.carries] using hload
  | move b pc =>
    cases h
    have hload := sprdwlMoveTcpackMsg_load (m := m) s b pc
    cases (sprdwlMoveTcpackMsg s b pc).2 <;> simpa [Call.carries] using hload

/-! ## Steps and runs -/

/-- The message an event gives to the filter. -/
def Event.given : Event → Option MsgBuf
  | .send msgbuf => some msgbuf
  | .receive .. | .move _ | .advance _ | .tick _ | .expire _ | .timeout _ => none

def given (es : List Event) : List MsgBuf := es.filterMap Event.given

theorem runTimer_load (s : Filter) (i : Index) : (s.runTimer i).load m = s.load m := by
  rw [Filter.runTimer]
  split
  · have hholds := (sprdwlTcpAckTimeout_timesOut (s.ackInfo i)).holds m
    have hentry := load_onEntry (m := m) s i fun e => (sprdwlTcpAckTimeout e).1
    rw [load_intfTx]
    omega
  · rfl

theorem expire_msgbuf (e : AckInfo) : e.expire.msgbuf = e.msgbuf := by
  rw [AckInfo.expire]
  split <;> rfl

theorem step_load {t t' : State} {ev : Event} (h : step t ev = .ok t') :
    t'.load m = t.load m + ev.given.toList.count m := by
  cases ev with
  | send b =>
    cases h
    simp only [State.load, List.map_append, List.sum_append, Event.given, Option.toList_some,
      List.map_cons, List.map_nil, List.sum_singleton, Call.carries]
    omega
  | receive buf plen =>
    cases h
    simp [State.load, Event.given, Call.carries]
  | move b =>
    cases h
    simp [State.load, Event.given, Call.carries]
  | advance k =>
    rcases advance_cases h with ⟨rfl, _⟩ | ⟨c, r, hk, hact, hcalls⟩
    · rfl
    · have hsum := sum_settle (r := r) (Call.carries m) hk
      have hload := act_load (m := m) hact
      simp only [State.load, hcalls, Event.given, Option.toList_none, List.count_nil]
      omega
  | tick n =>
    cases h
    rfl
  | expire i =>
    cases h
    simp only [State.load, Event.given, Option.toList_none, List.count_nil, Nat.add_zero,
      load_onEntry_same t.shared i expire_msgbuf]
  | timeout i =>
    cases h
    simp only [State.load, Event.given, Option.toList_none, List.count_nil, Nat.add_zero,
      runTimer_load]

theorem run_load {t t' : State} {es : List Event} (h : run step t es = .ok t') :
    t'.load m = t.load m + (given es).count m := by
  induction es generalizing t with
  | nil =>
    cases h
    rfl
  | cons ev es ih =>
    obtain ⟨u, hu, h⟩ := bind_eq_ok.mp h
    rw [ih h, step_load hu, Nat.add_assoc, ← List.count_append]
    congr 2
    cases hev : ev.given <;> simp [given, hev]

/-- A message is in exactly one state: a call has not decided on it, it was passed on, one
entry holds it, or it was dropped. -/
inductive InOneState (m : MsgBuf) (t : State) : Prop
  | undecided (h : (t.calls.map (Call.carries m)).sum = 1) (hs : m ∉ t.shared.sent)
      (he : ∀ i, (t.shared.ackInfo i).msgbuf ≠ some m) (hf : m ∉ t.shared.freed)
  | sent (h : t.shared.sent.count m = 1) (hc : ∀ c ∈ t.calls, c.carries m = 0)
      (he : ∀ i, (t.shared.ackInfo i).msgbuf ≠ some m) (hf : m ∉ t.shared.freed)
  | held (i : Index) (h : (t.shared.ackInfo i).msgbuf = some m)
      (he : ∀ j, (t.shared.ackInfo j).msgbuf = some m → j = i)
      (hc : ∀ c ∈ t.calls, c.carries m = 0) (hs : m ∉ t.shared.sent) (hf : m ∉ t.shared.freed)
  | freed (h : t.shared.freed.count m = 1) (hc : ∀ c ∈ t.calls, c.carries m = 0)
      (hs : m ∉ t.shared.sent) (he : ∀ i, (t.shared.ackInfo i).msgbuf ≠ some m)

theorem holds_eq_zero_iff {e : AckInfo} : e.holds m = 0 ↔ e.msgbuf ≠ some m := by
  cases h : e.msgbuf with
  | none => simp [AckInfo.holds, h]
  | some b => simp [AckInfo.holds, h, List.count_eq_zero, eq_comm]

theorem carries_eq_zero {calls : List Call} (h : (calls.map (Call.carries m)).sum = 0) :
    ∀ c ∈ calls, c.carries m = 0 := by
  intro c hc
  exact List.sum_eq_zero_iff_forall_eq_nat.mp h _ (List.mem_map_of_mem hc)

/-- One message in all entries is the message of one entry. -/
theorem held_once (h : ∑ i, (s.ackInfo i).holds m = 1) :
    ∃ i, (s.ackInfo i).msgbuf = some m ∧ ∀ j, (s.ackInfo j).msgbuf = some m → j = i := by
  obtain ⟨i, _, hi⟩ := Finset.exists_ne_zero_of_sum_ne_zero (by rw [h]; exact Nat.one_ne_zero)
  refine ⟨i, not_not.mp fun hne => hi (holds_eq_zero_iff.mpr hne), fun j hj => ?_⟩
  by_contra hji
  have hj' : (s.ackInfo j).holds m ≠ 0 := fun hz => holds_eq_zero_iff.mp hz hj
  have hsplit := Finset.add_sum_erase Finset.univ (fun k => (s.ackInfo k).holds m)
    (Finset.mem_univ i)
  have hle : (s.ackInfo j).holds m ≤ ∑ k ∈ Finset.univ.erase i, (s.ackInfo k).holds m :=
    Finset.single_le_sum (f := fun k => (s.ackInfo k).holds m) (fun _ _ => Nat.zero_le _)
      (Finset.mem_erase.mpr ⟨hji, Finset.mem_univ j⟩)
  omega

theorem inOneState_of_load {t : State} (h : t.load m = 1) : InOneState m t := by
  simp only [State.load, Filter.load] at h
  have hzero : ∑ i, (t.shared.ackInfo i).holds m = 0 →
      ∀ i, (t.shared.ackInfo i).msgbuf ≠ some m := fun hsum i =>
    holds_eq_zero_iff.mp (Finset.sum_eq_zero_iff.mp hsum i (Finset.mem_univ i))
  have hnot : ∀ l : List MsgBuf, l.count m = 0 → m ∉ l := fun l => List.count_eq_zero.mp
  rcases Nat.eq_zero_or_pos ((t.calls.map (Call.carries m)).sum) with hc | hc
  · rcases Nat.eq_zero_or_pos (∑ i, (t.shared.ackInfo i).holds m) with he | he
    · rcases Nat.eq_zero_or_pos (t.shared.sent.count m) with hs | hs
      · exact .freed (by omega) (carries_eq_zero hc) (hnot _ hs) (hzero he)
      · exact .sent (by omega) (carries_eq_zero hc) (hzero he) (hnot _ (by omega))
    · obtain ⟨i, hi, honly⟩ := held_once (s := t.shared) (m := m) (by omega)
      exact .held i hi honly (carries_eq_zero hc) (hnot _ (by omega)) (hnot _ (by omega))
  · exact .undecided (by omega) (hnot _ (by omega)) (hzero (by omega)) (hnot _ (by omega))

theorem init_load (now oldTime : Jiffies) : (State.init now oldTime).load m = 0 := by
  simp [State.init, sprdwlTcpAckInit, State.load, Filter.load, AckInfo.holds]

end Uwe5631.TcpAck
