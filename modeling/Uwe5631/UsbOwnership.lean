import Uwe5631.LinkedChains
import Uwe5631.UsbTransferPool
import Uwe5631.UsbRxRequests

/-!
# Who has the mbufs that go over USB

`wcn_usb_sent_mbuf` submits one transfer for each mbuf of a list. A packet whose length asks for it is
followed by a packet of one byte, and `wcn_usb_packet_submit` returns what the second one met.
-/
namespace Uwe5631.UsbTx
open LinkedChains UsbRx

abbrev MbufAddr := ℕ
abbrev EIO : ℤ := 5
abbrev EINVAL : ℤ := 22

/-- `struct wcn_usb_ep` -/
structure Ep where
  isInt : Bool
  isBulk : Bool
  dirIn : Bool
  packetMax : ℕ

/-- What the transfer of an mbuf meets: the pool, the error numbers of the calls, 0 for none, and the
allocations of the packet of one byte. -/
structure Attempt where
  pool : UsbPool.Pool
  bind : ℤ
  setBuf : ℤ
  /-- the packet, the callback and the end point are there -/
  given : Bool
  bufSize : ℕ
  hold : ℤ
  errorHappen : Bool
  submit : ℤ
  zlpBuf : Bool
  zlpUrb : Bool
  zlpSubmit : ℤ

/-- `wcn_usb_need_zlp` -/
def needZlp (ep : Ep) (bufSize : ℕ) : Bool :=
  (ep.isInt || ep.isBulk) && !ep.dirIn && bufSize % ep.packetMax == 0

/-- `wcn_usb_send_zlp` -/
def sendZlp (a : Attempt) : ℤ :=
  if a.zlpBuf = false then -ENOMEM else if a.zlpUrb = false then -ENOMEM else a.zlpSubmit

/-- `wcn_usb_packet_submit`, with whether the URB of the packet is in flight. -/
def packetSubmit (ep : Ep) (a : Attempt) : ℤ × Bool :=
  if a.given = false then (-EINVAL, false)
  else if a.hold ≠ 0 then (a.hold, false)
  else if a.errorHappen then (- EIO, false)
  else if needZlp ep a.bufSize then (sendZlp a, a.submit == 0)
  else (a.submit, a.submit == 0)

/-- `struct wcn_usb_rx_tx` -/
structure Transfer where
  obj : UsbPool.RxTx
  list : Chain MbufAddr
  channel : ℕ

/-- What `wcn_usb_deal_partial_fail` does with a list. -/
inductive Disposal where
  | popLink (list : Chain MbufAddr)
  | destroy (list : Chain MbufAddr)

def Disposal.list : Disposal → Chain MbufAddr
  | .popLink list => list
  | .destroy list => list

/-- `wcn_usb_deal_partial_fail`; `popLink` is set if the user has the operation. -/
def dealPartialFail (chn : ℕ) (popLink : Bool) (list : Chain MbufAddr) : Disposal :=
  if ¬ wcnUsbChannelIsRx chn ∧ popLink = true then .popLink list else .destroy list

/-- Where `wcn_usb_sent_mbuf` leaves the mbufs: in transfers that are in flight, or with
`wcn_usb_deal_partial_fail`. -/
structure Sent where
  ret : ℤ
  next : MbufAddr → Option MbufAddr
  flying : List Transfer
  freed : Option UsbPool.RxTx
  failed : Option Disposal

section Send
variable (ep : Ep) (chn : ℕ) (popLink : Bool) (env : MbufAddr → Attempt)

/-- The loop of `wcn_usb_sent_mbuf`; the first number is `num + 1`. -/
def sentLoop (tail : Option MbufAddr) :
    ℕ → (MbufAddr → Option MbufAddr) → Option MbufAddr → Except UsbPool.Fault Sent
  | 0, next, _ => .ok ⟨0, next, [], none, none⟩
  | _ + 1, next, none => .ok ⟨0, next, [], none, none⟩
  | num + 1, next, some mbuf =>
    (UsbPool.zalloc (env mbuf).pool).bind fun r =>
      match r.1 with
      | none =>
        .ok ⟨0, next, [], none, some (dealPartialFail chn popLink ⟨some mbuf, tail, num⟩)⟩
      | some obj =>
        if (env mbuf).bind ≠ 0 ∨ (env mbuf).setBuf ≠ 0 then
          .ok ⟨0, next, [], some obj, some (dealPartialFail chn popLink ⟨some mbuf, tail, num⟩)⟩
        else
          let flying := if (packetSubmit ep (env mbuf)).2 then
            [⟨obj, ⟨some mbuf, some mbuf, 1⟩, chn⟩] else []
          if (packetSubmit ep (env mbuf)).1 ≠ 0 then
            -- the mbuf is pushed back to the list
            .ok ⟨0, Function.update next mbuf (next mbuf), flying, some obj,
              some (dealPartialFail chn popLink ⟨some mbuf, tail, num⟩)⟩
          else
            (sentLoop tail num next (next mbuf)).map fun s => { s with flying := flying ++ s.flying }

end Send

/-- `wcn_usb_sent_mbuf` -/
def sentMbuf (ep : Option Ep) (chn : ℕ) (popLink : Bool) (env : MbufAddr → Attempt)
    (next : MbufAddr → Option MbufAddr) (list : Chain MbufAddr) : Except UsbPool.Fault Sent :=
  match ep with
  | none => .ok ⟨-ENODEV, next, [], none, none⟩
  | some ep => sentLoop ep chn popLink env list.tail (list.num + 1) next list.head

/-! ## Completion -/

def WIFIDATA_OUT_ALIGNMENT : ℕ := 1600
def WIFIDATA_IN_ALIGNMENT : ℕ := 1620
def TRANSF_ALIGNMENT_MAX : ℕ := 1672

def alignmentComm (chn : ℕ) : ℕ :=
  if chn = 6 then WIFIDATA_OUT_ALIGNMENT
  else if chn = 22 then WIFIDATA_IN_ALIGNMENT
  else if chn = 25 then 20
  else TRANSF_ALIGNMENT_MAX

/-- `mbuf_list_iter` without a body: the node where it stops, and its number. -/
def mbufListIter (next : MbufAddr → Option MbufAddr) :
    ℕ → Option MbufAddr → ℕ → Option MbufAddr × ℕ
  | 0, pos, n => (pos, n)
  | _ + 1, none, n => (none, n)
  | num + 1, some pos, n => mbufListIter next num (next pos) (n + 1)

/-- What `wcn_usb_rx_tx_parse` hands on and what it destroys. -/
structure Parsed where
  ret : ℤ
  next : MbufAddr → Option MbufAddr
  given : Chain MbufAddr
  destroyed : Option (Chain MbufAddr)

/-- The end of `wcn_usb_rx_tx_parse`, with the list that the transfer still has. -/
def parseOut (ret : ℤ) (next : MbufAddr → Option MbufAddr) (given left : Chain MbufAddr) : Parsed where
  ret := ret
  next := next
  given := given
  destroyed := if left.num = 0 then none else some left

/-- The node that the last byte of a reception is in. -/
def lastReceived (next : MbufAddr → Option MbufAddr) (x : Transfer) (recvLen : ℕ) :
    Option MbufAddr × ℕ :=
  -- no channel is one of scatter and gather lists
  if wcnUsbChannelIsCopy x.channel then
    mbufListIter next ((recvLen + alignmentComm x.channel - 1) / alignmentComm x.channel - 1)
      x.list.head 0
  else (x.list.head, 0)

/-- The cut of a received list behind the node that the last byte is in. -/
def parseReceived (next : MbufAddr → Option MbufAddr) (x : Transfer) (recvLen : ℕ) : Parsed :=
  match lastReceived next x recvLen with
  | (none, _) => parseOut 0 next ⟨none, none, 0⟩ x.list
  | (some mbuf, i) =>
    parseOut 0 (Function.update next mbuf none) ⟨x.list.head, some mbuf, i + 1⟩
      ⟨next mbuf, if x.list.num - (i + 1) = 0 then none else x.list.tail, x.list.num - (i + 1)⟩

/-- `wcn_usb_rx_tx_parse` -/
def rxTxParse (next : MbufAddr → Option MbufAddr) (x : Transfer) (status : ℤ) (recvLen : ℕ) :
    Parsed :=
  let next := x.list.tail.elim next fun t => Function.update next t none
  if wcnUsbChannelIsRx x.channel then
    if status ≠ 0 then parseOut status next ⟨none, none, 0⟩ x.list
    else if recvLen = 0 then parseOut (-ENOENT) next ⟨none, none, 0⟩ x.list
    else parseReceived next x recvLen
  else parseOut status next x.list ⟨none, none, 0⟩

/-! ## Where the mbufs are -/

/-- A list that may be missing has these nodes. -/
def Disposed (next : MbufAddr → Option MbufAddr) : Option (Chain MbufAddr) → List MbufAddr → Prop
  | none, xs => xs = []
  | some c, xs => Holds next c xs

/-- The mbufs of the transfers in flight. -/
def Sent.nodes (s : Sent) : List MbufAddr :=
  s.flying.flatMap fun x => walk s.next x.list.num x.list.head

/-- The list that the user has again: all of it after an error. -/
def Sent.back (s : Sent) (list : Chain MbufAddr) : Option (Chain MbufAddr) :=
  if s.ret ≠ 0 then some list else s.failed.map Disposal.list

/-- Each mbuf is at one place, and the list that comes back has its ends and its length. -/
def Owned (r : Except UsbPool.Fault Sent) (list : Chain MbufAddr) (xs : List MbufAddr) : Prop :=
  ∃ s back, r = .ok s ∧ Disposed s.next (s.back list) back ∧ (s.nodes ++ back).Perm xs

/-- The URB of the packet is submitted. -/
def Submits (a : Attempt) : Prop :=
  a.given = true ∧ a.hold = 0 ∧ a.errorHappen = false ∧ a.submit = 0

/-- If a packet of one byte follows, both packets go or neither does. -/
def Agree (ep : Ep) (a : Attempt) : Prop :=
  a.given = true → a.hold = 0 → a.errorHappen = false → needZlp ep a.bufSize = true →
    (a.submit = 0 ↔ sendZlp a = 0)

/-- An object can be had of the pool. -/
def Allocates (pool : UsbPool.Pool) : Prop :=
  pool.locked = false ∧ UsbPool.Available pool .zalloc

/-- As long as mbufs are submitted, an object can be had for the next one, and its packets agree. -/
def Sound (ep : Ep) (env : MbufAddr → Attempt) : List MbufAddr → Prop
  | [] => True
  | m :: rest =>
    Allocates (env m).pool ∧ ((env m).bind = 0 → (env m).setBuf = 0 →
      Agree ep (env m) ∧ (Submits (env m) → Sound ep env rest))

/-- Where the loop leaves the mbufs of a list. -/
def outcome (ep : Ep) (env : MbufAddr → Attempt) :
    List MbufAddr → Except UsbPool.Fault (List MbufAddr × List MbufAddr)
  | [] => .ok ([], [])
  | m :: rest =>
    (UsbPool.zalloc (env m).pool).bind fun r =>
      if r.1 = none ∨ (env m).bind ≠ 0 ∨ (env m).setBuf ≠ 0 then .ok ([], m :: rest)
      else
        let flying := if (packetSubmit ep (env m)).2 then [m] else []
        if (packetSubmit ep (env m)).1 ≠ 0 then .ok (flying, m :: rest)
        else (outcome ep env rest).map fun s => (flying ++ s.1, s.2)

/-! ## One packet -/

theorem packetSubmit_flying (ep : Ep) (a : Attempt) : (packetSubmit ep a).2 = true ↔ Submits a := by
  rw [packetSubmit, Submits]
  cases a.given with
  | false => simp
  | true =>
    by_cases hhold : a.hold = 0
    · cases a.errorHappen with
      | true => simp [hhold]
      | false => by_cases hzlp : needZlp ep a.bufSize = true <;> simp [hhold, hzlp]
    · simp [hhold]

/-- What is returned says whether the packet is in flight exactly if its two packets agree. -/
theorem packetSubmit_iff (ep : Ep) (a : Attempt) :
    ((packetSubmit ep a).1 = 0 ↔ (packetSubmit ep a).2 = true) ↔ Agree ep a := by
  rw [packetSubmit, Agree]
  cases a.given with
  | false => simp
  | true =>
    by_cases hhold : a.hold = 0
    · cases a.errorHappen with
      | true => simp [hhold]
      | false =>
        by_cases hzlp : needZlp ep a.bufSize = true
        · simp only [hhold, hzlp, Bool.true_eq_false, if_false, ne_eq, not_true_eq_false,
            Bool.false_eq_true, if_true, beq_iff_eq, forall_const]
          exact iff_comm
        · simp [hhold, hzlp]
    · simp [hhold]

theorem zalloc_of_allocates {pool : UsbPool.Pool} (h : Allocates pool) :
    ∃ obj pool', UsbPool.zalloc pool = .ok (some obj, pool') := by
  obtain ⟨hunlocked, havail⟩ := h
  have hlock : pool.spinLockBh = .ok { pool with locked := true } := if_neg (by simp [hunlocked])
  rw [UsbPool.zalloc, hlock, FallibleRuns.ok_bind]
  dsimp only
  cases hremain : pool.remain with
  | cons x rest =>
    rw [if_neg (List.cons_ne_nil x rest)]
    exact ⟨_, _, rfl⟩
  | nil =>
    obtain ⟨x, hx, hfreed⟩ := havail.resolve_left (not_not.mpr hremain)
    have hne : (UsbPool.Pool.checkoutFreed { pool with locked := true }).remain ≠ [] := by
      rw [UsbPool.Pool.checkoutFreed]
      exact List.append_ne_nil_of_right_ne_nil _
        (List.ne_nil_of_mem (List.mem_filter.mpr ⟨hx, hfreed⟩))
    rw [if_pos rfl]
    obtain ⟨y, rest, hcons⟩ := List.exists_cons_of_ne_nil hne
    rw [← hremain, hcons]
    exact ⟨_, _, rfl⟩

theorem zalloc_of_not_allocates {pool : UsbPool.Pool} (h : ¬ Allocates pool) :
    ∃ e, UsbPool.zalloc pool = .error e := by
  cases hlocked : pool.locked with
  | true =>
    refine ⟨.deadlock, ?_⟩
    rw [UsbPool.zalloc, UsbPool.Pool.spinLockBh, if_pos hlocked]
    rfl
  | false =>
    have hstop := UsbPool.step_stops hlocked fun havail => h ⟨hlocked, havail⟩
    rw [UsbPool.step] at hstop
    cases hzalloc : UsbPool.zalloc pool with
    | error e => exact ⟨e, rfl⟩
    | ok r =>
      rw [hzalloc] at hstop
      cases hstop

/-! ## The loop -/

section Outcome
variable {ep : Ep} {env : MbufAddr → Attempt} {m : MbufAddr} {xs flying back : List MbufAddr}

/-- An mbuf that is not tried is neither in flight nor back. -/
theorem outcome_subset (h : outcome ep env xs = .ok (flying, back)) : flying ⊆ xs ∧ back ⊆ xs := by
  induction xs generalizing flying back with
  | nil =>
    cases h
    exact ⟨List.Subset.refl _, List.Subset.refl _⟩
  | cons m xs ih =>
    rw [outcome] at h
    cases hzalloc : UsbPool.zalloc (env m).pool with
    | error e =>
      rw [hzalloc] at h
      cases h
    | ok r =>
      rw [hzalloc, FallibleRuns.ok_bind] at h
      have hone : (if (packetSubmit ep (env m)).2 = true then [m] else []) ⊆ m :: xs := by
        split
        · exact List.cons_subset_cons m (List.nil_subset xs)
        · exact List.nil_subset _
      split at h
      · cases h
        exact ⟨List.nil_subset _, List.Subset.refl _⟩
      · dsimp only at h
        split at h
        · cases h
          exact ⟨hone, List.Subset.refl _⟩
        · cases hrest : outcome ep env xs with
          | error e =>
            rw [hrest] at h
            cases h
          | ok s =>
            rw [hrest] at h
            cases h
            obtain ⟨hflying, hback⟩ := ih hrest
            exact ⟨List.append_subset.mpr ⟨hone, fun x hx => List.mem_cons_of_mem m (hflying hx)⟩,
              fun x hx => List.mem_cons_of_mem m (hback hx)⟩

/-- No mbuf is lost and none is at two places exactly if the list is sound. -/
theorem outcome_iff (hnodup : xs.Nodup) :
    (∃ flying back, outcome ep env xs = .ok (flying, back) ∧ (flying ++ back).Perm xs) ↔
      Sound ep env xs := by
  induction xs with
  | nil => exact ⟨fun _ => trivial, fun _ => ⟨[], [], rfl, .refl _⟩⟩
  | cons m xs ih =>
    obtain ⟨hm, hrest⟩ := List.nodup_cons.mp hnodup
    have ih := ih hrest
    rw [Sound]
    by_cases halloc : Allocates (env m).pool
    · obtain ⟨obj, pool', hzalloc⟩ := zalloc_of_allocates halloc
      rw [and_iff_right halloc, outcome, hzalloc, FallibleRuns.ok_bind]
      by_cases hprepared : (env m).bind = 0 ∧ (env m).setBuf = 0
      · have hflying := packetSubmit_flying ep (env m)
        have hagree := packetSubmit_iff ep (env m)
        rw [if_neg (by simp [hprepared.1, hprepared.2])]
        simp only [hprepared.1, hprepared.2, forall_const]
        by_cases hret : (packetSubmit ep (env m)).1 = 0
        · rw [if_neg (not_not.mpr hret)]
          by_cases hsubmits : Submits (env m)
          · -- submitted, and the loop goes on
            rw [if_pos (hflying.mpr hsubmits), and_iff_right (hagree.mp (by simp [hret, hflying, hsubmits])),
              ← ih]
            simp only [hsubmits, forall_const]
            cases houtcome : outcome ep env xs with
            | error e =>
              constructor
              · rintro ⟨flying, back, h, -⟩
                cases h
              · rintro ⟨flying, back, h, -⟩
                cases h
            | ok s =>
              constructor
              · rintro ⟨flying, back, h, hperm⟩
                cases h
                exact ⟨s.1, s.2, rfl, (List.perm_cons m).mp hperm⟩
              · rintro ⟨flying, back, h, hperm⟩
                cases h
                exact ⟨_, _, rfl, (List.perm_cons m).mpr hperm⟩
          · -- not in flight although 0 is returned: the mbuf is lost
            rw [if_neg (fun h => hsubmits (hflying.mp h))]
            constructor
            · rintro ⟨flying, back, h, hperm⟩
              cases houtcome : outcome ep env xs with
              | error e =>
                rw [houtcome] at h
                cases h
              | ok s =>
                rw [houtcome] at h
                cases h
                obtain ⟨hs, hb⟩ := outcome_subset houtcome
                rcases List.mem_append.mp (hperm.mem_iff.mpr List.mem_cons_self) with hmem | hmem
                · exact absurd (hs hmem) hm
                · exact absurd (hb hmem) hm
            · rintro ⟨hboth, -⟩
              exact absurd (hflying.mp ((hagree.mpr hboth).mp hret)) hsubmits
        · rw [if_pos hret]
          by_cases hsubmits : Submits (env m)
          · -- in flight although an error is returned: the mbuf is at two places
            rw [if_pos (hflying.mpr hsubmits)]
            constructor
            · rintro ⟨flying, back, h, hperm⟩
              cases h
              have hlength := hperm.length_eq
              simp at hlength
            · rintro ⟨hboth, -⟩
              exact absurd ((hagree.mpr hboth).mpr (hflying.mpr hsubmits)) hret
          · rw [if_neg (fun h => hsubmits (hflying.mp h))]
            constructor
            · intro _
              refine ⟨hagree.mp ?_, fun h => absurd h hsubmits⟩
              exact ⟨fun h => absurd h hret, fun h => absurd (hflying.mp h) hsubmits⟩
            · intro _
              exact ⟨_, _, rfl, .refl _⟩
      · rw [if_pos (Or.inr (by rwa [not_and_or] at hprepared))]
        constructor
        · intro _ hbind hsetBuf
          exact absurd ⟨hbind, hsetBuf⟩ hprepared
        · intro _
          exact ⟨_, _, rfl, .refl _⟩
    · obtain ⟨e, hzalloc⟩ := zalloc_of_not_allocates halloc
      rw [outcome, hzalloc]
      constructor
      · rintro ⟨_, _, h, -⟩
        cases h
      · rintro ⟨h, -⟩
        exact absurd h halloc

end Outcome

/-- What a result of the loop has in common with where the mbufs are. -/
def Leaves (r : Except UsbPool.Fault Sent) (next : MbufAddr → Option MbufAddr)
    (flying back : List MbufAddr) : Prop :=
  ∃ s, r = .ok s ∧ s.ret = 0 ∧ s.next = next ∧ s.nodes = flying ∧
    Disposed next (s.failed.map Disposal.list) back

theorem dealPartialFail_list (chn : ℕ) (popLink : Bool) (list : Chain MbufAddr) :
    (dealPartialFail chn popLink list).list = list := by
  rw [dealPartialFail]
  split <;> rfl

section Loop
variable (ep : Ep) (chn : ℕ) (popLink : Bool) (env : MbufAddr → Attempt) {tail : Option MbufAddr}
  {next : MbufAddr → Option MbufAddr}

/-- The code leaves the mbufs where the list says. -/
theorem sentLoop_refines (xs : List MbufAddr) {head : Option MbufAddr}
    (h : Holds next ⟨head, tail, xs.length⟩ xs) (hhead : head = xs.head?) :
    match outcome ep env xs with
    | .error _ => ∃ e, sentLoop ep chn popLink env tail (xs.length + 1) next head = .error e
    | .ok s => Leaves (sentLoop ep chn popLink env tail (xs.length + 1) next head) next s.1 s.2 := by
  induction xs generalizing head with
  | nil =>
    subst hhead
    exact ⟨_, rfl, rfl, rfl, rfl, rfl⟩
  | cons m xs ih =>
    subst hhead
    rw [List.head?_cons, List.length_cons] at h ⊢
    obtain ⟨hrest, hnext⟩ := Holds.behind h
    have ih := ih hrest hnext
    rw [outcome, sentLoop]
    cases hzalloc : UsbPool.zalloc (env m).pool with
    | error e => exact ⟨e, rfl⟩
    | ok r =>
      obtain ⟨obj, pool'⟩ := r
      rw [FallibleRuns.ok_bind, FallibleRuns.ok_bind]
      have hfail : ∀ freed flying, Leaves (.ok ⟨0, next, flying, freed,
          some (dealPartialFail chn popLink ⟨some m, tail, xs.length + 1⟩)⟩) next
          (Sent.nodes ⟨0, next, flying, freed, none⟩) (m :: xs) := by
        intro freed flying
        refine ⟨_, rfl, rfl, rfl, rfl, ?_⟩
        rw [Option.map_some, dealPartialFail_list]
        exact h
      cases obj with
      | none => exact hfail none []
      | some obj =>
        by_cases hprepared : (env m).bind ≠ 0 ∨ (env m).setBuf ≠ 0
        · rw [if_pos (Or.inr hprepared)]
          dsimp only
          rw [if_pos hprepared]
          exact hfail (some obj) []
        · rw [if_neg (by simpa using hprepared)]
          dsimp only
          rw [if_neg hprepared]
          have hnodes : ∀ ys : List Transfer, (Sent.nodes ⟨0, next,
              (if (packetSubmit ep (env m)).2 = true then
                [⟨obj, ⟨some m, some m, 1⟩, chn⟩] else []) ++ ys, none, none⟩) =
              (if (packetSubmit ep (env m)).2 = true then [m] else []) ++
                Sent.nodes ⟨0, next, ys, none, none⟩ := by
            intro ys
            split <;> rfl
          by_cases hret : (packetSubmit ep (env m)).1 ≠ 0
          · rw [if_pos hret, if_pos hret, Function.update_eq_self]
            have hleaves := hfail (some obj) (if (packetSubmit ep (env m)).2 = true then
              [⟨obj, ⟨some m, some m, 1⟩, chn⟩] else [])
            have hone := hnodes []
            rw [List.append_nil] at hone
            obtain ⟨s, hs, hrets, hnexts, hnodess, hdisposed⟩ := hleaves
            exact ⟨s, hs, hrets, hnexts, hnodess.trans (hone.trans (List.append_nil _)), hdisposed⟩
          · rw [if_neg hret, if_neg hret]
            cases houtcome : outcome ep env xs with
            | error e =>
              rw [houtcome] at ih
              obtain ⟨e', he'⟩ := ih
              rw [he']
              exact ⟨e', rfl⟩
            | ok t =>
              rw [houtcome] at ih
              obtain ⟨s, hs, hrets, hnexts, hnodess, hdisposed⟩ := ih
              rw [hs]
              refine ⟨_, rfl, hrets, hnexts, ?_, hdisposed⟩
              subst hnexts
              exact (hnodes s.flying).trans (congrArg _ hnodess)

end Loop

theorem disposed_unique {next : MbufAddr → Option MbufAddr} {c : Option (Chain MbufAddr)}
    {xs ys : List MbufAddr} (hx : Disposed next c xs) (hy : Disposed next c ys) : xs = ys := by
  cases c with
  | none => exact hx.trans hy.symm
  | some c => exact hx.walk.symm.trans hy.walk

/-- The mbufs of a list are kept exactly if it is sound. -/
theorem sentMbuf_owned_iff (ep : Ep) (chn : ℕ) (popLink : Bool) (env : MbufAddr → Attempt)
    {next : MbufAddr → Option MbufAddr} {list : Chain MbufAddr} {xs : List MbufAddr}
    (h : Holds next list xs) (hne : xs ≠ []) :
    Owned (sentMbuf (some ep) chn popLink env next list) list xs ↔ Sound ep env xs := by
  obtain ⟨head, tail, num⟩ := list
  obtain rfl : num = xs.length := h.num
  have hrefines := sentLoop_refines ep chn popLink env xs h (h.head hne)
  rw [← outcome_iff h.nodup, sentMbuf]
  cases houtcome : outcome ep env xs with
  | error e =>
    rw [houtcome] at hrefines
    obtain ⟨e', he'⟩ := hrefines
    rw [he']
    constructor
    · rintro ⟨s, back, hs, -⟩
      cases hs
    · rintro ⟨_, _, ht, -⟩
      cases ht
  | ok t =>
    rw [houtcome] at hrefines
    obtain ⟨s, hs, hret, hnext, hnodes, hdisposed⟩ := hrefines
    subst hnext
    have hback : s.back ⟨head, tail, xs.length⟩ = s.failed.map Disposal.list :=
      if_neg (not_not.mpr hret)
    constructor
    · rintro ⟨s', back, hs', hdisposed', hperm⟩
      obtain rfl : s = s' := by
        rw [hs] at hs'
        exact Except.ok.inj hs'
      rw [hback] at hdisposed'
      rw [hnodes, disposed_unique hdisposed' hdisposed] at hperm
      exact ⟨t.1, t.2, rfl, hperm⟩
    · rintro ⟨flying, back, ht, hperm⟩
      cases ht
      refine ⟨s, back, hs, ?_, ?_⟩
      · rw [hback]
        exact hdisposed
      · rw [hnodes]
        exact hperm

/-- Each transfer in flight is one of a single mbuf, however that is linked by then. -/
theorem sentLoop_single {ep : Ep} {chn : ℕ} {popLink : Bool} {env : MbufAddr → Attempt}
    {tail : Option MbufAddr} {next : MbufAddr → Option MbufAddr} {num : ℕ}
    {head : Option MbufAddr} {s : Sent} (h : sentLoop ep chn popLink env tail num next head = .ok s) :
    ∀ x ∈ s.flying, ∃ m, x.list = ⟨some m, some m, 1⟩ := by
  induction num generalizing head s with
  | zero =>
    cases h
    simp
  | succ num ih =>
    cases head with
    | none =>
      cases h
      simp
    | some m =>
      rw [sentLoop] at h
      cases hzalloc : UsbPool.zalloc (env m).pool with
      | error e =>
        rw [hzalloc] at h
        cases h
      | ok r =>
        obtain ⟨obj, pool'⟩ := r
        rw [hzalloc, FallibleRuns.ok_bind] at h
        cases obj with
        | none =>
          cases h
          simp
        | some obj =>
          have hone : ∀ x ∈ (if (packetSubmit ep (env m)).2 = true then
              [(⟨obj, ⟨some m, some m, 1⟩, chn⟩ : Transfer)] else []),
              ∃ m, x.list = ⟨some m, some m, 1⟩ := by
            intro x hx
            split at hx
            · rw [List.mem_singleton.mp hx]
              exact ⟨m, rfl⟩
            · cases hx
          dsimp only at h
          split at h
          · cases h
            simp
          · split at h
            · cases h
              exact hone
            · cases hrest : sentLoop ep chn popLink env tail num next (next m) with
              | error e =>
                rw [hrest] at h
                cases h
              | ok t =>
                rw [hrest] at h
                cases h
                intro x hx
                rcases List.mem_append.mp hx with hx | hx
                · exact hone x hx
                · exact ih hrest x hx

/-! ## The completed transfers -/

/-- The list of a transfer is handed on up to a node, and what is behind that is destroyed. -/
def Splits (p : Parsed) (xs : List MbufAddr) : Prop :=
  ∃ ys zs, ys ++ zs = xs ∧ Holds p.next p.given ys ∧ Disposed p.next p.destroyed zs

theorem mbufListIter_eq {next : MbufAddr → Option MbufAddr} {tail : Option MbufAddr}
    {xs : List MbufAddr} (h : Holds next ⟨xs.head?, tail, xs.length⟩ xs) (num n : ℕ) :
    mbufListIter next num xs.head? n = (xs[num]?, n + min num xs.length) := by
  induction num generalizing xs n with
  | zero => cases xs <;> simp [mbufListIter]
  | succ num ih =>
    cases xs with
    | nil => simp [mbufListIter]
    | cons m xs =>
      obtain ⟨hrest, hnext⟩ := Holds.behind h
      rw [hnext] at hrest
      rw [List.head?_cons, mbufListIter, hnext, ih hrest, List.getElem?_cons_succ, List.length_cons,
        Nat.succ_min_succ]
      congr 1
      omega

section Parse
variable {next : MbufAddr → Option MbufAddr} {x : Transfer} {xs : List MbufAddr}

theorem lastReceived_eq (h : Holds next x.list xs) (hne : xs ≠ []) (recvLen : ℕ) :
    ∃ j, lastReceived next x recvLen = (xs[j]?, min j xs.length) := by
  have hhead := h.head hne
  rw [lastReceived]
  split
  · have hlist : Holds next ⟨xs.head?, x.list.tail, xs.length⟩ xs := by
      rw [← hhead, ← h.num]
      exact h
    rw [hhead, mbufListIter_eq hlist, Nat.zero_add]
    exact ⟨_, rfl⟩
  · exact ⟨0, by rw [hhead, List.head?_eq_getElem?, Nat.zero_min]⟩

theorem parseReceived_splits (h : Holds next x.list xs) (hne : xs ≠ []) (recvLen : ℕ) :
    Splits (parseReceived next x recvLen) xs := by
  obtain ⟨j, hlast⟩ := lastReceived_eq h hne recvLen
  have hnum : x.list.num ≠ 0 := fun hzero => hne (h.num_zero_iff.mp hzero)
  rw [parseReceived, hlast]
  cases hj : xs[j]? with
  | none =>
    -- more is received than there are mbufs for
    refine ⟨[], xs, rfl, holds_empty .., ?_⟩
    rw [parseOut, if_neg hnum]
    exact h
  | some m =>
    obtain ⟨hlt, -⟩ := List.getElem?_eq_some_iff.mp hj
    have hfront : (xs.take (j + 1)).length = j + 1 := by rw [List.length_take]; omega
    have hrest : (xs.drop (j + 1)).length = x.list.num - (j + 1) := by rw [List.length_drop, h.num]
    have hend : (xs.take (j + 1)).getLast? = some m := by
      rw [List.getLast?_eq_getElem?, hfront, Nat.add_sub_cancel,
        List.getElem?_take_of_lt (Nat.lt_succ_self j), hj]
    have hboth : Holds next x.list (xs.take (j + 1) ++ xs.drop (j + 1)) := by
      rw [List.take_append_drop]
      exact h
    have hsplit := hboth.split hend
    rw [hfront, hrest] at hsplit
    rw [Nat.min_eq_left hlt.le]
    refine ⟨xs.take (j + 1), xs.drop (j + 1), List.take_append_drop .., hsplit.1, ?_⟩
    dsimp only [parseOut]
    by_cases hzero : x.list.num - (j + 1) = 0
    · rw [if_pos hzero]
      exact List.length_eq_zero_iff.mp (hrest.trans hzero)
    · rw [if_neg hzero, if_neg hzero]
      exact hsplit.2

/-- Each mbuf of a completed transfer is handed on or destroyed, with lists of the right lengths. -/
theorem rxTxParse_splits (h : Linked next x.list xs) (hne : xs ≠ []) (status : ℤ) (recvLen : ℕ) :
    Splits (rxTxParse next x status recvLen) xs ∧
      (¬ wcnUsbChannelIsRx x.channel →
        Holds (rxTxParse next x status recvLen).next (rxTxParse next x status recvLen).given xs) := by
  obtain ⟨t, ht⟩ : ∃ t, xs.getLast? = some t := ⟨_, List.getLast?_eq_getLast_of_ne_nil hne⟩
  have hended := h.end ht
  have hnum : x.list.num ≠ 0 := fun hzero => hne (hended.num_zero_iff.mp hzero)
  have hall : ∀ ret, Splits (parseOut ret (Function.update next t none) ⟨none, none, 0⟩ x.list) xs := by
    intro ret
    refine ⟨[], xs, rfl, holds_empty .., ?_⟩
    rw [parseOut, if_neg hnum]
    exact hended
  rw [rxTxParse, h.tail, ht, Option.elim_some]
  by_cases hrx : wcnUsbChannelIsRx x.channel
  · rw [if_pos hrx]
    refine ⟨?_, fun hnot => absurd hrx hnot⟩
    split
    · exact hall status
    · split
      · exact hall (-ENOENT)
      · exact parseReceived_splits hended hne recvLen
  · rw [if_neg hrx]
    exact ⟨⟨xs, [], List.append_nil xs, hended, rfl⟩, fun _ => hended⟩

end Parse

/-! ## The copy channel -/

/-- What a turn of `tx_copy_work_func` meets: the end point, the calls for a transfer, and the number of
mbufs that wait, which it counts up to two. -/
structure CopyTurn where
  ep : Option Ep
  attempt : Attempt
  waiting : ℕ

/-- The mbufs of the copy channel: those that wait, those that the transfer to come has in its buffer,
and those of the transfers in flight, beside those that have been given to `wcn_usb_sent_mbuf_copy`. -/
structure CopyWorker where
  queue : List MbufAddr
  batch : Option (UsbPool.RxTx × List MbufAddr)
  flying : List (List MbufAddr)
  given : List MbufAddr

inductive CopyEvent where
  /-- `wcn_usb_sent_mbuf_copy` -/
  | sent (list : List MbufAddr)
  | turn (t : CopyTurn)

/-- `wcn_usb_copy_submit_rx_tx`, with whether the URB is in flight. -/
def copySubmitRxTx (t : CopyTurn) (num : ℕ) : ℤ × Bool :=
  match t.ep with
  | none => (-ENODEV, false)
  | some ep =>
    if t.attempt.bind ≠ 0 then (t.attempt.bind, false)
    else if t.attempt.setBuf ≠ 0 then (t.attempt.setBuf, false)
    else packetSubmit ep { t.attempt with bufSize := num * alignmentComm 6 }

/-- A transfer is submitted. If that fails, it is freed as it is. -/
def CopyWorker.flush (s : CopyWorker) (t : CopyTurn) (nodes : List MbufAddr) : CopyWorker :=
  { s with
    batch := none
    flying := s.flying ++ if (copySubmitRxTx t nodes.length).2 then [nodes] else [] }

/-- A transfer is full before its length asks for a packet of one byte. -/
def Full (num waiting : ℕ) : Prop := 15 ≤ num ∨ (num = 7 ∧ waiting ≤ 1)

instance (num waiting : ℕ) : Decidable (Full num waiting) :=
  inferInstanceAs (Decidable (15 ≤ num ∨ (num = 7 ∧ waiting ≤ 1)))

/-- The mbuf that is taken from the queue is put behind those of the transfer. -/
def CopyWorker.take (s : CopyWorker) (t : CopyTurn) (obj : UsbPool.RxTx) (nodes rest : List MbufAddr) :
    CopyWorker :=
  if Full nodes.length t.waiting then { s with queue := rest }.flush t nodes
  else { s with queue := rest, batch := some (obj, nodes) }

/-- The transfer that the next mbuf goes to. -/
def CopyWorker.current (s : CopyWorker) (t : CopyTurn) :
    Except UsbPool.Fault (Option (UsbPool.RxTx × List MbufAddr)) :=
  match s.batch with
  | some b => .ok (some b)
  | none => (UsbPool.zalloc t.attempt.pool).map fun r => r.1.map fun obj => (obj, [])

/-- From `GET_NEXT_MBUF` to the next time. -/
def CopyWorker.turn (s : CopyWorker) (t : CopyTurn) : Except UsbPool.Fault CopyWorker :=
  match s.queue with
  | [] =>
    match s.batch with
    | none => .ok s
    | some b => .ok (s.flush t b.2)
  | m :: rest =>
    (s.current t).map fun b =>
      match b with
      | none => s
      | some b => s.take t b.1 (b.2 ++ [m]) rest

def copyStep (s : CopyWorker) : CopyEvent → Except UsbPool.Fault CopyWorker
  | .sent list => .ok { s with queue := s.queue ++ list, given := s.given ++ list }
  | .turn t => s.turn t

def copyStart : CopyWorker := ⟨[], none, [], []⟩

def CopyWorker.nodes (s : CopyWorker) : List MbufAddr := s.batch.elim [] Prod.snd

/-- Each mbuf that was given is at one place. -/
def CopyWorker.Owns (s : CopyWorker) : Prop :=
  (s.queue ++ s.nodes ++ s.flying.flatten).Perm s.given

/-- The URB of a turn is submitted. -/
def CopyTurn.Goes (t : CopyTurn) : Prop :=
  t.ep ≠ none ∧ t.attempt.bind = 0 ∧ t.attempt.setBuf = 0 ∧ Submits t.attempt

/-- The turn submits its transfer. -/
def CopyWorker.Flushes (s : CopyWorker) (t : CopyTurn) : Prop :=
  match s.queue with
  | [] => s.batch ≠ none
  | _ :: _ => Full (s.nodes.length + 1) t.waiting

/-- An object can be had of the pool if the turn wants one, and its URB goes if it submits one. -/
def CopyFine (s : CopyWorker) : CopyEvent → Prop
  | .sent _ => True
  | .turn t =>
    (s.queue ≠ [] → s.batch = none → Allocates t.attempt.pool) ∧ (s.Flushes t → t.Goes)

section Copy
variable {s : CopyWorker} {t : CopyTurn}

theorem copySubmit_flying (t : CopyTurn) (num : ℕ) : (copySubmitRxTx t num).2 = true ↔ t.Goes := by
  rw [copySubmitRxTx, CopyTurn.Goes]
  cases t.ep with
  | none => simp
  | some ep =>
    dsimp only
    by_cases hbind : t.attempt.bind = 0
    · by_cases hsetBuf : t.attempt.setBuf = 0
      · rw [if_neg (not_not.mpr hbind), if_neg (not_not.mpr hsetBuf), packetSubmit_flying]
        constructor
        · intro hsubmits
          exact ⟨Option.some_ne_none ep, hbind, hsetBuf, hsubmits⟩
        · intro hgoes
          exact hgoes.2.2.2
      · simp [hbind, hsetBuf]
    · simp [hbind]

/-- The transfer of a worker has an mbuf at least. -/
structure Kept (s : CopyWorker) : Prop where
  owns : s.Owns
  nonempty : ∀ b, s.batch = some b → b.2 ≠ []

/-- A submitted transfer is kept exactly if its URB goes. -/
theorem owns_flush_iff {nodes : List MbufAddr} (hne : nodes ≠ [])
    (h : (s.queue ++ nodes ++ s.flying.flatten).Perm s.given) :
    (s.flush t nodes).Owns ↔ t.Goes := by
  rw [← copySubmit_flying t nodes.length, CopyWorker.Owns, CopyWorker.flush]
  dsimp only [CopyWorker.nodes, Option.elim_none]
  cases hflying : (copySubmitRxTx t nodes.length).2 with
  | true =>
    refine iff_of_true (List.Perm.trans ?_ h) rfl
    simp only [if_true, List.flatten_append, List.flatten_cons, List.flatten_nil, List.append_nil,
      List.append_assoc]
    exact List.Perm.append_left _ List.perm_append_comm
  | false =>
    refine iff_of_false (fun hlost => ?_) Bool.false_ne_true
    have hlength := hlost.length_eq.trans h.length_eq.symm
    have hpos := List.length_pos_of_ne_nil hne
    simp only [Bool.false_eq_true, if_false, List.append_nil, List.length_append] at hlength
    omega

theorem Kept.flush {nodes : List MbufAddr} (howns : (s.flush t nodes).Owns) : Kept (s.flush t nodes) :=
  ⟨howns, fun b hb => by cases hb⟩

/-- The places of the mbufs when one is taken from the queue. -/
theorem perm_take {m : MbufAddr} {rest : List MbufAddr} (h : s.Owns) (hqueue : s.queue = m :: rest) :
    (rest ++ (s.nodes ++ [m]) ++ s.flying.flatten).Perm s.given := by
  refine List.Perm.trans ?_ h
  rw [hqueue, List.perm_iff_count]
  intro a
  simp only [List.count_append, List.count_cons, List.count_nil]
  omega

theorem current_nodes {b : UsbPool.RxTx × List MbufAddr} (hb : s.current t = .ok (some b)) :
    b.2 = s.nodes := by
  rw [CopyWorker.current] at hb
  rw [CopyWorker.nodes]
  cases hbatch : s.batch with
  | some c =>
    rw [hbatch] at hb
    cases hb
    rfl
  | none =>
    rw [hbatch] at hb
    obtain ⟨r, -, hr⟩ := FallibleRuns.map_eq_ok.mp hb
    obtain ⟨obj, -, rfl⟩ := Option.map_eq_some_iff.mp hr
    rfl

theorem Kept.step (h : Kept s) {e : CopyEvent} (hfine : CopyFine s e) :
    ∃ s', copyStep s e = .ok s' ∧ Kept s' := by
  cases e with
  | sent list =>
    refine ⟨_, rfl, ?_, h.nonempty⟩
    have howns := h.owns
    rw [CopyWorker.Owns, List.perm_iff_count] at howns ⊢
    intro a
    have hcount := howns a
    dsimp only [CopyWorker.nodes] at hcount ⊢
    simp only [List.count_append] at hcount ⊢
    omega
  | turn t =>
    obtain ⟨halloc, hgoes⟩ := hfine
    rw [copyStep, CopyWorker.turn]
    rw [CopyWorker.Flushes] at hgoes
    cases hqueue : s.queue with
    | nil =>
      rw [hqueue] at hgoes
      cases hbatch : s.batch with
      | none => exact ⟨s, rfl, h⟩
      | some b =>
        have howns := h.owns
        rw [CopyWorker.Owns, CopyWorker.nodes, hbatch] at howns
        exact ⟨_, rfl, .flush ((owns_flush_iff (h.nonempty b hbatch) howns).mpr
          (hgoes (by simp [hbatch])))⟩
    | cons m rest =>
      rw [hqueue] at hgoes
      obtain ⟨b, hb⟩ : ∃ b, s.current t = .ok (some b) := by
        rw [CopyWorker.current]
        cases hbatch : s.batch with
        | some b => exact ⟨b, rfl⟩
        | none =>
          obtain ⟨obj, pool', hzalloc⟩ := zalloc_of_allocates (halloc (by simp [hqueue]) hbatch)
          rw [hzalloc]
          exact ⟨_, rfl⟩
      have hnodes := current_nodes hb
      rw [hb]
      refine ⟨_, rfl, ?_⟩
      dsimp only
      rw [hnodes, CopyWorker.take]
      have hperm := perm_take h.owns hqueue
      by_cases hfull : Full (s.nodes ++ [m]).length t.waiting
      · rw [if_pos hfull]
        exact .flush ((owns_flush_iff (by simp) hperm).mpr (hgoes (by simpa using hfull)))
      · rw [if_neg hfull]
        refine ⟨hperm, ?_⟩
        rintro b' hb'
        cases hb'
        simp

theorem Kept.broken (h : Kept s) {e : CopyEvent} (hfine : ¬ CopyFine s e) {s' : CopyWorker}
    (hs' : copyStep s e = .ok s') : ¬ s'.Owns := by
  cases e with
  | sent list => exact absurd trivial hfine
  | turn t =>
    rw [copyStep, CopyWorker.turn] at hs'
    rw [CopyFine, CopyWorker.Flushes] at hfine
    cases hqueue : s.queue with
    | nil =>
      simp only [hqueue] at hs' hfine
      cases hbatch : s.batch with
      | none => exact absurd ⟨fun hne => absurd rfl hne, fun hne => absurd hbatch hne⟩ hfine
      | some b =>
        simp only [hbatch] at hs'
        cases hs'
        have howns := h.owns
        rw [CopyWorker.Owns, CopyWorker.nodes, hbatch] at howns
        rw [owns_flush_iff (h.nonempty b hbatch) howns]
        exact fun hgoes => hfine ⟨fun hne => absurd rfl hne, fun _ => hgoes⟩
    | cons m rest =>
      simp only [hqueue] at hs' hfine
      obtain ⟨b, hb, hresult⟩ := FallibleRuns.map_eq_ok.mp hs'
      have halloc : s.batch = none → Allocates t.attempt.pool := by
        intro hbatch
        by_contra hnot
        obtain ⟨e, he⟩ := zalloc_of_not_allocates hnot
        rw [CopyWorker.current, hbatch] at hb
        dsimp only at hb
        rw [he] at hb
        cases hb
      cases b with
      | none =>
        rw [CopyWorker.current] at hb
        cases hbatch : s.batch with
        | some c =>
          rw [hbatch] at hb
          cases hb
        | none =>
          obtain ⟨obj, pool', hzalloc⟩ := zalloc_of_allocates (halloc hbatch)
          rw [hbatch, hzalloc] at hb
          cases hb
      | some b =>
        have hnodes := current_nodes hb
        dsimp only at hresult
        rw [hnodes, CopyWorker.take] at hresult
        by_cases hfull : Full (s.nodes ++ [m]).length t.waiting
        · rw [if_pos hfull] at hresult
          subst hresult
          have hperm := perm_take h.owns hqueue
          rw [owns_flush_iff (s := { s with queue := rest }) (by simp) hperm]
          exact fun hgoes => hfine ⟨fun _ => halloc, fun _ => hgoes⟩
        · exact absurd ⟨fun _ => halloc, fun hflush => absurd (by simpa using hflush) hfull⟩ hfine

/-- The worker goes through all events with each mbuf at one place exactly if an object can be had
whenever one is wanted, and the URB of every transfer that is submitted goes. -/
theorem copy_owned_iff (es : List CopyEvent) :
    (∀ es₁ es₂, es = es₁ ++ es₂ → ∃ t, FallibleRuns.run copyStep copyStart es₁ = .ok t ∧ t.Owns) ↔
      FallibleRuns.Along copyStep CopyFine copyStart es := by
  apply FallibleRuns.along_iff_prefixes_reach (fun _ (h : Kept _) => h.owns)
  · exact ⟨.refl _, fun b hb => by cases hb⟩
  · intro s e h hfine
    exact h.step hfine
  · intro s e s' h hfine hs'
    exact h.broken hfine hs'

end Copy

/-- `wcn_usb_packet_submit` says whether its packet is in flight exactly if its two packets agree; a
list is kept exactly if an object can be had of the pool and the packets agree for each mbuf that is
tried; the mbufs of the copy channel are kept exactly if an object can be had for each transfer and
the URB of each goes; and what comes back of a transfer always has its ends and its length. -/
theorem usb_ownership_iff (ep : Ep) (chn : ℕ) (popLink : Bool) (env : MbufAddr → Attempt)
    (next : MbufAddr → Option MbufAddr) :
    (∀ a, ((packetSubmit ep a).1 = 0 ↔ (packetSubmit ep a).2 = true) ↔ Agree ep a) ∧
    (∀ (list : Chain MbufAddr) (xs : List MbufAddr), Holds next list xs → xs ≠ [] →
      (Owned (sentMbuf (some ep) chn popLink env next list) list xs ↔ Sound ep env xs) ∧
      Owned (sentMbuf none chn popLink env next list) list xs ∧
      ∀ s, sentMbuf (some ep) chn popLink env next list = .ok s → ∀ x ∈ s.flying,
        ∃ m, ∀ next', Linked next' x.list [m]) ∧
    (∀ es, (∀ es₁ es₂, es = es₁ ++ es₂ →
        ∃ t, FallibleRuns.run copyStep copyStart es₁ = .ok t ∧ t.Owns) ↔
      FallibleRuns.Along copyStep CopyFine copyStart es) ∧
    ∀ (x : Transfer) (xs : List MbufAddr) (status : ℤ) (recvLen : ℕ),
      Linked next x.list xs → xs ≠ [] →
        Splits (rxTxParse next x status recvLen) xs ∧
          (¬ wcnUsbChannelIsRx x.channel → Holds (rxTxParse next x status recvLen).next
            (rxTxParse next x status recvLen).given xs) := by
  refine ⟨packetSubmit_iff ep, fun list xs h hne => ⟨?_, ?_, ?_⟩, copy_owned_iff,
    fun x xs status recvLen h hne => rxTxParse_splits h hne status recvLen⟩
  · exact sentMbuf_owned_iff ep chn popLink env h hne
  · exact ⟨_, xs, rfl, h, .refl xs⟩
  · intro s hs x hx
    obtain ⟨m, hm⟩ := sentLoop_single hs x hx
    refine ⟨m, fun next' => ?_⟩
    rw [hm]
    exact ⟨rfl, rfl, rfl, .singleton m, List.nodup_singleton m⟩

/-- Each attempt takes an object of the initial pool and submits a packet of 512 bytes, which one byte
follows; the error numbers are those of the two submissions. -/
def exampleAttempt (submit zlpSubmit : ℤ) : Attempt where
  pool := ⟨false, [0], [], fun _ => 1, []⟩
  bind := 0
  setBuf := 0
  given := true
  bufSize := 512
  hold := 0
  errorHappen := false
  submit := submit
  zlpBuf := true
  zlpUrb := true
  zlpSubmit := zlpSubmit

def exampleEp : Ep := ⟨false, true, false, 512⟩

def exampleNext : MbufAddr → Option MbufAddr := fun m => if m = 1 then some 2 else none

def exampleList : Chain MbufAddr := ⟨some 1, some 2, 2⟩

theorem exampleList_holds : Holds exampleNext exampleList [1, 2] where
  num := rfl
  head _ := rfl
  tail _ := rfl
  linked := .cons_cons rfl (.singleton 2)
  ends a ha := by
    cases ha
    rfl
  nodup := by decide

/-- The second mbuf comes back when both of its packets fail, and a transfer that receives less than
two mbufs hold is split. -/
theorem usb_ownership_iff_two :
    Owned (sentMbuf (some exampleEp) 8 true
      (fun m => if m = 1 then exampleAttempt 0 0 else exampleAttempt (-5) (-5)) exampleNext
      exampleList) exampleList [1, 2] ∧
    Splits (rxTxParse exampleNext ⟨0, exampleList, 22⟩ 0 1000) [1, 2] := by
  have hall := usb_ownership_iff exampleEp 8 true
    (fun m => if m = 1 then exampleAttempt 0 0 else exampleAttempt (-5) (-5)) exampleNext
  refine ⟨?_, (hall.2.2.2 ⟨0, exampleList, 22⟩ [1, 2] 0 1000
    ⟨rfl, rfl, rfl, exampleList_holds.linked, exampleList_holds.nodup⟩ (by decide)).1⟩
  refine (hall.2.1 exampleList [1, 2] exampleList_holds (by decide)).1.mpr ?_
  refine ⟨⟨rfl, Or.inl (by decide)⟩, fun _ _ => ⟨fun _ _ _ _ => by decide, fun _ => ?_⟩⟩
  exact ⟨⟨rfl, Or.inl (by decide)⟩, fun _ _ => ⟨fun _ _ _ _ => by decide, fun _ => trivial⟩⟩

/-- If only the packet of one byte fails, the mbuf is in flight and comes back; if only that packet
goes, the mbuf is lost. -/
theorem usb_ownership_fails :
    packetSubmit exampleEp (exampleAttempt 0 (-5)) = (-5, true) ∧
      packetSubmit exampleEp (exampleAttempt (-5) 0) = (0, false) ∧
      ¬ Owned (sentMbuf (some exampleEp) 8 true (fun _ => exampleAttempt 0 (-5)) exampleNext
        exampleList) exampleList [1, 2] ∧
      ¬ Owned (sentMbuf (some exampleEp) 8 true (fun _ => exampleAttempt (-5) 0) exampleNext
        exampleList) exampleList [1, 2] := by
  refine ⟨by decide, by decide, ?_, ?_⟩
  · rw [sentMbuf_owned_iff _ _ _ _ exampleList_holds (by decide)]
    rintro ⟨-, h⟩
    exact absurd ((h rfl rfl).1 rfl rfl rfl (by decide)) (by decide)
  · rw [sentMbuf_owned_iff _ _ _ _ exampleList_holds (by decide)]
    rintro ⟨-, h⟩
    exact absurd ((h rfl rfl).1 rfl rfl rfl (by decide)) (by decide)

end Uwe5631.UsbTx
