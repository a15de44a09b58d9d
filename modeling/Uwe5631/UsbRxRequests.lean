import Uwe5631.FallibleRuns
import Mathlib.Data.BitVec
import Mathlib.Algebra.Order.Ring.Int

/-!
# Receive requests over USB

The firmware reports how many receive requests it has, `wcn_usb_work_func` submits as many transfers
and keeps the rest in `transfer_remains`. Beside the counters of `struct wcn_usb_work_data` stand the
transfers that really are submitted.
-/
namespace Uwe5631.UsbRx
open FallibleRuns

abbrev ENOENT : ℤ := 2
abbrev ENOMEM : ℤ := 12
abbrev ENODEV : ℤ := 19
abbrev USHRT_MAX : ℤ := 65535
abbrev TRANSF_UNITS : ℕ := 16
abbrev TRANSF_TOTAL : ℤ := 10

def reportNumMapChn : List ℕ := [18, 20, 21, 22, 23, 24, 17, 31]

def wcnUsbChannelIsRx (chn : ℕ) : Prop := 16 ≤ chn

def wcnUsbChannelIsApostle (chn : ℕ) : Prop := chn ∈ reportNumMapChn

def wcnUsbChannelIsCopy (chn : ℕ) : Prop := chn = 22 ∨ chn = 6

instance (chn : ℕ) : Decidable (wcnUsbChannelIsRx chn) := Nat.decLe 16 chn

instance (chn : ℕ) : Decidable (wcnUsbChannelIsApostle chn) :=
  inferInstanceAs (Decidable (chn ∈ reportNumMapChn))

instance (chn : ℕ) : Decidable (wcnUsbChannelIsCopy chn) :=
  inferInstanceAs (Decidable (chn = 22 ∨ chn = 6))

/-! ## Submitting -/

/-- How it goes with one mbuf in `wcn_usb_sent_mbuf`. -/
inductive Attempt where
  | submitted
  /-- no object of the pool; the pool of `wcn_usb_rx_tx_pool_zalloc` never says so when it is empty,
  since it takes its lock twice -/
  | noRxTx
  | notBound
  | noBuffer
  | refused
  deriving DecidableEq, Repr

/-- What `wcn_usb_poll_copy_one` meets: the end point, an object of the pool, the mbufs and their
buffers, and the error numbers of the calls, 0 for none. -/
structure CopyEnv where
  ep : Bool
  rxTx : Bool
  ops : Bool
  free : ℤ
  buffer : ℕ → Bool
  bind : ℕ
  bigMen : Bool
  setBuf : ℕ
  submit : ℕ

/-- What a poll meets; the numbers count its attempts. -/
structure Env where
  ops : Bool
  free : ℤ
  buffer : ℕ → Bool
  ep : Bool
  attempt : ℕ → Attempt
  copyOne : ℕ → CopyEnv
  /-- what `wcn_usb_apostle_fire` returns in `wcn_usb_rx_trash` -/
  fire : ℕ → ℤ

/-- `wcn_usb_list_alloc`, with the number of mbufs. -/
def wcnUsbListAlloc (ops : Bool) (free num : ℤ) : ℤ × ℤ :=
  if ops = false then (-ENODEV, num)
  else if num ≤ 0 ∨ free ≤ 0 then (-ENOMEM, 0)
  else (0, if num > free then free else num)

/-- The loop of `wcn_usb_sent_mbuf` over the mbufs that are left of a list: how many have been
submitted when it ends or gives up. -/
def sentLoop (attempt : ℕ → Attempt) : ℕ → ℤ → ℕ → ℕ
  | 0, _, sent => sent
  | mbufs + 1, num, sent =>
    if 0 ≤ num then
      if attempt sent = .submitted then sentLoop attempt mbufs (num - 1) (sent + 1) else sent
    else sent

/-- `wcn_usb_sent_mbuf`, with the number of submitted mbufs. It returns 0 also when it gives up. -/
def wcnUsbSentMbuf (env : Env) (num : ℤ) : ℤ × ℕ :=
  if env.ep = false then (-ENODEV, 0) else (0, sentLoop env.attempt num.toNat num 0)

/-- `wcn_usb_poll`, with the number of submitted transfers. -/
def wcnUsbPoll (env : Env) (urbs : ℤ) : ℤ × ℕ :=
  let list := wcnUsbListAlloc env.ops env.free urbs
  if list.1 ≠ 0 then (-ENOMEM, 0)
  else if ∃ i < list.2.toNat, env.buffer i = false then (-ENOMEM, 0)
  else
    let sent := wcnUsbSentMbuf env list.2
    if sent.1 ≠ 0 then sent else (urbs - list.2, sent.2)

/-- `wcn_usb_poll_copy_one`; the transfer is submitted if it returns 0. -/
def wcnUsbPollCopyOne (env : CopyEnv) : ℤ :=
  if env.ep = false then -ENODEV
  else if env.rxTx = false then -ENOMEM
  else
    let list := wcnUsbListAlloc env.ops env.free TRANSF_UNITS
    if list.1 ≠ 0 then list.1
    else if list.2 ≠ TRANSF_UNITS then -ENOMEM
    else if ∃ i < TRANSF_UNITS, env.buffer i = false then -ENOMEM
    else if env.bind ≠ 0 then -env.bind
    else if env.bigMen = false then -ENOMEM
    else if env.setBuf ≠ 0 then -env.setBuf
    else -env.submit

/-- The loop of `wcn_usb_poll_copy`, with the last value returned and the transfers submitted. -/
def copyLoop (one : ℕ → CopyEnv) : ℕ → ℕ → ℤ × ℕ
  | 0, i => (0, i)
  | n + 1, i =>
    if wcnUsbPollCopyOne (one i) ≠ 0 then (wcnUsbPollCopyOne (one i), i) else copyLoop one n (i + 1)

/-- `wcn_usb_poll_copy` -/
def wcnUsbPollCopy (env : Env) (urbs : ℤ) : ℤ × ℕ :=
  let r := copyLoop env.copyOne urbs.toNat 0
  if r.2 ≠ 0 then (urbs - r.2, r.2) else r

/-- `wcn_usb_poll_rx` -/
def wcnUsbPollRx (chn : ℕ) (env : Env) (urbs : ℤ) : ℤ × ℕ :=
  if wcnUsbChannelIsCopy chn then wcnUsbPollCopy env urbs else wcnUsbPoll env urbs

/-! ## Completing -/

/-- A transfer that the controller has given back. -/
structure RxTx where
  packetStatus : ℤ
  recvLen : ℕ

/-- `wcn_usb_rx_tx_need_resent` -/
def wcnUsbRxTxNeedResent (chn : ℕ) (rxTx : RxTx) : Prop :=
  rxTx.packetStatus = 0 ∧ wcnUsbChannelIsRx chn

instance (chn : ℕ) (rxTx : RxTx) : Decidable (wcnUsbRxTxNeedResent chn rxTx) :=
  inferInstanceAs (Decidable (_ ∧ _))

/-- What `wcn_usb_rx_tx_parse` returns. -/
def wcnUsbRxTxParse (chn : ℕ) (rxTx : RxTx) : ℤ :=
  if wcnUsbChannelIsRx chn ∧ rxTx.packetStatus = 0 ∧ rxTx.recvLen = 0 then -ENOENT
  else rxTx.packetStatus

/-- What `wcn_usb_rx_tx_list_parse` adds to `rx_tx_resent`. -/
def resent (chn : ℕ) (rxTx : RxTx) : ℕ :=
  let ret := wcnUsbRxTxParse chn rxTx
  if ret ≠ 0 then
    if ret = -ENOENT ∧ wcnUsbRxTxNeedResent chn rxTx ∧ wcnUsbChannelIsApostle chn then 1 else 0
  else if wcnUsbRxTxNeedResent chn rxTx ∧ ¬ wcnUsbChannelIsApostle chn then 1 else 0

/-! ## The worker of a channel -/

/-- `struct wcn_usb_work_data` of a channel, the list of the thread that copies, and the record of
what has been asked for, submitted and completed. -/
structure State where
  rxTxHead : List RxTx
  copyHead : List RxTx
  reportNum : ℤ
  reportNumLast : ℤ
  transferRemains : ℤ
  goon : Bool
  /-- the requests that the firmware has reported, as its 16-bit counter has moved -/
  reported : ℕ
  /-- the transfers that are to be submitted again -/
  resents : ℕ
  /-- what `wcn_usb_begin_poll_rx` takes as submitted -/
  begun : ℤ
  submitted : ℕ
  completed : ℕ

inductive Event where
  /-- `wcn_usb_rx_apostle_callback` -/
  | report (num : BitVec 16)
  /-- `wcn_usb_callback` -/
  | complete (rxTx : RxTx)
  /-- a round of `rx_copy_work_func` -/
  | copy
  /-- `wcn_usb_rx_trash_callback` -/
  | trashed
  /-- a round of `wcn_usb_work_func` -/
  | work (env : Env)
  /-- `wcn_usb_begin_poll_rx` with the `pool_size` of the channel -/
  | begin (poolSize : ℤ) (env : Env)
  /-- `goon` is written -/
  | go (goon : Bool)

/-- What the firmware has reported since the last round. -/
def State.news (s : State) : ℤ :=
  if s.reportNum ≥ s.reportNumLast then s.reportNum - s.reportNumLast
  else USHRT_MAX - s.reportNumLast + s.reportNum + 1

/-- `wcn_usb_work_func` up to the list of what has been received: what there is to submit. -/
def State.due (chn : ℕ) (s : State) : ℤ :=
  s.transferRemains + s.news + (s.rxTxHead.map (resent chn)).sum

/-- How many calls of `wcn_usb_apostle_fire` submit a transfer. -/
def fired (env : Env) (num : ℤ) : ℕ := (List.range num.toNat).countP fun i => env.fire i = 0

def State.counted (chn : ℕ) (s : State) : State :=
  { s with
    rxTxHead := []
    reportNumLast := s.reportNum
    transferRemains := s.due chn
    -- the counter of the firmware has 16 bits
    reported := s.reported + (BitVec.ofInt 16 s.reportNum - BitVec.ofInt 16 s.reportNumLast).toNat
    resents := s.resents + (s.rxTxHead.map (resent chn)).sum }

/-- A round of `wcn_usb_work_func`. -/
def wcnUsbWorkFunc (chn : ℕ) (env : Env) (s : State) : State :=
  if s.due chn ≠ 0 then
    if env.ops = true ∧ s.goon = true then
      let ret := wcnUsbPollRx chn env (s.due chn)
      let remains :=
        if ret.1 < 0 then if ret.1 ≠ -ENOMEM then 0 else s.due chn
        else ret.1
      { s.counted chn with submitted := s.submitted + ret.2, transferRemains := remains }
    else
      { s.counted chn with submitted := s.submitted + fired env (s.due chn), transferRemains := 0 }
  else s.counted chn

/-- `wcn_usb_begin_poll_rx` -/
def wcnUsbBeginPollRx (chn : ℕ) (poolSize : ℤ) (env : Env) (s : State) : State :=
  if wcnUsbChannelIsApostle chn then s
  else if env.ops = false then s
  else
    let urbs := max (min poolSize TRANSF_TOTAL) 1
    let ret := wcnUsbPollRx chn env urbs
    { s with
      submitted := s.submitted + ret.2
      begun := s.begun + if ret.1 < 0 then 0 else urbs - ret.1 }

def stepTo (chn : ℕ) (s : State) : Event → State
  | .report num =>
    if chn ∈ reportNumMapChn.dropLast then { s with reportNum := num.toNat } else s
  | .complete rxTx =>
    if wcnUsbChannelIsCopy chn ∧ wcnUsbChannelIsRx chn then
      { s with copyHead := s.copyHead ++ [rxTx], completed := s.completed + 1 }
    else { s with rxTxHead := s.rxTxHead ++ [rxTx], completed := s.completed + 1 }
  | .copy => { s with rxTxHead := s.rxTxHead ++ s.copyHead, copyHead := [] }
  | .trashed => { s with completed := s.completed + 1 }
  | .work env => wcnUsbWorkFunc chn env s
  | .begin poolSize env => wcnUsbBeginPollRx chn poolSize env s
  | .go goon => { s with goon := goon }

def step (chn : ℕ) (s : State) (e : Event) : Except Empty State := .ok (stepTo chn s e)

/-- `wcn_usb_work_data_reset` -/
def init : State := ⟨[], [], 0, 0, 0, true, 0, 0, 0, 0, 0⟩

/-! ## Accounting -/

/-- The requests that the driver takes as outstanding: those that it was asked for, but for those that
remain and those that have been completed. -/
def State.believed (s : State) : ℤ :=
  s.reported + s.resents + s.begun - s.transferRemains - s.completed

/-- The transfers that are submitted and not completed. -/
def State.outstanding (s : State) : ℤ := s.submitted - s.completed

def Accounted (s : State) : Prop := s.believed = s.outstanding

instance (s : State) : Decidable (Accounted s) := inferInstanceAs (Decidable (_ = _))

/-- A poll finds no mbufs, or no buffers for them. -/
def Waits (env : Env) (urbs : ℤ) : Prop :=
  (wcnUsbListAlloc env.ops env.free urbs).1 ≠ 0 ∨
    ∃ i < (wcnUsbListAlloc env.ops env.free urbs).2.toNat, env.buffer i = false

/-- Each mbuf that a poll finds can be submitted. -/
def Submits (env : Env) (urbs : ℤ) : Prop :=
  ∀ i < (wcnUsbListAlloc env.ops env.free urbs).2.toNat, env.attempt i = .submitted

/-- A round that polls waits for mbufs or submits each of them, the first copying transfer is
submitted or waits for memory, and a round that does not poll throws away what it is asked for. -/
def Kept (chn : ℕ) (s : State) : Event → Prop
  | .work env =>
    s.due chn ≠ 0 →
      if env.ops = true ∧ s.goon = true then
        if wcnUsbChannelIsCopy chn then
          wcnUsbPollCopyOne (env.copyOne 0) = 0 ∨ wcnUsbPollCopyOne (env.copyOne 0) = -ENOMEM
        else Waits env (s.due chn) ∨ (env.ep = true ∧ Submits env (s.due chn))
      else ∀ i < (s.due chn).toNat, env.fire i = 0
  | .begin poolSize env =>
    wcnUsbChannelIsApostle chn ∨ env.ops = false ∨ wcnUsbChannelIsCopy chn ∨ env.ep = false ∨
      Waits env (max (min poolSize TRANSF_TOTAL) 1) ∨ Submits env (max (min poolSize TRANSF_TOTAL) 1)
  | _ => True

variable {chn m sent : ℕ} {env : Env} {s : State} {urbs num : ℤ} {attempt : ℕ → Attempt}

/-- The whole list is submitted if and only if each of its mbufs can be. -/
theorem sentLoop_eq_iff (hnum : (m : ℤ) ≤ num + 1) :
    sentLoop attempt m num sent = sent + m ↔ ∀ i < m, attempt (sent + i) = .submitted := by
  induction m generalizing num sent with
  | zero => exact iff_of_true rfl fun i hi => absurd hi (Nat.not_lt_zero i)
  | succ m ih =>
    rw [sentLoop, if_pos (by omega)]
    by_cases hfirst : attempt sent = .submitted
    · have hlength : sent + (m + 1) = sent + 1 + m := by omega
      rw [if_pos hfirst, hlength, ih (by omega)]
      constructor
      · intro hrest i hi
        cases i with
        | zero => exact hfirst
        | succ i =>
          have hnext := hrest i (by omega)
          rwa [Nat.add_assoc, Nat.add_comm 1 i] at hnext
      · intro hall i hi
        have hnext := hall (i + 1) (by omega)
        rwa [Nat.add_assoc, Nat.add_comm 1 i]
    · rw [if_neg hfirst]
      exact iff_of_false (by omega) fun hall => hfirst (hall 0 (Nat.succ_pos m))

theorem listAlloc_num (hzero : (wcnUsbListAlloc env.ops env.free urbs).1 = 0) :
    0 < (wcnUsbListAlloc env.ops env.free urbs).2 ∧
      (wcnUsbListAlloc env.ops env.free urbs).2 ≤ urbs := by
  rw [wcnUsbListAlloc] at hzero ⊢
  split at hzero
  · cases hzero
  · rename_i hops
    rw [if_neg hops]
    split at hzero
    · cases hzero
    · rename_i hsome
      rw [if_neg hsome]
      dsimp only
      split <;> omega

/-- What a poll leaves and submits. -/
theorem poll_cases (env : Env) (urbs : ℤ) :
    (Waits env urbs ∧ wcnUsbPoll env urbs = (-ENOMEM, 0)) ∨
    (¬ Waits env urbs ∧ env.ep = false ∧ wcnUsbPoll env urbs = (-ENODEV, 0)) ∨
    (¬ Waits env urbs ∧ env.ep = true ∧ 0 ≤ (wcnUsbPoll env urbs).1 ∧
      (urbs = (wcnUsbPoll env urbs).1 + (wcnUsbPoll env urbs).2 ↔ Submits env urbs)) := by
  rw [Waits, Submits, wcnUsbPoll]
  dsimp only
  by_cases hlist : (wcnUsbListAlloc env.ops env.free urbs).1 ≠ 0
  · exact .inl ⟨.inl hlist, if_pos hlist⟩
  rw [if_neg hlist]
  obtain ⟨hpos, hle⟩ := listAlloc_num (not_not.mp hlist)
  generalize (wcnUsbListAlloc env.ops env.free urbs).2 = num at hpos hle ⊢
  by_cases hbuffer : ∃ i < num.toNat, env.buffer i = false
  · exact .inl ⟨.inr hbuffer, if_pos hbuffer⟩
  have hready := not_or.mpr ⟨hlist, hbuffer⟩
  rw [if_neg hbuffer, wcnUsbSentMbuf]
  by_cases hep : env.ep = false
  · rw [if_pos hep]
    exact .inr (.inl ⟨hready, hep, if_pos (by decide)⟩)
  · rw [if_neg hep, if_neg (not_not.mpr rfl)]
    refine .inr (.inr ⟨hready, (Bool.not_eq_false _).mp hep, by dsimp only; omega, ?_⟩)
    have hall : sentLoop env.attempt num.toNat num 0 = 0 + num.toNat ↔
        ∀ i < num.toNat, env.attempt (0 + i) = .submitted := sentLoop_eq_iff (by omega)
    simp only [Nat.zero_add] at hall
    rw [← hall]
    dsimp only
    omega

theorem listAlloc_nonpos (ops : Bool) (free num : ℤ) : (wcnUsbListAlloc ops free num).1 ≤ 0 := by
  rw [wcnUsbListAlloc]
  split_ifs <;> simp

theorem pollCopyOne_nonpos (env : CopyEnv) : wcnUsbPollCopyOne env ≤ 0 := by
  have hlist := listAlloc_nonpos env.ops env.free TRANSF_UNITS
  rw [wcnUsbPollCopyOne]
  dsimp only
  split_ifs <;> first | omega | decide

theorem copyLoop_spec (one : ℕ → CopyEnv) (n i : ℕ) :
    i ≤ (copyLoop one n i).2 ∧ (copyLoop one n i).2 ≤ i + n := by
  induction n generalizing i with
  | zero => exact ⟨Nat.le_refl i, Nat.le_refl i⟩
  | succ n ih =>
    rw [copyLoop]
    have hnext := ih (i + 1)
    split <;> constructor <;> omega

/-- A copying poll stops at the first transfer that fails. -/
theorem pollCopy_cases (env : Env) (hurbs : 0 < urbs) :
    (wcnUsbPollCopyOne (env.copyOne 0) = 0 ∧ 0 ≤ (wcnUsbPollCopy env urbs).1 ∧
      urbs = (wcnUsbPollCopy env urbs).1 + (wcnUsbPollCopy env urbs).2) ∨
    (wcnUsbPollCopyOne (env.copyOne 0) < 0 ∧
      wcnUsbPollCopy env urbs = (wcnUsbPollCopyOne (env.copyOne 0), 0)) := by
  obtain ⟨n, hn⟩ := Nat.exists_eq_succ_of_ne_zero (show urbs.toNat ≠ 0 by omega)
  rw [wcnUsbPollCopy, hn, copyLoop]
  by_cases hfirst : wcnUsbPollCopyOne (env.copyOne 0) ≠ 0
  · have hneg := lt_of_le_of_ne (pollCopyOne_nonpos (env.copyOne 0)) hfirst
    rw [if_pos hfirst]
    exact .inr ⟨hneg, if_neg (not_not.mpr rfl)⟩
  · rw [if_neg hfirst]
    obtain ⟨hsome, hmost⟩ := copyLoop_spec env.copyOne n (0 + 1)
    have hne : (copyLoop env.copyOne n (0 + 1)).2 ≠ 0 := by omega
    rw [if_pos hne]
    exact .inl ⟨not_not.mp hfirst, by dsimp only; omega, by dsimp only; omega⟩

theorem fired_eq_iff (env : Env) (hurbs : 0 ≤ urbs) :
    urbs = fired env urbs ↔ ∀ i < urbs.toNat, env.fire i = 0 := by
  have hall := List.countP_eq_length (p := fun i => decide (env.fire i = 0)) (l := List.range urbs.toNat)
  rw [List.length_range] at hall
  have hcount : urbs = fired env urbs ↔
      (List.range urbs.toNat).countP (fun i => decide (env.fire i = 0)) = urbs.toNat := by
    rw [fired]
    omega
  rw [hcount, hall]
  simp only [List.mem_range, decide_eq_true_eq]

/-! ## The invariant -/

/-- The requests are accounted for, and the counters of the firmware are 16-bit words. -/
structure Sound (s : State) : Prop where
  accounted : Accounted s
  remains : 0 ≤ s.transferRemains
  report : 0 ≤ s.reportNum ∧ s.reportNum ≤ USHRT_MAX
  last : 0 ≤ s.reportNumLast ∧ s.reportNumLast ≤ USHRT_MAX

theorem Sound.news (h : Sound s) :
    s.news = (BitVec.ofInt 16 s.reportNum - BitVec.ofInt 16 s.reportNumLast).toNat := by
  have hreport := h.report
  have hlast := h.last
  have hword : ∀ a : ℤ, 0 ≤ a ∧ a ≤ 65535 → (BitVec.ofInt 16 a).toNat = a.toNat := by
    rintro a ⟨hnonneg, hle⟩
    rw [BitVec.toNat_ofInt, Int.emod_eq_of_lt hnonneg (lt_of_le_of_lt hle (by decide))]
  rw [State.news, BitVec.toNat_sub, hword _ hreport, hword _ hlast]
  dsimp only [USHRT_MAX] at hreport hlast ⊢
  split <;> omega

theorem Sound.due_nonneg (h : Sound s) (chn : ℕ) : 0 ≤ s.due chn := by
  have hremains := h.remains
  rw [State.due, h.news]
  omega

theorem Sound.settled_iff (h : Sound s) (remains : ℤ) (newly : ℕ) :
    Accounted { s.counted chn with submitted := s.submitted + newly, transferRemains := remains } ↔
      s.due chn = remains + newly := by
  have hbefore := h.accounted
  have hdue : s.due chn = s.transferRemains + s.news + (s.rxTxHead.map (resent chn)).sum := rfl
  rw [h.news] at hdue
  rw [Accounted, State.believed, State.outstanding] at hbefore ⊢
  dsimp only [State.counted]
  omega

theorem Sound.counted (h : Sound s) : Sound (s.counted chn) := by
  refine ⟨?_, h.due_nonneg chn, h.report, h.report⟩
  exact (h.settled_iff (s.due chn) 0).mpr (add_zero _).symm

theorem Sound.work_iff (h : Sound s) (env : Env) :
    Accounted (wcnUsbWorkFunc chn env s) ↔ Kept chn s (.work env) := by
  rw [Kept, wcnUsbWorkFunc]
  have hdue := h.due_nonneg chn
  by_cases hsome : s.due chn ≠ 0
  swap
  · rw [if_neg hsome]
    exact iff_of_true h.counted.accounted fun hne => absurd hne hsome
  rw [if_pos hsome, forall_prop_of_true hsome]
  by_cases hpoll : env.ops = true ∧ s.goon = true
  · rw [if_pos hpoll, if_pos hpoll]
    dsimp only
    rw [h.settled_iff, wcnUsbPollRx]
    by_cases hcopy : wcnUsbChannelIsCopy chn
    · rw [if_pos hcopy, if_pos hcopy]
      obtain ⟨hfirst, hnonneg, hsum⟩ | ⟨hfirst, hrun⟩ :=
        pollCopy_cases env (lt_of_le_of_ne hdue hsome.symm)
      · rw [if_neg (not_lt.mpr hnonneg)]
        exact iff_of_true hsum (.inl hfirst)
      · rw [hrun, if_pos hfirst]
        dsimp only
        split_ifs with hfails
        · refine iff_of_false (by omega) (not_or.mpr ⟨by omega, hfails⟩)
        · exact iff_of_true (add_zero _).symm (.inr (not_not.mp hfails))
    · rw [if_neg hcopy, if_neg hcopy]
      obtain ⟨hwaits, hrun⟩ | ⟨hready, hep, hrun⟩ | ⟨hready, hep, hnonneg, hsum⟩ :=
        poll_cases env (s.due chn)
      · rw [hrun]
        exact iff_of_true (add_zero _).symm (.inl hwaits)
      · rw [hrun]
        rw [if_pos (by decide), if_pos (by decide)]
        refine iff_of_false hsome (not_or.mpr ⟨hready, fun hno => ?_⟩)
        rw [hep] at hno
        exact Bool.false_ne_true hno.1
      · rw [if_neg (not_lt.mpr hnonneg), hsum]
        exact ⟨fun hall => .inr ⟨hep, hall⟩, fun hor => (hor.resolve_left hready).2⟩
  · rw [if_neg hpoll, if_neg hpoll, h.settled_iff, zero_add]
    exact fired_eq_iff env hdue

theorem Sound.work (h : Sound s) (env : Env) (hkept : Kept chn s (.work env)) :
    Sound (wcnUsbWorkFunc chn env s) := by
  have haccounted := (h.work_iff env).mpr hkept
  have hdue := h.due_nonneg chn
  have hcounted : Sound (s.counted chn) := h.counted
  rw [wcnUsbWorkFunc] at haccounted ⊢
  split_ifs at haccounted ⊢
  · refine ⟨haccounted, ?_, hcounted.report, hcounted.last⟩
    dsimp only
    split_ifs <;> omega
  · exact ⟨haccounted, Int.le_refl 0, hcounted.report, hcounted.last⟩
  · exact hcounted

theorem Sound.begin_iff (h : Sound s) (poolSize : ℤ) (env : Env) :
    Accounted (wcnUsbBeginPollRx chn poolSize env s) ↔ Kept chn s (.begin poolSize env) := by
  rw [Kept, wcnUsbBeginPollRx]
  by_cases hapostle : wcnUsbChannelIsApostle chn
  · rw [if_pos hapostle]
    exact iff_of_true h.accounted (.inl hapostle)
  rw [if_neg hapostle, or_iff_right hapostle]
  by_cases hops : env.ops = false
  · rw [if_pos hops]
    exact iff_of_true h.accounted (.inl hops)
  rw [if_neg hops, or_iff_right hops]
  have hurbs : 0 < max (min poolSize TRANSF_TOTAL) 1 := by omega
  generalize max (min poolSize TRANSF_TOTAL) 1 = urbs at hurbs ⊢
  -- what is taken as submitted is what has been submitted
  have hsame (ret : ℤ × ℕ) : Accounted { s with
      submitted := s.submitted + ret.2
      begun := s.begun + if ret.1 < 0 then 0 else urbs - ret.1 } ↔
      (if ret.1 < 0 then 0 else urbs - ret.1) = ret.2 := by
    have hbefore := h.accounted
    rw [Accounted, State.believed, State.outstanding] at hbefore ⊢
    dsimp only
    omega
  dsimp only
  rw [hsame, wcnUsbPollRx]
  by_cases hcopy : wcnUsbChannelIsCopy chn
  · rw [if_pos hcopy]
    refine iff_of_true ?_ (.inl hcopy)
    obtain ⟨-, hnonneg, hsum⟩ | ⟨hfirst, hrun⟩ := pollCopy_cases env hurbs
    · rw [if_neg (not_lt.mpr hnonneg)]
      omega
    · rw [hrun, if_pos hfirst]
      rfl
  · rw [if_neg hcopy, or_iff_right hcopy]
    obtain ⟨hwaits, hrun⟩ | ⟨-, hep, hrun⟩ | ⟨hready, hep, hnonneg, hsum⟩ := poll_cases env urbs
    · rw [hrun]
      exact iff_of_true rfl (.inr (.inl hwaits))
    · rw [hrun]
      exact iff_of_true rfl (.inl hep)
    · rw [if_neg (not_lt.mpr hnonneg), hep, or_iff_right (Bool.true_eq_false.mp ·), or_iff_right hready,
        ← hsum]
      constructor <;> intro heq <;> omega

/-- A step that is kept to keeps the invariant. -/
theorem Sound.kept (h : Sound s) {e : Event} (hkept : Kept chn s e) : Sound (stepTo chn s e) := by
  have haccounted := h.accounted
  cases e with
  | report num =>
    have hnum := num.isLt
    rw [stepTo]
    split
    · exact ⟨haccounted, h.remains, ⟨Int.natCast_nonneg _, by dsimp only [USHRT_MAX]; omega⟩, h.last⟩
    · exact h
  | complete rxTx =>
    have hboth : s.believed - 1 = s.outstanding - 1 := congrArg (· - 1) haccounted
    rw [stepTo]
    rw [State.believed, State.outstanding] at hboth
    split <;> refine ⟨?_, h.remains, h.report, h.last⟩ <;>
      · rw [Accounted, State.believed, State.outstanding]
        dsimp only
        omega
  | copy => exact ⟨haccounted, h.remains, h.report, h.last⟩
  | trashed =>
    refine ⟨?_, h.remains, h.report, h.last⟩
    rw [Accounted, State.believed, State.outstanding] at haccounted ⊢
    dsimp only [stepTo]
    omega
  | work env => exact h.work env hkept
  | begin poolSize env =>
    have hbegun := (h.begin_iff poolSize env).mpr hkept
    rw [stepTo]
    rw [wcnUsbBeginPollRx] at hbegun ⊢
    split_ifs at hbegun ⊢
    · exact h
    · exact h
    · exact ⟨hbegun, h.remains, h.report, h.last⟩
  | go goon => exact ⟨haccounted, h.remains, h.report, h.last⟩

theorem Sound.broken (h : Sound s) {e : Event} (hkept : ¬ Kept chn s e) :
    ¬ Accounted (stepTo chn s e) := by
  cases e with
  | work env => exact mt (h.work_iff env).mp hkept
  | begin poolSize env => exact mt (h.begin_iff poolSize env).mp hkept
  | report num => exact absurd True.intro hkept
  | complete rxTx => exact absurd True.intro hkept
  | copy => exact absurd True.intro hkept
  | trashed => exact absurd True.intro hkept
  | go goon => exact absurd True.intro hkept

theorem init_sound : Sound init := ⟨rfl, Int.le_refl 0, by decide, by decide⟩

/-- The driver takes as many receive requests as outstanding as transfers are, at all times, if and
only if each poll submits what it takes as submitted. -/
theorem requests_accounted_iff (chn : ℕ) (es : List Event) :
    (∀ es₁ es₂ t, es = es₁ ++ es₂ → run (step chn) init es₁ = .ok t → Accounted t) ↔
      Along (step chn) (Kept chn) init es := by
  apply along_iff_prefixes_total (fun _ _ => rfl) (fun s (h : Sound s) => h.accounted) init_sound
  · intro s e h hkept
    exact h.kept hkept
  · intro s e h hkept
    exact h.broken hkept

/-- There are mbufs for all requests, and the controller takes the first one only. -/
def oneTaken : Env where
  ops := true
  free := 10
  buffer := fun _ => true
  ep := true
  attempt := fun i => if i = 0 then .submitted else .refused
  copyOne := fun _ => ⟨true, true, true, 16, fun _ => true, 0, true, 0, 0⟩
  fire := fun _ => 0

/-- Two requests of which one is submitted: both are taken as outstanding, and none remains. -/
theorem refused_transfer_counted : ∃ t, run (step 18) init [.report 2, .work oneTaken] = .ok t ∧
    t.believed = 2 ∧ t.outstanding = 1 ∧ t.transferRemains = 0 ∧ ¬ Accounted t :=
  ⟨_, rfl, rfl, rfl, rfl, by decide⟩

end Uwe5631.UsbRx
