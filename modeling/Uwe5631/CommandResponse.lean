import Uwe5631.FallibleRuns
import Mathlib

/-!
# Commands and their responses

`sprdwl_cmd_send_recv` waits for the response to its command in the one slot of `struct sprdwl_cmd`,
which every command sets and which `sprdwl_rx_rsp_process` fills.
-/
namespace Uwe5631.CmdRsp
open FallibleRuns

abbrev Byte := BitVec 8

abbrev WIFI_CMD_OPEN : BitVec 8 := 3
abbrev WIFI_CMD_TX_DATA : BitVec 8 := 72
abbrev WIFI_CMD_HANG_RECEIVED : BitVec 8 := 78
abbrev WIFI_CMD_MAX : BitVec 8 := 85

abbrev STAP_MODE_P2P_DEVICE : Byte := 2
abbrev STAP_MODE_COEXI_NUM : Byte := 4

/-- `sizeof(struct sprdwl_cmd_hdr)` -/
abbrev CMD_HDR_LEN : ℕ := 12

/-- What a command and its response carry in their headers. -/
structure Stamp where
  cmdId : BitVec 8
  mstime : BitVec 32
  deriving DecidableEq, Repr

/-- A response: the place of the command that it answers among all commands, the stamp that it echoes,
the context and the length of its header and the bytes behind it. -/
structure Response where
  command : ℕ
  stamp : Stamp
  ctxId : Byte
  plen : BitVec 16
  paydata : List Byte
  deriving DecidableEq, Repr

/-- `plen` counts the header as well. -/
def Response.payload (r : Response) : List Byte := r.paydata.take (r.plen.toNat - CMD_HDR_LEN)

/-- A caller of `sprdwl_cmd_send_recv`: its command and `*rlen`, which is 0 where it gives no `rbuf`. -/
structure Request where
  cmdId : BitVec 8
  rlen : ℕ
  deriving DecidableEq, Repr

/-- What has the command lock. `calm` tells that no exit, assert or hang recovery has been in progress
since `reinit_completion`. -/
inductive Holder where
  /-- `sprdwl_cmd_send_recv_no_wait`, before it sends -/
  | noWait (cmdId : BitVec 8)
  /-- `sprdwl_cmd_send_recv`, before `reinit_completion` -/
  | locked (req : Request)
  /-- behind `reinit_completion` -/
  | reinited (req : Request) (calm : Bool)
  /-- behind `sprdwl_cmd_set`, with the place of its command and the responses to it so far -/
  | waiting (req : Request) (command : ℕ) (own : List Response) (calm : Bool)
  deriving DecidableEq, Repr

/-- Why a call of `sprdwl_cmd_send_recv` returns. -/
inductive Cause where
  | completion
  | timeout
  | notSent
  deriving DecidableEq, Repr

/-- What a call of `sprdwl_cmd_send_recv` returned, what is in `rbuf`, and the responses to its command
that arrived before. No `rbuf` is one that was filled from behind the response. -/
structure Result where
  req : Request
  cause : Cause
  ret : ℤ
  rbuf : Option (List Byte)
  own : List Response
  calm : Bool
  deriving DecidableEq, Repr

/-- The slot of `struct sprdwl_cmd`, the lock and the commands sent so far. -/
structure State where
  stamp : Stamp
  data : Option Response
  completed : ℕ
  /-- the driver exits -/
  exit : Bool
  /-- `sprdwl_cmd_deinit` has added `SPRDWL_CMD_EXIT_VAL` to `refcnt` -/
  deinit : Bool
  /-- hang recovery is in progress -/
  hang : Bool
  cpAsserted : Bool
  holder : Option Holder
  sent : List Stamp
  results : List Result
  deriving DecidableEq, Repr

inductive Event where
  /-- a caller of `sprdwl_cmd_send_recv` gets the command lock -/
  | lock (req : Request)
  /-- a caller of `sprdwl_cmd_send_recv_no_wait` gets it -/
  | lockNoWait (cmdId : BitVec 8)
  /-- `sprdwl_cmd_lock` fails in `sprdwl_cmd_send_recv` -/
  | lockFails (req : Request)
  /-- the next step of the caller with the lock, at some time, and whether the command can be sent -/
  | next (mstime : BitVec 32) (send : Bool)
  /-- the wait of `sprdwl_cmd_send_recv` ends by its timeout -/
  | timeout
  /-- `sprdwl_xmit_data2cmd` sends its command -/
  | xmit (mstime : BitVec 32)
  /-- a response to a command arrives, and whether there is memory for it -/
  | response (command : ℕ) (ctxId : Byte) (plen : BitVec 16) (paydata : List Byte) (memory : Bool)
  /-- an exit, a hang recovery or an assert, which wakes who waits -/
  | disturb (exit hang cpAsserted : Bool)
  /-- `sprdwl_cmd_deinit` -/
  | deinit
  /-- what disturbed is over -/
  | recover
  deriving DecidableEq, Repr

/-- `sprdwl_cmd_set`, and the command goes to the firmware. -/
def State.cmdSet (s : State) (stamp : Stamp) : State :=
  { s with stamp := stamp, data := none, sent := s.sent ++ [stamp] }

/-- What `sprdwl_cmd_send_recv` puts into `rbuf`. The length of the payload is an `u16`, which is large
for a `plen` below that of the header. -/
def Request.rbuf (req : Request) (r : Response) : Option (List Byte) :=
  if req.rlen = 0 then some []
  else if r.plen.toNat < CMD_HDR_LEN then none
  else
    let rbuf := r.payload.take req.rlen
    some (if req.cmdId = WIFI_CMD_OPEN then rbuf.set 0 r.ctxId else rbuf)

def State.fail (s : State) (req : Request) (cause : Cause) (own : List Response) (calm : Bool) :
    State :=
  { s with holder := none, results := s.results ++ [⟨req, cause, -1, some [], own, calm⟩] }

/-- `sprdwl_timeout_recv_rsp` fails, though it was woken. -/
def State.broken (s : State) : Bool :=
  s.exit || s.deinit || (s.hang && decide (s.stamp.cmdId ≠ WIFI_CMD_HANG_RECEIVED))

/-- The end of `sprdwl_cmd_send_recv` behind a completion: when the CP has asserted, `rbuf` stays as it
is. -/
def State.finish (s : State) (req : Request) (own : List Response) (calm : Bool) : State :=
  if s.broken then s.fail req .completion own calm
  else
    match s.data with
    | none => s.fail req .completion own calm
    | some r =>
      let rbuf := if s.cpAsserted then some [] else req.rbuf r
      { s with holder := none, results := s.results ++ [⟨req, .completion, 0, rbuf, own, calm⟩] }

/-- No exit, assert or hang recovery is in progress. -/
def State.undisturbed (s : State) : Bool := !s.exit && !s.deinit && !s.hang && !s.cpAsserted

/-- The caller with the lock goes on. -/
def goOn (s : State) (mstime : BitVec 32) (send : Bool) : State :=
  match s.holder with
  | none => s
  | some (.noWait cmdId) => { s.cmdSet ⟨cmdId, mstime⟩ with holder := none }
  | some (.locked req) =>
    { s with completed := 0, holder := some (.reinited req s.undisturbed) }
  | some (.reinited req calm) =>
    let command := s.sent.length
    let s := s.cmdSet ⟨req.cmdId, mstime⟩
    if send then { s with holder := some (.waiting req command [] calm) }
    else s.fail req .notSent [] calm
  | some (.waiting req _ own calm) =>
    if s.completed = 0 then s
    else State.finish { s with completed := s.completed - 1 } req own calm

/-- The wait ends without completion. -/
def waitTimeout (s : State) : State :=
  match s.holder with
  | some (.waiting req _ own calm) => if s.completed = 0 then s.fail req .timeout own calm else s
  | some (.noWait _) | some (.locked _) | some (.reinited ..) | none => s

/-- A response arrives while a caller waits. -/
def Holder.note (r : Response) : Holder → Holder
  | .waiting req command own calm =>
    .waiting req command (if r.command = command then own ++ [r] else own) calm
  | .noWait cmdId => .noWait cmdId
  | .locked req => .locked req
  | .reinited req calm => .reinited req calm

/-- An exit, a hang recovery or an assert while a caller has the lock. -/
def Holder.disturb : Holder → Holder
  | .waiting req command own _ => .waiting req command own false
  | .noWait cmdId => .noWait cmdId
  | .locked req => .locked req
  | .reinited req _ => .reinited req false

section Responses
variable (p2pIntf : Bool)

/-- The range of `ctx_id`, with `CONFIG_P2P_INTF` or without. -/
def ctxRange (ctxId : Byte) : Bool :=
  if p2pIntf then decide (ctxId < STAP_MODE_COEXI_NUM) else decide (ctxId ≤ STAP_MODE_P2P_DEVICE)

/-- `sprdwl_rx_rsp_process` gets to the slot. -/
def State.accepts (s : State) (r : Response) (memory : Bool) : Bool :=
  ctxRange p2pIntf r.ctxId && decide (r.stamp.cmdId ≤ WIFI_CMD_MAX) &&
    decide (r.plen.toNat ≤ 2048) && !s.deinit && memory

/-- `sprdwl_rx_rsp_process` -/
def rxRspProcess (s : State) (r : Response) (memory : Bool) : State :=
  let s := { s with holder := s.holder.map (Holder.note r) }
  if s.accepts p2pIntf r memory then
    if s.data = none ∧ r.stamp = s.stamp then
      { s with data := some r, completed := s.completed + 1 }
    else s
  else s

def stepTo (s : State) : Event → State
  | .lock req => if s.holder = none then { s with holder := some (.locked req) } else s
  | .lockNoWait cmdId => if s.holder = none then { s with holder := some (.noWait cmdId) } else s
  -- `ret` is still 0
  | .lockFails req => { s with results := s.results ++ [⟨req, .notSent, 0, some [], [], false⟩] }
  | .next mstime send => goOn s mstime send
  | .timeout => waitTimeout s
  | .xmit mstime => s.cmdSet ⟨WIFI_CMD_TX_DATA, mstime⟩
  | .response command ctxId plen paydata memory =>
    match s.sent[command]? with
    | none => s
    | some stamp => rxRspProcess p2pIntf s ⟨command, stamp, ctxId, plen, paydata⟩ memory
  | .disturb exit hang cpAsserted =>
    { s with
      exit := s.exit || exit
      hang := s.hang || hang
      cpAsserted := s.cpAsserted || cpAsserted
      completed := s.completed + 1
      holder := s.holder.map Holder.disturb }
  | .deinit =>
    { s with deinit := true, completed := s.completed + 1, holder := s.holder.map Holder.disturb }
  | .recover => { s with exit := false, hang := false, cpAsserted := false }

def step (s : State) (e : Event) : Except Empty State := .ok (stepTo p2pIntf s e)

end Responses

/-- `sprdwl_cmd_init` -/
def init : State := ⟨⟨0, 0⟩, none, 0, false, false, false, false, none, [], []⟩

/-- A call that returns 0 has got a response to its command, with the beginning of the payload in
`rbuf`; and if a response to its command arrived in time, or it did not wait for one until its timeout,
and nothing disturbed it, it returns 0. -/
structure Result.Matches (r : Result) : Prop where
  own : r.ret = 0 → ∃ own ∈ r.own, r.rbuf = some (own.payload.take r.req.rlen)
  ret : r.calm = true → r.own ≠ [] ∨ r.cause = .completion → r.ret = 0

def Matched (s : State) : Prop := ∀ r ∈ s.results, r.Matches

/-- Whether a caller waits for its response. -/
def Holder.waits : Holder → Bool
  | .waiting .. => true
  | .noWait _ | .locked _ | .reinited .. => false

/-- The response gets into the slot. -/
def Lands (p2pIntf : Bool) (s : State) (r : Response) (memory : Bool) : Prop :=
  s.accepts p2pIntf r memory = true ∧ s.data = none ∧ r.stamp = s.stamp

instance (p2pIntf : Bool) (s : State) (r : Response) (memory : Bool) :
    Decidable (Lands p2pIntf s r memory) :=
  inferInstanceAs (Decidable (_ ∧ _ ∧ _))

/-- What the holder of the lock needs of a response. -/
def Suitable (p2pIntf : Bool) (s : State) (r : Response) (memory : Bool) : Option Holder → Prop
  | some (.reinited ..) => ¬ Lands p2pIntf s r memory
  | some (.waiting req command own calm) =>
    (Lands p2pIntf s r memory →
      r.command = command ∧ (req.rlen ≠ 0 → CMD_HDR_LEN ≤ r.plen.toNat)) ∧
    (r.command = command → calm = true → own = [] → s.accepts p2pIntf r memory = true)
  | some (.noWait _) | some (.locked _) | none => True

/-- The lock never fails; the slot is not set while a caller waits; no response gets into it between
`reinit_completion` and `sprdwl_cmd_set`, nor one to another command while a caller waits, and the one
to its own is not thrown away; its length is not below that of the header where `rbuf` is asked for;
`rbuf` is not asked for by an open command, nor filled while the CP has asserted. -/
def Paired (p2pIntf : Bool) (s : State) : Event → Prop
  | .lockFails _ => False
  | .next _ _ =>
    match s.holder with
    | some (.reinited req _) => req.cmdId = WIFI_CMD_OPEN → req.rlen = 0
    | some (.waiting req _ _ _) => s.completed ≠ 0 → s.cpAsserted = true → req.rlen = 0
    | some (.noWait _) | some (.locked _) | none => True
  | .xmit _ => ∀ h ∈ s.holder, h.waits = false
  | .response command ctxId plen paydata memory =>
    ∀ stamp ∈ s.sent[command]?, Suitable p2pIntf s ⟨command, stamp, ctxId, plen, paydata⟩ memory s.holder
  | .lock _ | .lockNoWait _ | .timeout | .disturb .. | .deinit | .recover => True

/-- No exit or hang recovery is in progress. -/
structure Quiet (s : State) : Prop where
  exit : s.exit = false
  deinit : s.deinit = false
  hang : s.hang = false

/-- What holds of the slot while a caller has the lock. -/
def HolderSound (s : State) : Option Holder → Prop
  | some (.reinited _ calm) => calm = true → s.completed = 0 ∧ Quiet s
  | some (.waiting req command own calm) =>
    s.sent[command]? = some s.stamp ∧ (req.cmdId = WIFI_CMD_OPEN → req.rlen = 0) ∧
      (∀ r ∈ s.data, r ∈ own ∧ (req.rlen ≠ 0 → CMD_HDR_LEN ≤ r.plen.toNat)) ∧
      (calm = true → Quiet s ∧ (own = [] ↔ s.data = none) ∧ (own = [] ↔ s.completed = 0))
  | some (.noWait _) | some (.locked _) | none => True

/-- What holds along runs of paired commands. -/
structure Sound (s : State) : Prop where
  matched : Matched s
  holder : HolderSound s s.holder

variable {s : State} {p2pIntf : Bool}

theorem matched_snoc {results : List Result} {r : Result} (h : ∀ r ∈ results, r.Matches)
    (hr : r.Matches) : ∀ x ∈ results ++ [r], x.Matches := by
  intro x hx
  rcases List.mem_append.mp hx with hx | hx
  · exact h x hx
  · rw [List.mem_singleton.mp hx]
    exact hr

/-- A call that fails without a response to its command, or disturbed. -/
theorem fail_matches {req : Request} {cause : Cause} {own : List Response} {calm : Bool}
    (h : calm = true → own = [] ∧ cause ≠ .completion) :
    Result.Matches ⟨req, cause, -1, some [], own, calm⟩ where
  own := fun hret => by cases hret
  ret := fun hcalm hwoken => by
    obtain ⟨hown, hcause⟩ := h hcalm
    rcases hwoken with hwoken | hwoken
    · exact absurd hown hwoken
    · exact absurd hwoken hcause

theorem Sound.fail (h : Sound s) {req : Request} {cause : Cause} {own : List Response} {calm : Bool}
    (hown : calm = true → own = [] ∧ cause ≠ .completion) : Sound (s.fail req cause own calm) where
  matched := matched_snoc h.matched (fail_matches hown)
  holder := trivial

theorem Quiet.not_broken (h : Quiet s) : s.broken = false := by
  rw [State.broken, h.exit, h.deinit, h.hang]
  rfl

/-- What is copied into `rbuf` is the beginning of the payload. -/
theorem rbuf_eq {req : Request} {r : Response} (hopen : req.cmdId = WIFI_CMD_OPEN → req.rlen = 0)
    (hplen : req.rlen ≠ 0 → CMD_HDR_LEN ≤ r.plen.toNat) :
    req.rbuf r = some (r.payload.take req.rlen) := by
  rw [Request.rbuf]
  by_cases hzero : req.rlen = 0
  · rw [if_pos hzero, hzero, List.take_zero]
  · rw [if_neg hzero, if_neg (Nat.not_lt_of_le (hplen hzero))]
    exact congrArg some (if_neg (mt hopen hzero))

/-- A caller that waited for its response returns behind a completion. -/
theorem Sound.finish (h : Sound s) {req : Request} {own : List Response} {calm : Bool}
    (hopen : req.cmdId = WIFI_CMD_OPEN → req.rlen = 0)
    (hdata : ∀ r ∈ s.data, r ∈ own ∧ (req.rlen ≠ 0 → CMD_HDR_LEN ≤ r.plen.toNat))
    (hcalm : calm = true → Quiet s ∧ s.data ≠ none)
    (hassert : s.cpAsserted = true → req.rlen = 0) : Sound (s.finish req own calm) := by
  rw [State.finish]
  split
  · rename_i hbroken
    apply h.fail
    intro hcalmed
    rw [(hcalm hcalmed).1.not_broken] at hbroken
    cases hbroken
  · cases hslot : s.data with
    | none => exact h.fail fun hcalmed => absurd hslot (hcalm hcalmed).2
    | some r =>
      obtain ⟨hown, hplen⟩ := hdata r hslot
      refine ⟨matched_snoc h.matched ⟨fun _ => ⟨r, hown, ?_⟩, fun _ _ => rfl⟩, trivial⟩
      dsimp only
      split
      · rename_i hasserted
        rw [hassert hasserted, List.take_zero]
      · exact rbuf_eq hopen hplen

/-- A command is sent while no caller waits. -/
theorem Sound.cmdSet (h : Sound s) (stamp : Stamp)
    (hwaits : ∀ holder ∈ s.holder, holder.waits = false) : Sound (s.cmdSet stamp) := by
  refine ⟨h.matched, ?_⟩
  have hholder := h.holder
  change HolderSound (s.cmdSet stamp) s.holder
  cases hcase : s.holder with
  | none => trivial
  | some holder =>
    rw [hcase] at hholder
    cases holder with
    | noWait | locked => trivial
    | reinited req calm =>
      exact fun hcalm => ⟨(hholder hcalm).1, (hholder hcalm).2.exit, (hholder hcalm).2.deinit,
        (hholder hcalm).2.hang⟩
    | waiting req command own calm => exact Bool.noConfusion (hwaits _ (Option.mem_def.mpr hcase))

/-- The caller with the lock goes on. -/
theorem Sound.next (h : Sound s) {mstime : BitVec 32} {send : Bool}
    (hpaired : Paired p2pIntf s (.next mstime send)) : Sound (goOn s mstime send) := by
  have hholder := h.holder
  rw [Paired] at hpaired
  rw [goOn]
  cases hcase : s.holder with
  | none => exact h
  | some holder =>
    rw [hcase] at hholder hpaired
    cases holder with
    | noWait cmdId => exact ⟨h.matched, trivial⟩
    | locked req =>
      refine ⟨h.matched, fun hcalm => ⟨rfl, ?_⟩⟩
      simp only [State.undisturbed, Bool.and_eq_true, Bool.not_eq_true'] at hcalm
      exact ⟨hcalm.1.1.1, hcalm.1.1.2, hcalm.1.2⟩
    | reinited req calm =>
      have hset := h.cmdSet ⟨req.cmdId, mstime⟩ (by simp [hcase, Holder.waits])
      dsimp only
      split
      · refine ⟨hset.matched, ?_, hpaired, fun r hr => (by cases hr), fun hcalm => ?_⟩
        · simp [State.cmdSet]
        · obtain ⟨hcompleted, hquiet⟩ := hholder hcalm
          exact ⟨⟨hquiet.exit, hquiet.deinit, hquiet.hang⟩, iff_of_true rfl rfl,
            iff_of_true rfl hcompleted⟩
      · exact hset.fail fun _ => ⟨rfl, Cause.noConfusion⟩
    | waiting req command own calm =>
      obtain ⟨hsent, hopen, hdata, hcalm⟩ := hholder
      dsimp only
      split
      · exact h
      · rename_i hcompleted
        have hless : Sound { s with completed := s.completed - 1, holder := none } :=
          ⟨h.matched, trivial⟩
        refine hless.finish hopen hdata (fun hcalmed => ?_) (hpaired hcompleted)
        obtain ⟨hquiet, hslot, hwoken⟩ := hcalm hcalmed
        exact ⟨⟨hquiet.exit, hquiet.deinit, hquiet.hang⟩,
          mt hslot.mpr fun hown => hcompleted (hwoken.mp hown)⟩

theorem Sound.waitTimeout (h : Sound s) : Sound (waitTimeout s) := by
  have hholder := h.holder
  rw [CmdRsp.waitTimeout]
  cases hcase : s.holder with
  | none => exact h
  | some holder =>
    rw [hcase] at hholder
    cases holder with
    | noWait | locked | reinited => exact h
    | waiting req command own calm =>
      obtain ⟨-, -, -, hcalm⟩ := hholder
      dsimp only
      split
      · rename_i hcompleted
        exact h.fail fun hcalmed => ⟨(hcalm hcalmed).2.2.mpr hcompleted, Cause.noConfusion⟩
      · exact h

/-- It depends on the slot only. -/
theorem HolderSound.withHolder {holder : Option Holder} (h : HolderSound s holder)
    (noted : Option Holder) : HolderSound { s with holder := noted } holder := by
  match holder, h with
  | none, _ => trivial
  | some (.noWait _), _ => trivial
  | some (.locked _), _ => trivial
  | some (.reinited ..), h =>
    exact fun hcalm => ⟨(h hcalm).1, (h hcalm).2.exit, (h hcalm).2.deinit, (h hcalm).2.hang⟩
  | some (.waiting ..), ⟨hsent, hopen, hdata, hcalm⟩ =>
    exact ⟨hsent, hopen, hdata, fun hcalmed => ⟨⟨(hcalm hcalmed).1.exit, (hcalm hcalmed).1.deinit,
      (hcalm hcalmed).1.hang⟩, (hcalm hcalmed).2⟩⟩

/-- What holds of the slot of a caller that waits when a response is freed. -/
theorem HolderSound.freed {req : Request} {own : List Response} {calm : Bool} {r : Response}
    {command : ℕ} (h : HolderSound s (some (.waiting req command own calm)))
    (hfirst : r.command = command → calm = true → own ≠ []) :
    HolderSound s (some (.waiting req command (if r.command = command then own ++ [r] else own)
      calm)) := by
  obtain ⟨hsent, hopen, hdata, hcalm⟩ := h
  split
  · rename_i hcommand
    refine ⟨hsent, hopen, fun r' hr' => ⟨List.mem_append_left _ (hdata r' hr').1, (hdata r' hr').2⟩,
      fun hcalmed => ?_⟩
    obtain ⟨hquiet, hslot, hwoken⟩ := hcalm hcalmed
    have hne := hfirst hcommand hcalmed
    have hne' : own ++ [r] ≠ [] := List.append_ne_nil_of_right_ne_nil _ (List.cons_ne_nil _ _)
    exact ⟨hquiet, iff_of_false hne' (mt hslot.mpr hne), iff_of_false hne' (mt hwoken.mpr hne)⟩
  · exact ⟨hsent, hopen, hdata, hcalm⟩

/-- A response gets into the slot of a caller that waits exactly if it answers its command. -/
theorem Sound.response (h : Sound s) {r : Response} {memory : Bool}
    (hstamp : s.sent[r.command]? = some r.stamp)
    (hsuitable : Suitable p2pIntf s r memory s.holder) : Sound (rxRspProcess p2pIntf s r memory) := by
  have hholder := h.holder
  rw [rxRspProcess]
  dsimp only
  cases hcase : s.holder with
  | none => split <;> (try split) <;> exact ⟨h.matched, trivial⟩
  | some holder =>
    rw [hcase] at hholder hsuitable
    cases holder with
    | noWait | locked => split <;> (try split) <;> exact ⟨h.matched, trivial⟩
    | reinited req calm =>
      split
      · rename_i haccepts
        rw [if_neg fun hfits => hsuitable ⟨haccepts, hfits⟩]
        exact ⟨h.matched, hholder.withHolder _⟩
      · exact ⟨h.matched, hholder.withHolder _⟩
    | waiting req command own calm =>
      obtain ⟨hlands, hkept⟩ := hsuitable
      split
      · rename_i haccepts
        split
        · -- it is the first one that gets into the slot
          rename_i hfits
          obtain ⟨hcommand, hplen⟩ := hlands ⟨haccepts, hfits⟩
          obtain ⟨hsent, hopen, -, hcalm⟩ := hholder
          refine ⟨h.matched, hsent, hopen, ?_, fun hcalmed => ⟨?_, ?_, ?_⟩⟩
          · rintro r' ⟨⟩
            rw [if_pos hcommand]
            exact ⟨List.mem_append_right _ (List.mem_singleton_self _), hplen⟩
          · exact ⟨(hcalm hcalmed).1.exit, (hcalm hcalmed).1.deinit, (hcalm hcalmed).1.hang⟩
          · simp [hcommand]
          · simp [hcommand]
        · -- the slot is full, or of another command
          rename_i hfits
          refine ⟨h.matched, HolderSound.freed (hholder.withHolder _) fun hcommand hcalmed hown => hfits ?_⟩
          obtain ⟨hsent, -, -, hcalm⟩ := hholder
          rw [hcommand, hsent] at hstamp
          exact ⟨(hcalm hcalmed).2.1.mp hown, (Option.some.inj hstamp).symm⟩
      · rename_i hrefused
        exact ⟨h.matched, HolderSound.freed (hholder.withHolder _) fun hcommand hcalmed hown =>
          hrefused (hkept hcommand hcalmed hown)⟩

/-- Who waits or will wait is no longer undisturbed. -/
theorem HolderSound.disturb {holder : Option Holder} (h : HolderSound s holder) {t : State}
    (hsent : t.sent = s.sent) (hstamp : t.stamp = s.stamp) (hdata : t.data = s.data) :
    HolderSound t (holder.map Holder.disturb) := by
  cases holder with
  | none => trivial
  | some holder =>
    cases holder with
    | noWait | locked => trivial
    | reinited => exact fun hcalm => by cases hcalm
    | waiting req command own calm =>
      obtain ⟨hcommand, hopen, hslot, -⟩ := h
      refine ⟨?_, hopen, ?_, fun hcalm => by cases hcalm⟩
      · rw [hsent, hstamp]
        exact hcommand
      · rw [hdata]
        exact hslot

theorem Sound.recover (h : Sound s) : Sound (stepTo p2pIntf s .recover) := by
  have hholder := h.holder
  refine ⟨h.matched, ?_⟩
  simp only [stepTo]
  cases hcase : s.holder with
  | none => trivial
  | some holder =>
    rw [hcase] at hholder
    cases holder with
    | noWait | locked => trivial
    | reinited req calm =>
      exact fun hcalm => ⟨(hholder hcalm).1, rfl, (hholder hcalm).2.deinit, rfl⟩
    | waiting req command own calm =>
      obtain ⟨hsent, hopen, hdata, hcalm⟩ := hholder
      exact ⟨hsent, hopen, hdata, fun hcalmed =>
        ⟨⟨rfl, (hcalm hcalmed).1.deinit, rfl⟩, (hcalm hcalmed).2⟩⟩

theorem Sound.kept (h : Sound s) {e : Event} (hpaired : Paired p2pIntf s e) :
    Sound (stepTo p2pIntf s e) := by
  cases e with
  | lock | lockNoWait =>
    rw [stepTo]
    split
    · exact ⟨h.matched, trivial⟩
    · exact h
  | lockFails req => exact hpaired.elim
  | next mstime send => exact h.next hpaired
  | timeout => exact h.waitTimeout
  | xmit mstime => exact h.cmdSet _ hpaired
  | response command ctxId plen paydata memory =>
    rw [stepTo]
    cases hsent : s.sent[command]? with
    | none => exact h
    | some stamp => exact h.response hsent (hpaired stamp hsent)
  | disturb exit hang cpAsserted => exact ⟨h.matched, h.holder.disturb rfl rfl rfl⟩
  | deinit => exact ⟨h.matched, h.holder.disturb rfl rfl rfl⟩
  | recover => exact h.recover

theorem init_sound : Sound init := ⟨List.forall_mem_nil _, trivial⟩

/-- In every state of a run of paired commands, every call has got its own response or none. -/
theorem commands_matched (p2pIntf : Bool) (es : List Event)
    (hpaired : Along (step p2pIntf) (Paired p2pIntf) init es) :
    ∀ es₁ es₂ t, es = es₁ ++ es₂ → run (step p2pIntf) init es₁ = .ok t → Matched t := by
  apply prefixes_of_along_total (fun _ _ => rfl) (fun s (h : Sound s) => h.matched) init_sound
  · intro s e h hC
    exact h.kept hC
  · exact hpaired

instance (s : State) (r : Response) (memory : Bool) (holder : Option Holder) :
    Decidable (Suitable p2pIntf s r memory holder) :=
  match holder with
  | some (.reinited ..) => inferInstanceAs (Decidable (¬ Lands p2pIntf s r memory))
  | some (.waiting _ command own calm) =>
    inferInstanceAs (Decidable ((_ → _ ∧ _) ∧ (r.command = command → calm = true → own = [] → _ = true)))
  | some (.noWait _) | some (.locked _) | none => isTrue trivial

instance (s : State) (e : Event) : Decidable (Paired p2pIntf s e) :=
  match e with
  | .lockFails _ => isFalse id
  | .next _ _ =>
    match h : s.holder with
    | some (.reinited req calm) =>
      decidable_of_iff (req.cmdId = WIFI_CMD_OPEN → req.rlen = 0) (by rw [Paired, h])
    | some (.waiting req command own calm) =>
      decidable_of_iff (s.completed ≠ 0 → s.cpAsserted = true → req.rlen = 0) (by rw [Paired, h])
    | some (.noWait _) | some (.locked _) | none => isTrue (by rw [Paired, h]; trivial)
  | .xmit _ => inferInstanceAs (Decidable (∀ h ∈ s.holder, h.waits = false))
  | .response .. => inferInstanceAs (Decidable (∀ stamp ∈ _, Suitable ..))
  | .lock _ | .lockNoWait _ | .timeout | .disturb .. | .deinit | .recover => isTrue trivial

/-- A command whose response arrives in time, and a stale one before it. -/
def sampleCommands : List Event :=
  [.lockNoWait 5, .next 1 true, .lock ⟨6, 2⟩, .next 2 true, .next 2 true, .response 0 0 13 [7] true,
    .response 1 0 15 [8, 9, 10] true, .next 3 true]

theorem stale_response_ignored : ∃ t, run (step false) init sampleCommands = .ok t ∧ Matched t :=
  ⟨_, rfl, commands_matched false sampleCommands (by decide) sampleCommands [] _
    (List.append_nil _).symm rfl⟩

/-- A late response between `reinit_completion` and `sprdwl_cmd_set` wakes the caller at once; data
sent as a command takes the slot of a caller that waits; a lock that fails is reported as a response;
and a response that is thrown away does not wake the caller. -/
theorem responses_mismatched :
    (∃ t, run (step false) init
      [.lockNoWait 5, .next 1 true, .lock ⟨6, 2⟩, .next 2 true, .response 0 0 13 [7] true,
        .next 2 true, .next 2 true, .response 1 0 13 [8] true] = .ok t ∧ ¬ Matched t) ∧
    (∃ t, run (step false) init
      [.lock ⟨6, 2⟩, .next 2 true, .next 2 true, .xmit 3, .response 1 0 13 [7] true, .next 3 true] =
        .ok t ∧ ¬ Matched t) ∧
    (∃ t, run (step false) init [.lockFails ⟨6, 2⟩] = .ok t ∧ ¬ Matched t) ∧
    ∃ t, run (step false) init
      [.lock ⟨6, 2⟩, .next 2 true, .next 2 true, .response 0 3 13 [7] true, .timeout] = .ok t ∧
        ¬ Matched t := by
  refine ⟨⟨_, rfl, fun h => ?_⟩, ⟨_, rfl, fun h => ?_⟩, ⟨_, rfl, fun h => ?_⟩, _, rfl, fun h => ?_⟩
  · have hret := (h _ (List.mem_singleton_self _)).ret rfl (Or.inr rfl)
    exact absurd hret (by decide)
  · obtain ⟨own, hown, -⟩ := (h _ (List.mem_singleton_self _)).own rfl
    cases hown
  · obtain ⟨own, hown, -⟩ := (h _ (List.mem_singleton_self _)).own rfl
    cases hown
  · have hret := (h _ (List.mem_singleton_self _)).ret rfl (Or.inl (List.cons_ne_nil _ _))
    exact absurd hret (by decide)

end Uwe5631.CmdRsp
