import Uwe5631.FallibleRuns
import Mathlib

/-!
# Commands of the driver to the controller

`hci_cmd_send_sync` marks its opcode as waited for, writes its command and waits on a semaphore;
`rx_data_recv` ups the semaphore for an event with that opcode and passes all others on. The two run
beside each other.
-/
namespace Uwe5631.Hci
open FallibleRuns

abbrev Byte := BitVec 8

abbrev HCI_CMD : Byte := 0x01

abbrev HCI_ACL : Byte := 0x02

abbrev HCI_EVT : Byte := 0x04

abbrev BT_HCI_EVT_CMD_COMPLETE : Byte := 0x0e

abbrev BT_HCI_EVT_CMD_STATUS : Byte := 0x0f

abbrev BYTE_ALIGNMENT : ℕ := 4

abbrev BD_ADDR_LEN : ℕ := 6

/-- Where `hci_cmd_send_sync` is. -/
inductive Phase where
  /-- `hci_cmd.opcode` is set -/
  | set
  /-- the command is written, in `down` -/
  | written
  /-- `down` has returned -/
  | woken
  deriving DecidableEq, Repr

structure Call where
  opcode : BitVec 16
  payload : Option (List Byte)
  phase : Phase
  /-- whether an event with the opcode was received after the write -/
  answered : Bool
  deriving DecidableEq, Repr

structure State where
  /-- `hci_cmd.opcode`, 0 for none -/
  opcode : BitVec 16
  /-- `hci_cmd.wait` -/
  wait : ℕ
  call : Option Call
  /-- what `rx_data_recv` has left of its buffer -/
  rx : List Byte
  /-- whether `recv_kernel_event` is between its test and `up` -/
  matched : Bool
  ownPublicAddr : List Byte
  /-- what was written to the controller -/
  sent : List (List Byte)
  /-- the packets passed to `upper_cb` -/
  upper : List (List Byte)
  /-- the packets received, with whether they were the answer to a command in progress -/
  received : List (List Byte × Bool)
  /-- for each call that has returned, whether it was answered -/
  returned : List Bool
  deriving DecidableEq, Repr

inductive Fault where
  /-- a read behind the end of the buffer -/
  | overread
  deriving DecidableEq, Repr

def readByte (rx : List Byte) (i : ℕ) : Except Fault Byte :=
  match rx[i]? with
  | some b => .ok b
  | none => .error .overread

/-- `STREAM_TO_UINT16` -/
def readUint16 (rx : List Byte) (i : ℕ) : Except Fault (BitVec 16) :=
  (readByte rx i).bind fun lo => (readByte rx (i + 1)).map fun hi => hi ++ lo

/-- `STREAM_TO_ARRAY` -/
def readArray (rx : List Byte) (i len : ℕ) : Except Fault (List Byte) :=
  if (rx.drop i).length < len then .error .overread else .ok ((rx.drop i).take len)

/-- The length of the packet `rxmsg` is at, `none` for an unknown one. -/
def packLength (rx : List Byte) : Except Fault (Option ℕ) :=
  (readByte rx 0).bind fun type =>
    if type = HCI_EVT then (readByte rx 2).map fun size => some (size.toNat + 3)
    else if type = HCI_ACL then
      (readByte rx 3).bind fun lb => (readByte rx 4).map fun hb => some ((hb ++ lb).toNat + 5)
    else .ok none

/-- Whether the packet is an event for `recv_kernel_event`. -/
def kernelEvent (rx : List Byte) : Bool :=
  rx[0]? = some HCI_EVT ∧ (rx[1]? = some BT_HCI_EVT_CMD_COMPLETE ∨ rx[1]? = some BT_HCI_EVT_CMD_STATUS)

/-- The opcode `recv_kernel_event` reads. -/
def kernelOpcode (rx : List Byte) : Except Fault (BitVec 16) :=
  if rx[1]? = some BT_HCI_EVT_CMD_STATUS then readUint16 rx 5
  else (readUint16 rx 4).bind fun opcode => (readByte rx 6).map fun _ => opcode

/-- A packet, with what `recv_kernel_event` reads of an event for it: the opcode and, after that of
`0x1009`, the address of the controller. -/
structure Packet where
  bytes : List Byte
  opcode : Option (BitVec 16)
  addr : Option (List Byte)
  deriving DecidableEq, Repr

/-- The packet `rxmsg` is at, `none` for an unknown one. -/
def nextPacket (rx : List Byte) : Except Fault (Option Packet) :=
  (packLength rx).bind fun length =>
    match length with
    | none => .ok none
    | some length =>
      if rx.length < length then .error .overread
      else if kernelEvent rx then
        (kernelOpcode rx).bind fun opcode =>
          if opcode = 0x1009 then
            (readArray rx 7 BD_ADDR_LEN).map fun addr => some ⟨rx.take length, some opcode, some addr⟩
          else .ok (some ⟨rx.take length, some opcode, none⟩)
      else .ok (some ⟨rx.take length, none, none⟩)

/-- Whether an event is the answer to the command in progress: its opcode is that of a command that
was written and not yet answered. -/
def answers (s : State) (opcode : BitVec 16) : Bool :=
  match s.call with
  | some c => c.phase ≠ .set ∧ c.opcode = opcode ∧ c.answered = false
  | none => false

/-- What is recorded of the call when an event with an opcode is received. -/
def Call.receive (opcode : BitVec 16) (c : Call) : Call :=
  { c with answered := c.answered || (c.phase ≠ .set && c.opcode = opcode) }

/-- `recv_kernel_event` up to `up` or, if the opcode is another one, with `upper_cb` after it -/
def recvKernelEvent (s : State) (pkt : List Byte) (opcode : BitVec 16) : State :=
  let s' := { s with
    received := s.received ++ [(pkt, answers s opcode)]
    call := s.call.map (Call.receive opcode) }
  if s.opcode = opcode then { s' with matched := true }
  else { s' with upper := s.upper ++ [pkt] }

/-- A round of `rx_data_recv` with the packet it is at. -/
def recvPacket (s : State) (p : Packet) : State :=
  let s := { s with rx := s.rx.drop p.bytes.length }
  match p.opcode with
  | some opcode =>
    { recvKernelEvent s p.bytes opcode with ownPublicAddr := p.addr.getD s.ownPublicAddr }
  | none => { s with upper := s.upper ++ [p.bytes], received := s.received ++ [(p.bytes, false)] }

/-- `rx_data_recv` goes on: with `up` after a match, else with its next round. -/
def rxNext (s : State) : Except Fault State :=
  if s.matched then .ok { s with wait := s.wait + 1, matched := false }
  else if s.rx = [] then .ok s
  else (nextPacket s.rx).map fun p =>
    match p with
    | some p => recvPacket s p
    | none => { s with rx := [] }

/-- `msg_req` with the padding that is written. -/
def msgReq (opcode : BitVec 16) (payload : Option (List Byte)) : List Byte :=
  let data := payload.getD []
  let msg := [HCI_CMD, opcode.setWidth 8, (opcode >>> 8).setWidth 8, BitVec.ofNat 8 data.length] ++ data
  msg ++ List.replicate (BYTE_ALIGNMENT - msg.length % BYTE_ALIGNMENT) 0

/-- `hci_cmd_send_sync` is called; there is one call at a time. -/
def sendSync (s : State) (opcode : BitVec 16) (payload : Option (List Byte)) : State :=
  match s.call with
  | some _ => s
  | none => { s with opcode := opcode, call := some ⟨opcode, payload, .set, false⟩ }

/-- It goes on. -/
def sendNext (s : State) : State :=
  match s.call with
  | none => s
  | some c =>
    match c.phase with
    | .set =>
      { s with
        sent := s.sent ++ [msgReq c.opcode c.payload]
        call := some { c with phase := .written } }
    | .written =>
      if s.wait = 0 then s
      else { s with wait := s.wait - 1, call := some { c with phase := .woken } }
    | .woken => { s with opcode := 0, call := none, returned := s.returned ++ [c.answered] }

inductive Event where
  | sendSync (opcode : BitVec 16) (payload : Option (List Byte))
  | sendNext
  /-- `rx_data_recv` is called, which it is one buffer after the other -/
  | recv (buf : List Byte)
  | rxNext
  deriving DecidableEq, Repr

def step (s : State) : Event → Except Fault State
  | .sendSync opcode payload => .ok (sendSync s opcode payload)
  | .sendNext => .ok (sendNext s)
  | .recv buf => .ok (if s.rx = [] ∧ !s.matched then { s with rx := buf } else s)
  | .rxNext => rxNext s

/-- `hci_init` -/
def init : State := ⟨0, 0, none, [], false, [], [], [], [], []⟩

/-- Each call that has returned was answered, and exactly the packets that answer no command in
progress were passed on, each once. -/
structure Unstolen (s : State) : Prop where
  returned : ∀ answered ∈ s.returned, answered = true
  upper : s.upper = (s.received.filter (fun p => !p.2)).map (·.1)

/-- An event that has the opcode that is waited for answers the command in progress. -/
def Expected (s : State) : Event → Prop
  | .rxNext => s.matched = false → s.rx ≠ [] → ∀ p, nextPacket s.rx = .ok (some p) →
    ∀ opcode, p.opcode = some opcode → s.opcode = opcode → answers s opcode = true
  | .sendSync _ _ | .sendNext | .recv _ => True

variable {s t : State} {opcode : BitVec 16}

/-- What the semaphore should count: the answer that the command in progress has and has not taken. -/
def due (s : State) : ℕ :=
  match s.call with
  | some c => if c.phase = .written ∧ c.answered = true then 1 else 0
  | none => 0

structure Sound (s : State) : Prop where
  unstolen : Unstolen s
  opcode : s.opcode = (s.call.map Call.opcode).getD 0
  tokens : s.wait + s.matched.toNat = due s
  set : ∀ c, s.call = some c → c.phase = .set → c.answered = false
  woken : ∀ c, s.call = some c → c.phase = .woken → c.answered = true

/-- A change that concerns neither the calls nor the packets. -/
theorem Sound.congr (h : Sound s) (hopcode : t.opcode = s.opcode) (hcall : t.call = s.call)
    (htokens : t.wait + t.matched.toNat = s.wait + s.matched.toNat) (hupper : t.upper = s.upper)
    (hreceived : t.received = s.received) (hreturned : t.returned = s.returned) : Sound t where
  unstolen := by
    refine ⟨?_, ?_⟩
    · rw [hreturned]
      exact h.unstolen.returned
    · rw [hupper, hreceived]
      exact h.unstolen.upper
  opcode := by rw [hopcode, hcall, h.opcode]
  tokens := by rw [htokens, h.tokens, due, due, hcall]
  set := by
    rw [hcall]
    exact h.set
  woken := by
    rw [hcall]
    exact h.woken

theorem Sound.sendSync (h : Sound s) (opcode : BitVec 16) (payload : Option (List Byte)) :
    Sound (sendSync s opcode payload) := by
  rw [Hci.sendSync]
  cases hcall : s.call with
  | some c => exact h
  | none =>
    have htokens := h.tokens
    rw [due, hcall] at htokens
    refine ⟨⟨h.unstolen.returned, h.unstolen.upper⟩, rfl, htokens, ?_, ?_⟩
    · intro c hc _
      obtain rfl := Option.some.inj hc
      rfl
    · intro c hc hwoken
      obtain rfl := Option.some.inj hc
      cases hwoken

theorem Sound.sendNext (h : Sound s) : Sound (sendNext s) := by
  have htokens := h.tokens
  have hopcode := h.opcode
  rw [Hci.sendNext]
  cases hcall : s.call with
  | none => exact h
  | some c =>
    rw [due, hcall] at htokens
    rw [hcall] at hopcode
    dsimp only at htokens ⊢
    cases hphase : c.phase with
    | set =>
      have hanswered := h.set c hcall hphase
      rw [if_neg (by simp [hphase])] at htokens
      refine ⟨⟨h.unstolen.returned, h.unstolen.upper⟩, hopcode, ?_, ?_, ?_⟩
      · simpa [due, hanswered] using htokens
      · intro d hd hset
        obtain rfl := Option.some.inj hd
        cases hset
      · intro d hd hwoken
        obtain rfl := Option.some.inj hd
        cases hwoken
    | written =>
      dsimp only
      split
      · exact h
      · rename_i hwait
        -- there is a token, and so the call is answered and it is the only one
        have hanswered : c.answered = true := by
          by_contra hno
          rw [if_neg (fun hc => hno hc.2)] at htokens
          omega
        rw [if_pos ⟨hphase, hanswered⟩] at htokens
        refine ⟨⟨h.unstolen.returned, h.unstolen.upper⟩, hopcode, ?_, ?_, ?_⟩
        · simp only [due, reduceCtorEq, false_and, if_false]
          omega
        · intro d hd hset
          obtain rfl := Option.some.inj hd
          cases hset
        · intro d hd _
          obtain rfl := Option.some.inj hd
          exact hanswered
    | woken =>
      have hanswered := h.woken c hcall hphase
      rw [if_neg (by simp [hphase])] at htokens
      refine ⟨⟨?_, h.unstolen.upper⟩, rfl, htokens, ?_, ?_⟩
      · intro a ha
        rcases List.mem_append.mp ha with ha | ha
        · exact h.unstolen.returned a ha
        · rw [List.mem_singleton.mp ha, hanswered]
      · intro d hd
        cases hd
      · intro d hd
        cases hd

/-- A packet that is passed on. -/
theorem Unstolen.pass (h : Unstolen s) (pkt : List Byte) (hreturned : t.returned = s.returned)
    (hupper : t.upper = s.upper ++ [pkt]) (hreceived : t.received = s.received ++ [(pkt, false)]) :
    Unstolen t where
  returned := by
    rw [hreturned]
    exact h.returned
  upper := by simp [hupper, hreceived, h.upper]

theorem Sound.recvKernelEvent (h : Sound s) (pkt : List Byte)
    (hexpected : s.opcode = opcode → answers s opcode = true) (hmatched : s.matched = false) :
    Sound (recvKernelEvent s pkt opcode) := by
  have htokens := h.tokens
  have hopcode := h.opcode
  rw [hmatched] at htokens
  rw [Hci.recvKernelEvent]
  dsimp only
  by_cases hop : s.opcode = opcode
  · -- the event answers the command in progress
    have hanswers := hexpected hop
    rw [if_pos hop, hanswers]
    rw [answers] at hanswers
    cases hcall : s.call with
    | none => simp [hcall] at hanswers
    | some c =>
      rw [hcall] at hopcode
      obtain ⟨hphase, hc, hanswered⟩ : c.phase ≠ .set ∧ c.opcode = opcode ∧ c.answered = false := by
        simpa [hcall] using hanswers
      have hwritten : c.phase = .written := by
        cases hp : c.phase with
        | set => exact absurd hp hphase
        | written => rfl
        | woken =>
          rw [h.woken c hcall hp] at hanswered
          cases hanswered
      simp only [due, hcall, hanswered, Bool.false_eq_true, and_false, if_false] at htokens
      refine ⟨⟨h.unstolen.returned, by simpa using h.unstolen.upper⟩, hopcode, ?_, ?_, ?_⟩
      · have hwait : s.wait = 0 := by simpa using htokens
        simp [due, Call.receive, hwritten, hc, hwait]
      · intro d hd hset
        obtain rfl := Option.some.inj hd
        exact absurd hset hphase
      · intro d hd hwoken
        obtain rfl := Option.some.inj hd
        rw [Call.receive, hwritten] at hwoken
        cases hwoken
  · -- it has another opcode than the call
    rw [if_neg hop]
    have hsame : s.call.map (Call.receive opcode) = s.call := by
      cases hcall : s.call with
      | none => rfl
      | some c =>
        rw [hcall] at hopcode
        have hne : c.opcode ≠ opcode := fun heq => hop (hopcode.trans heq)
        simp [Call.receive, hne]
    have hno : answers s opcode = false := by
      rw [answers]
      cases hcall : s.call with
      | none => rfl
      | some c =>
        rw [hcall] at hopcode
        have hne : c.opcode ≠ opcode := fun heq => hop (hopcode.trans heq)
        simp [hne]
    rw [hsame, hno]
    exact ⟨h.unstolen.pass pkt rfl rfl rfl, h.opcode, h.tokens, h.set, h.woken⟩

theorem Sound.recvPacket (h : Sound s) (p : Packet) (hmatched : s.matched = false)
    (hexpected : ∀ opcode, p.opcode = some opcode → s.opcode = opcode → answers s opcode = true) :
    Sound (recvPacket s p) := by
  have hrest : Sound { s with rx := s.rx.drop p.bytes.length } := h.congr rfl rfl rfl rfl rfl rfl
  rw [Hci.recvPacket]
  cases hp : p.opcode with
  | some opcode =>
    have hevent : Sound (Hci.recvKernelEvent { s with rx := s.rx.drop p.bytes.length } p.bytes
        opcode) := hrest.recvKernelEvent p.bytes (hexpected opcode hp) hmatched
    exact hevent.congr rfl rfl rfl rfl rfl rfl
  | none => exact ⟨hrest.unstolen.pass p.bytes rfl rfl rfl, h.opcode, h.tokens, h.set, h.woken⟩

theorem Sound.kept (h : Sound s) {e : Event} (hexpected : Expected s e) (ht : step s e = .ok t) :
    Sound t := by
  cases e with
  | sendSync opcode payload =>
    obtain rfl := Except.ok.inj ht
    exact h.sendSync opcode payload
  | sendNext =>
    obtain rfl := Except.ok.inj ht
    exact h.sendNext
  | recv buf =>
    obtain rfl := Except.ok.inj ht
    split
    · exact h.congr rfl rfl rfl rfl rfl rfl
    · exact h
  | rxNext =>
    rw [step, rxNext] at ht
    split at ht
    · rename_i hmatched
      obtain rfl := Except.ok.inj ht
      refine h.congr rfl rfl ?_ rfl rfl rfl
      rw [hmatched]
      rfl
    · rename_i hmatched
      have hmatched : s.matched = false := by simpa using hmatched
      split at ht
      · obtain rfl := Except.ok.inj ht
        exact h
      · rename_i hrx
        obtain ⟨p, hp, rfl⟩ := map_eq_ok.mp ht
        cases p with
        | some p => exact h.recvPacket p hmatched (hexpected hmatched hrx p hp)
        | none => exact h.congr rfl rfl rfl rfl rfl rfl

/-- An event that answers nothing and has the opcode that is waited for is kept from the host. -/
theorem Sound.broken (h : Sound s) {e : Event} (hexpected : ¬ Expected s e) :
    ∃ t, step s e = .ok t ∧ ¬ Unstolen t := by
  cases e with
  | sendSync | sendNext | recv => exact absurd trivial hexpected
  | rxNext =>
    obtain ⟨hmatched, hrx, p, hp, opcode, hopcode, hop, hno⟩ : s.matched = false ∧ s.rx ≠ [] ∧
        ∃ p, nextPacket s.rx = .ok (some p) ∧ ∃ opcode, p.opcode = some opcode ∧
          s.opcode = opcode ∧ answers s opcode ≠ true := by
      simpa only [Expected, Classical.not_imp, not_forall, exists_prop] using hexpected
    refine ⟨Hci.recvPacket s p, ?_, fun hbad => ?_⟩
    · rw [step, rxNext, hmatched, if_neg Bool.false_ne_true, if_neg hrx, hp]
      rfl
    · have hno : answers s opcode = false := by simpa using hno
      have hupper := hbad.upper
      have hbefore := congrArg List.length h.unstolen.upper
      have hsame : answers { s with rx := s.rx.drop p.bytes.length } opcode = answers s opcode := rfl
      rw [Hci.recvPacket, hopcode] at hupper
      simp only [Hci.recvKernelEvent, hsame, hno, if_pos hop] at hupper
      have hafter := congrArg List.length hupper
      simp only [List.filter_append, List.map_append, List.length_append] at hafter hbefore
      simp at hafter hbefore
      omega

theorem init_sound : Sound init := by
  refine ⟨⟨?_, rfl⟩, rfl, rfl, ?_, ?_⟩
  · intro a ha
    cases ha
  · intro c hc
    cases hc
  · intro c hc
    cases hc

/-- No host event is stolen, and no command returns unanswered, in all states of a run exactly if each
event of the run with the opcode that is waited for answers the command in progress. -/
theorem host_events_iff (es : List Event) :
    (∀ es₁ es₂ t, es = es₁ ++ es₂ → run step init es₁ = .ok t → Unstolen t) ↔
      Along step Expected init es :=
  along_iff_prefixes_of (fun _ h => h.unstolen) init_sound
    (fun _ _ _ h hexpected ht => h.kept hexpected ht) fun _ _ h hexpected => h.broken hexpected

/-- The controller tells with opcode 0 that it takes commands, and a command is sent. -/
def sampleEvents : List Event :=
  [.recv [0x04, 0x0e, 0x04, 0x01, 0x00, 0x00, 0x00], .rxNext, .rxNext, .sendSync 0x0c03 none,
    .sendNext, .sendNext, .sendNext]

/-- The event does not get to the host, and the command returns without an answer. -/
theorem unanswered_command_returns :
    ∃ t, run step init sampleEvents = .ok t ∧ t.upper = [] ∧ t.returned = [false] ∧
      ¬ Unstolen t := by
  refine ⟨_, rfl, by decide, by decide, fun h => ?_⟩
  exact absurd (h.returned false (by decide)) (by decide)

end Uwe5631.Hci
