import Uwe5631.HciCommands
import Mathlib

/-!
# How `rx_data_recv` splits what it receives

Each round takes the packet that the rest of the buffer begins with. The tests of the lengths only
log.
-/
namespace Uwe5631.Hci

/-- `recv_kernel_event`: whether an event has the opcode that `hci_cmd` has. The address that an
event with the opcode `0x1009` brings is copied. -/
def eventTaken (opcode : BitVec 16) (rx : List Byte) : Except Fault Bool :=
  if kernelEvent rx then
    (kernelOpcode rx).bind fun op =>
      if op = 0x1009 then (readArray rx 7 BD_ADDR_LEN).map fun _ => decide (opcode = op)
      else .ok (decide (opcode = op))
  else .ok false

/-- A round of `rx_data_recv`: what it leaves of the buffer and what it passes to `upper_cb`. A
packet that is longer than what is left makes `left_length` negative, so that the next round reads
behind the buffer even if `upper_cb` did not. -/
def rxRound (opcode : BitVec 16) (rx : List Byte) : Except Fault (List Byte × Option (List Byte)) :=
  (packLength rx).bind fun
    -- the first four bytes of what is unknown are logged
    | none => (readArray rx 0 4).map fun _ => ([], none)
    | some length => (eventTaken opcode rx).bind fun taken =>
      if rx.length < length then .error .overread
      else .ok (rx.drop length, if taken then none else some (rx.take length))

theorem readByte_eq_ok_iff {rx : List Byte} {i : ℕ} {b : Byte} :
    readByte rx i = .ok b ↔ rx[i]? = some b := by
  rw [readByte]
  cases rx[i]? with
  | none => exact ⟨fun h => (by cases h), fun h => (by cases h)⟩
  | some c => exact ⟨fun h => congrArg some (Except.ok.inj h), fun h => congrArg _ (Option.some.inj h)⟩

theorem readByte_of_lt {rx : List Byte} {i : ℕ} (h : i < rx.length) : ∃ b, readByte rx i = .ok b :=
  ⟨rx[i], readByte_eq_ok_iff.mpr (List.getElem?_eq_getElem h)⟩

theorem lt_of_readByte {rx : List Byte} {i : ℕ} {b : Byte} (h : readByte rx i = .ok b) :
    i < rx.length := (List.getElem?_eq_some_iff.mp (readByte_eq_ok_iff.mp h)).1

/-- A byte that was read stays where it is when more follows. -/
theorem readByte_append {rx : List Byte} (later : List Byte) {i : ℕ} {b : Byte}
    (h : readByte rx i = .ok b) : readByte (rx ++ later) i = .ok b := by
  rw [readByte_eq_ok_iff] at h ⊢
  rw [List.getElem?_append_left (List.getElem?_eq_some_iff.mp h).1, h]

theorem readUint16_eq_ok_iff {rx : List Byte} {i : ℕ} {op : BitVec 16} :
    readUint16 rx i = .ok op ↔
      ∃ lo hi : Byte, readByte rx i = .ok lo ∧ readByte rx (i + 1) = .ok hi ∧ hi ++ lo = op := by
  rw [readUint16]
  cases readByte rx i with
  | error e => exact ⟨fun h => (by cases h), fun ⟨_, _, h, _⟩ => (by cases h)⟩
  | ok lo =>
    cases readByte rx (i + 1) with
    | error e => exact ⟨fun h => (by cases h), fun ⟨_, _, _, h, _⟩ => (by cases h)⟩
    | ok hi =>
      constructor
      · exact fun h => ⟨lo, hi, rfl, rfl, Except.ok.inj h⟩
      · rintro ⟨_, _, ⟨⟩, ⟨⟩, h⟩
        exact congrArg Except.ok h

theorem kernelOpcode_append {rx : List Byte} (later : List Byte) {op : BitVec 16}
    (h : kernelOpcode rx = .ok op) : kernelOpcode (rx ++ later) = .ok op := by
  have hsecond : ∀ i, i < rx.length → (rx ++ later)[i]? = rx[i]? := fun i hi =>
    List.getElem?_append_left hi
  have hword : ∀ {i : ℕ} {op : BitVec 16}, readUint16 rx i = .ok op →
      readUint16 (rx ++ later) i = .ok op := by
    intro i op hop
    obtain ⟨lo, hi, hlo, hhi, heq⟩ := readUint16_eq_ok_iff.mp hop
    exact readUint16_eq_ok_iff.mpr ⟨lo, hi, readByte_append _ hlo, readByte_append _ hhi, heq⟩
  rw [kernelOpcode] at h ⊢
  split at h
  · rename_i hstatus
    have hlt := (List.getElem?_eq_some_iff.mp hstatus).1
    rw [hsecond 1 hlt, if_pos hstatus]
    exact hword h
  · rename_i hstatus
    cases hfour : readUint16 rx 4 with
    | error e =>
      rw [hfour] at h
      cases h
    | ok op' =>
      rw [hfour] at h
      cases hsix : readByte rx 6 with
      | error e =>
        rw [Except.bind, hsix] at h
        cases h
      | ok b =>
        rw [Except.bind, hsix] at h
        have hlt := lt_of_readByte hsix
        rw [hsecond 1 (by omega), if_neg hstatus, hword hfour, Except.bind, readByte_append _ hsix]
        exact h

/-- The opcode and the status behind it lie in seven bytes. -/
theorem kernelOpcode_ok_iff (rx : List Byte) : (∃ op, kernelOpcode rx = .ok op) ↔ 7 ≤ rx.length := by
  rw [kernelOpcode]
  constructor
  · rintro ⟨op, h⟩
    split at h
    · obtain ⟨_, _, _, hhi, _⟩ := readUint16_eq_ok_iff.mp h
      exact lt_of_readByte hhi
    · cases hfour : readUint16 rx 4 with
      | error e =>
        rw [hfour] at h
        cases h
      | ok op' =>
        rw [hfour, Except.bind] at h
        cases hsix : readByte rx 6 with
        | error e =>
          rw [hsix] at h
          cases h
        | ok b => exact lt_of_readByte hsix
  · intro h
    have hword : ∀ i, i + 1 < rx.length → ∃ op, readUint16 rx i = .ok op := by
      intro i hi
      obtain ⟨lo, hlo⟩ := readByte_of_lt (Nat.lt_of_succ_lt hi)
      obtain ⟨hi, hhi⟩ := readByte_of_lt hi
      exact ⟨hi ++ lo, readUint16_eq_ok_iff.mpr ⟨lo, hi, hlo, hhi, rfl⟩⟩
    split
    · exact hword 5 (by omega)
    · obtain ⟨op, hop⟩ := hword 4 (by omega)
      obtain ⟨b, hb⟩ := readByte_of_lt (show 6 < rx.length by omega)
      exact ⟨op, by rw [hop, Except.bind, hb]; rfl⟩

/-- What `recv_kernel_event` reads of an event lies in the buffer. -/
def EventInside (rx : List Byte) : Prop :=
  kernelEvent rx = true → 7 ≤ rx.length ∧ (kernelOpcode rx = .ok 0x1009 → 13 ≤ rx.length)

/-- Whether `recv_kernel_event` finds the opcode of `hci_cmd`. -/
def Matches (opcode : BitVec 16) (rx : List Byte) : Prop :=
  kernelEvent rx = true ∧ kernelOpcode rx = .ok opcode

instance (opcode : BitVec 16) (rx : List Byte) : Decidable (Matches opcode rx) :=
  inferInstanceAs (Decidable (_ ∧ _))

theorem readArray_ok_iff (rx : List Byte) (i len : ℕ) (hlen : 0 < len) :
    (∃ xs, readArray rx i len = .ok xs) ↔ i + len ≤ rx.length := by
  rw [readArray, List.length_drop]
  split
  · exact ⟨fun ⟨_, h⟩ => (by cases h), fun h => (by omega)⟩
  · exact ⟨fun _ => by omega, fun _ => ⟨_, rfl⟩⟩

theorem eventTaken_spec (opcode : BitVec 16) (rx : List Byte) :
    (EventInside rx ∧ eventTaken opcode rx = .ok (decide (Matches opcode rx))) ∨
      (¬ EventInside rx ∧ ∃ e, eventTaken opcode rx = .error e) := by
  rw [eventTaken]
  by_cases hevent : kernelEvent rx = true
  · rw [if_pos hevent]
    cases hop : kernelOpcode rx with
    | error e =>
      refine .inr ⟨fun h => ?_, e, rfl⟩
      obtain ⟨op, hop'⟩ := (kernelOpcode_ok_iff rx).mpr (h hevent).1
      rw [hop] at hop'
      cases hop'
    | ok op =>
      have hseven := (kernelOpcode_ok_iff rx).mp ⟨op, hop⟩
      have hmatch : decide (Matches opcode rx) = decide (opcode = op) := by
        refine decide_eq_decide.mpr ⟨fun h => ?_, fun h => ⟨hevent, h ▸ hop⟩⟩
        exact (Except.ok.inj (hop.symm.trans h.2)).symm
      rw [Except.bind, hmatch]
      by_cases hown : op = 0x1009
      · rw [if_pos hown]
        have harray := readArray_ok_iff rx 7 BD_ADDR_LEN (by decide)
        cases haddr : readArray rx 7 BD_ADDR_LEN with
        | error e =>
          refine .inr ⟨fun h => ?_, e, rfl⟩
          obtain ⟨xs, hxs⟩ := harray.mpr ((h hevent).2 (hown ▸ hop))
          rw [haddr] at hxs
          cases hxs
        | ok xs => exact .inl ⟨fun _ => ⟨hseven, fun _ => harray.mp ⟨xs, haddr⟩⟩, rfl⟩
      · rw [if_neg hown]
        refine .inl ⟨fun _ => ⟨hseven, fun h => absurd ?_ hown⟩, rfl⟩
        exact Except.ok.inj (hop.symm.trans h)
  · rw [if_neg hevent]
    refine .inl ⟨fun h => absurd h hevent, ?_⟩
    rw [decide_eq_false fun h : Matches opcode rx => hevent h.1]

theorem packLength_pos {rx : List Byte} {n : ℕ} (h : packLength rx = .ok (some n)) : 3 ≤ n := by
  rw [packLength] at h
  cases hfst : readByte rx 0 with
  | error e =>
    rw [hfst] at h
    cases h
  | ok type =>
    rw [hfst, Except.bind] at h
    split at h
    · cases hsize : readByte rx 2 with
      | error e =>
        rw [hsize] at h
        cases h
      | ok size =>
        rw [hsize] at h
        cases h
        omega
    · split at h
      · cases hlb : readByte rx 3 with
        | error e =>
          rw [hlb] at h
          cases h
        | ok lb =>
          rw [hlb, Except.bind] at h
          cases hhb : readByte rx 4 with
          | error e =>
            rw [hhb] at h
            cases h
          | ok hb =>
            rw [hhb] at h
            cases h
            omega
      · cases h

/-- What a round that stays inside the buffer does. -/
theorem rxRound_ok {opcode : BitVec 16} {rx rest : List Byte} {up : Option (List Byte)}
    (h : rxRound opcode rx = .ok (rest, up)) :
    (packLength rx = .ok none ∧ 4 ≤ rx.length ∧ rest = [] ∧ up = none) ∨
    ∃ n, packLength rx = .ok (some n) ∧ n ≤ rx.length ∧ EventInside rx ∧ rest = rx.drop n ∧
      up = if Matches opcode rx then none else some (rx.take n) := by
  rw [rxRound] at h
  cases hlen : packLength rx with
  | error e =>
    rw [hlen] at h
    cases h
  | ok length =>
    rw [hlen, Except.bind] at h
    cases length with
    | none =>
      have harray := readArray_ok_iff rx 0 4 (by decide)
      cases hxs : readArray rx 0 4 with
      | error e =>
        rw [hxs] at h
        cases h
      | ok xs =>
        rw [hxs] at h
        cases h
        exact .inl ⟨rfl, by simpa using harray.mp ⟨xs, hxs⟩, rfl, rfl⟩
    | some n =>
      dsimp only at h
      rcases eventTaken_spec opcode rx with ⟨hinside, htaken⟩ | ⟨_, e, htaken⟩
      · rw [htaken, Except.bind] at h
        split at h
        · cases h
        · rename_i hle
          cases h
          refine .inr ⟨n, rfl, Nat.le_of_not_lt hle, hinside, rfl, ?_⟩
          simp only [decide_eq_true_eq]
      · rw [htaken] at h
        cases h

theorem rxRound_shorter {opcode : BitVec 16} {rx rest : List Byte} {up : Option (List Byte)}
    (h : rxRound opcode rx = .ok (rest, up)) : rest.length < rx.length := by
  rcases rxRound_ok h with ⟨_, hfour, rfl, _⟩ | ⟨n, hlen, hle, _, rfl, _⟩
  · rw [List.length_nil]
    omega
  · have hpos := packLength_pos hlen
    rw [List.length_drop]
    omega

/-- `rx_data_recv` from its round `k` on, with what `hci_cmd` has as opcode in each round: what it
passes to `upper_cb`. -/
def rxFrom (opcode : ℕ → BitVec 16) (k : ℕ) (rx : List Byte) : Except Fault (List (List Byte)) :=
  match _h : rxRound (opcode k) rx with
  | .error e => .error e
  | .ok r =>
    if r.1 = [] then .ok r.2.toList
    else (rxFrom opcode (k + 1) r.1).map (r.2.toList ++ ·)
  termination_by rx.length
  decreasing_by exact rxRound_shorter _h

/-- `rx_data_recv`, beside commands of the kernel: each round finds one in progress or none. -/
def rxDataRecv (waiting : ℕ → Option (BitVec 16)) (buf : List Byte) :
    Except Fault (List (List Byte)) := rxFrom (fun k => (waiting k).getD 0) 0 buf

/-! ## What can be read -/

/-- The buffer is packets that lie in it, with what `recv_kernel_event` reads of them, up to its end
or to four bytes at least that begin with an unknown one. -/
inductive Readable : List Byte → Prop
  | unknown {rx : List Byte} : packLength rx = .ok none → 4 ≤ rx.length → Readable rx
  | last {rx : List Byte} : packLength rx = .ok (some rx.length) → EventInside rx → Readable rx
  | packet {rx : List Byte} {n : ℕ} : packLength rx = .ok (some n) → n < rx.length →
      EventInside rx → Readable (rx.drop n) → Readable rx

theorem rxRound_of_readable {opcode : BitVec 16} {rx : List Byte} {n : ℕ}
    (hlen : packLength rx = .ok (some n)) (hle : n ≤ rx.length) (hinside : EventInside rx) :
    rxRound opcode rx =
      .ok (rx.drop n, if Matches opcode rx then none else some (rx.take n)) := by
  rcases eventTaken_spec opcode rx with ⟨_, htaken⟩ | ⟨hno, _⟩
  · rw [rxRound, hlen, Except.bind]
    dsimp only
    rw [htaken, Except.bind, if_neg (Nat.not_lt.mpr hle)]
    simp only [decide_eq_true_eq]
  · exact absurd hinside hno

theorem rxFrom_of_ok {opcode : ℕ → BitVec 16} {k : ℕ} {rx : List Byte}
    {r : List Byte × Option (List Byte)} (h : rxRound (opcode k) rx = .ok r) :
    rxFrom opcode k rx = if r.1 = [] then .ok r.2.toList
      else (rxFrom opcode (k + 1) r.1).map (r.2.toList ++ ·) := by
  rw [rxFrom]
  split
  · rename_i e he
    rw [h] at he
    cases he
  · rename_i r' hr'
    rw [h] at hr'
    cases hr'
    rfl

theorem rxFrom_of_error {opcode : ℕ → BitVec 16} {k : ℕ} {rx : List Byte} {e : Fault}
    (h : rxRound (opcode k) rx = .error e) : rxFrom opcode k rx = .error e := by
  rw [rxFrom]
  split
  · rfl
  · rename_i r' hr'
    rw [h] at hr'
    cases hr'

/-- The calls that read and pass on only bytes of the buffer. -/
theorem rxFrom_ok_iff (opcode : ℕ → BitVec 16) (k : ℕ) (rx : List Byte) :
    (∃ up, rxFrom opcode k rx = .ok up) ↔ Readable rx := by
  constructor
  · intro h
    induction hn : rx.length using Nat.strong_induction_on generalizing k rx with
    | _ n ih =>
      cases hround : rxRound (opcode k) rx with
      | error e =>
        rw [rxFrom_of_error hround] at h
        obtain ⟨up, h⟩ := h
        cases h
      | ok r =>
        rw [rxFrom_of_ok hround] at h
        obtain ⟨rest, up⟩ := r
        have hshort := rxRound_shorter hround
        rcases rxRound_ok hround with ⟨hnone, hfour, _, _⟩ | ⟨n, hlen, hle, hinside, rfl, _⟩
        · exact .unknown hnone hfour
        · dsimp only at h hshort
          by_cases hnil : rx.drop n = []
          · have hge := List.drop_eq_nil_iff.mp hnil
            obtain rfl : n = rx.length := by omega
            exact .last hlen hinside
          · rw [if_neg hnil] at h
            have hlt : n < rx.length := by
              by_contra hge
              exact hnil (List.drop_eq_nil_iff.mpr (Nat.le_of_not_lt hge))
            refine .packet hlen hlt hinside (ih _ (hn ▸ hshort) (k + 1) _ ?_ rfl)
            cases hrest : rxFrom opcode (k + 1) (rx.drop n) with
            | error e =>
              rw [hrest] at h
              obtain ⟨up', h⟩ := h
              cases h
            | ok up' => exact ⟨up', rfl⟩
  · intro h
    induction h generalizing k with
    | @unknown rx hnone hfour =>
      obtain ⟨xs, hxs⟩ := (readArray_ok_iff rx 0 4 (by decide)).mpr (by omega)
      have hround : rxRound (opcode k) rx = .ok ([], none) := by
        rw [rxRound, hnone, Except.bind]
        dsimp only
        rw [hxs]
        rfl
      exact ⟨[], by rw [rxFrom_of_ok hround]; rfl⟩
    | last hlen hinside =>
      rw [rxFrom_of_ok (rxRound_of_readable hlen (Nat.le_refl _) hinside)]
      dsimp only
      rw [if_pos (List.drop_length)]
      exact ⟨_, rfl⟩
    | packet hlen hlt hinside _ ih =>
      rw [rxFrom_of_ok (rxRound_of_readable hlen hlt.le hinside)]
      dsimp only
      obtain ⟨up, hup⟩ := ih (k + 1)
      rw [if_neg fun hnil => Nat.not_le.mpr hlt (List.drop_eq_nil_iff.mp hnil), hup]
      exact ⟨_, rfl⟩

/-! ## Complete packets -/

/-- An event or ACL packet of the length it has in its header. -/
def Complete (p : List Byte) : Prop := packLength p = .ok (some p.length)

/-- Whether a packet is the answer to the command of the kernel in progress. -/
def isAnswer (waiting : Option (BitVec 16)) (p : List Byte) : Bool :=
  match waiting with
  | some opcode => decide (Matches opcode p)
  | none => false

/-- The packets to be delivered, where each finds a command in progress or none. -/
def delivered (waiting : ℕ → Option (BitVec 16)) : ℕ → List (List Byte) → List (List Byte)
  | _, [] => []
  | k, p :: ps =>
    if isAnswer (waiting k) p then delivered waiting (k + 1) ps else p :: delivered waiting (k + 1) ps

/-- No packet but an answer has the opcode that `hci_cmd` has, which is 0 where no command is in
progress. The opcode is read where it would be, if the packet has one or not. -/
def Kept (waiting : ℕ → Option (BitVec 16)) : ℕ → List (List Byte) → Prop
  | _, [] => True
  | k, p :: ps => (Matches ((waiting k).getD 0) (p ++ ps.flatten) → isAnswer (waiting k) p = true) ∧
    Kept waiting (k + 1) ps

/-- Every complete packet of a buffer of such once and in order, but the answers. -/
def Delivers (waiting : ℕ → Option (BitVec 16)) (buf : List Byte) : Prop :=
  ∀ packets, packets ≠ [] → (∀ p ∈ packets, Complete p) → packets.flatten = buf →
    rxDataRecv waiting buf = .ok (delivered waiting 0 packets)

theorem packLength_append {rx : List Byte} (later : List Byte) {n : ℕ}
    (h : packLength rx = .ok (some n)) : packLength (rx ++ later) = .ok (some n) := by
  rw [packLength] at h ⊢
  cases hfst : readByte rx 0 with
  | error e =>
    rw [hfst] at h
    cases h
  | ok type =>
    rw [hfst, Except.bind] at h
    rw [readByte_append _ hfst, Except.bind]
    split at h
    · rename_i hevt
      rw [if_pos hevt]
      cases hsize : readByte rx 2 with
      | error e =>
        rw [hsize] at h
        cases h
      | ok size =>
        rw [hsize] at h
        rw [readByte_append _ hsize]
        exact h
    · rename_i hevt
      rw [if_neg hevt]
      split at h
      · rename_i hacl
        rw [if_pos hacl]
        cases hlb : readByte rx 3 with
        | error e =>
          rw [hlb] at h
          cases h
        | ok lb =>
          rw [hlb, Except.bind] at h
          rw [readByte_append _ hlb, Except.bind]
          cases hhb : readByte rx 4 with
          | error e =>
            rw [hhb] at h
            cases h
          | ok hb =>
            rw [hhb] at h
            rw [readByte_append _ hhb]
            exact h
      · cases h

theorem Complete.length (h : Complete p) : 3 ≤ p.length := packLength_pos h

theorem kernelEvent_append {p : List Byte} (hlen : 2 ≤ p.length) (later : List Byte) :
    kernelEvent (p ++ later) = kernelEvent p := by
  rw [kernelEvent, kernelEvent, List.getElem?_append_left (by omega),
    List.getElem?_append_left (by omega)]

/-- An answer is taken by `recv_kernel_event`, whatever follows it. -/
theorem matches_of_isAnswer {waiting : Option (BitVec 16)} {p : List Byte} (h : Complete p)
    (hanswer : isAnswer waiting p = true) (later : List Byte) :
    Matches (waiting.getD 0) (p ++ later) := by
  cases waiting with
  | none => cases hanswer
  | some opcode =>
    obtain ⟨hevent, hop⟩ := of_decide_eq_true hanswer
    exact ⟨by rw [kernelEvent_append (by have := h.length; omega)]; exact hevent,
      kernelOpcode_append _ hop⟩

/-- What is passed on of complete packets. -/
def passed (waiting : ℕ → Option (BitVec 16)) : ℕ → List (List Byte) → List (List Byte)
  | _, [] => []
  | k, p :: ps =>
    if Matches ((waiting k).getD 0) (p ++ ps.flatten) then passed waiting (k + 1) ps
    else p :: passed waiting (k + 1) ps

variable {waiting : ℕ → Option (BitVec 16)} {packets : List (List Byte)}

theorem flatten_eq_nil_of_complete (hall : ∀ p ∈ packets, Complete p) (h : packets.flatten = []) :
    packets = [] := by
  cases packets with
  | nil => rfl
  | cons p ps =>
    have hlen := (hall p List.mem_cons_self).length
    rw [List.flatten_cons, List.append_eq_nil_iff] at h
    rw [h.1, List.length_nil] at hlen
    omega

/-- A readable buffer of complete packets is split into them. -/
theorem rxFrom_eq_passed (k : ℕ) (hne : packets ≠ []) (hall : ∀ p ∈ packets, Complete p)
    (hread : Readable packets.flatten) :
    rxFrom (fun k => (waiting k).getD 0) k packets.flatten = .ok (passed waiting k packets) := by
  induction packets generalizing k with
  | nil => exact absurd rfl hne
  | cons p ps ih =>
    have hp := hall p List.mem_cons_self
    have hlen := packLength_append ps.flatten hp
    have hpos := hp.length
    have htail := flatten_eq_nil_of_complete fun q hq => hall q (List.mem_cons_of_mem _ hq)
    rw [List.flatten_cons] at hread ⊢
    have hinside : EventInside (p ++ ps.flatten) ∧ (ps ≠ [] → Readable ps.flatten) := by
      cases hread with
      | unknown hnone => cases hlen.symm.trans hnone
      | last hlast hinside =>
        refine ⟨hinside, fun hps => absurd (htail ?_) hps⟩
        have heq := Option.some.inj (Except.ok.inj (hlen.symm.trans hlast))
        rw [List.length_append] at heq
        exact List.eq_nil_of_length_eq_zero (by omega)
      | packet hsome _ hinside hrest =>
        have heq := Option.some.inj (Except.ok.inj (hlen.symm.trans hsome))
        rw [← heq, List.drop_left] at hrest
        exact ⟨hinside, fun _ => hrest⟩
    rw [rxFrom_of_ok (rxRound_of_readable hlen (by rw [List.length_append]; omega) hinside.1),
      List.drop_left, List.take_left, passed]
    dsimp only
    by_cases hps : ps = []
    · subst hps
      rw [if_pos (show List.flatten [] = [] from rfl), passed]
      split <;> rfl
    · rw [if_neg (mt htail hps),
        ih (k + 1) hps (fun q hq => hall q (List.mem_cons_of_mem _ hq)) (hinside.2 hps)]
      split <;> rfl

/-- As many packets are passed on as are to be delivered only if those that are kept back are the
answers. -/
theorem passed_eq_delivered_iff (k : ℕ) (hall : ∀ p ∈ packets, Complete p) :
    (passed waiting k packets).length ≤ (delivered waiting k packets).length ∧
      (passed waiting k packets = delivered waiting k packets ↔ Kept waiting k packets) := by
  induction packets generalizing k with
  | nil => exact ⟨Nat.le_refl _, ⟨fun _ => trivial, fun _ => rfl⟩⟩
  | cons p ps ih =>
    have hp := hall p List.mem_cons_self
    obtain ⟨hle, hiff⟩ := ih (k + 1) fun q hq => hall q (List.mem_cons_of_mem _ hq)
    rw [passed, delivered, Kept]
    by_cases hanswer : isAnswer (waiting k) p = true
    · have hmatch := matches_of_isAnswer hp hanswer ps.flatten
      rw [if_pos hmatch, if_pos hanswer]
      exact ⟨hle, hiff.trans ⟨fun h => ⟨fun _ => hanswer, h⟩, And.right⟩⟩
    · rw [if_neg hanswer]
      by_cases hmatch : Matches ((waiting k).getD 0) (p ++ ps.flatten)
      · rw [if_pos hmatch]
        refine ⟨Nat.le_succ_of_le hle, fun h => ?_, fun h => absurd (h.1 hmatch) hanswer⟩
        have hlong := congrArg List.length h
        rw [List.length_cons] at hlong
        omega
      · rw [if_neg hmatch]
        refine ⟨Nat.succ_le_succ hle, fun h => ?_, fun h => ?_⟩
        · exact ⟨fun hm => absurd hm hmatch, hiff.mp (List.cons.inj h).2⟩
        · rw [hiff.mpr h.2]

/-- `rx_data_recv` stays inside the buffer and delivers the packets of it if and only if the buffer
can be read so, and no event but an answer has the opcode of `hci_cmd`. -/
theorem rxDataRecv_iff (waiting : ℕ → Option (BitVec 16)) (buf : List Byte) :
    ((∃ up, rxDataRecv waiting buf = .ok up) ∧ Delivers waiting buf) ↔
      Readable buf ∧ ∀ packets, packets ≠ [] → (∀ p ∈ packets, Complete p) →
        packets.flatten = buf → Kept waiting 0 packets := by
  have hread := rxFrom_ok_iff (fun k => (waiting k).getD 0) 0 buf
  have hpass : Readable buf → ∀ packets, packets ≠ [] → (∀ p ∈ packets, Complete p) →
      packets.flatten = buf → rxDataRecv waiting buf = .ok (passed waiting 0 packets) := by
    rintro hbuf packets hne hall rfl
    exact rxFrom_eq_passed 0 hne hall hbuf
  constructor
  · rintro ⟨hok, hdelivers⟩
    have hbuf := hread.mp hok
    refine ⟨hbuf, fun packets hne hall heq => ?_⟩
    have hboth := (hpass hbuf packets hne hall heq).symm.trans (hdelivers packets hne hall heq)
    exact (passed_eq_delivered_iff 0 hall).2.mp (Except.ok.inj hboth)
  · rintro ⟨hbuf, hkept⟩
    refine ⟨hread.mpr hbuf, fun packets hne hall heq => ?_⟩
    rw [hpass hbuf packets hne hall heq,
      (passed_eq_delivered_iff 0 hall).2.mpr (hkept packets hne hall heq)]

/-- A disconnection event without its last byte: `upper_cb` is given seven bytes of six. -/
theorem truncated_event_overreads :
    ¬ ((∃ up, rxDataRecv (fun _ => none) [0x04, 0x05, 0x04, 0x00, 0x02, 0x00] = .ok up) ∧
      Delivers (fun _ => none) [0x04, 0x05, 0x04, 0x00, 0x02, 0x00]) := by
  rintro ⟨⟨up, hup⟩, -⟩
  rw [rxDataRecv, rxFrom_of_error (show rxRound _ _ = .error .overread by rfl)] at hup
  cases hup

end Uwe5631.Hci
