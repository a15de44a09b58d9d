import Uwe5631.Histories
import Mathlib.Data.BitVec

/-!
# A-MSDU attack filter

`sprdwl_rx_skb_process` remembers one MPDU whose first MSDU has no SNAP header and drops what else
comes of it.
-/
namespace Uwe5631.AmsduFilter
open Histories

abbrev SPRDWL_MAC_INDEX_MAX : ℕ := 4

/-- What the MSDUs of an MPDU have in common. -/
structure MpduId where
  staLutIndex : BitVec 5
  tid : BitVec 4
  seqNum : BitVec 12
  deriving DecidableEq, Repr

/-- The bit fields of `struct rx_msdu_desc` that the filter reads. -/
structure RxMsduDesc where
  ctxId : BitVec 4
  firstMsduOfMpdu : Bool
  lastBuffOfMpdu : Bool
  snapHdrPresent : Bool
  amsduFlag : Bool
  mpdu : MpduId
  deriving DecidableEq, Repr

structure Msdu where
  desc : RxMsduDesc
  /-- `ctx_id_to_vif` finds an interface -/
  vif : Bool
  /-- an IPv6 frame whose source is its destination -/
  loopback : Bool
  deriving DecidableEq, Repr

/-- The fields of `struct sprdwl_rx_if` of the filter. -/
structure RxIf where
  rxSnaphdrFlag : Bool
  /-- `rx_snaphdr_seqnum`, `rx_snaphdr_lut` and `rx_snaphdr_tid` -/
  rxSnaphdr : MpduId
  deriving DecidableEq, Repr

/-- What becomes of an MSDU. -/
inductive Outcome where
  | ctxRefused
  | filtered
  | noVif
  | loopback
  | delivered
  deriving DecidableEq, Repr

/-- The first MSDU of an A-MSDU, without a SNAP header. -/
def RxMsduDesc.Offends (d : RxMsduDesc) : Prop :=
  d.amsduFlag = true ∧ d.snapHdrPresent = false ∧ d.firstMsduOfMpdu = true

instance (d : RxMsduDesc) : Decidable d.Offends := inferInstanceAs (Decidable (_ ∧ _))

/-- `sprdwl_rx_skb_process` -/
def rxSkbProcess (rxIf : RxIf) (skb : Msdu) : RxIf × Outcome :=
  let d := skb.desc
  if SPRDWL_MAC_INDEX_MAX ≤ d.ctxId.toNat then (rxIf, .ctxRefused)
  else if d.Offends then
    ({ rxSnaphdrFlag := !d.lastBuffOfMpdu, rxSnaphdr := d.mpdu }, .filtered)
  else if rxIf.rxSnaphdrFlag = true ∧ rxIf.rxSnaphdr = d.mpdu then
    (if d.lastBuffOfMpdu then { rxIf with rxSnaphdrFlag := false } else rxIf, .filtered)
  else if skb.vif = false then (rxIf, .noVif)
  else if skb.loopback then (rxIf, .loopback)
  else (rxIf, .delivered)

def init : RxIf := ⟨false, ⟨0, 0, 0⟩⟩

/-- The fields after the MSDUs of a history. -/
def filterAfter (h : List Msdu) : RxIf := after (fun s m => (rxSkbProcess s m).1) init h

/-- What becomes of an MSDU that comes after a history. -/
def outcome (h : List Msdu) (m : Msdu) : Outcome := (rxSkbProcess (filterAfter h) m).2

def RxIf.remembers (s : RxIf) (k : MpduId) : Prop := s.rxSnaphdrFlag = true ∧ s.rxSnaphdr = k

/-- The filter gets to see the MSDU. -/
def Msdu.Seen (m : Msdu) : Prop := m.desc.ctxId.toNat < SPRDWL_MAC_INDEX_MAX

/-- An MPDU that began with an offending MSDU, and neither has its last buffer come nor has another
MPDU of the same station, TID and sequence number begun. -/
def Flagged (k : MpduId) : List Msdu → Prop :=
  Since (fun o => o.desc.Offends ∧ o.desc.mpdu = k ∧ o.desc.lastBuffOfMpdu = false)
    fun m => m.desc.mpdu = k → m.desc.firstMsduOfMpdu = false ∧ m.desc.lastBuffOfMpdu = false

/-- The MSDU is one of an MPDU that began with an offending MSDU. -/
def Attacks (h : List Msdu) (m : Msdu) : Prop :=
  m.desc.Offends ∨ m.desc.firstMsduOfMpdu = false ∧ Flagged m.desc.mpdu h

/-- The latest offending MSDU the filter has seen is of this MPDU, and it has not seen its last
buffer. -/
def Latest (k : MpduId) : List Msdu → Prop :=
  Since (fun o => o.Seen ∧ o.desc.Offends ∧ o.desc.mpdu = k ∧ o.desc.lastBuffOfMpdu = false)
    fun m => m.Seen → ¬ m.desc.Offends ∧ (m.desc.mpdu = k → m.desc.lastBuffOfMpdu = false)

/-- MSDUs of attacking MPDUs are dropped, and the filter drops no others. -/
def Right (h : List Msdu) (m : Msdu) : Prop :=
  (Attacks h m → outcome h m ≠ .delivered) ∧ (outcome h m = .filtered → Attacks h m)

/-- An MSDU that goes on with a flagged MPDU goes on with the latest of them, and an MSDU that looks
like one of the latest goes on with it and begins no other MPDU. -/
def Clear (h : List Msdu) (m : Msdu) : Prop :=
  m.Seen → ¬ m.desc.Offends →
    (m.desc.firstMsduOfMpdu = false → Flagged m.desc.mpdu h → m.vif = true → m.loopback = false →
      Latest m.desc.mpdu h) ∧
    (Latest m.desc.mpdu h → m.desc.firstMsduOfMpdu = false ∧ Flagged m.desc.mpdu h)

variable {s : RxIf} {m : Msdu} {k : MpduId} {h : List Msdu}

/-- What an MSDU makes of the memory of the filter. -/
theorem remembers_step : (rxSkbProcess s m).1.remembers k ↔
    m.Seen ∧ m.desc.Offends ∧ m.desc.mpdu = k ∧ m.desc.lastBuffOfMpdu = false ∨
      s.remembers k ∧
        (m.Seen → ¬ m.desc.Offends ∧ (m.desc.mpdu = k → m.desc.lastBuffOfMpdu = false)) := by
  by_cases hseen : m.Seen
  · have hctx : ¬ SPRDWL_MAC_INDEX_MAX ≤ m.desc.ctxId.toNat := Nat.not_le.mpr hseen
    by_cases hoff : m.desc.Offends
    · simp only [rxSkbProcess, hctx, hoff, if_false, if_true, RxIf.remembers]
      simp [hseen, and_comm]
    · by_cases hsame : s.rxSnaphdrFlag = true ∧ s.rxSnaphdr = m.desc.mpdu
      · simp only [rxSkbProcess, hctx, hoff, hsame, and_self, if_false, if_true, RxIf.remembers]
        cases hlast : m.desc.lastBuffOfMpdu with
        | false => simp [hsame]
        | true =>
          simp only [if_true, Bool.false_eq_true, false_and, and_false, false_or, false_iff]
          rintro ⟨⟨-, hk⟩, hno⟩
          have := (hno hseen).2 hk
          cases this
      · have hstay : (rxSkbProcess s m).1 = s := by
          simp only [rxSkbProcess, hctx, hoff, hsame, if_false]
          split
          · rfl
          · split <;> rfl
        rw [hstay]
        constructor
        · intro hk
          refine .inr ⟨hk, fun _ => ⟨hoff, fun hmk => ?_⟩⟩
          exact absurd ⟨hk.1, hk.2.trans hmk.symm⟩ hsame
        · rintro (⟨-, hoff', -⟩ | ⟨hk, -⟩)
          · exact absurd hoff' hoff
          · exact hk
  · have hctx : SPRDWL_MAC_INDEX_MAX ≤ m.desc.ctxId.toNat := Nat.not_lt.mp hseen
    simp [rxSkbProcess, hctx, hseen]

/-- The filter remembers the latest offending MPDU. -/
theorem remembers_iff (h : List Msdu) (k : MpduId) : (filterAfter h).remembers k ↔ Latest k h := by
  refine after_induction (I := fun h (s : RxIf) => s.remembers k ↔ Latest k h) ?_ ?_ h
  · simp [Latest, init, RxIf.remembers]
  · intro h s m ih
    rw [remembers_step, ih, Latest, since_concat]

theorem outcome_offends (hseen : m.Seen) (hoff : m.desc.Offends) : outcome h m = .filtered := by
  have hctx : ¬ SPRDWL_MAC_INDEX_MAX ≤ m.desc.ctxId.toNat := Nat.not_le.mpr hseen
  simp only [outcome, rxSkbProcess, hctx, hoff, if_false, if_true]

theorem outcome_unseen (hseen : ¬ m.Seen) : outcome h m = .ctxRefused := by
  have hctx : SPRDWL_MAC_INDEX_MAX ≤ m.desc.ctxId.toNat := Nat.not_lt.mp hseen
  simp only [outcome, rxSkbProcess, hctx, if_true]

theorem outcome_latest (hseen : m.Seen) (hlatest : Latest m.desc.mpdu h) :
    outcome h m = .filtered := by
  have hctx : ¬ SPRDWL_MAC_INDEX_MAX ≤ m.desc.ctxId.toNat := Nat.not_le.mpr hseen
  have hsame : (filterAfter h).rxSnaphdrFlag = true ∧ (filterAfter h).rxSnaphdr = m.desc.mpdu :=
    (remembers_iff h m.desc.mpdu).mpr hlatest
  simp only [outcome, rxSkbProcess, hctx, hsame, if_false]
  split
  · rfl
  · rfl

theorem outcome_other (hseen : m.Seen) (hoff : ¬ m.desc.Offends)
    (hlatest : ¬ Latest m.desc.mpdu h) :
    outcome h m =
      if m.vif = false then .noVif else if m.loopback then .loopback else .delivered := by
  have hctx : ¬ SPRDWL_MAC_INDEX_MAX ≤ m.desc.ctxId.toNat := Nat.not_le.mpr hseen
  have hsame : ¬ ((filterAfter h).rxSnaphdrFlag = true ∧ (filterAfter h).rxSnaphdr = m.desc.mpdu) :=
    hlatest ∘ (remembers_iff h m.desc.mpdu).mp
  simp only [outcome, rxSkbProcess, hctx, hoff, hsame, if_false]
  split
  · rfl
  · split <;> rfl

theorem right_iff_clear (h : List Msdu) (m : Msdu) : Right h m ↔ Clear h m := by
  by_cases hseen : m.Seen
  · by_cases hoff : m.desc.Offends
    · have hout := outcome_offends (h := h) hseen hoff
      simp [Right, Clear, hout, hoff, Attacks]
    · by_cases hlatest : Latest m.desc.mpdu h
      · have hout := outcome_latest hseen hlatest
        simp [Right, Clear, hout, hoff, hseen, hlatest, Attacks]
      · have hout := outcome_other hseen hoff hlatest
        have hnot : outcome h m ≠ .filtered := by
          rw [hout]
          split
          · simp
          · split <;> simp
        have hdelivered : outcome h m = .delivered ↔ m.vif = true ∧ m.loopback = false := by
          rw [hout]
          cases m.vif <;> cases m.loopback <;> simp
        simp [Right, Clear, hnot, hoff, hseen, hlatest, Attacks, hdelivered]
  · have hout := outcome_unseen (h := h) hseen
    simp [Right, Clear, hout, hseen]

/-- In a stream all MSDUs of attacking MPDUs are dropped and the filter drops no others exactly if
each MSDU of an attacking MPDU is one of the latest and no MPDU is taken for the latest by mistake. -/
theorem attack_filter_iff (ms : List Msdu) :
    (∀ h m rest, ms = h ++ m :: rest → Right h m) ↔
      ∀ h m rest, ms = h ++ m :: rest → Clear h m := by
  simp only [right_iff_clear]

/-- Two stations send an offending MSDU each, and the first goes on. -/
def sampleStream : List Msdu :=
  [⟨⟨0, true, false, false, true, ⟨6, 0, 1⟩⟩, true, false⟩,
    ⟨⟨0, true, false, false, true, ⟨7, 0, 1⟩⟩, true, false⟩]

def sampleMsdu : Msdu := ⟨⟨0, false, true, true, true, ⟨6, 0, 1⟩⟩, true, false⟩

/-- The second MSDU of the first station is delivered. -/
theorem second_offender_hides_first : ¬ ∀ h m rest, sampleStream ++ [sampleMsdu] = h ++ m :: rest →
    Right h m := by
  intro hright
  have hattack : Attacks sampleStream sampleMsdu := by
    refine .inr ⟨rfl, [], _, _, rfl, ⟨by decide, rfl, rfl⟩, ?_⟩
    intro b hb
    obtain rfl := List.mem_singleton.mp hb
    intro hk
    exact absurd hk (by decide)
  exact (hright sampleStream sampleMsdu [] rfl).1 hattack rfl

end Uwe5631.AmsduFilter
