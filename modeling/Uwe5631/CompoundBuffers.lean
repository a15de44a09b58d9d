import Uwe5631.MachineIntegers
import Mathlib.Data.BitVec

/-!
# Compound receive buffers

`mm_compound_data_process` walks over the short packets of one received buffer. It checks the lengths
of the packets against the buffer, and steps over their descriptors besides.
-/
namespace Uwe5631.Compound

abbrev Byte := BitVec 8

/-- `ALIGN_8BYTE` -/
def ALIGN_8BYTE (a : ℕ) : ℕ := (a + 7) / 8 * 8

/-- `sizeof(struct rx_mh_desc)` -/
def rxMhDescSize : ℕ := 28

/-- The memory from the start of the buffer on. -/
abbrev Mem := ℕ → Byte

/-- `msdu_total_len` of the descriptor at a place: `msdu_offset` and `msdu_len`. -/
def msduTotalLen (mem : Mem) (pos : ℕ) : ℕ :=
  (mem (pos + 1)).toNat + ((mem (pos + 2)).toNat + 256 * (mem (pos + 3)).toNat)

/-- `short_pkt_num` -/
def shortPktNum (mem : Mem) (pos : ℕ) : ℕ := (mem (pos + 8)).toNat

/-- The loop of `mm_compound_data_process`: the places and lengths that are copied and passed up.
An skb for the packet at a place can be allocated or not. -/
def compoundLoop (mem : Mem) (totalLen : ℤ) (alloc : ℕ → Bool) : ℕ → ℕ → ℤ → List (ℕ × ℕ)
  | 0, _, _ => []
  | num + 1, posData, len =>
    let msduLen := msduTotalLen mem posData
    let len := len + ALIGN_8BYTE msduLen
    if totalLen < len then []
    else if alloc posData = false then []
    else (posData, msduLen) ::
      compoundLoop mem totalLen alloc num (posData + ALIGN_8BYTE (msduLen + rxMhDescSize)) len

def mmCompoundDataProcess (mem : Mem) (hifOffset totalLen : ℕ) (alloc : ℕ → Bool) :
    List (ℕ × ℕ) :=
  compoundLoop mem ((totalLen : ℤ) - hifOffset) alloc (shortPktNum mem hifOffset) hifOffset 0

/-! ## Where the packets are -/

/-- The place of a packet. -/
def place (mem : Mem) (hifOffset : ℕ) : ℕ → ℕ
  | 0 => hifOffset
  | k + 1 => place mem hifOffset k +
      ALIGN_8BYTE (msduTotalLen mem (place mem hifOffset k) + rxMhDescSize)

/-- The length of a packet with its descriptor. -/
def packetLen (mem : Mem) (hifOffset k : ℕ) : ℕ := msduTotalLen mem (place mem hifOffset k)

/-- The lengths of the first packets. -/
def summed (mem : Mem) (hifOffset k : ℕ) : ℕ :=
  ∑ i ∈ Finset.range k, ALIGN_8BYTE (packetLen mem hifOffset i)

variable {mem : Mem} {hif totalLen : ℕ} {alloc : ℕ → Bool} {k : ℕ}

theorem align_le (a : ℕ) : ALIGN_8BYTE a ≤ a + 7 := by
  rw [ALIGN_8BYTE]
  omega

theorem align_stride (a : ℕ) : ALIGN_8BYTE a + 24 ≤ ALIGN_8BYTE (a + rxMhDescSize) := by
  rw [ALIGN_8BYTE, ALIGN_8BYTE, rxMhDescSize]
  omega

theorem summed_succ (k : ℕ) :
    summed mem hif (k + 1) = summed mem hif k + ALIGN_8BYTE (packetLen mem hif k) :=
  Finset.sum_range_succ _ _

theorem summed_mono {j : ℕ} (h : j ≤ k) : summed mem hif j ≤ summed mem hif k :=
  Finset.sum_le_sum_of_subset (Finset.range_mono h)

/-- The descriptors between the packets are not counted. -/
theorem summed_le_place (k : ℕ) : hif + summed mem hif k + 24 * k ≤ place mem hif k := by
  induction k with
  | zero => exact le_rfl
  | succ k ih =>
    have hstride := align_stride (packetLen mem hif k)
    rw [summed_succ, place]
    rw [packetLen] at hstride ⊢
    omega

/-- A packet is passed up if the lengths fit that far and there was memory. -/
theorem mem_compoundLoop {total : ℤ} {num : ℕ} {msdu : ℕ × ℕ} :
    msdu ∈ compoundLoop mem total alloc num (place mem hif k) (summed mem hif k) ↔
      ∃ j, k ≤ j ∧ j < k + num ∧ msdu = (place mem hif j, packetLen mem hif j) ∧
        (summed mem hif (j + 1) : ℤ) ≤ total ∧
        ∀ i, k ≤ i → i ≤ j → alloc (place mem hif i) = true := by
  induction num generalizing k with
  | zero =>
    constructor
    · intro h
      cases h
    · rintro ⟨j, hj, hlt, -⟩
      omega
  | succ num ih =>
    have hsum : (summed mem hif k : ℤ) + ALIGN_8BYTE (msduTotalLen mem (place mem hif k)) =
        (summed mem hif (k + 1) : ℕ) := by
      rw [summed_succ, packetLen, Nat.cast_add]
    rw [compoundLoop, hsum]
    split
    · rename_i hover
      constructor
      · intro h
        cases h
      · rintro ⟨j, hj, -, -, hfit, -⟩
        have hmono : summed mem hif (k + 1) ≤ summed mem hif (j + 1) := summed_mono (by omega)
        omega
    · rename_i hfit
      split
      · rename_i hnone
        constructor
        · intro h
          cases h
        · rintro ⟨j, hj, -, -, -, halloc⟩
          have hk := halloc k le_rfl hj
          rw [hnone] at hk
          cases hk
      · rename_i hsome
        rw [Bool.not_eq_false] at hsome
        rw [List.mem_cons]
        constructor
        · rintro (rfl | h)
          · refine ⟨k, le_rfl, by omega, rfl, by omega, fun i hi hik => ?_⟩
            rw [le_antisymm hik hi]
            exact hsome
          · obtain ⟨j, hj, hlt, hmsdu, hsummed, halloc⟩ := (@ih (k + 1)).mp h
            refine ⟨j, by omega, by omega, hmsdu, hsummed, fun i hi hij => ?_⟩
            rcases Nat.eq_or_lt_of_le hi with rfl | hlater
            · exact hsome
            · exact halloc i hlater hij
        · rintro ⟨j, hj, hlt, hmsdu, hsummed, halloc⟩
          rcases Nat.eq_or_lt_of_le hj with rfl | hlater
          · exact .inl hmsdu
          · refine .inr ((@ih (k + 1)).mpr ⟨j, hlater, by omega, hmsdu, hsummed, fun i hi => ?_⟩)
            exact halloc i (by omega)

/-- If all lengths fit and there is memory, every packet is passed up once and in order. -/
theorem compoundLoop_all {total : ℤ} {num : ℕ} (halloc : ∀ pos, alloc pos = true)
    (hfit : (summed mem hif (k + num) : ℤ) ≤ total) :
    compoundLoop mem total alloc num (place mem hif k) (summed mem hif k) =
      (List.range' k num).map fun j => (place mem hif j, packetLen mem hif j) := by
  induction num generalizing k with
  | zero => rfl
  | succ num ih =>
    have hsum : (summed mem hif k : ℤ) + ALIGN_8BYTE (msduTotalLen mem (place mem hif k)) =
        (summed mem hif (k + 1) : ℕ) := by
      rw [summed_succ, packetLen, Nat.cast_add]
    have hmono : summed mem hif (k + 1) ≤ summed mem hif (k + (num + 1)) := summed_mono (by omega)
    have hrest := @ih (k + 1) (by rwa [show k + 1 + num = k + (num + 1) by omega])
    rw [compoundLoop, hsum, if_neg (by omega), if_neg (by simp [halloc]), List.range'_succ, List.map_cons]
    exact congrArg _ hrest

/-! ## The walk -/

/-- A packet, with its descriptor, lies in the buffer. -/
def Inside (mem : Mem) (hifOffset totalLen k : ℕ) : Prop :=
  place mem hifOffset k + packetLen mem hifOffset k ≤ totalLen

/-- The packets lie in the buffer with what aligns them; behind the last of several, that may be
missing. -/
def WellFormed (mem : Mem) (hifOffset totalLen : ℕ) : Prop :=
  (∀ k < shortPktNum mem hifOffset,
    place mem hifOffset k + ALIGN_8BYTE (packetLen mem hifOffset k) ≤ totalLen) ∨
  1 < shortPktNum mem hifOffset ∧
    ∀ k < shortPktNum mem hifOffset, Inside mem hifOffset totalLen k

/-- What is passed up lies in the buffer, and of a well-formed buffer it is everything. -/
structure WalksRight (mem : Mem) (hifOffset totalLen : ℕ) (alloc : ℕ → Bool) : Prop where
  inside : ∀ msdu ∈ mmCompoundDataProcess mem hifOffset totalLen alloc,
    msdu.1 + msdu.2 ≤ totalLen
  all : WellFormed mem hifOffset totalLen → (∀ pos, alloc pos = true) →
    mmCompoundDataProcess mem hifOffset totalLen alloc =
      (List.range (shortPktNum mem hifOffset)).map fun k =>
        (place mem hifOffset k, packetLen mem hifOffset k)

theorem WellFormed.summed_le (h : WellFormed mem hif totalLen) (hpos : 0 < shortPktNum mem hif) :
    hif + summed mem hif (shortPktNum mem hif) ≤ totalLen := by
  obtain ⟨last, hlast⟩ := Nat.exists_eq_add_of_lt hpos
  rw [Nat.zero_add] at hlast
  have hplace := @summed_le_place mem hif last
  rw [hlast, summed_succ]
  rcases h with haligned | ⟨hmany, hinside⟩
  · have hend := haligned last (by omega)
    omega
  · have hend := hinside last (by omega)
    have halign := align_le (packetLen mem hif last)
    rw [Inside] at hend
    omega

/-- The walk is right exactly if, wherever the lengths of the packets up to one fit, the places of
the packets before and its own length do. -/
theorem compound_walk_iff (mem : Mem) (hifOffset totalLen : ℕ) (alloc : ℕ → Bool) :
    WalksRight mem hifOffset totalLen alloc ↔
      ∀ k < shortPktNum mem hifOffset,
        (∀ i ≤ k, alloc (place mem hifOffset i) = true) →
        hifOffset + ∑ i ∈ Finset.range (k + 1), ALIGN_8BYTE (packetLen mem hifOffset i) ≤ totalLen →
        hifOffset + ∑ i ∈ Finset.range k,
          ALIGN_8BYTE (packetLen mem hifOffset i + rxMhDescSize) + packetLen mem hifOffset k ≤
            totalLen := by
  have hplace (k : ℕ) : hifOffset + ∑ i ∈ Finset.range k,
      ALIGN_8BYTE (packetLen mem hifOffset i + rxMhDescSize) = place mem hifOffset k := by
    induction k with
    | zero => rfl
    | succ k ih =>
      rw [Finset.sum_range_succ, ← Nat.add_assoc, ih]
      rfl
  have hmem (msdu : ℕ × ℕ) := @mem_compoundLoop mem hifOffset alloc 0
    ((totalLen : ℤ) - hifOffset) (shortPktNum mem hifOffset) msdu
  simp only [hplace]
  constructor
  · rintro h k hk halloc hfit
    refine h.inside (place mem hifOffset k, packetLen mem hifOffset k) ((hmem _).mpr ?_)
    refine ⟨k, Nat.zero_le k, by omega, rfl, ?_, fun i _ hi => halloc i hi⟩
    rw [summed]
    omega
  · intro h
    refine ⟨fun msdu hmsdu => ?_, fun hwell halloc => ?_⟩
    · obtain ⟨k, -, hk, rfl, hfit, halloc⟩ := (hmem msdu).mp hmsdu
      refine h k (by omega) (fun i hi => halloc i (Nat.zero_le i) hi) ?_
      rw [summed] at hfit
      omega
    · have hall := @compoundLoop_all mem hifOffset alloc 0 ((totalLen : ℤ) - hifOffset)
        (shortPktNum mem hifOffset) halloc
      rw [List.range_eq_range']
      rcases Nat.eq_zero_or_pos (shortPktNum mem hifOffset) with hzero | hpos
      · rw [mmCompoundDataProcess, hzero]
        rfl
      · refine hall ?_
        have hsummed := hwell.summed_le hpos
        rw [Nat.zero_add]
        omega

/-- Two packets of 32 bytes, and room for their 64 bytes only. -/
def sampleMem : Mem := fun i => if i = 5 ∨ i = 69 then 32 else if i = 12 then 2 else 0

/-- The second packet is copied from behind the buffer. -/
theorem second_packet_behind_buffer :
    mmCompoundDataProcess sampleMem 4 68 (fun _ => true) = [(4, 32), (68, 32)] ∧
      ¬ WalksRight sampleMem 4 68 fun _ => true := by
  have hwalk : mmCompoundDataProcess sampleMem 4 68 (fun _ => true) = [(4, 32), (68, 32)] := by
    decide
  refine ⟨hwalk, fun h => ?_⟩
  have hinside := h.inside (68, 32) (by rw [hwalk]; decide)
  omega

end Uwe5631.Compound
