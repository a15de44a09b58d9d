import Uwe5631.CyclicRedundancy
import Mathlib

/-!
# The check of a downloaded section

`sprdwl_down_ini_cmd` sends a section of the configuration with its `CRC16` behind it.
-/
namespace Uwe5631.IniDownload
open CyclicRedundancy

abbrev Byte := BitVec 8

def CRC_table : List (BitVec 16) :=
  [0x0000, 0xCC01, 0xD801, 0x1400, 0xF001, 0x3C00,
    0x2800, 0xE401, 0xA001, 0x6C00, 0x7800, 0xB401,
    0x5000, 0x9C01, 0x8801, 0x4400]

/-- The two look-ups in the loop of `CRC16`; an octet is promoted before it is added. -/
def crcByte (CRC : BitVec 16) (chChar : Byte) : BitVec 16 :=
  let CRC := CRC_table.getD ((chChar.setWidth 16 ^^^ CRC) &&& 15).toNat 0 ^^^ (CRC >>> 4)
  CRC_table.getD (((chChar >>> 4).setWidth 16 ^^^ CRC) &&& 15).toNat 0 ^^^ (CRC >>> 4)

/-- `CRC16` of the first `len` bytes. -/
def CRC16 (buf : List Byte) (len : BitVec 16) : BitVec 16 :=
  (buf.take len.toNat).foldl crcByte 0xFFFF

/-- The message of `sprdwl_down_ini_cmd`, after three bytes the code does not set. The length is
cut to 16 bits where `CRC16` takes it. -/
def downIniCmd (pad : List Byte) (secNum : Byte) (data : List Byte) : List Byte :=
  let CRC := CRC16 data (BitVec.ofNat 16 data.length)
  secNum :: pad ++ data ++ [CRC.setWidth 8, (CRC >>> 8).setWidth 8]

/-! ## The reference -/

def poly : BitVec 16 := 0xA001

/-- The bits of a string of octets in the order the register takes them. -/
def bitsOf (data : List Byte) : List Bool :=
  data.flatMap fun b => (List.range 8).map b.getLsbD

/-- The check, a bit at a time. -/
def serialCrc (data : List Byte) : BitVec 16 := check poly 0xFFFF (bitsOf data)

/-- The table has four steps of each nibble. -/
theorem CRC_table_eq : ∀ k < 16, CRC_table.getD k 0 = shifts poly 4 (BitVec.ofNat 16 k) := by
  decide

theorem low_xor_high (r : BitVec 16) : (r &&& 15) ^^^ (r &&& ~~~15) = r := by
  refine BitVec.eq_of_getLsbD_eq fun i hi => ?_
  simp only [BitVec.getLsbD_xor, BitVec.getLsbD_and, BitVec.getLsbD_not, hi, decide_true,
    Bool.true_and]
  cases r.getLsbD i <;> cases (15 : BitVec 16).getLsbD i <;> rfl

theorem getLsbD_fifteen (i : ℕ) : (15 : BitVec 16).getLsbD i = decide (i < 4) := by
  have hval : (15 : BitVec 16).getLsbD i = (decide (i < 16) && (2 ^ 4 - 1 : ℕ).testBit i) := by
    rw [← BitVec.getLsbD_ofNat]
    rfl
  rw [hval, Nat.testBit_two_pow_sub_one]
  by_cases hi : i < 4
  · simp [hi, Nat.lt_trans hi (by omega : 4 < 16)]
  · simp [hi]

/-- Four steps are a look-up of the low nibble and a move of the rest. -/
theorem shifts_four (r : BitVec 16) :
    shifts poly 4 r = CRC_table.getD (r &&& 15).toNat 0 ^^^ (r >>> 4) := by
  have hlow : (r &&& 15).toNat < 16 := by
    rw [BitVec.toNat_and]
    exact Nat.lt_succ_of_le Nat.and_le_right
  have hhigh : shifts poly 4 (r &&& ~~~15) = (r &&& ~~~15) >>> 4 := by
    refine shifts_eq_ushiftRight poly _ _ fun i hi => ?_
    rw [BitVec.getLsbD_and, BitVec.getLsbD_not, getLsbD_fifteen]
    simp [hi]
  have hmove : (r &&& ~~~15) >>> 4 = r >>> 4 := by
    refine BitVec.eq_of_getLsbD_eq fun i _ => ?_
    rw [BitVec.getLsbD_ushiftRight, BitVec.getLsbD_ushiftRight, BitVec.getLsbD_and,
      BitVec.getLsbD_not, getLsbD_fifteen]
    by_cases hi : 4 + i < 16
    · simp [hi]
    · simp [BitVec.getLsbD_of_ge r (4 + i) (by omega)]
  calc shifts poly 4 r = shifts poly 4 ((r &&& 15) ^^^ (r &&& ~~~15)) := by rw [low_xor_high]
    _ = shifts poly 4 (r &&& 15) ^^^ (r >>> 4) := by rw [shifts_xor, hhigh, hmove]
    _ = CRC_table.getD (r &&& 15).toNat 0 ^^^ (r >>> 4) := by
      rw [CRC_table_eq _ hlow, BitVec.ofNat_toNat, BitVec.setWidth_eq]

/-- One look-up of the loop is four bits taken. -/
theorem nibble_eq (CRC : BitVec 16) (x : Byte) (bits : List Bool) (hlen : bits.length = 4)
    (hbits : ∀ i < 4, bits.getD i false = x.getLsbD i) :
    CRC_table.getD ((x.setWidth 16 ^^^ CRC) &&& 15).toNat 0 ^^^ (CRC >>> 4) =
      check poly CRC bits := by
  have hindex : (CRC ^^^ ofBits 16 bits) &&& 15 = (x.setWidth 16 ^^^ CRC) &&& 15 := by
    refine BitVec.eq_of_getLsbD_eq fun i hi => ?_
    rw [BitVec.getLsbD_and, BitVec.getLsbD_and, BitVec.getLsbD_xor, BitVec.getLsbD_xor,
      getLsbD_fifteen, getLsbD_ofBits, BitVec.getLsbD_setWidth]
    by_cases hi' : i < 4
    · rw [hbits i hi', Bool.xor_comm]
    · simp [hi']
  have hrest : (CRC ^^^ ofBits 16 bits) >>> 4 = CRC >>> 4 := by
    refine BitVec.eq_of_getLsbD_eq fun i _ => ?_
    rw [BitVec.getLsbD_ushiftRight, BitVec.getLsbD_ushiftRight, BitVec.getLsbD_xor, getLsbD_ofBits,
      List.getD_eq_default _ _ (by omega), Bool.and_false, Bool.xor_false]
  rw [check_eq_shifts poly CRC bits (by omega), hlen, shifts_four, hindex, hrest]

/-- A round of the loop is eight bits taken. -/
theorem crcByte_eq (CRC : BitVec 16) (x : Byte) :
    crcByte CRC x = check poly CRC ((List.range 8).map x.getLsbD) := by
  have hsplit : (List.range 8).map x.getLsbD =
      (List.range 4).map x.getLsbD ++ (List.range 4).map (x >>> 4).getLsbD := by
    simp [List.range_succ]
  have hget : ∀ y : Byte, ∀ i < 4, ((List.range 4).map y.getLsbD).getD i false = y.getLsbD i := by
    intro y i hi
    rw [List.getD_eq_getElem _ _ (by simpa using hi), List.getElem_map, List.getElem_range]
  rw [hsplit, check_append, crcByte, nibble_eq CRC x _ (by simp) (hget x),
    nibble_eq _ (x >>> 4) _ (by simp) (hget _)]

theorem foldl_crcByte (data : List Byte) (CRC : BitVec 16) :
    data.foldl crcByte CRC = check poly CRC (bitsOf data) := by
  induction data generalizing CRC with
  | nil => rfl
  | cons x data ih =>
    rw [bitsOf, List.flatMap_cons, check_append, ← crcByte_eq, List.foldl_cons]
    exact ih _

theorem CRC16_eq_serialCrc (data : List Byte) (hlen : data.length ≤ 65535) :
    CRC16 data (BitVec.ofNat 16 data.length) = serialCrc data := by
  have hcut : (BitVec.ofNat 16 data.length).toNat = data.length :=
    Nat.mod_eq_of_lt (Nat.lt_succ_of_le hlen)
  rw [CRC16, hcut, List.take_length, foldl_crcByte, serialCrc]

theorem length_bitsOf (data : List Byte) : (bitsOf data).length = 8 * data.length := by
  induction data with
  | nil => rfl
  | cons x data ih =>
    rw [bitsOf, List.flatMap_cons, List.length_append, List.length_map, List.length_range,
      List.length_cons]
    change 8 + (bitsOf data).length = _
    omega

/-- Bit `j` of octet `i` is the bit at `8 * i + j`. -/
theorem getD_bitsOf (data : List Byte) (i j : ℕ) (hj : j < 8) :
    (bitsOf data).getD (8 * i + j) false = (data.getD i 0).getLsbD j := by
  induction data generalizing i with
  | nil => simp [bitsOf]
  | cons x data ih =>
    rw [bitsOf, List.flatMap_cons]
    have hfront : ((List.range 8).map x.getLsbD).length = 8 := by simp
    cases i with
    | zero =>
      rw [List.getD_append _ _ _ _ (by omega), List.getD_eq_getElem _ _ (by simpa using hj)]
      simp
    | succ i =>
      rw [List.getD_append_right _ _ _ _ (by omega), hfront,
        show 8 * (i + 1) + j - 8 = 8 * i + j by omega]
      exact ih i

/-- Octets are known by their bits. -/
theorem bitsOf_injective {xs ys : List Byte} (hlen : xs.length = ys.length)
    (h : bitsOf xs = bitsOf ys) : xs = ys := by
  refine List.ext_getElem hlen fun i hi hi' => BitVec.eq_of_getLsbD_eq fun j hj => ?_
  have hbit := getD_bitsOf xs i j hj
  rw [h, getD_bitsOf ys i j hj, List.getD_eq_getElem _ _ hi, List.getD_eq_getElem _ _ hi'] at hbit
  exact hbit.symm

/-- The bits in which two strings differ lie among `n` consecutive ones. -/
def Burst (xs ys : List Byte) (n : ℕ) : Prop :=
  ∃ p, ∀ i j, j < 8 → (xs.getD i 0).getLsbD j ≠ (ys.getD i 0).getLsbD j →
    p ≤ 8 * i + j ∧ 8 * i + j < p + n

theorem serialCrc_ne {xs ys : List Byte} (hlen : ys.length = xs.length) (hne : ys ≠ xs) {n : ℕ}
    (hn : n ≤ 16) (hburst : Burst xs ys n) : serialCrc ys ≠ serialCrc xs := by
  obtain ⟨p, hp⟩ := hburst
  intro heq
  have hbits : (bitsOf xs).length = (bitsOf ys).length := by
    rw [length_bitsOf, length_bitsOf, hlen]
  refine hne (bitsOf_injective hlen ?_)
  refine (eq_of_check_eq poly (by decide) hbits (p := p) hn (fun k hk => ?_) 0xFFFF heq.symm).symm
  have hk' : 8 * (k / 8) + k % 8 = k := by omega
  rw [← hk', getD_bitsOf _ _ _ (by omega), getD_bitsOf _ _ _ (by omega)] at hk
  have hwin := hp _ _ (by omega) hk
  omega

/-- `CRC16` is the check a bit at a time, which `sprdwl_down_ini_cmd` puts behind the section, and
no string that differs in a burst of 16 bits at most has the same. -/
theorem CRC16_correct (data : List Byte) (hlen : data.length ≤ 65535) :
    CRC16 data (BitVec.ofNat 16 data.length) = serialCrc data ∧
    (∀ pad secNum, downIniCmd pad secNum data = secNum :: pad ++ data ++
      [(serialCrc data).setWidth 8, (serialCrc data >>> 8).setWidth 8]) ∧
    ∀ data' : List Byte, data'.length = data.length → data' ≠ data →
      ∀ n ≤ 16, Burst data data' n →
        CRC16 data' (BitVec.ofNat 16 data'.length) ≠ CRC16 data (BitVec.ofNat 16 data.length) := by
  refine ⟨CRC16_eq_serialCrc data hlen, fun pad secNum => ?_, fun data' hlen' hne n hn hburst => ?_⟩
  · rw [downIniCmd, CRC16_eq_serialCrc data hlen]
  · rw [CRC16_eq_serialCrc data hlen, CRC16_eq_serialCrc data' (hlen' ▸ hlen)]
    exact serialCrc_ne hlen' hne hn hburst

/-- The section `123456789`, and the same with a bit of its first octet changed. -/
theorem CRC16_correct_digits :
    CRC16 [0x31, 0x32, 0x33, 0x34, 0x35, 0x36, 0x37, 0x38, 0x39] 9 =
      serialCrc [0x31, 0x32, 0x33, 0x34, 0x35, 0x36, 0x37, 0x38, 0x39] ∧
    serialCrc [0x31, 0x32, 0x33, 0x34, 0x35, 0x36, 0x37, 0x38, 0x39] = 0x4B37 ∧
    CRC16 [0x30, 0x32, 0x33, 0x34, 0x35, 0x36, 0x37, 0x38, 0x39] 9 ≠
      CRC16 [0x31, 0x32, 0x33, 0x34, 0x35, 0x36, 0x37, 0x38, 0x39] 9 := by
  have h := CRC16_correct [0x31, 0x32, 0x33, 0x34, 0x35, 0x36, 0x37, 0x38, 0x39] (by decide)
  refine ⟨h.1, by decide +kernel, h.2.2 [0x30, 0x32, 0x33, 0x34, 0x35, 0x36, 0x37, 0x38, 0x39] rfl
    (by decide) 1 (by decide) ⟨0, fun i j hj hne => ?_⟩⟩
  match i with
  | 0 =>
    have hj' : j = 0 := by
      by_contra hpos
      refine hne ?_
      interval_cases j <;> first | rfl | exact absurd rfl hpos
    omega
  | i + 1 => exact absurd rfl hne

end Uwe5631.IniDownload
