import Uwe5631.PcieRxPool

/-!
# Address events

An event of the firmware is a list of TLVs with addresses of receive buffers.
`mm_mh_data_event_process` goes over the TLVs, and the loops of `mm_buffer_unlink` and
`mm_buffer_relink` over the addresses of one. What is done with an address is a round of the pool.
-/
namespace Uwe5631.AddressEvents
open Mm (PhysAddr SPRDWL_PHYS_LEN)
open FallibleRuns (run run_cons run_append)

abbrev Byte := BitVec 8

inductive Fault where
  /-- a read behind the event -/
  | beyond
  deriving DecidableEq, Repr

def SPRDWL_PROCESS_BUFFER : Byte := 0
def SPRDWL_FREE_BUFFER : Byte := 1
def SPRDWL_REQUEST_BUFFER : Byte := 2
def SPRDWL_FLUSH_BUFFER : Byte := 3
def EINVAL : ℤ := 22

/-- `offsetof` of `tlv_num` in an event, behind the common header and the timestamp -/
def TLV_NUM : ℕ := 5
/-- `offsetof` of the first TLV -/
def VALUE : ℕ := 6
/-- `sizeof(struct sprdwl_addr_trans)` -/
def ADDR_TRANS_LEN : ℕ := 5
/-- `sizeof(struct sprdwl_addr_trans_value)` -/
def VALUE_LEN : ℕ := 2

inductive Action where
  /-- a round of `mm_buffer_unlink` -/
  | unlink (a : PhysAddr)
  /-- a round of `mm_buffer_relink` -/
  | relink (a : PhysAddr)
  | request
  | flush
  /-- `mm_refill_buffer` -/
  | refill
  deriving DecidableEq, Repr

/-- The five bytes of an address. -/
structure Entry where
  b0 : Byte
  b1 : Byte
  b2 : Byte
  b3 : Byte
  b4 : Byte
  deriving DecidableEq, Repr

def Entry.bytes (a : Entry) : List Byte := [a.b0, a.b1, a.b2, a.b3, a.b4]

def Entry.addr (a : Entry) : PhysAddr := a.b4 ++ a.b3 ++ a.b2 ++ a.b1 ++ a.b0

def read (data : List Byte) (i : ℕ) : Except Fault Byte :=
  match data[i]? with
  | some b => .ok b
  | none => .error .beyond

def readAddr (data : List Byte) (i : ℕ) : Except Fault PhysAddr :=
  match data.drop i with
  | b0 :: b1 :: b2 :: b3 :: b4 :: _ => .ok (Entry.addr ⟨b0, b1, b2, b3, b4⟩)
  | _ => .error .beyond

/-- The loop of `mm_buffer_unlink` or `mm_buffer_relink` over the TLV at `pos`, from an address on;
`n` are left. It returns the length or an error. -/
def addressLoop (data : List Byte) (act : PhysAddr → Action) (pos : ℕ) (totalLen : ℤ) :
    ℕ → ℕ → Except Fault (ℤ × List Action)
  | 0, num => .ok (num * SPRDWL_PHYS_LEN, [])
  | n + 1, num =>
    if totalLen < (num + 1) * SPRDWL_PHYS_LEN then .ok (-EINVAL, [])
    else do
      let a ← readAddr data (pos + VALUE_LEN + num * SPRDWL_PHYS_LEN)
      let r ← addressLoop data act pos totalLen n (num + 1)
      return (r.1, act a :: r.2)

/-- The switch of `mm_single_event_process`. -/
def eventSwitch (data : List Byte) (pos : ℕ) (len : ℤ) (type : Byte) :
    Except Fault (ℤ × List Action) :=
  if type = SPRDWL_PROCESS_BUFFER then do
    let num ← read data (pos + 1)
    addressLoop data .unlink pos len num.toNat 0
  else if type = SPRDWL_FREE_BUFFER then do
    let num ← read data (pos + 1)
    addressLoop data .relink pos len num.toNat 0
  else if type = SPRDWL_REQUEST_BUFFER then .ok (0, [.request])
  else if type = SPRDWL_FLUSH_BUFFER then .ok (0, [.flush])
  else .ok (-EINVAL, [])

def mmSingleEventProcess (data : List Byte) (pos : ℕ) (len : ℤ) :
    Except Fault (ℤ × List Action) := do
  let type ← read data pos
  let r ← eventSwitch data pos len type
  return (if r.1 < 0 then r.1 else r.1 + VALUE_LEN,
    r.2 ++ if type < SPRDWL_FLUSH_BUFFER then [.refill] else [])

/-- The loop of `mm_mh_data_event_process`, with how far it came in the event. -/
def tlvLoop (data : List Byte) : ℕ → ℕ → ℤ → ℤ → Except Fault (ℤ × List Action)
  | 0, value, offset, _ => .ok (value + offset, [])
  | n + 1, value, offset, remainLen =>
    if remainLen - offset - VALUE_LEN < 0 then .ok (value + offset, [])
    else do
      let r ← mmSingleEventProcess data (value + offset).toNat (remainLen - offset - VALUE_LEN)
      if r.1 < 0 then return (value + offset, r.2)
      else
        let rest ← tlvLoop data n (value + offset).toNat r.1 (remainLen - offset - VALUE_LEN)
        return (rest.1, r.2 ++ rest.2)

/-- `mm_mh_data_event_process` of an event of PCIe, before it frees the data. A round waits in
`check_mh_buffer` until the buffer's `data_write_done` is one, and does not end before; that the
hardware sets it is taken for granted. -/
def mmMhDataEventProcess (data : List Byte) : Except Fault (ℤ × List Action) := do
  let tlvNum ← read data TLV_NUM
  tlvLoop data tlvNum.toNat VALUE 0 (data.length - ADDR_TRANS_LEN)

/-- A TLV: the first two types have addresses, as many as they say. -/
structure Tlv where
  type : Byte
  num : Byte
  entries : List Entry
  known : type ≤ SPRDWL_FLUSH_BUFFER
  counted : if type ≤ SPRDWL_FREE_BUFFER then entries.length = num.toNat else entries = []

def entryBytes (as : List Entry) : List Byte := as.flatMap Entry.bytes

def Tlv.bytes (t : Tlv) : List Byte := t.type :: t.num :: entryBytes t.entries

def tlvBytes (ts : List Tlv) : List Byte := ts.flatMap Tlv.bytes

/-- What is to be done for a TLV. -/
def Tlv.actions (t : Tlv) : List Action :=
  if t.type = SPRDWL_PROCESS_BUFFER then t.entries.map (fun a => Action.unlink a.addr) ++ [Action.refill]
  else if t.type = SPRDWL_FREE_BUFFER then t.entries.map (fun a => Action.relink a.addr) ++ [Action.refill]
  else if t.type = SPRDWL_REQUEST_BUFFER then [.request, .refill]
  else [.flush]

/-- An event with these TLVs. -/
structure WellFormed (data : List Byte) (ts : List Tlv) : Prop where
  few : ts.length < 256
  bytes : ∃ head, head.length = TLV_NUM ∧
    data = head ++ BitVec.ofNat 8 ts.length :: tlvBytes ts

/-- The event is read inside, and if it is well formed, everything in it is done once and in order,
up to its end. -/
def Processes (data : List Byte) : Prop :=
  ∃ r, mmMhDataEventProcess data = .ok r ∧
    ∀ ts, WellFormed data ts → r = ((data.length : ℤ), ts.flatMap Tlv.actions)

/-- The header of the first TLV, of one of the types with addresses, or one of its addresses ends
one byte behind the event. -/
def OneBehind (data : List Byte) : Prop :=
  data.getD VALUE 0 ≤ SPRDWL_FREE_BUFFER ∧
    ∃ j ≤ (data.getD (VALUE + 1) 0).toNat, data.length = VALUE + 1 + j * SPRDWL_PHYS_LEN

variable {data : List Byte} {act : PhysAddr → Action} {pos n num : ℕ} {totalLen : ℤ}

theorem read_ok (data : List Byte) {i : ℕ} (h : i < data.length) : ∃ b, read data i = .ok b :=
  ⟨data[i], by rw [read, List.getElem?_eq_getElem h]⟩

theorem readAddr_ok (data : List Byte) {i : ℕ} (h : i + 5 ≤ data.length) : ∃ a, readAddr data i = .ok a := by
  have hlen : 5 ≤ (data.drop i).length := by
    rw [List.length_drop]
    omega
  rw [readAddr]
  generalize data.drop i = rest at hlen
  rcases rest with _ | ⟨b0, _ | ⟨b1, _ | ⟨b2, _ | ⟨b3, _ | ⟨b4, rest⟩⟩⟩⟩⟩
  case cons.cons.cons.cons.cons => exact ⟨_, rfl⟩
  all_goals simp at hlen

theorem readAddr_beyond {i : ℕ} (h : data.length < i + 5) : readAddr data i = .error .beyond := by
  have hlen : (data.drop i).length < 5 := by
    rw [List.length_drop]
    omega
  rw [readAddr]
  generalize data.drop i = rest at hlen
  rcases rest with _ | ⟨b0, _ | ⟨b1, _ | ⟨b2, _ | ⟨b3, _ | ⟨b4, rest⟩⟩⟩⟩⟩
  case cons.cons.cons.cons.cons =>
    simp only [List.length_cons] at hlen
    omega
  all_goals rfl

/-- A loop over addresses that may only use what is inside stays inside, and what it returns is an
error or a length. -/
theorem addressLoop_ok (h : (pos + VALUE_LEN : ℤ) + totalLen ≤ data.length) (n num : ℕ) :
    ∃ r, addressLoop data act pos totalLen n num = .ok r := by
  induction n generalizing num with
  | zero => exact ⟨_, rfl⟩
  | succ n ih =>
    rw [addressLoop]
    split
    · exact ⟨_, rfl⟩
    · obtain ⟨a, ha⟩ := readAddr_ok data
        (i := pos + VALUE_LEN + num * SPRDWL_PHYS_LEN)
        (by simp only [VALUE_LEN, SPRDWL_PHYS_LEN] at *; push_cast at *; omega)
      obtain ⟨r, hr⟩ := ih (num + 1)
      exact ⟨_, by rw [ha, hr]; rfl⟩

/-- The first TLV may use one byte more than there is. -/
theorem addressLoop_first (n num : ℕ) :
    (∃ r, addressLoop data act VALUE (data.length - ADDR_TRANS_LEN - VALUE_LEN) n num = .ok r) ↔
      ¬ ∃ j, num < j ∧ j ≤ num + n ∧ data.length = VALUE + 1 + j * SPRDWL_PHYS_LEN := by
  simp only [VALUE, VALUE_LEN, ADDR_TRANS_LEN, SPRDWL_PHYS_LEN]
  induction n generalizing num with
  | zero => exact iff_of_true ⟨_, rfl⟩ (by omega)
  | succ n ih =>
    rw [addressLoop]
    simp only [VALUE_LEN, SPRDWL_PHYS_LEN]
    split
    · exact iff_of_true ⟨_, rfl⟩ (by push_cast at *; omega)
    · by_cases hlast : data.length = 6 + 1 + (num + 1) * 5
      · rw [readAddr_beyond (by omega)]
        refine iff_of_false ?_ (not_not.mpr ⟨num + 1, by omega, by omega, hlast⟩)
        rintro ⟨r, hr⟩
        cases hr
      · obtain ⟨a, ha⟩ := readAddr_ok data (i := 6 + 2 + num * 5)
          (by push_cast at *; omega)
        rw [ha]
        have hrest := ih (num + 1)
        have hiff : (∃ j, num + 1 < j ∧ j ≤ num + 1 + n ∧ data.length = 6 + 1 + j * 5) ↔
            ∃ j, num < j ∧ j ≤ num + (n + 1) ∧ data.length = 6 + 1 + j * 5 := by
          constructor
          · rintro ⟨j, hlt, hle, heq⟩
            exact ⟨j, by omega, by omega, heq⟩
          · rintro ⟨j, hlt, hle, heq⟩
            exact ⟨j, by omega, by omega, heq⟩
        rw [← hiff, ← hrest]
        cases addressLoop data act 6 (data.length - (5 : ℕ) - (2 : ℕ)) n (num + 1) with
        | error f => exact Iff.of_eq (by simp [bind, Except.bind])
        | ok r => exact iff_of_true ⟨_, rfl⟩ ⟨r, rfl⟩

theorem eventSwitch_ok (h : (pos + VALUE_LEN : ℤ) + totalLen ≤ data.length)
    (hpos : pos + VALUE_LEN ≤ data.length) (type : Byte) :
    ∃ r, eventSwitch data pos totalLen type = .ok r := by
  obtain ⟨num, hnum⟩ := read_ok data (i := pos + 1)
    (by simp only [VALUE_LEN] at hpos; omega)
  rw [eventSwitch, hnum]
  repeat' split
  · exact addressLoop_ok h _ _
  · exact addressLoop_ok h _ _
  all_goals exact ⟨_, rfl⟩

theorem singleEvent_ok (h : (pos + VALUE_LEN : ℤ) + totalLen ≤ data.length)
    (hnonneg : 0 ≤ totalLen) : ∃ r, mmSingleEventProcess data pos totalLen = .ok r := by
  simp only [VALUE_LEN] at h
  obtain ⟨type, htype⟩ := read_ok data (i := pos) (by push_cast at h; omega)
  obtain ⟨r, hr⟩ : ∃ r, eventSwitch data pos totalLen type = .ok r :=
    eventSwitch_ok (by simpa [VALUE_LEN] using h)
      (by simp only [VALUE_LEN]; push_cast at h; omega) type
  rw [mmSingleEventProcess, htype]
  exact ⟨_, by simp only [bind, Except.bind, hr]; rfl⟩

/-- What remains is inside from the second TLV on. -/
theorem tlvLoop_ok (n value : ℕ) {offset remainLen : ℤ} (hoff : 0 ≤ offset)
    (h : value + remainLen ≤ data.length) : ∃ r, tlvLoop data n value offset remainLen = .ok r := by
  induction n generalizing value offset remainLen with
  | zero => exact ⟨_, rfl⟩
  | succ n ih =>
    rw [tlvLoop]
    split
    · exact ⟨_, rfl⟩
    · rename_i hremain
      simp only [VALUE_LEN] at hremain ⊢
      obtain ⟨r, hr⟩ : ∃ r, mmSingleEventProcess data (value + offset).toNat
          (remainLen - offset - (2 : ℕ)) = .ok r :=
        singleEvent_ok (by simp only [VALUE_LEN]; omega) (by omega)
      rw [hr]
      simp only [bind, Except.bind]
      split
      · exact ⟨_, rfl⟩
      · obtain ⟨rest, hrest⟩ : ∃ rest, tlvLoop data n (value + offset).toNat r.1
            (remainLen - offset - (2 : ℕ)) = .ok rest := ih _ (by omega) (by omega)
        exact ⟨_, by rw [hrest]; rfl⟩

theorem carries_iff (type : Byte) :
    type ≤ SPRDWL_FREE_BUFFER ↔ type = SPRDWL_PROCESS_BUFFER ∨ type = SPRDWL_FREE_BUFFER := by
  rw [← BitVec.toNat_inj, ← BitVec.toNat_inj]
  change type.toNat ≤ 1 ↔ type.toNat = 0 ∨ type.toNat = 1
  omega

theorem read_getD {i : ℕ} (h : i < data.length) : read data i = .ok (data.getD i 0) := by
  rw [read, List.getD_eq_getElem?_getD, List.getElem?_eq_getElem h]
  rfl

/-- The two types with addresses. -/
theorem addresses_first (hlen : VALUE < data.length) :
    (∃ r, (read data (VALUE + 1)).bind (fun num => addressLoop data act VALUE
        (data.length - ADDR_TRANS_LEN - VALUE_LEN) num.toNat 0) = .ok r) ↔
      ¬ ∃ j ≤ (data.getD (VALUE + 1) 0).toNat, data.length = VALUE + 1 + j * SPRDWL_PHYS_LEN := by
  rcases Nat.eq_or_lt_of_le hlen with heq | hlt
  · have hbeyond : read data (VALUE + 1) = .error .beyond := by
      rw [read, List.getElem?_eq_none (Nat.le_of_eq heq.symm)]
    rw [hbeyond]
    refine iff_of_false ?_ (not_not.mpr ⟨0, Nat.zero_le _, heq.symm⟩)
    rintro ⟨r, hr⟩
    cases hr
  · rw [read_getD (i := VALUE + 1) hlt, FallibleRuns.ok_bind, addressLoop_first]
    refine not_congr ⟨?_, ?_⟩
    · rintro ⟨j, -, hle, heq⟩
      exact ⟨j, by omega, heq⟩
    · rintro ⟨j, hle, heq⟩
      have hpos : j ≠ 0 := by
        rintro rfl
        omega
      exact ⟨j, Nat.pos_of_ne_zero hpos, by omega, heq⟩

theorem singleEvent_first (hlen : VALUE < data.length) :
    (∃ r, mmSingleEventProcess data VALUE (data.length - ADDR_TRANS_LEN - VALUE_LEN) = .ok r) ↔
      ¬ OneBehind data := by
  have hswitch : (∃ r, mmSingleEventProcess data VALUE
        (data.length - ADDR_TRANS_LEN - VALUE_LEN) = .ok r) ↔
      ∃ r, eventSwitch data VALUE (data.length - ADDR_TRANS_LEN - VALUE_LEN)
        (data.getD VALUE 0) = .ok r := by
    rw [mmSingleEventProcess, read_getD hlen]
    simp only [bind, FallibleRuns.ok_bind]
    cases eventSwitch data VALUE (data.length - ADDR_TRANS_LEN - VALUE_LEN)
        (data.getD VALUE 0) with
    | error f => exact Iff.of_eq (by simp [Except.bind])
    | ok r => exact iff_of_true ⟨_, rfl⟩ ⟨r, rfl⟩
  rw [hswitch, OneBehind, carries_iff, eventSwitch]
  by_cases hprocess : data.getD VALUE 0 = SPRDWL_PROCESS_BUFFER
  · rw [if_pos hprocess]
    exact (addresses_first hlen).trans (not_congr (and_iff_right (.inl hprocess)).symm)
  · by_cases hfree : data.getD VALUE 0 = SPRDWL_FREE_BUFFER
    · rw [if_neg hprocess, if_pos hfree]
      exact (addresses_first hlen).trans (not_congr (and_iff_right (.inr hfree)).symm)
    · rw [if_neg hprocess, if_neg hfree]
      refine iff_of_true ?_ fun h => h.1.elim hprocess hfree
      repeat' split
      all_goals exact ⟨_, rfl⟩

/-- The event is read inside exactly if it has a count and the first TLV does not use the byte
behind it. -/
theorem event_inside_iff : (∃ r, mmMhDataEventProcess data = .ok r) ↔
    TLV_NUM < data.length ∧ (data.getD TLV_NUM 0 = 0 ∨ ¬ OneBehind data) := by
  by_cases hlen : TLV_NUM < data.length
  · rw [mmMhDataEventProcess, read_getD hlen]
    simp only [bind, FallibleRuns.ok_bind, hlen, true_and]
    rcases hcount : (data.getD TLV_NUM 0).toNat with _ | n
    · refine iff_of_true ⟨_, rfl⟩ (.inl ?_)
      exact BitVec.eq_of_toNat_eq hcount
    · have hne : data.getD TLV_NUM 0 ≠ 0 := by
        intro hzero
        rw [hzero] at hcount
        cases hcount
      rw [or_iff_right hne, tlvLoop]
      simp only [TLV_NUM] at hlen
      split
      · rename_i hshort
        simp only [ADDR_TRANS_LEN, VALUE_LEN] at hshort
        refine iff_of_true ⟨_, rfl⟩ ?_
        rintro ⟨-, j, -, heq⟩
        simp only [VALUE] at heq
        push_cast at hshort
        omega
      · rename_i hlong
        simp only [ADDR_TRANS_LEN, VALUE_LEN] at hlong
        push_cast at hlong
        have hfirst := singleEvent_first (show VALUE < data.length by simp only [VALUE]; omega)
        rw [← hfirst, show ((VALUE : ℤ) + 0).toNat = VALUE from rfl,
          show ((data.length : ℤ) - ADDR_TRANS_LEN - 0 - VALUE_LEN) =
            data.length - ADDR_TRANS_LEN - VALUE_LEN by omega]
        cases mmSingleEventProcess data VALUE (data.length - ADDR_TRANS_LEN - VALUE_LEN) with
        | error f => exact Iff.of_eq (by simp [bind, Except.bind])
        | ok r =>
          refine iff_of_true ?_ ⟨r, rfl⟩
          simp only [bind, Except.bind]
          split
          · exact ⟨_, rfl⟩
          · obtain ⟨rest, hrest⟩ : ∃ rest, tlvLoop data n VALUE r.1
                (data.length - ADDR_TRANS_LEN - VALUE_LEN) = .ok rest :=
              tlvLoop_ok n VALUE (by omega)
                (by simp only [VALUE, ADDR_TRANS_LEN, VALUE_LEN]; push_cast; omega)
            exact ⟨_, by rw [hrest]; rfl⟩
  · have hbeyond : read data TLV_NUM = .error .beyond := by
      rw [read, List.getElem?_eq_none (Nat.le_of_not_lt hlen)]
    rw [mmMhDataEventProcess, hbeyond]
    refine iff_of_false ?_ fun h => hlen h.1
    rintro ⟨r, hr⟩
    cases hr

/-! ## Well-formed events -/

section Entries
variable {rest : List Byte} {es : List Entry} {t : Tlv} {ts : List Tlv}

theorem drop_more {i k : ℕ} (front : List Byte) (h : data.drop i = front ++ rest)
    (hk : front.length = k) : data.drop (i + k) = rest := by
  rw [← List.drop_drop, h, ← hk, List.drop_left]

theorem length_entryBytes (es : List Entry) : (entryBytes es).length = es.length * 5 := by
  induction es with
  | nil => rfl
  | cons a es ih =>
    rw [entryBytes, List.flatMap_cons, List.length_append, ← entryBytes, ih, List.length_cons]
    simp only [Entry.bytes, List.length_cons, List.length_nil]
    omega

theorem readAddr_entry {i : ℕ} {a : Entry} (h : data.drop i = a.bytes ++ rest) :
    readAddr data i = .ok a.addr := by
  rw [readAddr, h]
  rfl

/-- Addresses that fit are all visited. -/
theorem addressLoop_fits (act : PhysAddr → Action) (num : ℕ) (h : data.drop (pos + VALUE_LEN + num * SPRDWL_PHYS_LEN) =
      entryBytes es ++ rest) (hfits : ((num + es.length : ℕ) : ℤ) * SPRDWL_PHYS_LEN ≤ totalLen) :
    addressLoop data act pos totalLen es.length num =
      .ok (((num + es.length : ℕ) : ℤ) * SPRDWL_PHYS_LEN, es.map fun a => act a.addr) := by
  induction es generalizing num with
  | nil => rfl
  | cons a es ih =>
    rw [entryBytes, List.flatMap_cons, List.append_assoc, ← entryBytes] at h
    have hnext := drop_more a.bytes h (k := 5) rfl
    rw [List.length_cons] at hfits ⊢
    simp only [VALUE_LEN, SPRDWL_PHYS_LEN] at h hnext hfits ih ⊢
    rw [addressLoop, if_neg (by simp only [SPRDWL_PHYS_LEN]; push_cast at *; omega)]
    simp only [VALUE_LEN, SPRDWL_PHYS_LEN]
    rw [readAddr_entry h]
    have hrest := ih (num + 1)
      (by rw [← hnext]; congr 1; omega) (by push_cast at *; omega)
    simp only [bind, FallibleRuns.ok_bind]
    rw [hrest, FallibleRuns.ok_bind, List.map_cons]
    have hsum : num + 1 + es.length = num + (es.length + 1) := by omega
    rw [hsum]
    rfl

/-- If they do not all fit, the loop ends in an error. -/
theorem addressLoop_short (act : PhysAddr → Action) (num : ℕ) (h : data.drop (pos + VALUE_LEN + num * SPRDWL_PHYS_LEN) =
      entryBytes es ++ rest) (hne : es ≠ [])
    (hshort : totalLen < ((num + es.length : ℕ) : ℤ) * SPRDWL_PHYS_LEN) :
    ∃ acts, addressLoop data act pos totalLen es.length num = .ok (-EINVAL, acts) := by
  induction es generalizing num with
  | nil => exact absurd rfl hne
  | cons a es ih =>
    rw [entryBytes, List.flatMap_cons, List.append_assoc, ← entryBytes] at h
    have hnext := drop_more a.bytes h (k := 5) rfl
    rw [List.length_cons] at hshort ⊢
    simp only [VALUE_LEN, SPRDWL_PHYS_LEN] at h hnext hshort ih
    rw [addressLoop]
    simp only [VALUE_LEN, SPRDWL_PHYS_LEN]
    split
    · exact ⟨_, rfl⟩
    · rw [readAddr_entry h]
      have hmore : es ≠ [] := by
        rintro rfl
        rw [List.length_nil] at hshort
        push_cast at *
        omega
      obtain ⟨acts, hrest⟩ := ih (num + 1) (by rw [← hnext]; congr 1; omega) hmore
        (by push_cast at *; omega)
      exact ⟨_, by simp only [bind, FallibleRuns.ok_bind]; rw [hrest]; rfl⟩

theorem read_drop {i : ℕ} {b : Byte} (h : data.drop i = b :: rest) : read data i = .ok b := by
  have hget : data[i]? = some b := by
    rw [← Nat.add_zero i, ← List.getElem?_drop, h]
    rfl
  rw [read, hget]

theorem length_tlv (t : Tlv) : t.bytes.length = 2 + t.entries.length * 5 := by
  rw [Tlv.bytes, List.length_cons, List.length_cons, length_entryBytes]
  omega

theorem tlv_type (t : Tlv) : t.type = SPRDWL_PROCESS_BUFFER ∨ t.type = SPRDWL_FREE_BUFFER ∨
    t.type = SPRDWL_REQUEST_BUFFER ∨ t.type = SPRDWL_FLUSH_BUFFER := by
  have hknown : t.type.toNat ≤ 3 := t.known
  simp only [← BitVec.toNat_inj]
  change t.type.toNat = 0 ∨ t.type.toNat = 1 ∨ t.type.toNat = 2 ∨ t.type.toNat = 3
  omega

theorem tlv_num (t : Tlv) (h : t.type ≤ SPRDWL_FREE_BUFFER) : t.num.toNat = t.entries.length := by
  have hcounted := t.counted
  rw [if_pos h] at hcounted
  exact hcounted.symm

theorem tlv_entries (t : Tlv) (h : ¬ t.type ≤ SPRDWL_FREE_BUFFER) : t.entries = [] := by
  have hcounted := t.counted
  rwa [if_neg h] at hcounted

/-- A TLV whose addresses fit is processed. -/
theorem singleEvent_fits (h : data.drop pos = t.bytes ++ rest)
    (hfits : (t.entries.length : ℤ) * SPRDWL_PHYS_LEN ≤ totalLen) :
    mmSingleEventProcess data pos totalLen = .ok (t.bytes.length, t.actions) := by
  have htype : read data pos = .ok t.type := read_drop h
  have hnum : read data (pos + 1) = .ok t.num := read_drop (drop_more [t.type] h rfl)
  have hbytes : data.drop (pos + VALUE_LEN + 0 * SPRDWL_PHYS_LEN) =
      entryBytes t.entries ++ rest := by
    rw [Nat.zero_mul, Nat.add_zero]
    exact drop_more [t.type, t.num] h rfl
  have hloop (act : PhysAddr → Action) : addressLoop data act pos totalLen t.entries.length 0 =
      .ok ((t.entries.length : ℤ) * SPRDWL_PHYS_LEN, t.entries.map fun a => act a.addr) := by
    have hall := addressLoop_fits act 0 hbytes (by simpa using hfits : _ ≤ totalLen)
    rwa [Nat.zero_add] at hall
  have hret : ((t.entries.length : ℤ) * SPRDWL_PHYS_LEN + VALUE_LEN) = t.bytes.length := by
    rw [length_tlv]
    simp only [SPRDWL_PHYS_LEN, VALUE_LEN]
    push_cast
    omega
  have hnonneg : ¬ ((t.entries.length : ℤ) * SPRDWL_PHYS_LEN < 0) := by
    simp only [SPRDWL_PHYS_LEN]
    omega
  rw [mmSingleEventProcess, htype]
  simp only [bind, FallibleRuns.ok_bind, eventSwitch, Tlv.actions, hnum]
  rcases tlv_type t with hkind | hkind | hkind | hkind
  · have hcount := tlv_num t (by rw [carries_iff]; exact .inl hkind)
    rw [hkind, if_pos rfl, hcount, hloop, FallibleRuns.ok_bind]
    simp only [pure, Except.pure, if_neg hnonneg, hret]
    rfl
  · have hcount := tlv_num t (by rw [carries_iff]; exact .inr hkind)
    rw [hkind, if_neg (by decide), if_pos rfl, hcount, hloop, FallibleRuns.ok_bind]
    simp only [pure, Except.pure, if_neg hnonneg, hret]
    rfl
  · have hnone := tlv_entries t (by rw [hkind]; decide)
    rw [hkind, length_tlv, hnone]
    rfl
  · have hnone := tlv_entries t (by rw [hkind]; decide)
    rw [hkind, length_tlv, hnone]
    rfl

/-- One whose addresses do not fit ends the event. -/
theorem singleEvent_short (h : data.drop pos = t.bytes ++ rest) (hnonneg : 0 ≤ totalLen)
    (hshort : totalLen < (t.entries.length : ℤ) * SPRDWL_PHYS_LEN) :
    ∃ acts, mmSingleEventProcess data pos totalLen = .ok (-EINVAL, acts) := by
  have htype : read data pos = .ok t.type := read_drop h
  have hnum : read data (pos + 1) = .ok t.num := read_drop (drop_more [t.type] h rfl)
  have hbytes : data.drop (pos + VALUE_LEN + 0 * SPRDWL_PHYS_LEN) =
      entryBytes t.entries ++ rest := by
    rw [Nat.zero_mul, Nat.add_zero]
    exact drop_more [t.type, t.num] h rfl
  have hne : t.entries ≠ [] := by
    intro hnil
    rw [hnil] at hshort
    simp only [List.length_nil] at hshort
    omega
  have hcarries : t.type ≤ SPRDWL_FREE_BUFFER := by
    by_contra hno
    exact hne (tlv_entries t hno)
  have hloop (act : PhysAddr → Action) := addressLoop_short act 0 hbytes hne
    (by rwa [Nat.zero_add])
  rw [mmSingleEventProcess, htype]
  simp only [bind, FallibleRuns.ok_bind, eventSwitch, hnum]
  rw [tlv_num t hcarries]
  rcases (carries_iff _).mp hcarries with hkind | hkind
  · obtain ⟨acts, hacts⟩ := hloop .unlink
    rw [hkind, if_pos rfl, hacts]
    exact ⟨_, rfl⟩
  · obtain ⟨acts, hacts⟩ := hloop .relink
    rw [hkind, if_neg (by decide), if_pos rfl, hacts]
    exact ⟨_, rfl⟩

end Entries

/-- With less left than the TLVs are long, the loop does not come to the end. -/
theorem tlvLoop_short (ts : List Tlv) (hne : ts ≠ []) {value : ℕ} {offset remainLen : ℤ}
    (hoff : 0 ≤ offset) (hdrop : data.drop (value + offset).toNat = tlvBytes ts)
    (hlen : (data.length : ℤ) = value + offset + (tlvBytes ts).length)
    (hshort : remainLen - offset < (tlvBytes ts).length) :
    ∃ r, tlvLoop data ts.length value offset remainLen = .ok r ∧ r.1 < data.length := by
  induction ts generalizing value offset remainLen with
  | nil => exact absurd rfl hne
  | cons t ts ih =>
    have hsize : (tlvBytes (t :: ts)).length = t.bytes.length + (tlvBytes ts).length := by
      rw [tlvBytes, List.flatMap_cons, List.length_append, ← tlvBytes]
    have htlv := length_tlv t
    rw [hsize] at hlen hshort
    rw [tlvBytes, List.flatMap_cons, ← tlvBytes] at hdrop
    have hval : (VALUE_LEN : ℤ) = 2 := rfl
    rw [List.length_cons, tlvLoop]
    by_cases hremain : remainLen - offset - VALUE_LEN < 0
    · rw [if_pos hremain]
      exact ⟨_, rfl, by push_cast at *; omega⟩
    · rw [if_neg hremain]
      rcases Int.lt_or_le (remainLen - offset - VALUE_LEN)
          ((t.entries.length : ℤ) * SPRDWL_PHYS_LEN) with hover | hfits
      · obtain ⟨acts, hacts⟩ := singleEvent_short hdrop (by omega) hover
        refine ⟨(value + offset, acts), ?_, by push_cast at *; omega⟩
        simp only [bind]
        rw [hacts, FallibleRuns.ok_bind, if_pos (show -EINVAL < 0 by decide)]
        rfl
      · have hevent := singleEvent_fits hdrop hfits
        simp only [SPRDWL_PHYS_LEN] at hfits
        have hmore : ts ≠ [] := by
          rintro rfl
          simp only [tlvBytes, List.flatMap_nil, List.length_nil] at hshort
          push_cast at *
          omega
        have hnext : data.drop ((value + offset).toNat + t.bytes.length) = tlvBytes ts :=
          drop_more t.bytes hdrop rfl
        obtain ⟨r, hr, hlt⟩ : ∃ r, tlvLoop data ts.length (value + offset).toNat t.bytes.length
            (remainLen - offset - VALUE_LEN) = .ok r ∧ r.1 < data.length :=
          ih hmore (by omega) (by rw [← hnext]; congr 1) (by omega) (by push_cast at *; omega)
        refine ⟨(r.1, t.actions ++ r.2), ?_, hlt⟩
        simp only [bind]
        rw [hevent, FallibleRuns.ok_bind, if_neg (by dsimp only; omega), hr]
        rfl

section WellFormed
variable {ts : List Tlv}

theorem wellFormed_read (h : WellFormed data ts) :
    read data TLV_NUM = .ok (BitVec.ofNat 8 ts.length) ∧ data.drop VALUE = tlvBytes ts ∧
      data.length = VALUE + (tlvBytes ts).length := by
  obtain ⟨hfew, head, hhead, rfl⟩ := h
  refine ⟨?_, ?_, ?_⟩
  · have hdrop : (head ++ BitVec.ofNat 8 ts.length :: tlvBytes ts).drop TLV_NUM =
        BitVec.ofNat 8 ts.length :: tlvBytes ts := by rw [← hhead, List.drop_left]
    exact read_drop hdrop
  · exact drop_more (i := TLV_NUM) (k := 1) [BitVec.ofNat 8 ts.length]
      (by rw [← hhead, List.drop_left]; rfl) rfl
  · rw [List.length_append, List.length_cons, hhead]
    simp only [VALUE, TLV_NUM]
    omega

theorem event_run (h : WellFormed data ts) : mmMhDataEventProcess data =
    tlvLoop data ts.length VALUE 0 (data.length - ADDR_TRANS_LEN) := by
  have hcount : (BitVec.ofNat 8 ts.length).toNat = ts.length := Nat.mod_eq_of_lt h.few
  rw [mmMhDataEventProcess, (wellFormed_read h).1]
  simp only [bind, FallibleRuns.ok_bind, hcount]

/-- A well-formed event without TLVs is processed. -/
theorem event_nil (h : WellFormed data []) : mmMhDataEventProcess data = .ok (data.length, []) := by
  obtain ⟨-, -, hlen⟩ := wellFormed_read h
  rw [event_run h, hlen]
  rfl

/-- The first TLV of a well-formed event is processed. -/
theorem event_cons {t : Tlv} (h : WellFormed data (t :: ts)) : mmMhDataEventProcess data =
    (tlvLoop data ts.length VALUE t.bytes.length (data.length - ADDR_TRANS_LEN - 0 - VALUE_LEN)).map
      fun r => (r.1, t.actions ++ r.2) := by
  obtain ⟨-, hdrop, hlen⟩ := wellFormed_read h
  rw [tlvBytes, List.flatMap_cons, ← tlvBytes] at hdrop hlen
  have htlv := length_tlv t
  rw [List.length_append] at hlen
  simp only [VALUE] at hlen
  have hevent : mmSingleEventProcess data VALUE (data.length - ADDR_TRANS_LEN - 0 - VALUE_LEN) =
      .ok (t.bytes.length, t.actions) :=
    singleEvent_fits hdrop
      (by simp only [SPRDWL_PHYS_LEN, ADDR_TRANS_LEN, VALUE_LEN]; push_cast; omega)
  rw [event_run h, List.length_cons, tlvLoop, if_neg (by
    simp only [ADDR_TRANS_LEN, VALUE_LEN]
    push_cast
    omega)]
  simp only [bind]
  rw [show ((VALUE : ℤ) + 0).toNat = VALUE from rfl, hevent, FallibleRuns.ok_bind,
    if_neg (by dsimp only; omega)]
  dsimp only
  cases tlvLoop data ts.length VALUE t.bytes.length
    (data.length - ADDR_TRANS_LEN - 0 - VALUE_LEN) <;> rfl

/-- A second TLV is not. -/
theorem event_second {t u : Tlv} (h : WellFormed data (t :: u :: ts)) :
    ∃ r, mmMhDataEventProcess data = .ok r ∧ r.1 < data.length := by
  obtain ⟨-, hdrop, hlen⟩ := wellFormed_read h
  rw [tlvBytes, List.flatMap_cons, ← tlvBytes] at hdrop hlen
  rw [List.length_append] at hlen
  have hrest := drop_more t.bytes hdrop rfl
  simp only [VALUE] at hlen
  obtain ⟨r, hr, hlt⟩ : ∃ r, tlvLoop data (u :: ts).length VALUE t.bytes.length
      (data.length - ADDR_TRANS_LEN - 0 - VALUE_LEN) = .ok r ∧ r.1 < data.length :=
    tlvLoop_short (u :: ts) (List.cons_ne_nil u ts) (by omega) (by rw [← hrest]; congr 1)
      (by simp only [VALUE]; push_cast; omega)
      (by simp only [ADDR_TRANS_LEN, VALUE_LEN]; push_cast; omega)
  exact ⟨(r.1, t.actions ++ r.2), by rw [event_cons h, hr]; rfl, hlt⟩

end WellFormed

/-! ## What is done to the pool -/

/-- What the pool meets when something is done: the allocations of a round and of a refill, and the
message that an address is written to. -/
structure Meets where
  alloc : Mm.AllocOutcome
  write : Mm.WriteOutcome
  refill : List Mm.AllocOutcome

/-- A round of the pool; the other two change no buffer. -/
def Action.round (s : Mm.State) (o : Meets) : Action → Except Mm.Fault Mm.State
  | unlink a => Mm.unlinkRound s (a, o.alloc)
  | relink a => Mm.relinkRound s (a, o.write)
  | request | flush => .ok s
  | refill => .ok (Mm.mmRefillBuffer s o.refill)

def rounds : Mm.State → List (Action × Meets) → Except Mm.Fault Mm.State :=
  run fun s a => a.1.round s a.2

theorem rounds_zip {β : Type} {act : PhysAddr → Action} {out : Meets → β}
    {round : Mm.State → PhysAddr × β → Except Mm.Fault Mm.State}
    (hround : ∀ s a o, (act a).round s o = round s (a, out o)) (as : List PhysAddr)
    (os : List Meets) (s : Mm.State) :
    rounds s ((as.map act).zip os) = run round s (as.zip (os.map out)) := by
  induction as generalizing os s with
  | nil => rfl
  | cons a as ih =>
    cases os with
    | nil => rfl
    | cons o os =>
      rw [List.map_cons, List.zip_cons_cons, List.map_cons, List.zip_cons_cons, rounds, run_cons,
        run_cons, hround]
      exact congrArg _ (funext fun t => ih os t)

/-- The rounds for addresses, and a refill behind them. -/
theorem rounds_refill {β : Type} {act : PhysAddr → Action} {out : Meets → β}
    {round : Mm.State → PhysAddr × β → Except Mm.Fault Mm.State}
    (hround : ∀ s a o, (act a).round s o = round s (a, out o)) (es : List Entry) {os : List Meets}
    (hos : os.length = es.length) (o : Meets) (s : Mm.State) :
    rounds s ((es.map (fun a : Entry => act a.addr) ++ [Action.refill]).zip (os ++ [o])) =
      (run round s (Mm.fitting ((es.map Entry.addr).zip (os.map out)) (entryBytes es).length)).map
        fun t => Mm.mmRefillBuffer t o.refill := by
  have hall : Mm.fitting ((es.map Entry.addr).zip (os.map out)) (entryBytes es).length =
      (es.map Entry.addr).zip (os.map out) := by
    refine List.take_of_length_le ?_
    rw [List.length_zip, List.length_map, List.length_map, hos, Nat.min_self, length_entryBytes,
      Nat.mul_div_cancel _ (by decide)]
  have hacts : es.map (fun a : Entry => act a.addr) = (es.map Entry.addr).map act := (List.map_map ..).symm
  rw [hall, ← rounds_zip hround, hacts, List.zip_append (by simp [hos]), rounds, run_append]
  rfl

/-- What is done for the addresses of a TLV is `mm_buffer_unlink` or `mm_buffer_relink` of the pool
and a refill after it. -/
theorem tlv_rounds (t : Tlv) {os : List Meets} (hos : os.length = t.entries.length) (o : Meets)
    (s : Mm.State) :
    (t.type = SPRDWL_PROCESS_BUFFER → rounds s (t.actions.zip (os ++ [o])) =
      (Mm.mmBufferUnlink s ((t.entries.map Entry.addr).zip (os.map Meets.alloc))
        (entryBytes t.entries).length).map fun u => Mm.mmRefillBuffer u o.refill) ∧
    (t.type = SPRDWL_FREE_BUFFER → rounds s (t.actions.zip (os ++ [o])) =
      (Mm.mmBufferRelink s ((t.entries.map Entry.addr).zip (os.map Meets.write))
        (entryBytes t.entries).length).map fun u => Mm.mmRefillBuffer u o.refill) := by
  constructor
  · intro htype
    have hround : ∀ s a o, (Action.unlink a).round s o = Mm.unlinkRound s (a, Meets.alloc o) :=
      fun _ _ _ => rfl
    rw [Tlv.actions, if_pos htype]
    exact rounds_refill hround t.entries hos o s
  · intro htype
    have hother : t.type ≠ SPRDWL_PROCESS_BUFFER := by
      rw [htype]
      decide
    have hround : ∀ s a o, (Action.relink a).round s o = Mm.relinkRound s (a, Meets.write o) :=
      fun _ _ _ => rfl
    rw [Tlv.actions, if_neg hother, if_pos htype]
    exact rounds_refill hround t.entries hos o s

/-- Every event is read inside and processed to its end exactly if it has a count, its first TLV
does not use the byte behind it, and it has no second TLV. -/
theorem address_event_iff (data : List Byte) :
    Processes data ↔ TLV_NUM < data.length ∧ (data.getD TLV_NUM 0 = 0 ∨ ¬ OneBehind data) ∧
      ∀ ts, WellFormed data ts → ts.length ≤ 1 := by
  rw [← and_assoc, ← event_inside_iff]
  constructor
  · rintro ⟨r, hrun, hall⟩
    refine ⟨⟨r, hrun⟩, fun ts hts => ?_⟩
    rcases ts with _ | ⟨t, _ | ⟨u, ts⟩⟩
    · exact Nat.zero_le 1
    · exact Nat.le_refl 1
    · obtain ⟨r', hrun', hlt⟩ := event_second hts
      cases hrun.symm.trans hrun'
      rw [hall _ hts] at hlt
      exact absurd hlt (lt_irrefl _)
  · rintro ⟨⟨r, hrun⟩, hfew⟩
    refine ⟨r, hrun, fun ts hts => ?_⟩
    rcases ts with _ | ⟨t, _ | ⟨u, ts⟩⟩
    · exact Except.ok.inj (hrun.symm.trans (event_nil hts))
    · obtain ⟨-, -, hlen⟩ := wellFormed_read hts
      have hend : mmMhDataEventProcess data = .ok (data.length, t.actions) := by
        rw [event_cons hts, hlen]
        simp [tlvLoop, tlvBytes, Except.map]
      rw [Except.ok.inj (hrun.symm.trans hend)]
      simp
    · have := hfew _ hts
      simp at this

/-- A request, and a TLV with one address. -/
def requestAndFree : List Byte := [0x0c, 0, 0, 0, 0, 2, 2, 0, 1, 1, 0x10, 0, 0, 0, 0x80]

/-- The second TLV of a well-formed event is taken for cut off; and an event of seven bytes is read
beyond its end. -/
theorem address_event_second :
    WellFormed requestAndFree
      [⟨2, 0, [], by decide, by decide⟩, ⟨1, 1, [⟨0x10, 0, 0, 0, 0x80⟩], by decide, by decide⟩] ∧
    mmMhDataEventProcess requestAndFree = .ok (8, [.request, .refill, .refill]) ∧
    mmMhDataEventProcess [0x0c, 0, 0, 0, 0, 1, 0] = .error .beyond :=
  ⟨⟨by decide, [0x0c, 0, 0, 0, 0], by decide, by decide⟩, by decide, by decide⟩

end Uwe5631.AddressEvents
