import Uwe5631.ElementLists
import Mathlib

/-!
# The elements of an association request

`sprdwl_set_ie` copies the elements into its message and clears one octet of the extended
capabilities there.
-/
namespace Uwe5631.SetIe
open Elements

abbrev SPRDWL_IE_ASSOC_REQ : Byte := 3
abbrev EXT_CAP : Byte := 0x7f

inductive Fault
  | readOutside
  | writeOutside
  deriving DecidableEq, Repr

/-- `struct sprdwl_cmd_set_ie` -/
structure CmdSetIe where
  type : Byte
  len : BitVec 16
  data : List Byte

/-- The walk over the copy, from an index. -/
def clearExtCap (data : List Byte) (i : ℕ) : Except Fault (List Byte) :=
  if i < data.length then
    match data[i]?, data[i + 1]? with
    | some id, some n =>
      if id = EXT_CAP then
        if 0x0b ≤ n.toNat then
          if i + 12 < data.length then .ok (data.set (i + 12) 0) else .error .writeOutside
        else .ok data
      else clearExtCap data (i + (n.toNat + 2))
    | _, _ => .error .readOutside
  else .ok data
termination_by data.length - i

/-- `sizeof(struct sprdwl_cmd_hdr)` and `sizeof(struct sprdwl_cmd_set_ie)` -/
abbrev CMD_HDR : ℕ := 12
abbrev CMD_SET_IE : ℕ := 3

/-- The bytes behind both headers in the message of `sprdwl_cmd_getbuf`, whose `plen` has 16 bits. -/
def room (len : BitVec 16) : ℕ :=
  (BitVec.ofNat 16 (CMD_HDR + (CMD_SET_IE + len.toNat))).toNat - (CMD_HDR + CMD_SET_IE)

/-- `sprdwl_set_ie`, up to the message it sends. -/
def setIe (type : Byte) (ie : List Byte) (len : BitVec 16) : Except Fault CmdSetIe :=
  if ie.length < len.toNat then .error .readOutside
  else if room len < len.toNat then .error .writeOutside
  else if type = SPRDWL_IE_ASSOC_REQ then
    (clearExtCap (ie.take len.toNat) 0).map (CmdSetIe.mk type len)
  else .ok ⟨type, len, ie.take len.toNat⟩

/-! ## What the copy should be -/

/-- The place of the eleventh capability octet, among the bytes of an element or of a rest. -/
def HasOctet : List Byte → Prop
  | id :: n :: body => id = EXT_CAP ∧ 11 ≤ n.toNat ∧ 11 ≤ body.length
  | _ => False

instance : DecidablePred HasOctet
  | [] => isFalse id
  | [_] => isFalse id
  | id :: n :: body => inferInstanceAs (Decidable (id = EXT_CAP ∧ 11 ≤ n.toNat ∧ 11 ≤ body.length))

/-- The octet is cleared in the first element that has one. -/
def cleared : List Element → List Byte → List Byte
  | [], rest => if HasOctet rest then rest.set 12 0 else rest
  | e :: es, rest =>
    if HasOctet e.bytes then e.bytes.set 12 0 ++ (encode es ++ rest) else e.bytes ++ cleared es rest

/-- The octet that is to be cleared. -/
def octet : List Element → List Byte → Option Byte
  | [], rest => if HasOctet rest then rest[12]? else none
  | e :: es, rest => if HasOctet e.bytes then e.bytes[12]? else octet es rest

/-- A rest that the walk leaves. -/
def Cut : List Byte → Prop
  | [] => False
  | [_] => True
  | id :: n :: body => id = EXT_CAP ∧ 11 ≤ n.toNat ∧ body.length < 11

/-- The first extended capabilities have the octet, or no later ones have one that is not zero; and
without any the list does not end within a header or within the first octets of such an element. -/
def Fine : List Element → List Byte → Prop
  | [], rest => ¬ Cut rest
  | e :: es, rest =>
    if e.id = EXT_CAP then 11 ≤ e.body.length ∨ ∀ b, octet es rest = some b → b = 0 else Fine es rest

/-! ## The walk -/

theorem clearExtCap_end (data : List Byte) {i : ℕ} (h : data.length ≤ i) :
    clearExtCap data i = .ok data := by
  rw [clearExtCap, if_neg (by omega)]

/-- One step, at a header. -/
theorem clearExtCap_header (before : List Byte) (id n : Byte) (body : List Byte) :
    clearExtCap (before ++ id :: n :: body) before.length =
      if id = EXT_CAP then
        if 11 ≤ n.toNat then
          if 11 ≤ body.length then .ok (before ++ id :: n :: body.set 10 0) else .error .writeOutside
        else .ok (before ++ id :: n :: body)
      else clearExtCap (before ++ id :: n :: body) (before.length + (n.toNat + 2)) := by
  have hid : (before ++ id :: n :: body)[before.length]? = some id := by simp
  have hn : (before ++ id :: n :: body)[before.length + 1]? = some n := by simp
  have hlength : (before ++ id :: n :: body).length = before.length + (body.length + 2) := by simp
  have hset : (before ++ id :: n :: body).set (before.length + 12) 0 =
      before ++ id :: n :: body.set 10 0 := by
    rw [List.set_append_right _ _ (by omega), Nat.add_sub_cancel_left]
    rfl
  have hinside : before.length + 12 < before.length + (body.length + 2) ↔ 11 ≤ body.length := by
    omega
  rw [clearExtCap, if_pos (by omega), hid, hn]
  dsimp only
  rw [hset, hlength]
  simp only [hinside]

theorem octet_of_hasOctet {bs : List Byte} (h : HasOctet bs) : 12 < bs.length := by
  match bs with
  | id :: n :: body =>
    have := h.2.2
    simp only [List.length_cons]
    omega

theorem set_eq_self_iff {bs : List Byte} {k : ℕ} (h : k < bs.length) :
    bs.set k 0 = bs ↔ ∀ b, bs[k]? = some b → b = 0 := by
  constructor
  · intro hset b hb
    rw [← hset, List.getElem?_set_self h] at hb
    exact (Option.some.inj hb).symm
  · intro hzero
    have := hzero bs[k] (List.getElem?_eq_getElem h)
    rw [← this]
    exact List.set_getElem_self h

/-- Nothing is to be cleared exactly if there is no octet, or it is zero. -/
theorem cleared_eq_iff (es : List Element) (rest : List Byte) :
    cleared es rest = encode es ++ rest ↔ ∀ b, octet es rest = some b → b = 0 := by
  induction es with
  | nil =>
    rw [cleared, octet]
    by_cases h : HasOctet rest
    · rw [if_pos h, if_pos h]
      exact set_eq_self_iff (octet_of_hasOctet h)
    · rw [if_neg h, if_neg h]
      exact ⟨fun _ b hb => (by cases hb), fun _ => rfl⟩
  | cons e es ih =>
    have hencode : encode (e :: es) ++ rest = e.bytes ++ (encode es ++ rest) := by
      rw [encode_cons]
      rfl
    rw [cleared, octet, hencode]
    by_cases h : HasOctet e.bytes
    · rw [if_pos h, if_pos h, List.append_left_inj]
      exact set_eq_self_iff (octet_of_hasOctet h)
    · rw [if_neg h, if_neg h, List.append_right_inj]
      exact ih

theorem clearExtCap_rest (before : List Byte) {rest : List Byte} (htorn : Torn rest) :
    clearExtCap (before ++ rest) before.length = .ok (before ++ cleared [] rest) ↔ ¬ Cut rest := by
  match rest with
  | [] =>
    rw [List.append_nil, clearExtCap_end _ le_rfl]
    refine ⟨fun _ h => h, fun _ => ?_⟩
    rw [cleared, if_neg (show ¬ HasOctet [] from id), List.append_nil]
  | [b] =>
    have herror : clearExtCap (before ++ [b]) before.length = .error .readOutside := by
      rw [clearExtCap]
      simp
    rw [herror]
    exact ⟨fun h => (by cases h), fun h => absurd True.intro h⟩
  | id :: n :: body =>
    have hshort : body.length < n.toNat := htorn
    rw [clearExtCap_header, cleared, Cut]
    by_cases hid : id = EXT_CAP
    · rw [if_pos hid]
      by_cases hn : 11 ≤ n.toNat
      · rw [if_pos hn]
        by_cases hbody : 11 ≤ body.length
        · rw [if_pos hbody, if_pos ⟨hid, hn, hbody⟩]
          exact ⟨fun _ h => absurd h.2.2 (by omega), fun _ => rfl⟩
        · rw [if_neg hbody]
          exact ⟨fun h => (by cases h), fun h => absurd ⟨hid, hn, by omega⟩ h⟩
      · rw [if_neg hn, if_neg fun h => hn h.2.1]
        exact ⟨fun _ h => hn h.2.1, fun _ => rfl⟩
    · rw [if_neg hid, if_neg fun h => hid h.1, clearExtCap_end _ (by simp; omega)]
      exact ⟨fun _ h => hid h.1, fun _ => rfl⟩

/-- The walk at the elements: behind the bytes before them it clears the octet. -/
theorem clearExtCap_iff {rest : List Byte} (htorn : Torn rest) (es : List Element)
    (before : List Byte) :
    clearExtCap (before ++ (encode es ++ rest)) before.length = .ok (before ++ cleared es rest) ↔
      Fine es rest := by
  induction es generalizing before with
  | nil => exact clearExtCap_rest before htorn
  | cons e es ih =>
    have hbytes : HasOctet e.bytes ↔ e.id = EXT_CAP ∧ 11 ≤ e.body.length := by
      rw [Element.bytes, HasOctet, Element.toNat_len]
      exact ⟨fun h => ⟨h.1, h.2.2⟩, fun h => ⟨h.1, h.2, h.2⟩⟩
    rw [encode_cons, clearExtCap_header, Fine, cleared, Element.toNat_len]
    by_cases hid : e.id = EXT_CAP
    · rw [if_pos hid, if_pos hid]
      by_cases hlong : 11 ≤ e.body.length
      · rw [if_pos hlong, if_pos (by rw [List.length_append]; omega),
          if_pos (hbytes.mpr ⟨hid, hlong⟩), List.set_append_left _ _ (by omega)]
        exact ⟨fun _ => .inl hlong, fun _ => rfl⟩
      · rw [if_neg hlong, if_neg fun h => hlong (hbytes.mp h).2, ← cleared_eq_iff]
        constructor
        · intro h
          have htail := List.append_cancel_left (Except.ok.inj h)
          exact .inr (List.append_cancel_left (show e.bytes ++ _ = e.bytes ++ _ from htail.symm))
        · rintro (h | h)
          · exact absurd h hlong
          · rw [h]
            rfl
    · rw [if_neg hid, if_neg hid, if_neg fun h => hid (hbytes.mp h).1]
      have hwalk := ih (before ++ e.bytes)
      rw [List.append_assoc, List.append_assoc, List.length_append, Element.length_bytes] at hwalk
      exact hwalk

/-- A list has room in its message exactly if the message's length does not wrap around. -/
theorem room_iff (len : BitVec 16) : room len < len.toNat ↔ 65521 ≤ len.toNat := by
  have hlen := len.isLt
  rw [room, BitVec.toNat_ofNat, CMD_HDR, CMD_SET_IE]
  omega

/-- The message for an association request, whose bytes are a list of elements and a rest as all bytes
are: the list has room in it, the walk stays inside the copy, and the octet is cleared in the first
element that has one, exactly under the condition. -/
theorem set_ie_iff (ie : List Byte) (len : BitVec 16) (hlen : ie.length = len.toNat)
    (es : List Element) (rest : List Byte) (hie : ie = encode es ++ rest) (htorn : Torn rest) :
    setIe SPRDWL_IE_ASSOC_REQ ie len = .ok ⟨SPRDWL_IE_ASSOC_REQ, len, cleared es rest⟩ ↔
      len.toNat < 65521 ∧ Fine es rest := by
  have hwalk := clearExtCap_iff htorn es []
  rw [← hie, List.nil_append, List.nil_append] at hwalk
  rw [← hwalk, setIe, if_neg (by omega)]
  by_cases hroom : room len < len.toNat
  · rw [if_pos hroom]
    have hlarge := (room_iff len).mp hroom
    exact ⟨fun h => (by cases h), fun h => absurd h.1 (by omega)⟩
  have hsmall : len.toNat < 65521 := by
    rw [room_iff] at hroom
    omega
  rw [if_neg hroom, if_pos rfl, List.take_of_length_le (by omega), and_iff_right hsmall]
  change (clearExtCap ie 0).map _ = _ ↔ clearExtCap ie 0 = _
  cases clearExtCap ie 0 with
  | error f => exact ⟨fun h => (by cases h), fun h => (by cases h)⟩
  | ok data =>
    exact ⟨fun h => congrArg Except.ok (CmdSetIe.mk.inj (Except.ok.inj h)).2.2,
      fun h => by rw [Except.ok.inj h]; rfl⟩

/-- The two bytes `00 00` and extended capabilities of eleven octets. -/
theorem set_ie_iff_cleared : setIe SPRDWL_IE_ASSOC_REQ
    (0 :: 0 :: EXT_CAP :: 11 :: List.replicate 11 0xff) 15 =
      .ok ⟨SPRDWL_IE_ASSOC_REQ, 15,
        cleared [⟨0, [], by decide⟩, ⟨EXT_CAP, List.replicate 11 0xff, by decide⟩] []⟩ :=
  (set_ie_iff _ 15 rfl [⟨0, [], by decide⟩, ⟨EXT_CAP, List.replicate 11 0xff, by decide⟩] [] rfl
    True.intro).mpr ⟨by decide, .inl (by decide)⟩

/-- A list of one byte: the length octet behind it is read. -/
theorem length_read_outside : ¬ ∃ msg, setIe SPRDWL_IE_ASSOC_REQ [0] 1 = .ok msg := by
  rintro ⟨msg, h⟩
  have herror : clearExtCap [0] 0 = .error .readOutside := by
    rw [clearExtCap]
    rfl
  rw [setIe, if_neg (by decide), if_neg (by decide), if_pos rfl,
    show [(0 : Byte)].take (1 : BitVec 16).toNat = [0] from rfl, herror] at h
  cases h

end Uwe5631.SetIe
