import Mathlib.Data.List.Basic
import Mathlib.Data.BitVec

/-!
# Lists of elements

An element is an identifier, a length and as many bytes. A string of bytes is a list of elements and
a rest that is no element: it is too short for its own length.
-/
namespace Uwe5631.Elements

abbrev Byte := BitVec 8

structure Element where
  id : Byte
  body : List Byte
  short : body.length < 256

/-- The length byte of an element. -/
def Element.len (e : Element) : Byte := BitVec.ofNat 8 e.body.length

@[simp] theorem Element.toNat_len (e : Element) : e.len.toNat = e.body.length := by
  rw [Element.len, BitVec.toNat_ofNat]
  exact Nat.mod_eq_of_lt e.short

def Element.bytes (e : Element) : List Byte := e.id :: e.len :: e.body

@[simp] theorem Element.length_bytes (e : Element) : e.bytes.length = e.body.length + 2 := rfl

def encode (es : List Element) : List Byte := es.flatMap Element.bytes

@[simp] theorem encode_nil : encode [] = [] := rfl

theorem encode_cons (e : Element) (es : List Element) (rest : List Byte) :
    encode (e :: es) ++ rest = e.id :: e.len :: (e.body ++ (encode es ++ rest)) := by
  simp [encode, Element.bytes]

theorem encode_append (es fs : List Element) : encode (es ++ fs) = encode es ++ encode fs :=
  List.flatMap_append

@[simp] theorem encode_eq_nil {es : List Element} : encode es = [] ↔ es = [] := by
  cases es with
  | nil => simp
  | cons e es => simp [encode, Element.bytes]

theorem length_encode_cons (e : Element) (es : List Element) :
    (encode (e :: es)).length = e.body.length + 2 + (encode es).length := by
  simp [encode]

/-- No element: the bytes end before the header or before the length it says. -/
def Torn : List Byte → Prop
  | _ :: len :: rest => rest.length < len.toNat
  | _ => True

instance : DecidablePred Torn
  | [] => isTrue True.intro
  | [_] => isTrue True.intro
  | _ :: len :: rest => inferInstanceAs (Decidable (rest.length < len.toNat))

/-- Every string of bytes is a list of elements and a rest. -/
theorem exists_encode (bs : List Byte) : ∃ es rest, bs = encode es ++ rest ∧ Torn rest := by
  induction hn : bs.length using Nat.strong_induction_on generalizing bs with
  | _ n ih =>
    match bs with
    | [] => exact ⟨[], [], rfl, True.intro⟩
    | [b] => exact ⟨[], [b], rfl, True.intro⟩
    | id :: len :: rest =>
      by_cases hlen : rest.length < len.toNat
      · exact ⟨[], id :: len :: rest, rfl, hlen⟩
      · have hshort : (rest.take len.toNat).length < 256 := by
          rw [List.length_take]
          have := len.isLt
          omega
        have htake : (rest.take len.toNat).length = len.toNat := by
          rw [List.length_take]
          omega
        obtain ⟨es, torn, hrest, htorn⟩ := ih (rest.drop len.toNat).length
          (by simp only [List.length_drop, ← hn, List.length_cons]; omega) _ rfl
        refine ⟨⟨id, rest.take len.toNat, hshort⟩ :: es, torn, ?_, htorn⟩
        rw [encode_cons, ← hrest, List.take_append_drop, Element.len, htake, BitVec.ofNat_toNat,
          BitVec.setWidth_eq]

end Uwe5631.Elements
