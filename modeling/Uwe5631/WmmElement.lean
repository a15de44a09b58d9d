import Uwe5631.ElementLists

/-!
# The search for the WMM element

`get_wmm_ie` walks the elements of an association and looks at the first one with the identifier it
is given. Four bytes behind the header of this one decide, whatever its length.
-/
namespace Uwe5631.WmmElement
open Elements

def WMM_OUI_TYPE : Byte := 2

inductive Fault where
  /-- a read behind the given length -/
  | beyond
  deriving DecidableEq, Repr

/-- `(pos[2] << 16) | (pos[3] << 8) | pos[4]` -/
def ouiOf (a b c : Byte) : BitVec 32 :=
  a.setWidth 32 <<< 16 ||| b.setWidth 32 <<< 8 ||| c.setWidth 32

/-- The comparison of the four bytes behind a header; the fourth is read if the first three are the
OUI. -/
def isWmm (oui : BitVec 32) : List Byte → Except Fault Bool
  | a :: b :: c :: rest =>
    if ouiOf a b c = oui then
      match rest with
      | type :: _ => .ok (type == WMM_OUI_TYPE)
      | [] => .error .beyond
    else .ok false
  | _ => .error .beyond

/-- The loop of `get_wmm_ie` over the bytes that are left; `pos` is the offset of the first. -/
def wmmLoop (ie : Byte) (oui : BitVec 32) : ℕ → ℕ → List Byte → Except Fault (Option ℕ)
  | fuel + 1, pos, id :: len :: rest =>
    if rest.length < len.toNat then .ok none
    else if id = ie then (isWmm oui rest).map fun found => if found then some (pos + 2) else none
    else wmmLoop ie oui fuel (pos + 2 + len.toNat) (rest.drop len.toNat)
  | _, _, _ => .ok none

/-- `get_wmm_ie`, with the offset it returns. Each turn consumes bytes. -/
def getWmmIe (res : List Byte) (ie : Byte) (oui : BitVec 32) : Except Fault (Option ℕ) :=
  wmmLoop ie oui res.length 0 res

/-- A vendor element of the OUI with the type of WMM. -/
def IsWmm (ie : Byte) (oui : BitVec 32) (e : Element) : Prop :=
  e.id = ie ∧ 4 ≤ e.body.length ∧
    ouiOf (e.body.getD 0 0) (e.body.getD 1 0) (e.body.getD 2 0) = oui ∧
    e.body.getD 3 0 = WMM_OUI_TYPE

instance (ie : Byte) (oui : BitVec 32) : DecidablePred (IsWmm ie oui) := fun _ =>
  inferInstanceAs (Decidable (_ ∧ _))

/-- The offset of the body of the first WMM element, if there is one. -/
def firstWmm (ie : Byte) (oui : BitVec 32) : ℕ → List Element → Option ℕ
  | _, [] => none
  | pos, e :: es =>
    if IsWmm ie oui e then some (pos + 2) else firstWmm ie oui (pos + 2 + e.body.length) es

/-- The first element with the identifier is a WMM element; or there is none in the list, and the
bytes behind the header of the first, which may be those of later elements, are enough and are not
those of one. -/
def FirstDecides (ie : Byte) (oui : BitVec 32) (torn : List Byte) : List Element → Prop
  | [] => True
  | e :: es =>
    if e.id = ie then
      IsWmm ie oui e ∨
        (∀ f ∈ es, ¬ IsWmm ie oui f) ∧ isWmm oui (e.body ++ (encode es ++ torn)) = .ok false
    else FirstDecides ie oui torn es

variable {ie : Byte} {oui : BitVec 32} {torn : List Byte}

/-- A body of four bytes decides by itself. -/
theorem isWmm_body {e : Element} (hid : e.id = ie) (hlen : 4 ≤ e.body.length) (rest : List Byte) :
    isWmm oui (e.body ++ rest) = .ok (decide (IsWmm ie oui e)) := by
  rcases hbody : e.body with _ | ⟨a, _ | ⟨b, _ | ⟨c, _ | ⟨type, body⟩⟩⟩⟩
  case cons.cons.cons.cons =>
    by_cases houi : ouiOf a b c = oui
    · simp [isWmm, IsWmm, hid, hbody, houi]
      rfl
    · simp [isWmm, IsWmm, hid, hbody, houi]
  all_goals simp [hbody] at hlen

theorem isWmm_of_isWmm {e : Element} (h : IsWmm ie oui e) (rest : List Byte) :
    isWmm oui (e.body ++ rest) = .ok true := by
  rw [isWmm_body h.1 h.2.1, decide_eq_true h]

theorem firstWmm_eq_none {pos : ℕ} {es : List Element} :
    firstWmm ie oui pos es = none ↔ ∀ f ∈ es, ¬ IsWmm ie oui f := by
  induction es generalizing pos with
  | nil => simp [firstWmm]
  | cons e es ih =>
    by_cases he : IsWmm ie oui e
    · simp [firstWmm, he]
    · simp [firstWmm, he, ih]

theorem lt_of_firstWmm {pos at' : ℕ} {es : List Element} (h : firstWmm ie oui pos es = some at') :
    pos < at' := by
  induction es generalizing pos with
  | nil => cases h
  | cons e es ih =>
    rw [firstWmm] at h
    split at h
    · cases h
      omega
    · have := ih h
      omega

theorem wmmLoop_torn (h : Torn torn) (fuel pos : ℕ) : wmmLoop ie oui fuel pos torn = .ok none := by
  match fuel, torn, h with
  | 0, _, _ => rfl
  | _ + 1, [], _ => rfl
  | _ + 1, [_], _ => rfl
  | _ + 1, _ :: _ :: _, h => exact if_pos h

/-- One turn of the loop. -/
theorem wmmLoop_cons (e : Element) (rest : List Byte) (fuel pos : ℕ) :
    wmmLoop ie oui (fuel + 1) pos (e.id :: e.len :: (e.body ++ rest)) =
      if e.id = ie then (isWmm oui (e.body ++ rest)).map fun found =>
        if found then some (pos + 2) else none
      else wmmLoop ie oui fuel (pos + 2 + e.body.length) rest := by
  rw [wmmLoop, e.toNat_len, if_neg (by simp), List.drop_left]

theorem wmmLoop_iff (htorn : Torn torn) (es : List Element) {fuel : ℕ} (pos : ℕ)
    (hfuel : (encode es ++ torn).length ≤ fuel) :
    wmmLoop ie oui fuel pos (encode es ++ torn) = .ok (firstWmm ie oui pos es) ↔
      FirstDecides ie oui torn es := by
  induction es generalizing fuel pos with
  | nil =>
    rw [encode_nil, List.nil_append, wmmLoop_torn htorn]
    exact iff_of_true rfl True.intro
  | cons e es ih =>
    rw [encode_cons] at hfuel ⊢
    simp only [List.length_cons, List.length_append] at hfuel
    obtain ⟨fuel, rfl⟩ : ∃ n, fuel = n + 1 := ⟨fuel - 1, by omega⟩
    rw [wmmLoop_cons, firstWmm, FirstDecides]
    by_cases hid : e.id = ie
    · rw [if_pos hid, if_pos hid]
      by_cases hwmm : IsWmm ie oui e
      · rw [isWmm_of_isWmm hwmm, if_pos hwmm]
        exact iff_of_true rfl (.inl hwmm)
      · rw [if_neg hwmm]
        cases hprobe : isWmm oui (e.body ++ (encode es ++ torn)) with
        | error f => simp [Except.map, hwmm]
        | ok found =>
          cases found with
          | false =>
            simp only [Except.map, Bool.false_eq_true, if_false, Except.ok.injEq, hwmm, false_or,
              and_true]
            exact eq_comm.trans firstWmm_eq_none
          | true =>
            -- The bytes of a later element were taken for the rest of this one.
            refine iff_of_false (fun heq => ?_) (by simp [hwmm])
            have := lt_of_firstWmm (Except.ok.inj heq).symm
            omega
    · have hnot : ¬ IsWmm ie oui e := fun h => hid h.1
      rw [if_neg hid, if_neg hid, if_neg hnot]
      exact ih _ (by simp only [List.length_append]; omega)

/-- The search finds the first WMM element, if there is one, and stays inside the given length
exactly if the first element with the identifier decides. -/
theorem wmm_element_iff (ie : Byte) (oui : BitVec 32) (es : List Element) (torn : List Byte)
    (htorn : Torn torn) :
    getWmmIe (encode es ++ torn) ie oui = .ok (firstWmm ie oui 0 es) ↔
      FirstDecides ie oui torn es :=
  wmmLoop_iff htorn es 0 le_rfl

/-- A vendor element of another OUI, and behind it a WMM element. -/
def twoVendors : List Element :=
  [⟨221, [0x00, 0x10, 0x18, 0x02], by decide⟩, ⟨221, [0x00, 0x50, 0xf2, 0x02, 0x01], by decide⟩]

theorem wmm_element_iff_two :
    getWmmIe (encode twoVendors ++ []) 221 0x0050f2 = .ok (firstWmm 221 0x0050f2 0 twoVendors) ↔
      FirstDecides 221 0x0050f2 [] twoVendors :=
  wmm_element_iff 221 0x0050f2 twoVendors [] True.intro

/-- The WMM element is not found, and a body of three bytes is read beyond the length. -/
theorem wmm_element_missed :
    getWmmIe (encode twoVendors) 221 0x0050f2 = .ok none ∧
      firstWmm 221 0x0050f2 0 twoVendors = some 8 ∧
      getWmmIe [221, 3, 0x00, 0x50, 0xf2] 221 0x0050f2 = .error .beyond := by
  decide

end Uwe5631.WmmElement
