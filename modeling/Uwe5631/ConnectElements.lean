import Uwe5631.ElementLists
import Uwe5631.SetIe
import Mathlib

/-!
# The elements of a connect request

`sprdwl_cfg80211_connect` looks for the bytes of a vendor element and sends what is before them and
what is from them on with a call each.
-/
namespace Uwe5631.ConnectElements
open Elements
open SetIe (SPRDWL_IE_ASSOC_REQ)

abbrev SPRDWL_IE_SAE : Byte := 7

inductive Fault
  | readOutside
  deriving DecidableEq, Repr

/-- What a call of `sprdwl_set_ie` is given: the type and the bytes that its length takes. -/
structure Part where
  type : Byte
  bytes : List Byte
  deriving DecidableEq, Repr

/-- The length is cut to 16 bits. -/
def Part.of (type : Byte) (ie : List Byte) (len : ℕ) : Part := ⟨type, ie.take (len % 65536)⟩

/-- The message that `sprdwl_set_ie` makes of a call is the message of its part. -/
theorem setIe_part (type : Byte) {ie : List Byte} {len : ℕ} (h : len ≤ ie.length) :
    SetIe.setIe type (Part.of type ie len).bytes (BitVec.ofNat 16 len) =
      SetIe.setIe type ie (BitVec.ofNat 16 len) := by
  have hcut : (BitVec.ofNat 16 len).toNat = len % 65536 := BitVec.toNat_ofNat ..
  have hle : len % 65536 ≤ ie.length := (Nat.mod_le ..).trans h
  have hbytes : (Part.of type ie len).bytes = ie.take (len % 65536) := rfl
  rw [SetIe.setIe, SetIe.setIe, hcut, hbytes, List.length_take, Nat.min_eq_left hle,
    List.take_take, Nat.min_self, if_neg (Nat.lt_irrefl _), if_neg (Nat.not_lt.mpr hle)]

/-- The comparisons of the search: an offset and a byte. -/
def pattern : List (ℕ × Byte) := [(0, 0xdd), (2, 0x40), (3, 0x45), (4, 0xda), (5, 0x02)]

/-- The comparisons at an index, up to the first that fails. -/
def testAt (ie : List Byte) (i : ℕ) : List (ℕ × Byte) → Except Fault Bool
  | [] => .ok true
  | (k, b) :: ps =>
    match ie[i + k]? with
    | none => .error .readOutside
    | some c => if c = b then testAt ie i ps else .ok false

/-- `sme->ie_len - 6`, of a `size_t`. -/
def searchEnd (n : ℕ) : ℕ := (BitVec.ofNat 64 n - 6).toNat

/-- The calls so far, and the value of the last one. -/
structure Sent where
  parts : List Part
  ret : ℤ
  deriving DecidableEq

def Sent.none : Sent := ⟨[], 0⟩

/-- A call after the others, if they have succeeded; `ret` gives the value of each call. -/
def Sent.call (ret : ℕ → ℤ) (s : Sent) (p : Part) : Sent :=
  if s.ret = 0 then ⟨s.parts ++ [p], ret s.parts.length⟩ else s

/-- The search from an index, with `ie_set_flag`. -/
def search (ret : ℕ → ℤ) (ie : List Byte) (i : ℕ) (flag : Bool) (s : Sent) :
    Except Fault (Bool × Sent) :=
  if i < searchEnd ie.length then
    match testAt ie i pattern with
    | .error f => .error f
    | .ok false => search ret ie (i + 1) flag s
    | .ok true =>
      let s := s.call ret (.of SPRDWL_IE_ASSOC_REQ ie i)
      if s.ret ≠ 0 then .ok (true, s)
      else
        let s := s.call ret (.of SPRDWL_IE_SAE (ie.drop i) (ie.length - i))
        if s.ret ≠ 0 then .ok (true, s) else search ret ie (i + 1) true s
  else .ok (flag, s)
termination_by searchEnd ie.length - i

/-- The part of `sprdwl_cfg80211_connect` that sends the elements. -/
def connect (ret : ℕ → ℤ) (ie : List Byte) : Except Fault Sent :=
  if 0 < ie.length then
    (search ret ie 0 false .none).map fun (flag, s) =>
      if flag then s else s.call ret (.of SPRDWL_IE_ASSOC_REQ ie ie.length)
  else .ok .none

/-! ## What should be sent -/

def IsVendor (e : Element) : Prop := e.id = 0xdd ∧ [0x40, 0x45, 0xda, 0x02] <+: e.body

instance : DecidablePred IsVendor := fun _ => inferInstanceAs (Decidable (_ ∧ _))

/-- The offset of the first vendor element. -/
def vendorOffset : List Element → Option ℕ
  | [] => none
  | e :: es => if IsVendor e then some 0 else (vendorOffset es).map (e.bytes.length + ·)

def expected (es : List Element) (rest : List Byte) : List Part :=
  match vendorOffset es with
  | some k => [⟨SPRDWL_IE_ASSOC_REQ, (encode es ++ rest).take k⟩,
      ⟨SPRDWL_IE_SAE, (encode es ++ rest).drop k⟩]
  | none => if encode es ++ rest = [] then [] else [⟨SPRDWL_IE_ASSOC_REQ, encode es ++ rest⟩]

/-- The bytes of the search stand at an index. -/
def Match (ie : List Byte) (i : ℕ) : Prop := ∀ p ∈ pattern, ie[i + p.1]? = some p.2

instance (ie : List Byte) (i : ℕ) : Decidable (Match ie i) :=
  inferInstanceAs (Decidable (∀ p ∈ pattern, _))

/-- The list is empty, or it has six bytes; the search finds the first vendor element and nothing else;
and no part has 65536 bytes. -/
def Fine (es : List Element) (ie : List Byte) : Prop :=
  ie = [] ∨ 6 ≤ ie.length ∧
    match vendorOffset es with
    | some k => k + 6 < ie.length ∧ k < 65536 ∧ ie.length - k < 65536 ∧
        ∀ i, i + 6 < ie.length → (Match ie i ↔ i = k)
    | none => ie.length < 65536 ∧ ∀ i, i + 6 < ie.length → ¬ Match ie i

/-! ## The search -/

theorem searchEnd_of_le {n : ℕ} (hn : n < 2 ^ 64) (h : 6 ≤ n) : searchEnd n = n - 6 := by
  rw [searchEnd, BitVec.toNat_sub, BitVec.toNat_ofNat, show (6 : BitVec 64).toNat = 6 from rfl]
  omega

theorem lt_searchEnd_of_lt {n : ℕ} (h : n < 6) : n < searchEnd n := by
  rw [searchEnd, BitVec.toNat_sub, BitVec.toNat_ofNat, show (6 : BitVec 64).toNat = 6 from rfl]
  omega

/-- The comparisons inside the list. -/
theorem testAt_inside {ie : List Byte} {i : ℕ} {ps : List (ℕ × Byte)}
    (h : ∀ p ∈ ps, i + p.1 < ie.length) :
    testAt ie i ps = .ok (decide (∀ p ∈ ps, ie[i + p.1]? = some p.2)) := by
  induction ps with
  | nil => rfl
  | cons p ps ih =>
    obtain ⟨k, b⟩ := p
    have hlt : i + k < ie.length := h (k, b) List.mem_cons_self
    have hk := List.getElem?_eq_getElem hlt
    rw [testAt, hk]
    dsimp only
    by_cases hb : ie[i + k] = b
    · rw [if_pos hb, ih fun p hp => h p (List.mem_cons_of_mem _ hp)]
      congr 1
      rw [decide_eq_decide, List.forall_mem_cons]
      exact ⟨fun hps => ⟨by rw [hk, hb], hps⟩, fun hps => hps.2⟩
    · rw [if_neg hb]
      congr 1
      symm
      rw [decide_eq_false_iff_not, List.forall_mem_cons]
      intro hps
      rw [hk] at hps
      exact hb (Option.some.inj hps.1)

theorem testAt_match {ie : List Byte} {i : ℕ} (h : i + 5 < ie.length) :
    testAt ie i pattern = .ok (decide (Match ie i)) := by
  refine testAt_inside fun p hp => ?_
  simp only [pattern, List.mem_cons, List.not_mem_nil, or_false] at hp
  rcases hp with rfl | rfl | rfl | rfl | rfl <;> dsimp only <;> omega

/-- The comparisons never all hold where the last byte is outside. -/
theorem testAt_outside {ie : List Byte} {i : ℕ} {ps : List (ℕ × Byte)} {p : ℕ × Byte} (hp : p ∈ ps)
    (h : ie.length ≤ i + p.1) : testAt ie i ps ≠ .ok true := by
  induction ps with
  | nil => cases hp
  | cons q ps ih =>
    obtain ⟨k, b⟩ := q
    rw [testAt]
    cases hk : ie[i + k]? with
    | none => exact fun h => (by cases h)
    | some c =>
      dsimp only
      by_cases hc : c = b
      · rw [if_pos hc]
        rcases List.mem_cons.mp hp with rfl | hmem
        · rw [List.getElem?_eq_none h] at hk
          cases hk
        · exact ih hmem
      · rw [if_neg hc]
        exact fun h => (by cases h)

/-- Fewer than six bytes: the search leaves the list. -/
theorem search_short (ret : ℕ → ℤ) {ie : List Byte} (h : ie.length < 6) (i : ℕ) (hi : i ≤ ie.length)
    (flag : Bool) (s : Sent) : search ret ie i flag s = .error .readOutside := by
  induction hk : ie.length - i generalizing i with
  | zero =>
    have hlt := lt_searchEnd_of_lt h
    rw [search, if_pos (by omega), pattern, testAt, List.getElem?_eq_none (by omega)]
  | succ k ih =>
    have hlt := lt_searchEnd_of_lt h
    rw [search, if_pos (by omega)]
    cases htest : testAt ie i pattern with
    | error f => cases f; rfl
    | ok b =>
      cases b with
      | true =>
        exact absurd htest (testAt_outside (p := (5, 0x02)) (by decide) (by dsimp only; omega))
      | false => exact ih (i + 1) (by omega) (by omega)

/-- All calls of a list, up to the first that fails. -/
def calls (ret : ℕ → ℤ) (s : Sent) (ps : List Part) : Sent := ps.foldl (Sent.call ret) s

theorem calls_failed (ret : ℕ → ℤ) {s : Sent} (h : s.ret ≠ 0) (ps : List Part) :
    calls ret s ps = s := by
  induction ps with
  | nil => rfl
  | cons p ps ih =>
    rw [calls, List.foldl_cons, Sent.call, if_neg h]
    exact ih

/-- The two parts at an index. -/
def splitAt (ie : List Byte) (i : ℕ) : List Part :=
  [.of SPRDWL_IE_ASSOC_REQ ie i, .of SPRDWL_IE_SAE (ie.drop i) (ie.length - i)]

/-- The indices from one on where the bytes stand. -/
def found (ie : List Byte) (i : ℕ) : List ℕ := (List.range' i (ie.length - 6 - i)).filter (Match ie ·)

theorem found_of_lt {ie : List Byte} {i : ℕ} (h : i < ie.length - 6) :
    found ie i = if Match ie i then i :: found ie (i + 1) else found ie (i + 1) := by
  have hk : ie.length - 6 - i = (ie.length - 6 - (i + 1)) + 1 := by omega
  rw [found, hk, List.range'_succ, List.filter_cons]
  simp only [decide_eq_true_eq]
  rfl

theorem search_eq (ret : ℕ → ℤ) {ie : List Byte} (hn : ie.length < 2 ^ 64) (h : 6 ≤ ie.length)
    (i : ℕ) (flag : Bool) (s : Sent) (hs : s.ret = 0) :
    search ret ie i flag s =
      .ok (flag || !(found ie i).isEmpty, calls ret s ((found ie i).flatMap (splitAt ie))) := by
  induction hk : ie.length - 6 - i generalizing i flag s with
  | zero =>
    rw [search, searchEnd_of_le hn h, if_neg (by omega), found, hk]
    simp [calls]
  | succ k ih =>
    have hlt : i < ie.length - 6 := by omega
    rw [search, searchEnd_of_le hn h, if_pos hlt, testAt_match (by omega), found_of_lt hlt]
    by_cases hmatch : Match ie i
    · rw [if_pos hmatch, decide_eq_true hmatch]
      dsimp only
      rw [List.flatMap_cons, List.isEmpty_cons, Bool.not_false, Bool.or_true, calls, splitAt,
        List.foldl_append, List.foldl_cons, List.foldl_cons, List.foldl_nil]
      by_cases hfirst : (s.call ret (.of SPRDWL_IE_ASSOC_REQ ie i)).ret = 0
      · rw [if_neg (not_not.mpr hfirst)]
        by_cases hsecond : ((s.call ret (.of SPRDWL_IE_ASSOC_REQ ie i)).call ret
            (.of SPRDWL_IE_SAE (ie.drop i) (ie.length - i))).ret = 0
        · rw [if_neg (not_not.mpr hsecond), ih (i + 1) true _ hsecond (by omega)]
          rfl
        · rw [if_pos hsecond]
          exact congrArg (fun t => Except.ok (true, t)) (calls_failed ret hsecond _).symm
      · have hskip : (s.call ret (.of SPRDWL_IE_ASSOC_REQ ie i)).call ret
            (.of SPRDWL_IE_SAE (ie.drop i) (ie.length - i)) =
              s.call ret (.of SPRDWL_IE_ASSOC_REQ ie i) := by
          rw [Sent.call, if_neg hfirst]
        rw [if_pos hfirst, hskip]
        exact congrArg (fun t => Except.ok (true, t)) (calls_failed ret hfirst _).symm
    · rw [if_neg hmatch, decide_eq_false hmatch]
      exact ih (i + 1) flag s hs (by omega)

/-- What the code sends: two parts for each match, or the whole. -/
def parts (ie : List Byte) : List Part :=
  if found ie 0 = [] then [.of SPRDWL_IE_ASSOC_REQ ie ie.length]
  else (found ie 0).flatMap (splitAt ie)

theorem connect_eq (ret : ℕ → ℤ) {ie : List Byte} (hn : ie.length < 2 ^ 64) (h : 6 ≤ ie.length) :
    connect ret ie = .ok (calls ret .none (parts ie)) := by
  rw [connect, if_pos (by omega), search_eq ret hn h 0 false .none rfl, parts]
  by_cases hfound : found ie 0 = []
  · rw [if_pos hfound, hfound]
    rfl
  · rw [if_neg hfound]
    have hflag : (false || !(found ie 0).isEmpty) = true := by simpa using hfound
    rw [hflag]
    rfl

theorem calls_zero (ps : List Part) (s : Sent) (hs : s.ret = 0) :
    calls (fun _ => 0) s ps = ⟨s.parts ++ ps, 0⟩ := by
  induction ps generalizing s with
  | nil =>
    rw [List.append_nil]
    obtain ⟨parts, ret⟩ := s
    obtain rfl := hs
    rfl
  | cons p ps ih =>
    have hcall : s.call (fun _ => 0) p = ⟨s.parts ++ [p], 0⟩ := by rw [Sent.call, if_pos hs]
    rw [calls, List.foldl_cons, hcall]
    refine (ih _ rfl).trans ?_
    rw [List.append_assoc, List.singleton_append]

/-! ## The parts -/

theorem mem_found {ie : List Byte} {i : ℕ} : i ∈ found ie 0 ↔ i + 6 < ie.length ∧ Match ie i := by
  rw [found, List.mem_filter, List.mem_range', decide_eq_true_eq]
  refine and_congr_left fun _ => ⟨?_, fun h => ⟨i, by omega, by omega⟩⟩
  rintro ⟨j, hj, rfl⟩
  omega

theorem found_nodup (ie : List Byte) : (found ie 0).Nodup :=
  List.Nodup.filter _ List.nodup_range'

theorem found_eq_nil {ie : List Byte} :
    found ie 0 = [] ↔ ∀ i, i + 6 < ie.length → ¬ Match ie i := by
  rw [List.eq_nil_iff_forall_not_mem]
  refine forall_congr' fun i => ?_
  rw [mem_found, not_and]

theorem found_eq_singleton {ie : List Byte} {k : ℕ} :
    found ie 0 = [k] ↔ k + 6 < ie.length ∧ ∀ i, i + 6 < ie.length → (Match ie i ↔ i = k) := by
  constructor
  · intro h
    have hmem : ∀ i, (i + 6 < ie.length ∧ Match ie i) ↔ i = k := fun i => by
      rw [← mem_found, h, List.mem_singleton]
    exact ⟨((hmem k).mpr rfl).1, fun i hi => ⟨fun hm => (hmem i).mp ⟨hi, hm⟩,
      fun hik => ((hmem i).mpr hik).2⟩⟩
  · rintro ⟨hk, hall⟩
    have hmem : k ∈ found ie 0 := mem_found.mpr ⟨hk, (hall k hk).mpr rfl⟩
    have honly : ∀ i ∈ found ie 0, i = k := fun i hi =>
      (hall i (mem_found.mp hi).1).mp (mem_found.mp hi).2
    have hnodup := found_nodup ie
    match found ie 0, hmem, honly, hnodup with
    | a :: l, _, honly, hnodup =>
      obtain rfl := honly a List.mem_cons_self
      cases l with
      | nil => rfl
      | cons b l =>
        obtain rfl := honly b (List.mem_cons_of_mem _ List.mem_cons_self)
        exact absurd List.mem_cons_self (List.nodup_cons.mp hnodup).1

theorem vendorOffset_le {es : List Element} {k : ℕ} (h : vendorOffset es = some k) :
    k ≤ (encode es).length := by
  induction es generalizing k with
  | nil => cases h
  | cons e es ih =>
    rw [vendorOffset] at h
    by_cases he : IsVendor e
    · rw [if_pos he] at h
      obtain rfl := Option.some.inj h
      exact Nat.zero_le _
    · rw [if_neg he] at h
      obtain ⟨j, hj, rfl⟩ := Option.map_eq_some_iff.mp h
      have := ih hj
      rw [length_encode_cons, Element.length_bytes]
      omega

/-- The parts at an index are the ones at an offset exactly if they are the same and are not cut. -/
theorem splitAt_eq_iff {ie : List Byte} {j k : ℕ} (hj : j < ie.length) (hk : k ≤ ie.length) :
    splitAt ie j = [⟨SPRDWL_IE_ASSOC_REQ, ie.take k⟩, ⟨SPRDWL_IE_SAE, ie.drop k⟩] ↔
      j = k ∧ k < 65536 ∧ ie.length - k < 65536 := by
  rw [splitAt, Part.of, Part.of]
  constructor
  · intro h
    obtain ⟨hfirst, hrest⟩ := List.cons.inj h
    have hlength := congrArg List.length (Part.mk.inj hfirst).2
    have hlength' := congrArg List.length (Part.mk.inj (List.cons.inj hrest).1).2
    rw [List.length_take, List.length_take] at hlength
    rw [List.length_take, List.length_drop, List.length_drop] at hlength'
    omega
  · rintro ⟨rfl, hfirst, hsecond⟩
    rw [Nat.mod_eq_of_lt hfirst, Nat.mod_eq_of_lt hsecond,
      List.take_of_length_le (l := ie.drop j) (by rw [List.length_drop])]

/-- The parts for the matches are those at an offset exactly if it is the only match and nothing is
cut. -/
theorem flatMap_splitAt_eq_iff {ie : List Byte} {k : ℕ} (hk : k ≤ ie.length)
    (hfound : found ie 0 ≠ []) :
    (found ie 0).flatMap (splitAt ie) =
        [⟨SPRDWL_IE_ASSOC_REQ, ie.take k⟩, ⟨SPRDWL_IE_SAE, ie.drop k⟩] ↔
      found ie 0 = [k] ∧ k < 65536 ∧ ie.length - k < 65536 := by
  obtain ⟨j, js, hjs⟩ := List.exists_cons_of_ne_nil hfound
  have hj : j + 6 < ie.length := (mem_found.mp (hjs ▸ List.mem_cons_self)).1
  rw [hjs, List.flatMap_cons]
  cases js with
  | nil =>
    rw [List.flatMap_nil, List.append_nil, splitAt_eq_iff (by omega) hk, List.singleton_inj]
  | cons j' js =>
    constructor
    · intro heq
      have hcount := congrArg List.length heq
      simp only [splitAt, List.flatMap_cons, List.length_append, List.length_cons,
        List.length_nil] at hcount
      omega
    · rintro ⟨hsingle, -⟩
      cases hsingle

/-- The list is sent as one part exactly if there is no match and nothing is cut. -/
theorem parts_eq_whole_iff {ie : List Byte} :
    parts ie = [⟨SPRDWL_IE_ASSOC_REQ, ie⟩] ↔ found ie 0 = [] ∧ ie.length < 65536 := by
  rw [parts]
  by_cases hfound : found ie 0 = []
  · rw [if_pos hfound, and_iff_right hfound, Part.of]
    constructor
    · intro heq
      have hbytes := congrArg List.length (Part.mk.inj (List.cons.inj heq).1).2
      rw [List.length_take] at hbytes
      omega
    · intro hshort
      rw [Nat.mod_eq_of_lt hshort, List.take_length]
  · rw [if_neg hfound]
    refine ⟨fun heq => ?_, fun h => absurd h.1 hfound⟩
    obtain ⟨j, js, hjs⟩ := List.exists_cons_of_ne_nil hfound
    rw [hjs, List.flatMap_cons, splitAt] at heq
    cases (List.cons.inj heq).2

theorem parts_eq_iff {es : List Element} {rest ie : List Byte} (hie : ie = encode es ++ rest)
    (h : 6 ≤ ie.length) :
    parts ie = expected es rest ↔ match vendorOffset es with
      | some k => k + 6 < ie.length ∧ k < 65536 ∧ ie.length - k < 65536 ∧
          ∀ i, i + 6 < ie.length → (Match ie i ↔ i = k)
      | none => ie.length < 65536 ∧ ∀ i, i + 6 < ie.length → ¬ Match ie i := by
  have hlength := congrArg List.length hie
  rw [List.length_append] at hlength
  rw [expected, ← hie]
  cases hvendor : vendorOffset es with
  | some k =>
    have hk := vendorOffset_le hvendor
    dsimp only
    rw [parts]
    by_cases hfound : found ie 0 = []
    · rw [if_pos hfound]
      refine ⟨fun heq => (by cases (List.cons.inj heq).2), ?_⟩
      rintro ⟨hk6, -, -, hall⟩
      exact absurd ((hall k hk6).mpr rfl) (found_eq_nil.mp hfound k hk6)
    · rw [if_neg hfound, flatMap_splitAt_eq_iff (by omega) hfound, found_eq_singleton]
      constructor
      · rintro ⟨⟨hk6, hall⟩, hfirst, hsecond⟩
        exact ⟨hk6, hfirst, hsecond, hall⟩
      · rintro ⟨hk6, hfirst, hsecond, hall⟩
        exact ⟨⟨hk6, hall⟩, hfirst, hsecond⟩
  | none =>
    dsimp only
    have hne : ie ≠ [] := List.length_pos_iff.mp (by omega)
    rw [if_neg hne, ← found_eq_nil, parts_eq_whole_iff, and_comm]

/-- Whatever the calls return, the search stays inside the list, and the parts are sent up to a call
that fails, exactly under the condition. -/
theorem connect_elements_iff (es : List Element) (rest ie : List Byte) (hie : ie = encode es ++ rest)
    (hsize : ie.length < 2 ^ 64) :
    (∀ ret, connect ret ie = .ok (calls ret .none (expected es rest))) ↔ Fine es ie := by
  rw [Fine]
  by_cases hnil : ie = []
  · refine ⟨fun _ => .inl hnil, fun _ ret => ?_⟩
    obtain ⟨hes, hrest⟩ := List.append_eq_nil_iff.mp (hie.symm.trans hnil)
    rw [hnil, hrest, encode_eq_nil.mp hes]
    rfl
  have hpos : 0 < ie.length := List.length_pos_iff.mpr hnil
  by_cases hsix : 6 ≤ ie.length
  · rw [or_iff_right hnil, and_iff_right hsix, ← parts_eq_iff hie hsix]
    constructor
    · intro h
      have hzero := h fun _ => 0
      rw [connect_eq _ hsize hsix, calls_zero _ _ rfl, calls_zero _ _ rfl] at hzero
      exact (Sent.mk.inj (Except.ok.inj hzero)).1
    · intro h ret
      rw [connect_eq _ hsize hsix, h]
  · constructor
    · intro h
      have hzero := h fun _ => 0
      rw [connect, if_pos hpos, search_short _ (by omega) 0 (by omega)] at hzero
      cases hzero
    · exact fun h => absurd (h.resolve_left hnil).1 hsix

/-- An element with a body of the vendor, then the four bytes of another. -/
def vendorLast : List Element :=
  [⟨0, [1, 2, 3, 4], by decide⟩, ⟨0xdd, [0x40, 0x45, 0xda, 2, 9], by decide⟩]

theorem match_vendorLast : ∀ i, i + 6 < (encode vendorLast).length →
    (Match (encode vendorLast) i ↔ i = 6) := by
  intro i hi
  have hlt : i < 7 := by
    have : (encode vendorLast).length = 13 := rfl
    omega
  interval_cases i <;> decide

theorem connect_elements_iff_split : connect (fun _ => 0) (encode vendorLast) =
    .ok (calls (fun _ => 0) .none (expected vendorLast [])) :=
  (connect_elements_iff vendorLast [] (encode vendorLast) (List.append_nil _).symm (by decide)).mpr
    (.inr ⟨by decide, by decide, by decide, by decide, match_vendorLast⟩) fun _ => 0

/-- A list of one byte: the next one is read. -/
theorem one_byte_read_outside :
    connect (fun _ => 0) [0] ≠ .ok (calls (fun _ => 0) .none (expected [] [0])) := by
  rw [connect, if_pos (by decide), search_short _ (by decide) 0 (Nat.zero_le _)]
  exact fun h => (by cases h)

end Uwe5631.ConnectElements
