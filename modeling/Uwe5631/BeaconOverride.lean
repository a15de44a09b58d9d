import Uwe5631.ElementLists

/-!
# The beacon with another channel

For the channel of the debug configuration `sprdwl_dbg_new_beacon_head` and
`sprdwl_dbg_new_beacon_tail` copy the elements of a beacon to new buffers. On the way they replace
the rates and set the channel of the elements that name it.
-/
namespace Uwe5631.BeaconOverride
open Elements

inductive Fault where
  /-- a read behind the beacon that is given -/
  | beyond
  /-- a write behind the buffer that is allocated -/
  | overrun
  deriving DecidableEq, Repr

def WLAN_EID_SUPP_RATES : Byte := 1
def WLAN_EID_DS_PARAMS : Byte := 3
def WLAN_EID_ERP_INFO : Byte := 42
def WLAN_EID_EXT_SUPP_RATES : Byte := 50
def WLAN_EID_HT_OPERATION : Byte := 61
def ERP_INFO_BARKER_PREAMBLE_MODE : Byte := 4

/-- The offset of `u.beacon.variable`. -/
def BEACON_VARIABLE : ℕ := 36

/-- The bytes that the caller allocates beyond the length of the beacon. -/
def ROOM : ℕ := 32

/-- What the loops do with an element. -/
inductive Action where
  | copy
  /-- copy it, then write the channel behind its header -/
  | channel
  /-- write these elements for it -/
  | put (es : List Element)

/-- `memcpy` or single stores at `pos` in the new buffer. -/
def store (buf : List Byte) (pos : ℕ) (bs : List Byte) : Except Fault (List Byte) :=
  if pos + bs.length ≤ buf.length then
    .ok (buf.take pos ++ bs ++ buf.drop (pos + bs.length))
  else .error .overrun

/-- The first `n` bytes that are left of the beacon. -/
def load (ies : List Byte) (n : ℕ) : Except Fault (List Byte) :=
  if n ≤ ies.length then .ok (ies.take n) else .error .beyond

/-- The switch of one turn, with the position behind what it wrote. -/
def turn (act : Byte → Action) (chn : Byte) (id len : Byte) (ies : List Byte) (pos : ℕ)
    (buf : List Byte) : Except Fault (ℕ × List Byte) :=
  match act id with
  | .put es => do
    let buf ← store buf pos (encode es)
    return (pos + (encode es).length, buf)
  | .copy => do
    let bs ← load ies (len.toNat + 2)
    let buf ← store buf pos bs
    return (pos + (len.toNat + 2), buf)
  | .channel => do
    let bs ← load ies (len.toNat + 2)
    let buf ← store buf pos bs
    let buf ← store buf (pos + 2) [chn]
    return (pos + (len.toNat + 2), buf)

/-- The loop over the bytes that are left, while more than two are. -/
def walk (act : Byte → Action) (chn : Byte) : ℕ → List Byte → ℕ → List Byte →
    Except Fault (ℕ × List Byte)
  | fuel + 1, id :: len :: b :: rest, pos, buf => do
    let (pos, buf) ← turn act chn id len (id :: len :: b :: rest) pos buf
    walk act chn fuel ((b :: rest).drop len.toNat) pos buf
  | _, _, pos, buf => .ok (pos, buf)

/-- The loop of the tail. `ies` is moved on before `tail_len` is shortened: the length that is taken
off is that of the element behind. -/
def tailWalk (act : Byte → Action) (chn : Byte) : ℕ → ℤ → List Byte → ℕ → List Byte →
    Except Fault (ℕ × List Byte)
  | fuel + 1, tailLen, ies, pos, buf =>
    if 2 < tailLen then
      match ies with
      | id :: len :: rest => do
        let (pos, buf) ← turn act chn id len (id :: len :: rest) pos buf
        match rest.drop len.toNat with
        | id' :: len' :: rest' =>
          tailWalk act chn fuel (tailLen - (len'.toNat + 2)) (id' :: len' :: rest') pos buf
        | _ => .error .beyond
      | _ => .error .beyond
    else .ok (pos, buf)
  | 0, _, _, pos, buf => .ok (pos, buf)

def supp_5g_rates : List Byte := [0x8c, 0x12, 0x98, 0x24, 0xb0, 0x48, 0x60, 0x6c]
def supp_24g_rates : List Byte := [0x82, 0x84, 0x8b, 0x96, 0x0c, 0x12, 0x18, 0x24]

def ext_24g_rates : List Byte :=
  [0x30, 0x48, 0x60, 0x6c, 0x0d, 0x1a, 0x27, 0x34, 0x4e, 0x68, 0x75, 0x82, 0x1a, 0x34, 0x4e, 0x68,
    0x9c, 0xd0, 0xea, 0x04]

def ext_5g_rates : List Byte :=
  [0x0d, 0x1a, 0x27, 0x34, 0x4e, 0x68, 0x75, 0x82, 0x1a, 0x34, 0x4e, 0x68, 0x9c, 0xd0, 0xea, 0x04]

def suppRates (chn : BitVec 16) : Element :=
  if 14 < chn.toNat then ⟨WLAN_EID_SUPP_RATES, supp_5g_rates, by decide⟩
  else ⟨WLAN_EID_SUPP_RATES, supp_24g_rates, by decide⟩

def extSuppRates (chn : BitVec 16) : Element :=
  if chn.toNat ≤ 14 then ⟨WLAN_EID_EXT_SUPP_RATES, ext_24g_rates, by decide⟩
  else ⟨WLAN_EID_EXT_SUPP_RATES, ext_5g_rates, by decide⟩

def headAction (chn : BitVec 16) (id : Byte) : Action :=
  if id = WLAN_EID_SUPP_RATES then .put [suppRates chn]
  else if id = WLAN_EID_DS_PARAMS then .channel
  else .copy

def tailAction (chn : BitVec 16) (id : Byte) : Action :=
  if id = WLAN_EID_ERP_INFO then .put []
  else if id = WLAN_EID_EXT_SUPP_RATES then .put [extSuppRates chn]
  else if id = WLAN_EID_HT_OPERATION then .channel
  else .copy

/-- What the tail starts with. -/
def erpInfo (chn : BitVec 16) : List Element :=
  if chn.toNat ≤ 14 then [⟨WLAN_EID_ERP_INFO, [ERP_INFO_BARKER_PREAMBLE_MODE], by decide⟩] else []

/-- `sprdwl_dbg_new_beacon_head`, of buffers that are there: the length it returns and the new head
after it. The bytes behind `head_len` are those the new head had. -/
def newBeaconHead (beaconHead newHead : List Byte) (chn : BitVec 16) :
    Except Fault (ℕ × List Byte) := do
  let newHead ← store newHead 0 beaconHead
  walk (headAction chn) (chn.setWidth 8) beaconHead.length (beaconHead.drop BEACON_VARIABLE)
    BEACON_VARIABLE newHead

/-- `sprdwl_dbg_new_beacon_tail`. -/
def newBeaconTail (beaconTail newTail : List Byte) (chn : BitVec 16) :
    Except Fault (ℕ × List Byte) := do
  let newTail ← store newTail 0 (encode (erpInfo chn))
  tailWalk (tailAction chn) (chn.setWidth 8) beaconTail.length beaconTail.length beaconTail
    (encode (erpInfo chn)).length newTail

/-- What is to stand for an element in the new list. -/
def overridden (act : Byte → Action) (chn : Byte) (e : Element) : List Element :=
  match act e.id with
  | .copy => [e]
  | .channel => [⟨e.id, e.body.set 0 chn, by rw [List.length_set]; exact e.short⟩]
  | .put es => es

/-- The new list. -/
def override (act : Byte → Action) (chn : Byte) (es : List Element) : List Element :=
  es.flatMap (overridden act chn)

/-- The result `r` of a function with the beacon `encode es ++ torn`: it stayed in its buffers, and
if the beacon is well formed, the new one is `first` and the new list. -/
def Overrides (r : Except Fault (ℕ × List Byte)) (first : List Byte) (act : Byte → Action)
    (chn : Byte) (es : List Element) (torn : List Byte) : Prop :=
  ∃ len buf, r = .ok (len, buf) ∧
    (torn = [] → buf.take len = first ++ encode (override act chn es))

/-- The elements that the loop sees: an empty one at the end leaves it only two bytes. -/
def seen (torn : List Byte) : List Element → List Element
  | [] => []
  | e :: es => if e.body = [] ∧ es = [] ∧ torn = [] then [] else e :: seen torn es

/-- How far the bytes that are written for an element reach, the channel of an empty one included. -/
def reach (act : Byte → Action) (chn : Byte) (e : Element) : ℕ :=
  match act e.id with
  | .channel => max 3 (encode (overridden act chn e)).length
  | _ => (encode (overridden act chn e)).length

/-- How far the bytes that are written for elements reach, if `last` are written behind them. -/
def extent (act : Byte → Action) (chn : Byte) (last : ℕ) : List Element → ℕ
  | [] => last
  | e :: es =>
    max (reach act chn e) ((encode (overridden act chn e)).length + extent act chn last es)

/-- What is written for the rest of a beacon that ends inside an element. -/
def tornPut (act : Byte → Action) : List Byte → List Element
  | id :: _ :: _ :: _ =>
    match act id with
    | .put es => es
    | _ => []
  | _ => []

theorem tornPut_nil (act : Byte → Action) : tornPut act [] = [] := rfl

/-- A beacon that ends inside an element ends with a header only, or in an element that is not
copied. -/
def NotCopied (act : Byte → Action) : List Byte → Prop
  | id :: _ :: _ :: _ =>
    match act id with
    | .put _ => True
    | _ => False
  | _ => True

/-- No empty element stands at the end, but one that is left out anyway. -/
def LastKept (act : Byte → Action) (chn : Byte) (es : List Element) : Prop :=
  ∀ e, es.getLast? = some e → e.body = [] → overridden act chn e = []

/-- The condition on the elements and the rest of a beacon: `room` bytes are enough for what is
written, the rest is not copied, and no empty element is lost at the end. -/
structure Suits (act : Byte → Action) (chn : Byte) (room : ℕ) (es : List Element)
    (torn : List Byte) : Prop where
  fits : extent act chn (encode (tornPut act torn)).length (seen torn es) ≤ room
  notCopied : NotCopied act torn
  lastKept : torn = [] → LastKept act chn es

/-- The elements of a tail that the loop comes to, if it ends inside the tail. -/
def tailSeen (torn : List Byte) (es : List Element) : List Element :=
  if torn = [] then es.dropLast else es

/-- The loop ends at the last element or at the rest behind it. There the length of the first element
and what is left are still to be taken off, less the length that the rest says. -/
def TailEnds (torn : List Byte) : List Element → Prop
  | [] => torn.length ≤ 2
  | e :: _ =>
    match torn with
    | [] => e.body = []
    | [_] => False
    | _ :: len :: rest => e.body.length + rest.length ≤ len.toNat

/-- The condition on the elements and the rest of a tail: the loop ends inside it, `room` bytes are
enough, and the last element, which it never comes to, is one that is left out. -/
structure TailSuits (act : Byte → Action) (chn : Byte) (room : ℕ) (es : List Element)
    (torn : List Byte) : Prop where
  ends : TailEnds torn es
  fits : extent act chn 0 (tailSeen torn es) ≤ room
  lastLeftOut : torn = [] → ∀ e, es.getLast? = some e → overridden act chn e = []

section Store
variable (done bs : List Byte)

theorem store_append {mid : List Byte} (post : List Byte) (h : mid.length = bs.length) :
    store (done ++ (mid ++ post)) done.length bs = .ok (done ++ (bs ++ post)) := by
  rw [store, if_pos (by simp only [List.length_append]; omega), ← h]
  simp

theorem store_fits (free : List Byte) (h : bs.length ≤ free.length) :
    ∃ rest, store (done ++ free) done.length bs = .ok ((done ++ bs) ++ rest) ∧
      rest.length + bs.length = free.length := by
  have htake : (free.take bs.length).length = bs.length := by
    rw [List.length_take]
    omega
  have happ := store_append done bs (free.drop bs.length) htake
  rw [List.take_append_drop] at happ
  refine ⟨free.drop bs.length, by rw [happ, List.append_assoc], ?_⟩
  rw [List.length_drop]
  omega

theorem store_overrun {free : List Byte} (h : free.length < bs.length) :
    store (done ++ free) done.length bs = .error .overrun :=
  if_neg (by rw [List.length_append]; omega)

end Store

theorem load_bytes (e : Element) (rest : List Byte) :
    load (e.bytes ++ rest) (e.body.length + 2) = .ok e.bytes := by
  have hlen : e.bytes.length = e.body.length + 2 := e.length_bytes
  rw [load, if_pos (by rw [List.length_append]; omega), ← hlen, List.take_left]

section Turn
variable {act : Byte → Action} {chn : Byte} {done free : List Byte}

/-- The channel is written into a body, or behind the header of an empty element. -/
theorem store_channel (chn : Byte) (done : List Byte) (e : Element) (h : max 3 (e.body.length + 2) ≤ free.length) :
    ∃ rest, (store (done ++ free) done.length e.bytes).bind
        (fun buf => store buf (done.length + 2) [chn]) =
      .ok ((done ++ (e.id :: e.len :: e.body.set 0 chn)) ++ rest) ∧
      rest.length + (e.body.length + 2) = free.length := by
  obtain ⟨rest, hstore, hrest⟩ := store_fits done e.bytes free
    (by rw [e.length_bytes]; omega)
  rw [e.length_bytes] at hrest
  rw [hstore, Except.bind, show done.length + 2 = (done ++ [e.id, e.len]).length by simp]
  cases hbody : e.body with
  | nil =>
    obtain ⟨b, rest, rfl⟩ : ∃ b post, rest = b :: post := by
      cases rest with
      | nil => simp only [hbody, List.length_nil] at hrest h; omega
      | cons b post => exact ⟨b, post, rfl⟩
    have hput := store_append (done ++ [e.id, e.len]) [chn] rest (rfl : [b].length = 1)
    refine ⟨chn :: rest, ?_, by simpa [hbody] using hrest⟩
    simpa [Element.bytes, hbody] using hput
  | cons b body =>
    have hput := store_append (done ++ [e.id, e.len]) [chn] (body ++ rest) (rfl : [b].length = 1)
    refine ⟨rest, ?_, by simpa [hbody] using hrest⟩
    simpa [Element.bytes, hbody] using hput

theorem encode_channel {e : Element} (hact : act e.id = .channel) :
    encode (overridden act chn e) = e.id :: e.len :: e.body.set 0 chn := by
  simp only [overridden, hact, encode, List.flatMap_cons, List.flatMap_nil, List.append_nil,
    Element.bytes, Element.len, List.length_set]

theorem encode_copy {e : Element} (hact : act e.id = .copy) :
    encode (overridden act chn e) = e.bytes := by
  simp only [overridden, hact, encode, List.flatMap_cons, List.flatMap_nil, List.append_nil]

theorem encode_put {e : Element} {es : List Element} (hact : act e.id = .put es) :
    overridden act chn e = es := by
  simp only [overridden, hact]

/-- A turn whose bytes fit writes what is to stand for the element. -/
theorem turn_fits (done : List Byte) (e : Element) (rest : List Byte) (h : reach act chn e ≤ free.length) :
    ∃ free', turn act chn e.id e.len (e.bytes ++ rest) done.length (done ++ free) =
      .ok ((done ++ encode (overridden act chn e)).length,
        (done ++ encode (overridden act chn e)) ++ free') ∧
      free'.length + (encode (overridden act chn e)).length = free.length := by
  cases hact : act e.id with
  | copy =>
    simp only [reach, hact] at h
    rw [encode_copy hact] at h ⊢
    obtain ⟨free', hstore, hlen⟩ := store_fits done _ _ h
    refine ⟨free', ?_, hlen⟩
    simp only [turn, hact, e.toNat_len, load_bytes, hstore, bind, Except.bind, pure, Except.pure,
      List.length_append, e.length_bytes]
  | channel =>
    simp only [reach, hact] at h
    rw [encode_channel hact] at h ⊢
    simp only [List.length_cons, List.length_set] at h
    obtain ⟨free', hstore, hlen⟩ := store_channel chn done e h
    refine ⟨free', ?_, by simpa using hlen⟩
    simp only [turn, hact, e.toNat_len, load_bytes, bind, pure, Except.pure]
    change (store _ _ _).bind (fun buf => (store buf _ _).bind _) = _
    cases hfirst : store (done ++ free) done.length e.bytes with
    | error f => rw [hfirst] at hstore; cases hstore
    | ok buf =>
      rw [hfirst] at hstore
      change store buf _ _ = _ at hstore
      simp [Except.bind, hstore]
  | put es =>
    simp only [reach, hact] at h
    rw [encode_put hact] at h ⊢
    obtain ⟨free', hstore, hlen⟩ := store_fits done _ _ h
    refine ⟨free', ?_, hlen⟩
    simp only [turn, hact, hstore, bind, Except.bind, pure, Except.pure, List.length_append]

theorem turn_overrun (e : Element) (rest : List Byte) (h : free.length < reach act chn e) :
    turn act chn e.id e.len (e.bytes ++ rest) done.length (done ++ free) = .error .overrun := by
  cases hact : act e.id with
  | copy =>
    simp only [reach, hact] at h
    rw [encode_copy hact] at h
    simp only [turn, hact, e.toNat_len, load_bytes, bind, Except.bind, store_overrun _ _ h]
  | put es =>
    simp only [reach, hact] at h
    rw [encode_put hact] at h
    simp only [turn, hact, bind, Except.bind, store_overrun _ _ h]
  | channel =>
    simp only [reach, hact] at h
    rw [encode_channel hact] at h
    simp only [List.length_cons, List.length_set] at h
    simp only [turn, hact, e.toNat_len, load_bytes, bind, Except.bind]
    by_cases hfits : e.bytes.length ≤ free.length
    · obtain ⟨free', hstore, hlen⟩ := store_fits done _ _ hfits
      rw [e.length_bytes] at hlen hfits
      -- The element is empty and just fits; its channel does not.
      have hover : store ((done ++ e.bytes) ++ free') (done.length + 2) [chn] =
          .error .overrun :=
        if_neg (by simp only [List.length_append, e.length_bytes, List.length_singleton]; omega)
      rw [hstore]
      simp only [hover]
    · rw [store_overrun _ _ (by omega)]

end Turn

section Walk
variable {act : Byte → Action} {chn : Byte} {torn : List Byte}

/-- The loop at an element: its turn, then the rest. -/
theorem walk_cons (act : Byte → Action) (chn : Byte) (e : Element) (rest : List Byte)
    (hmore : ¬ (e.body = [] ∧ rest = [])) (fuel pos : ℕ) (buf : List Byte) :
    walk act chn (fuel + 1) (e.bytes ++ rest) pos buf =
      (turn act chn e.id e.len (e.bytes ++ rest) pos buf).bind fun r =>
        walk act chn fuel rest r.1 r.2 := by
  cases hbody : e.body ++ rest with
  | nil => exact absurd (List.append_eq_nil_iff.mp hbody) hmore
  | cons b bs =>
    have hdrop : (b :: bs).drop e.len.toNat = rest := by
      rw [← hbody, e.toNat_len, List.drop_left]
    have hbytes : e.bytes ++ rest = e.id :: e.len :: b :: bs := by
      rw [Element.bytes, List.cons_append, List.cons_append, hbody]
    rw [hbytes, walk, hdrop]
    rfl

theorem walk_short (h : torn.length ≤ 2) (fuel pos : ℕ) (buf : List Byte) :
    walk act chn fuel torn pos buf = .ok (pos, buf) := by
  match fuel, torn, h with
  | 0, _, _ => rfl
  | _ + 1, [], _ => rfl
  | _ + 1, [_], _ => rfl
  | _ + 1, [_, _], _ => rfl
  | _ + 1, _ :: _ :: _ :: _, h => simp at h

/-- The loop at the rest of a beacon that ends inside an element. -/
theorem walk_torn (htorn : Torn torn) {fuel : ℕ} (hfuel : torn.length ≤ fuel)
    (done free : List Byte) :
    (NotCopied act torn ∧ (encode (tornPut act torn)).length ≤ free.length →
      ∃ free', walk act chn fuel torn done.length (done ++ free) =
        .ok ((done ++ encode (tornPut act torn)).length,
          (done ++ encode (tornPut act torn)) ++ free')) ∧
    (¬ (NotCopied act torn ∧ (encode (tornPut act torn)).length ≤ free.length) →
      ∃ f, walk act chn fuel torn done.length (done ++ free) = .error f) := by
  match fuel, torn, htorn with
  | fuel, [], _ => simp [NotCopied, tornPut, walk_short]
  | fuel, [_], _ => simp [NotCopied, tornPut, walk_short]
  | fuel, [_, _], _ => simp [NotCopied, tornPut, walk_short]
  | 0, _ :: _ :: _ :: _, _ => simp at hfuel
  | fuel + 1, id :: len :: b :: rest, htorn =>
    have hdrop : (b :: rest).drop len.toNat = [] := List.drop_eq_nil_of_le (Nat.le_of_lt htorn)
    rw [walk, hdrop]
    cases hact : act id with
    | copy =>
      have hload : load (id :: len :: b :: rest) (len.toNat + 2) = .error .beyond :=
        if_neg (by simpa [Torn] using htorn)
      simp [NotCopied, hact, turn, hload, bind, Except.bind]
    | channel =>
      have hload : load (id :: len :: b :: rest) (len.toNat + 2) = .error .beyond :=
        if_neg (by simpa [Torn] using htorn)
      simp [NotCopied, hact, turn, hload, bind, Except.bind]
    | put es =>
      simp only [NotCopied, tornPut, hact, turn, true_and]
      refine ⟨fun h => ?_, fun h => ?_⟩
      · obtain ⟨free', hstore, -⟩ := store_fits done _ _ h
        exact ⟨free', by simp [hstore, bind, Except.bind, pure, Except.pure, walk_short]⟩
      · exact ⟨.overrun, by simp [store_overrun _ _ (Nat.lt_of_not_le h), bind, Except.bind]⟩

/-- The loop over elements that fit writes the new list; otherwise it leaves a buffer. -/
theorem walk_encode (act : Byte → Action) (chn : Byte) (htorn : Torn torn) (es : List Element) {fuel : ℕ}
    (hfuel : (encode es ++ torn).length ≤ fuel) (done free : List Byte) :
    (NotCopied act torn ∧
        extent act chn (encode (tornPut act torn)).length (seen torn es) ≤ free.length →
      ∃ free', walk act chn fuel (encode es ++ torn) done.length (done ++ free) =
        .ok ((done ++ encode (override act chn (seen torn es) ++ tornPut act torn)).length,
          (done ++ encode (override act chn (seen torn es) ++ tornPut act torn)) ++ free')) ∧
    (¬ (NotCopied act torn ∧
        extent act chn (encode (tornPut act torn)).length (seen torn es) ≤ free.length) →
      ∃ f, walk act chn fuel (encode es ++ torn) done.length (done ++ free) = .error f) := by
  induction es generalizing fuel done free with
  | nil => exact walk_torn htorn (by simpa using hfuel) done free
  | cons e es ih =>
    by_cases hlast : e.body = [] ∧ es = [] ∧ torn = []
    · obtain ⟨hbody, rfl, rfl⟩ := hlast
      have hshort : (encode [e] ++ []).length ≤ 2 := by
        simp [length_encode_cons, hbody]
      rw [walk_short hshort]
      simp [seen, hbody, extent, tornPut, NotCopied, override]
    · rw [seen, if_neg hlast, extent]
      rw [List.length_append, length_encode_cons] at hfuel
      obtain ⟨fuel, rfl⟩ : ∃ n, fuel = n + 1 := ⟨fuel - 1, by omega⟩
      have hbytes : encode (e :: es) ++ torn = e.bytes ++ (encode es ++ torn) := by
        rw [encode_cons, Element.bytes, List.cons_append, List.cons_append]
      rw [hbytes, walk_cons act chn e (encode es ++ torn)
        (fun h => hlast ⟨h.1, by simpa using h.2⟩) fuel done.length (done ++ free)]
      rcases Nat.lt_or_ge free.length (reach act chn e) with hover | hreach
      · rw [turn_overrun e _ hover]
        exact ⟨fun h => absurd h.2 (by omega), fun _ => ⟨_, rfl⟩⟩
      · obtain ⟨free', hturn, hlen⟩ :=
          turn_fits done e (encode es ++ torn) hreach
        have hiff : max (reach act chn e) ((encode (overridden act chn e)).length +
              extent act chn (encode (tornPut act torn)).length (seen torn es)) ≤ free.length ↔
            extent act chn (encode (tornPut act torn)).length (seen torn es) ≤ free'.length := by
          omega
        have hout : override act chn (e :: seen torn es) ++ tornPut act torn =
            overridden act chn e ++ (override act chn (seen torn es) ++ tornPut act torn) := by
          rw [override, List.flatMap_cons, List.append_assoc]
          rfl
        have hrest := ih (show (encode es ++ torn).length ≤ fuel by
            rw [List.length_append]
            omega)
          (done ++ encode (overridden act chn e)) free'
        rw [hturn, hiff, hout, encode_append, ← List.append_assoc done]
        exact hrest

/-- The loop loses nothing at the end exactly if no empty element is to stand there. -/
theorem encode_override_seen (es : List Element) :
    encode (override act chn (seen [] es)) = encode (override act chn es) ↔
      LastKept act chn es := by
  induction es with
  | nil => simp [seen, LastKept]
  | cons e es ih =>
    have hcons (fs : List Element) :
        override act chn (e :: fs) = overridden act chn e ++ override act chn fs :=
      List.flatMap_cons
    by_cases hes : es = []
    · subst hes
      by_cases hbody : e.body = []
      · rw [eq_comm]
        simp [seen, hbody, LastKept, override]
      · simp [seen, hbody, LastKept]
    · have hlast : LastKept act chn (e :: es) ↔ LastKept act chn es := by
        obtain ⟨f, fs, rfl⟩ := List.exists_cons_of_ne_nil hes
        rw [LastKept, LastKept, List.getLast?_cons_cons]
      rw [seen, if_neg (fun h => hes h.2.1), hlast, hcons, hcons, encode_append, encode_append,
        List.append_cancel_left_eq]
      exact ih

/-- The loop with `done` already written. -/
theorem walk_iff (act : Byte → Action) (chn : Byte) (htorn : Torn torn) (es : List Element) {fuel : ℕ}
    (hfuel : (encode es ++ torn).length ≤ fuel) (done free : List Byte) :
    Overrides (walk act chn fuel (encode es ++ torn) done.length (done ++ free)) done act chn es
        torn ↔
      Suits act chn free.length es torn := by
  obtain ⟨hfits, herror⟩ := walk_encode act chn htorn es hfuel done free
  constructor
  · rintro ⟨len, buf, hwalk, hout⟩
    by_cases hgood : NotCopied act torn ∧
        extent act chn (encode (tornPut act torn)).length (seen torn es) ≤ free.length
    · obtain ⟨free', heq⟩ := hfits hgood
      obtain ⟨rfl, rfl⟩ := Prod.mk.inj (Except.ok.inj (hwalk.symm.trans heq))
      refine ⟨hgood.2, hgood.1, fun hnil => ?_⟩
      subst hnil
      have hlist := hout rfl
      rw [List.take_left, List.append_cancel_left_eq, tornPut_nil, List.append_nil] at hlist
      exact (encode_override_seen es).mp hlist
    · obtain ⟨f, heq⟩ := herror hgood
      cases hwalk.symm.trans heq
  · intro h
    obtain ⟨free', heq⟩ := hfits ⟨h.notCopied, h.fits⟩
    refine ⟨_, _, heq, fun hnil => ?_⟩
    subst hnil
    rw [List.take_left, tornPut_nil, List.append_nil,
      (encode_override_seen es).mpr (h.lastKept rfl)]

end Walk

section TailWalk
variable {act : Byte → Action} {chn : Byte} {torn : List Byte}

theorem tailWalk_short {tailLen : ℤ} (h : tailLen ≤ 2) (fuel pos : ℕ) (ies buf : List Byte) :
    tailWalk act chn fuel tailLen ies pos buf = .ok (pos, buf) := by
  cases fuel with
  | zero => rfl
  | succ fuel => exact if_neg (by omega)

/-- The loop at a whole header: its turn, then the rest behind the length that follows. -/
theorem tailWalk_cons (id len : Byte) (rest : List Byte) {tailLen : ℤ} (hlen : 2 < tailLen)
    (fuel pos : ℕ) (buf : List Byte) :
    tailWalk act chn (fuel + 1) tailLen (id :: len :: rest) pos buf =
      (turn act chn id len (id :: len :: rest) pos buf).bind fun r =>
        match rest.drop len.toNat with
        | id' :: len' :: rest' =>
          tailWalk act chn fuel (tailLen - (len'.toNat + 2)) (id' :: len' :: rest') r.1 r.2
        | _ => .error .beyond :=
  if_pos hlen

/-- An element that is not whole is read beyond the tail. -/
theorem tailWalk_torn {fuel : ℕ} {tailLen : ℤ} (hlen : 2 < tailLen) (htorn : Torn torn)
    (pos : ℕ) (buf : List Byte) :
    ∃ f, tailWalk act chn (fuel + 1) tailLen torn pos buf = .error f := by
  match torn, htorn with
  | [], _ => exact ⟨.beyond, if_pos hlen⟩
  | [_], _ => exact ⟨.beyond, if_pos hlen⟩
  | id :: len :: rest, htorn =>
    have hdrop : rest.drop len.toNat = [] := List.drop_eq_nil_of_le (Nat.le_of_lt htorn)
    rw [tailWalk_cons id len rest hlen, hdrop]
    cases turn act chn id len (id :: len :: rest) pos buf with
    | error f => exact ⟨f, rfl⟩
    | ok r => exact ⟨.beyond, rfl⟩

/-- The loop at an element that is whole. -/
theorem tailWalk_element (e : Element) (rest : List Byte) {tailLen : ℤ} (hlen : 2 < tailLen)
    (fuel pos : ℕ) (buf : List Byte) :
    tailWalk act chn (fuel + 1) tailLen (e.bytes ++ rest) pos buf =
      (turn act chn e.id e.len (e.bytes ++ rest) pos buf).bind fun r =>
        match rest with
        | id :: len :: rest =>
          tailWalk act chn fuel (tailLen - (len.toNat + 2)) (id :: len :: rest) r.1 r.2
        | _ => .error .beyond := by
  have hdrop : (e.body ++ rest).drop e.len.toNat = rest := by
    rw [e.toNat_len, List.drop_left]
  have hcons := @tailWalk_cons act chn e.id e.len (e.body ++ rest) tailLen hlen fuel pos buf
  rw [hdrop] at hcons
  exact hcons

/-- The loop at the last element. It goes on behind it with the length that the rest says, if that
can be read. -/
theorem tailWalk_last (htorn : Torn torn) (first e : Element) {fuel : ℕ}
    (hfuel : (e.bytes ++ torn).length ≤ fuel) (done free : List Byte) :
    (TailEnds torn [first] ∧ extent act chn 0 (tailSeen torn [e]) ≤ free.length →
      ∃ free', tailWalk act chn fuel (first.body.length + 2 + torn.length) (e.bytes ++ torn)
          done.length (done ++ free) =
        .ok ((done ++ encode (override act chn (tailSeen torn [e]))).length,
          (done ++ encode (override act chn (tailSeen torn [e]))) ++ free')) ∧
    (¬ (TailEnds torn [first] ∧ extent act chn 0 (tailSeen torn [e]) ≤ free.length) →
      ∃ f, tailWalk act chn fuel (first.body.length + 2 + torn.length) (e.bytes ++ torn)
        done.length (done ++ free) = .error f) := by
  rw [List.length_append, e.length_bytes] at hfuel
  obtain ⟨fuel, rfl⟩ : ∃ n, fuel = n + 1 := ⟨fuel - 1, by omega⟩
  by_cases hshort : first.body = [] ∧ torn = []
  · obtain ⟨hbody, rfl⟩ := hshort
    rw [tailWalk_short (by simp [hbody])]
    simp [TailEnds, hbody, tailSeen, extent, override]
  · have hlen : (2 : ℤ) < first.body.length + 2 + torn.length := by
      rcases not_and_or.mp hshort with hbody | htorn
      · have := List.length_pos_iff.mpr hbody
        omega
      · have := List.length_pos_iff.mpr htorn
        omega
    rw [tailWalk_element e torn hlen]
    -- Whatever the turn does, without a length behind it the loop reads beyond.
    have hbeyond : (∀ id len rest, torn ≠ id :: len :: rest) →
        ∃ f, ((turn act chn e.id e.len (e.bytes ++ torn) done.length (done ++ free)).bind fun r =>
          match torn with
          | id :: len :: rest => tailWalk act chn fuel
              (first.body.length + 2 + torn.length - (len.toNat + 2)) (id :: len :: rest) r.1 r.2
          | _ => .error .beyond) = .error f := by
      intro hnone
      cases turn act chn e.id e.len (e.bytes ++ torn) done.length (done ++ free) with
      | error f => exact ⟨f, rfl⟩
      | ok r =>
        match torn, hnone with
        | [], _ => exact ⟨.beyond, rfl⟩
        | [_], _ => exact ⟨.beyond, rfl⟩
        | id :: len :: rest, hnone => exact absurd rfl (hnone id len rest)
    match torn, htorn, hbeyond, hshort with
    | [], _, hbeyond, hshort =>
      exact ⟨fun h => absurd ⟨h.1, rfl⟩ hshort, fun _ => hbeyond (by simp)⟩
    | [_], _, hbeyond, _ => exact ⟨fun h => absurd h.1 id, fun _ => hbeyond (by simp)⟩
    | id :: len :: rest, htorn, _, _ =>
      rw [show tailSeen (id :: len :: rest) [e] = [e] from if_neg (List.cons_ne_nil _ _), extent,
        extent, Nat.add_zero, override, List.flatMap_singleton]
      have hover : (encode (overridden act chn e)).length ≤ reach act chn e := by
        rw [reach]
        split <;> omega
      rcases Nat.lt_or_ge free.length (reach act chn e) with hlong | hreach
      · rw [turn_overrun e _ hlong]
        exact ⟨fun h => absurd h.2 (by omega), fun _ => ⟨_, rfl⟩⟩
      · obtain ⟨free', hturn, -⟩ := turn_fits done e (id :: len :: rest) hreach
        rw [hturn]
        by_cases hends : first.body.length + rest.length ≤ len.toNat
        · refine ⟨fun _ => ⟨free', ?_⟩, fun h => absurd ⟨hends, by omega⟩ h⟩
          exact tailWalk_short (by simp only [List.length_cons]; omega) _ _ _ _
        · have hfuel' : ∃ n, fuel = n + 1 := ⟨fuel - 1, by simp at hfuel; omega⟩
          obtain ⟨fuel, rfl⟩ := hfuel'
          exact ⟨fun h => absurd h.1 hends, fun _ =>
            tailWalk_torn (by simp only [List.length_cons]; omega) htorn _ _⟩

/-- The loop at the elements from `e` on, when the length of the first is still to be taken off. -/
theorem tailWalk_encode (htorn : Torn torn) (first e : Element) (es : List Element) {fuel : ℕ}
    (hfuel : (encode (e :: es) ++ torn).length ≤ fuel) (done free : List Byte) :
    (TailEnds torn [first] ∧ extent act chn 0 (tailSeen torn (e :: es)) ≤ free.length →
      ∃ free', tailWalk act chn fuel (first.body.length + 2 + (encode es ++ torn).length)
          (encode (e :: es) ++ torn) done.length (done ++ free) =
        .ok ((done ++ encode (override act chn (tailSeen torn (e :: es)))).length,
          (done ++ encode (override act chn (tailSeen torn (e :: es)))) ++ free')) ∧
    (¬ (TailEnds torn [first] ∧ extent act chn 0 (tailSeen torn (e :: es)) ≤ free.length) →
      ∃ f, tailWalk act chn fuel (first.body.length + 2 + (encode es ++ torn).length)
        (encode (e :: es) ++ torn) done.length (done ++ free) = .error f) := by
  induction es generalizing e fuel done free with
  | nil =>
    have hbytes : encode [e] ++ torn = e.bytes ++ torn := by
      rw [encode_cons]
      rfl
    rw [hbytes] at hfuel ⊢
    rw [encode_nil, List.nil_append]
    exact tailWalk_last htorn first e hfuel done free
  | cons e' es ih =>
    have hbytes : encode (e :: e' :: es) ++ torn = e.bytes ++ (encode (e' :: es) ++ torn) := by
      rw [encode_cons, Element.bytes, List.cons_append, List.cons_append]
    have hseen : tailSeen torn (e :: e' :: es) = e :: tailSeen torn (e' :: es) := by
      rw [tailSeen, tailSeen]
      split <;> rfl
    have hrest := length_encode_cons e' es
    rw [hbytes, List.length_append, e.length_bytes] at hfuel
    obtain ⟨fuel, rfl⟩ : ∃ n, fuel = n + 1 := ⟨fuel - 1, by omega⟩
    rw [hbytes, hseen, extent, tailWalk_element e _ (by
      rw [List.length_append, hrest]
      omega)]
    rcases Nat.lt_or_ge free.length (reach act chn e) with hover | hreach
    · rw [turn_overrun e _ hover]
      exact ⟨fun h => absurd h.2 (by omega), fun _ => ⟨_, rfl⟩⟩
    · obtain ⟨free', hturn, hlen⟩ := turn_fits done e (encode (e' :: es) ++ torn) hreach
      have hiff : max (reach act chn e) ((encode (overridden act chn e)).length +
            extent act chn 0 (tailSeen torn (e' :: es))) ≤ free.length ↔
          extent act chn 0 (tailSeen torn (e' :: es)) ≤ free'.length := by
        omega
      have hout : override act chn (e :: tailSeen torn (e' :: es)) =
          overridden act chn e ++ override act chn (tailSeen torn (e' :: es)) :=
        List.flatMap_cons
      -- The length that is taken off is that of `e'`.
      have hleft : (first.body.length + 2 + (encode (e' :: es) ++ torn).length : ℤ) -
          (e'.len.toNat + 2) = first.body.length + 2 + (encode es ++ torn).length := by
        rw [e'.toNat_len, List.length_append, List.length_append, hrest]
        omega
      have hnext := ih e' (show (encode (e' :: es) ++ torn).length ≤ fuel by omega)
        (done ++ encode (overridden act chn e)) free'
      rw [hturn, hiff, hout, encode_append, ← List.append_assoc done]
      rw [encode_cons] at hnext ⊢
      rw [← hleft, encode_cons] at hnext
      exact hnext

end TailWalk

/-- A head that ends before its elements is copied. -/
theorem newBeaconHead_short {beaconHead newHead : List Byte} (chn : BitVec 16)
    (hroom : newHead.length = beaconHead.length + ROOM)
    (hshort : beaconHead.length < BEACON_VARIABLE) :
    ∃ buf, newBeaconHead beaconHead newHead chn = .ok (BEACON_VARIABLE, buf) := by
  obtain ⟨rest, hstore, -⟩ := store_fits [] beaconHead newHead (by omega)
  have hdrop : beaconHead.drop BEACON_VARIABLE = [] := List.drop_eq_nil_of_le (by omega)
  refine ⟨[] ++ beaconHead ++ rest, ?_⟩
  change (store newHead 0 beaconHead).bind _ = _
  rw [show store newHead 0 beaconHead = _ from hstore, Except.bind, hdrop]
  exact walk_short (by simp) _ _ _

theorem newBeaconHead_iff {fixed newHead torn : List Byte} (chn : BitVec 16) (es : List Element)
    (hfixed : fixed.length = BEACON_VARIABLE) (htorn : Torn torn)
    (hroom : newHead.length = (fixed ++ (encode es ++ torn)).length + ROOM) :
    Overrides (newBeaconHead (fixed ++ (encode es ++ torn)) newHead chn) fixed (headAction chn)
        (chn.setWidth 8) es torn ↔
      Suits (headAction chn) (chn.setWidth 8) ((encode es ++ torn).length + ROOM) es torn := by
  obtain ⟨rest, hstore, hlen⟩ := store_fits [] (fixed ++ (encode es ++ torn)) newHead
    (by omega)
  have hwalk := walk_iff (headAction chn) (chn.setWidth 8) htorn es
    (show (encode es ++ torn).length ≤ (fixed ++ (encode es ++ torn)).length by simp) fixed
    ((encode es ++ torn) ++ rest)
  have hfree : ((encode es ++ torn) ++ rest).length = (encode es ++ torn).length + ROOM := by
    rw [List.length_append]
    omega
  rw [hfree, hfixed, ← List.append_assoc fixed (encode es ++ torn) rest] at hwalk
  rw [← hwalk]
  have hrun : newBeaconHead (fixed ++ (encode es ++ torn)) newHead chn =
      walk (headAction chn) (chn.setWidth 8) (fixed ++ (encode es ++ torn)).length
        (encode es ++ torn) BEACON_VARIABLE ((fixed ++ (encode es ++ torn)) ++ rest) := by
    change (store newHead 0 _).bind _ = _
    rw [show store newHead 0 _ = _ from hstore, Except.bind, ← hfixed, List.drop_left]
    rfl
  rw [hrun]

theorem length_erpInfo_le (chn : BitVec 16) : (encode (erpInfo chn)).length ≤ ROOM := by
  rw [erpInfo]
  split
  · decide
  · decide

/-- What the new tail starts with and the elements the loop comes to. -/
def tailWritten (chn : BitVec 16) (es : List Element) (torn : List Byte) : List Byte :=
  encode (erpInfo chn) ++ encode (override (tailAction chn) (chn.setWidth 8) (tailSeen torn es))

theorem newBeaconTail_encode {newTail torn : List Byte} (chn : BitVec 16) (es : List Element)
    (htorn : Torn torn) (hroom : newTail.length = (encode es ++ torn).length + ROOM) :
    (TailEnds torn es ∧ extent (tailAction chn) (chn.setWidth 8) 0 (tailSeen torn es) ≤
        (encode es ++ torn).length + ROOM - (encode (erpInfo chn)).length →
      ∃ buf, newBeaconTail (encode es ++ torn) newTail chn =
        .ok ((tailWritten chn es torn).length, tailWritten chn es torn ++ buf)) ∧
    (¬ (TailEnds torn es ∧ extent (tailAction chn) (chn.setWidth 8) 0 (tailSeen torn es) ≤
        (encode es ++ torn).length + ROOM - (encode (erpInfo chn)).length) →
      ∃ f, newBeaconTail (encode es ++ torn) newTail chn = .error f) := by
  have herp := length_erpInfo_le chn
  obtain ⟨rest, hstore, hlen⟩ := store_fits [] (encode (erpInfo chn)) newTail (by omega)
  rw [← show rest.length = (encode es ++ torn).length + ROOM - (encode (erpInfo chn)).length by
    omega]
  have hrun : newBeaconTail (encode es ++ torn) newTail chn =
      tailWalk (tailAction chn) (chn.setWidth 8) (encode es ++ torn).length
        (encode es ++ torn).length (encode es ++ torn) (encode (erpInfo chn)).length
        (encode (erpInfo chn) ++ rest) := by
    change (store newTail 0 _).bind _ = _
    rw [show store newTail 0 _ = _ from hstore]
    rfl
  rw [hrun, tailWritten]
  cases es with
  | nil =>
    rw [encode_nil, List.nil_append, TailEnds]
    have hseen : tailSeen torn [] = [] := by
      rw [tailSeen]
      split <;> rfl
    rw [hseen]
    constructor
    · rintro ⟨hshort, -⟩
      refine ⟨rest, ?_⟩
      rw [tailWalk_short (by omega), override, List.flatMap_nil, encode_nil, List.append_nil]
    · intro hlong
      have hthree : 2 < torn.length := by
        by_contra hshort
        exact hlong ⟨by omega, Nat.zero_le _⟩
      obtain ⟨n, hn⟩ : ∃ n, torn.length = n + 1 := ⟨torn.length - 1, by omega⟩
      rw [hn]
      exact tailWalk_torn (by omega) htorn _ _
  | cons e es =>
    have hends : TailEnds torn (e :: es) ↔ TailEnds torn [e] := Iff.rfl
    have htotal : ((encode (e :: es) ++ torn).length : ℤ) =
        e.body.length + 2 + (encode es ++ torn).length := by
      rw [List.length_append, List.length_append, length_encode_cons]
      omega
    rw [hends, htotal]
    exact tailWalk_encode htorn e e es (Nat.le_refl _) (encode (erpInfo chn)) rest

/-- The loop loses nothing exactly if the last element is left out anyway. -/
theorem encode_override_dropLast {act : Byte → Action} {chn : Byte} (es : List Element) :
    encode (override act chn es.dropLast) = encode (override act chn es) ↔
      ∀ e, es.getLast? = some e → overridden act chn e = [] := by
  cases hlast : es.getLast? with
  | none =>
    rw [List.getLast?_eq_none_iff.mp hlast]
    simp
  | some e =>
    obtain ⟨front, rfl⟩ := List.getLast?_eq_some_iff.mp hlast
    rw [List.dropLast_concat, override, override, List.flatMap_append, List.flatMap_singleton,
      encode_append, List.self_eq_append_right, encode_eq_nil]
    exact ⟨fun h e' he' => Option.some.inj he' ▸ h, fun h => h e rfl⟩

theorem newBeaconTail_iff {newTail torn : List Byte} (chn : BitVec 16) (es : List Element)
    (htorn : Torn torn) (hroom : newTail.length = (encode es ++ torn).length + ROOM) :
    Overrides (newBeaconTail (encode es ++ torn) newTail chn) (encode (erpInfo chn))
        (tailAction chn) (chn.setWidth 8) es torn ↔
      TailSuits (tailAction chn) (chn.setWidth 8)
        ((encode es ++ torn).length + ROOM - (encode (erpInfo chn)).length) es torn := by
  obtain ⟨hfits, herror⟩ := newBeaconTail_encode chn es htorn hroom
  have hall : torn = [] → ((tailWritten chn es torn) =
      encode (erpInfo chn) ++ encode (override (tailAction chn) (chn.setWidth 8) es) ↔
        ∀ e, es.getLast? = some e → overridden (tailAction chn) (chn.setWidth 8) e = []) := by
    intro hnil
    rw [tailWritten, tailSeen, if_pos hnil, List.append_cancel_left_eq]
    exact encode_override_dropLast es
  constructor
  · rintro ⟨len, buf, hrun, hout⟩
    by_cases hgood : TailEnds torn es ∧
        extent (tailAction chn) (chn.setWidth 8) 0 (tailSeen torn es) ≤
          (encode es ++ torn).length + ROOM - (encode (erpInfo chn)).length
    · obtain ⟨rest, heq⟩ := hfits hgood
      obtain ⟨rfl, rfl⟩ := Prod.mk.inj (Except.ok.inj (hrun.symm.trans heq))
      refine ⟨hgood.1, hgood.2, fun hnil => (hall hnil).mp ?_⟩
      have hlist := hout hnil
      rwa [List.take_left] at hlist
    · obtain ⟨f, heq⟩ := herror hgood
      cases hrun.symm.trans heq
  · intro h
    obtain ⟨rest, heq⟩ := hfits ⟨h.ends, h.fits⟩
    refine ⟨_, _, heq, fun hnil => ?_⟩
    rw [List.take_left]
    exact (hall hnil).mpr (h.lastLeftOut hnil)

/-- With the buffers the caller allocates, both functions stay inside and keep the other elements
exactly for the beacons that suit them. -/
theorem beacon_override_iff (chn : BitVec 16) :
    (∀ beaconHead newHead : List Byte, newHead.length = beaconHead.length + ROOM →
      beaconHead.length < BEACON_VARIABLE →
        ∃ buf, newBeaconHead beaconHead newHead chn = .ok (BEACON_VARIABLE, buf)) ∧
    (∀ (fixed : List Byte) (es : List Element) (torn newHead : List Byte),
      fixed.length = BEACON_VARIABLE → Torn torn →
      newHead.length = (fixed ++ (encode es ++ torn)).length + ROOM →
        (Overrides (newBeaconHead (fixed ++ (encode es ++ torn)) newHead chn) fixed
            (headAction chn) (chn.setWidth 8) es torn ↔
          Suits (headAction chn) (chn.setWidth 8) ((encode es ++ torn).length + ROOM) es torn)) ∧
    (∀ (es : List Element) (torn newTail : List Byte), Torn torn →
      newTail.length = (encode es ++ torn).length + ROOM →
        (Overrides (newBeaconTail (encode es ++ torn) newTail chn) (encode (erpInfo chn))
            (tailAction chn) (chn.setWidth 8) es torn ↔
          TailSuits (tailAction chn) (chn.setWidth 8)
            ((encode es ++ torn).length + ROOM - (encode (erpInfo chn)).length) es torn)) :=
  ⟨fun _ _ hroom hshort => newBeaconHead_short chn hroom hshort,
    fun _ es _ _ hfixed htorn hroom => newBeaconHead_iff chn es hfixed htorn hroom,
    fun es _ _ htorn hroom => newBeaconTail_iff chn es htorn hroom⟩

/-- An element with a channel and an empty one. -/
def dsAndEmpty : List Element := [⟨WLAN_EID_DS_PARAMS, [1], by decide⟩, ⟨127, [], by decide⟩]

theorem beacon_override_iff_six :
    (∃ buf, newBeaconHead [0x80] (List.replicate 33 0) 6 = .ok (BEACON_VARIABLE, buf)) ∧
    (Overrides (newBeaconHead (List.replicate 36 0 ++ (encode dsAndEmpty ++ []))
        (List.replicate 73 0) 6) (List.replicate 36 0) (headAction 6) 6 dsAndEmpty [] ↔
      Suits (headAction 6) 6 37 dsAndEmpty []) ∧
    (Overrides (newBeaconTail (encode dsAndEmpty ++ [127]) (List.replicate 38 0) 6)
        (encode (erpInfo 6)) (tailAction 6) 6 dsAndEmpty [127] ↔
      TailSuits (tailAction 6) 6 35 dsAndEmpty [127]) :=
  ⟨(beacon_override_iff 6).1 _ _ (by decide) (by decide),
    (beacon_override_iff 6).2.1 _ dsAndEmpty _ _ (by decide) True.intro (by decide),
    (beacon_override_iff 6).2.2 dsAndEmpty [127] _ True.intro (by decide)⟩

/-- A rates element of one byte, of which the head may hold several. -/
def shortRates : List Byte := [WLAN_EID_SUPP_RATES, 1, 0x30]

/-- On channel 6 a tail of one element is read beyond its end. An empty element at the end of the
head is lost, a head that is cut off is read beyond its end, and five short rates elements more than
fill the new head. -/
theorem beacon_override_fails :
    newBeaconTail [45, 1, 9] (List.replicate 35 0) 6 = .error .beyond ∧
    (∃ buf, newBeaconHead (List.replicate 36 0 ++ [127, 0]) (List.replicate 70 0) 6 =
      .ok (36, buf)) ∧
    newBeaconHead (List.replicate 36 0 ++ [45, 26, 0]) (List.replicate 71 0) 6 =
      .error .beyond ∧
    newBeaconHead (List.replicate 36 0 ++ (List.replicate 5 shortRates).flatten)
      (List.replicate 83 0) 6 = .error .overrun := by
  refine ⟨?_, ⟨List.replicate 36 0 ++ [127, 0] ++ List.replicate 32 0, ?_⟩, ?_, ?_⟩
  all_goals decide

end Uwe5631.BeaconOverride
