import Uwe5631.FallibleRuns
import Mathlib.Data.BitVec
import Mathlib.Tactic.FinCases

/-!
# Key store

`key` and `key_len` of an interface, with the cipher records beside them. The rows of the two arrays
stand behind each other in memory: index 4 of the group keys is index 0 of the pairwise keys.
-/
namespace Uwe5631.KeyStore
open FallibleRuns

abbrev SPRDWL_MAX_KEY_INDEX : ℕ := 3

abbrev WLAN_MAX_KEY_LEN : ℕ := 32

/-- the keys of `key[2][4]` -/
abbrev SLOTS : ℕ := 8

/-- `SPRDWL_CIPHER_NONE` and the others -/
inductive Cipher where
  | none
  | wep40
  | wep104
  | tkip
  | ccmp
  | wapi
  | aesCmac
  deriving DecidableEq, Repr

/-- `WLAN_CIPHER_SUITE_WEP40` and the others -/
inductive CipherSuite where
  | wep40
  | wep104
  | tkip
  | ccmp
  | sms4
  | aesCmac
  | pmk
  | unknown
  deriving DecidableEq, Repr

/-- `sprdwl_parse_cipher` -/
def parseCipher : CipherSuite → Cipher
  | .wep40 => .wep40
  | .wep104 => .wep104
  | .tkip => .tkip
  | .ccmp => .ccmp
  | .sms4 => .wapi
  | .aesCmac => .aesCmac
  | .pmk | .unknown => .none

def CipherSuite.IsWep (c : CipherSuite) : Prop := c = .wep40 ∨ c = .wep104

instance (c : CipherSuite) : Decidable c.IsWep := inferInstanceAs (Decidable (_ ∨ _))

/-- A key of a length that the store has room for. -/
structure KeyData where
  bytes : List (BitVec 8)
  length_le : bytes.length ≤ WLAN_MAX_KEY_LEN
  deriving DecidableEq

/-- A pairwise flag, true for `SPRDWL_PAIRWISE`, and an index that cfg80211 lets pass. -/
structure KeyId where
  pairwise : Bool
  index : ℕ
  accepted : index ≤ 3 ∨ pairwise = false ∧ index ≤ 5
  deriving DecidableEq

/-- What `sprdwl_cfg80211_connect` takes of a connect with a WEP key. -/
structure WepConnect where
  nCiphersPairwise : ℕ
  ciphersPairwise : CipherSuite
  cipherGroup : CipherSuite
  keyIdx : ℕ
  key : KeyData
  /-- no command before the ciphers fails -/
  started : Bool
  keyIdx_le : keyIdx ≤ 3
  key_ne_nil : key.bytes ≠ []
  wep : cipherGroup.IsWep ∨ ciphersPairwise.IsWep

/-- A command to the firmware. -/
inductive Cmd where
  | addKey (value : List (BitVec 8)) (pairwise : Bool) (keyIndex : ℕ) (cypherType : Cipher)
  | delKey (pairwise : Bool) (keyIndex : ℕ)
  | setRoamOffload (value : List (BitVec 8))
  deriving DecidableEq, Repr

structure Vif where
  prwiseCrypto : Cipher
  grpCrypto : Cipher
  keyIndex : Bool → ℕ
  key : Fin SLOTS → Fin WLAN_MAX_KEY_LEN → BitVec 8
  keyLen : Fin SLOTS → ℕ
  /-- what the last operation has sent -/
  sent : Option Cmd

inductive Fault where
  /-- an access behind the end of the key store -/
  | outOfBounds
  deriving DecidableEq, Repr

theorem four_mul_add_lt (pairwise : Bool) {index : ℕ} (h : index < 4) :
    4 * pairwise.toNat + index < SLOTS := by
  change _ < 8
  cases pairwise <;> simp <;> omega

/-- Where `[pairwise][index]` is. -/
def slot (pairwise : Bool) (index : ℕ) : Except Fault (Fin SLOTS) :=
  if h : 4 * pairwise.toNat + index < SLOTS then .ok ⟨4 * pairwise.toNat + index, h⟩
  else .error .outOfBounds

/-- `memcpy` over a key that is there. -/
def overlay (k : KeyData) (old : Fin WLAN_MAX_KEY_LEN → BitVec 8) :
    Fin WLAN_MAX_KEY_LEN → BitVec 8 := fun j => k.bytes.getD j (old j)

/-- The first `key_len` bytes of a key. -/
def value (s : Vif) (i : Fin SLOTS) : List (BitVec 8) := (List.ofFn (s.key i)).take (s.keyLen i)

/-- `key_index`, `key_len` and `key` of a new key -/
def storeKey (s : Vif) (pairwise : Bool) (index : ℕ) (k : KeyData) : Except Fault Vif :=
  (slot pairwise index).map fun i =>
    { s with
      keyIndex := Function.update s.keyIndex pairwise index
      keyLen := Function.update s.keyLen i k.bytes.length
      key := Function.update s.key i (overlay k (s.key i)) }

/-- One of the four keys has a length. -/
def AnyKey (s : Vif) (pairwise : Bool) : Prop :=
  ∃ i : Fin 4, s.keyLen ⟨4 * pairwise.toNat + i, four_mul_add_lt pairwise i.isLt⟩ ≠ 0

instance (s : Vif) (pairwise : Bool) : Decidable (AnyKey s pairwise) :=
  inferInstanceAs (Decidable (∃ _, _))

/-- `*cipher_ptr = vif->prwise_crypto = …` -/
def setCipher (s : Vif) (pairwise : Bool) (c : Cipher) : Vif :=
  if pairwise then { s with prwiseCrypto := c } else { s with prwiseCrypto := c, grpCrypto := c }

/-- `sprdwl_add_cipher_key`. The answer of the firmware does not go into the state. -/
def addCipherKey (s : Vif) (pairwise : Bool) (index : ℕ) (cipher : CipherSuite) :
    Except Fault Vif :=
  if AnyKey s pairwise then
    (slot pairwise index).map fun i =>
      { setCipher s pairwise (parseCipher cipher) with
        sent := some (.addKey (value s i) pairwise index (parseCipher cipher)) }
  else .ok { s with sent := none }

/-- `sprdwl_cfg80211_add_key` -/
def addKey (s : Vif) (pairwise : Bool) (index : ℕ) (cipher : CipherSuite) (k : KeyData) :
    Except Fault Vif :=
  (storeKey s pairwise index k).bind fun s =>
    if cipher = .pmk then .ok { s with sent := some (.setRoamOffload k.bytes) }
    else addCipherKey s pairwise index cipher

/-- `sprdwl_cfg80211_del_key` -/
def delKey (s : Vif) (pairwise : Bool) (index : ℕ) : Except Fault Vif :=
  if index > SPRDWL_MAX_KEY_INDEX then .ok { s with sent := none }
  else
    (slot pairwise index).map fun i =>
      if s.keyLen i = 0 then { s with sent := none }
      else
        { s with
          keyLen := Function.update s.keyLen i 0
          prwiseCrypto := .none
          grpCrypto := .none
          sent := some (.delKey pairwise index) }

/-- The ciphers and the key in `sprdwl_cfg80211_connect`. -/
def connect (s : Vif) (c : WepConnect) : Except Fault Vif :=
  if c.started then
    let s := { s with
      prwiseCrypto := if c.nCiphersPairwise ≠ 0 then parseCipher c.ciphersPairwise else .none
      grpCrypto := parseCipher c.cipherGroup }
    (storeKey s false c.keyIdx c.key).bind fun s => addCipherKey s false c.keyIdx c.ciphersPairwise
  else .ok { s with sent := none }

inductive Event where
  | addKey (id : KeyId) (cipher : CipherSuite) (k : KeyData)
  | delKey (id : KeyId)
  | connect (c : WepConnect)

/-- The pair an operation is about. -/
def Event.pair : Event → Bool × ℕ
  | .addKey id _ _ => (id.pairwise, id.index)
  | .delKey id => (id.pairwise, id.index)
  | .connect c => (false, c.keyIdx)

/-- The key an operation gives. -/
def Event.key : Event → Option (List (BitVec 8))
  | .addKey _ _ k => some k.bytes
  | .delKey _ => none
  | .connect c => some c.key.bytes

def step (s : Vif) : Event → Except Fault Vif
  | .addKey id cipher k => addKey s id.pairwise id.index cipher k
  | .delKey id => delKey s id.pairwise id.index
  | .connect c => connect s c

/-- For each kind the key installed last, with the pair it is stored under, and its cipher. -/
abbrev Last := Bool → Option ((Bool × ℕ) × Cipher)

/-- A PMK is no key of a kind. The WEP key of a connect is one for both kinds, with the ciphers the
connect names for them. -/
def note (last : Last) (_ : Vif) (e : Event) (_ : Vif) : Last :=
  match e with
  | .addKey id cipher _ =>
    if cipher = .pmk then last
    else Function.update last id.pairwise (some ((id.pairwise, id.index), parseCipher cipher))
  | .delKey id => fun kind => (last kind).filter fun l => l.1 ≠ (id.pairwise, id.index)
  | .connect c =>
    if c.started then
      fun kind => some ((false, c.keyIdx),
        parseCipher (if kind then c.ciphersPairwise else c.cipherGroup))
    else last

/-- The cipher of the last key, or none. -/
def cipherOf (l : Option ((Bool × ℕ) × Cipher)) : Cipher := (l.map Prod.snd).getD .none

@[simp] theorem cipherOf_some (l : (Bool × ℕ) × Cipher) : cipherOf (some l) = l.2 := rfl

@[simp] theorem cipherOf_none : cipherOf none = .none := rfl

/-- What the interface has recorded for a kind. -/
def Vif.crypto (s : Vif) (kind : Bool) : Cipher := if kind then s.prwiseCrypto else s.grpCrypto

/-- `prwise_crypto` and `grp_crypto` are the ciphers of the last keys. -/
def Recorded (p : Vif × Last) : Prop := ∀ kind, p.1.crypto kind = cipherOf (p.2 kind)

/-- The slot is the one of the pair. -/
def Own (pair : Bool × ℕ) (i : Fin SLOTS) : Prop := pair.2 ≤ 3 ∧ (i : ℕ) = 4 * pair.1.toNat + pair.2

/-- A command carries the key the operation gives, for the pair of the operation. -/
def Cmd.Given (e : Event) : Cmd → Prop
  | .addKey value pairwise keyIndex _ => e.key = some value ∧ e.pair = (pairwise, keyIndex)
  | .delKey pairwise keyIndex => e.key = none ∧ e.pair = (pairwise, keyIndex)
  | .setRoamOffload value => e.key = some value

/-- What an operation keeps to. -/
def Sound (p : Vif × Last) (e : Event) : Prop :=
  ∃ t, step p.1 e = .ok t ∧
    (∀ i, ¬ Own e.pair i → t.key i = p.1.key i ∧ t.keyLen i = p.1.keyLen i) ∧
    (∀ c, t.sent = some c → c.Given e) ∧ Recorded (t, note p.2 p.1 e t)

/-- `kzalloc` -/
def init : Vif × Last :=
  (⟨.none, .none, fun _ => 0, fun _ _ => 0, fun _ => 0, none⟩, fun _ => none)

theorem KeyId.slot_lt (id : KeyId) : 4 * id.pairwise.toNat + id.index < SLOTS := by
  rcases id.accepted with h | ⟨hgroup, h⟩
  · exact four_mul_add_lt id.pairwise (Nat.lt_succ_of_le h)
  · rw [hgroup]
    change 4 * 0 + id.index < 8
    omega

def KeyId.slot (id : KeyId) : Fin SLOTS := ⟨4 * id.pairwise.toNat + id.index, id.slot_lt⟩

/-- The pair of the key of a connect. -/
def WepConnect.id (c : WepConnect) : KeyId := ⟨false, c.keyIdx, .inl c.keyIdx_le⟩

/-- The key is in its slot already. -/
def Holds (s : Vif) (i : Fin SLOTS) (k : KeyData) : Prop :=
  s.keyLen i = k.bytes.length ∧ overlay k (s.key i) = s.key i

/-- The key makes its kind one with a key in the four slots. -/
def Counts (s : Vif) (id : KeyId) (k : KeyData) : Prop :=
  id.index ≤ 3 ∧ k.bytes ≠ [] ∨
    ∃ i : Fin SLOTS, (i : ℕ) / 4 = id.pairwise.toNat ∧ i ≠ id.slot ∧ s.keyLen i ≠ 0

instance (s : Vif) (id : KeyId) (k : KeyData) : Decidable (Counts s id k) :=
  inferInstanceAs (Decidable (_ ∨ _))

/-- A key with a group index above 3 is in the pairwise slot behind already. A key that its kind does
not count has the cipher recorded already, and so has a group key the pairwise cipher. A deletion
finds nothing recorded for a kind whose last key is another one, and where it finds no key, nothing
for a kind whose last key is that one. A WEP connect names one cipher. -/
def Fine (p : Vif × Last) : Event → Prop
  | .addKey id cipher k =>
    (id.index ≤ 3 ∨ Holds p.1 id.slot k) ∧
      (cipher ≠ .pmk →
        (Counts p.1 id k → id.pairwise = false → p.1.prwiseCrypto = parseCipher cipher) ∧
          (¬ Counts p.1 id k → p.1.crypto id.pairwise = parseCipher cipher))
  | .delKey id =>
    if id.index ≤ 3 ∧ p.1.keyLen id.slot ≠ 0 then
      ∀ kind, (∀ l ∈ p.2 kind, l.1 ≠ (id.pairwise, id.index)) → p.1.crypto kind = .none
    else ∀ kind, (∃ l ∈ p.2 kind, l.1 = (id.pairwise, id.index)) → p.1.crypto kind = .none
  | .connect c => c.started = true → parseCipher c.cipherGroup = parseCipher c.ciphersPairwise

variable {s : Vif} {id : KeyId} {k : KeyData} {p : Vif × Last}

theorem slot_eq (id : KeyId) : slot id.pairwise id.index = .ok id.slot := dif_pos id.slot_lt

theorem own_iff {i : Fin SLOTS} (h : id.index ≤ 3) :
    Own (id.pairwise, id.index) i ↔ i = id.slot := by
  simp [Own, h, KeyId.slot, Fin.ext_iff]

/-- The store with a new key. -/
def stored (s : Vif) (id : KeyId) (k : KeyData) : Vif :=
  { s with
    keyIndex := Function.update s.keyIndex id.pairwise id.index
    keyLen := Function.update s.keyLen id.slot k.bytes.length
    key := Function.update s.key id.slot (overlay k (s.key id.slot)) }

theorem storeKey_eq (s : Vif) (id : KeyId) (k : KeyData) :
    storeKey s id.pairwise id.index k = .ok (stored s id k) := by
  simp only [storeKey, slot_eq, ok_map, stored]

/-- The key is read back as it was given. -/
theorem value_stored (s : Vif) (id : KeyId) (k : KeyData) :
    value (stored s id k) id.slot = k.bytes := by
  have hle := k.length_le
  simp only [value, stored, Function.update_self]
  apply List.ext_getElem
  · rw [List.length_take, List.length_ofFn]
    omega
  · intro j hj hj'
    rw [List.getElem_take, List.getElem_ofFn]
    simp [overlay, hj']

theorem anyKey_stored : AnyKey (stored s id k) id.pairwise ↔ Counts s id k := by
  constructor
  · rintro ⟨i, hi⟩
    have hlt := i.isLt
    by_cases hown : (4 * id.pairwise.toNat + i : ℕ) = id.slot
    · have hindex : (i : ℕ) = id.index := by
        simp only [KeyId.slot] at hown
        omega
      refine .inl ⟨by omega, ?_⟩
      rintro hnil
      apply hi
      have hslot : (⟨4 * id.pairwise.toNat + i, four_mul_add_lt id.pairwise hlt⟩ : Fin SLOTS) =
          id.slot := Fin.ext hown
      simp only [stored, hslot, Function.update_self, hnil, List.length_nil]
    · have hne : ⟨4 * id.pairwise.toNat + i, four_mul_add_lt id.pairwise hlt⟩ ≠ id.slot :=
        fun h => hown (congrArg Fin.val h)
      refine .inr ⟨_, ?_, hne, ?_⟩
      · simp only
        omega
      · simpa only [stored, Function.update_of_ne hne] using hi
  · rintro (⟨hle, hne⟩ | ⟨i, hi, hne, hlen⟩)
    · refine ⟨⟨id.index, by omega⟩, ?_⟩
      simpa [stored, KeyId.slot] using hne
    · refine ⟨⟨i % 4, Nat.mod_lt _ (by omega)⟩, ?_⟩
      have hval : (⟨4 * id.pairwise.toNat + i % 4,
          four_mul_add_lt id.pairwise (Nat.mod_lt _ (by omega))⟩ : Fin SLOTS) = i := by
        ext
        simp only
        omega
      simp only [hval, stored, Function.update_of_ne hne]
      exact hlen

theorem crypto_setCipher (s : Vif) (pairwise : Bool) (c : Cipher) (kind : Bool) :
    (setCipher s pairwise c).crypto kind =
      if kind = true ∨ pairwise = false then c else s.crypto kind := by
  cases pairwise <;> cases kind <;> rfl

/-- After a key has been stored its command carries it, and the pairwise cipher is recorded with any
group key. -/
theorem addCipherKey_stored (s : Vif) (id : KeyId) (k : KeyData) (cipher : CipherSuite) :
    ∃ t, addCipherKey (stored s id k) id.pairwise id.index cipher = .ok t ∧
      t.key = (stored s id k).key ∧ t.keyLen = (stored s id k).keyLen ∧
      (∀ c, t.sent = some c →
        c = .addKey k.bytes id.pairwise id.index (parseCipher cipher)) ∧
      ∀ kind, t.crypto kind =
        if Counts s id k ∧ (kind = true ∨ id.pairwise = false) then parseCipher cipher
        else s.crypto kind := by
  by_cases hcount : Counts s id k
  · have hstep : addCipherKey (stored s id k) id.pairwise id.index cipher =
        .ok { setCipher (stored s id k) id.pairwise (parseCipher cipher) with
          sent := some (.addKey k.bytes id.pairwise id.index (parseCipher cipher)) } := by
      rw [addCipherKey, if_pos (anyKey_stored.mpr hcount), slot_eq, ok_map, value_stored]
    refine ⟨_, hstep, ?_, ?_, fun c hc => (Option.some.inj hc).symm, fun kind => ?_⟩
    · cases id.pairwise <;> rfl
    · cases id.pairwise <;> rfl
    · simp only [hcount, true_and]
      exact crypto_setCipher (stored s id k) id.pairwise (parseCipher cipher) kind
  · have hstep : addCipherKey (stored s id k) id.pairwise id.index cipher =
        .ok { stored s id k with sent := none } := by
      rw [addCipherKey, if_neg (hcount ∘ anyKey_stored.mp)]
    refine ⟨_, hstep, rfl, rfl, fun c hc => (by cases hc), fun kind => ?_⟩
    rw [if_neg fun h => hcount h.1]
    rfl

/-- A key stays in its own slot exactly if its index is one of the four, or it changes nothing. -/
theorem stored_confined_iff :
    (∀ i, ¬ Own (id.pairwise, id.index) i →
      (stored s id k).key i = s.key i ∧ (stored s id k).keyLen i = s.keyLen i) ↔
      id.index ≤ 3 ∨ Holds s id.slot k := by
  constructor
  · intro h
    by_cases hle : id.index ≤ 3
    · exact .inl hle
    · obtain ⟨hkey, hlen⟩ := h id.slot fun hown => hle hown.1
      simp only [stored, Function.update_self] at hkey hlen
      exact .inr ⟨hlen.symm, hkey⟩
  · intro h i hown
    by_cases hi : i = id.slot
    · subst hi
      rcases h with hle | ⟨hlen, hkey⟩
      · exact absurd ((own_iff hle).mpr rfl) hown
      · simp only [stored, Function.update_self]
        exact ⟨hkey, hlen.symm⟩
    · simp only [stored, Function.update_of_ne hi, and_self]

theorem addKey_sound_iff (hp : Recorded p) (cipher : CipherSuite) :
    Sound p (.addKey id cipher k) ↔ Fine p (.addKey id cipher k) := by
  by_cases hpmk : cipher = .pmk
  · have hstep : step p.1 (.addKey id cipher k) =
        .ok { stored p.1 id k with sent := some (.setRoamOffload k.bytes) } := by
      rw [step, addKey, storeKey_eq, ok_bind, if_pos hpmk]
    have hnote : note p.2 p.1 (.addKey id cipher k) = fun _ => p.2 := by
      funext t
      exact if_pos hpmk
    constructor
    · rintro ⟨t, ht, hconf, -, -⟩
      obtain rfl := Except.ok.inj (hstep.symm.trans ht)
      exact ⟨stored_confined_iff.mp hconf, fun h => absurd hpmk h⟩
    · rintro ⟨hconf, -⟩
      refine ⟨_, hstep, stored_confined_iff.mpr hconf, ?_, ?_⟩
      · rintro c hc
        obtain rfl := Option.some.inj hc
        rfl
      · rw [hnote]
        exact hp
  · obtain ⟨t, ht, hkey, hlen, hsent, hcrypto⟩ := addCipherKey_stored p.1 id k cipher
    have hstep : step p.1 (.addKey id cipher k) = .ok t := by
      rw [step, addKey, storeKey_eq, ok_bind, if_neg hpmk, ht]
    have hnote : note p.2 p.1 (.addKey id cipher k) t =
        Function.update p.2 id.pairwise (some ((id.pairwise, id.index), parseCipher cipher)) :=
      if_neg hpmk
    have hrec : Recorded (t, note p.2 p.1 (.addKey id cipher k) t) ↔
        (Counts p.1 id k → id.pairwise = false → p.1.prwiseCrypto = parseCipher cipher) ∧
          (¬ Counts p.1 id k → p.1.crypto id.pairwise = parseCipher cipher) := by
      have htrue := hp true
      have hfalse := hp false
      rw [hnote]
      by_cases hcount : Counts p.1 id k
      · cases hid : id.pairwise with
        | true => simp [Recorded, hcrypto, hcount, hid, hfalse]
        | false =>
          have hprwise : p.1.prwiseCrypto = cipherOf (p.2 true) := htrue
          simp [Recorded, hcrypto, hcount, hid, hprwise, eq_comm]
      · cases hid : id.pairwise with
        | true => simp [Recorded, hcrypto, hcount, hfalse]
        | false => simp [Recorded, hcrypto, hcount, htrue]
    constructor
    · rintro ⟨u, hu, hconf, -, hu'⟩
      obtain rfl := Except.ok.inj (hstep.symm.trans hu)
      refine ⟨stored_confined_iff.mp ?_, fun _ => hrec.mp hu'⟩
      rwa [← hkey, ← hlen]
    · rintro ⟨hconf, hcipher⟩
      refine ⟨t, hstep, ?_, ?_, hrec.mpr (hcipher hpmk)⟩
      · rw [hkey, hlen]
        exact stored_confined_iff.mpr hconf
      · rintro c hc
        rw [hsent c hc]
        exact ⟨rfl, rfl⟩

/-- A deletion leaves no cipher to a kind whose last key it is, and its cipher to another. -/
theorem cipherOf_deleted (l : Option ((Bool × ℕ) × Cipher)) (pair : Bool × ℕ) :
    cipherOf (l.filter fun x => x.1 ≠ pair) =
      if ∃ x ∈ l, x.1 = pair then .none else cipherOf l := by
  cases l with
  | none => simp
  | some x =>
    by_cases hx : x.1 = pair
    · simp [cipherOf, Option.filter, hx]
    · simp [Option.filter, hx]

theorem delKey_of_key (hle : id.index ≤ 3) (hlen : s.keyLen id.slot ≠ 0) :
    delKey s id.pairwise id.index =
      .ok { s with
        keyLen := Function.update s.keyLen id.slot 0
        prwiseCrypto := .none
        grpCrypto := .none
        sent := some (.delKey id.pairwise id.index) } := by
  rw [delKey, if_neg (Nat.not_lt.mpr hle), slot_eq, ok_map, if_neg hlen]

theorem delKey_of_no_key (h : ¬ (id.index ≤ 3 ∧ s.keyLen id.slot ≠ 0)) :
    delKey s id.pairwise id.index = .ok { s with sent := none } := by
  by_cases hle : id.index ≤ 3
  · have hlen : s.keyLen id.slot = 0 := by
      by_contra hlen
      exact h ⟨hle, hlen⟩
    rw [delKey, if_neg (Nat.not_lt.mpr hle), slot_eq, ok_map, if_pos hlen]
  · rw [delKey, if_pos (Nat.lt_of_not_le hle)]

theorem delKey_sound_iff (hp : Recorded p) : Sound p (.delKey id) ↔ Fine p (.delKey id) := by
  by_cases hacts : id.index ≤ 3 ∧ p.1.keyLen id.slot ≠ 0
  · have hstep := delKey_of_key hacts.1 hacts.2
    have hfine : Fine p (.delKey id) ↔
        ∀ kind, .none = cipherOf ((p.2 kind).filter fun l => l.1 ≠ (id.pairwise, id.index)) := by
      simp only [Fine, if_pos hacts, cipherOf_deleted]
      refine forall_congr' fun kind => ?_
      rw [hp kind]
      split
      · rename_i hex
        obtain ⟨x, hx, hpair⟩ := hex
        exact iff_of_true (fun h => absurd hpair (h x hx)) rfl
      · rename_i hex
        constructor
        · intro h
          exact (h fun l hl hpair => hex ⟨l, hl, hpair⟩).symm
        · intro h _
          exact h.symm
    rw [hfine]
    constructor
    · rintro ⟨t, ht, -, -, hrec⟩
      obtain rfl := Except.ok.inj (hstep.symm.trans ht)
      intro kind
      refine Eq.trans ?_ (hrec kind)
      cases kind <;> rfl
    · intro h
      refine ⟨_, hstep, fun i hi => ⟨rfl, ?_⟩, ?_, fun kind => ?_⟩
      · exact Function.update_of_ne (fun heq => hi ((own_iff hacts.1).mpr heq)) 0 p.1.keyLen
      · rintro c hc
        obtain rfl := Option.some.inj hc
        exact ⟨rfl, rfl⟩
      · rw [note, ← h kind]
        cases kind <;> rfl
  · have hstep := delKey_of_no_key hacts
    have hfine : Fine p (.delKey id) ↔ ∀ kind, p.1.crypto kind =
        cipherOf ((p.2 kind).filter fun l => l.1 ≠ (id.pairwise, id.index)) := by
      simp only [Fine, if_neg hacts, cipherOf_deleted]
      refine forall_congr' fun kind => ?_
      rw [hp kind]
      split
      · rename_i hex
        exact forall_prop_of_true hex
      · rename_i hex
        exact iff_of_true (fun h => absurd h hex) rfl
    rw [hfine]
    constructor
    · rintro ⟨t, ht, -, -, hrec⟩
      obtain rfl := Except.ok.inj (hstep.symm.trans ht)
      exact hrec
    · intro h
      exact ⟨_, hstep, fun i _ => ⟨rfl, rfl⟩, fun c hc => (by cases hc), h⟩

/-- The key of a connect is counted. -/
theorem WepConnect.counts (c : WepConnect) : Counts s c.id c.key := .inl ⟨c.keyIdx_le, c.key_ne_nil⟩

theorem connect_sound_iff (hp : Recorded p) (c : WepConnect) :
    Sound p (.connect c) ↔ Fine p (.connect c) := by
  cases hstarted : c.started with
  | false =>
    have hstep : step p.1 (.connect c) = .ok { p.1 with sent := none } := by
      rw [step, connect, hstarted]
      rfl
    have hnote (t : Vif) : note p.2 p.1 (.connect c) t = p.2 := by
      rw [note, hstarted]
      rfl
    refine iff_of_true ⟨_, hstep, fun i _ => ⟨rfl, rfl⟩, fun c hc => (by cases hc), ?_⟩ fun h => ?_
    · rw [hnote]
      exact hp
    · rw [hstarted] at h
      cases h
  | true =>
    obtain ⟨t, ht, hkey, hlen, hsent, hcrypto⟩ := addCipherKey_stored
      { p.1 with
        prwiseCrypto :=
          if c.nCiphersPairwise ≠ 0 then parseCipher c.ciphersPairwise else .none
        grpCrypto := parseCipher c.cipherGroup } c.id c.key c.ciphersPairwise
    have hstep : step p.1 (.connect c) = .ok t := by
      rw [step, connect, hstarted, if_pos rfl, ← ht]
      exact congrArg (Except.bind · _) (storeKey_eq _ c.id c.key)
    have hboth (kind : Bool) : t.crypto kind = parseCipher c.ciphersPairwise := by
      rw [hcrypto kind, if_pos ⟨c.counts, .inr rfl⟩]
    have hnote (kind : Bool) : note p.2 p.1 (.connect c) t kind =
        some ((false, c.keyIdx),
          parseCipher (if kind then c.ciphersPairwise else c.cipherGroup)) := by
      rw [note, hstarted]
      rfl
    have hrec : Recorded (t, note p.2 p.1 (.connect c) t) ↔
        parseCipher c.cipherGroup = parseCipher c.ciphersPairwise := by
      simp [Recorded, hboth, hnote, eq_comm]
    constructor
    · rintro ⟨u, hu, -, -, hu'⟩ _
      obtain rfl := Except.ok.inj (hstep.symm.trans hu)
      exact hrec.mp hu'
    · intro h
      refine ⟨t, hstep, ?_, ?_, hrec.mpr (h hstarted)⟩
      · rw [hkey, hlen]
        exact stored_confined_iff.mpr (.inl (show c.id.index ≤ 3 from c.keyIdx_le))
      · rintro x hx
        rw [hsent x hx]
        exact ⟨rfl, rfl⟩

theorem sound_iff_fine (hp : Recorded p) (e : Event) : Sound p e ↔ Fine p e := by
  cases e with
  | addKey id cipher k => exact addKey_sound_iff hp cipher
  | delKey id => exact delKey_sound_iff hp
  | connect c => exact connect_sound_iff hp c

theorem init_recorded : Recorded init := by
  intro kind
  cases kind <;> rfl

/-- In a run each operation keeps to its own key, sends the key it is given and leaves the ciphers
of the last keys recorded exactly if each of them meets its condition. -/
theorem key_store_iff (es : List Event) :
    (∀ h e rest p, es = h ++ e :: rest → run (observe step note) init h = .ok p → Sound p e) ↔
      Along (observe step note) Fine init es := by
  rw [← along_iff_forall]
  refine along_congr (I := Recorded) (fun p e hp => sound_iff_fine hp e) ?_ init_recorded
  intro p e q hp hfine hq
  obtain ⟨ht, hnote⟩ := observe_eq_ok.mp hq
  obtain ⟨t, ht', -, -, hrec⟩ := (sound_iff_fine hp e).mpr hfine
  obtain rfl := Except.ok.inj (ht'.symm.trans ht)
  rwa [← hnote] at hrec

/-- A pairwise key, and a group key for management frames. -/
def sampleKeys : List Event :=
  [.addKey ⟨true, 0, by decide⟩ .ccmp ⟨List.replicate 16 1, by decide⟩,
    .addKey ⟨false, 4, by decide⟩ .aesCmac ⟨List.replicate 16 2, by decide⟩]

/-- The second takes the place of the first. -/
theorem management_key_overwrites_pairwise_key :
    (∃ p, run (observe step note) init sampleKeys = .ok p ∧ value p.1 4 = List.replicate 16 2) ∧
    ¬ ∀ h e rest p, sampleKeys = h ++ e :: rest →
      run (observe step note) init h = .ok p → Sound p e := by
  refine ⟨⟨_, rfl, by decide⟩, fun hall => ?_⟩
  obtain ⟨t, ht, hconf, -⟩ := hall [_] _ [] _ rfl rfl
  obtain rfl := Except.ok.inj ht
  have hkey := congrFun (hconf 4 fun hown => absurd hown.1 (by decide)).1 0
  exact absurd hkey (by decide)

end Uwe5631.KeyStore
