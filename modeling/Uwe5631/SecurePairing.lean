import Uwe5631.KeyExchange
import Mathlib

/-!
# Pairing in the host

`bt_vendor_sprd_ssp.c` draws the keys when the controller has accepted the command before, and
answers a peer's public key with the shared one. It does not look whether a command could be sent.
-/
namespace Uwe5631.P256

/-- A vendor command. -/
structure Vsc where
  opcode : BitVec 16
  payload : List Byte

def hciSetSuperSspEnable : BitVec 16 := 0xFCB0
def hciSetOwnPp192Key : BitVec 16 := 0xFCB1
def hciSetOwnPp256Key : BitVec 16 := 0xFCB2
def hciSetP192Dhkey : BitVec 16 := 0xFCB3
def hciSetP256Dhkey : BitVec 16 := 0xFCB4

def hciPeerP192PublicNotificationEvt : Byte := 0xB0
def hciPeerP256PublicNotificationEvt : Byte := 0xB1
def hciSuperSspRefreshRequestEvt : Byte := 0xB2

/-- The keys of the shorter curve, which another file computes. -/
structure P192 where
  publicKey : List Byte → List Byte × List Byte
  dhkey : List Byte → List Byte × List Byte → List Byte

/-- What a step draws: the shorter private key, and the reads for the longer one with what is on the
stack before them. Last, whether its command gets a buffer and is taken by `xmit_cb`. -/
structure Draw where
  p192PrivateKey : List Byte
  reads : List (Option Key)
  stack : Key
  taken : Bool

/-- A private key for the longer curve is drawn, or a command is sent. -/
inductive Entry where
  | drawn (own : Key)
  | sent (c : Vsc)

structure Ssp where
  p192PrivateKey : List Byte
  p192PublicKey : List Byte × List Byte
  p256PrivateKey : Key
  p256PublicKey : Key × Key
  /-- What has happened, the last behind the rest. -/
  log : List Entry
  /-- How often the stack has been told that the configuration is done. -/
  configured : ℕ

def Key.zero : Key := ⟨List.replicate 32 0, rfl⟩

/-- `sprd_vnd_send_hci_vsc`, whose result is not used. -/
def Ssp.send (s : Ssp) (taken : Bool) (c : Vsc) : Ssp :=
  if taken then { s with log := s.log ++ [.sent c] } else s

/-- The variables before `sprd_vnd_ssp_init`. -/
def Ssp.start : Ssp where
  p192PrivateKey := List.replicate 24 0
  p192PublicKey := (List.replicate 24 0, List.replicate 24 0)
  p256PrivateKey := Key.zero
  p256PublicKey := (Key.zero, Key.zero)
  log := []
  configured := 0

def sprdVndSspInit (taken : Bool) : Ssp :=
  Ssp.start.send taken ⟨hciSetSuperSspEnable, [1, 1]⟩

/-- `sprd_vnd_set_own_pp192_key` -/
def setOwnPp192Key (ecc : P192) (d : Draw) (s : Ssp) : Ssp :=
  let key := ecc.publicKey d.p192PrivateKey
  { s with p192PrivateKey := d.p192PrivateKey, p192PublicKey := key }.send d.taken
    ⟨hciSetOwnPp192Key, key.1 ++ key.2 ++ d.p192PrivateKey⟩

/-- `sprd_vnd_set_own_pp256_key` -/
def setOwnPp256Key (d : Draw) (s : Ssp) : Option Ssp := do
  let own ← generatePrivateKey d.reads d.stack
  let key ← (generatePublicKey own).result
  return { s with
    p256PrivateKey := own
    p256PublicKey := key
    log := s.log ++ [Entry.drawn own] }.send d.taken
    ⟨hciSetOwnPp256Key, key.1.bytes ++ key.2.bytes ++ own.bytes⟩

/-- Bytes of an event; none are behind its end. -/
def field (p : List Byte) (offset n : ℕ) : List Byte :=
  (List.range n).map fun i => p.getD (offset + i) 0

@[simp] theorem length_field (p : List Byte) (offset n : ℕ) : (field p offset n).length = n := by
  rw [field, List.length_map, List.length_range]

def keyAt (p : List Byte) (offset : ℕ) : Key := ⟨field p offset 32, length_field p offset 32⟩

/-- `sprd_vnd_set_p192_dhkey` -/
def setP192Dhkey (ecc : P192) (taken : Bool) (address : List Byte) (peer : List Byte × List Byte)
    (s : Ssp) : Ssp :=
  s.send taken ⟨hciSetP192Dhkey, address ++ ecc.dhkey s.p192PrivateKey peer⟩

/-- `sprd_vnd_set_p256_dhkey` -/
def setP256Dhkey (taken : Bool) (address : List Byte) (peer : Key × Key) (s : Ssp) :
    Option Ssp := do
  let key ← (generateDhkey s.p256PrivateKey peer).result
  return s.send taken ⟨hciSetP256Dhkey, address ++ key.bytes⟩

inductive SspEvent where
  | commandComplete (opcode : BitVec 16) (result : Byte)
  | vendorEvent (p : List Byte)

/-- `sprd_vnd_hci_ssp_cback` and `sprd_vse_cback` -/
def sspStep (ecc : P192) (d : Draw) (s : Ssp) : SspEvent → Option Ssp
  | .commandComplete opcode result =>
    if result ≠ 0 then some s
    else if opcode = hciSetSuperSspEnable then some (setOwnPp192Key ecc d s)
    else if opcode = hciSetOwnPp192Key then setOwnPp256Key d s
    else if opcode = hciSetOwnPp256Key then some { s with configured := s.configured + 1 }
    else some s
  | .vendorEvent p =>
    if p.getD 0 0 = hciPeerP192PublicNotificationEvt then
      some (setP192Dhkey ecc d.taken (field p 1 6) (field p 7 24, field p 31 24) s)
    else if p.getD 0 0 = hciPeerP256PublicNotificationEvt then
      setP256Dhkey d.taken (field p 1 6) (keyAt p 7, keyAt p 39) s
    else if p.getD 0 0 = hciSuperSspRefreshRequestEvt then some (setOwnPp192Key ecc d s)
    else some s

/-- A run, as long as its loops end. -/
def sspRun (ecc : P192) : List (Draw × SspEvent) → Ssp → Option Ssp
  | [], s => some s
  | (d, e) :: es, s => (sspStep ecc d s e).bind (sspRun ecc es)

def Entry.vsc : Entry → Option Vsc
  | .drawn _ => none
  | .sent c => some c

def Entry.key : Entry → Option Key
  | .drawn own => some own
  | .sent _ => none

/-- The private key that the controller has been told last. -/
def announced (log : List Entry) : Key :=
  match ((log.filterMap Entry.vsc).filter fun c => c.opcode = hciSetOwnPp256Key).getLast? with
  | some c => keyAt c.payload 64
  | none => Key.zero

def drawnLast (log : List Entry) : Key := (log.filterMap Entry.key).getLast?.getD Key.zero

/-- The key that was drawn last has not been announced since. -/
def Unannounced (log : List Entry) : Prop :=
  ∃ pre own post, log = pre ++ .drawn own :: post ∧
    ∀ c, .sent c ∈ post → c.opcode ≠ hciSetOwnPp256Key

/-- What the log says of the keys: an announcement has the key that was drawn last and its public
key, and an answer the key that the one drawn last shares with a peer. It is the key announced last
unless its announcement was not sent. -/
structure Consistent (log : List Entry) : Prop where
  announcements : ∀ pre c post, log = pre ++ .sent c :: post → c.opcode = hciSetOwnPp256Key →
    ∃ key : Key × Key, c.payload = key.1.bytes ++ key.2.bytes ++ (drawnLast pre).bytes ∧
      (generatePublicKey (drawnLast pre)).result = some key
  answers : ∀ pre c post, log = pre ++ .sent c :: post → c.opcode = hciSetP256Dhkey →
    (∃ address peer key, c.payload = address ++ key.bytes ∧ address.length = 6 ∧
      (generateDhkey (drawnLast pre) peer).result = some key) ∧
    (announced pre = drawnLast pre ∨ Unannounced pre)

/-! ## Runs -/

theorem opcodes_ne : hciSetOwnPp192Key ≠ hciSetOwnPp256Key ∧ hciSetOwnPp192Key ≠ hciSetP256Dhkey ∧
    hciSetOwnPp256Key ≠ hciSetP256Dhkey ∧ hciSetP256Dhkey ≠ hciSetOwnPp256Key ∧
    hciSetP192Dhkey ≠ hciSetOwnPp256Key ∧ hciSetP192Dhkey ≠ hciSetP256Dhkey ∧
    hciSetSuperSspEnable ≠ hciSetOwnPp256Key ∧ hciSetSuperSspEnable ≠ hciSetP256Dhkey := by
  decide

theorem announced_sent (log : List Entry) (c : Vsc) : announced (log ++ [.sent c]) =
    if c.opcode = hciSetOwnPp256Key then keyAt c.payload 64 else announced log := by
  rw [announced, List.filterMap_append, List.filter_append]
  by_cases h : c.opcode = hciSetOwnPp256Key
  · simp [h, Entry.vsc]
  · simp [h, announced, Entry.vsc]

theorem drawnLast_drawn (log : List Entry) (own : Key) : drawnLast (log ++ [.drawn own]) = own := by
  simp [drawnLast, Entry.key]

theorem drawnLast_sent (log : List Entry) (c : Vsc) :
    drawnLast (log ++ [.sent c]) = drawnLast log := by
  simp [drawnLast, Entry.key]

theorem keyAt_append {xs : List Byte} (hxs : xs.length = 64) (k : Key) :
    keyAt (xs ++ k.bytes) 64 = k := by
  obtain ⟨bytes, hbytes⟩ := k
  have hfield : field (xs ++ bytes) 64 32 = bytes := by
    refine List.ext_getElem ((length_field _ _ _).trans hbytes.symm) fun i hi hi' => ?_
    simp only [field, List.getElem_map, List.getElem_range]
    rw [List.getD_append_right _ _ _ _ (by omega), hxs, Nat.add_sub_cancel_left,
      List.getD_eq_getElem _ 0 hi']
  simp only [keyAt, hfield]

variable {log : List Entry} {c : Vsc}

theorem Unannounced.sent (h : Unannounced log) (hc : c.opcode ≠ hciSetOwnPp256Key) :
    Unannounced (log ++ [.sent c]) := by
  obtain ⟨pre, own, post, rfl, hnone⟩ := h
  refine ⟨pre, own, post ++ [.sent c], by simp, fun d hd => ?_⟩
  rcases List.mem_append.mp hd with hd | hd
  · exact hnone d hd
  · obtain rfl := Entry.sent.inj (List.mem_singleton.mp hd)
    exact hc

/-- An entry of a longer log is one of the log, or the last. -/
theorem split_concat {pre post : List Entry} {x y : Entry} (h : log ++ [y] = pre ++ x :: post) :
    (∃ rest, log = pre ++ x :: rest) ∨ pre = log ∧ x = y := by
  rcases List.eq_nil_or_concat post with rfl | ⟨rest, z, rfl⟩
  · obtain ⟨rfl, hlast⟩ := List.append_inj' h rfl
    exact .inr ⟨rfl, (List.head_eq_of_cons_eq hlast).symm⟩
  · rw [List.concat_eq_append, ← List.cons_append, ← List.append_assoc] at h
    exact .inl ⟨rest, (List.append_inj' h rfl).1⟩

theorem Consistent.drawn (h : Consistent log) (own : Key) : Consistent (log ++ [.drawn own]) := by
  refine ⟨fun pre c post heq hc => ?_, fun pre c post heq hc => ?_⟩
  · rcases split_concat heq with ⟨rest, heq⟩ | ⟨-, hlast⟩
    · exact h.announcements pre c rest heq hc
    · cases hlast
  · rcases split_concat heq with ⟨rest, heq⟩ | ⟨-, hlast⟩
    · exact h.answers pre c rest heq hc
    · cases hlast

theorem Consistent.sent (h : Consistent log)
    (hannounce : c.opcode = hciSetOwnPp256Key → ∃ key : Key × Key,
      c.payload = key.1.bytes ++ key.2.bytes ++ (drawnLast log).bytes ∧
        (generatePublicKey (drawnLast log)).result = some key)
    (hanswer : c.opcode = hciSetP256Dhkey →
      (∃ address peer key, c.payload = address ++ key.bytes ∧ address.length = 6 ∧
        (generateDhkey (drawnLast log) peer).result = some key) ∧
      (announced log = drawnLast log ∨ Unannounced log)) :
    Consistent (log ++ [.sent c]) := by
  refine ⟨fun pre d post heq hd => ?_, fun pre d post heq hd => ?_⟩
  · rcases split_concat heq with ⟨rest, heq⟩ | ⟨rfl, hlast⟩
    · exact h.announcements pre d rest heq hd
    · obtain rfl := Entry.sent.inj hlast
      exact hannounce hd
  · rcases split_concat heq with ⟨rest, heq⟩ | ⟨rfl, hlast⟩
    · exact h.answers pre d rest heq hd
    · obtain rfl := Entry.sent.inj hlast
      exact hanswer hd

/-- What every step keeps. -/
structure Ssp.Inv (s : Ssp) : Prop where
  current : drawnLast s.log = s.p256PrivateKey
  told : announced s.log = drawnLast s.log ∨ Unannounced s.log
  consistent : Consistent s.log

variable {ecc : P192} {d : Draw} {s t : Ssp} {taken : Bool}

/-- A command that is not an announcement. -/
theorem Ssp.Inv.send (h : s.Inv) (hannounce : c.opcode ≠ hciSetOwnPp256Key)
    (hanswer : c.opcode = hciSetP256Dhkey → ∃ address peer key, c.payload = address ++ key.bytes ∧
      address.length = 6 ∧ (generateDhkey (drawnLast s.log) peer).result = some key) :
    (s.send taken c).Inv := by
  rw [Ssp.send]
  split
  · refine ⟨(drawnLast_sent s.log c).trans h.current, ?_, h.consistent.sent
      (fun hc => absurd hc hannounce) fun hc => ⟨hanswer hc, h.told⟩⟩
    dsimp only
    rw [announced_sent, if_neg hannounce, drawnLast_sent]
    exact h.told.imp_right fun hnone => hnone.sent hannounce
  · exact h

theorem Ssp.Inv.setOwnPp192Key (h : s.Inv) : (setOwnPp192Key ecc d s).Inv := by
  let key := ecc.publicKey d.p192PrivateKey
  have hkeys : Ssp.Inv { s with p192PrivateKey := d.p192PrivateKey, p192PublicKey := key } :=
    ⟨h.current, h.told, h.consistent⟩
  exact hkeys.send opcodes_ne.1 fun hc => absurd hc opcodes_ne.2.1

theorem Ssp.Inv.setOwnPp256Key (h : s.Inv) (ht : setOwnPp256Key d s = some t) : t.Inv := by
  simp only [P256.setOwnPp256Key, Option.bind_eq_bind, Option.bind_eq_some_iff] at ht
  obtain ⟨own, -, key, hkey, hsome⟩ := ht
  obtain rfl := Option.some.inj hsome
  rw [Ssp.send]
  split
  · refine ⟨(drawnLast_sent _ _).trans (drawnLast_drawn s.log own), .inl ?_,
      (h.consistent.drawn own).sent (fun _ => ⟨key, ?_, ?_⟩) fun hc =>
        absurd hc opcodes_ne.2.2.1⟩
    · dsimp only
      rw [announced_sent, if_pos rfl, drawnLast_sent, drawnLast_drawn]
      exact keyAt_append (by rw [List.length_append, key.1.length_bytes, key.2.length_bytes]) own
    · rw [drawnLast_drawn]
    · rw [drawnLast_drawn]
      exact hkey
  · -- the key is drawn, but the command that announces it is not sent
    exact ⟨drawnLast_drawn s.log own, .inr ⟨s.log, own, [], rfl, by simp⟩, h.consistent.drawn own⟩

theorem Ssp.Inv.setP256Dhkey {address : List Byte} {peer : Key × Key} (h : s.Inv)
    (haddress : address.length = 6) (ht : setP256Dhkey taken address peer s = some t) : t.Inv := by
  simp only [P256.setP256Dhkey, Option.bind_eq_bind, Option.bind_eq_some_iff] at ht
  obtain ⟨key, hkey, hsome⟩ := ht
  obtain rfl := Option.some.inj hsome
  exact h.send opcodes_ne.2.2.2.1 fun _ =>
    ⟨address, peer, key, rfl, haddress, by rw [h.current]; exact hkey⟩

theorem Ssp.Inv.step {e : SspEvent} (h : s.Inv) (ht : sspStep ecc d s e = some t) : t.Inv := by
  cases e with
  | commandComplete opcode result =>
    rw [sspStep] at ht
    split at ht
    · exact Option.some.inj ht ▸ h
    · split at ht
      · exact Option.some.inj ht ▸ h.setOwnPp192Key
      · split at ht
        · exact h.setOwnPp256Key ht
        · split at ht
          · exact Option.some.inj ht ▸ ⟨h.current, h.told, h.consistent⟩
          · exact Option.some.inj ht ▸ h
  | vendorEvent p =>
    rw [sspStep] at ht
    split at ht
    · exact Option.some.inj ht ▸ h.send opcodes_ne.2.2.2.2.1 fun hc =>
        absurd hc opcodes_ne.2.2.2.2.2.1
    · split at ht
      · exact h.setP256Dhkey (length_field _ _ _) ht
      · split at ht
        · exact Option.some.inj ht ▸ h.setOwnPp192Key
        · exact Option.some.inj ht ▸ h

theorem Ssp.Inv.run {es : List (Draw × SspEvent)} (h : s.Inv) (ht : sspRun ecc es s = some t) :
    t.Inv := by
  induction es generalizing s with
  | nil => exact Option.some.inj ht ▸ h
  | cons e es ih =>
    rw [sspRun, Option.bind_eq_some_iff] at ht
    obtain ⟨r, hr, ht⟩ := ht
    exact ih (h.step hr) ht

theorem inv_init (taken : Bool) : (sprdVndSspInit taken).Inv := by
  have hstart : Ssp.start.Inv := ⟨rfl, .inl rfl, by simp [Ssp.start], by simp [Ssp.start]⟩
  exact hstart.send opcodes_ne.2.2.2.2.2.2.1 fun hc => absurd hc opcodes_ne.2.2.2.2.2.2.2

/-- Whatever the controller completes and notifies, in whatever order, and whatever commands can be
sent, the log is consistent: every answer is made with the private key drawn last, which is the one
announced last unless its announcement was not sent. -/
theorem sspRun_consistent {es : List (Draw × SspEvent)}
    (h : sspRun ecc es (sprdVndSspInit taken) = some t) :
    Consistent t.log ∧ drawnLast t.log = t.p256PrivateKey ∧
      (announced t.log = t.p256PrivateKey ∨ Unannounced t.log) := by
  have hinv := (inv_init taken).run h
  refine ⟨hinv.consistent, hinv.current, ?_⟩
  rw [← hinv.current]
  exact hinv.told

def ecc192 : P192 := ⟨fun own => (own, own), fun own _ => own⟩

def drawOne (taken : Bool) : Draw := ⟨List.replicate 24 7, [some keyOne], Key.zero, taken⟩

def peerEvent : List Byte :=
  hciPeerP256PublicNotificationEvt :: (List.replicate 6 5 ++ keyOne.bytes ++ keyOne.bytes)

/-- The event's two fields, the key drawn, and that both loops end on it. -/
theorem pairing_keyOne :
    (keyAt peerEvent 7 = keyOne ∧ keyAt peerEvent 39 = keyOne) ∧
    generatePrivateKey [some keyOne] Key.zero = some keyOne ∧
    (generatePublicKey keyOne).result.isSome = true ∧
    (generateDhkey keyOne (keyOne, keyOne)).result.isSome = true := by
  rewrite [generatePublicKey_keyOne, generateDhkey_keyOne]
  decide +kernel

theorem notEnable_notP192 : hciSetOwnPp192Key ≠ hciSetSuperSspEnable ∧
    peerEvent.getD 0 0 ≠ hciPeerP192PublicNotificationEvt := by
  decide

theorem setOwnPp256Key_isSome (taken : Bool) (s : Ssp) :
    ∃ c t, setOwnPp256Key (drawOne taken) s = some t ∧ c.opcode = hciSetOwnPp256Key ∧
      t.p256PrivateKey = keyOne ∧
      t.log = s.log ++ .drawn keyOne :: if taken then [.sent c] else [] := by
  obtain ⟨key, hkey⟩ := Option.isSome_iff_exists.mp pairing_keyOne.2.2.1
  refine ⟨⟨hciSetOwnPp256Key, key.1.bytes ++ key.2.bytes ++ keyOne.bytes⟩, ?_⟩
  rw [setOwnPp256Key, drawOne, pairing_keyOne.2.1, Option.bind_eq_bind, Option.bind_some, hkey]
  cases taken with
  | false => exact ⟨_, rfl, rfl, rfl, rfl⟩
  | true => exact ⟨_, rfl, rfl, rfl, List.append_assoc ..⟩

theorem setP256Dhkey_isSome {s : Ssp} (h : s.p256PrivateKey = keyOne) (address : List Byte) :
    ∃ c t, setP256Dhkey true address (keyOne, keyOne) s = some t ∧ c.opcode = hciSetP256Dhkey ∧
      t.log = s.log ++ [.sent c] := by
  obtain ⟨key, hkey⟩ := Option.isSome_iff_exists.mp pairing_keyOne.2.2.2
  refine ⟨⟨hciSetP256Dhkey, address ++ key.bytes⟩, ?_⟩
  rw [setP256Dhkey, h, hkey]
  exact ⟨_, rfl, rfl, rfl⟩

theorem step_enabled (s : Ssp) :
    sspStep ecc192 (drawOne true) s (.commandComplete hciSetSuperSspEnable 0) =
      some (setOwnPp192Key ecc192 (drawOne true) s) := by
  rewrite [sspStep, if_neg (not_not.mpr rfl), if_pos rfl]
  rfl

theorem step_announced (taken : Bool) (s : Ssp) :
    sspStep ecc192 (drawOne taken) s (.commandComplete hciSetOwnPp192Key 0) =
      setOwnPp256Key (drawOne taken) s := by
  rewrite [sspStep, if_neg (not_not.mpr rfl), if_neg notEnable_notP192.1, if_pos rfl]
  rfl

theorem step_peer (s : Ssp) : sspStep ecc192 (drawOne true) s (.vendorEvent peerEvent) =
    setP256Dhkey true (field peerEvent 1 6) (keyOne, keyOne) s := by
  have hevent : peerEvent.getD 0 0 = hciPeerP256PublicNotificationEvt := rfl
  rewrite [sspStep, if_neg notEnable_notP192.2, if_pos hevent, pairing_keyOne.1.1,
    pairing_keyOne.1.2]
  rfl

/-- The keys are drawn, and a peer is answered. -/
def pairing (taken : Bool) : List (Draw × SspEvent) :=
  [(drawOne true, .commandComplete hciSetSuperSspEnable 0),
    (drawOne taken, .commandComplete hciSetOwnPp192Key 0), (drawOne true, .vendorEvent peerEvent)]

theorem pairing_runs (taken : Bool) : ∃ t announce answer,
    sspRun ecc192 (pairing taken) (sprdVndSspInit true) = some t ∧
    announce.opcode = hciSetOwnPp256Key ∧ answer.opcode = hciSetP256Dhkey ∧
    t.log = ((setOwnPp192Key ecc192 (drawOne true) (sprdVndSspInit true)).log ++
      .drawn keyOne :: if taken then [.sent announce] else []) ++ [.sent answer] := by
  obtain ⟨announce, s, hs, hannounce, hown, hdrawn⟩ := setOwnPp256Key_isSome taken
    (setOwnPp192Key ecc192 (drawOne true) (sprdVndSspInit true))
  obtain ⟨answer, t, ht, hanswer, hsent⟩ := setP256Dhkey_isSome hown (field peerEvent 1 6)
  refine ⟨t, announce, answer, ?_, hannounce, hanswer, by rw [hsent, hdrawn]⟩
  rewrite [pairing, sspRun, step_enabled, Option.bind_some, sspRun, step_announced, hs,
    Option.bind_some, sspRun, step_peer, ht, Option.bind_some]
  exact sspRun.eq_1 _ _

/-- The keys are announced, and a peer is answered. Then the announcement is not sent, and the peer
is answered with a key that the controller was never told. -/
theorem sspRun_consistent_answer :
    (∃ t, sspRun ecc192 (pairing true) (sprdVndSspInit true) = some t ∧ Consistent t.log) ∧
    ∃ t, sspRun ecc192 (pairing false) (sprdVndSspInit true) = some t ∧ Consistent t.log ∧
      Unannounced t.log ∧ ∃ c, .sent c ∈ t.log ∧ c.opcode = hciSetP256Dhkey := by
  obtain ⟨t, -, -, ht, -⟩ := pairing_runs true
  obtain ⟨u, announce, answer, hu, -, hanswer, hlog⟩ := pairing_runs false
  refine ⟨⟨t, ht, (sspRun_consistent ht).1⟩, u, hu, (sspRun_consistent hu).1, ?_, answer, ?_,
    hanswer⟩
  · refine ⟨_, keyOne, [.sent answer], hlog.trans (List.append_assoc ..), fun c hc => ?_⟩
    obtain rfl := Entry.sent.inj (List.mem_singleton.mp hc)
    rw [hanswer]
    exact opcodes_ne.2.2.2.1
  · rw [hlog]
    simp

end Uwe5631.P256
