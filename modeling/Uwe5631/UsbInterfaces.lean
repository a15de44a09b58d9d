import Uwe5631.FallibleRuns
import Mathlib

/-!
# Users of the USB interfaces

An endpoint refers to the interface it belongs to, and its users count themselves in the interface
they find there. `intf_set_unavailable` locks users out before an interface is reset, given another
alternate setting or freed.
-/
namespace Uwe5631.UsbIntf
open FallibleRuns

/-- The endpoints of the store, by channel, and the USB interface that has the address of each. -/
structure Config where
  chans : ℕ
  owner : ℕ → ℕ

/-- Who has called `intf_set_unavailable`. -/
inductive Caller where
  | disconnect
  | preReset
  | epSet (alt : List ℕ)
  deriving DecidableEq, Repr

/-- Where the holder of `flag_lock` is. -/
inductive Phase where
  /-- before or in `wait_event_timeout` -/
  | wait
  /-- between `wcn_usb_io_pre_reset` and `wcn_usb_io_post_reset` -/
  | held
  /-- in `wcn_usb_intf_erase_store` -/
  | erase (c : ℕ)
  /-- before `usb_set_interface` -/
  | set
  /-- in `wcn_usb_intf_fill_store` -/
  | fill (c : ℕ)
  /-- before `intf_set_available` clears the flag -/
  | available
  /-- before it unlocks `flag_lock` -/
  | unlock
  /-- the caller has returned with the lock held -/
  | abandoned
  deriving DecidableEq, Repr

/-- What is done under `flag_lock`. -/
structure Section where
  caller : Caller
  phase : Phase
  /-- whether `intf_set_unavailable` has returned 0 and the flag is still set -/
  exclusive : Bool
  deriving DecidableEq, Repr

/-- A `wcn_usb_intf`. -/
structure Intf where
  /-- the USB interface -/
  usb : ℕ
  /-- the channels of the endpoints of its alternate setting -/
  alt : List ℕ
  /-- a `char` -/
  numUsers : BitVec 8
  changeFlag : Bool
  flagLock : Option Section
  /-- `lock` is held by a caller that waits for `flag_lock` -/
  spinning : Bool
  /-- not allocated, or not any more -/
  freed : Bool
  deriving DecidableEq, Repr

/-- What the USB core does with a USB interface; it does one thing at a time. -/
inductive Core where
  | idle
  /-- `wcn_usb_io_probe` fills the store -/
  | probing (i c : ℕ)
  /-- before the critical section of `intf_set_unavailable` -/
  | entering (i : ℕ) (caller : Caller)
  /-- waiting for `flag_lock` -/
  | spinning (i : ℕ) (caller : Caller)
  /-- under `flag_lock` -/
  | inside (i : ℕ)
  deriving DecidableEq, Repr

/-- A user of an endpoint, with the interface it has held. -/
structure User where
  chan : ℕ
  intf : ℕ
  deriving DecidableEq, Repr

structure State where
  intfs : ℕ → Intf
  /-- the number of interfaces allocated so far -/
  count : ℕ
  /-- `ep->intf` -/
  ep : ℕ → Option ℕ
  /-- the URBs anchored to each endpoint -/
  urbs : ℕ → ℕ
  /-- `usb_get_intfdata` -/
  bound : ℕ → Option ℕ
  core : ℕ → Core
  users : List User
  /-- the calls of `wcn_usb_ep_set` before `intf_set_unavailable`, with interface and setting -/
  settings : List (ℕ × List ℕ)
  /-- the endpoints erased from the store, with the URBs left to them -/
  erased : List (ℕ × ℕ)

def Intf.unallocated : Intf where
  usb := 0
  alt := []
  numUsers := 0
  changeFlag := false
  flagLock := none
  spinning := false
  freed := true

def init : State where
  intfs _ := .unallocated
  count := 0
  ep _ := none
  urbs _ := 0
  bound _ := none
  core _ := .idle
  users := []
  settings := []
  erased := []

inductive Fault where
  | nullPointer
  | useAfterFree
  deriving DecidableEq, Repr

inductive Event where
  | hold (c : ℕ)
  | release (k : ℕ)
  | submit (k : ℕ)
  | complete (c : ℕ)
  | probe (u : ℕ) (alt : List ℕ)
  | disconnect (u : ℕ)
  | preReset (u : ℕ)
  | postReset (u : ℕ)
  | coreNext (u : ℕ)
  | epSet (k : ℕ) (alt : List ℕ)
  | epSetNext (k : ℕ)
  /-- the holder of `flag_lock` goes on; its wait has timed out, or `usb_set_interface` has failed -/
  | lockNext (i : ℕ) (fails : Bool)
  deriving DecidableEq, Repr

/-- A change of one interface. -/
def State.modify (s : State) (i : ℕ) (f : Intf → Intf) : State :=
  { s with intfs := Function.update s.intfs i (f (s.intfs i)) }

/-! ## The users -/

/-- `ep_hold_intf`, with `intf_hold` -/
def epHoldIntf (s : State) (c : ℕ) : Except Fault State :=
  match s.ep c with
  | none => .ok s
  | some i =>
    if (s.intfs i).freed then .error .useAfterFree
    else if (s.intfs i).spinning ∨ (s.intfs i).changeFlag then .ok s
    else .ok { s.modify i fun intf => { intf with numUsers := intf.numUsers + 1 } with
      users := s.users ++ [⟨c, i⟩] }

/-- `ep_release_intf`, with `intf_release`, and what its caller does next -/
def epReleaseIntf (s : State) (k : ℕ) (after : ℕ → State → State) : Except Fault State :=
  match s.users[k]? with
  | none => .ok s
  | some user =>
    match s.ep user.chan with
    | none => .error .nullPointer
    | some i =>
      if (s.intfs i).freed then .error .useAfterFree
      else if (s.intfs i).spinning then .ok s
      else .ok (after i { s.modify i fun intf => { intf with numUsers := intf.numUsers - 1 } with
        users := s.users.eraseIdx k })

/-- A user anchors a URB. -/
def submit (s : State) (k : ℕ) : State :=
  match s.users[k]? with
  | none => s
  | some user => { s with urbs := Function.update s.urbs user.chan (s.urbs user.chan + 1) }

/-- The rest of `wcn_usb_ep_set` up to the wait of `intf_set_unavailable` -/
def epSetNext (s : State) (k : ℕ) : Except Fault State :=
  match s.settings[k]? with
  | none => .ok s
  | some (i, alt) =>
    if (s.intfs i).freed then .error .useAfterFree
    else if (s.intfs i).spinning then .ok s
    else if (s.intfs i).flagLock.isSome then .ok { s with settings := s.settings.eraseIdx k }
    else .ok { s.modify i fun intf => { intf with
        changeFlag := true, flagLock := some ⟨.epSet alt, .wait, false⟩ } with
      settings := s.settings.eraseIdx k }

/-! ## The store -/

/-- Whether an endpoint is one of the interface. -/
def isEndpoint (cfg : Config) (intf : Intf) (c : ℕ) : Bool := cfg.owner c = intf.usb ∧ c ∈ intf.alt

/-- `__intf_fill_store_callback` -/
def fillOne (cfg : Config) (s : State) (i c : ℕ) : State :=
  if isEndpoint cfg (s.intfs i) c then { s with ep := Function.update s.ep c (some i) } else s

/-- `wcn_usb_ep_stop`: `ep_hold_intf` has to find the interface. -/
def epStop (s : State) (c : ℕ) : State :=
  match s.ep c with
  | none => s
  | some i =>
    if (s.intfs i).changeFlag then s else { s with urbs := Function.update s.urbs c 0 }

/-- The endpoint is erased and its URBs are to be stopped. -/
def eraseStop (s : State) (c : ℕ) : State :=
  let s' := epStop { s with ep := Function.update s.ep c none } c
  { s' with erased := s'.erased ++ [(c, s'.urbs c)] }

/-- `__intf_erase_store_callback` -/
def eraseOne (cfg : Config) (s : State) (i c : ℕ) : State :=
  if isEndpoint cfg (s.intfs i) c then eraseStop s c else s

/-! ## Probe, disconnect, reset and alternate settings -/

def probe (s : State) (u : ℕ) (alt : List ℕ) : State :=
  if s.bound u = none ∧ s.core u = .idle then
    { s with
      intfs := Function.update s.intfs s.count { Intf.unallocated with
        usb := u, alt := alt, freed := false }
      count := s.count + 1
      bound := Function.update s.bound u (some s.count)
      core := Function.update s.core u (.probing s.count 0) }
  else s

def coreCall (s : State) (u : ℕ) (caller : Caller) : State :=
  if s.core u = .idle then
    match s.bound u with
    | none => s
    | some i => { s with core := Function.update s.core u (.entering i caller) }
  else s

/-- The holder of `flag_lock` goes on. -/
def setSection (s : State) (i : ℕ) (sec : Section) : State :=
  s.modify i fun intf => { intf with flagLock := some sec }

def postReset (s : State) (u : ℕ) : State :=
  match s.core u with
  | .inside i =>
    match (s.intfs i).flagLock with
    | some ⟨.preReset, .held, exclusive⟩ =>
      setSection s i ⟨.preReset, .available, exclusive⟩
    | _ => s
  | _ => s

/-- The flag is set under both locks. -/
def setFlag (s : State) (u i : ℕ) (caller : Caller) : State :=
  { s.modify i fun intf => { intf with
      changeFlag := true, flagLock := some ⟨caller, .wait, false⟩, spinning := false } with
    core := Function.update s.core u (.inside i) }

def coreNext (cfg : Config) (s : State) (u : ℕ) : Except Fault State :=
  match s.core u with
  | .idle => .ok s
  | .inside _ => .ok s
  | .probing i c =>
    if c < cfg.chans then
      .ok { fillOne cfg s i c with core := Function.update s.core u (.probing i (c + 1)) }
    else .ok { s with core := Function.update s.core u .idle }
  | .entering i caller =>
    if (s.intfs i).freed then .error .useAfterFree
    else if (s.intfs i).spinning then .ok s
    else if (s.intfs i).flagLock.isSome then
      .ok { s.modify i fun intf => { intf with spinning := true } with
        core := Function.update s.core u (.spinning i caller) }
    else .ok (setFlag s u i caller)
  | .spinning i caller =>
    if (s.intfs i).flagLock.isSome then .ok s else .ok (setFlag s u i caller)

/-- What follows `intf_set_unavailable`, whose result only `wcn_usb_ep_set` looks at. -/
def afterWait (s : State) (i : ℕ) (caller : Caller) (exclusive : Bool) : State :=
  match caller with
  | .disconnect => { setSection s i ⟨.disconnect, .erase 0, exclusive⟩ with
      bound := Function.update s.bound (s.intfs i).usb none }
  | .preReset => setSection s i ⟨.preReset, .held, exclusive⟩
  | .epSet alt =>
    if exclusive then setSection s i ⟨.epSet alt, .erase 0, true⟩
    else setSection s i ⟨.epSet alt, .abandoned, false⟩

/-- What follows `wcn_usb_intf_erase_store` -/
def afterErase (s : State) (i : ℕ) (caller : Caller) (exclusive : Bool) : State :=
  match caller with
  | .disconnect =>
    { s.modify i fun intf => { intf with flagLock := none, freed := true } with
      core := Function.update s.core (s.intfs i).usb .idle }
  | caller => setSection s i ⟨caller, .set, exclusive⟩

/-- `usb_set_interface` -/
def usbSetInterface (s : State) (i : ℕ) (caller : Caller) (fails : Bool) : State :=
  match caller with
  | .epSet alt => if fails then s else s.modify i fun intf => { intf with alt := alt }
  | _ => s

/-- What follows `intf_set_available` -/
def afterUnlock (s : State) (i : ℕ) (caller : Caller) : State :=
  match caller with
  | .preReset => { s with core := Function.update s.core (s.intfs i).usb .idle }
  | _ => s

def lockNext (cfg : Config) (s : State) (i : ℕ) (fails : Bool) : State :=
  match (s.intfs i).flagLock with
  | none => s
  | some ⟨caller, .wait, _⟩ =>
    if (s.intfs i).numUsers = 0 then afterWait s i caller true
    else if fails then afterWait s i caller false
    else s
  | some ⟨caller, .erase c, exclusive⟩ =>
    if c < cfg.chans then setSection (eraseOne cfg s i c) i ⟨caller, .erase (c + 1), exclusive⟩
    else afterErase s i caller exclusive
  | some ⟨caller, .set, exclusive⟩ =>
    setSection (usbSetInterface s i caller fails) i ⟨caller, .fill 0, exclusive⟩
  | some ⟨caller, .fill c, exclusive⟩ =>
    if c < cfg.chans then setSection (fillOne cfg s i c) i ⟨caller, .fill (c + 1), exclusive⟩
    else setSection s i ⟨caller, .available, exclusive⟩
  | some ⟨caller, .available, _⟩ =>
    if (s.intfs i).spinning then s
    else s.modify i fun intf => { intf with
      changeFlag := false, flagLock := some ⟨caller, .unlock, false⟩ }
  | some ⟨caller, .unlock, _⟩ =>
    afterUnlock (s.modify i fun intf => { intf with flagLock := none }) i caller
  | some ⟨_, .held, _⟩ => s
  | some ⟨_, .abandoned, _⟩ => s

def step (cfg : Config) (s : State) : Event → Except Fault State
  | .hold c => epHoldIntf s c
  | .release k => epReleaseIntf s k fun _ s => s
  | .submit k => .ok (submit s k)
  | .complete c => .ok { s with urbs := Function.update s.urbs c (s.urbs c - 1) }
  | .probe u alt => .ok (probe s u alt)
  | .disconnect u => .ok (coreCall s u .disconnect)
  | .preReset u => .ok (coreCall s u .preReset)
  | .postReset u => .ok (postReset s u)
  | .coreNext u => coreNext cfg s u
  | .epSet k alt => epReleaseIntf s k fun i s => { s with settings := s.settings ++ [(i, alt)] }
  | .epSetNext k => epSetNext s k
  | .lockNext i fails => .ok (lockNext cfg s i fails)

/-! ## What is claimed -/

structure Guarded (s : State) : Prop where
  /-- `num_users` is the number of users -/
  counts : ∀ i, (s.intfs i).freed = false →
    (s.intfs i).numUsers.toNat = s.users.countP (·.intf = i)
  /-- a release decrements the interface that was held -/
  releases : ∀ user ∈ s.users, s.ep user.chan = some user.intf
  /-- nobody is inside while the interface is unavailable -/
  exclusive : ∀ i sec, (s.intfs i).flagLock = some sec → sec.exclusive = true →
    ∀ user ∈ s.users, user.intf ≠ i
  /-- no interface is freed that is held -/
  freed : ∀ user ∈ s.users, (s.intfs user.intf).freed = false
  /-- the URBs of an endpoint that was erased are stopped -/
  erased : ∀ x ∈ s.erased, x.2 = 0

/-- The alternate setting that is asked for. -/
def Caller.alt : Caller → Option (List ℕ)
  | .epSet alt => some alt
  | _ => none

def CalmSection (cfg : Config) (s : State) (i : ℕ) (fails : Bool) (sec : Section) : Prop :=
  match sec.phase with
  | .erase c =>
    (c < cfg.chans → isEndpoint cfg (s.intfs i) c = true →
      s.urbs c = 0 ∧ ∀ user ∈ s.users, user.chan ≠ c) ∧
    (cfg.chans ≤ c → sec.caller = .disconnect → ∀ p ∈ s.settings, p.1 ≠ i)
  | .set => fails = false → ∀ alt ∈ sec.caller.alt, ∀ c < cfg.chans, s.ep c = some i → c ∈ alt
  | _ => True

/-- An interface has less than 255 users when another one comes; an endpoint is erased with no URB
anchored to it and no user; an interface is freed with no `wcn_usb_ep_set` on its way to it; and the
alternate setting is changed with no endpoint back in the store that the new one lacks. -/
def Calm (cfg : Config) (s : State) : Event → Prop
  | .hold c => ∀ i ∈ s.ep c, (s.intfs i).changeFlag = false → (s.intfs i).numUsers ≠ 255
  | .lockNext i fails => ∀ sec ∈ (s.intfs i).flagLock, CalmSection cfg s i fails sec
  | _ => True

/-! ## The invariant -/

/-- The interface the USB core works on. -/
def Core.intf : Core → Option ℕ
  | .idle => none
  | .probing i _ => some i
  | .entering i _ => some i
  | .spinning i _ => some i
  | .inside i => some i

/-- What holds while someone has `flag_lock`. -/
structure SectionSound (s : State) (i : ℕ) (sec : Section) : Prop where
  live : (s.intfs i).freed = false
  flag : sec.phase = .wait ∨ sec.exclusive = true → (s.intfs i).changeFlag = true
  alone : sec.exclusive = true → ∀ user ∈ s.users, user.intf ≠ i
  inside : sec.caller = .disconnect ∨ sec.caller = .preReset →
    s.core (s.intfs i).usb = .inside i
  shape : sec.caller = .disconnect → sec.phase = .wait ∨ ∃ c, sec.phase = .erase c
  /-- a disconnected interface is not found any more, and not by the endpoints erased so far -/
  gone : ∀ c, sec.caller = .disconnect → sec.phase = .erase c →
    (∀ u, s.bound u ≠ some i) ∧ ∀ c' < c, s.ep c' ≠ some i

structure Sound (cfg : Config) (s : State) : Prop where
  counts : ∀ i, (s.intfs i).freed = false →
    (s.intfs i).numUsers.toNat = s.users.countP (·.intf = i)
  releases : ∀ user ∈ s.users, s.ep user.chan = some user.intf
  erased : ∀ x ∈ s.erased, x.2 = 0
  fresh : ∀ i, s.count ≤ i → (s.intfs i).freed = true
  stored : ∀ c i, s.ep c = some i →
    c < cfg.chans ∧ (s.intfs i).freed = false ∧ isEndpoint cfg (s.intfs i) c = true
  settings : ∀ p ∈ s.settings, (s.intfs p.1).freed = false
  bound : ∀ u i, s.bound u = some i → (s.intfs i).freed = false ∧ (s.intfs i).usb = u
  core : ∀ u i, (s.core u).intf = some i → (s.intfs i).freed = false ∧ (s.intfs i).usb = u
  /-- an interface is bound until it is disconnected -/
  live : ∀ i, (s.intfs i).freed = false → s.bound (s.intfs i).usb = some i ∨
    ∃ c exclusive, (s.intfs i).flagLock = some ⟨.disconnect, .erase c, exclusive⟩
  unique : ∀ i j, (s.intfs i).freed = false → (s.intfs j).freed = false →
    (s.intfs i).usb = (s.intfs j).usb → i = j
  sections : ∀ i sec, (s.intfs i).flagLock = some sec → SectionSound s i sec

variable {cfg : Config} {s t : State} {i u : ℕ}

theorem Sound.user_live (h : Sound cfg s) {user : User} (hu : user ∈ s.users) :
    (s.intfs user.intf).freed = false :=
  (h.stored _ _ (h.releases user hu)).2.1

theorem Sound.guarded (h : Sound cfg s) : Guarded s where
  counts := h.counts
  releases := h.releases
  exclusive i sec hsec := (h.sections i sec hsec).alone
  freed _ hu := h.user_live hu
  erased := h.erased

theorem sound_init : Sound cfg init where
  counts _ h := by cases h
  releases _ h := by cases h
  erased _ h := by cases h
  fresh _ _ := rfl
  stored _ _ h := by cases h
  settings _ h := by cases h
  bound _ _ h := by cases h
  core _ _ h := by cases h
  live _ h := by cases h
  unique _ _ h := by cases h
  sections _ _ h := by cases h

/-- What the store and the count of users depend on is the same. -/
structure Same (a b : Intf) : Prop where
  usb : a.usb = b.usb
  alt : a.alt = b.alt
  numUsers : a.numUsers = b.numUsers
  freed : a.freed = b.freed

theorem Same.refl (a : Intf) : Same a a := ⟨rfl, rfl, rfl, rfl⟩

theorem same_update {intfs : ℕ → Intf} {a : Intf} (ha : Same a (intfs i)) (j : ℕ) :
    Same (Function.update intfs i a j) (intfs j) := by
  by_cases hj : j = i
  · rw [hj, Function.update_self]
    exact ha
  · rw [Function.update_of_ne hj]
    exact Same.refl _

theorem Same.isEndpoint {a b : Intf} (h : Same a b) (c : ℕ) :
    isEndpoint cfg a c = isEndpoint cfg b c := by
  simp only [UsbIntf.isEndpoint, h.usb, h.alt]

/-- A section is left alone by what others do. -/
theorem SectionSound.frame {sec : Section} (h : SectionSound s i sec)
    (hsame : Same (t.intfs i) (s.intfs i))
    (hflag : (t.intfs i).changeFlag = (s.intfs i).changeFlag)
    (husers : ∀ user ∈ t.users, user.intf = i → user ∈ s.users)
    (hcore : s.core (s.intfs i).usb = .inside i → t.core (s.intfs i).usb = .inside i)
    (hbound : ∀ u, t.bound u = some i → s.bound u = some i)
    (hep : sec.caller = .disconnect → ∀ c, t.ep c = some i → s.ep c = some i) :
    SectionSound t i sec where
  live := hsame.freed.trans h.live
  flag hf := hflag.trans (h.flag hf)
  alone he user hu hi := h.alone he user (husers user hu hi) hi
  inside hc := by
    rw [hsame.usb]
    exact hcore (h.inside hc)
  shape := h.shape
  gone c hd hp := by
    obtain ⟨hb, he⟩ := h.gone c hd hp
    exact ⟨fun u hu => hb u (hbound u hu), fun c' hc' hi => he c' hc' (hep hd c' hi)⟩

/-- A step that changes neither the users, the store nor the interfaces in it. -/
theorem Sound.frame (h : Sound cfg s) (hsame : ∀ j, Same (t.intfs j) (s.intfs j))
    (hep : t.ep = s.ep) (husers : t.users = s.users) (herased : t.erased = s.erased)
    (hcount : t.count = s.count) (hsettings : ∀ p ∈ t.settings, (s.intfs p.1).freed = false)
    (hbound : ∀ u i, t.bound u = some i → s.bound u = some i)
    (hcore : ∀ u i, (t.core u).intf = some i → (s.intfs i).freed = false ∧ (s.intfs i).usb = u)
    (hlive : ∀ i, (s.intfs i).freed = false → t.bound (s.intfs i).usb = some i ∨
      ∃ c exclusive, (t.intfs i).flagLock = some ⟨.disconnect, .erase c, exclusive⟩)
    (hsections : ∀ i sec, (t.intfs i).flagLock = some sec → SectionSound t i sec) :
    Sound cfg t where
  counts i hi := by
    rw [(hsame i).numUsers, husers]
    exact h.counts i ((hsame i).freed.symm.trans hi)
  releases user hu := by
    rw [hep]
    exact h.releases user (husers ▸ hu)
  erased := by
    rw [herased]
    exact h.erased
  fresh i hi := (hsame i).freed.trans (h.fresh i (hcount ▸ hi))
  stored c i hc := by
    rw [hep] at hc
    rw [(hsame i).freed, (hsame i).isEndpoint]
    exact h.stored c i hc
  settings p hp := (hsame p.1).freed.trans (hsettings p hp)
  bound u i hu := by
    rw [(hsame i).freed, (hsame i).usb]
    exact h.bound u i (hbound u i hu)
  core u i hu := by
    rw [(hsame i).freed, (hsame i).usb]
    exact hcore u i hu
  live i hi := by
    rw [(hsame i).usb]
    exact hlive i ((hsame i).freed.symm.trans hi)
  unique i j hi hj hu := by
    rw [(hsame i).freed] at hi
    rw [(hsame j).freed] at hj
    rw [(hsame i).usb, (hsame j).usb] at hu
    exact h.unique i j hi hj hu
  sections := hsections

/-! ## The steps of the users -/

theorem Sound.setUrbs (h : Sound cfg s) (urbs : ℕ → ℕ) : Sound cfg { s with urbs := urbs } := by
  refine ⟨h.counts, h.releases, h.erased, h.fresh, h.stored, h.settings, h.bound, h.core, h.live,
    h.unique, fun i sec hsec => ?_⟩
  have hs := h.sections i sec hsec
  exact ⟨hs.live, hs.flag, hs.alone, hs.inside, hs.shape, hs.gone⟩

theorem countP_append_user (users : List User) (c i j : ℕ) :
    (users ++ [(⟨c, i⟩ : User)]).countP (·.intf = j) =
      users.countP (·.intf = j) + if i = j then 1 else 0 := by
  by_cases hij : i = j <;> simp [hij]

theorem countP_eraseIdx_user {users : List User} {k : ℕ} {user : User}
    (hk : users[k]? = some user) (j : ℕ) :
    users.countP (·.intf = j) =
      (users.eraseIdx k).countP (·.intf = j) + if user.intf = j then 1 else 0 := by
  obtain ⟨hlt, rfl⟩ := List.getElem?_eq_some_iff.mp hk
  have hperm := List.getElem_cons_eraseIdx_perm hlt
  rw [← hperm.countP_eq]
  by_cases hj : users[k].intf = j <;> simp [hj]

/-- The number of users of one interface changes. -/
theorem Sound.recount (h : Sound cfg s) {users : List User} {n : BitVec 8}
    (husers : ∀ user ∈ users, user ∈ s.users ∨
      (s.ep user.chan = some user.intf ∧ (s.intfs user.intf).changeFlag = false))
    (hn : n.toNat = users.countP (·.intf = i))
    (hothers : ∀ j, j ≠ i → users.countP (·.intf = j) = s.users.countP (·.intf = j)) :
    Sound cfg { s.modify i fun intf => { intf with numUsers := n } with users := users } := by
  have hfield : ∀ (j : ℕ), (Function.update s.intfs i { s.intfs i with numUsers := n } j).usb =
      (s.intfs j).usb ∧ (Function.update s.intfs i { s.intfs i with numUsers := n } j).alt =
      (s.intfs j).alt ∧ (Function.update s.intfs i { s.intfs i with numUsers := n } j).freed =
      (s.intfs j).freed ∧
      (Function.update s.intfs i { s.intfs i with numUsers := n } j).flagLock =
        (s.intfs j).flagLock ∧
      (Function.update s.intfs i { s.intfs i with numUsers := n } j).changeFlag =
        (s.intfs j).changeFlag := by
    intro j
    by_cases hj : j = i
    · simp [hj]
    · simp [hj]
  refine ⟨?_, ?_, h.erased, ?_, ?_, ?_, ?_, ?_, ?_, ?_, ?_⟩
  · intro j hj
    simp only [State.modify, (hfield j).2.2.1] at hj ⊢
    by_cases hji : j = i
    · rw [hji, Function.update_self]
      exact hn
    · rw [Function.update_of_ne hji, hothers j hji]
      exact h.counts j hj
  · intro user hu
    rcases husers user hu with hu | hu
    · exact h.releases user hu
    · exact hu.1
  · intro j hj
    simp only [State.modify, (hfield j).2.2.1]
    exact h.fresh j hj
  · intro c j hc
    simp only [State.modify, (hfield j).2.2.1, isEndpoint, (hfield j).1, (hfield j).2.1]
    exact h.stored c j hc
  · intro p hp
    simp only [State.modify, (hfield p.1).2.2.1]
    exact h.settings p hp
  · intro u j hu
    simp only [State.modify, (hfield j).2.2.1, (hfield j).1]
    exact h.bound u j hu
  · intro u j hu
    simp only [State.modify, (hfield j).2.2.1, (hfield j).1]
    exact h.core u j hu
  · intro j hj
    simp only [State.modify, (hfield j).2.2.1, (hfield j).1, (hfield j).2.2.2.1] at hj ⊢
    exact h.live j hj
  · intro j j' hj hj' hu
    simp only [State.modify, (hfield j).2.2.1, (hfield j').2.2.1, (hfield j).1, (hfield j').1]
      at hj hj' hu
    exact h.unique j j' hj hj' hu
  · intro j sec hsec
    simp only [State.modify, (hfield j).2.2.2.1] at hsec
    obtain ⟨hslive, hflag, halone, hinside, hshape, hgone⟩ := h.sections j sec hsec
    refine ⟨?_, ?_, ?_, ?_, hshape, hgone⟩
    · simp only [State.modify, (hfield j).2.2.1]
      exact hslive
    · simp only [State.modify, (hfield j).2.2.2.2]
      exact hflag
    · intro he user hu hj
      rcases husers user hu with hu | hu
      · exact halone he user hu hj
      · -- a user came, so the interface is available
        rw [hj, hflag (Or.inr he)] at hu
        cases hu.2
    · simp only [State.modify, (hfield j).1]
      exact hinside

theorem Sound.epHoldIntf (h : Sound cfg s) {c : ℕ} (hC : Calm cfg s (.hold c)) :
    ∃ t, epHoldIntf s c = .ok t ∧ Sound cfg t := by
  unfold UsbIntf.epHoldIntf
  cases hep : s.ep c with
  | none => exact ⟨s, rfl, h⟩
  | some i =>
    have hlive := (h.stored c i hep).2.1
    simp only [hlive, Bool.false_eq_true, if_false]
    split
    · exact ⟨s, rfl, h⟩
    · rename_i hfree
      have hflag : (s.intfs i).changeFlag = false := by
        simp only [not_or, Bool.not_eq_true] at hfree
        exact hfree.2
      refine ⟨_, rfl, h.recount ?_ ?_ ?_⟩
      · intro user hu
        rcases List.mem_append.mp hu with hu | hu
        · exact Or.inl hu
        · rw [List.mem_singleton.mp hu]
          exact Or.inr ⟨hep, hflag⟩
      · have hcount := h.counts i hlive
        have hne := hC i hep hflag
        have hlt : (s.intfs i).numUsers.toNat + 1 < 256 := by
          have hbound := (s.intfs i).numUsers.isLt
          have : (s.intfs i).numUsers.toNat ≠ 255 := fun heq => hne (BitVec.eq_of_toNat_eq heq)
          omega
        rw [countP_append_user, if_pos rfl, ← hcount, BitVec.toNat_add]
        exact Nat.mod_eq_of_lt hlt
      · intro j hj
        rw [countP_append_user, if_neg (fun heq => hj heq.symm), add_zero]

theorem Sound.epReleaseIntf (h : Sound cfg s) (k : ℕ) (after : ℕ → State → State)
    (hafter : ∀ i t, (t.intfs i).freed = false → Sound cfg t → Sound cfg (after i t)) :
    ∃ t, epReleaseIntf s k after = .ok t ∧ Sound cfg t := by
  unfold UsbIntf.epReleaseIntf
  cases hk : s.users[k]? with
  | none => exact ⟨s, rfl, h⟩
  | some user =>
    have hu := List.mem_of_getElem? hk
    have hlive := h.user_live hu
    simp only [h.releases user hu, hlive, Bool.false_eq_true, if_false]
    split
    · exact ⟨s, rfl, h⟩
    · refine ⟨_, rfl, hafter user.intf _ ?_ (h.recount ?_ ?_ ?_)⟩
      · simpa [State.modify] using hlive
      · intro other ho
        exact Or.inl (List.mem_of_mem_eraseIdx ho)
      · have hcount := h.counts user.intf hlive
        rw [countP_eraseIdx_user hk, if_pos rfl] at hcount
        rw [BitVec.toNat_sub, hcount]
        have hbound := (s.intfs user.intf).numUsers.isLt
        have hone : (1 : BitVec 8).toNat = 1 := rfl
        omega
      · intro j hj
        rw [countP_eraseIdx_user hk j, if_neg (fun heq => hj heq.symm), add_zero]

/-! ## The steps under the locks -/

/-- A section of the USB core is not touched where the core is not under `flag_lock`. -/
theorem inside_update {c' : Core} (hnot : ∀ i, s.core u ≠ .inside i) {j : ℕ}
    (hj : s.core (s.intfs j).usb = .inside j) :
    Function.update s.core u c' (s.intfs j).usb = .inside j := by
  have hne : (s.intfs j).usb ≠ u := by
    rintro rfl
    exact hnot j hj
  rw [Function.update_of_ne hne]
  exact hj

/-- The core turns to another thing with no lock involved. -/
theorem Sound.setCore (h : Sound cfg s) {c' : Core} (hnot : ∀ i, s.core u ≠ .inside i)
    (hc' : ∀ i, c'.intf = some i → (s.intfs i).freed = false ∧ (s.intfs i).usb = u) :
    Sound cfg { s with core := Function.update s.core u c' } := by
  refine h.frame (fun _ => Same.refl _) rfl rfl rfl rfl h.settings (fun _ _ => id) ?_ h.live ?_
  · intro v i hv
    dsimp only at hv
    by_cases hvu : v = u
    · rw [hvu, Function.update_self] at hv
      rw [hvu]
      exact hc' i hv
    · rw [Function.update_of_ne hvu] at hv
      exact h.core v i hv
  · intro i sec hsec
    exact (h.sections i sec hsec).frame (Same.refl _) rfl (fun _ hu _ => hu) (inside_update hnot)
      (fun _ => id) (fun _ _ => id)

theorem Sound.coreCall (h : Sound cfg s) (u : ℕ) (caller : Caller) :
    Sound cfg (coreCall s u caller) := by
  unfold UsbIntf.coreCall
  split
  · rename_i hidle
    cases hb : s.bound u with
    | none => exact h
    | some i =>
      refine h.setCore (by simp [hidle]) ?_
      intro j hj
      cases hj
      exact h.bound u i hb
  · exact h

/-- A section goes on, with the flag as it is or cleared at its end. -/
theorem Sound.modifyLock (h : Sound cfg s) {f : Intf → Intf} (hsame : Same (f (s.intfs i)) (s.intfs i))
    (hlive : (s.intfs i).freed = false → s.bound (s.intfs i).usb = some i ∨
      ∃ c exclusive, (f (s.intfs i)).flagLock = some ⟨.disconnect, .erase c, exclusive⟩)
    (hsec : ∀ sec, (f (s.intfs i)).flagLock = some sec → SectionSound (s.modify i f) i sec) :
    Sound cfg (s.modify i f) := by
  refine h.frame (same_update hsame) rfl rfl rfl rfl h.settings (fun _ _ => id) h.core ?_ ?_
  · intro j hj
    simp only [State.modify]
    by_cases hji : j = i
    · subst hji
      rw [Function.update_self]
      exact hlive hj
    · rw [Function.update_of_ne hji]
      exact h.live j hj
  · intro j sec hj
    by_cases hji : j = i
    · subst hji
      exact hsec sec (by simpa [State.modify] using hj)
    · simp only [State.modify, Function.update_of_ne hji] at hj
      exact (h.sections j sec hj).frame (same_update hsame j)
        (by simp [State.modify, Function.update_of_ne hji]) (fun _ hu _ => hu) id (fun _ => id)
        (fun _ _ => id)

/-- The section of an interface that is not being disconnected. -/
theorem Sound.still_bound (h : Sound cfg s) {sec : Section} (hsec : (s.intfs i).flagLock = some sec)
    (hcaller : sec.caller ≠ .disconnect) : s.bound (s.intfs i).usb = some i := by
  rcases h.live i (h.sections i sec hsec).live with hb | ⟨c, e, he⟩
  · exact hb
  · rw [hsec] at he
    cases he
    exact absurd rfl hcaller

/-- A section goes on to a phase in which nothing is erased. -/
theorem Sound.setSection (h : Sound cfg s) {caller : Caller} {phase phase' : Phase}
    {exclusive exclusive' : Bool} (hsec : (s.intfs i).flagLock = some ⟨caller, phase, exclusive⟩)
    (hcaller : caller ≠ .disconnect) (hwait : phase' ≠ .wait)
    (hexclusive : exclusive' = true → phase = .wait ∨ exclusive = true)
    (halone : exclusive' = true → ∀ user ∈ s.users, user.intf ≠ i) :
    Sound cfg (setSection s i ⟨caller, phase', exclusive'⟩) := by
  have hs := h.sections i _ hsec
  refine h.modifyLock ⟨rfl, rfl, rfl, rfl⟩ (fun _ => Or.inl (h.still_bound hsec hcaller)) ?_
  intro sec heq
  obtain rfl := Option.some.inj heq
  refine ⟨?_, ?_, halone, ?_, fun hd => absurd hd hcaller, fun c hd => absurd hd hcaller⟩
  · simpa [State.modify] using hs.live
  · intro hf
    rcases hf with hf | hf
    · exact absurd hf hwait
    · simpa [State.modify] using hs.flag (hexclusive hf)
  · simpa [State.modify] using hs.inside

theorem Sound.postReset (h : Sound cfg s) (u : ℕ) : Sound cfg (postReset s u) := by
  unfold UsbIntf.postReset
  split
  · split
    · rename_i i _ _ exclusive hsec
      exact h.setSection hsec (by simp) (by simp) Or.inr (h.sections i _ hsec).alone
    · exact h
  · exact h

/-- `intf_set_unavailable` gets `flag_lock`. -/
theorem Sound.setFlag (h : Sound cfg s) {caller : Caller} (hfree : (s.intfs i).flagLock = none)
    (hcore : (s.core u).intf = some i) (hnot : ∀ j, s.core u ≠ .inside j) :
    Sound cfg (setFlag s u i caller) := by
  obtain ⟨hlive, husb⟩ := h.core u i hcore
  have hbound : s.bound (s.intfs i).usb = some i := by
    rcases h.live i hlive with hb | ⟨c, e, he⟩
    · exact hb
    · rw [hfree] at he
      cases he
  have hsame : Same { s.intfs i with
      changeFlag := true, flagLock := some ⟨caller, .wait, false⟩, spinning := false }
      (s.intfs i) := ⟨rfl, rfl, rfl, rfl⟩
  refine h.frame (same_update hsame) rfl rfl rfl rfl h.settings (fun _ _ => id) ?_ ?_ ?_
  · intro v j hv
    simp only [UsbIntf.setFlag] at hv
    by_cases hvu : v = u
    · rw [hvu, Function.update_self] at hv
      cases hv
      exact ⟨hlive, husb.trans hvu.symm⟩
    · rw [Function.update_of_ne hvu] at hv
      exact h.core v j hv
  · intro j hj
    by_cases hji : j = i
    · rw [hji]
      exact Or.inl hbound
    · simp only [UsbIntf.setFlag, State.modify, Function.update_of_ne hji]
      exact h.live j hj
  · intro j sec hsec
    by_cases hji : j = i
    · subst hji
      simp only [UsbIntf.setFlag, State.modify, Function.update_self] at hsec
      obtain rfl := Option.some.inj hsec
      refine ⟨?_, ?_, by simp, ?_, by simp, by simp⟩
      · simpa [UsbIntf.setFlag, State.modify] using hlive
      · simp [UsbIntf.setFlag, State.modify]
      · simp [UsbIntf.setFlag, State.modify, husb]
    · simp only [UsbIntf.setFlag, State.modify, Function.update_of_ne hji] at hsec
      exact (h.sections j sec hsec).frame (same_update hsame j)
        (by simp [UsbIntf.setFlag, State.modify, Function.update_of_ne hji]) (fun _ hu _ => hu)
        (inside_update hnot) (fun _ => id) (fun _ _ => id)

/-- An endpoint is filled in for an interface that is not being erased for good. -/
theorem Sound.fillOne (h : Sound cfg s) {c : ℕ} (hc : c < cfg.chans)
    (hlive : (s.intfs i).freed = false)
    (hkeep : ∀ sec, (s.intfs i).flagLock = some sec → sec.caller ≠ .disconnect) :
    Sound cfg (fillOne cfg s i c) := by
  unfold UsbIntf.fillOne
  split
  · rename_i hmatch
    -- what the endpoint referred to was the same interface, if anything
    have hold : ∀ j, s.ep c = some j → j = i := by
      intro j hj
      obtain ⟨_, hjlive, hjmatch⟩ := h.stored c j hj
      simp only [isEndpoint, decide_eq_true_eq] at hmatch hjmatch
      exact h.unique j i hjlive hlive (hjmatch.1.symm.trans hmatch.1)
    have hep : ∀ c' j, j ≠ i → Function.update s.ep c (some i) c' = some j → s.ep c' = some j := by
      intro c' j hji hj
      by_cases hcc : c' = c
      · rw [hcc, Function.update_self] at hj
        exact absurd (Option.some.inj hj).symm hji
      · rwa [Function.update_of_ne hcc] at hj
    refine ⟨h.counts, ?_, h.erased, h.fresh, ?_, h.settings, h.bound, h.core, h.live, h.unique, ?_⟩
    · intro user hu
      have hr := h.releases user hu
      dsimp only
      by_cases hcc : user.chan = c
      · rw [hcc] at hr
        rw [hcc, Function.update_self, hold _ hr]
      · rw [Function.update_of_ne hcc]
        exact hr
    · intro c' j hj
      by_cases hcc : c' = c
      · simp only [hcc, Function.update_self] at hj
        obtain rfl := Option.some.inj hj
        rw [hcc]
        exact ⟨hc, hlive, hmatch⟩
      · simp only [Function.update_of_ne hcc] at hj
        exact h.stored c' j hj
    · intro j sec hsec
      refine (h.sections j sec hsec).frame (Same.refl _) rfl (fun _ hu _ => hu) id (fun _ => id) ?_
      intro hd c' hj
      have hji : j ≠ i := by
        rintro rfl
        exact hkeep sec hsec hd
      exact hep c' j hji hj
  · exact h

theorem Sound.coreNext (h : Sound cfg s) (u : ℕ) : ∃ t, coreNext cfg s u = .ok t ∧ Sound cfg t := by
  unfold UsbIntf.coreNext
  cases hu : s.core u with
  | idle => exact ⟨s, rfl, h⟩
  | inside i => exact ⟨s, rfl, h⟩
  | probing i c =>
    obtain ⟨hlive, husb⟩ := h.core u i (by rw [hu]; rfl)
    dsimp only
    split
    · rename_i hc
      -- the interface is not disconnected while it is probed
      have hkeep : ∀ sec, (s.intfs i).flagLock = some sec → sec.caller ≠ .disconnect := by
        intro sec hsec hd
        have hin := (h.sections i sec hsec).inside (Or.inl hd)
        rw [husb, hu] at hin
        cases hin
      have hfill := h.fillOne hc hlive hkeep
      have hsame : ∀ s', s' = UsbIntf.fillOne cfg s i c → s'.core = s.core ∧ s'.intfs = s.intfs := by
        rintro _ rfl
        unfold UsbIntf.fillOne
        split <;> exact ⟨rfl, rfl⟩
      obtain ⟨hcore, hintfs⟩ := hsame _ rfl
      refine ⟨_, rfl, ?_⟩
      rw [← hcore]
      refine hfill.setCore (by simp [hcore, hu]) ?_
      intro j hj
      cases hj
      rw [hintfs]
      exact ⟨hlive, husb⟩
    · exact ⟨_, rfl, h.setCore (by simp [hu]) (fun j hj => by cases hj)⟩
  | entering i caller =>
    obtain ⟨hlive, husb⟩ := h.core u i (by rw [hu]; rfl)
    simp only [hlive, Bool.false_eq_true, if_false]
    split
    · exact ⟨s, rfl, h⟩
    split
    · rename_i hlocked
      obtain ⟨sec, hsec⟩ := Option.isSome_iff_exists.mp hlocked
      refine ⟨_, rfl, ?_⟩
      have hsame : Same { s.intfs i with spinning := true } (s.intfs i) := ⟨rfl, rfl, rfl, rfl⟩
      have hspin : Sound cfg (s.modify i fun intf => { intf with spinning := true }) := by
        refine h.modifyLock hsame (fun _ => h.live i hlive) ?_
        intro sec' hsec'
        exact (h.sections i sec' hsec').frame (same_update hsame i)
          (by simp [State.modify]) (fun _ hu _ => hu) id (fun _ => id) (fun _ _ => id)
      refine hspin.setCore (by simp [State.modify, hu]) ?_
      intro j hj
      cases hj
      simpa [State.modify] using ⟨hlive, husb⟩
    · rename_i hunlocked
      exact ⟨_, rfl, h.setFlag (by simpa using hunlocked) (by rw [hu]; rfl) (by simp [hu])⟩
  | spinning i caller =>
    dsimp only
    split
    · exact ⟨s, rfl, h⟩
    · rename_i hunlocked
      exact ⟨_, rfl, h.setFlag (by simpa using hunlocked) (by rw [hu]; rfl) (by simp [hu])⟩

theorem Sound.epSetNext (h : Sound cfg s) (k : ℕ) : ∃ t, epSetNext s k = .ok t ∧ Sound cfg t := by
  unfold UsbIntf.epSetNext
  cases hk : s.settings[k]? with
  | none => exact ⟨s, rfl, h⟩
  | some p =>
    have hlive : (s.intfs p.1).freed = false := h.settings p (List.mem_of_getElem? hk)
    have herase : Sound cfg { s with settings := s.settings.eraseIdx k } := by
      refine h.frame (fun _ => Same.refl _) rfl rfl rfl rfl ?_ (fun _ _ => id) h.core h.live ?_
      · intro q hq
        exact h.settings q (List.mem_of_mem_eraseIdx hq)
      · intro i sec hsec
        exact (h.sections i sec hsec).frame (Same.refl _) rfl (fun _ hu _ => hu) id (fun _ => id)
          (fun _ _ => id)
    simp only [hlive, Bool.false_eq_true, if_false]
    split
    · exact ⟨s, rfl, h⟩
    split
    · exact ⟨_, rfl, herase⟩
    · rename_i hunlocked
      have hfree : (s.intfs p.1).flagLock = none := by simpa using hunlocked
      have hbound : s.bound (s.intfs p.1).usb = some p.1 := by
        rcases h.live p.1 hlive with hb | ⟨c, e, he⟩
        · exact hb
        · rw [hfree] at he
          cases he
      refine ⟨_, rfl, ?_⟩
      refine herase.modifyLock (f := fun intf => { intf with
        changeFlag := true, flagLock := some ⟨.epSet p.2, .wait, false⟩ }) ⟨rfl, rfl, rfl, rfl⟩
        (fun _ => Or.inl hbound) ?_
      intro sec hsec
      obtain rfl := Option.some.inj hsec
      refine ⟨?_, ?_, by simp, by simp, by simp, by simp⟩
      · simpa [State.modify] using hlive
      · simp [State.modify]

/-- Without users there is nobody inside. -/
theorem Sound.nobody (h : Sound cfg s) (hlive : (s.intfs i).freed = false)
    (hzero : (s.intfs i).numUsers = 0) : ∀ user ∈ s.users, user.intf ≠ i := by
  have hcount := h.counts i hlive
  rw [hzero] at hcount
  intro user hu hi
  have hnone := List.countP_eq_zero.mp hcount.symm user hu
  simp [hi] at hnone

theorem Sound.afterWait (h : Sound cfg s) {caller : Caller} {old exclusive : Bool}
    (hsec : (s.intfs i).flagLock = some ⟨caller, .wait, old⟩)
    (halone : exclusive = true → ∀ user ∈ s.users, user.intf ≠ i) :
    Sound cfg (afterWait s i caller exclusive) := by
  have hs := h.sections i _ hsec
  cases caller with
  | preReset =>
    exact h.setSection hsec (by simp) (by simp) (fun _ => Or.inl rfl) halone
  | epSet alt =>
    simp only [UsbIntf.afterWait]
    split
    · rename_i he
      exact h.setSection hsec (by simp) (by simp) (fun _ => Or.inl rfl)
        (fun _ => halone he)
    · exact h.setSection hsec (by simp) (by simp) (by simp) (by simp)
  | disconnect =>
    -- from here on the interface is not found by the USB core
    have hsame : Same { s.intfs i with flagLock := some ⟨.disconnect, .erase 0, exclusive⟩ }
        (s.intfs i) := ⟨rfl, rfl, rfl, rfl⟩
    have hbound : ∀ u j, Function.update s.bound (s.intfs i).usb none u = some j →
        s.bound u = some j ∧ j ≠ i := by
      intro u j hu
      by_cases huu : u = (s.intfs i).usb
      · rw [huu, Function.update_self] at hu
        cases hu
      · rw [Function.update_of_ne huu] at hu
        refine ⟨hu, ?_⟩
        rintro rfl
        exact huu (h.bound u j hu).2.symm
    refine h.frame (same_update hsame) rfl rfl rfl rfl h.settings (fun u j hu => (hbound u j hu).1)
      h.core ?_ ?_
    · intro j hj
      by_cases hji : j = i
      · subst hji
        exact Or.inr ⟨0, exclusive, by simp [UsbIntf.afterWait, UsbIntf.setSection, State.modify]⟩
      · simp only [UsbIntf.afterWait, UsbIntf.setSection, State.modify, Function.update_of_ne hji]
        rcases h.live j hj with hb | he
        · have husb : (s.intfs j).usb ≠ (s.intfs i).usb :=
            fun heq => hji (h.unique j i hj hs.live heq)
          rw [Function.update_of_ne husb]
          exact Or.inl hb
        · exact Or.inr he
    · intro j sec hj
      by_cases hji : j = i
      · subst hji
        simp only [UsbIntf.afterWait, UsbIntf.setSection, State.modify, Function.update_self] at hj
        obtain rfl := Option.some.inj hj
        refine ⟨?_, ?_, halone, ?_, by simp, ?_⟩
        · simpa [UsbIntf.afterWait, UsbIntf.setSection, State.modify] using hs.live
        · intro _
          simpa [UsbIntf.afterWait, UsbIntf.setSection, State.modify] using hs.flag (Or.inl rfl)
        · simpa [UsbIntf.afterWait, UsbIntf.setSection, State.modify] using hs.inside
        · intro c _ hc
          cases hc
          exact ⟨fun u hu => (hbound u j hu).2 rfl, by simp⟩
      · simp only [UsbIntf.afterWait, UsbIntf.setSection, State.modify,
          Function.update_of_ne hji] at hj
        exact (h.sections j sec hj).frame (same_update hsame j)
          (by simp [UsbIntf.afterWait, UsbIntf.setSection, State.modify, Function.update_of_ne hji])
          (fun _ hu _ => hu) id (fun u hu => (hbound u j hu).1) (fun _ _ => id)

/-- `wcn_usb_ep_stop` finds no interface at the endpoint. -/
theorem eraseStop_eq (s : State) (c : ℕ) : eraseStop s c =
    { s with ep := Function.update s.ep c none, erased := s.erased ++ [(c, s.urbs c)] } := by
  simp [eraseStop, epStop]

/-- An endpoint is erased that has neither users nor URBs. -/
theorem Sound.eraseOne (h : Sound cfg s) {c : ℕ}
    (hquiet : isEndpoint cfg (s.intfs i) c = true → s.urbs c = 0 ∧
      ∀ user ∈ s.users, user.chan ≠ c) :
    Sound cfg (eraseOne cfg s i c) ∧ (eraseOne cfg s i c).intfs = s.intfs ∧
      (eraseOne cfg s i c).ep c ≠ some i := by
  unfold UsbIntf.eraseOne
  split
  · rename_i hmatch
    obtain ⟨hurbs, husers⟩ := hquiet hmatch
    rw [eraseStop_eq]
    have hep : ∀ c' j, Function.update s.ep c none c' = some j → s.ep c' = some j := by
      intro c' j hj
      by_cases hcc : c' = c
      · rw [hcc, Function.update_self] at hj
        cases hj
      · rwa [Function.update_of_ne hcc] at hj
    refine ⟨⟨h.counts, ?_, ?_, h.fresh, ?_, h.settings, h.bound, h.core, h.live, h.unique, ?_⟩, rfl,
      by simp⟩
    · intro user hu
      dsimp only
      rw [Function.update_of_ne (husers user hu)]
      exact h.releases user hu
    · intro x hx
      rcases List.mem_append.mp hx with hx | hx
      · exact h.erased x hx
      · rw [List.mem_singleton.mp hx]
        exact hurbs
    · intro c' j hj
      exact h.stored c' j (hep c' j hj)
    · intro j sec hsec
      exact (h.sections j sec hsec).frame (Same.refl _) rfl (fun _ hu _ => hu) id (fun _ => id)
        (fun _ c' => hep c' j)
  · rename_i hno
    exact ⟨h, rfl, fun hc => hno (h.stored c i hc).2.2⟩

theorem Sound.eraseNext (h : Sound cfg s) {caller : Caller} {c : ℕ} {exclusive : Bool}
    (hsec : (s.intfs i).flagLock = some ⟨caller, .erase c, exclusive⟩) (hc : s.ep c ≠ some i) :
    Sound cfg (UsbIntf.setSection s i ⟨caller, .erase (c + 1), exclusive⟩) := by
  have hs := h.sections i _ hsec
  refine h.modifyLock ⟨rfl, rfl, rfl, rfl⟩ ?_ ?_
  · intro hlive
    rcases h.live i hlive with hb | ⟨c', e, he⟩
    · exact Or.inl hb
    · rw [hsec] at he
      cases he
      exact Or.inr ⟨c + 1, exclusive, rfl⟩
  · intro sec heq
    obtain rfl := Option.some.inj heq
    refine ⟨?_, ?_, hs.alone, ?_, by simp, ?_⟩
    · simpa [State.modify] using hs.live
    · simpa [State.modify] using hs.flag
    · simpa [State.modify] using hs.inside
    · intro c' hd hc'
      cases hc'
      obtain ⟨hb, he⟩ := hs.gone c hd rfl
      refine ⟨hb, fun c'' hlt => ?_⟩
      rcases Nat.lt_succ_iff_lt_or_eq.mp hlt with hlt | rfl
      · exact he c'' hlt
      · exact hc

/-- A disconnected interface is freed when nothing refers to it. -/
theorem Sound.free (h : Sound cfg s) {c : ℕ} {exclusive : Bool}
    (hsec : (s.intfs i).flagLock = some ⟨.disconnect, .erase c, exclusive⟩) (hc : cfg.chans ≤ c)
    (hsettings : ∀ p ∈ s.settings, p.1 ≠ i) :
    Sound cfg (afterErase s i .disconnect exclusive) := by
  have hs := h.sections i _ hsec
  obtain ⟨hbound, herased⟩ := hs.gone c rfl rfl
  have hinside := hs.inside (Or.inl rfl)
  have hep : ∀ c', s.ep c' ≠ some i := by
    intro c' hi
    exact herased c' (lt_of_lt_of_le (h.stored c' i hi).1 hc) hi
  have hothers : ∀ j, j ≠ i → (afterErase s i .disconnect exclusive).intfs j = s.intfs j := by
    intro j hj
    simp [afterErase, State.modify, Function.update_of_ne hj]
  have hfreed : ((afterErase s i .disconnect exclusive).intfs i).freed = true := by
    simp [afterErase, State.modify]
  have hne : ∀ j, ((afterErase s i .disconnect exclusive).intfs j).freed = false → j ≠ i := by
    rintro j hj rfl
    rw [hfreed] at hj
    cases hj
  have hcore : ∀ u j, ((afterErase s i .disconnect exclusive).core u).intf = some j →
      (s.core u).intf = some j ∧ j ≠ i := by
    intro u j hu
    simp only [afterErase] at hu
    by_cases huu : u = (s.intfs i).usb
    · rw [huu, Function.update_self] at hu
      cases hu
    · rw [Function.update_of_ne huu] at hu
      refine ⟨hu, ?_⟩
      rintro rfl
      exact huu (h.core u j hu).2.symm
  refine ⟨?_, h.releases, h.erased, ?_, ?_, ?_, ?_, ?_, ?_, ?_, ?_⟩
  · intro j hj
    have hji := hne j hj
    rw [hothers j hji] at hj ⊢
    exact h.counts j hj
  · intro j hj
    by_cases hji : j = i
    · rw [hji]
      exact hfreed
    · rw [hothers j hji]
      exact h.fresh j hj
  · intro c' j hj
    have hji : j ≠ i := by
      rintro rfl
      exact hep c' hj
    rw [hothers j hji]
    exact h.stored c' j hj
  · intro p hp
    rw [hothers p.1 (hsettings p hp)]
    exact h.settings p hp
  · intro u j hu
    have hji : j ≠ i := by
      rintro rfl
      exact hbound u hu
    rw [hothers j hji]
    exact h.bound u j hu
  · intro u j hu
    obtain ⟨hu, hji⟩ := hcore u j hu
    rw [hothers j hji]
    exact h.core u j hu
  · intro j hj
    have hji := hne j hj
    rw [hothers j hji] at hj ⊢
    exact h.live j hj
  · intro j j' hj hj' husb
    have hji := hne j hj
    have hji' := hne j' hj'
    rw [hothers j hji] at hj husb
    rw [hothers j' hji'] at hj' husb
    exact h.unique j j' hj hj' husb
  · intro j sec hj
    by_cases hji : j = i
    · rw [hji] at hj
      simp [afterErase, State.modify] at hj
    · rw [hothers j hji] at hj
      refine (h.sections j sec hj).frame ?_ ?_ (fun _ hu _ => hu) ?_ (fun _ => id) (fun _ _ => id)
      · rw [hothers j hji]
        exact Same.refl _
      · rw [hothers j hji]
      · intro hin
        have husb : (s.intfs j).usb ≠ (s.intfs i).usb := by
          intro heq
          rw [heq, hinside] at hin
          exact hji (Core.inside.inj hin).symm
        simp only [afterErase, Function.update_of_ne husb]
        exact hin

/-- Another alternate setting, which has the endpoints that refer to the interface. -/
theorem Sound.setAlt (h : Sound cfg s) {alt : List ℕ} (hstored : ∀ c, s.ep c = some i → c ∈ alt) :
    Sound cfg (s.modify i fun intf => { intf with alt := alt }) := by
  have hfield : ∀ j, (Function.update s.intfs i { s.intfs i with alt := alt } j).usb =
      (s.intfs j).usb ∧ (Function.update s.intfs i { s.intfs i with alt := alt } j).numUsers =
      (s.intfs j).numUsers ∧ (Function.update s.intfs i { s.intfs i with alt := alt } j).freed =
      (s.intfs j).freed ∧
      (Function.update s.intfs i { s.intfs i with alt := alt } j).flagLock =
        (s.intfs j).flagLock ∧
      (Function.update s.intfs i { s.intfs i with alt := alt } j).changeFlag =
        (s.intfs j).changeFlag := by
    intro j
    by_cases hj : j = i
    · simp [hj]
    · simp [hj]
  refine ⟨?_, h.releases, h.erased, ?_, ?_, ?_, ?_, ?_, ?_, ?_, ?_⟩
  · intro j hj
    simp only [State.modify, (hfield j).2.2.1, (hfield j).2.1] at hj ⊢
    exact h.counts j hj
  · intro j hj
    simp only [State.modify, (hfield j).2.2.1]
    exact h.fresh j hj
  · intro c j hc
    obtain ⟨hlt, hlive, hmatch⟩ := h.stored c j hc
    simp only [State.modify, (hfield j).2.2.1]
    refine ⟨hlt, hlive, ?_⟩
    by_cases hji : j = i
    · subst hji
      simp only [isEndpoint, decide_eq_true_eq, Function.update_self] at hmatch ⊢
      exact ⟨hmatch.1, hstored c hc⟩
    · rw [Function.update_of_ne hji]
      exact hmatch
  · intro p hp
    simp only [State.modify, (hfield p.1).2.2.1]
    exact h.settings p hp
  · intro u j hu
    simp only [State.modify, (hfield j).2.2.1, (hfield j).1]
    exact h.bound u j hu
  · intro u j hu
    simp only [State.modify, (hfield j).2.2.1, (hfield j).1]
    exact h.core u j hu
  · intro j hj
    simp only [State.modify, (hfield j).2.2.1, (hfield j).1, (hfield j).2.2.2.1] at hj ⊢
    exact h.live j hj
  · intro j j' hj hj' hu
    simp only [State.modify, (hfield j).2.2.1, (hfield j').2.2.1, (hfield j).1, (hfield j').1]
      at hj hj' hu
    exact h.unique j j' hj hj' hu
  · intro j sec hsec
    simp only [State.modify, (hfield j).2.2.2.1] at hsec
    obtain ⟨hslive, hflag, halone, hinside, hshape, hgone⟩ := h.sections j sec hsec
    refine ⟨?_, ?_, halone, ?_, hshape, hgone⟩
    · simp only [State.modify, (hfield j).2.2.1]
      exact hslive
    · simp only [State.modify, (hfield j).2.2.2.2]
      exact hflag
    · simp only [State.modify, (hfield j).1]
      exact hinside

theorem Sound.usbSetInterface (h : Sound cfg s) {caller : Caller} {fails : Bool}
    (hstored : ∀ alt, caller = .epSet alt → fails = false →
      ∀ c < cfg.chans, s.ep c = some i → c ∈ alt) :
    Sound cfg (UsbIntf.usbSetInterface s i caller fails) := by
  cases caller with
  | disconnect => exact h
  | preReset => exact h
  | epSet alt =>
    simp only [UsbIntf.usbSetInterface]
    split
    · exact h
    · rename_i hfails
      refine h.setAlt fun c hc => hstored alt rfl (by simpa using hfails) c (h.stored c i hc).1 hc

/-- `flag_lock` is unlocked with the flag cleared before. -/
theorem Sound.unlock (h : Sound cfg s) {caller : Caller} {exclusive : Bool}
    (hsec : (s.intfs i).flagLock = some ⟨caller, .unlock, exclusive⟩)
    (hcaller : caller ≠ .disconnect) :
    Sound cfg (afterUnlock (s.modify i fun intf => { intf with flagLock := none }) i caller) := by
  have hs := h.sections i _ hsec
  have hopen : Sound cfg (s.modify i fun intf => { intf with flagLock := none }) := by
    refine h.modifyLock ⟨rfl, rfl, rfl, rfl⟩ (fun _ => Or.inl (h.still_bound hsec hcaller)) ?_
    intro sec hnone
    cases hnone
  cases caller with
  | disconnect => exact hopen
  | epSet alt => exact hopen
  | preReset =>
    have hinside := hs.inside (Or.inr rfl)
    have husb : ((s.modify i fun intf => { intf with flagLock := none }).intfs i).usb =
        (s.intfs i).usb := by
      simp [State.modify]
    simp only [afterUnlock, husb]
    refine hopen.frame (fun _ => Same.refl _) rfl rfl rfl rfl hopen.settings (fun _ _ => id) ?_
      hopen.live ?_
    · intro v j hv
      dsimp only at hv
      by_cases hvu : v = (s.intfs i).usb
      · rw [hvu, Function.update_self] at hv
        cases hv
      · rw [Function.update_of_ne hvu] at hv
        exact hopen.core v j hv
    · intro j sec hj
      refine (hopen.sections j sec hj).frame (Same.refl _) rfl (fun _ hu _ => hu) ?_ (fun _ => id)
        (fun _ _ => id)
      intro hin
      -- it is the core's section, and it is over
      have hji : j ≠ i := by
        rintro rfl
        simp [State.modify] at hj
      have hne : ((s.modify i fun intf => { intf with flagLock := none }).intfs j).usb ≠
          (s.intfs i).usb := by
        intro heq
        rw [heq] at hin
        exact hji (Core.inside.inj (hin.symm.trans hinside))
      dsimp only
      rw [Function.update_of_ne hne]
      exact hin

theorem Sound.lockNext (h : Sound cfg s) {fails : Bool} (hC : Calm cfg s (.lockNext i fails)) :
    Sound cfg (lockNext cfg s i fails) := by
  unfold UsbIntf.lockNext
  cases hsec : (s.intfs i).flagLock with
  | none => exact h
  | some sec =>
    have hs := h.sections i sec hsec
    have hCs := hC sec hsec
    obtain ⟨caller, phase, exclusive⟩ := sec
    -- after the store is erased it is another caller's section
    have hother : phase ≠ .wait → (∀ c, phase ≠ .erase c) → caller ≠ .disconnect := by
      rintro hw he rfl
      rcases hs.shape rfl with hp | ⟨c, hp⟩
      · exact hw hp
      · exact he c hp
    cases phase with
    | held => exact h
    | abandoned => exact h
    | wait =>
      dsimp only
      split
      · rename_i hzero
        exact h.afterWait hsec fun _ => h.nobody hs.live hzero
      split
      · exact h.afterWait hsec (by simp)
      · exact h
    | erase c =>
      dsimp only
      split
      · rename_i hc
        obtain ⟨herase, hintfs, hgone⟩ := h.eraseOne (hCs.1 hc)
        exact herase.eraseNext (by rw [hintfs]; exact hsec) hgone
      · rename_i hc
        cases caller with
        | disconnect => exact h.free hsec (not_lt.mp hc) (hCs.2 (not_lt.mp hc) rfl)
        | preReset =>
          exact h.setSection hsec (by simp) (by simp) Or.inr hs.alone
        | epSet alt =>
          exact h.setSection hsec (by simp) (by simp) Or.inr hs.alone
    | set =>
      have hset : Sound cfg (UsbIntf.usbSetInterface s i caller fails) := by
        refine h.usbSetInterface ?_
        rintro alt rfl hf
        exact hCs hf alt rfl
      have hlock : ((UsbIntf.usbSetInterface s i caller fails).intfs i).flagLock =
          some ⟨caller, .set, exclusive⟩ ∧
          (UsbIntf.usbSetInterface s i caller fails).users = s.users := by
        unfold UsbIntf.usbSetInterface
        split
        · split
          · exact ⟨hsec, rfl⟩
          · simp [State.modify, hsec]
        · exact ⟨hsec, rfl⟩
      refine hset.setSection hlock.1 (hother (by simp) (by simp)) (by simp) Or.inr ?_
      rw [hlock.2]
      exact hs.alone
    | fill c =>
      dsimp only
      split
      · rename_i hc
        have hcaller := hother (by simp) (by simp)
        have hfill := h.fillOne hc hs.live (by
          intro sec' hsec'
          rw [hsec] at hsec'
          cases hsec'
          exact hcaller)
        have hsame : (UsbIntf.fillOne cfg s i c).intfs = s.intfs ∧
            (UsbIntf.fillOne cfg s i c).users = s.users := by
          unfold UsbIntf.fillOne
          split <;> exact ⟨rfl, rfl⟩
        refine hfill.setSection (by rw [hsame.1]; exact hsec) hcaller (by simp) Or.inr ?_
        rw [hsame.2]
        exact hs.alone
      · exact h.setSection hsec (hother (by simp) (by simp)) (by simp) Or.inr hs.alone
    | available =>
      dsimp only
      split
      · exact h
      · have hcaller := hother (by simp) (by simp)
        refine h.modifyLock ⟨rfl, rfl, rfl, rfl⟩
          (fun _ => Or.inl (h.still_bound hsec hcaller)) ?_
        intro sec heq
        obtain rfl := Option.some.inj heq
        refine ⟨?_, by simp, by simp, ?_, fun hd => absurd hd hcaller, by simp⟩
        · simpa [State.modify] using hs.live
        · simpa [State.modify] using hs.inside
    | unlock => exact h.unlock hsec (hother (by simp) (by simp))

theorem Sound.probe (h : Sound cfg s) (u : ℕ) (alt : List ℕ) : Sound cfg (probe s u alt) := by
  unfold UsbIntf.probe
  split
  · rename_i hfree
    obtain ⟨hbound, hcore⟩ := hfree
    -- the new interface is none of those known
    have hnew : (s.intfs s.count).freed = true := h.fresh s.count (le_refl _)
    have hne : ∀ j, (s.intfs j).freed = false → j ≠ s.count := by
      rintro j hj rfl
      rw [hnew] at hj
      cases hj
    have husb : ∀ j, (s.intfs j).freed = false → (s.intfs j).usb ≠ u := by
      rintro j hj rfl
      rcases h.live j hj with hb | ⟨c, e, he⟩
      · rw [hbound] at hb
        cases hb
      · have hin := (h.sections j _ he).inside (Or.inl rfl)
        rw [hcore] at hin
        cases hin
    have hold : ∀ j, j ≠ s.count → Function.update s.intfs s.count
        { Intf.unallocated with usb := u, alt := alt, freed := false } j = s.intfs j :=
      fun j hj => Function.update_of_ne hj _ _
    refine ⟨?_, h.releases, h.erased, ?_, ?_, ?_, ?_, ?_, ?_, ?_, ?_⟩
    · intro j hj
      by_cases hjc : j = s.count
      · subst hjc
        simp only [Function.update_self]
        symm
        rw [List.countP_eq_zero.mpr]
        · rfl
        · intro user hu
          simpa using hne _ (h.user_live hu)
      · simp only [hold j hjc] at hj ⊢
        exact h.counts j hj
    · intro j hj
      have hjc : j ≠ s.count := by
        dsimp only at hj
        omega
      simp only [hold j hjc]
      exact h.fresh j (by dsimp only at hj; omega)
    · intro c j hc
      have hj := h.stored c j hc
      simp only [hold j (hne j hj.2.1)]
      exact hj
    · intro p hp
      have hj := h.settings p hp
      simp only [hold p.1 (hne p.1 hj)]
      exact hj
    · intro v j hv
      by_cases hvu : v = u
      · simp only [hvu, Function.update_self] at hv
        obtain rfl := Option.some.inj hv
        simp [hvu]
      · simp only [Function.update_of_ne hvu] at hv
        have hj := h.bound v j hv
        simp only [hold j (hne j hj.1)]
        exact hj
    · intro v j hv
      by_cases hvu : v = u
      · simp only [hvu, Function.update_self] at hv
        obtain rfl := Option.some.inj hv
        simp [hvu]
      · simp only [Function.update_of_ne hvu] at hv
        have hj := h.core v j hv
        simp only [hold j (hne j hj.1)]
        exact hj
    · intro j hj
      by_cases hjc : j = s.count
      · subst hjc
        simp
      · simp only [hold j hjc] at hj ⊢
        rw [Function.update_of_ne (husb j hj)]
        exact h.live j hj
    · intro j j' hj hj' heq
      by_cases hjc : j = s.count
      · by_cases hjc' : j' = s.count
        · rw [hjc, hjc']
        · simp only [hjc, Function.update_self, hold j' hjc'] at hj' heq
          exact absurd heq.symm (husb j' hj')
      · by_cases hjc' : j' = s.count
        · simp only [hjc', Function.update_self, hold j hjc] at hj heq
          exact absurd heq (husb j hj)
        · simp only [hold j hjc, hold j' hjc'] at hj hj' heq
          exact h.unique j j' hj hj' heq
    · intro j sec hsec
      by_cases hjc : j = s.count
      · simp [hjc, Intf.unallocated] at hsec
      · simp only [hold j hjc] at hsec
        have hs := h.sections j sec hsec
        refine hs.frame ?_ ?_ (fun _ hu _ => hu) ?_ ?_ (fun _ _ => id)
        · simp only [hold j hjc]
          exact Same.refl _
        · simp only [hold j hjc]
        · exact inside_update (by simp [hcore])
        · intro v hv
          by_cases hvu : v = u
          · simp only [hvu, Function.update_self] at hv
            exact absurd (Option.some.inj hv).symm hjc
          · simpa only [Function.update_of_ne hvu] using hv
  · exact h

theorem Sound.step (h : Sound cfg s) {e : Event} (hC : Calm cfg s e) :
    ∃ t, step cfg s e = .ok t ∧ Sound cfg t := by
  cases e with
  | hold c => exact h.epHoldIntf hC
  | release k => exact h.epReleaseIntf k _ fun _ _ _ ht => ht
  | submit k =>
    refine ⟨_, rfl, ?_⟩
    unfold submit
    split
    · exact h
    · exact h.setUrbs _
  | complete c => exact ⟨_, rfl, h.setUrbs _⟩
  | probe u alt => exact ⟨_, rfl, h.probe u alt⟩
  | disconnect u => exact ⟨_, rfl, h.coreCall u .disconnect⟩
  | preReset u => exact ⟨_, rfl, h.coreCall u .preReset⟩
  | postReset u => exact ⟨_, rfl, h.postReset u⟩
  | coreNext u => exact h.coreNext u
  | epSet k alt =>
    refine h.epReleaseIntf k (fun i s => { s with settings := s.settings ++ [(i, alt)] })
      fun i t hlive ht => ?_
    refine ht.frame (fun _ => Same.refl _) rfl rfl rfl rfl ?_ (fun _ _ => id) ht.core ht.live ?_
    · intro p hp
      rcases List.mem_append.mp hp with hp | hp
      · exact ht.settings p hp
      · rw [List.mem_singleton.mp hp]
        exact hlive
    · intro j sec hsec
      exact (ht.sections j sec hsec).frame (Same.refl _) rfl (fun _ hu _ => hu) id (fun _ => id)
        (fun _ _ => id)
  | epSetNext k => exact h.epSetNext k
  | lockNext i fails => exact ⟨_, rfl, h.lockNext hC⟩

/-- A run whose steps are calm meets no fault, and the users of the interfaces are counted and kept
apart from those who change them in every state. -/
theorem guarded_of_calm (cfg : Config) (es : List Event) (h : Along (step cfg) (Calm cfg) init es) :
    ∀ es₁ es₂, es = es₁ ++ es₂ → ∃ t, run (step cfg) init es₁ = .ok t ∧ Guarded t := by
  rintro es₁ es₂ rfl
  obtain ⟨t, ht, hI⟩ := run_completes (fun s e (hs : Sound cfg s) hC => hs.step hC) sound_init
    (along_append.mp h).1
  exact ⟨t, ht, hI.guarded⟩

instance (fails : Bool) (sec : Section) : Decidable (CalmSection cfg s i fails sec) :=
  match sec with
  | ⟨caller, .erase c, _⟩ => inferInstanceAs (Decidable (
      (c < cfg.chans → isEndpoint cfg (s.intfs i) c = true →
        s.urbs c = 0 ∧ ∀ user ∈ s.users, user.chan ≠ c) ∧
      (cfg.chans ≤ c → caller = .disconnect → ∀ p ∈ s.settings, p.1 ≠ i)))
  | ⟨caller, .set, _⟩ => inferInstanceAs (Decidable (fails = false →
      ∀ alt ∈ caller.alt, ∀ c < cfg.chans, s.ep c = some i → c ∈ alt))
  | ⟨_, .wait, _⟩ | ⟨_, .held, _⟩ | ⟨_, .fill _, _⟩ | ⟨_, .available, _⟩ | ⟨_, .unlock, _⟩
  | ⟨_, .abandoned, _⟩ => isTrue trivial

instance (e : Event) : Decidable (Calm cfg s e) :=
  match e with
  | .hold c => inferInstanceAs (Decidable (∀ i ∈ s.ep c, (s.intfs i).changeFlag = false →
      (s.intfs i).numUsers ≠ 255))
  | .lockNext i fails => inferInstanceAs (Decidable (∀ sec ∈ (s.intfs i).flagLock,
      CalmSection cfg s i fails sec))
  | .release _ | .submit _ | .complete _ | .probe .. | .disconnect _ | .preReset _ | .postReset _
  | .coreNext _ | .epSet .. | .epSetNext _ => isTrue trivial

/-- Two endpoints of one USB interface. -/
def twoEndpoints : Config := ⟨2, fun _ => 0⟩

/-- The interface is probed, used, given another alternate setting and reset, and disconnected. -/
def sampleUse : List Event :=
  [.probe 0 [0], .coreNext 0, .coreNext 0, .coreNext 0, .hold 0, .submit 0, .complete 0,
    .epSet 0 [0, 1], .epSetNext 0, .lockNext 0 false, .lockNext 0 false, .lockNext 0 false,
    .lockNext 0 false, .lockNext 0 false, .lockNext 0 false, .lockNext 0 false, .lockNext 0 false,
    .lockNext 0 false, .lockNext 0 false, .hold 1, .preReset 0, .coreNext 0, .release 0,
    .lockNext 0 false, .postReset 0, .lockNext 0 false, .lockNext 0 false, .disconnect 0,
    .coreNext 0, .lockNext 0 false, .lockNext 0 false, .lockNext 0 false, .lockNext 0 false]

theorem sampleUse_guarded : ∃ t, run (step twoEndpoints) init sampleUse = .ok t ∧ Guarded t :=
  guarded_of_calm twoEndpoints sampleUse (by decide) sampleUse [] (List.append_nil _).symm

/-- A URB is left to an endpoint that is erased; and a user that is inside when the wait of
`wcn_usb_io_disconnect` times out releases an interface that its endpoint does not refer to. -/
theorem disconnect_leaves_urbs :
    (∃ t, run (step twoEndpoints) init [.probe 0 [0], .coreNext 0, .coreNext 0, .coreNext 0,
        .hold 0, .submit 0, .release 0, .disconnect 0, .coreNext 0, .lockNext 0 false,
        .lockNext 0 false] = .ok t ∧ ¬ Guarded t) ∧
    run (step twoEndpoints) init [.probe 0 [0], .coreNext 0, .coreNext 0, .coreNext 0, .hold 0,
      .disconnect 0, .coreNext 0, .lockNext 0 true, .lockNext 0 false, .release 0] =
        .error .nullPointer := by
  refine ⟨⟨_, rfl, fun h => ?_⟩, rfl⟩
  exact absurd (h.erased (0, 1) (by decide)) (by decide)

end Uwe5631.UsbIntf
