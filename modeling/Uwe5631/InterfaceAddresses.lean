import Uwe5631.MachineIntegers
import Mathlib.Data.List.Basic
import Mathlib.Data.Vector.Basic

/-!
# The addresses of the interfaces

`sprdwl_register_netdev` and `sprdwl_register_wdev` give an interface its Ethernet address.
It is taken from the first valid one of four sources and then told apart by the type. What
is said about two addresses speaks of the addresses they were made from.
-/
namespace Uwe5631.Ifaces

abbrev MacAddr := Vector (BitVec 8) 6

/-- `is_multicast_ether_addr` -/
def isMulticastEtherAddr (addr : MacAddr) : Bool := addr[0].getLsbD 0

/-- `is_valid_ether_addr` -/
def isValidEtherAddr (addr : MacAddr) : Bool :=
  !isMulticastEtherAddr addr && addr != Vector.replicate 6 0

/-- `enum nl80211_iftype` -/
inductive Iftype where
  | station
  | ap
  | p2pClient
  | p2pGo
  | p2pDevice
  | other (n : ℕ)
  deriving DecidableEq, Repr

/-- The defines the driver is built with. -/
structure Build where
  staSoftapSccMode : Bool
  configP2pIntf : Bool
  deriving DecidableEq, Repr

/-- `struct sprdwl_priv`: the address the firmware reported and the one given before. -/
structure Priv where
  macAddr : MacAddr
  defaultMac : MacAddr
  deriving DecidableEq, Repr

/-- The files of `sprdwl_get_mac_from_file`: one of them is there, or an address is drawn. -/
inductive MacFile where
  | found (addr : MacAddr)
  | missing (drawn : MacAddr)
  deriving DecidableEq, Repr

/-- `sprdwl_get_mac_from_file`. An address that is not valid is reported and kept. -/
def sprdwlGetMacFromFile : MacFile → MacAddr
  | .found addr => addr
  | .missing drawn => ((drawn.set 0 0x40).set 1 0x45).set 2 0xda

/-- The first half of `sprdwl_set_mac_addr`: the address, and `default_mac_valid`. -/
def baseAddr (b : Build) (priv : Priv) (pendingAddr : Option MacAddr) (file : MacFile) :
    MacAddr × Bool :=
  if isValidEtherAddr priv.macAddr then (priv.macAddr, b.staSoftapSccMode)
  else if (pendingAddr.map isValidEtherAddr).getD false then
    (pendingAddr.getD (Vector.replicate 6 0), false)
  else if isValidEtherAddr priv.defaultMac then (priv.defaultMac, true)
  else (sprdwlGetMacFromFile file, false)

/-- The `switch` of `sprdwl_set_mac_addr`. -/
def typeAddr (priv : Priv) (type : Iftype) (addr : MacAddr) (defaultMacValid : Bool) :
    MacAddr × Priv :=
  match type with
  | .station => (addr, { priv with defaultMac := addr })
  | .ap =>
    if defaultMacValid then (addr.set 0 ((addr[0] ^^^ 0x10) ||| 0x02), priv)
    else (addr, { priv with defaultMac := addr })
  | .p2pClient | .p2pGo =>
    -- the case falls through
    ((addr.set 4 (addr[4] ^^^ 0x80)).set 0 (addr[0] ^^^ 0x02), priv)
  | .p2pDevice => (addr.set 0 (addr[0] ^^^ 0x02), priv)
  | .other _ => (addr, priv)

/-- `sprdwl_set_mac_addr` -/
def sprdwlSetMacAddr (b : Build) (priv : Priv) (type : Iftype) (pendingAddr : Option MacAddr)
    (file : MacFile) : MacAddr × Priv :=
  let base := baseAddr b priv pendingAddr file
  typeAddr priv type base.1 base.2

/-- An interface. What its address was made from is recorded beside it. -/
structure Vif where
  iftype : Iftype
  address : MacAddr
  registered : Iftype
  base : MacAddr
  defaultMacValid : Bool
  deriving DecidableEq, Repr

structure State where
  priv : Priv
  vifs : List Vif
  deriving DecidableEq, Repr

/-- How far `sprdwl_register_netdev` gets. -/
inductive Outcome where
  /-- There is no memory for the device or its filter. -/
  | noMemory
  /-- `register_netdevice` fails. -/
  | notRegistered
  | registered
  deriving DecidableEq, Repr

inductive Event where
  /-- The firmware reports its address, or none. -/
  | fwInfo (macAddr : MacAddr)
  | registerNetdev (type : Iftype) (addr : Option MacAddr) (file : MacFile) (outcome : Outcome)
  | registerWdev (type : Iftype) (addr : Option MacAddr) (file : MacFile) (allocated : Bool)
  /-- `sprdwl_del_iface` -/
  | delIface (i : ℕ)
  deriving DecidableEq, Repr

def newVif (b : Build) (priv : Priv) (iftype type : Iftype) (addr : Option MacAddr)
    (file : MacFile) : Vif :=
  { iftype := iftype
    address := (sprdwlSetMacAddr b priv type addr file).1
    registered := type
    base := (baseAddr b priv addr file).1
    defaultMacValid := (baseAddr b priv addr file).2 }

/-- `sprdwl_register_netdev` -/
def sprdwlRegisterNetdev (b : Build) (s : State) (type : Iftype) (addr : Option MacAddr)
    (file : MacFile) (outcome : Outcome) : State :=
  let iftype := if b.configP2pIntf ∧ type = .p2pDevice then .station else type
  match outcome with
  | .noMemory => s
  | .notRegistered => { s with priv := (sprdwlSetMacAddr b s.priv type addr file).2 }
  | .registered =>
    { priv := (sprdwlSetMacAddr b s.priv type addr file).2
      vifs := s.vifs ++ [newVif b s.priv iftype type addr file] }

/-- `sprdwl_register_wdev`, which is not built with `CONFIG_P2P_INTF`. -/
def sprdwlRegisterWdev (b : Build) (s : State) (type : Iftype) (addr : Option MacAddr)
    (file : MacFile) (allocated : Bool) : State :=
  if b.configP2pIntf ∨ allocated = false then s
  else
    { priv := (sprdwlSetMacAddr b s.priv type addr file).2
      vifs := s.vifs ++ [newVif b s.priv type type addr file] }

def step (b : Build) (s : State) : Event → State
  | .fwInfo macAddr => { s with priv := { s.priv with macAddr := macAddr } }
  | .registerNetdev type addr file outcome => sprdwlRegisterNetdev b s type addr file outcome
  | .registerWdev type addr file allocated => sprdwlRegisterWdev b s type addr file allocated
  | .delIface i => { s with vifs := s.vifs.eraseIdx i }

/-- The state after a sequence of events; no interface is there before it. -/
def run (b : Build) (priv : Priv) (es : List Event) : State := es.foldl (step b) ⟨priv, []⟩

/-! ## What an address is made of -/

/-- The ways in which the `switch` changes an address. -/
inductive Flip where
  | keep
  | ap
  | device
  | client
  deriving DecidableEq, Repr

def Flip.apply (addr : MacAddr) : Flip → MacAddr
  | .keep => addr
  | .ap => addr.set 0 ((addr[0] ^^^ 0x10) ||| 0x02)
  | .device => addr.set 0 (addr[0] ^^^ 0x02)
  | .client => (addr.set 4 (addr[4] ^^^ 0x80)).set 0 (addr[0] ^^^ 0x02)

def Iftype.flip (defaultMacValid : Bool) : Iftype → Flip
  | .station | .other _ => .keep
  | .ap => if defaultMacValid then .ap else .keep
  | .p2pClient | .p2pGo => .client
  | .p2pDevice => .device

theorem typeAddr_flip (priv : Priv) (type : Iftype) (addr : MacAddr) (defaultMacValid : Bool) :
    (typeAddr priv type addr defaultMacValid).1 = (type.flip defaultMacValid).apply addr := by
  cases type with
  | ap => cases defaultMacValid <;> rfl
  | station | p2pClient | p2pGo | p2pDevice | other => rfl

theorem Flip.apply_0 (addr : MacAddr) (f : Flip) : (f.apply addr)[0] =
    match f with
    | .keep => addr[0]
    | .ap => (addr[0] ^^^ 0x10) ||| 0x02
    | .device | .client => addr[0] ^^^ 0x02 := by
  cases f <;> simp [Flip.apply]

theorem Flip.apply_4 (addr : MacAddr) (f : Flip) : (f.apply addr)[4] =
    match f with
    | .client => addr[4] ^^^ 0x80
    | _ => addr[4] := by
  cases f <;> simp [Flip.apply]

/-- The bytes between are those of the address. -/
theorem Flip.apply_other (addr : MacAddr) (f : Flip) {i : ℕ} (hi : i < 6) (h0 : i ≠ 0) (h4 : i ≠ 4) :
    (f.apply addr)[i] = addr[i] := by
  cases f <;> simp [Flip.apply, h0.symm, h4.symm]

/-- The bits that an address leaves to the types: `0x12` of the first byte, `0x80` of the fifth. -/
structure SameElsewhere (a b : MacAddr) : Prop where
  first : a[0] &&& 0xed = b[0] &&& 0xed
  fifth : a[4] &&& 0x7f = b[4] &&& 0x7f
  other : ∀ i (_ : i < 6), i ≠ 0 → i ≠ 4 → a[i] = b[i]

theorem Flip.apply_sameElsewhere (addr : MacAddr) (f : Flip) : SameElsewhere (f.apply addr) addr where
  first := by
    rw [Flip.apply_0]
    generalize addr[0] = x
    cases f
    · rfl
    · exact (by decide : ∀ x : BitVec 8, ((x ^^^ 0x10) ||| 0x02) &&& 0xed = x &&& 0xed) x
    · exact (by decide : ∀ x : BitVec 8, (x ^^^ 0x02) &&& 0xed = x &&& 0xed) x
    · exact (by decide : ∀ x : BitVec 8, (x ^^^ 0x02) &&& 0xed = x &&& 0xed) x
  fifth := by
    rw [Flip.apply_4]
    generalize addr[4] = x
    cases f
    · rfl
    · rfl
    · rfl
    · exact (by decide : ∀ x : BitVec 8, (x ^^^ 0x80) &&& 0x7f = x &&& 0x7f) x
  other i hi h0 h4 := Flip.apply_other addr f hi h0 h4

theorem SameElsewhere.symm {a b : MacAddr} (h : SameElsewhere a b) : SameElsewhere b a :=
  ⟨h.first.symm, h.fifth.symm, fun i hi h0 h4 => (h.other i hi h0 h4).symm⟩

theorem SameElsewhere.trans {a b c : MacAddr} (h : SameElsewhere a b) (h' : SameElsewhere b c) :
    SameElsewhere a c :=
  ⟨h.first.trans h'.first, h.fifth.trans h'.fifth,
    fun i hi h0 h4 => (h.other i hi h0 h4).trans (h'.other i hi h0 h4)⟩

/-- Different flips of one address are different. -/
theorem Flip.apply_injective (addr : MacAddr) : Function.Injective (Flip.apply addr) := by
  have hap : ∀ x : BitVec 8, (x ^^^ 0x10) ||| 0x02 ≠ x ∧ (x ^^^ 0x10) ||| 0x02 ≠ x ^^^ 0x02 := by
    decide
  have hdevice : ∀ x : BitVec 8, x ^^^ 0x02 ≠ x := by decide
  have hclient : ∀ x : BitVec 8, x ^^^ 0x80 ≠ x := by decide
  intro f g h
  have h0 : (f.apply addr)[0] = (g.apply addr)[0] := by rw [h]
  have h4 : (f.apply addr)[4] = (g.apply addr)[4] := by rw [h]
  rw [Flip.apply_0, Flip.apply_0] at h0
  rw [Flip.apply_4, Flip.apply_4] at h4
  have ha := hap addr[0]
  have hd := hdevice addr[0]
  have hc := hclient addr[4]
  cases f <;> cases g <;> first
    | rfl
    | exact absurd h4 hc
    | exact absurd h4.symm hc
    | exact absurd h0 ha.1
    | exact absurd h0.symm ha.1
    | exact absurd h0 ha.2
    | exact absurd h0.symm ha.2
    | exact absurd h0 hd
    | exact absurd h0.symm hd

/-- A flip does not make an address multicast. -/
theorem Flip.apply_multicast (addr : MacAddr) (f : Flip) :
    isMulticastEtherAddr (f.apply addr) = isMulticastEtherAddr addr := by
  have hap : ∀ x : BitVec 8, ((x ^^^ 0x10) ||| 0x02).getLsbD 0 = x.getLsbD 0 := by decide
  have hdevice : ∀ x : BitVec 8, (x ^^^ 0x02).getLsbD 0 = x.getLsbD 0 := by decide
  rw [isMulticastEtherAddr, isMulticastEtherAddr, Flip.apply_0]
  cases f
  · rfl
  · exact hap _
  · exact hdevice _
  · exact hdevice _

/-- A flip gives the address zero from one address at most. -/
theorem Flip.apply_eq_zero {addr : MacAddr} (hvalid : isValidEtherAddr addr = true) (f : Flip) :
    f.apply addr = Vector.replicate 6 0 ↔
      f = .device ∧ addr = #v[2, 0, 0, 0, 0, 0] ∨ f = .client ∧ addr = #v[2, 0, 0, 0, 0x80, 0] := by
  have hdevice : (Flip.device.apply addr).set 0 ((Flip.device.apply addr)[0] ^^^ 0x02) = addr := by
    simp [Flip.apply]
  have hclient : Flip.client.apply (Flip.client.apply addr) = addr := by
    simp [Flip.apply, Vector.set_comm]
  cases f with
  | keep =>
    have hne : addr ≠ Vector.replicate 6 0 := by
      simp only [isValidEtherAddr, Bool.and_eq_true, bne_iff_ne] at hvalid
      exact hvalid.2
    simpa [Flip.apply] using hne
  | ap =>
    have hap : ∀ x : BitVec 8, (x ^^^ 0x10) ||| 0x02 ≠ 0 := by decide
    have hne : Flip.ap.apply addr ≠ Vector.replicate 6 0 := by
      intro h
      have h0 : (Flip.ap.apply addr)[0] = 0 := by rw [h]; rfl
      rw [Flip.apply_0] at h0
      exact hap _ h0
    simpa using hne
  | device =>
    have hiff : Flip.device.apply addr = Vector.replicate 6 0 ↔ addr = #v[2, 0, 0, 0, 0, 0] := by
      constructor
      · intro h
        rw [h] at hdevice
        rw [← hdevice]
        decide
      · rintro rfl
        decide
    simpa using hiff
  | client =>
    have hiff : Flip.client.apply addr = Vector.replicate 6 0 ↔
        addr = #v[2, 0, 0, 0, 0x80, 0] := by
      constructor
      · intro h
        rw [h] at hclient
        rw [← hclient]
        decide
      · rintro rfl
        decide
    simpa using hiff

/-! ## Along a run -/

/-- The file an event may read. -/
def Event.file : Event → Option MacFile
  | .registerNetdev _ _ file _ | .registerWdev _ _ file _ => some file
  | _ => none

/-- How the recorded base and type make the address. `Held` are the addresses of the files. -/
structure Made (b : Build) (Held : MacAddr → Prop) (v : Vif) : Prop where
  address : v.address = (v.registered.flip v.defaultMacValid).apply v.base
  iftype : v.iftype =
    if b.configP2pIntf = true ∧ v.registered = .p2pDevice then .station else v.registered
  valid : isValidEtherAddr v.base = true ∨ Held v.base

theorem drawn_valid (drawn : MacAddr) :
    isValidEtherAddr (sprdwlGetMacFromFile (.missing drawn)) = true := by
  have h0 : (sprdwlGetMacFromFile (.missing drawn))[0] = 0x40 := by
    simp [sprdwlGetMacFromFile]
  have hne : sprdwlGetMacFromFile (.missing drawn) ≠ Vector.replicate 6 0 := by
    intro h
    rw [h] at h0
    exact absurd h0 (by decide)
  rw [isValidEtherAddr, isMulticastEtherAddr, h0, bne_iff_ne.mpr hne]
  rfl

theorem baseAddr_valid (b : Build) (priv : Priv) (pendingAddr : Option MacAddr) (file : MacFile) :
    isValidEtherAddr (baseAddr b priv pendingAddr file).1 = true ∨
      file = .found (baseAddr b priv pendingAddr file).1 := by
  rw [baseAddr]
  split
  · exact .inl ‹_›
  · split
    · rename_i hpending
      cases pendingAddr with
      | none => cases hpending
      | some addr => exact .inl hpending
    · split
      · exact .inl ‹_›
      · cases file with
        | found addr => exact .inr rfl
        | missing drawn => exact .inl (drawn_valid drawn)

theorem newVif_made {Held : MacAddr → Prop} (b : Build) (priv : Priv) {iftype type : Iftype}
    (addr : Option MacAddr) {file : MacFile} (hheld : ∀ a, file = .found a → Held a)
    (htype : iftype = if b.configP2pIntf = true ∧ type = .p2pDevice then .station else type) :
    Made b Held (newVif b priv iftype type addr file) where
  address := typeAddr_flip priv type _ _
  iftype := htype
  valid := (baseAddr_valid b priv addr file).imp id (hheld _)

theorem step_made {b : Build} {Held : MacAddr → Prop} {s : State}
    (h : ∀ v ∈ s.vifs, Made b Held v) {e : Event}
    (hheld : ∀ a, e.file = some (.found a) → Held a) : ∀ v ∈ (step b s e).vifs, Made b Held v := by
  have hadd (v : Vif) (hv : Made b Held v) : ∀ w ∈ s.vifs ++ [v], Made b Held w := by
    intro w hw
    rcases List.mem_append.mp hw with hw | hw
    · exact h w hw
    · rw [List.mem_singleton.mp hw]
      exact hv
  cases e with
  | fwInfo macAddr => exact h
  | delIface i => exact fun v hv => h v (List.mem_of_mem_eraseIdx hv)
  | registerNetdev type addr file outcome =>
    cases outcome with
    | noMemory => exact h
    | notRegistered => exact h
    | registered =>
      exact hadd _ (newVif_made b s.priv addr (fun a ha => hheld a (congrArg some ha)) rfl)
  | registerWdev type addr file allocated =>
    rw [step, sprdwlRegisterWdev]
    split
    · exact h
    · rename_i hbuilt
      refine hadd _ (newVif_made b s.priv addr (fun a ha => hheld a (congrArg some ha)) ?_)
      rw [if_neg (fun h => hbuilt (.inl h.1))]

/-- The address stood in a file that one of the events read. -/
def HeldIn (es : List Event) (a : MacAddr) : Prop := ∃ e ∈ es, e.file = some (.found a)

theorem run_made (b : Build) (priv : Priv) (es : List Event) :
    ∀ v ∈ (run b priv es).vifs, Made b (HeldIn es) v := by
  have hrun (ds : List Event) (hds : ∀ e ∈ ds, e ∈ es) (s : State)
      (hs : ∀ v ∈ s.vifs, Made b (HeldIn es) v) :
      ∀ v ∈ (ds.foldl (step b) s).vifs, Made b (HeldIn es) v := by
    induction ds generalizing s with
    | nil => exact hs
    | cons e ds ih =>
      refine ih (fun d hd => hds d (List.mem_cons_of_mem _ hd)) _ (step_made hs ?_)
      exact fun a ha => ⟨e, hds e List.mem_cons_self, ha⟩
  exact hrun es (fun _ he => he) _ (fun v hv => by cases hv)

/-- A pair of types that an address does not tell apart: a P2P client and a P2P group owner,
and a station and an AP that is given an address which is not a default one. -/
def Undistinguished (v w : Vif) : Prop :=
  v.iftype = .p2pClient ∧ w.iftype = .p2pGo ∨
    v.registered = .station ∧ w.iftype = .ap ∧ w.defaultMacValid = false

/-- The address zero is made of this base. -/
def FlippedToZero (v : Vif) : Prop :=
  v.registered = .p2pDevice ∧ v.base = #v[2, 0, 0, 0, 0, 0] ∨
    (v.registered = .p2pClient ∨ v.registered = .p2pGo) ∧ v.base = #v[2, 0, 0, 0, 0x80, 0]

theorem flip_eq_iff {b : Build} {Held : MacAddr → Prop} {v w : Vif} (hv : Made b Held v)
    (hw : Made b Held w) (hne : v.iftype ≠ w.iftype) (hv' : ∀ n, v.iftype ≠ .other n)
    (hw' : ∀ n, w.iftype ≠ .other n) :
    v.registered.flip v.defaultMacValid = w.registered.flip w.defaultMacValid ↔
      Undistinguished v w ∨ Undistinguished w v := by
  obtain ⟨vtype, vaddr, vreg, vbase, vvalid⟩ := v
  obtain ⟨wtype, waddr, wreg, wbase, wvalid⟩ := w
  have hvtype := hv.iftype
  have hwtype := hw.iftype
  clear hv hw
  dsimp only at *
  generalize b.configP2pIntf = p2pIntf at hvtype hwtype
  cases p2pIntf with
  | false =>
    simp only [Bool.false_eq_true, false_and, if_false] at hvtype hwtype
    subst hvtype hwtype
    cases vvalid <;> cases wvalid <;> cases vtype <;> cases wtype <;>
      simp_all [Iftype.flip, Undistinguished]
  | true =>
    cases vvalid <;> cases wvalid <;> cases vreg <;> cases wreg <;>
      simp_all [Iftype.flip, Undistinguished]

theorem address_valid_iff {b : Build} {Held : MacAddr → Prop} {v : Vif} (hv : Made b Held v)
    (hbase : isValidEtherAddr v.base = true) :
    isValidEtherAddr v.address = true ↔ ¬ FlippedToZero v := by
  have hmulticast : isMulticastEtherAddr v.address = false := by
    rw [hv.address, Flip.apply_multicast]
    simp only [isValidEtherAddr, Bool.and_eq_true, Bool.not_eq_true'] at hbase
    exact hbase.1
  have hzero : v.address = Vector.replicate 6 0 ↔ FlippedToZero v := by
    rw [hv.address, Flip.apply_eq_zero hbase, FlippedToZero]
    cases v.registered with
    | ap => cases v.defaultMacValid <;> simp [Iftype.flip]
    | station | p2pClient | p2pGo | p2pDevice | other => simp [Iftype.flip]
  rw [isValidEtherAddr, hmulticast, ← hzero]
  simp

/-- In every run two interfaces of different types that were given one base have different
addresses unless their types are undistinguished, and so have two whose bases differ in a bit
that is not left to the types. The addresses are valid when the bases are, which only a
file can prevent. -/
theorem interface_addresses {b : Build} {priv : Priv} {es : List Event} {v w : Vif}
    (hv : v ∈ (run b priv es).vifs) (hw : w ∈ (run b priv es).vifs)
    (hne : v.iftype ≠ w.iftype) (hv' : ∀ n, v.iftype ≠ .other n) (hw' : ∀ n, w.iftype ≠ .other n) :
    (v.base = w.base → (v.address = w.address ↔ Undistinguished v w ∨ Undistinguished w v)) ∧
      (¬ SameElsewhere v.base w.base → v.address ≠ w.address) ∧
      (isValidEtherAddr v.base = true ∨ HeldIn es v.base) ∧
      (isValidEtherAddr v.base = true →
        (isValidEtherAddr v.address = true ↔ ¬ FlippedToZero v)) := by
  have hmv := run_made b priv es v hv
  have hmw := run_made b priv es w hw
  refine ⟨fun hbase => ?_, fun hdiffer haddr => hdiffer ?_, hmv.valid, address_valid_iff hmv⟩
  · rw [← flip_eq_iff hmv hmw hne hv' hw', hmv.address, hmw.address, hbase]
    exact (Flip.apply_injective w.base).eq_iff
  · have hv0 := Flip.apply_sameElsewhere v.base (v.registered.flip v.defaultMacValid)
    have hw0 := Flip.apply_sameElsewhere w.base (w.registered.flip w.defaultMacValid)
    rw [← hmv.address] at hv0
    rw [← hmw.address, ← haddr] at hw0
    exact hv0.symm.trans hw0

/-- A station, an AP, a P2P client and a group owner with the address of the firmware. -/
def fourInterfaces : List Event :=
  [.fwInfo #v[0x40, 0x45, 0xda, 1, 2, 3],
    .registerNetdev .station none (.missing #v[0, 0, 0, 0, 0, 0]) .registered,
    .registerNetdev .ap none (.missing #v[0, 0, 0, 0, 0, 0]) .registered,
    .registerNetdev .p2pClient none (.missing #v[0, 0, 0, 0, 0, 0]) .registered,
    .registerNetdev .p2pGo none (.missing #v[0, 0, 0, 0, 0, 0]) .registered]

def unset : Priv := ⟨Vector.replicate 6 0, Vector.replicate 6 0⟩

/-- The station and the client. -/
theorem interface_addresses_four : ∃ v w, v ∈ (run ⟨false, false⟩ unset fourInterfaces).vifs ∧
    w ∈ (run ⟨false, false⟩ unset fourInterfaces).vifs ∧ v.address ≠ w.address ∧
    ((v.base = w.base → (v.address = w.address ↔ Undistinguished v w ∨ Undistinguished w v)) ∧
      (¬ SameElsewhere v.base w.base → v.address ≠ w.address) ∧
      (isValidEtherAddr v.base = true ∨ HeldIn fourInterfaces v.base) ∧
      (isValidEtherAddr v.base = true →
        (isValidEtherAddr v.address = true ↔ ¬ FlippedToZero v))) := by
  have hv : (⟨.station, #v[0x40, 0x45, 0xda, 1, 2, 3], .station,
      #v[0x40, 0x45, 0xda, 1, 2, 3], false⟩ : Vif) ∈
        (run ⟨false, false⟩ unset fourInterfaces).vifs := by decide
  have hw : (⟨.p2pClient, #v[0x42, 0x45, 0xda, 1, 0x82, 3], .p2pClient,
      #v[0x40, 0x45, 0xda, 1, 2, 3], false⟩ : Vif) ∈
        (run ⟨false, false⟩ unset fourInterfaces).vifs := by decide
  exact ⟨_, _, hv, hw, by decide, interface_addresses hv hw (by decide)
    (fun n h => by cases h) (fun n h => by cases h)⟩

/-- The station has the address of the AP, and the client that of the group owner. -/
theorem station_and_ap_collide :
    (run ⟨false, false⟩ unset fourInterfaces).vifs.map (fun v => (v.iftype, v.address)) =
      [(.station, #v[0x40, 0x45, 0xda, 1, 2, 3]), (.ap, #v[0x40, 0x45, 0xda, 1, 2, 3]),
        (.p2pClient, #v[0x42, 0x45, 0xda, 1, 0x82, 3]),
        (.p2pGo, #v[0x42, 0x45, 0xda, 1, 0x82, 3])] := by
  decide

end Uwe5631.Ifaces
