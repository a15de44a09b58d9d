import Uwe5631.MachineIntegers
import Uwe5631.FallibleRuns
import Mathlib.Data.List.Nodup
import Mathlib.Data.List.Perm.Basic
import Mathlib.Data.Vector.Basic

/-!
# The multicast filter

`sprdwl_set_multicast` stores the device's list of multicast addresses and queues the work
that sends it to the firmware. The stored list is compared with the new one by a search
whose pointer is not set back, and one flag tells the work whether there is a change.
-/
namespace Uwe5631.Multicast
open FallibleRuns

abbrev EtherAddr := Vector (BitVec 8) 6

inductive Fault where
  /-- An access beyond `mac_addr`. -/
  | macAddr
  deriving DecidableEq, Repr

/-- `struct sprdwl_mc_filter`. The memory of `mac_addr` is longer than the list in it. -/
structure McFilter where
  mcChange : Bool
  macNum : ℕ
  macAddr : List EtherAddr
  deriving DecidableEq, Repr

/-- The list that is stored. -/
def McFilter.stored (f : McFilter) : List EtherAddr := f.macAddr.take f.macNum

/-- The multicast list of a device holds an address once. -/
structure McList where
  addrs : List EtherAddr
  nodup : addrs.Nodup

/-- The inner loop of `mc_address_changed`: `mac_addr` is left where the address is found. -/
def search (mem : List EtherAddr) (addr : EtherAddr) : ℕ → ℕ → Except Fault (Option ℕ)
  | 0, _ => .ok none
  | left + 1, ptr =>
    match mem[ptr]? with
    | none => .error .macAddr
    | some a => if addr = a then .ok (some ptr) else search mem addr left (ptr + 1)

/-- The outer loop, which does not set `mac_addr` back. -/
def searchAll (mem : List EtherAddr) (macNum : ℕ) : List EtherAddr → ℕ → Except Fault Bool
  | [], _ => .ok false
  | addr :: addrs, ptr => (search mem addr macNum ptr).bind fun
    | none => .ok true
    | some ptr => searchAll mem macNum addrs ptr

/-- `mc_address_changed`; `mc_count` has eight bits. -/
def mcAddressChanged (f : McFilter) (addrs : List EtherAddr) : Except Fault Bool :=
  if addrs.length % 2 ^ 8 ≠ f.macNum then .ok true
  else searchAll f.macAddr f.macNum addrs 0

def octet (addr : EtherAddr) (i : ℕ) : BitVec 8 := addr.toList.getD i 0

/-- An IPv6 or an IPv4 multicast address. -/
def Valid (addr : EtherAddr) : Prop :=
  octet addr 0 = 0x33 ∧ octet addr 1 = 0x33 ∨
    octet addr 0 = 0x01 ∧ octet addr 1 = 0x00 ∧ octet addr 2 = 0x5e ∧ octet addr 3 ≤ 0x7f

instance : DecidablePred Valid := fun _ =>
  inferInstanceAs (Decidable (_ ∧ _ ∨ _ ∧ _ ∧ _ ∧ _))

/-- The loop that stores the list, and whether it got to its end. -/
def copyAddrs (mem : List EtherAddr) : ℕ → List EtherAddr → Except Fault (List EtherAddr × Bool)
  | _, [] => .ok (mem, true)
  | i, addr :: addrs =>
    if Valid addr then
      if i < mem.length then copyAddrs (mem.set i addr) (i + 1) addrs else .error .macAddr
    else .ok (mem, false)

structure State where
  filter : McFilter
  /-- The works `SPRDWL_WORK_MC_FILTER` in the list. -/
  works : ℕ
  /-- The filter of the firmware. -/
  sent : List EtherAddr
  /-- The list of the last call that was accepted. -/
  wanted : List EtherAddr
  deriving DecidableEq, Repr

/-- The state after `sprdwl_register_netdev`. -/
def registered (maxMcMacAddrs : BitVec 8) : State :=
  { filter := ⟨false, 0, List.replicate maxMcMacAddrs.toNat (Vector.replicate 6 0)⟩
    works := 0, sent := [], wanted := [] }

/-- `sprdwl_alloc_work` and `sprdwl_queue_work` -/
def queueWork (s : State) (allocated : Bool) : State :=
  if allocated then { s with works := s.works + 1 } else s

/-- `sprdwl_set_multicast` -/
def sprdwlSetMulticast (maxMcMacAddrs : BitVec 8) (s : State) (multicast : Bool)
    (addrs : List EtherAddr) (allocated : Bool) : Except Fault State :=
  let mcCount := addrs.length % 2 ^ 8
  if maxMcMacAddrs.toNat < mcCount then .ok s
  else
    let f := { s.filter with mcChange := false }
    if multicast then
      (mcAddressChanged f addrs).bind fun
        | true => (copyAddrs f.macAddr 0 addrs).map fun
          | (mem, true) =>
            queueWork { s with filter := ⟨true, mcCount, mem⟩, wanted := addrs } allocated
          | (mem, false) => { s with filter := { f with macAddr := mem } }
        | false => .ok (queueWork { s with filter := f, wanted := addrs } allocated)
    else if f.macNum ≠ 0 then
      .ok (queueWork
        { s with filter := { f with macNum := 0, mcChange := true }, wanted := [] } allocated)
    else .ok (queueWork { s with filter := f, wanted := [] } allocated)

/-- One work of `sprdwl_do_work`; the command reaches the firmware or not. -/
def sprdwlDoWork (s : State) (delivered : Bool) : State :=
  if s.works = 0 then s
  else
    { s with
      works := s.works - 1
      sent := if s.filter.mcChange ∧ delivered then s.filter.stored else s.sent }

inductive Event where
  | setMulticast (multicast : Bool) (mc : McList) (allocated : Bool)
  | doWork (delivered : Bool)

def step (maxMcMacAddrs : BitVec 8) (s : State) : Event → Except Fault State
  | .setMulticast multicast mc allocated =>
    sprdwlSetMulticast maxMcMacAddrs s multicast mc.addrs allocated
  | .doWork delivered => .ok (sprdwlDoWork s delivered)

/-! ## The search -/

/-- The search answers right: the lists are of different lengths or equal, or the first address
is new, or the second is and the first is the first one stored. -/
def Searchable (stored addrs : List EtherAddr) : Prop :=
  addrs.length ≠ stored.length ∨ addrs = stored ∨ (∀ a ∈ addrs.take 1, a ∉ stored) ∨
    addrs.take 1 = stored.take 1 ∧ ∀ a ∈ (addrs.drop 1).take 1, a ∉ stored

variable {stored mem addrs : List EtherAddr}

theorem getElem?_of_prefix (hmem : stored <+: mem) {ptr : ℕ} (hptr : ptr < stored.length) :
    mem[ptr]? = some stored[ptr] := by
  obtain ⟨rest, rfl⟩ := hmem
  rw [List.getElem?_append_left hptr, List.getElem?_eq_getElem hptr]

theorem search_new {addr : EtherAddr} (hnew : addr ∉ stored) (hmem : stored <+: mem) {left ptr : ℕ}
    (hleft : ptr + left ≤ stored.length) : search mem addr left ptr = .ok none := by
  induction left generalizing ptr with
  | zero => rfl
  | succ left ih =>
    have hptr : ptr < stored.length := by omega
    have hget : mem[ptr]? = some stored[ptr] := getElem?_of_prefix hmem hptr
    have hne : addr ≠ stored[ptr] := fun h => hnew (h ▸ List.getElem_mem hptr)
    rw [search, hget]
    dsimp only
    rw [if_neg hne]
    exact ih (by omega)

/-- The address is at the pointer. -/
theorem search_here {left ptr : ℕ} (hmem : stored <+: mem) (hptr : ptr < stored.length) :
    search mem stored[ptr] (left + 1) ptr = .ok (some ptr) := by
  have hget : mem[ptr]? = some stored[ptr] := getElem?_of_prefix hmem hptr
  rw [search, hget]
  exact if_pos rfl

/-- The address is the one behind the pointer. -/
theorem search_next (hmem : stored <+: mem) (hnodup : stored.Nodup) {ptr : ℕ}
    (hptr : ptr + 1 < stored.length) :
    search mem stored[ptr + 1] stored.length ptr = .ok (some (ptr + 1)) := by
  obtain ⟨left, hleft⟩ : ∃ left, stored.length = left + 1 + 1 :=
    ⟨stored.length - 2, by omega⟩
  have hget : mem[ptr]? = some stored[ptr] := getElem?_of_prefix hmem (by omega)
  have hne : stored[ptr + 1] ≠ stored[ptr] := by
    intro h
    have := (hnodup.getElem_inj_iff).mp h
    omega
  rw [hleft, search, hget]
  dsimp only
  rw [if_neg hne]
  exact search_here hmem hptr

/-- The rest of the stored list is found in its order. -/
theorem searchAll_drop (hmem : stored <+: mem) (hnodup : stored.Nodup) {ptr : ℕ}
    (hptr : ptr < stored.length) :
    searchAll mem stored.length (stored.drop (ptr + 1)) ptr = .ok false := by
  induction hleft : stored.length - ptr generalizing ptr with
  | zero => omega
  | succ left ih =>
    by_cases hnext : ptr + 1 < stored.length
    · rw [List.drop_eq_getElem_cons hnext, searchAll, search_next hmem hnodup hnext, ok_bind]
      exact ih hnext (by omega)
    · rw [List.drop_of_length_le (by omega)]
      rfl

theorem searchAll_stored (hmem : stored <+: mem) (hnodup : stored.Nodup) :
    searchAll mem stored.length stored 0 = .ok false := by
  cases hstored : stored with
  | nil => rfl
  | cons addr rest =>
    have hpos : 0 < stored.length := by rw [hstored]; exact Nat.succ_pos _
    obtain ⟨left, hleft⟩ : ∃ left, stored.length = left + 1 := ⟨stored.length - 1, by omega⟩
    have hfirst : search mem addr stored.length 0 = .ok (some 0) := by
      have h : search mem stored[0] (left + 1) 0 = .ok (some 0) := search_here hmem hpos
      simpa only [hstored, List.getElem_cons_zero, ← hleft] using h
    have hrest := searchAll_drop hmem hnodup hpos
    rw [hstored] at hfirst hrest
    rw [searchAll, hfirst, ok_bind]
    exact hrest

/-- The first address is where the pointer is, and the pointer stays. -/
theorem search_first {addr : EtherAddr} (hmem : addr :: stored <+: mem) :
    search mem addr (stored.length + 1) 0 = .ok (some 0) :=
  search_here hmem (Nat.succ_pos stored.length)

/-- What is said of the search when an address is new. -/
theorem differs_of_new {a : EtherAddr} (ha : a ∈ addrs) (hnew : a ∉ stored) :
    addrs ≠ stored ∧ ¬ ∀ a, a ∈ addrs ↔ a ∈ stored := by
  refine ⟨?_, fun hsame => hnew ((hsame a).mp ha)⟩
  rintro rfl
  exact hnew ha

theorem searchAll_right (hmem : stored <+: mem) (hnodup : stored.Nodup)
    (hcount : addrs.length = stored.length) (h : Searchable stored addrs) :
    searchAll mem stored.length addrs 0 = .ok (decide (addrs ≠ stored)) ∧
      (addrs ≠ stored ↔ ¬ ∀ a, a ∈ addrs ↔ a ∈ stored) := by
  have hanswer {a : EtherAddr} (ha : a ∈ addrs) (hnew : a ∉ stored)
      (htrue : searchAll mem stored.length addrs 0 = .ok true) :
      searchAll mem stored.length addrs 0 = .ok (decide (addrs ≠ stored)) ∧
        (addrs ≠ stored ↔ ¬ ∀ a, a ∈ addrs ↔ a ∈ stored) := by
    have hdiffers := differs_of_new ha hnew
    rw [htrue, decide_eq_true hdiffers.1]
    exact ⟨rfl, iff_of_true hdiffers.1 hdiffers.2⟩
  have hequal (hsame : addrs = stored) :
      searchAll mem stored.length addrs 0 = .ok (decide (addrs ≠ stored)) ∧
        (addrs ≠ stored ↔ ¬ ∀ a, a ∈ addrs ↔ a ∈ stored) := by
    subst hsame
    rw [searchAll_stored hmem hnodup]
    exact ⟨by simp, by simp⟩
  have hshort : stored = [] → addrs = stored := fun hnil => by
    rw [hnil] at hcount ⊢
    exact List.length_eq_zero_iff.mp hcount
  rcases h with hne | hsame | hfirst | ⟨hfirst, hsecond⟩
  · exact absurd hcount hne
  · exact hequal hsame
  · cases addrs with
    | nil => exact hequal (List.length_eq_zero_iff.mp hcount.symm).symm
    | cons a rest =>
      have hnew : a ∉ stored := hfirst a List.mem_cons_self
      refine hanswer List.mem_cons_self hnew ?_
      rw [searchAll, search_new hnew hmem (by omega), ok_bind]
  · match addrs, stored with
    | _, [] => exact hequal (hshort rfl)
    | [], _ :: _ => cases hcount
    | [a], [b] =>
      refine hequal ?_
      simpa using hfirst
    | [_], _ :: _ :: _ => cases hcount
    | a :: b :: rest, c :: stored =>
      have hac : a = c := by simpa using hfirst
      subst hac
      have hnew : b ∉ a :: stored := hsecond b (by simp)
      refine hanswer (List.mem_cons_of_mem _ List.mem_cons_self) hnew ?_
      rw [searchAll, List.length_cons, search_first hmem, ok_bind]
      dsimp only
      rw [searchAll, search_new hnew hmem (by simp), ok_bind]

/-- With the stored entries alone in memory the answer is the right one. -/
theorem mcAddressChanged_right {f : McFilter} (hmem : stored <+: f.macAddr)
    (hnum : f.macNum = stored.length) (hnodup : stored.Nodup) (haddrs : addrs.Nodup)
    (hlen : addrs.length < 2 ^ 8) (h : Searchable stored addrs) :
    mcAddressChanged f addrs = .ok (decide (addrs ≠ stored)) ∧
      (addrs ≠ stored ↔ ¬ ∀ a, a ∈ addrs ↔ a ∈ stored) := by
  rw [mcAddressChanged, Nat.mod_eq_of_lt hlen, hnum]
  by_cases hcount : addrs.length = stored.length
  · rw [if_neg (not_not.mpr hcount)]
    exact searchAll_right hmem hnodup hcount h
  · have hsets : ¬ ∀ a, a ∈ addrs ↔ a ∈ stored := fun hsame =>
      hcount ((List.perm_ext_iff_of_nodup haddrs hnodup).mpr hsame).length_eq
    have hne : addrs ≠ stored := fun hsame => hcount (congrArg List.length hsame)
    rw [if_pos hcount, decide_eq_true hne]
    exact ⟨rfl, iff_of_true hne hsets⟩

/-! ## The copy -/

/-- The loop stores the addresses up to the first that is not valid. -/
theorem copyAddrs_eq {i : ℕ} (hroom : i + addrs.length ≤ mem.length) :
    copyAddrs mem i addrs = .ok
      (mem.take i ++ addrs.takeWhile (fun a => Valid a) ++
        mem.drop (i + (addrs.takeWhile (fun a => Valid a)).length),
        decide (∀ a ∈ addrs, Valid a)) := by
  induction addrs generalizing mem i with
  | nil => simp [copyAddrs]
  | cons a rest ih =>
    rw [List.length_cons] at hroom
    rw [copyAddrs]
    by_cases ha : Valid a
    · have hlen : (mem.set i a).length = mem.length := List.length_set
      rw [if_pos ha, if_pos (by omega), ih (by omega)]
      have htake : (mem.set i a).take (i + 1) = mem.take i ++ [a] := by
        rw [List.take_succ_eq_append_getElem (by omega), List.take_set_of_le (Nat.le_refl i),
          List.getElem_set_self]
      have hdrop (n : ℕ) : (mem.set i a).drop (i + 1 + n) = mem.drop (i + (n + 1)) := by
        rw [List.drop_set_of_lt (by omega), Nat.add_assoc, Nat.add_comm 1 n]
      simp only [ha, decide_true, List.takeWhile_cons_of_pos, htake, hdrop, List.length_cons,
        List.append_assoc, List.cons_append, List.nil_append,
        List.forall_mem_cons, true_and]
    · rw [if_neg ha]
      simp [ha]

theorem take_overwritten {front : List EtherAddr} {n : ℕ} (hn : n ≤ mem.length)
    (h : front.take n <+: mem.take n) :
    (front ++ mem.drop front.length).take n = mem.take n := by
  by_cases hlen : front.length ≤ n
  · rw [List.take_of_length_le hlen] at h
    have hfront := List.prefix_iff_eq_take.mp (h.trans (List.take_prefix n mem))
    nth_rewrite 1 [hfront]
    rw [List.take_append_drop]
  · rw [List.take_append_of_le_length (by omega)]
    refine h.eq_of_length ?_
    rw [List.length_take, List.length_take]
    omega

/-! ## The condition on a call -/

/-- The call puts another list into the filter. -/
def Changes (s : State) (multicast : Bool) (addrs : List EtherAddr) : Prop :=
  if multicast then addrs ≠ s.filter.stored ∧ ∀ a ∈ addrs, Valid a else s.filter.macNum ≠ 0

/-- The list a call asks for. -/
def target (multicast : Bool) (addrs : List EtherAddr) : List EtherAddr :=
  if multicast then addrs else []

/-- What keeps a call from the defects: the list can be searched; up to its first invalid address
it has what is stored; a change that is not yet sent is replaced by another; and the work for
a change is queued, if none is waiting and the firmware has another list. -/
def CallFits (maxMcMacAddrs : BitVec 8) (s : State) (multicast : Bool) (addrs : List EtherAddr)
    (allocated : Bool) : Prop :=
  addrs.length ≤ maxMcMacAddrs.toNat ∧
    (multicast = true → Searchable s.filter.stored addrs) ∧
    (multicast = true → (∃ a ∈ addrs, ¬ Valid a) →
      (addrs.takeWhile (fun a => Valid a)).take s.filter.macNum <+: s.filter.stored) ∧
    (s.sent ≠ s.filter.stored → Changes s multicast addrs) ∧
    (Changes s multicast addrs → allocated = true ∨ 0 < s.works ∨ target multicast addrs = s.sent)

/-- The last work for a change gets through to the firmware. -/
def Fits (maxMcMacAddrs : BitVec 8) (s : State) : Event → Prop
  | .setMulticast multicast mc allocated => CallFits maxMcMacAddrs s multicast mc.addrs allocated
  | .doWork delivered => s.sent = s.filter.stored ∨ delivered = true ∨ 1 < s.works

structure Synchronised (maxMcMacAddrs : BitVec 8) (s : State) : Prop where
  room : s.filter.macAddr.length = maxMcMacAddrs.toNat
  num : s.filter.macNum ≤ maxMcMacAddrs.toNat
  nodup : s.filter.stored.Nodup
  wanted : s.wanted = s.filter.stored
  /-- A change waits for its work. -/
  sent : s.sent = s.filter.stored ∨ s.filter.mcChange = true ∧ 0 < s.works

variable {maxMcMacAddrs : BitVec 8} {s : State}

theorem Synchronised.length_stored (h : Synchronised maxMcMacAddrs s) :
    s.filter.stored.length = s.filter.macNum := by
  rw [McFilter.stored, List.length_take, h.room]
  exact Nat.min_eq_left h.num

theorem registered_synchronised (maxMcMacAddrs : BitVec 8) :
    Synchronised maxMcMacAddrs (registered maxMcMacAddrs) where
  room := List.length_replicate
  num := Nat.zero_le _
  nodup := List.nodup_nil
  wanted := rfl
  sent := .inl rfl

/-- Queueing touches neither the filter nor what was sent. -/
theorem queueWork_synchronised (h : Synchronised maxMcMacAddrs s) (allocated : Bool) :
    Synchronised maxMcMacAddrs (queueWork s allocated) := by
  cases allocated with
  | false => exact h
  | true => exact ⟨h.room, h.num, h.nodup, h.wanted, h.sent.imp id (fun h => ⟨h.1, Nat.succ_pos _⟩)⟩

/-- A change is stored and its work queued. -/
theorem changed_synchronised (f : McFilter) {allocated : Bool} {addrs : List EtherAddr}
    (hroom : f.macAddr.length = maxMcMacAddrs.toNat) (hnum : f.macNum ≤ maxMcMacAddrs.toNat)
    (hstored : f.stored = addrs) (hnodup : addrs.Nodup) (hchange : f.mcChange = true)
    (hwork : allocated = true ∨ 0 < s.works ∨ addrs = s.sent) :
    Synchronised maxMcMacAddrs (queueWork { s with filter := f, wanted := addrs } allocated) := by
  have hstored' : f.stored.Nodup := by rwa [hstored]
  rcases hwork with rfl | hworks | hsent
  · exact ⟨hroom, hnum, hstored', hstored.symm, .inr ⟨hchange, Nat.succ_pos _⟩⟩
  · exact queueWork_synchronised (s := { s with filter := f, wanted := addrs })
      ⟨hroom, hnum, hstored', hstored.symm, .inr ⟨hchange, hworks⟩⟩ allocated
  · exact queueWork_synchronised (s := { s with filter := f, wanted := addrs })
      ⟨hroom, hnum, hstored', hstored.symm, .inl (hsent.symm.trans hstored.symm)⟩ allocated

/-- Nothing is changed, and nothing waited. -/
theorem unchanged_synchronised (h : Synchronised maxMcMacAddrs s) {addrs : List EtherAddr}
    (hwanted : addrs = s.filter.stored) (hsent : s.sent = s.filter.stored) (allocated : Bool) :
    Synchronised maxMcMacAddrs
      (queueWork { s with filter := { s.filter with mcChange := false }, wanted := addrs }
        allocated) :=
  queueWork_synchronised
    (s := { s with filter := { s.filter with mcChange := false }, wanted := addrs })
    ⟨h.room, h.num, h.nodup, hwanted, .inl hsent⟩ allocated

/-- What a call with `IFF_MULTICAST` does, by what `mc_address_changed` answers. -/
theorem multicast_step (h : Synchronised maxMcMacAddrs s) {mc : McList} {allocated : Bool}
    (hfits : CallFits maxMcMacAddrs s true mc.addrs allocated) :
    ∃ s', sprdwlSetMulticast maxMcMacAddrs s true mc.addrs allocated = .ok s' ∧
      Synchronised maxMcMacAddrs s' ∧
      ((∃ a ∈ mc.addrs, ¬ Valid a) → s'.filter.stored = s.filter.stored) := by
  obtain ⟨hlen, hsearch, hkept, hunsent, hwork⟩ := hfits
  have hmax : maxMcMacAddrs.toNat < 2 ^ 8 := maxMcMacAddrs.isLt
  have hcount : mc.addrs.length % 2 ^ 8 = mc.addrs.length := Nat.mod_eq_of_lt (by omega)
  have hanswer : mcAddressChanged { s.filter with mcChange := false } mc.addrs =
      .ok (decide (mc.addrs ≠ s.filter.stored)) :=
    (mcAddressChanged_right (List.take_prefix s.filter.macNum s.filter.macAddr)
      h.length_stored.symm h.nodup mc.nodup (by omega) (hsearch rfl)).1
  rw [sprdwlSetMulticast, hcount, if_neg (by omega), if_pos rfl, hanswer, ok_bind]
  by_cases hsame : mc.addrs = s.filter.stored
  · have hchanges : ¬ Changes s true mc.addrs := fun hc => hc.1 hsame
    have hsent : s.sent = s.filter.stored := not_not.mp (fun hne => hchanges (hunsent hne))
    rw [decide_eq_false (not_not.mpr hsame)]
    exact ⟨_, rfl, unchanged_synchronised h hsame hsent allocated, fun _ => by
      cases allocated <;> rfl⟩
  · rw [decide_eq_true hsame]
    dsimp only
    rw [copyAddrs_eq (by rw [h.room, Nat.zero_add]; exact hlen), ok_map]
    by_cases hvalid : ∀ a ∈ mc.addrs, Valid a
    · have hfront : mc.addrs.takeWhile (fun a => Valid a) = mc.addrs :=
        List.takeWhile_eq_self_iff.mpr (fun a ha => decide_eq_true (hvalid a ha))
      rw [decide_eq_true hvalid, hfront]
      refine ⟨_, rfl, changed_synchronised _ ?_ hlen ?_ mc.nodup rfl (hwork ⟨hsame, hvalid⟩), ?_⟩
      · simp only [List.take_zero, List.nil_append, Nat.zero_add, List.length_append,
          List.length_drop, h.room]
        omega
      · simp [McFilter.stored]
      · rintro ⟨a, ha, hinvalid⟩
        exact absurd (hvalid a ha) hinvalid
    · have hinvalid : ∃ a ∈ mc.addrs, ¬ Valid a := by simpa using hvalid
      have hchanges : ¬ Changes s true mc.addrs := fun hc => hvalid hc.2
      have hsent : s.sent = s.filter.stored := not_not.mp (fun hne => hchanges (hunsent hne))
      have hstored := take_overwritten (h.num.trans_eq h.room.symm) (hkept rfl hinvalid)
      rw [decide_eq_false hvalid]
      refine ⟨_, rfl, ⟨?_, h.num, ?_, ?_, .inl ?_⟩, fun _ => ?_⟩
      · have hle : (mc.addrs.takeWhile (fun a => Valid a)).length ≤ mc.addrs.length :=
          (List.takeWhile_prefix _).length_le
        simp only [List.take_zero, List.nil_append, Nat.zero_add, List.length_append,
          List.length_drop, h.room]
        omega
      all_goals simp only [McFilter.stored, List.take_zero, List.nil_append, Nat.zero_add, hstored]
      · exact h.nodup
      · exact h.wanted
      · exact hsent

/-- What a call without `IFF_MULTICAST` does. -/
theorem clear_step (h : Synchronised maxMcMacAddrs s) {addrs : List EtherAddr} {allocated : Bool}
    (hfits : CallFits maxMcMacAddrs s false addrs allocated) :
    ∃ s', sprdwlSetMulticast maxMcMacAddrs s false addrs allocated = .ok s' ∧
      Synchronised maxMcMacAddrs s' := by
  obtain ⟨hlen, _, _, hunsent, hwork⟩ := hfits
  have hmax : maxMcMacAddrs.toNat < 2 ^ 8 := maxMcMacAddrs.isLt
  have hcount : addrs.length % 2 ^ 8 = addrs.length := Nat.mod_eq_of_lt (by omega)
  rw [sprdwlSetMulticast, hcount, if_neg (by omega), if_neg Bool.false_ne_true]
  by_cases hnum : s.filter.macNum = 0
  · have hchanges : ¬ Changes s false addrs := fun hc => hc hnum
    have hsent : s.sent = s.filter.stored := not_not.mp (fun hne => hchanges (hunsent hne))
    have hstored : s.filter.stored = [] := by rw [McFilter.stored, hnum, List.take_zero]
    rw [if_neg (not_not.mpr hnum)]
    exact ⟨_, rfl, unchanged_synchronised h hstored.symm hsent allocated⟩
  · rw [if_pos hnum]
    exact ⟨_, rfl, changed_synchronised _ h.room (Nat.zero_le _) List.take_zero List.nodup_nil rfl
      (hwork hnum)⟩

theorem work_step (h : Synchronised maxMcMacAddrs s) {delivered : Bool}
    (hfits : s.sent = s.filter.stored ∨ delivered = true ∨ 1 < s.works) :
    Synchronised maxMcMacAddrs (sprdwlDoWork s delivered) := by
  rw [sprdwlDoWork]
  split
  · exact h
  · refine ⟨h.room, h.num, h.nodup, h.wanted, ?_⟩
    dsimp only
    split
    · exact .inl rfl
    · rename_i hnot
      rcases h.sent with hsent | ⟨hchange, hworks⟩
      · exact .inl hsent
      · rcases hfits with hsent | hdelivered | hmore
        · exact .inl hsent
        · exact absurd ⟨hchange, hdelivered⟩ hnot
        · exact .inr ⟨hchange, Nat.sub_pos_of_lt hmore⟩

theorem step_synchronised (h : Synchronised maxMcMacAddrs s) {e : Event}
    (hfits : Fits maxMcMacAddrs s e) :
    ∃ s', step maxMcMacAddrs s e = .ok s' ∧ Synchronised maxMcMacAddrs s' := by
  cases e with
  | doWork delivered => exact ⟨_, rfl, work_step h hfits⟩
  | setMulticast multicast mc allocated =>
    cases multicast with
    | true =>
      obtain ⟨s', hs', hsync, _⟩ := multicast_step h hfits
      exact ⟨s', hs', hsync⟩
    | false => exact clear_step h hfits

theorem run_synchronised (h : Synchronised maxMcMacAddrs s) {es : List Event}
    (hfits : Along (step maxMcMacAddrs) (Fits maxMcMacAddrs) s es) :
    ∃ t, run (step maxMcMacAddrs) s es = .ok t ∧ Synchronised maxMcMacAddrs t := by
  induction es generalizing s with
  | nil => exact ⟨s, rfl, h⟩
  | cons e es ih =>
    obtain ⟨s', hs', hsync⟩ := step_synchronised h hfits.1
    rw [run_cons_ok hs']
    exact ih hsync (hfits.2 s' hs')

/-- In a run whose steps fit no access leaves `mac_addr`; the firmware has the list of the last
accepted call whenever no work waits; and in every state reached the next call that fits is
answered by the stored entries alone, says truly whether the sets differ, and leaves the
stored list when it rejects its own. -/
theorem filter_synchronised {es : List Event}
    (hfits : Along (step maxMcMacAddrs) (Fits maxMcMacAddrs) (registered maxMcMacAddrs) es) :
    ∃ s, run (step maxMcMacAddrs) (registered maxMcMacAddrs) es = .ok s ∧
      (s.works = 0 → s.sent = s.wanted) ∧
      ∀ mc allocated, Fits maxMcMacAddrs s (.setMulticast true mc allocated) →
        (∃ changed, mcAddressChanged s.filter mc.addrs = .ok changed ∧
          mcAddressChanged { s.filter with macAddr := s.filter.stored } mc.addrs = .ok changed ∧
          (changed = true ↔ ¬ ∀ a, a ∈ mc.addrs ↔ a ∈ s.filter.stored)) ∧
        ((∃ a ∈ mc.addrs, ¬ Valid a) →
          ∃ s', step maxMcMacAddrs s (.setMulticast true mc allocated) = .ok s' ∧
            s'.filter.stored = s.filter.stored) := by
  obtain ⟨s, hr, h⟩ := run_synchronised (registered_synchronised maxMcMacAddrs) hfits
  refine ⟨s, hr, fun hworks => ?_, fun mc allocated hcall => ⟨?_, fun hinvalid => ?_⟩⟩
  · rcases h.sent with hsent | ⟨_, hpos⟩
    · exact hsent.trans h.wanted.symm
    · exact absurd hworks (Nat.pos_iff_ne_zero.mp hpos)
  · have hmax : maxMcMacAddrs.toNat < 2 ^ 8 := maxMcMacAddrs.isLt
    have hlen : mc.addrs.length < 2 ^ 8 := Nat.lt_of_le_of_lt hcall.1 hmax
    have hright := mcAddressChanged_right (f := s.filter) (List.take_prefix _ _)
      h.length_stored.symm h.nodup mc.nodup hlen (hcall.2.1 rfl)
    have hinside := mcAddressChanged_right (f := { s.filter with macAddr := s.filter.stored })
      (List.prefix_refl _) h.length_stored.symm h.nodup mc.nodup hlen (hcall.2.1 rfl)
    refine ⟨_, hright.1, hinside.1, ?_⟩
    rw [decide_eq_true_iff]
    exact hright.2
  · obtain ⟨s', hs', _, hstored⟩ := multicast_step h hcall
    exact ⟨s', hs', hstored hinvalid⟩

def addr (n : BitVec 8) : EtherAddr := #v[0x01, 0x00, 0x5e, 0, 0, n]

/-- A list of two addresses and the work that sends it. -/
def oneCall : List Event :=
  [.setMulticast true ⟨[addr 1, addr 2], by decide⟩ true, .doWork true]

theorem oneCall_fits : Along (step 2) (Fits 2) (registered 2) oneCall := by
  refine ⟨⟨Nat.le_refl 2, fun _ => .inl (by decide), fun _ _ => List.nil_prefix,
    fun hne => absurd rfl hne, fun _ => .inl rfl⟩, fun _ _ => ⟨.inr (.inl rfl), ?_⟩⟩
  exact fun _ _ => True.intro

theorem filter_synchronised_two : ∃ s, run (step 2) (registered 2) oneCall = .ok s ∧
      (s.works = 0 → s.sent = s.wanted) ∧
      ∀ mc allocated, Fits 2 s (.setMulticast true mc allocated) →
        (∃ changed, mcAddressChanged s.filter mc.addrs = .ok changed ∧
          mcAddressChanged { s.filter with macAddr := s.filter.stored } mc.addrs = .ok changed ∧
          (changed = true ↔ ¬ ∀ a, a ∈ mc.addrs ↔ a ∈ s.filter.stored)) ∧
        ((∃ a ∈ mc.addrs, ¬ Valid a) →
          ∃ s', step 2 s (.setMulticast true mc allocated) = .ok s' ∧
            s'.filter.stored = s.filter.stored) :=
  filter_synchronised oneCall_fits

/-- The same list again, before the work for the first call has run: it is never sent. In the
other order its addresses are searched beyond the memory. And a list that is rejected at
its second address has replaced the first one that was stored. -/
theorem repeated_list_is_not_sent :
    (∃ s, run (step 2) (registered 2)
      [.setMulticast true ⟨[addr 1, addr 2], by decide⟩ true,
        .setMulticast true ⟨[addr 1, addr 2], by decide⟩ true, .doWork true, .doWork true] = .ok s ∧
      s.works = 0 ∧ s.sent = [] ∧ s.wanted = [addr 1, addr 2]) ∧
    run (step 2) (registered 2)
      [.setMulticast true ⟨[addr 1, addr 2], by decide⟩ true, .doWork true,
        .setMulticast true ⟨[addr 2, addr 1], by decide⟩ true] = .error .macAddr ∧
    ∃ s, run (step 2) (registered 2)
      [.setMulticast true ⟨[addr 1], by decide⟩ true, .doWork true,
        .setMulticast true ⟨[addr 3, Vector.replicate 6 0], by decide⟩ true] = .ok s ∧
      s.wanted = [addr 1] ∧ s.filter.stored = [addr 3] := by
  refine ⟨⟨_, rfl, ?_⟩, ?_, ⟨_, rfl, ?_⟩⟩ <;> decide

end Uwe5631.Multicast
