import Uwe5631.LinkedChains
import Uwe5631.FallibleRuns
import Mathlib

/-!
# The mbuf pools of the bus

`buf_list_alloc` cuts the first mbufs off the free chain of a pool and `buf_list_free` puts a chain
before it; `mbuf_link_alloc` and `mbuf_link_free` do the same for PCIe.
-/
namespace Uwe5631.BusPool
open LinkedChains FallibleRuns

/-- The address of a `struct mbuf_t`. -/
abbrev MbufAddr := ℕ

/-- `struct buffer_pool_t`, with the links of its mbufs. -/
structure Pool where
  size : ℕ
  free : ℤ
  head : Option MbufAddr
  next : MbufAddr → Option MbufAddr

inductive Fault where
  | nullPointer
  deriving DecidableEq, Repr

/-- What an allocation returns: its value, `*head`, `*tail` and `*num`. -/
structure Taken where
  ret : ℤ
  head : Option MbufAddr
  tail : Option MbufAddr
  num : ℤ
  deriving DecidableEq, Repr

/-- The loop of the allocations: the last mbuf of some and what is behind it. -/
def takeLoop (next : MbufAddr → Option MbufAddr) :
    ℕ → Option MbufAddr → Except Fault (Option MbufAddr × Option MbufAddr)
  | 0, cur => .ok (none, cur)
  | _ + 1, none => .error .nullPointer
  | n + 1, some a =>
    (takeLoop next n (next a)).map fun x => (if n = 0 then some a else x.1, x.2)

def endAt (next : MbufAddr → Option MbufAddr) (tail : Option MbufAddr) :
    MbufAddr → Option MbufAddr :=
  tail.elim next fun a => Function.update next a none

/-- `buf_list_alloc` before it takes the lock: the error it returns. -/
def bufListAllocCheck (pool : Pool) (num : ℤ) : Option Taken :=
  if num ≤ 0 ∨ pool.free ≤ 0 then some ⟨-2, none, none, 0⟩ else none

/-- `buf_list_alloc` under the lock. -/
def bufListAlloc (pool : Pool) (num : ℤ) : Except Fault (Taken × Pool) :=
  let num := if pool.free < num then pool.free else num
  (takeLoop pool.next num.toNat pool.head).map fun x =>
    (⟨0, pool.head, x.1, num⟩,
      { pool with free := pool.free - num, head := x.2, next := endAt pool.next x.1 })

/-- `mbuf_link_alloc`, which has the lock all the time. -/
def mbufLinkAlloc (pool : Pool) (num : ℤ) : Except Fault (Taken × Pool) :=
  if num ≤ 0 ∨ pool.free ≤ 0 then .ok (⟨-1, none, none, 0⟩, pool)
  else
    let num := if pool.free < num then pool.free else num
    (takeLoop pool.next num.toNat pool.head).bind fun x =>
      if x.1 = none then .error .nullPointer
      else .ok (⟨0, pool.head, x.1, num⟩,
        { pool with free := pool.free - num, head := x.2, next := endAt pool.next x.1 })

/-- A chain before the free one. -/
def Pool.putBack (pool : Pool) (head : Option MbufAddr) (tail : MbufAddr) (num : ℤ) : Pool :=
  { pool with next := Function.update pool.next tail pool.head, head := head, free := pool.free + num }

/-- `buf_list_free`, with what it returns. -/
def bufListFree (pool : Pool) (head tail : Option MbufAddr) (num : ℤ) : ℤ × Pool :=
  match head, tail with
  | some _, some t => if num = 0 then (-2, pool) else (0, pool.putBack head t num)
  | _, _ => (-2, pool)

/-- `mbuf_link_free`, which wants the chain to end. -/
def mbufLinkFree (pool : Pool) (head tail : Option MbufAddr) (num : ℤ) : ℤ × Pool :=
  match head, tail with
  | some _, some t =>
    if num = 0 ∨ pool.next t ≠ none then (-1, pool) else (0, pool.putBack head t num)
  | _, _ => (-1, pool)

/-- `buf_pool_init` and `mbuf_pool_init` -/
def poolInit (size : ℕ) : Pool where
  size := size
  free := size
  head := some 0
  next i := if i + 1 < size then some (i + 1) else none

/-! ## Pools and their users -/

/-- The two families of functions. -/
inductive Bus where
  | wcnBus
  | mchn
  deriving DecidableEq, Repr

/-- A pool, the requests of `buf_list_alloc` that wait for the lock, and the chains handed out. -/
structure System where
  pool : Pool
  checked : List ℤ
  chains : List (List MbufAddr)

inductive Event where
  /-- `buf_list_alloc` up to the lock -/
  | check (num : ℤ)
  /-- one of the requests that wait gets the lock -/
  | alloc (i : ℕ)
  /-- `mbuf_link_alloc` -/
  | linkAlloc (num : ℤ)
  /-- chains are given back as one, the others stay -/
  | free (bus : Bus) (head tail : Option MbufAddr) (num : ℤ) (back rest : List (List MbufAddr))
  /-- the users link the mbufs that they hold -/
  | user (next : MbufAddr → Option MbufAddr)

/-- The chain that an allocation hands out. -/
def handedOut (pool : Pool) (t : Taken) : List MbufAddr := walk pool.next t.num.toNat t.head

def freeOf (bus : Bus) : Pool → Option MbufAddr → Option MbufAddr → ℤ → ℤ × Pool :=
  match bus with
  | .wcnBus => bufListFree
  | .mchn => mbufLinkFree

def step (s : System) : Event → Except Fault System
  | .check num =>
    match bufListAllocCheck s.pool num with
    | some _ => .ok s
    | none => .ok { s with checked := s.checked ++ [num] }
  | .alloc i =>
    match s.checked[i]? with
    | none => .ok s
    | some num => (bufListAlloc s.pool num).map fun x =>
      { s with
        pool := x.2
        checked := s.checked.eraseIdx i
        chains := s.chains ++ [handedOut x.2 x.1] }
  | .linkAlloc num => (mbufLinkAlloc s.pool num).map fun x =>
    { s with pool := x.2, chains := s.chains ++ [handedOut x.2 x.1] }
  | .free bus head tail num _ rest =>
    let x := freeOf bus s.pool head tail num
    .ok (if x.1 = 0 then { s with pool := x.2, chains := rest } else s)
  | .user next => .ok { s with pool := { s.pool with next := next } }

/-- Chains are linked to one with this head, tail and number. -/
structure Given (next : MbufAddr → Option MbufAddr) (head tail : Option MbufAddr) (num : ℤ)
    (xs : List MbufAddr) : Prop where
  threads : ∃ q, Threads next head xs q
  tail : tail = xs.getLast?
  num : num = xs.length

/-- What the users keep to: they give back chains that they were given, whole or concatenated, and
link only the mbufs that they hold. -/
def Assumed (s : System) : Event → Prop
  | .free _ head tail num back rest =>
    s.chains.Perm (back ++ rest) ∧ Given s.pool.next head tail num back.flatten
  | .user next => ∀ a, a ∉ s.chains.flatten → next a = s.pool.next a
  | _ => True

/-- The free chain of a pool of some size, whose mbufs and those handed out are all there are. -/
structure Conserved (size : ℕ) (s : System) (free : List MbufAddr) : Prop where
  chain : Threads s.pool.next s.pool.head free none
  count : s.pool.free = free.length
  all : (free ++ s.chains.flatten).Perm (List.range size)

variable {next : MbufAddr → Option MbufAddr} {p q : Option MbufAddr} {xs ys free : List MbufAddr}
  {s : System} {size n : ℕ} {num : ℤ}

theorem takeLoop_spec (h : Threads next p (xs ++ ys) q) :
    ∃ r, takeLoop next xs.length p = .ok (xs.getLast?, r) ∧ Threads next r ys q := by
  induction xs generalizing p with
  | nil => exact ⟨p, rfl, h⟩
  | cons a xs ih =>
    obtain ⟨rfl, hrest⟩ := h
    obtain ⟨r, hrun, hr⟩ := ih hrest
    refine ⟨r, ?_, hr⟩
    rw [List.length_cons, takeLoop, hrun]
    cases xs with
    | nil => rfl
    | cons b xs => rfl

theorem walk_threads (h : Threads next p xs q) : walk next xs.length p = xs := by
  induction xs generalizing p with
  | nil => rfl
  | cons a xs ih =>
    obtain ⟨rfl, hrest⟩ := h
    rw [List.length_cons, walk, ih hrest]

/-- What an allocation reports is linked from its head and ends at its tail. -/
structure Reports (next : MbufAddr → Option MbufAddr) (t : Taken) (xs : List MbufAddr) : Prop where
  num : t.num = xs.length
  tail : t.tail = xs.getLast?
  chain : xs ≠ [] → Threads next t.head xs none

theorem Conserved.nodup (h : Conserved size s free) : (free ++ s.chains.flatten).Nodup :=
  h.all.nodup_iff.mpr List.nodup_range

/-- The first mbufs of the free chain are cut off. -/
theorem Conserved.cut (h : Conserved size s (xs ++ ys)) (checked : List ℤ) :
    ∃ r, takeLoop s.pool.next xs.length s.pool.head = .ok (xs.getLast?, r) ∧
      let next := endAt s.pool.next xs.getLast?
      Reports next ⟨0, s.pool.head, xs.getLast?, xs.length⟩ xs ∧
      Conserved size ⟨{ s.pool with free := s.pool.free - xs.length, head := r, next := next }, checked,
        s.chains ++ [walk next xs.length s.pool.head]⟩ ys := by
  obtain ⟨r, hrun, hrest⟩ := takeLoop_spec h.chain
  obtain ⟨m, hfirst, hsecond⟩ := threads_append.mp h.chain
  obtain ⟨hxs, -, hapart⟩ := List.nodup_append.mp (List.nodup_append.mp h.nodup).1
  have hcount := h.count
  rw [List.length_append] at hcount
  have hall := h.all
  have hmoved : (ys ++ (s.chains ++ [xs]).flatten).Perm (List.range size) := by
    refine List.Perm.trans ?_ hall
    rw [List.flatten_append, List.flatten_cons, List.flatten_nil, List.append_nil, ← List.append_assoc,
      List.append_assoc xs]
    exact List.perm_append_comm
  have hleft : s.pool.free - xs.length = ys.length := by
    rw [hcount]
    push_cast
    omega
  refine ⟨r, hrun, ?_⟩
  cases hlast : xs.getLast? with
  | none =>
    have hnil := List.getLast?_eq_none_iff.mp hlast
    subst hnil
    exact ⟨⟨rfl, rfl, fun hne => absurd rfl hne⟩, hrest, hleft, hmoved⟩
  | some t =>
    have hcut : Threads (Function.update s.pool.next t none) s.pool.head xs none :=
      hfirst.relink hxs hlast none
    have hkept : Threads (Function.update s.pool.next t none) r ys none := by
      refine hrest.frame fun y hy => Function.update_of_ne (fun heq => ?_) ..
      exact hapart t (List.mem_of_getLast? hlast) t (heq ▸ hy) rfl
    refine ⟨⟨rfl, hlast.symm, fun _ => hcut⟩, hkept, hleft, ?_⟩
    have hwalk : walk (endAt s.pool.next (some t)) xs.length s.pool.head = xs := walk_threads hcut
    rw [hwalk]
    exact hmoved

/-- A request for some mbufs gets them, or all there are. -/
theorem Conserved.bufListAlloc (h : Conserved size s free) (hnum : 0 < num) (checked : List ℤ) :
    ∃ t pool xs ys, BusPool.bufListAlloc s.pool num = .ok (t, pool) ∧ Reports pool.next t xs ∧
      t.ret = 0 ∧
      t.num = min num s.pool.free ∧ free = xs ++ ys ∧
      Conserved size ⟨pool, checked, s.chains ++ [handedOut pool t]⟩ ys := by
  have hcount := h.count
  set n := (min num s.pool.free).toNat with hn
  have hmin : (if s.pool.free < num then s.pool.free else num) = (n : ℤ) := by
    rw [hn]
    split <;> omega
  have hlen : (free.take n).length = n := by
    rw [List.length_take]
    omega
  rw [← List.take_append_drop n free] at h
  obtain ⟨r, hrun, hreports, hconserved⟩ := h.cut checked
  rw [hlen] at hrun hreports hconserved
  refine ⟨⟨0, s.pool.head, (free.take n).getLast?, n⟩,
    { s.pool with
      free := s.pool.free - n, head := r, next := endAt s.pool.next (free.take n).getLast? },
    free.take n, free.drop n, ?_, hreports, rfl, ?_, (List.take_append_drop n free).symm, hconserved⟩
  rotate_left
  · show (n : ℤ) = _
    omega
  rw [BusPool.bufListAlloc, hmin, Int.toNat_natCast, hrun]
  rfl

/-- The other function does the same unless it has nothing to hand out. -/
theorem Conserved.mbufLinkAlloc_eq (h : Conserved size s free) (hnum : 0 < num)
    (hfree : 0 < s.pool.free) :
    mbufLinkAlloc s.pool num = BusPool.bufListAlloc s.pool num := by
  obtain ⟨t, pool, xs, ys, hrun, hreports, -, hmin, -, -⟩ := h.bufListAlloc hnum []
  rw [BusPool.bufListAlloc] at hrun
  rw [BusPool.mbufLinkAlloc, if_neg (by omega), BusPool.bufListAlloc]
  obtain ⟨x, hloop, heq⟩ := map_eq_ok.mp hrun
  have ht : t.tail = x.1 := (congrArg (fun y => y.1.tail) heq).symm
  have hsome : ¬ x.1 = none := by
    intro hnone
    have hnil := List.getLast?_eq_none_iff.mp (hreports.tail.symm.trans (ht.trans hnone))
    have hzero := hreports.num
    rw [hnil, List.length_nil] at hzero
    omega
  dsimp only at hloop ⊢
  rw [hloop, ok_bind, if_neg hsome]
  rfl

/-- Chains that come back are put before the free one. -/
theorem Conserved.putBack {back rest : List (List MbufAddr)} {head : Option MbufAddr} {t : MbufAddr}
    (h : Conserved size s free) (hchains : s.chains.Perm (back ++ rest))
    (hgiven : Given s.pool.next head (some t) num back.flatten) (checked : List ℤ) :
    Conserved size ⟨s.pool.putBack head t num, checked, rest⟩ (back.flatten ++ free) := by
  obtain ⟨⟨r, hthreads⟩, htail, hnum⟩ := hgiven
  have hflat : s.chains.flatten.Perm (back.flatten ++ rest.flatten) :=
    (hchains.flatten).trans (by rw [List.flatten_append])
  have hsplit : (free ++ (back.flatten ++ rest.flatten)).Perm (List.range size) :=
    ((List.perm_append_left_iff free).mpr hflat.symm).trans h.all
  have hnodup := hsplit.nodup_iff.mpr List.nodup_range
  obtain ⟨-, hback, hapart⟩ := List.nodup_append.mp hnodup
  have hbacknodup := (List.nodup_append.mp hback).1
  refine ⟨threads_append.mpr ⟨s.pool.head, hthreads.relink hbacknodup htail.symm _, ?_⟩, ?_, ?_⟩
  · refine h.chain.frame fun x hx => Function.update_of_ne (fun heq => ?_) ..
    have ht := List.mem_of_getLast? htail.symm
    exact hapart t (heq ▸ hx) t (List.mem_append_left _ ht) rfl
  · show s.pool.free + num = _
    rw [h.count, hnum, List.length_append]
    push_cast
    omega
  · refine List.Perm.trans ?_ hsplit
    rw [← List.append_assoc]
    exact (List.perm_append_right_iff _).mpr List.perm_append_comm

theorem freeOf_cases (bus : Bus) (pool : Pool) (head tail : Option MbufAddr) (num : ℤ) :
    (∃ t, tail = some t ∧ freeOf bus pool head tail num = (0, pool.putBack head t num)) ∨
      (freeOf bus pool head tail num).1 ≠ 0 := by
  cases head with
  | none => cases bus <;> exact .inr (by simp [freeOf, bufListFree, mbufLinkFree])
  | some a =>
    cases tail with
    | none => cases bus <;> exact .inr (by simp [freeOf, bufListFree, mbufLinkFree])
    | some t =>
      cases bus with
      | wcnBus =>
        rw [freeOf, bufListFree]
        split
        · exact .inr (by simp)
        · exact .inl ⟨t, rfl, rfl⟩
      | mchn =>
        rw [freeOf, mbufLinkFree]
        split
        · exact .inr (by simp)
        · exact .inl ⟨t, rfl, rfl⟩

/-- The free chain of a pool, and requests that have been checked. -/
structure Sound (size : ℕ) (s : System) : Prop where
  conserved : ∃ free, Conserved size s free
  checked : ∀ num ∈ s.checked, 0 < num

theorem Sound.kept (h : Sound size s) {e : Event} (hassumed : Assumed s e) :
    ∃ s', step s e = .ok s' ∧ Sound size s' := by
  obtain ⟨⟨free, hfree⟩, hchecked⟩ := h
  cases e with
  | check num =>
    rw [BusPool.step, bufListAllocCheck]
    split
    · exact ⟨s, rfl, ⟨free, hfree⟩, hchecked⟩
    · rename_i hno
      split at hno
      · cases hno
      · refine ⟨_, rfl, ⟨free, hfree.chain, hfree.count, hfree.all⟩, fun num' hnum' => ?_⟩
        rcases List.mem_append.mp hnum' with hold | hnew
        · exact hchecked num' hold
        · rw [List.mem_singleton.mp hnew]
          omega
  | alloc i =>
    cases hi : s.checked[i]? with
    | none =>
      have hstep : step s (.alloc i) = .ok s := by
        rw [BusPool.step, hi]
      exact ⟨s, hstep, ⟨free, hfree⟩, hchecked⟩
    | some num =>
      obtain ⟨t, pool, xs, ys, hrun, -, -, -, -, hconserved⟩ :=
        hfree.bufListAlloc (hchecked num (List.mem_of_getElem? hi)) (s.checked.eraseIdx i)
      have hstep : step s (.alloc i) =
          .ok ⟨pool, s.checked.eraseIdx i, s.chains ++ [handedOut pool t]⟩ := by
        rw [BusPool.step, hi]
        dsimp only
        rw [hrun]
        rfl
      exact ⟨_, hstep, ⟨ys, hconserved⟩, fun n hn => hchecked n (List.mem_of_mem_eraseIdx hn)⟩
  | linkAlloc num =>
    by_cases hno : num ≤ 0 ∨ s.pool.free ≤ 0
    · have hrun : mbufLinkAlloc s.pool num = .ok (⟨-1, none, none, 0⟩, s.pool) := if_pos hno
      have hstep : step s (.linkAlloc num) = .ok { s with chains := s.chains ++ [[]] } := by
        rw [BusPool.step, hrun]
        rfl
      refine ⟨_, hstep, ⟨free, hfree.chain, hfree.count, ?_⟩, hchecked⟩
      rw [List.flatten_append, List.flatten_cons, List.flatten_nil, List.append_nil, List.append_nil]
      exact hfree.all
    · obtain ⟨t, pool, xs, ys, hrun, -, -, -, -, hconserved⟩ :=
        hfree.bufListAlloc (show 0 < num by omega) s.checked
      have hstep : step s (.linkAlloc num) =
          .ok ⟨pool, s.checked, s.chains ++ [handedOut pool t]⟩ := by
        rw [BusPool.step, hfree.mbufLinkAlloc_eq (by omega) (by omega), hrun]
        rfl
      exact ⟨_, hstep, ⟨ys, hconserved⟩, hchecked⟩
  | free bus head tail num back rest =>
    rcases freeOf_cases bus s.pool head tail num with ⟨t, rfl, hput⟩ | herr
    · have hstep : step s (.free bus head (some t) num back rest) =
          .ok ⟨s.pool.putBack head t num, s.checked, rest⟩ := by
        rw [BusPool.step, hput]
        rfl
      exact ⟨_, hstep, ⟨_, hfree.putBack hassumed.1 hassumed.2 s.checked⟩, hchecked⟩
    · have hstep : step s (.free bus head tail num back rest) = .ok s :=
        congrArg Except.ok (if_neg herr)
      exact ⟨s, hstep, ⟨free, hfree⟩, hchecked⟩
  | user next =>
    refine ⟨_, rfl, ⟨free, hfree.chain.frame fun a ha => hassumed a fun hheld => ?_, hfree.count,
      hfree.all⟩, hchecked⟩
    exact (List.nodup_append.mp hfree.nodup).2.2 a ha a hheld rfl

theorem poolInit_sound {size : ℕ} (hpos : 0 < size) : Sound size ⟨poolInit size, [], []⟩ where
  conserved := by
    refine ⟨List.range size, ?_, by rw [List.length_range]; rfl, by simp⟩
    have hfrom (n k : ℕ) (hk : k + (n + 1) = size) :
        Threads (poolInit size).next (some k) (List.range' k (n + 1)) none := by
      induction n generalizing k with
      | zero =>
        have hlast : ¬ k + 1 < size := by omega
        exact ⟨rfl, if_neg hlast⟩
      | succ n ih =>
        have hmore : k + 1 < size := by omega
        have hnext : (poolInit size).next k = some (k + 1) := if_pos hmore
        refine ⟨rfl, ?_⟩
        rw [hnext]
        exact ih (k + 1) (by omega)
    obtain ⟨n, rfl⟩ := Nat.exists_eq_add_of_le' hpos
    rw [List.range_eq_range']
    exact hfrom n 0 (by omega)
  checked := nofun

/-- An allocation that succeeds takes as many mbufs as were asked for or all there are, and reports
the chain that it hands out. -/
def Served (s : System) (alloc : Pool → ℤ → Except Fault (Taken × Pool)) : Prop :=
  ∀ num, 0 < num → 0 < s.pool.free → ∃ t pool xs, alloc s.pool num = .ok (t, pool) ∧ t.ret = 0 ∧
    t.num = min num s.pool.free ∧ Reports pool.next t xs

/-- In every run the free counter is the length of the free chain, the free chain and the chains
handed out share no mbuf and have every mbuf of the pool once, and allocations report what they
hand out. -/
theorem pools_conserved (size : ℕ) (hpos : 0 < size) (es : List Event)
    (hes : Along step Assumed ⟨poolInit size, [], []⟩ es) :
    ∃ s free, run step ⟨poolInit size, [], []⟩ es = .ok s ∧
      Threads s.pool.next s.pool.head free none ∧ s.pool.free = free.length ∧
      (free :: s.chains).Pairwise List.Disjoint ∧
      (free ++ s.chains.flatten).Perm (List.range size) ∧
      Served s bufListAlloc ∧ Served s mbufLinkAlloc := by
  obtain ⟨s, hrun, ⟨free, hfree⟩, -⟩ := run_completes
    (fun _ _ h hassumed => h.kept hassumed) (poolInit_sound hpos) hes
  have hserved : Served s bufListAlloc := by
    intro num hnum _
    obtain ⟨t, pool, xs, ys, hrun, hreports, hret, hmin, -, -⟩ := hfree.bufListAlloc hnum []
    exact ⟨t, pool, xs, hrun, hret, hmin, hreports⟩
  have hdisjoint : (free :: s.chains).Pairwise List.Disjoint := by
    have hnodup : (free :: s.chains).flatten.Nodup := hfree.nodup
    exact (List.nodup_flatten.mp hnodup).2
  refine ⟨s, free, hrun, hfree.chain, hfree.count, hdisjoint, hfree.all, hserved, ?_⟩
  intro num hnum hsome
  rw [hfree.mbufLinkAlloc_eq hnum hsome]
  exact hserved num hnum hsome

/-- Two mbufs of a pool of three go out and come back, on both ways. -/
theorem two_mbufs_there_and_back :
    let es := [.check 2, .alloc 0, .free .wcnBus (some 0) (some 1) 2 [[0, 1]] [], .linkAlloc 5]
    ∃ s free, run step ⟨poolInit 3, [], []⟩ es = .ok s ∧
      Threads s.pool.next s.pool.head free none ∧ s.pool.free = free.length ∧
      (free :: s.chains).Pairwise List.Disjoint ∧
      (free ++ s.chains.flatten).Perm (List.range 3) ∧
      Served s bufListAlloc ∧ Served s mbufLinkAlloc := by
  refine pools_conserved 3 (by decide) _ ⟨True.intro, fun s hcheck => ?_⟩
  cases hcheck
  refine ⟨True.intro, fun s halloc => ?_⟩
  cases halloc
  refine ⟨⟨.refl _, ⟨none, rfl, rfl, rfl⟩, rfl, rfl⟩, fun s hfree => ?_⟩
  cases hfree
  exact ⟨True.intro, fun _ _ => True.intro⟩

end Uwe5631.BusPool
