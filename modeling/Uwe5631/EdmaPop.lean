import Uwe5631.EdmaRing

/-!
# What a list of taken back mbufs is worth

`edma_pop_link` can give up at any descriptor. Its callers do not look at what it returns: if the
count is not zero, they hand the list on.
-/
namespace Uwe5631.Edma
open RingBuffer LinkedChains FallibleRuns

/-- The descriptors from the head of the ring up to one. -/
def pending (c : Channel) (e : ℕ) : List Desc :=
  (List.range (c.ring.ahead c.ring.head e)).map fun k => c.ring.mem (c.ring.after c.ring.head k)

/-- A descriptor that can be taken back: its done bit is set, and it has an mbuf. -/
def Ready (d : Desc) : Prop := d.chnTransLen.done = true ∧ d.link ≠ none

/-- What the callers rely on when they hand on `node` mbufs from `*head__` to `*tail__`: the list is
made of those of the descriptors that the ring has let go, it has both ends or none, and if the
function returns 0, these are all the descriptors up to `e`. -/
structure PopSound (c : Channel) (e : ℕ) (ret : ℤ) (p : Popped) (c' : Channel) : Prop where
  head : c'.ring.head = c.ring.after c.ring.head p.node
  free : c'.ring.free = c.ring.free + p.node
  list : ∃ as, ((pending c e).take p.node).map Desc.link = as.map some ∧
    Holds (fun a => (c'.mbufs a).next) ⟨p.head, p.tail, p.node⟩ as
  ends : p.head = none ↔ p.tail = none
  all : ret = 0 → p.node = (pending c e).length

/-- Every descriptor can be taken back, and no two have the same mbuf. -/
def AllReady (c : Channel) (e : ℕ) : Prop :=
  (∀ d ∈ pending c e, Ready d) ∧ ((pending c e).map Desc.link).Nodup

variable {c : Channel} {e n : ℕ}

@[simp] theorem length_pending : (pending c e).length = c.ring.ahead c.ring.head e := by
  rw [pending, List.length_map, List.length_range]

/-- The channel after a descriptor is taken back, with the mbufs then. -/
def taken (c : Channel) (mbufs : MbufAddr → Mbuf) : Channel :=
  { c with
    mbufs := mbufs
    ring := DscrRing.write
      { c.ring with head := (c.ring.mem c.ring.head).next, free := c.ring.free + 1 } c.ring.head
      (dscrZero (c.ring.mem c.ring.head)) }

theorem taken_accounted (h : Accounted c.ring) (hopen : c.ring.head ≠ c.ring.tail)
    (mbufs : MbufAddr → Mbuf) : Accounted (taken c mbufs).ring :=
  (h.take hopen).write rfl

theorem ahead_taken (h : Accounted c.ring) (he : e ≤ c.ring.size) (hne : c.ring.head ≠ e)
    (mbufs : MbufAddr → Mbuf) :
    (taken c mbufs).ring.ahead (taken c mbufs).ring.head e + 1 = c.ring.ahead c.ring.head e := by
  have hfirst := ahead_next_left h.head_lt (Nat.lt_succ_of_le he) hne
  have hpos : c.ring.ahead c.ring.head e ≠ 0 := fun hzero =>
    hne ((ahead_eq_zero h.head_lt (Nat.lt_succ_of_le he)).mp hzero)
  dsimp only [taken, DscrRing.write, DscrRing.ahead] at hfirst hpos ⊢
  rw [h.next _ h.head]
  omega

/-- Taking a descriptor back leaves the others. -/
theorem pending_taken (h : Accounted c.ring) (he : e ≤ c.ring.size) (hne : c.ring.head ≠ e)
    (mbufs : MbufAddr → Mbuf) :
    pending c e = c.ring.mem c.ring.head :: pending (taken c mbufs) e := by
  have hahead := ahead_taken h he hne mbufs
  have hlt : c.ring.ahead c.ring.head e < c.ring.size + 1 :=
    ahead_lt h.head_lt (Nat.lt_succ_of_le he)
  rw [pending, pending, ← hahead, List.range_succ_eq_map, List.map_cons, List.map_map]
  congr 1
  · rw [DscrRing.after, after_zero h.head_lt]
  · refine List.map_congr_left fun k hk => ?_
    rw [List.mem_range] at hk
    have hstep : (taken c mbufs).ring.after (taken c mbufs).ring.head k =
        c.ring.after c.ring.head (k + 1) := by
      dsimp only [taken, DscrRing.write, DscrRing.after]
      rw [h.next _ h.head]
      exact after_next h.head_lt k
    have hother : c.ring.after c.ring.head (k + 1) ≠ c.ring.head := by
      intro hsame
      have hzero := after_inj h.head_lt (by omega) (Nat.succ_pos _)
        (hsame.trans (after_zero h.head_lt).symm)
      omega
    rw [hstep]
    exact (write_mem_ne hother _ _).symm

/-- The mbufs after one more is put behind the last one and its length is written. -/
def received (mbufs : MbufAddr → Mbuf) (last : Option MbufAddr) (addr : MbufAddr)
    (len : BitVec 16) : MbufAddr → Mbuf :=
  let linked := match last with
    | some l => setMbufNext mbufs l (some addr)
    | none => mbufs
  Function.update linked addr { linked addr with len := len }

/-- The links of a family of mbufs. -/
def links (mbufs : MbufAddr → Mbuf) (a : MbufAddr) : Option MbufAddr := (mbufs a).next

theorem links_setMbufNext (mbufs : MbufAddr → Mbuf) (addr : MbufAddr) (next : Option MbufAddr) :
    links (setMbufNext mbufs addr next) = Function.update (links mbufs) addr next := by
  funext a
  exact Function.apply_update (fun _ => Mbuf.next) mbufs addr _ a

theorem links_received (mbufs : MbufAddr → Mbuf) (last : Option MbufAddr) (addr : MbufAddr)
    (len : BitVec 16) (as : List MbufAddr) :
    relink (links (received mbufs last addr len)) (some addr) as =
      relink (links mbufs) last (addr :: as) := by
  have hlen (linked : MbufAddr → Mbuf) :
      links (Function.update linked addr { linked addr with len := len }) = links linked := by
    funext a
    refine (Function.apply_update (fun _ => Mbuf.next) linked addr _ a).trans ?_
    exact congrFun (Function.update_eq_self addr (links linked)) a
  cases last with
  | none => rw [received, hlen, relink]
  | some l => rw [received, hlen, links_setMbufNext, relink]

/-- A turn of the loop at a descriptor that can be taken back. -/
theorem popLoop_ready {addr : MbufAddr} (hdone : (c.ring.mem c.ring.head).chnTransLen.done = true)
    (hlink : (c.ring.mem c.ring.head).link = some addr) (last : Option MbufAddr) (p : Popped) :
    popLoop e (n + 1) c.ring.head last p c =
      let mbufs := received c.mbufs last addr (c.ring.mem c.ring.head).chnTransLen.trscLen
      let p : Popped := ⟨p.head.or (some addr), p.tail, p.node + 1⟩
      if (c.ring.mem c.ring.head).next = e then
        .ok (0, { p with tail := some addr }, taken c (setMbufNext mbufs addr none))
      else popLoop e n (taken c mbufs).ring.head (some addr) p (taken c mbufs) := by
  have hpoll : ¬ dscrPolling (c.ring.mem c.ring.head) ≠ 0 := by
    simp [dscrPolling, hdone]
  have hhead : (if p.head = none then some addr else p.head) = p.head.or (some addr) := by
    cases p.head <;> rfl
  conv_lhs => unfold popLoop
  dsimp only
  rw [if_neg hpoll, hlink]
  cases last <;> simp only [hhead] <;> rfl

/-- A turn of the loop at a descriptor that cannot be taken back, which ends it. -/
theorem popLoop_not_ready (h : ¬ Ready (c.ring.mem c.ring.head)) (last : Option MbufAddr)
    (p : Popped) : ∃ mbufs, popLoop e (n + 1) c.ring.head last p c =
      .ok (-1, p, { c with mbufs := mbufs }) := by
  unfold popLoop
  dsimp only
  by_cases hdone : (c.ring.mem c.ring.head).chnTransLen.done = true
  · have hlink : (c.ring.mem c.ring.head).link = none := by
      by_contra hsome
      exact h ⟨hdone, hsome⟩
    have hpoll : ¬ dscrPolling (c.ring.mem c.ring.head) ≠ 0 := by
      simp [dscrPolling, hdone]
    have hhead : (if p.head = none then none else p.head) = p.head := by
      cases p.head <;> rfl
    rw [if_neg hpoll, hlink]
    cases last with
    | none => exact ⟨c.mbufs, by simp only [hhead]⟩
    | some l => exact ⟨setMbufNext c.mbufs l none, by simp only [hhead]⟩
  · have hpoll : dscrPolling (c.ring.mem c.ring.head) ≠ 0 := by
      simp [dscrPolling, hdone]
    exact ⟨c.mbufs, by rw [if_pos hpoll]⟩

section Loop
variable (h : Accounted c.ring) (he : e ≤ c.ring.size) (hne : c.ring.head ≠ e)
  (hle : c.ring.ahead c.ring.head e ≤ c.ring.ahead c.ring.head c.ring.tail)
include h he hne hle

theorem head_ne_tail : c.ring.head ≠ c.ring.tail := by
  intro hempty
  rw [DscrRing.ahead, DscrRing.ahead, ← hempty, ahead_self, Nat.le_zero] at hle
  exact hne ((ahead_eq_zero h.head_lt (Nat.lt_succ_of_le he)).mp hle)

theorem taken_between (mbufs : MbufAddr → Mbuf) :
    (taken c mbufs).ring.ahead (taken c mbufs).ring.head e ≤
      (taken c mbufs).ring.ahead (taken c mbufs).ring.head (taken c mbufs).ring.tail := by
  have hfirst := ahead_taken h he hne mbufs
  have hsecond : (taken c mbufs).ring.ahead (taken c mbufs).ring.head c.ring.tail + 1 = _ :=
    ahead_taken h h.tail (head_ne_tail h he hne hle) mbufs
  change _ ≤ (taken c mbufs).ring.ahead (taken c mbufs).ring.head c.ring.tail
  omega

/-- If every descriptor can be taken back, the loop goes through to the end. -/
theorem popLoop_all (hn : c.ring.ahead c.ring.head e ≤ n) (last : Option MbufAddr) (p : Popped)
    {as : List MbufAddr} (hdone : ∀ d ∈ pending c e, d.chnTransLen.done = true)
    (hlinks : (pending c e).map Desc.link = as.map some) :
    ∃ c', popLoop e n c.ring.head last p c =
        .ok (0, ⟨p.head.or as.head?, as.getLast?, p.node + as.length⟩, c') ∧
      c'.ring.head = e ∧ c'.ring.free = c.ring.free + as.length ∧
      links c'.mbufs = relink (links c.mbufs) last as := by
  induction n generalizing c last p as with
  | zero =>
    have hzero := Nat.le_zero.mp hn
    exact absurd ((ahead_eq_zero h.head_lt (Nat.lt_succ_of_le he)).mp hzero) hne
  | succ n ih =>
    have hopen := head_ne_tail h he hne hle
    cases as with
    | nil =>
      rw [pending_taken h he hne c.mbufs] at hlinks
      cases hlinks
    | cons addr as =>
      have hsplit := pending_taken h he hne
      have hfirst : (c.ring.mem c.ring.head).chnTransLen.done = true :=
        hdone _ (by rw [hsplit c.mbufs]; exact List.mem_cons_self)
      have hlink : (c.ring.mem c.ring.head).link = some addr := by
        rw [hsplit c.mbufs, List.map_cons, List.map_cons] at hlinks
        exact (List.cons.inj hlinks).1
      rw [popLoop_ready hfirst hlink]
      dsimp only
      by_cases hend : (c.ring.mem c.ring.head).next = e
      · have hnil : as = [] := by
          have hahead := ahead_taken h he hne c.mbufs
          rw [show (taken c c.mbufs).ring.head = e from hend, DscrRing.ahead, ahead_self] at hahead
          have hlen := congrArg List.length hlinks
          rw [List.length_map, List.length_map, length_pending, List.length_cons] at hlen
          exact List.length_eq_zero_iff.mp (by omega)
        subst hnil
        rw [if_pos hend]
        refine ⟨_, rfl, hend, rfl, ?_⟩
        rw [taken, links_setMbufNext, ← links_received]
        rfl
      · rw [if_neg hend]
        obtain ⟨c', hrun, hhead, hfree, hnext⟩ := ih
          (taken_accounted h hopen (received c.mbufs last addr
            (c.ring.mem c.ring.head).chnTransLen.trscLen)) he hend
          (taken_between h he hne hle _)
          (by
            have := ahead_taken h he hne (received c.mbufs last addr
              (c.ring.mem c.ring.head).chnTransLen.trscLen)
            omega) (some addr) ⟨p.head.or (some addr), p.tail, p.node + 1⟩
          (fun d hd => hdone d (by rw [hsplit]; exact List.mem_cons_of_mem _ hd))
          (by
            rw [hsplit, List.map_cons, List.map_cons] at hlinks
            exact (List.cons.inj hlinks).2)
        refine ⟨c', ?_, hhead, ?_, ?_⟩
        · have hmore : as ≠ [] := by
            rintro rfl
            rw [hsplit (received c.mbufs last addr
              (c.ring.mem c.ring.head).chnTransLen.trscLen)] at hlinks
            have hlen := congrArg List.length hlinks
            rw [List.length_map, List.length_cons, length_pending] at hlen
            exact hend ((ahead_eq_zero (taken_accounted h hopen _).head_lt
              (Nat.lt_succ_of_le he)).mp (Nat.succ.inj hlen))
          obtain ⟨b, bs, rfl⟩ := List.exists_cons_of_ne_nil hmore
          rw [hrun, List.getLast?_cons_cons, List.length_cons, List.length_cons]
          have hnode : p.node + 1 + (bs.length + 1) = p.node + (bs.length + 1 + 1) := by omega
          cases hhead : p.head <;> simp [hnode]
        · rw [hfree]
          change c.ring.free + 1 + (as.length : ℤ) = _
          rw [List.length_cons]
          omega
        · rw [hnext]
          exact links_received ..

/-- If one cannot, a loop that has taken one back or can ends without a last mbuf. -/
theorem popLoop_stops (hn : c.ring.ahead c.ring.head e ≤ n) (last : Option MbufAddr) (p : Popped)
    (hfirst : p.head ≠ none ∨ Ready (c.ring.mem c.ring.head))
    (hstop : ∃ d ∈ pending c e, ¬ Ready d) :
    ∃ first node c', popLoop e n c.ring.head last p c =
      .ok (-1, ⟨some first, p.tail, node⟩, c') := by
  induction n generalizing c last p with
  | zero =>
    have hzero := Nat.le_zero.mp hn
    exact absurd ((ahead_eq_zero h.head_lt (Nat.lt_succ_of_le he)).mp hzero) hne
  | succ n ih =>
    by_cases hready : Ready (c.ring.mem c.ring.head)
    · have hopen := head_ne_tail h he hne hle
      obtain ⟨hdone, hsome⟩ := hready
      obtain ⟨addr, hlink⟩ := Option.ne_none_iff_exists'.mp hsome
      rw [popLoop_ready hdone hlink]
      dsimp only
      obtain ⟨d, hd, hnot⟩ := hstop
      rw [pending_taken h he hne (received c.mbufs last addr
        (c.ring.mem c.ring.head).chnTransLen.trscLen), List.mem_cons] at hd
      have hbehind := hd.resolve_left (by
        rintro rfl
        exact hnot ⟨hdone, hsome⟩)
      have hend : (c.ring.mem c.ring.head).next ≠ e := by
        intro hend
        have hlen := length_pending (c := taken c (received c.mbufs last addr
          (c.ring.mem c.ring.head).chnTransLen.trscLen)) (e := e)
        rw [show (taken c _).ring.head = e from hend, DscrRing.ahead, ahead_self,
          List.length_eq_zero_iff] at hlen
        rw [hlen] at hbehind
        cases hbehind
      rw [if_neg hend]
      exact ih (taken_accounted h hopen _) he hend (taken_between h he hne hle _)
        (by
          have := ahead_taken h he hne (received c.mbufs last addr
            (c.ring.mem c.ring.head).chnTransLen.trscLen)
          omega) (some addr) ⟨p.head.or (some addr), p.tail, p.node + 1⟩
        (.inl (by cases p.head <;> simp)) ⟨d, hbehind, hnot⟩
    · obtain ⟨mbufs, hrun⟩ := popLoop_not_ready (e := e) (n := n) hready last p
      obtain ⟨first, hhead⟩ := Option.ne_none_iff_exists'.mp (hfirst.resolve_right hready)
      refine ⟨first, p.node, { c with mbufs := mbufs }, hrun.trans ?_⟩
      rw [← hhead]

end Loop

theorem exists_links {ds : List Desc} (h : ∀ d ∈ ds, Ready d) :
    ∃ as : List MbufAddr, ds.map Desc.link = as.map some := by
  induction ds with
  | nil => exact ⟨[], rfl⟩
  | cons d ds ih =>
    rw [List.forall_mem_cons] at h
    obtain ⟨as, has⟩ := ih h.2
    obtain ⟨addr, hlink⟩ := Option.ne_none_iff_exists'.mp h.1.2
    exact ⟨addr :: as, by rw [List.map_cons, List.map_cons, hlink, has]⟩

/-- For every ring, the callers may use what `edma_pop_link` leaves exactly if all the descriptors
can be taken back, with different mbufs, or already the first one cannot. -/
theorem edma_pop_iff (c : Channel) (e : ℕ) (h : Accounted c.ring) (hhw : HwBetween c.ring e)
    (hne : c.ring.head ≠ e) :
    (∃ ret p c', edmaPopLink c c.ring.head e = .ok (ret, p, c') ∧ PopSound c e ret p c') ↔
      AllReady c e ∨ ¬ Ready (c.ring.mem c.ring.head) := by
  have hlt : c.ring.ahead c.ring.head e ≤ c.ring.size + 1 :=
    Nat.le_of_lt (ahead_lt h.head_lt (Nat.lt_succ_of_le hhw.range))
  by_cases hfirst : Ready (c.ring.mem c.ring.head)
  · by_cases hall : ∀ d ∈ pending c e, Ready d
    · obtain ⟨as, has⟩ := exists_links hall
      have hlen : as.length = (pending c e).length := by
        simpa using (congrArg List.length has).symm
      obtain ⟨c', hrun, hhead, hfree, hnext⟩ := popLoop_all h hhw.range hne hhw.between hlt none
        ⟨none, none, 0⟩ (fun d hd => (hall d hd).1) has
      have hnodup : ((pending c e).map Desc.link).Nodup ↔ as.Nodup := by
        rw [has]
        exact List.nodup_map_iff (Option.some_injective _)
      constructor
      · rintro ⟨ret, p, c'', hrun', hsound⟩
        cases hrun'.symm.trans hrun
        obtain ⟨as', has', hholds⟩ := hsound.list
        rw [List.take_of_length_le (by simp [hlen]), has] at has'
        obtain rfl := List.map_injective_iff.mpr (Option.some_injective _) has'
        exact .inl ⟨hall, hnodup.mpr hholds.nodup⟩
      · rintro (⟨-, hdistinct⟩ | hnot)
        · have hholds := relink_holds (links c.mbufs) (hnodup.mp hdistinct)
          rw [← hnext] at hholds
          change Holds (fun a => (c'.mbufs a).next) _ _ at hholds
          refine ⟨_, _, c', hrun, ?_, ?_, ⟨as, ?_, ?_⟩, ?_, fun _ => ?_⟩
          · dsimp only
            rw [hhead, Nat.zero_add, hlen, length_pending]
            exact (after_ahead h.head_lt (Nat.lt_succ_of_le hhw.range)).symm
          · rw [hfree]
            simp
          · rw [List.take_of_length_le (by simp [hlen]), has]
          · simpa using hholds
          · simp [List.getLast?_eq_none_iff]
          · simp [hlen]
        · exact absurd hfirst hnot
    · have hstop : ∃ d ∈ pending c e, ¬ Ready d := by simpa using hall
      refine iff_of_false ?_ (by rintro (hready | hnot); exacts [hall hready.1, hnot hfirst])
      rintro ⟨ret, p, c', hrun, hsound⟩
      obtain ⟨first, node, c'', hrun'⟩ := popLoop_stops h hhw.range hne hhw.between hlt none
        ⟨none, none, 0⟩ (.inr hfirst) hstop
      cases hrun.symm.trans hrun'
      -- The list that is handed on has a head and no tail.
      exact Option.some_ne_none _ (hsound.ends.mpr rfl)
  · obtain ⟨mbufs, hrun⟩ := popLoop_not_ready (e := e) (n := c.ring.size) hfirst none
      ⟨none, none, 0⟩
    refine iff_of_true ⟨-1, _, _, hrun, ?_, ?_, ⟨[], rfl, holds_empty ..⟩, Iff.rfl, ?_⟩ (.inr hfirst)
    · exact (after_zero h.head_lt).symm
    · simp
    · intro hret
      cases hret

/-- Two linked mbufs. -/
def twoMbufs : MbufAddr → Mbuf := fun a => ⟨if a = 1 then some 2 else none, 0x1000, 64⟩

/-- The descriptor of one of them. -/
def sentDesc (i : ℕ) (done : Bool) : Desc :=
  { (dscrRingInit TX 3).mem i with
    chnTransLen := { clearedTransLen with trscLen := 64, done := done }
    link := some (i + 1) }

/-- A ring with both, of which the hardware is through; the second may lack its done bit. -/
def twoSent (done : Bool) : Channel :=
  { edmaChnInit TX 3 0 twoMbufs with
    hwNext := 2
    ring :=
      { dscrRingInit TX 3 with
        tail := 2
        free := 1
        mem := fun i => if i = 0 then sentDesc 0 true else if i = 1 then sentDesc 1 done
          else (dscrRingInit TX 3).mem i } }

theorem edma_pop_iff_two :
    (∃ ret p c', edmaPopLink (twoSent true) 0 2 = .ok (ret, p, c') ∧
        PopSound (twoSent true) 2 ret p c') ↔
      AllReady (twoSent true) 2 ∨ ¬ Ready (sentDesc 0 true) :=
  edma_pop_iff (twoSent true) 2 ⟨by decide, by decide, by decide, by decide⟩
    ⟨by decide, by decide⟩ (by decide)

/-- One mbuf is taken back: the list has a head and a count, no tail, and goes on behind it. -/
theorem edma_pop_half :
    ∃ c', edmaPopLink (twoSent false) 0 2 = .ok (-1, ⟨some 1, none, 1⟩, c') ∧
      c'.ring.head = 1 ∧ (c'.mbufs 1).next = some 2 :=
  ⟨_, rfl, rfl, rfl⟩

end Uwe5631.Edma
