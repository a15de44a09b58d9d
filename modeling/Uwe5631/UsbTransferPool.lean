import Uwe5631.FallibleRuns
import Mathlib

/-!
# The pool of USB transfers

The objects of `rx_tx_pool`: those that remain, those that wait until the USB core has freed their
packet, and those that are handed out.
-/
namespace Uwe5631.UsbPool
open FallibleRuns

abbrev POOL_SIZE : ℕ := 500

/-- An object, by its place in the array. -/
abbrev RxTx := ℕ

/-- `rx_tx_pool`, with the reference counts of the URBs of its packets and the objects that are handed
out. -/
structure Pool where
  locked : Bool
  remain : List RxTx
  waitFree : List RxTx
  refcount : RxTx → ℕ
  handedOut : List RxTx

inductive Fault where
  /-- `spin_lock_bh` on a lock that is held -/
  | deadlock
  deriving DecidableEq, Repr

def Pool.spinLockBh (pool : Pool) : Except Fault Pool :=
  if pool.locked then .error .deadlock else .ok { pool with locked := true }

def Pool.spinUnlockBh (pool : Pool) : Pool := { pool with locked := false }

/-- `wcn_usb_packet_is_freed` -/
def Pool.packetIsFreed (pool : Pool) (x : RxTx) : Bool := pool.refcount x = 1

/-- `wcn_usb_rx_tx_pool_checkout_freed` -/
def Pool.checkoutFreed (pool : Pool) : Pool :=
  { pool with
    remain := pool.remain ++ pool.waitFree.filter pool.packetIsFreed
    waitFree := pool.waitFree.filter fun x => !pool.packetIsFreed x }

/-- `wcn_usb_rx_tx_pool_zalloc`; `wcn_usb_packet_clean` leaves the URB with one reference. -/
def zalloc (pool : Pool) : Except Fault (Option RxTx × Pool) :=
  pool.spinLockBh.bind fun pool =>
    let pool := if pool.remain = [] then pool.checkoutFreed else pool
    match pool.remain with
    | [] => pool.spinLockBh.map fun pool => (none, pool)
    | x :: rest =>
      let pool := { pool with remain := rest, refcount := Function.update pool.refcount x 1 }
      .ok (some x, pool.spinUnlockBh)

/-- `wcn_usb_rx_tx_pool_free` -/
def free (pool : Pool) : Option RxTx → Except Fault Pool
  | none => .ok pool
  | some x =>
    pool.spinLockBh.map fun pool =>
      Pool.spinUnlockBh (Pool.checkoutFreed { pool with waitFree := pool.waitFree ++ [x] })

inductive Event where
  | zalloc
  | free (x : Option RxTx)
  /-- the USB core takes and drops references of a URB -/
  | urb (x : RxTx) (refcount : ℕ)

/-- What is given back is an object that is handed out. -/
def step (pool : Pool) : Event → Except Fault Pool
  | .zalloc => (zalloc pool).map fun r => { r.2 with handedOut := r.2.handedOut ++ r.1.toList }
  | .free none => free pool none
  | .free (some x) =>
    if x ∈ pool.handedOut then (free pool (some x)).map fun r => { r with handedOut := r.handedOut.erase x }
    else .ok pool
  | .urb x refcount => .ok { pool with refcount := Function.update pool.refcount x refcount }

/-- `wcn_usb_rx_tx_pool_init` -/
def poolInit : Pool := ⟨false, List.range POOL_SIZE, [], fun _ => 1, []⟩

/-- Each object is at one place, and the lock is released. -/
structure Conserved (pool : Pool) : Prop where
  objects : (pool.remain ++ pool.waitFree ++ pool.handedOut).Perm (List.range POOL_SIZE)
  unlocked : pool.locked = false

/-- An object remains, or one that waits is freed. -/
def Available (pool : Pool) : Event → Prop
  | .zalloc => pool.remain ≠ [] ∨ ∃ x ∈ pool.waitFree, pool.packetIsFreed x = true
  | .free _ | .urb .. => True

instance (pool : Pool) (e : Event) : Decidable (Available pool e) := by
  cases e with
  | zalloc =>
    exact inferInstanceAs (Decidable (_ ∨ ∃ x ∈ pool.waitFree, pool.packetIsFreed x = true))
  | free | urb => exact isTrue trivial

variable {pool : Pool}

theorem checkoutFreed_perm (pool : Pool) :
    (pool.checkoutFreed.remain ++ pool.checkoutFreed.waitFree).Perm (pool.remain ++ pool.waitFree) := by
  rw [Pool.checkoutFreed, List.append_assoc]
  exact List.Perm.append_left _ (List.filter_append_perm pool.packetIsFreed pool.waitFree)

/-- The objects are conserved by taking the first that remains. -/
theorem Conserved.zalloc (h : Conserved pool) (havail : Available pool .zalloc) :
    ∃ x pool', UsbPool.zalloc pool = .ok (some x, pool') ∧
      Conserved { pool' with handedOut := pool'.handedOut ++ [x] } := by
  have hlock : pool.spinLockBh = .ok { pool with locked := true } := if_neg (by simp [h.unlocked])
  let cand : Pool := if pool.remain = [] then Pool.checkoutFreed { pool with locked := true }
    else { pool with locked := true }
  have hperm : (cand.remain ++ cand.waitFree).Perm (pool.remain ++ pool.waitFree) := by
    by_cases hempty : pool.remain = []
    · simp only [cand, if_pos hempty]
      exact checkoutFreed_perm { pool with locked := true }
    · simp only [cand, if_neg hempty]
      exact List.Perm.refl _
  have hhanded : cand.handedOut = pool.handedOut := by
    by_cases hempty : pool.remain = []
    · simp only [cand, if_pos hempty]
      rfl
    · simp only [cand, if_neg hempty]
  have hne : cand.remain ≠ [] := by
    by_cases hempty : pool.remain = []
    · obtain ⟨x, hx, hfreed⟩ := havail.resolve_left (not_not.mpr hempty)
      simp only [cand, if_pos hempty, Pool.checkoutFreed]
      exact List.append_ne_nil_of_right_ne_nil _
        (List.ne_nil_of_mem (List.mem_filter.mpr ⟨hx, hfreed⟩))
    · simpa only [cand, if_neg hempty] using hempty
  cases hremain : cand.remain with
  | nil => exact absurd hremain hne
  | cons x rest =>
    have hzalloc : UsbPool.zalloc pool = .ok (some x, Pool.spinUnlockBh
        { cand with remain := rest, refcount := Function.update cand.refcount x 1 }) := by
      rw [UsbPool.zalloc, hlock, ok_bind]
      change (match cand.remain with
        | [] => cand.spinLockBh.map fun pool => (none, pool)
        | x :: rest => _) = _
      rw [hremain]
    refine ⟨x, _, hzalloc, ?_, rfl⟩
    rw [hremain] at hperm
    refine List.Perm.trans ?_ h.objects
    have hmove : (rest ++ cand.waitFree ++ (cand.handedOut ++ [x])).Perm
        (x :: rest ++ cand.waitFree ++ cand.handedOut) := by
      rw [← List.append_assoc]
      exact List.perm_append_comm
    refine hmove.trans ?_
    rw [hhanded]
    exact hperm.append_right _

theorem Conserved.free (h : Conserved pool) {x : RxTx} (hx : x ∈ pool.handedOut) :
    ∃ pool', UsbPool.free pool (some x) = .ok pool' ∧
      Conserved { pool' with handedOut := pool'.handedOut.erase x } := by
  have hlock : pool.spinLockBh = .ok { pool with locked := true } := if_neg (by simp [h.unlocked])
  refine ⟨_, by rw [UsbPool.free, hlock, ok_map], ?_, rfl⟩
  have hcheckout := checkoutFreed_perm
    { pool with locked := true, waitFree := pool.waitFree ++ [x] }
  refine List.Perm.trans (hcheckout.append_right _) (List.Perm.trans ?_ h.objects)
  have hback := List.perm_cons_erase hx
  rw [← List.append_assoc, List.append_assoc _ [x], List.singleton_append]
  exact List.Perm.append_left _ hback.symm

theorem Conserved.goes (h : Conserved pool) {e : Event} (havail : Available pool e) :
    ∃ pool', step pool e = .ok pool' ∧ Conserved pool' := by
  cases e with
  | zalloc =>
    obtain ⟨x, pool', hzalloc, hconserved⟩ := h.zalloc havail
    exact ⟨_, by rw [step, hzalloc, ok_map]; rfl, hconserved⟩
  | free x =>
    cases x with
    | none => exact ⟨pool, rfl, h⟩
    | some x =>
      rw [step]
      split
      · obtain ⟨pool', hfree, hconserved⟩ := h.free ‹x ∈ pool.handedOut›
        exact ⟨_, by rw [hfree, ok_map], hconserved⟩
      · exact ⟨pool, rfl, h⟩
  | urb x refcount => exact ⟨_, rfl, h.objects, h.unlocked⟩

/-- When no object can be had, the lock is taken a second time. -/
theorem step_stops (hunlocked : pool.locked = false) {e : Event} (havail : ¬ Available pool e) :
    step pool e = .error .deadlock := by
  cases e with
  | zalloc =>
    obtain ⟨hempty, hwait⟩ := not_or.mp havail
    have hempty := not_not.mp hempty
    have hnone : pool.waitFree.filter pool.packetIsFreed = [] := by
      rw [List.filter_eq_nil_iff]
      exact fun x hx hfreed => hwait ⟨x, hx, hfreed⟩
    have hlock : pool.spinLockBh = .ok { pool with locked := true } := if_neg (by simp [hunlocked])
    have hremain : (Pool.checkoutFreed { pool with locked := true }).remain = [] := by
      change pool.remain ++ pool.waitFree.filter pool.packetIsFreed = []
      rw [hempty, hnone, List.append_nil]
    rw [step, UsbPool.zalloc, hlock, ok_bind]
    dsimp only
    rw [if_pos hempty, hremain]
    rfl
  | free | urb => exact absurd trivial havail

theorem poolInit_conserved : Conserved poolInit := ⟨by simp [poolInit], rfl⟩

/-- The pool is conserved and every operation returns with the lock released, all along a run, exactly
if an object can be had whenever one is wanted. -/
theorem pool_conserved_iff (es : List Event) :
    ((∃ t, run step poolInit es = .ok t) ∧
      ∀ es₁ es₂ t, es = es₁ ++ es₂ → run step poolInit es₁ = .ok t → Conserved t) ↔
    Along step Available poolInit es := by
  have hiff : (∃ t, run step poolInit es = .ok t) ↔ Along step Available poolInit es := by
    apply completes_iff_along _ _ poolInit_conserved
    · intro pool e h havail
      exact h.goes havail
    · intro pool e h havail
      exact ⟨_, step_stops h.unlocked havail⟩
  constructor
  · intro h
    exact hiff.mp h.1
  · intro h
    refine ⟨hiff.mpr h, ?_⟩
    rintro es₁ es₂ t rfl ht
    refine run_invariant (fun pool e pool' h havail hs => ?_) poolInit_conserved (along_append.mp h).1 ht
    obtain ⟨pool'', hs', hconserved⟩ := Conserved.goes h havail
    rwa [Except.ok.inj (hs.symm.trans hs')]

theorem step_takes {x : RxTx} {rest : List RxTx} (hunlocked : pool.locked = false)
    (hremain : pool.remain = x :: rest) : step pool .zalloc =
      .ok { pool with
        remain := rest
        refcount := Function.update pool.refcount x 1
        handedOut := pool.handedOut ++ [x] } := by
  have hlock : pool.spinLockBh = .ok { pool with locked := true } := if_neg (by simp [hunlocked])
  have hne : ¬ pool.remain = [] := by simp [hremain]
  rw [step, zalloc, hlock, ok_bind]
  dsimp only
  rw [if_neg hne, hremain]
  simp only [ok_map, Pool.spinUnlockBh, hunlocked, Option.toList_some]

/-- As many objects are handed out as remain. -/
theorem run_empties {xs : List RxTx} (hunlocked : pool.locked = false) (hremain : pool.remain = xs) :
    ∃ t, run step pool (List.replicate xs.length .zalloc) = .ok t ∧ t.remain = [] ∧
      t.waitFree = pool.waitFree ∧ t.locked = false := by
  induction xs generalizing pool with
  | nil => exact ⟨pool, rfl, hremain, rfl, hunlocked⟩
  | cons x rest ih =>
    rw [List.length_cons, List.replicate_succ, run_cons_ok (step_takes hunlocked hremain)]
    exact ih hunlocked rfl

/-- Every object is handed out, and one more is wanted. -/
theorem exhausted_pool_deadlocks :
    ¬ ((∃ t, run step poolInit (List.replicate (POOL_SIZE + 1) .zalloc) = .ok t) ∧
      ∀ es₁ es₂ t, List.replicate (POOL_SIZE + 1) .zalloc = es₁ ++ es₂ →
        run step poolInit es₁ = .ok t → Conserved t) := by
  rintro ⟨⟨t, ht⟩, -⟩
  have hall : poolInit.remain = List.range POOL_SIZE := by simp only [poolInit]
  obtain ⟨u, hu, hremain, hwait, hunlocked⟩ := run_empties rfl hall
  rw [List.length_range] at hu
  have havail : ¬ Available u .zalloc := by
    rw [Available, hremain, hwait]
    rintro (hne | ⟨x, hx, -⟩)
    · exact hne rfl
    · cases hx
  have hlast : run step u [.zalloc] = .error .deadlock := by
    rw [run_cons, step_stops hunlocked havail]
    rfl
  rw [List.replicate_succ', run_append, hu, ok_bind, hlast] at ht
  cases ht

end Uwe5631.UsbPool
