import Uwe5631.FallibleRuns
import Mathlib.Data.BitVec
import Mathlib.Data.List.FinRange

/-!
# Firmware interface table

The mode of an interface, `fw_stat` of the mode and the context the firmware holds for it are three
records of one fact. The driver is built with `STA_SOFTAP_SCC_MODE`.
-/
namespace Uwe5631.FwTable
open FallibleRuns

abbrev EIO : ℤ := 5

abbrev EBUSY : ℤ := 16

abbrev EINVAL : ℤ := 22

abbrev EOPNOTSUPP : ℤ := 95

/-- `enum nl80211_iftype` -/
inductive Iftype where
  | station
  | ap
  | p2pGo
  | p2pClient
  | p2pDevice
  | adhoc
  | other
  deriving DecidableEq, Repr

/-- `enum sprdwl_mode` -/
inductive Mode where
  | none
  | station
  | ap
  | p2pDevice
  | p2pClient
  | p2pGo
  | ibss
  deriving DecidableEq, Repr

/-- `SPRDWL_INTF_CLOSE`, `SPRDWL_INTF_OPEN` and `SPRDWL_INTF_CLOSING` -/
inductive FwStat where
  | close
  | open
  | closing
  deriving DecidableEq, Repr

structure Vif where
  iftype : Iftype
  mode : Mode
  ctxId : BitVec 8
  deriving DecidableEq, Repr

structure State (n : ℕ) where
  /-- the interfaces in the order of `vif_list` -/
  vif : Fin n → Vif
  fwStat : Mode → FwStat
  /-- the contexts the firmware holds open -/
  context : BitVec 8 → Mode → Bool

/-- How it goes with `WIFI_CMD_OPEN`: the firmware opens a context and the driver gets to know it,
or does not, or the firmware opens none. -/
inductive OpenResult where
  | ok (ctxId : BitVec 8)
  | lost (ctxId : BitVec 8)
  | refused
  deriving DecidableEq, Repr

/-- How it goes with `WIFI_CMD_CLOSE`: there is no buffer for it, or the firmware closes the context
or does not, which is all the same to `sprdwl_close_fw`. -/
inductive CloseResult where
  | noBuf
  | sent (closed : Bool)
  deriving DecidableEq, Repr

def typeToMode : Iftype → Mode
  | .station => .station
  | .ap => .ap
  | .p2pGo => .p2pGo
  | .p2pClient => .p2pClient
  | .p2pDevice => .p2pDevice
  | .adhoc => .ibss
  | .other => .none

variable {n : ℕ}

def State.onVif (s : State n) (i : Fin n) (v : Vif) : State n :=
  { s with vif := Function.update s.vif i v }

def State.setStat (s : State n) (m : Mode) (stat : FwStat) : State n :=
  { s with fwStat := Function.update s.fwStat m stat }

def State.setContext (s : State n) (ctxId : BitVec 8) (m : Mode) (held : Bool) : State n :=
  { s with
    context := Function.update s.context ctxId (Function.update (s.context ctxId) m held) }

/-- `mode_to_vif` -/
def modeToVif (s : State n) (m : Mode) : Option (Fin n) :=
  (List.finRange n).find? fun i => (s.vif i).mode = m

/-- `sprdwl_init_fw` -/
def initFw (s : State n) (i : Fin n) (r : OpenResult) : State n × ℤ :=
  let v := s.vif i
  let m := typeToMode v.iftype
  if v.mode ≠ .none then (s, -EBUSY)
  else if m = .none then (s, -EINVAL)
  else if s.fwStat m = .open then (s, 0)
  else
    match r with
    | .ok ctxId =>
      (((s.setContext ctxId m true).onVif i { v with mode := m, ctxId := ctxId }).setStat m .open,
        0)
    | .lost ctxId => (s.setContext ctxId m true, - EIO)
    | .refused => (s, - EIO)

/-- `sprdwl_uninit_fw` -/
def uninitFw (s : State n) (i : Fin n) (r : CloseResult) : State n × ℤ :=
  let v := s.vif i
  if v.mode = .none then (s, -EINVAL)
  else if s.fwStat v.mode = .close then (s, -EBUSY)
  else
    match r with
    | .noBuf => (s.setStat v.mode .closing, - EIO)
    | .sent closed =>
      let s := if closed then s.setContext v.ctxId v.mode false else s
      ((s.setStat v.mode .close).onVif i { v with mode := .none }, 0)

/-- `sprdwl_cfg80211_change_iface`, with what `sprdwl_is_valid_iftype` says. -/
def changeIface (s : State n) (i : Fin n) (type : Iftype) (valid : Bool) (c : CloseResult)
    (o : OpenResult) : State n × ℤ :=
  let oldType := (s.vif i).iftype
  if valid = false then (s, -EOPNOTSUPP)
  else if oldType = .p2pClient ∨ oldType = .p2pGo then (s, 0)
  else
    let u := uninitFw s i c
    if u.2 ≠ 0 then u
    else
      let r := initFw (u.1.onVif i { u.1.vif i with iftype := type }) i o
      if r.2 ≠ 0 then (r.1.onVif i { r.1.vif i with iftype := oldType }, r.2) else r

/-- The interfaces in `sprdwl_cfg80211_start_ap`. -/
def startAp (s : State n) (i : Fin n) (c : CloseResult) (o : OpenResult) : State n :=
  if (s.vif i).iftype = .ap then
    let s :=
      match modeToVif s .p2pDevice with
      | some j =>
        if s.fwStat (s.vif j).mode ≠ .close then
          let u := (uninitFw s j c).1
          u.onVif j { u.vif j with mode := .p2pDevice }
        else s
      | none => s
    (initFw s i o).1
  else s

/-- The interfaces in `sprdwl_cfg80211_stop_ap`. -/
def stopAp (s : State n) (i : Fin n) (c : CloseResult) (o : OpenResult) : State n :=
  if (s.vif i).iftype = .ap then
    let s := (uninitFw s i c).1
    match modeToVif s .p2pDevice with
    | some j =>
      if s.fwStat (s.vif j).mode ≠ .open then
        (initFw (s.onVif j { s.vif j with mode := .none }) j o).1
      else s
    | none => s
  else s

/-- `sprdwl_cfg80211_start_p2p_device` -/
def startP2pDevice (s : State n) (i : Fin n) (o : OpenResult) : State n :=
  if s.fwStat .ap = .open ∧ (s.vif i).iftype = .p2pDevice then
    s.onVif i { s.vif i with mode := .p2pDevice }
  else (initFw s i o).1

/-- The interface in `sprdwl_cfg80211_stop_p2p_device`. -/
def stopP2pDevice (s : State n) (i : Fin n) (c : CloseResult) : State n :=
  let v := s.vif i
  if s.fwStat v.mode = .close ∧ v.mode = .p2pDevice then s.onVif i { v with mode := .none }
  else (uninitFw s i c).1

inductive Op where
  | initFw (o : OpenResult)
  | uninitFw (c : CloseResult)
  | changeIface (type : Iftype) (valid : Bool) (c : CloseResult) (o : OpenResult)
  | startAp (c : CloseResult) (o : OpenResult)
  | stopAp (c : CloseResult) (o : OpenResult)
  | startP2pDevice (o : OpenResult)
  | stopP2pDevice (c : CloseResult)
  deriving DecidableEq, Repr

/-- An operation on an interface. -/
structure Event (n : ℕ) where
  i : Fin n
  op : Op

def next (s : State n) (e : Event n) : State n :=
  match e.op with
  | .initFw o => (initFw s e.i o).1
  | .uninitFw c => (uninitFw s e.i c).1
  | .changeIface type valid c o => (changeIface s e.i type valid c o).1
  | .startAp c o => startAp s e.i c o
  | .stopAp c o => stopAp s e.i c o
  | .startP2pDevice o => startP2pDevice s e.i o
  | .stopP2pDevice c => stopP2pDevice s e.i c

/-- A close or a change that returns an error. -/
def Failed (s : State n) (e : Event n) : Prop :=
  match e.op with
  | .uninitFw c => (uninitFw s e.i c).2 ≠ 0
  | .changeIface type valid c o => (changeIface s e.i type valid c o).2 ≠ 0
  | _ => False

/-- No operation faults. -/
def step (s : State n) (e : Event n) : Except Empty (State n) := .ok (next s e)

/-- All interfaces are closed. -/
def init (iftype : Fin n → Iftype) : State n where
  vif i := ⟨iftype i, .none, 0⟩
  fwStat _ := .close
  context _ _ := false

/-- The firmware holds a context of the interface. -/
def State.Held (s : State n) (i : Fin n) : Prop := s.context (s.vif i).ctxId (s.vif i).mode = true

/-- The table, the modes and the contexts agree. -/
structure Agrees (s : State n) : Prop where
  opened : ∀ m, s.fwStat m = .open ↔ ∃ i, (∀ j, (s.vif j).mode = m ↔ j = i) ∧ s.Held i
  closed : ∀ i, ¬ s.Held i → (s.vif i).mode = .none

/-- The interface is as it was and open, or closed so that `sprdwl_init_fw` does not take it for one
that is in use. -/
def Recovers (s t : State n) (i : Fin n) : Prop :=
  t.vif i = s.vif i ∧ t.fwStat (t.vif i).mode = .open ∧ t.Held i ∨ (t.vif i).mode = .none

/-- What an operation keeps to. -/
def Sound (s : State n) (e : Event n) : Prop :=
  Agrees (next s e) ∧ (Failed s e → Recovers s (next s e) e.i)

/-- The close command of an open interface finds a buffer, an AP is started while no interface is a
P2P device, and a P2P device is started while no AP is open or is one already. -/
def Fine (s : State n) (e : Event n) : Prop :=
  let v := s.vif e.i
  match e.op with
  | .initFw _ => True
  | .uninitFw c => v.mode ≠ .none → c ≠ .noBuf
  | .changeIface _ valid c _ =>
    valid = true → v.iftype ≠ .p2pClient ∧ v.iftype ≠ .p2pGo → v.mode ≠ .none → c ≠ .noBuf
  | .startAp _ _ => v.iftype = .ap → ∀ j, (s.vif j).mode ≠ .p2pDevice
  | .stopAp c _ => v.iftype = .ap → v.mode ≠ .none → c ≠ .noBuf
  | .startP2pDevice _ => v.iftype = .p2pDevice → s.fwStat .ap = .open → v.mode = .p2pDevice
  | .stopP2pDevice c => v.mode ≠ .none → c ≠ .noBuf

/-- An interface that has a mode has the one of its type and is alone with it, and it is open. -/
structure Inv (s : State n) : Prop where
  typed : ∀ i, (s.vif i).mode ≠ .none → (s.vif i).mode = typeToMode (s.vif i).iftype
  alone : ∀ i j, (s.vif i).mode ≠ .none → (s.vif i).mode = (s.vif j).mode → i = j
  held : ∀ i, (s.vif i).mode ≠ .none → s.Held i
  opened : ∀ i, (s.vif i).mode ≠ .none → s.fwStat (s.vif i).mode = .open
  owned : ∀ m, s.fwStat m ≠ .close → ∃ i, (s.vif i).mode = m
  noContext : ∀ ctxId, s.context ctxId .none = false
  noneClosed : s.fwStat .none = .close

variable {s t : State n} {i j : Fin n} {m : Mode} {v : Vif} {stat : FwStat} {ctxId : BitVec 8}
  {held : Bool} {c : CloseResult} {o : OpenResult} {e : Event n}

@[simp] theorem vif_onVif : (s.onVif i v).vif = Function.update s.vif i v := rfl
@[simp] theorem fwStat_onVif : (s.onVif i v).fwStat = s.fwStat := rfl
@[simp] theorem context_onVif : (s.onVif i v).context = s.context := rfl
@[simp] theorem vif_setStat : (s.setStat m stat).vif = s.vif := rfl
@[simp] theorem fwStat_setStat : (s.setStat m stat).fwStat = Function.update s.fwStat m stat := rfl
@[simp] theorem context_setStat : (s.setStat m stat).context = s.context := rfl
@[simp] theorem vif_setContext : (s.setContext ctxId m held).vif = s.vif := rfl
@[simp] theorem fwStat_setContext : (s.setContext ctxId m held).fwStat = s.fwStat := rfl

theorem context_setContext (ctxId' : BitVec 8) (m' : Mode) :
    (s.setContext ctxId m held).context ctxId' m' =
      if ctxId' = ctxId ∧ m' = m then held else s.context ctxId' m' := by
  simp only [State.setContext, Function.update_apply]
  by_cases hctx : ctxId' = ctxId
  · by_cases hm : m' = m
    · simp [hctx, hm]
    · simp [hctx, hm]
  · simp [hctx]

theorem Inv.agrees (h : Inv s) : Agrees s where
  opened m := by
    constructor
    · intro hopen
      have hm : m ≠ .none := by
        rintro rfl
        rw [h.noneClosed] at hopen
        cases hopen
      obtain ⟨i, rfl⟩ := h.owned m (by rw [hopen]; decide)
      refine ⟨i, fun j => ⟨fun hj => ?_, fun hj => by rw [hj]⟩, h.held i hm⟩
      exact (h.alone i j hm hj.symm).symm
    · rintro ⟨i, halone, hheld⟩
      obtain rfl := (halone i).mpr rfl
      apply h.opened i
      intro hnone
      rw [State.Held, hnone, h.noContext] at hheld
      cases hheld
  closed i hheld := by
    by_contra hmode
    exact hheld (h.held i hmode)

/-- A mode that one interface has and that is not open does not agree with anything. -/
theorem not_agrees (halone : ∀ j, (t.vif j).mode = m ↔ j = i) (hm : m ≠ .none)
    (hstat : t.fwStat m ≠ .open) : ¬ Agrees t := by
  intro h
  by_cases hheld : t.Held i
  · exact hstat ((h.opened m).mpr ⟨i, halone, hheld⟩)
  · apply hm
    rw [← (halone i).mpr rfl]
    exact h.closed i hheld

theorem modeToVif_some (h : modeToVif s m = some j) : (s.vif j).mode = m := by
  simpa using List.find?_some h

theorem modeToVif_none (h : modeToVif s m = none) (j : Fin n) : (s.vif j).mode ≠ m := by
  simpa using List.find?_eq_none.mp h j (List.mem_finRange j)

/-! ## Opening and closing -/

/-- What `sprdwl_init_fw` makes of the state. -/
inductive Inits (s : State n) (i : Fin n) : State n → Prop where
  | same : Inits s i s
  | lost (ctxId : BitVec 8) (hmode : typeToMode (s.vif i).iftype ≠ .none) :
    Inits s i (s.setContext ctxId (typeToMode (s.vif i).iftype) true)
  | opened (ctxId : BitVec 8) (hnone : (s.vif i).mode = .none)
    (hmode : typeToMode (s.vif i).iftype ≠ .none)
    (hstat : s.fwStat (typeToMode (s.vif i).iftype) ≠ .open) :
    Inits s i (((s.setContext ctxId (typeToMode (s.vif i).iftype) true).onVif i
      { s.vif i with mode := typeToMode (s.vif i).iftype, ctxId := ctxId }).setStat
        (typeToMode (s.vif i).iftype) .open)

theorem initFw_inits (s : State n) (i : Fin n) (o : OpenResult) : Inits s i (initFw s i o).1 := by
  by_cases hnone : (s.vif i).mode = .none
  · by_cases hmode : typeToMode (s.vif i).iftype = .none
    · simp only [initFw, hnone, hmode, ne_eq, not_true_eq_false, if_false, if_true]
      exact .same
    · by_cases hstat : s.fwStat (typeToMode (s.vif i).iftype) = .open
      · simp only [initFw, hnone, hmode, hstat, ne_eq, not_true_eq_false, if_false, if_true]
        exact .same
      · simp only [initFw, hnone, hmode, hstat, ne_eq, not_true_eq_false, if_false]
        cases o with
        | ok ctxId => exact .opened ctxId hnone hmode hstat
        | lost ctxId => exact .lost ctxId hmode
        | refused => exact .same
  · simp only [initFw, hnone, ne_eq, not_false_eq_true, if_true]
    exact .same

theorem Inv.inits (h : Inv s) (ht : Inits s i t) : Inv t := by
  cases ht with
  | same => exact h
  | lost ctxId hmode =>
    refine ⟨h.typed, h.alone, fun j hj => ?_, h.opened, h.owned, fun c => ?_, h.noneClosed⟩
    · have hheld := h.held j hj
      rw [State.Held] at hheld ⊢
      rw [context_setContext]
      split
      · rfl
      · exact hheld
    · rw [context_setContext, if_neg fun hc => hmode hc.2.symm]
      exact h.noContext c
  | opened ctxId hnone hmode hstat =>
    have hfree (j : Fin n) (hj : (s.vif j).mode = typeToMode (s.vif i).iftype) : False := by
      apply hstat
      rw [← hj]
      apply h.opened j
      rw [hj]
      exact hmode
    constructor
    · intro j hj
      by_cases hji : j = i
      · subst hji
        simp
      · simp only [vif_setStat, vif_onVif, vif_setContext, Function.update_of_ne hji] at hj ⊢
        exact h.typed j hj
    · intro j k hj hjk
      by_cases hji : j = i
      · by_cases hki : k = i
        · rw [hji, hki]
        · subst hji
          simp only [vif_setStat, vif_onVif, vif_setContext, Function.update_self,
            Function.update_of_ne hki] at hjk
          exact absurd hjk.symm (hfree k)
      · by_cases hki : k = i
        · subst hki
          simp only [vif_setStat, vif_onVif, vif_setContext, Function.update_self,
            Function.update_of_ne hji] at hjk
          exact absurd hjk (hfree j)
        · simp only [vif_setStat, vif_onVif, vif_setContext, Function.update_of_ne hji,
            Function.update_of_ne hki] at hj hjk
          exact h.alone j k hj hjk
    · intro j hj
      by_cases hji : j = i
      · subst hji
        simp [State.Held, context_setContext]
      · simp only [vif_setStat, vif_onVif, vif_setContext, Function.update_of_ne hji] at hj
        have hheld := h.held j hj
        simp only [State.Held, vif_setStat, vif_onVif, vif_setContext, Function.update_of_ne hji,
          context_setStat, context_onVif, context_setContext] at hheld ⊢
        split
        · rfl
        · exact hheld
    · intro j hj
      by_cases hji : j = i
      · subst hji
        simp
      · simp only [vif_setStat, vif_onVif, vif_setContext, Function.update_of_ne hji] at hj ⊢
        have hne : (s.vif j).mode ≠ typeToMode (s.vif i).iftype := fun heq => hfree j heq
        simp only [fwStat_setStat, Function.update_of_ne hne]
        exact h.opened j hj
    · intro m hm
      by_cases hmi : m = typeToMode (s.vif i).iftype
      · exact ⟨i, by simp [hmi]⟩
      · simp only [fwStat_setStat, Function.update_of_ne hmi] at hm
        obtain ⟨j, hj⟩ := h.owned m hm
        refine ⟨j, ?_⟩
        have hji : j ≠ i := by
          rintro rfl
          rw [hnone] at hj
          rw [← hj] at hm
          exact hm h.noneClosed
        simpa only [vif_setStat, vif_onVif, vif_setContext, Function.update_of_ne hji] using hj
    · intro c
      simp only [context_setStat, context_onVif, context_setContext]
      rw [if_neg fun hc => hmode hc.2.symm]
      exact h.noContext c
    · simp only [fwStat_setStat, Function.update_of_ne hmode.symm]
      exact h.noneClosed

theorem uninitFw_of_none (hnone : (s.vif i).mode = .none) : uninitFw s i c = (s, -EINVAL) :=
  if_pos hnone

theorem uninitFw_noBuf (h : Inv s) (hmode : (s.vif i).mode ≠ .none) :
    uninitFw s i .noBuf = (s.setStat (s.vif i).mode .closing, - EIO) := by
  rw [uninitFw, if_neg hmode, if_neg (by rw [h.opened i hmode]; decide)]

theorem uninitFw_sent (h : Inv s) (hmode : (s.vif i).mode ≠ .none) (closed : Bool) :
    uninitFw s i (.sent closed) =
      (((if closed then s.setContext (s.vif i).ctxId (s.vif i).mode false else s).setStat
        (s.vif i).mode .close).onVif i { s.vif i with mode := .none }, 0) := by
  rw [uninitFw, if_neg hmode, if_neg (by rw [h.opened i hmode]; decide)]

/-- An interface is closed, whatever the firmware does with its context. -/
theorem inv_closed (h : Inv s) (hmode : (s.vif i).mode ≠ .none)
    (hcontext : ∀ c m, t.context c m ≠ s.context c m → m = (s.vif i).mode ∧ t.context c m = false)
    (hstat : t.fwStat = Function.update s.fwStat (s.vif i).mode .close)
    (hvif : t.vif = Function.update s.vif i { s.vif i with mode := .none }) : Inv t := by
  have hself : (t.vif i).mode = .none := by
    rw [hvif, Function.update_self]
  have hother (j : Fin n) (hj : (t.vif j).mode ≠ .none) :
      t.vif j = s.vif j ∧ (s.vif j).mode ≠ .none ∧ (s.vif j).mode ≠ (s.vif i).mode := by
    have hji : j ≠ i := by
      rintro rfl
      exact hj hself
    have heq : t.vif j = s.vif j := by
      rw [hvif, Function.update_of_ne hji]
    rw [heq] at hj
    exact ⟨heq, hj, fun hsame => hji (h.alone j i hj hsame)⟩
  constructor
  · intro j hj
    obtain ⟨heq, hmode', -⟩ := hother j hj
    rw [heq]
    exact h.typed j hmode'
  · intro j k hj hjk
    obtain ⟨heq, hmode', -⟩ := hother j hj
    obtain ⟨heq', -, -⟩ := hother k (hjk ▸ hj)
    rw [heq, heq'] at hjk
    exact h.alone j k hmode' hjk
  · intro j hj
    obtain ⟨heq, hmode', hne⟩ := hother j hj
    rw [State.Held, heq]
    by_contra hlost
    exact hne (hcontext _ _ fun hsame => hlost (hsame.trans (h.held j hmode'))).1
  · intro j hj
    obtain ⟨heq, hmode', hne⟩ := hother j hj
    rw [heq, hstat, Function.update_of_ne hne]
    exact h.opened j hmode'
  · intro m hm
    have hmi : m ≠ (s.vif i).mode := by
      rintro rfl
      rw [hstat, Function.update_self] at hm
      exact hm rfl
    rw [hstat, Function.update_of_ne hmi] at hm
    obtain ⟨j, rfl⟩ := h.owned m hm
    refine ⟨j, ?_⟩
    rw [hvif, Function.update_of_ne]
    rintro rfl
    exact hmi rfl
  · intro c
    by_contra hheld
    exact hmode (hcontext c .none fun hsame => hheld (hsame.trans (h.noContext c))).1.symm
  · rw [hstat, Function.update_of_ne hmode.symm]
    exact h.noneClosed

/-- Closing without a failure. -/
theorem inv_uninitFw (h : Inv s) (hc : (s.vif i).mode ≠ .none → c ≠ .noBuf) :
    Inv (uninitFw s i c).1 ∧ ((uninitFw s i c).1.vif i).mode = .none ∧
      ((uninitFw s i c).1.vif i).iftype = (s.vif i).iftype := by
  by_cases hmode : (s.vif i).mode = .none
  · rw [uninitFw_of_none hmode]
    exact ⟨h, hmode, rfl⟩
  · cases c with
    | noBuf => exact absurd rfl (hc hmode)
    | sent closed =>
      rw [uninitFw_sent h hmode]
      cases closed with
      | false =>
        exact ⟨inv_closed h hmode (fun c m hne => absurd rfl hne) rfl rfl, by simp, by simp⟩
      | true =>
        refine ⟨inv_closed h hmode (fun c m hne => ?_) rfl rfl, by simp, by simp⟩
        simp only [if_true, context_onVif, context_setStat, context_setContext] at hne ⊢
        split at hne
        · rename_i hsame
          rw [if_pos hsame]
          exact ⟨hsame.2, rfl⟩
        · exact absurd rfl hne

/-- The type of a closed interface is its own affair. -/
theorem inv_setType (h : Inv s) (hnone : (s.vif i).mode = .none) (type : Iftype) :
    Inv (s.onVif i { s.vif i with iftype := type }) := by
  have hmode (j : Fin n) : ((s.onVif i { s.vif i with iftype := type }).vif j).mode =
      (s.vif j).mode := by
    by_cases hji : j = i
    · subst hji
      simp
    · simp [hji]
  have hother (j : Fin n) (hj : (s.vif j).mode ≠ .none) :
      (s.onVif i { s.vif i with iftype := type }).vif j = s.vif j := by
    refine Function.update_of_ne ?_ _ _
    rintro rfl
    exact hj hnone
  constructor
  · intro j hj
    rw [hmode] at hj
    rw [hother j hj]
    exact h.typed j hj
  · intro j k hj hjk
    rw [hmode] at hj
    rw [hmode, hmode] at hjk
    exact h.alone j k hj hjk
  · intro j hj
    rw [hmode] at hj
    rw [State.Held, hother j hj]
    exact h.held j hj
  · intro j hj
    rw [hmode] at hj ⊢
    exact h.opened j hj
  · intro m hm
    obtain ⟨j, hj⟩ := h.owned m hm
    exact ⟨j, (hmode j).trans hj⟩
  · exact h.noContext
  · exact h.noneClosed

/-- A close without a buffer leaves the mode neither open nor closed. -/
theorem closing_not_agrees (h : Inv s) (hmode : (s.vif i).mode ≠ .none) :
    ¬ Agrees (s.setStat (s.vif i).mode .closing) := by
  refine not_agrees (i := i) (fun j => ⟨fun hj => ?_, fun hj => by rw [hj]; rfl⟩) hmode ?_
  · exact (h.alone i j hmode hj.symm).symm
  · simp

/-! ## The operations -/

/-- A failed initialization leaves the interface closed. -/
theorem initFw_fails (hnone : (s.vif i).mode = .none) (hret : (initFw s i o).2 ≠ 0) :
    ((initFw s i o).1.vif i).mode = .none := by
  have hinit := initFw_inits s i o
  generalize hr : (initFw s i o).1 = t at hinit ⊢
  cases hinit with
  | same => exact hnone
  | lost ctxId hmode => exact hnone
  | opened ctxId _ hmode hstat =>
    exfalso
    apply hret
    simp only [initFw, hnone, hmode, hstat, ne_eq, not_true_eq_false, if_false] at hr ⊢
    cases o with
    | ok ctxId' => rfl
    | lost ctxId' =>
      have hvif := congrArg (fun u => (u.vif i).mode) hr
      simp only [vif_setContext, vif_setStat, vif_onVif, Function.update_self, hnone] at hvif
      exact absurd hvif.symm hmode
    | refused =>
      have hvif := congrArg (fun u => (u.vif i).mode) hr
      simp only [vif_setStat, vif_onVif, Function.update_self, hnone] at hvif
      exact absurd hvif.symm hmode

theorem changeIface_fine (h : Inv s) (type : Iftype) (valid : Bool)
    (hc : valid = true → (s.vif i).iftype ≠ .p2pClient ∧ (s.vif i).iftype ≠ .p2pGo →
      (s.vif i).mode ≠ .none → c ≠ .noBuf) :
    Inv (changeIface s i type valid c o).1 ∧
      ((changeIface s i type valid c o).2 ≠ 0 →
        Recovers s (changeIface s i type valid c o).1 i) := by
  have hself : Recovers s s i := by
    by_cases hmode : (s.vif i).mode = .none
    · exact .inr hmode
    · exact .inl ⟨rfl, h.opened i hmode, h.held i hmode⟩
  unfold changeIface
  dsimp only
  split
  · exact ⟨h, fun _ => hself⟩
  · rename_i hvalid
    split
    · exact ⟨h, fun _ => hself⟩
    · rename_i htype
      obtain ⟨hinv, hnone, hold⟩ := inv_uninitFw (c := c) h
        (hc (by simpa using hvalid) (not_or.mp htype))
      split
      · exact ⟨hinv, fun _ => .inr hnone⟩
      · have hset := inv_setType hinv hnone type
        have hnone' : ((((uninitFw s i c).1.onVif i
            { (uninitFw s i c).1.vif i with iftype := type })).vif i).mode = .none := by
          simpa using hnone
        split
        · rename_i hret
          have hclosed := initFw_fails hnone' hret
          exact ⟨inv_setType (hset.inits (initFw_inits _ i o)) hclosed _,
            fun _ => .inr (by simpa using hclosed)⟩
        · rename_i hret
          exact ⟨hset.inits (initFw_inits _ i o), fun h => absurd h hret⟩

/-- An open P2P device finds nothing to do when an AP stops. -/
theorem stopAp_p2pDevice (h : ∀ j, (s.vif j).mode = .p2pDevice → s.fwStat .p2pDevice = .open) :
    (match modeToVif s .p2pDevice with
      | some j =>
        if s.fwStat (s.vif j).mode ≠ .open then
          (initFw (s.onVif j { s.vif j with mode := .none }) j o).1
        else s
      | none => s) = s := by
  cases hfind : modeToVif s .p2pDevice with
  | none => rfl
  | some j =>
    have hj := modeToVif_some hfind
    simp only [hj, h j hj, ne_eq, not_true_eq_false, if_false]

theorem stopAp_fine (h : Inv s)
    (hc : (s.vif i).iftype = .ap → (s.vif i).mode ≠ .none → c ≠ .noBuf) :
    Inv (stopAp s i c o) := by
  rw [stopAp]
  split
  · rename_i htype
    obtain ⟨hinv, -, -⟩ := inv_uninitFw (c := c) h (hc htype)
    have hopen (j : Fin n) (hj : ((uninitFw s i c).1.vif j).mode = .p2pDevice) :
        (uninitFw s i c).1.fwStat .p2pDevice = .open := by
      rw [← hj]
      exact hinv.opened j (by rw [hj]; decide)
    rw [stopAp_p2pDevice hopen]
    exact hinv
  · exact h

theorem startAp_fine (h : Inv s)
    (hnone : (s.vif i).iftype = .ap → ∀ j, (s.vif j).mode ≠ .p2pDevice) :
    Inv (startAp s i c o) := by
  rw [startAp]
  split
  · rename_i htype
    cases hfind : modeToVif s .p2pDevice with
    | none =>
      simp only
      exact h.inits (initFw_inits s i o)
    | some j => exact absurd (modeToVif_some hfind) (hnone htype j)
  · exact h

theorem startP2pDevice_fine (h : Inv s)
    (hdev : (s.vif i).iftype = .p2pDevice → s.fwStat .ap = .open → (s.vif i).mode = .p2pDevice) :
    Inv (startP2pDevice s i o) := by
  rw [startP2pDevice]
  split
  · rename_i hboth
    have hmode := hdev hboth.2 hboth.1
    have hsame : s.onVif i { s.vif i with mode := .p2pDevice } = s := by
      rw [State.onVif, ← hmode, Function.update_eq_self]
    rw [hsame]
    exact h
  · exact h.inits (initFw_inits s i o)

theorem stopP2pDevice_eq (h : Inv s) : stopP2pDevice s i c = (uninitFw s i c).1 := by
  unfold stopP2pDevice
  refine if_neg fun hboth => ?_
  have hopen := h.opened i (by rw [hboth.2]; decide)
  rw [hboth.1] at hopen
  cases hopen

theorem fine_sound (h : Inv s) (hf : Fine s e) : Inv (next s e) ∧ Sound s e := by
  obtain ⟨i, op⟩ := e
  cases op with
  | initFw o =>
    have hinv := h.inits (initFw_inits s i o)
    exact ⟨hinv, hinv.agrees, fun hfail => hfail.elim⟩
  | uninitFw c =>
    obtain ⟨hinv, hnone, -⟩ := inv_uninitFw h hf
    exact ⟨hinv, hinv.agrees, fun _ => .inr hnone⟩
  | changeIface type valid c o =>
    obtain ⟨hinv, hrec⟩ := changeIface_fine (o := o) h type valid hf
    exact ⟨hinv, hinv.agrees, hrec⟩
  | startAp c o =>
    have hinv := startAp_fine (c := c) (o := o) h hf
    exact ⟨hinv, hinv.agrees, fun hfail => hfail.elim⟩
  | stopAp c o =>
    have hinv := stopAp_fine (o := o) h hf
    exact ⟨hinv, hinv.agrees, fun hfail => hfail.elim⟩
  | startP2pDevice o =>
    have hinv := startP2pDevice_fine (o := o) h hf
    exact ⟨hinv, hinv.agrees, fun hfail => hfail.elim⟩
  | stopP2pDevice c =>
    have hinv := (inv_uninitFw h hf).1
    rw [← stopP2pDevice_eq h] at hinv
    exact ⟨hinv, hinv.agrees, fun hfail => hfail.elim⟩

/-! ## What breaks the table -/

theorem startAp_broken (h : Inv s) (htype : (s.vif i).iftype = .ap)
    (hj : (s.vif j).mode = .p2pDevice) : ¬ Agrees (startAp s i c o) := by
  obtain ⟨k, hfind⟩ : ∃ k, modeToVif s .p2pDevice = some k := by
    cases hfind : modeToVif s .p2pDevice with
    | none => exact absurd hj (modeToVif_none hfind j)
    | some k => exact ⟨k, rfl⟩
  have hk := modeToVif_some hfind
  have hmode : (s.vif k).mode ≠ .none := by
    rw [hk]
    decide
  have hopen := h.opened k hmode
  have hki : i ≠ k := by
    rintro rfl
    have htyped := h.typed i hmode
    rw [hk, htype] at htyped
    cases htyped
  -- the P2P device keeps its mode while it is closed, or is about to be
  obtain ⟨u, hu, huvif, hustat⟩ : ∃ u, startAp s i c o = (initFw u i o).1 ∧ u.vif = s.vif ∧
      u.fwStat .p2pDevice ≠ .open := by
    rw [startAp, if_pos htype]
    simp only [hfind, hopen, ne_eq, reduceCtorEq, not_false_eq_true, if_true]
    refine ⟨_, rfl, ?_, ?_⟩
    · cases c with
      | noBuf =>
        rw [uninitFw_noBuf h hmode, vif_onVif, vif_setStat, ← hk, Function.update_eq_self]
      | sent closed =>
        rw [uninitFw_sent h hmode, vif_onVif, vif_onVif, Function.update_self,
          Function.update_idem, ← hk, vif_setStat]
        cases closed <;> simp
    · cases c with
      | noBuf =>
        rw [uninitFw_noBuf h hmode, hk]
        simp
      | sent closed =>
        rw [uninitFw_sent h hmode, hk]
        simp
  rw [hu]
  have halone (j : Fin n) : (s.vif j).mode = .p2pDevice ↔ j = k :=
    ⟨fun hj => h.alone j k (by rw [hj]; decide) (hj.trans hk.symm), fun hj => by rw [hj, hk]⟩
  have hmodes (m : Mode) (hm : m ≠ .p2pDevice) (v : Vif) (hv : v.mode = m) (j : Fin n) :
      (Function.update u.vif i v j).mode = .p2pDevice ↔ j = k := by
    by_cases hji : j = i
    · subst hji
      rw [Function.update_self, hv]
      exact iff_of_false hm hki
    · rw [Function.update_of_ne hji, huvif]
      exact halone j
  have hinit := initFw_inits u i o
  generalize (initFw u i o).1 = t at hinit ⊢
  have htypeu : (u.vif i).iftype = .ap := by
    rw [huvif, htype]
  cases hinit with
  | same => exact not_agrees (fun j => by rw [huvif]; exact halone j) (by decide) hustat
  | lost ctxId _ =>
    refine not_agrees (i := k) (fun j => ?_) (by decide) hustat
    rw [vif_setContext, huvif]
    exact halone j
  | opened ctxId _ _ _ =>
    refine not_agrees (m := .p2pDevice) (i := k) (fun j => ?_) (by decide) ?_
    · rw [vif_setStat, vif_onVif, vif_setContext]
      exact hmodes .ap (by decide) _ (by rw [htypeu]; rfl) j
    · rw [fwStat_setStat, htypeu, Function.update_of_ne (by decide)]
      exact hustat

theorem startP2pDevice_broken (h : Inv s) (htype : (s.vif i).iftype = .p2pDevice)
    (hap : s.fwStat .ap = .open) (hmode : (s.vif i).mode ≠ .p2pDevice) :
    ¬ Agrees (startP2pDevice s i o) := by
  have hnone : (s.vif i).mode = .none := by
    by_contra hsome
    apply hmode
    rw [h.typed i hsome, htype]
    rfl
  rw [startP2pDevice, if_pos ⟨hap, htype⟩]
  by_cases hother : ∃ j, (s.vif j).mode = .p2pDevice
  · obtain ⟨j, hj⟩ := hother
    have hji : j ≠ i := by
      rintro rfl
      exact hmode hj
    intro hagrees
    have hopen : s.fwStat .p2pDevice = .open := by
      rw [← hj]
      exact h.opened j (by rw [hj]; decide)
    obtain ⟨k, halone, -⟩ := (hagrees.opened .p2pDevice).mp hopen
    have hik := (halone i).mp (by simp)
    have hjk := (halone j).mp (by simp [hji, hj])
    exact hji (hjk.trans hik.symm)
  · have hclose : s.fwStat .p2pDevice ≠ .open := by
      intro hopen
      exact hother (h.owned .p2pDevice (by rw [hopen]; decide))
    refine not_agrees (m := .p2pDevice) (i := i) (fun j => ?_) (by decide) hclose
    rw [vif_onVif]
    by_cases hji : j = i
    · subst hji
      simp
    · rw [Function.update_of_ne hji]
      exact iff_of_false (fun hj => hother ⟨j, hj⟩) hji

theorem not_fine_broken (h : Inv s) (hf : ¬ Fine s e) : ¬ Agrees (next s e) := by
  obtain ⟨i, op⟩ := e
  cases op with
  | initFw o => exact absurd True.intro hf
  | uninitFw c =>
    obtain ⟨hmode, hc⟩ := Classical.not_imp.mp hf
    obtain rfl := not_not.mp hc
    change ¬ Agrees (uninitFw s i .noBuf).1
    rw [uninitFw_noBuf h hmode]
    exact closing_not_agrees h hmode
  | changeIface type valid c o =>
    simp only [Fine, Classical.not_imp, not_not] at hf
    obtain ⟨hvalid, htype, hmode, rfl⟩ := hf
    have hstep : changeIface s i type valid .noBuf o =
        (s.setStat (s.vif i).mode .closing, - EIO) := by
      simp only [changeIface, hvalid, htype.1, htype.2, uninitFw_noBuf h hmode]
      rfl
    change ¬ Agrees (changeIface s i type valid .noBuf o).1
    rw [hstep]
    exact closing_not_agrees h hmode
  | startAp c o =>
    simp only [Fine, Classical.not_imp, not_forall, not_not] at hf
    obtain ⟨htype, j, hj⟩ := hf
    exact startAp_broken h htype hj
  | stopAp c o =>
    simp only [Fine, Classical.not_imp, not_not] at hf
    obtain ⟨htype, hmode, rfl⟩ := hf
    have hap : (s.vif i).mode = .ap := by
      rw [h.typed i hmode, htype]
      rfl
    have hstep : stopAp s i .noBuf o = s.setStat (s.vif i).mode .closing := by
      rw [stopAp, if_pos htype, uninitFw_noBuf h hmode]
      refine stopAp_p2pDevice fun j hj => ?_
      rw [hap, fwStat_setStat, Function.update_of_ne (by decide)]
      have hopen := h.opened j (by rw [show (s.vif j).mode = .p2pDevice from hj]; decide)
      rwa [show (s.vif j).mode = .p2pDevice from hj] at hopen
    change ¬ Agrees (stopAp s i .noBuf o)
    rw [hstep]
    exact closing_not_agrees h hmode
  | startP2pDevice o =>
    simp only [Fine, Classical.not_imp] at hf
    obtain ⟨htype, hap, hmode⟩ := hf
    exact startP2pDevice_broken h htype hap hmode
  | stopP2pDevice c =>
    obtain ⟨hmode, hc⟩ := Classical.not_imp.mp hf
    obtain rfl := not_not.mp hc
    change ¬ Agrees (stopP2pDevice s i .noBuf)
    rw [stopP2pDevice_eq h, uninitFw_noBuf h hmode]
    exact closing_not_agrees h hmode

theorem init_inv (iftype : Fin n → Iftype) : Inv (init iftype) where
  typed _ h := absurd rfl h
  alone _ _ h _ := absurd rfl h
  held _ h := absurd rfl h
  opened _ h := absurd rfl h
  owned _ h := absurd rfl h
  noContext _ := rfl
  noneClosed := rfl

/-- In a run of operations the modes, the table and the firmware agree, and what fails can be tried
again, exactly if each operation meets its condition. -/
theorem fw_table_iff (iftype : Fin n → Iftype) (es : List (Event n)) :
    (∀ h e rest s, es = h ++ e :: rest → run step (init iftype) h = .ok s → Sound s e) ↔
      Along step Fine (init iftype) es := by
  rw [← along_iff_forall]
  refine along_congr (I := Inv) (fun s e h => ?_) ?_ (init_inv iftype)
  · constructor
    · intro hsound
      by_contra hf
      exact not_fine_broken h hf hsound.1
    · intro hf
      exact (fine_sound h hf).2
  · intro s e t h hf ht
    obtain rfl := Except.ok.inj ht
    exact (fine_sound h hf).1

/-- The close command of the only interface, a station, finds no buffer. -/
def sampleOps : List (Event 1) := [⟨0, .initFw (.ok 1)⟩, ⟨0, .uninitFw .noBuf⟩]

/-- The interface is in use and not open. -/
theorem failed_close_locks_out :
    (∃ s, run step (init fun _ : Fin 1 => .station) sampleOps = .ok s ∧
      (s.vif 0).mode = .station ∧ s.fwStat .station = .closing ∧
      ∀ o, (initFw s 0 o).2 = -EBUSY) ∧
    ¬ ∀ h e rest s, sampleOps = h ++ e :: rest →
      run step (init fun _ : Fin 1 => .station) h = .ok s → Sound s e := by
  refine ⟨⟨_, rfl, rfl, rfl, fun o => by cases o <;> rfl⟩, fun hall => ?_⟩
  obtain ⟨hagrees, -⟩ := hall [_] _ [] _ rfl rfl
  have hopen := (hagrees.opened .station).mpr ⟨0, fun j => ?_, rfl⟩
  · cases hopen
  · obtain rfl : j = 0 := Subsingleton.elim j 0
    exact iff_of_true rfl rfl

end Uwe5631.FwTable
