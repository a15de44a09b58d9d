import Uwe5631.FallibleRuns
import Mathlib

/-!
# The caches of scan results

`sprdwl_vendor_cache_scan_result` and `sprdwl_vendor_cache_hotlist_result` put a result into a table.
One loop drops entries that have expired and looks for one of the same access point.
-/
namespace Uwe5631.ScanCache
open FallibleRuns

/-! ## A loop that drops and replaces -/

section Scan
variable {α κ : Type*} [DecidableEq κ] (key : α → κ) (old : α → Bool) (item : α)

/-- The entries that the loop leaves, and whether it has found one with the key. Behind an entry that
is dropped the next one is only compared. At the end the one that was dropped is compared itself. -/
def scan : List α → List α × Bool
  | [] => ([], false)
  | [e] =>
    if old e then ([], decide (key e = key item))
    else if key e = key item then ([item], true) else ([e], false)
  | e :: e' :: rest =>
    if old e then
      if key e' = key item then (item :: rest, true) else (e' :: (scan rest).1, (scan rest).2)
    else if key e = key item then (item :: e' :: rest, true)
    else (e :: (scan (e' :: rest)).1, (scan (e' :: rest)).2)

/-- No old entry is left: none follows directly on one that is dropped, or comes behind the one that is
replaced. The last one is not dropped if it has the key. -/
def Spared : List α → Prop
  | [] => True
  | [e] => ¬ (old e = true ∧ key e = key item)
  | e :: e' :: rest =>
    if old e then
      if key e' = key item then ∀ x ∈ rest, old x = false else old e' = false ∧ Spared rest
    else if key e = key item then ∀ x ∈ e' :: rest, old x = false
    else Spared (e' :: rest)

variable {key old item}

variable (key old item) in
theorem scan_keys_sublist (l : List α) :
    ((scan key old item l).1.map key).Sublist (l.map key) := by
  fun_induction scan key old item l with
  | case1 => exact List.Sublist.slnil
  | case2 e hold => exact List.nil_sublist _
  | case3 e hold hkey => rw [List.map_singleton, List.map_singleton, hkey]
  | case4 e hold hkey => exact List.Sublist.refl _
  | case5 e e' rest hold hkey =>
    rw [List.map_cons, List.map_cons, List.map_cons, hkey]
    exact List.sublist_cons_self _ _
  | case6 e e' rest hold hkey ih => exact (ih.cons_cons (key e')).cons (key e)
  | case7 e e' rest hold hkey =>
    simp only [List.map_cons, hkey]
    exact List.Sublist.refl _
  | case8 e e' rest hold hkey ih => exact ih.cons_cons (key e)

/-- Every entry that is left was compared. -/
theorem key_ne_of_not_found (l : List α) (h : (scan key old item l).2 = false) :
    ∀ x ∈ (scan key old item l).1, key x ≠ key item := by
  fun_induction scan key old item l with
  | case1 => exact fun x hx => (by cases hx)
  | case2 e hold => exact fun x hx => (by cases hx)
  | case3 e hold hkey => cases h
  | case4 e hold hkey => exact List.forall_mem_singleton.mpr hkey
  | case5 e e' rest hold hkey => cases h
  | case6 e e' rest hold hkey ih => exact List.forall_mem_cons.mpr ⟨hkey, ih h⟩
  | case7 e e' rest hold hkey => cases h
  | case8 e e' rest hold hkey ih => exact List.forall_mem_cons.mpr ⟨hkey, ih h⟩

/-- If an entry with the key was found and the item is not there, no entry with the key is. -/
theorem key_ne_of_lost (l : List α) (hnodup : (l.map key).Nodup)
    (h : (scan key old item l).2 = true) (hlost : item ∉ (scan key old item l).1) :
    ∀ x ∈ (scan key old item l).1, key x ≠ key item := by
  fun_induction scan key old item l with
  | case1 => cases h
  | case2 e hold => exact fun x hx => (by cases hx)
  | case3 e hold hkey => exact absurd (List.mem_singleton_self item) hlost
  | case4 e hold hkey => cases h
  | case5 e e' rest hold hkey => exact absurd List.mem_cons_self hlost
  | case6 e e' rest hold hkey ih =>
    have htail := (List.nodup_cons.mp (List.nodup_cons.mp hnodup).2).2
    exact List.forall_mem_cons.mpr ⟨hkey, ih htail h fun hin => hlost (List.mem_cons_of_mem _ hin)⟩
  | case7 e e' rest hold hkey => exact absurd List.mem_cons_self hlost
  | case8 e e' rest hold hkey ih =>
    have htail := (List.nodup_cons.mp hnodup).2
    exact List.forall_mem_cons.mpr ⟨hkey, ih htail h fun hin => hlost (List.mem_cons_of_mem _ hin)⟩

/-- Nothing but old entries and the one with the key is dropped. -/
theorem mem_scan (l : List α) {x : α} (hold : old x = false) (hkey : key x ≠ key item)
    (hx : x ∈ l) : x ∈ (scan key old item l).1 := by
  fun_induction scan key old item l with
  | case1 => exact hx
  | case2 e hold' =>
    rw [← List.mem_singleton.mp hx, hold] at hold'
    cases hold'
  | case3 e hold' hkey' =>
    rw [← List.mem_singleton.mp hx] at hkey'
    exact absurd hkey' hkey
  | case4 e hold' hkey' => exact hx
  | case5 e e' rest hold' hkey' =>
    rcases List.mem_cons.mp hx with rfl | hx
    · rw [hold] at hold'
      cases hold'
    · rcases List.mem_cons.mp hx with rfl | hx
      · exact absurd hkey' hkey
      · exact List.mem_cons_of_mem _ hx
  | case6 e e' rest hold' hkey' ih =>
    rcases List.mem_cons.mp hx with rfl | hx
    · rw [hold] at hold'
      cases hold'
    · exact List.mem_cons.mpr ((List.mem_cons.mp hx).imp id ih)
  | case7 e e' rest hold' hkey' =>
    rcases List.mem_cons.mp hx with rfl | hx
    · exact absurd hkey' hkey
    · exact List.mem_cons_of_mem _ hx
  | case8 e e' rest hold' hkey' ih => exact List.mem_cons.mpr ((List.mem_cons.mp hx).imp id ih)

/-- The item is there if an entry was found, and no old entry is. -/
theorem spared_iff (hitem : old item = false) : ∀ l : List α, Spared key old item l ↔
    ((scan key old item l).2 = true → item ∈ (scan key old item l).1) ∧
      ∀ x ∈ (scan key old item l).1, old x = false
  | [] => ⟨fun _ => ⟨fun h => (by cases h), fun x hx => (by cases hx)⟩, fun _ => trivial⟩
  | [e] => by
    rw [Spared, scan]
    by_cases hold : old e = true
    · rw [if_pos hold]
      constructor
      · intro h
        exact ⟨fun hfound => absurd ⟨hold, of_decide_eq_true hfound⟩ h,
          fun x hx => (by cases hx)⟩
      · rintro ⟨hin, -⟩ ⟨-, hkey⟩
        cases hin (decide_eq_true hkey)
    · rw [if_neg hold]
      refine ⟨fun _ => ?_, fun _ h => hold h.1⟩
      split
      · exact ⟨fun _ => List.mem_singleton_self _, List.forall_mem_singleton.mpr hitem⟩
      · exact ⟨fun h => (by cases h), List.forall_mem_singleton.mpr (Bool.eq_false_iff.mpr hold)⟩
  | e :: e' :: rest => by
    have hdropped := spared_iff hitem rest
    have hkept := spared_iff hitem (e' :: rest)
    -- an entry of another key before the rest is not the item
    have hfront : ∀ (a : α) (r : List α × Bool), key a ≠ key item →
        (((r.2 = true → item ∈ a :: r.1) ∧ ∀ x ∈ a :: r.1, old x = false) ↔
          old a = false ∧ (r.2 = true → item ∈ r.1) ∧ ∀ x ∈ r.1, old x = false) := by
      intro a r hkey
      rw [List.forall_mem_cons, List.mem_cons,
        or_iff_right fun h : item = a => hkey (congrArg key h.symm)]
      exact ⟨fun h => ⟨h.2.1, h.1, h.2.2⟩, fun h => ⟨h.2.1, h.1, h.2.2⟩⟩
    rw [Spared, scan]
    by_cases hold : old e = true
    · rw [if_pos hold, if_pos hold]
      by_cases hkey : key e' = key item
      · rw [if_pos hkey, if_pos hkey, List.forall_mem_cons]
        exact ⟨fun h => ⟨fun _ => List.mem_cons_self, hitem, h⟩, fun h => h.2.2⟩
      · rw [if_neg hkey, if_neg hkey, hdropped]
        exact (hfront e' _ hkey).symm
    · rw [if_neg hold, if_neg hold]
      by_cases hkey : key e = key item
      · rw [if_pos hkey, if_pos hkey]
        exact ⟨fun h => ⟨fun _ => List.mem_cons_self, List.forall_mem_cons.mpr ⟨hitem, h⟩⟩,
          fun h => (List.forall_mem_cons.mp h.2).2⟩
      · rw [if_neg hkey, if_neg hkey, hkept]
        exact ⟨fun h => (hfront e _ hkey).mpr ⟨Bool.eq_false_iff.mpr hold, h⟩,
          fun h => ((hfront e _ hkey).mp h).2⟩

end Scan

/-! ## The tables -/

abbrev Byte := BitVec 8

def MAX_AP_CACHE_PER_SCAN : ℕ := 32
def MAX_HOTLIST_APS : ℕ := 16

/-- `struct sprdwl_gscan_result`: `ssid` is the string that starts there, `info` what is between
`bssid` and `ie_length`. -/
structure Result where
  ts : BitVec 64
  ssid : List Byte
  bssid : List Byte
  info : List Byte
  ieLength : BitVec 16
  ieData : Byte
  deriving DecidableEq, Repr

/-- What the comparison looks at. -/
def Result.ap (r : Result) : List Byte × List Byte := (r.bssid, r.ssid)

/-- What a result says, but the elements that are not kept. -/
def Result.news (r : Result) : BitVec 64 × (List Byte × List Byte) × List Byte := (r.ts, r.ap, r.info)

/-- `time_after(a, b)` -/
def timeAfter (a b : BitVec 64) : Bool := (b - a).msb

/-- `time_after(jiffies - VENDOR_SCAN_RESULT_EXPIRE, r->ts)` -/
def expired (expire jiffies : BitVec 64) (r : Result) : Bool := timeAfter (jiffies - expire) r.ts

/-- `results` and `num_results`; what is behind the number stays in the array. -/
structure Table where
  results : ℕ → Result
  numResults : ℕ

/-- The `memcpy` that drops the entry at `i`; source and destination overlap, and it is read as a
`memmove`. -/
def Table.drop (t : Table) (i : ℕ) : Table where
  results j := if i ≤ j ∧ j + 1 < t.numResults then t.results (j + 1) else t.results j
  numResults := t.numResults - 1

def Table.set (t : Table) (i : ℕ) (r : Result) : Table :=
  { t with results := Function.update t.results i r }

/-- What the loop does first with the entry at `i`. -/
def Table.purge (old : Result → Bool) (t : Table) (i : ℕ) : Table :=
  if old (t.results i) then t.drop i else t

theorem Table.purge_numResults_le (old : Result → Bool) (t : Table) (i : ℕ) :
    (t.purge old i).numResults ≤ t.numResults := by
  rw [purge]
  split
  · exact Nat.sub_le _ _
  · exact Nat.le_refl _

/-- The loop of both functions from `i` on, with whether it has returned. -/
def cacheLoop (old : Result → Bool) (item : Result) (t : Table) (i : ℕ) : Table × Bool :=
  if i < t.numResults then
    if ((t.purge old i).results i).ap = item.ap then ((t.purge old i).set i item, true)
    else cacheLoop old item (t.purge old i) (i + 1)
  else (t, false)
  termination_by t.numResults - i
  decreasing_by
    have hle := t.purge_numResults_le old i
    omega

/-- What both functions do with a table of some size: whether it returns 0, and the table. -/
def cacheResult (size : ℕ) (old : Result → Bool) (item : Result) (t : Table) : Bool × Table :=
  if size ≤ t.numResults then (false, t)
  else
    let r := cacheLoop old item t 0
    if r.2 then (true, r.1)
    else
      (true, { r.1.set r.1.numResults { item with ieLength := 0, ieData := 0 } with
        numResults := r.1.numResults + 1 })

/-- The entries from `i` on. -/
def seg (results : ℕ → Result) (i n : ℕ) : List Result :=
  (List.range n).map fun k => results (i + k)

def Table.entries (t : Table) : List Result := seg t.results 0 t.numResults

theorem seg_succ (results : ℕ → Result) (i n : ℕ) :
    seg results i (n + 1) = results i :: seg results (i + 1) n := by
  rw [seg, List.range_succ_eq_map, List.map_cons, List.map_map, seg]
  refine congrArg _ (List.map_congr_left fun k _ => ?_)
  exact congrArg results (by rw [Nat.succ_eq_add_one]; omega)

theorem seg_congr {results results' : ℕ → Result} {i n : ℕ}
    (h : ∀ j, i ≤ j → j < i + n → results j = results' j) :
    seg results i n = seg results' i n := by
  refine List.map_congr_left fun k hk => ?_
  have hk := List.mem_range.mp hk
  exact h _ (by omega) (by omega)

theorem seg_append (results : ℕ → Result) (i n m : ℕ) :
    seg results i (n + m) = seg results i n ++ seg results (i + n) m := by
  induction n generalizing i with
  | zero => simp [seg]
  | succ n ih =>
    rw [Nat.succ_add, seg_succ, seg_succ, ih, List.cons_append,
      show i + 1 + n = i + (n + 1) by omega]

theorem length_seg (results : ℕ → Result) (i n : ℕ) : (seg results i n).length = n := by simp [seg]

/-- The entries behind one that is dropped move down. -/
theorem seg_drop {t : Table} {i m : ℕ} (h : t.numResults = i + (m + 1)) :
    seg (t.drop i).results i m = seg t.results (i + 1) m := by
  refine List.map_congr_left fun k hk => ?_
  have hk := List.mem_range.mp hk
  rw [Table.drop]
  dsimp only
  rw [if_pos (by omega)]
  exact congrArg t.results (by omega)

theorem drop_before {t : Table} {i j : ℕ} (h : j < i) : (t.drop i).results j = t.results j :=
  if_neg (by omega)

theorem seg_set (t : Table) (i n : ℕ) (r : Result) :
    seg (t.set i r).results 0 (i + (n + 1)) = seg t.results 0 i ++ r :: seg t.results (i + 1) n := by
  rw [seg_append, Nat.zero_add, seg_succ]
  congr 1
  · exact seg_congr fun j _ hj => Function.update_of_ne (by omega) _ _
  · congr 1
    · exact Function.update_self _ _ _
    · exact seg_congr fun j hj _ => Function.update_of_ne (by omega) _ _

/-- The loop does with the entries of the table from `i` on what `scan` does with a list. -/
theorem cacheLoop_eq_scan (old : Result → Bool) (item : Result) {n : ℕ} {t : Table} {i : ℕ}
    (hnum : t.numResults = i + n) :
    (cacheLoop old item t i).1.entries =
        seg t.results 0 i ++ (scan Result.ap old item (seg t.results i n)).1 ∧
      (cacheLoop old item t i).2 = (scan Result.ap old item (seg t.results i n)).2 := by
  induction hk : n using Nat.strong_induction_on generalizing n t i with
  | _ _ ih =>
    subst hk
    rw [cacheLoop]
    cases n with
    | zero =>
      rw [if_neg (by omega), Table.entries, hnum]
      simp [seg, scan]
    | succ n =>
      rw [if_pos (by omega), Table.purge]
      by_cases hold : old (t.results i) = true
      · rw [if_pos hold]
        have hbefore : seg (t.drop i).results 0 i = seg t.results 0 i :=
          seg_congr fun j _ hj => drop_before (by omega)
        have hnum' : (t.drop i).numResults = i + n := congrArg Nat.pred hnum
        cases n with
        | zero =>
          -- the last entry: what is compared is the one that was dropped
          have hstale : (t.drop i).results i = t.results i := if_neg (by omega)
          rw [hstale, seg_succ]
          simp only [seg, List.range_zero, List.map_nil, scan, if_pos hold, List.append_nil]
          by_cases hkey : (t.results i).ap = item.ap
          · rw [if_pos hkey]
            refine ⟨?_, (decide_eq_true hkey).symm⟩
            rw [Table.entries, Table.set]
            dsimp only
            rw [hnum', Nat.add_zero]
            refine (seg_congr fun j _ hj => ?_).trans hbefore
            exact Function.update_of_ne (by omega) _ _
          · rw [if_neg hkey, cacheLoop, if_neg (by omega), Table.entries, hnum', Nat.add_zero]
            exact ⟨hbefore, (decide_eq_false hkey).symm⟩
        | succ m =>
          have hmoved : (t.drop i).results i = t.results (i + 1) := if_pos (by omega)
          have hrest : seg (t.drop i).results (i + 1) m = seg t.results (i + 1 + 1) m := by
            have hall := seg_drop hnum
            rw [seg_succ, seg_succ] at hall
            exact (List.cons.inj hall).2
          rw [hmoved, seg_succ, seg_succ, scan, if_pos hold]
          by_cases hkey : (t.results (i + 1)).ap = item.ap
          · rw [if_pos hkey, if_pos hkey]
            refine ⟨?_, rfl⟩
            rw [Table.entries]
            change seg ((t.drop i).set i item).results 0 (t.drop i).numResults = _
            rw [hnum', seg_set, hbefore, hrest]
          · rw [if_neg hkey, if_neg hkey]
            obtain ⟨hentries, hfound⟩ := ih m (by omega) (t := t.drop i) (i := i + 1)
              (by rw [hnum']; omega) rfl
            rw [hentries, hfound, hrest]
            refine ⟨?_, rfl⟩
            rw [seg_append _ 0 i 1, hbefore, Nat.zero_add, seg_succ, hmoved, List.append_assoc]
            simp [seg]
      · rw [if_neg hold]
        have hscan : scan Result.ap old item (seg t.results i (n + 1)) =
            if (t.results i).ap = item.ap then (item :: seg t.results (i + 1) n, true)
            else (t.results i :: (scan Result.ap old item (seg t.results (i + 1) n)).1,
              (scan Result.ap old item (seg t.results (i + 1) n)).2) := by
          rw [seg_succ]
          cases n with
          | zero => simp only [seg, List.range_zero, List.map_nil, scan, if_neg hold]
          | succ m =>
            rw [seg_succ, scan, if_neg hold]
        rw [hscan]
        by_cases hkey : (t.results i).ap = item.ap
        · rw [if_pos hkey, if_pos hkey]
          refine ⟨?_, rfl⟩
          rw [Table.entries]
          change seg (t.set i item).results 0 t.numResults = _
          rw [hnum, seg_set]
        · rw [if_neg hkey, if_neg hkey]
          obtain ⟨hentries, hfound⟩ := ih n (by omega) (t := t) (i := i + 1) (by rw [hnum]; omega) rfl
          rw [hentries, hfound, seg_append _ 0 i 1, Nat.zero_add, List.append_assoc]
          exact ⟨by simp [seg], rfl⟩

/-- What an accepted call does to the table. -/
structure Kept (size : ℕ) (old : Result → Bool) (item : Result) (t t' : Table) : Prop where
  atMost : t'.numResults ≤ size
  distinct : (t'.entries.map Result.ap).Nodup
  present : ∃ x ∈ t'.entries, x.news = item.news
  fresh : ∀ x ∈ t'.entries, old x = false
  others : ∀ x ∈ t.entries, old x = false → x.ap ≠ item.ap → x ∈ t'.entries

/-- The result is not old itself, and the loop leaves no old one. -/
def Cached (old : Result → Bool) (item : Result) (t : Table) : Prop :=
  old item = false ∧ Spared Result.ap old item t.entries

theorem length_entries (t : Table) : t.entries.length = t.numResults := length_seg _ _ _

theorem cacheResult_full {size : ℕ} {old : Result → Bool} {item : Result} {t : Table}
    (h : size ≤ t.numResults) : cacheResult size old item t = (false, t) := if_pos h

theorem cacheResult_accepts {size : ℕ} {old : Result → Bool} {item : Result} {t : Table}
    (h : t.numResults < size) : (cacheResult size old item t).1 = true := by
  rw [cacheResult, if_neg (by omega)]
  dsimp only
  split <;> rfl

/-- What the result is without its elements. -/
def Result.stripped (r : Result) : Result := { r with ieLength := 0, ieData := 0 }

/-- The entries behind an accepted call: those the loop leaves, and the result if none was found. -/
theorem entries_cacheResult {size : ℕ} (old : Result → Bool) (item : Result) {t : Table}
    (h : t.numResults < size) :
    (cacheResult size old item t).2.entries =
      (scan Result.ap old item t.entries).1 ++
        (if (scan Result.ap old item t.entries).2 then [] else [item.stripped]) := by
  obtain ⟨hentries, hfound⟩ := cacheLoop_eq_scan old item (t := t) (i := 0)
    (Nat.zero_add _).symm
  have hfound' : (cacheLoop old item t 0).2 = (scan Result.ap old item t.entries).2 := hfound
  have hentries' : (cacheLoop old item t 0).1.entries = (scan Result.ap old item t.entries).1 :=
    hentries
  rw [cacheResult, if_neg (by omega)]
  dsimp only
  rw [hfound']
  by_cases hin : (scan Result.ap old item t.entries).2 = true
  · rw [if_pos hin, if_pos hin, List.append_nil]
    exact hentries'
  · rw [if_neg hin, if_neg hin, ← hentries', Table.entries]
    dsimp only
    rw [seg_append, Nat.zero_add, seg_succ]
    congr 1
    · exact seg_congr fun j _ hj => Function.update_of_ne (by omega) _ _
    · exact congrArg (· :: _) (Function.update_self _ _ _)

theorem news_stripped (r : Result) : r.stripped.news = r.news := rfl

theorem ap_of_news {x r : Result} (h : x.news = r.news) : x.ap = r.ap :=
  (Prod.ext_iff.mp (Prod.ext_iff.mp h).2).1

section Accepted
variable {size : ℕ} {old : Result → Bool} {item : Result} {t : Table}

variable (old item) in
/-- A table of different access points stays one, within its size. -/
theorem distinct_cacheResult (hnodup : (t.entries.map Result.ap).Nodup) (h : t.numResults < size) :
    ((cacheResult size old item t).2.entries.map Result.ap).Nodup ∧
      (cacheResult size old item t).2.numResults ≤ size := by
  have hsub := scan_keys_sublist Result.ap old item t.entries
  have hlength := hsub.length_le
  rw [List.length_map, List.length_map, length_entries] at hlength
  rw [← length_entries, entries_cacheResult old item h, List.map_append, List.length_append]
  by_cases hin : (scan Result.ap old item t.entries).2 = true
  · rw [if_pos hin, List.map_nil, List.append_nil, List.length_nil]
    exact ⟨hsub.nodup hnodup, by omega⟩
  · have hne := key_ne_of_not_found t.entries (Bool.eq_false_iff.mpr hin)
    rw [if_neg hin]
    refine ⟨List.Nodup.append (hsub.nodup hnodup) (List.nodup_singleton _) ?_, ?_⟩
    · intro k hk hk'
      obtain ⟨x, hx, rfl⟩ := List.mem_map.mp hk
      exact hne x hx (List.mem_singleton.mp hk')
    · rw [List.length_singleton]
      omega

/-- No entry of another access point is lost before it is old. -/
theorem others_cacheResult (h : t.numResults < size) :
    ∀ x ∈ t.entries, old x = false → x.ap ≠ item.ap →
      x ∈ (cacheResult size old item t).2.entries := by
  intro x hx hold hkey
  rw [entries_cacheResult old item h]
  exact List.mem_append_left _ (mem_scan _ hold hkey hx)

variable (item) in
/-- An accepted call does what it should exactly if nothing old is left. -/
theorem kept_iff (hold : ∀ x r : Result, x.ts = r.ts → old x = old r)
    (hnodup : (t.entries.map Result.ap).Nodup) (h : t.numResults < size) :
    Kept size old item t (cacheResult size old item t).2 ↔ Cached old item t := by
  have hentries := entries_cacheResult old item h
  obtain ⟨hdistinct, hsize⟩ := distinct_cacheResult old item hnodup h
  constructor
  · rintro ⟨-, -, ⟨x, hx, hnews⟩, hfresh, -⟩
    have hitem : old item = false := by
      rw [← hold x item (Prod.ext_iff.mp hnews).1]
      exact hfresh x hx
    refine ⟨hitem, (spared_iff hitem _).mpr ⟨fun hfound => ?_, fun y hy => hfresh y ?_⟩⟩
    · by_contra hlost
      rw [hentries, if_pos hfound, List.append_nil] at hx
      exact key_ne_of_lost _ hnodup hfound hlost x hx (ap_of_news hnews)
    · rw [hentries]
      exact List.mem_append_left _ hy
  · rintro ⟨hitem, hspared⟩
    obtain ⟨hin, hfresh⟩ := (spared_iff hitem _).mp hspared
    refine ⟨hsize, hdistinct, ?_, ?_, others_cacheResult h⟩
    · rw [hentries]
      by_cases hfound : (scan Result.ap old item t.entries).2 = true
      · exact ⟨item, List.mem_append_left _ (hin hfound), rfl⟩
      · rw [if_neg hfound]
        exact ⟨item.stripped, List.mem_append_right _ (List.mem_singleton_self _), news_stripped item⟩
    · rw [hentries]
      intro x hx
      rcases List.mem_append.mp hx with hx | hx
      · exact hfresh x hx
      · split at hx
        · cases hx
        · rw [List.mem_singleton.mp hx, hold item.stripped item rfl]
          exact hitem

end Accepted

/-! ## The calls -/

/-- `struct sprdwl_gscan_cached_results` -/
structure Bucket where
  scanId : Byte
  table : Table

/-- `gscan_res` with its `gscan_buckets_num` tables, and `hotlist_res`. -/
structure Cache where
  gscanRes : Option (List Bucket)
  hotlistRes : Option Table

/-- A result that is given to one of the functions at a time. -/
inductive Call
  | scanResult (jiffies : BitVec 64) (bucketId : Byte) (item : Result)
  | hotlistResult (jiffies : BitVec 64) (item : Result)

/-- The first bucket with the id. -/
def named (bucketId : Byte) (bs : List Bucket) : Option ℕ := bs.findIdx? fun b => b.scanId == bucketId

/-- Where `p` is behind the search: if no bucket has the id, at the last one. -/
def found (bucketId : Byte) (bs : List Bucket) : ℕ := (named bucketId bs).getD (bs.length - 1)

section Calls
variable (expire : BitVec 64)

/-- `sprdwl_vendor_cache_scan_result`: whether it returns 0, and what it leaves. -/
def cacheScanResult (jiffies : BitVec 64) (bucketId : Byte) (item : Result) (c : Cache) :
    Bool × Cache :=
  match c.gscanRes with
  | none => (false, c)
  | some bs =>
    if bs.length ≤ bucketId.toNat then (false, c)
    else
      match bs[found bucketId bs]? with
      | none => (false, c)
      | some p =>
        let r := cacheResult MAX_AP_CACHE_PER_SCAN (expired expire jiffies) item p.table
        (r.1, { c with gscanRes := some (bs.set (found bucketId bs) { p with table := r.2 }) })

/-- `sprdwl_vendor_cache_hotlist_result` -/
def cacheHotlistResult (jiffies : BitVec 64) (item : Result) (c : Cache) : Bool × Cache :=
  match c.hotlistRes with
  | none => (false, c)
  | some p =>
    let r := cacheResult MAX_HOTLIST_APS (expired expire jiffies) item p
    (r.1, { c with hotlistRes := some r.2 })

def Call.perform (c : Cache) : Call → Bool × Cache
  | .scanResult jiffies bucketId item => cacheScanResult expire jiffies bucketId item c
  | .hotlistResult jiffies item => cacheHotlistResult expire jiffies item c

def step (c : Cache) (call : Call) : Except Unit Cache := .ok (call.perform expire c).2

/-- If the call is accepted, its result is in the table it is meant for, and nothing else changes. -/
def Sound (c : Cache) (call : Call) : Prop :=
  (call.perform expire c).1 = true →
    match call with
    | .scanResult jiffies bucketId item =>
      ∃ bs k p t, c.gscanRes = some bs ∧ named bucketId bs = some k ∧ bs[k]? = some p ∧
        Kept MAX_AP_CACHE_PER_SCAN (expired expire jiffies) item p.table t ∧
        (call.perform expire c).2 = { c with gscanRes := some (bs.set k { p with table := t }) }
    | .hotlistResult jiffies item =>
      ∃ p t, c.hotlistRes = some p ∧ Kept MAX_HOTLIST_APS (expired expire jiffies) item p t ∧
        (call.perform expire c).2 = { c with hotlistRes := some t }

/-- The call is rejected, or a bucket has the id and the loop purges the table of the call. -/
def Takes (c : Cache) : Call → Prop
  | .scanResult jiffies bucketId item =>
    ∀ bs, c.gscanRes = some bs → bucketId.toNat < bs.length →
      ∀ p, bs[found bucketId bs]? = some p →
      p.table.numResults < MAX_AP_CACHE_PER_SCAN →
        (∃ b ∈ bs, b.scanId = bucketId) ∧ Cached (expired expire jiffies) item p.table
  | .hotlistResult jiffies item =>
    ∀ p, c.hotlistRes = some p → p.numResults < MAX_HOTLIST_APS →
      Cached (expired expire jiffies) item p

end Calls

/-- No table has two entries of one access point. -/
structure Distinct (c : Cache) : Prop where
  scan : ∀ bs, c.gscanRes = some bs → ∀ b ∈ bs, (b.table.entries.map Result.ap).Nodup
  hotlist : ∀ p, c.hotlistRes = some p → (p.entries.map Result.ap).Nodup

theorem expired_congr (expire jiffies : BitVec 64) (x r : Result) (h : x.ts = r.ts) :
    expired expire jiffies x = expired expire jiffies r := by
  rw [expired, expired, h]

theorem exists_named_iff {bucketId : Byte} {bs : List Bucket} :
    (∃ k, named bucketId bs = some k) ↔ ∃ b ∈ bs, b.scanId = bucketId := by
  rw [named, ← Option.isSome_iff_exists, List.findIdx?_isSome, List.any_eq_true]
  simp only [beq_iff_eq]

/-- Whatever a call does to a table, distinct it stays. -/
theorem distinct_table {size : ℕ} {old : Result → Bool} {item : Result} {t : Table}
    (h : (t.entries.map Result.ap).Nodup) :
    ((cacheResult size old item t).2.entries.map Result.ap).Nodup := by
  by_cases hfull : size ≤ t.numResults
  · rw [cacheResult_full hfull]
    exact h
  · exact (distinct_cacheResult old item h (by omega)).1

theorem Distinct.perform {c : Cache} (h : Distinct c) (expire : BitVec 64) (call : Call) :
    Distinct (call.perform expire c).2 := by
  cases call with
  | scanResult jiffies bucketId item =>
    rw [Call.perform, cacheScanResult]
    split
    · exact h
    · rename_i bs hbs
      split
      · exact h
      · split
        · exact h
        · rename_i p hp
          refine ⟨?_, h.hotlist⟩
          rintro _ ⟨⟩ b hb
          rcases List.mem_or_eq_of_mem_set hb with hb | rfl
          · exact h.scan bs hbs b hb
          · exact distinct_table (h.scan bs hbs p (List.mem_of_getElem? hp))
  | hotlistResult jiffies item =>
    rw [Call.perform, cacheHotlistResult]
    split
    · exact h
    · rename_i p hp
      refine ⟨h.scan, ?_⟩
      rintro _ ⟨⟩
      exact distinct_table (h.hotlist p hp)

/-- The bucket that a set put its table into gives it back. -/
theorem table_of_set_eq {bs : List Bucket} {k : ℕ} {p : Bucket} {t t' : Table}
    (hp : bs[k]? = some p) (h : bs.set k { p with table := t } = bs.set k { p with table := t' }) : t = t' := by
  have hk : k < bs.length := (List.getElem?_eq_some_iff.mp hp).1
  have hget : (bs.set k { p with table := t })[k]? = (bs.set k { p with table := t' })[k]? := by rw [h]
  rw [List.getElem?_set_self hk, List.getElem?_set_self hk] at hget
  exact congrArg Bucket.table (Option.some.inj hget)

theorem sound_iff_takes {expire : BitVec 64} {c : Cache} (h : Distinct c) (call : Call) :
    Sound expire c call ↔ Takes expire c call := by
  cases call with
  | scanResult jiffies bucketId item =>
    rw [Sound, Takes, Call.perform, cacheScanResult]
    cases hbs : c.gscanRes with
    | none => exact ⟨fun _ bs h => (by cases h), fun _ h => (by cases h)⟩
    | some bs =>
      by_cases hid : bs.length ≤ bucketId.toNat
      · simp only [if_pos hid]
        refine ⟨fun _ bs' hbs' hid' => ?_, fun _ h => (by cases h)⟩
        cases hbs'
        omega
      · simp only [if_neg hid]
        cases hp : bs[found bucketId bs]? with
        | none =>
          refine ⟨fun _ bs' hbs' _ p hp' => ?_, fun _ h => (by cases h)⟩
          cases hbs'
          rw [hp] at hp'
          cases hp'
        | some p =>
          dsimp only
          have hnodup := h.scan bs hbs p (List.mem_of_getElem? hp)
          by_cases hfull : MAX_AP_CACHE_PER_SCAN ≤ p.table.numResults
          · rw [cacheResult_full hfull]
            refine ⟨fun _ bs' hbs' _ p' hp' hroom => ?_, fun _ h => (by cases h)⟩
            cases hbs'
            rw [hp] at hp'
            cases hp'
            omega
          · have hroom : p.table.numResults < MAX_AP_CACHE_PER_SCAN := by omega
            have hkept := kept_iff item (expired_congr expire jiffies) hnodup hroom
            constructor
            · intro hsound bs' hbs' _ p' hp' _
              cases hbs'
              rw [hp] at hp'
              cases hp'
              obtain ⟨bs', k, p', t, hbs', hk, hp', ht, hset⟩ := hsound (cacheResult_accepts hroom)
              cases hbs'
              have hfound : found bucketId bs = k := by rw [found, hk, Option.getD_some]
              rw [hfound] at hp hset
              rw [hp] at hp'
              cases hp'
              have heq := table_of_set_eq hp (Option.some.inj (congrArg Cache.gscanRes hset))
              rw [← heq] at ht
              exact ⟨exists_named_iff.mp ⟨k, hk⟩, hkept.mp ht⟩
            · intro htakes _
              obtain ⟨hnamed, hcached⟩ := htakes bs rfl (by omega) p hp hroom
              obtain ⟨k, hk⟩ := exists_named_iff.mpr hnamed
              have hfound : found bucketId bs = k := by rw [found, hk, Option.getD_some]
              refine ⟨bs, k, p, _, rfl, hk, hfound ▸ hp, hkept.mpr hcached, ?_⟩
              rw [hfound]
  | hotlistResult jiffies item =>
    rw [Sound, Takes, Call.perform, cacheHotlistResult]
    cases hp : c.hotlistRes with
    | none => exact ⟨fun _ p h => (by cases h), fun _ h => (by cases h)⟩
    | some p =>
      dsimp only
      by_cases hfull : MAX_HOTLIST_APS ≤ p.numResults
      · rw [cacheResult_full hfull]
        refine ⟨fun _ p' hp' hroom => ?_, fun _ h => (by cases h)⟩
        cases hp'
        omega
      · have hroom : p.numResults < MAX_HOTLIST_APS := by omega
        have hkept := kept_iff item (expired_congr expire jiffies) (h.hotlist p hp) hroom
        constructor
        · intro hsound p' hp' _
          cases hp'
          obtain ⟨p', t, hp', ht, hset⟩ := hsound (cacheResult_accepts hroom)
          cases hp'
          have heq := Option.some.inj (congrArg Cache.hotlistRes hset)
          rw [← heq] at ht
          exact hkept.mp ht
        · exact fun htakes _ => ⟨p, _, rfl, hkept.mpr (htakes p rfl hroom), rfl⟩

/-! ## Runs -/

def Result.zero : Result := ⟨0, [], List.replicate 6 0, List.replicate 14 0, 0, 0⟩

def Table.zero : Table := ⟨fun _ => Result.zero, 0⟩

/-- The buffers as they are set up, with the ids of the buckets. -/
def start (scanIds : Option (List Byte)) (hotlist : Bool) : Cache where
  gscanRes := scanIds.map fun ids => ids.map fun i => ⟨i, Table.zero⟩
  hotlistRes := if hotlist then some Table.zero else none

theorem distinct_start (scanIds : Option (List Byte)) (hotlist : Bool) :
    Distinct (start scanIds hotlist) := by
  refine ⟨fun bs hbs b hb => ?_, fun p hp => ?_⟩
  · obtain ⟨ids, -, rfl⟩ := Option.map_eq_some_iff.mp hbs
    obtain ⟨i, -, rfl⟩ := List.mem_map.mp hb
    exact List.nodup_nil
  · cases hotlist with
    | false => cases hp
    | true =>
      obtain rfl := Option.some.inj hp
      exact List.nodup_nil

/-- Every accepted call of a run does what it should exactly if each finds its bucket, and a table
that the loop purges. -/
theorem cache_sound_iff (expire : BitVec 64) (scanIds : Option (List Byte)) (hotlist : Bool)
    (calls : List Call) :
    Along (step expire) (Sound expire) (start scanIds hotlist) calls ↔
      Along (step expire) (Takes expire) (start scanIds hotlist) calls := by
  refine along_congr (I := Distinct) (fun c call h => sound_iff_takes h call) ?_
    (distinct_start scanIds hotlist)
  rintro c call c' h - ⟨⟩
  exact h.perform expire call

/-- Of two access points that have both expired when a third one comes the second one stays; the
time to expire is 10 here and `7*HZ` in the driver. -/
theorem expired_left : ¬ Along (step 10) (Sound 10) (start (some [0]) false)
    [.scanResult 0 0 { Result.zero with ssid := [65] },
      .scanResult 0 0 { Result.zero with ssid := [66] },
      .scanResult 100 0 { Result.zero with ssid := [67], ts := 100 }] := by
  rintro ⟨-, h⟩
  obtain ⟨hsound, -⟩ := (h _ rfl).2 _ rfl
  have hdistinct := ((distinct_start (some [0]) false).perform 10
    (.scanResult 0 0 { Result.zero with ssid := [65] })).perform 10
    (.scanResult 0 0 { Result.zero with ssid := [66] })
  -- the table of the third call has the first two results
  have hone := entries_cacheResult (expired 10 0) { Result.zero with ssid := [65] }
    (show Table.zero.numResults < 32 by decide)
  have htwo := entries_cacheResult (expired 10 0) { Result.zero with ssid := [66] }
    (show _ < 32 by rw [← length_entries, hone]; decide)
  rw [hone] at htwo
  obtain ⟨-, -, hspared⟩ := (sound_iff_takes hdistinct _).mp hsound _ rfl (by decide) _ rfl
    ((length_entries _).symm.trans_lt ((congrArg List.length htwo).trans_lt (by decide)))
  have hleft := (congrArg (Spared Result.ap _ _) htwo).mp hspared
  exact absurd hleft.1 (by decide)

end Uwe5631.ScanCache
