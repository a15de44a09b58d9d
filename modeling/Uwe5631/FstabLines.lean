import Mathlib.Data.BitVec
import Mathlib.Data.List.Basic

/-!
# The lines of the file system table

`load_fstab_conf` takes the lines of a file from `fgets`, which reads as much as fits into the
buffer and sets the position of the file behind the first line of it.
-/
namespace Uwe5631.FstabLines

abbrev Byte := BitVec 8

def LF : Byte := 10
def CONF_COMMENT : Byte := 35
def CONF_MAX_LINE_LEN : ℕ := 255

/-- `CONF_DELIMITERS` -/
def CONF_DELIMITERS : List Byte := [32, 61, 10, 13, 9]

def USERDATA : List Byte := [117, 115, 101, 114, 100, 97, 116, 97]
def WCNMODEM : List Byte := [119, 99, 110, 109, 111, 100, 101, 109]

/-- A file, and how `kernel_read` goes about it: how much it is willing to read in each call, and
whether it moves the position it is given. -/
structure KernelRead where
  file : List Byte
  chunk : ℕ → ℕ
  advances : Bool

/-- The bytes the call reads from a position, `count` at most. -/
def KernelRead.read (k : KernelRead) (call pos count : ℕ) : List Byte :=
  ((k.file.drop pos).take count).take (k.chunk call)

/-- What `fgets` leaves in its buffer, and whether there was room for the `NUL`. -/
structure Line where
  text : List Byte
  terminated : Bool
  deriving DecidableEq, Repr

/-- `while (buf[i++] != '\n' && i < ret)` -/
def scan : List Byte → ℕ
  | [] => 0
  | b :: rest => if b = LF then 1 else scan rest + 1

/-- `fgets`, with the position it leaves. It stops within what was read, so that its last
`return NULL` is not reached. -/
def fgets (k : KernelRead) (bufLen call pos : ℕ) : Option (Line × ℕ) :=
  let buf := k.read call pos bufLen
  let ret := buf.length
  let fPos := if k.advances then pos + ret else pos
  if ret = 0 then none
  else
    let i := scan buf
    some (⟨buf.take i, decide (i < bufLen)⟩, fPos + i)

/-- Successive calls until one returns `NULL`. Each takes a byte at least, so that there are no more
than bytes in the file. -/
def fgetsCalls (k : KernelRead) : ℕ → ℕ → ℕ → List Line
  | 0, _, _ => []
  | n + 1, call, pos =>
    match fgets k (CONF_MAX_LINE_LEN + 1) call pos with
    | none => []
    | some (line, pos) => line :: fgetsCalls k n (call + 1) pos

/-- The position of the first occurrence. -/
def strstr (pat : List Byte) : List Byte → Option ℕ
  | [] => if pat = [] then some 0 else none
  | b :: rest => if pat.isPrefixOf (b :: rest) then some 0 else (strstr pat rest).map (· + 1)

inductive Fault where
  | outOfBounds
  deriving DecidableEq, Repr

/-- The path `load_fstab_conf` makes of a line, if it finds the name in it. -/
def examine (line : Line) : Except Fault (Option (List Byte)) :=
  if line.text.head? = some CONF_COMMENT ∨ line.text.head? = some LF then .ok none
  else
    let name := line.text.takeWhile fun b => b ≠ 0 ∧ b ∉ CONF_DELIMITERS
    -- `strsep` goes on behind the buffer
    if name = line.text ∧ line.terminated = false then .error .outOfBounds
    else .ok ((strstr USERDATA name).map fun i => name.take i ++ WCNMODEM)

/-- The loop of `load_fstab_conf`: the lines it examines and the path it finds. -/
def loadFstabConf (k : KernelRead) : ℕ → ℕ → ℕ → Except Fault (List Line × Option (List Byte))
  | 0, _, _ => .ok ([], none)
  | n + 1, call, pos =>
    match fgets k (CONF_MAX_LINE_LEN + 1) call pos with
    | none => .ok ([], none)
    | some (line, pos) => (examine line).bind fun
      | some path => .ok ([line], some path)
      | none => (loadFstabConf k n (call + 1) pos).map fun r => (line :: r.1, r.2)

/-! ## The reference -/

/-- The lines of a text, each with the newline that ends it. -/
def lines : List Byte → List (List Byte)
  | [] => []
  | b :: rest =>
    if b = LF then [b] :: lines rest
    else
      match lines rest with
      | [] => [[b]]
      | l :: ls => (b :: l) :: ls

/-- A search of lines until one has the name. -/
def search : List (List Byte) → Except Fault (List (List Byte) × Option (List Byte))
  | [] => .ok ([], none)
  | l :: ls => (examine ⟨l, true⟩).bind fun
    | some path => .ok ([l], some path)
    | none => (search ls).map fun r => (l :: r.1, r.2)

theorem lines_cons (b : Byte) (rest : List Byte) :
    lines (b :: rest) = if b = LF then [b] :: lines rest
      else match lines rest with
        | [] => [[b]]
        | l :: ls => (b :: l) :: ls := rfl

theorem scan_cons (b : Byte) (rest : List Byte) :
    scan (b :: rest) = if b = LF then 1 else scan rest + 1 := rfl

theorem fgetsCalls_succ (k : KernelRead) (n call pos : ℕ) :
    fgetsCalls k (n + 1) call pos = match fgets k (CONF_MAX_LINE_LEN + 1) call pos with
      | none => []
      | some (line, pos) => line :: fgetsCalls k n (call + 1) pos := rfl

theorem flatten_lines (text : List Byte) : (lines text).flatten = text := by
  induction text with
  | nil => rfl
  | cons b rest ih =>
    rw [lines_cons]
    split
    · rw [List.flatten_cons, ih]
      rfl
    · split
      · rename_i hnil
        rw [hnil] at ih
        rw [← ih]
        rfl
      · rename_i l ls hcons
        rw [hcons, List.flatten_cons] at ih
        rw [List.flatten_cons, List.cons_append, ih]

theorem ne_nil_of_mem_lines (text : List Byte) : ∀ l ∈ lines text, l ≠ [] := by
  induction text with
  | nil =>
    intro l hl
    cases hl
  | cons b rest ih =>
    intro l hl
    rw [lines_cons] at hl
    split at hl
    · rcases List.mem_cons.mp hl with rfl | hmem
      · exact List.cons_ne_nil _ _
      · exact ih l hmem
    · split at hl
      · rw [List.mem_singleton.mp hl]
        exact List.cons_ne_nil _ _
      · rename_i l' ls hcons
        rcases List.mem_cons.mp hl with rfl | hmem
        · exact List.cons_ne_nil _ _
        · exact ih l (hcons ▸ List.mem_cons_of_mem _ hmem)

theorem lines_eq_nil {text : List Byte} (h : lines text = []) : text = [] := by
  rw [← flatten_lines text, h]
  rfl

/-- A text is one line if it has no newline but at its end. -/
theorem lines_eq_singleton_iff (text : List Byte) :
    lines text = [text] ↔ text ≠ [] ∧ LF ∉ text.dropLast := by
  induction text with
  | nil => simp [lines]
  | cons b rest ih =>
    rw [lines_cons]
    cases rest with
    | nil => by_cases hb : b = LF <;> simp [lines, hb]
    | cons c rest =>
      rw [List.dropLast_cons_cons, List.mem_cons, not_or]
      split
      · rename_i hb
        constructor
        · intro h
          have hnil := (List.cons.inj h).2
          exact absurd (lines_eq_nil hnil) (List.cons_ne_nil _ _)
        · exact fun h => absurd hb.symm h.2.1
      · rename_i hb
        have hb' : LF ≠ b := fun h => hb h.symm
        split
        · rename_i hnil
          exact absurd (lines_eq_nil hnil) (List.cons_ne_nil _ _)
        · rename_i l ls hcons
          rw [hcons, List.cons.injEq] at ih
          constructor
          · intro h
            obtain ⟨hl, hls⟩ := List.cons.inj h
            exact ⟨List.cons_ne_nil _ _, hb', (ih.mp ⟨(List.cons.inj hl).2, hls⟩).2⟩
          · intro h
            obtain ⟨hl, hls⟩ := ih.mpr ⟨List.cons_ne_nil _ _, h.2.2⟩
            rw [hl, hls]

theorem scan_le (buf : List Byte) : scan buf ≤ buf.length := by
  induction buf with
  | nil => exact Nat.le_refl _
  | cons b rest ih =>
    rw [scan_cons]
    split <;> simp only [List.length_cons] <;> omega

theorem scan_pos {buf : List Byte} (h : buf.length ≠ 0) : 0 < scan buf := by
  cases buf with
  | nil => exact absurd rfl h
  | cons b rest =>
    rw [scan_cons]
    split <;> omega

/-- The scan of one whole line takes all of it. -/
theorem scan_of_lines_eq {text : List Byte} (h : LF ∉ text.dropLast) : scan text = text.length := by
  induction text with
  | nil => rfl
  | cons b rest ih =>
    cases rest with
    | nil =>
      rw [scan_cons]
      split <;> rfl
    | cons c rest =>
      rw [List.dropLast_cons_cons, List.mem_cons, not_or] at h
      rw [scan_cons, if_neg fun hb => h.1 hb.symm, ih h.2]
      rfl

variable {k : KernelRead}

theorem length_read (call pos count : ℕ) :
    (k.read call pos count).length = min (k.chunk call) (min count (k.file.length - pos)) := by
  rw [KernelRead.read, List.length_take, List.length_take, List.length_drop]

/-- What a call of `fgets` returns lies in the file behind its position, and the position it leaves
is behind that. -/
theorem fgets_spec {bufLen call pos pos' : ℕ} {line : Line}
    (h : fgets k bufLen call pos = some (line, pos')) :
    0 < line.text.length ∧ pos + line.text.length ≤ k.file.length ∧
    line.text.length ≤ k.chunk call ∧ line.terminated = decide (line.text.length < bufLen) ∧
    pos' = (if k.advances then pos + (k.read call pos bufLen).length else pos) +
      line.text.length ∧
    line.text.length ≤ (k.read call pos bufLen).length := by
  simp only [fgets] at h
  split at h
  · cases h
  · rename_i hret
    have hle := scan_le (k.read call pos bufLen)
    have hpos := scan_pos hret
    have hread := length_read (k := k) call pos bufLen
    cases h
    have htext : ((k.read call pos bufLen).take (scan (k.read call pos bufLen))).length =
        scan (k.read call pos bufLen) := by
      rw [List.length_take]
      omega
    simp only [htext]
    exact ⟨hpos, by omega, by omega, trivial, trivial, hle⟩

/-- The lines returned from a position on are no longer than the file is from there. -/
theorem length_fgetsCalls (n call pos : ℕ) :
    ((fgetsCalls k n call pos).map fun line => line.text.length).sum ≤ k.file.length - pos := by
  induction n generalizing call pos with
  | zero => exact Nat.zero_le _
  | succ n ih =>
    rw [fgetsCalls_succ]
    split
    · exact Nat.zero_le _
    · rename_i line pos' hline
      obtain ⟨_, hfile, _, _, hpos', _⟩ := fgets_spec hline
      have htail := ih (call + 1) pos'
      have hge : pos + line.text.length ≤ pos' := by
        rw [hpos']
        split <;> omega
      rw [List.map_cons, List.sum_cons]
      omega

/-- At the end of the file `fgets` returns `NULL`. -/
theorem fgetsCalls_end (n call : ℕ) {pos : ℕ} (h : k.file.length ≤ pos) :
    fgetsCalls k n call pos = [] := by
  cases n with
  | zero => rfl
  | succ n =>
    have hread : (k.read call pos (CONF_MAX_LINE_LEN + 1)).length = 0 := by
      rw [length_read]
      omega
    rw [fgetsCalls_succ, fgets]
    simp [hread]

/-- More rounds than bytes find no more lines. -/
theorem fgetsCalls_fuel {n m call pos : ℕ} (hn : k.file.length - pos ≤ n)
    (hm : k.file.length - pos ≤ m) : fgetsCalls k n call pos = fgetsCalls k m call pos := by
  induction n generalizing m call pos with
  | zero => rw [fgetsCalls_end 0 call (by omega), fgetsCalls_end m call (by omega)]
  | succ n ih =>
    cases m with
    | zero => rw [fgetsCalls_end _ call (by omega), fgetsCalls_end _ call (by omega)]
    | succ m =>
      rw [fgetsCalls_succ, fgetsCalls_succ]
      split
      · rfl
      · rename_i line pos' hline
        obtain ⟨hpos, _, _, _, hpos', _⟩ := fgets_spec hline
        have hlt : pos < pos' := by
          rw [hpos']
          split <;> omega
        rw [ih (m := m) (by omega) (by omega)]

/-- The loop of `load_fstab_conf` searches the lines that `fgets` returns. -/
theorem loadFstabConf_eq_search {n call pos : ℕ}
    (h : ∀ line ∈ fgetsCalls k n call pos, line.terminated = true) :
    (loadFstabConf k n call pos).map (fun r => (r.1.map Line.text, r.2)) =
      search ((fgetsCalls k n call pos).map Line.text) := by
  induction n generalizing call pos with
  | zero => rfl
  | succ n ih =>
    rw [loadFstabConf]
    rw [fgetsCalls_succ] at h ⊢
    split
    · rfl
    · rename_i line pos' hline
      rw [hline] at h
      have hterm := h line List.mem_cons_self
      have htail := ih fun l hl => h l (List.mem_cons_of_mem _ hl)
      have heta : (⟨line.text, true⟩ : Line) = line := by rw [← hterm]
      rw [List.map_cons, search, heta, ← htail]
      cases examine line with
      | error e => rfl
      | ok found =>
        cases found with
        | some path => rfl
        | none =>
          change Except.map _ (Except.map _ _) = Except.map _ (Except.map _ _)
          cases loadFstabConf k n (call + 1) pos' <;> rfl

/-- Every line of the file once, in order and as a string, and what `load_fstab_conf` does with
them. -/
structure ReadsLines (k : KernelRead) : Prop where
  lines_eq : (fgetsCalls k k.file.length 0 0).map Line.text = lines k.file
  terminated : ∀ line ∈ fgetsCalls k k.file.length 0 0, line.terminated = true
  examined : (loadFstabConf k k.file.length 0 0).map (fun r => (r.1.map Line.text, r.2)) =
    search (lines k.file)

theorem readsLines_of {k : KernelRead}
    (hlines : (fgetsCalls k k.file.length 0 0).map Line.text = lines k.file)
    (hterm : ∀ line ∈ fgetsCalls k k.file.length 0 0, line.terminated = true) : ReadsLines k where
  lines_eq := hlines
  terminated := hterm
  examined := by rw [loadFstabConf_eq_search hterm, hlines]

/-- The bytes of the lines returned. -/
theorem sum_length_of_map_eq {calls : List Line} {ls : List (List Byte)}
    (h : calls.map Line.text = ls) : (calls.map fun line => line.text.length).sum =
      ls.flatten.length := by
  rw [List.length_flatten, ← h, List.map_map]
  rfl

/-! ## Kernels that leave the position alone -/

/-- The first line is what a scan takes. -/
theorem lines_eq_cons {text : List Byte} (h : text ≠ []) :
    lines text = text.take (scan text) :: lines (text.drop (scan text)) := by
  induction text with
  | nil => exact absurd rfl h
  | cons b rest ih =>
    rw [lines, scan]
    split
    · rfl
    · cases rest with
      | nil => rfl
      | cons c rest =>
        rw [ih (List.cons_ne_nil _ _)]
        rfl

/-- A scan of a front that has the whole line finds the same. -/
theorem scan_take {text : List Byte} {m : ℕ} (h : scan text ≤ m) : scan (text.take m) = scan text := by
  induction text generalizing m with
  | nil => rw [List.take_nil]
  | cons b rest ih =>
    rw [scan_cons] at h ⊢
    cases m with
    | zero => split at h <;> omega
    | succ m =>
      rw [List.take_succ_cons, scan]
      split
      · rfl
      · rename_i hb
        rw [if_neg hb] at h
        rw [ih (by omega)]

/-- Where `kernel_read` leaves the position alone, `fgets` returns the lines if they fit and the
reads are full. -/
theorem fgetsCalls_of_not_advances (hadvances : k.advances = false)
    (hchunk : ∀ call, CONF_MAX_LINE_LEN + 1 ≤ k.chunk call) {n call pos : ℕ}
    (hn : k.file.length - pos ≤ n)
    (hfits : ∀ l ∈ lines (k.file.drop pos), l.length ≤ CONF_MAX_LINE_LEN) :
    fgetsCalls k n call pos = (lines (k.file.drop pos)).map fun l => ⟨l, true⟩ := by
  have hmax : CONF_MAX_LINE_LEN = 255 := rfl
  induction n generalizing call pos with
  | zero =>
    rw [List.drop_of_length_le (by omega)]
    rfl
  | succ n ih =>
    rcases Nat.lt_or_ge pos k.file.length with hlt | hge
    · have hlen : (k.file.drop pos).length = k.file.length - pos := List.length_drop
      have hne : k.file.drop pos ≠ [] := fun h => by
        rw [h, List.length_nil] at hlen
        omega
      have hpos := scan_pos (show (k.file.drop pos).length ≠ 0 by omega)
      have hle := scan_le (k.file.drop pos)
      have hcons := lines_eq_cons hne
      rw [hcons] at hfits ⊢
      have hfirst := hfits _ List.mem_cons_self
      rw [List.length_take, Nat.min_eq_left hle] at hfirst
      have hread : k.read call pos (CONF_MAX_LINE_LEN + 1) =
          (k.file.drop pos).take (CONF_MAX_LINE_LEN + 1) := by
        refine List.take_of_length_le ?_
        rw [List.length_take]
        exact Nat.le_trans (Nat.min_le_left _ _) (hchunk call)
      have hscan : scan ((k.file.drop pos).take (CONF_MAX_LINE_LEN + 1)) = scan (k.file.drop pos) :=
        scan_take (by omega)
      have hone : fgets k (CONF_MAX_LINE_LEN + 1) call pos =
          some (⟨(k.file.drop pos).take (scan (k.file.drop pos)), true⟩,
            pos + scan (k.file.drop pos)) := by
        simp only [fgets, hread, hscan, hadvances]
        rw [if_neg (by rw [List.length_take]; omega), List.take_take, Nat.min_eq_left (by omega),
          decide_eq_true (by omega)]
        rfl
      have hdrop : (k.file.drop pos).drop (scan (k.file.drop pos)) =
          k.file.drop (pos + scan (k.file.drop pos)) := List.drop_drop
      have htail : fgetsCalls k n (call + 1) (pos + scan (k.file.drop pos)) =
          (lines (k.file.drop (pos + scan (k.file.drop pos)))).map fun l => ⟨l, true⟩ := by
        refine ih (by omega) ?_
        rw [← hdrop]
        exact fun l hl => hfits l (List.mem_cons_of_mem _ hl)
      rw [fgetsCalls, hone, List.map_cons, hdrop, ← htail]
    · rw [fgetsCalls_end _ _ hge, List.drop_of_length_le hge]
      rfl

theorem readsLines_of_not_advances (hadvances : k.advances = false)
    (hchunk : ∀ call, CONF_MAX_LINE_LEN + 1 ≤ k.chunk call)
    (hfits : ∀ l ∈ lines k.file, l.length ≤ CONF_MAX_LINE_LEN) : ReadsLines k := by
  have hcalls : fgetsCalls k k.file.length 0 0 =
      (lines (k.file.drop 0)).map fun l => ⟨l, true⟩ :=
    fgetsCalls_of_not_advances hadvances hchunk (Nat.le_refl _) hfits
  refine readsLines_of ?_ ?_
  · rw [List.drop_zero] at hcalls
    rw [hcalls, List.map_map]
    exact List.map_id _
  · rw [hcalls]
    intro line hmem
    obtain ⟨l, _, rfl⟩ := List.mem_map.mp hmem
    rfl

/-! ## Kernels that move the position -/

theorem readsLines_iff_of_advances (k : KernelRead) (hadvances : k.advances = true) :
    ReadsLines k ↔ k.file = [] ∨
      (LF ∉ k.file.dropLast ∧ k.file.length ≤ CONF_MAX_LINE_LEN ∧ k.file.length ≤ k.chunk 0) := by
  have hmax : CONF_MAX_LINE_LEN + 1 = 256 := rfl
  have hmax' : CONF_MAX_LINE_LEN = 255 := rfl
  constructor
  · intro h
    rcases Nat.eq_zero_or_pos k.file.length with hzero | hpos
    · exact .inl (List.eq_nil_of_length_eq_zero hzero)
    obtain ⟨n, hn⟩ : ∃ n, k.file.length = n + 1 := ⟨k.file.length - 1, by omega⟩
    have hlines := h.lines_eq
    have hterm := h.terminated
    have hall := flatten_lines k.file
    rw [hn, fgetsCalls] at hlines hterm
    split at hlines
    · -- `fgets` returns no line
      rw [← hlines] at hall
      rw [← hall] at hpos
      cases hpos
    · rename_i line pos' hline
      obtain ⟨hfst, hfile, hchunk, hterm', hpos', hread⟩ := fgets_spec hline
      rw [hline] at hterm
      have hroom : line.text.length < 256 := by
        rw [hterm line List.mem_cons_self] at hterm'
        exact of_decide_eq_true hterm'.symm
      rw [List.map_cons] at hlines
      have hrest := length_fgetsCalls (k := k) n (0 + 1) pos'
      rw [← hlines, List.flatten_cons] at hall
      have htotal := congrArg List.length hall
      rw [List.length_append] at htotal
      rw [sum_length_of_map_eq rfl] at hrest
      rw [hadvances, if_pos rfl] at hpos'
      -- the position is behind twice the first line, so that there is no second
      have hone : ((fgetsCalls k n (0 + 1) pos').map Line.text).flatten.length = 0 := by omega
      have htext : line.text = k.file := by
        rw [List.eq_nil_of_length_eq_zero hone, List.append_nil] at hall
        exact hall
      have hnil : (fgetsCalls k n (0 + 1) pos').map Line.text = [] := by
        refine List.eq_nil_iff_forall_not_mem.mpr fun l hl => ?_
        have hmem : l ∈ lines k.file := by
          rw [← hlines]
          exact List.mem_cons_of_mem _ hl
        exact ne_nil_of_mem_lines _ l hmem
          (List.flatten_eq_nil_iff.mp (List.eq_nil_of_length_eq_zero hone) l hl)
      rw [hnil, htext] at hlines
      refine .inr ⟨((lines_eq_singleton_iff _).mp hlines.symm).2, ?_, ?_⟩
      · rw [← htext]
        omega
      · rw [← htext]
        exact hchunk
  · rintro (hnil | ⟨hone, hlen, hchunk⟩)
    · refine readsLines_of ?_ ?_ <;> rw [hnil] <;> simp [fgetsCalls, lines]
    · rcases Nat.eq_zero_or_pos k.file.length with hzero | hpos
      · have hnil := List.eq_nil_of_length_eq_zero hzero
        refine readsLines_of ?_ ?_ <;> rw [hnil] <;> simp [fgetsCalls, lines]
      obtain ⟨n, hn⟩ : ∃ n, k.file.length = n + 1 := ⟨k.file.length - 1, by omega⟩
      have hne : k.file ≠ [] := fun h => by rw [h] at hpos; cases hpos
      have hread : k.read 0 0 (CONF_MAX_LINE_LEN + 1) = k.file := by
        have hfits : k.file.take (CONF_MAX_LINE_LEN + 1) = k.file :=
          List.take_of_length_le (by omega)
        rw [KernelRead.read, List.drop_zero, hfits, List.take_of_length_le hchunk]
      have hcalls : fgetsCalls k k.file.length 0 0 = [⟨k.file, true⟩] := by
        have hfirst : fgets k (CONF_MAX_LINE_LEN + 1) 0 0 =
            some (⟨k.file, true⟩, k.file.length + k.file.length) := by
          rw [fgets]
          simp only [hread, scan_of_lines_eq hone, List.take_length, hadvances, if_true]
          rw [if_neg (by omega), Nat.zero_add, decide_eq_true (by omega)]
        rw [hn, fgetsCalls, hfirst]
        simp only
        rw [fgetsCalls_end n 1 (by omega)]
      refine readsLines_of ?_ ?_
      · rw [hcalls, (lines_eq_singleton_iff _).mpr ⟨hne, hone⟩]
        rfl
      · rw [hcalls]
        intro line hmem
        rw [List.mem_singleton.mp hmem]

/-- A kernel that moves the position makes `fgets` pass over what it read: the lines of a file are
read only if there is one at most, and the first read brings it and leaves room for the `NUL`. -/
theorem readsLines_iff (file : List Byte) (chunk : ℕ → ℕ) :
    ReadsLines ⟨file, chunk, true⟩ ↔ file = [] ∨
      (LF ∉ file.dropLast ∧ file.length ≤ CONF_MAX_LINE_LEN ∧ file.length ≤ chunk 0) :=
  readsLines_iff_of_advances ⟨file, chunk, true⟩ rfl

/-- Of two lines, `#` and `/userdata`, the second is never read, and no path is found. -/
theorem two_lines_lost :
    ¬ ReadsLines ⟨[35, 10, 47, 117, 115, 101, 114, 100, 97, 116, 97, 10], fun _ => 4096, true⟩ ∧
    fgetsCalls ⟨[35, 10, 47, 117, 115, 101, 114, 100, 97, 116, 97, 10], fun _ => 4096, true⟩ 12 0 0 =
      [⟨[35, 10], true⟩] := by
  have hcalls : fgetsCalls ⟨[35, 10, 47, 117, 115, 101, 114, 100, 97, 116, 97, 10], fun _ => 4096,
      true⟩ 12 0 0 = [⟨[35, 10], true⟩] := by decide
  refine ⟨fun h => ?_, hcalls⟩
  have hlines := h.lines_eq
  rw [show (12 : ℕ) = List.length [35, 10, 47, 117, 115, 101, 114, 100, 97, 116, 97, 10] from rfl]
    at hcalls
  exact absurd hlines (by decide)

end Uwe5631.FstabLines
