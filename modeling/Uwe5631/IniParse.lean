import Mathlib.Data.BitVec
import Mathlib.Data.List.TakeWhile

/-!
# The debug settings

`dbg_ini_parse` reads the text of `wifi_dbg.ini` with one buffer for its lines.
-/
namespace Uwe5631.IniParse

def NUL : Char := Char.ofNat 0
def LINE_SIZE : ℕ := 256

/-- What ends a line. -/
def isEnd (c : Char) : Bool := c == NUL || c == '\r' || c == '\n'

def isRem (c : Char) : Bool := c == '#' || c == ';'

/-- `get_valid_line`, with what it has stored in `line`. -/
def getValidLine (lineSize : ℕ) :
    List Char → List Char → Bool → Option (List Char × List Char)
  | [], _, _ => none
  | c :: rest, line, rem =>
    if lineSize ≤ line.length then none
    else if isEnd c then
      if line = [] then getValidLine lineSize rest [] false else some (line, rest)
    else if c = ' ' then getValidLine lineSize rest line rem
    else if rem || isRem c then getValidLine lineSize rest line true
    else getValidLine lineSize rest (line ++ [c]) false

/-- `enum SEC_TYPE` -/
inductive Sec where
  | invalid
  | softap
  | debug
  deriving DecidableEq, Repr

/-- `softap_channel` and `sprdwl_debug_level`. -/
structure Cfg where
  softapChannel : BitVec 32
  debugLevel : BitVec 32
  deriving DecidableEq, Repr

def SOFTAP : List Char := ['[', 'S', 'O', 'F', 'T', 'A', 'P', ']']
def DEBUG : List Char := ['[', 'D', 'E', 'B', 'U', 'G', ']']
def CHANNEL : List Char := ['c', 'h', 'a', 'n', 'n', 'e', 'l']
def LOG_LEVEL : List Char := ['l', 'o', 'g', '_', 'l', 'e', 'v', 'e', 'l']
def L_NONE : BitVec 64 := 0

/-- `sec` and `status` -/
structure Secs where
  sec : Sec
  status : Sec → ℕ

def Secs.start : Secs := ⟨.invalid, fun _ => 0⟩

def secOf (line : List Char) : Sec :=
  if line = SOFTAP then .softap else if line = DEBUG then .debug else .invalid

/-- The header of a section, which opens it only the first time. -/
def Secs.header (s : Secs) (line : List Char) : Secs where
  sec := if s.status (secOf line) + 1 = 1 then secOf line else .invalid
  status := Function.update s.status (secOf line) (s.status (secOf line) + 1)

/-- Whether a key is one of the section. -/
def isKey : Sec → List Char → Bool
  | .softap, key => key == CHANNEL
  | .debug, key => key == LOG_LEVEL
  | .invalid, _ => false

/-- What a text of a number is; `none` where `kstrtoul` fails. -/
abbrev Kstrtoul := List Char → Option (BitVec 64)

def setValue (kstrtoul : Kstrtoul) (sec : Sec) (value : List Char) (cfg : Cfg) : Cfg :=
  match kstrtoul value with
  | none => cfg
  | some x =>
    match sec with
    | .softap => { cfg with softapChannel := x.setWidth 32 }
    | .debug => if L_NONE ≤ x then { cfg with debugLevel := x.setWidth 32 } else cfg
    | .invalid => cfg

/-- What `dbg_ini_parse` keeps from line to line. -/
structure State where
  secs : Secs
  index : ℕ
  line : List Char
  cfg : Cfg

/-- The buffer with a line in it, which ends with `NUL`. -/
def store (line buf : List Char) : List Char := line ++ NUL :: buf.drop (line.length + 1)

/-- The string that starts a piece of memory. -/
def cstr (mem : List Char) : Option (List Char) :=
  if NUL ∈ mem then some (mem.takeWhile (· ≠ NUL)) else none

/-- `while (line[index] != '=' && line[index] != NUL) index++`, on what starts at `index`. -/
def findEq : List Char → ℕ → Option ℕ
  | [], _ => none
  | c :: rest, index => if c = '=' ∨ c = NUL then some index else findEq rest (index + 1)

/-- The comparison of the key, and what it sets; `none` is a read behind the buffer. -/
def State.assign (kstrtoul : Kstrtoul) (s : State) : Option State :=
  (cstr s.line).bind fun key =>
    if isKey s.secs.sec key then
      (cstr (s.line.drop s.index)).map fun value =>
        { s with cfg := setValue kstrtoul s.secs.sec value s.cfg }
    else some s

/-- A line that is not the header of a section. -/
def State.keyLine (kstrtoul : Kstrtoul) (s : State) : Option State :=
  (findEq (s.line.drop s.index) s.index).bind fun index =>
    if s.line[index]? = some '=' then
      State.assign kstrtoul { s with line := s.line.set index NUL, index := index + 1 }
    else some { s with index := index }

def State.read (s : State) (line : List Char) : State := { s with line := store line s.line }

/-- One round of `dbg_ini_parse`. -/
def State.step (kstrtoul : Kstrtoul) (s : State) (line : List Char) : Option State :=
  if line.head? = some '[' then some { s.read line with secs := s.secs.header line }
  else (s.read line).keyLine kstrtoul

/-- The loop of `dbg_ini_parse`; each round takes one character at least. -/
def run (kstrtoul : Kstrtoul) : ℕ → State → List Char → Option State
  | 0, s, _ => some s
  | fuel + 1, s, text =>
    match getValidLine LINE_SIZE text [] false with
    | none => some s
    | some (line, rest) => (s.step kstrtoul line).bind fun s' => run kstrtoul fuel s' rest

/-- `dbg_ini_parse`; `stack` is what the buffer holds before. -/
def dbgIniParse (kstrtoul : Kstrtoul) (stack : List Char) (cfg : Cfg) (text : List Char) :
    Option Cfg :=
  (run kstrtoul text.length ⟨Secs.start, 0, stack, cfg⟩ text).map State.cfg

/-! ## What a text means -/

/-- A line without its comment and its blanks. -/
def clean (line : List Char) : List Char :=
  (line.takeWhile fun c => !isRem c).filter fun c => c != ' '

/-- The lines of a text, of which the last may have no end. -/
def linesOf (text : List Char) : List (List Char) :=
  ((text.splitOnP isEnd).map clean).filter fun line => line != []

/-- Where the key of a line ends. -/
def keyLength (line : List Char) : ℕ := (line.takeWhile fun c => c != '=').length

structure Reading where
  secs : Secs
  cfg : Cfg

/-- One line more: a header opens a section, and an assignment to a key of the section sets it. -/
def Reading.line (kstrtoul : Kstrtoul) (r : Reading) (line : List Char) : Reading :=
  if line.head? = some '[' then { r with secs := r.secs.header line }
  else if '=' ∈ line ∧ isKey r.secs.sec (line.take (keyLength line)) then
    { r with cfg := setValue kstrtoul r.secs.sec (line.drop (keyLength line + 1)) r.cfg }
  else r

def reading (kstrtoul : Kstrtoul) (cfg : Cfg) (lines : List (List Char)) : Reading :=
  lines.foldl (Reading.line kstrtoul) ⟨Secs.start, cfg⟩

/-- The last segment of a text, behind its last end of a line. -/
def lastSegment (text : List Char) : List Char := (text.splitOnP isEnd).getLastD []

/-- Where the search in the next line starts, behind one that has started at `index`. -/
def nextIndex (index : ℕ) (line : List Char) : ℕ :=
  if line.head? = some '[' then index
  else if '=' ∈ line then keyLength line + 1 else keyLength line

/-- No line has its `=`, or its end if it has none, before the search in it starts. -/
def Reads : ℕ → List (List Char) → Prop
  | _, [] => True
  | index, line :: rest =>
    (line.head? ≠ some '[' → index ≤ keyLength line) ∧ Reads (nextIndex index line) rest

/-- Where the next search starts, and what the buffer holds then. -/
structure Search where
  index : ℕ
  line : List Char

def Search.next (t : Search) (line : List Char) : Search :=
  if line.head? = some '[' then ⟨t.index, store line t.line⟩
  else
    match findEq ((store line t.line).drop t.index) t.index with
    | none => ⟨t.index, store line t.line⟩
    | some index =>
      if (store line t.line)[index]? = some '=' then
        ⟨index + 1, (store line t.line).set index NUL⟩
      else ⟨index, store line t.line⟩

/-- The lines that are not lost: headers, and those that are searched from their keys on. -/
def keptLines : Search → List (List Char) → List (List Char)
  | _, [] => []
  | t, line :: rest =>
    if line.head? = some '[' ∨ t.index ≤ keyLength line then line :: keptLines (t.next line) rest
    else keptLines (t.next line) rest

/-- The texts that are read as they stand. -/
structure Plain (text : List Char) : Prop where
  short : ∀ line ∈ linesOf text, line.length < LINE_SIZE
  ended : clean (lastSegment text) = []
  reads : Reads 0 (linesOf text)

/-! ## The lines that are read -/

/-- The lines of a text up to its last end of a line. -/
def endedLines (text : List Char) : List (List Char) :=
  ((text.splitOnP isEnd).dropLast.map clean).filter fun line => line != []

/-- Nothing is read from the first line on that fills the buffer. -/
def readLines (text : List Char) : List (List Char) :=
  (endedLines text).takeWhile fun line => line.length < LINE_SIZE

@[simp] theorem clean_nil : clean [] = [] := rfl

theorem clean_cons (c : Char) (seg : List Char) :
    clean (c :: seg) = if isRem c then [] else if c = ' ' then clean seg else c :: clean seg := by
  cases hrem : isRem c with
  | true => simp [clean, hrem]
  | false =>
    rw [clean, List.takeWhile_cons, hrem, Bool.not_false, if_pos rfl, List.filter_cons]
    by_cases hblank : c = ' '
    · simp [hblank, clean]
    · simp [hblank, clean]

/-- What a segment adds to the line. -/
def added (rem : Bool) (seg : List Char) : List Char := if rem then [] else clean seg

theorem getValidLine_cons {size : ℕ} {c : Char} {line : List Char} {rem : Bool} (rest : List Char)
    (hroom : line.length < size) (hend : isEnd c = false) :
    getValidLine size (c :: rest) line rem =
      getValidLine size rest (line ++ added rem [c]) (rem || isRem c) := by
  rw [getValidLine, if_neg (Nat.not_le.2 hroom), hend, if_neg Bool.false_ne_true, added, clean_cons]
  cases rem with
  | true => simp
  | false =>
    cases hrem : isRem c with
    | true =>
      by_cases hblank : c = ' '
      · rw [hblank] at hrem
        exact absurd hrem (by decide)
      · simp [hblank]
    | false =>
      by_cases hblank : c = ' '
      · simp [hblank]
      · simp [hblank]

theorem added_cons (rem : Bool) (c : Char) (seg : List Char) :
    added rem (c :: seg) = added rem [c] ++ added (rem || isRem c) seg := by
  cases rem with
  | true => simp [added]
  | false =>
    cases hrem : isRem c with
    | true => simp [added, clean_cons, hrem]
    | false =>
      simp only [added, clean_cons, hrem, Bool.false_eq_true, if_false, Bool.or_false, clean_nil]
      split <;> rfl

theorem getValidLine_segment {size : ℕ} (tail : List Char) {seg : List Char}
    (hseg : ∀ c ∈ seg, isEnd c = false) {line : List Char} {rem : Bool}
    (hroom : (line ++ added rem seg).length < size) :
    getValidLine size (seg ++ tail) line rem =
      getValidLine size tail (line ++ added rem seg) (rem || seg.any isRem) := by
  induction seg generalizing line rem with
  | nil => cases rem <;> simp [added, clean]
  | cons c seg ih =>
    obtain ⟨hc, hrest⟩ := List.forall_mem_cons.1 hseg
    rw [added_cons, ← List.append_assoc] at hroom ⊢
    have hline : line.length < size := by
      simp only [List.length_append] at hroom
      omega
    rw [List.cons_append, getValidLine_cons _ hline hc, ih hrest hroom, List.any_cons, Bool.or_assoc]

/-- A line that has no room ends the reading. -/
theorem getValidLine_long {size : ℕ} (tail : List Char) {seg : List Char}
    (hseg : ∀ c ∈ seg, isEnd c = false) {line : List Char} {rem : Bool}
    (hroom : size ≤ (line ++ added rem seg).length) :
    getValidLine size (seg ++ tail) line rem = none := by
  induction seg generalizing line rem with
  | nil =>
    have hline : size ≤ line.length := by
      cases rem <;> simpa [added, clean] using hroom
    cases tail with
    | nil => rfl
    | cons c tail => rw [List.nil_append, getValidLine, if_pos hline]
  | cons c seg ih =>
    obtain ⟨hc, hrest⟩ := List.forall_mem_cons.1 hseg
    by_cases hline : size ≤ line.length
    · rw [List.cons_append, getValidLine, if_pos hline]
    · rw [added_cons, ← List.append_assoc] at hroom
      rw [List.cons_append, getValidLine_cons _ (Nat.lt_of_not_le hline) hc]
      exact ih hrest hroom

/-- So does one that has no end. -/
theorem getValidLine_unended {size : ℕ} {seg : List Char} (hseg : ∀ c ∈ seg, isEnd c = false) :
    getValidLine size seg [] false = none := by
  have hnil := List.append_nil seg
  by_cases hroom : ([] ++ added false seg).length < size
  · rw [← hnil, getValidLine_segment [] hseg hroom]
    rfl
  · rw [← hnil]
    exact getValidLine_long [] hseg (Nat.le_of_not_lt hroom)

theorem getValidLine_end {size : ℕ} {e : Char} (rest : List Char) (he : isEnd e = true)
    {line : List Char} {rem : Bool} (hroom : line.length < size) :
    getValidLine size (e :: rest) line rem =
      if line = [] then getValidLine size rest [] false else some (line, rest) := by
  rw [getValidLine, if_neg (Nat.not_le.2 hroom), if_pos he]

/-- A list is one segment, or has a first one with an end. -/
theorem cut_cases {α : Type*} (p : α → Bool) (l : List α) :
    (∀ c ∈ l, p c = false) ∨
      ∃ seg e rest, l = seg ++ e :: rest ∧ (∀ c ∈ seg, p c = false) ∧ p e = true := by
  induction l with
  | nil => exact Or.inl (by simp)
  | cons c l ih =>
    cases hc : p c with
    | true => exact Or.inr ⟨[], c, l, rfl, by simp, hc⟩
    | false =>
      rcases ih with hall | ⟨seg, e, rest, rfl, hseg, he⟩
      · exact Or.inl (List.forall_mem_cons.2 ⟨hc, hall⟩)
      · exact Or.inr ⟨c :: seg, e, rest, rfl, List.forall_mem_cons.2 ⟨hc, hseg⟩, he⟩

theorem endedLines_unended {seg : List Char} (hseg : ∀ c ∈ seg, isEnd c = false) :
    endedLines seg = [] := by
  rw [endedLines, List.splitOnP_eq_singleton hseg]
  rfl

theorem endedLines_cons {seg : List Char} {e : Char} {rest : List Char}
    (hseg : ∀ c ∈ seg, isEnd c = false) (he : isEnd e = true) :
    endedLines (seg ++ e :: rest) =
      if clean seg = [] then endedLines rest else clean seg :: endedLines rest := by
  rw [endedLines, List.splitOnP_append_cons _ _ he, List.splitOnP_eq_singleton hseg,
    List.singleton_append, List.dropLast_cons_of_ne_nil (List.splitOnP_ne_nil _ _), List.map_cons,
    List.filter_cons]
  by_cases hclean : clean seg = []
  · simp [hclean, endedLines]
  · simp [hclean, endedLines]

theorem linesOf_eq (text : List Char) :
    linesOf text = endedLines text ++ if clean (lastSegment text) = [] then []
      else [clean (lastSegment text)] := by
  have hsplit := List.dropLast_append_getLast (List.splitOnP_ne_nil isEnd text)
  have hlast : (text.splitOnP isEnd).getLast (List.splitOnP_ne_nil isEnd text) = lastSegment text := by
    rw [lastSegment, List.getLastD_eq_getLast?, List.getLast?_eq_some_getLast (List.splitOnP_ne_nil _ _)]
    rfl
  rw [linesOf, ← hsplit, List.map_append, List.filter_append, hlast]
  by_cases hclean : clean (lastSegment text) = []
  · simp [hclean, endedLines]
  · simp [hclean, endedLines]

theorem run_eq (kstrtoul : Kstrtoul) (text : List Char) (s : State) {fuel : ℕ}
    (hfuel : text.length ≤ fuel) :
    run kstrtoul fuel s text = (readLines text).foldlM (State.step kstrtoul) s := by
  induction hn : text.length using Nat.strong_induction_on generalizing text s fuel with
  | _ n ih =>
    subst hn
    rcases cut_cases isEnd text with hall | ⟨seg, e, rest, rfl, hseg, he⟩
    · rw [readLines, endedLines_unended hall]
      cases fuel with
      | zero => rfl
      | succ fuel => rw [run, getValidLine_unended hall]; rfl
    · obtain ⟨f, rfl⟩ : ∃ f, fuel = f + 1 := by
        simp only [List.length_append, List.length_cons] at hfuel
        exact ⟨fuel - 1, by omega⟩
      have hshorter : rest.length < (seg ++ e :: rest).length := by
        simp only [List.length_append, List.length_cons]
        omega
      have hrest : rest.length ≤ f := by omega
      by_cases hroom : (clean seg).length < LINE_SIZE
      · have hline : getValidLine LINE_SIZE (seg ++ e :: rest) [] false =
            if clean seg = [] then getValidLine LINE_SIZE rest [] false
            else some (clean seg, rest) := by
          rw [getValidLine_segment _ hseg (by simpa [added] using hroom)]
          exact getValidLine_end rest he hroom
        by_cases hclean : clean seg = []
        · rw [if_pos hclean] at hline
          have hsame : run kstrtoul (f + 1) s (seg ++ e :: rest) = run kstrtoul (f + 1) s rest := by
            rw [run, run, hline]
          rw [hsame, ih rest.length hshorter rest s (Nat.le_succ_of_le hrest) rfl, readLines,
            readLines, endedLines_cons hseg he, if_pos hclean]
        · rw [if_neg hclean] at hline
          rw [run, hline, readLines, endedLines_cons hseg he, if_neg hclean,
            List.takeWhile_cons_of_pos (by simpa using hroom), List.foldlM_cons]
          change (s.step kstrtoul (clean seg)).bind _ = (s.step kstrtoul (clean seg)).bind _
          congr 1
          funext s'
          exact ih rest.length hshorter rest s' hrest rfl
      · rw [run, getValidLine_long _ hseg (by simpa [added] using Nat.le_of_not_lt hroom), readLines,
          endedLines_cons hseg he, if_neg, List.takeWhile_cons_of_neg (by simpa using hroom)]
        · rfl
        · intro hclean
          rw [hclean] at hroom
          exact hroom (by decide)

theorem mem_clean {c : Char} {seg : List Char} (h : c ∈ clean seg) : c ∈ seg :=
  (List.takeWhile_sublist _).mem (List.mem_of_mem_filter h)

/-- No line has a `NUL` in it. -/
theorem ne_nul_of_mem {text line : List Char} (hline : line ∈ linesOf text) :
    ∀ c ∈ line, c ≠ NUL := by
  rintro c hc rfl
  induction hn : text.length using Nat.strong_induction_on generalizing text with
  | _ n ih =>
    subst hn
    rw [linesOf] at hline
    obtain ⟨seg, hseg, rfl⟩ := List.mem_map.1 (List.mem_of_mem_filter hline)
    rcases cut_cases isEnd text with hall | ⟨seg', e, rest, rfl, hseg', he⟩
    · rw [List.splitOnP_eq_singleton hall, List.mem_singleton] at hseg
      exact absurd (hall NUL (hseg ▸ mem_clean hc)) (by decide)
    · rw [List.splitOnP_append_cons _ _ he, List.splitOnP_eq_singleton hseg', List.singleton_append,
        List.mem_cons] at hseg
      rcases hseg with rfl | hseg
      · exact absurd (hseg' NUL (mem_clean hc)) (by decide)
      · have hne : clean seg ≠ [] := List.ne_nil_of_mem hc
        apply ih rest.length _ _ rfl
        · simp only [List.length_append, List.length_cons]
          omega
        · rw [linesOf]
          exact List.mem_filter.2 ⟨List.mem_map_of_mem hseg, by simpa using hne⟩

/-! ## One line -/

theorem findEq_append {bs : List Char} (h : ∀ c ∈ bs, c ≠ '=' ∧ c ≠ NUL) {c : Char}
    (hc : c = '=' ∨ c = NUL) (rest : List Char) (index : ℕ) :
    findEq (bs ++ c :: rest) index = some (index + bs.length) := by
  induction bs generalizing index with
  | nil => rw [List.nil_append, findEq, if_pos hc, List.length_nil, Nat.add_zero]
  | cons b bs ih =>
    obtain ⟨hb, hrest⟩ := List.forall_mem_cons.1 h
    rw [List.cons_append, findEq, if_neg (not_or.2 hb), ih hrest, List.length_cons, Nat.add_assoc,
      Nat.add_comm 1]

/-- The search ends at a `NUL` that is there, or before it. -/
theorem findEq_some {mem : List Char} {k : ℕ} (h : mem[k]? = some NUL) (index : ℕ) :
    ∃ i ≤ k, findEq mem index = some (index + i) ∧ (mem[i]? = some '=' ∨ mem[i]? = some NUL) := by
  induction mem generalizing k index with
  | nil => simp at h
  | cons c mem ih =>
    rw [findEq]
    by_cases hc : c = '=' ∨ c = NUL
    · rw [if_pos hc]
      refine ⟨0, Nat.zero_le k, rfl, ?_⟩
      simpa using hc
    · rw [if_neg hc]
      cases k with
      | zero => exact absurd (Or.inr (by simpa using h)) hc
      | succ k =>
        obtain ⟨i, hi, hfind, hat⟩ := ih (by simpa using h) (index + 1)
        refine ⟨i + 1, Nat.succ_le_succ hi, ?_, by simpa using hat⟩
        rw [hfind, Nat.add_assoc, Nat.add_comm 1]

theorem cstr_append {bs : List Char} (h : ∀ c ∈ bs, c ≠ NUL) (rest : List Char) :
    cstr (bs ++ NUL :: rest) = some bs := by
  rw [cstr, if_pos (by simp), List.takeWhile_append_of_pos (by simpa using h),
    List.takeWhile_cons_of_neg (by simp), List.append_nil]

/-- A line with `=` is a key and a value. -/
theorem exists_key {line : List Char} (h : '=' ∈ line) :
    ∃ key value, line = key ++ '=' :: value ∧ (∀ c ∈ key, c ≠ '=') ∧
      keyLength line = key.length := by
  induction line with
  | nil => simp at h
  | cons c line ih =>
    by_cases hc : c = '='
    · subst hc
      exact ⟨[], line, rfl, by simp, by simp [keyLength]⟩
    · obtain ⟨key, value, rfl, hkey, hlength⟩ :=
        ih ((List.mem_cons.1 h).resolve_left fun heq => hc heq.symm)
      refine ⟨c :: key, value, rfl, List.forall_mem_cons.2 ⟨hc, hkey⟩, ?_⟩
      rw [keyLength, List.takeWhile_cons_of_pos (by simpa using hc), List.length_cons,
        List.length_cons, ← hlength]
      rfl

theorem keyLength_of_not_mem {line : List Char} (h : '=' ∉ line) : keyLength line = line.length := by
  rw [keyLength, List.takeWhile_eq_self_iff.2]
  rintro c hc
  simp only [bne_iff_ne, ne_eq]
  rintro rfl
  exact h hc

/-- A search that starts in the key finds its end. -/
theorem keyLine_assign {kstrtoul : Kstrtoul} {s : State} {key value tail : List Char}
    (hline : s.line = key ++ '=' :: (value ++ NUL :: tail)) (hkey : ∀ c ∈ key, c ≠ '=')
    (hkeyNul : ∀ c ∈ key, c ≠ NUL) (hvalueNul : ∀ c ∈ value, c ≠ NUL)
    (hindex : s.index ≤ key.length) :
    s.keyLine kstrtoul = some
      { secs := s.secs
        index := key.length + 1
        line := key ++ NUL :: (value ++ NUL :: tail)
        cfg := if isKey s.secs.sec key then setValue kstrtoul s.secs.sec value s.cfg else s.cfg } := by
  have hfind : findEq (s.line.drop s.index) s.index = some key.length := by
    rw [hline, List.drop_append_of_le_length hindex, findEq_append _ (Or.inl rfl),
      List.length_drop, Nat.add_sub_cancel' hindex]
    intro c hc
    exact ⟨hkey c (List.mem_of_mem_drop hc), hkeyNul c (List.mem_of_mem_drop hc)⟩
  have hset : s.line.set key.length NUL = key ++ NUL :: (value ++ NUL :: tail) := by
    rw [hline, List.set_append_right _ _ le_rfl, Nat.sub_self]
    rfl
  have hdrop : (key ++ NUL :: (value ++ NUL :: tail)).drop (key.length + 1) =
      value ++ NUL :: tail := by
    rw [List.drop_append]
    simp
  rw [State.keyLine, hfind, Option.bind_some, if_pos (by rw [hline]; simp), hset, State.assign,
    cstr_append hkeyNul, Option.bind_some, hdrop, cstr_append hvalueNul]
  by_cases hisKey : isKey s.secs.sec key = true
  · rw [if_pos hisKey, if_pos hisKey]
    rfl
  · rw [if_neg hisKey, if_neg hisKey]

/-- Without `=` it ends with the line. -/
theorem keyLine_end {kstrtoul : Kstrtoul} {s : State} {line tail : List Char}
    (hline : s.line = line ++ NUL :: tail) (heq : '=' ∉ line) (hnul : ∀ c ∈ line, c ≠ NUL)
    (hindex : s.index ≤ line.length) :
    s.keyLine kstrtoul = some { s with index := line.length } := by
  have hfind : findEq (s.line.drop s.index) s.index = some line.length := by
    rw [hline, List.drop_append_of_le_length hindex, findEq_append _ (Or.inr rfl),
      List.length_drop, Nat.add_sub_cancel' hindex]
    intro c hc
    have hmem := List.mem_of_mem_drop hc
    exact ⟨fun hc' => heq (hc' ▸ hmem), hnul c hmem⟩
  have hend : s.line[line.length]? = some NUL := by rw [hline]; simp
  rw [State.keyLine, hfind, Option.bind_some, if_neg (by rw [hend]; decide)]

theorem not_isKey_of_mem {sec : Sec} {key : List Char} (h : '=' ∈ key) : isKey sec key = false := by
  cases sec with
  | invalid => rfl
  | softap =>
    apply Bool.eq_false_iff.2
    intro hkey
    rw [isKey, beq_iff_eq] at hkey
    exact absurd (hkey ▸ h) (by decide)
  | debug =>
    apply Bool.eq_false_iff.2
    intro hkey
    rw [isKey, beq_iff_eq] at hkey
    exact absurd (hkey ▸ h) (by decide)

/-- A search that starts behind `=` sets nothing. -/
theorem keyLine_behind (kstrtoul : Kstrtoul) {s : State} {key rest : List Char}
    (hline : s.line = key ++ '=' :: rest) (hkeyNul : ∀ c ∈ key, c ≠ NUL)
    (hindex : key.length < s.index) (hstop : ∃ j, s.index ≤ j ∧ s.line[j]? = some NUL) :
    ∃ s', s.keyLine kstrtoul = some s' ∧ s'.secs = s.secs ∧ s'.cfg = s.cfg ∧
      s'.line.length = s.line.length ∧ ∃ j, s'.index ≤ j ∧ s'.line[j]? = some NUL := by
  obtain ⟨j, hj, hnul⟩ := hstop
  have hdrop : (s.line.drop s.index)[j - s.index]? = some NUL := by
    rw [List.getElem?_drop, Nat.add_sub_cancel' hj]
    exact hnul
  obtain ⟨i, hi, hfind, hat⟩ := findEq_some hdrop s.index
  rw [List.getElem?_drop] at hat
  rw [State.keyLine, hfind, Option.bind_some]
  generalize hp : s.index + i = p at hat
  by_cases hfound : s.line[p]? = some '='
  · have hne : p ≠ j := by
      rintro rfl
      rw [hfound] at hnul
      exact absurd hnul (by decide)
    have hset : s.line.set p NUL = key ++ '=' :: rest.set (p - key.length - 1) NUL := by
      rw [hline, List.set_append_right _ _ (by omega),
        show p - key.length = p - key.length - 1 + 1 by omega, List.set_cons_succ]
      rfl
    have hlt : p < s.line.length := (List.getElem?_eq_some_iff.1 hfound).1
    have hkey : cstr (s.line.set p NUL) =
        some (key ++ '=' :: (rest.set (p - key.length - 1) NUL).takeWhile (· ≠ NUL)) := by
      rw [cstr, if_pos (List.mem_set hlt NUL), hset,
        List.takeWhile_append_of_pos (by simpa using hkeyNul), List.takeWhile_cons_of_pos (by decide)]
    have hnot : isKey s.secs.sec
        (key ++ '=' :: (rest.set (p - key.length - 1) NUL).takeWhile (· ≠ NUL)) = false :=
      not_isKey_of_mem (by simp)
    rw [if_pos hfound, State.assign, hkey, Option.bind_some, if_neg (by rw [hnot]; decide)]
    refine ⟨_, rfl, rfl, rfl, List.length_set, j, ?_, ?_⟩
    · change p + 1 ≤ j
      omega
    · exact (List.getElem?_set_ne hne).trans hnul
  · rw [if_neg hfound]
    exact ⟨_, rfl, rfl, rfl, rfl, p, le_rfl, hat.resolve_left hfound⟩

/-- The buffer has a `NUL` behind the place where the next search starts, and the code is where the
reading of the lines is. -/
structure Sim (s : State) (r : Reading) (index : ℕ) : Prop where
  secs : s.secs = r.secs
  cfg : s.cfg = r.cfg
  index : s.index = index
  room : s.line.length = LINE_SIZE
  stop : s.index = 0 ∨ ∃ j, s.index ≤ j ∧ s.line[j]? = some NUL

theorem store_length {line buf : List Char} (h : line.length < buf.length) :
    (store line buf).length = buf.length := by
  rw [store, List.length_append, List.length_cons, List.length_drop]
  omega

theorem store_stop {line buf : List Char} {index : ℕ}
    (h : index = 0 ∨ ∃ j, index ≤ j ∧ buf[j]? = some NUL) :
    ∃ j, index ≤ j ∧ (store line buf)[j]? = some NUL := by
  by_cases hindex : index ≤ line.length
  · exact ⟨line.length, hindex, by simp [store]⟩
  · obtain ⟨j, hj, hnul⟩ := h.resolve_left (by omega)
    have hsplit : j = line.length + 1 + (j - line.length - 1) := by omega
    refine ⟨j, hj, ?_⟩
    rw [store, List.getElem?_append_right (by omega),
      show j - line.length = j - line.length - 1 + 1 by omega, List.getElem?_cons_succ,
      List.getElem?_drop, ← hsplit]
    exact hnul

theorem getElem?_store (line buf : List Char) : (store line buf)[line.length]? = some NUL := by
  simp [store]

section Step
variable (kstrtoul : Kstrtoul) {s : State} {r : Reading} {index : ℕ} {line : List Char}

theorem Sim.header (h : Sim s r index) (hroom : line.length < LINE_SIZE)
    (hheader : line.head? = some '[') :
    ∃ s', s.step kstrtoul line = some s' ∧ Sim s' (r.line kstrtoul line) (nextIndex index line) := by
  refine ⟨_, by rw [State.step, if_pos hheader], ?_⟩
  rw [Reading.line, if_pos hheader, nextIndex, if_pos hheader]
  exact ⟨congrArg (Secs.header · line) h.secs, h.cfg, h.index,
    (store_length (h.room.symm ▸ hroom)).trans h.room, Or.inr (store_stop h.stop)⟩

/-- A line that is searched from its key on does what it says. -/
theorem Sim.keyLine (h : Sim s r index) (hroom : line.length < LINE_SIZE)
    (hnul : ∀ c ∈ line, c ≠ NUL) (hheader : line.head? ≠ some '[')
    (hindex : index ≤ keyLength line) :
    ∃ s', s.step kstrtoul line = some s' ∧ Sim s' (r.line kstrtoul line) (nextIndex index line) := by
  have hlength : (s.read line).line.length = LINE_SIZE :=
    (store_length (h.room.symm ▸ hroom)).trans h.room
  rw [← h.index] at hindex
  rw [State.step, if_neg hheader, Reading.line, if_neg hheader, nextIndex, if_neg hheader]
  by_cases heq : '=' ∈ line
  · obtain ⟨key, value, rfl, hkey, hkeyLength⟩ := exists_key heq
    obtain ⟨hkeyNul, hvalue⟩ := List.forall_mem_append.1 hnul
    obtain ⟨-, hvalueNul⟩ := List.forall_mem_cons.1 hvalue
    have hline : (s.read (key ++ '=' :: value)).line =
        key ++ '=' :: (value ++ NUL :: s.line.drop ((key ++ '=' :: value).length + 1)) := by
      simp [State.read, store]
    have hdrop : (key ++ '=' :: value).drop (key.length + 1) = value := by
      rw [List.drop_append]
      simp
    have hcfg : (if isKey s.secs.sec key then setValue kstrtoul s.secs.sec value s.cfg else s.cfg) =
        (if '=' ∈ key ++ '=' :: value ∧ isKey r.secs.sec key = true then
          { r with cfg := setValue kstrtoul r.secs.sec value r.cfg } else r : Reading).cfg := by
      rw [h.secs, h.cfg]
      split <;> simp_all
    have hsecs : (if '=' ∈ key ++ '=' :: value ∧ isKey r.secs.sec key = true then
          { r with cfg := setValue kstrtoul r.secs.sec value r.cfg } else r : Reading).secs =
        r.secs := by
      split <;> rfl
    rw [hkeyLength] at hindex ⊢
    rw [if_pos heq, List.take_left, hdrop]
    refine ⟨_, keyLine_assign hline hkey hkeyNul hvalueNul hindex, h.secs.trans hsecs.symm, hcfg, rfl,
      ?_, Or.inr ⟨key.length + 1 + value.length, Nat.le_add_right _ _, ?_⟩⟩
    · rw [← hlength, hline]
      simp
    · rw [List.getElem?_append_right (by omega),
        show key.length + 1 + value.length - key.length = value.length + 1 by omega]
      simp
  · have hkeyLength := keyLength_of_not_mem heq
    rw [hkeyLength] at hindex ⊢
    rw [if_neg heq, if_neg (fun hboth => heq hboth.1)]
    exact ⟨_, keyLine_end rfl heq hnul hindex, h.secs, h.cfg, rfl, hlength,
      Or.inr ⟨line.length, le_rfl, getElem?_store _ _⟩⟩

/-- A line that is searched behind its key is lost. -/
theorem Sim.behind (h : Sim s r index) (hroom : line.length < LINE_SIZE) (hnul : ∀ c ∈ line, c ≠ NUL)
    (hheader : line.head? ≠ some '[') (heq : '=' ∈ line) (hindex : keyLength line < index) :
    ∃ s', s.step kstrtoul line = some s' ∧ Sim s' r s'.index := by
  obtain ⟨key, value, rfl, hkey, hkeyLength⟩ := exists_key heq
  rw [hkeyLength, ← h.index] at hindex
  have hline : (s.read (key ++ '=' :: value)).line =
      key ++ '=' :: (value ++ NUL :: s.line.drop ((key ++ '=' :: value).length + 1)) := by
    simp [State.read, store]
  obtain ⟨s', hs', hsecs, hcfg, hlength, hstop⟩ := keyLine_behind kstrtoul hline
    (List.forall_mem_append.1 hnul).1 hindex (store_stop h.stop)
  rw [State.step, if_neg hheader]
  exact ⟨s', hs', hsecs.trans h.secs, hcfg.trans h.cfg, rfl,
    hlength.trans ((store_length (h.room.symm ▸ hroom)).trans h.room), Or.inr hstop⟩

theorem Sim.step (h : Sim s r index) (hroom : line.length < LINE_SIZE)
    (hnul : ∀ c ∈ line, c ≠ NUL) (hindex : line.head? ≠ some '[' → index ≤ keyLength line) :
    ∃ s', s.step kstrtoul line = some s' ∧ Sim s' (r.line kstrtoul line) (nextIndex index line) := by
  by_cases hheader : line.head? = some '['
  · exact h.header kstrtoul hroom hheader
  · exact h.keyLine kstrtoul hroom hnul hheader (hindex hheader)

end Step

/-! ## The whole text -/

/-- Lines that are searched from their keys on are read as they stand. -/
theorem Sim.run (kstrtoul : Kstrtoul) {lines : List (List Char)} {s : State} {r : Reading}
    {index : ℕ} (h : Sim s r index) (hroom : ∀ line ∈ lines, line.length < LINE_SIZE)
    (hnul : ∀ line ∈ lines, ∀ c ∈ line, c ≠ NUL) (hreads : Reads index lines) :
    ∃ s', lines.foldlM (State.step kstrtoul) s = some s' ∧
      Sim s' (lines.foldl (Reading.line kstrtoul) r) (lines.foldl nextIndex index) := by
  induction lines generalizing s r index with
  | nil => exact ⟨s, rfl, h⟩
  | cons line lines ih =>
    obtain ⟨hroomLine, hroomRest⟩ := List.forall_mem_cons.1 hroom
    obtain ⟨hnulLine, hnulRest⟩ := List.forall_mem_cons.1 hnul
    obtain ⟨s', hs', hsim⟩ := h.step kstrtoul hroomLine hnulLine hreads.1
    rw [List.foldlM_cons, hs', List.foldl_cons, List.foldl_cons]
    exact ih hsim hroomRest hnulRest hreads.2

def State.search (s : State) : Search := ⟨s.index, s.line⟩

theorem assign_search {kstrtoul : Kstrtoul} {s s' : State} (h : s.assign kstrtoul = some s') :
    s'.search = s.search := by
  rw [State.assign] at h
  obtain ⟨key, -, hkey⟩ := Option.bind_eq_some_iff.1 h
  split at hkey
  · obtain ⟨value, -, rfl⟩ := Option.map_eq_some_iff.1 hkey
    rfl
  · cases hkey
    rfl

theorem step_search {kstrtoul : Kstrtoul} {s s' : State} {line : List Char}
    (h : s.step kstrtoul line = some s') : s'.search = s.search.next line := by
  rw [State.step] at h
  rw [Search.next]
  by_cases hheader : line.head? = some '['
  · rw [if_pos hheader] at h ⊢
    cases h
    rfl
  · rw [if_neg hheader, State.keyLine] at h
    obtain ⟨index, hindex, hfound⟩ := Option.bind_eq_some_iff.1 h
    have hfind : findEq ((store line s.search.line).drop s.search.index) s.search.index = some index :=
      hindex
    rw [if_neg hheader, hfind]
    dsimp only
    by_cases heq : (store line s.search.line)[index]? = some '='
    · rw [if_pos heq]
      have hbuf : (s.read line).line[index]? = some '=' := heq
      rw [if_pos hbuf] at hfound
      exact assign_search hfound
    · rw [if_neg heq]
      have hbuf : ¬ (s.read line).line[index]? = some '=' := heq
      rw [if_neg hbuf] at hfound
      cases hfound
      rfl

/-- Headers and assignments are read as if those that are lost were not there. -/
theorem Sim.run_kept (kstrtoul : Kstrtoul) {lines : List (List Char)} {s : State} {r : Reading}
    {index : ℕ} (h : Sim s r index) (hroom : ∀ line ∈ lines, line.length < LINE_SIZE)
    (hnul : ∀ line ∈ lines, ∀ c ∈ line, c ≠ NUL)
    (hassign : ∀ line ∈ lines, line.head? = some '[' ∨ '=' ∈ line) :
    ∃ s', lines.foldlM (State.step kstrtoul) s = some s' ∧
      s'.cfg = ((keptLines s.search lines).foldl (Reading.line kstrtoul) r).cfg := by
  induction lines generalizing s r index with
  | nil => exact ⟨s, rfl, h.cfg⟩
  | cons line lines ih =>
    obtain ⟨hroomLine, hroomRest⟩ := List.forall_mem_cons.1 hroom
    obtain ⟨hnulLine, hnulRest⟩ := List.forall_mem_cons.1 hnul
    obtain ⟨hassignLine, hassignRest⟩ := List.forall_mem_cons.1 hassign
    rw [List.foldlM_cons, keptLines]
    by_cases hkept : line.head? = some '[' ∨ s.search.index ≤ keyLength line
    · obtain ⟨s', hs', hsim⟩ := h.step kstrtoul hroomLine hnulLine
        (fun hne => h.index ▸ hkept.resolve_left hne)
      rw [if_pos hkept, hs', List.foldl_cons, ← step_search hs']
      exact ih hsim hroomRest hnulRest hassignRest
    · obtain ⟨hheader, hbehind⟩ := not_or.1 hkept
      obtain ⟨s', hs', hsim⟩ := h.behind kstrtoul hroomLine hnulLine hheader
        (hassignLine.resolve_left hheader) (h.index ▸ Nat.lt_of_not_le hbehind)
      rw [if_neg hkept, hs', ← step_search hs']
      exact ih hsim hroomRest hnulRest hassignRest

theorem reads_append {index : ℕ} {lines : List (List Char)} {line : List Char} :
    Reads index (lines ++ [line]) ↔
      Reads index lines ∧ (line.head? ≠ some '[' → lines.foldl nextIndex index ≤ keyLength line) := by
  induction lines generalizing index with
  | nil => simp [Reads]
  | cons first lines ih => rw [List.cons_append, Reads, Reads, ih, List.foldl_cons, and_assoc]

section Text
variable {stack : List Char} (hstack : stack.length = LINE_SIZE) (kstrtoul : Kstrtoul) (cfg : Cfg)
include hstack

theorem sim_start : Sim ⟨Secs.start, 0, stack, cfg⟩ ⟨Secs.start, cfg⟩ 0 :=
  ⟨rfl, rfl, rfl, hstack, Or.inl rfl⟩

omit hstack in
theorem dbgIniParse_eq (text : List Char) :
    dbgIniParse kstrtoul stack cfg text =
      ((readLines text).foldlM (State.step kstrtoul) ⟨Secs.start, 0, stack, cfg⟩).map State.cfg := by
  rw [dbgIniParse, run_eq kstrtoul text _ le_rfl]

/-- What is read of a text, if that is searched from its keys on. -/
theorem dbgIniParse_of_reads {text : List Char} {lines : List (List Char)}
    (hread : readLines text = lines) (hroom : ∀ line ∈ lines, line.length < LINE_SIZE)
    (hnul : ∀ line ∈ lines, ∀ c ∈ line, c ≠ NUL) (hreads : Reads 0 lines) :
    dbgIniParse kstrtoul stack cfg text = some (reading kstrtoul cfg lines).cfg := by
  obtain ⟨s', hs', hsim⟩ := (sim_start hstack cfg).run kstrtoul hroom hnul hreads
  rw [dbgIniParse_eq, hread, hs', Option.map_some, hsim.cfg, reading]

omit hstack in
theorem takeWhile_short {lines : List (List Char)} (h : ∀ line ∈ lines, line.length < LINE_SIZE)
    (rest : List (List Char)) :
    (lines ++ rest).takeWhile (fun line => line.length < LINE_SIZE) =
      lines ++ rest.takeWhile fun line => line.length < LINE_SIZE :=
  List.takeWhile_append_of_pos (by simpa using h)

theorem dbgIniParse_of_plain {text : List Char} (h : Plain text) :
    dbgIniParse kstrtoul stack cfg text = some (reading kstrtoul cfg (linesOf text)).cfg := by
  apply dbgIniParse_of_reads hstack kstrtoul cfg _ h.short (fun _ hline => ne_nul_of_mem hline)
    h.reads
  have hlines := linesOf_eq text
  rw [if_pos h.ended, List.append_nil] at hlines
  have hshort := takeWhile_short h.short []
  rw [List.append_nil, List.takeWhile_nil, List.append_nil] at hshort
  rw [readLines, ← hlines, hshort]

/-- The first line that is not read as it stands is lost. -/
theorem dbgIniParse_of_not_plain {text line : List Char} {lines : List (List Char)}
    (hlines : linesOf text = lines ++ [line]) (hshort : ∀ l ∈ lines, l.length < LINE_SIZE)
    (hreads : Reads 0 lines) (hassign : line.head? = some '[' ∨ '=' ∈ line) (h : ¬ Plain text) :
    dbgIniParse kstrtoul stack cfg text = some (reading kstrtoul cfg lines).cfg := by
  have hnul : ∀ l ∈ lines, ∀ c ∈ l, c ≠ NUL := fun l hl =>
    ne_nul_of_mem (hlines.symm ▸ List.mem_append_left _ hl)
  have hnulLine : ∀ c ∈ line, c ≠ NUL :=
    ne_nul_of_mem (hlines.symm ▸ List.mem_append_right _ (List.mem_singleton_self _))
  have hsplit := linesOf_eq text
  have hlinesNil := takeWhile_short hshort []
  rw [List.append_nil, List.takeWhile_nil, List.append_nil] at hlinesNil
  by_cases hended : clean (lastSegment text) = []
  · rw [if_pos hended, List.append_nil, hlines] at hsplit
    have hread := takeWhile_short hshort [line]
    rw [hsplit] at hread
    by_cases hroom : line.length < LINE_SIZE
    · -- the line is complete, and thus searched behind its key
      rw [List.takeWhile_cons_of_pos (by simpa using hroom), List.takeWhile_nil] at hread
      obtain ⟨s, hs, hsim⟩ := (sim_start hstack cfg).run kstrtoul hshort hnul hreads
      have hbehind : line.head? ≠ some '[' ∧ keyLength line < lines.foldl nextIndex 0 := by
        by_contra hnot
        refine h ⟨?_, hended, ?_⟩
        · rw [hlines]
          intro l hl
          rcases List.mem_append.1 hl with hl | hl
          · exact hshort l hl
          · rw [List.mem_singleton.1 hl]
            exact hroom
        · rw [hlines, reads_append]
          exact ⟨hreads, fun hheader => Nat.le_of_not_lt fun hlt => hnot ⟨hheader, hlt⟩⟩
      obtain ⟨s', hs', hlost⟩ := hsim.behind kstrtoul hroom hnulLine hbehind.1
        (hassign.resolve_left hbehind.1) hbehind.2
      rw [dbgIniParse_eq, readLines, hread, List.foldlM_append, hs]
      change ((s.step kstrtoul line).bind some).map State.cfg = _
      rw [hs', Option.bind_some, Option.map_some, hlost.cfg]
      rfl
    · rw [List.takeWhile_cons_of_neg (by simpa using hroom), List.append_nil] at hread
      exact dbgIniParse_of_reads hstack kstrtoul cfg hread hshort hnul hreads
  · rw [if_neg hended, hlines] at hsplit
    have hread := (List.append_inj' hsplit rfl).1
    exact dbgIniParse_of_reads hstack kstrtoul cfg (by rw [readLines, ← hread, hlinesNil]) hshort
      hnul hreads

/-- A text of headers and assignments is read as if the lines that are lost were not there. -/
theorem dbgIniParse_kept {text : List Char}
    (hassign : ∀ line ∈ linesOf text, line.head? = some '[' ∨ '=' ∈ line) :
    dbgIniParse kstrtoul stack cfg text =
      some (reading kstrtoul cfg (keptLines ⟨0, stack⟩ (readLines text))).cfg := by
  have hmem : ∀ line ∈ readLines text, line ∈ linesOf text := by
    intro line hline
    rw [linesOf_eq]
    exact List.mem_append_left _ ((List.takeWhile_sublist _).mem hline)
  have hroom : ∀ line ∈ readLines text, line.length < LINE_SIZE := fun line hline => by
    simpa using List.mem_takeWhile_imp hline
  obtain ⟨s', hs', hcfg⟩ := (sim_start hstack cfg).run_kept kstrtoul hroom
    (fun line hline => ne_nul_of_mem (hmem line hline)) fun line hline => hassign line (hmem line hline)
  rw [dbgIniParse_eq, hs', Option.map_some, hcfg]
  rfl

end Text

/-- A text is read as it stands if no line fills the buffer, the last one has its end, and each line
has its key's end behind that of the line before. The first assignment that is not so is lost; and a
text of headers and assignments is read right exactly if the lines that are lost change nothing. -/
theorem ini_parse_iff (kstrtoul : Kstrtoul) (stack : List Char) (hstack : stack.length = LINE_SIZE)
    (cfg : Cfg) (text : List Char) :
    (Plain text →
      dbgIniParse kstrtoul stack cfg text = some (reading kstrtoul cfg (linesOf text)).cfg) ∧
    (∀ lines line, linesOf text = lines ++ [line] → (∀ l ∈ lines, l.length < LINE_SIZE) →
      Reads 0 lines → (line.head? = some '[' ∨ '=' ∈ line) →
        (dbgIniParse kstrtoul stack cfg text = some (reading kstrtoul cfg (linesOf text)).cfg ↔
          Plain text ∨
            (reading kstrtoul cfg (linesOf text)).cfg = (reading kstrtoul cfg lines).cfg)) ∧
    ((∀ line ∈ linesOf text, line.head? = some '[' ∨ '=' ∈ line) →
      (dbgIniParse kstrtoul stack cfg text = some (reading kstrtoul cfg (linesOf text)).cfg ↔
        (reading kstrtoul cfg (keptLines ⟨0, stack⟩ (readLines text))).cfg =
          (reading kstrtoul cfg (linesOf text)).cfg)) := by
  refine ⟨dbgIniParse_of_plain hstack kstrtoul cfg, fun lines line hlines hshort hreads hassign => ?_,
    fun hassign => by rw [dbgIniParse_kept hstack kstrtoul cfg hassign, Option.some_inj]⟩
  constructor
  · intro hcfg
    by_cases hplain : Plain text
    · exact Or.inl hplain
    · rw [dbgIniParse_of_not_plain hstack kstrtoul cfg hlines hshort hreads hassign hplain,
        Option.some_inj] at hcfg
      exact Or.inr hcfg.symm
  · rintro (hplain | hsame)
    · exact dbgIniParse_of_plain hstack kstrtoul cfg hplain
    · by_cases hplain : Plain text
      · exact dbgIniParse_of_plain hstack kstrtoul cfg hplain
      · rw [dbgIniParse_of_not_plain hstack kstrtoul cfg hlines hshort hreads hassign hplain, hsame]

/-- `kstrtoul` on decimal digits. -/
def decimal (value : List Char) : Option (BitVec 64) :=
  if value ≠ [] ∧ value.head? ≠ some '0' ∧ value.all Char.isDigit then
    some (BitVec.ofNat 64 (value.foldl (fun n c => 10 * n + (c.toNat - 48)) 0))
  else none

def exampleStack : List Char := List.replicate 256 NUL

/-- The channel is set before the level. -/
def exampleText : List Char :=
  SOFTAP ++ '\n' :: (CHANNEL ++ '=' :: '6' :: '\n' :: (DEBUG ++ '\n' :: (LOG_LEVEL ++
    ['=', '3', '\n'])))

theorem linesOf_exampleText :
    linesOf exampleText = [SOFTAP, CHANNEL ++ ['=', '6'], DEBUG, LOG_LEVEL ++ ['=', '3']] := by
  decide +kernel

theorem plain_exampleText : Plain exampleText where
  short := by
    rw [linesOf_exampleText]
    decide
  ended := by decide +kernel
  reads := by
    rw [linesOf_exampleText]
    simp only [Reads]
    decide

theorem ini_parse_iff_ordered :
    dbgIniParse decimal exampleStack ⟨-1, 0⟩ exampleText =
      some (reading decimal ⟨-1, 0⟩ (linesOf exampleText)).cfg :=
  (ini_parse_iff decimal exampleStack (by decide +kernel) ⟨-1, 0⟩ exampleText).1 plain_exampleText

/-- Of two assignments to a key the first one wins. -/
def exampleTwice : List Char :=
  SOFTAP ++ '\n' :: (CHANNEL ++ '=' :: '6' :: '\n' :: (CHANNEL ++ ['=', '1', '1', '\n']))

theorem ini_parse_twice :
    dbgIniParse decimal exampleStack ⟨-1, 0⟩ exampleTwice = some ⟨6, 0⟩ ∧
      (reading decimal ⟨-1, 0⟩ (linesOf exampleTwice)).cfg = ⟨11, 0⟩ := by
  constructor <;> decide +kernel

end Uwe5631.IniParse
