import Uwe5631.SdioParser

/-!
# Which receive buffers are parsed well

The headers of a buffer tell where the parser goes and for how long it stays at a header that it
refuses. From them one reads off whether it returns without leaving the valid length.
-/
namespace Uwe5631.Sdio
open LinkedChains

variable {blkSize : ℕ} {validLen parseLen : BitVec 32} {mem : Memory} {s r : Parser} {puh : SdioPuh}
  {a limit n k : ℕ}

/-! ## Visits of one header -/

/-- The length that the visit after `k` others finds in a header: each of them added the check sum. -/
def SdioPuh.lenAt (puh : SdioPuh) (k : ℕ) : BitVec 16 :=
  if puh.checkSum then puh.len + BitVec.ofNat 16 (2 * k) else puh.len

/-- `parse_len` after `k` visits of a header. -/
def SdioPuh.parsedAt (puh : SdioPuh) (parseLen : BitVec 32) (k : ℕ) : BitVec 32 :=
  parseLen + BitVec.ofNat 32 (∑ j ∈ Finset.range k, (puh.lenAt j).toNat)

/-- The header as the visit after `k` others finds it. -/
def SdioPuh.visit (puh : SdioPuh) (k : ℕ) : SdioPuh := { puh with len := puh.lenAt k }

/-- A header is refused in the visit after `k` others. -/
def SdioPuh.RefusedAt (blkSize : ℕ) (puh : SdioPuh) (k : ℕ) : Prop :=
  Refused blkSize (sdiohalHwtypeToChannel false puh.type.toNat puh.subtype.toNat) (puh.lenAt (k + 1))

instance (blkSize : ℕ) (puh : SdioPuh) (k : ℕ) : Decidable (puh.RefusedAt blkSize k) := by
  unfold SdioPuh.RefusedAt
  infer_instance

/-- The parser stays at a header for the first `k` visits. -/
def SdioPuh.Stays (blkSize : ℕ) (validLen : BitVec 32) (puh : SdioPuh) (parseLen : BitVec 32)
    (k : ℕ) : Prop :=
  ∀ j < k, puh.parsedAt parseLen j < validLen ∧ puh.RefusedAt blkSize j

theorem lenAt_zero (puh : SdioPuh) : puh.lenAt 0 = puh.len := by
  rw [SdioPuh.lenAt]
  split <;> simp

theorem lenAt_succ (puh : SdioPuh) (k : ℕ) :
    puh.lenAt (k + 1) = if puh.checkSum then puh.lenAt k + 2 else puh.lenAt k := by
  rw [SdioPuh.lenAt, SdioPuh.lenAt]
  split
  · rw [Nat.mul_succ, BitVec.ofNat_add, BitVec.add_assoc]
    rfl
  · rfl

theorem visit_zero (puh : SdioPuh) : puh.visit 0 = puh := by
  rw [SdioPuh.visit, lenAt_zero]

theorem parsedAt_zero (puh : SdioPuh) (parseLen : BitVec 32) :
    puh.parsedAt parseLen 0 = parseLen := by
  simp [SdioPuh.parsedAt]

theorem parsedAt_succ (puh : SdioPuh) (parseLen : BitVec 32) (k : ℕ) :
    puh.parsedAt parseLen (k + 1) = puh.parsedAt parseLen k + (puh.lenAt k).setWidth 32 := by
  rw [SdioPuh.parsedAt, SdioPuh.parsedAt, Finset.sum_range_succ, BitVec.ofNat_add, BitVec.add_assoc]
  congr 1
  exact BitVec.eq_of_toNat_eq (by simp)

/-! ## Turns of the loop -/

/-- The state after a turn has counted the length of a header. -/
def Parser.visited (s : Parser) : Parser :=
  (s.access s.puh SDIO_PUB_HEADER_SIZE).count (puhAt s.data.mem s.puh)

/-- The parser is at a header that it has visited `k` times, and changed nothing behind it. -/
structure At (mem : Memory) (a : ℕ) (parseLen : BitVec 32) (k : ℕ) (s : Parser) : Prop where
  puh : s.puh = a
  parseLen : s.parseLen = (puhAt mem a).parsedAt parseLen k
  header : puhAt s.data.mem a = (puhAt mem a).visit k
  behind : ∀ b, a + 4 ≤ b → s.data.mem b = mem b

theorem At.start {b : ℕ} (hpuh : s.puh = b) (hparse : s.parseLen = parseLen)
    (hbehind : ∀ x, b ≤ x → s.data.mem x = mem x) : At mem b parseLen 0 s := by
  refine ⟨hpuh, ?_, ?_, fun x hx => hbehind x (Nat.le_of_add_right_le hx)⟩
  · rw [parsedAt_zero, hparse]
  · rw [visit_zero, puhAt_congr hbehind]

/-- The parser goes on to a header behind. -/
theorem At.next {b : ℕ} (h : At mem a parseLen k s) (hb : a + 4 ≤ b) (s' : Parser) (hpuh : s'.puh = b)
    (hmem : s'.data.mem = s.data.mem) : At mem b s'.parseLen 0 s' := by
  refine .start hpuh rfl fun x hx => ?_
  rw [hmem]
  exact h.behind x (hb.trans hx)

theorem At.visited (h : At mem a parseLen k s) : At mem a parseLen (k + 1) s.visited := by
  obtain rfl := h.puh
  have hmem : s.visited.data.mem = if (puhAt mem s.puh).checkSum then
      setLen s.data.mem s.puh ((puhAt mem s.puh).lenAt k + 2) else s.data.mem := by
    rw [Parser.visited, h.header]
    rfl
  refine ⟨rfl, ?_, ?_, fun b hb => ?_⟩
  · rw [Parser.visited, parsedAt_succ, ← h.parseLen, h.header]
    rfl
  · rw [hmem, SdioPuh.visit, lenAt_succ]
    split
    · rw [puhAt_setLen, h.header]
      rfl
    · exact h.header
  · rw [hmem]
    split
    · rw [setLen_behind _ _ hb, h.behind b hb]
    · exact h.behind b hb

theorem mem_parserLoop : r ∈ parserLoop blkSize validLen s ↔
    parserBody blkSize validLen s = .inl r ∨
      ∃ s', parserBody blkSize validLen s = .inr s' ∧ r ∈ parserLoop blkSize validLen s' := by
  refine PFun.mem_fix_iff.trans ?_
  simp only [Part.mem_some_iff]
  constructor
  · rintro (h | ⟨s', h, hr⟩)
    · exact .inl h.symm
    · exact .inr ⟨s', h.symm, hr⟩
  · rintro (h | ⟨s', h, hr⟩)
    · exact .inl h.symm
    · exact .inr ⟨s', h.symm, hr⟩

theorem body_limit (h : At mem a parseLen k s)
    (hlimit : ¬ (puhAt mem a).parsedAt parseLen k < validLen) :
    parserBody blkSize validLen s = .inl s := by
  rw [parserBody, h.parseLen, if_neg hlimit]

section
variable (h : At mem a parseLen k s) (hlt : (puhAt mem a).parsedAt parseLen k < validLen)
include h hlt

theorem body_eof (heof : (puhAt mem a).eof = true) :
    parserBody blkSize validLen s = .inl (s.access a SDIO_PUB_HEADER_SIZE) := by
  obtain rfl := h.puh
  rw [parserBody, h.parseLen, if_pos hlt, h.header]
  exact if_pos heof

theorem body_filler (blkSize : ℕ) (heof : (puhAt mem a).eof = false) (htype : (puhAt mem a).type = 0xF) :
    parserBody blkSize validLen s = .inr { s.access a SDIO_PUB_HEADER_SIZE with
      puh := nextPuh a ((puhAt mem a).lenAt k) } := by
  obtain rfl := h.puh
  have hgo : ¬ ((puhAt mem s.puh).visit k).eof = true := ne_true_of_eq_false heof
  rw [parserBody, h.parseLen, if_pos hlt, h.header]
  dsimp only
  rw [if_neg hgo]
  exact if_pos htype

theorem body_counted (heof : (puhAt mem a).eof = false) (htype : (puhAt mem a).type ≠ 0xF) :
    parserBody blkSize validLen s =
      if (puhAt mem a).RefusedAt blkSize k then .inr s.visited
      else s.visited.attach ((puhAt mem a).visit (k + 1))
        (sdiohalHwtypeToChannel false (puhAt mem a).type.toNat (puhAt mem a).subtype.toNat) := by
  obtain rfl := h.puh
  have hgo : ¬ ((puhAt mem s.puh).visit k).eof = true := ne_true_of_eq_false heof
  have hvisited : puhAt s.visited.data.mem s.visited.puh = (puhAt mem s.puh).visit (k + 1) :=
    h.visited.header
  rw [Parser.visited, h.header] at hvisited
  rw [parserBody, h.parseLen, if_pos hlt, h.header]
  dsimp only
  rw [if_neg hgo]
  refine (if_neg htype).trans ?_
  rw [Parser.visited, h.header, hvisited]
  rfl

end

/-! ## Whole runs -/

variable {dataBuf : ℕ} {accesses : List (ℕ × ℕ)}

/-- All ranges lie in the valid length. -/
def Inside (dataBuf limit : ℕ) (accesses : List (ℕ × ℕ)) : Prop :=
  ∀ x ∈ accesses, dataBuf ≤ x.1 ∧ x.1 + x.2 ≤ limit

theorem Inside.snoc {len : ℕ} (h : Inside dataBuf limit accesses) (ha : dataBuf ≤ a)
    (hlen : a + len ≤ limit) : Inside dataBuf limit (accesses ++ [(a, len)]) := by
  intro x hx
  rcases List.mem_append.mp hx with hx | hx
  · exact h x hx
  · rw [List.mem_singleton.mp hx]
    exact ⟨ha, hlen⟩

/-- The headers from an address on, with `n` mbufs to be had, lead to an end within the limit. -/
inductive Contained (blkSize : ℕ) (validLen : BitVec 32) (mem : Memory) (limit : ℕ) :
    ℕ → BitVec 32 → ℕ → Prop
  | parsed {a : ℕ} {parseLen : BitVec 32} {n : ℕ} : ¬ parseLen < validLen →
      Contained blkSize validLen mem limit a parseLen n
  | eof {a : ℕ} {parseLen : BitVec 32} {n : ℕ} : a + 4 ≤ limit → (puhAt mem a).eof = true →
      Contained blkSize validLen mem limit a parseLen n
  | filler {a : ℕ} {parseLen : BitVec 32} {n : ℕ} : a + 4 ≤ limit → (puhAt mem a).eof = false →
      (puhAt mem a).type = 0xF →
      Contained blkSize validLen mem limit (nextPuh a (puhAt mem a).len) parseLen n →
      Contained blkSize validLen mem limit a parseLen n
  /-- `parse_len` reaches the valid length in refused visits. -/
  | refused {a : ℕ} {parseLen : BitVec 32} {n : ℕ} (k : ℕ) : a + 4 ≤ limit → (puhAt mem a).eof = false →
      (puhAt mem a).type ≠ 0xF → (puhAt mem a).Stays blkSize validLen parseLen k →
      ¬ (puhAt mem a).parsedAt parseLen k < validLen →
      Contained blkSize validLen mem limit a parseLen n
  | noMbuf {a : ℕ} {parseLen : BitVec 32} (k : ℕ) : a + 4 ≤ limit → (puhAt mem a).eof = false →
      (puhAt mem a).type ≠ 0xF → (puhAt mem a).Stays blkSize validLen parseLen k →
      (puhAt mem a).parsedAt parseLen k < validLen → ¬ (puhAt mem a).RefusedAt blkSize k →
      Contained blkSize validLen mem limit a parseLen 0
  | packet {a : ℕ} {parseLen : BitVec 32} {n : ℕ} (k : ℕ) : a + 4 ≤ limit → (puhAt mem a).eof = false →
      (puhAt mem a).type ≠ 0xF → (puhAt mem a).Stays blkSize validLen parseLen k →
      (puhAt mem a).parsedAt parseLen k < validLen → ¬ (puhAt mem a).RefusedAt blkSize k →
      a + 4 + ((puhAt mem a).lenAt (k + 1)).toNat ≤ limit →
      Contained blkSize validLen mem limit (nextPuh a ((puhAt mem a).lenAt (k + 1)))
        ((puhAt mem a).parsedAt parseLen (k + 1)) n →
      Contained blkSize validLen mem limit a parseLen (n + 1)

/-- Refused visits lead from state to state. -/
theorem visits (h : At mem a parseLen 0 s) (hstays : (puhAt mem a).Stays blkSize validLen parseLen k)
    (heof : (puhAt mem a).eof = false) (htype : (puhAt mem a).type ≠ 0xF) (hs : Ready s.data)
    (ha : dataBuf ≤ a) (hlimit : a + 4 ≤ limit) (hin : Inside dataBuf limit s.accesses) :
    ∃ s', At mem a parseLen k s' ∧ Ready s'.data ∧ s'.data.avail = s.data.avail ∧
      Inside dataBuf limit s'.accesses ∧
      ∀ r, r ∈ parserLoop blkSize validLen s' → r ∈ parserLoop blkSize validLen s := by
  induction k with
  | zero => exact ⟨s, h, hs, rfl, hin, fun _ hr => hr⟩
  | succ k ih =>
    obtain ⟨s', hat, hready, havail, hinside, hruns⟩ :=
      ih fun j hj => hstays j (Nat.lt_succ_of_lt hj)
    obtain ⟨hlt, href⟩ := hstays k (Nat.lt_succ_self k)
    have hbody := (body_counted hat hlt heof htype).trans (if_pos href)
    refine ⟨s'.visited, hat.visited, ⟨hready.init, hready.stored, hready.marked⟩, havail, ?_,
      fun r hr => hruns r (mem_parserLoop.mpr (.inr ⟨_, hbody, hr⟩))⟩
    have haccess : s'.visited.accesses = s'.accesses ++ [(a, 4)] := by
      rw [← hat.puh]
      rfl
    rw [haccess]
    exact hinside.snoc ha hlimit

theorem returned_of_limit (h : At mem a parseLen k s)
    (hlimit : ¬ (puhAt mem a).parsedAt parseLen k < validLen) :
    s ∈ parserLoop blkSize validLen s :=
  mem_parserLoop.mpr (.inl (body_limit h hlimit))

theorem add_four_le_nextPuh (a : ℕ) (len : BitVec 16) : a + 4 ≤ nextPuh a len :=
  (Nat.le_add_right ..).trans (le_nextPuh a len)

/-- The turn in which a packet is attached. -/
theorem turn_of_packet (h : At mem a parseLen k s)
    (hlt : (puhAt mem a).parsedAt parseLen k < validLen) (heof : (puhAt mem a).eof = false)
    (htype : (puhAt mem a).type ≠ 0xF) (href : ¬ (puhAt mem a).RefusedAt blkSize k)
    (hs : Ready s.data) (havail : s.data.avail ≠ 0) :
    ∃ m s', parserBody blkSize validLen s = .inr s' ∧
      At mem (nextPuh a ((puhAt mem a).lenAt (k + 1))) ((puhAt mem a).parsedAt parseLen (k + 1)) 0 s' ∧
      Ready s'.data ∧ s'.data.avail = s.data.avail - 1 ∧
      s'.accesses = s.accesses ++ [(a, 4)] ++ [(a + 4, ((puhAt mem a).lenAt (k + 1)).toNat)] ∧
      Attached s.data s'.data [m] [(a, (puhAt mem a).visit (k + 1))] := by
  obtain rfl := h.puh
  have hbody := (body_counted h hlt heof htype).trans (if_neg href)
  have hsub : ((puhAt mem s.puh).visit (k + 1)).subtype.toNat < SDIO_CHN_RX_NUM := by
    have hchannel := Nat.lt_of_not_le fun hle => href (.inl hle)
    exact Nat.lt_of_add_lt_add_right (hchannel.trans_eq (Nat.add_comm ..))
  have hready : Ready s.visited.data := ⟨hs.init, hs.stored, hs.marked⟩
  obtain ⟨m, p', hattach, hready', hmem, havail', hattached⟩ := attach_some hready havail hsub
  -- counting the length has changed no mbuf and no list
  have hfrom : Attached s.data p' [m] [(s.puh, (puhAt mem s.puh).visit (k + 1))] :=
    ⟨hattached.taken, hattached.written, hattached.rx, hattached.tx, hattached.others⟩
  refine ⟨m, _, hbody.trans hattach, ?_, hready', havail', rfl, hfrom⟩
  have hnext := h.visited.next (add_four_le_nextPuh ..)
    { s.visited.access (s.puh + 4) ((puhAt mem s.puh).lenAt (k + 1)).toNat with
      puh := nextPuh s.puh ((puhAt mem s.puh).lenAt (k + 1)), data := p' } rfl hmem
  have hparse : s.visited.parseLen = (puhAt mem s.puh).parsedAt parseLen (k + 1) :=
    h.visited.parseLen
  rw [← hparse]
  exact hnext

/-- The turn that skips a filler. -/
theorem turn_of_filler (blkSize : ℕ) (h : At mem a parseLen 0 s) (hlt : parseLen < validLen)
    (heof : (puhAt mem a).eof = false) (htype : (puhAt mem a).type = 0xF) :
    ∃ s', parserBody blkSize validLen s = .inr s' ∧
      At mem (nextPuh a (puhAt mem a).len) parseLen 0 s' ∧ s'.data = s.data ∧
      s'.accesses = s.accesses ++ [(a, 4)] := by
  have hparse := h.parseLen
  rw [parsedAt_zero] at hparse
  have hlt' : (puhAt mem a).parsedAt parseLen 0 < validLen := by rwa [parsedAt_zero]
  have hbody := body_filler h hlt' blkSize heof htype
  rw [lenAt_zero] at hbody
  have hnext := h.next (add_four_le_nextPuh ..)
    { s.access a 4 with puh := nextPuh a (puhAt mem a).len } rfl rfl
  refine ⟨_, hbody, ?_, rfl, rfl⟩
  rw [← hparse]
  exact hnext

theorem Contained.returns (h : Contained blkSize validLen mem limit a parseLen n)
    (hat : At mem a parseLen 0 s) (hs : Ready s.data) (hn : s.data.avail = n) (ha : dataBuf ≤ a)
    (hin : Inside dataBuf limit s.accesses) :
    ∃ r ∈ parserLoop blkSize validLen s, Inside dataBuf limit r.accesses := by
  induction h generalizing s with
  | parsed hend =>
    exact ⟨s, returned_of_limit hat (by rwa [parsedAt_zero]), hin⟩
  | @eof a parseLen n hlimit heof =>
    by_cases hlt : (puhAt mem a).parsedAt parseLen 0 < validLen
    · exact ⟨_, mem_parserLoop.mpr (.inl (body_eof hat hlt heof)), hin.snoc ha hlimit⟩
    · exact ⟨s, returned_of_limit hat hlt, hin⟩
  | @filler a parseLen n hlimit heof htype _ ih =>
    by_cases hlt : parseLen < validLen
    · obtain ⟨s', hbody, hat', hdata, haccess⟩ :=
        turn_of_filler blkSize hat hlt heof htype
      obtain ⟨r, hr, hinside⟩ := ih hat' (hdata ▸ hs) (hdata ▸ hn)
        (ha.trans ((Nat.le_add_right a 4).trans (add_four_le_nextPuh ..)))
        (haccess ▸ hin.snoc ha hlimit)
      exact ⟨r, mem_parserLoop.mpr (.inr ⟨s', hbody, hr⟩), hinside⟩
    · exact ⟨s, returned_of_limit hat (by rwa [parsedAt_zero]), hin⟩
  | refused k hlimit heof htype hstays hend =>
    obtain ⟨s', hat', -, -, hin', hruns⟩ := visits hat hstays heof htype hs ha hlimit hin
    exact ⟨s', hruns _ (returned_of_limit hat' hend), hin'⟩
  | noMbuf k hlimit heof htype hstays hlt href =>
    obtain ⟨s', hat', -, havail, hin', hruns⟩ := visits hat hstays heof htype hs ha hlimit hin
    have hbody := (body_counted hat' hlt heof htype).trans (if_neg href)
    rw [attach_none (show s'.visited.data.avail = 0 from havail.trans hn)] at hbody
    refine ⟨_, hruns _ (mem_parserLoop.mpr (.inl hbody)), ?_⟩
    have haccess : s'.visited.accesses = s'.accesses ++ [(s'.puh, 4)] := rfl
    rw [haccess, hat'.puh]
    exact hin'.snoc ha hlimit
  | @packet a parseLen n k hlimit heof htype hstays hlt href hpayload _ ih =>
    obtain ⟨s', hat', hs', havail, hin', hruns⟩ := visits hat hstays heof htype hs ha hlimit hin
    obtain ⟨m, s'', hbody, hat'', hs'', havail', haccess, -⟩ :=
      turn_of_packet hat' hlt heof htype href hs' (by omega)
    have hle : a ≤ nextPuh a ((puhAt mem a).lenAt (k + 1)) :=
      (Nat.le_add_right a 4).trans (add_four_le_nextPuh ..)
    obtain ⟨r, hr, hinside⟩ := ih hat'' hs'' (by omega) (ha.trans hle)
      (haccess ▸ (hin'.snoc ha hlimit).snoc (ha.trans (Nat.le_add_right a 4)) hpayload)
    exact ⟨r, hruns _ (mem_parserLoop.mpr (.inr ⟨s'', hbody, hr⟩)), hinside⟩

theorem parserLoop_induct {motive : Parser → Prop} (hr : r ∈ parserLoop blkSize validLen s)
    (hstep : ∀ s, r ∈ parserLoop blkSize validLen s →
      (∀ s', parserBody blkSize validLen s = .inr s' →
        r ∈ parserLoop blkSize validLen s' ∧ motive s') → motive s) : motive s := by
  refine PFun.fixInduction hr fun s hs ih => hstep s hs fun s' hbody => ?_
  refine ⟨?_, ih s' (Part.mem_some_iff.mpr hbody.symm)⟩
  rcases mem_parserLoop.mp hs with hend | ⟨s'', hgo, hr'⟩
  · rw [hbody] at hend
    cases hend
  · rw [hbody] at hgo
    cases hgo
    exact hr'

/-! ### What is read stays on record -/

theorem attach_accesses (s : Parser) (puh : SdioPuh) (channel : ℕ) :
    (∀ r, s.attach puh channel = .inl r → s.accesses ⊆ r.accesses) ∧
      ∀ s', s.attach puh channel = .inr s' → s.accesses ⊆ s'.accesses := by
  rw [Parser.attach]
  split
  · simp
  · split
    · simp
    · simp [Parser.access]

theorem body_accesses (blkSize : ℕ) (hlt : s.parseLen < validLen) :
    (∀ r, parserBody blkSize validLen s = .inl r → s.accesses ++ [(s.puh, 4)] ⊆ r.accesses) ∧
      ∀ s', parserBody blkSize validLen s = .inr s' →
        s.accesses ++ [(s.puh, 4)] ⊆ s'.accesses := by
  rw [parserBody, if_pos hlt]
  dsimp only
  split
  · simp [Parser.access]
  · split
    · simp [Parser.access]
    · split
      · simp [Parser.access, Parser.count]
      · exact attach_accesses ((s.access s.puh 4).count (puhAt s.data.mem s.puh)) _ _

theorem accesses_subset (hr : r ∈ parserLoop blkSize validLen s) : s.accesses ⊆ r.accesses := by
  refine parserLoop_induct (motive := fun s => s.accesses ⊆ r.accesses) hr fun s hs ih => ?_
  by_cases hlt : s.parseLen < validLen
  · obtain ⟨hinl, hinr⟩ := body_accesses blkSize hlt
    have hfirst : s.accesses ⊆ s.accesses ++ [(s.puh, 4)] := List.subset_append_left ..
    rcases mem_parserLoop.mp hs with hend | ⟨s', hgo, -⟩
    · exact List.Subset.trans hfirst (hinl r hend)
    · exact List.Subset.trans hfirst (List.Subset.trans (hinr s' hgo) (ih s' hgo).2)
  · rcases mem_parserLoop.mp hs with hend | ⟨s', hgo, -⟩
    · rw [parserBody, if_neg hlt] at hend
      cases hend
      exact List.Subset.refl _
    · rw [parserBody, if_neg hlt] at hgo
      cases hgo

theorem header_read (hr : r ∈ parserLoop blkSize validLen s) (hlt : s.parseLen < validLen) :
    (s.puh, 4) ∈ r.accesses := by
  obtain ⟨hinl, hinr⟩ := body_accesses blkSize hlt
  have hmem : (s.puh, 4) ∈ s.accesses ++ [(s.puh, 4)] := by simp
  rcases mem_parserLoop.mp hr with hend | ⟨s', hgo, hr'⟩
  · exact hinl r hend hmem
  · exact accesses_subset hr' (hinr s' hgo hmem)

/-- A run that returns and has stayed inside tells what the headers are like. -/
theorem contained_of_returns (hr : r ∈ parserLoop blkSize validLen s)
    (hin : Inside dataBuf limit r.accesses) (hat : At mem a parseLen k s) (hs : Ready s.data)
    (hstays : (puhAt mem a).Stays blkSize validLen parseLen k)
    (hread : k ≠ 0 → a + 4 ≤ limit ∧ (puhAt mem a).eof = false ∧ (puhAt mem a).type ≠ 0xF) :
    Contained blkSize validLen mem limit a parseLen s.data.avail := by
  refine parserLoop_induct (motive := fun s => ∀ a parseLen k, At mem a parseLen k s →
    Ready s.data → (puhAt mem a).Stays blkSize validLen parseLen k →
    (k ≠ 0 → a + 4 ≤ limit ∧ (puhAt mem a).eof = false ∧ (puhAt mem a).type ≠ 0xF) →
    Contained blkSize validLen mem limit a parseLen s.data.avail) hr
    (fun s hr ih a parseLen k hat hs hstays hread => ?_) a parseLen k hat hs hstays hread
  by_cases hlt : (puhAt mem a).parsedAt parseLen k < validLen
  swap
  · by_cases hk : k = 0
    · subst hk
      rw [parsedAt_zero] at hlt
      exact .parsed hlt
    · obtain ⟨hlimit, heof, htype⟩ := hread hk
      exact .refused k hlimit heof htype hstays hlt
  have hlimit : a + 4 ≤ limit := by
    have hmem := header_read hr (hat.parseLen ▸ hlt)
    rw [hat.puh] at hmem
    exact (hin _ hmem).2
  by_cases heof : (puhAt mem a).eof = true
  · exact .eof hlimit heof
  rw [Bool.not_eq_true] at heof
  by_cases htype : (puhAt mem a).type = 0xF
  · have hk : k = 0 := not_not.mp fun hk => (hread hk).2.2 htype
    subst hk
    rw [parsedAt_zero] at hlt
    obtain ⟨s', hbody, hat', hdata, -⟩ := turn_of_filler blkSize hat hlt heof htype
    have hrest := (ih s' hbody).2 _ _ 0 hat' (hdata ▸ hs) (fun j hj => absurd hj (Nat.not_lt_zero j))
      fun hk => absurd rfl hk
    rw [hdata] at hrest
    exact .filler hlimit heof htype hrest
  by_cases href : (puhAt mem a).RefusedAt blkSize k
  · have hbody := (body_counted hat hlt heof htype).trans (if_pos href)
    refine (ih _ hbody).2 a parseLen (k + 1) hat.visited ⟨hs.init, hs.stored, hs.marked⟩
      (fun j hj => ?_) fun _ => ⟨hlimit, heof, htype⟩
    rcases Nat.lt_succ_iff_lt_or_eq.mp hj with hj | rfl
    · exact hstays j hj
    · exact ⟨hlt, href⟩
  · by_cases havail : s.data.avail = 0
    · rw [havail]
      exact .noMbuf k hlimit heof htype hstays hlt href
    · obtain ⟨m, s', hbody, hat', hs', havail', haccess, -⟩ :=
        turn_of_packet hat hlt heof htype href hs havail
      obtain ⟨hr', hgo⟩ := ih s' hbody
      have hpayload : (a + 4, ((puhAt mem a).lenAt (k + 1)).toNat) ∈ r.accesses := by
        refine accesses_subset hr' ?_
        rw [haccess]
        exact List.mem_append_right _ (List.mem_singleton_self _)
      have hrest := hgo _ _ 0 hat' hs' (fun j hj => absurd hj (Nat.not_lt_zero j))
        fun hk => absurd rfl hk
      rw [havail'] at hrest
      rw [← Nat.succ_pred_eq_of_ne_zero havail]
      exact .packet k hlimit heof htype hstays hlt href (hin _ hpayload).2 hrest

/-! ## Well-formed buffers -/

/-- Complete packets one behind the other up to a header that announces the end; the length of
each counts its check sum. -/
inductive WellFormed (blkSize : ℕ) (mem : Memory) (limit : ℕ) : ℕ → List Packet → Prop
  | eof {a : ℕ} : a + 4 ≤ limit → (puhAt mem a).eof = true → WellFormed blkSize mem limit a []
  | packet {a : ℕ} {packets : List Packet} : (puhAt mem a).eof = false → (puhAt mem a).type ≠ 0xF →
      ((puhAt mem a).checkSum = true → (puhAt mem a).len.toNat + 2 < 2 ^ 16) →
      ¬ (puhAt mem a).RefusedAt blkSize 0 → a + 4 + ((puhAt mem a).lenAt 1).toNat ≤ limit →
      WellFormed blkSize mem limit (nextPuh a ((puhAt mem a).lenAt 1)) packets →
      WellFormed blkSize mem limit a ((a, (puhAt mem a).visit 1) :: packets)

theorem len_le_lenAt_one (h : puh.checkSum = true → puh.len.toNat + 2 < 2 ^ 16) :
    puh.len.toNat ≤ (puh.lenAt 1).toNat := by
  rw [lenAt_succ, lenAt_zero]
  split
  · rename_i hcheck
    have htwo : (2 : BitVec 16).toNat = 2 := rfl
    rw [BitVec.toNat_add, htwo, Nat.mod_eq_of_lt (h hcheck)]
    exact Nat.le_add_right ..
  · exact Nat.le_refl _

theorem parsedAt_one_le (puh : SdioPuh) (parseLen : BitVec 32) :
    (puh.parsedAt parseLen 1).toNat ≤ parseLen.toNat + puh.len.toNat := by
  rw [parsedAt_succ, parsedAt_zero, lenAt_zero, BitVec.toNat_add, BitVec.toNat_setWidth]
  exact (Nat.mod_le ..).trans (Nat.add_le_add_left (Nat.mod_le ..) _)

/-- The packets of a well-formed buffer are attached in order, as long as mbufs are to be had. -/
theorem WellFormed.attached {packets : List Packet} (h : WellFormed blkSize mem limit a packets)
    (hat : At mem a parseLen 0 s) (hs : Ready s.data) (hlimit : limit = dataBuf + validLen.toNat)
    (hparse : dataBuf + parseLen.toNat ≤ a) :
    ∃ r ∈ parserLoop blkSize validLen s,
      ∃ mbufs, Attached s.data r.data mbufs (packets.take s.data.avail) := by
  induction h generalizing s parseLen with
  | @eof a hend heof =>
    have hlt : (puhAt mem a).parsedAt parseLen 0 < validLen := by
      rw [parsedAt_zero, BitVec.lt_def]
      omega
    refine ⟨_, mem_parserLoop.mpr (.inl (body_eof hat hlt heof)), [], ?_⟩
    rw [List.take_nil]
    exact .nil s.data
  | @packet a packets heof htype hcheck href hpayload _ ih =>
    have hlt : (puhAt mem a).parsedAt parseLen 0 < validLen := by
      rw [parsedAt_zero, BitVec.lt_def]
      omega
    by_cases havail : s.data.avail = 0
    · have hbody := (body_counted hat hlt heof htype).trans (if_neg href)
      rw [attach_none (show s.visited.data.avail = 0 from havail)] at hbody
      refine ⟨_, mem_parserLoop.mpr (.inl hbody), [], ?_⟩
      rw [havail, List.take_zero]
      have hnil := Attached.nil s.data
      exact ⟨hnil.taken, hnil.written, hnil.rx, hnil.tx, hnil.others⟩
    · obtain ⟨m, s', hbody, hat', hs', havail', -, hattached⟩ :=
        turn_of_packet hat hlt heof htype href hs havail
      have hlen := len_le_lenAt_one hcheck
      have hnext := le_nextPuh a ((puhAt mem a).lenAt 1)
      have hparsed := parsedAt_one_le (puhAt mem a) parseLen
      obtain ⟨r, hr, mbufs, hmbufs⟩ := ih hat' hs' (by rw [Nat.zero_add]; omega)
      refine ⟨r, mem_parserLoop.mpr (.inr ⟨s', hbody, hr⟩), m :: mbufs, ?_⟩
      rw [← Nat.succ_pred_eq_of_ne_zero havail, List.take_succ_cons]
      rw [havail'] at hmbufs
      exact hattached.cons (hs.stored.holds .rxBuf).nodup hmbufs

/-- A header without payload and without check sum is never left. -/
theorem zero_length_never_returns (hat : At mem a parseLen k s) (hlt : parseLen < validLen)
    (heof : (puhAt mem a).eof = false) (htype : (puhAt mem a).type ≠ 0xF)
    (hcheck : (puhAt mem a).checkSum = false) (hlen : (puhAt mem a).len = 0) :
    r ∉ parserLoop blkSize validLen s := by
  have hzero : ∀ j, (puhAt mem a).lenAt j = 0 := by
    intro j
    rw [SdioPuh.lenAt, hcheck, hlen]
    rfl
  have hparsed : ∀ j, (puhAt mem a).parsedAt parseLen j = parseLen := by
    intro j
    simp [SdioPuh.parsedAt, hzero]
  intro hr
  refine parserLoop_induct (motive := fun s => ∀ k, ¬ At mem a parseLen k s) hr
    (fun s hr ih k hat => ?_) k hat
  have hbody := (body_counted hat (by rwa [hparsed]) heof htype).trans
    (if_pos (show (puhAt mem a).RefusedAt blkSize k from .inr (.inr (hzero (k + 1)))))
  exact (ih _ hbody).2 (k + 1) hat.visited

/-- The parser returns, has stayed inside the valid length and has attached each packet of a
well-formed buffer, exactly if the headers lead to an end inside and there is an mbuf for each
packet of a well-formed buffer. -/
theorem rxBufParser_iff {p : SdiohalData} (blkSize dataBuf : ℕ) (validLen : BitVec 32)
    (hp : Ready p) :
    (∃ r ∈ sdiohalRxBufParser blkSize dataBuf validLen p,
      Inside dataBuf (dataBuf + validLen.toNat) r.accesses ∧
      ∀ packets, WellFormed blkSize p.mem (dataBuf + validLen.toNat) dataBuf packets →
        ∃ mbufs, Attached p r.data mbufs packets) ↔
    Contained blkSize validLen p.mem (dataBuf + validLen.toNat) dataBuf 0 p.avail ∧
      ∀ packets, WellFormed blkSize p.mem (dataBuf + validLen.toNat) dataBuf packets →
        packets.length ≤ p.avail := by
  have hat : At p.mem dataBuf 0 0 ⟨dataBuf, 0, p, []⟩ := .start rfl rfl fun _ _ => rfl
  have hattached : ∀ packets, WellFormed blkSize p.mem (dataBuf + validLen.toNat) dataBuf packets →
      ∀ r ∈ sdiohalRxBufParser blkSize dataBuf validLen p,
        ∃ mbufs, Attached p r.data mbufs (packets.take p.avail) := by
    intro packets hwell r hr
    obtain ⟨r', hr', h⟩ := hwell.attached hat hp rfl (Nat.le_refl _)
    rw [Part.mem_unique hr hr']
    exact h
  constructor
  · rintro ⟨r, hr, hin, hpackets⟩
    refine ⟨contained_of_returns hr hin hat hp (fun j hj => absurd hj (Nat.not_lt_zero j))
      fun hk => absurd rfl hk, fun packets hwell => ?_⟩
    obtain ⟨mbufs, h⟩ := hpackets packets hwell
    obtain ⟨mbufs', h'⟩ := hattached packets hwell r hr
    have hsame : mbufs = mbufs' := List.append_cancel_right (h.taken.symm.trans h'.taken)
    have hlength := h'.written.length_eq
    rw [← hsame, h.written.length_eq, List.length_take] at hlength
    omega
  · rintro ⟨hcontained, hlength⟩
    obtain ⟨r, hr, hin⟩ := hcontained.returns hat hp rfl (Nat.le_refl dataBuf)
      (fun x hx => absurd hx List.not_mem_nil)
    refine ⟨r, hr, hin, fun packets hwell => ?_⟩
    obtain ⟨mbufs, h⟩ := hattached packets hwell r hr
    rw [List.take_of_length_le (hlength packets hwell)] at h
    exact ⟨mbufs, h⟩

/-- One mbuf in `list_rx_buf`, and in memory a packet of 4 bytes for subtype 1 with the end behind. -/
def sampleRxData : SdiohalData where
  mem a := if a = 1 then 2 else if a = 3 then 1 else if a = 10 then 128 else 0
  mbuf _ := ⟨none, 0, 0⟩
  list i := if i = .rxBuf then ⟨some 0, some 0, 0, 0, 1⟩ else ⟨none, none, 0, 0, 0⟩
  flagInit := true
  ops _ := true
  kzalloc := 1
  popped := []

theorem sampleRxData_ready : Ready sampleRxData := by
  refine ready_of_empty rfl (fun i hi => ?_) (show Holds _ _ [0] from ?_)
  · rw [sampleRxData]
    exact congrArg SdiohalList.nodeNum (if_neg hi)
  · refine ⟨rfl, fun _ => rfl, fun _ => rfl, .singleton 0, fun a ha => rfl, by decide⟩

theorem sampleRxData_parsed :
    ∃ r ∈ sdiohalRxBufParser 512 0 12 sampleRxData,
      Inside 0 (0 + (12 : BitVec 32).toNat) r.accesses ∧
      ∀ packets, WellFormed 512 sampleRxData.mem (0 + (12 : BitVec 32).toNat) 0 packets →
        ∃ mbufs, Attached sampleRxData r.data mbufs packets := by
  refine (rxBufParser_iff 512 0 12 sampleRxData_ready).mpr ⟨?_, fun packets h => ?_⟩
  · exact .packet 0 (by decide) (by decide) (by decide)
      (fun j hj => absurd hj (Nat.not_lt_zero j)) (by decide) (by decide) (by decide)
      (.eof (by decide) (by decide))
  · cases h with
    | eof _ heof => exact absurd heof (by decide)
    | packet _ _ _ _ _ hrest =>
      cases hrest with
      | eof _ _ => exact Nat.le_refl 1
      | packet heof _ _ _ _ _ => exact absurd heof (by decide)

/-- A buffer of zeros is parsed forever, and a packet cut off by the valid length is attached. -/
theorem parser_hangs_and_overruns :
    (∃ p blkSize dataBuf validLen, Ready p ∧
      ¬ ∃ r, r ∈ sdiohalRxBufParser blkSize dataBuf validLen p) ∧
    ∃ p blkSize dataBuf validLen, Ready p ∧
      ¬ ∃ r ∈ sdiohalRxBufParser blkSize dataBuf validLen p,
        Inside dataBuf (dataBuf + validLen.toNat) r.accesses := by
  refine ⟨⟨sampleData 0, 512, 0, 8, sampleData_ready 0, ?_⟩,
    sampleRxData, 512, 0, 6, sampleRxData_ready, ?_⟩
  · rintro ⟨r, hr⟩
    exact zero_length_never_returns (.start rfl rfl fun _ _ => rfl) (by decide) (by decide)
      (by decide) (by decide) (by decide) hr
  · rintro ⟨r, hr, hin⟩
    have hat : At sampleRxData.mem 0 0 0 ⟨0, 0, sampleRxData, []⟩ := .start rfl rfl fun _ _ => rfl
    have haccepted : ¬ (puhAt sampleRxData.mem 0).RefusedAt 512 0 := by decide
    have hlt : (puhAt sampleRxData.mem 0).parsedAt 0 0 < (6 : BitVec 32) := by decide
    obtain ⟨m, s', hbody, -, -, -, haccess, -⟩ := turn_of_packet hat hlt (by decide) (by decide)
      haccepted sampleRxData_ready (by decide)
    rcases mem_parserLoop.mp hr with hend | ⟨s'', hgo, hr'⟩
    · cases hbody.symm.trans hend
    · cases hbody.symm.trans hgo
      have hmem : (4, 4) ∈ s'.accesses := by
        rw [haccess]
        decide
      exact absurd (hin _ (accesses_subset hr' hmem)).2 (by decide)

end Uwe5631.Sdio
