import Uwe5631.FallibleRuns
import Mathlib

/-!
# Fragments of page blocks

`sdiohal_alloc_frag` cuts buffers off a block of pages. It takes many references on the block at
once and counts in `pagecnt_bias` those that no buffer has got yet; whoever has a buffer gives its
reference back with `put_page`.
-/
namespace Uwe5631.Sdio
open FallibleRuns

abbrev MAX_MBUF_SIZE : ℕ := 2 * 2 ^ 10

/-- The sizes a build has: `PAGE_SIZE`, `SDIOHAL_FRAG_PAGE_MAX_ORDER`, and the order that is tried
first, which is another one on 32 bits. -/
structure FragSizes where
  pageSize : ℕ
  maxOrder : ℕ
  firstOrder : ℕ
  mbuf_le : MAX_MBUF_SIZE ≤ pageSize
  first_lt : pageSize * 2 ^ firstOrder < MAX_MBUF_SIZE * (pageSize * 2 ^ maxOrder)

/-- `SDIOHAL_PAGECNT_MAX_BIAS` -/
def FragSizes.maxBias (z : FragSizes) : ℤ := z.pageSize * 2 ^ z.maxOrder

/-- What the kernel knows of the blocks that the driver got from it. A block is named by the address
of its first page. -/
structure Pages where
  refcount : ℕ → ℤ
  size : ℕ → ℕ
  /-- `virt_to_head_page` -/
  headPage : ℕ → ℕ

/-- No block in use has memory in the range. -/
structure Pages.Free (pages : Pages) (b n : ℕ) : Prop where
  unused : pages.refcount b = 0
  apart : ∀ h, pages.refcount h ≠ 0 → h + pages.size h ≤ b ∨ b + n ≤ h

/-- `alloc_pages(gfp, order)`: any function that gives a free block or none. -/
structure PageAlloc (z : FragSizes) where
  allocPages : Pages → ℕ → Option ℕ
  pos : ∀ pages order b, allocPages pages order = some b → 0 < b
  free : ∀ pages order b, allocPages pages order = some b → pages.Free b (z.pageSize * 2 ^ order)

/-- A block comes into use, with one reference. -/
def Pages.use (pages : Pages) (b n : ℕ) : Pages where
  refcount := Function.update pages.refcount b 1
  size := Function.update pages.size b n
  headPage x := if b ≤ x ∧ x < b + n then b else pages.headPage x

/-- `atomic_add(i, &page->_refcount)` -/
def Pages.add (pages : Pages) (b : ℕ) (i : ℤ) : Pages :=
  { pages with refcount := Function.update pages.refcount b (pages.refcount b + i) }

/-- `atomic_set(&page->_refcount, i)` -/
def Pages.set (pages : Pages) (b : ℕ) (i : ℤ) : Pages :=
  { pages with refcount := Function.update pages.refcount b i }

/-- `struct sdiohal_frag_mg` -/
structure SdiohalFragMg where
  page : Option ℕ
  offset : ℕ
  size : ℕ
  pagecntBias : ℤ

/-- The allocator and the pages, with the fragments that were handed out and not released. -/
structure FragState where
  fragCtl : SdiohalFragMg
  admaRxEnable : Bool
  pages : Pages
  frags : List ℕ

/-- `put_page(virt_to_head_page(data))` -/
def FragState.putPage (s : FragState) (data : ℕ) : FragState :=
  { s with pages := s.pages.add (s.pages.headPage data) (-1), frags := s.frags.erase data }

/-- What others do while a fragment is asked for: how `alloc_pages` decides, and which fragments
are released between `atomic_read` and `atomic_sub_and_test`. -/
structure FragRequest (z : FragSizes) where
  alloc : PageAlloc z
  released : List ℕ

variable {z : FragSizes}

/-- The loop around `alloc_pages`, with the order it succeeds at. -/
def allocLoop (alloc : ℕ → Option ℕ) : ℕ → Option (ℕ × ℕ)
  | 0 => (alloc 0).map fun b => (b, 0)
  | order + 1 => match alloc (order + 1) with
    | some b => some (b, order + 1)
    | none => allocLoop alloc order

/-- Fragments are cut from the start of the current block again. -/
def FragState.restart (z : FragSizes) (s : FragState) (pages : Pages) : FragState :=
  { s with fragCtl.pagecntBias := z.maxBias, fragCtl.offset := 0, pages := pages }

/-- From the label `refill` on, up to the test of the offset: the block, or `none` for `fail`. -/
def FragState.refill (s : FragState) (alloc : PageAlloc z) (fragsz : ℕ) : Option ℕ × FragState :=
  match allocLoop (alloc.allocPages s.pages) z.firstOrder with
  | none => (none, { s with fragCtl.page := none })
  | some (b, order) =>
    let size := z.pageSize * 2 ^ order
    let s := { s with fragCtl.page := some b, fragCtl.size := size, pages := s.pages.use b size }
    if size < fragsz then (none, { s with pages := s.pages.add b (-1) })
    else (some b, s.restart z (s.pages.add b (z.maxBias - 1)))

/-- From the computation of `data` on. -/
def FragState.cut (s : FragState) (b fragsz : ℕ) : Option ℕ × FragState :=
  let data := b + s.fragCtl.offset
  (some data, { s with
    fragCtl.offset := s.fragCtl.offset + fragsz
    fragCtl.pagecntBias :=
      if s.admaRxEnable then s.fragCtl.pagecntBias - 1 else s.fragCtl.pagecntBias
    frags := data :: s.frags })

/-- `sdiohal_alloc_frag` without `ignore_alloc_fail`: the fragment, or `none` for a null pointer.
A block that was refilled has room for it. -/
def sdiohalAllocFrag (fragsz : ℕ) (request : FragRequest z) (s : FragState) : Option ℕ × FragState :=
  let afterRefill := fun x : Option ℕ × FragState => x.1.elim (none, x.2) fun b => x.2.cut b fragsz
  match s.fragCtl.page with
  | none => afterRefill (s.refill request.alloc fragsz)
  | some b =>
    if s.fragCtl.size < s.fragCtl.offset + fragsz then
      if s.pages.refcount b ≠ s.fragCtl.pagecntBias then
        let s := request.released.foldl FragState.putPage s
        let pages := s.pages.add b (-s.fragCtl.pagecntBias)
        if pages.refcount b ≠ 0 then
          afterRefill (FragState.refill { s with pages := pages } request.alloc fragsz)
        else (s.restart z (pages.set b z.maxBias)).cut b fragsz
      else (s.restart z (s.pages.add b (z.maxBias - s.fragCtl.pagecntBias))).cut b fragsz
    else s.cut b fragsz

@[simp] theorem use_self (pages : Pages) (b n : ℕ) : (pages.use b n).refcount b = 1 :=
  Function.update_self ..

theorem use_other (pages : Pages) {b c : ℕ} (n : ℕ) (h : c ≠ b) :
    (pages.use b n).refcount c = pages.refcount c := Function.update_of_ne h ..

@[simp] theorem add_self (pages : Pages) (b : ℕ) (i : ℤ) :
    (pages.add b i).refcount b = pages.refcount b + i := Function.update_self ..

theorem add_other (pages : Pages) {b c : ℕ} (i : ℤ) (h : c ≠ b) :
    (pages.add b i).refcount c = pages.refcount c := Function.update_of_ne h ..

@[simp] theorem restart_pages (z : FragSizes) (s : FragState) (pages : Pages) :
    (s.restart z pages).pages = pages := rfl

/-! ## Who has the references -/

/-- How many fragments of a block are handed out. -/
def FragState.outstanding (s : FragState) (b : ℕ) : ℕ := s.frags.countP fun a => s.pages.headPage a = b

/-- The blocks in use have memory of their own. -/
structure Blocks (pages : Pages) : Prop where
  pos : ∀ b, pages.refcount b ≠ 0 → 0 < b
  apart : ∀ b h, pages.refcount b ≠ 0 → pages.refcount h ≠ 0 → b ≠ h →
    h + pages.size h ≤ b ∨ b + pages.size b ≤ h
  heads : ∀ b x, pages.refcount b ≠ 0 → b ≤ x → x < b + pages.size b → pages.headPage x = b

/-- Each reference of a block is one of a fragment or, at the current block, one of the bias. -/
structure FragInv (z : FragSizes) (s : FragState) : Prop where
  blocks : Blocks s.pages
  refcount : ∀ b, s.pages.refcount b =
    (if s.fragCtl.page = some b then s.fragCtl.pagecntBias else 0) + s.outstanding b
  bias : s.fragCtl.page ≠ none → ∃ k : ℕ, s.fragCtl.offset = MAX_MBUF_SIZE * k ∧
    s.fragCtl.pagecntBias = z.maxBias - k
  bounds : s.fragCtl.page ≠ none → s.fragCtl.offset ≤ s.fragCtl.size ∧
    s.fragCtl.size ≤ z.pageSize * 2 ^ z.firstOrder ∧ MAX_MBUF_SIZE ≤ s.fragCtl.size
  size : ∀ b, s.fragCtl.page = some b → s.pages.size b = s.fragCtl.size
  inside : ∀ a ∈ s.frags, s.pages.headPage a ≤ a ∧
    a + MAX_MBUF_SIZE ≤ s.pages.headPage a + s.pages.size (s.pages.headPage a)
  below : ∀ a ∈ s.frags, s.fragCtl.page = some (s.pages.headPage a) →
    a + MAX_MBUF_SIZE ≤ s.pages.headPage a + s.fragCtl.offset
  apart : s.frags.Pairwise fun a c => a + MAX_MBUF_SIZE ≤ c ∨ c + MAX_MBUF_SIZE ≤ a

variable {s : FragState} {a b n : ℕ}

theorem FragInv.bias_pos (h : FragInv z s) (hpage : s.fragCtl.page ≠ none) :
    1 ≤ s.fragCtl.pagecntBias := by
  obtain ⟨k, hoffset, hbias⟩ := h.bias hpage
  obtain ⟨hle, hsize, -⟩ := h.bounds hpage
  have hlt := z.first_lt
  have hk : MAX_MBUF_SIZE * k < MAX_MBUF_SIZE * (z.pageSize * 2 ^ z.maxOrder) := by omega
  have hk' := Nat.lt_of_mul_lt_mul_left hk
  have hmax : z.maxBias = ((z.pageSize * 2 ^ z.maxOrder : ℕ) : ℤ) := by
    rw [FragSizes.maxBias]
    push_cast
    rfl
  omega

theorem FragInv.nodup (h : FragInv z s) : s.frags.Nodup := by
  have hpos : 0 < MAX_MBUF_SIZE := by decide
  refine h.apart.imp fun {a c} hac heq => ?_
  subst heq
  omega

/-- A block with a fragment that is handed out has references. -/
theorem FragInv.refs (h : FragInv z s) (ha : a ∈ s.frags) :
    s.pages.refcount (s.pages.headPage a) ≠ 0 := by
  have hcount : 0 < s.outstanding (s.pages.headPage a) :=
    List.countP_pos_iff.mpr ⟨a, ha, decide_eq_true rfl⟩
  rw [h.refcount]
  split
  · rename_i hpage
    have hbias := h.bias_pos (by rw [hpage]; exact Option.some_ne_none _)
    omega
  · omega

theorem Blocks.mono {pages pages' : Pages} (h : Blocks pages) (hsize : pages'.size = pages.size)
    (hhead : pages'.headPage = pages.headPage)
    (hrefs : ∀ b, pages'.refcount b ≠ 0 → pages.refcount b ≠ 0) : Blocks pages' where
  pos b hb := h.pos b (hrefs b hb)
  apart b c hb hc hne := by
    rw [hsize]
    exact h.apart b c (hrefs b hb) (hrefs c hc) hne
  heads b x hb := by
    rw [hsize, hhead]
    exact h.heads b x (hrefs b hb)

theorem Blocks.use {pages : Pages} (h : Blocks pages) (hpos : 0 < b) (hfree : pages.Free b n) :
    Blocks (pages.use b n) := by
  have hother : ∀ c, c ≠ b → (pages.use b n).refcount c = pages.refcount c ∧
      (pages.use b n).size c = pages.size c := fun c hc =>
    ⟨Function.update_of_ne hc .., Function.update_of_ne hc ..⟩
  have hsize : (pages.use b n).size b = n := Function.update_self ..
  refine ⟨fun c hc => ?_, fun c d hc hd hne => ?_, fun c x hc hle hlt => ?_⟩
  · by_cases hcb : c = b
    · exact hcb ▸ hpos
    · exact h.pos c ((hother c hcb).1 ▸ hc)
  · by_cases hcb : c = b
    · subst hcb
      rw [(hother d hne.symm).1] at hd
      rw [hsize, (hother d hne.symm).2]
      exact hfree.apart d hd
    · rw [(hother c hcb).1] at hc
      by_cases hdb : d = b
      · subst hdb
        rw [hsize, (hother c hcb).2]
        exact (hfree.apart c hc).symm
      · rw [(hother d hdb).1] at hd
        rw [(hother c hcb).2, (hother d hdb).2]
        exact h.apart c d hc hd hne
  · by_cases hcb : c = b
    · subst hcb
      rw [hsize] at hlt
      exact if_pos ⟨hle, hlt⟩
    · rw [(hother c hcb).1] at hc
      rw [(hother c hcb).2] at hlt
      have hrange := hfree.apart c hc
      have hout : ¬ (b ≤ x ∧ x < b + n) := by omega
      exact (if_neg hout).trans (h.heads c x hc hle hlt)

/-! ## What the operations keep -/

/-- A fragment that is handed out is released. -/
theorem FragInv.putPage (h : FragInv z s) (ha : a ∈ s.frags) : FragInv z (s.putPage a) := by
  have hcount : ∀ b, s.outstanding b =
      (s.putPage a).outstanding b + if s.pages.headPage a = b then 1 else 0 := by
    intro b
    rw [FragState.outstanding, (List.perm_cons_erase ha).countP_eq, List.countP_cons]
    simp only [decide_eq_true_eq]
    rfl
  have hsub : ∀ x ∈ (s.putPage a).frags, x ∈ s.frags := fun x hx => List.mem_of_mem_erase hx
  refine ⟨h.blocks.mono rfl rfl fun b hb => ?_, fun b => ?_, h.bias, h.bounds, h.size,
    fun x hx => h.inside x (hsub x hx), fun x hx => h.below x (hsub x hx),
    h.apart.sublist List.erase_sublist⟩
  · by_cases hba : b = s.pages.headPage a
    · exact hba ▸ h.refs ha
    · have hsame : (s.putPage a).pages.refcount b = s.pages.refcount b := Function.update_of_ne hba ..
      exact hsame ▸ hb
  · have hold := h.refcount b
    rw [hcount b] at hold
    by_cases hba : b = s.pages.headPage a
    · have hless : (s.putPage a).pages.refcount b = s.pages.refcount b + -1 := by
        subst hba
        exact Function.update_self ..
      rw [if_pos hba.symm, Nat.cast_add, Nat.cast_one] at hold
      rw [hless, hold, ← add_assoc, add_neg_cancel_right]
      rfl
    · have hsame : (s.putPage a).pages.refcount b = s.pages.refcount b := Function.update_of_ne hba ..
      rw [if_neg (Ne.symm hba)] at hold
      rw [hsame]
      exact hold

theorem FragInv.putPages {released : List ℕ} (h : FragInv z s) (hnodup : released.Nodup)
    (hsub : released ⊆ s.frags) : FragInv z (released.foldl FragState.putPage s) := by
  induction released generalizing s with
  | nil => exact h
  | cons a released ih =>
    have ha : a ∈ s.frags := hsub (List.mem_cons_self ..)
    refine ih (h.putPage ha) hnodup.of_cons fun x hx => ?_
    have hxa : x ≠ a := fun heq => (List.nodup_cons.mp hnodup).1 (heq ▸ hx)
    exact (List.mem_erase_of_ne hxa).mpr (hsub (List.mem_cons_of_mem _ hx))

theorem putPages_other (released : List ℕ) (s : FragState) :
    (released.foldl FragState.putPage s).fragCtl = s.fragCtl ∧
      (released.foldl FragState.putPage s).admaRxEnable = s.admaRxEnable := by
  induction released generalizing s with
  | nil => exact ⟨rfl, rfl⟩
  | cons a released ih => exact ih (s.putPage a)

theorem putPages_frags (released : List ℕ) (s : FragState) :
    (released.foldl FragState.putPage s).frags = s.frags.diff released := by
  induction released generalizing s with
  | nil => rfl
  | cons a released ih =>
    rw [List.foldl_cons, ih, List.diff_cons]
    rfl

/-- The allocator gives up its references and with them the block. -/
theorem FragInv.abandon (h : FragInv z s) (hpage : s.fragCtl.page = some b) :
    FragInv z { s with
      fragCtl.page := none
      pages := s.pages.add b (-s.fragCtl.pagecntBias) } := by
  have hnone : ∀ c : ℕ, (none : Option ℕ) ≠ some c := fun c hc => by cases hc
  have hself := h.refcount b
  rw [if_pos hpage] at hself
  refine ⟨h.blocks.mono rfl rfl fun c hc => ?_, fun c => ?_, fun hne => absurd rfl hne,
    fun hne => absurd rfl hne, fun c hc => absurd hc (hnone c), h.inside,
    fun a _ hc => absurd hc (hnone _), h.apart⟩
  · by_cases hcb : c = b
    · have hbias := h.bias_pos (by rw [hpage]; exact Option.some_ne_none b)
      rw [hcb]
      omega
    · have hsame : (s.pages.add b (-s.fragCtl.pagecntBias)).refcount c = s.pages.refcount c :=
        Function.update_of_ne hcb ..
      exact hsame ▸ hc
  · rw [if_neg (hnone c), zero_add]
    by_cases hcb : c = b
    · subst hcb
      have hless : (s.pages.add c (-s.fragCtl.pagecntBias)).refcount c =
          s.pages.refcount c + -s.fragCtl.pagecntBias := Function.update_self ..
      rw [hless, hself, add_neg_cancel_comm]
      rfl
    · have hold := h.refcount c
      rw [if_neg (by rw [hpage]; exact fun heq => hcb (Option.some.inj heq).symm), zero_add] at hold
      exact (Function.update_of_ne hcb ..).trans hold

/-- A block none of whose fragments is handed out is used again. -/
theorem FragInv.restart {pages : Pages} (h : FragInv z s) (hpage : s.fragCtl.page = some b)
    (hnone : s.outstanding b = 0) (hrefs : pages.refcount = Function.update s.pages.refcount b z.maxBias)
    (hsize : pages.size = s.pages.size) (hhead : pages.headPage = s.pages.headPage) :
    FragInv z (s.restart z pages) := by
  have hsome : s.fragCtl.page ≠ none := by rw [hpage]; exact Option.some_ne_none b
  have hcount : ∀ c, (s.restart z pages).outstanding c = s.outstanding c := by
    intro c
    rw [FragState.outstanding, FragState.outstanding, ← hhead]
    rfl
  refine ⟨h.blocks.mono hsize hhead fun c hc => ?_, fun c => ?_, fun _ => ⟨0, rfl, ?_⟩, fun _ => ?_,
    fun c hc => ?_, fun a ha => ?_, fun a ha hc => ?_, h.apart⟩
  · by_cases hcb : c = b
    · have hbias := h.bias_pos hsome
      have hself := h.refcount b
      rw [if_pos hpage] at hself
      rw [hcb]
      omega
    · rw [restart_pages, hrefs, Function.update_of_ne hcb] at hc
      exact hc
  · rw [hcount]
    by_cases hcb : c = b
    · subst hcb
      have hself : (s.restart z pages).pages.refcount c = z.maxBias := by
        rw [FragState.restart, hrefs, Function.update_self]
      rw [hself, hnone, Nat.cast_zero, add_zero]
      exact (if_pos hpage).symm
    · have hother : ¬ s.fragCtl.page = some c := by
        rw [hpage]
        exact fun heq => hcb (Option.some.inj heq).symm
      have hold := h.refcount c
      rw [if_neg hother] at hold
      have hsame : (s.restart z pages).pages.refcount c = s.pages.refcount c := by
        rw [FragState.restart, hrefs, Function.update_of_ne hcb]
      rw [hsame, hold]
      exact congrArg (· + (s.outstanding c : ℤ)) (if_neg hother).symm
  · exact (sub_zero _).symm
  · exact ⟨Nat.zero_le _, (h.bounds hsome).2⟩
  · exact (congrFun hsize c).trans (h.size c hc)
  · have hinside := h.inside a ha
    rw [← hsize, ← hhead] at hinside
    exact hinside
  · -- the current block has no fragment to be below the offset
    have hblock : s.pages.headPage a = b := by
      have hsame : some b = some (pages.headPage a) := hpage.symm.trans hc
      rw [← hhead]
      exact (Option.some.inj hsame).symm
    have hpos : 0 < s.outstanding b :=
      List.countP_pos_iff.mpr ⟨a, ha, decide_eq_true hblock⟩
    omega

theorem allocLoop_some {alloc : ℕ → Option ℕ} {order : ℕ} (h : allocLoop alloc n = some (b, order)) :
    alloc order = some b ∧ order ≤ n := by
  induction n with
  | zero =>
    obtain ⟨c, hc, heq⟩ := Option.map_eq_some_iff.mp h
    cases heq
    exact ⟨hc, Nat.le_refl 0⟩
  | succ n ih =>
    rw [allocLoop] at h
    split at h
    · rename_i c hc
      cases h
      exact ⟨hc, Nat.le_refl _⟩
    · exact ⟨(ih h).1, Nat.le_succ_of_le (ih h).2⟩

theorem FragInv.headPage_use (h : FragInv z s) (hfree : s.pages.Free b n) (ha : a ∈ s.frags) :
    (s.pages.use b n).headPage a = s.pages.headPage a := by
  have hrange := hfree.apart _ (h.refs ha)
  have hinside := h.inside a ha
  have hpos : 0 < MAX_MBUF_SIZE := by decide
  have hout : ¬ (b ≤ a ∧ a < b + n) := by omega
  exact if_neg hout

/-- A new block becomes the current one. -/
theorem FragInv.use (h : FragInv z s) (hnone : s.fragCtl.page = none) (hpos : 0 < b)
    (hfree : s.pages.Free b n) (hmin : MAX_MBUF_SIZE ≤ n) (hmax : n ≤ z.pageSize * 2 ^ z.firstOrder) :
    FragInv z (FragState.restart z
      { s with fragCtl.page := some b, fragCtl.size := n, pages := s.pages.use b n }
      ((s.pages.use b n).add b (z.maxBias - 1))) := by
  have hheads : ∀ a ∈ s.frags, (s.pages.use b n).headPage a = s.pages.headPage a := fun a ha =>
    h.headPage_use hfree ha
  have hne : ∀ a ∈ s.frags, s.pages.headPage a ≠ b := by
    rintro a ha rfl
    exact h.refs ha hfree.unused
  have hcount : ∀ c, s.frags.countP (fun a => (s.pages.use b n).headPage a = c) = s.outstanding c := by
    intro c
    refine List.countP_congr fun a ha => ?_
    rw [hheads a ha]
  have hself : ((s.pages.use b n).add b (z.maxBias - 1)).refcount b = z.maxBias := by
    rw [add_self, use_self]
    exact add_sub_cancel ..
  have hother : ∀ c, c ≠ b → ((s.pages.use b n).add b (z.maxBias - 1)).refcount c =
      s.pages.refcount c := fun c hc => (add_other _ _ hc).trans (use_other _ n hc)
  refine ⟨(h.blocks.use hpos hfree).mono rfl rfl fun c hc => ?_, fun c => ?_, fun _ => ⟨0, rfl, ?_⟩,
    fun _ => ⟨Nat.zero_le _, hmax, hmin⟩, fun c hc => ?_, fun a ha => ?_, fun a ha hc => ?_, h.apart⟩
  · by_cases hcb : c = b
    · rw [hcb, use_self]
      exact one_ne_zero
    · rw [restart_pages, hother c hcb] at hc
      rwa [use_other _ n hcb]
  · have hold := h.refcount c
    have hgone : ¬ s.fragCtl.page = some c := by rw [hnone]; exact fun heq => by cases heq
    rw [if_neg hgone, zero_add] at hold
    refine Eq.trans ?_ (congrArg (fun k : ℕ => (if some b = some c then z.maxBias else 0) + (k : ℤ))
      (hcount c).symm)
    dsimp only
    by_cases hcb : c = b
    · subst hcb
      rw [← hold, hfree.unused, if_pos rfl, add_zero]
      exact hself
    · rw [if_neg (fun heq => hcb (Option.some.inj heq).symm), zero_add, ← hold]
      exact hother c hcb
  · exact (sub_zero _).symm
  · obtain rfl := Option.some.inj hc
    exact Function.update_self ..
  · have hinside := h.inside a ha
    have hsize : (s.pages.use b n).size (s.pages.headPage a) = s.pages.size (s.pages.headPage a) :=
      Function.update_of_ne (hne a ha) ..
    rw [← hsize, ← hheads a ha] at hinside
    exact hinside
  · have hblock : b = (s.pages.use b n).headPage a := Option.some.inj hc
    rw [hheads a ha] at hblock
    exact absurd hblock.symm (hne a ha)

/-- A fragment is cut off the current block, which has room for it. -/
theorem FragInv.cut (h : FragInv z s) (hpage : s.fragCtl.page = some b) (hadma : s.admaRxEnable = true)
    (hroom : s.fragCtl.offset + MAX_MBUF_SIZE ≤ s.fragCtl.size) :
    FragInv z (s.cut b MAX_MBUF_SIZE).2 := by
  have hsome : s.fragCtl.page ≠ none := by rw [hpage]; exact Option.some_ne_none b
  have hpos : 0 < MAX_MBUF_SIZE := by decide
  have hbias := h.bias_pos hsome
  have hsize := h.size b hpage
  have hrefs : s.pages.refcount b ≠ 0 := by
    rw [h.refcount, if_pos hpage]
    omega
  have hhead : s.pages.headPage (b + s.fragCtl.offset) = b :=
    h.blocks.heads b _ hrefs (Nat.le_add_right ..) (by omega)
  have hless : (s.cut b MAX_MBUF_SIZE).2.fragCtl.pagecntBias = s.fragCtl.pagecntBias - 1 :=
    if_pos hadma
  have hcount : ∀ c, (s.cut b MAX_MBUF_SIZE).2.outstanding c =
      s.outstanding c + if b = c then 1 else 0 := by
    intro c
    have hcons : (s.cut b MAX_MBUF_SIZE).2.outstanding c = s.outstanding c +
        if decide (s.pages.headPage (b + s.fragCtl.offset) = c) = true then 1 else 0 :=
      List.countP_cons ..
    rw [hcons, hhead]
    simp only [decide_eq_true_eq]
  refine ⟨h.blocks, fun c => ?_, fun _ => ?_, fun _ => ?_, h.size, fun a ha => ?_,
    fun a ha hc => ?_, List.pairwise_cons.mpr ⟨fun a ha => ?_, h.apart⟩⟩
  · have hold := h.refcount c
    rw [hcount, hless]
    by_cases hcb : b = c
    · subst hcb
      rw [if_pos hpage] at hold
      have hsame : (s.cut b MAX_MBUF_SIZE).2.fragCtl.page = some b := hpage
      rw [if_pos hsame, if_pos rfl, Nat.cast_add, Nat.cast_one]
      refine hold.trans ?_
      ring
    · rw [if_neg hcb, add_zero]
      have hgone : ¬ s.fragCtl.page = some c := by
        rw [hpage]
        exact fun heq => hcb (Option.some.inj heq)
      rw [if_neg hgone] at hold
      exact hold.trans (congrArg (· + (s.outstanding c : ℤ)) (if_neg hgone).symm)
  · obtain ⟨k, hoffset, hk⟩ := h.bias hsome
    refine ⟨k + 1, ?_, ?_⟩
    · rw [Nat.mul_succ, ← hoffset]
      rfl
    · rw [hless, hk]
      push_cast
      ring
  · exact ⟨hroom, (h.bounds hsome).2⟩
  · rcases List.mem_cons.mp ha with rfl | ha
    · have hhead' : (s.cut b MAX_MBUF_SIZE).2.pages.headPage (b + s.fragCtl.offset) = b := hhead
      have hsize' : (s.cut b MAX_MBUF_SIZE).2.pages.size b = s.fragCtl.size := hsize
      rw [hhead', hsize']
      exact ⟨Nat.le_add_right .., by omega⟩
    · exact h.inside a ha
  · have hoffset : (s.cut b MAX_MBUF_SIZE).2.fragCtl.offset = s.fragCtl.offset + MAX_MBUF_SIZE := rfl
    rcases List.mem_cons.mp ha with rfl | ha
    · have hhead' : (s.cut b MAX_MBUF_SIZE).2.pages.headPage (b + s.fragCtl.offset) = b := hhead
      rw [hhead', hoffset]
      exact (Nat.add_assoc ..).le
    · have hbelow := h.below a ha hc
      rw [hoffset]
      exact hbelow.trans (Nat.add_le_add_left (Nat.le_add_right ..) _)
  · -- an older fragment lies before the offset, or in another block
    by_cases hblock : s.pages.headPage a = b
    · have hbelow := h.below a ha (by rw [hblock]; exact hpage)
      rw [hblock] at hbelow
      exact .inr hbelow
    · have hinside := h.inside a ha
      have hapart := h.blocks.apart _ _ (h.refs ha) hrefs hblock
      omega

theorem FragInv.cut_restart {pages : Pages} (h : FragInv z s) (hpage : s.fragCtl.page = some b)
    (hadma : s.admaRxEnable = true) (hnone : s.outstanding b = 0)
    (hrefs : pages.refcount = Function.update s.pages.refcount b z.maxBias)
    (hsize : pages.size = s.pages.size) (hhead : pages.headPage = s.pages.headPage) :
    FragInv z ((s.restart z pages).cut b MAX_MBUF_SIZE).2 := by
  have hsome : s.fragCtl.page ≠ none := by rw [hpage]; exact Option.some_ne_none b
  have hroom : (s.restart z pages).fragCtl.offset + MAX_MBUF_SIZE ≤ s.fragCtl.size := by
    rw [FragState.restart, Nat.zero_add]
    exact (h.bounds hsome).2.2
  exact (h.restart hpage hnone hrefs hsize hhead).cut hpage hadma hroom

/-- What a request for a fragment does to the fragments that are handed out: the new one comes to
them, and at most those released meanwhile go. -/
structure Requested (z : FragSizes) (request : FragRequest z) (s : FragState)
    (r : Option ℕ × FragState) : Prop where
  inv : FragInv z r.2
  adma : r.2.admaRxEnable = s.admaRxEnable
  frags : ∃ rest, r.2.frags = r.1.toList ++ rest ∧ rest ⊆ s.frags ∧
    ∀ a ∈ s.frags, a ∉ request.released → a ∈ rest

/-- Which block was the current one does not matter for the next. -/
theorem refill_forget (s : FragState) (alloc : PageAlloc z) (fragsz : ℕ) :
    s.refill alloc fragsz = FragState.refill { s with fragCtl.page := none } alloc fragsz := rfl

theorem refill_requested {request : FragRequest z} {t : FragState} (h : FragInv z s)
    (hnone : s.fragCtl.page = none) (hadma : s.admaRxEnable = true) (hsub : s.frags ⊆ t.frags)
    (hkept : ∀ a ∈ t.frags, a ∉ request.released → a ∈ s.frags) (htadma : t.admaRxEnable = true) :
    Requested z request t ((s.refill request.alloc MAX_MBUF_SIZE).1.elim
      (none, (s.refill request.alloc MAX_MBUF_SIZE).2)
      fun b => (s.refill request.alloc MAX_MBUF_SIZE).2.cut b MAX_MBUF_SIZE) := by
  rw [FragState.refill]
  split
  · have hsame : { s with fragCtl := { s.fragCtl with page := none } } = s := by rw [← hnone]
    rw [hsame]
    exact ⟨h, hadma.trans htadma.symm, s.frags, rfl, hsub, hkept⟩
  · rename_i b order hloop
    obtain ⟨halloc, horder⟩ := allocLoop_some hloop
    have hpow : 2 ^ order ≤ 2 ^ z.firstOrder := Nat.pow_le_pow_right (by decide) horder
    have hmin : MAX_MBUF_SIZE ≤ z.pageSize * 2 ^ order :=
      z.mbuf_le.trans (Nat.le_mul_of_pos_right _ (Nat.two_pow_pos order))
    have huse := h.use hnone (request.alloc.pos _ _ _ halloc) (request.alloc.free _ _ _ halloc) hmin
      (Nat.mul_le_mul_left _ hpow)
    have hcut := huse.cut rfl hadma (by
      rw [FragState.restart]
      dsimp only
      rw [Nat.zero_add]
      exact hmin)
    rw [if_neg (Nat.not_lt_of_le hmin)]
    exact ⟨hcut, hadma.trans htadma.symm, s.frags, rfl, hsub, hkept⟩

theorem allocFrag_requested {request : FragRequest z} (h : FragInv z s)
    (hadma : s.admaRxEnable = true) (hnodup : request.released.Nodup)
    (hsub : request.released ⊆ s.frags) :
    Requested z request s (sdiohalAllocFrag MAX_MBUF_SIZE request s) := by
  rw [sdiohalAllocFrag]
  dsimp only
  split
  · rename_i hnone
    exact refill_requested h hnone hadma (List.Subset.refl _) (fun a ha _ => ha) hadma
  rename_i b hpage
  have hsome : s.fragCtl.page ≠ none := by rw [hpage]; exact Option.some_ne_none b
  split
  swap
  · rename_i hroom
    exact ⟨h.cut hpage hadma (Nat.le_of_not_lt hroom), rfl, s.frags, rfl, List.Subset.refl _,
      fun a ha _ => ha⟩
  have hself := h.refcount b
  rw [if_pos hpage] at hself
  split
  swap
  · -- no fragment of the block is handed out
    rename_i heq
    rw [ne_eq, not_not] at heq
    have hzero : s.outstanding b = 0 := by omega
    have hrefs : (s.pages.add b (z.maxBias - s.fragCtl.pagecntBias)).refcount =
        Function.update s.pages.refcount b z.maxBias := by
      rw [Pages.add, heq]
      dsimp only
      rw [add_sub_cancel]
    have hcut := h.cut_restart hpage hadma hzero hrefs rfl rfl
    exact ⟨hcut, rfl, s.frags, rfl, List.Subset.refl _, fun a ha _ => ha⟩
  obtain ⟨hctl, hadma'⟩ := putPages_other request.released s
  have hfrags := putPages_frags request.released s
  have h' := h.putPages hnodup hsub
  generalize request.released.foldl FragState.putPage s = t at hctl hadma' hfrags h' ⊢
  have hpage' : t.fragCtl.page = some b := by rw [hctl]; exact hpage
  have hsub' : t.frags ⊆ s.frags := hfrags ▸ List.diff_subset ..
  have hkept : ∀ a ∈ s.frags, a ∉ request.released → a ∈ t.frags := fun a ha hnot =>
    hfrags ▸ List.mem_diff_of_mem ha hnot
  split
  · have habandon := h'.abandon hpage'
    rw [refill_forget]
    exact refill_requested habandon rfl (hadma'.trans hadma) hsub' hkept hadma
  · -- the fragments of the block were all released since the test
    rename_i hzero
    rw [ne_eq, not_not, add_self] at hzero
    have hself' := h'.refcount b
    rw [if_pos hpage'] at hself'
    have hnone : t.outstanding b = 0 := by omega
    have hrefs : ((t.pages.add b (-t.fragCtl.pagecntBias)).set b z.maxBias).refcount =
        Function.update t.pages.refcount b z.maxBias := Function.update_idem ..
    have hcut := h'.cut_restart hpage' (hadma'.trans hadma) hnone hrefs rfl rfl
    exact ⟨hcut, hadma', t.frags, rfl, hsub', hkept⟩

/-! ## Requests and releases in any order -/

inductive FragEvent (z : FragSizes) where
  | request (request : FragRequest z)
  | release (data : ℕ)

def FragEvent.step (s : FragState) : FragEvent z → Except Empty FragState
  | request r => .ok (sdiohalAllocFrag MAX_MBUF_SIZE r s).2
  | release data => .ok (s.putPage data)

/-- Only who has a fragment releases it, and once. -/
def FragEvent.Allowed (s : FragState) : FragEvent z → Prop
  | request r => r.released.Nodup ∧ r.released ⊆ s.frags
  | release data => data ∈ s.frags

/-- The references of the current block are accounted for and some are the allocator's; fragments
lie in blocks that have references, and apart from each other. -/
structure FragSafe (s : FragState) : Prop where
  owned : ∀ b, s.fragCtl.page = some b →
    s.pages.refcount b = s.fragCtl.pagecntBias + s.outstanding b ∧ 0 < s.fragCtl.pagecntBias
  inside : ∀ a ∈ s.frags, s.pages.headPage a ≤ a ∧
    a + MAX_MBUF_SIZE ≤ s.pages.headPage a + s.pages.size (s.pages.headPage a)
  alive : ∀ a ∈ s.frags, s.pages.refcount (s.pages.headPage a) ≠ 0
  apart : s.frags.Pairwise fun a c => a + MAX_MBUF_SIZE ≤ c ∨ c + MAX_MBUF_SIZE ≤ a

theorem FragInv.safe (h : FragInv z s) : FragSafe s where
  owned b hb := by
    have hself := h.refcount b
    rw [if_pos hb] at hself
    exact ⟨hself, h.bias_pos (by rw [hb]; exact Option.some_ne_none b)⟩
  inside := h.inside
  alive _ ha := h.refs ha
  apart := h.apart

theorem FragInv.start (hpage : s.fragCtl.page = none) (hfrags : s.frags = [])
    (hrefs : ∀ b, s.pages.refcount b = 0) : FragInv z s := by
  have hnone : ∀ b, s.fragCtl.page ≠ some b := by
    rw [hpage]
    exact fun b hb => by cases hb
  have hempty : ∀ a, a ∉ s.frags := by
    rw [hfrags]
    exact fun a => List.not_mem_nil
  refine ⟨⟨fun b hb => absurd (hrefs b) hb, fun b _ hb => absurd (hrefs b) hb,
    fun b _ hb => absurd (hrefs b) hb⟩, fun b => ?_, fun hne => absurd hpage hne,
    fun hne => absurd hpage hne, fun b hb => absurd hb (hnone b), fun a ha => absurd ha (hempty a),
    fun a ha => absurd ha (hempty a), ?_⟩
  · rw [hrefs, if_neg (hnone b), FragState.outstanding, hfrags]
    rfl
  · rw [hfrags]
    exact .nil

/-- However fragments are asked for and released in receive mode with ADMA, and whenever there are
no pages to be had. -/
theorem fragments_safe {events : List (FragEvent z)} (hadma : s.admaRxEnable = true)
    (hpage : s.fragCtl.page = none) (hfrags : s.frags = []) (hrefs : ∀ b, s.pages.refcount b = 0)
    (h : Along FragEvent.step (fun s e => e.Allowed s) s events) :
    ∃ t, run FragEvent.step s events = .ok t ∧ FragSafe t := by
  have hstep : ∀ (s : FragState) (e : FragEvent z), FragInv z s ∧ s.admaRxEnable = true →
      e.Allowed s → ∃ s', e.step s = .ok s' ∧ FragInv z s' ∧ s'.admaRxEnable = true := by
    rintro s (r | data) ⟨hinv, hadma⟩ he
    · have hrequested := allocFrag_requested hinv hadma he.1 he.2
      exact ⟨_, rfl, hrequested.inv, hrequested.adma.trans hadma⟩
    · exact ⟨_, rfl, hinv.putPage he, hadma⟩
  obtain ⟨t, ht, hinv, -⟩ := run_completes hstep ⟨.start hpage hfrags hrefs, hadma⟩ h
  exact ⟨t, ht, hinv.safe⟩

def pages4K : FragSizes := ⟨4096, 6, 6, by decide, by decide⟩

open Classical in
/-- The block at 4096 if it is free. -/
noncomputable def oneBlock : PageAlloc pages4K where
  allocPages pages order :=
    if pages.Free 4096 (pages4K.pageSize * 2 ^ order) then some 4096 else none
  pos pages order b h := by
    split at h
    · cases h
      decide
    · cases h
  free pages order b h := by
    split at h
    · rename_i hfree
      cases h
      exact hfree
    · cases h

theorem two_requests_safe : ∃ t, run FragEvent.step
    ⟨⟨none, 0, 0, 0⟩, true, ⟨fun _ => 0, fun _ => 0, id⟩, []⟩
    [.request ⟨oneBlock, []⟩, .request ⟨oneBlock, []⟩] = .ok t ∧ FragSafe t :=
  fragments_safe rfl rfl rfl (fun _ => rfl)
    ⟨⟨List.nodup_nil, List.nil_subset _⟩, fun _ _ =>
      ⟨⟨List.nodup_nil, List.nil_subset _⟩, fun _ _ => True.intro⟩⟩

end Uwe5631.Sdio
