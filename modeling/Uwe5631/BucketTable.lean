import Mathlib.Data.List.Nodup
import Mathlib.Data.Set.Insert
import Mathlib.Logic.Function.Basic

/-!
# Tables of heap objects linked in buckets

Objects live at addresses of a heap and are linked into one of `n` buckets. In a valid
table every live object is linked once, in the bucket its key names, every link leads
to a live object, and a key and a tag together name at most one object.
-/
namespace Uwe5631.BucketTable

variable {n : ℕ} {α ν τ : Type*}

structure Table (n : ℕ) (α ν : Type*) where
  bucket : Fin n → List α
  heap : α → Option ν

/-- No objects. -/
def Table.empty : Table n α ν := ⟨fun _ => [], fun _ => none⟩

section Operations
variable [DecidableEq α]

/-- Allocate an object and link it at the head of a bucket. -/
def Table.insert (t : Table n α ν) (i : Fin n) (a : α) (v : ν) : Table n α ν where
  bucket := Function.update t.bucket i (a :: t.bucket i)
  heap := Function.update t.heap a (some v)

/-- Unlink an object from its bucket and free it. -/
def Table.remove (t : Table n α ν) (a : α) : Table n α ν where
  bucket := fun i => (t.bucket i).erase a
  heap := Function.update t.heap a none

/-- Write to an object. -/
def Table.write (t : Table n α ν) (a : α) (v : ν) : Table n α ν where
  bucket := t.bucket
  heap := Function.update t.heap a (some v)

@[simp] theorem heap_insert_self (t : Table n α ν) (i : Fin n) (a : α) (v : ν) :
    (t.insert i a v).heap a = some v := by simp [Table.insert]

theorem heap_insert_ne (t : Table n α ν) (i : Fin n) {a b : α} (h : b ≠ a) (v : ν) :
    (t.insert i a v).heap b = t.heap b := by simp [Table.insert, h]

@[simp] theorem heap_remove_self (t : Table n α ν) (a : α) : (t.remove a).heap a = none := by
  simp [Table.remove]

theorem heap_remove_ne (t : Table n α ν) {a b : α} (h : b ≠ a) :
    (t.remove a).heap b = t.heap b := by simp [Table.remove, h]

@[simp] theorem heap_write_self (t : Table n α ν) (a : α) (v : ν) :
    (t.write a v).heap a = some v := by simp [Table.write]

theorem heap_write_ne (t : Table n α ν) {a b : α} (h : b ≠ a) (v : ν) :
    (t.write a v).heap b = t.heap b := by simp [Table.write, h]

end Operations

structure Valid (key : ν → ℕ) (tag : ν → τ) (t : Table n α ν) : Prop where
  linked : ∀ a v, t.heap a = some v → ∃ h : key v < n, a ∈ t.bucket ⟨key v, h⟩
  live : ∀ i a, a ∈ t.bucket i → ∃ v, t.heap a = some v ∧ key v = i
  nodup : ∀ i, (t.bucket i).Nodup
  unique : ∀ a b v w, t.heap a = some v → t.heap b = some w → key v = key w → tag v = tag w → a = b

variable {key : ν → ℕ} {tag : ν → τ} {t : Table n α ν} {a b : α} {v w : ν}

theorem valid_empty : Valid key tag (Table.empty : Table n α ν) where
  linked _ _ h := by cases h
  live _ _ h := by cases h
  nodup _ := List.nodup_nil
  unique _ _ _ _ h := by cases h

/-- The keys and tags of the live objects. -/
def names (key : ν → ℕ) (tag : ν → τ) (t : Table n α ν) : Set (ℕ × τ) :=
  {p | ∃ a v, t.heap a = some v ∧ key v = p.1 ∧ tag v = p.2}

theorem mem_names {k : ℕ} {g : τ} :
    (k, g) ∈ names key tag t ↔ ∃ a v, t.heap a = some v ∧ key v = k ∧ tag v = g := Iff.rfl

variable [DecidableEq α]

theorem Valid.insert (h : Valid key tag t) (ha : t.heap a = none) (hk : key v < n)
    (hnew : (key v, tag v) ∉ names key tag t) :
    Valid key tag (t.insert ⟨key v, hk⟩ a v) where
  linked b w hb := by
    by_cases hba : b = a
    · subst hba
      rw [heap_insert_self] at hb
      cases hb
      exact ⟨hk, by simp [Table.insert]⟩
    · rw [heap_insert_ne _ _ hba] at hb
      obtain ⟨hw, hmem⟩ := h.linked b w hb
      refine ⟨hw, ?_⟩
      simp only [Table.insert, Function.update_apply]
      split
      · rename_i heq
        rw [← heq]
        exact List.mem_cons_of_mem _ hmem
      · exact hmem
  live i b hb := by
    have hlive : ∀ j, b ∈ t.bucket j →
        ∃ w, (t.insert ⟨key v, hk⟩ a v).heap b = some w ∧ key w = j := by
      intro j hj
      obtain ⟨w, hw, hkey⟩ := h.live j b hj
      have hne : b ≠ a := by
        rintro rfl
        rw [ha] at hw
        cases hw
      exact ⟨w, by rw [heap_insert_ne _ _ hne, hw], hkey⟩
    simp only [Table.insert, Function.update_apply] at hb
    split at hb
    · rename_i heq
      rcases List.mem_cons.mp hb with rfl | hmem
      · exact ⟨v, heap_insert_self _ _ _ _, by rw [heq]⟩
      · rw [heq]
        exact hlive _ hmem
    · exact hlive i hb
  nodup i := by
    simp only [Table.insert, Function.update_apply]
    split
    · refine List.nodup_cons.mpr ⟨fun hmem => ?_, h.nodup _⟩
      obtain ⟨w, hw, _⟩ := h.live _ a hmem
      rw [ha] at hw
      cases hw
    · exact h.nodup i
  unique b c x y hb hc hkey htag := by
    simp only [Table.insert, Function.update_apply] at hb hc
    split at hb <;> split at hc
    · rename_i h1 h2
      rw [h1, h2]
    · cases hb
      exact absurd ⟨c, y, hc, hkey.symm, htag.symm⟩ hnew
    · cases hc
      exact absurd ⟨b, x, hb, hkey, htag⟩ hnew
    · exact h.unique b c x y hb hc hkey htag

theorem Valid.remove (h : Valid key tag t) : Valid key tag (t.remove a) where
  linked b w hb := by
    by_cases hba : b = a
    · subst hba
      rw [heap_remove_self] at hb
      cases hb
    · rw [heap_remove_ne _ hba] at hb
      obtain ⟨hw, hmem⟩ := h.linked b w hb
      exact ⟨hw, (List.mem_erase_of_ne hba).mpr hmem⟩
  live i b hb := by
    have hne : b ≠ a := by
      rintro rfl
      exact (h.nodup i).not_mem_erase hb
    obtain ⟨w, hw, hkey⟩ := h.live i b (List.mem_of_mem_erase hb)
    exact ⟨w, by rw [heap_remove_ne _ hne, hw], hkey⟩
  nodup i := (h.nodup i).erase a
  unique b c x y hb hc hkey htag := by
    simp only [Table.remove, Function.update_apply] at hb hc
    split at hb
    · cases hb
    · split at hc
      · cases hc
      · exact h.unique b c x y hb hc hkey htag

/-- Writes that keep the key and the tag. -/
theorem Valid.write (h : Valid key tag t) (ha : t.heap a = some v) (hk : key w = key v)
    (ht : tag w = tag v) : Valid key tag (t.write a w) := by
  have hold : ∀ b x, (t.write a w).heap b = some x →
      ∃ y, t.heap b = some y ∧ key x = key y ∧ tag x = tag y := by
    intro b x hb
    simp only [Table.write, Function.update_apply] at hb
    split at hb
    · rename_i hba
      cases hb
      exact ⟨v, by rw [hba, ha], hk, ht⟩
    · exact ⟨x, hb, rfl, rfl⟩
  refine ⟨?_, ?_, h.nodup, ?_⟩
  · intro b x hb
    obtain ⟨y, hy, hkey, _⟩ := hold b x hb
    simp only [hkey]
    exact h.linked b y hy
  · intro i b hb
    obtain ⟨y, hy, hkey⟩ := h.live i b hb
    by_cases hba : b = a
    · subst hba
      rw [ha] at hy
      cases hy
      exact ⟨w, heap_write_self _ _ _, hk.trans hkey⟩
    · exact ⟨y, by rw [heap_write_ne _ hba, hy], hkey⟩
  · intro b c x y hb hc hkey htag
    obtain ⟨x', hx, hkx, htx⟩ := hold b x hb
    obtain ⟨y', hy, hky, hty⟩ := hold c y hc
    exact h.unique b c x' y' hx hy (by rw [← hkx, ← hky, hkey]) (by rw [← htx, ← hty, htag])

/-! ## Which names a table has -/

theorem names_insert (ha : t.heap a = none) (i : Fin n) :
    names key tag (t.insert i a v) = insert (key v, tag v) (names key tag t) := by
  ext ⟨k, g⟩
  simp only [Set.mem_insert_iff, mem_names, Prod.mk.injEq, Table.insert, Function.update_apply]
  constructor
  · rintro ⟨b, w, hb, rfl, rfl⟩
    split at hb
    · cases hb
      exact Or.inl ⟨rfl, rfl⟩
    · exact Or.inr ⟨b, w, hb, rfl, rfl⟩
  · rintro (⟨rfl, rfl⟩ | ⟨b, w, hb, hkey, htag⟩)
    · exact ⟨a, v, by simp, rfl, rfl⟩
    · have hne : b ≠ a := by
        rintro rfl
        rw [ha] at hb
        cases hb
      exact ⟨b, w, by rw [if_neg hne, hb], hkey, htag⟩

theorem Valid.names_remove (h : Valid key tag t) (ha : t.heap a = some v) :
    names key tag (t.remove a) = names key tag t \ {(key v, tag v)} := by
  ext ⟨k, g⟩
  simp only [Set.mem_sdiff, Set.mem_singleton_iff, mem_names, Prod.mk.injEq, Table.remove,
    Function.update_apply]
  constructor
  · rintro ⟨b, w, hb, rfl, rfl⟩
    split at hb
    · cases hb
    · rename_i hne
      refine ⟨⟨b, w, hb, rfl, rfl⟩, ?_⟩
      intro ⟨hkey, htag⟩
      exact hne (h.unique b a w v hb ha hkey htag)
  · rintro ⟨⟨b, w, hb, rfl, rfl⟩, hne⟩
    have hba : b ≠ a := by
      rintro rfl
      rw [ha] at hb
      cases hb
      exact hne ⟨rfl, rfl⟩
    exact ⟨b, w, by rw [if_neg hba, hb], rfl, rfl⟩

theorem names_write (ha : t.heap a = some v) (hk : key w = key v) (ht : tag w = tag v) :
    names key tag (t.write a w) = names key tag t := by
  ext ⟨k, g⟩
  simp only [mem_names, Table.write, Function.update_apply]
  constructor
  · rintro ⟨b, x, hb, rfl, rfl⟩
    split at hb
    · cases hb
      exact ⟨a, v, ha, hk.symm, ht.symm⟩
    · exact ⟨b, x, hb, rfl, rfl⟩
  · rintro ⟨b, x, hb, rfl, rfl⟩
    by_cases hba : b = a
    · subst hba
      rw [ha] at hb
      cases hb
      exact ⟨b, w, by simp, hk, ht⟩
    · exact ⟨b, x, by rw [if_neg hba, hb], rfl, rfl⟩

end Uwe5631.BucketTable
