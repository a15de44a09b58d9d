import Mathlib

/-!
# The widths of machine integers

An unsigned field of `w` bits is `Fin (2 ^ w)`. The instances below name the fact, needed
for every numeral of such a field, that its type is inhabited.
-/
namespace Uwe5631

instance neZero_colors : NeZero 4 := ⟨by decide⟩
instance neZero_width4 : NeZero 16 := ⟨by decide⟩
instance neZero_width5 : NeZero 32 := ⟨by decide⟩
instance neZero_width8 : NeZero 256 := ⟨by decide⟩
instance neZero_width12 : NeZero 4096 := ⟨by decide⟩
instance neZero_width16 : NeZero 65536 := ⟨by decide⟩
instance neZero_width32 : NeZero 4294967296 := ⟨by decide⟩

end Uwe5631
