import Mathlib.Algebra.Order.Ring.Nat

/-!
# Sizes of index types

Named, for numerals of `Fin n`.
-/

instance neZero_two : NeZero 2 := ⟨by decide⟩

instance neZero_four : NeZero 4 := ⟨by decide⟩

instance neZero_eight : NeZero 8 := ⟨by decide⟩

instance neZero_sixteen : NeZero 16 := ⟨by decide⟩

instance neZero_word : NeZero (2 ^ 32) := ⟨by decide⟩
