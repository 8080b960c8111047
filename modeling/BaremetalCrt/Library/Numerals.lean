import Mathlib.Algebra.GroupWithZero.Nat

/-!
# Numerals of small index types

A numeral of `Fin n` rests on the fact that `n` is not zero. For small sizes this fact has a
name here, so that such a numeral is the same term wherever it is written.
-/

instance neZeroOne : NeZero 1 := ⟨by decide⟩

instance neZeroTwo : NeZero 2 := ⟨by decide⟩

instance neZeroThree : NeZero 3 := ⟨by decide⟩

instance neZeroFour : NeZero 4 := ⟨by decide⟩

instance neZeroFive : NeZero 5 := ⟨by decide⟩

instance neZeroEight : NeZero 8 := ⟨by decide⟩
