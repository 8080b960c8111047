import Mathlib.Algebra.Group.Nat.Defs
import Mathlib.Logic.Basic

/-!
# Single bits and masked parts of a word

A bit of a word is set, cleared and tested with a shifted one. A part of a word is
replaced under a mask. Words are compared bit by bit.
-/

namespace WordBits

variable {w : Nat} {i j : Nat}

/-- The word with one bit. -/
def bit (w i : Nat) : BitVec w := 1#w <<< i

theorem bit_zero : bit w 0 = 1#w := BitVec.shiftLeft_zero _

theorem bit_shiftLeft (w i : Nat) : bit w i <<< 1 = bit w (i + 1) :=
  (BitVec.shiftLeft_add _ i 1).symm

theorem getLsbD_bit (w i j : Nat) : (bit w i).getLsbD j = (decide (i < w) && decide (i = j)) := by
  rw [bit, ← BitVec.twoPow_eq, BitVec.getLsbD_twoPow]

/-- A bit is tested by a mask. -/
theorem and_bit_eq_zero_iff (v : BitVec w) (hi : i < w) :
    v &&& bit w i = 0#w ↔ v.getLsbD i = false := by
  constructor
  · intro h
    have hbit := congrArg (BitVec.getLsbD · i) h
    simpa only [BitVec.getLsbD_and, getLsbD_bit, hi, decide_true, Bool.and_true,
      BitVec.getLsbD_zero] using hbit
  · intro h
    apply BitVec.eq_of_getLsbD_eq
    intro j _
    rw [BitVec.getLsbD_and, getLsbD_bit, BitVec.getLsbD_zero]
    by_cases hij : i = j
    · rw [← hij, h, Bool.false_and]
    · rw [decide_eq_false hij, Bool.and_false, Bool.and_false]

theorem getLsbD_or_bit (v : BitVec w) (hi : i < w) (j : Nat) :
    (v ||| bit w i).getLsbD j = if j = i then true else v.getLsbD j := by
  rw [BitVec.getLsbD_or, getLsbD_bit, decide_eq_true hi, Bool.true_and]
  by_cases hij : j = i
  · rw [if_pos hij, decide_eq_true hij.symm, Bool.or_true]
  · rw [if_neg hij, decide_eq_false (Ne.symm hij), Bool.or_false]

theorem getLsbD_and_not_bit (v : BitVec w) (hi : i < w) (j : Nat) :
    (v &&& ~~~bit w i).getLsbD j = if j = i then false else v.getLsbD j := by
  rw [BitVec.getLsbD_and, BitVec.getLsbD_not, getLsbD_bit, decide_eq_true hi, Bool.true_and]
  by_cases hij : j = i
  · rw [if_pos hij, decide_eq_true hij.symm, Bool.not_true, Bool.and_false, Bool.and_false]
  · rw [if_neg hij, decide_eq_false (Ne.symm hij), Bool.not_false, Bool.and_true]
    by_cases hj : j < w
    · rw [decide_eq_true hj, Bool.and_true]
    · rw [BitVec.getLsbD_of_ge v j (Nat.le_of_not_lt hj), Bool.false_and]

/-- The word with a bit of a given value. -/
def setBit (v : BitVec w) (i : Nat) (b : Bool) : BitVec w :=
  if b then v ||| bit w i else v &&& ~~~bit w i

theorem getLsbD_setBit (v : BitVec w) (hi : i < w) (b : Bool) (j : Nat) :
    (setBit v i b).getLsbD j = if j = i then b else v.getLsbD j := by
  cases b with
  | false => exact getLsbD_and_not_bit v hi j
  | true => exact getLsbD_or_bit v hi j

/-- The word whose bits under the mask are new. -/
def merge (old mask new : BitVec w) : BitVec w := (old &&& ~~~mask) ||| (new &&& mask)

section Merge

variable {old mask mask' new new' : BitVec w}

theorem getLsbD_merge (hj : j < w) :
    (merge old mask new).getLsbD j =
      if mask.getLsbD j = true then new.getLsbD j else old.getLsbD j := by
  rw [merge, BitVec.getLsbD_or, BitVec.getLsbD_and, BitVec.getLsbD_and, BitVec.getLsbD_not,
    decide_eq_true hj]
  cases mask.getLsbD j with
  | false => simp
  | true => simp

/-- The part under the mask is that of the new word. -/
theorem merge_and (old mask new : BitVec w) : merge old mask new &&& mask = new &&& mask := by
  apply BitVec.eq_of_getLsbD_eq
  intro j hj
  rw [BitVec.getLsbD_and, BitVec.getLsbD_and, getLsbD_merge hj]
  cases hm : mask.getLsbD j with
  | false => rw [Bool.and_false, Bool.and_false]
  | true => rw [if_pos rfl]

/-- Parts under disjoint masks are replaced in any order. -/
theorem merge_comm (h : mask &&& mask' = 0#w) :
    merge (merge old mask new) mask' new' = merge (merge old mask' new') mask new := by
  apply BitVec.eq_of_getLsbD_eq
  intro j hj
  have hbit := congrArg (BitVec.getLsbD · j) h
  simp only [BitVec.getLsbD_and, BitVec.getLsbD_zero, Bool.and_eq_false_iff] at hbit
  simp only [getLsbD_merge hj]
  rcases hbit with hm | hm
  · rw [hm]
    rfl
  · rw [hm]
    rfl

end Merge

end WordBits
