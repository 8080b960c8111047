import BaremetalCrt.Library.FloatFormat
import BaremetalCrt.Print.Float

/-!
# The arithmetic of `double`

The formatter is followed for every arithmetic; here is the one of binary64, with the rounding to
the nearest value.

## Implementation notes

A zero has no sign. The formatter compares numbers and takes the sign bit of their encoding away,
so the two zeros are printed alike.
-/

namespace BaremetalCrt

open Emission FloatFormat

theorem binary64_prec_pos : 0 < 53 := by decide

theorem binary64_emin_le : (-1074 : ℤ) ≤ 971 := by decide

/-- The format of `double`. -/
def binary64 : Format := ⟨53, -1074, 971, binary64_prec_pos, binary64_emin_le⟩

/-- The values of `double`. -/
abbrev Double := Value binary64

namespace Double

/-- A rational number as the nearest `double`. -/
def ofRat (q : ℚ) : Double := Value.round binary64 q

def eq : Double → Double → Bool
  | .finite a _, .finite b _ => a = b
  | .inf a, .inf b => a = b
  | _, _ => false

def lt : Double → Double → Bool
  | .finite a _, .finite b _ => a < b
  | .finite _ _, .inf negative => !negative
  | .inf negative, .finite _ _ => negative
  | .inf a, .inf b => a && !b
  | _, _ => false

def le (a b : Double) : Bool := lt a b || eq a b

def neg : Double → Double
  | .nan => .nan
  | .inf negative => .inf !negative
  | .finite q h => .finite (-q) (has_neg h)

def add : Double → Double → Double
  | .finite a _, .finite b _ => ofRat (a + b)
  | .inf a, .inf b => if a = b then .inf a else .nan
  | .inf a, .finite _ _ => .inf a
  | .finite _ _, .inf b => .inf b
  | _, _ => .nan

def sub (a b : Double) : Double := add a (neg b)

def mul : Double → Double → Double
  | .finite a _, .finite b _ => ofRat (a * b)
  | .inf a, .inf b => .inf (a != b)
  | .inf a, .finite b _ => if b = 0 then .nan else .inf (a != decide (b < 0))
  | .finite a _, .inf b => if a = 0 then .nan else .inf (decide (a < 0) != b)
  | _, _ => .nan

def div : Double → Double → Double
  | .finite a _, .finite b _ =>
      if b ≠ 0 then ofRat (a / b) else if a = 0 then .nan else .inf (a < 0)
  | .inf a, .finite b _ => .inf (a != decide (b < 0))
  | .finite _ _, .inf _ => ofRat 0
  | _, _ => .nan

/-- The value without its fraction. -/
def trunc : Double → Option Int
  | .finite q _ => some (if 0 ≤ q then ⌊q⌋ else ⌈q⌉)
  | _ => none

/-- The sign, the biased exponent and the fraction. -/
def encode (negative : Bool) (exponent fraction : Nat) : BitVec 64 :=
  BitVec.ofNat 64 ((if negative then 2 ^ 63 else 0) + exponent * 2 ^ 52 + fraction)

def toBits : Double → BitVec 64
  | .nan => encode false 2047 (2 ^ 51)
  | .inf negative => encode negative 2047 0
  | .finite q _ =>
      if q = 0 then 0
      else
        let e := binary64.exponent q
        let m := ⌊|q| / 2 ^ e⌋.toNat
        if m < 2 ^ 52 then encode (q < 0) 0 m
        else encode (q < 0) (e + 1075).toNat (m - 2 ^ 52)

def ofBits (u : BitVec 64) : Double :=
  let sign : ℚ := if u.toNat / 2 ^ 63 = 1 then -1 else 1
  let exponent : Nat := u.toNat / 2 ^ 52 % 2 ^ 11
  let fraction : Nat := u.toNat % 2 ^ 52
  if exponent = 2047 then
    if fraction = 0 then .inf (u.toNat / 2 ^ 63 = 1) else .nan
  else if exponent = 0 then ofRat (sign * fraction * 2 ^ (-1074 : ℤ))
  else ofRat (sign * (2 ^ 52 + fraction) * 2 ^ ((exponent : ℤ) - 1075))

end Double

/-- The arithmetic of `double`, with the operations of the formatter. -/
def binary64Arith : DoubleArith Double where
  eq := Double.eq
  lt := Double.lt
  le := Double.le
  neg := Double.neg
  add := Double.add
  sub := Double.sub
  mul := Double.mul
  div := Double.div
  ofInt z := Double.ofRat z
  trunc := Double.trunc
  lit m e := Double.ofRat (m * 10 ^ e)
  toBits := Double.toBits
  ofBits := Double.ofBits

section Exact

theorem ofRat_of_has {q : ℚ} (h : binary64.Has q) : Double.ofRat q = .finite q h := round_of_has h

/-- The integers below `2 ^ 53` are values. -/
theorem has_of_abs_lt {n : ℤ} (h : |n| < 2 ^ 53) : binary64.Has n :=
  has_intCast h (by decide) (by decide)

theorem ofInt_eq {n : ℤ} (h : |n| < 2 ^ 53) :
    binary64Arith.ofInt n = .finite n (has_of_abs_lt h) :=
  ofRat_of_has _

theorem has_half : binary64.Has (1 / 2) :=
  ⟨1, -1, by decide, by decide, by decide, by norm_num⟩

theorem half_eq : binary64Arith.half = .finite (1 / 2) has_half := by
  have hval : ((5 : ℤ) : ℚ) * 10 ^ (-1 : ℤ) = 1 / 2 := by norm_num
  change Double.ofRat (((5 : ℤ) : ℚ) * 10 ^ (-1 : ℤ)) = _
  rw [hval]
  exact ofRat_of_has has_half

theorem sub_finite {a b : ℚ} (ha : binary64.Has a) (hb : binary64.Has b)
    (h : binary64.Has (a - b)) :
    binary64Arith.sub (.finite a ha) (.finite b hb) = .finite (a - b) h := by
  change Double.ofRat (a + -b) = _
  rw [← sub_eq_add_neg]
  exact ofRat_of_has h

end Exact

end BaremetalCrt
