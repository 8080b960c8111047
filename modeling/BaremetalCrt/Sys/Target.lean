import BaremetalCrt.Library.Numerals
import Mathlib.Algebra.Group.Int.Defs
import Mathlib.Algebra.Group.Nat.Defs
import Mathlib.Data.Nat.Basic

/-!
# Build targets and error numbers

The runtime is built for 32-bit and 64-bit targets. `size_t`, `uintptr_t`
and pointers share one width; values of these types are natural numbers and
their arithmetic is reduced modulo the word where the source can wrap.
-/

namespace BaremetalCrt

/-- The word size that `CONFIG_64BIT` selects. -/
structure Target where
  bits : Nat
  bits_cases : bits = 32 ∨ bits = 64

theorem bits_sixtyFour : 64 = 32 ∨ 64 = 64 := Or.inr rfl

/-- `OPT_BYTES`, the size of a machine word in bytes. -/
def Target.optBytes (t : Target) : Nat := t.bits / 8

theorem Target.word_ge (t : Target) : 2 ^ 32 ≤ 2 ^ t.bits := by
  rcases t.bits_cases with h | h
  · rw [h]
  · rw [h]
    decide

theorem Target.word_le (t : Target) : 2 ^ t.bits ≤ 2 ^ 64 := by
  rcases t.bits_cases with h | h
  · rw [h]
    decide
  · rw [h]

/-- Reduction of an unsigned word-sized value. -/
def Target.wrap (t : Target) (n : Nat) : Nat := n % 2 ^ t.bits

/-- Conversion of a signed word-sized value to the unsigned type of that size. -/
def Target.toUnsigned (t : Target) (z : Int) : Nat := (z % 2 ^ t.bits).toNat

/-- `PTR_TO_INT`: an address read as `intptr_t`. -/
def Target.ptrToInt (t : Target) (p : Nat) : Int :=
  if p < 2 ^ (t.bits - 1) then p else (p : Int) - 2 ^ t.bits

/-- Difference of two `uint64_t` values. -/
def sub64 (a b : Nat) : Nat := (a + 2 ^ 64 - b) % 2 ^ 64

/-- Sum of two `uint64_t` values. -/
def add64 (a b : Nat) : Nat := (a + b) % 2 ^ 64

theorem sub64_of_le {a b : Nat} (hb : b ≤ a) (ha : a < 2 ^ 64) : sub64 a b = a - b := by
  unfold sub64
  omega

theorem add64_of_lt {a b : Nat} (h : a + b < 2 ^ 64) : add64 a b = a + b :=
  Nat.mod_eq_of_lt h

def ebadf : Int := 9
def eagain : Int := 11
def enomem : Int := 12
def efault : Int := 14
def ebusy : Int := 16
def enodev : Int := 19
def einval : Int := 22
def erange : Int := 34
def enosys : Int := 38
def enotsup : Int := 95

/-- The errno header defines `EWOULDBLOCK` as `EAGAIN`. -/
def ewouldblock : Int := eagain

theorem neg_einval_ne_zero : -einval ≠ 0 := by decide

end BaremetalCrt
