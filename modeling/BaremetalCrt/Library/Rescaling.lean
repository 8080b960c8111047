import Mathlib.Data.Nat.Basic
import Mathlib.Tactic.Cases

/-!
# Rescaling a count to another frequency

A count of ticks at one frequency is converted to a count at another one by a
multiplication and a division that rounds down. What a conversion loses is less than one
tick of the target, so a conversion there and back loses a bounded number of ticks.
-/

namespace Rescaling

/-- The count at frequency `g` for a count at frequency `f`, rounded down. -/
def rescale (f g x : Nat) : Nat := x * g / f

variable {f g : Nat}

theorem rescale_mul_le (f g x : Nat) : rescale f g x * f ≤ x * g :=
  Nat.div_mul_le_self (x * g) f

theorem lt_rescale_succ_mul (hf : 0 < f) (x : Nat) : x * g < (rescale f g x + 1) * f := by
  rw [Nat.mul_comm (rescale f g x + 1)]
  exact Nat.lt_mul_div_succ (x * g) hf

theorem le_rescale_iff (hf : 0 < f) {k x : Nat} : k ≤ rescale f g x ↔ k * f ≤ x * g :=
  Nat.le_div_iff_mul_le hf

theorem rescale_mono {x y : Nat} (h : x ≤ y) : rescale f g x ≤ rescale f g y :=
  Nat.div_le_div_right (Nat.mul_le_mul_right g h)

/-- Whole seconds are converted without loss. -/
theorem rescale_seconds (hf : 0 < f) (q r : Nat) :
    rescale f g (q * f + r) = q * g + rescale f g r := by
  unfold rescale
  rw [Nat.add_mul, Nat.mul_right_comm, Nat.add_comm, Nat.add_mul_div_right _ _ hf, Nat.add_comm]

/-- Less than a second stays less than a second. -/
theorem rescale_lt (hg : 0 < g) {r : Nat} (hr : r < f) : rescale f g r < g :=
  Nat.div_lt_of_lt_mul (Nat.mul_lt_mul_of_pos_right hr hg)

/-- A conversion there and back does not gain. -/
theorem rescale_rescale_le (f g x : Nat) : rescale g f (rescale f g x) ≤ x :=
  Nat.div_le_of_le_mul (by
    rw [Nat.mul_comm g x]
    exact rescale_mul_le f g x)

/-- A conversion there and back loses at most the ticks that begin in one tick of the other
frequency. -/
theorem le_rescale_rescale_add (hf : 0 < f) (hg : 0 < g) (x : Nat) :
    x ≤ rescale g f (rescale f g x) + (f + g - 1) / g := by
  have hceil : f ≤ (f + g - 1) / g * g := by
    have := Nat.lt_mul_div_succ (f + g - 1) hg
    rw [Nat.mul_add, Nat.mul_one, Nat.mul_comm] at this
    omega
  have hlast := lt_rescale_succ_mul (g := g) hf x
  have hback : x - (f + g - 1) / g ≤ rescale g f (rescale f g x) := by
    rw [le_rescale_iff hg, Nat.sub_mul]
    rw [Nat.add_mul, Nat.one_mul] at hlast
    omega
  omega

/-- Where a tick of the one frequency is a number of ticks of the other, nothing is lost. -/
theorem rescale_rescale_of_dvd (hg : 0 < g) (h : f ∣ g) (x : Nat) :
    rescale g f (rescale f g x) = x := by
  have hexact : rescale f g x * f = x * g := Nat.div_mul_cancel (Nat.dvd_mul_left_of_dvd h x)
  unfold rescale at hexact ⊢
  rw [hexact, Nat.mul_div_cancel _ hg]

/-- A count that is converted, moved on and converted back has moved by about as much. -/
theorem rescale_add_bounds (hf : 0 < f) (hg : 0 < g) {r n : Nat} (hn : 1 ≤ n) :
    r + rescale g f (n - 1) ≤ rescale g f (rescale f g r + n) ∧
      rescale g f (rescale f g r + n) ≤ r + rescale g f n := by
  have hlow := rescale_mul_le g f (n - 1)
  have hlast := lt_rescale_succ_mul (g := g) hf r
  have hfirst := rescale_mul_le f g r
  constructor
  · rw [le_rescale_iff hg, Nat.add_mul]
    obtain ⟨k, rfl⟩ : ∃ k, n = k + 1 := ⟨n - 1, by omega⟩
    rw [Nat.add_sub_cancel] at hlow ⊢
    calc r * g + rescale g f k * g ≤ (rescale f g r + 1) * f + k * f := by omega
      _ = (rescale f g r + (k + 1)) * f := by rw [← Nat.add_mul, Nat.add_assoc, Nat.add_comm 1]
  · have hmono : (rescale f g r + n) * f ≤ r * g + n * f := by
      rw [Nat.add_mul]
      omega
    calc rescale g f (rescale f g r + n) ≤ (r * g + n * f) / g := Nat.div_le_div_right hmono
      _ = r + rescale g f n := by
          rw [rescale, Nat.add_comm, Nat.add_mul_div_right _ _ hg, Nat.add_comm]

end Rescaling
