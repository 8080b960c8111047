import Mathlib.Algebra.Ring.Int.Defs
import Mathlib.Tactic.Linarith
import Mathlib.Tactic.Ring

/-!
# Pairs with a carry

A number written as a high part that counts whole units of a base and a low part.
Sums and differences move one unit at most between the two parts, which is enough
when both operands are normal.
-/

/-- A high part in units of the base and a low part. -/
structure CarryPair (base : Int) where
  hi : Int
  lo : Int

namespace CarryPair

variable {base : Int}

/-- The number that a pair stands for. -/
def value (p : CarryPair base) : Int := p.hi * base + p.lo

/-- The low part is less than one unit. -/
def Normal (p : CarryPair base) : Prop := 0 ≤ p.lo ∧ p.lo < base

/-- The sum, with one carry. -/
def add (p q : CarryPair base) : CarryPair base :=
  if base ≤ p.lo + q.lo then ⟨p.hi + q.hi + 1, p.lo + q.lo - base⟩ else ⟨p.hi + q.hi, p.lo + q.lo⟩

/-- The difference, with one borrow. -/
def sub (p q : CarryPair base) : CarryPair base :=
  if p.lo - q.lo < 0 then ⟨p.hi - q.hi - 1, p.lo - q.lo + base⟩ else ⟨p.hi - q.hi, p.lo - q.lo⟩

theorem add_of_le {p q : CarryPair base} (h : base ≤ p.lo + q.lo) :
    p.add q = ⟨p.hi + q.hi + 1, p.lo + q.lo - base⟩ :=
  if_pos h

theorem add_of_not_le {p q : CarryPair base} (h : ¬base ≤ p.lo + q.lo) :
    p.add q = ⟨p.hi + q.hi, p.lo + q.lo⟩ :=
  if_neg h

theorem sub_of_lt {p q : CarryPair base} (h : p.lo - q.lo < 0) :
    p.sub q = ⟨p.hi - q.hi - 1, p.lo - q.lo + base⟩ :=
  if_pos h

theorem sub_of_not_lt {p q : CarryPair base} (h : ¬p.lo - q.lo < 0) :
    p.sub q = ⟨p.hi - q.hi, p.lo - q.lo⟩ :=
  if_neg h

theorem value_add (p q : CarryPair base) : (p.add q).value = p.value + q.value := by
  unfold add
  split
  · simp only [value]
    ring
  · simp only [value]
    ring

theorem value_sub (p q : CarryPair base) : (p.sub q).value = p.value - q.value := by
  unfold sub
  split
  · simp only [value]
    ring
  · simp only [value]
    ring

theorem Normal.add {p q : CarryPair base} (hp : p.Normal) (hq : q.Normal) : (p.add q).Normal := by
  obtain ⟨hp0, hp1⟩ := hp
  obtain ⟨hq0, hq1⟩ := hq
  unfold CarryPair.add Normal
  split
  · dsimp only
    omega
  · dsimp only
    omega

theorem Normal.sub {p q : CarryPair base} (hp : p.Normal) (hq : q.Normal) : (p.sub q).Normal := by
  obtain ⟨hp0, hp1⟩ := hp
  obtain ⟨hq0, hq1⟩ := hq
  unfold CarryPair.sub Normal
  split
  · dsimp only
    omega
  · dsimp only
    omega

/-- A difference that is added to a third number is a shift of that number. -/
theorem value_sub_add (p q r : CarryPair base) :
    ((p.sub q).add r).value = p.value + (r.value - q.value) := by
  rw [value_add, value_sub]
  ring

/-- A normal pair is determined by its number. -/
theorem Normal.eq_of_value {p q : CarryPair base} (hp : p.Normal) (hq : q.Normal)
    (h : p.value = q.value) : p = q := by
  obtain ⟨hp0, hp1⟩ := hp
  obtain ⟨hq0, hq1⟩ := hq
  have hbase : 0 < base := lt_of_le_of_lt hp0 hp1
  have hval : p.hi * base + p.lo = q.hi * base + q.lo := h
  have hhi : p.hi = q.hi := by
    by_contra hne
    rcases lt_or_gt_of_ne hne with hlt | hgt
    · have hstep : (p.hi + 1) * base ≤ q.hi * base :=
        Int.mul_le_mul_of_nonneg_right (by omega) hbase.le
      linarith [add_mul p.hi 1 base]
    · have hstep : (q.hi + 1) * base ≤ p.hi * base :=
        Int.mul_le_mul_of_nonneg_right (by omega) hbase.le
      linarith [add_mul q.hi 1 base]
  cases p
  cases q
  simp only at hhi hval
  subst hhi
  exact congrArg _ (by linarith)

end CarryPair
