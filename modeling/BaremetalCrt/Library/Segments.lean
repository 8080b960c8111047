import Mathlib.Data.Nat.Basic
import Mathlib.Tactic.Cases
import Mathlib.Tactic.Push
import Mathlib.Tactic.ByContra

/-!
# Segments of free cells in a table

A table has the cells `0, ..., total - 1`, and each of them is free or used.
A segment is a block of consecutive free cells inside the table; a maximal
segment can be extended on neither side. A first-fit search that looks at
maximal segments from left to right is judged here by what lies before the
segment it stops at.
-/

namespace FreeSegments

variable {free : Nat → Prop} {total : Nat}

/-- `n` consecutive free cells from `i` on, all inside the table. -/
def Seg (free : Nat → Prop) (total i n : Nat) : Prop :=
  i + n ≤ total ∧ ∀ j < n, free (i + j)

/-- A nonempty segment that is bounded by a used cell or by the table on both sides. -/
structure MaxSeg (free : Nat → Prop) (total i n : Nat) : Prop where
  pos : 0 < n
  seg : Seg free total i n
  left : i = 0 ∨ ¬ free (i - 1)
  right : i + n = total ∨ ¬ free (i + n)

theorem Seg.shorter {i n m : Nat} (h : Seg free total i n) (hm : m ≤ n) :
    Seg free total i m :=
  ⟨by have := h.1; omega, fun j hj => h.2 j (by omega)⟩

theorem Seg.cell {i n p : Nat} (h : Seg free total i n) (h₁ : i ≤ p) (h₂ : p < i + n) :
    free p := by
  have hp := h.2 (p - i) (by omega)
  rwa [show i + (p - i) = p by omega] at hp

/-- A segment that starts where a maximal one does is not longer than it. -/
theorem MaxSeg.le_of_seg {i n m : Nat} (h : MaxSeg free total i n)
    (hm : Seg free total i m) : m ≤ n := by
  by_contra hlt
  rcases h.right with he | hu
  · have := hm.1
    omega
  · exact hu (hm.cell (by omega) (by omega))

theorem MaxSeg.length_unique {i n m : Nat} (hn : MaxSeg free total i n)
    (hm : MaxSeg free total i m) : n = m :=
  Nat.le_antisymm (hm.le_of_seg hn.seg) (hn.le_of_seg hm.seg)

theorem MaxSeg.free_start {i n : Nat} (h : MaxSeg free total i n) : free i := by
  simpa using h.seg.2 0 h.pos

theorem MaxSeg.start_lt {i n : Nat} (h : MaxSeg free total i n) : i < total := by
  have hpos := h.pos
  have hin := h.seg.1
  omega

/-- Two maximal segments are the same or leave a used cell between them. -/
theorem MaxSeg.eq_or_after {i n j m : Nat} (hi : MaxSeg free total i n)
    (hj : MaxSeg free total j m) (hle : i ≤ j) : j = i ∨ i + n < j := by
  by_contra hcon
  push Not at hcon
  obtain ⟨hne, hnot⟩ := hcon
  rcases Nat.lt_or_ge j (i + n) with hin | hout
  · -- `j - 1` is a free cell of the first segment
    rcases hj.left with h0 | hused
    · omega
    · exact hused (hi.seg.cell (by omega) (by omega))
  · obtain rfl : j = i + n := by omega
    rcases hi.right with hend | hused
    · have := hj.start_lt
      omega
    · exact hused hj.free_start

/-- Extend a segment to the right as far as the table and the used cells allow. -/
theorem Seg.extend_right {i n : Nat} (h : Seg free total i n) :
    ∃ m, n ≤ m ∧ Seg free total i m ∧ (i + m = total ∨ ¬ free (i + m)) := by
  obtain ⟨k, hk⟩ : ∃ k, i + n + k = total := ⟨total - (i + n), by have := h.1; omega⟩
  induction k generalizing n with
  | zero => exact ⟨n, le_rfl, h, Or.inl (by omega)⟩
  | succ k ih =>
      by_cases hf : free (i + n)
      · have hs : Seg free total i (n + 1) := by
          refine ⟨by omega, fun j hj => ?_⟩
          rcases Nat.lt_succ_iff_lt_or_eq.mp hj with hlt | rfl
          · exact h.2 j hlt
          · exact hf
        obtain ⟨m, hm, hseg, hstop⟩ := ih hs (by omega)
        exact ⟨m, by omega, hseg, hstop⟩
      · exact ⟨n, le_rfl, h, Or.inr hf⟩

/-- Extend a segment to the left as far as the table and the used cells allow. -/
theorem Seg.extend_left {i n : Nat} (h : Seg free total i n) :
    ∃ k ≤ i, Seg free total k (n + (i - k)) ∧ (k = 0 ∨ ¬ free (k - 1)) := by
  induction i generalizing n with
  | zero => exact ⟨0, le_rfl, by simpa using h, Or.inl rfl⟩
  | succ i ih =>
      by_cases hf : free i
      · have hs : Seg free total i (n + 1) := by
          refine ⟨by have := h.1; omega, fun j hj => ?_⟩
          rcases Nat.eq_zero_or_pos j with rfl | hpos
          · exact hf
          · exact h.cell (by omega) (by omega)
        obtain ⟨k, hk, hseg, hstop⟩ := ih hs
        refine ⟨k, by omega, ?_, hstop⟩
        rwa [show n + (i + 1 - k) = n + 1 + (i - k) by omega]
      · exact ⟨i + 1, le_rfl, by simpa using h, Or.inr (by simpa using hf)⟩

/-- A free cell with no free cell on its left starts a maximal segment. -/
theorem exists_maxSeg_at {i : Nat} (hi : i < total) (hf : free i)
    (hl : i = 0 ∨ ¬ free (i - 1)) : ∃ n, MaxSeg free total i n := by
  have hs : Seg free total i 1 := by
    refine ⟨by omega, fun j hj => ?_⟩
    obtain rfl : j = 0 := by omega
    exact hf
  obtain ⟨m, hm, hseg, hstop⟩ := hs.extend_right
  exact ⟨m, by omega, hseg, hl, hstop⟩

/-- Every nonempty segment lies in a maximal one that does not start after it. -/
theorem Seg.exists_maxSeg {i n : Nat} (h : Seg free total i n) (hn : 0 < n) :
    ∃ k m, k ≤ i ∧ n ≤ m ∧ MaxSeg free total k m := by
  obtain ⟨k, hk, hseg, hl⟩ := h.extend_left
  obtain ⟨m, hm, hmax, hr⟩ := hseg.extend_right
  exact ⟨k, m, hk, by omega, by omega, hmax, hl, hr⟩

/-- No maximal segment of exactly `req - 1` cells comes before the first
segment of `req` cells. -/
def NoShort (free : Nat → Prop) (total req : Nat) : Prop :=
  ∀ i n, MaxSeg free total i n → n + 1 = req → ∃ j < i, Seg free total j req

/-- `p` starts the first maximal segment that is at most one cell too short for `req`. -/
def FirstNear (free : Nat → Prop) (total req p : Nat) : Prop :=
  ∃ n, MaxSeg free total p n ∧ req ≤ n + 1 ∧
    ∀ i m, MaxSeg free total i m → i < p → m + 1 < req

/-- The first segment that is at most one cell too short is long enough exactly
when no segment of `req - 1` cells comes before the first sufficient one. -/
theorem FirstNear.seg_iff_noShort {req p : Nat} (h : FirstNear free total req p) :
    Seg free total p req ↔ NoShort free total req := by
  obtain ⟨n, hmax, hreq, hfirst⟩ := h
  constructor
  · intro hseg i m hm hshort
    have hn : req ≤ n := hmax.le_of_seg hseg
    rcases Nat.lt_trichotomy i p with hlt | rfl | hgt
    · have := hfirst i m hm hlt
      omega
    · have := hmax.length_unique hm
      omega
    · exact ⟨p, hgt, hseg⟩
  · intro hno
    rcases Nat.lt_or_ge n req with hlt | hge
    · obtain ⟨j, hj, hseg⟩ := hno p n hmax (by omega)
      have hpos := hmax.pos
      obtain ⟨k, m, hk, hm, hkm⟩ := hseg.exists_maxSeg (by omega)
      have := hfirst k m hkm (by omega)
      omega
    · exact hmax.seg.shorter hge

/-- Without any segment that is at most one cell too short there is no short one either. -/
theorem noShort_of_no_near {req : Nat}
    (h : ∀ i m, MaxSeg free total i m → m + 1 < req) : NoShort free total req := by
  intro i n hn hshort
  have := h i n hn
  omega

/-- A table without used cells has no segment that is too short but its own. -/
theorem noShort_of_all_free {req : Nat} (hfree : ∀ p, free p) (hreq : req ≤ total) :
    NoShort free total req := by
  intro i n hn hshort
  have hi : i = 0 := hn.left.resolve_right (not_not.mpr (hfree _))
  have hend : i + n = total := hn.right.resolve_right (not_not.mpr (hfree _))
  omega

end FreeSegments
