import BaremetalCrt.Library.Segments
import Mathlib.Data.Nat.Count

/-!
# How many cells of a table are used

The cells of a table that satisfy a predicate are counted with `Nat.count`. A segment of
free cells bounds the count from above, and clearing a window of the table takes exactly
the cells of the window out of the count.
-/

namespace FreeSegments

variable {used used' : Nat → Prop} [DecidablePred used] [DecidablePred used']
variable {total off n : Nat}

/-- The count before a window, in it and behind it. -/
theorem count_window (used : Nat → Prop) [DecidablePred used] (h : off + n ≤ total) :
    Nat.count used total = Nat.count used off + Nat.count (fun k => used (off + k)) n +
      Nat.count (fun k => used (off + n + k)) (total - (off + n)) := by
  obtain ⟨rest, rfl⟩ := Nat.exists_eq_add_of_le h
  rw [Nat.add_sub_cancel_left, Nat.count_add, Nat.count_add]

/-- Two tables that agree on some cells have the same count there. -/
theorem count_congr (h : ∀ i < n, used i ↔ used' i) : Nat.count used n = Nat.count used' n :=
  Nat.le_antisymm (Nat.count_mono_left fun i hi => (h i hi).mp)
    (Nat.count_mono_left fun i hi => (h i hi).mpr)

/-- Clearing a window takes its cells out of the count. -/
theorem count_clear (used used' : Nat → Prop) [DecidablePred used] [DecidablePred used']
    (h : off + n ≤ total) (hin : ∀ i, off ≤ i → i < off + n → ¬ used' i)
    (hout : ∀ i, i < off ∨ off + n ≤ i → (used' i ↔ used i)) :
    Nat.count used' total + Nat.count (fun k => used (off + k)) n = Nat.count used total := by
  have hbefore : Nat.count used' off = Nat.count used off :=
    count_congr fun i hi => hout i (Or.inl hi)
  have hwindow : Nat.count (fun k => used' (off + k)) n = 0 := by
    rw [Nat.count_iff_forall_not]
    intro i hi
    exact hin (off + i) (by omega) (by omega)
  have hbehind : Nat.count (fun k => used' (off + n + k)) (total - (off + n)) =
      Nat.count (fun k => used (off + n + k)) (total - (off + n)) :=
    count_congr fun i _ => hout (off + n + i) (Or.inr (by omega))
  rw [count_window used' h, count_window used h, hbefore, hwindow, hbehind]
  omega

/-- Beside a segment of free cells there is not more room for used ones than is left. -/
theorem Seg.count_add_le {free : Nat → Prop} [DecidablePred free] {i : Nat}
    (h : Seg free total i n) : Nat.count (fun p => ¬ free p) total + n ≤ total := by
  have hwindow : Nat.count (fun k => ¬ free (i + k)) n = 0 := by
    rw [Nat.count_iff_forall_not]
    intro j hj
    exact not_not.mpr (h.2 j hj)
  have hbefore : Nat.count (fun p => ¬ free p) i ≤ i := Nat.count_le _
  have hbehind : Nat.count (fun k => ¬ free (i + n + k)) (total - (i + n)) ≤ total - (i + n) :=
    Nat.count_le _
  have hin := h.1
  rw [count_window _ hin, hwindow]
  omega

end FreeSegments
