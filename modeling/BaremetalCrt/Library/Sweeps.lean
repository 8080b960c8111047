import Mathlib.Data.Finset.Card
import Mathlib.Data.Fintype.Card
import Mathlib.Logic.Relation
import Mathlib.Order.WellFounded
import Mathlib.Data.Fintype.Order

/-!
# Sweeps over elements that need each other

A sweep goes over a list and marks every element whose needs are marked when its
turn comes. If no element needs itself, directly or through others, then every
sweep over a closed list marks at least one more element until all are marked,
whatever the order of the list is.
-/

variable {α : Type*} [DecidableEq α]

open Classical in
/-- Mark an element if everything that it needs is marked. -/
noncomputable def mark (needs : α → α → Prop) (m : Finset α) (a : α) : Finset α :=
  if ∀ b, needs a b → b ∈ m then insert a m else m

/-- Go over a list once. -/
noncomputable def sweep (needs : α → α → Prop) (as : List α) (m : Finset α) : Finset α :=
  as.foldl (mark needs) m

/-- The number of elements that are not marked. -/
def pending (as : List α) (m : Finset α) : Nat := (as.toFinset \ m).card

section Sweep

variable {needs : α → α → Prop} {m : Finset α} {as : List α} {a x : α}

theorem mem_mark : x ∈ mark needs m a ↔ x ∈ m ∨ x = a ∧ ∀ b, needs a b → b ∈ m := by
  unfold mark
  split
  · rename_i hready
    rw [Finset.mem_insert, or_comm, and_iff_left hready]
  · rename_i hwait
    rw [iff_false_intro hwait, and_false, or_false]

theorem subset_mark : m ⊆ mark needs m a := fun _ hx => mem_mark.mpr (Or.inl hx)

theorem mark_of_ready (h : ∀ b, needs a b → b ∈ m) : mark needs m a = insert a m := if_pos h

theorem mark_of_not_ready (h : ¬ ∀ b, needs a b → b ∈ m) : mark needs m a = m := if_neg h

theorem mark_of_mem (ha : a ∈ m) : mark needs m a = m := by
  by_cases h : ∀ b, needs a b → b ∈ m
  · rw [mark_of_ready h, Finset.insert_eq_of_mem ha]
  · exact mark_of_not_ready h

theorem subset_sweep : m ⊆ sweep needs as m := by
  induction as generalizing m with
  | nil => exact Finset.Subset.refl m
  | cons a as ih => exact subset_mark.trans ih

/-- What is not in the list is left alone. -/
theorem mem_sweep_of_notMem (hx : x ∉ as) : x ∈ sweep needs as m ↔ x ∈ m := by
  induction as generalizing m with
  | nil => exact Iff.rfl
  | cons a as ih =>
      obtain ⟨hne, hx⟩ := List.ne_and_not_mem_of_not_mem_cons hx
      calc
        x ∈ sweep needs (a :: as) m ↔ x ∈ mark needs m a := ih hx
        _ ↔ x ∈ m := by simp [mem_mark, hne]

/-- What is ready before a sweep is marked by it. -/
theorem mem_sweep_of_ready (ha : a ∈ as) (hready : ∀ b, needs a b → b ∈ m) :
    a ∈ sweep needs as m := by
  induction as generalizing m with
  | nil => exact absurd ha List.not_mem_nil
  | cons c as ih =>
      rcases List.mem_cons.mp ha with rfl | ha
      · have hmark : a ∈ mark needs m a := mem_mark.mpr (Or.inr ⟨rfl, hready⟩)
        change a ∈ sweep needs as (mark needs m a)
        exact subset_sweep hmark
      · exact ih ha fun b hb => subset_mark (hready b hb)

variable [Finite α]

/-- While something is not marked, a sweep marks something. -/
theorem exists_mem_sweep (hacyclic : ∀ a, ¬ Relation.TransGen needs a a)
    (hclosed : ∀ a ∈ as, ∀ b, needs a b → b ∈ as) (ha : a ∈ as) (hm : a ∉ m) :
    ∃ c ∈ as, c ∉ m ∧ c ∈ sweep needs as m := by
  -- an element with nothing below it that is not marked is ready
  let below := fun b a => Relation.TransGen needs a b
  have htrans : IsTrans α below := ⟨fun _ _ _ hab hbc => hbc.trans hab⟩
  have hirrefl : Std.Irrefl below := ⟨hacyclic⟩
  have hwf : WellFounded below := Finite.wellFounded_of_trans_of_irrefl below
  obtain ⟨c, ⟨hc, hcm⟩, hmin⟩ := hwf.has_min {c | c ∈ as ∧ c ∉ m} ⟨a, ha, hm⟩
  refine ⟨c, hc, hcm, mem_sweep_of_ready hc fun b hb => ?_⟩
  by_contra hbm
  exact hmin b ⟨hclosed c hc b hb, hbm⟩ (Relation.TransGen.single hb)

/-- While something is not marked, a sweep leaves less to be marked. -/
theorem pending_sweep_lt (hacyclic : ∀ a, ¬ Relation.TransGen needs a a)
    (hclosed : ∀ a ∈ as, ∀ b, needs a b → b ∈ as) (ha : a ∈ as) (hm : a ∉ m) :
    pending as (sweep needs as m) < pending as m := by
  obtain ⟨c, hc, hcm, hsweep⟩ := exists_mem_sweep hacyclic hclosed ha hm
  apply Finset.card_lt_card
  apply Finset.ssubset_iff_subset_ne.mpr
  refine ⟨Finset.sdiff_subset_sdiff (Finset.Subset.refl _) subset_sweep, fun heq => ?_⟩
  have hmem : c ∈ as.toFinset \ m := Finset.mem_sdiff.mpr ⟨List.mem_toFinset.mpr hc, hcm⟩
  rw [← heq] at hmem
  exact (Finset.mem_sdiff.mp hmem).2 hsweep

end Sweep

theorem pending_pos {as : List α} {m : Finset α} {a : α} (ha : a ∈ as) (hm : a ∉ m) :
    0 < pending as m :=
  Finset.card_pos.mpr ⟨a, Finset.mem_sdiff.mpr ⟨List.mem_toFinset.mpr ha, hm⟩⟩

theorem pending_le_length (as : List α) (m : Finset α) : pending as m ≤ as.length :=
  (Finset.card_le_card Finset.sdiff_subset).trans as.toFinset_card_le
