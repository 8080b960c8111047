import Mathlib.Data.Fintype.Card
import Mathlib.Data.Fintype.EquivFin
import Mathlib.Tactic.ByContra

/-!
# Levels below a root

Every node has at most one parent and the root has none. The number of steps
from a node up to the root is then unique and less than the number of nodes,
although nodes that do not hang below the root may form cycles.
-/

variable {α : Type*} {up : α → Option α} {root : α}

/-- The node is `n` steps below the root. -/
def Level (up : α → Option α) (root : α) : Nat → α → Prop
  | 0, a => a = root
  | n + 1, a => ∃ b, up a = some b ∧ Level up root n b

theorem Level.unique (hroot : up root = none) {n m : Nat} {a : α} (hn : Level up root n a)
    (hm : Level up root m a) : n = m := by
  induction n generalizing m a with
  | zero =>
      cases m with
      | zero => rfl
      | succ m =>
          obtain rfl : a = root := hn
          obtain ⟨b, hb, -⟩ := hm
          exact absurd (hroot.symm.trans hb) (by simp)
  | succ n ih =>
      obtain ⟨b, hb, hn⟩ := hn
      cases m with
      | zero =>
          obtain rfl : a = root := hm
          exact absurd (hroot.symm.trans hb) (by simp)
      | succ m =>
          obtain ⟨c, hc, hm⟩ := hm
          obtain rfl : b = c := Option.some.inj (hb.symm.trans hc)
          exact congrArg Nat.succ (ih hn hm)

/-- There is a node at every level above a node. -/
theorem Level.exists_above {n m : Nat} {a : α} (h : Level up root n a) (hm : m ≤ n) :
    ∃ b, Level up root m b := by
  induction n generalizing a with
  | zero => exact ⟨a, by rwa [Nat.le_zero.mp hm]⟩
  | succ n ih =>
      rcases Nat.lt_or_eq_of_le hm with hlt | rfl
      · obtain ⟨b, -, hb⟩ := h
        exact ih hb (Nat.le_of_lt_succ hlt)
      · exact ⟨a, h⟩

theorem Level.lt_card [Fintype α] (hroot : up root = none) {n : Nat} {a : α}
    (h : Level up root n a) : n < Fintype.card α := by
  have hnode : ∀ m : Fin (n + 1), ∃ b, Level up root m b :=
    fun m => h.exists_above (Nat.le_of_lt_succ m.isLt)
  choose node hlevel using hnode
  have hinj : Function.Injective node := by
    intro i j hij
    have hj := hlevel j
    rw [← hij] at hj
    exact Fin.ext ((hlevel i).unique hroot hj)
  have hcard := Fintype.card_le_of_injective node hinj
  rw [Fintype.card_fin] at hcard
  exact hcard
