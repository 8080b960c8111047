import Mathlib.Data.Fintype.Card
import Mathlib.Tactic.Push
import Mathlib.Tactic.ByContra

/-!
# Counting set entries

The number of set entries of a finite table of flags, and how it follows
single writes.
-/

variable {τ κ : Type*}

/-- The number of entries that are set. -/
def held [Fintype τ] (f : τ → Bool) : Nat := (Finset.univ.filter fun a => f a = true).card

section Held

variable [Fintype τ] [DecidableEq τ] {f : τ → Bool} {a : τ}

theorem held_set (h : f a = false) : held (Function.update f a true) = held f + 1 := by
  have hset : (Finset.univ.filter fun b => Function.update f a true b = true) =
      insert a (Finset.univ.filter fun b => f b = true) := by
    ext b
    by_cases hb : b = a
    · subst b
      simp
    · simp [hb]
  have hnew : a ∉ Finset.univ.filter fun b => f b = true := by simp [h]
  rw [held, hset, Finset.card_insert_of_notMem hnew]
  rfl

theorem held_clear (h : f a = true) : held (Function.update f a false) + 1 = held f := by
  have hback : Function.update (Function.update f a false) a true = f := by
    rw [Function.update_idem, ← h, Function.update_eq_self]
  have hset := held_set (f := Function.update f a false) (Function.update_self a false f)
  rw [hback] at hset
  exact hset.symm

omit [DecidableEq τ] in
theorem held_le (f : τ → Bool) : held f ≤ Fintype.card τ := Finset.card_filter_le _ _

omit [DecidableEq τ] in
theorem held_mono {g : τ → Bool} (h : ∀ b, f b = true → g b = true) : held f ≤ held g :=
  Finset.card_le_card (Finset.monotone_filter_right _ fun b _ => h b)

omit [DecidableEq τ] in
theorem held_lt_card (h : f a = false) : held f < Fintype.card τ := by
  apply Finset.card_lt_univ_of_notMem (x := a)
  simp [h]

omit [DecidableEq τ] in
theorem exists_clear_of_held_lt (h : held f < Fintype.card τ) : ∃ a, f a = false := by
  by_contra hall
  push Not at hall
  apply h.ne
  apply Finset.card_filter_eq_iff.mpr
  intro b _
  exact Bool.eq_true_of_not_eq_false (hall b)

/-- Filling an empty entry is counted once. -/
theorem held_isSome_set {e : τ → Option κ} (h : e a = none) (x : κ) :
    held (fun b => (Function.update e a (some x) b).isSome) =
      held (fun b => (e b).isSome) + 1 := by
  have hupd : (fun b => (Function.update e a (some x) b).isSome) =
      Function.update (fun b => (e b).isSome) a true := by
    funext b
    by_cases hb : b = a
    · subst b
      simp
    · simp [hb]
  rw [hupd, held_set]
  simp [h]

theorem held_isSome_clear {e : τ → Option κ} {x : κ} (h : e a = some x) :
    held (fun b => (Function.update e a none b).isSome) + 1 =
      held (fun b => (e b).isSome) := by
  have hupd : (fun b => (Function.update e a none b).isSome) =
      Function.update (fun b => (e b).isSome) a false := by
    funext b
    by_cases hb : b = a
    · subst b
      simp
    · simp [hb]
  rw [hupd, held_clear]
  simp [h]

end Held
