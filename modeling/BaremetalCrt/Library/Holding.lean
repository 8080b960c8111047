import Mathlib.Logic.Function.Basic

/-!
# Holding things exclusively

Every actor holds at most one thing. A table of owners, such as a table of
locks, keeps the holdings apart; holdings can also be kept apart without one.
One lock alone is the system of its acquisitions and releases.
-/

variable {α κ : Type*} {held : α → Option κ} {owner : κ → Option α}

/-- No two actors hold the same thing. -/
def Exclusive (held : α → Option κ) : Prop :=
  ∀ p q c, held p = some c → held q = some c → p = q

/-- Every actor is the recorded owner of what it holds. -/
def Granted (owner : κ → Option α) (held : α → Option κ) : Prop :=
  ∀ p c, held p = some c → owner c = some p

theorem Granted.exclusive (h : Granted owner held) : Exclusive held := by
  intro p q c hp hq
  exact Option.some.inj ((h p c hp).symm.trans (h q c hq))

section Update

variable [DecidableEq α] {p : α} {x : Option κ}

/-- An actor may take what no other actor holds. -/
theorem Exclusive.update (h : Exclusive held)
    (hx : ∀ q c, q ≠ p → held q = some c → x ≠ some c) :
    Exclusive (Function.update held p x) := by
  intro q r c hq hr
  by_cases hqp : q = p
  · by_cases hrp : r = p
    · exact hqp.trans hrp.symm
    · rw [hqp, Function.update_self] at hq
      rw [Function.update_of_ne hrp] at hr
      exact absurd hq (hx r c hrp hr)
  · rw [Function.update_of_ne hqp] at hq
    by_cases hrp : r = p
    · rw [hrp, Function.update_self] at hr
      exact absurd hr (hx q c hqp hq)
    · rw [Function.update_of_ne hrp] at hr
      exact h q r c hq hr

/-- An actor that moves without giving back or taking a lock; it may forget one. -/
theorem Granted.keep (h : Granted owner held) (hx : x = none ∨ x = held p) :
    Granted owner (Function.update held p x) := by
  intro q c hq
  by_cases hqp : q = p
  · subst q
    rw [Function.update_self] at hq
    rcases hx with hnone | hsame
    · exact absurd (hnone.symm.trans hq) (by simp)
    · exact h p c (hsame.symm.trans hq)
  · rw [Function.update_of_ne hqp] at hq
    exact h q c hq

variable [DecidableEq κ] {c : κ}

/-- A free lock is taken. -/
theorem Granted.acquire (h : Granted owner held) (hfree : owner c = none) :
    Granted (Function.update owner c (some p)) (Function.update held p (some c)) := by
  intro q d hq
  by_cases hqp : q = p
  · subst q
    rw [Function.update_self] at hq
    rw [← Option.some.inj hq, Function.update_self]
  · rw [Function.update_of_ne hqp] at hq
    have hd : d ≠ c := by
      rintro rfl
      exact absurd (hfree.symm.trans (h q d hq)) (by simp)
    rw [Function.update_of_ne hd]
    exact h q d hq

/-- A lock is given back. -/
theorem Granted.release (h : Granted owner held) (hc : held p = some c) :
    Granted (Function.update owner c none) (Function.update held p none) := by
  intro q d hq
  by_cases hqp : q = p
  · subst q
    rw [Function.update_self] at hq
    exact absurd hq (by simp)
  · rw [Function.update_of_ne hqp] at hq
    have hd : d ≠ c := by
      rintro rfl
      exact hqp (h.exclusive q p d hq hc)
    rw [Function.update_of_ne hd]
    exact h q d hq

end Update

/-- What happens to one lock. -/
inductive LockEvent (α : Type*) where
  | acquire (p : α)
  | release (p : α)

/-- One lock, as the actor that holds it: it is taken while it is free, and given back by
the actor that took it. -/
def lockStep [DecidableEq α] : Option α → LockEvent α → Option (Option α)
  | none, .acquire p => some (some p)
  | some q, .release p => if p = q then some none else none
  | _, _ => none
