import Mathlib.Data.Nat.Basic
import Mathlib.Tactic.Cases

/-!
# Loops with a bound on their iterations

A loop repeats its body as long as a condition holds. The first argument bounds the
iterations; a measure that goes down with every iteration says which bounds are enough.
A loop over a list can be followed by what it has seen so far.
-/

namespace BoundedLoop

variable {σ : Type*}

/-- Repeat the body while the condition holds, at most the given number of times. -/
def loop (cond : σ → Bool) (body : σ → σ) : Nat → σ → σ
  | 0, s => s
  | f + 1, s => if cond s then loop cond body f (body s) else s

variable {cond : σ → Bool} {body : σ → σ}

theorem loop_of_true {f : Nat} {s : σ} (h : cond s = true) :
    loop cond body (f + 1) s = loop cond body f (body s) :=
  if_pos h

theorem loop_of_false {f : Nat} {s : σ} (h : cond s = false) : loop cond body f s = s := by
  cases f with
  | zero => rfl
  | succ f => exact if_neg (by simp [h])

/-- What every iteration keeps holds after the loop. -/
theorem loop_invariant {I : σ → Prop} (hbody : ∀ s, cond s = true → I s → I (body s)) {f : Nat}
    {s : σ} (hs : I s) : I (loop cond body f s) := by
  induction f generalizing s with
  | zero => exact hs
  | succ f ih =>
      cases hcond : cond s with
      | false =>
          rw [loop_of_false hcond]
          exact hs
      | true =>
          rw [loop_of_true hcond]
          exact ih (hbody s hcond hs)

/-- With a bound that the measure does not exceed the loop ends by its condition. -/
theorem loop_done (cond : σ → Bool) (body : σ → σ) (μ : σ → Nat)
    (hbody : ∀ s, cond s = true → μ (body s) < μ s) {f : Nat} {s : σ} (hf : μ s ≤ f) :
    cond (loop cond body f s) = false := by
  induction f generalizing s with
  | zero =>
      cases hcond : cond s with
      | false => exact hcond
      | true =>
          have := hbody s hcond
          omega
  | succ f ih =>
      cases hcond : cond s with
      | false =>
          rw [loop_of_false hcond]
          exact hcond
      | true =>
          rw [loop_of_true hcond]
          have := hbody s hcond
          exact ih (by omega)

/-- A loop that runs until its measure is zero. -/
theorem loop_measure_zero {body : σ → σ} (μ : σ → Nat)
    (hbody : ∀ s, μ s ≠ 0 → μ (body s) < μ s) (s : σ) :
    μ (loop (fun s => decide (μ s ≠ 0)) body (μ s) s) = 0 := by
  have hdone := loop_done (fun s => decide (μ s ≠ 0)) body μ
    (fun s hs => hbody s (of_decide_eq_true hs)) (Nat.le_refl (μ s))
  exact not_not.mp (of_decide_eq_false hdone)

/-- What satisfies the equations of a loop is the loop, up to a view of its states. -/
theorem eq_loop_of_equations {τ : Type*} {e : σ → τ} {g : Nat → σ → τ}
    (hzero : ∀ s, g 0 s = e s)
    (htrue : ∀ f s, cond s = true → g (f + 1) s = g f (body s))
    (hfalse : ∀ f s, cond s = false → g (f + 1) s = e s) (f : Nat) (s : σ) :
    g f s = e (loop cond body f s) := by
  induction f generalizing s with
  | zero => exact hzero s
  | succ f ih =>
      cases hcond : cond s with
      | false => rw [hfalse f s hcond, loop_of_false hcond]
      | true => rw [htrue f s hcond, loop_of_true hcond, ih]

/-- What holds of the things seen so far holds of everything after a loop over a list. -/
theorem foldl_seen {α γ : Type*} {I : List γ → σ → Prop} {step : σ → α → σ} {part : α → List γ}
    {l : List α} (hstep : ∀ a ∈ l, ∀ seen s, I seen s → I (seen ++ part a) (step s a))
    {seen : List γ} {s : σ} (h : I seen s) : I (seen ++ l.flatMap part) (l.foldl step s) := by
  induction l generalizing seen s with
  | nil =>
      rw [List.flatMap_nil, List.append_nil]
      exact h
  | cons a l ih =>
      obtain ⟨ha, hl⟩ := List.forall_mem_cons.mp hstep
      rw [List.flatMap_cons, ← List.append_assoc]
      exact ih hl (ha seen s h)

end BoundedLoop
