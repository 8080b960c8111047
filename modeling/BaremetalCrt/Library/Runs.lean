import Mathlib.Data.List.Basic
import Mathlib.Tactic.Cases

/-!
# Runs of labelled partial systems

A system is a partial step function on states and labels. A run executes a
list of labels from a start state; it exists when every label is enabled
where it is taken. Conditions on steps see the state before the step and the
label, never the state after it.
-/

namespace LabelledSystem

variable {σ ι : Type*} (step : σ → ι → Option σ)

/-- Execute the labels in order, or fail at the first label that is not enabled. -/
def exec : σ → List ι → Option σ
  | s, [] => some s
  | s, l :: ls => (step s l).bind fun s' => exec s' ls

@[simp] theorem exec_nil (s : σ) : exec step s [] = some s := rfl

theorem exec_cons_iff {s t : σ} {l : ι} {ls : List ι} :
    exec step s (l :: ls) = some t ↔
      ∃ s', step s l = some s' ∧ exec step s' ls = some t := by
  simp [exec, Option.bind_eq_some_iff]

theorem exec_append_iff {s t : σ} {ls ms : List ι} :
    exec step s (ls ++ ms) = some t ↔
      ∃ m, exec step s ls = some m ∧ exec step m ms = some t := by
  induction ls generalizing s with
  | nil => simp
  | cons l ls ih =>
      simp only [List.cons_append, exec_cons_iff, ih]
      constructor
      · rintro ⟨s', hs, m, hm, ht⟩
        exact ⟨m, ⟨s', hs, hm⟩, ht⟩
      · rintro ⟨m, ⟨s', hs, hm⟩, ht⟩
        exact ⟨s', hs, m, hm, ht⟩

theorem exec_concat_iff {s t : σ} {ls : List ι} {l : ι} :
    exec step s (ls ++ [l]) = some t ↔ ∃ m, exec step s ls = some m ∧ step m l = some t := by
  simp [exec_append_iff, exec_cons_iff]

/-- A state is reachable when some run from the start state ends in it. -/
def Reachable (start s : σ) : Prop := ∃ ls, exec step start ls = some s

/-- `ok` holds of the state before each step of the run and of that step's label. -/
def Along (ok : σ → ι → Prop) : σ → List ι → Prop
  | _, [] => True
  | s, l :: ls => ok s l ∧ ∀ s', step s l = some s' → Along ok s' ls

/-- Conditions that can be tested can be tested along a run. -/
instance Along.instDecidable (ok : σ → ι → Prop) [∀ s l, Decidable (ok s l)] :
    ∀ (s : σ) (ls : List ι), Decidable (Along step ok s ls)
  | _, [] => isTrue trivial
  | s, l :: ls =>
      match h : step s l with
      | none => decidable_of_iff (ok s l) (by simp [Along, h])
      | some s' =>
          have := Along.instDecidable ok s' ls
          decidable_of_iff (ok s l ∧ Along step ok s' ls) (by simp [Along, h])

variable {step}

theorem Along.append {ok : σ → ι → Prop} {s m : σ} {ls ms : List ι}
    (h : Along step ok s (ls ++ ms)) (hm : exec step s ls = some m) :
    Along step ok m ms := by
  induction ls generalizing s with
  | nil =>
      obtain rfl : s = m := by simpa using hm
      exact h
  | cons l ls ih =>
      obtain ⟨s', hs, hm⟩ := (exec_cons_iff step).mp hm
      exact ih (h.2 s' hs) hm

/-- The condition holds at every position of the run. -/
theorem Along.at {ok : σ → ι → Prop} {s m : σ} {ls ms : List ι} {l : ι}
    (h : Along step ok s (ls ++ l :: ms)) (hm : exec step s ls = some m) : ok m l :=
  (h.append hm).1

theorem Along.left {ok : σ → ι → Prop} {s : σ} {ls ms : List ι}
    (h : Along step ok s (ls ++ ms)) : Along step ok s ls := by
  induction ls generalizing s with
  | nil => trivial
  | cons l ls ih => exact ⟨h.1, fun s' hs => ih (h.2 s' hs)⟩

theorem Along.concat {ok : σ → ι → Prop} {s m : σ} {ls : List ι} {l : ι}
    (h : Along step ok s ls) (hm : exec step s ls = some m) (hl : ok m l) :
    Along step ok s (ls ++ [l]) := by
  induction ls generalizing s with
  | nil =>
      obtain rfl : s = m := by simpa using hm
      exact ⟨hl, fun _ _ => trivial⟩
  | cons l' ls ih =>
      obtain ⟨s', hs, hm⟩ := (exec_cons_iff step).mp hm
      refine ⟨h.1, fun s'' hs' => ?_⟩
      obtain rfl := Option.some.inj (hs.symm.trans hs')
      exact ih (h.2 s' hs) hm

/-- A condition on the labels alone is checked on the list. -/
theorem Along.of_forall_mem {ok : ι → Prop} {s : σ} {ls : List ι} (h : ∀ l ∈ ls, ok l) :
    Along step (fun _ l => ok l) s ls := by
  induction ls generalizing s with
  | nil => trivial
  | cons l ls ih =>
      obtain ⟨hl, hls⟩ := List.forall_mem_cons.mp h
      exact ⟨hl, fun _ _ => ih hls⟩

/-- Where every label is enabled, the list can be checked from the run. -/
theorem Along.forall_mem {ok : ι → Prop} (htotal : ∀ s l, (step s l).isSome) {s : σ}
    {ls : List ι} (h : Along step (fun _ l => ok l) s ls) : ∀ l ∈ ls, ok l := by
  induction ls generalizing s with
  | nil => simp
  | cons l ls ih =>
      obtain ⟨hl, hrest⟩ := h
      obtain ⟨s', hs'⟩ := Option.isSome_iff_exists.mp (htotal s l)
      exact List.forall_mem_cons.mpr ⟨hl, ih (hrest s' hs')⟩

/-- Safety rule: an invariant kept by every step that meets the condition holds
at the end of every run whose steps all meet it. -/
theorem exec_invariant {ok : σ → ι → Prop} {I : σ → Prop}
    (hstep : ∀ s l s', I s → ok s l → step s l = some s' → I s')
    {s t : σ} {ls : List ι} (hs : I s) (hok : Along step ok s ls)
    (ht : exec step s ls = some t) : I t := by
  induction ls generalizing s with
  | nil =>
      obtain rfl : s = t := by simpa using ht
      exact hs
  | cons l ls ih =>
      obtain ⟨s', hl, ht⟩ := (exec_cons_iff step).mp ht
      exact ih (hstep s l s' hs hok.1 hl) (hok.2 s' hl) ht

/-- The rule for conditions on the labels alone. -/
theorem exec_invariant_of_labels {ok : ι → Prop} {I : σ → Prop} {s t : σ} {ls : List ι}
    (hs : I s) (hok : ∀ l ∈ ls, ok l) (ht : exec step s ls = some t)
    (hstep : ∀ s l s', I s → ok l → step s l = some s' → I s') : I t :=
  exec_invariant hstep hs (Along.of_forall_mem hok) ht

/-- The rule for systems without a condition on their steps. -/
theorem Reachable.invariant {I : σ → Prop}
    (hstep : ∀ s l s', I s → step s l = some s' → I s')
    {start t : σ} (h0 : I start) (h : Reachable step start t) : I t := by
  obtain ⟨ls, hls⟩ := h
  have hall : ∀ l ∈ ls, (fun _ : ι => True) l := fun _ _ => trivial
  exact exec_invariant_of_labels h0 hall hls fun s l s' hs _ hl => hstep s l s' hs hl

theorem Reachable.refl (s : σ) : Reachable step s s := ⟨[], rfl⟩

theorem Reachable.one {s s' : σ} {l : ι} (hl : step s l = some s') : Reachable step s s' :=
  ⟨[l], (exec_cons_iff step).mpr ⟨s', hl, rfl⟩⟩

theorem Reachable.trans {s t u : σ} (h : Reachable step s t) (h' : Reachable step t u) :
    Reachable step s u := by
  obtain ⟨ls, hls⟩ := h
  obtain ⟨ms, hms⟩ := h'
  exact ⟨ls ++ ms, (exec_append_iff step).mpr ⟨t, hls, hms⟩⟩

theorem Reachable.snoc {start s s' : σ} {l : ι} (h : Reachable step start s)
    (hl : step s l = some s') : Reachable step start s' :=
  h.trans (Reachable.one hl)

/-- Simulation rule: when every step is matched by a run of another system, possibly an
empty one, every reachable state is matched by a reachable one. -/
theorem Reachable.simulation {τ κ : Type*} {astep : τ → κ → Option τ} {R : σ → τ → Prop}
    (hstep : ∀ s l s' a, R s a → step s l = some s' → ∃ a', Reachable astep a a' ∧ R s' a')
    {start t : σ} {a : τ} (h0 : R start a) (h : Reachable step start t) :
    ∃ b, Reachable astep a b ∧ R t b := by
  refine Reachable.invariant (I := fun s => ∃ b, Reachable astep a b ∧ R s b) ?_
    ⟨a, Reachable.refl a, h0⟩ h
  rintro s l s' ⟨b, hb, hR⟩ hl
  obtain ⟨b', hb', hR'⟩ := hstep s l s' b hR hl
  exact ⟨b', hb.trans hb', hR'⟩

/-- What follows from an invariant and a condition on the steps holds along every
run whose steps meet the condition. -/
theorem Along.of_invariant {P Q : σ → ι → Prop} {I : σ → Prop}
    (hstep : ∀ s l s', I s → Q s l → step s l = some s' → I s')
    (himp : ∀ s l, I s → Q s l → P s l) {s : σ} (hs : I s) {ls : List ι}
    (h : Along step Q s ls) : Along step P s ls := by
  induction ls generalizing s with
  | nil => trivial
  | cons l ls ih =>
      obtain ⟨hq, hrest⟩ := h
      exact ⟨himp s l hs hq, fun s' hl => ih (hstep s l s' hs hq hl) (hrest s' hl)⟩

/-- A run whose steps all meet one condition meets another one at every step and keeps an
invariant, or a step breaks the other condition and what follows from that stays. -/
theorem along_or_broken {A ok : σ → ι → Prop} {J I : σ → Prop}
    (hkeep : ∀ s l s', J s → A s l → ok s l → step s l = some s' → J s')
    (hbreak : ∀ s l s', J s → A s l → ¬ ok s l → step s l = some s' → I s')
    (hstay : ∀ s l s', I s → A s l → step s l = some s' → I s') {s t : σ} (hs : J s)
    {ls : List ι} (hA : Along step A s ls) (ht : exec step s ls = some t) :
    Along step ok s ls ∧ J t ∨ ¬ Along step ok s ls ∧ I t := by
  induction ls generalizing s with
  | nil =>
      obtain rfl : s = t := by simpa using ht
      exact Or.inl ⟨trivial, hs⟩
  | cons l ls ih =>
      obtain ⟨s', hl, ht⟩ := (exec_cons_iff step).mp ht
      by_cases hok : ok s l
      · rcases ih (hkeep s l s' hs hA.1 hok hl) (hA.2 s' hl) ht with ⟨halong, hJ⟩ | ⟨hnot, hI⟩
        · refine Or.inl ⟨⟨hok, fun s'' hl' => ?_⟩, hJ⟩
          rwa [Option.some.inj (hl'.symm.trans hl)]
        · exact Or.inr ⟨fun halong => hnot (halong.2 s' hl), hI⟩
      · refine Or.inr ⟨fun halong => hok halong.1, ?_⟩
        exact exec_invariant hstay (hbreak s l s' hs hA.1 hok hl) (hA.2 s' hl) ht

/-- Two conditions that agree under an invariant agree along whole runs, when
each step that meets the second one keeps the invariant. -/
theorem along_congr {P Q : σ → ι → Prop} {I : σ → Prop}
    (hiff : ∀ s l, I s → (P s l ↔ Q s l))
    (hstep : ∀ s l s', I s → Q s l → step s l = some s' → I s')
    {s : σ} (hs : I s) (ls : List ι) : Along step P s ls ↔ Along step Q s ls := by
  constructor
  · intro h
    exact h.of_invariant (fun s l s' hi hp => hstep s l s' hi ((hiff s l hi).mp hp))
      (fun s l hi => (hiff s l hi).mp) hs
  · intro h
    exact h.of_invariant hstep (fun s l hi => (hiff s l hi).mpr) hs

end LabelledSystem
