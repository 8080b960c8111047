import BaremetalCrt.Library.Counting

/-!
# Rosters: slots that serve places

Two tables refer to each other. A slot can be in use, can be running, and can
name the place it runs at; a place can hold one slot as its reserve and one as
its task. The tables are consistent when the task entries and the running
slots mirror each other and every slot in use is held exactly once.
-/

variable {τ κ : Type*}

/-- The two tables. -/
@[ext]
structure Roster (τ κ : Type*) where
  avail : τ → Bool
  running : τ → Bool
  home : τ → Option κ
  reserve : κ → Option τ
  task : κ → Option τ

namespace Roster

section Consistent

variable [Fintype τ] [Fintype κ]

/-- Task entries and running slots mirror each other, and the slots in use are
counted by the entries of the places. -/
structure Consistent (r : Roster τ κ) : Prop where
  task_iff : ∀ c t, r.task c = some t ↔ r.running t = true ∧ r.home t = some c
  avail_of_running : ∀ t, r.running t = true → r.avail t = true
  count : held r.avail =
    held (fun c => (r.reserve c).isSome) + held (fun c => (r.task c).isSome)

variable {r : Roster τ κ} {t : τ} {c : κ}

/-- A slot that is not in use is the task of no place. -/
theorem Consistent.task_ne (h : r.Consistent) (ht : r.avail t = false) (c : κ) :
    r.task c ≠ some t := by
  intro hc
  have hrun := ((h.task_iff c t).mp hc).1
  rw [h.avail_of_running t hrun] at ht
  exact Bool.noConfusion ht

/-- The task of a place names that place. -/
theorem Consistent.home_eq (h : r.Consistent) {c' : κ} (hc : r.task c = some t)
    (hhome : r.home t = some c') : c = c' :=
  Option.some.inj (((h.task_iff c t).mp hc).2.symm.trans hhome)

theorem Consistent.task_unique (h : r.Consistent) {c c' : κ} (hc : r.task c = some t)
    (hc' : r.task c' = some t) : c = c' := by
  exact h.home_eq hc ((h.task_iff c' t).mp hc').2

/-- With two slots for each place, a place without a task leaves a slot out of use. -/
theorem Consistent.exists_free (h : r.Consistent)
    (hcard : Fintype.card τ = 2 * Fintype.card κ) (hc : r.task c = none) :
    ∃ t, r.avail t = false := by
  apply exists_clear_of_held_lt
  have htask : held (fun c => (r.task c).isSome) < Fintype.card κ :=
    held_lt_card (a := c) (by rw [hc]; rfl)
  have hreserve := held_le fun c => (r.reserve c).isSome
  rw [h.count, hcard]
  omega

/-- Without any slot in use the tables are consistent. -/
theorem Consistent.of_empty (havail : ∀ t, r.avail t = false) (hrun : ∀ t, r.running t = false)
    (hreserve : ∀ c, r.reserve c = none) (htask : ∀ c, r.task c = none) : r.Consistent where
  task_iff := fun c t => by simp [htask, hrun]
  avail_of_running := fun t h => absurd h (by simp [hrun])
  count := by simp [held, havail, hreserve, htask]

end Consistent

/-- Every slot that a place holds is in use, a task names its place, and no reserve is held
twice or is a task. Postings that replace a task keep this. -/
structure Placed (r : Roster τ κ) : Prop where
  task_avail : ∀ c t, r.task c = some t → r.avail t = true
  task_home : ∀ c t, r.task c = some t → r.home t = some c
  task_reserve : ∀ c d t, r.task c = some t → r.reserve d ≠ some t
  reserve_avail : ∀ c t, r.reserve c = some t → r.avail t = true
  reserve_unique : ∀ c d t, r.reserve c = some t → r.reserve d = some t → c = d

theorem Placed.of_empty {r : Roster τ κ} (hreserve : ∀ c, r.reserve c = none)
    (htask : ∀ c, r.task c = none) : r.Placed where
  task_avail := by simp [htask]
  task_home := by simp [htask]
  task_reserve := by simp [htask]
  reserve_avail := by simp [hreserve]
  reserve_unique := by simp [hreserve]

/-- A slot out of use is the reserve of no place. -/
theorem Placed.reserve_ne {r : Roster τ κ} (h : r.Placed) {t i : τ} {c : κ}
    (ht : r.avail t = false) (hi : r.reserve c = some i) : i ≠ t := by
  rintro rfl
  exact absurd (h.reserve_avail c i hi) (by simp [ht])

/-- A slot out of use is the task of no place. -/
theorem Placed.task_ne {r : Roster τ κ} (h : r.Placed) {t i : τ} {c : κ}
    (ht : r.avail t = false) (hi : r.task c = some i) : i ≠ t := by
  rintro rfl
  exact absurd (h.task_avail c i hi) (by simp [ht])

section Operations

variable [DecidableEq τ] [DecidableEq κ]

/-- Take a slot into use. -/
def take (r : Roster τ κ) (t : τ) : Roster τ κ :=
  { r with
    avail := Function.update r.avail t true
    running := Function.update r.running t false }

/-- Make a slot the task of a place. -/
def post (r : Roster τ κ) (t : τ) (c : κ) : Roster τ κ :=
  { r with
    running := Function.update r.running t true
    home := Function.update r.home t (some c)
    task := Function.update r.task c (some t) }

/-- Make a slot the reserve of a place. -/
def keep (r : Roster τ κ) (t : τ) (c : κ) : Roster τ κ :=
  { r with reserve := Function.update r.reserve c (some t) }

/-- Undo the posting of a slot at a place. -/
def withdraw (r : Roster τ κ) (t : τ) (c : κ) : Roster τ κ :=
  { r with
    running := Function.update r.running t false
    home := Function.update r.home t none
    task := Function.update r.task c none }

/-- Give a slot back. -/
def drop (r : Roster τ κ) (t : τ) : Roster τ κ :=
  { r with avail := Function.update r.avail t false }

/-- A slot out of use that is hired for an empty place and dismissed leaves no trace in the
tables, apart from its home. -/
theorem dismiss_of_hire {r : Roster τ κ} {t : τ} {c : κ} (ht : r.avail t = false)
    (hrun : r.running t = false) (hc : r.task c = none) :
    (((r.take t).post t c).withdraw t c).drop t =
      { r with home := Function.update r.home t none } := by
  ext1
  · change Function.update (Function.update r.avail t true) t false = r.avail
    rw [Function.update_idem, ← ht, Function.update_eq_self]
  · change Function.update (Function.update (Function.update r.running t false) t true) t false =
      r.running
    rw [Function.update_idem, Function.update_idem, ← hrun, Function.update_eq_self]
  · exact Function.update_idem ..
  · rfl
  · change Function.update (Function.update r.task c (some t)) c none = r.task
    rw [Function.update_idem, ← hc, Function.update_eq_self]

section Placed

variable {r : Roster τ κ} {t : τ} {c : κ}

/-- A slot out of use is taken and posted at a place, which may have a task. -/
theorem Placed.hire (h : r.Placed) (ht : r.avail t = false) (c : κ) :
    ((r.take t).post t c).Placed := by
  obtain ⟨havail, hhome, htask, hreserve, hunique⟩ := h
  constructor
  · simp only [post, take, Function.update_apply]
    grind
  · simp only [post, take, Function.update_apply]
    grind
  · simp only [post, take, Function.update_apply]
    grind
  · simp only [post, take, Function.update_apply]
    grind
  · exact hunique

/-- The task of a place is withdrawn and its slot given back. -/
theorem Placed.dismiss (h : r.Placed) (hc : r.task c = some t) :
    ((r.withdraw t c).drop t).Placed := by
  obtain ⟨havail, hhome, htask, hreserve, hunique⟩ := h
  have hcur := hhome c t hc
  have hown := htask c
  constructor
  · simp only [withdraw, drop, Function.update_apply]
    grind
  · simp only [withdraw, drop, Function.update_apply]
    grind
  · simp only [withdraw, drop, Function.update_apply]
    grind
  · simp only [withdraw, drop, Function.update_apply]
    grind
  · exact hunique

/-- A slot out of use is taken as the reserve of a place. -/
theorem Placed.settle (h : r.Placed) (ht : r.avail t = false) (c : κ) :
    ((r.take t).keep t c).Placed := by
  obtain ⟨havail, hhome, htask, hreserve, hunique⟩ := h
  constructor
  · simp only [keep, take, Function.update_apply]
    grind
  · exact hhome
  · simp only [keep, take, Function.update_apply]
    grind
  · simp only [keep, take, Function.update_apply]
    grind
  · simp only [keep, take, Function.update_apply]
    grind

end Placed

variable [Fintype τ] [Fintype κ] {r : Roster τ κ} {t : τ} {c : κ}

/-- A slot out of use is taken and posted at a place without a task. -/
theorem Consistent.hire (h : r.Consistent) (ht : r.avail t = false) (hc : r.task c = none) :
    ((r.take t).post t c).Consistent where
  task_iff := fun c' t' => by
    have hother : t' = t → r.task c' ≠ some t' := fun he => he ▸ h.task_ne ht c'
    have hold := h.task_iff c' t'
    simp only [post, take, Function.update_apply]
    grind
  avail_of_running := fun t' => by
    have hold := h.avail_of_running t'
    simp only [post, take, Function.update_apply]
    grind
  count := by
    change held (Function.update r.avail t true) = held (fun c' => (r.reserve c').isSome) +
      held (fun c' => (Function.update r.task c (some t) c').isSome)
    rw [held_set ht, held_isSome_set hc, h.count]
    rfl

/-- The task of a place is withdrawn and its slot given back. -/
theorem Consistent.dismiss (h : r.Consistent) (hc : r.task c = some t) :
    ((r.withdraw t c).drop t).Consistent where
  task_iff := fun c' t' => by
    have hold := h.task_iff c' t'
    have hcur := h.task_iff c t
    simp only [withdraw, drop, Function.update_apply]
    grind
  avail_of_running := fun t' => by
    have hold := h.avail_of_running t'
    simp only [withdraw, drop, Function.update_apply]
    grind
  count := by
    have havail := h.avail_of_running t ((h.task_iff c t).mp hc).1
    have hslots := held_clear havail
    have htasks := held_isSome_clear hc
    have hcount := h.count
    change held (Function.update r.avail t false) = held (fun c' => (r.reserve c').isSome) +
      held (fun c' => (Function.update r.task c none c').isSome)
    omega

/-- A slot out of use is taken as the reserve of a place that has none. -/
theorem Consistent.settle (h : r.Consistent) (ht : r.avail t = false)
    (hc : r.reserve c = none) : ((r.take t).keep t c).Consistent where
  task_iff := fun c' t' => by
    have hother : t' = t → r.task c' ≠ some t' := fun he => he ▸ h.task_ne ht c'
    have hold := h.task_iff c' t'
    simp only [keep, take, Function.update_apply]
    grind
  avail_of_running := fun t' => by
    have hold := h.avail_of_running t'
    simp only [keep, take, Function.update_apply]
    grind
  count := by
    change held (Function.update r.avail t true) =
      held (fun c' => (Function.update r.reserve c (some t) c').isSome) +
        held (fun c' => (r.task c').isSome)
    rw [held_set ht, held_isSome_set hc, h.count]
    exact Nat.add_right_comm _ _ _

end Operations

end Roster
