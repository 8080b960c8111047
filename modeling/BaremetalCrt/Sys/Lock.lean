import BaremetalCrt.Library.Holding
import BaremetalCrt.Library.Runs

/-!
# The generic spinlock

A lock is a word that is exchanged atomically and the number of the CPU that took it. The number
is written with plain stores: after the exchange that took the lock, and before the store that
gives it back. A CPU that takes the lock with `k_arch_gen_spinlock_trylock` alone leaves no
number.

## Implementation notes

Each access to the lock is one step, and the CPUs take their steps in any order. `k_spinlock_*`
pass on to the functions here. Locks are static objects and nothing calls `k_spinlock_init`, so a
lock starts with a zero word and with any number.
-/

namespace BaremetalCrt

open LabelledSystem

/-- `struct k_arch_gen_spinlock`. -/
structure SpinLock where
  val : Int
  id : Int
  deriving DecidableEq

/-- `k_aexchange`: the new value of the object, and the value that it had. -/
def kAexchange (obj arg : Int) : Int × Int := (arg, obj)

/-- `k_arch_gen_spinlock_init`. -/
def kArchGenSpinlockInit (lock : SpinLock) : SpinLock × Int :=
  ({ lock with val := 0, id := -1 }, 0)

/-- `k_arch_gen_spinlock_trylock`. -/
def kArchGenSpinlockTrylock (lock : SpinLock) : SpinLock × Int :=
  let (obj, val) := kAexchange lock.val 1
  ({ lock with val := obj }, val)

/-- Where a CPU is in the code of the lock. -/
inductive SpinPc where
  /-- It has not called, or its call gave the lock back or failed. -/
  | outside
  /-- In `k_arch_gen_spinlock_lock`, before the exchange. -/
  | spinning
  /-- In `k_arch_gen_spinlock_lock`, before the store of its number. -/
  | storeId
  /-- It returned from `k_arch_gen_spinlock_lock`. -/
  | locked
  /-- In `k_arch_gen_spinlock_trylock`, before the exchange. -/
  | trying
  /-- It returned from `k_arch_gen_spinlock_trylock` with the lock. -/
  | tried
  /-- In `k_arch_gen_spinlock_unlock`, before the store to `id`. -/
  | clearId
  /-- In `k_arch_gen_spinlock_unlock`, before the store to `val`. -/
  | clearVal
  deriving DecidableEq

/-- The functions that a CPU calls. -/
inductive SpinCall where
  | lock
  | trylock
  | unlock

/-- The start of a call. Only a CPU that has the lock gives it back. -/
def SpinPc.call : SpinPc → SpinCall → Option SpinPc
  | .outside, .lock => some .spinning
  | .outside, .trylock => some .trying
  | .locked, .unlock => some .clearId
  | .tried, .unlock => some .clearId
  | _, _ => none

/-- The next access to the lock by the CPU with the number `id`. -/
def SpinPc.access (id : Int) (lock : SpinLock) : SpinPc → Option (SpinLock × SpinPc)
  | .spinning =>
      let (lock, r) := kArchGenSpinlockTrylock lock
      some (lock, if r ≠ 0 then .spinning else .storeId)
  | .trying =>
      let (lock, val) := kArchGenSpinlockTrylock lock
      some (lock, if val ≠ 0 then .outside else .tried)
  | .storeId => some ({ lock with id := id }, .locked)
  | .clearId => some ({ lock with id := -1 }, .clearVal)
  | .clearVal => some ({ lock with val := 0 }, .outside)
  | .outside | .locked | .tried => none

/-- The CPU is between the exchange that took the lock and the store that gives it back. -/
def SpinPc.inside : SpinPc → Bool
  | .storeId | .locked | .tried | .clearId | .clearVal => true
  | .outside | .spinning | .trying => false

/-- A lock and the CPUs that use it. -/
structure SpinState (C : Type*) where
  lock : SpinLock
  pc : C → SpinPc

/-- A step of a CPU: it begins a call, or makes the next access of the one it is in. -/
inductive SpinStep (C : Type*) where
  | call (p : C) (c : SpinCall)
  | access (p : C)

/-- A lock that nobody has used, with what `id` holds. -/
def SpinState.start {C : Type*} (id : Int) : SpinState C := ⟨⟨0, id⟩, fun _ => .outside⟩

section Steps

variable {C : Type*}

/-- One CPU moves on and leaves the lock behind. -/
def SpinState.put [DecidableEq C] (s : SpinState C) (p : C) (lock : SpinLock) (pc : SpinPc) :
    SpinState C := ⟨lock, Function.update s.pc p pc⟩

/-- The steps of the CPUs, with the numbers that `k_cpu_get_current_id_phys` gives them. -/
def spinStep [DecidableEq C] (idPhys : C → Int) (s : SpinState C) :
    SpinStep C → Option (SpinState C)
  | .call p c => ((s.pc p).call c).map (s.put p s.lock)
  | .access p => ((s.pc p).access (idPhys p) s.lock).map fun (lock, pc) => s.put p lock pc

/-- What a step of a CPU does to the lock: nothing while it is outside and the lock is not free,
then it takes the lock, writes its number, starts to give the lock back and does so. -/
inductive SpinMove (id : Int) (lock : SpinLock) : SpinPc → SpinLock → SpinPc → Prop
  | wait {pc pc' : SpinPc} (hpc : pc.inside = false) (hpc' : pc'.inside = false) :
      SpinMove id lock pc lock pc'
  | refused {pc pc' : SpinPc} (hpc : pc.inside = false) (hpc' : pc'.inside = false)
      (hval : lock.val ≠ 0) : SpinMove id lock pc { lock with val := 1 } pc'
  | take {pc pc' : SpinPc} (hpc : pc.inside = false) (hval : lock.val = 0)
      (hpc' : pc' = .storeId ∨ pc' = .tried) : SpinMove id lock pc { lock with val := 1 } pc'
  | store : SpinMove id lock .storeId { lock with id := id } .locked
  | unlock {pc : SpinPc} (hpc : pc = .locked ∨ pc = .tried) : SpinMove id lock pc lock .clearId
  | clear : SpinMove id lock .clearId { lock with id := -1 } .clearVal
  | release : SpinMove id lock .clearVal { lock with val := 0 } .outside

/-- The lock has an owner in the abstract sense: it is the one CPU inside, the word tells
whether there is one, and after `k_arch_gen_spinlock_lock` its number is in the lock. -/
structure SpinOwner (idPhys : C → Int) (s : SpinState C) (owner : Option C) : Prop where
  inside_iff : ∀ p, (s.pc p).inside = true ↔ owner = some p
  val_eq : s.lock.val = if owner.isSome then 1 else 0
  id_eq : ∀ p, s.pc p = .locked → s.lock.id = idPhys p

section Moves

variable {pc pc' : SpinPc} {id : Int} {lock lock' : SpinLock}

theorem SpinPc.call_move {c : SpinCall} (h : pc.call c = some pc') (id : Int) (lock : SpinLock) :
    SpinMove id lock pc lock pc' := by
  cases pc <;> cases c <;> cases h
  · exact .wait rfl rfl
  · exact .wait rfl rfl
  · exact .unlock (Or.inl rfl)
  · exact .unlock (Or.inr rfl)

/-- The exchange takes a free lock and is refused by one that is taken. -/
theorem SpinMove.of_exchange {won lost : SpinPc} (hpc : pc.inside = false)
    (hlost : lost.inside = false) (hwon : won = .storeId ∨ won = .tried) :
    SpinMove id lock pc { lock with val := 1 } (if lock.val ≠ 0 then lost else won) := by
  by_cases hval : lock.val = 0
  · rw [if_neg (not_not.mpr hval)]
    exact .take hpc hval hwon
  · rw [if_pos hval]
    exact .refused hpc hlost hval

theorem SpinPc.access_move (h : pc.access id lock = some (lock', pc')) :
    SpinMove id lock pc lock' pc' := by
  cases pc with
  | outside => cases h
  | locked => cases h
  | tried => cases h
  | spinning =>
      cases h
      exact .of_exchange rfl rfl (Or.inl rfl)
  | trying =>
      cases h
      exact .of_exchange rfl rfl (Or.inr rfl)
  | storeId =>
      cases h
      exact .store
  | clearId =>
      cases h
      exact .clear
  | clearVal =>
      cases h
      exact .release

end Moves

variable {idPhys : C → Int} {s s' : SpinState C} {owner owner' : Option C} {p q : C}
  {lock : SpinLock} {pc pc' : SpinPc}

theorem SpinOwner.start (idPhys : C → Int) (id : Int) :
    SpinOwner idPhys (SpinState.start id) none where
  inside_iff := fun _ => ⟨nofun, nofun⟩
  val_eq := rfl
  id_eq := nofun

theorem SpinOwner.not_owner (h : SpinOwner idPhys s owner) (hpc : (s.pc p).inside = false) :
    owner ≠ some p := by
  intro howner
  exact absurd ((h.inside_iff p).mpr howner) (by simp [hpc])

variable [DecidableEq C]

@[simp] theorem SpinState.put_pc_self : (s.put p lock pc).pc p = pc := Function.update_self ..

theorem SpinState.put_pc_of_ne (h : q ≠ p) : (s.put p lock pc).pc q = s.pc q :=
  Function.update_of_ne h ..

theorem spinStep_call {c : SpinCall} (hp : s.pc p = pc) (h : pc.call c = some pc') :
    spinStep idPhys s (.call p c) = some (s.put p s.lock pc') := by
  simp only [spinStep, hp, h, Option.map_some]

theorem spinStep_access (hp : s.pc p = pc)
    (h : pc.access (idPhys p) s.lock = some (lock, pc')) :
    spinStep idPhys s (.access p) = some (s.put p lock pc') := by
  simp only [spinStep, hp, h, Option.map_some]

/-- Every step is a move of one CPU. -/
theorem spinStep_move {l : SpinStep C} (h : spinStep idPhys s l = some s') :
    ∃ p lock pc, SpinMove (idPhys p) s.lock (s.pc p) lock pc ∧ s' = s.put p lock pc := by
  cases l with
  | call p c =>
      obtain ⟨pc, hpc, rfl⟩ := Option.map_eq_some_iff.mp h
      exact ⟨p, s.lock, pc, SpinPc.call_move hpc _ _, rfl⟩
  | access p =>
      obtain ⟨⟨lock, pc⟩, hpc, rfl⟩ := Option.map_eq_some_iff.mp h
      exact ⟨p, lock, pc, SpinPc.access_move hpc, rfl⟩

/-- A CPU that moves on keeps the others right when it leaves them what they see: who the owner
is, and the number in the lock if it is one of them. -/
theorem SpinOwner.put (h : SpinOwner idPhys s owner)
    (hothers : ∀ q, q ≠ p → (owner = some q ↔ owner' = some q))
    (hkeep : ∀ q, q ≠ p → owner = some q → lock.id = s.lock.id)
    (hself : pc.inside = true ↔ owner' = some p) (hid : pc = .locked → lock.id = idPhys p)
    (hval : lock.val = if owner'.isSome then 1 else 0) :
    SpinOwner idPhys (s.put p lock pc) owner' where
  inside_iff := by
    intro q
    by_cases hq : q = p
    · subst q
      rw [SpinState.put_pc_self]
      exact hself
    · rw [SpinState.put_pc_of_ne hq]
      exact (h.inside_iff q).trans (hothers q hq)
  val_eq := hval
  id_eq := by
    intro q hpc
    by_cases hq : q = p
    · subst q
      rw [SpinState.put_pc_self] at hpc
      exact hid hpc
    · rw [SpinState.put_pc_of_ne hq] at hpc
      have hown : owner = some q := (h.inside_iff q).mp (by rw [hpc]; rfl)
      exact (hkeep q hq hown).trans (h.id_eq q hpc)

/-- A CPU that stays outside leaves the owner as it is. -/
theorem SpinOwner.put_outside (h : SpinOwner idPhys s owner) (hpc : (s.pc p).inside = false)
    (hpc' : pc.inside = false) : SpinOwner idPhys (s.put p s.lock pc) owner := by
  have hnot := h.not_owner hpc
  refine h.put (fun _ _ => Iff.rfl) (fun _ _ _ => rfl) (by simp [hpc', hnot]) ?_ h.val_eq
  rintro rfl
  exact absurd hpc' (by decide)

/-- A CPU that stays inside may write to `id`, since no other CPU has the lock. -/
theorem SpinOwner.put_inside {i : Int} (h : SpinOwner idPhys s owner)
    (hpc : (s.pc p).inside = true) (hpc' : pc.inside = true) (hid : pc = .locked → i = idPhys p) :
    SpinOwner idPhys (s.put p { s.lock with id := i } pc) owner := by
  have howner := (h.inside_iff p).mp hpc
  refine h.put (fun _ _ => Iff.rfl) ?_ (by simp [hpc', howner]) hid h.val_eq
  intro q hq hother
  exact absurd (Option.some.inj (hother.symm.trans howner)) hq

/-- Every move of a CPU is an acquisition or a release of the abstract lock, or none of both. -/
theorem SpinOwner.move (h : SpinOwner idPhys s owner)
    (hmove : SpinMove (idPhys p) s.lock (s.pc p) lock pc) :
    ∃ owner', Reachable lockStep owner owner' ∧ SpinOwner idPhys (s.put p lock pc) owner' := by
  generalize hp : s.pc p = before at hmove
  cases hmove with
  | wait hpc hpc' => exact ⟨owner, Reachable.refl owner, h.put_outside (hp ▸ hpc) hpc'⟩
  | refused hpc hpc' hval =>
      -- the word was one already, since it is never anything else but zero
      have hsame : ({ s.lock with val := 1 } : SpinLock) = s.lock := by
        have hone := h.val_eq
        split at hone
        · rw [← hone]
        · exact absurd hone hval
      rw [hsame]
      exact ⟨owner, Reachable.refl owner, h.put_outside (hp ▸ hpc) hpc'⟩
  | take hpc hval hpc' =>
      have hinside : pc.inside = true := by
        rcases hpc' with rfl | rfl
        · rfl
        · rfl
      cases owner with
      | some q => exact absurd (h.val_eq.symm.trans hval) (by simp)
      | none =>
          refine ⟨some p, Reachable.one (l := LockEvent.acquire p) rfl,
            h.put ?_ nofun (by simp [hinside]) ?_ rfl⟩
          · intro q hq
            simp [Ne.symm hq]
          · rintro rfl
            exact absurd hpc' (by decide)
  | store => exact ⟨owner, Reachable.refl owner, h.put_inside (by rw [hp]; rfl) rfl fun _ => rfl⟩
  | unlock hpc =>
      have hinside : (s.pc p).inside = true := by
        rw [hp]
        rcases hpc with rfl | rfl
        · rfl
        · rfl
      exact ⟨owner, Reachable.refl owner, h.put_inside hinside rfl nofun⟩
  | clear => exact ⟨owner, Reachable.refl owner, h.put_inside (by rw [hp]; rfl) rfl nofun⟩
  | release =>
      obtain rfl := (h.inside_iff p).mp (by rw [hp]; rfl)
      refine ⟨none, Reachable.one (l := LockEvent.release p) (if_pos rfl),
        h.put ?_ (fun _ _ _ => rfl) ⟨nofun, nofun⟩ nofun rfl⟩
      intro q hq
      simp [Ne.symm hq]

/-- The CPUs and their lock simulate the abstract lock. -/
theorem SpinOwner.of_reachable {id : Int}
    (h : Reachable (spinStep idPhys) (SpinState.start id) s) :
    ∃ owner, Reachable lockStep none owner ∧ SpinOwner idPhys s owner := by
  refine Reachable.simulation ?_ (SpinOwner.start idPhys id) h
  intro s l s' owner howner hstep
  obtain ⟨p, lock, pc, hmove, rfl⟩ := spinStep_move hstep
  exact howner.move hmove

/-- The CPU can give the lock back without a step of another one. -/
def CanRelease (idPhys : C → Int) (q : C) (s : SpinState C) : Prop :=
  ∃ s', Reachable (spinStep idPhys) s s' ∧ s'.lock.val = 0 ∧ ∀ p, p ≠ q → s'.pc p = s.pc p

theorem CanRelease.of_step {l : SpinStep C}
    (hstep : spinStep idPhys s l = some (s.put q lock pc))
    (h : CanRelease idPhys q (s.put q lock pc)) : CanRelease idPhys q s := by
  obtain ⟨s', hrun, hval, hsame⟩ := h
  refine ⟨s', (Reachable.one hstep).trans hrun, hval, ?_⟩
  intro p hp
  rw [hsame p hp, SpinState.put_pc_of_ne hp]

/-- A CPU with the lock gives it back, wherever it is. -/
theorem canRelease_of_inside (idPhys : C → Int) (hinside : (s.pc q).inside = true) :
    CanRelease idPhys q s := by
  have hclearVal : ∀ s : SpinState C, s.pc q = .clearVal → CanRelease idPhys q s := by
    intro s hpc
    refine ⟨_, Reachable.one (spinStep_access hpc rfl), rfl, ?_⟩
    intro p hp
    exact SpinState.put_pc_of_ne hp
  have hclearId : ∀ s : SpinState C, s.pc q = .clearId → CanRelease idPhys q s := by
    intro s hpc
    apply CanRelease.of_step (spinStep_access hpc rfl)
    exact hclearVal _ SpinState.put_pc_self
  have hlocked : ∀ s : SpinState C, s.pc q = .locked → CanRelease idPhys q s := by
    intro s hpc
    apply CanRelease.of_step (spinStep_call hpc (c := .unlock) rfl)
    exact hclearId _ SpinState.put_pc_self
  cases hpc : s.pc q with
  | storeId =>
      apply CanRelease.of_step (spinStep_access hpc rfl)
      exact hlocked _ SpinState.put_pc_self
  | locked => exact hlocked s hpc
  | tried =>
      apply CanRelease.of_step (spinStep_call hpc (c := .unlock) rfl)
      exact hclearId _ SpinState.put_pc_self
  | clearId => exact hclearId s hpc
  | clearVal => exact hclearVal s hpc
  | outside => exact absurd hinside (by simp [hpc, SpinPc.inside])
  | spinning => exact absurd hinside (by simp [hpc, SpinPc.inside])
  | trying => exact absurd hinside (by simp [hpc, SpinPc.inside])

/-- A CPU that spins on a free lock is two accesses away from its return. -/
theorem spinning_locks (idPhys : C → Int) (hval : s.lock.val = 0) (hpc : s.pc p = .spinning) :
    ∃ s', Reachable (spinStep idPhys) s s' ∧ s'.pc p = .locked := by
  have htake : SpinPc.spinning.access (idPhys p) s.lock =
      some ({ s.lock with val := 1 }, .storeId) := by
    change some (_, if s.lock.val ≠ 0 then SpinPc.spinning else .storeId) = _
    rw [if_neg (not_not.mpr hval)]
  have hrun := Reachable.one (spinStep_access hpc htake)
  exact ⟨_, hrun.snoc (spinStep_access SpinState.put_pc_self rfl), SpinState.put_pc_self⟩

/-- Whatever has happened to the lock, a CPU that spins can still get it. -/
theorem spinning_can_lock {id : Int} (h : Reachable (spinStep idPhys) (SpinState.start id) s)
    (hpc : s.pc p = .spinning) : ∃ s', Reachable (spinStep idPhys) s s' ∧ s'.pc p = .locked := by
  obtain ⟨owner, -, howner⟩ := SpinOwner.of_reachable h
  cases owner with
  | none => exact spinning_locks idPhys howner.val_eq hpc
  | some q =>
      have hinside := (howner.inside_iff q).mpr rfl
      obtain ⟨s', hrun, hval, hsame⟩ := canRelease_of_inside idPhys hinside
      have hne : p ≠ q := by
        rintro rfl
        exact absurd hinside (by simp [hpc, SpinPc.inside])
      obtain ⟨s'', hrun', hlocked⟩ := spinning_locks idPhys hval ((hsame p hne).trans hpc)
      exact ⟨s'', hrun.trans hrun', hlocked⟩

/-- The number in the lock is that of no CPU, or of one that has written it and has the lock. -/
def IdTold (idPhys : C → Int) (s : SpinState C) : Prop :=
  s.lock.id = -1 ∨
    ∃ p, (s.pc p).inside = true ∧ s.pc p ≠ .clearVal ∧ s.lock.id = idPhys p

/-- A CPU that leaves `id` alone and was not the one to clear it keeps the number right. -/
theorem IdTold.put (h : IdTold idPhys s) (hid : lock.id = s.lock.id)
    (hself : (s.pc p).inside = true → s.pc p ≠ .clearVal → pc.inside = true ∧ pc ≠ .clearVal) :
    IdTold idPhys (s.put p lock pc) := by
  rcases h with hnone | ⟨q, hinside, hclear, hown⟩
  · exact Or.inl (hid.trans hnone)
  · by_cases hq : q = p
    · subst q
      obtain ⟨hin, hnot⟩ := hself hinside hclear
      refine Or.inr ⟨p, ?_, ?_, hid.trans hown⟩
      · rwa [SpinState.put_pc_self]
      · rwa [SpinState.put_pc_self]
    · refine Or.inr ⟨q, ?_, ?_, hid.trans hown⟩
      · rwa [SpinState.put_pc_of_ne hq]
      · rwa [SpinState.put_pc_of_ne hq]

theorem IdTold.move (h : IdTold idPhys s)
    (hmove : SpinMove (idPhys p) s.lock (s.pc p) lock pc) : IdTold idPhys (s.put p lock pc) := by
  generalize hp : s.pc p = before at hmove
  cases hmove with
  | wait hpc hpc' => exact h.put rfl (by simp [hp, hpc])
  | refused hpc hpc' hval => exact h.put rfl (by simp [hp, hpc])
  | take hpc hval hpc' => exact h.put rfl (by simp [hp, hpc])
  | store => exact Or.inr ⟨p, by simp [SpinPc.inside], by simp, rfl⟩
  | unlock hpc => exact h.put rfl fun _ _ => ⟨rfl, nofun⟩
  | clear => exact Or.inl rfl
  | release => exact h.put rfl (by simp [hp])

/-- A lock that `k_arch_gen_spinlock_init` has set up names a CPU only while this one has the
lock. A static lock that was only zeroed names CPU 0 before anybody took it. -/
theorem init_id_inside {lock₀ : SpinLock}
    (h : Reachable (spinStep idPhys) ⟨(kArchGenSpinlockInit lock₀).1, fun _ => .outside⟩ s)
    (hinj : Function.Injective idPhys) (hneg : ∀ p, idPhys p ≠ -1) (hid : s.lock.id = idPhys p) :
    (s.pc p).inside = true := by
  have htold : IdTold idPhys s := by
    refine Reachable.invariant ?_ (Or.inl rfl) h
    intro s l s' hs hstep
    obtain ⟨p, lock, pc, hmove, rfl⟩ := spinStep_move hstep
    exact hs.move hmove
  rcases htold with hnone | ⟨q, hinside, -, hown⟩
  · exact absurd (hid.symm.trans hnone) (hneg p)
  · rwa [hinj (hid.symm.trans hown)]

/-- In every interleaving, at most one CPU has the lock, the word tells whether one does, and a
CPU that returned from `k_arch_gen_spinlock_lock` reads its own number. -/
theorem spinlock_exclusive (idPhys : C → Int) (id : Int) (s : SpinState C)
    (h : Reachable (spinStep idPhys) (SpinState.start id) s) :
    (∀ p q, (s.pc p).inside = true → (s.pc q).inside = true → p = q) ∧
      (s.lock.val = 1 ↔ ∃ p, (s.pc p).inside = true) ∧
      ∀ p, s.pc p = .locked → s.lock.id = idPhys p := by
  obtain ⟨owner, -, howner⟩ := SpinOwner.of_reachable h
  refine ⟨?_, ?_, howner.id_eq⟩
  · intro p q hp hq
    have hp := (howner.inside_iff p).mp hp
    have hq := (howner.inside_iff q).mp hq
    exact Option.some.inj (hp.symm.trans hq)
  · rw [howner.val_eq]
    cases owner with
    | none => simp [howner.inside_iff]
    | some q => simp [howner.inside_iff]

end Steps

/-- The numbers of two CPUs. -/
def twoIds (p : Bool) : Int := if p then 5 else 3

/-- One CPU takes the lock while the other one spins. -/
def lockedAndSpinning : List (SpinStep Bool) :=
  [.call false .lock, .access false, .call true .lock, .access true, .access false, .access true]

theorem spinlock_exclusive_spinning :
    ∃ s, exec (spinStep twoIds) (SpinState.start 0) lockedAndSpinning = some s ∧
      s.pc true = .spinning ∧ s.pc false = .locked ∧ s.lock.val = 1 ∧ s.lock.id = 3 := by
  obtain ⟨s, hrun, hspins, hlocked⟩ :
      ∃ s, exec (spinStep twoIds) (SpinState.start 0) lockedAndSpinning = some s ∧
        s.pc true = .spinning ∧ s.pc false = .locked := ⟨_, rfl, rfl, rfl⟩
  have h := spinlock_exclusive twoIds 0 s ⟨lockedAndSpinning, hrun⟩
  refine ⟨s, hrun, hspins, hlocked, h.2.1.mpr ⟨false, ?_⟩, h.2.2 false hlocked⟩
  rw [hlocked]
  rfl

end BaremetalCrt
