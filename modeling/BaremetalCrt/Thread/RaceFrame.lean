import BaremetalCrt.Thread.ExitRace
import BaremetalCrt.Library.Holding

/-!
# What a CPU relies on while others exit and clone

Every CPU holds the slot that its call works on. The invariant says that slots
are held by one CPU at a time, that a task is only held by the exit that is
about to end it, and what each place in the code knows about its slot and about
the tasks of CPUs. The views collect what it depends on.
-/

namespace BaremetalCrt

variable {N : Nat}

/-- What the invariant reads of a slot, with what its thread registered. -/
structure SlotView (N : Nat) where
  home : Option (Fin N)
  avail : Bool
  running : Bool
  registration : Registration
  reg : Registration

def RaceState.slotView (s : RaceState N) (t : Fin (2 * N)) : SlotView N where
  home := (s.k.thread t).cpu
  avail := (s.k.thread t).avail
  running := (s.k.thread t).running
  registration := (s.k.thread t).registration
  reg := s.reg t

/-- What the invariant reads of a CPU. -/
structure CpuView (N : Nat) where
  user : Option (Fin (2 * N))
  task : Option (Fin (2 * N))

def RaceState.cpuView (s : RaceState N) (c : Fin N) : CpuView N where
  user := s.k.userThread c
  task := (s.k.cpu c).tiTask

/-- The lock of a CPU that a place in the code stands under. -/
def RacePc.cpuLock (p : Fin N) : RacePc N → Option (Fin N)
  | .lockProc _ c => some c
  | .slot _ c _ => some c
  | .create _ c _ _ => some c
  | .fill _ c _ _ => some c
  | .ipi c _ => some c
  | .undoStop c _ => some c
  | .undoDestroy c _ => some c
  | .unlockTarget c => some c
  | .exitStop _ _ => some p
  | .exitDestroy _ _ => some p
  | .exitFlags _ _ => some p
  | .exitCtid _ _ => some p
  | .exitClear _ _ _ => some p
  | .exitSwitch _ _ _ => some p
  | .exitUnlock _ _ _ => some p
  | _ => none

/-- Whether a place in the code stands under the lock of the process. -/
def RacePc.procLock : RacePc N → Option Unit
  | .slot _ _ _ => some ()
  | .create _ _ _ _ => some ()
  | _ => none

/-- The slot that an exit still reads after it has marked it free. -/
def RacePc.exitUses : RacePc N → Option (Fin (2 * N))
  | .exitFlags _ t => some t
  | .exitCtid _ t => some t
  | .exitClear _ t _ => some t
  | .exitSwitch _ t wake => if wake then some t else none
  | .exitUnlock _ t wake => if wake then some t else none
  | .exitWakeCtid _ t => some t
  | _ => none

/-- The slot that a call works on. The slot of a task is left to the CPU of the task. -/
def RacePc.slotHeld : RacePc N → Option (Fin (2 * N))
  | .create _ _ t _ => some t
  | .fill _ _ t _ => some t
  | .undoDestroy _ t => some t
  | .exitStop _ t => some t
  | .exitDestroy _ t => some t
  | pc => pc.exitUses

/-- The CPU whose task an exit is about to end. -/
def RacePc.taskAt (p : Fin N) : RacePc N → Option (Fin N)
  | .exitStop _ _ => some p
  | _ => none

/-- The thread that a context switch has chosen. -/
def RacePc.switching : RacePc N → Option (Fin (2 * N))
  | .switchTo task => task
  | _ => none

/-- The thread is stopped and the CPU has not left it yet. -/
def RacePc.leaving : RacePc N → Bool
  | .exitDestroy _ _ => true
  | .exitFlags _ _ => true
  | .exitCtid _ _ => true
  | .exitClear _ _ _ => true
  | .exitSwitch _ _ _ => true
  | _ => false

/-- A creation takes no slot that an exit still reads, a thread is put on a CPU
without a task, and a clone call takes back no thread that its CPU has switched to
or is about to. -/
def SlotsApart (s : RaceState N) : RaceLabel N → Prop
  | .step p _ =>
      match s.pc p with
      | .slot _ _ i => ∀ t : Fin (2 * N), t.val = i → (s.k.thread t).avail = false →
          ∀ q, (s.pc q).exitUses ≠ some t
      | .fill _ c _ [] => (s.k.cpu c).tiTask = none
      | .undoStop c t => (s.k.cpu c).ti ≠ some t ∧ (s.pc c).switching ≠ some t
      | _ => True
  | _ => True

instance (s : RaceState N) : ∀ l, Decidable (SlotsApart s l)
  | .step p _ => by
      simp only [SlotsApart]
      split <;> infer_instance
  | .clone .. => isTrue trivial
  | .exit .. => isTrue trivial
  | .setTidAddress .. => isTrue trivial
  | .contextSwitch .. => isTrue trivial

/-- The effect of an access on the registration in its slot. -/
def SlotOp.register : SlotOp → Registration → Registration
  | .flags v, r => { r with flags := v }
  | .ctid v, r => { r with ctid := v }
  | _, r => r

/-- What a place in the code knows about its slot and its CPU. -/
def RacePlace (s : RaceState N) (p : Fin N) : RacePc N → Prop
  | .create _ _ t todo => SlotOp.avail ∈ todo ∨ (s.slotView t).avail = true
  | .fill args _ t todo => (s.slotView t).avail = true ∧
      todo.foldl (fun r op => op.register r) (s.slotView t).registration = args.registration
  | .ipi c t => (s.cpuView c).task = some t
  | .undoStop c t => (s.cpuView c).task = some t
  | .undoDestroy _ t => (s.slotView t).avail = true
  | .switchTo task => ∀ t, task = some t → (s.cpuView p).task = some t
  | .exitLock own => ∃ t, (s.cpuView p).user = some t ∧ (s.slotView t).reg = own
  | .exitStop own t => (s.cpuView p).task = some t ∧ (s.slotView t).reg = own
  | .exitDestroy own t => (s.slotView t).avail = true ∧ (s.slotView t).running = false ∧
      (s.slotView t).registration = own
  | .exitFlags own t => (s.slotView t).registration = own
  | .exitCtid own t => own.clears = true ∧ (s.slotView t).registration = own
  | .exitClear own t addr =>
      (own.clears = true ∧ (s.slotView t).registration = own) ∧ addr = own.ctid
  | .exitSwitch own t wake =>
      own.clears = wake ∧ (wake = true → (s.slotView t).registration = own)
  | .exitUnlock own t wake =>
      own.clears = wake ∧ (wake = true → (s.slotView t).registration = own)
  | .exitWakeCtid own t => own.clears = true ∧ (s.slotView t).registration = own
  | .exitWake own addr => own.clears = true ∧ addr = own.ctid
  | _ => True

/-- What an exit did was about the registration of the thread that called it. -/
def ExitEvent.Sound : ExitEvent → Prop
  | .clear own addr => own.clears = true ∧ addr = own.ctid
  | .wake own addr => own.clears = true ∧ addr = own.ctid
  | .silent own => own.clears = false

/-- The slot holds a task of the CPU, with the registration of its thread. -/
def SlotView.IsTask (v : SlotView N) (c : Fin N) : Prop :=
  v.home = some c ∧ v.avail = true ∧ v.registration = v.reg

structure RaceInv (s : RaceState N) : Prop where
  cpuLocks : Granted s.cpuLock fun q => (s.pc q).cpuLock q
  procLocks : Granted (fun _ => s.procLock) fun q => (s.pc q).procLock
  slots : Exclusive fun q => (s.pc q).slotHeld
  task : ∀ c t, (s.cpuView c).task = some t → (s.slotView t).IsTask c
  held_task : ∀ c t q, (s.cpuView c).task = some t → (s.pc q).slotHeld = some t →
    (s.pc q).taskAt q = some c
  current : ∀ q t, (s.cpuView q).user = some t →
    (s.cpuView q).task = some t ∨ (s.pc q).leaving = true
  place : ∀ q, RacePlace s q (s.pc q)
  log : ∀ e ∈ s.log, e.Sound

theorem ti_of_userThread {k : KState N} {c : Fin N} {t : Fin (2 * N)}
    (h : k.userThread c = some t) : (k.cpu c).ti = some t := by
  unfold KState.userThread at h
  split at h
  · cases h
  · exact h

section Frame

variable {s s' : RaceState N} {p q : Fin N} {pc pc' : RacePc N}

theorem RaceInv.place_at (h : RaceInv s) (hp : s.pc p = pc) : RacePlace s p pc := by
  rw [← hp]
  exact h.place p

/-- A place in the code knows what it knew as long as its slot, the task of the CPU
it has locked, the task it switches to and the thread it runs are left alone. -/
theorem RacePlace.frame (h : RacePlace s q pc)
    (hslot : ∀ u, pc.slotHeld = some u → s'.slotView u = s.slotView u)
    (hcpu : ∀ c, pc.cpuLock q = some c → (s'.cpuView c).task = (s.cpuView c).task)
    (hswitch : ∀ u, pc.switching = some u → (s.cpuView q).task = some u →
      (s'.cpuView q).task = some u)
    (huser : (s'.cpuView q).user = (s.cpuView q).user)
    (hreg : ∀ t, pc.leaving = false → (s.cpuView q).user = some t →
      (s'.slotView t).reg = (s.slotView t).reg) : RacePlace s' q pc := by
  cases pc with
  | create _ _ t | fill _ _ t | undoDestroy _ t | exitDestroy _ t | exitFlags _ t | exitCtid _ t
  | exitClear _ t | exitWakeCtid _ t =>
      simp only [RacePlace, hslot t rfl]
      exact h
  | ipi c | undoStop c =>
      simp only [RacePlace, hcpu c rfl]
      exact h
  | switchTo task => exact fun t ht => hswitch t ht (h t ht)
  | exitLock own =>
      obtain ⟨t, ht, hown⟩ := h
      exact ⟨t, huser.trans ht, (hreg t rfl ht).trans hown⟩
  | exitStop own t =>
      simp only [RacePlace, hslot t rfl, hcpu q rfl]
      exact h
  | exitSwitch own t wake | exitUnlock own t wake =>
      refine ⟨h.1, fun hwake => ?_⟩
      rw [hslot t (by rw [hwake]; rfl)]
      exact h.2 hwake
  | exitWake own addr => exact h
  | _ => trivial

/-- One CPU moves; what the others rely on is left alone, and the rest is shown
for the new state. -/
theorem RaceInv.advance (h : RaceInv s) (hpc : s'.pc = Function.update s.pc p pc')
    (hcpuLock : Granted s'.cpuLock
      (Function.update (fun q => (s.pc q).cpuLock q) p (pc'.cpuLock p)))
    (hprocLock : Granted (fun _ => s'.procLock)
      (Function.update (fun q => (s.pc q).procLock) p pc'.procLock))
    (hslots : ∀ q u, q ≠ p → (s.pc q).slotHeld = some u →
      pc'.slotHeld ≠ some u ∧ s'.slotView u = s.slotView u)
    (hcpus : ∀ q c, q ≠ p → (s.pc q).cpuLock q = some c →
      (s'.cpuView c).task = (s.cpuView c).task)
    (hswitch : ∀ q u, q ≠ p → (s.pc q).switching = some u → (s.cpuView q).task = some u →
      (s'.cpuView q).task = some u)
    (huser : ∀ q, q ≠ p → (s'.cpuView q).user = (s.cpuView q).user)
    (hreg : ∀ q t, q ≠ p → (s.pc q).leaving = false → (s.cpuView q).user = some t →
      (s'.slotView t).reg = (s.slotView t).reg)
    (htask : ∀ c t, (s'.cpuView c).task = some t → (s'.slotView t).IsTask c ∧
      (∀ q, q ≠ p → (s.pc q).slotHeld = some t → (s.pc q).taskAt q = some c) ∧
      (pc'.slotHeld = some t → pc'.taskAt p = some c))
    (hcurrent : ∀ q t, (s'.cpuView q).user = some t →
      (s'.cpuView q).task = some t ∨ (s'.pc q).leaving = true)
    (hplace : RacePlace s' p pc') (hlog : ∀ e ∈ s'.log, e.Sound) : RaceInv s' := by
  have hself : s'.pc p = pc' := by rw [hpc, Function.update_self]
  have hother : ∀ q, q ≠ p → s'.pc q = s.pc q := fun q hq => by
    rw [hpc, Function.update_of_ne hq]
  have hheld : ∀ {κ : Type} (f : Fin N → RacePc N → Option κ), (fun q => f q (s'.pc q)) =
      Function.update (fun q => f q (s.pc q)) p (f p pc') := by
    intro κ f
    rw [hpc]
    exact funext (Function.apply_update f s.pc p pc')
  constructor
  · rw [hheld RacePc.cpuLock]
    exact hcpuLock
  · rw [hheld fun _ => RacePc.procLock]
    exact hprocLock
  · rw [hheld fun _ => RacePc.slotHeld]
    exact h.slots.update fun q u hq hu => (hslots q u hq hu).1
  · exact fun c t hc => (htask c t hc).1
  · intro c t q hc hq
    by_cases hqp : q = p
    · subst q
      rw [hself] at hq ⊢
      exact (htask c t hc).2.2 hq
    · rw [hother q hqp] at hq ⊢
      exact (htask c t hc).2.1 q hqp hq
  · exact hcurrent
  · intro q
    by_cases hqp : q = p
    · subst q
      rw [hself]
      exact hplace
    · rw [hother q hqp]
      exact (h.place q).frame (fun u hu => (hslots q u hqp hu).2) (fun c => hcpus q c hqp)
        (fun u => hswitch q u hqp) (huser q hqp) (fun t => hreg q t hqp)
  · exact hlog

/-- A slot that a call holds is in use, unless the call is still creating it or
is an exit that has marked it free. -/
theorem RaceInv.held_avail (h : RaceInv s) {t : Fin (2 * N)} (hq : (s.pc q).slotHeld = some t) :
    (s.slotView t).avail = true ∨ (s.pc q).procLock = some () ∨ (s.pc q).exitUses = some t := by
  have hplace := h.place q
  cases hpc : s.pc q with
  | create args c u todo => exact Or.inr (Or.inl rfl)
  | undoDestroy c u =>
      rw [hpc] at hplace hq
      obtain rfl := Option.some.inj hq
      exact Or.inl hplace
  | exitStop own u =>
      rw [hpc] at hplace hq
      obtain rfl := Option.some.inj hq
      exact Or.inl (h.task q u hplace.1).2.1
  | fill _ _ u | exitDestroy _ u =>
      rw [hpc] at hplace hq
      obtain rfl := Option.some.inj hq
      exact Or.inl hplace.1
  | _ =>
      rw [hpc] at hq
      exact Or.inr (Or.inr hq)

theorem leaving_of_update (hpc : s'.pc = Function.update s.pc p pc')
    (hleave : (s.pc p).leaving = true → pc'.leaving = true) (hq : (s.pc q).leaving = true) :
    (s'.pc q).leaving = true := by
  rw [hpc]
  by_cases hqp : q = p
  · subst q
    rw [Function.update_self]
    exact hleave hq
  · rw [Function.update_of_ne hqp]
    exact hq

/-- A step of one CPU that touches no CPU entry, and of the slots at most the one
it holds while that is no task. -/
theorem RaceInv.private_step (h : RaceInv s) (hpc : s'.pc = Function.update s.pc p pc')
    (hcpuLock : Granted s'.cpuLock
      (Function.update (fun q => (s.pc q).cpuLock q) p (pc'.cpuLock p)))
    (hprocLock : Granted (fun _ => s'.procLock)
      (Function.update (fun q => (s.pc q).procLock) p pc'.procLock))
    (hcpu : ∀ c, s'.cpuView c = s.cpuView c)
    (hslot : ∀ u, s'.slotView u = s.slotView u ∨
      ((s.pc p).slotHeld = some u ∧ (s.pc p).taskAt p = none))
    (hheld : pc'.slotHeld = none ∨
      (pc'.slotHeld = (s.pc p).slotHeld ∧ pc'.taskAt p = (s.pc p).taskAt p))
    (hleave : (s.pc p).leaving = true → pc'.leaving = true)
    (hplace : RacePlace s' p pc') (hlog : ∀ e ∈ s'.log, e.Sound) : RaceInv s' := by
  -- a task is not the slot that the step may touch
  have hkept : ∀ c t, (s.cpuView c).task = some t → s'.slotView t = s.slotView t := by
    intro c t hc
    rcases hslot t with hsame | ⟨hmine, hno⟩
    · exact hsame
    · exact absurd ((h.held_task c t p hc hmine).symm.trans hno) (by simp)
  refine h.advance hpc hcpuLock hprocLock ?_ (fun _ c _ _ => by rw [hcpu])
    (fun q _ _ _ hu => by rw [hcpu, hu]) (fun q _ => by rw [hcpu]) ?_ ?_ ?_ hplace hlog
  · intro q u hq hu
    have hne : (s.pc p).slotHeld ≠ some u := fun hmine => hq (h.slots q p u hu hmine)
    constructor
    · rcases hheld with hnone | ⟨hsame, -⟩
      · rw [hnone]
        simp
      · rw [hsame]
        exact hne
    · exact (hslot u).resolve_right fun hmine => hne hmine.1
  · intro q t _ hstay hq
    rcases h.current q t hq with htask | hleaving
    · rw [hkept q t htask]
    · exact absurd (hstay.symm.trans hleaving) (by simp)
  · intro c t hc
    rw [hcpu] at hc
    refine ⟨hkept c t hc ▸ h.task c t hc, fun q _ => h.held_task c t q hc, fun hmine => ?_⟩
    rcases hheld with hnone | ⟨hsame, hat⟩
    · exact absurd (hnone.symm.trans hmine) (by simp)
    · rw [hat]
      exact h.held_task c t p hc (hsame.symm.trans hmine)
  · intro q t hq
    rw [hcpu] at hq ⊢
    exact (h.current q t hq).imp_right (leaving_of_update hpc hleave)

/-- The task of a CPU is held by no other call than the exit that is about to end it. -/
theorem RaceInv.holder_of_task (h : RaceInv s) {c : Fin N} {t : Fin (2 * N)}
    (htask : (s.cpuView c).task = some t) (hq : (s.pc q).slotHeld = some t) :
    q = c ∧ (s.pc q).cpuLock q = some c := by
  have hat := h.held_task c t q htask hq
  cases hpc : s.pc q with
  | exitStop own u =>
      rw [hpc] at hat
      obtain rfl := Option.some.inj hat
      exact ⟨rfl, rfl⟩
  | _ =>
      rw [hpc] at hat
      cases hat

/-- A step of CPU `p` that changes the task of one CPU, which it has locked and which
runs no user thread unless it is `p` itself. -/
theorem RaceInv.cpu_step {c : Fin N} (h : RaceInv s)
    (hpc : s'.pc = Function.update s.pc p pc')
    (hcpuLock : Granted s'.cpuLock
      (Function.update (fun q => (s.pc q).cpuLock q) p (pc'.cpuLock p)))
    (hprocLock : Granted (fun _ => s'.procLock)
      (Function.update (fun q => (s.pc q).procLock) p pc'.procLock))
    (hlock : (s.pc p).cpuLock p = some c)
    (hcpu : ∀ d, d ≠ c → s'.cpuView d = s.cpuView d)
    (hswitch : c ≠ p → ∀ u, (s.pc c).switching = some u → (s.cpuView c).task ≠ some u)
    (huser : c ≠ p → (s.cpuView c).user = none ∧ (s'.cpuView c).user = none)
    (hslot : ∀ u, s'.slotView u = s.slotView u ∨
      ((∀ q, q ≠ p → (s.pc q).slotHeld ≠ some u) ∧ ∀ d, d ≠ c → (s.cpuView d).task ≠ some u))
    (hheld : ∀ u, pc'.slotHeld = some u → (∀ q, q ≠ p → (s.pc q).slotHeld ≠ some u) ∧
      ∀ d, d ≠ c → (s.cpuView d).task ≠ some u)
    (htask : ∀ u, (s'.cpuView c).task = some u → (s'.slotView u).IsTask c ∧
      (∀ q, q ≠ p → (s.pc q).slotHeld ≠ some u) ∧ pc'.slotHeld ≠ some u)
    (hcurrent : ∀ u, (s'.cpuView c).user = some u →
      (s'.cpuView c).task = some u ∨ (s'.pc c).leaving = true)
    (hleave : p ≠ c → (s.pc p).leaving = true → pc'.leaving = true)
    (hplace : RacePlace s' p pc') (hlog : ∀ e ∈ s'.log, e.Sound) : RaceInv s' := by
  have hkept : ∀ d u, d ≠ c → (s.cpuView d).task = some u → s'.slotView u = s.slotView u :=
    fun d u hd hu => (hslot u).resolve_right fun hmine => hmine.2 d hd hu
  refine h.advance hpc hcpuLock hprocLock ?_ ?_ ?_ ?_ ?_ ?_ ?_ hplace hlog
  · intro q u hq hu
    exact ⟨fun hmine => (hheld u hmine).1 q hq hu,
      (hslot u).resolve_right fun hfree => hfree.1 q hq hu⟩
  · intro q d hq hd
    have hdc : d ≠ c := by
      rintro rfl
      exact hq (h.cpuLocks.exclusive q p d hd hlock)
    rw [hcpu d hdc]
  · intro q u hq hu htaskq
    by_cases hqc : q = c
    · subst q
      exact absurd htaskq (hswitch hq u hu)
    · rw [hcpu q hqc]
      exact htaskq
  · intro q hq
    by_cases hqc : q = c
    · subst q
      rw [(huser hq).1, (huser hq).2]
    · rw [hcpu q hqc]
  · intro q u hq hstay hu
    have hqc : q ≠ c := by
      rintro rfl
      exact absurd ((huser hq).1.symm.trans hu) (by simp)
    rcases h.current q u hu with hq' | hleaving
    · rw [hkept q u hqc hq']
    · exact absurd (hstay.symm.trans hleaving) (by simp)
  · intro d u hd
    by_cases hdc : d = c
    · subst d
      obtain ⟨hslot', hfree, hmine⟩ := htask u hd
      exact ⟨hslot', fun q hq hu => absurd hu (hfree q hq), fun hu => absurd hu hmine⟩
    · rw [hcpu d hdc] at hd
      rw [hkept d u hdc hd]
      exact ⟨h.task d u hd, fun q _ => h.held_task d u q hd,
        fun hmine => absurd hd ((hheld u hmine).2 d hdc)⟩
  · intro q u hu
    by_cases hqc : q = c
    · subst q
      exact hcurrent u hu
    · rw [hcpu q hqc] at hu ⊢
      refine (h.current q u hu).imp_right fun hleaving => ?_
      by_cases hpc' : p = c
      · rw [hpc, Function.update_of_ne fun hqp => hqc (hqp.trans hpc')]
        exact hleaving
      · exact leaving_of_update hpc (hleave hpc') hleaving

/-- A step that only moves the CPU on. -/
theorem RaceInv.goto (h : RaceInv s)
    (hcpuLock : pc'.cpuLock p = none ∨ pc'.cpuLock p = (s.pc p).cpuLock p)
    (hprocLock : pc'.procLock = none ∨ pc'.procLock = (s.pc p).procLock)
    (hheld : pc'.slotHeld = none ∨
      (pc'.slotHeld = (s.pc p).slotHeld ∧ pc'.taskAt p = (s.pc p).taskAt p))
    (hleave : (s.pc p).leaving = true → pc'.leaving = true) (hplace : RacePlace s p pc') :
    RaceInv (s.setPc p pc') :=
  h.private_step rfl (h.cpuLocks.keep hcpuLock) (h.procLocks.keep hprocLock) (fun _ => rfl)
    (fun _ => Or.inl rfl) hheld hleave
    (hplace.frame (fun _ _ => rfl) (fun _ _ => rfl) (fun _ _ => id) rfl fun _ _ _ => rfl) h.log

/-- A step outside of all slots and of the locks of CPUs and of the process. -/
theorem RaceInv.smp_step {lock : Option (Fin N)} (h : RaceInv s) (hcpuLock : pc'.cpuLock p = none)
    (hprocLock : pc'.procLock = none) (hheld : pc'.slotHeld = none)
    (hleave : (s.pc p).leaving = false) (hplace : RacePlace s p pc') :
    RaceInv { s.setPc p pc' with smpLock := lock } :=
  h.private_step rfl (h.cpuLocks.keep (Or.inl hcpuLock)) (h.procLocks.keep (Or.inl hprocLock))
    (fun _ => rfl) (fun _ => Or.inl rfl) (Or.inl hheld) (by simp [hleave])
    (hplace.frame (fun _ _ => rfl) (fun _ _ => rfl) (fun _ _ => id) rfl fun _ _ _ => rfl) h.log

/-- A call begins to work on a slot that no other call works on. -/
theorem RaceInv.hold_step {t : Fin (2 * N)} (h : RaceInv s) (next : RacePc N)
    (cpuLock : Fin N → Option (Fin N))
    (hcpuLock : Granted cpuLock
      (Function.update (fun q => (s.pc q).cpuLock q) p (next.cpuLock p)))
    (hprocLock : Granted (fun _ => s.procLock)
      (Function.update (fun q => (s.pc q).procLock) p next.procLock))
    (hheld : next.slotHeld = some t) (hunheld : ∀ q, q ≠ p → (s.pc q).slotHeld ≠ some t)
    (hat : ∀ d, (s.cpuView d).task = some t → next.taskAt p = some d)
    (hleave : (s.pc p).leaving = true → next.leaving = true)
    (hplace : RacePlace { s.setPc p next with cpuLock := cpuLock } p next) :
    RaceInv { s.setPc p next with cpuLock := cpuLock } := by
  refine h.advance rfl hcpuLock hprocLock ?_ (fun _ _ _ _ => rfl) (fun _ _ _ _ => id)
    (fun _ _ => rfl) (fun _ _ _ _ _ => rfl) ?_ ?_ hplace h.log
  · intro q u hq hu
    refine ⟨fun heq => ?_, rfl⟩
    obtain rfl := Option.some.inj (hheld.symm.trans heq)
    exact hunheld q hq hu
  · intro d u hd
    refine ⟨h.task d u hd, fun q _ => h.held_task d u q hd, fun heq => ?_⟩
    obtain rfl := Option.some.inj (hheld.symm.trans heq)
    exact hat d hd
  · intro q u hq
    exact (h.current q u hq).imp_right (leaving_of_update rfl hleave)

end Frame

section ProcLock

variable {s : RaceState N} {p : Fin N}

theorem RaceInv.procLock_acquire (h : RaceInv s) (hfree : s.procLock = none) :
    Granted (fun _ => some p)
      (Function.update (fun q => (s.pc q).procLock) p (some ())) := by
  have hall := h.procLocks.acquire (p := p) (c := ()) hfree
  rwa [show Function.update (fun _ : Unit => s.procLock) () (some p) = fun _ => some p from
    funext fun _ => Function.update_self ..] at hall

theorem RaceInv.procLock_release (h : RaceInv s) (hp : (s.pc p).procLock = some ()) :
    Granted (fun _ => none) (Function.update (fun q => (s.pc q).procLock) p none) := by
  have hall := h.procLocks.release (p := p) (c := ()) hp
  rwa [show Function.update (fun _ : Unit => s.procLock) () none = fun _ => none from
    funext fun _ => Function.update_self ..] at hall

end ProcLock

end BaremetalCrt
