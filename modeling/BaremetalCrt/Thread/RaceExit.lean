import BaremetalCrt.Thread.RaceClone

/-!
# The steps of an exit and of a context switch

Each access of `k_sys_exit`, of `k_thread_context_switch` and of
`k_sys_set_tid_address` keeps the invariant, and so does the start of a call. A
context switch reads the task of its CPU before it switches there.
-/

namespace BaremetalCrt

variable {N : Nat}

section ExitSteps

variable {cfg : StackConfig} {reply : MachineReply N} {s s' : RaceState N} {p : Fin N}
  {own : Registration} {t : Fin (2 * N)}

/-- An exit finds the thread that called it. -/
theorem RaceInv.exitLock_step (h : RaceInv s) (hp : s.pc p = .exitLock own)
    (hstep : raceCpuStep cfg reply s p = some s') : RaceInv s' := by
  have hplace := h.place_at hp
  obtain ⟨t, huser, hown⟩ := hplace
  have htask : (s.cpuView p).task = some t := by
    refine (h.current p t huser).resolve_right ?_
    simp [hp, RacePc.leaving]
  have hmatch : (s.k.cpu p).tiTask = some t := htask
  simp only [raceCpuStep, hp, hmatch] at hstep
  split at hstep
  · rename_i hfree
    obtain rfl := Option.some.inj hstep
    refine h.hold_step (.exitStop own t) _ (h.cpuLocks.acquire hfree)
      (h.procLocks.keep (Or.inl rfl)) rfl
      (fun q hq hheld => hq (h.holder_of_task htask hheld).1) ?_
      (by simp [hp, RacePc.leaving]) ⟨htask, hown⟩
    intro d hd
    exact (h.task p t htask).1.symm.trans (h.task d t hd).1
  · exact absurd hstep (by simp)

theorem RaceInv.exitStop_step (h : RaceInv s) (hp : s.pc p = .exitStop own t)
    (hstep : raceCpuStep cfg reply s p = some s') : RaceInv s' := by
  have hplace := h.place_at hp
  simp only [raceCpuStep, hp] at hstep
  obtain ⟨k, hstop, rfl⟩ := Option.map_eq_some_iff.mp hstep
  apply h.stop_step (fun q hq hheld => hq (h.holder_of_task hplace.1 hheld).1) (by rw [hp]; rfl)
    hplace.1 hstop rfl rfl rfl (by simp [hp, RacePc.leaving]) (Or.inr ⟨rfl, rfl⟩)
  obtain ⟨c', -, rfl⟩ := Option.map_eq_some_iff.mp hstop
  obtain ⟨-, havail, hreg⟩ := h.task p t hplace.1
  have hown := hreg.trans hplace.2
  simp only [RaceState.slotView, ThreadInfo.registration] at havail hown
  simpa [RacePlace, RaceState.slotView, ThreadInfo.registration] using ⟨havail, hown⟩

theorem RaceInv.exitDestroy_step (h : RaceInv s) (hp : s.pc p = .exitDestroy own t)
    (hstep : raceCpuStep cfg reply s p = some s') : RaceInv s' := by
  have hplace := h.place_at hp
  obtain ⟨-, hrun, hown⟩ := hplace
  have hrun' : (s.k.thread t).running = false := hrun
  have hzero : (kThreadDestroy s.k t).2 = 0 := by simp [kThreadDestroy, hrun']
  simp only [raceCpuStep, hp, hzero, ne_eq, not_true, if_false] at hstep
  obtain rfl := Option.some.inj hstep
  apply h.destroy_step (by rw [hp]; rfl) (by rw [hp]; rfl) (by rw [hp]; rfl) rfl (Or.inr rfl) rfl
    (fun _ => rfl)
  simp only [RaceState.slotView, ThreadInfo.registration] at hown
  simpa [RacePlace, RaceState.slotView, kThreadDestroy, hrun', ThreadInfo.registration] using hown

theorem RaceInv.exitFlags_step (h : RaceInv s) (hp : s.pc p = .exitFlags own t)
    (hstep : raceCpuStep cfg reply s p = some s') : RaceInv s' := by
  have hplace := h.place_at hp
  have hflags : (s.k.thread t).flags = own.flags := congrArg Registration.flags hplace
  simp only [raceCpuStep, hp, hflags] at hstep
  obtain rfl := Option.some.inj hstep
  split
  · rename_i hclears
    exact h.goto (Or.inr (by rw [hp]; rfl)) (Or.inl rfl)
      (Or.inr (by rw [hp]; exact ⟨rfl, rfl⟩)) (fun _ => rfl) ⟨hclears, hplace⟩
  · rename_i hclears
    exact h.goto (Or.inr (by rw [hp]; rfl)) (Or.inl rfl) (Or.inl rfl) (fun _ => rfl)
      ⟨Bool.eq_false_iff.mpr hclears, fun hwake => absurd hwake (by simp)⟩

theorem RaceInv.exitCtid_step (h : RaceInv s) (hp : s.pc p = .exitCtid own t)
    (hstep : raceCpuStep cfg reply s p = some s') : RaceInv s' := by
  have hplace := h.place_at hp
  simp only [raceCpuStep, hp] at hstep
  obtain rfl := Option.some.inj hstep
  exact h.goto (Or.inr (by rw [hp]; rfl)) (Or.inl rfl) (Or.inr (by rw [hp]; exact ⟨rfl, rfl⟩))
    (fun _ => rfl) ⟨hplace, congrArg Registration.ctid hplace.2⟩

theorem RaceInv.exitClear_step {addr : Nat} (h : RaceInv s) (hp : s.pc p = .exitClear own t addr)
    (hstep : raceCpuStep cfg reply s p = some s') : RaceInv s' := by
  have hplace := h.place_at hp
  obtain ⟨⟨hclears, hown⟩, haddr⟩ := hplace
  simp only [raceCpuStep, hp] at hstep
  obtain rfl := Option.some.inj hstep
  refine h.private_step rfl (h.cpuLocks.keep (Or.inr (by simp only [hp]; rfl)))
    (h.procLocks.keep (Or.inl rfl)) (fun _ => rfl) (fun _ => Or.inl rfl)
    (Or.inr (by rw [hp]; exact ⟨rfl, rfl⟩)) (fun _ => rfl) ⟨hclears, fun _ => hown⟩ ?_
  exact List.forall_mem_cons.mpr ⟨⟨hclears, haddr⟩, h.log⟩

/-- What a change of the tables leaves of the slots: all but their registers. -/
def SlotsKept (k k' : KState N) : Prop :=
  ∀ u, (k'.thread u).cpu = (k.thread u).cpu ∧ (k'.thread u).avail = (k.thread u).avail ∧
    (k'.thread u).running = (k.thread u).running ∧
    (k'.thread u).registration = (k.thread u).registration

/-- What a context switch leaves of the tables: all slots but for their registers,
all other CPUs, and the task; afterwards the CPU runs the chosen thread or its idle
thread. -/
structure Switched (k k' : KState N) (p : Fin N) (target : Option (Fin (2 * N))) : Prop where
  slot : SlotsKept k k'
  other : ∀ d, d ≠ p → k'.cpu d = k.cpu d
  task : (k'.cpu p).tiTask = (k.cpu p).tiTask
  user : ∀ u, k'.userThread p = some u → target = some u
  word : k'.word = k.word

/-- The first part of a context switch writes registers of a slot, and chooses the task. -/
theorem switchSave_spec {k k' : KState N} {task : Option (Fin (2 * N))}
    (h : switchSave k p = some (k', task)) :
    k'.cpu = k.cpu ∧ k'.word = k.word ∧ SlotsKept k k' ∧
      ∀ t, task = some t → (k.cpu p).tiTask = some t := by
  obtain ⟨k₁, hsaved, heq⟩ := Option.map_eq_some_iff.mp h
  obtain ⟨rfl, rfl⟩ := Prod.mk.inj heq
  have htask : ∀ t, ((k.cpu p).ti.bind fun _ => (k.cpu p).tiTask) = some t →
      (k.cpu p).tiTask = some t := by
    intro t ht
    obtain ⟨-, -, ht⟩ := Option.bind_eq_some_iff.mp ht
    exact ht
  split at hsaved
  · obtain ⟨t, -, rfl⟩ := Option.map_eq_some_iff.mp hsaved
    refine ⟨rfl, rfl, fun u => ?_, htask⟩
    by_cases hu : u = t
    · subst u
      simp [ThreadInfo.registration]
    · simp [hu]
  · obtain rfl := Option.some.inj hsaved
    exact ⟨rfl, rfl, fun _ => ⟨rfl, rfl, rfl, rfl⟩, htask⟩

theorem switchTo_switched {k k' : KState N} {task : Option (Fin (2 * N))}
    (h : switchTo k p task = some k') : Switched k k' p task := by
  obtain ⟨t, ht, rfl⟩ := Option.map_eq_some_iff.mp h
  refine ⟨fun _ => ⟨rfl, rfl, rfl, rfl⟩, fun d hd => by simp [hd], by simp, fun u hu => ?_, rfl⟩
  have hut : t = u ∧ some u ≠ (k.cpu p).tiIdle := by
    simp only [KState.userThread, KState.modifyCpu_cpu, Function.update_self] at hu
    split at hu
    · cases hu
    · next hidle =>
      obtain rfl := Option.some.inj hu
      exact ⟨rfl, hidle⟩
  obtain ⟨rfl, hidle⟩ := hut
  cases task with
  | none => exact absurd ht.symm hidle
  | some task => exact ht

theorem kThreadContextSwitchNolock_switched {k k' : KState N}
    (h : kThreadContextSwitchNolock k p = some k') :
    Switched k k' p (k.cpu p).tiTask := by
  rw [← switchSave_bind_switchTo] at h
  obtain ⟨⟨k₁, task⟩, hsave, hto⟩ := Option.bind_eq_some_iff.mp h
  obtain ⟨hcpu, hword, hslot, htask⟩ := switchSave_spec hsave
  have hsw := switchTo_switched hto
  refine ⟨fun u => ?_, fun d hd => ?_, ?_, fun u hu => htask u (hsw.user u hu),
    hsw.word.trans hword⟩
  · obtain ⟨hhome, havail, hrun, hreg⟩ := hslot u
    obtain ⟨hhome', havail', hrun', hreg'⟩ := hsw.slot u
    exact ⟨hhome'.trans hhome, havail'.trans havail, hrun'.trans hrun, hreg'.trans hreg⟩
  · rw [hsw.other d hd, hcpu]
  · rw [hsw.task, hcpu]

theorem userThread_trap (k : KState N) (p : Fin N) (frame : UserRegs) (c : Fin N) :
    (k.trap p frame).userThread c = k.userThread c := by
  by_cases hc : c = p
  · subst c
    simp [KState.userThread, KState.trap]
  · simp [KState.userThread, KState.trap, hc]

theorem SlotsKept.slotView (h : SlotsKept s.k s'.k) (hreg : s'.reg = s.reg) (u : Fin (2 * N)) :
    s'.slotView u = s.slotView u := by
  obtain ⟨hhome, havail, hrun, hregistration⟩ := h u
  simp only [RaceState.slotView, hhome, havail, hrun, hregistration, hreg]

/-- A CPU switches to its task or to its idle thread. -/
theorem RaceInv.switch_step {pc' : RacePc N} {task : Option (Fin (2 * N))} (h : RaceInv s)
    (hsw : Switched s.k s'.k p task)
    (htask : ∀ u, task = some u → (s.cpuView p).task = some u)
    (hpc : s'.pc = Function.update s.pc p pc') (hlocks : s'.cpuLock = s.cpuLock)
    (hproc : s'.procLock = s.procLock) (hreg : s'.reg = s.reg) (hlog : s'.log = s.log)
    (hcpuLock : pc'.cpuLock p = (s.pc p).cpuLock p) (hprocLock : pc'.procLock = none)
    (hheld : pc'.slotHeld = (s.pc p).slotHeld) (hat : pc'.taskAt p = (s.pc p).taskAt p)
    (hplace : RacePlace s' p pc') : RaceInv s' := by
  have hslot := hsw.slot.slotView hreg
  have hother : ∀ d, d ≠ p → s'.cpuView d = s.cpuView d := fun d hd => by
    simp only [RaceState.cpuView, KState.userThread, hsw.other d hd]
  have hkept : ∀ d, (s'.cpuView d).task = (s.cpuView d).task := by
    intro d
    by_cases hd : d = p
    · subst d
      exact hsw.task
    · rw [hother d hd]
  refine h.advance hpc ?_ ?_ ?_ (fun _ d _ _ => hkept d)
    (fun q _ _ _ hu => (hkept q).trans hu) (fun q hq => by rw [hother q hq])
    (fun _ _ _ _ _ => by rw [hslot]) ?_ ?_ hplace ?_
  · rw [hlocks]
    exact h.cpuLocks.keep (Or.inr hcpuLock)
  · rw [hproc]
    exact h.procLocks.keep (Or.inl hprocLock)
  · intro q u hq hu
    refine ⟨fun hmine => hq (h.slots q p u hu (hheld.symm.trans hmine)), hslot u⟩
  · intro d u hd
    rw [hkept] at hd
    rw [hslot]
    refine ⟨h.task d u hd, fun q _ => h.held_task d u q hd, fun hmine => ?_⟩
    rw [hat]
    exact h.held_task d u p hd (hheld.symm.trans hmine)
  · intro q u hu
    by_cases hq : q = p
    · subst q
      exact Or.inl ((hkept p).trans (htask u (hsw.user u hu)))
    · rw [hother q hq] at hu ⊢
      rw [hpc, Function.update_of_ne hq]
      exact h.current q u hu
  · rw [hlog]
    exact h.log

theorem RaceInv.switchLock_step (h : RaceInv s) (hp : s.pc p = .switchLock)
    (hstep : raceCpuStep cfg reply s p = some s') : RaceInv s' := by
  simp only [raceCpuStep, hp] at hstep
  split at hstep
  · obtain rfl := Option.some.inj hstep
    exact h.smp_step rfl rfl rfl (by rw [hp]; rfl) trivial
  · exact absurd hstep (by simp)

theorem RaceInv.switchSave_step (h : RaceInv s) (hp : s.pc p = .switchSave)
    (hstep : raceCpuStep cfg reply s p = some s') : RaceInv s' := by
  simp only [raceCpuStep, hp] at hstep
  obtain ⟨⟨k, task⟩, hsave, rfl⟩ := Option.map_eq_some_iff.mp hstep
  obtain ⟨hcpu, -, hslot, htask⟩ := switchSave_spec hsave
  have hview : ∀ c, RaceState.cpuView { s.setPc p (.switchTo task) with k := k } c =
      s.cpuView c := fun c => by
    simp only [RaceState.cpuView, KState.userThread, hcpu]
  have hkept : ∀ u, RaceState.slotView { s.setPc p (.switchTo task) with k := k } u =
      s.slotView u := hslot.slotView rfl
  refine h.private_step rfl (h.cpuLocks.keep (Or.inl rfl)) (h.procLocks.keep (Or.inl rfl)) hview
    (fun u => Or.inl (hkept u)) (Or.inl rfl) (by simp [hp, RacePc.leaving]) ?_ h.log
  intro t ht
  rw [hview]
  exact htask t ht

theorem RaceInv.switchTo_step {task : Option (Fin (2 * N))} (h : RaceInv s)
    (hp : s.pc p = .switchTo task) (hstep : raceCpuStep cfg reply s p = some s') :
    RaceInv s' := by
  simp only [raceCpuStep, hp] at hstep
  obtain ⟨k, hto, rfl⟩ := Option.map_eq_some_iff.mp hstep
  exact h.switch_step (switchTo_switched hto) (h.place_at hp) rfl rfl rfl rfl rfl (by rw [hp]; rfl)
    rfl (by rw [hp]; rfl) (by rw [hp]; rfl) trivial

theorem RaceInv.exitSwitch_step {wake : Bool} (h : RaceInv s)
    (hp : s.pc p = .exitSwitch own t wake) (hstep : raceCpuStep cfg reply s p = some s') :
    RaceInv s' := by
  have hplace := h.place_at hp
  simp only [raceCpuStep, hp] at hstep
  obtain ⟨k, hswitch, rfl⟩ := Option.map_eq_some_iff.mp hstep
  have hsw := kThreadContextSwitchNolock_switched hswitch
  refine h.switch_step hsw (fun _ => id) rfl rfl rfl rfl rfl (by rw [hp]; rfl) rfl
    (by rw [hp]; rfl) (by rw [hp]; rfl) ⟨hplace.1, fun hwake => ?_⟩
  exact (hsw.slot t).2.2.2.trans (hplace.2 hwake)

theorem RaceInv.exitUnlock_step {wake : Bool} (h : RaceInv s)
    (hp : s.pc p = .exitUnlock own t wake) (hstep : raceCpuStep cfg reply s p = some s') :
    RaceInv s' := by
  have hplace := h.place_at hp
  have hlocks := h.cpuLocks.release (p := p) (c := p) (by simp only [hp]; rfl)
  simp only [raceCpuStep, hp] at hstep
  split at hstep
  · rename_i hwake
    obtain rfl := Option.some.inj hstep
    exact h.private_step rfl hlocks (h.procLocks.keep (Or.inl rfl)) (fun _ => rfl)
      (fun _ => Or.inl rfl) (Or.inr (by rw [hp, hwake]; exact ⟨rfl, rfl⟩))
      (by simp [hp, RacePc.leaving]) ⟨hplace.1.trans hwake, hplace.2 hwake⟩ h.log
  · rename_i hwake
    obtain rfl := Option.some.inj hstep
    refine h.private_step rfl hlocks (h.procLocks.keep (Or.inl rfl)) (fun _ => rfl)
      (fun _ => Or.inl rfl) (Or.inl rfl) (by simp [hp, RacePc.leaving]) trivial ?_
    exact List.forall_mem_cons.mpr ⟨hplace.1.trans (Bool.eq_false_iff.mpr hwake), h.log⟩

theorem RaceInv.exitWakeCtid_step (h : RaceInv s) (hp : s.pc p = .exitWakeCtid own t)
    (hstep : raceCpuStep cfg reply s p = some s') : RaceInv s' := by
  have hplace := h.place_at hp
  simp only [raceCpuStep, hp] at hstep
  obtain rfl := Option.some.inj hstep
  exact h.goto (Or.inl rfl) (Or.inl rfl) (Or.inl rfl) (by simp [hp, RacePc.leaving])
    ⟨hplace.1, congrArg Registration.ctid hplace.2⟩

theorem RaceInv.exitWake_step {addr : Nat} (h : RaceInv s) (hp : s.pc p = .exitWake own addr)
    (hstep : raceCpuStep cfg reply s p = some s') : RaceInv s' := by
  have hplace := h.place_at hp
  simp only [raceCpuStep, hp] at hstep
  obtain rfl := Option.some.inj hstep
  refine h.private_step rfl (h.cpuLocks.keep (Or.inl rfl)) (h.procLocks.keep (Or.inl rfl))
    (fun _ => rfl) (fun _ => Or.inl rfl) (Or.inl rfl) (by simp [hp, RacePc.leaving]) trivial ?_
  exact List.forall_mem_cons.mpr ⟨hplace, h.log⟩

end ExitSteps

section Calls

variable {cfg : StackConfig} {s s' : RaceState N} {p : Fin N}

theorem pc_of_isUser {pc : RacePc N} (h : pc.isUser = true) : pc = .user := by
  cases pc <;> simp_all [RacePc.isUser]

/-- A call begins: the trap changes nothing that matters here. -/
theorem RaceInv.call_step {pc' : RacePc N} {frame : UserRegs} (h : RaceInv s)
    (hp : s.pc p = .user) (hcpuLock : pc'.cpuLock p = none) (hprocLock : pc'.procLock = none)
    (hheld : pc'.slotHeld = none) (hplace : RacePlace s p pc') :
    RaceInv { s.setPc p pc' with k := s.k.trap p frame } := by
  have hcpu : ∀ c, RaceState.cpuView { s.setPc p pc' with k := s.k.trap p frame } c =
      s.cpuView c := by
    intro c
    simp only [RaceState.cpuView, userThread_trap, trap_tiTask]
  exact h.private_step rfl (h.cpuLocks.keep (Or.inl hcpuLock))
    (h.procLocks.keep (Or.inl hprocLock)) hcpu (fun _ => Or.inl rfl) (Or.inl hheld)
    (by simp [hp, RacePc.leaving])
    (hplace.frame (fun _ _ => rfl) (fun c _ => by rw [hcpu]) (fun _ _ hu => by rw [hcpu, hu])
      (by rw [hcpu]) fun _ _ _ => rfl) h.log

theorem kSysSetTidAddress_cpu (k : KState N) (addr : Nat) :
    (kSysSetTidAddress k p addr).cpu = k.cpu := by
  unfold kSysSetTidAddress
  split
  · rfl
  · split
    · rfl
    · rfl

/-- The slot of the task follows what its thread registers. -/
theorem RaceInv.isTask_setTid {frame : UserRegs} {addr : Nat} {t : Fin (2 * N)} (h : RaceInv s)
    (htask : (s.cpuView p).task = some t) :
    (RaceState.slotView { s with
      k := kSysSetTidAddress (s.k.trap p frame) p addr
      reg := Function.update s.reg t ((s.reg t).setTid addr) } t).IsTask p := by
  obtain ⟨hhome, havail, hreg⟩ := h.task p t htask
  have hmatch : ((s.k.trap p frame).cpu p).tiTask = some t :=
    (trap_tiTask s.k p frame p).trans htask
  have hold : s.reg t = ⟨(s.k.thread t).flags, (s.k.thread t).ctid⟩ := hreg.symm
  have hthread : (s.k.trap p frame).thread = s.k.thread := rfl
  have hhome' : (s.k.thread t).cpu = some p := hhome
  have havail' : (s.k.thread t).avail = true := havail
  by_cases hflags : (s.k.thread t).flags &&& cloneChildCleartid = 0#64
  · simp [SlotView.IsTask, RaceState.slotView, kSysSetTidAddress, hmatch, hthread, hflags, hold,
      Registration.setTid, Registration.clears, ThreadInfo.registration, hhome', havail']
  · simp [SlotView.IsTask, RaceState.slotView, kSysSetTidAddress, hmatch, hthread, hflags, hold,
      Registration.setTid, Registration.clears, ThreadInfo.registration, hhome', havail']

/-- A thread registers another address for itself. -/
theorem RaceInv.setTid_step {frame : UserRegs} {addr : Nat} {t : Fin (2 * N)} (h : RaceInv s)
    (hp : s.pc p = .user) (huser : s.k.userThread p = some t) :
    RaceInv { s with
      k := kSysSetTidAddress (s.k.trap p frame) p addr
      reg := Function.update s.reg t ((s.reg t).setTid addr) } := by
  have htask : (s.cpuView p).task = some t := by
    refine (h.current p t huser).resolve_right ?_
    simp [hp, RacePc.leaving]
  have hhome := (h.task p t htask).1
  have hmatch : ((s.k.trap p frame).cpu p).tiTask = some t :=
    (trap_tiTask s.k p frame p).trans htask
  have hcpu : ∀ c, RaceState.cpuView { s with
      k := kSysSetTidAddress (s.k.trap p frame) p addr
      reg := Function.update s.reg t ((s.reg t).setTid addr) } c = s.cpuView c := by
    intro c
    have htrap := userThread_trap s.k p frame c
    have htask := trap_tiTask s.k p frame c
    simp only [KState.userThread] at htrap
    simp only [RaceState.cpuView, KState.userThread, kSysSetTidAddress_cpu, htrap, htask]
  have hslot : ∀ u, u ≠ t → RaceState.slotView { s with
      k := kSysSetTidAddress (s.k.trap p frame) p addr
      reg := Function.update s.reg t ((s.reg t).setTid addr) } u = s.slotView u := by
    intro u hu
    simp only [RaceState.slotView, kSysSetTidAddress, hmatch]
    split
    · simp [KState.trap, hu]
    · simp [KState.trap, hu]
  have hunheld : ∀ q, q ≠ p → (s.pc q).slotHeld ≠ some t :=
    fun q hq hheld => hq (h.holder_of_task htask hheld).1
  have hself : s.pc = Function.update s.pc p (s.pc p) := (Function.update_eq_self _ _).symm
  refine h.advance hself (h.cpuLocks.keep (Or.inr rfl))
    (h.procLocks.keep (Or.inr rfl)) ?_ (fun _ c _ _ => by rw [hcpu])
    (fun q _ _ _ hu => by rw [hcpu, hu]) (fun q _ => by rw [hcpu]) ?_ ?_ ?_
    (by rw [hp]; trivial) h.log
  · intro q u hq hu
    have hut : u ≠ t := by
      rintro rfl
      exact hunheld q hq hu
    exact ⟨fun hmine => hq (h.slots q p u hu hmine), hslot u hut⟩
  · intro q u hq hstay hu
    rcases h.current q u hu with hqt | hleaving
    · have hut : u ≠ t := by
        rintro rfl
        exact hq (Option.some.inj ((h.task q u hqt).1.symm.trans hhome))
      rw [hslot u hut]
    · exact absurd (hstay.symm.trans hleaving) (by simp)
  · intro d u hd
    rw [hcpu] at hd
    refine ⟨?_, fun q _ => h.held_task d u q hd, h.held_task d u p hd⟩
    by_cases hut : u = t
    · subst u
      obtain rfl : p = d := Option.some.inj (hhome.symm.trans (h.task d t hd).1)
      exact h.isTask_setTid htask
    · rw [hslot u hut]
      exact h.task d u hd
  · intro q u hu
    rw [hcpu] at hu ⊢
    exact h.current q u hu

end Calls

end BaremetalCrt
