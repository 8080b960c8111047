import BaremetalCrt.Thread.RaceFrame

/-!
# The steps of a clone call

Each access of `k_thread_clone` keeps the invariant. The slot belongs to the call
until the thread is put on its CPU, and again when it was taken back.
-/

namespace BaremetalCrt

variable {N : Nat}

section Access

variable (cfg : StackConfig) (current : UserRegs) (p c : Fin N) (t : Fin (2 * N))
  (k : KState N) (op : SlotOp)

theorem SlotOp.exec_cpu : (op.exec cfg current p c t k).cpu = k.cpu := by
  cases op <;> rfl

theorem SlotOp.exec_thread_ne {u : Fin (2 * N)} (hu : u ≠ t) :
    (op.exec cfg current p c t k).thread u = k.thread u := by
  cases op with
  | notifyCtid => rfl
  | notifyPtid => rfl
  | _ => exact Function.update_of_ne hu ..

theorem SlotOp.exec_registration :
    ((op.exec cfg current p c t k).thread t).registration =
      op.register (k.thread t).registration := by
  cases op <;> simp [SlotOp.exec, ThreadInfo.registration, SlotOp.register]

theorem SlotOp.exec_avail (h : op = .avail ∨ (k.thread t).avail = true) :
    ((op.exec cfg current p c t k).thread t).avail = true := by
  cases op with
  | avail => simp [SlotOp.exec]
  | _ => simpa [SlotOp.exec] using h

end Access

theorem infoOps_register (args : CloneArgs) (r : Registration) :
    (infoOps args).foldl (fun r op => op.register r) r = args.registration := by
  unfold infoOps CloneArgs.registration
  cases args.needCtid <;> cases args.needPtid <;> cases args.needTls <;> rfl

theorem notifyOps_register (args : CloneArgs) (r : Registration) :
    (notifyOps args).foldl (fun r op => op.register r) r = r := by
  unfold notifyOps
  split
  · split
    · rfl
    · rfl
  · split
    · rfl
    · rfl

/-- The accesses of a clone call leave the registration that its arguments ask for. -/
theorem cloneOps_register (args : CloneArgs) (r : Registration) :
    (cloneOps args).foldl (fun r op => op.register r) r = args.registration := by
  rw [cloneOps, List.foldl_append, List.foldl_append, infoOps_register, notifyOps_register]
  rfl

section CloneSteps

variable {cfg : StackConfig} {reply : MachineReply N} {s s' : RaceState N} {p : Fin N}

theorem RaceInv.lockSmp_step {args : CloneArgs} (h : RaceInv s) (hp : s.pc p = .lockSmp args)
    (hstep : raceCpuStep cfg reply s p = some s') : RaceInv s' := by
  simp only [raceCpuStep, hp] at hstep
  split at hstep
  · obtain rfl := Option.some.inj hstep
    exact h.smp_step rfl rfl rfl (by simp [hp, RacePc.leaving]) trivial
  · exact absurd hstep (by simp)

theorem RaceInv.search_step {args : CloneArgs} {i : Nat} (h : RaceInv s)
    (hp : s.pc p = .search args i) (hstep : raceCpuStep cfg reply s p = some s') :
    RaceInv s' := by
  have hleave : (s.pc p).leaving = false := by simp [hp, RacePc.leaving]
  simp only [raceCpuStep, hp] at hstep
  split at hstep
  · split at hstep
    · obtain rfl := Option.some.inj hstep
      exact h.smp_step rfl rfl rfl hleave trivial
    · obtain rfl := Option.some.inj hstep
      exact h.smp_step rfl rfl rfl hleave trivial
  · obtain rfl := Option.some.inj hstep
    exact h.smp_step rfl rfl rfl hleave trivial

theorem RaceInv.lockTarget_step {args : CloneArgs} {c : Fin N} (h : RaceInv s)
    (hp : s.pc p = .lockTarget args c) (hstep : raceCpuStep cfg reply s p = some s') :
    RaceInv s' := by
  simp only [raceCpuStep, hp] at hstep
  split at hstep
  · rename_i hfree
    obtain rfl := Option.some.inj hstep
    exact h.private_step rfl (h.cpuLocks.acquire hfree) (h.procLocks.keep (Or.inl rfl))
      (fun _ => rfl) (fun _ => Or.inl rfl) (Or.inl rfl) (by simp [hp, RacePc.leaving]) trivial
      h.log
  · exact absurd hstep (by simp)

theorem RaceInv.lockProc_step {args : CloneArgs} {c : Fin N} (h : RaceInv s)
    (hp : s.pc p = .lockProc args c) (hstep : raceCpuStep cfg reply s p = some s') :
    RaceInv s' := by
  simp only [raceCpuStep, hp] at hstep
  split at hstep
  · rename_i hfree
    obtain rfl := Option.some.inj hstep
    exact h.private_step rfl (h.cpuLocks.keep (Or.inr (by rw [hp]; rfl)))
      (h.procLock_acquire hfree) (fun _ => rfl) (fun _ => Or.inl rfl) (Or.inl rfl)
      (by simp [hp, RacePc.leaving]) trivial h.log
  · exact absurd hstep (by simp)

/-- A creation that finds a slot, which no call works on. -/
theorem RaceInv.found_step {args : CloneArgs} {c : Fin N} {i : Nat} {t : Fin (2 * N)}
    (h : RaceInv s) (hp : s.pc p = .slot args c i) (hfree : (s.k.thread t).avail = false)
    (hapart : ∀ q, (s.pc q).exitUses ≠ some t) :
    RaceInv (s.setPc p (.create args c t createOps)) := by
  have hunheld : ∀ q, q ≠ p → (s.pc q).slotHeld ≠ some t := by
    intro q hq hheld
    rcases h.held_avail hheld with havail | hproc | huses
    · exact absurd (hfree.symm.trans havail) (by simp)
    · exact hq (h.procLocks.exclusive q p () hproc (by simp only [hp]; rfl))
    · exact hapart q huses
  refine h.hold_step (.create args c t createOps) s.cpuLock
    (h.cpuLocks.keep (Or.inr (by simp only [hp]; rfl)))
    (h.procLocks.keep (Or.inr (by simp only [hp]; rfl))) rfl hunheld ?_
    (by simp [hp, RacePc.leaving]) (Or.inl (by decide))
  intro d hd
  exact absurd (hfree.symm.trans (h.task d t hd).2.1) (by simp)

theorem RaceInv.slot_step {args : CloneArgs} {c : Fin N} {i : Nat} (h : RaceInv s)
    (hp : s.pc p = .slot args c i) (hapart : SlotsApart s (.step p reply))
    (hstep : raceCpuStep cfg reply s p = some s') : RaceInv s' := by
  simp only [raceCpuStep, hp] at hstep
  split at hstep
  · rename_i hi
    split at hstep
    · obtain rfl := Option.some.inj hstep
      exact h.goto (Or.inr (by rw [hp]; rfl)) (Or.inr (by rw [hp]; rfl)) (Or.inl rfl)
        (by simp [hp, RacePc.leaving]) trivial
    · rename_i hfree
      obtain rfl := Option.some.inj hstep
      rw [Bool.not_eq_true] at hfree
      simp only [SlotsApart, hp] at hapart
      exact h.found_step hp hfree (hapart ⟨i, hi⟩ rfl hfree)
  · obtain rfl := Option.some.inj hstep
    exact h.private_step rfl (h.cpuLocks.keep (Or.inr (by rw [hp]; rfl)))
      (h.procLock_release (by rw [hp]; rfl)) (fun _ => rfl) (fun _ => Or.inl rfl) (Or.inl rfl)
      (by simp [hp, RacePc.leaving]) trivial h.log

/-- An access to the slot that the call is preparing. -/
theorem RaceInv.access_step {pc' : RacePc N} {c : Fin N} {t : Fin (2 * N)} (h : RaceInv s)
    (op : SlotOp) (hcpuLock : pc'.cpuLock p = (s.pc p).cpuLock p)
    (hprocLock : pc'.procLock = (s.pc p).procLock) (hheld : (s.pc p).slotHeld = some t)
    (hheld' : pc'.slotHeld = some t) (hat : (s.pc p).taskAt p = none)
    (hat' : pc'.taskAt p = none) (hleave : (s.pc p).leaving = true → pc'.leaving = true)
    (hplace : RacePlace { s.setPc p pc' with k := op.exec cfg reply.current p c t s.k } p pc') :
    RaceInv { s.setPc p pc' with k := op.exec cfg reply.current p c t s.k } := by
  refine h.private_step rfl (h.cpuLocks.keep (Or.inr hcpuLock))
    (h.procLocks.keep (Or.inr hprocLock)) ?_ ?_
    (Or.inr ⟨hheld'.trans hheld.symm, hat'.trans hat.symm⟩) hleave hplace h.log
  · intro d
    simp only [RaceState.cpuView, KState.userThread, SlotOp.exec_cpu]
  · intro u
    by_cases hu : u = t
    · exact Or.inr ⟨hu ▸ hheld, hat⟩
    · refine Or.inl ?_
      simp only [RaceState.slotView, SlotOp.exec_thread_ne cfg reply.current p c t s.k op hu]
      rfl

theorem RaceInv.create_step {args : CloneArgs} {c : Fin N} {t : Fin (2 * N)}
    {todo : List SlotOp} (h : RaceInv s) (hp : s.pc p = .create args c t todo)
    (hstep : raceCpuStep cfg reply s p = some s') : RaceInv s' := by
  have hplace := h.place_at hp
  cases todo with
  | nil =>
      simp only [raceCpuStep, hp] at hstep
      obtain rfl := Option.some.inj hstep
      exact h.private_step rfl (h.cpuLocks.keep (Or.inr (by simp only [hp]; rfl)))
        (h.procLock_release (by rw [hp]; rfl)) (fun _ => rfl) (fun _ => Or.inl rfl)
        (Or.inr (by rw [hp]; exact ⟨rfl, rfl⟩)) (by simp [hp, RacePc.leaving])
        ⟨hplace.resolve_left List.not_mem_nil, cloneOps_register args _⟩ h.log
  | cons op todo =>
      simp only [raceCpuStep, hp] at hstep
      obtain rfl := Option.some.inj hstep
      apply h.access_step op (by rw [hp]; rfl) (by rw [hp]; rfl) (by rw [hp]; rfl) rfl
        (by rw [hp]; rfl) rfl (by simp [hp, RacePc.leaving])
      rcases hplace with hmem | havail
      · rcases List.mem_cons.mp hmem with hop | hmem
        · exact Or.inr (SlotOp.exec_avail _ _ _ _ _ _ _ (Or.inl hop.symm))
        · exact Or.inl hmem
      · exact Or.inr (SlotOp.exec_avail _ _ _ _ _ _ _ (Or.inr havail))

theorem RaceInv.fill_cons_step {args : CloneArgs} {c : Fin N} {t : Fin (2 * N)} {op : SlotOp}
    {todo : List SlotOp} (h : RaceInv s) (hp : s.pc p = .fill args c t (op :: todo))
    (hstep : raceCpuStep cfg reply s p = some s') : RaceInv s' := by
  have hplace := h.place_at hp
  simp only [raceCpuStep, hp] at hstep
  obtain rfl := Option.some.inj hstep
  apply h.access_step op (by rw [hp]; rfl) (by rw [hp]; rfl) (by rw [hp]; rfl) rfl
    (by rw [hp]; rfl) rfl (by simp [hp, RacePc.leaving])
  refine ⟨SlotOp.exec_avail _ _ _ _ _ _ _ (Or.inr hplace.1), ?_⟩
  have hreg := SlotOp.exec_registration cfg reply.current p c t s.k op
  change todo.foldl _ ((op.exec cfg reply.current p c t s.k).thread t).registration = _
  rw [hreg]
  exact hplace.2

/-- An exit that is under way has its own CPU locked. -/
theorem RacePc.cpuLock_of_leaving {pc : RacePc N} (h : pc.leaving = true) (p : Fin N) :
    pc.cpuLock p = some p := by
  cases pc with
  | exitDestroy own t => rfl
  | exitFlags own t => rfl
  | exitCtid own t => rfl
  | exitClear own t addr => rfl
  | exitSwitch own t wake => rfl
  | _ => exact absurd h Bool.false_ne_true

/-- A CPU that another call has locked runs its task, if it runs a user thread. -/
theorem RaceInv.task_of_user {c : Fin N} {u : Fin (2 * N)} (h : RaceInv s)
    (hlock : (s.pc p).cpuLock p = some c) (hstay : (s.pc p).leaving = false)
    (hu : (s.cpuView c).user = some u) : (s.cpuView c).task = some u := by
  refine (h.current c u hu).resolve_right fun hleaving => ?_
  -- the exit would hold the lock of its CPU
  obtain rfl := h.cpuLocks.exclusive c p c (RacePc.cpuLock_of_leaving hleaving c) hlock
  exact absurd (hstay.symm.trans hleaving) (by simp)

/-- The new thread is put on a CPU that has none. -/
theorem RaceInv.run_step {args : CloneArgs} {c : Fin N} {t : Fin (2 * N)} (h : RaceInv s)
    (hp : s.pc p = .fill args c t []) (hidle : (s.k.cpu c).tiTask = none) :
    RaceInv { s.setPc p (.ipi c t) with
      k := kThreadRun s.k t c
      reg := Function.update s.reg t args.registration } := by
  have hplace := h.place_at hp
  have hheld : (s.pc p).slotHeld = some t := by rw [hp]; rfl
  have hlock : (s.pc p).cpuLock p = some c := by rw [hp]; rfl
  have htask : (s.cpuView c).task = none := hidle
  have huser : (s.cpuView c).user = none := by
    rw [Option.eq_none_iff_forall_ne_some]
    intro u hu
    have := h.task_of_user hlock (by rw [hp]; rfl) hu
    exact absurd (htask.symm.trans this) (by simp)
  have hunheld : ∀ q, q ≠ p → (s.pc q).slotHeld ≠ some t :=
    fun q hq hqt => hq (h.slots q p t hqt hheld)
  have hnotask : ∀ d, (s.cpuView d).task ≠ some t := by
    intro d hd
    have hat := h.held_task d t p hd hheld
    rw [hp] at hat
    cases hat
  have hleft : ∀ u, (RacePc.ipi c t).slotHeld ≠ some u := by
    intro u hu
    cases hu
  refine h.cpu_step (c := c) rfl (h.cpuLocks.keep (Or.inr (by simp only [hp]; rfl)))
    (h.procLocks.keep (Or.inl rfl)) hlock ?_ ?_ (fun _ => ⟨huser, ?_⟩) ?_
    (fun u hu => absurd hu (hleft u)) ?_ ?_ (by simp [hp, RacePc.leaving]) ?_ h.log
  · intro d hd
    simp [RaceState.cpuView, KState.userThread, kThreadRun, hd]
  · intro _ u _
    rw [htask]
    simp
  · rw [← huser]
    simp [RaceState.cpuView, KState.userThread, kThreadRun]
  · intro u
    by_cases hu : u = t
    · exact Or.inr (hu ▸ ⟨hunheld, fun d _ => hnotask d⟩)
    · exact Or.inl (by simp [RaceState.slotView, kThreadRun, hu])
  · intro u hu
    obtain rfl : t = u := by simpa [RaceState.cpuView, kThreadRun] using hu
    refine ⟨?_, hunheld, hleft t⟩
    simp only [SlotView.IsTask, RaceState.slotView, kThreadRun]
    simp only [KState.modifyCpu_thread, KState.modifyThread_thread, Function.update_self]
    exact ⟨trivial, hplace.1, hplace.2⟩
  · intro u hu
    have hsame : (s.cpuView c).user = some u := by
      simpa [RaceState.cpuView, KState.userThread, kThreadRun] using hu
    exact absurd (huser.symm.trans hsame) (by simp)
  · simp [RacePlace, RaceState.cpuView, kThreadRun]

theorem RaceInv.fill_step {args : CloneArgs} {c : Fin N} {t : Fin (2 * N)} {todo : List SlotOp}
    (h : RaceInv s) (hp : s.pc p = .fill args c t todo)
    (hapart : SlotsApart s (.step p reply)) (hstep : raceCpuStep cfg reply s p = some s') :
    RaceInv s' := by
  cases todo with
  | nil =>
      simp only [raceCpuStep, hp] at hstep
      obtain rfl := Option.some.inj hstep
      simp only [SlotsApart, hp] at hapart
      exact h.run_step hp hapart
  | cons op todo => exact h.fill_cons_step hp hstep

/-- The task of a CPU is stopped by a call that has its CPU locked; no other call has
its slot. -/
theorem RaceInv.stop_step {c : Fin N} {t : Fin (2 * N)} {k : KState N} {pc' : RacePc N}
    (h : RaceInv s) (hunheld : ∀ q, q ≠ p → (s.pc q).slotHeld ≠ some t)
    (hlock : (s.pc p).cpuLock p = some c) (htask : (s.cpuView c).task = some t)
    (hstop : kThreadStop s.k t = some k) (hcpuLock : pc'.cpuLock p = some c)
    (hprocLock : pc'.procLock = none) (hheld : pc'.slotHeld = some t)
    (hleave : (s.pc p).leaving = true → pc'.leaving = true)
    (hgone : ((s.cpuView c).user = none ∧ (s.pc c).switching ≠ some t) ∨
      (c = p ∧ pc'.leaving = true))
    (hplace : RacePlace { s.setPc p pc' with k := k } p pc') :
    RaceInv { s.setPc p pc' with k := k } := by
  obtain ⟨hhome, -, -⟩ := h.task c t htask
  obtain ⟨c', hc', rfl⟩ := Option.map_eq_some_iff.mp hstop
  obtain rfl : c' = c := Option.some.inj (hc'.symm.trans hhome)
  have hother : ∀ d, d ≠ c' → (s.cpuView d).task ≠ some t := by
    intro d hd hdt
    exact hd (Option.some.inj ((h.task d t hdt).1.symm.trans hhome))
  have hkept : RaceState.cpuView { s.setPc p pc' with
      k := (s.k.modifyCpu c' fun cpu => { cpu with tiTask := none }).modifyThread t
        fun ti => { ti with running := false, cpu := none } } c' =
      ⟨(s.cpuView c').user, none⟩ := by
    simp [RaceState.cpuView, KState.userThread]
  refine h.cpu_step (c := c') rfl (h.cpuLocks.keep (Or.inr (hcpuLock.trans hlock.symm)))
    (h.procLocks.keep (Or.inl hprocLock)) hlock ?_ ?_ ?_ ?_ ?_ ?_ ?_ (fun _ => hleave) hplace
    h.log
  · intro d hd
    simp [RaceState.cpuView, KState.userThread, hd]
  · intro hne u hu hut
    obtain rfl := Option.some.inj (htask.symm.trans hut)
    exact (hgone.resolve_right fun hboth => hne hboth.1).2 hu
  · intro hne
    rw [hkept]
    have hnone := (hgone.resolve_right fun hboth => hne hboth.1).1
    exact ⟨hnone, hnone⟩
  · intro u
    by_cases hu : u = t
    · exact Or.inr (hu ▸ ⟨hunheld, hother⟩)
    · exact Or.inl (by simp [RaceState.slotView, RaceState.setPc, hu])
  · intro u hu
    obtain rfl := Option.some.inj (hheld.symm.trans hu)
    exact ⟨hunheld, hother⟩
  · intro u hu
    rw [hkept] at hu
    exact absurd hu (by simp)
  · intro u hu
    rw [hkept] at hu
    rcases hgone with ⟨hnone, -⟩ | ⟨rfl, hgo⟩
    · exact absurd (hnone.symm.trans hu) (by simp)
    · refine Or.inr ?_
      change (Function.update s.pc c' pc' c').leaving = true
      rw [Function.update_self]
      exact hgo

theorem RaceInv.ipi_step {c : Fin N} {t : Fin (2 * N)} (h : RaceInv s)
    (hp : s.pc p = .ipi c t) (hstep : raceCpuStep cfg reply s p = some s') : RaceInv s' := by
  have hplace := h.place_at hp
  simp only [raceCpuStep, hp] at hstep
  obtain rfl := Option.some.inj hstep
  split
  · exact h.goto (Or.inr (by rw [hp]; rfl)) (Or.inl rfl) (Or.inr (by rw [hp]; exact ⟨rfl, rfl⟩))
      (by simp [hp, RacePc.leaving]) hplace
  · exact h.goto (Or.inr (by rw [hp]; rfl)) (Or.inl rfl) (Or.inl rfl)
      (by simp [hp, RacePc.leaving]) trivial

theorem RaceInv.undoStop_step {c : Fin N} {t : Fin (2 * N)} (h : RaceInv s)
    (hp : s.pc p = .undoStop c t) (hapart : SlotsApart s (.step p reply))
    (hstep : raceCpuStep cfg reply s p = some s') : RaceInv s' := by
  have htask : (s.cpuView c).task = some t := h.place_at hp
  have hlock : (s.pc p).cpuLock p = some c := by rw [hp]; rfl
  have hstay : (s.pc p).leaving = false := by rw [hp]; rfl
  simp only [SlotsApart, hp] at hapart
  have huser : (s.cpuView c).user = none := by
    rw [Option.eq_none_iff_forall_ne_some]
    intro u hu
    obtain rfl := Option.some.inj ((h.task_of_user hlock hstay hu).symm.trans htask)
    exact hapart.1 (ti_of_userThread hu)
  have hunheld : ∀ q, q ≠ p → (s.pc q).slotHeld ≠ some t := by
    intro q hq hheld
    exact hq (h.cpuLocks.exclusive q p c (h.holder_of_task htask hheld).2 hlock)
  simp only [raceCpuStep, hp] at hstep
  obtain ⟨k, hstop, rfl⟩ := Option.map_eq_some_iff.mp hstep
  apply h.stop_step hunheld hlock htask hstop rfl rfl rfl (by simp [hstay])
    (Or.inl ⟨huser, hapart.2⟩)
  obtain ⟨c', -, rfl⟩ := Option.map_eq_some_iff.mp hstop
  have havail := (h.task c t htask).2.1
  simpa [RacePlace, RaceState.slotView] using havail

/-- The slot that a call holds is marked free, or left alone. -/
theorem RaceInv.destroy_step {t : Fin (2 * N)} {pc' : RacePc N} (h : RaceInv s)
    (hheld : (s.pc p).slotHeld = some t) (hat : (s.pc p).taskAt p = none)
    (hcpuLock : pc'.cpuLock p = (s.pc p).cpuLock p) (hprocLock : pc'.procLock = none)
    (hheld' : pc'.slotHeld = none ∨ pc'.slotHeld = some t) (hat' : pc'.taskAt p = none)
    (hleave : (s.pc p).leaving = true → pc'.leaving = true)
    (hplace : RacePlace { s.setPc p pc' with k := (kThreadDestroy s.k t).1 } p pc') :
    RaceInv { s.setPc p pc' with k := (kThreadDestroy s.k t).1 } := by
  refine h.private_step rfl (h.cpuLocks.keep (Or.inr hcpuLock))
    (h.procLocks.keep (Or.inl hprocLock)) ?_ ?_ ?_ hleave hplace h.log
  · intro d
    simp only [RaceState.cpuView, KState.userThread, kThreadDestroy]
    split
    · rfl
    · rfl
  · intro u
    by_cases hu : u = t
    · exact Or.inr ⟨hu ▸ hheld, hat⟩
    · refine Or.inl ?_
      simp only [RaceState.slotView, kThreadDestroy]
      split
      · rfl
      · simp [RaceState.setPc, hu]
  · exact hheld'.imp_right fun heq => ⟨heq.trans hheld.symm, hat'.trans hat.symm⟩

theorem RaceInv.undoDestroy_step {c : Fin N} {t : Fin (2 * N)} (h : RaceInv s)
    (hp : s.pc p = .undoDestroy c t) (hstep : raceCpuStep cfg reply s p = some s') :
    RaceInv s' := by
  simp only [raceCpuStep, hp] at hstep
  obtain rfl := Option.some.inj hstep
  exact h.destroy_step (by rw [hp]; rfl) (by rw [hp]; rfl) (by rw [hp]; rfl) rfl (Or.inl rfl) rfl
    (by simp [hp, RacePc.leaving]) trivial

theorem RaceInv.unlockTarget_step {c : Fin N} (h : RaceInv s) (hp : s.pc p = .unlockTarget c)
    (hstep : raceCpuStep cfg reply s p = some s') : RaceInv s' := by
  simp only [raceCpuStep, hp] at hstep
  obtain rfl := Option.some.inj hstep
  exact h.private_step rfl (h.cpuLocks.release (by simp only [hp]; rfl))
    (h.procLocks.keep (Or.inl rfl)) (fun _ => rfl) (fun _ => Or.inl rfl) (Or.inl rfl)
    (by simp [hp, RacePc.leaving]) trivial h.log

end CloneSteps

end BaremetalCrt
