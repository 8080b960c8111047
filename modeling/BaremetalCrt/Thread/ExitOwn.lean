import BaremetalCrt.Thread.RaceExit

/-!
# Which word an exit clears

An exit clears and wakes the thread id word that its thread registered, as
long as no creation takes the slot of an exit that still reads it, no thread is
put on a CPU that has one, and no clone call takes back a thread that its CPU has
switched to.
-/

namespace BaremetalCrt

open LabelledSystem

variable {N : Nat}

theorem RaceInv.cpuStep {cfg : StackConfig} {reply : MachineReply N} {s s' : RaceState N}
    {p : Fin N} (h : RaceInv s) (hapart : SlotsApart s (.step p reply))
    (hstep : raceCpuStep cfg reply s p = some s') : RaceInv s' := by
  cases hp : s.pc p with
  | user =>
      rw [raceCpuStep, hp] at hstep
      exact absurd hstep (by simp)
  | lockSmp args => exact h.lockSmp_step hp hstep
  | search args i => exact h.search_step hp hstep
  | lockTarget args c => exact h.lockTarget_step hp hstep
  | lockProc args c => exact h.lockProc_step hp hstep
  | slot args c i => exact h.slot_step hp hapart hstep
  | create args c t todo => exact h.create_step hp hstep
  | fill args c t todo => exact h.fill_step hp hapart hstep
  | ipi c t => exact h.ipi_step hp hstep
  | undoStop c t => exact h.undoStop_step hp hapart hstep
  | undoDestroy c t => exact h.undoDestroy_step hp hstep
  | unlockTarget c => exact h.unlockTarget_step hp hstep
  | switchLock => exact h.switchLock_step hp hstep
  | switchSave => exact h.switchSave_step hp hstep
  | switchTo task => exact h.switchTo_step hp hstep
  | exitLock own => exact h.exitLock_step hp hstep
  | exitStop own t => exact h.exitStop_step hp hstep
  | exitDestroy own t => exact h.exitDestroy_step hp hstep
  | exitFlags own t => exact h.exitFlags_step hp hstep
  | exitCtid own t => exact h.exitCtid_step hp hstep
  | exitClear own t addr => exact h.exitClear_step hp hstep
  | exitSwitch own t wake => exact h.exitSwitch_step hp hstep
  | exitUnlock own t wake => exact h.exitUnlock_step hp hstep
  | exitWakeCtid own t => exact h.exitWakeCtid_step hp hstep
  | exitWake own addr => exact h.exitWake_step hp hstep

theorem RaceInv.step {cfg : StackConfig} {s s' : RaceState N} {l : RaceLabel N} (h : RaceInv s)
    (hapart : SlotsApart s l) (hstep : raceStep cfg s l = some s') : RaceInv s' := by
  cases l with
  | clone p frame args =>
      simp only [raceStep, Bool.and_eq_true] at hstep
      split at hstep
      · rename_i hguard
        have hp := pc_of_isUser hguard.1
        split at hstep
        · obtain rfl := Option.some.inj hstep
          have hcall : RaceInv { s.setPc p .user with k := s.k.trap p frame } :=
            h.call_step hp rfl rfl rfl trivial
          rwa [RaceState.setPc, ← hp, Function.update_eq_self] at hcall
        · obtain rfl := Option.some.inj hstep
          exact h.call_step hp rfl rfl rfl trivial
      · exact absurd hstep (by simp)
  | exit p frame =>
      simp only [raceStep] at hstep
      split at hstep
      · rename_i hguard
        obtain ⟨t, ht, rfl⟩ := Option.map_eq_some_iff.mp hstep
        exact h.call_step (pc_of_isUser hguard) rfl rfl rfl ⟨t, ht, rfl⟩
      · exact absurd hstep (by simp)
  | setTidAddress p frame addr =>
      simp only [raceStep] at hstep
      split at hstep
      · rename_i hguard
        obtain ⟨t, ht, rfl⟩ := Option.map_eq_some_iff.mp hstep
        exact h.setTid_step (pc_of_isUser hguard) ht
      · exact absurd hstep (by simp)
  | contextSwitch p frame =>
      simp only [raceStep] at hstep
      split at hstep
      · rename_i hguard
        obtain rfl := Option.some.inj hstep
        exact h.call_step (pc_of_isUser hguard) rfl rfl rfl trivial
      · exact absurd hstep (by simp)
  | step p reply => exact h.cpuStep hapart hstep

/-- The calls with which the system starts: its own threads are set up and first run. -/
def ThreadCall.isBoot : ThreadCall N → Bool
  | .initIdle .. => true
  | .initMain .. => true
  | .contextSwitch .. => true
  | _ => false

/-- Every CPU runs its idle thread, its task, or nothing yet. -/
def Settled (k : KState N) : Prop :=
  ∀ p t, k.userThread p = some t → (k.cpu p).tiTask = some t

theorem Settled.initIdle {cfg : StackConfig} {k : KState N} {c : Fin N} {lead : Bool}
    {current : UserRegs} (h : Settled k) (hnone : (k.cpu c).tiIdle = none) :
    Settled (initIdleThread cfg current c lead k).1 := by
  unfold initIdleThread kThreadCreate
  cases findFreeSlot k with
  | none => exact h
  | some slot =>
      intro p t ht
      have hold := h p t
      by_cases hpc : p = c
      · subst p
        simp only [KState.userThread, KState.modifyCpu_cpu, KState.modifyThread_cpu, takeSlot_cpu,
          Function.update_self] at ht ⊢
        apply hold
        split at ht
        · exact absurd ht (by simp)
        · rw [KState.userThread, hnone, ht]
          rfl
      · simp only [KState.userThread, KState.modifyCpu_cpu, KState.modifyThread_cpu, takeSlot_cpu,
          Function.update_of_ne hpc] at ht ⊢
        exact hold ht

theorem Settled.initMain {k : KState N} {c : Fin N} {current : UserRegs}
    {spUser spIntr start : Nat} (h : Settled k) (hnone : ∀ d, (k.cpu d).tiTask = none) :
    Settled (initMainThread current c spUser spIntr start k).1 := by
  unfold initMainThread kThreadCreate
  cases findFreeSlot k with
  | none => exact h
  | some slot =>
      intro p t ht
      -- no CPU runs a user thread before there is a task
      have hold : k.userThread p = some t := by
        by_cases hpc : p = c
        · subst p
          simpa [KState.userThread, kThreadRun, kProcSetLeader] using ht
        · simpa [KState.userThread, kThreadRun, kProcSetLeader, hpc] using ht
      exact absurd ((hnone p).symm.trans (h p t hold)) (by simp)

theorem Settled.boot_step {cfg : StackConfig} {lead : Fin N} {k k' : KState N}
    {call : ThreadCall N} (h : Settled k) (hinv : ThreadInv k) (hboot : call.isBoot = true)
    (hstep : threadStep cfg lead k call = some k') : Settled k' := by
  cases call with
  | initIdle c current =>
      simp only [threadStep] at hstep
      split at hstep
      · rename_i hnone
        obtain rfl := Option.some.inj hstep
        exact h.initIdle hnone
      · exact absurd hstep (by simp)
  | initMain current spUser spIntr start =>
      simp only [threadStep] at hstep
      split at hstep
      · rename_i hnone
        obtain rfl := Option.some.inj hstep
        exact h.initMain (hinv.task_none hnone)
      · exact absurd hstep (by simp)
  | contextSwitch p frame =>
      have hsw := kThreadContextSwitchNolock_switched hstep
      intro q t ht
      by_cases hqp : q = p
      · subst q
        exact hsw.task.trans (hsw.user t ht)
      · rw [KState.userThread, hsw.other q hqp] at ht
        rw [hsw.other q hqp, trap_tiTask]
        exact h q t ((userThread_trap k p frame q).symm.trans ht)
  | clone p frame current ipi args => exact absurd hboot (by simp [ThreadCall.isBoot])
  | exit p frame ipi => exact absurd hboot (by simp [ThreadCall.isBoot])

/-- A system that has started is settled, and its tables are consistent. -/
theorem settled_of_boot {cfg : StackConfig} {lead : Fin N} {present : Fin N → Bool}
    {regs : UserRegs} {word : Nat → BitVec 32} {calls : List (ThreadCall N)} {k : KState N}
    (hcalls : ∀ call ∈ calls, call.isBoot = true)
    (hrun : exec (threadStep cfg lead) (KState.boot present regs word) calls = some k) :
    ThreadInv k ∧ Settled k := by
  have hstart : ThreadInv (KState.boot present regs word) ∧
      Settled (KState.boot present regs word) :=
    ⟨ThreadInv.boot present regs word,
      fun _ _ ht => absurd ht (by simp [KState.userThread, KState.boot])⟩
  refine exec_invariant_of_labels (I := fun k => ThreadInv k ∧ Settled k) hstart hcalls hrun ?_
  rintro k call k' ⟨hinv, hsettled⟩ hboot hstep
  exact ⟨hinv.move (threadStep_move hstep), hsettled.boot_step hinv hboot hstep⟩

theorem RaceInv.start {k : KState N} (hinv : ThreadInv k) (hsettled : Settled k) :
    RaceInv (RaceState.start k) where
  cpuLocks := fun _ _ h => absurd h (by simp [RaceState.start, RacePc.cpuLock])
  procLocks := fun _ _ h => absurd h (by simp [RaceState.start, RacePc.procLock])
  slots := fun _ _ _ h => absurd h (by simp [RaceState.start, RacePc.slotHeld, RacePc.exitUses])
  task := by
    intro c t hc
    obtain ⟨hrun, hhome⟩ := (hinv.consistent.task_iff c t).mp hc
    exact ⟨hhome, hinv.consistent.avail_of_running t hrun, rfl⟩
  held_task := fun _ _ _ _ h =>
    absurd h (by simp [RaceState.start, RacePc.slotHeld, RacePc.exitUses])
  current := fun q t hq => Or.inl (hsettled q t hq)
  place := fun _ => trivial
  log := fun _ h => absurd h List.not_mem_nil

/-- The registration of the thread whose exit a CPU is in. -/
def RacePc.exiting : RacePc N → Option Registration
  | .exitLock own => some own
  | .exitStop own _ => some own
  | .exitDestroy own _ => some own
  | .exitFlags own _ => some own
  | .exitCtid own _ => some own
  | .exitClear own _ _ => some own
  | .exitSwitch own _ _ => some own
  | .exitUnlock own _ _ => some own
  | .exitWakeCtid own _ => some own
  | .exitWake own _ => some own
  | _ => none

/-- An exit leaves user memory alone, but for the access that clears a word. -/
theorem exit_keeps_word {cfg : StackConfig} {reply : MachineReply N} {s s' : RaceState N}
    {p : Fin N} {own : Registration} (hexit : (s.pc p).exiting = some own)
    (hclear : ∀ t addr, s.pc p ≠ .exitClear own t addr)
    (hstep : raceCpuStep cfg reply s p = some s') : s'.k.word = s.k.word := by
  cases hp : s.pc p with
  | exitClear own' t addr =>
      rw [hp] at hexit
      obtain rfl := Option.some.inj hexit
      exact absurd hp (hclear t addr)
  | exitLock own' =>
      simp only [raceCpuStep, hp] at hstep
      split at hstep
      · split at hstep
        · obtain rfl := Option.some.inj hstep
          rfl
        · obtain rfl := Option.some.inj hstep
          rfl
      · exact absurd hstep (by simp)
  | exitStop own' t =>
      simp only [raceCpuStep, hp] at hstep
      obtain ⟨k, hstop, rfl⟩ := Option.map_eq_some_iff.mp hstep
      obtain ⟨c, -, rfl⟩ := Option.map_eq_some_iff.mp hstop
      rfl
  | exitDestroy own' t =>
      simp only [raceCpuStep, hp, kThreadDestroy] at hstep
      split at hstep
      · obtain rfl := Option.some.inj hstep
        rfl
      · split at hstep
        · obtain rfl := Option.some.inj hstep
          rfl
        · obtain rfl := Option.some.inj hstep
          rfl
  | exitSwitch own' t wake =>
      simp only [raceCpuStep, hp] at hstep
      obtain ⟨k, hswitch, rfl⟩ := Option.map_eq_some_iff.mp hstep
      exact (kThreadContextSwitchNolock_switched hswitch).word
  | exitUnlock own' t wake =>
      simp only [raceCpuStep, hp] at hstep
      split at hstep
      · obtain rfl := Option.some.inj hstep
        rfl
      · obtain rfl := Option.some.inj hstep
        rfl
  | exitFlags | exitCtid | exitWakeCtid | exitWake =>
      simp only [raceCpuStep, hp] at hstep
      obtain rfl := Option.some.inj hstep
      rfl
  | _ =>
      rw [hp] at hexit
      exact absurd hexit (by simp [RacePc.exiting])

/-- An exit stores only to the word that its thread has registered. -/
theorem RaceInv.exit_word {cfg : StackConfig} {reply : MachineReply N} {s s' : RaceState N}
    {p : Fin N} {own : Registration} (h : RaceInv s) (hexit : (s.pc p).exiting = some own)
    (hstep : raceCpuStep cfg reply s p = some s') {addr : Nat}
    (hchange : s'.k.word addr ≠ s.k.word addr) : own.clears = true ∧ addr = own.ctid := by
  by_cases hclear : ∃ t a, s.pc p = .exitClear own t a
  · obtain ⟨t, a, hp⟩ := hclear
    obtain ⟨⟨hclears, -⟩, haddr⟩ := h.place_at hp
    simp only [raceCpuStep, hp] at hstep
    obtain rfl := Option.some.inj hstep
    refine ⟨hclears, ?_⟩
    by_contra hne
    apply hchange
    exact Function.update_of_ne (haddr ▸ hne) ..
  · simp only [not_exists] at hclear
    exact absurd (congrFun (exit_keeps_word hexit hclear hstep) addr) hchange

/-- In every interleaving of exits and clone calls after the start of the system,
as long as no creation takes a slot that an exit still reads, every thread is
put on a CPU without a task and none is taken back that its CPU has switched to:
what the exits have cleared and woken is what their threads had registered, an
exit that did neither had no such registration, and the next access of an exit
stores to no other word. -/
theorem exit_clears_own_ctid (cfg : StackConfig) (lead : Fin N) (present : Fin N → Bool)
    (regs : UserRegs) (word : Nat → BitVec 32) (calls : List (ThreadCall N)) (k : KState N)
    (hcalls : ∀ call ∈ calls, call.isBoot = true)
    (hboot : exec (threadStep cfg lead) (KState.boot present regs word) calls = some k)
    (ls : List (RaceLabel N)) (s : RaceState N)
    (hapart : Along (raceStep cfg) SlotsApart (RaceState.start k) ls)
    (hrun : exec (raceStep cfg) (RaceState.start k) ls = some s) :
    (∀ e ∈ s.log, e.Sound) ∧
    ∀ p own, (s.pc p).exiting = some own →
      ∀ reply s', raceStep cfg s (.step p reply) = some s' →
        ∀ addr, s'.k.word addr ≠ s.k.word addr → own.clears = true ∧ addr = own.ctid := by
  obtain ⟨hinv, hsettled⟩ := settled_of_boot hcalls hboot
  have h : RaceInv s := exec_invariant (fun _ _ _ hs hok hl => RaceInv.step hs hok hl)
    (RaceInv.start hinv hsettled) hapart hrun
  exact ⟨h.log, fun p own hexit reply s' hstep addr hchange => h.exit_word hexit hstep hchange⟩

/-- Start on three cores. -/
def bootThree : List (ThreadCall 3) :=
  [.initMain (fun _ => 0) 0x80030000 0x80011000 0x80000200, .initIdle 0 fun _ => 0,
    .initIdle 1 fun _ => 0, .initIdle 2 fun _ => 0, .contextSwitch 0 fun _ => 0,
    .contextSwitch 0 fun _ => 0, .contextSwitch 1 fun _ => 0]

/-- Three cores before their start, with zeroed memory. -/
def threeCores : KState 3 := KState.boot (fun _ => true) (fun _ => 0) fun _ => 0

/-- A CPU takes its next accesses; interrupts succeed. -/
def accesses (p : Fin 3) (n : Nat) : List (RaceLabel 3) :=
  List.replicate n (.step p ⟨fun _ => 0, fun _ => 0⟩)

/-- The main thread clones a thread for CPU 1, and CPU 1 switches to it. -/
def cloneFirst : List (RaceLabel 3) :=
  .clone 0 (fun _ => 0) (joinableArgs 0x100) :: accesses 0 28 ++
    .contextSwitch 1 (fun _ => 0) :: accesses 1 3

/-- The thread then exits alone. -/
def exitAlone : List (RaceLabel 3) := cloneFirst ++ .exit 1 (fun _ => 0) :: accesses 1 10

/-- The main thread clones again and has found CPU 2 when the thread on CPU 1
exits. The creation takes the slot between the two uses of the exit. -/
def exitRaced : List (RaceLabel 3) :=
  cloneFirst ++ .clone 0 (fun _ => 0) (joinableArgs 0x200) :: accesses 0 6 ++
    .exit 1 (fun _ => 0) :: accesses 1 3 ++ accesses 0 16 ++ accesses 1 7

/-- The interrupt for the first thread fails when CPU 1 has switched to it. The thread is
taken back while it runs, and then exits. -/
def exitUndone : List (RaceLabel 3) :=
  .clone 0 (fun _ => 0) (joinableArgs 0x100) :: accesses 0 26 ++
    .contextSwitch 1 (fun _ => 0) :: accesses 1 3 ++
    .step 0 ⟨fun _ => 0, fun _ => -enotsup⟩ :: accesses 0 3 ++ .exit 1 (fun _ => 0) :: accesses 1 1

-- without the last part of the condition an exit can miss the word of its thread
example : ((exec (threadStep smallStacks 0) threeCores bootThree).bind fun k =>
    (exec (raceStep smallStacks) (RaceState.start k) exitUndone).map RaceState.log) =
      some [.silent ⟨cloneChildCleartid, 0x100⟩] := by
  decide +kernel

theorem exit_clears_own_ctid_alone : ∃ (k : KState 3) (s : RaceState 3),
    exec (threadStep smallStacks 0) threeCores bootThree = some k ∧
    exec (raceStep smallStacks) (RaceState.start k) exitAlone = some s ∧
    s.log = [.wake ⟨cloneChildCleartid, 0x100⟩ 0x100, .clear ⟨cloneChildCleartid, 0x100⟩ 0x100] ∧
    ∀ e ∈ s.log, e.Sound := by
  have heval : (exec (threadStep smallStacks 0) threeCores bootThree).map (fun k =>
      (decide (Along (raceStep smallStacks) SlotsApart (RaceState.start k) exitAlone),
        (exec (raceStep smallStacks) (RaceState.start k) exitAlone).map RaceState.log)) =
      some (true, some [.wake ⟨cloneChildCleartid, 0x100⟩ 0x100,
        .clear ⟨cloneChildCleartid, 0x100⟩ 0x100]) := by
    decide +kernel
  obtain ⟨k, hboot, hobs⟩ := Option.map_eq_some_iff.mp heval
  obtain ⟨hapart, hlog⟩ := Prod.mk.inj hobs
  obtain ⟨s, hrun, hlog⟩ := Option.map_eq_some_iff.mp hlog
  have hs := exit_clears_own_ctid smallStacks 0 _ _ _ bootThree k (by decide) hboot exitAlone s
    (of_decide_eq_true hapart) hrun
  exact ⟨k, s, hboot, hrun, hlog, hs.1⟩

/-- The exit of the first thread clears and wakes the word of the second one. -/
theorem exit_clears_other_ctid : ∃ (k : KState 3) (s : RaceState 3),
    exec (threadStep smallStacks 0) threeCores bootThree = some k ∧
    exec (raceStep smallStacks) (RaceState.start k) exitRaced = some s ∧
    s.log = [.wake ⟨cloneChildCleartid, 0x100⟩ 0x200,
      .clear ⟨cloneChildCleartid, 0x100⟩ 0x200] := by
  have heval : (exec (threadStep smallStacks 0) threeCores bootThree).map (fun k =>
      (exec (raceStep smallStacks) (RaceState.start k) exitRaced).map RaceState.log) =
      some (some [.wake ⟨cloneChildCleartid, 0x100⟩ 0x200,
        .clear ⟨cloneChildCleartid, 0x100⟩ 0x200]) := by
    decide +kernel
  obtain ⟨k, hboot, hlog⟩ := Option.map_eq_some_iff.mp heval
  obtain ⟨s, hrun, hlog⟩ := Option.map_eq_some_iff.mp hlog
  exact ⟨k, s, hboot, hrun, hlog⟩

end BaremetalCrt
