import BaremetalCrt.Thread.Clone
import BaremetalCrt.Library.Roster
import BaremetalCrt.Library.Runs

/-!
# Consistency of the thread and CPU tables

The two tables are a roster: thread slots serve CPUs, the idle thread is the
reserve of its CPU and the task thread its task. Every call that runs without
interleaving is a short sequence of roster operations, so the tables stay
consistent from boot on, whatever the order of the calls.
-/

namespace BaremetalCrt

open LabelledSystem

variable {N : Nat}

/-- What the two tables say about each other. -/
def KState.roster (s : KState N) : Roster (Fin (2 * N)) (Fin N) where
  avail := fun t => (s.thread t).avail
  running := fun t => (s.thread t).running
  home := fun t => (s.thread t).cpu
  reserve := fun c => (s.cpu c).tiIdle
  task := fun c => (s.cpu c).tiTask

section View

variable (s : KState N)

theorem roster_modifyThread (t : Fin (2 * N)) (f : ThreadInfo N → ThreadInfo N) :
    (s.modifyThread t f).roster = { s.roster with
      avail := Function.update s.roster.avail t (f (s.thread t)).avail
      running := Function.update s.roster.running t (f (s.thread t)).running
      home := Function.update s.roster.home t (f (s.thread t)).cpu } := by
  apply Roster.ext
  · exact Function.comp_update ThreadInfo.avail s.thread t _
  · exact Function.comp_update ThreadInfo.running s.thread t _
  · exact Function.comp_update ThreadInfo.cpu s.thread t _
  · rfl
  · rfl

theorem roster_modifyCpu (c : Fin N) (f : CpuDevice N → CpuDevice N) :
    (s.modifyCpu c f).roster = { s.roster with
      reserve := Function.update s.roster.reserve c (f (s.cpu c)).tiIdle
      task := Function.update s.roster.task c (f (s.cpu c)).tiTask } := by
  apply Roster.ext
  · rfl
  · rfl
  · rfl
  · exact Function.comp_update CpuDevice.tiIdle s.cpu c _
  · exact Function.comp_update CpuDevice.tiTask s.cpu c _

/-- Fields of a slot that the roster does not show can be written freely. -/
theorem roster_modifyThread_of_eq {t : Fin (2 * N)} {f : ThreadInfo N → ThreadInfo N}
    (havail : (f (s.thread t)).avail = (s.thread t).avail)
    (hrunning : (f (s.thread t)).running = (s.thread t).running)
    (hcpu : (f (s.thread t)).cpu = (s.thread t).cpu) :
    (s.modifyThread t f).roster = s.roster := by
  rw [roster_modifyThread, havail, hrunning, hcpu]
  apply Roster.ext
  · exact Function.update_eq_self t s.roster.avail
  · exact Function.update_eq_self t s.roster.running
  · exact Function.update_eq_self t s.roster.home
  · rfl
  · rfl

theorem roster_modifyCpu_of_eq {c : Fin N} {f : CpuDevice N → CpuDevice N}
    (hidle : (f (s.cpu c)).tiIdle = (s.cpu c).tiIdle)
    (htask : (f (s.cpu c)).tiTask = (s.cpu c).tiTask) :
    (s.modifyCpu c f).roster = s.roster := by
  rw [roster_modifyCpu, hidle, htask]
  apply Roster.ext
  · rfl
  · rfl
  · rfl
  · exact Function.update_eq_self c s.roster.reserve
  · exact Function.update_eq_self c s.roster.task

@[simp] theorem roster_store (a : Nat) (v : BitVec 32) : (s.store a v).roster = s.roster := rfl

@[simp] theorem roster_kProcSetLeader (t : Fin (2 * N)) :
    (kProcSetLeader s t).roster = s.roster := rfl

@[simp] theorem roster_setFutexes (futex : Fin N → CpuFutex) :
    (s.setFutexes futex).roster = s.roster := rfl

theorem roster_takeSlot (current : UserRegs) (t : Fin (2 * N)) :
    (takeSlot s current t).roster = s.roster.take t := by
  apply Roster.ext
  · exact Function.comp_update ThreadInfo.avail s.thread t _
  · exact Function.comp_update ThreadInfo.running s.thread t _
  · exact (Function.comp_update ThreadInfo.cpu s.thread t _).trans
      (Function.update_eq_self t s.roster.home)
  · rfl
  · rfl

theorem roster_kThreadRun (t : Fin (2 * N)) (c : Fin N) :
    (kThreadRun s t c).roster = s.roster.post t c := by
  rw [kThreadRun, roster_modifyCpu, roster_modifyThread]
  apply Roster.ext
  · exact Function.update_eq_self t s.roster.avail
  · rfl
  · rfl
  · exact Function.update_eq_self c s.roster.reserve
  · rfl

theorem roster_kThreadStop {s' : KState N} {t : Fin (2 * N)} {c : Fin N}
    (hcpu : (s.thread t).cpu = some c) (h : kThreadStop s t = some s') :
    s'.roster = s.roster.withdraw t c := by
  rw [kThreadStop, hcpu, Option.map_some] at h
  obtain rfl := Option.some.inj h
  rw [roster_modifyThread, roster_modifyCpu]
  apply Roster.ext
  · exact Function.update_eq_self t s.roster.avail
  · rfl
  · rfl
  · exact Function.update_eq_self c s.roster.reserve
  · rfl

theorem roster_kThreadDestroy {t : Fin (2 * N)} (hrun : (s.thread t).running = false) :
    (kThreadDestroy s t).1.roster = s.roster.drop t := by
  rw [kThreadDestroy, hrun, if_neg Bool.false_ne_true, roster_modifyThread]
  apply Roster.ext
  · rfl
  · exact Function.update_eq_self t s.roster.running
  · exact Function.update_eq_self t s.roster.home
  · rfl
  · rfl

/-- A context switch touches registers and the current thread only. -/
theorem roster_kThreadContextSwitchNolock {s' : KState N} {p : Fin N}
    (h : kThreadContextSwitchNolock s p = some s') : s'.roster = s.roster := by
  simp only [kThreadContextSwitchNolock] at h
  obtain ⟨s₁, hsaved, h⟩ := Option.bind_eq_some_iff.mp h
  have hfirst : s₁.roster = s.roster := by
    split at hsaved
    · obtain ⟨t, -, rfl⟩ := Option.map_eq_some_iff.mp hsaved
      exact roster_modifyThread_of_eq s rfl rfl rfl
    · rw [← Option.some.inj hsaved]
  split at h
  · rw [← Option.some.inj h, roster_modifyCpu_of_eq s₁ rfl rfl, hfirst]
  · obtain ⟨idle, -, rfl⟩ := Option.map_eq_some_iff.mp h
    rw [roster_modifyCpu_of_eq s₁ rfl rfl, hfirst]

theorem roster_cloneSetInfo (args : CloneArgs) (t : Fin (2 * N)) :
    (cloneSetInfo s args t).roster = s.roster :=
  roster_modifyThread_of_eq s rfl rfl rfl

theorem roster_cloneNotify (args : CloneArgs) (t : Fin (2 * N)) :
    (cloneNotify s args t).roster = s.roster := by
  unfold cloneNotify
  split
  · split
    · rfl
    · rfl
  · split
    · rfl
    · rfl

theorem roster_cloneSetRegs (cfg : StackConfig) (p c : Fin N) (args : CloneArgs)
    (t : Fin (2 * N)) : (cloneSetRegs cfg s p c args t).roster = s.roster :=
  roster_modifyThread_of_eq s rfl rfl rfl

end View

/-- The slot that is found is out of use, and one is found if there is any. -/
theorem findFreeSlot_avail {s : KState N} {t : Fin (2 * N)} (h : findFreeSlot s = some t) :
    s.roster.avail t = false := by
  have hfound := List.find?_some h
  change (s.thread t).avail = false
  simpa using hfound

theorem findFreeSlot_isSome {s : KState N} {t : Fin (2 * N)} (h : s.roster.avail t = false) :
    (findFreeSlot s).isSome = true := by
  rw [findFreeSlot, List.find?_isSome]
  exact ⟨t, List.mem_finRange t, by rw [show (s.thread t).avail = false from h]; rfl⟩

theorem kSmpFindIdleCpu_task {s : KState N} {c : Fin N} (h : kSmpFindIdleCpu s = some c) :
    s.roster.task c = none := by
  have hfound := List.find?_some h
  rw [Bool.and_eq_true, Option.isNone_iff_eq_none] at hfound
  exact hfound.2

/-- The new thread before it runs: a slot is taken and its other fields are set. -/
theorem roster_clone_prepared (cfg : StackConfig) (current : UserRegs) (args : CloneArgs)
    (p c : Fin N) (s : KState N) (t : Fin (2 * N)) :
    (cloneSetRegs cfg (cloneNotify (cloneSetInfo (takeSlot s current t) args t) args t)
      p c args t).roster = s.roster.take t := by
  rw [roster_cloneSetRegs, roster_cloneNotify, roster_cloneSetInfo, roster_takeSlot]

/-- The locked section of a clone finds no slot, or posts a new thread at the
CPU, or undoes this when the interrupt fails. -/
theorem cloneLocked_roster {cfg : StackConfig} {current : UserRegs} {ipi r : Int}
    {args : CloneArgs} {p c : Fin N} {s s' : KState N}
    (h : cloneLocked cfg current ipi args p c s = some (s', r)) :
    (findFreeSlot s = none ∧ s' = s) ∨
    ∃ t, findFreeSlot s = some t ∧
      ((ipi = 0 ∧ s'.roster = (s.roster.take t).post t c) ∨
        (ipi ≠ 0 ∧ s'.roster = (((s.roster.take t).post t c).withdraw t c).drop t)) := by
  unfold cloneLocked kThreadCreate at h
  cases hslot : findFreeSlot s with
  | none =>
      rw [hslot] at h
      exact Or.inl ⟨rfl, (Prod.mk.inj (Option.some.inj h)).1.symm⟩
  | some t =>
      rw [hslot] at h
      refine Or.inr ⟨t, rfl, ?_⟩
      dsimp only at h
      have hprep := roster_clone_prepared cfg current args p c s t
      generalize cloneSetRegs cfg _ p c args t = s₁ at h hprep
      have hposted : (kThreadRun s₁ t c).roster = (s.roster.take t).post t c := by
        rw [roster_kThreadRun, hprep]
      by_cases hipi : ipi = 0
      · rw [if_neg (not_not.mpr hipi)] at h
        have heq := (Prod.mk.inj (Option.some.inj h)).1
        exact Or.inl ⟨hipi, heq ▸ hposted⟩
      · rw [if_pos hipi] at h
        obtain ⟨s₂, hstop, heq⟩ := Option.map_eq_some_iff.mp h
        obtain ⟨rfl, -⟩ := Prod.mk.inj heq
        have hhome : ((kThreadRun s₁ t c).thread t).cpu = some c := by
          simp [kThreadRun]
        have hwithdraw := roster_kThreadStop _ hhome hstop
        have hrun : (s₂.thread t).running = false := by
          change s₂.roster.running t = false
          rw [hwithdraw]
          exact Function.update_self ..
        refine Or.inr ⟨hipi, ?_⟩
        rw [roster_kThreadDestroy s₂ hrun, hwithdraw, hposted]

/-- The locked section of an exit finds no task, or withdraws the task of the CPU
and gives its slot back. -/
theorem exitLocked_roster {p : Fin N} {s s' : KState N} {v : Int}
    {wake : Option (Fin (2 * N))} (h : exitLocked p s = some (s', v, wake)) :
    (s.roster.task p = none ∧ s' = s) ∨
    ∃ t c, s.roster.task p = some t ∧ s.roster.home t = some c ∧
      s'.roster = (s.roster.withdraw t c).drop t := by
  unfold exitLocked at h
  cases htask : (s.cpu p).tiTask with
  | none =>
      rw [htask] at h
      exact Or.inl ⟨htask, (Prod.mk.inj (Option.some.inj h)).1.symm⟩
  | some t =>
      rw [htask] at h
      obtain ⟨s₁, hstop, h⟩ := Option.bind_eq_some_iff.mp h
      obtain ⟨c, hcpu, -⟩ := Option.map_eq_some_iff.mp hstop
      refine Or.inr ⟨t, c, htask, hcpu, ?_⟩
      have hwithdraw := roster_kThreadStop s hcpu hstop
      have hrun : (s₁.thread t).running = false := by
        change s₁.roster.running t = false
        rw [hwithdraw]
        exact Function.update_self ..
      have hdrop := roster_kThreadDestroy s₁ hrun
      have hdone : (kThreadDestroy s₁ t).2 = 0 := by
        rw [kThreadDestroy, hrun, if_neg Bool.false_ne_true]
      rw [hwithdraw] at hdrop
      generalize kThreadDestroy s₁ t = d at h hdrop hdone
      obtain ⟨s₂, r⟩ := d
      dsimp only at h hdrop hdone
      rw [if_neg (not_not.mpr hdone)] at h
      obtain ⟨s₃, hswitch, heq⟩ := Option.map_eq_some_iff.mp h
      obtain ⟨rfl, -⟩ := Prod.mk.inj heq
      rw [roster_kThreadContextSwitchNolock _ hswitch]
      split
      · exact hdrop
      · exact hdrop

/-- The data at boot: zeroed tables, and thread ids from one on. -/
def KState.boot (present : Fin N → Bool) (regs : UserRegs) (word : Nat → BitVec 32) :
    KState N where
  present := present
  cpu := fun _ =>
    { regs := regs, ti := none, tiIdle := none, tiTask := none, futex := CpuFutex.idle }
  thread := fun _ =>
    { tid := 0, avail := false, running := false, flags := 0, sp := 0, ctid := 0, ptid := 0
      tls := 0, regs := fun _ => 0, cpu := none }
  uniqTid := 1
  leader := none
  word := word

/-- The calls that work on the tables, with what the machine supplies. -/
inductive ThreadCall (N : Nat) where
  | initIdle (c : Fin N) (current : UserRegs)
  | initMain (current : UserRegs) (spUser spIntr start : Nat)
  | clone (p : Fin N) (frame current : UserRegs) (ipi : Int) (args : CloneArgs)
  | exit (p : Fin N) (frame : UserRegs) (ipi : Fin N → Int)
  | contextSwitch (p : Fin N) (frame : UserRegs)

/-- A trap saves the registers of the interrupted code and points the CPU at them. -/
def KState.trap (s : KState N) (p : Fin N) (frame : UserRegs) : KState N :=
  s.modifyCpu p fun cpu => { cpu with regs := frame }

theorem roster_trap (s : KState N) (p : Fin N) (frame : UserRegs) :
    (s.trap p frame).roster = s.roster :=
  roster_modifyCpu_of_eq s rfl rfl

theorem trap_tiTask (k : KState N) (p : Fin N) (frame : UserRegs) (c : Fin N) :
    ((k.trap p frame).cpu c).tiTask = (k.cpu c).tiTask :=
  congrFun (congrArg Roster.task (roster_trap k p frame)) c

/-- One call without interleaving. Each CPU creates its idle thread once and the
leader CPU creates the main thread once; there is no user thread that could
call `k_thread_clone` before that. -/
def threadStep (cfg : StackConfig) (lead : Fin N) (s : KState N) :
    ThreadCall N → Option (KState N)
  | .initIdle c current =>
      if (s.cpu c).tiIdle = none then some (initIdleThread cfg current c (c == lead) s).1
      else none
  | .initMain current spUser spIntr start =>
      if s.leader = none then some (initMainThread current lead spUser spIntr start s).1
      else none
  | .clone p frame current ipi args =>
      if s.leader = none then none
      else (kThreadClone cfg current ipi args p (s.trap p frame)).map Prod.fst
  | .exit p frame ipi => (kSysExit ipi p (s.trap p frame)).map Prod.fst
  | .contextSwitch p frame => kThreadContextSwitchNolock (s.trap p frame) p

/-- The tables are consistent, and no CPU has a task before the main thread exists. -/
structure ThreadInv (s : KState N) : Prop where
  consistent : s.roster.Consistent
  task_none : s.leader = none → ∀ c, s.roster.task c = none

theorem ThreadInv.boot (present : Fin N → Bool) (regs : UserRegs) (word : Nat → BitVec 32) :
    ThreadInv (KState.boot present regs word) where
  consistent := Roster.Consistent.of_empty (fun _ => rfl) (fun _ => rfl) (fun _ => rfl)
    (fun _ => rfl)
  task_none := fun _ _ => rfl

/-- A new idle thread is the reserve of its CPU. -/
theorem roster_initIdleThread (cfg : StackConfig) (current : UserRegs) (c : Fin N)
    (leader : Bool) {s : KState N} {t : Fin (2 * N)} (hslot : findFreeSlot s = some t) :
    (initIdleThread cfg current c leader s).1.roster = (s.roster.take t).keep t c := by
  unfold initIdleThread kThreadCreate
  rw [hslot]
  dsimp only
  rw [roster_modifyCpu, roster_modifyThread_of_eq _ rfl rfl rfl, roster_takeSlot]
  apply Roster.ext
  · rfl
  · rfl
  · rfl
  · rfl
  · exact Function.update_eq_self c s.roster.task

theorem initIdleThread_of_full (cfg : StackConfig) (current : UserRegs) (c : Fin N)
    (leader : Bool) {s : KState N} (hslot : findFreeSlot s = none) :
    (initIdleThread cfg current c leader s).1 = s := by
  unfold initIdleThread kThreadCreate
  rw [hslot]

/-- Creating an idle thread fails without any change, or makes a slot the reserve of the CPU. -/
theorem initIdleThread_cases (cfg : StackConfig) (current : UserRegs) (c : Fin N)
    (leader : Bool) (s : KState N) :
    (initIdleThread cfg current c leader s).1 = s ∨
    ∃ t, findFreeSlot s = some t ∧
      (initIdleThread cfg current c leader s).1.roster = (s.roster.take t).keep t c ∧
      (initIdleThread cfg current c leader s).1.leader = s.leader := by
  cases hslot : findFreeSlot s with
  | none => exact Or.inl (initIdleThread_of_full cfg current c leader hslot)
  | some t =>
      refine Or.inr ⟨t, rfl, roster_initIdleThread cfg current c leader hslot, ?_⟩
      unfold initIdleThread kThreadCreate
      rw [hslot]
      rfl

/-- The main thread is posted at its CPU. -/
theorem roster_initMainThread (current : UserRegs) (c : Fin N) (spUser spIntr start : Nat)
    {s : KState N} {t : Fin (2 * N)} (hslot : findFreeSlot s = some t) :
    (initMainThread current c spUser spIntr start s).1.roster = (s.roster.take t).post t c := by
  unfold initMainThread kThreadCreate
  rw [hslot]
  dsimp only
  rw [roster_kThreadRun, roster_kProcSetLeader, roster_modifyThread_of_eq _ rfl rfl rfl,
    roster_takeSlot]

theorem initMainThread_of_full (current : UserRegs) (c : Fin N) (spUser spIntr start : Nat)
    {s : KState N} (hslot : findFreeSlot s = none) :
    (initMainThread current c spUser spIntr start s).1 = s := by
  unfold initMainThread kThreadCreate
  rw [hslot]

/-- Creating the main thread fails without any change, or posts it at the CPU. -/
theorem initMainThread_cases (current : UserRegs) (c : Fin N) (spUser spIntr start : Nat)
    (s : KState N) :
    (initMainThread current c spUser spIntr start s).1 = s ∨
    ∃ t, findFreeSlot s = some t ∧
      (initMainThread current c spUser spIntr start s).1.roster =
        (s.roster.take t).post t c ∧
      (initMainThread current c spUser spIntr start s).1.leader = some t := by
  cases hslot : findFreeSlot s with
  | none => exact Or.inl (initMainThread_of_full current c spUser spIntr start hslot)
  | some t =>
      refine Or.inr ⟨t, rfl, roster_initMainThread current c spUser spIntr start hslot, ?_⟩
      unfold initMainThread kThreadCreate
      rw [hslot]
      rfl

/-- A clone changes nothing, or posts a new thread at an idle CPU, or posts and
dismisses it. -/
theorem kThreadClone_roster {cfg : StackConfig} {current : UserRegs} {ipi r : Int}
    {args : CloneArgs} {p : Fin N} {s s' : KState N}
    (h : kThreadClone cfg current ipi args p s = some (s', r)) :
    s'.fixed = s.fixed ∧ (s'.roster = s.roster ∨
      ∃ c t, s.roster.task c = none ∧ s.roster.avail t = false ∧
        (s'.roster = (s.roster.take t).post t c ∨
          s'.roster = (((s.roster.take t).post t c).withdraw t c).drop t)) := by
  unfold kThreadClone at h
  dsimp only at h
  split at h
  · obtain ⟨rfl, -⟩ := Prod.mk.inj (Option.some.inj h)
    exact ⟨rfl, Or.inl rfl⟩
  · cases hidle : kSmpFindIdleCpu s with
    | none =>
        rw [hidle] at h
        obtain ⟨rfl, -⟩ := Prod.mk.inj (Option.some.inj h)
        exact ⟨rfl, Or.inl rfl⟩
    | some c =>
        rw [hidle] at h
        refine ⟨cloneLocked_fixed h, ?_⟩
        rcases cloneLocked_roster h with ⟨-, rfl⟩ | ⟨t, hslot, hroster⟩
        · exact Or.inl rfl
        · refine Or.inr ⟨c, t, kSmpFindIdleCpu_task hidle, findFreeSlot_avail hslot, ?_⟩
          exact hroster.imp And.right And.right

/-- An exit changes nothing, or withdraws the task of the CPU. -/
theorem kSysExit_roster {ipi : Fin N → Int} {p : Fin N} {s s' : KState N} {v : Int}
    (h : kSysExit ipi p s = some (s', v)) :
    s'.fixed = s.fixed ∧ (s'.roster = s.roster ∨
      ∃ t c, s.roster.task p = some t ∧ s.roster.home t = some c ∧
        s'.roster = (s.roster.withdraw t c).drop t) := by
  obtain ⟨⟨s₁, v₁, wake⟩, hlocked, h⟩ := Option.map_eq_some_iff.mp h
  have hsame : s'.fixed = s₁.fixed ∧ s'.roster = s₁.roster := by
    cases wake with
    | none =>
        obtain ⟨rfl, -⟩ := Prod.mk.inj h
        exact ⟨rfl, rfl⟩
    | some t =>
        obtain ⟨rfl, -⟩ := Prod.mk.inj h
        exact ⟨rfl, rfl⟩
  rw [hsame.1, hsame.2]
  refine ⟨exitLocked_fixed hlocked, ?_⟩
  rcases exitLocked_roster hlocked with ⟨-, rfl⟩ | hexit
  · exact Or.inl rfl
  · exact Or.inr hexit

/-- What a call does to the roster and to the leader. -/
inductive ThreadMove (lead : Fin N) (s s' : KState N) : ThreadCall N → Prop
  | same {call : ThreadCall N} (hroster : s'.roster = s.roster) (hleader : s'.leader = s.leader) :
      ThreadMove lead s s' call
  | settle {c : Fin N} {current : UserRegs} {t : Fin (2 * N)}
      (hc : s.roster.reserve c = none) (ht : s.roster.avail t = false)
      (hroster : s'.roster = (s.roster.take t).keep t c) (hleader : s'.leader = s.leader) :
      ThreadMove lead s s' (.initIdle c current)
  | lead {current : UserRegs} {spUser spIntr start : Nat} {t : Fin (2 * N)}
      (hnone : s.leader = none) (ht : s.roster.avail t = false)
      (hroster : s'.roster = (s.roster.take t).post t lead) (hleader : s'.leader = some t) :
      ThreadMove lead s s' (.initMain current spUser spIntr start)
  | clone {p c : Fin N} {frame current : UserRegs} {ipi : Int} {args : CloneArgs}
      {t : Fin (2 * N)} (hsome : s.leader ≠ none) (hc : s.roster.task c = none)
      (ht : s.roster.avail t = false)
      (hroster : s'.roster = (s.roster.take t).post t c ∨
        s'.roster = (((s.roster.take t).post t c).withdraw t c).drop t)
      (hleader : s'.leader = s.leader) :
      ThreadMove lead s s' (.clone p frame current ipi args)
  | exit {p c : Fin N} {frame : UserRegs} {ipi : Fin N → Int} {t : Fin (2 * N)}
      (hp : s.roster.task p = some t) (hc : s.roster.home t = some c)
      (hroster : s'.roster = (s.roster.withdraw t c).drop t) (hleader : s'.leader = s.leader) :
      ThreadMove lead s s' (.exit p frame ipi)

/-- Every call is one of these moves. -/
theorem threadStep_move {cfg : StackConfig} {lead : Fin N} {s s' : KState N}
    {call : ThreadCall N} (hstep : threadStep cfg lead s call = some s') :
    ThreadMove lead s s' call := by
  cases call with
  | initIdle c current =>
      simp only [threadStep] at hstep
      split at hstep
      · rename_i hidle
        obtain rfl := Option.some.inj hstep
        rcases initIdleThread_cases cfg current c (c == lead) s with
          hsame | ⟨t, hslot, hroster, hleader⟩
        · rw [hsame]
          exact ThreadMove.same rfl rfl
        · exact ThreadMove.settle hidle (findFreeSlot_avail hslot) hroster hleader
      · exact absurd hstep (by simp)
  | initMain current spUser spIntr start =>
      simp only [threadStep] at hstep
      split at hstep
      · rename_i hnone
        obtain rfl := Option.some.inj hstep
        rcases initMainThread_cases current lead spUser spIntr start s with
          hsame | ⟨t, hslot, hroster, hleader⟩
        · rw [hsame]
          exact ThreadMove.same rfl rfl
        · exact ThreadMove.lead hnone (findFreeSlot_avail hslot) hroster hleader
      · exact absurd hstep (by simp)
  | clone p frame current ipi args =>
      simp only [threadStep] at hstep
      split at hstep
      · exact absurd hstep (by simp)
      · rename_i hsome
        obtain ⟨⟨s₁, r⟩, hclone, rfl⟩ := Option.map_eq_some_iff.mp hstep
        obtain ⟨hfixed, hroster⟩ := kThreadClone_roster hclone
        have hleader : s₁.leader = s.leader := congrArg Prod.snd hfixed
        rw [roster_trap] at hroster
        rcases hroster with hsame | ⟨c, t, hc, ht, hroster⟩
        · exact ThreadMove.same hsame hleader
        · exact ThreadMove.clone hsome hc ht hroster hleader
  | exit p frame ipi =>
      obtain ⟨⟨s₁, v⟩, hexit, rfl⟩ := Option.map_eq_some_iff.mp hstep
      obtain ⟨hfixed, hroster⟩ := kSysExit_roster hexit
      have hleader : s₁.leader = s.leader := congrArg Prod.snd hfixed
      rw [roster_trap] at hroster
      rcases hroster with hsame | ⟨t, c, hp, hc, hroster⟩
      · exact ThreadMove.same hsame hleader
      · exact ThreadMove.exit hp hc hroster hleader
  | contextSwitch p frame =>
      have hroster := roster_kThreadContextSwitchNolock _ hstep
      rw [roster_trap] at hroster
      exact ThreadMove.same hroster (congrArg Prod.snd (kThreadContextSwitchNolock_fixed hstep))

/-- Once a leader is set only the consistency of the tables matters. -/
theorem ThreadInv.of_leader {s : KState N} (hleader : s.leader ≠ none)
    (h : s.roster.Consistent) : ThreadInv s :=
  ⟨h, fun hnone => absurd hnone hleader⟩

theorem ThreadInv.move {lead : Fin N} {s s' : KState N} {call : ThreadCall N}
    (h : ThreadInv s) (hmove : ThreadMove lead s s' call) : ThreadInv s' := by
  cases hmove with
  | same hroster hleader =>
      exact ⟨hroster ▸ h.consistent, fun hnone => hroster ▸ h.task_none (hleader ▸ hnone)⟩
  | settle hc ht hroster hleader =>
      constructor
      · rw [hroster]
        exact h.consistent.settle ht hc
      · rw [hroster, hleader]
        exact h.task_none
  | lead hnone ht hroster hleader =>
      apply ThreadInv.of_leader (by rw [hleader]; exact Option.some_ne_none _)
      rw [hroster]
      exact h.consistent.hire ht (h.task_none hnone lead)
  | clone hsome hc ht hroster hleader =>
      apply ThreadInv.of_leader (hleader ▸ hsome)
      rcases hroster with hpost | hundo
      · rw [hpost]
        exact h.consistent.hire ht hc
      · rw [hundo]
        exact (h.consistent.hire ht hc).dismiss (Function.update_self ..)
  | exit hp hc hroster hleader =>
      obtain rfl := h.consistent.home_eq hp hc
      refine ⟨hroster ▸ h.consistent.dismiss hp, fun hnone => ?_⟩
      -- a CPU with a task contradicts the missing leader
      exact absurd (hp.symm.trans (h.task_none (hleader ▸ hnone) _)) (Option.some_ne_none _)

theorem kThreadCreate_isSome {s : KState N} (h : s.roster.Consistent) {c : Fin N}
    (hidle : kSmpFindIdleCpu s = some c) (current : UserRegs) :
    (kThreadCreate s current).2.isSome = true := by
  obtain ⟨t, ht⟩ := h.exists_free (by simp) (kSmpFindIdleCpu_task hidle)
  obtain ⟨t', hslot⟩ := Option.isSome_iff_exists.mp (findFreeSlot_isSome ht)
  rw [kThreadCreate, hslot]
  rfl

/-- The number of slots in use. -/
def availCount (s : KState N) : Nat := held fun t => (s.thread t).avail

/-- The number of idle threads that were created. -/
def idleCount (s : KState N) : Nat := held fun c => (s.cpu c).tiIdle.isSome

/-- The number of CPUs with a task thread. -/
def taskCount (s : KState N) : Nat := held fun c => (s.cpu c).tiTask.isSome

/-- From boot on, whatever the order of the calls, the two tables mirror each
other, and a CPU without a task thread leaves a slot for a new one. -/
theorem thread_tables_consistent {cfg : StackConfig} {lead : Fin N} {present : Fin N → Bool}
    {regs : UserRegs} {word : Nat → BitVec 32} {s : KState N}
    (h : Reachable (threadStep cfg lead) (KState.boot present regs word) s) :
    (∀ c t, (s.cpu c).tiTask = some t ↔
      (s.thread t).running = true ∧ (s.thread t).cpu = some c) ∧
    (∀ c t, (s.cpu c).tiTask = some t → (s.thread t).avail = true) ∧
    (∀ c c' t, (s.cpu c).tiTask = some t → (s.cpu c').tiTask = some t → c = c') ∧
    availCount s = idleCount s + taskCount s ∧
    (∀ c current, kSmpFindIdleCpu s = some c → (kThreadCreate s current).2.isSome = true) := by
  have hinv : ThreadInv s := h.invariant (fun _ _ _ hi hs => hi.move (threadStep_move hs))
    (ThreadInv.boot present regs word)
  have hcons := hinv.consistent
  refine ⟨hcons.task_iff, ?_, ?_, hcons.count, ?_⟩
  · intro c t hc
    exact hcons.avail_of_running t ((hcons.task_iff c t).mp hc).1
  · intro c c' t hc hc'
    exact hcons.task_unique hc hc'
  · intro c current hidle
    exact kThreadCreate_isSome hcons hidle current

/-- The stacks of a small build. -/
def smallStacks : StackConfig where
  stackIntr := 0x80010000
  intrStackSize := 0x1000
  stackIdle := 0x80020000
  idleStackSize := 0x1000
  threadIdleMain := 0x80000100

/-- A thread that shares everything and wants its thread id cleared at its end. -/
def joinableArgs (ctid : Nat) : CloneArgs where
  flags := cloneChildCleartid
  ctid := ctid
  ptid := 0
  childStack := 0x80040000
  tls := 0

/-- Boot on two cores and start one more thread. -/
def bootAndClone : List (ThreadCall 2) :=
  [.initMain (fun _ => 0) 0x80030000 0x80011000 0x80000200, .initIdle 0 fun _ => 0,
    .initIdle 1 fun _ => 0, .contextSwitch 0 fun _ => 0,
    .clone 0 (fun _ => 0) (fun _ => 0) 0 (joinableArgs 0x80050000)]

theorem bootAndClone_counts :
    ((exec (threadStep smallStacks 0) (KState.boot (fun _ => true) (fun _ => 0) fun _ => 0)
      bootAndClone).map fun s => (availCount s, idleCount s, taskCount s)) =
      some (4, 2, 2) := by
  decide +kernel

theorem thread_tables_consistent_after_clone :
    ∃ s : KState 2, availCount s = 4 ∧ availCount s = idleCount s + taskCount s := by
  obtain ⟨s, hrun, hcounts⟩ := Option.map_eq_some_iff.mp bootAndClone_counts
  have hs := thread_tables_consistent (Exists.intro bootAndClone hrun)
  exact ⟨s, (Prod.mk.inj hcounts).1, hs.2.2.2.1⟩

end BaremetalCrt
