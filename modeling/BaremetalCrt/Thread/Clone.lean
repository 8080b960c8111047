import BaremetalCrt.Thread.Table

/-!
# Creating and ending threads

`k_thread_clone` consists of the argument checks, the search for an idle CPU
under the SMP lock, and the section under the lock of that CPU. `k_sys_exit`
consists of a section under the lock of the calling CPU and the wake-up of the
waiters on the cleared thread id. The sections are separate definitions; the
whole calls are their composition without interleaving.

## Implementation notes

The machine supplies what these functions cannot know: the register context
that `k_arch_thread_init` copies and the results of inter-processor interrupts.
-/

namespace BaremetalCrt

variable {N : Nat}

def cloneSettls : BitVec 64 := 0x00080000
def cloneParentSettid : BitVec 64 := 0x00100000
def cloneChildCleartid : BitVec 64 := 0x00200000
def cloneChildSettid : BitVec 64 := 0x01000000

/-- `struct k_clone_args`; a null pointer is zero. -/
structure CloneArgs where
  flags : BitVec 64
  ctid : Nat
  ptid : Nat
  childStack : Nat
  tls : Nat

def CloneArgs.needCtid (args : CloneArgs) : Bool :=
  args.flags &&& (cloneChildCleartid ||| cloneChildSettid) != 0

def CloneArgs.needPtid (args : CloneArgs) : Bool := args.flags &&& cloneParentSettid != 0

def CloneArgs.needTls (args : CloneArgs) : Bool := args.flags &&& cloneSettls != 0

/-- The argument checks of `k_thread_clone`. -/
def cloneCheck (args : CloneArgs) : Int :=
  if args.needCtid ∧ args.ctid = 0 then -efault
  else if args.needPtid ∧ args.ptid = 0 then -efault
  else if args.needTls ∧ args.tls = 0 then -efault
  else 0

/-- The stacks that a build sets aside for its cores, and the idle loop. -/
structure StackConfig where
  stackIntr : Nat
  intrStackSize : Nat
  stackIdle : Nat
  idleStackSize : Nat
  threadIdleMain : Nat

/-- The top of the interrupt stack of a core. -/
def StackConfig.intrTop (cfg : StackConfig) (c : Fin N) : Nat :=
  cfg.stackIntr + (c + 1) * cfg.intrStackSize

/-- The top of the idle stack of a core. -/
def StackConfig.idleTop (cfg : StackConfig) (c : Fin N) : Nat :=
  cfg.stackIdle + (c + 1) * cfg.idleStackSize

/-- The user-visible attributes that `k_thread_clone` stores in the new slot. -/
def cloneSetInfo (s : KState N) (args : CloneArgs) (t : Fin (2 * N)) : KState N :=
  s.modifyThread t fun ti =>
    { ti with
      flags := args.flags
      ctid := if args.needCtid then args.ctid else 0
      ptid := if args.needPtid then args.ptid else 0
      tls := if args.needTls then args.tls else 0 }

/-- The new thread id is told to user space. -/
def cloneNotify (s : KState N) (args : CloneArgs) (t : Fin (2 * N)) : KState N :=
  let s := if args.flags &&& cloneChildSettid ≠ 0 then
    s.store (s.thread t).ctid (s.thread t).tid else s
  if args.flags &&& cloneParentSettid ≠ 0 then
    s.store (s.thread t).ptid (s.thread t).tid else s

/-- The initial registers: those of the caller, with the return value and the stacks replaced. -/
def cloneSetRegs (cfg : StackConfig) (s : KState N) (p c : Fin N) (args : CloneArgs)
    (t : Fin (2 * N)) : KState N :=
  s.modifyThread t fun ti =>
    let regs := (s.cpu p).regs
    let regs := kArchSetArg regs .retval 0
    let regs := kArchSetArg regs .stack (BitVec.ofNat 64 args.childStack)
    let regs := kArchSetArg regs .stackIntr (BitVec.ofNat 64 (cfg.intrTop c))
    let regs := kArchSetArg regs .tls (BitVec.ofNat 64 ti.tls)
    { ti with sp := args.childStack, regs := regs }

/-- The section of `k_thread_clone` under the lock of the idle CPU `c`, called on CPU `p`. -/
def cloneLocked (cfg : StackConfig) (current : UserRegs) (ipi : Int) (args : CloneArgs)
    (p c : Fin N) (s : KState N) : Option (KState N × Int) :=
  match kThreadCreate s current with
  | (s, none) => some (s, -enomem)
  | (s, some t) =>
      let s := cloneSetInfo s args t
      let s := cloneNotify s args t
      let s := cloneSetRegs cfg s p c args t
      let s := kThreadRun s t c
      if ipi ≠ 0 then (kThreadStop s t).map fun s => ((kThreadDestroy s t).1, ipi)
      else some (s, (s.thread t).tid.toInt)

/-- `k_thread_clone` on CPU `p`, without interleaving. -/
def kThreadClone (cfg : StackConfig) (current : UserRegs) (ipi : Int) (args : CloneArgs)
    (p : Fin N) (s : KState N) : Option (KState N × Int) :=
  let r := cloneCheck args
  if r ≠ 0 then some (s, r)
  else
    match kSmpFindIdleCpu s with
    | none => some (s, -enomem)
    | some c => cloneLocked cfg current ipi args p c s

/-- The records of all CPUs, as the wake scan sees them. -/
def KState.futexes (s : KState N) (c : Fin N) : CpuFutex := (s.cpu c).futex

/-- Write back the records of all CPUs. -/
def KState.setFutexes (s : KState N) (futex : Fin N → CpuFutex) : KState N :=
  { s with cpu := fun c => { s.cpu c with futex := futex c } }

/-- The section of `k_sys_exit` under the lock of the calling CPU. The result
is the return value, with the thread whose waiters are still to be woken. -/
def exitLocked (p : Fin N) (s : KState N) :
    Option (KState N × Int × Option (Fin (2 * N))) :=
  match (s.cpu p).tiTask with
  | none => some (s, -einval, none)
  | some t =>
      (kThreadStop s t).bind fun s =>
        let (s, r) := kThreadDestroy s t
        if r ≠ 0 then some (s, r, none)
        else
          let wake := (s.thread t).flags &&& cloneChildCleartid != 0
          let s := if wake then s.store (s.thread t).ctid 0 else s
          (kThreadContextSwitchNolock s p).map fun s =>
            (s, (kArchGetArg (s.cpu p).regs .retval).toInt, if wake then some t else none)

/-- `k_sys_exit` on CPU `p`, without interleaving. -/
def kSysExit (ipi : Fin N → Int) (p : Fin N) (s : KState N) : Option (KState N × Int) :=
  (exitLocked p s).map fun (s, v, wake) =>
    match wake with
    | none => (s, v)
    | some t =>
        (s.setFutexes (kCpuFutexWake s.present s.futexes p (s.thread t).ctid 1
          futexBitsetAny ipi).1, v)

theorem kThreadStop_fixed {s s' : KState N} {t : Fin (2 * N)} (h : kThreadStop s t = some s') :
    s'.fixed = s.fixed := by
  obtain ⟨c, -, rfl⟩ := Option.map_eq_some_iff.mp h
  rfl

theorem kThreadDestroy_fixed (s : KState N) (t : Fin (2 * N)) :
    (kThreadDestroy s t).1.fixed = s.fixed := by
  unfold kThreadDestroy
  split
  · rfl
  · rfl

theorem kThreadContextSwitchNolock_fixed {s s' : KState N} {p : Fin N}
    (h : kThreadContextSwitchNolock s p = some s') : s'.fixed = s.fixed := by
  simp only [kThreadContextSwitchNolock] at h
  obtain ⟨s₁, hsaved, h⟩ := Option.bind_eq_some_iff.mp h
  have hfirst : s₁.fixed = s.fixed := by
    split at hsaved
    · obtain ⟨t, -, rfl⟩ := Option.map_eq_some_iff.mp hsaved
      rfl
    · rw [← Option.some.inj hsaved]
  rw [← hfirst]
  split at h
  · rw [← Option.some.inj h]
    rfl
  · obtain ⟨idle, -, rfl⟩ := Option.map_eq_some_iff.mp h
    rfl

theorem cloneNotify_fixed (s : KState N) (args : CloneArgs) (t : Fin (2 * N)) :
    (cloneNotify s args t).fixed = s.fixed := by
  unfold cloneNotify
  split
  · split
    · rfl
    · rfl
  · split
    · rfl
    · rfl

theorem cloneLocked_fixed {cfg : StackConfig} {current : UserRegs} {ipi r : Int}
    {args : CloneArgs} {p c : Fin N} {s s' : KState N}
    (h : cloneLocked cfg current ipi args p c s = some (s', r)) : s'.fixed = s.fixed := by
  unfold cloneLocked kThreadCreate at h
  cases hslot : findFreeSlot s with
  | none =>
      rw [hslot] at h
      rw [(Prod.mk.inj (Option.some.inj h)).1]
  | some t =>
      rw [hslot] at h
      dsimp only at h
      have hprep : (kThreadRun (cloneSetRegs cfg
          (cloneNotify (cloneSetInfo (takeSlot s current t) args t) args t) p c args t)
          t c).fixed = s.fixed := cloneNotify_fixed _ _ _
      generalize kThreadRun _ t c = s₁ at h hprep
      split at h
      · obtain ⟨s₂, hstop, heq⟩ := Option.map_eq_some_iff.mp h
        rw [← (Prod.mk.inj heq).1, kThreadDestroy_fixed, kThreadStop_fixed hstop, hprep]
      · rw [← (Prod.mk.inj (Option.some.inj h)).1, hprep]

theorem exitLocked_fixed {p : Fin N} {s s' : KState N} {v : Int}
    {wake : Option (Fin (2 * N))} (h : exitLocked p s = some (s', v, wake)) :
    s'.fixed = s.fixed := by
  unfold exitLocked at h
  split at h
  · rw [(Prod.mk.inj (Option.some.inj h)).1]
  · rename_i t _
    obtain ⟨s₁, hstop, h⟩ := Option.bind_eq_some_iff.mp h
    have hdestroy := kThreadDestroy_fixed s₁ t
    rw [kThreadStop_fixed hstop] at hdestroy
    generalize kThreadDestroy s₁ t = d at h hdestroy
    obtain ⟨s₂, r⟩ := d
    dsimp only at h hdestroy
    split at h
    · rw [← (Prod.mk.inj (Option.some.inj h)).1, hdestroy]
    · obtain ⟨s₃, hswitch, heq⟩ := Option.map_eq_some_iff.mp h
      rw [← (Prod.mk.inj heq).1, kThreadContextSwitchNolock_fixed hswitch, ← hdestroy]
      split
      · rfl
      · rfl

/-- The registers that `init_idle_thread` sets in a new thread. -/
def idleRegs (cfg : StackConfig) (c : Fin N) (leader : Bool) (regs : UserRegs) : UserRegs :=
  let regs := kArchSetArg regs .arg1 (if leader then 1 else 0)
  let regs := kArchSetArg regs .stack (BitVec.ofNat 64 (cfg.idleTop c))
  let regs := kArchSetArg regs .stackIntr (BitVec.ofNat 64 (cfg.intrTop c))
  kArchSetArg regs .intaddr (BitVec.ofNat 64 cfg.threadIdleMain)

/-- The registers that `k_libc_init_main_thread` sets in a new thread. -/
def mainRegs (spUser spIntr start : Nat) (regs : UserRegs) : UserRegs :=
  let regs := kArchSetArg regs .arg1 0
  let regs := kArchSetArg regs .stack (BitVec.ofNat 64 spUser)
  let regs := kArchSetArg regs .stackIntr (BitVec.ofNat 64 spIntr)
  kArchSetArg regs .intaddr (BitVec.ofNat 64 start)

/-- `init_idle_thread` for CPU `c`. -/
def initIdleThread (cfg : StackConfig) (current : UserRegs) (c : Fin N) (leader : Bool)
    (s : KState N) : KState N × Int :=
  match kThreadCreate s current with
  | (s, none) => (s, -eagain)
  | (s, some t) =>
      let s := s.modifyThread t fun ti => { ti with regs := idleRegs cfg c leader ti.regs }
      (s.modifyCpu c fun cpu => { cpu with tiIdle := some t }, 0)

/-- `init_main_thread` on CPU `c`. -/
def initMainThread (current : UserRegs) (c : Fin N) (spUser spIntr start : Nat)
    (s : KState N) : KState N × Int :=
  match kThreadCreate s current with
  | (s, none) => (s, -eagain)
  | (s, some t) =>
      let s := s.modifyThread t fun ti => { ti with regs := mainRegs spUser spIntr start ti.regs }
      (kThreadRun (kProcSetLeader s t) t c, 0)

end BaremetalCrt
