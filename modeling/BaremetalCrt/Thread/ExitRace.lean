import BaremetalCrt.Thread.Consistency

/-!
# Exits that interleave with clone calls

`k_sys_exit`, `k_thread_clone` and `k_thread_context_switch` access by access.
An exit works under the lock of its own CPU and goes on after it has given that
lock back; a clone works under the lock of the CPU it found and creates its slot
under the lock of the process. The two calls never hold a common lock while the
exit still reads the slot that it has marked free. A context switch works under
the SMP lock alone, so that a CPU can switch to the new thread of a clone call
that is not over yet.

## Implementation notes

The state carries what each thread registered for its end, as the arguments of
its clone call and of its own `k_sys_set_tid_address` calls give it, and a log
of what the exits did. No step of the code reads them.
-/

namespace BaremetalCrt

variable {N : Nat}

/-- What a thread has registered for its end: its flags and the address of its thread id. -/
structure Registration where
  flags : BitVec 64
  ctid : Nat
  deriving DecidableEq

/-- The thread asked for its thread id to be cleared. -/
def Registration.clears (r : Registration) : Bool := r.flags &&& cloneChildCleartid != 0

/-- The registration that a thread slot holds. -/
def ThreadInfo.registration (ti : ThreadInfo N) : Registration := ⟨ti.flags, ti.ctid⟩

/-- The registration that the arguments of a clone call ask for. -/
def CloneArgs.registration (args : CloneArgs) : Registration :=
  ⟨args.flags, if args.needCtid then args.ctid else 0⟩

/-- The single accesses with which a clone call prepares its thread. -/
inductive SlotOp where
  | tid | avail | running
  | sp (v : Nat)
  | flags (v : BitVec 64)
  | ctid (v : Nat)
  | ptid (v : Nat)
  | tls (v : Nat)
  | initRegs | copyRegs
  | notifyCtid | notifyPtid
  deriving DecidableEq

/-- The accesses of `k_thread_create` after it has found a slot. -/
def createOps : List SlotOp :=
  [.tid, .avail, .running, .sp 0, .ctid 0, .ptid 0, .initRegs]

/-- The attributes that `k_thread_clone` stores in the new slot. -/
def infoOps (args : CloneArgs) : List SlotOp :=
  [.flags args.flags, .ctid 0] ++ (if args.needCtid then [.ctid args.ctid] else []) ++
    [.ptid 0] ++ (if args.needPtid then [.ptid args.ptid] else []) ++
    [.tls 0] ++ (if args.needTls then [.tls args.tls] else [])

/-- The stores that tell the new thread id to user space. -/
def notifyOps (args : CloneArgs) : List SlotOp :=
  (if args.flags &&& cloneChildSettid ≠ 0 then [.notifyCtid] else []) ++
    (if args.flags &&& cloneParentSettid ≠ 0 then [.notifyPtid] else [])

/-- The accesses of `k_thread_clone` between the creation and `k_thread_run`. -/
def cloneOps (args : CloneArgs) : List SlotOp :=
  infoOps args ++ notifyOps args ++ [.sp args.childStack, .copyRegs]

/-- One access to slot `t` by a clone call on CPU `p` for CPU `c`. -/
def SlotOp.exec (cfg : StackConfig) (current : UserRegs) (p c : Fin N) (t : Fin (2 * N))
    (k : KState N) : SlotOp → KState N
  | .tid =>
      { k.modifyThread t fun ti => { ti with tid := k.uniqTid } with uniqTid := k.uniqTid + 1 }
  | .avail => k.modifyThread t fun ti => { ti with avail := true }
  | .running => k.modifyThread t fun ti => { ti with running := false }
  | .sp v => k.modifyThread t fun ti => { ti with sp := v }
  | .flags v => k.modifyThread t fun ti => { ti with flags := v }
  | .ctid v => k.modifyThread t fun ti => { ti with ctid := v }
  | .ptid v => k.modifyThread t fun ti => { ti with ptid := v }
  | .tls v => k.modifyThread t fun ti => { ti with tls := v }
  | .initRegs => k.modifyThread t fun ti => { ti with regs := kArchThreadInit current }
  | .copyRegs =>
      k.modifyThread t fun ti =>
        let regs := (k.cpu p).regs
        let regs := kArchSetArg regs .retval 0
        let regs := kArchSetArg regs .stack (BitVec.ofNat 64 ti.sp)
        let regs := kArchSetArg regs .stackIntr (BitVec.ofNat 64 (cfg.intrTop c))
        let regs := kArchSetArg regs .tls (BitVec.ofNat 64 ti.tls)
        { ti with regs := regs }
  | .notifyCtid => k.store (k.thread t).ctid (k.thread t).tid
  | .notifyPtid => k.store (k.thread t).ptid (k.thread t).tid

/-- Where a CPU stands in its call. Exits carry what the calling thread has
registered, for the record. -/
inductive RacePc (N : Nat) where
  | user
  | lockSmp (args : CloneArgs)
  | search (args : CloneArgs) (i : Nat)
  | lockTarget (args : CloneArgs) (c : Fin N)
  | lockProc (args : CloneArgs) (c : Fin N)
  | slot (args : CloneArgs) (c : Fin N) (i : Nat)
  | create (args : CloneArgs) (c : Fin N) (t : Fin (2 * N)) (todo : List SlotOp)
  | fill (args : CloneArgs) (c : Fin N) (t : Fin (2 * N)) (todo : List SlotOp)
  | ipi (c : Fin N) (t : Fin (2 * N))
  | undoStop (c : Fin N) (t : Fin (2 * N))
  | undoDestroy (c : Fin N) (t : Fin (2 * N))
  | unlockTarget (c : Fin N)
  | switchLock
  | switchSave
  | switchTo (task : Option (Fin (2 * N)))
  | exitLock (own : Registration)
  | exitStop (own : Registration) (t : Fin (2 * N))
  | exitDestroy (own : Registration) (t : Fin (2 * N))
  | exitFlags (own : Registration) (t : Fin (2 * N))
  | exitCtid (own : Registration) (t : Fin (2 * N))
  | exitClear (own : Registration) (t : Fin (2 * N)) (addr : Nat)
  | exitSwitch (own : Registration) (t : Fin (2 * N)) (wake : Bool)
  | exitUnlock (own : Registration) (t : Fin (2 * N)) (wake : Bool)
  | exitWakeCtid (own : Registration) (t : Fin (2 * N))
  | exitWake (own : Registration) (addr : Nat)

def RacePc.isUser : RacePc N → Bool
  | .user => true
  | _ => false

/-- What an exit did to user memory and to its waiters: it stored zero, it woke,
or it returned without either. -/
inductive ExitEvent where
  | clear (own : Registration) (addr : Nat)
  | wake (own : Registration) (addr : Nat)
  | silent (own : Registration)
  deriving DecidableEq

structure RaceState (N : Nat) where
  k : KState N
  pc : Fin N → RacePc N
  cpuLock : Fin N → Option (Fin N)
  procLock : Option (Fin N)
  smpLock : Option (Fin N)
  reg : Fin (2 * N) → Registration
  log : List ExitEvent

/-- What the machine supplies to a step: the registers that `k_arch_thread_init`
copies, and the results of inter-processor interrupts. -/
structure MachineReply (N : Nat) where
  current : UserRegs
  ipi : Fin N → Int

/-- The calls of user code and of the idle loop, and the next access of the call that a CPU
is in. -/
inductive RaceLabel (N : Nat) where
  | clone (p : Fin N) (frame : UserRegs) (args : CloneArgs)
  | exit (p : Fin N) (frame : UserRegs)
  | setTidAddress (p : Fin N) (frame : UserRegs) (addr : Nat)
  | contextSwitch (p : Fin N) (frame : UserRegs)
  | step (p : Fin N) (reply : MachineReply N)

/-- Move a CPU. -/
def RaceState.setPc (s : RaceState N) (p : Fin N) (pc : RacePc N) : RaceState N :=
  { s with pc := Function.update s.pc p pc }

/-- The thread that a CPU runs, unless that is its idle thread. -/
def KState.userThread (k : KState N) (p : Fin N) : Option (Fin (2 * N)) :=
  if (k.cpu p).ti = (k.cpu p).tiIdle then none else (k.cpu p).ti

/-- `k_thread_context_switch_nolock` up to its choice: the context of the idle thread is saved.
Returned with the thread to switch to, unless that is the idle thread. -/
def switchSave (k : KState N) (p : Fin N) : Option (KState N × Option (Fin (2 * N))) :=
  let ti := (k.cpu p).ti
  let saved : Option (KState N) :=
    if ti = (k.cpu p).tiIdle then
      ti.map fun t => k.modifyThread t fun info => { info with regs := (k.cpu p).regs }
    else some k
  saved.map fun k' => (k', ti.bind fun _ => (k.cpu p).tiTask)

/-- The rest of `k_thread_context_switch_nolock`. -/
def switchTo (k : KState N) (p : Fin N) (task : Option (Fin (2 * N))) : Option (KState N) :=
  (task.or (k.cpu p).tiIdle).map fun t =>
    k.modifyCpu p fun cpu => { cpu with regs := (k.thread t).regs, ti := some t }

/-- The next access of the call that CPU `p` is in. -/
def raceCpuStep (cfg : StackConfig) (reply : MachineReply N) (s : RaceState N) (p : Fin N) :
    Option (RaceState N) :=
  match s.pc p with
  | .user => none
  | .lockSmp args =>
      if s.smpLock = none then some { s.setPc p (.search args 0) with smpLock := some p }
      else none
  | .search args i =>
      if h : i < N then
        if s.k.present ⟨i, h⟩ && (s.k.cpu ⟨i, h⟩).tiTask.isNone then
          some { s.setPc p (.lockTarget args ⟨i, h⟩) with smpLock := none }
        else some (s.setPc p (.search args (i + 1)))
      else some { s.setPc p .user with smpLock := none }
  | .lockTarget args c =>
      if s.cpuLock c = none then
        some { s.setPc p (.lockProc args c) with
          cpuLock := Function.update s.cpuLock c (some p) }
      else none
  | .lockProc args c =>
      if s.procLock = none then some { s.setPc p (.slot args c 0) with procLock := some p }
      else none
  | .slot args c i =>
      if h : i < 2 * N then
        if (s.k.thread ⟨i, h⟩).avail then some (s.setPc p (.slot args c (i + 1)))
        else some (s.setPc p (.create args c ⟨i, h⟩ createOps))
      else some { s.setPc p (.unlockTarget c) with procLock := none }
  | .create args c t [] =>
      some { s.setPc p (.fill args c t (cloneOps args)) with procLock := none }
  | .create args c t (op :: todo) =>
      some { s.setPc p (.create args c t todo) with k := op.exec cfg reply.current p c t s.k }
  | .fill args c t [] =>
      some { s.setPc p (.ipi c t) with
        k := kThreadRun s.k t c
        reg := Function.update s.reg t args.registration }
  | .fill args c t (op :: todo) =>
      some { s.setPc p (.fill args c t todo) with k := op.exec cfg reply.current p c t s.k }
  | .ipi c t =>
      some (s.setPc p (if reply.ipi c ≠ 0 then .undoStop c t else .unlockTarget c))
  | .undoStop c t =>
      (kThreadStop s.k t).map fun k => { s.setPc p (.undoDestroy c t) with k := k }
  | .undoDestroy c t =>
      some { s.setPc p (.unlockTarget c) with k := (kThreadDestroy s.k t).1 }
  | .unlockTarget c =>
      some { s.setPc p .user with cpuLock := Function.update s.cpuLock c none }
  | .switchLock =>
      if s.smpLock = none then some { s.setPc p .switchSave with smpLock := some p } else none
  | .switchSave =>
      (switchSave s.k p).map fun out => { s.setPc p (.switchTo out.2) with k := out.1 }
  | .switchTo task =>
      (switchTo s.k p task).map fun k => { s.setPc p .user with k := k, smpLock := none }
  | .exitLock own =>
      if s.cpuLock p = none then
        match (s.k.cpu p).tiTask with
        | none => some { s.setPc p .user with log := .silent own :: s.log }
        | some t =>
            some { s.setPc p (.exitStop own t) with
              cpuLock := Function.update s.cpuLock p (some p) }
      else none
  | .exitStop own t =>
      (kThreadStop s.k t).map fun k => { s.setPc p (.exitDestroy own t) with k := k }
  | .exitDestroy own t =>
      if (kThreadDestroy s.k t).2 ≠ 0 then some (s.setPc p (.exitUnlock own t false))
      else some { s.setPc p (.exitFlags own t) with k := (kThreadDestroy s.k t).1 }
  | .exitFlags own t =>
      some (s.setPc p (if (s.k.thread t).flags &&& cloneChildCleartid != 0 then .exitCtid own t
        else .exitSwitch own t false))
  | .exitCtid own t => some (s.setPc p (.exitClear own t (s.k.thread t).ctid))
  | .exitClear own t addr =>
      some { s.setPc p (.exitSwitch own t true) with
        k := s.k.store addr 0
        log := .clear own addr :: s.log }
  | .exitSwitch own t wake =>
      -- the other CPUs change the task of this one under its lock only
      (kThreadContextSwitchNolock s.k p).map fun k =>
        { s.setPc p (.exitUnlock own t wake) with k := k }
  | .exitUnlock own t wake =>
      if wake then
        some { s.setPc p (.exitWakeCtid own t) with
          cpuLock := Function.update s.cpuLock p none }
      else
        some { s.setPc p .user with
          cpuLock := Function.update s.cpuLock p none
          log := .silent own :: s.log }
  | .exitWakeCtid own t => some (s.setPc p (.exitWake own (s.k.thread t).ctid))
  | .exitWake own addr =>
      some { s.setPc p .user with
        k := s.k.setFutexes
          (kCpuFutexWake s.k.present s.k.futexes p addr 1 futexBitsetAny reply.ipi).1
        log := .wake own addr :: s.log }

/-- `k_sys_set_tid_address` on CPU `p`. -/
def kSysSetTidAddress (k : KState N) (p : Fin N) (addr : Nat) : KState N :=
  match (k.cpu p).tiTask with
  | none => k
  | some t =>
      if (k.thread t).flags &&& cloneChildCleartid ≠ 0 then
        k.modifyThread t fun ti => { ti with ctid := addr }
      else k

/-- What a thread has registered after its own `k_sys_set_tid_address`. -/
def Registration.setTid (r : Registration) (addr : Nat) : Registration :=
  if r.clears then { r with ctid := addr } else r

/-- One step. Calls are made by user threads, context switches also by the idle thread. -/
def raceStep (cfg : StackConfig) (s : RaceState N) : RaceLabel N → Option (RaceState N)
  | .clone p frame args =>
      if (s.pc p).isUser && (s.k.userThread p).isSome then
        if cloneCheck args ≠ 0 then some { s with k := s.k.trap p frame }
        else some { s.setPc p (.lockSmp args) with k := s.k.trap p frame }
      else none
  | .exit p frame =>
      if (s.pc p).isUser then
        (s.k.userThread p).map fun t =>
          { s.setPc p (.exitLock (s.reg t)) with k := s.k.trap p frame }
      else none
  | .setTidAddress p frame addr =>
      if (s.pc p).isUser then
        (s.k.userThread p).map fun t =>
          { s with
            k := kSysSetTidAddress (s.k.trap p frame) p addr
            reg := Function.update s.reg t ((s.reg t).setTid addr) }
      else none
  | .contextSwitch p frame =>
      if (s.pc p).isUser then some { s.setPc p .switchLock with k := s.k.trap p frame } else none
  | .step p reply => raceCpuStep cfg reply s p

/-- No call is in progress; every thread has registered what its slot holds. -/
def RaceState.start (k : KState N) : RaceState N where
  k := k
  pc := fun _ => .user
  cpuLock := fun _ => none
  procLock := none
  smpLock := none
  reg := fun t => (k.thread t).registration
  log := []

section Sequential

variable (cfg : StackConfig) (current : UserRegs) (p c : Fin N) (t : Fin (2 * N))
  (args : CloneArgs) (k : KState N)

/-- Without interleaving, the accesses of the creation are `k_thread_create`'s. -/
theorem createOps_foldl :
    createOps.foldl (SlotOp.exec cfg current p c t) k = takeSlot k current t := by
  simp [createOps, SlotOp.exec, takeSlot, KState.modifyThread]

theorem infoOps_foldl :
    (infoOps args).foldl (SlotOp.exec cfg current p c t) k = cloneSetInfo k args t := by
  cases hctid : args.needCtid <;> cases hptid : args.needPtid <;> cases htls : args.needTls <;>
    simp [infoOps, SlotOp.exec, cloneSetInfo, KState.modifyThread, hctid, hptid, htls]

theorem notifyOps_foldl :
    (notifyOps args).foldl (SlotOp.exec cfg current p c t) k = cloneNotify k args t := by
  unfold notifyOps cloneNotify
  split
  · split
    · rfl
    · rfl
  · split
    · rfl
    · rfl

/-- Without interleaving, the accesses of the clone call are those of its three parts. -/
theorem cloneOps_foldl :
    (cloneOps args).foldl (SlotOp.exec cfg current p c t) k =
      cloneSetRegs cfg (cloneNotify (cloneSetInfo k args t) args t) p c args t := by
  rw [cloneOps, List.foldl_append, List.foldl_append, infoOps_foldl, notifyOps_foldl]
  simp [SlotOp.exec, cloneSetRegs, KState.modifyThread]

/-- Without interleaving, the two parts of a context switch are the whole. -/
theorem switchSave_bind_switchTo :
    ((switchSave k p).bind fun out => switchTo out.1 p out.2) =
      kThreadContextSwitchNolock k p := by
  unfold switchSave switchTo kThreadContextSwitchNolock
  cases hti : (k.cpu p).ti with
  | none =>
      by_cases hidle : (k.cpu p).tiIdle = none
      · simp [hidle]
      · simp [Ne.symm hidle]
  | some ti =>
      by_cases hidle : some ti = (k.cpu p).tiIdle
      · cases (k.cpu p).tiTask <;> simp [← hidle]
      · cases (k.cpu p).tiTask <;> simp [hidle]

end Sequential

end BaremetalCrt
