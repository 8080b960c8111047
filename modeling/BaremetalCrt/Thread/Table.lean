import BaremetalCrt.Cpu.Registers
import BaremetalCrt.Cpu.FutexRecord
import Mathlib.Data.List.FinRange

/-!
# The thread table and the CPU table

There are two thread slots for each of the `N` cores. A slot is referred to
by its index, and a null pointer is `none`. A function that would follow a
null pointer has no result.
-/

namespace BaremetalCrt

variable {N : Nat}

/-- `struct k_thread_info`. -/
structure ThreadInfo (N : Nat) where
  tid : BitVec 32
  avail : Bool
  running : Bool
  flags : BitVec 64
  sp : Nat
  ctid : Nat
  ptid : Nat
  tls : Nat
  regs : UserRegs
  cpu : Option (Fin N)

/-- `struct k_cpu_device`, with the frame that `regs` points to. -/
structure CpuDevice (N : Nat) where
  regs : UserRegs
  ti : Option (Fin (2 * N))
  tiIdle : Option (Fin (2 * N))
  tiTask : Option (Fin (2 * N))
  futex : CpuFutex

/-- The tables, the process and the `int` words of user memory. -/
structure KState (N : Nat) where
  present : Fin N → Bool
  cpu : Fin N → CpuDevice N
  thread : Fin (2 * N) → ThreadInfo N
  uniqTid : BitVec 32
  leader : Option (Fin (2 * N))
  word : Nat → BitVec 32

/-- Update one CPU device. -/
def KState.modifyCpu (s : KState N) (c : Fin N) (f : CpuDevice N → CpuDevice N) : KState N :=
  { s with cpu := Function.update s.cpu c (f (s.cpu c)) }

/-- Update one thread slot. -/
def KState.modifyThread (s : KState N) (t : Fin (2 * N)) (f : ThreadInfo N → ThreadInfo N) :
    KState N :=
  { s with thread := Function.update s.thread t (f (s.thread t)) }

/-- Store an `int` of user memory. -/
def KState.store (s : KState N) (addr : Nat) (val : BitVec 32) : KState N :=
  { s with word := Function.update s.word addr val }

/-- What the calls of a running system leave alone: which CPUs exist, and the leader. -/
def KState.fixed (s : KState N) : (Fin N → Bool) × Option (Fin (2 * N)) := (s.present, s.leader)

section Projections

variable (s : KState N) (c : Fin N) (t : Fin (2 * N)) (f : CpuDevice N → CpuDevice N)
  (g : ThreadInfo N → ThreadInfo N) (a : Nat) (v : BitVec 32)

@[simp] theorem KState.modifyCpu_cpu :
    (s.modifyCpu c f).cpu = Function.update s.cpu c (f (s.cpu c)) := rfl
@[simp] theorem KState.modifyCpu_thread : (s.modifyCpu c f).thread = s.thread := rfl
@[simp] theorem KState.modifyCpu_fixed : (s.modifyCpu c f).fixed = s.fixed := rfl
@[simp] theorem KState.modifyThread_thread :
    (s.modifyThread t g).thread = Function.update s.thread t (g (s.thread t)) := rfl
@[simp] theorem KState.modifyThread_cpu : (s.modifyThread t g).cpu = s.cpu := rfl
@[simp] theorem KState.modifyThread_fixed : (s.modifyThread t g).fixed = s.fixed := rfl
@[simp] theorem KState.store_cpu : (s.store a v).cpu = s.cpu := rfl
@[simp] theorem KState.store_thread : (s.store a v).thread = s.thread := rfl
@[simp] theorem KState.store_fixed : (s.store a v).fixed = s.fixed := rfl

end Projections

/-- `k_proc_set_leader` of the only process. -/
def kProcSetLeader (s : KState N) (t : Fin (2 * N)) : KState N := { s with leader := some t }

/-- `k_smp_find_idle_cpu`: the first CPU without a task thread. -/
def kSmpFindIdleCpu (s : KState N) : Option (Fin N) :=
  (List.finRange N).find? fun c => s.present c && (s.cpu c).tiTask.isNone

/-- The slot that `k_thread_create` takes. -/
def findFreeSlot (s : KState N) : Option (Fin (2 * N)) :=
  (List.finRange (2 * N)).find? fun t => !(s.thread t).avail

/-- The part of `k_thread_create` after a slot was found; `alloc_tid` is a
fetch-and-add on an `int`. -/
def takeSlot (s : KState N) (current : UserRegs) (t : Fin (2 * N)) : KState N :=
  { s.modifyThread t fun ti =>
      { ti with
        tid := s.uniqTid
        avail := true
        running := false
        sp := 0
        ctid := 0
        ptid := 0
        regs := kArchThreadInit current } with
    uniqTid := s.uniqTid + 1 }

@[simp] theorem takeSlot_cpu (s : KState N) (current : UserRegs) (t : Fin (2 * N)) :
    (takeSlot s current t).cpu = s.cpu := rfl

@[simp] theorem takeSlot_fixed (s : KState N) (current : UserRegs) (t : Fin (2 * N)) :
    (takeSlot s current t).fixed = s.fixed := rfl

theorem takeSlot_thread (s : KState N) (current : UserRegs) (t : Fin (2 * N)) :
    (takeSlot s current t).thread = Function.update s.thread t
      { s.thread t with
        tid := s.uniqTid
        avail := true
        running := false
        sp := 0
        ctid := 0
        ptid := 0
        regs := kArchThreadInit current } := rfl

/-- `k_thread_create`. -/
def kThreadCreate (s : KState N) (current : UserRegs) : KState N × Option (Fin (2 * N)) :=
  match findFreeSlot s with
  | none => (s, none)
  | some t => (takeSlot s current t, some t)

/-- `k_thread_destroy` of a thread that exists. -/
def kThreadDestroy (s : KState N) (t : Fin (2 * N)) : KState N × Int :=
  if (s.thread t).running then (s, -ebusy)
  else (s.modifyThread t fun ti => { ti with avail := false }, 0)

/-- `k_thread_run`. -/
def kThreadRun (s : KState N) (t : Fin (2 * N)) (c : Fin N) : KState N :=
  (s.modifyThread t fun ti => { ti with running := true, cpu := some c }).modifyCpu c
    fun cpu => { cpu with tiTask := some t }

/-- `k_thread_stop`. -/
def kThreadStop (s : KState N) (t : Fin (2 * N)) : Option (KState N) :=
  (s.thread t).cpu.map fun c =>
    (s.modifyCpu c fun cpu => { cpu with tiTask := none }).modifyThread t
      fun ti => { ti with running := false, cpu := none }

/-- `k_thread_context_switch_nolock` on CPU `p`. -/
def kThreadContextSwitchNolock (s : KState N) (p : Fin N) : Option (KState N) :=
  let ti := (s.cpu p).ti
  let tiIdle := (s.cpu p).tiIdle
  -- save the context of the idle thread
  let saved : Option (KState N) :=
    if ti = tiIdle then
      ti.map fun t => s.modifyThread t fun info => { info with regs := (s.cpu p).regs }
    else some s
  saved.bind fun s' =>
    match ti, (s.cpu p).tiTask with
    | some _, some task =>
        some (s'.modifyCpu p fun cpu =>
          { cpu with regs := (s'.thread task).regs, ti := some task })
    | _, _ =>
        tiIdle.map fun idle =>
          s'.modifyCpu p fun cpu => { cpu with regs := (s'.thread idle).regs, ti := some idle }

end BaremetalCrt
