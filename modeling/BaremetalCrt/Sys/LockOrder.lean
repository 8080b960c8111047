import BaremetalCrt.Library.RankedLocks

/-!
# The order of the kernel's locks

The kernel has a lock for the console, for each CPU, for the search of an idle CPU, for the process,
for the heap, for the program break and for each file descriptor. System calls, interrupts and the
code of the boot take them on every core. Here are the ways of the code through the locks, and what
their order gives.

## Implementation notes

A path has the locks, masks and waits of its function in their order, with a choice for every branch
that matters to them; what the function computes is left out. `k_pri_*` print or not, by the level
that was configured. A function that prints any number of times and takes no other lock is `prints`.
System calls and interrupts begin with interrupts masked, by the trap. Code that runs with
interrupts enabled takes no lock but the console's. A core is its CPU device. A fault inside the
kernel is left out.
-/

namespace BaremetalCrt

open LabelledSystem RankedLocks

/-- The locks. -/
inductive KLock (C F : Type*) where
  /-- `lock_smp`. -/
  | smp
  /-- `lock_brk`. -/
  | brk
  /-- The lock of the heap's `k_mem_node`. -/
  | node
  /-- The lock of a file descriptor. -/
  | desc (f : F)
  /-- The lock of a CPU. -/
  | cpu (c : C)
  /-- The lock of the process. -/
  | pi
  /-- `k_pri_lock`. -/
  | pri
  deriving DecidableEq

/-- What the kernel waits for. -/
inductive KWait where
  /-- `char_in` of the console's driver has a character. -/
  | input
  /-- `char_out` of the console's driver can put out a character. -/
  | output
  /-- `k_cpu_wait_interrupt` returns. -/
  | interrupt
  /-- The task of a CPU has ended. -/
  | child
  /-- `k_boot_done` is set. -/
  | boot
  deriving DecidableEq

/-- The order in which the locks are taken. -/
def KLock.rank {C F : Type*} : KLock C F → Nat
  | .smp | .brk | .node | .desc _ => 0
  | .cpu _ => 1
  | .pi => 2
  | .pri => 3

/-- A core with a lock waits for the console alone. -/
def kernelRules (C F : Type*) : Rules (KLock C F) KWait :=
  ⟨KLock.rank, fun w => w = .input ∨ w = .output⟩

/-- Code, as far as the kernel's locks go. -/
abbrev KPath (C F : Type*) := Code (KLock C F) KWait

namespace KPath

variable {C F : Type*}

/-- One path after the other. -/
def block (cs : List (KPath C F)) : KPath C F := cs.foldr .seq .skip

/-- `k_vprintf`, `k_vsnprintf`, `k_puts`, `k_putchar` and `k_pri_write_stdout`. -/
def kVprintf : KPath C F := .masked (.locked .pri (.loop (.wait .output)))

/-- `k_pri_read_stdin`, with a console or without. -/
def kPriReadStdin : KPath C F := .masked (.locked .pri (.choice (.wait .input) .skip))

/-- `k_pri_err`, `k_pri_warn`, `k_pri_info`, `k_pri_dbg` and `k_dev_err`, or a branch without. -/
def kPri : KPath C F := .choice kVprintf .skip

/-- A function that may print and takes no other lock. -/
def prints : KPath C F := .loop kPri

/-- `k_cpu_get_current`. -/
def kCpuGetCurrent : KPath C F := kPri

/-- `k_proc_get_current`. -/
def kProcGetCurrent : KPath C F := kPri

/-- `k_cpu_raise_ipi`. -/
def kCpuRaiseIpi : KPath C F := block [kCpuGetCurrent, prints]

/-- `k_thread_create`. -/
def kThreadCreate : KPath C F := .locked .pi kPri

/-- `k_thread_destroy`. -/
def kThreadDestroy : KPath C F := kPri

/-- `k_thread_clone` for the idle CPU that it finds. -/
def kThreadClone (cpu : C) : KPath C F :=
  block [kCpuGetCurrent, kProcGetCurrent,
    .choice kPri
      (block [.locked .smp prints,
        .choice .skip
          (.locked (.cpu cpu)
            (block [kThreadCreate,
              .choice .skip (block [kCpuRaiseIpi, .choice .skip kThreadDestroy])]))])]

/-- `k_thread_context_switch_nolock`. -/
def kThreadContextSwitchNolock : KPath C F := kCpuGetCurrent

/-- `k_thread_context_switch`. -/
def kThreadContextSwitch : KPath C F := .locked .smp kThreadContextSwitchNolock

/-- `k_cpu_futex_wait` on a CPU. -/
def kCpuFutexWait (cur : C) : KPath C F :=
  block [kCpuGetCurrent,
    .choice kPri
      (block [.locked (.cpu cur) .skip,
        .loop (block [.wait .interrupt, .window]),
        .locked (.cpu cur) .skip])]

/-- `k_cpu_futex_wake`, with the CPUs in their order. -/
def kCpuFutexWake (cpus : List C) : KPath C F :=
  block [kCpuGetCurrent,
    .choice kPri
      (block (cpus.map fun cpu =>
        block [kPri,
          .choice .skip (block [.locked (.cpu cpu) .skip, .choice .skip kCpuRaiseIpi])]))]

/-- `k_sys_futex64`, also for `k_sys_futex32`. -/
def kSysFutex64 (cpus : List C) (cur : C) : KPath C F :=
  .choice (block [kPri, kCpuFutexWait cur, kPri])
    (.choice (block [kCpuFutexWake cpus, kPri]) kPri)

/-- `k_fini_leader`: the arguments are written back, and the other CPUs are stopped. -/
def kFiniLeader : KPath C F := prints

/-- `k_sys_exit`. -/
def kSysExit (cpus : List C) (cur : C) : KPath C F :=
  block [kProcGetCurrent, kCpuGetCurrent,
    .locked (.cpu cur)
      (.choice kPri
        (block [kThreadDestroy,
          .choice .skip (block [.choice kFiniLeader .skip, kThreadContextSwitchNolock, kPri])])),
    .choice .skip (block [kCpuFutexWake cpus, kPri])]

/-- `k_sys_exit_group`. -/
def kSysExitGroup (cpus : List C) (cur : C) : KPath C F :=
  block [kProcGetCurrent, kCpuGetCurrent, .locked (.cpu cur) kPri,
    .choice .skip
      (.choice (kSysExit cpus cur)
        (block [block (cpus.tail.map fun _ => block [kPri, .choice .skip (.wait .child)]),
          kSysExit cpus cur]))]

/-- `k_file_get_desc`. -/
def kFileGetDesc : KPath C F := block [kProcGetCurrent, kPri]

/-- `k_file_read_nolock`, for the standard input or a GPIO line. -/
def kFileReadNolock : KPath C F := .choice kPriReadStdin .skip

/-- `k_file_write_nolock`, for the standard output or a GPIO line. -/
def kFileWriteNolock : KPath C F := .choice kVprintf .skip

/-- `k_sys_read`. -/
def kSysRead (f : F) : KPath C F :=
  block [kFileGetDesc, .choice .skip (block [kPri, .locked (.desc f) kFileReadNolock])]

/-- `k_sys_write`. -/
def kSysWrite (f : F) : KPath C F :=
  block [kFileGetDesc, .choice .skip (block [kPri, .locked (.desc f) kFileWriteNolock])]

/-- `k_sys_ioctl`. -/
def kSysIoctl (f : F) : KPath C F :=
  block [kFileGetDesc, .choice .skip (block [kPri, .locked (.desc f) prints])]

/-- `k_sys_writev`. -/
def kSysWritev (f : F) : KPath C F :=
  block [kFileGetDesc,
    .choice .skip (.locked (.desc f) (.loop (block [kFileWriteNolock, kPri])))]

/-- `k_sys_brk`. -/
def kSysBrk : KPath C F := block [.locked .brk .skip, kPri]

/-- `k_mem_node_alloc_pages`, `k_mem_node_check_pages` and `k_mem_node_free_pages`. -/
def kMemNodePages : KPath C F := .locked .node prints

/-- `k_sys_mmap`. -/
def kSysMmap : KPath C F := .choice kPri (block [kMemNodePages, kPri])

/-- `k_sys_munmap`. -/
def kSysMunmap : KPath C F := .choice .skip kMemNodePages

/-- `k_sys_madvise`. -/
def kSysMadvise : KPath C F := .choice (block [kPri, kMemNodePages]) kPri

/-- `k_sys_context_switch`. -/
def kSysContextSwitch : KPath C F := block [kCpuGetCurrent, kThreadContextSwitch, prints]

/-- `k_init_system`, up to the functions that print alone. -/
def kInitSystem : KPath C F := block [kMemNodePages, prints]

/-- `init_main_thread` and `init_idle_thread`. -/
def initThread : KPath C F := block [kCpuGetCurrent, kProcGetCurrent, kThreadCreate, prints]

/-- `k_init_leader`. -/
def kInitLeader : KPath C F :=
  block [kCpuGetCurrent, kPri, .loop (block [prints, .wait .boot]), prints, initThread, initThread]

/-- `k_init_child`. -/
def kInitChild : KPath C F := block [kCpuGetCurrent, kPri, initThread]

end KPath

/-- The system calls. -/
inductive KSyscall (C F : Type*) where
  /-- `k_sys_clone` and `k_sys_clone3`. -/
  | clone (cpu : C)
  | futex
  | exit
  | exitGroup
  | read (f : F)
  | write (f : F)
  | writev (f : F)
  | ioctl (f : F)
  | brk
  | mmap
  | munmap
  | madvise
  | contextSwitch
  /-- The others take no lock but the console's. -/
  | other

/-- The way of a system call on a core. -/
def KSyscall.path {C F : Type*} (cpus : List C) (cur : C) : KSyscall C F → KPath C F
  | .clone cpu => KPath.kThreadClone cpu
  | .futex => KPath.kSysFutex64 cpus cur
  | .exit => KPath.kSysExit cpus cur
  | .exitGroup => KPath.kSysExitGroup cpus cur
  | .read f => KPath.kSysRead f
  | .write f => KPath.kSysWrite f
  | .writev f => KPath.kSysWritev f
  | .ioctl f => KPath.kSysIoctl f
  | .brk => KPath.kSysBrk
  | .mmap => KPath.kSysMmap
  | .munmap => KPath.kSysMunmap
  | .madvise => KPath.kSysMadvise
  | .contextSwitch => KPath.kSysContextSwitch
  | .other => KPath.prints

/-- The steps of a kernel with these CPUs. -/
inductive OfKernel {C F : Type*} (cpus : List C) : Label C (KLock C F) KWait → Prop
  | syscall (p : C) (call : KSyscall C F) : OfKernel cpus (.trap p (call.path cpus p))
  /-- The handlers of interrupts print alone. -/
  | interrupt (p : C) : OfKernel cpus (.interrupt p KPath.prints)
  /-- Other code prints. -/
  | print (p : C) : OfKernel cpus (.call p KPath.prints)
  | initSystem (p : C) : OfKernel cpus (.maskedCall p KPath.kInitSystem)
  | initLeader (p : C) : OfKernel cpus (.maskedCall p KPath.kInitLeader)
  | initChild (p : C) : OfKernel cpus (.maskedCall p KPath.kInitChild)
  /-- `k_intr_enable_local`, `k_intr_disable_local` and the status of another thread. -/
  | mask (p : C) (mie : Bool) : OfKernel cpus (.mask p mie)
  | run (p : C) (b : Bool) : OfKernel cpus (.run p b)
  | pass (p : C) (w : KWait) : OfKernel cpus (.pass p w)

section Order

variable {C F : Type*}

theorem KLock.rank_lt (l : KLock C F) : l.rank < 4 := by
  cases l <;> simp [KLock.rank]

/-- A block is in order when its paths are. -/
theorem ordered_block {cs : List (KPath C F)} {m : Bool} {n : Nat}
    (h : ∀ c ∈ cs, c.ordered (kernelRules C F) m n = true) :
    (KPath.block cs).ordered (kernelRules C F) m n = true := by
  induction cs with
  | nil => rfl
  | cons c cs ih =>
      obtain ⟨hc, hcs⟩ := List.forall_mem_cons.mp h
      exact Bool.and_eq_true_iff.mpr ⟨hc, ih hcs⟩

theorem ordered_kCpuFutexWake (cpus : List C) :
    (KPath.kCpuFutexWake cpus : KPath C F).ordered (kernelRules C F) true 0 = true := by
  have hloop : (KPath.block (cpus.map fun cpu => KPath.block [KPath.kPri,
      .choice .skip (KPath.block [.locked (.cpu cpu) .skip, .choice .skip KPath.kCpuRaiseIpi])]) :
      KPath C F).ordered (kernelRules C F) true 0 = true := by
    refine ordered_block ?_
    intro c hc
    obtain ⟨cpu, -, rfl⟩ := List.mem_map.mp hc
    rfl
  exact Bool.and_eq_true_iff.mpr ⟨rfl, Bool.and_eq_true_iff.mpr
    ⟨Bool.and_eq_true_iff.mpr ⟨rfl, hloop⟩, rfl⟩⟩

theorem ordered_wake_print (cpus : List C) :
    (KPath.block [KPath.kCpuFutexWake cpus, KPath.kPri] : KPath C F).ordered
      (kernelRules C F) true 0 = true := by
  refine ordered_block (List.forall_mem_cons.mpr ⟨ordered_kCpuFutexWake cpus, ?_⟩)
  exact List.forall_mem_singleton.mpr rfl

theorem ordered_kSysFutex64 (cpus : List C) (cur : C) :
    (KPath.kSysFutex64 cpus cur : KPath C F).ordered (kernelRules C F) true 0 = true :=
  Bool.and_eq_true_iff.mpr ⟨rfl, Bool.and_eq_true_iff.mpr ⟨ordered_wake_print cpus, rfl⟩⟩

theorem ordered_kSysExit (cpus : List C) (cur : C) :
    (KPath.kSysExit cpus cur : KPath C F).ordered (kernelRules C F) true 0 = true := by
  refine ordered_block ?_
  simp only [List.forall_mem_cons, List.not_mem_nil, false_implies, implies_true, and_true]
  exact ⟨rfl, rfl, rfl, ordered_wake_print cpus⟩

theorem ordered_kSysExitGroup (cpus : List C) (cur : C) :
    (KPath.kSysExitGroup cpus cur : KPath C F).ordered (kernelRules C F) true 0 = true := by
  have hwait : (KPath.block (cpus.tail.map fun _ => KPath.block [KPath.kPri,
      .choice .skip (.wait .child)]) : KPath C F).ordered (kernelRules C F) true 0 = true := by
    refine ordered_block ?_
    intro c hc
    obtain ⟨cpu, -, rfl⟩ := List.mem_map.mp hc
    rfl
  have hexit := ordered_kSysExit (F := F) cpus cur
  have hlast : (KPath.block [KPath.block (cpus.tail.map fun _ => KPath.block [KPath.kPri,
      .choice .skip (.wait .child)]), KPath.kSysExit cpus cur] : KPath C F).ordered
      (kernelRules C F) true 0 = true := by
    refine ordered_block (List.forall_mem_cons.mpr ⟨hwait, ?_⟩)
    exact List.forall_mem_singleton.mpr hexit
  refine ordered_block ?_
  simp only [List.forall_mem_cons, List.not_mem_nil, false_implies, implies_true, and_true]
  exact ⟨rfl, rfl, rfl, Bool.and_eq_true_iff.mpr ⟨rfl, Bool.and_eq_true_iff.mpr ⟨hexit, hlast⟩⟩⟩

/-- Every system call takes its locks in order. -/
theorem KSyscall.ordered_path (cpus : List C) (cur : C) (call : KSyscall C F) :
    (call.path cpus cur).ordered (kernelRules C F) true 0 = true := by
  cases call with
  | futex => exact ordered_kSysFutex64 cpus cur
  | exit => exact ordered_kSysExit cpus cur
  | exitGroup => exact ordered_kSysExitGroup cpus cur
  | _ => rfl

/-- Every step of the kernel enters code that takes its locks in order. -/
theorem OfKernel.ordered {cpus : List C} {x : Label C (KLock C F) KWait} (h : OfKernel cpus x) :
    x.Ordered (kernelRules C F) := by
  cases h with
  | syscall p call => exact KSyscall.ordered_path cpus p call
  | mask p mie => trivial
  | run p b => trivial
  | pass p w => trivial
  | _ => rfl

variable [DecidableEq C] [DecidableEq F]

theorem kernel_ok {cpus : List C} {mie : C → Bool} {xs : List (Label C (KLock C F) KWait)}
    {s : State C (KLock C F) KWait} (hxs : ∀ x ∈ xs, OfKernel cpus x)
    (hrun : exec step (State.start mie) xs = some s) : s.Ok (kernelRules C F) := by
  refine exec_invariant_of_labels (State.Ok.start mie) hxs hrun ?_
  intro s x s' hs hx hstep
  exact hs.step hx.ordered hstep

/-- In every interleaving of the cores, a core that has a lock has its interrupts masked, and so
no handler runs on top of code that has one. -/
theorem lock_owner_masked (cpus : List C) (mie : C → Bool)
    (xs : List (Label C (KLock C F) KWait)) (s : State C (KLock C F) KWait)
    (hxs : ∀ x ∈ xs, OfKernel cpus x) (hrun : exec step (State.start mie) xs = some s)
    (l : KLock C F) (p : C) (howner : s.owner l = some p) : (s.actors p).mie = false := by
  have hs := kernel_ok hxs hrun
  have hlt := (hs.ok p).stacked.rank_lt ((hs.owner_iff l p).mp howner)
  rw [Bool.eq_false_iff]
  intro hmie
  have hzero := (hs.ok p).unmasked hmie
  omega

/-- One core changes the program break while the other one wants to. -/
def twoBreaks : List (Label Bool (KLock Bool Unit) KWait) :=
  [.trap false ((KSyscall.brk).path [false, true] false), .run false true, .run false true,
    .trap true ((KSyscall.brk).path [false, true] true), .run true true]

theorem twoBreaks_ofKernel : ∀ x ∈ twoBreaks, OfKernel [false, true] x := by
  simp only [twoBreaks, List.forall_mem_cons, List.not_mem_nil, false_implies, implies_true,
    and_true]
  exact ⟨.syscall _ _, .run _ _, .run _ _, .syscall _ _, .run _ _⟩

theorem lock_owner_masked_break :
    ∃ s, exec step (State.start fun _ => true) twoBreaks = some s ∧ s.owner .brk = some false ∧
      (s.actors false).mie = false := by
  obtain ⟨s, hrun, howner⟩ :
      ∃ s, exec step (State.start fun _ => true) twoBreaks = some s ∧
        s.owner .brk = some false := ⟨_, rfl, rfl⟩
  exact ⟨s, hrun, howner, lock_owner_masked [false, true] (fun _ => true) twoBreaks s
    twoBreaks_ofKernel hrun .brk false howner⟩

end Order

end BaremetalCrt
