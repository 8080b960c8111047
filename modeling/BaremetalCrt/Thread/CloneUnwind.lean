import BaremetalCrt.Thread.Consistency

/-!
# A clone that fails undoes what it did

`k_thread_clone` checks its arguments, looks for an idle CPU under the SMP lock, and creates and
starts the new thread under the lock of that CPU. Its labels undo these steps in the opposite
order, so a call that fails leaves the tables as they were, and every call gives its locks back.

## Implementation notes

The locks are followed beside the tables; taking a lock that is held would spin forever without
interleaving, and has no outcome. The interrupt to the new CPU goes through the drivers of the
CPU and of the interrupt controller, which decide its result.
-/

namespace BaremetalCrt

variable {N : Nat}

/-- What `k_cpu_raise_ipi` meets on its way: the operation of the CPU driver, `CONFIG_INTC`, the
controller for interrupts between CPUs and its operation, and the ids of the CPU that runs and of
the one that sends. -/
structure IpiRoute where
  cpuOp : Bool
  configIntc : Bool
  intc : Bool
  intcOp : Bool
  idCur : Int
  idSrc : Int

/-- `intc_clint_raise_ipi`. -/
def intcClintRaiseIpi (route : IpiRoute) : Int :=
  if route.idCur ≠ route.idSrc then -einval else 0

/-- `k_intc_raise_ipi`. -/
def kIntcRaiseIpi (route : IpiRoute) : Int :=
  if route.intc = false then -enotsup
  else if route.intcOp then intcClintRaiseIpi route
  else -enotsup

/-- `cpu_riscv_raise_ipi`. -/
def cpuRiscvRaiseIpi (route : IpiRoute) : Int :=
  if route.configIntc then kIntcRaiseIpi route else -enotsup

/-- `k_cpu_raise_ipi`. -/
def kCpuRaiseIpi (route : IpiRoute) : Int :=
  if route.cpuOp then cpuRiscvRaiseIpi route else -enotsup

/-- An interrupt is sent, or fails with a negative error. -/
theorem kCpuRaiseIpi_nonpos (route : IpiRoute) : kCpuRaiseIpi route ≤ 0 := by
  have henotsup : -enotsup ≤ 0 := by decide
  have heinval : -einval ≤ 0 := by decide
  unfold kCpuRaiseIpi cpuRiscvRaiseIpi kIntcRaiseIpi intcClintRaiseIpi
  split_ifs
  all_goals first | exact henotsup | exact heinval | exact Int.le_refl 0

/-- The locks that a clone takes: of the SMP layer, of the process and of each CPU. -/
@[ext]
structure LockTable (N : Nat) where
  smp : Bool
  proc : Bool
  cpu : Fin N → Bool

namespace LockTable

/-- No lock is held. -/
def free : LockTable N := ⟨false, false, fun _ => false⟩

/-- `k_smp_lock`. -/
def lockSmp (l : LockTable N) : Option (LockTable N) :=
  if l.smp then none else some { l with smp := true }

/-- `k_smp_unlock`. -/
def unlockSmp (l : LockTable N) : LockTable N := { l with smp := false }

/-- `k_spinlock_lock` on the lock of the process. -/
def lockProc (l : LockTable N) : Option (LockTable N) :=
  if l.proc then none else some { l with proc := true }

/-- `k_spinlock_unlock` on the lock of the process. -/
def unlockProc (l : LockTable N) : LockTable N := { l with proc := false }

/-- `k_cpu_lock`. -/
def lockCpu (l : LockTable N) (c : Fin N) : Option (LockTable N) :=
  if l.cpu c then none else some { l with cpu := Function.update l.cpu c true }

/-- `k_cpu_unlock`. -/
def unlockCpu (l : LockTable N) (c : Fin N) : LockTable N :=
  { l with cpu := Function.update l.cpu c false }

end LockTable

/-- `k_thread_create` with its lock. -/
def kThreadCreateLocks (s : KState N) (l : LockTable N) (current : UserRegs) :
    Option (KState N × LockTable N × Option (Fin (2 * N))) :=
  l.lockProc.map fun l =>
    let (s, t) := kThreadCreate s current
    (s, l.unlockProc, t)

/-- `k_thread_clone` on CPU `p` with its locks, without interleaving. -/
def kThreadCloneLocks (cfg : StackConfig) (current : UserRegs) (route : IpiRoute)
    (args : CloneArgs) (p : Fin N) (s : KState N) (l : LockTable N) :
    Option (KState N × LockTable N × Int) :=
  let r := cloneCheck args
  if r ≠ 0 then some (s, l, r)
  else
    l.lockSmp.bind fun l =>
      match kSmpFindIdleCpu s with
      | none => some (s, l.unlockSmp, -enomem)
      | some c =>
          (l.unlockSmp.lockCpu c).bind fun l =>
            (kThreadCreateLocks s l current).bind fun (s, l, ti) =>
              match ti with
              | none => some (s, l.unlockCpu c, -enomem)
              | some t =>
                  let s := cloneSetInfo s args t
                  let s := cloneNotify s args t
                  let s := cloneSetRegs cfg s p c args t
                  let s := kThreadRun s t c
                  let r := kCpuRaiseIpi route
                  if r ≠ 0 then
                    (kThreadStop s t).map fun s => ((kThreadDestroy s t).1, l.unlockCpu c, r)
                  else some (s, l.unlockCpu c, (s.thread t).tid.toInt)

section Locks

variable {l l' : LockTable N}

theorem LockTable.unlockSmp_of_lock (h : l.lockSmp = some l') : l'.unlockSmp = l := by
  unfold lockSmp at h
  split at h
  · exact absurd h nofun
  · rename_i hsmp
    obtain rfl := Option.some.inj h
    ext
    · exact (Bool.eq_false_iff.mpr hsmp).symm
    · rfl
    · rfl

theorem LockTable.unlockProc_of_lock (h : l.lockProc = some l') : l'.unlockProc = l := by
  unfold lockProc at h
  split at h
  · exact absurd h nofun
  · rename_i hproc
    obtain rfl := Option.some.inj h
    ext
    · rfl
    · exact (Bool.eq_false_iff.mpr hproc).symm
    · rfl

theorem LockTable.unlockCpu_of_lock {c : Fin N} (h : l.lockCpu c = some l') :
    l'.unlockCpu c = l := by
  unfold lockCpu at h
  split at h
  · exact absurd h nofun
  · rename_i hcpu
    obtain rfl := Option.some.inj h
    have hback : Function.update (Function.update l.cpu c true) c false = l.cpu := by
      rw [Function.update_idem, ← Bool.eq_false_iff.mpr hcpu, Function.update_eq_self]
    ext c'
    · rfl
    · rfl
    · exact congrFun hback c' ▸ rfl

/-- With the lock of its process free, `k_thread_create` leaves the locks as they were. -/
theorem kThreadCreateLocks_eq (s : KState N) (current : UserRegs) (h : l.proc = false) :
    kThreadCreateLocks s l current =
      some ((kThreadCreate s current).1, l, (kThreadCreate s current).2) := by
  have hlock : l.lockProc = some { l with proc := true } := if_neg (by rw [h]; decide)
  rw [kThreadCreateLocks, hlock, Option.map_some, LockTable.unlockProc_of_lock hlock]

/-- From free locks, the call with its locks is the call of the clone module, and every lock is
free behind it. -/
theorem kThreadCloneLocks_free (cfg : StackConfig) (current : UserRegs) (route : IpiRoute)
    (args : CloneArgs) (p : Fin N) (s : KState N) :
    kThreadCloneLocks cfg current route args p s LockTable.free =
      (kThreadClone cfg current (kCpuRaiseIpi route) args p s).map fun out =>
        (out.1, LockTable.free, out.2) := by
  have hsmp : (LockTable.free : LockTable N).lockSmp = some ⟨true, false, fun _ => false⟩ := rfl
  simp only [kThreadCloneLocks, kThreadClone]
  split
  · rfl
  · rw [hsmp, Option.bind_some, LockTable.unlockSmp_of_lock hsmp]
    cases kSmpFindIdleCpu s with
    | none => rfl
    | some c =>
        have hcpu : (LockTable.free : LockTable N).lockCpu c =
            some ⟨false, false, Function.update (fun _ => false) c true⟩ := rfl
        simp only [hcpu, Option.bind_some, kThreadCreateLocks_eq, LockTable.unlockCpu_of_lock hcpu,
          cloneLocked]
        obtain ⟨s₁, slot⟩ := kThreadCreate s current
        cases slot with
        | none => rfl
        | some t =>
            dsimp only
            split
            · rw [Option.map_map]
              rfl
            · rfl

end Locks

section Frame

variable (cfg : StackConfig) (current : UserRegs) (args : CloneArgs) (p c : Fin N) (s : KState N)
  (t : Fin (2 * N))

theorem cloneNotify_thread : (cloneNotify s args t).thread = s.thread := by
  unfold cloneNotify
  split_ifs <;> rfl

theorem cloneNotify_cpu : (cloneNotify s args t).cpu = s.cpu := by
  unfold cloneNotify
  split_ifs <;> rfl

/-- The state in which the new thread is ready to run. -/
def clonePrepared : KState N :=
  cloneSetRegs cfg (cloneNotify (cloneSetInfo (takeSlot s current t) args t) args t) p c args t

theorem clonePrepared_cpu : (clonePrepared cfg current args p c s t).cpu = s.cpu := by
  change (cloneNotify (cloneSetInfo (takeSlot s current t) args t) args t).cpu = s.cpu
  rw [cloneNotify_cpu]
  rfl

theorem clonePrepared_thread_of_ne {t' : Fin (2 * N)} (h : t' ≠ t) :
    (clonePrepared cfg current args p c s t).thread t' = s.thread t' := by
  simp only [clonePrepared, cloneSetRegs, KState.modifyThread_thread, Function.update_of_ne h,
    cloneNotify_thread, cloneSetInfo, takeSlot_thread]

theorem clonePrepared_tid :
    ((clonePrepared cfg current args p c s t).thread t).tid = s.uniqTid := by
  simp only [clonePrepared, cloneSetRegs, KState.modifyThread_thread, Function.update_self,
    cloneNotify_thread, cloneSetInfo, takeSlot_thread]

theorem kThreadRun_clonePrepared_tid :
    ((kThreadRun (clonePrepared cfg current args p c s t) t c).thread t).tid = s.uniqTid := by
  simp only [kThreadRun, KState.modifyCpu_thread, KState.modifyThread_thread,
    Function.update_self, clonePrepared_tid]

end Frame

section Outcome

variable {cfg : StackConfig} {current : UserRegs} {ipi : Int} {args : CloneArgs} {p c : Fin N}
  {s : KState N}

/-- The locked section finds no slot, or starts the prepared thread, or undoes this. -/
theorem cloneLocked_outcome (cfg : StackConfig) (current : UserRegs) (ipi : Int)
    (args : CloneArgs) (p c : Fin N) (s : KState N) :
    (findFreeSlot s = none ∧ cloneLocked cfg current ipi args p c s = some (s, -enomem)) ∨
      ∃ t, findFreeSlot s = some t ∧
        ((ipi = 0 ∧ cloneLocked cfg current ipi args p c s =
            some (kThreadRun (clonePrepared cfg current args p c s t) t c, s.uniqTid.toInt)) ∨
          (ipi ≠ 0 ∧ ∃ s', cloneLocked cfg current ipi args p c s = some (s', ipi) ∧
            s'.roster = (((s.roster.take t).post t c).withdraw t c).drop t)) := by
  cases hslot : findFreeSlot s with
  | none =>
      refine Or.inl ⟨rfl, ?_⟩
      rw [cloneLocked, kThreadCreate, hslot]
  | some t =>
      refine Or.inr ⟨t, rfl, ?_⟩
      have hcreate : kThreadCreate s current = (takeSlot s current t, some t) := by
        rw [kThreadCreate, hslot]
      by_cases hipi : ipi = 0
      · refine Or.inl ⟨hipi, ?_⟩
        simp only [cloneLocked, hcreate, hipi]
        rw [← kThreadRun_clonePrepared_tid cfg current args p c s t]
        rfl
      · have hhome : ((kThreadRun (clonePrepared cfg current args p c s t) t c).thread t).cpu =
            some c := by
          simp only [kThreadRun, KState.modifyCpu_thread, KState.modifyThread_thread,
            Function.update_self]
        have hsome : ∃ s', cloneLocked cfg current ipi args p c s = some (s', ipi) := by
          simp only [cloneLocked, hcreate, if_pos hipi]
          change ∃ s', (kThreadStop (kThreadRun (clonePrepared cfg current args p c s t) t c)
            t).map _ = some (s', ipi)
          rw [kThreadStop, hhome]
          exact ⟨_, rfl⟩
        obtain ⟨s', hs'⟩ := hsome
        refine Or.inr ⟨hipi, s', hs', ?_⟩
        rcases cloneLocked_roster hs' with ⟨hnone, -⟩ | ⟨t', hslot', ⟨hzero, -⟩ | ⟨-, hroster⟩⟩
        · exact absurd (hslot.symm.trans hnone) (Option.some_ne_none t)
        · exact absurd hzero hipi
        · obtain rfl := Option.some.inj (hslot.symm.trans hslot')
          exact hroster

theorem cloneCheck_cases (args : CloneArgs) : cloneCheck args = 0 ∨ cloneCheck args = -efault := by
  unfold cloneCheck
  split_ifs
  all_goals first | exact Or.inl rfl | exact Or.inr rfl

/-- The task of every CPU and the flags of every slot are the same. -/
def SameTables (s s' : KState N) : Prop :=
  (∀ c, (s'.cpu c).tiTask = (s.cpu c).tiTask) ∧
    ∀ t, (s'.thread t).avail = (s.thread t).avail ∧ (s'.thread t).running = (s.thread t).running

/-- One idle CPU got one free slot as its task, and every other CPU and slot is the same. -/
def OneStarted (s s' : KState N) (c : Fin N) (t : Fin (2 * N)) : Prop :=
  (s.cpu c).tiTask = none ∧ (s'.cpu c).tiTask = some t ∧
    (s.thread t).avail = false ∧ (s'.thread t).avail = true ∧ (s'.thread t).running = true ∧
    (∀ c' ≠ c, s'.cpu c' = s.cpu c') ∧ ∀ t' ≠ t, s'.thread t' = s.thread t'

theorem SameTables.refl (s : KState N) : SameTables s s := ⟨fun _ => rfl, fun _ => ⟨rfl, rfl⟩⟩

theorem sameTables_of_dismiss {s' : KState N} {t : Fin (2 * N)} (ht : s.roster.avail t = false)
    (hrun : s.roster.running t = false) (hc : s.roster.task c = none)
    (h : s'.roster = (((s.roster.take t).post t c).withdraw t c).drop t) : SameTables s s' := by
  rw [Roster.dismiss_of_hire ht hrun hc] at h
  refine ⟨fun c' => ?_, fun t' => ⟨?_, ?_⟩⟩
  · exact congrFun (congrArg Roster.task h) c'
  · exact congrFun (congrArg Roster.avail h) t'
  · exact congrFun (congrArg Roster.running h) t'

theorem oneStarted_of_run {t : Fin (2 * N)} (ht : s.roster.avail t = false)
    (hc : s.roster.task c = none) :
    OneStarted s (kThreadRun (clonePrepared cfg current args p c s t) t c) c t := by
  have hroster : (kThreadRun (clonePrepared cfg current args p c s t) t c).roster =
      (s.roster.take t).post t c := by
    rw [roster_kThreadRun, clonePrepared, roster_clone_prepared]
  refine ⟨hc, ?_, ht, ?_, ?_, fun c' hc' => ?_, fun t' ht' => ?_⟩
  · exact (congrFun (congrArg Roster.task hroster) c).trans (Function.update_self ..)
  · exact (congrFun (congrArg Roster.avail hroster) t).trans (Function.update_self ..)
  · exact (congrFun (congrArg Roster.running hroster) t).trans (Function.update_self ..)
  · simp only [kThreadRun, KState.modifyCpu_cpu, KState.modifyThread_cpu,
      Function.update_of_ne hc', clonePrepared_cpu]
  · simp only [kThreadRun, KState.modifyCpu_thread, KState.modifyThread_thread,
      Function.update_of_ne ht', clonePrepared_thread_of_ne cfg current args p c s t ht']

/-- A clone returns: it fails with the tables as before, or starts one thread. -/
theorem kThreadClone_outcome (cfg : StackConfig) (current : UserRegs) (ipi : Int)
    (args : CloneArgs) (p : Fin N) (s : KState N)
    (hslots : ∀ t, (s.thread t).avail = false → (s.thread t).running = false) :
    ∃ s' r, kThreadClone cfg current ipi args p s = some (s', r) ∧
      ((SameTables s s' ∧ (r = -efault ∨ r = -enomem ∨ (r = ipi ∧ ipi ≠ 0))) ∨
        ∃ c t, OneStarted s s' c t ∧ r = s.uniqTid.toInt ∧ (s'.thread t).tid = s.uniqTid) := by
  simp only [kThreadClone]
  rcases cloneCheck_cases args with hcheck | hcheck
  · rw [if_neg (not_not.mpr hcheck)]
    cases hidle : kSmpFindIdleCpu s with
    | none => exact ⟨s, -enomem, rfl, Or.inl ⟨SameTables.refl s, Or.inr (Or.inl rfl)⟩⟩
    | some c =>
        have hc := kSmpFindIdleCpu_task hidle
        dsimp only
        rcases cloneLocked_outcome cfg current ipi args p c s with
          ⟨-, hfull⟩ | ⟨t, hslot, ⟨-, hrun⟩ | ⟨hipi, s', hundo, hroster⟩⟩
        · exact ⟨s, -enomem, hfull, Or.inl ⟨SameTables.refl s, Or.inr (Or.inl rfl)⟩⟩
        · have ht := findFreeSlot_avail hslot
          exact ⟨_, _, hrun, Or.inr ⟨c, t, oneStarted_of_run ht hc, rfl,
            kThreadRun_clonePrepared_tid cfg current args p c s t⟩⟩
        · have ht := findFreeSlot_avail hslot
          exact ⟨s', ipi, hundo, Or.inl ⟨sameTables_of_dismiss ht (hslots t ht) hc hroster,
            Or.inr (Or.inr ⟨rfl, hipi⟩)⟩⟩
  · rw [hcheck, if_pos (by decide)]
    exact ⟨s, -efault, rfl, Or.inl ⟨SameTables.refl s, Or.inl rfl⟩⟩

end Outcome

/-- From free locks a clone returns with every lock free. When it fails, the tables are as before
the call; when it returns a thread id, one CPU and one slot have changed. -/
theorem clone_unwinds (cfg : StackConfig) (current : UserRegs) (route : IpiRoute)
    (args : CloneArgs) (p : Fin N) (s : KState N)
    (hslots : ∀ t, (s.thread t).avail = false → (s.thread t).running = false)
    (htid : s.uniqTid.toNat < 2 ^ 31) :
    ∃ s' r, kThreadCloneLocks cfg current route args p s LockTable.free =
        some (s', LockTable.free, r) ∧
      (r < 0 → SameTables s s') ∧
      (0 ≤ r → ∃ c t, OneStarted s s' c t ∧ r = (s'.thread t).tid.toInt) := by
  obtain ⟨s', r, hclone, hcases⟩ :=
    kThreadClone_outcome cfg current (kCpuRaiseIpi route) args p s hslots
  refine ⟨s', r, ?_, ?_⟩
  · rw [kThreadCloneLocks_free, hclone]
    rfl
  · rcases hcases with ⟨hsame, herror⟩ | ⟨c, t, hstarted, hr, htidEq⟩
    · have hneg : r < 0 := by
        rcases herror with rfl | rfl | ⟨rfl, hipi⟩
        · decide
        · decide
        · exact lt_of_le_of_ne (kCpuRaiseIpi_nonpos route) hipi
      exact ⟨fun _ => hsame, fun h => absurd hneg (Int.not_lt.mpr h)⟩
    · have hpos : 0 ≤ r := by
        rw [hr, BitVec.toInt_eq_toNat_of_lt (by omega)]
        exact Int.natCast_nonneg _
      exact ⟨fun h => absurd h (Int.not_lt.mpr hpos), fun _ => ⟨c, t, hstarted, by rw [hr, htidEq]⟩⟩

/-- Without a controller for interrupts between CPUs, a clone on a machine with two cores returns
with its locks free. -/
theorem clone_unwinds_two_cores :
    ∃ s' r, kThreadCloneLocks smallStacks (fun _ => 0) ⟨true, true, false, false, 0, 0⟩
      (joinableArgs 0x80050000) 0
      (KState.boot (fun _ => true) (fun _ => 0) fun _ => 0 : KState 2) LockTable.free =
        some (s', LockTable.free, r) := by
  obtain ⟨s', r, hclone, -⟩ := clone_unwinds smallStacks (fun _ => 0)
    ⟨true, true, false, false, 0, 0⟩ (joinableArgs 0x80050000) 0
    (KState.boot (fun _ => true) (fun _ => 0) fun _ => 0 : KState 2) (fun _ _ => rfl) (by decide)
  exact ⟨s', r, hclone⟩

end BaremetalCrt
