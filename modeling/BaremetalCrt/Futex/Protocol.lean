import BaremetalCrt.Cpu.FutexRecord
import BaremetalCrt.Library.Runs

/-!
# The futex protocol between CPUs

`k_cpu_futex_wait` and `k_cpu_futex_wake` as they interleave on the CPUs of
the system. Every section under the lock of a CPU is one step, and so is each
read of the futex word, the test of the wake-up flag, the wait instruction and
the window in which pending interrupts are taken. User code stores words and
takes interrupts; interrupts can also come from anywhere else.

## Implementation notes

The state carries the history of the run beside what the code keeps: how many
waits and wakes each CPU has begun, which wait each unit of a wake's result
was counted for, and what the wakes returned. No step reads the history.
-/

namespace BaremetalCrt

variable {N : Nat}

/-- The arguments of `k_cpu_futex_wait`. -/
structure WaitCall where
  uaddr : Nat
  val : BitVec 32
  bitset : BitVec 32
  deriving DecidableEq

/-- The arguments of `k_cpu_futex_wake`. -/
structure WakeCall where
  uaddr : Nat
  n : Int
  bitset : BitVec 32
  deriving DecidableEq

/-- Where a wait stands after its registration: at the test of the flag, at the
read of the word, at the wait instruction, in the interrupt window, or at the
removal of its registration with the result it will return. -/
inductive WaitStage where
  | test | read | wfi | window
  | leave (res : Int)
  deriving DecidableEq

/-- Where a CPU stands: outside of the two calls, in a wait, in a wake before CPU
`i` is looked at, or in a wake that has flagged CPU `i` and is about to
interrupt it. -/
inductive FutexPc (N : Nat) where
  | user
  | wait (call : WaitCall) (stage : WaitStage)
  | scan (call : WakeCall) (i : Nat) (res : Int)
  | raise (call : WakeCall) (i : Fin N) (res : Int)
  deriving DecidableEq

/-- One unit of a wake's result: which wake of which CPU counted which wait. -/
structure Counted (N : Nat) where
  waker : Fin N
  wake : Nat
  waiter : Fin N
  wait : Nat
  deriving DecidableEq

/-- A wake that has returned, with its result. -/
structure WakeReturn (N : Nat) where
  waker : Fin N
  wake : Nat
  res : Int
  deriving DecidableEq

structure FutexSys (N : Nat) where
  present : Fin N → Bool
  futex : Fin N → CpuFutex
  word : Nat → BitVec 32
  pending : Fin N → Bool
  pc : Fin N → FutexPc N
  waits : Fin N → Nat
  wakes : Fin N → Nat
  counted : List (Counted N)
  returned : List (WakeReturn N)

/-- Move a CPU. -/
def FutexSys.setPc (s : FutexSys N) (p : Fin N) (pc : FutexPc N) : FutexSys N :=
  { s with pc := Function.update s.pc p pc }

/-- What can happen next. -/
inductive FutexLabel (N : Nat) where
  | store (p : Fin N) (addr : Nat) (val : BitVec 32)
  | waitBegin (p : Fin N) (call : WaitCall)
  | wakeBegin (p : Fin N) (call : WakeCall)
  | step (p : Fin N)
  | interrupt (p : Fin N)
  | take (p : Fin N)
  deriving DecidableEq

/-- The next step of the call that CPU `p` is in. -/
def cpuStep (s : FutexSys N) (p : Fin N) : Option (FutexSys N) :=
  match s.pc p with
  | .user => none
  | .wait call .test =>
      some (s.setPc p (.wait call (if (s.futex p).wakeup then .leave 0 else .read)))
  | .wait call .read =>
      some (s.setPc p (.wait call
        (if s.word call.uaddr ≠ (s.futex p).val then .leave (-ewouldblock) else .wfi)))
  | .wait call .wfi =>
      if s.pending p then some (s.setPc p (.wait call .window)) else none
  | .wait call .window =>
      some { s.setPc p (.wait call .test) with pending := Function.update s.pending p false }
  | .wait _ (.leave _) =>
      some { s.setPc p .user with futex := Function.update s.futex p CpuFutex.idle }
  | .scan call i res =>
      if h : i < N ∧ res < call.n then
        let c : Fin N := ⟨i, h.1⟩
        if wakeVisits s.present p c && (s.futex c).matches call.uaddr call.bitset then
          some { s.setPc p (.raise call c res) with
            futex := Function.update s.futex c { s.futex c with wakeup := true }
            counted := ⟨p, s.wakes p, c, s.waits c⟩ :: s.counted }
        else some (s.setPc p (.scan call (i + 1) res))
      else
        some { s.setPc p .user with returned := ⟨p, s.wakes p, res⟩ :: s.returned }
  | .raise call i res =>
      some { s.setPc p (.scan call (i + 1) (res + 1)) with
        pending := Function.update s.pending i true }

/-- One step of the system. Calls are made, words are stored and interrupts are
taken by user code; a call with an empty bit set returns at once. -/
def futexStep (s : FutexSys N) : FutexLabel N → Option (FutexSys N)
  | .store p addr val =>
      if s.present p ∧ s.pc p = .user then
        some { s with word := Function.update s.word addr val }
      else none
  | .waitBegin p call =>
      if s.present p ∧ s.pc p = .user then
        if call.bitset = 0 then some s
        else
          some { s.setPc p (.wait call .test) with
            futex := Function.update s.futex p
              (CpuFutex.waiting call.uaddr call.val call.bitset)
            waits := Function.update s.waits p (s.waits p + 1) }
      else none
  | .wakeBegin p call =>
      if s.present p ∧ s.pc p = .user then
        if call.bitset = 0 then some s
        else
          some { s.setPc p (.scan call 0 0) with
            wakes := Function.update s.wakes p (s.wakes p + 1) }
      else none
  | .step p => cpuStep s p
  | .interrupt p => some { s with pending := Function.update s.pending p true }
  | .take p =>
      if s.pc p = .user ∧ s.pending p then
        some { s with pending := Function.update s.pending p false }
      else none

/-- No call has been made yet. -/
def FutexSys.start (present : Fin N → Bool) (word : Nat → BitVec 32)
    (pending : Fin N → Bool) : FutexSys N where
  present := present
  futex := fun _ => CpuFutex.idle
  word := word
  pending := pending
  pc := fun _ => .user
  waits := fun _ => 0
  wakes := fun _ => 0
  counted := []
  returned := []

/-- What a step can do. -/
inductive FutexMove (s : FutexSys N) : FutexLabel N → FutexSys N → Prop
  | waitRejected {p : Fin N} {call : WaitCall} (hbit : call.bitset = 0) :
      FutexMove s (.waitBegin p call) s
  | wakeRejected {p : Fin N} {call : WakeCall} (hbit : call.bitset = 0) :
      FutexMove s (.wakeBegin p call) s
  | store {p : Fin N} {addr : Nat} {val : BitVec 32} (hp : s.pc p = .user) :
      FutexMove s (.store p addr val) { s with word := Function.update s.word addr val }
  | waitBegin {p : Fin N} {call : WaitCall} (hpres : s.present p = true) (hp : s.pc p = .user)
      (hbit : call.bitset ≠ 0) :
      FutexMove s (.waitBegin p call) { s.setPc p (.wait call .test) with
        futex := Function.update s.futex p (CpuFutex.waiting call.uaddr call.val call.bitset)
        waits := Function.update s.waits p (s.waits p + 1) }
  | wakeBegin {p : Fin N} {call : WakeCall} (hp : s.pc p = .user) (hbit : call.bitset ≠ 0) :
      FutexMove s (.wakeBegin p call) { s.setPc p (.scan call 0 0) with
        wakes := Function.update s.wakes p (s.wakes p + 1) }
  | interrupt {p : Fin N} :
      FutexMove s (.interrupt p) { s with pending := Function.update s.pending p true }
  | take {p : Fin N} (hp : s.pc p = .user) :
      FutexMove s (.take p) { s with pending := Function.update s.pending p false }
  | test {p : Fin N} {call : WaitCall} (hp : s.pc p = .wait call .test) :
      FutexMove s (.step p)
        (s.setPc p (.wait call (if (s.futex p).wakeup then .leave 0 else .read)))
  | read {p : Fin N} {call : WaitCall} (hp : s.pc p = .wait call .read) :
      FutexMove s (.step p) (s.setPc p (.wait call
        (if s.word call.uaddr ≠ (s.futex p).val then .leave (-ewouldblock) else .wfi)))
  | wfi {p : Fin N} {call : WaitCall} (hp : s.pc p = .wait call .wfi)
      (hpending : s.pending p = true) :
      FutexMove s (.step p) (s.setPc p (.wait call .window))
  | window {p : Fin N} {call : WaitCall} (hp : s.pc p = .wait call .window) :
      FutexMove s (.step p)
        { s.setPc p (.wait call .test) with pending := Function.update s.pending p false }
  | leave {p : Fin N} {call : WaitCall} {res : Int} (hp : s.pc p = .wait call (.leave res)) :
      FutexMove s (.step p)
        { s.setPc p .user with futex := Function.update s.futex p CpuFutex.idle }
  | count {p c : Fin N} {call : WakeCall} {res : Int} (hp : s.pc p = .scan call c res)
      (hres : res < call.n) (hvisit : wakeVisits s.present p c = true)
      (hmatch : (s.futex c).matches call.uaddr call.bitset = true) :
      FutexMove s (.step p) { s.setPc p (.raise call c res) with
        futex := Function.update s.futex c { s.futex c with wakeup := true }
        counted := ⟨p, s.wakes p, c, s.waits c⟩ :: s.counted }
  | skip {p c : Fin N} {call : WakeCall} {res : Int} (hp : s.pc p = .scan call c res)
      (hres : res < call.n)
      (hno : (wakeVisits s.present p c && (s.futex c).matches call.uaddr call.bitset) = false) :
      FutexMove s (.step p) (s.setPc p (.scan call (c + 1) res))
  | finish {p : Fin N} {call : WakeCall} {i : Nat} {res : Int} (hp : s.pc p = .scan call i res)
      (hend : N ≤ i ∨ call.n ≤ res) :
      FutexMove s (.step p)
        { s.setPc p .user with returned := ⟨p, s.wakes p, res⟩ :: s.returned }
  | raise {p c : Fin N} {call : WakeCall} {res : Int} (hp : s.pc p = .raise call c res) :
      FutexMove s (.step p) { s.setPc p (.scan call (c + 1) (res + 1)) with
        pending := Function.update s.pending c true }

/-- A CPU in its scan flags the CPU at its index, goes past it, or ends its call. -/
theorem FutexMove.scan_cases {s s' : FutexSys N} {p : Fin N} {call : WakeCall} {i : Nat}
    {res : Int} (hmove : FutexMove s (.step p) s') (hpc : s.pc p = .scan call i res) :
    (∃ c : Fin N, (c : Nat) = i ∧ s' = { s.setPc p (.raise call c res) with
        futex := Function.update s.futex c { s.futex c with wakeup := true }
        counted := ⟨p, s.wakes p, c, s.waits c⟩ :: s.counted }) ∨
      (∃ c : Fin N, (c : Nat) = i ∧
        (wakeVisits s.present p c && (s.futex c).matches call.uaddr call.bitset) = false ∧
        s' = s.setPc p (.scan call (c + 1) res)) ∨
      ((N ≤ i ∨ call.n ≤ res) ∧
        s' = { s.setPc p .user with returned := ⟨p, s.wakes p, res⟩ :: s.returned }) := by
  cases hmove with
  | test hp => exact absurd (hp.symm.trans hpc) nofun
  | read hp => exact absurd (hp.symm.trans hpc) nofun
  | wfi hp _ => exact absurd (hp.symm.trans hpc) nofun
  | window hp => exact absurd (hp.symm.trans hpc) nofun
  | leave hp => exact absurd (hp.symm.trans hpc) nofun
  | raise hp => exact absurd (hp.symm.trans hpc) nofun
  | count hp _ _ _ =>
      obtain ⟨rfl, hc, rfl⟩ := FutexPc.scan.inj (hp.symm.trans hpc)
      exact Or.inl ⟨_, hc, rfl⟩
  | skip hp _ hno =>
      obtain ⟨rfl, hc, rfl⟩ := FutexPc.scan.inj (hp.symm.trans hpc)
      exact Or.inr (Or.inl ⟨_, hc, hno, rfl⟩)
  | finish hp hend =>
      obtain ⟨rfl, rfl, rfl⟩ := FutexPc.scan.inj (hp.symm.trans hpc)
      exact Or.inr (Or.inr ⟨hend, rfl⟩)

/-- A CPU that has flagged another one interrupts it and goes on with its scan. -/
theorem FutexMove.raise_eq {s s' : FutexSys N} {p c : Fin N} {call : WakeCall} {res : Int}
    (hmove : FutexMove s (.step p) s') (hpc : s.pc p = .raise call c res) :
    s' = { s.setPc p (.scan call (c + 1) (res + 1)) with
      pending := Function.update s.pending c true } := by
  cases hmove with
  | test hp => exact absurd (hp.symm.trans hpc) nofun
  | read hp => exact absurd (hp.symm.trans hpc) nofun
  | wfi hp _ => exact absurd (hp.symm.trans hpc) nofun
  | window hp => exact absurd (hp.symm.trans hpc) nofun
  | leave hp => exact absurd (hp.symm.trans hpc) nofun
  | count hp _ _ _ => exact absurd (hp.symm.trans hpc) nofun
  | skip hp _ _ => exact absurd (hp.symm.trans hpc) nofun
  | finish hp _ => exact absurd (hp.symm.trans hpc) nofun
  | raise hp =>
      obtain ⟨rfl, rfl, rfl⟩ := FutexPc.raise.inj (hp.symm.trans hpc)
      rfl

theorem cpuStep_move {s s' : FutexSys N} {p : Fin N} (h : cpuStep s p = some s') :
    FutexMove s (.step p) s' := by
  unfold cpuStep at h
  split at h
  · exact absurd h (by simp)
  · rename_i call hp
    obtain rfl := Option.some.inj h
    exact FutexMove.test hp
  · rename_i call hp
    obtain rfl := Option.some.inj h
    exact FutexMove.read hp
  · rename_i call hp
    split at h
    · rename_i hpending
      obtain rfl := Option.some.inj h
      exact FutexMove.wfi hp hpending
    · exact absurd h (by simp)
  · rename_i call hp
    obtain rfl := Option.some.inj h
    exact FutexMove.window hp
  · rename_i call res hp
    obtain rfl := Option.some.inj h
    exact FutexMove.leave hp
  · rename_i call i res hp
    split at h
    · rename_i hlt
      dsimp only at h
      split at h
      · rename_i hhit
        obtain ⟨hvisit, hmatch⟩ := (Bool.and_eq_true _ _).mp hhit
        obtain rfl := Option.some.inj h
        exact FutexMove.count (c := ⟨i, hlt.1⟩) hp hlt.2 hvisit hmatch
      · rename_i hmiss
        obtain rfl := Option.some.inj h
        exact FutexMove.skip (c := ⟨i, hlt.1⟩) hp hlt.2 (Bool.eq_false_iff.mpr hmiss)
    · rename_i hend
      obtain rfl := Option.some.inj h
      exact FutexMove.finish hp (by omega)
  · rename_i call i res hp
    obtain rfl := Option.some.inj h
    exact FutexMove.raise hp

theorem futexStep_move {s s' : FutexSys N} {l : FutexLabel N} (h : futexStep s l = some s') :
    FutexMove s l s' := by
  cases l with
  | store p addr val =>
      simp only [futexStep] at h
      split at h
      · rename_i hguard
        obtain rfl := Option.some.inj h
        exact FutexMove.store hguard.2
      · exact absurd h (by simp)
  | waitBegin p call =>
      simp only [futexStep] at h
      split at h
      · rename_i hguard
        split at h
        · rename_i hbit
          obtain rfl := Option.some.inj h
          exact FutexMove.waitRejected hbit
        · rename_i hbit
          obtain rfl := Option.some.inj h
          exact FutexMove.waitBegin hguard.1 hguard.2 hbit
      · exact absurd h (by simp)
  | wakeBegin p call =>
      simp only [futexStep] at h
      split at h
      · rename_i hguard
        split at h
        · rename_i hbit
          obtain rfl := Option.some.inj h
          exact FutexMove.wakeRejected hbit
        · rename_i hbit
          obtain rfl := Option.some.inj h
          exact FutexMove.wakeBegin hguard.2 hbit
      · exact absurd h (by simp)
  | step p => exact cpuStep_move h
  | interrupt p =>
      obtain rfl := Option.some.inj h
      exact FutexMove.interrupt
  | take p =>
      simp only [futexStep] at h
      split at h
      · rename_i hguard
        obtain rfl := Option.some.inj h
        exact FutexMove.take hguard.1
      · exact absurd h (by simp)

/-- The record without its flag. -/
def CpuFutex.unflag (f : CpuFutex) : CpuFutex := { f with wakeup := false }

/-- The record that belongs to a place in the code. -/
def FutexPc.record : FutexPc N → CpuFutex
  | .wait call _ => CpuFutex.waiting call.uaddr call.val call.bitset
  | _ => CpuFutex.idle

/-- Every CPU holds the record of the call it is in; only registered waits of
existing CPUs are flagged, and their bit sets are not empty. -/
structure FutexInv (s : FutexSys N) : Prop where
  record : ∀ p, (s.futex p).unflag = (s.pc p).record
  flag_wait : ∀ p, (s.futex p).wakeup = true → ∃ call stage, s.pc p = .wait call stage
  waiter : ∀ p call stage, s.pc p = .wait call stage → call.bitset ≠ 0 ∧ s.present p = true

theorem FutexInv.start (present : Fin N → Bool) (word : Nat → BitVec 32)
    (pending : Fin N → Bool) : FutexInv (FutexSys.start present word pending) where
  record := fun _ => rfl
  flag_wait := fun _ h => absurd h (by simp [FutexSys.start, CpuFutex.idle])
  waiter := fun _ _ _ h => absurd h (by simp [FutexSys.start])

/-- The record of a CPU in a wait, up to the flag. -/
theorem FutexInv.waiting {s : FutexSys N} (h : FutexInv s) {p : Fin N} {call : WaitCall}
    {stage : WaitStage} (hp : s.pc p = .wait call stage) :
    (s.futex p).uaddr = call.uaddr ∧ (s.futex p).val = call.val ∧
      (s.futex p).bitset = call.bitset := by
  have hrec := h.record p
  rw [hp] at hrec
  exact ⟨congrArg CpuFutex.uaddr hrec, congrArg CpuFutex.val hrec, congrArg CpuFutex.bitset hrec⟩

/-- Outside of a wait the record is clear. -/
theorem FutexInv.idle {s : FutexSys N} (h : FutexInv s) {p : Fin N}
    (hp : ∀ call stage, s.pc p ≠ .wait call stage) : s.futex p = CpuFutex.idle := by
  have hflag : (s.futex p).wakeup = false := by
    by_contra hset
    obtain ⟨call, stage, hwait⟩ := h.flag_wait p (by simpa using hset)
    exact hp call stage hwait
  have hrec := h.record p
  have hclear : (s.pc p).record = CpuFutex.idle := by
    cases hpc : s.pc p with
    | wait call stage => exact absurd hpc (hp call stage)
    | user => rfl
    | scan call i res => rfl
    | raise call i res => rfl
  rw [hclear] at hrec
  rw [← hrec, CpuFutex.unflag, ← hflag]

/-- Only a registered wait can match, since a clear record has an empty bit set. -/
theorem FutexInv.wait_of_matches {s : FutexSys N} (h : FutexInv s) {c : Fin N} {uaddr : Nat}
    {bitset : BitVec 32} (hmatch : (s.futex c).matches uaddr bitset = true) :
    ∃ call stage, s.pc c = .wait call stage := by
  by_contra hno
  push Not at hno
  rw [h.idle hno] at hmatch
  simp [CpuFutex.matches, CpuFutex.idle] at hmatch

/-- A CPU that moves without touching its registration. -/
theorem FutexInv.move_pc {s s' : FutexSys N} (h : FutexInv s) {p : Fin N} {pc : FutexPc N}
    (hpc : s'.pc = Function.update s.pc p pc) (hfutex : s'.futex = s.futex)
    (hpresent : s'.present = s.present) (hrecord : pc.record = (s.pc p).record)
    (hstay : ∀ call, (∃ stage, pc = .wait call stage) ↔ ∃ stage, s.pc p = .wait call stage) :
    FutexInv s' := by
  constructor
  · intro q
    rw [hfutex, hpc]
    by_cases hq : q = p
    · subst q
      rw [Function.update_self, hrecord]
      exact h.record _
    · rw [Function.update_of_ne hq]
      exact h.record q
  · intro q hflag
    rw [hfutex] at hflag
    obtain ⟨call, stage, hwait⟩ := h.flag_wait q hflag
    rw [hpc]
    by_cases hq : q = p
    · subst q
      rw [Function.update_self]
      exact ⟨call, (hstay call).mpr ⟨stage, hwait⟩⟩
    · rw [Function.update_of_ne hq]
      exact ⟨call, stage, hwait⟩
  · intro q call stage hwait
    rw [hpresent]
    rw [hpc] at hwait
    by_cases hq : q = p
    · subst q
      rw [Function.update_self] at hwait
      obtain ⟨stage', hwait'⟩ := (hstay call).mp ⟨stage, hwait⟩
      exact h.waiter _ call stage' hwait'
    · rw [Function.update_of_ne hq] at hwait
      exact h.waiter q call stage hwait

/-- A wait that goes on to another stage. -/
theorem FutexInv.move_stage {s s' : FutexSys N} (h : FutexInv s) {p : Fin N} {call : WaitCall}
    {stage stage' : WaitStage} (hp : s.pc p = .wait call stage)
    (hpc : s'.pc = Function.update s.pc p (.wait call stage')) (hfutex : s'.futex = s.futex)
    (hpresent : s'.present = s.present) : FutexInv s' := by
  apply h.move_pc hpc hfutex hpresent
  · rw [hp]
    rfl
  · intro call'
    simp [hp]

/-- A CPU that stays outside of any wait. -/
theorem FutexInv.move_out {s s' : FutexSys N} (h : FutexInv s) {p : Fin N} {pc : FutexPc N}
    (hp : ∀ call stage, s.pc p ≠ .wait call stage) (hout : ∀ call stage, pc ≠ .wait call stage)
    (hrecord : pc.record = (s.pc p).record) (hpc : s'.pc = Function.update s.pc p pc)
    (hfutex : s'.futex = s.futex) (hpresent : s'.present = s.present) : FutexInv s' := by
  apply h.move_pc hpc hfutex hpresent hrecord
  intro call
  simp [hp, hout]

/-- Registering a wait. -/
theorem FutexInv.register {s s' : FutexSys N} (h : FutexInv s) {p : Fin N} {call : WaitCall}
    (hpres : s.present p = true) (hbit : call.bitset ≠ 0)
    (hpc : s'.pc = Function.update s.pc p (.wait call .test))
    (hfutex : s'.futex = Function.update s.futex p
      (CpuFutex.waiting call.uaddr call.val call.bitset))
    (hpresent : s'.present = s.present) : FutexInv s' := by
  constructor
  · intro q
    rw [hpc, hfutex]
    by_cases hq : q = p
    · subst q
      rw [Function.update_self, Function.update_self]
      rfl
    · rw [Function.update_of_ne hq, Function.update_of_ne hq]
      exact h.record q
  · intro q hflag
    rw [hpc]
    rw [hfutex] at hflag
    by_cases hq : q = p
    · subst q
      exact ⟨call, .test, Function.update_self ..⟩
    · rw [Function.update_of_ne hq] at hflag ⊢
      exact h.flag_wait q hflag
  · intro q call' stage hwait
    rw [hpc] at hwait
    rw [hpresent]
    by_cases hq : q = p
    · subst q
      rw [Function.update_self] at hwait
      obtain ⟨rfl, -⟩ := FutexPc.wait.inj hwait
      exact ⟨hbit, hpres⟩
    · rw [Function.update_of_ne hq] at hwait
      exact h.waiter q call' stage hwait

/-- Removing a registration. -/
theorem FutexInv.unregister {s s' : FutexSys N} (h : FutexInv s) {p : Fin N}
    (hpc : s'.pc = Function.update s.pc p .user)
    (hfutex : s'.futex = Function.update s.futex p CpuFutex.idle)
    (hpresent : s'.present = s.present) : FutexInv s' := by
  constructor
  · intro q
    rw [hpc, hfutex]
    by_cases hq : q = p
    · subst q
      rw [Function.update_self, Function.update_self]
      rfl
    · rw [Function.update_of_ne hq, Function.update_of_ne hq]
      exact h.record q
  · intro q hflag
    rw [hpc]
    rw [hfutex] at hflag
    by_cases hq : q = p
    · subst q
      rw [Function.update_self] at hflag
      exact absurd hflag (by simp [CpuFutex.idle])
    · rw [Function.update_of_ne hq] at hflag ⊢
      exact h.flag_wait q hflag
  · intro q call stage hwait
    rw [hpc] at hwait
    rw [hpresent]
    by_cases hq : q = p
    · subst q
      rw [Function.update_self] at hwait
      exact absurd hwait (by simp)
    · rw [Function.update_of_ne hq] at hwait
      exact h.waiter q call stage hwait

/-- Flagging a registered wait. -/
theorem FutexInv.flag {s s' : FutexSys N} (h : FutexInv s) {c : Fin N} {call : WaitCall}
    {stage : WaitStage} (hc : s.pc c = .wait call stage) (hpc : s'.pc = s.pc)
    (hfutex : s'.futex = Function.update s.futex c { s.futex c with wakeup := true })
    (hpresent : s'.present = s.present) : FutexInv s' := by
  constructor
  · intro q
    rw [hpc, hfutex]
    by_cases hq : q = c
    · subst q
      rw [Function.update_self]
      exact h.record _
    · rw [Function.update_of_ne hq]
      exact h.record q
  · intro q hflag
    rw [hpc]
    rw [hfutex] at hflag
    by_cases hq : q = c
    · subst q
      exact ⟨call, stage, hc⟩
    · rw [Function.update_of_ne hq] at hflag
      exact h.flag_wait q hflag
  · intro q call' stage' hwait
    rw [hpc] at hwait
    rw [hpresent]
    exact h.waiter q call' stage' hwait

theorem FutexInv.move {s s' : FutexSys N} {l : FutexLabel N} (h : FutexInv s)
    (hmove : FutexMove s l s') : FutexInv s' := by
  cases hmove with
  | waitRejected _ => exact h
  | wakeRejected _ => exact h
  | store _ => exact ⟨h.record, h.flag_wait, h.waiter⟩
  | interrupt => exact ⟨h.record, h.flag_wait, h.waiter⟩
  | take _ => exact ⟨h.record, h.flag_wait, h.waiter⟩
  | waitBegin hpres hp hbit => exact h.register hpres hbit rfl rfl rfl
  | wakeBegin hp hbit =>
      refine h.move_out (by simp [hp]) (by simp) ?_ rfl rfl rfl
      rw [hp]
      rfl
  | test hp => exact h.move_stage hp rfl rfl rfl
  | read hp => exact h.move_stage hp rfl rfl rfl
  | wfi hp _ => exact h.move_stage hp rfl rfl rfl
  | window hp => exact h.move_stage hp rfl rfl rfl
  | leave hp => exact h.unregister rfl rfl rfl
  | @count p c call res hp hres hvisit hmatch =>
      -- the record is flagged first, then the waker moves on
      obtain ⟨wcall, stage, hwait⟩ := h.wait_of_matches hmatch
      have hflag : FutexInv { s with
          futex := Function.update s.futex c { s.futex c with wakeup := true } } :=
        h.flag hwait rfl rfl rfl
      refine hflag.move_out (p := p) (by simp [hp]) (by simp) ?_ rfl rfl rfl
      simp only [hp]
      rfl
  | skip hp _ _ =>
      refine h.move_out (by simp [hp]) (by simp) ?_ rfl rfl rfl
      rw [hp]
      rfl
  | finish hp _ =>
      refine h.move_out (by simp [hp]) (by simp) ?_ rfl rfl rfl
      rw [hp]
      rfl
  | raise hp =>
      refine h.move_out (by simp [hp]) (by simp) ?_ rfl rfl rfl
      rw [hp]
      rfl

end BaremetalCrt
