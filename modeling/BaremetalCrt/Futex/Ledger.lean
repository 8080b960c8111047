import BaremetalCrt.Futex.Protocol

/-!
# What the results of wakes stand for

A wake counts every registered wait that it meets and that it addresses. The
waiter removes its registration itself, some time after it was flagged, so the
same wait can be met again. The ledger of the run tells which wait each unit
was counted for.
-/

namespace BaremetalCrt

open LabelledSystem

variable {N : Nat}

/-- The wait that an entry was counted for. -/
def Counted.key (e : Counted N) : Fin N × Nat := (e.waiter, e.wait)

/-- The scan of a wake does not meet a wait that is flagged already. -/
def NoRewake (s : FutexSys N) : FutexLabel N → Prop
  | .step p => ∀ (call : WakeCall) (c : Fin N) (res : Int), s.pc p = .scan call c res →
      res < call.n → wakeVisits s.present p c = true →
      (s.futex c).matches call.uaddr call.bitset = true → (s.futex c).wakeup = false
  | _ => True

/-- The flag of a wait tells whether it is in the ledger. -/
structure LedgerInv (s : FutexSys N) : Prop where
  base : FutexInv s
  wait_le : ∀ e ∈ s.counted, e.wait ≤ s.waits e.waiter
  entry_of_flag : ∀ p, (s.futex p).wakeup = true →
    ∃ e ∈ s.counted, e.waiter = p ∧ e.wait = s.waits p
  flag_of_entry : ∀ p call stage, s.pc p = .wait call stage → ∀ e ∈ s.counted,
    e.waiter = p → e.wait = s.waits p → (s.futex p).wakeup = true

theorem LedgerInv.start (present : Fin N → Bool) (word : Nat → BitVec 32)
    (pending : Fin N → Bool) : LedgerInv (FutexSys.start present word pending) where
  base := FutexInv.start present word pending
  wait_le := fun _ h => absurd h List.not_mem_nil
  entry_of_flag := fun _ h => absurd h (by simp [FutexSys.start, CpuFutex.idle])
  flag_of_entry := fun _ _ _ _ _ h => absurd h List.not_mem_nil

/-- A step that leaves flags, waits and ledger alone. -/
theorem LedgerInv.keep {s s' : FutexSys N} (h : LedgerInv s) (hbase : FutexInv s')
    (hcounted : s'.counted = s.counted) (hwaits : s'.waits = s.waits)
    (hfutex : s'.futex = s.futex)
    (hwait : ∀ p call stage, s'.pc p = .wait call stage →
      ∃ call' stage', s.pc p = .wait call' stage') :
    LedgerInv s' where
  base := hbase
  wait_le := by
    rw [hcounted, hwaits]
    exact h.wait_le
  entry_of_flag := by
    rw [hfutex, hcounted, hwaits]
    exact h.entry_of_flag
  flag_of_entry := by
    intro p call stage hp
    rw [hfutex, hcounted, hwaits]
    obtain ⟨call', stage', hp'⟩ := hwait p call stage hp
    exact h.flag_of_entry p call' stage' hp'

/-- A CPU is in a wait after a move only if it was before. -/
theorem wait_of_update {s : FutexSys N} {p : Fin N} {pc : FutexPc N}
    (hpc : ∀ call stage, pc = .wait call stage → ∃ call' stage', s.pc p = .wait call' stage')
    (q : Fin N) (call : WaitCall) (stage : WaitStage)
    (hq : Function.update s.pc p pc q = .wait call stage) :
    ∃ call' stage', s.pc q = .wait call' stage' := by
  by_cases hqp : q = p
  · subst q
    rw [Function.update_self] at hq
    exact hpc call stage hq
  · rw [Function.update_of_ne hqp] at hq
    exact ⟨call, stage, hq⟩

theorem LedgerInv.waitBegin_move {s : FutexSys N} (h : LedgerInv s) {p : Fin N}
    {call : WaitCall} (hpres : s.present p = true) (hp : s.pc p = .user)
    (hbit : call.bitset ≠ 0) :
    LedgerInv { s.setPc p (.wait call .test) with
      futex := Function.update s.futex p (CpuFutex.waiting call.uaddr call.val call.bitset)
      waits := Function.update s.waits p (s.waits p + 1) } := by
  have hbase := h.base.move (FutexMove.waitBegin hpres hp hbit)
  refine ⟨hbase, ?_, ?_, ?_⟩
  · intro e he
    have hle := h.wait_le e he
    change e.wait ≤ Function.update s.waits p (s.waits p + 1) e.waiter
    by_cases hep : e.waiter = p
    · rw [hep, Function.update_self]
      rw [hep] at hle
      exact Nat.le_succ_of_le hle
    · rw [Function.update_of_ne hep]
      exact hle
  · intro q hflag
    change (Function.update s.futex p _ q).wakeup = true at hflag
    change ∃ e ∈ s.counted, e.waiter = q ∧ e.wait = Function.update s.waits p _ q
    by_cases hqp : q = p
    · subst q
      rw [Function.update_self] at hflag
      exact absurd hflag (by simp [CpuFutex.waiting])
    · rw [Function.update_of_ne hqp] at hflag ⊢
      exact h.entry_of_flag q hflag
  · intro q call' stage hq e he heq hwait
    change Function.update s.pc p _ q = _ at hq
    change e.wait = Function.update s.waits p _ q at hwait
    change (Function.update s.futex p _ q).wakeup = true
    by_cases hqp : q = p
    · -- the new wait has a number that no entry has yet
      have hle := h.wait_le e he
      rw [hqp, Function.update_self] at hwait
      rw [heq, hqp] at hle
      omega
    · rw [Function.update_of_ne hqp] at hq hwait ⊢
      exact h.flag_of_entry q call' stage hq e he heq hwait

theorem LedgerInv.leave_move {s : FutexSys N} (h : LedgerInv s) {p : Fin N}
    {call : WaitCall} {res : Int} (hp : s.pc p = .wait call (.leave res)) :
    LedgerInv { s.setPc p .user with futex := Function.update s.futex p CpuFutex.idle } := by
  have hbase := h.base.move (FutexMove.leave hp)
  refine ⟨hbase, h.wait_le, ?_, ?_⟩
  · intro q hflag
    change (Function.update s.futex p _ q).wakeup = true at hflag
    by_cases hqp : q = p
    · subst q
      rw [Function.update_self] at hflag
      exact absurd hflag (by simp [CpuFutex.idle])
    · rw [Function.update_of_ne hqp] at hflag
      exact h.entry_of_flag q hflag
  · intro q call' stage hq e he heq hwait
    change Function.update s.pc p _ q = _ at hq
    change (Function.update s.futex p _ q).wakeup = true
    by_cases hqp : q = p
    · rw [hqp, Function.update_self] at hq
      exact absurd hq (by simp)
    · rw [Function.update_of_ne hqp] at hq ⊢
      exact h.flag_of_entry q call' stage hq e he heq hwait

theorem LedgerInv.count_move {s : FutexSys N} (h : LedgerInv s) {p c : Fin N}
    {call : WakeCall} {res : Int} (hp : s.pc p = .scan call c res) (hres : res < call.n)
    (hvisit : wakeVisits s.present p c = true)
    (hmatch : (s.futex c).matches call.uaddr call.bitset = true) :
    LedgerInv { s.setPc p (.raise call c res) with
      futex := Function.update s.futex c { s.futex c with wakeup := true }
      counted := ⟨p, s.wakes p, c, s.waits c⟩ :: s.counted } := by
  have hbase := h.base.move (FutexMove.count hp hres hvisit hmatch)
  refine ⟨hbase, ?_, ?_, ?_⟩
  · intro e he
    rcases List.mem_cons.mp he with rfl | he
    · exact le_rfl
    · exact h.wait_le e he
  · intro q hflag
    change (Function.update s.futex c _ q).wakeup = true at hflag
    by_cases hqc : q = c
    · subst q
      exact ⟨_, List.mem_cons_self, rfl, rfl⟩
    · rw [Function.update_of_ne hqc] at hflag
      obtain ⟨e, he, heq⟩ := h.entry_of_flag q hflag
      exact ⟨e, List.mem_cons_of_mem _ he, heq⟩
  · intro q call' stage hq e he heq hwait
    change (Function.update s.futex c _ q).wakeup = true
    by_cases hqc : q = c
    · rw [hqc, Function.update_self]
    · rw [Function.update_of_ne hqc]
      obtain ⟨wcall, stage', hq'⟩ := wait_of_update (by simp) q call' stage hq
      rcases List.mem_cons.mp he with rfl | he
      · exact absurd heq.symm hqc
      · exact h.flag_of_entry q wcall stage' hq' e he heq hwait

theorem LedgerInv.move {s s' : FutexSys N} {l : FutexLabel N} (h : LedgerInv s)
    (hmove : FutexMove s l s') : LedgerInv s' := by
  have hbase := h.base.move hmove
  cases hmove with
  | waitRejected _ => exact h
  | wakeRejected _ => exact h
  | store _ => exact h.keep hbase rfl rfl rfl fun _ call stage hp => ⟨call, stage, hp⟩
  | interrupt => exact h.keep hbase rfl rfl rfl fun _ call stage hp => ⟨call, stage, hp⟩
  | take _ => exact h.keep hbase rfl rfl rfl fun _ call stage hp => ⟨call, stage, hp⟩
  | waitBegin hpres hp hbit => exact h.waitBegin_move hpres hp hbit
  | wakeBegin hp _ => exact h.keep hbase rfl rfl rfl (wait_of_update (by simp))
  | test hp => exact h.keep hbase rfl rfl rfl (wait_of_update fun _ _ _ => ⟨_, _, hp⟩)
  | read hp => exact h.keep hbase rfl rfl rfl (wait_of_update fun _ _ _ => ⟨_, _, hp⟩)
  | wfi hp _ => exact h.keep hbase rfl rfl rfl (wait_of_update fun _ _ _ => ⟨_, _, hp⟩)
  | window hp => exact h.keep hbase rfl rfl rfl (wait_of_update fun _ _ _ => ⟨_, _, hp⟩)
  | leave hp => exact h.leave_move hp
  | count hp hres hvisit hmatch => exact h.count_move hp hres hvisit hmatch
  | skip hp _ _ => exact h.keep hbase rfl rfl rfl (wait_of_update (by simp))
  | finish hp _ => exact h.keep hbase rfl rfl rfl (wait_of_update (by simp))
  | raise hp => exact h.keep hbase rfl rfl rfl (wait_of_update (by simp))

theorem LedgerInv.run {s t : FutexSys N} {ls : List (FutexLabel N)} (h : LedgerInv s)
    (hrun : exec futexStep s ls = some t) : LedgerInv t :=
  Reachable.invariant (fun _ _ _ hs hl => LedgerInv.move hs (futexStep_move hl)) h ⟨ls, hrun⟩

/-- The wait that a scan meets is flagged exactly when it is in the ledger. -/
theorem LedgerInv.flag_iff {s : FutexSys N} (h : LedgerInv s) {c : Fin N} {call : WaitCall}
    {stage : WaitStage} (hc : s.pc c = .wait call stage) :
    (s.futex c).wakeup = true ↔ (c, s.waits c) ∈ s.counted.map Counted.key := by
  rw [List.mem_map]
  constructor
  · intro hflag
    obtain ⟨e, he, rfl, hwait⟩ := h.entry_of_flag c hflag
    exact ⟨e, he, Prod.ext rfl hwait⟩
  · rintro ⟨e, he, hkey⟩
    obtain ⟨hwaiter, hwait⟩ := Prod.mk.inj hkey
    exact h.flag_of_entry c call stage hc e he hwaiter hwait

/-- Only a counting step can meet a flagged wait, so all others meet the condition. -/
theorem noRewake_of_move {s s' : FutexSys N} {l : FutexLabel N} (hmove : FutexMove s l s')
    (hsame : s'.counted = s.counted) : NoRewake s l := by
  cases l with
  | step p =>
      intro call c res hp hres hvisit hmatch
      rcases hmove.scan_cases hp with ⟨c', -, rfl⟩ | ⟨c', hc, hno, -⟩ | ⟨hend, -⟩
      · exact absurd hsame (List.cons_ne_self _ _)
      · obtain rfl := Fin.ext hc
        rw [hvisit, hmatch] at hno
        exact absurd hno nofun
      · have hlt := c.isLt
        omega
  | _ => trivial

/-- One step keeps the waits of the ledger distinct exactly when it meets no flagged wait. -/
theorem LedgerInv.nodup_move {s s' : FutexSys N} {l : FutexLabel N} (h : LedgerInv s)
    (hmove : FutexMove s l s') :
    (s'.counted.map Counted.key).Nodup ↔ (s.counted.map Counted.key).Nodup ∧ NoRewake s l := by
  by_cases hsame : s'.counted = s.counted
  · rw [hsame]
    exact (and_iff_left (noRewake_of_move hmove hsame)).symm
  · cases hmove with
    | @count p c call res hp hres hvisit hmatch =>
        obtain ⟨wcall, stage, hc⟩ := h.base.wait_of_matches hmatch
        have hcond : NoRewake s (.step p) ↔ (s.futex c).wakeup = false := by
          constructor
          · intro hno
            exact hno call c res hp hres hvisit hmatch
          · intro hclear call' c' res' hp' _ _ _
            obtain ⟨-, hcc, -⟩ := FutexPc.scan.inj (hp.symm.trans hp')
            rw [← Fin.ext hcc]
            exact hclear
        have hkey : (s.futex c).wakeup = false ↔
            (c, s.waits c) ∉ s.counted.map Counted.key := by
          rw [← Bool.not_eq_true, h.flag_iff hc]
        rw [hcond, hkey, List.map_cons, List.nodup_cons, and_comm]
        rfl
    | _ => exact absurd rfl hsame

/-- In a run the ledger names every wait at most once exactly when no scan meets
a flagged wait. -/
theorem LedgerInv.nodup_exec {s t : FutexSys N} {ls : List (FutexLabel N)} (h : LedgerInv s)
    (hrun : exec futexStep s ls = some t) :
    (t.counted.map Counted.key).Nodup ↔
      (s.counted.map Counted.key).Nodup ∧ Along futexStep NoRewake s ls := by
  induction ls generalizing s with
  | nil =>
      obtain rfl : s = t := by simpa using hrun
      exact (and_iff_left trivial).symm
  | cons l ls ih =>
      obtain ⟨s₁, hs₁, hrun⟩ := (exec_cons_iff futexStep).mp hrun
      have hmove := futexStep_move hs₁
      rw [ih (h.move hmove) hrun, h.nodup_move hmove, and_assoc]
      refine and_congr_right fun _ => and_congr_right fun _ => ?_
      constructor
      · intro hrest s' hs'
        rwa [← Option.some.inj (hs₁.symm.trans hs')]
      · intro hrest
        exact hrest s₁ hs₁

/-- The units that a wake of a CPU has counted. -/
def unitsOf (s : FutexSys N) (p : Fin N) (wake : Nat) : Nat :=
  s.counted.countP fun e => e.waker = p ∧ e.wake = wake

/-- The units that a wake in progress will have counted when it looks at the next CPU. -/
def FutexPc.units : FutexPc N → Option Int
  | .scan _ _ res => some res
  | .raise _ _ res => some (res + 1)
  | _ => none

/-- Results of wakes, finished or in progress, are numbers of ledger entries. -/
structure ReturnInv (s : FutexSys N) : Prop where
  wake_le : ∀ e ∈ s.counted, e.wake ≤ s.wakes e.waker
  open_units : ∀ p u, (s.pc p).units = some u → u = unitsOf s p (s.wakes p)
  returned : ∀ r ∈ s.returned, r.res = unitsOf s r.waker r.wake
  closed : ∀ r ∈ s.returned, r.wake ≤ s.wakes r.waker ∧
    (r.wake = s.wakes r.waker → (s.pc r.waker).units = none)

theorem ReturnInv.start (present : Fin N → Bool) (word : Nat → BitVec 32)
    (pending : Fin N → Bool) : ReturnInv (FutexSys.start present word pending) where
  wake_le := fun _ h => absurd h List.not_mem_nil
  open_units := fun _ _ h => absurd h (by simp [FutexSys.start, FutexPc.units])
  returned := fun _ h => absurd h List.not_mem_nil
  closed := fun _ h => absurd h List.not_mem_nil

/-- A step that counts nothing, and after which no wake has other units than before. -/
theorem ReturnInv.keep {s s' : FutexSys N} (h : ReturnInv s) (hcounted : s'.counted = s.counted)
    (hwakes : s'.wakes = s.wakes) (hreturned : s'.returned = s.returned)
    (hunits : ∀ q, (s'.pc q).units = (s.pc q).units ∨ (s'.pc q).units = none) :
    ReturnInv s' := by
  have hof : ∀ p k, unitsOf s' p k = unitsOf s p k := fun p k => by rw [unitsOf, hcounted]; rfl
  constructor
  · rw [hcounted, hwakes]
    exact h.wake_le
  · intro p u hu
    rw [hof, hwakes]
    rcases hunits p with hsame | hnone
    · exact h.open_units p u (hsame ▸ hu)
    · exact absurd (hnone.symm.trans hu) (by simp)
  · intro r hr
    rw [hreturned] at hr
    rw [hof]
    exact h.returned r hr
  · intro r hr
    rw [hreturned] at hr
    rw [hwakes]
    refine ⟨(h.closed r hr).1, fun heq => ?_⟩
    rcases hunits r.waker with hsame | hnone
    · rw [hsame]
      exact (h.closed r hr).2 heq
    · exact hnone

theorem units_update {s : FutexSys N} {p : Fin N} {pc : FutexPc N}
    (hpc : pc.units = (s.pc p).units ∨ pc.units = none) (q : Fin N) :
    (Function.update s.pc p pc q).units = (s.pc q).units ∨
      (Function.update s.pc p pc q).units = none := by
  by_cases hqp : q = p
  · subst q
    rw [Function.update_self]
    exact hpc
  · rw [Function.update_of_ne hqp]
    exact Or.inl rfl

theorem ReturnInv.wakeBegin_move {s : FutexSys N} (h : ReturnInv s) {p : Fin N}
    {call : WakeCall} :
    ReturnInv { s.setPc p (.scan call 0 0) with
      wakes := Function.update s.wakes p (s.wakes p + 1) } := by
  have hup : ∀ q, s.wakes q ≤ Function.update s.wakes p (s.wakes p + 1) q := by
    intro q
    by_cases hqp : q = p
    · rw [hqp, Function.update_self]
      exact Nat.le_succ _
    · rw [Function.update_of_ne hqp]
  -- no entry belongs to the new wake yet
  have hnew : unitsOf s p (s.wakes p + 1) = 0 := by
    apply List.countP_eq_zero.mpr
    intro e he hmem
    have hle := h.wake_le e he
    simp only [decide_eq_true_eq] at hmem
    rw [hmem.1, hmem.2] at hle
    exact Nat.not_succ_le_self _ hle
  constructor
  · intro e he
    exact Nat.le_trans (h.wake_le e he) (hup _)
  · intro q u hu
    change (Function.update s.pc p _ q).units = some u at hu
    change u = unitsOf s q (Function.update s.wakes p _ q)
    by_cases hqp : q = p
    · subst q
      rw [Function.update_self] at hu ⊢
      rw [hnew, ← Option.some.inj hu]
      rfl
    · rw [Function.update_of_ne hqp] at hu ⊢
      exact h.open_units q u hu
  · exact h.returned
  · intro r hr
    obtain ⟨hle, hclosed⟩ := h.closed r hr
    refine ⟨Nat.le_trans hle (hup _), fun heq => ?_⟩
    change r.wake = Function.update s.wakes p _ r.waker at heq
    change (Function.update s.pc p _ r.waker).units = none
    by_cases hrp : r.waker = p
    · rw [hrp, Function.update_self] at heq
      rw [hrp] at hle
      omega
    · rw [Function.update_of_ne hrp] at heq ⊢
      exact hclosed heq

theorem ReturnInv.finish_move {s : FutexSys N} (h : ReturnInv s) {p : Fin N}
    {call : WakeCall} {i : Nat} {res : Int} (hp : s.pc p = .scan call i res) :
    ReturnInv { s.setPc p .user with returned := ⟨p, s.wakes p, res⟩ :: s.returned } := by
  have hkeep : ∀ q, (Function.update s.pc p .user q).units = (s.pc q).units ∨
      (Function.update s.pc p .user q).units = none := units_update (Or.inr rfl)
  constructor
  · exact h.wake_le
  · intro q u hu
    rcases hkeep q with hsame | hnone
    · exact h.open_units q u (hsame ▸ hu)
    · exact absurd (hnone.symm.trans hu) (by simp)
  · intro r hr
    rcases List.mem_cons.mp hr with rfl | hr
    · exact h.open_units p res (by rw [hp]; rfl)
    · exact h.returned r hr
  · intro r hr
    rcases List.mem_cons.mp hr with rfl | hr
    · exact ⟨le_rfl, fun _ => by
        change (Function.update s.pc p _ p).units = none
        rw [Function.update_self]
        rfl⟩
    · refine ⟨(h.closed r hr).1, fun heq => ?_⟩
      rcases hkeep r.waker with hsame | hnone
      · exact hsame.trans ((h.closed r hr).2 heq)
      · exact hnone

theorem ReturnInv.count_move {s : FutexSys N} (h : ReturnInv s) {p c : Fin N}
    {call : WakeCall} {res : Int} (hp : s.pc p = .scan call c res) (futex : Fin N → CpuFutex) :
    ReturnInv { s.setPc p (.raise call c res) with
      futex := futex
      counted := ⟨p, s.wakes p, c, s.waits c⟩ :: s.counted } := by
  -- the entry belongs to the wake in progress, which is not among the finished ones
  have hunits : ∀ q k, List.countP (fun e : Counted N => decide (e.waker = q ∧ e.wake = k))
      (⟨p, s.wakes p, c, s.waits c⟩ :: s.counted) =
      unitsOf s q k + if p = q ∧ s.wakes p = k then 1 else 0 := by
    intro q k
    rw [List.countP_cons]
    simp only [unitsOf, decide_eq_true_eq]
  constructor
  · intro e he
    rcases List.mem_cons.mp he with rfl | he
    · exact le_rfl
    · exact h.wake_le e he
  · intro q u hu
    change (Function.update s.pc p _ q).units = some u at hu
    change u = ((List.countP _ (_ :: s.counted) : Nat) : Int)
    rw [hunits]
    by_cases hqp : q = p
    · subst q
      rw [Function.update_self] at hu
      rw [if_pos ⟨rfl, rfl⟩, ← Option.some.inj hu]
      have hres := h.open_units _ res (by rw [hp]; rfl)
      change res + 1 = ((unitsOf s p (s.wakes p) + 1 : Nat) : Int)
      rw [hres, Int.natCast_succ]
    · rw [Function.update_of_ne hqp] at hu
      rw [if_neg fun hboth => hqp hboth.1.symm]
      exact h.open_units q u hu
  · intro r hr
    change r.res = ((List.countP _ (_ :: s.counted) : Nat) : Int)
    have hother : ¬ (p = r.waker ∧ s.wakes p = r.wake) := by
      rintro ⟨rfl, hwake⟩
      have hnone := (h.closed r hr).2 hwake.symm
      rw [hp] at hnone
      exact absurd hnone (by simp [FutexPc.units])
    rw [hunits, if_neg hother]
    exact h.returned r hr
  · intro r hr
    refine ⟨(h.closed r hr).1, fun heq => ?_⟩
    change (Function.update s.pc p _ r.waker).units = none
    have hnone := (h.closed r hr).2 heq
    by_cases hrp : r.waker = p
    · rw [hrp, hp] at hnone
      exact absurd hnone (by simp [FutexPc.units])
    · rw [Function.update_of_ne hrp]
      exact hnone

theorem ReturnInv.move {s s' : FutexSys N} {l : FutexLabel N} (h : ReturnInv s)
    (hmove : FutexMove s l s') : ReturnInv s' := by
  cases hmove with
  | waitRejected _ => exact h
  | wakeRejected _ => exact h
  | store _ => exact h.keep rfl rfl rfl fun _ => Or.inl rfl
  | interrupt => exact h.keep rfl rfl rfl fun _ => Or.inl rfl
  | take _ => exact h.keep rfl rfl rfl fun _ => Or.inl rfl
  | waitBegin _ _ _ => exact h.keep rfl rfl rfl (units_update (Or.inr rfl))
  | wakeBegin _ _ => exact h.wakeBegin_move
  | test _ => exact h.keep rfl rfl rfl (units_update (Or.inr rfl))
  | read _ => exact h.keep rfl rfl rfl (units_update (Or.inr rfl))
  | wfi _ _ => exact h.keep rfl rfl rfl (units_update (Or.inr rfl))
  | window _ => exact h.keep rfl rfl rfl (units_update (Or.inr rfl))
  | leave _ => exact h.keep rfl rfl rfl (units_update (Or.inr rfl))
  | count hp _ _ _ => exact h.count_move hp _
  | skip hp _ _ => exact h.keep rfl rfl rfl (units_update (Or.inl (by rw [hp]; rfl)))
  | finish hp _ => exact h.finish_move hp
  | raise hp => exact h.keep rfl rfl rfl (units_update (Or.inl (by rw [hp]; rfl)))

theorem ReturnInv.run {s t : FutexSys N} {ls : List (FutexLabel N)} (h : ReturnInv s)
    (hrun : exec futexStep s ls = some t) : ReturnInv t :=
  Reachable.invariant (fun _ _ _ hs hl => ReturnInv.move hs (futexStep_move hl)) h ⟨ls, hrun⟩

end BaremetalCrt
