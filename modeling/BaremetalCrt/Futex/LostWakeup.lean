import BaremetalCrt.Futex.Protocol

/-!
# No lost wake-up

A waker first changes the futex word and then wakes everybody. Once the word
has changed nobody reaches the wait instruction for the old value any more, so
those who are parked there are parked already, are registered, and are met by
the scan; the interrupt that follows stays pending until they leave.
-/

namespace BaremetalCrt

open LabelledSystem

variable {N : Nat}

/-- CPU `w` is at the wait instruction of a wait for `val` that the wake addresses. -/
def Parked (s : FutexSys N) (wk : WakeCall) (val : BitVec 32) (w : Fin N) : Prop :=
  ∃ m, m &&& wk.bitset ≠ 0 ∧ s.pc w = .wait ⟨wk.uaddr, val, m⟩ .wfi

/-- The label does not store `val` to the word. -/
def QuietLabel (uaddr : Nat) (val : BitVec 32) (l : FutexLabel N) : Prop :=
  ∀ p x, l = .store p uaddr x → x ≠ val

/-- A step that does not write `val` back leaves the word different from `val`. -/
theorem word_ne_of_move {s s' : FutexSys N} {l : FutexLabel N} {uaddr : Nat} {val : BitVec 32}
    (hmove : FutexMove s l s') (hword : s.word uaddr ≠ val)
    (hquiet : QuietLabel uaddr val l) : s'.word uaddr ≠ val := by
  cases hmove with
  | @store p addr x hp =>
      by_cases haddr : uaddr = addr
      · subst addr
        change Function.update s.word uaddr x uaddr ≠ val
        rw [Function.update_self]
        exact hquiet p x rfl
      · change Function.update s.word addr x uaddr ≠ val
        rw [Function.update_of_ne haddr]
        exact hword
  | _ => exact hword

/-- Once the word differs from `val`, a CPU at the wait instruction has been there
before the step as well, and a pending interrupt stays pending. -/
theorem parked_of_move {s s' : FutexSys N} {l : FutexLabel N} (h : FutexInv s)
    (hmove : FutexMove s l s') {w : Fin N} {call : WaitCall}
    (hword : s.word call.uaddr ≠ call.val) (hw : s'.pc w = .wait call .wfi) :
    s.pc w = .wait call .wfi ∧ (s.pending w = true → s'.pending w = true) := by
  -- a CPU that moves does not arrive at the wait instruction
  have hmoved : ∀ {p : Fin N} {pc : FutexPc N}, pc ≠ .wait call .wfi →
      Function.update s.pc p pc w = .wait call .wfi → w ≠ p ∧ s.pc w = .wait call .wfi := by
    intro p pc hpc hupd
    by_cases hwp : w = p
    · subst w
      rw [Function.update_self] at hupd
      exact absurd hupd hpc
    · rw [Function.update_of_ne hwp] at hupd
      exact ⟨hwp, hupd⟩
  have hset : ∀ {p : Fin N} {b : Bool}, w ≠ p → s.pending w = true →
      Function.update s.pending p b w = true := by
    intro p b hwp hpend
    rw [Function.update_of_ne hwp]
    exact hpend
  cases hmove with
  | waitRejected _ => exact ⟨hw, id⟩
  | wakeRejected _ => exact ⟨hw, id⟩
  | store _ => exact ⟨hw, id⟩
  | @interrupt p =>
      refine ⟨hw, fun hpend => ?_⟩
      change Function.update s.pending p true w = true
      by_cases hwp : w = p
      · rw [hwp, Function.update_self]
      · exact hset hwp hpend
  | @take p hp =>
      refine ⟨hw, hset ?_⟩
      rintro rfl
      exact absurd (hp.symm.trans hw) (by simp)
  | waitBegin _ _ _ => exact ⟨(hmoved (by simp) hw).2, id⟩
  | wakeBegin _ _ => exact ⟨(hmoved (by simp) hw).2, id⟩
  | test hp =>
      refine ⟨(hmoved ?_ hw).2, id⟩
      split
      · simp
      · simp
  | @read p call' hp =>
      refine ⟨(hmoved ?_ hw).2, id⟩
      intro heq
      split at heq
      · exact absurd heq (by simp)
      · rename_i hsame
        obtain ⟨rfl, -⟩ := FutexPc.wait.inj heq
        rw [(h.waiting hp).2.1] at hsame
        exact hsame hword
  | wfi hp _ => exact ⟨(hmoved (by simp) hw).2, id⟩
  | window hp =>
      obtain ⟨hwp, hold⟩ := hmoved (by simp) hw
      exact ⟨hold, hset hwp⟩
  | leave hp => exact ⟨(hmoved (by simp) hw).2, id⟩
  | count hp _ _ _ => exact ⟨(hmoved (by simp) hw).2, id⟩
  | skip hp _ _ => exact ⟨(hmoved (by simp) hw).2, id⟩
  | finish hp _ => exact ⟨(hmoved (by simp) hw).2, id⟩
  | @raise p c wk res hp =>
      refine ⟨(hmoved (by simp) hw).2, fun hpend => ?_⟩
      change Function.update s.pending c true w = true
      by_cases hwc : w = c
      · rw [hwc, Function.update_self]
      · exact hset hwc hpend

/-- How far the wake of CPU `W` has come: the parked CPUs it has passed are interrupted. -/
inductive Watch (s : FutexSys N) (W : Fin N) (wk : WakeCall) (val : BitVec 32) : Prop
  | scan {i : Nat} {res : Int} (hpc : s.pc W = .scan wk i res) (hres : res ≤ i)
      (hrest : ∀ w ≠ W, Parked s wk val w → i ≤ w ∨ s.pending w = true)
  | raise {c : Fin N} {res : Int} (hpc : s.pc W = .raise wk c res) (hres : res ≤ (c : Nat))
      (hrest : ∀ w ≠ W, Parked s wk val w → c ≤ w ∨ s.pending w = true)
  | done (hrest : ∀ w ≠ W, Parked s wk val w → s.pending w = true)

section Watch

variable {s s' : FutexSys N} {W : Fin N} {wk : WakeCall} {val : BitVec 32}

/-- What is known about the parked CPUs carries over to the next state. -/
theorem Parked.carry {l : FutexLabel N} (h : FutexInv s) (hmove : FutexMove s l s')
    (hword : s.word wk.uaddr ≠ val) {P : Fin N → Prop}
    (hrest : ∀ w ≠ W, Parked s wk val w → P w ∨ s.pending w = true) :
    ∀ w ≠ W, Parked s' wk val w → P w ∨ s'.pending w = true := by
  rintro w hw ⟨m, hm, hpc⟩
  obtain ⟨hold, hpend⟩ := parked_of_move h hmove hword hpc
  exact (hrest w hw ⟨m, hm, hold⟩).imp id hpend

theorem Parked.carry_pending {l : FutexLabel N} (h : FutexInv s) (hmove : FutexMove s l s')
    (hword : s.word wk.uaddr ≠ val)
    (hrest : ∀ w ≠ W, Parked s wk val w → s.pending w = true) :
    ∀ w ≠ W, Parked s' wk val w → s'.pending w = true := by
  intro w hw hparked
  have hnow := Parked.carry (P := fun _ => False) h hmove hword
    (fun w hw hp => Or.inr (hrest w hw hp)) w hw hparked
  exact hnow.resolve_left id

/-- Nobody that the wake addresses is parked at a CPU that the scan passes over. -/
theorem Parked.not_skipped (h : FutexInv s) {c : Fin N} (hc : c ≠ W)
    (hno : (wakeVisits s.present W c && (s.futex c).matches wk.uaddr wk.bitset) = false) :
    ¬ Parked s wk val c := by
  rintro ⟨m, hm, hpc⟩
  obtain ⟨huaddr, -, hbit⟩ := h.waiting hpc
  have hpres := (h.waiter c _ _ hpc).2
  have hhit : (wakeVisits s.present W c && (s.futex c).matches wk.uaddr wk.bitset) = true := by
    rw [Bool.and_eq_true, wakeVisits_iff, CpuFutex.matches_iff, huaddr, hbit]
    exact ⟨⟨hpres, hc⟩, rfl, hm⟩
  exact Bool.noConfusion (hhit.symm.trans hno)

/-- A step of another CPU leaves the waker where it is. -/
theorem pc_of_move_other {l : FutexLabel N} (hmove : FutexMove s l s') {pc : FutexPc N}
    (hpc : s.pc W = pc) (huser : pc ≠ .user) (hother : l ≠ .step W) : s'.pc W = pc := by
  have hmoved : ∀ {p : Fin N} {pc' : FutexPc N}, W ≠ p → Function.update s.pc p pc' W = pc := by
    intro p pc' hWp
    rw [Function.update_of_ne hWp, hpc]
  have hne : ∀ {p : Fin N}, s.pc p = .user → W ≠ p := by
    rintro p hp rfl
    exact huser (hpc.symm.trans hp)
  have hstep : ∀ {p : Fin N}, FutexLabel.step p ≠ .step W → W ≠ p := by
    rintro p hp rfl
    exact hp rfl
  cases hmove with
  | waitRejected _ => exact hpc
  | wakeRejected _ => exact hpc
  | store _ => exact hpc
  | interrupt => exact hpc
  | take _ => exact hpc
  | waitBegin _ hp _ => exact hmoved (hne hp)
  | wakeBegin hp _ => exact hmoved (hne hp)
  | test _ => exact hmoved (hstep hother)
  | read _ => exact hmoved (hstep hother)
  | wfi _ _ => exact hmoved (hstep hother)
  | window _ => exact hmoved (hstep hother)
  | leave _ => exact hmoved (hstep hother)
  | count _ _ _ _ => exact hmoved (hstep hother)
  | skip _ _ _ => exact hmoved (hstep hother)
  | finish _ _ => exact hmoved (hstep hother)
  | raise _ => exact hmoved (hstep hother)

/-- A step of the waker in its scan. -/
theorem Watch.scan_own {i : Nat} {res : Int} (h : FutexInv s) (hmove : FutexMove s (.step W) s')
    (hword : s.word wk.uaddr ≠ val) (hn : (N : Int) ≤ wk.n) (hpc : s.pc W = .scan wk i res)
    (hres : res ≤ i) (hrest : ∀ w ≠ W, Parked s' wk val w → i ≤ w ∨ s'.pending w = true) :
    Watch s' W wk val := by
  rcases hmove.scan_cases hpc with ⟨c, rfl, rfl⟩ | ⟨c, rfl, hno, rfl⟩ | ⟨hend, rfl⟩
  · exact Watch.raise (Function.update_self ..) hres hrest
  · refine Watch.scan (Function.update_self ..) (by omega) fun w hw hparked => ?_
    obtain ⟨m, hm, hwpc⟩ := hparked
    have hold := (parked_of_move h hmove hword hwpc).1
    rcases hrest w hw ⟨m, hm, hwpc⟩ with hle | hpend
    · refine Or.inl (Nat.lt_of_le_of_ne hle fun heq => ?_)
      obtain rfl : c = w := Fin.ext heq
      exact Parked.not_skipped h hw hno ⟨m, hm, hold⟩
    · exact Or.inr hpend
  · apply Watch.done
    intro w hw hparked
    have hlt := w.isLt
    exact (hrest w hw hparked).resolve_left (by omega)

/-- A step of the waker that interrupts the CPU at the index of the scan. -/
theorem Watch.raise_own {c : Fin N} {res : Int} (hmove : FutexMove s (.step W) s')
    (hpc : s.pc W = .raise wk c res) (hres : res ≤ (c : Nat))
    (hrest : ∀ w ≠ W, Parked s' wk val w → c ≤ w ∨ s'.pending w = true) : Watch s' W wk val := by
  obtain rfl := hmove.raise_eq hpc
  refine Watch.scan (Function.update_self ..) (by omega) fun w hw hparked => ?_
  rcases hrest w hw hparked with hle | hpend
  · rcases Nat.eq_or_lt_of_le hle with heq | hlt
    · obtain rfl : c = w := Fin.ext heq
      exact Or.inr (Function.update_self ..)
    · exact Or.inl hlt
  · exact Or.inr hpend

theorem Watch.move {l : FutexLabel N} (hwatch : Watch s W wk val) (h : FutexInv s)
    (hmove : FutexMove s l s') (hword : s.word wk.uaddr ≠ val) (hn : (N : Int) ≤ wk.n) :
    Watch s' W wk val := by
  cases hwatch with
  | done hrest => exact Watch.done (Parked.carry_pending h hmove hword hrest)
  | @scan i res hpc hres hrest =>
      have hcarry := Parked.carry h hmove hword hrest
      by_cases hown : l = .step W
      · subst l
        exact Watch.scan_own h hmove hword hn hpc hres hcarry
      · exact Watch.scan (pc_of_move_other hmove hpc (by simp) hown) hres hcarry
  | @raise c res hpc hres hrest =>
      have hcarry := Parked.carry h hmove hword hrest
      by_cases hown : l = .step W
      · subst l
        exact Watch.raise_own hmove hpc hres hcarry
      · exact Watch.raise (pc_of_move_other hmove hpc (by simp) hown) hres hcarry

end Watch

theorem FutexInv.exec {s t : FutexSys N} {ls : List (FutexLabel N)} (h : FutexInv s)
    (hrun : LabelledSystem.exec futexStep s ls = some t) : FutexInv t :=
  Reachable.invariant (fun _ _ _ hi hs => hi.move (futexStep_move hs)) h ⟨ls, hrun⟩

/-- The base invariant after the word was changed. -/
structure ChangedInv (s : FutexSys N) (uaddr : Nat) (val : BitVec 32) : Prop where
  base : FutexInv s
  word : s.word uaddr ≠ val

section Changed

variable {s s' t : FutexSys N} {W : Fin N} {wk : WakeCall} {uaddr : Nat} {val : BitVec 32}
  {ls : List (FutexLabel N)}

theorem ChangedInv.move {l : FutexLabel N} (h : ChangedInv s uaddr val)
    (hquiet : QuietLabel uaddr val l) (hmove : FutexMove s l s') : ChangedInv s' uaddr val :=
  ⟨h.base.move hmove, word_ne_of_move hmove h.word hquiet⟩

/-- The store of the waker makes the change. -/
theorem ChangedInv.of_store (h : FutexInv s) {p : Fin N} {x : BitVec 32} (hx : x ≠ val)
    (hstep : futexStep s (.store p uaddr x) = some s') : ChangedInv s' uaddr val := by
  have hmove := futexStep_move hstep
  refine ⟨h.move hmove, ?_⟩
  cases hmove with
  | store _ =>
      change Function.update s.word uaddr x uaddr ≠ val
      rw [Function.update_self]
      exact hx

theorem ChangedInv.exec (h : ChangedInv s uaddr val) (hquiet : ∀ l ∈ ls, QuietLabel uaddr val l)
    (hrun : LabelledSystem.exec futexStep s ls = some t) : ChangedInv t uaddr val :=
  exec_invariant_of_labels (I := fun s => ChangedInv s uaddr val) h hquiet hrun
    fun _ _ _ hi hq hs => hi.move hq (futexStep_move hs)

/-- The beginning of the wake starts the watch at CPU 0. -/
theorem Watch.of_wakeBegin (hbit : wk.bitset ≠ 0)
    (hstep : futexStep s (.wakeBegin W wk) = some s') : Watch s' W wk val := by
  cases futexStep_move hstep with
  | wakeRejected hzero => exact absurd hzero hbit
  | wakeBegin hp _ =>
      exact Watch.scan (Function.update_self ..) (by simp) fun _ _ _ => Or.inl (Nat.zero_le _)

/-- The watch goes on along every run that does not write `val` back. -/
theorem Watch.exec (hwatch : Watch s W wk val) (h : ChangedInv s wk.uaddr val)
    (hn : (N : Int) ≤ wk.n) (hquiet : ∀ l ∈ ls, QuietLabel wk.uaddr val l)
    (hrun : LabelledSystem.exec futexStep s ls = some t) : Watch t W wk val := by
  have hboth : ChangedInv t wk.uaddr val ∧ Watch t W wk val :=
    exec_invariant_of_labels (I := fun s => ChangedInv s wk.uaddr val ∧ Watch s W wk val)
      ⟨h, hwatch⟩ hquiet hrun fun _ _ _ hi hq hs =>
        ⟨hi.1.move hq (futexStep_move hs),
          hi.2.move hi.1.base (futexStep_move hs) hi.1.word hn⟩
  exact hboth.2

/-- When the waker is back in user code, everybody parked is interrupted. -/
theorem Watch.done_of_user (hwatch : Watch s W wk val) (huser : s.pc W = .user) :
    ∀ w ≠ W, Parked s wk val w → s.pending w = true := by
  cases hwatch with
  | scan hpc => exact absurd (huser.symm.trans hpc) (by simp)
  | raise hpc => exact absurd (huser.symm.trans hpc) (by simp)
  | done hrest => exact hrest

theorem pending_exec (hrest : ∀ w ≠ W, Parked s wk val w → s.pending w = true)
    (h : ChangedInv s wk.uaddr val) (hquiet : ∀ l ∈ ls, QuietLabel wk.uaddr val l)
    (hrun : exec futexStep s ls = some t) :
    ∀ w ≠ W, Parked t wk val w → t.pending w = true := by
  have hboth : ChangedInv t wk.uaddr val ∧ ∀ w ≠ W, Parked t wk val w → t.pending w = true :=
    exec_invariant_of_labels (I := fun s => ChangedInv s wk.uaddr val ∧
        ∀ w ≠ W, Parked s wk val w → s.pending w = true)
      ⟨h, hrest⟩ hquiet hrun fun _ _ _ hi hq hs =>
        ⟨hi.1.move hq (futexStep_move hs),
          Parked.carry_pending hi.1.base (futexStep_move hs) hi.1.word hi.2⟩
  exact hboth.2

end Changed

/-- A wait starts from a clear flag, and starts with one. -/
theorem FutexInv.waitBegin_flag {s s' : FutexSys N} (h : FutexInv s) {p : Fin N}
    {call : WaitCall} (hstep : futexStep s (.waitBegin p call) = some s') :
    (s.futex p).wakeup = false ∧ (s'.futex p).wakeup = false := by
  have huser : s.pc p = .user := by
    simp only [futexStep] at hstep
    split at hstep
    · rename_i hguard
      exact hguard.2
    · exact absurd hstep (by simp)
  have hclear : (s.futex p).wakeup = false := by
    rw [h.idle (p := p) (by simp [huser])]
    rfl
  refine ⟨hclear, ?_⟩
  cases futexStep_move hstep with
  | waitRejected _ => exact hclear
  | waitBegin _ _ _ =>
      change (Function.update s.futex p _ p).wakeup = false
      rw [Function.update_self]
      rfl

/-- No wake-up is lost, and no flag is left over for the next wait. In a run
the waker `W` stores a value other than `val`, which is never stored back, and
then wakes all CPUs; `s` is a state in which that call has returned and `t` any
later state. -/
theorem futex_no_lost_wakeup (present : Fin N → Bool) (word : Nat → BitVec 32)
    (pending : Fin N → Bool) :
    (∀ (W w : Fin N) (uaddr : Nat) (val x m m' : BitVec 32) (n : Int)
      (before mid call rest : List (FutexLabel N)) (s t : FutexSys N),
      w ≠ W → x ≠ val → m &&& m' ≠ 0 → (N : Int) ≤ n →
      (∀ l ∈ mid ++ call ++ rest, QuietLabel uaddr val l) →
      exec futexStep (FutexSys.start present word pending)
        (before ++ .store W uaddr x :: mid ++ .wakeBegin W ⟨uaddr, n, m'⟩ :: call) = some s →
      s.pc W = .user → exec futexStep s rest = some t →
      ¬ (t.pc w = .wait ⟨uaddr, val, m⟩ .wfi ∧ t.pending w = false)) ∧
    (∀ (p : Fin N) (call : WaitCall) (ls : List (FutexLabel N)) (s s' : FutexSys N),
      exec futexStep (FutexSys.start present word pending) ls = some s →
      futexStep s (.waitBegin p call) = some s' →
      (s.futex p).wakeup = false ∧ (s'.futex p).wakeup = false) := by
  have hstart := FutexInv.start present word pending
  constructor
  · intro W w uaddr val x m m' n before mid call rest s t hw hx hm hn hquiet hrun huser hrest
    rintro ⟨hparked, hnone⟩
    simp only [List.forall_mem_append] at hquiet
    obtain ⟨⟨hmidQuiet, hcallQuiet⟩, hrestQuiet⟩ := hquiet
    rw [List.append_assoc, exec_append_iff] at hrun
    obtain ⟨s₁, hbefore, hrun⟩ := hrun
    obtain ⟨s₂, hstore, hrun⟩ := (exec_cons_iff futexStep).mp hrun
    obtain ⟨s₃, hmid, hrun⟩ := (exec_append_iff futexStep).mp hrun
    obtain ⟨s₄, hbegin, hcall⟩ := (exec_cons_iff futexStep).mp hrun
    have hbit : m' ≠ 0 := by
      rintro rfl
      exact hm (by simp)
    have h₃ : ChangedInv s₃ uaddr val :=
      (ChangedInv.of_store (hstart.exec hbefore) hx hstore).exec hmidQuiet hmid
    have h₄ : ChangedInv s₄ uaddr val := h₃.move (by simp [QuietLabel]) (futexStep_move hbegin)
    have hwatch : Watch s W ⟨uaddr, n, m'⟩ val :=
      (Watch.of_wakeBegin hbit hbegin).exec h₄ hn hcallQuiet hcall
    have hpending := pending_exec (hwatch.done_of_user huser) (h₄.exec hcallQuiet hcall)
      hrestQuiet hrest w hw ⟨m, hm, hparked⟩
    exact Bool.noConfusion (hpending.symm.trans hnone)
  · intro p call ls s s' hrun hstep
    exact (hstart.exec hrun).waitBegin_flag hstep

/-- CPU 1 parks for the value 0; CPU 0 stores 1 and wakes both CPUs. -/
def parkAndWake : List (FutexLabel 2) :=
  [.waitBegin 1 ⟨0x100, 0, futexBitsetAny⟩, .step 1, .step 1] ++ .store 0 0x100 1 :: [] ++
    .wakeBegin 0 ⟨0x100, 2, futexBitsetAny⟩ :: [.step 0, .step 0, .step 0, .step 0]

theorem parkAndWake_end :
    ((exec futexStep (FutexSys.start (fun _ => true) (fun _ => 0) fun _ => false)
      parkAndWake).map fun s => (s.pc 0, s.pc 1)) =
      some (.user, .wait ⟨0x100, 0, futexBitsetAny⟩ .wfi) := by
  decide +kernel

theorem futex_no_lost_wakeup_parked :
    ∃ s : FutexSys 2, s.pc 0 = .user ∧ s.pc 1 = .wait ⟨0x100, 0, futexBitsetAny⟩ .wfi ∧
      ¬ (s.pc 1 = .wait ⟨0x100, 0, futexBitsetAny⟩ .wfi ∧ s.pending 1 = false) := by
  obtain ⟨s, hrun, hpcs⟩ := Option.map_eq_some_iff.mp parkAndWake_end
  obtain ⟨h0, h1⟩ := Prod.mk.inj hpcs
  refine ⟨s, h0, h1, ?_⟩
  exact (futex_no_lost_wakeup (fun _ => true) (fun _ => 0) fun _ => false).1 0 1 0x100 0 1
    futexBitsetAny futexBitsetAny 2 _ [] _ [] s s (by decide) (by decide) (by decide) (by decide)
    (by simp [QuietLabel]) hrun h0 rfl

end BaremetalCrt
