import BaremetalCrt.Thread.Consistency

/-!
# Schedules of clone calls

`k_thread_clone` gives up the SMP lock after the search for an idle CPU and
takes the lock of that CPU afterwards. Here the two sections are separate
steps, so the searches and creations of calls on different CPUs interleave
with each other and with the other calls.
-/

namespace BaremetalCrt

open LabelledSystem

variable {N : Nat}

/-- A clone call between its two sections: its arguments and the CPU it found. -/
structure PendingClone (N : Nat) where
  args : CloneArgs
  target : Fin N

/-- The tables and the clone call that each CPU is in the middle of. -/
structure SmpState (N : Nat) where
  k : KState N
  pending : Fin N → Option (PendingClone N)

/-- The steps of a schedule. `call` stands for the calls other than clones. -/
inductive SmpStep (N : Nat) where
  | search (p : Fin N) (frame : UserRegs) (args : CloneArgs)
  | create (p : Fin N) (current : UserRegs) (ipi : Int)
  | call (c : ThreadCall N)

/-- The CPU that makes a call, for a given leader CPU. -/
def ThreadCall.caller (lead : Fin N) : ThreadCall N → Fin N
  | .initIdle c _ => c
  | .initMain .. => lead
  | .clone p .. => p
  | .exit p .. => p
  | .contextSwitch p _ => p

def ThreadCall.isClone : ThreadCall N → Bool
  | .clone .. => true
  | _ => false

/-- One step of a schedule. A CPU in the middle of a clone does nothing else. -/
def smpStep (cfg : StackConfig) (lead : Fin N) (s : SmpState N) :
    SmpStep N → Option (SmpState N)
  | .search p frame args =>
      if s.k.leader ≠ none ∧ s.pending p = none then
        let k := s.k.trap p frame
        if cloneCheck args ≠ 0 then some { s with k := k }
        else
          match kSmpFindIdleCpu k with
          | none => some { s with k := k }
          | some c => some ⟨k, Function.update s.pending p (some ⟨args, c⟩)⟩
      else none
  | .create p current ipi =>
      (s.pending p).bind fun call =>
        (cloneLocked cfg current ipi call.args p call.target s.k).map fun (k, _) =>
          ⟨k, Function.update s.pending p none⟩
  | .call c =>
      if c.isClone = false ∧ s.pending (c.caller lead) = none then
        (threadStep cfg lead s.k c).map fun k => { s with k := k }
      else none

/-- No call is in progress at boot. -/
def SmpState.boot (present : Fin N → Bool) (regs : UserRegs) (word : Nat → BitVec 32) :
    SmpState N :=
  ⟨KState.boot present regs word, fun _ => none⟩

/-- `k_thread_run` is about to store into a `ti_task` that is not null. -/
def RunOverwrites (lead : Fin N) (s : SmpState N) : SmpStep N → Prop
  | .create p _ _ => ∃ call ∈ s.pending p, findFreeSlot s.k ≠ none ∧
      (s.k.cpu call.target).tiTask ≠ none
  | .call (.initMain ..) => s.k.leader = none ∧ findFreeSlot s.k ≠ none ∧
      (s.k.cpu lead).tiTask ≠ none
  | _ => False

/-- The step drops the task of a CPU, other than by that CPU's own exit. -/
def DropsTask (cfg : StackConfig) (lead : Fin N) (s : SmpState N) (l : SmpStep N) : Prop :=
  ∃ s' c t, smpStep cfg lead s l = some s' ∧ (s.k.cpu c).tiTask = some t ∧
    (s'.k.cpu c).tiTask ≠ some t ∧ ∀ frame ipi, l ≠ .call (.exit c frame ipi)

/-- `c` is the lowest-numbered CPU that exists and has no task thread. -/
def FirstIdle (k : KState N) (c : Fin N) : Prop :=
  (k.present c = true ∧ (k.cpu c).tiTask = none) ∧
    ∀ d < c, ¬ (k.present d = true ∧ (k.cpu d).tiTask = none)

/-- A search is made only when the first idle CPU is not the target of a clone
call that has yet to create its thread. -/
def SearchApart (s : SmpState N) : SmpStep N → Prop
  | .search _ _ _ => ∀ c, FirstIdle s.k c → ∀ q, ∀ call ∈ s.pending q, call.target ≠ c
  | _ => True

instance (k : KState N) (c : Fin N) : Decidable (FirstIdle k c) :=
  inferInstanceAs (Decidable (_ ∧ _))

instance (s : SmpState N) : ∀ l, Decidable (SearchApart s l)
  | .search _ _ _ => inferInstanceAs (Decidable (∀ _, _))
  | .create .. => isTrue trivial
  | .call _ => isTrue trivial

/-- The search under the SMP lock finds the first idle CPU. -/
theorem kSmpFindIdleCpu_firstIdle {k : KState N} {c : Fin N} (h : kSmpFindIdleCpu k = some c) :
    FirstIdle k c := by
  rw [kSmpFindIdleCpu, List.find?_eq_some_iff_append] at h
  obtain ⟨hc, before, after, hlist, hbefore⟩ := h
  rw [Bool.and_eq_true, Option.isNone_iff_eq_none] at hc
  refine ⟨hc, fun d hd hidle => ?_⟩
  have hsorted := List.pairwise_lt_finRange N
  rw [hlist, List.pairwise_append] at hsorted
  have hmem : d ∈ before ++ c :: after := hlist ▸ List.mem_finRange d
  rcases List.mem_append.mp hmem with hin | hin
  · have hno := hbefore d hin
    rw [hidle.1, hidle.2] at hno
    exact absurd hno (by simp)
  · -- everything from `c` on is at least `c`
    rcases List.mem_cons.mp hin with rfl | hin
    · exact absurd hd (lt_irrefl _)
    · exact absurd hd (lt_asymm ((List.pairwise_cons.mp hsorted.2.1).1 d hin))

/-- A trap does not change which CPU is idle. -/
theorem FirstIdle.of_trap {k : KState N} {p c : Fin N} {frame : UserRegs}
    (h : FirstIdle (k.trap p frame) c) : FirstIdle k c := by
  simp only [FirstIdle, trap_tiTask] at h
  exact h

/-- The calls in progress have chosen different CPUs that are still without a task. -/
structure TargetsFree (task : Fin N → Option (Fin (2 * N)))
    (pending : Fin N → Option (PendingClone N)) : Prop where
  idle : ∀ p call, pending p = some call → task call.target = none
  apart : ∀ p q call call', pending p = some call → pending q = some call' →
    call.target = call'.target → p = q

section TargetsFree

variable {task task' : Fin N → Option (Fin (2 * N))} {pending : Fin N → Option (PendingClone N)}

theorem TargetsFree.mono (h : TargetsFree task pending)
    (hkeep : ∀ c, task c = none → task' c = none) : TargetsFree task' pending :=
  ⟨fun p call hp => hkeep _ (h.idle p call hp), h.apart⟩

/-- A search adds a target that no other call has. -/
theorem TargetsFree.add (h : TargetsFree task pending) {c : Fin N} (p : Fin N)
    (args : CloneArgs) (hc : task c = none)
    (hother : ∀ q call, pending q = some call → call.target ≠ c) :
    TargetsFree task (Function.update pending p (some ⟨args, c⟩)) := by
  have hcases : ∀ q call, Function.update pending p (some ⟨args, c⟩) q = some call →
      (q = p ∧ call.target = c) ∨ (q ≠ p ∧ pending q = some call) := by
    intro q call hq
    by_cases hqp : q = p
    · subst q
      rw [Function.update_self] at hq
      exact Or.inl ⟨rfl, by rw [← Option.some.inj hq]⟩
    · rw [Function.update_of_ne hqp] at hq
      exact Or.inr ⟨hqp, hq⟩
  constructor
  · intro q call hq
    rcases hcases q call hq with ⟨-, ht⟩ | ⟨-, hold⟩
    · rw [ht, hc]
    · exact h.idle q call hold
  · intro q q' call call' hq hq' heq
    rcases hcases q call hq with ⟨rfl, ht⟩ | ⟨-, hold⟩
    · rcases hcases q' call' hq' with ⟨rfl, -⟩ | ⟨-, hold'⟩
      · rfl
      · exact absurd (heq.symm.trans ht) (hother q' call' hold')
    · rcases hcases q' call' hq' with ⟨rfl, ht'⟩ | ⟨-, hold'⟩
      · exact absurd (heq.trans ht') (hother q call hold)
      · exact h.apart q q' call call' hold hold' heq

/-- A creation touches the task of its own target only. -/
theorem TargetsFree.done (h : TargetsFree task pending) {p : Fin N} {call : PendingClone N}
    (hp : pending p = some call) (hkeep : ∀ c, c ≠ call.target → task' c = task c) :
    TargetsFree task' (Function.update pending p none) := by
  have hcases : ∀ q call', Function.update pending p none q = some call' →
      q ≠ p ∧ pending q = some call' := by
    intro q call' hq
    by_cases hqp : q = p
    · subst q
      rw [Function.update_self] at hq
      exact absurd hq.symm (Option.some_ne_none _)
    · rw [Function.update_of_ne hqp] at hq
      exact ⟨hqp, hq⟩
  constructor
  · intro q call' hq
    obtain ⟨hqp, hold⟩ := hcases q call' hq
    rw [hkeep _ fun heq => hqp (h.apart q p call' call hold hp heq)]
    exact h.idle q call' hold
  · intro q q' call₁ call₂ hq hq'
    exact h.apart q q' call₁ call₂ (hcases q call₁ hq).2 (hcases q' call₂ hq').2

end TargetsFree

/-- The tables are consistent, and the clone calls in progress do not disturb each other. -/
structure SmpInv (s : SmpState N) : Prop where
  threads : ThreadInv s.k
  pending_none : s.k.leader = none → ∀ p, s.pending p = none
  targets : TargetsFree s.k.roster.task s.pending

theorem SmpInv.boot (present : Fin N → Bool) (regs : UserRegs) (word : Nat → BitVec 32) :
    SmpInv (SmpState.boot present regs word) where
  threads := ThreadInv.boot present regs word
  pending_none := fun _ _ => rfl
  targets := ⟨fun _ _ h => absurd h (Option.some_ne_none _).symm,
    fun _ _ _ _ h => absurd h (Option.some_ne_none _).symm⟩

/-- The step keeps the task of every CPU, unless it is that CPU's own exit. -/
def KeepsTasks (s s' : SmpState N) (l : SmpStep N) : Prop :=
  ∀ c t, s.k.roster.task c = some t →
    s'.k.roster.task c = some t ∨ ∃ frame ipi, l = .call (.exit c frame ipi)

theorem SmpInv.search_step {s s' : SmpState N} {cfg : StackConfig} {lead p : Fin N}
    {frame : UserRegs} {args : CloneArgs} (h : SmpInv s)
    (hapart : SearchApart s (.search p frame args))
    (hstep : smpStep cfg lead s (.search p frame args) = some s') :
    SmpInv s' ∧ KeepsTasks s s' (.search p frame args) := by
  simp only [smpStep] at hstep
  split at hstep
  swap
  · exact absurd hstep (by simp)
  rename_i hguard
  have htrap := roster_trap s.k p frame
  have hthreads : ThreadInv (s.k.trap p frame) :=
    ThreadInv.of_leader hguard.1 (htrap ▸ h.threads.consistent)
  have htargets : TargetsFree (s.k.trap p frame).roster.task s.pending := htrap ▸ h.targets
  have hkeep : ∀ pending, KeepsTasks s ⟨s.k.trap p frame, pending⟩ (.search p frame args) := by
    intro pending c t hc
    exact Or.inl (by rw [htrap, hc])
  split at hstep
  · obtain rfl := Option.some.inj hstep
    exact ⟨⟨hthreads, fun hnone => absurd hnone hguard.1, htargets⟩, hkeep _⟩
  · split at hstep
    · obtain rfl := Option.some.inj hstep
      exact ⟨⟨hthreads, fun hnone => absurd hnone hguard.1, htargets⟩, hkeep _⟩
    · rename_i c hfound
      obtain rfl := Option.some.inj hstep
      have hfirst := (kSmpFindIdleCpu_firstIdle hfound).of_trap
      refine ⟨⟨hthreads, fun hnone => absurd hnone hguard.1, ?_⟩, hkeep _⟩
      exact htargets.add p args (kSmpFindIdleCpu_task hfound) (hapart c hfirst)

/-- The task entries after the locked section of a clone at a CPU without a task. -/
theorem cloneLocked_task {cfg : StackConfig} {current : UserRegs} {ipi r : Int}
    {args : CloneArgs} {p c : Fin N} {k k' : KState N}
    (h : cloneLocked cfg current ipi args p c k = some (k', r)) {d : Fin N} (hd : d ≠ c) :
    k'.roster.task d = k.roster.task d := by
  rcases cloneLocked_roster h with ⟨-, rfl⟩ | ⟨t, -, ⟨-, hpost⟩ | ⟨-, hundo⟩⟩
  · rfl
  · rw [hpost]
    exact Function.update_of_ne hd ..
  · rw [hundo]
    exact (Function.update_of_ne hd ..).trans (Function.update_of_ne hd ..)

theorem cloneLocked_consistent {cfg : StackConfig} {current : UserRegs} {ipi r : Int}
    {args : CloneArgs} {p c : Fin N} {k k' : KState N} (hk : k.roster.Consistent)
    (hc : k.roster.task c = none)
    (h : cloneLocked cfg current ipi args p c k = some (k', r)) : k'.roster.Consistent := by
  rcases cloneLocked_roster h with ⟨-, rfl⟩ | ⟨t, hslot, ⟨-, hpost⟩ | ⟨-, hundo⟩⟩
  · exact hk
  · rw [hpost]
    exact hk.hire (findFreeSlot_avail hslot) hc
  · rw [hundo]
    exact (hk.hire (findFreeSlot_avail hslot) hc).dismiss (Function.update_self ..)

theorem SmpInv.create_step {s s' : SmpState N} {cfg : StackConfig} {lead p : Fin N}
    {current : UserRegs} {ipi : Int} (h : SmpInv s)
    (hstep : smpStep cfg lead s (.create p current ipi) = some s') :
    SmpInv s' ∧ KeepsTasks s s' (.create p current ipi) := by
  obtain ⟨call, hcall, hstep⟩ := Option.bind_eq_some_iff.mp hstep
  obtain ⟨⟨k, r⟩, hlocked, rfl⟩ := Option.map_eq_some_iff.mp hstep
  have hidle := h.targets.idle p call hcall
  have hleader : k.leader = s.k.leader := congrArg Prod.snd (cloneLocked_fixed hlocked)
  have hsome : s.k.leader ≠ none := by
    intro hnone
    exact Option.some_ne_none _ (hcall.symm.trans (h.pending_none hnone p))
  constructor
  · constructor
    · exact ThreadInv.of_leader (hleader ▸ hsome)
        (cloneLocked_consistent h.threads.consistent hidle hlocked)
    · exact fun hnone => absurd (hleader ▸ hnone) hsome
    · exact h.targets.done hcall fun c hc => cloneLocked_task hlocked hc
  · intro c t hc
    have hne : c ≠ call.target := by
      rintro rfl
      exact Option.some_ne_none _ (hc.symm.trans hidle)
    exact Or.inl ((cloneLocked_task hlocked hne).trans hc)

theorem SmpInv.call_step {s s' : SmpState N} {cfg : StackConfig} {lead : Fin N}
    {c : ThreadCall N} (h : SmpInv s) (hstep : smpStep cfg lead s (.call c) = some s') :
    SmpInv s' ∧ KeepsTasks s s' (.call c) := by
  simp only [smpStep] at hstep
  split at hstep
  swap
  · exact absurd hstep (by simp)
  rename_i hguard
  obtain ⟨k, hk, rfl⟩ := Option.map_eq_some_iff.mp hstep
  have hmove := threadStep_move hk
  have hthreads := h.threads.move hmove
  cases hmove with
  | same hroster hleader =>
      refine ⟨⟨hthreads, fun hnone => h.pending_none (hleader ▸ hnone), ?_⟩, ?_⟩
      · exact h.targets.mono fun d hd => by rw [hroster, hd]
      · intro d t hd
        exact Or.inl (by rw [hroster, hd])
  | settle hc ht hroster hleader =>
      refine ⟨⟨hthreads, fun hnone => h.pending_none (hleader ▸ hnone), ?_⟩, ?_⟩
      · exact h.targets.mono fun d hd => by rw [hroster]; exact hd
      · intro d t hd
        exact Or.inl (by rw [hroster]; exact hd)
  | lead hnone ht hroster hleader =>
      have hempty := h.pending_none hnone
      refine ⟨⟨hthreads, fun _ => hempty, ?_⟩, ?_⟩
      · constructor
        · exact fun p call hp => absurd (hp.symm.trans (hempty p)) (Option.some_ne_none _)
        · exact fun p _ call _ hp => absurd (hp.symm.trans (hempty p)) (Option.some_ne_none _)
      · intro d t hd
        exact absurd (hd.symm.trans (h.threads.task_none hnone d)) (Option.some_ne_none _)
  | clone => exact absurd hguard.1 (by simp [ThreadCall.isClone])
  | @exit p c frame ipi t hp hc hroster hleader =>
      obtain rfl := h.threads.consistent.home_eq hp hc
      refine ⟨⟨hthreads, fun hnone => h.pending_none (hleader ▸ hnone), ?_⟩, ?_⟩
      · apply h.targets.mono
        intro d hd
        rw [hroster]
        by_cases hdp : d = p
        · subst d
          exact Function.update_self ..
        · exact (Function.update_of_ne hdp ..).trans hd
      · intro d t' hd
        by_cases hdp : d = p
        · subst d
          exact Or.inr ⟨frame, ipi, rfl⟩
        · refine Or.inl ?_
          rw [hroster]
          exact (Function.update_of_ne hdp ..).trans hd

theorem SmpInv.step {s s' : SmpState N} {cfg : StackConfig} {lead : Fin N} {l : SmpStep N}
    (h : SmpInv s) (hapart : SearchApart s l) (hstep : smpStep cfg lead s l = some s') :
    SmpInv s' ∧ KeepsTasks s s' l := by
  cases l with
  | search p frame args => exact h.search_step hapart hstep
  | create p current ipi => exact h.create_step hstep
  | call c => exact h.call_step hstep

theorem SmpInv.not_runOverwrites {s : SmpState N} (h : SmpInv s) (lead : Fin N)
    (l : SmpStep N) : ¬ RunOverwrites lead s l := by
  cases l with
  | search p frame args => exact id
  | create p current ipi =>
      rintro ⟨call, hcall, -, htask⟩
      exact htask (h.targets.idle p call hcall)
  | call c =>
      cases c with
      | initMain current spUser spIntr start =>
          rintro ⟨hnone, -, htask⟩
          exact htask (h.threads.task_none hnone lead)
      | initIdle c current => exact id
      | clone p frame current ipi args => exact id
      | exit p frame ipi => exact id
      | contextSwitch p frame => exact id

theorem SmpInv.not_dropsTask {s : SmpState N} (h : SmpInv s) {cfg : StackConfig}
    {lead : Fin N} {l : SmpStep N} (hapart : SearchApart s l) : ¬ DropsTask cfg lead s l := by
  rintro ⟨s', c, t, hstep, hc, hdrop, hexit⟩
  rcases (h.step hapart hstep).2 c t hc with hkept | ⟨frame, ipi, rfl⟩
  · exact hdrop hkept
  · exact hexit frame ipi rfl

/-- In every schedule whose searches find no CPU that another call has chosen,
`k_thread_run` stores only where there is no task, and no task is dropped
before its own exit. -/
theorem clone_schedule_keeps_tasks (cfg : StackConfig) (lead : Fin N) (present : Fin N → Bool)
    (regs : UserRegs) (word : Nat → BitVec 32) (ls : List (SmpStep N))
    (h : Along (smpStep cfg lead) SearchApart (SmpState.boot present regs word) ls) :
    Along (smpStep cfg lead) (fun s l => ¬ RunOverwrites lead s l ∧ ¬ DropsTask cfg lead s l)
      (SmpState.boot present regs word) ls :=
  h.of_invariant (fun _ _ _ hi hq hs => (hi.step hq hs).1)
    (fun _ l hi hq => ⟨hi.not_runOverwrites lead l, hi.not_dropsTask hq⟩)
    (SmpInv.boot present regs word)

/-- Boot on four cores, and a first thread for CPU 1 that is searched for and created. -/
def bootFour : List (SmpStep 4) :=
  [.call (.initMain (fun _ => 0) 0x80030000 0x80011000 0x80000200),
    .call (.initIdle 0 fun _ => 0), .call (.initIdle 1 fun _ => 0),
    .call (.initIdle 2 fun _ => 0), .call (.initIdle 3 fun _ => 0),
    .search 0 (fun _ => 0) (joinableArgs 0x80050000), .create 0 (fun _ => 0) 0]

/-- Four cores before boot, with zeroed memory. -/
def fourCores : SmpState 4 := SmpState.boot (fun _ => true) (fun _ => 0) fun _ => 0

theorem clone_schedule_keeps_tasks_bootFour :
    Along (smpStep smallStacks 0)
      (fun s l => ¬ RunOverwrites 0 s l ∧ ¬ DropsTask smallStacks 0 s l) fourCores bootFour :=
  clone_schedule_keeps_tasks smallStacks 0 _ _ _ bootFour (by decide +kernel)

/-- The main thread and the new thread on CPU 1 search one after the other,
and then the main thread creates. -/
def bothSearched : List (SmpStep 4) :=
  bootFour ++
    [.search 0 (fun _ => 0) (joinableArgs 0x80050010),
      .search 1 (fun _ => 0) (joinableArgs 0x80050020), .create 0 (fun _ => 0) 0]

theorem bothSearched_tables :
    ((exec (smpStep smallStacks 0) fourCores bothSearched).map fun s =>
      ((s.k.cpu 2).tiTask, (s.pending 1).map PendingClone.target, findFreeSlot s.k,
        (smpStep smallStacks 0 s (.create 1 (fun _ => 0) 0)).map
          fun s' => (s'.k.cpu 2).tiTask)) =
      some (some 6, some 2, some 7, some (some 7)) := by
  decide +kernel

/-- The creation for CPU 1 then stores over the thread that the main thread runs on CPU 2. -/
theorem clone_schedule_drops_task :
    ∃ s, exec (smpStep smallStacks 0) fourCores bothSearched = some s ∧
      RunOverwrites 0 s (.create 1 (fun _ => 0) 0) ∧
      DropsTask smallStacks 0 s (.create 1 (fun _ => 0) 0) := by
  obtain ⟨s, hrun, htables⟩ := Option.map_eq_some_iff.mp bothSearched_tables
  simp only [Prod.mk.injEq, Option.map_eq_some_iff] at htables
  obtain ⟨htask, ⟨call, hcall, htarget⟩, hslot, s', hstep, hafter⟩ := htables
  refine ⟨s, hrun, ⟨call, hcall, ?_, ?_⟩, s', 2, 6, hstep, htask, ?_, ?_⟩
  · rw [hslot]
    exact Option.some_ne_none _
  · rw [htarget, htask]
    exact Option.some_ne_none _
  · rw [hafter]
    decide
  · intro frame ipi heq
    exact absurd heq (by simp)

end BaremetalCrt
