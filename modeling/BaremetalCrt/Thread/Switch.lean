import BaremetalCrt.Thread.Consistency

/-!
# Frames across context switches

A CPU changes between its idle thread and its task thread. Only the idle thread is
resumed where it stopped; a task starts once, with the frame that was prepared for it,
and leaves by its exit. Beside the tables the state records what each switch should
bring back: the frame that the idle thread had at its last request, and the frame that
was prepared for each slot.

## Implementation notes

A post is the section of `k_thread_clone` under the lock of the target CPU, for any
target: a CPU that has a task already can be posted another one. Calls that do not
switch are left out; a trap of their own would replace only the frame of the caller.
-/

namespace BaremetalCrt

open LabelledSystem

variable {N : Nat}

/-- The saved registers of all slots. -/
def KState.slotRegs (s : KState N) (t : Fin (2 * N)) : UserRegs := (s.thread t).regs

/-- The current threads of all CPUs. -/
def KState.current (s : KState N) (c : Fin N) : Option (Fin (2 * N)) := (s.cpu c).ti

theorem slotRegs_modifyThread (s : KState N) (t : Fin (2 * N)) (f : ThreadInfo N → ThreadInfo N) :
    (s.modifyThread t f).slotRegs = Function.update s.slotRegs t (f (s.thread t)).regs :=
  Function.comp_update ThreadInfo.regs s.thread t _

theorem slotRegs_modifyThread_of_eq (s : KState N) {t : Fin (2 * N)}
    {f : ThreadInfo N → ThreadInfo N} (h : (f (s.thread t)).regs = (s.thread t).regs) :
    (s.modifyThread t f).slotRegs = s.slotRegs := by
  rw [slotRegs_modifyThread, h]
  exact Function.update_eq_self t s.slotRegs

theorem current_modifyCpu (s : KState N) (c : Fin N) (f : CpuDevice N → CpuDevice N) :
    (s.modifyCpu c f).current = Function.update s.current c (f (s.cpu c)).ti :=
  Function.comp_update CpuDevice.ti s.cpu c _

theorem current_modifyCpu_of_eq (s : KState N) {c : Fin N} {f : CpuDevice N → CpuDevice N}
    (h : (f (s.cpu c)).ti = (s.cpu c).ti) : (s.modifyCpu c f).current = s.current := by
  rw [current_modifyCpu, h]
  exact Function.update_eq_self c s.current

theorem current_congr {s s' : KState N} (h : s'.cpu = s.cpu) : s'.current = s.current := by
  unfold KState.current
  rw [h]

@[simp] theorem slotRegs_modifyCpu (s : KState N) (c : Fin N) (f : CpuDevice N → CpuDevice N) :
    (s.modifyCpu c f).slotRegs = s.slotRegs := rfl

@[simp] theorem current_modifyThread (s : KState N) (t : Fin (2 * N))
    (f : ThreadInfo N → ThreadInfo N) : (s.modifyThread t f).current = s.current := rfl

theorem current_trap (s : KState N) (p : Fin N) (frame : UserRegs) :
    (s.trap p frame).current = s.current :=
  current_modifyCpu_of_eq s rfl

theorem trap_regs (s : KState N) (p : Fin N) (frame : UserRegs) :
    ((s.trap p frame).cpu p).regs = frame := by
  simp [KState.trap]

/-- Stopping a thread clears the task of its CPU and nothing else that a switch reads. -/
theorem kThreadStop_frames {s s' : KState N} {t : Fin (2 * N)} (h : kThreadStop s t = some s') :
    s'.slotRegs = s.slotRegs ∧ s'.current = s.current := by
  obtain ⟨c, -, rfl⟩ := Option.map_eq_some_iff.mp h
  constructor
  · rw [slotRegs_modifyThread_of_eq _ rfl, slotRegs_modifyCpu]
  · rw [current_modifyThread, current_modifyCpu_of_eq _ rfl]

theorem kThreadDestroy_frames (s : KState N) (t : Fin (2 * N)) :
    (kThreadDestroy s t).1.slotRegs = s.slotRegs ∧ (kThreadDestroy s t).1.cpu = s.cpu := by
  unfold kThreadDestroy
  split
  · exact ⟨rfl, rfl⟩
  · refine ⟨?_, rfl⟩
    rw [slotRegs_modifyThread_of_eq _ rfl]

theorem kThreadRun_frames (s : KState N) (t : Fin (2 * N)) (c : Fin N) :
    (kThreadRun s t c).slotRegs = s.slotRegs ∧ (kThreadRun s t c).current = s.current := by
  unfold kThreadRun
  constructor
  · rw [slotRegs_modifyCpu, slotRegs_modifyThread_of_eq _ rfl]
  · rw [current_modifyCpu_of_eq _ rfl, current_modifyThread]

theorem cloneNotify_frames (s : KState N) (args : CloneArgs) (t : Fin (2 * N)) :
    (cloneNotify s args t).thread = s.thread ∧ (cloneNotify s args t).cpu = s.cpu := by
  unfold cloneNotify
  split
  · split
    · exact ⟨rfl, rfl⟩
    · exact ⟨rfl, rfl⟩
  · split
    · exact ⟨rfl, rfl⟩
    · exact ⟨rfl, rfl⟩

/-- The frame that `k_thread_clone` prepares from the frame of its caller. -/
def cloneRegs (cfg : StackConfig) (c : Fin N) (args : CloneArgs) (frame : UserRegs) : UserRegs :=
  let regs := kArchSetArg frame .retval 0
  let regs := kArchSetArg regs .stack (BitVec.ofNat 64 args.childStack)
  let regs := kArchSetArg regs .stackIntr (BitVec.ofNat 64 (cfg.intrTop c))
  kArchSetArg regs .tls (BitVec.ofNat 64 (if args.needTls then args.tls else 0))

/-- The locked section of a clone prepares the frame of the new slot and switches nothing. -/
theorem cloneLocked_frames {cfg : StackConfig} {current : UserRegs} {ipi r : Int}
    {args : CloneArgs} {p c : Fin N} {s s' : KState N} {t : Fin (2 * N)}
    (hslot : findFreeSlot s = some t)
    (h : cloneLocked cfg current ipi args p c s = some (s', r)) :
    s'.slotRegs = Function.update s.slotRegs t (cloneRegs cfg c args (s.cpu p).regs) ∧
      s'.current = s.current := by
  unfold cloneLocked kThreadCreate at h
  rw [hslot] at h
  dsimp only at h
  have hprep : (cloneSetRegs cfg (cloneNotify (cloneSetInfo (takeSlot s current t) args t) args t)
      p c args t).slotRegs =
        Function.update s.slotRegs t (cloneRegs cfg c args (s.cpu p).regs) ∧
      (cloneSetRegs cfg (cloneNotify (cloneSetInfo (takeSlot s current t) args t) args t)
        p c args t).current = s.current := by
    obtain ⟨hthread, hcpu⟩ :=
      cloneNotify_frames (cloneSetInfo (takeSlot s current t) args t) args t
    have hslots : (cloneNotify (cloneSetInfo (takeSlot s current t) args t) args t).slotRegs =
        Function.update s.slotRegs t (kArchThreadInit current) := by
      funext i
      unfold KState.slotRegs
      rw [hthread]
      by_cases hi : i = t
      · simp [cloneSetInfo, takeSlot_thread, hi]
      · simp [cloneSetInfo, takeSlot_thread, hi]
    constructor
    · rw [cloneSetRegs, slotRegs_modifyThread, hslots, Function.update_idem, hcpu, hthread]
      simp [cloneRegs, cloneSetInfo]
    · rw [cloneSetRegs, current_modifyThread]
      unfold KState.current
      rw [hcpu]
      rfl
  generalize cloneSetRegs cfg _ p c args t = s₁ at h hprep
  obtain ⟨hregs, hcur⟩ := kThreadRun_frames s₁ t c
  split at h
  · obtain ⟨s₂, hstop, heq⟩ := Option.map_eq_some_iff.mp h
    obtain ⟨hregs', hcur'⟩ := kThreadStop_frames hstop
    obtain ⟨hregs'', hcpu''⟩ := kThreadDestroy_frames s₂ t
    rw [← (Prod.mk.inj heq).1]
    refine ⟨hregs''.trans (hregs'.trans (hregs.trans hprep.1)), ?_⟩
    exact (current_congr hcpu'').trans (hcur'.trans (hcur.trans hprep.2))
  · rw [← (Prod.mk.inj (Option.some.inj h)).1]
    exact ⟨hregs.trans hprep.1, hcur.trans hprep.2⟩

/-- The saved registers after the first part of a context switch. -/
def savedRegs (s : KState N) (p : Fin N) : Fin (2 * N) → UserRegs :=
  match (s.cpu p).ti with
  | some t =>
      if (s.cpu p).tiIdle = some t then Function.update s.slotRegs t (s.cpu p).regs
      else s.slotRegs
  | none => s.slotRegs

/-- The thread that a context switch goes to. -/
def switchTarget (s : KState N) (p : Fin N) : Option (Fin (2 * N)) :=
  match (s.cpu p).ti, (s.cpu p).tiTask with
  | some _, some task => some task
  | _, _ => (s.cpu p).tiIdle

theorem switchTarget_of_task {s : KState N} {p : Fin N} {t task : Fin (2 * N)}
    (hti : (s.cpu p).ti = some t) (htask : (s.cpu p).tiTask = some task) :
    switchTarget s p = some task := by
  rw [switchTarget, hti, htask]

theorem switchTarget_of_not {s : KState N} {p : Fin N}
    (hnot : ∀ t task, (s.cpu p).ti = some t → (s.cpu p).tiTask = some task → False) :
    switchTarget s p = (s.cpu p).tiIdle := by
  unfold switchTarget
  split
  · rename_i t task hti htask
    exact absurd htask (hnot t task hti)
  · rfl

/-- A context switch saves the frame of the idle thread and loads the frame of its target. -/
theorem kThreadContextSwitchNolock_frames {s s' : KState N} {p : Fin N}
    (h : kThreadContextSwitchNolock s p = some s') :
    s'.slotRegs = savedRegs s p ∧
      s'.current = Function.update s.current p (switchTarget s p) ∧
      ∃ t, switchTarget s p = some t ∧ (s'.cpu p).regs = savedRegs s p t := by
  unfold kThreadContextSwitchNolock at h
  obtain ⟨s₁, hsaved, h⟩ := Option.bind_eq_some_iff.mp h
  have hfirst : s₁.slotRegs = savedRegs s p ∧ s₁.current = s.current := by
    unfold savedRegs
    cases hti : (s.cpu p).ti with
    | none =>
        rw [hti] at hsaved
        split at hsaved
        · cases hsaved
        · obtain rfl := Option.some.inj hsaved
          exact ⟨rfl, rfl⟩
    | some t =>
        rw [hti] at hsaved
        split at hsaved
        · rename_i hidle
          obtain rfl := Option.some.inj hsaved
          exact ⟨(slotRegs_modifyThread ..).trans (if_pos hidle.symm).symm, rfl⟩
        · rename_i hidle
          obtain rfl := Option.some.inj hsaved
          exact ⟨(if_neg (Ne.symm hidle)).symm, rfl⟩
  obtain ⟨hregs, hcur⟩ := hfirst
  split at h
  · rename_i t task hti htask
    obtain rfl := Option.some.inj h
    rw [switchTarget_of_task hti htask]
    refine ⟨hregs, ?_, task, rfl, ?_⟩
    · rw [current_modifyCpu, hcur]
    · rw [← hregs]
      simp [KState.slotRegs]
  · rename_i hnot
    obtain ⟨idle, hidle, rfl⟩ := Option.map_eq_some_iff.mp h
    rw [switchTarget_of_not hnot, hidle]
    refine ⟨hregs, ?_, idle, rfl, ?_⟩
    · rw [current_modifyCpu, hcur]
    · rw [← hregs]
      simp [KState.slotRegs]

/-- Without a task, a switch away from another thread than the idle one goes to the idle
thread and saves nothing. -/
theorem kThreadContextSwitchNolock_idle {s s' : KState N} {p : Fin N}
    (htask : (s.cpu p).tiTask = none) (hti : (s.cpu p).ti ≠ (s.cpu p).tiIdle)
    (h : kThreadContextSwitchNolock s p = some s') :
    s'.slotRegs = s.slotRegs ∧ s'.current = Function.update s.current p (s.cpu p).tiIdle ∧
      ∃ idle, (s.cpu p).tiIdle = some idle ∧ (s'.cpu p).regs = s.slotRegs idle := by
  have htarget : switchTarget s p = (s.cpu p).tiIdle :=
    switchTarget_of_not fun _ _ _ hsome => absurd (htask.symm.trans hsome) (by simp)
  have hsaved : savedRegs s p = s.slotRegs := by
    unfold savedRegs
    split
    · rename_i t hcase
      rw [hcase] at hti
      exact if_neg (Ne.symm hti)
    · rfl
  have hframes := kThreadContextSwitchNolock_frames h
  rw [htarget, hsaved] at hframes
  exact hframes

/-- An exit by a task goes back to the idle thread of the CPU and saves nothing. -/
theorem exitLocked_frames {p : Fin N} {s s' : KState N} {v : Int} {t : Fin (2 * N)}
    {wake : Option (Fin (2 * N))} (htask : (s.cpu p).tiTask = some t)
    (hhome : (s.thread t).cpu = some p) (hti : (s.cpu p).ti ≠ (s.cpu p).tiIdle)
    (h : exitLocked p s = some (s', v, wake)) :
    s'.slotRegs = s.slotRegs ∧ s'.current = Function.update s.current p (s.cpu p).tiIdle ∧
      ∃ idle, (s.cpu p).tiIdle = some idle ∧ (s'.cpu p).regs = s.slotRegs idle := by
  unfold exitLocked at h
  rw [htask] at h
  obtain ⟨s₁, hstop, h⟩ := Option.bind_eq_some_iff.mp h
  obtain ⟨hregs₁, hcur₁⟩ := kThreadStop_frames hstop
  have hcpu₁ : s₁.cpu p = { s.cpu p with tiTask := none } ∧ (s₁.thread t).running = false := by
    rw [kThreadStop, hhome] at hstop
    obtain rfl := Option.some.inj hstop
    simp
  obtain ⟨hregs₂, hcpu₂⟩ := kThreadDestroy_frames s₁ t
  have hdone : (kThreadDestroy s₁ t).2 = 0 := by
    rw [kThreadDestroy, hcpu₁.2, if_neg Bool.false_ne_true]
  generalize kThreadDestroy s₁ t = d at h hregs₂ hcpu₂ hdone
  obtain ⟨s₂, r⟩ := d
  dsimp only at h hregs₂ hcpu₂ hdone
  rw [if_neg (not_not.mpr hdone)] at h
  obtain ⟨s₃, hswitch, heq⟩ := Option.map_eq_some_iff.mp h
  obtain ⟨rfl, -⟩ := Prod.mk.inj heq
  -- the word that is cleared in between is not read by the switch
  have hword : ∀ s₄ : KState N, s₄.cpu = s₂.cpu → s₄.slotRegs = s₂.slotRegs →
      kThreadContextSwitchNolock s₄ p = some s₃ →
      s₃.slotRegs = s.slotRegs ∧ s₃.current = Function.update s.current p (s.cpu p).tiIdle ∧
        ∃ idle, (s.cpu p).tiIdle = some idle ∧ (s₃.cpu p).regs = s.slotRegs idle := by
    intro s₄ hcpu₄ hregs₄ hswitch
    have hcpu : s₄.cpu p = { s.cpu p with tiTask := none } := by rw [hcpu₄, hcpu₂, hcpu₁.1]
    have hcur : s₄.current = s.current := (current_congr (hcpu₄.trans hcpu₂)).trans hcur₁
    have hregs : s₄.slotRegs = s.slotRegs := hregs₄.trans (hregs₂.trans hregs₁)
    have hidle := kThreadContextSwitchNolock_idle (by rw [hcpu]) (by rw [hcpu]; exact hti) hswitch
    rw [hcur, hregs, hcpu] at hidle
    exact hidle
  split at hswitch
  · exact hword (s₂.store (s₂.thread t).ctid 0) rfl rfl hswitch
  · exact hword s₂ rfl rfl hswitch

/-- The tables, with what the switches of each CPU should bring back. -/
structure SwitchState (N : Nat) where
  k : KState N
  last : Fin N → Option (Fin (2 * N))
  idleFrame : Fin N → UserRegs
  prepared : Fin (2 * N) → UserRegs

/-- What happens at a CPU, with what the machine supplies. -/
inductive SwitchEvent (N : Nat) where
  | initIdle (c : Fin N) (current : UserRegs)
  | initMain (c : Fin N) (current : UserRegs) (spUser spIntr start : Nat)
  | post (p c : Fin N) (frame current : UserRegs) (ipi : Int) (args : CloneArgs)
  | bootSwitch (c : Fin N) (frame : UserRegs)
  | idleSwitch (c : Fin N) (frame : UserRegs)
  | exit (c : Fin N) (frame : UserRegs) (ipi : Fin N → Int)

/-- The events by which a CPU asks for a switch. -/
def SwitchEvent.Asks (c : Fin N) : SwitchEvent N → Prop
  | bootSwitch d _ | idleSwitch d _ | exit d _ _ => d = c
  | initIdle .. | initMain .. | post .. => False

/-- Record the frame of the slot that a creation takes. -/
def SwitchState.prepare (s : SwitchState N) (frame : UserRegs) : Fin (2 * N) → UserRegs :=
  match findFreeSlot s.k with
  | none => s.prepared
  | some t => Function.update s.prepared t frame

/-- One event. The first switch of a CPU is made without a current thread, later ones by the
idle thread or by the exit of another thread. -/
def switchStep (cfg : StackConfig) (lead : Fin N) (s : SwitchState N) :
    SwitchEvent N → Option (SwitchState N)
  | .initIdle c current =>
      if (s.k.cpu c).tiIdle = none then
        some { s with
          k := (initIdleThread cfg current c (c == lead) s.k).1
          idleFrame := Function.update s.idleFrame c
            (idleRegs cfg c (c == lead) (kArchThreadInit current)) }
      else none
  | .initMain c current spUser spIntr start =>
      some { s with
        k := (initMainThread current c spUser spIntr start s.k).1
        prepared := s.prepare (mainRegs spUser spIntr start (kArchThreadInit current)) }
  | .post p c frame current ipi args =>
      (cloneLocked cfg current ipi args p c (s.k.trap p frame)).map fun (k, _) =>
        { s with k := k, prepared := s.prepare (cloneRegs cfg c args frame) }
  | .bootSwitch c frame =>
      if (s.k.cpu c).ti = none then
        (kThreadContextSwitchNolock (s.k.trap c frame) c).map fun k =>
          { s with k := k, last := Function.update s.last c (s.k.cpu c).tiIdle }
      else none
  | .idleSwitch c frame =>
      if (s.k.cpu c).ti ≠ none ∧ (s.k.cpu c).ti = (s.k.cpu c).tiIdle then
        (kThreadContextSwitchNolock (s.k.trap c frame) c).map fun k =>
          { s with
            k := k
            last := Function.update s.last c ((s.k.cpu c).tiTask.or (s.k.cpu c).tiIdle)
            idleFrame := Function.update s.idleFrame c frame }
      else none
  | .exit c frame ipi =>
      if (s.k.cpu c).ti ≠ none ∧ (s.k.cpu c).ti ≠ (s.k.cpu c).tiIdle then
        (kSysExit ipi c (s.k.trap c frame)).map fun (k, _) =>
          { s with
            k := k
            last := if (s.k.cpu c).tiTask = none then s.last
              else Function.update s.last c (s.k.cpu c).tiIdle }
      else none

/-- Nothing is recorded at boot. -/
def SwitchState.boot (present : Fin N → Bool) (regs : UserRegs) (word : Nat → BitVec 32) :
    SwitchState N :=
  ⟨KState.boot present regs word, fun _ => none, fun _ _ => 0, fun _ _ => 0⟩

/-- The saved registers are those that the records name. -/
structure SwitchInv (s : SwitchState N) : Prop where
  placed : s.k.roster.Placed
  last : s.k.current = s.last
  idle : ∀ c i, s.k.roster.reserve c = some i → s.k.slotRegs i = s.idleFrame c
  task : ∀ c t, s.k.roster.task c = some t → s.k.slotRegs t = s.prepared t

theorem SwitchInv.boot (present : Fin N → Bool) (regs : UserRegs) (word : Nat → BitVec 32) :
    SwitchInv (SwitchState.boot present regs word) where
  placed := Roster.Placed.of_empty (fun _ => rfl) (fun _ => rfl)
  last := rfl
  idle := fun _ _ h => nomatch h
  task := fun _ _ h => nomatch h

section Steps

variable {s : SwitchState N} {k : KState N} {c : Fin N} {t : Fin (2 * N)} {frame : UserRegs}

/-- A change that leaves the tables and all saved frames alone. -/
theorem SwitchInv.same (hs : SwitchInv s) {last : Fin N → Option (Fin (2 * N))}
    (hroster : k.roster = s.k.roster) (hregs : k.slotRegs = s.k.slotRegs)
    (hlast : k.current = last) : SwitchInv { s with k := k, last := last } := by
  refine ⟨hroster ▸ hs.placed, hlast, ?_, ?_⟩
  · rw [hroster, hregs]
    exact hs.idle
  · rw [hroster, hregs]
    exact hs.task

/-- A posting of a new slot with a prepared frame. -/
theorem SwitchInv.hire (hs : SwitchInv s) (ht : s.k.roster.avail t = false)
    (hroster : k.roster = (s.k.roster.take t).post t c)
    (hregs : k.slotRegs = Function.update s.k.slotRegs t frame) (hcur : k.current = s.k.current) :
    SwitchInv { s with k := k, prepared := Function.update s.prepared t frame } := by
  refine ⟨hroster ▸ hs.placed.hire ht c, hcur.trans hs.last, ?_, ?_⟩
  · intro d i hi
    rw [hroster] at hi
    dsimp only
    rw [hregs, Function.update_of_ne (hs.placed.reserve_ne ht hi)]
    exact hs.idle d i hi
  · intro d t' ht'
    rw [hroster] at ht'
    dsimp only
    rw [hregs]
    by_cases hnew : t' = t
    · rw [hnew, Function.update_self, Function.update_self]
    · rw [Function.update_of_ne hnew, Function.update_of_ne hnew]
      apply hs.task d t'
      change Function.update s.k.roster.task c (some t) d = some t' at ht'
      by_cases hd : d = c
      · rw [hd, Function.update_self] at ht'
        exact absurd (Option.some.inj ht').symm hnew
      · rwa [Function.update_of_ne hd] at ht'

/-- The tasks that are left when the one of a place is cleared. -/
theorem task_of_update_none {task : Fin N → Option (Fin (2 * N))} {d : Fin N}
    {t' : Fin (2 * N)} (h : Function.update task c none d = some t') :
    d ≠ c ∧ task d = some t' := by
  have hd : d ≠ c := by
    rintro rfl
    rw [Function.update_self] at h
    cases h
  rw [Function.update_of_ne hd] at h
  exact ⟨hd, h⟩

/-- A posting that is taken back. -/
theorem SwitchInv.undo (hs : SwitchInv s) (ht : s.k.roster.avail t = false)
    (hroster : k.roster = (((s.k.roster.take t).post t c).withdraw t c).drop t)
    (hregs : k.slotRegs = Function.update s.k.slotRegs t frame) (hcur : k.current = s.k.current) :
    SwitchInv { s with k := k, prepared := Function.update s.prepared t frame } := by
  have hplaced := (hs.placed.hire ht c).dismiss (Function.update_self ..)
  refine ⟨hroster ▸ hplaced, hcur.trans hs.last, ?_, ?_⟩
  · intro d i hi
    rw [hroster] at hi
    dsimp only
    rw [hregs, Function.update_of_ne (hs.placed.reserve_ne ht hi)]
    exact hs.idle d i hi
  · intro d t' ht'
    rw [hroster] at ht'
    obtain ⟨hd, ht'⟩ := task_of_update_none
      (show Function.update (Function.update s.k.roster.task c (some t)) c none d = some t'
        from ht')
    rw [Function.update_of_ne hd] at ht'
    have hne := hs.placed.task_ne ht ht'
    dsimp only
    rw [hregs, Function.update_of_ne hne, Function.update_of_ne hne]
    exact hs.task d t' ht'

/-- The task of a CPU is dismissed. -/
theorem SwitchInv.dismiss (hs : SwitchInv s) {last : Fin N → Option (Fin (2 * N))}
    (ht : s.k.roster.task c = some t)
    (hroster : k.roster = (s.k.roster.withdraw t c).drop t) (hregs : k.slotRegs = s.k.slotRegs)
    (hlast : k.current = last) : SwitchInv { s with k := k, last := last } := by
  refine ⟨hroster ▸ hs.placed.dismiss ht, hlast, ?_, ?_⟩
  · intro d i hi
    rw [hroster] at hi
    dsimp only
    rw [hregs]
    exact hs.idle d i hi
  · intro d t' ht'
    rw [hroster] at ht'
    obtain ⟨-, ht'⟩ := task_of_update_none
      (show Function.update s.k.roster.task c none d = some t' from ht')
    dsimp only
    rw [hregs]
    exact hs.task d t' ht'

/-- A new idle thread with its first frame. -/
theorem SwitchInv.settle (hs : SwitchInv s) (ht : s.k.roster.avail t = false)
    (hroster : k.roster = (s.k.roster.take t).keep t c)
    (hregs : k.slotRegs = Function.update s.k.slotRegs t frame) (hcur : k.current = s.k.current) :
    SwitchInv { s with k := k, idleFrame := Function.update s.idleFrame c frame } := by
  refine ⟨hroster ▸ hs.placed.settle ht c, hcur.trans hs.last, ?_, ?_⟩
  · intro d i hi
    rw [hroster] at hi
    change Function.update s.k.roster.reserve c (some t) d = some i at hi
    dsimp only
    rw [hregs]
    by_cases hd : d = c
    · rw [hd, Function.update_self] at hi
      rw [← Option.some.inj hi, hd, Function.update_self, Function.update_self]
    · rw [Function.update_of_ne hd] at hi
      rw [Function.update_of_ne (hs.placed.reserve_ne ht hi), Function.update_of_ne hd]
      exact hs.idle d i hi
  · intro d t' ht'
    rw [hroster] at ht'
    dsimp only
    rw [hregs, Function.update_of_ne (hs.placed.task_ne ht ht')]
    exact hs.task d t' ht'

/-- The idle thread of a CPU stops with a new frame. -/
theorem SwitchInv.record (hs : SwitchInv s) {last : Fin N → Option (Fin (2 * N))}
    (hidle : s.k.roster.reserve c = some t) (hroster : k.roster = s.k.roster)
    (hregs : k.slotRegs = Function.update s.k.slotRegs t frame) (hlast : k.current = last) :
    SwitchInv { s with
      k := k, last := last, idleFrame := Function.update s.idleFrame c frame } := by
  refine ⟨hroster ▸ hs.placed, hlast, ?_, ?_⟩
  · intro d j hj
    rw [hroster] at hj
    dsimp only
    rw [hregs]
    by_cases hd : d = c
    · rw [hd] at hj ⊢
      rw [← Option.some.inj (hidle.symm.trans hj), Function.update_self, Function.update_self]
    · have hne : j ≠ t := fun hjt => hd (hs.placed.reserve_unique d c t (hjt ▸ hj) hidle)
      rw [Function.update_of_ne hne, Function.update_of_ne hd]
      exact hs.idle d j hj
  · intro d t' ht'
    rw [hroster] at ht'
    have hne : t' ≠ t := fun heq => hs.placed.task_reserve d c t (heq ▸ ht') hidle
    dsimp only
    rw [hregs, Function.update_of_ne hne]
    exact hs.task d t' ht'

variable {cfg : StackConfig} {lead : Fin N} {s' : SwitchState N}

theorem findFreeSlot_trap (k : KState N) (p : Fin N) (frame : UserRegs) :
    findFreeSlot (k.trap p frame) = findFreeSlot k := rfl

theorem initIdleThread_frames (cfg : StackConfig) (current : UserRegs) (c : Fin N)
    (leader : Bool) (hslot : findFreeSlot k = some t) :
    (initIdleThread cfg current c leader k).1.slotRegs =
        Function.update k.slotRegs t (idleRegs cfg c leader (kArchThreadInit current)) ∧
      (initIdleThread cfg current c leader k).1.current = k.current := by
  unfold initIdleThread kThreadCreate
  rw [hslot]
  dsimp only
  constructor
  · rw [slotRegs_modifyCpu, slotRegs_modifyThread]
    funext i
    by_cases hi : i = t
    · simp [hi, takeSlot_thread]
    · simp [hi, takeSlot_thread, KState.slotRegs]
  · rw [current_modifyCpu_of_eq _ rfl, current_modifyThread]
    rfl

theorem initMainThread_frames (current : UserRegs) (c : Fin N) (spUser spIntr start : Nat)
    (hslot : findFreeSlot k = some t) :
    (initMainThread current c spUser spIntr start k).1.slotRegs =
        Function.update k.slotRegs t (mainRegs spUser spIntr start (kArchThreadInit current)) ∧
      (initMainThread current c spUser spIntr start k).1.current = k.current := by
  unfold initMainThread kThreadCreate
  rw [hslot]
  dsimp only
  constructor
  · rw [(kThreadRun_frames _ _ _).1]
    funext i
    by_cases hi : i = t
    · simp [hi, takeSlot_thread, KState.slotRegs, kProcSetLeader]
    · simp [hi, takeSlot_thread, KState.slotRegs, kProcSetLeader]
  · rw [(kThreadRun_frames _ _ _).2]
    rfl

/-- Creations and postings keep the records right and switch no CPU. -/
theorem SwitchInv.create_step (hs : SwitchInv s) {l : SwitchEvent N}
    (hstep : switchStep cfg lead s l = some s') (hl : ∀ d, ¬l.Asks d) :
    SwitchInv s' ∧ s'.k.current = s.k.current := by
  cases l with
  | initIdle d current =>
      simp only [switchStep] at hstep
      split at hstep
      · rename_i hnone
        obtain rfl := Option.some.inj hstep
        cases hslot : findFreeSlot s.k with
        | none =>
            rw [initIdleThread_of_full cfg current d (d == lead) hslot]
            refine ⟨⟨hs.placed, hs.last, fun e i hi => ?_, hs.task⟩, rfl⟩
            have hne : e ≠ d := by
              rintro rfl
              rw [show s.k.roster.reserve e = none from hnone] at hi
              cases hi
            dsimp only
            rw [Function.update_of_ne hne]
            exact hs.idle e i hi
        | some t =>
            obtain ⟨hregs, hcur⟩ := initIdleThread_frames cfg current d (d == lead) hslot
            have hroster := roster_initIdleThread cfg current d (d == lead) hslot
            exact ⟨hs.settle (findFreeSlot_avail hslot) hroster hregs hcur, hcur⟩
      · cases hstep
  | initMain d current spUser spIntr start =>
      obtain rfl := Option.some.inj hstep
      cases hslot : findFreeSlot s.k with
      | none =>
          simp only [SwitchState.prepare, hslot]
          rw [initMainThread_of_full current d spUser spIntr start hslot]
          exact ⟨hs, rfl⟩
      | some t =>
          obtain ⟨hregs, hcur⟩ := initMainThread_frames current d spUser spIntr start hslot
          have hroster := roster_initMainThread current d spUser spIntr start hslot
          simp only [SwitchState.prepare, hslot]
          exact ⟨hs.hire (findFreeSlot_avail hslot) hroster hregs hcur, hcur⟩
  | post p d frame current ipi args =>
      obtain ⟨⟨k, r⟩, hclone, rfl⟩ := Option.map_eq_some_iff.mp hstep
      have hroster := cloneLocked_roster hclone
      rw [findFreeSlot_trap, roster_trap] at hroster
      rcases hroster with ⟨hslot, rfl⟩ | ⟨t, hslot, hroster⟩
      · have hcur := current_trap s.k p frame
        simp only [SwitchState.prepare, hslot]
        exact ⟨hs.same (roster_trap s.k p frame) rfl (hcur.trans hs.last), hcur⟩
      · have hframes := cloneLocked_frames ((findFreeSlot_trap s.k p frame).trans hslot) hclone
        rw [trap_regs, current_trap] at hframes
        obtain ⟨hregs, hcur⟩ := hframes
        have ht := findFreeSlot_avail hslot
        simp only [SwitchState.prepare, hslot]
        rcases hroster with ⟨-, hpost⟩ | ⟨-, hundo⟩
        · exact ⟨hs.hire ht hpost hregs hcur, hcur⟩
        · exact ⟨hs.undo ht hundo hregs hcur, hcur⟩
  | bootSwitch d frame => exact absurd rfl (hl d)
  | idleSwitch d frame => exact absurd rfl (hl d)
  | exit d frame ipi => exact absurd rfl (hl d)

/-- The first switch of a CPU goes to its idle thread with the frame that was set up for it. -/
theorem SwitchInv.boot_step (hs : SwitchInv s)
    (hstep : switchStep cfg lead s (.bootSwitch c frame) = some s') :
    SwitchInv s' ∧ s'.k.current = Function.update s.k.current c (s.k.cpu c).tiIdle ∧
      (s'.k.cpu c).tiIdle = (s.k.cpu c).tiIdle ∧ (s'.k.cpu c).regs = s'.idleFrame c := by
  simp only [switchStep] at hstep
  split at hstep
  · rename_i hnone
    obtain ⟨k, hswitch, rfl⟩ := Option.map_eq_some_iff.mp hstep
    have hroster := (roster_kThreadContextSwitchNolock _ hswitch).trans (roster_trap s.k c frame)
    obtain ⟨hregs, hcur, i, hi, hframe⟩ := kThreadContextSwitchNolock_frames hswitch
    have hnone' : ((s.k.trap c frame).cpu c).ti = none := by simpa [KState.trap] using hnone
    have hsaved : savedRegs (s.k.trap c frame) c = s.k.slotRegs := by
      unfold savedRegs
      rw [hnone']
      rfl
    have htarget : switchTarget (s.k.trap c frame) c = (s.k.cpu c).tiIdle := by
      unfold switchTarget
      rw [hnone']
      simp [KState.trap]
    rw [hsaved] at hregs hframe
    rw [htarget, current_trap] at hcur
    rw [htarget] at hi
    have hlast := hcur.trans (congrArg (Function.update · c (s.k.cpu c).tiIdle) hs.last)
    refine ⟨hs.same hroster hregs hlast, hcur, ?_, ?_⟩
    · exact congrFun (congrArg Roster.reserve hroster) c
    · exact hframe.trans (hs.idle c i hi)
  · cases hstep

/-- A request of the idle thread saves its frame. -/
theorem savedRegs_of_idle (hti : (k.cpu c).ti = some t) (hidle : (k.cpu c).tiIdle = some t) :
    savedRegs (k.trap c frame) c = Function.update k.slotRegs t frame := by
  have hti' : ((k.trap c frame).cpu c).ti = some t := by simpa [KState.trap] using hti
  have hidle' : ((k.trap c frame).cpu c).tiIdle = some t := by simpa [KState.trap] using hidle
  unfold savedRegs
  rw [hti']
  simp only [if_pos hidle', trap_regs]
  rfl

/-- A request of a CPU with a current thread goes to the task, if there is one. -/
theorem switchTarget_of_some (hti : (k.cpu c).ti = some t) :
    switchTarget (k.trap c frame) c = (k.cpu c).tiTask.or (k.cpu c).tiIdle := by
  have hti' : ((k.trap c frame).cpu c).ti = some t := by simpa [KState.trap] using hti
  have hidle : ((k.trap c frame).cpu c).tiIdle = (k.cpu c).tiIdle := by simp [KState.trap]
  cases htask : (k.cpu c).tiTask with
  | some task => exact switchTarget_of_task hti' ((trap_tiTask ..).trans htask)
  | none =>
      rw [Option.none_or, ← hidle]
      apply switchTarget_of_not
      intro _ task _ htask'
      rw [trap_tiTask, htask] at htask'
      cases htask'

/-- A request of the idle thread records its frame and goes to the posted task or back. -/
theorem SwitchInv.idle_step (hs : SwitchInv s)
    (hstep : switchStep cfg lead s (.idleSwitch c frame) = some s') :
    SwitchInv s' ∧ ∃ i, (s'.k.cpu c).tiIdle = some i ∧
      ((s'.k.current = Function.update s.k.current c (some i) ∧
          (s'.k.cpu c).regs = s'.idleFrame c) ∨
        ∃ t, t ≠ i ∧ s'.k.current = Function.update s.k.current c (some t) ∧
          (s'.k.cpu c).regs = s'.prepared t) := by
  simp only [switchStep] at hstep
  split at hstep
  · rename_i hguard
    obtain ⟨k, hswitch, rfl⟩ := Option.map_eq_some_iff.mp hstep
    have hroster := (roster_kThreadContextSwitchNolock _ hswitch).trans (roster_trap s.k c frame)
    obtain ⟨hregs, hcur, u, hu, hframe⟩ := kThreadContextSwitchNolock_frames hswitch
    obtain ⟨i, hi⟩ := Option.ne_none_iff_exists'.mp hguard.1
    have hidle : (s.k.cpu c).tiIdle = some i := hguard.2.symm.trans hi
    rw [savedRegs_of_idle hi hidle] at hregs hframe
    rw [switchTarget_of_some hi, current_trap] at hcur
    rw [switchTarget_of_some hi] at hu
    have hlast := hcur.trans (congrArg (Function.update · c _) hs.last)
    refine ⟨hs.record hidle hroster hregs hlast, i, ?_, ?_⟩
    · exact (congrFun (congrArg Roster.reserve hroster) c).trans hidle
    · cases hposted : (s.k.cpu c).tiTask with
      | none =>
          rw [hposted, Option.none_or, hidle] at hcur hu
          obtain rfl := Option.some.inj hu
          refine Or.inl ⟨hcur, ?_⟩
          dsimp only
          rw [hframe, Function.update_self, Function.update_self]
      | some t =>
          rw [hposted, Option.some_or] at hcur hu
          obtain rfl := Option.some.inj hu
          have hne : t ≠ i := fun heq => hs.placed.task_reserve c c t hposted (heq ▸ hidle)
          refine Or.inr ⟨t, hne, hcur, ?_⟩
          dsimp only
          rw [hframe, Function.update_of_ne hne]
          exact hs.task c t hposted
  · cases hstep

/-- What the whole call adds to the section under the lock is not read by a switch. -/
theorem kSysExit_locked {ipi : Fin N → Int} {p : Fin N} {k k' : KState N} {v : Int}
    (h : kSysExit ipi p k = some (k', v)) :
    ∃ k₁ wake, exitLocked p k = some (k₁, v, wake) ∧ k'.roster = k₁.roster ∧
      k'.slotRegs = k₁.slotRegs ∧ k'.current = k₁.current ∧ (k'.cpu p).regs = (k₁.cpu p).regs := by
  obtain ⟨⟨k₁, v₁, wake⟩, hlocked, h⟩ := Option.map_eq_some_iff.mp h
  cases wake with
  | none =>
      obtain ⟨rfl, rfl⟩ := Prod.mk.inj h
      exact ⟨_, none, hlocked, rfl, rfl, rfl, rfl⟩
  | some t =>
      obtain ⟨rfl, rfl⟩ := Prod.mk.inj h
      exact ⟨k₁, some t, hlocked, rfl, rfl, rfl, rfl⟩

/-- An exit fails without a switch, or brings the idle thread back. -/
theorem SwitchInv.exit_step (hs : SwitchInv s) {ipi : Fin N → Int}
    (hstep : switchStep cfg lead s (.exit c frame ipi) = some s') :
    SwitchInv s' ∧ (s'.k.cpu c).tiIdle = (s.k.cpu c).tiIdle ∧
      ((s'.k.current = s.k.current ∧ s.k.current c ≠ (s.k.cpu c).tiIdle) ∨
        (s'.k.current = Function.update s.k.current c (s.k.cpu c).tiIdle ∧
          (s'.k.cpu c).regs = s'.idleFrame c)) := by
  simp only [switchStep] at hstep
  split at hstep
  · rename_i hguard
    obtain ⟨⟨k, v⟩, hexit, rfl⟩ := Option.map_eq_some_iff.mp hstep
    obtain ⟨k₁, wake, hlocked, hroster, hslots, hcurrent, hframe⟩ := kSysExit_locked hexit
    have hlock := exitLocked_roster hlocked
    rw [roster_trap] at hlock
    cases htask : (s.k.cpu c).tiTask with
    | none =>
        rcases hlock with ⟨-, rfl⟩ | ⟨t, d, ht, -⟩
        · rw [roster_trap] at hroster
          rw [current_trap] at hcurrent
          have hregs : k.slotRegs = s.k.slotRegs := hslots
          refine ⟨hs.same hroster hregs (hcurrent.trans hs.last), ?_, Or.inl ⟨hcurrent, ?_⟩⟩
          · exact congrFun (congrArg Roster.reserve hroster) c
          · exact hguard.2
        · exact absurd (htask.symm.trans ht) (Option.some_ne_none t).symm
    | some t =>
        rcases hlock with ⟨hnone, -⟩ | ⟨t', d, ht, hhome, hdrop⟩
        · exact absurd (htask.symm.trans hnone) (Option.some_ne_none t)
        · obtain rfl : t = t' := Option.some.inj (htask.symm.trans ht)
          have hhome' := hs.placed.task_home c t ht
          obtain rfl : c = d := Option.some.inj (hhome'.symm.trans hhome)
          have hti : ((s.k.trap c frame).cpu c).ti ≠ ((s.k.trap c frame).cpu c).tiIdle := by
            simpa [KState.trap] using hguard.2
          obtain ⟨hregs₁, hcur₁, i, hi, hframe₁⟩ :=
            exitLocked_frames ((trap_tiTask ..).trans htask) hhome' hti hlocked
          have hidle : ((s.k.trap c frame).cpu c).tiIdle = (s.k.cpu c).tiIdle := by
            simp [KState.trap]
          rw [hidle] at hcur₁ hi
          rw [current_trap] at hcur₁
          have hregs : k.slotRegs = s.k.slotRegs := hslots.trans hregs₁
          have hroster' := hroster.trans hdrop
          rw [if_neg (Option.some_ne_none t)]
          have hcur := hcurrent.trans hcur₁
          have hlast := hcur.trans (congrArg (Function.update · c (s.k.cpu c).tiIdle) hs.last)
          refine ⟨hs.dismiss ht hroster' hregs hlast, ?_, Or.inr ⟨hcur, ?_⟩⟩
          · exact congrFun (congrArg Roster.reserve hroster') c
          · exact (hframe.trans hframe₁).trans (hs.idle c i hi)
  · cases hstep

theorem SwitchInv.step (hs : SwitchInv s) {l : SwitchEvent N}
    (hstep : switchStep cfg lead s l = some s') : SwitchInv s' := by
  cases l with
  | initIdle | initMain | post => exact (hs.create_step hstep fun _ h => h).1
  | bootSwitch => exact (hs.boot_step hstep).1
  | idleSwitch => exact (hs.idle_step hstep).1
  | exit => exact (hs.exit_step hstep).1

end Steps

/-- What an event should bring back at a CPU. -/
def Resumes (c : Fin N) (l : SwitchEvent N) (s s' : SwitchState N) : Prop :=
  (l.Asks c → (s'.k.cpu c).ti = (s'.k.cpu c).tiIdle → (s'.k.cpu c).regs = s'.idleFrame c) ∧
  ∀ t, (s.k.cpu c).ti ≠ some t → (s'.k.cpu c).ti = some t → (s'.k.cpu c).tiIdle ≠ some t →
    (s'.k.cpu c).regs = s'.prepared t

section Resumes

variable {c d : Fin N} {l : SwitchEvent N} {s s' : SwitchState N}

/-- A CPU that keeps its current thread and does not resume its idle thread. -/
theorem Resumes.of_keep (hcur : s'.k.current c = s.k.current c)
    (hask : l.Asks c → (s'.k.cpu c).ti ≠ (s'.k.cpu c).tiIdle) : Resumes c l s s' :=
  ⟨fun h heq => absurd heq (hask h), fun _ hne heq _ => absurd (hcur.symm.trans heq) hne⟩

/-- The event of a CPU that goes to its idle thread. -/
theorem Resumes.of_idle (hask : l.Asks c → d = c)
    (hcur : s'.k.current = Function.update s.k.current d (s'.k.cpu d).tiIdle)
    (hframe : (s'.k.cpu d).regs = s'.idleFrame d) : Resumes c l s s' := by
  have hcur' := congrFun hcur c
  by_cases hd : d = c
  · subst hd
    rw [Function.update_self] at hcur'
    exact ⟨fun _ _ => hframe, fun t _ heq hne => absurd (hcur'.symm.trans heq) hne⟩
  · rw [Function.update_of_ne (Ne.symm hd)] at hcur'
    exact Resumes.of_keep hcur' fun h => absurd (hask h) hd

/-- The event of a CPU that goes to another thread. -/
theorem Resumes.of_task {t : Fin (2 * N)} (hask : l.Asks c → d = c)
    (hne : (s'.k.cpu d).tiIdle ≠ some t)
    (hcur : s'.k.current = Function.update s.k.current d (some t))
    (hframe : (s'.k.cpu d).regs = s'.prepared t) : Resumes c l s s' := by
  have hcur' := congrFun hcur c
  by_cases hd : d = c
  · subst hd
    rw [Function.update_self] at hcur'
    refine ⟨fun _ heq => absurd (heq.symm.trans hcur') hne, fun u _ heq _ => ?_⟩
    rw [← Option.some.inj (hcur'.symm.trans heq)]
    exact hframe
  · rw [Function.update_of_ne (Ne.symm hd)] at hcur'
    exact Resumes.of_keep hcur' fun h => absurd (hask h) hd

variable {cfg : StackConfig} {lead : Fin N}

/-- Every event of a state with right records brings back what it should. -/
theorem SwitchInv.resumes (hs : SwitchInv s) (hstep : switchStep cfg lead s l = some s')
    (c : Fin N) : Resumes c l s s' := by
  cases l with
  | initIdle | initMain | post =>
      obtain ⟨-, hcur⟩ := hs.create_step hstep fun _ h => h
      exact Resumes.of_keep (congrFun hcur c) fun hask => hask.elim
  | bootSwitch d frame =>
      obtain ⟨-, hcur, hidle, hframe⟩ := hs.boot_step hstep
      exact Resumes.of_idle id (hidle ▸ hcur) hframe
  | idleSwitch d frame =>
      obtain ⟨-, i, hidle, ⟨hcur, hframe⟩ | ⟨t, hne, hcur, hframe⟩⟩ := hs.idle_step hstep
      · exact Resumes.of_idle id (hidle ▸ hcur) hframe
      · have hne' : (s'.k.cpu d).tiIdle ≠ some t := fun heq =>
          hne (Option.some.inj (heq.symm.trans hidle))
        exact Resumes.of_task id hne' hcur hframe
  | exit d frame ipi =>
      obtain ⟨-, hidle, ⟨hcur, hne⟩ | ⟨hcur, hframe⟩⟩ := hs.exit_step hstep
      · apply Resumes.of_keep (congrFun hcur c)
        rintro rfl heq
        exact hne ((congrFun hcur d).symm.trans (heq.trans hidle))
      · exact Resumes.of_idle id (hidle ▸ hcur) hframe

end Resumes

/-- In every run from boot the current thread of a CPU is the one last switched to; whenever
its idle thread resumes it has the frame of its last request, and whenever another thread
begins to run it has the frame that was prepared for it. -/
theorem switch_resumes_frames {cfg : StackConfig} {lead : Fin N} {present : Fin N → Bool}
    {regs : UserRegs} {word : Nat → BitVec 32} {s : SwitchState N}
    (h : Reachable (switchStep cfg lead) (SwitchState.boot present regs word) s) (c : Fin N) :
    (s.k.cpu c).ti = s.last c ∧
    ∀ l s', switchStep cfg lead s l = some s' →
      (l.Asks c → (s'.k.cpu c).ti = (s'.k.cpu c).tiIdle →
        (s'.k.cpu c).regs = s'.idleFrame c) ∧
      ∀ t, (s.k.cpu c).ti ≠ some t → (s'.k.cpu c).ti = some t → (s'.k.cpu c).tiIdle ≠ some t →
        (s'.k.cpu c).regs = s'.prepared t := by
  have hs : SwitchInv s := h.invariant (fun _ _ _ hi hstep => hi.step hstep)
    (SwitchInv.boot present regs word)
  exact ⟨congrFun hs.last c, fun _ _ hstep => hs.resumes hstep c⟩

/-- One core boots, its idle thread asks twice, and the main thread runs. -/
def runMain : List (SwitchEvent 1) :=
  [.initMain 0 (fun _ => 0) 0x80030000 0x80011000 0x80000200, .initIdle 0 fun _ => 0,
    .bootSwitch 0 fun _ => 3, .idleSwitch 0 fun _ => 7]

theorem runMain_exit :
    (((exec (switchStep smallStacks 0)
        (SwitchState.boot (fun _ => true) (fun _ => 0) fun _ => 0) runMain).bind fun s =>
      switchStep smallStacks 0 s (.exit 0 (fun _ => 5) fun _ => 0)).map fun s =>
        ((s.k.cpu 0).ti, (s.k.cpu 0).tiIdle, s.idleFrame 0 (.s 3))) =
      some (some 1, some 1, 7) := by
  decide +kernel

theorem switch_resumes_frames_exit :
    ∃ s s', exec (switchStep smallStacks 0)
        (SwitchState.boot (fun _ => true) (fun _ => 0) fun _ => 0) runMain = some s ∧
      switchStep smallStacks 0 s (.exit 0 (fun _ => 5) fun _ => 0) = some s' ∧
      (s'.k.cpu 0).regs (.s 3) = 7 := by
  obtain ⟨s', hrun, hend⟩ := Option.map_eq_some_iff.mp runMain_exit
  obtain ⟨s, hs, hexit⟩ := Option.bind_eq_some_iff.mp hrun
  have hresume := ((switch_resumes_frames ⟨runMain, hs⟩ 0).2 _ s' hexit).1 rfl
    ((congrArg Prod.fst hend).trans (congrArg (fun e => e.2.1) hend).symm)
  refine ⟨s, s', hs, hexit, ?_⟩
  rw [hresume]
  exact congrArg (fun e => e.2.2) hend

end BaremetalCrt
