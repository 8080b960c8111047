import BaremetalCrt.Library.Numerals
import BaremetalCrt.Library.Runs
import Mathlib.Algebra.Group.Nat.Defs
import Mathlib.Data.List.Nodup
import Mathlib.Data.List.Range
import Mathlib.Logic.Function.Basic

/-!
# Waking the secondary cores

All harts start at `k_reset` and mark the notify area as empty. The main core then
wakes one core after another: it prepares the stack tops of the core, names it in the
notify area until it answers, and marks the area as empty again.

## Implementation notes

Each load and each store of the four shared words is one step. The words have any
content at the start; a core repeats its load in the wait loop as often as it likes.
Hart ids are those that `id_phys`, an `int`, can hold.
-/

namespace BaremetalCrt

/-- A value of `mhartid`. -/
abbrev HartId : Type := Fin (2 ^ 31)

/-- A secondary core: its index among the cores and its hart. -/
structure BootCpu where
  idCpu : Nat
  idPhys : HartId
  deriving DecidableEq

/-- The memory of the stacks and the cores to wake, in their order. -/
structure BootSetup where
  mainCore : HartId
  stackIdle : Nat
  stackIntr : Nat
  idleStackSize : Nat
  intrStackSize : Nat
  idle_pos : 0 < idleStackSize
  intr_pos : 0 < intrStackSize
  cpus : List BootCpu
  phys_nodup : (cpus.map BootCpu.idPhys).Nodup
  cpu_nodup : (cpus.map BootCpu.idCpu).Nodup

/-- The cores that `k_cpu_wakeup_all` wakes: those of the table from index 1 on. -/
def wakeList (numCores : Nat) (cpus : Nat → Option HartId) : List BootCpu :=
  (List.range' 1 (numCores - 1)).filterMap fun i => (cpus i).map (BootCpu.mk i)

theorem mem_wakeList {numCores : Nat} {cpus : Nat → Option HartId} {c : BootCpu}
    (h : c ∈ wakeList numCores cpus) : cpus c.idCpu = some c.idPhys := by
  obtain ⟨i, -, hi⟩ := List.mem_filterMap.mp h
  obtain ⟨p, hp, rfl⟩ := Option.map_eq_some_iff.mp hi
  exact hp

theorem wakeList_idCpu_nodup (numCores : Nat) (cpus : Nat → Option HartId) :
    ((wakeList numCores cpus).map BootCpu.idCpu).Nodup := by
  have hsub : ∀ l : List Nat, ((l.filterMap fun i => (cpus i).map (BootCpu.mk i)).map
      BootCpu.idCpu).Sublist l := by
    intro l
    induction l with
    | nil => exact List.Sublist.slnil
    | cons i l ih =>
        cases hi : cpus i with
        | none =>
            simp only [List.filterMap_cons, hi, Option.map_none]
            exact ih.cons i
        | some p =>
            simp only [List.filterMap_cons, hi, Option.map_some, List.map_cons]
            exact ih.cons_cons i
  exact (List.nodup_range' 1).sublist (hsub _)

/-- A table in which no hart stands twice gives a list without a hart twice. -/
theorem wakeList_idPhys_nodup {numCores : Nat} {cpus : Nat → Option HartId}
    (hinj : ∀ i j p, cpus i = some p → cpus j = some p → i = j) :
    ((wakeList numCores cpus).map BootCpu.idPhys).Nodup := by
  have hnodup := List.Nodup.of_map _ (wakeList_idCpu_nodup numCores cpus)
  apply List.Nodup.map_on _ hnodup
  intro c hc d hd heq
  have hcpu := hinj c.idCpu d.idCpu d.idPhys (heq ▸ mem_wakeList hc) (mem_wakeList hd)
  obtain ⟨i, p⟩ := c
  obtain ⟨j, q⟩ := d
  exact congrArg₂ BootCpu.mk hcpu heq

/-- The top of the idle stack of a core. -/
def BootSetup.idleTop (b : BootSetup) (c : BootCpu) : Nat :=
  b.stackIdle + (c.idCpu + 1) * b.idleStackSize

/-- The top of the interrupt stack of a core. -/
def BootSetup.intrTop (b : BootSetup) (c : BootCpu) : Nat :=
  b.stackIntr + (c.idCpu + 1) * b.intrStackSize

/-- The next access of the main core to a shared word. -/
inductive MainPhase where
  | reset | clearDone | setIdle | setIntr | testDone | setProc | clearProc
  deriving DecidableEq

/-- The next access of a secondary core, with the words that it has loaded. -/
inductive HartPc where
  | reset
  | wait
  | loadIdle
  | loadIntr (idle : Nat)
  | notify (idle intr : Nat)
  | started (idle intr : Nat)
  deriving DecidableEq

/-- Both stack tops, once they are loaded. -/
def HartPc.loaded : HartPc → Option (Nat × Nat)
  | notify idle intr | started idle intr => some (idle, intr)
  | reset | wait | loadIdle | loadIntr _ => none

/-- The shared words, the cores that are not yet woken and the place of each core. -/
structure BootState where
  proc : Int
  spIdle : Nat
  spIntr : Nat
  done : Bool
  phase : MainPhase
  rest : List BootCpu
  hart : HartId → HartPc

/-- One access of the main core: the notify area at `k_reset`, then `cpu_riscv_wakeup`
for each core. -/
def mainStep (b : BootSetup) (s : BootState) : Option BootState :=
  match s.phase, s.rest with
  | .reset, _ => some { s with proc := -1, phase := .clearDone }
  | _, [] => none
  | .clearDone, _ :: _ => some { s with done := false, phase := .setIdle }
  | .setIdle, c :: _ => some { s with spIdle := b.idleTop c, phase := .setIntr }
  | .setIntr, c :: _ => some { s with spIntr := b.intrTop c, phase := .testDone }
  | .testDone, _ :: _ => some { s with phase := if s.done then .clearProc else .setProc }
  | .setProc, c :: _ => some { s with proc := c.idPhys, phase := .testDone }
  | .clearProc, _ :: rest => some { s with proc := -1, phase := .clearDone, rest := rest }

/-- One access of another core: `k_reset` and `k_start_for_sub`. -/
def hartStep (b : BootSetup) (s : BootState) (h : HartId) : Option BootState :=
  if h = b.mainCore then none
  else
    match s.hart h with
    | .reset => some { s with proc := -1, hart := Function.update s.hart h .wait }
    | .wait =>
        if s.proc = h then some { s with hart := Function.update s.hart h .loadIdle } else some s
    | .loadIdle => some { s with hart := Function.update s.hart h (.loadIntr s.spIdle) }
    | .loadIntr idle => some { s with hart := Function.update s.hart h (.notify idle s.spIntr) }
    | .notify idle intr =>
        some { s with done := true, hart := Function.update s.hart h (.started idle intr) }
    | .started _ _ => none

/-- Any core makes its next access; `none` is the main core. -/
def bootStep (b : BootSetup) (s : BootState) : Option HartId → Option BootState
  | none => mainStep b s
  | some h => hartStep b s h

/-- All cores are at `k_reset`. -/
structure BootState.AtReset (b : BootSetup) (s : BootState) : Prop where
  phase : s.phase = .reset
  rest : s.rest = b.cpus
  hart : ∀ h, s.hart h = .reset

/-- The accesses of the main core, with the state before and after each. -/
inductive MainMove (b : BootSetup) (s : BootState) : BootState → Prop
  | reset (hp : s.phase = .reset) : MainMove b s { s with proc := -1, phase := .clearDone }
  | clearDone {c : BootCpu} {rest : List BootCpu} (hp : s.phase = .clearDone)
      (hr : s.rest = c :: rest) : MainMove b s { s with done := false, phase := .setIdle }
  | setIdle {c : BootCpu} {rest : List BootCpu} (hp : s.phase = .setIdle)
      (hr : s.rest = c :: rest) : MainMove b s { s with spIdle := b.idleTop c, phase := .setIntr }
  | setIntr {c : BootCpu} {rest : List BootCpu} (hp : s.phase = .setIntr)
      (hr : s.rest = c :: rest) : MainMove b s { s with spIntr := b.intrTop c, phase := .testDone }
  | testAgain {c : BootCpu} {rest : List BootCpu} (hp : s.phase = .testDone)
      (hr : s.rest = c :: rest) (hdone : s.done = false) :
      MainMove b s { s with phase := .setProc }
  | testDone {c : BootCpu} {rest : List BootCpu} (hp : s.phase = .testDone)
      (hr : s.rest = c :: rest) (hdone : s.done = true) :
      MainMove b s { s with phase := .clearProc }
  | setProc {c : BootCpu} {rest : List BootCpu} (hp : s.phase = .setProc)
      (hr : s.rest = c :: rest) : MainMove b s { s with proc := c.idPhys, phase := .testDone }
  | clearProc {c : BootCpu} {rest : List BootCpu} (hp : s.phase = .clearProc)
      (hr : s.rest = c :: rest) :
      MainMove b s { s with proc := -1, phase := .clearDone, rest := rest }

theorem mainStep_move {b : BootSetup} {s s' : BootState} (h : mainStep b s = some s') :
    MainMove b s s' := by
  unfold mainStep at h
  split at h
  · cases h
    exact .reset ‹_›
  · cases h
  · cases h
    exact .clearDone ‹_› ‹_›
  · cases h
    exact .setIdle ‹_› ‹_›
  · cases h
    exact .setIntr ‹_› ‹_›
  · cases hdone : s.done with
    | false =>
        simp only [hdone, Bool.false_eq_true, if_false] at h
        cases h
        exact hdone ▸ .testAgain ‹_› ‹_› hdone
    | true =>
        simp only [hdone, if_true] at h
        cases h
        exact hdone ▸ .testDone ‹_› ‹_› hdone
  · cases h
    exact .setProc ‹_› ‹_›
  · cases h
    exact .clearProc ‹_› ‹_›

/-- The accesses of a secondary core, with the state before and after each. -/
inductive HartMove (s : BootState) (h : HartId) : BootState → Prop
  | reset (hpc : s.hart h = .reset) :
      HartMove s h { s with proc := -1, hart := Function.update s.hart h .wait }
  | again (hpc : s.hart h = .wait) : HartMove s h s
  | leave (hpc : s.hart h = .wait) (hproc : s.proc = h) :
      HartMove s h { s with hart := Function.update s.hart h .loadIdle }
  | loadIdle (hpc : s.hart h = .loadIdle) :
      HartMove s h { s with hart := Function.update s.hart h (.loadIntr s.spIdle) }
  | loadIntr {idle : Nat} (hpc : s.hart h = .loadIntr idle) :
      HartMove s h { s with hart := Function.update s.hart h (.notify idle s.spIntr) }
  | notify {idle intr : Nat} (hpc : s.hart h = .notify idle intr) :
      HartMove s h
        { s with done := true, hart := Function.update s.hart h (.started idle intr) }

theorem hartStep_move {b : BootSetup} {s s' : BootState} {h : HartId}
    (hstep : hartStep b s h = some s') : HartMove s h s' := by
  unfold hartStep at hstep
  split at hstep
  · cases hstep
  · split at hstep
    · cases hstep
      exact .reset ‹_›
    · split at hstep
      · cases hstep
        exact .leave ‹_› ‹_›
      · cases hstep
        exact .again ‹_›
    · cases hstep
      exact .loadIdle ‹_›
    · cases hstep
      exact .loadIntr ‹_›
    · cases hstep
      exact .notify ‹_›
    · cases hstep

/-- The core `c` is being woken and waits for nothing but its own answer. -/
structure Serves (b : BootSetup) (s : BootState) (c : BootCpu) : Prop where
  current : s.rest.head? = some c
  phase : s.phase = .testDone ∨ s.phase = .setProc
  done : s.done = false
  spIdle : s.spIdle = b.idleTop c
  spIntr : s.spIntr = b.intrTop c

/-- What holds of a secondary core at its place. -/
def HartPlace (b : BootSetup) (s : BootState) (h : HartId) : HartPc → Prop
  | .reset | .wait => True
  | .loadIdle => ∃ c, c.idPhys = h ∧ Serves b s c
  | .loadIntr idle => ∃ c, c.idPhys = h ∧ Serves b s c ∧ idle = b.idleTop c
  | .notify idle intr =>
      ∃ c, c.idPhys = h ∧ Serves b s c ∧ idle = b.idleTop c ∧ intr = b.intrTop c
  | .started idle intr =>
      ∃ c ∈ b.cpus, c.idPhys = h ∧ idle = b.idleTop c ∧ intr = b.intrTop c

/-- The hart of `c` has answered with the stacks of `c`. -/
def Answered (b : BootSetup) (s : BootState) (c : BootCpu) : Prop :=
  s.hart c.idPhys = .started (b.idleTop c) (b.intrTop c)

/-- What holds while the main core wakes `c`. -/
def WakingOk (b : BootSetup) (s : BootState) (c : BootCpu) : MainPhase → Prop
  | .reset | .clearDone => True
  | .setIdle => s.done = false
  | .setIntr => s.done = false ∧ s.spIdle = b.idleTop c
  | .testDone | .setProc =>
      s.spIdle = b.idleTop c ∧ s.spIntr = b.intrTop c ∧ (s.done = true → Answered b s c)
  | .clearProc => Answered b s c

/-- The phases in which the notify area can name the current core. -/
def MainPhase.names : MainPhase → Prop
  | reset | clearDone | setIdle | setIntr => False
  | testDone | setProc | clearProc => True

/-- The notify area is empty or names the current core, once it is initialised. -/
def ProcOk (s : BootState) : Prop :=
  (s.phase = .reset ∧ ∀ h, s.hart h = .reset) ∨ s.proc = -1 ∨
    ∃ c, s.rest.head? = some c ∧ s.phase.names ∧ s.proc = c.idPhys

/-- The phase invariant of the handshake. -/
structure BootInv (b : BootSetup) (s : BootState) : Prop where
  suffix : s.rest <:+ b.cpus
  proc : ProcOk s
  place : ∀ h, HartPlace b s h (s.hart h)
  waking : ∀ c, s.rest.head? = some c → WakingOk b s c s.phase
  returned : ∀ c ∈ b.cpus, c ∉ s.rest → Answered b s c

section Invariant

variable {b : BootSetup} {s s' : BootState}

theorem BootState.AtReset.inv (h : s.AtReset b) : BootInv b s where
  suffix := h.rest ▸ List.suffix_rfl
  proc := Or.inl ⟨h.phase, h.hart⟩
  place := fun i => by rw [h.hart i]; trivial
  waking := fun c _ => by rw [h.phase]; trivial
  returned := fun c hc hrest => absurd (h.rest ▸ hc) hrest

/-- The place of a core depends on the other parts only through the core that is served. -/
theorem HartPlace.mono {h : HartId} {pc : HartPc} (hold : HartPlace b s h pc)
    (hserves : ∀ c, c.idPhys = h → Serves b s c → Serves b s' c) : HartPlace b s' h pc := by
  cases pc with
  | reset | wait => trivial
  | loadIdle =>
      obtain ⟨c, hc, hs⟩ := hold
      exact ⟨c, hc, hserves c hc hs⟩
  | loadIntr idle =>
      obtain ⟨c, hc, hs, hidle⟩ := hold
      exact ⟨c, hc, hserves c hc hs, hidle⟩
  | notify idle intr =>
      obtain ⟨c, hc, hs, hboth⟩ := hold
      exact ⟨c, hc, hserves c hc hs, hboth⟩
  | started idle intr => exact hold

theorem current_unique {c d : BootCpu} {rest : List BootCpu} (hr : s.rest = c :: rest)
    (hd : s.rest.head? = some d) : c = d := by
  rw [hr] at hd
  exact Option.some.inj hd

theorem BootInv.waking_at (hs : BootInv b s) {c : BootCpu} {rest : List BootCpu} {p : MainPhase}
    (hp : s.phase = p) (hr : s.rest = c :: rest) : WakingOk b s c p := by
  rw [← hp]
  apply hs.waking
  rw [hr]
  rfl

/-- Outside of the loop the notify area names no core. -/
theorem BootInv.proc_empty (hs : BootInv b s) {p : MainPhase} (hp : s.phase = p)
    (hreset : p ≠ .reset) (hnames : ¬p.names) : s.proc = -1 := by
  rcases hs.proc with ⟨hphase, -⟩ | hproc | ⟨c, -, hphase, -⟩
  · exact absurd (hp.symm.trans hphase) hreset
  · exact hproc
  · exact absurd (hp ▸ hphase) hnames

theorem ProcOk.move_phase (hs : ProcOk s) {p q : MainPhase} (hp : s.phase = p)
    (hreset : p ≠ .reset) (hnames : q.names) : ProcOk { s with phase := q } := by
  rcases hs with ⟨hphase, -⟩ | hproc | ⟨c, hcur, -, hproc⟩
  · exact absurd (hp.symm.trans hphase) hreset
  · exact Or.inr (Or.inl hproc)
  · exact Or.inr (Or.inr ⟨c, hcur, hnames, hproc⟩)

/-- Outside of the loop of the main core no core is served, and all of them keep their place. -/
theorem BootInv.place_outside (hs : BootInv b s) {p : MainPhase} (hp : s.phase = p)
    (htest : p ≠ .testDone) (hset : p ≠ .setProc) (hhart : s'.hart = s.hart) (h : HartId) :
    HartPlace b s' h (s'.hart h) := by
  rw [hhart]
  apply (hs.place h).mono
  intro c _ hc
  rcases hc.phase with hphase | hphase
  · exact absurd (hp.symm.trans hphase) htest
  · exact absurd (hp.symm.trans hphase) hset

/-- The main core keeps the invariant. -/
theorem BootInv.main_step (hs : BootInv b s) (hstep : mainStep b s = some s') : BootInv b s' := by
  cases mainStep_move hstep with
  | reset hp =>
      refine ⟨hs.suffix, Or.inr (Or.inl rfl), ?_, fun _ _ => trivial, hs.returned⟩
      exact hs.place_outside hp nofun nofun rfl
  | clearDone hp hr =>
      refine ⟨hs.suffix, ?_, hs.place_outside hp nofun nofun rfl, fun _ _ => rfl, hs.returned⟩
      exact Or.inr (Or.inl (hs.proc_empty hp nofun id))
  | @setIdle c rest hp hr =>
      refine ⟨hs.suffix, ?_, hs.place_outside hp nofun nofun rfl, fun d hd => ?_, hs.returned⟩
      · exact Or.inr (Or.inl (hs.proc_empty hp nofun id))
      · obtain rfl : c = d := current_unique hr hd
        have hold := hs.waking_at hp hr
        exact ⟨hold, rfl⟩
  | @setIntr c rest hp hr =>
      refine ⟨hs.suffix, ?_, hs.place_outside hp nofun nofun rfl, fun d hd => ?_, hs.returned⟩
      · exact Or.inr (Or.inl (hs.proc_empty hp nofun id))
      · obtain rfl : c = d := current_unique hr hd
        obtain ⟨hdone, hidle⟩ := hs.waking_at hp hr
        exact ⟨hidle, rfl, fun htrue => absurd (hdone.symm.trans htrue) (by decide)⟩
  | @testAgain c rest hp hr hdone =>
      refine ⟨hs.suffix, ?_, fun h => ?_, fun d hd => ?_, hs.returned⟩
      · exact hs.proc.move_phase hp nofun trivial
      · apply (hs.place h).mono
        intro d _ hd
        exact ⟨hd.current, Or.inr rfl, hdone, hd.spIdle, hd.spIntr⟩
      · obtain rfl : c = d := current_unique hr hd
        exact hs.waking_at hp hr
  | @testDone c rest hp hr hdone =>
      refine ⟨hs.suffix, ?_, fun h => ?_, fun d hd => ?_, hs.returned⟩
      · exact hs.proc.move_phase hp nofun trivial
      · apply (hs.place h).mono
        intro d _ hd
        exact absurd (hd.done.symm.trans hdone) (by decide)
      · obtain rfl : c = d := current_unique hr hd
        obtain ⟨-, -, hanswered⟩ := hs.waking_at hp hr
        exact hanswered hdone
  | @setProc c rest hp hr =>
      refine ⟨hs.suffix, ?_, fun h => ?_, fun d hd => ?_, hs.returned⟩
      · exact Or.inr (Or.inr ⟨c, by rw [hr]; rfl, trivial, rfl⟩)
      · apply (hs.place h).mono
        intro d _ hd
        exact ⟨hd.current, Or.inl rfl, hd.done, hd.spIdle, hd.spIntr⟩
      · obtain rfl : c = d := current_unique hr hd
        exact hs.waking_at hp hr
  | @clearProc c rest hp hr =>
      refine ⟨?_, Or.inr (Or.inl rfl), hs.place_outside hp nofun nofun rfl, fun _ _ => trivial,
        fun d hd hrest => ?_⟩
      · exact List.IsSuffix.trans ⟨[c], hr.symm⟩ hs.suffix
      · by_cases hdc : d = c
        · rw [hdc]
          exact hs.waking_at hp hr
        · apply hs.returned d hd
          rw [hr]
          exact List.not_mem_cons_of_ne_of_not_mem hdc hrest

/-- An answer stays when a core moves that has not answered. -/
theorem Answered.keep {c : BootCpu} {h : HartId} {pc : HartPc} (ha : Answered b s c)
    (hpc : ∀ idle intr, s.hart h ≠ .started idle intr)
    (hhart : s'.hart = Function.update s.hart h pc) : Answered b s' c := by
  have hne : c.idPhys ≠ h := by
    rintro rfl
    exact hpc _ _ ha
  rw [Answered, hhart, Function.update_of_ne hne]
  exact ha

/-- A core that moves alone keeps the invariant if its new place is right and no other core
loses the one that it is served by. -/
theorem BootInv.hart_move (hs : BootInv b s) {h : HartId} {pc : HartPc} {proc : Int} {done : Bool}
    (hpc : ∀ idle intr, s.hart h ≠ .started idle intr)
    (hs' : s' = { s with proc := proc, done := done, hart := Function.update s.hart h pc })
    (hproc : ProcOk s') (hplace : HartPlace b s' h pc)
    (hserves : ∀ c, c.idPhys ≠ h → Serves b s c → Serves b s' c)
    (hwaking : ∀ c, s.rest.head? = some c → WakingOk b s' c s.phase) : BootInv b s' := by
  subst hs'
  refine ⟨hs.suffix, hproc, fun i => ?_, hwaking, fun c hc hcr => ?_⟩
  · by_cases hi : i = h
    · dsimp only
      rw [hi, Function.update_self]
      exact hplace
    · dsimp only
      rw [Function.update_of_ne hi]
      exact (hs.place i).mono fun c hc => hserves c (hc ▸ hi)
  · exact (hs.returned c hc hcr).keep hpc rfl

/-- A move that keeps the answers and the words keeps what holds of the main core. -/
theorem WakingOk.keep {c : BootCpu} {p : MainPhase} (hold : WakingOk b s c p)
    (hanswer : Answered b s c → Answered b s' c) (hdone : s'.done = s.done)
    (hidle : s'.spIdle = s.spIdle) (hintr : s'.spIntr = s.spIntr) : WakingOk b s' c p := by
  cases p with
  | reset | clearDone => trivial
  | setIdle => exact hdone.trans hold
  | setIntr => exact ⟨hdone.trans hold.1, hidle.trans hold.2⟩
  | testDone | setProc =>
      obtain ⟨h1, h2, h3⟩ := hold
      exact ⟨hidle.trans h1, hintr.trans h2, fun hd => hanswer (h3 (hdone ▸ hd))⟩
  | clearProc => exact hanswer hold

theorem ProcOk.hart_move (hs : ProcOk s) {h : HartId} (hpc : s.hart h ≠ .reset)
    {hart : HartId → HartPc} {done : Bool} : ProcOk { s with hart := hart, done := done } := by
  rcases hs with ⟨-, hreset⟩ | hproc | hnamed
  · exact absurd (hreset h) hpc
  · exact Or.inr (Or.inl hproc)
  · exact Or.inr (Or.inr hnamed)

/-- Whether a core is served does not depend on the places of the others. -/
theorem Serves.of_hart {c : BootCpu} (hc : Serves b s c) {proc : Int} {hart : HartId → HartPc} :
    Serves b { s with proc := proc, hart := hart } c :=
  ⟨hc.current, hc.phase, hc.done, hc.spIdle, hc.spIntr⟩

/-- A core that only changes its place keeps the invariant if the new one is right. -/
theorem BootInv.advance (hs : BootInv b s) {h : HartId} {pc : HartPc}
    (hpc : ∀ idle intr, s.hart h ≠ .started idle intr) (hreset : s.hart h ≠ .reset)
    (hplace : HartPlace b s h pc) :
    BootInv b { s with hart := Function.update s.hart h pc } := by
  apply hs.hart_move hpc rfl (hs.proc.hart_move hreset)
  · exact hplace.mono fun _ _ hc => hc.of_hart
  · exact fun _ _ hc => hc.of_hart
  · exact fun c hc => (hs.waking c hc).keep (fun ha => ha.keep hpc rfl) rfl rfl rfl

/-- A core that finds itself named is served: it has not answered yet. -/
theorem BootInv.serves_of_named (hs : BootInv b s) {h : HartId} (hpc : s.hart h = .wait)
    (hproc : s.proc = h) : ∃ c, c.idPhys = h ∧ Serves b s c := by
  rcases hs.proc with ⟨-, hreset⟩ | hempty | ⟨c, hcur, hnames, hnamed⟩
  · rw [hreset h] at hpc
    cases hpc
  · omega
  · have hid : c.idPhys = h := by
      apply Fin.ext
      omega
    have hpending : ¬Answered b s c := by
      intro ha
      rw [Answered, hid, hpc] at ha
      cases ha
    have hok := hs.waking c hcur
    refine ⟨c, hid, ?_⟩
    cases hphase : s.phase with
    | reset | clearDone | setIdle | setIntr =>
        rw [hphase] at hnames
        exact hnames.elim
    | testDone =>
        rw [hphase] at hok
        obtain ⟨h1, h2, h3⟩ := hok
        exact ⟨hcur, Or.inl hphase, Bool.eq_false_iff.mpr fun hd => hpending (h3 hd), h1, h2⟩
    | setProc =>
        rw [hphase] at hok
        obtain ⟨h1, h2, h3⟩ := hok
        exact ⟨hcur, Or.inr hphase, Bool.eq_false_iff.mpr fun hd => hpending (h3 hd), h1, h2⟩
    | clearProc =>
        rw [hphase] at hok
        exact (hpending hok).elim

/-- A secondary core keeps the invariant. -/
theorem BootInv.hart_step (hs : BootInv b s) {h : HartId} (hstep : hartStep b s h = some s') :
    BootInv b s' := by
  cases hartStep_move hstep with
  | reset hpc =>
      have hne : ∀ idle intr, s.hart h ≠ .started idle intr := by simp [hpc]
      refine hs.hart_move hne rfl (Or.inr (Or.inl rfl)) trivial (fun _ _ hc => hc.of_hart)
        fun c hc => ?_
      exact (hs.waking c hc).keep (fun ha => ha.keep hne rfl) rfl rfl rfl
  | again hpc => exact hs
  | leave hpc hproc =>
      exact hs.advance (by simp [hpc]) (by simp [hpc]) (hs.serves_of_named hpc hproc)
  | loadIdle hpc =>
      have hold := hs.place h
      rw [hpc] at hold
      obtain ⟨c, hid, hc⟩ := hold
      exact hs.advance (by simp [hpc]) (by simp [hpc]) ⟨c, hid, hc, hc.spIdle⟩
  | loadIntr hpc =>
      have hold := hs.place h
      rw [hpc] at hold
      obtain ⟨c, hid, hc, hidle⟩ := hold
      exact hs.advance (by simp [hpc]) (by simp [hpc]) ⟨c, hid, hc, hidle, hc.spIntr⟩
  | @notify idle intr hpc =>
      have hne : ∀ idle intr, s.hart h ≠ .started idle intr := by simp [hpc]
      have hreset : s.hart h ≠ .reset := by simp [hpc]
      have hold := hs.place h
      rw [hpc] at hold
      obtain ⟨c, hid, hc, hidle, hintr⟩ := hold
      have hmem : c ∈ b.cpus := hs.suffix.subset (List.mem_of_head? hc.current)
      refine hs.hart_move hne rfl (hs.proc.hart_move hreset) ⟨c, hmem, hid, hidle, hintr⟩
        (fun d hd hserves => ?_) fun d hd => ?_
      · -- only one core is served at a time
        have hdc : d = c := Option.some.inj (hserves.current.symm.trans hc.current)
        exact absurd (hdc ▸ hid) hd
      · obtain rfl : d = c := Option.some.inj (hd.symm.trans hc.current)
        have hanswer : Function.update s.hart h (.started idle intr) d.idPhys =
            .started (b.idleTop d) (b.intrTop d) := by
          rw [hid, ← hidle, ← hintr, Function.update_self]
        rcases hc.phase with hphase | hphase
        · rw [hphase]
          exact ⟨hc.spIdle, hc.spIntr, fun _ => hanswer⟩
        · rw [hphase]
          exact ⟨hc.spIdle, hc.spIntr, fun _ => hanswer⟩

theorem BootInv.reachable {start : BootState} (hstart : start.AtReset b)
    (h : LabelledSystem.Reachable (bootStep b) start s) : BootInv b s := by
  apply h.invariant _ hstart.inv
  intro s l s' hs hstep
  cases l with
  | none => exact hs.main_step hstep
  | some i => exact hs.hart_step hstep

end Invariant

section Stacks

variable {b : BootSetup} {s : BootState}

theorem BootSetup.eq_of_idPhys (b : BootSetup) {c d : BootCpu} (hc : c ∈ b.cpus) (hd : d ∈ b.cpus)
    (h : c.idPhys = d.idPhys) : c = d :=
  List.inj_on_of_nodup_map b.phys_nodup hc hd h

theorem BootSetup.idCpu_ne (b : BootSetup) {c d : BootCpu} (hc : c ∈ b.cpus) (hd : d ∈ b.cpus)
    (h : c ≠ d) : c.idCpu ≠ d.idCpu :=
  fun heq => h (List.inj_on_of_nodup_map b.cpu_nodup hc hd heq)

/-- Areas of one size that follow each other have different ends. -/
theorem stackTop_ne {base size i j : Nat} (hsize : 0 < size) (h : i ≠ j) :
    base + (i + 1) * size ≠ base + (j + 1) * size := by
  intro heq
  have hsucc := Nat.eq_of_mul_eq_mul_right hsize (Nat.add_left_cancel heq)
  exact h (Nat.succ.inj hsucc)

/-- A core that has loaded its stacks is one of those to wake and has the stacks of its own. -/
theorem BootInv.loaded_own (hs : BootInv b s) {h : HartId} {idle intr : Nat}
    (hload : (s.hart h).loaded = some (idle, intr)) :
    ∃ c ∈ b.cpus, c.idPhys = h ∧ idle = b.idleTop c ∧ intr = b.intrTop c := by
  have hplace := hs.place h
  cases hpc : s.hart h with
  | reset | wait | loadIdle | loadIntr _ =>
      rw [hpc] at hload
      cases hload
  | notify idle' intr' =>
      rw [hpc] at hload hplace
      cases hload
      obtain ⟨c, hid, hc, htops⟩ := hplace
      exact ⟨c, hs.suffix.subset (List.mem_of_head? hc.current), hid, htops⟩
  | started idle' intr' =>
      rw [hpc] at hload hplace
      cases hload
      exact hplace

end Stacks

/-- In every interleaving a core that leaves the wait loop has the stack tops of its own index,
no two cores have a stack top in common, and a call of `cpu_riscv_wakeup` has returned only for
cores that have loaded theirs. -/
theorem wakeup_handshake_safe {b : BootSetup} {start s : BootState} (hstart : start.AtReset b)
    (hreach : LabelledSystem.Reachable (bootStep b) start s) :
    (∀ h idle intr, (s.hart h).loaded = some (idle, intr) →
      (∃ c ∈ b.cpus, c.idPhys = h) ∧
        ∀ c ∈ b.cpus, c.idPhys = h → idle = b.idleTop c ∧ intr = b.intrTop c) ∧
    (∀ h h' idle intr idle' intr', h ≠ h' → (s.hart h).loaded = some (idle, intr) →
      (s.hart h').loaded = some (idle', intr') → idle ≠ idle' ∧ intr ≠ intr') ∧
    (∀ c ∈ b.cpus, c ∉ s.rest → (s.hart c.idPhys).loaded = some (b.idleTop c, b.intrTop c)) := by
  have hs := BootInv.reachable hstart hreach
  refine ⟨?_, ?_, ?_⟩
  · intro h idle intr hload
    obtain ⟨c, hc, hid, htops⟩ := hs.loaded_own hload
    refine ⟨⟨c, hc, hid⟩, ?_⟩
    intro d hd hdid
    rw [b.eq_of_idPhys hd hc (hdid.trans hid.symm)]
    exact htops
  · intro h h' idle intr idle' intr' hne hload hload'
    obtain ⟨c, hc, hid, hidle, hintr⟩ := hs.loaded_own hload
    obtain ⟨d, hd, hid', hidle', hintr'⟩ := hs.loaded_own hload'
    have hcd : c ≠ d := fun heq => hne (by rw [← hid, ← hid', heq])
    have hcpu := b.idCpu_ne hc hd hcd
    rw [hidle, hidle', hintr, hintr']
    exact ⟨stackTop_ne b.idle_pos hcpu, stackTop_ne b.intr_pos hcpu⟩
  · intro c hc hrest
    rw [hs.returned c hc hrest]
    rfl

/-- Three cores with a gap in the table; hart 2 is the main core and hart 7 is not used. -/
def threeHarts : Nat → Option HartId
  | 0 => some 2
  | 1 => some 5
  | 3 => some 0
  | _ => none

theorem threeHarts_inj (i j : Nat) (p : HartId) (hi : threeHarts i = some p)
    (hj : threeHarts j = some p) : i = j := by
  unfold threeHarts at hi hj
  split at hi
  all_goals
    split at hj
    all_goals first | rfl | (cases hi <;> cases hj)

def threeHartsSetup : BootSetup where
  mainCore := 2
  stackIdle := 4096
  stackIntr := 65536
  idleStackSize := 512
  intrStackSize := 1024
  idle_pos := by decide
  intr_pos := by decide
  cpus := wakeList 4 threeHarts
  phys_nodup := wakeList_idPhys_nodup threeHarts_inj
  cpu_nodup := wakeList_idCpu_nodup 4 threeHarts

/-- Garbage in the notify area that names an unused hart. -/
def threeHartsStart : BootState where
  proc := 7
  spIdle := 0
  spIntr := 0
  done := true
  phase := .reset
  rest := wakeList 4 threeHarts
  hart := fun _ => .reset

/-- Hart 0 arrives while hart 5 is woken and takes its name from the notify area once. -/
def lateArrival : List (Option HartId) :=
  [none, some 7, some 7, some 5, none, none, none, none, none, some 0, some 5, none, none, some 0,
    some 5, some 5, some 5, some 5, none, none, none, none, none, none, none, some 0, some 7,
    some 0, none, some 0, some 0, none, none, none]

theorem lateArrival_end :
    ((LabelledSystem.exec (bootStep threeHartsSetup) threeHartsStart lateArrival).map fun s =>
      (s.rest, s.hart 5, s.hart 0, s.hart 7)) =
      some ([], .started 5120 67584, .started 6144 69632, .wait) := by
  decide +kernel

theorem wakeup_handshake_safe_late :
    ∃ s, LabelledSystem.exec (bootStep threeHartsSetup) threeHartsStart lateArrival = some s ∧
      s.rest = [] ∧ (s.hart 5).loaded = some (5120, 67584) ∧
      ∀ c ∈ threeHartsSetup.cpus, (s.hart c.idPhys).loaded =
        some (threeHartsSetup.idleTop c, threeHartsSetup.intrTop c) := by
  obtain ⟨s, hs, hend⟩ := Option.map_eq_some_iff.mp lateArrival_end
  have hstart : threeHartsStart.AtReset threeHartsSetup := ⟨rfl, rfl, fun _ => rfl⟩
  have hsafe := wakeup_handshake_safe hstart ⟨lateArrival, hs⟩
  have hrest : s.rest = [] := congrArg (fun p => p.1) hend
  have hfive : s.hart 5 = .started 5120 67584 := congrArg (fun p => p.2.1) hend
  refine ⟨s, hs, hrest, by rw [hfive]; rfl, fun c hc => hsafe.2.2 c hc ?_⟩
  rw [hrest]
  exact List.not_mem_nil

end BaremetalCrt
