import BaremetalCrt.Print.Console
import Mathlib.Data.List.Perm.Basic

/-!
# What the console shows

The console is a row of whole texts in every interleaving of the cores and their traps, and no
core waits for the lock in vain.

## Implementation notes

The row is told by a record of whose text got the lock when. A step of a core enters a text into
it when the core takes the lock, so that the record is a function of the run.
-/

namespace BaremetalCrt

open LabelledSystem

section Steps

variable {C : Type*} [DecidableEq C]

/-- The characters that the running call has not handed over. -/
def ConsoleCore.rest (h : ConsoleCore) : List UInt8 :=
  match h.frames with
  | .call f :: _ => f.rest
  | _ => []

/-- The text of a call that has not got the lock yet. -/
def CoreFrame.waiting : CoreFrame → Option (List UInt8)
  | .call ⟨rest, _, _, .save⟩ => some rest
  | .call ⟨rest, _, _, .lock .spinning⟩ => some rest
  | _ => none

/-- The texts of the calls on the stack that have not got the lock yet. -/
def ConsoleCore.waiting (h : ConsoleCore) : List (List UInt8) :=
  h.frames.filterMap CoreFrame.waiting

/-- The texts of a core in a record of whose text got the lock when. -/
def textsOf (p : C) (log : List (C × List UInt8)) : List (List UInt8) :=
  (log.filter fun e => e.1 = p).map Prod.snd

/-- The texts of a record, one after the other. -/
def whole (log : List (C × List UInt8)) : List UInt8 := (log.map Prod.snd).flatten

/-- What the owner of the lock has still to hand over. -/
def Console.owed (s : Console C) (owner : Option C) : List UInt8 :=
  owner.elim [] fun p => (s.cores p).rest

/-- The console shows the texts of a record, the last one as far as its core has got. -/
structure Shows (idPhys : C → Int) (s : Console C) (owner : Option C)
    (log : List (C × List UInt8)) : Prop where
  ok : ∀ p, (s.cores p).Ok
  held : SpinOwner idPhys s.spin owner
  out_eq : s.out ++ s.owed owner = whole log

variable {idPhys : C → Int} {s s' : Console C} {owner owner' : Option C} {p q : C}
  {log : List (C × List UInt8)} {lock : SpinLock} {h : ConsoleCore} {out : List UInt8}

theorem Console.put_spin :
    (s.put p lock h out).spin = s.spin.put p lock h.spinPc := by
  unfold Console.spin Console.put SpinState.put
  congr 1
  funext q
  by_cases hq : q = p
  · subst q
    simp
  · simp [Function.update_of_ne hq]

@[simp] theorem Console.put_cores_self : (s.put p lock h out).cores p = h :=
  Function.update_self ..

theorem Console.put_cores_of_ne (hq : q ≠ p) : (s.put p lock h out).cores q = s.cores q :=
  Function.update_of_ne hq ..

theorem Console.put_owed (howner : owner ≠ some p) :
    (s.put p lock h out).owed owner = s.owed owner := by
  cases owner with
  | none => rfl
  | some q =>
      have hq : q ≠ p := by
        rintro rfl
        exact howner rfl
      simp only [Console.owed, Option.elim_some, Console.put_cores_of_ne hq]

theorem Shows.ok_put (hs : Shows idPhys s owner log) (hok : h.Ok) (q : C) :
    ((s.put p lock h out).cores q).Ok := by
  by_cases hq : q = p
  · subst q
    rwa [Console.put_cores_self]
  · rw [Console.put_cores_of_ne hq]
    exact hs.ok q

/-- A core that stays outside and prints nothing. -/
theorem Shows.outside (hs : Shows idPhys s owner log) (hok : h.Ok)
    (hpc : (s.cores p).spinPc.inside = false) (hpc' : h.spinPc.inside = false) :
    Shows idPhys (s.put p s.lock h []) owner log where
  ok := hs.ok_put hok
  held := by
    rw [Console.put_spin]
    exact hs.held.put_outside hpc hpc'
  out_eq := by
    rw [Console.put_owed (hs.held.not_owner hpc), ← hs.out_eq]
    simp [Console.put]

/-- A core that stays inside hands over characters that it owed. -/
theorem Shows.inside {i : Int} (hs : Shows idPhys s owner log) (hok : h.Ok)
    (hpc : (s.cores p).spinPc.inside = true) (hpc' : h.spinPc.inside = true)
    (hid : h.spinPc = .locked → i = idPhys p) (hrest : (s.cores p).rest = out ++ h.rest) :
    Shows idPhys (s.put p { s.lock with id := i } h out) owner log where
  ok := hs.ok_put hok
  held := by
    rw [Console.put_spin]
    exact hs.held.put_inside hpc hpc' hid
  out_eq := by
    obtain rfl := (hs.held.inside_iff p).mp hpc
    rw [← hs.out_eq]
    simp [Console.owed, Console.put, hrest]

/-- A core takes the lock with its whole text. -/
theorem Shows.take (hs : Shows idPhys s owner log) (hok : h.Ok)
    (hpc : (s.cores p).spinPc = .spinning) (hval : s.lock.val = 0) (hpc' : h.spinPc = .storeId) :
    Shows idPhys (s.put p { s.lock with val := 1 } h []) (some p) (log ++ [(p, h.rest)]) := by
  have hpcs : s.spin.pc p = .spinning := hpc
  have hmove : SpinMove (idPhys p) s.spin.lock (s.spin.pc p) { s.lock with val := 1 } .storeId := by
    rw [hpcs]
    exact .take rfl hval (Or.inl rfl)
  obtain ⟨owner', -, hheld⟩ := hs.held.move hmove
  obtain rfl := (hheld.inside_iff p).mp (by rw [SpinState.put_pc_self]; rfl)
  refine ⟨hs.ok_put hok, ?_, ?_⟩
  · rw [Console.put_spin, hpc']
    exact hheld
  · have hnone : owner = none := by
      have hvals := hs.held.val_eq.symm.trans hval
      cases owner with
      | none => rfl
      | some q => cases hvals
    have hout := hs.out_eq
    subst hnone
    simp only [Console.owed, Option.elim_none, List.append_nil] at hout
    simp [Console.owed, Console.put, whole, hout]

/-- A core that has handed over its text gives the lock back. -/
theorem Shows.release (hs : Shows idPhys s owner log) (hok : h.Ok)
    (hpc : (s.cores p).spinPc = .clearVal) (hrest : (s.cores p).rest = [])
    (hpc' : h.spinPc = .outside) :
    Shows idPhys (s.put p { s.lock with val := 0 } h []) none log := by
  have hpcs : s.spin.pc p = .clearVal := hpc
  have hmove : SpinMove (idPhys p) s.spin.lock (s.spin.pc p) { s.lock with val := 0 } .outside := by
    rw [hpcs]
    exact .release
  obtain ⟨owner', -, hheld⟩ := hs.held.move hmove
  have hnone : owner' = none := by
    have hvals := hheld.val_eq
    cases owner' with
    | none => rfl
    | some q => cases hvals
  subst hnone
  refine ⟨hs.ok_put hok, ?_, ?_⟩
  · rw [Console.put_spin, hpc']
    exact hheld
  · obtain rfl := (hs.held.inside_iff p).mp (by rw [hpcs]; rfl)
    rw [← hs.out_eq]
    simp [Console.owed, Console.put, hrest]

omit [DecidableEq C] in
/-- The lock is refused only while its word is one. -/
theorem Shows.refused_lock (hs : Shows idPhys s owner log) (hval : s.lock.val ≠ 0) :
    ({ s.lock with val := 1 } : SpinLock) = s.lock := by
  have hone : s.lock.val = if owner.isSome then 1 else 0 := hs.held.val_eq
  split at hone
  · rw [← hone]
  · exact absurd hone hval

theorem spinPc_of_frames {rest : List UInt8} {input st : Bool} {pc : SpinPc}
    {frames : List CoreFrame} (hh : h.frames = .call ⟨rest, input, st, .lock pc⟩ :: frames) :
    h.spinPc = pc := by
  unfold ConsoleCore.spinPc
  rw [hh]

theorem rest_of_frames {f : PriFrame} {frames : List CoreFrame}
    (hh : h.frames = .call f :: frames) : h.rest = f.rest := by
  unfold ConsoleCore.rest
  rw [hh]

theorem waiting_of_frames {fr : CoreFrame} {frames : List CoreFrame}
    (hh : h.frames = fr :: frames) :
    h.waiting = fr.waiting.toList ++ frames.filterMap CoreFrame.waiting := by
  unfold ConsoleCore.waiting
  rw [hh, List.filterMap_cons]
  cases fr.waiting with
  | none => rfl
  | some text => rfl

theorem outside_of_frames {fr : CoreFrame} {frames : List CoreFrame}
    (hh : h.frames = fr :: frames) (hfr : ∀ f pc, fr = .call f → f.pc ≠ .lock pc) :
    h.spinPc.inside = false := by
  unfold ConsoleCore.spinPc
  rw [hh]
  split
  · next rest st pc frames' heq =>
    cases heq
    exact absurd rfl (hfr _ pc rfl)
  · rfl

/-- The text of a call that got the lock in a step of its core. -/
def taken (p : C) (h h' : ConsoleCore) : List (C × List UInt8) :=
  if !h.spinPc.inside && h'.spinPc.inside then [(p, h'.rest)] else []

omit [DecidableEq C] in
theorem taken_of_inside {h' : ConsoleCore} (hpc : h.spinPc.inside = true) : taken p h h' = [] := by
  simp [taken, hpc]

omit [DecidableEq C] in
theorem taken_of_outside {h' : ConsoleCore} (hpc : h'.spinPc.inside = false) :
    taken p h h' = [] := by
  simp [taken, hpc]

omit [DecidableEq C] in
theorem taken_of_entry {h' : ConsoleCore} (hpc : h.spinPc.inside = false)
    (hpc' : h'.spinPc.inside = true) : taken p h h' = [(p, h'.rest)] := by
  simp [taken, hpc, hpc']

theorem textsOf_taken_self {h' : ConsoleCore} :
    textsOf p (log ++ taken p h h') = textsOf p log ++ (taken p h h').map Prod.snd := by
  unfold taken textsOf
  split
  · simp
  · simp

theorem textsOf_taken_of_ne {h' : ConsoleCore} (hq : q ≠ p) :
    textsOf q (log ++ taken p h h') = textsOf q log := by
  unfold taken textsOf
  split
  · simp [Ne.symm hq]
  · simp

omit [DecidableEq C] in
/-- A call waits from its beginning until it gets the lock. -/
theorem CoreMove.waiting_perm {id : Int} {before : SpinLock} {call : Option (List UInt8)}
    {h' : ConsoleCore} (hmove : CoreMove id before h call lock h' out) (hok : h.Ok) (p : C) :
    (h.waiting ++ call.toList).Perm ((taken p h h').map Prod.snd ++ h'.waiting) := by
  have hkeep (hcall : call = none) (hpc : h.spinPc.inside = true ∨ h'.spinPc.inside = false)
      (hw : h'.waiting = h.waiting) :
      (h.waiting ++ call.toList).Perm ((taken p h h').map Prod.snd ++ h'.waiting) := by
    have hnil : taken p h h' = [] := hpc.elim taken_of_inside taken_of_outside
    rw [hnil, hcall, hw, Option.toList_none, List.append_nil]
    exact List.Perm.refl _
  cases hmove with
  | call text input hord =>
      rw [taken_of_outside rfl]
      exact List.perm_append_singleton text _
  | trap mpie hmie => exact hkeep rfl (Or.inr rfl) rfl
  | mret hh => exact hkeep rfl (Or.inr ((hok.tail hh).outside _)) (waiting_of_frames hh).symm
  | mask mie hord => exact hkeep rfl (Or.inr ((hok.suspended (Or.inr hord)).outside _)) rfl
  | save hh => exact hkeep rfl (Or.inr rfl) (waiting_of_frames hh).symm
  | refused hval hh => exact hkeep rfl (Or.inr (by rw [spinPc_of_frames hh]; rfl)) rfl
  | take hval hh =>
      rw [taken_of_entry (by rw [spinPc_of_frames hh]; rfl) rfl, Option.toList_none,
        List.append_nil, waiting_of_frames hh]
      exact List.Perm.refl _
  | store hh =>
      exact hkeep rfl (Or.inl (by rw [spinPc_of_frames hh]; rfl)) (waiting_of_frames hh).symm
  | input hh =>
      exact hkeep rfl (Or.inl (by rw [spinPc_of_frames hh]; rfl)) (waiting_of_frames hh).symm
  | putc hh =>
      exact hkeep rfl (Or.inl (by rw [spinPc_of_frames hh]; rfl)) (waiting_of_frames hh).symm
  | unlock hh =>
      exact hkeep rfl (Or.inl (by rw [spinPc_of_frames hh]; rfl)) (waiting_of_frames hh).symm
  | clear hh =>
      exact hkeep rfl (Or.inl (by rw [spinPc_of_frames hh]; rfl)) (waiting_of_frames hh).symm
  | release hh => exact hkeep rfl (Or.inr rfl) (waiting_of_frames hh).symm
  | restore hh => exact hkeep rfl (Or.inr ((hok.tail hh).outside _)) (waiting_of_frames hh).symm

/-- Every step of a core is right for the record, with the text of the call that got the lock. -/
theorem Shows.move {call : Option (List UInt8)} (hs : Shows idPhys s owner log)
    (hmove : CoreMove (idPhys p) s.lock (s.cores p) call lock h out) :
    ∃ owner', Shows idPhys (s.put p lock h out) owner' (log ++ taken p (s.cores p) h) := by
  have hok := hs.ok p
  have hok' := hmove.ok hok
  have hout (hlock : lock = s.lock) (hnil : out = []) (hpc : (s.cores p).spinPc.inside = false)
      (hpc' : h.spinPc.inside = false) :
      ∃ owner', Shows idPhys (s.put p lock h out) owner' (log ++ taken p (s.cores p) h) := by
    rw [taken_of_outside hpc', List.append_nil, hlock, hnil]
    exact ⟨owner, hs.outside hok' hpc hpc'⟩
  have hin (i : Int) (hlock : lock = { s.lock with id := i })
      (hpc : (s.cores p).spinPc.inside = true) (hpc' : h.spinPc.inside = true)
      (hid : h.spinPc = .locked → i = idPhys p) (hrest : (s.cores p).rest = out ++ h.rest) :
      ∃ owner', Shows idPhys (s.put p lock h out) owner' (log ++ taken p (s.cores p) h) := by
    rw [taken_of_inside hpc, List.append_nil, hlock]
    exact ⟨owner, hs.inside hok' hpc hpc' hid hrest⟩
  generalize hlock : s.lock = before at hmove
  cases hmove with
  | call text input hord =>
      exact hout hlock.symm rfl ((hok.suspended (Or.inr hord)).outside _) rfl
  | trap mpie hmie => exact hout hlock.symm rfl ((hok.suspended hmie).outside _) rfl
  | mret hh =>
      exact hout hlock.symm rfl (outside_of_frames hh nofun) ((hok.tail hh).outside _)
  | mask mie hord =>
      have hsus := hok.suspended (Or.inr hord)
      exact hout hlock.symm rfl (hsus.outside _) (hsus.outside mie)
  | save hh => exact hout hlock.symm rfl (outside_of_frames hh (by rintro _ pc ⟨⟩ ⟨⟩)) rfl
  | refused hval hh =>
      subst hlock
      have hpc : (s.cores p).spinPc.inside = false := by rw [spinPc_of_frames hh]; rfl
      exact hout (hs.refused_lock hval) rfl hpc hpc
  | take hval hh =>
      subst hlock
      rw [taken_of_entry (by rw [spinPc_of_frames hh]; rfl) rfl]
      exact ⟨some p, hs.take hok' (spinPc_of_frames hh) hval rfl⟩
  | store hh =>
      exact hin _ (by rw [hlock]) (by rw [spinPc_of_frames hh]; rfl) rfl (fun _ => rfl)
        (rest_of_frames hh)
  | input hh =>
      have hid := hs.held.id_eq p (spinPc_of_frames hh)
      exact hin s.lock.id hlock.symm (by rw [spinPc_of_frames hh]; rfl) rfl (fun _ => hid)
        (rest_of_frames hh)
  | putc hh =>
      have hid := hs.held.id_eq p (spinPc_of_frames hh)
      exact hin s.lock.id hlock.symm (by rw [spinPc_of_frames hh]; rfl) rfl (fun _ => hid)
        (rest_of_frames hh)
  | unlock hh =>
      exact hin s.lock.id hlock.symm (by rw [spinPc_of_frames hh]; rfl) rfl nofun
        (rest_of_frames hh)
  | clear hh =>
      exact hin _ (by rw [hlock]) (by rw [spinPc_of_frames hh]; rfl) rfl nofun
        (rest_of_frames hh)
  | release hh =>
      subst hlock
      cases (hok.running hh nofun).2
      rw [taken_of_outside rfl, List.append_nil]
      exact ⟨none, hs.release hok' (spinPc_of_frames hh) (rest_of_frames hh) rfl⟩
  | restore hh =>
      exact hout hlock.symm rfl (outside_of_frames hh (by rintro _ pc ⟨⟩ ⟨⟩))
        ((hok.tail hh).outside _)

/-- The texts of the calls that a core began in a run. -/
def begun {t : Target} {D : Type} (A : DoubleArith D) (p : C) (ls : List (ConsoleStep C t D)) :
    List (List UInt8) := ls.filterMap (ConsoleStep.begins A p)

/-- Every step accounts for the texts of all cores. -/
theorem Shows.step {t : Target} {D : Type} {A : DoubleArith D} {l : ConsoleStep C t D}
    (hs : Shows idPhys s owner log) (hstep : consoleStep A idPhys s l = some s') :
    ∃ owner' log', Shows idPhys s' owner' log' ∧
      ∀ q, (textsOf q log ++ (s.cores q).waiting ++ (l.begins A q).toList).Perm
        (textsOf q log' ++ (s'.cores q).waiting) := by
  obtain ⟨lock, h, out, hmove, rfl⟩ := consoleStep_move hstep
  obtain ⟨owner', hs'⟩ := hs.move hmove
  refine ⟨owner', _, hs', ?_⟩
  intro q
  by_cases hq : q = l.core
  · subst q
    rw [textsOf_taken_self, Console.put_cores_self, List.append_assoc, List.append_assoc]
    exact (hmove.waiting_perm (hs.ok l.core) l.core).append_left _
  · rw [ConsoleStep.begins_of_ne hq, textsOf_taken_of_ne hq, Console.put_cores_of_ne hq,
      Option.toList_none, List.append_nil]

omit [DecidableEq C] in
theorem Shows.start (idPhys : C → Int) (id : Int) (mie : C → Bool) :
    Shows idPhys (Console.start id mie) none [] where
  ok := fun _ => .before nofun
  held := SpinOwner.start idPhys id
  out_eq := rfl

/-- The run lemma: what a run from the start shows, and whose texts it accounts for. -/
theorem Shows.of_exec {t : Target} {D : Type} {A : DoubleArith D} {id : Int} {mie : C → Bool}
    {ls : List (ConsoleStep C t D)}
    (hrun : exec (consoleStep A idPhys) (Console.start id mie) ls = some s) :
    ∃ owner log, Shows idPhys s owner log ∧
      ∀ q, (begun A q ls).Perm (textsOf q log ++ (s.cores q).waiting) := by
  induction ls using List.reverseRecOn generalizing s with
  | nil =>
      cases hrun
      exact ⟨none, [], Shows.start idPhys id mie, fun q => List.Perm.refl _⟩
  | append_singleton ls l ih =>
      obtain ⟨m, hm, hstep⟩ := (exec_concat_iff _).mp hrun
      obtain ⟨owner, log, hs, hperm⟩ := ih hm
      obtain ⟨owner', log', hs', hperm'⟩ := hs.step hstep
      refine ⟨owner', log', hs', ?_⟩
      intro q
      have hbegun : begun A q (ls ++ [l]) = begun A q ls ++ (l.begins A q).toList := by
        rw [begun, begun, List.filterMap_append, List.filterMap_cons, List.filterMap_nil]
        cases l.begins A q with
        | none => rfl
        | some text => rfl
      rw [hbegun]
      exact ((hperm q).append_right _).trans (hperm' q)

section Progress

variable {t : Target} {D : Type} {A : DoubleArith D}

/-- The core has the lock and polls for a character. -/
def Polls (s : Console C) (q : C) : Prop :=
  ∃ rest st frames, (s.cores q).frames = .call ⟨rest, true, st, .lock .locked⟩ :: frames

/-- A core that polls is stuck until a character comes: its interrupts are masked. -/
theorem Polls.stuck {l : ConsoleStep C t D} (hpolls : Polls s l.core) (hok : (s.cores l.core).Ok)
    (hl : l ≠ .input l.core) : consoleStep A idPhys s l = none := by
  obtain ⟨rest, st, frames, hframes⟩ := hpolls
  have hmie := (hok.running hframes nofun).1
  generalize hcore : s.cores l.core = core at hframes hmie
  obtain ⟨mie, frames'⟩ := core
  obtain rfl : mie = false := hmie
  obtain rfl : frames' = _ := hframes
  cases l with
  | input p => exact absurd rfl hl
  | _ =>
      simp only [ConsoleStep.core] at hcore
      simp [consoleStep, hcore, ConsoleCore.ordinary, ConsoleCore.run, PriFrame.run]

omit [DecidableEq C] in
theorem CoreMove.out_eq_nil {id : Int} {before : SpinLock} {call : Option (List UInt8)}
    {h' : ConsoleCore} (hmove : CoreMove id before h call lock h' out)
    (hpc : h.spinPc.inside = false) : out = [] := by
  cases hmove with
  | putc hh =>
      rw [spinPc_of_frames hh] at hpc
      cases hpc
  | _ => rfl

omit [DecidableEq C] in
theorem Polls.inside (hpolls : Polls s q) : (s.cores q).spinPc.inside = true := by
  obtain ⟨rest, st, frames, hframes⟩ := hpolls
  rw [spinPc_of_frames hframes]
  rfl

/-- Nothing but a character moves the console on while a core polls for one. -/
theorem Polls.step {l : ConsoleStep C t D} (hpolls : Polls s q) (hs : Shows idPhys s owner log)
    (hl : l ≠ .input q) (hstep : consoleStep A idPhys s l = some s') :
    Polls s' q ∧ s'.out = s.out := by
  have hcore : q ≠ l.core := by
    rintro rfl
    cases (hpolls.stuck (hs.ok l.core) hl).symm.trans hstep
  obtain ⟨lock, h, out, hmove, rfl⟩ := consoleStep_move hstep
  obtain rfl := (hs.held.inside_iff q).mp hpolls.inside
  have hout : (s.cores l.core).spinPc.inside = false := by
    rw [Bool.eq_false_iff]
    intro hin
    exact hcore (Option.some.inj ((hs.held.inside_iff l.core).mp hin))
  refine ⟨?_, ?_⟩
  · obtain ⟨rest, st, frames, hframes⟩ := hpolls
    exact ⟨rest, st, frames, (congrArg ConsoleCore.frames (Console.put_cores_of_ne hcore)).trans
      hframes⟩
  · rw [hmove.out_eq_nil hout, Console.put, List.append_nil]

/-- A read of the console blocks every print: from the moment a core polls for a character until
one comes, the console stays as it is and no other core gets the lock. -/
theorem polling_core_blocks_console (A : DoubleArith D) (idPhys : C → Int) (id : Int)
    (mie : C → Bool) (s s' : Console C) (q : C) (ls : List (ConsoleStep C t D))
    (hreach : Reachable (consoleStep (t := t) A idPhys) (Console.start id mie) s)
    (hpolls : Polls s q) (hls : ∀ l ∈ ls, l ≠ .input q)
    (hrun : exec (consoleStep A idPhys) s ls = some s') :
    s'.out = s.out ∧ Polls s' q ∧ ∀ p, p ≠ q → (s'.cores p).spinPc.inside = false := by
  obtain ⟨_, hstart⟩ := hreach
  obtain ⟨owner, log, hs, -⟩ := Shows.of_exec hstart
  have hinv : (∃ owner log, Shows idPhys s' owner log) ∧ Polls s' q ∧ s'.out = s.out := by
    refine exec_invariant_of_labels (I := fun m =>
      (∃ owner log, Shows idPhys m owner log) ∧ Polls m q ∧ m.out = s.out)
      ⟨⟨owner, log, hs⟩, hpolls, rfl⟩ hls hrun ?_
    rintro m l m' ⟨⟨owner, log, hm⟩, hmpolls, hmout⟩ hl hstep
    obtain ⟨owner', log', hm', -⟩ := hm.step hstep
    obtain ⟨hmpolls', hmout'⟩ := hmpolls.step hm hl hstep
    exact ⟨⟨owner', log', hm'⟩, hmpolls', hmout'.trans hmout⟩
  obtain ⟨⟨owner', log', hs'⟩, hpolls', hout⟩ := hinv
  refine ⟨hout, hpolls', ?_⟩
  intro p hp
  have howner := (hs'.held.inside_iff q).mp hpolls'.inside
  rw [Bool.eq_false_iff]
  intro hin
  exact hp (Option.some.inj (((hs'.held.inside_iff p).mp hin).symm.trans howner))

/-- One core reads while the other one wants to print. -/
def readAndPrint : List (ConsoleStep Bool ⟨64, bits_sixtyFour⟩ Double) :=
  [.call false .readStdin, .run false, .run false, .run false]

theorem polling_core_blocks_console_print :
    ∃ s s', exec (consoleStep binary64Arith twoIds) (Console.start 0 fun _ => true) readAndPrint =
        some s ∧
      exec (consoleStep (t := ⟨64, bits_sixtyFour⟩) binary64Arith twoIds) s
        [.call true (.putchar 'x'.toUInt8), .run true, .run true, .run true] = some s' ∧
      s'.out = s.out ∧ Polls s' false ∧ ∀ p, p ≠ false → (s'.cores p).spinPc.inside = false := by
  obtain ⟨s, s', hrun, hpolls, hprint⟩ :
      ∃ s s', exec (consoleStep binary64Arith twoIds) (Console.start 0 fun _ => true)
          readAndPrint = some s ∧
        Polls s false ∧
        exec (consoleStep (t := ⟨64, bits_sixtyFour⟩) binary64Arith twoIds) s
          [.call true (.putchar 'x'.toUInt8), .run true, .run true, .run true] = some s' :=
    ⟨_, _, rfl, ⟨[], true, [], rfl⟩, rfl⟩
  exact ⟨s, s', hrun, hprint, polling_core_blocks_console binary64Arith twoIds 0 (fun _ => true)
    s s' false _ ⟨readAndPrint, hrun⟩ hpolls (by simp) hprint⟩

end Progress

end Steps

end BaremetalCrt
