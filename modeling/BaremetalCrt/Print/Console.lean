import BaremetalCrt.Library.Runs
import BaremetalCrt.Print.Vsnprintf
import BaremetalCrt.Sys.Lock

/-!
# The console between the cores and their traps

Every function that prints masks the interrupts of its core, takes `k_pri_lock`, hands its
characters over one by one, gives the lock back and restores what the mask was. A trap handler
prints as well, on the core whose code it interrupted.

## Implementation notes

A core has a stack of what it was in the middle of: traps, with the mask that `mret` brings back,
and calls that print. Only the top runs. The cores take their steps in any order, one access to
the lock or one character each. Interrupts arrive whenever they are enabled. A trap of another
kind, such as a system call, comes from code that is not in a call that prints, and so does a
change of the mask or of the thread. The calls take the lock with `k_spinlock_lock` alone. A call
that reads has no step while the driver polls for a character.
-/

namespace BaremetalCrt

open LabelledSystem

section Calls

variable {σ : Type}

/-- `k_puts_nolock`, over what `k_putchar_nolock` does with a character. -/
def kPutsNolock (kPutcharNolock : σ → UInt8 → σ) (console : σ) (s : CStr) (newline : Bool) : σ :=
  let console := s.bytes.foldl kPutcharNolock console
  if newline then kPutcharNolock console '\n'.toUInt8 else console

/-- The calls that take `k_pri_lock`. -/
inductive PriCall (t : Target) (D : Type) where
  /-- `k_pri_read_stdin`. -/
  | readStdin
  /-- `k_pri_write_stdout`, with the bytes up to the count. -/
  | writeStdout (s : List UInt8)
  /-- `k_putchar`. -/
  | putchar (c : UInt8)
  /-- `k_puts`. -/
  | puts (s : CStr)
  /-- `k_vprintf`, also for `k_printf`. -/
  | vprintf (format : CStr) (args : List (VaArg t D))
  /-- `k_vsnprintf`, also for `k_vsprintf`, `k_snprintf` and `k_sprintf`. -/
  | vsnprintf (buffer : Option (Nat → UInt8)) (count : Nat) (format : CStr)
      (args : List (VaArg t D))

/-- What a call does to the console while it has the lock. -/
def PriCall.body {t : Target} {D : Type} (A : DoubleArith D) (kPutcharNolock : σ → UInt8 → σ)
    (console : σ) : PriCall t D → Option σ
  | .readStdin => some console
  | .writeStdout s => some (s.foldl kPutcharNolock console)
  | .putchar c => some (kPutcharNolock console c)
  | .puts s => some (kPutsNolock kPutcharNolock console s true)
  | .vprintf format args => (kVprintfNolock A kPutcharNolock console format args).map Prod.fst
  | .vsnprintf buffer count format args =>
      (kVsnprintfNolock A buffer count format args).map fun _ => console

/-- The characters that a call hands over, in order. -/
def PriCall.text {t : Target} {D : Type} (A : DoubleArith D) (call : PriCall t D) :
    Option (List UInt8) :=
  call.body A (fun console c => console ++ [c]) []

/-- `k_getchar_nolock` is called. The drivers poll in it until a character has come. -/
def PriCall.reads {t : Target} {D : Type} : PriCall t D → Bool
  | .readStdin => true
  | _ => false

end Calls

/-- Where a call that prints is. -/
inductive PriPc where
  /-- Before `k_intr_save_local`. -/
  | save
  /-- In or between `k_spinlock_lock` and `k_spinlock_unlock`. -/
  | lock (pc : SpinPc)
  /-- Before `k_intr_restore_local`. -/
  | restore
  deriving DecidableEq

/-- A call that prints: the characters still to come, whether `k_getchar_nolock` has to return
first, and the mask in `st`. -/
structure PriFrame where
  rest : List UInt8
  input : Bool
  st : Bool
  pc : PriPc

/-- What a core was in the middle of. -/
inductive CoreFrame where
  | trap (mpie : Bool)
  | call (f : PriFrame)

/-- A core: whether its interrupts are enabled, and its stack. -/
structure ConsoleCore where
  mie : Bool
  frames : List CoreFrame

/-- What a step of a call leaves. -/
structure PriMove where
  lock : SpinLock
  mie : Bool
  out : List UInt8
  frame : Option PriFrame

/-- The next step of a call on the core with the number `id`. -/
def PriFrame.run (id : Int) (lock : SpinLock) (mie : Bool) (f : PriFrame) : Option PriMove :=
  match f.pc with
  | .save => some ⟨lock, false, [], some { f with st := mie, pc := .lock .spinning }⟩
  | .lock .locked =>
      match f.input, f.rest with
      | true, _ => none
      | false, c :: rest => some ⟨lock, mie, [c], some { f with rest := rest }⟩
      | false, [] => some ⟨lock, mie, [], some { f with pc := .lock .clearId }⟩
  | .lock .trying | .lock .tried => none
  | .lock pc =>
      (pc.access id lock).map fun (lock, pc) =>
        ⟨lock, mie, [], some { f with pc := if pc = .outside then .restore else .lock pc }⟩
  | .restore => some ⟨lock, f.st, [], none⟩

/-- The core runs code that is not in a call that prints. -/
def ConsoleCore.ordinary (h : ConsoleCore) : Bool :=
  match h.frames with
  | .call _ :: _ => false
  | _ => true

/-- Where the core is in the code of the lock. -/
def ConsoleCore.spinPc (h : ConsoleCore) : SpinPc :=
  match h.frames with
  | .call ⟨_, _, _, .lock pc⟩ :: _ => pc
  | _ => .outside

/-- The console, its lock and the cores. -/
structure Console (C : Type*) where
  lock : SpinLock
  cores : C → ConsoleCore
  out : List UInt8

/-- A step of a core. -/
inductive ConsoleStep (C : Type*) (t : Target) (D : Type) where
  | call (p : C) (call : PriCall t D)
  | run (p : C)
  /-- A character has come, or `k_getchar_nolock` returns `EOF`. -/
  | input (p : C)
  | interrupt (p : C)
  | exception (p : C)
  | mret (p : C)
  | mask (p : C) (mie : Bool)

section Steps

variable {C : Type*}

/-- Nobody has printed, and no core is in a trap. -/
def Console.start (id : Int) (mie : C → Bool) : Console C :=
  ⟨⟨0, id⟩, fun p => ⟨mie p, []⟩, []⟩

/-- The lock as its users see it. -/
def Console.spin (s : Console C) : SpinState C := ⟨s.lock, fun p => (s.cores p).spinPc⟩

variable [DecidableEq C]

/-- One core moves on. -/
def Console.put (s : Console C) (p : C) (lock : SpinLock) (h : ConsoleCore) (out : List UInt8) :
    Console C :=
  ⟨lock, Function.update s.cores p h, s.out ++ out⟩

/-- The frame of a call after its step, if it has not returned. -/
def PriMove.core (m : PriMove) (frames : List CoreFrame) : ConsoleCore :=
  ⟨m.mie, (m.frame.map CoreFrame.call).toList ++ frames⟩

/-- The next step of the call on top of a stack. -/
def ConsoleCore.run (id : Int) (lock : SpinLock) (h : ConsoleCore) :
    Option (SpinLock × ConsoleCore × List UInt8) :=
  match h.frames with
  | .call f :: frames => (f.run id lock h.mie).map fun m => (m.lock, m.core frames, m.out)
  | _ => none

/-- `k_getchar_nolock` returns on top of a stack. -/
def ConsoleCore.input (h : ConsoleCore) : Option ConsoleCore :=
  match h.frames with
  | .call ⟨rest, true, st, .lock .locked⟩ :: frames =>
      some { h with frames := .call ⟨rest, false, st, .lock .locked⟩ :: frames }
  | _ => none

/-- The steps of the cores. -/
def consoleStep {t : Target} {D : Type} (A : DoubleArith D) (idPhys : C → Int) (s : Console C) :
    ConsoleStep C t D → Option (Console C)
  | .call p call =>
      let h := s.cores p
      if h.ordinary then
        (call.text A).map fun text =>
          s.put p s.lock { h with frames := .call ⟨text, call.reads, false, .save⟩ :: h.frames } []
      else none
  | .run p =>
      ((s.cores p).run (idPhys p) s.lock).map fun (lock, h, out) => s.put p lock h out
  | .input p => (s.cores p).input.map fun h => s.put p s.lock h []
  | .interrupt p =>
      let h := s.cores p
      if h.mie then some (s.put p s.lock ⟨false, .trap true :: h.frames⟩ []) else none
  | .exception p =>
      let h := s.cores p
      if h.ordinary then some (s.put p s.lock ⟨false, .trap h.mie :: h.frames⟩ []) else none
  | .mret p =>
      match (s.cores p).frames with
      | .trap mpie :: frames => some (s.put p s.lock ⟨mpie, frames⟩ [])
      | _ => none
  | .mask p mie =>
      let h := s.cores p
      if h.ordinary then some (s.put p s.lock { h with mie := mie } []) else none

/-- What a step of a core does: the text of a call that it begins, the lock, the core and the
characters that it leaves. -/
inductive CoreMove (id : Int) (lock : SpinLock) (h : ConsoleCore) :
    Option (List UInt8) → SpinLock → ConsoleCore → List UInt8 → Prop
  | call (text : List UInt8) (input : Bool) (hord : h.ordinary = true) :
      CoreMove id lock h (some text) lock
        { h with frames := .call ⟨text, input, false, .save⟩ :: h.frames } []
  | trap (mpie : Bool) (hmie : h.mie = true ∨ h.ordinary = true) :
      CoreMove id lock h none lock ⟨false, .trap mpie :: h.frames⟩ []
  | mret {mpie : Bool} {frames : List CoreFrame} (hh : h.frames = .trap mpie :: frames) :
      CoreMove id lock h none lock ⟨mpie, frames⟩ []
  | mask (mie : Bool) (hord : h.ordinary = true) :
      CoreMove id lock h none lock { h with mie := mie } []
  | save {rest : List UInt8} {input st : Bool} {frames : List CoreFrame}
      (hh : h.frames = .call ⟨rest, input, st, .save⟩ :: frames) :
      CoreMove id lock h none lock ⟨false, .call ⟨rest, input, h.mie, .lock .spinning⟩ :: frames⟩ []
  | refused {rest : List UInt8} {input st : Bool} {frames : List CoreFrame} (hval : lock.val ≠ 0)
      (hh : h.frames = .call ⟨rest, input, st, .lock .spinning⟩ :: frames) :
      CoreMove id lock h none { lock with val := 1 } h []
  | take {rest : List UInt8} {input st : Bool} {frames : List CoreFrame} (hval : lock.val = 0)
      (hh : h.frames = .call ⟨rest, input, st, .lock .spinning⟩ :: frames) :
      CoreMove id lock h none { lock with val := 1 }
        { h with frames := .call ⟨rest, input, st, .lock .storeId⟩ :: frames } []
  | store {rest : List UInt8} {input st : Bool} {frames : List CoreFrame}
      (hh : h.frames = .call ⟨rest, input, st, .lock .storeId⟩ :: frames) :
      CoreMove id lock h none { lock with id := id }
        { h with frames := .call ⟨rest, input, st, .lock .locked⟩ :: frames } []
  | input {rest : List UInt8} {st : Bool} {frames : List CoreFrame}
      (hh : h.frames = .call ⟨rest, true, st, .lock .locked⟩ :: frames) :
      CoreMove id lock h none lock
        { h with frames := .call ⟨rest, false, st, .lock .locked⟩ :: frames } []
  | putc {c : UInt8} {rest : List UInt8} {input st : Bool} {frames : List CoreFrame}
      (hh : h.frames = .call ⟨c :: rest, false, st, .lock .locked⟩ :: frames) :
      CoreMove id lock h none lock
        { h with frames := .call ⟨rest, input, st, .lock .locked⟩ :: frames } [c]
  | unlock {st : Bool} {frames : List CoreFrame}
      (hh : h.frames = .call ⟨[], false, st, .lock .locked⟩ :: frames) :
      CoreMove id lock h none lock
        { h with frames := .call ⟨[], false, st, .lock .clearId⟩ :: frames } []
  | clear {rest : List UInt8} {input st : Bool} {frames : List CoreFrame}
      (hh : h.frames = .call ⟨rest, input, st, .lock .clearId⟩ :: frames) :
      CoreMove id lock h none { lock with id := -1 }
        { h with frames := .call ⟨rest, input, st, .lock .clearVal⟩ :: frames } []
  | release {rest : List UInt8} {input st : Bool} {frames : List CoreFrame}
      (hh : h.frames = .call ⟨rest, input, st, .lock .clearVal⟩ :: frames) :
      CoreMove id lock h none { lock with val := 0 }
        { h with frames := .call ⟨rest, input, st, .restore⟩ :: frames } []
  | restore {rest : List UInt8} {input st : Bool} {frames : List CoreFrame}
      (hh : h.frames = .call ⟨rest, input, st, .restore⟩ :: frames) :
      CoreMove id lock h none lock ⟨st, frames⟩ []

/-- The core that takes a step. -/
def ConsoleStep.core {t : Target} {D : Type} : ConsoleStep C t D → C
  | .call p _ | .run p | .input p | .interrupt p | .exception p | .mret p | .mask p _ => p

/-- The text of a call that a step begins on a core. -/
def ConsoleStep.begins {t : Target} {D : Type} (A : DoubleArith D) (p : C) :
    ConsoleStep C t D → Option (List UInt8)
  | .call q c => if q = p then c.text A else none
  | _ => none

section Exchange

variable {id : Int} {lock : SpinLock} {mie input st : Bool} {rest : List UInt8} {frames : List CoreFrame}

theorem ConsoleCore.run_take (hval : lock.val = 0) :
    ConsoleCore.run id lock ⟨mie, .call ⟨rest, input, st, .lock .spinning⟩ :: frames⟩ =
      some ({ lock with val := 1 }, ⟨mie, .call ⟨rest, input, st, .lock .storeId⟩ :: frames⟩, []) := by
  simp [ConsoleCore.run, PriFrame.run, SpinPc.access, kArchGenSpinlockTrylock, kAexchange, hval,
    PriMove.core]

theorem ConsoleCore.run_refused (hval : lock.val ≠ 0) :
    ConsoleCore.run id lock ⟨mie, .call ⟨rest, input, st, .lock .spinning⟩ :: frames⟩ =
      some ({ lock with val := 1 }, ⟨mie, .call ⟨rest, input, st, .lock .spinning⟩ :: frames⟩, []) := by
  simp [ConsoleCore.run, PriFrame.run, SpinPc.access, kArchGenSpinlockTrylock, kAexchange, hval,
    PriMove.core]

end Exchange

theorem ConsoleCore.run_move {id : Int} {lock lock' : SpinLock} {h h' : ConsoleCore}
    {out : List UInt8} (hrun : h.run id lock = some (lock', h', out)) :
    CoreMove id lock h none lock' h' out := by
  obtain ⟨mie, frames⟩ := h
  cases frames with
  | nil => cases hrun
  | cons fr frames =>
      cases fr with
      | trap mpie => cases hrun
      | call f =>
          obtain ⟨rest, input, st, pc⟩ := f
          cases pc with
          | save =>
              cases hrun
              exact .save rfl
          | restore =>
              cases hrun
              exact .restore rfl
          | lock pc =>
              cases pc with
              | outside => cases hrun
              | trying => cases hrun
              | tried => cases hrun
              | spinning =>
                  by_cases hval : lock.val = 0
                  · cases (ConsoleCore.run_take hval).symm.trans hrun
                    exact .take hval rfl
                  · cases (ConsoleCore.run_refused hval).symm.trans hrun
                    exact .refused hval rfl
              | storeId =>
                  cases hrun
                  exact .store rfl
              | locked =>
                  cases input with
                  | true => cases hrun
                  | false =>
                      cases rest with
                      | nil =>
                          cases hrun
                          exact .unlock rfl
                      | cons c rest =>
                          cases hrun
                          exact .putc rfl
              | clearId =>
                  cases hrun
                  exact .clear rfl
              | clearVal =>
                  cases hrun
                  exact .release rfl

theorem ConsoleCore.input_move {id : Int} {lock : SpinLock} {h h' : ConsoleCore}
    (hinput : h.input = some h') : CoreMove id lock h none lock h' [] := by
  unfold ConsoleCore.input at hinput
  split at hinput
  · next rest st frames hframes =>
    cases hinput
    exact .input hframes
  · cases hinput

/-- Every step is a move of its core. -/
theorem consoleStep_move {t : Target} {D : Type} {A : DoubleArith D} {idPhys : C → Int}
    {s s' : Console C} {l : ConsoleStep C t D} (h : consoleStep A idPhys s l = some s') :
    ∃ lock core out,
      CoreMove (idPhys l.core) s.lock (s.cores l.core) (l.begins A l.core) lock core out ∧
      s' = s.put l.core lock core out := by
  cases l with
  | call p call =>
      simp only [consoleStep] at h
      split at h
      · next hord =>
        obtain ⟨text, htext, rfl⟩ := Option.map_eq_some_iff.mp h
        have hbegins : (ConsoleStep.call p call).begins A p = some text := by
          rw [ConsoleStep.begins, if_pos rfl, htext]
        refine ⟨_, _, _, ?_, rfl⟩
        rw [ConsoleStep.core, hbegins]
        exact .call text _ hord
      · cases h
  | run p =>
      obtain ⟨⟨lock, core, out⟩, hrun, rfl⟩ := Option.map_eq_some_iff.mp h
      exact ⟨lock, core, out, ConsoleCore.run_move hrun, rfl⟩
  | input p =>
      obtain ⟨core, hinput, rfl⟩ := Option.map_eq_some_iff.mp h
      exact ⟨_, core, _, ConsoleCore.input_move hinput, rfl⟩
  | interrupt p =>
      simp only [consoleStep] at h
      split at h
      · next hmie =>
        cases h
        exact ⟨_, _, _, .trap true (Or.inl hmie), rfl⟩
      · cases h
  | exception p =>
      simp only [consoleStep] at h
      split at h
      · next hord =>
        cases h
        exact ⟨_, _, _, .trap _ (Or.inr hord), rfl⟩
      · cases h
  | mret p =>
      simp only [consoleStep] at h
      split at h
      · next mpie frames hframes =>
        cases h
        exact ⟨_, _, _, .mret hframes, rfl⟩
      · cases h
  | mask p mie =>
      simp only [consoleStep] at h
      split at h
      · next hord =>
        cases h
        exact ⟨_, _, _, .mask mie hord, rfl⟩
      · cases h

theorem ConsoleStep.begins_of_ne {t : Target} {D : Type} {A : DoubleArith D} {q : C}
    {l : ConsoleStep C t D} (hq : q ≠ l.core) : l.begins A q = none := by
  cases l with
  | call p call => exact if_neg (Ne.symm hq)
  | _ => rfl

/-- No call on the stack has gone past `k_intr_save_local`. -/
def Suspended (frames : List CoreFrame) : Prop := ∀ f, CoreFrame.call f ∈ frames → f.pc = .save

/-- A call past `k_intr_save_local`. It has handed over all its characters once it starts to give
the lock back. -/
inductive PriFrame.Past : PriFrame → Prop
  | spinning (rest : List UInt8) (input st : Bool) : PriFrame.Past ⟨rest, input, st, .lock .spinning⟩
  | storeId (rest : List UInt8) (input st : Bool) : PriFrame.Past ⟨rest, input, st, .lock .storeId⟩
  | locked (rest : List UInt8) (input st : Bool) : PriFrame.Past ⟨rest, input, st, .lock .locked⟩
  | clearId (st : Bool) : PriFrame.Past ⟨[], false, st, .lock .clearId⟩
  | clearVal (st : Bool) : PriFrame.Past ⟨[], false, st, .lock .clearVal⟩
  | restore (st : Bool) : PriFrame.Past ⟨[], false, st, .restore⟩

/-- No call of the core is past `k_intr_save_local`, or the running one alone is, with the
interrupts masked. -/
inductive ConsoleCore.Ok : ConsoleCore → Prop
  | before {h : ConsoleCore} (hframes : Suspended h.frames) : ConsoleCore.Ok h
  | past {f : PriFrame} {frames : List CoreFrame} (hframes : Suspended frames) (hf : f.Past) :
      ConsoleCore.Ok ⟨false, .call f :: frames⟩

theorem Suspended.cons_trap {frames : List CoreFrame} (h : Suspended frames) (mpie : Bool) :
    Suspended (.trap mpie :: frames) := by
  intro f hf
  rcases List.mem_cons.mp hf with hf | hf
  · cases hf
  · exact h f hf

theorem Suspended.cons_call {frames : List CoreFrame} {f : PriFrame} (h : Suspended frames)
    (hpc : f.pc = .save) : Suspended (.call f :: frames) := by
  intro g hg
  rcases List.mem_cons.mp hg with hg | hg
  · cases hg
    exact hpc
  · exact h g hg

theorem Suspended.tail {frames : List CoreFrame} {fr : CoreFrame} (h : Suspended (fr :: frames)) :
    Suspended frames := fun f hf => h f (List.mem_cons_of_mem fr hf)

theorem Suspended.spinPc_eq {frames : List CoreFrame} (hframes : Suspended frames) (mie : Bool) :
    (ConsoleCore.mk mie frames).spinPc = .outside := by
  cases frames with
  | nil => rfl
  | cons fr frames =>
      cases fr with
      | trap mpie => rfl
      | call f =>
          obtain ⟨rest, input, st, pc⟩ := f
          obtain rfl : pc = .save := hframes _ (List.mem_cons_self ..)
          rfl

theorem Suspended.outside {frames : List CoreFrame} (hframes : Suspended frames) (mie : Bool) :
    (ConsoleCore.mk mie frames).spinPc.inside = false := by
  rw [hframes.spinPc_eq]
  rfl

/-- A core that can be interrupted, or runs other code, has no call past
`k_intr_save_local`. -/
theorem ConsoleCore.Ok.suspended {h : ConsoleCore} (hok : h.Ok)
    (hh : h.mie = true ∨ h.ordinary = true) : Suspended h.frames := by
  cases hok with
  | before hframes => exact hframes
  | past hframes hf =>
      rcases hh with hh | hh
      · cases hh
      · cases hh

theorem ConsoleCore.Ok.tail {h : ConsoleCore} {fr : CoreFrame} {frames : List CoreFrame}
    (hok : h.Ok) (hh : h.frames = fr :: frames) : Suspended frames := by
  cases hok with
  | before hframes => exact Suspended.tail (hh ▸ hframes)
  | past hframes hf =>
      cases hh
      exact hframes

/-- The running call is past `k_intr_save_local`. -/
theorem ConsoleCore.Ok.running {h : ConsoleCore} {f : PriFrame} {frames : List CoreFrame}
    (hok : h.Ok) (hh : h.frames = .call f :: frames) (hpc : f.pc ≠ .save) :
    h.mie = false ∧ f.Past := by
  cases hok with
  | before hframes => exact absurd (hframes f (hh ▸ List.mem_cons_self ..)) hpc
  | past hframes hf =>
      cases hh
      exact ⟨rfl, hf⟩

theorem ConsoleCore.Ok.past_of {h : ConsoleCore} {f g : PriFrame} {frames : List CoreFrame}
    (hok : h.Ok) (hh : h.frames = .call f :: frames) (hf : f.pc ≠ .save) (hg : g.Past) :
    ConsoleCore.Ok { h with frames := .call g :: frames } := by
  obtain ⟨hmie, -⟩ := hok.running hh hf
  obtain ⟨mie, hframes⟩ := h
  obtain rfl : mie = false := hmie
  exact .past (hok.tail hh) hg

/-- Every step keeps the shape of the stack. -/
theorem CoreMove.ok {id : Int} {lock lock' : SpinLock} {h h' : ConsoleCore}
    {call : Option (List UInt8)} {out : List UInt8} (hmove : CoreMove id lock h call lock' h' out)
    (hok : h.Ok) : h'.Ok := by
  cases hmove with
  | call text input hord => exact .before ((hok.suspended (Or.inr hord)).cons_call rfl)
  | trap mpie hmie => exact .before ((hok.suspended hmie).cons_trap mpie)
  | mret hh => exact .before (hok.tail hh)
  | mask mie hord => exact .before (hok.suspended (Or.inr hord))
  | save hh => exact .past (hok.tail hh) (.spinning ..)
  | refused hval hh => exact hok
  | take hval hh => exact hok.past_of hh nofun (.storeId ..)
  | store hh => exact hok.past_of hh nofun (.locked ..)
  | input hh => exact hok.past_of hh nofun (.locked ..)
  | putc hh => exact hok.past_of hh nofun (.locked ..)
  | unlock hh => exact hok.past_of hh nofun (.clearId _)
  | clear hh =>
      cases (hok.running hh nofun).2
      exact hok.past_of hh nofun (.clearVal _)
  | release hh =>
      cases (hok.running hh nofun).2
      exact hok.past_of hh nofun (.restore _)
  | restore hh => exact .before (hok.tail hh)

end Steps

end BaremetalCrt
