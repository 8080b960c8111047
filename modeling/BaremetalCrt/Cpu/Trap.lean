import BaremetalCrt.Cpu.TrapCode

/-!
# Traps with their handlers

The trap code calls C functions, which are known by their calling convention only. A
function that handles a trap can be interrupted itself; the trap inside it puts its own
frame below the stack pointer of the function. A trap of depth `n` has at most `n`
further traps inside each other.

## Implementation notes

The contract of a C function is stated for surroundings in which its registers and the
saved frames stay as they are. That traps are such surroundings is proved, from the
contract at the next smaller depth.
-/

namespace BaremetalCrt

open RegisterMachine

section Contract

variable {t : Target}

/-- The registers that a C function gives back as it got them. -/
def CalleeSaved : Gpr → Prop
  | .sp | .gp | .tp | .s _ => True
  | .ra | .t _ | .a _ => False

/-- An interruption after which all registers, the scratch register and the saved words
are as before. -/
structure Transparent (P : Set (BitVec t.bits)) (m m' : Hart t) : Prop where
  reg : m'.reg = m.reg
  scratch : m'.csr .xscratch = m.csr .xscratch
  kept : ∀ x ∈ P, m'.mem x = m.mem x

/-- There is room for another frame below the stack pointer. -/
def StackClear (P : Set (BitVec t.bits)) (m : Hart t) : Prop :=
  ∀ x ∈ P, x ∉ frameWords t (m.reg .sp - regoffAll t)

/-- A function that obeys the calling convention when called in a state: it leaves the
saved words and the scratch register alone, keeps its stack off the saved words, and
returns with the registers that belong to its caller. -/
structure Conforms (f : Routine (Hart t)) (P : Set (BitVec t.bits)) (m : Hart t) : Prop where
  kept : ∀ p m', f.Run (Transparent P) (f.start, m) (p, m') → ∀ x ∈ P, m'.mem x = m.mem x
  scratch : ∀ p m', f.Run (Transparent P) (f.start, m) (p, m') →
    m'.csr .xscratch = m.csr .xscratch
  stack : ∀ p m', f.Run (Transparent P) (f.start, m) (p, m') → StackClear P m'
  returned : ∀ m', f.Returns (Transparent P) m m' → ∀ r, CalleeSaved r → m'.reg r = m.reg r

end Contract

/-- The C functions and the place of the trap code. -/
structure TrapEnv (cfg : TrapConfig) where
  address : TrapLabel → BitVec cfg.target.bits
  named : TrapFun → Routine (Hart cfg.target)
  handler : BitVec cfg.target.bits → Routine (Hart cfg.target)

/-- Runs of traps, by the saved words that they find. -/
abbrev TrapRuns (t : Target) : Type :=
  Set (BitVec t.bits) → Hart t → List (Hart t) → Hart t → Prop

/-- A trap that an interrupt caused. -/
def IsInterrupt {t : Target} (h : Hart t) : Prop := (h.csr .xcause).msb = true

/-- A trap that a system call caused. -/
def IsSyscall (cfg : TrapConfig) (h : Hart cfg.target) : Prop := h.csr .xcause = cfg.ecallCause

/-- An interrupt inside a function. Taking it and `mret` change control registers other
than the scratch register. -/
def Interrupted {t : Target} (traps : TrapRuns t) (P : Set (BitVec t.bits)) (m m' : Hart t) :
    Prop :=
  ∃ e rets e', Transparent Set.univ m e ∧ IsInterrupt e ∧ traps P e rets e' ∧
    Transparent Set.univ e' m'

section Trap

variable {cfg : TrapConfig} (env : TrapEnv cfg)

/-- The trap code at its place. -/
def TrapEnv.isr : Program Gpr Csr cfg.target.bits TrapLabel TrapFun where
  piece := Isr.piece cfg
  address := env.address
  link := .ra

/-- The function that is called. -/
def TrapEnv.routine : TrapFun ⊕ BitVec cfg.target.bits → Routine (Hart cfg.target)
  | .inl f => env.named f
  | .inr x => env.handler x

/-- The words that a call has to leave alone. -/
def protectedWords {t : Target} (P : Set (BitVec t.bits)) (m : Hart t) : Set (BitVec t.bits) :=
  P ∪ frameWords t (m.reg .sp)

/-- The calls of the trap code. `k_cpu_set_current_user_regs` runs with interrupts off and
writes no control register. -/
def TrapEnv.calls (traps : TrapRuns cfg.target) (P : Set (BitVec cfg.target.bits)) :
    TrapFun ⊕ BitVec cfg.target.bits → Hart cfg.target → Hart cfg.target → Prop
  | .inl .setCurrentUserRegs, m, m' =>
      Conforms (env.named .setCurrentUserRegs) (protectedWords P m) m ∧
        (env.named .setCurrentUserRegs).Returns (fun _ _ => False) m m' ∧ m'.csr = m.csr
  | c, m, m' =>
      Conforms (env.routine c) (protectedWords P m) m ∧
        (env.routine c).Returns (Interrupted traps (protectedWords P m)) m m'

/-- The traps inside a trap of some depth. -/
def TrapEnv.inner : Nat → TrapRuns cfg.target
  | 0 => fun _ _ _ _ => False
  | n + 1 => fun P => env.isr.Exec (env.calls (TrapEnv.inner n) P) .trapStart

/-- The runs of a trap of some depth, from its start to `mret`. -/
def TrapEnv.trap (n : Nat) : TrapRuns cfg.target := env.inner (n + 1)

variable {env}

/-- All interrupts inside a function are transparent where there is room for them. -/
def TransparentTraps (traps : TrapRuns cfg.target) : Prop :=
  ∀ P m m', m.csr .xscratch = 0 → StackClear P m → Interrupted traps P m m' → Transparent P m m'

/-- What a call leaves as it is. -/
structure CallKept (P : Set (BitVec cfg.target.bits)) (m m' : Hart cfg.target) : Prop where
  sp : m'.reg .sp = m.reg .sp
  scratch : m'.csr .xscratch = m.csr .xscratch
  kept : ∀ x ∈ protectedWords P m, m'.mem x = m.mem x

theorem callKept_of_conforms {f : Routine (Hart cfg.target)} {I : Hart cfg.target →
    Hart cfg.target → Prop} {P : Set (BitVec cfg.target.bits)} {m m' : Hart cfg.target}
    (hf : Conforms f (protectedWords P m) m)
    (hI : ∀ e e', e.csr .xscratch = m.csr .xscratch → StackClear (protectedWords P m) e →
      I e e' → Transparent (protectedWords P m) e e')
    (hret : f.Returns I m m') : CallKept P m m' := by
  have hrun : f.Returns (Transparent (protectedWords P m)) m m' := by
    apply hret.refine
    intro p e e' hreach hint
    exact hI e e' (hf.scratch p e hreach) (hf.stack p e hreach) hint
  exact ⟨hf.returned m' hrun .sp trivial, hf.scratch f.done m' hrun, hf.kept f.done m' hrun⟩

theorem callKept_of_calls {traps : TrapRuns cfg.target} (htraps : TransparentTraps traps)
    {P : Set (BitVec cfg.target.bits)} {c : TrapFun ⊕ BitVec cfg.target.bits}
    {m m' : Hart cfg.target} (hm : m.csr .xscratch = 0) (hcall : env.calls traps P c m m') :
    CallKept P m m' := by
  unfold TrapEnv.calls at hcall
  split at hcall
  · obtain ⟨hf, hret, _⟩ := hcall
    exact callKept_of_conforms hf (fun _ _ _ _ hfalse => hfalse.elim) hret
  · obtain ⟨hf, hret⟩ := hcall
    refine callKept_of_conforms hf ?_ hret
    intro e e' hscratch hclear hint
    exact htraps _ e e' (hscratch.trans hm) hclear hint

section Held

variable {traps : TrapRuns cfg.target} {P : Set (BitVec cfg.target.bits)}
  {s m m' : Hart cfg.target} {f : UserReg → BitVec cfg.target.bits}

theorem Isr.FrameHeld.of_eq (h : Isr.FrameHeld P s f m) (hsp : m'.reg .sp = m.reg .sp)
    (hmem : m'.mem = m.mem) (hcsr : m'.csr = m.csr) : Isr.FrameHeld P s f m' where
  sp := hsp.trans h.sp
  frame := (frameAt_eq_of_eq_on fun x _ => congrFun hmem x).trans h.frame
  scratch := (congrFun hcsr _).trans h.scratch
  kept := fun x hx hout => (congrFun hmem x).trans (h.kept x hx hout)

theorem Isr.Entered.of_eq (h : Isr.Entered P s m) (hsp : m'.reg .sp = m.reg .sp)
    (hmem : m'.mem = m.mem) (hcsr : m'.csr = m.csr) : Isr.Entered P s m' where
  toFrameHeld := h.toFrameHeld.of_eq hsp hmem hcsr
  epc := (congrFun hcsr _).trans h.epc
  cause := (congrFun hcsr _).trans h.cause

/-- A store to a cell of the frame. -/
theorem Isr.FrameHeld.store (h : Isr.FrameHeld P s f m) (u : UserReg)
    (v : BitVec cfg.target.bits) :
    Isr.FrameHeld P s (Function.update f u v) (m.setMem (m.reg .sp + frameOffset _ u) v) where
  sp := h.sp
  frame := by rw [h.sp, frameAt_setMem, h.frame]
  scratch := h.scratch
  kept := by
    intro x hx hout
    rw [h.sp, setMem_outside m _ v u hout]
    exact h.kept x hx hout

/-- The return address does not matter. -/
theorem Isr.FrameHeld.link (h : Isr.FrameHeld P s f m) (v : BitVec cfg.target.bits) :
    Isr.FrameHeld P s f (m.set (some .ra) v) :=
  h.of_eq (by simp) (by simp) (by simp)

/-- A frame is still there after a call. -/
theorem Isr.FrameHeld.call (h : Isr.FrameHeld P s f m) (htraps : TransparentTraps traps)
    {c : TrapFun ⊕ BitVec cfg.target.bits} (hcall : env.calls traps P c m m') :
    Isr.FrameHeld P s f m' := by
  obtain ⟨hsp, hscratch, hkept⟩ := callKept_of_calls htraps h.scratch hcall
  have hframe : ∀ x ∈ frameWords cfg.target (trapBase s), m'.mem x = m.mem x := by
    intro x hx
    apply hkept x (Or.inr _)
    rw [h.sp]
    exact hx
  refine ⟨hsp.trans h.sp, ?_, hscratch.trans h.scratch, ?_⟩
  · rw [frameAt_eq_of_eq_on hframe]
    exact h.frame
  · intro x hx hout
    exact (hkept x (Or.inl hx)).trans (h.kept x hx hout)

end Held

/-- The context after a trap, and the saved words outside its frame. -/
structure Resumed (P : Set (BitVec cfg.target.bits)) (s : Hart cfg.target)
    (f : UserReg → BitVec cfg.target.bits) (s' : Hart cfg.target) : Prop where
  context : hartContext s' = f
  kept : ∀ x ∈ P, x ∉ frameWords cfg.target (trapBase s) → s'.mem x = s.mem x

/-- The context is a given one except for the return value of the last call. -/
def SyscallPost (P : Set (BitVec cfg.target.bits)) (s : Hart cfg.target)
    (f : UserReg → BitVec cfg.target.bits) (rets : List (Hart cfg.target))
    (s' : Hart cfg.target) : Prop :=
  ∃ ret, rets.getLast? = some ret ∧ Resumed P s (Function.update f (.a 0) (ret.reg (.a 0))) s'

/-- The context after a trap is that before it, apart from what a system call changes. -/
structure TrapPost (P : Set (BitVec cfg.target.bits)) (s : Hart cfg.target)
    (rets : List (Hart cfg.target)) (s' : Hart cfg.target) : Prop where
  other : ¬ IsSyscall cfg s → Resumed P s (hartContext s) s'
  syscall : IsSyscall cfg s →
    SyscallPost P s (Function.update (hartContext s) .mepc (s.csr .xepc + 4)) rets s'

/-- The state in which the trap code calls: in kernel context, with the stack below the
frame. -/
structure OnFrame (s m : Hart cfg.target) : Prop where
  sp : m.reg .sp = trapBase s
  scratch : m.csr .xscratch = 0

section Spec

variable {traps : TrapRuns cfg.target} {P : Set (BitVec cfg.target.bits)}
  {s m : Hart cfg.target} {f : UserReg → BitVec cfg.target.bits}

theorem Isr.FrameHeld.onFrame (h : Isr.FrameHeld P s f m) : OnFrame s m := ⟨h.sp, h.scratch⟩

theorem trapEnd_resumed (h : Isr.FrameHeld P s f m) :
    env.isr.Spec (env.calls traps P) (OnFrame s) .trapEnd m fun rets s' =>
      rets = [] ∧ Resumed P s f s' := by
  obtain ⟨hctx, hmem⟩ := Isr.trapEnd_spec cfg m
  refine .leave rfl ⟨rfl, ?_, ?_⟩
  · exact hctx.trans (by rw [h.sp, h.frame])
  · intro x hx hout
    exact (congrFun hmem x).trans (h.kept x hx hout)

theorem syscallEnd_resumed (h : Isr.FrameHeld P s f m) :
    env.isr.Spec (env.calls traps P) (OnFrame s) .syscallEnd m fun rets s' =>
      rets = [] ∧ Resumed P s (Function.update f (.a 0) (m.reg (.a 0))) s' :=
  .jump rfl (trapEnd_resumed (h.store (.a 0) (m.reg (.a 0))))

theorem syscallEnd_post (h : Isr.FrameHeld P s f m) :
    env.isr.Spec (env.calls traps P) (OnFrame s) .syscallEnd m fun rets =>
      SyscallPost P s f (m :: rets) := by
  apply (syscallEnd_resumed h).mono
  rintro _ s' ⟨rfl, hres⟩
  exact ⟨m, rfl, hres⟩

/-- After `k_cpu_set_current_user_regs` the arguments come back from the frame. -/
theorem userRegsSaved_entered (h : Isr.Entered P s m) :
    Isr.Entered P s (run (Isr.piece cfg .userRegsSaved).code m) := by
  obtain ⟨hmem, hcsr⟩ := run_loadBlock_frame
    [.a 0, .a 1, .a 2, .a 3, .a 4, .a 5, .a 6, .a 7] .sp (gprOffset cfg.target) m
  exact h.of_eq (run_loadBlock_reg_of_not_mem (by decide)) hmem hcsr

variable (htraps : TransparentTraps traps)

include htraps

theorem syscallUnknown_post (h : Isr.FrameHeld P s f m) :
    env.isr.Spec (env.calls traps P) (OnFrame s) .syscallUnknown m (SyscallPost P s f) := by
  have hheld : Isr.FrameHeld P s f (run (Isr.piece cfg .syscallUnknown).code m) := by
    apply h.of_eq <;> simp [Isr.piece, Instr.exec]
  refine .call rfl (hheld.link _).onFrame ?_
  intro m₁ hcall
  exact syscallEnd_post ((hheld.link _).call htraps hcall)

theorem callHandler_post (h : Isr.FrameHeld P s f m) :
    env.isr.Spec (env.calls traps P) (OnFrame s) .callHandler m (SyscallPost P s f) := by
  refine .jalr rfl (h.link _).onFrame ?_
  intro m₁ hcall
  exact syscallEnd_post ((h.link _).call htraps hcall)

theorem findHandler_post (h : Isr.FrameHeld P s f m) :
    env.isr.Spec (env.calls traps P) (OnFrame s) .findHandler m (SyscallPost P s f) := by
  have hheld : Isr.FrameHeld P s f (run (Isr.piece cfg .findHandler).code m) := by
    apply h.of_eq <;> simp [Isr.piece, Instr.exec]
  refine .branch rfl ?_
  split
  · exact syscallUnknown_post htraps hheld
  · exact callHandler_post htraps hheld

theorem checkNumber_post (h : Isr.FrameHeld P s f m) :
    env.isr.Spec (env.calls traps P) (OnFrame s) .checkNumber m (SyscallPost P s f) := by
  have hheld : Isr.FrameHeld P s f (run (Isr.piece cfg .checkNumber).code m) := by
    apply h.of_eq <;> simp [Isr.piece, Instr.exec]
  refine .branch rfl ?_
  split
  · exact syscallUnknown_post htraps hheld
  · exact findHandler_post htraps hheld

theorem trapSyscall_post (h : Isr.Entered P s m) :
    env.isr.Spec (env.calls traps P) (OnFrame s) .trapSyscall m
      (SyscallPost P s (Function.update (hartContext s) .mepc (s.csr .xepc + 4))) := by
  have hheld : Isr.FrameHeld P s (Function.update (hartContext s) .mepc (s.csr .xepc + 4))
      (run (Isr.piece cfg .trapSyscall).code m) := by
    apply (h.toFrameHeld.store .mepc (s.csr .xepc + 4)).of_eq <;>
      simp [Isr.piece, Instr.exec, h.epc]
  refine .branch rfl ?_
  split
  · exact syscallUnknown_post htraps hheld
  · exact checkNumber_post htraps hheld

/-- A block that calls a handler and then leaves the trap. -/
theorem handler_post {l : TrapLabel} {g : TrapFun}
    (hexit : (Isr.piece cfg l).exit = .call g .trapEnd)
    (h : Isr.FrameHeld P s f (run (Isr.piece cfg l).code m)) :
    env.isr.Spec (env.calls traps P) (OnFrame s) l m fun _ s' => Resumed P s f s' := by
  refine .call hexit (h.link _).onFrame ?_
  intro m₁ hcall
  exact (trapEnd_resumed ((h.link _).call htraps hcall)).mono fun _ _ hpost => hpost.2

theorem trapInterrupt_post (h : Isr.FrameHeld P s f m) :
    env.isr.Spec (env.calls traps P) (OnFrame s) .trapInterrupt m fun _ s' =>
      Resumed P s f s' := by
  apply handler_post htraps rfl
  apply h.of_eq <;> simp [Isr.piece, Instr.exec]

theorem trapException_post (h : Isr.FrameHeld P s f m) :
    env.isr.Spec (env.calls traps P) (OnFrame s) .trapException m fun _ s' =>
      Resumed P s f s' := by
  apply handler_post htraps rfl
  apply h.of_eq <;> simp [Isr.piece, Instr.exec]

theorem checkInterrupt_post (h : Isr.Entered P s m) :
    env.isr.Spec (env.calls traps P) (OnFrame s) .checkInterrupt m fun _ s' =>
      Resumed P s (hartContext s) s' := by
  have hheld : Isr.FrameHeld P s (hartContext s) (run (Isr.piece cfg .checkInterrupt).code m) := by
    apply h.toFrameHeld.of_eq <;> simp [Isr.piece, Instr.exec]
  refine .branch rfl ?_
  split
  · exact trapInterrupt_post htraps hheld
  · exact trapException_post htraps hheld

theorem trapCommon_post (h : Isr.Entered P s m) :
    env.isr.Spec (env.calls traps P) (OnFrame s) .trapCommon m (TrapPost P s) := by
  have hent : Isr.Entered P s (run (Isr.piece cfg .trapCommon).code m) := by
    apply h.of_eq <;> simp [Isr.piece, Instr.exec]
  have hcond : Cond.eq.holds ((run (Isr.piece cfg .trapCommon).code m).get Isr.t0)
      ((run (Isr.piece cfg .trapCommon).code m).get Isr.t1) = true ↔ IsSyscall cfg s := by
    simp [Isr.piece, Instr.exec, Cond.holds, IsSyscall, h.cause]
  refine .branch rfl ?_
  split
  · rename_i heq
    have hsys := hcond.mp heq
    apply (trapSyscall_post htraps hent).mono
    intro rets s' hpost
    exact ⟨fun hnot => absurd hsys hnot, fun _ => hpost⟩
  · rename_i hne
    have hsys := hcond.not.mp hne
    apply (checkInterrupt_post htraps hent).mono
    intro rets s' hpost
    exact ⟨fun _ => hpost, fun hcall => absurd hcall hsys⟩

/-- The whole trap. -/
theorem trapStart_post (P : Set (BitVec cfg.target.bits)) (s : Hart cfg.target) :
    env.isr.Spec (env.calls traps P) (OnFrame s) .trapStart s (TrapPost P s) := by
  have hcond : Cond.eq.holds ((run (Isr.piece cfg .trapStart).code s).get Isr.sp)
      ((run (Isr.piece cfg .trapStart).code s).get Isr.x0) = true ↔ s.csr .xscratch = 0 := by
    simp [Isr.piece, Instr.exec, Cond.holds]
  refine .branch rfl ?_
  split
  · rename_i hzero
    exact .jump rfl (trapCommon_post htraps (Isr.trapInKernel_spec cfg P s (hcond.mp hzero)))
  · rename_i hne
    have hent := Isr.trapInUser_spec cfg P s (hcond.not.mp hne)
    refine .call rfl (hent.toFrameHeld.link _).onFrame ?_
    intro m₁ hcall
    have hcsr : m₁.csr = _ := hcall.2.2
    have hent₁ : Isr.Entered P s m₁ := by
      refine ⟨(hent.toFrameHeld.link _).call htraps hcall, ?_, ?_⟩
      · rw [hcsr]
        exact hent.epc
      · rw [hcsr]
        exact hent.cause
    refine .jump rfl ?_
    apply (trapCommon_post htraps (userRegsSaved_entered hent₁)).mono
    intro rets s' hpost
    refine ⟨hpost.other, fun hsys => ?_⟩
    obtain ⟨ret, hlast, hres⟩ := hpost.syscall hsys
    exact ⟨ret, by simp [List.getLast?_cons, hlast], hres⟩

end Spec

theorem IsInterrupt.not_syscall {s : Hart cfg.target} (h : IsInterrupt s) : ¬ IsSyscall cfg s := by
  intro hsys
  unfold IsInterrupt at h
  rw [hsys, TrapConfig.ecallCause] at h
  have hmsb : ∀ w, w = 32 ∨ w = 64 →
      (11 : BitVec w).msb = false ∧ (9 : BitVec w).msb = false := by
    rintro w (rfl | rfl) <;> decide
  obtain ⟨h11, h9⟩ := hmsb _ cfg.target.bits_cases
  split at h
  · exact Bool.noConfusion (h11.symm.trans h)
  · exact Bool.noConfusion (h9.symm.trans h)

theorem reg_eq_of_context {h h' : Hart cfg.target} (heq : hartContext h' = hartContext h) :
    h'.reg = h.reg := by
  funext r
  rw [← hartContext_slot h', ← hartContext_slot h, heq]

/-- One more level of traps is transparent if the levels inside are. -/
theorem TransparentTraps.succ {n : Nat} (ih : TransparentTraps (env.inner n)) :
    TransparentTraps (env.inner (n + 1)) := by
  rintro P m m' hscratch hclear ⟨e, rets, e', hin, hint, hrun, hout⟩
  have hres := ((trapStart_post ih P e).post rets e' hrun).other hint.not_syscall
  have hbase : trapBase e = m.reg .sp - regoffAll cfg.target := by
    rw [trapBase, if_pos (hin.scratch.trans hscratch), hin.reg]
  constructor
  · rw [hout.reg, reg_eq_of_context hres.context, hin.reg]
  · exact hout.scratch.trans ((congrFun hres.context .mscratch).trans hin.scratch)
  · intro x hx
    have hkept := hres.kept x hx (by rw [hbase]; exact hclear x hx)
    rw [hout.kept x trivial, hkept, hin.kept x trivial]

theorem transparentTraps_inner (n : Nat) : TransparentTraps (env.inner n) := by
  induction n with
  | zero =>
      rintro P m m' _ _ ⟨e, rets, e', _, _, hfalse, _⟩
      exact hfalse.elim
  | succ n ih => exact ih.succ

/-- The functions that a trap calls run in kernel context, on the stack below its frame. -/
theorem trap_calls_onFrame (env : TrapEnv cfg) (n : Nat) (P : Set (BitVec cfg.target.bits))
    (s : Hart cfg.target) {c : TrapFun ⊕ BitVec cfg.target.bits} {m : Hart cfg.target}
    (hcall : env.isr.Reaches (env.calls (env.inner n) P) .trapStart s c m) : OnFrame s m :=
  (trapStart_post (transparentTraps_inner n) P s).call_pre c m hcall

/-- Traps of any depth resume with the context that they interrupted; a system call
changes `a0` and steps over its instruction. -/
theorem trap_restores_context (env : TrapEnv cfg) (n : Nat) (P : Set (BitVec cfg.target.bits))
    (s : Hart cfg.target) :
    (∀ rets s', env.trap n P s rets s' →
      (IsInterrupt s → hartContext s' = hartContext s) ∧
      (IsSyscall cfg s → ∃ ret, rets.getLast? = some ret ∧
        hartContext s' = Function.update (Function.update (hartContext s) .mepc
          (s.csr .xepc + 4)) (.a 0) (ret.reg (.a 0)))) ∧
    (env.isr.CallsReturn (env.calls (env.inner n) P) .trapStart s →
      ∃ rets s', env.trap n P s rets s') := by
  have htraps : TransparentTraps (env.inner n) := transparentTraps_inner n
  have hspec : env.isr.Spec (env.calls (env.inner n) P) (OnFrame s) .trapStart s (TrapPost P s) :=
    trapStart_post htraps P s
  refine ⟨?_, hspec.ends⟩
  intro rets s' hrun
  have hpost := hspec.post rets s' hrun
  refine ⟨fun hint => (hpost.other hint.not_syscall).context, fun hsys => ?_⟩
  obtain ⟨ret, hlast, hres⟩ := hpost.syscall hsys
  exact ⟨ret, hlast, hres.context⟩

end Trap

section Returning

variable {t : Target}

/-- Frames on top of each other do not overlap. -/
theorem frameWords_below {base x : BitVec t.bits} (hx : x ∈ frameWords t base) :
    x ∉ frameWords t (base - regoffAll t) := by
  obtain ⟨u, rfl⟩ := hx
  rintro ⟨v, heq⟩
  have hoff : frameOffset t v = frameOffset t u + regoffAll t := by
    apply add_left_cancel (a := base)
    calc base + frameOffset t v
        = base - regoffAll t + frameOffset t v + regoffAll t := by
          rw [sub_add_eq_add_sub, sub_add_cancel]
      _ = base + frameOffset t u + regoffAll t := congrArg (· + regoffAll t) heq
      _ = base + (frameOffset t u + regoffAll t) := add_assoc ..
  have hu := u.index_lt
  have hv := v.index_lt
  have hnat := congrArg BitVec.toNat hoff
  simp only [frameOffset, regoffAll, BitVec.toNat_add, BitVec.toNat_ofNat,
    Target.optBytes] at hnat
  rcases t.bits_cases with ht | ht
  · rw [ht] at hnat
    omega
  · rw [ht] at hnat
    omega

/-- A function that only returns a value. -/
def returning (v : BitVec t.bits) : Routine (Hart t) where
  Loc := Bool
  start := false
  done := true
  step := fun x y => x.1 = false ∧ y = (true, x.2.set (some (.a 0)) v)

theorem returning_run {v : BitVec t.bits} {P : Set (BitVec t.bits)} {m : Hart t}
    {x : (returning v).Loc × Hart t}
    (run : (returning v).Run (Transparent P) ((returning v).start, m) x) :
    (∀ r, r ≠ .a 0 → x.2.reg r = m.reg r) ∧ x.2.csr .xscratch = m.csr .xscratch ∧
      ∀ w ∈ P, x.2.mem w = m.mem w := by
  induction run with
  | refl => exact ⟨fun _ _ => rfl, rfl, fun _ _ => rfl⟩
  | step _ own ih =>
      obtain ⟨hreg, hscratch, hkept⟩ := ih
      obtain ⟨_, rfl⟩ := own
      refine ⟨?_, by simpa using hscratch, by simpa using hkept⟩
      intro r hr
      simpa [Function.update_of_ne hr] using hreg r hr
  | interrupted _ hint ih =>
      obtain ⟨hreg, hscratch, hkept⟩ := ih
      refine ⟨?_, hint.scratch.trans hscratch, ?_⟩
      · intro r hr
        exact (congrFun hint.reg r).trans (hreg r hr)
      · intro w hw
        exact (hint.kept w hw).trans (hkept w hw)

theorem conforms_returning (v : BitVec t.bits) {P : Set (BitVec t.bits)} {m : Hart t}
    (hclear : StackClear P m) : Conforms (returning v) P m where
  kept := fun _ _ run => (returning_run run).2.2
  scratch := fun _ _ run => (returning_run run).2.1
  stack := by
    intro p m' run x hx
    have hsp : m'.reg .sp = m.reg .sp := (returning_run run).1 .sp (by decide)
    rw [hsp]
    exact hclear x hx
  returned := by
    intro m' run r hr
    apply (returning_run run).1 r
    rintro rfl
    exact hr

theorem returning_returns (v : BitVec t.bits) (I : Hart t → Hart t → Prop) (m : Hart t) :
    (returning v).Returns I m (m.set (some (.a 0)) v) :=
  .step .refl ⟨rfl, rfl⟩

/-- A machine-mode build for 64 bits with the system calls of the C library. -/
def trapConfig64 : TrapConfig where
  target := ⟨64, bits_sixtyFour⟩
  machineMode := true
  maxSyscalls := 448
  tableSyscalls := 0x80008000

/-- All functions return 42. -/
def trapEnv42 : TrapEnv trapConfig64 where
  address := fun _ => 0x80000000
  named := fun _ => returning 42
  handler := fun _ => returning 42

theorem trapEnv42_calls (traps : TrapRuns trapConfig64.target)
    (c : TrapFun ⊕ BitVec trapConfig64.target.bits) (m : Hart trapConfig64.target) :
    trapEnv42.calls traps ∅ c m (m.set (some (.a 0)) 42) := by
  have hclear : StackClear (protectedWords ∅ m) m := by
    intro x hx
    exact frameWords_below (hx.resolve_left (Set.notMem_empty x))
  have hconf := conforms_returning 42 hclear
  cases c with
  | inl f =>
      cases f with
      | setCurrentUserRegs => exact ⟨hconf, returning_returns 42 _ m, by simp⟩
      | sysUnknown | riscvInterrupt | riscvException => exact ⟨hconf, returning_returns 42 _ m⟩
  | inr x => exact ⟨hconf, returning_returns 42 _ m⟩

/-- A system call from user context. -/
def hartAtEcall : Hart trapConfig64.target where
  reg := fun _ => 7
  csr := fun c =>
    match c with
    | .xscratch => 0x80040000
    | .xcause => 11
    | .xepc => 0x80001000
    | .xstatus => 0x1800
  mem := fun _ => 0x80000400

/-- The system call goes through the table and comes back behind its instruction. -/
theorem trap_restores_context_ecall : ∃ rets s' ret,
    trapEnv42.trap 2 ∅ hartAtEcall rets s' ∧ rets.getLast? = some ret ∧
      hartContext s' = Function.update (Function.update (hartContext hartAtEcall) .mepc
        (0x80001000 + 4)) (.a 0) (ret.reg (.a 0)) := by
  obtain ⟨hpost, hends⟩ := trap_restores_context trapEnv42 2 ∅ hartAtEcall
  obtain ⟨rets, s', hrun⟩ := hends fun c m _ => ⟨_, trapEnv42_calls _ c m⟩
  obtain ⟨ret, hlast, hctx⟩ := (hpost rets s' hrun).2 rfl
  exact ⟨rets, s', ret, hrun, hlast, hctx⟩

end Returning

end BaremetalCrt
