import BaremetalCrt.Cpu.Registers
import BaremetalCrt.Library.Routines
import BaremetalCrt.Sys.Target

/-!
# The trap code

The code from `k_trap_start` to `k_trap_end` with the register macros that it uses, and
what its two ways in and its way out do. A trap saves its context in a frame: below the
interrupt stack's top, which the scratch register holds in user context, or below the
stack pointer, when the scratch register is zero.

## Implementation notes

`mret` is the end of the code; what it does to the program counter and to the status
register belongs to the hardware. All accesses of the code are to whole words of a
frame or of the table of system calls.
-/

namespace BaremetalCrt

open RegisterMachine

/-- The position of a cell in `k_arch_riscv_user_regs_t`. -/
def UserReg.index : UserReg → Nat
  | ra => 0
  | sp => 1
  | gp => 2
  | tp => 3
  | t i => 4 + i
  | a i => 11 + i
  | s i => 19 + i
  | mepc => 31
  | mstatus => 32
  | mscratch => 33

theorem UserReg.index_lt (u : UserReg) : u.index < 34 := by
  cases u <;> simp only [UserReg.index] <;> omega

theorem UserReg.index_inj {u v : UserReg} (h : u.index = v.index) : u = v := by
  cases u <;> cases v <;> simp only [UserReg.index] at h <;>
    first
      | rfl
      | omega
      | (congr 1; omega)

/-- The integer registers other than `x0`. -/
inductive Gpr where
  | ra | sp | gp | tp
  | t (i : Fin 7)
  | a (i : Fin 8)
  | s (i : Fin 12)
  deriving DecidableEq

/-- The cell of a frame for a register. -/
def Gpr.slot : Gpr → UserReg
  | ra => .ra
  | sp => .sp
  | gp => .gp
  | tp => .tp
  | t i => .t i
  | a i => .a i
  | s i => .s i

theorem Gpr.slot_inj {r r' : Gpr} (h : r.slot = r'.slot) : r = r' := by
  cases r <;> cases r' <;> simp_all [Gpr.slot]

/-- The control registers that the trap code names. -/
inductive Csr where
  | xstatus | xscratch | xepc | xcause
  deriving DecidableEq

/-- `REGOFF`, the logarithm of the word size in bytes. -/
def Target.regOff (t : Target) : Nat := if t.bits = 64 then 3 else 2

section Frame

variable (t : Target)

/-- The registers, control registers and memory of a hart. -/
abbrev Hart : Type := State Gpr Csr t.bits

/-- `REGOFF_RA` to `REGOFF_MSCRATCH`. -/
def frameOffset (u : UserReg) : BitVec t.bits := BitVec.ofNat t.bits (t.optBytes * u.index)

/-- `REGOFF_ALL`. -/
def regoffAll : BitVec t.bits := BitVec.ofNat t.bits (t.optBytes * 34)

/-- The offset of a register. -/
def gprOffset (r : Gpr) : BitVec t.bits := frameOffset t r.slot

variable {t}

theorem frameOffset_inj {u v : UserReg} (h : frameOffset t u = frameOffset t v) : u = v := by
  apply UserReg.index_inj
  have hu := u.index_lt
  have hv := v.index_lt
  have hnat := congrArg BitVec.toNat h
  simp only [frameOffset, BitVec.toNat_ofNat, Target.optBytes] at hnat
  rcases t.bits_cases with ht | ht
  · rw [ht] at hnat
    omega
  · rw [ht] at hnat
    omega

theorem gprOffset_inj (r r' : Gpr) (h : gprOffset t r = gprOffset t r') : r = r' :=
  Gpr.slot_inj (frameOffset_inj h)

/-- Two words of a frame are the same one. -/
@[simp] theorem frameWord_inj {base : BitVec t.bits} {u v : UserReg} :
    base + frameOffset t u = base + frameOffset t v ↔ u = v :=
  ⟨fun h => frameOffset_inj (add_left_cancel h), fun h => by rw [h]⟩

end Frame

/-- What the trap code depends on: `CONFIG_64BIT`, `CONFIG_RISCV_MACHINE_MODE`,
`MAX_SYSCALLS` and the addresses that the linker chose. -/
structure TrapConfig where
  target : Target
  machineMode : Bool
  maxSyscalls : Nat
  tableSyscalls : BitVec target.bits

/-- `RV_CAUSE_EXC_ECALL_M` or `RV_CAUSE_EXC_ECALL_S`. -/
def TrapConfig.ecallCause (cfg : TrapConfig) : BitVec cfg.target.bits :=
  if cfg.machineMode then 11 else 9

/-- The functions that the trap code names. -/
inductive TrapFun where
  | setCurrentUserRegs | sysUnknown | riscvInterrupt | riscvException

/-- The labels of the trap code and the places behind its branches and calls. -/
inductive TrapLabel where
  | trapStart | trapInUser | userRegsSaved | trapInKernel
  | trapCommon | checkInterrupt
  | trapSyscall | checkNumber | findHandler | callHandler | syscallEnd | syscallUnknown
  | trapInterrupt | trapException
  | trapEnd

namespace Isr

abbrev x0 : Option Gpr := none
abbrev sp : Option Gpr := some .sp
abbrev t0 : Option Gpr := some (.t 0)
abbrev t1 : Option Gpr := some (.t 1)
abbrev a (i : Fin 8) : Option Gpr := some (.a i)

/-- The registers of `OP_CALLER_REGS`. -/
def callerRegs : List Gpr :=
  [.ra, .t 0, .t 1, .t 2, .t 3, .t 4, .t 5, .t 6, .a 0, .a 1, .a 2, .a 3, .a 4, .a 5, .a 6, .a 7]

/-- The registers of `OP_CALLEE_REGS`. -/
def calleeRegs : List Gpr :=
  [.s 0, .s 1, .s 2, .s 3, .s 4, .s 5, .s 6, .s 7, .s 8, .s 9, .s 10, .s 11]

/-- The registers of `OP_SPECIAL_REGS`. -/
def specialRegs : List Gpr := [.gp, .tp]

section Macros

variable (t : Target)

/-- `store_caller_regs`, `store_callee_regs` and `store_special_regs`. -/
def storeRegs : List (Instr Gpr Csr t.bits) :=
  storeBlock callerRegs .sp (gprOffset t) ++ storeBlock calleeRegs .sp (gprOffset t) ++
    storeBlock specialRegs .sp (gprOffset t)

/-- `store_status_regs t0`. -/
def storeStatusRegs : List (Instr Gpr Csr t.bits) :=
  [.csrr t0 .xepc, .st t0 sp (frameOffset t .mepc),
    .csrr t0 .xstatus, .st t0 sp (frameOffset t .mstatus),
    .csrr t0 .xscratch, .st t0 sp (frameOffset t .mscratch)]

/-- `load_status_regs t0`. -/
def loadStatusRegs : List (Instr Gpr Csr t.bits) :=
  [.ld t0 sp (frameOffset t .mepc), .csrw .xepc t0,
    .ld t0 sp (frameOffset t .mstatus), .csrw .xstatus t0,
    .ld t0 sp (frameOffset t .mscratch), .csrw .xscratch t0]

/-- `load_caller_regs`, `load_callee_regs` and `load_special_regs`. -/
def loadRegs : List (Instr Gpr Csr t.bits) :=
  loadBlock callerRegs .sp (gprOffset t) ++ loadBlock calleeRegs .sp (gprOffset t) ++
    loadBlock specialRegs .sp (gprOffset t)

end Macros

variable (cfg : TrapConfig)

/-- The pieces of `isr.S`. -/
def piece : TrapLabel → Piece Gpr Csr cfg.target.bits TrapLabel TrapFun
  | .trapStart =>
      { code := [.csrrw sp .xscratch sp]
        exit := .branch .eq sp x0 .trapInKernel .trapInUser }
  | .trapInUser =>
      { code := [.addi sp sp (-regoffAll cfg.target)] ++ storeRegs cfg.target ++
          storeStatusRegs cfg.target ++
          [.csrr t0 .xscratch, .st t0 sp (frameOffset cfg.target .sp),
            .addi t0 sp (regoffAll cfg.target), .st t0 sp (frameOffset cfg.target .mscratch),
            .csrw .xscratch x0, .mv (a 0) sp]
        exit := .call .setCurrentUserRegs .userRegsSaved }
  | .userRegsSaved =>
      { code := loadBlock [.a 0, .a 1, .a 2, .a 3, .a 4, .a 5, .a 6, .a 7] .sp
          (gprOffset cfg.target)
        exit := .jump .trapCommon }
  | .trapInKernel =>
      { code := [.csrrw sp .xscratch sp, .addi sp sp (-regoffAll cfg.target)] ++
          storeRegs cfg.target ++ storeStatusRegs cfg.target ++
          [.addi t0 sp (regoffAll cfg.target), .st t0 sp (frameOffset cfg.target .sp)]
        exit := .jump .trapCommon }
  | .trapCommon =>
      { code := [.csrr t0 .xcause, .li t1 cfg.ecallCause]
        exit := .branch .eq t0 t1 .trapSyscall .checkInterrupt }
  | .checkInterrupt =>
      { code := [.not t1 x0, .srli t1 t1 1, .not t1 t1, .and t0 t0 t1]
        exit := .branch .ne x0 t0 .trapInterrupt .trapException }
  | .trapSyscall =>
      { code := [.csrr t0 .xepc, .addi t0 t0 4, .st t0 sp (frameOffset cfg.target .mepc)]
        exit := .branch .lt (a 7) x0 .syscallUnknown .checkNumber }
  | .checkNumber =>
      { code := [.li t0 (BitVec.ofNat _ cfg.maxSyscalls)]
        exit := .branch .ge (a 7) t0 .syscallUnknown .findHandler }
  | .findHandler =>
      { code := [.li t0 cfg.tableSyscalls, .slli t1 (a 7) cfg.target.regOff, .add t0 t0 t1,
          .ld t0 t0 0]
        exit := .branch .eq t0 x0 .syscallUnknown .callHandler }
  | .callHandler =>
      { code := []
        exit := .jalr (.t 0) .syscallEnd }
  | .syscallEnd =>
      { code := [.st (a 0) sp (frameOffset cfg.target (.a 0))]
        exit := .jump .trapEnd }
  | .syscallUnknown =>
      { code := [.mv (a 6) (a 5), .mv (a 5) (a 4), .mv (a 4) (a 3), .mv (a 3) (a 2),
          .mv (a 2) (a 1), .mv (a 1) (a 0), .mv (a 0) (a 7)]
        exit := .call .sysUnknown .syscallEnd }
  | .trapInterrupt =>
      { code := [.csrr (a 0) .xcause]
        exit := .call .riscvInterrupt .trapEnd }
  | .trapException =>
      { code := [.csrr (a 0) .xcause]
        exit := .call .riscvException .trapEnd }
  | .trapEnd =>
      -- the bit is `RV_STATUS_MIE`, which `RV_STATUS_IE` stands for in both modes
      { code := [.li t0 (BitVec.ofNat _ (2 ^ 3)), .csrc .xstatus t0] ++
          loadStatusRegs cfg.target ++ loadRegs cfg.target ++
          [.ld sp sp (frameOffset cfg.target .sp)]
        exit := .leave }

end Isr

section Context

variable {t : Target}

/-- The contents of a frame that describe a hart: the integer registers, `xepc`,
`xstatus` and `xscratch`. -/
def hartContext (h : Hart t) : UserReg → BitVec t.bits
  | .ra => h.reg .ra
  | .sp => h.reg .sp
  | .gp => h.reg .gp
  | .tp => h.reg .tp
  | .t i => h.reg (.t i)
  | .a i => h.reg (.a i)
  | .s i => h.reg (.s i)
  | .mepc => h.csr .xepc
  | .mstatus => h.csr .xstatus
  | .mscratch => h.csr .xscratch

/-- The words at the addresses of a frame. -/
def frameAt (h : Hart t) (base : BitVec t.bits) (u : UserReg) : BitVec t.bits :=
  h.mem (base + frameOffset t u)

/-- The addresses of a frame. -/
def frameWords (t : Target) (base : BitVec t.bits) : Set (BitVec t.bits) :=
  Set.range fun u => base + frameOffset t u

/-- Where a trap puts its frame. -/
def trapBase (h : Hart t) : BitVec t.bits :=
  (if h.csr .xscratch = 0 then h.reg .sp else h.csr .xscratch) - regoffAll t

theorem hartContext_slot (h : Hart t) (r : Gpr) : hartContext h r.slot = h.reg r := by
  cases r <;> rfl

theorem frameAt_eq_of_eq_on {h h' : Hart t} {base : BitVec t.bits}
    (heq : ∀ x ∈ frameWords t base, h'.mem x = h.mem x) : frameAt h' base = frameAt h base :=
  funext fun u => heq _ ⟨u, rfl⟩

/-- Frames with the cells of the registers and those of the control registers alike. -/
theorem frame_ext {f g : UserReg → BitVec t.bits} (hreg : ∀ r : Gpr, f r.slot = g r.slot)
    (hepc : f .mepc = g .mepc) (hstatus : f .mstatus = g .mstatus)
    (hscratch : f .mscratch = g .mscratch) : f = g := by
  funext u
  cases u with
  | ra => exact hreg .ra
  | sp => exact hreg .sp
  | gp => exact hreg .gp
  | tp => exact hreg .tp
  | t i => exact hreg (.t i)
  | a i => exact hreg (.a i)
  | s i => exact hreg (.s i)
  | mepc => exact hepc
  | mstatus => exact hstatus
  | mscratch => exact hscratch

@[simp] theorem frameAt_setMem (h : Hart t) (base v : BitVec t.bits) (u : UserReg) :
    frameAt (h.setMem (base + frameOffset t u) v) base = Function.update (frameAt h base) u v := by
  funext u'
  by_cases hu : u' = u
  · rw [hu, Function.update_self]
    exact Function.update_self ..
  · rw [Function.update_of_ne hu]
    exact Function.update_of_ne (frameWord_inj.not.mpr hu) ..

@[simp] theorem frameAt_set (h : Hart t) (dst : Option Gpr) (v base : BitVec t.bits) :
    frameAt (h.set dst v) base = frameAt h base := by
  funext u
  simp [frameAt]

@[simp] theorem frameAt_setCsr (h : Hart t) (c : Csr) (v base : BitVec t.bits) :
    frameAt (h.setCsr c v) base = frameAt h base := rfl

theorem setMem_outside (h : Hart t) (base v : BitVec t.bits) (u : UserReg) {x : BitVec t.bits}
    (hx : x ∉ frameWords t base) : (h.setMem (base + frameOffset t u) v).mem x = h.mem x :=
  Function.update_of_ne (fun heq => hx ⟨u, heq.symm⟩) ..

end Context

namespace Isr

variable {t : Target}

/-- The registers of the three macros. -/
def savedRegs : List Gpr := callerRegs ++ calleeRegs ++ specialRegs

theorem mem_savedRegs {r : Gpr} (h : r ≠ .sp) : r ∈ savedRegs := by
  cases r with
  | sp => exact absurd rfl h
  | t i => revert i; decide
  | a i => revert i; decide
  | s i => revert i; decide
  | ra | gp | tp => decide

theorem sp_notMem_savedRegs : Gpr.sp ∉ savedRegs := by decide

theorem storeRegs_eq : storeRegs t = storeBlock savedRegs .sp (gprOffset t) := by
  simp only [storeRegs, savedRegs, storeBlock_append]

theorem loadRegs_eq : loadRegs t = loadBlock savedRegs .sp (gprOffset t) := by
  simp only [loadRegs, savedRegs, loadBlock_append]

/-- The register macros fill the cells of all registers but the stack pointer. -/
theorem storeRegs_spec (m : Hart t) :
    (run (storeRegs t) m).reg = m.reg ∧ (run (storeRegs t) m).csr = m.csr ∧
      (∀ r : Gpr, r ≠ .sp → frameAt (run (storeRegs t) m) (m.reg .sp) r.slot = m.reg r) ∧
      ∀ x ∉ frameWords t (m.reg .sp), (run (storeRegs t) m).mem x = m.mem x := by
  rw [storeRegs_eq]
  obtain ⟨hreg, hcsr⟩ := run_storeBlock_frame savedRegs Gpr.sp (gprOffset t) m
  refine ⟨hreg, hcsr, ?_, ?_⟩
  · intro r hr
    exact run_storeBlock_mem_of_mem gprOffset_inj (mem_savedRegs hr)
  · intro x hx
    apply run_storeBlock_mem_of_ne
    intro r _ heq
    exact hx ⟨r.slot, heq.symm⟩

/-- The status macro fills the cells of the control registers. -/
theorem storeStatusRegs_spec (m : Hart t) :
    (∀ r, r ≠ .t 0 → (run (storeStatusRegs t) m).reg r = m.reg r) ∧
      (run (storeStatusRegs t) m).csr = m.csr ∧
      frameAt (run (storeStatusRegs t) m) (m.reg .sp) =
        Function.update (Function.update (Function.update (frameAt m (m.reg .sp))
          .mepc (m.csr .xepc)) .mstatus (m.csr .xstatus)) .mscratch (m.csr .xscratch) ∧
      ∀ x ∉ frameWords t (m.reg .sp), (run (storeStatusRegs t) m).mem x = m.mem x := by
  refine ⟨?_, ?_, ?_, ?_⟩
  · intro r hr
    simp [storeStatusRegs, Instr.exec, Function.update_of_ne hr]
  · simp [storeStatusRegs, Instr.exec]
  · simp [storeStatusRegs, Instr.exec]
  · intro x hx
    simp [storeStatusRegs, Instr.exec, setMem_outside, hx]

/-- The state after the stores that both ways in share. -/
structure FrameStored (m m' : Hart t) (base : BitVec t.bits) : Prop where
  sp : m'.reg .sp = base
  csr : m'.csr = m.csr
  frame : ∀ u, u ≠ .sp → frameAt m' base u = hartContext m u
  outside : ∀ x ∉ frameWords t base, m'.mem x = m.mem x

/-- `addi sp, sp, -REGOFF_ALL` and the four macros that store. -/
theorem frameStored (m : Hart t) :
    FrameStored m (run ([.addi sp sp (-regoffAll t)] ++ storeRegs t ++ storeStatusRegs t) m)
      (m.reg .sp - regoffAll t) := by
  rw [run_append, run_append]
  generalize hm₁ : run [.addi sp sp (-regoffAll t)] m = m₁
  have hsp : m₁.reg .sp = m.reg .sp - regoffAll t := by
    simp [← hm₁, Instr.exec, sub_eq_add_neg]
  have hreg : ∀ r, r ≠ .sp → m₁.reg r = m.reg r := by
    intro r hr
    simp [← hm₁, Instr.exec, Function.update_of_ne hr]
  have hcsr : m₁.csr = m.csr := by simp [← hm₁, Instr.exec]
  have hmem : m₁.mem = m.mem := by simp [← hm₁, Instr.exec]
  obtain ⟨hreg₂, hcsr₂, hslot₂, hout₂⟩ := storeRegs_spec m₁
  generalize run (storeRegs t) m₁ = m₂ at *
  obtain ⟨hreg₃, hcsr₃, hframe₃, hout₃⟩ := storeStatusRegs_spec m₂
  generalize run (storeStatusRegs t) m₂ = m₃ at *
  rw [hreg₂, hsp] at hframe₃ hout₃
  rw [hsp] at hslot₂ hout₂
  have hslot : ∀ r : Gpr, r ≠ .sp → frameAt m₂ (m.reg .sp - regoffAll t) r.slot = m.reg r :=
    fun r hr => (hslot₂ r hr).trans (hreg r hr)
  constructor
  · rw [hreg₃ _ (by decide), hreg₂, hsp]
  · rw [hcsr₃, hcsr₂, hcsr]
  · intro u hu
    rw [hframe₃, hcsr₂, hcsr]
    cases u with
    | sp => exact absurd rfl hu
    | ra => simpa [Gpr.slot, hartContext] using hslot .ra (by decide)
    | gp => simpa [Gpr.slot, hartContext] using hslot .gp (by decide)
    | tp => simpa [Gpr.slot, hartContext] using hslot .tp (by decide)
    | t i => simpa [Gpr.slot, hartContext] using hslot (.t i) (by simp)
    | a i => simpa [Gpr.slot, hartContext] using hslot (.a i) (by simp)
    | s i => simpa [Gpr.slot, hartContext] using hslot (.s i) (by simp)
    | mepc | mstatus | mscratch => simp [hartContext]
  · intro x hx
    rw [hout₃ x hx, hout₂ x hx, hmem]

/-- The stack pointer is at a frame with given contents, the scratch register says that
this is kernel context, and the other words of `P` are as they were at the trap. -/
structure FrameHeld (P : Set (BitVec t.bits)) (s : Hart t) (f : UserReg → BitVec t.bits)
    (m : Hart t) : Prop where
  sp : m.reg .sp = trapBase s
  frame : frameAt m (trapBase s) = f
  scratch : m.csr .xscratch = 0
  kept : ∀ x ∈ P, x ∉ frameWords t (trapBase s) → m.mem x = s.mem x

/-- The frame holds the context at the trap, and `xepc` and `xcause` are as the trap set
them. -/
structure Entered (P : Set (BitVec t.bits)) (s m : Hart t) : Prop
    extends FrameHeld P s (hartContext s) m where
  epc : m.csr .xepc = s.csr .xepc
  cause : m.csr .xcause = s.csr .xcause

variable (cfg : TrapConfig)

/-- The exchange at the start of a trap. -/
theorem trapStart_spec (s : Hart cfg.target) :
    (run (piece cfg .trapStart).code s).reg = Function.update s.reg .sp (s.csr .xscratch) ∧
      (run (piece cfg .trapStart).code s).csr = Function.update s.csr .xscratch (s.reg .sp) ∧
      (run (piece cfg .trapStart).code s).mem = s.mem :=
  ⟨rfl, rfl, rfl⟩

/-- The way in from user context, up to the call. -/
theorem trapInUser_spec (P : Set (BitVec cfg.target.bits)) (s : Hart cfg.target)
    (hs : s.csr .xscratch ≠ 0) :
    Entered P s (run (piece cfg .trapInUser).code (run (piece cfg .trapStart).code s)) := by
  obtain ⟨hreg₀, hcsr₀, hmem₀⟩ := trapStart_spec cfg s
  generalize run (piece cfg .trapStart).code s = m₀ at *
  have hbase : m₀.reg .sp - regoffAll cfg.target = trapBase s := by
    rw [hreg₀, Function.update_self, trapBase, if_neg hs]
  have htop : trapBase s + regoffAll cfg.target = s.csr .xscratch := by
    rw [trapBase, if_neg hs, sub_add_cancel]
  have hstored := frameStored m₀
  rw [hbase] at hstored
  change Entered P s (run (_ ++ _) m₀)
  rw [run_append]
  generalize run _ m₀ = m at hstored
  -- the scratch register holds the user's stack pointer while the frame is stored
  have hscratch : m.csr .xscratch = s.reg .sp := by
    rw [hstored.csr, hcsr₀, Function.update_self]
  have hcsr : ∀ c, c ≠ .xscratch → m.csr c = s.csr c := by
    intro c hc
    rw [hstored.csr, hcsr₀, Function.update_of_ne hc]
  have hctx : ∀ u, u ≠ .sp → u ≠ .mscratch → frameAt m (trapBase s) u = hartContext s u := by
    intro u hu hu'
    rw [hstored.frame u hu]
    cases u <;> simp_all [hartContext]
  have hframe : frameAt (run [.csrr t0 .xscratch, .st t0 sp (frameOffset cfg.target .sp),
      .addi t0 sp (regoffAll cfg.target), .st t0 sp (frameOffset cfg.target .mscratch),
      .csrw .xscratch x0, .mv (a 0) sp] m) (trapBase s) =
        Function.update (Function.update (frameAt m (trapBase s)) .sp (s.reg .sp))
          .mscratch (s.csr .xscratch) := by
    simp [Instr.exec, hstored.sp, hscratch, htop]
  refine ⟨⟨?_, ?_, ?_, ?_⟩, ?_, ?_⟩
  · simp [Instr.exec, hstored.sp]
  · rw [hframe]
    funext u
    cases u <;> simp [hartContext, hctx]
  · simp [Instr.exec]
  · intro x _ hx
    have hmem : m.mem x = s.mem x := by rw [hstored.outside x hx, hmem₀]
    simp [Instr.exec, hstored.sp, setMem_outside, hx, hmem]
  · simp [Instr.exec, hcsr]
  · simp [Instr.exec, hcsr]

/-- The code for kernel context starts with the exchange too. -/
theorem trapInKernel_code : (piece cfg .trapInKernel).code =
    (piece cfg .trapStart).code ++ ([.addi sp sp (-regoffAll cfg.target)] ++
      storeRegs cfg.target ++ storeStatusRegs cfg.target) ++
      [.addi t0 sp (regoffAll cfg.target), .st t0 sp (frameOffset cfg.target .sp)] := by
  simp [piece]

/-- The way in from kernel context. -/
theorem trapInKernel_spec (P : Set (BitVec cfg.target.bits)) (s : Hart cfg.target)
    (hs : s.csr .xscratch = 0) :
    Entered P s (run (piece cfg .trapInKernel).code (run (piece cfg .trapStart).code s)) := by
  rw [trapInKernel_code, run_append, run_append]
  obtain ⟨hreg₀, hcsr₀, hmem₀⟩ := trapStart_spec cfg s
  generalize run (piece cfg .trapStart).code s = m₀ at *
  -- the second exchange undoes the first
  obtain ⟨hreg₁, hcsr₁, hmem₁⟩ := trapStart_spec cfg m₀
  generalize run (piece cfg .trapStart).code m₀ = m₁ at *
  have hreg : m₁.reg = s.reg := by
    rw [hreg₁, hcsr₀, Function.update_self, hreg₀]
    simp
  have hcsr : m₁.csr = s.csr := by
    rw [hcsr₁, hreg₀, Function.update_self, hcsr₀]
    simp
  have hbase : m₁.reg .sp - regoffAll cfg.target = trapBase s := by
    rw [hreg, trapBase, if_pos hs]
  have htop : trapBase s + regoffAll cfg.target = s.reg .sp := by
    rw [trapBase, if_pos hs, sub_add_cancel]
  have hstored := frameStored m₁
  rw [hbase] at hstored
  generalize run _ m₁ = m at *
  have hctx : ∀ u, u ≠ .sp → frameAt m (trapBase s) u = hartContext s u := by
    intro u hu
    rw [hstored.frame u hu]
    cases u <;> simp_all [hartContext]
  have hframe : frameAt (run [.addi t0 sp (regoffAll cfg.target),
      .st t0 sp (frameOffset cfg.target .sp)] m) (trapBase s) =
        Function.update (frameAt m (trapBase s)) .sp (s.reg .sp) := by
    simp [Instr.exec, hstored.sp, htop]
  refine ⟨⟨?_, ?_, ?_, ?_⟩, ?_, ?_⟩
  · simp [Instr.exec, hstored.sp]
  · rw [hframe]
    funext u
    cases u <;> simp [hartContext, hctx]
  · simp [Instr.exec, hstored.csr, hcsr, hs]
  · intro x _ hx
    have hmem : m.mem x = s.mem x := by rw [hstored.outside x hx, hmem₁, hmem₀]
    simp [Instr.exec, hstored.sp, setMem_outside, hx, hmem]
  · simp [Instr.exec, hstored.csr, hcsr]
  · simp [Instr.exec, hstored.csr, hcsr]

/-- The way out: the context is the contents of the frame. -/
theorem trapEnd_spec (m : Hart cfg.target) :
    hartContext (run (piece cfg .trapEnd).code m) = frameAt m (m.reg .sp) ∧
      (run (piece cfg .trapEnd).code m).mem = m.mem := by
  change hartContext (run (_ ++ _ ++ _ ++ _) m) = _ ∧ (run (_ ++ _ ++ _ ++ _) m).mem = _
  rw [run_append, run_append, run_append, loadRegs_eq]
  generalize hm₁ : run (loadStatusRegs cfg.target) (run _ m) = m₁
  have hsp₁ : m₁.reg .sp = m.reg .sp := by simp [← hm₁, loadStatusRegs, Instr.exec]
  have hmem₁ : m₁.mem = m.mem := by simp [← hm₁, loadStatusRegs, Instr.exec]
  have hepc₁ : m₁.csr .xepc = frameAt m (m.reg .sp) .mepc := by
    simp [← hm₁, loadStatusRegs, Instr.exec, frameAt]
  have hstatus₁ : m₁.csr .xstatus = frameAt m (m.reg .sp) .mstatus := by
    simp [← hm₁, loadStatusRegs, Instr.exec, frameAt]
  have hscratch₁ : m₁.csr .xscratch = frameAt m (m.reg .sp) .mscratch := by
    simp [← hm₁, loadStatusRegs, Instr.exec, frameAt]
  obtain ⟨hmem₂, hcsr₂⟩ := run_loadBlock_frame savedRegs Gpr.sp (gprOffset cfg.target) m₁
  have hsp₂ : (run (loadBlock savedRegs .sp (gprOffset cfg.target)) m₁).reg .sp = m.reg .sp :=
    (run_loadBlock_reg_of_not_mem sp_notMem_savedRegs).trans hsp₁
  have hreg₂ : ∀ r : Gpr, r ≠ .sp →
      (run (loadBlock savedRegs .sp (gprOffset cfg.target)) m₁).reg r =
        frameAt m (m.reg .sp) r.slot := by
    intro r hr
    rw [run_loadBlock_reg_of_mem sp_notMem_savedRegs (mem_savedRegs hr), hsp₁, hmem₁]
    rfl
  generalize run (loadBlock savedRegs .sp (gprOffset cfg.target)) m₁ = m₂ at *
  constructor
  · apply frame_ext
    · intro r
      rw [hartContext_slot]
      by_cases hr : r = .sp
      · simp [Instr.exec, hr, hsp₂, hmem₂, hmem₁, frameAt, Gpr.slot]
      · simp [Instr.exec, Function.update_of_ne hr, hreg₂ r hr]
    · simp [Instr.exec, hartContext, hcsr₂, hepc₁]
    · simp [Instr.exec, hartContext, hcsr₂, hstatus₁]
    · simp [Instr.exec, hartContext, hcsr₂, hscratch₁]
  · simp [Instr.exec, hmem₂, hmem₁]

end Isr

end BaremetalCrt
