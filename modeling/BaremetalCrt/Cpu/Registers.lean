import BaremetalCrt.Library.Numerals
import Mathlib.Logic.Function.Basic

/-!
# User registers

The register frame of a trap and of a thread, and the accessors by which the
architecture-independent code reads and writes single arguments of it.
Registers are 64 bits wide; a 32-bit build uses the low halves.
-/

namespace BaremetalCrt

/-- The cells of `k_arch_riscv_user_regs_t`. -/
inductive UserReg where
  | ra | sp | gp | tp
  | t (i : Fin 7)
  | a (i : Fin 8)
  | s (i : Fin 12)
  | mepc | mstatus | mscratch
  deriving DecidableEq

/-- The contents of `k_arch_user_regs_t`. -/
def UserRegs : Type := UserReg → BitVec 64

/-- `enum k_arch_arg_type`. -/
inductive ArgType where
  | arg1 | arg2 | arg3 | arg4 | arg5 | arg6
  | intaddr | retaddr | retval | stack | stackIntr | tls
  deriving DecidableEq

/-- The register that holds an argument. -/
def ArgType.reg : ArgType → UserReg
  | .arg1 | .retval => .a 0
  | .arg2 => .a 1
  | .arg3 => .a 2
  | .arg4 => .a 3
  | .arg5 => .a 4
  | .arg6 => .a 5
  | .retaddr => .ra
  | .stack => .sp
  | .stackIntr => .mscratch
  | .tls => .tp
  | .intaddr => .mepc

/-- `k_arch_get_arg`. -/
def kArchGetArg (regs : UserRegs) (t : ArgType) : BitVec 64 := regs t.reg

/-- `k_arch_set_arg`. -/
def kArchSetArg (regs : UserRegs) (t : ArgType) (val : BitVec 64) : UserRegs :=
  Function.update regs t.reg val

def xstatusMppMask : BitVec 64 := 0x3 <<< 11
def xstatusMppM : BitVec 64 := 0x3 <<< 11
def xstatusMpie : BitVec 64 := 0x1 <<< 7

/-- `k_arch_thread_init`: a new thread starts from the current context, in
machine mode and with interrupts enabled on return. -/
def kArchThreadInit (current : UserRegs) : UserRegs :=
  Function.update current .mstatus
    ((current .mstatus &&& ~~~xstatusMppMask) ||| xstatusMppM ||| xstatusMpie)

end BaremetalCrt
