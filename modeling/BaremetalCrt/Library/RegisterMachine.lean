import Mathlib.Data.BitVec
import Mathlib.Logic.Function.Basic

/-!
# Straight-line code of a register machine

A machine has registers, control registers and a memory of words. A list of
instructions without jumps is a function on states. The operand `none` is the
register that reads as zero and ignores writes.

## Implementation notes

A memory access names the word that starts at an address. Accesses to two addresses
are independent when the addresses differ, so the addresses of one program have to be
aligned alike.
-/

namespace RegisterMachine

variable {ρ κ : Type} {w : Nat}

/-- The registers, the control registers and the memory. -/
structure State (ρ κ : Type) (w : Nat) where
  reg : ρ → BitVec w
  csr : κ → BitVec w
  mem : BitVec w → BitVec w

/-- Instructions that go on to the next one. -/
inductive Instr (ρ κ : Type) (w : Nat) where
  | st (src base : Option ρ) (off : BitVec w)
  | ld (dst base : Option ρ) (off : BitVec w)
  | li (dst : Option ρ) (imm : BitVec w)
  | addi (dst src : Option ρ) (imm : BitVec w)
  | mv (dst src : Option ρ)
  | add (dst a b : Option ρ)
  | and (dst a b : Option ρ)
  | not (dst src : Option ρ)
  | slli (dst src : Option ρ) (n : Nat)
  | srli (dst src : Option ρ) (n : Nat)
  | csrr (dst : Option ρ) (c : κ)
  | csrw (c : κ) (src : Option ρ)
  | csrrw (dst : Option ρ) (c : κ) (src : Option ρ)
  | csrc (c : κ) (src : Option ρ)

/-- The value of an operand. -/
def State.get (s : State ρ κ w) : Option ρ → BitVec w
  | none => 0
  | some r => s.reg r

@[simp] theorem State.get_some (s : State ρ κ w) (r : ρ) : s.get (some r) = s.reg r := rfl

@[simp] theorem State.get_none (s : State ρ κ w) : s.get none = 0 := rfl

variable [DecidableEq ρ] [DecidableEq κ]

/-- Write a register. -/
def State.set (s : State ρ κ w) (dst : Option ρ) (v : BitVec w) : State ρ κ w :=
  match dst with
  | none => s
  | some r => { s with reg := Function.update s.reg r v }

/-- Write a control register. -/
def State.setCsr (s : State ρ κ w) (c : κ) (v : BitVec w) : State ρ κ w :=
  { s with csr := Function.update s.csr c v }

/-- Write a word of the memory. -/
def State.setMem (s : State ρ κ w) (a v : BitVec w) : State ρ κ w :=
  { s with mem := Function.update s.mem a v }

section Projections

variable (s : State ρ κ w) (r : ρ) (c : κ) (a v : BitVec w)

omit [DecidableEq κ] in
@[simp] theorem State.set_reg : (s.set (some r) v).reg = Function.update s.reg r v := rfl
omit [DecidableEq κ] in
@[simp] theorem State.set_csr (dst : Option ρ) : (s.set dst v).csr = s.csr := by cases dst <;> rfl
omit [DecidableEq κ] in
@[simp] theorem State.set_mem (dst : Option ρ) : (s.set dst v).mem = s.mem := by cases dst <;> rfl
omit [DecidableEq ρ] in
@[simp] theorem State.setCsr_reg : (s.setCsr c v).reg = s.reg := rfl
omit [DecidableEq ρ] in
@[simp] theorem State.setCsr_csr : (s.setCsr c v).csr = Function.update s.csr c v := rfl
omit [DecidableEq ρ] in
@[simp] theorem State.setCsr_mem : (s.setCsr c v).mem = s.mem := rfl
omit [DecidableEq ρ] [DecidableEq κ] in
@[simp] theorem State.setMem_reg : (s.setMem a v).reg = s.reg := rfl
omit [DecidableEq ρ] [DecidableEq κ] in
@[simp] theorem State.setMem_csr : (s.setMem a v).csr = s.csr := rfl
omit [DecidableEq ρ] [DecidableEq κ] in
@[simp] theorem State.setMem_mem : (s.setMem a v).mem = Function.update s.mem a v := rfl

end Projections

/-- The effect of one instruction. -/
def Instr.exec (s : State ρ κ w) : Instr ρ κ w → State ρ κ w
  | st src base off => s.setMem (s.get base + off) (s.get src)
  | ld dst base off => s.set dst (s.mem (s.get base + off))
  | li dst imm => s.set dst imm
  | addi dst src imm => s.set dst (s.get src + imm)
  | mv dst src => s.set dst (s.get src)
  | add dst a b => s.set dst (s.get a + s.get b)
  | and dst a b => s.set dst (s.get a &&& s.get b)
  | not dst src => s.set dst (~~~s.get src)
  | slli dst src n => s.set dst (s.get src <<< n)
  | srli dst src n => s.set dst (s.get src >>> n)
  | csrr dst c => s.set dst (s.csr c)
  | csrw c src => s.setCsr c (s.get src)
  | csrrw dst c src => (s.setCsr c (s.get src)).set dst (s.csr c)
  | csrc c src => s.setCsr c (s.csr c &&& ~~~s.get src)

/-- The effect of a list of instructions. -/
def run (code : List (Instr ρ κ w)) (s : State ρ κ w) : State ρ κ w := code.foldl Instr.exec s

@[simp] theorem run_nil (s : State ρ κ w) : run [] s = s := rfl

@[simp] theorem run_cons (i : Instr ρ κ w) (code : List (Instr ρ κ w)) (s : State ρ κ w) :
    run (i :: code) s = run code (i.exec s) := rfl

theorem run_append (code code' : List (Instr ρ κ w)) (s : State ρ κ w) :
    run (code ++ code') s = run code' (run code s) :=
  List.foldl_append

/-- Store registers at their offsets from a base register. -/
def storeBlock (rs : List ρ) (base : ρ) (off : ρ → BitVec w) : List (Instr ρ κ w) :=
  rs.map fun r => .st (some r) (some base) (off r)

/-- Load registers from their offsets from a base register. -/
def loadBlock (rs : List ρ) (base : ρ) (off : ρ → BitVec w) : List (Instr ρ κ w) :=
  rs.map fun r => .ld (some r) (some base) (off r)

section Blocks

variable {rs : List ρ} {base : ρ} {off : ρ → BitVec w} {s : State ρ κ w}

omit [DecidableEq ρ] [DecidableEq κ] in
theorem storeBlock_append (rs rs' : List ρ) (base : ρ) (off : ρ → BitVec w) :
    (storeBlock (rs ++ rs') base off : List (Instr ρ κ w)) =
      storeBlock rs base off ++ storeBlock rs' base off :=
  List.map_append

omit [DecidableEq ρ] [DecidableEq κ] in
theorem loadBlock_append (rs rs' : List ρ) (base : ρ) (off : ρ → BitVec w) :
    (loadBlock (rs ++ rs') base off : List (Instr ρ κ w)) =
      loadBlock rs base off ++ loadBlock rs' base off :=
  List.map_append

/-- A block of stores changes the memory only. -/
theorem run_storeBlock_frame (rs : List ρ) (base : ρ) (off : ρ → BitVec w) (s : State ρ κ w) :
    (run (storeBlock rs base off) s).reg = s.reg ∧
      (run (storeBlock rs base off) s).csr = s.csr := by
  induction rs generalizing s with
  | nil => exact ⟨rfl, rfl⟩
  | cons r rs ih => exact ih _

/-- Words at other addresses stay. -/
theorem run_storeBlock_mem_of_ne {a : BitVec w} (h : ∀ r ∈ rs, a ≠ s.reg base + off r) :
    (run (storeBlock rs base off) s).mem a = s.mem a := by
  induction rs generalizing s with
  | nil => rfl
  | cons r rs ih =>
      obtain ⟨hr, hrs⟩ := List.forall_mem_cons.mp h
      calc (run (storeBlock (r :: rs) base off) s).mem a
          = (s.setMem (s.reg base + off r) (s.reg r)).mem a := ih hrs
        _ = s.mem a := Function.update_of_ne hr ..

/-- Each register is found at its own offset. -/
theorem run_storeBlock_mem_of_mem (hinj : ∀ r r', off r = off r' → r = r') {r : ρ} (hr : r ∈ rs) :
    (run (storeBlock rs base off) s).mem (s.reg base + off r) = s.reg r := by
  induction rs generalizing s with
  | nil => cases hr
  | cons r' rs ih =>
      by_cases hmem : r ∈ rs
      · exact ih (s := s.setMem (s.reg base + off r') (s.reg r')) hmem
      · obtain rfl : r = r' := (List.mem_cons.mp hr).resolve_right hmem
        have hrest : ∀ r'' ∈ rs, s.reg base + off r ≠ s.reg base + off r'' := by
          intro r'' hr'' heq
          exact hmem (hinj r r'' (add_left_cancel heq) ▸ hr'')
        calc (run (storeBlock (r :: rs) base off) s).mem (s.reg base + off r)
            = (s.setMem (s.reg base + off r) (s.reg r)).mem (s.reg base + off r) :=
              run_storeBlock_mem_of_ne (s := s.setMem (s.reg base + off r) (s.reg r)) hrest
          _ = s.reg r := Function.update_self ..

/-- A block of loads changes registers only. -/
theorem run_loadBlock_frame (rs : List ρ) (base : ρ) (off : ρ → BitVec w) (s : State ρ κ w) :
    (run (loadBlock rs base off) s).mem = s.mem ∧
      (run (loadBlock rs base off) s).csr = s.csr := by
  induction rs generalizing s with
  | nil => exact ⟨rfl, rfl⟩
  | cons r rs ih => exact ih _

theorem run_loadBlock_reg_of_not_mem {r : ρ} (h : r ∉ rs) :
    (run (loadBlock rs base off) s).reg r = s.reg r := by
  induction rs generalizing s with
  | nil => rfl
  | cons r' rs ih =>
      obtain ⟨hne, hrs⟩ := not_or.mp (List.mem_cons.not.mp h)
      calc (run (loadBlock (r' :: rs) base off) s).reg r
          = (s.set (some r') (s.mem (s.reg base + off r'))).reg r := ih hrs
        _ = s.reg r := Function.update_of_ne hne ..

/-- Each register gets the word at its own offset, if the base is not loaded. -/
theorem run_loadBlock_reg_of_mem (hbase : base ∉ rs) {r : ρ} (hr : r ∈ rs) :
    (run (loadBlock rs base off) s).reg r = s.mem (s.reg base + off r) := by
  induction rs generalizing s with
  | nil => cases hr
  | cons r' rs ih =>
      obtain ⟨hne, hrest⟩ := not_or.mp (List.mem_cons.not.mp hbase)
      have hreg : (s.set (some r') (s.mem (s.reg base + off r'))).reg base = s.reg base :=
        Function.update_of_ne hne ..
      by_cases hmem : r ∈ rs
      · have hload := ih (s := s.set (some r') (s.mem (s.reg base + off r'))) hrest hmem
        rw [hreg] at hload
        exact hload
      · obtain rfl : r = r' := (List.mem_cons.mp hr).resolve_right hmem
        calc (run (loadBlock (r :: rs) base off) s).reg r
            = (s.set (some r) (s.mem (s.reg base + off r))).reg r :=
              run_loadBlock_reg_of_not_mem hmem
          _ = s.mem (s.reg base + off r) := Function.update_self ..

end Blocks

end RegisterMachine
