import BaremetalCrt.Sys.Target
import Mathlib.Logic.Function.Basic

/-!
# The futex record of a CPU and the wake scan

Each CPU device holds one futex record: the word its current wait is
registered for and the flag that a waker sets. `k_cpu_futex_wake` goes over
all CPUs in the order of their ids.
-/

namespace BaremetalCrt

/-- `struct k_cpu_futex`. -/
structure CpuFutex where
  uaddr : Nat
  val : BitVec 32
  bitset : BitVec 32
  wakeup : Bool
  deriving DecidableEq

/-- The record outside of any wait. -/
def CpuFutex.idle : CpuFutex := ⟨0, 0, 0, false⟩

/-- The record that `k_cpu_futex_wait` registers. -/
def CpuFutex.waiting (uaddr : Nat) (val bitset : BitVec 32) : CpuFutex :=
  ⟨uaddr, val, bitset, false⟩

/-- The test of `k_cpu_futex_wake` on a record, made under the lock of its CPU. -/
def CpuFutex.matches (f : CpuFutex) (uaddr : Nat) (bitset : BitVec 32) : Bool :=
  f.uaddr == uaddr && f.bitset &&& bitset != 0

theorem CpuFutex.matches_iff {f : CpuFutex} {uaddr : Nat} {bitset : BitVec 32} :
    f.matches uaddr bitset = true ↔ f.uaddr = uaddr ∧ f.bitset &&& bitset ≠ 0 := by
  rw [CpuFutex.matches, Bool.and_eq_true, beq_iff_eq, bne_iff_ne]

/-- `FUTEX_BITSET_ANY`. -/
def futexBitsetAny : BitVec 32 := 0xffffffff

variable {N : Nat}

/-- The CPUs a scan looks at: those that exist, without the caller. -/
def wakeVisits (present : Fin N → Bool) (cur i : Fin N) : Bool := present i && i != cur

theorem wakeVisits_iff {present : Fin N → Bool} {cur i : Fin N} :
    wakeVisits present cur i = true ↔ present i = true ∧ i ≠ cur := by
  rw [wakeVisits, Bool.and_eq_true, bne_iff_ne]

/-- The scan over the CPUs that are left. The result counts the matching CPUs;
a failed interrupt replaces it by its error number before it is incremented. -/
def wakeScan (present : Fin N → Bool) (cur : Fin N) (uaddr : Nat) (val : Int)
    (bitset : BitVec 32) (ipi : Fin N → Int) :
    List (Fin N) → (Fin N → CpuFutex) → Int → (Fin N → CpuFutex) × Int
  | [], futex, res => (futex, res)
  | i :: rest, futex, res =>
      if res < val then
        if wakeVisits present cur i && (futex i).matches uaddr bitset then
          let futex := Function.update futex i { futex i with wakeup := true }
          let res := if ipi i ≠ 0 then ipi i else res
          wakeScan present cur uaddr val bitset ipi rest futex (res + 1)
        else wakeScan present cur uaddr val bitset ipi rest futex res
      else (futex, res)

/-- `k_cpu_futex_wake` without interleaving, called on CPU `cur`. -/
def kCpuFutexWake (present : Fin N → Bool) (futex : Fin N → CpuFutex) (cur : Fin N)
    (uaddr : Nat) (val : Int) (bitset : BitVec 32) (ipi : Fin N → Int) :
    (Fin N → CpuFutex) × Int :=
  if bitset = 0 then (futex, -einval)
  else wakeScan present cur uaddr val bitset ipi (List.finRange N) futex 0

end BaremetalCrt
