import BaremetalCrt.Library.Carry
import BaremetalCrt.Library.Runs
import BaremetalCrt.Sys.Target
import Mathlib.Data.BitVec

/-!
# The realtime clock

The monotonic clock is read from the default timer. The realtime clock is an offset
to it, which a setting computes with a borrow and a reading applies with a carry.

## Implementation notes

The timer is given with each call, as it answers at that time. Both timer drivers have
the two functions that the clock reads. Signed overflow wraps around.
-/

namespace BaremetalCrt

/-- `struct timespec64` and `struct timespec32`. -/
@[ext]
structure Timespec (w : Nat) where
  tvSec : BitVec w
  tvNsec : BitVec w
  deriving DecidableEq

/-- `struct timeval`: `time_t` is `long long`, `suseconds_t` is `long`. -/
structure Timeval (t : Target) where
  tvSec : BitVec 64
  tvUsec : BitVec t.bits

/-- The nanoseconds are less than one second. -/
def Timespec.Normal {w : Nat} (ts : Timespec w) : Prop :=
  0 ≤ ts.tvNsec.toInt ∧ ts.tvNsec.toInt < 1000000000

instance {w : Nat} (ts : Timespec w) : Decidable ts.Normal := inferInstanceAs (Decidable (_ ∧ _))

/-- A frequency that can be divided by. -/
abbrev Frequency : Type := { freq : BitVec 64 // freq ≠ 0 }

/-- The result of a function that failed. -/
abbrev Failure : Type := { r : Int // r ≠ 0 }

/-- What the functions of a timer driver answer. -/
structure Timer where
  getRaw : Except Failure (BitVec 64)
  getFreq : Except Failure Frequency

/-- The macro `timespecadd`. -/
def timespecadd (a b : Timespec 64) : Timespec 64 :=
  let sec := a.tvSec + b.tvSec
  let nsec := a.tvNsec + b.tvNsec
  if 1000000000 ≤ nsec.toInt then ⟨sec + 1, nsec - 1000000000⟩ else ⟨sec, nsec⟩

/-- The macro `timespecsub`. -/
def timespecsub (a b : Timespec 64) : Timespec 64 :=
  let sec := a.tvSec - b.tvSec
  let nsec := a.tvNsec - b.tvNsec
  if nsec.toInt < 0 then ⟨sec - 1, nsec + 1000000000⟩ else ⟨sec, nsec⟩

/-- `k_clock_raw_to_timespec`. -/
def kClockRawToTimespec (count : BitVec 64) (freq : Frequency) : Timespec 64 :=
  let sec := count / freq.val
  let rest := count - sec * freq.val
  ⟨sec, rest * 1000000000 / freq.val⟩

/-- `k_clock_get_monotonic`: the error or the value that it stores. -/
def kClockGetMonotonic (tm : Option Timer) : Except Failure (Timespec 64) :=
  match tm with
  | none => .error ⟨-enotsup, by decide⟩
  | some tm => do
      let cnt ← tm.getRaw
      let freq ← tm.getFreq
      return kClockRawToTimespec cnt freq

/-- `k_clock_get_realtime`: the error or the value that it stores. -/
def kClockGetRealtime (tm : Option Timer) (off : Timespec 64) : Except Failure (Timespec 64) := do
  let mono ← kClockGetMonotonic tm
  return timespecadd off mono

/-- `k_clock_set_realtime`: the new offset and the result. -/
def kClockSetRealtime (tm : Option Timer) (off : Timespec 64) (tsp : Option (Timespec 64)) :
    Timespec 64 × Int :=
  match tsp with
  | none => (off, -efault)
  | some ts =>
      match kClockGetMonotonic tm with
      | .error r => (off, r.val)
      | .ok mono => (timespecsub ts mono, 0)

def clockRealtime : Int := 0
def clockMonotonic : Int := 1

/-- Store a result through a pointer, or return the error. -/
def storeResult {α : Type} (tp : α) : Except Failure α → Option α × Int
  | .error r => (some tp, r.val)
  | .ok x => (some x, 0)

/-- `k_sys_clock_gettime64`: what the pointer refers to afterwards and the result. -/
def kSysClockGettime64 (tm : Option Timer) (off : Timespec 64) (clockId : Int)
    (tp : Option (Timespec 64)) : Option (Timespec 64) × Int :=
  match tp with
  | none => (none, -efault)
  | some old =>
      if clockId = clockRealtime then storeResult old (kClockGetRealtime tm off)
      else if clockId = clockMonotonic then storeResult old (kClockGetMonotonic tm)
      else (some old, -einval)

/-- `k_sys_clock_settime64`. -/
def kSysClockSettime64 (tm : Option Timer) (off : Timespec 64) (clockId : Int)
    (tp : Option (Timespec 64)) : Timespec 64 × Int :=
  match tp with
  | none => (off, -efault)
  | some ts =>
      if clockId = clockRealtime then kClockSetRealtime tm off (some ts) else (off, -einval)

def Timespec.widen (ts : Timespec 32) : Timespec 64 :=
  ⟨ts.tvSec.signExtend 64, ts.tvNsec.signExtend 64⟩

def Timespec.narrow (ts : Timespec 64) : Timespec 32 :=
  ⟨ts.tvSec.setWidth 32, ts.tvNsec.setWidth 32⟩

/-- `k_sys_clock_gettime32`, which stores through the pointer in every case. -/
def kSysClockGettime32 (tm : Option Timer) (off : Timespec 64) (clockId : Int)
    (tp : Option (Timespec 32)) : Option (Timespec 32) × Int :=
  let reply := kSysClockGettime64 tm off clockId (tp.map Timespec.widen)
  (reply.1.map Timespec.narrow, reply.2)

/-- `k_sys_clock_settime32`. -/
def kSysClockSettime32 (tm : Option Timer) (off : Timespec 64) (clockId : Int)
    (tp : Option (Timespec 32)) : Timespec 64 × Int :=
  kSysClockSettime64 tm off clockId (tp.map Timespec.widen)

section TimeOfDay

variable {t : Target}

/-- `k_sys_gettimeofday`. -/
def kSysGettimeofday (tm : Option Timer) (off : Timespec 64) (tp : Option (Timeval t)) :
    Option (Timeval t) × Int :=
  match tp with
  | none => (none, -efault)
  | some old =>
      storeResult old ((kClockGetRealtime tm off).map fun ts =>
        ⟨ts.tvSec, (ts.tvNsec.sdiv 1000).setWidth t.bits⟩)

/-- The time that `k_sys_settimeofday` sets; the product is a `long`. -/
def Timeval.toTimespec (tv : Timeval t) : Timespec 64 :=
  ⟨tv.tvSec, (tv.tvUsec * 1000).signExtend 64⟩

/-- `k_sys_settimeofday`. -/
def kSysSettimeofday (tm : Option Timer) (off : Timespec 64) (tp : Option (Timeval t)) :
    Timespec 64 × Int :=
  match tp with
  | none => (off, -efault)
  | some tv => kClockSetRealtime tm off (some tv.toTimespec)

end TimeOfDay

/-- The calls that read or set a clock. -/
inductive ClockCall (t : Target) where
  | gettime32 (tm : Option Timer) (clockId : Int) (tp : Option (Timespec 32))
  | settime32 (tm : Option Timer) (clockId : Int) (tp : Option (Timespec 32))
  | gettime64 (tm : Option Timer) (clockId : Int) (tp : Option (Timespec 64))
  | settime64 (tm : Option Timer) (clockId : Int) (tp : Option (Timespec 64))
  | gettimeofday (tm : Option Timer) (tp : Option (Timeval t))
  | settimeofday (tm : Option Timer) (tp : Option (Timeval t))

namespace ClockCall

variable {t : Target}

/-- The offset after a call. -/
def after (off : Timespec 64) : ClockCall t → Timespec 64
  | gettime32 .. | gettime64 .. | gettimeofday .. => off
  | settime32 tm clockId tp => (kSysClockSettime32 tm off clockId tp).1
  | settime64 tm clockId tp => (kSysClockSettime64 tm off clockId tp).1
  | settimeofday tm tp => (kSysSettimeofday tm off tp).1

/-- The calls that only read. -/
def IsGet : ClockCall t → Prop
  | gettime32 .. | gettime64 .. | gettimeofday .. => True
  | settime32 .. | settime64 .. | settimeofday .. => False

/-- The system of clock calls on the offset. -/
def step (off : Timespec 64) (c : ClockCall t) : Option (Timespec 64) := some (c.after off)

theorem after_of_isGet {c : ClockCall t} (h : c.IsGet) (off : Timespec 64) : c.after off = off := by
  cases c with
  | gettime32 | gettime64 | gettimeofday => rfl
  | settime32 | settime64 | settimeofday => exact h.elim

/-- Readings leave the offset alone. -/
theorem exec_gets {calls : List (ClockCall t)} (h : ∀ c ∈ calls, c.IsGet) {off off' : Timespec 64}
    (hrun : LabelledSystem.exec step off calls = some off') : off' = off := by
  apply LabelledSystem.exec_invariant_of_labels (I := fun o => o = off) rfl h hrun
  intro o c o' ho hc hstep
  rw [← Option.some.inj hstep, after_of_isGet hc, ho]

end ClockCall

/-- A value of `int64_t`. -/
def FitsInt64 (z : Int) : Prop := -2 ^ 63 ≤ z ∧ z < 2 ^ 63

theorem FitsInt64.bmod_eq {z : Int} (h : FitsInt64 z) : z.bmod (2 ^ 64) = z := by
  obtain ⟨h0, h1⟩ := h
  apply Int.bmod_eq_of_le
  · norm_num at h0 ⊢
    exact h0
  · norm_num at h1 ⊢
    exact h1

theorem FitsInt64.toInt_add {a b : BitVec 64} (h : FitsInt64 (a.toInt + b.toInt)) :
    (a + b).toInt = a.toInt + b.toInt := by
  rw [BitVec.toInt_add, h.bmod_eq]

theorem FitsInt64.toInt_sub {a b : BitVec 64} (h : FitsInt64 (a.toInt - b.toInt)) :
    (a - b).toInt = a.toInt - b.toInt := by
  rw [BitVec.toInt_sub, h.bmod_eq]

/-- A time as seconds and nanoseconds without a bound on the seconds. -/
def Timespec.pair (ts : Timespec 64) : CarryPair 1000000000 := ⟨ts.tvSec.toInt, ts.tvNsec.toInt⟩

/-- A time in nanoseconds. -/
def Timespec.nanos (ts : Timespec 64) : Int := ts.pair.value

section Arithmetic

variable {a b : Timespec 64}

theorem Timespec.Normal.toInt_nsec_add (ha : a.Normal) (hb : b.Normal) :
    (a.tvNsec + b.tvNsec).toInt = a.tvNsec.toInt + b.tvNsec.toInt := by
  obtain ⟨ha0, ha1⟩ := ha
  obtain ⟨hb0, hb1⟩ := hb
  exact FitsInt64.toInt_add ⟨by omega, by omega⟩

theorem Timespec.Normal.toInt_nsec_sub (ha : a.Normal) (hb : b.Normal) :
    (a.tvNsec - b.tvNsec).toInt = a.tvNsec.toInt - b.tvNsec.toInt := by
  obtain ⟨ha0, ha1⟩ := ha
  obtain ⟨hb0, hb1⟩ := hb
  exact FitsInt64.toInt_sub ⟨by omega, by omega⟩

theorem toInt_second : (1000000000 : BitVec 64).toInt = 1000000000 := by decide

theorem toInt_one : (1 : BitVec 64).toInt = 1 := by decide

/-- The nanoseconds of a sum do not depend on the seconds. -/
theorem Timespec.Normal.timespecadd_nsec (ha : a.Normal) (hb : b.Normal) :
    (timespecadd a b).tvNsec.toInt = (a.pair.add b.pair).lo := by
  have hsum := ha.toInt_nsec_add hb
  obtain ⟨ha0, ha1⟩ := ha
  obtain ⟨hb0, hb1⟩ := hb
  by_cases hcarry : 1000000000 ≤ a.tvNsec.toInt + b.tvNsec.toInt
  · have hfits : FitsInt64 ((a.tvNsec + b.tvNsec).toInt - (1000000000 : BitVec 64).toInt) := by
      rw [hsum, toInt_second]
      exact ⟨by omega, by omega⟩
    have hlo : 1000000000 ≤ a.pair.lo + b.pair.lo := hcarry
    rw [CarryPair.add_of_le hlo]
    simp only [timespecadd, hsum, if_pos hcarry, hfits.toInt_sub, toInt_second, Timespec.pair]
  · have hlo : ¬1000000000 ≤ a.pair.lo + b.pair.lo := hcarry
    rw [CarryPair.add_of_not_le hlo]
    simp only [timespecadd, hsum, if_neg hcarry, Timespec.pair]

theorem Timespec.Normal.timespecadd_sec (ha : a.Normal) (hb : b.Normal)
    (hsec : FitsInt64 (a.tvSec.toInt + b.tvSec.toInt))
    (hnext : FitsInt64 (a.tvSec.toInt + b.tvSec.toInt + 1)) :
    (timespecadd a b).tvSec.toInt = (a.pair.add b.pair).hi := by
  have hsum := ha.toInt_nsec_add hb
  by_cases hcarry : 1000000000 ≤ a.tvNsec.toInt + b.tvNsec.toInt
  · have hfits : FitsInt64 ((a.tvSec + b.tvSec).toInt + (1 : BitVec 64).toInt) := by
      rw [hsec.toInt_add, toInt_one]
      exact hnext
    have hlo : 1000000000 ≤ a.pair.lo + b.pair.lo := hcarry
    rw [CarryPair.add_of_le hlo]
    simp only [timespecadd, hsum, if_pos hcarry, hfits.toInt_add, hsec.toInt_add, toInt_one,
      Timespec.pair]
  · have hlo : ¬1000000000 ≤ a.pair.lo + b.pair.lo := hcarry
    rw [CarryPair.add_of_not_le hlo]
    simp only [timespecadd, hsum, if_neg hcarry, hsec.toInt_add, Timespec.pair]

/-- The carry of the code is the carry of the pairs. -/
theorem Timespec.Normal.timespecadd_pair (ha : a.Normal) (hb : b.Normal)
    (hsec : FitsInt64 (a.tvSec.toInt + b.tvSec.toInt))
    (hnext : FitsInt64 (a.tvSec.toInt + b.tvSec.toInt + 1)) :
    (timespecadd a b).pair = a.pair.add b.pair := by
  calc (timespecadd a b).pair
      = ⟨(timespecadd a b).tvSec.toInt, (timespecadd a b).tvNsec.toInt⟩ := rfl
    _ = ⟨(a.pair.add b.pair).hi, (a.pair.add b.pair).lo⟩ := by
        rw [ha.timespecadd_sec hb hsec hnext, ha.timespecadd_nsec hb]
    _ = a.pair.add b.pair := rfl

/-- A sum is normal whatever the seconds are. -/
theorem Timespec.Normal.add (ha : a.Normal) (hb : b.Normal) :
    (timespecadd a b).Normal := by
  have hpair : (a.pair.add b.pair).Normal := CarryPair.Normal.add ha hb
  rw [Timespec.Normal, ha.timespecadd_nsec hb]
  exact hpair

/-- The borrow of the code is the borrow of the pairs. -/
theorem Timespec.Normal.timespecsub_pair (ha : a.Normal) (hb : b.Normal)
    (hsec : FitsInt64 (a.tvSec.toInt - b.tvSec.toInt))
    (hprev : FitsInt64 (a.tvSec.toInt - b.tvSec.toInt - 1)) :
    (timespecsub a b).pair = a.pair.sub b.pair := by
  have hdiff := ha.toInt_nsec_sub hb
  obtain ⟨ha0, ha1⟩ := ha
  obtain ⟨hb0, hb1⟩ := hb
  by_cases hborrow : a.tvNsec.toInt - b.tvNsec.toInt < 0
  · have hfits : FitsInt64 ((a.tvSec - b.tvSec).toInt - (1 : BitVec 64).toInt) := by
      rw [hsec.toInt_sub, toInt_one]
      exact hprev
    have hnsec : FitsInt64 ((a.tvNsec - b.tvNsec).toInt + (1000000000 : BitVec 64).toInt) := by
      rw [hdiff, toInt_second]
      exact ⟨by omega, by omega⟩
    have hlo : a.pair.lo - b.pair.lo < 0 := hborrow
    rw [CarryPair.sub_of_lt hlo]
    simp only [timespecsub, Timespec.pair, hdiff, if_pos hborrow, hfits.toInt_sub, hsec.toInt_sub,
      hnsec.toInt_add, toInt_one, toInt_second]
  · have hlo : ¬a.pair.lo - b.pair.lo < 0 := hborrow
    rw [CarryPair.sub_of_not_lt hlo]
    simp only [timespecsub, Timespec.pair, hdiff, if_neg hborrow, hsec.toInt_sub]

end Arithmetic

theorem Frequency.pos (freq : Frequency) : 0 < freq.val.toNat := by
  apply Nat.pos_of_ne_zero
  intro hzero
  exact freq.property (BitVec.eq_of_toNat_eq hzero)

/-- What is left of a count behind its whole seconds. -/
theorem toNat_rest (count : BitVec 64) (freq : Frequency) :
    (count - count / freq.val * freq.val).toNat = count.toNat % freq.val.toNat := by
  have hmul : count.toNat / freq.val.toNat * freq.val.toNat ≤ count.toNat :=
    Nat.div_mul_le_self _ _
  have hprod : (count / freq.val * freq.val).toNat =
      count.toNat / freq.val.toNat * freq.val.toNat := by
    rw [BitVec.toNat_mul, BitVec.toNat_udiv]
    exact Nat.mod_eq_of_lt (lt_of_le_of_lt hmul count.isLt)
  rw [BitVec.toNat_sub_of_le (by rw [BitVec.le_def, hprod]; exact hmul), hprod,
    Nat.mod_eq_sub_div_mul]

/-- A reading of a timer is normal: the rest of the division is less than the frequency. -/
theorem kClockRawToTimespec_normal (count : BitVec 64) (freq : Frequency) :
    (kClockRawToTimespec count freq).Normal := by
  have hnsec : (kClockRawToTimespec count freq).tvNsec.toNat < 1000000000 := by
    change ((count - count / freq.val * freq.val) * 1000000000 / freq.val).toNat < 1000000000
    rw [BitVec.toNat_udiv, BitVec.toNat_mul, toNat_rest]
    apply Nat.div_lt_of_lt_mul
    calc (count.toNat % freq.val.toNat * (1000000000 : BitVec 64).toNat) % 2 ^ 64
        ≤ count.toNat % freq.val.toNat * 1000000000 := Nat.mod_le _ _
      _ < freq.val.toNat * 1000000000 :=
          Nat.mul_lt_mul_of_pos_right (Nat.mod_lt _ freq.pos) (by decide)
  have hint := BitVec.toInt_eq_toNat_of_lt
    (show 2 * (kClockRawToTimespec count freq).tvNsec.toNat < 2 ^ 64 by omega)
  rw [Timespec.Normal, hint]
  omega

theorem kClockGetMonotonic_normal {tm : Option Timer} {mono : Timespec 64}
    (h : kClockGetMonotonic tm = .ok mono) : mono.Normal := by
  cases tm with
  | none => cases h
  | some tm =>
      obtain ⟨raw, freq⟩ := tm
      cases raw with
      | error r => cases h
      | ok cnt =>
          cases freq with
          | error r => cases h
          | ok freq =>
              cases h
              exact kClockRawToTimespec_normal cnt freq

end BaremetalCrt
