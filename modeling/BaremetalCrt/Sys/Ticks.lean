import BaremetalCrt.Library.Rescaling
import BaremetalCrt.Sys.Clock

/-!
# Counts, times and the system tick

The counter of a timer counts at its frequency, a time counts seconds and nanoseconds.
`k_clock_on_tick` reads the time, adds the length of a tick and lets the driver convert the
sum back to a count that the timer compares its counter with.

## Implementation notes

The registers of the timer are 32-bit words at multiples of four, and a 64-bit access is one
access to two of them. The counter is given with each call, as it answers at that time.
-/

namespace BaremetalCrt

open Rescaling

/-- `k_clock_timespec_to_raw`: the error or the count that it stores. -/
def kClockTimespecToRaw (tsp : Option (Timespec 64)) (freq : BitVec 64) :
    Except Failure (BitVec 64) :=
  match tsp with
  | none => .error ⟨-efault, by decide⟩
  | some ts => .ok (ts.tvSec * freq + ts.tvNsec * freq / 1000000000)

/-- A timer of the clint: its input frequency and its registers. -/
structure ClintTimer where
  freqIn : BitVec 64
  regs : Nat → BitVec 32

namespace ClintTimer

def read32 (tm : ClintTimer) (off : Nat) : BitVec 32 := tm.regs off

def read64 (tm : ClintTimer) (off : Nat) : BitVec 64 := tm.regs (off + 4) ++ tm.regs off

def write32 (tm : ClintTimer) (val : BitVec 32) (off : Nat) : ClintTimer :=
  { tm with regs := Function.update tm.regs off val }

def write64 (tm : ClintTimer) (val : BitVec 64) (off : Nat) : ClintTimer :=
  { tm with regs := fun o =>
      if o = off then val.setWidth 32 else if o = off + 4 then (val >>> 32).setWidth 32
      else tm.regs o }

end ClintTimer

/-- `REG_MTIMECMP` and `REG_MTIMECMPL`. -/
def regMtimecmp (hart : Nat) : Nat := 0x0000 + hart * 8

/-- `REG_MTIMECMPH`. -/
def regMtimecmph (hart : Nat) : Nat := 0x0004 + hart * 8

/-- `timer_clint_get_freq`. -/
def timerClintGetFreq (tm : ClintTimer) : Except Failure Frequency :=
  if h : tm.freqIn = 0 then .error ⟨-einval, neg_einval_ne_zero⟩ else .ok ⟨tm.freqIn, h⟩

/-- `timer_clint_get_timecmp`. -/
def timerClintGetTimecmp (t : Target) (tm : ClintTimer) (index : Nat) : BitVec 64 :=
  if t.bits = 64 then tm.read64 (regMtimecmp index)
  else
    let vh := tm.read32 (regMtimecmph index)
    let vl := tm.read32 (regMtimecmp index)
    vh.setWidth 64 <<< 32 ||| vl.setWidth 64

/-- `timer_clint_set_timecmp`. A 32-bit target writes the high word first. -/
def timerClintSetTimecmp (t : Target) (tm : ClintTimer) (index : Nat) (count : BitVec 64) :
    ClintTimer :=
  if t.bits = 64 then tm.write64 count (regMtimecmp index)
  else
    let tm := tm.write32 ((count >>> 32).setWidth 32) (regMtimecmph index)
    tm.write32 (count.setWidth 32) (regMtimecmp index)

/-- `timer_clint_get_trigger`: the error or the time that it stores. -/
def timerClintGetTrigger (t : Target) (tm : ClintTimer) (index : Nat) :
    Except Failure (Timespec 64) := do
  let freq ← timerClintGetFreq tm
  return kClockRawToTimespec (timerClintGetTimecmp t tm index) freq

/-- `timer_clint_set_trigger`. -/
def timerClintSetTrigger (t : Target) (tm : ClintTimer) (index : Nat)
    (tsp : Option (Timespec 64)) : ClintTimer × Int :=
  match timerClintGetFreq tm with
  | .error r => (tm, r.val)
  | .ok freq =>
      match kClockTimespecToRaw tsp freq.val with
      | .error r => (tm, r.val)
      | .ok cnt => (timerClintSetTimecmp t tm index cnt, 0)

/-- The default timer as a tick uses it: what it answers, and the function that programs its
trigger for the CPU, which a driver need not have. -/
structure TickTimer (σ : Type) where
  answers : Timer
  setTrigger : Option (σ → Option (Timespec 64) → σ × Int)

/-- The ticks in a second: `CONFIG_SYSTEM_TIMER_HZ` where it is set. -/
def tickHz (systemTimerHz : Option (BitVec 64)) : BitVec 64 := systemTimerHz.getD 100

/-- The length of a tick. -/
def tickLength (systemTimerHz : Option (BitVec 64)) : Timespec 64 :=
  ⟨0, 1000000000 / tickHz systemTimerHz⟩

/-- `k_clock_on_tick` on the state of the driver. -/
def kClockOnTick {σ : Type} (systemTimerHz : Option (BitVec 64)) (tm : Option (TickTimer σ))
    (s : σ) : σ × Int :=
  match tm with
  | none => (s, -enotsup)
  | some tm =>
      match tm.setTrigger with
      | none => (s, 0)
      | some setTrigger =>
          match kClockGetMonotonic (some tm.answers) with
          | .error r => (s, r.val)
          | .ok cur => setTrigger s (some (timespecadd cur (tickLength systemTimerHz)))

/-- The timer of the clint at a reading of its counter. -/
def clintTickTimer (t : Target) (tm : ClintTimer) (index : Nat) (count : BitVec 64) :
    TickTimer ClintTimer where
  answers := ⟨.ok count, timerClintGetFreq tm⟩
  setTrigger := some fun tm => timerClintSetTrigger t tm index

/-- The nanoseconds of a time that is not before zero. -/
def Timespec.elapsed (ts : Timespec 64) : Nat := ts.tvSec.toNat * 1000000000 + ts.tvNsec.toNat

theorem toInt_of_lt {x : BitVec 64} (h : x.toNat < 2 ^ 63) : x.toInt = x.toNat :=
  BitVec.toInt_eq_toNat_of_lt (by omega)

theorem toNat_lt_of_toInt_nonneg {x : BitVec 64} (h : 0 ≤ x.toInt) : x.toNat < 2 ^ 63 := by
  have hlt := x.isLt
  rw [BitVec.toInt_eq_toNat_cond] at h
  by_contra hbig
  rw [if_neg (by omega)] at h
  omega

theorem Timespec.Normal.toNat_nsec_lt {ts : Timespec 64} (h : ts.Normal) :
    ts.tvNsec.toNat < 1000000000 := by
  have hint := toInt_of_lt (toNat_lt_of_toInt_nonneg h.1)
  have hless := h.2
  omega

theorem Timespec.Normal.nanos_eq_elapsed {ts : Timespec 64} (h : ts.Normal)
    (hsec : ts.tvSec.toNat < 2 ^ 63) : ts.nanos = ts.elapsed := by
  have hnsec := toInt_of_lt (toNat_lt_of_toInt_nonneg h.1)
  rw [Timespec.nanos, Timespec.pair, CarryPair.value, toInt_of_lt hsec, hnsec, Timespec.elapsed]
  push_cast
  rfl

section Conversions

variable {freq : Frequency}

theorem kClockRawToTimespec_sec (count : BitVec 64) (freq : Frequency) :
    (kClockRawToTimespec count freq).tvSec.toNat = count.toNat / freq.val.toNat :=
  BitVec.toNat_udiv

/-- The product that gives the nanoseconds does not wrap. -/
theorem rest_no_wrap (hfreq : freq.val.toNat ≤ 18446744073) (count : BitVec 64) :
    count.toNat % freq.val.toNat * 1000000000 < 2 ^ 64 := by
  have := Nat.mod_lt count.toNat freq.pos
  omega

theorem kClockRawToTimespec_nsec (hfreq : freq.val.toNat ≤ 18446744073) (count : BitVec 64) :
    (kClockRawToTimespec count freq).tvNsec.toNat =
      rescale freq.val.toNat 1000000000 (count.toNat % freq.val.toNat) := by
  change ((count - count / freq.val * freq.val) * 1000000000 / freq.val).toNat = _
  rw [BitVec.toNat_udiv, BitVec.toNat_mul, toNat_rest]
  exact congrArg (· / freq.val.toNat) (Nat.mod_eq_of_lt (rest_no_wrap hfreq count))

/-- A reading of the counter is the count at a frequency of one nanosecond. -/
theorem kClockRawToTimespec_elapsed (hfreq : freq.val.toNat ≤ 18446744073) (count : BitVec 64) :
    (kClockRawToTimespec count freq).elapsed =
      rescale freq.val.toNat 1000000000 count.toNat := by
  rw [Timespec.elapsed, kClockRawToTimespec_sec, kClockRawToTimespec_nsec hfreq,
    ← rescale_seconds freq.pos, Nat.div_add_mod']

/-- The count of a time, where nothing wraps. -/
theorem toNat_timespec_raw {ts : Timespec 64} {f : BitVec 64}
    (hnsec : ts.tvNsec.toNat * f.toNat < 2 ^ 64)
    (hfit : rescale 1000000000 f.toNat ts.elapsed < 2 ^ 64) :
    (ts.tvSec * f + ts.tvNsec * f / 1000000000).toNat = rescale 1000000000 f.toNat ts.elapsed := by
  rw [Timespec.elapsed, rescale_seconds (by decide)] at hfit ⊢
  have hrest : (ts.tvNsec * f / 1000000000).toNat =
      rescale 1000000000 f.toNat ts.tvNsec.toNat := by
    rw [BitVec.toNat_udiv, BitVec.toNat_mul, Nat.mod_eq_of_lt hnsec]
    rfl
  have hwhole : (ts.tvSec * f).toNat = ts.tvSec.toNat * f.toNat := by
    rw [BitVec.toNat_mul, Nat.mod_eq_of_lt (by omega)]
  rw [BitVec.toNat_add, hrest, hwhole, Nat.mod_eq_of_lt hfit]

/-- `k_clock_timespec_to_raw` on a time with normal nanoseconds. -/
theorem kClockTimespecToRaw_spec {ts : Timespec 64} {f : BitVec 64}
    (hnsec : ts.tvNsec.toNat < 1000000000) (hf : f.toNat ≤ 18446744073)
    (hfit : rescale 1000000000 f.toNat ts.elapsed < 2 ^ 64) :
    ∃ raw, kClockTimespecToRaw (some ts) f = .ok raw ∧
      raw.toNat = rescale 1000000000 f.toNat ts.elapsed := by
  refine ⟨_, rfl, toNat_timespec_raw ?_ hfit⟩
  calc ts.tvNsec.toNat * f.toNat ≤ 1000000000 * 18446744073 :=
        Nat.mul_le_mul (Nat.le_of_lt hnsec) hf
    _ < 2 ^ 64 := by decide

/-- Up to a frequency of one nanosecond at most one count is lost. -/
theorem rescale_back_le_succ {f : Nat} (hpos : 0 < f) (hf : f ≤ 1000000000) (x : Nat) :
    x ≤ rescale 1000000000 f (rescale f 1000000000 x) + 1 := by
  have hback := le_rescale_rescale_add (g := 1000000000) hpos (by decide) x
  have hone : (f + 1000000000 - 1) / 1000000000 ≤ 1 := by
    apply Nat.le_of_lt_succ
    apply Nat.div_lt_of_lt_mul
    omega
  omega

theorem kClockRawToTimespec_nanos (hfreq : freq.val.toNat ≤ 18446744073) {count : BitVec 64}
    (hsec : count.toNat / freq.val.toNat < 2 ^ 63) :
    (kClockRawToTimespec count freq).nanos =
      (rescale freq.val.toNat 1000000000 count.toNat : Nat) := by
  have hsmall : (kClockRawToTimespec count freq).tvSec.toNat < 2 ^ 63 := by
    rw [kClockRawToTimespec_sec]
    exact hsec
  rw [(kClockRawToTimespec_normal count freq).nanos_eq_elapsed hsmall,
    kClockRawToTimespec_elapsed hfreq]

/-- A reading of the monotonic clock. -/
theorem kSysClockGettime64_monotonic (count : BitVec 64) (freq : Frequency) (off tp : Timespec 64) :
    kSysClockGettime64 (some ⟨.ok count, .ok freq⟩) off clockMonotonic (some tp) =
      (some (kClockRawToTimespec count freq), 0) :=
  rfl

/-- The time of a count is exact to the nanosecond, nothing overflows on the way, and the
monotonic clock does not go back when the counter does not. -/
theorem raw_to_timespec_exact (freq : Frequency) (hfreq : freq.val.toNat ≤ 18446744073)
    (count : BitVec 64) (hsec : count.toNat / freq.val.toNat < 2 ^ 63) :
    let ts := kClockRawToTimespec count freq
    (0 ≤ ts.tvNsec.toInt ∧ ts.tvNsec.toInt < 1000000000) ∧
    ts.tvSec.toInt * 1000000000 + ts.tvNsec.toInt =
      (count.toNat * 1000000000 / freq.val.toNat : Nat) ∧
    ((count / freq.val).toNat * freq.val.toNat < 2 ^ 64 ∧
      (count / freq.val * freq.val).toNat ≤ count.toNat ∧
      (count - count / freq.val * freq.val).toNat * 1000000000 < 2 ^ 64 ∧
      ts.tvSec.toInt = (count.toNat / freq.val.toNat : Nat)) ∧
    ∀ earlier : BitVec 64, earlier.toNat ≤ count.toNat →
      (kClockRawToTimespec earlier freq).nanos ≤ ts.nanos ∧
      ∀ off off' tp tp' : Timespec 64, ∃ ts₁ ts₂ : Timespec 64,
        kSysClockGettime64 (some ⟨.ok earlier, .ok freq⟩) off clockMonotonic (some tp) =
          (some ts₁, 0) ∧
        kSysClockGettime64 (some ⟨.ok count, .ok freq⟩) off' clockMonotonic (some tp') =
          (some ts₂, 0) ∧
        ts₁.nanos ≤ ts₂.nanos := by
  intro ts
  have hwhole : (count / freq.val).toNat * freq.val.toNat ≤ count.toNat := by
    rw [BitVec.toNat_udiv]
    exact Nat.div_mul_le_self _ _
  have hnanos : ts.nanos = _ := kClockRawToTimespec_nanos hfreq hsec
  have hmono : ∀ earlier : BitVec 64, earlier.toNat ≤ count.toNat →
      (kClockRawToTimespec earlier freq).nanos ≤ ts.nanos := by
    intro earlier hle
    have hearlier : earlier.toNat / freq.val.toNat < 2 ^ 63 :=
      Nat.lt_of_le_of_lt (Nat.div_le_div_right hle) hsec
    rw [hnanos, kClockRawToTimespec_nanos hfreq hearlier]
    exact Int.ofNat_le.mpr (rescale_mono hle)
  refine ⟨kClockRawToTimespec_normal count freq, hnanos, ⟨?_, ?_, ?_, ?_⟩, ?_⟩
  · exact Nat.lt_of_le_of_lt hwhole count.isLt
  · rw [BitVec.toNat_mul]
    exact Nat.le_trans (Nat.mod_le _ _) hwhole
  · rw [toNat_rest]
    exact rest_no_wrap hfreq count
  · have hnat := kClockRawToTimespec_sec count freq
    rw [toInt_of_lt (hnat ▸ hsec), hnat]
  · intro earlier hle
    refine ⟨hmono earlier hle, fun off off' tp tp' => ?_⟩
    exact ⟨_, _, kSysClockGettime64_monotonic earlier freq off tp,
      kSysClockGettime64_monotonic count freq off' tp', hmono earlier hle⟩

theorem raw_to_timespec_exact_board :
    (kClockRawToTimespec 25000001 ⟨10000000, by decide⟩).nanos ≤
      (kClockRawToTimespec 25000003 ⟨10000000, by decide⟩).nanos :=
  ((raw_to_timespec_exact ⟨10000000, by decide⟩ (by decide) 25000003 (by decide)).2.2.2
    25000001 (by decide)).1

/-- The count of a time before it is stored in 64 bits. -/
def Timespec.rawCount (ts : Timespec 64) (freq : BitVec 64) : Int :=
  ts.tvSec.toInt * freq.toNat + ts.tvNsec.toInt * freq.toNat / 1000000000

/-- A count that fits is the count of a time that is not before zero. -/
theorem Timespec.Normal.rawCount_eq {ts : Timespec 64} (h : ts.Normal)
    (hcount : 0 ≤ ts.rawCount freq.val) :
    ts.tvSec.toNat < 2 ^ 63 ∧
      ts.rawCount freq.val = (rescale 1000000000 freq.val.toNat ts.elapsed : Nat) := by
  have hnsec := toInt_of_lt (toNat_lt_of_toInt_nonneg h.1)
  have hrest : ts.tvNsec.toInt * freq.val.toNat / 1000000000 =
      (rescale 1000000000 freq.val.toNat ts.tvNsec.toNat : Nat) := by
    rw [hnsec, rescale]
    push_cast
    rfl
  have hless : rescale 1000000000 freq.val.toNat ts.tvNsec.toNat < freq.val.toNat :=
    rescale_lt freq.pos h.toNat_nsec_lt
  have hsec : ts.tvSec.toNat < 2 ^ 63 := by
    apply toNat_lt_of_toInt_nonneg
    by_contra hneg
    have hwhole : ts.tvSec.toInt * freq.val.toNat ≤ -1 * freq.val.toNat :=
      Int.mul_le_mul_of_nonneg_right (by omega) (Int.natCast_nonneg _)
    rw [Timespec.rawCount, hrest] at hcount
    omega
  refine ⟨hsec, ?_⟩
  rw [Timespec.rawCount, hrest, toInt_of_lt hsec, Timespec.elapsed, rescale_seconds (by decide)]
  push_cast
  rfl

/-- The seconds of a time survive the way to a count and back. -/
theorem kClockRawToTimespec_sec_back {ts : Timespec 64} (hts : ts.Normal) {raw : BitVec 64}
    (hraw : raw.toNat = rescale 1000000000 freq.val.toNat ts.elapsed) :
    (kClockRawToTimespec raw freq).tvSec = ts.tvSec := by
  -- the rest of the count is less than a second
  have hless : rescale 1000000000 freq.val.toNat ts.tvNsec.toNat < freq.val.toNat :=
    rescale_lt freq.pos hts.toNat_nsec_lt
  apply BitVec.eq_of_toNat_eq
  rw [kClockRawToTimespec_sec, hraw, Timespec.elapsed, rescale_seconds (by decide),
    Nat.add_comm, Nat.add_mul_div_right _ _ freq.pos, Nat.div_eq_of_lt hless, Nat.zero_add]

/-- The time `back` is in the second of `ts`, not later and by at most one count earlier. -/
structure RoundedBy (freq : Frequency) (ts back : Timespec 64) : Prop where
  normal : back.Normal
  sec : back.tvSec = ts.tvSec
  le : back.nanos ≤ ts.nanos
  lost : ts.nanos - ((1000000000 + freq.val.toNat - 1) / freq.val.toNat : Nat) ≤ back.nanos

/-- A time on the way to a count and back. -/
theorem Timespec.Normal.roundedBy {ts : Timespec 64} (hts : ts.Normal)
    (hfreq : freq.val.toNat ≤ 18446744073) (hlow : 0 ≤ ts.rawCount freq.val)
    (hhigh : ts.rawCount freq.val < 2 ^ 64) :
    ∃ raw, kClockTimespecToRaw (some ts) freq.val = .ok raw ∧
      RoundedBy freq ts (kClockRawToTimespec raw freq) := by
  obtain ⟨hsec, hcount⟩ := hts.rawCount_eq hlow
  obtain ⟨raw, hraw, hnat⟩ := kClockTimespecToRaw_spec (f := freq.val) hts.toNat_nsec_lt hfreq
    (by omega)
  have hsame := kClockRawToTimespec_sec_back hts hnat
  have hnormal := kClockRawToTimespec_normal raw freq
  have hback : (kClockRawToTimespec raw freq).nanos =
      (rescale freq.val.toNat 1000000000
        (rescale 1000000000 freq.val.toNat ts.elapsed) : Nat) := by
    rw [hnormal.nanos_eq_elapsed (hsame ▸ hsec), kClockRawToTimespec_elapsed hfreq, hnat]
  refine ⟨raw, hraw, hnormal, hsame, ?_, ?_⟩
  · rw [hback, hts.nanos_eq_elapsed hsec]
    exact Int.ofNat_le.mpr (rescale_rescale_le _ _ _)
  · rw [hback, hts.nanos_eq_elapsed hsec]
    have hlost := le_rescale_rescale_add (f := 1000000000) (by decide) freq.pos ts.elapsed
    omega

/-- A count that goes to a time and back loses at most one, and nothing where the frequency
divides a second; a time that goes to a count and back stays in its second and loses at most
the nanoseconds of one count. -/
theorem time_conversions_round_trip (freq : Frequency) (hfreq : freq.val.toNat ≤ 1000000000) :
    (∀ count : BitVec 64, ∃ back : BitVec 64,
      kClockTimespecToRaw (some (kClockRawToTimespec count freq)) freq.val = .ok back ∧
      count.toNat ≤ back.toNat + 1 ∧ back.toNat ≤ count.toNat ∧
      (freq.val.toNat ∣ 1000000000 → back = count)) ∧
    ∀ ts : Timespec 64, ts.Normal →
      0 ≤ ts.rawCount freq.val → ts.rawCount freq.val < 2 ^ 64 →
      ∃ raw : BitVec 64, kClockTimespecToRaw (some ts) freq.val = .ok raw ∧
        (kClockRawToTimespec raw freq).Normal ∧
        (kClockRawToTimespec raw freq).tvSec = ts.tvSec ∧
        (kClockRawToTimespec raw freq).nanos ≤ ts.nanos ∧
        ts.nanos - ((1000000000 + freq.val.toNat - 1) / freq.val.toNat : Nat) ≤
          (kClockRawToTimespec raw freq).nanos := by
  have hf : freq.val.toNat ≤ 18446744073 := by omega
  constructor
  · intro count
    have helapsed := kClockRawToTimespec_elapsed hf count
    have hle := rescale_rescale_le freq.val.toNat 1000000000 count.toNat
    obtain ⟨back, hback, hnat⟩ := kClockTimespecToRaw_spec (f := freq.val)
      (kClockRawToTimespec_normal count freq).toNat_nsec_lt hf
      (helapsed ▸ Nat.lt_of_le_of_lt hle count.isLt)
    rw [helapsed] at hnat
    refine ⟨back, hback, ?_, ?_, ?_⟩
    · rw [hnat]
      exact rescale_back_le_succ freq.pos hfreq _
    · rw [hnat]
      exact hle
    · intro hdvd
      apply BitVec.eq_of_toNat_eq
      rw [hnat]
      exact rescale_rescale_of_dvd (by decide) hdvd _
  · intro ts hts hlow hhigh
    obtain ⟨raw, hraw, hround⟩ := hts.roundedBy hf hlow hhigh
    exact ⟨raw, hraw, hround.normal, hround.sec, hround.le, hround.lost⟩

theorem time_conversions_round_trip_third :
    (∃ back : BitVec 64,
      kClockTimespecToRaw (some (kClockRawToTimespec 1 ⟨3, by decide⟩)) 3 = .ok back ∧
      (1 : BitVec 64).toNat ≤ back.toNat + 1 ∧ back.toNat ≤ (1 : BitVec 64).toNat) ∧
    ∃ raw : BitVec 64, kClockTimespecToRaw (some ⟨2, 500000001⟩) 3 = .ok raw ∧
      (kClockRawToTimespec raw ⟨3, by decide⟩).tvSec = 2 := by
  have htrip := time_conversions_round_trip ⟨3, by decide⟩ (by decide)
  obtain ⟨back, hback, hlow, hhigh, -⟩ := htrip.1 1
  obtain ⟨raw, hraw, -, hsec, -⟩ := htrip.2 ⟨2, 500000001⟩ (by decide) (by decide) (by decide)
  exact ⟨⟨back, hback, hlow, hhigh⟩, raw, hraw, hsec⟩

end Conversions

section Tick

/-- A sum with a tick of at most one second has at most one carry. -/
theorem elapsed_timespecadd {cur : Timespec 64} {tick : BitVec 64}
    (hcur : cur.tvNsec.toNat < 1000000000) (htick : tick.toNat ≤ 1000000000)
    (hsec : cur.tvSec.toNat + 1 < 2 ^ 64) :
    (timespecadd cur ⟨0, tick⟩).tvNsec.toNat < 1000000000 ∧
      (timespecadd cur ⟨0, tick⟩).elapsed = cur.elapsed + tick.toNat := by
  have hzero : cur.tvSec + 0 = cur.tvSec := BitVec.add_zero cur.tvSec
  have hsum : (cur.tvNsec + tick).toNat = cur.tvNsec.toNat + tick.toNat :=
    BitVec.toNat_add_of_lt (by omega)
  have hint := toInt_of_lt (x := cur.tvNsec + tick) (by omega)
  by_cases hcarry : 1000000000 ≤ (cur.tvNsec + tick).toInt
  · have hnext : (cur.tvSec + 1).toNat = cur.tvSec.toNat + 1 := BitVec.toNat_add_of_lt hsec
    have hrest : (cur.tvNsec + tick - 1000000000).toNat =
        cur.tvNsec.toNat + tick.toNat - 1000000000 := by
      rw [BitVec.toNat_sub_of_le, hsum]
      · rfl
      · rw [BitVec.le_def, hsum]
        change 1000000000 ≤ _
        omega
    simp only [timespecadd, if_pos hcarry, Timespec.elapsed, hzero, hnext, hrest]
    omega
  · simp only [timespecadd, if_neg hcarry, Timespec.elapsed, hzero, hsum]
    omega

theorem append_words (count : BitVec 64) :
    (count >>> 32).setWidth 32 ++ count.setWidth 32 = count := by
  have hlt := count.isLt
  apply BitVec.eq_of_toNat_eq
  rw [BitVec.toNat_append, BitVec.toNat_setWidth, BitVec.toNat_setWidth, BitVec.toNat_ushiftRight,
    ← Nat.shiftLeft_add_eq_or_of_lt (Nat.mod_lt _ (by decide)), Nat.shiftRight_eq_div_pow,
    Nat.shiftLeft_eq]
  omega

theorem shiftLeft_or_words (vh vl : BitVec 32) :
    vh.setWidth 64 <<< 32 ||| vl.setWidth 64 = vh ++ vl := by
  have hh := vh.isLt
  have hl := vl.isLt
  apply BitVec.eq_of_toNat_eq
  rw [BitVec.toNat_append, BitVec.toNat_or, BitVec.toNat_shiftLeft, BitVec.toNat_setWidth,
    BitVec.toNat_setWidth, Nat.shiftLeft_eq, Nat.shiftLeft_eq,
    Nat.mod_eq_of_lt (a := vh.toNat) (by omega), Nat.mod_eq_of_lt (a := vl.toNat) (by omega),
    Nat.mod_eq_of_lt (by omega)]

/-- On both targets the compare register reads as the value that was written last. -/
theorem timerClintGetTimecmp_set (t : Target) (tm : ClintTimer) (index : Nat)
    (count : BitVec 64) :
    timerClintGetTimecmp t (timerClintSetTimecmp t tm index count) index = count := by
  have hne : regMtimecmph index ≠ regMtimecmp index := by
    rw [regMtimecmph, regMtimecmp]
    omega
  by_cases h : t.bits = 64
  · simp [timerClintGetTimecmp, timerClintSetTimecmp, h, ClintTimer.read64, ClintTimer.write64,
      append_words]
  · rw [timerClintGetTimecmp, timerClintSetTimecmp, if_neg h, if_neg h, shiftLeft_or_words]
    simp [ClintTimer.read32, ClintTimer.write32, hne, append_words]

theorem timerClintGetFreq_of_ne {tm : ClintTimer} (h : tm.freqIn ≠ 0) :
    timerClintGetFreq tm = .ok ⟨tm.freqIn, h⟩ :=
  dif_neg h

theorem timerClintSetTrigger_of_ok (t : Target) {tm : ClintTimer} (index : Nat)
    {tsp : Option (Timespec 64)} (h : tm.freqIn ≠ 0) {cnt : BitVec 64}
    (hcnt : kClockTimespecToRaw tsp tm.freqIn = .ok cnt) :
    timerClintSetTrigger t tm index tsp = (timerClintSetTimecmp t tm index cnt, 0) := by
  simp only [timerClintSetTrigger, timerClintGetFreq_of_ne h, hcnt]

theorem timerClintSetTimecmp_freqIn (t : Target) (tm : ClintTimer) (index : Nat)
    (count : BitVec 64) : (timerClintSetTimecmp t tm index count).freqIn = tm.freqIn := by
  rw [timerClintSetTimecmp]
  split
  · rfl
  · rfl

/-- A trigger that was set reads back up to the rounding to counts. -/
theorem timerClintGetTrigger_set (t : Target) {tm : ClintTimer} (index : Nat)
    (h : tm.freqIn ≠ 0) (hfreq : tm.freqIn.toNat ≤ 18446744073) {ts : Timespec 64}
    (hts : ts.Normal) (hlow : 0 ≤ ts.rawCount tm.freqIn) (hhigh : ts.rawCount tm.freqIn < 2 ^ 64) :
    ∃ tm' back, timerClintSetTrigger t tm index (some ts) = (tm', 0) ∧
      timerClintGetTrigger t tm' index = .ok back ∧ RoundedBy ⟨tm.freqIn, h⟩ ts back := by
  let freq : Frequency := ⟨tm.freqIn, h⟩
  obtain ⟨raw, hraw, hround⟩ := hts.roundedBy (show freq.val.toNat ≤ 18446744073 from hfreq)
    hlow hhigh
  refine ⟨_, _, timerClintSetTrigger_of_ok t index h hraw, ?_, hround⟩
  have hfreqIn := timerClintSetTimecmp_freqIn t tm index raw
  have hget : timerClintGetFreq (timerClintSetTimecmp t tm index raw) = .ok ⟨tm.freqIn, h⟩ := by
    rw [timerClintGetFreq_of_ne (hfreqIn ▸ h)]
    exact congrArg Except.ok (Subtype.ext hfreqIn)
  rw [timerClintGetTrigger, hget, timerClintGetTimecmp_set]
  rfl

/-- A tick of the clint sets the trigger to the end of the tick. -/
theorem kClockOnTick_clint (t : Target) (hz : Option (BitVec 64)) {tm : ClintTimer} (index : Nat)
    (count : BitVec 64) (h : tm.freqIn ≠ 0) :
    kClockOnTick hz (some (clintTickTimer t tm index count)) tm =
      timerClintSetTrigger t tm index
        (some (timespecadd (kClockRawToTimespec count ⟨tm.freqIn, h⟩) (tickLength hz))) := by
  have hmono : kClockGetMonotonic (some (clintTickTimer t tm index count).answers) =
      .ok (kClockRawToTimespec count ⟨tm.freqIn, h⟩) := by
    simp only [kClockGetMonotonic, clintTickTimer, timerClintGetFreq_of_ne h]
    rfl
  simp only [kClockOnTick, hmono]
  rfl

theorem toNat_tickLength (hz : Option (BitVec 64)) :
    (tickLength hz).tvNsec.toNat = 1000000000 / (tickHz hz).toNat :=
  BitVec.toNat_udiv

/-- A tick of whole nanoseconds is no longer than the tick itself. -/
theorem rescale_tick_le {hz : Nat} (hpos : 0 < hz) (f : Nat) :
    rescale 1000000000 f (1000000000 / hz) ≤ f / hz := by
  rw [Nat.le_div_iff_mul_le hpos]
  have htick : 1000000000 / hz * hz ≤ 1000000000 := Nat.div_mul_le_self _ _
  have hround := rescale_mul_le 1000000000 f (1000000000 / hz)
  apply Nat.le_of_mul_le_mul_right _ (show 0 < 1000000000 by decide)
  calc rescale 1000000000 f (1000000000 / hz) * hz * 1000000000
      = rescale 1000000000 f (1000000000 / hz) * 1000000000 * hz := Nat.mul_right_comm _ _ _
    _ ≤ 1000000000 / hz * f * hz := Nat.mul_le_mul_right hz hround
    _ = 1000000000 / hz * hz * f := Nat.mul_right_comm _ _ _
    _ ≤ 1000000000 * f := Nat.mul_le_mul_right f htick
    _ = f * 1000000000 := Nat.mul_comm _ _

/-- What a tick programs: the time of the reading and the length of the tick, as a count. -/
theorem kClockOnTick_compare (t : Target) (hz : Option (BitVec 64)) {tm : ClintTimer} (index : Nat)
    {c : BitVec 64} (h : tm.freqIn ≠ 0) (hfreq : tm.freqIn.toNat ≤ 18446744073)
    (hsec : c.toNat / tm.freqIn.toNat < 2 ^ 62)
    (hfit : rescale 1000000000 tm.freqIn.toNat
      (rescale tm.freqIn.toNat 1000000000 c.toNat + 1000000000 / (tickHz hz).toNat) < 2 ^ 64) :
    let reply := kClockOnTick hz (some (clintTickTimer t tm index c)) tm
    reply.2 = 0 ∧ (timerClintGetTimecmp t reply.1 index).toNat =
      rescale 1000000000 tm.freqIn.toNat
        (rescale tm.freqIn.toNat 1000000000 c.toNat + 1000000000 / (tickHz hz).toNat) := by
  let cur := kClockRawToTimespec c ⟨tm.freqIn, h⟩
  have hcurSec : cur.tvSec.toNat = c.toNat / tm.freqIn.toNat := kClockRawToTimespec_sec c _
  have hlength : (tickLength hz).tvNsec.toNat ≤ 1000000000 := by
    rw [toNat_tickLength]
    exact Nat.div_le_self _ _
  obtain ⟨hnsec, hnext⟩ := elapsed_timespecadd (kClockRawToTimespec_normal c _).toNat_nsec_lt
    hlength (show cur.tvSec.toNat + 1 < 2 ^ 64 by omega)
  rw [toNat_tickLength, kClockRawToTimespec_elapsed hfreq] at hnext
  rw [← hnext] at hfit ⊢
  obtain ⟨raw, hraw, hnat⟩ := kClockTimespecToRaw_spec hnsec hfreq hfit
  intro reply
  have hreply : reply = (timerClintSetTimecmp t tm index raw, 0) := by
    rw [← timerClintSetTrigger_of_ok t index h hraw]
    exact kClockOnTick_clint t hz index c h
  rw [hreply, timerClintGetTimecmp_set]
  exact ⟨rfl, hnat⟩

/-- The value that a tick programs lies in the future by the length of a tick, up to one
nanosecond and the rounding to counts. -/
theorem tick_programs_next (t : Target) (hz : Option (BitVec 64)) (tm : ClintTimer) (index : Nat)
    (c : BitVec 64) (hhz : 1 ≤ (tickHz hz).toNat) (hhz' : (tickHz hz).toNat ≤ 1000000000)
    (hfreq : 1 ≤ tm.freqIn.toNat) (hfreq' : tm.freqIn.toNat ≤ 18446744073)
    (hc : c.toNat + tm.freqIn.toNat + 1 < 2 ^ 64) (hsec : c.toNat / tm.freqIn.toNat < 2 ^ 62) :
    let reply := kClockOnTick hz (some (clintTickTimer t tm index c)) tm
    let compare := (timerClintGetTimecmp t reply.1 index).toNat
    let tick := 1000000000 / (tickHz hz).toNat
    reply.2 = 0 ∧
      c.toNat + (tick - 1) * tm.freqIn.toNat / 1000000000 ≤ compare ∧
      compare ≤ c.toNat + tm.freqIn.toNat / (tickHz hz).toNat ∧
      (1000000000 ≤ (tick - 1) * tm.freqIn.toNat → c.toNat < compare) := by
  intro reply compare tick
  have hne : tm.freqIn ≠ 0 := by
    intro hzero
    rw [hzero] at hfreq
    exact absurd hfreq (by decide)
  have htick : 1 ≤ tick := (Nat.one_le_div_iff hhz).mpr hhz'
  obtain ⟨hlow, hhigh⟩ := rescale_add_bounds (g := 1000000000) (r := c.toNat) hfreq (by decide)
    htick
  have hround : rescale 1000000000 tm.freqIn.toNat tick ≤ _ := rescale_tick_le hhz tm.freqIn.toNat
  have hless : tm.freqIn.toNat / (tickHz hz).toNat ≤ tm.freqIn.toNat := Nat.div_le_self _ _
  obtain ⟨hresult, hcompare⟩ := kClockOnTick_compare t hz index hne hfreq' hsec
    (show rescale 1000000000 tm.freqIn.toNat
      (rescale tm.freqIn.toNat 1000000000 c.toNat + tick) < 2 ^ 64 by omega)
  have hvalue : compare = rescale 1000000000 tm.freqIn.toNat
      (rescale tm.freqIn.toNat 1000000000 c.toNat + tick) := hcompare
  rw [hvalue]
  refine ⟨hresult, hlow, by omega, ?_⟩
  intro hlong
  have hone : 1 ≤ rescale 1000000000 tm.freqIn.toNat (tick - 1) :=
    (Nat.one_le_div_iff (by decide)).mpr hlong
  omega

theorem tick_programs_next_board :
    (10000000 : BitVec 64).toNat <
      (timerClintGetTimecmp ⟨64, by decide⟩
        (kClockOnTick (some 250)
          (some (clintTickTimer ⟨64, by decide⟩ ⟨10000000, fun _ => 0⟩ 0 10000000))
          ⟨10000000, fun _ => 0⟩).1 0).toNat :=
  (tick_programs_next ⟨64, by decide⟩ (some 250) ⟨10000000, fun _ => 0⟩ 0 10000000
    (by decide) (by decide) (by decide) (by decide) (by decide) (by decide)).2.2.2 (by decide)

end Tick

end BaremetalCrt
