import BaremetalCrt.Sys.Ticks

/-!
# The counter and the compare register by halves

A 32-bit target accesses the 64-bit registers of a timer by their words. It reads the counter
again until the high word has not changed around the read of the low word, and it writes the
high word of the compare register before the low word.

## Implementation notes

The counter has a value at every instant. The reads of its registers are numbered, and a call
starts at one of these numbers and ends before another one.
-/

namespace BaremetalCrt

/-- Where a timer has the words of its counter: `REG_MTIME` and `REG_MTIMEL`, `REG_MTIMEH`. -/
structure CounterRegs where
  mtimel : Nat
  mtimeh : Nat
  words : mtimeh = mtimel + 4

/-- The registers of `clint_timer.c`. -/
def clintMtime : CounterRegs := ⟨0x7ff8, 0x7ffc, rfl⟩

/-- The registers of `icu_timer.c`. -/
def icuMtime : CounterRegs := ⟨0x0108, 0x010c, rfl⟩

/-- The word of the counter at a register. -/
def CounterRegs.read32 (r : CounterRegs) (mtime : BitVec 64) (off : Nat) : BitVec 32 :=
  if off = r.mtimeh then (mtime >>> 32).setWidth 32 else mtime.setWidth 32

/-- A counter that does not go back, and the instants of the reads of its registers. -/
structure CounterRun where
  mtime : Nat → BitVec 64
  time : Nat → Nat
  mtime_mono : ∀ i j, i ≤ j → (mtime i).toNat ≤ (mtime j).toNat
  time_mono : ∀ k l, k ≤ l → time k ≤ time l

/-- The counter at a read. -/
def CounterRun.value (run : CounterRun) (k : Nat) : BitVec 64 := run.mtime (run.time k)

/-- The loop of a 32-bit target from a read on: the value, and the read behind the call. The
first argument bounds the iterations. -/
def getRawLoop (r : CounterRegs) (run : CounterRun) : Nat → Nat → Option (BitVec 64 × Nat)
  | 0, _ => none
  | f + 1, k =>
      let vh1 := r.read32 (run.value k) r.mtimeh
      let vl := r.read32 (run.value (k + 1)) r.mtimel
      let vh2 := r.read32 (run.value (k + 2)) r.mtimeh
      if vh1 ≠ vh2 then getRawLoop r run f (k + 3)
      else some (vh1.setWidth 64 <<< 32 ||| vl.setWidth 64, k + 3)

/-- The common body of `timer_clint_get_raw` and `timer_icu_get_raw`. -/
def getRaw (r : CounterRegs) (t : Target) (run : CounterRun) (k : Nat) :
    Option (BitVec 64 × Nat) :=
  if t.bits = 64 then some (run.value k, k + 1) else getRawLoop r run (2 ^ 32) k

/-- `timer_clint_get_raw`. -/
def timerClintGetRaw : Target → CounterRun → Nat → Option (BitVec 64 × Nat) := getRaw clintMtime

/-- `timer_icu_get_raw`. -/
def timerIcuGetRaw : Target → CounterRun → Nat → Option (BitVec 64 × Nat) := getRaw icuMtime

section Counter

variable {r : CounterRegs} {run : CounterRun} {k k' l : Nat} {v : BitVec 64}

theorem CounterRun.value_mono (run : CounterRun) (h : k ≤ l) :
    (run.value k).toNat ≤ (run.value l).toNat :=
  run.mtime_mono _ _ (run.time_mono k l h)

theorem CounterRegs.toNat_read32_high (r : CounterRegs) (mtime : BitVec 64) :
    (r.read32 mtime r.mtimeh).toNat = mtime.toNat / 2 ^ 32 := by
  have hlt := mtime.isLt
  rw [read32, if_pos rfl, BitVec.toNat_setWidth, BitVec.toNat_ushiftRight,
    Nat.shiftRight_eq_div_pow]
  omega

theorem CounterRegs.read32_low (r : CounterRegs) (mtime : BitVec 64) :
    r.read32 mtime r.mtimel = mtime.setWidth 32 := by
  have hwords := r.words
  exact if_neg (by omega)

/-- The high word does not go back. -/
theorem high_mono (r : CounterRegs) (run : CounterRun) (h : k ≤ l) :
    (r.read32 (run.value k) r.mtimeh).toNat ≤ (r.read32 (run.value l) r.mtimeh).toNat := by
  rw [r.toNat_read32_high, r.toNat_read32_high]
  exact Nat.div_le_div_right (run.value_mono h)

/-- With the same high word before and after, the words belong to the value at the read of the
low word. -/
theorem words_of_same_high
    (h : r.read32 (run.value k) r.mtimeh = r.read32 (run.value (k + 2)) r.mtimeh) :
    (r.read32 (run.value k) r.mtimeh).setWidth 64 <<< 32 |||
        (r.read32 (run.value (k + 1)) r.mtimel).setWidth 64 = run.value (k + 1) := by
  have hbetween : r.read32 (run.value k) r.mtimeh = r.read32 (run.value (k + 1)) r.mtimeh := by
    apply BitVec.eq_of_toNat_eq
    have hfirst := high_mono r run (Nat.le_add_right k 1)
    have hsecond := high_mono r run (show k + 1 ≤ k + 2 by omega)
    rw [h] at hfirst ⊢
    omega
  have hhigh : r.read32 (run.value (k + 1)) r.mtimeh =
      (run.value (k + 1) >>> 32).setWidth 32 := if_pos rfl
  rw [hbetween, shiftLeft_or_words, hhigh, r.read32_low, append_words]

/-- What the loop returns is the counter at one of its reads. -/
theorem getRawLoop_value {f : Nat} (h : getRawLoop r run f k = some (v, k')) :
    ∃ j, k ≤ j ∧ j < k' ∧ v = run.value j := by
  induction f generalizing k with
  | zero => exact absurd h (by simp [getRawLoop])
  | succ f ih =>
      simp only [getRawLoop] at h
      split at h
      · obtain ⟨j, hlow, hhigh, hv⟩ := ih h
        exact ⟨j, by omega, hhigh, hv⟩
      · rename_i hsame
        obtain ⟨rfl, rfl⟩ := Prod.mk.inj (Option.some.inj h)
        refine ⟨k + 1, by omega, by omega, ?_⟩
        exact words_of_same_high (not_not.mp hsame)

/-- Every iteration that is repeated raises the high word, so the loop ends. -/
theorem getRawLoop_isSome {f : Nat}
    (h : 2 ^ 32 ≤ f + (r.read32 (run.value k) r.mtimeh).toNat) :
    ∃ v k', getRawLoop r run f k = some (v, k') := by
  induction f generalizing k with
  | zero =>
      have := (r.read32 (run.value k) r.mtimeh).isLt
      omega
  | succ f ih =>
      simp only [getRawLoop]
      split
      · rename_i hchanged
        apply ih
        have hne : (r.read32 (run.value k) r.mtimeh).toNat ≠
            (r.read32 (run.value (k + 2)) r.mtimeh).toNat :=
          fun heq => hchanged (BitVec.eq_of_toNat_eq heq)
        have hfirst := high_mono r run (Nat.le_add_right k 2)
        have hsecond := high_mono r run (show k + 2 ≤ k + 3 by omega)
        omega
      · exact ⟨_, _, rfl⟩

theorem getRaw_value {t : Target} (h : getRaw r t run k = some (v, k')) :
    ∃ j, k ≤ j ∧ j < k' ∧ v = run.value j := by
  unfold getRaw at h
  split at h
  · obtain ⟨rfl, rfl⟩ := Prod.mk.inj (Option.some.inj h)
    exact ⟨k, Nat.le_refl k, Nat.lt_succ_self k, rfl⟩
  · exact getRawLoop_value h

theorem getRaw_isSome (r : CounterRegs) (t : Target) (run : CounterRun) (k : Nat) :
    ∃ v k', getRaw r t run k = some (v, k') := by
  unfold getRaw
  split
  · exact ⟨_, _, rfl⟩
  · exact getRawLoop_isSome (Nat.le_add_right _ _)

end Counter

/-- Every call returns. The value is that of the counter at an instant of the call, a 64-bit
target reads it there with one access, and no later call returns less. -/
def ReadsAtOnce (get : Target → CounterRun → Nat → Option (BitVec 64 × Nat)) (t : Target) :
    Prop :=
  ∀ run k, ∃ v k', get t run k = some (v, k') ∧
    (∃ i, run.time k ≤ i ∧ i ≤ run.time (k' - 1) ∧ v = run.mtime i) ∧
    (∀ wide : Target, wide.bits = 64 →
      ∃ j, k ≤ j ∧ j < k' ∧ get wide run j = some (v, j + 1)) ∧
    ∀ l w l', k' ≤ l → get t run l = some (w, l') → v.toNat ≤ w.toNat

theorem getRaw_readsAtOnce (r : CounterRegs) (t : Target) : ReadsAtOnce (getRaw r) t := by
  intro run k
  obtain ⟨v, k', hget⟩ := getRaw_isSome r t run k
  obtain ⟨j, hlow, hhigh, hv⟩ := getRaw_value hget
  refine ⟨v, k', hget, ⟨run.time j, run.time_mono k j hlow, ?_, hv⟩, ?_, ?_⟩
  · exact run.time_mono j (k' - 1) (by omega)
  · intro wide hwide
    refine ⟨j, hlow, hhigh, ?_⟩
    rw [getRaw, if_pos hwide, hv]
  · intro l w l' hl hlater
    obtain ⟨j', hlow', -, hw⟩ := getRaw_value hlater
    rw [hv, hw]
    exact run.value_mono (by omega)

/-- On every target both timers read their counter as if by one access. -/
theorem get_raw_reads_at_once (t : Target) :
    ReadsAtOnce timerClintGetRaw t ∧ ReadsAtOnce timerIcuGetRaw t :=
  ⟨getRaw_readsAtOnce clintMtime t, getRaw_readsAtOnce icuMtime t⟩

section Compare

/-- The timer after each store of `timer_clint_set_timecmp`. -/
def timecmpStores (t : Target) (tm : ClintTimer) (index : Nat) (count : BitVec 64) :
    List ClintTimer :=
  if t.bits = 64 then [tm.write64 count (regMtimecmp index)]
  else
    let high := tm.write32 ((count >>> 32).setWidth 32) (regMtimecmph index)
    [high, high.write32 (count.setWidth 32) (regMtimecmp index)]

theorem timecmpStores_wide {t : Target} (h : t.bits = 64) (tm : ClintTimer) (index : Nat)
    (count : BitVec 64) :
    timecmpStores t tm index count = [timerClintSetTimecmp t tm index count] := by
  rw [timecmpStores, timerClintSetTimecmp, if_pos h, if_pos h]

theorem timecmpStores_narrow {t : Target} (h : t.bits ≠ 64) (tm : ClintTimer) (index : Nat)
    (count : BitVec 64) :
    timecmpStores t tm index count =
      [tm.write32 ((count >>> 32).setWidth 32) (regMtimecmph index),
        timerClintSetTimecmp t tm index count] := by
  rw [timecmpStores, timerClintSetTimecmp, if_neg h, if_neg h]

/-- The compare register as the hardware sees it. -/
def ClintTimer.timecmp (tm : ClintTimer) (index : Nat) : BitVec 64 := tm.read64 (regMtimecmp index)

/-- The timer interrupt is pending. -/
def TimerPending (mtime mtimecmp : BitVec 64) : Prop := mtimecmp.toNat ≤ mtime.toNat

instance (mtime mtimecmp : BitVec 64) : Decidable (TimerPending mtime mtimecmp) :=
  inferInstanceAs (Decidable (_ ≤ _))

/-- Both targets read the register as the hardware sees it. -/
theorem timerClintGetTimecmp_eq (t : Target) (tm : ClintTimer) (index : Nat) :
    timerClintGetTimecmp t tm index = tm.timecmp index := by
  have hhigh : regMtimecmph index = regMtimecmp index + 4 := by
    rw [regMtimecmp, regMtimecmph]
    omega
  unfold timerClintGetTimecmp
  split
  · rfl
  · rw [shiftLeft_or_words, hhigh]
    rfl

theorem toNat_append_words (high low : BitVec 32) :
    (high ++ low).toNat = high.toNat * 2 ^ 32 + low.toNat := by
  rw [BitVec.toNat_append, ← Nat.shiftLeft_add_eq_or_of_lt low.isLt, Nat.shiftLeft_eq]

/-- The compare register between the two stores: the new high word with the old low word. -/
theorem timecmp_write_high (tm : ClintTimer) (index : Nat) (count : BitVec 64) :
    ((tm.write32 ((count >>> 32).setWidth 32) (regMtimecmph index)).timecmp index).toNat =
      count.toNat / 2 ^ 32 * 2 ^ 32 + (tm.timecmp index).toNat % 2 ^ 32 := by
  have hcount := count.isLt
  have hlow := (tm.regs (regMtimecmp index)).isLt
  have hhigh : regMtimecmp index + 4 = regMtimecmph index := by
    rw [regMtimecmp, regMtimecmph]
    omega
  have hne : regMtimecmp index ≠ regMtimecmph index := by omega
  simp only [ClintTimer.timecmp, ClintTimer.read64, ClintTimer.write32, hhigh,
    Function.update_self, Function.update_of_ne hne, toNat_append_words, BitVec.toNat_setWidth,
    BitVec.toNat_ushiftRight, Nat.shiftRight_eq_div_pow]
  omega

/-- A value is never too early if and only if it is not below both of the others. -/
theorem pending_or_iff (old new mid : BitVec 64) :
    (∀ mtime, TimerPending mtime mid → TimerPending mtime old ∨ TimerPending mtime new) ↔
      old.toNat ≤ mid.toNat ∨ new.toNat ≤ mid.toNat := by
  constructor
  · intro h
    exact h mid (Nat.le_refl _)
  · rintro (hold | hnew) mtime hmid
    · exact Or.inl (Nat.le_trans hold hmid)
    · exact Or.inr (Nat.le_trans hnew hmid)

/-- No store of `timer_clint_set_timecmp` makes the interrupt pending on its own, if and only if
the target has 64 bits, or the high word does not go down, or the low word does not go up. -/
theorem timecmp_stores_quiet_iff (t : Target) (tm : ClintTimer) (index : Nat)
    (count : BitVec 64) :
    (∀ visible ∈ timecmpStores t tm index count, ∀ mtime,
      TimerPending mtime (visible.timecmp index) →
        TimerPending mtime (tm.timecmp index) ∨ TimerPending mtime count) ↔
      t.bits = 64 ∨ (tm.timecmp index).toNat / 2 ^ 32 ≤ count.toNat / 2 ^ 32 ∨
        count.toNat % 2 ^ 32 ≤ (tm.timecmp index).toNat % 2 ^ 32 := by
  have hlast : (timerClintSetTimecmp t tm index count).timecmp index = count := by
    rw [← timerClintGetTimecmp_eq t, timerClintGetTimecmp_set]
  by_cases h : t.bits = 64
  · rw [timecmpStores_wide h]
    simp only [List.mem_singleton, forall_eq, hlast, pending_or_iff]
    exact iff_of_true (Or.inr (Nat.le_refl _)) (Or.inl h)
  · have hmid := timecmp_write_high tm index count
    rw [timecmpStores_narrow h]
    simp only [List.forall_mem_cons, List.not_mem_nil, false_implies, implies_true, and_true,
      hlast, pending_or_iff, hmid]
    omega

/-- A compare value in the future moves to an earlier one: in between, its low word makes an
interrupt pending that is due for neither of them. -/
theorem timecmp_store_too_early :
    let tm : ClintTimer := ⟨10000000, fun off => if off = 4 then 2 else 0⟩
    let high := tm.write32 1 (regMtimecmph 0)
    high ∈ timecmpStores ⟨32, Or.inl rfl⟩ tm 0 0x100000005 ∧
      tm.timecmp 0 = 0x200000000 ∧ high.timecmp 0 = 0x100000000 ∧
      TimerPending 0x100000003 (high.timecmp 0) ∧
      ¬ TimerPending 0x100000003 (tm.timecmp 0) ∧ ¬ TimerPending 0x100000003 0x100000005 := by
  intro tm high
  have hold : tm.timecmp 0 = 0x200000000 := by decide
  have hmid : high.timecmp 0 = 0x100000000 := by decide
  refine ⟨?_, hold, hmid, ?_, ?_, by decide⟩
  · rw [timecmpStores_narrow (by decide)]
    exact List.mem_cons_self
  · rw [hmid]
    decide
  · rw [hold]
    decide

end Compare

end BaremetalCrt
