import BaremetalCrt.Sys.Clock

/-!
# Settings and readings of the realtime clock

Between two settings the realtime clock runs with the monotonic one. The nanoseconds
that a setting gives are not checked; the offset that they leave is normal exactly when
they are less than one second away from those of the monotonic clock.
-/

namespace BaremetalCrt

/-- No addition or subtraction of seconds overflows when `t` is set at the reading `m₁`
and read back at the reading `m₂`. -/
structure NoOverflow (t m₁ m₂ : Timespec 64) : Prop where
  diff : FitsInt64 (t.tvSec.toInt - m₁.tvSec.toInt)
  borrow : FitsInt64 (t.tvSec.toInt - m₁.tvSec.toInt - 1)
  sum : FitsInt64 (t.tvSec.toInt - m₁.tvSec.toInt - 1 + m₂.tvSec.toInt)
  carry : FitsInt64 (t.tvSec.toInt - m₁.tvSec.toInt + m₂.tvSec.toInt + 1)

section Follow

variable {t m₁ m₂ : Timespec 64}

theorem Timespec.Normal.pair {ts : Timespec 64} (h : ts.Normal) : ts.pair.Normal := h

/-- The seconds of an offset are the difference of the seconds, or one less. -/
theorem offset_sec (t m₁ : Timespec 64) :
    (t.pair.sub m₁.pair).hi = t.tvSec.toInt - m₁.tvSec.toInt ∨
      (t.pair.sub m₁.pair).hi = t.tvSec.toInt - m₁.tvSec.toInt - 1 := by
  unfold CarryPair.sub
  split
  · exact Or.inr rfl
  · exact Or.inl rfl

/-- The offset of a setting is normal and stands for the difference. -/
theorem NoOverflow.offset (h : NoOverflow t m₁ m₂) (ht : t.Normal) (hm₁ : m₁.Normal) :
    (timespecsub t m₁).Normal ∧ (timespecsub t m₁).pair = t.pair.sub m₁.pair := by
  have hpair := ht.timespecsub_pair hm₁ h.diff h.borrow
  have hnormal : (t.pair.sub m₁.pair).Normal := CarryPair.Normal.sub ht.pair hm₁.pair
  rw [← hpair] at hnormal
  exact ⟨hnormal, hpair⟩

/-- What is read back is the time that was set, moved by the difference of the readings. -/
theorem NoOverflow.nanos_eq (h : NoOverflow t m₁ m₂) (ht : t.Normal) (hm₁ : m₁.Normal)
    (hm₂ : m₂.Normal) :
    (timespecadd (timespecsub t m₁) m₂).pair = (t.pair.sub m₁.pair).add m₂.pair ∧
      (timespecadd (timespecsub t m₁) m₂).nanos = t.nanos + (m₂.nanos - m₁.nanos) := by
  obtain ⟨hnormal, hpair⟩ := h.offset ht hm₁
  have hsec : (timespecsub t m₁).tvSec.toInt = (t.pair.sub m₁.pair).hi :=
    congrArg CarryPair.hi hpair
  obtain ⟨hsum0, hsum1⟩ := h.sum
  obtain ⟨hcarry0, hcarry1⟩ := h.carry
  have hadd : (timespecadd (timespecsub t m₁) m₂).pair = (timespecsub t m₁).pair.add m₂.pair := by
    apply hnormal.timespecadd_pair hm₂
    · rw [hsec]
      rcases offset_sec t m₁ with hoff | hoff
      · exact ⟨by omega, by omega⟩
      · exact ⟨by omega, by omega⟩
    · rw [hsec]
      rcases offset_sec t m₁ with hoff | hoff
      · exact ⟨by omega, by omega⟩
      · exact ⟨by omega, by omega⟩
  rw [hpair] at hadd
  refine ⟨hadd, ?_⟩
  calc (timespecadd (timespecsub t m₁) m₂).nanos
      = ((t.pair.sub m₁.pair).add m₂.pair).value := congrArg CarryPair.value hadd
    _ = t.nanos + (m₂.nanos - m₁.nanos) := CarryPair.value_sub_add _ _ _

/-- At the reading of the setting the time itself is read back. -/
theorem NoOverflow.read_back (h : NoOverflow t m₁ m₁) (ht : t.Normal) (hm₁ : m₁.Normal) :
    timespecadd (timespecsub t m₁) m₁ = t := by
  obtain ⟨-, hnanos⟩ := h.nanos_eq ht hm₁ hm₁
  have hnormal : (timespecadd (timespecsub t m₁) m₁).Normal :=
    (h.offset ht hm₁).1.add hm₁
  have hvalue : (timespecadd (timespecsub t m₁) m₁).pair.value = t.pair.value := by
    rw [sub_self, add_zero] at hnanos
    exact hnanos
  have hpair := hnormal.pair.eq_of_value ht.pair hvalue
  have hsec := BitVec.toInt_inj.mp (congrArg CarryPair.hi hpair)
  have hnsec := BitVec.toInt_inj.mp (congrArg CarryPair.lo hpair)
  exact Timespec.ext hsec hnsec

end Follow

section TimeOfDay

variable {tgt : Target}

/-- The microseconds are less than one second. -/
def Timeval.Normal (tv : Timeval tgt) : Prop :=
  0 ≤ tv.tvUsec.toInt ∧ tv.tvUsec.toInt < 1000000

theorem Target.bmod_eq (tgt : Target) {z : Int} (h0 : -2 ^ 31 ≤ z) (h1 : z < 2 ^ 31) :
    z.bmod (2 ^ tgt.bits) = z := by
  rcases tgt.bits_cases with hbits | hbits
  · rw [hbits]
    exact Int.bmod_eq_of_le (by norm_num at h0 ⊢; exact h0) (by norm_num at h1 ⊢; exact h1)
  · rw [hbits]
    exact FitsInt64.bmod_eq ⟨by omega, by omega⟩

/-- A small number that is not negative is the same in a narrower type. -/
theorem toInt_setWidth_of_small {w : Nat} {x : BitVec 64} (h0 : 0 ≤ x.toInt)
    (hw : x.toInt.bmod (2 ^ w) = x.toInt) : (x.setWidth w).toInt = x.toInt := by
  have hnat : (x.toNat : Int) = x.toInt := by
    have hmsb : x.msb = false := BitVec.msb_eq_false_iff_two_mul_lt.mpr (by
      have hlt := x.isLt
      rw [BitVec.toInt_eq_toNat_cond] at h0
      split at h0
      · assumption
      · omega)
    exact (BitVec.toInt_eq_toNat_of_msb hmsb).symm
  rw [BitVec.toInt_setWidth, hnat, hw]

theorem Timeval.Normal.nsec {tv : Timeval tgt} (h : tv.Normal) :
    tv.toTimespec.tvNsec.toInt = tv.tvUsec.toInt * 1000 := by
  obtain ⟨h0, h1⟩ := h
  have hthousand : (1000 : BitVec tgt.bits).toInt = 1000 := by
    rcases tgt with ⟨bits, rfl | rfl⟩
    · decide
    · decide
  have hprod : (tv.tvUsec * 1000).toInt = tv.tvUsec.toInt * 1000 := by
    rw [BitVec.toInt_mul, hthousand]
    exact tgt.bmod_eq (by omega) (by omega)
  have hmin : min 64 tgt.bits = tgt.bits := by
    rcases tgt.bits_cases with hbits | hbits
    · omega
    · omega
  change ((tv.tvUsec * 1000).signExtend 64).toInt = _
  rw [BitVec.toInt_signExtend, hprod, hmin]
  exact tgt.bmod_eq (by omega) (by omega)

theorem Timeval.Normal.toTimespec {tv : Timeval tgt} (h : tv.Normal) : tv.toTimespec.Normal := by
  have hnsec := h.nsec
  obtain ⟨h0, h1⟩ := h
  rw [Timespec.Normal, hnsec]
  omega

/-- The microseconds of a normal time in the caller's type. -/
theorem Timespec.Normal.toInt_usec {ts : Timespec 64} (h : ts.Normal) (tgt : Target) :
    ((ts.tvNsec.sdiv 1000).setWidth tgt.bits).toInt = ts.tvNsec.toInt / 1000 := by
  obtain ⟨h0, h1⟩ := h
  have hthousand : (1000 : BitVec 64).toInt = 1000 := by decide
  have hdiv : (ts.tvNsec.sdiv 1000).toInt = ts.tvNsec.toInt / 1000 := by
    rw [BitVec.toInt_sdiv, hthousand, Int.tdiv_eq_ediv_of_nonneg h0]
    exact FitsInt64.bmod_eq ⟨by omega, by omega⟩
  rw [← hdiv]
  apply toInt_setWidth_of_small
  · omega
  · exact tgt.bmod_eq (by omega) (by omega)

end TimeOfDay

theorem kClockSetRealtime_ok {tm : Option Timer} {mono ts : Timespec 64}
    (h : kClockGetMonotonic tm = .ok mono) (off : Timespec 64) :
    kClockSetRealtime tm off (some ts) = (timespecsub ts mono, 0) := by
  simp only [kClockSetRealtime, h]

theorem kClockGetRealtime_ok {tm : Option Timer} {mono : Timespec 64}
    (h : kClockGetMonotonic tm = .ok mono) (off : Timespec 64) :
    kClockGetRealtime tm off = .ok (timespecadd off mono) := by
  rw [kClockGetRealtime, h]
  rfl

/-- After a setting, and any number of readings, the realtime clock shows the time that was
set plus the time that has passed; it does not run backwards, and the time of day that was
set is read back at the same reading of the timer. -/
theorem realtime_follows_setting {tgt : Target} {tm₁ : Option Timer} {m₁ : Timespec 64}
    (hm₁ : kClockGetMonotonic tm₁ = .ok m₁) :
    (∀ (t off off₁ off' : Timespec 64) (calls : List (ClockCall tgt)), t.Normal →
      kClockSetRealtime tm₁ off (some t) = (off₁, 0) → (∀ c ∈ calls, c.IsGet) →
      LabelledSystem.exec ClockCall.step off₁ calls = some off' →
      (∀ tm₂ m₂, kClockGetMonotonic tm₂ = .ok m₂ → NoOverflow t m₁ m₂ →
        ∃ r, kClockGetRealtime tm₂ off' = .ok r ∧ r.Normal ∧
          r.nanos = t.nanos + (m₂.nanos - m₁.nanos)) ∧
      (∀ tm₂ m₂ tm₃ m₃, kClockGetMonotonic tm₂ = .ok m₂ → kClockGetMonotonic tm₃ = .ok m₃ →
        NoOverflow t m₁ m₂ → NoOverflow t m₁ m₃ → m₂.nanos ≤ m₃.nanos →
        ∃ r₂ r₃, kClockGetRealtime tm₂ off' = .ok r₂ ∧ kClockGetRealtime tm₃ off' = .ok r₃ ∧
          r₂.nanos ≤ r₃.nanos)) ∧
    (∀ (tv old : Timeval tgt) (off off' : Timespec 64) (calls : List (ClockCall tgt)), tv.Normal →
      NoOverflow tv.toTimespec m₁ m₁ → (∀ c ∈ calls, c.IsGet) →
      LabelledSystem.exec ClockCall.step (kSysSettimeofday tm₁ off (some tv)).1 calls = some off' →
      (kSysSettimeofday tm₁ off (some tv)).2 = 0 ∧
        ∀ tm₂, kClockGetMonotonic tm₂ = .ok m₁ →
          kSysGettimeofday tm₂ off' (some old) = (some tv, 0)) := by
  have hnormal₁ := kClockGetMonotonic_normal hm₁
  refine ⟨?_, ?_⟩
  · intro t off off₁ off' calls ht hset hgets hrun
    rw [kClockSetRealtime_ok hm₁] at hset
    obtain rfl : off' = timespecsub t m₁ :=
      (ClockCall.exec_gets hgets hrun).trans (congrArg Prod.fst hset).symm
    have hread : ∀ tm₂ m₂, kClockGetMonotonic tm₂ = .ok m₂ → NoOverflow t m₁ m₂ →
        ∃ r, kClockGetRealtime tm₂ (timespecsub t m₁) = .ok r ∧ r.Normal ∧
          r.nanos = t.nanos + (m₂.nanos - m₁.nanos) := by
      intro tm₂ m₂ hm₂ hfits
      have hnormal₂ := kClockGetMonotonic_normal hm₂
      refine ⟨_, kClockGetRealtime_ok hm₂ _, ?_, (hfits.nanos_eq ht hnormal₁ hnormal₂).2⟩
      exact (hfits.offset ht hnormal₁).1.add hnormal₂
    refine ⟨hread, ?_⟩
    intro tm₂ m₂ tm₃ m₃ hm₂ hm₃ hfits₂ hfits₃ hle
    obtain ⟨r₂, hr₂, -, hnanos₂⟩ := hread tm₂ m₂ hm₂ hfits₂
    obtain ⟨r₃, hr₃, -, hnanos₃⟩ := hread tm₃ m₃ hm₃ hfits₃
    exact ⟨r₂, r₃, hr₂, hr₃, by omega⟩
  · intro tv old off off' calls htv hfits hgets hrun
    have hset : kSysSettimeofday tm₁ off (some tv) = (timespecsub tv.toTimespec m₁, 0) :=
      kClockSetRealtime_ok hm₁ off
    rw [hset] at hrun ⊢
    refine ⟨rfl, ?_⟩
    intro tm₂ hm₂
    obtain rfl := ClockCall.exec_gets hgets hrun
    have hback := hfits.read_back htv.toTimespec hnormal₁
    have husec := htv.toTimespec.toInt_usec tgt
    rw [htv.nsec, Int.mul_ediv_cancel _ (by decide)] at husec
    simp only [kSysGettimeofday, kClockGetRealtime_ok hm₂, hback, Except.map, storeResult]
    rw [BitVec.toInt_inj.mp husec]
    rfl

/-- A timer that counts microseconds. -/
def microTimer (count : BitVec 64) : Option Timer := some ⟨.ok count, .ok ⟨1000000, by decide⟩⟩

theorem microTimer_reading (count : BitVec 64) :
    kClockGetMonotonic (microTimer count) = .ok (kClockRawToTimespec count ⟨1000000, by decide⟩) :=
  rfl

theorem realtime_follows_setting_later :
    ∃ r, kClockGetRealtime (microTimer 4200000)
        (kClockSetRealtime (microTimer 1500000) ⟨0, 0⟩ (some ⟨1000, 999999999⟩)).1 = .ok r ∧
      r.Normal ∧ r.nanos = 1003699999999 := by
  have hfits : NoOverflow ⟨1000, 999999999⟩ ⟨1, 500000000⟩ ⟨4, 200000000⟩ :=
    ⟨⟨by decide, by decide⟩, ⟨by decide, by decide⟩, ⟨by decide, by decide⟩,
      ⟨by decide, by decide⟩⟩
  have hset : kClockSetRealtime (microTimer 1500000) ⟨0, 0⟩ (some ⟨1000, 999999999⟩) =
      (⟨999, 499999999⟩, 0) := by decide
  have hfollows := @realtime_follows_setting ⟨64, Or.inr rfl⟩ _ _
    ((microTimer_reading 1500000).trans
      (congrArg Except.ok (show _ = (⟨1, 500000000⟩ : Timespec 64) by decide)))
  have hread := (hfollows.1 ⟨1000, 999999999⟩ ⟨0, 0⟩ ⟨999, 499999999⟩ ⟨999, 499999999⟩ []
    (by decide) hset (by simp) rfl).1 (microTimer 4200000) ⟨4, 200000000⟩
    ((microTimer_reading 4200000).trans (congrArg Except.ok (by decide))) hfits
  rw [hset]
  obtain ⟨r, hr, hnormal, hnanos⟩ := hread
  exact ⟨r, hr, hnormal, hnanos.trans (by decide)⟩

/-- The nanoseconds of an offset are normal exactly when the nanoseconds of the two times
are less than one second apart, also where the difference wraps around. -/
theorem timespecsub_normal_iff {a b : Timespec 64} (hb : b.Normal) :
    (timespecsub a b).Normal ↔ -1000000000 ≤ a.tvNsec.toInt - b.tvNsec.toInt ∧
      a.tvNsec.toInt - b.tvNsec.toInt < 1000000000 := by
  obtain ⟨hb0, hb1⟩ := hb
  have ha0 : -2 ^ 63 ≤ a.tvNsec.toInt := BitVec.le_toInt a.tvNsec
  have ha1 : a.tvNsec.toInt < 2 ^ 63 := BitVec.toInt_lt
  by_cases hfits : FitsInt64 (a.tvNsec.toInt - b.tvNsec.toInt)
  · have hdiff := hfits.toInt_sub
    by_cases hborrow : a.tvNsec.toInt - b.tvNsec.toInt < 0
    · have hsum : FitsInt64 ((a.tvNsec - b.tvNsec).toInt + (1000000000 : BitVec 64).toInt) := by
        obtain ⟨h0, h1⟩ := hfits
        rw [hdiff, toInt_second]
        exact ⟨by omega, by omega⟩
      simp only [timespecsub, Timespec.Normal, hdiff, if_pos hborrow, hsum.toInt_add, toInt_second]
      omega
    · simp only [timespecsub, Timespec.Normal, hdiff, if_neg hborrow]
      omega
  · -- only a difference below the least number wraps, to one far above a second
    have hwrap : (a.tvNsec - b.tvNsec).toInt = a.tvNsec.toInt - b.tvNsec.toInt + 2 ^ 64 := by
      have hlow : a.tvNsec.toInt - b.tvNsec.toInt < -2 ^ 63 := by
        unfold FitsInt64 at hfits
        omega
      have hshift : FitsInt64 (a.tvNsec.toInt - b.tvNsec.toInt + 2 ^ 64) := ⟨by omega, by omega⟩
      have hbmod : (a.tvNsec.toInt - b.tvNsec.toInt + 2 ^ 64).bmod (2 ^ 64) =
          (a.tvNsec.toInt - b.tvNsec.toInt).bmod (2 ^ 64) := Int.add_bmod_right _ _
      rw [BitVec.toInt_sub, ← hbmod, hshift.bmod_eq]
    have hpos : ¬(a.tvNsec - b.tvNsec).toInt < 0 := by
      rw [hwrap]
      unfold FitsInt64 at hfits
      omega
    unfold FitsInt64 at hfits
    simp only [timespecsub, Timespec.Normal, if_neg hpos]
    omega

namespace ClockCall

variable {t : Target}

/-- The timer that a call reads and the time that it sets the realtime clock to. -/
def setting : ClockCall t → Option (Option Timer × Timespec 64)
  | settime32 tm clockId (some ts) => if clockId = clockRealtime then some (tm, ts.widen) else none
  | settime64 tm clockId (some ts) => if clockId = clockRealtime then some (tm, ts) else none
  | settimeofday tm (some tv) => some (tm, tv.toTimespec)
  | _ => none

/-- The nanoseconds of a setting are less than one second away from those of the timer. -/
def SettingNear (c : ClockCall t) : Prop :=
  ∀ tm ts mono, c.setting = some (tm, ts) → kClockGetMonotonic tm = .ok mono →
    -1000000000 ≤ ts.tvNsec.toInt - mono.tvNsec.toInt ∧
      ts.tvNsec.toInt - mono.tvNsec.toInt < 1000000000

/-- What a successful reading of the realtime clock returns is normal. -/
def ReplyNormal (off : Timespec 64) : ClockCall t → Prop
  | gettime32 tm clockId tp => clockId = clockRealtime →
      ∀ x, kSysClockGettime32 tm off clockId tp = (some x, 0) → x.Normal
  | gettime64 tm clockId tp => clockId = clockRealtime →
      ∀ x, kSysClockGettime64 tm off clockId tp = (some x, 0) → x.Normal
  | gettimeofday tm tp => ∀ x, kSysGettimeofday tm off tp = (some x, 0) → x.Normal
  | settime32 .. | settime64 .. | settimeofday .. => True

/-- A call hands at most one setting to `k_clock_set_realtime`. -/
theorem after_eq (off : Timespec 64) (c : ClockCall t) :
    c.after off = match c.setting with
      | none => off
      | some (tm, ts) => (kClockSetRealtime tm off (some ts)).1 := by
  cases c with
  | gettime32 | gettime64 | gettimeofday => rfl
  | settime32 tm clockId tp =>
      cases tp with
      | none => rfl
      | some ts =>
          by_cases hid : clockId = clockRealtime
          · simp [after, setting, kSysClockSettime32, kSysClockSettime64, hid]
          · simp [after, setting, kSysClockSettime32, kSysClockSettime64, hid]
  | settime64 tm clockId tp =>
      cases tp with
      | none => rfl
      | some ts =>
          by_cases hid : clockId = clockRealtime
          · simp [after, setting, kSysClockSettime64, hid]
          · simp [after, setting, kSysClockSettime64, hid]
  | settimeofday tm tp =>
      cases tp with
      | none => rfl
      | some tv => rfl

/-- A call keeps a normal offset normal exactly when its setting is near. -/
theorem after_normal_iff {off : Timespec 64} (hoff : off.Normal) (c : ClockCall t) :
    (c.after off).Normal ↔ c.SettingNear := by
  rw [after_eq]
  cases hset : c.setting with
  | none =>
      refine ⟨fun _ tm ts mono hc => ?_, fun _ => hoff⟩
      rw [hset] at hc
      cases hc
  | some request =>
      obtain ⟨tm, ts⟩ := request
      cases hmono : kClockGetMonotonic tm with
      | error r =>
          simp only [kClockSetRealtime, hmono]
          refine ⟨fun _ tm' ts' mono hc hread => ?_, fun _ => hoff⟩
          rw [hset] at hc
          cases hc
          rw [hmono] at hread
          cases hread
      | ok mono =>
          simp only [kClockSetRealtime, hmono]
          rw [timespecsub_normal_iff (kClockGetMonotonic_normal hmono)]
          constructor
          · intro hnear tm' ts' mono' hc hread
            rw [hset] at hc
            cases hc
            rw [hmono] at hread
            cases hread
            exact hnear
          · intro hnear
            exact hnear tm ts mono hset hmono

end ClockCall

/-- A realtime reading stores a normal time. -/
theorem kClockGetRealtime_normal {tm : Option Timer} {off ts : Timespec 64} (hoff : off.Normal)
    (h : kClockGetRealtime tm off = .ok ts) : ts.Normal := by
  cases hmono : kClockGetMonotonic tm with
  | error r =>
      rw [kClockGetRealtime, hmono] at h
      cases h
  | ok mono =>
      rw [kClockGetRealtime_ok hmono] at h
      cases h
      exact hoff.add (kClockGetMonotonic_normal hmono)

theorem storeResult_ok {α : Type} {old x : α} {e : Except Failure α}
    (h : storeResult old e = (some x, 0)) : e = .ok x := by
  cases e with
  | error r => exact absurd (congrArg Prod.snd h) r.property
  | ok y =>
      cases h
      rfl

theorem kSysClockGettime64_normal {tm : Option Timer} {off x : Timespec 64}
    {tp : Option (Timespec 64)} (hoff : off.Normal)
    (h : kSysClockGettime64 tm off clockRealtime tp = (some x, 0)) : x.Normal := by
  cases tp with
  | none => cases h
  | some old =>
      have hread : kClockGetRealtime tm off = .ok x := storeResult_ok h
      exact kClockGetRealtime_normal hoff hread

theorem Timespec.Normal.narrow {ts : Timespec 64} (h : ts.Normal) : ts.narrow.Normal := by
  obtain ⟨h0, h1⟩ := h
  have hwidth : ts.tvNsec.toInt.bmod (2 ^ 32) = ts.tvNsec.toInt :=
    Target.bmod_eq ⟨32, Or.inl rfl⟩ (by omega) (by omega)
  have hnsec : ts.narrow.tvNsec.toInt = ts.tvNsec.toInt := toInt_setWidth_of_small h0 hwidth
  rw [Timespec.Normal, hnsec]
  exact ⟨h0, h1⟩

/-- With a normal offset every reading is normal. -/
theorem ClockCall.replyNormal {t : Target} {off : Timespec 64} (hoff : off.Normal)
    (c : ClockCall t) : c.ReplyNormal off := by
  cases c with
  | gettime32 tm clockId tp =>
      rintro rfl x hx
      cases hreply : kSysClockGettime64 tm off clockRealtime (tp.map Timespec.widen) with
      | mk y r =>
          simp only [kSysClockGettime32, hreply, Prod.mk.injEq, Option.map_eq_some_iff] at hx
          obtain ⟨⟨z, rfl, rfl⟩, rfl⟩ := hx
          exact (kSysClockGettime64_normal hoff hreply).narrow
  | gettime64 tm clockId tp =>
      rintro rfl x hx
      exact kSysClockGettime64_normal hoff hx
  | gettimeofday tm tp =>
      intro x hx
      cases tp with
      | none => cases hx
      | some old =>
          have hmap := storeResult_ok hx
          cases hread : kClockGetRealtime tm off with
          | error r =>
              rw [hread] at hmap
              cases hmap
          | ok ts =>
              rw [hread] at hmap
              cases hmap
              have hnormal := kClockGetRealtime_normal hoff hread
              have husec := hnormal.toInt_usec t
              obtain ⟨h0, h1⟩ := hnormal
              rw [Timeval.Normal, husec]
              omega
  | settime32 | settime64 | settimeofday => trivial

/-- At boot the offset is zero. -/
def realtimeStart : Timespec 64 := ⟨0, 0⟩

/-- Over all sequences of clock calls, the offset stays normal and every successful reading of
the realtime clock is normal exactly when each setting is near the monotonic clock. -/
theorem realtime_normal_iff_near {t : Target} (calls : List (ClockCall t)) :
    LabelledSystem.Along ClockCall.step
        (fun off c => (c.after off).Normal ∧ c.ReplyNormal off) realtimeStart calls ↔
      ∀ c ∈ calls, c.SettingNear := by
  have hstart : realtimeStart.Normal := by decide
  have hcongr : LabelledSystem.Along ClockCall.step
        (fun off c => (c.after off).Normal ∧ c.ReplyNormal off) realtimeStart calls ↔
      LabelledSystem.Along ClockCall.step (fun _ c => c.SettingNear) realtimeStart calls := by
    apply LabelledSystem.along_congr (I := Timespec.Normal) _ _ hstart
    · intro off c hoff
      exact (and_iff_left (c.replyNormal hoff)).trans (c.after_normal_iff hoff)
    · intro off c off' hoff hnear hstep
      rw [← Option.some.inj hstep]
      exact (c.after_normal_iff hoff).mpr hnear
  rw [hcongr]
  constructor
  · exact LabelledSystem.Along.forall_mem fun _ _ => rfl
  · exact LabelledSystem.Along.of_forall_mem

/-- A setting with three seconds of nanoseconds is accepted, and the next reading has two. -/
theorem realtime_reads_two_seconds_of_nsec :
    kSysClockSettime64 (microTimer 0) realtimeStart clockRealtime (some ⟨0, 3000000000⟩) =
        (⟨0, 3000000000⟩, 0) ∧
      kSysClockGettime64 (microTimer 0) ⟨0, 3000000000⟩ clockRealtime (some ⟨0, 0⟩) =
        (some ⟨1, 2000000000⟩, 0) ∧
      ¬(⟨1, 2000000000⟩ : Timespec 64).Normal := by
  decide

end BaremetalCrt
