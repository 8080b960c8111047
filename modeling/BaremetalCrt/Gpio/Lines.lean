import BaremetalCrt.Device.Mmio
import BaremetalCrt.Library.WordBits
import BaremetalCrt.Sys.Target

/-!
# The lines of a GPIO device

A request names lines by a 64-bit mask. The GPIO layer goes through 32 lines and calls the
driver for each line of the mask, and the driver reads or changes one bit of its data
register.
-/

namespace BaremetalCrt

open WordBits (bit merge)

/-- `struct gpio_v2_line_values`. -/
structure LineValues where
  bits : BitVec 64
  mask : BitVec 64
deriving DecidableEq

/-- `get` and `set` of `struct k_gpio_driver_ops`, over the state of the device. -/
structure GpioOps (σ : Type) where
  get : Option (σ → Nat → Int)
  set : Option (σ → Nat → Int → σ × Int)

section Layer

variable {σ : Type}

/-- The loop of `k_gpio_line_get_values` over the lines from `i` on, with the bits and the result
so far. -/
def lineGetLoop (get : σ → Nat → Int) (s : σ) (mask : BitVec 64) :
    Nat → Nat → BitVec 64 → BitVec 64 → Int → BitVec 64 × Int
  | 0, _, _, bits, ret => (bits, ret)
  | n + 1, i, m, bits, ret =>
      if mask &&& m = 0 then lineGetLoop get s mask n (i + 1) (m <<< 1) bits ret
      else
        let r := get s i
        if r = -1 then lineGetLoop get s mask n (i + 1) (m <<< 1) bits (-ebadf)
        else if r = 1 then lineGetLoop get s mask n (i + 1) (m <<< 1) (bits ||| m) ret
        else lineGetLoop get s mask n (i + 1) (m <<< 1) bits ret

/-- `k_gpio_line_get_values`, with the values that the argument points to. -/
def kGpioLineGetValues (drv : Option (GpioOps σ)) (s : σ) (p : Option LineValues) :
    Option LineValues × Int :=
  match drv.bind (·.get) with
  | none => (p, -einval)
  | some get =>
      match p with
      | none => (p, -einval)
      | some p =>
          let out := lineGetLoop get s p.mask 32 0 1 0 0
          (some ⟨out.1, p.mask⟩, out.2)

/-- The loop of `k_gpio_line_set_values` over the lines from `i` on. -/
def lineSetLoop (set : σ → Nat → Int → σ × Int) (v : LineValues) :
    Nat → Nat → BitVec 64 → σ → Int → σ × Int
  | 0, _, _, s, ret => (s, ret)
  | n + 1, i, m, s, ret =>
      if v.mask &&& m = 0 then lineSetLoop set v n (i + 1) (m <<< 1) s ret
      else
        let out := set s i (if v.bits &&& m = 0 then 0 else 1)
        lineSetLoop set v n (i + 1) (m <<< 1) out.1 (if out.2 = -1 then -ebadf else ret)

/-- `k_gpio_line_set_values`. -/
def kGpioLineSetValues (drv : Option (GpioOps σ)) (s : σ) (p : Option LineValues) : σ × Int :=
  match drv.bind (·.set) with
  | none => (s, -einval)
  | some set =>
      match p with
      | none => (s, -einval)
      | some v => lineSetLoop set v 32 0 1 s 0

end Layer

/-- `REG_DATA` of the Xilinx driver. -/
def gpioRegData : Nat := 0x000

/-- `OFFSET_CH`. -/
def gpioOffsetCh : Nat := 0x008

/-- `gpio_v2_get`. -/
def gpioV2Get (dev : DeviceWords) (ch : Nat) : Int :=
  let chDev := ch / 32
  let l := ch % 32
  let v := kDeviceRead32 dev (gpioRegData + gpioOffsetCh * chDev)
  if v &&& bit 32 l = 0 then 0 else 1

/-- `gpio_v2_set`. -/
def gpioV2Set (dev : DeviceWords) (ch : Nat) (value : Int) : DeviceWords × Int :=
  let chDev := ch / 32
  let l := ch % 32
  let reg := gpioRegData + gpioOffsetCh * chDev
  let v := kDeviceRead32 dev reg
  let v := if value ≠ 0 then v ||| bit 32 l else v &&& ~~~bit 32 l
  (kDeviceWrite32 dev v reg, 0)

/-- `v2_gpio_ops`. -/
def v2GpioOps : GpioOps DeviceWords := ⟨some gpioV2Get, some gpioV2Set⟩

section Driver

variable (dev : DeviceWords) {i : Nat}

theorem gpioV2Get_eq (hi : i < 32) :
    gpioV2Get dev i = if (kDeviceRead32 dev gpioRegData).getLsbD i = true then 1 else 0 := by
  have hdiv : i / 32 = 0 := Nat.div_eq_of_lt hi
  simp only [gpioV2Get, hdiv, Nat.mod_eq_of_lt hi, Nat.mul_zero, Nat.add_zero]
  cases hbit : (kDeviceRead32 dev gpioRegData).getLsbD i with
  | false => exact if_pos ((WordBits.and_bit_eq_zero_iff _ hi).mpr hbit)
  | true =>
      refine if_neg fun hzero => ?_
      rw [(WordBits.and_bit_eq_zero_iff _ hi).mp hzero] at hbit
      exact absurd hbit nofun

/-- The driver changes one bit of the data register. -/
theorem gpioV2Set_read (hi : i < 32) (value : Int) (j : Nat) :
    (kDeviceRead32 (gpioV2Set dev i value).1 gpioRegData).getLsbD j =
      if j = i then decide (value ≠ 0) else (kDeviceRead32 dev gpioRegData).getLsbD j := by
  have hdiv : i / 32 = 0 := Nat.div_eq_of_lt hi
  simp only [gpioV2Set, hdiv, Nat.mod_eq_of_lt hi, Nat.mul_zero, Nat.add_zero,
    kDeviceRead32_write_self]
  by_cases hvalue : value ≠ 0
  · rw [if_pos hvalue, WordBits.getLsbD_or_bit _ hi, decide_eq_true hvalue]
  · rw [if_neg hvalue, WordBits.getLsbD_and_not_bit _ hi, decide_eq_false hvalue]

theorem gpioV2Set_frame (hi : i < 32) (value : Int) {off : Nat} (hoff : off ≠ gpioRegData) :
    kDeviceRead32 (gpioV2Set dev i value).1 off = kDeviceRead32 dev off := by
  have hdiv : i / 32 = 0 := Nat.div_eq_of_lt hi
  simp only [gpioV2Set, hdiv, Nat.mul_zero, Nat.add_zero]
  exact kDeviceRead32_write_of_ne _ _ hoff

end Driver

section Loops

variable {dev : DeviceWords} {v : LineValues} {n i : Nat} {ret : Int}

/-- What the loop over the next `n` lines does to the device. -/
structure LinesSet (v : LineValues) (dev : DeviceWords) (i n : Nat) (dev' : DeviceWords) :
    Prop where
  data : ∀ j < 32, (kDeviceRead32 dev' gpioRegData).getLsbD j =
    if i ≤ j ∧ j < i + n ∧ v.mask.getLsbD j = true then v.bits.getLsbD j
    else (kDeviceRead32 dev gpioRegData).getLsbD j
  frame : ∀ off, off ≠ gpioRegData → kDeviceRead32 dev' off = kDeviceRead32 dev off

/-- A line that is not in the mask is left alone. -/
theorem LinesSet.skip {dev' : DeviceWords} (h : LinesSet v dev (i + 1) n dev')
    (hmask : v.mask.getLsbD i = false) : LinesSet v dev i (n + 1) dev' where
  data := by
    intro j hj
    rw [h.data j hj]
    refine if_congr ?_ rfl rfl
    constructor
    · rintro ⟨hlow, hhigh, hm⟩
      exact ⟨by omega, by omega, hm⟩
    · rintro ⟨hlow, hhigh, hm⟩
      have hne : i ≠ j := by
        rintro rfl
        exact absurd (hmask.symm.trans hm) nofun
      exact ⟨by omega, by omega, hm⟩
  frame := h.frame

/-- A line of the mask gets its bit. -/
theorem LinesSet.line {dev' : DeviceWords} {value : Int}
    (h : LinesSet v (gpioV2Set dev i value).1 (i + 1) n dev') (hi : i < 32)
    (hmask : v.mask.getLsbD i = true) (hvalue : decide (value ≠ 0) = v.bits.getLsbD i) :
    LinesSet v dev i (n + 1) dev' where
  data := by
    intro j hj
    rw [h.data j hj, gpioV2Set_read _ hi, hvalue]
    by_cases hji : j = i
    · subst j
      rw [if_neg (by omega), if_pos rfl, if_pos ⟨Nat.le_refl i, by omega, hmask⟩]
    · rw [if_neg hji]
      refine if_congr ?_ rfl rfl
      constructor
      · rintro ⟨hlow, hhigh, hm⟩
        exact ⟨by omega, by omega, hm⟩
      · rintro ⟨hlow, hhigh, hm⟩
        exact ⟨by omega, by omega, hm⟩
  frame := fun off hoff => (h.frame off hoff).trans (gpioV2Set_frame _ hi _ hoff)

theorem lineSetLoop_lines (v : LineValues) (dev : DeviceWords) (ret : Int) (hn : i + n ≤ 32) :
    LinesSet v dev i n (lineSetLoop gpioV2Set v n i (bit 64 i) dev ret).1 ∧
      (lineSetLoop gpioV2Set v n i (bit 64 i) dev ret).2 = ret := by
  induction n generalizing i dev ret with
  | zero =>
      refine ⟨⟨fun j _ => ?_, fun _ _ => rfl⟩, rfl⟩
      rw [if_neg (by omega)]
      rfl
  | succ n ih =>
      have hi : i < 64 := by omega
      have hmask := WordBits.and_bit_eq_zero_iff v.mask hi
      have hbits := WordBits.and_bit_eq_zero_iff v.bits hi
      simp only [lineSetLoop, WordBits.bit_shiftLeft]
      by_cases hline : v.mask &&& bit 64 i = 0
      · rw [if_pos hline]
        obtain ⟨hlines, hret⟩ := ih dev ret (by omega : i + 1 + n ≤ 32)
        exact ⟨hlines.skip (hmask.mp hline), hret⟩
      · rw [if_neg hline]
        have hin : v.mask.getLsbD i = true :=
          Bool.of_not_eq_false fun hfalse => hline (hmask.mpr hfalse)
        have hvalue : decide ((if v.bits &&& bit 64 i = 0 then 0 else 1 : Int) ≠ 0) =
            v.bits.getLsbD i := by
          by_cases hzero : v.bits &&& bit 64 i = 0
          · rw [if_pos hzero, hbits.mp hzero]
            rfl
          · rw [if_neg hzero, Bool.of_not_eq_false fun hfalse => hzero (hbits.mpr hfalse)]
            rfl
        obtain ⟨hlines, hret⟩ := ih (gpioV2Set dev i _).1 ret (by omega : i + 1 + n ≤ 32)
        exact ⟨hlines.line (by omega) hin hvalue, hret⟩

/-- What the loop over the next `n` lines adds to the bits: those of the data register under the
mask. -/
def LinesRead (dev : DeviceWords) (mask : BitVec 64) (i n : Nat) (bits out : BitVec 64) : Prop :=
  ∀ j < 64, out.getLsbD j =
    if i ≤ j ∧ j < i + n ∧ mask.getLsbD j = true ∧
        (kDeviceRead32 dev gpioRegData).getLsbD j = true then true
    else bits.getLsbD j

/-- A line that is low or not in the mask adds nothing. -/
theorem LinesRead.skip {mask bits out : BitVec 64} (h : LinesRead dev mask (i + 1) n bits out)
    (hlow : ¬(mask.getLsbD i = true ∧ (kDeviceRead32 dev gpioRegData).getLsbD i = true)) :
    LinesRead dev mask i (n + 1) bits out := by
  intro j hj
  rw [h j hj]
  refine if_congr ?_ rfl rfl
  constructor
  · rintro ⟨hle, hlt, hhigh⟩
    exact ⟨by omega, by omega, hhigh⟩
  · rintro ⟨hle, hlt, hhigh⟩
    have hne : i ≠ j := by
      rintro rfl
      exact hlow hhigh
    exact ⟨by omega, by omega, hhigh⟩

/-- A line of the mask that is high adds its bit. -/
theorem LinesRead.line {mask bits out : BitVec 64}
    (h : LinesRead dev mask (i + 1) n (bits ||| bit 64 i) out) (hi : i < 64)
    (hmask : mask.getLsbD i = true)
    (hdata : (kDeviceRead32 dev gpioRegData).getLsbD i = true) :
    LinesRead dev mask i (n + 1) bits out := by
  intro j hj
  rw [h j hj, WordBits.getLsbD_or_bit _ hi]
  by_cases hji : j = i
  · subst j
    rw [if_neg (by omega), if_pos rfl, if_pos ⟨Nat.le_refl i, by omega, hmask, hdata⟩]
  · rw [if_neg hji]
    refine if_congr ?_ rfl rfl
    constructor
    · rintro ⟨hle, hlt, hhigh⟩
      exact ⟨by omega, by omega, hhigh⟩
    · rintro ⟨hle, hlt, hhigh⟩
      exact ⟨by omega, by omega, hhigh⟩

theorem lineGetLoop_lines (dev : DeviceWords) (mask bits : BitVec 64) (ret : Int)
    (hn : i + n ≤ 32) :
    LinesRead dev mask i n bits (lineGetLoop gpioV2Get dev mask n i (bit 64 i) bits ret).1 ∧
      (lineGetLoop gpioV2Get dev mask n i (bit 64 i) bits ret).2 = ret := by
  induction n generalizing i bits with
  | zero =>
      refine ⟨fun j _ => ?_, rfl⟩
      rw [if_neg (by omega)]
      rfl
  | succ n ih =>
      have hi : i < 64 := by omega
      have hmask := WordBits.and_bit_eq_zero_iff mask hi
      simp only [lineGetLoop, WordBits.bit_shiftLeft, gpioV2Get_eq dev (by omega : i < 32)]
      by_cases hline : mask &&& bit 64 i = 0
      · rw [if_pos hline]
        obtain ⟨hbits, hret⟩ := ih bits (by omega : i + 1 + n ≤ 32)
        refine ⟨hbits.skip fun hhigh => ?_, hret⟩
        exact absurd ((hmask.mp hline).symm.trans hhigh.1) nofun
      · rw [if_neg hline]
        have hin : mask.getLsbD i = true :=
          Bool.of_not_eq_false fun hfalse => hline (hmask.mpr hfalse)
        cases hdata : (kDeviceRead32 dev gpioRegData).getLsbD i with
        | false =>
            obtain ⟨hbits, hret⟩ := ih bits (by omega : i + 1 + n ≤ 32)
            refine ⟨hbits.skip fun hhigh => ?_, hret⟩
            exact absurd (hdata.symm.trans hhigh.2) nofun
        | true =>
            obtain ⟨hbits, hret⟩ := ih (bits ||| bit 64 i) (by omega : i + 1 + n ≤ 32)
            exact ⟨hbits.line hi hin hdata, hret⟩

end Loops

section Requests

variable (dev : DeviceWords) (v : LineValues)

/-- A request changes the lines of the mask. -/
theorem kGpioLineSetValues_eq :
    kGpioLineSetValues (some v2GpioOps) dev (some v) =
      (kDeviceWrite32 dev (merge (kDeviceRead32 dev gpioRegData) (v.mask.setWidth 32)
        (v.bits.setWidth 32)) gpioRegData, 0) := by
  obtain ⟨hlines, hret⟩ := lineSetLoop_lines v dev 0 (Nat.le_refl (0 + 32))
  rw [WordBits.bit_zero] at hlines hret
  apply Prod.ext
  · apply deviceWords_ext
    intro off
    by_cases hoff : off = gpioRegData
    · subst hoff
      rw [kDeviceRead32_write_self]
      apply BitVec.eq_of_getLsbD_eq
      intro j hj
      refine (hlines.data j hj).trans ?_
      rw [WordBits.getLsbD_merge hj, BitVec.getLsbD_setWidth, BitVec.getLsbD_setWidth,
        decide_eq_true hj, Bool.true_and, Bool.true_and]
      refine if_congr ?_ rfl rfl
      exact ⟨fun h => h.2.2, fun h => ⟨Nat.zero_le j, by omega, h⟩⟩
    · rw [kDeviceRead32_write_of_ne _ _ hoff]
      exact hlines.frame off hoff
  · exact hret

/-- A request reads the lines of the mask. -/
theorem kGpioLineGetValues_eq :
    kGpioLineGetValues (some v2GpioOps) dev (some v) =
      (some ⟨(kDeviceRead32 dev gpioRegData &&& v.mask.setWidth 32).setWidth 64, v.mask⟩, 0) := by
  obtain ⟨hbits, hret⟩ := lineGetLoop_lines dev v.mask 0 0 (Nat.le_refl (0 + 32))
  rw [WordBits.bit_zero] at hbits hret
  have hword : (lineGetLoop gpioV2Get dev v.mask 32 0 1 0 0).1 =
      (kDeviceRead32 dev gpioRegData &&& v.mask.setWidth 32).setWidth 64 := by
    apply BitVec.eq_of_getLsbD_eq
    intro j hj
    refine (hbits j hj).trans ?_
    rw [BitVec.getLsbD_setWidth, BitVec.getLsbD_and, BitVec.getLsbD_setWidth, decide_eq_true hj,
      Bool.true_and]
    by_cases hline : j < 32
    · rw [decide_eq_true hline, Bool.true_and]
      cases kDeviceRead32 dev gpioRegData |>.getLsbD j <;> cases v.mask.getLsbD j <;> simp [hline]
    · simp [hline]
  change (some (LineValues.mk (lineGetLoop gpioV2Get dev v.mask 32 0 1 0 0).1 v.mask),
    (lineGetLoop gpioV2Get dev v.mask 32 0 1 0 0).2) = _
  rw [hword]
  exact congrArg _ hret

end Requests

/-- For every mask and bits and every content of the data register, a request leaves the lines
of the mask at their bits and all other lines and registers as before. A request that reads the
same mask then returns the bits on these lines and the mask. Requests with disjoint masks may be
made in any order. -/
theorem gpio_lines_masked (dev : DeviceWords) (v : LineValues) :
    (∃ dev', kGpioLineSetValues (some v2GpioOps) dev (some v) = (dev', 0) ∧
      kDeviceRead32 dev' gpioRegData =
        (kDeviceRead32 dev gpioRegData &&& ~~~v.mask.setWidth 32) |||
          (v.bits.setWidth 32 &&& v.mask.setWidth 32) ∧
      (∀ off, off ≠ gpioRegData → kDeviceRead32 dev' off = kDeviceRead32 dev off) ∧
      ∀ bits, kGpioLineGetValues (some v2GpioOps) dev' (some ⟨bits, v.mask⟩) =
        (some ⟨((v.bits &&& v.mask).setWidth 32).setWidth 64, v.mask⟩, 0)) ∧
    ∀ v' : LineValues, v.mask &&& v'.mask = 0 →
      kGpioLineSetValues (some v2GpioOps)
          (kGpioLineSetValues (some v2GpioOps) dev (some v)).1 (some v') =
        kGpioLineSetValues (some v2GpioOps)
          (kGpioLineSetValues (some v2GpioOps) dev (some v')).1 (some v) := by
  refine ⟨⟨_, kGpioLineSetValues_eq dev v, ?_, ?_, ?_⟩, ?_⟩
  · exact kDeviceRead32_write_self _ _
  · intro off hoff
    exact kDeviceRead32_write_of_ne _ _ hoff
  · intro bits
    rw [kGpioLineGetValues_eq, kDeviceRead32_write_self, WordBits.merge_and]
    rw [← BitVec.setWidth_and]
  · intro v' hmasks
    have hlines : v.mask.setWidth 32 &&& v'.mask.setWidth 32 = 0#32 := by
      rw [← BitVec.setWidth_and, hmasks]
      rfl
    simp only [kGpioLineSetValues_eq, kDeviceRead32_write_self]
    rw [WordBits.merge_comm hlines]
    apply congrArg (·, (0 : Int))
    apply deviceWords_ext
    intro off
    by_cases hoff : off = gpioRegData
    · rw [hoff, kDeviceRead32_write_self, kDeviceRead32_write_self]
    · simp only [kDeviceRead32_write_of_ne _ _ hoff]

end BaremetalCrt
