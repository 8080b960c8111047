import BaremetalCrt.Print.Double
import BaremetalCrt.Print.Meaning

/-!
# The digits of fixed notation

`__ftoa` takes the whole part of a number off, multiplies the fraction by a power of ten and rounds
it. For numbers up to `PRINTF_MAX_FLOAT` and the arithmetic of `double`, all steps but the
multiplication are exact; the digits are compared with the number here.
-/

namespace BaremetalCrt

open Emission FloatFormat

section Fraction

/-- A value below one keeps a distance from it. -/
theorem le_of_lt_one {q : ℚ} (h : binary64.Has q) (hone : q < 1) : q ≤ 1 - 1 / 2 ^ 53 := by
  obtain ⟨m, e, hm, -, -, hq⟩ := h
  by_cases hm0 : m ≤ 0
  · have hneg : q ≤ 0 := by
      rw [hq]
      exact mul_nonpos_of_nonpos_of_nonneg (by exact_mod_cast hm0) (two_zpow_pos e).le
    have : (1 : ℚ) / 2 ^ 53 ≤ 1 := by norm_num
    linarith
  have hpow := two_zpow_pos e
  have he : e < 0 := by
    by_contra hcon
    have h1 : (1 : ℚ) ≤ 2 ^ e := one_le_zpow₀ (by norm_num) (by omega)
    have h2 : (1 : ℚ) ≤ m := by exact_mod_cast (show (1 : ℤ) ≤ m by omega)
    have := mul_le_mul h2 h1 (by norm_num) (by linarith)
    rw [hq] at hone
    linarith
  obtain ⟨k, hk⟩ : ∃ k : ℕ, e = -k := ⟨e.natAbs, by omega⟩
  have hval : q * 2 ^ k = m := by
    rw [hq, hk, zpow_neg, zpow_natCast, mul_assoc, inv_mul_cancel₀ (by positivity), mul_one]
  rcases Nat.lt_or_ge 53 k with hlarge | hsmall
  · -- The significand alone is less than half of the unit.
    have hbits : (m : ℚ) < 2 ^ 53 := by
      have := lt_of_abs_lt hm
      exact_mod_cast this
    have hgrow : (2 : ℚ) ^ 54 ≤ 2 ^ k := pow_le_pow_right₀ (by norm_num) hlarge
    have hhalf : q < 1 / 2 := by
      by_contra hcon
      push Not at hcon
      have := mul_le_mul hcon hgrow (by positivity) (by linarith)
      rw [hval] at this
      norm_num at this hbits
      linarith
    norm_num
    linarith
  · have hlt : m < 2 ^ k := by
      have : (m : ℚ) < 2 ^ k := by
        rw [← hval]
        exact mul_lt_of_lt_one_left (by positivity) hone
      exact_mod_cast this
    have hle : (m : ℚ) ≤ 2 ^ k - 1 := by exact_mod_cast (show m ≤ 2 ^ k - 1 by omega)
    have hgrow : (2 : ℚ) ^ k ≤ 2 ^ 53 := pow_le_pow_right₀ (by norm_num) hsmall
    have hkpos : (0 : ℚ) < 2 ^ k := by positivity
    have hinv : (1 : ℚ) / 2 ^ 53 ≤ 1 / 2 ^ k := one_div_le_one_div_of_le hkpos hgrow
    have : q ≤ 1 - 1 / 2 ^ k := by
      rw [← mul_le_mul_iff_of_pos_right hkpos, hval, sub_mul, one_mul,
        one_div_mul_cancel hkpos.ne']
      exact hle
    linarith

theorem half_emin_lt : (2 : ℚ) ^ binary64.emin / 2 < 1 / 2 ^ 53 := by
  calc (2 : ℚ) ^ (-1074 : ℤ) / 2 < 2 ^ (-1074 : ℤ) := half_lt_self (two_zpow_pos _)
    _ ≤ 2 ^ (-53 : ℤ) := zpow_le_zpow_right₀ (by norm_num) (by norm_num)
    _ = 1 / 2 ^ 53 := by norm_num

/-- The fraction of a number times a power of ten, as the arithmetic gives it. -/
def scaledFraction (p : Nat) (q : ℚ) : ℚ := binary64.nearest ((q - ⌊q⌋) * 10 ^ p)

theorem scaledFraction_nonneg (p : Nat) (q : ℚ) : 0 ≤ scaledFraction p q := by
  have hfloor := Int.floor_le q
  exact nearest_nonneg (mul_nonneg (by linarith) (by positivity))

variable {q : ℚ} (hq : binary64.Has q) (hnn : 0 ≤ q) (p : Nat)

include hq hnn

/-- The scaled fraction does not reach the power of ten. -/
theorem scaledFraction_lt : scaledFraction p q < 10 ^ p := by
  have hfloor := Int.floor_le q
  have hlt := Int.lt_floor_add_one q
  have hfract := le_of_lt_one (has_fract hq hnn) (by linarith)
  have hten : (1 : ℚ) ≤ 10 ^ p := one_le_pow₀ (by norm_num)
  have hy : (q - ⌊q⌋) * 10 ^ p ≤ (1 - 1 / 2 ^ 53) * 10 ^ p :=
    mul_le_mul_of_nonneg_right hfract (by positivity)
  have hynn : 0 ≤ (q - ⌊q⌋) * 10 ^ p := mul_nonneg (by linarith) (by positivity)
  unfold scaledFraction
  rcases nearest_relative_error (F := binary64) ((q - ⌊q⌋) * 10 ^ p) with h | h
  · rw [abs_of_nonneg hynn] at h
    have hup := (abs_le.mp h).2
    change _ ≤ _ / 2 ^ 53 at hup
    have hmul : (q - ⌊q⌋) * 10 ^ p * (1 + 1 / 2 ^ 53) ≤
        (1 - 1 / 2 ^ 53) * 10 ^ p * (1 + 1 / 2 ^ 53) :=
      mul_le_mul_of_nonneg_right hy (by positivity)
    have hone : (1 - 1 / 2 ^ 53) * 10 ^ p * (1 + 1 / 2 ^ 53) < (10 : ℚ) ^ p := by
      have : (1 - 1 / 2 ^ 53) * (1 + 1 / 2 ^ 53) < (1 : ℚ) := by norm_num
      nlinarith
    linarith
  · have hup := (abs_le.mp h).2
    have htiny := half_emin_lt
    have hunit : (1 : ℚ) / 2 ^ 53 ≤ 1 / 2 ^ 53 * 10 ^ p :=
      le_mul_of_one_le_right (by positivity) hten
    have hexpand : (1 - 1 / 2 ^ 53) * (10 : ℚ) ^ p = 10 ^ p - 1 / 2 ^ 53 * 10 ^ p := by ring
    linarith

theorem has_scaledFraction (hp : p ≤ 9) : binary64.Has (scaledFraction p q) := by
  refine has_nearest ?_
  have hlt := scaledFraction_lt hq hnn p
  have hge := scaledFraction_nonneg p q
  change |scaledFraction p q| < (2 : ℚ) ^ ((971 : ℤ) + (53 : ℕ))
  rw [abs_of_nonneg hge]
  refine lt_of_lt_of_le hlt ?_
  calc (10 : ℚ) ^ p ≤ 10 ^ 9 := pow_le_pow_right₀ (by norm_num) hp
    _ ≤ 2 ^ (30 : ℤ) := by norm_num
    _ ≤ 2 ^ ((971 : ℤ) + (53 : ℕ)) := zpow_le_zpow_right₀ (by norm_num) (by norm_num)

end Fraction

section Digits

/-- The whole part and the fraction that are printed, as far as the arithmetic has them. -/
def fixedDigits (p : Nat) (q : ℚ) : ℤ × Nat :=
  let whole := ⌊q⌋
  let frac := ⌊scaledFraction p q⌋.toNat
  let diff := scaledFraction p q - frac
  if 1 / 2 < diff then if 10 ^ p ≤ frac + 1 then (whole + 1, 0) else (whole, frac + 1)
  else if diff < 1 / 2 then (whole, frac)
  else if frac = 0 ∨ frac % 2 = 1 then (whole, frac + 1)
  else (whole, frac)

variable {q : ℚ} (hq : binary64.Has q) (hnn : 0 ≤ q) (p : Nat)

theorem floor_toNat_cast (p : Nat) (q : ℚ) :
    ((⌊scaledFraction p q⌋.toNat : ℕ) : ℤ) = ⌊scaledFraction p q⌋ :=
  Int.toNat_of_nonneg (Int.floor_nonneg.mpr (scaledFraction_nonneg p q))

theorem floor_toNat_cast_rat (p : Nat) (q : ℚ) :
    ((⌊scaledFraction p q⌋.toNat : ℕ) : ℚ) = (⌊scaledFraction p q⌋ : ℚ) := by
  exact_mod_cast congrArg (Int.cast (R := ℚ)) (floor_toNat_cast p q)

include hq hnn in
theorem floor_scaledFraction_lt : ⌊scaledFraction p q⌋.toNat < 10 ^ p := by
  have hlt := lt_of_le_of_lt (Int.floor_le (scaledFraction p q)) (scaledFraction_lt hq hnn p)
  rw [← floor_toNat_cast_rat] at hlt
  exact_mod_cast hlt

end Digits

section Code

theorem has_pow10 {p : Nat} (hp : p ≤ 9) : |((10 ^ p : ℕ) : ℤ)| < 2 ^ 53 := by
  have hle : 10 ^ p ≤ 10 ^ 9 := Nat.pow_le_pow_right (by decide) hp
  rw [abs_of_nonneg (by positivity)]
  have : ((10 ^ p : ℕ) : ℤ) ≤ 10 ^ 9 := by exact_mod_cast hle
  omega

variable {q : ℚ} (hq : binary64.Has q) (hnn : 0 ≤ q) (hmax : q ≤ 10 ^ 9)

include hnn hmax in
theorem floor_bounds : 0 ≤ ⌊q⌋ ∧ ⌊q⌋ ≤ 10 ^ 9 := by
  refine ⟨Int.floor_nonneg.mpr hnn, ?_⟩
  have hle := Int.floor_le_floor hmax
  rwa [show (10 : ℚ) ^ 9 = ((10 ^ 9 : ℤ) : ℚ) by norm_num, Int.floor_intCast] at hle

include hnn hmax in
theorem toI32_finite : binary64Arith.toI32 (.finite q hq) = some ⌊q⌋ := by
  obtain ⟨hlow, hhigh⟩ := floor_bounds hnn hmax
  have htrunc : binary64Arith.trunc (.finite q hq) = some ⌊q⌋ := by
    change some (if 0 ≤ q then ⌊q⌋ else ⌈q⌉) = _
    rw [if_pos hnn]
  have hrange : -2 ^ 31 ≤ ⌊q⌋ ∧ ⌊q⌋ < 2 ^ 31 := ⟨by omega, by omega⟩
  simp only [DoubleArith.toI32, htrunc, Option.bind_eq_bind, Option.bind_some, if_pos hrange]

include hnn hmax in
/-- The exact difference of a number and its whole part. -/
theorem sub_whole : binary64Arith.sub (.finite q hq) (binary64Arith.ofInt ⌊q⌋) =
    .finite (q - ⌊q⌋) (has_fract hq hnn) := by
  obtain ⟨hlow, hhigh⟩ := floor_bounds hnn hmax
  rw [ofInt_eq (by rw [abs_of_nonneg hlow]; omega)]
  exact sub_finite hq _ _

theorem pow10_eq {p : Nat} (hp : p ≤ 9) :
    binary64Arith.pow10 p = some (.finite ((10 ^ p : ℕ) : ℤ) (has_of_abs_lt (has_pow10 hp))) := by
  have hofInt := ofInt_eq (has_pow10 hp)
  rw [DoubleArith.pow10, if_pos hp, ← hofInt]
  push_cast
  rfl

include hnn in
theorem mul_pow10 {p : Nat} (hp : p ≤ 9) :
    binary64Arith.mul (.finite (q - ⌊q⌋) (has_fract hq hnn))
      (.finite ((10 ^ p : ℕ) : ℤ) (has_of_abs_lt (has_pow10 hp))) =
        .finite (scaledFraction p q) (has_scaledFraction hq hnn p hp) := by
  have hval : (q - ⌊q⌋) * (((10 ^ p : ℕ) : ℤ) : ℚ) = (q - ⌊q⌋) * 10 ^ p := by
    push_cast
    rfl
  have hfinite := has_scaledFraction hq hnn p hp
  change Value.round binary64 _ = _
  rw [hval]
  unfold Value.round
  rw [dif_pos (show |binary64.nearest ((q - ⌊q⌋) * 10 ^ p)| < _ from abs_lt_of_has hfinite)]
  rfl

include hnn in
theorem toULong_scaled (t : Target) {p : Nat} (hp : p ≤ 9) :
    binary64Arith.toULong t (.finite (scaledFraction p q) (has_scaledFraction hq hnn p hp)) =
      some ⌊scaledFraction p q⌋.toNat := by
  have hnonneg := Int.floor_nonneg.mpr (scaledFraction_nonneg p q)
  have htrunc : binary64Arith.trunc
      (.finite (scaledFraction p q) (has_scaledFraction hq hnn p hp)) =
        some ⌊scaledFraction p q⌋ := by
    change some (if 0 ≤ scaledFraction p q then ⌊scaledFraction p q⌋ else _) = _
    rw [if_pos (scaledFraction_nonneg p q)]
  have hrange : 0 ≤ ⌊scaledFraction p q⌋ ∧ ⌊scaledFraction p q⌋ < 2 ^ t.bits := by
    refine ⟨hnonneg, ?_⟩
    have hlt := floor_scaledFraction_lt hq hnn p
    have hpow : 10 ^ p ≤ 10 ^ 9 := Nat.pow_le_pow_right (by decide) hp
    have hword : ⌊scaledFraction p q⌋.toNat < 2 ^ t.bits := t.lt_word (by omega)
    rw [← Int.toNat_of_nonneg hnonneg]
    exact_mod_cast hword
  simp only [DoubleArith.toULong, htrunc, Option.bind_eq_bind, Option.bind_some, if_pos hrange]

theorem sub_frac (p : Nat) (h : binary64.Has (scaledFraction p q))
    (hfrac : ⌊scaledFraction p q⌋.toNat < 2 ^ 53) :
    ∃ hdiff, binary64Arith.sub (.finite (scaledFraction p q) h)
      (binary64Arith.ofInt ⌊scaledFraction p q⌋.toNat) =
        .finite (scaledFraction p q - ⌊scaledFraction p q⌋.toNat) hdiff := by
  have hdiff := has_fract h (scaledFraction_nonneg p q)
  rw [← floor_toNat_cast_rat] at hdiff
  refine ⟨hdiff, ?_⟩
  rw [ofInt_eq (by rw [abs_of_nonneg (by positivity)]; exact_mod_cast hfrac)]
  have hcast : (((⌊scaledFraction p q⌋.toNat : ℕ) : ℤ) : ℚ) = ⌊scaledFraction p q⌋.toNat := by
    push_cast
    rfl
  simp only [hcast]
  exact sub_finite h _ hdiff

/-- The comparisons of the source, on the numbers. -/
theorem roundFrac_eq {p : Nat} (hp : p ≤ 9) (hdiff : binary64.Has
    (scaledFraction p q - ⌊scaledFraction p q⌋.toNat))
    (hfrac : ⌊scaledFraction p q⌋.toNat < 10 ^ p) :
    roundFrac binary64Arith ⌊q⌋ ⌊scaledFraction p q⌋.toNat (.finite _ hdiff)
      (.finite ((10 ^ p : ℕ) : ℤ) (has_of_abs_lt (has_pow10 hp))) = fixedDigits p q := by
  have hpow : 10 ^ p ≤ 10 ^ 9 := Nat.pow_le_pow_right (by decide) hp
  have hsucc : |((⌊scaledFraction p q⌋.toNat + 1 : ℕ) : ℤ)| < 2 ^ 53 := by
    rw [abs_of_nonneg (by positivity)]
    have : ⌊scaledFraction p q⌋.toNat + 1 < 2 ^ 53 := by omega
    exact_mod_cast this
  have hle : binary64Arith.le (.finite ((10 ^ p : ℕ) : ℤ) (has_of_abs_lt (has_pow10 hp)))
      (binary64Arith.ofInt (⌊scaledFraction p q⌋.toNat + 1 : ℕ)) =
        decide (10 ^ p ≤ ⌊scaledFraction p q⌋.toNat + 1) := by
    rw [ofInt_eq hsucc, Bool.eq_iff_iff]
    change (decide ((((10 ^ p : ℕ) : ℤ) : ℚ) < ((⌊scaledFraction p q⌋.toNat + 1 : ℕ) : ℤ)) ||
      decide ((((10 ^ p : ℕ) : ℤ) : ℚ) = ((⌊scaledFraction p q⌋.toNat + 1 : ℕ) : ℤ))) = true ↔ _
    rw [Bool.or_eq_true, decide_eq_true_eq, decide_eq_true_eq, decide_eq_true_eq, ← le_iff_lt_or_eq,
      Int.cast_le]
    exact Int.ofNat_le
  have hup : binary64Arith.lt binary64Arith.half (.finite _ hdiff) =
      decide (1 / 2 < scaledFraction p q - ⌊scaledFraction p q⌋.toNat) := by
    rw [half_eq]
    rfl
  have hdown : binary64Arith.lt (.finite _ hdiff) binary64Arith.half =
      decide (scaledFraction p q - ⌊scaledFraction p q⌋.toNat < 1 / 2) := by
    rw [half_eq]
    rfl
  simp only [roundFrac, fixedDigits, hle, hup, hdown, decide_eq_true_eq]

include hq hnn in
theorem scaledFraction_zero : scaledFraction 0 q = q - ⌊q⌋ := by
  unfold scaledFraction
  rw [pow_zero, mul_one, nearest_of_has (has_fract hq hnn)]

include hq hnn in
/-- Without a fraction the first rounding is up where it is nearer. -/
theorem fixedDigits_zero :
    (fixedDigits 0 q).1 = if 1 / 2 < q - ⌊q⌋ then ⌊q⌋ + 1 else ⌊q⌋ := by
  have hfloor : ⌊q - ⌊q⌋⌋ = 0 := by
    have hle := Int.floor_le q
    have hlt := Int.lt_floor_add_one q
    rw [Int.floor_eq_zero_iff]
    constructor <;> linarith
  simp only [fixedDigits, scaledFraction_zero hq hnn, hfloor, Int.toNat_zero, Nat.cast_zero,
    sub_zero, pow_zero, Nat.zero_add, le_refl, if_true]
  split_ifs <;> rfl

/-- Numbers of magnitude below one do not overflow. -/
theorem has_nearest_of_abs_lt_one {x : ℚ} (hx : |x| < 1) : binary64.Has (binary64.nearest x) := by
  have hone : (2 : ℚ) ≤ 2 ^ (binary64.emax + binary64.prec) := by
    calc (2 : ℚ) = 2 ^ (1 : ℤ) := by norm_num
      _ ≤ _ := zpow_le_zpow_right₀ (by norm_num) (by decide)
  refine has_nearest (lt_of_lt_of_le ?_ hone)
  have htri := abs_sub_abs_le_abs_sub (binary64.nearest x) x
  have hhalf := half_emin_lt
  have hunit : (1 : ℚ) / 2 ^ 53 < 1 := by norm_num
  rcases nearest_relative_error (F := binary64) x with h | h
  · have : |x| / 2 ^ binary64.prec ≤ 1 :=
      div_le_one_of_le₀ (le_trans hx.le (one_le_pow₀ (by norm_num))) (by positivity)
    linarith
  · linarith

/-- A number just below zero compares so after rounding. -/
theorem sub_succ_lt (h : 1 / 2 < q - ⌊q⌋) (hwhole : |⌊q⌋ + 1| < 2 ^ 53) :
    ∃ (d : ℚ) (hd : binary64.Has d), d ≤ 0 ∧
      binary64Arith.sub (.finite q hq) (binary64Arith.ofInt (⌊q⌋ + 1)) = .finite d hd := by
  have hlt := Int.lt_floor_add_one q
  have hneg : q + -((⌊q⌋ + 1 : ℤ) : ℚ) ≤ 0 := by
    push_cast
    linarith
  have hfinite : binary64.Has (binary64.nearest (q + -((⌊q⌋ + 1 : ℤ) : ℚ))) := by
    refine has_nearest_of_abs_lt_one (abs_lt.mpr ?_)
    push_cast
    constructor <;> linarith
  refine ⟨_, hfinite, nearest_nonpos hneg, ?_⟩
  rw [ofInt_eq hwhole]
  change Value.round binary64 _ = _
  unfold Value.round
  rw [dif_pos (abs_lt_of_has hfinite)]

include hnn hmax in
/-- Without a fraction the number is rounded to the nearest integer, of two to the even one. -/
theorem roundWhole_eq :
    roundWhole binary64Arith (.finite q hq) (fixedDigits 0 q).1 = nearestEven q := by
  obtain ⟨hlow, hhigh⟩ := floor_bounds hnn hmax
  have hlt := Int.lt_floor_add_one q
  rw [fixedDigits_zero hq hnn]
  simp only [roundWhole, nearestEven]
  by_cases hup : 1 / 2 < q - ⌊q⌋
  · obtain ⟨d, hd, hneg, hsub⟩ := sub_succ_lt hq hup (by rw [abs_of_nonneg] <;> omega)
    have hfirst : binary64Arith.lt (.finite d hd) binary64Arith.half = true := by
      rw [half_eq]
      exact decide_eq_true (by linarith)
    have hsecond : binary64Arith.lt binary64Arith.half (.finite d hd) = false := by
      rw [half_eq]
      exact decide_eq_false (by linarith)
    have hnotdown : ¬q - ⌊q⌋ < 1 / 2 := by linarith
    rw [if_pos hup, if_pos hup, if_neg hnotdown, hsub, hfirst, hsecond]
    simp
  · have hfirst : binary64Arith.lt (.finite _ (has_fract hq hnn)) binary64Arith.half =
        decide (q - ⌊q⌋ < 1 / 2) := by
      rw [half_eq]
      rfl
    have hsecond : binary64Arith.lt binary64Arith.half (.finite _ (has_fract hq hnn)) = false := by
      rw [half_eq]
      exact decide_eq_false hup
    rw [if_neg hup, sub_whole hq hnn hmax, hfirst, hsecond]
    by_cases hdown : q - ⌊q⌋ < 1 / 2
    · rw [if_pos hdown, decide_eq_true hdown]
      simp
    · rw [if_neg hdown, if_neg hup, decide_eq_false hdown]
      rcases Int.emod_two_eq_zero_or_one ⌊q⌋ with h | h
      · simp [h]
      · simp [h]

include hnn hmax in
/-- The buffer of a number in fixed notation; the table of powers is read outside its bounds where
the precision is too large. -/
theorem ftoaBuffer_finite (t : Target) (negative : Bool) (prec width : Nat) (flags : PriFlags) :
    ftoaBuffer binary64Arith t (.finite q hq) negative prec width flags =
      if leftPrec (floatPrec prec flags) ≤ 9 then
        some (fixedBuffer (min (floatPrec prec flags - 9) printfFtoaBufferSize)
          (leftPrec (floatPrec prec flags)) (fixedDigits (leftPrec (floatPrec prec flags)) q).2
          (if leftPrec (floatPrec prec flags) = 0 then nearestEven q
            else (fixedDigits (leftPrec (floatPrec prec flags)) q).1).toNat width negative flags)
      else none := by
  rw [ftoaBuffer_eq, toI32_finite hq hnn hmax, Option.bind_some]
  generalize leftPrec (floatPrec prec flags) = p
  by_cases hp : p ≤ 9
  · have hfrac := floor_scaledFraction_lt hq hnn p
    have hpow : 10 ^ p ≤ 10 ^ 9 := Nat.pow_le_pow_right (by decide) hp
    obtain ⟨hdiff, hsub⟩ := sub_frac p (has_scaledFraction hq hnn p hp) (by omega)
    rw [if_pos hp, pow10_eq hp, Option.bind_some, sub_whole hq hnn hmax, mul_pow10 hq hnn hp,
      toULong_scaled hq hnn t hp, Option.bind_some, hsub]
    simp only [roundFrac_eq hp hdiff hfrac]
    by_cases hzero : p = 0
    · subst hzero
      rw [if_pos rfl, if_pos rfl, roundWhole_eq hq hnn hmax]
    · rw [if_neg hzero, if_neg hzero]
  · rw [if_neg hp, DoubleArith.pow10, if_neg hp]
    rfl

theorem ofInt_zero : binary64Arith.ofInt 0 =
    .finite ((0 : ℤ) : ℚ) (has_of_abs_lt (by decide)) :=
  ofInt_eq (by decide)

theorem printfMaxFloat_eq : ∃ h, binary64Arith.printfMaxFloat = .finite (10 ^ 9) h := by
  have hval : ((1 : ℤ) : ℚ) * 10 ^ (9 : ℤ) = ((10 ^ 9 : ℤ) : ℚ) := by norm_num
  have hhas : binary64.Has (10 ^ 9) := by
    have := has_of_abs_lt (n := 10 ^ 9) (by decide)
    push_cast at this
    exact this
  refine ⟨hhas, ?_⟩
  change Double.ofRat (((1 : ℤ) : ℚ) * 10 ^ (9 : ℤ)) = _
  rw [hval]
  push_cast
  exact ofRat_of_has hhas

/-- `DBL_MAX` is larger than every number that is printed in fixed notation. -/
theorem dblMax_large : ∃ big : ℚ, 10 ^ 9 < big ∧
    ((∃ h, binary64Arith.dblMax = .finite big h) ∨ binary64Arith.dblMax = .inf false) := by
  let x : ℚ := ((17976931348623157 : ℤ) : ℚ) * 10 ^ (292 : ℤ)
  have hpow : (1 : ℚ) ≤ 10 ^ (292 : ℤ) := one_le_zpow₀ (by norm_num) (by norm_num)
  have hx : (10 : ℚ) ^ 16 ≤ x := by
    have := mul_le_mul_of_nonneg_left hpow (by norm_num : (0 : ℚ) ≤ ((17976931348623157 : ℤ) : ℚ))
    refine le_trans ?_ this
    norm_num
  have hbig : (10 : ℚ) ^ 9 < binary64.nearest x := by
    have hhalf := half_emin_lt
    have hunit : (1 : ℚ) / 2 ^ 53 < 1 := by norm_num
    have hgap : (10 : ℚ) ^ 9 + 1 < 10 ^ 16 / 2 := by norm_num
    rcases nearest_relative_error (F := binary64) x with h | h
    · have hlow := (abs_le.mp h).1
      rw [abs_of_nonneg (by linarith [show (0 : ℚ) < 10 ^ 16 by norm_num])] at hlow
      have hsmall : x / 2 ^ binary64.prec ≤ x / 2 :=
        div_le_div_of_nonneg_left (by linarith [show (0 : ℚ) < 10 ^ 16 by norm_num])
          (by norm_num) (by change (2 : ℚ) ≤ 2 ^ 53; norm_num)
      linarith
    · have hlow := (abs_le.mp h).1
      linarith
  refine ⟨_, hbig, ?_⟩
  change (∃ h, Value.round binary64 x = .finite (binary64.nearest x) h) ∨
    Value.round binary64 x = .inf false
  unfold Value.round
  split_ifs with h
  · exact Or.inl ⟨has_nearest h, rfl⟩
  · refine Or.inr ?_
    rw [decide_eq_false (by linarith [show (0 : ℚ) < 10 ^ 16 by norm_num])]

end Code

section Whole

variable {q : ℚ} (hq : binary64.Has q) (hmax : |q| ≤ 10 ^ 9)

theorem has_abs (hq : binary64.Has q) : binary64.Has |q| := by
  rcases abs_choice q with h | h
  · rw [h]
    exact hq
  · rw [h]
    exact has_neg hq

include hmax in
/-- No test of `__ftoa` turns away a number up to `PRINTF_MAX_FLOAT`. -/
theorem ftoaBody_finite (t : Target) {σ : Type} {w : Nat}
    (etoa : Cursor w σ → Double → Nat → Nat → PriFlags → Option (Cursor w σ)) (o : Output σ)
    (cur : Cursor w σ) (prec width : Nat) (flags : PriFlags) :
    ftoaBody binary64Arith t etoa o cur (.finite q hq) prec width flags =
      (ftoaBuffer binary64Arith t (.finite |q| (has_abs hq)) (decide (q < 0)) prec width
        flags).map fun buf =>
          kPriOutRev o cur buf (outWidth width (decide (q < 0)) flags) flags := by
  obtain ⟨hlow, hhigh⟩ := abs_le.mp hmax
  have hself : binary64Arith.eq (.finite q hq) (.finite q hq) = true := decide_eq_true rfl
  obtain ⟨hmaxf, hmaxeq⟩ := printfMaxFloat_eq
  have habove : binary64Arith.lt binary64Arith.printfMaxFloat (.finite q hq) = false := by
    rw [hmaxeq]
    exact decide_eq_false (not_lt.mpr hhigh)
  have hbelow : binary64Arith.lt (.finite q hq) (binary64Arith.neg binary64Arith.printfMaxFloat) =
      false := by
    rw [hmaxeq]
    exact decide_eq_false (not_lt.mpr hlow)
  have hdbl : binary64Arith.lt (.finite q hq) (binary64Arith.neg binary64Arith.dblMax) = false ∧
      binary64Arith.lt binary64Arith.dblMax (.finite q hq) = false := by
    obtain ⟨big, hbig, ⟨h, heq⟩ | heq⟩ := dblMax_large
    · rw [heq]
      exact ⟨decide_eq_false (not_lt.mpr (by linarith)), decide_eq_false (not_lt.mpr (by linarith))⟩
    · rw [heq]
      exact ⟨rfl, rfl⟩
  have hnegative : binary64Arith.lt (.finite q hq) (binary64Arith.ofInt 0) = decide (q < 0) := by
    rw [ofInt_zero]
    change decide (q < ((0 : ℤ) : ℚ)) = _
    rw [Int.cast_zero]
  have habs : (if decide (q < 0) = true then
      binary64Arith.sub (binary64Arith.ofInt 0) (.finite q hq) else .finite q hq) =
        .finite |q| (has_abs hq) := by
    by_cases hneg : q < 0
    · rw [if_pos (decide_eq_true hneg), ofInt_zero]
      have hzero : ((0 : ℤ) : ℚ) - q = |q| := by
        rw [abs_of_neg hneg, Int.cast_zero, zero_sub]
      have hsub := sub_finite (has_of_abs_lt (n := 0) (by decide)) hq
        (by rw [hzero]; exact has_abs hq)
      rw [hsub]
      simp only [hzero]
    · rw [if_neg (by simpa using hneg)]
      simp only [abs_of_nonneg (not_lt.mp hneg)]
  simp only [ftoaBody, hself, hdbl.1, hdbl.2, habove, hbelow, hnegative, habs, Bool.not_true,
    Bool.false_eq_true, if_false, Bool.or_self]
  cases ftoaBuffer binary64Arith t (.finite |q| (has_abs hq)) (decide (q < 0)) prec width flags with
  | none => rfl
  | some buf => rfl

end Whole

end BaremetalCrt
