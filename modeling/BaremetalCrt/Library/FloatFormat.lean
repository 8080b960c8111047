import BaremetalCrt.Library.Numerals
import Mathlib.Data.Int.Log
import Mathlib.Data.Rat.Floor
import Mathlib.Tactic.FieldSimp
import Mathlib.Tactic.Linarith
import Mathlib.Tactic.Positivity
import Mathlib.Tactic.Ring

/-!
# Binary floating-point formats

A format has a number of significant bits and the least and greatest exponent of the last bit. A
number is rounded to the nearest one of the format, of two to the one with an even last bit, and
to an infinity if it is too large.

## Implementation notes

The values carry the proof that the format has them. The two zeros are one value: they differ in
their sign only, which comparisons and sums do not see.
-/

namespace FloatFormat

/-- The bits of a significand, and the exponents of its last bit. -/
structure Format where
  prec : ℕ
  emin : ℤ
  emax : ℤ
  prec_pos : 0 < prec
  emin_le : emin ≤ emax

/-- The finite numbers of a format. -/
def Format.Has (F : Format) (q : ℚ) : Prop :=
  ∃ m e : ℤ, |m| < 2 ^ F.prec ∧ F.emin ≤ e ∧ e ≤ F.emax ∧ q = m * 2 ^ e

/-- The values of a format. -/
inductive Value (F : Format) where
  | nan
  | inf (negative : Bool)
  | finite (q : ℚ) (h : F.Has q)

section Nearest

/-- The nearest integer, of two the even one. -/
def nearestEven (x : ℚ) : ℤ :=
  if x - ⌊x⌋ < 1 / 2 then ⌊x⌋
  else if 1 / 2 < x - ⌊x⌋ then ⌊x⌋ + 1
  else if ⌊x⌋ % 2 = 0 then ⌊x⌋ else ⌊x⌋ + 1

theorem nearestEven_error (x : ℚ) : |(nearestEven x : ℚ) - x| ≤ 1 / 2 := by
  have hfloor := Int.floor_le x
  have hlt := Int.lt_floor_add_one x
  unfold nearestEven
  rw [abs_le]
  split_ifs with hlow hhigh heven
  · constructor <;> linarith
  · push_cast
    constructor <;> linarith
  · constructor <;> linarith
  · push_cast
    constructor <;> linarith

theorem nearestEven_intCast (n : ℤ) : nearestEven n = n := by
  unfold nearestEven
  rw [Int.floor_intCast, sub_self, if_pos (by norm_num)]

/-- An integer below a number is below the nearest integer. -/
theorem le_nearestEven {n : ℤ} {x : ℚ} (h : (n : ℚ) ≤ x) : n ≤ nearestEven x := by
  have hfloor : n ≤ ⌊x⌋ := Int.le_floor.mpr h
  unfold nearestEven
  split_ifs <;> omega

/-- An integer above a number is above the nearest integer. -/
theorem nearestEven_le {n : ℤ} {x : ℚ} (h : x ≤ n) : nearestEven x ≤ n := by
  have herror := abs_le.mp (nearestEven_error x)
  have hlt : (nearestEven x : ℚ) < (n + 1 : ℤ) := by
    push_cast
    linarith
  exact Int.lt_add_one_iff.mp (Int.cast_lt.mp hlt)

/-- A bound on the magnitude that is an integer holds for the nearest integer. -/
theorem abs_nearestEven_le {n : ℤ} {x : ℚ} (h : |x| ≤ n) : |nearestEven x| ≤ n := by
  obtain ⟨hlow, hhigh⟩ := abs_le.mp h
  refine abs_le.mpr ⟨le_nearestEven ?_, nearestEven_le hhigh⟩
  push_cast
  exact hlow

theorem le_abs_nearestEven {n : ℤ} {x : ℚ} (h : (n : ℚ) ≤ |x|) : n ≤ |nearestEven x| := by
  rcases le_abs'.mp h with hneg | hpos
  · refine le_abs'.mpr (Or.inl (nearestEven_le ?_))
    push_cast
    exact hneg
  · exact le_abs'.mpr (Or.inr (le_nearestEven hpos))

end Nearest

section Rounding

variable (F : Format)

/-- The exponent of the last bit of a number in a format without a greatest exponent. -/
def Format.exponent (q : ℚ) : ℤ := max (Int.log 2 |q| + 1 - F.prec) F.emin

/-- The nearest number of a format without a greatest exponent. -/
def Format.nearest (q : ℚ) : ℚ := nearestEven (q / 2 ^ F.exponent q) * 2 ^ F.exponent q

variable {F}

theorem two_zpow_pos (e : ℤ) : (0 : ℚ) < 2 ^ e := zpow_pos (by norm_num) e

theorem lt_two_zpow_log (q : ℚ) : |q| < 2 ^ (Int.log 2 |q| + 1) := by
  have := Int.lt_zpow_succ_log_self (b := 2) (by norm_num) |q|
  exact_mod_cast this

theorem two_zpow_log_le {q : ℚ} (hq : q ≠ 0) : 2 ^ Int.log 2 |q| ≤ |q| := by
  have := Int.zpow_log_le_self (b := 2) (by norm_num) (abs_pos.mpr hq)
  exact_mod_cast this

theorem two_zpow_mul_prec (e : ℤ) (n : ℕ) : (2 : ℚ) ^ n * 2 ^ e = 2 ^ (e + n) := by
  rw [zpow_add₀ (by norm_num), zpow_natCast, mul_comm]

/-- The significand of a number has the bits of the format. -/
theorem abs_scaled_lt (q : ℚ) : |q / 2 ^ F.exponent q| < 2 ^ F.prec := by
  have hpos := two_zpow_pos (F.exponent q)
  rw [abs_div, abs_of_pos hpos, div_lt_iff₀ hpos, two_zpow_mul_prec]
  refine lt_of_lt_of_le (lt_two_zpow_log q) (zpow_le_zpow_right₀ (by norm_num) ?_)
  have : Int.log 2 |q| + 1 - F.prec ≤ F.exponent q := le_max_left _ _
  omega

theorem abs_significand_le (q : ℚ) : |nearestEven (q / 2 ^ F.exponent q)| ≤ 2 ^ F.prec := by
  refine abs_nearestEven_le ?_
  push_cast
  exact le_of_lt (abs_scaled_lt q)

theorem nearest_error (q : ℚ) : |F.nearest q - q| ≤ 2 ^ F.exponent q / 2 := by
  have hpos := two_zpow_pos (F.exponent q)
  have herror := nearestEven_error (q / 2 ^ F.exponent q)
  have hfactor : F.nearest q - q =
      (nearestEven (q / 2 ^ F.exponent q) - q / 2 ^ F.exponent q) * 2 ^ F.exponent q := by
    unfold Format.nearest
    field_simp
  rw [hfactor, abs_mul, abs_of_pos hpos]
  calc _ ≤ 1 / 2 * (2 : ℚ) ^ F.exponent q := mul_le_mul_of_nonneg_right herror hpos.le
    _ = 2 ^ F.exponent q / 2 := by ring

theorem nearest_zero : F.nearest 0 = 0 := by
  have hzero := nearestEven_intCast 0
  rw [Int.cast_zero] at hzero
  unfold Format.nearest
  rw [zero_div, hzero, Int.cast_zero, zero_mul]

/-- The error relative to the number, or that of the numbers with the least exponent. -/
theorem nearest_relative_error (q : ℚ) :
    |F.nearest q - q| ≤ |q| / 2 ^ F.prec ∨ |F.nearest q - q| ≤ 2 ^ F.emin / 2 := by
  have herror := nearest_error (F := F) q
  by_cases hq : q = 0
  · left
    rw [hq, nearest_zero]
    simp
  rcases le_total (Int.log 2 |q| + 1 - F.prec) F.emin with h | h
  · right
    rwa [Format.exponent, max_eq_right h] at herror
  · left
    rw [Format.exponent, max_eq_left h] at herror
    refine le_trans herror ?_
    have hpow : (2 : ℚ) ^ (Int.log 2 |q| + 1 - F.prec) / 2 = 2 ^ Int.log 2 |q| / 2 ^ F.prec := by
      rw [zpow_sub₀ (by norm_num), zpow_add₀ (by norm_num), zpow_natCast]
      field_simp
    rw [hpow]
    exact div_le_div_of_nonneg_right (two_zpow_log_le hq) (by positivity)

theorem nearest_nonneg {q : ℚ} (hq : 0 ≤ q) : 0 ≤ F.nearest q := by
  have hpos := two_zpow_pos (F.exponent q)
  have hle : (0 : ℤ) ≤ nearestEven (q / 2 ^ F.exponent q) :=
    le_nearestEven (by push_cast; positivity)
  unfold Format.nearest
  have : (0 : ℚ) ≤ nearestEven (q / 2 ^ F.exponent q) := by exact_mod_cast hle
  positivity

theorem nearest_nonpos {q : ℚ} (hq : q ≤ 0) : F.nearest q ≤ 0 := by
  have hpos := two_zpow_pos (F.exponent q)
  have hle : nearestEven (q / 2 ^ F.exponent q) ≤ 0 :=
    nearestEven_le (by push_cast; exact div_nonpos_of_nonpos_of_nonneg hq hpos.le)
  unfold Format.nearest
  exact mul_nonpos_of_nonpos_of_nonneg (by exact_mod_cast hle) hpos.le

/-- A number of the format is the nearest one to itself. -/
theorem nearest_of_has {q : ℚ} (h : F.Has q) : F.nearest q = q := by
  obtain ⟨m, e, hm, hmin, -, hq⟩ := h
  have hpos := two_zpow_pos (F.exponent q)
  by_cases hzero : q = 0
  · rw [hzero, nearest_zero]
  have hle : F.exponent q ≤ e := by
    refine max_le ?_ hmin
    -- Otherwise the significand would have more bits than the format.
    have hlt : (2 : ℚ) ^ Int.log 2 |q| < 2 ^ (e + F.prec) := by
      refine lt_of_le_of_lt (two_zpow_log_le hzero) ?_
      rw [hq, abs_mul, abs_of_pos (two_zpow_pos e), ← two_zpow_mul_prec]
      refine mul_lt_mul_of_pos_right ?_ (two_zpow_pos e)
      exact_mod_cast hm
    have := (zpow_lt_zpow_iff_right₀ (by norm_num : (1 : ℚ) < 2)).mp hlt
    omega
  obtain ⟨k, hk⟩ := Int.le.dest hle
  have hscaled : q / 2 ^ F.exponent q = ((m * 2 ^ k : ℤ) : ℚ) := by
    have hpow : (2 : ℚ) ^ e = 2 ^ F.exponent q * 2 ^ k := by
      rw [← hk, zpow_add₀ (by norm_num), zpow_natCast]
    rw [div_eq_iff hpos.ne']
    push_cast
    calc q = m * 2 ^ e := hq
      _ = m * 2 ^ k * 2 ^ F.exponent q := by rw [hpow]; ring
  unfold Format.nearest
  rw [hscaled, nearestEven_intCast, ← hscaled, div_mul_cancel₀ _ hpos.ne']

/-- The nearest number is one of the format unless it is too large. -/
theorem has_nearest {q : ℚ} (h : |F.nearest q| < 2 ^ (F.emax + F.prec)) : F.Has (F.nearest q) := by
  have hprec := F.prec_pos
  have hpos := two_zpow_pos (F.exponent q)
  have habs : |F.nearest q| = |nearestEven (q / 2 ^ F.exponent q)| * 2 ^ F.exponent q := by
    unfold Format.nearest
    rw [abs_mul, abs_of_pos hpos]
    push_cast
    rfl
  have hmin : F.emin ≤ F.exponent q := le_max_right _ _
  rcases lt_or_eq_of_le (abs_significand_le (F := F) q) with hlt | heq
  · by_cases hmax : F.exponent q ≤ F.emax
    · exact ⟨_, _, hlt, hmin, hmax, rfl⟩
    · -- A number with a greater exponent is too large, unless it is zero.
      have hexp : F.exponent q = Int.log 2 |q| + 1 - F.prec := by
        have := F.emin_le
        unfold Format.exponent at hmax ⊢
        omega
      by_cases hzero : q = 0
      · refine ⟨0, F.emin, by positivity, le_refl _, F.emin_le, ?_⟩
        rw [hzero, nearest_zero, Int.cast_zero, zero_mul]
      · have hlow : ((2 ^ (F.prec - 1) : ℤ) : ℚ) ≤ |q / 2 ^ F.exponent q| := by
          rw [abs_div, abs_of_pos hpos, le_div_iff₀ hpos]
          refine le_trans (le_of_eq ?_) (two_zpow_log_le hzero)
          push_cast
          rw [two_zpow_mul_prec, hexp]
          congr 1
          omega
        have hbits := le_abs_nearestEven hlow
        have hbig : (2 : ℚ) ^ (F.emax + F.prec) ≤ |F.nearest q| := by
          rw [habs]
          have hcast : (2 : ℚ) ^ (F.prec - 1) ≤
              (|nearestEven (q / 2 ^ F.exponent q)| : ℤ) := by exact_mod_cast hbits
          refine le_trans ?_ (mul_le_mul_of_nonneg_right hcast hpos.le)
          rw [two_zpow_mul_prec]
          refine zpow_le_zpow_right₀ (by norm_num) ?_
          omega
        exact absurd h (not_lt.mpr hbig)
  · -- The significand has carried into one more bit.
    have hvalue : |F.nearest q| = 2 ^ (F.exponent q + F.prec) := by
      rw [habs, heq, ← two_zpow_mul_prec]
      push_cast
      rfl
    have hmax : F.exponent q + 1 ≤ F.emax := by
      rw [hvalue] at h
      have := (zpow_lt_zpow_iff_right₀ (by norm_num : (1 : ℚ) < 2)).mp h
      omega
    obtain ⟨s, hs, hsign⟩ : ∃ s : ℤ, |s| = 1 ∧
        nearestEven (q / 2 ^ F.exponent q) = s * 2 ^ F.prec := by
      rcases (abs_eq (by positivity)).mp heq with hval | hval
      · exact ⟨1, rfl, by rw [hval, one_mul]⟩
      · exact ⟨-1, rfl, by rw [hval]; ring⟩
    refine ⟨s * 2 ^ (F.prec - 1), F.exponent q + 1, ?_, by omega, hmax, ?_⟩
    · rw [abs_mul, hs, one_mul, abs_of_pos (by positivity)]
      exact pow_lt_pow_right₀ (by norm_num) (by omega)
    · have hpow : (2 : ℚ) ^ F.prec = 2 ^ (F.prec - 1) * 2 := by
        rw [← pow_succ]
        congr 1
        omega
      unfold Format.nearest
      rw [hsign, zpow_add₀ (by norm_num), zpow_one]
      push_cast
      rw [hpow]
      ring

end Rounding

section Values

variable {F : Format}

/-- A number rounded to a value of the format. -/
def Value.round (F : Format) (q : ℚ) : Value F :=
  if h : |F.nearest q| < 2 ^ (F.emax + F.prec) then .finite (F.nearest q) (has_nearest h)
  else .inf (decide (q < 0))

theorem abs_lt_of_has {q : ℚ} (h : F.Has q) : |q| < 2 ^ (F.emax + F.prec) := by
  obtain ⟨m, e, hm, -, hmax, hq⟩ := h
  rw [hq, abs_mul, abs_of_pos (two_zpow_pos e)]
  calc |(m : ℚ)| * 2 ^ e < 2 ^ F.prec * 2 ^ e :=
        mul_lt_mul_of_pos_right (by exact_mod_cast hm) (two_zpow_pos e)
    _ = 2 ^ (e + F.prec) := two_zpow_mul_prec e F.prec
    _ ≤ 2 ^ (F.emax + F.prec) := zpow_le_zpow_right₀ (by norm_num) (by omega)

/-- A number of the format is its own value. -/
theorem round_of_has {q : ℚ} (h : F.Has q) : Value.round F q = .finite q h := by
  have hnearest := nearest_of_has h
  unfold Value.round
  rw [dif_pos (by rw [hnearest]; exact abs_lt_of_has h)]
  simp only [hnearest]

theorem has_neg {q : ℚ} (h : F.Has q) : F.Has (-q) := by
  obtain ⟨m, e, hm, hmin, hmax, hq⟩ := h
  exact ⟨-m, e, by rwa [abs_neg], hmin, hmax, by rw [hq]; push_cast; ring⟩

theorem has_intCast {n : ℤ} (hn : |n| < 2 ^ F.prec) (hmin : F.emin ≤ 0) (hmax : 0 ≤ F.emax) :
    F.Has n :=
  ⟨n, 0, hn, hmin, hmax, by norm_num⟩

/-- The fraction of a number of the format has no more bits than the number. -/
theorem has_fract {q : ℚ} (h : F.Has q) (hq : 0 ≤ q) : F.Has (q - ⌊q⌋) := by
  obtain ⟨m, e, hm, hmin, hmax, hval⟩ := h
  have hmnn : 0 ≤ m := by
    have : (0 : ℚ) ≤ m := by
      have hmul : 0 ≤ (m : ℚ) * 2 ^ e := hval ▸ hq
      exact nonneg_of_mul_nonneg_left hmul (two_zpow_pos e)
    exact_mod_cast this
  have hzero : F.Has 0 := ⟨0, F.emin, by positivity, le_refl _, F.emin_le, by norm_num⟩
  rcases le_or_gt 0 e with he | he
  · obtain ⟨k, rfl⟩ := Int.eq_ofNat_of_zero_le he
    have hint : q = ((m * 2 ^ k : ℤ) : ℚ) := by
      rw [hval, zpow_natCast]
      push_cast
      rfl
    rw [hint, Int.floor_intCast, sub_self]
    exact hzero
  · obtain ⟨k, hk⟩ : ∃ k : ℕ, e = -k := ⟨e.natAbs, by omega⟩
    have hdiv : q = (m : ℚ) / (2 ^ k : ℤ) := by
      rw [hval, hk, zpow_neg, zpow_natCast]
      push_cast
      rfl
    have hfloor : ⌊q⌋ = m / 2 ^ k := by
      rw [hdiv]
      exact_mod_cast Rat.floor_intCast_div_natCast m (2 ^ k)
    have hsplit := Int.mul_ediv_add_emod m (2 ^ k)
    refine ⟨m % 2 ^ k, e, ?_, hmin, hmax, ?_⟩
    · have hmod := Int.emod_nonneg m (by positivity : (2 : ℤ) ^ k ≠ 0)
      have hdivnn : 0 ≤ 2 ^ k * (m / 2 ^ k) :=
        mul_nonneg (by positivity) (Int.ediv_nonneg hmnn (by positivity))
      rw [abs_of_nonneg hmod]
      rw [abs_of_nonneg hmnn] at hm
      omega
    · rw [hfloor, hdiv, hk, zpow_neg, zpow_natCast]
      have hcast : (m : ℚ) = 2 ^ k * ((m / 2 ^ k : ℤ) : ℚ) + ((m % 2 ^ k : ℤ) : ℚ) := by
        exact_mod_cast hsplit.symm
      push_cast
      field_simp
      linarith

end Values

end FloatFormat
