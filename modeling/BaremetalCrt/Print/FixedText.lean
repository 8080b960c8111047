import BaremetalCrt.Print.Fixed
import BaremetalCrt.Print.ReadBack

/-!
# Reading fixed notation back

`%f` of a number up to `PRINTF_MAX_FLOAT`: what is printed is read back and compared with the
number, for the arithmetic of `double`.
-/

namespace BaremetalCrt

open Emission FloatFormat

section Text

end Text

section Main

variable {q : ℚ} (hq : binary64.Has q) (hmax : |q| ≤ 10 ^ 9)

theorem leftPrec_le_iff (prec : Nat) : leftPrec prec ≤ 9 ↔ prec ≤ 41 := by
  unfold leftPrec printfFtoaBufferSize
  omega

include hmax in
/-- `__ftoa` of a number up to `PRINTF_MAX_FLOAT`, as the text of its buffer. -/
theorem ftoa_finite (t : Target) {σ : Type} (o : Output σ) (cur : Cursor t.bits σ) (prec : Nat)
    {width : Nat} (hwidth : width < 2 ^ 32) (flags : PriFlags) :
    ftoa binary64Arith t o cur (.finite q hq) prec width flags =
      (ftoaBuffer binary64Arith t (.finite |q| (has_abs hq)) (decide (q < 0)) prec width
        flags).map fun buf => o.emitText cur
          (revText buf (outWidth width (decide (q < 0)) flags) flags) := by
  have hbody := ftoaBody_finite hq hmax t (floatConv binary64Arith t o 2 true) o cur prec width
    flags
  have hout := outWidth_le width (decide (q < 0)) flags
  refine hbody.trans ?_
  cases hbuf : ftoaBuffer binary64Arith t (.finite |q| (has_abs hq)) (decide (q < 0)) prec width
      flags with
  | none => rfl
  | some buf =>
      have hlen := ftoaBuffer_length_le binary64Arith hbuf
      rw [printfFtoaBufferSize] at hlen
      exact congrArg some (kPriOutRev_eq o cur flags (t.lt_word (by omega)) (t.lt_word (by omega)))

include hmax in
/-- A number up to `PRINTF_MAX_FLOAT` is printed without a read outside the table of powers,
exactly if the precision is at most 41. -/
theorem ftoa_isSome_iff (t : Target) {σ : Type} (o : Output σ) (cur : Cursor t.bits σ)
    (prec : Nat) {width : Nat} (hwidth : width < 2 ^ 32) (flags : PriFlags) :
    (ftoa binary64Arith t o cur (.finite q hq) prec width flags).isSome = true ↔
      flags.precision = false ∨ prec ≤ 41 := by
  have hprec : flags.precision = false ∨ prec ≤ 41 ↔ floatPrec prec flags ≤ 41 := by
    unfold floatPrec
    cases flags.precision with
    | true => simp
    | false => simp [printfDefaultFloatPrecision]
  rw [ftoa_finite hq hmax t o cur prec hwidth, Option.isSome_map,
    ftoaBuffer_finite (has_abs hq) (abs_nonneg q) hmax, hprec, ← leftPrec_le_iff]
  by_cases h : leftPrec (floatPrec prec flags) ≤ 9
  · simp [h]
  · simp [h]

theorem ftoa_isSome_iff_half :
    (ftoa binary64Arith ⟨64, bits_sixtyFour⟩ recorder (⟨[], 0⟩ : Cursor 64 _)
      (.finite (1 / 2) has_half) 42 0 { precision := true }).isSome = true ↔
        true = false ∨ 42 ≤ 41 :=
  ftoa_isSome_iff has_half (by norm_num) _ _ _ 42 (by decide) _

end Main

end BaremetalCrt
