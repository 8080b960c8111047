import BaremetalCrt.Print.Number

/-!
# Conversion of floating-point numbers

`__ftoa` writes a `double` in fixed notation, `__etoa` with an exponent; each calls the other for
values it does not handle itself.

## Implementation notes

The arithmetic of `double` is a parameter: the two functions are followed for every arithmetic
with the operations that they use. A conversion to an integer type that does not hold the value,
a read outside the table of powers and a store outside the buffer are undefined, which is `none`.
The calls between the two functions are bounded by a number: a value that is too large goes from
`__ftoa` to `__etoa` and, scaled down, back.
-/

namespace BaremetalCrt

open Emission

/-- The operations on `double` that the formatter uses. -/
structure DoubleArith (D : Type) where
  eq : D → D → Bool
  lt : D → D → Bool
  le : D → D → Bool
  neg : D → D
  add : D → D → D
  sub : D → D → D
  mul : D → D → D
  div : D → D → D
  /-- An integer converted to `double`. -/
  ofInt : Int → D
  /-- A `double` without its fraction; none of a value that is not a number. -/
  trunc : D → Option Int
  /-- The decimal literal of an integer and a power of ten. -/
  lit : Int → Int → D
  toBits : D → BitVec 64
  ofBits : BitVec 64 → D

/-- `PRINTF_FTOA_BUFFER_SIZE`. -/
def printfFtoaBufferSize : Nat := 32

/-- `PRINTF_DEFAULT_FLOAT_PRECISION`. -/
def printfDefaultFloatPrecision : Nat := 6

/-- The precision of a conversion: the default unless one is given. -/
def floatPrec (prec : Nat) (flags : PriFlags) : Nat :=
  if !flags.precision then printfDefaultFloatPrecision else prec

section Arith

variable {D : Type} (A : DoubleArith D)

/-- `PRINTF_MAX_FLOAT`. -/
def DoubleArith.printfMaxFloat : D := A.lit 1 9

/-- `DBL_MAX`. -/
def DoubleArith.dblMax : D := A.lit 17976931348623157 292

def DoubleArith.half : D := A.lit 5 (-1)

/-- `(int)`. -/
def DoubleArith.toI32 (d : D) : Option Int := do
  let z ← A.trunc d
  if -2 ^ 31 ≤ z ∧ z < 2 ^ 31 then some z else none

/-- `(unsigned long)`. -/
def DoubleArith.toULong (t : Target) (d : D) : Option Nat := do
  let z ← A.trunc d
  if 0 ≤ z ∧ z < 2 ^ t.bits then some z.toNat else none

/-- The table `pow10`. -/
def DoubleArith.pow10 (i : Nat) : Option D := if i ≤ 9 then some (A.ofInt (10 ^ i)) else none

end Arith

/-- `while ((len < size) && (prec > 9)) { buf[len++] = '0'; prec--; }`. The first argument bounds
the iterations. -/
def limitPrec : Nat → List UInt8 → Nat → Option (List UInt8 × Nat)
  | 0, buf, prec => some (buf, prec)
  | fuel + 1, buf, prec =>
      if buf.length < printfFtoaBufferSize ∧ 9 < prec then do
        let buf ← storeChar printfFtoaBufferSize buf '0'.toUInt8
        limitPrec fuel buf (prec - 1)
      else some (buf, prec)

/-- The decimal digits of a number, as far as the buffer goes. The first argument bounds the
iterations. -/
def decimalLoop : Nat → Nat → List UInt8 → Option (List UInt8)
  | 0, _, buf => some buf
  | fuel + 1, n, buf =>
      if buf.length < printfFtoaBufferSize then do
        let buf ← storeChar printfFtoaBufferSize buf (digitChar false (n % 10))
        if n / 10 = 0 then some buf else decimalLoop fuel (n / 10) buf
      else some buf

/-- Difference of two values of `unsigned int`. -/
def sub32 (a b : Nat) : Nat := (2 ^ 32 + a - b) % 2 ^ 32

/-- The fraction with its leading zeros and the point. -/
def storeFrac (prec frac : Nat) (buf : List UInt8) : Option (List UInt8) := do
  let size := printfFtoaBufferSize
  let digits ← decimalLoop size frac buf
  -- The loop has decremented `count`, an `unsigned int`, once for every digit.
  let count := sub32 prec (digits.length - buf.length)
  let buf ← zerosTo size (digits.length + count) size digits
  if buf.length < size then storeChar size buf '.'.toUInt8 else some buf

/-- The leading zeros of a number in fixed notation. -/
def storeFloatZeros (width : Nat) (flags : PriFlags) (buf : List UInt8) : Option (List UInt8) :=
  if !flags.left ∧ flags.zeropad then
    zerosTo printfFtoaBufferSize width printfFtoaBufferSize buf
  else some buf

section Fixed

variable {D : Type} (A : DoubleArith D)

/-- The rounding of the fraction, with the carry into the whole part. -/
def roundFrac (whole : Int) (frac : Nat) (diff p10 : D) : Int × Nat :=
  if A.lt A.half diff then
    if A.le p10 (A.ofInt (frac + 1 : Nat)) then (whole + 1, 0) else (whole, frac + 1)
  else if A.lt diff A.half then (whole, frac)
  else if frac = 0 ∨ frac % 2 = 1 then (whole, frac + 1)
  else (whole, frac)

/-- The rounding of the whole part when there is no fraction to print. -/
def roundWhole (value : D) (whole : Int) : Int :=
  let diff := A.sub value (A.ofInt whole)
  if (!A.lt diff A.half || A.lt A.half diff) ∧ whole % 2 = 1 then whole + 1 else whole

/-- The fraction and the point, or the rounded whole part alone. -/
def fractionPart (value : D) (prec : Nat) (whole : Int) (frac : Nat) (buf : List UInt8) :
    Option (List UInt8 × Int) :=
  if prec = 0 then some (buf, roundWhole A value whole)
  else do
    let buf ← storeFrac prec frac buf
    some (buf, whole)

/-- The buffer of a number in fixed notation whose magnitude is at most `PRINTF_MAX_FLOAT`. -/
def ftoaBuffer (t : Target) (value : D) (negative : Bool) (prec width : Nat) (flags : PriFlags) :
    Option (List UInt8) := do
  let prec := floatPrec prec flags
  let (buf, prec) ← limitPrec printfFtoaBufferSize [] prec
  let whole ← A.toI32 value
  let p10 ← A.pow10 prec
  let tmp := A.mul (A.sub value (A.ofInt whole)) p10
  let frac ← A.toULong t tmp
  let diff := A.sub tmp (A.ofInt frac)
  let (whole, frac) := roundFrac A whole frac diff p10
  let (buf, whole) ← fractionPart A value prec whole frac buf
  let buf ← decimalLoop printfFtoaBufferSize whole.toNat buf
  let buf ← storeFloatZeros (outWidth width negative flags) flags buf
  storeSign printfFtoaBufferSize negative flags buf

variable {σ : Type} {w : Nat}

/-- `__ftoa`, over `__etoa`. -/
def ftoaBody (t : Target)
    (etoa : Cursor w σ → D → Nat → Nat → PriFlags → Option (Cursor w σ)) (o : Output σ)
    (cur : Cursor w σ) (value : D) (prec width : Nat) (flags : PriFlags) : Option (Cursor w σ) :=
  if !A.eq value value then
    some (kPriOutRev o cur ("nan".toList.map Char.toUInt8) width flags)
  else if A.lt value (A.neg A.dblMax) then
    some (kPriOutRev o cur ("fni-".toList.map Char.toUInt8) width flags)
  else if A.lt A.dblMax value then
    some (kPriOutRev o cur ((if flags.plus then "fni+" else "fni").toList.map Char.toUInt8)
      width flags)
  else if A.lt A.printfMaxFloat value || A.lt value (A.neg A.printfMaxFloat) then
    etoa cur value prec width flags
  else do
    let negative := A.lt value (A.ofInt 0)
    let value := if negative then A.sub (A.ofInt 0) value else value
    let buf ← ftoaBuffer A t value negative prec width flags
    some (kPriOutRev o cur buf (outWidth width negative flags) flags)

end Fixed

section Exponential

variable {D : Type} (A : DoubleArith D)

/-- The decimal exponent of a positive number and the power of ten for it. -/
def decimalExponent (value : D) : Option (Int × D) := do
  let u := A.toBits value
  let exp2 : Int := ((u >>> 52) &&& 0x7ff).toNat - 1023
  let f := A.ofBits ((u &&& (BitVec.ofNat 64 (2 ^ 52 - 1))) ||| (BitVec.ofNat 64 1023 <<< 52))
  let expval ← A.toI32 (A.add
    (A.add (A.lit 1760912590558 (-13)) (A.mul (A.ofInt exp2) (A.lit 301029995663981 (-15))))
    (A.mul (A.sub f (A.lit 15 (-1))) (A.lit 289529654602168 (-15))))
  let exp2 ← A.toI32 (A.add (A.mul (A.ofInt expval) (A.lit 3321928094887362 (-15))) A.half)
  let z := A.sub (A.mul (A.ofInt expval) (A.lit 2302585092994046 (-15)))
    (A.mul (A.ofInt exp2) (A.lit 6931471805599453 (-16)))
  let z2 := A.mul z z
  let f := A.ofBits (BitVec.ofInt 64 (exp2 + 1023) <<< 52)
  let f := A.mul f (A.add (A.ofInt 1) (A.div (A.mul (A.ofInt 2) z)
    (A.add (A.sub (A.ofInt 2) z)
      (A.div z2 (A.add (A.ofInt 6) (A.div z2 (A.add (A.ofInt 10) (A.div z2 (A.ofInt 14)))))))))
  if A.lt value f then some (expval - 1, A.div f (A.ofInt 10)) else some (expval, f)

/-- What `%g` makes of the precision, the exponent and its width. -/
structure ExpForm where
  prec : Nat
  flags : PriFlags
  minwidth : Nat
  expval : Int

/-- The choice between the two notations. -/
def expForm (value : D) (prec : Nat) (flags : PriFlags) (expval : Int) : ExpForm :=
  let minwidth := if expval < 100 ∧ -100 < expval then 4 else 5
  if flags.adaptExp then
    if A.le (A.lit 1 (-4)) value && A.lt value (A.lit 1 6) then
      -- Both sides are compared as `int`.
      let iprec := (BitVec.ofNat 32 prec).toInt
      let prec := if expval < iprec then (BitVec.ofInt 32 (iprec - expval - 1)).toNat else 0
      ⟨prec, { flags with precision := true }, 0, 0⟩
    else
      let prec := if 0 < prec ∧ flags.precision then prec - 1 else prec
      ⟨prec, flags, minwidth, expval⟩
  else ⟨prec, flags, minwidth, expval⟩

/-- The width that is left for the number in front of the exponent. -/
def mantissaWidth (width minwidth : Nat) (flags : PriFlags) : Nat :=
  if flags.left ∧ minwidth ≠ 0 then 0 else if minwidth < width then width - minwidth else 0

variable {σ : Type} {w : Nat}

/-- The exponent behind a number, and the spaces up to the width of a left-aligned field. -/
def storeExponent (o : Output σ) (cur : Cursor w σ) (startIdx : BitVec w) (form : ExpForm)
    (width : Nat) : Option (Cursor w σ) :=
  if form.minwidth = 0 then some cur
  else do
    let cur := o.emit cur (if form.flags.uppercase then 'E'.toUInt8 else 'e'.toUInt8)
    let cur ← ntoaLong o cur form.expval.natAbs (form.expval < 0) 10 0 (form.minwidth - 1)
      { zeropad := true, plus := true }
    some (if form.flags.left then o.spacesTo startIdx width cur else cur)

/-- `__etoa`, over `__ftoa`. -/
def etoaBody
    (ftoa : Cursor w σ → D → Nat → Nat → PriFlags → Option (Cursor w σ)) (o : Output σ)
    (cur : Cursor w σ) (value : D) (prec width : Nat) (flags : PriFlags) : Option (Cursor w σ) :=
  if !A.eq value value || A.lt A.dblMax value || A.lt value (A.neg A.dblMax) then
    ftoa cur value prec width flags
  else do
    let negative := A.lt value (A.ofInt 0)
    let value := if negative then A.neg value else value
    let prec := floatPrec prec flags
    let (expval, f) ← decimalExponent A value
    let form := expForm A value prec flags expval
    let fwidth := mantissaWidth width form.minwidth form.flags
    let value := if form.expval ≠ 0 then A.div value f else value
    let startIdx := cur.idx
    let cur ← ftoa cur (if negative then A.neg value else value) form.prec fwidth
      { form.flags with adaptExp := false }
    storeExponent o cur startIdx form width

/-- The two conversions; the first argument bounds the calls of one another. -/
def floatConv (t : Target) (o : Output σ) :
    Nat → Bool → Cursor w σ → D → Nat → Nat → PriFlags → Option (Cursor w σ)
  | 0, _ => fun _ _ _ _ _ => none
  | depth + 1, false => ftoaBody A t (floatConv t o depth true) o
  | depth + 1, true => etoaBody A (floatConv t o depth false) o

/-- The conversions that call one another for one number. -/
def floatDepth : Nat := 3

/-- `__ftoa`. -/
def ftoa (t : Target) (o : Output σ) (cur : Cursor w σ) (value : D) (prec width : Nat)
    (flags : PriFlags) : Option (Cursor w σ) :=
  floatConv A t o floatDepth false cur value prec width flags

/-- `__etoa`. -/
def etoa (t : Target) (o : Output σ) (cur : Cursor w σ) (value : D) (prec width : Nat)
    (flags : PriFlags) : Option (Cursor w σ) :=
  floatConv A t o floatDepth true cur value prec width flags

end Exponential

section Buffer

/-- The decimal digits of a number, the lowest first, at least one. -/
def decDigits (n : Nat) : List Nat := if n = 0 then [0] else Nat.digits 10 n

theorem decDigits_eq_cons (n : Nat) :
    decDigits n = n % 10 :: if n / 10 = 0 then [] else decDigits (n / 10) := by
  unfold decDigits
  by_cases hn : n = 0
  · subst hn
    rfl
  · rw [if_neg hn, Nat.digits_def' (by decide) (Nat.pos_of_ne_zero hn)]
    by_cases hq : n / 10 = 0
    · rw [if_pos hq, hq, Nat.digits_zero]
    · rw [if_neg hq, if_neg hq]

theorem decimalLoop_eq {fuel : Nat} (n : Nat) {buf : List UInt8}
    (hfuel : printfFtoaBufferSize ≤ fuel + buf.length) :
    decimalLoop fuel n buf =
      some (buf ++ ((decDigits n).take (printfFtoaBufferSize - buf.length)).map
        (digitChar false)) := by
  induction fuel generalizing n buf with
  | zero =>
      rw [show printfFtoaBufferSize - buf.length = 0 by omega]
      simp [decimalLoop]
  | succ fuel ih =>
      have hlen (c : UInt8) : (buf ++ [c]).length = buf.length + 1 := by simp
      rw [decimalLoop]
      by_cases hlt : buf.length < printfFtoaBufferSize
      · rw [if_pos hlt, storeChar_of_lt hlt, decDigits_eq_cons,
          show printfFtoaBufferSize - buf.length = printfFtoaBufferSize - (buf.length + 1) + 1 by
            omega,
          List.take_succ_cons, List.map_cons]
        simp only [Option.bind_eq_bind, Option.bind_some]
        by_cases hq : n / 10 = 0
        · rw [if_pos hq, if_pos hq, List.take_nil]
          rfl
        · rw [if_neg hq, if_neg hq, ih _ (by rw [hlen]; omega), hlen, List.append_assoc]
          rfl
      · rw [if_neg hlt, show printfFtoaBufferSize - buf.length = 0 by omega]
        simp

theorem limitPrec_eq {fuel : Nat} {buf : List UInt8} {prec : Nat}
    (hfuel : printfFtoaBufferSize ≤ fuel + buf.length) :
    limitPrec fuel buf prec =
      some (buf ++ List.replicate (min (prec - 9) (printfFtoaBufferSize - buf.length)) '0'.toUInt8,
        prec - min (prec - 9) (printfFtoaBufferSize - buf.length)) := by
  induction fuel generalizing buf prec with
  | zero =>
      rw [show min (prec - 9) (printfFtoaBufferSize - buf.length) = 0 by omega]
      simp [limitPrec]
  | succ fuel ih =>
      rw [limitPrec]
      by_cases hlt : buf.length < printfFtoaBufferSize ∧ 9 < prec
      · have hlen : (buf ++ ['0'.toUInt8]).length = buf.length + 1 := by simp
        rw [if_pos hlt, storeChar_of_lt hlt.1]
        simp only [Option.bind_eq_bind, Option.bind_some]
        rw [ih (by omega), hlen,
          show min (prec - 9) (printfFtoaBufferSize - buf.length) =
            min (prec - 1 - 9) (printfFtoaBufferSize - (buf.length + 1)) + 1 by omega,
          List.replicate_succ, List.append_assoc,
          show prec - (min (prec - 1 - 9) (printfFtoaBufferSize - (buf.length + 1)) + 1) =
            prec - 1 - min (prec - 1 - 9) (printfFtoaBufferSize - (buf.length + 1)) by omega]
        rfl
      · rw [if_neg hlt, show min (prec - 9) (printfFtoaBufferSize - buf.length) = 0 by omega]
        simp

/-- The digits of a fraction that find room behind a number of stored characters. -/
def storedFrac (frac len : Nat) : List Nat := (decDigits frac).take (printfFtoaBufferSize - len)

/-- The zeros that the counter leaves to store. -/
def fracZeros (prec frac len : Nat) : Nat :=
  min (printfFtoaBufferSize - (len + (storedFrac frac len).length))
    (sub32 prec (storedFrac frac len).length)

/-- The zeros behind the digits of a fraction, and the point. -/
theorem zerosPoint_eq (count : Nat) {digits : List UInt8}
    (h : digits.length ≤ printfFtoaBufferSize) :
    ((zerosTo printfFtoaBufferSize (digits.length + count) printfFtoaBufferSize digits).bind
      fun buf =>
        if buf.length < printfFtoaBufferSize then
          storeChar printfFtoaBufferSize buf '.'.toUInt8
        else some buf) =
      some ((digits ++ List.replicate (min (printfFtoaBufferSize - digits.length) count)
        '0'.toUInt8 ++ ['.'.toUInt8]).take printfFtoaBufferSize) := by
  rw [zerosTo_eq _ _ (Nat.le_add_right _ _), Option.bind_some, store_if_room,
    show min printfFtoaBufferSize (digits.length + count) - digits.length =
      min (printfFtoaBufferSize - digits.length) count by omega]
  rw [List.length_append, List.length_replicate]
  omega

/-- What the fraction adds to the buffer: digits, zeros, and the point if there is room. -/
theorem storeFrac_eq (prec frac : Nat) {buf : List UInt8}
    (hbuf : buf.length ≤ printfFtoaBufferSize) :
    storeFrac prec frac buf =
      some ((buf ++ (storedFrac frac buf.length ++
        List.replicate (fracZeros prec frac buf.length) 0).map (digitChar false) ++
          ['.'.toUInt8]).take printfFtoaBufferSize) := by
  have hdigits : decimalLoop printfFtoaBufferSize frac buf =
      some (buf ++ (storedFrac frac buf.length).map (digitChar false)) :=
    decimalLoop_eq frac (Nat.le_add_right _ _)
  have hlen : (buf ++ (storedFrac frac buf.length).map (digitChar false)).length =
      buf.length + (storedFrac frac buf.length).length := by
    rw [List.length_append, List.length_map]
  have hroom : buf.length + (storedFrac frac buf.length).length ≤ printfFtoaBufferSize := by
    have := List.length_take_le (printfFtoaBufferSize - buf.length) (decDigits frac)
    unfold storedFrac
    omega
  have hpoint := zerosPoint_eq (sub32 prec (storedFrac frac buf.length).length)
    (Nat.le_trans (Nat.le_of_eq hlen) hroom)
  rw [hlen] at hpoint
  simp only [storeFrac, hdigits, Option.bind_eq_bind, Option.bind_some, hlen,
    Nat.add_sub_cancel_left]
  rw [hpoint, List.map_append, List.map_replicate, digitChar_zero, ← List.append_assoc buf,
    fracZeros]

theorem storeFloatZeros_eq (width : Nat) (flags : PriFlags) (buf : List UInt8) :
    storeFloatZeros width flags buf =
      some (buf ++ List.replicate ((if !flags.left ∧ flags.zeropad then
        min printfFtoaBufferSize width else 0) - buf.length) '0'.toUInt8) := by
  unfold storeFloatZeros
  by_cases h : !flags.left ∧ flags.zeropad
  · rw [if_pos h, if_pos h, zerosTo_eq _ _ (Nat.le_add_right _ _)]
  · rw [if_neg h, if_neg h, Nat.zero_sub, List.replicate_zero, List.append_nil]

/-- The characters of the fraction with the zeros for a precision of more than nine digits in
front; of no fraction, these zeros alone. -/
def fracChars (zeros prec frac : Nat) : List UInt8 :=
  let front := List.replicate zeros '0'.toUInt8
  if prec = 0 then front
  else (front ++ (storedFrac frac zeros ++ List.replicate (fracZeros prec frac zeros) 0).map
    (digitChar false) ++ ['.'.toUInt8]).take printfFtoaBufferSize

/-- The characters of the fraction and the whole part. -/
def fixedChars (zeros prec frac whole : Nat) : List UInt8 :=
  fracChars zeros prec frac ++
    ((decDigits whole).take (printfFtoaBufferSize - (fracChars zeros prec frac).length)).map
      (digitChar false)

/-- What the buffer of a number in fixed notation holds in the end. -/
def fixedBuffer (zeros prec frac whole width : Nat) (negative : Bool) (flags : PriFlags) :
    List UInt8 :=
  let chars := fixedChars zeros prec frac whole
  (chars ++ List.replicate ((if !flags.left ∧ flags.zeropad then
    min printfFtoaBufferSize (outWidth width negative flags) else 0) - chars.length)
      '0'.toUInt8 ++ signMark negative flags).take printfFtoaBufferSize

theorem fracChars_length_le {zeros : Nat} (h : zeros ≤ printfFtoaBufferSize) (prec frac : Nat) :
    (fracChars zeros prec frac).length ≤ printfFtoaBufferSize := by
  unfold fracChars
  split
  · rwa [List.length_replicate]
  · exact List.length_take_le _ _

theorem fixedChars_length_le {zeros : Nat} (h : zeros ≤ printfFtoaBufferSize)
    (prec frac whole : Nat) :
    (fixedChars zeros prec frac whole).length ≤ printfFtoaBufferSize := by
  have hfrac := fracChars_length_le h prec frac
  have := List.length_take_le (printfFtoaBufferSize - (fracChars zeros prec frac).length)
    (decDigits whole)
  simp only [fixedChars, List.length_append, List.length_map]
  omega

variable {D : Type} (A : DoubleArith D)

/-- The precision that is left behind the zeros for more than nine digits. -/
def leftPrec (prec : Nat) : Nat := prec - min (prec - 9) printfFtoaBufferSize

/-- The parts that are stored once the digits are known. -/
theorem storeFixed_eq (value : D) {zeros : Nat} (hzeros : zeros ≤ printfFtoaBufferSize)
    (prec : Nat) (whole : Int) (frac width : Nat) (negative : Bool) (flags : PriFlags) :
    ((fractionPart A value prec whole frac (List.replicate zeros '0'.toUInt8)).bind fun r =>
      (decimalLoop printfFtoaBufferSize r.2.toNat r.1).bind fun buf =>
        (storeFloatZeros (outWidth width negative flags) flags buf).bind fun buf =>
          storeSign printfFtoaBufferSize negative flags buf) =
      some (fixedBuffer zeros prec frac
        (if prec = 0 then roundWhole A value whole else whole).toNat width negative flags) := by
  have hfront : (List.replicate zeros '0'.toUInt8).length = zeros := List.length_replicate
  have hpart : fractionPart A value prec whole frac (List.replicate zeros '0'.toUInt8) =
      some (fracChars zeros prec frac, if prec = 0 then roundWhole A value whole else whole) := by
    unfold fractionPart fracChars
    by_cases hprec : prec = 0
    · simp [hprec]
    · rw [if_neg hprec, storeFrac_eq _ _ (by rwa [hfront]), hfront]
      simp [hprec]
  have hloop (n : Nat) : decimalLoop printfFtoaBufferSize n (fracChars zeros prec frac) =
      some (fixedChars zeros prec frac n) :=
    decimalLoop_eq n (Nat.le_add_right _ _)
  have hlen (n : Nat) := fixedChars_length_le hzeros prec frac n
  simp only [hpart, hloop, Option.bind_some, storeFloatZeros_eq]
  rw [storeSign_eq]
  · rfl
  · have hfill : (if !flags.left ∧ flags.zeropad then
        min printfFtoaBufferSize (outWidth width negative flags) else 0) ≤
        printfFtoaBufferSize := by
      split
      · exact Nat.min_le_left _ _
      · exact Nat.zero_le _
    have := hlen (if prec = 0 then roundWhole A value whole else whole).toNat
    rw [List.length_append, List.length_replicate]
    omega

/-- A number in fixed notation: the whole part and the fraction of the arithmetic, and what the
buffer holds then. -/
theorem ftoaBuffer_eq (t : Target) (value : D) (negative : Bool) (prec width : Nat)
    (flags : PriFlags) :
    ftoaBuffer A t value negative prec width flags =
      (A.toI32 value).bind fun whole =>
        (A.pow10 (leftPrec (floatPrec prec flags))).bind fun p10 =>
          (A.toULong t (A.mul (A.sub value (A.ofInt whole)) p10)).bind fun frac =>
            let diff := A.sub (A.mul (A.sub value (A.ofInt whole)) p10) (A.ofInt frac)
            let r := roundFrac A whole frac diff p10
            some (fixedBuffer (min (floatPrec prec flags - 9) printfFtoaBufferSize)
              (leftPrec (floatPrec prec flags)) r.2
              (if leftPrec (floatPrec prec flags) = 0 then roundWhole A value r.1 else r.1).toNat
              width negative flags) := by
  simp only [ftoaBuffer, limitPrec_eq (Nat.le_add_right _ _), Option.bind_eq_bind,
    Option.bind_some, List.nil_append, List.length_nil, Nat.sub_zero, ← storeFixed_eq A value
      (Nat.min_le_right _ _)]
  rfl

end Buffer

end BaremetalCrt
