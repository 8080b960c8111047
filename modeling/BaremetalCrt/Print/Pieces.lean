import BaremetalCrt.Print.Double
import BaremetalCrt.Print.Meaning

/-!
# The pieces of a format

The formatter reads a format and converts arguments in one pass. Here the two are apart: a format
is first cut into its pieces, characters and conversions, and the pieces are given their texts in
order. The loop of the formatter does the same as the two passes, for every output function.
-/

namespace BaremetalCrt

open Emission

section Pieces

/-- A width or a precision: a number, or an argument of the call. -/
inductive SpecField where
  | lit (n : Nat)
  | star
deriving DecidableEq

/-- A conversion of a format. -/
structure Conversion where
  flags : PriFlags
  width : SpecField
  precision : SpecField
  spec : UInt8
deriving DecidableEq

/-- A piece of a format. -/
inductive FormatPiece where
  | literal (c : UInt8)
  | conversion (conv : Conversion)
deriving DecidableEq

/-- The width field. -/
def parseWidth (format : List UInt8) : SpecField × List UInt8 :=
  if isDigit (peek format) then (.lit (atoi format 0).1, (atoi format 0).2)
  else if peek format = '*'.toUInt8 then (.star, format.tail)
  else (.lit 0, format)

/-- The precision field, with the flag that says whether there is one. -/
def parsePrecision (flags : PriFlags) (format : List UInt8) : PriFlags × SpecField × List UInt8 :=
  if peek format = '.'.toUInt8 then
    ({ flags with precision := true }, parseWidth format.tail)
  else (flags, .lit 0, format)

/-- The length field. -/
def parseLength (t : Target) (flags : PriFlags) (format : List UInt8) : PriFlags × List UInt8 :=
  if peek format = 'l'.toUInt8 then
    if peek format.tail = 'l'.toUInt8 then
      ({ flags with long := true, longLong := true }, format.tail.tail)
    else ({ flags with long := true }, format.tail)
  else if peek format = 'h'.toUInt8 then
    if peek format.tail = 'h'.toUInt8 then
      ({ flags with short := true, char := true }, format.tail.tail)
    else ({ flags with short := true }, format.tail)
  else if peek format = 't'.toUInt8 ∨ peek format = 'z'.toUInt8 then
    (sizeFlags t (t.bits / 8) flags, format.tail)
  else if peek format = 'j'.toUInt8 then (sizeFlags t 8 flags, format.tail)
  else (flags, format)

/-- A conversion behind its `%`, and what follows; nothing if the format ends before the
specifier. -/
def parseConversion (t : Target) (format : List UInt8) : Option (Conversion × List UInt8) :=
  let (flags, format) := evalFlags format {}
  let (width, format) := parseWidth format
  let (flags, precision, format) := parsePrecision flags format
  let (flags, format) := parseLength t flags format
  match format with
  | [] => none
  | c :: rest => some (⟨flags, width, precision, c⟩, rest)

/-- The pieces of a format, in so many rounds. -/
def parseLoop (t : Target) : Nat → List UInt8 → Option (List FormatPiece)
  | _, [] => some []
  | 0, _ :: _ => none
  | rounds + 1, c :: rest =>
      if c ≠ '%'.toUInt8 then (parseLoop t rounds rest).map (FormatPiece.literal c :: ·)
      else
        (parseConversion t rest).bind fun r =>
          (parseLoop t rounds r.2).map (FormatPiece.conversion r.1 :: ·)

/-- The pieces of a format; nothing if it ends inside a conversion. -/
def parse (t : Target) (format : List UInt8) : Option (List FormatPiece) :=
  parseLoop t format.length format

variable {t : Target} {D : Type} (A : DoubleArith D)

/-- The value of a field. -/
def SpecField.take (args : List (VaArg t D)) : SpecField → Option (Int × List (VaArg t D))
  | .lit n => some (n, args)
  | .star => (vaInt args).map fun r => (r.1.toInt, r.2)

/-- A conversion with the values of its fields. -/
def Conversion.resolve (conv : Conversion) (args : List (VaArg t D)) : Option (Scan t D) :=
  (conv.width.take args).bind fun wd =>
    (conv.precision.take wd.2).map fun pr =>
      { format := [conv.spec]
        args := pr.2
        flags := setLeft (wd.1 < 0) conv.flags
        width := wd.1.natAbs
        precision := pr.1.toNat }

/-- The text of a conversion whose fields are known, and what is left of the arguments. -/
def convertText (s : Scan t D) : Option (List UInt8 × List (VaArg t D)) :=
  match Specifier.ofChar (peek s.format) with
  | .integer spec => integerText s spec
  | .float spec =>
      (vaDouble s.args).bind fun r =>
        (floatText A t spec.exponential r.1 s.precision s.width (spec.flags s.flags)).map (·, r.2)
  | .c => charText s
  | .s => stringText s
  | .p => pointerText s
  | .other => some ([peek s.format], s.args)

/-- The text of a conversion, and what is left of the arguments. -/
def Conversion.text (conv : Conversion) (args : List (VaArg t D)) :
    Option (List UInt8 × List (VaArg t D)) :=
  (conv.resolve args).bind (convertText A)

/-- The text of the pieces of a format, and what is left of the arguments. -/
def piecesText : List FormatPiece → List (VaArg t D) → Option (List UInt8 × List (VaArg t D))
  | [], args => some ([], args)
  | .literal c :: pieces, args =>
      (piecesText pieces args).map fun r => (c :: r.1, r.2)
  | .conversion conv :: pieces, args =>
      (conv.text A args).bind fun p =>
        (piecesText pieces p.2).map fun r => (p.1 ++ r.1, r.2)

/-- The text of a format, and what is left of the arguments. -/
def formatText (format : List UInt8) (args : List (VaArg t D)) :
    Option (List UInt8 × List (VaArg t D)) :=
  (parse t format).bind fun pieces => piecesText A pieces args

end Pieces

section Refinement

variable {t : Target} {D : Type} (A : DoubleArith D) {σ : Type} (o : Output σ)
  (cur : Cursor t.bits σ)

theorem evalConvert_eq {s : Scan t D} (hwidth : s.width < 2 ^ 32) :
    evalConvert o cur A s = (convertText A s).map (handOver o cur) := by
  unfold evalConvert convertText
  cases Specifier.ofChar (peek s.format) with
  | integer spec => exact evalInteger_eq o cur spec hwidth
  | float spec =>
      simp only [evalFloat]
      cases vaDouble s.args with
      | none => rfl
      | some r =>
          have hconv (exponential : Bool) := floatConv_eq A o cur exponential r.1 s.precision
            (spec.flags s.flags) hwidth
          have hrun : (if spec.exponential then etoa A t o else ftoa A t o) cur r.1 s.precision
              s.width (spec.flags s.flags) = (floatText A t spec.exponential r.1 s.precision s.width
              (spec.flags s.flags)).map (o.emitText cur) := by
            cases spec.exponential with
            | true => exact hconv true
            | false => exact hconv false
          simp only [Option.bind_eq_bind, Option.bind_some, hrun]
          cases floatText A t spec.exponential r.1 s.precision s.width (spec.flags s.flags) with
          | none => rfl
          | some text => rfl
  | c => exact evalChar_eq o cur s
  | s => exact evalString_eq o cur s
  | p => exact evalPointer_eq o cur s
  | other => rfl

/-- A character that is read is not the end of the format. -/
theorem advance_of_peek {format : List UInt8} {c : UInt8} (h : peek format = c) (hc : c ≠ 0) :
    advance format = some format.tail := by
  cases format with
  | nil => exact absurd h.symm hc
  | cons a rest => rfl

theorem evalWidth_eq (s : Scan t D) :
    evalWidth s = ((parseWidth s.format).1.take s.args).map fun r =>
      { s with
        format := (parseWidth s.format).2
        args := r.2
        flags := setLeft (r.1 < 0) s.flags
        width := r.1.natAbs } := by
  unfold evalWidth parseWidth
  by_cases hdigit : isDigit (peek s.format) = true
  · simp [hdigit, SpecField.take, setLeft]
  · by_cases hstar : peek s.format = '*'.toUInt8
    · rw [if_neg hdigit, if_neg hdigit, if_pos hstar, if_pos hstar]
      unfold SpecField.take
      cases vaInt s.args with
      | none => rfl
      | some r => simp [advance_of_peek hstar (by decide)]
    · simp [hdigit, hstar, SpecField.take, setLeft]

theorem evalPrecision_eq (s : Scan t D) :
    evalPrecision s = ((parsePrecision s.flags s.format).2.1.take s.args).map fun r =>
      { s with
        format := (parsePrecision s.flags s.format).2.2
        args := r.2
        flags := (parsePrecision s.flags s.format).1
        precision := r.1.toNat } := by
  unfold evalPrecision parsePrecision
  by_cases hpoint : peek s.format = '.'.toUInt8
  · rw [if_pos hpoint, if_pos hpoint, advance_of_peek hpoint (by decide)]
    unfold parseWidth
    by_cases hdigit : isDigit (peek s.format.tail) = true
    · simp [hdigit, SpecField.take]
    · by_cases hstar : peek s.format.tail = '*'.toUInt8
      · simp only [Option.bind_eq_bind, Option.bind_some, if_neg hdigit, if_pos hstar,
          SpecField.take]
        cases vaInt s.args with
        | none => rfl
        | some r => simp [advance_of_peek hstar (by decide)]
      · simp [hdigit, hstar, SpecField.take]
  · simp [hpoint, SpecField.take]

theorem evalLength_eq (s : Scan t D) :
    evalLength s = some
      { s with
        format := (parseLength t s.flags s.format).2
        flags := (parseLength t s.flags s.format).1 } := by
  unfold evalLength parseLength
  by_cases hl : peek s.format = 'l'.toUInt8
  · rw [if_pos hl, if_pos hl, advance_of_peek hl (by decide)]
    by_cases hll : peek s.format.tail = 'l'.toUInt8
    · simp [hll, advance_of_peek hll (by decide)]
    · simp [hll]
  by_cases hh : peek s.format = 'h'.toUInt8
  · rw [if_neg hl, if_neg hl, if_pos hh, if_pos hh, advance_of_peek hh (by decide)]
    by_cases hhh : peek s.format.tail = 'h'.toUInt8
    · simp [hhh, advance_of_peek hhh (by decide)]
    · simp [hhh]
  by_cases ht : peek s.format = 't'.toUInt8
  · have hsize : peek s.format = 't'.toUInt8 ∨ peek s.format = 'z'.toUInt8 := Or.inl ht
    simp only [if_neg hl, if_neg hh, if_pos ht, if_pos hsize, advance_of_peek ht (by decide),
      Option.bind_eq_bind, Option.bind_some]
  by_cases hj : peek s.format = 'j'.toUInt8
  · have hsize : ¬(peek s.format = 't'.toUInt8 ∨ peek s.format = 'z'.toUInt8) := by
      rw [hj]
      decide
    simp only [if_neg hl, if_neg hh, if_neg ht, if_pos hj, if_neg hsize,
      advance_of_peek hj (by decide), Option.bind_eq_bind, Option.bind_some]
  by_cases hz : peek s.format = 'z'.toUInt8
  · have hsize : peek s.format = 't'.toUInt8 ∨ peek s.format = 'z'.toUInt8 := Or.inr hz
    simp only [if_neg hl, if_neg hh, if_neg ht, if_neg hj, if_pos hz, if_pos hsize,
      advance_of_peek hz (by decide), Option.bind_eq_bind, Option.bind_some]
  simp only [if_neg hl, if_neg hh, if_neg hj, hz, ht, or_self, if_false]

theorem atoi_lt (format : List UInt8) {i : Nat} (hi : i < 2 ^ 32) :
    (atoi format i).1 < 2 ^ 32 := by
  induction format generalizing i with
  | nil => exact hi
  | cons c rest ih =>
      unfold atoi
      split
      · exact ih (Nat.mod_lt _ (by decide))
      · exact hi

/-- The width of a conversion is an `unsigned int`. -/
theorem parseWidth_lt {format : List UInt8} {args : List (VaArg t D)}
    {r : Int × List (VaArg t D)} (h : (parseWidth format).1.take args = some r) :
    r.1.natAbs < 2 ^ 32 := by
  have hlit {n : Nat} (hn : n < 2 ^ 32) (h : (SpecField.lit n).take args = some r) :
      r.1.natAbs < 2 ^ 32 := by
    rw [← Option.some.inj h]
    exact hn
  unfold parseWidth at h
  split at h
  · exact hlit (atoi_lt format (by decide)) h
  · split at h
    · obtain ⟨v, -, hv⟩ := Option.map_eq_some_iff.mp h
      have := v.1.toInt_lt
      have := v.1.le_toInt
      rw [← hv]
      change v.1.toInt.natAbs < 2 ^ 32
      omega
    · exact hlit (by decide) h

theorem parsePrecision_setLeft (negative : Bool) (flags : PriFlags) (format : List UInt8) :
    parsePrecision (setLeft negative flags) format =
      (setLeft negative (parsePrecision flags format).1, (parsePrecision flags format).2) := by
  unfold parsePrecision
  cases negative with
  | false => rfl
  | true =>
      split
      · rfl
      · rfl

theorem parseLength_setLeft (negative : Bool) (flags : PriFlags) (format : List UInt8) :
    parseLength t (setLeft negative flags) format =
      (setLeft negative (parseLength t flags format).1, (parseLength t flags format).2) := by
  cases negative with
  | false => rfl
  | true =>
      have hsize (bytes : Nat) : sizeFlags t bytes (setLeft true flags) =
          setLeft true (sizeFlags t bytes flags) := by
        unfold sizeFlags
        split
        · rfl
        · rfl
      unfold parseLength
      rw [hsize, hsize]
      split
      · split
        · rfl
        · rfl
      · split
        · split
          · rfl
          · rfl
        · split
          · rfl
          · split
            · rfl
            · rfl

/-- Of the format a conversion with known fields looks at the specifier only. -/
theorem convertText_cons (c : UInt8) (rest : List UInt8) (args : List (VaArg t D))
    (flags : PriFlags) (width precision : Nat) :
    convertText A ⟨c :: rest, args, flags, width, precision⟩ =
      convertText A ⟨[c], args, flags, width, precision⟩ := rfl

theorem evalConversion_eq (format : List UInt8) (args : List (VaArg t D)) :
    evalConversion o cur A format args =
      (parseConversion t format).bind fun r =>
        (r.1.text A args).map fun p => (o.emitText cur p.1, r.2, p.2) := by
  simp only [evalConversion, parseConversion, evalWidth_eq, evalPrecision_eq, evalLength_eq,
    Option.bind_eq_bind, Option.bind_some]
  generalize evalFlags format {} = scanned
  cases hwd : (parseWidth scanned.2).1.take args with
  | none =>
      cases (parseLength t (parsePrecision scanned.1 (parseWidth scanned.2).2).1
          (parsePrecision scanned.1 (parseWidth scanned.2).2).2.2).2 with
      | nil => rfl
      | cons c rest => simp [Conversion.text, Conversion.resolve, hwd]
  | some wd =>
      simp only [Option.map_some, Option.bind_some, parsePrecision_setLeft]
      cases hpr : (parsePrecision scanned.1 (parseWidth scanned.2).2).2.1.take wd.2 with
      | none =>
          cases (parseLength t (parsePrecision scanned.1 (parseWidth scanned.2).2).1
              (parsePrecision scanned.1 (parseWidth scanned.2).2).2.2).2 with
          | nil => rfl
          | cons c rest => simp [Conversion.text, Conversion.resolve, hwd, hpr]
      | some pr =>
          simp only [Option.map_some, Option.bind_some, parseLength_setLeft]
          cases (parseLength t (parsePrecision scanned.1 (parseWidth scanned.2).2).1
              (parsePrecision scanned.1 (parseWidth scanned.2).2).2.2).2 with
          | nil =>
              simp only [evalSpecifier, Option.bind_eq_bind, Option.bind_none]
              cases evalConvert o cur A _ with
              | none => rfl
              | some r => rfl
          | cons c rest =>
              rw [evalSpecifier, evalConvert_eq A o cur (parseWidth_lt hwd), convertText_cons]
              simp only [Conversion.text, Conversion.resolve, hwd, hpr, Option.bind_some,
                Option.map_some]
              cases convertText A _ with
              | none => rfl
              | some p => rfl

/-- The loop of the formatter hands over the text of the pieces. -/
theorem formatLoop_eq (rounds : Nat) (format : List UInt8) (args : List (VaArg t D)) :
    formatLoop o A rounds cur format args =
      (parseLoop t rounds format).bind fun pieces =>
        (piecesText A pieces args).map (handOver o cur) := by
  induction rounds generalizing cur format args with
  | zero =>
      cases format with
      | nil => rfl
      | cons c rest => rfl
  | succ rounds ih =>
      cases format with
      | nil => rfl
      | cons c rest =>
          simp only [formatLoop, formatStep, parseLoop]
          by_cases hc : c ≠ '%'.toUInt8
          · rw [if_pos hc, if_pos hc]
            simp only [Option.bind_eq_bind, Option.bind_some, ih]
            cases parseLoop t rounds rest with
            | none => rfl
            | some pieces =>
                simp only [Option.bind_some, Option.map_some, piecesText]
                cases piecesText A pieces args with
                | none => rfl
                | some r => rfl
          · rw [if_neg hc, if_neg hc, evalConversion_eq]
            cases parseConversion t rest with
            | none => rfl
            | some r =>
                simp only [Option.bind_eq_bind, Option.bind_some]
                cases hconv : r.1.text A args with
                | none =>
                    cases parseLoop t rounds r.2 with
                    | none => rfl
                    | some pieces => simp [piecesText, hconv]
                | some p =>
                    simp only [Option.map_some, Option.bind_some, ih]
                    cases parseLoop t rounds r.2 with
                    | none => rfl
                    | some pieces =>
                        simp only [Option.bind_some, Option.map_some, piecesText, hconv]
                        cases piecesText A pieces p.2 with
                        | none => rfl
                        | some q => simp [handOver, emitText_append]

/-- The loop hands over the text of the format. -/
theorem formatLoop_eq_formatText (format : List UInt8) (args : List (VaArg t D)) :
    formatLoop o A format.length cur format args =
      (formatText A format args).map (handOver o cur) := by
  rw [formatLoop_eq, ← parse, formatText, Option.map_bind]
  rfl

end Refinement

end BaremetalCrt
