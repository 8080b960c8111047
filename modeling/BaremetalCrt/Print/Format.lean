import BaremetalCrt.Print.Float
import BaremetalCrt.Sys.String

/-!
# The format string

`k_vsnprintf_inner` walks over a format: characters are handed over as they are, and a `%` starts
a conversion with flags, a width, a precision, a length and a specifier, which takes its arguments
from the list of the call.

## Implementation notes

A format is the list of its characters; at its end `*format` reads the terminating zero. A step
over the terminating zero, an argument that is missing or of another type, and a read outside the
object that a string argument points to are undefined, which is `none`. `char` is unsigned, as it
is on the only architecture of the repository, and the negation of the smallest number of a type
wraps around.
-/

namespace BaremetalCrt

open Emission

/-- An argument of the call, with the type that it was passed with. A pointer comes with the bytes
that can be read from it on. -/
inductive VaArg (t : Target) (D : Type) where
  | int (v : BitVec 32)
  | long (v : BitVec t.bits)
  | longLong (v : BitVec 64)
  | double (d : D)
  | pointer (addr : BitVec t.bits) (object : List UInt8)

/-- `*format`. -/
def peek (format : List UInt8) : UInt8 := format.headD 0

/-- `format++`. -/
def advance : List UInt8 → Option (List UInt8)
  | [] => none
  | _ :: rest => some rest

/-- `_is_digit`. -/
def isDigit (c : UInt8) : Bool := '0'.toUInt8 ≤ c && c ≤ '9'.toUInt8

/-- `_atoi`, from a value read so far. -/
def atoi : List UInt8 → Nat → Nat × List UInt8
  | [], i => (i, [])
  | c :: rest, i =>
      if isDigit c then atoi rest ((i * 10 + (c - '0'.toUInt8).toNat) % 2 ^ 32)
      else (i, c :: rest)

/-- One character of the flags field. -/
def flagOf (c : UInt8) (flags : PriFlags) : Option PriFlags :=
  if c = '0'.toUInt8 then some { flags with zeropad := true }
  else if c = '-'.toUInt8 then some { flags with left := true }
  else if c = '+'.toUInt8 then some { flags with plus := true }
  else if c = ' '.toUInt8 then some { flags with space := true }
  else if c = '#'.toUInt8 then some { flags with hash := true }
  else none

/-- The flags field. -/
def evalFlags : List UInt8 → PriFlags → PriFlags × List UInt8
  | [], flags => (flags, [])
  | c :: rest, flags =>
      match flagOf c flags with
      | some flags => evalFlags rest flags
      | none => (flags, c :: rest)

/-- Where the evaluation of a conversion stands. -/
structure Scan (t : Target) (D : Type) where
  format : List UInt8
  args : List (VaArg t D)
  flags : PriFlags
  width : Nat := 0
  precision : Nat := 0

section Evaluate

variable {t : Target} {D : Type}

/-- `va_arg(va, int)`. -/
def vaInt : List (VaArg t D) → Option (BitVec 32 × List (VaArg t D))
  | .int v :: args => some (v, args)
  | _ => none

/-- `va_arg(va, long)`. -/
def vaLong : List (VaArg t D) → Option (BitVec t.bits × List (VaArg t D))
  | .long v :: args => some (v, args)
  | _ => none

/-- `va_arg(va, long long)`. -/
def vaLongLong : List (VaArg t D) → Option (BitVec 64 × List (VaArg t D))
  | .longLong v :: args => some (v, args)
  | _ => none

/-- `va_arg(va, double)`. -/
def vaDouble : List (VaArg t D) → Option (D × List (VaArg t D))
  | .double d :: args => some (d, args)
  | _ => none

/-- `va_arg` of a pointer type. -/
def vaPointer : List (VaArg t D) → Option ((BitVec t.bits × List UInt8) × List (VaArg t D))
  | .pointer addr object :: args => some ((addr, object), args)
  | _ => none

/-- A negative width stands for a left-aligned field. -/
def setLeft (negative : Bool) (flags : PriFlags) : PriFlags :=
  if negative then { flags with left := true } else flags

/-- The width field. -/
def evalWidth (s : Scan t D) : Option (Scan t D) :=
  if isDigit (peek s.format) then
    let (width, format) := atoi s.format 0
    some { s with width := width, format := format }
  else if peek s.format = '*'.toUInt8 then do
    let (v, args) ← vaInt s.args
    let format ← advance s.format
    let flags := setLeft (v.toInt < 0) s.flags
    some { s with width := v.toInt.natAbs, flags := flags, args := args, format := format }
  else some { s with width := 0 }

/-- The precision field. -/
def evalPrecision (s : Scan t D) : Option (Scan t D) :=
  if peek s.format = '.'.toUInt8 then do
    let format ← advance s.format
    let s := { s with flags := { s.flags with precision := true }, precision := 0 }
    if isDigit (peek format) then
      let (precision, format) := atoi format 0
      some { s with precision := precision, format := format }
    else if peek format = '*'.toUInt8 then do
      let (v, args) ← vaInt s.args
      let format ← advance format
      some { s with precision := v.toInt.toNat, args := args, format := format }
    else some { s with format := format }
  else some { s with precision := 0 }

/-- The flag of a type with the size of `long`, or of `long long`. -/
def sizeFlags (t : Target) (bytes : Nat) (flags : PriFlags) : PriFlags :=
  if bytes * 8 = t.bits then { flags with long := true } else { flags with longLong := true }

/-- The length field. -/
def evalLength (s : Scan t D) : Option (Scan t D) :=
  if peek s.format = 'l'.toUInt8 then do
    let format ← advance s.format
    let flags := { s.flags with long := true }
    if peek format = 'l'.toUInt8 then
      some { s with flags := { flags with longLong := true }, format := ← advance format }
    else some { s with flags := flags, format := format }
  else if peek s.format = 'h'.toUInt8 then do
    let format ← advance s.format
    let flags := { s.flags with short := true }
    if peek format = 'h'.toUInt8 then
      some { s with flags := { flags with char := true }, format := ← advance format }
    else some { s with flags := flags, format := format }
  else if peek s.format = 't'.toUInt8 then do
    -- `ptrdiff_t` has the size of `long`.
    some { s with flags := sizeFlags t (t.bits / 8) s.flags, format := ← advance s.format }
  else if peek s.format = 'j'.toUInt8 then do
    some { s with flags := sizeFlags t 8 s.flags, format := ← advance s.format }
  else if peek s.format = 'z'.toUInt8 then do
    some { s with flags := sizeFlags t (t.bits / 8) s.flags, format := ← advance s.format }
  else some s

end Evaluate

/-- The integer specifiers. -/
inductive IntSpec where
  | d | i | u | x | X | o | b
deriving DecidableEq

/-- The specifiers of floating-point numbers. -/
inductive FloatSpec where
  | f | F | e | E | g | G
deriving DecidableEq

/-- The specifiers; every other character stands for itself. -/
inductive Specifier where
  | integer (spec : IntSpec)
  | float (spec : FloatSpec)
  | c | s | p
  | other
deriving DecidableEq

/-- The specifier of a character. -/
def Specifier.ofChar (c : UInt8) : Specifier :=
  if c = 'd'.toUInt8 then .integer .d
  else if c = 'i'.toUInt8 then .integer .i
  else if c = 'u'.toUInt8 then .integer .u
  else if c = 'x'.toUInt8 then .integer .x
  else if c = 'X'.toUInt8 then .integer .X
  else if c = 'o'.toUInt8 then .integer .o
  else if c = 'b'.toUInt8 then .integer .b
  else if c = 'f'.toUInt8 then .float .f
  else if c = 'F'.toUInt8 then .float .F
  else if c = 'e'.toUInt8 then .float .e
  else if c = 'E'.toUInt8 then .float .E
  else if c = 'g'.toUInt8 then .float .g
  else if c = 'G'.toUInt8 then .float .G
  else if c = 'c'.toUInt8 then .c
  else if c = 's'.toUInt8 then .s
  else if c = 'p'.toUInt8 then .p
  else .other

/-- The base of an integer specifier. -/
def IntSpec.base : IntSpec → Nat
  | .x | .X => 16
  | .o => 8
  | .b => 2
  | .d | .i | .u => 10

/-- The specifiers of signed numbers. -/
def IntSpec.signed : IntSpec → Bool
  | .d | .i => true
  | .u | .x | .X | .o | .b => false

/-- The flags that an integer specifier leaves. -/
def IntSpec.flags (spec : IntSpec) (flags : PriFlags) : PriFlags :=
  let flags := if spec.base = 10 then { flags with hash := false } else flags
  let flags := if spec = .X then { flags with uppercase := true } else flags
  let flags := if spec.signed then flags else { flags with plus := false, space := false }
  if flags.precision then { flags with zeropad := false } else flags

section Convert

variable {t : Target} {D : Type}

/-- The number that a signed specifier takes from the arguments. -/
def vaSigned (flags : PriFlags) (args : List (VaArg t D)) : Option (Int × List (VaArg t D)) :=
  if flags.longLong then do
    let (v, args) ← vaLongLong args
    some (v.toInt, args)
  else if flags.long then do
    let (v, args) ← vaLong args
    some (v.toInt, args)
  else do
    let (v, args) ← vaInt args
    if flags.char then some (v.toNat % 2 ^ 8, args)
    else if flags.short then some ((v.setWidth 16).toInt, args)
    else some (v.toInt, args)

/-- The number that an unsigned specifier takes from the arguments. -/
def vaUnsigned (flags : PriFlags) (args : List (VaArg t D)) : Option (Nat × List (VaArg t D)) :=
  if flags.longLong then do
    let (v, args) ← vaLongLong args
    some (v.toNat, args)
  else if flags.long then do
    let (v, args) ← vaLong args
    some (v.toNat, args)
  else do
    let (v, args) ← vaInt args
    if flags.char then some (v.toNat % 2 ^ 8, args)
    else if flags.short then some (v.toNat % 2 ^ 16, args)
    else some (v.toNat, args)

/-- The number that an integer specifier takes from the arguments. -/
def vaInteger (spec : IntSpec) (flags : PriFlags) (args : List (VaArg t D)) :
    Option (Int × List (VaArg t D)) :=
  if spec.signed then vaSigned flags args
  else (vaUnsigned flags args).map fun r => ((r.1 : Int), r.2)

variable {σ : Type} (o : Output σ) (cur : Cursor t.bits σ)

/-- An integer conversion. -/
def evalInteger (s : Scan t D) (spec : IntSpec) :
    Option (Cursor t.bits σ × List (VaArg t D)) := do
  let flags := spec.flags s.flags
  let (value, args) ← vaInteger spec flags s.args
  let convert := if flags.longLong then ntoaLongLong o else ntoaLong o
  let cur ← convert cur value.natAbs (value < 0) spec.base s.precision s.width flags
  some (cur, args)

/-- The flags of a floating-point conversion. -/
def FloatSpec.flags (spec : FloatSpec) (flags : PriFlags) : PriFlags :=
  let flags := if spec = .g ∨ spec = .G then { flags with adaptExp := true } else flags
  if spec = .F ∨ spec = .E ∨ spec = .G then { flags with uppercase := true } else flags

/-- The specifiers with an exponent. -/
def FloatSpec.exponential (spec : FloatSpec) : Bool := !(spec = .f ∨ spec = .F)

/-- A floating-point conversion. -/
def evalFloat (A : DoubleArith D) (s : Scan t D) (spec : FloatSpec) :
    Option (Cursor t.bits σ × List (VaArg t D)) := do
  let (value, args) ← vaDouble s.args
  let convert := if spec.exponential then etoa A t o else ftoa A t o
  let cur ← convert cur value s.precision s.width (spec.flags s.flags)
  some (cur, args)

/-- `%c`. -/
def evalChar (s : Scan t D) : Option (Cursor t.bits σ × List (VaArg t D)) := do
  let cur := if s.flags.left then cur else o.spaces (s.width - 1) cur
  let (v, args) ← vaInt s.args
  let cur := o.emit cur (UInt8.ofNat v.toNat)
  some (if s.flags.left then o.spaces (s.width - 1) cur else cur, args)

/-- `_strnlen_s`: every character is read before the count is looked at. -/
def strnlenS : List UInt8 → Nat → Option Nat
  | [], _ => none
  | c :: rest, maxsize =>
      if c = 0 then some 0
      else
        match maxsize with
        | 0 => some 0
        | m + 1 => (strnlenS rest m).map (· + 1)

/-- The loop that hands over a string, at most `limit` characters if there is a limit. -/
def outString : List UInt8 → Option Nat → Cursor t.bits σ → Option (Cursor t.bits σ)
  | [], _, _ => none
  | c :: rest, limit, cur =>
      if c = 0 then some cur
      else
        match limit with
        | none => outString rest none (o.emit cur c)
        | some 0 => some cur
        | some (n + 1) => outString rest (some n) (o.emit cur c)

/-- `%s`. -/
def evalString (s : Scan t D) : Option (Cursor t.bits σ × List (VaArg t D)) := do
  let ((_, object), args) ← vaPointer s.args
  let len ← strnlenS object (if s.precision ≠ 0 then s.precision else 2 ^ t.bits - 1)
  let l := len % 2 ^ 32
  let l := if s.flags.precision then min l s.precision else l
  let cur := if s.flags.left then cur else o.spaces (s.width - l) cur
  let limit := if s.flags.precision then some s.precision else none
  let cur ← outString o object limit cur
  some (if s.flags.left then o.spaces (s.width - l) cur else cur, args)

/-- `%p`. -/
def evalPointer (s : Scan t D) : Option (Cursor t.bits σ × List (VaArg t D)) := do
  let width := t.bits / 8 * 2
  let flags := { s.flags with zeropad := true, uppercase := true }
  let ((addr, _), args) ← vaPointer s.args
  let convert := if t.bits = 64 then ntoaLongLong o else ntoaLong o
  let cur ← convert cur addr.toNat false 16 s.precision width flags
  some (cur, args)

/-- The conversion of a specifier. -/
def evalConvert (A : DoubleArith D) (s : Scan t D) :
    Option (Cursor t.bits σ × List (VaArg t D)) :=
  match Specifier.ofChar (peek s.format) with
  | .integer spec => evalInteger o cur s spec
  | .float spec => evalFloat o cur A s spec
  | .c => evalChar o cur s
  | .s => evalString o cur s
  | .p => evalPointer o cur s
  | .other => some (o.emit cur (peek s.format), s.args)

/-- The specifier. -/
def evalSpecifier (A : DoubleArith D) (s : Scan t D) :
    Option (Cursor t.bits σ × List UInt8 × List (VaArg t D)) := do
  let (cur, args) ← evalConvert o cur A s
  let format ← advance s.format
  some (cur, format, args)

/-- A conversion behind its `%`. -/
def evalConversion (A : DoubleArith D) (format : List UInt8)
    (args : List (VaArg t D)) : Option (Cursor t.bits σ × List UInt8 × List (VaArg t D)) := do
  let (flags, format) := evalFlags format {}
  let s ← evalWidth { format := format, args := args, flags := flags }
  let s ← evalPrecision s
  let s ← evalLength s
  evalSpecifier o cur A s

/-- One round of the loop of `k_vsnprintf_inner`. -/
def formatStep (A : DoubleArith D) (format : List UInt8)
    (args : List (VaArg t D)) : Option (Cursor t.bits σ × List UInt8 × List (VaArg t D)) :=
  match format with
  | [] => none
  | c :: rest =>
      if c ≠ '%'.toUInt8 then some (o.emit cur c, rest, args)
      else evalConversion o cur A rest args

/-- The loop of `k_vsnprintf_inner`. Every round takes a character of the format at least, so the
length of the format bounds the rounds. -/
def formatLoop (A : DoubleArith D) :
    Nat → Cursor t.bits σ → List UInt8 → List (VaArg t D) →
      Option (Cursor t.bits σ × List (VaArg t D))
  | _, cur, [], args => some (cur, args)
  | 0, _, _ :: _, _ => none
  | rounds + 1, cur, c :: rest, args => do
      let (cur, format, args) ← formatStep o cur A (c :: rest) args
      formatLoop A rounds cur format args

/-- `k_vsnprintf_inner`, with a buffer that is not `NULL`. -/
def kVsnprintfInner (A : DoubleArith D) (buffer : σ) (format : CStr)
    (args : List (VaArg t D)) : Option (σ × Int) := do
  let (cur, _) ← formatLoop o A format.bytes.length ⟨buffer, 0⟩ format.bytes args
  let idx := cur.idx.toNat
  -- `maxlen - 1U` wraps around when `maxlen` is zero.
  let last := if idx < o.maxlen then idx else t.wrap (o.maxlen + 2 ^ t.bits - 1)
  some (o.put 0 cur.sink last, (BitVec.ofNat 32 idx).toInt)

end Convert

end BaremetalCrt
