import BaremetalCrt.Print.Pieces

/-!
# Printing into a buffer and onto the console

`k_vsnprintf_nolock` and `k_vprintf_nolock` run the formatter with an output function of their
own. What they leave is told from the text of the format alone.

## Implementation notes

A buffer is the memory from its address on, a function of the offset; `NULL` is `none`. The
console is a state that `k_putchar_nolock` changes.
-/

namespace BaremetalCrt

open Emission

section Calls

variable {t : Target} {D : Type} (A : DoubleArith D)

/-- `k_vsnprintf_nolock`. With `NULL` the inner function takes `k_pri_out_null`. -/
def kVsnprintfNolock (buffer : Option (Nat → UInt8)) (count : Nat) (format : CStr)
    (args : List (VaArg t D)) : Option (Option (Nat → UInt8) × Int) :=
  match buffer with
  | none => (kVsnprintfInner ⟨kPriOutNull, count⟩ A () format args).map fun r => (none, r.2)
  | some buffer =>
      (kVsnprintfInner ⟨kPriOutBuffer, count⟩ A buffer format args).map fun r => (some r.1, r.2)

/-- `k_vprintf_nolock`, over what `k_putchar_nolock` does with a character. -/
def kVprintfNolock {σ : Type} (kPutcharNolock : σ → UInt8 → σ) (console : σ) (format : CStr)
    (args : List (VaArg t D)) : Option (σ × Int) :=
  kVsnprintfInner ⟨kPriOutChar kPutcharNolock, 2 ^ t.bits - 1⟩ A console format args

end Calls

section Inner

variable {t : Target} {D : Type} (A : DoubleArith D) {σ : Type} (o : Output σ)

/-- The number that a call returns for a text. -/
def returned (text : List UInt8) : Int := (BitVec.ofNat 32 text.length).toInt

/-- The index at which the terminating zero is handed over. -/
def lastIndex (t : Target) (maxlen idx : Nat) : Nat :=
  if idx < maxlen then idx else t.wrap (maxlen + 2 ^ t.bits - 1)

theorem emitText_idx_toNat (buffer : σ) (text : List UInt8) :
    (o.emitText (⟨buffer, 0⟩ : Cursor t.bits σ) text).idx.toNat = text.length % 2 ^ t.bits := by
  have hidx : (o.emitText (⟨buffer, 0⟩ : Cursor t.bits σ) text).idx =
      0 + BitVec.ofNat t.bits text.length := emitAll_idx text
  rw [hidx, show (0 : BitVec t.bits) = 0#t.bits from rfl, BitVec.zero_add, BitVec.toNat_ofNat]

theorem ofNat_mod_word (t : Target) (n : Nat) :
    BitVec.ofNat 32 (n % 2 ^ t.bits) = BitVec.ofNat 32 n := by
  apply BitVec.eq_of_toNat_eq
  rw [BitVec.toNat_ofNat, BitVec.toNat_ofNat]
  rcases t.bits_cases with h | h
  · rw [h, Nat.mod_mod]
  · rw [h]
    exact Nat.mod_mod_of_dvd n (by decide)

/-- The inner function hands over the text of the format, then a zero. -/
theorem kVsnprintfInner_eq (buffer : σ) (format : CStr) (args : List (VaArg t D)) :
    kVsnprintfInner o A buffer format args =
      (formatText A format.bytes args).map fun p =>
        (o.put 0 (o.emitText (⟨buffer, 0⟩ : Cursor t.bits σ) p.1).sink
          (lastIndex t o.maxlen (p.1.length % 2 ^ t.bits)), returned p.1) := by
  simp only [kVsnprintfInner, formatLoop_eq_formatText]
  cases formatText A format.bytes args with
  | none => rfl
  | some p =>
      simp only [Option.map_some, handOver, Option.bind_eq_bind, Option.bind_some,
        emitText_idx_toNat, ofNat_mod_word, lastIndex, returned]

end Inner

section Buffer

variable {t : Target} {D : Type} (A : DoubleArith D)

end Buffer

section Console

variable {t : Target} {D : Type} (A : DoubleArith D) {σ : Type}

/-- The console gets the characters of the text in order, without the zeros that `%c` can put into
it, and the number returned is that of a call with a buffer. -/
theorem kVprintfNolock_eq_filter (kPutcharNolock : σ → UInt8 → σ) (console : σ) (format : CStr)
    (args : List (VaArg t D)) :
    kVprintfNolock A kPutcharNolock console format args =
      (formatText A format.bytes args).map fun p =>
        ((p.1.filter (· ≠ 0)).foldl kPutcharNolock console, returned p.1) := by
  have hrun (text : List UInt8) : (Output.emitText ⟨kPriOutChar kPutcharNolock, 2 ^ t.bits - 1⟩
      (⟨console, 0⟩ : Cursor t.bits σ) text).sink =
        text.foldl (fun s c => if c ≠ 0 then kPutcharNolock s c else s) console :=
    emitAll_sink (fun s c => if c ≠ 0 then kPutcharNolock s c else s) text
  have hzero (s : σ) (idx : Nat) :
      Output.put ⟨kPriOutChar kPutcharNolock, 2 ^ t.bits - 1⟩ 0 s idx = s := rfl
  simp only [kVprintfNolock, kVsnprintfInner_eq, hrun, hzero, List.foldl_filter,
    decide_eq_true_eq]

end Console

end BaremetalCrt
