import BaremetalCrt.Print.Sink
import Mathlib.Data.Nat.Digits.Lemmas

/-!
# Conversion of integers

`_ntoa_long` and `_ntoa_long_long` store the digits of a number in a buffer of 32 bytes, the
lowest digit first; `_ntoa_format` adds zeros, the mark of the base and the sign, and hands the
buffer over in reverse.

## Implementation notes

A store outside the buffer makes the conversion undefined, which is `none`. What the buffer holds
in the end is told by the digits that are left, the marks of the base that find room and the sign.
-/

namespace BaremetalCrt

open Emission

/-- `PRINTF_NTOA_BUFFER_SIZE`. -/
def printfNtoaBufferSize : Nat := 32

/-- `buf[len++] = c`, with a buffer of `size` bytes. -/
def storeChar (size : Nat) (buf : List UInt8) (c : UInt8) : Option (List UInt8) :=
  if buf.length < size then some (buf ++ [c]) else none

/-- The character of a digit. -/
def digitChar (uppercase : Bool) (digit : Nat) : UInt8 :=
  if digit < 10 then '0'.toUInt8 + UInt8.ofNat digit
  else (if uppercase then 'A'.toUInt8 else 'a'.toUInt8) + UInt8.ofNat digit - 10

/-- The loop over the digits of a value. The first argument bounds the iterations. -/
def digitLoop (base : Nat) (uppercase : Bool) : Nat → Nat → List UInt8 → Option (List UInt8)
  | 0, _, _ => none
  | fuel + 1, value, buf => do
      let buf ← storeChar printfNtoaBufferSize buf (digitChar uppercase (value % base))
      let value := value / base
      if value ≠ 0 ∧ buf.length < printfNtoaBufferSize then digitLoop base uppercase fuel value buf
      else some buf

/-- `while ((len < limit) && (len < size)) buf[len++] = '0'`. The first argument bounds the
iterations. -/
def zerosTo (size limit : Nat) : Nat → List UInt8 → Option (List UInt8)
  | 0, buf => some buf
  | fuel + 1, buf =>
      if buf.length < limit ∧ buf.length < size then do
        let buf ← storeChar size buf '0'.toUInt8
        zerosTo size limit fuel buf
      else some buf

/-- The digits of a value: none of a zero with a precision. -/
def storeDigits (base value : Nat) (flags : PriFlags) : Option (List UInt8) :=
  if !flags.precision ∨ value ≠ 0 then
    digitLoop base flags.uppercase printfNtoaBufferSize value []
  else some []

/-- The leading zeros of a field that is not left-aligned. -/
def storeZeros (prec width : Nat) (flags : PriFlags) (buf : List UInt8) : Option (List UInt8) :=
  if flags.left then some buf
  else do
    let buf ← zerosTo printfNtoaBufferSize prec printfNtoaBufferSize buf
    if flags.zeropad then zerosTo printfNtoaBufferSize width printfNtoaBufferSize buf
    else some buf

/-- The mark of the base takes the place of the last characters of a full field. -/
def hashRoom (base prec width : Nat) (flags : PriFlags) (buf : List UInt8) : List UInt8 :=
  if !flags.precision ∧ buf.length ≠ 0 ∧ (buf.length = prec ∨ buf.length = width) then
    let buf := buf.dropLast
    if buf.length ≠ 0 ∧ base = 16 then buf.dropLast else buf
  else buf

/-- The letter of the base. -/
def storeBase (base : Nat) (flags : PriFlags) (buf : List UInt8) : Option (List UInt8) :=
  let size := printfNtoaBufferSize
  if base = 16 ∧ !flags.uppercase ∧ buf.length < size then storeChar size buf 'x'.toUInt8
  else if base = 16 ∧ flags.uppercase ∧ buf.length < size then storeChar size buf 'X'.toUInt8
  else if base = 2 ∧ buf.length < size then storeChar size buf 'b'.toUInt8
  else some buf

/-- The mark of the base under `FLAGS_HASH`. -/
def storeHash (base prec width : Nat) (flags : PriFlags) (buf : List UInt8) :
    Option (List UInt8) :=
  if flags.hash then do
    let buf ← storeBase base flags (hashRoom base prec width flags buf)
    if buf.length < printfNtoaBufferSize then
      storeChar printfNtoaBufferSize buf '0'.toUInt8
    else some buf
  else some buf

/-- The sign in front of a number. -/
def storeSign (size : Nat) (negative : Bool) (flags : PriFlags) (buf : List UInt8) :
    Option (List UInt8) :=
  if buf.length < size then
    if negative then storeChar size buf '-'.toUInt8
    else if flags.plus then storeChar size buf '+'.toUInt8
    else if flags.space then storeChar size buf ' '.toUInt8
    else some buf
  else some buf

/-- Zero padding leaves room for a sign: the width that is left for the zeros. -/
def signedWidth (width : Nat) (negative : Bool) (flags : PriFlags) : Nat :=
  if width ≠ 0 ∧ flags.zeropad ∧ (negative || flags.plus || flags.space) then width - 1 else width

/-- The width that `k_pri_out_rev` is called with. -/
def outWidth (width : Nat) (negative : Bool) (flags : PriFlags) : Nat :=
  if flags.left then width else signedWidth width negative flags

section Code

variable {σ : Type} {w : Nat}

/-- `_ntoa_format`. -/
def ntoaFormat (o : Output σ) (cur : Cursor w σ) (buf : List UInt8) (negative : Bool)
    (base prec width : Nat) (flags : PriFlags) : Option (Cursor w σ) := do
  let width := outWidth width negative flags
  let buf ← storeZeros prec width flags buf
  let buf ← storeHash base prec width flags buf
  let buf ← storeSign printfNtoaBufferSize negative flags buf
  some (kPriOutRev o cur buf width flags)

/-- The body that `_ntoa_long` and `_ntoa_long_long` share. -/
def ntoa (o : Output σ) (cur : Cursor w σ) (value : Nat) (negative : Bool)
    (base prec width : Nat) (flags : PriFlags) : Option (Cursor w σ) := do
  -- There is no mark of the base in front of a zero.
  let flags := if value = 0 then { flags with hash := false } else flags
  let buf ← storeDigits base value flags
  ntoaFormat o cur buf negative base prec width flags

/-- `_ntoa_long`. -/
def ntoaLong (o : Output σ) (cur : Cursor w σ) (value : Nat) (negative : Bool)
    (base prec width : Nat) (flags : PriFlags) : Option (Cursor w σ) :=
  ntoa o cur value negative base prec width flags

/-- `_ntoa_long_long`. -/
def ntoaLongLong (o : Output σ) (cur : Cursor w σ) (value : Nat) (negative : Bool)
    (base prec width : Nat) (flags : PriFlags) : Option (Cursor w σ) :=
  ntoa o cur value negative base prec width flags

end Code

section Buffer

/-- The digits that the loop stores, the lowest first. -/
def storedDigits (base value : Nat) (flags : PriFlags) : List Nat :=
  if value = 0 then if flags.precision then [] else [0]
  else (Nat.digits base value).take printfNtoaBufferSize

/-- The length that zeros fill the digits up to. -/
def zeroFill (prec width : Nat) (negative : Bool) (flags : PriFlags) : Nat :=
  if flags.left then 0
  else
    min printfNtoaBufferSize
      (max prec (if flags.zeropad then signedWidth width negative flags else 0))

/-- The digits with the zeros in front of them. -/
def paddedDigits (base value prec width : Nat) (negative : Bool) (flags : PriFlags) : List Nat :=
  let ds := storedDigits base value flags
  ds ++ List.replicate (zeroFill prec width negative flags - ds.length) 0

/-- The mark of the base makes room for itself: the digits it takes off. -/
def hashTaken (base value prec width : Nat) (negative : Bool) (flags : PriFlags) : Nat :=
  let len := (paddedDigits base value prec width negative flags).length
  if flags.hash ∧ value ≠ 0 ∧ !flags.precision ∧ len ≠ 0 ∧
      (len = prec ∨ len = outWidth width negative flags) then
    if 1 < len ∧ base = 16 then 2 else 1
  else 0

/-- The digits that are left in the buffer. -/
def keptDigits (base value prec width : Nat) (negative : Bool) (flags : PriFlags) : List Nat :=
  let ds := paddedDigits base value prec width negative flags
  ds.take (ds.length - hashTaken base value prec width negative flags)

/-- The mark of the base in the order of its stores. -/
def hashMark (base : Nat) (flags : PriFlags) : List UInt8 :=
  (if base = 16 then [if flags.uppercase then 'X'.toUInt8 else 'x'.toUInt8]
    else if base = 2 then ['b'.toUInt8] else []) ++ ['0'.toUInt8]

/-- The sign of a number. -/
def signMark (negative : Bool) (flags : PriFlags) : List UInt8 :=
  if negative then ['-'.toUInt8] else if flags.plus then ['+'.toUInt8]
  else if flags.space then [' '.toUInt8] else []

/-- What the buffer of a conversion holds in the end: of the marks as many as find room. -/
def ntoaBuffer (base value prec width : Nat) (negative : Bool) (flags : PriFlags) : List UInt8 :=
  let ds := (keptDigits base value prec width negative flags).map (digitChar flags.uppercase)
  let marked := ds ++ if flags.hash ∧ value ≠ 0 then hashMark base flags else []
  (marked.take printfNtoaBufferSize ++ signMark negative flags).take printfNtoaBufferSize

/-- The text of a conversion. -/
def ntoaText (base value prec width : Nat) (negative : Bool) (flags : PriFlags) : List UInt8 :=
  revText (ntoaBuffer base value prec width negative flags) (outWidth width negative flags) flags

end Buffer

section Lemmas

theorem storeChar_of_lt {size : Nat} {buf : List UInt8} (h : buf.length < size) (c : UInt8) :
    storeChar size buf c = some (buf ++ [c]) :=
  if_pos h

theorem digitChar_zero (uppercase : Bool) : digitChar uppercase 0 = '0'.toUInt8 := rfl

theorem zerosTo_eq (size limit : Nat) {fuel : Nat} {buf : List UInt8}
    (hfuel : size ≤ fuel + buf.length) :
    zerosTo size limit fuel buf =
      some (buf ++ List.replicate (min size limit - buf.length) '0'.toUInt8) := by
  induction fuel generalizing buf with
  | zero =>
      rw [show min size limit - buf.length = 0 by omega]
      simp [zerosTo]
  | succ fuel ih =>
      rw [zerosTo]
      by_cases hlt : buf.length < limit ∧ buf.length < size
      · have hlen : (buf ++ ['0'.toUInt8]).length = buf.length + 1 := by simp
        rw [if_pos hlt, storeChar_of_lt hlt.2]
        change zerosTo size limit fuel (buf ++ ['0'.toUInt8]) = _
        rw [ih (by omega), hlen,
          show min size limit - buf.length = min size limit - (buf.length + 1) + 1 by omega,
          List.replicate_succ, List.append_assoc]
        rfl
      · rw [if_neg hlt, show min size limit - buf.length = 0 by omega]
        simp

/-- The loop stores the digits of the value as far as the buffer goes. -/
theorem digitLoop_eq {base : Nat} (hbase : 1 < base) (uppercase : Bool) {fuel value : Nat}
    {buf : List UInt8} (hvalue : value ≠ 0) (hbuf : buf.length < printfNtoaBufferSize)
    (hfuel : printfNtoaBufferSize ≤ fuel + buf.length) :
    digitLoop base uppercase fuel value buf =
      some (buf ++ ((Nat.digits base value).take (printfNtoaBufferSize - buf.length)).map
        (digitChar uppercase)) := by
  induction fuel generalizing value buf with
  | zero => omega
  | succ fuel ih =>
      have hlen (c : UInt8) : (buf ++ [c]).length = buf.length + 1 := by simp
      rw [digitLoop, storeChar_of_lt hbuf, Nat.digits_def' hbase (Nat.pos_of_ne_zero hvalue),
        show printfNtoaBufferSize - buf.length = printfNtoaBufferSize - (buf.length + 1) + 1 by
          omega,
        List.take_succ_cons, List.map_cons]
      simp only [Option.bind_eq_bind, Option.bind_some, hlen]
      by_cases hnext : value / base ≠ 0 ∧ buf.length + 1 < printfNtoaBufferSize
      · rw [if_pos hnext, ih hnext.1 (by rw [hlen]; exact hnext.2) (by rw [hlen]; omega), hlen,
          List.append_assoc]
        rfl
      · -- Either the value is used up or the buffer is full.
        have hrest : (Nat.digits base (value / base)).take
            (printfNtoaBufferSize - (buf.length + 1)) = [] := by
          by_cases hq : value / base = 0
          · rw [hq, Nat.digits_zero, List.take_nil]
          · rw [show printfNtoaBufferSize - (buf.length + 1) = 0 by omega, List.take_zero]
        rw [if_neg hnext, hrest]
        rfl

/-- The digits of a conversion in the buffer. -/
theorem storeDigits_eq {base : Nat} (hbase : 1 < base) (value : Nat) (flags : PriFlags) :
    storeDigits base value flags =
      some ((storedDigits base value flags).map (digitChar flags.uppercase)) := by
  unfold storeDigits
  by_cases hvalue : value = 0
  · subst hvalue
    unfold storedDigits
    cases flags.precision with
    | false =>
        have hdigit : 0 % base = 0 := Nat.zero_mod base
        have hquot : 0 / base = 0 := Nat.zero_div base
        simp [digitLoop, storeChar, printfNtoaBufferSize, hdigit, hquot]
    | true => simp
  · rw [if_pos (Or.inr hvalue), digitLoop_eq hbase _ hvalue (by decide) (by decide)]
    simp [storedDigits, hvalue]

end Lemmas

section Format

/-- A store that is made when there is room. -/
theorem store_if_room {size : Nat} {buf : List UInt8} (h : buf.length ≤ size) (c : UInt8) :
    (if buf.length < size then storeChar size buf c else some buf) =
      some ((buf ++ [c]).take size) := by
  by_cases hlt : buf.length < size
  · rw [if_pos hlt, storeChar_of_lt hlt, List.take_of_length_le (by simpa using hlt)]
  · rw [if_neg hlt, List.take_append_of_le_length (by omega), List.take_of_length_le h]

theorem storeSign_eq {size : Nat} {buf : List UInt8} (h : buf.length ≤ size) (negative : Bool)
    (flags : PriFlags) :
    storeSign size negative flags buf = some ((buf ++ signMark negative flags).take size) := by
  unfold storeSign signMark
  cases negative with
  | true => simpa using store_if_room h '-'.toUInt8
  | false =>
      cases flags.plus with
      | true => simpa using store_if_room h '+'.toUInt8
      | false =>
          cases flags.space with
          | true => simpa using store_if_room h ' '.toUInt8
          | false => simp [List.take_of_length_le h]

variable (base value prec width : Nat) (negative : Bool) (flags : PriFlags)

theorem storedDigits_length_le :
    (storedDigits base value flags).length ≤ printfNtoaBufferSize := by
  unfold storedDigits
  by_cases hvalue : value = 0
  · rw [if_pos hvalue]
    cases flags.precision with
    | false => decide
    | true => decide
  · rw [if_neg hvalue]
    exact List.length_take_le _ _

theorem zeroFill_le : zeroFill prec width negative flags ≤ printfNtoaBufferSize := by
  unfold zeroFill
  split
  · exact Nat.zero_le _
  · exact Nat.min_le_left _ _

theorem paddedDigits_length_le :
    (paddedDigits base value prec width negative flags).length ≤ printfNtoaBufferSize := by
  have hds := storedDigits_length_le base value flags
  have hfill := zeroFill_le prec width negative flags
  simp only [paddedDigits, List.length_append, List.length_replicate]
  omega

/-- The two loops that store zeros. -/
theorem storeZeros_eq :
    storeZeros prec (outWidth width negative flags) flags
      ((storedDigits base value flags).map (digitChar flags.uppercase)) =
      some ((paddedDigits base value prec width negative flags).map
        (digitChar flags.uppercase)) := by
  unfold storeZeros paddedDigits zeroFill outWidth
  generalize storedDigits base value flags = ds
  generalize signedWidth width negative flags = signed
  cases flags.left with
  | true => simp
  | false =>
      have hzeros (n : Nat) : (List.replicate n 0).map (digitChar flags.uppercase) =
          List.replicate n '0'.toUInt8 := by
        rw [List.map_replicate, digitChar_zero]
      cases flags.zeropad with
      | false => simp [zerosTo_eq _ prec (Nat.le_add_right _ _), hzeros]
      | true =>
          simp only [Bool.false_eq_true, if_false, if_true, Option.bind_eq_bind,
            zerosTo_eq _ _ (Nat.le_add_right _ _), Option.bind_some, List.map_append, hzeros,
            List.length_append, List.length_map, List.length_replicate, List.append_assoc,
            List.replicate_append_replicate]
          congr 4
          omega

/-- Filling up a list that was already cut is cutting the longer list. -/
theorem take_append_take {α : Type} (n : Nat) (xs ys : List α) :
    (xs.take n ++ ys).take n = (xs ++ ys).take n := by
  rw [List.take_append, List.take_append, List.take_take, Nat.min_self, List.length_take]
  congr 2
  omega

/-- The mark of the base is stored as far as there is room. -/
theorem storeBase_eq {buf : List UInt8} (h : buf.length ≤ printfNtoaBufferSize) :
    ((storeBase base flags buf).bind fun buf =>
      if buf.length < printfNtoaBufferSize then storeChar printfNtoaBufferSize buf '0'.toUInt8
      else some buf) =
      some ((buf ++ hashMark base flags).take printfNtoaBufferSize) := by
  have hroom (c : UInt8) :
      ((if buf.length < printfNtoaBufferSize then storeChar printfNtoaBufferSize buf c
        else some buf).bind fun buf =>
        if buf.length < printfNtoaBufferSize then storeChar printfNtoaBufferSize buf '0'.toUInt8
        else some buf) =
        some ((buf ++ ([c] ++ ['0'.toUInt8])).take printfNtoaBufferSize) := by
    rw [store_if_room h, Option.bind_some, store_if_room (List.length_take_le _ _),
      take_append_take, List.append_assoc]
  unfold storeBase hashMark
  by_cases hsixteen : base = 16
  · cases flags.uppercase with
    | false => simpa [hsixteen] using hroom 'x'.toUInt8
    | true => simpa [hsixteen] using hroom 'X'.toUInt8
  · by_cases htwo : base = 2
    · simpa [htwo] using hroom 'b'.toUInt8
    · simpa [hsixteen, htwo] using store_if_room h '0'.toUInt8

/-- What the mark of the base takes off the digits. -/
theorem hashRoom_eq (hvalue : value ≠ 0) (hhash : flags.hash = true) (f : Nat → UInt8) :
    hashRoom base prec (outWidth width negative flags) flags
      ((paddedDigits base value prec width negative flags).map f) =
      (keptDigits base value prec width negative flags).map f := by
  unfold hashRoom keptDigits hashTaken
  generalize paddedDigits base value prec width negative flags = ds
  simp only [List.length_map, List.dropLast_eq_take, List.length_take, List.take_take,
    ← List.map_take]
  by_cases htake : !flags.precision ∧ ds.length ≠ 0 ∧
      (ds.length = prec ∨ ds.length = outWidth width negative flags)
  · have hall : flags.hash = true ∧ value ≠ 0 ∧ !flags.precision ∧ ds.length ≠ 0 ∧
        (ds.length = prec ∨ ds.length = outWidth width negative flags) := ⟨hhash, hvalue, htake⟩
    rw [if_pos htake, if_pos hall]
    by_cases htwo : 1 < ds.length ∧ base = 16
    · have hlen : min (ds.length - 1) ds.length ≠ 0 ∧ base = 16 := ⟨by omega, htwo.2⟩
      rw [if_pos htwo, if_pos hlen]
      congr 2
      omega
    · have hlen : ¬(min (ds.length - 1) ds.length ≠ 0 ∧ base = 16) :=
        fun h => htwo ⟨by omega, h.2⟩
      rw [if_neg htwo, if_neg hlen]
  · have hall : ¬(flags.hash = true ∧ value ≠ 0 ∧ !flags.precision ∧ ds.length ≠ 0 ∧
        (ds.length = prec ∨ ds.length = outWidth width negative flags)) := fun h => htake h.2.2
    rw [if_neg htake, if_neg hall, Nat.sub_zero, List.take_length]

theorem keptDigits_length_le :
    (keptDigits base value prec width negative flags).length ≤ printfNtoaBufferSize :=
  Nat.le_trans (List.length_take_le' _ _) (paddedDigits_length_le ..)

/-- The mark of the base replaces what it takes off the digits. -/
theorem storeHash_eq (hvalue : value ≠ 0) (hhash : flags.hash = true) :
    storeHash base prec (outWidth width negative flags) flags
      ((paddedDigits base value prec width negative flags).map (digitChar flags.uppercase)) =
      some (((keptDigits base value prec width negative flags).map (digitChar flags.uppercase) ++
        hashMark base flags).take printfNtoaBufferSize) := by
  unfold storeHash
  rw [if_pos hhash, hashRoom_eq base value prec width negative flags hvalue hhash]
  apply storeBase_eq
  rw [List.length_map]
  exact keptDigits_length_le base value prec width negative flags

/-- Without a mark all digits are kept. -/
theorem keptDigits_of_no_hash (h : ¬(flags.hash = true ∧ value ≠ 0)) :
    keptDigits base value prec width negative flags =
      paddedDigits base value prec width negative flags := by
  have htaken : hashTaken base value prec width negative flags = 0 :=
    if_neg (fun hall => h ⟨hall.1, hall.2.1⟩)
  simp only [keptDigits, htaken, Nat.sub_zero, List.take_length]

variable {σ : Type} {w : Nat} (o : Output σ) (cur : Cursor w σ)

/-- The buffer without a mark of the base. -/
theorem ntoaBuffer_of_no_hash (h : ¬(flags.hash = true ∧ value ≠ 0)) :
    ntoaBuffer base value prec width negative flags =
      ((paddedDigits base value prec width negative flags).map (digitChar flags.uppercase) ++
        signMark negative flags).take printfNtoaBufferSize := by
  have hlen : ((paddedDigits base value prec width negative flags).map
      (digitChar flags.uppercase)).length ≤ printfNtoaBufferSize := by
    rw [List.length_map]
    exact paddedDigits_length_le base value prec width negative flags
  simp only [ntoaBuffer, keptDigits_of_no_hash _ _ _ _ _ _ h, if_neg h, List.append_nil,
    List.take_of_length_le hlen]

theorem ntoaBuffer_length_le :
    (ntoaBuffer base value prec width negative flags).length ≤ printfNtoaBufferSize :=
  List.length_take_le _ _

theorem outWidth_le : outWidth width negative flags ≤ width := by
  unfold outWidth signedWidth
  split
  · exact Nat.le_refl _
  · split
    · exact Nat.sub_le _ _
    · exact Nat.le_refl _

/-- The steps of `_ntoa_format` behind the digits, with the mark of the base only where the value
is not zero. -/
theorem ntoaFormat_eq (hhash : flags.hash = true → value ≠ 0) (hw : printfNtoaBufferSize < 2 ^ w)
    (hwidth : width < 2 ^ w) :
    ntoaFormat o cur ((storedDigits base value flags).map (digitChar flags.uppercase)) negative
      base prec width flags =
      some (o.emitText cur (ntoaText base value prec width negative flags)) := by
  have hout : outWidth width negative flags < 2 ^ w :=
    Nat.lt_of_le_of_lt (outWidth_le width negative flags) hwidth
  have hrev := kPriOutRev_eq o cur flags hout
    (Nat.lt_of_le_of_lt (ntoaBuffer_length_le base value prec width negative flags) hw)
  simp only [ntoaFormat, storeZeros_eq, Option.bind_eq_bind, Option.bind_some]
  by_cases hset : flags.hash = true
  · have hboth : flags.hash = true ∧ value ≠ 0 := ⟨hset, hhash hset⟩
    rw [storeHash_eq base value prec width negative flags (hhash hset) hset, Option.bind_some,
      storeSign_eq (List.length_take_le _ _), Option.bind_some]
    unfold ntoaText
    rw [← hrev]
    simp only [ntoaBuffer, if_pos hboth]
  · have hno : ¬(flags.hash = true ∧ value ≠ 0) := fun h => hset h.1
    have hlen : ((paddedDigits base value prec width negative flags).map
        (digitChar flags.uppercase)).length ≤ printfNtoaBufferSize := by
      rw [List.length_map]
      exact paddedDigits_length_le base value prec width negative flags
    rw [storeHash, if_neg hset, Option.bind_some, storeSign_eq hlen, Option.bind_some,
      ← ntoaBuffer_of_no_hash _ _ _ _ _ _ hno]
    unfold ntoaText
    rw [← hrev]

/-- No conversion stores outside its buffer, and what it hands over is its text. -/
theorem ntoa_eq (hbase : 1 < base) (hw : printfNtoaBufferSize < 2 ^ w) (hwidth : width < 2 ^ w) :
    ntoa o cur value negative base prec width flags =
      some (o.emitText cur (ntoaText base value prec width negative flags)) := by
  simp only [ntoa, storeDigits_eq hbase, Option.bind_eq_bind, Option.bind_some]
  by_cases hvalue : value = 0
  · rw [if_pos hvalue, ntoaFormat_eq _ _ _ _ _ _ _ _ (by simp) hw hwidth]
    have hno : ¬(flags.hash = true ∧ value ≠ 0) := fun h => h.2 hvalue
    have hsame : ntoaBuffer base value prec width negative { flags with hash := false } =
        ntoaBuffer base value prec width negative flags := by
      rw [ntoaBuffer_of_no_hash _ _ _ _ _ _ hno, ntoaBuffer_of_no_hash _ _ _ _ _ _ (by simp)]
      rfl
    unfold ntoaText
    rw [hsame]
    rfl
  · rw [if_neg hvalue, ntoaFormat_eq _ _ _ _ _ _ _ _ (fun _ => hvalue) hw hwidth]

end Format

end BaremetalCrt
