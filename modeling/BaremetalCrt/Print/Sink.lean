import BaremetalCrt.Library.Emission
import BaremetalCrt.Library.Loops
import BaremetalCrt.Sys.Target
import Mathlib.Data.List.GetD

/-!
# Output functions and padding

The formatter hands every character with its index to an output function: into a buffer, to the
console, or nowhere. A converted number is collected in reverse and handed over by
`k_pri_out_rev`, which fills the field up to its width.

## Implementation notes

The output function is an argument here as it is in the source, and so is the state it works on.
A function of the formatter is described by the text it hands over, the same for every output
function. A buffer on the stack is the list of the bytes stored so far; its length is `len`.
-/

namespace BaremetalCrt

open Emission

/-- The `FLAGS_*` bits. -/
structure PriFlags where
  zeropad : Bool := false
  left : Bool := false
  plus : Bool := false
  space : Bool := false
  hash : Bool := false
  uppercase : Bool := false
  char : Bool := false
  short : Bool := false
  long : Bool := false
  longLong : Bool := false
  precision : Bool := false
  adaptExp : Bool := false
deriving DecidableEq

/-- `out_fct_type`: the character, what the function works on, the index and `maxlen`. -/
abbrev OutFct (σ : Type) := UInt8 → σ → Nat → Nat → σ

/-- `k_pri_out_buffer`. -/
def kPriOutBuffer : OutFct (Nat → UInt8) := fun character buffer idx maxlen =>
  if idx < maxlen then Function.update buffer idx character else buffer

/-- `k_pri_out_null`. -/
def kPriOutNull {σ : Type} : OutFct σ := fun _ s _ _ => s

/-- `k_pri_out_char`, over what `k_putchar_nolock` does with a character. -/
def kPriOutChar {σ : Type} (kPutcharNolock : σ → UInt8 → σ) : OutFct σ := fun character s _ _ =>
  if character ≠ 0 then kPutcharNolock s character else s

/-- The output function of a call with its `maxlen`. -/
structure Output (σ : Type) where
  out : OutFct σ
  maxlen : Nat

/-- What the output function does with a character and its index. -/
def Output.put {σ : Type} (o : Output σ) (c : UInt8) (s : σ) (idx : Nat) : σ :=
  o.out c s idx o.maxlen

variable {σ : Type} {w : Nat}

/-- `out(c, buffer, idx++, maxlen)`. -/
def Output.emit (o : Output σ) (cur : Cursor w σ) (c : UInt8) : Cursor w σ :=
  Emission.emit o.put cur c

/-- The calls for the characters of a text. -/
def Output.emitText (o : Output σ) (cur : Cursor w σ) (text : List UInt8) : Cursor w σ :=
  emitAll o.put cur text

/-- A loop that hands over as many spaces. -/
def Output.spaces (o : Output σ) : Nat → Cursor w σ → Cursor w σ
  | 0, cur => cur
  | n + 1, cur => o.spaces n (o.emit cur ' '.toUInt8)

/-- `while (len) out(buf[--len], …)`. -/
def Output.reversed (o : Output σ) (buf : List UInt8) : Nat → Cursor w σ → Cursor w σ
  | 0, cur => cur
  | len + 1, cur => o.reversed buf len (o.emit cur (buf.getD len 0))

/-- `while (idx - start_idx < width) out(' ', …)`. -/
def Output.spacesTo (o : Output σ) (startIdx : BitVec w) (width : Nat) (cur : Cursor w σ) :
    Cursor w σ :=
  BoundedLoop.loop (fun cur => decide ((cur.idx - startIdx).toNat < width))
    (fun cur => o.emit cur ' '.toUInt8) width cur

/-- `k_pri_out_rev`. -/
def kPriOutRev (o : Output σ) (cur : Cursor w σ) (buf : List UInt8) (width : Nat)
    (flags : PriFlags) : Cursor w σ :=
  let startIdx := cur.idx
  let cur := if !flags.left && !flags.zeropad then o.spaces (width - buf.length) cur else cur
  let cur := o.reversed buf buf.length cur
  if flags.left then o.spacesTo startIdx width cur else cur

/-- The spaces that are missing to a width. -/
def blanks (width len : Nat) : List UInt8 := List.replicate (width - len) ' '.toUInt8

/-- The field that `k_pri_out_rev` hands over. -/
def revText (buf : List UInt8) (width : Nat) (flags : PriFlags) : List UInt8 :=
  (if !flags.left && !flags.zeropad then blanks width buf.length else []) ++ buf.reverse ++
    (if flags.left then blanks width buf.length else [])

section Text

variable (o : Output σ) (cur : Cursor w σ)

theorem emitText_nil : o.emitText cur [] = cur := rfl

theorem emitText_cons (c : UInt8) (text : List UInt8) :
    o.emitText cur (c :: text) = o.emitText (o.emit cur c) text := rfl

theorem emitText_append (xs ys : List UInt8) :
    o.emitText cur (xs ++ ys) = o.emitText (o.emitText cur xs) ys :=
  emitAll_append xs ys

theorem emit_eq_emitText (c : UInt8) : o.emit cur c = o.emitText cur [c] := rfl

theorem spaces_eq (n : Nat) :
    o.spaces n cur = o.emitText cur (List.replicate n ' '.toUInt8) := by
  induction n generalizing cur with
  | zero => rfl
  | succ n ih =>
      rw [Output.spaces, ih, List.replicate_succ]
      rfl

theorem reversed_eq (buf : List UInt8) {len : Nat} (h : len ≤ buf.length) :
    o.reversed buf len cur = o.emitText cur (buf.take len).reverse := by
  induction len generalizing cur with
  | zero => rfl
  | succ len ih =>
      have hlen : len < buf.length := h
      rw [Output.reversed, ih _ (by omega), List.take_succ_eq_append_getElem hlen,
        List.reverse_append, emitText_append, List.getD_eq_getElem buf 0 hlen]
      rfl

/-- The loop that compares indices hands over what is missing to the width. -/
theorem spacesTo_eq {text : List UInt8} {width : Nat} (hwidth : width < 2 ^ w)
    (htext : text.length < 2 ^ w) :
    o.spacesTo cur.idx width (o.emitText cur text) =
      o.emitText cur (text ++ blanks width text.length) := by
  have key : ∀ (fuel : Nat) (text : List UInt8), text.length < 2 ^ w →
      width - text.length ≤ fuel →
      BoundedLoop.loop (fun c : Cursor w σ => decide ((c.idx - cur.idx).toNat < width))
        (fun c => o.emit c ' '.toUInt8) fuel (o.emitText cur text) =
        o.emitText cur (text ++ blanks width text.length) := by
    intro fuel
    induction fuel with
    | zero =>
        intro text htext hfuel
        have hpad : blanks width text.length = [] := by
          unfold blanks
          rw [Nat.le_zero.mp hfuel]
          rfl
        rw [hpad, List.append_nil]
        rfl
    | succ fuel ih =>
        intro text htext hfuel
        have hidx : ((o.emitText cur text).idx - cur.idx).toNat = text.length :=
          emitAll_idx_sub htext
        by_cases hlt : text.length < width
        · rw [BoundedLoop.loop_of_true (by rw [hidx]; exact decide_eq_true hlt),
            emit_eq_emitText, ← emitText_append]
          have hlen : (text ++ [' '.toUInt8]).length = text.length + 1 := by simp
          rw [ih _ (by omega) (by omega), hlen, List.append_assoc]
          have hpad : blanks width text.length =
              [' '.toUInt8] ++ blanks width (text.length + 1) := by
            unfold blanks
            rw [show width - text.length = width - (text.length + 1) + 1 by omega,
              List.replicate_succ]
            rfl
          rw [hpad]
        · rw [BoundedLoop.loop_of_false (by rw [hidx]; exact decide_eq_false hlt)]
          have hpad : blanks width text.length = [] := by
            unfold blanks
            rw [Nat.sub_eq_zero_of_le (Nat.le_of_not_lt hlt)]
            rfl
          rw [hpad, List.append_nil]
  exact key width text htext (Nat.sub_le _ _)

/-- `k_pri_out_rev` hands over the padded field. -/
theorem kPriOutRev_eq {buf : List UInt8} {width : Nat} (flags : PriFlags) (hwidth : width < 2 ^ w)
    (hbuf : buf.length < 2 ^ w) :
    kPriOutRev o cur buf width flags = o.emitText cur (revText buf width flags) := by
  simp only [kPriOutRev, revText, reversed_eq o _ buf (Nat.le_refl _), List.take_length]
  cases hleft : flags.left with
  | false =>
      cases flags.zeropad with
      | false => simp [spaces_eq, blanks, emitText_append]
      | true => simp
  | true =>
      have hrev : buf.reverse.length < 2 ^ w := by rwa [List.length_reverse]
      simpa using spacesTo_eq o cur hwidth hrev

end Text

theorem blanks_length (width len : Nat) : (blanks width len).length = width - len :=
  List.length_replicate

/-- The field has its width, unless its zeros were to fill it. -/
theorem revText_length (buf : List UInt8) (width : Nat) (flags : PriFlags) :
    (revText buf width flags).length =
      if flags.left ∨ flags.zeropad = false then max width buf.length else buf.length := by
  unfold revText
  cases flags.left with
  | true =>
      simp only [blanks_length, Bool.not_true, Bool.false_and, Bool.false_eq_true, if_false,
        List.nil_append, if_true, List.length_append, List.length_reverse, true_or]
      omega
  | false =>
      cases flags.zeropad with
      | true => simp
      | false =>
          simp only [blanks_length, Bool.not_false, Bool.and_self, if_true, Bool.false_eq_true,
            if_false, List.append_nil, List.length_append, List.length_reverse, false_or]
          omega

theorem revText_length_le (buf : List UInt8) (width : Nat) (flags : PriFlags) :
    (revText buf width flags).length ≤ max width buf.length := by
  rw [revText_length]
  split
  · exact Nat.le_refl _
  · exact Nat.le_max_right _ _

end BaremetalCrt
