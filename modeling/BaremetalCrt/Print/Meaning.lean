import BaremetalCrt.Print.Format

/-!
# What a conversion prints

Every conversion has a text that depends on its fields and its arguments alone. The functions of
the formatter hand over these texts, whatever the output function is.
-/

namespace BaremetalCrt

open Emission

section Recorder

/-- An output function that collects the characters. -/
def recorder : Output (List UInt8) := ⟨fun c s _ _ => s ++ [c], 0⟩

theorem recorder_emitText {w : Nat} (cur : Cursor w (List UInt8)) (text : List UInt8) :
    (recorder.emitText cur text).sink = cur.sink ++ text := by
  have hfold : (recorder.emitText cur text).sink =
      text.foldl (fun s c => s ++ [c]) cur.sink :=
    emitAll_sink (fun s c => s ++ [c]) text
  rw [hfold]
  induction text generalizing cur with
  | nil => simp
  | cons c text ih =>
      have := ih (recorder.emit cur c) (emitAll_sink (fun s c => s ++ [c]) text)
      simpa [recorder, Output.emit, emit, Output.put] using this

/-- What the collecting output function gets is what every output function gets. -/
theorem recorded_eq {w : Nat}
    {run : ∀ {σ : Type}, Output σ → Cursor w σ → Option (Cursor w σ)} {r : Option (List UInt8)}
    (h : ∀ {σ : Type} (o : Output σ) (cur : Cursor w σ), run o cur = r.map (o.emitText cur)) :
    (run recorder ⟨[], 0⟩).map Cursor.sink = r := by
  rw [h, Option.map_map]
  cases r with
  | none => rfl
  | some text =>
      simp only [Option.map_some, Function.comp]
      rw [recorder_emitText]
      rfl

end Recorder

section Texts

variable {t : Target} {D : Type}

theorem Target.lt_word (t : Target) {n : Nat} (h : n < 2 ^ 32) : n < 2 ^ t.bits :=
  Nat.lt_of_lt_of_le h t.word_ge

theorem ntoaBufferSize_lt_word (t : Target) : printfNtoaBufferSize < 2 ^ t.bits :=
  t.lt_word (by decide)

theorem IntSpec.one_lt_base (spec : IntSpec) : 1 < spec.base := by
  cases spec with
  | _ => decide

/-- The text of an integer conversion. -/
def integerText (s : Scan t D) (spec : IntSpec) : Option (List UInt8 × List (VaArg t D)) :=
  (vaInteger spec (spec.flags s.flags) s.args).map fun r =>
    (ntoaText spec.base r.1.natAbs s.precision s.width (r.1 < 0) (spec.flags s.flags), r.2)

/-- A text in a field of a width, on the side that the flags say. -/
def fieldText (flags : PriFlags) (width : Nat) (text : List UInt8) (len : Nat) : List UInt8 :=
  if flags.left then text ++ blanks width len else blanks width len ++ text

/-- The text of `%c`. -/
def charText (s : Scan t D) : Option (List UInt8 × List (VaArg t D)) :=
  (vaInt s.args).map fun r => (fieldText s.flags s.width [UInt8.ofNat r.1.toNat] 1, r.2)

/-- The characters of a string up to a limit; none if the string ends before the object does not
say so. -/
def stringChars : List UInt8 → Option Nat → Option (List UInt8)
  | [], _ => none
  | c :: rest, limit =>
      if c = 0 then some []
      else
        match limit with
        | none => (stringChars rest none).map (c :: ·)
        | some 0 => some []
        | some (n + 1) => (stringChars rest (some n)).map (c :: ·)

/-- The text of `%s`. -/
def stringText (s : Scan t D) : Option (List UInt8 × List (VaArg t D)) := do
  let ((_, object), args) ← vaPointer s.args
  let len ← strnlenS object (if s.precision ≠ 0 then s.precision else 2 ^ t.bits - 1)
  let l := len % 2 ^ 32
  let l := if s.flags.precision then min l s.precision else l
  let text ← stringChars object (if s.flags.precision then some s.precision else none)
  some (fieldText s.flags s.width text l, args)

/-- The text of `%p`. -/
def pointerText (s : Scan t D) : Option (List UInt8 × List (VaArg t D)) :=
  (vaPointer s.args).map fun r =>
    (ntoaText 16 r.1.1.toNat s.precision (t.bits / 8 * 2) false
      { s.flags with zeropad := true, uppercase := true }, r.2)

variable {σ : Type} (o : Output σ) (cur : Cursor t.bits σ)

/-- A text and what comes with it, the text handed over. -/
def handOver {β : Type} (p : List UInt8 × β) : Cursor t.bits σ × β := (o.emitText cur p.1, p.2)

/-- The conversions of the two types are the same. -/
theorem ntoa_of_type {w : Nat} (o : Output σ) (isLongLong : Prop) [Decidable isLongLong] :
    (if isLongLong then ntoaLongLong o else ntoaLong o) = ntoa (w := w) o := by
  split
  · rfl
  · rfl

theorem evalInteger_eq {s : Scan t D} (spec : IntSpec) (hwidth : s.width < 2 ^ 32) :
    evalInteger o cur s spec = (integerText s spec).map (handOver o cur) := by
  have hntoa (value : Nat) (negative : Bool) (flags : PriFlags) :=
    ntoa_eq spec.base value s.precision s.width negative flags o cur spec.one_lt_base
      (ntoaBufferSize_lt_word t) (t.lt_word hwidth)
  simp only [evalInteger, integerText, ntoa_of_type, hntoa]
  cases vaInteger spec (spec.flags s.flags) s.args with
  | none => rfl
  | some r => rfl

theorem evalPointer_eq (s : Scan t D) :
    evalPointer o cur s = (pointerText s).map (handOver o cur) := by
  have hwidth : t.bits / 8 * 2 < 2 ^ t.bits := t.lt_word (by
    rcases t.bits_cases with h | h
    · omega
    · omega)
  have hntoa (value : Nat) (flags : PriFlags) :=
    ntoa_eq 16 value s.precision (t.bits / 8 * 2) false flags o cur (by decide)
      (ntoaBufferSize_lt_word t) hwidth
  simp only [evalPointer, pointerText, ntoa_of_type, hntoa]
  cases vaPointer s.args with
  | none => rfl
  | some r => rfl

/-- A text with the spaces of its field around it. -/
theorem fieldText_eq (flags : PriFlags) (width : Nat) (text : List UInt8) (len : Nat) :
    (let cur := if flags.left then cur else o.spaces (width - len) cur
      let cur := o.emitText cur text
      if flags.left then o.spaces (width - len) cur else cur) =
      o.emitText cur (fieldText flags width text len) := by
  unfold fieldText blanks
  cases flags.left with
  | false => simp [spaces_eq, emitText_append]
  | true => simp [spaces_eq, emitText_append]

theorem evalChar_eq (s : Scan t D) :
    evalChar o cur s = (charText s).map (handOver o cur) := by
  unfold charText
  cases h : vaInt s.args with
  | none => simp [evalChar, h]
  | some r =>
      simp only [Option.map_some, handOver, ← fieldText_eq]
      simp [evalChar, h, emit_eq_emitText]

theorem outString_eq (object : List UInt8) (limit : Option Nat) (cur : Cursor t.bits σ) :
    outString o object limit cur = (stringChars object limit).map (o.emitText cur) := by
  induction object generalizing limit cur with
  | nil => rfl
  | cons c rest ih =>
      by_cases hc : c = 0
      · simp [outString, stringChars, hc, emitText_nil]
      · cases limit with
        | none => simp [outString, stringChars, hc, ih, Function.comp_def, emitText_cons]
        | some n =>
            cases n with
            | zero => simp [outString, stringChars, hc, emitText_nil]
            | succ n => simp [outString, stringChars, hc, ih, Function.comp_def, emitText_cons]

theorem evalString_eq (s : Scan t D) :
    evalString o cur s = (stringText s).map (handOver o cur) := by
  unfold evalString stringText
  cases vaPointer s.args with
  | none => rfl
  | some r =>
      simp only [Option.bind_eq_bind, Option.bind_some]
      cases strnlenS r.1.2 (if s.precision ≠ 0 then s.precision else 2 ^ t.bits - 1) with
      | none => rfl
      | some len =>
          simp only [Option.bind_some, outString_eq]
          cases stringChars r.1.2 (if s.flags.precision then some s.precision else none) with
          | none => rfl
          | some text =>
              simp only [Option.bind_some, Option.map_some, handOver, ← fieldText_eq]

end Texts

section Floats

variable {t : Target} {D : Type} (A : DoubleArith D)

/-- A conversion hands over a text that does not depend on the output function, of a bounded
length. -/
def HandsText (t : Target) (bound : Nat)
    (run : ∀ {σ : Type}, Output σ → Cursor t.bits σ → Option (Cursor t.bits σ)) : Prop :=
  ∃ r : Option (List UInt8),
    (∀ {σ : Type} (o : Output σ) (cur : Cursor t.bits σ), run o cur = r.map (o.emitText cur)) ∧
      ∀ text ∈ r, text.length ≤ bound

theorem HandsText.congr {bound bound' : Nat}
    {run run' : ∀ {σ : Type}, Output σ → Cursor t.bits σ → Option (Cursor t.bits σ)}
    (h : HandsText t bound run) (hbound : bound ≤ bound')
    (heq : ∀ {σ : Type} (o : Output σ) (cur : Cursor t.bits σ), run' o cur = run o cur) :
    HandsText t bound' run' := by
  obtain ⟨r, hr, hlen⟩ := h
  refine ⟨r, ?_, ?_⟩
  · intro σ o cur
    exact (heq o cur).trans (hr o cur)
  · intro text htext
    exact Nat.le_trans (hlen text htext) hbound

theorem HandsText.undefined (t : Target) (bound : Nat) :
    HandsText t bound fun _ _ => none := by
  refine ⟨none, ?_, ?_⟩
  · intro σ o cur
    rfl
  · intro text htext
    cases htext

theorem HandsText.rev {width : Nat} {buf : List UInt8} (flags : PriFlags)
    (hwidth : width < 2 ^ 32) (hbuf : buf.length ≤ 32) :
    HandsText t (width + 33) fun o cur => some (kPriOutRev o cur buf width flags) := by
  refine ⟨some (revText buf width flags), ?_, ?_⟩
  · intro σ o cur
    have hlen : buf.length < 2 ^ t.bits := t.lt_word (Nat.lt_of_le_of_lt hbuf (by decide))
    exact congrArg some (kPriOutRev_eq o cur flags (t.lt_word hwidth) hlen)
  · intro text htext
    have := revText_length_le buf width flags
    rw [← Option.some.inj htext]
    omega

theorem fixedBuffer_length_le (zeros prec frac whole width : Nat) (negative : Bool)
    (flags : PriFlags) :
    (fixedBuffer zeros prec frac whole width negative flags).length ≤ printfFtoaBufferSize :=
  List.length_take_le _ _

theorem ftoaBuffer_length_le {t : Target} {value : D} {negative : Bool} {prec width : Nat}
    {flags : PriFlags} {buf : List UInt8}
    (h : ftoaBuffer A t value negative prec width flags = some buf) :
    buf.length ≤ printfFtoaBufferSize := by
  rw [ftoaBuffer_eq] at h
  obtain ⟨whole, -, h⟩ := Option.bind_eq_some_iff.mp h
  obtain ⟨p10, -, h⟩ := Option.bind_eq_some_iff.mp h
  obtain ⟨frac, -, h⟩ := Option.bind_eq_some_iff.mp h
  rw [← Option.some.inj h]
  exact fixedBuffer_length_le _ _ _ _ _ _ _

/-- A conversion that another one calls. -/
abbrev FloatRun (t : Target) (D : Type) :=
  ∀ {σ : Type}, Output σ → Cursor t.bits σ → D → Nat → Nat → PriFlags → Option (Cursor t.bits σ)

/-- What is known of the called conversion, with a bound on the calls that are left. -/
def FloatRun.Hands (run : FloatRun t D) (depth : Nat) : Prop :=
  ∀ (value : D) (prec width : Nat) (flags : PriFlags), width < 2 ^ 32 →
    HandsText t (width + 33 * depth) fun o cur => run o cur value prec width flags

theorem ftoaBody_hands {etoa : FloatRun t D} {depth : Nat}
    (hetoa : FloatRun.Hands (fun {_} => etoa) depth) :
    FloatRun.Hands (t := t) (fun {_} o => ftoaBody A t (etoa o) o) (depth + 1) := by
  intro value prec width flags hwidth
  have hspecial (buf : List UInt8) (hbuf : buf.length ≤ 32) :=
    HandsText.rev (t := t) flags hwidth hbuf
  by_cases hnan : (!A.eq value value) = true
  · exact (hspecial _ (by decide)).congr (by omega) (fun o cur => if_pos hnan)
  by_cases hlow : A.lt value (A.neg A.dblMax) = true
  · exact (hspecial _ (by decide)).congr (by omega)
      (fun o cur => (if_neg hnan).trans (if_pos hlow))
  by_cases hhigh : A.lt A.dblMax value = true
  · cases hplus : flags.plus with
    | true =>
        refine (hspecial ("fni+".toList.map Char.toUInt8) (by decide)).congr (by omega) ?_
        intro σ o cur
        refine ((if_neg hnan).trans (if_neg hlow)).trans ((if_pos hhigh).trans ?_)
        rw [hplus]
        rfl
    | false =>
        refine (hspecial ("fni".toList.map Char.toUInt8) (by decide)).congr (by omega) ?_
        intro σ o cur
        refine ((if_neg hnan).trans (if_neg hlow)).trans ((if_pos hhigh).trans ?_)
        rw [hplus]
        rfl
  by_cases hlarge :
      (A.lt A.printfMaxFloat value || A.lt value (A.neg A.printfMaxFloat)) = true
  · exact (hetoa value prec width flags hwidth).congr (by omega) (fun o cur =>
      ((if_neg hnan).trans (if_neg hlow)).trans ((if_neg hhigh).trans (if_pos hlarge)))
  have hnormal {σ : Type} (o : Output σ) (cur : Cursor t.bits σ) :
      ftoaBody A t (etoa o) o cur value prec width flags =
        (ftoaBuffer A t (if A.lt value (A.ofInt 0) then A.sub (A.ofInt 0) value else value)
          (A.lt value (A.ofInt 0)) prec width flags).bind fun buf =>
            some (kPriOutRev o cur buf (outWidth width (A.lt value (A.ofInt 0)) flags) flags) :=
    ((if_neg hnan).trans (if_neg hlow)).trans ((if_neg hhigh).trans (if_neg hlarge))
  cases hbuf : ftoaBuffer A t (if A.lt value (A.ofInt 0) then A.sub (A.ofInt 0) value else value)
      (A.lt value (A.ofInt 0)) prec width flags with
  | none =>
      refine (HandsText.undefined t _).congr (Nat.le_refl _) ?_
      intro σ o cur
      refine (hnormal o cur).trans ?_
      rw [hbuf]
      rfl
  | some buf =>
      have hout := outWidth_le width (A.lt value (A.ofInt 0)) flags
      refine (HandsText.rev flags (Nat.lt_of_le_of_lt hout hwidth)
        (ftoaBuffer_length_le A hbuf)).congr (by omega) ?_
      intro σ o cur
      refine (hnormal o cur).trans ?_
      rw [hbuf]
      rfl

/-- The exponent of a number: its sign and its digits, which fit into the buffer. -/
def exponentText (form : ExpForm) : List UInt8 :=
  (if form.flags.uppercase then 'E'.toUInt8 else 'e'.toUInt8) ::
    ntoaText 10 form.expval.natAbs 0 (form.minwidth - 1) (form.expval < 0)
      { zeropad := true, plus := true }

theorem exponentText_length_le (form : ExpForm) : (exponentText form).length ≤ 33 := by
  have hrev := revText_length (ntoaBuffer 10 form.expval.natAbs 0 (form.minwidth - 1)
    (decide (form.expval < 0)) { zeropad := true, plus := true })
    (outWidth (form.minwidth - 1) (decide (form.expval < 0)) { zeropad := true, plus := true })
    { zeropad := true, plus := true }
  have hbuf := ntoaBuffer_length_le 10 form.expval.natAbs 0 (form.minwidth - 1)
    (decide (form.expval < 0)) { zeropad := true, plus := true }
  rw [if_neg (by decide)] at hrev
  unfold exponentText ntoaText
  rw [List.length_cons, hrev]
  exact Nat.succ_le_succ hbuf

/-- A text with its exponent, and with the spaces of a left-aligned field. -/
def withExponent (form : ExpForm) (width : Nat) (text : List UInt8) : List UInt8 :=
  if form.minwidth = 0 then text
  else if form.flags.left then
    (text ++ exponentText form) ++ blanks width (text ++ exponentText form).length
  else text ++ exponentText form

theorem withExponent_length_le (form : ExpForm) (width : Nat) (text : List UInt8) :
    (withExponent form width text).length ≤ max width (text.length + 33) := by
  have := exponentText_length_le form
  unfold withExponent
  split
  · omega
  · split
    · simp only [List.length_append, blanks_length]
      omega
    · rw [List.length_append]
      omega

theorem storeExponent_eq {σ : Type} (o : Output σ) (cur : Cursor t.bits σ) (form : ExpForm)
    {text : List UInt8} {width : Nat} (hwidth : width < 2 ^ 32)
    (hminwidth : form.minwidth < 2 ^ 32)
    (htext : form.minwidth ≠ 0 → form.flags.left = true → text.length + 33 < 2 ^ 32) :
    storeExponent o (o.emitText cur text) cur.idx form width =
      some (o.emitText cur (withExponent form width text)) := by
  unfold storeExponent withExponent
  by_cases hmin : form.minwidth = 0
  · rw [if_pos hmin, if_pos hmin]
  · rw [if_neg hmin, if_neg hmin]
    have hntoa (cur : Cursor t.bits σ) := ntoa_eq 10 form.expval.natAbs 0 (form.minwidth - 1)
      (decide (form.expval < 0)) { zeropad := true, plus := true } o cur (by decide)
      (ntoaBufferSize_lt_word t) (t.lt_word (by omega))
    simp only [ntoaLong, hntoa, Option.bind_eq_bind, Option.bind_some, emit_eq_emitText,
      ← emitText_append]
    rw [List.append_assoc, List.singleton_append]
    change some (if form.flags.left = true then
      o.spacesTo cur.idx width (o.emitText cur (text ++ exponentText form))
      else o.emitText cur (text ++ exponentText form)) = _
    by_cases hleft : form.flags.left = true
    · have hlen : (text ++ exponentText form).length < 2 ^ t.bits := by
        have := htext hmin hleft
        have := exponentText_length_le form
        rw [List.length_append]
        exact t.lt_word (by omega)
      rw [if_pos hleft, if_pos hleft, spacesTo_eq o cur (t.lt_word hwidth) hlen]
    · rw [if_neg hleft, if_neg hleft]

theorem expForm_minwidth_le (value : D) (prec : Nat) (flags : PriFlags) (expval : Int) :
    (expForm A value prec flags expval).minwidth ≤ 5 := by
  have hexp : (if expval < 100 ∧ -100 < expval then 4 else 5) ≤ 5 := by
    split
    · decide
    · exact Nat.le_refl _
  simp only [expForm]
  generalize (if expval < 100 ∧ -100 < expval then 4 else 5) = minwidth at hexp ⊢
  split
  · split
    · exact Nat.zero_le _
    · exact hexp
  · exact hexp

theorem mantissaWidth_le (width minwidth : Nat) (flags : PriFlags) :
    mantissaWidth width minwidth flags ≤ width := by
  unfold mantissaWidth
  split
  · exact Nat.zero_le _
  · split
    · exact Nat.sub_le _ _
    · exact Nat.zero_le _

theorem etoaBody_hands {ftoa : FloatRun t D} {depth : Nat} (hdepth : depth < 2 ^ 16)
    (hftoa : FloatRun.Hands (fun {_} => ftoa) depth) :
    FloatRun.Hands (t := t) (fun {_} o => etoaBody A (ftoa o) o) (depth + 1) := by
  intro value prec width flags hwidth
  by_cases hspecial :
      (!A.eq value value || A.lt A.dblMax value || A.lt value (A.neg A.dblMax)) = true
  · exact (hftoa value prec width flags hwidth).congr (by omega) (fun o cur => if_pos hspecial)
  have hnormal {σ : Type} (o : Output σ) (cur : Cursor t.bits σ) :
      etoaBody A (ftoa o) o cur value prec width flags = _ := if_neg hspecial
  simp only [Option.bind_eq_bind] at hnormal
  cases hexp : decimalExponent A (if A.lt value (A.ofInt 0) then A.neg value else value) with
  | none =>
      refine (HandsText.undefined t _).congr (Nat.le_refl _) ?_
      intro σ o cur
      refine (hnormal o cur).trans ?_
      rw [hexp]
      rfl
  | some r =>
      rw [hexp] at hnormal
      simp only [Option.bind_some] at hnormal
      generalize hform : expForm A (if A.lt value (A.ofInt 0) then A.neg value else value)
        (floatPrec prec flags) flags r.1 = form at hnormal
      have hmin : form.minwidth ≤ 5 := hform ▸ expForm_minwidth_le A _ _ _ _
      have hmantissa := mantissaWidth_le width form.minwidth form.flags
      generalize (if form.expval ≠ 0 then
        A.div (if A.lt value (A.ofInt 0) then A.neg value else value) r.2
        else if A.lt value (A.ofInt 0) then A.neg value else value) = scaled at hnormal
      obtain ⟨r, hr, hlen⟩ := hftoa (if A.lt value (A.ofInt 0) then A.neg scaled else scaled)
        form.prec (mantissaWidth width form.minwidth form.flags)
        { form.flags with adaptExp := false } (Nat.lt_of_le_of_lt hmantissa hwidth)
      cases r with
      | none =>
          refine (HandsText.undefined t _).congr (Nat.le_refl _) ?_
          intro σ o cur
          refine (hnormal o cur).trans ?_
          rw [show ftoa o cur _ _ _ _ = _ from hr o cur]
          rfl
      | some text =>
          have hlen := hlen text rfl
          -- A left-aligned number has no width of its own in front of its exponent.
          have hleft : form.minwidth ≠ 0 → form.flags.left = true → text.length + 33 < 2 ^ 32 := by
            intro hmin hleft
            rw [mantissaWidth, if_pos ⟨hleft, hmin⟩] at hlen
            omega
          refine ⟨some (withExponent form width text), ?_, ?_⟩
          · intro σ o cur
            refine (hnormal o cur).trans ?_
            rw [show ftoa o cur _ _ _ _ = _ from hr o cur, Option.map_some, Option.bind_some,
              storeExponent_eq o cur form hwidth (by omega) hleft]
            rfl
          · intro out hout
            have := withExponent_length_le form width text
            rw [← Option.some.inj hout]
            omega

theorem floatConv_hands {depth : Nat} (hdepth : depth < 2 ^ 16) (exponential : Bool) :
    FloatRun.Hands (t := t) (fun {_} o => floatConv A t o depth exponential) depth := by
  induction depth generalizing exponential with
  | zero =>
      intro value prec width flags hwidth
      cases exponential with
      | false => exact HandsText.undefined t _
      | true => exact HandsText.undefined t _
  | succ depth ih =>
      cases exponential with
      | false => exact ftoaBody_hands A (ih (by omega) true)
      | true => exact etoaBody_hands A (by omega) (ih (by omega) false)

/-- The text of a floating-point number. -/
def floatText (t : Target) (exponential : Bool) (value : D) (prec width : Nat) (flags : PriFlags) :
    Option (List UInt8) :=
  (floatConv (w := t.bits) A t recorder floatDepth exponential ⟨[], 0⟩ value prec width flags).map
    Cursor.sink

theorem floatConv_eq {σ : Type} (o : Output σ) (cur : Cursor t.bits σ) (exponential : Bool)
    (value : D) (prec : Nat) {width : Nat} (flags : PriFlags) (hwidth : width < 2 ^ 32) :
    floatConv A t o floatDepth exponential cur value prec width flags =
      (floatText A t exponential value prec width flags).map (o.emitText cur) := by
  have hdepth : floatDepth < 2 ^ 16 := by decide
  obtain ⟨r, hr, -⟩ := floatConv_hands (t := t) A hdepth exponential value prec width flags hwidth
  rw [show floatText A t exponential value prec width flags = r from recorded_eq hr]
  exact hr o cur

end Floats

end BaremetalCrt
