import BaremetalCrt.Library.WordBits
import BaremetalCrt.Print.ConsoleRuns

/-!
# The console on the line of a UART

`k_putchar_nolock` calls `uart_putc`, which calls `char_out` of the driver: it polls a status
register until the transmitter has room, and writes the character. A core that prints stays in the
driver for as long as the transmitter is full, with `k_pri_lock` and with its interrupts masked,
while the other cores and the device go on.

## Implementation notes

The default console is a device that has been probed. A driver makes one access to a register at a
time. The bits of the status register that it does not test have any value, and so has the
transmitter after a write that it had no room for. The handlers of the drivers do not touch the
transmitter and are left out. A step of the console that hands over a character begins a call of
the driver, and the core waits until the call has returned.
-/

namespace BaremetalCrt

open LabelledSystem WordBits

section Drivers

/-- `char_out` of a driver: the test of the polling loop, and what is written behind it. -/
structure CharOut where
  busy : BitVec 32 → Bool
  data : BitVec 32 → BitVec 32

/-- `uart_ns16550_char_out`. The functions for its registers pass eight bits on. -/
def uartNs16550CharOut : CharOut where
  busy v := v.setWidth 8 &&& bit 8 5 = 0#8
  data value := (value.setWidth 8).setWidth 32

/-- `uart_sifive_char_out`. -/
def uartSifiveCharOut : CharOut where
  busy v := v &&& bit 32 31 ≠ 0#32
  data value := value &&& 0xff#32

/-- `uart_lite_char_out`. -/
def uartLiteCharOut : CharOut where
  busy v := v &&& bit 32 3 ≠ 0#32
  data value := value

inductive UartDriver where
  | ns16550 | sifive | lite

def UartDriver.charOut : UartDriver → CharOut
  | .ns16550 => uartNs16550CharOut
  | .sifive => uartSifiveCharOut
  | .lite => uartLiteCharOut

/-- A device with its driver. The transmitter has room for so many characters; `overrun` is what a
write leaves in it when there is none. -/
structure UartHw where
  driver : UartDriver
  depth : Nat
  depth_pos : 0 < depth
  overrun : List UInt8 → UInt8 → List UInt8

variable (hw : UartHw)

/-- The register that the driver polls: the line status of the 16550 has a bit for an empty
transmitter, the others have one for a full transmitter. -/
def UartHw.status (noise : BitVec 32) (tx : List UInt8) : BitVec 32 :=
  match hw.driver with
  | .ns16550 => setBit noise 5 tx.isEmpty
  | .sifive => setBit noise 31 (hw.depth ≤ tx.length)
  | .lite => setBit noise 3 (hw.depth ≤ tx.length)

/-- The lower eight bits of a word. -/
def charOf (v : BitVec 32) : UInt8 := ⟨v.setWidth 8⟩

/-- A device: what is in the transmitter, what it has put on the line, and the call that is in the
driver, with its argument and whether its loop has ended. -/
structure UartState where
  tx : List UInt8
  line : List UInt8
  call : Option (BitVec 32 × Bool)

inductive UartEvent where
  | poll (noise : BitVec 32)
  | write
  /-- The transmitter puts a character on the line. -/
  | shift

/-- The steps of a driver and its device. -/
def uartStep (u : UartState) : UartEvent → Option UartState
  | .poll noise =>
      match u.call with
      | some (value, false) =>
          some { u with call := some (value, !hw.driver.charOut.busy (hw.status noise u.tx)) }
      | _ => none
  | .write =>
      match u.call with
      | some (value, true) =>
          let c := charOf (hw.driver.charOut.data value)
          some { u with
            tx := if u.tx.length < hw.depth then u.tx ++ [c] else hw.overrun u.tx c
            call := none }
      | _ => none
  | .shift =>
      match u.tx with
      | [] => none
      | c :: tx => some { u with tx := tx, line := u.line ++ [c] }

/-- The character that the driver has not handed to the transmitter. -/
def UartState.pending (u : UartState) : List UInt8 := (u.call.map fun call => charOf call.1).toList

/-- Behind its loop a driver finds room. -/
def UartState.Room (u : UartState) : Prop :=
  ∀ value, u.call = some (value, true) → u.tx.length < hw.depth

variable {hw}

theorem status_getLsbD (noise : BitVec 32) (b : Bool) {i : Nat} (hi : i < 32) :
    (setBit noise i b).getLsbD i = b := by
  rw [getLsbD_setBit noise hi, if_pos rfl]

theorem room_of_not_busy {noise : BitVec 32} {tx : List UInt8}
    (h : hw.driver.charOut.busy (hw.status noise tx) = false) : tx.length < hw.depth := by
  unfold UartHw.status at h
  cases hd : hw.driver with
  | ns16550 =>
      simp only [hd, UartDriver.charOut, uartNs16550CharOut, decide_eq_false_iff_not] at h
      rw [and_bit_eq_zero_iff _ (by decide), BitVec.getLsbD_setWidth,
        status_getLsbD _ _ (by decide)] at h
      have hempty : tx = [] := by simpa using h
      rw [hempty]
      exact hw.depth_pos
  | sifive =>
      simp only [hd, UartDriver.charOut, uartSifiveCharOut, decide_eq_false_iff_not,
        not_not] at h
      rw [and_bit_eq_zero_iff _ (by decide), status_getLsbD _ _ (by decide)] at h
      simpa using h
  | lite =>
      simp only [hd, UartDriver.charOut, uartLiteCharOut, decide_eq_false_iff_not, not_not] at h
      rw [and_bit_eq_zero_iff _ (by decide), status_getLsbD _ _ (by decide)] at h
      simpa using h

/-- What a driver writes has the character in its lower eight bits. -/
theorem charOf_data (value : BitVec 32) : charOf (hw.driver.charOut.data value) = charOf value := by
  cases hw.driver with
  | ns16550 =>
      apply congrArg UInt8.ofBitVec
      change ((value.setWidth 8).setWidth 32).setWidth 8 = value.setWidth 8
      rw [BitVec.setWidth_setWidth_of_le _ (by decide), BitVec.setWidth_eq]
  | sifive =>
      apply congrArg UInt8.ofBitVec
      change (value &&& 0xff#32).setWidth 8 = value.setWidth 8
      rw [BitVec.setWidth_and]
      exact BitVec.and_allOnes
  | lite => rfl

/-- A step of a driver or its device loses no character, and none comes twice. -/
theorem uartStep_keeps {u u' : UartState} {l : UartEvent} (hroom : u.Room hw)
    (hstep : uartStep hw u l = some u') :
    u'.Room hw ∧ u'.line ++ u'.tx ++ u'.pending = u.line ++ u.tx ++ u.pending ∧
      (u'.call ≠ none → u.call ≠ none) := by
  cases l with
  | poll noise =>
      simp only [uartStep] at hstep
      split at hstep
      · next value hcall =>
        cases hstep
        refine ⟨?_, ?_, fun _ => by simp [hcall]⟩
        · intro value' hready
          simp only [Option.some.injEq, Prod.mk.injEq, Bool.not_eq_true'] at hready
          exact room_of_not_busy hready.2
        · simp [UartState.pending, hcall]
      · cases hstep
  | write =>
      simp only [uartStep] at hstep
      split at hstep
      · next value hcall =>
        cases hstep
        refine ⟨nofun, ?_, fun h => absurd rfl h⟩
        simp [UartState.pending, hcall, if_pos (hroom value hcall), charOf_data]
      · cases hstep
  | shift =>
      simp only [uartStep] at hstep
      split at hstep
      · cases hstep
      · next c tx htx =>
        cases hstep
        refine ⟨?_, ?_, id⟩
        · intro value hcall
          have hlt := hroom value hcall
          rw [htx] at hlt
          exact Nat.lt_of_succ_lt hlt
        · simp [UartState.pending, htx]

end Drivers

section Line

variable {C : Type*}

/-- The console and the device that it is on. -/
structure ConsoleLine (C : Type*) where
  console : Console C
  uart : UartState

inductive LineStep (C : Type*) (t : Target) (D : Type) where
  | console (l : ConsoleStep C t D)
  | uart (l : UartEvent)

/-- Nobody has printed. -/
def ConsoleLine.start (id : Int) (mie : C → Bool) : ConsoleLine C :=
  ⟨Console.start id mie, ⟨[], [], none⟩⟩

variable [DecidableEq C] {t : Target} {D : Type} (A : DoubleArith D) (idPhys : C → Int)
  (hw : UartHw)

/-- The steps of the cores, the driver and the device. A core that is in the driver takes none. -/
def lineStep (s : ConsoleLine C) : LineStep C t D → Option (ConsoleLine C)
  | .console l =>
      if (s.console.cores l.core).spinPc = .locked ∧ s.uart.call ≠ none then none
      else
        (consoleStep A idPhys s.console l).map fun console =>
          let out := console.out.drop s.console.out.length
          ⟨console, { s.uart with
            call := out.head?.elim s.uart.call fun c => some (c.toBitVec.setWidth 32, false) }⟩
  | .uart l => (uartStep hw s.uart l).map fun uart => { s with uart := uart }

/-- The steps of the console in a run. -/
def consoleSteps (ls : List (LineStep C t D)) : List (ConsoleStep C t D) :=
  ls.filterMap fun
    | .console l => some l
    | .uart _ => none

variable {A idPhys hw} {id : Int} {mie : C → Bool} {s s' : ConsoleLine C}
  {steps : List (ConsoleStep C t D)}

omit [DecidableEq C] in
/-- A core hands over one character at most, and has the lock when it does. -/
theorem CoreMove.out_cases {id : Int} {lock lock' : SpinLock} {h h' : ConsoleCore}
    {call : Option (List UInt8)} {out : List UInt8} (hmove : CoreMove id lock h call lock' h' out) :
    out = [] ∨ ∃ c, out = [c] ∧ h.spinPc = .locked ∧ h'.spinPc = .locked := by
  cases hmove with
  | putc hh => exact Or.inr ⟨_, rfl, spinPc_of_frames hh, rfl⟩
  | _ => exact Or.inl rfl

/-- The console has made a run of its own, its characters are on the line, in the transmitter or in
the driver, and a call in the driver belongs to a core that has the lock. -/
structure LineOk (A : DoubleArith D) (idPhys : C → Int) (hw : UartHw) (id : Int) (mie : C → Bool)
    (steps : List (ConsoleStep C t D)) (s : ConsoleLine C) : Prop where
  console : exec (consoleStep A idPhys) (Console.start id mie) steps = some s.console
  room : s.uart.Room hw
  out_eq : s.uart.line ++ s.uart.tx ++ s.uart.pending = s.console.out
  locked : s.uart.call ≠ none → ∃ p, (s.console.cores p).spinPc = .locked

theorem LineOk.console_step (h : LineOk A idPhys hw id mie steps s) {l : ConsoleStep C t D}
    (hstep : lineStep A idPhys hw s (.console l) = some s') :
    LineOk A idPhys hw id mie (steps ++ [l]) s' := by
  simp only [lineStep] at hstep
  split at hstep
  · cases hstep
  · next hfree =>
    obtain ⟨console, hconsole, rfl⟩ := Option.map_eq_some_iff.mp hstep
    have hrun := (exec_concat_iff _).mpr ⟨_, h.console, hconsole⟩
    obtain ⟨lock, core, out, hmove, rfl⟩ := consoleStep_move hconsole
    have hdrop : (s.console.put l.core lock core out).out.drop s.console.out.length = out :=
      List.drop_left
    simp only [hdrop]
    rcases hmove.out_cases with rfl | ⟨c, rfl, hlocked, hlocked'⟩
    · refine ⟨hrun, h.room, h.out_eq.trans (List.append_nil _).symm, ?_⟩
      intro hcall
      -- the core of the call is in the driver, so another one has moved
      obtain ⟨p, hp⟩ := h.locked hcall
      refine ⟨p, ?_⟩
      rwa [Console.put_cores_of_ne]
      rintro rfl
      exact hfree ⟨hp, hcall⟩
    · have hnone : s.uart.call = none := by
        by_contra hcall
        exact hfree ⟨hlocked, hcall⟩
      refine ⟨hrun, nofun, ?_, fun _ => ⟨l.core, ?_⟩⟩
      · have hout := h.out_eq
        simp only [UartState.pending, hnone, Option.map_none, Option.toList_none,
          List.append_nil] at hout
        have hchar : charOf (c.toBitVec.setWidth 32) = c := by
          apply congrArg UInt8.ofBitVec
          rw [BitVec.setWidth_setWidth_of_le _ (by decide), BitVec.setWidth_eq]
        simp [UartState.pending, Console.put, ← hout, hchar]
      · rw [Console.put_cores_self]
        exact hlocked'

theorem LineOk.of_exec {ls : List (LineStep C t D)}
    (hrun : exec (lineStep A idPhys hw) (ConsoleLine.start id mie) ls = some s) :
    LineOk A idPhys hw id mie (consoleSteps ls) s := by
  induction ls using List.reverseRecOn generalizing s with
  | nil =>
      cases hrun
      exact ⟨rfl, nofun, rfl, fun h => absurd rfl h⟩
  | append_singleton ls l ih =>
      obtain ⟨m, hm, hstep⟩ := (exec_concat_iff _).mp hrun
      have happend : consoleSteps (ls ++ [l]) = consoleSteps ls ++ consoleSteps [l] :=
        List.filterMap_append
      rw [happend]
      cases l with
      | console l => exact (ih hm).console_step hstep
      | uart l =>
          obtain ⟨uart, huart, rfl⟩ := Option.map_eq_some_iff.mp hstep
          obtain ⟨hroom, hout, hcall⟩ := uartStep_keeps (ih hm).room huart
          rw [show consoleSteps [LineStep.uart l] = ([] : List (ConsoleStep C t D)) from rfl,
            List.append_nil]
          exact ⟨(ih hm).console, hroom, hout.trans (ih hm).out_eq,
            fun h => (ih hm).locked (hcall h)⟩

end Line

end BaremetalCrt
