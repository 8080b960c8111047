import BaremetalCrt.Device.Mmio
import BaremetalCrt.Library.Runs
import BaremetalCrt.Library.WordBits
import BaremetalCrt.Sys.Target

/-!
# The configuration of a UART

The UART layer passes a configuration to the driver of the device. The driver of the 16550
programs a divisor through two latch registers, which share their offsets with other
registers and are selected by a bit of the line control register. The driver of the SiFive
UART programs a divisor register and notes the configuration.

## Implementation notes

A division by zero has no outcome. A device keeps a list of the registers that were written,
the last one first; the source has no field for it. The registers keep what was written.
-/

namespace BaremetalCrt

/-- `struct k_uart_config`. -/
structure UartConfig where
  baud : BitVec 32
deriving DecidableEq

/-- Division of two `uint64_t` values. -/
def udiv64 (a b : BitVec 64) : Option (BitVec 64) := if b = 0 then none else some (a / b)

def regIer : Nat := 0x01
def regLcr : Nat := 0x03
def regDll : Nat := 0x00
def regDlm : Nat := 0x01

/-- The registers of a 16550 by their numbers. Those before the line control register are in two
banks. -/
structure Ns16550Regs where
  plain : Nat → BitVec 8
  latch : Nat → BitVec 8

namespace Ns16550Regs

/-- The bit that selects the bank of the divisor latch. -/
def dlab (r : Ns16550Regs) : Bool := (r.plain regLcr).getLsbD 7

def read (r : Ns16550Regs) (n : Nat) : BitVec 8 :=
  if n < regLcr ∧ r.dlab = true then r.latch n else r.plain n

def write (r : Ns16550Regs) (dat : BitVec 8) (n : Nat) : Ns16550Regs :=
  if n < regLcr ∧ r.dlab = true then { r with latch := Function.update r.latch n dat }
  else { r with plain := Function.update r.plain n dat }

end Ns16550Regs

/-- A 16550 and `struct uart_ns16550_priv`. The driver accepts three values of `addr_shift`. -/
structure Ns16550 where
  addrShift : Fin 3
  freqIn : BitVec 64
  conf : UartConfig
  regs : Ns16550Regs
  written : List (Nat × BitVec 8)

/-- `uart_read`. The device has its registers at multiples of the width. -/
def uartRead (u : Ns16550) (off : Nat) : BitVec 8 :=
  let shifted := off <<< u.addrShift.val
  u.regs.read (shifted >>> u.addrShift.val)

/-- `uart_write`. -/
def uartWrite (u : Ns16550) (dat : BitVec 8) (off : Nat) : Ns16550 :=
  let shifted := off <<< u.addrShift.val
  { u with
    regs := u.regs.write dat (shifted >>> u.addrShift.val)
    written := (shifted, dat) :: u.written }

/-- `uart_ns16550_set_baud`. -/
def uartNs16550SetBaud (u : Ns16550) (baud : BitVec 32) : Option (Ns16550 × Int) :=
  (udiv64 u.freqIn (baud.setWidth 64)).map fun q =>
    let d : BitVec 32 := (q / 16).setWidth 32
    if d = 0 then (u, -einval)
    else if 0xffff < d then (u, -einval)
    else
      let v := uartRead u regLcr
      let u := uartWrite u (v ||| 0x80) regLcr
      let u := uartWrite u (d.setWidth 8) regDll
      let u := uartWrite u ((d >>> 8).setWidth 8) regDlm
      let v := uartRead u regLcr
      (uartWrite u (v &&& ~~~0x80) regLcr, 0)

/-- `uart_ns16550_get_config`. -/
def uartNs16550GetConfig (u : Ns16550) : UartConfig × Int := (u.conf, 0)

/-- `uart_ns16550_set_config`. -/
def uartNs16550SetConfig (u : Ns16550) (conf : UartConfig) : Option (Ns16550 × Int) :=
  uartNs16550SetBaud u conf.baud

/-- `REG_DIV` of the SiFive UART. -/
def regDiv : Nat := 0x18

/-- A SiFive UART and `struct uart_sifive_priv`. -/
structure UartSifive where
  freqIn : BitVec 64
  conf : UartConfig
  regs : DeviceWords
  written : List (Nat × BitVec 32)

/-- `uart_sifive_set_baud`. -/
def uartSifiveSetBaud (u : UartSifive) (baud : BitVec 32) : Option (UartSifive × Int) :=
  (udiv64 u.freqIn (baud.setWidth 64)).map fun q =>
    let d : BitVec 32 := (q - 1).setWidth 32
    ({ u with
        regs := kDeviceWrite32 u.regs d regDiv
        written := (regDiv, d) :: u.written
        conf := ⟨baud⟩ }, 0)

/-- `uart_sifive_get_config`. -/
def uartSifiveGetConfig (u : UartSifive) : UartConfig × Int := (u.conf, 0)

/-- `uart_sifive_set_config`. -/
def uartSifiveSetConfig (u : UartSifive) (conf : UartConfig) : Option (UartSifive × Int) :=
  uartSifiveSetBaud u conf.baud

/-- A device with one of the two drivers. -/
inductive Uart where
  | ns16550 (u : Ns16550)
  | sifive (u : UartSifive)

/-- `k_uart_get_config`. -/
def kUartGetConfig : Option Uart → Option UartConfig × Int
  | none => (none, -einval)
  | some (.ns16550 u) => (some (uartNs16550GetConfig u).1, (uartNs16550GetConfig u).2)
  | some (.sifive u) => (some (uartSifiveGetConfig u).1, (uartSifiveGetConfig u).2)

/-- `k_uart_set_config`. -/
def kUartSetConfig (uart : Option Uart) (conf : UartConfig) : Option (Option Uart × Int) :=
  match uart with
  | none => some (none, -einval)
  | some (.ns16550 u) =>
      (uartNs16550SetConfig u conf).map fun (u, r) => (some (.ns16550 u), r)
  | some (.sifive u) =>
      (uartSifiveSetConfig u conf).map fun (u, r) => (some (.sifive u), r)

/-- `UART_NS16550_DEFAULT_BAUD` and `UART_SIFIVE_DEFAULT_BAUD`. -/
def uartDefaultBaud : BitVec 32 := 9600

/-- The end of `uart_ns16550_add` and `uart_sifive_add`: the board's setting is applied, or the
default one. -/
def uartApplyDefault (uart : Uart) (boardBaud : Option (BitVec 32)) : Option (Option Uart × Int) :=
  let baud := boardBaud.getD 0
  kUartSetConfig (some uart) ⟨if baud = 0 then uartDefaultBaud else baud⟩

section Divisor

/-- A call writes no register. -/
def Uart.SameRegisters : Uart → Uart → Prop
  | .ns16550 u, .ns16550 u' => u'.regs = u.regs ∧ u'.written = u.written
  | .sifive u, .sifive u' => u'.regs = u.regs ∧ u'.written = u.written
  | _, _ => False

/-- The divisor for a clock and a baud is in range and programmed. -/
def Uart.HasDivisor (freq baud : Nat) : Uart → Prop
  | .ns16550 u =>
      1 ≤ freq / baud / 16 ∧ freq / baud / 16 ≤ 65535 ∧
        (u.regs.latch regDll).toNat + 256 * (u.regs.latch regDlm).toNat = freq / baud / 16
  | .sifive u => ((kDeviceRead32 u.regs regDiv).toNat : Int) = (freq / baud : Nat) - 1

def Uart.freqIn : Uart → BitVec 64
  | .ns16550 u => u.freqIn
  | .sifive u => u.freqIn

/-- A call makes no division by zero. It fails and writes no register, or it programs the
divisor. -/
def ProgramsBaud (uart : Uart) (baud : BitVec 32) : Prop :=
  ∃ uart' r, kUartSetConfig (some uart) ⟨baud⟩ = some (some uart', r) ∧
    (r < 0 ∧ uart.SameRegisters uart' ∨
      r = 0 ∧ uart'.HasDivisor uart.freqIn.toNat baud.toNat)

/-- The baud is not zero, and the divisor is not cut to an acceptable one. -/
def DivisorFits (baud : BitVec 32) : Uart → Prop
  | .ns16550 u =>
      baud ≠ 0 ∧ (u.freqIn.toNat / baud.toNat / 16 < 2 ^ 32 ∨
        u.freqIn.toNat / baud.toNat / 16 % 2 ^ 32 = 0 ∨
        65535 < u.freqIn.toNat / baud.toNat / 16 % 2 ^ 32)
  | .sifive u =>
      baud ≠ 0 ∧ baud.toNat ≤ u.freqIn.toNat ∧ u.freqIn.toNat / baud.toNat ≤ 2 ^ 32

theorem udiv64_of_ne_zero (freq : BitVec 64) {baud : BitVec 32} (hbaud : baud ≠ 0) :
    ∃ q, udiv64 freq (baud.setWidth 64) = some q ∧ q.toNat = freq.toNat / baud.toNat := by
  have hwide : (baud.setWidth 64).toNat = baud.toNat := by
    rw [BitVec.toNat_setWidth]
    exact Nat.mod_eq_of_lt (Nat.lt_trans baud.isLt (by decide))
  have hne : baud.setWidth 64 ≠ 0 := by
    intro hzero
    apply hbaud
    apply BitVec.eq_of_toNat_eq
    rw [← hwide, hzero]
    rfl
  refine ⟨_, if_neg hne, ?_⟩
  rw [BitVec.toNat_udiv, hwide]

variable (u : Ns16550)

theorem uartRead_eq (off : Nat) : uartRead u off = u.regs.read off :=
  congrArg u.regs.read (Nat.shiftLeft_shiftRight off _)

theorem uartWrite_regs (dat : BitVec 8) (off : Nat) :
    (uartWrite u dat off).regs = u.regs.write dat off :=
  congrArg (u.regs.write dat) (Nat.shiftLeft_shiftRight off _)

namespace Ns16550Regs

variable (r : Ns16550Regs) (dat : BitVec 8)

/-- The line control register is in both banks. -/
theorem write_lcr : r.write dat regLcr = { r with plain := Function.update r.plain regLcr dat } :=
  if_neg fun h => absurd h.1 (Nat.lt_irrefl _)

theorem read_lcr : r.read regLcr = r.plain regLcr :=
  if_neg fun h => absurd h.1 (Nat.lt_irrefl _)

theorem write_latch {n : Nat} (hn : n < regLcr) (hdlab : r.dlab = true) :
    r.write dat n = { r with latch := Function.update r.latch n dat } :=
  if_pos ⟨hn, hdlab⟩

end Ns16550Regs

/-- The registers after the divisor has been programmed. -/
def Ns16550Regs.program (r : Ns16550Regs) (d : BitVec 32) : Ns16550Regs where
  plain := Function.update r.plain regLcr (r.plain regLcr &&& ~~~0x80)
  latch := Function.update (Function.update r.latch regDll (d.setWidth 8)) regDlm
    ((d >>> 8).setWidth 8)

theorem Ns16550Regs.program_lcr (r : Ns16550Regs) (d : BitVec 32) :
    (r.program d).plain regLcr = r.plain regLcr &&& ~~~0x80 := by
  simp only [program, Function.update_self]

theorem Ns16550Regs.program_plain_of_ne (r : Ns16550Regs) (d : BitVec 32) {n : Nat}
    (hn : n ≠ regLcr) : (r.program d).plain n = r.plain n := by
  simp only [program, Function.update_of_ne hn]

/-- The writes of the driver to the line control register and to the latches. -/
theorem Ns16550Regs.program_eq (r : Ns16550Regs) (d : BitVec 32) :
    (((r.write (r.read regLcr ||| 0x80) regLcr).write (d.setWidth 8) regDll).write
      ((d >>> 8).setWidth 8) regDlm).write
        ((((r.write (r.read regLcr ||| 0x80) regLcr).write (d.setWidth 8) regDll).write
          ((d >>> 8).setWidth 8) regDlm).read regLcr &&& ~~~0x80) regLcr = r.program d := by
  have hbit : (r.plain regLcr ||| 0x80).getLsbD 7 = true := by
    rw [BitVec.getLsbD_or, show (0x80 : BitVec 8).getLsbD 7 = true by decide, Bool.or_true]
  have hmask : (r.plain regLcr ||| 0x80) &&& ~~~0x80 = r.plain regLcr &&& ~~~0x80 := by
    generalize r.plain regLcr = v
    revert v
    decide
  have hdlab : ∀ latch, (Ns16550Regs.mk
      (Function.update r.plain regLcr (r.plain regLcr ||| 0x80)) latch).dlab = true := by
    intro latch
    change (Function.update r.plain regLcr (r.plain regLcr ||| 0x80) regLcr).getLsbD 7 = true
    rw [Function.update_self]
    exact hbit
  rw [Ns16550Regs.read_lcr r, Ns16550Regs.write_lcr r,
    Ns16550Regs.write_latch _ _ (by decide : regDll < regLcr) (hdlab _),
    Ns16550Regs.write_latch _ _ (by decide : regDlm < regLcr) (hdlab _),
    Ns16550Regs.read_lcr, Ns16550Regs.write_lcr]
  simp only [Function.update_self, Function.update_idem, hmask]
  rfl

/-- What `uart_ns16550_set_baud` can do with a baud that is not zero, by the low 32 bits of the
divisor. -/
theorem uartNs16550SetBaud_cases {baud : BitVec 32} (hbaud : baud ≠ 0) :
    ∃ d : BitVec 32, d.toNat = u.freqIn.toNat / baud.toNat / 16 % 2 ^ 32 ∧
      ((d.toNat = 0 ∨ 65535 < d.toNat) ∧ uartNs16550SetBaud u baud = some (u, -einval) ∨
        1 ≤ d.toNat ∧ d.toNat ≤ 65535 ∧ ∃ u', uartNs16550SetBaud u baud = some (u', 0) ∧
          u'.conf = u.conf ∧ u'.regs = u.regs.program d) := by
  obtain ⟨q, hq, hval⟩ := udiv64_of_ne_zero u.freqIn hbaud
  have hd : ((q / 16).setWidth 32).toNat = u.freqIn.toNat / baud.toNat / 16 % 2 ^ 32 := by
    rw [BitVec.toNat_setWidth, BitVec.toNat_udiv, hval]
    rfl
  refine ⟨(q / 16).setWidth 32, hd, ?_⟩
  simp only [uartNs16550SetBaud, hq, Option.map_some]
  generalize (q / 16).setWidth 32 = d
  by_cases hzero : d = 0
  · rw [if_pos hzero]
    exact Or.inl ⟨Or.inl (congrArg BitVec.toNat hzero), rfl⟩
  · rw [if_neg hzero]
    have hpos : d.toNat ≠ 0 := fun h => hzero (BitVec.eq_of_toNat_eq h)
    by_cases hlarge : 0xffff < d
    · rw [if_pos hlarge]
      exact Or.inl ⟨Or.inr hlarge, rfl⟩
    · rw [if_neg hlarge]
      refine Or.inr ⟨Nat.pos_of_ne_zero hpos, Nat.le_of_not_lt hlarge, _, rfl, rfl, ?_⟩
      simp only [uartWrite_regs, uartRead_eq]
      exact u.regs.program_eq d

/-- The two latch bytes are those of the divisor. -/
theorem Ns16550Regs.program_latch (r : Ns16550Regs) {d : BitVec 32} (hd : d.toNat ≤ 65535) :
    ((r.program d).latch regDll).toNat + 256 * ((r.program d).latch regDlm).toNat = d.toNat := by
  have hlow : (r.program d).latch regDll = d.setWidth 8 := by
    change Function.update (Function.update r.latch regDll (d.setWidth 8)) regDlm
      ((d >>> 8).setWidth 8) regDll = _
    rw [Function.update_of_ne (by decide : regDll ≠ regDlm), Function.update_self]
  have hhigh : (r.program d).latch regDlm = (d >>> 8).setWidth 8 := by
    change Function.update (Function.update r.latch regDll (d.setWidth 8)) regDlm
      ((d >>> 8).setWidth 8) regDlm = _
    rw [Function.update_self]
  rw [hlow, hhigh, BitVec.toNat_setWidth, BitVec.toNat_setWidth, BitVec.toNat_ushiftRight,
    Nat.shiftRight_eq_div_pow]
  omega

/-- The property is decided by what the call returns. -/
theorem programsBaud_of_call {uart uart' : Uart} {baud : BitVec 32} {r : Int}
    (hcall : kUartSetConfig (some uart) ⟨baud⟩ = some (some uart', r)) :
    ProgramsBaud uart baud ↔ r < 0 ∧ uart.SameRegisters uart' ∨
      r = 0 ∧ uart'.HasDivisor uart.freqIn.toNat baud.toNat := by
  constructor
  · rintro ⟨other, r', hother, hresult⟩
    obtain ⟨heq, rfl⟩ := Prod.mk.inj (Option.some.inj (hother.symm.trans hcall))
    obtain rfl := Option.some.inj heq
    exact hresult
  · intro hresult
    exact ⟨uart', r, hcall, hresult⟩

/-- The driver of the 16550 rejects every divisor that is out of range after it has been cut to
32 bits. -/
theorem ns16550_baud_iff {baud : BitVec 32} (hbaud : baud ≠ 0) :
    ProgramsBaud (.ns16550 u) baud ↔ DivisorFits baud (.ns16550 u) := by
  obtain ⟨d, hd, hcases⟩ := uartNs16550SetBaud_cases u hbaud
  rcases hcases with ⟨hrange, hcall⟩ | ⟨hlow, hhigh, u', hcall, -, hregs⟩
  · have hset : kUartSetConfig (some (.ns16550 u)) ⟨baud⟩ =
        some (some (.ns16550 u), -einval) := by
      simp only [kUartSetConfig, uartNs16550SetConfig, hcall, Option.map_some]
    rw [programsBaud_of_call hset]
    rw [hd] at hrange
    constructor
    · intro _
      exact ⟨hbaud, Or.inr hrange⟩
    · intro _
      exact Or.inl ⟨by decide, rfl, rfl⟩
  · have hset : kUartSetConfig (some (.ns16550 u)) ⟨baud⟩ = some (some (.ns16550 u'), 0) := by
      simp only [kUartSetConfig, uartNs16550SetConfig, hcall, Option.map_some]
    have hlatch := u.regs.program_latch hhigh
    rw [← hregs, hd] at hlatch
    rw [hd] at hlow hhigh
    rw [programsBaud_of_call hset]
    constructor
    · rintro (⟨hr, -⟩ | ⟨-, -, hle, -⟩)
      · exact absurd hr (by decide)
      · exact ⟨hbaud, Or.inl (Nat.lt_of_le_of_lt hle (by decide))⟩
    · rintro ⟨-, hfits⟩
      have hlt : u.freqIn.toNat / baud.toNat / 16 < 2 ^ 32 := by omega
      rw [Nat.mod_eq_of_lt hlt] at hlow hhigh hlatch
      exact Or.inr ⟨rfl, hlow, hhigh, hlatch⟩

/-- The driver of the SiFive UART rejects nothing. -/
theorem sifive_baud_iff (u : UartSifive) {baud : BitVec 32} (hbaud : baud ≠ 0) :
    ProgramsBaud (.sifive u) baud ↔ DivisorFits baud (.sifive u) := by
  obtain ⟨q, hq, hval⟩ := udiv64_of_ne_zero u.freqIn hbaud
  have hset : kUartSetConfig (some (.sifive u)) ⟨baud⟩ = some (some (.sifive
      { u with
        regs := kDeviceWrite32 u.regs ((q - 1).setWidth 32) regDiv
        written := (regDiv, (q - 1).setWidth 32) :: u.written
        conf := ⟨baud⟩ }), 0) := by
    simp only [kUartSetConfig, uartSifiveSetConfig, uartSifiveSetBaud, hq, Option.map_some]
  have hpos : 0 < baud.toNat := Nat.pos_of_ne_zero fun h => hbaud (BitVec.eq_of_toNat_eq h)
  have hone : baud.toNat ≤ u.freqIn.toNat ↔ 1 ≤ u.freqIn.toNat / baud.toNat :=
    (Nat.le_div_iff_mul_le hpos).trans (by rw [Nat.one_mul]) |>.symm
  have hdiv : ((q - 1).setWidth 32).toNat =
      (2 ^ 64 - 1 + u.freqIn.toNat / baud.toNat) % 2 ^ 64 % 2 ^ 32 := by
    rw [BitVec.toNat_setWidth, BitVec.toNat_sub, hval]
    rfl
  have hlt : u.freqIn.toNat / baud.toNat < 2 ^ 64 := hval ▸ q.isLt
  rw [programsBaud_of_call hset]
  change (_ ∨ _ ∧ ((kDeviceRead32 (kDeviceWrite32 u.regs ((q - 1).setWidth 32) regDiv)
    regDiv).toNat : Int) = (u.freqIn.toNat / baud.toNat : Nat) - 1) ↔
      baud ≠ 0 ∧ baud.toNat ≤ u.freqIn.toNat ∧ u.freqIn.toNat / baud.toNat ≤ 2 ^ 32
  rw [kDeviceRead32_write_self, hdiv, hone]
  constructor
  · rintro (⟨hr, -⟩ | ⟨-, hprog⟩)
    · exact absurd hr (by decide)
    · refine ⟨hbaud, ?_, ?_⟩
      · omega
      · omega
  · rintro ⟨-, hpos, hfits⟩
    refine Or.inr ⟨rfl, ?_⟩
    omega

end Divisor

/-- For every device, clock and baud, a call makes no division by zero and either fails without
writing a register or programs the exact divisor, if and only if the baud is not zero and the
divisor is not cut to a smaller one that passes the checks of the driver. -/
theorem uart_baud_programmed_iff (uart : Uart) (baud : BitVec 32) :
    ProgramsBaud uart baud ↔ DivisorFits baud uart := by
  by_cases hbaud : baud = 0
  · subst hbaud
    constructor
    · rintro ⟨uart', r, hcall, -⟩
      cases uart with
      | ns16550 u => exact absurd hcall nofun
      | sifive u => exact absurd hcall nofun
    · intro hfits
      cases uart with
      | ns16550 u => exact absurd rfl hfits.1
      | sifive u => exact absurd rfl hfits.1
  · cases uart with
    | ns16550 u => exact ns16550_baud_iff u hbaud
    | sifive u => exact sifive_baud_iff u hbaud

/-- A baud of zero is a divisor, a baud above the clock wraps the divisor of the SiFive UART, and
a fast clock has a divisor for the 16550 that is cut to 1. -/
theorem uart_baud_cut :
    ¬ProgramsBaud (.sifive ⟨1000, ⟨9600⟩, fun _ => 0, []⟩) 0 ∧
      ¬ProgramsBaud (.sifive ⟨1000, ⟨9600⟩, fun _ => 0, []⟩) 9600 ∧
      ¬ProgramsBaud (.ns16550 ⟨2, 68719476752, ⟨0⟩, ⟨fun _ => 0, fun _ => 0⟩, []⟩) 1 := by
  refine ⟨?_, ?_, ?_⟩
  · rintro ⟨uart', r, hcall, -⟩
    exact absurd hcall nofun
  · rw [sifive_baud_iff _ (by decide)]
    exact fun h => absurd h.2.1 (by decide)
  · rw [ns16550_baud_iff _ (by decide)]
    exact fun h => absurd h.2 (by decide)

section History

/-- A device, and the baud of the last call that succeeded. -/
structure UartHistory where
  uart : Uart
  last : BitVec 32

/-- The private data of a device that was not probed is zero. -/
def Uart.Unprobed (uart : Uart) : Prop := kUartGetConfig (some uart) = (some ⟨0⟩, 0)

/-- The device after it was probed successfully. -/
def probedUart (uart : Uart) (boardBaud : Option (BitVec 32)) : Option UartHistory :=
  let baud := boardBaud.getD 0
  match uartApplyDefault uart boardBaud with
  | some (some uart', r) =>
      if r = 0 then some ⟨uart', if baud = 0 then uartDefaultBaud else baud⟩ else none
  | _ => none

/-- One call of `k_uart_set_config`. -/
def setConfigStep (s : UartHistory) (conf : UartConfig) : Option UartHistory :=
  match kUartSetConfig (some s.uart) conf with
  | some (some uart, r) => some ⟨uart, if r = 0 then conf.baud else s.last⟩
  | _ => none

/-- The last baud is reported. A call that succeeds on a 16550 leaves DLAB clear, and the other
bits of the line control register and the interrupt enable register as they are. -/
structure ConfigKept (s : UartHistory) : Prop where
  reported : kUartGetConfig (some s.uart) = (some ⟨s.last⟩, 0)
  line : ∀ u conf u', s.uart = .ns16550 u →
    kUartSetConfig (some s.uart) conf = some (some (.ns16550 u'), 0) →
    u'.regs.dlab = false ∧
      (∀ j < 7, (u'.regs.plain regLcr).getLsbD j = (u.regs.plain regLcr).getLsbD j) ∧
      u'.regs.plain regIer = u.regs.plain regIer

/-- What a call can return, and that its driver stays. -/
inductive ConfigMove (conf : UartConfig) : Uart → Uart → Int → Prop
  | rejected (u : Ns16550) : ConfigMove conf (.ns16550 u) (.ns16550 u) (-einval)
  | programmed (u u' : Ns16550) (d : BitVec 32) (hconf : u'.conf = u.conf)
      (hregs : u'.regs = u.regs.program d) : ConfigMove conf (.ns16550 u) (.ns16550 u') 0
  | noted (u u' : UartSifive) (hconf : u'.conf = conf) :
      ConfigMove conf (.sifive u) (.sifive u') 0

theorem kUartSetConfig_move {uart : Uart} {conf : UartConfig} {out : Option Uart} {r : Int}
    (h : kUartSetConfig (some uart) conf = some (out, r)) :
    conf.baud ≠ 0 ∧ ∃ uart', out = some uart' ∧ ConfigMove conf uart uart' r := by
  have hbaud : conf.baud ≠ 0 := by
    intro hzero
    obtain ⟨baud⟩ := conf
    obtain rfl : baud = 0 := hzero
    cases uart with
    | ns16550 u => exact absurd h nofun
    | sifive u => exact absurd h nofun
  refine ⟨hbaud, ?_⟩
  cases uart with
  | ns16550 u =>
      obtain ⟨d, -, hcases⟩ := uartNs16550SetBaud_cases u hbaud
      simp only [kUartSetConfig, uartNs16550SetConfig] at h
      rcases hcases with ⟨-, hcall⟩ | ⟨-, -, u', hcall, hconf, hregs⟩
      · rw [hcall, Option.map_some] at h
        obtain ⟨rfl, rfl⟩ := Prod.mk.inj (Option.some.inj h)
        exact ⟨_, rfl, .rejected u⟩
      · rw [hcall, Option.map_some] at h
        obtain ⟨rfl, rfl⟩ := Prod.mk.inj (Option.some.inj h)
        exact ⟨_, rfl, .programmed u u' d hconf hregs⟩
  | sifive u =>
      obtain ⟨q, hq, -⟩ := udiv64_of_ne_zero u.freqIn hbaud
      simp only [kUartSetConfig, uartSifiveSetConfig, uartSifiveSetBaud, hq, Option.map_some] at h
      obtain ⟨rfl, rfl⟩ := Prod.mk.inj (Option.some.inj h)
      exact ⟨_, rfl, .noted u _ rfl⟩

/-- What holds along the calls: the SiFive UART has noted the last baud, and the 16550 none. -/
def ConfigInv (s : UartHistory) : Prop :=
  match s.uart with
  | .ns16550 u => u.conf = ⟨0⟩ ∧ s.last ≠ 0
  | .sifive u => u.conf = ⟨s.last⟩

def Uart.isSifive : Uart → Bool
  | .ns16550 _ => false
  | .sifive _ => true

theorem ConfigMove.isSifive_eq {conf : UartConfig} {uart uart' : Uart} {r : Int}
    (h : ConfigMove conf uart uart' r) : uart'.isSifive = uart.isSifive := by
  cases h with
  | rejected => rfl
  | programmed => rfl
  | noted => rfl

theorem setConfigStep_move {s s' : UartHistory} {conf : UartConfig}
    (h : setConfigStep s conf = some s') :
    conf.baud ≠ 0 ∧ ∃ r, ConfigMove conf s.uart s'.uart r ∧
      s'.last = if r = 0 then conf.baud else s.last := by
  unfold setConfigStep at h
  split at h
  · rename_i uart r hcall
    obtain ⟨hbaud, uart', heq, hmove⟩ := kUartSetConfig_move hcall
    obtain rfl := Option.some.inj heq
    obtain rfl := Option.some.inj h
    exact ⟨hbaud, r, hmove, rfl⟩
  · exact absurd h nofun

theorem ConfigInv.step {s s' : UartHistory} {conf : UartConfig} (hinv : ConfigInv s)
    (h : setConfigStep s conf = some s') : ConfigInv s' := by
  obtain ⟨hbaud, r, hmove, hlast⟩ := setConfigStep_move h
  obtain ⟨uart, last⟩ := s
  obtain ⟨uart', last'⟩ := s'
  cases hmove with
  | rejected u =>
      obtain rfl : last' = last := hlast
      exact hinv
  | programmed u u' d hconf hregs =>
      obtain rfl : last' = conf.baud := hlast
      exact ⟨hconf.trans hinv.1, hbaud⟩
  | noted u u' hconf =>
      obtain rfl : last' = conf.baud := hlast
      exact hconf

/-- A successful probe starts such a history. -/
theorem ConfigInv.probed {uart : Uart} {boardBaud : Option (BitVec 32)} {s : UartHistory}
    (hfresh : uart.Unprobed) (h : probedUart uart boardBaud = some s) :
    ConfigInv s ∧ s.uart.isSifive = uart.isSifive := by
  simp only [probedUart, uartApplyDefault] at h
  split at h
  · rename_i uart' r hcall
    obtain ⟨hbaud, uart'', heq, hmove⟩ := kUartSetConfig_move hcall
    obtain rfl := Option.some.inj heq
    split at h
    · rename_i hzero
      obtain rfl := Option.some.inj h
      refine ⟨?_, hmove.isSifive_eq⟩
      cases hmove with
      | rejected u => exact absurd hzero (by decide)
      | programmed u u' d hconf hregs =>
          have hold : u.conf = ⟨0⟩ := Option.some.inj (Prod.mk.inj hfresh).1
          exact ⟨hconf.trans hold, hbaud⟩
      | noted u u' hconf => exact hconf
    · exact absurd h nofun
  · exact absurd h nofun

/-- A call that succeeds on a 16550 clears DLAB and changes no other register of that bank. -/
theorem line_of_programmed {u u' : Ns16550} {conf : UartConfig}
    (h : kUartSetConfig (some (.ns16550 u)) conf = some (some (.ns16550 u'), 0)) :
    u'.regs.dlab = false ∧
      (∀ j < 7, (u'.regs.plain regLcr).getLsbD j = (u.regs.plain regLcr).getLsbD j) ∧
      u'.regs.plain regIer = u.regs.plain regIer := by
  obtain ⟨-, uart', heq, hmove⟩ := kUartSetConfig_move h
  obtain rfl := Option.some.inj heq
  generalize hr : (0 : Int) = r at hmove
  cases hmove with
  | rejected => exact absurd hr (by decide)
  | programmed _ _ d hconf hregs =>
      have hlcr : u'.regs.plain regLcr = u.regs.plain regLcr &&& ~~~WordBits.bit 8 7 := by
        rw [hregs]
        exact u.regs.program_lcr d
      refine ⟨?_, ?_, ?_⟩
      · rw [Ns16550Regs.dlab, hlcr, WordBits.getLsbD_and_not_bit _ (by decide), if_pos rfl]
      · intro j hj
        rw [hlcr, WordBits.getLsbD_and_not_bit _ (by decide), if_neg (Nat.ne_of_lt hj)]
      · rw [hregs]
        exact u.regs.program_plain_of_ne d (by decide)

end History

/-- After a successful probe and any calls of `k_uart_set_config`, the configuration of the last
successful call is reported if and only if the driver is that of the SiFive UART. On a 16550 the
other registers are kept, but the configuration is not noted. -/
theorem uart_config_reported_iff {uart : Uart} {boardBaud : Option (BitVec 32)}
    {s s' : UartHistory} {confs : List UartConfig} (hfresh : uart.Unprobed)
    (hprobe : probedUart uart boardBaud = some s)
    (hrun : LabelledSystem.exec setConfigStep s confs = some s') :
    ConfigKept s' ↔ uart.isSifive = true := by
  obtain ⟨hinv, hkind⟩ := ConfigInv.probed hfresh hprobe
  have hend : ConfigInv s' ∧ s'.uart.isSifive = uart.isSifive := by
    refine LabelledSystem.Reachable.invariant
      (I := fun s => ConfigInv s ∧ s.uart.isSifive = uart.isSifive) ?_ ⟨hinv, hkind⟩
      ⟨confs, hrun⟩
    intro s conf s' ⟨hs, hs'⟩ hstep
    obtain ⟨-, r, hmove, -⟩ := setConfigStep_move hstep
    exact ⟨hs.step hstep, hmove.isSifive_eq.trans hs'⟩
  have hline : ∀ u conf u', s'.uart = .ns16550 u →
      kUartSetConfig (some s'.uart) conf = some (some (.ns16550 u'), 0) →
      u'.regs.dlab = false ∧
        (∀ j < 7, (u'.regs.plain regLcr).getLsbD j = (u.regs.plain regLcr).getLsbD j) ∧
        u'.regs.plain regIer = u.regs.plain regIer := by
    intro u conf u' hu hcall
    rw [hu] at hcall
    exact line_of_programmed hcall
  obtain ⟨hinv', hkind'⟩ := hend
  obtain ⟨last, lastBaud⟩ := s'
  rw [← hkind']
  cases last with
  | ns16550 u =>
      constructor
      · intro hkept
        have hreport : u.conf = ⟨lastBaud⟩ := Option.some.inj (Prod.mk.inj hkept.reported).1
        have hzero : (⟨0⟩ : UartConfig) = ⟨lastBaud⟩ := hinv'.1.symm.trans hreport
        exact absurd (UartConfig.mk.inj hzero).symm hinv'.2
      · intro hsifive
        exact absurd hsifive nofun
  | sifive u =>
      constructor
      · intro _
        rfl
      · intro _
        refine ⟨?_, hline⟩
        change (some u.conf, (0 : Int)) = _
        rw [show u.conf = ⟨lastBaud⟩ from hinv']

/-- A SiFive UART at 100 MHz that was not probed. -/
def fastSifive : Uart := .sifive ⟨100000000, ⟨0⟩, fun _ => 0, []⟩

/-- It is probed with the default baud and then set to 115200. -/
theorem uart_config_reported_sifive : ∃ s s', probedUart fastSifive none = some s ∧
    LabelledSystem.exec setConfigStep s [⟨115200⟩] = some s' ∧ s'.last = 115200 ∧
      ConfigKept s' := by
  have hfresh : fastSifive.Unprobed := rfl
  refine ⟨_, _, rfl, rfl, rfl, ?_⟩
  exact (uart_config_reported_iff hfresh (Eq.refl (probedUart fastSifive none))
    (Eq.refl (LabelledSystem.exec setConfigStep _ [⟨115200⟩]))).mpr rfl

/-- A 16550 at 100 MHz is probed with the default baud and reports 0. -/
theorem uart_config_not_noted : ∃ s,
    probedUart (.ns16550 ⟨2, 100000000, ⟨0⟩, ⟨fun _ => 0, fun _ => 0⟩, []⟩) none = some s ∧
      s.last = 9600 ∧ kUartGetConfig (some s.uart) = (some ⟨0⟩, 0) ∧ ¬ConfigKept s := by
  refine ⟨_, rfl, rfl, rfl, fun hkept => ?_⟩
  exact absurd hkept.reported (by decide)

end BaremetalCrt
