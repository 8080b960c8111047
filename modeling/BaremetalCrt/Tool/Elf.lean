import BaremetalCrt.Library.LittleEndian
import BaremetalCrt.Sys.String
import Mathlib.Order.Basic

/-!
# The tool that embeds auxiliary data

The build runs a tool on the executable. It looks for the section `.auxdata` and writes a
short record there, followed by a copy of the file from its first byte to the end of the
program headers.

## Implementation notes

A file is mapped, so that it is a memory with a length. The host has 64-bit sizes and
little-endian numbers, and its allocations succeed. The program headers are read for a
listing only. Bytes of the record that belong to no field have any value.
-/

namespace BaremetalCrt

open LittleEndian (Field)

/-- A mapped file. -/
structure Image where
  size : Nat
  bytes : Mem

inductive ElfClass where
  | elf32 | elf64
  deriving DecidableEq

/-- The fields of `Elf32_Ehdr` or `Elf64_Ehdr` that the tool uses, and the sizes of the other
headers. -/
structure EhdrLayout where
  type : Field
  machine : Field
  entry : Field
  phoff : Field
  shoff : Field
  phentsize : Field
  phnum : Field
  shentsize : Field
  shnum : Field
  shstrndx : Field
  phdrSize : Nat
  shdrSize : Nat

def ehdr32 : EhdrLayout :=
  ⟨⟨16, 2⟩, ⟨18, 2⟩, ⟨24, 4⟩, ⟨28, 4⟩, ⟨32, 4⟩, ⟨42, 2⟩, ⟨44, 2⟩, ⟨46, 2⟩, ⟨48, 2⟩, ⟨50, 2⟩, 32, 40⟩

def ehdr64 : EhdrLayout :=
  ⟨⟨16, 2⟩, ⟨18, 2⟩, ⟨24, 8⟩, ⟨32, 8⟩, ⟨40, 8⟩, ⟨54, 2⟩, ⟨56, 2⟩, ⟨58, 2⟩, ⟨60, 2⟩, ⟨62, 2⟩, 56, 64⟩

/-- The fields of `Elf32_Shdr` or `Elf64_Shdr` that the tool uses. -/
structure ShdrLayout where
  name : Field
  offset : Field
  size : Field

def shdr32 : ShdrLayout := ⟨⟨0, 4⟩, ⟨16, 4⟩, ⟨20, 4⟩⟩

def shdr64 : ShdrLayout := ⟨⟨0, 4⟩, ⟨24, 8⟩, ⟨32, 8⟩⟩

def ElfClass.ehdr : ElfClass → EhdrLayout
  | elf32 => ehdr32
  | elf64 => ehdr64

def ElfClass.shdr : ElfClass → ShdrLayout
  | elf32 => shdr32
  | elf64 => shdr64

/-- `e_ident[EI_CLASS]`. -/
def ElfClass.ident : ElfClass → UInt8
  | elf32 => 1
  | elf64 => 2

/-- `struct elf_info`, as far as the tool uses it. -/
structure ElfInfo where
  elfClass : ElfClass
  eType : Nat
  eMachine : Nat
  eEntry : Nat
  ePhoff : Nat
  eShoff : Nat
  ePhentsize : Nat
  ePhnum : Nat
  eShentsize : Nat
  eShnum : Nat
  eShstrndx : Nat

/-- `struct sec_header`, as far as the tool uses it. -/
structure SecHeader where
  shName : Nat
  shOffset : Nat
  shSize : Nat
  deriving DecidableEq

/-- Product of two `uint32_t` values. -/
def mul32 (a b : Nat) : Nat := a * b % 2 ^ 32

/-- `elf_get_class`. -/
def elfGetClass (f : Image) : Except Int ElfClass :=
  if f.bytes 0 ≠ 0x7f ∨ f.bytes 1 ≠ 0x45 ∨ f.bytes 2 ≠ 0x4c ∨ f.bytes 3 ≠ 0x46 then
    .error (-einval)
  else if f.bytes 4 = 1 then .ok .elf32
  else if f.bytes 4 = 2 then .ok .elf64
  else .error (-einval)

/-- The header of a file of the given class. -/
def Image.header (c : ElfClass) (f : Image) : ElfInfo where
  elfClass := c
  eType := c.ehdr.type.get f.bytes 0
  eMachine := c.ehdr.machine.get f.bytes 0
  eEntry := c.ehdr.entry.get f.bytes 0
  ePhoff := c.ehdr.phoff.get f.bytes 0
  eShoff := c.ehdr.shoff.get f.bytes 0
  ePhentsize := c.ehdr.phentsize.get f.bytes 0
  ePhnum := c.ehdr.phnum.get f.bytes 0
  eShentsize := c.ehdr.shentsize.get f.bytes 0
  eShnum := c.ehdr.shnum.get f.bytes 0
  eShstrndx := c.ehdr.shstrndx.get f.bytes 0

/-- The common code of `elf_read_elf32` and `elf_read_elf64`. -/
def elfReadHeader (c : ElfClass) (f : Image) : Except Int ElfInfo :=
  if (f.header c).ePhentsize < c.ehdr.phdrSize then .error (-einval)
  else if (f.header c).eShentsize < c.ehdr.shdrSize then .error (-einval)
  else .ok (f.header c)

/-- `elf_read_elf32`. -/
def elfReadElf32 (f : Image) : Except Int ElfInfo := elfReadHeader .elf32 f

/-- `elf_read_elf64`. -/
def elfReadElf64 (f : Image) : Except Int ElfInfo := elfReadHeader .elf64 f

/-- `elf_read_elf`. -/
def elfReadElf (c : ElfClass) (f : Image) : Except Int ElfInfo :=
  match c with
  | .elf32 => elfReadElf32 f
  | .elf64 => elfReadElf64 f

/-- `elf_is_valid_header`, with `ET_EXEC` and `EM_RISCV`. -/
def elfIsValidHeader (elf : ElfInfo) (elfSize : Nat) : Except Int Unit :=
  if elf.eType ≠ 2 then .error (-einval)
  else if elf.eMachine ≠ 243 then .error (-einval)
  else if elf.ePhoff = 0 ∨ elf.ePhnum = 0 ∨ elf.ePhentsize = 0 then .error (-einval)
  else if elfSize < add64 elf.ePhoff (mul32 elf.ePhnum elf.ePhentsize) then .error (-einval)
  else if elfSize < add64 elf.eShoff (mul32 elf.eShnum elf.eShentsize) then .error (-einval)
  else if elf.eShentsize = 0 then .error (-einval)
  else if elfSize < add64 elf.eShoff (mul32 elf.eShnum elf.eShentsize) then .error (-einval)
  else if elf.eShnum ≤ elf.eShstrndx then .error (-einval)
  else if elf.eEntry % 4 ≠ 0 then .error (-einval)
  else .ok ()

/-- `elf_load`. -/
def elfLoad (f : Image) : Except Int ElfInfo := do
  let c ← elfGetClass f
  let elf ← elfReadElf c f
  elfIsValidHeader elf f.size
  return elf

/-- An entry of `shs`, as `elf_read_shs32` or `elf_read_shs64` reads it. -/
def ElfInfo.shs (elf : ElfInfo) (m : Mem) (i : Nat) : SecHeader :=
  let base := elf.eShoff + mul32 i elf.eShentsize
  ⟨elf.elfClass.shdr.name.get m base, elf.elfClass.shdr.offset.get m base,
    elf.elfClass.shdr.size.get m base⟩

/-- The comparison of the string at an address with a text. -/
def stringAt (m : Mem) : Nat → List UInt8 → Bool
  | a, [] => m a == 0
  | a, c :: cs => m a == c && stringAt m (a + 1) cs

/-- The text that `get_sh_name` returns for an offset outside of the name table. -/
def unknownName : CStr := CStr.ofChars "(unknown)".toList

/-- The comparison of the result of `get_sh_name` with a text. -/
def ElfInfo.shNameIs (elf : ElfInfo) (m : Mem) (name : CStr) (s : SecHeader) : Bool :=
  let shstr := elf.shs m elf.eShstrndx
  if shstr.shSize ≤ s.shName then decide (name = unknownName)
  else stringAt m (shstr.shOffset + s.shName) name.bytes

/-- `find_shs`. -/
def findShs (elf : ElfInfo) (m : Mem) (name : CStr) : Option SecHeader :=
  ((List.range elf.eShnum).map (elf.shs m)).find? (elf.shNameIs m name)

/-- `struct __aux_data` of the tool. -/
structure AuxData where
  valid : Nat
  phent : Nat
  phnum : Nat
  phdrSize : Nat

/-- `sizeof(struct __aux_data)`. -/
def auxDataSize : Nat := 32

/-- The bytes of `struct __aux_data` on a 64-bit host; four of them belong to no field. -/
def AuxData.encode (x : AuxData) (pad : Nat → UInt8) (i : Nat) : UInt8 :=
  if i < 4 then LittleEndian.byte x.valid i
  else if i < 8 then pad i
  else if i < 16 then LittleEndian.byte x.phent (i - 8)
  else if i < 24 then LittleEndian.byte x.phnum (i - 16)
  else LittleEndian.byte x.phdrSize (i - 24)

def auxdataName : CStr := CStr.ofChars ".auxdata".toList

/-- `embed_auxv`. -/
def embedAuxv (pad : Nat → UInt8) (f : Image) : Except Int Image :=
  match elfLoad f with
  | .error _ => .error (-einval)
  | .ok elf =>
      match findShs elf f.bytes auxdataName with
      | none => .error (-einval)
      | some sec =>
          let aux : AuxData := ⟨1, elf.ePhentsize, elf.ePhnum, mul32 elf.ePhentsize elf.ePhnum⟩
          if sec.shSize < add64 (add64 auxDataSize elf.ePhoff) aux.phdrSize then
            .error (-enomem)
          else
            let m := LittleEndian.copy f.bytes sec.shOffset (aux.encode pad) auxDataSize
            .ok ⟨f.size, LittleEndian.copy m (sec.shOffset + auxDataSize) m
              (add64 elf.ePhoff aux.phdrSize)⟩

/-- The end of the program headers in the file. -/
def ElfInfo.phdrEnd (elf : ElfInfo) : Nat := elf.ePhoff + elf.ePhentsize * elf.ePhnum

/-- An executable for RISC-V of the given class, with all headers in the file. -/
structure WellFormed (c : ElfClass) (f : Image) : Prop where
  magic : f.bytes 0 = 0x7f ∧ f.bytes 1 = 0x45 ∧ f.bytes 2 = 0x4c ∧ f.bytes 3 = 0x46
  ident : f.bytes 4 = c.ident
  size : f.size < 2 ^ 64
  type : (f.header c).eType = 2
  machine : (f.header c).eMachine = 243
  entry : (f.header c).eEntry % 4 = 0
  phoff : (f.header c).ePhoff ≠ 0
  phnum : (f.header c).ePhnum ≠ 0
  phentsize : c.ehdr.phdrSize ≤ (f.header c).ePhentsize
  shentsize : c.ehdr.shdrSize ≤ (f.header c).eShentsize
  phdrs : (f.header c).phdrEnd ≤ f.size
  shdrs : (f.header c).eShoff + (f.header c).eShentsize * (f.header c).eShnum ≤ f.size
  shstrndx : (f.header c).eShstrndx < (f.header c).eShnum

/-- The name table of the file gives the section this name. -/
def ElfInfo.HasName (elf : ElfInfo) (m : Mem) (name : CStr) (s : SecHeader) : Prop :=
  s.shName < (elf.shs m elf.eShstrndx).shSize ∧
    stringAt m ((elf.shs m elf.eShstrndx).shOffset + s.shName) name.bytes = true

/-- The first section `.auxdata` of the file, which is inside it, apart from the headers that
are copied, and large enough. -/
structure AuxSection (c : ElfClass) (f : Image) (sec : SecHeader) : Prop where
  first : ∃ i < (f.header c).eShnum, (f.header c).shs f.bytes i = sec ∧
    (f.header c).HasName f.bytes auxdataName sec ∧
    ∀ j < i, ¬(f.header c).HasName f.bytes auxdataName ((f.header c).shs f.bytes j)
  inside : sec.shOffset + sec.shSize ≤ f.size
  apart : ∀ a, sec.shOffset ≤ a → a < sec.shOffset + sec.shSize → (f.header c).phdrEnd ≤ a
  room : auxDataSize + (f.header c).phdrEnd ≤ sec.shSize

theorem ElfInfo.shNameIs_iff {elf : ElfInfo} {m : Mem} {name : CStr} {s : SecHeader}
    (hname : name ≠ unknownName) :
    elf.shNameIs m name s = true ↔ elf.HasName m name s := by
  unfold ElfInfo.shNameIs ElfInfo.HasName
  by_cases hs : (elf.shs m elf.eShstrndx).shSize ≤ s.shName
  · simp [hs, hname, Nat.not_lt.mpr hs]
  · simp [hs, Nat.lt_of_not_le hs]

/-- The search returns the first section of the name. -/
theorem findShs_of_first {elf : ElfInfo} {m : Mem} {name : CStr} {i : Nat}
    (hname : name ≠ unknownName) (hi : i < elf.eShnum)
    (hyes : elf.HasName m name (elf.shs m i))
    (hno : ∀ j < i, ¬elf.HasName m name (elf.shs m j)) :
    findShs elf m name = some (elf.shs m i) := by
  have hfind : (List.range elf.eShnum).find? (elf.shNameIs m name ∘ elf.shs m) = some i := by
    rw [List.find?_range_eq_some]
    refine ⟨(ElfInfo.shNameIs_iff hname).mpr hyes, List.mem_range.mpr hi, ?_⟩
    intro j hj
    have hj := mt (ElfInfo.shNameIs_iff hname).mp (hno j hj)
    simpa using hj
  rw [findShs, List.find?_map, hfind]
  rfl

/-- The section that is found is the first one of the name. -/
theorem findShs_first {elf : ElfInfo} {m : Mem} {name : CStr} {sec : SecHeader}
    (hname : name ≠ unknownName) (h : findShs elf m name = some sec) :
    ∃ i < elf.eShnum, elf.shs m i = sec ∧ elf.HasName m name sec ∧
      ∀ j < i, ¬elf.HasName m name (elf.shs m j) := by
  rw [findShs, List.find?_map] at h
  obtain ⟨i, hi, rfl⟩ := Option.map_eq_some_iff.mp h
  obtain ⟨hyes, hmem, hno⟩ := List.find?_range_eq_some.mp hi
  refine ⟨i, List.mem_range.mp hmem, rfl, (ElfInfo.shNameIs_iff hname).mp hyes, ?_⟩
  intro j hj hbefore
  have hj := hno j hj
  rw [Function.comp_apply, (ElfInfo.shNameIs_iff hname).mpr hbefore] at hj
  exact nomatch hj

section Load

variable {c : ElfClass} {f : Image} {sec : SecHeader}

theorem mul_lt_of_half {a b : Nat} (ha : a < 2 ^ 16) (hb : b < 2 ^ 16) : a * b < 2 ^ 32 := by
  calc
    a * b < 2 ^ 16 * 2 ^ 16 := Nat.mul_lt_mul'' ha hb
    _ = 2 ^ 32 := by decide

theorem mul32_of_half {a b : Nat} (ha : a < 2 ^ 16) (hb : b < 2 ^ 16) : mul32 a b = a * b :=
  Nat.mod_eq_of_lt (mul_lt_of_half ha hb)

theorem ElfClass.headerSizes_pos (c : ElfClass) : 0 < c.ehdr.phdrSize ∧ 0 < c.ehdr.shdrSize := by
  cases c with
  | elf32 => decide
  | elf64 => decide

/-- The counts and sizes of the header are half words. -/
theorem Image.header_halves (c : ElfClass) (f : Image) :
    (f.header c).ePhentsize < 2 ^ 16 ∧ (f.header c).ePhnum < 2 ^ 16 ∧
      (f.header c).eShentsize < 2 ^ 16 ∧ (f.header c).eShnum < 2 ^ 16 := by
  cases c with
  | elf32 =>
      exact ⟨LittleEndian.read_lt _ _ 2, LittleEndian.read_lt _ _ 2, LittleEndian.read_lt _ _ 2,
        LittleEndian.read_lt _ _ 2⟩
  | elf64 =>
      exact ⟨LittleEndian.read_lt _ _ 2, LittleEndian.read_lt _ _ 2, LittleEndian.read_lt _ _ 2,
        LittleEndian.read_lt _ _ 2⟩

theorem WellFormed.getClass (h : WellFormed c f) : elfGetClass f = .ok c := by
  obtain ⟨h0, h1, h2, h3⟩ := h.magic
  have hident := h.ident
  unfold elfGetClass
  cases c with
  | elf32 => simp [h0, h1, h2, h3, hident, ElfClass.ident]
  | elf64 => simp [h0, h1, h2, h3, hident, ElfClass.ident]

theorem WellFormed.readElf (h : WellFormed c f) : elfReadElf c f = .ok (f.header c) := by
  have hread : elfReadHeader c f = .ok (f.header c) := by
    rw [elfReadHeader, if_neg (not_lt.mpr h.phentsize), if_neg (not_lt.mpr h.shentsize)]
  cases c with
  | elf32 => exact hread
  | elf64 => exact hread

/-- The ends of both tables are computed without overflow. -/
theorem WellFormed.ends (h : WellFormed c f) :
    add64 (f.header c).ePhoff (mul32 (f.header c).ePhnum (f.header c).ePhentsize) =
        (f.header c).phdrEnd ∧
      add64 (f.header c).eShoff (mul32 (f.header c).eShnum (f.header c).eShentsize) =
        (f.header c).eShoff + (f.header c).eShentsize * (f.header c).eShnum := by
  obtain ⟨hphent, hphnum, hshent, hshnum⟩ := f.header_halves c
  rw [mul32_of_half hphnum hphent, mul32_of_half hshnum hshent, Nat.mul_comm (f.header c).ePhnum,
    Nat.mul_comm (f.header c).eShnum]
  exact ⟨add64_of_lt (h.phdrs.trans_lt h.size), add64_of_lt (h.shdrs.trans_lt h.size)⟩

theorem WellFormed.validHeader (h : WellFormed c f) :
    elfIsValidHeader (f.header c) f.size = .ok () := by
  have hphent : (f.header c).ePhentsize ≠ 0 := (c.headerSizes_pos.1.trans_le h.phentsize).ne'
  have hshent : (f.header c).eShentsize ≠ 0 := (c.headerSizes_pos.2.trans_le h.shentsize).ne'
  have hnone : ¬((f.header c).ePhoff = 0 ∨ (f.header c).ePhnum = 0 ∨
      (f.header c).ePhentsize = 0) := by
    simp [h.phoff, h.phnum, hphent]
  rw [elfIsValidHeader, h.ends.1, h.ends.2, if_neg (not_not.mpr h.type),
    if_neg (not_not.mpr h.machine), if_neg hnone, if_neg (not_lt.mpr h.phdrs),
    if_neg (not_lt.mpr h.shdrs), if_neg hshent, if_neg (not_lt.mpr h.shdrs),
    if_neg (not_le.mpr h.shstrndx), if_neg (not_not.mpr h.entry)]

theorem WellFormed.load (h : WellFormed c f) : elfLoad f = .ok (f.header c) := by
  simp only [elfLoad, h.getClass, h.readElf, h.validHeader, bind, Except.bind, pure, Except.pure]

theorem AuxSection.find (h : AuxSection c f sec) :
    findShs (f.header c) f.bytes auxdataName = some sec := by
  obtain ⟨i, hi, rfl, hyes, hno⟩ := h.first
  exact findShs_of_first (by decide) hi hyes hno

/-- The record that the tool writes. -/
def auxOf (elf : ElfInfo) : AuxData :=
  ⟨1, elf.ePhentsize, elf.ePhnum, elf.ePhentsize * elf.ePhnum⟩

/-- The size of the copied part is the end of the program headers unless that sum wraps. -/
theorem copiedSize_eq (h : (f.header c).phdrEnd < 2 ^ 64) :
    add64 (f.header c).ePhoff (mul32 (f.header c).ePhentsize (f.header c).ePhnum) =
      (f.header c).phdrEnd := by
  obtain ⟨hphent, hphnum, -, -⟩ := f.header_halves c
  rw [mul32_of_half hphent hphnum]
  exact add64_of_lt h

/-- The size that the section needs, unless that sum wraps. -/
theorem neededSize_eq (h : auxDataSize + (f.header c).phdrEnd < 2 ^ 64) :
    add64 (add64 auxDataSize (f.header c).ePhoff)
        (mul32 (f.header c).ePhentsize (f.header c).ePhnum) =
      auxDataSize + (f.header c).phdrEnd := by
  obtain ⟨hphent, hphnum, -, -⟩ := f.header_halves c
  unfold ElfInfo.phdrEnd at h ⊢
  have hrecord : add64 auxDataSize (f.header c).ePhoff = auxDataSize + (f.header c).ePhoff :=
    add64_of_lt (by omega)
  rw [mul32_of_half hphent hphnum, hrecord, add64_of_lt (by omega), Nat.add_assoc]

/-- What the tool writes into a file that it accepts. -/
theorem embedAuxv_eq (h : WellFormed c f) (hsec : AuxSection c f sec) (pad : Nat → UInt8) :
    embedAuxv pad f = .ok ⟨f.size, LittleEndian.copy
      (LittleEndian.copy f.bytes sec.shOffset ((auxOf (f.header c)).encode pad) auxDataSize)
      (sec.shOffset + auxDataSize)
      (LittleEndian.copy f.bytes sec.shOffset ((auxOf (f.header c)).encode pad) auxDataSize)
      (f.header c).phdrEnd⟩ := by
  obtain ⟨hphent, hphnum, -, -⟩ := f.header_halves c
  have hmul : mul32 (f.header c).ePhentsize (f.header c).ePhnum =
      (f.header c).ePhentsize * (f.header c).ePhnum := mul32_of_half hphent hphnum
  have hend := copiedSize_eq (h.phdrs.trans_lt h.size)
  -- the section is in the file, so the size that is needed does not overflow either
  have hneed : add64 (add64 auxDataSize (f.header c).ePhoff)
      (mul32 (f.header c).ePhentsize (f.header c).ePhnum) =
        auxDataSize + (f.header c).phdrEnd := by
    have hroom := hsec.room
    have hin := hsec.inside
    have hsize := h.size
    exact neededSize_eq (by omega)
  rw [hmul] at hend hneed
  simp only [embedAuxv, h.load, hsec.find, hmul, hneed, if_neg (not_lt.mpr hsec.room), hend]
  rfl

theorem AuxSection.after (h : AuxSection c f sec) : (f.header c).phdrEnd ≤ sec.shOffset := by
  apply h.apart sec.shOffset (Nat.le_refl _)
  have hroom := h.room
  unfold auxDataSize at hroom
  omega

/-- The tool accepts the file. The section then starts with the record and the original bytes
up to the end of the program headers, and all other bytes of the file are as before. -/
theorem embedAuxv_spec (h : WellFormed c f) (hsec : AuxSection c f sec) (pad : Nat → UInt8) :
    ∃ f', embedAuxv pad f = .ok f' ∧ f'.size = f.size ∧
      (∀ i < auxDataSize, f'.bytes (sec.shOffset + i) = (auxOf (f.header c)).encode pad i) ∧
      (∀ a < (f.header c).phdrEnd, f'.bytes (sec.shOffset + auxDataSize + a) = f.bytes a) ∧
      (∀ a, a < sec.shOffset ∨ sec.shOffset + sec.shSize ≤ a → f'.bytes a = f.bytes a) := by
  refine ⟨_, embedAuxv_eq h hsec pad, rfl, ?_, ?_, ?_⟩
  · intro i hi
    exact (LittleEndian.copy_of_lt (Nat.add_lt_add_left hi _)).trans (LittleEndian.copy_add hi)
  · intro a ha
    have hbefore : a < sec.shOffset := Nat.lt_of_lt_of_le ha hsec.after
    exact (LittleEndian.copy_add ha).trans (LittleEndian.copy_of_lt hbefore)
  · intro a ha
    have hroom := hsec.room
    have hafter : a < sec.shOffset + auxDataSize ∨
        sec.shOffset + auxDataSize + (f.header c).phdrEnd ≤ a := by omega
    have hrecord : a < sec.shOffset ∨ sec.shOffset + auxDataSize ≤ a := by omega
    exact (LittleEndian.copy_of_outside hafter).trans (LittleEndian.copy_of_outside hrecord)

end Load

section Accept

variable {c : ElfClass} {f : Image} {elf : ElfInfo} {sec : SecHeader}

/-- What `elf_load` has checked, with the ends of the tables as it computes them. -/
structure Checked (c : ElfClass) (f : Image) : Prop where
  magic : f.bytes 0 = 0x7f ∧ f.bytes 1 = 0x45 ∧ f.bytes 2 = 0x4c ∧ f.bytes 3 = 0x46
  ident : f.bytes 4 = c.ident
  phentsize : c.ehdr.phdrSize ≤ (f.header c).ePhentsize
  shentsize : c.ehdr.shdrSize ≤ (f.header c).eShentsize
  type : (f.header c).eType = 2
  machine : (f.header c).eMachine = 243
  phoff : (f.header c).ePhoff ≠ 0
  phnum : (f.header c).ePhnum ≠ 0
  phdrs : add64 (f.header c).ePhoff (mul32 (f.header c).ePhnum (f.header c).ePhentsize) ≤ f.size
  shdrs : add64 (f.header c).eShoff (mul32 (f.header c).eShnum (f.header c).eShentsize) ≤ f.size
  shstrndx : (f.header c).eShstrndx < (f.header c).eShnum
  entry : (f.header c).eEntry % 4 = 0

/-- A check that has been passed. -/
theorem check_eq_ok_iff {α : Type} {p : Prop} [Decidable p] {e : Int} {x : Except Int α} {a : α} :
    (if p then .error e else x) = .ok a ↔ ¬p ∧ x = .ok a := by
  by_cases hp : p
  · rw [if_pos hp]
    exact ⟨(fun h => nomatch h), fun h => absurd hp h.1⟩
  · rw [if_neg hp]
    exact ⟨fun h => ⟨hp, h⟩, fun h => h.2⟩

theorem elfGetClass_ok (h : elfGetClass f = .ok c) :
    (f.bytes 0 = 0x7f ∧ f.bytes 1 = 0x45 ∧ f.bytes 2 = 0x4c ∧ f.bytes 3 = 0x46) ∧
      f.bytes 4 = c.ident := by
  obtain ⟨hmagic, h⟩ := check_eq_ok_iff.mp h
  simp only [not_or, not_not] at hmagic
  refine ⟨hmagic, ?_⟩
  by_cases h32 : f.bytes 4 = 1
  · rw [if_pos h32] at h
    obtain rfl := Except.ok.inj h
    exact h32
  · by_cases h64 : f.bytes 4 = 2
    · rw [if_neg h32, if_pos h64] at h
      obtain rfl := Except.ok.inj h
      exact h64
    · rw [if_neg h32, if_neg h64] at h
      exact nomatch h

theorem elfReadElf_eq_header (c : ElfClass) (f : Image) : elfReadElf c f = elfReadHeader c f := by
  cases c with
  | elf32 => rfl
  | elf64 => rfl

theorem elfReadElf_ok (h : elfReadElf c f = .ok elf) :
    elf = f.header c ∧ c.ehdr.phdrSize ≤ (f.header c).ePhentsize ∧
      c.ehdr.shdrSize ≤ (f.header c).eShentsize := by
  rw [elfReadElf_eq_header] at h
  obtain ⟨hph, h⟩ := check_eq_ok_iff.mp h
  obtain ⟨hsh, h⟩ := check_eq_ok_iff.mp h
  exact ⟨(Except.ok.inj h).symm, not_lt.mp hph, not_lt.mp hsh⟩

/-- A file that loads has passed every check. -/
theorem Checked.of_load (h : elfLoad f = .ok elf) : ∃ c, elf = f.header c ∧ Checked c f := by
  unfold elfLoad at h
  cases hclass : elfGetClass f with
  | error e =>
      rw [hclass] at h
      exact nomatch h
  | ok c =>
      cases hread : elfReadElf c f with
      | error e =>
          simp only [hclass, hread, bind, Except.bind] at h
          exact nomatch h
      | ok elf' =>
          obtain ⟨rfl, hph, hsh⟩ := elfReadElf_ok hread
          obtain ⟨hmagic, hident⟩ := elfGetClass_ok hclass
          cases hvalid : elfIsValidHeader (f.header c) f.size with
          | error e =>
              simp only [hclass, hread, hvalid, bind, Except.bind] at h
              exact nomatch h
          | ok _ =>
              simp only [hclass, hread, hvalid, bind, Except.bind] at h
              simp only [elfIsValidHeader, check_eq_ok_iff, not_or] at hvalid
              obtain ⟨htype, hmachine, hnone, hphdrs, hshdrs, -, -, hndx, hentry, -⟩ := hvalid
              exact ⟨c, (Except.ok.inj h).symm,
                { magic := hmagic, ident := hident, phentsize := hph, shentsize := hsh,
                  type := not_not.mp htype, machine := not_not.mp hmachine, phoff := hnone.1,
                  phnum := hnone.2.1, phdrs := not_lt.mp hphdrs, shdrs := not_lt.mp hshdrs,
                  shstrndx := not_le.mp hndx, entry := not_not.mp hentry }⟩

/-- A file whose tables end in it, and not only modulo the word size. -/
theorem Checked.wellFormed (h : Checked c f) (hsize : f.size < 2 ^ 64)
    (hphdrs : (f.header c).phdrEnd ≤ f.size)
    (hshdrs : (f.header c).eShoff + (f.header c).eShentsize * (f.header c).eShnum ≤ f.size) :
    WellFormed c f where
  magic := h.magic
  ident := h.ident
  size := hsize
  type := h.type
  machine := h.machine
  entry := h.entry
  phoff := h.phoff
  phnum := h.phnum
  phentsize := h.phentsize
  shentsize := h.shentsize
  phdrs := hphdrs
  shdrs := hshdrs
  shstrndx := h.shstrndx

/-- The part of `embed_auxv` before its stores. -/
def auxTarget (f : Image) : Except Int (ElfInfo × SecHeader) :=
  match elfLoad f with
  | .error _ => .error (-einval)
  | .ok elf =>
      match findShs elf f.bytes auxdataName with
      | none => .error (-einval)
      | some sec =>
          if sec.shSize < add64 (add64 auxDataSize elf.ePhoff) (mul32 elf.ePhentsize elf.ePhnum)
          then .error (-enomem) else .ok (elf, sec)

/-- The tool gets as far as its stores exactly if the file loads, it has the section, and the
section is large enough for the size that the tool computes. -/
theorem auxTarget_eq_ok_iff :
    auxTarget f = .ok (elf, sec) ↔
      elfLoad f = .ok elf ∧ findShs elf f.bytes auxdataName = some sec ∧
        add64 (add64 auxDataSize elf.ePhoff) (mul32 elf.ePhentsize elf.ePhnum) ≤ sec.shSize := by
  constructor
  · intro h
    unfold auxTarget at h
    cases hload : elfLoad f with
    | error e =>
        rw [hload] at h
        exact nomatch h
    | ok elf' =>
        cases hfind : findShs elf' f.bytes auxdataName with
        | none =>
            simp only [hload, hfind] at h
            exact nomatch h
        | some sec' =>
            simp only [hload, hfind] at h
            split_ifs at h with hroom
            obtain ⟨rfl, rfl⟩ := Prod.mk.inj (Except.ok.inj h)
            exact ⟨rfl, hfind, not_lt.mp hroom⟩
  · rintro ⟨hload, hfind, hroom⟩
    simp only [auxTarget, hload, hfind]
    exact if_neg (not_lt.mpr hroom)

/-- The tool rejects a file before its stores or not at all. -/
theorem embedAuxv_eq_error (pad : Nat → UInt8) {e : Int} (h : auxTarget f = .error e) :
    embedAuxv pad f = .error e := by
  unfold auxTarget at h
  unfold embedAuxv
  cases hload : elfLoad f with
  | error e' =>
      rw [hload] at h
      exact congrArg Except.error (Except.error.inj h)
  | ok elf =>
      cases hfind : findShs elf f.bytes auxdataName with
      | none =>
          simp only [hload, hfind] at h ⊢
          exact congrArg Except.error (Except.error.inj h)
      | some sec =>
          simp only [hload, hfind] at h ⊢
          split_ifs at h ⊢ with hroom
          exact congrArg Except.error (Except.error.inj h)

/-- What the tool writes into a file that it does not reject. -/
theorem embedAuxv_eq_ok (pad : Nat → UInt8) (h : auxTarget f = .ok (elf, sec)) :
    embedAuxv pad f = .ok ⟨f.size,
      let aux : AuxData := ⟨1, elf.ePhentsize, elf.ePhnum, mul32 elf.ePhentsize elf.ePhnum⟩
      let m := LittleEndian.copy f.bytes sec.shOffset (aux.encode pad) auxDataSize
      LittleEndian.copy m (sec.shOffset + auxDataSize) m (add64 elf.ePhoff aux.phdrSize)⟩ := by
  obtain ⟨hload, hfind, hroom⟩ := auxTarget_eq_ok_iff.mp h
  simp only [embedAuxv, hload, hfind]
  exact if_neg (not_lt.mpr hroom)

end Accept

end BaremetalCrt
