import BaremetalCrt.Sys.Args
import BaremetalCrt.Tool.Elf

/-!
# From the program headers of the file to the auxiliary vector

The tool writes a record and a copy of the first bytes of the file with its own types, and
the runtime reads them with types of its own. With the section in memory as it is in the
file, the runtime passes the program headers of the original file to the program.
-/

namespace BaremetalCrt

open LittleEndian (Field)

/-- The word size of the targets of a class. -/
def ElfClass.bits : ElfClass → Nat
  | elf32 => 32
  | elf64 => 64

/-- The runtime is built for the class of the file, and its memory has the section unchanged
at the address of `k_aux_start`. -/
structure SectionLoaded (c : ElfClass) (f : Image) (sec : SecHeader) (r : ArgInput) : Prop where
  target : r.target.bits = c.bits
  fits : r.auxStart + sec.shSize ≤ 2 ^ r.target.bits
  bytes : ∀ i < sec.shSize, r.mem (r.auxStart + i) = f.bytes (sec.shOffset + i)

section Record

variable {x : AuxData} {pad : Nat → UInt8} {i : Nat}

theorem AuxData.encode_valid (hi : i < 4) :
    x.encode pad (kAuxValid.offset + i) = LittleEndian.byte x.valid i := by
  have hsum : kAuxValid.offset + i = i := Nat.zero_add i
  rw [hsum, AuxData.encode, if_pos hi]

theorem AuxData.encode_phent (hi : i < 8) :
    x.encode pad (kAuxPhent.offset + i) = LittleEndian.byte x.phent i := by
  have hsum : kAuxPhent.offset + i = 8 + i := rfl
  rw [hsum, AuxData.encode, if_neg (by omega), if_neg (by omega), if_pos (by omega),
    Nat.add_sub_cancel_left]

theorem AuxData.encode_phnum (hi : i < 8) :
    x.encode pad (kAuxPhnum.offset + i) = LittleEndian.byte x.phnum i := by
  have hsum : kAuxPhnum.offset + i = 16 + i := rfl
  rw [hsum, AuxData.encode, if_neg (by omega), if_neg (by omega), if_neg (by omega),
    if_pos (by omega), Nat.add_sub_cancel_left]

/-- A field of the runtime's record that has the bytes of a number in the tool's record. -/
theorem AuxData.field_get {m : Mem} {base v : Nat} (field : Field)
    (hmem : ∀ i < auxDataSize, m (base + i) = x.encode pad i)
    (hin : field.offset + field.width ≤ auxDataSize)
    (hbytes : ∀ i < field.width, x.encode pad (field.offset + i) = LittleEndian.byte v i)
    (hv : v < 256 ^ field.width) : field.get m base = v := by
  apply LittleEndian.read_byte_of_lt _ hv
  intro i hi
  rw [Nat.add_assoc, hmem (field.offset + i) (by omega)]
  exact hbytes i hi

end Record

section View

variable {c : ElfClass} {f f' : Image} {sec : SecHeader} {pad : Nat → UInt8} {r : ArgInput}

/-- The offset of the program headers is itself among the bytes that are copied. -/
theorem WellFormed.phoff_copied (h : WellFormed c f) :
    c.ehdr.phoff.offset + c.ehdr.phoff.width ≤ (f.header c).phdrEnd := by
  have hphoff := Nat.pos_of_ne_zero h.phoff
  have htable : c.ehdr.phdrSize * 1 ≤ (f.header c).ePhentsize * (f.header c).ePhnum :=
    Nat.mul_le_mul h.phentsize (Nat.pos_of_ne_zero h.phnum)
  have hsmall : c.ehdr.phoff.offset + c.ehdr.phoff.width ≤ c.ehdr.phdrSize := by
    cases c with
    | elf32 => decide
    | elf64 => decide
  unfold ElfInfo.phdrEnd
  omega

/-- The runtime and the tool have `e_phoff` at the same place. -/
theorem SectionLoaded.kEhdrPhoff_eq (h : SectionLoaded c f sec r) :
    kEhdrPhoff r.target = c.ehdr.phoff := by
  unfold kEhdrPhoff
  rw [h.target]
  cases c with
  | elf32 => rfl
  | elf64 => rfl

/-- What the runtime finds at `k_aux_start` and at `__ehdr_start`. -/
structure SeesHeaders (c : ElfClass) (f : Image) (pad : Nat → UInt8) (r : ArgInput) : Prop where
  record : ∀ i < auxDataSize, r.mem (r.auxStart + i) = (auxOf (f.header c)).encode pad i
  image : ∀ a < (f.header c).phdrEnd, r.mem (r.ehdrStart + a) = f.bytes a

theorem SectionLoaded.seesHeaders (h : SectionLoaded c f' sec r) (hsec : AuxSection c f sec)
    (hrecord : ∀ i < auxDataSize,
      f'.bytes (sec.shOffset + i) = (auxOf (f.header c)).encode pad i)
    (himage : ∀ a < (f.header c).phdrEnd,
      f'.bytes (sec.shOffset + auxDataSize + a) = f.bytes a) : SeesHeaders c f pad r where
  record := by
    intro i hi
    rw [h.bytes i (Nat.lt_of_lt_of_le hi (Nat.le_of_add_right_le hsec.room))]
    exact hrecord i hi
  image := by
    intro a ha
    have hin : auxDataSize + a < sec.shSize :=
      Nat.lt_of_lt_of_le (Nat.add_lt_add_left ha auxDataSize) hsec.room
    calc
      r.mem (r.ehdrStart + a) = r.mem (r.auxStart + (auxDataSize + a)) :=
        congrArg r.mem (Nat.add_assoc r.auxStart kAuxSize a)
      _ = f'.bytes (sec.shOffset + (auxDataSize + a)) := h.bytes _ hin
      _ = f'.bytes (sec.shOffset + auxDataSize + a) := by rw [Nat.add_assoc]
      _ = f.bytes a := himage a ha

/-- The calls that the runtime makes for a record that is valid. -/
theorem SeesHeaders.auxCalls_eq (h : SeesHeaders c f pad r) (hf : WellFormed c f)
    (hphoff : kEhdrPhoff r.target = c.ehdr.phoff)
    (hfits : r.ehdrStart + (f.header c).ePhoff < 2 ^ r.target.bits) :
    r.auxCalls = [(atRandomType, r.atRandom), (atPagesz, pageSize),
      (atPhent, (f.header c).ePhentsize), (atPhnum, (f.header c).ePhnum),
      (atPhdr, r.ehdrStart + (f.header c).ePhoff), (atNull, 0)] := by
  obtain ⟨hphent, hphnum, -, -⟩ := f.header_halves c
  have hword := r.target.word_ge
  have hvalid : kAuxValid.get r.mem r.auxStart = 1 :=
    AuxData.field_get kAuxValid h.record (by decide) (fun _ => AuxData.encode_valid) (by decide)
  have hent : kAuxPhent.get r.mem r.auxStart = (f.header c).ePhentsize :=
    AuxData.field_get kAuxPhent h.record (by decide) (fun _ => AuxData.encode_phent)
      (hphent.trans (by decide))
  have hnum : kAuxPhnum.get r.mem r.auxStart = (f.header c).ePhnum :=
    AuxData.field_get kAuxPhnum h.record (by decide) (fun _ => AuxData.encode_phnum)
      (hphnum.trans (by decide))
  have hoff : (kEhdrPhoff r.target).get r.mem r.ehdrStart = (f.header c).ePhoff := by
    rw [hphoff]
    apply Field.get_congr
    intro i _ hi
    rw [Nat.zero_add]
    exact h.image i (Nat.lt_of_lt_of_le hi hf.phoff_copied)
  have hwrap : ∀ {n : Nat}, n < 2 ^ 16 → r.target.wrap n = n := fun hn =>
    Nat.mod_eq_of_lt (hn.trans (Nat.lt_of_lt_of_le (by decide) hword))
  rw [ArgInput.auxCalls, hvalid, hent, hnum, hoff, hwrap hphent, hwrap hphnum, Target.wrap,
    Nat.mod_eq_of_lt hfits]
  rfl

end View

/-- For every executable with a section `.auxdata` that is large enough and apart from its
headers, the tool succeeds, and a runtime with that section in memory pushes the size and
number of the program headers and a pointer to an exact copy of them. The pushes are stored
unless the host passes more arguments than there is room for. -/
theorem embedded_headers_pushed {c : ElfClass} {f : Image} {sec : SecHeader}
    (hf : WellFormed c f) (hsec : AuxSection c f sec) (pad : Nat → UInt8) :
    ∃ f', embedAuxv pad f = .ok f' ∧ ∀ r : ArgInput, SectionLoaded c f' sec r →
      r.auxCalls = [(atRandomType, r.atRandom), (atPagesz, pageSize),
        (atPhent, (f.header c).ePhentsize), (atPhnum, (f.header c).ePhnum),
        (atPhdr, r.ehdrStart + (f.header c).ePhoff), (atNull, 0)] ∧
      (max 1 r.numArgs ≤ r.config.maxArgs + r.config.maxEnvs →
        (initArgs r).AuxAt 2 atPhent (f.header c).ePhentsize ∧
        (initArgs r).AuxAt 3 atPhnum (f.header c).ePhnum ∧
        (initArgs r).AuxAt 4 atPhdr (r.ehdrStart + (f.header c).ePhoff)) ∧
      ∀ j < (f.header c).ePhnum * (f.header c).ePhentsize,
        r.mem (r.ehdrStart + (f.header c).ePhoff + j) = f.bytes ((f.header c).ePhoff + j) := by
  obtain ⟨f', hembed, -, hrecord, himage, -⟩ := embedAuxv_spec hf hsec pad
  refine ⟨f', hembed, fun r hr => ?_⟩
  have hsees : SeesHeaders c f pad r := hr.seesHeaders hsec hrecord himage
  have hend : (f.header c).ePhoff < (f.header c).phdrEnd :=
    Nat.lt_add_of_pos_right (Nat.mul_pos
      (Nat.lt_of_lt_of_le c.headerSizes_pos.1 hf.phentsize) (Nat.pos_of_ne_zero hf.phnum))
  have hfits : r.ehdrStart + (f.header c).ePhoff < 2 ^ r.target.bits := by
    have hroom := hsec.room
    have hin := hr.fits
    change r.auxStart + auxDataSize + (f.header c).ePhoff < _
    omega
  have hcalls := hsees.auxCalls_eq hf hr.kEhdrPhoff_eq hfits
  refine ⟨hcalls, ?_, ?_⟩
  · intro hargs
    have hindex : r.args.index = max 1 r.numArgs :=
      ArgInput.args_index (by unfold ArgConfig.maxArgv; omega)
    have hroom : ∀ k ≤ 4, r.args.index + 2 * k + 3 < r.config.maxArgv := by
      intro k hk
      rw [hindex]
      unfold ArgConfig.maxArgv
      omega
    exact ⟨initArgs_auxAt (hroom 2 (by decide)) (by rw [hcalls]; rfl),
      initArgs_auxAt (hroom 3 (by decide)) (by rw [hcalls]; rfl),
      initArgs_auxAt (hroom 4 (by decide)) (by rw [hcalls]; rfl)⟩
  · intro j hj
    rw [Nat.add_assoc]
    apply hsees.image
    unfold ElfInfo.phdrEnd
    rw [Nat.mul_comm (f.header c).ePhentsize]
    exact Nat.add_lt_add_left hj _

/-- Numbers of given widths, one after the other. -/
def packed (numbers : List (Nat × Nat)) : List UInt8 :=
  numbers.flatMap fun x => (List.range x.2).map (LittleEndian.byte x.1)

/-- A small executable with one program header and a section `.auxdata` at its end. -/
def smallImage : Image where
  size := 332
  bytes := fun a => (packed [
    -- ELF header
    (0x464c457f, 4), (0x010101, 12), (2, 2), (243, 2), (1, 4), (0x80000000, 4), (52, 4), (84, 4),
    (0, 4), (52, 2), (32, 2), (1, 2), (40, 2), (3, 2), (2, 2),
    -- program header
    (1, 4), (216, 4), (0x80000000, 4), (0x80000000, 4), (116, 4), (116, 4), (5, 4), (8, 4),
    -- section headers: unused, `.auxdata`, names; then the names
    (0, 40),
    (1, 4), (1, 4), (2, 4), (0x80000000, 4), (216, 4), (116, 4), (0, 16),
    (0, 4), (3, 4), (0, 8), (204, 4), (10, 4), (0, 16),
    (0, 1), (0x617461647875612e, 9)]).getD a 0

def smallSection : SecHeader := ⟨1, 216, 116⟩

theorem smallImage_wellFormed : WellFormed .elf32 smallImage := by
  constructor <;> decide +kernel

theorem smallImage_auxSection : AuxSection .elf32 smallImage smallSection := by
  have hend : (smallImage.header .elf32).phdrEnd = 84 := by decide +kernel
  refine ⟨⟨1, by decide +kernel, by decide +kernel, ?_, ?_⟩, by decide, ?_, by decide +kernel⟩
  · exact ⟨by decide +kernel, by decide +kernel⟩
  · intro j hj
    obtain rfl : j = 0 := Nat.lt_one_iff.mp hj
    exact fun hname => absurd hname.2 (by decide +kernel)
  · intro a ha _
    rw [hend]
    exact Nat.le_trans (by decide) ha

/-- A 32-bit runtime with the section of a file in memory and no arguments from a host. -/
def smallInput (f : Image) : ArgInput where
  target := ⟨32, Or.inl rfl⟩
  config := ⟨8, 16⟩
  mem := fun a => if 0x80000000 ≤ a then f.bytes (216 + (a - 0x80000000)) else 0
  commArea := 0
  auxStart := 0x80000000
  kernelName := 0x80001000
  atRandom := 0x80001008
  stack := fun _ => 0

theorem embedded_headers_pushed_small : ∃ f', embedAuxv (fun _ => 0) smallImage = .ok f' ∧
    (initArgs (smallInput f')).AuxAt 2 atPhent 32 ∧
    (initArgs (smallInput f')).AuxAt 3 atPhnum 1 ∧
    (initArgs (smallInput f')).AuxAt 4 atPhdr 0x80000054 := by
  obtain ⟨f', hembed, hrun⟩ :=
    embedded_headers_pushed smallImage_wellFormed smallImage_auxSection fun _ => 0
  have hloaded : SectionLoaded .elf32 f' smallSection (smallInput f') := by
    refine ⟨rfl, (show 0x80000000 + 116 ≤ 2 ^ 32 by decide), fun i _ => ?_⟩
    change (if 0x80000000 ≤ 0x80000000 + i then
      f'.bytes (216 + (0x80000000 + i - 0x80000000)) else 0) = _
    rw [if_pos (Nat.le_add_right _ _), Nat.add_sub_cancel_left]
    rfl
  have hent : (smallImage.header .elf32).ePhentsize = 32 := by decide +kernel
  have hnum : (smallImage.header .elf32).ePhnum = 1 := by decide +kernel
  have hoff : (smallImage.header .elf32).ePhoff = 52 := by decide +kernel
  have hstored := (hrun (smallInput f') hloaded).2.1 (by
    change max 1 0 ≤ 8 + 16
    decide)
  rw [hent, hnum, hoff] at hstored
  exact ⟨f', hembed, hstored⟩

end BaremetalCrt
