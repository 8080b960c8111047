import BaremetalCrt.Tool.Bounds

/-!
# Running the tool again

A file that the tool rejects is not changed. In a file whose section `.auxdata` is apart from all
that the tool reads, a second run finds the same numbers as the first one and writes the same
bytes, apart from those of the record that belong to no field.

## Implementation notes

The tool does not compare the section with anything else in the file. Two conditions that an
executable from a linker meets are needed here: the section is apart from the whole ELF header,
also where that is longer than the part that is copied, and its name ends in the name table.
-/

namespace BaremetalCrt

open AccessLog

/-- The bytes of the section are outside of a block. -/
def SecHeader.Avoids (sec : SecHeader) (start len : Nat) : Prop :=
  ∀ a < start + len, start ≤ a → a < sec.shOffset ∨ sec.shOffset + sec.shSize ≤ a

instance (sec : SecHeader) (start len : Nat) : Decidable (sec.Avoids start len) :=
  inferInstanceAs (Decidable (∀ a < start + len, start ≤ a →
    a < sec.shOffset ∨ sec.shOffset + sec.shSize ≤ a))

/-- The headers, the names and the section are in the file, and the section is apart from the
section headers, the names and the bytes that are copied. -/
structure Layout (f : FileImage) (elf : ElfInfo) (sec : SecHeader) : Prop where
  header : elf.elfClass.ehdrSize ≤ f.size
  phdrs : elf.phdrEnd ≤ f.size
  shdrs : elf.eShoff + elf.eShentsize * elf.eShnum ≤ f.size
  names : (elf.shs f.mem.view elf.eShstrndx).shOffset +
    (elf.shs f.mem.view elf.eShstrndx).shSize ≤ f.size
  target : sec.shOffset + sec.shSize ≤ f.size
  avoidsShdrs : sec.Avoids elf.eShoff (elf.eShentsize * elf.eShnum)
  avoidsNames : sec.Avoids (elf.shs f.mem.view elf.eShstrndx).shOffset
    (elf.shs f.mem.view elf.eShstrndx).shSize
  avoidsPrefix : sec.Avoids 0 elf.phdrEnd

/-- The section is apart from the ELF header too, and its name ends in the name table. -/
structure LinkedLayout (f : FileImage) (elf : ElfInfo) (sec : SecHeader) : Prop
    extends Layout f elf sec where
  avoidsHeader : sec.Avoids 0 elf.elfClass.ehdrSize
  nameEnds : sec.shName + auxdataName.bytes.length < (elf.shs f.mem.view elf.eShstrndx).shSize

/-- The file after a run. -/
def FileImage.after (f : FileImage) (pad : Nat → UInt8) : FileImage :=
  ⟨f.size, (f.run pad).2.mem, f.size_lt⟩

section Stored

theorem HostMem.eq_of_view {m m' : HostMem} {a : BitVec 64} (h : m.view a.toNat = m'.view a.toNat) :
    m a = m' a := by
  rwa [HostMem.view, HostMem.view, BitVec.ofNat_toNat, BitVec.setWidth_eq] at h

variable {f : FileImage} {elf : ElfInfo} {sec : SecHeader} {pad : Nat → UInt8}

/-- What the stores change in a memory: the record, the copy behind it, and no other byte. -/
structure StoredAs (elf : ElfInfo) (sec : SecHeader) (pad : Nat → UInt8) (m m' : Mem) : Prop where
  record : ∀ i < auxDataSize, m' (sec.shOffset + i) = (Traced.auxData elf).encode pad i
  copied : ∀ j < elf.phdrEnd, m' (sec.shOffset + auxDataSize + j) = m j
  other : ∀ a < 2 ^ 64, a < sec.shOffset ∨ sec.shOffset + auxDataSize + elf.phdrEnd ≤ a →
    m' a = m a

/-- The stores of a section that is behind the copied bytes and does not wrap. -/
theorem stored_storedAs (m : HostMem) (pad : Nat → UInt8)
    (hcopied : Traced.prefixSize elf = elf.phdrEnd) (hbelow : elf.phdrEnd ≤ sec.shOffset)
    (hfit : sec.shOffset + auxDataSize + elf.phdrEnd < 2 ^ 64) :
    StoredAs elf sec pad m.view (Traced.stored pad elf sec m).view := by
  have hview : ∀ a < 2 ^ 64, (Traced.stored pad elf sec m).view a =
      let record :=
        LittleEndian.copy m.view sec.shOffset ((Traced.auxData elf).encode pad) auxDataSize
      LittleEndian.copy record (sec.shOffset + auxDataSize) record elf.phdrEnd a := by
    intro a ha
    rw [← hcopied] at hfit ⊢
    exact Traced.stored_view hfit.le ha
  constructor
  · intro i hi
    rw [hview _ (by omega), LittleEndian.copy_of_lt (by omega), LittleEndian.copy_add hi]
  · intro j hj
    rw [hview _ (by omega), LittleEndian.copy_add hj, LittleEndian.copy_of_lt (by omega)]
  · intro a ha hout
    rw [hview a ha, LittleEndian.copy_of_outside (by omega),
      LittleEndian.copy_of_outside (by omega)]

end Stored

section Congr

variable {c : ElfClass} {f g : Image} {elf : ElfInfo} {m m' : Mem}

/-- All fields of the header that the tool uses. -/
def EhdrLayout.fields (x : EhdrLayout) : List LittleEndian.Field :=
  [x.type, x.machine, x.entry, x.phoff, x.shoff, x.phentsize, x.phnum, x.shentsize, x.shnum,
    x.shstrndx]

/-- All fields of a section header that the tool uses. -/
def ShdrLayout.fields (x : ShdrLayout) : List LittleEndian.Field := [x.name, x.offset, x.size]

theorem ElfClass.fields_inside (c : ElfClass) :
    (∀ x ∈ c.ehdr.fields, x.offset + x.width ≤ c.ehdrSize) ∧
      ∀ x ∈ c.shdr.fields, x.offset + x.width ≤ c.ehdr.shdrSize := by
  cases c with
  | elf32 => decide
  | elf64 => decide

/-- The header of a file depends on its own bytes only. -/
theorem Image.header_congr (h : ∀ a < c.ehdrSize, f.bytes a = g.bytes a) :
    f.header c = g.header c := by
  have hfields : ∀ x ∈ c.ehdr.fields, x.get f.bytes 0 = x.get g.bytes 0 := by
    intro x hx
    apply LittleEndian.Field.get_congr
    intro i _ hi
    rw [Nat.zero_add]
    exact h i (Nat.lt_of_lt_of_le hi (c.fields_inside.1 x hx))
  simp only [EhdrLayout.fields, List.forall_mem_cons] at hfields
  simp only [Image.header, hfields]

/-- An entry of the section headers depends on its own bytes only. -/
theorem ElfInfo.shs_congr {i : Nat}
    (h : ∀ k < elf.elfClass.ehdr.shdrSize, m (elf.eShoff + mul32 i elf.eShentsize + k) =
      m' (elf.eShoff + mul32 i elf.eShentsize + k)) : elf.shs m i = elf.shs m' i := by
  have hfields : ∀ x ∈ elf.elfClass.shdr.fields,
      x.get m (elf.eShoff + mul32 i elf.eShentsize) =
        x.get m' (elf.eShoff + mul32 i elf.eShentsize) := by
    intro x hx
    apply LittleEndian.Field.get_congr
    intro k _ hk
    exact h k (Nat.lt_of_lt_of_le hk (elf.elfClass.fields_inside.2 x hx))
  simp only [ShdrLayout.fields, List.forall_mem_cons] at hfields
  simp only [ElfInfo.shs, hfields]

/-- A comparison depends on the bytes that a string of the same length has. -/
theorem stringAt_congr {a : Nat} {cs : List UInt8}
    (h : ∀ i ≤ cs.length, m (a + i) = m' (a + i)) : stringAt m a cs = stringAt m' a cs := by
  induction cs generalizing a with
  | nil =>
      have hend : m a = m' a := h 0 (Nat.le_refl 0)
      rw [stringAt, stringAt, hend]
  | cons c cs ih =>
      have hfirst : m a = m' a := h 0 (Nat.zero_le _)
      have hrest : stringAt m (a + 1) cs = stringAt m' (a + 1) cs := by
        apply ih
        intro i hi
        rw [Nat.add_right_comm]
        exact h (i + 1) (Nat.succ_le_succ hi)
      rw [stringAt, stringAt, hfirst, hrest]

/-- Bytes that begin with a 1 do not make a string in front of them match a text without that
character. -/
theorem stringAt_of_changed {a low high : Nat} {cs : List UInt8} (hone : m' low = 1)
    (hlow : low < high) (hsame : ∀ a < 2 ^ 64, a < low ∨ high ≤ a → m' a = m a)
    (hcs : ∀ c ∈ cs, c ≠ 1) (ha : a ≤ low ∨ high ≤ a) (hend : a + cs.length < 2 ^ 64)
    (h : stringAt m' a cs = true) : stringAt m a cs = true := by
  -- a match that gets to the byte 1 would have it as a character or as its end
  induction cs generalizing a with
  | nil =>
      rw [stringAt, beq_iff_eq] at h
      have hne : a ≠ low := by
        rintro rfl
        exact absurd (h.symm.trans hone) (by decide)
      rw [stringAt, beq_iff_eq, ← hsame a hend (by omega)]
      exact h
  | cons c cs ih =>
      rw [stringAt, Bool.and_eq_true, beq_iff_eq] at h
      have hne : a ≠ low := by
        rintro rfl
        exact hcs c List.mem_cons_self (h.1.symm.trans hone)
      rw [List.length_cons] at hend
      rw [stringAt, Bool.and_eq_true, beq_iff_eq, ← hsame a (by omega) (by omega)]
      exact ⟨h.1, ih (fun c hc => hcs c (List.mem_cons_of_mem _ hc)) (by omega) (by omega) h.2⟩

theorem WellFormed.congr (h : WellFormed c f) (hsize : g.size = f.size)
    (hbytes : ∀ a < c.ehdrSize, g.bytes a = f.bytes a) : WellFormed c g := by
  have hheader : g.header c = f.header c := Image.header_congr hbytes
  have hident : ∀ a < 5, g.bytes a = f.bytes a := by
    intro a ha
    apply hbytes
    cases c with
    | elf32 => exact ha.trans (by decide)
    | elf64 => exact ha.trans (by decide)
  obtain ⟨h0, h1, h2, h3⟩ := h.magic
  constructor
  · exact ⟨(hident 0 (by decide)).trans h0, (hident 1 (by decide)).trans h1,
      (hident 2 (by decide)).trans h2, (hident 3 (by decide)).trans h3⟩
  · exact (hident 4 (by decide)).trans h.ident
  · exact hsize ▸ h.size
  all_goals rw [hheader]
  · exact h.type
  · exact h.machine
  · exact h.entry
  · exact h.phoff
  · exact h.phnum
  · exact h.phentsize
  · exact h.shentsize
  · exact hsize ▸ h.phdrs
  · exact hsize ▸ h.shdrs
  · exact h.shstrndx

end Congr

section Again

variable {f : FileImage} {c : ElfClass} {elf : ElfInfo} {sec : SecHeader} {pad : Nat → UInt8}
  {m m' : Mem}

/-- The bytes that the section avoids are not changed. -/
theorem StoredAs.unchanged (h : StoredAs elf sec pad m m')
    (hroom : auxDataSize + elf.phdrEnd ≤ sec.shSize) {start len a : Nat}
    (havoids : sec.Avoids start len) (hlow : start ≤ a) (hhigh : a < start + len)
    (hword : start + len ≤ 2 ^ 64) : m' a = m a := by
  have hout := havoids a hhigh hlow
  exact h.other a (by omega) (by omega)

/-- A file that the tool accepts, in a layout that its stores keep. -/
structure Rerunnable (c : ElfClass) (elf : ElfInfo) (sec : SecHeader) (f : FileImage) : Prop where
  header : f.image.header c = elf
  wellFormed : WellFormed c f.image
  find : findShs elf f.mem.view auxdataName = some sec
  layout : LinkedLayout f elf sec
  room : auxDataSize + elf.phdrEnd ≤ sec.shSize

namespace Rerunnable

theorem of_target (h : auxTarget f.image = .ok (elf, sec)) (hl : LinkedLayout f elf sec) :
    ∃ c, Rerunnable c elf sec f := by
  obtain ⟨hload, hfind, hroom⟩ := auxTarget_eq_ok_iff.mp h
  obtain ⟨c, rfl, hc⟩ := Checked.of_load hload
  have hsize := f.size_lt
  have hphdrs := hl.phdrs
  rw [neededSize_eq (by unfold auxDataSize; omega)] at hroom
  exact ⟨c, rfl, hc.wellFormed (hsize.trans (by decide)) hphdrs hl.shdrs, hfind, hl, hroom⟩

theorem shstrndx (h : Rerunnable c elf sec f) : elf.eShstrndx < elf.eShnum := by
  rw [← h.header]
  exact h.wellFormed.shstrndx

/-- The copied bytes end before the section. -/
theorem below (h : Rerunnable c elf sec f) : elf.phdrEnd ≤ sec.shOffset := by
  by_contra hlt
  have hout := h.layout.avoidsPrefix sec.shOffset (by omega) (Nat.zero_le _)
  have hpos : 0 < auxDataSize := by decide
  have hroom := h.room
  omega

/-- The tool accepts the file. -/
theorem target (h : Rerunnable c elf sec f) : auxTarget f.image = .ok (elf, sec) := by
  obtain ⟨rfl, hwf, hfind, hl, hroom⟩ := h
  refine auxTarget_eq_ok_iff.mpr ⟨hwf.load, hfind, ?_⟩
  have hsize := f.size_lt
  have hphdrs := hl.phdrs
  rwa [neededSize_eq (by unfold auxDataSize; omega)]

theorem run_ok (h : Rerunnable c elf sec f) (pad : Nat → UInt8) : (f.run pad).1 = .ok () := by
  rw [FileImage.run_of_ok h.target pad]

/-- What a run leaves in the memory. -/
theorem storedAs (h : Rerunnable c elf sec f) (pad : Nat → UInt8) :
    StoredAs elf sec pad f.mem.view (f.after pad).mem.view := by
  have hsize := f.size_lt
  have hin := h.layout.target
  have hroom := h.room
  have hcopied : Traced.prefixSize elf = elf.phdrEnd := by
    obtain ⟨rfl, hwf, -, -, -⟩ := h
    exact Traced.prefixSize_eq (hwf.phdrs.trans_lt hwf.size)
  rw [FileImage.after, FileImage.run_of_ok h.target pad]
  exact stored_storedAs f.mem pad hcopied h.below (by omega)

/-- The section headers after a run. -/
theorem shs_after (h : Rerunnable c elf sec f) (pad : Nat → UInt8) {i : Nat}
    (hi : i < elf.eShnum) : elf.shs (f.after pad).mem.view i = elf.shs f.mem.view i := by
  have hsize := f.size_lt
  have hin := h.layout.shdrs
  apply ElfInfo.shs_congr
  intro k hk
  obtain ⟨hmul, hentry⟩ : mul32 i elf.eShentsize = i * elf.eShentsize ∧
      elf.elfClass.ehdr.shdrSize ≤ elf.eShentsize := by
    obtain ⟨rfl, hwf, -, -, -⟩ := h
    obtain ⟨-, -, hshent, hshnum⟩ := f.image.header_halves c
    exact ⟨mul32_of_half (hi.trans hshnum) hshent, hwf.shentsize⟩
  have hnext : (i + 1) * elf.eShentsize ≤ elf.eShnum * elf.eShentsize :=
    Nat.mul_le_mul_right _ hi
  rw [Nat.succ_mul, Nat.mul_comm elf.eShnum] at hnext
  rw [hmul]
  exact (h.storedAs pad).unchanged h.room h.layout.avoidsShdrs (by omega) (by omega) (by omega)

/-- The first byte of the section is then no character of a name. -/
theorem first_after (h : Rerunnable c elf sec f) (pad : Nat → UInt8) :
    (f.after pad).mem.view sec.shOffset = 1 := by
  have hrecord := (h.storedAs pad).record 0 (by decide)
  rw [Nat.add_zero] at hrecord
  rw [hrecord]
  change LittleEndian.byte 1 0 = 1
  decide

theorem auxdataName_ne_one : ∀ c ∈ auxdataName.bytes, c ≠ 1 := by
  have hall : (auxdataName.bytes.all fun c => c != 1) = true := by decide
  intro c hc
  exact bne_iff_ne.mp (List.all_eq_true.mp hall c hc)

/-- The search finds the same section again. -/
theorem find_after (h : Rerunnable c elf sec f) (pad : Nat → UInt8) :
    findShs elf (f.after pad).mem.view auxdataName = some sec := by
  obtain ⟨i, hi, hsec, hyes, hno⟩ := findShs_first (by decide) h.find
  have hsize := f.size_lt
  have hnames := h.layout.names
  have hstr := h.shs_after pad h.shstrndx
  have hsec' : elf.shs (f.after pad).mem.view i = sec := (h.shs_after pad hi).trans hsec
  rw [← hsec']
  apply findShs_of_first (by decide) hi
  · rw [hsec']
    refine ⟨by rw [hstr]; exact hyes.1, ?_⟩
    rw [hstr, ← hyes.2]
    apply stringAt_congr
    intro k hk
    have hend := h.layout.nameEnds
    exact (h.storedAs pad).unchanged h.room h.layout.avoidsNames (by omega) (by omega) (by omega)
  · intro j hj hname
    rw [h.shs_after pad (hj.trans hi)] at hname
    obtain ⟨hin, hmatch⟩ := hname
    rw [hstr] at hin hmatch
    have hstart := h.layout.avoidsNames _ (Nat.add_lt_add_left hin _) (Nat.le_add_right _ _)
    have hroom := h.room
    have hlen : auxdataName.bytes.length = 8 := by decide
    apply hno j hj
    refine ⟨hin, stringAt_of_changed (h.first_after pad) ?_ (h.storedAs pad).other
      auxdataName_ne_one (by omega) (by omega) hmatch⟩
    have hpos : 0 < auxDataSize := by decide
    omega

/-- A run keeps all that the next one relies on. -/
theorem after (h : Rerunnable c elf sec f) (pad : Nat → UInt8) :
    Rerunnable c elf sec (f.after pad) := by
  have hsize := f.size_lt
  have hin := h.layout.header
  have hclass : elf.elfClass = c := by
    rw [← h.header]
    rfl
  have hbytes : ∀ a < c.ehdrSize, (f.after pad).mem.view a = f.mem.view a := by
    intro a ha
    rw [← hclass] at ha
    exact (h.storedAs pad).unchanged h.room h.layout.avoidsHeader (Nat.zero_le a) (by omega)
      (by omega)
  have hstr := h.shs_after pad h.shstrndx
  obtain ⟨⟨hheader, hphdrs, hshdrs, hnames, htarget, ha, hb, hc⟩, hd, hends⟩ := h.layout
  refine ⟨(Image.header_congr hbytes).trans h.header, h.wellFormed.congr rfl hbytes,
    h.find_after pad, ⟨⟨hheader, hphdrs, hshdrs, ?_, htarget, ha, ?_, hc⟩, hd, ?_⟩, h.room⟩
  all_goals rw [hstr]
  · exact hnames
  · exact hb
  · exact hends

end Rerunnable

/-- The bytes of the record that belong to no field are the only ones that depend on the padding. -/
theorem AuxData.encode_pad (x : AuxData) (pad pad' : Nat → UInt8) {i : Nat} (h : i < 4 ∨ 8 ≤ i) :
    x.encode pad i = x.encode pad' i := by
  unfold AuxData.encode
  by_cases hi : i < 4
  · rw [if_pos hi, if_pos hi]
  · have hpad : ¬i < 8 := by omega
    rw [if_neg hi, if_neg hi, if_neg hpad, if_neg hpad]

/-- Stores over stores that were made before. -/
theorem StoredAs.again {m'' : Mem} {pad' : Nat → UInt8} (h : StoredAs elf sec pad m m')
    (h' : StoredAs elf sec pad' m' m'') (hbelow : elf.phdrEnd ≤ sec.shOffset) {a : Nat}
    (ha : a < 2 ^ 64) (hout : a < sec.shOffset + 4 ∨ sec.shOffset + 8 ≤ a) : m'' a = m' a := by
  by_cases hother : a < sec.shOffset ∨ sec.shOffset + auxDataSize + elf.phdrEnd ≤ a
  · exact h'.other a ha hother
  · by_cases hrecord : a < sec.shOffset + auxDataSize
    · obtain ⟨i, rfl⟩ := Nat.exists_eq_add_of_le (show sec.shOffset ≤ a by omega)
      rw [h'.record i (by omega), h.record i (by omega)]
      exact AuxData.encode_pad _ _ _ (by omega)
    · obtain ⟨j, rfl⟩ := Nat.exists_eq_add_of_le (not_lt.mp hrecord)
      rw [h'.copied j (by omega), h.copied j (by omega)]
      exact h.other j (by omega) (by omega)

/-- The section of a run that returns 0. -/
theorem FileImage.target_of_run (hload : elfLoad f.image = .ok elf)
    (hfind : findShs elf f.mem.view auxdataName = some sec) (h : (f.run pad).1 = .ok ()) :
    auxTarget f.image = .ok (elf, sec) := by
  cases htarget : auxTarget f.image with
  | error e =>
      obtain ⟨rs, hrun⟩ := FileImage.run_of_error htarget pad
      rw [hrun] at h
      exact nomatch h
  | ok x =>
      obtain ⟨hload', hfind', -⟩ := auxTarget_eq_ok_iff.mp htarget
      obtain rfl : elf = x.1 := Except.ok.inj (hload.symm.trans hload')
      obtain rfl : sec = x.2 := Option.some.inj (hfind.symm.trans hfind')
      rfl

/-- A run that returns an error changes nothing. -/
theorem FileImage.after_of_error {e : Int} (h : (f.run pad).1 = .error e) :
    (f.after pad).mem = f.mem := by
  rw [FileImage.after]
  cases htarget : auxTarget f.image with
  | error e' =>
      obtain ⟨rs, hrun⟩ := FileImage.run_of_error htarget pad
      rw [hrun]
  | ok x =>
      rw [FileImage.run_of_ok htarget pad] at h
      exact nomatch h

end Again

/-- A file that the tool rejects is unchanged. If the section is apart from all that the tool
reads, a run that returns 0 changes bytes of the section only, and a second run returns 0 and
changes at most the bytes of the record that belong to no field. -/
theorem rerun_changes_padding_only :
    (∀ (f : FileImage) (pad : Nat → UInt8) (e : Int), (f.run pad).1 = .error e →
      (f.after pad).mem = f.mem) ∧
    ∀ (f : FileImage) (pad : Nat → UInt8) (elf : ElfInfo) (sec : SecHeader),
      elfLoad f.image = .ok elf → findShs elf f.mem.view auxdataName = some sec →
      LinkedLayout f elf sec → (f.run pad).1 = .ok () →
      (∀ a : BitVec 64, (f.after pad).mem a ≠ f.mem a →
        sec.shOffset ≤ a.toNat ∧ a.toNat < sec.shOffset + sec.shSize) ∧
      ∀ pad' : Nat → UInt8, ((f.after pad).run pad').1 = .ok () ∧
        ∀ a : BitVec 64, ((f.after pad).after pad').mem a ≠ (f.after pad).mem a →
          sec.shOffset + 4 ≤ a.toNat ∧ a.toNat < sec.shOffset + 8 := by
  refine ⟨fun f pad e h => FileImage.after_of_error h, ?_⟩
  intro f pad elf sec hload hfind hlayout hrun
  obtain ⟨c, h⟩ := Rerunnable.of_target (FileImage.target_of_run hload hfind hrun) hlayout
  have hfirst := h.storedAs pad
  have hroom := h.room
  refine ⟨?_, fun pad' => ⟨(h.after pad).run_ok pad', ?_⟩⟩
  · intro a hne
    by_contra hout
    apply hne
    apply HostMem.eq_of_view
    exact hfirst.other a.toNat a.isLt (by omega)
  · intro a hne
    by_contra hout
    apply hne
    apply HostMem.eq_of_view
    exact hfirst.again ((h.after pad).storedAs pad') h.below a.isLt (by omega)

/-- An executable whose section `.auxdata` starts in the ELF header, behind the copied part. -/
def sectionInHeader : FileImage where
  size := 234
  mem := fun a => (packed [
    -- ELF header, with the program headers from 4 on and the section from 36 on
    (0x464c457f, 4), (0x010101, 12), (2, 2), (243, 2), (1, 4), (0x80000000, 4), (4, 4), (104, 4),
    (0, 4), (52, 2), (32, 2), (1, 2), (40, 2), (3, 2), (2, 2), (0, 52),
    -- section headers: unused, `.auxdata`, names; then the names
    (0, 40),
    (1, 4), (1, 4), (2, 4), (0x80000000, 4), (36, 4), (68, 4), (0, 16),
    (0, 4), (3, 4), (0, 8), (224, 4), (10, 4), (0, 16),
    (0, 1), (0x617461647875612e, 9)]).getD a.toNat 0
  size_lt := by decide

/-- An executable whose name table ends after `.aux`, with `data` as the first bytes of the
section behind it. -/
def nameInSection : FileImage where
  size := 325
  mem := fun a => (packed [
    -- ELF header and program header
    (0x464c457f, 4), (0x010101, 12), (2, 2), (243, 2), (1, 4), (0x80000000, 4), (52, 4), (84, 4),
    (0, 4), (52, 2), (32, 2), (1, 2), (40, 2), (3, 2), (2, 2),
    (1, 4), (209, 4), (0x80000000, 4), (0x80000000, 4), (116, 4), (116, 4), (5, 4), (8, 4),
    -- section headers: unused, `.auxdata`, names; then the names and the section
    (0, 40),
    (1, 4), (1, 4), (2, 4), (0x80000000, 4), (209, 4), (116, 4), (0, 16),
    (0, 4), (3, 4), (0, 8), (204, 4), (5, 4), (0, 16),
    (0, 1), (0x7875612e, 4), (0x61746164, 4)]).getD a.toNat 0
  size_lt := by decide

/-- In the first file the section avoids all that the tool copies and looks up, but not the
header, and in the second one all of that and the header, but its name does not end in the name
table. Both are rejected by a second run. -/
theorem second_run_rejected :
    (∃ elf sec, elfLoad sectionInHeader.image = .ok elf ∧
      findShs elf sectionInHeader.mem.view auxdataName = some sec ∧
      Layout sectionInHeader elf sec ∧ sec.shName + auxdataName.bytes.length <
        (elf.shs sectionInHeader.mem.view elf.eShstrndx).shSize ∧
      (sectionInHeader.run fun _ => 0).1 = .ok () ∧
      ((sectionInHeader.after fun _ => 0).run fun _ => 0).1 = .error (-einval)) ∧
    ∃ elf sec, elfLoad nameInSection.image = .ok elf ∧
      findShs elf nameInSection.mem.view auxdataName = some sec ∧
      Layout nameInSection elf sec ∧ sec.Avoids 0 elf.elfClass.ehdrSize ∧
      (nameInSection.run fun _ => 0).1 = .ok () ∧
      ((nameInSection.after fun _ => 0).run fun _ => 0).1 = .error (-einval) := by
  constructor
  · have hwf : WellFormed .elf32 sectionInHeader.image := by
      constructor <;> decide +kernel
    refine ⟨_, ⟨1, 36, 68⟩, hwf.load, by decide +kernel, ?_, by decide +kernel,
      by decide +kernel, by decide +kernel⟩
    constructor <;> decide +kernel
  · have hwf : WellFormed .elf32 nameInSection.image := by
      constructor <;> decide +kernel
    refine ⟨_, ⟨1, 209, 116⟩, hwf.load, by decide +kernel, ?_, by decide +kernel,
      by decide +kernel, by decide +kernel⟩
    constructor <;> decide +kernel

theorem rerun_changes_padding_only_small :
    (∀ a : BitVec 64, ((smallFile 332 (by decide)).after fun _ => 0).mem a ≠
        (smallFile 332 (by decide)).mem a → 216 ≤ a.toNat ∧ a.toNat < 332) ∧
      ∀ pad : Nat → UInt8, (((smallFile 332 (by decide)).after fun _ => 0).run pad).1 = .ok () := by
  have hwf : WellFormed .elf32 (smallFile 332 (by decide)).image := by
    constructor <;> decide +kernel
  have hlayout : LinkedLayout (smallFile 332 (by decide))
      ((smallFile 332 (by decide)).image.header .elf32) smallSection := by
    refine ⟨?_, by decide +kernel, by decide +kernel⟩
    constructor <;> decide +kernel
  obtain ⟨hchanged, hagain⟩ := rerun_changes_padding_only.2 (smallFile 332 (by decide)) (fun _ => 0)
    _ smallSection hwf.load (by decide +kernel) hlayout (by decide +kernel)
  exact ⟨hchanged, fun pad => (hagain pad).1⟩

end BaremetalCrt
