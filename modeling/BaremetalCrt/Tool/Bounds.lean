import BaremetalCrt.Tool.Accesses
import BaremetalCrt.Tool.Auxv

/-!
# Whether the tool stays inside the file

The tool compares some of the numbers in the file with its size, and some only after a sum that
can wrap. The accesses of a run that succeeds are inside the file exactly if all of them fit.
-/

namespace BaremetalCrt

/-- All bytes of the range have addresses between two bounds. -/
def ByteRange.Within (r : ByteRange) (low high : Nat) : Prop :=
  ∀ i < r.len, low ≤ (r.start + i) % 2 ^ 64 ∧ (r.start + i) % 2 ^ 64 < high

section Bounds

/-- A range is inside the file exactly if it is after its start is reduced. -/
theorem ByteRange.within_zero_iff {start len size : Nat} (hlen : 0 < len)
    (hsize : size < 2 ^ 64) :
    (⟨start, len⟩ : ByteRange).Within 0 size ↔ start % 2 ^ 64 + len ≤ size := by
  simp only [ByteRange.Within]
  constructor
  · intro h
    by_contra hover
    have hfirst := (h 0 hlen).2
    -- the byte at the end of the file is in the range
    have hend := (h (size - start % 2 ^ 64) (by omega)).2
    omega
  · intro h i hi
    omega

/-- A range that stays below the word size. -/
theorem ByteRange.within_of_le {start len low high : Nat} (hlow : low ≤ start)
    (hhigh : start + len ≤ high) (hword : start + len ≤ 2 ^ 64) :
    (⟨start, len⟩ : ByteRange).Within low high := by
  simp only [ByteRange.Within]
  intro i hi
  rw [Nat.mod_eq_of_lt (by omega)]
  omega

/-- The entries of a table whose end, modulo the word size, is in the file. -/
theorem table_within_iff {off stride count entry size : Nat} (hentry : 0 < entry)
    (hle : entry ≤ stride) (hstride : stride < 2 ^ 16) (hpos : 0 < count) (hcount : count < 2 ^ 16)
    (hoff : off < 2 ^ 64) (hsize : size < 2 ^ 63)
    (hend : add64 off (mul32 count stride) ≤ size) :
    (∀ i < count, (⟨off + mul32 i stride, entry⟩ : ByteRange).Within 0 size) ↔
      off + stride * count ≤ size := by
  have htable : count * stride < 2 ^ 32 := mul_lt_of_half hcount hstride
  rw [mul32_of_half hcount hstride] at hend
  rw [Nat.mul_comm stride]
  constructor
  · intro h
    have hfirst := (ByteRange.within_zero_iff hentry (by omega)).mp (h 0 hpos)
    have hzero : mul32 0 stride = 0 := by rw [mul32, Nat.zero_mul, Nat.zero_mod]
    rw [hzero, Nat.add_zero, Nat.mod_eq_of_lt hoff] at hfirst
    rwa [add64_of_lt (by omega)] at hend
  · intro h i hi
    have hnext : (i + 1) * stride ≤ count * stride := Nat.mul_le_mul_right stride hi
    rw [Nat.succ_mul] at hnext
    rw [mul32_of_half (hi.trans hcount) hstride]
    exact ByteRange.within_of_le (Nat.zero_le _) (by omega) (by omega)

/-- The offsets in the header are at most double words. -/
theorem Image.header_offsets (c : ElfClass) (f : Image) :
    (f.header c).ePhoff < 2 ^ 64 ∧ (f.header c).eShoff < 2 ^ 64 := by
  cases c with
  | elf32 =>
      exact ⟨(LittleEndian.read_lt _ _ 4).trans (by decide),
        (LittleEndian.read_lt _ _ 4).trans (by decide)⟩
  | elf64 => exact ⟨LittleEndian.read_lt _ _ 8, LittleEndian.read_lt _ _ 8⟩

theorem ElfInfo.shs_offset_lt (elf : ElfInfo) (m : Mem) (i : Nat) :
    (elf.shs m i).shOffset < 2 ^ 64 := by
  unfold ElfInfo.shs
  cases elf.elfClass with
  | elf32 => exact (LittleEndian.read_lt _ _ 4).trans (by decide)
  | elf64 => exact LittleEndian.read_lt _ _ 8

theorem comparedLength_pos (m : Mem) (a : Nat) (cs : List UInt8) : 0 < comparedLength m a cs := by
  cases cs with
  | nil => exact Nat.one_pos
  | cons c cs =>
      rw [comparedLength]
      split_ifs
      · exact Nat.succ_pos _
      · exact Nat.one_pos

/-- The names that are read: each one in the table, up to the first section that matches. -/
theorem Traced.mem_nameRanges_iff {shstr : SecHeader} {m : Mem} {name : CStr} {r : ByteRange}
    {shs : List SecHeader} :
    r ∈ nameRanges shstr m name shs ↔
      ∃ (i : Nat) (s : SecHeader), shs[i]? = some s ∧
        (∀ j < i, ∀ t, shs[j]? = some t → shstr.nameIs m name t = false) ∧
        s.shName < shstr.shSize ∧ shstr.nameRange m name s = r := by
  induction shs with
  | nil => simp [nameRanges]
  | cons s rest ih =>
      rw [nameRanges, List.mem_append]
      constructor
      · rintro (hr | hr)
        · split_ifs at hr with hs
          · exact nomatch hr
          · exact ⟨0, s, rfl, fun j hj => absurd hj (Nat.not_lt_zero j), not_le.mp hs,
              (List.mem_singleton.mp hr).symm⟩
        · split_ifs at hr with hsame
          · exact nomatch hr
          · obtain ⟨i, t, ht, hno, hin, rfl⟩ := ih.mp hr
            refine ⟨i + 1, t, ht, ?_, hin, rfl⟩
            rintro (- | j) hj u hu
            · obtain rfl : s = u := Option.some.inj hu
              exact Bool.not_eq_true _ ▸ hsame
            · exact hno j (Nat.lt_of_succ_lt_succ hj) u hu
      · rintro ⟨i, t, ht, hno, hin, rfl⟩
        cases i with
        | zero =>
            obtain rfl : s = t := Option.some.inj ht
            exact Or.inl (by simp [not_le.mpr hin])
        | succ i =>
            have hs : shstr.nameIs m name s = false := hno 0 (Nat.succ_pos i) s rfl
            refine Or.inr ?_
            rw [hs]
            refine ih.mpr ⟨i, t, ht, ?_, hin, rfl⟩
            intro j hj u hu
            exact hno (j + 1) (Nat.succ_lt_succ hj) u hu

end Bounds

section Fits

/-- For each section up to the first `.auxdata`, the characters of its name that agree with that
text, and the one after them, are in the file. A name outside of the table is not read. -/
def NamesInside (f : FileImage) (elf : ElfInfo) : Prop :=
  let shstr := elf.shs f.mem.view elf.eShstrndx
  ∀ i < elf.eShnum,
    (∀ j < i, elf.shNameIs f.mem.view auxdataName (elf.shs f.mem.view j) = false) →
    (elf.shs f.mem.view i).shName < shstr.shSize →
    (shstr.shOffset + (elf.shs f.mem.view i).shName) % 2 ^ 64 +
      comparedLength f.mem.view (shstr.shOffset + (elf.shs f.mem.view i).shName)
        auxdataName.bytes ≤ f.size

/-- The numbers of a file that the tool does not compare with its size, or compares after a sum
that can wrap, are inside it too. -/
structure Fits (f : FileImage) (elf : ElfInfo) (sec : SecHeader) : Prop where
  header : elf.elfClass.ehdrSize ≤ f.size
  phdrs : elf.phdrEnd ≤ f.size
  shdrs : elf.eShoff + elf.eShentsize * elf.eShnum ≤ f.size
  names : NamesInside f elf
  target : sec.shOffset + auxDataSize + elf.phdrEnd ≤ f.size

variable {f : FileImage} {elf : ElfInfo} {sec : SecHeader}

theorem entries_getElem?_iff {m : Mem} {i : Nat} {s : SecHeader} :
    ((List.range elf.eShnum).map (elf.shs m))[i]? = some s ↔ i < elf.eShnum ∧ elf.shs m i = s := by
  simp [List.getElem?_eq_some_iff]

/-- The reads of the names are inside the file exactly if the compared characters are. -/
theorem nameRanges_within_iff :
    (∀ r ∈ Traced.nameRanges (elf.shs f.mem.view elf.eShstrndx) f.mem.view auxdataName
        ((List.range elf.eShnum).map (elf.shs f.mem.view)), r.Within 0 f.size) ↔
      NamesInside f elf := by
  have hsize : f.size < 2 ^ 64 := f.size_lt.trans (by decide)
  constructor
  · intro h i hi hno hin
    refine (ByteRange.within_zero_iff (comparedLength_pos _ _ _) hsize).mp
      (h _ (Traced.mem_nameRanges_iff.mpr
        ⟨i, _, entries_getElem?_iff.mpr ⟨hi, rfl⟩, ?_, hin, rfl⟩))
    intro j hj t ht
    obtain ⟨-, rfl⟩ := entries_getElem?_iff.mp ht
    exact hno j hj
  · intro h r hr
    obtain ⟨i, s, hs, hno, hin, rfl⟩ := Traced.mem_nameRanges_iff.mp hr
    obtain ⟨hi, rfl⟩ := entries_getElem?_iff.mp hs
    refine (ByteRange.within_zero_iff (comparedLength_pos _ _ _) hsize).mpr (h i hi ?_ hin)
    intro j hj
    exact hno j hj _ (entries_getElem?_iff.mpr ⟨hj.trans hi, rfl⟩)

/-- The reads of the header. -/
theorem identRanges_within_iff {c : ElfClass} {size : Nat} (hsize : size < 2 ^ 64) :
    (∀ r ∈ ([⟨0, 1⟩, ⟨1, 1⟩, ⟨2, 1⟩, ⟨3, 1⟩, ⟨4, 1⟩, ⟨16, c.ehdrSize - 16⟩] : List ByteRange),
      r.Within 0 size) ↔ c.ehdrSize ≤ size := by
  have hlen : 16 < c.ehdrSize := by
    cases c with
    | elf32 => decide
    | elf64 => decide
  simp only [List.forall_mem_cons]
  constructor
  · rintro ⟨-, -, -, -, -, h, -⟩
    have hlast := (ByteRange.within_zero_iff (Nat.sub_pos_of_lt hlen) hsize).mp h
    omega
  · intro h
    have hbyte : ∀ i < 5, (⟨i, 1⟩ : ByteRange).Within 0 size := by
      intro i hi
      exact ByteRange.within_of_le (Nat.zero_le _) (by omega) (by omega)
    refine ⟨hbyte 0 (by decide), hbyte 1 (by decide), hbyte 2 (by decide), hbyte 3 (by decide),
      hbyte 4 (by decide), ?_, fun _ hr => nomatch hr⟩
    exact ByteRange.within_of_le (Nat.zero_le _) (by omega) (by omega)

/-- The reads of `elf_load` in a file that passes its checks. -/
theorem loadRanges_within_iff {c : ElfClass} (h : Checked c f.image) :
    (∀ r ∈ Traced.loadRanges (f.image.header c), r.Within 0 f.size) ↔
      c.ehdrSize ≤ f.size ∧ (f.image.header c).phdrEnd ≤ f.size ∧
        (f.image.header c).eShoff +
          (f.image.header c).eShentsize * (f.image.header c).eShnum ≤ f.size := by
  have hsize : f.size < 2 ^ 64 := f.size_lt.trans (by decide)
  obtain ⟨hphent, hphnum, hshent, hshnum⟩ := f.image.header_halves c
  obtain ⟨hphoff, hshoff⟩ := f.image.header_offsets c
  obtain ⟨hph, hsh⟩ := c.headerSizes_pos
  have hsections : 0 < (f.image.header c).eShnum := Nat.zero_lt_of_lt h.shstrndx
  rw [Traced.loadRanges, Traced.tableRanges, List.forall_mem_append, List.forall_mem_append,
    List.forall_mem_map, List.forall_mem_map]
  simp only [List.mem_range]
  exact and_congr (identRanges_within_iff hsize) (and_congr
    (table_within_iff hph h.phentsize hphent (Nat.pos_of_ne_zero h.phnum) hphnum hphoff f.size_lt
      h.phdrs)
    (table_within_iff hsh h.shentsize hshent hsections hshnum hshoff f.size_lt h.shdrs))

/-- The stores of a file whose program headers end in it. -/
theorem storeRanges_within_iff {c : ElfClass} (hphdrs : (f.image.header c).phdrEnd ≤ f.size)
    (hpos : 0 < (f.image.header c).phdrEnd) (hoff : sec.shOffset < 2 ^ 64)
    (hroom : auxDataSize + (f.image.header c).phdrEnd ≤ sec.shSize) :
    (∀ w ∈ Traced.storeRanges (f.image.header c) sec, w.Within 0 f.size ∧
        w.Within sec.shOffset (sec.shOffset + sec.shSize)) ↔
      sec.shOffset + auxDataSize + (f.image.header c).phdrEnd ≤ f.size := by
  have hsize := f.size_lt
  have hrecord : 0 < auxDataSize := by decide
  have hcopied := Traced.prefixSize_eq (hphdrs.trans_lt (hsize.trans (by decide)))
  simp only [Traced.storeRanges, List.forall_mem_cons, hcopied]
  constructor
  · rintro ⟨hfirst, hsecond, -⟩
    have hfirst := (ByteRange.within_zero_iff hrecord (by omega)).mp hfirst.1
    have hsecond := (ByteRange.within_zero_iff hpos (by omega)).mp hsecond.1
    omega
  · intro h
    refine ⟨⟨?_, ?_⟩, ⟨?_, ?_⟩, fun _ hw => nomatch hw⟩
    all_goals apply ByteRange.within_of_le <;> omega

/-- The tool returns 0 for a file. All that it reads and writes is then inside the file, and all
that it writes inside the section, exactly if the numbers that it does not check fit too. -/
theorem accesses_inside_iff (f : FileImage) (pad : Nat → UInt8) (h : (f.run pad).1 = .ok ()) :
    ∃ elf sec, elfLoad f.image = .ok elf ∧ findShs elf f.mem.view auxdataName = some sec ∧
      (((∀ r ∈ (f.run pad).2.reads, r.Within 0 f.size) ∧
          ∀ w ∈ (f.run pad).2.writes, w.Within 0 f.size ∧
            w.Within sec.shOffset (sec.shOffset + sec.shSize)) ↔ Fits f elf sec) := by
  cases htarget : auxTarget f.image with
  | error e =>
      obtain ⟨rs, hrun⟩ := FileImage.run_of_error htarget pad
      rw [hrun] at h
      exact nomatch h
  | ok x =>
      obtain ⟨elf, sec⟩ := x
      obtain ⟨hload, hfind, hroom⟩ := auxTarget_eq_ok_iff.mp htarget
      refine ⟨elf, sec, hload, hfind, ?_⟩
      obtain ⟨c, rfl, hc⟩ := Checked.of_load hload
      obtain ⟨i, -, hi, -, -⟩ := findShs_first (by decide) hfind
      have hoff : sec.shOffset < 2 ^ 64 := hi ▸ ElfInfo.shs_offset_lt _ _ i
      have hsize := f.size_lt
      have hpos : 0 < (f.image.header c).phdrEnd :=
        Nat.add_pos_left (Nat.pos_of_ne_zero hc.phoff) _
      rw [FileImage.run_of_ok htarget pad, Traced.locateRanges, List.append_assoc,
        List.forall_mem_append, List.forall_mem_append, loadRanges_within_iff hc,
        nameRanges_within_iff, List.forall_mem_singleton]
      constructor
      · rintro ⟨⟨⟨hheader, hphdrs, hshdrs⟩, hnames, -⟩, hwrites⟩
        rw [neededSize_eq (by unfold auxDataSize; omega)] at hroom
        exact ⟨hheader, hphdrs, hshdrs, hnames,
          (storeRanges_within_iff hphdrs hpos hoff hroom).mp hwrites⟩
      · rintro ⟨hheader, hphdrs, hshdrs, hnames, htarget⟩
        rw [neededSize_eq (by unfold auxDataSize; omega)] at hroom
        refine ⟨⟨⟨hheader, hphdrs, hshdrs⟩, hnames, ?_⟩,
          (storeRanges_within_iff hphdrs hpos hoff hroom).mpr htarget⟩
        rw [Traced.prefixSize_eq (by omega)]
        exact ByteRange.within_of_le (Nat.zero_le _) (by omega) (by omega)

end Fits

/-- The small executable in the memory of the host, of which the first bytes are the file. -/
def smallFile (size : Nat) (hsize : size < 2 ^ 63) : FileImage :=
  ⟨size, fun a => smallImage.bytes a.toNat, hsize⟩

/-- The file is cut off before its section `.auxdata`. The tool returns 0 and writes behind the
end of the file. -/
theorem writes_outside_truncated :
    ((smallFile 216 (by decide)).run fun _ => 0).1 = .ok () ∧
      ∃ w ∈ ((smallFile 216 (by decide)).run fun _ => 0).2.writes, ¬w.Within 0 216 := by
  have hwrites : ((smallFile 216 (by decide)).run fun _ => 0).2.writes =
      [⟨216, 32⟩, ⟨248, 84⟩] := by decide +kernel
  refine ⟨by decide +kernel, ⟨216, 32⟩, ?_, ?_⟩
  · rw [hwrites]
    exact List.mem_cons_self
  · intro h
    exact absurd (h 0 (by decide)).2 (by decide)

theorem accesses_inside_iff_small :
    (∀ r ∈ ((smallFile 332 (by decide)).run fun _ => 0).2.reads, r.Within 0 332) ∧
      ∀ w ∈ ((smallFile 332 (by decide)).run fun _ => 0).2.writes,
        w.Within 0 332 ∧ w.Within 216 332 := by
  obtain ⟨elf, sec, hload, hfind, hiff⟩ :=
    accesses_inside_iff (smallFile 332 (by decide)) (fun _ => 0) (by decide +kernel)
  obtain ⟨c, rfl, hc⟩ := Checked.of_load hload
  cases c with
  | elf64 => exact absurd hc.ident (by decide +kernel)
  | elf32 =>
      have hsmall : findShs ((smallFile 332 (by decide)).image.header .elf32)
          (smallFile 332 (by decide)).mem.view auxdataName = some smallSection := by
        decide +kernel
      obtain rfl : sec = smallSection := Option.some.inj (hfind.symm.trans hsmall)
      apply hiff.mpr
      constructor
      · decide
      · decide +kernel
      · decide +kernel
      · unfold NamesInside
        decide +kernel
      · decide +kernel

end BaremetalCrt
