import BaremetalCrt.Library.AccessLog
import BaremetalCrt.Tool.Elf

/-!
# The accesses of the tool to the file

The functions of the tool once more, with each range of the file that they read or write. They
run on the memory of the host, so that an access outside of the file has a result as well. Each
function computes what its version without accesses computes from the memory.

## Implementation notes

Addresses are distances from the start of the file and wrap at 64 bits. A header is one range
from the first to the last field that is read. The name of a section is read up to its first
character that differs from the text, or to its end. A debug message reads bytes of `e_ident` a
second time and is left out.
-/

namespace BaremetalCrt

open AccessLog

/-- The memory of the host, by the distance from the start of the file. -/
abbrev HostMem := BitVec 64 → UInt8

/-- The memory at an address that has not been reduced yet. -/
def HostMem.view (m : HostMem) : Mem := fun a => m (BitVec.ofNat 64 a)

/-- `memcpy` from bytes that are given. -/
def HostMem.copy (m : HostMem) (dst : Nat) (src : Nat → UInt8) (n : Nat) : HostMem := fun a =>
  if (a - BitVec.ofNat 64 dst).toNat < n then src (a - BitVec.ofNat 64 dst).toNat else m a

/-- A copy that does not wrap. -/
theorem HostMem.view_copy {m : HostMem} {dst n a : Nat} {src : Nat → UInt8}
    (hfit : dst + n ≤ 2 ^ 64) (ha : a < 2 ^ 64) :
    (m.copy dst src n).view a = LittleEndian.copy m.view dst src n a := by
  have hdist : (BitVec.ofNat 64 a - BitVec.ofNat 64 dst).toNat =
      (2 ^ 64 - dst % 2 ^ 64 + a) % 2 ^ 64 := by
    rw [BitVec.toNat_sub, BitVec.toNat_ofNat, BitVec.toNat_ofNat, Nat.mod_eq_of_lt ha]
  unfold HostMem.view HostMem.copy
  rw [hdist]
  by_cases hin : dst ≤ a ∧ a < dst + n
  · have hoff : (2 ^ 64 - dst % 2 ^ 64 + a) % 2 ^ 64 = a - dst := by omega
    rw [hoff, if_pos (by omega), LittleEndian.copy_of_mem hin.1 hin.2]
  · rw [if_neg (by omega), LittleEndian.copy_of_outside (by omega)]

/-- A number of bytes from an address on. -/
structure ByteRange where
  start : Nat
  len : Nat
  deriving DecidableEq

/-- A file in the memory of the host. Its length has the type `off_t`. -/
structure FileImage where
  size : Nat
  mem : HostMem
  size_lt : size < 2 ^ 63

/-- The file as the functions without accesses take it. -/
def FileImage.image (f : FileImage) : Image := ⟨f.size, f.mem.view⟩

/-- The size of `Elf32_Ehdr` or `Elf64_Ehdr`. -/
def ElfClass.ehdrSize : ElfClass → Nat
  | elf32 => 52
  | elf64 => 64

/-- The file after `elf_load`: the header, all of `shs`, and the entry of the names. -/
structure Loaded where
  elf : ElfInfo
  shs : List SecHeader
  shstr : SecHeader

/-- The comparison of `find_shs`, for a given entry of the names. -/
def SecHeader.nameIs (shstr : SecHeader) (m : Mem) (name : CStr) (s : SecHeader) : Bool :=
  if shstr.shSize ≤ s.shName then decide (name = unknownName)
  else stringAt m (shstr.shOffset + s.shName) name.bytes

/-- The number of bytes of the string at an address that a comparison with a text reads. -/
def comparedLength (m : Mem) : Nat → List UInt8 → Nat
  | _, [] => 1
  | a, c :: cs => if m a = c then comparedLength m (a + 1) cs + 1 else 1

/-- The bytes of the name of a section that a comparison with a text reads. -/
def SecHeader.nameRange (shstr : SecHeader) (m : Mem) (name : CStr) (s : SecHeader) : ByteRange :=
  ⟨shstr.shOffset + s.shName, comparedLength m (shstr.shOffset + s.shName) name.bytes⟩

/-- A program of the tool. -/
abbrev ToolProg := Prog HostMem ByteRange Int

namespace Traced

/-- The check of a byte of `e_ident`. -/
def checkIdent (i : Nat) (x : UInt8) : ToolProg Unit := do
  let b ← read (fun m => m.view i) (fun _ => ⟨i, 1⟩)
  ofExcept (if b ≠ x then .error (-einval) else .ok ())

/-- `elf_get_class`. -/
def elfGetClass : ToolProg ElfClass := do
  checkIdent 0 0x7f
  checkIdent 1 0x45
  checkIdent 2 0x4c
  checkIdent 3 0x46
  let b ← read (fun m => m.view 4) (fun _ => ⟨4, 1⟩)
  ofExcept (if b = 1 then .ok .elf32 else if b = 2 then .ok .elf64 else .error (-einval))

/-- `elf_read_elf`, with `elf_read_elf32` and `elf_read_elf64`. -/
def elfReadElf (size : Nat) (c : ElfClass) : ToolProg ElfInfo := do
  let elf ← read (fun m => Image.header c ⟨size, m.view⟩) (fun _ => ⟨16, c.ehdrSize - 16⟩)
  ofExcept (if elf.ePhentsize < c.ehdr.phdrSize then .error (-einval)
    else if elf.eShentsize < c.ehdr.shdrSize then .error (-einval)
    else .ok elf)

/-- The range of an entry of the program headers. -/
def phRange (elf : ElfInfo) (i : Nat) : ByteRange :=
  ⟨elf.ePhoff + mul32 i elf.ePhentsize, elf.elfClass.ehdr.phdrSize⟩

/-- `elf_read_ph`, with `elf_read_ph32` and `elf_read_ph64`; the values are for messages only. -/
def elfReadPh (elf : ElfInfo) : ToolProg (List Unit) :=
  forEach (fun i => read (fun _ => ()) (fun _ => phRange elf i)) (List.range elf.ePhnum)

/-- The range of an entry of the section headers. -/
def shRange (elf : ElfInfo) (i : Nat) : ByteRange :=
  ⟨elf.eShoff + mul32 i elf.eShentsize, elf.elfClass.ehdr.shdrSize⟩

/-- `elf_read_shs`, with `elf_read_shs32` and `elf_read_shs64`. The index of the names has been
checked before. -/
def elfReadShs (elf : ElfInfo) : ToolProg Loaded := do
  let shs ← forEach (fun i => read (fun m => elf.shs m.view i) (fun _ => shRange elf i))
    (List.range elf.eShnum)
  pure ⟨elf, shs, shs.getD elf.eShstrndx ⟨0, 0, 0⟩⟩

/-- `elf_load`. -/
def elfLoad (size : Nat) : ToolProg Loaded := do
  let c ← elfGetClass
  let elf ← elfReadElf size c
  ofExcept (elfIsValidHeader elf size)
  let _ ← elfReadPh elf
  elfReadShs elf

/-- `strcmp` of the result of `get_sh_name` with a text. -/
def shNameIs (shstr : SecHeader) (name : CStr) (s : SecHeader) : ToolProg Bool :=
  if shstr.shSize ≤ s.shName then pure (decide (name = unknownName))
  else read (fun m => shstr.nameIs m.view name s) (fun m => shstr.nameRange m.view name s)

/-- The loop of `find_shs`. -/
def findShs (shstr : SecHeader) (name : CStr) : List SecHeader → ToolProg SecHeader
  | [] => ofExcept (.error (-einval))
  | s :: rest => do
      let same ← shNameIs shstr name s
      if same then pure s else findShs shstr name rest

/-- The record that `embed_auxv` fills in. -/
def auxData (elf : ElfInfo) : AuxData :=
  ⟨1, elf.ePhentsize, elf.ePhnum, mul32 elf.ePhentsize elf.ePhnum⟩

/-- The number of bytes before the end of the program headers, as `embed_auxv` computes it. -/
def prefixSize (elf : ElfInfo) : Nat := add64 elf.ePhoff (auxData elf).phdrSize

/-- The two calls of `memcpy` in `embed_auxv`. -/
def store (pad : Nat → UInt8) (elf : ElfInfo) (sec : SecHeader) : ToolProg Unit := do
  write (fun m => m.copy sec.shOffset ((auxData elf).encode pad) auxDataSize)
    ⟨sec.shOffset, auxDataSize⟩
  let bytes ← read (fun m => m.view) (fun _ => ⟨0, prefixSize elf⟩)
  write (fun m => m.copy (sec.shOffset + auxDataSize) bytes (prefixSize elf))
    ⟨sec.shOffset + auxDataSize, prefixSize elf⟩

/-- The part of `embed_auxv` before its stores. -/
def locate (size : Nat) : ToolProg (ElfInfo × SecHeader) := do
  let x ← orFail (elfLoad size) (-einval)
  let sec ← orFail (findShs x.shstr auxdataName x.shs) (-einval)
  ofExcept (if sec.shSize < add64 (add64 auxDataSize x.elf.ePhoff) (auxData x.elf).phdrSize then
    .error (-enomem) else .ok (x.elf, sec))

/-- `embed_auxv`. -/
def embedAuxv (pad : Nat → UInt8) (size : Nat) : ToolProg Unit := do
  let (elf, sec) ← locate size
  store pad elf sec

end Traced

/-- A run of `embed_auxv` on a file. -/
def FileImage.run (f : FileImage) (pad : Nat → UInt8) : Except Int Unit × State HostMem ByteRange :=
  Traced.embedAuxv pad f.size ⟨f.mem, [], []⟩

namespace Traced

theorem checkIdent_reads (i : Nat) (x : UInt8) :
    Reads (checkIdent i x) (fun m => if m.view i ≠ x then .error (-einval) else .ok ())
      (fun _ _ => [⟨i, 1⟩]) :=
  (Reads.read _ _).bind (fun b => Reads.ofExcept (if b ≠ x then .error (-einval) else .ok ()))
    (fun _ => rfl) (fun _ _ _ _ _ => rfl)

/-- A check in front of a computation. -/
theorem guard_bind {ε α : Type} {p : Prop} [Decidable p] {e : ε} {x : Except ε α} :
    ((if p then .error e else .ok () : Except ε Unit).bind fun _ => x) =
      if p then .error e else x := by
  by_cases hp : p
  · rw [if_pos hp, if_pos hp]
    rfl
  · rw [if_neg hp, if_neg hp]
    rfl

theorem elfGetClass_reads (size : Nat) :
    Reads elfGetClass (fun m => BaremetalCrt.elfGetClass ⟨size, m.view⟩)
      (fun _ _ => [⟨0, 1⟩, ⟨1, 1⟩, ⟨2, 1⟩, ⟨3, 1⟩, ⟨4, 1⟩]) := by
  have hclass := (Reads.read (ε := Int) (fun m : HostMem => m.view 4)
    (fun _ => (⟨4, 1⟩ : ByteRange))).bind (fun b => Reads.ofExcept
      (if b = 1 then .ok ElfClass.elf32 else if b = 2 then .ok .elf64 else .error (-einval)))
    (fun _ => rfl) (fun _ _ _ _ _ => rfl)
  have h3 := (checkIdent_reads 3 0x46).bind (fun _ => hclass) (fun _ => rfl) (fun _ _ _ _ _ => rfl)
  have h2 := (checkIdent_reads 2 0x4c).bind (fun _ => h3) (fun _ => rfl) (fun _ _ _ _ _ => rfl)
  have h1 := (checkIdent_reads 1 0x45).bind (fun _ => h2) (fun _ => rfl) (fun _ _ _ _ _ => rfl)
  refine (checkIdent_reads 0 0x7f).bind (fun _ => h1) ?_ (fun _ _ _ _ _ => rfl)
  intro m
  simp only [guard_bind, BaremetalCrt.elfGetClass, ite_or]
  rfl

theorem elfReadElf_reads (size : Nat) (c : ElfClass) :
    Reads (elfReadElf size c) (fun m => BaremetalCrt.elfReadElf c ⟨size, m.view⟩)
      (fun _ _ => [⟨16, c.ehdrSize - 16⟩]) := by
  refine (Reads.read _ _).bind (fun elf => Reads.ofExcept _) ?_ (fun _ _ _ _ _ => rfl)
  intro m
  exact elfReadElf_eq_header c ⟨size, m.view⟩

theorem elfReadPh_reads (elf : ElfInfo) :
    Reads (elfReadPh elf) (fun _ => .ok ((List.range elf.ePhnum).map fun _ => ()))
      (fun _ _ => (List.range elf.ePhnum).map (phRange elf)) :=
  Reads.forEach (fun _ => Reads.read _ _) _

/-- What `elf_load` leaves for a header. -/
def loaded (elf : ElfInfo) (m : Mem) : Loaded :=
  let shs := (List.range elf.eShnum).map (elf.shs m)
  ⟨elf, shs, shs.getD elf.eShstrndx ⟨0, 0, 0⟩⟩

theorem elfReadShs_reads (elf : ElfInfo) :
    Reads (elfReadShs elf) (fun m => .ok (loaded elf m.view))
      (fun _ _ => (List.range elf.eShnum).map (shRange elf)) :=
  (Reads.forEach (fun _ => Reads.read _ _) _).bind (fun _ => Reads.pure _) (fun _ => rfl)
    (fun _ _ _ _ _ => (List.append_nil _).symm)

/-- The ranges of both tables. -/
def tableRanges (elf : ElfInfo) : List ByteRange :=
  (List.range elf.ePhnum).map (phRange elf) ++ (List.range elf.eShnum).map (shRange elf)

/-- The ranges that `elf_load` reads in a file with a header. -/
def loadRanges (elf : ElfInfo) : List ByteRange :=
  [⟨0, 1⟩, ⟨1, 1⟩, ⟨2, 1⟩, ⟨3, 1⟩, ⟨4, 1⟩, ⟨16, elf.elfClass.ehdrSize - 16⟩] ++ tableRanges elf

theorem tables_reads (size : Nat) (elf : ElfInfo) :
    Reads (ofExcept (elfIsValidHeader elf size) >>= fun _ =>
        elfReadPh elf >>= fun _ => elfReadShs elf)
      (fun m => (elfIsValidHeader elf size).map fun _ => loaded elf m.view)
      (fun _ _ => tableRanges elf) := by
  have htables := (elfReadPh_reads elf).bind (fun _ => elfReadShs_reads elf)
    (fun _ => rfl) (fun _ _ _ _ _ => rfl)
  refine (Reads.ofExcept _).bind (fun _ => htables) ?_ (fun _ _ _ _ _ => rfl)
  intro m
  cases elfIsValidHeader elf size with
  | error e => rfl
  | ok _ => rfl

theorem header_reads (size : Nat) (c : ElfClass) :
    Reads (elfReadElf size c >>= fun elf => ofExcept (elfIsValidHeader elf size) >>= fun _ =>
        elfReadPh elf >>= fun _ => elfReadShs elf)
      (fun m => (BaremetalCrt.elfReadElf c ⟨size, m.view⟩).bind fun elf =>
        (elfIsValidHeader elf size).map fun _ => loaded elf m.view)
      (fun _ x => ⟨16, x.elf.elfClass.ehdrSize - 16⟩ :: tableRanges x.elf) := by
  refine (elfReadElf_reads size c).bind (tables_reads size) (fun _ => rfl) ?_
  intro m elf x helf hx
  cases hvalid : elfIsValidHeader elf size with
  | error e =>
      rw [hvalid] at hx
      exact nomatch hx
  | ok _ =>
      rw [hvalid] at hx
      obtain rfl : loaded elf m.view = x := Except.ok.inj hx
      obtain ⟨rfl, -, -⟩ := elfReadElf_ok helf
      rfl

theorem elfLoad_reads (size : Nat) :
    Reads (elfLoad size)
      (fun m => (BaremetalCrt.elfLoad ⟨size, m.view⟩).map fun elf => loaded elf m.view)
      (fun _ x => loadRanges x.elf) := by
  refine (elfGetClass_reads size).bind (header_reads size) ?_ (fun _ _ _ _ _ => rfl)
  intro m
  unfold BaremetalCrt.elfLoad
  cases BaremetalCrt.elfGetClass ⟨size, m.view⟩ with
  | error e => rfl
  | ok c =>
      cases hread : BaremetalCrt.elfReadElf c ⟨size, m.view⟩ with
      | error e => simp only [bind, Except.bind, hread, Except.map]
      | ok elf =>
          simp only [bind, Except.bind, hread, Except.map]
          cases elfIsValidHeader elf size with
          | error e => rfl
          | ok _ => rfl

theorem shNameIs_reads (shstr : SecHeader) (name : CStr) (s : SecHeader) :
    Reads (shNameIs shstr name s) (fun m => .ok (shstr.nameIs m.view name s))
      (fun m _ => if shstr.shSize ≤ s.shName then [] else [shstr.nameRange m.view name s]) := by
  unfold shNameIs
  by_cases hs : shstr.shSize ≤ s.shName
  · simp only [hs, if_true, SecHeader.nameIs]
    exact Reads.pure _
  · simp only [hs, if_false]
    exact Reads.read _ _

/-- The ranges of names that `find_shs` reads. -/
def nameRanges (shstr : SecHeader) (m : Mem) (name : CStr) : List SecHeader → List ByteRange
  | [] => []
  | s :: rest =>
      (if shstr.shSize ≤ s.shName then [] else [shstr.nameRange m name s]) ++
        if shstr.nameIs m name s then [] else nameRanges shstr m name rest

theorem findShs_reads (shstr : SecHeader) (name : CStr) (shs : List SecHeader) :
    Reads (findShs shstr name shs)
      (fun m => ((shs.find? (shstr.nameIs m.view name)).map Except.ok).getD (.error (-einval)))
      (fun m _ => nameRanges shstr m.view name shs) := by
  induction shs with
  | nil => exact Reads.ofExcept (.error (-einval))
  | cons s rest ih =>
      have hrest : ∀ same : Bool, Reads (if same then pure s else findShs shstr name rest)
          (fun m => if same then .ok s else
            ((rest.find? (shstr.nameIs m.view name)).map Except.ok).getD (.error (-einval)))
          (fun m _ => if same then [] else nameRanges shstr m.view name rest) := by
        intro same
        cases same with
        | true => exact Reads.pure s
        | false => exact ih
      refine (shNameIs_reads shstr name s).bind hrest ?_ ?_
      · intro m
        rw [List.find?_cons]
        change _ = if shstr.nameIs m.view name s then _ else _
        cases shstr.nameIs m.view name s with
        | true => rfl
        | false => rfl
      · intro m same b hsame hb
        obtain rfl := Except.ok.inj hsame
        rfl

theorem loaded_shstr {elf : ElfInfo} (h : elf.eShstrndx < elf.eShnum) (m : Mem) :
    (loaded elf m).shstr = elf.shs m elf.eShstrndx := by
  simp [loaded, h]

/-- The search in the loaded entries is the search in the file. -/
theorem loaded_find {elf : ElfInfo} (h : elf.eShstrndx < elf.eShnum) (m : Mem) (name : CStr) :
    (loaded elf m).shs.find? ((loaded elf m).shstr.nameIs m name) =
      BaremetalCrt.findShs elf m name := by
  rw [loaded_shstr h]
  rfl

/-- The ranges that `embed_auxv` reads before its stores. -/
def locateRanges (elf : ElfInfo) (m : Mem) : List ByteRange :=
  loadRanges elf ++ nameRanges (elf.shs m elf.eShstrndx) m auxdataName
    ((List.range elf.eShnum).map (elf.shs m))

theorem fst_of_checked {p : SecHeader → Prop} [DecidablePred p] {e : Int} {elf : ElfInfo}
    {r : Except Int SecHeader} {y : ElfInfo × SecHeader}
    (h : (r.bind fun sec => if p sec then .error e else .ok (elf, sec)) = .ok y) : y.1 = elf := by
  cases r with
  | error e => exact nomatch h
  | ok sec =>
      simp only [Except.bind] at h
      split_ifs at h
      obtain rfl := Except.ok.inj h
      rfl

theorem locate_reads (size : Nat) :
    Reads (locate size) (fun m => auxTarget ⟨size, m.view⟩)
      (fun m x => locateRanges x.1 m.view) := by
  have hsearch := fun x : Loaded =>
    ((findShs_reads x.shstr auxdataName x.shs).orFail (-einval)).bind (fun sec => Reads.ofExcept
      (if sec.shSize < add64 (add64 auxDataSize x.elf.ePhoff) (auxData x.elf).phdrSize then
        .error (-enomem) else .ok (x.elf, sec))) (fun _ => rfl)
      (fun _ _ _ _ _ => (List.append_nil _).symm)
  refine ((elfLoad_reads size).orFail (-einval)).bind hsearch ?_ ?_
  · intro m
    unfold auxTarget
    cases hload : BaremetalCrt.elfLoad ⟨size, m.view⟩ with
    | error e => rfl
    | ok elf =>
        obtain ⟨c, rfl, hc⟩ := Checked.of_load hload
        simp only [Except.map, Except.mapError, Except.bind, loaded_find hc.shstrndx]
        cases BaremetalCrt.findShs _ m.view auxdataName with
        | none => rfl
        | some sec => rfl
  · intro m x y hx hy
    cases hload : BaremetalCrt.elfLoad ⟨size, m.view⟩ with
    | error e =>
        rw [hload] at hx
        exact nomatch hx
    | ok elf =>
        rw [hload] at hx
        obtain rfl : loaded elf m.view = x := Except.ok.inj hx
        obtain ⟨c, rfl, hc⟩ := Checked.of_load hload
        rw [fst_of_checked hy, loaded_shstr hc.shstrndx]
        rfl

/-- The memory with the record in it. -/
def withRecord (pad : Nat → UInt8) (elf : ElfInfo) (sec : SecHeader) (m : HostMem) : HostMem :=
  m.copy sec.shOffset ((auxData elf).encode pad) auxDataSize

/-- The memory after both stores. -/
def stored (pad : Nat → UInt8) (elf : ElfInfo) (sec : SecHeader) (m : HostMem) : HostMem :=
  (withRecord pad elf sec m).copy (sec.shOffset + auxDataSize) (withRecord pad elf sec m).view
    (prefixSize elf)

/-- Stores that do not wrap are two copies into the file. -/
theorem stored_view {pad : Nat → UInt8} {elf : ElfInfo} {sec : SecHeader} {m : HostMem} {a : Nat}
    (hfit : sec.shOffset + auxDataSize + prefixSize elf ≤ 2 ^ 64) (ha : a < 2 ^ 64) :
    (stored pad elf sec m).view a =
      let record := LittleEndian.copy m.view sec.shOffset ((auxData elf).encode pad) auxDataSize
      LittleEndian.copy record (sec.shOffset + auxDataSize) record (prefixSize elf) a := by
  have hrecord : ∀ b < 2 ^ 64, (withRecord pad elf sec m).view b =
      LittleEndian.copy m.view sec.shOffset ((auxData elf).encode pad) auxDataSize b :=
    fun b hb => HostMem.view_copy (by omega) hb
  rw [stored, HostMem.view_copy hfit ha]
  by_cases hin : sec.shOffset + auxDataSize ≤ a ∧
      a < sec.shOffset + auxDataSize + prefixSize elf
  · rw [LittleEndian.copy_of_mem hin.1 hin.2, LittleEndian.copy_of_mem hin.1 hin.2]
    exact hrecord _ (by omega)
  · rw [LittleEndian.copy_of_outside (by omega), LittleEndian.copy_of_outside (by omega)]
    exact hrecord a ha

/-- The ranges that the stores write. -/
def storeRanges (elf : ElfInfo) (sec : SecHeader) : List ByteRange :=
  [⟨sec.shOffset, auxDataSize⟩, ⟨sec.shOffset + auxDataSize, prefixSize elf⟩]

theorem prefixSize_eq {c : ElfClass} {f : Image} (h : (f.header c).phdrEnd < 2 ^ 64) :
    prefixSize (f.header c) = (f.header c).phdrEnd := copiedSize_eq h

theorem store_run (pad : Nat → UInt8) (elf : ElfInfo) (sec : SecHeader)
    (s : State HostMem ByteRange) :
    store pad elf sec s = (.ok (), ⟨stored pad elf sec s.mem,
      s.reads ++ [⟨0, prefixSize elf⟩], s.writes ++ storeRanges elf sec⟩) := by
  have happend : s.writes ++ storeRanges elf sec =
      s.writes ++ [⟨sec.shOffset, auxDataSize⟩] ++
        [⟨sec.shOffset + auxDataSize, prefixSize elf⟩] := by
    rw [List.append_assoc]
    rfl
  rw [happend]
  rfl

end Traced

section Run

variable {f : FileImage} {elf : ElfInfo} {sec : SecHeader}

/-- The run of a file that is accepted. -/
theorem FileImage.run_of_ok (h : auxTarget f.image = .ok (elf, sec)) (pad : Nat → UInt8) :
    f.run pad = (.ok (), ⟨Traced.stored pad elf sec f.mem,
      Traced.locateRanges elf f.mem.view ++ [⟨0, Traced.prefixSize elf⟩],
      Traced.storeRanges elf sec⟩) := by
  have hlocate := (Traced.locate_reads f.size).ok ⟨f.mem, [], []⟩ (elf, sec) h
  exact (bind_run_ok hlocate).trans (Traced.store_run pad elf sec _)

/-- The run of a file that is rejected. -/
theorem FileImage.run_of_error {e : Int} (h : auxTarget f.image = .error e) (pad : Nat → UInt8) :
    ∃ rs, f.run pad = (.error e, ⟨f.mem, rs, []⟩) := by
  obtain ⟨rs, hrs⟩ := (Traced.locate_reads f.size).error ⟨f.mem, [], []⟩ e h
  exact ⟨rs, bind_run_error hrs⟩

/-- A run returns what the function without accesses returns. -/
theorem FileImage.run_result (f : FileImage) (pad : Nat → UInt8) :
    (f.run pad).1 = (embedAuxv pad f.image).map fun _ => () := by
  cases htarget : auxTarget f.image with
  | error e =>
      obtain ⟨rs, hrun⟩ := FileImage.run_of_error htarget pad
      rw [hrun, embedAuxv_eq_error pad htarget]
      rfl
  | ok x =>
      rw [FileImage.run_of_ok htarget pad, embedAuxv_eq_ok pad htarget]
      rfl

/-- Stores that do not wrap leave the bytes that the function without accesses returns. -/
theorem FileImage.run_bytes (h : auxTarget f.image = .ok (elf, sec)) (pad : Nat → UInt8)
    (hfit : sec.shOffset + auxDataSize + Traced.prefixSize elf ≤ 2 ^ 64) :
    ∃ f', embedAuxv pad f.image = .ok f' ∧
      ∀ a < 2 ^ 64, (f.run pad).2.mem.view a = f'.bytes a := by
  refine ⟨_, embedAuxv_eq_ok pad h, ?_⟩
  intro a ha
  rw [FileImage.run_of_ok h pad]
  exact Traced.stored_view hfit ha

end Run


end BaremetalCrt
