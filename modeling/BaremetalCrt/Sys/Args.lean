import BaremetalCrt.Library.LittleEndian
import BaremetalCrt.Memory.Node
import BaremetalCrt.Sys.String

/-!
# Arguments and the auxiliary vector

Before the main thread starts, the runtime builds `argv`, `envp` and the auxiliary vector in
one array of words on its stack. The arguments come from an area that a host fills; the
auxiliary vector names the program headers that the build embedded into the image.

## Implementation notes

The array has a fixed number of words. A word that does not fit is dropped with a warning.
Invalidating the cache for an argument has no effect on the array.
-/

namespace BaremetalCrt

open LittleEndian (Field)

/-- The limits of the configuration. -/
structure ArgConfig where
  maxArgs : Nat
  maxEnvs : Nat

/-- `MAX_ARGV`. -/
def ArgConfig.maxArgv (g : ArgConfig) : Nat := g.maxArgs + 1 + g.maxEnvs + 1 + 10

/-- The array `argv` and the index of its next word, `index_argv`. -/
structure Argv where
  words : Nat → Nat
  index : Nat

/-- What `init_args` reads: the memory, with the addresses that the linker gives, and the
words that were on the stack. -/
structure ArgInput where
  target : Target
  config : ArgConfig
  mem : Mem
  commArea : Nat
  auxStart : Nat
  kernelName : Nat
  atRandom : Nat
  stack : Nat → Nat

/-- What `init_args` leaves: the array, the number of arguments and the index of `envp`. -/
structure ArgOutput where
  argv : Argv
  argc : Nat
  envp : Nat

def atNull : Nat := 0
def atPhdr : Nat := 3
def atPhent : Nat := 4
def atPhnum : Nat := 5
def atPagesz : Nat := 6
def atRandomType : Nat := 25

def commMagic : Nat := 0xbadcafe5

/-- `ALIGN_OF`. -/
def alignOf (x align : Nat) : Nat := if x % align = 0 then x else (x / align + 1) * align

/-- `magic` of `struct k_comm_area_header`. -/
def commMagicField : Field := ⟨0, 4⟩

/-- `num_args` of `struct k_comm_area_header`. -/
def commNumArgs : Field := ⟨4, 4⟩

/-- `size` of `struct k_comm_arg_header`. -/
def commArgSize : Field := ⟨8, 8⟩

/-- `valid` of `struct k_aux_data`. -/
def kAuxValid : Field := ⟨0, 4⟩

/-- `phent` of `struct k_aux_data`. -/
def kAuxPhent : Field := ⟨8, 8⟩

/-- `phnum` of `struct k_aux_data`. -/
def kAuxPhnum : Field := ⟨16, 8⟩

/-- `sizeof(struct k_aux_data)`. -/
def kAuxSize : Nat := 32

/-- `e_phoff` of the runtime's own ELF header. -/
def kEhdrPhoff (t : Target) : Field := if t.bits = 64 then ⟨32, 8⟩ else ⟨28, 4⟩

section Words

variable (g : ArgConfig)

/-- `add_argv`. -/
def addArgv (a : Argv) (p : Nat) : Argv × Int :=
  if g.maxArgv ≤ a.index then (a, -enomem)
  else (⟨Function.update a.words a.index p, a.index + 1⟩, 0)

/-- `add_env`. -/
def addEnv (a : Argv) (p : Nat) : Argv × Int := addArgv g a p

/-- `add_aux`. -/
def addAux (a : Argv) (typ p : Nat) : Argv × Int :=
  if g.maxArgv - 1 ≤ a.index then (a, -enomem)
  else (⟨Function.update (Function.update a.words a.index typ) (a.index + 1) p, a.index + 2⟩, 0)

/-- Calls of `add_aux` in their order. -/
def addAuxs (a : Argv) (calls : List (Nat × Nat)) : Argv :=
  calls.foldl (fun a c => (addAux g a c.1 c.2).1) a

/-- The loop of `map_argv`, with the arguments that are left and `buf`. -/
def mapArgv (t : Target) (m : Mem) : Nat → Nat → Argv → Argv
  | 0, _, a => a
  | n + 1, buf, a =>
      let size := commArgSize.get m buf
      let buf := t.wrap (buf + 16)
      mapArgv t m n (t.wrap (alignOf (t.wrap (buf + size)) 8)) (addArgv g a buf).1

end Words

/-- The number of arguments that the host passes. -/
def ArgInput.numArgs (r : ArgInput) : Nat :=
  if commMagicField.get r.mem r.commArea = commMagic then commNumArgs.get r.mem r.commArea else 0

/-- The arguments of the host. -/
def ArgInput.hostArgs (r : ArgInput) : Argv :=
  if commMagicField.get r.mem r.commArea = commMagic then
    mapArgv r.config r.target r.mem (commNumArgs.get r.mem r.commArea)
      (r.target.wrap (r.commArea + alignOf 16 8)) ⟨r.stack, 0⟩
  else ⟨r.stack, 0⟩

/-- The arguments of the host, or the default kernel name. -/
def ArgInput.args (r : ArgInput) : Argv :=
  let a := r.hostArgs
  if a.index = 0 then ⟨Function.update a.words 0 r.kernelName, 1⟩ else a

/-- `__ehdr_start`, which the linker script puts behind `struct k_aux_data`. -/
def ArgInput.ehdrStart (r : ArgInput) : Nat := r.auxStart + kAuxSize

/-- The calls of `add_aux`, with the branch on the embedded data. -/
def ArgInput.auxCalls (r : ArgInput) : List (Nat × Nat) :=
  [(atRandomType, r.atRandom), (atPagesz, pageSize)] ++
    (if kAuxValid.get r.mem r.auxStart ≠ 0 then
      [(atPhent, r.target.wrap (kAuxPhent.get r.mem r.auxStart)),
        (atPhnum, r.target.wrap (kAuxPhnum.get r.mem r.auxStart)),
        (atPhdr, r.target.wrap
          (r.ehdrStart + (kEhdrPhoff r.target).get r.mem r.ehdrStart))]
    else []) ++ [(atNull, 0)]

/-- `init_args`. -/
def initArgs (r : ArgInput) : ArgOutput :=
  let a := r.args
  let argc := a.index
  -- the word behind the arguments is skipped and keeps its value
  let a : Argv := ⟨a.words, a.index + 1⟩
  let envp := a.index
  let a := (addEnv r.config a 0).1
  ⟨addAuxs r.config a r.auxCalls, argc, envp⟩

/-- An entry of the auxiliary vector, which starts behind the end of `envp`. -/
def ArgOutput.AuxAt (out : ArgOutput) (k typ p : Nat) : Prop :=
  out.argv.words (out.envp + 1 + 2 * k) = typ ∧ out.argv.words (out.envp + 1 + 2 * k + 1) = p

section Stored

variable {g : ArgConfig} {a : Argv}

theorem addArgv_of_lt (p : Nat) (h : a.index < g.maxArgv) :
    addArgv g a p = (⟨Function.update a.words a.index p, a.index + 1⟩, 0) :=
  if_neg (Nat.not_le.mpr h)

theorem addAux_of_lt (typ p : Nat) (h : a.index + 1 < g.maxArgv) :
    addAux g a typ p =
      (⟨Function.update (Function.update a.words a.index typ) (a.index + 1) p, a.index + 2⟩, 0) :=
  if_neg (by omega)

/-- A call changes no word that is there already. -/
theorem addAux_words (typ p : Nat) {i : Nat} (hi : i < a.index) :
    (addAux g a typ p).1.words i = a.words i ∧ a.index ≤ (addAux g a typ p).1.index := by
  unfold addAux
  split
  · exact ⟨rfl, Nat.le_refl _⟩
  · refine ⟨?_, Nat.le_add_right _ 2⟩
    dsimp only
    rw [Function.update_of_ne (by omega), Function.update_of_ne (Nat.ne_of_lt hi)]

theorem addAuxs_cons (c : Nat × Nat) (calls : List (Nat × Nat)) :
    addAuxs g a (c :: calls) = addAuxs g (addAux g a c.1 c.2).1 calls := rfl

theorem addAuxs_words {calls : List (Nat × Nat)} {i : Nat} (hi : i < a.index) :
    (addAuxs g a calls).words i = a.words i := by
  induction calls generalizing a with
  | nil => rfl
  | cons c calls ih =>
      obtain ⟨hword, hindex⟩ := addAux_words (g := g) c.1 c.2 hi
      exact (ih (Nat.lt_of_lt_of_le hi hindex)).trans hword

/-- A call with room for its entry leaves it in its place. -/
theorem addAuxs_stored {calls : List (Nat × Nat)} {k typ p : Nat}
    (hroom : a.index + 2 * k + 1 < g.maxArgv) (hk : calls[k]? = some (typ, p)) :
    (addAuxs g a calls).words (a.index + 2 * k) = typ ∧
      (addAuxs g a calls).words (a.index + 2 * k + 1) = p := by
  induction calls generalizing a k with
  | nil => exact absurd hk (Option.some_ne_none _ ∘ Eq.symm)
  | cons c calls ih =>
      rw [addAuxs_cons, addAux_of_lt c.1 c.2 (by omega)]
      cases k with
      | zero =>
          obtain rfl : c = (typ, p) := Option.some.inj hk
          refine ⟨?_, ?_⟩
          · rw [addAuxs_words (show a.index + 2 * 0 < a.index + 2 by omega)]
            change Function.update (Function.update a.words a.index typ) (a.index + 1) p a.index = _
            rw [Function.update_of_ne (by omega), Function.update_self]
          · rw [addAuxs_words (show a.index + 2 * 0 + 1 < a.index + 2 by omega)]
            exact Function.update_self ..
      | succ k =>
          have hplace : a.index + 2 * (k + 1) = a.index + 2 + 2 * k := by omega
          rw [hplace]
          exact ih (show a.index + 2 + 2 * k + 1 < g.maxArgv by omega) hk

theorem addArgv_of_ge (p : Nat) (h : g.maxArgv ≤ a.index) : addArgv g a p = (a, -enomem) :=
  if_pos h

theorem addAux_of_ge (typ p : Nat) (h : g.maxArgv ≤ a.index + 1) :
    addAux g a typ p = (a, -enomem) :=
  if_pos (by omega)

/-- The arguments are counted up to the size of the array. -/
theorem mapArgv_index (t : Target) (m : Mem) (n buf : Nat) (h : a.index ≤ g.maxArgv) :
    (mapArgv g t m n buf a).index = min (a.index + n) g.maxArgv := by
  induction n generalizing buf a with
  | zero => exact (Nat.min_eq_left h).symm
  | succ n ih =>
      rcases Nat.lt_or_ge a.index g.maxArgv with hroom | hfull
      · have hadd := addArgv_of_lt (g := g) (a := a) (t.wrap (buf + 16)) hroom
        simp only [mapArgv, hadd]
        rw [ih]
        · change min (a.index + 1 + n) g.maxArgv = _
          rw [Nat.add_right_comm, Nat.add_assoc]
        · exact hroom
      · have hadd := addArgv_of_ge (g := g) (a := a) (t.wrap (buf + 16)) hfull
        simp only [mapArgv, hadd]
        rw [ih _ h]
        omega

/-- The pairs that all fit are all counted. -/
theorem addAuxs_index {calls : List (Nat × Nat)} (h : a.index + 2 * calls.length ≤ g.maxArgv) :
    (addAuxs g a calls).index = a.index + 2 * calls.length := by
  induction calls generalizing a with
  | nil => rfl
  | cons c calls ih =>
      rw [List.length_cons] at h ⊢
      have hrest : a.index + 2 + 2 * calls.length ≤ g.maxArgv := by omega
      rw [addAuxs_cons, addAux_of_lt c.1 c.2 (by omega)]
      calc
        _ = a.index + 2 + 2 * calls.length := ih hrest
        _ = a.index + 2 * (calls.length + 1) := by omega

/-- Once a pair does not fit, the index stays where no further pair fits. -/
theorem addAuxs_full {calls : List (Nat × Nat)} (h : g.maxArgv ≤ a.index + 1) :
    addAuxs g a calls = a := by
  induction calls generalizing a with
  | nil => rfl
  | cons c calls ih =>
      rw [addAuxs_cons, addAux_of_ge c.1 c.2 h]
      exact ih h

/-- There is room behind the pairs only when all of them are stored. -/
theorem addAuxs_index_of_room {calls : List (Nat × Nat)}
    (h : (addAuxs g a calls).index + 1 < g.maxArgv) :
    (addAuxs g a calls).index = a.index + 2 * calls.length := by
  induction calls generalizing a with
  | nil => rfl
  | cons c calls ih =>
      rcases Nat.lt_or_ge (a.index + 1) g.maxArgv with hroom | hfull
      · rw [addAuxs_cons, addAux_of_lt c.1 c.2 hroom] at h ⊢
        rw [ih h, List.length_cons]
        change a.index + 2 + 2 * calls.length = _
        omega
      · rw [addAuxs_full hfull] at h
        omega

end Stored

section Initial

variable {r : ArgInput}

theorem ArgInput.hostArgs_index : r.hostArgs.index = min r.numArgs r.config.maxArgv := by
  unfold ArgInput.numArgs ArgInput.hostArgs
  split
  · rw [mapArgv_index _ _ _ _ (Nat.zero_le _), Nat.zero_add]
  · exact (Nat.zero_min _).symm

/-- The arguments that fit are in the array, and at least the kernel name is. -/
theorem ArgInput.args_index_min : r.args.index = max 1 (min r.numArgs r.config.maxArgv) := by
  have hhost := ArgInput.hostArgs_index (r := r)
  unfold ArgInput.args
  dsimp only
  split
  · rename_i hzero
    rw [← hhost, hzero]
    rfl
  · rename_i hpos
    rw [hhost] at hpos ⊢
    exact (Nat.max_eq_right (Nat.pos_of_ne_zero hpos)).symm

theorem ArgInput.args_index (h : r.numArgs ≤ r.config.maxArgv) :
    r.args.index = max 1 r.numArgs := by
  rw [ArgInput.args_index_min, Nat.min_eq_left h]

/-- With room for the entry, the array has the entry of each call. -/
theorem initArgs_auxAt {k typ p : Nat} (hroom : r.args.index + 2 * k + 3 < r.config.maxArgv)
    (hk : r.auxCalls[k]? = some (typ, p)) : (initArgs r).AuxAt k typ p := by
  have henv : addEnv r.config ⟨r.args.words, r.args.index + 1⟩ 0 =
      (⟨Function.update r.args.words (r.args.index + 1) 0, r.args.index + 1 + 1⟩, 0) :=
    addArgv_of_lt 0 (show r.args.index + 1 < r.config.maxArgv by omega)
  simp only [ArgOutput.AuxAt, initArgs, henv]
  exact addAuxs_stored
    (show r.args.index + 1 + 1 + 2 * k + 1 < r.config.maxArgv by omega) hk

end Initial

end BaremetalCrt
