import BaremetalCrt.Sys.CommArea

/-!
# The block that the start code reads

`init_args` builds its array at the top of the main stack, which is memory that nothing
clears. The main thread starts with its stack pointer on the word below the array, and
`k_crt_start` finds `argv` and `envp` from there by position alone.

## Implementation notes

The memory of the stack is read by words. The array is a function on all indices, as in
`init_args`, so that staying inside of it is something to prove.
-/

namespace BaremetalCrt

/-- Where `k_stack_main` lies. A check at compile time gives it room for the array. -/
structure MainStack (t : Target) (g : ArgConfig) where
  start : Nat
  size : Nat
  large : 8 * g.maxArgv ≤ size
  low : t.optBytes ≤ start
  fits : start + size < 2 ^ t.bits

/-- A thread at its entry: the stack pointer, and the words of its memory by address. -/
structure ThreadEntry where
  sp : Nat
  load : Nat → Nat

/-- What `k_crt_start` passes to `__libc_init`. -/
structure CrtArgs where
  argc : Nat
  argv : Nat
  envp : Nat

section Start

variable {t : Target} {g : ArgConfig}

/-- The end of the stack and of the array. -/
def MainStack.top (s : MainStack t g) : Nat := s.start + s.size

/-- The address that `init_args` stores in `argv`. -/
def MainStack.argv (s : MainStack t g) : Nat := s.top - t.optBytes * g.maxArgv

/-- The words of the stack from `argv` on, by address. -/
def MainStack.load (s : MainStack t g) (a : Argv) : Nat → Nat :=
  fun addr => a.words ((addr - s.argv) / t.optBytes)

/-- `k_libc_init_main_thread`: the number of arguments goes into the word below `argv`. -/
def kLibcInitMainThread (t : Target) (load : Nat → Nat) (argc argv : Nat) : ThreadEntry :=
  let sp := argv - t.optBytes
  ⟨sp, Function.update load sp argc⟩

/-- `REGOFF`. -/
def regOff (t : Target) : Nat := if t.bits = 64 then 3 else 2

/-- `k_crt_start` up to its call. -/
def kCrtStart (t : Target) (e : ThreadEntry) : CrtArgs :=
  let a0 := e.load e.sp
  let a1 := t.wrap (e.sp + t.optBytes)
  let a2 := t.wrap (a0 <<< regOff t)
  let a2 := t.wrap (a1 + a2)
  let a2 := t.wrap (a2 + t.optBytes)
  ⟨a0, a1, a2⟩

end Start

/-- The ranges of the arguments of the host. -/
def ArgInput.hostRanges (r : ArgInput) : List (Nat × Nat) :=
  unmapArgv r.target r.mem r.numArgs (r.target.wrap (r.commArea + alignOf 16 8))

/-- The entries that `argv` should have. -/
def ArgInput.argList (r : ArgInput) : List Nat :=
  if r.numArgs = 0 then [r.kernelName] else r.hostRanges.map Prod.fst

/-- The main thread as the leader core starts it. -/
def ArgInput.mainEntry (r : ArgInput) (s : MainStack r.target r.config) : ThreadEntry :=
  kLibcInitMainThread r.target (s.load (initArgs r).argv) (initArgs r).argc s.argv

/-- What the start code finds is a block of arguments, environment and auxiliary pairs, each
with its end, between two addresses. -/
structure StartBlock (w : Nat) (load : Nat → Nat) (c : CrtArgs) (args : List Nat)
    (low high : Nat) : Prop where
  argc : c.argc = args.length
  args : ∀ i p, args[i]? = some p → load (c.argv + w * i) = p
  argvNull : load (c.argv + w * c.argc) = 0
  envp : c.envp = c.argv + w * (c.argc + 1)
  envpNull : load c.envp = 0
  auxNull : ∃ k, load (c.envp + w * (2 * k + 1)) = 0 ∧ c.envp + w * (2 * k + 3) ≤ high
  inside : low ≤ c.argv

/-- The array with the word behind the arguments skipped. -/
def ArgInput.skipped (r : ArgInput) : Argv := ⟨r.args.words, r.args.index + 1⟩

/-- The array with the end of `envp`. -/
def ArgInput.envDone (r : ArgInput) : Argv := (addEnv r.config r.skipped 0).1

/-- The array has room for all the arguments, all the auxiliary pairs and the two words
that end `argv` and `envp`. -/
def ArgInput.Fits (r : ArgInput) : Prop :=
  max 1 r.numArgs + 2 * r.auxCalls.length + 1 < r.config.maxArgv

instance (r : ArgInput) : Decidable r.Fits :=
  inferInstanceAs (Decidable (_ < _))

section Entry

variable {t : Target} {g : ArgConfig}

theorem Target.optBytes_pos (t : Target) : 0 < t.optBytes := by
  unfold Target.optBytes
  rcases t.bits_cases with h | h
  · rw [h]
    decide
  · rw [h]
    decide

theorem MainStack.array_le (s : MainStack t g) : t.optBytes * g.maxArgv ≤ s.size := by
  have hbytes : t.optBytes ≤ 8 := by
    unfold Target.optBytes
    rcases t.bits_cases with h | h
    · rw [h]
      decide
    · rw [h]
  exact Nat.le_trans (Nat.mul_le_mul_right _ hbytes) s.large

/-- The array ends with the stack. -/
theorem MainStack.argv_add (s : MainStack t g) : s.argv + t.optBytes * g.maxArgv = s.top := by
  have := s.array_le
  unfold MainStack.argv MainStack.top
  omega

theorem MainStack.start_le (s : MainStack t g) : s.start ≤ s.argv := by
  have := s.array_le
  unfold MainStack.argv MainStack.top
  omega

theorem MainStack.load_slot (s : MainStack t g) (a : Argv) (i : Nat) :
    s.load a (s.argv + t.optBytes * i) = a.words i := by
  unfold MainStack.load
  rw [Nat.add_sub_cancel_left, Nat.mul_div_cancel_left _ t.optBytes_pos]

/-- The places in the array are those below the top of the stack. -/
theorem MainStack.slot_le_top_iff (s : MainStack t g) (n : Nat) :
    s.argv + t.optBytes * n ≤ s.top ↔ n ≤ g.maxArgv := by
  rw [← s.argv_add, Nat.add_le_add_iff_left, Nat.mul_le_mul_left_iff t.optBytes_pos]

/-- The shift of the start code multiplies by the size of a word. -/
theorem shiftLeft_regOff (t : Target) (n : Nat) : n <<< regOff t = t.optBytes * n := by
  unfold regOff Target.optBytes
  rw [Nat.shiftLeft_eq, Nat.mul_comm]
  rcases t.bits_cases with h | h
  · rw [h]
    rfl
  · rw [h]
    rfl

/-- Storing the number of arguments changes no word of the array. -/
theorem entry_load_slot (s : MainStack t g) (a : Argv) (argc i : Nat) :
    (kLibcInitMainThread t (s.load a) argc s.argv).load (s.argv + t.optBytes * i) =
      a.words i := by
  have hpos := t.optBytes_pos
  have hlow := s.low
  have hstart := s.start_le
  have hne : s.argv + t.optBytes * i ≠ s.argv - t.optBytes := by omega
  exact (Function.update_of_ne hne ..).trans (s.load_slot a i)

/-- The start code finds the array, and `envp` behind the word that ends `argv`. -/
theorem kCrtStart_entry (s : MainStack t g) (a : Argv) {argc : Nat} (h : argc < g.maxArgv) :
    kCrtStart t (kLibcInitMainThread t (s.load a) argc s.argv) =
      ⟨argc, s.argv, s.argv + t.optBytes * (argc + 1)⟩ := by
  have hlow := s.low
  have hstart := s.start_le
  have hend := s.argv_add
  have hfits : s.top < 2 ^ t.bits := s.fits
  have hslot : t.optBytes * (argc + 1) ≤ t.optBytes * g.maxArgv := Nat.mul_le_mul_left _ h
  rw [Nat.mul_add, Nat.mul_one] at hslot ⊢
  have hsp : s.argv - t.optBytes + t.optBytes = s.argv := by omega
  have hwrap : ∀ {n : Nat}, n ≤ s.top → t.wrap n = n :=
    fun hn => Nat.mod_eq_of_lt (Nat.lt_of_le_of_lt hn hfits)
  simp only [kCrtStart, kLibcInitMainThread, Function.update_self, shiftLeft_regOff, hsp]
  rw [hwrap (n := s.argv) (by omega), hwrap (n := t.optBytes * argc) (by omega),
    hwrap (n := s.argv + t.optBytes * argc) (by omega), Nat.add_assoc s.argv,
    hwrap (n := s.argv + (t.optBytes * argc + t.optBytes)) (by omega)]

end Entry

section Slots

variable {r : ArgInput}

theorem ArgInput.hostRanges_length (r : ArgInput) : r.hostRanges.length = r.numArgs :=
  unmapArgv_length _ _

/-- The entries of `argv` are appended to the array, and nothing else. -/
theorem ArgInput.args_appended (h : r.numArgs ≤ r.config.maxArgv) :
    Argv.Appended ⟨r.stack, 0⟩ r.args r.argList := by
  have hhost : Argv.Appended ⟨r.stack, 0⟩ r.hostArgs (r.hostRanges.map Prod.fst) := by
    unfold ArgInput.hostRanges ArgInput.numArgs ArgInput.hostArgs
    split
    · rename_i hmagic
      apply mapArgv_appended
      rw [ArgInput.numArgs, if_pos hmagic] at h
      rw [Nat.zero_add]
      exact h
    · exact Argv.Appended.nil _
  have hindex : r.hostArgs.index = r.numArgs :=
    ArgInput.hostArgs_index.trans (Nat.min_eq_left h)
  unfold ArgInput.args ArgInput.argList
  dsimp only
  rw [hindex]
  split
  · rename_i hzero
    have hnil : r.hostRanges.map Prod.fst = [] := by
      rw [List.map_eq_nil_iff, ← List.length_eq_zero_iff, r.hostRanges_length, hzero]
    rw [hnil] at hhost
    have hroom : 0 < r.config.maxArgv := by
      unfold ArgConfig.maxArgv
      omega
    rw [hhost.eq_of_nil]
    apply Argv.Appended.cons hroom
    rw [addArgv_of_lt _ hroom]
    exact Argv.Appended.nil _
  · exact hhost

theorem ArgInput.argList_length (r : ArgInput) : r.argList.length = max 1 r.numArgs := by
  unfold ArgInput.argList
  split
  · rename_i hzero
    rw [hzero]
    rfl
  · rename_i hpos
    rw [List.length_map, r.hostRanges_length]
    exact (Nat.max_eq_right (Nat.pos_of_ne_zero hpos)).symm

/-- The steps of `init_args` behind the arguments. -/
theorem initArgs_argv : (initArgs r).argv = addAuxs r.config r.envDone r.auxCalls := by
  simp only [initArgs, ArgInput.envDone, ArgInput.skipped]

/-- Ending `envp` leaves the words before it alone. -/
theorem ArgInput.envDone_words {i : Nat} (hi : i < r.skipped.index) :
    i < r.envDone.index ∧ r.envDone.words i = r.skipped.words i := by
  unfold ArgInput.envDone addEnv
  rcases Nat.lt_or_ge r.skipped.index r.config.maxArgv with hroom | hfull
  · rw [addArgv_of_lt 0 hroom]
    refine ⟨Nat.lt_succ_of_lt hi, ?_⟩
    dsimp only
    rw [Function.update_of_ne (Nat.ne_of_lt hi)]
  · rw [addArgv_of_ge 0 hfull]
    exact ⟨hi, rfl⟩

/-- What follows the arguments leaves the words up to the end of `argv` alone. -/
theorem initArgs_words {i : Nat} (hi : i ≤ r.args.index) :
    (initArgs r).argv.words i = r.args.words i := by
  obtain ⟨hlt, hwords⟩ := ArgInput.envDone_words (r := r) (Nat.lt_succ_of_le hi)
  rw [initArgs_argv, addAuxs_words hlt, hwords]
  rfl

/-- The word that should end `argv` is the one that was on the stack. -/
theorem initArgs_argvEnd (h : r.numArgs ≤ r.config.maxArgv) :
    (initArgs r).argv.words (max 1 r.numArgs) = r.stack (max 1 r.numArgs) := by
  have hindex := ArgInput.args_index h
  rw [initArgs_words (Nat.le_of_eq hindex.symm)]
  apply (ArgInput.args_appended h).other
  rw [r.argList_length]
  exact Or.inr (Nat.le_of_eq (Nat.zero_add _))

theorem ArgInput.envDone_of_lt (h : r.skipped.index < r.config.maxArgv) :
    r.envDone = ⟨Function.update r.skipped.words r.skipped.index 0, r.skipped.index + 1⟩ :=
  congrArg Prod.fst (addArgv_of_lt 0 h)

theorem initArgs_envpNull (h : r.skipped.index < r.config.maxArgv) :
    (initArgs r).argv.words r.skipped.index = 0 := by
  rw [initArgs_argv, ArgInput.envDone_of_lt h, addAuxs_words (Nat.lt_succ_self _)]
  dsimp only
  rw [Function.update_self]

/-- The call for the end of the auxiliary vector comes last, and no other one has its type. -/
theorem ArgInput.auxCalls_eq_append (r : ArgInput) :
    ∃ calls, r.auxCalls = calls ++ [(atNull, 0)] ∧ ∀ c ∈ calls, c.1 ≠ atNull := by
  refine ⟨_, rfl, fun c hc hnull => ?_⟩
  have htype := List.mem_map_of_mem (f := Prod.fst) hc
  rw [hnull] at htype
  split at htype
  · have hnot : atNull ∉ [atRandomType, atPagesz, atPhent, atPhnum, atPhdr] := by decide
    exact hnot htype
  · have hnot : atNull ∉ [atRandomType, atPagesz] := by decide
    exact hnot htype

theorem initArgs_argc : (initArgs r).argc = r.args.index := by
  simp only [initArgs]

theorem initArgs_envp : (initArgs r).envp = r.skipped.index := by
  simp only [initArgs, ArgInput.skipped]

theorem ArgInput.mainEntry_load (s : MainStack r.target r.config) (i : Nat) :
    (r.mainEntry s).load (s.argv + r.target.optBytes * i) = (initArgs r).argv.words i :=
  entry_load_slot s _ _ i

/-- What the start code passes on when the host's arguments fit. -/
theorem ArgInput.kCrtStart_mainEntry (s : MainStack r.target r.config)
    (h : max 1 r.numArgs < r.config.maxArgv) :
    kCrtStart r.target (r.mainEntry s) =
      ⟨max 1 r.numArgs, s.argv, s.argv + r.target.optBytes * (max 1 r.numArgs + 1)⟩ := by
  rw [ArgInput.mainEntry, initArgs_argc, ArgInput.args_index (by omega)]
  exact kCrtStart_entry s _ h

/-- The entries of `argv` are those of the list. -/
theorem initArgs_argList (h : r.numArgs ≤ r.config.maxArgv) {i p : Nat}
    (hp : r.argList[i]? = some p) : (initArgs r).argv.words i = p := by
  have hi : i < max 1 r.numArgs := by
    rw [← r.argList_length]
    exact (List.getElem?_eq_some_iff.mp hp).1
  have hindex := ArgInput.args_index h
  have hstored := (ArgInput.args_appended h).stored i p hp
  dsimp only at hstored
  rw [Nat.zero_add] at hstored
  rw [initArgs_words (by omega), hstored]

/-- The block in terms of the words of the array. -/
theorem startBlock_iff_words (s : MainStack r.target r.config)
    (h : r.numArgs ≤ r.config.maxArgs) :
    StartBlock r.target.optBytes (r.mainEntry s).load (kCrtStart r.target (r.mainEntry s))
        r.argList s.argv s.top ↔
      r.stack (max 1 r.numArgs) = 0 ∧ (initArgs r).argv.words r.skipped.index = 0 ∧
        ∃ k, (initArgs r).argv.words (r.skipped.index + (2 * k + 1)) = 0 ∧
          r.skipped.index + (2 * k + 3) ≤ r.config.maxArgv := by
  have hmax : max 1 r.numArgs < r.config.maxArgv := by
    unfold ArgConfig.maxArgv
    omega
  have hnum : r.numArgs ≤ r.config.maxArgv := by omega
  have hskipped : r.skipped.index = max 1 r.numArgs + 1 := by
    rw [ArgInput.skipped, ArgInput.args_index hnum]
  have hload := r.mainEntry_load s
  have hplace : ∀ i, s.argv + r.target.optBytes * (max 1 r.numArgs + 1) + r.target.optBytes * i =
      s.argv + r.target.optBytes * (max 1 r.numArgs + 1 + i) := fun i => by
    rw [Nat.add_assoc, ← Nat.mul_add]
  rw [r.kCrtStart_mainEntry s hmax, hskipped]
  constructor
  · intro hblock
    obtain ⟨k, hzero, hin⟩ := hblock.auxNull
    refine ⟨?_, ?_, k, ?_, ?_⟩
    · rw [← initArgs_argvEnd hnum, ← hload]
      exact hblock.argvNull
    · rw [← hload]
      exact hblock.envpNull
    · rw [← hload, ← hplace]
      exact hzero
    · rw [hplace, s.slot_le_top_iff] at hin
      exact hin
  · rintro ⟨hstack, henv, k, hzero, hin⟩
    refine ⟨r.argList_length.symm, ?_, ?_, rfl, ?_, ⟨k, ?_, ?_⟩, Nat.le_refl _⟩
    · intro i p hp
      rw [hload]
      exact initArgs_argList hnum hp
    · rw [hload, initArgs_argvEnd hnum]
      exact hstack
    · rw [hload]
      exact henv
    · rw [hplace, hload]
      exact hzero
    · rw [hplace, s.slot_le_top_iff]
      exact hin

/-- A pair of type zero is in the array exactly when everything fits. -/
theorem auxNull_iff_fits (h : r.numArgs ≤ r.config.maxArgv) :
    (∃ k, (initArgs r).argv.words (r.skipped.index + (2 * k + 1)) = 0 ∧
      r.skipped.index + (2 * k + 3) ≤ r.config.maxArgv) ↔ r.Fits := by
  have hindex := ArgInput.args_index h
  have hskipped : r.skipped.index = r.args.index + 1 := rfl
  obtain ⟨calls, hcalls, hother⟩ := r.auxCalls_eq_append
  have hlength : r.auxCalls.length = calls.length + 1 := by
    rw [hcalls, List.length_append]
    rfl
  -- the entry of a call is where the start code looks for it
  have hentry : ∀ {k typ p}, r.args.index + 2 * k + 3 < r.config.maxArgv →
      r.auxCalls[k]? = some (typ, p) →
        (initArgs r).argv.words (r.skipped.index + (2 * k + 1)) = typ := by
    intro k typ p hroom hk
    have hat := initArgs_auxAt hroom hk
    rw [ArgOutput.AuxAt, initArgs_envp, Nat.add_assoc, Nat.add_comm 1] at hat
    exact hat.1
  unfold ArgInput.Fits
  constructor
  · rintro ⟨k, hzero, hroom⟩
    by_contra hnot
    have hk : k < calls.length := by omega
    have hcall : r.auxCalls[k]? = some calls[k] := by
      rw [hcalls, List.getElem?_append_left hk, List.getElem?_eq_getElem hk]
    have htype := hentry (by omega) hcall
    exact hother _ (List.getElem_mem hk) (htype.symm.trans hzero)
  · intro hfits
    refine ⟨calls.length, ?_, by omega⟩
    apply hentry (p := 0) (by omega)
    rw [hcalls, List.getElem?_concat_length]
    rfl

end Slots

/-- The block that the start code reads is well formed exactly when the stack happened to
have a zero behind the last argument and the array has room for everything. -/
theorem startup_block_well_formed_iff (r : ArgInput) (s : MainStack r.target r.config)
    (h : r.numArgs ≤ r.config.maxArgs) :
    StartBlock r.target.optBytes (r.mainEntry s).load (kCrtStart r.target (r.mainEntry s))
        r.argList s.argv s.top ↔
      r.stack (max 1 r.numArgs) = 0 ∧ r.Fits := by
  have hnum : r.numArgs ≤ r.config.maxArgv := by
    unfold ArgConfig.maxArgv
    omega
  rw [startBlock_iff_words s h, auxNull_iff_fits hnum]
  refine and_congr_right fun _ => and_iff_right_of_imp fun hfits => ?_
  apply initArgs_envpNull
  have hindex := ArgInput.args_index hnum
  unfold ArgInput.Fits at hfits
  change r.args.index + 1 < r.config.maxArgv
  omega

/-- With as many arguments as the configuration provides for, everything fits. -/
theorem ArgInput.fits_of_le {r : ArgInput} (hargs : 1 ≤ r.config.maxArgs)
    (henvs : 2 ≤ r.config.maxEnvs) (h : r.numArgs ≤ r.config.maxArgs) : r.Fits := by
  have hlength : r.auxCalls.length ≤ 6 := by
    unfold ArgInput.auxCalls
    split
    · exact Nat.le_refl 6
    · exact Nat.le_of_lt (show 3 < 6 by decide)
  unfold ArgInput.Fits ArgConfig.maxArgv
  omega

/-- A runtime without a host, on a stack with the given words. -/
def hostless (stack : Nat → Nat) : ArgInput where
  target := ⟨64, bits_sixtyFour⟩
  config := ⟨8, 16⟩
  mem := fun _ => 0
  commArea := 0x90000000
  auxStart := 0x80000000
  kernelName := 0x80001000
  atRandom := 0x80001008
  stack := stack

def hostlessStack (stack : Nat → Nat) :
    MainStack (hostless stack).target (hostless stack).config where
  start := 0x80010000
  size := 0x1000
  large := show 8 * ArgConfig.maxArgv ⟨8, 16⟩ ≤ 0x1000 by decide
  low := show Target.optBytes ⟨64, Or.inr rfl⟩ ≤ 0x80010000 by decide
  fits := show 0x80010000 + 0x1000 < 2 ^ 64 by decide

theorem startup_block_well_formed_clear : StartBlock 8
    ((hostless fun _ => 0).mainEntry (hostlessStack _)).load
    (kCrtStart (hostless fun _ => 0).target ((hostless fun _ => 0).mainEntry (hostlessStack _)))
    [0x80001000] 0x80010ee0 0x80011000 :=
  (startup_block_well_formed_iff (hostless fun _ => 0) (hostlessStack _) (by decide)).mpr
    ⟨rfl, by decide⟩

/-- On a stack that is not clear, `argv` does not end behind the kernel name. -/
theorem startup_block_without_end : ¬ StartBlock 8
    ((hostless fun _ => 1).mainEntry (hostlessStack _)).load
    (kCrtStart (hostless fun _ => 1).target ((hostless fun _ => 1).mainEntry (hostlessStack _)))
    [0x80001000] 0x80010ee0 0x80011000 := by
  intro hblock
  have hwords := (startBlock_iff_words (hostlessStack fun _ => 1) (by decide)).mp hblock
  exact absurd hwords.1 (by decide)

/-- `init_args` keeps to the array: `index_argv` does not pass its end in any round of
`map_argv`, behind the skipped word or behind any call that follows, `envp` is inside, and
the calls that store the ends of `envp` and of the auxiliary vector succeed. -/
structure ArgInput.Bounded (r : ArgInput) : Prop where
  mapped : ∀ n ≤ r.numArgs, (mapArgv r.config r.target r.mem n
    (r.target.wrap (r.commArea + alignOf 16 8)) ⟨r.stack, 0⟩).index ≤ r.config.maxArgv
  skipped : r.skipped.index ≤ r.config.maxArgv
  called : ∀ k ≤ r.auxCalls.length,
    (addAuxs r.config r.envDone (r.auxCalls.take k)).index ≤ r.config.maxArgv
  envp : (initArgs r).envp < r.config.maxArgv
  envNull : (addEnv r.config r.skipped 0).2 = 0
  auxNull : (addAux r.config (addAuxs r.config r.envDone r.auxCalls.dropLast) atNull 0).2 = 0

/-- A call of `add_aux` succeeds exactly when there is room for the pair. -/
theorem addAux_eq_zero_iff {g : ArgConfig} {a : Argv} {typ p : Nat} :
    (addAux g a typ p).2 = 0 ↔ a.index + 1 < g.maxArgv := by
  rcases Nat.lt_or_ge (a.index + 1) g.maxArgv with hroom | hfull
  · rw [addAux_of_lt typ p hroom]
    exact iff_of_true rfl hroom
  · rw [addAux_of_ge typ p hfull]
    exact iff_of_false (show -enomem ≠ 0 by decide) (Nat.not_lt.mpr hfull)

/-- `init_args` keeps to the array exactly when everything fits. -/
theorem init_args_bounded_iff (r : ArgInput) : r.Bounded ↔ r.Fits := by
  obtain ⟨calls, hcalls, -⟩ := r.auxCalls_eq_append
  have hlast : r.auxCalls.dropLast = calls := by rw [hcalls, List.dropLast_concat]
  have hlength : r.auxCalls.length = calls.length + 1 := by
    rw [hcalls, List.length_append]
    rfl
  have hskipped : r.skipped.index = max 1 (min r.numArgs r.config.maxArgv) + 1 :=
    congrArg (· + 1) ArgInput.args_index_min
  have hdone : r.skipped.index < r.config.maxArgv → r.envDone.index = r.skipped.index + 1 := by
    intro henvp
    rw [ArgInput.envDone_of_lt henvp]
  unfold ArgInput.Fits
  constructor
  · intro h
    have henvp := h.envp
    have hroom := addAux_eq_zero_iff.mp h.auxNull
    rw [initArgs_envp] at henvp
    rw [hlast] at hroom
    have hindex := addAuxs_index_of_room hroom
    have hdone := hdone henvp
    omega
  · intro hfits
    have henvp : r.skipped.index < r.config.maxArgv := by omega
    have hdone := hdone henvp
    refine ⟨?_, Nat.le_of_lt henvp, ?_, ?_, ?_, ?_⟩
    · intro n _
      rw [mapArgv_index _ _ _ _ (Nat.zero_le _)]
      exact Nat.min_le_right _ _
    · intro k hk
      have htake : (r.auxCalls.take k).length = k := List.length_take_of_le hk
      rw [addAuxs_index (by omega)]
      omega
    · rw [initArgs_envp]
      exact henvp
    · rw [addEnv, addArgv_of_lt 0 henvp]
    · rw [addAux_eq_zero_iff, hlast, addAuxs_index (by omega)]
      omega

/-- A host that passes as many arguments as the array has words. -/
def crowded : ArgInput where
  target := ⟨64, bits_sixtyFour⟩
  config := ⟨8, 16⟩
  mem := fun a =>
    if 0x90000000 ≤ a then [0xe5, 0xaf, 0xdc, 0xba, 36].getD (a - 0x90000000) 0 else 0
  commArea := 0x90000000
  auxStart := 0x80000000
  kernelName := 0x80001000
  atRandom := 0x80001008
  stack := fun _ => 0

/-- The index passes the end of the array. -/
theorem init_args_past_end : crowded.skipped.index = 37 ∧ crowded.config.maxArgv = 36 ∧
    ¬ crowded.Bounded := by
  have hnum : crowded.numArgs = 36 := by decide
  have hindex : crowded.skipped.index = 37 := by
    rw [ArgInput.skipped, ArgInput.args_index_min, hnum]
    rfl
  refine ⟨hindex, rfl, fun h => ?_⟩
  have hskipped := h.skipped
  rw [hindex] at hskipped
  exact absurd hskipped (by decide)

end BaremetalCrt
