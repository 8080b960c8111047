import BaremetalCrt.Sys.Args

/-!
# The arguments in the communication area

A host writes the arguments of the program behind the header of the area. Each argument has
a header of its own with its size, then its bytes, then padding to the next multiple of
eight. `map_argv` walks over them before the program starts, and `unmap_argv` once more
after it has ended.

## Implementation notes

A cache operation is recorded by the range it is called for. Its result is only reported,
and a full array is only reported as well, so neither changes the walk.
-/

namespace BaremetalCrt

section Walkers

variable (g : ArgConfig) (t : Target) (m : Mem)

/-- The loop of `map_argv` with the ranges that it passes to `k_cpu_cache_inv_range`. -/
def mapArgvInv : Nat → Nat → Argv → Argv × List (Nat × Nat)
  | 0, _, a => (a, [])
  | n + 1, buf, a =>
      let size := commArgSize.get m buf
      let buf := t.wrap (buf + 16)
      let inv := (buf, t.wrap size)
      let a := (addArgv g a buf).1
      let rest := mapArgvInv n (t.wrap (alignOf (t.wrap (buf + size)) 8)) a
      (rest.1, inv :: rest.2)

/-- The loop of `unmap_argv`, as the ranges that it passes to `k_cpu_cache_flush_range`. -/
def unmapArgv : Nat → Nat → List (Nat × Nat)
  | 0, _ => []
  | n + 1, buf =>
      let size := commArgSize.get m buf
      let buf := t.wrap (buf + 16)
      (buf, t.wrap size) :: unmapArgv n (t.wrap (alignOf (t.wrap (buf + size)) 8))

end Walkers

/-- The words of a list have been appended to the array, and no other word has changed. -/
structure Argv.Appended (a b : Argv) (ps : List Nat) : Prop where
  index : b.index = a.index + ps.length
  stored : ∀ i p, ps[i]? = some p → b.words (a.index + i) = p
  other : ∀ i, i < a.index ∨ a.index + ps.length ≤ i → b.words i = a.words i

/-- The bytes that follow a payload of the given length. -/
def padding (n : Nat) : Nat := (8 - n % 8) % 8

/-- Where the next argument starts. -/
def nextArg (buf n : Nat) : Nat := buf + 16 + n + padding n

/-- The ranges of the payloads, by address and length, of arguments of the given lengths. -/
def payloadRanges : Nat → List Nat → List (Nat × Nat)
  | _, [] => []
  | buf, n :: ns => (buf + 16, n) :: payloadRanges (nextArg buf n) ns

/-- Where the last argument ends, with its padding. -/
def argsEnd : Nat → List Nat → Nat
  | buf, [] => buf
  | buf, n :: ns => argsEnd (nextArg buf n) ns

/-- The headers of arguments of the given lengths stand where they are documented to. -/
def HeadersAt (m : Mem) : Nat → List Nat → Prop
  | _, [] => True
  | buf, n :: ns => commArgSize.get m buf = n ∧ HeadersAt m (nextArg buf n) ns

/-- The bytes of the payloads stand where they are documented to. -/
def PayloadsAt (m : Mem) : Nat → List (List UInt8) → Prop
  | _, [] => True
  | buf, p :: ps =>
      (∀ i b, p[i]? = some b → m (buf + 16 + i) = b) ∧ PayloadsAt m (nextArg buf p.length) ps

/-- The area at an address has the headers of arguments of the given lengths. The linker
script aligns it, and it lies in the address space. -/
structure CommArea (t : Target) (m : Mem) (area : Nat) (ns : List Nat) : Prop where
  aligned : area % 8 = 0
  fits : argsEnd (area + 16) ns < 2 ^ t.bits
  count : commNumArgs.get m area = ns.length
  headers : HeadersAt m (area + 16) ns

section Walk

variable {g : ArgConfig} {t : Target} {m : Mem} {a b c : Argv}

/-- Recording the ranges does not change what is pushed. -/
theorem mapArgvInv_fst (n buf : Nat) :
    (mapArgvInv g t m n buf a).1 = mapArgv g t m n buf a := by
  induction n generalizing buf a with
  | zero => rfl
  | succ n ih => exact ih _

/-- On one memory the two walkers pass the same ranges. -/
theorem mapArgvInv_snd (n buf : Nat) :
    (mapArgvInv g t m n buf a).2 = unmapArgv t m n buf := by
  induction n generalizing buf a with
  | zero => rfl
  | succ n ih =>
      simp only [mapArgvInv, unmapArgv]
      rw [ih]

theorem unmapArgv_length (n buf : Nat) : (unmapArgv t m n buf).length = n := by
  induction n generalizing buf with
  | zero => rfl
  | succ n ih => exact congrArg Nat.succ (ih _)

theorem Argv.Appended.nil (a : Argv) : a.Appended a [] where
  index := rfl
  stored := fun i p h => absurd h (by simp)
  other := fun _ _ => rfl

/-- Where nothing is appended the array is the same. -/
theorem Argv.Appended.eq_of_nil (h : a.Appended b []) : b = a := by
  obtain ⟨words, index⟩ := a
  obtain ⟨words', index'⟩ := b
  obtain rfl : index' = index := h.index
  obtain rfl : words' = words := funext fun i => h.other i (Nat.lt_or_ge i _)
  rfl

/-- A word that fits is appended before the words of a list. -/
theorem Argv.Appended.cons {p : Nat} {ps : List Nat} (hroom : a.index < g.maxArgv)
    (h : (addArgv g a p).1.Appended b ps) : a.Appended b (p :: ps) := by
  rw [addArgv_of_lt p hroom] at h
  have hindex : b.index = a.index + 1 + ps.length := h.index
  refine ⟨?_, ?_, ?_⟩
  · rw [hindex, List.length_cons]
    omega
  · intro i q hq
    cases i with
    | zero =>
        obtain rfl : p = q := Option.some.inj hq
        rw [Nat.add_zero, h.other a.index (Or.inl (Nat.lt_succ_self _))]
        exact Function.update_self ..
    | succ i =>
        have hplace : a.index + (i + 1) = a.index + 1 + i := by omega
        rw [hplace]
        exact h.stored i q hq
  · intro i hi
    rw [List.length_cons] at hi
    have hrest : i < a.index + 1 ∨ a.index + 1 + ps.length ≤ i := by omega
    have hne : i ≠ a.index := by omega
    rw [h.other i hrest]
    exact Function.update_of_ne hne ..

/-- With room for them, `map_argv` appends the addresses of the ranges it walks over. -/
theorem mapArgv_appended (n buf : Nat) (hroom : a.index + n ≤ g.maxArgv) :
    a.Appended (mapArgv g t m n buf a) ((unmapArgv t m n buf).map Prod.fst) := by
  induction n generalizing buf a with
  | zero => exact Argv.Appended.nil a
  | succ n ih =>
      apply Argv.Appended.cons (g := g) (by omega)
      apply ih
      rw [addArgv_of_lt _ (by omega)]
      change a.index + 1 + n ≤ g.maxArgv
      omega

end Walk

section Layout

variable {t : Target} {m : Mem} {buf n : Nat} {ns : List Nat}

theorem le_argsEnd (buf : Nat) (ns : List Nat) : buf ≤ argsEnd buf ns := by
  induction ns generalizing buf with
  | nil => exact Nat.le_refl buf
  | cons n ns ih =>
      calc
        buf ≤ nextArg buf n := by
          unfold nextArg
          omega
        _ ≤ argsEnd (nextArg buf n) ns := ih _

theorem nextArg_aligned (h : buf % 8 = 0) : nextArg buf n % 8 = 0 := by
  unfold nextArg padding
  omega

/-- Rounding the end of a payload up gives the start of the next argument. -/
theorem alignOf_payload (h : buf % 8 = 0) : alignOf (buf + 16 + n) 8 = nextArg buf n := by
  unfold alignOf nextArg padding
  split
  · omega
  · omega

/-- Over documented headers the walk passes exactly the ranges of the payloads. -/
theorem unmapArgv_ranges (halign : buf % 8 = 0) (hfits : argsEnd buf ns < 2 ^ t.bits)
    (h : HeadersAt m buf ns) : unmapArgv t m ns.length buf = payloadRanges buf ns := by
  induction ns generalizing buf with
  | nil => rfl
  | cons n ns ih =>
      obtain ⟨hsize, hrest⟩ := h
      have hnext : nextArg buf n < 2 ^ t.bits := Nat.lt_of_le_of_lt (le_argsEnd _ ns) hfits
      have hend : buf + 16 + n < 2 ^ t.bits := by
        unfold nextArg at hnext
        omega
      have hstart : t.wrap (buf + 16) = buf + 16 := Nat.mod_eq_of_lt (by omega)
      have hlen : t.wrap n = n := Nat.mod_eq_of_lt (by omega)
      have hbehind : t.wrap (alignOf (t.wrap (buf + 16 + n)) 8) = nextArg buf n := by
        rw [show t.wrap (buf + 16 + n) = buf + 16 + n from Nat.mod_eq_of_lt hend,
          alignOf_payload halign]
        exact Nat.mod_eq_of_lt hnext
      simp only [List.length_cons, unmapArgv, payloadRanges, hsize, hstart, hlen, hbehind]
      rw [ih (nextArg_aligned halign) hfits hrest]

/-- The walk over an area that a host has filled. -/
theorem CommArea.walk {area : Nat} (h : CommArea t m area ns) :
    unmapArgv t m (commNumArgs.get m area) (t.wrap (area + alignOf 16 8)) =
      payloadRanges (area + 16) ns := by
  have hstart : t.wrap (area + alignOf 16 8) = area + 16 :=
    Nat.mod_eq_of_lt (Nat.lt_of_le_of_lt (le_argsEnd _ ns) h.fits)
  have halign : (area + 16) % 8 = 0 := by
    have := h.aligned
    omega
  rw [hstart, h.count]
  exact unmapArgv_ranges halign h.fits h.headers

/-- Each payload is the content of the range with its number. -/
theorem PayloadsAt.content {ps : List (List UInt8)} (h : PayloadsAt m buf ps) {k : Nat}
    {p : List UInt8} (hk : ps[k]? = some p) :
    ∃ addr, (payloadRanges buf (ps.map List.length))[k]? = some (addr, p.length) ∧
      ∀ i b, p[i]? = some b → m (addr + i) = b := by
  induction ps generalizing buf k with
  | nil => exact absurd hk (by simp)
  | cons q ps ih =>
      cases k with
      | zero =>
          obtain rfl : q = p := Option.some.inj hk
          exact ⟨buf + 16, rfl, h.1⟩
      | succ k => exact ih h.2 hk

end Layout

/-- For every list of arguments that is laid out as documented, `map_argv` pushes the
addresses of the payloads in their order and invalidates exactly their ranges. The ranges
hold the payloads, and `unmap_argv` flushes the same ranges as long as the headers are
still the same. -/
theorem map_argv_matches_unmap_argv (g : ArgConfig) (t : Target) (m m' : Mem) (area : Nat)
    (stack : Nat → Nat) (ps : List (List UInt8)) (hmax : ps.length ≤ g.maxArgs)
    (harea : CommArea t m area (ps.map List.length)) (hbytes : PayloadsAt m (area + 16) ps)
    (hlater : CommArea t m' area (ps.map List.length)) :
    let ranges := payloadRanges (area + 16) (ps.map List.length)
    let buf := t.wrap (area + alignOf 16 8)
    let mapped := mapArgvInv g t m (commNumArgs.get m area) buf ⟨stack, 0⟩
    Argv.Appended ⟨stack, 0⟩ mapped.1 (ranges.map Prod.fst) ∧ mapped.2 = ranges ∧
      unmapArgv t m' (commNumArgs.get m' area) buf = ranges ∧
      ∀ (k : Nat) (p : List UInt8), ps[k]? = some p →
        ∃ addr, ranges[k]? = some (addr, p.length) ∧ ∀ i b, p[i]? = some b → m (addr + i) = b := by
  intro ranges buf mapped
  have hwalk : unmapArgv t m (commNumArgs.get m area) buf = ranges := harea.walk
  have hroom : 0 + commNumArgs.get m area ≤ g.maxArgv := by
    rw [harea.count, List.length_map]
    unfold ArgConfig.maxArgv
    omega
  refine ⟨?_, ?_, hlater.walk, fun k p hk => hbytes.content hk⟩
  · have hpushed := mapArgv_appended (t := t) (m := m) (a := ⟨stack, 0⟩) _ buf hroom
    rw [hwalk] at hpushed
    exact (mapArgvInv_fst _ buf).symm ▸ hpushed
  · exact (mapArgvInv_snd _ buf).trans hwalk

/-- An area at address 4096 with two arguments, of two bytes and of none. -/
def twoArgsArea : Mem := fun a =>
  if 4096 ≤ a then
    [0xe5, 0xaf, 0xdc, 0xba, 2, 0, 0, 0, 0, 0, 0, 0, 0, 0, 0, 0,
      1, 0, 0, 0, 0, 0, 0, 0, 2, 0, 0, 0, 0, 0, 0, 0, 0x68, 0x69].getD (a - 4096) 0
  else 0

theorem map_argv_matches_unmap_argv_two :
    CommArea ⟨64, Or.inr rfl⟩ twoArgsArea 4096 [2, 0] ∧
      unmapArgv ⟨64, Or.inr rfl⟩ twoArgsArea 2 4112 = [(4128, 2), (4152, 0)] := by
  have harea : CommArea ⟨64, Or.inr rfl⟩ twoArgsArea 4096 [2, 0] :=
    ⟨by decide, by decide, by decide, by decide, by decide, trivial⟩
  have hbytes : PayloadsAt twoArgsArea (4096 + 16) [[0x68, 0x69], []] := by
    refine ⟨fun i b h => ?_, fun i b h => absurd h (by simp), trivial⟩
    rcases i with _ | _ | i
    · exact Option.some.inj h
    · exact Option.some.inj h
    · exact absurd h (by simp)
  exact ⟨harea, (map_argv_matches_unmap_argv ⟨8, 16⟩ _ _ _ _ (fun _ => 0) [[0x68, 0x69], []]
    (by decide) harea hbytes harea).2.2.1⟩

end BaremetalCrt
