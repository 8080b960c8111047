import BaremetalCrt.Sys.Target
import Mathlib.Data.Nat.ModEq
import Mathlib.Tactic.Cases

/-!
# Cache maintenance over a range of addresses

The RISC-V driver cleans, invalidates or flushes a range with one `cbo` instruction for each
step of a line size from the start of the range. An instruction acts on the line that contains
its address, so the range is covered only when the last step reaches its last line.

## Implementation notes

The index of the loop is a `size_t` and wraps, as do the addresses. The loop takes a bound on
its iterations and returns nothing when it needs more.
-/

namespace BaremetalCrt

/-- The `cbo` instructions. -/
inductive CacheOp where
  | clean
  | inval
  | flush
deriving DecidableEq

/-- A `cbo` instruction that was executed. -/
structure CacheAct where
  op : CacheOp
  addr : Nat
deriving DecidableEq

/-- A line size that the drivers accept and the caches have: a power of two in an `int`. -/
structure LineSize where
  exp : Nat
  exp_le : exp ≤ 30

def LineSize.bytes (l : LineSize) : Nat := 2 ^ l.exp

/-- The loop of the range functions: the instructions from the index `i` on. -/
def cboLoop (t : Target) (op : CacheOp) (start sz szLine : Nat) :
    Nat → Nat → Option (List CacheAct)
  | 0, _ => none
  | f + 1, i =>
      if i < sz then
        (cboLoop t op start sz szLine f (t.wrap (i + szLine))).map
          (⟨op, t.wrap (start + i)⟩ :: ·)
      else some []

/-- The range functions of the driver, with the line size of the CPU and `CONFIG_CACHE`: the
instructions and the result. -/
def cpuRiscvRange (op : CacheOp) (t : Target) (configCache : Bool) (szLine : Int)
    (start sz fuel : Nat) : Option (List CacheAct × Int) :=
  if configCache then
    if szLine ≤ 0 then some ([], -einval)
    else (cboLoop t op start sz szLine.toNat fuel 0).map (·, 0)
  else some ([], 0)

/-- `cpu_riscv_clean_range`. -/
def cpuRiscvCleanRange : Target → Bool → Int → Nat → Nat → Nat → Option (List CacheAct × Int) :=
  cpuRiscvRange .clean

/-- `cpu_riscv_inv_range`. -/
def cpuRiscvInvRange : Target → Bool → Int → Nat → Nat → Nat → Option (List CacheAct × Int) :=
  cpuRiscvRange .inval

/-- `cpu_riscv_flush_range`. -/
def cpuRiscvFlushRange : Target → Bool → Int → Nat → Nat → Nat → Option (List CacheAct × Int) :=
  cpuRiscvRange .flush

/-- A line intersects the range. -/
def MeetsLine (t : Target) (szLine start sz line : Nat) : Prop :=
  ∃ j < sz, t.wrap (start + j) / szLine = line

/-- A range function returns, and acts with its instruction on the lines that intersect the
range and on no other. -/
def ActsOnRange (range : Target → Bool → Int → Nat → Nat → Nat → Option (List CacheAct × Int))
    (op : CacheOp) (t : Target) (l : LineSize) (start sz : Nat) : Prop :=
  ∃ fuel acts, range t true l.bytes start sz fuel = some (acts, 0) ∧
    (∀ a ∈ acts, a.op = op) ∧
    ∀ line, (∃ a ∈ acts, a.addr / l.bytes = line) ↔ MeetsLine t l.bytes start sz line

/-- The steps of a line size that it takes to pass the size. -/
def stepCount (szLine sz : Nat) : Nat := (sz + szLine - 1) / szLine

/-- The lines from that of the start to that of the last byte. -/
def lineCount (szLine start sz : Nat) : Nat :=
  if sz = 0 then 0 else (start % szLine + (sz - 1)) / szLine + 1

section Windows

variable {N s m n : Nat}

/-- Two windows of consecutive lines from one start are the same lines if and only if they have
the same length, when one does not go around and the other is not shorter. -/
theorem window_eq_iff (hn : n < N) (hle : n ≤ m) :
    (∀ x, (∃ k < n, (s + k) % N = x) ↔ ∃ k < m, (s + k) % N = x) ↔ m = n := by
  constructor
  · intro h
    by_contra hne
    have hlast : ∃ k < m, (s + k) % N = (s + n) % N := ⟨n, by omega, rfl⟩
    obtain ⟨k, hk, hsame⟩ := (h _).mpr hlast
    have hmod : k % N = n % N := Nat.ModEq.add_left_cancel' s hsame
    rw [Nat.mod_eq_of_lt (by omega), Nat.mod_eq_of_lt hn] at hmod
    omega
  · rintro rfl
    exact fun _ => Iff.rfl

end Windows

section Counts

variable {L start sz k : Nat}

theorem lt_stepCount_iff (hL : 0 < L) : k < stepCount L sz ↔ k * L < sz := by
  have hstep : (k + 1) * L = k * L + L := Nat.succ_mul k L
  rw [stepCount, ← Nat.succ_le_iff, Nat.le_div_iff_mul_le hL, Nat.succ_eq_add_one, hstep]
  omega

theorem stepCount_of_pos (hL : 0 < L) (hsz : sz ≠ 0) : stepCount L sz = (sz - 1) / L + 1 := by
  have hsum : sz + L - 1 = sz - 1 + L := by omega
  rw [stepCount, hsum, Nat.add_div_right _ hL]

theorem stepCount_le_lineCount (hL : 0 < L) : stepCount L sz ≤ lineCount L start sz := by
  unfold lineCount
  split
  · rename_i hsz
    rw [hsz, stepCount, Nat.zero_add, Nat.div_eq_of_lt (by omega)]
  · rename_i hsz
    rw [stepCount_of_pos hL hsz]
    exact Nat.succ_le_succ (Nat.div_le_div_right (Nat.le_add_left _ _))

/-- The steps reach every line if and only if the offsets of the start and of the last byte stay
inside one line together. -/
theorem lineCount_eq_stepCount_iff (hL : 0 < L) :
    lineCount L start sz = stepCount L sz ↔ sz = 0 ∨ start % L + (sz - 1) % L < L := by
  unfold lineCount
  split
  · rename_i hsz
    rw [hsz, stepCount, Nat.zero_add, Nat.div_eq_of_lt (by omega)]
    exact iff_of_true rfl (Or.inl rfl)
  · rename_i hsz
    rw [stepCount_of_pos hL hsz, Nat.add_div hL, Nat.mod_mod, Nat.div_eq_of_lt (Nat.mod_lt _ hL)]
    split
    · omega
    · omega

/-- The lines of a range are consecutive. -/
theorem exists_byte_iff (hL : 0 < L) (line : Nat) :
    (∃ j < sz, (start + j) / L = line) ↔
      ∃ k < lineCount L start sz, start / L + k = line := by
  have hsplit : ∀ j, (start + j) / L = start / L + (start % L + j) / L := by
    intro j
    have hstart : start + j = start % L + j + L * (start / L) := by
      have := Nat.mod_add_div start L
      omega
    rw [hstart, Nat.add_mul_div_left _ _ hL, Nat.add_comm]
  have hoff := Nat.mod_lt start hL
  unfold lineCount
  constructor
  · rintro ⟨j, hj, rfl⟩
    rw [if_neg (by omega), hsplit]
    refine ⟨_, Nat.lt_succ_of_le (Nat.div_le_div_right ?_), rfl⟩
    omega
  · rintro ⟨k, hk, rfl⟩
    split at hk
    · exact absurd hk (Nat.not_lt_zero k)
    · have hreach : k * L ≤ start % L + (sz - 1) :=
        (Nat.le_div_iff_mul_le hL).mp (Nat.le_of_lt_succ hk)
      -- The first byte of the line, or the start of the range in the first line.
      refine ⟨k * L - start % L, by omega, ?_⟩
      rw [hsplit]
      cases k with
      | zero =>
          rw [Nat.zero_mul, Nat.zero_sub, Nat.add_zero, Nat.div_eq_of_lt hoff]
      | succ k =>
          have hline : start % L + ((k + 1) * L - start % L) = (k + 1) * L := by
            have hfull : L ≤ (k + 1) * L := Nat.le_mul_of_pos_left L (Nat.succ_pos k)
            omega
          rw [hline, Nat.mul_div_cancel _ hL]

end Counts

section Loop

variable {t : Target} {op : CacheOp} {start sz k f : Nat} {l : LineSize}

theorem LineSize.bytes_pos (l : LineSize) : 0 < l.bytes := Nat.two_pow_pos l.exp

/-- The address space is a whole number of lines. -/
theorem LineSize.word_eq (l : LineSize) (t : Target) :
    2 ^ t.bits = l.bytes * 2 ^ (t.bits - l.exp) := by
  have hexp := l.exp_le
  have hbits := t.bits_cases
  rw [LineSize.bytes, ← pow_add]
  congr 1
  omega

/-- The line of a wrapped address. -/
theorem wrap_div_bytes (x : Nat) :
    t.wrap x / l.bytes = x / l.bytes % 2 ^ (t.bits - l.exp) := by
  rw [Target.wrap, l.word_eq t, Nat.mod_mul_right_div_self]

/-- When the index passes the size before it wraps, the loop takes one step for each line size
and needs one more iteration to end. -/
theorem cboLoop_eq (hfit : sz + l.bytes ≤ 2 ^ t.bits) (hk : k ≤ stepCount l.bytes sz) :
    cboLoop t op start sz l.bytes f (k * l.bytes) =
      if stepCount l.bytes sz - k < f then
        some ((List.range' k (stepCount l.bytes sz - k)).map fun j =>
          ⟨op, t.wrap (start + j * l.bytes)⟩)
      else none := by
  induction f generalizing k with
  | zero => rw [cboLoop, if_neg (Nat.not_lt_zero _)]
  | succ f ih =>
      rw [cboLoop]
      by_cases hmore : k * l.bytes < sz
      · have hlt := (lt_stepCount_iff l.bytes_pos).mpr hmore
        have hnext : t.wrap (k * l.bytes + l.bytes) = (k + 1) * l.bytes := by
          rw [Nat.succ_mul, Target.wrap, Nat.mod_eq_of_lt (by omega)]
        have hleft : stepCount l.bytes sz - k = stepCount l.bytes sz - (k + 1) + 1 := by omega
        rw [if_pos hmore, hnext, ih hlt, hleft, List.range'_succ]
        by_cases hfuel : stepCount l.bytes sz - (k + 1) < f
        · rw [if_pos hfuel, if_pos (Nat.succ_lt_succ hfuel)]
          rfl
        · rw [if_neg hfuel, if_neg (by omega)]
          rfl
      · have hdone : stepCount l.bytes sz - k = 0 := by
          have := mt (lt_stepCount_iff l.bytes_pos).mp hmore
          omega
        rw [if_neg hmore, hdone, if_pos (Nat.succ_pos f)]
        rfl

/-- When no multiple of the line size below the word reaches the size, the loop never ends. -/
theorem cboLoop_none (hfit : ¬ sz + l.bytes ≤ 2 ^ t.bits) {i : Nat} (hmul : l.bytes ∣ i)
    (hi : i < 2 ^ t.bits) : cboLoop t op start sz l.bytes f i = none := by
  have hword : l.bytes ∣ 2 ^ t.bits := ⟨_, l.word_eq t⟩
  induction f generalizing i with
  | zero => rfl
  | succ f ih =>
      have hroom : i + l.bytes ≤ 2 ^ t.bits := by
        obtain ⟨q, rfl⟩ := hmul
        obtain ⟨w, hw⟩ := hword
        rw [hw] at hi ⊢
        have hq : q < w := Nat.lt_of_mul_lt_mul_left hi
        rw [← Nat.mul_succ]
        exact Nat.mul_le_mul_left _ hq
      have hnext : l.bytes ∣ t.wrap (i + l.bytes) :=
        (Nat.dvd_mod_iff hword).mpr (Nat.dvd_add hmul (Nat.dvd_refl _))
      rw [cboLoop, if_pos (by omega), ih hnext (Nat.mod_lt _ (Nat.two_pow_pos _))]
      rfl

theorem cpuRiscvRange_eq (op : CacheOp) (t : Target) (l : LineSize) (start sz fuel : Nat) :
    cpuRiscvRange op t true l.bytes start sz fuel =
      (cboLoop t op start sz l.bytes fuel 0).map (·, 0) := by
  have hpos := l.bytes_pos
  rw [cpuRiscvRange, if_pos rfl, if_neg (by omega), Int.toNat_natCast]

/-- The instructions of a loop that ends. -/
def cboActs (t : Target) (op : CacheOp) (l : LineSize) (start sz : Nat) : List CacheAct :=
  (List.range' 0 (stepCount l.bytes sz)).map fun j => ⟨op, t.wrap (start + j * l.bytes)⟩

theorem cpuRiscvRange_of_fit (hfit : sz + l.bytes ≤ 2 ^ t.bits) (fuel : Nat) :
    cpuRiscvRange op t true l.bytes start sz fuel =
      if stepCount l.bytes sz < fuel then some (cboActs t op l start sz, 0) else none := by
  have hloop : cboLoop t op start sz l.bytes fuel (0 * l.bytes) = _ :=
    cboLoop_eq hfit (Nat.zero_le _)
  rw [Nat.zero_mul, Nat.sub_zero] at hloop
  rw [cpuRiscvRange_eq, hloop]
  split
  · rfl
  · rfl

/-- The instructions act on as many consecutive lines as there are steps. -/
theorem exists_act_iff (line : Nat) :
    (∃ a ∈ cboActs t op l start sz, a.addr / l.bytes = line) ↔
      ∃ k < stepCount l.bytes sz, (start / l.bytes + k) % 2 ^ (t.bits - l.exp) = line := by
  simp only [cboActs, List.mem_map, List.mem_range'_1, Nat.zero_le, true_and, Nat.zero_add,
    exists_exists_and_eq_and, wrap_div_bytes, Nat.add_mul_div_right _ _ l.bytes_pos]

theorem meetsLine_iff (line : Nat) :
    MeetsLine t l.bytes start sz line ↔
      ∃ k < lineCount l.bytes start sz,
        (start / l.bytes + k) % 2 ^ (t.bits - l.exp) = line := by
  unfold MeetsLine
  simp only [wrap_div_bytes]
  constructor
  · rintro ⟨j, hj, rfl⟩
    obtain ⟨k, hk, hline⟩ := (exists_byte_iff l.bytes_pos _).mp ⟨j, hj, rfl⟩
    exact ⟨k, hk, by rw [hline]⟩
  · rintro ⟨k, hk, rfl⟩
    obtain ⟨j, hj, hline⟩ := (exists_byte_iff l.bytes_pos _).mpr ⟨k, hk, rfl⟩
    exact ⟨j, hj, by rw [hline]⟩

/-- Where the loop ends, it takes fewer steps than the address space has lines. -/
theorem stepCount_lt_lines (hfit : sz + l.bytes ≤ 2 ^ t.bits) :
    stepCount l.bytes sz < 2 ^ (t.bits - l.exp) := by
  rw [stepCount, Nat.div_lt_iff_lt_mul l.bytes_pos, Nat.mul_comm, ← l.word_eq t]
  have := l.bytes_pos
  omega

theorem actsOnRange_iff (op : CacheOp) (t : Target) (l : LineSize) (start sz : Nat) :
    ActsOnRange (cpuRiscvRange op) op t l start sz ↔
      sz + l.bytes ≤ 2 ^ t.bits ∧
        (sz = 0 ∨ start % l.bytes + (sz - 1) % l.bytes < l.bytes) := by
  by_cases hfit : sz + l.bytes ≤ 2 ^ t.bits
  · have hlines : (∀ line, (∃ a ∈ cboActs t op l start sz, a.addr / l.bytes = line) ↔
        MeetsLine t l.bytes start sz line) ↔
          (sz = 0 ∨ start % l.bytes + (sz - 1) % l.bytes < l.bytes) := by
      simp only [exists_act_iff, meetsLine_iff]
      rw [window_eq_iff (stepCount_lt_lines hfit) (stepCount_le_lineCount l.bytes_pos),
        lineCount_eq_stepCount_iff l.bytes_pos]
    rw [← hlines, and_iff_right hfit]
    constructor
    · rintro ⟨fuel, acts, hrange, -, hacts⟩
      rw [cpuRiscvRange_of_fit hfit] at hrange
      split at hrange
      · obtain ⟨rfl, -⟩ := Prod.mk.inj (Option.some.inj hrange)
        exact hacts
      · exact absurd hrange nofun
    · intro hacts
      refine ⟨stepCount l.bytes sz + 1, cboActs t op l start sz, ?_, ?_, hacts⟩
      · rw [cpuRiscvRange_of_fit hfit, if_pos (Nat.lt_succ_self _)]
      · intro a ha
        obtain ⟨j, -, rfl⟩ := List.mem_map.mp ha
        rfl
  · refine iff_of_false ?_ (fun h => hfit h.1)
    rintro ⟨fuel, acts, hrange, -⟩
    rw [cpuRiscvRange_eq, cboLoop_none hfit (Nat.dvd_zero _) (Nat.two_pow_pos _)] at hrange
    exact absurd hrange nofun

end Loop

/-- Each of the range functions acts on exactly the lines of its range if and only if its index
passes the size before it wraps, and the offset of the start and that of the last byte, counted
from the start, stay inside one line together. -/
theorem cache_range_exact_iff (t : Target) (l : LineSize) (start sz : Nat) :
    let covered := sz + l.bytes ≤ 2 ^ t.bits ∧
      (sz = 0 ∨ start % l.bytes + (sz - 1) % l.bytes < l.bytes)
    (ActsOnRange cpuRiscvCleanRange .clean t l start sz ↔ covered) ∧
      (ActsOnRange cpuRiscvInvRange .inval t l start sz ↔ covered) ∧
      (ActsOnRange cpuRiscvFlushRange .flush t l start sz ↔ covered) :=
  ⟨actsOnRange_iff .clean t l start sz, actsOnRange_iff .inval t l start sz,
    actsOnRange_iff .flush t l start sz⟩

/-- A range of one line size that starts in the middle of a line: its second line is missed. -/
theorem cache_range_misses_line :
    let t : Target := ⟨64, Or.inr rfl⟩
    cpuRiscvCleanRange t true 64 32 64 2 = some ([⟨.clean, 32⟩], 0) ∧
      MeetsLine t 64 32 64 1 ∧ ¬ ∃ a ∈ [CacheAct.mk .clean 32], a.addr / 64 = 1 := by
  intro t
  exact ⟨by decide, ⟨32, by decide, by decide⟩, by decide⟩

end BaremetalCrt
