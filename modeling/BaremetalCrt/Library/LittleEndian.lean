import Mathlib.Algebra.Group.Nat.Defs
import Mathlib.Data.Nat.Basic
import Mathlib.Tactic.Cases

/-!
# Little-endian numbers in a byte memory

A memory is a function from addresses to bytes. A number of some width is read from
consecutive bytes, the least significant first; a field of a record is a number at a fixed
place in it. A block of bytes is copied from one memory into another.
-/

namespace LittleEndian

/-- The byte of a number at a position. -/
def byte (v i : Nat) : UInt8 := UInt8.ofNat (v / 256 ^ i)

/-- The number of the given width at an address. -/
def read (m : Nat → UInt8) : Nat → Nat → Nat
  | _, 0 => 0
  | a, n + 1 => (m a).toNat + 256 * read m (a + 1) n

/-- A field of a record: its place in the record and its width. -/
structure Field where
  offset : Nat
  width : Nat

/-- The value of a field of the record at an address. -/
def Field.get (x : Field) (m : Nat → UInt8) (base : Nat) : Nat :=
  read m (base + x.offset) x.width

/-- A memory with a block that comes from another one. -/
def copy (m : Nat → UInt8) (dst : Nat) (src : Nat → UInt8) (n : Nat) : Nat → UInt8 :=
  fun a => if dst ≤ a ∧ a < dst + n then src (a - dst) else m a

section Copy

variable {m src : Nat → UInt8} {dst n a : Nat}

theorem copy_of_mem (hlow : dst ≤ a) (hhigh : a < dst + n) :
    copy m dst src n a = src (a - dst) := if_pos ⟨hlow, hhigh⟩

theorem copy_add {i : Nat} (hi : i < n) : copy m dst src n (dst + i) = src i := by
  rw [copy_of_mem (Nat.le_add_right dst i) (Nat.add_lt_add_left hi dst), Nat.add_sub_cancel_left]

theorem copy_of_outside (h : a < dst ∨ dst + n ≤ a) : copy m dst src n a = m a :=
  if_neg (by omega)

theorem copy_of_lt (h : a < dst) : copy m dst src n a = m a :=
  copy_of_outside (Or.inl h)

theorem copy_zero (m : Nat → UInt8) (dst : Nat) (src : Nat → UInt8) : copy m dst src 0 = m := by
  funext a
  exact copy_of_outside (by omega)

/-- A block that is copied in two parts. -/
theorem copy_append {part : Nat → UInt8} {j k : Nat} (h : ∀ i < k, part i = src (j + i)) :
    copy (copy m dst src j) (dst + j) part k = copy m dst src (j + k) := by
  funext a
  by_cases hfirst : dst ≤ a ∧ a < dst + j
  · rw [copy_of_lt hfirst.2, copy_of_mem hfirst.1 hfirst.2, copy_of_mem hfirst.1 (by omega)]
  · by_cases hsecond : dst + j ≤ a ∧ a < dst + j + k
    · rw [copy_of_mem hsecond.1 hsecond.2, copy_of_mem (by omega) (by omega), h _ (by omega)]
      congr 1
      omega
    · rw [copy_of_outside (by omega), copy_of_outside (by omega), copy_of_outside (by omega)]

end Copy

section Read

variable {m m' : Nat → UInt8} {a a' n v i : Nat}

/-- A number depends on its own bytes only. -/
theorem read_congr (h : ∀ i < n, m (a + i) = m' (a' + i)) : read m a n = read m' a' n := by
  induction n generalizing a a' with
  | zero => rfl
  | succ n ih =>
      have hfirst : m a = m' a' := h 0 (Nat.succ_pos n)
      have hrest : read m (a + 1) n = read m' (a' + 1) n := by
        apply ih
        intro i hi
        rw [Nat.add_right_comm a 1 i, Nat.add_right_comm a' 1 i]
        exact h (i + 1) (Nat.succ_lt_succ hi)
      simp only [read, hfirst, hrest]

theorem read_lt (m : Nat → UInt8) (a n : Nat) : read m a n < 256 ^ n := by
  induction n generalizing a with
  | zero => exact Nat.one_pos
  | succ n ih =>
      have hbyte : (m a).toNat < 256 := (m a).toNat_lt
      have hrest := ih (a + 1)
      rw [Nat.pow_succ]
      simp only [read]
      omega

/-- Reading back the bytes of a number. -/
theorem read_byte (h : ∀ i < n, m (a + i) = byte v i) : read m a n = v % 256 ^ n := by
  induction n generalizing a v with
  | zero => rw [Nat.pow_zero, Nat.mod_one, read]
  | succ n ih =>
      have hfirst : (m a).toNat = v % 256 := by
        have hbyte : m a = byte v 0 := h 0 (Nat.succ_pos n)
        rw [hbyte, byte, Nat.pow_zero, Nat.div_one, UInt8.toNat_ofNat']
      have hrest : read m (a + 1) n = v / 256 % 256 ^ n := by
        apply ih
        intro i hi
        rw [Nat.add_right_comm, byte, Nat.div_div_eq_div_mul, ← Nat.pow_succ']
        exact h (i + 1) (Nat.succ_lt_succ hi)
      calc
        read m a (n + 1) = (m a).toNat + 256 * read m (a + 1) n := rfl
        _ = v % 256 + 256 * (v / 256 % 256 ^ n) := by rw [hfirst, hrest]
        _ = v % (256 * 256 ^ n) := Nat.mod_mul.symm
        _ = v % 256 ^ (n + 1) := by rw [Nat.pow_succ']

theorem read_byte_of_lt (h : ∀ i < n, m (a + i) = byte v i) (hv : v < 256 ^ n) :
    read m a n = v :=
  (read_byte h).trans (Nat.mod_eq_of_lt hv)

/-- The bytes of a number that was read are the bytes of the memory. -/
theorem byte_read (hi : i < n) : byte (read m a n) i = m (a + i) := by
  induction n generalizing a i with
  | zero => exact absurd hi (Nat.not_lt_zero i)
  | succ n ih =>
      have hfirst : (m a).toNat < 256 := (m a).toNat_lt
      cases i with
      | zero =>
          rw [byte, read, Nat.pow_zero, Nat.div_one, UInt8.ofNat_add, UInt8.ofNat_mul]
          simp
      | succ i =>
          have hrest : read m a (n + 1) / 256 = read m (a + 1) n := by
            rw [read]
            omega
          rw [byte, Nat.pow_succ', ← Nat.div_div_eq_div_mul, hrest, ← Nat.add_assoc,
            Nat.add_right_comm]
          exact ih (Nat.lt_of_succ_lt_succ hi)

/-- Two copies of a record that agree on a field have the same value there. -/
theorem Field.get_congr {x : Field} {base base' : Nat}
    (h : ∀ i, x.offset ≤ i → i < x.offset + x.width → m (base + i) = m' (base' + i)) :
    x.get m base = x.get m' base' := by
  apply read_congr
  intro i hi
  rw [Nat.add_assoc, Nat.add_assoc]
  exact h (x.offset + i) (Nat.le_add_right x.offset i) (Nat.add_lt_add_left hi x.offset)

end Read

end LittleEndian
