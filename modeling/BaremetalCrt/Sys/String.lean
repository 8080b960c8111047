import BaremetalCrt.Sys.Target
import Mathlib.Data.List.Basic

/-!
# Memory fill and string comparison

Memory is a function from addresses to bytes. A C string is a list of
non-zero bytes; the terminating zero is the end of the list.
-/

namespace BaremetalCrt

/-- Byte-addressed memory. -/
abbrev Mem := Nat → UInt8

/-- Store one byte. -/
def Mem.store8 (m : Mem) (a : Nat) (v : UInt8) : Mem :=
  fun b => if b = a then v else m b

/-- Store one little-endian word of `w` bytes. -/
def Mem.storeWord (w : Nat) (m : Mem) (a v : Nat) : Mem :=
  fun b => if a ≤ b ∧ b < a + w then UInt8.ofNat (v / 256 ^ (b - a)) else m b

/-- The low byte that a store of an `int` through a `char` pointer keeps. -/
def lowByte (c : Int) : UInt8 := UInt8.ofNat (c % 256).toNat

namespace Memset

/-- Byte stores up to the first word boundary, or to the end of the range. -/
def head (w : Nat) (c : UInt8) : Nat → Nat → Mem → Nat × Nat × Mem
  | s, 0, m => (s, 0, m)
  | s, n + 1, m =>
      if s % w ≠ 0 then head w c (s + 1) n (m.store8 s c) else (s, n + 1, m)

/-- The fill word: the byte doubled by shifts up to the word size. -/
def fillWord (w : Nat) (c : UInt8) : Nat :=
  let c2 := c.toNat
  let c2 := (c2 ||| c2 <<< 8) % 2 ^ (8 * w)
  let c2 := (c2 ||| c2 <<< 16) % 2 ^ (8 * w)
  if w > 4 then (c2 ||| (c2 <<< 16) <<< 16) % 2 ^ (8 * w) else c2

/-- Blocks of four words. The first argument bounds the iterations. -/
def blocks (w c2 : Nat) : Nat → Nat → Nat → Mem → Nat × Nat × Mem
  | 0, s, n, m => (s, n, m)
  | f + 1, s, n, m =>
      if n ≥ w * 4 then
        let m := m.storeWord w s c2
        let m := m.storeWord w (s + w) c2
        let m := m.storeWord w (s + w * 2) c2
        let m := m.storeWord w (s + w * 3) c2
        blocks w c2 f (s + w * 4) (n - w * 4) m
      else (s, n, m)

/-- Single words. The first argument bounds the iterations. -/
def words (w c2 : Nat) : Nat → Nat → Nat → Mem → Nat × Nat × Mem
  | 0, s, n, m => (s, n, m)
  | f + 1, s, n, m =>
      if n ≥ w then words w c2 f (s + w) (n - w) (m.storeWord w s c2) else (s, n, m)

/-- The remaining bytes. -/
def tail (c : UInt8) : Nat → Nat → Mem → Mem
  | _, 0, m => m
  | s, n + 1, m => tail c (s + 1) n (m.store8 s c)

end Memset

/-- `k_memset`: fill `n` bytes from `s` on, by words where the address allows it. -/
def kMemset (t : Target) (m : Mem) (s : Nat) (c : Int) (n : Nat) : Mem × Nat :=
  let w := t.optBytes
  let b := lowByte c
  let (p, k, m) := Memset.head w b s n m
  let (p, k, m) :=
    if p % w = 0 then
      let c2 := Memset.fillWord w b
      let (p, k, m) := Memset.blocks w c2 k p k m
      Memset.words w c2 k p k m
    else (p, k, m)
  (Memset.tail b p k m, s)

/-- The bytes of a C string before its terminating zero. -/
structure CStr where
  bytes : List UInt8
  noNul : 0 ∉ bytes
  deriving DecidableEq

/-- The C string of a list of ASCII characters. -/
def CStr.ofChars (cs : List Char) : CStr where
  bytes := (cs.map fun c => UInt8.ofNat c.toNat).filter (· ≠ 0)
  noNul := by simp

@[ext] theorem CStr.ext {a b : CStr} (h : a.bytes = b.bytes) : a = b := by
  cases a
  cases b
  simpa using h

/-- The comparison loop of `k_strcmp` on the bytes that are left of both strings. -/
def strcmpLoop : List UInt8 → List UInt8 → Int
  | [], [] => 0
  | [], b :: _ => 0 - (b.toNat : Int)
  | a :: _, [] => (a.toNat : Int) - 0
  | a :: as, b :: bs => if a = b then strcmpLoop as bs else (a.toNat : Int) - b.toNat

/-- `k_strcmp`. -/
def kStrcmp (s1 s2 : CStr) : Int := strcmpLoop s1.bytes s2.bytes

/-- `k_isupper`, with the unsigned `char` of the target. -/
def kIsupper (c : UInt8) : Bool := decide (65 ≤ c.toNat ∧ c.toNat ≤ 90)

/-- `k_tolower`. -/
def kTolower (c : UInt8) : Int :=
  if kIsupper c then (c.toNat : Int) - 65 + 97 else c.toNat

/-- The comparison loop of `k_strcasecmp` on the bytes that are left of both strings. -/
def strcasecmpLoop : List UInt8 → List UInt8 → Int
  | [], [] => 0
  | [], b :: _ => 0 - kTolower b
  | a :: _, [] => kTolower a - 0
  | a :: as, b :: bs =>
      if kTolower a - kTolower b ≠ 0 then kTolower a - kTolower b else strcasecmpLoop as bs

/-- `k_strcasecmp`. -/
def kStrcasecmp (s1 s2 : CStr) : Int := strcasecmpLoop s1.bytes s2.bytes

theorem kTolower_pos {c : UInt8} (h : c ≠ 0) : 0 < kTolower c := by
  have hc : 0 < c.toNat := by
    rcases Nat.eq_zero_or_pos c.toNat with h0 | hpos
    · exact absurd (UInt8.toNat_inj.mp h0) h
    · exact hpos
  unfold kTolower
  split
  · rename_i hu
    simp only [kIsupper, decide_eq_true_eq] at hu
    omega
  · omega

theorem strcmpLoop_eq_zero_iff {as bs : List UInt8} (ha : 0 ∉ as) (hb : 0 ∉ bs) :
    strcmpLoop as bs = 0 ↔ as = bs := by
  induction as generalizing bs with
  | nil =>
      cases bs with
      | nil => simp [strcmpLoop]
      | cons b bs =>
          have hne : b ≠ 0 := fun h => hb (by simp [h])
          have : b.toNat ≠ 0 := fun h => hne (UInt8.toNat_inj.mp h)
          simp [strcmpLoop]
          omega
  | cons a as ih =>
      cases bs with
      | nil =>
          have hne : a ≠ 0 := fun h => ha (by simp [h])
          have : a.toNat ≠ 0 := fun h => hne (UInt8.toNat_inj.mp h)
          simp [strcmpLoop]
          omega
      | cons b bs =>
          have has : 0 ∉ as := fun h => ha (by simp [h])
          have hbs : 0 ∉ bs := fun h => hb (by simp [h])
          by_cases hab : a = b
          · simp [strcmpLoop, hab, ih has hbs]
          · have : a.toNat ≠ b.toNat := fun h => hab (UInt8.toNat_inj.mp h)
            simp only [strcmpLoop, hab, ↓reduceIte, List.cons.injEq, false_and, iff_false]
            omega

/-- `k_strcmp` answers zero exactly on equal strings. -/
theorem kStrcmp_eq_zero_iff (s1 s2 : CStr) : kStrcmp s1 s2 = 0 ↔ s1 = s2 := by
  unfold kStrcmp
  rw [strcmpLoop_eq_zero_iff s1.noNul s2.noNul]
  exact ⟨CStr.ext, fun h => by rw [h]⟩

/-- The lower-case codes of a string: what `k_strcasecmp` compares. -/
def CStr.lower (s : CStr) : List Int := s.bytes.map kTolower

theorem strcasecmpLoop_eq_zero_iff {as bs : List UInt8} (ha : 0 ∉ as) (hb : 0 ∉ bs) :
    strcasecmpLoop as bs = 0 ↔ as.map kTolower = bs.map kTolower := by
  induction as generalizing bs with
  | nil =>
      cases bs with
      | nil => simp [strcasecmpLoop]
      | cons b bs =>
          have := kTolower_pos (c := b) fun h => hb (by simp [h])
          simp [strcasecmpLoop]
          omega
  | cons a as ih =>
      cases bs with
      | nil =>
          have := kTolower_pos (c := a) fun h => ha (by simp [h])
          simp [strcasecmpLoop]
          omega
      | cons b bs =>
          have has : 0 ∉ as := fun h => ha (by simp [h])
          have hbs : 0 ∉ bs := fun h => hb (by simp [h])
          by_cases hab : kTolower a - kTolower b = 0
          · have he : kTolower a = kTolower b := by omega
            simp [strcasecmpLoop, he, ih has hbs]
          · have hne : kTolower a ≠ kTolower b := by omega
            simp [strcasecmpLoop, hab, hne]

/-- `k_strcasecmp` answers zero exactly on strings that agree ignoring case. -/
theorem kStrcasecmp_eq_zero_iff (s1 s2 : CStr) :
    kStrcasecmp s1 s2 = 0 ↔ s1.lower = s2.lower :=
  strcasecmpLoop_eq_zero_iff s1.noNul s2.noNul

end BaremetalCrt
