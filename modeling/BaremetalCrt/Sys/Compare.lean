import BaremetalCrt.Sys.String
import Mathlib.Data.List.Forall2

/-!
# The order of strings and the bounded comparisons

`k_strcmp` decides the lexicographic order of byte strings, `k_strcasecmp` the same order
after both strings were put in lower case. The bounded functions should do this with the
first characters of the strings only; `k_strncmp` looks at one character more.

## Implementation notes

`k_strncmp` runs on a memory and records through which of its two pointers it reads. The
other functions return zero for equal strings, so the comparison of the pointers that they
start with is left out.
-/

namespace BaremetalCrt

/-- The loop of `k_strncasecmp` on the bytes that are left of both strings. -/
def strncasecmpLoop : Nat → List UInt8 → List UInt8 → Int → Int
  | 0, _, _, d => d
  | n + 1, as, bs, _ =>
      let c1 := kTolower (as.headD 0)
      let c2 := kTolower (bs.headD 0)
      let d := c1 - c2
      if c1 = 0 ∨ d ≠ 0 then d else strncasecmpLoop n as.tail bs.tail d

/-- `k_strncasecmp`. -/
def kStrncasecmp (s1 s2 : CStr) (n : Nat) : Int := strncasecmpLoop n s1.bytes s2.bytes 0

/-- A result and the addresses that were read through each of the two pointers. -/
structure Compared where
  result : Int
  reads1 : List Nat
  reads2 : List Nat

/-- The same result after one more look at both characters. -/
def Compared.reading (p1 p2 : Nat) (x : Compared) : Compared :=
  ⟨x.result, p1 :: x.reads1, p2 :: x.reads2⟩

/-- The final subtraction of `k_strncmp`. -/
def strncmpEnd (m : Mem) (p1 p2 : Nat) : Compared :=
  ⟨((m p1).toNat : Int) - (m p2).toNat, [p1], [p2]⟩

/-- The loop of `k_strncmp`. -/
def strncmpLoop (m : Mem) : Nat → Nat → Nat → Compared
  | 0, p1, p2 => strncmpEnd m p1 p2
  | n + 1, p1, p2 =>
      if m p1 = m p2 then
        if m p1 = 0 then (strncmpEnd m p1 p2).reading p1 p2
        else (strncmpLoop m n (p1 + 1) (p2 + 1)).reading p1 p2
      else (strncmpEnd m p1 p2).reading p1 p2

/-- `k_strncmp`. -/
def kStrncmp (m : Mem) (s1 s2 n : Nat) : Compared :=
  if s1 = s2 then ⟨0, [], []⟩ else strncmpLoop m n s1 s2

/-- The bytes of a string and its end at an address. -/
def BytesAt (m : Mem) : Nat → List UInt8 → Prop
  | a, [] => m a = 0
  | a, b :: bs => m a = b ∧ BytesAt m (a + 1) bs

/-- The first characters of a string. -/
def CStr.take (s : CStr) (n : Nat) : CStr where
  bytes := s.bytes.take n
  noNul := fun h => s.noNul (List.mem_of_mem_take h)

/-- The lower-case letter of an upper-case letter, and any other byte. -/
def lowerByte (c : UInt8) : UInt8 := if kIsupper c then c + 32 else c

/-- The two bytes are the same or the two cases of one ASCII letter. -/
def SameLetter (a b : UInt8) : Prop :=
  a = b ∨ (65 ≤ a.toNat ∧ a.toNat ≤ 90 ∧ b.toNat = a.toNat + 32) ∨
    (65 ≤ b.toNat ∧ b.toNat ≤ 90 ∧ a.toNat = b.toNat + 32)

/-- Equality ignoring ASCII case. -/
def CStr.EqIgnoreCase (s1 s2 : CStr) : Prop := List.Forall₂ SameLetter s1.bytes s2.bytes

theorem toNat_lowerByte (c : UInt8) : ((lowerByte c).toNat : Int) = kTolower c := by
  unfold lowerByte kTolower
  split
  · rename_i hupper
    simp only [kIsupper, decide_eq_true_eq] at hupper
    rw [UInt8.toNat_add]
    have h32 : (32 : UInt8).toNat = 32 := rfl
    omega
  · rfl

theorem lowerByte_ne_zero {c : UInt8} (h : c ≠ 0) : lowerByte c ≠ 0 := by
  intro hzero
  have hpos := kTolower_pos h
  rw [← toNat_lowerByte, hzero] at hpos
  exact absurd hpos (by decide)

/-- The string in lower case. -/
def CStr.lowercase (s : CStr) : CStr where
  bytes := s.bytes.map lowerByte
  noNul := by
    intro h
    obtain ⟨c, hc, hzero⟩ := List.mem_map.mp h
    exact lowerByte_ne_zero (fun heq => s.noNul (heq ▸ hc)) hzero

/-- Letters agree in lower case exactly when they are the same up to their case. -/
theorem kTolower_eq_iff {a b : UInt8} : kTolower a = kTolower b ↔ SameLetter a b := by
  have hinj : a = b ↔ a.toNat = b.toNat := UInt8.toNat_inj.symm
  unfold kTolower SameLetter kIsupper
  rw [hinj]
  simp only [decide_eq_true_eq]
  split
  · split
    · omega
    · omega
  · split
    · omega
    · omega

section Order

variable {as bs : List UInt8}

/-- The sign of the first difference is the order of the strings. -/
theorem strcmpLoop_neg_iff (ha : 0 ∉ as) (hb : 0 ∉ bs) : strcmpLoop as bs < 0 ↔ as < bs := by
  induction as generalizing bs with
  | nil =>
      cases bs with
      | nil => simp [strcmpLoop]
      | cons b bs =>
          have hb0 : 0 ≠ b := (List.ne_and_not_mem_of_not_mem_cons hb).1
          have hne : 0 ≠ b.toNat := fun h => hb0 (UInt8.toNat_inj.mp h)
          refine iff_of_true ?_ (List.nil_lt_cons b bs)
          simp only [strcmpLoop]
          omega
  | cons a as ih =>
      cases bs with
      | nil =>
          refine iff_of_false ?_ (List.not_lt_nil _)
          simp only [strcmpLoop]
          omega
      | cons b bs =>
          rw [List.cons_lt_cons_iff, strcmpLoop]
          by_cases hab : a = b
          · rw [if_pos hab, hab, ih (List.ne_and_not_mem_of_not_mem_cons ha).2
              (List.ne_and_not_mem_of_not_mem_cons hb).2]
            simp
          · rw [if_neg hab, UInt8.lt_iff_toNat_lt]
            simp only [hab, false_and, or_false]
            omega

/-- Exchanging the strings negates the first difference. -/
theorem strcmpLoop_swap (as bs : List UInt8) : strcmpLoop bs as = -strcmpLoop as bs := by
  induction as generalizing bs with
  | nil =>
      cases bs with
      | nil => rfl
      | cons b bs => simp [strcmpLoop]
  | cons a as ih =>
      cases bs with
      | nil => simp [strcmpLoop]
      | cons b bs =>
          by_cases hab : a = b
          · simp only [strcmpLoop, hab, if_true, ih]
          · simp only [strcmpLoop, if_neg hab, if_neg (Ne.symm hab)]
            omega

/-- Comparing without case is comparing in lower case. -/
theorem strcasecmpLoop_eq (as bs : List UInt8) :
    strcasecmpLoop as bs = strcmpLoop (as.map lowerByte) (bs.map lowerByte) := by
  induction as generalizing bs with
  | nil =>
      cases bs with
      | nil => rfl
      | cons b bs => simp only [strcasecmpLoop, List.map, strcmpLoop, toNat_lowerByte]
  | cons a as ih =>
      cases bs with
      | nil => simp only [strcasecmpLoop, List.map, strcmpLoop, toNat_lowerByte]
      | cons b bs =>
          have hiff : lowerByte a = lowerByte b ↔ kTolower a - kTolower b = 0 := by
            rw [← UInt8.toNat_inj, ← toNat_lowerByte, ← toNat_lowerByte]
            omega
          simp only [strcasecmpLoop, List.map, strcmpLoop, toNat_lowerByte, ih]
          by_cases heq : kTolower a - kTolower b = 0
          · rw [if_neg (not_not.mpr heq), if_pos (hiff.mpr heq)]
          · rw [if_pos heq, if_neg fun h => heq (hiff.mp h)]

/-- The bounded comparison without case, where the difference so far is zero. -/
theorem strncasecmpLoop_eq (ha : 0 ∉ as) (hb : 0 ∉ bs) (n : Nat) :
    strncasecmpLoop n as bs 0 = strcasecmpLoop (as.take n) (bs.take n) := by
  have hzero : kTolower 0 = 0 := by decide
  induction n generalizing as bs with
  | zero => rfl
  | succ n ih =>
      rw [strncasecmpLoop]
      cases as with
      | nil =>
          cases bs with
          | nil => simp [strcasecmpLoop, hzero]
          | cons b bs => simp [strcasecmpLoop, hzero]
      | cons a as =>
          obtain ⟨ha0, has⟩ := List.ne_and_not_mem_of_not_mem_cons ha
          have hpos : kTolower a ≠ 0 := Int.ne_of_gt (kTolower_pos (Ne.symm ha0))
          cases bs with
          | nil => simp [strcasecmpLoop, hzero, hpos]
          | cons b bs =>
              change (if kTolower a = 0 ∨ kTolower a - kTolower b ≠ 0 then kTolower a - kTolower b
                else strncasecmpLoop n as bs (kTolower a - kTolower b)) =
                  strcasecmpLoop (a :: as.take n) (b :: bs.take n)
              rw [strcasecmpLoop]
              by_cases heq : kTolower a - kTolower b ≠ 0
              · rw [if_pos (Or.inr heq), if_pos heq]
              · rw [if_neg (not_or.mpr ⟨hpos, heq⟩), if_neg heq, not_not.mp heq]
                exact ih has (List.ne_and_not_mem_of_not_mem_cons hb).2

end Order

theorem kStrcmp_neg_iff (s1 s2 : CStr) : kStrcmp s1 s2 < 0 ↔ s1.bytes < s2.bytes :=
  strcmpLoop_neg_iff s1.noNul s2.noNul

theorem kStrcmp_swap (s1 s2 : CStr) : kStrcmp s2 s1 = -kStrcmp s1 s2 :=
  strcmpLoop_swap s1.bytes s2.bytes

theorem kStrcmp_nonpos_iff (s1 s2 : CStr) : kStrcmp s1 s2 ≤ 0 ↔ s1.bytes ≤ s2.bytes := by
  rw [← List.not_lt, ← kStrcmp_neg_iff, kStrcmp_swap]
  omega

theorem kStrcasecmp_eq (s1 s2 : CStr) :
    kStrcasecmp s1 s2 = kStrcmp s1.lowercase s2.lowercase :=
  strcasecmpLoop_eq s1.bytes s2.bytes

/-- The case-insensitive comparison is an order. -/
theorem kStrcasecmp_trans {s1 s2 s3 : CStr} (h12 : kStrcasecmp s1 s2 ≤ 0)
    (h23 : kStrcasecmp s2 s3 ≤ 0) : kStrcasecmp s1 s3 ≤ 0 := by
  rw [kStrcasecmp_eq, kStrcmp_nonpos_iff] at *
  exact List.le_trans h12 h23

theorem kStrcasecmp_eq_zero_iff_eqIgnoreCase (s1 s2 : CStr) :
    kStrcasecmp s1 s2 = 0 ↔ s1.EqIgnoreCase s2 := by
  rw [kStrcasecmp_eq_zero_iff, CStr.lower, CStr.lower, ← List.forall₂_eq_eq_eq,
    List.forall₂_map_left_iff, List.forall₂_map_right_iff, CStr.EqIgnoreCase]
  simp only [kTolower_eq_iff]

/-- The comparisons decide the orders of strings: `k_strcmp` the lexicographic order,
`k_strcasecmp` the one in lower case and `k_strncasecmp` that of the first characters. -/
theorem string_comparisons_ordered (s1 s2 s3 : CStr) (n : Nat) :
    ((kStrcmp s1 s2 < 0 ↔ s1.bytes < s2.bytes) ∧ (0 < kStrcmp s1 s2 ↔ s2.bytes < s1.bytes) ∧
        (kStrcmp s1 s2 = 0 ↔ s1 = s2)) ∧
      ((kStrcasecmp s1 s2).sign = (kStrcmp s1.lowercase s2.lowercase).sign ∧
        (kStrcasecmp s2 s1).sign = -(kStrcasecmp s1 s2).sign ∧
        (kStrcasecmp s1 s2 ≤ 0 → kStrcasecmp s2 s3 ≤ 0 → kStrcasecmp s1 s3 ≤ 0) ∧
        (kStrcasecmp s1 s2 = 0 ↔ s1.EqIgnoreCase s2)) ∧
      (kStrncasecmp s1 s2 n).sign = (kStrcasecmp (s1.take n) (s2.take n)).sign := by
  refine ⟨⟨kStrcmp_neg_iff s1 s2, ?_, kStrcmp_eq_zero_iff s1 s2⟩, ⟨?_, ?_, ?_, ?_⟩, ?_⟩
  · rw [← kStrcmp_neg_iff, kStrcmp_swap s1 s2]
    omega
  · rw [kStrcasecmp_eq]
  · rw [kStrcasecmp_eq, kStrcasecmp_eq, kStrcmp_swap s1.lowercase, Int.sign_neg]
  · exact kStrcasecmp_trans
  · exact kStrcasecmp_eq_zero_iff_eqIgnoreCase s1 s2
  · exact congrArg Int.sign (strncasecmpLoop_eq s1.noNul s2.noNul n)

section Bounded

variable {m : Mem} {as bs : List UInt8}

/-- Where a string begins says which one it is. -/
theorem BytesAt.unique {a : Nat} (h : BytesAt m a as) (h' : BytesAt m a bs) (ha : 0 ∉ as)
    (hb : 0 ∉ bs) : as = bs := by
  induction as generalizing a bs with
  | nil =>
      cases bs with
      | nil => rfl
      | cons b bs =>
          have hzero : 0 = b := h.symm.trans h'.1
          exact absurd hzero (List.ne_and_not_mem_of_not_mem_cons hb).1
  | cons x as ih =>
      cases bs with
      | nil =>
          have hzero : 0 = x := Eq.symm (h.1.symm.trans h')
          exact absurd hzero (List.ne_and_not_mem_of_not_mem_cons ha).1
      | cons b bs =>
          rw [h.1.symm.trans h'.1, ih h.2 h'.2 (List.ne_and_not_mem_of_not_mem_cons ha).2
            (List.ne_and_not_mem_of_not_mem_cons hb).2]

theorem BytesAt.head {a : Nat} (h : BytesAt m a as) : m a = as.headD 0 := by
  cases as with
  | nil => exact h
  | cons x as => exact h.1

/-- At a character other than the end the string goes on. -/
theorem BytesAt.cons_of_ne {a : Nat} (h : BytesAt m a as) (hne : m a ≠ 0) :
    ∃ rest, as = m a :: rest ∧ BytesAt m (a + 1) rest := by
  cases as with
  | nil => exact absurd h hne
  | cons x as => exact ⟨as, by rw [h.1], h.2⟩

/-- At a difference or at the end the comparison is over. -/
theorem strcmpLoop_of_stop (ha : 0 ∉ as)
    (hstop : as.headD 0 = bs.headD 0 → as.headD 0 = 0) :
    strcmpLoop as bs = ((as.headD 0).toNat : Int) - (bs.headD 0).toNat := by
  cases as with
  | nil =>
      cases bs with
      | nil => rfl
      | cons b bs => rfl
  | cons a as =>
      cases bs with
      | nil => rfl
      | cons b bs =>
          have hab : a ≠ b := fun hab =>
            (List.ne_and_not_mem_of_not_mem_cons ha).1 (hstop hab).symm
          exact if_neg hab

theorem strncmpLoop_of_stop {p1 p2 : Nat} (n : Nat) (h : m p1 = m p2 → m p1 = 0) :
    strncmpLoop m (n + 1) p1 p2 = (strncmpEnd m p1 p2).reading p1 p2 := by
  rw [strncmpLoop]
  split
  · rename_i heq
    rw [if_pos (h heq)]
  · rfl

theorem strncmpLoop_of_go {p1 p2 : Nat} (n : Nat) (heq : m p1 = m p2) (hne : m p1 ≠ 0) :
    strncmpLoop m (n + 1) p1 p2 = (strncmpLoop m n (p1 + 1) (p2 + 1)).reading p1 p2 := by
  rw [strncmpLoop, if_pos heq, if_neg hne]

theorem headD_take_succ (as : List UInt8) (n : Nat) :
    (as.take (n + 1)).headD 0 = as.headD 0 := by
  cases as with
  | nil => rfl
  | cons a as => rfl

/-- The bounded comparison is right, and stays in bounds, if it meets a difference or the end
of the strings in time. -/
theorem strncmpLoop_of_early {n p1 p2 : Nat} (h1 : BytesAt m p1 as) (h2 : BytesAt m p2 bs)
    (ha : 0 ∉ as) (hearly : as.take n ≠ bs.take n ∨ as.length < n) :
    (strncmpLoop m n p1 p2).result = strcmpLoop (as.take n) (bs.take n) ∧
      (∀ p ∈ (strncmpLoop m n p1 p2).reads1, p < p1 + n) ∧
      ∀ p ∈ (strncmpLoop m n p1 p2).reads2, p < p2 + n := by
  induction n generalizing p1 p2 as bs with
  | zero => exact absurd rfl (hearly.resolve_right (Nat.not_lt_zero _))
  | succ n ih =>
      by_cases hstop : m p1 = m p2 → m p1 = 0
      · rw [strncmpLoop_of_stop n hstop]
        refine ⟨?_, by simp [strncmpEnd, Compared.reading], by simp [strncmpEnd, Compared.reading]⟩
        have htake : 0 ∉ as.take (n + 1) := fun h => ha (List.mem_of_mem_take h)
        rw [h1.head, h2.head] at hstop
        rw [strcmpLoop_of_stop htake (by rw [headD_take_succ, headD_take_succ]; exact hstop),
          headD_take_succ, headD_take_succ, ← h1.head, ← h2.head]
        rfl
      · obtain ⟨heq, hne⟩ := Classical.not_imp.mp hstop
        obtain ⟨as, rfl, hrest1⟩ := h1.cons_of_ne hne
        obtain ⟨bs, rfl, hrest2⟩ := h2.cons_of_ne (heq ▸ hne)
        rw [← heq] at hearly ⊢
        have hrest : as.take n ≠ bs.take n ∨ as.length < n := by simpa using hearly
        obtain ⟨hres, hr1, hr2⟩ :=
          ih hrest1 hrest2 (List.ne_and_not_mem_of_not_mem_cons ha).2 hrest
        rw [strncmpLoop_of_go n heq hne]
        refine ⟨?_, ?_, ?_⟩
        · simp only [Compared.reading, List.take_succ_cons, strcmpLoop, if_true]
          exact hres
        · intro p hp
          rcases List.mem_cons.mp hp with rfl | hp
          · omega
          · have := hr1 p hp
            omega
        · intro p hp
          rcases List.mem_cons.mp hp with rfl | hp
          · omega
          · have := hr2 p hp
            omega

/-- Otherwise the character behind the bound is read. -/
theorem strncmpLoop_reads_end {n p1 p2 : Nat} (h1 : BytesAt m p1 as) (h2 : BytesAt m p2 bs)
    (ha : 0 ∉ as) (heq : as.take n = bs.take n) (hlong : n ≤ as.length) :
    p1 + n ∈ (strncmpLoop m n p1 p2).reads1 := by
  induction n generalizing p1 p2 as bs with
  | zero => exact List.mem_cons_self
  | succ n ih =>
      cases as with
      | nil => exact absurd hlong (Nat.not_succ_le_zero n)
      | cons a as =>
          obtain ⟨ha0, has⟩ := List.ne_and_not_mem_of_not_mem_cons ha
          cases bs with
          | nil => exact absurd heq (by simp)
          | cons b bs =>
              obtain ⟨rfl, hrest⟩ : a = b ∧ as.take n = bs.take n := by simpa using heq
              have hnz : m p1 ≠ 0 := by
                rw [h1.1]
                exact Ne.symm ha0
              rw [strncmpLoop_of_go n (h1.1.trans h2.1.symm) hnz]
              apply List.mem_cons_of_mem
              have hin := ih h1.2 h2.2 has hrest (Nat.le_of_succ_le_succ hlong)
              rw [Nat.add_assoc, Nat.add_comm 1] at hin
              exact hin

end Bounded

/-- `k_strncmp` compares the first characters only, exactly when it is given one string twice
or the strings differ or end among their first characters. -/
theorem strncmp_truncates_iff (m : Mem) (a1 a2 n : Nat) (s1 s2 : CStr)
    (h1 : BytesAt m a1 s1.bytes) (h2 : BytesAt m a2 s2.bytes) :
    let r := kStrncmp m a1 a2 n
    (r.result.sign = (kStrcmp (s1.take n) (s2.take n)).sign ∧ (∀ p ∈ r.reads1, p < a1 + n) ∧
        ∀ p ∈ r.reads2, p < a2 + n) ↔
      a1 = a2 ∨ s1.take n ≠ s2.take n ∨ s1.bytes.length < n := by
  intro r
  by_cases hsame : a1 = a2
  · subst a2
    obtain rfl : s1 = s2 := CStr.ext (h1.unique h2 s1.noNul s2.noNul)
    have hr : r = ⟨0, [], []⟩ := if_pos rfl
    refine iff_of_true ?_ (Or.inl rfl)
    rw [hr, (kStrcmp_eq_zero_iff _ _).mpr rfl]
    simp
  · have hr : r = strncmpLoop m n a1 a2 := if_neg hsame
    have htake : s1.take n ≠ s2.take n ↔ s1.bytes.take n ≠ s2.bytes.take n :=
      not_congr CStr.ext_iff
    rw [hr, htake]
    constructor
    · rintro ⟨-, hreads, -⟩
      by_contra hcon
      have heq : s1.bytes.take n = s2.bytes.take n :=
        not_not.mp fun hne => hcon (Or.inr (Or.inl hne))
      have hlong : n ≤ s1.bytes.length :=
        Nat.le_of_not_lt fun hlt => hcon (Or.inr (Or.inr hlt))
      have hread := hreads _ (strncmpLoop_reads_end h1 h2 s1.noNul heq hlong)
      exact Nat.lt_irrefl _ hread
    · intro hcases
      obtain ⟨hres, hreads⟩ :=
        strncmpLoop_of_early h1 h2 s1.noNul (hcases.resolve_left hsame)
      exact ⟨congrArg Int.sign hres, hreads⟩

/-- A memory with the strings `ab` at 8 and `ac` at 16. -/
def twoStrings : Mem := fun a =>
  if a = 8 then 97 else if a = 9 then 98 else if a = 16 then 97 else if a = 17 then 99 else 0

theorem strncmp_truncates_iff_differ :
    (kStrncmp twoStrings 8 16 2).result.sign =
      (kStrcmp (CStr.take ⟨[97, 98], by decide⟩ 2) (CStr.take ⟨[97, 99], by decide⟩ 2)).sign :=
  ((strncmp_truncates_iff twoStrings 8 16 2 ⟨[97, 98], by decide⟩ ⟨[97, 99], by decide⟩
    ⟨rfl, rfl, rfl⟩ ⟨rfl, rfl, rfl⟩).mpr (Or.inr (Or.inl (by decide)))).1

/-- The first characters agree, and the result is the difference of the second ones. -/
theorem strncmp_reads_past_bound :
    BytesAt twoStrings 8 [97, 98] ∧ BytesAt twoStrings 16 [97, 99] ∧
      (kStrncmp twoStrings 8 16 1).result = -1 ∧ 9 ∈ (kStrncmp twoStrings 8 16 1).reads1 ∧
      kStrcmp (CStr.take ⟨[97, 98], by decide⟩ 1) (CStr.take ⟨[97, 99], by decide⟩ 1) = 0 :=
  ⟨⟨rfl, rfl, rfl⟩, ⟨rfl, rfl, rfl⟩, by decide, by decide, by decide⟩

end BaremetalCrt
