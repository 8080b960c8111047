import Mathlib.Data.Fintype.Card
import Mathlib.Data.List.Basic
import Mathlib.Data.Fintype.EquivFin

/-!
# Lists that are linked through their elements

Every element has a pointer to its successor. An owner has a pointer to its
first element, and every element names its owner. New elements are linked in
at the end of the list of their owner.
-/

variable {α κ : Type*}

/-- The list that a pointer stands for. -/
def Chain (next : α → Option α) : Option α → List α → Prop
  | h, [] => h = none
  | h, a :: as => h = some a ∧ Chain next (next a) as

/-- The elements that a loop along the pointers visits in at most `n` rounds. -/
def follow (next : α → Option α) : Nat → Option α → List α
  | 0, _ => []
  | _ + 1, none => []
  | n + 1, some a => a :: follow next n (next a)

section Chain

variable {next : α → Option α} {h : Option α} {as : List α}

theorem follow_eq (hc : Chain next h as) {n : Nat} (hn : as.length ≤ n) :
    follow next n h = as := by
  induction as generalizing h n with
  | nil =>
      obtain rfl : h = none := hc
      cases n with
      | zero => rfl
      | succ n => rfl
  | cons a as ih =>
      obtain ⟨rfl, hc⟩ := hc
      cases n with
      | zero => exact absurd hn (Nat.not_succ_le_zero _)
      | succ n => exact congrArg (a :: ·) (ih hc (Nat.le_of_succ_le_succ hn))

theorem Chain.head_eq (hc : Chain next h as) : h = as.head? := by
  cases as with
  | nil => exact hc
  | cons a as => exact hc.1

/-- A pointer stands for one list. -/
theorem Chain.unique {bs : List α} (ha : Chain next h as) (hb : Chain next h bs) : as = bs := by
  induction as generalizing h bs with
  | nil =>
      obtain rfl : h = none := ha
      cases bs with
      | nil => rfl
      | cons b bs => exact absurd hb.1 (by simp)
  | cons a as ih =>
      obtain ⟨rfl, ha⟩ := ha
      cases bs with
      | nil => exact absurd hb (by simp [Chain])
      | cons b bs =>
          obtain ⟨hab, hb⟩ := hb
          obtain rfl := Option.some.inj hab
          exact congrArg (a :: ·) (ih ha hb)

/-- The list behind an element of a list. -/
theorem Chain.tail_of_append {bs : List α} {a : α} (hc : Chain next h (as ++ a :: bs)) :
    Chain next (next a) bs := by
  induction as generalizing h with
  | nil => exact hc.2
  | cons b as ih => exact ih hc.2

/-- A list that ends visits no element twice. -/
theorem Chain.nodup (hc : Chain next h as) : as.Nodup := by
  induction as generalizing h with
  | nil => exact List.nodup_nil
  | cons a as ih =>
      refine List.nodup_cons.mpr ⟨fun hmem => ?_, ih hc.2⟩
      obtain ⟨s, t, rfl⟩ := List.append_of_mem hmem
      -- the rest behind the second visit would be the rest behind the first one
      have hlen := congrArg List.length (hc.2.unique hc.2.tail_of_append)
      simp only [List.length_append, List.length_cons] at hlen
      omega

variable [DecidableEq α]

theorem Chain.update_of_notMem {a : α} {x : Option α} (hc : Chain next h as) (ha : a ∉ as) :
    Chain (Function.update next a x) h as := by
  induction as generalizing h with
  | nil => exact hc
  | cons b as ih =>
      obtain ⟨hb, has⟩ := List.ne_and_not_mem_of_not_mem_cons ha
      refine ⟨hc.1, ?_⟩
      rw [Function.update_of_ne (Ne.symm hb)]
      exact ih hc.2 has

/-- Linking a new element behind the last one. -/
theorem Chain.append {z a : α} (hc : Chain next h as) (hlast : as.getLast? = some z)
    (hnodup : as.Nodup) (ha : a ∉ as) (hnext : next a = none) :
    Chain (Function.update next z (some a)) h (as ++ [a]) := by
  induction as generalizing h with
  | nil => exact absurd hlast (by simp)
  | cons b as ih =>
      obtain ⟨hb, has⟩ := List.nodup_cons.mp hnodup
      obtain ⟨hab, haas⟩ := List.ne_and_not_mem_of_not_mem_cons ha
      refine ⟨hc.1, ?_⟩
      cases as with
      | nil =>
          obtain rfl : b = z := by simpa using hlast
          rw [Function.update_self]
          refine ⟨rfl, ?_⟩
          rw [Function.update_of_ne hab]
          exact hnext
      | cons c as =>
          have hz : (c :: as).getLast? = some z := by
            rw [← hlast, List.getLast?_cons_cons]
          have hbz : b ≠ z := by
            rintro rfl
            exact hb (List.mem_of_getLast? hz)
          rw [Function.update_of_ne hbz]
          exact ih hc.2 hz has haas

end Chain

/-- Owners with their first element, elements with their successor and their owner. -/
structure Family (κ α : Type*) where
  head : κ → Option α
  next : α → Option α
  parent : α → Option κ

namespace Family

variable [Fintype α]

/-- The elements of an owner, in the order of their links. -/
def list (f : Family κ α) (k : κ) : List α := follow f.next (Fintype.card α) (f.head k)

/-- `L` gives the elements of every owner, which are those that name it. -/
structure Lists (f : Family κ α) (L : κ → List α) : Prop where
  chain : ∀ k, Chain f.next (f.head k) (L k)
  nodup : ∀ k, (L k).Nodup
  mem_iff : ∀ k a, a ∈ L k ↔ f.parent a = some k
  alone : ∀ a, f.parent a = none → f.next a = none

theorem Lists.list_eq {f : Family κ α} {L : κ → List α} (h : f.Lists L) : f.list = L := by
  funext k
  exact follow_eq (h.chain k) (h.nodup k).length_le_card

omit [Fintype α] in
theorem Lists.empty {f : Family κ α} (hhead : ∀ k, f.head k = none)
    (hparent : ∀ a, f.parent a = none) (hnext : ∀ a, f.next a = none) :
    f.Lists fun _ => [] where
  chain := hhead
  nodup := fun _ => List.nodup_nil
  mem_iff := fun k a => by simp [hparent]
  alone := fun a _ => hnext a

variable [DecidableEq α] [DecidableEq κ]

/-- Link a new element in behind the elements of its owner. -/
def attach (f : Family κ α) (k : κ) (a : α) : Family κ α where
  head := if f.head k = none then Function.update f.head k (some a) else f.head
  next :=
    match (f.list k).getLast? with
    | none => f.next
    | some z => Function.update f.next z (some a)
  parent := Function.update f.parent a (some k)

section Attach

variable {f : Family κ α} {L : κ → List α} {j k : κ} {a b z : α}

omit [Fintype α] [DecidableEq α] [DecidableEq κ] in
/-- An element without an owner is in no list. -/
theorem Lists.notMem (h : f.Lists L) (ha : f.parent a = none) (k : κ) : a ∉ L k := by
  intro hmem
  exact absurd (ha.symm.trans ((h.mem_iff k a).mp hmem)) (by simp)

omit [Fintype α] [DecidableEq α] [DecidableEq κ] in
/-- No element is in the lists of two owners. -/
theorem Lists.owner_unique (h : f.Lists L) (hj : a ∈ L j) (hk : a ∈ L k) : j = k :=
  Option.some.inj (((h.mem_iff j a).mp hj).symm.trans ((h.mem_iff k a).mp hk))

/-- The pointers for the first element of an owner. -/
theorem Lists.attach_first (h : f.Lists L) (hlast : (L k).getLast? = none) (a : α) :
    L k = [] ∧ (f.attach k a).head = Function.update f.head k (some a) ∧
      (f.attach k a).next = f.next := by
  have hnil : L k = [] := List.getLast?_eq_none_iff.mp hlast
  have hhead : f.head k = none := by
    have hk := h.chain k
    rwa [hnil] at hk
  refine ⟨hnil, if_pos hhead, ?_⟩
  simp only [Family.attach, h.list_eq, hlast]

/-- The pointers for a further element of an owner. -/
theorem Lists.attach_last (h : f.Lists L) (hlast : (L k).getLast? = some z) (a : α) :
    (f.attach k a).head = f.head ∧ (f.attach k a).next = Function.update f.next z (some a) := by
  have hhead : f.head k ≠ none := by
    intro hnone
    have hk := (h.chain k).head_eq
    rw [hnone] at hk
    rw [List.head?_eq_none_iff.mp hk.symm] at hlast
    cases hlast
  refine ⟨if_neg hhead, ?_⟩
  simp only [Family.attach, h.list_eq, hlast]

theorem Lists.attach_chain (h : f.Lists L) (ha : f.parent a = none) (j : κ) :
    Chain (f.attach k a).next ((f.attach k a).head j)
      (Function.update L k (L k ++ [a]) j) := by
  cases hlast : (L k).getLast? with
  | none =>
      obtain ⟨hnil, hhead, hnext⟩ := h.attach_first hlast a
      rw [hhead, hnext]
      by_cases hjk : j = k
      · subst j
        rw [Function.update_self, Function.update_self, hnil]
        exact ⟨rfl, h.alone a ha⟩
      · rw [Function.update_of_ne hjk, Function.update_of_ne hjk]
        exact h.chain j
  | some z =>
      obtain ⟨hhead, hnext⟩ := h.attach_last hlast a
      rw [hhead, hnext]
      by_cases hjk : j = k
      · subst j
        rw [Function.update_self]
        exact (h.chain k).append hlast (h.nodup k) (h.notMem ha k) (h.alone a ha)
      · rw [Function.update_of_ne hjk]
        apply (h.chain j).update_of_notMem
        exact fun hz => hjk (h.owner_unique hz (List.mem_of_getLast? hlast))

theorem Lists.attach_mem (h : f.Lists L) (ha : f.parent a = none) (j : κ) (b : α) :
    b ∈ Function.update L k (L k ++ [a]) j ↔ (f.attach k a).parent b = some j := by
  change _ ↔ Function.update f.parent a (some k) b = some j
  by_cases hba : b = a
  · subst b
    rw [Function.update_self, Option.some.injEq]
    by_cases hjk : j = k
    · subst j
      simp
    · rw [Function.update_of_ne hjk]
      simp [h.notMem ha j, Ne.symm hjk]
  · rw [Function.update_of_ne hba, ← h.mem_iff j b]
    by_cases hjk : j = k
    · subst j
      simp [hba]
    · rw [Function.update_of_ne hjk]

theorem Lists.attach_alone (h : f.Lists L) (hb : (f.attach k a).parent b = none) :
    (f.attach k a).next b = none := by
  have hba : b ≠ a := by
    rintro rfl
    exact absurd ((Function.update_self ..).symm.trans hb) (by simp)
  have hold : f.parent b = none := (Function.update_of_ne hba ..).symm.trans hb
  cases hlast : (L k).getLast? with
  | none =>
      obtain ⟨-, -, hnext⟩ := h.attach_first hlast a
      rw [hnext]
      exact h.alone b hold
  | some z =>
      obtain ⟨-, hnext⟩ := h.attach_last hlast a
      have hbz : b ≠ z := by
        rintro rfl
        exact h.notMem hold k (List.mem_of_getLast? hlast)
      rw [hnext, Function.update_of_ne hbz]
      exact h.alone b hold

/-- The list of the owner grows at its end, and all others are left alone. -/
theorem Lists.attach (h : f.Lists L) (ha : f.parent a = none) :
    (f.attach k a).Lists (Function.update L k (L k ++ [a])) where
  chain := h.attach_chain ha
  nodup := by
    intro j
    by_cases hjk : j = k
    · subst j
      rw [Function.update_self]
      exact (h.nodup k).append (List.nodup_singleton a) (by simpa using h.notMem ha k)
    · rw [Function.update_of_ne hjk]
      exact h.nodup j
  mem_iff := h.attach_mem ha
  alone := fun _ => h.attach_alone

end Attach

/-- The lists that the links stand for are those of the owners. -/
def Consistent (f : Family κ α) : Prop := f.Lists f.list

omit [DecidableEq α] [DecidableEq κ] in
theorem Lists.consistent {f : Family κ α} {L : κ → List α} (h : f.Lists L) : f.Consistent := by
  rw [Consistent, h.list_eq]
  exact h

end Family
