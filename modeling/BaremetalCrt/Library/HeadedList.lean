import BaremetalCrt.Library.Chain
import Mathlib.Data.List.Nodup

/-!
# Linked lists behind a head

A head is a node that has a pointer to a first element and is no element itself. An element
is linked in behind the last node, which is the head of an empty list, and taken out at the
node before it. An element that is in no list may point anywhere.
-/

namespace HeadedList

variable {K H : Type*} {next : K ⊕ H → Option H} {x : K ⊕ H} {a : H} {as : List H}

/-- The elements behind a node. -/
def Behind (next : K ⊕ H → Option H) (x : K ⊕ H) (as : List H) : Prop :=
  Chain (fun h => next (.inr h)) (next x) as

/-- A walk that ends visits no element twice. -/
theorem Behind.nodup (h : Behind next x as) : as.Nodup := Chain.nodup h

/-- A node is not behind itself. -/
theorem Behind.ne_of_mem (h : Behind next x as) (ha : a ∈ as) : .inr a ≠ x := by
  rintro rfl
  have hchain : Chain (fun b => next (.inr b)) (some a) (a :: as) := ⟨rfl, h⟩
  exact (List.nodup_cons.mp hchain.nodup).1 ha

/-- The node at which a walk from a node ends, in at most `n` nodes. -/
def lastNode (next : K ⊕ H → Option H) : Nat → K ⊕ H → Option (K ⊕ H)
  | 0, _ => none
  | n + 1, x =>
      match next x with
      | none => some x
      | some h => lastNode next n (.inr h)

/-- The last of a node and the elements behind it. -/
def lastOf : K ⊕ H → List H → K ⊕ H
  | x, [] => x
  | _, a :: as => lastOf (.inr a) as

theorem lastOf_eq_getLast? (x : K ⊕ H) (as : List H) :
    lastOf x as = as.getLast?.elim x .inr := by
  induction as generalizing x with
  | nil => rfl
  | cons a as ih =>
      rw [lastOf, ih, List.getLast?_cons]
      cases as.getLast? with
      | none => rfl
      | some z => rfl

theorem Behind.lastNode_eq (h : Behind next x as) {n : Nat} (hn : as.length < n) :
    lastNode next n x = some (lastOf x as) := by
  induction as generalizing x n with
  | nil =>
      obtain ⟨n, rfl⟩ := Nat.exists_eq_add_of_lt hn
      have hend : next x = none := h
      simp only [lastNode, hend]
      rfl
  | cons a as ih =>
      obtain ⟨hfirst, hrest⟩ := h
      cases n with
      | zero => exact absurd hn (Nat.not_lt_zero _)
      | succ n =>
          simp only [lastNode, hfirst]
          exact ih hrest (Nat.lt_of_succ_lt_succ hn)

theorem lastOf_mem (x : K ⊕ H) (as : List H) :
    lastOf x as = x ∨ ∃ a ∈ as, lastOf x as = .inr a := by
  induction as generalizing x with
  | nil => exact Or.inl rfl
  | cons a as ih =>
      rcases ih (.inr a) with hlast | ⟨b, hb, hlast⟩
      · exact Or.inr ⟨a, List.mem_cons_self, hlast⟩
      · exact Or.inr ⟨b, List.mem_cons_of_mem a hb, hlast⟩

variable [DecidableEq H]

/-- The node before an element on a walk from a node, if the walk meets it. -/
def findBefore (next : K ⊕ H → Option H) (a : H) : Nat → K ⊕ H → Option (Option (K ⊕ H))
  | 0, _ => none
  | n + 1, x =>
      if next x = some a then some (some x)
      else
        match next x with
        | none => some none
        | some h => findBefore next a n (.inr h)

/-- The node before an element of the list behind a node. -/
def before (a : H) : K ⊕ H → List H → K ⊕ H
  | x, [] => x
  | x, b :: bs => if b = a then x else before a (.inr b) bs

theorem Behind.findBefore_eq (h : Behind next x as) {n : Nat} (hn : as.length < n) (a : H) :
    findBefore next a n x = some (if a ∈ as then some (before a x as) else none) := by
  induction as generalizing x n with
  | nil =>
      obtain ⟨n, rfl⟩ := Nat.exists_eq_add_of_lt hn
      have hend : next x = none := h
      simp [findBefore, hend]
  | cons b bs ih =>
      obtain ⟨hfirst, hrest⟩ := h
      cases n with
      | zero => exact absurd hn (Nat.not_lt_zero _)
      | succ n =>
          by_cases hba : b = a
          · subst b
            simp [findBefore, hfirst, before]
          · have hne : next x ≠ some a := by
              rw [hfirst]
              exact fun heq => hba (Option.some.inj heq)
            rw [findBefore, if_neg hne]
            simp only [hfirst, before, if_neg hba, List.mem_cons, Ne.symm hba, false_or]
            exact ih hrest (Nat.lt_of_succ_lt_succ hn)

theorem before_mem (a : H) (x : K ⊕ H) (as : List H) :
    before a x as = x ∨ ∃ b ∈ as, before a x as = .inr b := by
  induction as generalizing x with
  | nil => exact Or.inl rfl
  | cons b bs ih =>
      by_cases hba : b = a
      · exact Or.inl (if_pos hba)
      · rw [before, if_neg hba]
        rcases ih (.inr b) with hb | ⟨c, hc, hb⟩
        · exact Or.inr ⟨b, List.mem_cons_self, hb⟩
        · exact Or.inr ⟨c, List.mem_cons_of_mem b hc, hb⟩

theorem Behind.next_before (h : Behind next x as) (ha : a ∈ as) :
    next (before a x as) = some a := by
  induction as generalizing x with
  | nil => exact absurd ha List.not_mem_nil
  | cons b bs ih =>
      by_cases hba : b = a
      · rw [before, if_pos hba, ← hba]
        exact h.1
      · rw [before, if_neg hba]
        exact ih h.2 ((List.mem_cons.mp ha).resolve_left (Ne.symm hba))

variable [DecidableEq K]

/-- The list behind a node depends on that node and on its elements only. -/
theorem Behind.update (h : Behind next x as) {y : K ⊕ H} (v : Option H) (hx : x ≠ y)
    (hy : ∀ a ∈ as, .inr a ≠ y) : Behind (Function.update next y v) x as := by
  induction as generalizing x with
  | nil =>
      have hend : next x = none := h
      exact (Function.update_of_ne hx v next).trans hend
  | cons a as ih =>
      obtain ⟨ha, has⟩ := List.forall_mem_cons.mp hy
      exact ⟨(Function.update_of_ne hx v next).trans h.1, ih h.2 ha has⟩

/-- A new element behind the last node. -/
theorem Behind.append (h : Behind next x as) (hax : .inr a ≠ x) (ha : a ∉ as) :
    Behind (Function.update (Function.update next (lastOf x as) (some a)) (.inr a) none) x
      (as ++ [a]) := by
  induction as generalizing x with
  | nil =>
      refine ⟨?_, Function.update_self ..⟩
      exact (Function.update_of_ne hax.symm ..).trans (Function.update_self ..)
  | cons b bs ih =>
      obtain ⟨hab, habs⟩ := List.ne_and_not_mem_of_not_mem_cons ha
      have hxlast : x ≠ lastOf (.inr b) bs := by
        rcases lastOf_mem (.inr b : K ⊕ H) bs with hlast | ⟨c, hc, hlast⟩
        · rw [hlast]
          exact (h.ne_of_mem List.mem_cons_self).symm
        · rw [hlast]
          exact (h.ne_of_mem (List.mem_cons_of_mem b hc)).symm
      refine ⟨?_, ih h.2 (fun heq => hab (Sum.inr.inj heq)) habs⟩
      exact (Function.update_of_ne hax.symm ..).trans
        ((Function.update_of_ne hxlast ..).trans h.1)

/-- A node passes over the element behind it. -/
theorem Behind.skip (h : Behind next x (a :: as)) :
    Behind (Function.update next x (next (.inr a))) x as := by
  have hrest : Behind (Function.update next x (next (.inr a))) (.inr a) as :=
    Behind.update h.2 _ (h.ne_of_mem List.mem_cons_self) fun b hb =>
      h.ne_of_mem (List.mem_cons_of_mem a hb)
  have hsame : Function.update next x (next (.inr a)) x =
      Function.update next x (next (.inr a)) (.inr a) :=
    (Function.update_self ..).trans
      (Function.update_of_ne (h.ne_of_mem List.mem_cons_self) ..).symm
  unfold Behind at hrest ⊢
  rw [hsame]
  exact hrest

/-- An element taken out at the node before it. -/
theorem Behind.unlink (h : Behind next x as) (ha : a ∈ as) :
    Behind (Function.update next (before a x as) (next (.inr a))) x (as.erase a) := by
  induction as generalizing x with
  | nil => exact absurd ha List.not_mem_nil
  | cons b bs ih =>
      by_cases hba : b = a
      · subst b
        rw [before, if_pos rfl, List.erase_cons_head]
        exact h.skip
      · have hmem : a ∈ bs := (List.mem_cons.mp ha).resolve_left (Ne.symm hba)
        rw [before, if_neg hba, List.erase_cons_tail (by simpa using hba)]
        have hxbefore : x ≠ before a (.inr b) bs := by
          rcases before_mem a (.inr b : K ⊕ H) bs with hc | ⟨c, hc, hbefore⟩
          · rw [hc]
            exact (h.ne_of_mem List.mem_cons_self).symm
          · rw [hbefore]
            exact (h.ne_of_mem (List.mem_cons_of_mem b hc)).symm
        exact ⟨(Function.update_of_ne hxbefore ..).trans h.1, ih h.2 hmem⟩

/-- The pointers stand for these lists, and no element is in two places. -/
structure Lists (next : K ⊕ H → Option H) (L : K → List H) : Prop where
  behind : ∀ k, Behind next (.inl k) (L k)
  apart : ∀ j k a, a ∈ L j → a ∈ L k → j = k

namespace Lists

variable {L : K → List H} {k : K}

omit [DecidableEq K] [DecidableEq H] in
theorem empty (h : ∀ k, next (.inl k) = none) : Lists next fun _ => [] where
  behind := h
  apart := fun _ _ _ ha => absurd ha List.not_mem_nil

omit [DecidableEq K] [DecidableEq H] in
/-- Nodes of different lists are different. -/
theorem ne_of_node (h : Lists next L) {j : K} (hjk : j ≠ k) {y : K ⊕ H}
    (hy : y = .inl k ∨ ∃ a ∈ L k, y = .inr a) :
    .inl j ≠ y ∧ ∀ b ∈ L j, .inr b ≠ y := by
  rcases hy with rfl | ⟨a, ha, rfl⟩
  · exact ⟨fun heq => hjk (Sum.inl.inj heq), fun _ _ => nofun⟩
  · refine ⟨nofun, fun b hb heq => ?_⟩
    obtain rfl := Sum.inr.inj heq
    exact hjk (h.apart j k b hb ha)

/-- The list of a head grows at its end. -/
theorem append (h : Lists next L) (ha : ∀ j, a ∉ L j) :
    Lists (Function.update (Function.update next (lastOf (.inl k) (L k)) (some a)) (.inr a) none)
      (Function.update L k (L k ++ [a])) where
  behind := by
    intro j
    by_cases hjk : j = k
    · subst j
      rw [Function.update_self]
      exact (h.behind k).append nofun (ha k)
    · rw [Function.update_of_ne hjk]
      obtain ⟨hhead, hmem⟩ := h.ne_of_node hjk (lastOf_mem (.inl k) (L k))
      refine ((h.behind j).update _ hhead hmem).update _ nofun ?_
      intro b hb heq
      exact ha j (Sum.inr.inj heq ▸ hb)
  apart := by
    have hold : ∀ j b, b ∈ Function.update L k (L k ++ [a]) j → b ∈ L j ∨ b = a ∧ j = k := by
      intro j b hb
      by_cases hjk : j = k
      · subst j
        rw [Function.update_self, List.mem_append, List.mem_singleton] at hb
        exact hb.imp_right fun hba => ⟨hba, rfl⟩
      · rw [Function.update_of_ne hjk] at hb
        exact Or.inl hb
    intro i j b hi hj
    rcases hold i b hi with hi' | ⟨hbi, hik⟩
    · rcases hold j b hj with hj' | ⟨hbj, -⟩
      · exact h.apart i j b hi' hj'
      · exact absurd (hbj ▸ hi') (ha i)
    · rcases hold j b hj with hj' | ⟨-, hjk⟩
      · exact absurd (hbi ▸ hj') (ha j)
      · exact hik.trans hjk.symm

/-- An element is taken out of the list of a head. -/
theorem unlink (h : Lists next L) (ha : a ∈ L k) :
    Lists (Function.update next (before a (.inl k) (L k)) (next (.inr a)))
      (Function.update L k ((L k).erase a)) where
  behind := by
    intro j
    by_cases hjk : j = k
    · subst j
      rw [Function.update_self]
      exact (h.behind k).unlink ha
    · rw [Function.update_of_ne hjk]
      obtain ⟨hhead, hmem⟩ := h.ne_of_node hjk (before_mem a (.inl k) (L k))
      exact (h.behind j).update _ hhead hmem
  apart := by
    have hold : ∀ j b, b ∈ Function.update L k ((L k).erase a) j → b ∈ L j := by
      intro j b hb
      by_cases hjk : j = k
      · subst j
        rw [Function.update_self] at hb
        exact List.mem_of_mem_erase hb
      · rwa [Function.update_of_ne hjk] at hb
    exact fun i j b hi hj => h.apart i j b (hold i b hi) (hold j b hj)

end Lists

/-- A walk from every node ends. -/
def Ends (next : K ⊕ H → Option H) : Prop := ∀ x, ∃ as, Behind next x as

omit [DecidableEq H] [DecidableEq K] in
theorem Ends.of_none (h : ∀ x, next x = none) : Ends next := fun x => ⟨[], h x⟩

omit [DecidableEq H] [DecidableEq K] in
/-- Walks still end when some nodes have new ends and all others are as they were. -/
theorem Ends.of_agree (h : Ends next) {next' : K ⊕ H → Option H} {P : K ⊕ H → Prop}
    (hnew : ∀ x, P x → ∃ as, Behind next' x as) (hold : ∀ x, ¬ P x → next' x = next x) :
    Ends next' := by
  intro x
  obtain ⟨as, has⟩ := h x
  induction as generalizing x with
  | nil =>
      by_cases hx : P x
      · exact hnew x hx
      · exact ⟨[], (hold x hx).trans has⟩
  | cons b bs ih =>
      by_cases hx : P x
      · exact hnew x hx
      · obtain ⟨cs, hcs⟩ := ih (.inr b) has.2
        exact ⟨b :: cs, (hold x hx).trans has.1, hcs⟩

/-- A node leads to an element that is made a last one. -/
theorem Ends.link (h : Ends next) (y : K ⊕ H) (a : H) :
    Ends (Function.update (Function.update next y (some a)) (.inr a) none) := by
  refine h.of_agree (P := fun x => x = .inr a ∨ x = y) ?_ ?_
  · intro x hx
    by_cases hxa : x = .inr a
    · subst hxa
      exact ⟨[], Function.update_self ..⟩
    · obtain rfl := hx.resolve_left hxa
      exact ⟨[a], (Function.update_of_ne hxa ..).trans (Function.update_self ..),
        Function.update_self ..⟩
  · intro x hx
    obtain ⟨hxa, hxy⟩ := not_or.mp hx
    exact (Function.update_of_ne hxa ..).trans (Function.update_of_ne hxy ..)

/-- A node passes over the element behind it. -/
theorem Ends.unlink (h : Ends next) {y : K ⊕ H} (hy : next y = some a) :
    Ends (Function.update next y (next (.inr a))) := by
  refine h.of_agree (P := fun x => x = y) ?_ fun x hx => Function.update_of_ne hx ..
  rintro x rfl
  obtain ⟨as, has⟩ := h x
  cases as with
  | nil => exact absurd (has.symm.trans hy) (by simp)
  | cons b bs =>
      obtain rfl := Option.some.inj (has.1.symm.trans hy)
      exact ⟨bs, has.skip⟩

end HeadedList
