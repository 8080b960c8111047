import BaremetalCrt.Library.Chain
import BaremetalCrt.Library.Levels
import BaremetalCrt.Sys.String
import Mathlib.Data.Fintype.Sum
import Mathlib.Data.Sum.Basic

/-!
# Devices, buses and drivers

The objects of a board are static and refer to each other by pointers. A bus
has a list of devices, a device can have a list of further buses, and the
registered drivers form one list. Adding an object links it in at the end of a
list; nothing is ever unlinked.

## Implementation notes

An object that was never added has null pointers only. Objects can be linked
before the object above them is, also into a cycle that does not hang below the
root device; the root device itself is not added to a bus.
-/

namespace BaremetalCrt

/-- The two texts that devices and buses are matched with drivers by. -/
structure TypePair where
  vendor : CStr
  device : CStr
  deriving DecidableEq

/-- The fixed data of all objects. A text that is not set is `none`; a driver needs
both of its texts. -/
structure Board (D B R : Type) where
  devRoot : D
  busRoot : B
  head : R
  devName : D → Option CStr
  devType : D → TypePair
  busName : B → Option CStr
  busType : B → TypePair
  drvType : R → Option TypePair
  busRoot_named : busName busRoot ≠ none

theorem bus_named : some (CStr.ofChars "bus".toList) ≠ none := by simp

theorem rootBus_named : some (CStr.ofChars "root bus".toList) ≠ none := by simp

/-- The pointers of `struct k_device`, `struct k_bus` and `struct k_driver`. -/
structure Links (D B R : Type) where
  busParent : D → Option B
  busChild : D → Option B
  devNext : D → Option D
  devParent : B → Option D
  devChild : B → Option D
  busNext : B → Option B
  drvNext : R → Option R

variable {D B R : Type}

/-- The devices of the buses. -/
def Links.devs (l : Links D B R) : Family B D := ⟨l.devChild, l.devNext, l.busParent⟩

/-- The buses of the devices. -/
def Links.buses (l : Links D B R) : Family D B := ⟨l.busChild, l.busNext, l.devParent⟩

def Links.setDevs (l : Links D B R) (f : Family B D) : Links D B R :=
  { l with devChild := f.head, devNext := f.next, busParent := f.parent }

def Links.setBuses (l : Links D B R) (f : Family D B) : Links D B R :=
  { l with busChild := f.head, busNext := f.next, devParent := f.parent }

/-- Nothing is linked. -/
def Links.empty : Links D B R where
  busParent := fun _ => none
  busChild := fun _ => none
  devNext := fun _ => none
  devParent := fun _ => none
  devChild := fun _ => none
  busNext := fun _ => none
  drvNext := fun _ => none

/-- The object above an object. -/
def Links.up (l : Links D B R) : D ⊕ B → Option (D ⊕ B)
  | .inl d => (l.busParent d).map .inr
  | .inr b => (l.devParent b).map .inl

/-- A device that is attached to a bus of the tree below the root device. -/
inductive Hangs (board : Board D B R) (l : Links D B R) : D → Prop
  | first {d : D} {b : B} (hd : l.busParent d = some b)
      (hb : l.devParent b = some board.devRoot) : Hangs board l d
  | under {d e : D} {b : B} (hd : l.busParent d = some b) (hb : l.devParent b = some e)
      (he : Hangs board l e) : Hangs board l d

variable [Fintype D] [Fintype B] [Fintype R] [DecidableEq D] [DecidableEq B] [DecidableEq R]

/-- The linking part of `k_device_add`. -/
def deviceLink (board : Board D B R) (l : Links D B R) (dev : Option D) (parent : Option B) :
    Links D B R × Int :=
  match dev, parent with
  | some d, some b =>
      if board.devName d = none then (l, -einval)
      else if l.busParent d ≠ none then (l, -einval)
      else (l.setDevs (l.devs.attach b d), 0)
  | _, _ => (l, -einval)

/-- The linking part of `k_bus_add`. -/
def busLink (board : Board D B R) (l : Links D B R) (bus : Option B) (parent : Option D) :
    Links D B R × Int :=
  match bus, parent with
  | some b, some d =>
      if board.busName b = none then (l, -einval)
      else if l.devParent b ≠ none then (l, -einval)
      else (l.setBuses (l.buses.attach d b), 0)
  | _, _ => (l, -einval)

/-- The drivers that a loop from the head of the list visits. -/
def drivers (board : Board D B R) (l : Links D B R) : List R :=
  follow l.drvNext (Fintype.card R) (some board.head)

/-- The comparison of a driver with the texts of a device, a bus or another driver. -/
def typeMatches (board : Board D B R) (ty : TypePair) (r : R) : Bool :=
  match board.drvType r with
  | none => false
  | some t => kStrcmp t.vendor ty.vendor == 0 && kStrcmp t.device ty.device == 0

omit [Fintype D] [Fintype B] [Fintype R] [DecidableEq D] [DecidableEq B] [DecidableEq R] in
theorem typeMatches_iff {board : Board D B R} {ty : TypePair} {r : R} :
    typeMatches board ty r = true ↔ board.drvType r = some ty := by
  unfold typeMatches
  cases board.drvType r with
  | none => simp
  | some t =>
      simp only [Bool.and_eq_true, beq_iff_eq, kStrcmp_eq_zero_iff, Option.some.injEq]
      constructor
      · rintro ⟨hvendor, hdevice⟩
        cases t
        cases ty
        rw [TypePair.mk.injEq]
        exact ⟨hvendor, hdevice⟩
      · rintro rfl
        exact ⟨rfl, rfl⟩

/-- The linking part of `k_driver_add`. -/
def driverLink (board : Board D B R) (l : Links D B R) (driver : R) : Links D B R × Int :=
  match board.drvType driver with
  | none => (l, -einval)
  | some ty =>
      if (drivers board l).any (typeMatches board ty) then (l, -einval)
      else
        match (drivers board l).getLast? with
        | none => (l, 0)
        | some last => ({ l with drvNext := Function.update l.drvNext last (some driver) }, 0)

/-- What can be linked by accepted and rejected calls in any order. -/
inductive Built (board : Board D B R) : Links D B R → Prop
  | empty : Built board Links.empty
  | device {l : Links D B R} (hl : Built board l) (dev : Option D) (parent : Option B)
      (hroot : dev ≠ some board.devRoot) : Built board (deviceLink board l dev parent).1
  | bus {l : Links D B R} (hl : Built board l) (bus : Option B) (parent : Option D) :
      Built board (busLink board l bus parent).1
  | driver {l : Links D B R} (hl : Built board l) (driver : R) :
      Built board (driverLink board l driver).1

/-- The devices of a bus in their order. -/
def Links.children (l : Links D B R) (b : B) : List D := l.devs.list b

/-- All lists are those that the objects name, every device on a bus has a name,
and the root device is on no bus. -/
structure LinksInv (board : Board D B R) (l : Links D B R) : Prop where
  devs : l.devs.Consistent
  buses : l.buses.Consistent
  named : ∀ d b, l.busParent d = some b → board.devName d ≠ none
  root_alone : l.busParent board.devRoot = none

section Linking

variable {board : Board D B R} {l : Links D B R}

omit [Fintype B] [Fintype R] [DecidableEq R] in
theorem deviceLink_cases (board : Board D B R) (l : Links D B R) (dev : Option D)
    (parent : Option B) :
    (deviceLink board l dev parent).1 = l ∨ ∃ d b, dev = some d ∧ board.devName d ≠ none ∧
      l.busParent d = none ∧ (deviceLink board l dev parent).1 = l.setDevs (l.devs.attach b d) := by
  unfold deviceLink
  split
  · rename_i d b
    split
    · exact Or.inl rfl
    · rename_i hname
      split
      · exact Or.inl rfl
      · rename_i hparent
        exact Or.inr ⟨d, b, rfl, hname, not_not.mp hparent, rfl⟩
  · exact Or.inl rfl

omit [Fintype D] [Fintype R] [DecidableEq R] in
theorem busLink_cases (board : Board D B R) (l : Links D B R) (bus : Option B)
    (parent : Option D) :
    (busLink board l bus parent).1 = l ∨ ∃ b d, bus = some b ∧ l.devParent b = none ∧
      (busLink board l bus parent).1 = l.setBuses (l.buses.attach d b) := by
  unfold busLink
  split
  · rename_i b d
    split
    · exact Or.inl rfl
    · split
      · exact Or.inl rfl
      · rename_i hparent
        exact Or.inr ⟨b, d, rfl, not_not.mp hparent, rfl⟩
  · exact Or.inl rfl

omit [Fintype D] [Fintype B] [DecidableEq D] [DecidableEq B] in
theorem driverLink_cases (board : Board D B R) (l : Links D B R) (driver : R) :
    ∃ next, (driverLink board l driver).1 = { l with drvNext := next } := by
  unfold driverLink
  split
  · exact ⟨l.drvNext, rfl⟩
  · split
    · exact ⟨l.drvNext, rfl⟩
    · split
      · exact ⟨l.drvNext, rfl⟩
      · exact ⟨_, rfl⟩

omit [Fintype R] [DecidableEq D] [DecidableEq B] [DecidableEq R] in
theorem LinksInv.empty : LinksInv board (Links.empty : Links D B R) where
  devs := (Family.Lists.empty (fun _ => rfl) (fun _ => rfl) (fun _ => rfl)).consistent
  buses := (Family.Lists.empty (fun _ => rfl) (fun _ => rfl) (fun _ => rfl)).consistent
  named := fun _ b hd => absurd hd (Option.some_ne_none b ∘ Eq.symm)
  root_alone := rfl

omit [Fintype R] [DecidableEq R] in
theorem LinksInv.device (h : LinksInv board l) {dev : Option D} {parent : Option B}
    (hroot : dev ≠ some board.devRoot) : LinksInv board (deviceLink board l dev parent).1 := by
  rcases deviceLink_cases board l dev parent with hsame | ⟨d, b, rfl, hname, hparent, hlink⟩
  · rw [hsame]
    exact h
  · rw [hlink]
    have hlists := Family.Lists.attach (k := b) h.devs hparent
    refine ⟨hlists.consistent, h.buses, ?_, ?_⟩
    · intro e c he
      by_cases hed : e = d
      · rw [hed]
        exact hname
      · exact h.named e c ((Function.update_of_ne hed ..).symm.trans he)
    · have hne : board.devRoot ≠ d := fun heq => hroot (congrArg some heq.symm)
      exact (Function.update_of_ne hne ..).trans h.root_alone

omit [Fintype R] [DecidableEq R] in
theorem LinksInv.bus (h : LinksInv board l) {bus : Option B} {parent : Option D} :
    LinksInv board (busLink board l bus parent).1 := by
  rcases busLink_cases board l bus parent with hsame | ⟨b, d, rfl, hparent, hlink⟩
  · rw [hsame]
    exact h
  · rw [hlink]
    have hlists := Family.Lists.attach (k := d) h.buses hparent
    exact ⟨h.devs, hlists.consistent, h.named, h.root_alone⟩

theorem Built.inv (h : Built board l) : LinksInv board l := by
  induction h with
  | empty => exact LinksInv.empty
  | device _ dev parent hroot ih => exact ih.device hroot
  | bus _ bus parent ih => exact ih.bus
  | driver _ driver ih =>
      obtain ⟨next, hlink⟩ := driverLink_cases board _ driver
      rw [hlink]
      exact ⟨ih.devs, ih.buses, ih.named, ih.root_alone⟩

omit [Fintype R] [DecidableEq D] [DecidableEq B] [DecidableEq R] in
theorem LinksInv.mem_children (h : LinksInv board l) {b : B} {d : D} :
    d ∈ l.children b ↔ l.busParent d = some b :=
  h.devs.mem_iff b d

omit [Fintype R] [DecidableEq D] [DecidableEq B] [DecidableEq R] in
/-- The first bus of a device names it. -/
theorem LinksInv.devParent_of_busChild (h : LinksInv board l) {b : B} {d : D}
    (hb : l.busChild d = some b) : l.devParent b = some d := by
  have hhead : l.busChild d = (l.buses.list d).head? := (h.buses.chain d).head_eq
  exact (h.buses.mem_iff d b).mp (List.mem_of_head? (hhead.symm.trans hb))

omit [Fintype R] [DecidableEq D] [DecidableEq B] [DecidableEq R] in
/-- A device on the first bus of another one is two levels further down. -/
theorem LinksInv.level_child (h : LinksInv board l) {n : Nat} {b : B} {c d : D}
    (hd : Level l.up (.inl board.devRoot) n (.inl d)) (hb : l.busChild d = some b)
    (hc : c ∈ l.children b) : Level l.up (.inl board.devRoot) (n + 2) (.inl c) := by
  refine ⟨.inr b, ?_, .inl d, ?_, hd⟩
  · simp [Links.up, h.mem_children.mp hc]
  · simp [Links.up, h.devParent_of_busChild hb]

omit [Fintype R] [DecidableEq D] [DecidableEq B] [DecidableEq R] in
theorem LinksInv.level_lt (h : LinksInv board l) {n : Nat} {d : D}
    (hd : Level l.up (.inl board.devRoot) n (.inl d)) : n < Fintype.card (D ⊕ B) := by
  apply hd.lt_card
  simp [Links.up, h.root_alone]

end Linking

end BaremetalCrt
