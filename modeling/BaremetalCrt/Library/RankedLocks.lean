import BaremetalCrt.Library.Runs
import Mathlib.Logic.Function.Basic

/-!
# Locks that are taken in the order of their ranks

Actors run code that takes locks, gives them back in the reverse order, masks interrupts and waits
for things from outside. An interrupt runs code of its own on top of what its actor was doing.
When every lock is taken behind a mask, and only while all locks that the code has are of a lower
rank, an actor that wants a lock can always get it.

## Implementation notes

Only the control flow that matters to locks is kept: choices and numbers of iterations are made by
the label of a step. What an actor has still to do is a list of items; the locks it has are those
that the list gives back.
-/

namespace RankedLocks

open LabelledSystem

/-- Code, as far as locks and masks go. -/
inductive Code (L W : Type*) where
  | skip
  /-- A loop that something from outside ends. -/
  | wait (w : W)
  /-- The lock is taken, the code runs, the lock is given back. -/
  | locked (l : L) (c : Code L W)
  | seq (c d : Code L W)
  | choice (c d : Code L W)
  | loop (c : Code L W)
  /-- Interrupts are masked, the code runs, the mask is restored. -/
  | masked (c : Code L W)
  /-- Interrupts are enabled and disabled again. -/
  | window

/-- What an actor has still to do. -/
inductive Item (L W : Type*) where
  | code (c : Code L W)
  | unlock (l : L)
  | restore (mie : Bool)

/-- An actor: whether it can be interrupted, and what it has still to do. -/
structure Actor (L W : Type*) where
  mie : Bool
  todo : List (Item L W)

/-- The owners of the locks and the actors. -/
structure State (P L W : Type*) where
  owner : L → Option P
  actors : P → Actor L W

/-- The steps: an actor without code enters some by a trap, by a call, or by a call while its
interrupts are masked, or changes its mask; it is interrupted; it goes on; its wait ends. -/
inductive Label (P L W : Type*) where
  | trap (p : P) (c : Code L W)
  | call (p : P) (c : Code L W)
  | maskedCall (p : P) (c : Code L W)
  | mask (p : P) (mie : Bool)
  | interrupt (p : P) (c : Code L W)
  | run (p : P) (b : Bool)
  | pass (p : P) (w : W)

section Steps

variable {P L W : Type*} [DecidableEq L]

/-- The next step of an actor. One that wants a lock which is not free has none. -/
def Actor.advance (owner : L → Option P) (p : P) (b : Bool) (a : Actor L W) :
    Option ((L → Option P) × Actor L W) :=
  match a.todo with
  | .code .skip :: k => some (owner, { a with todo := k })
  | .code (.locked l c) :: k =>
      match owner l with
      | none => some (Function.update owner l (some p),
          { a with todo := .code c :: .unlock l :: k })
      | some _ => none
  | .code (.seq c d) :: k => some (owner, { a with todo := .code c :: .code d :: k })
  | .code (.choice c d) :: k =>
      some (owner, { a with todo := .code (if b then c else d) :: k })
  | .code (.loop c) :: k =>
      some (owner, { a with todo := if b then .code c :: .code (.loop c) :: k else k })
  | .code (.masked c) :: k => some (owner, ⟨false, .code c :: .restore a.mie :: k⟩)
  | .code .window :: k => some (owner, ⟨true, .restore false :: k⟩)
  | .unlock l :: k => some (Function.update owner l none, { a with todo := k })
  | .restore mie :: k => some (owner, ⟨mie, k⟩)
  | .code (.wait _) :: _ | [] => none

variable [DecidableEq P]

/-- One actor moves on. -/
def State.put (s : State P L W) (p : P) (owner : L → Option P) (a : Actor L W) : State P L W :=
  ⟨owner, Function.update s.actors p a⟩

/-- The steps of the actors. -/
def step [DecidableEq W] (s : State P L W) : Label P L W → Option (State P L W)
  | .trap p c =>
      match s.actors p with
      | ⟨mie, []⟩ => some (s.put p s.owner ⟨false, [.code c, .restore mie]⟩)
      | _ => none
  | .call p c =>
      match s.actors p with
      | ⟨mie, []⟩ => some (s.put p s.owner ⟨mie, [.code c]⟩)
      | _ => none
  | .maskedCall p c =>
      match s.actors p with
      | ⟨false, []⟩ => some (s.put p s.owner ⟨false, [.code c]⟩)
      | _ => none
  | .mask p mie =>
      match s.actors p with
      | ⟨_, []⟩ => some (s.put p s.owner ⟨mie, []⟩)
      | _ => none
  | .interrupt p c =>
      match s.actors p with
      | ⟨true, k⟩ => some (s.put p s.owner ⟨false, .code c :: .restore true :: k⟩)
      | _ => none
  | .run p b => ((s.actors p).advance s.owner p b).map fun (owner, a) => s.put p owner a
  | .pass p w =>
      match s.actors p with
      | ⟨mie, .code (.wait w') :: k⟩ => if w = w' then some (s.put p s.owner ⟨mie, k⟩) else none
      | _ => none

/-- No lock is taken, and no actor has code. -/
def State.start (mie : P → Bool) : State P L W := ⟨fun _ => none, fun p => ⟨mie p, []⟩⟩

end Steps

/-- The ranks of the locks, and what code may wait for while it has one. -/
structure Rules (L W : Type*) where
  rank : L → Nat
  inLock : W → Bool

section Order

variable {P L W : Type*} (R : Rules L W)

/-- The code takes its locks behind a mask and in the order of their ranks, when it starts with
the mask `m` and with locks below the rank `n`. It enables interrupts only without a lock, and
waits with a lock only for what it may. -/
def Code.ordered : Bool → Nat → Code L W → Bool
  | _, _, .skip => true
  | _, n, .wait w => decide (n = 0) || R.inLock w
  | m, n, .locked l c => m && decide (n ≤ R.rank l) && c.ordered m (R.rank l + 1)
  | m, n, .seq c d | m, n, .choice c d => c.ordered m n && d.ordered m n
  | m, n, .loop c => c.ordered m n
  | _, n, .masked c => c.ordered true n
  | m, n, .window => m && decide (n = 0)

/-- The code that a step enters is ordered where it is entered. -/
def Label.Ordered : Label P L W → Prop
  | .trap _ c | .interrupt _ c | .maskedCall _ c => c.ordered R true 0 = true
  | .call _ c => c.ordered R false 0 = true
  | .mask _ _ | .run _ _ | .pass _ _ => True

/-- The step goes on with code that is there, or ends a wait that a lock allows. -/
def Label.Inner : Label P L W → Prop
  | .run _ _ => True
  | .pass _ w => R.inLock w = true
  | _ => False

/-- One more than the rank of the lock that is given back first. -/
def height : List (Item L W) → Nat
  | [] => 0
  | .unlock l :: _ => R.rank l + 1
  | _ :: k => height k

/-- The items are ordered when the mask is `m`. -/
def Stacked : Bool → List (Item L W) → Prop
  | _, [] => True
  | m, .code c :: k => c.ordered R m (height R k) = true ∧ Stacked m k
  | m, .unlock l :: k => m = true ∧ height R k ≤ R.rank l ∧ Stacked m k
  | _, .restore mie :: k => (mie = true → height R k = 0) ∧ Stacked (!mie) k

/-- An actor is in order, and has no lock while it can be interrupted. -/
structure Actor.Ok (a : Actor L W) : Prop where
  stacked : Stacked R (!a.mie) a.todo
  unmasked : a.mie = true → height R a.todo = 0

/-- All actors are in order, and the owner of a lock is the one that gives it back. -/
structure State.Ok (s : State P L W) : Prop where
  ok : ∀ p, (s.actors p).Ok R
  owner_iff : ∀ l p, s.owner l = some p ↔ Item.unlock l ∈ (s.actors p).todo

variable {R} {m : Bool} {l : L} {k : List (Item L W)}

/-- The locks of an actor are below its height. -/
theorem Stacked.rank_lt (h : Stacked R m k) (hl : .unlock l ∈ k) :
    R.rank l < height R k := by
  induction k generalizing m with
  | nil => cases hl
  | cons item k ih =>
      cases item with
      | code c =>
          rcases List.mem_cons.mp hl with hl | hl
          · cases hl
          · exact ih h.2 hl
      | restore mie =>
          rcases List.mem_cons.mp hl with hl | hl
          · cases hl
          · exact ih h.2 hl
      | unlock l' =>
          rcases List.mem_cons.mp hl with hl | hl
          · cases hl
            exact Nat.lt_succ_self _
          · have hlt := ih h.2.2 hl
            have hle := h.2.1
            change R.rank l < R.rank l' + 1
            omega

/-- A lock that is given back is not given back a second time. -/
theorem Stacked.unlock_notMem (h : Stacked R m (.unlock l :: k)) : .unlock l ∉ k := by
  intro hl
  have hlt := h.2.2.rank_lt hl
  have hle := h.2.1
  omega

/-- Code that is in order without a mask is so with one. -/
theorem Code.ordered_of_unmasked {c : Code L W} {n : Nat} (h : c.ordered R false n = true)
    (m : Bool) : c.ordered R m n = true := by
  induction c generalizing n with
  | skip => rfl
  | wait w => exact h
  | locked l c ih => cases h
  | seq c d ihc ihd =>
      have hcd := Bool.and_eq_true_iff.mp h
      exact Bool.and_eq_true_iff.mpr ⟨ihc hcd.1, ihd hcd.2⟩
  | choice c d ihc ihd =>
      have hcd := Bool.and_eq_true_iff.mp h
      exact Bool.and_eq_true_iff.mpr ⟨ihc hcd.1, ihd hcd.2⟩
  | loop c ih => exact ih h
  | masked c ih => exact h
  | window => cases h

section Shape

/-- An actor that has no code is in order with any mask. -/
theorem Actor.Ok.nil (mie : Bool) : Actor.Ok R (⟨mie, []⟩ : Actor L W) :=
  ⟨trivial, fun _ => rfl⟩

variable {mie : Bool} {c d : Code L W}

/-- Code that keeps the height and the mask may take the place of other code. -/
theorem Actor.Ok.code (h : Actor.Ok R ⟨mie, .code c :: k⟩)
    (hd : d.ordered R (!mie) (height R k) = true) :
    Actor.Ok R ⟨mie, .code d :: k⟩ :=
  ⟨⟨hd, h.stacked.2⟩, h.unmasked⟩

theorem Actor.Ok.tail (h : Actor.Ok R ⟨mie, .code c :: k⟩) : Actor.Ok R ⟨mie, k⟩ :=
  ⟨h.stacked.2, h.unmasked⟩

/-- Code behind a mask that is restored when it ends. -/
theorem Actor.Ok.mask (h : Actor.Ok R ⟨mie, k⟩)
    (hc : c.ordered R true (height R k) = true) :
    Actor.Ok R ⟨false, .code c :: .restore mie :: k⟩ :=
  ⟨⟨hc, h.unmasked, h.stacked⟩, nofun⟩

end Shape

variable [DecidableEq P] {s s' : State P L W} {p q : P} {a : Actor L W} {owner : L → Option P}

@[simp] theorem State.put_actors_self : (s.put p owner a).actors p = a := Function.update_self ..

theorem State.put_actors_of_ne (hq : q ≠ p) : (s.put p owner a).actors q = s.actors q :=
  Function.update_of_ne hq ..

theorem State.Ok.ok_put (h : s.Ok R) (ha : a.Ok R) (q : P) :
    ((s.put p owner a).actors q).Ok R := by
  by_cases hq : q = p
  · subst q
    rwa [State.put_actors_self]
  · rw [State.put_actors_of_ne hq]
    exact h.ok q

/-- An actor moves on with the locks that it has. -/
theorem State.Ok.keep (h : s.Ok R) (ha : a.Ok R)
    (hsame : ∀ l, .unlock l ∈ a.todo ↔ .unlock l ∈ (s.actors p).todo) :
    (s.put p s.owner a).Ok R := by
  refine ⟨h.ok_put ha, ?_⟩
  intro l q
  by_cases hq : q = p
  · subst q
    rw [State.put_actors_self, hsame]
    exact h.owner_iff l p
  · rw [State.put_actors_of_ne hq]
    exact h.owner_iff l q

variable [DecidableEq L]

/-- An actor takes a lock that is free. -/
theorem State.Ok.take (h : s.Ok R) (ha : a.Ok R) (hfree : s.owner l = none)
    (hsame : ∀ l', .unlock l' ∈ a.todo ↔ l' = l ∨ .unlock l' ∈ (s.actors p).todo) :
    (s.put p (Function.update s.owner l (some p)) a).Ok R := by
  refine ⟨h.ok_put ha, ?_⟩
  intro l' q
  change Function.update s.owner l (some p) l' = some q ↔ _
  by_cases hl : l' = l
  · subst l'
    rw [Function.update_self]
    by_cases hq : q = p
    · subst q
      simp [hsame]
    · rw [State.put_actors_of_ne hq, ← h.owner_iff l q, hfree]
      simp [Ne.symm hq]
  · rw [Function.update_of_ne hl]
    by_cases hq : q = p
    · subst q
      rw [State.put_actors_self, hsame, h.owner_iff]
      simp [hl]
    · rw [State.put_actors_of_ne hq]
      exact h.owner_iff l' q

/-- An actor gives back the lock that it took last. -/
theorem State.Ok.release (h : s.Ok R) {mie : Bool} (hp : s.actors p = ⟨mie, .unlock l :: k⟩)
    (ha : Actor.Ok R ⟨mie, k⟩) (hl : .unlock l ∉ k) :
    (s.put p (Function.update s.owner l none) ⟨mie, k⟩).Ok R := by
  refine ⟨h.ok_put ha, ?_⟩
  intro l' q
  change Function.update s.owner l none l' = some q ↔ _
  have hown : s.owner l = some p := (h.owner_iff l p).mpr (by simp [hp])
  by_cases hl' : l' = l
  · subst l'
    rw [Function.update_self]
    by_cases hq : q = p
    · subst q
      simp [hl]
    · rw [State.put_actors_of_ne hq, ← h.owner_iff l q, hown]
      simp [Ne.symm hq]
  · rw [Function.update_of_ne hl']
    by_cases hq : q = p
    · subst q
      rw [State.put_actors_self, h.owner_iff, hp]
      simp [hl']
    · rw [State.put_actors_of_ne hq]
      exact h.owner_iff l' q

variable {mie b : Bool}

theorem Actor.Ok.advance (hs : s.Ok R) {a' : Actor L W}
    (hstep : (s.actors p).advance s.owner p b = some (owner, a')) :
    (s.put p owner a').Ok R := by
  have hok := hs.ok p
  generalize hp : s.actors p = a at hstep hok
  obtain ⟨mie, todo⟩ := a
  cases todo with
  | nil => cases hstep
  | cons item k =>
      cases item with
      | unlock l =>
          cases hstep
          obtain ⟨⟨hmask, hle, hk⟩, -⟩ := hok
          have hmie : mie = false := by simpa using hmask
          subst hmie
          exact hs.release hp ⟨hk, nofun⟩ (Stacked.unlock_notMem ⟨hmask, hle, hk⟩)
      | restore mie' =>
          cases hstep
          refine hs.keep ⟨hok.stacked.2, hok.stacked.1⟩ ?_
          simp [hp]
      | code c =>
          cases c with
          | skip =>
              cases hstep
              exact hs.keep hok.tail (by simp [hp])
          | wait w => cases hstep
          | seq c d =>
              cases hstep
              have hcd := Bool.and_eq_true_iff.mp hok.stacked.1
              refine hs.keep ⟨⟨hcd.1, hcd.2, hok.stacked.2⟩, hok.unmasked⟩ (by simp [hp])
          | choice c d =>
              cases hstep
              have hcd := Bool.and_eq_true_iff.mp hok.stacked.1
              refine hs.keep (hok.code ?_) (by simp [hp])
              cases b with
              | true => exact hcd.1
              | false => exact hcd.2
          | loop c =>
              cases hstep
              cases b with
              | true =>
                  exact hs.keep ⟨⟨hok.stacked.1, hok.stacked⟩, hok.unmasked⟩ (by simp [hp])
              | false => exact hs.keep hok.tail (by simp [hp])
          | masked c =>
              cases hstep
              exact hs.keep (hok.tail.mask hok.stacked.1) (by simp [hp])
          | window =>
              cases hstep
              have hmn := Bool.and_eq_true_iff.mp hok.stacked.1
              have hheight : height R k = 0 := of_decide_eq_true hmn.2
              have hmie : mie = false := by simpa using hmn.1
              subst hmie
              exact hs.keep ⟨⟨nofun, hok.stacked.2⟩, fun _ => hheight⟩ (by simp [hp])
          | locked l c =>
              simp only [Actor.advance] at hstep
              split at hstep
              · next hfree =>
                cases hstep
                have hmc := Bool.and_eq_true_iff.mp hok.stacked.1
                have hmn := Bool.and_eq_true_iff.mp hmc.1
                have hmie : mie = false := by simpa using hmn.1
                subst hmie
                have hle : height R k ≤ R.rank l := of_decide_eq_true hmn.2
                exact hs.take ⟨⟨hmc.2, rfl, hle, hok.stacked.2⟩, nofun⟩ hfree (by simp [hp])
              · cases hstep

variable [DecidableEq W]

/-- Every ordered step keeps the actors in order. -/
theorem State.Ok.step {x : Label P L W} (hs : s.Ok R) (hx : x.Ordered R)
    (hstep : RankedLocks.step s x = some s') : s'.Ok R := by
  cases x with
  | trap p c =>
      simp only [RankedLocks.step] at hstep
      split at hstep
      · next mie hp =>
        cases hstep
        exact hs.keep ((Actor.Ok.nil mie).mask hx) (by simp [hp])
      · cases hstep
  | call p c =>
      simp only [RankedLocks.step] at hstep
      split at hstep
      · next mie hp =>
        cases hstep
        exact hs.keep ⟨⟨Code.ordered_of_unmasked hx (!mie), trivial⟩, fun _ => rfl⟩ (by simp [hp])
      · cases hstep
  | maskedCall p c =>
      simp only [RankedLocks.step] at hstep
      split at hstep
      · next hp =>
        cases hstep
        exact hs.keep ⟨⟨hx, trivial⟩, nofun⟩ (by simp [hp])
      · cases hstep
  | mask p mie =>
      simp only [RankedLocks.step] at hstep
      split at hstep
      · next hp =>
        cases hstep
        exact hs.keep (Actor.Ok.nil mie) (by simp [hp])
      · cases hstep
  | interrupt p c =>
      simp only [RankedLocks.step] at hstep
      split at hstep
      · next k hp =>
        cases hstep
        have hok := hs.ok p
        rw [hp] at hok
        refine hs.keep (hok.mask ?_) (by simp [hp])
        rw [hok.unmasked rfl]
        exact hx
      · cases hstep
  | run p b =>
      obtain ⟨⟨owner, a⟩, hadv, rfl⟩ := Option.map_eq_some_iff.mp hstep
      exact Actor.Ok.advance hs hadv
  | pass p w =>
      simp only [RankedLocks.step] at hstep
      split at hstep
      · next mie w' k hp =>
        split at hstep
        · cases hstep
          have hok := hs.ok p
          rw [hp] at hok
          exact hs.keep hok.tail (by simp [hp])
        · cases hstep
      · cases hstep

omit [DecidableEq P] [DecidableEq L] [DecidableEq W] in
theorem State.Ok.start (mie : P → Bool) : (State.start mie : State P L W).Ok R :=
  ⟨fun p => Actor.Ok.nil (mie p), fun l p => by simp [State.start]⟩

end Order

section Progress

variable {P L W : Type*}

/-- What is left of code when its loops end at once. -/
def Code.size : Code L W → Nat
  | .skip | .wait _ => 1
  | .locked _ c | .masked c => c.size + 2
  | .seq c d | .choice c d => c.size + d.size + 1
  | .loop c => c.size + 1
  | .window => 2

def Item.size : Item L W → Nat
  | .code c => c.size
  | .unlock _ | .restore _ => 1

variable [DecidableEq P] [DecidableEq L] [DecidableEq W] {R : Rules L W} {s s' : State P L W}
  {p q : P} {l : L} {k : List (Item L W)}

/-- The actor has a lock of the rank of this one or a higher rank. -/
def Above (R : Rules L W) (l : L) (a : Actor L W) : Prop :=
  ∃ l', R.rank l ≤ R.rank l' ∧ .unlock l' ∈ a.todo

/-- The lock gets free by steps of actors that have locks of its rank or a higher one. -/
def Frees (R : Rules L W) (s : State P L W) (l : L) : Prop :=
  ∃ (xs : List (Label P L W)) (s' : State P L W), (∀ x ∈ xs, x.Inner R) ∧
    exec step s xs = some s' ∧ s'.Ok R ∧ s'.owner l = none ∧
    ∀ p, ¬ Above R l (s.actors p) → s'.actors p = s.actors p

omit [DecidableEq P] [DecidableEq L] [DecidableEq W] in
theorem Label.Inner.ordered {x : Label P L W} (hx : x.Inner R) : x.Ordered R := by
  cases x with
  | run p b => trivial
  | pass p w => trivial
  | _ => cases hx

/-- Steps of actors above the lock may come first. -/
theorem Frees.after (xs : List (Label P L W)) (hxs : ∀ x ∈ xs, x.Inner R)
    (hrun : exec step s xs = some s')
    (hsame : ∀ p, ¬ Above R l (s.actors p) → s'.actors p = s.actors p)
    (h : Frees R s' l) : Frees R s l := by
  obtain ⟨ys, t, hys, hrun', ht, hfree, hsame'⟩ := h
  refine ⟨xs ++ ys, t, ?_, (exec_append_iff _).mpr ⟨s', hrun, hrun'⟩, ht, hfree, ?_⟩
  · intro x hx
    exact (List.mem_append.mp hx).elim (hxs x) (hys x)
  · intro p hp
    have hp' := hsame p hp
    rw [hsame' p (hp' ▸ hp), hp']

/-- A step of an actor above the lock may come first. -/
theorem Frees.of_step {x : Label P L W} {owner : L → Option P} {a : Actor L W} (hx : x.Inner R)
    (hstep : step s x = some (s.put q owner a)) (hq : Above R l (s.actors q))
    (h : Frees R (s.put q owner a) l) : Frees R s l := by
  refine h.after [x] (by simpa using hx) ((exec_cons_iff _).mpr ⟨_, hstep, rfl⟩) ?_
  intro p hp
  refine State.put_actors_of_ne ?_
  rintro rfl
  exact hp hq

end Progress

end RankedLocks
