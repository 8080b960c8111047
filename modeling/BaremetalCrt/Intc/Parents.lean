import BaremetalCrt.Intc.Handlers
import Mathlib.Data.Fintype.Sum
import Mathlib.Data.Finset.Card

/-!
# Devices below several interrupt controllers

A PLIC, a CLINT and the timer of a CLINT add a handler from a common pool to each of the
controllers in their configuration. When a controller is not probed yet, the callback
returns with the handlers that it has added so far, and the framework calls it again later.

## Implementation notes

The parts of a callback before its loop over the controllers are given by their results.
The driver of a handler from the pool is the device that its `priv` field points to.
-/

namespace BaremetalCrt

open LabelledSystem

/-- The drivers with a loop over their controllers. -/
inductive ParentDriver where
  | plic | clint | clintTimer

/-- The controllers and the devices below them: the driver of each, the controllers and
interrupt numbers in the configuration of a device, and the controller that it is. -/
structure ParentBoard (I D : Type) where
  kind : I → IntcKind
  driver : D → ParentDriver
  parents : D → List (I × Int)
  intcOf : D → Option I

/-- The handlers, the pool with the device of each entry, which controllers are probed, and
what the callback of a device returned last, unless it is to be called again. `U` are the
handlers of other drivers. -/
structure ParentSys (I D U : Type) (M : Nat) where
  intc : IntcState I (Fin M ⊕ U)
  stat : Fin M → Bool
  owner : Fin M → Option D
  probed : I → Bool
  result : D → Option Int

/-- The results of the parts of a callback before its loop. -/
structure StageResults where
  clk : Int
  freq : Int
  enable : Int
  mmap : Int
  conf : Int

variable {I D U : Type} {M : Nat} [DecidableEq I] [DecidableEq D] [Fintype U] [DecidableEq U]

def ParentSys.boot : ParentSys I D U M where
  intc := IntcState.boot
  stat := fun _ => false
  owner := fun _ => none
  probed := fun _ => false
  result := fun _ => none

/-- `k_event_alloc_handler`: the first entry that is not in use. -/
def kEventAllocHandler (s : ParentSys I D U M) : Option (Fin M) :=
  (List.finRange M).find? fun i => !s.stat i

/-- An entry of the pool is in use, for a device. -/
def ParentSys.take (s : ParentSys I D U M) (i : Fin M) (d : D) : ParentSys I D U M :=
  { s with stat := Function.update s.stat i true, owner := Function.update s.owner i (some d) }

variable (board : ParentBoard I D)

/-- One round of the loop. -/
def registerParent (d : D) (p : I × Int) (s : ParentSys I D U M) : ParentSys I D U M × Int :=
  if s.probed p.1 = false then (s, -eagain)
  else
    match kEventAllocHandler s with
    | none => (s, -enomem)
    | some i =>
        let out := kIntcAddHandler board.kind p.1 p.2 (.inl i) s.intc
        ({ s.take i d with intc := out.1 }, out.2)

/-- The loop over the controllers. -/
def registerParents (d : D) : List (I × Int) → ParentSys I D U M → ParentSys I D U M × Int
  | [], s => (s, 0)
  | p :: ps, s => onSuccess (registerParent board d p s) (registerParents d ps)

/-- The loop after parts of the callback that return the first error. -/
def registerAfter (stages : List Int) (d : D) (s : ParentSys I D U M) : ParentSys I D U M × Int :=
  match stages.find? (· ≠ 0) with
  | some r => (s, r)
  | none => registerParents board d (board.parents d) s

/-- `intc_plic_add`; what follows the loop does not fail. -/
def intcPlicAdd (d : D) (r : StageResults) (s : ParentSys I D U M) : ParentSys I D U M × Int :=
  registerAfter board [r.mmap, r.conf] d s

/-- `intc_clint_add`. -/
def intcClintAdd (d : D) (r : StageResults) (s : ParentSys I D U M) : ParentSys I D U M × Int :=
  registerAfter board [r.mmap, r.conf] d s

/-- `timer_clint_add`. -/
def timerClintAdd (d : D) (r : StageResults) (s : ParentSys I D U M) : ParentSys I D U M × Int :=
  registerAfter board [r.clk, r.freq, r.enable, r.mmap, r.conf] d s

/-- The callback of the driver of a device. -/
def parentAdd (d : D) (r : StageResults) (s : ParentSys I D U M) : ParentSys I D U M × Int :=
  match board.driver d with
  | .plic => intcPlicAdd board d r s
  | .clint => intcClintAdd board d r s
  | .clintTimer => timerClintAdd board d r s

/-- The driver takes the controller that the device is. -/
def ParentSys.attach (s : ParentSys I D U M) : Option I → ParentSys I D U M
  | none => s
  | some c => { s with intc := { s.intc with drv := Function.update s.intc.drv c true } }

/-- The framework notes a result other than `-EAGAIN`. -/
def ParentSys.finish (s : ParentSys I D U M) (d : D) (c : Option I) (r : Int) :
    ParentSys I D U M :=
  { s with
    result := Function.update s.result d (some r)
    probed := fun c' => s.probed c' || (decide (r = 0) && decide (c = some c')) }

/-- Events of the boot: a controller of a hart is probed, another driver adds a handler of its
own, or the callback of a device is called. -/
inductive ParentEvent (I D U : Type) where
  | probe (c : I) (cpu : Int)
  | add (c : I) (event : Int) (handler : U)
  | attempt (d : D) (r : StageResults)

def parentStep (s : ParentSys I D U M) : ParentEvent I D U → Option (ParentSys I D U M)
  | .probe c cpu =>
      if board.kind c = .priv then
        (intcStep board.kind s.intc (.probe c cpu)).map fun intc =>
          { s with intc := intc, probed := fun c' => s.probed c' || decide (c' ∈ intc.order) }
      else none
  | .add c event handler =>
      (intcStep board.kind s.intc (.add c event (.inr handler))).map fun intc =>
        { s with intc := intc }
  | .attempt d r =>
      if s.result d = none then
        let out := parentAdd board d r (s.attach (board.intcOf d))
        if out.2 = -eagain then some out.1 else some (out.1.finish d (board.intcOf d) out.2)
      else none

/-- The handler is one of a device. -/
def ParentSys.owns (s : ParentSys I D U M) (d : D) : Fin M ⊕ U → Bool
  | .inl i => s.owner i = some d
  | .inr _ => false

/-- Entries of the pool that are in use for a device. -/
def ParentSys.used (s : ParentSys I D U M) (d : D) : Finset (Fin M) :=
  Finset.univ.filter fun i => s.stat i = true ∧ s.owner i = some d

def ParentSys.inUse (s : ParentSys I D U M) (d : D) : Nat := (s.used d).card

/-- Each controller of a device has one handler of it, and as many entries of the pool are in
use for the device as it has controllers. -/
def RegisteredOnce (s : ParentSys I D U M) (d : D) : Prop :=
  (∀ p ∈ board.parents d, (s.intc.handlersAt board.kind p.1).countP (s.owns d) = 1) ∧
    s.inUse d = (board.parents d).length

/-- Whether a callback gets to its loop. -/
def ReachesLoop (d : D) (r : StageResults) : Prop :=
  match board.driver d with
  | .plic | .clint => r.mmap = 0 ∧ r.conf = 0
  | .clintTimer => r.clk = 0 ∧ r.freq = 0 ∧ r.enable = 0 ∧ r.mmap = 0 ∧ r.conf = 0

instance (d : D) (r : StageResults) : Decidable (ReachesLoop board d r) :=
  match h : board.driver d with
  | .plic => decidable_of_iff (r.mmap = 0 ∧ r.conf = 0) (by simp [ReachesLoop, h])
  | .clint => decidable_of_iff (r.mmap = 0 ∧ r.conf = 0) (by simp [ReachesLoop, h])
  | .clintTimer =>
      decidable_of_iff (r.clk = 0 ∧ r.freq = 0 ∧ r.enable = 0 ∧ r.mmap = 0 ∧ r.conf = 0)
        (by simp [ReachesLoop, h])

/-- An attempt that gets to its loop finds all controllers probed, or not even the first. -/
def CleanAttempt (d : D) (s : ParentSys I D U M) : ParentEvent I D U → Prop
  | .attempt d' r => d' = d → ReachesLoop board d r →
      (∀ p ∈ board.parents d, s.probed p.1 = true) ∨
        ∀ p ∈ (board.parents d).head?, s.probed p.1 = false
  | .probe .. | .add .. => True

instance (d : D) (s : ParentSys I D U M) : ∀ ev, Decidable (CleanAttempt board d s ev)
  | .attempt d' r => inferInstanceAs (Decidable (d' = d → ReachesLoop board d r →
      (∀ p ∈ board.parents d, s.probed p.1 = true) ∨
        ∀ p ∈ (board.parents d).head?, s.probed p.1 = false))
  | .probe .. | .add .. => isTrue trivial

section Accounts

variable {board} {s s' s'' : ParentSys I D U M} {d : D}

/-- The controllers at which a device has entered a handler, the last one first. -/
def ParentSys.entries (s : ParentSys I D U M) (d : D) : List I :=
  (s.intc.log.filter fun x => s.owns d x.2.2).map Prod.fst

/-- The handlers are consistent and free entries of the pool are nowhere. -/
structure PoolInv (board : ParentBoard I D) (s : ParentSys I D U M) : Prop where
  handlers : HandlersInv board.kind s.intc
  free_owner : ∀ i, s.stat i = false → s.owner i = none
  free_added : ∀ i, s.stat i = false → Sum.inl i ∉ s.intc.added

omit [DecidableEq D] [DecidableEq I] [DecidableEq U] in
theorem PoolInv.boot : PoolInv board (ParentSys.boot : ParentSys I D U M) where
  handlers := HandlersInv.boot
  free_owner := fun _ _ => rfl
  free_added := fun _ _ => List.not_mem_nil

/-- What the callback of one device leaves alone. -/
structure OthersKept (board : ParentBoard I D) (d : D) (s s' : ParentSys I D U M) : Prop where
  inv : PoolInv board s'
  probed : s'.probed = s.probed
  result : s'.result = s.result
  entries : ∀ d', d' ≠ d → s'.entries d' = s.entries d'
  inUse : ∀ d', d' ≠ d → s'.inUse d' = s.inUse d'

/-- The callback entered handlers at controllers, in this order. -/
structure EnteredAt (board : ParentBoard I D) (d : D) (cs : List I) (s s' : ParentSys I D U M) :
    Prop extends OthersKept board d s s' where
  own_entries : s'.entries d = cs.reverse ++ s.entries d
  own_inUse : s'.inUse d = s.inUse d + cs.length

omit [DecidableEq I] [DecidableEq U] in
theorem OthersKept.trans (h : OthersKept board d s s') (h' : OthersKept board d s' s'') :
    OthersKept board d s s'' where
  inv := h'.inv
  probed := h'.probed.trans h.probed
  result := h'.result.trans h.result
  entries := fun d' hd => (h'.entries d' hd).trans (h.entries d' hd)
  inUse := fun d' hd => (h'.inUse d' hd).trans (h.inUse d' hd)

omit [DecidableEq I] [DecidableEq U] in
theorem EnteredAt.refl (h : PoolInv board s) : EnteredAt board d [] s s where
  inv := h
  probed := rfl
  result := rfl
  entries := fun _ _ => rfl
  inUse := fun _ _ => rfl
  own_entries := rfl
  own_inUse := rfl

omit [DecidableEq I] [DecidableEq U] in
theorem EnteredAt.trans {cs cs' : List I} (h : EnteredAt board d cs s s')
    (h' : EnteredAt board d cs' s' s'') : EnteredAt board d (cs ++ cs') s s'' where
  toOthersKept := h.toOthersKept.trans h'.toOthersKept
  own_entries := by
    rw [h'.own_entries, h.own_entries, List.reverse_append, List.append_assoc]
  own_inUse := by
    rw [h'.own_inUse, h.own_inUse, List.length_append, Nat.add_assoc]

omit [DecidableEq I] [DecidableEq D] [Fintype U] [DecidableEq U] in
theorem kEventAllocHandler_free {i : Fin M} (h : kEventAllocHandler s = some i) :
    s.stat i = false := by
  simpa using List.find?_some h

omit [DecidableEq I] [DecidableEq U] in
/-- Taking a free entry changes the owner of no handler that is in a list. -/
theorem PoolInv.owns_take (h : PoolInv board s) {i : Fin M} (hi : s.stat i = false)
    {x : I × Int × (Fin M ⊕ U)} (hx : x ∈ s.intc.log) (d d' : D) :
    (s.take i d).owns d' x.2.2 = s.owns d' x.2.2 := by
  cases hh : x.2.2 with
  | inr u => rfl
  | inl j =>
      have hji : j ≠ i := by
        rintro rfl
        exact h.free_added j hi (List.mem_map.mpr ⟨x, hx, hh⟩)
      simp [ParentSys.owns, ParentSys.take, Function.update_of_ne hji]

omit [DecidableEq I] [DecidableEq U] in
theorem PoolInv.entries_take (h : PoolInv board s) {i : Fin M} (hi : s.stat i = false) (d d' : D) :
    (s.take i d).entries d' = s.entries d' := by
  unfold ParentSys.entries
  congr 1
  apply List.filter_congr
  intro x hx
  exact h.owns_take hi hx d d'

omit [DecidableEq I] [Fintype U] [DecidableEq U] in
theorem ParentSys.mem_used {i : Fin M} :
    i ∈ s.used d ↔ s.stat i = true ∧ s.owner i = some d := by
  simp [ParentSys.used]

omit [DecidableEq I] [Fintype U] [DecidableEq U] in
theorem inUse_take_self {i : Fin M} (hi : s.stat i = false) (d : D) :
    (s.take i d).inUse d = s.inUse d + 1 := by
  have hnot : i ∉ s.used d := by simp [ParentSys.mem_used, hi]
  have hset : (s.take i d).used d = insert i (s.used d) := by
    ext j
    rw [Finset.mem_insert, ParentSys.mem_used, ParentSys.mem_used]
    by_cases hj : j = i
    · simp [hj, ParentSys.take]
    · simp [hj, ParentSys.take]
  rw [ParentSys.inUse, hset, Finset.card_insert_of_notMem hnot]
  rfl

omit [DecidableEq I] [Fintype U] [DecidableEq U] in
theorem inUse_take_of_ne {i : Fin M} (hi : s.stat i = false) {d d' : D} (hd : d' ≠ d) :
    (s.take i d).inUse d' = s.inUse d' := by
  unfold ParentSys.inUse
  congr 1
  ext j
  rw [ParentSys.mem_used, ParentSys.mem_used]
  by_cases hj : j = i
  · simp [hj, ParentSys.take, hi, Ne.symm hd]
  · simp [hj, ParentSys.take]

/-- How a round of the loop ends. -/
inductive RoundOutcome (board : ParentBoard I D) (d : D) (p : I × Int) (s : ParentSys I D U M) :
    ParentSys I D U M × Int → Prop
  | entered (s' : ParentSys I D U M) (hp : s.probed p.1 = true)
      (h : EnteredAt board d [p.1] s s') : RoundOutcome board d p s (s', 0)
  | again (hp : s.probed p.1 = false) : RoundOutcome board d p s (s, -eagain)
  | error (s' : ParentSys I D U M) (r : Int) (hr : r ≠ 0) (hagain : r ≠ -eagain)
      (h : OthersKept board d s s') : RoundOutcome board d p s (s', r)

/-- An entry that is free after one was taken is another one and was free before. -/
theorem free_of_take {stat : Fin M → Bool} {i j : Fin M}
    (hj : Function.update stat i true j = false) : j ≠ i ∧ stat j = false := by
  have hji : j ≠ i := by
    rintro rfl
    exact absurd ((Function.update_self ..).symm.trans hj) (by simp)
  exact ⟨hji, (Function.update_of_ne hji ..).symm.trans hj⟩

omit [DecidableEq I] [DecidableEq U] in
/-- Taking an entry that is then not used for a list. -/
theorem PoolInv.take (h : PoolInv board s) {i : Fin M} (hi : s.stat i = false) (d : D) :
    OthersKept board d s (s.take i d) where
  inv := by
    refine ⟨h.handlers, ?_, ?_⟩
    · intro j hj
      obtain ⟨hji, hstat⟩ := free_of_take hj
      exact (Function.update_of_ne hji ..).trans (h.free_owner j hstat)
    · intro j hj
      exact h.free_added j (free_of_take hj).2
  probed := rfl
  result := rfl
  entries := fun d' _ => h.entries_take hi d d'
  inUse := fun _ hd => inUse_take_of_ne hi hd

omit [DecidableEq I] [DecidableEq U] in
/-- Taking an entry and entering it at a controller. -/
theorem PoolInv.enter (h : PoolInv board s) {i : Fin M} (hi : s.stat i = false) (d : D)
    {p : I × Int} {intc : IntcState I (Fin M ⊕ U)} (hintc : HandlersInv board.kind intc)
    (hlog : intc.log = (p.1, p.2, .inl i) :: s.intc.log) :
    EnteredAt board d [p.1] s { s.take i d with intc := intc } := by
  have htake := h.take hi d
  have howns : ∀ d', (s.take i d).owns d' (.inl i) = decide (d' = d) := by
    intro d'
    simp [ParentSys.owns, ParentSys.take, eq_comm]
  have hentries : ∀ d', ({ s.take i d with intc := intc } : ParentSys I D U M).entries d' =
      (if d' = d then [p.1] else []) ++ s.entries d' := by
    intro d'
    rw [← h.entries_take hi d d']
    change (intc.log.filter fun x => (s.take i d).owns d' x.2.2).map Prod.fst =
      _ ++ (s.intc.log.filter fun x => (s.take i d).owns d' x.2.2).map Prod.fst
    rw [hlog, List.filter_cons, howns]
    by_cases hd : d' = d
    · simp [hd]
    · simp [hd]
  refine ⟨⟨⟨hintc, htake.inv.free_owner, ?_⟩, rfl, rfl, ?_, htake.inUse⟩, ?_, ?_⟩
  · intro j hj hmem
    obtain ⟨hji, -⟩ := free_of_take hj
    have hadded : (Sum.inl j : Fin M ⊕ U) ∈ (.inl i) :: s.intc.added := by
      simpa [IntcState.added, hlog] using hmem
    rcases List.mem_cons.mp hadded with heq | hold
    · exact hji (Sum.inl.inj heq)
    · exact htake.inv.free_added j hj hold
  · intro d' hd
    rw [hentries, if_neg hd]
    rfl
  · rw [hentries, if_pos rfl]
    rfl
  · exact inUse_take_self hi d

theorem registerParent_outcome (hinv : PoolInv board s) (d : D) (p : I × Int) :
    RoundOutcome board d p s (registerParent board d p s) := by
  unfold registerParent
  split
  · rename_i hp
    exact .again hp
  · rename_i hp
    have hprobed : s.probed p.1 = true := by simpa using hp
    cases halloc : kEventAllocHandler s with
    | none => exact .error s _ (by decide) (by decide) (EnteredAt.refl hinv).toOthersKept
    | some i =>
        have hi := kEventAllocHandler_free halloc
        have hkeep := hinv.handlers.kIntcAddHandler p.1 p.2 (hinv.free_added i hi)
        have houtcome := kIntcAddHandler_outcome board.kind p.1 p.2 (.inl i) s.intc
        dsimp only
        generalize kIntcAddHandler board.kind p.1 p.2 (.inl i) s.intc = out at hkeep houtcome
        cases houtcome with
        | failed r hr hagain => exact .error _ r hr hagain (hinv.take hi d)
        | listed l hkind hl => exact .entered _ hprobed (hinv.enter hi d hkeep rfl)
        | placed hkind hlow hhigh hfree => exact .entered _ hprobed (hinv.enter hi d hkeep rfl)

/-- How the loop ends. -/
inductive LoopOutcome (board : ParentBoard I D) (d : D) (ps : List (I × Int))
    (s : ParentSys I D U M) : ParentSys I D U M × Int → Prop
  | done (s' : ParentSys I D U M) (hall : ∀ p ∈ ps, s.probed p.1 = true)
      (h : EnteredAt board d (ps.map Prod.fst) s s') : LoopOutcome board d ps s (s', 0)
  | again (s' : ParentSys I D U M) (hnot : ¬ ∀ p ∈ ps, s.probed p.1 = true)
      (h : EnteredAt board d ((ps.takeWhile fun p => s.probed p.1).map Prod.fst) s s') :
      LoopOutcome board d ps s (s', -eagain)
  | error (s' : ParentSys I D U M) (r : Int) (hr : r ≠ 0) (hagain : r ≠ -eagain)
      (h : OthersKept board d s s') : LoopOutcome board d ps s (s', r)

theorem registerParents_outcome (hinv : PoolInv board s) (d : D) (ps : List (I × Int)) :
    LoopOutcome board d ps s (registerParents board d ps s) := by
  induction ps generalizing s with
  | nil => exact .done s (by simp) (EnteredAt.refl hinv)
  | cons p ps ih =>
      have hround := registerParent_outcome hinv d p
      unfold registerParents
      generalize registerParent board d p s = out at hround
      cases hround with
      | again hp =>
          refine .again s (fun hall => ?_) ?_
          · exact absurd ((hall p (List.mem_cons_self ..)).symm.trans hp) (by simp)
          · rw [List.takeWhile_cons_of_neg (by simp [hp])]
            exact EnteredAt.refl hinv
      | error s' r hr hagain h =>
          rw [onSuccess, if_neg hr]
          exact .error s' r hr hagain h
      | entered s' hp h =>
          have hrest := ih h.inv
          rw [onSuccess, if_pos rfl]
          dsimp only
          generalize registerParents board d ps s' = out at hrest
          cases hrest with
          | done t hall h' =>
              rw [h.probed] at hall
              exact .done t (List.forall_mem_cons.mpr ⟨hp, hall⟩) (h.trans h')
          | again t hnot h' =>
              rw [h.probed] at hnot h'
              refine .again t (fun hall => hnot (List.forall_mem_cons.mp hall).2) ?_
              rw [List.takeWhile_cons_of_pos (by simp [hp])]
              exact h.trans h'
          | error t r hr hagain h' => exact .error t r hr hagain (h.toOthersKept.trans h')

omit [DecidableEq D] in
/-- A callback either returns an error of an earlier part or runs its loop. -/
theorem parentAdd_cases (board : ParentBoard I D) (d : D) (r : StageResults)
    (s : ParentSys I D U M) :
    ReachesLoop board d r ∧ parentAdd board d r s = registerParents board d (board.parents d) s ∨
      ¬ ReachesLoop board d r ∧ ∃ e, e ≠ 0 ∧ parentAdd board d r s = (s, e) := by
  have hstages : ∀ stages : List Int,
      (∀ x ∈ stages, x = 0) ∧
          registerAfter board stages d s = registerParents board d (board.parents d) s ∨
        ¬ (∀ x ∈ stages, x = 0) ∧ ∃ e, e ≠ 0 ∧ registerAfter board stages d s = (s, e) := by
    intro stages
    unfold registerAfter
    cases hfind : stages.find? (· ≠ 0) with
    | none =>
        refine Or.inl ⟨?_, rfl⟩
        simpa using List.find?_eq_none.mp hfind
    | some e =>
        have he : e ≠ 0 := by simpa using List.find?_some hfind
        exact Or.inr ⟨fun hall => he (hall e (List.mem_of_find?_eq_some hfind)), e, he, rfl⟩
  unfold parentAdd ReachesLoop
  cases board.driver d with
  | plic => simpa [intcPlicAdd] using hstages [r.mmap, r.conf]
  | clint => simpa [intcClintAdd] using hstages [r.mmap, r.conf]
  | clintTimer =>
      simpa [timerClintAdd] using hstages [r.clk, r.freq, r.enable, r.mmap, r.conf]

/-- A device that is not given up has its entries of the pool at its controllers. -/
structure ParentInv (board : ParentBoard I D) (s : ParentSys I D U M) : Prop
    extends PoolInv board s where
  account : ∀ d, s.result d = none ∨ s.result d = some 0 → s.inUse d = (s.entries d).length

omit [DecidableEq I] [DecidableEq U] in
theorem ParentInv.boot : ParentInv board (ParentSys.boot : ParentSys I D U M) where
  toPoolInv := PoolInv.boot
  account := by
    intro d _
    have hnone : (ParentSys.boot : ParentSys I D U M).used d = ∅ := by
      ext i
      simp [ParentSys.mem_used, ParentSys.boot]
    rw [ParentSys.inUse, hnone]
    rfl

omit [DecidableEq U] in
/-- The driver of a controller does not matter to the accounts. -/
theorem ParentInv.attach (h : ParentInv board s) (c : Option I) :
    ParentInv board (s.attach c) := by
  cases c with
  | none => exact h
  | some c =>
      have hh := h.handlers
      exact ⟨⟨⟨hh.lists, hh.parent_iff, hh.slot_iff, hh.accepts, hh.event, hh.nodup, hh.table,
        hh.order_priv⟩, h.free_owner, h.free_added⟩, h.account⟩

omit [Fintype U] [DecidableEq U] in
theorem attach_entries (s : ParentSys I D U M) (c : Option I) (d : D) :
    (s.attach c).entries d = s.entries d := by
  cases c <;> rfl

omit [DecidableEq D] [Fintype U] [DecidableEq U] in
theorem attach_probed (s : ParentSys I D U M) (c : Option I) :
    (s.attach c).probed = s.probed := by
  cases c <;> rfl

omit [DecidableEq D] [Fintype U] [DecidableEq U] in
theorem attach_result (s : ParentSys I D U M) (c : Option I) :
    (s.attach c).result = s.result := by
  cases c <;> rfl

/-- What an event means to a device. -/
inductive DeviceMove (board : ParentBoard I D) (d : D) (s : ParentSys I D U M) :
    ParentEvent I D U → ParentSys I D U M → Prop
  | quiet (ev : ParentEvent I D U) (s' : ParentSys I D U M)
      (hev : ∀ r, ev = .attempt d r → ¬ ReachesLoop board d r)
      (hentries : s'.entries d = s.entries d) (hresult : s'.result d = s.result d) :
      DeviceMove board d s ev s'
  | failed (ev : ParentEvent I D U) (s' : ParentSys I D U M) (e : Int) (he : e ≠ 0)
      (hresult : s'.result d = some e) : DeviceMove board d s ev s'
  | again (r : StageResults) (s' : ParentSys I D U M) (hnone : s.result d = none)
      (hloop : ReachesLoop board d r)
      (hnot : ¬ ∀ p ∈ board.parents d, s.probed p.1 = true)
      (hentries : s'.entries d =
        (((board.parents d).takeWhile fun p => s.probed p.1).map Prod.fst).reverse ++ s.entries d)
      (hresult : s'.result d = none) : DeviceMove board d s (.attempt d r) s'
  | done (r : StageResults) (s' : ParentSys I D U M) (hnone : s.result d = none)
      (hall : ∀ p ∈ board.parents d, s.probed p.1 = true)
      (hentries : s'.entries d = ((board.parents d).map Prod.fst).reverse ++ s.entries d)
      (hresult : s'.result d = some 0) : DeviceMove board d s (.attempt d r) s'

omit [DecidableEq I] [DecidableEq U] in
/-- The accounts after a callback that is to be called again. -/
theorem ParentInv.entered (h : ParentInv board s) {cs : List I} (hent : EnteredAt board d cs s s')
    (hnone : s.result d = none) : ParentInv board s' where
  toPoolInv := hent.inv
  account := by
    intro d' hd'
    rw [hent.result] at hd'
    by_cases hd : d' = d
    · subst hd
      rw [hent.own_inUse, hent.own_entries, h.account d' (Or.inl hnone)]
      simp [Nat.add_comm]
    · rw [hent.inUse d' hd, hent.entries d' hd]
      exact h.account d' hd'

omit [DecidableEq U] in
/-- The accounts after a callback that was given up. -/
theorem ParentInv.finish_error (h : ParentInv board s) (hkept : OthersKept board d s s')
    (c : Option I) {e : Int} (he : e ≠ 0) : ParentInv board (s'.finish d c e) where
  toPoolInv := ⟨hkept.inv.handlers, hkept.inv.free_owner, hkept.inv.free_added⟩
  account := by
    intro d' hd'
    by_cases hd : d' = d
    · subst hd
      have hres : (s'.finish d' c e).result d' = some e := Function.update_self ..
      rw [hres] at hd'
      simp [he] at hd'
    · have hres : (s'.finish d c e).result d' = s.result d' :=
        (Function.update_of_ne hd ..).trans (congrFun hkept.result d')
      rw [hres] at hd'
      change s'.inUse d' = (s'.entries d').length
      rw [hkept.inUse d' hd, hkept.entries d' hd]
      exact h.account d' hd'

omit [DecidableEq U] in
/-- The accounts after a callback that succeeded. -/
theorem ParentInv.finish_zero (h : ParentInv board s) {cs : List I}
    (hent : EnteredAt board d cs s s') (hnone : s.result d = none) (c : Option I) :
    ParentInv board (s'.finish d c 0) where
  toPoolInv := ⟨hent.inv.handlers, hent.inv.free_owner, hent.inv.free_added⟩
  account := by
    intro d' hd'
    change s'.inUse d' = (s'.entries d').length
    have hent' := h.entered hent hnone
    by_cases hd : d' = d
    · subst hd
      apply hent'.account
      rw [hent.result]
      exact Or.inl hnone
    · have hres : (s'.finish d c 0).result d' = s'.result d' := Function.update_of_ne hd ..
      rw [hres] at hd'
      exact hent'.account d' hd'

/-- What an attempt can come to, `t` being the state after the callback. -/
inductive AttemptOutcome (board : ParentBoard I D) (d : D) (r : StageResults)
    (s : ParentSys I D U M) : ParentSys I D U M → Prop
  | blocked (hloop : ¬ ReachesLoop board d r) :
      AttemptOutcome board d r s (s.attach (board.intcOf d))
  | again (t : ParentSys I D U M) (hloop : ReachesLoop board d r)
      (hnot : ¬ ∀ p ∈ board.parents d, s.probed p.1 = true)
      (h : EnteredAt board d (((board.parents d).takeWhile fun p => s.probed p.1).map Prod.fst)
        (s.attach (board.intcOf d)) t) : AttemptOutcome board d r s t
  | done (t : ParentSys I D U M) (hall : ∀ p ∈ board.parents d, s.probed p.1 = true)
      (h : EnteredAt board d ((board.parents d).map Prod.fst) (s.attach (board.intcOf d)) t) :
      AttemptOutcome board d r s (t.finish d (board.intcOf d) 0)
  | failed (t : ParentSys I D U M) (e : Int) (he : e ≠ 0)
      (h : OthersKept board d (s.attach (board.intcOf d)) t) :
      AttemptOutcome board d r s (t.finish d (board.intcOf d) e)

theorem attempt_outcome (h : ParentInv board s) {r : StageResults}
    (hstep : parentStep board s (.attempt d r) = some s') :
    s.result d = none ∧ AttemptOutcome board d r s s' := by
  simp only [parentStep] at hstep
  split at hstep
  case isFalse => cases hstep
  rename_i hnone
  refine ⟨hnone, ?_⟩
  have hinv := (h.attach (board.intcOf d)).toPoolInv
  rcases parentAdd_cases board d r (s.attach (board.intcOf d)) with
    ⟨hreach, hadd⟩ | ⟨hblock, e, he, hadd⟩
  · have hloop := registerParents_outcome hinv d (board.parents d)
    rw [hadd] at hstep
    generalize registerParents board d (board.parents d) (s.attach (board.intcOf d)) = out
      at hloop hstep
    cases hloop with
    | done t hall hent =>
        rw [attach_probed] at hall
        obtain rfl := Option.some.inj hstep
        exact .done t hall hent
    | again t hnot hent =>
        rw [attach_probed] at hnot hent
        obtain rfl := Option.some.inj hstep
        exact .again _ hreach hnot hent
    | error t e he hagain hkept =>
        rw [if_neg hagain] at hstep
        obtain rfl := Option.some.inj hstep
        exact .failed t e he hkept
  · rw [hadd] at hstep
    dsimp only at hstep
    split at hstep
    · obtain rfl := Option.some.inj hstep
      exact .blocked hblock
    · obtain rfl := Option.some.inj hstep
      exact .failed _ e he (EnteredAt.refl hinv).toOthersKept

theorem ParentInv.attempt (h : ParentInv board s) {r : StageResults}
    (hstep : parentStep board s (.attempt d r) = some s') : ParentInv board s' := by
  obtain ⟨hnone, hout⟩ := attempt_outcome h hstep
  have hatt := h.attach (board.intcOf d)
  have hnone' : (s.attach (board.intcOf d)).result d = none := by
    rw [attach_result]
    exact hnone
  cases hout with
  | blocked hloop => exact hatt
  | again t hreach hnot hent => exact hatt.entered hent hnone'
  | done t hall hent => exact hatt.finish_zero hent hnone' (board.intcOf d)
  | failed t e he hkept => exact hatt.finish_error hkept (board.intcOf d) he

/-- An attempt means nothing to other devices. -/
theorem attempt_other (h : ParentInv board s) {r : StageResults} {d' : D} (hd : d' ≠ d)
    (hstep : parentStep board s (.attempt d r) = some s') :
    s'.entries d' = s.entries d' ∧ s'.result d' = s.result d' := by
  obtain ⟨_, hout⟩ := attempt_outcome h hstep
  have hentries := attach_entries s (board.intcOf d) d'
  have hresult := congrFun (attach_result s (board.intcOf d)) d'
  cases hout with
  | blocked hloop => exact ⟨hentries, hresult⟩
  | again t hreach hnot hent =>
      exact ⟨(hent.entries d' hd).trans hentries, (congrFun hent.result d').trans hresult⟩
  | done t hall hent =>
      refine ⟨(hent.entries d' hd).trans hentries, ?_⟩
      exact (Function.update_of_ne hd ..).trans ((congrFun hent.result d').trans hresult)
  | failed t e he hkept =>
      refine ⟨(hkept.entries d' hd).trans hentries, ?_⟩
      exact (Function.update_of_ne hd ..).trans ((congrFun hkept.result d').trans hresult)

theorem attempt_move (h : ParentInv board s) {r : StageResults}
    (hstep : parentStep board s (.attempt d r) = some s') :
    DeviceMove board d s (.attempt d r) s' := by
  obtain ⟨hnone, hout⟩ := attempt_outcome h hstep
  have hentries := attach_entries s (board.intcOf d) d
  have hresult := congrFun (attach_result s (board.intcOf d)) d
  cases hout with
  | blocked hloop =>
      refine .quiet _ _ ?_ hentries hresult
      rintro r' ⟨⟩
      exact hloop
  | again t hreach hnot hent =>
      refine .again r _ hnone hreach hnot ?_ ?_
      · rw [hent.own_entries, hentries]
      · rw [hent.result, hresult, hnone]
  | done t hall hent =>
      refine .done r _ hnone hall ?_ (Function.update_self ..)
      exact hent.own_entries.trans (by rw [hentries])
  | failed t e he hkept => exact .failed _ _ e he (Function.update_self ..)

omit [DecidableEq I] [DecidableEq U] in
/-- The pool and the results are as before, and no entry of the pool was added. -/
theorem ParentInv.of_intc (h : ParentInv board s) {intc : IntcState I (Fin M ⊕ U)}
    {probed : I → Bool} (hintc : HandlersInv board.kind intc)
    (hlog : intc.log = s.intc.log ∨ ∃ c e u, intc.log = (c, e, .inr u) :: s.intc.log) :
    ParentInv board { s with intc := intc, probed := probed } ∧
      ∀ d, ({ s with intc := intc, probed := probed } : ParentSys I D U M).entries d =
        s.entries d := by
  have hentries : ∀ d, ({ s with intc := intc, probed := probed } : ParentSys I D U M).entries d =
      s.entries d := by
    intro d
    change (intc.log.filter fun x => s.owns d x.2.2).map Prod.fst = _
    rcases hlog with hsame | ⟨c, e, u, hcons⟩
    · rw [hsame]
      rfl
    · rw [hcons, List.filter_cons_of_neg (by simp [ParentSys.owns])]
      rfl
  have hadded : ∀ i, Sum.inl i ∈ intc.added → Sum.inl i ∈ s.intc.added := by
    intro i hi
    rcases hlog with hsame | ⟨c, e, u, hcons⟩
    · rwa [IntcState.added, hsame] at hi
    · simpa [IntcState.added, hcons] using hi
  refine ⟨⟨⟨hintc, h.free_owner, fun i hi hmem => h.free_added i hi (hadded i hmem)⟩, ?_⟩, hentries⟩
  intro d hd
  rw [hentries d]
  exact h.account d hd

/-- Every event keeps the accounts and means one of four things to a device. -/
theorem parentStep_move (h : ParentInv board s) {ev : ParentEvent I D U}
    (hstep : parentStep board s ev = some s') (d : D) :
    ParentInv board s' ∧ DeviceMove board d s ev s' := by
  cases ev with
  | probe c cpu =>
      simp only [parentStep] at hstep
      split at hstep
      case isFalse => cases hstep
      obtain ⟨intc, hintc, rfl⟩ := Option.map_eq_some_iff.mp hstep
      have hlog : intc.log = s.intc.log := by
        simp only [intcStep] at hintc
        split at hintc
        · cases hintc
        · obtain rfl := Option.some.inj hintc
          exact intcPrivAdd_log c cpu _
      obtain ⟨hinv, hentries⟩ := h.of_intc (h.handlers.step hintc) (Or.inl hlog)
      refine ⟨hinv, .quiet _ _ ?_ (hentries d) rfl⟩
      rintro r ⟨⟩
  | add c event handler =>
      simp only [parentStep] at hstep
      obtain ⟨intc, hintc, rfl⟩ := Option.map_eq_some_iff.mp hstep
      have hlog : intc.log = s.intc.log ∨ ∃ c e u, intc.log = (c, e, .inr u) :: s.intc.log := by
        simp only [intcStep] at hintc
        split at hintc
        · cases hintc
        · obtain rfl := Option.some.inj hintc
          rcases kIntcAddHandler_log board.kind c event (.inr handler) s.intc with hsame | hcons
          · exact Or.inl hsame
          · exact Or.inr ⟨c, event, handler, hcons⟩
      obtain ⟨hinv, hentries⟩ := h.of_intc (h.handlers.step hintc) hlog
      refine ⟨hinv, .quiet _ _ ?_ (hentries d) rfl⟩
      rintro r ⟨⟩
  | attempt d₀ r =>
      refine ⟨h.attempt hstep, ?_⟩
      by_cases hd : d = d₀
      · subst hd
        exact attempt_move h hstep
      · obtain ⟨hentries, hresult⟩ := attempt_other h hd hstep
        refine .quiet _ _ ?_ hentries hresult
        rintro r' ⟨⟩
        exact absurd rfl hd

end Accounts

end BaremetalCrt
