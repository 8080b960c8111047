import BaremetalCrt.Intc.Parents

/-!
# Retries of devices below several controllers

A callback that returned `-EAGAIN` in the middle of its loop has left handlers behind, and
the next call enters handlers at the same controllers again. The accounts of a device are
right in the end exactly if no attempt stopped in the middle.
-/

namespace BaremetalCrt

open LabelledSystem

variable {I D U : Type} {M : Nat} [DecidableEq I] [DecidableEq D] [Fintype U] [DecidableEq U]
  {board : ParentBoard I D} {s s' : ParentSys I D U M} {d : D}

omit [DecidableEq U] in
/-- The handlers of a device in the lists of a controller. -/
theorem ParentInv.countP_handlersAt (h : ParentInv board s) (d : D) (c : I) :
    (s.intc.handlersAt board.kind c).countP (s.owns d) = (s.entries d).count c := by
  rw [(h.handlers.handlersAt_perm c).countP_eq]
  simp only [ParentSys.entries, List.count_eq_countP, List.countP_map, List.countP_filter]
  apply List.countP_congr
  intro x _
  simp [and_comm]

omit [DecidableEq U] in
/-- The accounts in terms of the controllers at which handlers were entered. -/
theorem ParentInv.registeredOnce_iff (h : ParentInv board s) (hd : s.result d = some 0) :
    RegisteredOnce board s d ↔ (∀ p ∈ board.parents d, (s.entries d).count p.1 = 1) ∧
      (s.entries d).length = (board.parents d).length := by
  simp only [RegisteredOnce, h.countP_handlersAt, h.account d (Or.inr hd)]

theorem takeWhile_eq_nil_of_head {α : Type} {f : α → Bool} {l : List α}
    (h : ∀ a ∈ l.head?, f a = false) : l.takeWhile f = [] := by
  cases l with
  | nil => rfl
  | cons a l => exact List.takeWhile_cons_of_neg (by simp [h a rfl])

theorem head_of_takeWhile_eq_nil {α : Type} {f : α → Bool} {l : List α}
    (h : l.takeWhile f = []) (a : α) (ha : l.head? = some a) : f a = false := by
  cases l with
  | nil => exact nomatch ha
  | cons b l =>
      obtain rfl : b = a := Option.some.inj ha
      cases hf : f b with
      | false => rfl
      | true => simp [hf] at h

/-- A device that is still to be probed has no handler, and one that is probed has one at each
of its controllers. -/
structure CleanState (board : ParentBoard I D) (d : D) (s : ParentSys I D U M) : Prop
    extends ParentInv board s where
  pending : s.result d = none → s.entries d = []
  probed : s.result d = some 0 → s.entries d = ((board.parents d).map Prod.fst).reverse

/-- A device that is still to be probed has a handler already, and one that is probed has more
than it has controllers. -/
structure DirtyState (board : ParentBoard I D) (d : D) (s : ParentSys I D U M) : Prop
    extends ParentInv board s where
  pending : s.result d = none → s.entries d ≠ []
  probed : s.result d = some 0 → (board.parents d).length < (s.entries d).length

omit [DecidableEq I] [DecidableEq U] in
theorem CleanState.boot : CleanState board d (ParentSys.boot : ParentSys I D U M) where
  toParentInv := ParentInv.boot
  pending := fun _ => rfl
  probed := fun h => nomatch h

theorem CleanState.step (h : CleanState board d s) {ev : ParentEvent I D U}
    (hclean : CleanAttempt board d s ev) (hstep : parentStep board s ev = some s') :
    CleanState board d s' := by
  obtain ⟨hinv, hmove⟩ := parentStep_move h.toParentInv hstep d
  refine ⟨hinv, ?_, ?_⟩
  · intro hnone
    cases hmove with
    | quiet _ _ hev hentries hresult =>
        rw [hentries]
        exact h.pending (hresult.symm.trans hnone)
    | failed _ _ e he hresult => exact nomatch hnone.symm.trans hresult
    | again r _ hpend hreach hnot hentries hresult =>
        have hhead := (hclean rfl hreach).resolve_left hnot
        rw [hentries, takeWhile_eq_nil_of_head hhead]
        exact h.pending hpend
    | done r _ hpend hall hentries hresult => exact nomatch hnone.symm.trans hresult
  · intro hzero
    cases hmove with
    | quiet _ _ hev hentries hresult =>
        rw [hentries]
        exact h.probed (hresult.symm.trans hzero)
    | failed _ _ e he hresult => exact absurd (Option.some.inj (hresult.symm.trans hzero)) he
    | again r _ hpend hreach hnot hentries hresult => exact nomatch hzero.symm.trans hresult
    | done r _ hpend hall hentries hresult =>
        rw [hentries, h.pending hpend, List.append_nil]

omit [DecidableEq I] [DecidableEq D] [Fintype U] [DecidableEq U] in
theorem attempt_of_not_clean {ev : ParentEvent I D U} (h : ¬ CleanAttempt board d s ev) :
    ∃ r, ev = .attempt d r ∧ ReachesLoop board d r ∧
      (¬ ∀ p ∈ board.parents d, s.probed p.1 = true) ∧
      ∃ p ∈ (board.parents d).head?, s.probed p.1 = true := by
  cases ev with
  | probe c cpu => exact absurd trivial h
  | add c event handler => exact absurd trivial h
  | attempt d' r =>
      simp only [CleanAttempt, Classical.not_imp, not_or] at h
      obtain ⟨rfl, hreach, hnot, hhead⟩ := h
      refine ⟨r, rfl, hreach, hnot, ?_⟩
      simpa using hhead

/-- An attempt that stops in the middle leaves handlers behind. -/
theorem CleanState.broken (h : CleanState board d s) {ev : ParentEvent I D U}
    (hbreak : ¬ CleanAttempt board d s ev) (hstep : parentStep board s ev = some s') :
    DirtyState board d s' := by
  obtain ⟨hinv, hmove⟩ := parentStep_move h.toParentInv hstep d
  obtain ⟨r, rfl, hreach, hnot, p, hp, hprobed⟩ := attempt_of_not_clean hbreak
  cases hmove with
  | quiet _ _ hev hentries hresult => exact absurd hreach (hev r rfl)
  | failed _ _ e he hresult =>
      refine ⟨hinv, fun hnone => (nomatch hnone.symm.trans hresult), fun hzero => ?_⟩
      exact absurd (Option.some.inj (hresult.symm.trans hzero)) he
  | again _ _ hpend _ _ hentries hresult =>
      refine ⟨hinv, fun _ hnil => ?_, fun hzero => nomatch hzero.symm.trans hresult⟩
      rw [hentries] at hnil
      have hrev := (List.append_eq_nil_iff.mp hnil).1
      have htake := List.map_eq_nil_iff.mp (List.reverse_eq_nil_iff.mp hrev)
      exact absurd (head_of_takeWhile_eq_nil htake p hp) (by simp [hprobed])
  | done _ _ hpend hall hentries hresult => exact absurd hall hnot

theorem DirtyState.step (h : DirtyState board d s) {ev : ParentEvent I D U}
    (hstep : parentStep board s ev = some s') : DirtyState board d s' := by
  obtain ⟨hinv, hmove⟩ := parentStep_move h.toParentInv hstep d
  cases hmove with
  | quiet _ _ hev hentries hresult =>
      refine ⟨hinv, ?_, ?_⟩
      · rw [hentries, hresult]
        exact h.pending
      · rw [hentries, hresult]
        exact h.probed
  | failed _ _ e he hresult =>
      refine ⟨hinv, fun hnone => (nomatch hnone.symm.trans hresult), fun hzero => ?_⟩
      exact absurd (Option.some.inj (hresult.symm.trans hzero)) he
  | again r _ hpend hreach hnot hentries hresult =>
      refine ⟨hinv, fun _ hnil => ?_, fun hzero => nomatch hzero.symm.trans hresult⟩
      rw [hentries] at hnil
      exact h.pending hpend (List.append_eq_nil_iff.mp hnil).2
  | done r _ hpend hall hentries hresult =>
      refine ⟨hinv, fun hnone => (nomatch hnone.symm.trans hresult), fun _ => ?_⟩
      have hpos := List.length_pos_iff.mpr (h.pending hpend)
      rw [hentries, List.length_append, List.length_reverse, List.length_map]
      omega

/-- After any run of attempts in which the callback of a device finally returned 0: each of
its controllers has one handler of it and the pool as many entries, exactly if its
configuration names no controller twice and no attempt that got to its loop found the first
controller probed and another one not. -/
theorem registered_once_iff (board : ParentBoard I D) (events : List (ParentEvent I D U))
    (s : ParentSys I D U M) (hrun : exec (parentStep board) ParentSys.boot events = some s)
    (d : D) (hd : s.result d = some 0) :
    RegisteredOnce board s d ↔ ((board.parents d).map Prod.fst).Nodup ∧
      Along (parentStep board) (CleanAttempt board d) (ParentSys.boot : ParentSys I D U M)
        events := by
  have hcases := along_or_broken (A := fun _ _ => True) (J := CleanState board d)
    (I := DirtyState board d)
    (fun _ _ _ h _ hok hstep => h.step hok hstep)
    (fun _ _ _ h _ hbreak hstep => h.broken hbreak hstep) (fun _ _ _ h _ hstep => h.step hstep)
    CleanState.boot (Along.of_forall_mem fun _ _ => trivial) hrun
  rcases hcases with ⟨halong, hclean⟩ | ⟨hnot, hdirty⟩
  · rw [hclean.toParentInv.registeredOnce_iff hd, hclean.probed hd, List.nodup_iff_count_eq_one]
    simp [halong]
  · rw [hdirty.toParentInv.registeredOnce_iff hd]
    constructor
    · rintro ⟨_, hlen⟩
      exact absurd hlen (Nat.ne_of_gt (hdirty.probed hd))
    · rintro ⟨_, halong⟩
      exact absurd halong hnot

/-- A PLIC below two harts. -/
def plicBoard : ParentBoard (Fin 3) Unit where
  kind := fun c => if c = 2 then .plic else .priv
  driver := fun _ => .plic
  parents := fun _ => [(0, 11), (1, 11)]
  intcOf := fun _ => some 2

/-- All parts before the loop succeed. -/
def stagesOk : StageResults := ⟨0, 0, 0, 0, 0⟩

/-- The PLIC is tried between its two controllers and again after them. -/
def plicBetween : List (ParentEvent (Fin 3) Unit Empty) :=
  [.probe 0 0, .attempt () stagesOk, .probe 1 0, .attempt () stagesOk]

/-- The first controller has two handlers of the PLIC and three entries of the pool are used. -/
theorem plic_retry_registers_twice : ∃ s : ParentSys (Fin 3) Unit Empty 8,
    exec (parentStep plicBoard) ParentSys.boot plicBetween = some s ∧ s.result () = some 0 ∧
      (s.intc.handlersAt plicBoard.kind 0).countP (s.owns ()) = 2 ∧ s.inUse () = 3 ∧
      ¬ RegisteredOnce plicBoard s () := by
  have heval : (exec (parentStep plicBoard) (ParentSys.boot : ParentSys (Fin 3) Unit Empty 8)
      plicBetween).map (fun s => (s.result (),
        (s.intc.handlersAt plicBoard.kind 0).countP (s.owns ()), s.inUse ())) =
        some (some 0, 2, 3) := by
    decide +kernel
  obtain ⟨s, hs, hvals⟩ := Option.map_eq_some_iff.mp heval
  simp only [Prod.mk.injEq] at hvals
  obtain ⟨hresult, hcount, huse⟩ := hvals
  refine ⟨s, hs, hresult, hcount, huse, ?_⟩
  intro honce
  exact absurd (huse.symm.trans honce.2) (by decide)

/-- A PLIC that is tried before and after both of its controllers. -/
def plicAround : List (ParentEvent (Fin 3) Unit Empty) :=
  [.attempt () stagesOk, .probe 0 0, .probe 1 0, .attempt () stagesOk]

theorem registered_once_iff_around : ∃ s : ParentSys (Fin 3) Unit Empty 8,
    exec (parentStep plicBoard) ParentSys.boot plicAround = some s ∧ s.result () = some 0 ∧
      RegisteredOnce plicBoard s () := by
  have heval : (exec (parentStep plicBoard) (ParentSys.boot : ParentSys (Fin 3) Unit Empty 8)
      plicAround).map (fun s => s.result ()) = some (some 0) := by
    decide +kernel
  obtain ⟨s, hs, hresult⟩ := Option.map_eq_some_iff.mp heval
  refine ⟨s, hs, hresult, (registered_once_iff plicBoard plicAround s hs () hresult).mpr ⟨?_, ?_⟩⟩
  · decide
  · decide +kernel

end BaremetalCrt
