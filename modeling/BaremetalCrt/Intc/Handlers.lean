import BaremetalCrt.Library.Chain
import BaremetalCrt.Library.Runs
import BaremetalCrt.Sys.Target

/-!
# Interrupt handlers

A controller of one hart has three lists of handlers, for software, timer and external
interrupts, each behind a head handler of its own. A platform controller has one place
for each of its sources. The architecture code has one table of head handlers, which all
harts use.

## Implementation notes

A handler is a list node that its driver embeds or allocates, and it is added once. The
family of lists records for each handler the list that it was added to, and the log
records the calls that returned 0; the source has no fields for them. Callers of
`k_intc_add_handler` have set the function of the handler.
-/

namespace BaremetalCrt

/-- `if (r) return r;` between two parts of a function. -/
def onSuccess {σ : Type} (x : σ × Int) (f : σ → σ × Int) : σ × Int :=
  if x.2 = 0 then f x.1 else x

theorem onSuccess_eq_zero {σ : Type} {x : σ × Int} {g : σ → σ × Int}
    (h : (onSuccess x g).2 = 0) : x.2 = 0 ∧ onSuccess x g = g x.1 := by
  unfold onSuccess at h ⊢
  by_cases hx : x.2 = 0
  · exact ⟨hx, if_pos hx⟩
  · rw [if_neg hx] at h
    exact absurd h hx

/-- The head handlers of a controller of one hart. -/
inductive Line where
  | sw | tm | ex
  deriving DecidableEq

/-- The list for an event, by `RV_IX_USIX` to `RV_IX_MEIX`. -/
def Line.ofEvent (event : Int) : Option Line :=
  if event = 0 ∨ event = 1 ∨ event = 3 then some .sw
  else if event = 4 ∨ event = 5 ∨ event = 7 then some .tm
  else if event = 8 ∨ event = 9 ∨ event = 11 then some .ex
  else none

/-- `RV_CAUSE_INT_SW`, `RV_CAUSE_INT_TM` and `RV_CAUSE_INT_EX`. -/
def Line.machine : Line → Int
  | sw => 3
  | tm => 7
  | ex => 11

theorem Line.ofEvent_machine (l : Line) : Line.ofEvent l.machine = some l := by
  cases l <;> decide

/-- The drivers of interrupt controllers. -/
inductive IntcKind where
  | priv | plic | clint
  deriving DecidableEq

/-- The handlers of all controllers: `hnd_next`, `event`, the places of the platform
controllers, `k_int_handlers`, and which controllers have a driver. `order` lists the
controllers of harts that are added, the last one first. -/
structure IntcState (I H : Type) where
  lists : Family (I × Line) H
  slots : I → Int → Option H
  event : H → Int
  intHandlers : Int → Option (I × Line)
  drv : I → Bool
  order : List I
  log : List (I × Int × H)

/-- No handler is added and no controller has a driver. -/
def IntcState.boot {I H : Type} : IntcState I H where
  lists := ⟨fun _ => none, fun _ => none, fun _ => none⟩
  slots := fun _ _ => none
  event := fun _ => 0
  intHandlers := fun _ => none
  drv := fun _ => false
  order := []
  log := []

section Functions

variable {I H : Type} [DecidableEq I] [DecidableEq H] [Fintype H]

/-- `k_event_add_handler` on the list of a head. -/
def kEventAddHandler (f : Family (I × Line) H) (head : I × Line) (handler : H) :
    Family (I × Line) H :=
  { f.attach head handler with
    next := Function.update (f.attach head handler).next handler none }

/-- `k_event_handle_generic`: the handlers that are called, and whether one of them
returned `EVENT_HANDLED`. -/
def kEventHandleGeneric (s : IntcState I H) (handles : H → Bool) (event : Int)
    (first : Option H) : List H × Bool :=
  let called := (follow s.lists.next (Fintype.card H) first).filter (s.event · = event)
  (called, called.any handles)

/-- `intc_priv_intr`, from the handler behind the head. -/
def intcPrivIntr (s : IntcState I H) (handles : H → Bool) (event : Int) (hnd : I × Line) :
    List H × Bool :=
  if event = 11 ∨ event = 7 ∨ event = 3 then
    match s.lists.head hnd with
    | none => ([], false)
    | some child => kEventHandleGeneric s handles event (some child)
  else ([], false)

/-- `k_arch_riscv_interrupt`: the handlers that are called, and whether the pending bit
is cleared. -/
def kArchRiscvInterrupt (s : IntcState I H) (handles : H → Bool) (mcause : Nat) :
    List H × Bool :=
  let cause : Int := ((mcause % 2 ^ 31 : Nat) : Int)
  if 12 ≤ cause then ([], false)
  else
    match s.intHandlers cause with
    | none => ([], false)
    | some h => intcPrivIntr s handles cause h

/-- `k_arch_riscv_set_intr_handler`. -/
def kArchSetIntrHandler (event : Int) (hnd : I × Line) (s : IntcState I H) :
    IntcState I H × Int :=
  if event ∈ ([0, 1, 3, 4, 5, 7, 8, 9, 11] : List Int) then
    ({ s with intHandlers := Function.update s.intHandlers event (some hnd) }, 0)
  else (s, -einval)

/-- `intc_priv_add`. The look-up of the CPU is given by its result; adding the handlers for
wake-up and sleep to the CPU does not fail. -/
def intcPrivAdd (c : I) (cpu : Int) (s : IntcState I H) : IntcState I H × Int :=
  if cpu ≠ 0 then (s, cpu)
  else
    onSuccess (kArchSetIntrHandler 11 (c, .ex) s) fun s =>
      onSuccess (kArchSetIntrHandler 7 (c, .tm) s) fun s =>
        onSuccess (kArchSetIntrHandler 3 (c, .sw) s) fun s =>
          ({ s with order := c :: s.order }, 0)

/-- `intc_priv_add_handler`. -/
def intcPrivAddHandler (c : I) (event : Int) (handler : H) (s : IntcState I H) :
    IntcState I H × Int :=
  match Line.ofEvent event with
  | none => (s, -einval)
  | some l => ({ s with lists := kEventAddHandler s.lists (c, l) handler }, 0)

/-- `PLIC_SOURCES_MAX`. -/
def plicSourcesMax : Int := 64

/-- `intc_plic_add_handler`. -/
def intcPlicAddHandler (c : I) (event : Int) (handler : H) (s : IntcState I H) :
    IntcState I H × Int :=
  if event < 0 ∨ plicSourcesMax ≤ event then (s, -einval)
  else if s.slots c event ≠ none then (s, -einval)
  else
    ({ s with slots := Function.update s.slots c (Function.update (s.slots c) event handler) }, 0)

variable (kind : I → IntcKind)

/-- The operation `add_handler` of a driver; that of the CLINT has none. -/
def addHandlerOp (c : I) (event : Int) (handler : H) (s : IntcState I H) : IntcState I H × Int :=
  match kind c with
  | .priv => intcPrivAddHandler c event handler s
  | .plic => intcPlicAddHandler c event handler s
  | .clint => (s, -enodev)

/-- `k_intc_add_handler`. -/
def kIntcAddHandler (c : I) (event : Int) (handler : H) (s : IntcState I H) :
    IntcState I H × Int :=
  if s.drv c then
    onSuccess (addHandlerOp kind c event handler s) fun s =>
      ({ s with
          event := Function.update s.event handler event
          log := (c, event, handler) :: s.log }, 0)
  else (s, -enodev)

/-- The handlers that were added. -/
def IntcState.added (s : IntcState I H) : List H := s.log.map fun x => x.2.2

/-- What happens to controllers: a driver takes one, with the result of the look-up that
`intc_priv_add` makes, or a handler is added to one. -/
inductive IntcEvent (I H : Type) where
  | probe (c : I) (cpu : Int)
  | add (c : I) (event : Int) (handler : H)

/-- A controller is added once, and so is a handler. -/
def intcStep (s : IntcState I H) : IntcEvent I H → Option (IntcState I H)
  | .probe c cpu =>
      if c ∈ s.order then none
      else
        let s := { s with drv := Function.update s.drv c true }
        if kind c = .priv then some (intcPrivAdd c cpu s).1 else some s
  | .add c event handler =>
      if handler ∈ s.added then none else some (kIntcAddHandler kind c event handler s).1

end Functions

section Invariant

variable {I H : Type} [DecidableEq I] [DecidableEq H] [Fintype H] {kind : I → IntcKind}
  {s : IntcState I H}

/-- An event that a controller has a place or a list for. -/
def Accepts (kind : I → IntcKind) (c : I) (event : Int) : Prop :=
  kind c = .priv ∧ (∃ l, Line.ofEvent event = some l) ∨
    kind c = .plic ∧ 0 ≤ event ∧ event < plicSourcesMax

/-- The lists and places are those of the log, events are as logged, and the table names
the controller that was added last. -/
structure HandlersInv (kind : I → IntcKind) (s : IntcState I H) : Prop where
  lists : s.lists.Consistent
  parent_iff : ∀ h c l, s.lists.parent h = some (c, l) ↔
    kind c = .priv ∧ ∃ e, Line.ofEvent e = some l ∧ (c, e, h) ∈ s.log
  slot_iff : ∀ c e h, s.slots c e = some h ↔ kind c = .plic ∧ (c, e, h) ∈ s.log
  accepts : ∀ c e h, (c, e, h) ∈ s.log → Accepts kind c e
  event : ∀ c e h, (c, e, h) ∈ s.log → s.event h = e
  nodup : s.added.Nodup
  table : ∀ l : Line, s.intHandlers l.machine = s.order.head?.map (·, l)
  order_priv : ∀ c ∈ s.order, kind c = .priv

omit [DecidableEq I] [DecidableEq H] in
theorem HandlersInv.boot : HandlersInv kind (IntcState.boot : IntcState I H) where
  lists := (Family.Lists.empty (fun _ => rfl) (fun _ => rfl) (fun _ => rfl)).consistent
  parent_iff := by simp [IntcState.boot]
  slot_iff := by simp [IntcState.boot]
  accepts := by simp [IntcState.boot]
  event := by simp [IntcState.boot]
  nodup := List.nodup_nil
  table := fun _ => rfl
  order_priv := by simp [IntcState.boot]

/-- A new handler is linked in as the family does it. -/
theorem kEventAddHandler_eq_attach {f : Family (I × Line) H} (hf : f.Consistent) {h : H}
    (hnew : f.parent h = none) (head : I × Line) : kEventAddHandler f head h = f.attach head h := by
  have hnext : (f.attach head h).next h = none := by
    have hold : f.next h = none := hf.alone h hnew
    simp only [Family.attach]
    cases hlast : (f.list head).getLast? with
    | none => exact hold
    | some z =>
        have hne : h ≠ z := by
          rintro rfl
          have hown := (hf.mem_iff head h).mp (List.mem_of_getLast? hlast)
          exact absurd (hnew.symm.trans hown) (by simp)
        exact (Function.update_of_ne hne ..).trans hold
  rw [kEventAddHandler, ← hnext, Function.update_eq_self]

omit [DecidableEq I] [DecidableEq H] [Fintype H] in
/-- `intc_priv_add` after its look-up. -/
theorem intcPrivAdd_zero (c : I) (s : IntcState I H) :
    intcPrivAdd c 0 s = ({ s with
      intHandlers := Function.update (Function.update (Function.update s.intHandlers
        11 (some (c, .ex))) 7 (some (c, .tm))) 3 (some (c, .sw))
      order := c :: s.order }, 0) := by
  simp [intcPrivAdd, kArchSetIntrHandler, onSuccess]

omit [DecidableEq I] [DecidableEq H] in
theorem HandlersInv.intcPrivAdd (h : HandlersInv kind s) {c : I} (hc : kind c = .priv)
    (cpu : Int) : HandlersInv kind (intcPrivAdd c cpu s).1 := by
  by_cases hcpu : cpu = 0
  · subst hcpu
    rw [intcPrivAdd_zero]
    refine ⟨h.lists, h.parent_iff, h.slot_iff, h.accepts, h.event, h.nodup, ?_, ?_⟩
    · intro l
      cases l <;> simp [Line.machine]
    · exact List.forall_mem_cons.mpr ⟨hc, h.order_priv⟩
  · have hfail : BaremetalCrt.intcPrivAdd c cpu s = (s, cpu) := if_pos hcpu
    rw [hfail]
    exact h

/-- What adding a handler can do: fail and change nothing, or link the handler in and
note its event. -/
inductive AddOutcome (kind : I → IntcKind) (c : I) (event : Int) (handler : H)
    (s : IntcState I H) : IntcState I H × Int → Prop
  | failed (r : Int) (hr : r ≠ 0) (hagain : r ≠ -eagain) : AddOutcome kind c event handler s (s, r)
  | listed (l : Line) (hkind : kind c = .priv) (hl : Line.ofEvent event = some l) :
      AddOutcome kind c event handler s
        ({ s with
            lists := kEventAddHandler s.lists (c, l) handler
            event := Function.update s.event handler event
            log := (c, event, handler) :: s.log }, 0)
  | placed (hkind : kind c = .plic) (hlow : 0 ≤ event) (hhigh : event < plicSourcesMax)
      (hfree : s.slots c event = none) :
      AddOutcome kind c event handler s
        ({ s with
            slots := Function.update s.slots c (Function.update (s.slots c) event handler)
            event := Function.update s.event handler event
            log := (c, event, handler) :: s.log }, 0)

theorem kIntcAddHandler_outcome (kind : I → IntcKind) (c : I) (event : Int) (handler : H)
    (s : IntcState I H) :
    AddOutcome kind c event handler s (kIntcAddHandler kind c event handler s) := by
  unfold kIntcAddHandler addHandlerOp
  split
  · cases hk : kind c with
    | priv =>
        simp only [intcPrivAddHandler]
        cases hl : Line.ofEvent event with
        | none => exact .failed _ (by decide) (by decide)
        | some l => exact .listed l hk hl
    | plic =>
        simp only [intcPlicAddHandler]
        split
        · exact .failed _ (by decide) (by decide)
        · rename_i hrange
          split
          · exact .failed _ (by decide) (by decide)
          · rename_i hfree
            obtain ⟨hlow, hhigh⟩ := not_or.mp hrange
            exact .placed hk (not_lt.mp hlow) (not_le.mp hhigh) (not_not.mp hfree)
    | clint => exact .failed _ (by decide) (by decide)
  · exact .failed _ (by decide) (by decide)

theorem kIntcAddHandler_log (kind : I → IntcKind) (c : I) (event : Int) (handler : H)
    (s : IntcState I H) :
    (kIntcAddHandler kind c event handler s).1.log = s.log ∨
      (kIntcAddHandler kind c event handler s).1.log = (c, event, handler) :: s.log := by
  have houtcome := kIntcAddHandler_outcome kind c event handler s
  generalize kIntcAddHandler kind c event handler s = out at houtcome
  cases houtcome with
  | failed => exact Or.inl rfl
  | listed => exact Or.inr rfl
  | placed => exact Or.inr rfl

omit [DecidableEq I] [DecidableEq H] [Fintype H] in
theorem intcPrivAdd_log (c : I) (cpu : Int) (s : IntcState I H) :
    (intcPrivAdd c cpu s).1.log = s.log := by
  by_cases hcpu : cpu = 0
  · rw [hcpu, intcPrivAdd_zero]
  · have hfail : intcPrivAdd c cpu s = (s, cpu) := if_pos hcpu
    rw [hfail]

omit [DecidableEq I] [DecidableEq H] in
/-- A handler that was not added is in no list. -/
theorem HandlersInv.parent_of_new (h : HandlersInv kind s) {handler : H}
    (hnew : handler ∉ s.added) : s.lists.parent handler = none := by
  cases hp : s.lists.parent handler with
  | none => rfl
  | some k =>
      obtain ⟨c, l⟩ := k
      obtain ⟨_, e, _, hlog⟩ := (h.parent_iff handler c l).mp hp
      exact absurd (List.mem_map.mpr ⟨_, hlog, rfl⟩) hnew

omit [DecidableEq I] in
/-- The part of the invariant that the log alone decides. -/
theorem HandlersInv.event_cons (h : HandlersInv kind s) {c : I} {event : Int} {handler : H}
    (hnew : handler ∉ s.added) :
    ∀ c' e' h', (c', e', h') ∈ (c, event, handler) :: s.log →
      Function.update s.event handler event h' = e' := by
  intro c' e' h' hmem
  rcases List.mem_cons.mp hmem with heq | hold
  · obtain ⟨rfl, rfl, rfl⟩ := heq
    exact Function.update_self ..
  · have hne : h' ≠ handler := by
      rintro rfl
      exact hnew (List.mem_map.mpr ⟨_, hold, rfl⟩)
    rw [Function.update_of_ne hne]
    exact h.event c' e' h' hold

omit [DecidableEq I] [DecidableEq H] in
/-- The lists are unchanged where the new entry is for a platform controller. -/
theorem HandlersInv.parent_iff_cons (h : HandlersInv kind s) {c : I} {event : Int} {handler : H}
    (hkind : kind c ≠ .priv) (x : H) (c' : I) (l : Line) :
    s.lists.parent x = some (c', l) ↔ kind c' = .priv ∧
      ∃ e, Line.ofEvent e = some l ∧ (c', e, x) ∈ (c, event, handler) :: s.log := by
  rw [h.parent_iff]
  constructor
  · rintro ⟨hk, e, he, hmem⟩
    exact ⟨hk, e, he, List.mem_cons_of_mem _ hmem⟩
  · rintro ⟨hk, e, he, hmem⟩
    rcases List.mem_cons.mp hmem with heq | hold
    · obtain ⟨rfl, _⟩ : c' = c ∧ e = event ∧ x = handler := by simpa using heq
      exact absurd hk hkind
    · exact ⟨hk, e, he, hold⟩

omit [DecidableEq I] [DecidableEq H] in
/-- The places are unchanged where the new entry is for the controller of a hart. -/
theorem HandlersInv.slot_iff_cons (h : HandlersInv kind s) {c : I} {event : Int} {handler : H}
    (hkind : kind c ≠ .plic) (c' : I) (e : Int) (x : H) :
    s.slots c' e = some x ↔ kind c' = .plic ∧ (c', e, x) ∈ (c, event, handler) :: s.log := by
  rw [h.slot_iff]
  constructor
  · rintro ⟨hk, hmem⟩
    exact ⟨hk, List.mem_cons_of_mem _ hmem⟩
  · rintro ⟨hk, hmem⟩
    rcases List.mem_cons.mp hmem with heq | hold
    · obtain ⟨rfl, _⟩ : c' = c ∧ e = event ∧ x = handler := by simpa using heq
      exact absurd hk hkind
    · exact ⟨hk, hold⟩

theorem HandlersInv.listed (h : HandlersInv kind s) {c : I} {event : Int} {handler : H} {l : Line}
    (hnew : handler ∉ s.added) (hkind : kind c = .priv) (hl : Line.ofEvent event = some l) :
    HandlersInv kind
      { s with
        lists := kEventAddHandler s.lists (c, l) handler
        event := Function.update s.event handler event
        log := (c, event, handler) :: s.log } := by
  have hparent := h.parent_of_new hnew
  have hlists := Family.Lists.attach (k := (c, l)) h.lists hparent
  rw [kEventAddHandler_eq_attach h.lists hparent]
  refine ⟨hlists.consistent, ?_, h.slot_iff_cons (by rw [hkind]; decide), ?_, h.event_cons hnew,
    List.nodup_cons.mpr ⟨hnew, h.nodup⟩, h.table, h.order_priv⟩
  · intro x c' l'
    change Function.update s.lists.parent handler (some (c, l)) x = some (c', l') ↔ _
    by_cases hx : x = handler
    · subst x
      rw [Function.update_self]
      constructor
      · intro heq
        obtain ⟨rfl, rfl⟩ := Prod.mk.inj (Option.some.inj heq)
        exact ⟨hkind, event, hl, List.mem_cons_self ..⟩
      · rintro ⟨_, e, he, hmem⟩
        rcases List.mem_cons.mp hmem with heq | hold
        · obtain ⟨rfl, rfl⟩ : c' = c ∧ e = event := by simpa using heq
          rw [Option.some.inj (hl.symm.trans he)]
        · exact absurd (List.mem_map.mpr ⟨_, hold, rfl⟩) hnew
    · rw [Function.update_of_ne hx, h.parent_iff]
      simp [hx]
  · intro c' e x hmem
    rcases List.mem_cons.mp hmem with heq | hold
    · obtain ⟨rfl, rfl, _⟩ : c' = c ∧ e = event ∧ x = handler := by simpa using heq
      exact Or.inl ⟨hkind, l, hl⟩
    · exact h.accepts c' e x hold

theorem HandlersInv.placed (h : HandlersInv kind s) {c : I} {event : Int} {handler : H}
    (hnew : handler ∉ s.added) (hkind : kind c = .plic) (hlow : 0 ≤ event)
    (hhigh : event < plicSourcesMax) (hfree : s.slots c event = none) :
    HandlersInv kind
      { s with
        slots := Function.update s.slots c (Function.update (s.slots c) event handler)
        event := Function.update s.event handler event
        log := (c, event, handler) :: s.log } := by
  refine ⟨h.lists, h.parent_iff_cons (by rw [hkind]; decide), ?_, ?_, h.event_cons hnew,
    List.nodup_cons.mpr ⟨hnew, h.nodup⟩, h.table, h.order_priv⟩
  · intro c' e x
    dsimp only
    by_cases hplace : c' = c ∧ e = event
    · obtain ⟨rfl, rfl⟩ := hplace
      rw [Function.update_self, Function.update_self, Option.some.injEq]
      constructor
      · rintro rfl
        exact ⟨hkind, List.mem_cons_self ..⟩
      · rintro ⟨_, hmem⟩
        rcases List.mem_cons.mp hmem with heq | hold
        · exact ((Prod.mk.inj (Prod.mk.inj heq).2).2).symm
        · exact absurd (hfree.symm.trans ((h.slot_iff c' e x).mpr ⟨hkind, hold⟩)) (by simp)
    · have hsame : Function.update s.slots c (Function.update (s.slots c) event handler) c' e =
          s.slots c' e := by
        by_cases hc : c' = c
        · subst hc
          have he : e ≠ event := fun heq => hplace ⟨rfl, heq⟩
          rw [Function.update_self, Function.update_of_ne he]
        · rw [Function.update_of_ne hc]
      rw [hsame, h.slot_iff]
      constructor
      · rintro ⟨hk, hmem⟩
        exact ⟨hk, List.mem_cons_of_mem _ hmem⟩
      · rintro ⟨hk, hmem⟩
        rcases List.mem_cons.mp hmem with heq | hold
        · obtain ⟨hc, he, _⟩ : c' = c ∧ e = event ∧ x = handler := by simpa using heq
          exact absurd ⟨hc, he⟩ hplace
        · exact ⟨hk, hold⟩
  · intro c' e x hmem
    rcases List.mem_cons.mp hmem with heq | hold
    · obtain ⟨rfl, rfl, _⟩ : c' = c ∧ e = event ∧ x = handler := by simpa using heq
      exact Or.inr ⟨hkind, hlow, hhigh⟩
    · exact h.accepts c' e x hold

theorem HandlersInv.kIntcAddHandler (h : HandlersInv kind s) (c : I) (event : Int) {handler : H}
    (hnew : handler ∉ s.added) :
    HandlersInv kind (kIntcAddHandler kind c event handler s).1 := by
  have houtcome := kIntcAddHandler_outcome kind c event handler s
  generalize BaremetalCrt.kIntcAddHandler kind c event handler s = out at houtcome
  cases houtcome with
  | failed r _ _ => exact h
  | listed l hkind hl => exact h.listed hnew hkind hl
  | placed hkind hlow hhigh hfree => exact h.placed hnew hkind hlow hhigh hfree

theorem HandlersInv.step (h : HandlersInv kind s) {ev : IntcEvent I H} {s' : IntcState I H}
    (hstep : intcStep kind s ev = some s') : HandlersInv kind s' := by
  cases ev with
  | probe c cpu =>
      simp only [intcStep] at hstep
      have hbound : HandlersInv kind { s with drv := Function.update s.drv c true } :=
        ⟨h.lists, h.parent_iff, h.slot_iff, h.accepts, h.event, h.nodup, h.table, h.order_priv⟩
      split at hstep
      · cases hstep
      · split at hstep
        · rename_i hc
          obtain rfl := Option.some.inj hstep
          exact hbound.intcPrivAdd hc cpu
        · obtain rfl := Option.some.inj hstep
          exact hbound
  | add c event handler =>
      simp only [intcStep] at hstep
      split at hstep
      · cases hstep
      · rename_i hnew
        obtain rfl := Option.some.inj hstep
        exact h.kIntcAddHandler c event hnew

omit [DecidableEq I] [DecidableEq H] in
/-- The members of a list, by the log. -/
theorem HandlersInv.mem_list_iff (h : HandlersInv kind s) {c : I} {l : Line} {x : H} :
    x ∈ s.lists.list (c, l) ↔
      kind c = .priv ∧ ∃ e, Line.ofEvent e = some l ∧ (c, e, x) ∈ s.log :=
  (h.lists.mem_iff (c, l) x).trans (h.parent_iff x c l)

omit [DecidableEq I] [DecidableEq H] in
/-- A handler has one entry in the log. -/
theorem HandlersInv.log_unique (h : HandlersInv kind s) {c c' : I} {e e' : Int} {x : H}
    (hx : (c, e, x) ∈ s.log) (hx' : (c', e', x) ∈ s.log) : c = c' ∧ e = e' := by
  have heq := List.inj_on_of_nodup_map h.nodup hx hx' rfl
  exact ⟨congrArg Prod.fst heq, congrArg (fun y => y.2.1) heq⟩

end Invariant

section Registered

variable {I H : Type} [DecidableEq I] [DecidableEq H] [Fintype H] {kind : I → IntcKind}
  {s : IntcState I H}

/-- All handlers in the lists or places of a controller. -/
def IntcState.handlersAt (kind : I → IntcKind) (s : IntcState I H) (c : I) : List H :=
  match kind c with
  | .priv => s.lists.list (c, .sw) ++ s.lists.list (c, .tm) ++ s.lists.list (c, .ex)
  | .plic => (List.range 64).filterMap fun e : Nat => s.slots c e
  | .clint => []

omit [DecidableEq I] [DecidableEq H] in
theorem HandlersInv.mem_handlersAt_iff (h : HandlersInv kind s) {c : I} {x : H} :
    x ∈ s.handlersAt kind c ↔ ∃ e, (c, e, x) ∈ s.log := by
  constructor
  · intro hx
    simp only [IntcState.handlersAt] at hx
    cases hk : kind c with
    | priv =>
        rw [hk] at hx
        simp only [List.mem_append, h.mem_list_iff] at hx
        obtain ((⟨_, e, _, hlog⟩ | ⟨_, e, _, hlog⟩) | ⟨_, e, _, hlog⟩) := hx <;> exact ⟨e, hlog⟩
    | plic =>
        rw [hk] at hx
        obtain ⟨e, _, he⟩ := List.mem_filterMap.mp hx
        exact ⟨e, ((h.slot_iff c e x).mp he).2⟩
    | clint =>
        rw [hk] at hx
        exact absurd hx List.not_mem_nil
  · rintro ⟨e, hlog⟩
    simp only [IntcState.handlersAt]
    rcases h.accepts c e x hlog with ⟨hk, l, hl⟩ | ⟨hk, hlow, hhigh⟩
    · have hmem : x ∈ s.lists.list (c, l) := h.mem_list_iff.mpr ⟨hk, e, hl, hlog⟩
      rw [hk]
      cases l <;> simp [hmem]
    · rw [hk]
      refine List.mem_filterMap.mpr ⟨e.toNat, ?_, ?_⟩
      · rw [List.mem_range]
        unfold plicSourcesMax at hhigh
        omega
      · rw [Int.toNat_of_nonneg hlow]
        exact (h.slot_iff c e x).mpr ⟨hk, hlog⟩

omit [DecidableEq I] [DecidableEq H] in
/-- Lists of one controller for different interrupts have nothing in common. -/
theorem HandlersInv.disjoint_lists (h : HandlersInv kind s) {c : I} {l l' : Line} (hne : l ≠ l') :
    List.Disjoint (s.lists.list (c, l)) (s.lists.list (c, l')) := by
  intro x hx hx'
  have heq := ((h.lists.mem_iff (c, l) x).mp hx).symm.trans ((h.lists.mem_iff (c, l') x).mp hx')
  exact hne (Prod.mk.inj (Option.some.inj heq)).2

omit [DecidableEq I] [DecidableEq H] in
theorem HandlersInv.nodup_handlersAt (h : HandlersInv kind s) (c : I) :
    (s.handlersAt kind c).Nodup := by
  simp only [IntcState.handlersAt]
  cases kind c with
  | priv =>
      have hswtm := (h.lists.nodup (c, .sw)).append (h.lists.nodup (c, .tm))
        (h.disjoint_lists (by decide))
      refine hswtm.append (h.lists.nodup (c, .ex)) ?_
      intro x hx hex
      rcases List.mem_append.mp hx with hsw | htm
      · exact h.disjoint_lists (by decide) hsw hex
      · exact h.disjoint_lists (by decide) htm hex
  | plic =>
      refine List.Nodup.filterMap ?_ List.nodup_range
      intro e e' x hx hx'
      have hlog := ((h.slot_iff c e x).mp hx).2
      have hlog' := ((h.slot_iff c e' x).mp hx').2
      exact Int.ofNat.inj (h.log_unique hlog hlog').2
  | clint => exact List.nodup_nil

omit [DecidableEq H] in
/-- The handlers of a controller are those that the log has for it. -/
theorem HandlersInv.handlersAt_perm (h : HandlersInv kind s) (c : I) :
    (s.handlersAt kind c).Perm ((s.log.filter (·.1 = c)).map fun x => x.2.2) := by
  have hnodup : ((s.log.filter (·.1 = c)).map fun x => x.2.2).Nodup :=
    (List.filter_sublist.map _).nodup h.nodup
  refine (List.perm_ext_iff_of_nodup (h.nodup_handlersAt c) hnodup).mpr ?_
  intro x
  rw [h.mem_handlersAt_iff]
  constructor
  · rintro ⟨e, hlog⟩
    exact List.mem_map.mpr ⟨(c, e, x), List.mem_filter.mpr ⟨hlog, by simp⟩, rfl⟩
  · intro hx
    obtain ⟨⟨c', e, x'⟩, hmem, rfl⟩ := List.mem_map.mp hx
    obtain ⟨hlog, hc⟩ := List.mem_filter.mp hmem
    obtain rfl : c' = c := of_decide_eq_true hc
    exact ⟨e, hlog⟩

/-- A controller has a handler for an event, in the list or in the place for it. -/
def IntcState.Has (kind : I → IntcKind) (s : IntcState I H) (c : I) (event : Int) (handler : H) :
    Prop :=
  s.event handler = event ∧
    match kind c with
    | .priv => ∃ l, Line.ofEvent event = some l ∧ handler ∈ s.lists.list (c, l)
    | .plic => s.slots c event = some handler
    | .clint => False

/-- No list and no place loses a handler. -/
structure IntcState.Keeps (s s' : IntcState I H) : Prop where
  lists : ∀ k x, x ∈ s.lists.list k → x ∈ s'.lists.list k
  slots : ∀ c e x, s.slots c e = some x → s'.slots c e = some x

omit [DecidableEq I] [DecidableEq H] in
theorem IntcState.Has.keep {s' : IntcState I H} {c : I} {e : Int} {x : H} (h : s.Has kind c e x)
    (hkeep : s.Keeps s') (hevent : s'.event x = s.event x) : s'.Has kind c e x := by
  obtain ⟨he, hplace⟩ := h
  refine ⟨hevent.trans he, ?_⟩
  cases hk : kind c with
  | priv =>
      rw [hk] at hplace
      obtain ⟨l, hl, hmem⟩ := hplace
      exact ⟨l, hl, hkeep.lists _ x hmem⟩
  | plic =>
      rw [hk] at hplace
      exact hkeep.slots c e x hplace
  | clint =>
      rw [hk] at hplace
      exact hplace

/-- A handler that is in no list is linked in behind those of its list. -/
theorem kEventAddHandler_list {f : Family (I × Line) H} (hf : f.Consistent) {x : H}
    (hnew : ∀ k, x ∉ f.list k) (head : I × Line) : (kEventAddHandler f head x).Consistent ∧
      (kEventAddHandler f head x).list = Function.update f.list head (f.list head ++ [x]) := by
  have hparent : f.parent x = none := by
    cases hp : f.parent x with
    | none => rfl
    | some k => exact absurd ((hf.mem_iff k x).mpr hp) (hnew k)
  have hlists := Family.Lists.attach (k := head) hf hparent
  rw [kEventAddHandler_eq_attach hf hparent]
  exact ⟨hlists.consistent, hlists.list_eq⟩

/-- Adding a handler that is in no list takes no other one away, and puts no other one into
a list. -/
theorem kIntcAddHandler_keeps (kind : I → IntcKind) (c : I) (event : Int) {x : H}
    (hlists : s.lists.Consistent) (hnew : ∀ k, x ∉ s.lists.list k) :
    (kIntcAddHandler kind c event x s).1.lists.Consistent ∧
      s.Keeps (kIntcAddHandler kind c event x s).1 ∧
      ∀ k y, y ∈ (kIntcAddHandler kind c event x s).1.lists.list k → y ≠ x →
        y ∈ s.lists.list k := by
  have houtcome := kIntcAddHandler_outcome kind c event x s
  generalize kIntcAddHandler kind c event x s = out at houtcome
  cases houtcome with
  | failed => exact ⟨hlists, ⟨fun _ _ => id, fun _ _ _ => id⟩, fun _ _ hy _ => hy⟩
  | listed l hkind hl =>
      obtain ⟨hconsistent, hlist⟩ := kEventAddHandler_list hlists hnew (c, l)
      refine ⟨hconsistent, ⟨fun k y hy => ?_, fun _ _ _ => id⟩, fun k y hy hne => ?_⟩
      · dsimp only
        rw [hlist, Function.update_apply]
        split
        · rename_i hk
          exact List.mem_append_left _ (hk ▸ hy)
        · exact hy
      · dsimp only at hy
        rw [hlist, Function.update_apply] at hy
        split at hy
        · rename_i hk
          rw [hk]
          exact (List.mem_append.mp hy).resolve_right (by simpa using hne)
        · exact hy
  | placed hkind hlow hhigh hfree =>
      refine ⟨hlists, ⟨fun _ _ => id, fun c' e y hy => ?_⟩, fun _ _ hy _ => hy⟩
      dsimp only
      by_cases hc : c' = c
      · subst hc
        have he : e ≠ event := by
          rintro rfl
          exact absurd (hfree.symm.trans hy) (by simp)
        rw [Function.update_self, Function.update_of_ne he]
        exact hy
      · rw [Function.update_of_ne hc]
        exact hy

/-- A call that returns success has entered the handler. -/
theorem kIntcAddHandler_has {c : I} {event : Int} {x : H} (hlists : s.lists.Consistent)
    (hnew : ∀ k, x ∉ s.lists.list k) (h : (kIntcAddHandler kind c event x s).2 = 0) :
    (kIntcAddHandler kind c event x s).1.Has kind c event x := by
  have houtcome := kIntcAddHandler_outcome kind c event x s
  generalize kIntcAddHandler kind c event x s = out at houtcome h
  cases houtcome with
  | failed r hr => exact absurd h hr
  | listed l hkind hl =>
      have hlist := (kEventAddHandler_list hlists hnew (c, l)).2
      refine ⟨Function.update_self .., ?_⟩
      rw [hkind]
      refine ⟨l, hl, ?_⟩
      rw [hlist, Function.update_self]
      exact List.mem_append_right _ (List.mem_singleton_self x)
  | placed hkind _ _ _ =>
      refine ⟨Function.update_self .., ?_⟩
      rw [hkind]
      dsimp only
      rw [Function.update_self, Function.update_self]

theorem kIntcAddHandler_event (kind : I → IntcKind) (c : I) (event : Int) {x y : H} (hne : y ≠ x) :
    (kIntcAddHandler kind c event x s).1.event y = s.event y := by
  have houtcome := kIntcAddHandler_outcome kind c event x s
  generalize kIntcAddHandler kind c event x s = out at houtcome
  cases houtcome with
  | failed => rfl
  | listed => exact Function.update_of_ne hne ..
  | placed => exact Function.update_of_ne hne ..

end Registered

end BaremetalCrt
