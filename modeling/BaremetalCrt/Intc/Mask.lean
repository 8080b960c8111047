import BaremetalCrt.Intc.Handlers
import BaremetalCrt.Library.WordBits
import BaremetalCrt.Sys.Event

/-!
# The interrupt mask of a hart

The controller of a hart sets bits of `mie` when its CPU wakes up and clears bits when the
CPU goes to sleep. Which bits these are is computed each time, from the handlers that are
there and from what is enabled.

## Implementation notes

The three heads of a controller are the heads of its event lists. The driver touches bits of
`mie` that both register widths have.
-/

namespace BaremetalCrt

open HeadedList LabelledSystem

/-- `enum k_cpu_event`. -/
inductive CpuEvent where
  | null | onWakeup | onSleep | intrExt | intrIpi | intrTimer
  deriving DecidableEq

/-- The bit of `mie`: `RV_IX_SIX`, `RV_IX_TIX` and `RV_IX_EIX`. -/
def Line.ix : Line → Nat
  | .sw => 3
  | .tm => 7
  | .ex => 11

/-- `struct intc_priv_priv` with its lists, and `mie` of the hart. The flags `has_ex`, `has_tm`
and `has_sw` are `has`, and `enabled_ex`, `enabled_tm` and `enabled_sw` are `enabled`. -/
structure PrivState (H : Type) where
  lists : EventLists Line H
  has : Line → Bool
  enabled : Line → Bool
  mie : BitVec 64

/-- A call on the controller. -/
inductive PrivCall (H : Type) where
  | cpuEvent (event : CpuEvent)
  | addHandler (event : Int) (handler : Option H)
  | removeHandler (event : Int) (handler : Option H)
  | enable (event : Int)
  | disable (event : Int)
  deriving DecidableEq

namespace PrivState

variable {H : Type}

/-- The controller after `intc_priv_add`, before the first wake-up. -/
def added : PrivState H where
  lists := ⟨fun _ => none, fun _ => 0⟩
  has := fun _ => false
  enabled := fun _ => true
  mie := 0

/-- A line has a handler and is enabled. -/
def active (s : PrivState H) (l : Line) : Bool := s.has l && s.enabled l

/-- The bits `m` of `intc_priv_update_intr_mask`. -/
def intrMask (s : PrivState H) : BitVec 64 :=
  (if s.active .ex then WordBits.bit 64 Line.ex.ix else 0) |||
    (if s.active .tm then WordBits.bit 64 Line.tm.ix else 0) ||| WordBits.bit 64 Line.sw.ix

/-- `intc_priv_update_intr_mask`. -/
def intcPrivUpdateIntrMask (s : PrivState H) (wakeup : Bool) : PrivState H × Int :=
  ({ s with mie := if wakeup then s.mie ||| s.intrMask else s.mie &&& ~~~s.intrMask }, 0)

/-- `intc_priv_cpu_event`. -/
def intcPrivCpuEvent (s : PrivState H) (event : CpuEvent) : PrivState H × Int :=
  match event with
  | .onWakeup =>
      let out := s.intcPrivUpdateIntrMask true
      (out.1, if out.2 ≠ 0 then eventNotHandled else eventHandled)
  | .onSleep =>
      let out := s.intcPrivUpdateIntrMask false
      (out.1, if out.2 ≠ 0 then eventNotHandled else eventHandled)
  | _ => (s, eventNotHandled)

/-- `k_event_has_next` of the three heads. -/
def updateHas (s : PrivState H) : PrivState H :=
  { s with has := fun l => (s.lists.next (.inl l)).isSome }

/-- What `intc_priv_add_handler` and `intc_priv_remove_handler` do with their list function. -/
def changeList (s : PrivState H) (event : Int)
    (change : Line → Option (EventLists Line H × Int)) : Option (PrivState H × Int) :=
  match Line.ofEvent event with
  | none => some (s, -einval)
  | some l => (change l).map fun out =>
      if out.2 ≠ 0 then ({ s with lists := out.1 }, out.2)
      else ({ s with lists := out.1 }.updateHas, 0)

/-- `intc_priv_enable` and `intc_priv_disable`, which write `enabled_tm` or `enabled_ex`. -/
def setEnabled (s : PrivState H) (event : Int) (value : Bool) : PrivState H × Int :=
  match Line.ofEvent event with
  | none => (s, -einval)
  | some .sw => (s, 0)
  | some l => ({ s with enabled := Function.update s.enabled l value }, 0)

/-- `intc_priv_enable`. -/
def intcPrivEnable (s : PrivState H) (event : Int) : PrivState H × Int := s.setEnabled event true

/-- `intc_priv_disable`. -/
def intcPrivDisable (s : PrivState H) (event : Int) : PrivState H × Int :=
  s.setEnabled event false

variable [DecidableEq H] [Fintype H]

/-- `intc_priv_add_handler`. -/
def intcPrivAddHandler (s : PrivState H) (event : Int) (handler : Option H) :
    Option (PrivState H × Int) :=
  s.changeList event fun l => s.lists.kEventAddHandler (some l) handler

/-- `intc_priv_remove_handler`. -/
def intcPrivRemoveHandler (s : PrivState H) (event : Int) (handler : Option H) :
    Option (PrivState H × Int) :=
  s.changeList event fun l => s.lists.kEventRemoveHandler (some l) handler

/-- The controller after a call. -/
def step (s : PrivState H) : PrivCall H → Option (PrivState H)
  | .cpuEvent event => some (s.intcPrivCpuEvent event).1
  | .addHandler event handler => (s.intcPrivAddHandler event handler).map Prod.fst
  | .removeHandler event handler => (s.intcPrivRemoveHandler event handler).map Prod.fst
  | .enable event => some (s.intcPrivEnable event).1
  | .disable event => some (s.intcPrivDisable event).1

end PrivState

section Steps

variable {H : Type} {s t : PrivState H}

namespace PrivState

theorem getLsbD_lineBit (b : Bool) (l j : Line) :
    (if b then WordBits.bit 64 l.ix else 0).getLsbD j.ix = (b && decide (j = l)) := by
  cases b <;> cases l <;> cases j <;> decide

/-- The bits of the mask: that for software interrupts, and those of the active lines. -/
theorem getLsbD_intrMask (s : PrivState H) (l : Line) :
    s.intrMask.getLsbD l.ix = (decide (l = .sw) || s.active l) := by
  have hsw := getLsbD_lineBit true .sw l
  rw [if_pos rfl, Bool.true_and] at hsw
  rw [intrMask, BitVec.getLsbD_or, BitVec.getLsbD_or, getLsbD_lineBit, getLsbD_lineBit, hsw]
  cases l <;> simp

theorem mie_wakeup (s : PrivState H) (l : Line) :
    (s.intcPrivCpuEvent .onWakeup).1.mie.getLsbD l.ix =
      (s.mie.getLsbD l.ix || (decide (l = .sw) || s.active l)) := by
  rw [← getLsbD_intrMask]
  exact BitVec.getLsbD_or

theorem mie_sleep (s : PrivState H) (l : Line) :
    (s.intcPrivCpuEvent .onSleep).1.mie.getLsbD l.ix =
      (s.mie.getLsbD l.ix && !(decide (l = .sw) || s.active l)) := by
  have hl : l.ix < 64 := by cases l <;> decide
  rw [← getLsbD_intrMask]
  change (s.mie &&& ~~~s.intrMask).getLsbD l.ix = _
  rw [BitVec.getLsbD_and, BitVec.getLsbD_not, decide_eq_true hl, Bool.true_and]

/-- A changed list leaves the mask alone. -/
theorem changeList_mie {event : Int} {change : Line → Option (EventLists Line H × Int)}
    (h : (s.changeList event change).map Prod.fst = some t) : t.mie = s.mie := by
  unfold changeList at h
  split at h
  · obtain rfl : s = t := by simpa using h
    rfl
  · rename_i l _
    cases hl : change l with
    | none => simp [hl] at h
    | some out =>
        simp only [hl, Option.map_some, Option.some.injEq] at h
        subst h
        split <;> rfl

theorem setEnabled_mie (s : PrivState H) (event : Int) (value : Bool) :
    (s.setEnabled event value).1.mie = s.mie := by
  unfold setEnabled
  split <;> rfl

variable [DecidableEq H] [Fintype H]

/-- Only wake-up and sleep change the mask. -/
theorem step_mie {c : PrivCall H} (h : s.step c = some t) (hwake : c ≠ .cpuEvent .onWakeup)
    (hsleep : c ≠ .cpuEvent .onSleep) : t.mie = s.mie := by
  cases c with
  | cpuEvent event =>
      obtain rfl := Option.some.inj h
      cases event with
      | onWakeup => exact absurd rfl hwake
      | onSleep => exact absurd rfl hsleep
      | null => rfl
      | intrExt => rfl
      | intrIpi => rfl
      | intrTimer => rfl
  | addHandler event handler => exact changeList_mie h
  | removeHandler event handler => exact changeList_mie h
  | enable event =>
      obtain rfl := Option.some.inj h
      exact setEnabled_mie s event true
  | disable event =>
      obtain rfl := Option.some.inj h
      exact setEnabled_mie s event false

omit [DecidableEq H] [Fintype H] in
theorem changeList_ends (h : Ends s.lists.next) (event : Int)
    {change : Line → Option (EventLists Line H × Int)}
    (hchange : ∀ l, ∃ u r, change l = some (u, r) ∧ Ends u.next) :
    ∃ t, (s.changeList event change).map Prod.fst = some t ∧ Ends t.lists.next := by
  unfold changeList
  cases Line.ofEvent event with
  | none => exact ⟨s, rfl, h⟩
  | some l =>
      obtain ⟨u, r, hu, hends⟩ := hchange l
      simp only [hu, Option.map_some, Option.some.injEq, exists_eq_left']
      split <;> exact hends

/-- Every call returns where all walks end, and keeps it so. -/
theorem step_ends (h : Ends s.lists.next) (c : PrivCall H) :
    ∃ t, s.step c = some t ∧ Ends t.lists.next := by
  cases c with
  | cpuEvent event =>
      refine ⟨_, rfl, ?_⟩
      cases event <;> exact h
  | addHandler event handler =>
      exact changeList_ends h event fun l => EventLists.kEventAddHandler_ends h (some l) handler
  | removeHandler event handler =>
      exact changeList_ends h event fun l => EventLists.kEventRemoveHandler_ends h (some l) handler
  | enable event =>
      refine ⟨_, rfl, ?_⟩
      simp only [intcPrivEnable, setEnabled]
      split <;> exact h
  | disable event =>
      refine ⟨_, rfl, ?_⟩
      simp only [intcPrivDisable, setEnabled]
      split <;> exact h

theorem exec_ends (h : Ends s.lists.next) (cs : List (PrivCall H)) :
    ∃ t, exec step s cs = some t := by
  induction cs generalizing s with
  | nil => exact ⟨s, rfl⟩
  | cons c cs ih =>
      obtain ⟨m, hm, hends⟩ := step_ends h c
      obtain ⟨t, ht⟩ := ih hends
      exact ⟨t, (exec_cons_iff step).mpr ⟨m, hm, ht⟩⟩

/-- A timer or external line that is active at a wake-up is active at the next sleep. -/
def KeptUntilSleep (s : PrivState H) (cs : List (PrivCall H)) : Prop :=
  ∀ front mid back u v (l : Line),
    cs = front ++ .cpuEvent .onWakeup :: mid ++ .cpuEvent .onSleep :: back →
    .cpuEvent .onSleep ∉ mid → exec step s front = some u →
    exec step s (front ++ .cpuEvent .onWakeup :: mid) = some v → l ≠ .sw →
    u.active l = true → v.active l = true

/-- A line was active at a wake-up after the last sleep of a run. -/
def WokenActive (s : PrivState H) (cs : List (PrivCall H)) (l : Line) : Prop :=
  ∃ front mid u, cs = front ++ .cpuEvent .onWakeup :: mid ∧ .cpuEvent .onSleep ∉ mid ∧
    exec step s front = some u ∧ u.active l = true

theorem WokenActive.concat {cs : List (PrivCall H)} {l : Line} (h : WokenActive s cs l)
    {c : PrivCall H} (hc : c ≠ .cpuEvent .onSleep) : WokenActive s (cs ++ [c]) l := by
  obtain ⟨front, mid, u, rfl, hmid, hu, hl⟩ := h
  refine ⟨front, mid ++ [c], u, by simp, ?_, hu, hl⟩
  simpa [hc.symm] using hmid

/-- A sleep clears every bit that comes from a wake-up after the sleep before, when the lines
are kept. -/
theorem sleep_clears {cs front back : List (PrivCall H)} (hkept : KeptUntilSleep s cs)
    (hcs : cs = front ++ .cpuEvent .onSleep :: back) {v : PrivState H}
    (hv : exec step s front = some v) {l : Line}
    (hwoken : l ≠ .sw → v.mie.getLsbD l.ix = true → WokenActive s front l) :
    (v.intcPrivCpuEvent .onSleep).1.mie.getLsbD l.ix = false := by
  rw [mie_sleep]
  by_cases hl : l = .sw
  · simp [hl]
  · cases hbit : v.mie.getLsbD l.ix with
    | false => rfl
    | true =>
        obtain ⟨f, m, u, rfl, hm, hu, hactive⟩ := hwoken hl hbit
        rw [hkept f m back u v l hcs hm hu hv hl hactive]
        simp

/-- The bits that are set come from wake-ups after the last sleep. -/
theorem mie_origin (hmie : s.mie = 0) {cs : List (PrivCall H)} (hkept : KeptUntilSleep s cs)
    (front back : List (PrivCall H)) (hcs : cs = front ++ back) {v : PrivState H}
    (hv : exec step s front = some v) (l : Line) (hl : l ≠ .sw)
    (hbit : v.mie.getLsbD l.ix = true) : WokenActive s front l := by
  induction front using List.reverseRecOn generalizing back v with
  | nil =>
      obtain rfl := Option.some.inj hv
      rw [hmie] at hbit
      exact absurd hbit (by simp)
  | append_singleton front c ih =>
      obtain ⟨m, hm, hc⟩ := (exec_concat_iff step).mp hv
      have hcs' : cs = front ++ c :: back := by simp [hcs]
      have hold : m.mie.getLsbD l.ix = true → WokenActive s front l := ih (c :: back) hcs' hm
      by_cases hsleep : c = .cpuEvent .onSleep
      · subst hsleep
        obtain rfl := Option.some.inj hc
        have hclear := sleep_clears hkept hcs' hm fun _ => hold
        exact absurd (hclear.symm.trans hbit) (by simp)
      · by_cases hwake : c = .cpuEvent .onWakeup
        · subst hwake
          obtain rfl := Option.some.inj hc
          rw [mie_wakeup, decide_eq_false hl, Bool.false_or, Bool.or_eq_true] at hbit
          rcases hbit with hbit | hactive
          · exact (hold hbit).concat hsleep
          · exact ⟨front, [], m, rfl, List.not_mem_nil, hm, hactive⟩
        · rw [step_mie hc hwake hsleep] at hbit
          exact (hold hbit).concat hsleep

/-- A bit stays set until a sleep. -/
theorem mie_stays {cs : List (PrivCall H)} (hcs : .cpuEvent .onSleep ∉ cs)
    (ht : exec step s cs = some t) {l : Line} (hbit : s.mie.getLsbD l.ix = true) :
    t.mie.getLsbD l.ix = true := by
  have hlabels : ∀ c ∈ cs, (fun c => c ≠ PrivCall.cpuEvent .onSleep) c := by
    rintro c hc rfl
    exact hcs hc
  refine exec_invariant_of_labels (I := fun s => s.mie.getLsbD l.ix = true) hbit hlabels ht ?_
  intro s c s' hs hc hstep
  by_cases hwake : c = .cpuEvent .onWakeup
  · subst hwake
    obtain rfl := Option.some.inj hstep
    rw [mie_wakeup, hs, Bool.true_or]
  · rw [step_mie hstep hwake hc]
    exact hs

/-- Every sequence of calls returns. After each of its sleeps the bits for software, timer
and external interrupts are clear exactly if each timer or external line that is active at a
wake-up is active at the next sleep too. -/
theorem sleep_masks_iff (s : PrivState H) (hmie : s.mie = 0) (hends : Ends s.lists.next)
    (cs : List (PrivCall H)) :
    (∃ t, exec step s cs = some t) ∧
      ((∀ front back v, cs = front ++ .cpuEvent .onSleep :: back →
          exec step s (front ++ [.cpuEvent .onSleep]) = some v →
          ∀ l : Line, v.mie.getLsbD l.ix = false) ↔ KeptUntilSleep s cs) := by
  refine ⟨exec_ends hends cs, ?_, ?_⟩
  · intro hclear front mid back u v l hcs hmid hu hv hl hactive
    -- the bit is set at the wake-up and stays set, so the sleep has to clear it
    obtain ⟨m, hm, hrest⟩ := (exec_append_iff step).mp hv
    obtain rfl := Option.some.inj (hm.symm.trans hu)
    obtain ⟨w, hw, hrest⟩ := (exec_cons_iff step).mp hrest
    obtain rfl := Option.some.inj hw
    have hset : v.mie.getLsbD l.ix = true := by
      apply mie_stays hmid hrest
      rw [mie_wakeup, hactive, Bool.or_true, Bool.or_true]
    have hafter := hclear _ back _ hcs ((exec_concat_iff step).mpr ⟨v, hv, rfl⟩) l
    rw [mie_sleep, hset, decide_eq_false hl] at hafter
    simpa using hafter
  · intro hkept front back v hcs hv l
    obtain ⟨m, hm, hsleep⟩ := (exec_concat_iff step).mp hv
    obtain rfl := Option.some.inj hsleep
    exact sleep_clears hkept hcs hm fun hl hbit => mie_origin hmie hkept front _ hcs hm l hl hbit

/-- A timer handler is added, the CPU wakes up, the timer interrupt is disabled, and the CPU
goes to sleep with the bit for it set. -/
theorem sleep_leaves_timer_bit :
    ∃ t : PrivState (Fin 1),
      exec step added [.addHandler 7 (some 0), .cpuEvent .onWakeup, .disable 7,
        .cpuEvent .onSleep] = some t ∧ t.mie.getLsbD Line.tm.ix = true :=
  ⟨_, rfl, by decide⟩

theorem sleep_masks_iff_disabled :
    ¬ KeptUntilSleep (added : PrivState (Fin 1))
      [.addHandler 7 (some 0), .cpuEvent .onWakeup, .disable 7, .cpuEvent .onSleep] := by
  intro hkept
  have hclear := (sleep_masks_iff added rfl (Ends.of_none fun _ => rfl) _).2.mpr hkept
    [.addHandler 7 (some 0), .cpuEvent .onWakeup, .disable 7] [] _ rfl rfl .tm
  exact absurd hclear (by decide)

end PrivState

end Steps

section Families

variable {I H : Type} [DecidableEq I] [DecidableEq H] [Fintype H]

/-- The lists of one controller, in the state of all controllers. -/
def IntcState.eventLists (s : IntcState I H) (c : I) : EventLists Line H :=
  ⟨Sum.elim (fun l => s.lists.head (c, l)) s.lists.next, s.event⟩

omit [DecidableEq I] [DecidableEq H] in
theorem IntcState.behind (s : IntcState I H) (hs : s.lists.Consistent) (c : I) (l : Line) :
    Behind (s.eventLists c).next (.inl l) (s.lists.list (c, l)) :=
  hs.chain (c, l)

/-- The links that are written for a new handler. -/
theorem IntcState.eventLists_link (s : IntcState I H) (hs : s.lists.Consistent) (c : I) (l : Line)
    (handler : H) :
    Function.update (Function.update (s.eventLists c).next
        (lastOf (.inl l) (s.lists.list (c, l))) (some handler)) (.inr handler) none =
      Sum.elim (fun j => (kEventAddHandler s.lists (c, l) handler).head (c, j))
        (kEventAddHandler s.lists (c, l) handler).next := by
  simp only [lastOf_eq_getLast?, IntcState.eventLists, kEventAddHandler]
  cases hlast : (s.lists.list (c, l)).getLast? with
  | none =>
      obtain ⟨-, hhead, hnext⟩ := Family.Lists.attach_first hs hlast handler
      have hinj : Function.Injective fun j : Line => (c, j) := fun _ _ h => (Prod.mk.inj h).2
      rw [hhead, hnext]
      simp only [Option.elim_none, Sum.update_elim_inl, Sum.update_elim_inr]
      exact congrArg (Sum.elim · _)
        (Function.update_comp_eq_of_injective s.lists.head hinj l (some handler)).symm
  | some z =>
      obtain ⟨hhead, hnext⟩ := Family.Lists.attach_last hs hlast handler
      rw [hhead, hnext]
      simp only [Option.elim_some, Sum.update_elim_inr]

/-- Handlers are linked into the lists of a controller as into those of all controllers. -/
theorem intcPrivAddHandler_eventLists (s : IntcState I H) (hs : s.lists.Consistent) (c : I)
    (event : Int) (handler : H) {p : PrivState H} (hp : p.lists = s.eventLists c) :
    (p.intcPrivAddHandler event (some handler)).map (fun out => (out.1.lists, out.2)) =
      some ((intcPrivAddHandler c event handler s).1.eventLists c,
        (intcPrivAddHandler c event handler s).2) := by
  simp only [PrivState.intcPrivAddHandler, PrivState.changeList, intcPrivAddHandler]
  cases Line.ofEvent event with
  | none => simp [hp]
  | some l =>
      have hadd := EventLists.kEventAddHandler_eq (s.behind hs c l) handler
      simp only [hp, hadd, Option.map_some]
      simp only [PrivState.updateHas, IntcState.eventLists, ne_eq, not_true_eq_false, if_false]
      rw [← s.eventLists_link hs c l handler]
      rfl

omit [DecidableEq I] [DecidableEq H] [Fintype H] in
theorem callEach_handled_iff {σ : Type} {func : H → Int → σ → σ × Int} {handles : H → Bool}
    {event : Int} (hfunc : ∀ h w, (func h event w).2 = eventHandled ↔ handles h = true)
    (hs : List H) (w : σ) :
    (∃ c ∈ (callEach func event hs w).2, c.2 = eventHandled) ↔ hs.any handles = true := by
  induction hs generalizing w with
  | nil => simp [callEach]
  | cons h hs ih =>
      simp only [callEach, List.exists_mem_cons_iff, List.any_cons, Bool.or_eq_true, hfunc, ih]

omit [DecidableEq I] [DecidableEq H] in
/-- An event is handled in the list of a controller as in the same list among those of all
controllers: the same handlers are called in the same order, and their results decide. -/
theorem kEventHandleGeneric_eventLists {σ : Type} (s : IntcState I H) (hs : s.lists.Consistent)
    (c : I) (l : Line) {func : H → Int → σ → σ × Int} {handles : H → Bool} {event : Int}
    (hfunc : ∀ h w, (func h event w).2 = eventHandled ↔ handles h = true) (w : σ) :
    ((s.eventLists c).kEventHandleGeneric func event (s.lists.head (c, l)) w).map
        (fun out => (out.calls.map Prod.fst, decide (out.res = eventHandled))) =
      some (kEventHandleGeneric s handles event (s.lists.head (c, l))) := by
  have hbehind := s.behind hs c l
  have hloop := EventLists.handleLoop_eq hbehind func event hbehind.nodup.length_le_card
    eventNotHandled w
  have hres := callEach_handled_iff hfunc
    ((s.lists.list (c, l)).filter ((s.eventLists c).event · = event)) w
  have hcalled : kEventHandleGeneric s handles event (s.lists.head (c, l)) =
      ((s.lists.list (c, l)).filter ((s.eventLists c).event · = event),
        ((s.lists.list (c, l)).filter ((s.eventLists c).event · = event)).any handles) := rfl
  rw [EventLists.kEventHandleGeneric, hcalled]
  refine (congrArg (Option.map _) hloop).trans ?_
  simp only [Option.map_some, callEach_handlers, Option.some.injEq, Prod.mk.injEq, true_and]
  rw [Bool.eq_iff_iff, decide_eq_true_iff, ← hres]
  split
  · simp_all
  · simp_all [eventHandled, eventNotHandled]

end Families

end BaremetalCrt
