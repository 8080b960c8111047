import BaremetalCrt.Intc.Handlers

/-!
# Which handlers an interrupt reaches

The table of head handlers has one entry for each interrupt, and every controller of a
hart enters its own heads there when it is added. An interrupt on any hart therefore goes
to the lists of the controller that was added last.
-/

namespace BaremetalCrt

open LabelledSystem

variable {I H : Type} [DecidableEq I] [DecidableEq H] [Fintype H] {kind : I → IntcKind}
  {s : IntcState I H}

/-- The handlers that were added to a controller for an event. -/
def IntcState.RegisteredOn (s : IntcState I H) (c : I) (event : Int) (h : H) : Prop :=
  (c, event, h) ∈ s.log

/-- An interrupt of the hart of a controller calls each handler that was added to this
controller for the interrupt once, and none that was added to another one. -/
def DispatchesOwn (s : IntcState I H) (c : I) (l : Line) : Prop :=
  ∀ (handles : H → Bool) (mcause : Nat), ((mcause % 2 ^ 31 : Nat) : Int) = l.machine →
    (∀ h, s.RegisteredOn c l.machine h → (kArchRiscvInterrupt s handles mcause).1.count h = 1) ∧
      ∀ h c' e, c' ≠ c → s.RegisteredOn c' e h → h ∉ (kArchRiscvInterrupt s handles mcause).1

/-- The handlers of an interrupt that a controller has. -/
def IntcState.targets (s : IntcState I H) (c : I) (l : Line) : List H :=
  (s.lists.list (c, l)).filter (s.event · = l.machine)

omit [DecidableEq I] [DecidableEq H] in
theorem HandlersInv.mem_targets_iff (h : HandlersInv kind s) {c : I} (hc : kind c = .priv)
    {l : Line} {x : H} : x ∈ s.targets c l ↔ s.RegisteredOn c l.machine x := by
  rw [IntcState.targets, List.mem_filter, h.mem_list_iff]
  constructor
  · rintro ⟨⟨_, e, _, hlog⟩, hevent⟩
    have he : e = l.machine := (h.event c e x hlog).symm.trans (of_decide_eq_true hevent)
    exact he ▸ hlog
  · intro hlog
    refine ⟨⟨hc, l.machine, l.ofEvent_machine, hlog⟩, ?_⟩
    exact decide_eq_true (h.event c l.machine x hlog)

omit [DecidableEq I] [DecidableEq H] in
/-- The interrupt goes to the controller that was added last. -/
theorem HandlersInv.interrupt_called (h : HandlersInv kind s) {last : I}
    (hlast : s.order.head? = some last) (handles : H → Bool) {mcause : Nat} {l : Line}
    (hcause : ((mcause % 2 ^ 31 : Nat) : Int) = l.machine) :
    (kArchRiscvInterrupt s handles mcause).1 = s.targets last l := by
  have htable : s.intHandlers l.machine = some (last, l) := by
    rw [h.table l, hlast]
    rfl
  have hsmall : ¬ 12 ≤ l.machine := by cases l <;> decide
  have hmachine : l.machine = 11 ∨ l.machine = 7 ∨ l.machine = 3 := by cases l <;> decide
  simp only [kArchRiscvInterrupt, hcause, if_neg hsmall, htable, intcPrivIntr, if_pos hmachine]
  cases hhead : s.lists.head (last, l) with
  | none =>
      have hnil : Chain s.lists.next (s.lists.head (last, l)) [] := hhead
      have hlist : s.lists.list (last, l) = [] := follow_eq hnil (Nat.zero_le _)
      simp [IntcState.targets, hlist]
  | some child =>
      rw [IntcState.targets, Family.list, hhead]
      rfl

/-- An interrupt reaches the right handlers exactly if the controller of its hart was added
last, or neither it nor the one added last has a handler for it. -/
theorem HandlersInv.dispatchesOwn_iff (h : HandlersInv kind s) {last c : I}
    (hlast : s.order.head? = some last) (hkind : kind last = .priv) (l : Line) :
    DispatchesOwn s c l ↔ last = c ∨
      (∀ x, ¬ s.RegisteredOn c l.machine x) ∧ ∀ x, ¬ s.RegisteredOn last l.machine x := by
  have hmem : ∀ {x}, x ∈ s.targets last l ↔ s.RegisteredOn last l.machine x :=
    h.mem_targets_iff hkind
  have hcause : ∃ mcause : Nat, ((mcause % 2 ^ 31 : Nat) : Int) = l.machine := by
    cases l with
    | sw => exact ⟨3, rfl⟩
    | tm => exact ⟨7, rfl⟩
    | ex => exact ⟨11, rfl⟩
  constructor
  · intro hown
    by_cases heq : last = c
    · exact Or.inl heq
    · right
      obtain ⟨mcause, hm⟩ := hcause
      obtain ⟨hall, hnone⟩ := hown (fun _ => true) mcause hm
      rw [h.interrupt_called hlast _ hm] at hall hnone
      constructor
      · intro x hx
        have hcalled : x ∈ s.targets last l := List.count_pos_iff.mp (by rw [hall x hx]; decide)
        exact heq (h.log_unique (hmem.mp hcalled) hx).1
      · intro x hx
        exact hnone x last l.machine heq hx (hmem.mpr hx)
  · intro hcases handles mcause hm
    rw [h.interrupt_called hlast _ hm]
    have hnodup : (s.targets last l).Nodup := (h.lists.nodup (last, l)).filter _
    rcases hcases with rfl | ⟨hown, hother⟩
    · refine ⟨fun x hx => List.count_eq_one_of_mem hnodup (hmem.mpr hx), ?_⟩
      intro x c' e hne hx hcalled
      exact hne (h.log_unique hx (hmem.mp hcalled)).1
    · refine ⟨fun x hx => absurd hx (hown x), ?_⟩
      intro x c' e _ _ hcalled
      exact hother x (hmem.mp hcalled)

theorem HandlersInv.of_run {events : List (IntcEvent I H)}
    (hrun : exec (intcStep kind) IntcState.boot events = some s) : HandlersInv kind s :=
  Reachable.invariant (fun _ _ _ h hstep => h.step hstep) HandlersInv.boot ⟨events, hrun⟩

/-- After any run of probes and additions, for any interrupt and any controller that was
added: its hart's interrupts are dispatched to its own handlers exactly if no controller was
added after it, or neither it nor the last one has a handler for the interrupt. -/
theorem interrupt_dispatch_iff (kind : I → IntcKind) (events : List (IntcEvent I H))
    (s : IntcState I H) (hrun : exec (intcStep kind) IntcState.boot events = some s) (c : I)
    (hc : c ∈ s.order) (l : Line) :
    DispatchesOwn s c l ↔ s.order.head? = some c ∨
      (∀ x, ¬ s.RegisteredOn c l.machine x) ∧
        ∀ last, s.order.head? = some last → ∀ x, ¬ s.RegisteredOn last l.machine x := by
  have hinv := HandlersInv.of_run hrun
  cases horder : s.order with
  | nil => exact absurd (horder ▸ hc) List.not_mem_nil
  | cons last rest =>
      have hlast : s.order.head? = some last := by rw [horder]; rfl
      have hkind : kind last = .priv := hinv.order_priv last (by rw [horder]; simp)
      rw [hinv.dispatchesOwn_iff hlast hkind l]
      simp [eq_comm]

/-- Two harts with a timer handler each. -/
def twoTimers : List (IntcEvent (Fin 2) (Fin 2)) :=
  [.probe 0 0, .probe 1 0, .add 0 7 0, .add 1 7 1]

/-- The timer interrupt of hart 0 calls the handler of hart 1 and not its own. -/
theorem timer_interrupt_misdirected : ∃ s,
    exec (intcStep fun _ => .priv) IntcState.boot twoTimers = some s ∧
      s.RegisteredOn 0 7 0 ∧ s.RegisteredOn 1 7 1 ∧
      (kArchRiscvInterrupt s (fun _ => true) (2 ^ 63 + 7)).1 = [1] ∧
      ¬ DispatchesOwn s 0 .tm := by
  have heval : (exec (intcStep fun _ => .priv) IntcState.boot twoTimers).map (fun s =>
      (s.log, (kArchRiscvInterrupt s (fun _ => true) (2 ^ 63 + 7)).1)) =
        some ([(1, 7, 1), (0, 7, 0)], [1]) := by
    decide +kernel
  obtain ⟨s, hs, hlog⟩ := Option.map_eq_some_iff.mp heval
  obtain ⟨hlog, hcalled⟩ := Prod.mk.inj hlog
  have hown : s.RegisteredOn 0 7 0 := by
    rw [IntcState.RegisteredOn, hlog]
    decide
  have hother : s.RegisteredOn 1 7 1 := by
    rw [IntcState.RegisteredOn, hlog]
    decide
  refine ⟨s, hs, hown, hother, hcalled, ?_⟩
  intro hright
  have hcount := (hright (fun _ => true) (2 ^ 63 + 7) (by decide)).1 0 hown
  rw [hcalled] at hcount
  exact absurd hcount (by decide)

/-- With one controller the interrupt reaches its handler. -/
theorem interrupt_dispatch_iff_single : ∃ s,
    exec (intcStep fun _ => .priv) IntcState.boot
      ([.probe 0 0, .add 0 7 0] : List (IntcEvent (Fin 1) (Fin 1))) = some s ∧
      DispatchesOwn s 0 .tm := by
  have heval : (exec (intcStep fun _ => .priv) IntcState.boot
      ([.probe 0 0, .add 0 7 0] : List (IntcEvent (Fin 1) (Fin 1)))).map IntcState.order =
        some [0] := by
    decide +kernel
  obtain ⟨s, hs, horder⟩ := Option.map_eq_some_iff.mp heval
  refine ⟨s, hs, (interrupt_dispatch_iff _ _ s hs 0 (by rw [horder]; simp) .tm).mpr (Or.inl ?_)⟩
  rw [horder]
  rfl

end BaremetalCrt
