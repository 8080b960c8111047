import BaremetalCrt.Library.RegisterMachine

/-!
# Routines and code that calls them

A routine is a function known by its steps only. A run of it can be interrupted
between two steps by something that changes the state and lets the routine go on
where it was. Code with labels is given by its pieces of straight-line code, how each
of them is left, and what the routines do that it calls.
-/

namespace RegisterMachine

section Routine

variable {M : Type}

/-- A function: the places of its code and its own steps on the state. -/
structure Routine (M : Type) where
  Loc : Type
  start : Loc
  done : Loc
  step : Loc × M → Loc × M → Prop

/-- Runs of a routine with interruptions. -/
inductive Routine.Run (f : Routine M) (interrupt : M → M → Prop) (x : f.Loc × M) :
    f.Loc × M → Prop
  | refl : Run f interrupt x x
  | step {y z : f.Loc × M} (run : Run f interrupt x y) (own : f.step y z) : Run f interrupt x z
  | interrupted {p : f.Loc} {m m' : M} (run : Run f interrupt x (p, m)) (h : interrupt m m') :
      Run f interrupt x (p, m')

/-- A call that returns. -/
def Routine.Returns (f : Routine M) (interrupt : M → M → Prop) (m m' : M) : Prop :=
  f.Run interrupt (f.start, m) (f.done, m')

/-- Interruptions that are of a kind wherever they can occur. -/
theorem Routine.Run.refine {f : Routine M} {I J : M → M → Prop} {x y : f.Loc × M}
    (h : ∀ p m m', f.Run J x (p, m) → I m m' → J m m') (run : f.Run I x y) : f.Run J x y := by
  induction run with
  | refl => exact Run.refl
  | step _ own ih => exact ih.step own
  | interrupted _ hi ih => exact ih.interrupted (h _ _ _ ih hi)

end Routine

variable {ρ κ : Type} {w : Nat} {Λ F : Type}

/-- The conditions of branches; the order is that of signed numbers. -/
inductive Cond where
  | eq | ne | lt | ge

def Cond.holds (a b : BitVec w) : Cond → Bool
  | eq => a == b
  | ne => a != b
  | lt => a.slt b
  | ge => !a.slt b

/-- How a piece of code is left: for another piece, for the one or the other of two,
after the return of a named routine or of the one at the address in a register, or for
good. -/
inductive Exit (ρ Λ F : Type) where
  | jump (next : Λ)
  | branch (c : Cond) (a b : Option ρ) (taken next : Λ)
  | call (f : F) (next : Λ)
  | jalr (r : ρ) (next : Λ)
  | leave

structure Piece (ρ κ : Type) (w : Nat) (Λ F : Type) where
  code : List (Instr ρ κ w)
  exit : Exit ρ Λ F

/-- Pieces of code, the addresses of their labels and the register for return addresses. -/
structure Program (ρ κ : Type) (w : Nat) (Λ F : Type) where
  piece : Λ → Piece ρ κ w Λ F
  address : Λ → BitVec w
  link : ρ

variable [DecidableEq ρ] [DecidableEq κ]

/-- Runs from a label to the end, with the states at which the calls returned. -/
inductive Program.Exec (p : Program ρ κ w Λ F)
    (calls : F ⊕ BitVec w → State ρ κ w → State ρ κ w → Prop) :
    Λ → State ρ κ w → List (State ρ κ w) → State ρ κ w → Prop
  | leave {l : Λ} {m : State ρ κ w} (h : (p.piece l).exit = .leave) :
      Exec p calls l m [] (run (p.piece l).code m)
  | jump {l next : Λ} {m m' : State ρ κ w} {rets : List (State ρ κ w)}
      (h : (p.piece l).exit = .jump next)
      (rest : Exec p calls next (run (p.piece l).code m) rets m') : Exec p calls l m rets m'
  | branch {l taken next : Λ} {c : Cond} {a b : Option ρ} {m m' : State ρ κ w}
      {rets : List (State ρ κ w)} (h : (p.piece l).exit = .branch c a b taken next)
      (rest : Exec p calls
        (if c.holds ((run (p.piece l).code m).get a) ((run (p.piece l).code m).get b) then taken
          else next) (run (p.piece l).code m) rets m') : Exec p calls l m rets m'
  | call {l next : Λ} {f : F} {m m₁ m' : State ρ κ w} {rets : List (State ρ κ w)}
      (h : (p.piece l).exit = .call f next)
      (called : calls (.inl f) ((run (p.piece l).code m).set (some p.link) (p.address next)) m₁)
      (rest : Exec p calls next m₁ rets m') : Exec p calls l m (m₁ :: rets) m'
  | jalr {l next : Λ} {r : ρ} {m m₁ m' : State ρ κ w} {rets : List (State ρ κ w)}
      (h : (p.piece l).exit = .jalr r next)
      (called : calls (.inr ((run (p.piece l).code m).reg r))
        ((run (p.piece l).code m).set (some p.link) (p.address next)) m₁)
      (rest : Exec p calls next m₁ rets m') : Exec p calls l m (m₁ :: rets) m'

/-- The calls that runs from a label get to, with the state in which they are made. -/
inductive Program.Reaches (p : Program ρ κ w Λ F)
    (calls : F ⊕ BitVec w → State ρ κ w → State ρ κ w → Prop) :
    Λ → State ρ κ w → F ⊕ BitVec w → State ρ κ w → Prop
  | call {l next : Λ} {f : F} {m : State ρ κ w} (h : (p.piece l).exit = .call f next) :
      Reaches p calls l m (.inl f) ((run (p.piece l).code m).set (some p.link) (p.address next))
  | jalr {l next : Λ} {r : ρ} {m : State ρ κ w} (h : (p.piece l).exit = .jalr r next) :
      Reaches p calls l m (.inr ((run (p.piece l).code m).reg r))
        ((run (p.piece l).code m).set (some p.link) (p.address next))
  | jump {l next : Λ} {m m' : State ρ κ w} {c : F ⊕ BitVec w}
      (h : (p.piece l).exit = .jump next)
      (rest : Reaches p calls next (run (p.piece l).code m) c m') : Reaches p calls l m c m'
  | branch {l taken next : Λ} {d : Cond} {a b : Option ρ} {m m' : State ρ κ w}
      {c : F ⊕ BitVec w} (h : (p.piece l).exit = .branch d a b taken next)
      (rest : Reaches p calls
        (if d.holds ((run (p.piece l).code m).get a) ((run (p.piece l).code m).get b) then taken
          else next) (run (p.piece l).code m) c m') : Reaches p calls l m c m'
  | afterCall {l next : Λ} {f : F} {m m₁ m' : State ρ κ w} {c : F ⊕ BitVec w}
      (h : (p.piece l).exit = .call f next)
      (called : calls (.inl f) ((run (p.piece l).code m).set (some p.link) (p.address next)) m₁)
      (rest : Reaches p calls next m₁ c m') : Reaches p calls l m c m'
  | afterJalr {l next : Λ} {r : ρ} {m m₁ m' : State ρ κ w} {c : F ⊕ BitVec w}
      (h : (p.piece l).exit = .jalr r next)
      (called : calls (.inr ((run (p.piece l).code m).reg r))
        ((run (p.piece l).code m).set (some p.link) (p.address next)) m₁)
      (rest : Reaches p calls next m₁ c m') : Reaches p calls l m c m'

/-- Every call that is made returns. -/
def Program.CallsReturn (p : Program ρ κ w Λ F)
    (calls : F ⊕ BitVec w → State ρ κ w → State ρ κ w → Prop) (l : Λ) (m : State ρ κ w) : Prop :=
  ∀ c m', p.Reaches calls l m c m' → ∃ m'', calls c m' m''

section Exec

variable {p : Program ρ κ w Λ F} {calls : F ⊕ BitVec w → State ρ κ w → State ρ κ w → Prop}
  {l taken next : Λ} {m m' : State ρ κ w} {rets : List (State ρ κ w)}

theorem Program.exec_leave_iff (h : (p.piece l).exit = .leave) :
    p.Exec calls l m rets m' ↔ rets = [] ∧ m' = run (p.piece l).code m := by
  constructor
  · intro hexec
    cases hexec <;> simp_all
  · rintro ⟨rfl, rfl⟩
    exact .leave h

theorem Program.exec_jump_iff (h : (p.piece l).exit = .jump next) :
    p.Exec calls l m rets m' ↔ p.Exec calls next (run (p.piece l).code m) rets m' := by
  constructor
  · intro hexec
    cases hexec <;> simp_all
  · exact .jump h

theorem Program.exec_branch_iff {c : Cond} {a b : Option ρ}
    (h : (p.piece l).exit = .branch c a b taken next) :
    p.Exec calls l m rets m' ↔ p.Exec calls
      (if c.holds ((run (p.piece l).code m).get a) ((run (p.piece l).code m).get b) then taken
        else next) (run (p.piece l).code m) rets m' := by
  constructor
  · intro hexec
    cases hexec <;> simp_all
  · exact .branch h

theorem Program.exec_call_iff {f : F} (h : (p.piece l).exit = .call f next) :
    p.Exec calls l m rets m' ↔ ∃ m₁ rets', rets = m₁ :: rets' ∧
      calls (.inl f) ((run (p.piece l).code m).set (some p.link) (p.address next)) m₁ ∧
      p.Exec calls next m₁ rets' m' := by
  constructor
  · intro hexec
    cases hexec <;> simp_all
  · rintro ⟨m₁, rets', rfl, hcall, hrest⟩
    exact .call h hcall hrest

theorem Program.exec_jalr_iff {r : ρ} (h : (p.piece l).exit = .jalr r next) :
    p.Exec calls l m rets m' ↔ ∃ m₁ rets', rets = m₁ :: rets' ∧
      calls (.inr ((run (p.piece l).code m).reg r))
        ((run (p.piece l).code m).set (some p.link) (p.address next)) m₁ ∧
      p.Exec calls next m₁ rets' m' := by
  constructor
  · intro hexec
    cases hexec <;> simp_all
  · rintro ⟨m₁, rets', rfl, hcall, hrest⟩
    exact .jalr h hcall hrest

/-- Every run from a label ends in a state with a property, there is one if the calls
return, and all calls are made in states with a property of their own. -/
structure Program.Spec (p : Program ρ κ w Λ F)
    (calls : F ⊕ BitVec w → State ρ κ w → State ρ κ w → Prop) (C : State ρ κ w → Prop) (l : Λ)
    (m : State ρ κ w) (Q : List (State ρ κ w) → State ρ κ w → Prop) : Prop where
  ends : p.CallsReturn calls l m → ∃ rets m', p.Exec calls l m rets m'
  post : ∀ rets m', p.Exec calls l m rets m' → Q rets m'
  call_pre : ∀ c m', p.Reaches calls l m c m' → C m'

variable {C : State ρ κ w → Prop} {Q : List (State ρ κ w) → State ρ κ w → Prop}

theorem Program.Spec.mono {Q' : List (State ρ κ w) → State ρ κ w → Prop}
    (h : p.Spec calls C l m Q) (himp : ∀ rets m', Q rets m' → Q' rets m') :
    p.Spec calls C l m Q' :=
  ⟨h.ends, fun rets m' hexec => himp rets m' (h.post rets m' hexec), h.call_pre⟩

theorem Program.Spec.leave (h : (p.piece l).exit = .leave) (hQ : Q [] (run (p.piece l).code m)) :
    p.Spec calls C l m Q where
  ends := fun _ => ⟨_, _, .leave h⟩
  post := by
    intro rets m' hexec
    obtain ⟨rfl, rfl⟩ := (exec_leave_iff h).mp hexec
    exact hQ
  call_pre := by
    intro c m' hreach
    cases hreach <;> simp_all

theorem Program.Spec.jump (h : (p.piece l).exit = .jump next)
    (hnext : p.Spec calls C next (run (p.piece l).code m) Q) : p.Spec calls C l m Q where
  ends := by
    intro hret
    obtain ⟨rets, m', hexec⟩ := hnext.ends fun c m' hreach => hret c m' (.jump h hreach)
    exact ⟨rets, m', .jump h hexec⟩
  post := fun rets m' hexec => hnext.post rets m' ((exec_jump_iff h).mp hexec)
  call_pre := by
    intro c m' hreach
    apply hnext.call_pre c m'
    cases hreach <;> simp_all

theorem Program.Spec.branch {c : Cond} {a b : Option ρ}
    (h : (p.piece l).exit = .branch c a b taken next)
    (hnext : p.Spec calls C
      (if c.holds ((run (p.piece l).code m).get a) ((run (p.piece l).code m).get b) then taken
        else next) (run (p.piece l).code m) Q) : p.Spec calls C l m Q where
  ends := by
    intro hret
    obtain ⟨rets, m', hexec⟩ := hnext.ends fun c m' hreach => hret c m' (.branch h hreach)
    exact ⟨rets, m', .branch h hexec⟩
  post := fun rets m' hexec => hnext.post rets m' ((exec_branch_iff h).mp hexec)
  call_pre := by
    intro c m' hreach
    apply hnext.call_pre c m'
    cases hreach <;> simp_all

theorem Program.Spec.call {f : F} (h : (p.piece l).exit = .call f next)
    (hpre : C ((run (p.piece l).code m).set (some p.link) (p.address next)))
    (hnext : ∀ m₁,
      calls (.inl f) ((run (p.piece l).code m).set (some p.link) (p.address next)) m₁ →
        p.Spec calls C next m₁ fun rets => Q (m₁ :: rets)) : p.Spec calls C l m Q where
  ends := by
    intro hret
    obtain ⟨m₁, hcall⟩ := hret _ _ (.call h)
    obtain ⟨rets, m', hexec⟩ :=
      (hnext m₁ hcall).ends fun c m' hreach => hret c m' (.afterCall h hcall hreach)
    exact ⟨m₁ :: rets, m', .call h hcall hexec⟩
  post := by
    intro rets m' hexec
    obtain ⟨m₁, rets', rfl, hcall, hrest⟩ := (exec_call_iff h).mp hexec
    exact (hnext m₁ hcall).post rets' m' hrest
  call_pre := by
    intro c m' hreach
    cases hreach with
    | call h' =>
        obtain ⟨rfl, rfl⟩ := Exit.call.inj (h.symm.trans h')
        exact hpre
    | afterCall h' hcall hrest =>
        obtain ⟨rfl, rfl⟩ := Exit.call.inj (h.symm.trans h')
        exact (hnext _ hcall).call_pre c m' hrest
    | _ => simp_all

theorem Program.Spec.jalr {r : ρ} (h : (p.piece l).exit = .jalr r next)
    (hpre : C ((run (p.piece l).code m).set (some p.link) (p.address next)))
    (hnext : ∀ m₁, calls (.inr ((run (p.piece l).code m).reg r))
      ((run (p.piece l).code m).set (some p.link) (p.address next)) m₁ →
        p.Spec calls C next m₁ fun rets => Q (m₁ :: rets)) : p.Spec calls C l m Q where
  ends := by
    intro hret
    obtain ⟨m₁, hcall⟩ := hret _ _ (.jalr h)
    obtain ⟨rets, m', hexec⟩ :=
      (hnext m₁ hcall).ends fun c m' hreach => hret c m' (.afterJalr h hcall hreach)
    exact ⟨m₁ :: rets, m', .jalr h hcall hexec⟩
  post := by
    intro rets m' hexec
    obtain ⟨m₁, rets', rfl, hcall, hrest⟩ := (exec_jalr_iff h).mp hexec
    exact (hnext m₁ hcall).post rets' m' hrest
  call_pre := by
    intro c m' hreach
    cases hreach with
    | jalr h' =>
        obtain ⟨rfl, rfl⟩ := Exit.jalr.inj (h.symm.trans h')
        exact hpre
    | afterJalr h' hcall hrest =>
        obtain ⟨rfl, rfl⟩ := Exit.jalr.inj (h.symm.trans h')
        exact (hnext _ hcall).call_pre c m' hrest
    | _ => simp_all

end Exec

end RegisterMachine
