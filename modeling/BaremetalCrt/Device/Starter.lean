import BaremetalCrt.Device.Boot
import BaremetalCrt.Library.Runs
import Mathlib.Data.Option.Defs

/-!
# Callbacks with data of their own

A callback does more than answer: it fills in tables of its driver, and later callbacks
read them. Probing is the same walk whatever a start of a device or a bus works on, so
the walk is stated for any state. With callbacks that only answer it is the walk of
`k_device_probe_all`.

## Implementation notes

The order in which a walk starts devices and buses is recorded beside the state where a
statement needs it; the source has no field for it.
-/

namespace BaremetalCrt

open LabelledSystem

/-- How devices and buses are started, on some state. -/
structure Starter (D B S : Type) where
  dev : D → S → S × Int
  bus : B → S → S × Int
  probed : S → D → Bool

variable {D B R S T σ : Type} [Fintype D] [Fintype B]

namespace Starter

/-- The loop of `bus_probe`. -/
def loop (probe : D → S → Option (S × Int)) : List D → S → Int → Option (S × Int)
  | [], s, r => some (s, r)
  | d :: ds, s, r =>
      (probe d s).bind fun out =>
        if isError out.2 then some out
        else loop probe ds out.1 (if out.2 = -eagain then -eagain else r)

variable (P : Starter D B S) (l : Links D B R)

/-- `bus_probe`, with the call for a device. -/
def busProbe (probe : D → S → Option (S × Int)) (b : B) (s : S) : Option (S × Int) :=
  if (P.bus b s).2 ≠ 0 then some (P.bus b s) else loop probe (l.children b) (P.bus b s).1 0

/-- `device_probe`; the first number bounds the depth of the calls. -/
def deviceProbe : Nat → D → S → Option (S × Int)
  | 0, _, _ => none
  | n + 1, d, s =>
      if (P.dev d s).2 ≠ 0 then some (P.dev d s)
      else
        match P.probed (P.dev d s).1 d, l.busChild d with
        | true, some b => P.busProbe l (deviceProbe n) b (P.dev d s).1
        | _, _ => some ((P.dev d s).1, 0)

/-- The second loop of `init_drivers`. -/
def initLoop (root : D) : Nat → S → Int → Option (S × Int)
  | 0, _, _ => none
  | n + 1, s, res =>
      (P.deviceProbe l (Fintype.card (D ⊕ B)) root s).bind fun out =>
        if isError out.2 then some out
        else if out.2 = -eagain then initLoop root n out.1 res
        else some (out.1, res)

/-- One start, as a step. -/
def step (s : S) : D ⊕ B → Option S
  | .inl d => some (P.dev d s).1
  | .inr b => some (P.bus b s).1

/-- The result of one start. -/
def result (s : S) : D ⊕ B → Int
  | .inl d => (P.dev d s).2
  | .inr b => (P.bus b s).2

/-- A start that does not end the walk. -/
def Goes (s : S) (i : D ⊕ B) : Prop := isError (P.result s i) = false

/-- The same starts, with their order recorded. -/
def traced : Starter D B (S × List (D ⊕ B)) where
  dev := fun d x => (((P.dev d x.1).1, x.2 ++ [.inl d]), (P.dev d x.1).2)
  bus := fun b x => (((P.bus b x.1).1, x.2 ++ [.inr b]), (P.bus b x.1).2)
  probed := fun x d => P.probed x.1 d

/-- Two ways of starting the devices of a tree that keep related states related and have
the same results. -/
structure Sim (Q : Starter D B T) (on : D → Prop) (rel : S → T → Prop) : Prop where
  dev : ∀ d s t, on d → rel s t →
    rel (P.dev d s).1 (Q.dev d t).1 ∧ (P.dev d s).2 = (Q.dev d t).2
  bus : ∀ d b s t, on d → l.busChild d = some b → rel s t →
    rel (P.bus b s).1 (Q.bus b t).1 ∧ (P.bus b s).2 = (Q.bus b t).2
  probed : ∀ d s t, rel s t → P.probed s d = Q.probed t d
  child : ∀ d b c, on d → l.busChild d = some b → c ∈ l.children b → on c

/-- A device that was started without an error or a delay is probed, and stays so. -/
structure Marks : Prop where
  start : ∀ d s, (P.dev d s).2 = 0 → P.probed (P.dev d s).1 d = true
  keep : ∀ s t i d, P.step s i = some t → P.probed s d = true → P.probed t d = true

/-- Related states with the same result. -/
def SameResult (rel : S → T → Prop) (x : S × Int) (y : T × Int) : Prop :=
  rel x.1 y.1 ∧ x.2 = y.2

section Simulation

variable {P l} {Q : Starter D B T} {on : D → Prop} {rel : S → T → Prop}

omit [Fintype D] in
theorem loop_sim {probe : D → S → Option (S × Int)} {probe' : D → T → Option (T × Int)}
    {ds : List D}
    (hprobe : ∀ d ∈ ds, ∀ s t, rel s t → Option.Rel (SameResult rel) (probe d s) (probe' d t))
    {s : S} {t : T} (h : rel s t) (r : Int) :
    Option.Rel (SameResult rel) (loop probe ds s r) (loop probe' ds t r) := by
  induction ds generalizing s t r with
  | nil => exact Option.Rel.some ⟨h, rfl⟩
  | cons d ds ih =>
      have hd := hprobe d List.mem_cons_self s t h
      simp only [loop]
      generalize probe d s = out at hd
      generalize probe' d t = out' at hd
      cases hd with
      | none => exact Option.Rel.none
      | @some x y hxy =>
          obtain ⟨hrel, hres⟩ := hxy
          simp only [Option.bind_some, hres]
          split
          · exact Option.Rel.some ⟨hrel, hres⟩
          · exact ih (fun c hc => hprobe c (List.mem_cons_of_mem d hc)) hrel _

omit [Fintype B] in
theorem Sim.busProbe (h : Sim P l Q on rel) {probe : D → S → Option (S × Int)}
    {probe' : D → T → Option (T × Int)} {d : D} {b : B} (hd : on d) (hb : l.busChild d = some b)
    (hprobe : ∀ c, on c → ∀ s t, rel s t → Option.Rel (SameResult rel) (probe c s) (probe' c t))
    {s : S} {t : T} (hst : rel s t) :
    Option.Rel (SameResult rel) (P.busProbe l probe b s) (Q.busProbe l probe' b t) := by
  obtain ⟨hrel, hres⟩ := h.bus d b s t hd hb hst
  simp only [Starter.busProbe, hres]
  split
  · exact Option.Rel.some ⟨hrel, hres⟩
  · exact loop_sim (fun c hc => hprobe c (h.child d b c hd hb hc)) hrel 0

omit [Fintype B] in
theorem Sim.deviceProbe (h : Sim P l Q on rel) (n : Nat) {d : D} (hd : on d) {s : S} {t : T}
    (hst : rel s t) :
    Option.Rel (SameResult rel) (P.deviceProbe l n d s) (Q.deviceProbe l n d t) := by
  induction n generalizing d s t with
  | zero => exact Option.Rel.none
  | succ n ih =>
      obtain ⟨hrel, hres⟩ := h.dev d s t hd hst
      simp only [Starter.deviceProbe, hres, h.probed d _ _ hrel]
      split
      · exact Option.Rel.some ⟨hrel, hres⟩
      · split
        · rename_i b _ hb
          exact h.busProbe hd hb (fun c hc s t => ih hc) hrel
        · exact Option.Rel.some ⟨hrel, rfl⟩

/-- Whole loops keep related states related and have the same results. -/
theorem Sim.initLoop (h : Sim P l Q on rel) {root : D} (hroot : on root) (n : Nat) {s : S}
    {t : T} (hst : rel s t) (res : Int) :
    Option.Rel (SameResult rel) (P.initLoop l root n s res) (Q.initLoop l root n t res) := by
  induction n generalizing s t with
  | zero => exact Option.Rel.none
  | succ n ih =>
      have hpass := h.deviceProbe (Fintype.card (D ⊕ B)) hroot hst
      simp only [Starter.initLoop]
      generalize P.deviceProbe l (Fintype.card (D ⊕ B)) root s = out at hpass
      generalize Q.deviceProbe l (Fintype.card (D ⊕ B)) root t = out' at hpass
      cases hpass with
      | none => exact Option.Rel.none
      | @some x y hxy =>
          obtain ⟨hrel, hres⟩ := hxy
          simp only [Option.bind_some, hres]
          split
          · exact Option.Rel.some ⟨hrel, hres⟩
          · split
            · exact ih hrel
            · exact Option.Rel.some ⟨hrel, rfl⟩

/-- What every start on the walk keeps holds when the loop ends. -/
theorem initLoop_invariant {I : S → Prop} {root : D} (hroot : on root)
    (hdev : ∀ d s, on d → I s → I (P.dev d s).1)
    (hbus : ∀ d b s, on d → l.busChild d = some b → I s → I (P.bus b s).1)
    (hchild : ∀ d b c, on d → l.busChild d = some b → c ∈ l.children b → on c)
    {n : Nat} {s s' : S} {res r : Int} (h : P.initLoop l root n s res = some (s', r))
    (hs : I s) : I s' := by
  have hsim : Sim P l P on (fun s t => s = t ∧ I s) := by
    refine ⟨?_, ?_, ?_, hchild⟩
    · rintro d s _ hd ⟨rfl, hi⟩
      exact ⟨⟨rfl, hdev d s hd hi⟩, rfl⟩
    · rintro d b s _ hd hb ⟨rfl, hi⟩
      exact ⟨⟨rfl, hbus d b s hd hb hi⟩, rfl⟩
    · rintro d s _ ⟨rfl, -⟩
      rfl
  have hrel := hsim.initLoop hroot n ⟨rfl, hs⟩ res
  rw [h] at hrel
  cases hrel with
  | some hsame => exact hsame.1.2

end Simulation

section Runs

variable {P l}

omit [Fintype D] [Fintype B] in
theorem loop_reachable {probe : D → S → Option (S × Int)} {ds : List D}
    (hprobe : ∀ d ∈ ds, ∀ s s' e, probe d s = some (s', e) → Reachable P.step s s')
    {s s' : S} {r e : Int} (h : loop probe ds s r = some (s', e)) : Reachable P.step s s' := by
  induction ds generalizing s r with
  | nil =>
      obtain ⟨rfl, -⟩ := Prod.mk.inj (Option.some.inj h)
      exact Reachable.refl s
  | cons d ds ih =>
      obtain ⟨⟨s₁, e₁⟩, hd, h⟩ := Option.bind_eq_some_iff.mp h
      have hfirst := hprobe d List.mem_cons_self s s₁ e₁ hd
      dsimp only at h
      split at h
      · obtain ⟨rfl, -⟩ := Prod.mk.inj (Option.some.inj h)
        exact hfirst
      · exact hfirst.trans (ih (fun c hc => hprobe c (List.mem_cons_of_mem d hc)) h)

omit [Fintype B] in
theorem deviceProbe_reachable {n : Nat} {d : D} {s s' : S} {r : Int}
    (h : P.deviceProbe l n d s = some (s', r)) : Reachable P.step s s' := by
  induction n generalizing d s s' r with
  | zero => exact absurd h (by simp [deviceProbe])
  | succ n ih =>
      have hdev : Reachable P.step s (P.dev d s).1 := Reachable.one (l := .inl d) rfl
      simp only [deviceProbe] at h
      split at h
      · rw [Option.some.inj h] at hdev
        exact hdev
      · split at h
        · rename_i b _ _
          have hbus : Reachable P.step s (P.bus b (P.dev d s).1).1 :=
            hdev.snoc (l := .inr b) rfl
          simp only [busProbe] at h
          split at h
          · rw [Option.some.inj h] at hbus
            exact hbus
          · exact hbus.trans (loop_reachable (fun c _ t t' e => ih) h)
        · obtain ⟨rfl, -⟩ := Prod.mk.inj (Option.some.inj h)
          exact hdev

/-- A loop that ends has made one start after the other. -/
theorem initLoop_reachable {root : D} {n : Nat} {s s' : S} {res r : Int}
    (h : P.initLoop l root n s res = some (s', r)) : Reachable P.step s s' := by
  induction n generalizing s with
  | zero => exact absurd h (by simp [initLoop])
  | succ n ih =>
      obtain ⟨⟨s₁, e⟩, hpass, h⟩ := Option.bind_eq_some_iff.mp h
      have hfirst := deviceProbe_reachable hpass
      dsimp only at h
      split at h
      · obtain ⟨rfl, -⟩ := Prod.mk.inj (Option.some.inj h)
        exact hfirst
      · split at h
        · exact hfirst.trans (ih h)
        · obtain ⟨rfl, -⟩ := Prod.mk.inj (Option.some.inj h)
          exact hfirst

omit [Fintype D] [Fintype B] in
theorem exec_traced {x : S × List (D ⊕ B)} {s' : S} {t : List (D ⊕ B)} {is : List (D ⊕ B)}
    (h : exec P.traced.step x is = some (s', t)) :
    exec P.step x.1 is = some s' ∧ t = x.2 ++ is := by
  induction is generalizing x with
  | nil =>
      obtain rfl := Option.some.inj h
      exact ⟨rfl, (List.append_nil _).symm⟩
  | cons i is ih =>
      obtain ⟨y, hi, h⟩ := (exec_cons_iff _).mp h
      obtain ⟨hexec, rfl⟩ := ih h
      cases i with
      | inl d =>
          obtain rfl := Option.some.inj hi
          exact ⟨hexec, List.append_assoc ..⟩
      | inr b =>
          obtain rfl := Option.some.inj hi
          exact ⟨hexec, List.append_assoc ..⟩

/-- The recorded order leads to the state that the loop ends in. -/
theorem traced_initLoop {root : D} {n : Nat} {s s' : S} {is : List (D ⊕ B)} {res r : Int}
    (h : P.traced.initLoop l root n (s, []) res = some ((s', is), r)) :
    P.initLoop l root n s res = some (s', r) ∧ exec P.step s is = some s' := by
  constructor
  · have hsim : Sim P l P.traced (fun _ => True) (fun s x => s = x.1) := by
      refine ⟨?_, ?_, ?_, fun _ _ _ _ _ _ => trivial⟩
      · rintro d _ x - rfl
        exact ⟨rfl, rfl⟩
      · rintro _ b _ x - - rfl
        exact ⟨rfl, rfl⟩
      · rintro d _ x rfl
        rfl
    have hrel : Option.Rel (SameResult fun s (x : S × List (D ⊕ B)) => s = x.1)
        (P.initLoop l root n s res) (P.traced.initLoop l root n (s, []) res) := by
      apply hsim.initLoop
      · trivial
      · rfl
    rw [h] at hrel
    cases hloop : P.initLoop l root n s res with
    | none =>
        rw [hloop] at hrel
        cases hrel
    | some out =>
        rw [hloop] at hrel
        cases hrel with
        | some hsame => exact congrArg some (Prod.ext hsame.1 hsame.2)
  · obtain ⟨is', hexec⟩ := initLoop_reachable h
    obtain ⟨hend, rfl⟩ := exec_traced hexec
    exact hend

/-- One condition after an error, another one otherwise. -/
def Ends (I J : S → Prop) (x : S × Int) : Prop := if isError x.2 then J x.1 else I x.1

omit [Fintype D] in
theorem loop_ends {I J : S → Prop} {probe : D → S → Option (S × Int)} {ds : List D}
    (hprobe : ∀ d ∈ ds, ∀ s x, I s → probe d s = some x → Ends I J x) {s : S} {x : S × Int}
    {r : Int} (hr : isError r = false) (hs : I s) (h : loop probe ds s r = some x) :
    Ends I J x := by
  induction ds generalizing s r with
  | nil =>
      obtain rfl := Option.some.inj h
      simpa [Ends, hr] using hs
  | cons d ds ih =>
      obtain ⟨y, hd, h⟩ := Option.bind_eq_some_iff.mp h
      have hy := hprobe d List.mem_cons_self s y hs hd
      split at h
      · obtain rfl := Option.some.inj h
        exact hy
      · rename_i hok
        rw [Ends, if_neg hok] at hy
        refine ih (fun c hc => hprobe c (List.mem_cons_of_mem d hc)) ?_ hy h
        split
        · decide
        · exact hr

omit [Fintype B] in
theorem deviceProbe_ends {I J : S → Prop} (hdev : ∀ d s, I s → Ends I J (P.dev d s))
    (hbus : ∀ b s, I s → Ends I J (P.bus b s)) {n : Nat} {d : D} {s : S} {x : S × Int} (hs : I s)
    (h : P.deviceProbe l n d s = some x) : Ends I J x := by
  induction n generalizing d s x with
  | zero => exact absurd h (by simp [deviceProbe])
  | succ n ih =>
      have hd := hdev d s hs
      simp only [deviceProbe] at h
      split at h
      · rw [← Option.some.inj h]
        exact hd
      · rename_i hzero
        rw [Ends, if_neg (by rw [not_not.mp hzero]; decide)] at hd
        split at h
        · rename_i b _ _
          have hb := hbus b _ hd
          simp only [busProbe] at h
          split at h
          · rw [← Option.some.inj h]
            exact hb
          · rename_i hzero'
            rw [Ends, if_neg (by rw [not_not.mp hzero']; decide)] at hb
            exact loop_ends (fun c _ t y => ih) (by decide) hb h
        · rw [← Option.some.inj h]
          exact hd

/-- Rule for errors: what every start without an error keeps, or what a start with one
leaves behind, holds when the loop ends. -/
theorem initLoop_ends {I J : S → Prop} (hdev : ∀ d s, I s → Ends I J (P.dev d s))
    (hbus : ∀ b s, I s → Ends I J (P.bus b s)) {root : D} {n : Nat} {s s' : S} {res r : Int}
    (hs : I s) (h : P.initLoop l root n s res = some (s', r)) : I s' ∨ J s' := by
  induction n generalizing s with
  | zero => exact absurd h (by simp [initLoop])
  | succ n ih =>
      obtain ⟨x, hpass, h⟩ := Option.bind_eq_some_iff.mp h
      have hx := deviceProbe_ends hdev hbus hs hpass
      split at h
      · rename_i herr
        obtain rfl := Option.some.inj h
        rw [Ends, if_pos herr] at hx
        exact Or.inr hx
      · rename_i hok
        rw [Ends, if_neg hok] at hx
        split at h
        · exact ih hx h
        · obtain ⟨rfl, -⟩ := Prod.mk.inj (Option.some.inj h)
          exact Or.inl hx

/-- No start but the last one has returned an error. -/
theorem along_of_traced {root : D} {n : Nat} {s s' : S} {is : List (D ⊕ B)} {res r : Int}
    (h : P.traced.initLoop l root n (s, []) res = some ((s', is), r)) :
    Along P.step P.Goes s is.dropLast := by
  have hstart : ∀ (x : S × List (D ⊕ B)) i y,
      exec P.step s x.2 = some x.1 ∧ Along P.step P.Goes s x.2 →
      P.step x.1 i = some y → Ends
        (fun x : S × List (D ⊕ B) => exec P.step s x.2 = some x.1 ∧ Along P.step P.Goes s x.2)
        (fun x => Along P.step P.Goes s x.2.dropLast) ((y, x.2 ++ [i]), P.result x.1 i) := by
    rintro x i y ⟨hexec, halong⟩ hy
    unfold Ends
    split
    · dsimp only
      rw [List.dropLast_concat]
      exact halong
    · rename_i hok
      exact ⟨(exec_concat_iff P.step).mpr ⟨x.1, hexec, hy⟩,
        halong.concat hexec (Bool.eq_false_iff.mpr hok)⟩
  have hboot : exec P.step s [] = some s ∧ Along P.step P.Goes s [] := ⟨rfl, trivial⟩
  have hends := initLoop_ends (P := P.traced) (s := (s, []))
    (fun d x hx => hstart x (.inl d) _ hx rfl) (fun b x hx => hstart x (.inr b) _ hx rfl) hboot h
  rcases hends with ⟨-, halong⟩ | halong
  · rcases List.eq_nil_or_concat' is with rfl | ⟨is, i, rfl⟩
    · trivial
    · rw [List.dropLast_concat]
      exact halong.left
  · exact halong

omit [Fintype D] [Fintype B] in
/-- A loop over devices that returns zero has had zero from each of them, and each stays
as its call has left it. -/
theorem loop_zero {probe : D → S → Option (S × Int)} {ds : List D}
    (hprobe : ∀ d ∈ ds, ∀ s s' e, probe d s = some (s', e) → Reachable P.step s s')
    {s s' : S} {r : Int} (h : loop probe ds s r = some (s', 0)) :
    r = 0 ∧ ∀ d ∈ ds, ∃ t t', probe d t = some (t', 0) ∧ Reachable P.step t' s' := by
  induction ds generalizing s r with
  | nil => exact ⟨(Prod.mk.inj (Option.some.inj h)).2, fun _ hd => absurd hd List.not_mem_nil⟩
  | cons d ds ih =>
      obtain ⟨⟨s₁, e⟩, hd, h⟩ := Option.bind_eq_some_iff.mp h
      dsimp only at h
      split at h
      · rename_i herr
        obtain ⟨-, rfl⟩ := Prod.mk.inj (Option.some.inj h)
        exact absurd herr (by decide)
      · rename_i hok
        have hrest : ∀ c ∈ ds, ∀ s s' e, probe c s = some (s', e) → Reachable P.step s s' :=
          fun c hc => hprobe c (List.mem_cons_of_mem d hc)
        obtain ⟨hacc, hall⟩ := ih hrest h
        rcases isError_eq_false_iff.mp (Bool.eq_false_iff.mpr hok) with rfl | rfl
        · refine ⟨hacc, fun c hc => ?_⟩
          rcases List.mem_cons.mp hc with heq | hc
          · rw [heq]
            exact ⟨s, s₁, hd, loop_reachable hrest h⟩
          · exact hall c hc
        · rw [if_pos rfl] at hacc
          exact absurd hacc (by decide)

omit [Fintype D] [Fintype B] in
theorem Marks.reachable (h : P.Marks) {s s' : S} (hr : Reachable P.step s s') {d : D}
    (hd : P.probed s d = true) : P.probed s' d = true :=
  hr.invariant (I := fun s => P.probed s d = true) (fun s i s' hs hi => h.keep s s' i d hi hs) hd

omit [Fintype B] in
/-- A walk that returns zero has probed every device that it comes to. -/
theorem Marks.deviceProbe_zero (h : P.Marks) {n : Nat} {d e : D} {s s' : S}
    (hp : P.deviceProbe l n d s = some (s', 0)) (he : WalkedFrom l d e) :
    P.probed s' e = true := by
  induction n generalizing d s s' with
  | zero => exact absurd hp (by simp [deviceProbe])
  | succ n ih =>
      simp only [deviceProbe] at hp
      split at hp
      · rename_i hne
        exact absurd (congrArg Prod.snd (Option.some.inj hp)) hne
      · rename_i hzero
        have hown := h.start d s (not_not.mp hzero)
        rw [hown] at hp
        cases hb : l.busChild d with
        | none =>
            rw [hb] at hp
            obtain ⟨rfl, -⟩ := Prod.mk.inj (Option.some.inj hp)
            cases he with
            | self => exact hown
            | child hb' _ _ => exact absurd (hb.symm.trans hb') (by simp)
        | some b =>
            rw [hb] at hp
            simp only [busProbe] at hp
            split at hp
            · rename_i hne
              exact absurd (congrArg Prod.snd (Option.some.inj hp)) hne
            · have hcalls : ∀ c ∈ l.children b, ∀ t t' e, P.deviceProbe l n c t = some (t', e) →
                  Reachable P.step t t' := fun c _ t t' e => deviceProbe_reachable
              cases he with
              | self =>
                  have hbus := h.keep _ _ (.inr b) e rfl hown
                  exact h.reachable (loop_reachable hcalls hp) hbus
              | @child _ c _ b' hb' hc he =>
                  obtain rfl := Option.some.inj (hb.symm.trans hb')
                  obtain ⟨t, t', hct, hreach⟩ := (loop_zero hcalls hp).2 c hc
                  exact h.reachable hreach (ih hct he)

/-- When the loop ends without an error, every device that the walk comes to is probed. -/
theorem Marks.initLoop_end (h : P.Marks) {root e : D} {n : Nat} {s s' : S} {res r : Int}
    (hl : P.initLoop l root n s res = some (s', r)) (hr : isError r = false)
    (he : WalkedFrom l root e) : P.probed s' e = true := by
  induction n generalizing s with
  | zero => exact absurd hl (by simp [initLoop])
  | succ n ih =>
      obtain ⟨⟨s₁, e⟩, hpass, hl⟩ := Option.bind_eq_some_iff.mp hl
      dsimp only at hl
      split at hl
      · rename_i herr
        obtain ⟨-, rfl⟩ := Prod.mk.inj (Option.some.inj hl)
        exact absurd (herr.symm.trans hr) (by simp)
      · rename_i hok
        split at hl
        · exact ih hl
        · rename_i hnot
          obtain ⟨rfl, -⟩ := Prod.mk.inj (Option.some.inj hl)
          have hzero := (isError_eq_false_iff.mp (Bool.eq_false_iff.mpr hok)).resolve_right hnot
          rw [hzero] at hpass
          exact h.deviceProbe_zero hpass he

end Runs

end Starter

variable [Fintype R] [DecidableEq D] [DecidableEq B] [DecidableEq R]

/-- The starts of the framework with callbacks that only answer. -/
def Ops.starter (board : Board D B R) (l : Links D B R) (ops : Ops D B R) :
    Starter D B (ProbeState D B R) where
  dev := deviceStart board l ops
  bus := busStart board l ops
  probed := fun s d => (s.flags.dev d).probed

section Stateless

variable (board : Board D B R) (l : Links D B R) (ops : Ops D B R)

omit [Fintype D] [Fintype B] [Fintype R] [DecidableEq D] [DecidableEq B] [DecidableEq R] in
theorem probeLoop_eq_loop (probe : D → ProbeState D B R → Option (ProbeState D B R × Int))
    (ds : List D) (s : ProbeState D B R) (r : Int) :
    probeLoop probe ds s r = Starter.loop probe ds s r := by
  induction ds generalizing s r with
  | nil => rfl
  | cons d ds ih =>
      simp only [probeLoop, Starter.loop, ih]

omit [Fintype B] in
theorem deviceProbe_eq_starter (n : Nat) (d : D) (s : ProbeState D B R) :
    deviceProbe board l ops n d s = (ops.starter board l).deviceProbe l n d s := by
  induction n generalizing d s with
  | zero => rfl
  | succ n ih =>
      have hcall : deviceProbe board l ops n = (ops.starter board l).deviceProbe l n :=
        funext fun c => funext fun t => ih c t
      simp only [deviceProbe, Starter.deviceProbe, busProbe, Starter.busProbe, hcall,
        probeLoop_eq_loop]
      rfl

/-- With callbacks that only answer the loop is that of `init_drivers`. -/
theorem initLoop_eq_starter (n k : Nat) (s : ProbeState D B R) (res : Int) :
    initLoop board l (fun _ => ops) n k s res =
      (ops.starter board l).initLoop l board.devRoot n s res := by
  induction n generalizing k s with
  | zero => rfl
  | succ n ih =>
      simp only [initLoop, Starter.initLoop, probePass, kDeviceProbeAll, if_true,
        deviceProbe_eq_starter, ih]

end Stateless

/-- The `add` callbacks of drivers with common data. -/
structure StatefulOps (D B R σ : Type) where
  devAdd : R → Option (D → Links D B R → Flags D B R → σ → σ × Int)
  busAdd : R → Option (B → Links D B R → Flags D B R → Int)

namespace StatefulOps

variable (board : Board D B R) (l : Links D B R) (ops : StatefulOps D B R σ)

/-- What the callbacks answer with the data as they are. -/
def frozen (w : σ) : Ops D B R where
  devAdd := fun r => (ops.devAdd r).map fun add d l f => (add d l f w).2
  busAdd := ops.busAdd

/-- The data after the start of a device: its callback is called unless it is probed. -/
def after (d : D) (s : ProbeState D B R) (w : σ) : σ :=
  let n := (s.flags.dev d).attach (matchDriver board l (board.devType d))
  match n.drv.bind ops.devAdd with
  | none => w
  | some add => if n.probed then w else (add d l (s.flags.setDev d n) w).1

/-- The starts of the framework with callbacks that have data. -/
def starter : Starter D B (ProbeState D B R × σ) where
  dev := fun d x =>
    (((deviceStart board l (ops.frozen x.2) d x.1).1, ops.after board l d x.1 x.2),
      (deviceStart board l (ops.frozen x.2) d x.1).2)
  bus := fun b x =>
    (((busStart board l (ops.frozen x.2) b x.1).1, x.2),
      (busStart board l (ops.frozen x.2) b x.1).2)
  probed := fun x d => (x.1.flags.dev d).probed

/-- `init_drivers` with callbacks that have data, with at most the given number of
passes. -/
def initDrivers (w : σ) (n : Nat) (initcalls : List (Initcall D B R)) :
    Option ((ProbeState D B R × σ) × Int) :=
  (runInitcalls board (ops.frozen w) initcalls ⟨Links.empty, false, ProbeState.initial⟩ 0).bind
    fun (sys, res) =>
      (ops.starter board sys.links).initLoop sys.links board.devRoot n (sys.probe, w) res

/-- `init_drivers` with the order of the starts. -/
def initTrace (w : σ) (n : Nat) (initcalls : List (Initcall D B R)) :
    Option (((ProbeState D B R × σ) × List (D ⊕ B)) × Int) :=
  (runInitcalls board (ops.frozen w) initcalls ⟨Links.empty, false, ProbeState.initial⟩ 0).bind
    fun (sys, res) =>
      (ops.starter board sys.links).traced.initLoop sys.links board.devRoot n
        ((sys.probe, w), []) res

/-- The record of a device when its driver is looked for. -/
def attached (d : D) (s : ProbeState D B R) : NodeFlags R :=
  (s.flags.dev d).attach (matchDriver board l (board.devType d))

/-- What a start of a device does to the data: nothing, or what the callback does. -/
inductive StartCase (d : D) (x y : ProbeState D B R × σ) : Prop
  | quiet (hdata : y.2 = x.2)
      (hdev : (y.1.flags.dev d).probed = true → (x.1.flags.dev d).probed = true ∨
        ∃ r, (y.1.flags.dev d).drv = some r ∧ ops.devAdd r = none)
  | called (r : R) (add : D → Links D B R → Flags D B R → σ → σ × Int)
      (hdrv : (y.1.flags.dev d).drv = some r) (hadd : ops.devAdd r = some add)
      (hnot : (x.1.flags.dev d).probed = false)
      (hdata : y.2 = (add d l (x.1.flags.setDev d (attached board l d x.1)) x.2).1)
      (hdev : (y.1.flags.dev d).probed =
        decide ((add d l (x.1.flags.setDev d (attached board l d x.1)) x.2).2 = 0))

omit [Fintype D] [Fintype B] in
theorem start_drv (d : D) (x : ProbeState D B R × σ) :
    (((ops.starter board l).dev d x).1.1.flags.dev d).drv = (attached board l d x.1).drv := by
  change ((deviceStart board l (ops.frozen x.2) d x.1).1.flags.dev d).drv = _
  simp only [deviceStart, attached]
  split
  · rw [Flags.setDev_dev]
  · rw [Flags.setDev_dev, NodeFlags.probe_drv]

omit [Fintype D] [Fintype B] in
theorem start_probed {d : D} {x : ProbeState D B R × σ} {r : R}
    (hr : (attached board l d x.1).drv = some r) :
    (((ops.starter board l).dev d x).1.1.flags.dev d).probed =
      ((x.1.flags.dev d).probed || decide (((ops.devAdd r).map fun add =>
        (add d l (x.1.flags.setDev d (attached board l d x.1)) x.2).2).getD 0 = 0)) := by
  have hn : ((x.1.flags.dev d).attach (matchDriver board l (board.devType d))).drv = some r := hr
  change ((deviceStart board l (ops.frozen x.2) d x.1).1.flags.dev d).probed = _
  simp only [deviceStart, hn, Flags.setDev_dev, NodeFlags.probe_probed,
    NodeFlags.attach_probed, frozen, Option.map_map]
  rfl

omit [Fintype D] [Fintype B] in
/-- The data after a start that calls a callback. -/
theorem start_called {d : D} {x : ProbeState D B R × σ} {r : R}
    {add : D → Links D B R → Flags D B R → σ → σ × Int}
    (hr : (attached board l d x.1).drv = some r) (hadd : ops.devAdd r = some add)
    (hnot : (x.1.flags.dev d).probed = false) :
    ((ops.starter board l).dev d x).1.2 =
      (add d l (x.1.flags.setDev d (attached board l d x.1)) x.2).1 := by
  have hn : ((x.1.flags.dev d).attach (matchDriver board l (board.devType d))).drv = some r := hr
  change ops.after board l d x.1 x.2 = _
  simp only [after, hn, Option.bind_some, hadd, NodeFlags.attach_probed, hnot, Bool.false_eq_true,
    if_false]
  rfl

omit [Fintype D] [Fintype B] in
/-- The result of a start that calls a callback. -/
theorem start_result {d : D} {x : ProbeState D B R × σ} {r : R}
    {add : D → Links D B R → Flags D B R → σ → σ × Int}
    (hr : (attached board l d x.1).drv = some r) (hadd : ops.devAdd r = some add)
    (hnot : (x.1.flags.dev d).probed = false) :
    ((ops.starter board l).dev d x).2 =
      (add d l (x.1.flags.setDev d (attached board l d x.1)) x.2).2 := by
  have hn : ((x.1.flags.dev d).attach (matchDriver board l (board.devType d))).drv = some r := hr
  change (deviceStart board l (ops.frozen x.2) d x.1).2 = _
  simp only [deviceStart, hn, frozen, hadd, Option.map_some, NodeFlags.probe,
    NodeFlags.attach_probed, hnot, Bool.false_eq_true, if_false]
  split
  · rename_i hzero
    exact hzero.symm
  · split
    · rfl
    · rfl

omit [Fintype D] [Fintype B] in
/-- A start that calls no callback leaves the data alone. -/
theorem start_quiet {d : D} {x : ProbeState D B R × σ}
    (h : (x.1.flags.dev d).probed = true ∨
      (attached board l d x.1).drv.bind ops.devAdd = none) :
    ((ops.starter board l).dev d x).1.2 = x.2 := by
  change ops.after board l d x.1 x.2 = _
  simp only [after, NodeFlags.attach_probed]
  split
  · rfl
  · rename_i add hadd
    rcases h with hprobed | hnone
    · rw [if_pos hprobed]
    · exact absurd (hadd.symm.trans hnone) (by simp)

omit [Fintype D] [Fintype B] in
theorem start_cases (d : D) (x : ProbeState D B R × σ) :
    StartCase board l ops d x ((ops.starter board l).dev d x).1 := by
  have hdrv := ops.start_drv board l d x
  cases hr : (attached board l d x.1).drv with
  | none =>
      refine .quiet (ops.start_quiet board l (Or.inr (by rw [hr]; rfl))) fun hprobed => Or.inl ?_
      have hn : ((x.1.flags.dev d).attach (matchDriver board l (board.devType d))).drv = none :=
        hr
      change ((deviceStart board l (ops.frozen x.2) d x.1).1.flags.dev d).probed = true at hprobed
      simp only [deviceStart, hn, Flags.setDev_dev, NodeFlags.attach_probed] at hprobed
      exact hprobed
  | some r =>
      rw [hr] at hdrv
      cases hadd : ops.devAdd r with
      | none =>
          have hnone : (attached board l d x.1).drv.bind ops.devAdd = none := by
            rw [hr, Option.bind_some, hadd]
          exact .quiet (ops.start_quiet board l (Or.inr hnone)) fun _ => Or.inr ⟨r, hdrv, hadd⟩
      | some add =>
          cases hp : (x.1.flags.dev d).probed with
          | true => exact .quiet (ops.start_quiet board l (Or.inl hp)) fun _ => Or.inl hp
          | false =>
              have hprobed := ops.start_probed board l hr
              rw [hp, hadd] at hprobed
              exact .called r add hdrv hadd hp (ops.start_called board l hr hadd hp) hprobed

variable {board l ops}

/-- The recorded order of the starts leads to the state in the end. -/
theorem exec_of_initTrace {w : σ} {n : Nat} {initcalls : List (Initcall D B R)}
    {x : ProbeState D B R × σ} {is : List (D ⊕ B)} {r : Int}
    (h : ops.initTrace board w n initcalls = some ((x, is), r)) :
    exec (ops.starter board (bootLinks board initcalls)).step (ProbeState.initial, w) is =
      some x := by
  obtain ⟨res, hlinks⟩ := runInitcalls_disabled board (ops.frozen w) Links.empty
    ProbeState.initial initcalls 0
  rw [initTrace, hlinks, Option.bind_some] at h
  exact (Starter.traced_initLoop h).2

/-- No start but the last one has returned an error. -/
theorem along_of_initTrace {w : σ} {n : Nat} {initcalls : List (Initcall D B R)}
    {x : ProbeState D B R × σ} {is : List (D ⊕ B)} {r : Int}
    (h : ops.initTrace board w n initcalls = some ((x, is), r)) :
    Along (ops.starter board (bootLinks board initcalls)).step
      (ops.starter board (bootLinks board initcalls)).Goes (ProbeState.initial, w)
      is.dropLast := by
  obtain ⟨res, hlinks⟩ := runInitcalls_disabled board (ops.frozen w) Links.empty
    ProbeState.initial initcalls 0
  rw [initTrace, hlinks, Option.bind_some] at h
  exact Starter.along_of_traced h

theorem initDrivers_zero (w : σ) (n : Nat) {initcalls : List (Initcall D B R)}
    (hzero : ∀ c ∈ initcalls, c.result = 0) : ops.initDrivers board w n initcalls =
      (ops.starter board (bootLinks board initcalls)).initLoop (bootLinks board initcalls)
        board.devRoot n (ProbeState.initial, w) 0 := by
  simp only [initDrivers, runInitcalls_zero board _ _ _ hzero, Option.bind_some]
  rfl

variable (board l ops)

omit [Fintype D] [Fintype B] in
theorem marks : (ops.starter board l).Marks where
  start := fun d x h => probed_of_deviceStart h
  keep := by
    intro x y i d hi hd
    cases i with
    | inl e =>
        obtain rfl := Option.some.inj hi
        exact ((deviceStart_le board l (ops.frozen x.2) e x.1).dev d).probed hd
    | inr b =>
        obtain rfl := Option.some.inj hi
        exact ((busStart_le board l (ops.frozen x.2) b x.1).dev d).probed hd

end StatefulOps

end BaremetalCrt
