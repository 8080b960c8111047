import Mathlib.Data.List.Basic
import Mathlib.Tactic.Cases

/-!
# Programs that log their accesses

A program runs on a memory, can fail, and logs the ranges that it reads and writes. What it has
done stays done when it fails. A program that only reads is described by the value that it
computes from the memory and by the ranges that it has read when it succeeds.
-/

namespace AccessLog

/-- A memory and the accesses so far. -/
structure State (M ρ : Type) where
  mem : M
  reads : List ρ
  writes : List ρ

/-- A program with a result or an error. -/
def Prog (M ρ ε α : Type) : Type := State M ρ → Except ε α × State M ρ

variable {M ρ ε α β ι : Type}

/-- The state after more reads. -/
def State.readMore (s : State M ρ) (rs : List ρ) : State M ρ :=
  { s with reads := s.reads ++ rs }

theorem State.readMore_nil (s : State M ρ) : s.readMore [] = s := by
  rw [State.readMore, List.append_nil]

theorem State.readMore_append (s : State M ρ) (rs ts : List ρ) :
    (s.readMore rs).readMore ts = s.readMore (rs ++ ts) := by
  rw [State.readMore, State.readMore, State.readMore, List.append_assoc]

/-- Programs run one after the other until one fails. -/
instance : Monad (Prog M ρ ε) where
  pure a := fun s => (.ok a, s)
  bind x f := fun s =>
    match x s with
    | (.ok a, t) => f a t
    | (.error e, t) => (.error e, t)

/-- Go on with a result that is there, or fail with an error that is there. -/
def ofExcept (x : Except ε α) : Prog M ρ ε α := fun s => (x, s)

/-- Compute a value from the memory and log the range that it is read from. -/
def read (value : M → α) (range : M → ρ) : Prog M ρ ε α := fun s =>
  (.ok (value s.mem), s.readMore [range s.mem])

/-- Change the memory in a range. -/
def write (change : M → M) (range : ρ) : Prog M ρ ε Unit := fun s =>
  (.ok (), { s with mem := change s.mem, writes := s.writes ++ [range] })

/-- Replace every error by one. -/
def orFail (x : Prog M ρ ε α) (e : ε) : Prog M ρ ε α := fun s =>
  match x s with
  | (.ok a, t) => (.ok a, t)
  | (.error _, t) => (.error e, t)

/-- Run a program for each index and collect the results. -/
def forEach (x : ι → Prog M ρ ε α) : List ι → Prog M ρ ε (List α)
  | [] => pure []
  | i :: is => do
      let a ← x i
      let as ← forEach x is
      pure (a :: as)

theorem bind_run_ok {x : Prog M ρ ε α} {f : α → Prog M ρ ε β} {s t : State M ρ} {a : α}
    (h : x s = (.ok a, t)) : (x >>= f) s = f a t := by
  change (match x s with | (.ok a, t) => f a t | (.error e, t) => (.error e, t)) = _
  rw [h]

theorem bind_run_error {x : Prog M ρ ε α} {f : α → Prog M ρ ε β} {s t : State M ρ} {e : ε}
    (h : x s = (.error e, t)) : (x >>= f) s = (.error e, t) := by
  change (match x s with | (.ok a, t) => f a t | (.error e, t) => (.error e, t)) = _
  rw [h]

/-- A program only reads. It computes a value or an error from the memory, and when it succeeds
it has read these ranges. -/
structure Reads (x : Prog M ρ ε α) (value : M → Except ε α) (ranges : M → α → List ρ) : Prop where
  ok : ∀ s a, value s.mem = .ok a → x s = (.ok a, s.readMore (ranges s.mem a))
  error : ∀ s e, value s.mem = .error e → ∃ rs, x s = (.error e, s.readMore rs)

namespace Reads

variable {x : Prog M ρ ε α} {f : α → Prog M ρ ε β} {value : M → Except ε α}
  {ranges : M → α → List ρ}

theorem ofExcept (r : Except ε α) :
    Reads (AccessLog.ofExcept r : Prog M ρ ε α) (fun _ => r) (fun _ _ => []) where
  ok := by
    rintro s a rfl
    rw [State.readMore_nil]
    rfl
  error := by
    rintro s e rfl
    refine ⟨[], ?_⟩
    rw [State.readMore_nil]
    rfl

theorem pure (a : α) : Reads (Pure.pure a : Prog M ρ ε α) (fun _ => .ok a) (fun _ _ => []) :=
  ofExcept (.ok a)

theorem read (value : M → α) (range : M → ρ) :
    Reads (AccessLog.read value range : Prog M ρ ε α) (fun m => .ok (value m))
      (fun m _ => [range m]) where
  ok := by
    rintro s a ha
    obtain rfl := Except.ok.inj ha
    rfl
  error := fun _ _ h => nomatch h

/-- One reading program after another, with a description of both together. -/
theorem bind (hx : Reads x value ranges) {value' : α → M → Except ε β}
    {ranges' : α → M → β → List ρ} (hf : ∀ a, Reads (f a) (value' a) (ranges' a))
    {both : M → Except ε β} {bothRanges : M → β → List ρ}
    (hboth : ∀ m, both m = (value m).bind fun a => value' a m)
    (hranges : ∀ m a b, value m = .ok a → value' a m = .ok b →
      bothRanges m b = ranges m a ++ ranges' a m b) : Reads (x >>= f) both bothRanges where
  ok := by
    intro s b hb
    rw [hboth] at hb
    cases hv : value s.mem with
    | error e =>
        rw [hv] at hb
        exact nomatch hb
    | ok a =>
        rw [hv] at hb
        have hrun := (hf a).ok (s.readMore (ranges s.mem a)) b hb
        rw [State.readMore_append] at hrun
        rw [hranges s.mem a b hv hb]
        exact (bind_run_ok (hx.ok s a hv)).trans hrun
  error := by
    intro s e he
    rw [hboth] at he
    cases hv : value s.mem with
    | error e' =>
        rw [hv] at he
        obtain rfl : e' = e := Except.error.inj he
        obtain ⟨rs, hrs⟩ := hx.error s e' hv
        exact ⟨rs, bind_run_error hrs⟩
    | ok a =>
        rw [hv] at he
        obtain ⟨rs, hrs⟩ := (hf a).error (s.readMore (ranges s.mem a)) e he
        rw [State.readMore_append] at hrs
        exact ⟨ranges s.mem a ++ rs, (bind_run_ok (hx.ok s a hv)).trans hrs⟩

theorem orFail (hx : Reads x value ranges) (e : ε) :
    Reads (AccessLog.orFail x e) (fun m => (value m).mapError fun _ => e) ranges where
  ok := by
    intro s a ha
    cases hv : value s.mem with
    | error e' =>
        rw [hv] at ha
        exact nomatch ha
    | ok a' =>
        rw [hv] at ha
        obtain rfl : a' = a := Except.ok.inj ha
        rw [AccessLog.orFail, hx.ok s a' hv]
  error := by
    intro s e' he
    cases hv : value s.mem with
    | error e'' =>
        rw [hv] at he
        obtain rfl : e = e' := Except.error.inj he
        obtain ⟨rs, hrs⟩ := hx.error s e'' hv
        exact ⟨rs, by rw [AccessLog.orFail, hrs]⟩
    | ok a =>
        rw [hv] at he
        exact nomatch he

/-- A loop of reads that do not fail. -/
theorem forEach {x : ι → Prog M ρ ε α} {value : ι → M → α} {range : ι → M → ρ}
    (hx : ∀ i, Reads (x i) (fun m => .ok (value i m)) (fun m _ => [range i m])) (is : List ι) :
    Reads (AccessLog.forEach x is) (fun m => .ok (is.map fun i => value i m))
      (fun m _ => is.map fun i => range i m) := by
  induction is with
  | nil => exact Reads.pure []
  | cons i is ih =>
      have hrest : ∀ a, Reads (AccessLog.forEach x is >>= fun as => Pure.pure (a :: as))
          (fun m => .ok (a :: is.map fun i => value i m)) (fun m _ => is.map fun i => range i m) :=
        fun a => ih.bind (fun as => Reads.pure (a :: as)) (fun _ => rfl)
          (fun _ _ _ _ _ => (List.append_nil _).symm)
      exact (hx i).bind hrest (fun _ => rfl) (fun _ _ _ _ _ => rfl)

end Reads

end AccessLog
