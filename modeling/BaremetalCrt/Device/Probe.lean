import BaremetalCrt.Device.Links

/-!
# Probing the device tree

`k_device_probe_all` starts at the root device. A device that is probed goes
on with its bus, and a bus with its devices. Only the first bus of a device is
followed.

## Implementation notes

The callbacks of the drivers are a parameter. What a callback answers can
depend on the device or bus, on the links and on what has been probed so far. A
number bounds the depth of the calls; no tree is deeper than it has objects.
-/

namespace BaremetalCrt

/-- What probing records in a device or in a bus. -/
@[ext] structure NodeFlags (R : Type) where
  drv : Option R
  probed : Bool
  failed : Bool
  deriving DecidableEq

/-- What probing records in all devices and buses. -/
@[ext] structure Flags (D B R : Type) where
  dev : D → NodeFlags R
  bus : B → NodeFlags R

/-- The `add` callbacks; a driver without operations or without `add` has none. -/
structure Ops (D B R : Type) where
  devAdd : R → Option (D → Links D B R → Flags D B R → Int)
  busAdd : R → Option (B → Links D B R → Flags D B R → Int)

/-- The flags, and the answers that the devices' callbacks have given so far. -/
structure ProbeState (D B R : Type) where
  flags : Flags D B R
  log : List (D × Int)

variable {D B R : Type}

/-- The state of the static objects at boot. -/
def ProbeState.initial : ProbeState D B R :=
  ⟨⟨fun _ => ⟨none, false, false⟩, fun _ => ⟨none, false, false⟩⟩, []⟩

section Devices

variable [DecidableEq D] (f : Flags D B R) (d : D) (n : NodeFlags R)

def Flags.setDev : Flags D B R := { f with dev := Function.update f.dev d n }

@[simp] theorem Flags.setDev_dev : (f.setDev d n).dev d = n := Function.update_self ..

@[simp] theorem Flags.setDev_bus : (f.setDev d n).bus = f.bus := rfl

@[simp] theorem Flags.setDev_self : f.setDev d (f.dev d) = f := by
  simp [Flags.setDev]

theorem Flags.setDev_dev_of_ne {e : D} (he : e ≠ d) : (f.setDev d n).dev e = f.dev e :=
  Function.update_of_ne he ..

end Devices

section Buses

variable [DecidableEq B] (f : Flags D B R) (b : B) (n : NodeFlags R)

def Flags.setBus : Flags D B R := { f with bus := Function.update f.bus b n }

@[simp] theorem Flags.setBus_bus : (f.setBus b n).bus b = n := Function.update_self ..

@[simp] theorem Flags.setBus_dev : (f.setBus b n).dev = f.dev := rfl

@[simp] theorem Flags.setBus_self : f.setBus b (f.bus b) = f := by
  simp [Flags.setBus]

theorem Flags.setBus_bus_of_ne {c : B} (hc : c ≠ b) : (f.setBus b n).bus c = f.bus c :=
  Function.update_of_ne hc ..

end Buses

/-- `IS_ERROR`. -/
def isError (r : Int) : Bool := r != 0 && r != -eagain

theorem isError_eq_false_iff {r : Int} : isError r = false ↔ r = 0 ∨ r = -eagain := by
  simp only [isError, Bool.and_eq_false_iff, bne_eq_false_iff_eq]

theorem isError_of_zero {r : Int} (h : r = 0) : isError r = false :=
  isError_eq_false_iff.mpr (Or.inl h)

section Functions

variable [Fintype D] [Fintype B] [Fintype R] [DecidableEq D] [DecidableEq B] [DecidableEq R]

/-- The driver that the loop of `device_attach_driver` and `bus_attach_driver` ends
with, unless that is the head of the list. -/
def matchDriver (board : Board D B R) (l : Links D B R) (ty : TypePair) : Option R :=
  ((drivers board l).find? (typeMatches board ty)).filter (· ≠ board.head)

/-- `device_attach_driver` or `bus_attach_driver`, for what has no driver yet. -/
def NodeFlags.attach (found : Option R) (n : NodeFlags R) : NodeFlags R :=
  match n.drv with
  | none => { n with drv := found }
  | some _ => n

/-- What is recorded for the answer of a callback, or without a callback. -/
def NodeFlags.probe (answer : Option Int) (n : NodeFlags R) : NodeFlags R × Int :=
  if n.probed then (n, 0)
  else
    match answer with
    | none => ({ n with probed := true }, 0)
    | some r =>
        if r = 0 then ({ n with probed := true }, 0)
        else if r = -eagain then (n, r)
        else ({ n with failed := true }, r)

/-- `device_probe` up to the probing of the bus below. -/
def deviceStart (board : Board D B R) (l : Links D B R) (ops : Ops D B R) (d : D)
    (s : ProbeState D B R) : ProbeState D B R × Int :=
  let n := (s.flags.dev d).attach (matchDriver board l (board.devType d))
  let f := s.flags.setDev d n
  match n.drv with
  | none => ({ s with flags := f }, -eagain)
  | some r =>
      let answer := (ops.devAdd r).map fun add => add d l f
      let asked := if n.probed then [] else answer.toList.map fun a => (d, a)
      (⟨f.setDev d (n.probe answer).1, asked ++ s.log⟩, (n.probe answer).2)

/-- `bus_probe` up to the loop over the devices. -/
def busStart (board : Board D B R) (l : Links D B R) (ops : Ops D B R) (b : B)
    (s : ProbeState D B R) : ProbeState D B R × Int :=
  let n := (s.flags.bus b).attach (matchDriver board l (board.busType b))
  let f := s.flags.setBus b n
  match n.drv with
  | none => ({ s with flags := f }, 0)
  | some r =>
      let answer := (ops.busAdd r).map fun add => add b l f
      ({ s with flags := f.setBus b (n.probe answer).1 }, (n.probe answer).2)

/-- The loop of `bus_probe` over the devices that are left. -/
def probeLoop (probe : D → ProbeState D B R → Option (ProbeState D B R × Int)) :
    List D → ProbeState D B R → Int → Option (ProbeState D B R × Int)
  | [], s, r => some (s, r)
  | d :: ds, s, r =>
      (probe d s).bind fun (s, e) =>
        if isError e then some (s, e)
        else probeLoop probe ds s (if e = -eagain then -eagain else r)

/-- `bus_probe`, with the call for a device. -/
def busProbe (board : Board D B R) (l : Links D B R) (ops : Ops D B R)
    (probe : D → ProbeState D B R → Option (ProbeState D B R × Int)) (b : B)
    (s : ProbeState D B R) : Option (ProbeState D B R × Int) :=
  let (s, r) := busStart board l ops b s
  if r ≠ 0 then some (s, r) else probeLoop probe (l.children b) s 0

/-- `device_probe`; the first number bounds the depth of the calls. -/
def deviceProbe (board : Board D B R) (l : Links D B R) (ops : Ops D B R) :
    Nat → D → ProbeState D B R → Option (ProbeState D B R × Int)
  | 0, _, _ => none
  | n + 1, d, s =>
      let (s, r) := deviceStart board l ops d s
      if r ≠ 0 then some (s, r)
      else
        match (s.flags.dev d).probed, l.busChild d with
        | true, some b => busProbe board l ops (deviceProbe board l ops n) b s
        | _, _ => some (s, 0)

/-- `k_device_probe_all`. -/
def kDeviceProbeAll (board : Board D B R) (l : Links D B R) (ops : Ops D B R) (enabled : Bool)
    (n : Nat) (s : ProbeState D B R) : Option (ProbeState D B R × Int) :=
  if enabled then deviceProbe board l ops n board.devRoot s else some (s, -eagain)

/-- Everything that probing works with. -/
structure DeviceSystem (D B R : Type) where
  links : Links D B R
  enabled : Bool
  probe : ProbeState D B R

/-- The end of an accepted call that links an object in: all devices are probed
again, and a failure is only reported. -/
def DeviceSystem.relink (board : Board D B R) (ops : Ops D B R) (sys : DeviceSystem D B R)
    (linked : Links D B R × Int) : Option (DeviceSystem D B R × Int) :=
  if linked.2 ≠ 0 then some ({ sys with links := linked.1 }, linked.2)
  else
    (kDeviceProbeAll board linked.1 ops sys.enabled (Fintype.card (D ⊕ B)) sys.probe).map
      fun (s, _) => (⟨linked.1, sys.enabled, s⟩, 0)

/-- `k_device_add`. -/
def kDeviceAdd (board : Board D B R) (ops : Ops D B R) (sys : DeviceSystem D B R)
    (dev : Option D) (parent : Option B) : Option (DeviceSystem D B R × Int) :=
  sys.relink board ops (deviceLink board sys.links dev parent)

/-- `k_bus_add`. -/
def kBusAdd (board : Board D B R) (ops : Ops D B R) (sys : DeviceSystem D B R)
    (bus : Option B) (parent : Option D) : Option (DeviceSystem D B R × Int) :=
  sys.relink board ops (busLink board sys.links bus parent)

/-- `k_driver_add`. -/
def kDriverAdd (board : Board D B R) (ops : Ops D B R) (sys : DeviceSystem D B R) (driver : R) :
    Option (DeviceSystem D B R × Int) :=
  sys.relink board ops (driverLink board sys.links driver)

end Functions

/-- Records are only ever added. -/
structure NodeFlags.Le (n n' : NodeFlags R) : Prop where
  drv : ∀ r, n.drv = some r → n'.drv = some r
  probed : n.probed = true → n'.probed = true
  failed : n.failed = true → n'.failed = true

/-- Records of all devices and buses are only ever added. -/
structure Flags.Le (f f' : Flags D B R) : Prop where
  dev : ∀ d, (f.dev d).Le (f'.dev d)
  bus : ∀ b, (f.bus b).Le (f'.bus b)

section Records

variable {f f' g : Flags D B R} {n n' m : NodeFlags R}

theorem NodeFlags.Le.refl (n : NodeFlags R) : n.Le n := ⟨fun _ => id, id, id⟩

theorem NodeFlags.Le.trans (h : n.Le n') (h' : n'.Le m) : n.Le m :=
  ⟨fun r hr => h'.drv r (h.drv r hr), h'.probed ∘ h.probed, h'.failed ∘ h.failed⟩

theorem Flags.Le.refl (f : Flags D B R) : f.Le f :=
  ⟨fun _ => NodeFlags.Le.refl _, fun _ => NodeFlags.Le.refl _⟩

theorem Flags.Le.trans (h : f.Le f') (h' : f'.Le g) : f.Le g :=
  ⟨fun d => (h.dev d).trans (h'.dev d), fun b => (h.bus b).trans (h'.bus b)⟩

theorem NodeFlags.le_attach (found : Option R) (n : NodeFlags R) : n.Le (n.attach found) := by
  unfold NodeFlags.attach
  split
  · rename_i hnone
    exact ⟨fun r hr => absurd (hnone.symm.trans hr) (by simp), id, id⟩
  · exact NodeFlags.Le.refl n

theorem NodeFlags.le_probe (answer : Option Int) (n : NodeFlags R) : n.Le (n.probe answer).1 := by
  unfold NodeFlags.probe
  split
  · exact NodeFlags.Le.refl n
  · split
    · exact ⟨fun _ => id, fun _ => rfl, id⟩
    · split
      · exact ⟨fun _ => id, fun _ => rfl, id⟩
      · split
        · exact NodeFlags.Le.refl n
        · exact ⟨fun _ => id, id, fun _ => rfl⟩

/-- The record after a start that returned zero. -/
theorem NodeFlags.probe_of_zero {answer : Option Int} (h : (n.probe answer).2 = 0) :
    (n.probe answer).1 = { n with probed := true } := by
  unfold NodeFlags.probe at h ⊢
  by_cases hprobed : n.probed = true
  · rw [if_pos hprobed, ← hprobed]
  · rw [if_neg hprobed] at h ⊢
    cases answer with
    | none => rfl
    | some r =>
        by_cases hzero : r = 0
        · simp only [if_pos hzero]
        · simp only [if_neg hzero] at h
          split at h
          · exact absurd h hzero
          · exact absurd h hzero

theorem NodeFlags.probed_of_probe {answer : Option Int} (h : (n.probe answer).2 = 0) :
    (n.probe answer).1.probed = true := by
  rw [NodeFlags.probe_of_zero h]

@[simp] theorem NodeFlags.attach_probed (found : Option R) (n : NodeFlags R) :
    (n.attach found).probed = n.probed := by
  unfold NodeFlags.attach
  split
  · rfl
  · rfl

@[simp] theorem NodeFlags.probe_drv (answer : Option Int) (n : NodeFlags R) :
    (n.probe answer).1.drv = n.drv := by
  unfold NodeFlags.probe
  split
  · rfl
  · split
    · rfl
    · split
      · rfl
      · split
        · rfl
        · rfl

/-- A start marks what has no callback or whose callback answers zero. -/
theorem NodeFlags.probe_probed (answer : Option Int) (n : NodeFlags R) :
    (n.probe answer).1.probed = (n.probed || decide (answer.getD 0 = 0)) := by
  unfold NodeFlags.probe
  split
  · rename_i hprobed
    rw [hprobed, Bool.true_or]
  · rename_i hprobed
    rw [Bool.eq_false_iff.mpr hprobed, Bool.false_or]
    split
    · rfl
    · rename_i r
      by_cases hzero : r = 0
      · simp [hzero]
      · simp only [if_neg hzero, Option.getD_some, decide_eq_false hzero]
        split
        · exact Bool.eq_false_iff.mpr hprobed
        · rfl

theorem Flags.le_setDev [DecidableEq D] {d : D} (h : (f.dev d).Le n) : f.Le (f.setDev d n) := by
  refine ⟨fun e => ?_, fun _ => NodeFlags.Le.refl _⟩
  by_cases hed : e = d
  · rw [hed, Flags.setDev_dev]
    exact h
  · rw [Flags.setDev_dev_of_ne f d n hed]
    exact NodeFlags.Le.refl _

theorem Flags.le_setBus [DecidableEq B] {b : B} (h : (f.bus b).Le n) : f.Le (f.setBus b n) := by
  refine ⟨fun _ => NodeFlags.Le.refl _, fun c => ?_⟩
  by_cases hcb : c = b
  · rw [hcb, Flags.setBus_bus]
    exact h
  · rw [Flags.setBus_bus_of_ne f b n hcb]
    exact NodeFlags.Le.refl _

end Records

variable [Fintype R] [DecidableEq D] [DecidableEq B] [DecidableEq R]

section Starts

variable (board : Board D B R) (l : Links D B R) (ops : Ops D B R)

omit [DecidableEq B] in
theorem deviceStart_le (d : D) (s : ProbeState D B R) :
    s.flags.Le (deviceStart board l ops d s).1.flags := by
  have hattach := Flags.le_setDev
    (NodeFlags.le_attach (matchDriver board l (board.devType d)) (s.flags.dev d))
  simp only [deviceStart]
  split
  · exact hattach
  · refine hattach.trans (Flags.le_setDev ?_)
    rw [Flags.setDev_dev]
    exact NodeFlags.le_probe _ _

omit [DecidableEq D] in
theorem busStart_le (b : B) (s : ProbeState D B R) :
    s.flags.Le (busStart board l ops b s).1.flags := by
  have hattach := Flags.le_setBus
    (NodeFlags.le_attach (matchDriver board l (board.busType b)) (s.flags.bus b))
  simp only [busStart]
  split
  · exact hattach
  · refine hattach.trans (Flags.le_setBus ?_)
    rw [Flags.setBus_bus]
    exact NodeFlags.le_probe _ _

omit [DecidableEq B] in
theorem deviceStart_dev_ne {d e : D} (he : e ≠ d) (s : ProbeState D B R) :
    (deviceStart board l ops d s).1.flags.dev e = s.flags.dev e := by
  simp only [deviceStart]
  split
  · exact Flags.setDev_dev_of_ne _ _ _ he
  · simp only [Flags.setDev_dev_of_ne _ _ _ he]

omit [DecidableEq B] in
theorem deviceStart_bus (d : D) (s : ProbeState D B R) :
    (deviceStart board l ops d s).1.flags.bus = s.flags.bus := by
  simp only [deviceStart]
  split
  · rfl
  · rfl

omit [DecidableEq D] in
theorem busStart_dev (b : B) (s : ProbeState D B R) :
    (busStart board l ops b s).1.flags.dev = s.flags.dev := by
  simp only [busStart]
  split
  · rfl
  · rfl

variable {board l ops}

omit [DecidableEq B] in
/-- A device that was started without an error or a delay is probed. -/
theorem probed_of_deviceStart {d : D} {s : ProbeState D B R}
    (h : (deviceStart board l ops d s).2 = 0) :
    ((deviceStart board l ops d s).1.flags.dev d).probed = true := by
  simp only [deviceStart] at h ⊢
  split at h
  · exact absurd (show -eagain = 0 from h) (by decide)
  · rw [Flags.setDev_dev]
    exact NodeFlags.probed_of_probe h

end Starts

section Pass

variable [Fintype D] {board : Board D B R} {l : Links D B R} {ops : Ops D B R}

/-- The devices that a walk from a device comes to through first buses. -/
inductive WalkedFrom (l : Links D B R) : D → D → Prop
  | self (d : D) : WalkedFrom l d d
  | child {d c e : D} {b : B} (hb : l.busChild d = some b) (hc : c ∈ l.children b)
      (he : WalkedFrom l c e) : WalkedFrom l d e

/-- A call for a device ends with its start, or goes on with its first bus. -/
theorem deviceProbe_cases {n : Nat} {d : D} {s s' : ProbeState D B R} {r : Int}
    (h : deviceProbe board l ops (n + 1) d s = some (s', r)) :
    (deviceStart board l ops d s = (s', r) ∧ (r = 0 → l.busChild d = none)) ∨
      ∃ b, (deviceStart board l ops d s).2 = 0 ∧ l.busChild d = some b ∧
        busProbe board l ops (deviceProbe board l ops n) b (deviceStart board l ops d s).1 =
          some (s', r) := by
  simp only [deviceProbe] at h
  split at h
  · rename_i hne
    have heq : deviceStart board l ops d s = (s', r) := Option.some.inj h
    exact Or.inl ⟨heq, fun hzero => absurd ((congrArg Prod.snd heq).trans hzero) hne⟩
  · rename_i hzero
    have hzero := not_not.mp hzero
    rw [probed_of_deviceStart hzero] at h
    cases hb : l.busChild d with
    | none =>
        rw [hb] at h
        refine Or.inl ⟨?_, fun _ => rfl⟩
        rw [← Option.some.inj h, ← hzero]
    | some b =>
        rw [hb] at h
        exact Or.inr ⟨b, hzero, rfl, h⟩

omit [DecidableEq D] in
/-- A call for a bus ends with its start, or goes over its devices. -/
theorem busProbe_cases {probe : D → ProbeState D B R → Option (ProbeState D B R × Int)} {b : B}
    {s s' : ProbeState D B R} {r : Int} (h : busProbe board l ops probe b s = some (s', r)) :
    (busStart board l ops b s = (s', r) ∧ r ≠ 0) ∨
      ((busStart board l ops b s).2 = 0 ∧
        probeLoop probe (l.children b) (busStart board l ops b s).1 0 = some (s', r)) := by
  simp only [busProbe] at h
  split at h
  · rename_i hne
    have heq : busStart board l ops b s = (s', r) := Option.some.inj h
    rw [heq] at hne
    exact Or.inl ⟨heq, hne⟩
  · rename_i hzero
    exact Or.inr ⟨not_not.mp hzero, h⟩

omit [Fintype R] [DecidableEq D] [DecidableEq B] [DecidableEq R] [Fintype D] in
/-- A loop that ends without an error goes on after its first device. -/
theorem probeLoop_cons {probe : D → ProbeState D B R → Option (ProbeState D B R × Int)} {d : D}
    {ds : List D} {s s' : ProbeState D B R} {r e : Int}
    (h : probeLoop probe (d :: ds) s r = some (s', e)) (herr : isError e = false) :
    ∃ s₁ e₁, probe d s = some (s₁, e₁) ∧ isError e₁ = false ∧
      probeLoop probe ds s₁ (if e₁ = -eagain then -eagain else r) = some (s', e) := by
  obtain ⟨⟨s₁, e₁⟩, hd, h⟩ := Option.bind_eq_some_iff.mp h
  dsimp only at h
  split at h
  · rename_i hbreak
    obtain ⟨-, rfl⟩ := Prod.mk.inj (Option.some.inj h)
    exact absurd (hbreak.symm.trans herr) (by simp)
  · rename_i hok
    exact ⟨s₁, e₁, hd, Bool.eq_false_iff.mpr hok, h⟩

omit [Fintype R] [DecidableEq D] [DecidableEq B] [DecidableEq R] [Fintype D] in
theorem probeLoop_rel {Q : ProbeState D B R → ProbeState D B R → Prop}
    (hrefl : ∀ s, Q s s) (htrans : ∀ s t u, Q s t → Q t u → Q s u)
    {probe : D → ProbeState D B R → Option (ProbeState D B R × Int)} {ds : List D}
    (hprobe : ∀ d ∈ ds, ∀ s s' e, probe d s = some (s', e) → isError e = false → Q s s')
    {s s' : ProbeState D B R} {r e : Int} (h : probeLoop probe ds s r = some (s', e))
    (herr : isError e = false) : Q s s' := by
  induction ds generalizing s r with
  | nil =>
      obtain ⟨rfl, -⟩ := Prod.mk.inj (Option.some.inj h)
      exact hrefl s
  | cons d ds ih =>
      obtain ⟨s₁, e₁, hd, hok, h⟩ := probeLoop_cons h herr
      have hfirst := hprobe d List.mem_cons_self s s₁ e₁ hd hok
      exact htrans _ _ _ hfirst (ih (fun d hd => hprobe d (List.mem_cons_of_mem _ hd)) h)

/-- What every start on the walk without an error respects is respected by a walk
without an error. -/
theorem deviceProbe_rel {Q : ProbeState D B R → ProbeState D B R → Prop}
    (hrefl : ∀ s, Q s s) (htrans : ∀ s t u, Q s t → Q t u → Q s u) {n : Nat} {d : D}
    (hdev : ∀ e, WalkedFrom l d e → ∀ s, isError (deviceStart board l ops e s).2 = false →
      Q s (deviceStart board l ops e s).1)
    (hbus : ∀ b s, isError (busStart board l ops b s).2 = false →
      Q s (busStart board l ops b s).1)
    {s s' : ProbeState D B R} {r : Int} (h : deviceProbe board l ops n d s = some (s', r))
    (herr : isError r = false) : Q s s' := by
  induction n generalizing d s s' r with
  | zero => exact absurd h (by simp [deviceProbe])
  | succ n ih =>
      have hstart := hdev d (WalkedFrom.self d) s
      rcases deviceProbe_cases h with ⟨heq, -⟩ | ⟨b, hzero, hb, h⟩
      · rw [heq] at hstart
        exact hstart herr
      · apply htrans _ _ _ (hstart (isError_of_zero hzero))
        have hbstart := hbus b (deviceStart board l ops d s).1
        rcases busProbe_cases h with ⟨heq, -⟩ | ⟨hzero, h⟩
        · rw [heq] at hbstart
          exact hbstart herr
        · apply htrans _ _ _ (hbstart (isError_of_zero hzero))
          apply probeLoop_rel hrefl htrans _ h herr
          intro c hc t t' e hct
          exact ih (fun x hx => hdev x (WalkedFrom.child hb hc hx)) hct

/-- A walk without an error only adds records. -/
theorem deviceProbe_le {n : Nat} {d : D} {s s' : ProbeState D B R} {r : Int}
    (h : deviceProbe board l ops n d s = some (s', r)) (herr : isError r = false) :
    s.flags.Le s'.flags :=
  deviceProbe_rel (Q := fun s s' => s.flags.Le s'.flags) (fun _ => Flags.Le.refl _)
    (fun _ _ _ => Flags.Le.trans) (fun e _ s _ => deviceStart_le board l ops e s)
    (fun b s _ => busStart_le board l ops b s) h herr

theorem probeLoop_le {n : Nat} {ds : List D} {s s' : ProbeState D B R} {r e : Int}
    (h : probeLoop (deviceProbe board l ops n) ds s r = some (s', e)) (herr : isError e = false) :
    s.flags.Le s'.flags :=
  probeLoop_rel (Q := fun s s' => s.flags.Le s'.flags) (fun _ => Flags.Le.refl _)
    (fun _ _ _ => Flags.Le.trans) (fun _ _ _ _ _ => deviceProbe_le) h herr

theorem busProbe_le {n : Nat} {b : B} {s s' : ProbeState D B R} {r : Int}
    (h : busProbe board l ops (deviceProbe board l ops n) b s = some (s', r))
    (herr : isError r = false) : s.flags.Le s'.flags := by
  have hstart := busStart_le board l ops b s
  rcases busProbe_cases h with ⟨heq, -⟩ | ⟨-, h⟩
  · rw [heq] at hstart
    exact hstart
  · exact hstart.trans (probeLoop_le h herr)

/-- A walk leaves the devices alone that it does not come to. -/
theorem deviceProbe_untouched {n : Nat} {d e : D} (he : ¬ WalkedFrom l d e)
    {s s' : ProbeState D B R} {r : Int} (h : deviceProbe board l ops n d s = some (s', r))
    (herr : isError r = false) : s'.flags.dev e = s.flags.dev e := by
  refine deviceProbe_rel (Q := fun s s' => s'.flags.dev e = s.flags.dev e) (fun _ => rfl)
    (fun _ _ _ hst htu => htu.trans hst) ?_ ?_ h herr
  · intro x hx s _
    apply deviceStart_dev_ne
    rintro rfl
    exact he hx
  · intro b s _
    exact congrFun (busStart_dev board l ops b s) e

/-- A loop that returns zero has had zero from every device. -/
theorem probeLoop_zero {n : Nat} {ds : List D} {s s' : ProbeState D B R} {r : Int}
    (h : probeLoop (deviceProbe board l ops n) ds s r = some (s', 0)) :
    r = 0 ∧ ∀ d ∈ ds, ∃ t t', deviceProbe board l ops n d t = some (t', 0) ∧
      t'.flags.Le s'.flags := by
  induction ds generalizing s r with
  | nil => exact ⟨(Prod.mk.inj (Option.some.inj h)).2, fun _ hd => absurd hd List.not_mem_nil⟩
  | cons d ds ih =>
      obtain ⟨s₁, e, hd, hok, h⟩ := probeLoop_cons h rfl
      obtain ⟨hacc, hrest⟩ := ih h
      rcases isError_eq_false_iff.mp hok with rfl | rfl
      · refine ⟨hacc, fun c hc => ?_⟩
        rcases List.mem_cons.mp hc with heq | hc
        · rw [heq]
          exact ⟨s, s₁, hd, probeLoop_le h rfl⟩
        · exact hrest c hc
      · -- a delay would have been remembered
        rw [if_pos rfl] at hacc
        exact absurd hacc (by decide)

/-- A walk that returns zero has probed every device that it comes to. -/
theorem deviceProbe_zero {n : Nat} {d e : D} {s s' : ProbeState D B R}
    (h : deviceProbe board l ops n d s = some (s', 0)) (he : WalkedFrom l d e) :
    (s'.flags.dev e).probed = true := by
  induction n generalizing d s s' with
  | zero => exact absurd h (by simp [deviceProbe])
  | succ n ih =>
      rcases deviceProbe_cases h with ⟨heq, hnone⟩ | ⟨b, hzero, hb, h⟩
      · -- the walk ends here, so the device itself is all that it comes to
        cases he with
        | self =>
            have hprobed := probed_of_deviceStart (congrArg Prod.snd heq)
            rw [heq] at hprobed
            exact hprobed
        | child hb _ _ => exact absurd ((hnone rfl).symm.trans hb) (by simp)
      · cases he with
        | self => exact ((busProbe_le h rfl).dev e).probed (probed_of_deviceStart hzero)
        | @child _ c _ b' hb' hc he =>
            obtain rfl := Option.some.inj (hb.symm.trans hb')
            rcases busProbe_cases h with ⟨-, hne⟩ | ⟨-, h⟩
            · exact absurd rfl hne
            · obtain ⟨t, t', hct, hle⟩ := (probeLoop_zero h).2 c hc
              exact (hle.dev e).probed (ih hct he)

omit [Fintype R] [DecidableEq D] [DecidableEq B] [DecidableEq R] [Fintype D] in
theorem probeLoop_isSome {probe : D → ProbeState D B R → Option (ProbeState D B R × Int)}
    {ds : List D} (hprobe : ∀ d ∈ ds, ∀ s, (probe d s).isSome) (s : ProbeState D B R) (r : Int) :
    (probeLoop probe ds s r).isSome := by
  induction ds generalizing s r with
  | nil => rfl
  | cons d ds ih =>
      obtain ⟨⟨s₁, e⟩, hd⟩ := Option.isSome_iff_exists.mp (hprobe d List.mem_cons_self s)
      simp only [probeLoop, hd, Option.bind_some]
      split
      · rfl
      · exact ih (fun c hc => hprobe c (List.mem_cons_of_mem _ hc)) _ _

variable [Fintype B]

/-- A walk in a tree returns. -/
theorem deviceProbe_isSome (hl : LinksInv board l) {n m : Nat} {d : D}
    (hd : Level l.up (.inl board.devRoot) m (.inl d)) (hn : Fintype.card (D ⊕ B) ≤ m + n)
    (s : ProbeState D B R) : (deviceProbe board l ops n d s).isSome := by
  induction n generalizing m d s with
  | zero =>
      have hlt := hl.level_lt hd
      omega
  | succ n ih =>
      simp only [deviceProbe]
      split
      · rfl
      · split
        · rename_i b _ hb
          simp only [busProbe]
          split
          · rfl
          · apply probeLoop_isSome
            intro c hc t
            exact ih (hl.level_child hd hb hc) (by omega) t
        · rfl

/-- Probing all devices of a tree returns. -/
theorem kDeviceProbeAll_isSome (ops : Ops D B R) (hl : LinksInv board l) (enabled : Bool)
    (s : ProbeState D B R) :
    (kDeviceProbeAll board l ops enabled (Fintype.card (D ⊕ B)) s).isSome := by
  unfold kDeviceProbeAll
  split
  · exact deviceProbe_isSome hl (m := 0) rfl (Nat.le_add_left _ _) s
  · rfl

end Pass

variable [Fintype D]

/-- When probing all devices returns zero, every device of the tree is probed exactly
when those were before that the walk through first buses does not come to. -/
theorem probe_all_covers_iff (board : Board D B R) (l : Links D B R) (ops : Ops D B R)
    (enabled : Bool) (n : Nat) (s s' : ProbeState D B R)
    (h : kDeviceProbeAll board l ops enabled n s = some (s', 0)) :
    (∀ d, Hangs board l d → (s'.flags.dev d).probed = true) ↔
      ∀ d, Hangs board l d → ¬ WalkedFrom l board.devRoot d → (s.flags.dev d).probed = true := by
  have hwalk : deviceProbe board l ops n board.devRoot s = some (s', 0) := by
    unfold kDeviceProbeAll at h
    split at h
    · exact h
    · exact absurd (Prod.mk.inj (Option.some.inj h)).2 (by decide)
  constructor
  · intro hall d hd hoff
    rw [← deviceProbe_untouched hoff hwalk rfl]
    exact hall d hd
  · intro hoff d hd
    by_cases hon : WalkedFrom l board.devRoot d
    · exact deviceProbe_zero hwalk hon
    · rw [deviceProbe_untouched hon hwalk rfl]
      exact hoff d hd hon

/-- A board with one driver for everything and a device 1 that can own two buses. -/
def twoBusBoard : Board (Fin 3) (Fin 3) (Fin 2) where
  devRoot := 0
  busRoot := 0
  head := 0
  devName := fun _ => some (CStr.ofChars "dev".toList)
  devType := fun _ => ⟨CStr.ofChars "none".toList, CStr.ofChars "any".toList⟩
  busName := fun _ => some (CStr.ofChars "bus".toList)
  busType := fun _ => ⟨CStr.ofChars "none".toList, CStr.ofChars "any".toList⟩
  drvType := fun r => some ⟨CStr.ofChars "none".toList,
    if r = 0 then CStr.ofChars "none".toList else CStr.ofChars "any".toList⟩
  busRoot_named := bus_named

/-- The links of that board: device 1 on the root bus owns buses 1 and 2, and
device 2 is on the given one. -/
def twoBusLinks (b : Fin 3) : Links (Fin 3) (Fin 3) (Fin 2) :=
  (deviceLink twoBusBoard (busLink twoBusBoard (busLink twoBusBoard (deviceLink twoBusBoard
    (busLink twoBusBoard (driverLink twoBusBoard Links.empty 1).1 (some 0) (some 0)).1
    (some 1) (some 0)).1 (some 1) (some 1)).1 (some 2) (some 1)).1 (some 2) (some b)).1

theorem twoBusLinks_built (b : Fin 3) : Built twoBusBoard (twoBusLinks b) := by
  apply Built.device
  · apply Built.bus
    apply Built.bus
    apply Built.device
    · exact Built.bus (Built.driver Built.empty _) _ _
    · decide
  · decide

/-- With device 2 on the first bus of device 1 all devices are probed. -/
theorem probe_all_covers_iff_first : ∃ s', kDeviceProbeAll twoBusBoard (twoBusLinks 1)
      ⟨fun _ => none, fun _ => none⟩ true 6 ProbeState.initial = some (s', 0) ∧
    ∀ d, Hangs twoBusBoard (twoBusLinks 1) d → (s'.flags.dev d).probed = true := by
  have hzero : (kDeviceProbeAll twoBusBoard (twoBusLinks 1) ⟨fun _ => none, fun _ => none⟩ true 6
      ProbeState.initial).map Prod.snd = some 0 := by decide +kernel
  obtain ⟨⟨s', r⟩, hrun, rfl⟩ := Option.map_eq_some_iff.mp hzero
  refine ⟨s', hrun, (probe_all_covers_iff _ _ _ _ _ _ _ hrun).mpr fun d _ hoff => absurd ?_ hoff⟩
  have hroot : (twoBusLinks 1).busChild 0 = some 0 := by decide +kernel
  have hsoc : (twoBusLinks 1).busChild 1 = some 1 := by decide +kernel
  have hfirst : 1 ∈ (twoBusLinks 1).children 0 := by decide +kernel
  have hsecond : 2 ∈ (twoBusLinks 1).children 1 := by decide +kernel
  match d with
  | 0 => exact WalkedFrom.self 0
  | 1 => exact WalkedFrom.child hroot hfirst (WalkedFrom.self 1)
  | 2 => exact WalkedFrom.child hroot hfirst (WalkedFrom.child hsoc hsecond (WalkedFrom.self 2))

/-- With device 2 on the second bus of device 1 the result is zero too, and device 2
is not probed. -/
theorem probe_all_skips_second_bus : Built twoBusBoard (twoBusLinks 2) ∧
    Hangs twoBusBoard (twoBusLinks 2) 2 ∧
    ∃ s', kDeviceProbeAll twoBusBoard (twoBusLinks 2) ⟨fun _ => none, fun _ => none⟩ true 6
      ProbeState.initial = some (s', 0) ∧ (s'.flags.dev 2).probed = false := by
  have hrun : (kDeviceProbeAll twoBusBoard (twoBusLinks 2) ⟨fun _ => none, fun _ => none⟩ true 6
      ProbeState.initial).map (fun res => (res.2, (res.1.flags.dev 2).probed)) =
      some (0, false) := by decide +kernel
  obtain ⟨⟨s', r⟩, hrun, heq⟩ := Option.map_eq_some_iff.mp hrun
  obtain ⟨rfl, hprobed⟩ := Prod.mk.inj heq
  refine ⟨twoBusLinks_built 2, ?_, s', hrun, hprobed⟩
  have hbus : (twoBusLinks 2).busParent 2 = some 2 := by decide +kernel
  have hdev : (twoBusLinks 2).devParent 2 = some 1 := by decide +kernel
  have hup : (twoBusLinks 2).busParent 1 = some 0 := by decide +kernel
  have hroot : (twoBusLinks 2).devParent 0 = some twoBusBoard.devRoot := by decide +kernel
  exact Hangs.under hbus hdev (Hangs.first hup hroot)

end BaremetalCrt
