import BaremetalCrt.Device.Order
import BaremetalCrt.Device.Starter
import BaremetalCrt.Intc.Handlers

/-!
# Interrupts or polling

Two UARTs, a third one without a clock and a GPIO look up the interrupt controller of
their configuration. If it is found, they register a handler with it; if the look-up
fails for any reason, they go on without interrupts. A controller that is not probed yet
is such a reason, so what becomes of a device depends on which of both comes first.

## Implementation notes

The parts of a callback outside its interrupt code are given by their results, which can
depend on what is probed and on other data of the drivers. Those behind the registration of
the handler, `uart_ns16550_set_config` among them, return zero or `-EINVAL`, so that no
callback registers its handler twice. The callbacks of all other drivers are arbitrary,
except that they leave the private data of these devices alone, take no handler away and
link in their own handlers only. A search on the root bus always returns, so that the depth
of the search is no case of its own.
-/

namespace BaremetalCrt

open LabelledSystem

/-- The drivers that can do without interrupts. -/
inductive IntrDriver where
  | ns16550 | sifive | lite | gpio
  deriving DecidableEq

/-- `intc` and `num_irq` of the private data, the handlers of all controllers, and other
data. The handler of a device is its `hnd_irq`; `U` are the handlers of other drivers. -/
structure IntrData (D U W : Type) where
  intc : D → Option D
  numIrq : D → Int
  handlers : IntcState D (D ⊕ U)
  world : W

def IntrData.boot {D U W : Type} (world : W) : IntrData D U W where
  intc := fun _ => none
  numIrq := fun _ => 0
  handlers := IntcState.boot
  world := world

/-- A callback leaves the controller and the handler of a device alone, and no list and no
place of a controller loses a handler. -/
structure IntrData.Keeps {D U W : Type} [Fintype D] [Fintype U] (d : D) (w w' : IntrData D U W) :
    Prop where
  intc : w'.intc d = w.intc d
  event : w'.handlers.event (.inl d) = w.handlers.event (.inl d)
  tables : w.handlers.Keeps w'.handlers

/-- A callback leaves lists that end, and links in no handler of these devices. -/
structure IntrData.KeepsLists {D U W : Type} [Fintype D] [Fintype U] (w w' : IntrData D U W) :
    Prop where
  consistent : w.handlers.lists.Consistent → w'.handlers.lists.Consistent
  own : ∀ d k, Sum.inl d ∈ w'.handlers.lists.list k → Sum.inl d ∈ w.handlers.lists.list k

/-- The results of the parts of a callback outside its interrupt code and its look-up of a
clock. Those behind the registration of the handler do not ask for another try. -/
structure IntrParts (D B R W : Type) where
  freq : D → Flags D B R → W → Int
  enable : D → Flags D B R → W → Int
  mmap : D → Flags D B R → W → Int
  enableIntr : D → Flags D B R → W → Int
  defaultConfig : D → Flags D B R → W → Int
  setConfig : D → Flags D B R → W → Int
  settled : ∀ d f w, enableIntr d f w ≠ -eagain ∧ defaultConfig d f w ≠ -eagain ∧
    setConfig d f w ≠ -eagain

/-- A flat bus with such devices: the driver and the controller that a device is, and its
configuration. -/
structure IntrBoard (D B R U W : Type) [Fintype D] [Fintype B] [Fintype R] [DecidableEq D]
    [DecidableEq B] [DecidableEq R] [Fintype U] extends FlatBus D B R where
  driver : R → Option IntrDriver
  kind : D → IntcKind
  clocks : D → Option (CStr × Int)
  interrupts : D → Option (CStr × Int)
  regWidth : D → Option Nat
  parts : IntrParts D B R W
  others : StatefulOps D B R (IntrData D U W)
  keeps : ∀ r add, others.devAdd r = some add → ∀ e l f w d,
    IntrData.Keeps d w (add e l f w).1
  keepsLists : ∀ r add, others.devAdd r = some add → ∀ e l f w,
    IntrData.KeepsLists w (add e l f w).1

variable {D B R U W : Type} [Fintype D] [Fintype B] [Fintype R] [DecidableEq D]
  [DecidableEq B] [DecidableEq R] [Fintype U] [DecidableEq U]

/-- The common code of `k_clk_get_clk_from_config` and `k_intc_get_intc_from_config`: the
result, and the device with its number. -/
def getFromConfig (board : Board D B R) (l : Links D B R) (f : Flags D B R)
    (conf : Option (CStr × Int)) : Int × Option (D × Int) :=
  match conf with
  | none => (-einval, none)
  | some (name, val) =>
      match kBusFindDevice board l (fun e => (f.dev e).probed) (some board.busRoot)
        (some name) with
      | none => (-einval, none)
      | some (r, dev) =>
          if r = -eagain then (-eagain, none)
          else if r ≠ 0 then (-einval, none)
          else (0, dev.map fun dev => (dev, val))

/-- The first result that is not zero. -/
def firstError (results : List Int) : Int := (results.find? (· ≠ 0)).getD 0

namespace IntrBoard

variable (p : IntrBoard D B R U W)

/-- `k_clk_get_clk_from_config`. -/
def kClkGetClkFromConfig (l : Links D B R) (d : D) (f : Flags D B R) : Int :=
  (getFromConfig p.board l f (p.clocks d)).1

/-- `k_intc_get_intc_from_config`. -/
def kIntcGetIntcFromConfig (l : Links D B R) (d : D) (f : Flags D B R) :
    Int × Option (D × Int) :=
  getFromConfig p.board l f (p.interrupts d)

/-- The look-up of the controller; without one `priv->intc` is `NULL`. -/
def lookUpIntc (l : Links D B R) (d : D) (f : Flags D B R) (w : IntrData D U W) :
    IntrData D U W :=
  let out := p.kIntcGetIntcFromConfig l d f
  if out.1 ≠ 0 then { w with intc := Function.update w.intc d none }
  else
    match out.2 with
    | none => w
    | some (c, irq) =>
        { w with
          intc := Function.update w.intc d (some c)
          numIrq := Function.update w.numIrq d irq }

/-- The registration of the handler, if there is a controller. -/
def addIntr (d : D) (f : Flags D B R) (w : IntrData D U W) : IntrData D U W × Int :=
  match w.intc d with
  | none => (w, 0)
  | some c =>
      let out := kIntcAddHandler p.kind c (w.numIrq d) (.inl d)
        { w.handlers with drv := fun e => (f.dev e).drv.isSome }
      onSuccess ({ w with handlers := out.1 }, out.2) fun w => (w, p.parts.enableIntr d f w.world)

/-- The interrupt code of a callback between its other parts. -/
def addAround (before after : List Int) (l : Links D B R) (d : D) (f : Flags D B R)
    (w : IntrData D U W) : IntrData D U W × Int :=
  if firstError before ≠ 0 then (w, firstError before)
  else onSuccess (p.addIntr d f (p.lookUpIntc l d f w)) fun w => (w, firstError after)

/-- The check of `reg-width`, with `REG_WIDTH_DEFAULT`. -/
def regWidthResult (d : D) : Int :=
  if (p.regWidth d).getD 4 ∈ [1, 2, 4] then 0 else -einval

/-- The parts of a callback before its interrupt code. -/
def before (k : IntrDriver) (l : Links D B R) (d : D) (f : Flags D B R) (w : W) : List Int :=
  match k with
  | .ns16550 => [p.regWidthResult d, p.kClkGetClkFromConfig l d f, p.parts.freq d f w,
      p.parts.enable d f w, p.parts.mmap d f w]
  | .sifive => [p.kClkGetClkFromConfig l d f, p.parts.freq d f w, p.parts.enable d f w,
      p.parts.mmap d f w]
  | .lite => [p.parts.mmap d f w]
  | .gpio => [p.parts.mmap d f w]

/-- The parts after it. -/
def after (k : IntrDriver) (d : D) (f : Flags D B R) (w : W) : List Int :=
  match k with
  | .ns16550 => [p.parts.defaultConfig d f w, p.parts.setConfig d f w]
  | .sifive => [p.parts.defaultConfig d f w, p.parts.setConfig d f w]
  | .lite => []
  | .gpio => []

/-- `uart_ns16550_add`. -/
def uartNs16550Add (d : D) (l : Links D B R) (f : Flags D B R) (w : IntrData D U W) :
    IntrData D U W × Int :=
  p.addAround (p.before .ns16550 l d f w.world) (p.after .ns16550 d f w.world) l d f w

/-- `uart_sifive_add`. -/
def uartSifiveAdd (d : D) (l : Links D B R) (f : Flags D B R) (w : IntrData D U W) :
    IntrData D U W × Int :=
  p.addAround (p.before .sifive l d f w.world) (p.after .sifive d f w.world) l d f w

/-- `uart_lite_add`. -/
def uartLiteAdd (d : D) (l : Links D B R) (f : Flags D B R) (w : IntrData D U W) :
    IntrData D U W × Int :=
  p.addAround (p.before .lite l d f w.world) (p.after .lite d f w.world) l d f w

/-- `gpio_v2_add`. -/
def gpioV2Add (d : D) (l : Links D B R) (f : Flags D B R) (w : IntrData D U W) :
    IntrData D U W × Int :=
  p.addAround (p.before .gpio l d f w.world) (p.after .gpio d f w.world) l d f w

/-- The callback of one of these drivers. -/
def intrAdd : IntrDriver → D → Links D B R → Flags D B R → IntrData D U W → IntrData D U W × Int
  | .ns16550 => p.uartNs16550Add
  | .sifive => p.uartSifiveAdd
  | .lite => p.uartLiteAdd
  | .gpio => p.gpioV2Add

/-- The callbacks of all drivers of the board. -/
def intrOps : StatefulOps D B R (IntrData D U W) where
  devAdd := fun r =>
    match p.driver r with
    | some k => some (p.intrAdd k)
    | none => p.others.devAdd r
  busAdd := p.others.busAdd

/-- `init_drivers` on the board, with the order of the starts. -/
def init (world : W) (n : Nat) (initcalls : List (Initcall D B R)) :
    Option (((ProbeState D B R × IntrData D U W) × List (D ⊕ B)) × Int) :=
  p.intrOps.initTrace p.board (IntrData.boot world) n initcalls

/-- One start on the board, as a step. -/
def startStep (l : Links D B R) :
    ProbeState D B R × IntrData D U W → D ⊕ B → Option (ProbeState D B R × IntrData D U W) :=
  (p.intrOps.starter p.board l).step

/-- A device uses a controller: it is the one of its private data, and it has the handler
of the device in the list or in the place for the number. -/
def Serves (c : D) (irq : Int) (d : D) (w : IntrData D U W) : Prop :=
  w.intc d = some c ∧ w.handlers.Has p.kind c irq (Sum.inl d)

/-- The driver whose callback a start of the device calls. -/
def calls (l : Links D B R) (d : D) (x : ProbeState D B R × IntrData D U W) :
    Option IntrDriver :=
  if (x.1.flags.dev d).probed then none
  else (StatefulOps.attached p.board l d x.1).drv.bind p.driver

/-- The records that the callback sees. -/
def seen (l : Links D B R) (d : D) (x : ProbeState D B R × IntrData D U W) : Flags D B R :=
  x.1.flags.setDev d (StatefulOps.attached p.board l d x.1)

/-- When the callback of the device is called and all parts of it outside the interrupt
code succeed, the controller is probed already. -/
def ControllerFirst (l : Links D B R) (d c : D) (x : ProbeState D B R × IntrData D U W)
    (i : D ⊕ B) : Prop :=
  i = .inl d → ∀ k ∈ p.calls l d x,
    (∀ r ∈ p.before k l d (p.seen l d x) x.2.world, r = 0) →
    (∀ r ∈ p.after k d (p.seen l d x) x.2.world, r = 0) → (x.1.flags.dev c).probed = true

instance (l : Links D B R) (d c : D) (x : ProbeState D B R × IntrData D U W) (i : D ⊕ B) :
    Decidable (p.ControllerFirst l d c x i) :=
  inferInstanceAs (Decidable (_ → ∀ k ∈ p.calls l d x, _ → _ → _))

end IntrBoard

section Callback

variable {p : IntrBoard D B R U W} {l : Links D B R} {d : D} {f : Flags D B R}
  {w : IntrData D U W}

theorem firstError_eq_zero_iff {results : List Int} :
    firstError results = 0 ↔ ∀ r ∈ results, r = 0 := by
  unfold firstError
  cases hfind : results.find? (· ≠ 0) with
  | none => simpa using hfind
  | some r =>
      have hne : r ≠ 0 := by simpa using List.find?_some hfind
      constructor
      · intro hzero
        exact absurd hzero hne
      · intro hall
        exact absurd (hall r (List.mem_of_find?_eq_some hfind)) hne

theorem firstError_ne {results : List Int} {x : Int} (hzero : (0 : Int) ≠ x)
    (h : ∀ r ∈ results, r ≠ x) : firstError results ≠ x := by
  unfold firstError
  cases hfind : results.find? (· ≠ 0) with
  | none => exact hzero
  | some r => exact h r (List.mem_of_find?_eq_some hfind)

omit [DecidableEq D] [DecidableEq U] in
theorem IntrData.Keeps.refl (d : D) (w : IntrData D U W) : w.Keeps d w :=
  ⟨rfl, rfl, fun _ _ => id, fun _ _ _ => id⟩

omit [DecidableEq D] [DecidableEq U] in
theorem IntrData.KeepsLists.refl (w : IntrData D U W) : w.KeepsLists w := ⟨id, fun _ _ => id⟩

theorem IntrBoard.intrAdd_eq (k : IntrDriver) : p.intrAdd k d l f w =
    p.addAround (p.before k l d f w.world) (p.after k d f w.world) l d f w := by
  cases k with
  | ns16550 => rfl
  | sifive => rfl
  | lite => rfl
  | gpio => rfl

omit [DecidableEq U] in
theorem IntrBoard.lookUpIntc_handlers : (p.lookUpIntc l d f w).handlers = w.handlers := by
  simp only [IntrBoard.lookUpIntc]
  split
  · rfl
  · split
    · rfl
    · rfl

omit [DecidableEq U] in
theorem IntrBoard.lookUpIntc_intc {e : D} (he : e ≠ d) :
    (p.lookUpIntc l d f w).intc e = w.intc e := by
  simp only [IntrBoard.lookUpIntc]
  split
  · exact Function.update_of_ne he ..
  · split
    · rfl
    · exact Function.update_of_ne he ..

/-- The registration of a handler changes the handlers of all controllers at most. -/
theorem IntrBoard.addIntr_data : (p.addIntr d f w).1 = w ∨ ∃ c,
    (p.addIntr d f w).1 = { w with
      handlers := (kIntcAddHandler p.kind c (w.numIrq d) (.inl d)
        { w.handlers with drv := fun e => (f.dev e).drv.isSome }).1 } := by
  simp only [IntrBoard.addIntr]
  split
  · exact Or.inl rfl
  · rename_i c _
    refine Or.inr ⟨c, ?_⟩
    unfold onSuccess
    split
    · rfl
    · rfl

/-- A callback leaves the data as they are, or has got to its registration. -/
theorem IntrBoard.addAround_data (before after : List Int) :
    (p.addAround before after l d f w).1 = w ∨
      (p.addAround before after l d f w).1 = (p.addIntr d f (p.lookUpIntc l d f w)).1 := by
  unfold IntrBoard.addAround
  split
  · exact Or.inl rfl
  · unfold onSuccess
    split
    · exact Or.inr rfl
    · exact Or.inr rfl

/-- A callback whose handler is in no list adds this one at most, and does not touch what
other devices use. -/
theorem IntrBoard.addAround_keeps (before after : List Int)
    (hlists : w.handlers.lists.Consistent) (hnew : ∀ k, Sum.inl d ∉ w.handlers.lists.list k) :
    (p.addAround before after l d f w).1.handlers.lists.Consistent ∧
      ∀ e, e ≠ d → w.Keeps e (p.addAround before after l d f w).1 ∧
        ∀ k, Sum.inl e ∈ (p.addAround before after l d f w).1.handlers.lists.list k →
          Sum.inl e ∈ w.handlers.lists.list k := by
  rcases p.addAround_data before after (l := l) (d := d) (f := f) (w := w) with heq | heq
  · rw [heq]
    exact ⟨hlists, fun e _ => ⟨IntrData.Keeps.refl e w, fun _ => id⟩⟩
  · rw [heq]
    rcases p.addIntr_data (d := d) (f := f) (w := p.lookUpIntc l d f w) with hdata | ⟨c, hdata⟩
    · rw [hdata, p.lookUpIntc_handlers]
      refine ⟨hlists, fun e he => ⟨⟨p.lookUpIntc_intc he, ?_, ?_⟩, fun _ => id⟩⟩
      · rw [p.lookUpIntc_handlers]
      · rw [p.lookUpIntc_handlers]
        exact (IntrData.Keeps.refl e w).tables
    · rw [hdata, p.lookUpIntc_handlers]
      obtain ⟨hconsistent, hkeep, hother⟩ := kIntcAddHandler_keeps p.kind c
        ((p.lookUpIntc l d f w).numIrq d)
        (s := { w.handlers with drv := fun e => (f.dev e).drv.isSome }) hlists hnew
      refine ⟨hconsistent, fun e he => ⟨⟨p.lookUpIntc_intc he, ?_, hkeep.lists, hkeep.slots⟩,
        fun k hmem => hother k _ hmem fun h => he (Sum.inl.inj h)⟩⟩
      exact kIntcAddHandler_event p.kind c _ fun h => he (Sum.inl.inj h)

theorem IntrBoard.addIntr_settled : (p.addIntr d f w).2 ≠ -eagain := by
  simp only [IntrBoard.addIntr]
  split
  · exact show (0 : Int) ≠ -eagain by decide
  · rename_i c _
    have houtcome := kIntcAddHandler_outcome p.kind c (w.numIrq d) (.inl d)
      { w.handlers with drv := fun e => (f.dev e).drv.isSome }
    generalize kIntcAddHandler p.kind c (w.numIrq d) (.inl d)
      { w.handlers with drv := fun e => (f.dev e).drv.isSome } = out at houtcome
    unfold onSuccess
    split
    · exact (p.parts.settled d f _).1
    · rename_i hne
      cases houtcome with
      | failed r _ hagain => exact hagain
      | listed => exact absurd rfl hne
      | placed => exact absurd rfl hne

omit [DecidableEq U] in
theorem IntrBoard.after_settled (k : IntrDriver) (world : W) :
    firstError (p.after k d f world) ≠ -eagain := by
  obtain ⟨-, hdefault, hset⟩ := p.parts.settled d f world
  cases k with
  | ns16550 => exact firstError_ne (by decide) (by simp [IntrBoard.after, hdefault, hset])
  | sifive => exact firstError_ne (by decide) (by simp [IntrBoard.after, hdefault, hset])
  | lite => exact firstError_ne (by decide) (by simp [IntrBoard.after])
  | gpio => exact firstError_ne (by decide) (by simp [IntrBoard.after])

/-- A callback that is to be tried again has left the data as they were. -/
theorem IntrBoard.intrAdd_again {k : IntrDriver} (h : (p.intrAdd k d l f w).2 = -eagain) :
    (p.intrAdd k d l f w).1 = w := by
  rw [p.intrAdd_eq] at h ⊢
  unfold IntrBoard.addAround onSuccess at h ⊢
  split at h
  · rename_i hbefore
    rw [if_pos hbefore]
  · split at h
    · exact absurd h (p.after_settled k w.world)
    · exact absurd h p.addIntr_settled

/-- A callback that succeeds has passed all its parts. -/
theorem IntrBoard.parts_of_addAround {before after : List Int}
    (h : (p.addAround before after l d f w).2 = 0) :
    (∀ r ∈ before, r = 0) ∧ ∀ r ∈ after, r = 0 := by
  unfold IntrBoard.addAround at h
  split at h
  · rename_i hne
    exact absurd h hne
  · rename_i hzero
    obtain ⟨-, heq⟩ := onSuccess_eq_zero h
    rw [heq] at h
    exact ⟨firstError_eq_zero_iff.mp (not_not.mp hzero), firstError_eq_zero_iff.mp h⟩

/-- Without a controller the device is left to polling, and the callback succeeds. -/
theorem IntrBoard.addAround_polled {before after : List Int} (hbefore : ∀ r ∈ before, r = 0)
    (hafter : ∀ r ∈ after, r = 0) (hfail : (p.kIntcGetIntcFromConfig l d f).1 ≠ 0) :
    (p.addAround before after l d f w).2 = 0 ∧
      (p.addAround before after l d f w).1.intc d = none := by
  have hlook : p.lookUpIntc l d f w = { w with intc := Function.update w.intc d none } :=
    if_pos hfail
  have hadd : p.addIntr d f { w with intc := Function.update w.intc d none } =
      ({ w with intc := Function.update w.intc d none }, 0) := by
    simp only [IntrBoard.addIntr, Function.update_self]
  have hzero := firstError_eq_zero_iff.mpr hbefore
  have hall : p.addAround before after l d f w =
      ({ w with intc := Function.update w.intc d none }, firstError after) := by
    rw [IntrBoard.addAround, if_neg (not_not.mpr hzero), hlook, hadd]
    rfl
  rw [hall]
  exact ⟨firstError_eq_zero_iff.mpr hafter, Function.update_self ..⟩

/-- With a controller a callback that succeeds has registered the handler there. -/
theorem IntrBoard.addAround_served {before after : List Int} {c : D} {irq : Int}
    (hlists : w.handlers.lists.Consistent) (hnew : ∀ k, Sum.inl d ∉ w.handlers.lists.list k)
    (hfound : p.kIntcGetIntcFromConfig l d f = (0, some (c, irq)))
    (h : (p.addAround before after l d f w).2 = 0) :
    p.Serves c irq d (p.addAround before after l d f w).1 := by
  have hzero := firstError_eq_zero_iff.mpr (p.parts_of_addAround h).1
  have hlook : p.lookUpIntc l d f w =
      { w with
        intc := Function.update w.intc d (some c)
        numIrq := Function.update w.numIrq d irq } := by
    simp [IntrBoard.lookUpIntc, hfound]
  rw [IntrBoard.addAround, if_neg (not_not.mpr hzero)] at h ⊢
  obtain ⟨hadd, heq⟩ := onSuccess_eq_zero h
  rw [heq]
  rw [hlook] at hadd ⊢
  simp only [IntrBoard.addIntr, Function.update_self] at hadd ⊢
  obtain ⟨hreg, heq'⟩ := onSuccess_eq_zero hadd
  rw [heq']
  exact ⟨Function.update_self .., kIntcAddHandler_has hlists hnew hreg⟩

end Callback

section Run

variable {p : IntrBoard D B R U W} {l : Links D B R} {ds : List D} {rs : List R} {c d : D}
  {name : CStr} {irq : Int} {x y : ProbeState D B R × IntrData D U W}

omit [DecidableEq U] in
theorem IntrBoard.seen_probed (e : D) :
    ((p.seen l d x).dev e).probed = (x.1.flags.dev e).probed := by
  by_cases hed : e = d
  · rw [hed, IntrBoard.seen, Flags.setDev_dev, StatefulOps.attached, NodeFlags.attach_probed]
  · rw [IntrBoard.seen, Flags.setDev_dev_of_ne _ _ _ hed]

omit [DecidableEq U] in
/-- The look-up finds the controller if it is probed, and fails otherwise. -/
theorem IntrBoard.lookUp_eq (hl : FlatLinks p.board l ds [p.board.busRoot] rs)
    (hds : ds.Perm p.devs) (hc : c ∈ p.devs) (hconf : p.interrupts d = some (name, irq))
    (hname : HasName p.board name c) (f : Flags D B R) :
    p.kIntcGetIntcFromConfig l d f =
      if (f.dev c).probed then (0, some (c, irq)) else (-eagain, none) := by
  simp only [IntrBoard.kIntcGetIntcFromConfig, getFromConfig, hconf,
    p.find_eq hl hds (fun e => (f.dev e).probed) hc hname]
  cases (f.dev c).probed with
  | true => rfl
  | false => rfl

omit [DecidableEq U] in
theorem IntrBoard.calls_iff {k : IntrDriver} : p.calls l d x = some k ↔
    (x.1.flags.dev d).probed = false ∧
      ∃ r, (StatefulOps.attached p.board l d x.1).drv = some r ∧ p.driver r = some k := by
  unfold IntrBoard.calls
  cases (x.1.flags.dev d).probed with
  | true => simp
  | false => simp [Option.bind_eq_some_iff]

theorem IntrBoard.devAdd_eq {r : R} {k : IntrDriver} (hr : p.driver r = some k) :
    p.intrOps.devAdd r = some (p.intrAdd k) := by
  simp only [IntrBoard.intrOps, hr]

/-- The lists of handlers end, and a handler of these devices is in one only if its device
is probed. -/
structure HandlersLinked (x : ProbeState D B R × IntrData D U W) : Prop where
  lists : x.2.handlers.lists.Consistent
  own : ∀ e k, Sum.inl e ∈ x.2.handlers.lists.list k → (x.1.flags.dev e).probed = true

omit [Fintype B] [Fintype R] [DecidableEq D] [DecidableEq B] [DecidableEq R] [DecidableEq U] in
theorem HandlersLinked.boot (world : W) :
    HandlersLinked ((ProbeState.initial, IntrData.boot world) :
      ProbeState D B R × IntrData D U W) := by
  have hlists : (IntcState.boot : IntcState D (D ⊕ U)).lists.Lists fun _ => [] :=
    Family.Lists.empty (fun _ => rfl) (fun _ => rfl) (fun _ => rfl)
  refine ⟨hlists.consistent, fun e k hmem => ?_⟩
  have hnil : (IntcState.boot : IntcState D (D ⊕ U)).lists.list k = [] :=
    congrFun hlists.list_eq k
  exact absurd (hnil ▸ hmem) List.not_mem_nil

omit [Fintype B] [Fintype R] [DecidableEq D] [DecidableEq B] [DecidableEq R] [DecidableEq U] in
/-- The handler of a device that is not probed is in no list. -/
theorem HandlersLinked.notMem (h : HandlersLinked x) (hd : (x.1.flags.dev d).probed = false)
    (k : D × Line) : Sum.inl d ∉ x.2.handlers.lists.list k := by
  intro hmem
  exact absurd ((h.own d k hmem).symm.trans hd) (by simp)

/-- What a start does to the data: nothing, or what the callback of one of these drivers or
of another one does. -/
inductive IntrStart (p : IntrBoard D B R U W) (l : Links D B R)
    (x y : ProbeState D B R × IntrData D U W) (i : D ⊕ B) : Prop
  | quiet (hdata : y.2 = x.2)
  | own (e : D) (k : IntrDriver) (hi : i = .inl e) (hnot : (x.1.flags.dev e).probed = false)
      (hdata : y.2 = (p.intrAdd k e l (p.seen l e x) x.2).1)
      (hres : (p.intrOps.starter p.board l).result x i = (p.intrAdd k e l (p.seen l e x) x.2).2)
  | other (hkeeps : ∀ d, x.2.Keeps d y.2) (hlists : x.2.KeepsLists y.2)

theorem IntrBoard.startStep_cases {i : D ⊕ B} (h : p.startStep l x i = some y) :
    IntrStart p l x y i := by
  cases i with
  | inr b =>
      obtain rfl := Option.some.inj h
      exact .quiet rfl
  | inl e =>
      have hattached := p.intrOps.start_drv p.board l e x
      obtain rfl := Option.some.inj h
      cases p.intrOps.start_cases p.board l e x with
      | quiet hdata _ => exact .quiet hdata
      | called r add hdrv hadd hnot hdata _ =>
          cases hk : p.driver r with
          | some k =>
              obtain rfl := Option.some.inj ((p.devAdd_eq hk).symm.trans hadd)
              exact .own e k rfl hnot hdata
                (p.intrOps.start_result p.board l (hattached.symm.trans hdrv) hadd hnot)
          | none =>
              have hother : p.others.devAdd r = some add := by
                simpa only [IntrBoard.intrOps, hk] using hadd
              have hkeeps := p.keeps r add hother e l (p.seen l e x) x.2
              have hlists := p.keepsLists r add hother e l (p.seen l e x) x.2
              rw [IntrBoard.seen, ← hdata] at hkeeps hlists
              exact .other hkeeps hlists

theorem HandlersLinked.step (h : HandlersLinked x) {i : D ⊕ B}
    (hok : (p.intrOps.starter p.board l).Goes x i) (hstep : p.startStep l x i = some y) :
    HandlersLinked y := by
  have hmarks : ∀ e, (x.1.flags.dev e).probed = true → (y.1.flags.dev e).probed = true :=
    fun e => (p.intrOps.marks p.board l).keep x y i e hstep
  cases p.startStep_cases hstep with
  | quiet hdata =>
      refine ⟨?_, fun e k hmem => hmarks e (h.own e k ?_)⟩
      · rw [hdata]
        exact h.lists
      · rwa [hdata] at hmem
  | other _ hlists => exact ⟨hlists.consistent h.lists, fun e k hmem =>
      hmarks e (h.own e k (hlists.own e k hmem))⟩
  | own e k hi hnot hdata hres =>
      subst hi
      rw [Starter.Goes, hres] at hok
      rcases isError_eq_false_iff.mp hok with hzero | hagain
      · obtain ⟨hconsistent, hother⟩ := p.addAround_keeps
          (p.before k l e (p.seen l e x) x.2.world) (p.after k e (p.seen l e x) x.2.world)
          (l := l) (f := p.seen l e x) h.lists (h.notMem hnot)
        rw [← p.intrAdd_eq, ← hdata] at hconsistent
        refine ⟨hconsistent, fun e' j hmem => ?_⟩
        by_cases he : e' = e
        · rw [he]
          obtain rfl := Option.some.inj hstep
          exact (p.intrOps.marks p.board l).start e x (hres.trans hzero)
        · have hold := (hother e' he).2 j
          rw [← p.intrAdd_eq, ← hdata] at hold
          exact hmarks e' (h.own e' j (hold hmem))
      · rw [p.intrAdd_again hagain] at hdata
        refine ⟨?_, fun e k hmem => hmarks e (h.own e k ?_)⟩
        · rw [hdata]
          exact h.lists
        · rwa [hdata] at hmem

/-- A start of another device or of a bus. -/
theorem IntrBoard.step_other (hlinked : HandlersLinked x) {i : D ⊕ B} (hi : i ≠ .inl d)
    (h : p.startStep l x i = some y) :
    y.1.flags.dev d = x.1.flags.dev d ∧ x.2.Keeps d y.2 := by
  constructor
  · cases i with
    | inr b =>
        obtain rfl := Option.some.inj h
        exact congrFun (busStart_dev ..) d
    | inl e =>
        have hde : d ≠ e := fun heq => hi (congrArg Sum.inl heq.symm)
        obtain rfl := Option.some.inj h
        exact deviceStart_dev_ne p.board l _ hde x.1
  · cases p.startStep_cases h with
    | quiet hdata =>
        rw [hdata]
        exact IntrData.Keeps.refl d x.2
    | own e k he hnot hdata _ =>
        have hde : d ≠ e := fun heq => hi (he.trans (congrArg Sum.inl heq.symm))
        rw [hdata, p.intrAdd_eq]
        exact ((p.addAround_keeps _ _ hlinked.lists (hlinked.notMem hnot)).2 d hde).1
    | other hkeeps _ => exact hkeeps d

/-- A start of a device that is probed. -/
theorem IntrBoard.step_done (hdrv : (x.1.flags.dev d).drv ≠ none)
    (hp : (x.1.flags.dev d).probed = true) (h : p.startStep l x (.inl d) = some y) : y = x := by
  have hsame := deviceStart_of_done p.board l (p.intrOps.frozen x.2) (s := x.1) ⟨hdrv, hp⟩
  obtain rfl := Option.some.inj h
  apply Prod.ext
  · change (deviceStart p.board l (p.intrOps.frozen x.2) d x.1).1 = x.1
    rw [hsame]
  · exact p.intrOps.start_quiet p.board l (Or.inl hp)

/-- The device is not probed, or it uses its controller. -/
structure Served (p : IntrBoard D B R U W) (c : D) (irq : Int) (d : D) (r : R)
    (x : ProbeState D B R × IntrData D U W) : Prop where
  attached : (x.1.flags.dev d).probed = true → (x.1.flags.dev d).drv ≠ none
  serves : (x.1.flags.dev d).drv = some r → (x.1.flags.dev d).probed = true →
    p.Serves c irq d x.2

/-- The device is probed, and left to polling. -/
structure Polled (d : D) (x : ProbeState D B R × IntrData D U W) : Prop where
  attached : (x.1.flags.dev d).drv ≠ none
  probed : (x.1.flags.dev d).probed = true
  polled : x.2.intc d = none

omit [DecidableEq U] in
theorem Served.other {r : R} (h : Served p c irq d r x)
    (hdev : y.1.flags.dev d = x.1.flags.dev d) (hkeep : x.2.Keeps d y.2) :
    Served p c irq d r y where
  attached := by
    rw [hdev]
    exact h.attached
  serves := by
    rw [hdev]
    intro hdrv hp
    obtain ⟨hintc, hhas⟩ := h.serves hdrv hp
    exact ⟨hkeep.intc.trans hintc, hhas.keep hkeep.tables hkeep.event⟩

theorem Polled.step (h : Polled d x) (hlinked : HandlersLinked x) {i : D ⊕ B}
    (hstep : p.startStep l x i = some y) : Polled d y := by
  by_cases hi : i = .inl d
  · subst hi
    rw [p.step_done h.attached h.probed hstep]
    exact h
  · obtain ⟨hdev, hkeep⟩ := p.step_other hlinked hi hstep
    refine ⟨?_, ?_, hkeep.intc.trans h.polled⟩
    · rw [hdev]
      exact h.attached
    · rw [hdev]
      exact h.probed

/-- A call that comes after the controller ends in its use, if it succeeds. -/
theorem Served.step {r : R} {k : IntrDriver} (h : Served p c irq d r x)
    (hlinked : HandlersLinked x) (hr : p.driver r = some k) (hl : FlatLinks p.board l ds [p.board.busRoot] rs)
    (hds : ds.Perm p.devs) (hc : c ∈ p.devs) (hconf : p.interrupts d = some (name, irq))
    (hname : HasName p.board name c) {i : D ⊕ B} (hok : p.ControllerFirst l d c x i)
    (hstep : p.startStep l x i = some y) : Served p c irq d r y := by
  by_cases hi : i = .inl d
  · subst hi
    by_cases hp : (x.1.flags.dev d).probed = true
    · rw [p.step_done (h.attached hp) hp hstep]
      exact h
    · have hattached := p.intrOps.start_drv p.board l d x
      obtain rfl := Option.some.inj hstep
      cases p.intrOps.start_cases p.board l d x with
      | quiet _ hdev =>
          refine ⟨fun hp' => ?_, fun hdrv hp' => ?_⟩
          · obtain ⟨r', hr', -⟩ := (hdev hp').resolve_left hp
            rw [hr']
            exact Option.some_ne_none r'
          · obtain ⟨r', hr', hnone⟩ := (hdev hp').resolve_left hp
            obtain rfl := Option.some.inj (hr'.symm.trans hdrv)
            exact absurd ((p.devAdd_eq hr).symm.trans hnone) (by simp)
      | called r' add hdrv' hadd hnot hdata hdev =>
          refine ⟨fun _ => ?_, fun hdrv hp' => ?_⟩
          · rw [hdrv']
            exact Option.some_ne_none r'
          · obtain rfl := Option.some.inj (hdrv'.symm.trans hdrv)
            obtain rfl := Option.some.inj ((p.devAdd_eq hr).symm.trans hadd)
            have hzero := of_decide_eq_true (hdev.symm.trans hp')
            rw [p.intrAdd_eq] at hzero
            obtain ⟨hbefore, hafter⟩ := p.parts_of_addAround hzero
            have hcalls : p.calls l d x = some k :=
              p.calls_iff.mpr ⟨hnot, r', hattached.symm.trans hdrv', hr⟩
            have hready := hok rfl k hcalls hbefore hafter
            have hfound := p.lookUp_eq hl hds hc hconf hname (p.seen l d x)
            rw [p.seen_probed, if_pos hready] at hfound
            rw [hdata, p.intrAdd_eq]
            exact p.addAround_served hlinked.lists (hlinked.notMem hnot) hfound hzero
  · obtain ⟨hdev, hkeep⟩ := p.step_other hlinked hi hstep
    exact h.other hdev hkeep

/-- A call that succeeds before the controller is probed leaves the device to polling. -/
theorem polled_of_early (hl : FlatLinks p.board l ds [p.board.busRoot] rs)
    (hds : ds.Perm p.devs) (hc : c ∈ p.devs) (hconf : p.interrupts d = some (name, irq))
    (hname : HasName p.board name c) {i : D ⊕ B} (hearly : ¬ p.ControllerFirst l d c x i)
    (hstep : p.startStep l x i = some y) : Polled d y := by
  simp only [IntrBoard.ControllerFirst, not_forall] at hearly
  obtain ⟨rfl, k, hcalls, hbefore, hafter, hnot⟩ := hearly
  obtain ⟨hp, r, hr, hk⟩ := p.calls_iff.mp hcalls
  obtain rfl := Option.some.inj hstep
  have hfail : (p.kIntcGetIntcFromConfig l d (p.seen l d x)).1 ≠ 0 := by
    rw [p.lookUp_eq hl hds hc hconf hname, p.seen_probed, if_neg hnot]
    exact show -eagain ≠ 0 by decide
  obtain ⟨hzero, hpolled⟩ := p.addAround_polled (w := x.2) hbefore hafter hfail
  have hdata := p.intrOps.start_called p.board l hr (p.devAdd_eq hk) hp
  have hprobed := p.intrOps.start_probed p.board l hr
  rw [p.intrAdd_eq] at hdata
  refine ⟨?_, ?_, ?_⟩
  · rw [p.intrOps.start_drv p.board l d x, hr]
    exact Option.some_ne_none r
  · rw [hprobed, p.devAdd_eq hk, Option.map_some, Option.getD_some, p.intrAdd_eq]
    exact Bool.or_eq_true_iff.mpr (Or.inr (decide_eq_true hzero))
  · rw [hdata]
    exact hpolled

/-- Every start is made with the handlers linked. -/
theorem IntrBoard.along_linked {world : W} {n : Nat} {initcalls : List (Initcall D B R)}
    {starts : List (D ⊕ B)} {res : Int} (h : p.init world n initcalls = some ((x, starts), res)) :
    Along (p.startStep (bootLinks p.board initcalls)) (fun s _ => HandlersLinked s)
      (ProbeState.initial, IntrData.boot world) starts := by
  have hgoes := StatefulOps.along_of_initTrace h
  have hexec := StatefulOps.exec_of_initTrace h
  have hboot : HandlersLinked ((ProbeState.initial, IntrData.boot world) :
      ProbeState D B R × IntrData D U W) := HandlersLinked.boot world
  rcases List.eq_nil_or_concat' starts with rfl | ⟨is, i, rfl⟩
  · trivial
  · rw [List.dropLast_concat] at hgoes
    obtain ⟨m, hm, -⟩ := (exec_concat_iff _).mp hexec
    have hlast := exec_invariant (fun s i s' hs => hs.step) hboot hgoes hm
    exact (hgoes.of_invariant (fun s i s' hs => hs.step) (fun _ _ hs _ => hs) hboot).concat hm hlast

end Run

/-- When the loop ends with one of these devices probed, the device uses its controller
exactly when every call of its callback in which the other parts succeed came after the
controller was probed. -/
theorem interrupt_served_iff (p : IntrBoard D B R U W) (initcalls : List (Initcall D B R))
    (h : p.Registers initcalls) (world : W) (n : Nat) (res : Int)
    (x : ProbeState D B R × IntrData D U W) (starts : List (D ⊕ B))
    (hrun : p.init world n initcalls = some ((x, starts), res)) (c d : D) (hc : c ∈ p.devs)
    (name : CStr) (irq : Int) (hconf : p.interrupts d = some (name, irq))
    (hname : HasName p.board name c) (r : R) (k : IntrDriver)
    (hdrv : (x.1.flags.dev d).drv = some r) (hr : p.driver r = some k)
    (hd : (x.1.flags.dev d).probed = true) :
    p.Serves c irq d x.2 ↔
      Along (p.startStep (bootLinks p.board initcalls))
        (p.ControllerFirst (bootLinks p.board initcalls) d c)
        (ProbeState.initial, IntrData.boot world) starts := by
  obtain ⟨ds, rs, hl, hds, -⟩ := p.links_of_registers h
  have hexec := StatefulOps.exec_of_initTrace hrun
  have hlinked := p.along_linked hrun
  have hstart : Served p c irq d r
      ((ProbeState.initial, IntrData.boot world) : ProbeState D B R × IntrData D U W) :=
    ⟨fun hp => absurd hp Bool.false_ne_true, fun _ hp => absurd hp Bool.false_ne_true⟩
  have hkeep : ∀ s i s', Served p c irq d r s → HandlersLinked s →
      p.ControllerFirst (bootLinks p.board initcalls) d c s i →
      p.startStep (bootLinks p.board initcalls) s i = some s' → Served p c irq d r s' :=
    fun s i s' hs hlinked => hs.step hlinked hr hl hds hc hconf hname
  rcases along_or_broken hkeep (fun s i s' _ _ => polled_of_early hl hds hc hconf hname)
    (fun s i s' hs hlinked => hs.step hlinked) hstart hlinked hexec with
    ⟨halong, hserved⟩ | ⟨hnot, hpolled⟩
  · exact ⟨fun _ => halong, fun _ => hserved.serves hdrv hd⟩
  · constructor
    · rintro ⟨hintc, -⟩
      exact absurd (hintc.symm.trans hpolled.polled) (by simp)
    · intro halong
      exact absurd halong hnot

/-- The names of a board with a GPIO and an interrupt controller. -/
def gpioName : Fin 3 → CStr
  | 0 => CStr.ofChars "root".toList
  | 1 => CStr.ofChars "gpio0".toList
  | 2 => CStr.ofChars "plic0".toList

/-- The types of its drivers: the head, those of the root bus and the root device, and
those of both devices. -/
def gpioType : Fin 5 → TypePair
  | 0 => ⟨CStr.ofChars "none".toList, CStr.ofChars "none".toList⟩
  | 1 => ⟨CStr.ofChars "none".toList, CStr.ofChars "bus_root".toList⟩
  | 2 => ⟨CStr.ofChars "none".toList, CStr.ofChars "dev_root".toList⟩
  | 3 => ⟨CStr.ofChars "xilinx".toList, CStr.ofChars "gpio_v2".toList⟩
  | 4 => ⟨CStr.ofChars "sifive".toList, CStr.ofChars "plic0".toList⟩

theorem gpioName_ne : ∀ d e : Fin 3, d ≠ e → kStrcasecmp (gpioName d) (gpioName e) ≠ 0 := by
  decide +kernel

theorem gpioType_nodup : ([0, 1, 2, 3, 4].map fun r => some (gpioType r)).Nodup := by
  decide +kernel

/-- The callback of the controller leaves the data alone. -/
theorem gpioOthers {r : Fin 5} {add : Fin 3 → Links (Fin 3) (Fin 1) (Fin 5) →
    Flags (Fin 3) (Fin 1) (Fin 5) → IntrData (Fin 3) Empty Unit → IntrData (Fin 3) Empty Unit × Int}
    (hadd : (if r = 4 then some fun _ _ _ w => (w, 0) else none) = some add) (e : Fin 3)
    (l : Links (Fin 3) (Fin 1) (Fin 5)) (f : Flags (Fin 3) (Fin 1) (Fin 5))
    (w : IntrData (Fin 3) Empty Unit) : w = (add e l f w).1 := by
  split at hadd
  · rw [← Option.some.inj hadd]
  · cases hadd

/-- The GPIO has number 5 at the controller; the callback of the controller and all parts
of that of the GPIO succeed. -/
def gpioBoard : IntrBoard (Fin 3) (Fin 1) (Fin 5) Empty Unit where
  board :=
    { devRoot := 0
      busRoot := 0
      head := 0
      devName := fun d => some (gpioName d)
      devType := fun d => gpioType (if d = 0 then 2 else if d = 1 then 3 else 4)
      busName := fun _ => some (CStr.ofChars "root bus".toList)
      busType := fun _ => gpioType 1
      drvType := fun r => some (gpioType r)
      busRoot_named := rootBus_named }
  devs := [1, 2]
  drvs := [3, 4]
  drvRootBus := 1
  drvRootDev := 2
  root_notMem := by decide
  named := fun _ _ => Option.some_ne_none _
  names := pairwise_namesDiffer (fun _ => rfl) gpioName_ne (by decide)
  types := ⟨gpioType_nodup, fun _ _ => Option.some_ne_none _⟩
  driver := fun r => if r = 3 then some .gpio else none
  kind := fun _ => .plic
  clocks := fun _ => none
  interrupts := fun d => if d = 1 then some (CStr.ofChars "plic0".toList, 5) else none
  regWidth := fun _ => none
  parts := ⟨fun _ _ _ => 0, fun _ _ _ => 0, fun _ _ _ => 0, fun _ _ _ => 0, fun _ _ _ => 0,
    fun _ _ _ => 0, fun _ _ _ => by decide⟩
  others := ⟨fun r => if r = 4 then some fun _ _ _ w => (w, 0) else none, fun _ => none⟩
  keeps := fun r add hadd e l f w d => gpioOthers hadd e l f w ▸ IntrData.Keeps.refl d w
  keepsLists := fun r add hadd e l f w => gpioOthers hadd e l f w ▸ IntrData.KeepsLists.refl w

/-- A registration of both devices in the given order. -/
def gpioInitcalls (devs : List (Fin 3)) : List (Initcall (Fin 3) (Fin 1) (Fin 5)) :=
  [busInit gpioBoard.board 1 2, ⟨[.driver 3, .driver 4], 0⟩,
    ⟨devs.map fun d => .device (some d) (some 0), 0⟩]

theorem gpioInitcalls_registers {devs : List (Fin 3)} (h : devs.Perm [1, 2]) :
    gpioBoard.Registers (gpioInitcalls devs) := by
  have hcalls : (gpioInitcalls devs).flatMap (·.calls) =
      (busInit gpioBoard.board 1 2).calls ++ [.driver 3, .driver 4] ++
        devs.map fun d => .device (some d) (some 0) := by
    simp [gpioInitcalls]
  rw [FlatBus.Registers, hcalls]
  exact (h.map _).append_left _

theorem gpio_hasName : HasName gpioBoard.board (CStr.ofChars "plic0".toList) 2 :=
  ⟨_, rfl, by decide +kernel⟩

/-- With the controller first on the bus the GPIO uses it. -/
theorem interrupt_served_iff_gpio : ∃ x starts,
    gpioBoard.init () 1 (gpioInitcalls [2, 1]) = some ((x, starts), 0) ∧
      gpioBoard.Serves 2 5 1 x.2 := by
  have hrun : (gpioBoard.init () 1 (gpioInitcalls [2, 1])).map (fun y =>
      (y.2, y.1.2, (y.1.1.1.flags.dev 1).drv, (y.1.1.1.flags.dev 1).probed)) =
      some (0, [.inl 0, .inr 0, .inl 2, .inl 1], some 3, true) := by decide +kernel
  obtain ⟨⟨⟨x, starts⟩, res⟩, hinit, heq⟩ := Option.map_eq_some_iff.mp hrun
  simp only [Prod.mk.injEq] at heq
  obtain ⟨rfl, rfl, hdrv, hprobed⟩ := heq
  refine ⟨x, _, hinit, ?_⟩
  apply (interrupt_served_iff gpioBoard (gpioInitcalls [2, 1])
    (gpioInitcalls_registers (by decide)) () 1 0 x _ hinit 2 1 (by decide) _ 5 rfl gpio_hasName 3
    .gpio hdrv rfl hprobed).mpr
  decide +kernel

/-- With the GPIO first on the bus both devices are probed too, but the GPIO is left to
polling and the controller has no handler of it. -/
theorem gpio_before_controller_polls : gpioBoard.Registers (gpioInitcalls [1, 2]) ∧
    ∃ x starts, gpioBoard.init () 1 (gpioInitcalls [1, 2]) = some ((x, starts), 0) ∧
      (x.1.flags.dev 1).probed = true ∧ (x.1.flags.dev 2).probed = true ∧
      x.2.intc 1 = none ∧ x.2.handlers.handlersAt gpioBoard.kind 2 = [] := by
  have hrun : (gpioBoard.init () 1 (gpioInitcalls [1, 2])).map (fun y =>
      (y.2, (y.1.1.1.flags.dev 1).probed, (y.1.1.1.flags.dev 2).probed, y.1.1.2.intc 1,
        (y.1.1.2.handlers.handlersAt gpioBoard.kind 2).length)) =
      some (0, true, true, none, 0) := by decide +kernel
  obtain ⟨⟨⟨x, starts⟩, res⟩, hinit, heq⟩ := Option.map_eq_some_iff.mp hrun
  simp only [Prod.mk.injEq] at heq
  obtain ⟨rfl, hgpio, hplic, hintc, hnone⟩ := heq
  exact ⟨gpioInitcalls_registers (by decide), x, starts, hinit, hgpio, hplic, hintc,
    List.length_eq_zero_iff.mp hnone⟩

end BaremetalCrt
