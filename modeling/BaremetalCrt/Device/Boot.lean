import BaremetalCrt.Device.Probe

/-!
# Initialising the drivers at boot

`init_drivers` runs the initialisation functions with probing switched off, so
that their calls only link objects in, and then probes all devices again and
again, as long as the result is `-EAGAIN`.

## Implementation notes

An initialisation function is the list of its calls and its result. The
callbacks can be other ones in every pass, so that what they answer may also
depend on the time. A number bounds the passes.
-/

namespace BaremetalCrt

/-- A call that links an object in. -/
inductive AddCall (D B R : Type)
  | driver (driver : R)
  | device (dev : Option D) (parent : Option B)
  | bus (bus : Option B) (parent : Option D)
  deriving DecidableEq

/-- An initialisation function. -/
structure Initcall (D B R : Type) where
  calls : List (AddCall D B R)
  result : Int

variable {D B R : Type} [Fintype D] [Fintype B] [Fintype R] [DecidableEq D] [DecidableEq B]
  [DecidableEq R]

/-- The linking part of a call. -/
def AddCall.link (board : Board D B R) (l : Links D B R) : AddCall D B R → Links D B R × Int
  | .driver drv => driverLink board l drv
  | .device dev parent => deviceLink board l dev parent
  | .bus b parent => busLink board l b parent

/-- A call. -/
def AddCall.exec (board : Board D B R) (ops : Ops D B R) (sys : DeviceSystem D B R) :
    AddCall D B R → Option (DeviceSystem D B R × Int)
  | .driver drv => kDriverAdd board ops sys drv
  | .device dev parent => kDeviceAdd board ops sys dev parent
  | .bus b parent => kBusAdd board ops sys b parent

/-- The calls of one initialisation function. -/
def runCalls (board : Board D B R) (ops : Ops D B R) :
    List (AddCall D B R) → DeviceSystem D B R → Option (DeviceSystem D B R)
  | [], sys => some sys
  | c :: cs, sys => (c.exec board ops sys).bind fun (sys, _) => runCalls board ops cs sys

/-- The first loop of `init_drivers`. -/
def runInitcalls (board : Board D B R) (ops : Ops D B R) :
    List (Initcall D B R) → DeviceSystem D B R → Int → Option (DeviceSystem D B R × Int)
  | [], sys, res => some (sys, res)
  | c :: cs, sys, res =>
      (runCalls board ops c.calls sys).bind fun sys =>
        runInitcalls board ops cs sys (if c.result ≠ 0 then c.result else res)

/-- One pass of the second loop. -/
def probePass (board : Board D B R) (l : Links D B R) (ops : Ops D B R) (s : ProbeState D B R) :
    Option (ProbeState D B R × Int) :=
  kDeviceProbeAll board l ops true (Fintype.card (D ⊕ B)) s

/-- The second loop of `init_drivers`, from the given pass on. -/
def initLoop (board : Board D B R) (l : Links D B R) (env : Nat → Ops D B R) :
    Nat → Nat → ProbeState D B R → Int → Option (ProbeState D B R × Int)
  | 0, _, _, _ => none
  | n + 1, k, s, res =>
      (probePass board l (env k) s).bind fun (s, r) =>
        if isError r then some (s, r)
        else if r = -eagain then initLoop board l env n (k + 1) s res
        else some (s, res)

/-- `init_drivers`, with at most the given number of passes. -/
def initDrivers (board : Board D B R) (env : Nat → Ops D B R) (n : Nat)
    (initcalls : List (Initcall D B R)) : Option (DeviceSystem D B R × Int) :=
  (runInitcalls board (env 0) initcalls ⟨Links.empty, false, ProbeState.initial⟩ 0).bind
    fun (sys, res) =>
      (initLoop board sys.links env n 0 sys.probe res).map fun (s, res) =>
        (⟨sys.links, true, s⟩, res)

/-- The links after some calls. -/
def linkAll (board : Board D B R) (calls : List (AddCall D B R)) (l : Links D B R) :
    Links D B R :=
  calls.foldl (fun l c => (c.link board l).1) l

/-- The links that the initialisation functions leave. -/
def bootLinks (board : Board D B R) (initcalls : List (Initcall D B R)) : Links D B R :=
  linkAll board (initcalls.flatMap (·.calls)) Links.empty

section Linking

variable (board : Board D B R)

theorem DeviceSystem.relink_disabled (ops : Ops D B R) (l : Links D B R) (s : ProbeState D B R)
    (linked : Links D B R × Int) :
    (⟨l, false, s⟩ : DeviceSystem D B R).relink board ops linked =
      some (⟨linked.1, false, s⟩, linked.2) := by
  unfold DeviceSystem.relink
  split
  · rfl
  · rename_i hzero
    rw [not_not.mp hzero]
    rfl

/-- With probing switched off a call only links. -/
theorem AddCall.exec_disabled (ops : Ops D B R) (l : Links D B R) (s : ProbeState D B R)
    (c : AddCall D B R) : c.exec board ops ⟨l, false, s⟩ =
      some (⟨(c.link board l).1, false, s⟩, (c.link board l).2) := by
  cases c with
  | driver drv => exact DeviceSystem.relink_disabled board ops l s _
  | device dev parent => exact DeviceSystem.relink_disabled board ops l s _
  | bus b parent => exact DeviceSystem.relink_disabled board ops l s _

theorem runCalls_disabled (ops : Ops D B R) (l : Links D B R) (s : ProbeState D B R)
    (calls : List (AddCall D B R)) :
    runCalls board ops calls ⟨l, false, s⟩ = some ⟨linkAll board calls l, false, s⟩ := by
  induction calls generalizing l with
  | nil => rfl
  | cons c cs ih =>
      simp only [runCalls, AddCall.exec_disabled, Option.bind_some]
      exact ih _

theorem runInitcalls_disabled (ops : Ops D B R) (l : Links D B R) (s : ProbeState D B R)
    (initcalls : List (Initcall D B R)) (res : Int) :
    ∃ res', runInitcalls board ops initcalls ⟨l, false, s⟩ res =
      some (⟨linkAll board (initcalls.flatMap (·.calls)) l, false, s⟩, res') := by
  induction initcalls generalizing l res with
  | nil => exact ⟨res, rfl⟩
  | cons c cs ih =>
      simp only [runInitcalls, runCalls_disabled, Option.bind_some]
      obtain ⟨res', h⟩ := ih (linkAll board c.calls l) (if c.result ≠ 0 then c.result else res)
      refine ⟨res', h.trans ?_⟩
      simp only [List.flatMap_cons, linkAll, List.foldl_append]

/-- Functions that all return zero leave the result at zero. -/
theorem runInitcalls_zero (ops : Ops D B R) (l : Links D B R) (s : ProbeState D B R)
    {initcalls : List (Initcall D B R)} (hzero : ∀ c ∈ initcalls, c.result = 0) :
    runInitcalls board ops initcalls ⟨l, false, s⟩ 0 =
      some (⟨linkAll board (initcalls.flatMap (·.calls)) l, false, s⟩, 0) := by
  induction initcalls generalizing l with
  | nil => rfl
  | cons c cs ih =>
      obtain ⟨hc, hcs⟩ := List.forall_mem_cons.mp hzero
      simp only [runInitcalls, runCalls_disabled, Option.bind_some, hc, ne_eq, not_true, if_false]
      rw [ih _ hcs]
      simp only [List.flatMap_cons, linkAll, List.foldl_append]

/-- The initialisation functions link, and the loop starts with nothing probed. -/
theorem initDrivers_eq (env : Nat → Ops D B R) (initcalls : List (Initcall D B R)) :
    ∃ res, ∀ n, initDrivers board env n initcalls =
      (initLoop board (bootLinks board initcalls) env n 0 ProbeState.initial res).map
        fun (s, res) => (⟨bootLinks board initcalls, true, s⟩, res) := by
  obtain ⟨res, h⟩ := runInitcalls_disabled board (env 0) Links.empty ProbeState.initial
    initcalls 0
  refine ⟨res, fun n => ?_⟩
  simp only [initDrivers, h, Option.bind_some]
  rfl

variable {board}

theorem built_linkAll {calls : List (AddCall D B R)} {l : Links D B R} (hl : Built board l)
    (hroot : ∀ dev parent, AddCall.device dev parent ∈ calls → dev ≠ some board.devRoot) :
    Built board (linkAll board calls l) := by
  induction calls generalizing l with
  | nil => exact hl
  | cons c cs ih =>
      apply ih _ fun dev parent hc => hroot dev parent (List.mem_cons_of_mem c hc)
      cases c with
      | driver driver => exact hl.driver driver
      | device dev parent => exact hl.device dev parent (hroot dev parent List.mem_cons_self)
      | bus bus parent => exact hl.bus bus parent

end Linking

end BaremetalCrt
