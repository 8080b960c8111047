import BaremetalCrt.Device.Boot
import BaremetalCrt.Device.Find

/-!
# Boards with one flat bus

All devices are on the root bus and own no buses. Whatever the order of the
registration calls is, the devices and the drivers end up in the order of their
own calls, a device is matched with the one driver of its type, and a lookup
finds the one device of a name.
-/

namespace BaremetalCrt

variable {D B R : Type}

/-- `bus_init`. -/
def busInit (board : Board D B R) (drvRootBus drvRootDev : R) : Initcall D B R :=
  ⟨[.driver drvRootBus, .bus (some board.busRoot) (some board.devRoot), .driver drvRootDev], 0⟩

/-- The calls that register drivers, and devices on the root bus, in one order. -/
def flatCalls (board : Board D B R) (drvRootBus drvRootDev : R) (drvs : List R) (devs : List D) :
    List (AddCall D B R) :=
  (busInit board drvRootBus drvRootDev).calls ++ drvs.map .driver ++
    devs.map fun d => .device (some d) (some board.busRoot)

def AddCall.dev? : AddCall D B R → Option D
  | .device dev _ => dev
  | _ => none

def AddCall.bus? : AddCall D B R → Option B
  | .bus b _ => b
  | _ => none

def AddCall.drv? : AddCall D B R → Option R
  | .driver drv => some drv
  | _ => none

section Calls

variable (board : Board D B R) (drvRootBus drvRootDev : R) (drvs : List R) (devs : List D)

theorem flatCalls_dev :
    (flatCalls board drvRootBus drvRootDev drvs devs).filterMap AddCall.dev? = devs := by
  simp [flatCalls, busInit, List.filterMap_cons, AddCall.dev?, List.filterMap_map,
    Function.comp_def]

theorem flatCalls_bus :
    (flatCalls board drvRootBus drvRootDev drvs devs).filterMap AddCall.bus? =
      [board.busRoot] := by
  simp [flatCalls, busInit, List.filterMap_cons, AddCall.bus?, List.filterMap_map,
    Function.comp_def]

theorem flatCalls_drv :
    (flatCalls board drvRootBus drvRootDev drvs devs).filterMap AddCall.drv? =
      drvRootBus :: drvRootDev :: drvs := by
  simp [flatCalls, busInit, List.filterMap_cons, AddCall.drv?, List.filterMap_map,
    Function.comp_def]

end Calls

/-- A call that keeps the tree flat. -/
inductive FlatCall (board : Board D B R) : AddCall D B R → Prop
  | driver (drv : R) : FlatCall board (.driver drv)
  | device (d : D) : FlatCall board (.device (some d) (some board.busRoot))
  | bus : FlatCall board (.bus (some board.busRoot) (some board.devRoot))

theorem flatCall_of_mem {board : Board D B R} {drvRootBus drvRootDev : R} {drvs : List R}
    {devs : List D} {c : AddCall D B R}
    (hc : c ∈ flatCalls board drvRootBus drvRootDev drvs devs) : FlatCall board c := by
  simp only [flatCalls, busInit, List.mem_append, List.mem_cons, List.mem_map, List.not_mem_nil,
    or_false] at hc
  rcases hc with ((rfl | rfl | rfl) | ⟨r, -, rfl⟩) | ⟨d, -, rfl⟩
  · exact FlatCall.driver drvRootBus
  · exact FlatCall.bus
  · exact FlatCall.driver drvRootDev
  · exact FlatCall.driver r
  · exact FlatCall.device d

/-- The drivers can be told apart by their texts, which are all set. -/
structure DistinctTypes (board : Board D B R) (rs : List R) : Prop where
  nodup : (rs.map board.drvType).Nodup
  typed : ∀ r ∈ rs, board.drvType r ≠ none

/-- The links when the given devices are on the root bus, the given buses below the
root device, and the given drivers behind the head. -/
structure FlatLinks [DecidableEq D] [DecidableEq B] (board : Board D B R) (l : Links D B R)
    (ds : List D) (bs : List B) (rs : List R) : Prop where
  devs : l.devs.Lists (Function.update (fun _ => []) board.busRoot ds)
  buses : l.buses.Lists (Function.update (fun _ => []) board.devRoot bs)
  chain : Chain l.drvNext (some board.head) (board.head :: rs)
  alone : ∀ r, r ∉ board.head :: rs → l.drvNext r = none
  types : DistinctTypes board (board.head :: rs)

section Types

variable {board : Board D B R} {rs : List R}

theorem DistinctTypes.list_nodup (h : DistinctTypes board rs) : rs.Nodup := h.nodup.of_map _

theorem DistinctTypes.eq_of_type (h : DistinctTypes board rs) {r r' : R} (hr : r ∈ rs)
    (hr' : r' ∈ rs) (heq : board.drvType r = board.drvType r') : r = r' :=
  List.inj_on_of_nodup_map h.nodup hr hr' heq

theorem DistinctTypes.perm (h : DistinctTypes board rs) {rs' : List R} (hp : rs'.Perm rs) :
    DistinctTypes board rs' :=
  ⟨(hp.map _).nodup_iff.mpr h.nodup, fun r hr => h.typed r (hp.mem_iff.mp hr)⟩

theorem DistinctTypes.sublist (h : DistinctTypes board rs) {rs' : List R} (hs : rs'.Sublist rs) :
    DistinctTypes board rs' :=
  ⟨h.nodup.sublist (hs.map _), fun r hr => h.typed r (hs.subset hr)⟩

end Types

namespace FlatLinks

variable [DecidableEq D] [DecidableEq B] {board : Board D B R} {l : Links D B R} {ds : List D}
  {bs : List B} {rs : List R}

theorem empty (h : DistinctTypes board [board.head]) :
    FlatLinks board (Links.empty : Links D B R) [] [] [] where
  devs := by
    rw [Function.update_eq_self]
    exact Family.Lists.empty (fun _ => rfl) (fun _ => rfl) (fun _ => rfl)
  buses := by
    rw [Function.update_eq_self]
    exact Family.Lists.empty (fun _ => rfl) (fun _ => rfl) (fun _ => rfl)
  chain := ⟨rfl, rfl⟩
  alone := fun _ _ => rfl
  types := h

theorem drivers_eq [Fintype R] (h : FlatLinks board l ds bs rs) :
    drivers board l = board.head :: rs :=
  follow_eq h.chain h.types.list_nodup.length_le_card

theorem children_root [Fintype D] (h : FlatLinks board l ds bs rs) :
    l.children board.busRoot = ds := by
  have hlist := congrFun h.devs.list_eq board.busRoot
  rw [Function.update_self] at hlist
  exact hlist

theorem busParent_eq_none (h : FlatLinks board l ds bs rs) {d : D} (hd : d ∉ ds) :
    l.busParent d = none := by
  rw [Option.eq_none_iff_forall_ne_some]
  intro b hb
  have hmem := (h.devs.mem_iff b d).mpr hb
  by_cases hroot : b = board.busRoot
  · rw [hroot, Function.update_self] at hmem
    exact hd hmem
  · rw [Function.update_of_ne hroot] at hmem
    exact List.not_mem_nil hmem

theorem devParent_eq_none (h : FlatLinks board l ds bs rs) {b : B} (hb : b ∉ bs) :
    l.devParent b = none := by
  rw [Option.eq_none_iff_forall_ne_some]
  intro d hd
  have hmem := (h.buses.mem_iff d b).mpr hd
  by_cases hroot : d = board.devRoot
  · rw [hroot, Function.update_self] at hmem
    exact hb hmem
  · rw [Function.update_of_ne hroot] at hmem
    exact List.not_mem_nil hmem

theorem busChild_root (h : FlatLinks board l ds bs rs) : l.busChild board.devRoot = bs.head? := by
  have hchain := h.buses.chain board.devRoot
  rw [Function.update_self] at hchain
  exact hchain.head_eq

theorem busChild_of_ne (h : FlatLinks board l ds bs rs) {d : D} (hd : d ≠ board.devRoot) :
    l.busChild d = none := by
  have hchain := h.buses.chain d
  rw [Function.update_of_ne hd] at hchain
  exact hchain

theorem device [Fintype D] (h : FlatLinks board l ds bs rs) {d : D} (hd : d ∉ ds)
    (hname : board.devName d ≠ none) :
    FlatLinks board (deviceLink board l (some d) (some board.busRoot)).1 (ds ++ [d]) bs rs := by
  have hparent := h.busParent_eq_none hd
  have hlink : (deviceLink board l (some d) (some board.busRoot)).1 =
      l.setDevs (l.devs.attach board.busRoot d) := by
    simp [deviceLink, hname, hparent]
  have hlists := h.devs.attach (k := board.busRoot) hparent
  rw [Function.update_self, Function.update_idem] at hlists
  rw [hlink]
  exact ⟨hlists, h.buses, h.chain, h.alone, h.types⟩

theorem bus [Fintype B] (h : FlatLinks board l ds bs rs) (hb : board.busRoot ∉ bs) :
    FlatLinks board (busLink board l (some board.busRoot) (some board.devRoot)).1 ds
      (bs ++ [board.busRoot]) rs := by
  have hparent := h.devParent_eq_none hb
  have hlink : (busLink board l (some board.busRoot) (some board.devRoot)).1 =
      l.setBuses (l.buses.attach board.devRoot board.busRoot) := by
    simp [busLink, board.busRoot_named, hparent]
  have hlists := h.buses.attach (k := board.devRoot) hparent
  rw [Function.update_self, Function.update_idem] at hlists
  rw [hlink]
  exact ⟨h.devs, hlists, h.chain, h.alone, h.types⟩

variable [Fintype R] [DecidableEq R]

theorem driver (h : FlatLinks board l ds bs rs) {r : R}
    (hr : DistinctTypes board (board.head :: (rs ++ [r]))) :
    FlatLinks board (driverLink board l r).1 ds bs (rs ++ [r]) := by
  obtain ⟨ty, hty⟩ := Option.ne_none_iff_exists'.mp (hr.typed r (by simp))
  have hnot : r ∉ board.head :: rs := by
    have hnodup := hr.list_nodup
    rw [← List.cons_append, List.nodup_append] at hnodup
    intro hmem
    exact hnodup.2.2 r hmem r List.mem_cons_self rfl
  have hnone : (board.head :: rs).any (typeMatches board ty) = false := by
    rw [List.any_eq_false]
    intro x hx hmatch
    have heq := (typeMatches_iff.mp hmatch).trans hty.symm
    have hx' : x ∈ board.head :: (rs ++ [r]) := by
      rw [← List.cons_append]
      exact List.mem_append_left _ hx
    obtain rfl := hr.eq_of_type hx' (by simp) heq
    exact hnot hx
  obtain ⟨last, hlast⟩ := Option.isSome_iff_exists.mp
    (List.getLast?_isSome.mpr (List.cons_ne_nil board.head rs))
  have hlink : (driverLink board l r).1 =
      { l with drvNext := Function.update l.drvNext last (some r) } := by
    simp only [driverLink, hty, h.drivers_eq, hnone, hlast, Bool.false_eq_true, if_false]
  have hchain := h.chain.append hlast h.types.list_nodup hnot (h.alone r hnot)
  rw [hlink]
  refine ⟨h.devs, h.buses, hchain, fun x hx => ?_, hr⟩
  rw [← List.cons_append, List.mem_append, not_or] at hx
  have hne : x ≠ last := by
    rintro rfl
    exact hx.1 (List.mem_of_getLast? hlast)
  change Function.update l.drvNext last (some r) x = none
  rw [Function.update_of_ne hne]
  exact h.alone x hx.1

/-- Devices, buses and drivers are linked in the order of their own calls. -/
theorem linkAll [Fintype D] [Fintype B] {calls : List (AddCall D B R)}
    (h : FlatLinks board l ds bs rs)
    (hcalls : ∀ c ∈ calls, FlatCall board c)
    (hds : (ds ++ calls.filterMap AddCall.dev?).Nodup)
    (hnamed : ∀ d ∈ calls.filterMap AddCall.dev?, board.devName d ≠ none)
    (hbs : (bs ++ calls.filterMap AddCall.bus?).Nodup)
    (hrs : DistinctTypes board (board.head :: (rs ++ calls.filterMap AddCall.drv?))) :
    FlatLinks board (BaremetalCrt.linkAll board calls l) (ds ++ calls.filterMap AddCall.dev?)
      (bs ++ calls.filterMap AddCall.bus?) (rs ++ calls.filterMap AddCall.drv?) := by
  induction calls generalizing l ds bs rs with
  | nil =>
      simp only [List.filterMap_nil, List.append_nil]
      exact h
  | cons c cs ih =>
      have hrest : ∀ c ∈ cs, FlatCall board c := fun x hx => hcalls x (List.mem_cons_of_mem c hx)
      cases hcalls c List.mem_cons_self with
      | driver r =>
          simp only [List.filterMap_cons, AddCall.dev?, AddCall.bus?, AddCall.drv?]
            at hds hnamed hbs hrs ⊢
          rw [List.append_cons] at hrs ⊢
          refine ih (h.driver (hrs.sublist ?_)) hrest hds hnamed hbs hrs
          exact (List.sublist_append_left _ _).cons_cons _
      | device d =>
          simp only [List.filterMap_cons, AddCall.dev?, AddCall.bus?, AddCall.drv?]
            at hds hnamed hbs hrs ⊢
          have hd : d ∉ ds := fun hmem =>
            (List.nodup_append.mp hds).2.2 d hmem d List.mem_cons_self rfl
          rw [List.append_cons] at hds ⊢
          exact ih (h.device hd (hnamed d List.mem_cons_self)) hrest hds
            (fun x hx => hnamed x (List.mem_cons_of_mem d hx)) hbs hrs
      | bus =>
          simp only [List.filterMap_cons, AddCall.dev?, AddCall.bus?, AddCall.drv?]
            at hds hnamed hbs hrs ⊢
          have hb : board.busRoot ∉ bs := fun hmem =>
            (List.nodup_append.mp hbs).2.2 _ hmem _ List.mem_cons_self rfl
          rw [List.append_cons] at hbs ⊢
          exact ih (h.bus hb) hrest hds hnamed hbs hrs

/-- The one driver of a type is the one that is matched. -/
theorem matchDriver_eq (h : FlatLinks board l ds bs rs) {r : R} {ty : TypePair} (hr : r ∈ rs)
    (hty : board.drvType r = some ty) : matchDriver board l ty = some r := by
  have hmem : r ∈ board.head :: rs := List.mem_cons_of_mem _ hr
  have hsome : ((board.head :: rs).find? (typeMatches board ty)).isSome :=
    List.find?_isSome.mpr ⟨r, hmem, typeMatches_iff.mpr hty⟩
  obtain ⟨x, hx⟩ := Option.isSome_iff_exists.mp hsome
  have hxty := typeMatches_iff.mp (List.find?_some hx)
  obtain rfl := h.types.eq_of_type (List.mem_of_find?_eq_some hx) hmem (hxty.trans hty.symm)
  have hne : x ≠ board.head := by
    rintro rfl
    exact (List.nodup_cons.mp h.types.list_nodup).1 hr
  simp [matchDriver, h.drivers_eq, hx, hne]

end FlatLinks

/-- A call for a device without a bus is its start. -/
theorem deviceProbe_leaf [Fintype D] [Fintype R] [DecidableEq D] [DecidableEq B] [DecidableEq R]
    {board : Board D B R} {l : Links D B R} {d : D}
    (hd : l.busChild d = none) (ops : Ops D B R) (n : Nat) (s : ProbeState D B R) :
    deviceProbe board l ops (n + 1) d s = some (deviceStart board l ops d s) := by
  simp only [deviceProbe, hd]
  split
  · rfl
  · rename_i hzero
    rw [probed_of_deviceStart (not_not.mp hzero)]
    exact congrArg (fun r => some (_, r)) (not_not.mp hzero).symm

section Lookup

variable {board : Board D B R} {l : Links D B R} {probed : D → Bool} {name : CStr}

/-- A search of devices without buses, one of which has the name. -/
theorem findLoop_flat {find : B → Option (Int × Option D)} {ds : List D} {e : D}
    (hbus : ∀ d ∈ ds, l.busChild d = none) (hnamed : ∀ d ∈ ds, board.devName d ≠ none)
    (he : e ∈ ds) (hname : HasName board name e)
    (honly : ∀ d ∈ ds, HasName board name d → d = e) :
    findLoop board l probed name find ds =
      some (if probed e then (0, some e) else (-eagain, none)) := by
  induction ds with
  | nil => exact absurd he List.not_mem_nil
  | cons d ds ih =>
      obtain ⟨devName, hdev⟩ := Option.ne_none_iff_exists'.mp (hnamed d List.mem_cons_self)
      simp only [findLoop, hdev, Option.bind_some]
      by_cases hcmp : kStrcasecmp name devName = 0
      · obtain rfl := honly d List.mem_cons_self ⟨devName, hdev, hcmp⟩
        rw [if_pos hcmp]
        split
        · rfl
        · rfl
      · have hne : e ≠ d := by
          rintro rfl
          obtain ⟨other, hother, heq⟩ := hname
          obtain rfl := Option.some.inj (hdev.symm.trans hother)
          exact hcmp heq
        rw [if_neg hcmp, hbus d List.mem_cons_self]
        have hrest := ih (fun x hx => hbus x (List.mem_cons_of_mem d hx))
          (fun x hx => hnamed x (List.mem_cons_of_mem d hx))
          ((List.mem_cons.mp he).resolve_left hne)
          (fun x hx => honly x (List.mem_cons_of_mem d hx))
        cases probed d with
        | true => exact hrest
        | false => exact hrest

end Lookup

end BaremetalCrt
