import BaremetalCrt.Device.Flat
import BaremetalCrt.Device.Progress
import BaremetalCrt.Library.Sweeps
import Mathlib.Data.List.Pairwise

/-!
# Registration order on a flat bus

The devices of a flat bus name each other in their configurations, and their
callbacks ask for another round as long as a device that they name is not
probed. A pass over the bus is a sweep over the devices. If nothing names itself
through others, the passes end, and the result does not depend on the order in
which devices and drivers were registered.
-/

namespace BaremetalCrt

variable {D B R : Type} [Fintype D] [Fintype B] [Fintype R] [DecidableEq D] [DecidableEq B]
  [DecidableEq R]

/-- The names of two devices differ, ignoring case. -/
def NamesDiffer (board : Board D B R) (d e : D) : Prop :=
  ∀ a b, board.devName d = some a → board.devName e = some b → kStrcasecmp a b ≠ 0

instance (board : Board D B R) : Std.Symm (NamesDiffer board) where
  symm := by
    intro d e h a b ha hb heq
    apply h b a hb ha
    rw [kStrcasecmp_eq_zero_iff] at heq ⊢
    exact heq.symm

omit [Fintype D] [Fintype B] [Fintype R] [DecidableEq D] [DecidableEq B] [DecidableEq R] in
/-- Where every device has a name of its own, the names of a list of devices differ. -/
theorem pairwise_namesDiffer {board : Board D B R} {name : D → CStr}
    (hdev : ∀ d, board.devName d = some (name d))
    (hname : ∀ d e, d ≠ e → kStrcasecmp (name d) (name e) ≠ 0) {devs : List D}
    (hnodup : devs.Nodup) : devs.Pairwise (NamesDiffer board) := by
  refine hnodup.imp ?_
  intro d e hne a b ha hb
  rw [hdev d] at ha
  rw [hdev e] at hb
  rw [← Option.some.inj ha, ← Option.some.inj hb]
  exact hname d e hne

/-- A device of the list names another one in its configuration. -/
def Names (board : Board D B R) (conf : D → List CStr) (devs : List D) (d e : D) : Prop :=
  d ∈ devs ∧ e ∈ devs ∧ ∃ name ∈ conf d, HasName board name e

/-- Named devices on the root bus, with drivers that can be told apart. -/
structure FlatBus (D B R : Type) [Fintype D] [Fintype B] [Fintype R] [DecidableEq D]
    [DecidableEq B] [DecidableEq R] where
  board : Board D B R
  devs : List D
  drvs : List R
  drvRootBus : R
  drvRootDev : R
  root_notMem : board.devRoot ∉ devs
  named : ∀ d ∈ devs, board.devName d ≠ none
  names : devs.Pairwise (NamesDiffer board)
  types : DistinctTypes board (board.head :: drvRootBus :: drvRootDev :: drvs)

namespace FlatBus

variable (p : FlatBus D B R)

/-- The calls of the initialisation functions register the bus, in any order. -/
def Registers (initcalls : List (Initcall D B R)) : Prop :=
  (initcalls.flatMap (·.calls)).Perm
    (flatCalls p.board p.drvRootBus p.drvRootDev p.drvs p.devs)

theorem ne_root {d : D} (hd : d ∈ p.devs) : d ≠ p.board.devRoot := by
  rintro rfl
  exact p.root_notMem hd

/-- At most one device of the list has a given name. -/
theorem eq_of_hasName {name : CStr} {d e : D} (hd : d ∈ p.devs) (he : e ∈ p.devs)
    (hdn : HasName p.board name d) (hen : HasName p.board name e) : d = e := by
  by_contra hne
  obtain ⟨a, ha, hna⟩ := hdn
  obtain ⟨b, hb, hnb⟩ := hen
  apply p.names.forall hd he hne a b ha hb
  rw [kStrcasecmp_eq_zero_iff] at hna hnb ⊢
  exact hna.symm.trans hnb

theorem devs_nodup : p.devs.Nodup := by
  apply List.Pairwise.imp_of_mem _ p.names
  rintro d e hd - hne rfl
  obtain ⟨a, ha⟩ := Option.ne_none_iff_exists'.mp (p.named d hd)
  exact hne a a ha ha ((kStrcasecmp_eq_zero_iff a a).mpr rfl)

/-- Registration in some order leaves all devices on the root bus. -/
theorem links_of_registers {initcalls : List (Initcall D B R)} (h : p.Registers initcalls) :
    ∃ ds rs, FlatLinks p.board (bootLinks p.board initcalls) ds [p.board.busRoot] rs ∧
      ds.Perm p.devs ∧ rs.Perm (p.drvRootBus :: p.drvRootDev :: p.drvs) := by
  have hdevs := h.filterMap AddCall.dev?
  have hbuses := h.filterMap AddCall.bus?
  have hdrvs := h.filterMap AddCall.drv?
  rw [flatCalls_dev] at hdevs
  rw [flatCalls_bus, List.perm_singleton] at hbuses
  rw [flatCalls_drv] at hdrvs
  have hempty := FlatLinks.empty (p.types.sublist (List.sublist_append_left [p.board.head] _))
  have hlinks := hempty.linkAll (fun c hc => flatCall_of_mem (h.mem_iff.mp hc))
    (hdevs.nodup_iff.mpr p.devs_nodup) (fun d hd => p.named d (hdevs.mem_iff.mp hd))
    (hbuses ▸ List.nodup_singleton _) (p.types.perm (hdrvs.cons _))
  rw [hbuses] at hlinks
  exact ⟨_, _, hlinks, hdevs, hdrvs⟩

/-- A lookup of the name of a device of the list. -/
theorem find_eq {l : Links D B R} {ds : List D} {bs : List B} {rs : List R}
    (h : FlatLinks p.board l ds bs rs) (hds : ds.Perm p.devs) (probed : D → Bool) {name : CStr}
    {e : D} (he : e ∈ p.devs) (hname : HasName p.board name e) :
    kBusFindDevice p.board l probed (some p.board.busRoot) (some name) =
      some (if probed e then (0, some e) else (-eagain, none)) := by
  have hcard : 0 < Fintype.card (D ⊕ B) := Fintype.card_pos_iff.mpr ⟨.inl e⟩
  obtain ⟨n, hn⟩ := Nat.exists_eq_succ_of_ne_zero hcard.ne'
  simp only [kBusFindDevice, hn, findDevice, h.children_root]
  apply findLoop_flat
  · intro d hd
    exact h.busChild_of_ne (p.ne_root (hds.mem_iff.mp hd))
  · intro d hd
    exact p.named d (hds.mem_iff.mp hd)
  · exact hds.mem_iff.mpr he
  · exact hname
  · intro d hd hother
    exact p.eq_of_hasName (hds.mem_iff.mp hd) he hother hname

end FlatBus

/-- The answer of a callback that looks up all devices of the configuration, as
`k_clk_get_clk_from_config` does. -/
def lookupAnswer (board : Board D B R) (conf : D → List CStr) (d : D) (l : Links D B R)
    (f : Flags D B R) : Int :=
  if (conf d).all fun name =>
    (kBusFindDevice board l (fun e => (f.dev e).probed) (some board.busRoot)
      (some name)).map Prod.fst == some 0
  then 0 else -eagain

/-- Devices that name only each other, and without cycles, with a driver for each of
them whose callback looks up the named devices. -/
structure FlatBoard (D B R : Type) [Fintype D] [Fintype B] [Fintype R] [DecidableEq D]
    [DecidableEq B] [DecidableEq R] extends FlatBus D B R where
  ops : Ops D B R
  conf : D → List CStr
  drvOf : D → R
  drvOf_mem : ∀ d ∈ devs, drvOf d ∈ drvs
  drvOf_type : ∀ d ∈ devs, board.drvType (drvOf d) = some (board.devType d)
  answer : ∀ d ∈ devs, ∃ add, ops.devAdd (drvOf d) = some add ∧ add d = lookupAnswer board conf d
  rootBus_type : board.drvType drvRootBus = some (board.busType board.busRoot)
  rootDev_type : board.drvType drvRootDev = some (board.devType board.devRoot)
  rootBus_add : ops.busAdd drvRootBus = none
  rootDev_add : ops.devAdd drvRootDev = none
  closed : ∀ d ∈ devs, ∀ name ∈ conf d, ∃ e ∈ devs, HasName board name e
  acyclic : ∀ d, ¬ Relation.TransGen (Names board conf devs) d d

/-- The record of an object before it is attached. -/
def NodeFlags.fresh : NodeFlags R := ⟨none, false, false⟩

/-- The record of an attached object that is not probed. -/
def NodeFlags.waiting (r : R) : NodeFlags R := ⟨some r, false, false⟩

/-- The record of a probed object. -/
def NodeFlags.done (r : R) : NodeFlags R := ⟨some r, true, false⟩

omit [Fintype R] [DecidableEq R] in
theorem NodeFlags.attach_waiting {n : NodeFlags R} {r : R} (h : n = .fresh ∨ n = .waiting r) :
    n.attach (some r) = .waiting r := by
  rcases h with rfl | rfl
  · rfl
  · rfl

namespace FlatBoard

variable (p : FlatBoard D B R)

/-- The links of the board after registration in some order. -/
structure Linked (l : Links D B R) (ds : List D) (rs : List R) : Prop where
  links : FlatLinks p.board l ds [p.board.busRoot] rs
  devs : ds.Perm p.devs
  drvs : rs.Perm (p.drvRootBus :: p.drvRootDev :: p.drvs)

/-- The state when exactly the given devices of the list are probed. -/
structure At (m : Finset D) (s : ProbeState D B R) : Prop where
  root : s.flags.dev p.board.devRoot = .fresh ∨ s.flags.dev p.board.devRoot = .done p.drvRootDev
  bus : s.flags.bus p.board.busRoot = .fresh ∨ s.flags.bus p.board.busRoot = .done p.drvRootBus
  marked : ∀ d ∈ p.devs, d ∈ m → s.flags.dev d = .done (p.drvOf d)
  unmarked : ∀ d ∈ p.devs, d ∉ m →
    s.flags.dev d = .fresh ∨ s.flags.dev d = .waiting (p.drvOf d)
  other_dev : ∀ d, d ∉ p.devs → d ≠ p.board.devRoot → s.flags.dev d = .fresh
  other_bus : ∀ b, b ≠ p.board.busRoot → s.flags.bus b = .fresh
  log : ∀ d ∈ p.devs, s.log.count (d, 0) = if d ∈ m then 1 else 0

/-- The root device and the root bus are probed. -/
def Started (s : ProbeState D B R) : Prop :=
  s.flags.dev p.board.devRoot = .done p.drvRootDev ∧
    s.flags.bus p.board.busRoot = .done p.drvRootBus

/-- The records when everything is probed. -/
def finalFlags : Flags D B R where
  dev := fun d =>
    if d = p.board.devRoot then .done p.drvRootDev
    else if d ∈ p.devs then .done (p.drvOf d)
    else .fresh
  bus := fun b => if b = p.board.busRoot then .done p.drvRootBus else .fresh

theorem linked_of_registers {initcalls : List (Initcall D B R)} (h : p.Registers initcalls) :
    ∃ ds rs, p.Linked (bootLinks p.board initcalls) ds rs := by
  obtain ⟨ds, rs, hlinks, hdevs, hdrvs⟩ := p.links_of_registers h
  exact ⟨ds, rs, hlinks, hdevs, hdrvs⟩

section Starts

variable {p} {l : Links D B R} {ds : List D} {rs : List R} {m : Finset D}
  {s s' : ProbeState D B R}

theorem Linked.match_dev (h : p.Linked l ds rs) {d : D} (hd : d ∈ p.devs) :
    matchDriver p.board l (p.board.devType d) = some (p.drvOf d) := by
  apply h.links.matchDriver_eq _ (p.drvOf_type d hd)
  have hmem := p.drvOf_mem d hd
  exact h.drvs.mem_iff.mpr (List.mem_cons_of_mem _ (List.mem_cons_of_mem _ hmem))

theorem Linked.match_rootDev (h : p.Linked l ds rs) :
    matchDriver p.board l (p.board.devType p.board.devRoot) = some p.drvRootDev :=
  h.links.matchDriver_eq (h.drvs.mem_iff.mpr (by simp)) p.rootDev_type

theorem Linked.match_rootBus (h : p.Linked l ds rs) :
    matchDriver p.board l (p.board.busType p.board.busRoot) = some p.drvRootBus :=
  h.links.matchDriver_eq (h.drvs.mem_iff.mpr (by simp)) p.rootBus_type

theorem Linked.find_eq (h : p.Linked l ds rs) (probed : D → Bool) {name : CStr} {e : D}
    (he : e ∈ p.devs) (hname : HasName p.board name e) :
    kBusFindDevice p.board l probed (some p.board.busRoot) (some name) =
      some (if probed e then (0, some e) else (-eagain, none)) :=
  p.find_eq h.links h.devs probed he hname

/-- The callback of a device answers zero when all devices that it names are probed,
and asks for another round otherwise. -/
theorem Linked.lookupAnswer_eq (h : p.Linked l ds rs) {d : D} (hd : d ∈ p.devs)
    (f : Flags D B R) :
    ((∀ e, Names p.board p.conf p.devs d e → (f.dev e).probed = true) →
        lookupAnswer p.board p.conf d l f = 0) ∧
      ((¬ ∀ e, Names p.board p.conf p.devs d e → (f.dev e).probed = true) →
        lookupAnswer p.board p.conf d l f = -eagain) := by
  constructor
  · intro hall
    apply if_pos
    rw [List.all_eq_true]
    intro name hname
    obtain ⟨e, he, hhas⟩ := p.closed d hd name hname
    rw [h.find_eq _ he hhas, if_pos (hall e ⟨hd, he, name, hname, hhas⟩)]
    rfl
  · intro hsome
    apply if_neg
    rw [List.all_eq_true]
    refine fun hall => hsome ?_
    rintro e ⟨-, he, name, hname, hhas⟩
    have hfound := hall name hname
    rw [h.find_eq _ he hhas] at hfound
    by_contra hprobed
    rw [if_neg hprobed] at hfound
    have hagain : -eagain = 0 := Option.some.inj (beq_iff_eq.mp hfound)
    exact absurd hagain (by decide)

theorem At.probed_iff (h : p.At m s) {d : D} (hd : d ∈ p.devs) :
    (s.flags.dev d).probed = true ↔ d ∈ m := by
  by_cases hm : d ∈ m
  · simp [h.marked d hd hm, hm, NodeFlags.done]
  · rcases h.unmarked d hd hm with heq | heq
    · simp [heq, hm, NodeFlags.fresh]
    · simp [heq, hm, NodeFlags.waiting]

/-- A change of one device of the list. -/
theorem At.update (h : p.At m s) {m' : Finset D} {d : D} (hd : d ∈ p.devs)
    (hdev : ∀ e, e ≠ d → s'.flags.dev e = s.flags.dev e) (hbus : s'.flags.bus = s.flags.bus)
    (hm : ∀ e, e ≠ d → (e ∈ m' ↔ e ∈ m))
    (hmarked : d ∈ m' → s'.flags.dev d = .done (p.drvOf d))
    (hunmarked : d ∉ m' → s'.flags.dev d = .fresh ∨ s'.flags.dev d = .waiting (p.drvOf d))
    (hlog : s'.log.count (d, 0) = if d ∈ m' then 1 else 0)
    (hlogs : ∀ e, e ≠ d → s'.log.count (e, 0) = s.log.count (e, 0)) : p.At m' s' where
  root := by
    rw [hdev _ (p.ne_root hd).symm]
    exact h.root
  bus := by
    rw [hbus]
    exact h.bus
  marked := by
    intro e he hem
    by_cases hed : e = d
    · rw [hed] at hem ⊢
      exact hmarked hem
    · rw [hdev e hed]
      exact h.marked e he ((hm e hed).mp hem)
  unmarked := by
    intro e he hem
    by_cases hed : e = d
    · rw [hed] at hem ⊢
      exact hunmarked hem
    · rw [hdev e hed]
      exact h.unmarked e he fun hmem => hem ((hm e hed).mpr hmem)
  other_dev := by
    intro e he hroot
    have hed : e ≠ d := by
      rintro rfl
      exact he hd
    rw [hdev e hed]
    exact h.other_dev e he hroot
  other_bus := by
    intro b hb
    rw [hbus]
    exact h.other_bus b hb
  log := by
    intro e he
    by_cases hed : e = d
    · rw [hed]
      exact hlog
    · rw [hlogs e hed, h.log e he]
      exact if_congr (hm e hed).symm rfl rfl

theorem At.attach (h : p.At m s) {d : D} (hd : d ∈ p.devs) (hm : d ∉ m) :
    p.At m ⟨s.flags.setDev d (.waiting (p.drvOf d)), s.log⟩ := by
  refine h.update hd (fun e he => Flags.setDev_dev_of_ne _ _ _ he) rfl (fun _ _ => Iff.rfl)
    (fun hmem => absurd hmem hm) (fun _ => Or.inr (Flags.setDev_dev ..)) (h.log d hd)
    (fun _ _ => rfl)

/-- What the start of a device that is not probed does. -/
theorem deviceStart_waiting (hl : p.Linked l ds rs) {d : D} (hd : d ∈ p.devs)
    (hdev : s.flags.dev d = .fresh ∨ s.flags.dev d = .waiting (p.drvOf d)) :
    let a := lookupAnswer p.board p.conf d l (s.flags.setDev d (.waiting (p.drvOf d)))
    deviceStart p.board l p.ops d s =
      (⟨(s.flags.setDev d (.waiting (p.drvOf d))).setDev d
          ((NodeFlags.waiting (p.drvOf d)).probe (some a)).1, (d, a) :: s.log⟩,
        ((NodeFlags.waiting (p.drvOf d)).probe (some a)).2) := by
  obtain ⟨add, hadd, heq⟩ := p.answer d hd
  simp only [deviceStart, hl.match_dev hd, NodeFlags.attach_waiting hdev]
  simp [NodeFlags.waiting, hadd, heq]

/-- The start of a device of the list marks it if everything that it names is
marked. -/
theorem At.deviceStart (h : p.At m s) (hl : p.Linked l ds rs) {d : D} (hd : d ∈ p.devs) :
    p.At (mark (Names p.board p.conf p.devs) m d)
        (BaremetalCrt.deviceStart p.board l p.ops d s).1 ∧
      (BaremetalCrt.deviceStart p.board l p.ops d s).2 =
        if d ∈ mark (Names p.board p.conf p.devs) m d then 0 else -eagain := by
  by_cases hm : d ∈ m
  · have hdone : DevDone s.flags d := by
      rw [DevDone, h.marked d hd hm]
      exact ⟨Option.some_ne_none _, rfl⟩
    rw [deviceStart_of_done p.board l p.ops hdone, mark_of_mem hm]
    exact ⟨h, (if_pos hm).symm⟩
  · have hwait := h.attach hd hm
    have hstart := deviceStart_waiting hl hd (h.unmarked d hd hm)
    -- the callback sees the devices that are marked
    have hsees : (∀ e, Names p.board p.conf p.devs d e →
        ((s.flags.setDev d (.waiting (p.drvOf d))).dev e).probed = true) ↔
        ∀ e, Names p.board p.conf p.devs d e → e ∈ m :=
      forall_congr' fun e => forall_congr' fun hne => hwait.probed_iff hne.2.1
    obtain ⟨hzero, hagain⟩ := hl.lookupAnswer_eq hd (s.flags.setDev d (.waiting (p.drvOf d)))
    by_cases hready : ∀ e, Names p.board p.conf p.devs d e → e ∈ m
    · rw [hzero (hsees.mpr hready)] at hstart
      rw [hstart, mark_of_ready hready, if_pos (Finset.mem_insert_self d m)]
      refine ⟨hwait.update hd (fun e he => Flags.setDev_dev_of_ne _ _ _ he) rfl ?_ ?_ ?_ ?_ ?_, rfl⟩
      · intro e he
        rw [Finset.mem_insert, or_iff_right he]
      · intro _
        exact Flags.setDev_dev ..
      · intro hnot
        exact absurd (Finset.mem_insert_self d m) hnot
      · rw [List.count_cons_self, h.log d hd, if_neg hm, if_pos (Finset.mem_insert_self d m)]
      · intro e he
        exact List.count_cons_of_ne fun heq => he (Prod.mk.inj heq).1.symm
    · rw [hagain (mt hsees.mp hready)] at hstart
      rw [hstart, mark_of_not_ready hready, if_neg hm]
      refine ⟨hwait.update hd (fun e he => Flags.setDev_dev_of_ne _ _ _ he) rfl
        (fun _ _ => Iff.rfl) (fun hmem => absurd hmem hm) ?_ ?_ ?_, rfl⟩
      · intro _
        exact Or.inr (Flags.setDev_dev ..)
      · have hne : ((d, -eagain) : D × Int) ≠ (d, 0) :=
          fun heq => absurd (Prod.mk.inj heq).2 (by decide)
        rw [List.count_cons_of_ne hne, h.log d hd]
      · intro e he
        exact List.count_cons_of_ne fun heq => he (Prod.mk.inj heq).1.symm

/-- A change of the root device and the root bus only. -/
theorem At.frame (h : p.At m s) (hdev : ∀ e, e ≠ p.board.devRoot → s'.flags.dev e = s.flags.dev e)
    (hbus : ∀ b, b ≠ p.board.busRoot → s'.flags.bus b = s.flags.bus b)
    (hroot : s'.flags.dev p.board.devRoot = .fresh ∨
      s'.flags.dev p.board.devRoot = .done p.drvRootDev)
    (hrootBus : s'.flags.bus p.board.busRoot = .fresh ∨
      s'.flags.bus p.board.busRoot = .done p.drvRootBus)
    (hlog : s'.log = s.log) : p.At m s' where
  root := hroot
  bus := hrootBus
  marked := fun d hd hm => (hdev d (p.ne_root hd)).trans (h.marked d hd hm)
  unmarked := by
    intro d hd hm
    rw [hdev d (p.ne_root hd)]
    exact h.unmarked d hd hm
  other_dev := fun d hd hne => (hdev d hne).trans (h.other_dev d hd hne)
  other_bus := fun b hb => (hbus b hb).trans (h.other_bus b hb)
  log := by
    rw [hlog]
    exact h.log

theorem At.start_rootDev (h : p.At m s) (hl : p.Linked l ds rs) :
    ∃ s', BaremetalCrt.deviceStart p.board l p.ops p.board.devRoot s = (s', 0) ∧ p.At m s' ∧
      s'.flags.dev p.board.devRoot = .done p.drvRootDev := by
  rcases h.root with hfresh | hdone
  · refine ⟨⟨(s.flags.setDev p.board.devRoot (.waiting p.drvRootDev)).setDev p.board.devRoot
      (.done p.drvRootDev), s.log⟩, ?_, ?_, Flags.setDev_dev ..⟩
    · simp only [BaremetalCrt.deviceStart, hl.match_rootDev,
        NodeFlags.attach_waiting (Or.inl hfresh)]
      simp [NodeFlags.waiting, NodeFlags.done, NodeFlags.probe, p.rootDev_add]
    · refine h.frame (fun e he => ?_) (fun _ _ => rfl) (Or.inr (Flags.setDev_dev ..)) h.bus rfl
      simp only [Flags.setDev_dev_of_ne _ _ _ he]
  · refine ⟨s, deviceStart_of_done p.board l p.ops ?_, h, hdone⟩
    rw [DevDone, hdone]
    exact ⟨Option.some_ne_none _, rfl⟩

theorem At.start_bus (h : p.At m s) (hl : p.Linked l ds rs) :
    ∃ s', busStart p.board l p.ops p.board.busRoot s = (s', 0) ∧ p.At m s' ∧
      s'.flags.dev = s.flags.dev ∧ s'.flags.bus p.board.busRoot = .done p.drvRootBus := by
  rcases h.bus with hfresh | hdone
  · refine ⟨⟨(s.flags.setBus p.board.busRoot (.waiting p.drvRootBus)).setBus p.board.busRoot
      (.done p.drvRootBus), s.log⟩, ?_, ?_, rfl, Flags.setBus_bus ..⟩
    · simp only [busStart, hl.match_rootBus, NodeFlags.attach_waiting (Or.inl hfresh)]
      simp [NodeFlags.waiting, NodeFlags.done, NodeFlags.probe, p.rootBus_add]
    · refine h.frame (fun _ _ => rfl) (fun b hb => ?_) h.root (Or.inr (Flags.setBus_bus ..)) rfl
      simp only [Flags.setBus_bus_of_ne _ _ _ hb]
  · refine ⟨s, busStart_of_done p.ops (Or.inl ?_), h, rfl, hdone⟩
    rw [hdone]
    exact ⟨Option.some_ne_none _, rfl⟩

theorem At.start_rootBus (h : p.At m s) (hl : p.Linked l ds rs)
    (hroot : s.flags.dev p.board.devRoot = .done p.drvRootDev) :
    ∃ s', busStart p.board l p.ops p.board.busRoot s = (s', 0) ∧ p.At m s' ∧ p.Started s' := by
  obtain ⟨s', hstart, hat, hdev, hbus⟩ := h.start_bus hl
  exact ⟨s', hstart, hat, (congrFun hdev _).trans hroot, hbus⟩

end Starts

section Passes

variable {p} {l : Links D B R} {ds : List D} {rs : List R} {m : Finset D}
  {s s' : ProbeState D B R}

/-- The loop over the devices of the bus is a sweep. -/
theorem At.probeLoop (h : p.At m s) (hl : p.Linked l ds rs) (hstart : p.Started s) (n : Nat)
    {todo : List D} (htodo : ∀ d ∈ todo, d ∈ p.devs) (hnodup : todo.Nodup) (r : Int) :
    ∃ s', BaremetalCrt.probeLoop (deviceProbe p.board l p.ops (n + 1)) todo s r =
        some (s', if ∀ d ∈ todo, d ∈ sweep (Names p.board p.conf p.devs) todo m then r
          else -eagain) ∧
      p.At (sweep (Names p.board p.conf p.devs) todo m) s' ∧ p.Started s' := by
  induction todo generalizing m s r with
  | nil => exact ⟨s, by simp [BaremetalCrt.probeLoop], h, hstart⟩
  | cons d todo ih =>
      have hd := htodo d List.mem_cons_self
      obtain ⟨hnot, hnodup⟩ := List.nodup_cons.mp hnodup
      obtain ⟨hat, hres⟩ := h.deviceStart hl hd
      have hstart' : p.Started (BaremetalCrt.deviceStart p.board l p.ops d s).1 := by
        refine ⟨?_, ?_⟩
        · rw [deviceStart_dev_ne p.board l p.ops (p.ne_root hd).symm]
          exact hstart.1
        · rw [deviceStart_bus]
          exact hstart.2
      have herr : isError (BaremetalCrt.deviceStart p.board l p.ops d s).2 = false := by
        rw [hres]
        split
        · rfl
        · rfl
      obtain ⟨s', hloop, hat', hend⟩ := ih hat hstart'
        (fun e he => htodo e (List.mem_cons_of_mem d he)) hnodup
        (if (BaremetalCrt.deviceStart p.board l p.ops d s).2 = -eagain then -eagain else r)
      refine ⟨s', ?_, hat', hend⟩
      simp only [BaremetalCrt.probeLoop,
        deviceProbe_leaf (hl.links.busChild_of_ne (p.ne_root hd)) p.ops, Option.bind_some, herr,
        Bool.false_eq_true, if_false]
      rw [hloop]
      -- the device is not visited again, so it stays as its start has left it
      have hrest : sweep (Names p.board p.conf p.devs) (d :: todo) m =
          sweep (Names p.board p.conf p.devs) todo (mark (Names p.board p.conf p.devs) m d) := rfl
      have hkeep : d ∈ sweep (Names p.board p.conf p.devs) todo
          (mark (Names p.board p.conf p.devs) m d) ↔
          d ∈ mark (Names p.board p.conf p.devs) m d := mem_sweep_of_notMem hnot
      simp only [List.forall_mem_cons, hrest, hkeep, hres]
      by_cases hmark : d ∈ mark (Names p.board p.conf p.devs) m d
      · simp only [hmark, if_true, true_and]
        rfl
      · simp only [hmark, if_false, if_true, false_and, ite_self]

/-- A pass is a sweep over the devices; it returns zero when all are probed. -/
theorem At.probePass (h : p.At m s) (hl : p.Linked l ds rs) :
    ∃ s', BaremetalCrt.probePass p.board l p.ops s =
        some (s', if ∀ d ∈ ds, d ∈ sweep (Names p.board p.conf p.devs) ds m then 0
          else -eagain) ∧
      p.At (sweep (Names p.board p.conf p.devs) ds m) s' ∧ p.Started s' := by
  have hcard : 1 < Fintype.card (D ⊕ B) :=
    Fintype.one_lt_card_iff.mpr ⟨.inl p.board.devRoot, .inr p.board.busRoot, Sum.inl_ne_inr⟩
  obtain ⟨n, hn⟩ := Nat.exists_eq_add_of_le' hcard
  obtain ⟨s₁, hdev, hat₁, hroot⟩ := h.start_rootDev hl
  obtain ⟨s₂, hbus, hat₂, hstart⟩ := hat₁.start_rootBus hl hroot
  obtain ⟨s', hloop, hat', hend⟩ := hat₂.probeLoop hl hstart n
    (fun d hd => hl.devs.mem_iff.mp hd) (hl.devs.nodup_iff.mpr p.devs_nodup) 0
  refine ⟨s', ?_, hat', hend⟩
  have hprobed : (s₁.flags.dev p.board.devRoot).probed = true := by
    rw [hroot]
    rfl
  have hchild : l.busChild p.board.devRoot = some p.board.busRoot := hl.links.busChild_root
  simp only [BaremetalCrt.probePass, kDeviceProbeAll, if_true, hn]
  rw [deviceProbe]
  simp only [hdev, hprobed, hchild, busProbe, hbus, hl.links.children_root]
  exact hloop

theorem At.flags_eq (h : p.At m s) (hstart : p.Started s) (hall : ∀ d ∈ p.devs, d ∈ m) :
    s.flags = p.finalFlags := by
  apply Flags.ext
  · funext d
    simp only [finalFlags]
    split
    · rename_i hroot
      rw [hroot]
      exact hstart.1
    · rename_i hroot
      split
      · rename_i hd
        exact h.marked d hd (hall d hd)
      · rename_i hd
        exact h.other_dev d hd hroot
  · funext b
    simp only [finalFlags]
    split
    · rename_i hroot
      rw [hroot]
      exact hstart.2
    · rename_i hroot
      exact h.other_bus b hroot

/-- However many passes it takes, a loop that ends has probed everything. -/
theorem At.initLoop_end (h : p.At m s) (hl : p.Linked l ds rs) {n k : Nat} {res r : Int}
    (hloop : initLoop p.board l (fun _ => p.ops) n k s res = some (s', r)) :
    s'.flags = p.finalFlags ∧ ∀ d ∈ p.devs, s'.log.count (d, 0) = 1 := by
  induction n generalizing m s k with
  | zero => exact absurd hloop (by simp [initLoop])
  | succ n ih =>
      obtain ⟨s₁, hpass, hat, hstart⟩ := h.probePass hl
      simp only [initLoop, hpass, Option.bind_some] at hloop
      split at hloop
      · rename_i hall
        obtain ⟨rfl, -⟩ := Prod.mk.inj (Option.some.inj hloop)
        have hmarked : ∀ d ∈ p.devs, d ∈ sweep (Names p.board p.conf p.devs) ds m :=
          fun d hd => hall d (hl.devs.mem_iff.mpr hd)
        refine ⟨hat.flags_eq hstart hmarked, fun d hd => ?_⟩
        rw [hat.log d hd, if_pos (hmarked d hd)]
      · exact ih hat hloop

/-- The loop reports what the initialisation functions have left. -/
theorem At.initLoop_result (h : p.At m s) (hl : p.Linked l ds rs) {n k : Nat} {res r : Int}
    (hloop : initLoop p.board l (fun _ => p.ops) n k s res = some (s', r)) : r = res := by
  induction n generalizing m s k with
  | zero => exact absurd hloop (by simp [initLoop])
  | succ n ih =>
      obtain ⟨s₁, hpass, hat, -⟩ := h.probePass hl
      simp only [initLoop, hpass, Option.bind_some] at hloop
      split at hloop
      · exact (Prod.mk.inj (Option.some.inj hloop)).2.symm
      · exact ih hat hloop

/-- As many passes as there are unprobed devices are enough, but there is always
one. -/
theorem At.initLoop_isSome (h : p.At m s) (hl : p.Linked l ds rs) {n k : Nat} {res : Int}
    (hone : 1 ≤ n) (hn : pending ds m ≤ n) :
    (initLoop p.board l (fun _ => p.ops) n k s res).isSome := by
  induction n generalizing m s k with
  | zero => omega
  | succ n ih =>
      obtain ⟨s₁, hpass, hat, -⟩ := h.probePass hl
      simp only [initLoop, hpass, Option.bind_some]
      split
      · rfl
      · rename_i hsome
        simp only [not_forall] at hsome
        obtain ⟨d, hd, hnot⟩ := hsome
        have hclosed : ∀ a ∈ ds, ∀ b, Names p.board p.conf p.devs a b → b ∈ ds :=
          fun a _ b hb => hl.devs.mem_iff.mpr hb.2.1
        have hlt := pending_sweep_lt p.acyclic hclosed hd fun hmem => hnot (subset_sweep hmem)
        have hpos := pending_pos hd hnot
        exact ih hat (by omega) (by omega)

theorem at_initial : p.At ∅ (ProbeState.initial : ProbeState D B R) where
  root := Or.inl rfl
  bus := Or.inl rfl
  marked := fun _ _ hm => absurd hm (Finset.notMem_empty _)
  unmarked := fun _ _ _ => Or.inl rfl
  other_dev := fun _ _ _ => rfl
  other_bus := fun _ _ => rfl
  log := fun _ _ => rfl

end Passes

end FlatBoard

/-- In whatever order an acyclic board is registered, the loop ends after at most as
many passes as there are devices, or one; every device is then probed, its callback
has succeeded once, and the records are the same for every other order. -/
theorem init_drivers_any_order (p : FlatBoard D B R) (initcalls : List (Initcall D B R))
    (h : p.Registers initcalls) :
    ∃ sys res, initDrivers p.board (fun _ => p.ops) (max 1 p.devs.length) initcalls =
        some (sys, res) ∧
      (∀ d ∈ p.devs, (sys.probe.flags.dev d).probed = true) ∧
      (∀ d ∈ p.devs, sys.probe.log.count (d, 0) = 1) ∧
      ∀ initcalls', p.Registers initcalls' → ∀ n sys' res',
        initDrivers p.board (fun _ => p.ops) n initcalls' = some (sys', res') →
          sys'.probe.flags = sys.probe.flags := by
  have hend : ∀ initcalls, p.Registers initcalls → ∀ n sys res,
      initDrivers p.board (fun _ => p.ops) n initcalls = some (sys, res) →
        sys.probe.flags = p.finalFlags ∧ ∀ d ∈ p.devs, sys.probe.log.count (d, 0) = 1 := by
    intro initcalls h n sys res hrun
    obtain ⟨ds, rs, hl⟩ := p.linked_of_registers h
    obtain ⟨res₀, heq⟩ := initDrivers_eq p.board (fun _ => p.ops) initcalls
    rw [heq] at hrun
    obtain ⟨⟨s, r⟩, hloop, hsys⟩ := Option.map_eq_some_iff.mp hrun
    obtain ⟨rfl, -⟩ := Prod.mk.inj hsys
    exact FlatBoard.at_initial.initLoop_end hl hloop
  obtain ⟨ds, rs, hl⟩ := p.linked_of_registers h
  obtain ⟨res₀, heq⟩ := initDrivers_eq p.board (fun _ => p.ops) initcalls
  have hle : pending ds ∅ ≤ max 1 p.devs.length :=
    calc
      pending ds ∅ ≤ ds.length := pending_le_length ds ∅
      _ = p.devs.length := hl.devs.length_eq
      _ ≤ max 1 p.devs.length := Nat.le_max_right _ _
  have hsome : (initDrivers p.board (fun _ => p.ops) (max 1 p.devs.length) initcalls).isSome := by
    rw [heq, Option.isSome_map]
    exact FlatBoard.at_initial.initLoop_isSome hl (Nat.le_max_left _ _) hle
  obtain ⟨⟨sys, res⟩, hrun⟩ := Option.isSome_iff_exists.mp hsome
  obtain ⟨hflags, hlog⟩ := hend initcalls h _ sys res hrun
  refine ⟨sys, res, hrun, ?_, hlog, ?_⟩
  · intro d hd
    rw [hflags]
    simp only [FlatBoard.finalFlags, if_neg (p.ne_root hd), if_pos hd]
    rfl
  · intro initcalls' h' n sys' res' hrun'
    rw [hflags]
    exact (hend initcalls' h' n sys' res' hrun').1

/-- The names of a small board. -/
def pairName : Fin 3 → CStr
  | 0 => CStr.ofChars "root".toList
  | 1 => CStr.ofChars "uart".toList
  | 2 => CStr.ofChars "clk".toList

/-- The types of its drivers: the head, those of the root device and the root bus, and
one for the devices. -/
def pairType : Fin 4 → TypePair
  | 0 => ⟨CStr.ofChars "none".toList, CStr.ofChars "none".toList⟩
  | 1 => ⟨CStr.ofChars "none".toList, CStr.ofChars "bus_root".toList⟩
  | 2 => ⟨CStr.ofChars "none".toList, CStr.ofChars "dev_root".toList⟩
  | 3 => ⟨CStr.ofChars "none".toList, CStr.ofChars "any".toList⟩

/-- A board with the devices `uart` and `clk`. -/
def pairBoard : Board (Fin 3) (Fin 1) (Fin 4) where
  devRoot := 0
  busRoot := 0
  head := 0
  devName := fun d => some (pairName d)
  devType := fun d => if d = 0 then pairType 2 else pairType 3
  busName := fun _ => some (CStr.ofChars "root bus".toList)
  busType := fun _ => pairType 1
  drvType := fun r => some (pairType r)
  busRoot_named := rootBus_named

/-- `uart` names `clk`. -/
def pairConf : Fin 3 → List CStr
  | 1 => [CStr.ofChars "clk".toList]
  | _ => []

theorem pairConf_names {name : CStr} {d e : Fin 3} (hd : name ∈ pairConf d)
    (he : HasName pairBoard name e) : d = 1 ∧ e = 2 := by
  have hclk : ∀ e : Fin 3, kStrcasecmp (CStr.ofChars "clk".toList) (pairName e) = 0 → e = 2 := by
    decide +kernel
  obtain ⟨devName, hdev, heq⟩ := he
  obtain rfl := Option.some.inj hdev
  match d with
  | 0 => exact absurd hd List.not_mem_nil
  | 1 =>
      obtain rfl := List.mem_singleton.mp hd
      exact ⟨rfl, hclk e heq⟩
  | 2 => exact absurd hd List.not_mem_nil

theorem pairName_ne : ∀ d e : Fin 3, d ≠ e → kStrcasecmp (pairName d) (pairName e) ≠ 0 := by
  decide +kernel

/-- That board with some of its devices. -/
def pairFlat (devs : List (Fin 3)) (hroot : 0 ∉ devs) (hnodup : devs.Nodup)
    (hclk : 1 ∈ devs → 2 ∈ devs) : FlatBoard (Fin 3) (Fin 1) (Fin 4) where
  board := pairBoard
  ops := ⟨fun r => if r = 3 then some (lookupAnswer pairBoard pairConf) else none, fun _ => none⟩
  conf := pairConf
  devs := devs
  drvs := [3]
  drvOf := fun _ => 3
  drvRootBus := 1
  drvRootDev := 2
  root_notMem := hroot
  named := fun _ _ => Option.some_ne_none _
  names := pairwise_namesDiffer (fun _ => rfl) pairName_ne hnodup
  types := ⟨by decide +kernel, fun _ _ => Option.some_ne_none _⟩
  drvOf_mem := fun _ _ => List.mem_singleton_self 3
  drvOf_type := by
    intro d hd
    have hne : d ≠ 0 := by
      rintro rfl
      exact hroot hd
    change some (pairType 3) = some (if d = 0 then pairType 2 else pairType 3)
    rw [if_neg hne]
  answer := fun _ _ => ⟨lookupAnswer pairBoard pairConf, rfl, rfl⟩
  rootBus_type := rfl
  rootDev_type := rfl
  rootBus_add := rfl
  rootDev_add := rfl
  closed := by
    intro d hd name hname
    have hhas : HasName pairBoard (CStr.ofChars "clk".toList) 2 := ⟨_, rfl, by decide +kernel⟩
    match d with
    | 0 => exact absurd hname List.not_mem_nil
    | 1 =>
        obtain rfl := List.mem_singleton.mp hname
        exact ⟨2, hclk hd, hhas⟩
    | 2 => exact absurd hname List.not_mem_nil
  acyclic := by
    have hlt : ∀ d e, Relation.TransGen (Names pairBoard pairConf devs) d e → d = 1 ∧ e = 2 := by
      intro d e h
      induction h with
      | single h =>
          obtain ⟨-, -, name, hname, hhas⟩ := h
          exact pairConf_names hname hhas
      | tail _ h ih =>
          obtain ⟨-, -, name, hname, hhas⟩ := h
          exact ⟨ih.1, (pairConf_names hname hhas).2⟩
    intro d h
    obtain ⟨rfl, h⟩ := hlt d d h
    exact absurd h (by decide)

/-- Both devices of that board. -/
def pairBoth : FlatBoard (Fin 3) (Fin 1) (Fin 4) :=
  pairFlat [1, 2] (by decide) (by decide) (by decide)

/-- A registration with `uart` before `clk`, and both before the driver and the root
bus. -/
def pairInitcalls : List (Initcall (Fin 3) (Fin 1) (Fin 4)) :=
  [⟨[.device (some 1) (some 0), .device (some 2) (some 0), .driver 3], 0⟩, busInit pairBoard 1 2]

theorem pairInitcalls_registers : pairBoth.Registers pairInitcalls := by
  unfold FlatBus.Registers
  decide +kernel

/-- With that registration both devices are probed after two passes. -/
theorem init_drivers_any_order_pair : ∃ sys res,
    initDrivers pairBoth.board (fun _ => pairBoth.ops) 2 pairInitcalls = some (sys, res) ∧
      ∀ d ∈ pairBoth.devs, (sys.probe.flags.dev d).probed = true := by
  obtain ⟨sys, res, hrun, hprobed, -⟩ :=
    init_drivers_any_order pairBoth pairInitcalls pairInitcalls_registers
  exact ⟨sys, res, hrun, hprobed⟩

/-- Without any device there is nevertheless one pass. -/
theorem init_drivers_pass_without_devices :
    let p := pairFlat [] (by decide) (by decide) (by decide)
    p.devs.length = 0 ∧ p.Registers [busInit pairBoard 1 2, ⟨[.driver 3], 0⟩] ∧
      initDrivers p.board (fun _ => p.ops) 0 [busInit pairBoard 1 2, ⟨[.driver 3], 0⟩] = none ∧
      (initDrivers p.board (fun _ => p.ops) 1
        [busInit pairBoard 1 2, ⟨[.driver 3], 0⟩]).isSome = true := by
  refine ⟨rfl, List.Perm.refl _, rfl, by decide +kernel⟩

end BaremetalCrt
