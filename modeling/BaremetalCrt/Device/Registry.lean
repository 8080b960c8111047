import BaremetalCrt.Device.Boot

/-!
# The lists of drivers and devices

Every sequence of calls that add drivers, devices and buses leaves one list of drivers with
different pairs of texts, and every device that was accepted once in the list of its bus. The
driver that fits a device or a bus is then the only one, and the order in which drivers were
added does not matter.

## Implementation notes

Calls are accepted or rejected by their linking parts, and probing leaves the links alone. Any
object may be added any number of times, the root device and the head of the drivers too.
-/

namespace BaremetalCrt

variable {D B R : Type} [Fintype D] [Fintype B] [Fintype R] [DecidableEq D] [DecidableEq B]
  [DecidableEq R]

/-- The calls of a sequence that return 0. -/
def acceptedCalls (board : Board D B R) :
    List (AddCall D B R) → Links D B R → List (AddCall D B R)
  | [], _ => []
  | c :: cs, l =>
      let out := c.link board l
      if out.2 = 0 then c :: acceptedCalls board cs out.1 else acceptedCalls board cs out.1

/-- The list of the drivers: behind the head are drivers with different pairs, and what is not in
the list is not linked. -/
structure DriverList (board : Board D B R) (l : Links D B R) (rs : List R) : Prop where
  chain : Chain l.drvNext (some board.head) (board.head :: rs)
  alone : ∀ r, r ∉ board.head :: rs → l.drvNext r = none
  typed : ∀ r ∈ rs, board.drvType r ≠ none
  distinct : ((board.head :: rs).map board.drvType).Nodup

section Outcomes

variable {board : Board D B R} {l : Links D B R}

/-- What a call can do to the links: nothing, or link an object in that was in no list. A driver
with a pair is rejected for a driver in the list that has it. -/
inductive LinkOutcome (board : Board D B R) (l : Links D B R) :
    AddCall D B R → Links D B R × Int → Prop
  | rejected (c : AddCall D B R) (r : Int) (hr : r ≠ 0)
      (hpair : ∀ d ty, c = .driver d → board.drvType d = some ty →
        ∃ d' ∈ drivers board l, board.drvType d' = some ty) : LinkOutcome board l c (l, r)
  | driver (r last : R) (ty : TypePair) (hty : board.drvType r = some ty)
      (hnew : ∀ r' ∈ drivers board l, board.drvType r' ≠ some ty)
      (hlast : (drivers board l).getLast? = some last) :
      LinkOutcome board l (.driver r)
        ({ l with drvNext := Function.update l.drvNext last (some r) }, 0)
  | device (d : D) (b : B) (hnew : l.busParent d = none) :
      LinkOutcome board l (.device (some d) (some b)) (l.setDevs (l.devs.attach b d), 0)
  | bus (b : B) (d : D) (hnew : l.devParent b = none) :
      LinkOutcome board l (.bus (some b) (some d)) (l.setBuses (l.buses.attach d b), 0)

omit [Fintype D] [Fintype B] [DecidableEq D] [DecidableEq B] [DecidableEq R] in
theorem drivers_ne_nil (board : Board D B R) (l : Links D B R) : drivers board l ≠ [] := by
  obtain ⟨n, hn⟩ := Nat.exists_eq_succ_of_ne_zero (Fintype.card_pos_iff.mpr ⟨board.head⟩).ne'
  rw [drivers, hn]
  exact List.cons_ne_nil _ _

theorem driverLink_outcome (board : Board D B R) (l : Links D B R) (r : R) :
    LinkOutcome board l (.driver r) (driverLink board l r) := by
  unfold driverLink
  cases hty : board.drvType r with
  | none =>
      refine .rejected _ _ (by decide) fun d ty hd hty' => ?_
      obtain rfl : r = d := by simpa using hd
      exact absurd (hty.symm.trans hty') (by simp)
  | some ty =>
      dsimp only
      split
      · rename_i hany
        obtain ⟨r', hr', hsame⟩ := List.any_eq_true.mp hany
        refine .rejected _ _ (by decide) fun d ty' hd hty' => ⟨r', hr', ?_⟩
        obtain rfl : r = d := by simpa using hd
        exact (typeMatches_iff.mp hsame).trans (hty.symm.trans hty')
      · rename_i hany
        cases hlast : (drivers board l).getLast? with
        | none => exact absurd (List.getLast?_eq_none_iff.mp hlast) (drivers_ne_nil board l)
        | some last =>
            refine .driver r last ty hty (fun r' hr' hsame => hany ?_) hlast
            exact List.any_eq_true.mpr ⟨r', hr', typeMatches_iff.mpr hsame⟩

theorem link_outcome (board : Board D B R) (l : Links D B R) (c : AddCall D B R) :
    LinkOutcome board l c (c.link board l) := by
  cases c with
  | driver r => exact driverLink_outcome board l r
  | device dev parent =>
      simp only [AddCall.link, deviceLink]
      split
      · split
        · exact .rejected _ _ (by decide) nofun
        · split
          · exact .rejected _ _ (by decide) nofun
          · rename_i hnew
            exact .device _ _ (not_not.mp hnew)
      · exact .rejected _ _ (by decide) nofun
  | bus bus parent =>
      simp only [AddCall.link, busLink]
      split
      · split
        · exact .rejected _ _ (by decide) nofun
        · split
          · exact .rejected _ _ (by decide) nofun
          · rename_i hnew
            exact .bus _ _ (not_not.mp hnew)
      · exact .rejected _ _ (by decide) nofun

end Outcomes

namespace DriverList

variable {board : Board D B R} {l : Links D B R} {rs : List R}

omit [Fintype D] [Fintype B] [Fintype R] [DecidableEq D] [DecidableEq B] [DecidableEq R] in
theorem empty (board : Board D B R) : DriverList board Links.empty [] where
  chain := ⟨rfl, rfl⟩
  alone := fun _ _ => rfl
  typed := by simp
  distinct := List.nodup_singleton _

omit [Fintype D] [Fintype B] [DecidableEq D] [DecidableEq B] [DecidableEq R] in
/-- The loops over the drivers visit the list. -/
theorem drivers_eq (h : DriverList board l rs) : drivers board l = board.head :: rs :=
  follow_eq h.chain h.chain.nodup.length_le_card

omit [Fintype D] [Fintype B] [DecidableEq D] [DecidableEq B] in
/-- A driver with a new pair is linked in at the end. -/
theorem append (h : DriverList board l rs) {r last : R} {ty : TypePair}
    (hty : board.drvType r = some ty) (hnew : ∀ r' ∈ drivers board l, board.drvType r' ≠ some ty)
    (hlast : (drivers board l).getLast? = some last) :
    DriverList board { l with drvNext := Function.update l.drvNext last (some r) }
      (rs ++ [r]) := by
  rw [h.drivers_eq] at hnew hlast
  have hr : r ∉ board.head :: rs := fun hmem => hnew r hmem hty
  refine ⟨h.chain.append hlast h.chain.nodup hr (h.alone r hr), ?_, ?_, ?_⟩
  · intro r' hr'
    rw [← List.cons_append, List.mem_append, not_or] at hr'
    have hne : r' ≠ last := fun heq => hr'.1 (heq ▸ List.mem_of_getLast? hlast)
    exact (Function.update_of_ne hne ..).trans (h.alone r' hr'.1)
  · rw [List.forall_mem_append, List.forall_mem_singleton]
    exact ⟨h.typed, by simp [hty]⟩
  · rw [← List.cons_append, List.map_append]
    refine h.distinct.append (List.nodup_singleton _) ?_
    rw [List.map_singleton, List.disjoint_singleton, hty]
    intro hmem
    obtain ⟨r', hr', hsame⟩ := List.mem_map.mp hmem
    exact hnew r' hr' hsame

omit [Fintype D] [Fintype B] [Fintype R] [DecidableEq D] [DecidableEq B] [DecidableEq R] in
/-- The list depends on the links of the drivers only. -/
theorem congr (h : DriverList board l rs) {l' : Links D B R} (hl : l'.drvNext = l.drvNext) :
    DriverList board l' rs where
  chain := hl ▸ h.chain
  alone := hl ▸ h.alone
  typed := h.typed
  distinct := h.distinct

omit [Fintype D] [Fintype B] [DecidableEq D] [DecidableEq B] in
/-- The driver that is chosen for a pair of texts is the one with this pair, unless it is the
pair of the head. -/
theorem matchDriver_eq_some_iff (h : DriverList board l rs) (ty : TypePair) (r : R) :
    matchDriver board l ty = some r ↔
      r ∈ rs ∧ board.drvType r = some ty ∧ board.drvType board.head ≠ some ty := by
  have hnotMem : board.head ∉ rs := (List.nodup_cons.mp h.chain.nodup).1
  rw [matchDriver, h.drivers_eq, Option.filter_eq_some_iff]
  by_cases hmatch : board.drvType board.head = some ty
  · rw [List.find?_cons_of_pos (typeMatches_iff.mpr hmatch)]
    constructor
    · rintro ⟨hfound, hne⟩
      obtain rfl := Option.some.inj hfound
      simp at hne
    · exact fun hr => absurd hmatch hr.2.2
  · rw [List.find?_cons_of_neg (mt typeMatches_iff.mp hmatch)]
    constructor
    · rintro ⟨hfound, -⟩
      exact ⟨List.mem_of_find?_eq_some hfound,
        typeMatches_iff.mp (List.find?_some hfound), hmatch⟩
    · rintro ⟨hr, hty, -⟩
      have hne : r ≠ board.head := fun heq => hnotMem (heq ▸ hr)
      refine ⟨?_, by simpa using hne⟩
      -- what the loop stops at has the same pair, and there is only one
      cases hfound : rs.find? (typeMatches board ty) with
      | none =>
          have hno := List.find?_eq_none.mp hfound r hr
          exact absurd (typeMatches_iff.mpr hty) hno
      | some r' =>
          have hty' := typeMatches_iff.mp (List.find?_some hfound)
          have hr' := List.mem_of_find?_eq_some hfound
          exact congrArg some (List.inj_on_of_nodup_map h.distinct (List.mem_cons_of_mem _ hr')
            (List.mem_cons_of_mem _ hr) (hty'.trans hty.symm))

end DriverList

section Runs

variable {board : Board D B R} {l : Links D B R} {rs : List R} {cs : List (AddCall D B R)}

/-- The drivers that calls add. -/
def addedDrivers (cs : List (AddCall D B R)) : List R :=
  cs.filterMap fun
    | .driver r => some r
    | _ => none

omit [Fintype D] [Fintype B] [Fintype R] [DecidableEq D] [DecidableEq B] [DecidableEq R] in
theorem mem_addedDrivers {r : R} : r ∈ addedDrivers cs ↔ .driver r ∈ cs := by
  rw [addedDrivers, List.mem_filterMap]
  constructor
  · rintro ⟨c, hc, heq⟩
    cases c with
    | driver r' => exact Option.some.inj heq ▸ hc
    | device dev parent => exact nomatch heq
    | bus bus parent => exact nomatch heq
  · intro hr
    exact ⟨_, hr, rfl⟩

/-- The lists of drivers and devices are sound. -/
structure Registry (board : Board D B R) (l : Links D B R) (rs : List R) : Prop where
  drivers : DriverList board l rs
  devs : l.devs.Consistent

omit [Fintype B] [Fintype R] [DecidableEq D] [DecidableEq B] [DecidableEq R] in
theorem Registry.empty (board : Board D B R) : Registry board Links.empty [] :=
  ⟨DriverList.empty board,
    (Family.Lists.empty (fun _ => rfl) (fun _ => rfl) (fun _ => rfl)).consistent⟩

/-- The drivers that one call adds to the list. -/
def linkedDrivers (board : Board D B R) (l : Links D B R) (c : AddCall D B R) : List R :=
  if (c.link board l).2 = 0 then addedDrivers [c] else []

/-- One call keeps the lists sound, and an accepted driver is the new last one. -/
theorem Registry.link (h : Registry board l rs) (c : AddCall D B R) :
    Registry board (c.link board l).1 (rs ++ linkedDrivers board l c) := by
  have hout := link_outcome board l c
  unfold linkedDrivers
  generalize c.link board l = out at hout
  cases hout with
  | rejected c r hr hpair =>
      rw [if_neg hr, List.append_nil]
      exact h
  | driver r last ty hty hnew hlast =>
      rw [if_pos rfl]
      exact ⟨h.drivers.append hty hnew hlast, h.devs⟩
  | device d b hnew =>
      rw [if_pos rfl, addedDrivers, List.filterMap_cons_none rfl, List.filterMap_nil,
        List.append_nil]
      exact ⟨h.drivers.congr rfl, (Family.Lists.attach h.devs hnew).consistent⟩
  | bus b d hnew =>
      rw [if_pos rfl, addedDrivers, List.filterMap_cons_none rfl, List.filterMap_nil,
        List.append_nil]
      exact ⟨h.drivers.congr rfl, h.devs⟩

/-- After a driver was added or rejected its pair is in the list. -/
theorem Registry.pair_listed (h : Registry board l rs) {r : R} {ty : TypePair}
    (hty : board.drvType r = some ty) :
    ∃ r' ∈ board.head :: (rs ++ linkedDrivers board l (.driver r)),
      board.drvType r' = some ty := by
  have hout := link_outcome board l (.driver r)
  unfold linkedDrivers
  generalize (AddCall.driver r : AddCall D B R).link board l = out at hout
  cases hout with
  | rejected c r' hr hpair =>
      obtain ⟨d, hd, hsame⟩ := hpair r ty rfl hty
      rw [h.drivers.drivers_eq] at hd
      rw [if_neg hr, List.append_nil]
      exact ⟨d, hd, hsame⟩
  | driver r last ty' hty' hnew hlast =>
      rw [if_pos rfl]
      exact ⟨r, List.mem_cons_of_mem _ (List.mem_append_right _ List.mem_cons_self), hty⟩

/-- The bus of a device is set by the call that adds the device, and by no other. -/
theorem link_busParent (board : Board D B R) (l : Links D B R) (c : AddCall D B R) (d : D)
    (b : B) :
    (c.link board l).1.busParent d = some b ↔
      l.busParent d = some b ∨ (c.link board l).2 = 0 ∧ c = .device (some d) (some b) := by
  have hout := link_outcome board l c
  generalize c.link board l = out at hout
  cases hout with
  | rejected c r hr hpair => simp [hr]
  | driver r last ty hty hnew hlast => simp
  | device e b' hnew =>
      change Function.update l.busParent e (some b') d = some b ↔ _
      by_cases hde : d = e
      · subst hde
        simp [hnew]
      · simp [Function.update_of_ne hde, Ne.symm hde]
  | bus b' e hnew => simp [Links.setBuses]

theorem acceptedCalls_cons (board : Board D B R) (c : AddCall D B R) (cs : List (AddCall D B R))
    (l : Links D B R) :
    acceptedCalls board (c :: cs) l =
      (if (c.link board l).2 = 0 then [c] else []) ++
        acceptedCalls board cs (c.link board l).1 := by
  simp only [acceptedCalls]
  split <;> rfl

theorem acceptedCalls_sublist (board : Board D B R) (cs : List (AddCall D B R))
    (l : Links D B R) : (acceptedCalls board cs l).Sublist cs := by
  induction cs generalizing l with
  | nil => exact List.Sublist.slnil
  | cons c cs ih =>
      simp only [acceptedCalls]
      split
      · exact (ih _).cons_cons c
      · exact (ih _).cons c

/-- The drivers in the list after a sequence of calls. -/
theorem addedDrivers_acceptedCalls_cons (board : Board D B R) (c : AddCall D B R)
    (cs : List (AddCall D B R)) (l : Links D B R) :
    addedDrivers (acceptedCalls board (c :: cs) l) =
      linkedDrivers board l c ++ addedDrivers (acceptedCalls board cs (c.link board l).1) := by
  rw [acceptedCalls_cons, addedDrivers, List.filterMap_append, linkedDrivers]
  split <;> rfl

theorem Registry.linkAll (h : Registry board l rs) (cs : List (AddCall D B R)) :
    Registry board (linkAll board cs l) (rs ++ addedDrivers (acceptedCalls board cs l)) := by
  induction cs generalizing l rs with
  | nil =>
      rw [acceptedCalls, addedDrivers, List.filterMap_nil, List.append_nil]
      exact h
  | cons c cs ih =>
      rw [addedDrivers_acceptedCalls_cons, ← List.append_assoc]
      exact ih (h.link c)

theorem Registry.linkAll_pair_listed (h : Registry board l rs) {r : R} {ty : TypePair}
    (hr : .driver r ∈ cs) (hty : board.drvType r = some ty) :
    ∃ r' ∈ board.head :: (rs ++ addedDrivers (acceptedCalls board cs l)),
      board.drvType r' = some ty := by
  induction cs generalizing l rs with
  | nil => exact absurd hr List.not_mem_nil
  | cons c cs ih =>
      rw [addedDrivers_acceptedCalls_cons, ← List.append_assoc]
      rcases List.mem_cons.mp hr with rfl | hr
      · obtain ⟨r', hr', hsame⟩ := h.pair_listed hty
        refine ⟨r', ?_, hsame⟩
        rw [← List.cons_append]
        exact List.mem_append_left _ hr'
      · exact ih (h.link c) hr

theorem linkAll_busParent (board : Board D B R) (l : Links D B R) (cs : List (AddCall D B R))
    (d : D) (b : B) :
    (linkAll board cs l).busParent d = some b ↔
      l.busParent d = some b ∨ .device (some d) (some b) ∈ acceptedCalls board cs l := by
  induction cs generalizing l with
  | nil => simp [linkAll, acceptedCalls]
  | cons c cs ih =>
      change (BaremetalCrt.linkAll board cs (c.link board l).1).busParent d = some b ↔ _
      rw [ih, link_busParent, acceptedCalls_cons, List.mem_append, or_assoc]
      refine or_congr_right (or_congr_left ?_)
      split
      · rename_i hzero
        simp [hzero, eq_comm]
      · rename_i hzero
        simp [hzero]

/-- Probing leaves the links alone. -/
theorem runCalls_links {ops : Ops D B R} {sys sys' : DeviceSystem D B R}
    (h : runCalls board ops cs sys = some sys') : sys'.links = linkAll board cs sys.links := by
  have hrelink : ∀ {sys sys' : DeviceSystem D B R} {linked : Links D B R × Int} {r : Int},
      sys.relink board ops linked = some (sys', r) → sys'.links = linked.1 := by
    intro sys sys' linked r hsome
    unfold DeviceSystem.relink at hsome
    split at hsome
    · obtain ⟨rfl, -⟩ := Prod.mk.inj (Option.some.inj hsome)
      rfl
    · obtain ⟨out, -, hout⟩ := Option.map_eq_some_iff.mp hsome
      obtain ⟨rfl, -⟩ := Prod.mk.inj hout
      rfl
  induction cs generalizing sys with
  | nil =>
      obtain rfl := Option.some.inj h
      rfl
  | cons c cs ih =>
      obtain ⟨⟨m, r⟩, hm, hrest⟩ := Option.bind_eq_some_iff.mp h
      have hlinks : m.links = (c.link board sys.links).1 := by
        cases c <;> exact hrelink hm
      rw [ih hrest, hlinks]
      rfl

/-- Where added drivers have different pairs, the driver that is chosen for a pair is the one that
was added with it, whatever the order was. -/
theorem matchDriver_linkAll (board : Board D B R) {cs : List (AddCall D B R)}
    (hdistinct : ∀ r r', .driver r ∈ cs → .driver r' ∈ cs → board.drvType r ≠ none →
      board.drvType r = board.drvType r' → r = r') (ty : TypePair) (r : R) :
    matchDriver board (linkAll board cs Links.empty) ty = some r ↔
      .driver r ∈ cs ∧ board.drvType r = some ty ∧ board.drvType board.head ≠ some ty := by
  have hreg := (Registry.empty board).linkAll cs
  have hcalled : ∀ {r}, r ∈ addedDrivers (acceptedCalls board cs Links.empty) →
      .driver r ∈ cs :=
    fun hr => (acceptedCalls_sublist board cs _).subset (mem_addedDrivers.mp hr)
  rw [List.nil_append] at hreg
  rw [hreg.drivers.matchDriver_eq_some_iff]
  constructor
  · rintro ⟨hr, hty, hhead⟩
    exact ⟨hcalled hr, hty, hhead⟩
  · rintro ⟨hr, hty, hhead⟩
    refine ⟨?_, hty, hhead⟩
    obtain ⟨r', hr', hsame⟩ := (Registry.empty board).linkAll_pair_listed hr hty
    rcases List.mem_cons.mp hr' with rfl | hr'
    · exact absurd hsame hhead
    · rw [List.nil_append] at hr'
      rwa [hdistinct r r' hr (hcalled hr') (by simp [hty]) (hty.trans hsame.symm)]

/-- For every sequence of calls that add drivers, devices and buses: the list of the drivers ends,
has no two drivers with the same pair and has every driver that was accepted; every device that
was accepted is once in the list of the bus that it names and in no other, and these lists end;
and for another sequence with the same drivers, where these have different pairs, the same
driver is chosen for every device and every bus. -/
theorem registry_sound (board : Board D B R) (cs : List (AddCall D B R)) :
    let l := linkAll board cs Links.empty
    let accepted := acceptedCalls board cs Links.empty
    (∀ ops sys sys', sys.links = Links.empty → runCalls board ops cs sys = some sys' →
      sys'.links = l) ∧
    (∃ rs, Chain l.drvNext (some board.head) rs ∧ (rs.map board.drvType).Nodup ∧
      ∀ r, .driver r ∈ accepted → r ∈ rs) ∧
    (∀ d b, .device (some d) (some b) ∈ accepted → l.busParent d = some b ∧
      (l.children b).count d = 1 ∧ ∀ b', d ∈ l.children b' → b' = b) ∧
    (∀ b, Chain l.devNext (l.devChild b) (l.children b)) ∧
    ∀ cs' : List (AddCall D B R), (∀ r, .driver r ∈ cs' ↔ .driver r ∈ cs) →
      (∀ r r', .driver r ∈ cs → .driver r' ∈ cs → board.drvType r ≠ none →
        board.drvType r = board.drvType r' → r = r') →
      (∀ d, matchDriver board (linkAll board cs' Links.empty) (board.devType d) =
        matchDriver board l (board.devType d)) ∧
      ∀ b, matchDriver board (linkAll board cs' Links.empty) (board.busType b) =
        matchDriver board l (board.busType b) := by
  intro l accepted
  have hreg := (Registry.empty board).linkAll cs
  rw [List.nil_append] at hreg
  refine ⟨?_, ⟨_, hreg.drivers.chain, hreg.drivers.distinct, ?_⟩, ?_, hreg.devs.chain, ?_⟩
  · intro ops sys sys' hsys hrun
    rw [runCalls_links hrun, hsys]
  · intro r hr
    exact List.mem_cons_of_mem _ (mem_addedDrivers.mpr hr)
  · intro d b hd
    have hparent : l.busParent d = some b :=
      (linkAll_busParent board Links.empty cs d b).mpr (Or.inr hd)
    have hmem : d ∈ l.children b := (hreg.devs.mem_iff b d).mpr hparent
    refine ⟨hparent, List.count_eq_one_of_mem (hreg.devs.nodup b) hmem, fun b' hb' => ?_⟩
    exact hreg.devs.owner_unique hb' hmem
  · intro cs' hsame hdistinct
    have hdistinct' : ∀ r r', .driver r ∈ cs' → .driver r' ∈ cs' → board.drvType r ≠ none →
        board.drvType r = board.drvType r' → r = r' :=
      fun r r' hr hr' => hdistinct r r' ((hsame r).mp hr) ((hsame r').mp hr')
    have hchoice : ∀ ty, matchDriver board (linkAll board cs' Links.empty) ty =
        matchDriver board l ty := by
      intro ty
      apply Option.ext
      intro r
      rw [matchDriver_linkAll board hdistinct', matchDriver_linkAll board hdistinct, hsame]
    exact ⟨fun d => hchoice _, fun b => hchoice _⟩

end Runs

end BaremetalCrt
