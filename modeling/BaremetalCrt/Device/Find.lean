import BaremetalCrt.Device.Links

/-!
# Looking up a device by its name

`k_bus_find_device` goes over the devices of a bus. At the first one that has
been probed and owns a bus it returns what the search below that bus returns,
so the devices behind it are not looked at, and neither are the further buses
of a device.
-/

namespace BaremetalCrt

variable {D B R : Type} [Fintype D] [Fintype B]

/-- The loop of `k_bus_find_device` over the devices of a bus, with the call for a
bus below. The result is the return value and the device that was stored. -/
def findLoop (board : Board D B R) (l : Links D B R) (probed : D → Bool) (name : CStr)
    (find : B → Option (Int × Option D)) : List D → Option (Int × Option D)
  | [] => some (-enodev, none)
  | d :: ds =>
      (board.devName d).bind fun devName =>
        if kStrcasecmp name devName = 0 then
          if probed d then some (0, some d) else some (-eagain, none)
        else
          match probed d, l.busChild d with
          | true, some b => find b
          | _, _ => findLoop board l probed name find ds

/-- The calls of `k_bus_find_device` for a bus; the first argument bounds their depth. -/
def findDevice (board : Board D B R) (l : Links D B R) (probed : D → Bool) (name : CStr) :
    Nat → B → Option (Int × Option D)
  | 0, _ => none
  | n + 1, b =>
      findLoop board l probed name (findDevice board l probed name n) (l.children b)

/-- `k_bus_find_device`. -/
def kBusFindDevice (board : Board D B R) (l : Links D B R) (probed : D → Bool)
    (bus : Option B) (name : Option CStr) : Option (Int × Option D) :=
  match bus, name with
  | some b, some name => findDevice board l probed name (Fintype.card (D ⊕ B)) b
  | _, _ => some (-einval, none)

/-- The device has the name, ignoring case. -/
def HasName (board : Board D B R) (name : CStr) (d : D) : Prop :=
  ∃ devName, board.devName d = some devName ∧ kStrcasecmp name devName = 0

/-- The devices that the search of a bus comes to, when all devices are probed: no
earlier device of a bus owns a bus, and the way down goes through first buses. -/
inductive Clear (l : Links D B R) : B → D → Prop
  | here {b : B} {d : D} {before after : List D} (hlist : l.children b = before ++ d :: after)
      (hbefore : ∀ e ∈ before, l.busChild e = none) : Clear l b d
  | down {b c : B} {d e : D} {before after : List D}
      (hlist : l.children b = before ++ e :: after)
      (hbefore : ∀ x ∈ before, l.busChild x = none) (hc : l.busChild e = some c)
      (hd : Clear l c d) : Clear l b d

/-- A bus of the tree below the root device. -/
def BusHangs (board : Board D B R) (l : Links D B R) (b : B) : Prop :=
  ∃ n, Level l.up (.inl board.devRoot) n (.inr b)

section Search

variable {board : Board D B R} {l : Links D B R} {probed : D → Bool} {name : CStr}

omit [Fintype D] [Fintype B] in
theorem hangs_of_level {n : Nat} {b : B} {d : D} (hd : l.busParent d = some b)
    (hb : Level l.up (.inl board.devRoot) n (.inr b)) : Hangs board l d := by
  induction n using Nat.strong_induction_on generalizing b d with
  | _ n ih =>
      cases n with
      | zero => exact absurd hb (by simp [Level])
      | succ n =>
          obtain ⟨x, hx, hlevel⟩ := hb
          obtain ⟨e, he, rfl⟩ := Option.map_eq_some_iff.mp hx
          cases n with
          | zero =>
              obtain rfl : e = board.devRoot := Sum.inl.inj hlevel
              exact Hangs.first hd he
          | succ n =>
              obtain ⟨y, hy, hlevel⟩ := hlevel
              obtain ⟨c, hc, rfl⟩ := Option.map_eq_some_iff.mp hy
              exact Hangs.under hd he (ih n (by omega) hc hlevel)

theorem BusHangs.children {b : B} (h : BusHangs board l b) (hl : LinksInv board l) {d : D}
    (hd : d ∈ l.children b) : Hangs board l d := by
  obtain ⟨n, hn⟩ := h
  exact hangs_of_level (hl.mem_children.mp hd) hn

theorem BusHangs.busChild {b c : B} {d : D} (h : BusHangs board l b) (hl : LinksInv board l)
    (hd : d ∈ l.children b) (hc : l.busChild d = some c) : BusHangs board l c := by
  obtain ⟨n, hn⟩ := h
  refine ⟨n + 2, .inl d, ?_, .inr b, ?_, hn⟩
  · simp [Links.up, hl.devParent_of_busChild hc]
  · simp [Links.up, hl.mem_children.mp hd]

omit [Fintype B] in
/-- A device that owns a bus ends the search of its own bus. -/
theorem clear_split {b c : B} {d x : D} {before after : List D} (hx : Clear l b x)
    (hlist : l.children b = before ++ d :: after)
    (hbefore : ∀ e ∈ before, l.busChild e = none) (hc : l.busChild d = some c) :
    x ∈ before ∨ x = d ∨ Clear l c x := by
  -- the device that the way goes through is the owner of the bus, or comes before it
  have hplace : ∀ {y : D} {pre post : List D}, l.children b = pre ++ y :: post →
      (∀ e ∈ pre, l.busChild e = none) → y ∈ before ∨ y = d := by
    intro y pre post hy hpre
    rcases List.append_eq_append_iff.mp (hy.symm.trans hlist) with ⟨m, hm, hrest⟩ | ⟨m, hm, hrest⟩
    · cases m with
      | nil => exact Or.inr (List.cons.inj hrest).1
      | cons z m =>
          obtain ⟨rfl, -⟩ := List.cons.inj hrest
          exact Or.inl (hm ▸ List.mem_append_right _ List.mem_cons_self)
    · cases m with
      | nil => exact Or.inr (List.cons.inj hrest).1.symm
      | cons z m =>
          obtain ⟨rfl, -⟩ := List.cons.inj hrest
          have hnone := hpre d (hm ▸ List.mem_append_right _ List.mem_cons_self)
          exact absurd (hnone.symm.trans hc) (by simp)
  cases hx with
  | here hy hpre => exact (hplace hy hpre).imp_right Or.inl
  | @down _ c' _ e pre post hy hpre hc' hx =>
      rcases hplace hy hpre with hmem | rfl
      · exact absurd ((hbefore e hmem).symm.trans hc') (by simp)
      · obtain rfl : c = c' := Option.some.inj (hc.symm.trans hc')
        exact Or.inr (Or.inr hx)

omit [Fintype B] in
/-- Where no device of a bus owns one, a search comes to the devices of the bus only. -/
theorem clear_flat {b : B} {d : D} (hd : Clear l b d)
    (hfree : ∀ e ∈ l.children b, l.busChild e = none) : d ∈ l.children b := by
  cases hd with
  | here hy _ =>
      rw [hy]
      exact List.mem_append_right _ List.mem_cons_self
  | @down _ c _ e pre post hy _ hc _ =>
      have hmem : e ∈ l.children b := by
        rw [hy]
        exact List.mem_append_right _ List.mem_cons_self
      exact absurd ((hfree e hmem).symm.trans hc) (by simp)

/-- What a search answers about the devices that it comes to. -/
def FindSpec (board : Board D B R) (l : Links D B R) (name : CStr) (b : B)
    (res : Int × Option D) : Prop :=
  (∃ d, Clear l b d ∧ HasName board name d ∧ res = (0, some d)) ∨
    ((∀ d, Clear l b d → ¬ HasName board name d) ∧ res = (-enodev, none))

omit [Fintype B] in
theorem findLoop_spec {find : B → Option (Int × Option D)} {b : B} {res : Int × Option D}
    (hprobed : ∀ d ∈ l.children b, probed d = true)
    (hfind : ∀ d ∈ l.children b, ∀ c, l.busChild d = some c → ∀ r, find c = some r →
      FindSpec board l name c r)
    {before rest : List D} (hlist : l.children b = before ++ rest)
    (hbefore : ∀ e ∈ before, l.busChild e = none ∧ ¬ HasName board name e)
    (hres : findLoop board l probed name find rest = some res) :
    FindSpec board l name b res := by
  induction rest generalizing before with
  | nil =>
      obtain rfl := Option.some.inj hres
      rw [List.append_nil] at hlist
      rw [← hlist] at hbefore
      have hflat : ∀ e ∈ l.children b, l.busChild e = none := fun e he => (hbefore e he).1
      exact Or.inr ⟨fun d hd => (hbefore d (clear_flat hd hflat)).2, rfl⟩
  | cons d rest ih =>
      have hmem : d ∈ l.children b := by
        rw [hlist]
        exact List.mem_append_right _ List.mem_cons_self
      have hfree : ∀ e ∈ before, l.busChild e = none := fun e he => (hbefore e he).1
      obtain ⟨devName, hdev, hres⟩ := Option.bind_eq_some_iff.mp hres
      rw [hprobed d hmem] at hres
      by_cases hname : kStrcasecmp name devName = 0
      · rw [if_pos hname] at hres
        obtain rfl := Option.some.inj hres
        exact Or.inl ⟨d, Clear.here hlist hfree, ⟨devName, hdev, hname⟩, rfl⟩
      · rw [if_neg hname] at hres
        have hno : ¬ HasName board name d := by
          rintro ⟨other, hother, heq⟩
          obtain rfl := Option.some.inj (hdev.symm.trans hother)
          exact hname heq
        cases hc : l.busChild d with
        | none =>
            rw [hc] at hres
            have hnext : l.children b = (before ++ [d]) ++ rest := by
              rw [hlist, List.append_assoc]
              rfl
            refine ih hnext ?_ hres
            intro e he
            rcases List.mem_append.mp he with he | he
            · exact hbefore e he
            · obtain rfl := List.mem_singleton.mp he
              exact ⟨hc, hno⟩
        | some c =>
            rw [hc] at hres
            rcases hfind d hmem c hc res hres with ⟨x, hx, hmatch, rfl⟩ | ⟨hnone, rfl⟩
            · exact Or.inl ⟨x, Clear.down hlist hfree hc hx, hmatch, rfl⟩
            · refine Or.inr ⟨fun x hx => ?_, rfl⟩
              rcases clear_split hx hlist hfree hc with hin | rfl | hbelow
              · exact (hbefore x hin).2
              · exact hno
              · exact hnone x hbelow

theorem findDevice_spec (hl : LinksInv board l)
    (hprobed : ∀ d, Hangs board l d → probed d = true) {n : Nat} {b : B}
    {res : Int × Option D} (hb : BusHangs board l b)
    (hres : findDevice board l probed name n b = some res) : FindSpec board l name b res := by
  induction n generalizing b res with
  | zero => exact absurd hres (by simp [findDevice])
  | succ n ih =>
      refine findLoop_spec (fun d hd => hprobed d (hb.children hl hd)) ?_ (List.nil_append _).symm
        (fun e he => absurd he List.not_mem_nil) hres
      intro d hd c hc r hr
      exact ih (hb.busChild hl hd hc) hr

omit [Fintype D] [Fintype B] in
theorem findLoop_isSome {find : B → Option (Int × Option D)} {ds : List D}
    (hname : ∀ d ∈ ds, board.devName d ≠ none)
    (hfind : ∀ d ∈ ds, ∀ c, l.busChild d = some c → (find c).isSome) :
    (findLoop board l probed name find ds).isSome := by
  induction ds with
  | nil => rfl
  | cons d ds ih =>
      obtain ⟨devName, hdev⟩ := Option.ne_none_iff_exists'.mp (hname d List.mem_cons_self)
      have hrest := ih (fun e he => hname e (List.mem_cons_of_mem d he))
        (fun e he => hfind e (List.mem_cons_of_mem d he))
      simp only [findLoop, hdev, Option.bind_some]
      split
      · split
        · rfl
        · rfl
      · split
        · rename_i c _ hc
          exact hfind d List.mem_cons_self c hc
        · exact hrest

/-- The search returns on every bus of the tree. -/
theorem findDevice_isSome (probed : D → Bool) (name : CStr) (hl : LinksInv board l) {n m : Nat}
    {b : B}
    (hb : Level l.up (.inl board.devRoot) m (.inr b)) (hn : Fintype.card (D ⊕ B) ≤ m + n) :
    (findDevice board l probed name n b).isSome := by
  induction n generalizing m b with
  | zero =>
      have hlt := hb.lt_card (by simp [Links.up, hl.root_alone])
      omega
  | succ n ih =>
      apply findLoop_isSome
      · intro d hd
        exact hl.named d b (hl.mem_children.mp hd)
      · intro d hd c hc
        have hc' : Level l.up (.inl board.devRoot) (m + 2) (.inr c) := by
          refine ⟨.inl d, ?_, .inr b, ?_, hb⟩
          · simp [Links.up, hl.devParent_of_busChild hc]
          · simp [Links.up, hl.mem_children.mp hd]
        exact ih hc' (by omega)

omit [Fintype D] [Fintype B] in
theorem busHangs_root (hroot : l.devParent board.busRoot = some board.devRoot) :
    BusHangs board l board.busRoot :=
  ⟨1, .inl board.devRoot, by simp [Links.up, hroot], rfl⟩

/-- A search of the root bus returns, and answers about the devices it comes to. -/
theorem kBusFindDevice_spec (name : CStr) (hl : LinksInv board l)
    (hroot : l.devParent board.busRoot = some board.devRoot)
    (hprobed : ∀ d, Hangs board l d → probed d = true) :
    ∃ res, kBusFindDevice board l probed (some board.busRoot) (some name) = some res ∧
      FindSpec board l name board.busRoot res := by
  have hbus := busHangs_root hroot
  have ⟨m, hm⟩ := hbus
  obtain ⟨res, hres⟩ := Option.isSome_iff_exists.mp
    (findDevice_isSome probed name hl hm (Nat.le_add_left _ _))
  exact ⟨res, hres, findDevice_spec hl hprobed hbus hres⟩

/-- The devices that a search comes to belong to the tree. -/
theorem Clear.hangs (hl : LinksInv board l) {b : B} {d : D} (h : Clear l b d)
    (hb : BusHangs board l b) : Hangs board l d := by
  induction h with
  | here hlist _ =>
      apply hb.children hl
      rw [hlist]
      exact List.mem_append_right _ List.mem_cons_self
  | @down b c d e pre post hlist _ hc _ ih =>
      apply ih
      refine hb.busChild hl ?_ hc
      rw [hlist]
      exact List.mem_append_right _ List.mem_cons_self

end Search

/-- The answer that a lookup in the tree should give: the device of that name, or
that there is none. -/
def FindsByName (board : Board D B R) (l : Links D B R) (name : CStr)
    (res : Option (Int × Option D)) : Prop :=
  (∀ d, Hangs board l d → HasName board name d → res = some (0, some d)) ∧
    ((∀ d, Hangs board l d → ¬ HasName board name d) → res = some (-enodev, none))

variable [Fintype R] [DecidableEq D] [DecidableEq B] [DecidableEq R]

/-- In every tree whose devices are all probed and have different names, a lookup
is right exactly when the device of that name, if there is one, is where the
search comes to. -/
theorem find_device_iff_clear (board : Board D B R) (l : Links D B R) (hl : Built board l)
    (hroot : l.devParent board.busRoot = some board.devRoot) (probed : D → Bool)
    (hprobed : ∀ d, Hangs board l d → probed d = true)
    (hnames : ∀ d e, Hangs board l d → Hangs board l e → d ≠ e →
      ∀ a b, board.devName d = some a → board.devName e = some b → kStrcasecmp a b ≠ 0)
    (name : CStr) :
    FindsByName board l name
        (kBusFindDevice board l probed (some board.busRoot) (some name)) ↔
      ∀ d, Hangs board l d → HasName board name d → Clear l board.busRoot d := by
  have hinv := hl.inv
  obtain ⟨res, hres, hspec⟩ := kBusFindDevice_spec name hinv hroot hprobed
  rw [hres]
  have hunique : ∀ d e, Hangs board l d → Hangs board l e → HasName board name d →
      HasName board name e → d = e := by
    rintro d e hd he ⟨a, ha, hna⟩ ⟨b, hb, hnb⟩
    by_contra hne
    apply hnames d e hd he hne a b ha hb
    rw [kStrcasecmp_eq_zero_iff] at hna hnb ⊢
    exact hna.symm.trans hnb
  constructor
  · rintro ⟨hfound, -⟩ d hd hname
    rcases hspec with ⟨e, hclear, hother, -⟩ | ⟨-, hnone⟩
    · rw [hunique d e hd (hclear.hangs hinv (busHangs_root hroot)) hname hother]
      exact hclear
    · have heq := Option.some.inj (hfound d hd hname)
      rw [hnone] at heq
      exact absurd heq (by simp [enodev])
  · intro hall
    constructor
    · intro d hd hname
      rcases hspec with ⟨e, hclear, hother, heq⟩ | ⟨hnone, -⟩
      · rw [hunique d e hd (hclear.hangs hinv (busHangs_root hroot)) hname hother, heq]
      · exact absurd hname (hnone d (hall d hd hname))
    · intro hno
      rcases hspec with ⟨e, hclear, hname, -⟩ | ⟨-, heq⟩
      · exact absurd hname (hno e (hclear.hangs hinv (busHangs_root hroot)))
      · rw [heq]

/-- The names of a small board. -/
def nestedName : Fin 4 → CStr
  | 0 => CStr.ofChars "root".toList
  | 1 => CStr.ofChars "soc".toList
  | 2 => CStr.ofChars "uart".toList
  | 3 => CStr.ofChars "clk".toList

/-- A board with a device that owns a bus: `soc` and `uart` are meant for the root
bus and `clk` for the bus of `soc`. -/
def nestedBoard : Board (Fin 4) (Fin 2) (Fin 1) where
  devRoot := 0
  busRoot := 0
  head := 0
  devName := fun d => some (nestedName d)
  devType := fun _ => ⟨CStr.ofChars "none".toList, CStr.ofChars "none".toList⟩
  busName := fun _ => some (CStr.ofChars "bus".toList)
  busType := fun _ => ⟨CStr.ofChars "none".toList, CStr.ofChars "none".toList⟩
  drvType := fun _ => some ⟨CStr.ofChars "none".toList, CStr.ofChars "none".toList⟩
  busRoot_named := bus_named

/-- The root bus of that board below the root device. -/
def nestedRoot : Links (Fin 4) (Fin 2) (Fin 1) :=
  (busLink nestedBoard Links.empty (some 0) (some 0)).1

/-- The whole tree of that board. -/
def nestedLinks : Links (Fin 4) (Fin 2) (Fin 1) :=
  (deviceLink nestedBoard (busLink nestedBoard (deviceLink nestedBoard (deviceLink nestedBoard
    nestedRoot (some 1) (some 0)).1 (some 2) (some 0)).1 (some 1) (some 1)).1 (some 3) (some 1)).1

theorem nestedLinks_built : Built nestedBoard nestedLinks := by
  apply Built.device
  · apply Built.bus
    apply Built.device
    · exact Built.device (Built.bus Built.empty _ _) _ _ (by decide)
    · decide
  · decide

theorem nestedName_ne : ∀ d e : Fin 4, d ≠ e → kStrcasecmp (nestedName d) (nestedName e) ≠ 0 := by
  decide +kernel

theorem nestedName_clk : ∀ d : Fin 4,
    kStrcasecmp (CStr.ofChars "clk".toList) (nestedName d) = 0 → d = 3 := by
  decide +kernel

/-- On that board `clk` is found. -/
theorem find_device_iff_clear_clk : FindsByName nestedBoard nestedLinks
    (CStr.ofChars "clk".toList) (kBusFindDevice nestedBoard nestedLinks (fun _ => true) (some 0)
      (some (CStr.ofChars "clk".toList))) := by
  refine (find_device_iff_clear nestedBoard nestedLinks nestedLinks_built (by decide)
    (fun _ => true) (fun _ _ => rfl) ?_ _).mpr ?_
  · intro d e _ _ hne a b ha hb
    rw [← Option.some.inj ha, ← Option.some.inj hb]
    exact nestedName_ne d e hne
  · rintro d - ⟨devName, hdev, hname⟩
    obtain rfl := Option.some.inj hdev
    obtain rfl := nestedName_clk d hname
    have hroot : nestedLinks.children 0 = [] ++ 1 :: [2] := by decide
    have hsoc : nestedLinks.children 1 = [] ++ 3 :: [] := by decide
    have hbus : nestedLinks.busChild 1 = some 1 := by decide
    have hnil : ∀ e ∈ ([] : List (Fin 4)), nestedLinks.busChild e = none :=
      fun _ he => absurd he List.not_mem_nil
    exact Clear.down hroot hnil hbus (Clear.here hsoc hnil)

/-- On that board `uart` is not found, since `soc` owns a bus and comes before it. -/
theorem find_device_misses_uart : Built nestedBoard nestedLinks ∧
    (∀ d e : Fin 4, d ≠ e → kStrcasecmp (nestedName d) (nestedName e) ≠ 0) ∧
    Hangs nestedBoard nestedLinks 2 ∧ nestedBoard.devName 2 = some (nestedName 2) ∧
    kBusFindDevice nestedBoard nestedLinks (fun _ => true) (some 0) (some (nestedName 2)) =
      some (-enodev, none) := by
  refine ⟨nestedLinks_built, nestedName_ne, ?_, rfl, by decide +kernel⟩
  have hparent : nestedLinks.busParent 2 = some 0 := by decide
  have hroot : nestedLinks.devParent 0 = some nestedBoard.devRoot := by decide
  exact Hangs.first hparent hroot

end BaremetalCrt
