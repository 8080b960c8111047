import BaremetalCrt.Cpu.Wakeup
import BaremetalCrt.Device.Cores
import BaremetalCrt.Thread.Clone
import Mathlib.Order.CompletePartialOrder
import Mathlib.Order.Interval.Set.Disjoint

/-!
# The numbers of the cores

The driver of the CPUs numbers the cores that it accepts. The table of the CPUs is looked up by
these numbers and by the numbers of the harts, and the numbers choose the parts of the stack
memory on which a core runs its idle thread and its interrupts.

## Implementation notes

The counter for new numbers is unbounded here; the source counts in an `int`, and there is no
memory for as many devices as would make it overflow. A device without `hartid` in its
configuration may be listed as well, and is rejected.
-/

namespace BaremetalCrt

variable {D : Type} {numCores : Nat}

/-- `k_cpu_get`. -/
def kCpuGet (w : CpuTable D numCores) (id : Int) : Option D :=
  if h : 0 ≤ id ∧ id < numCores then w.cpus ⟨id.toNat, by omega⟩ else none

/-- `k_cpu_get_by_physical_id`. -/
def kCpuGetByPhysicalId (w : CpuTable D numCores) (idPhys : Nat) : Option D :=
  (List.finRange numCores).findSome? fun i =>
    (w.cpus i).filter fun cpu => w.idPhys cpu = idPhys

section Run

variable [DecidableEq D]

/-- `cpu_riscv_add` for the devices of a list, and the devices that it accepted. -/
def addCpus (mainCore : Nat) (hartid : D → Option Nat) :
    List D → CpuTable D numCores × List D → CpuTable D numCores × List D
  | [], x => x
  | d :: ds, (w, accepted) =>
      let out := cpuRiscvAdd mainCore hartid d w
      addCpus mainCore hartid ds (out.1, if out.2 = 0 then accepted ++ [d] else accepted)

end Run

/-- A device has a hart that is not the main one. -/
def isSecondary (mainCore : Nat) (hartid : D → Option Nat) (d : D) : Bool :=
  (hartid d).any fun hart => hart ≠ mainCore

/-- The table holds the accepted devices at their numbers, new numbers are unused, and number 0
is that of the main hart. -/
structure CoreTable (mainCore : Nat) (hartid : D → Option Nat) (w : CpuTable D numCores)
    (accepted : List D) : Prop where
  entry : ∀ i d, w.cpus i = some d ↔ d ∈ accepted ∧ w.idCpu d = i
  inRange : ∀ d ∈ accepted, w.idCpu d < numCores
  phys : ∀ d ∈ accepted, hartid d = some (w.idPhys d)
  below : ∀ d ∈ accepted, w.idCpu d < w.uniqIdCpu
  main_iff : ∀ d ∈ accepted, w.idCpu d = 0 ↔ hartid d = some mainCore
  pos : 0 < w.uniqIdCpu

namespace CoreTable

variable {mainCore : Nat} {hartid : D → Option Nat} {w : CpuTable D numCores} {accepted : List D}
  {d e : D}

theorem boot : CoreTable mainCore hartid (CpuTable.boot : CpuTable D numCores) [] where
  entry := by simp [CpuTable.boot]
  inRange := by simp
  phys := by simp
  below := by simp
  main_iff := by simp
  pos := Nat.one_pos

/-- A device is at one place, so numbers are not given twice. -/
theorem idCpu_inj (h : CoreTable mainCore hartid w accepted) (hd : d ∈ accepted)
    (he : e ∈ accepted) (heq : w.idCpu d = w.idCpu e) : d = e := by
  have hplace := (h.entry ⟨w.idCpu d, h.inRange d hd⟩ d).mpr ⟨hd, rfl⟩
  have hother := (h.entry ⟨w.idCpu d, h.inRange d hd⟩ e).mpr ⟨he, heq.symm⟩
  exact Option.some.inj (hplace.symm.trans hother)

theorem kCpuGet_eq_some_iff (h : CoreTable mainCore hartid w accepted) (id : Int) (d : D) :
    kCpuGet w id = some d ↔ d ∈ accepted ∧ (w.idCpu d : Int) = id := by
  unfold kCpuGet
  split
  · rename_i hid
    rw [h.entry]
    refine and_congr_right fun _ => ?_
    change w.idCpu d = id.toNat ↔ _
    omega
  · rename_i hid
    refine ⟨nofun, ?_⟩
    rintro ⟨hd, hnum⟩
    have hlt := h.inRange d hd
    exact absurd ⟨by omega, by omega⟩ hid

theorem kCpuGetByPhysicalId_eq_some_iff (h : CoreTable mainCore hartid w accepted)
    (hinj : ∀ d ∈ accepted, ∀ e ∈ accepted, hartid d = hartid e → d = e) (hart : Nat) (d : D) :
    kCpuGetByPhysicalId w hart = some d ↔ d ∈ accepted ∧ hartid d = some hart := by
  -- a device that the loop can stop at
  have hstop : ∀ i e, (w.cpus i).filter (fun cpu => w.idPhys cpu = hart) = some e →
      e ∈ accepted ∧ hartid e = some hart := by
    intro i e he
    obtain ⟨hcpu, hphys⟩ := Option.filter_eq_some_iff.mp he
    obtain ⟨hmem, -⟩ := (h.entry i e).mp hcpu
    exact ⟨hmem, (h.phys e hmem).trans (congrArg some (of_decide_eq_true hphys))⟩
  constructor
  · intro hfound
    obtain ⟨i, -, hi⟩ := List.exists_of_findSome?_eq_some hfound
    exact hstop i d hi
  · rintro ⟨hd, hhart⟩
    have hphys : w.idPhys d = hart := Option.some.inj ((h.phys d hd).symm.trans hhart)
    have hplace := (h.entry ⟨w.idCpu d, h.inRange d hd⟩ d).mpr ⟨hd, rfl⟩
    cases hfound : kCpuGetByPhysicalId w hart with
    | none =>
        have hnone := List.findSome?_eq_none_iff.mp hfound ⟨w.idCpu d, h.inRange d hd⟩
          (List.mem_finRange _)
        simp [hplace, hphys] at hnone
    | some e =>
        obtain ⟨i, -, hi⟩ := List.exists_of_findSome?_eq_some hfound
        obtain ⟨he, hother⟩ := hstop i e hi
        rw [hinj d hd e he (hhart.trans hother.symm)]

variable [DecidableEq D]

/-- A device is entered at a number that is not in use. -/
theorem enter (h : CoreTable mainCore hartid w accepted) (hd : d ∉ accepted) {n : Nat}
    (hn : n < numCores) (hfree : ∀ e ∈ accepted, w.idCpu e ≠ n) {hart : Nat}
    (hhart : hartid d = some hart) (hmain : n = 0 ↔ hart = mainCore) {u : Nat}
    (hu : w.uniqIdCpu ≤ u) (hlt : n < u) :
    CoreTable mainCore hartid
      (⟨u, Function.update w.cpus ⟨n, hn⟩ (some d), Function.update w.idCpu d n,
        Function.update w.idPhys d hart⟩ : CpuTable D numCores) (accepted ++ [d]) := by
  have hold : ∀ {α : Type} (f : D → α) (v : α), ∀ e ∈ accepted, Function.update f d v e = f e :=
    fun f v e he => Function.update_of_ne (ne_of_mem_of_not_mem he hd) v f
  refine ⟨?_, ?_, ?_, ?_, ?_, h.pos.trans_le hu⟩
  · intro i e
    rw [List.mem_append, List.mem_singleton]
    by_cases hin : i = ⟨n, hn⟩
    · subst hin
      simp only [Function.update_self, Option.some.injEq]
      constructor
      · rintro rfl
        exact ⟨Or.inr rfl, Function.update_self ..⟩
      · rintro ⟨he | he, hnum⟩
        · rw [hold w.idCpu n e he] at hnum
          exact absurd hnum (hfree e he)
        · exact he.symm
    · have hne : n ≠ i.val := fun heq => hin (Fin.ext heq.symm)
      simp only [Function.update_of_ne hin, h.entry]
      constructor
      · rintro ⟨he, hnum⟩
        exact ⟨Or.inl he, (hold w.idCpu n e he).trans hnum⟩
      · rintro ⟨he | he, hnum⟩
        · exact ⟨he, (hold w.idCpu n e he).symm.trans hnum⟩
        · rw [he, Function.update_self] at hnum
          exact absurd hnum hne
  all_goals
    rw [List.forall_mem_append, List.forall_mem_singleton]
    simp only [Function.update_self]
  · exact ⟨fun e he => (hold w.idCpu n e he).trans_lt (h.inRange e he), hn⟩
  · exact ⟨fun e he => (h.phys e he).trans (congrArg some (hold w.idPhys hart e he).symm), hhart⟩
  · exact ⟨fun e he => (hold w.idCpu n e he).trans_lt ((h.below e he).trans_le hu), hlt⟩
  · refine ⟨fun e he => ?_, ?_⟩
    · rw [hold w.idCpu n e he]
      exact h.main_iff e he
    · rw [hhart, Option.some.injEq]
      exact hmain

end CoreTable

section Add

variable [DecidableEq D] {mainCore hart : Nat} {hartid : D → Option Nat} {w : CpuTable D numCores}
  {accepted ds : List D} {d : D}

theorem cpuRiscvAdd_of_none (hd : hartid d = none) :
    cpuRiscvAdd mainCore hartid d w = (w, -einval) := by
  simp only [cpuRiscvAdd, hd]

theorem cpuRiscvAdd_of_main (hd : hartid d = some mainCore) (hpos : 0 < numCores) :
    cpuRiscvAdd mainCore hartid d w =
      (⟨w.uniqIdCpu, Function.update w.cpus ⟨0, hpos⟩ (some d), Function.update w.idCpu d 0,
        Function.update w.idPhys d mainCore⟩, 0) := by
  simp only [cpuRiscvAdd, hd, if_true, dif_pos hpos, kCpuSet]

theorem cpuRiscvAdd_of_secondary (hd : hartid d = some hart) (hne : hart ≠ mainCore)
    (hlt : w.uniqIdCpu < numCores) :
    cpuRiscvAdd mainCore hartid d w =
      (⟨w.uniqIdCpu + 1, Function.update w.cpus ⟨w.uniqIdCpu, hlt⟩ (some d),
        Function.update w.idCpu d w.uniqIdCpu, Function.update w.idPhys d hart⟩, 0) := by
  simp only [cpuRiscvAdd, hd, if_neg hne, kCpuAllocId, dif_pos hlt, kCpuSet]

theorem cpuRiscvAdd_of_main_rejected (hd : hartid d = some mainCore) (hpos : ¬ 0 < numCores) :
    cpuRiscvAdd mainCore hartid d w = (w, -einval) := by
  simp only [cpuRiscvAdd, hd, if_true, dif_neg hpos]

theorem cpuRiscvAdd_of_secondary_rejected (hd : hartid d = some hart) (hne : hart ≠ mainCore)
    (hlt : ¬ w.uniqIdCpu < numCores) :
    cpuRiscvAdd mainCore hartid d w = ({ w with uniqIdCpu := w.uniqIdCpu + 1 }, -einval) := by
  simp only [cpuRiscvAdd, hd, if_neg hne, kCpuAllocId, dif_neg hlt]

/-- The state of a run: the table, the harts of the accepted devices and of those to come, and
how many secondary harts are accepted. -/
structure CoreRun (mainCore : Nat) (hartid : D → Option Nat) (w : CpuTable D numCores)
    (accepted ds : List D) : Prop extends CoreTable mainCore hartid w accepted where
  inj : ∀ d ∈ accepted, ∀ e ∈ accepted, hartid d = hartid e → d = e
  apart : ∀ d ∈ accepted, ∀ e ∈ ds, hartid d ≠ hartid e
  listed : (ds.filterMap hartid).Nodup
  count : accepted.countP (isSecondary mainCore hartid) = min (w.uniqIdCpu - 1) (numCores - 1)

namespace CoreRun

omit [DecidableEq D] in
theorem notMem (h : CoreRun mainCore hartid w accepted (d :: ds)) : d ∉ accepted :=
  fun hd => h.apart d hd d List.mem_cons_self rfl

omit [DecidableEq D] in
/-- The next device is rejected. -/
theorem skip (h : CoreRun mainCore hartid w accepted (d :: ds)) {w' : CpuTable D numCores}
    (htable : CoreTable mainCore hartid w' accepted)
    (hcount : min (w'.uniqIdCpu - 1) (numCores - 1) = min (w.uniqIdCpu - 1) (numCores - 1)) :
    CoreRun mainCore hartid w' accepted ds where
  toCoreTable := htable
  inj := h.inj
  apart := fun e he f hf => h.apart e he f (List.mem_cons_of_mem d hf)
  listed := (List.Sublist.filterMap hartid (List.sublist_cons_self d ds)).nodup h.listed
  count := h.count.trans hcount.symm

omit [DecidableEq D] in
/-- The next device is accepted. -/
theorem enter (h : CoreRun mainCore hartid w accepted (d :: ds)) {w' : CpuTable D numCores}
    (htable : CoreTable mainCore hartid w' (accepted ++ [d])) (hd : hartid d = some hart)
    (hcount : min (w'.uniqIdCpu - 1) (numCores - 1) =
      min (w.uniqIdCpu - 1) (numCores - 1) + [d].countP (isSecondary mainCore hartid)) :
    CoreRun mainCore hartid w' (accepted ++ [d]) ds where
  toCoreTable := htable
  inj := by
    intro e he f hf heq
    rw [List.mem_append, List.mem_singleton] at he hf
    rcases he with he | rfl
    · rcases hf with hf | rfl
      · exact h.inj e he f hf heq
      · exact absurd heq (h.apart e he f List.mem_cons_self)
    · rcases hf with hf | rfl
      · exact absurd heq.symm (h.apart f hf e List.mem_cons_self)
      · rfl
  apart := by
    intro e he f hf heq
    rw [List.mem_append, List.mem_singleton] at he
    rcases he with he | rfl
    · exact h.apart e he f (List.mem_cons_of_mem d hf) heq
    · have hlisted := h.listed
      rw [List.filterMap_cons_some hd] at hlisted
      exact (List.nodup_cons.mp hlisted).1 (List.mem_filterMap.mpr ⟨f, hf, heq.symm.trans hd⟩)
  listed := (List.Sublist.filterMap hartid (List.sublist_cons_self d ds)).nodup h.listed
  count := by rw [List.countP_append, h.count, hcount]

/-- One device of the list. -/
theorem step (h : CoreRun mainCore hartid w accepted (d :: ds)) :
    let out := cpuRiscvAdd mainCore hartid d w
    CoreRun mainCore hartid out.1 (if out.2 = 0 then accepted ++ [d] else accepted) ds ∧
      out.1.uniqIdCpu = w.uniqIdCpu + [d].countP (isSecondary mainCore hartid) := by
  intro out
  have hrejected : (-einval : Int) ≠ 0 := by decide
  have hpos := h.pos
  cases hd : hartid d with
  | none =>
      have hsec : [d].countP (isSecondary mainCore hartid) = 0 := by simp [isSecondary, hd]
      simp only [out, cpuRiscvAdd_of_none hd, if_neg hrejected, hsec]
      exact ⟨h.skip h.toCoreTable rfl, rfl⟩
  | some hart =>
      by_cases hmain : hart = mainCore
      · subst hmain
        have hsec : [d].countP (isSecondary hart hartid) = 0 := by simp [isSecondary, hd]
        by_cases hcores : 0 < numCores
        · simp only [out, cpuRiscvAdd_of_main hd hcores, if_true, hsec]
          refine ⟨h.enter (h.toCoreTable.enter h.notMem hcores ?_ hd (by simp) le_rfl hpos) hd
            (by rw [hsec]; rfl), rfl⟩
          -- number 0 would be that of a device with the same hart
          intro e he hzero
          exact h.apart e he d List.mem_cons_self (((h.main_iff e he).mp hzero).trans hd.symm)
        · simp only [out, cpuRiscvAdd_of_main_rejected hd hcores, if_neg hrejected, hsec]
          exact ⟨h.skip h.toCoreTable rfl, rfl⟩
      · have hsec : [d].countP (isSecondary mainCore hartid) = 1 := by
          simp [isSecondary, hd, hmain]
        by_cases hlt : w.uniqIdCpu < numCores
        · simp only [out, cpuRiscvAdd_of_secondary hd hmain hlt, if_true, hsec]
          refine ⟨h.enter (h.toCoreTable.enter h.notMem hlt ?_ hd ?_ (Nat.le_succ _)
            (Nat.lt_succ_self _)) hd ?_, trivial⟩
          · exact fun e he => (h.below e he).ne
          · simp [hmain, hpos.ne']
          · rw [hsec]
            dsimp only
            omega
        · simp only [out, cpuRiscvAdd_of_secondary_rejected hd hmain hlt, if_neg hrejected, hsec]
          refine ⟨h.skip ⟨h.entry, h.inRange, h.phys, fun e he => (h.below e he).trans
            (Nat.lt_succ_self _), h.main_iff, Nat.succ_pos _⟩ ?_, trivial⟩
          dsimp only
          omega

/-- The whole list. -/
theorem addCpus (h : CoreRun mainCore hartid w accepted ds) :
    let out := addCpus mainCore hartid ds (w, accepted)
    CoreRun mainCore hartid out.1 out.2 [] ∧
      out.1.uniqIdCpu = w.uniqIdCpu + ds.countP (isSecondary mainCore hartid) := by
  induction ds generalizing w accepted with
  | nil => exact ⟨h, rfl⟩
  | cons d ds ih =>
      obtain ⟨hstep, hcount⟩ := h.step
      obtain ⟨hrun, huniq⟩ := ih hstep
      refine ⟨hrun, huniq.trans ?_⟩
      rw [hcount, Nat.add_assoc, ← List.countP_append, List.singleton_append]

end CoreRun

end Add

section Stacks

/-- The addresses of a stack, from its top downwards. -/
def stackBelow (top size : Nat) : Set Nat := Set.Ico (top - size) top

variable {base size n m : Nat}

theorem stackBelow_eq (base size n : Nat) :
    stackBelow (base + (n + 1) * size) size =
      Set.Ico (base + n * size) (base + (n + 1) * size) := by
  have htop : base + (n + 1) * size - size = base + n * size := by
    rw [Nat.succ_mul]
    omega
  rw [stackBelow, htop]

theorem stackBelow_subset {count : Nat} (hn : n < count) :
    stackBelow (base + (n + 1) * size) size ⊆ Set.Ico base (base + count * size) := by
  rw [stackBelow_eq]
  exact Set.Ico_subset_Ico (Nat.le_add_right _ _)
    (Nat.add_le_add_left (Nat.mul_le_mul_right size hn) base)

theorem stackBelow_disjoint (hnm : n ≠ m) :
    Disjoint (stackBelow (base + (n + 1) * size) size)
      (stackBelow (base + (m + 1) * size) size) := by
  rw [stackBelow_eq, stackBelow_eq, Set.Ico_disjoint_Ico]
  rcases Nat.lt_or_gt_of_ne hnm with hlt | hlt
  · have hle := Nat.add_le_add_left (Nat.mul_le_mul_right size hlt) base
    exact (min_le_left _ _).trans (hle.trans (le_max_right _ _))
  · have hle := Nat.add_le_add_left (Nat.mul_le_mul_right size hlt) base
    exact (min_le_right _ _).trans (hle.trans (le_max_left _ _))

/-- The stacks of different devices lie in the memory set aside for all cores and are apart. -/
structure StacksApart (numCores base size : Nat) (top : D → Nat) (accepted : List D) : Prop where
  inside : ∀ d ∈ accepted, stackBelow (top d) size ⊆ Set.Ico base (base + numCores * size)
  apart : ∀ d ∈ accepted, ∀ e ∈ accepted, d ≠ e →
    Disjoint (stackBelow (top d) size) (stackBelow (top e) size)

/-- Tops that are chosen by the numbers of the devices. -/
theorem CoreTable.stacksApart {mainCore : Nat} {hartid : D → Option Nat}
    {w : CpuTable D numCores} {accepted : List D} (h : CoreTable mainCore hartid w accepted)
    {top : D → Nat} (htop : ∀ d ∈ accepted, top d = base + (w.idCpu d + 1) * size) :
    StacksApart numCores base size top accepted where
  inside := by
    intro d hd
    rw [htop d hd]
    exact stackBelow_subset (h.inRange d hd)
  apart := by
    intro d hd e he hne
    rw [htop d hd, htop e he]
    exact stackBelow_disjoint fun heq => hne (h.idCpu_inj hd he heq)

end Stacks

section Numbers

variable [DecidableEq D]

/-- CPUs with different harts are probed. Those that are accepted have different numbers of
cores, number 0 only for the main hart; the look-ups by number and by hart find exactly them;
the stacks that waking a core, its idle thread and new threads use are apart; and of the
secondary harts as many are accepted as there are cores for. -/
theorem core_numbers_apart (mainCore numCores : Nat) (hartid : D → Option Nat) (devs : List D)
    (hdistinct : (devs.filterMap hartid).Nodup) :
    let out := addCpus mainCore hartid devs ((CpuTable.boot : CpuTable D numCores), [])
    let w := out.1
    let accepted := out.2
    (∀ d ∈ accepted, ∀ e ∈ accepted, w.idCpu d = w.idCpu e → d = e) ∧
    (∀ d ∈ accepted, w.idCpu d < numCores ∧ (w.idCpu d = 0 → hartid d = some mainCore)) ∧
    (∀ id d, kCpuGet w id = some d ↔ d ∈ accepted ∧ (w.idCpu d : Int) = id) ∧
    (∀ hart d, kCpuGetByPhysicalId w hart = some d ↔ d ∈ accepted ∧ hartid d = some hart) ∧
    (∀ (b : BootSetup) (hart : D → HartId),
      StacksApart numCores b.stackIdle b.idleStackSize
        (fun d => b.idleTop ⟨w.idCpu d, hart d⟩) accepted ∧
      StacksApart numCores b.stackIntr b.intrStackSize
        (fun d => b.intrTop ⟨w.idCpu d, hart d⟩) accepted) ∧
    (∀ (cfg : StackConfig) (core : D → Fin numCores), (∀ d ∈ accepted, core d = w.idCpu d) →
      StacksApart numCores cfg.stackIdle cfg.idleStackSize (fun d => cfg.idleTop (core d))
        accepted ∧
      StacksApart numCores cfg.stackIntr cfg.intrStackSize (fun d => cfg.intrTop (core d))
        accepted) ∧
    (numCores - 1 ≤ devs.countP (isSecondary mainCore hartid) →
      numCores - 1 ≤ accepted.countP (isSecondary mainCore hartid)) := by
  intro out w accepted
  have hboot : CoreRun mainCore hartid (CpuTable.boot : CpuTable D numCores) [] devs :=
    ⟨CoreTable.boot, by simp, by simp, hdistinct, by simp [CpuTable.boot]⟩
  obtain ⟨hrun, huniq⟩ := hboot.addCpus
  refine ⟨fun d hd e he => hrun.idCpu_inj hd he,
    fun d hd => ⟨hrun.inRange d hd, (hrun.main_iff d hd).mp⟩,
    hrun.kCpuGet_eq_some_iff, hrun.kCpuGetByPhysicalId_eq_some_iff hrun.inj, ?_, ?_, ?_⟩
  · intro b hart
    exact ⟨hrun.stacksApart fun _ _ => rfl, hrun.stacksApart fun _ _ => rfl⟩
  · intro cfg core hcore
    refine ⟨hrun.stacksApart fun d hd => ?_, hrun.stacksApart fun d hd => ?_⟩
    · rw [StackConfig.idleTop, hcore d hd]
    · rw [StackConfig.intrTop, hcore d hd]
  · intro henough
    rw [hrun.count, huniq]
    exact le_min (by simpa [CpuTable.boot] using henough) le_rfl

/-- Four harts on three cores, the main hart last. -/
theorem core_numbers_apart_four :
    let hartid : Fin 4 → Option Nat := fun d => some (3 - d)
    let out := addCpus 0 hartid (List.finRange 4) ((CpuTable.boot : CpuTable (Fin 4) 3), [])
    out.2 = [0, 1, 3] ∧ kCpuGet out.1 2 = some 1 ∧ kCpuGetByPhysicalId out.1 0 = some 3 := by
  intro hartid out
  obtain ⟨-, -, hget, hphys, -⟩ :=
    core_numbers_apart 0 3 hartid (List.finRange 4) (by decide)
  exact ⟨by decide, (hget 2 1).mpr (by decide), (hphys 0 3).mpr (by decide)⟩

end Numbers

end BaremetalCrt
