import BaremetalCrt.Device.Order
import BaremetalCrt.Device.Starter
import BaremetalCrt.Library.Counting

/-!
# More CPUs than cores

The driver of a CPU gives it a number and enters it in a table with `CONFIG_NUM_CORES`
places. The CPU of the main hart has number 0, and every other one gets the next number. A
CPU whose number is too large is rejected with an error, which stops the loop over the
devices and is the result of `init_drivers`.

## Implementation notes

The callbacks of other devices are those of a flat board, in which a CPU is a device that
names nothing. A CPU without private data does not occur.
-/

namespace BaremetalCrt

/-- `uniq_id_cpu`, the table of the CPUs, and the numbers in them. -/
structure CpuTable (D : Type) (numCores : Nat) where
  uniqIdCpu : Nat
  cpus : Fin numCores → Option D
  idCpu : D → Nat
  idPhys : D → Nat

def CpuTable.boot {D : Type} {numCores : Nat} : CpuTable D numCores :=
  ⟨1, fun _ => none, fun _ => 0, fun _ => 0⟩

variable {D B R : Type} [Fintype D] [Fintype B] [Fintype R] [DecidableEq D] [DecidableEq B]
  [DecidableEq R] {numCores : Nat}

/-- `k_cpu_alloc_id`. -/
def kCpuAllocId (w : CpuTable D numCores) : Nat × CpuTable D numCores :=
  (w.uniqIdCpu, { w with uniqIdCpu := w.uniqIdCpu + 1 })

/-- `k_cpu_set`, with a number that is in range. -/
def kCpuSet (id : Fin numCores) (cpu : D) (w : CpuTable D numCores) : CpuTable D numCores :=
  { w with cpus := Function.update w.cpus id (some cpu) }

/-- `cpu_riscv_add`, with the number of the main hart and the hart of each CPU. -/
def cpuRiscvAdd (mainCore : Nat) (hartid : D → Option Nat) (dev : D)
    (w : CpuTable D numCores) : CpuTable D numCores × Int :=
  match hartid dev with
  | none => (w, -einval)
  | some hart =>
      let out := if hart = mainCore then (0, w) else kCpuAllocId w
      if hid : out.1 < numCores then
        (kCpuSet ⟨out.1, hid⟩ dev
          { out.2 with
            idCpu := Function.update out.2.idCpu dev out.1
            idPhys := Function.update out.2.idPhys dev hart }, 0)
      else (out.2, -einval)

/-- What `cpu_riscv_add` can do: reject the CPU, or enter it at the place that is its. -/
inductive CpuOutcome (mainCore : Nat) (hartid : D → Option Nat) (dev : D)
    (w : CpuTable D numCores) : CpuTable D numCores × Int → Prop
  | rejected (w' : CpuTable D numCores) (hcpus : w'.cpus = w.cpus)
      (hid : w.uniqIdCpu ≤ w'.uniqIdCpu) : CpuOutcome mainCore hartid dev w (w', -einval)
  | main (w' : CpuTable D numCores) (hpos : 0 < numCores) (hhart : hartid dev = some mainCore)
      (hcpus : w'.cpus = Function.update w.cpus ⟨0, hpos⟩ (some dev))
      (hid : w'.uniqIdCpu = w.uniqIdCpu) : CpuOutcome mainCore hartid dev w (w', 0)
  | other (w' : CpuTable D numCores) (hlt : w.uniqIdCpu < numCores)
      (hhart : hartid dev ≠ some mainCore)
      (hcpus : w'.cpus = Function.update w.cpus ⟨w.uniqIdCpu, hlt⟩ (some dev))
      (hid : w'.uniqIdCpu = w.uniqIdCpu + 1) : CpuOutcome mainCore hartid dev w (w', 0)

omit [Fintype D] in
theorem cpuRiscvAdd_outcome (mainCore : Nat) (hartid : D → Option Nat) (dev : D)
    (w : CpuTable D numCores) :
    CpuOutcome mainCore hartid dev w (cpuRiscvAdd mainCore hartid dev w) := by
  unfold cpuRiscvAdd
  cases hh : hartid dev with
  | none => exact .rejected w rfl le_rfl
  | some hart =>
      by_cases hmain : hart = mainCore
      · simp only [if_pos hmain]
        split
        · rename_i hpos
          exact .main _ hpos (hh.trans (congrArg some hmain)) rfl rfl
        · exact .rejected w rfl le_rfl
      · simp only [if_neg hmain, kCpuAllocId]
        split
        · rename_i hlt
          refine .other _ hlt ?_ rfl rfl
          rw [hh]
          exact fun heq => hmain (Option.some.inj heq)
        · exact .rejected _ rfl (Nat.le_succ _)

omit [Fintype D] in
/-- A CPU for whose number there is a place is entered. -/
theorem cpuRiscvAdd_zero {mainCore hart : Nat} {hartid : D → Option Nat} {dev : D}
    {w : CpuTable D numCores} (hhart : hartid dev = some hart) (hpos : 0 < numCores)
    (hlt : hart ≠ mainCore → w.uniqIdCpu < numCores) :
    (cpuRiscvAdd mainCore hartid dev w).2 = 0 := by
  simp only [cpuRiscvAdd, hhart]
  by_cases hmain : hart = mainCore
  · simp only [if_pos hmain, dif_pos hpos]
  · simp only [if_neg hmain, kCpuAllocId, dif_pos (hlt hmain)]

/-- A flat board with CPUs of different harts, one of them the main hart. -/
structure CpuBoard (D B R : Type) [Fintype D] [Fintype B] [Fintype R] [DecidableEq D]
    [DecidableEq B] [DecidableEq R] extends FlatBoard D B R where
  drvCpu : R
  numCores : Nat
  mainCore : Nat
  hartid : D → Option Nat
  cpu_conf : ∀ d ∈ devs, drvOf d = drvCpu → conf d = []
  cpu_hart : ∀ d ∈ devs, drvOf d = drvCpu → hartid d ≠ none
  hart_inj : ∀ d ∈ devs, ∀ e ∈ devs, drvOf d = drvCpu → drvOf e = drvCpu →
    hartid d = hartid e → d = e
  main_mem : ∃ d ∈ devs, drvOf d = drvCpu ∧ hartid d = some mainCore

namespace CpuBoard

variable (p : CpuBoard D B R)

/-- A CPU that is on the bus. -/
def isCpu (d : D) : Bool := decide (d ∈ p.devs) && decide (p.drvOf d = p.drvCpu)

/-- The number of CPUs on the bus. -/
def cpuCount : Nat := held p.isCpu

/-- The callbacks of the board, with the table of the CPUs. -/
def cpuOps : StatefulOps D B R (CpuTable D p.numCores) where
  devAdd := fun r =>
    if r = p.drvCpu then some fun d _ _ w => cpuRiscvAdd p.mainCore p.hartid d w
    else (p.ops.devAdd r).map fun add d l f w => (w, add d l f)
  busAdd := p.ops.busAdd

/-- `init_drivers` on the board. -/
def init (n : Nat) (initcalls : List (Initcall D B R)) :
    Option ((ProbeState D B R × CpuTable D p.numCores) × Int) :=
  p.cpuOps.initDrivers p.board CpuTable.boot n initcalls

/-- As many CPUs as possible are in the table, the others are rejected, and every other
device is probed if all devices that it names are. -/
structure Isolated (x : ProbeState D B R × CpuTable D p.numCores) : Prop where
  registered : held (fun i => (x.2.cpus i).isSome) = min p.cpuCount p.numCores
  rejected : held (fun d => p.isCpu d && (x.1.flags.dev d).failed) = p.cpuCount - p.numCores
  others : ∀ d ∈ p.devs, p.isCpu d = false →
    (∀ e, Names p.board p.conf p.devs d e → (x.1.flags.dev e).probed = true) →
    (x.1.flags.dev d).probed = true

/-- `init_drivers` succeeds and surplus CPUs have no effect on anything else. -/
def IsolatesSurplus (initcalls : List (Initcall D B R)) : Prop :=
  ∃ n x, p.init n initcalls = some (x, 0) ∧ p.Isolated x

/-- The CPUs that are probed. -/
def up (s : ProbeState D B R) (d : D) : Bool := p.isCpu d && (s.flags.dev d).probed

/-- The table has as many entries as CPUs are probed, and new numbers are unused. -/
structure TableInv (up : D → Bool) (w : CpuTable D p.numCores) : Prop where
  count : held (fun i => (w.cpus i).isSome) = held up
  below : ∀ i, w.cpus i ≠ none → i.val < w.uniqIdCpu
  pos : 0 < w.uniqIdCpu
  zero : ∀ i, i.val = 0 → w.cpus i ≠ none →
    ∃ d, p.isCpu d = true ∧ up d = true ∧ p.hartid d = some p.mainCore

/-- So far every CPU that was given a number has been entered. -/
def Numbered (up : D → Bool) (w : CpuTable D p.numCores) : Prop :=
  w.uniqIdCpu = 1 + held fun d => up d && decide (p.hartid d ≠ some p.mainCore)

theorem isCpu_iff {d : D} : p.isCpu d = true ↔ d ∈ p.devs ∧ p.drvOf d = p.drvCpu := by
  simp [isCpu]

section Table

variable {p} {up : D → Bool} {w : CpuTable D p.numCores}

theorem TableInv.boot : p.TableInv (fun _ => false) CpuTable.boot where
  count := by simp [held, CpuTable.boot]
  below := fun _ h => absurd rfl h
  pos := Nat.one_pos
  zero := fun _ _ h => absurd rfl h

theorem TableInv.congr (h : p.TableInv up w) {w' : CpuTable D p.numCores}
    (hcpus : w'.cpus = w.cpus) (hid : w.uniqIdCpu ≤ w'.uniqIdCpu) : p.TableInv up w' where
  count := by
    rw [hcpus]
    exact h.count
  below := by
    intro i hi
    rw [hcpus] at hi
    exact (h.below i hi).trans_le hid
  pos := h.pos.trans_le hid
  zero := by
    rw [hcpus]
    exact h.zero

/-- A CPU is entered at a place that is not in use. -/
theorem TableInv.enter (h : p.TableInv up w) {d : D} (hd : p.isCpu d = true)
    (hup : up d = false) {i : Fin p.numCores} {w' : CpuTable D p.numCores}
    (hfree : w.cpus i = none) (hcpus : w'.cpus = Function.update w.cpus i (some d))
    (hid : w.uniqIdCpu ≤ w'.uniqIdCpu) (hlt : i.val < w'.uniqIdCpu)
    (hmain : i.val = 0 → p.hartid d = some p.mainCore) :
    p.TableInv (Function.update up d true) w' where
  count := by
    rw [hcpus, held_isSome_set hfree, held_set hup, h.count]
  below := by
    intro j hj
    rw [hcpus] at hj
    by_cases hji : j = i
    · rw [hji]
      exact hlt
    · rw [Function.update_of_ne hji] at hj
      exact (h.below j hj).trans_le hid
  pos := h.pos.trans_le hid
  zero := by
    intro j hj hsome
    by_cases hji : j = i
    · rw [hji] at hj
      exact ⟨d, hd, Function.update_self .., hmain hj⟩
    · rw [hcpus, Function.update_of_ne hji] at hsome
      obtain ⟨e, he, hup', hhart⟩ := h.zero j hj hsome
      have hne : e ≠ d := by
        rintro rfl
        exact absurd (hup.symm.trans hup') (by simp)
      exact ⟨e, he, (Function.update_of_ne hne ..).trans hup', hhart⟩

/-- The place of the main hart is free until its CPU is entered. -/
theorem TableInv.free_zero (h : p.TableInv up w) {d : D} (hd : p.isCpu d = true)
    (hup : up d = false) (hhart : p.hartid d = some p.mainCore) {i : Fin p.numCores}
    (hi : i.val = 0) : w.cpus i = none := by
  by_contra hsome
  obtain ⟨e, he, hup', hmain⟩ := h.zero i hi hsome
  obtain ⟨hdm, hdd⟩ := p.isCpu_iff.mp hd
  obtain ⟨hem, hed⟩ := p.isCpu_iff.mp he
  obtain rfl := p.hart_inj d hdm e hem hdd hed (hhart.trans hmain.symm)
  exact absurd (hup.symm.trans hup') (by simp)

theorem TableInv.free_next (h : p.TableInv up w) {i : Fin p.numCores}
    (hi : i.val = w.uniqIdCpu) : w.cpus i = none := by
  by_contra hsome
  have hlt := h.below i hsome
  omega

/-- A call of the callback for a CPU that is not probed. -/
theorem TableInv.add (h : p.TableInv up w) {d : D} (hd : p.isCpu d = true)
    (hup : up d = false) :
    p.TableInv (if (cpuRiscvAdd p.mainCore p.hartid d w).2 = 0 then Function.update up d true
      else up) (cpuRiscvAdd p.mainCore p.hartid d w).1 := by
  have houtcome := cpuRiscvAdd_outcome p.mainCore p.hartid d w
  generalize cpuRiscvAdd p.mainCore p.hartid d w = out at houtcome
  cases houtcome with
  | rejected w' hcpus hid =>
      rw [if_neg (show -einval ≠ 0 by decide)]
      exact h.congr hcpus hid
  | main w' hpos hhart hcpus hid =>
      rw [if_pos rfl]
      refine h.enter hd hup (h.free_zero hd hup hhart rfl) hcpus hid.ge ?_ (fun _ => hhart)
      rw [hid]
      exact h.pos
  | other w' hlt hhart hcpus hid =>
      rw [if_pos rfl]
      refine h.enter hd hup (h.free_next rfl) hcpus ?_ ?_ fun hzero => absurd hzero h.pos.ne'
      · rw [hid]
        exact Nat.le_succ _
      · rw [hid]
        exact Nat.lt_succ_self _

theorem Numbered.add (h : p.Numbered up w) {d : D} (hup : up d = false)
    (hzero : (cpuRiscvAdd p.mainCore p.hartid d w).2 = 0) :
    p.Numbered (Function.update up d true) (cpuRiscvAdd p.mainCore p.hartid d w).1 := by
  have houtcome := cpuRiscvAdd_outcome p.mainCore p.hartid d w
  generalize cpuRiscvAdd p.mainCore p.hartid d w = out at houtcome hzero
  unfold Numbered at h ⊢
  cases houtcome with
  | rejected w' hcpus hid => exact absurd (show -einval = 0 from hzero) (by decide)
  | main w' hpos hhart hcpus hid =>
      have hsame : (fun e => Function.update up d true e &&
          decide (p.hartid e ≠ some p.mainCore)) =
          fun e => up e && decide (p.hartid e ≠ some p.mainCore) := by
        funext e
        by_cases hed : e = d
        · simp [hed, hhart]
        · simp [hed]
      rw [hsame, hid]
      exact h
  | other w' hlt hhart hcpus hid =>
      have hset : (fun e => Function.update up d true e &&
          decide (p.hartid e ≠ some p.mainCore)) =
          Function.update (fun e => up e && decide (p.hartid e ≠ some p.mainCore)) d true := by
        funext e
        by_cases hed : e = d
        · simp [hed, hhart]
        · simp [hed]
      rw [hset, held_set (by simp [hup]), hid, h]
      omega

/-- As long as every CPU has been entered, there is a place for the next one. -/
theorem Numbered.add_zero (h : p.Numbered up w) (hcpu : ∀ e, up e = true → p.isCpu e = true)
    (hcount : p.cpuCount ≤ p.numCores) {d : D} (hd : p.isCpu d = true) (hup : up d = false) :
    (cpuRiscvAdd p.mainCore p.hartid d w).2 = 0 := by
  obtain ⟨hdm, hdd⟩ := p.isCpu_iff.mp hd
  obtain ⟨hart, hhart⟩ := Option.ne_none_iff_exists'.mp (p.cpu_hart d hdm hdd)
  obtain ⟨m, hm, hmd, hmain⟩ := p.main_mem
  have hmcpu : p.isCpu m = true := p.isCpu_iff.mpr ⟨hm, hmd⟩
  have hpos : 0 < p.cpuCount := Finset.card_pos.mpr ⟨m, by simp [hmcpu]⟩
  refine cpuRiscvAdd_zero hhart (hpos.trans_le hcount) fun hne => ?_
  -- neither this CPU nor that of the main hart is among those with a number of their own
  have hne' : p.hartid d ≠ some p.mainCore := by
    rw [hhart]
    exact fun heq => hne (Option.some.inj heq)
  have hmd' : m ≠ d := by
    rintro rfl
    exact hne' hmain
  let own : D → Bool := fun e => up e && decide (p.hartid e ≠ some p.mainCore)
  have hown : held (Function.update (Function.update own d true) m true) = held own + 2 := by
    rw [held_set, held_set]
    · simp [own, hup]
    · simp [own, hmd', hmain]
  have hle : held (Function.update (Function.update own d true) m true) ≤ p.cpuCount := by
    apply held_mono
    intro e he
    by_cases hem : e = m
    · rw [hem]
      exact hmcpu
    · rw [Function.update_of_ne hem] at he
      by_cases hed : e = d
      · rw [hed]
        exact hd
      · rw [Function.update_of_ne hed] at he
        exact hcpu e (Bool.and_eq_true_iff.mp he).1
  have hnum : w.uniqIdCpu = 1 + held own := h
  omega

end Table

/-- The devices that the walk comes to. -/
def OnBoard (d : D) : Prop := d = p.board.devRoot ∨ d ∈ p.devs

/-- The driver of such a device. -/
def drvFor (d : D) : R := if d = p.board.devRoot then p.drvRootDev else p.drvOf d

/-- Devices have no driver but their own. -/
def Attached (s : ProbeState D B R) : Prop :=
  ∀ d, p.OnBoard d → (s.flags.dev d).drv = none ∨ (s.flags.dev d).drv = some (p.drvFor d)

theorem drvRootDev_ne_drvCpu : p.drvRootDev ≠ p.drvCpu := by
  obtain ⟨m, hm, hmd, -⟩ := p.main_mem
  have hnodup := p.types.list_nodup
  simp only [List.nodup_cons, List.mem_cons, not_or] at hnodup
  rintro heq
  apply hnodup.2.2.1
  rw [heq, ← hmd]
  exact p.drvOf_mem m hm

theorem drvFor_eq_iff {d : D} (hd : p.OnBoard d) :
    p.drvFor d = p.drvCpu ↔ p.isCpu d = true := by
  rw [isCpu_iff]
  unfold drvFor
  rcases hd with rfl | hd
  · rw [if_pos rfl]
    exact ⟨fun heq => absurd heq p.drvRootDev_ne_drvCpu, fun h => absurd h.1 p.root_notMem⟩
  · rw [if_neg (p.ne_root hd)]
    exact ⟨fun heq => ⟨hd, heq⟩, fun h => h.2⟩

theorem frozen_devAdd_of_ne (w : CpuTable D p.numCores) {r : R} (hr : r ≠ p.drvCpu) :
    (p.cpuOps.frozen w).devAdd r = p.ops.devAdd r := by
  simp [cpuOps, StatefulOps.frozen, hr, Function.comp_def]

theorem frozen_answer_cpu (w : CpuTable D p.numCores) (d : D) (l : Links D B R)
    (f : Flags D B R) :
    ((p.cpuOps.frozen w).devAdd p.drvCpu).map (fun add => add d l f) =
      some (cpuRiscvAdd p.mainCore p.hartid d w).2 := by
  simp [cpuOps, StatefulOps.frozen]

section Starts

variable {p} {l : Links D B R} {ds : List D} {rs : List R} {s : ProbeState D B R}
  {w : CpuTable D p.numCores} {d : D}

theorem match_for (hl : p.Linked l ds rs) (hd : p.OnBoard d) :
    matchDriver p.board l (p.board.devType d) = some (p.drvFor d) := by
  unfold drvFor
  rcases hd with rfl | hd
  · rw [if_pos rfl]
    exact hl.match_rootDev
  · rw [if_neg (p.ne_root hd)]
    exact hl.match_dev hd

theorem attach_for (hl : p.Linked l ds rs) (h : p.Attached s) (hd : p.OnBoard d) :
    (s.flags.dev d).attach (matchDriver p.board l (p.board.devType d)) =
      { s.flags.dev d with drv := some (p.drvFor d) } := by
  rw [match_for hl hd]
  unfold NodeFlags.attach
  rcases h d hd with hnone | hsome
  · simp only [hnone]
  · simp only [hsome]
    rw [← hsome]

/-- The start of a device, with the answer of its callback. -/
theorem deviceStart_for (hl : p.Linked l ds rs) (h : p.Attached s) (hd : p.OnBoard d)
    (ops : Ops D B R) :
    let n : NodeFlags R := { s.flags.dev d with drv := some (p.drvFor d) }
    let answer := (ops.devAdd (p.drvFor d)).map fun add => add d l (s.flags.setDev d n)
    deviceStart p.board l ops d s =
      (⟨(s.flags.setDev d n).setDev d (n.probe answer).1,
        (if n.probed then [] else answer.toList.map fun a => (d, a)) ++ s.log⟩,
        (n.probe answer).2) := by
  simp only [deviceStart, attach_for hl h hd]

theorem Attached.deviceStart (h : p.Attached s) (hl : p.Linked l ds rs) (hd : p.OnBoard d)
    (ops : Ops D B R) : p.Attached (deviceStart p.board l ops d s).1 := by
  intro e he
  by_cases hed : e = d
  · rw [hed, deviceStart_for hl h hd, Flags.setDev_dev, NodeFlags.probe_drv]
    exact Or.inr rfl
  · rw [deviceStart_dev_ne p.board l ops hed]
    exact h e he

theorem Attached.congr (h : p.Attached s) {s' : ProbeState D B R}
    (hdev : s'.flags.dev = s.flags.dev) : p.Attached s' := by
  intro e he
  rw [hdev]
  exact h e he

/-- A start enters a CPU that is not probed, and changes nothing in the table otherwise. -/
theorem after_eq (hl : p.Linked l ds rs) (h : p.Attached s) (hd : p.OnBoard d) :
    p.cpuOps.after p.board l d s w =
      if p.isCpu d = true ∧ (s.flags.dev d).probed = false then
        (cpuRiscvAdd p.mainCore p.hartid d w).1
      else w := by
  simp only [StatefulOps.after, attach_for hl h hd, Option.bind_some]
  by_cases hcpu : p.isCpu d = true
  · rw [(p.drvFor_eq_iff hd).mpr hcpu]
    simp only [cpuOps, if_true, hcpu, true_and]
    cases (s.flags.dev d).probed <;> rfl
  · have hne : p.drvFor d ≠ p.drvCpu := mt (p.drvFor_eq_iff hd).mp hcpu
    rw [if_neg fun hcall => hcpu hcall.1]
    simp only [cpuOps, if_neg hne]
    cases p.ops.devAdd (p.drvFor d) with
    | none => rfl
    | some add => exact ite_self _

/-- The CPUs that are probed after a start. -/
theorem up_start (hl : p.Linked l ds rs) (h : p.Attached s) (hd : p.OnBoard d) :
    p.up (deviceStart p.board l (p.cpuOps.frozen w) d s).1 =
      if p.isCpu d = true ∧ (s.flags.dev d).probed = false then
        if (cpuRiscvAdd p.mainCore p.hartid d w).2 = 0 then Function.update (p.up s) d true
        else p.up s
      else p.up s := by
  have hother : ∀ e, e ≠ d →
      p.up (deviceStart p.board l (p.cpuOps.frozen w) d s).1 e = p.up s e := by
    intro e hed
    simp only [up, deviceStart_dev_ne p.board l _ hed]
  by_cases hcpu : p.isCpu d = true
  · have hown : p.up (deviceStart p.board l (p.cpuOps.frozen w) d s).1 d =
        ((s.flags.dev d).probed ||
          decide ((cpuRiscvAdd p.mainCore p.hartid d w).2 = 0)) := by
      rw [up, deviceStart_for hl h hd, Flags.setDev_dev, NodeFlags.probe_probed,
        (p.drvFor_eq_iff hd).mpr hcpu, frozen_answer_cpu, hcpu]
      rfl
    have hbefore : p.up s d = (s.flags.dev d).probed := by rw [up, hcpu, Bool.true_and]
    funext e
    by_cases hed : e = d
    · rw [hed, hown]
      cases hprobed : (s.flags.dev d).probed with
      | true => simp [hbefore, hprobed]
      | false =>
          by_cases hzero : (cpuRiscvAdd p.mainCore p.hartid d w).2 = 0
          · simp [hcpu, hzero]
          · simp [hcpu, hzero, hbefore, hprobed]
    · rw [hother e hed]
      split
      · split
        · exact (Function.update_of_ne hed ..).symm
        · rfl
      · rfl
  · rw [if_neg fun hand => hcpu hand.1]
    funext e
    by_cases hed : e = d
    · rw [hed]
      simp only [up, Bool.eq_false_iff.mpr hcpu, Bool.false_and]
    · exact hother e hed

theorem TableInv.start (hinv : p.TableInv (p.up s) w) (hl : p.Linked l ds rs)
    (h : p.Attached s) (hd : p.OnBoard d) :
    p.TableInv (p.up (deviceStart p.board l (p.cpuOps.frozen w) d s).1)
      (p.cpuOps.after p.board l d s w) := by
  rw [up_start hl h hd, after_eq hl h hd]
  split
  · rename_i hcall
    apply hinv.add hcall.1
    rw [up, hcall.2, Bool.and_false]
  · exact hinv

theorem up_congr {s' : ProbeState D B R} (hdev : s'.flags.dev = s.flags.dev) :
    p.up s' = p.up s := by
  funext e
  rw [up, up, hdev]

theorem eq_root_of_busChild (hl : p.Linked l ds rs) (hd : p.OnBoard d) {b : B}
    (hb : l.busChild d = some b) : d = p.board.devRoot ∧ b = p.board.busRoot := by
  rcases hd with rfl | hd
  · have hroot : l.busChild p.board.devRoot = some p.board.busRoot := hl.links.busChild_root
    exact ⟨rfl, Option.some.inj (hb.symm.trans hroot)⟩
  · rw [hl.links.busChild_of_ne (p.ne_root hd)] at hb
    exact absurd hb (by simp)

theorem onBoard_child (hl : p.Linked l ds rs) (d : D) (b : B) (c : D) (hd : p.OnBoard d)
    (hb : l.busChild d = some b) (hc : c ∈ l.children b) : p.OnBoard c := by
  obtain ⟨-, rfl⟩ := eq_root_of_busChild hl hd hb
  rw [hl.links.children_root] at hc
  exact Or.inr (hl.devs.mem_iff.mp hc)

theorem walked_of_mem (hl : p.Linked l ds rs) (hd : d ∈ p.devs) :
    WalkedFrom l p.board.devRoot d := by
  refine WalkedFrom.child hl.links.busChild_root ?_ (WalkedFrom.self d)
  rw [hl.links.children_root]
  exact hl.devs.mem_iff.mpr hd

theorem up_initial : p.up (ProbeState.initial : ProbeState D B R) = fun _ => false := by
  funext d
  exact Bool.and_false _

theorem up_eq_isCpu (h : ∀ d ∈ p.devs, (s.flags.dev d).probed = true) : p.up s = p.isCpu := by
  funext d
  cases hcpu : p.isCpu d with
  | false => rw [up, hcpu, Bool.false_and]
  | true => rw [up, hcpu, h d (p.isCpu_iff.mp hcpu).1, Bool.true_and]

/-- A loop that ends without an error has entered every CPU. -/
theorem cpuCount_le_of_end (hl : p.Linked l ds rs) {n : Nat} {res r : Int}
    {x : ProbeState D B R × CpuTable D p.numCores}
    (hloop : (p.cpuOps.starter p.board l).initLoop l p.board.devRoot n
      (ProbeState.initial, CpuTable.boot) res = some (x, r))
    (hr : isError r = false) : p.cpuCount ≤ p.numCores := by
  have hinv : p.Attached x.1 ∧ p.TableInv (p.up x.1) x.2 := by
    have hroot : p.OnBoard p.board.devRoot := Or.inl rfl
    refine Starter.initLoop_invariant (I := fun x : ProbeState D B R × CpuTable D p.numCores =>
      p.Attached x.1 ∧ p.TableInv (p.up x.1) x.2) hroot ?_ ?_ (onBoard_child hl) hloop
      ⟨fun _ _ => Or.inl rfl, ?_⟩
    · intro d x hd h
      exact ⟨h.1.deviceStart hl hd _, h.2.start hl h.1 hd⟩
    · intro d b x _ _ h
      have hdev := busStart_dev p.board l (p.cpuOps.frozen x.2) b x.1
      refine ⟨h.1.congr hdev, ?_⟩
      change p.TableInv (p.up (busStart p.board l _ b x.1).1) x.2
      rw [up_congr hdev]
      exact h.2
    · rw [up_initial]
      exact TableInv.boot
  have hall : ∀ d ∈ p.devs, (x.1.flags.dev d).probed = true := fun d hd =>
    (p.cpuOps.marks p.board l).initLoop_end hloop hr (walked_of_mem hl hd)
  calc
    p.cpuCount = held (p.up x.1) := congrArg held (up_eq_isCpu hall).symm
    _ = held (fun i => (x.2.cpus i).isSome) := hinv.2.count.symm
    _ ≤ Fintype.card (Fin p.numCores) := held_le _
    _ = p.numCores := Fintype.card_fin _

theorem attached_of_at {m : Finset D} (h : p.At m s) : p.Attached s := by
  intro e he
  unfold drvFor
  rcases he with rfl | he
  · rw [if_pos rfl]
    rcases h.root with heq | heq
    · exact Or.inl (congrArg NodeFlags.drv heq)
    · exact Or.inr (congrArg NodeFlags.drv heq)
  · rw [if_neg (p.ne_root he)]
    by_cases hm : e ∈ m
    · exact Or.inr (congrArg NodeFlags.drv (h.marked e he hm))
    · rcases h.unmarked e he hm with heq | heq
      · exact Or.inl (congrArg NodeFlags.drv heq)
      · exact Or.inr (congrArg NodeFlags.drv heq)

/-- In the board without the table a CPU is probed at once. -/
theorem cpu_answer (hcpu : p.isCpu d = true) (f : Flags D B R) :
    (p.ops.devAdd p.drvCpu).map (fun add => add d l f) = some 0 := by
  obtain ⟨hd, hdrv⟩ := p.isCpu_iff.mp hcpu
  obtain ⟨add, hadd, heq⟩ := p.answer d hd
  rw [← hdrv, hadd, Option.map_some, heq]
  simp [lookupAnswer, p.cpu_conf d hd hdrv]

/-- A CPU that is entered is started as any device that names nothing. -/
theorem start_same (hl : p.Linked l ds rs) (h : p.Attached s) (hd : p.OnBoard d)
    (hadd : p.isCpu d = true → (s.flags.dev d).probed = false →
      (cpuRiscvAdd p.mainCore p.hartid d w).2 = 0) :
    deviceStart p.board l (p.cpuOps.frozen w) d s = deviceStart p.board l p.ops d s := by
  rw [deviceStart_for hl h hd, deviceStart_for hl h hd]
  by_cases hcpu : p.isCpu d = true
  · cases hprobed : (s.flags.dev d).probed with
    | true => simp only [NodeFlags.probe, hprobed, if_true]
    | false =>
        rw [(p.drvFor_eq_iff hd).mpr hcpu, frozen_answer_cpu, cpu_answer hcpu,
          hadd hcpu hprobed]
  · rw [frozen_devAdd_of_ne p w (mt (p.drvFor_eq_iff hd).mp hcpu)]

/-- The table beside a state of the board without it, when no CPU was rejected. -/
structure Entered (x : ProbeState D B R × CpuTable D p.numCores) (s : ProbeState D B R) :
    Prop where
  same : x.1 = s
  place : ∃ m, p.At m s
  table : p.TableInv (p.up s) x.2
  numbered : p.Numbered (p.up s) x.2

theorem Entered.initial :
    p.Entered (ProbeState.initial, CpuTable.boot) (ProbeState.initial : ProbeState D B R) where
  same := rfl
  place := ⟨∅, FlatBoard.at_initial⟩
  table := by
    rw [up_initial]
    exact TableInv.boot
  numbered := by
    rw [up_initial]
    simp [Numbered, held, CpuTable.boot]

theorem Entered.start {x : ProbeState D B R × CpuTable D p.numCores} (h : p.Entered x s)
    (hl : p.Linked l ds rs) (hcount : p.cpuCount ≤ p.numCores) (hd : p.OnBoard d) :
    p.Entered ((p.cpuOps.starter p.board l).dev d x).1 (deviceStart p.board l p.ops d s).1 ∧
      ((p.cpuOps.starter p.board l).dev d x).2 = (deviceStart p.board l p.ops d s).2 := by
  obtain ⟨rfl, ⟨m, hat⟩, htable, hnum⟩ := h
  have hatt := attached_of_at hat
  have hadd : p.isCpu d = true → (x.1.flags.dev d).probed = false →
      (cpuRiscvAdd p.mainCore p.hartid d x.2).2 = 0 := by
    intro hcpu hprobed
    apply hnum.add_zero _ hcount hcpu
    · rw [up, hprobed, Bool.and_false]
    · intro e he
      exact (Bool.and_eq_true_iff.mp he).1
  have hsame := start_same hl hatt hd hadd
  refine ⟨⟨congrArg Prod.fst hsame, ?_, ?_, ?_⟩, congrArg Prod.snd hsame⟩
  · rcases hd with rfl | hd
    · obtain ⟨s', hstart, hat', -⟩ := hat.start_rootDev hl
      rw [hstart]
      exact ⟨m, hat'⟩
    · exact ⟨_, (hat.deviceStart hl hd).1⟩
  · rw [← hsame]
    exact htable.start hl hatt hd
  · rw [← hsame, up_start hl hatt hd]
    change p.Numbered _ (p.cpuOps.after p.board l d x.1 x.2)
    rw [after_eq hl hatt hd]
    split
    · rename_i hcall
      have hzero := hadd hcall.1 hcall.2
      rw [if_pos hzero]
      apply hnum.add _ hzero
      rw [up, hcall.2, Bool.and_false]
    · exact hnum

/-- With a place for every CPU the callbacks answer as on the board without the table. -/
theorem cpu_sim (hl : p.Linked l ds rs) (hcount : p.cpuCount ≤ p.numCores) :
    Starter.Sim (p.cpuOps.starter p.board l) l (p.ops.starter p.board l) p.OnBoard
      p.Entered where
  dev := fun d x s hd h => h.start hl hcount hd
  bus := by
    rintro d b x s hd hb ⟨rfl, ⟨m, hat⟩, htable, hnum⟩
    obtain ⟨-, rfl⟩ := eq_root_of_busChild hl hd hb
    obtain ⟨s', hstart, hat', hdev, -⟩ := hat.start_bus hl
    have hup : p.up s' = p.up x.1 := up_congr hdev
    have hbus : (p.ops.starter p.board l).bus p.board.busRoot x.1 = (s', 0) := hstart
    have hbus' : (p.cpuOps.starter p.board l).bus p.board.busRoot x = ((s', x.2), 0) :=
      congrArg (fun out : ProbeState D B R × Int => ((out.1, x.2), out.2)) hstart
    rw [hbus, hbus']
    exact ⟨⟨rfl, ⟨m, hat'⟩, hup ▸ htable, hup ▸ hnum⟩, rfl⟩
  probed := by
    rintro d x s ⟨rfl, -⟩
    rfl
  child := onBoard_child hl

theorem Entered.isolated {x : ProbeState D B R × CpuTable D p.numCores} (h : p.Entered x s)
    (hcount : p.cpuCount ≤ p.numCores) (hflags : s.flags = p.finalFlags) : p.Isolated x := by
  obtain ⟨rfl, -, htable, -⟩ := h
  have hdone : ∀ d ∈ p.devs, x.1.flags.dev d = .done (p.drvOf d) := by
    intro d hd
    rw [hflags]
    simp only [FlatBoard.finalFlags, if_neg (p.ne_root hd), if_pos hd]
  have hall : ∀ d ∈ p.devs, (x.1.flags.dev d).probed = true :=
    fun d hd => congrArg NodeFlags.probed (hdone d hd)
  refine ⟨?_, ?_, fun d hd _ _ => hall d hd⟩
  · rw [htable.count, up_eq_isCpu hall, min_eq_left hcount]
    rfl
  · have hnone : (fun d => p.isCpu d && (x.1.flags.dev d).failed) = fun _ => false := by
      funext d
      cases hcpu : p.isCpu d with
      | false => rfl
      | true =>
          rw [hdone d (p.isCpu_iff.mp hcpu).1]
          rfl
    rw [hnone, Nat.sub_eq_zero_of_le hcount]
    simp [held]

end Starts

end CpuBoard

/-- Surplus CPUs have no effect on the other devices and on the result exactly when there
are none. -/
theorem surplus_isolated_iff (p : CpuBoard D B R) (initcalls : List (Initcall D B R))
    (h : p.Registers initcalls) (hzero : ∀ c ∈ initcalls, c.result = 0) :
    p.IsolatesSurplus initcalls ↔ p.cpuCount ≤ p.numCores := by
  obtain ⟨ds, rs, hl⟩ := p.linked_of_registers h
  constructor
  · rintro ⟨n, x, hrun, -⟩
    rw [CpuBoard.init, StatefulOps.initDrivers_zero _ _ hzero] at hrun
    exact CpuBoard.cpuCount_le_of_end hl hrun rfl
  · intro hcount
    let n := max 1 p.devs.length
    have hle : pending ds ∅ ≤ n :=
      calc
        pending ds ∅ ≤ ds.length := pending_le_length ds ∅
        _ = p.devs.length := hl.devs.length_eq
        _ ≤ n := Nat.le_max_right _ _
    have hsome : (initLoop p.board (bootLinks p.board initcalls) (fun _ => p.ops) n 0
        ProbeState.initial 0).isSome :=
      FlatBoard.at_initial.initLoop_isSome hl (Nat.le_max_left _ _) hle
    obtain ⟨⟨s, r⟩, hloop⟩ := Option.isSome_iff_exists.mp hsome
    have hflags := (FlatBoard.at_initial.initLoop_end hl hloop).1
    obtain rfl := FlatBoard.at_initial.initLoop_result hl hloop
    rw [initLoop_eq_starter] at hloop
    have hrel := (CpuBoard.cpu_sim hl hcount).initLoop (Or.inl rfl) n CpuBoard.Entered.initial 0
    rw [hloop] at hrel
    cases hrun : (p.cpuOps.starter p.board (bootLinks p.board initcalls)).initLoop
        (bootLinks p.board initcalls) p.board.devRoot n (ProbeState.initial, CpuTable.boot) 0 with
    | none =>
        rw [hrun] at hrel
        cases hrel
    | some out =>
        rw [hrun] at hrel
        cases hrel with
        | some hsame =>
            refine ⟨n, out.1, ?_, hsame.1.isolated hcount hflags⟩
            rw [CpuBoard.init, StatefulOps.initDrivers_zero _ _ hzero, hrun]
            exact congrArg some (Prod.ext rfl hsame.2)

/-- The names of the devices of a board with four CPUs and a console. -/
def fourCoreName : Fin 6 → CStr
  | 0 => CStr.ofChars "root".toList
  | 1 => CStr.ofChars "cpu0".toList
  | 2 => CStr.ofChars "cpu1".toList
  | 3 => CStr.ofChars "cpu2".toList
  | 4 => CStr.ofChars "cpu3".toList
  | 5 => CStr.ofChars "uart0".toList

/-- The types of its drivers: the head, those of the root bus and the root device, that of
the CPUs and that of the console. -/
def fourCoreType : Fin 5 → TypePair
  | 0 => ⟨CStr.ofChars "none".toList, CStr.ofChars "none".toList⟩
  | 1 => ⟨CStr.ofChars "none".toList, CStr.ofChars "bus_root".toList⟩
  | 2 => ⟨CStr.ofChars "none".toList, CStr.ofChars "dev_root".toList⟩
  | 3 => ⟨CStr.ofChars "none".toList, CStr.ofChars "cpu_riscv".toList⟩
  | 4 => ⟨CStr.ofChars "ns".toList, CStr.ofChars "ns16550".toList⟩

def fourCoreBoard : Board (Fin 6) (Fin 1) (Fin 5) where
  devRoot := 0
  busRoot := 0
  head := 0
  devName := fun d => some (fourCoreName d)
  devType := fun d => fourCoreType (if d = 0 then 2 else if d = 5 then 4 else 3)
  busName := fun _ => some (CStr.ofChars "root bus".toList)
  busType := fun _ => fourCoreType 1
  drvType := fun r => some (fourCoreType r)
  busRoot_named := rootBus_named

theorem fourCoreName_ne :
    ∀ d e : Fin 6, d ≠ e → kStrcasecmp (fourCoreName d) (fourCoreName e) ≠ 0 := by
  decide +kernel

/-- That board with some of its devices and two cores. -/
def twoCores (devs : List (Fin 6)) (hroot : 0 ∉ devs) (hnodup : devs.Nodup) (hmain : 1 ∈ devs) :
    CpuBoard (Fin 6) (Fin 1) (Fin 5) where
  board := fourCoreBoard
  ops := ⟨fun r => if r = 3 ∨ r = 4 then some (lookupAnswer fourCoreBoard fun _ => []) else none,
    fun _ => none⟩
  conf := fun _ => []
  devs := devs
  drvs := [3, 4]
  drvOf := fun d => if d = 5 then 4 else 3
  drvRootBus := 1
  drvRootDev := 2
  root_notMem := hroot
  named := fun _ _ => Option.some_ne_none _
  names := pairwise_namesDiffer (fun _ => rfl) fourCoreName_ne hnodup
  types := ⟨by decide +kernel, fun _ _ => Option.some_ne_none _⟩
  drvOf_mem := by
    intro d _
    by_cases hd : d = 5
    · simp [hd]
    · simp [hd]
  drvOf_type := by
    intro d hd
    have hne : d ≠ 0 := by
      rintro rfl
      exact hroot hd
    by_cases hd5 : d = 5
    · simp [fourCoreBoard, hd5]
    · simp [fourCoreBoard, hne, hd5]
  answer := by
    intro d _
    refine ⟨lookupAnswer fourCoreBoard fun _ => [], if_pos ?_, rfl⟩
    by_cases hd : d = 5
    · simp [hd]
    · simp [hd]
  rootBus_type := rfl
  rootDev_type := rfl
  rootBus_add := rfl
  rootDev_add := rfl
  closed := fun _ _ _ hname => absurd hname List.not_mem_nil
  acyclic := by
    have hnone : ∀ d e, ¬ Names fourCoreBoard (fun _ => []) devs d e := by
      rintro d e ⟨-, -, name, hname, -⟩
      exact absurd hname List.not_mem_nil
    intro d h
    cases h with
    | single h => exact hnone _ _ h
    | tail _ h => exact hnone _ _ h
  drvCpu := 3
  numCores := 2
  mainCore := 0
  hartid := fun d => some (d.val - 1)
  cpu_conf := fun _ _ _ => rfl
  cpu_hart := fun _ _ _ => Option.some_ne_none _
  hart_inj := by
    intro d hd e he _ _ heq
    have hd0 : d ≠ 0 := by
      rintro rfl
      exact hroot hd
    have he0 : e ≠ 0 := by
      rintro rfl
      exact hroot he
    have hval := Option.some.inj heq
    have hdpos := Fin.val_ne_zero_iff.mpr hd0
    have hepos := Fin.val_ne_zero_iff.mpr he0
    apply Fin.ext
    omega
  main_mem := ⟨1, hmain, by simp, rfl⟩

/-- A registration of some devices of that board in the given order. -/
def coreInitcalls (devs : List (Fin 6)) : List (Initcall (Fin 6) (Fin 1) (Fin 5)) :=
  [busInit fourCoreBoard 1 2, ⟨[.driver 3, .driver 4], 0⟩,
    ⟨devs.map fun d => .device (some d) (some 0), 0⟩]

theorem coreInitcalls_registers (devs : List (Fin 6)) (hroot : 0 ∉ devs) (hnodup : devs.Nodup)
    (hmain : 1 ∈ devs) : (twoCores devs hroot hnodup hmain).Registers (coreInitcalls devs) := by
  simp [FlatBus.Registers, coreInitcalls, flatCalls, twoCores, busInit, fourCoreBoard]

theorem coreInitcalls_zero (devs : List (Fin 6)) : ∀ c ∈ coreInitcalls devs, c.result = 0 := by
  simp [coreInitcalls, busInit]

/-- Two CPUs and the console on a board for two cores. -/
theorem surplus_isolated_iff_none :
    (twoCores [1, 2, 5] (by decide) (by decide) (by decide)).IsolatesSurplus
      (coreInitcalls [1, 2, 5]) :=
  (surplus_isolated_iff _ _ (coreInitcalls_registers _ _ _ _) (coreInitcalls_zero _)).mpr
    (by decide +kernel)

/-- With four CPUs before the console the first two are entered and the third is rejected.
The fourth and the console are not even asked, and the result is the error. -/
theorem surplus_cpus_stop_boot :
    let p := twoCores [1, 2, 3, 4, 5] (by decide) (by decide) (by decide)
    p.Registers (coreInitcalls [1, 2, 3, 4, 5]) ∧ p.numCores < p.cpuCount ∧
      (p.init 1 (coreInitcalls [1, 2, 3, 4, 5])).map (fun x =>
        (x.2, x.1.1.log, (x.1.1.flags.dev 4).failed, (x.1.1.flags.dev 5).probed)) =
        some (-einval, [(3, -einval), (2, 0), (1, 0)], false, false) ∧
      ¬ p.IsolatesSurplus (coreInitcalls [1, 2, 3, 4, 5]) := by
  intro p
  have hregisters : p.Registers (coreInitcalls [1, 2, 3, 4, 5]) :=
    coreInitcalls_registers _ _ _ _
  have hcount : p.numCores < p.cpuCount := by decide +kernel
  refine ⟨hregisters, hcount, by decide +kernel, ?_⟩
  rintro ⟨n, x, hrun, -⟩
  obtain ⟨ds, rs, hl⟩ := p.linked_of_registers hregisters
  rw [CpuBoard.init, StatefulOps.initDrivers_zero _ _ (coreInitcalls_zero _)] at hrun
  exact absurd (CpuBoard.cpuCount_le_of_end hl hrun rfl) (not_le.mpr hcount)

end BaremetalCrt
