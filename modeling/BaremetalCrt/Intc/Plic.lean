import BaremetalCrt.Device.Mmio
import BaremetalCrt.Intc.Handlers
import BaremetalCrt.Library.WordBits
import Mathlib.Data.List.Range

/-!
# The registers of a platform controller

A platform controller has one handler for each source, a priority word for each source, and
for each context a threshold and words of enable bits. Handlers are entered and removed
together with the enable bit of their source in context 0.

## Implementation notes

The private data of the device is that of the board file. `k_intc_add_handler` and
`k_intc_remove_handler` have rejected handlers that are `NULL`.
-/

namespace BaremetalCrt

/-- `PLIC_CONTEXTS_MAX`. -/
def plicContextsMax : Nat := 64

/-- `REG_PRIORITY`. -/
def regPriority (n : Nat) : Nat := 0x000000 + n * 0x4

/-- `REG_INTR_EN`. -/
def regIntrEn (n ctx : Nat) : Nat := 0x002000 + ctx * 0x80 + n / 32 * 0x4

/-- `REG_PRIORITY_THR`. -/
def regPriorityThr (ctx : Nat) : Nat := 0x200000 + ctx * 0x1000 + 0x0

/-- `struct intc_plic_priv` and the registers of the device. -/
structure PlicState (H : Type) where
  nEvent : Nat
  nCtx : Nat
  hnd : Nat → Option H
  regs : DeviceWords

/-- The registers of a context that `intc_plic_clear_all` writes, in its order. -/
def clearedRegs (nEvent ctx : Nat) : List Nat :=
  regPriorityThr ctx :: (List.range nEvent).map regPriority ++
    (List.range' 0 ((nEvent + 31) / 32) 32).map (regIntrEn · ctx)

/-- `intc_plic_clear_all`. -/
def intcPlicClearAll (regs : DeviceWords) (nEvent nCtx : Nat) : DeviceWords × Int :=
  ((List.range nCtx).foldl (fun regs ctx =>
    (clearedRegs nEvent ctx).foldl (fun regs off => kDeviceWrite32 regs 0 off) regs) regs, 0)

/-- `intc_plic_enable_interrupt`. -/
def intcPlicEnableInterrupt (regs : DeviceWords) (event ctx : Nat) : DeviceWords × Int :=
  let regs := kDeviceWrite32 regs 1 (regPriority event)
  let regs := kDeviceWrite32 regs 0 (regPriorityThr ctx)
  let tmp := kDeviceRead32 regs (regIntrEn event ctx)
  (kDeviceWrite32 regs (tmp ||| WordBits.bit 32 (event % 32)) (regIntrEn event ctx), 0)

/-- `intc_plic_disable_interrupt`. -/
def intcPlicDisableInterrupt (regs : DeviceWords) (event ctx : Nat) : DeviceWords × Int :=
  let tmp := kDeviceRead32 regs (regIntrEn event ctx)
  (kDeviceWrite32 regs (tmp &&& ~~~WordBits.bit 32 (event % 32)) (regIntrEn event ctx), 0)

/-- A call on the controller. -/
inductive PlicCall (H : Type) where
  | add (event : Int) (handler : H)
  | remove (event : Int) (handler : H)

/-- The event number of a call. -/
def PlicCall.event {H : Type} : PlicCall H → Int
  | .add event _ => event
  | .remove event _ => event

namespace PlicState

variable {H : Type}

/-- `n_event`, by the value of `n_source` in the configuration. -/
def sources (nSource : Option (BitVec 32)) : Nat :=
  min plicSourcesMax.toNat (nSource.elim plicSourcesMax.toNat BitVec.toNat)

/-- `n_ctx`, by the value of `n_context` in the configuration. -/
def contexts (nContext : Option (BitVec 32)) : Nat :=
  min plicContextsMax (nContext.elim plicContextsMax BitVec.toNat)

/-- `intc_plic_add`, with the results of mapping its registers and of entering its handlers at
its parents, and with the values of `n_source` and `n_context` in its configuration. -/
def intcPlicAdd (s : PlicState H) (mmap parents : Int) (nSource nContext : Option (BitVec 32)) :
    PlicState H × Int :=
  if mmap ≠ 0 then (s, mmap)
  else if parents ≠ 0 then (s, parents)
  else
    let nEvent := sources nSource
    let nCtx := contexts nContext
    let out := intcPlicClearAll s.regs nEvent nCtx
    ({ s with nEvent, nCtx, regs := out.1 }, out.2)

/-- `intc_plic_add_handler`. -/
def intcPlicAddHandler (s : PlicState H) (event : Int) (handler : H) : PlicState H × Int :=
  if event < 0 ∨ plicSourcesMax ≤ event then (s, -einval)
  else if s.hnd event.toNat ≠ none then (s, -einval)
  else
    let out := intcPlicEnableInterrupt s.regs event.toNat 0
    ({ s with hnd := Function.update s.hnd event.toNat (some handler), regs := out.1 }, out.2)

/-- `intc_plic_remove_handler`. -/
def intcPlicRemoveHandler (s : PlicState H) (event : Int) (_handler : H) : PlicState H × Int :=
  if event < 0 ∨ plicSourcesMax ≤ event then (s, -einval)
  else if s.hnd event.toNat = none then (s, -einval)
  else
    let out := intcPlicDisableInterrupt s.regs event.toNat 0
    if out.2 ≠ 0 then ({ s with regs := out.1 }, out.2)
    else ({ s with hnd := Function.update s.hnd event.toNat none, regs := out.1 }, 0)

/-- One call, with its result. -/
def call (s : PlicState H) : PlicCall H → PlicState H × Int
  | .add event handler => s.intcPlicAddHandler event handler
  | .remove event handler => s.intcPlicRemoveHandler event handler

/-- The controller after a sequence of calls. -/
def calls (s : PlicState H) (cs : List (PlicCall H)) : PlicState H :=
  cs.foldl (fun s c => (s.call c).1) s

/-- The enable bit of a source in context 0. -/
def enableBit (s : PlicState H) (e : Nat) : Bool :=
  (kDeviceRead32 s.regs (regIntrEn e 0)).getLsbD (e % 32)

/-- The priority of a source. -/
def priority (s : PlicState H) (e : Nat) : BitVec 32 := kDeviceRead32 s.regs (regPriority e)

/-- A source is enabled exactly if it has a handler, and then has priority 1. -/
structure Agrees (s : PlicState H) (e : Nat) : Prop where
  enable_iff : s.enableBit e = true ↔ s.hnd e ≠ none
  priority_eq : s.enableBit e = true → s.priority e = 1

/-- The laws of a controller: its sources agree, a rejected call changes nothing, and a call
changes the enable bit and the handler of no source but its own. -/
structure Lawful (s : PlicState H) : Prop where
  agrees : ∀ e < s.nEvent, s.Agrees e
  rejected : ∀ c, (s.call c).2 ≠ 0 → (s.call c).1 = s
  frame : ∀ c (e : Nat), e < plicSourcesMax.toNat → (e : Int) ≠ c.event →
    (s.call c).1.enableBit e = s.enableBit e ∧ (s.call c).1.hnd e = s.hnd e

end PlicState

section Registers

variable (regs : DeviceWords) {e f : Nat}

theorem kDeviceRead32_foldl_zero (offs : List Nat) (off : Nat) :
    kDeviceRead32 (offs.foldl (fun regs off => kDeviceWrite32 regs 0 off) regs) off =
      if off ∈ offs then 0 else kDeviceRead32 regs off := by
  induction offs generalizing regs with
  | nil => rfl
  | cons a offs ih =>
      rw [List.foldl_cons, ih]
      by_cases hoff : off ∈ offs
      · rw [if_pos hoff, if_pos (List.mem_cons_of_mem a hoff)]
      · rw [if_neg hoff]
        by_cases ha : off = a
        · subst ha
          rw [if_pos List.mem_cons_self, kDeviceRead32_write_self]
        · rw [if_neg (List.not_mem_cons_of_ne_of_not_mem ha hoff),
            kDeviceRead32_write_of_ne _ _ ha]

theorem intcPlicClearAll_read (nEvent nCtx off : Nat) :
    kDeviceRead32 (intcPlicClearAll regs nEvent nCtx).1 off =
      if ∃ ctx < nCtx, off ∈ clearedRegs nEvent ctx then 0 else kDeviceRead32 regs off := by
  rw [intcPlicClearAll, ← List.foldl_flatMap, kDeviceRead32_foldl_zero]
  simp only [List.mem_flatMap, List.mem_range]

/-- The words of enable bits of all sources are cleared. -/
theorem regIntrEn_mem_clearedRegs {nEvent ctx : Nat} (he : e < nEvent) :
    regIntrEn e ctx ∈ clearedRegs nEvent ctx := by
  have hmem : 32 * (e / 32) ∈ List.range' 0 ((nEvent + 31) / 32) 32 := by
    rw [List.mem_range']
    exact ⟨e / 32, by omega, by omega⟩
  have hoff : regIntrEn (32 * (e / 32)) ctx = regIntrEn e ctx := by
    rw [regIntrEn, regIntrEn, Nat.mul_div_cancel_left _ (by decide : 0 < 32)]
  rw [clearedRegs]
  apply List.mem_append_right
  exact List.mem_map.mpr ⟨_, hmem, hoff⟩

theorem regIntrEn_ne_regPriority (he : e < 64) : regIntrEn f 0 ≠ regPriority e := by
  simp only [regIntrEn, regPriority]
  omega

theorem regIntrEn_ne_regPriorityThr (hf : f < 64) : regIntrEn f 0 ≠ regPriorityThr 0 := by
  simp only [regIntrEn, regPriorityThr]
  omega

theorem regPriority_ne_regPriorityThr (hf : f < 64) : regPriority f ≠ regPriorityThr 0 := by
  simp only [regPriority, regPriorityThr]
  omega

theorem regPriority_inj : regPriority f = regPriority e ↔ f = e := by
  simp only [regPriority]
  omega

/-- A word that differs in the bit of one source is written, and the bits of all other sources
are left, those in the same word too. -/
theorem write_enableBit {w : BitVec 32} {v : Bool}
    (hw : ∀ j, w.getLsbD j =
      if j = e % 32 then v else (kDeviceRead32 regs (regIntrEn e 0)).getLsbD j) (f : Nat) :
    (kDeviceRead32 (kDeviceWrite32 regs w (regIntrEn e 0)) (regIntrEn f 0)).getLsbD (f % 32) =
      if f = e then v else (kDeviceRead32 regs (regIntrEn f 0)).getLsbD (f % 32) := by
  by_cases hword : f / 32 = e / 32
  · have hoff : regIntrEn f 0 = regIntrEn e 0 := by rw [regIntrEn, regIntrEn, hword]
    have hsame : f % 32 = e % 32 ↔ f = e := by omega
    rw [hoff, kDeviceRead32_write_self, hw]
    simp only [hsame]
  · have hoff : regIntrEn f 0 ≠ regIntrEn e 0 := by
      simp only [regIntrEn]
      omega
    have hne : f ≠ e := fun heq => hword (congrArg (· / 32) heq)
    rw [kDeviceRead32_write_of_ne _ _ hoff, if_neg hne]

theorem enableInterrupt_bit (he : e < 64) (hf : f < 64) :
    (kDeviceRead32 (intcPlicEnableInterrupt regs e 0).1 (regIntrEn f 0)).getLsbD (f % 32) =
      if f = e then true else (kDeviceRead32 regs (regIntrEn f 0)).getLsbD (f % 32) := by
  have hother : kDeviceRead32 (kDeviceWrite32 (kDeviceWrite32 regs 1 (regPriority e)) 0
      (regPriorityThr 0)) (regIntrEn f 0) = kDeviceRead32 regs (regIntrEn f 0) := by
    rw [kDeviceRead32_write_of_ne _ _ (regIntrEn_ne_regPriorityThr hf),
      kDeviceRead32_write_of_ne _ _ (regIntrEn_ne_regPriority he)]
  rw [← hother]
  exact write_enableBit _ (WordBits.getLsbD_or_bit _ (Nat.mod_lt _ (by decide))) f

theorem enableInterrupt_priority (hf : f < 64) :
    kDeviceRead32 (intcPlicEnableInterrupt regs e 0).1 (regPriority f) =
      if f = e then 1 else kDeviceRead32 regs (regPriority f) := by
  rw [intcPlicEnableInterrupt, kDeviceRead32_write_of_ne _ _ (regIntrEn_ne_regPriority hf).symm,
    kDeviceRead32_write_of_ne _ _ (regPriority_ne_regPriorityThr hf)]
  by_cases hfe : f = e
  · rw [hfe, kDeviceRead32_write_self, if_pos rfl]
  · rw [kDeviceRead32_write_of_ne _ _ (fun h => hfe (regPriority_inj.mp h)), if_neg hfe]

theorem disableInterrupt_bit (e f : Nat) :
    (kDeviceRead32 (intcPlicDisableInterrupt regs e 0).1 (regIntrEn f 0)).getLsbD (f % 32) =
      if f = e then false else (kDeviceRead32 regs (regIntrEn f 0)).getLsbD (f % 32) :=
  write_enableBit _ (WordBits.getLsbD_and_not_bit _ (Nat.mod_lt _ (by decide))) f

theorem disableInterrupt_priority (hf : f < 64) :
    kDeviceRead32 (intcPlicDisableInterrupt regs e 0).1 (regPriority f) =
      kDeviceRead32 regs (regPriority f) :=
  kDeviceRead32_write_of_ne _ _ (regIntrEn_ne_regPriority hf).symm

end Registers

section Calls

variable {H : Type} {s : PlicState H} {e : Nat}

namespace PlicState

/-- What a call can do: be rejected and change nothing, or set or clear the handler and the bit
of its source. -/
inductive Outcome (s : PlicState H) (event : Int) : PlicState H × Int → Prop
  | rejected (r : Int) (hr : r ≠ 0) : Outcome s event (s, r)
  | added (n : Nat) (hn : n < 64) (hevent : event = n) (handler : H) :
      Outcome s event
        ({ s with
            hnd := Function.update s.hnd n (some handler)
            regs := (intcPlicEnableInterrupt s.regs n 0).1 }, 0)
  | removed (n : Nat) (hn : n < 64) (hevent : event = n) :
      Outcome s event
        ({ s with
            hnd := Function.update s.hnd n none
            regs := (intcPlicDisableInterrupt s.regs n 0).1 }, 0)

theorem eq_toNat_of_range {event : Int} (h : ¬ (event < 0 ∨ plicSourcesMax ≤ event)) :
    event.toNat < 64 ∧ event = event.toNat := by
  simp only [plicSourcesMax, not_or, not_lt, not_le] at h
  omega

theorem call_outcome (s : PlicState H) (c : PlicCall H) : Outcome s c.event (s.call c) := by
  cases c with
  | add event handler =>
      simp only [call, intcPlicAddHandler]
      split
      · exact .rejected _ (by decide)
      · rename_i hrange
        obtain ⟨hlt, heq⟩ := eq_toNat_of_range hrange
        split
        · exact .rejected _ (by decide)
        · exact .added _ hlt heq handler
  | remove event handler =>
      simp only [call, intcPlicRemoveHandler]
      split
      · exact .rejected _ (by decide)
      · rename_i hrange
        obtain ⟨hlt, heq⟩ := eq_toNat_of_range hrange
        split
        · exact .rejected _ (by decide)
        · exact .removed _ hlt heq

theorem Agrees.call (h : s.Agrees e) (he : e < 64) (c : PlicCall H) : (s.call c).1.Agrees e := by
  have hout := call_outcome s c
  generalize s.call c = out at hout
  cases hout with
  | rejected r hr => exact h
  | added n hn hevent handler =>
      by_cases hen : e = n
      · subst hen
        constructor
        · simp [enableBit, enableInterrupt_bit s.regs hn he]
        · intro _
          exact (enableInterrupt_priority s.regs he).trans (if_pos rfl)
      · constructor
        · simp only [enableBit, enableInterrupt_bit s.regs hn he, if_neg hen,
            Function.update_of_ne hen]
          exact h.enable_iff
        · simp only [enableBit, enableInterrupt_bit s.regs hn he, if_neg hen, priority,
            enableInterrupt_priority s.regs he]
          exact h.priority_eq
  | removed n hn hevent =>
      by_cases hen : e = n
      · subst hen
        constructor
        · simp [enableBit, disableInterrupt_bit]
        · simp [enableBit, disableInterrupt_bit]
      · constructor
        · simp only [enableBit, disableInterrupt_bit, if_neg hen, Function.update_of_ne hen]
          exact h.enable_iff
        · simp only [enableBit, disableInterrupt_bit, if_neg hen, priority,
            disableInterrupt_priority s.regs he]
          exact h.priority_eq

theorem call_nEvent (s : PlicState H) (c : PlicCall H) : (s.call c).1.nEvent = s.nEvent := by
  have hout := call_outcome s c
  generalize s.call c = out at hout
  cases hout <;> rfl

theorem call_rejected (c : PlicCall H) (hr : (s.call c).2 ≠ 0) : (s.call c).1 = s := by
  have hout := call_outcome s c
  generalize s.call c = out at hout hr
  cases hout with
  | rejected r _ => rfl
  | added n hn hevent handler => exact absurd rfl hr
  | removed n hn hevent => exact absurd rfl hr

theorem call_frame (c : PlicCall H) (he : e < 64) (hne : (e : Int) ≠ c.event) :
    (s.call c).1.enableBit e = s.enableBit e ∧ (s.call c).1.hnd e = s.hnd e := by
  have hout := call_outcome s c
  generalize s.call c = out at hout
  cases hout with
  | rejected r _ => exact ⟨rfl, rfl⟩
  | added n hn hevent handler =>
      have hen : e ≠ n := fun heq => hne (heq ▸ hevent.symm)
      refine ⟨?_, Function.update_of_ne hen ..⟩
      exact (enableInterrupt_bit s.regs hn he).trans (if_neg hen)
  | removed n hn hevent =>
      have hen : e ≠ n := fun heq => hne (heq ▸ hevent.symm)
      refine ⟨?_, Function.update_of_ne hen ..⟩
      exact (disableInterrupt_bit s.regs n e).trans (if_neg hen)

/-- Sources that agree keep agreeing, in every sequence of calls. -/
theorem calls_agrees (hle : s.nEvent ≤ 64) (h : ∀ e < s.nEvent, s.Agrees e)
    (cs : List (PlicCall H)) : ∀ e < (s.calls cs).nEvent, (s.calls cs).Agrees e := by
  induction cs generalizing s with
  | nil => exact h
  | cons c cs ih =>
      apply ih
      · rw [call_nEvent]
        exact hle
      · rw [call_nEvent]
        exact fun e he => (h e he).call (Nat.lt_of_lt_of_le he hle) c

/-- A controller without handlers agrees exactly where it has no enable bit set. -/
theorem agrees_iff_of_empty (hs : s.hnd e = none) : s.Agrees e ↔ s.enableBit e = false := by
  constructor
  · intro h
    exact Bool.eq_false_iff.mpr fun hset => h.enable_iff.mp hset hs
  · intro h
    exact ⟨by simp [h, hs], by simp [h]⟩

theorem intcPlicAdd_success {mmap parents : Int} {nSource nContext : Option (BitVec 32)}
    (h : (s.intcPlicAdd mmap parents nSource nContext).2 = 0) : mmap = 0 ∧ parents = 0 := by
  by_cases hmmap : mmap = 0
  · refine ⟨hmmap, ?_⟩
    by_contra hparents
    simp only [intcPlicAdd, hmmap, ne_eq, not_true_eq_false, if_false, hparents,
      not_false_eq_true, if_true] at h
  · simp only [intcPlicAdd, ne_eq, hmmap, not_false_eq_true, if_true] at h

theorem contexts_eq_zero_iff (nContext : Option (BitVec 32)) :
    contexts nContext = 0 ↔ nContext = some 0 := by
  cases nContext with
  | none => simp [contexts, plicContextsMax]
  | some n =>
      have hn : n.toNat = 0 ↔ n = 0 := by
        rw [← BitVec.toNat_inj]
        rfl
      simp [contexts, plicContextsMax, hn]

/-- The enable bits after the controller was added: those of its sources are cleared, unless no
context is. -/
theorem intcPlicAdd_enableBit (s : PlicState H) {nSource : Option (BitVec 32)}
    (nContext : Option (BitVec 32)) (he : e < sources nSource) :
    (s.intcPlicAdd 0 0 nSource nContext).1.enableBit e =
      if nContext = some 0 then s.enableBit e else false := by
  change (kDeviceRead32 (intcPlicClearAll s.regs (sources nSource) (contexts nContext)).1
    (regIntrEn e 0)).getLsbD (e % 32) = _
  rw [intcPlicClearAll_read]
  by_cases hzero : nContext = some 0
  · have hnone : ¬ ∃ ctx < contexts nContext,
        regIntrEn e 0 ∈ clearedRegs (sources nSource) ctx := by
      rw [(contexts_eq_zero_iff nContext).mpr hzero]
      exact fun ⟨_, hctx, _⟩ => Nat.not_lt_zero _ hctx
    rw [if_neg hnone, if_pos hzero]
    rfl
  · have hpos : 0 < contexts nContext :=
      Nat.pos_of_ne_zero (mt (contexts_eq_zero_iff nContext).mp hzero)
    rw [if_pos ⟨0, hpos, regIntrEn_mem_clearedRegs he⟩, if_neg hzero]
    exact BitVec.getLsbD_zero

/-- After the controller was added, its laws hold in every sequence of calls exactly if the
configuration does not say that there is no context, or the enable bits of the sources were clear
before. -/
theorem plic_lawful_iff (s : PlicState H) (hs : ∀ e, s.hnd e = none) (mmap parents : Int)
    (nSource nContext : Option (BitVec 32))
    (hadd : (s.intcPlicAdd mmap parents nSource nContext).2 = 0) :
    (∀ cs, ((s.intcPlicAdd mmap parents nSource nContext).1.calls cs).Lawful) ↔
      nContext ≠ some 0 ∨ ∀ e < sources nSource, s.enableBit e = false := by
  obtain ⟨rfl, rfl⟩ := intcPlicAdd_success hadd
  have hempty : ∀ e, (s.intcPlicAdd 0 0 nSource nContext).1.hnd e = none := hs
  constructor
  · intro h
    by_cases hzero : nContext = some 0
    · refine Or.inr fun e he => ?_
      have hbit := (agrees_iff_of_empty (hempty e)).mp ((h []).agrees e he)
      rwa [intcPlicAdd_enableBit s nContext he, if_pos hzero] at hbit
    · exact Or.inl hzero
  · intro h cs
    refine ⟨calls_agrees (min_le_left _ _) (fun e he => ?_) cs, fun c => call_rejected c,
      fun c e he => call_frame c he⟩
    rw [agrees_iff_of_empty (hempty e), intcPlicAdd_enableBit s nContext he]
    by_cases hzero : nContext = some 0
    · rw [if_pos hzero]
      exact h.resolve_left (not_not.mpr hzero) e he
    · rw [if_neg hzero]

/-- Without the two values in its configuration, the controller is lawful whatever its registers
hold after reset. -/
theorem plic_lawful_iff_default :
    ((⟨0, 0, fun _ => none, fun _ => 0xdeadbeef⟩ : PlicState Bool).intcPlicAdd 0 0 none none
      |>.1.calls [.add 37 true, .add 5 false, .remove 37 true, .add 64 true]).Lawful :=
  (plic_lawful_iff _ (fun _ => rfl) 0 0 none none rfl).mpr (Or.inl nofun) _

/-- With no context in its configuration, no register is cleared, and source 1 is enabled without
a handler. -/
theorem plic_enabled_without_handler :
    let out := (⟨0, 0, fun _ => none, fun _ => 0xffffffff⟩ : PlicState Bool).intcPlicAdd 0 0 none
      (some 0)
    out.2 = 0 ∧ 1 < out.1.nEvent ∧ out.1.enableBit 1 = true ∧ out.1.hnd 1 = none := by
  decide

end PlicState

/-- The places of a platform controller in the state of all controllers are its table. -/
def IntcState.IsTable {I : Type} (s : IntcState I H) (c : I) (p : PlicState H) : Prop :=
  ∀ e : Nat, e < 64 → s.slots c e = p.hnd e

/-- A handler is entered at its place as in the table. -/
theorem intcPlicAddHandler_isTable {I : Type} [DecidableEq I] {s : IntcState I H} {c : I}
    {p : PlicState H} (h : s.IsTable c p) (event : Int) (handler : H) :
    (intcPlicAddHandler c event handler s).2 = (p.intcPlicAddHandler event handler).2 ∧
      (intcPlicAddHandler c event handler s).1.IsTable c
        (p.intcPlicAddHandler event handler).1 := by
  unfold intcPlicAddHandler PlicState.intcPlicAddHandler
  by_cases hrange : event < 0 ∨ plicSourcesMax ≤ event
  · rw [if_pos hrange, if_pos hrange]
    exact ⟨rfl, h⟩
  · obtain ⟨hlt, heq⟩ := PlicState.eq_toNat_of_range hrange
    have hslot : s.slots c event = p.hnd event.toNat := by
      rw [← h _ hlt, ← heq]
    rw [if_neg hrange, if_neg hrange, hslot]
    by_cases hfree : p.hnd event.toNat = none
    · rw [if_neg (not_not.mpr hfree), if_neg (not_not.mpr hfree)]
      refine ⟨rfl, fun e he => ?_⟩
      simp only [Function.update_self]
      by_cases hen : e = event.toNat
      · rw [hen, ← heq, Function.update_self, Function.update_self]
      · have hne : (e : Int) ≠ event := fun hcast => hen (by omega)
        rw [Function.update_of_ne hne, Function.update_of_ne hen]
        exact h e he
    · rw [if_pos hfree, if_pos hfree]
      exact ⟨rfl, h⟩

end Calls

end BaremetalCrt
