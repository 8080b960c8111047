import BaremetalCrt.Library.Runs
import BaremetalCrt.Memory.Mappings
import BaremetalCrt.Sys.MemRoutines
import Mathlib.Logic.Function.Basic

/-!
# The break

`k_sys_brk` moves the end of the data segment inside the brk area and clears what it adds
and, if the build asks for it, what it takes away. It reads the current break before it takes
the lock of the brk area. Calls that are made one at a time give out clear memory only; where
calls overlap, the value that was read may be out of date in the locked section.
-/

namespace BaremetalCrt

open LabelledSystem LittleEndian

/-- A build with its `CONFIG_BRK_CLEAR_AT_SHRINK`. -/
structure BrkConfig extends MemConfig where
  clearAtShrink : Bool

/-- The section of `k_sys_brk` under the lock, with the break that was read before. -/
def brkLocked (cfg : BrkConfig) (h : HeapState) (brkCur addr : Nat) : HeapState × Int :=
  if addr = 0 then (h, cfg.ptrToInt brkCur)
  else if addr < h.brkTop ∨ h.brkTop + cfg.brkSize < addr then (h, -enomem)
  else
    let mem :=
      if brkCur < addr then (kMemset cfg.toTarget h.mem brkCur 0 (addr - brkCur)).1
      else if cfg.clearAtShrink then (kMemset cfg.toTarget h.mem addr 0 (brkCur - addr)).1
      else h.mem
    ({ h with mem := mem, brkCur := addr }, cfg.ptrToInt addr)

/-- `k_sys_brk` without other calls between its read of the break and its locked section. -/
def kSysBrk (cfg : BrkConfig) (h : HeapState) (addr : Nat) : HeapState × Int :=
  brkLocked cfg h h.brkCur addr

/-- The address can be a break. -/
def InBrkArea (cfg : BrkConfig) (h : HeapState) (addr : Nat) : Prop :=
  h.brkTop ≤ addr ∧ addr ≤ h.brkTop + cfg.brkSize

instance (cfg : BrkConfig) (h : HeapState) (addr : Nat) : Decidable (InBrkArea cfg h addr) :=
  inferInstanceAs (Decidable (_ ∧ _))

/-- A program stores a byte below the break; elsewhere it has no memory of its own. -/
def userWrite (h : HeapState) (a : Nat) (v : UInt8) : Option HeapState :=
  if h.brkTop ≤ a ∧ a < h.brkCur then some { h with mem := Function.update h.mem a v } else none

section Locked

variable {cfg : BrkConfig} {h : HeapState} {brkCur addr : Nat}

theorem brkLocked_null : brkLocked cfg h brkCur 0 = (h, cfg.ptrToInt brkCur) := if_pos rfl

theorem brkLocked_outside (hne : addr ≠ 0) (hout : ¬ InBrkArea cfg h addr) :
    brkLocked cfg h brkCur addr = (h, -enomem) := by
  unfold InBrkArea at hout
  rw [brkLocked, if_neg hne, if_pos (by omega)]

/-- What an accepted call clears: from the lower to the higher of the two addresses. -/
theorem brkLocked_expand (hne : addr ≠ 0) (hin : InBrkArea cfg h addr) (hlt : brkCur < addr) :
    brkLocked cfg h brkCur addr =
      ({ h with mem := copy h.mem brkCur (fun _ => 0) (addr - brkCur), brkCur := addr },
        cfg.ptrToInt addr) := by
  obtain ⟨hlow, hhigh⟩ := hin
  rw [brkLocked, if_neg hne, if_neg (by omega)]
  simp only [if_pos hlt, kMemset_eq_copy]
  rfl

theorem brkLocked_shrink (hne : addr ≠ 0) (hin : InBrkArea cfg h addr) (hle : addr ≤ brkCur) :
    brkLocked cfg h brkCur addr =
      ({ h with
          mem := if cfg.clearAtShrink then copy h.mem addr (fun _ => 0) (brkCur - addr) else h.mem
          brkCur := addr },
        cfg.ptrToInt addr) := by
  obtain ⟨hlow, hhigh⟩ := hin
  rw [brkLocked, if_neg hne, if_neg (by omega)]
  simp only [if_neg (Nat.not_lt.mpr hle), kMemset_eq_copy]
  rfl

/-- An accepted call makes its address the break. -/
theorem brkLocked_accepted (brkCur : Nat) (hne : addr ≠ 0) (hin : InBrkArea cfg h addr) :
    let reply := brkLocked cfg h brkCur addr
    reply.2 = cfg.ptrToInt addr ∧ reply.1.brkCur = addr ∧ reply.1.brkTop = h.brkTop := by
  rcases Nat.lt_or_ge brkCur addr with hlt | hge
  · rw [brkLocked_expand hne hin hlt]
    exact ⟨rfl, rfl, rfl⟩
  · rw [brkLocked_shrink hne hin hge]
    exact ⟨rfl, rfl, rfl⟩

/-- Bytes below both breaks and bytes behind both breaks stay. -/
theorem brkLocked_mem_outside (hne : addr ≠ 0) (hin : InBrkArea cfg h addr) {a : Nat}
    (ha : a < min brkCur addr ∨ max brkCur addr ≤ a) :
    (brkLocked cfg h brkCur addr).1.mem a = h.mem a := by
  rcases Nat.lt_or_ge brkCur addr with hlt | hge
  · rw [brkLocked_expand hne hin hlt]
    dsimp only
    exact copy_of_outside (by omega)
  · rw [brkLocked_shrink hne hin hge]
    dsimp only
    split
    · exact copy_of_outside (by omega)
    · rfl

/-- Bytes between the breaks are cleared by an expansion. -/
theorem brkLocked_mem_added (hne : addr ≠ 0) (hin : InBrkArea cfg h addr) {a : Nat}
    (hlow : brkCur ≤ a) (hhigh : a < addr) : (brkLocked cfg h brkCur addr).1.mem a = 0 := by
  rw [brkLocked_expand hne hin (by omega)]
  dsimp only
  exact copy_of_mem hlow (by omega)

/-- Bytes between the breaks are cleared by a reduction, if the build asks for it. -/
theorem brkLocked_mem_removed (hne : addr ≠ 0) (hin : InBrkArea cfg h addr)
    (hclear : cfg.clearAtShrink = true) {a : Nat} (hlow : addr ≤ a) (hhigh : a < brkCur) :
    (brkLocked cfg h brkCur addr).1.mem a = 0 := by
  rw [brkLocked_shrink hne hin (by omega), if_pos hclear]
  dsimp only
  exact copy_of_mem hlow (by omega)

end Locked

section History

/-- The heap and the highest break that was granted so far. -/
structure BrkHistory where
  heap : HeapState
  high : Nat

/-- A call of `k_sys_brk`, or a program's store. -/
inductive BrkEvent where
  | brk (addr : Nat)
  | write (a : Nat) (v : UInt8)

/-- One event of a history of calls that are made one at a time. -/
def brkStep (cfg : BrkConfig) (s : BrkHistory) : BrkEvent → Option BrkHistory
  | .brk addr =>
      let h := (kSysBrk cfg s.heap addr).1
      some ⟨h, max s.high h.brkCur⟩
  | .write a v => (userWrite s.heap a v).map fun h => { s with heap := h }

/-- The heap after `k_mem_init`. -/
def brkHeap (cfg : BrkConfig) (mem : Mem) : HeapState :=
  (kMemInit cfg.toMemConfig (HeapState.boot mem)).1

/-- The start of a history. -/
def brkStart (cfg : BrkConfig) (mem : Mem) : BrkHistory :=
  ⟨brkHeap cfg mem, (brkHeap cfg mem).brkCur⟩

/-- The break is in the area, and what has been given back is clear. -/
structure BrkInv (cfg : BrkConfig) (s : BrkHistory) : Prop where
  area : InBrkArea cfg s.heap s.heap.brkCur
  high : s.heap.brkCur ≤ s.high
  clear : ∀ a, s.heap.brkCur ≤ a → a < s.high → s.heap.mem a = 0

variable {cfg : BrkConfig} {s s' : BrkHistory} {addr : Nat}

/-- After `k_mem_init` the brk area is empty. -/
theorem brkHeap_brkCur (cfg : BrkConfig) (mem : Mem) :
    (brkHeap cfg mem).brkCur = (brkHeap cfg mem).brkTop := by
  unfold brkHeap kMemInit
  dsimp only
  generalize hstart : HeapState.setNode _ _ = h
  have heq : h.brkCur = h.brkTop := by
    rw [← hstart]
    rfl
  rcases kMemNodeAllocPagesNolock_cases cfg.toTarget h cfg.brkSize with
    ⟨r, hneg, halloc, -⟩ | ⟨i, -, -, -, halloc⟩
  · rw [halloc, if_pos hneg]
    exact heq
  · rw [halloc, if_neg (by omega)]

theorem brkStart_inv (cfg : BrkConfig) (mem : Mem) : BrkInv cfg (brkStart cfg mem) where
  area := by
    change InBrkArea cfg (brkHeap cfg mem) (brkHeap cfg mem).brkCur
    rw [InBrkArea, brkHeap_brkCur]
    omega
  high := Nat.le_refl _
  clear := fun a hlow hhigh => absurd hhigh (Nat.not_lt.mpr hlow)

/-- The bytes behind the new break, up to the highest one that was ever granted, are clear. -/
theorem BrkInv.clear_above (h : BrkInv cfg s) (hclear : cfg.clearAtShrink = true)
    (hne : addr ≠ 0) (hin : InBrkArea cfg s.heap addr) {a : Nat} (hlow : addr ≤ a)
    (hhigh : a < max s.high addr) : (kSysBrk cfg s.heap addr).1.mem a = 0 := by
  rcases Nat.lt_or_ge a s.heap.brkCur with hbelow | habove
  · exact brkLocked_mem_removed hne hin hclear hlow hbelow
  · rw [kSysBrk, brkLocked_mem_outside hne hin (by omega)]
    exact h.clear a habove (by omega)

theorem BrkInv.accepted (h : BrkInv cfg s) (hclear : cfg.clearAtShrink = true) (hne : addr ≠ 0)
    (hin : InBrkArea cfg s.heap addr) :
    BrkInv cfg ⟨(kSysBrk cfg s.heap addr).1,
      max s.high (kSysBrk cfg s.heap addr).1.brkCur⟩ := by
  have hcur : (kSysBrk cfg s.heap addr).1.brkCur = addr := (brkLocked_accepted _ hne hin).2.1
  have htop : (kSysBrk cfg s.heap addr).1.brkTop = s.heap.brkTop :=
    (brkLocked_accepted _ hne hin).2.2
  refine ⟨?_, Nat.le_max_right _ _, fun a hlow hhigh => ?_⟩
  · dsimp only
    rw [InBrkArea, htop, hcur]
    exact hin
  · dsimp only at hlow hhigh
    rw [hcur] at hlow hhigh
    exact h.clear_above hclear hne hin hlow hhigh

/-- A store below the break changes the byte and nothing else. -/
theorem userWrite_eq_some_iff {h h' : HeapState} {a : Nat} {v : UInt8} :
    userWrite h a v = some h' ↔
      (h.brkTop ≤ a ∧ a < h.brkCur) ∧ { h with mem := Function.update h.mem a v } = h' := by
  unfold userWrite
  split
  · rename_i hin
    simp [hin]
  · rename_i hout
    simp [hout]

theorem BrkInv.step (hclear : cfg.clearAtShrink = true) (h : BrkInv cfg s) {l : BrkEvent}
    (hl : brkStep cfg s l = some s') : BrkInv cfg s' := by
  cases l with
  | brk addr =>
      obtain rfl := Option.some.inj hl
      by_cases hne : addr = 0
      · subst hne
        simp only [kSysBrk, brkLocked_null, Nat.max_eq_left h.high]
        exact h
      · by_cases hin : InBrkArea cfg s.heap addr
        · exact h.accepted hclear hne hin
        · simp only [kSysBrk, brkLocked_outside hne hin, Nat.max_eq_left h.high]
          exact h
  | write a v =>
      obtain ⟨heap, hwrite, rfl⟩ := Option.map_eq_some_iff.mp hl
      obtain ⟨⟨-, hbelow⟩, rfl⟩ := userWrite_eq_some_iff.mp hwrite
      refine ⟨h.area, h.high, fun b hlow hhigh => ?_⟩
      change s.heap.brkCur ≤ b at hlow
      change Function.update s.heap.mem a v b = 0
      rw [Function.update_of_ne (by omega)]
      exact h.clear b hlow hhigh

theorem BrkInv.run (hclear : cfg.clearAtShrink = true) {mem : Mem} {ls : List BrkEvent}
    (hrun : exec (brkStep cfg) (brkStart cfg mem) ls = some s) : BrkInv cfg s :=
  Reachable.invariant (fun _ _ _ h hl => h.step hclear hl) (brkStart_inv cfg mem) ⟨ls, hrun⟩

/-- Calls that are made one at a time keep the break in its area and give out clear memory. -/
theorem brk_history_clear (cfg : BrkConfig) (hclear : cfg.clearAtShrink = true) (mem : Mem)
    (ls : List BrkEvent) (s : BrkHistory)
    (hrun : exec (brkStep cfg) (brkStart cfg mem) ls = some s) :
    (s.heap.brkTop ≤ s.heap.brkCur ∧ s.heap.brkCur ≤ s.heap.brkTop + cfg.brkSize) ∧
    kSysBrk cfg s.heap 0 = (s.heap, cfg.ptrToInt s.heap.brkCur) ∧
    (∀ addr ≠ 0, addr < s.heap.brkTop ∨ s.heap.brkTop + cfg.brkSize < addr →
      kSysBrk cfg s.heap addr = (s.heap, -enomem)) ∧
    ∀ addr ≠ 0, s.heap.brkTop ≤ addr → addr ≤ s.heap.brkTop + cfg.brkSize →
      let reply := kSysBrk cfg s.heap addr
      reply.2 = cfg.ptrToInt addr ∧ reply.1.brkCur = addr ∧
      (∀ a, a < min s.heap.brkCur addr → reply.1.mem a = s.heap.mem a) ∧
      (∀ a, addr ≤ a → a < max s.high addr → reply.1.mem a = 0) ∧
      ∀ a, s.heap.brkCur ≤ a → a < addr → reply.1.mem a = 0 := by
  have hinv := BrkInv.run hclear hrun
  refine ⟨hinv.area, brkLocked_null, fun addr hne hout => ?_, fun addr hne hlow hhigh => ?_⟩
  · apply brkLocked_outside hne
    rintro ⟨hlow, hhigh⟩
    omega
  · have hin : InBrkArea cfg s.heap addr := ⟨hlow, hhigh⟩
    obtain ⟨hresult, hcur, -⟩ := brkLocked_accepted s.heap.brkCur hne hin
    refine ⟨hresult, hcur, fun a ha => ?_, fun a hge hlt => ?_, fun a hge hlt => ?_⟩
    · exact brkLocked_mem_outside hne hin (Or.inl ha)
    · exact hinv.clear_above hclear hne hin hge hlt
    · exact brkLocked_mem_added hne hin hge hlt

/-- The heap of five pages in a build that clears what a reduction takes away. -/
def fiveBreak : BrkConfig := { fivePages with clearAtShrink := true }

/-- A program takes sixteen bytes, writes the last one and gives half of them back. -/
def takeAndReturn : List BrkEvent :=
  [.brk 0x80000010, .write 0x8000000f 7, .brk 0x80000008]

theorem brk_history_clear_returned :
    ∃ s, exec (brkStep fiveBreak) (brkStart fiveBreak fun _ => 1) takeAndReturn = some s ∧
      (kSysBrk fiveBreak s.heap 0x80000010).1.mem 0x8000000f = 0 := by
  have hrun : ((exec (brkStep fiveBreak) (brkStart fiveBreak fun _ => 1) takeAndReturn).map
      fun s => (s.heap.brkTop, s.heap.brkCur)) = some (0x80000000, 0x80000008) := by
    decide +kernel
  obtain ⟨s, hs, hbreaks⟩ := Option.map_eq_some_iff.mp hrun
  obtain ⟨htop, hcur⟩ := Prod.mk.inj hbreaks
  obtain ⟨-, -, -, hgrant⟩ := brk_history_clear fiveBreak rfl (fun _ => 1) takeAndReturn s hs
  have hend : 0x80000010 ≤ s.heap.brkTop + fiveBreak.brkSize := by
    rw [htop]
    decide
  obtain ⟨-, -, -, -, hadded⟩ := hgrant 0x80000010 (by decide) (by omega) hend
  exact ⟨s, hs, hadded 0x8000000f (by omega) (by decide)⟩

end History

section Overlap

variable {N : Nat}

/-- A call between its read of the break and its locked section. -/
structure BrkCall where
  addr : Nat
  brkCur : Nat
  deriving DecidableEq

/-- The heap and the call that each CPU is in the middle of. -/
structure BrkSystem (N : Nat) where
  heap : HeapState
  pending : Fin N → Option BrkCall

/-- The two steps of a call of `k_sys_brk`, and a program's store. -/
inductive BrkStep (N : Nat) where
  | read (p : Fin N) (addr : Nat)
  | locked (p : Fin N)
  | write (a : Nat) (v : UInt8)

/-- One step of an interleaving. -/
def brkSystemStep (cfg : BrkConfig) (s : BrkSystem N) : BrkStep N → Option (BrkSystem N)
  | .read p addr =>
      if s.pending p = none then
        some { s with pending := Function.update s.pending p (some ⟨addr, s.heap.brkCur⟩) }
      else none
  | .locked p =>
      (s.pending p).map fun call =>
        ⟨(brkLocked cfg s.heap call.brkCur call.addr).1, Function.update s.pending p none⟩
  | .write a v => (userWrite s.heap a v).map fun h => { s with heap := h }

/-- No call is in progress after `k_mem_init`. -/
def BrkSystem.start (cfg : BrkConfig) (mem : Mem) : BrkSystem N :=
  ⟨brkHeap cfg mem, fun _ => none⟩

/-- A call without other steps in between is the sequential one. -/
theorem exec_read_locked (cfg : BrkConfig) {s : BrkSystem N} {p : Fin N}
    (hidle : s.pending p = none) (addr : Nat) :
    exec (brkSystemStep cfg) s [.read p addr, .locked p] =
      some { s with heap := (kSysBrk cfg s.heap addr).1 } := by
  have hdone : Function.update s.pending p none = s.pending := by
    rw [← hidle, Function.update_eq_self]
  simp [exec, brkSystemStep, hidle, hdone, kSysBrk]

/-- The locked section of the call will move the break up, from the break that it has read or
from the current one. -/
structure Expands (cfg : BrkConfig) (h : HeapState) (call : BrkCall) : Prop where
  ne : call.addr ≠ 0
  area : InBrkArea cfg h call.addr
  up : call.brkCur < call.addr ∨ h.brkCur < call.addr

/-- An expanding call keeps the bytes below the break that is current when its locked section
starts, whatever they are. -/
def KeepsGranted (cfg : BrkConfig) (s : BrkSystem N) : BrkStep N → Prop
  | .locked p => ∀ call ∈ s.pending p, Expands cfg s.heap call → ∀ (mem : Mem) (a : Nat),
      a < s.heap.brkCur →
        (brkLocked cfg { s.heap with mem := mem } call.brkCur call.addr).1.mem a = mem a
  | _ => True

/-- When the locked section of an expanding call starts, the break is not above the one that
the call has read. -/
def BreakNotRaised (cfg : BrkConfig) (s : BrkSystem N) : BrkStep N → Prop
  | .locked p => ∀ call ∈ s.pending p, Expands cfg s.heap call → s.heap.brkCur ≤ call.brkCur
  | _ => True

theorem Expands.keeps_iff {cfg : BrkConfig} {h : HeapState} {call : BrkCall}
    (he : Expands cfg h call) :
    (∀ (mem : Mem) (a : Nat), a < h.brkCur →
        (brkLocked cfg { h with mem := mem } call.brkCur call.addr).1.mem a = mem a) ↔
      h.brkCur ≤ call.brkCur := by
  obtain ⟨hne, harea, hup⟩ := he
  constructor
  · intro hkeeps
    by_contra hraised
    -- the byte at the break that was read is granted by now, and the call clears it
    have hkept := hkeeps (fun _ => 1) call.brkCur (by omega)
    rw [brkLocked_mem_added (h := { h with mem := fun _ => 1 }) hne harea (Nat.le_refl _)
      (by omega)] at hkept
    exact absurd hkept (by decide)
  · intro hle mem a ha
    apply brkLocked_mem_outside (h := { h with mem := mem }) hne harea
    omega

theorem keepsGranted_iff (cfg : BrkConfig) (s : BrkSystem N) (l : BrkStep N) :
    KeepsGranted cfg s l ↔ BreakNotRaised cfg s l := by
  cases l with
  | read p addr => exact Iff.rfl
  | write a v => exact Iff.rfl
  | locked p =>
      constructor
      · intro h call hcall he
        exact he.keeps_iff.mp (h call hcall he)
      · intro h call hcall he
        exact he.keeps_iff.mpr (h call hcall he)

/-- In an interleaving no expanding call clears granted memory, if and only if no break is
raised between the read and the locked section of an expanding call. -/
theorem brk_keeps_granted_iff (cfg : BrkConfig) (mem : Mem) (ls : List (BrkStep N)) :
    Along (brkSystemStep cfg) (KeepsGranted cfg) (BrkSystem.start cfg mem) ls ↔
      Along (brkSystemStep cfg) (BreakNotRaised cfg) (BrkSystem.start cfg mem) ls :=
  along_congr (I := fun _ => True) (fun s l _ => keepsGranted_iff cfg s l)
    (fun _ _ _ _ _ _ => trivial) trivial ls

/-- Two CPUs read the break, the first one gets its eight bytes and its program writes one. -/
def twoExpansions : List (BrkStep 2) :=
  [.read 0 0x80000008, .read 1 0x80000010, .locked 0, .write 0x80000000 7]

theorem twoExpansions_call :
    ((exec (brkSystemStep fiveBreak) (BrkSystem.start fiveBreak fun _ => 0) twoExpansions).map
      fun s => (s.pending 1, s.heap.brkTop, s.heap.brkCur)) =
      some (some ⟨0x80000010, 0x80000000⟩, 0x80000000, 0x80000008) := by
  decide +kernel

/-- The locked section of the second CPU clears the byte that the first one has written. -/
theorem brk_clears_granted :
    ((exec (brkSystemStep fiveBreak) (BrkSystem.start fiveBreak fun _ => 0) twoExpansions).map
      fun s => (s.heap.brkCur, s.heap.mem 0x80000000)) = some (0x80000008, 7) ∧
    ((exec (brkSystemStep fiveBreak) (BrkSystem.start fiveBreak fun _ => 0)
        (twoExpansions ++ [.locked 1])).map
      fun s => (s.heap.brkCur, s.heap.mem 0x80000000)) = some (0x80000010, 0) ∧
    ¬ Along (brkSystemStep fiveBreak) (KeepsGranted fiveBreak)
      (BrkSystem.start fiveBreak fun _ => 0) (twoExpansions ++ [.locked 1]) := by
  refine ⟨by decide +kernel, by decide +kernel, fun hkeeps => ?_⟩
  obtain ⟨s, hrun, hs⟩ := Option.map_eq_some_iff.mp twoExpansions_call
  simp only [Prod.mk.injEq] at hs
  obtain ⟨hcall, htop, hcur⟩ := hs
  have hexpands : Expands fiveBreak s.heap ⟨0x80000010, 0x80000000⟩ :=
    ⟨by decide, by rw [InBrkArea, htop]; decide, Or.inl (by decide)⟩
  have hle := hexpands.keeps_iff.mp (hkeeps.at hrun _ hcall hexpands)
  rw [hcur] at hle
  exact absurd hle (by decide)

end Overlap

end BaremetalCrt
