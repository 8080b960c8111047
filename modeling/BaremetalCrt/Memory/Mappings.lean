import BaremetalCrt.Memory.Syscall
import BaremetalCrt.Library.Runs
import Mathlib.Data.List.Perm.Basic
import Mathlib.Algebra.BigOperators.Group.List.Basic
import Mathlib.Algebra.GroupWithZero.Nat

/-!
# Histories of mappings

A history is a sequence of `k_sys_mmap` and `k_sys_munmap` calls after
`k_mem_init`. The mappings that are live are recorded beside the allocator:
each successful allocation adds its page range, each release removes the
range it names. A release that names no live mapping is not part of a history.
-/

namespace BaremetalCrt

open FreeSegments LabelledSystem

/-- A range of pages, by its first page and its number of pages. -/
structure Mapping where
  first : Nat
  pages : Nat
  deriving DecidableEq

/-- Page `p` belongs to the range. -/
def Mapping.Has (g : Mapping) (p : Nat) : Prop := g.first ≤ p ∧ p < g.first + g.pages

/-- The two ranges share no page. -/
def Mapping.Apart (g g' : Mapping) : Prop := ∀ p, g.Has p → ¬ g'.Has p

theorem Mapping.Apart.symm {g g' : Mapping} (h : g.Apart g') : g'.Apart g :=
  fun p h' hp => h p hp h'

/-- The two system calls of a history, with the arguments they look at. -/
inductive MapCall where
  | mmap (length : Nat) (flags : BitVec 32) (fd offset : Int)
  | munmap (addr length : Nat)

/-- The allocator together with the mappings that are live. -/
structure MapState where
  heap : HeapState
  live : List Mapping

/-- The pages that a `k_sys_mmap` call obtains, if its allocation succeeds. -/
def mmapGrant (cfg : MemConfig) (h : HeapState) (length : Nat) (flags : BitVec 32)
    (fd offset : Int) : Option Mapping :=
  if mmapArgsOk flags fd offset then
    let r := (kMemNodeAllocPagesNolock cfg.toTarget h (mmapLen length)).2
    if r < 0 then none else some ⟨r.toNat, reqPage cfg.toTarget (mmapLen length)⟩
  else none

/-- The range that an address and a page-rounded length name. -/
def namedMapping (h : HeapState) (addr length : Nat) : Mapping :=
  ⟨(addr - h.node.vaddr) / pageSize, length / pageSize⟩

/-- One call of a history; lengths are `size_t` values. -/
def mapStep (cfg : MemConfig) (s : MapState) : MapCall → Option MapState
  | .mmap length flags fd offset =>
      if length < 2 ^ cfg.bits then
        let h := (kSysMmap cfg s.heap length flags fd offset).1
        some ⟨h, (mmapGrant cfg s.heap length flags fd offset).toList ++ s.live⟩
      else none
  | .munmap addr length =>
      let g := namedMapping s.heap addr length
      if g ∈ s.live ∧ addr = s.heap.node.vaddr + g.first * pageSize ∧
          length = g.pages * pageSize then
        some ⟨(kSysMunmap cfg s.heap addr length).1, s.live.erase g⟩
      else none

/-- The state left by `k_mem_init`. -/
def mapInit (cfg : MemConfig) (mem : Mem) : MapState :=
  ⟨(kMemInit cfg (HeapState.boot mem)).1, []⟩

/-- The pages of the brk area, from `k_mem_brk_start` to `k_mem_brk_end`. -/
def brkArea (cfg : MemConfig) (h : HeapState) : Mapping :=
  ⟨(h.brkTop - h.node.vaddr) / pageSize, (cfg.brkSize + pageSize - 1) / pageSize⟩

/-- The call obtains pages of the table that no live mapping and not the brk
area has, unless rounding its length up wraps. -/
def GrantSound (cfg : MemConfig) (s : MapState) : MapCall → Prop
  | .mmap length flags fd offset =>
      ∀ g, mmapGrant cfg s.heap length flags fd offset = some g →
        mmapLen length + pageSize - 1 < 2 ^ cfg.bits →
          g.first + g.pages ≤ s.heap.node.pageTotal ∧
            ∀ g' ∈ brkArea cfg s.heap :: s.live, g.Apart g'
  | .munmap _ _ => True

/-- The call is rejected, or asks for more pages than are counted as free, or
meets no run of free pages that is exactly one page too short before the first
run that is long enough. -/
def ScanFits (cfg : MemConfig) (s : MapState) : MapCall → Prop
  | .mmap length flags fd offset =>
      mmapArgsOk flags fd offset = true →
        mmapLen length + pageSize - 1 < 2 ^ cfg.bits →
          sub64 s.heap.node.pageTotal s.heap.node.pageUse <
              reqPage cfg.toTarget (mmapLen length) ∨
            NoShort s.heap.node.FreePage s.heap.node.pageTotal
              (reqPage cfg.toTarget (mmapLen length))
  | .munmap _ _ => True

/-- The listed ranges are disjoint, lie in the table, and are exactly the pages
with a non-zero status; the counter is the sum of their sizes. -/
structure Tiles (h : HeapState) (rs : List Mapping) : Prop where
  total_lt : h.node.pageTotal < 2 ^ 64
  tag : h.dbgHeapNum.toUInt8 ≠ 0
  inside : ∀ g ∈ rs, g.first + g.pages ≤ h.node.pageTotal
  apart : rs.Pairwise Mapping.Apart
  used : ∀ p < h.node.pageTotal, ¬ h.node.FreePage p ↔ ∃ g ∈ rs, g.Has p
  use_sum : h.node.pageUse = (rs.map Mapping.pages).sum
  use_le : h.node.pageUse ≤ h.node.pageTotal

section Tiles

variable {h h' : HeapState} {rs rs' : List Mapping}

/-- The page counter tells how many pages are not taken. -/
theorem Tiles.sub64_eq (ht : Tiles h rs) :
    sub64 h.node.pageTotal h.node.pageUse = h.node.pageTotal - h.node.pageUse :=
  sub64_of_le ht.use_le ht.total_lt

/-- The order of the ranges does not matter. -/
theorem Tiles.perm (ht : Tiles h rs) (hperm : rs.Perm rs') : Tiles h rs' where
  total_lt := ht.total_lt
  tag := ht.tag
  inside := fun g hg => ht.inside g (hperm.mem_iff.mpr hg)
  apart := (hperm.pairwise_iff fun h => h.symm).mp ht.apart
  used := fun p hp => by
    rw [ht.used p hp]
    exact exists_congr fun g => and_congr_left fun _ => hperm.mem_iff
  use_sum := ht.use_sum.trans (hperm.map Mapping.pages).sum_eq
  use_le := ht.use_le

/-- Only the node and the tag counter are looked at. -/
theorem Tiles.of_eq (ht : Tiles h rs) (hnode : h'.node = h.node)
    (htag : h'.dbgHeapNum = h.dbgHeapNum) : Tiles h' rs where
  total_lt := hnode ▸ ht.total_lt
  tag := htag ▸ ht.tag
  inside := hnode ▸ ht.inside
  apart := ht.apart
  used := hnode ▸ ht.used
  use_sum := hnode ▸ ht.use_sum
  use_le := hnode ▸ ht.use_le

/-- A range is a segment of free pages exactly when it lies in the table and is
apart from every range that is taken. -/
theorem Tiles.seg_iff (ht : Tiles h rs) (g : Mapping) :
    Seg h.node.FreePage h.node.pageTotal g.first g.pages ↔
      g.first + g.pages ≤ h.node.pageTotal ∧ ∀ g' ∈ rs, g.Apart g' := by
  constructor
  · intro hseg
    refine ⟨hseg.1, fun g' hg' p hp hp' => ?_⟩
    have hlt : p < h.node.pageTotal := lt_of_lt_of_le hp.2 hseg.1
    exact (ht.used p hlt).mpr ⟨g', hg', hp'⟩ (hseg.cell hp.1 hp.2)
  · rintro ⟨hin, hapart⟩
    refine ⟨hin, fun j hj => ?_⟩
    by_contra hused
    obtain ⟨g', hg', hp'⟩ := (ht.used (g.first + j) (by omega)).mp hused
    exact hapart g' hg' (g.first + j) ⟨by omega, by omega⟩ hp'

/-- A segment of free pages is granted: it is marked with the tag and counted. -/
theorem Tiles.grant {i req : Nat} (ht : Tiles h rs)
    (hseg : Seg h.node.FreePage h.node.pageTotal i req)
    (hreq : req ≤ sub64 h.node.pageTotal h.node.pageUse)
    (hnode : h'.node = { h.node with
      statPage := kMemNodeSetPageFlag h.node.statPage i req h.dbgHeapNum.toUInt8
      pageUse := add64 h.node.pageUse req })
    (htag : h'.dbgHeapNum = nextDbgHeapNum h.dbgHeapNum) : Tiles h' (⟨i, req⟩ :: rs) := by
  obtain ⟨hin, hapart⟩ := (ht.seg_iff ⟨i, req⟩).mp hseg
  have hle := ht.use_le
  have hlt := ht.total_lt
  rw [ht.sub64_eq] at hreq
  have hsum : add64 h.node.pageUse req = h.node.pageUse + req := by
    apply add64_of_lt
    omega
  have huse : h'.node.pageUse = h.node.pageUse + req := by
    rw [hnode]
    exact hsum
  have htotal : h'.node.pageTotal = h.node.pageTotal := by rw [hnode]
  constructor
  · rw [htotal]
    exact hlt
  · rw [htag]
    exact nextDbgHeapNum_low _
  · intro g hg
    rw [htotal]
    rcases List.mem_cons.mp hg with rfl | hold
    · exact hin
    · exact ht.inside g hold
  · exact List.pairwise_cons.mpr ⟨hapart, ht.apart⟩
  · intro p hp
    rw [htotal] at hp
    simp only [MemNode.FreePage, hnode, kMemNodeSetPageFlag_apply, List.mem_cons]
    by_cases hnew : i ≤ p ∧ p < i + req
    · rw [if_pos hnew]
      exact ⟨fun _ => ⟨⟨i, req⟩, Or.inl rfl, hnew⟩, fun _ => ht.tag⟩
    · rw [if_neg hnew]
      refine (ht.used p hp).trans ⟨?_, ?_⟩
      · rintro ⟨g, hg, hgp⟩
        exact ⟨g, Or.inr hg, hgp⟩
      · rintro ⟨g, rfl | hg, hgp⟩
        · exact absurd hgp hnew
        · exact ⟨g, hg, hgp⟩
  · rw [huse, ht.use_sum, List.map_cons, List.sum_cons]
    exact Nat.add_comm _ _
  · rw [huse, htotal]
    omega

/-- A range is released: its pages become free, and only they do. -/
theorem Tiles.release {g : Mapping} (ht : Tiles h (g :: rs))
    (hnode : h'.node = { h.node with
      statPage := kMemNodeSetPageFlag h.node.statPage g.first g.pages 0
      pageUse := sub64 h.node.pageUse g.pages })
    (htag : h'.dbgHeapNum = h.dbgHeapNum) : Tiles h' rs := by
  obtain ⟨hgapart, hrest⟩ := List.pairwise_cons.mp ht.apart
  have hsum : h.node.pageUse = g.pages + (rs.map Mapping.pages).sum := by
    rw [ht.use_sum, List.map_cons, List.sum_cons]
  have huse : h'.node.pageUse = (rs.map Mapping.pages).sum := by
    rw [hnode]
    change sub64 h.node.pageUse g.pages = _
    rw [sub64_of_le (by omega) (lt_of_le_of_lt ht.use_le ht.total_lt)]
    omega
  have htotal : h'.node.pageTotal = h.node.pageTotal := by rw [hnode]
  constructor
  · rw [htotal]
    exact ht.total_lt
  · rw [htag]
    exact ht.tag
  · intro g' hg'
    rw [htotal]
    exact ht.inside g' (List.mem_cons_of_mem _ hg')
  · exact hrest
  · intro p hp
    rw [htotal] at hp
    simp only [MemNode.FreePage, hnode, kMemNodeSetPageFlag_apply]
    by_cases hin : g.first ≤ p ∧ p < g.first + g.pages
    · rw [if_pos hin]
      simp only [not_true_eq_false, false_iff]
      rintro ⟨g', hg', hp'⟩
      exact hgapart g' hg' p hin hp'
    · rw [if_neg hin]
      refine (ht.used p hp).trans ⟨?_, ?_⟩
      · rintro ⟨g', hg', hp'⟩
        rcases List.mem_cons.mp hg' with rfl | hg'
        · exact absurd hp' hin
        · exact ⟨g', hg', hp'⟩
      · rintro ⟨g', hg', hp'⟩
        exact ⟨g', List.mem_cons_of_mem _ hg', hp'⟩
  · exact huse
  · rw [huse, htotal]
    have := ht.use_le
    omega

/-- An empty range can be forgotten. -/
theorem Tiles.drop_empty {g : Mapping} (ht : Tiles h (g :: rs)) (hg : g.pages = 0) :
    Tiles h rs := by
  refine ht.release ?_ rfl
  have hstat : kMemNodeSetPageFlag h.node.statPage g.first g.pages 0 = h.node.statPage := by
    rw [hg]
    rfl
  have huse : sub64 h.node.pageUse g.pages = h.node.pageUse := by
    rw [hg, sub64_of_le (Nat.zero_le _) (lt_of_le_of_lt ht.use_le ht.total_lt), Nat.sub_zero]
  rw [hstat, huse]

theorem Tiles.add_empty (ht : Tiles h rs) {first : Nat} (hfirst : first ≤ h.node.pageTotal) :
    Tiles h (⟨first, 0⟩ :: rs) where
  total_lt := ht.total_lt
  tag := ht.tag
  inside := List.forall_mem_cons.mpr ⟨hfirst, ht.inside⟩
  apart := List.pairwise_cons.mpr ⟨fun _ _ _ hp => absurd hp.2 (Nat.not_lt.mpr hp.1), ht.apart⟩
  used := fun p hp => by
    rw [ht.used p hp]
    refine ⟨fun ⟨g, hg, hgp⟩ => ⟨g, List.mem_cons_of_mem _ hg, hgp⟩, fun ⟨g, hg, hgp⟩ => ?_⟩
    rcases List.mem_cons.mp hg with rfl | hg
    · exact absurd hgp.2 (Nat.not_lt.mpr hgp.1)
    · exact ⟨g, hg, hgp⟩
  use_sum := ht.use_sum.trans (by simp)
  use_le := ht.use_le

end Tiles

/-- All page ranges that are taken. -/
def regions (cfg : MemConfig) (s : MapState) : List Mapping := brkArea cfg s.heap :: s.live

/-- The head node describes the heap area, and the brk area and the live
mappings are what is taken of it. -/
structure MapInv (cfg : MemConfig) (s : MapState) : Prop where
  vaddr : s.heap.node.vaddr = cfg.heapHeadArea
  size : s.heap.node.size = cfg.heapSize
  total : s.heap.node.pageTotal = cfg.heapSize / pageSize
  tiles : Tiles s.heap (regions cfg s)

/-- The node keeps its area through every step, so the invariant is kept when
the new ranges tile the new table. -/
theorem MapInv.keep {cfg : MemConfig} {s s' : MapState} (h : MapInv cfg s)
    (hvaddr : s'.heap.node.vaddr = s.heap.node.vaddr)
    (hsize : s'.heap.node.size = s.heap.node.size)
    (htotal : s'.heap.node.pageTotal = s.heap.node.pageTotal)
    (hbrk : s'.heap.brkTop = s.heap.brkTop)
    (ht : Tiles s'.heap (brkArea cfg s.heap :: s'.live)) : MapInv cfg s' where
  vaddr := hvaddr.trans h.vaddr
  size := hsize.trans h.size
  total := htotal.trans h.total
  tiles := by
    have harea : brkArea cfg s'.heap = brkArea cfg s.heap := by
      unfold brkArea
      rw [hvaddr, hbrk]
    rw [regions, harea]
    exact ht

/-- Rounding a wrapped length up asks for no page at all. -/
theorem reqPage_of_wrap {t : Target} {length : Nat} (hlen : length < 2 ^ t.bits)
    (hwrap : 2 ^ t.bits ≤ length + pageSize - 1) : reqPage t length = 0 := by
  have hword := t.word_ge
  have hmod : t.wrap (length + pageSize - 1) = length + pageSize - 1 - 2 ^ t.bits := by
    unfold Target.wrap
    rw [Nat.mod_eq_sub_mod hwrap, Nat.mod_eq_of_lt]
    unfold pageSize
    omega
  unfold reqPage
  rw [hmod]
  unfold pageSize at *
  omega

theorem mmapLen_pos (length : Nat) : 0 < mmapLen length := by
  unfold mmapLen
  split <;> omega

theorem mmapLen_lt {t : Target} {length : Nat} (h : length < 2 ^ t.bits) :
    mmapLen length < 2 ^ t.bits := by
  have := t.word_ge
  unfold mmapLen
  split <;> omega

/-- Under the invariant a call is sound exactly when its scan fits. -/
theorem MapInv.grantSound_iff {cfg : MemConfig} {s : MapState} (h : MapInv cfg s)
    (c : MapCall) : GrantSound cfg s c ↔ ScanFits cfg s c := by
  cases c with
  | munmap addr length => exact Iff.rfl
  | mmap length flags fd offset =>
      simp only [GrantSound, ScanFits, mmapGrant]
      by_cases hok : mmapArgsOk flags fd offset = true
      · simp only [hok, if_true, forall_const]
        have hlen := mmapLen_pos length
        rcases kMemNodeAllocPagesNolock_cases cfg.toTarget s.heap (mmapLen length) with
          ⟨r, hr, heq, hwhy⟩ | ⟨i, -, hreq, hscan, heq⟩
        · -- nothing is granted: the allocator refused, or no run is nearly long enough
          rw [heq]
          simp only [if_pos hr]
          refine ⟨fun _ hwrap => ?_, fun _ g hg => by simp at hg⟩
          rcases hwhy with h0 | hfew | hnone
          · omega
          · exact Or.inl hfew
          · have hspec := allocScan_zero_spec (m := s.heap.node) (reqPage_pos hlen hwrap)
            rw [hnone] at hspec
            exact Or.inr (noShort_of_no_near hspec)
        · rw [heq]
          simp only [Int.toNat_natCast, Int.not_lt.mpr (Int.natCast_nonneg i), if_false,
            Option.some.injEq, forall_eq']
          refine forall_congr' fun hwrap => ?_
          have hnear := allocScan_zero_spec (m := s.heap.node) (reqPage_pos hlen hwrap)
          rw [hscan] at hnear
          rw [or_iff_right (by omega), ← hnear.seg_iff_noShort]
          exact (h.tiles.seg_iff ⟨i, reqPage cfg.toTarget (mmapLen length)⟩).symm
      · simp [hok]

/-- The scan of an allocation that fits answers with a segment of the requested size. -/
theorem allocScan_seg {cfg : MemConfig} {h : HeapState} {length i : Nat} (hlen : 0 < length)
    (hsize : length < 2 ^ cfg.bits)
    (hscan : allocScan h.node (reqPage cfg.toTarget length) h.node.pageTotal 0 = some i)
    (hfit : length + pageSize - 1 < 2 ^ cfg.bits →
      NoShort h.node.FreePage h.node.pageTotal (reqPage cfg.toTarget length)) :
    Seg h.node.FreePage h.node.pageTotal i (reqPage cfg.toTarget length) := by
  by_cases hwrap : length + pageSize - 1 < 2 ^ cfg.bits
  · have hnear := allocScan_zero_spec (m := h.node) (reqPage_pos hlen hwrap)
    rw [hscan] at hnear
    exact hnear.seg_iff_noShort.mpr (hfit hwrap)
  · -- a wrapped request grants no page
    rw [reqPage_of_wrap hsize (by omega)]
    refine ⟨?_, fun j hj => absurd hj (Nat.not_lt_zero j)⟩
    exact (allocScan_free hscan).1.le

theorem MapInv.mmap_step {cfg : MemConfig} {s s' : MapState} {length : Nat}
    {flags : BitVec 32} {fd offset : Int} (h : MapInv cfg s)
    (hfit : ScanFits cfg s (.mmap length flags fd offset))
    (hstep : mapStep cfg s (.mmap length flags fd offset) = some s') : MapInv cfg s' := by
  simp only [mapStep] at hstep
  split at hstep
  swap
  · exact absurd hstep (by simp)
  rename_i hsize
  obtain rfl := Option.some.inj hstep
  by_cases hok : mmapArgsOk flags fd offset = true
  · obtain ⟨hnode, htag, hbrk, -⟩ := kSysMmap_node cfg s.heap length flags fd offset hok
    rcases kMemNodeAllocPagesNolock_cases cfg.toTarget s.heap (mmapLen length) with
      ⟨r, hr, heq, -⟩ | ⟨i, hlen, hreq, hscan, heq⟩
    · -- the allocator refused, and nothing but the return value tells so
      rw [heq] at hnode htag hbrk
      have hgrant : mmapGrant cfg s.heap length flags fd offset = none := by
        simp [mmapGrant, hok, heq, hr]
      rw [hgrant]
      refine h.keep ?_ ?_ ?_ hbrk (h.tiles.of_eq hnode htag)
      · rw [hnode]
      · rw [hnode]
      · rw [hnode]
    · rw [heq] at hnode htag hbrk
      have hgrant : mmapGrant cfg s.heap length flags fd offset =
          some ⟨i, reqPage cfg.toTarget (mmapLen length)⟩ := by
        simp [mmapGrant, hok, heq]
      rw [hgrant]
      have hseg : Seg s.heap.node.FreePage s.heap.node.pageTotal i
          (reqPage cfg.toTarget (mmapLen length)) := by
        refine allocScan_seg hlen (mmapLen_lt hsize) hscan fun hwrap => ?_
        exact (hfit hok hwrap).resolve_left (Nat.not_lt.mpr hreq)
      refine h.keep ?_ ?_ ?_ hbrk ((h.tiles.grant hseg hreq hnode htag).perm (.swap _ _ _))
      · rw [hnode]
      · rw [hnode]
      · rw [hnode]
  · have hrej : mmapArgsOk flags fd offset = false := by simpa using hok
    have hgrant : mmapGrant cfg s.heap length flags fd offset = none := by
      simp [mmapGrant, hrej]
    rw [kSysMmap_rejected cfg s.heap length flags fd offset hrej, hgrant]
    exact h.keep rfl rfl rfl rfl h.tiles

/-- The address check of `k_sys_munmap` accepts every range inside the heap area. -/
theorem MapInv.munmap_accepts {cfg : MemConfig} {s : MapState} (h : MapInv cfg s)
    {g : Mapping} (hin : g.first + g.pages ≤ s.heap.node.pageTotal) :
    kSysMunmap cfg s.heap (s.heap.node.vaddr + g.first * pageSize) (g.pages * pageSize) =
      ((kMemNodeFreePagesNolock s.heap (s.heap.node.vaddr + g.first * pageSize)
        (g.pages * pageSize)).1, 0) := by
  have hbytes : g.first * pageSize + g.pages * pageSize ≤ cfg.heapSize := by
    rw [← Nat.add_mul]
    apply (Nat.mul_le_mul_right _ hin).trans
    rw [h.total]
    exact Nat.div_mul_le_self _ _
  have hfit := cfg.area_fits
  have hvaddr := h.vaddr
  have hsize := h.size
  have haccept : ¬ (s.heap.node.vaddr + g.first * pageSize < s.heap.node.vaddr ∨
      s.heap.node.vaddr + s.heap.node.size <
        cfg.wrap (s.heap.node.vaddr + g.first * pageSize + g.pages * pageSize)) := by
    rw [Target.wrap, Nat.mod_eq_of_lt (by omega)]
    omega
  rw [kSysMunmap, if_neg haccept]

theorem MapInv.munmap_step {cfg : MemConfig} {s s' : MapState} {addr length : Nat}
    (h : MapInv cfg s) (hstep : mapStep cfg s (.munmap addr length) = some s') :
    MapInv cfg s' := by
  simp only [mapStep] at hstep
  split at hstep
  swap
  · exact absurd hstep (by simp)
  rename_i hnamed
  obtain rfl := Option.some.inj hstep
  obtain ⟨hlive, haddr, hlength⟩ := hnamed
  generalize namedMapping s.heap addr length = g at hlive haddr hlength ⊢
  subst addr length
  have hin := h.tiles.inside g (List.mem_cons_of_mem _ hlive)
  have ht : Tiles s.heap (g :: brkArea cfg s.heap :: s.live.erase g) :=
    h.tiles.perm (((List.perm_cons_erase hlive).cons _).trans (List.Perm.swap _ _ _))
  rw [h.munmap_accepts hin]
  rcases Nat.eq_zero_or_pos g.pages with hzero | hpos
  · -- an empty range is refused by the release, and holds no page anyway
    rw [hzero, Nat.zero_mul, kMemNodeFreePagesNolock_zero]
    exact h.keep rfl rfl rfl rfl (ht.drop_empty hzero)
  · have hfirst : g.first * pageSize < s.heap.node.size := by
      have hlt : g.first < s.heap.node.pageTotal := by omega
      calc
        g.first * pageSize < s.heap.node.pageTotal * pageSize :=
          Nat.mul_lt_mul_of_pos_right hlt (by decide)
        _ ≤ s.heap.node.size := by
          rw [h.total, h.size]
          exact Nat.div_mul_le_self _ _
    rw [kMemNodeFreePagesNolock_aligned hpos hfirst]
    refine h.keep ?_ ?_ ?_ (HeapState.setNode_brkTop _ _)
      (ht.release (HeapState.setNode_node _ _) (HeapState.setNode_dbgHeapNum _ _))
    · rw [HeapState.setNode_node]
    · rw [HeapState.setNode_node]
    · rw [HeapState.setNode_node]

theorem MapInv.step {cfg : MemConfig} {s s' : MapState} {c : MapCall} (h : MapInv cfg s)
    (hfit : ScanFits cfg s c) (hstep : mapStep cfg s c = some s') : MapInv cfg s' := by
  cases c with
  | mmap length flags fd offset => exact h.mmap_step hfit hstep
  | munmap addr length => exact h.munmap_step hstep

/-- The data on which `k_mem_init` allocates the brk area. -/
def HeapState.fresh (cfg : MemConfig) (mem : Mem) : HeapState :=
  (HeapState.boot mem).setNode { (HeapState.boot mem).node with
    vaddr := cfg.heapHeadArea
    size := cfg.heapSize
    pageTotal := cfg.heapSize / pageSize
    pageUse := 0 }

theorem HeapState.fresh_tiles (cfg : MemConfig) (mem : Mem) :
    Tiles (HeapState.fresh cfg mem) [] where
  total_lt := by
    have hword := cfg.toTarget.word_le
    have hfit := cfg.area_fits
    change cfg.heapSize / pageSize < 2 ^ 64
    exact lt_of_le_of_lt (Nat.div_le_self _ _) (by omega)
  tag := show (1 : UInt32).toUInt8 ≠ 0 by decide
  inside := fun g hg => absurd hg List.not_mem_nil
  apart := List.Pairwise.nil
  used := fun p _ => ⟨fun h => absurd rfl h, fun ⟨g, hg, _⟩ => absurd hg List.not_mem_nil⟩
  use_sum := rfl
  use_le := Nat.zero_le _

/-- A configuration has room for its brk area. -/
theorem MemConfig.brk_pages_le (cfg : MemConfig) :
    reqPage cfg.toTarget cfg.brkSize ≤ cfg.heapSize / pageSize := by
  have hle := cfg.brk_le_heap
  have halign := cfg.heap_aligned
  rw [reqPage_of_lt cfg.brk_no_wrap]
  unfold pageSize at *
  omega

/-- `k_mem_init` places the brk area where the page allocation put it. -/
theorem mapInit_heap {cfg : MemConfig} {mem : Mem} {h : HeapState} {r : Int}
    (ha : kMemNodeAllocPagesNolock cfg.toTarget (HeapState.fresh cfg mem) cfg.brkSize = (h, r)) :
    (mapInit cfg mem).heap =
      if r < 0 then h else { h with
        brkTop := h.node.vaddr + r.toNat * pageSize
        brkCur := h.node.vaddr + r.toNat * pageSize } := by
  have hinit : kMemInit cfg (HeapState.boot mem) =
      if r < 0 then (h, -enomem) else ({ h with
        brkTop := h.node.vaddr + r.toNat * pageSize
        brkCur := h.node.vaddr + r.toNat * pageSize }, 0) := by
    unfold HeapState.fresh at ha
    simp only [kMemInit, ha]
  change (kMemInit cfg (HeapState.boot mem)).1 = _
  rw [hinit]
  exact apply_ite Prod.fst _ _ _

/-- The page allocation of `k_mem_init` fails only for an empty brk area. -/
theorem brk_alloc_fails {cfg : MemConfig} {mem : Mem}
    (hwhy : cfg.brkSize = 0 ∨ sub64 (HeapState.fresh cfg mem).node.pageTotal
        (HeapState.fresh cfg mem).node.pageUse < reqPage cfg.toTarget cfg.brkSize ∨
      allocScan (HeapState.fresh cfg mem).node (reqPage cfg.toTarget cfg.brkSize)
        (HeapState.fresh cfg mem).node.pageTotal 0 = none) : cfg.brkSize = 0 := by
  have hroom := cfg.brk_pages_le
  rcases hwhy with h0 | hfew | hnone
  · exact h0
  · rw [(HeapState.fresh_tiles cfg mem).sub64_eq] at hfew
    exact absurd hfew (Nat.not_lt.mpr hroom)
  · by_contra hpos
    have hreq := reqPage_pos (Nat.pos_of_ne_zero hpos) cfg.brk_no_wrap
    have hspec := allocScan_zero_spec (m := (HeapState.fresh cfg mem).node) hreq
    rw [hnone] at hspec
    -- the whole table is one run of free pages
    have hall := hspec 0 (cfg.heapSize / pageSize)
      ⟨by omega, ⟨(Nat.zero_add _).le, fun _ _ => rfl⟩, Or.inl rfl, Or.inl (Nat.zero_add _)⟩
    omega

/-- After `k_mem_init` the brk area is what is taken of the heap area. -/
theorem mapInit_inv (cfg : MemConfig) (mem : Mem) : MapInv cfg (mapInit cfg mem) := by
  have ht := HeapState.fresh_tiles cfg mem
  rcases kMemNodeAllocPagesNolock_cases cfg.toTarget (HeapState.fresh cfg mem) cfg.brkSize with
    ⟨r, hr, heq, hwhy⟩ | ⟨i, hlen, hreq, hscan, heq⟩
  · have harea : regions cfg ⟨HeapState.fresh cfg mem, []⟩ = [⟨0, 0⟩] := by
      have hzero := brk_alloc_fails hwhy
      have htop : (HeapState.fresh cfg mem).brkTop = 0 := rfl
      simp only [regions, brkArea, htop, hzero, Nat.zero_sub, Nat.zero_div, Nat.zero_add]
      rfl
    have hinit : mapInit cfg mem = ⟨HeapState.fresh cfg mem, []⟩ := by
      have hheap := mapInit_heap heq
      rw [if_pos hr] at hheap
      rw [← hheap]
      rfl
    rw [hinit]
    exact ⟨rfl, rfl, rfl, harea ▸ ht.add_empty (Nat.zero_le _)⟩
  · have hheap := mapInit_heap heq
    have hlive : (mapInit cfg mem).live = [] := rfl
    generalize mapInit cfg mem = s at hheap hlive ⊢
    rw [if_neg (Int.not_lt.mpr (Int.natCast_nonneg i)), Int.toNat_natCast] at hheap
    have hseg : Seg (HeapState.fresh cfg mem).node.FreePage
        (HeapState.fresh cfg mem).node.pageTotal i (reqPage cfg.toTarget cfg.brkSize) := by
      have hle := cfg.brk_le_heap
      have hfit := cfg.area_fits
      refine allocScan_seg hlen (by omega) hscan fun _ => ?_
      exact noShort_of_all_free (fun _ => rfl) cfg.brk_pages_le
    have hgrant : Tiles s.heap [⟨i, reqPage cfg.toTarget cfg.brkSize⟩] :=
      ht.grant hseg hreq (by rw [hheap]) (by rw [hheap])
    have hvaddr : s.heap.node.vaddr = cfg.heapHeadArea := by
      rw [hheap]
      rfl
    refine ⟨hvaddr, by rw [hheap]; rfl, by rw [hheap]; rfl, ?_⟩
    have harea : regions cfg s = [⟨i, reqPage cfg.toTarget cfg.brkSize⟩] := by
      have htop : s.heap.brkTop = s.heap.node.vaddr + i * pageSize := by
        rw [hheap]
      rw [regions, hlive, brkArea, htop, Nat.add_sub_cancel_left,
        Nat.mul_div_cancel _ (by decide), reqPage_of_lt cfg.brk_no_wrap]
    rw [harea]
    exact hgrant

/-- In every history all allocations obtain unused pages of the table exactly
when every allocation is made in a state where its scan fits. -/
theorem mmap_history_sound_iff (cfg : MemConfig) (mem : Mem) (calls : List MapCall) :
    Along (mapStep cfg) (GrantSound cfg) (mapInit cfg mem) calls ↔
      Along (mapStep cfg) (ScanFits cfg) (mapInit cfg mem) calls :=
  along_congr (fun _ c h => h.grantSound_iff c) (fun _ _ _ h hfit hstep => h.step hfit hstep)
    (mapInit_inv cfg mem) calls

/-- Five pages, the first of them for the brk area. -/
def fivePages : MemConfig where
  bits := 64
  bits_cases := bits_sixtyFour
  heapSize := 0x5000
  brkSize := 0x1000
  heapHeadArea := 0x80000000
  heap_aligned := by decide
  brk_le_heap := by decide
  area_fits := by decide

/-- Map pages 1 and 2 one by one and release page 1. -/
def holeBeforeMapping : List MapCall :=
  [.mmap 0x1000 mapAnonymous (-1) 0, .mmap 0x1000 mapAnonymous (-1) 0,
    .munmap 0x80001000 0x1000]

/-- Two pages are then granted from page 1 on although page 2 is still mapped. -/
theorem holeBeforeMapping_grant :
    ((exec (mapStep fivePages) (mapInit fivePages fun _ => 0) holeBeforeMapping).map fun t =>
      (t.live, mmapGrant fivePages t.heap 0x2000 mapAnonymous (-1) 0)) =
      some ([⟨2, 1⟩], some ⟨1, 2⟩) := by
  decide +kernel

theorem mmap_history_overlap :
    (exec (mapStep fivePages) (mapInit fivePages fun _ => 0)
      (holeBeforeMapping ++ [.mmap 0x2000 mapAnonymous (-1) 0])).isSome = true ∧
    ¬ Along (mapStep fivePages) (GrantSound fivePages) (mapInit fivePages fun _ => 0)
      (holeBeforeMapping ++ [.mmap 0x2000 mapAnonymous (-1) 0]) := by
  refine ⟨by decide +kernel, fun hsound => ?_⟩
  obtain ⟨t, hrun, ht⟩ := Option.map_eq_some_iff.mp holeBeforeMapping_grant
  obtain ⟨hlive, hgrant⟩ := Prod.mk.inj ht
  obtain ⟨-, hapart⟩ := hsound.at hrun ⟨1, 2⟩ hgrant (by decide)
  refine hapart ⟨2, 1⟩ ?_ 2 ⟨by decide, by decide⟩ ⟨by decide, by decide⟩
  rw [hlive]
  exact List.mem_cons_of_mem _ List.mem_cons_self

end BaremetalCrt
