import BaremetalCrt.Library.Occupancy
import BaremetalCrt.Memory.Ranges

/-!
# The count of used pages

A node counts in `page_use` how many entries of its table are not zero, and an allocation
trusts the count before it looks at the table. The count is right after `k_mem_init`. An
allocation with a right count finds every run of free pages that is long enough; a release
keeps the count right as long as it meets no page that is free already.
-/

namespace BaremetalCrt

open FreeSegments LabelledSystem

/-- The number of entries of a table that are not zero. -/
def usedEntries (stat : Nat → UInt8) (total : Nat) : Nat := Nat.count (fun i => stat i ≠ 0) total

/-- The number of pages of the node that are not free. -/
def MemNode.usedPages (m : MemNode) : Nat := usedEntries m.statPage m.pageTotal

section Count

variable {cfg : MemConfig} {m : MemNode}

theorem MemNode.Describes.total_lt (h : m.Describes cfg) : m.pageTotal < 2 ^ 64 := by
  have hword := cfg.toTarget.word_le
  have hfits := cfg.area_fits
  rw [h.total]
  exact Nat.lt_of_le_of_lt (Nat.div_le_self _ _) (by omega)

/-- A run of free pages is not longer than the number of pages that are not counted. -/
theorem seg_le_sub64 {i n : Nat} (htotal : m.pageTotal < 2 ^ 64) (huse : m.pageUse = m.usedPages)
    (h : Seg m.FreePage m.pageTotal i n) : n ≤ sub64 m.pageTotal m.pageUse := by
  have hroom : m.usedPages + n ≤ m.pageTotal := h.count_add_le
  rw [sub64_of_le (by omega) htotal]
  omega

/-- The first run that is at most one page too short does not start behind a run that is
long enough. -/
theorem firstNear_le {i p req : Nat} (hreq : 1 ≤ req)
    (hnear : FirstNear m.FreePage m.pageTotal req p)
    (h : Seg m.FreePage m.pageTotal i req) : p ≤ i := by
  obtain ⟨n, -, -, hbefore⟩ := hnear
  obtain ⟨k, len, hk, hlen, hmax⟩ := h.exists_maxSeg hreq
  by_contra hlt
  have := hbefore k len hmax (by omega)
  omega

/-- A difference of counts is right exactly when as much is taken off as has gone. -/
theorem sub64_eq_iff {u u' c n : Nat} (hu : u' + c = u) (hcn : c ≤ n) (hlt : u < 2 ^ 64)
    (hn : n < 2 ^ 64) : sub64 u n = u' ↔ c = n := by
  unfold sub64
  omega

/-- Clearing a range takes the used pages of the range out of the table. -/
theorem usedEntries_clear (stat : Nat → UInt8) {off n total : Nat} (h : off + n ≤ total) :
    usedEntries (kMemNodeSetPageFlag stat off n 0) total +
      Nat.count (fun k => stat (off + k) ≠ 0) n = usedEntries stat total := by
  refine count_clear (fun i => stat i ≠ 0) (fun i => kMemNodeSetPageFlag stat off n 0 i ≠ 0)
    h ?_ ?_
  · intro i hge hlt
    rw [kMemNodeSetPageFlag_apply, if_pos ⟨hge, hlt⟩]
    exact not_not.mpr rfl
  · intro i hi
    rw [kMemNodeSetPageFlag_apply, if_neg (by omega)]

/-- The size of the range is the right number to take off the count exactly when all its
pages are used. -/
theorem usedEntries_clear_iff (stat : Nat → UInt8) {off n total : Nat} (htotal : total < 2 ^ 64)
    (h : off + n ≤ total) :
    sub64 (usedEntries stat total) n = usedEntries (kMemNodeSetPageFlag stat off n 0) total ↔
      ∀ p, off ≤ p → p < off + n → stat p ≠ 0 := by
  have hle : usedEntries stat total ≤ total := Nat.count_le _
  rw [sub64_eq_iff (usedEntries_clear stat h) (Nat.count_le _) (by omega) (by omega),
    Nat.count_iff_forall]
  constructor
  · intro hall p hge hlt
    have hused := hall (p - off) (by omega)
    rwa [Nat.add_sub_cancel' hge] at hused
  · intro hall k hk
    exact hall _ (Nat.le_add_right _ _) (Nat.add_lt_add_left hk _)

/-- Where the taken ranges make up the table, the count is right. -/
theorem Tiles.pageUse_eq {h : HeapState} {rs : List Mapping} (ht : Tiles h rs) :
    h.node.pageUse = h.node.usedPages := by
  induction rs generalizing h with
  | nil =>
      have hnone : h.node.usedPages = 0 := by
        rw [MemNode.usedPages, usedEntries, Nat.count_iff_forall_not]
        intro p hp hused
        obtain ⟨g, hg, -⟩ := (ht.used p hp).mp hused
        exact absurd hg List.not_mem_nil
      rw [ht.use_sum, hnone]
      rfl
  | cons g rs ih =>
      -- release the first range and count its pages separately
      obtain ⟨m', hm'⟩ : ∃ m', m' = { h.node with
          statPage := kMemNodeSetPageFlag h.node.statPage g.first g.pages 0
          pageUse := sub64 h.node.pageUse g.pages } := ⟨_, rfl⟩
      have hrest : m'.pageUse = m'.usedPages := by
        have hrelease : Tiles (h.setNode m') rs :=
          ht.release hm' (HeapState.setNode_dbgHeapNum h m')
        exact ih hrelease
      have hcount : m'.pageUse = sub64 h.node.pageUse g.pages := by rw [hm']
      have hstat : m'.statPage = kMemNodeSetPageFlag h.node.statPage g.first g.pages 0 := by
        rw [hm']
      have htable : m'.pageTotal = h.node.pageTotal := by rw [hm']
      have hin := ht.inside g List.mem_cons_self
      have hwindow : Nat.count (fun k => h.node.statPage (g.first + k) ≠ 0) g.pages =
          g.pages := by
        rw [Nat.count_iff_forall]
        intro k hk
        apply (ht.used _ (by omega)).mpr
        exact ⟨g, List.mem_cons_self, Nat.le_add_right _ _, Nat.add_lt_add_left hk _⟩
      have hclear := usedEntries_clear h.node.statPage hin
      have hsum := ht.use_sum
      have hle := ht.use_le
      have htotal := ht.total_lt
      rw [List.map_cons, List.sum_cons] at hsum
      rw [hcount, MemNode.usedPages, hstat, htable, sub64_of_le (by omega) (by omega)] at hrest
      rw [MemNode.usedPages]
      omega

end Count

/-- In every history whose allocations fit, the count is right. -/
theorem history_count_right (cfg : MemConfig) (mem : Mem) {calls : List MapCall} {s : MapState}
    (hfits : Along (mapStep cfg) (ScanFits cfg) (mapInit cfg mem) calls)
    (hrun : exec (mapStep cfg) (mapInit cfg mem) calls = some s) :
    s.heap.node.pageUse = s.heap.node.usedPages := by
  have hinv : MapInv cfg s :=
    exec_invariant (fun _ _ _ h hfit hstep => MapInv.step h hfit hstep)
      (mapInit_inv cfg mem) hfits hrun
  exact hinv.tiles.pageUse_eq

/-- With a right count, an allocation whose length does not wrap finds a page that is not
behind the first run of free pages that is long enough. A failed allocation changes nothing. -/
theorem alloc_pages_complete (cfg : MemConfig) (h : HeapState) (length : Nat)
    (hnode : h.node.Describes cfg) (huse : h.node.pageUse = h.node.usedPages)
    (hlength : 1 ≤ length) (hwrap : length + pageSize - 1 < 2 ^ cfg.bits) :
    let out := kMemNodeAllocPagesNolock cfg.toTarget h length
    (∀ i, Seg h.node.FreePage h.node.pageTotal i ((length + pageSize - 1) / pageSize) →
        ∃ p : Nat, out.2 = p ∧ p ≤ i) ∧
      (out.2 < 0 → out.1.node.statPage = h.node.statPage ∧ out.1.node.pageUse = h.node.pageUse ∧
        out.1.dbgHeapNum = h.dbgHeapNum) := by
  have hreq : 1 ≤ reqPage cfg.toTarget length := reqPage_pos hlength hwrap
  have hspec := allocScan_zero_spec (m := h.node) hreq
  rw [← reqPage_of_lt (t := cfg.toTarget) hwrap]
  rcases kMemNodeAllocPagesNolock_cases cfg.toTarget h length with
    ⟨r, -, heq, hwhy⟩ | ⟨p, -, -, hscan, heq⟩
  · rw [heq]
    refine ⟨fun i hi => ?_, fun _ => ⟨rfl, rfl, rfl⟩⟩
    -- none of the reasons to fail is compatible with a run that is long enough
    exfalso
    rcases hwhy with hzero | hfew | hnone
    · omega
    · have := seg_le_sub64 hnode.total_lt huse hi
      omega
    · rw [hnone] at hspec
      obtain ⟨k, len, -, hlen, hmax⟩ := hi.exists_maxSeg hreq
      have := hspec k len hmax
      omega
  · rw [hscan] at hspec
    rw [heq]
    refine ⟨fun i hi => ⟨p, rfl, firstNear_le hreq hspec hi⟩, fun hneg => ?_⟩
    exact absurd hneg (Int.not_lt.mpr (Int.natCast_nonneg p))

theorem alloc_pages_complete_second :
    ∃ p : Nat, (kMemNodeAllocPagesNolock fivePages.toTarget (fiveHeap 1 firstTaken) 0x1001).2 = p ∧
      p ≤ 1 := by
  have hcomplete := alloc_pages_complete fivePages (fiveHeap 1 firstTaken) 0x1001
    (fiveHeap_describes _ _) (by decide) (by decide) (by decide)
  exact hcomplete.1 1 ⟨by decide, show ∀ j < 2, firstTaken (1 + j) = 0 by decide⟩

/-- For a range of addresses inside the area, a release keeps the count right exactly when
all pages it goes over are allocated. -/
theorem munmap_keeps_count_iff (cfg : MemConfig) (h : HeapState) (addr length : Nat)
    (hnode : h.node.Describes cfg) (huse : h.node.pageUse = h.node.usedPages)
    (hlow : h.node.vaddr ≤ addr) (hhigh : addr + length ≤ h.node.vaddr + h.node.size) :
    let after := (kSysMunmap cfg h addr length).1.node
    after.pageUse = after.usedPages ↔
      ∀ i ∈ spanPages h.node addr length, ¬ h.node.FreePage i := by
  intro after
  have haccept : ¬ (addr < h.node.vaddr ∨
      h.node.vaddr + h.node.size < cfg.wrap (addr + length)) := by
    have := hnode.area_lt
    rw [Target.wrap, Nat.mod_eq_of_lt (by omega)]
    omega
  have hafter : after = (kMemNodeFreePagesNolock h addr length).1.node := by
    simp only [after, kSysMunmap, if_neg haccept]
  rw [kMemNodeFreePagesNolock_eq] at hafter
  simp only [mem_spanPages_iff]
  cases hcase : pageSpan h.node addr length with
  | none =>
      rw [hcase] at hafter
      refine iff_of_true (by rw [hafter, huse]) ?_
      rintro i ⟨g, hg, -⟩
      exact absurd hg (by simp)
  | some g =>
      have hspan := pageSpan_eq_some_iff.mp hcase
      have hinside := hspan.inside_of_le hnode.size_eq hhigh
      rw [hcase, HeapState.setNode_node] at hafter
      have hcount : after.pageUse = sub64 h.node.pageUse g.pages := by rw [hafter]
      have hstat : after.statPage =
          kMemNodeSetPageFlag h.node.statPage g.first g.pages 0 := by rw [hafter]
      have htotal : after.pageTotal = h.node.pageTotal := by rw [hafter]
      rw [hcount, huse, MemNode.usedPages, MemNode.usedPages, hstat, htotal,
        usedEntries_clear_iff h.node.statPage hnode.total_lt hinside]
      constructor
      · rintro hall i ⟨g', hg', hge, hlt⟩
        obtain rfl : g = g' := Option.some.inj hg'
        exact hall i hge hlt
      · intro hall p hge hlt
        exact hall p ⟨g, rfl, hge, hlt⟩

theorem munmap_keeps_count_iff_first :
    (kSysMunmap fivePages (fiveHeap 1 firstTaken) 0x80000000 0x1000).1.node.pageUse =
      (kSysMunmap fivePages (fiveHeap 1 firstTaken) 0x80000000 0x1000).1.node.usedPages :=
  (munmap_keeps_count_iff fivePages (fiveHeap 1 firstTaken) 0x80000000 0x1000
    (fiveHeap_describes _ _) (by decide) (by decide) (by decide)).mpr (by decide)

/-- Releasing a page that is free already takes it off the count once more. -/
theorem munmap_double_free_miscounts :
    (fiveHeap 1 firstTaken).node.pageUse = (fiveHeap 1 firstTaken).node.usedPages ∧
    (kSysMunmap fivePages (fiveHeap 1 firstTaken) 0x80001000 0x1000).2 = 0 ∧
    (kSysMunmap fivePages (fiveHeap 1 firstTaken) 0x80001000 0x1000).1.node.pageUse = 0 ∧
    (kSysMunmap fivePages (fiveHeap 1 firstTaken) 0x80001000 0x1000).1.node.usedPages = 1 := by
  decide

end BaremetalCrt
