import BaremetalCrt.Memory.Mappings
import BaremetalCrt.Sys.MemRoutines

/-!
# The pages that a release and a check go over

`k_mem_node_free_pages_nolock` and `k_mem_node_check_pages_nolock` turn an address and a
length into a range of pages in the same way. The length is rounded down, and one page is
added when the address is not at the start of a page. Neither of them looks at the end of
the range: `k_sys_munmap` does so for a release, in word arithmetic, and nobody for a check.
`k_sys_madvise` clears nothing of the range that it has checked.
-/

namespace BaremetalCrt

/-- The pages that both loops go over, if the address is accepted. -/
def pageSpan (m : MemNode) (start length : Nat) : Option Mapping :=
  if length = 0 then none
  else if start < m.vaddr ∨ m.vaddr + m.size ≤ start then none
  else
    let offAddr := start - m.vaddr
    some ⟨offAddr / pageSize, length / pageSize + if offAddr % pageSize ≠ 0 then 1 else 0⟩

/-- The indices of `stat_page` that the loops use: a check reads them, a release reads them
for its report and then writes them. -/
def spanPages (m : MemNode) (start length : Nat) : List Nat :=
  match pageSpan m start length with
  | none => []
  | some g => List.range' g.first g.pages

/-- An accepted address and length, and the range they are turned into. -/
structure SpanAt (m : MemNode) (start length : Nat) (g : Mapping) : Prop where
  pos : 0 < length
  low : m.vaddr ≤ start
  high : start < m.vaddr + m.size
  first : g.first = (start - m.vaddr) / pageSize
  pages : g.pages = length / pageSize + if (start - m.vaddr) % pageSize ≠ 0 then 1 else 0

/-- Page `i` of the node shares a byte with the range of addresses. -/
def MemNode.PageMeets (m : MemNode) (start length i : Nat) : Prop :=
  start < m.vaddr + (i + 1) * pageSize ∧ m.vaddr + i * pageSize < start + length

/-- The range of addresses lies in the node, and all pages it meets are allocated. -/
structure RangeAllocated (m : MemNode) (start length : Nat) : Prop where
  low : m.vaddr ≤ start
  high : start + length ≤ m.vaddr + m.size
  pages : ∀ i, m.PageMeets start length i → ¬ m.FreePage i

/-- The pages that are gone over lie in the table. If the range of addresses reaches into
the page behind them while they are all allocated, then that page is one of the table and
allocated too. -/
def SpanCovers (m : MemNode) (start length : Nat) : Prop :=
  ∀ g, pageSpan m start length = some g → g.first + g.pages ≤ m.pageTotal ∧
    (m.PageMeets start length (g.first + g.pages) → (∀ p, g.Has p → ¬ m.FreePage p) →
      g.first + g.pages < m.pageTotal ∧ ¬ m.FreePage (g.first + g.pages))

section Span

variable {m : MemNode} {start length i : Nat} {g : Mapping}

theorem pageSpan_eq_some_iff : pageSpan m start length = some g ↔ SpanAt m start length g := by
  unfold pageSpan
  constructor
  · intro h
    split at h
    · exact absurd h (by simp)
    · split at h
      · exact absurd h (by simp)
      · obtain rfl := Option.some.inj h
        exact ⟨by omega, by omega, by omega, rfl, rfl⟩
  · intro h
    have hpos := h.pos
    have hlow := h.low
    have hhigh := h.high
    rw [if_neg (by omega), if_neg (by omega)]
    dsimp only
    rw [← h.first, ← h.pages]

theorem pageSpan_eq_none_iff : pageSpan m start length = none ↔
    length = 0 ∨ start < m.vaddr ∨ m.vaddr + m.size ≤ start := by
  unfold pageSpan
  split
  · rename_i h0
    simp [h0]
  · rename_i h0
    split
    · rename_i hout
      simp [hout]
    · rename_i hin
      simp [h0, hin]

theorem mem_spanPages_iff :
    i ∈ spanPages m start length ↔ ∃ g, pageSpan m start length = some g ∧ g.Has i := by
  unfold spanPages
  split
  · rename_i hnone
    simp [hnone]
  · rename_i g hsome
    rw [List.mem_range'_1]
    constructor
    · intro hi
      exact ⟨g, hsome, hi⟩
    · rintro ⟨g', hg', hi⟩
      obtain rfl : g = g' := Option.some.inj (hsome.symm.trans hg')
      exact hi

/-- A page that is gone over meets the range of addresses. -/
theorem SpanAt.meets_of_has (h : SpanAt m start length g) (hi : g.Has i) :
    m.PageMeets start length i := by
  obtain ⟨-, hlow, -, hfirst, hpages⟩ := h
  obtain ⟨hge, hlt⟩ := hi
  unfold MemNode.PageMeets
  unfold pageSize at *
  split at hpages
  · omega
  · omega

/-- A page that meets the range of addresses is gone over or is the page behind. -/
theorem SpanAt.has_or_next (h : SpanAt m start length g) (hi : m.PageMeets start length i) :
    g.Has i ∨ i = g.first + g.pages := by
  obtain ⟨-, hlow, -, hfirst, hpages⟩ := h
  obtain ⟨hge, hlt⟩ := hi
  unfold Mapping.Has
  unfold pageSize at *
  split at hpages
  · omega
  · omega

/-- The range of addresses ends in the page behind at the latest, and before it unless it
meets that page. -/
theorem SpanAt.end_le (h : SpanAt m start length g) :
    start + length ≤ m.vaddr + (g.first + g.pages + 1) * pageSize ∧
      (¬ m.PageMeets start length (g.first + g.pages) →
        start + length ≤ m.vaddr + (g.first + g.pages) * pageSize) := by
  obtain ⟨-, hlow, -, hfirst, hpages⟩ := h
  unfold MemNode.PageMeets
  unfold pageSize at *
  split at hpages
  · omega
  · omega

end Span

/-- A release in terms of the pages it goes over. -/
theorem kMemNodeFreePagesNolock_eq (h : HeapState) (start length : Nat) :
    kMemNodeFreePagesNolock h start length =
      match pageSpan h.node start length with
      | none => (h, -einval)
      | some g =>
          (h.setNode { h.node with
            statPage := kMemNodeSetPageFlag h.node.statPage g.first g.pages 0
            pageUse := sub64 h.node.pageUse g.pages }, 0) := by
  unfold kMemNodeFreePagesNolock pageSpan
  dsimp only
  split
  · rfl
  · split
    · rfl
    · rfl

/-- A release leaves the pages alone that it does not go over. -/
theorem kMemNodeFreePagesNolock_statPage (h : HeapState) (start length i : Nat) :
    (kMemNodeFreePagesNolock h start length).1.node.statPage i =
      if i ∈ spanPages h.node start length then 0 else h.node.statPage i := by
  rw [kMemNodeFreePagesNolock_eq]
  unfold spanPages
  cases pageSpan h.node start length with
  | none => simp
  | some g =>
      change kMemNodeSetPageFlag h.node.statPage g.first g.pages 0 i = _
      rw [kMemNodeSetPageFlag_apply]
      simp only [List.mem_range'_1]

/-- The answer of a check in terms of the pages it goes over. -/
theorem kMemCheckPages_eq_zero_iff (h : HeapState) (start length : Nat) :
    kMemCheckPages h start length = 0 ↔
      ∃ g, pageSpan h.node start length = some g ∧ ∀ p, g.Has p → ¬ h.node.FreePage p := by
  have heq : kMemCheckPages h start length =
      match pageSpan h.node start length with
      | none => -einval
      | some g => if checkLoop h.node.statPage g.pages g.first false then -ebadf else 0 := by
    unfold kMemCheckPages kMemNodeCheckPagesNolock pageSpan
    dsimp only
    split
    · rfl
    · split
      · rfl
      · rfl
  rw [heq]
  cases pageSpan h.node start length with
  | none => exact iff_of_false (show -einval ≠ 0 by decide) fun ⟨g, hg, _⟩ => by simp at hg
  | some g =>
      have hloop := checkLoop_eq_true_iff h.node.statPage g.pages g.first false
      simp only [Option.some.injEq, exists_eq_left']
      split
      · rename_i hfailed
        obtain ⟨j, hlow, hhigh, hj⟩ := (hloop.mp hfailed).resolve_left (by simp)
        exact iff_of_false (show -ebadf ≠ 0 by decide) fun hall => hall j ⟨hlow, hhigh⟩ hj
      · rename_i hpassed
        refine iff_of_true rfl fun p hp hfree => hpassed (hloop.mpr (Or.inr ?_))
        exact ⟨p, hp.1, hp.2, hfree⟩

section Area

variable {cfg : MemConfig} {m : MemNode}

/-- The pages of the table make up the heap area. -/
theorem MemNode.Describes.size_eq (h : m.Describes cfg) : m.size = m.pageTotal * pageSize := by
  have haligned := cfg.heap_aligned
  rw [h.size, h.total]
  unfold pageSize at *
  omega

theorem MemNode.Describes.area_lt (h : m.Describes cfg) : m.vaddr + m.size < 2 ^ cfg.bits := by
  rw [h.vaddr, h.size]
  exact cfg.area_fits

/-- There is at least one whole page between the heap area and the end of memory. -/
theorem MemNode.Describes.area_le (h : m.Describes cfg) :
    m.vaddr + m.size + pageSize ≤ 2 ^ cfg.bits := by
  have hlt := h.area_lt
  have hsize := h.size_eq
  have haligned := h.aligned
  have hvaddr := h.vaddr
  have hword := cfg.toTarget.word_mod_page
  unfold pageSize at *
  omega

section Inside

variable {start length : Nat} {g : Mapping}

/-- For a range of addresses that ends in the area, all pages gone over lie in the table. -/
theorem SpanAt.inside_of_le (h : SpanAt m start length g)
    (hsize : m.size = m.pageTotal * pageSize) (hend : start + length ≤ m.vaddr + m.size) :
    g.first + g.pages ≤ m.pageTotal := by
  obtain ⟨-, hlow, -, hfirst, hpages⟩ := h
  unfold pageSize at *
  split at hpages
  · omega
  · omega

/-- For a range that ends a page or more behind the area, the page behind the table is one of
those gone over. -/
theorem SpanAt.outside_of_ge (h : SpanAt m start length g)
    (hsize : m.size = m.pageTotal * pageSize)
    (hend : m.vaddr + m.size + pageSize ≤ start + length) : g.Has m.pageTotal := by
  obtain ⟨-, hlow, hhigh, hfirst, hpages⟩ := h
  unfold Mapping.Has
  unfold pageSize at *
  split at hpages
  · omega
  · omega

/-- The pages gone over start inside the table, so their end tells whether they lie in it. -/
theorem SpanAt.inside_iff (h : SpanAt m start length g)
    (hsize : m.size = m.pageTotal * pageSize) :
    (∀ i, g.Has i → i < m.pageTotal) ↔ g.first + g.pages ≤ m.pageTotal := by
  constructor
  · intro hinside
    have hhigh := h.high
    have hfirst := h.first
    rcases Nat.eq_zero_or_pos g.pages with hzero | hpos
    · unfold pageSize at *
      omega
    · have := hinside (g.first + g.pages - 1) ⟨by omega, by omega⟩
      omega
  · intro hle i hi
    exact Nat.lt_of_lt_of_le hi.2 hle

/-- A page that an allocated range meets lies in the table. -/
theorem RangeAllocated.lt_of_meets (h : RangeAllocated m start length)
    (hsize : m.size = m.pageTotal * pageSize) {i : Nat} (hmeets : m.PageMeets start length i) :
    i < m.pageTotal := by
  have hhigh := h.high
  have hlt := hmeets.2
  unfold pageSize at *
  omega

/-- The range is allocated if the pages gone over and, where it is met, the page behind them
are. -/
theorem SpanAt.rangeAllocated (h : SpanAt m start length g)
    (hsize : m.size = m.pageTotal * pageSize) (hle : g.first + g.pages ≤ m.pageTotal)
    (hall : ∀ p, g.Has p → ¬ m.FreePage p)
    (hnext : m.PageMeets start length (g.first + g.pages) →
      g.first + g.pages < m.pageTotal ∧ ¬ m.FreePage (g.first + g.pages)) :
    RangeAllocated m start length := by
  obtain ⟨hend, hbefore⟩ := h.end_le
  refine ⟨h.low, ?_, fun i hi => ?_⟩
  · by_cases hmeets : m.PageMeets start length (g.first + g.pages)
    · have hlt := (hnext hmeets).1
      unfold pageSize at *
      omega
    · have := hbefore hmeets
      unfold pageSize at *
      omega
  · rcases h.has_or_next hi with hhas | rfl
    · exact hall i hhas
    · exact (hnext hi).2

end Inside

end Area

theorem kSysMunmap_eq_zero_iff {cfg : MemConfig} {h : HeapState} {addr length : Nat} :
    (kSysMunmap cfg h addr length).2 = 0 ↔
      h.node.vaddr ≤ addr ∧ cfg.wrap (addr + length) ≤ h.node.vaddr + h.node.size := by
  unfold kSysMunmap
  split
  · exact iff_of_false (show -einval ≠ 0 by decide) (by omega)
  · exact iff_of_true rfl (by omega)

/-- A release that `k_sys_munmap` accepts stays inside the table exactly when the end of the
range of addresses does not wrap, or the address is behind the area and refused later. -/
theorem munmap_indices_inside_iff (cfg : MemConfig) (h : HeapState) (addr length : Nat)
    (hnode : h.node.Describes cfg) (haddr : addr < 2 ^ cfg.bits)
    (haccept : (kSysMunmap cfg h addr length).2 = 0) :
    (∀ i ∈ spanPages h.node addr length, i < h.node.pageTotal) ↔
      addr + length < 2 ^ cfg.bits ∨ h.node.vaddr + h.node.size ≤ addr := by
  obtain ⟨hlow, hend⟩ := kSysMunmap_eq_zero_iff.mp haccept
  constructor
  · intro hinside
    by_contra hcon
    have hspan : pageSpan h.node addr length ≠ none := by
      rw [Ne, pageSpan_eq_none_iff]
      omega
    obtain ⟨g, hg⟩ := Option.ne_none_iff_exists'.mp hspan
    have hlast : g.Has h.node.pageTotal := by
      apply (pageSpan_eq_some_iff.mp hg).outside_of_ge hnode.size_eq
      have := hnode.area_le
      omega
    exact absurd (hinside _ (mem_spanPages_iff.mpr ⟨g, hg, hlast⟩)) (Nat.lt_irrefl _)
  · intro hcases i hi
    obtain ⟨g, hg, hhas⟩ := mem_spanPages_iff.mp hi
    have hspan := pageSpan_eq_some_iff.mp hg
    have hhigh := hspan.high
    have hnowrap : addr + length < 2 ^ cfg.bits := hcases.resolve_right (by omega)
    rw [Target.wrap, Nat.mod_eq_of_lt hnowrap] at hend
    exact Nat.lt_of_lt_of_le hhas.2 (hspan.inside_of_le hnode.size_eq hend)

/-- The heap area of five pages with the given table. -/
def fiveHeap (use : Nat) (stat : Nat → UInt8) : HeapState where
  node := { vaddr := 0x80000000, size := 0x5000, pageTotal := 5, pageUse := use, statPage := stat }
  dbgHeapNum := 2
  brkTop := 0x80000000
  brkCur := 0x80000000
  mem := fun _ => 1

theorem fiveHeap_describes (use : Nat) (stat : Nat → UInt8) :
    (fiveHeap use stat).node.Describes fivePages :=
  ⟨rfl, rfl, rfl, rfl, show 0 < 0x80000000 by decide⟩

/-- The table with the first page taken. -/
def firstTaken : Nat → UInt8 := fun i => if i = 0 then 1 else 0

theorem munmap_indices_inside_iff_last :
    4 ∈ spanPages (fiveHeap 1 firstTaken).node 0x80004000 0x1000 ∧
      4 < (fiveHeap 1 firstTaken).node.pageTotal := by
  have hlast : 4 ∈ spanPages (fiveHeap 1 firstTaken).node 0x80004000 0x1000 := by decide
  have hinside := (munmap_indices_inside_iff fivePages (fiveHeap 1 firstTaken) 0x80004000 0x1000
    (fiveHeap_describes _ _) (by decide) (by decide)).mpr (Or.inl (by decide))
  exact ⟨hlast, hinside 4 hlast⟩

/-- A length with which the end of the range wraps to its start is accepted, and the release
runs over the end of the table. -/
theorem munmap_indices_outside :
    (kSysMunmap fivePages (fiveHeap 1 firstTaken) 0x80001000 (2 ^ 64 - 0x1000)).2 = 0 ∧
      5 ∈ spanPages (fiveHeap 1 firstTaken).node 0x80001000 (2 ^ 64 - 0x1000) ∧
      ¬ 5 < (fiveHeap 1 firstTaken).node.pageTotal := by
  refine ⟨kSysMunmap_eq_zero_iff.mpr (by decide), ?_, by decide⟩
  exact mem_spanPages_iff.mpr ⟨⟨1, 2 ^ 52 - 1⟩, by decide, by decide, by decide⟩

/-- A check answers zero exactly for ranges of allocated pages and stays inside the table,
if and only if the pages it goes over cover the range. -/
theorem check_pages_exact_iff (cfg : MemConfig) (h : HeapState) (start length : Nat)
    (hnode : h.node.Describes cfg) (hlength : 1 ≤ length) :
    ((kMemCheckPages h start length = 0 ↔ RangeAllocated h.node start length) ∧
        ∀ i ∈ spanPages h.node start length, i < h.node.pageTotal) ↔
      SpanCovers h.node start length := by
  have hsize := hnode.size_eq
  cases hcase : pageSpan h.node start length with
  | none =>
      -- the address is refused, and no range at it lies in the node
      have hout := (pageSpan_eq_none_iff.mp hcase).resolve_left (by omega)
      refine iff_of_true ⟨iff_of_false ?_ ?_, ?_⟩ ?_
      · rw [kMemCheckPages_eq_zero_iff, hcase]
        rintro ⟨g, hg, -⟩
        exact absurd hg (by simp)
      · rintro ⟨hlow, hhigh, -⟩
        omega
      · intro i hi
        obtain ⟨g, hg, -⟩ := mem_spanPages_iff.mp hi
        rw [hcase] at hg
        exact absurd hg (by simp)
      · intro g hg
        rw [hcase] at hg
        exact absurd hg (by simp)
  | some g =>
      have hspan := pageSpan_eq_some_iff.mp hcase
      have hcheck : kMemCheckPages h start length = 0 ↔ ∀ p, g.Has p → ¬ h.node.FreePage p := by
        rw [kMemCheckPages_eq_zero_iff, hcase]
        simp
      have hpages : (∀ i ∈ spanPages h.node start length, i < h.node.pageTotal) ↔
          g.first + g.pages ≤ h.node.pageTotal := by
        rw [← hspan.inside_iff hsize]
        simp only [mem_spanPages_iff, hcase, Option.some.injEq, exists_eq_left']
      rw [hcheck, hpages]
      constructor
      · rintro ⟨hexact, hle⟩ g' hg'
        obtain rfl : g = g' := Option.some.inj (hcase.symm.trans hg')
        refine ⟨hle, fun hmeets hall => ?_⟩
        have hrange := hexact.mp hall
        exact ⟨hrange.lt_of_meets hsize hmeets, hrange.pages _ hmeets⟩
      · intro hcovers
        obtain ⟨hle, hnext⟩ := hcovers g hcase
        refine ⟨⟨fun hall => ?_, fun hrange p hp => ?_⟩, hle⟩
        · exact hspan.rangeAllocated hsize hle hall fun hmeets => hnext hmeets hall
        · exact hrange.pages p (hspan.meets_of_has hp)

theorem check_pages_exact_iff_first :
    kMemCheckPages (fiveHeap 1 firstTaken) 0x80000000 0x1000 = 0 ↔
      RangeAllocated (fiveHeap 1 firstTaken).node 0x80000000 0x1000 := by
  have hcovers : SpanCovers (fiveHeap 1 firstTaken).node 0x80000000 0x1000 := by
    intro g hg
    obtain rfl : g = ⟨0, 1⟩ := by
      have hspan : pageSpan (fiveHeap 1 firstTaken).node 0x80000000 0x1000 = some ⟨0, 1⟩ := by
        decide
      exact Option.some.inj (hg.symm.trans hspan)
    exact ⟨by decide, fun hmeets => absurd hmeets.2 (by decide)⟩
  exact ((check_pages_exact_iff fivePages (fiveHeap 1 firstTaken) 0x80000000 0x1000
    (fiveHeap_describes _ _) (by decide)).mpr hcovers).1

/-- A check of one byte goes over no page, so it accepts a byte of a free page. -/
theorem check_pages_accepts_free :
    kMemCheckPages (fiveHeap 1 firstTaken) 0x80001000 1 = 0 ∧
      ¬ RangeAllocated (fiveHeap 1 firstTaken).node 0x80001000 1 := by
  refine ⟨by decide, fun hrange => ?_⟩
  exact hrange.pages 1 ⟨by decide, by decide⟩ (by decide)

/-- `k_sys_madvise` leaves the memory as it is. -/
theorem kSysMadvise_mem (t : Target) (h : HeapState) (addr length : Nat) (advice : Int) :
    (kSysMadvise t h addr length advice).1.mem = h.mem := by
  unfold kSysMadvise
  split
  · dsimp only
    split
    · rfl
    · rw [kMemset_eq_copy, LittleEndian.copy_zero]
  · rfl

theorem kSysMadvise_dontneed_result (t : Target) (h : HeapState) (addr length : Nat) :
    (kSysMadvise t h addr length madvDontneed).2 = kMemCheckPages h addr length := by
  rw [kSysMadvise, if_pos rfl]
  dsimp only
  split
  · rfl
  · rename_i hpassed
    exact (not_not.mp hpassed).symm

/-- A successful `k_sys_madvise` clears its range and nothing else, if and only if the check
refuses the range or the range was clear before. -/
theorem madvise_clears_iff (t : Target) (h : HeapState) (addr length : Nat) :
    let reply := kSysMadvise t h addr length madvDontneed
    (reply.2 = 0 →
      (∀ a, addr ≤ a → a < addr + length → reply.1.mem a = 0) ∧
        ∀ a, a < addr ∨ addr + length ≤ a → reply.1.mem a = h.mem a) ↔
      kMemCheckPages h addr length ≠ 0 ∨
        ∀ a, addr ≤ a → a < addr + length → h.mem a = 0 := by
  intro reply
  have hresult : reply.2 = kMemCheckPages h addr length :=
    kSysMadvise_dontneed_result t h addr length
  have hsame : reply.1.mem = h.mem := kSysMadvise_mem t h addr length madvDontneed
  rw [hresult, hsame]
  constructor
  · intro hclears
    by_cases hcheck : kMemCheckPages h addr length = 0
    · exact Or.inr (hclears hcheck).1
    · exact Or.inl hcheck
  · rintro (hrefused | hzero) hcheck
    · exact absurd hcheck hrefused
    · exact ⟨hzero, fun _ _ => rfl⟩

/-- The allocated page keeps its bytes although the call succeeds. -/
theorem madvise_keeps_bytes :
    RangeAllocated (fiveHeap 1 firstTaken).node 0x80000000 0x1000 ∧
      (kSysMadvise fivePages.toTarget (fiveHeap 1 firstTaken) 0x80000000 0x1000
        madvDontneed).2 = 0 ∧
      (kSysMadvise fivePages.toTarget (fiveHeap 1 firstTaken) 0x80000000 0x1000
        madvDontneed).1.mem 0x80000000 = 1 := by
  refine ⟨⟨by decide, by decide, fun i hmeets hfree => ?_⟩, by decide, ?_⟩
  · have hfirst : i = 0 := by
      have hlt : 0x80000000 + i * 4096 < 0x80000000 + 0x1000 := hmeets.2
      omega
    rw [hfirst] at hfree
    exact absurd hfree (by decide)
  · rw [kSysMadvise_mem]
    rfl

end BaremetalCrt
