import BaremetalCrt.Memory.Ranges

/-!
# The sizes of requests

An allocation rounds the length up to pages and a release rounds it down, both in word
arithmetic. The index that an allocation answers with is a signed number, and `k_sys_mmap`
stores it in an unsigned one before it asks whether it is negative.
-/

namespace BaremetalCrt

open FreeSegments

/-- The allocation has marked `n` pages from page `i` on with its tag, and counted them. -/
structure Marked (t : Target) (h h' : HeapState) (i n : Nat) : Prop where
  word : n < 2 ^ t.bits
  stat : h'.node.statPage = kMemNodeSetPageFlag h.node.statPage i n h.dbgHeapNum.toUInt8
  count : h'.node.pageUse = add64 h.node.pageUse n

/-- A result in the range of the negative error numbers. -/
def NegErrno (r : Int) : Prop := -4096 < r ∧ r < 0

instance (r : Int) : Decidable (NegErrno r) := inferInstanceAs (Decidable (_ ∧ _))

section Rounding

variable {t : Target} {length : Nat}

theorem reqPage_lt (t : Target) (length : Nat) : reqPage t length < 2 ^ t.bits := by
  have hword := t.word_ge
  exact Nat.lt_of_le_of_lt (Nat.div_le_self _ _) (Nat.mod_lt _ (by omega))

/-- The pages of a request cover its length exactly when rounding up does not wrap. -/
theorem le_reqPage_mul_iff (hpos : 1 ≤ length) (hlength : length < 2 ^ t.bits) :
    length ≤ reqPage t length * pageSize ↔ length + pageSize - 1 < 2 ^ t.bits := by
  rcases Nat.lt_or_ge (length + pageSize - 1) (2 ^ t.bits) with hfit | hwrap
  · rw [reqPage_of_lt hfit]
    refine iff_of_true ?_ hfit
    unfold pageSize
    omega
  · rw [reqPage_of_wrap hlength hwrap]
    omega

/-- Rounding up and rounding down agree on whole pages only. -/
theorem reqPage_eq_div_iff (hpos : 1 ≤ length) (hlength : length < 2 ^ t.bits) :
    reqPage t length = length / pageSize ↔ length % pageSize = 0 := by
  have hword := t.word_ge
  rcases Nat.lt_or_ge (length + pageSize - 1) (2 ^ t.bits) with hfit | hwrap
  · rw [reqPage_of_lt hfit]
    unfold pageSize
    omega
  · have haligned := t.word_mod_page
    rw [reqPage_of_wrap hlength hwrap]
    unfold pageSize at *
    omega

end Rounding

section Alloc

variable {t : Target} {h : HeapState} {length i : Nat}

/-- What an allocation that answers with an index has done. -/
theorem kMemNodeAllocPagesNolock_success
    (hret : (kMemNodeAllocPagesNolock t h length).2 = i) :
    i < h.node.pageTotal ∧ kMemNodeAllocPagesNolock t h length =
      ({ h with
          node := { h.node with
            statPage := kMemNodeSetPageFlag h.node.statPage i (reqPage t length)
              h.dbgHeapNum.toUInt8
            pageUse := add64 h.node.pageUse (reqPage t length) }
          dbgHeapNum := nextDbgHeapNum h.dbgHeapNum }, (i : Int)) := by
  rcases kMemNodeAllocPagesNolock_cases t h length with
    ⟨r, hr, heq, -⟩ | ⟨j, -, -, hscan, heq⟩
  · rw [heq] at hret
    have hindex : r = i := hret
    omega
  · rw [heq] at hret
    obtain rfl : j = i := Int.ofNat.inj hret
    exact ⟨(allocScan_free hscan).1, heq⟩

theorem kMemNodeAllocPagesNolock_marked
    (hret : (kMemNodeAllocPagesNolock t h length).2 = i) :
    Marked t h (kMemNodeAllocPagesNolock t h length).1 i (reqPage t length) := by
  rw [(kMemNodeAllocPagesNolock_success hret).2]
  exact ⟨reqPage_lt t length, rfl, rfl⟩

/-- The count tells how many pages were marked. -/
theorem Marked.unique {h' : HeapState} {n n' : Nat} (hn : Marked t h h' i n)
    (hn' : Marked t h h' i n') : n = n' := by
  have hword := t.word_le
  have hlt := hn.word
  have hlt' := hn'.word
  have hcount := hn.count.symm.trans hn'.count
  unfold add64 at hcount
  omega

end Alloc

/-- An allocation that answers with an index has marked enough pages for the length exactly
when rounding the length up does not wrap. -/
theorem alloc_marks_enough_iff (t : Target) (h : HeapState) (length i : Nat)
    (hpos : 1 ≤ length) (hlength : length < 2 ^ t.bits)
    (hret : (kMemNodeAllocPagesNolock t h length).2 = i) :
    (∃ n, Marked t h (kMemNodeAllocPagesNolock t h length).1 i n ∧ length ≤ n * pageSize) ↔
      length + pageSize - 1 < 2 ^ t.bits := by
  have hmarked := kMemNodeAllocPagesNolock_marked hret
  rw [← le_reqPage_mul_iff hpos hlength]
  constructor
  · rintro ⟨n, hn, hle⟩
    rw [hmarked.unique hn]
    exact hle
  · intro hle
    exact ⟨_, hmarked, hle⟩

theorem alloc_marks_enough_iff_one :
    ∃ n, Marked fivePages.toTarget (fiveHeap 1 firstTaken)
        (kMemNodeAllocPagesNolock fivePages.toTarget (fiveHeap 1 firstTaken) 0x1000).1 1 n ∧
      0x1000 ≤ n * pageSize :=
  (alloc_marks_enough_iff fivePages.toTarget (fiveHeap 1 firstTaken) 0x1000 1 (by decide)
    (by decide) (by decide)).mpr (by decide)

/-- For a length in the last page of the word an allocation answers with the first free page
and marks none. -/
theorem alloc_marks_none :
    (kMemNodeAllocPagesNolock fivePages.toTarget (fiveHeap 1 firstTaken) (2 ^ 64 - 1)).2 = 1 ∧
    ¬ ∃ n, Marked fivePages.toTarget (fiveHeap 1 firstTaken)
        (kMemNodeAllocPagesNolock fivePages.toTarget (fiveHeap 1 firstTaken) (2 ^ 64 - 1)).1 1 n ∧
      2 ^ 64 - 1 ≤ n * pageSize := by
  have hret : (kMemNodeAllocPagesNolock fivePages.toTarget (fiveHeap 1 firstTaken)
      (2 ^ 64 - 1)).2 = (1 : Nat) := by decide
  have hreq : reqPage fivePages.toTarget (2 ^ 64 - 1) = 0 := by decide
  refine ⟨hret, ?_⟩
  rintro ⟨n, hn, hle⟩
  have hnone := kMemNodeAllocPagesNolock_marked hret
  rw [hreq] at hnone
  rw [← hnone.unique hn] at hle
  exact absurd hle (by decide)

section Mmap

variable {cfg : MemConfig} {h : HeapState} {length : Nat} {flags : BitVec 32} {fd offset : Int}

/-- An address at the start of a page is never the number of an error. -/
theorem ptrToInt_not_negErrno {t : Target} {p : Nat} (hlt : p < 2 ^ t.bits)
    (haligned : p % pageSize = 0) : ¬ NegErrno (t.ptrToInt p) := by
  unfold Target.ptrToInt NegErrno
  rcases t.bits_cases with hbits | hbits
  · rw [hbits] at hlt ⊢
    unfold pageSize at haligned
    split
    · omega
    · omega
  · rw [hbits] at hlt ⊢
    unfold pageSize at haligned
    split
    · omega
    · omega

/-- An allocation does not move the heap area. -/
theorem kMemNodeAllocPagesNolock_vaddr (t : Target) (h : HeapState) (length : Nat) :
    (kMemNodeAllocPagesNolock t h length).1.node.vaddr = h.node.vaddr := by
  rcases kMemNodeAllocPagesNolock_cases t h length with ⟨r, -, heq, -⟩ | ⟨i, -, -, -, heq⟩
  · rw [heq]
  · rw [heq]

/-- Whatever the allocation answers, `k_sys_mmap` turns it into an address. -/
theorem kSysMmap_result (hok : mmapArgsOk flags fd offset = true) :
    (kSysMmap cfg h length flags fd offset).2 = cfg.ptrToInt (cfg.wrap (h.node.vaddr +
      cfg.toUnsigned (kMemNodeAllocPagesNolock cfg.toTarget h (mmapLen length)).2 *
        pageSize)) := by
  rw [← kMemNodeAllocPagesNolock_vaddr cfg.toTarget h (mmapLen length)]
  simp only [kSysMmap, hok, if_true]
  rw [if_neg (by omega)]

theorem wrap_page_aligned {t : Target} {a n : Nat} (h : a % pageSize = 0) :
    t.wrap (a + n * pageSize) % pageSize = 0 := by
  rw [Target.wrap, Nat.mod_mod_of_dvd _ (Nat.dvd_of_mod_eq_zero t.word_mod_page),
    Nat.add_mul_mod_self_right, h]

end Mmap

/-- `k_sys_mmap` reports the failure of an allocation, without a change, exactly when there
is no failure to report. -/
theorem mmap_reports_failure_iff (cfg : MemConfig) (h : HeapState) (length : Nat)
    (flags : BitVec 32) (fd offset : Int) (hnode : h.node.Describes cfg)
    (hok : mmapArgsOk flags fd offset = true) :
    ((kMemNodeAllocPagesNolock cfg.toTarget h (mmapLen length)).2 < 0 →
        NegErrno (kSysMmap cfg h length flags fd offset).2 ∧
          (kSysMmap cfg h length flags fd offset).1 = h) ↔
      0 ≤ (kMemNodeAllocPagesNolock cfg.toTarget h (mmapLen length)).2 := by
  constructor
  · intro hreport
    by_contra hneg
    have herrno := (hreport (Int.not_le.mp hneg)).1
    rw [kSysMmap_result hok] at herrno
    have hvaddr : h.node.vaddr % pageSize = 0 := by
      rw [hnode.vaddr]
      exact hnode.aligned
    have hword := cfg.toTarget.word_ge
    exact ptrToInt_not_negErrno (Nat.mod_lt _ (by omega)) (wrap_page_aligned hvaddr) herrno
  · intro hsuccess hneg
    exact absurd hsuccess (Int.not_le.mpr hneg)

theorem mmap_reports_failure_iff_free :
    0 ≤ (kMemNodeAllocPagesNolock fivePages.toTarget (fiveHeap 1 firstTaken) (mmapLen 1)).2 :=
  (mmap_reports_failure_iff fivePages (fiveHeap 1 firstTaken) 1 mapAnonymous (-1) 0
    (fiveHeap_describes _ _) (by decide)).mp fun hneg => absurd hneg (by decide)

/-- With all pages taken `k_sys_mmap` answers with an address below the heap area and clears
the byte there. -/
theorem mmap_failure_writes :
    (kMemNodeAllocPagesNolock fivePages.toTarget (fiveHeap 5 fun _ => 1) (mmapLen 1)).2 = -12 ∧
    (kSysMmap fivePages (fiveHeap 5 fun _ => 1) 1 mapAnonymous (-1) 0).2 = 0x7fff4000 ∧
    ¬ NegErrno (kSysMmap fivePages (fiveHeap 5 fun _ => 1) 1 mapAnonymous (-1) 0).2 ∧
    (fiveHeap 5 fun _ => 1).mem 0x7fff4000 = 1 ∧
    (kSysMmap fivePages (fiveHeap 5 fun _ => 1) 1 mapAnonymous (-1) 0).1.mem 0x7fff4000 = 0 := by
  decide +kernel

section Release

variable {cfg : MemConfig} {h : HeapState} {length i : Nat} {flags : BitVec 32} {fd offset : Int}

/-- Counting pages and taking them off again gives the old count for equal numbers only. -/
theorem sub64_add64_eq_iff {u n q : Nat} (hu : u < 2 ^ 64) (hn : n < 2 ^ 64) (hq : q < 2 ^ 64) :
    sub64 (add64 u n) q = u ↔ n = q := by
  unfold sub64 add64
  omega

/-- Marking free pages and clearing them again gives the old table. -/
theorem setPageFlag_clear {m : MemNode} {n : Nat} {tag : UInt8}
    (hfree : Seg m.FreePage m.pageTotal i n) :
    kMemNodeSetPageFlag (kMemNodeSetPageFlag m.statPage i n tag) i n 0 = m.statPage := by
  funext j
  rw [kMemNodeSetPageFlag_apply, kMemNodeSetPageFlag_apply]
  split
  · rename_i hin
    exact (hfree.cell hin.1 hin.2).symm
  · rfl

theorem pageSpan_aligned {m : MemNode} (hpos : 0 < length) (hin : i * pageSize < m.size) :
    pageSpan m (m.vaddr + i * pageSize) length = some ⟨i, length / pageSize⟩ := by
  rw [pageSpan_eq_some_iff]
  refine ⟨hpos, Nat.le_add_right _ _, Nat.add_lt_add_left hin _, ?_, ?_⟩
  · rw [Nat.add_sub_cancel_left, Nat.mul_div_cancel _ (by decide)]
  · rw [Nat.add_sub_cancel_left, Nat.mul_mod_left, if_neg (not_not.mpr rfl)]
    rfl

theorem toUnsigned_ptrToInt {t : Target} {p : Nat} (hp : p < 2 ^ t.bits) :
    t.toUnsigned (t.ptrToInt p) = p := by
  unfold Target.toUnsigned Target.ptrToInt
  rcases t.bits_cases with hbits | hbits
  · rw [hbits] at hp ⊢
    split
    · omega
    · omega
  · rw [hbits] at hp ⊢
    split
    · omega
    · omega

/-- The address of a mapping is the start of its first page. -/
theorem kSysMmap_address (hnode : h.node.Describes cfg) (hok : mmapArgsOk flags fd offset = true)
    (hret : (kMemNodeAllocPagesNolock cfg.toTarget h (mmapLen length)).2 = i)
    (hin : i < h.node.pageTotal) :
    cfg.toUnsigned (kSysMmap cfg h length flags fd offset).2 = h.node.vaddr + i * pageSize := by
  have harea := hnode.area_lt
  have hsize := hnode.size_eq
  have hbytes : i * pageSize < h.node.pageTotal * pageSize :=
    Nat.mul_lt_mul_of_pos_right hin (by decide)
  have hindex : cfg.toUnsigned (i : Int) = i := by
    have hle : i ≤ i * pageSize := Nat.le_mul_of_pos_right i (by decide)
    have hword : (i : Int) < 2 ^ cfg.bits := by
      exact_mod_cast (show i < 2 ^ cfg.bits by omega)
    rw [Target.toUnsigned, Int.emod_eq_of_lt (Int.natCast_nonneg i) hword, Int.toNat_natCast]
  rw [kSysMmap_result hok, hret, hindex, Target.wrap, Nat.mod_eq_of_lt (by omega),
    toUnsigned_ptrToInt (by omega)]

/-- A release of the pages from `i` on with a given length is accepted when the pages that
were asked for with that length lie in the table. A length that wraps is accepted as well. -/
theorem munmap_accepts_request {node : MemNode} (hnode : node.Describes cfg)
    (hpos : 1 ≤ length) (hlength : length < 2 ^ cfg.bits)
    (hin : i + reqPage cfg.toTarget length ≤ node.pageTotal) :
    ¬ (node.vaddr + i * pageSize < node.vaddr ∨
      node.vaddr + node.size < cfg.wrap (node.vaddr + i * pageSize + length)) := by
  have harea := hnode.area_lt
  have hsize := hnode.size_eq
  have hplaced : pageSize ≤ node.vaddr := by
    have haligned := hnode.aligned
    have hplaced := hnode.placed
    rw [hnode.vaddr]
    unfold pageSize at *
    omega
  have hbytes : (i + reqPage cfg.toTarget length) * pageSize ≤ node.pageTotal * pageSize :=
    Nat.mul_le_mul_right _ hin
  rw [Nat.add_mul] at hbytes
  rcases Nat.lt_or_ge (length + pageSize - 1) (2 ^ cfg.bits) with hfit | hwrap
  · have hle := (le_reqPage_mul_iff hpos hlength).mpr hfit
    rw [Target.wrap, Nat.mod_eq_of_lt (by omega)]
    omega
  · have hover : 2 ^ cfg.bits ≤ node.vaddr + i * pageSize + length := by omega
    rw [Target.wrap, Nat.mod_eq_sub_mod hover, Nat.mod_eq_of_lt (by omega)]
    omega

theorem kSysMunmap_empty (cfg : MemConfig) (h : HeapState) (addr : Nat) :
    (kSysMunmap cfg h addr 0).1 = h := by
  unfold kSysMunmap
  rw [kMemNodeFreePagesNolock_zero]
  split
  · rfl
  · rfl

/-- Releasing the pages from `i` on with the length they were asked for. -/
theorem kSysMunmap_request (hnode : h.node.Describes cfg) (hpos : 1 ≤ length)
    (hlength : length < 2 ^ cfg.bits) (hstart : i < h.node.pageTotal)
    (hin : i + reqPage cfg.toTarget length ≤ h.node.pageTotal) :
    (kSysMunmap cfg h (h.node.vaddr + i * pageSize) length).1.node = { h.node with
      statPage := kMemNodeSetPageFlag h.node.statPage i (length / pageSize) 0
      pageUse := sub64 h.node.pageUse (length / pageSize) } := by
  have hbytes : i * pageSize < h.node.size := by
    rw [hnode.size_eq]
    exact Nat.mul_lt_mul_of_pos_right hstart (by decide)
  rw [kSysMunmap, if_neg (munmap_accepts_request hnode hpos hlength hin),
    kMemNodeFreePagesNolock_eq, pageSpan_aligned hpos hbytes]
  rfl

/-- The node of a mapping: the same area with the pages of the request marked. -/
structure MapsPages (cfg : MemConfig) (h h' : HeapState) (i n : Nat) : Prop where
  describes : h'.node.Describes cfg
  total : h'.node.pageTotal = h.node.pageTotal
  vaddr : h'.node.vaddr = h.node.vaddr
  marked : Marked cfg.toTarget h h' i n

theorem kSysMmap_mapsPages (hnode : h.node.Describes cfg)
    (hok : mmapArgsOk flags fd offset = true)
    (hret : (kMemNodeAllocPagesNolock cfg.toTarget h (mmapLen length)).2 = i) :
    MapsPages cfg h (kSysMmap cfg h length flags fd offset).1 i
      (reqPage cfg.toTarget (mmapLen length)) := by
  have hmapped := (kSysMmap_node cfg h length flags fd offset hok).1
  rw [(kMemNodeAllocPagesNolock_success hret).2] at hmapped
  obtain ⟨hvaddr, hsize, htotal, haligned, hplaced⟩ := hnode
  refine ⟨⟨?_, ?_, ?_, haligned, hplaced⟩, ?_, ?_, reqPage_lt _ _, ?_, ?_⟩
  · rw [hmapped, hvaddr]
  · rw [hmapped, hsize]
  · rw [hmapped, htotal]
  · rw [hmapped]
  · rw [hmapped]
  · rw [hmapped]
  · rw [hmapped]

/-- A mapping of one page changes the count. -/
theorem MapsPages.count_ne {h' : HeapState} (hmaps : MapsPages cfg h h' i 1) :
    h'.node.pageUse ≠ h.node.pageUse := by
  rw [hmaps.marked.count]
  unfold add64
  omega

/-- The release of a mapping with the length it was asked for gives the node back exactly when
the length is a number of whole pages. -/
theorem MapsPages.released_iff {h' : HeapState}
    (hmaps : MapsPages cfg h h' i (reqPage cfg.toTarget length)) (huse : h.node.pageUse < 2 ^ 64)
    (hpos : 1 ≤ length) (hlength : length < 2 ^ cfg.bits) (hstart : i < h.node.pageTotal)
    (hfree : Seg h.node.FreePage h.node.pageTotal i (reqPage cfg.toTarget length)) :
    let after := (kSysMunmap cfg h' (h.node.vaddr + i * pageSize) length).1
    (after.node.statPage = h.node.statPage ∧ after.node.pageUse = h.node.pageUse) ↔
      length % pageSize = 0 := by
  intro after
  have hword := cfg.toTarget.word_le
  have hquot : length / pageSize < 2 ^ 64 :=
    Nat.lt_of_le_of_lt (Nat.div_le_self _ _) (by omega)
  have hreq : reqPage cfg.toTarget length < 2 ^ 64 :=
    Nat.lt_of_lt_of_le (reqPage_lt _ _) hword
  have hafter := kSysMunmap_request hmaps.describes hpos hlength
    (hmaps.total ▸ hstart) (hmaps.total ▸ hfree.1)
  rw [hmaps.vaddr] at hafter
  have hcount : after.node.pageUse =
      sub64 (add64 h.node.pageUse (reqPage cfg.toTarget length)) (length / pageSize) := by
    rw [hafter, hmaps.marked.count]
  have hstat : after.node.statPage =
      kMemNodeSetPageFlag (kMemNodeSetPageFlag h.node.statPage i (reqPage cfg.toTarget length)
        h.dbgHeapNum.toUInt8) i (length / pageSize) 0 := by
    rw [hafter, hmaps.marked.stat]
  rw [hcount, sub64_add64_eq_iff huse hreq hquot, reqPage_eq_div_iff hpos hlength]
  refine and_iff_right_of_imp fun hwhole => ?_
  rw [hstat, ← (reqPage_eq_div_iff hpos hlength).mpr hwhole]
  exact setPageFlag_clear hfree

end Release

/-- A mapping that takes free pages is undone by a release with the same length exactly when
the length is a positive number of whole pages. -/
theorem munmap_restores_iff (cfg : MemConfig) (h : HeapState) (length i : Nat)
    (flags : BitVec 32) (fd offset : Int) (hnode : h.node.Describes cfg)
    (huse : h.node.pageUse < 2 ^ 64) (hlength : length < 2 ^ cfg.bits)
    (hok : mmapArgsOk flags fd offset = true)
    (hret : (kMemNodeAllocPagesNolock cfg.toTarget h (mmapLen length)).2 = i)
    (hfree : Seg h.node.FreePage h.node.pageTotal i (reqPage cfg.toTarget (mmapLen length))) :
    let mapped := kSysMmap cfg h length flags fd offset
    let after := (kSysMunmap cfg mapped.1 (cfg.toUnsigned mapped.2) length).1
    (after.node.statPage = h.node.statPage ∧ after.node.pageUse = h.node.pageUse) ↔
      1 ≤ length ∧ length % pageSize = 0 := by
  intro mapped after
  have hin := (kMemNodeAllocPagesNolock_success hret).1
  have haddr : cfg.toUnsigned mapped.2 = h.node.vaddr + i * pageSize :=
    kSysMmap_address hnode hok hret hin
  have hmaps : MapsPages cfg h mapped.1 i (reqPage cfg.toTarget (mmapLen length)) :=
    kSysMmap_mapsPages hnode hok hret
  rcases Nat.eq_zero_or_pos length with rfl | hpos
  · -- an empty release is refused, and the page of the empty mapping stays taken
    have hsame : after = mapped.1 := kSysMunmap_empty cfg mapped.1 _
    have hreq : reqPage cfg.toTarget (mmapLen 0) = 1 := by
      rw [reqPage_of_lt (Nat.lt_of_lt_of_le (by decide) cfg.toTarget.word_ge)]
      rfl
    rw [hreq] at hmaps
    rw [hsame]
    exact iff_of_false (fun hrestored => hmaps.count_ne hrestored.2) (by omega)
  · have hlen : mmapLen length = length := if_neg (by omega)
    rw [hlen] at hfree hmaps
    have hreleased := hmaps.released_iff huse hpos hlength hin hfree
    rw [← haddr] at hreleased
    exact hreleased.trans (and_iff_right hpos).symm

theorem munmap_restores_iff_page :
    (kSysMunmap fivePages (kSysMmap fivePages (fiveHeap 1 firstTaken) 0x1000 mapAnonymous
      (-1) 0).1 (fivePages.toUnsigned (kSysMmap fivePages (fiveHeap 1 firstTaken) 0x1000
        mapAnonymous (-1) 0).2) 0x1000).1.node.pageUse = 1 :=
  ((munmap_restores_iff fivePages (fiveHeap 1 firstTaken) 0x1000 1 mapAnonymous (-1) 0
    (fiveHeap_describes _ _) (by decide) (by decide) (by decide) (by decide)
    ⟨by decide, show ∀ j < 1, firstTaken (1 + j) = 0 by decide⟩).mpr
      ⟨by decide, by decide⟩).2

/-- A mapping of one byte is not undone by a release of one byte. -/
theorem munmap_leaks_page :
    (kMemNodeAllocPagesNolock fivePages.toTarget (fiveHeap 1 firstTaken) (mmapLen 1)).2 = 1 ∧
    Seg (fiveHeap 1 firstTaken).node.FreePage 5 1 (reqPage fivePages.toTarget (mmapLen 1)) ∧
    (kSysMmap fivePages (fiveHeap 1 firstTaken) 1 mapAnonymous (-1) 0).2 = 0x80001000 ∧
    (kSysMunmap fivePages (kSysMmap fivePages (fiveHeap 1 firstTaken) 1 mapAnonymous (-1) 0).1
      0x80001000 1).2 = 0 ∧
    (kSysMunmap fivePages (kSysMmap fivePages (fiveHeap 1 firstTaken) 1 mapAnonymous (-1) 0).1
      0x80001000 1).1.node.pageUse = 2 := by
  refine ⟨by decide, ⟨by decide, show ∀ j < 1, firstTaken (1 + j) = 0 by decide⟩, ?_⟩
  decide +kernel

end BaremetalCrt
