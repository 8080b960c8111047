import BaremetalCrt.Sys.String
import BaremetalCrt.Library.Segments

/-!
# The page allocator of a memory node

A node keeps one status byte per page: zero for a free page, otherwise the
low byte of a running allocation tag. Allocation is a first-fit scan over
runs of free pages; the scan and the run counter are the loops of the source,
with an explicit bound on their iterations.

## Implementation notes

The status table is a function on all indices. The source indexes a C array
without bound checks, so an index past `page_total` is a cell like any other
here, and staying below `page_total` is something to prove.
-/

namespace BaremetalCrt

open FreeSegments

/-- `__PAGE_SIZE`. -/
def pageSize : Nat := 4096

/-- The address space is a number of whole pages. -/
theorem Target.word_mod_page (t : Target) : 2 ^ t.bits % pageSize = 0 := by
  rcases t.bits_cases with h | h
  · rw [h]
    decide
  · rw [h]
    decide

/-- The sizes and addresses a build fixes for the heap, with the checks that
`memory.c` makes at compile time. -/
structure MemConfig extends Target where
  heapSize : Nat
  brkSize : Nat
  heapHeadArea : Nat
  heap_aligned : heapSize % pageSize = 0
  brk_le_heap : brkSize ≤ heapSize
  area_fits : heapHeadArea + heapSize < 2 ^ bits

/-- `struct k_mem_node`, without its lock and its physical address. -/
structure MemNode where
  vaddr : Nat
  size : Nat
  pageTotal : Nat
  pageUse : Nat
  statPage : Nat → UInt8

/-- The static data of `memory.c` and the memory that the heap area is part of. -/
structure HeapState where
  node : MemNode
  dbgHeapNum : UInt32
  brkTop : Nat
  brkCur : Nat
  mem : Mem

/-- Replace the node and keep the other data. -/
def HeapState.setNode (h : HeapState) (m : MemNode) : HeapState := { h with node := m }

@[simp] theorem HeapState.setNode_node (h : HeapState) (m : MemNode) : (h.setNode m).node = m := rfl

@[simp] theorem HeapState.setNode_dbgHeapNum (h : HeapState) (m : MemNode) :
    (h.setNode m).dbgHeapNum = h.dbgHeapNum := rfl

@[simp] theorem HeapState.setNode_brkTop (h : HeapState) (m : MemNode) :
    (h.setNode m).brkTop = h.brkTop := rfl

/-- Page `i` has a zero status byte. -/
def MemNode.FreePage (m : MemNode) (i : Nat) : Prop := m.statPage i = 0

instance (m : MemNode) (i : Nat) : Decidable (m.FreePage i) :=
  inferInstanceAs (Decidable (m.statPage i = 0))

/-- The loop of `k_mem_node_count_cont_pages`; the first argument is the number
of pages between `i` and the end of the table. -/
def countContLoop (stat : Nat → UInt8) (lim : Nat) : Nat → Nat → Nat → Nat
  | 0, _, r => r
  | k + 1, i, r =>
      if stat i ≠ 0 ∨ r ≥ lim then r else countContLoop stat lim k (i + 1) (r + 1)

/-- `k_mem_node_count_cont_pages`: the counter starts at one. -/
def kMemNodeCountContPages (m : MemNode) (offPage limPage : Nat) : Nat :=
  countContLoop m.statPage limPage (m.pageTotal - offPage) offPage 1

/-- `k_mem_node_set_page_flag`: write the flag page by page. -/
def kMemNodeSetPageFlag (stat : Nat → UInt8) (offPage : Nat) :
    Nat → UInt8 → Nat → UInt8
  | 0, _ => stat
  | n + 1, val =>
      kMemNodeSetPageFlag (fun i => if i = offPage then val else stat i) (offPage + 1) n val

/-- The first-fit loop of `k_mem_node_alloc_pages_nolock` from page `i` on. The
first argument bounds the iterations; `pageTotal - i` of them are enough. -/
def allocScan (m : MemNode) (reqPage : Nat) : Nat → Nat → Option Nat
  | 0, _ => none
  | f + 1, i =>
      if i < m.pageTotal then
        if m.statPage i ≠ 0 then allocScan m reqPage f (i + 1)
        else
          let cntPage := kMemNodeCountContPages m i reqPage
          if cntPage ≥ reqPage then some i else allocScan m reqPage f (i + cntPage)
      else none

/-- `req_page`: the length rounded up to pages, in word arithmetic. -/
def reqPage (t : Target) (length : Nat) : Nat := t.wrap (length + pageSize - 1) / pageSize

/-- The tag counter after an allocation skips the values with a zero low byte. -/
def nextDbgHeapNum (n : UInt32) : UInt32 :=
  let n := n + 1
  if n &&& 0xff = 0 then n + 1 else n

/-- `k_mem_node_alloc_pages_nolock` on the head node. -/
def kMemNodeAllocPagesNolock (t : Target) (h : HeapState) (length : Nat) :
    HeapState × Int :=
  if length = 0 then (h, -einval)
  else
    let m := h.node
    let req := reqPage t length
    if req > sub64 m.pageTotal m.pageUse then (h, -enomem)
    else
      match allocScan m req m.pageTotal 0 with
      | none => (h, -1)
      | some i =>
          ({ h with
              node := { m with
                statPage := kMemNodeSetPageFlag m.statPage i req h.dbgHeapNum.toUInt8
                pageUse := add64 m.pageUse req }
              dbgHeapNum := nextDbgHeapNum h.dbgHeapNum }, i)

/-- `k_mem_node_free_pages_nolock` on the head node. A double free is reported
by the source and then carried out like any other. -/
def kMemNodeFreePagesNolock (h : HeapState) (start length : Nat) : HeapState × Int :=
  let m := h.node
  if length = 0 then (h, -einval)
  else if start < m.vaddr ∨ m.vaddr + m.size ≤ start then (h, -einval)
  else
    let offAddr := start - m.vaddr
    let offPage := offAddr / pageSize
    let nPage := length / pageSize + if offAddr % pageSize ≠ 0 then 1 else 0
    (h.setNode { m with
        statPage := kMemNodeSetPageFlag m.statPage offPage nPage 0
        pageUse := sub64 m.pageUse nPage }, 0)

/-- The loop of `k_mem_node_check_pages_nolock` over `n` pages from page `i` on, with the
flag `failed`. -/
def checkLoop (stat : Nat → UInt8) : Nat → Nat → Bool → Bool
  | 0, _, failed => failed
  | n + 1, i, failed => checkLoop stat n (i + 1) (if stat i = 0 then true else failed)

/-- `k_mem_node_check_pages_nolock` on the head node. -/
def kMemNodeCheckPagesNolock (h : HeapState) (start length : Nat) : Int :=
  let m := h.node
  if length = 0 then -einval
  else if start < m.vaddr ∨ m.vaddr + m.size ≤ start then -einval
  else
    let offAddr := start - m.vaddr
    let offPage := offAddr / pageSize
    let nPage := length / pageSize + if offAddr % pageSize ≠ 0 then 1 else 0
    if checkLoop m.statPage nPage offPage false then -ebadf else 0

theorem kMemNodeSetPageFlag_apply (stat : Nat → UInt8) (off n : Nat) (val : UInt8) (i : Nat) :
    kMemNodeSetPageFlag stat off n val i =
      if off ≤ i ∧ i < off + n then val else stat i := by
  induction n generalizing stat off with
  | zero =>
      rw [kMemNodeSetPageFlag, if_neg]
      omega
  | succ n ih =>
      rw [kMemNodeSetPageFlag, ih]
      by_cases hin : off + 1 ≤ i ∧ i < off + 1 + n
      · rw [if_pos hin, if_pos (by omega)]
      · rw [if_neg hin]
        by_cases he : i = off
        · rw [if_pos he, if_pos (by omega)]
        · rw [if_neg he, if_neg (by omega)]

/-- The flag is raised exactly by a free page. -/
theorem checkLoop_eq_true_iff (stat : Nat → UInt8) (n i : Nat) (failed : Bool) :
    checkLoop stat n i failed = true ↔ failed = true ∨ ∃ j, i ≤ j ∧ j < i + n ∧ stat j = 0 := by
  induction n generalizing i failed with
  | zero =>
      refine ⟨Or.inl, fun h => h.resolve_right ?_⟩
      rintro ⟨j, hlow, hhigh, -⟩
      omega
  | succ n ih =>
      rw [checkLoop, ih]
      constructor
      · rintro (hflag | ⟨j, hlow, hhigh, hj⟩)
        · by_cases hi : stat i = 0
          · exact Or.inr ⟨i, Nat.le_refl i, by omega, hi⟩
          · rw [if_neg hi] at hflag
            exact Or.inl hflag
        · exact Or.inr ⟨j, by omega, by omega, hj⟩
      · rintro (hflag | ⟨j, hlow, hhigh, hj⟩)
        · exact Or.inl (by rw [hflag, ite_self])
        · rcases Nat.eq_or_lt_of_le hlow with rfl | hlt
          · exact Or.inl (if_pos hj)
          · exact Or.inr ⟨j, hlt, by omega, hj⟩

/-- What the counter says: it passed `r - 1` free pages and stopped at the
limit, at the end of the table, or at a used page, which it also counted. -/
theorem countContLoop_spec (stat : Nat → UInt8) (lim k i r : Nat) :
    ∃ n ≤ k, countContLoop stat lim k i r = r + n ∧ (∀ j < n, stat (i + j) = 0) ∧
      (0 < n → r + n ≤ lim) ∧ (n = k ∨ stat (i + n) ≠ 0 ∨ lim ≤ r + n) := by
  induction k generalizing i r with
  | zero => exact ⟨0, le_rfl, rfl, by simp, by simp, Or.inl rfl⟩
  | succ k ih =>
      by_cases hstop : stat i ≠ 0 ∨ r ≥ lim
      · refine ⟨0, Nat.zero_le _, ?_, by simp, by simp, ?_⟩
        · rw [countContLoop, if_pos hstop, Nat.add_zero]
        · exact Or.inr (by simpa using hstop)
      · have hfree : stat i = 0 := by
          by_contra h
          exact hstop (Or.inl h)
        have hlim : r < lim := by
          by_contra h
          exact hstop (Or.inr (by omega))
        obtain ⟨n, hn, heq, hpages, hle, hend⟩ := ih (i + 1) (r + 1)
        refine ⟨n + 1, by omega, ?_, ?_, by omega, ?_⟩
        · rw [countContLoop, if_neg hstop, heq]
          omega
        · intro j hj
          cases j with
          | zero => exact hfree
          | succ j =>
              rw [show i + (j + 1) = i + 1 + j by omega]
              exact hpages j (by omega)
        · rw [show i + (n + 1) = i + 1 + n by omega]
          rcases hend with h | h | h
          · exact Or.inl (by omega)
          · exact Or.inr (Or.inl h)
          · exact Or.inr (Or.inr (by omega))

theorem kMemNodeCountContPages_pos (m : MemNode) (off lim : Nat) :
    1 ≤ kMemNodeCountContPages m off lim := by
  obtain ⟨n, -, heq, -⟩ := countContLoop_spec m.statPage lim (m.pageTotal - off) off 1
  unfold kMemNodeCountContPages
  omega

/-- On the first page of a maximal run of `n` free pages the counter answers
`n + 1`, cut at the limit: the page that stops the count is counted as well. -/
theorem kMemNodeCountContPages_maxSeg {m : MemNode} {off n lim : Nat}
    (h : MaxSeg m.FreePage m.pageTotal off n) (hlim : 1 ≤ lim) :
    kMemNodeCountContPages m off lim = min lim (n + 1) := by
  obtain ⟨k, hk, heq, hpages, hle, hend⟩ :=
    countContLoop_spec m.statPage lim (m.pageTotal - off) off 1
  unfold kMemNodeCountContPages
  rw [heq]
  have hpos := h.pos
  have hin := h.seg.1
  -- the counted pages form a segment at `off`, so there are at most `n` of them
  have hkn : k ≤ n := h.le_of_seg ⟨by omega, hpages⟩
  rcases hend with hall | hused | hreach
  · have hnk : n ≤ k := by omega
    have : 0 < k → 1 + k ≤ lim := hle
    omega
  · have hnk : ¬ k < n := fun hlt => hused (h.seg.2 k hlt)
    omega
  · omega

/-- One iteration of the scan, independent of how large the bound is. -/
theorem allocScan_unfold {m : MemNode} {req f i : Nat} (hf : m.pageTotal - i ≤ f) :
    allocScan m req f i =
      if i < m.pageTotal then
        if m.statPage i ≠ 0 then allocScan m req (m.pageTotal - (i + 1)) (i + 1)
        else if kMemNodeCountContPages m i req ≥ req then some i
        else allocScan m req (m.pageTotal - (i + kMemNodeCountContPages m i req))
          (i + kMemNodeCountContPages m i req)
      else none := by
  -- strong induction on the pages that are left, for all sufficient bounds at once
  induction hrem : m.pageTotal - i using Nat.strong_induction_on generalizing f i with
  | _ rem ih =>
      have hmove : ∀ {g j : Nat}, i < j → i < m.pageTotal → m.pageTotal - j ≤ g →
          allocScan m req g j = allocScan m req (m.pageTotal - j) j := by
        intro g j hij hi hg
        rw [ih (m.pageTotal - j) (by omega) hg rfl,
          ih (m.pageTotal - j) (by omega) le_rfl rfl]
      by_cases hi : i < m.pageTotal
      · obtain ⟨g, rfl⟩ : ∃ g, f = g + 1 := ⟨f - 1, by omega⟩
        have hc := kMemNodeCountContPages_pos m i req
        rw [allocScan, if_pos hi, if_pos hi]
        dsimp only
        rw [hmove (j := i + 1) (by omega) hi (by omega),
          hmove (j := i + kMemNodeCountContPages m i req) (by omega) hi (by omega)]
      · rw [if_neg hi]
        cases f with
        | zero => rfl
        | succ f => rw [allocScan, if_neg hi]

/-- The scan from a page that no free page precedes finds the first run of free
pages that is at most one page too short, or there is none. -/
theorem allocScan_spec {m : MemNode} {req : Nat} (hreq : 1 ≤ req) (i : Nat)
    (hleft : i < m.pageTotal → i = 0 ∨ ¬ m.FreePage (i - 1))
    (hbefore : ∀ j n, MaxSeg m.FreePage m.pageTotal j n → j < i → n + 1 < req) :
    match allocScan m req (m.pageTotal - i) i with
    | some p => FirstNear m.FreePage m.pageTotal req p
    | none => ∀ j n, MaxSeg m.FreePage m.pageTotal j n → n + 1 < req := by
  induction hrem : m.pageTotal - i using Nat.strong_induction_on generalizing i with
  | _ rem ih =>
      rw [← hrem, allocScan_unfold le_rfl]
      by_cases hi : i < m.pageTotal
      · rw [if_pos hi]
        by_cases hfree : m.statPage i = 0
        · rw [if_neg (by simpa using hfree)]
          obtain ⟨n, hmax⟩ := exists_maxSeg_at hi hfree (hleft hi)
          have hcount := kMemNodeCountContPages_maxSeg hmax hreq
          by_cases hlong : req ≤ n + 1
          · rw [if_pos (by omega)]
            exact ⟨n, hmax, hlong, hbefore⟩
          · -- the run is skipped together with the used page behind it
            have hskip : kMemNodeCountContPages m i req = n + 1 := by omega
            rw [if_neg (by omega), hskip]
            apply ih (m.pageTotal - (i + (n + 1))) (by omega) (i + (n + 1)) _ _ rfl
            · intro hin
              rcases hmax.right with hend | hused
              · omega
              · exact Or.inr hused
            · intro j k hj hlt
              rcases Nat.lt_or_ge j i with hji | hij
              · exact hbefore j k hj hji
              · rcases hmax.eq_or_after hj hij with rfl | hafter
                · have := hmax.length_unique hj
                  omega
                · omega
        · rw [if_pos hfree]
          apply ih (m.pageTotal - (i + 1)) (by omega) (i + 1) _ _ rfl
          · intro _
            exact Or.inr hfree
          · intro j k hj hlt
            rcases Nat.lt_succ_iff_lt_or_eq.mp hlt with hji | rfl
            · exact hbefore j k hj hji
            · exact absurd hj.free_start hfree
      · rw [if_neg hi]
        intro j n hj
        exact hbefore j n hj (lt_of_lt_of_le hj.start_lt (by omega))

/-- The whole scan of an allocation. -/
theorem allocScan_zero_spec {m : MemNode} {req : Nat} (hreq : 1 ≤ req) :
    match allocScan m req m.pageTotal 0 with
    | some p => FirstNear m.FreePage m.pageTotal req p
    | none => ∀ j n, MaxSeg m.FreePage m.pageTotal j n → n + 1 < req :=
  allocScan_spec hreq 0 (fun _ => Or.inl rfl) (fun _ _ _ h => absurd h (Nat.not_lt_zero _))

/-- Whatever is asked for, the scan answers with a free page of the table. -/
theorem allocScan_free {m : MemNode} {req f i p : Nat} (h : allocScan m req f i = some p) :
    p < m.pageTotal ∧ m.FreePage p := by
  induction f generalizing i with
  | zero => exact absurd h (by simp [allocScan])
  | succ f ih =>
      rw [allocScan] at h
      split at h
      · split at h
        · exact ih h
        · dsimp only at h
          split at h
          · rename_i hi hfree _
            obtain rfl : i = p := by simpa using h
            exact ⟨hi, by simpa [MemNode.FreePage] using hfree⟩
          · exact ih h
      · exact absurd h (by simp)

theorem toUInt8_eq_zero_iff (n : UInt32) : n.toUInt8 = 0 ↔ n &&& 0xff = 0 := by
  rw [← UInt8.toNat_inj, ← UInt32.toNat_inj, UInt32.toNat_toUInt8, UInt32.toNat_and]
  have h := Nat.and_two_pow_sub_one_eq_mod n.toNat 8
  simp only [show (0xff : UInt32).toNat = 2 ^ 8 - 1 from rfl, h]
  rfl

/-- The tag counter never has a zero low byte, so a marked page never reads as free. -/
theorem nextDbgHeapNum_low (n : UInt32) : (nextDbgHeapNum n).toUInt8 ≠ 0 := by
  unfold nextDbgHeapNum
  dsimp only
  split
  · rename_i hz
    rw [UInt32.toUInt8_add, (toUInt8_eq_zero_iff _).mpr hz]
    decide
  · rename_i hnz
    exact fun h => hnz ((toUInt8_eq_zero_iff _).mp h)

/-- An allocation fails without any change, or marks the pages the scan found. -/
theorem kMemNodeAllocPagesNolock_cases (t : Target) (h : HeapState) (length : Nat) :
    (∃ r < 0, kMemNodeAllocPagesNolock t h length = (h, r) ∧
      (length = 0 ∨ sub64 h.node.pageTotal h.node.pageUse < reqPage t length ∨
        allocScan h.node (reqPage t length) h.node.pageTotal 0 = none)) ∨
    (∃ i, 0 < length ∧ reqPage t length ≤ sub64 h.node.pageTotal h.node.pageUse ∧
      allocScan h.node (reqPage t length) h.node.pageTotal 0 = some i ∧
      kMemNodeAllocPagesNolock t h length =
        ({ h with
            node := { h.node with
              statPage := kMemNodeSetPageFlag h.node.statPage i (reqPage t length)
                h.dbgHeapNum.toUInt8
              pageUse := add64 h.node.pageUse (reqPage t length) }
            dbgHeapNum := nextDbgHeapNum h.dbgHeapNum }, (i : Int))) := by
  unfold kMemNodeAllocPagesNolock
  by_cases h0 : length = 0
  · exact Or.inl ⟨-einval, by decide, by rw [if_pos h0], Or.inl h0⟩
  · rw [if_neg h0]
    dsimp only
    by_cases hfew : reqPage t length > sub64 h.node.pageTotal h.node.pageUse
    · exact Or.inl ⟨-enomem, by decide, by rw [if_pos hfew], Or.inr (Or.inl hfew)⟩
    · rw [if_neg hfew]
      cases hscan : allocScan h.node (reqPage t length) h.node.pageTotal 0 with
      | none => exact Or.inl ⟨-1, by decide, rfl, Or.inr (Or.inr rfl)⟩
      | some i => exact Or.inr ⟨i, by omega, by omega, rfl, rfl⟩

theorem kMemNodeFreePagesNolock_zero (h : HeapState) (start : Nat) :
    kMemNodeFreePagesNolock h start 0 = (h, -einval) := by
  unfold kMemNodeFreePagesNolock
  rw [if_pos rfl]

/-- Releasing whole pages from a page boundary of the area. -/
theorem kMemNodeFreePagesNolock_aligned {h : HeapState} {first pages : Nat}
    (hpages : 0 < pages) (hin : first * pageSize < h.node.size) :
    kMemNodeFreePagesNolock h (h.node.vaddr + first * pageSize) (pages * pageSize) =
      (h.setNode { h.node with
          statPage := kMemNodeSetPageFlag h.node.statPage first pages 0
          pageUse := sub64 h.node.pageUse pages }, 0) := by
  have hps : 0 < pageSize := by decide
  have hlen : ¬ pages * pageSize = 0 := by
    rw [Nat.mul_eq_zero]
    omega
  have hrange : ¬ (h.node.vaddr + first * pageSize < h.node.vaddr ∨
      h.node.vaddr + h.node.size ≤ h.node.vaddr + first * pageSize) := by omega
  unfold kMemNodeFreePagesNolock
  dsimp only
  rw [if_neg hlen, if_neg hrange, Nat.add_sub_cancel_left, Nat.mul_div_cancel _ hps,
    Nat.mul_div_cancel _ hps, Nat.mul_mod_left, if_neg (not_not.mpr rfl), Nat.add_zero]

end BaremetalCrt
