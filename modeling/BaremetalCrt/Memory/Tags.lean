import BaremetalCrt.Memory.Requests

/-!
# The tags of allocated pages

An allocation marks its pages with the low byte of a counter of allocations, and the scans take
a page with a zero byte as free. The counter skips every value with a zero low byte. It has
32 bits; its low byte runs from 1 to 255 in turn, and this goes on when the counter wraps.

## Implementation notes

The calls here are those of the page functions, in any order and with any arguments. The system
calls that use them are lists of such calls.
-/

namespace BaremetalCrt

open FreeSegments LabelledSystem

/-- A call of a page function that may change the table. -/
inductive PageCall where
  | alloc (length : Nat)
  | free (start length : Nat)

/-- The function that is called. -/
def pageCall (t : Target) (h : HeapState) : PageCall → HeapState × Int
  | .alloc length => kMemNodeAllocPagesNolock t h length
  | .free start length => kMemNodeFreePagesNolock h start length

/-- The calls of a list, one after the other. -/
def pageCalls (t : Target) : HeapState → List PageCall → HeapState
  | h, [] => h
  | h, c :: cs => pageCalls t (pageCall t h c).1 cs

/-- One for an allocation that answers with a page, zero for any other call. -/
def grantOf (t : Target) (h : HeapState) : PageCall → Nat
  | .alloc length => if 0 ≤ (kMemNodeAllocPagesNolock t h length).2 then 1 else 0
  | .free _ _ => 0

/-- The number of allocations in a list of calls that answer with a page. -/
def grants (t : Target) : HeapState → List PageCall → Nat
  | _, [] => 0
  | h, c :: cs => grantOf t h c + grants t (pageCall t h c).1 cs

/-- The counter after `k` allocations, as if it did not wrap. -/
def tagCount (k : Nat) : Nat := k + k / 255 + 1

/-- The tag of the allocation that follows `k` others. -/
def pageTag (k : Nat) : UInt8 := UInt8.ofNat (k % 255 + 1)

/-- The loops over the table take page `p` as allocated: the scan of an allocation does not stop
at it, a count of free pages stops there at once, and a check accepts it. -/
structure ReadsUsed (m : MemNode) (p : Nat) : Prop where
  used : ¬ m.FreePage p
  scan : ∀ req f i, allocScan m req f i ≠ some p
  count : ∀ lim, kMemNodeCountContPages m p lim = 1
  check : ∀ failed, checkLoop m.statPage 1 p failed = failed

/-- Page `p` is marked, the next mark is not zero, and the node is where `m` was. -/
structure StaysUsed (m : MemNode) (p : Nat) (h : HeapState) : Prop where
  vaddr : h.node.vaddr = m.vaddr
  size : h.node.size = m.size
  tag : h.dbgHeapNum.toUInt8 ≠ 0
  used : ¬ h.node.FreePage p

section Counter

theorem pageTag_ne_zero (k : Nat) : pageTag k ≠ 0 := by
  have hlt := Nat.mod_lt k (show 255 > 0 by decide)
  rw [pageTag, Ne, ← UInt8.toNat_inj, UInt8.toNat_ofNat']
  change (k % 255 + 1) % 256 ≠ 0
  omega

theorem ofNat_low_eq_zero_iff (n : Nat) : UInt32.ofNat n &&& 0xff = 0 ↔ n % 256 = 0 := by
  rw [← toUInt8_eq_zero_iff, ← UInt8.toNat_inj, UInt32.toNat_toUInt8, UInt32.toNat_ofNat']
  change n % 2 ^ 32 % 256 = 0 ↔ _
  omega

/-- The counter passes the multiples of 256, wherever it has wrapped. -/
theorem nextDbgHeapNum_tagCount (k : Nat) :
    nextDbgHeapNum (UInt32.ofNat (tagCount k)) = UInt32.ofNat (tagCount (k + 1)) := by
  have hsucc : UInt32.ofNat (tagCount k) + 1 = UInt32.ofNat (tagCount k + 1) :=
    (UInt32.ofNat_add _ 1).symm
  unfold nextDbgHeapNum
  dsimp only
  rw [hsucc]
  split
  · rename_i hzero
    rw [ofNat_low_eq_zero_iff] at hzero
    have hskip : tagCount (k + 1) = tagCount k + 1 + 1 := by
      unfold tagCount at *
      omega
    rw [hskip]
    exact (UInt32.ofNat_add _ 1).symm
  · rename_i hnot
    rw [ofNat_low_eq_zero_iff] at hnot
    have hstep : tagCount (k + 1) = tagCount k + 1 := by
      unfold tagCount at *
      omega
    rw [hstep]

theorem tagCount_low (k : Nat) : (UInt32.ofNat (tagCount k)).toUInt8 = pageTag k := by
  rw [pageTag, ← UInt8.toNat_inj, UInt32.toNat_toUInt8, UInt32.toNat_ofNat', UInt8.toNat_ofNat']
  unfold tagCount
  omega

end Counter

section Calls

variable {t : Target} {h : HeapState} {c : PageCall} {cs : List PageCall} {k p : Nat}
  {m : MemNode}

/-- A release writes to the table and to the count of pages only. -/
theorem kMemNodeFreePagesNolock_frame (h : HeapState) (start length : Nat) :
    ∃ stat use, (kMemNodeFreePagesNolock h start length).1 =
      h.setNode { h.node with statPage := stat, pageUse := use } := by
  rw [kMemNodeFreePagesNolock_eq]
  cases pageSpan h.node start length with
  | none => exact ⟨h.node.statPage, h.node.pageUse, rfl⟩
  | some g => exact ⟨_, _, rfl⟩

/-- A call counts what it grants. -/
theorem pageCall_dbgHeapNum (hk : h.dbgHeapNum = UInt32.ofNat (tagCount k)) :
    (pageCall t h c).1.dbgHeapNum = UInt32.ofNat (tagCount (k + grantOf t h c)) := by
  cases c with
  | alloc length =>
      simp only [pageCall, grantOf]
      rcases kMemNodeAllocPagesNolock_cases t h length with
        ⟨r, hr, heq, -⟩ | ⟨i, -, -, -, heq⟩
      · rw [heq, if_neg (Int.not_le.mpr hr), Nat.add_zero]
        exact hk
      · rw [heq, if_pos (Int.natCast_nonneg i), ← nextDbgHeapNum_tagCount, ← hk]
  | free start length =>
      obtain ⟨stat, use, heq⟩ := kMemNodeFreePagesNolock_frame h start length
      rw [pageCall, grantOf, Nat.add_zero, heq]
      exact hk

/-- The counter after any calls is told by the number of allocations that succeeded. -/
theorem pageCalls_dbgHeapNum (hk : h.dbgHeapNum = UInt32.ofNat (tagCount k)) :
    (pageCalls t h cs).dbgHeapNum = UInt32.ofNat (tagCount (k + grants t h cs)) := by
  induction cs generalizing h k with
  | nil => exact hk
  | cons c cs ih =>
      rw [pageCalls, grants, ← Nat.add_assoc]
      exact ih (pageCall_dbgHeapNum hk)

/-- The next mark since boot, for any node. -/
theorem pageCalls_tag (t : Target) (mem : Mem) (m : MemNode) (cs : List PageCall) :
    (pageCalls t ((HeapState.boot mem).setNode m) cs).dbgHeapNum.toUInt8 =
      pageTag (grants t ((HeapState.boot mem).setNode m) cs) := by
  have hnum : (pageCalls t ((HeapState.boot mem).setNode m) cs).dbgHeapNum =
      UInt32.ofNat (tagCount (0 + grants t ((HeapState.boot mem).setNode m) cs)) :=
    pageCalls_dbgHeapNum rfl
  rw [hnum, Nat.zero_add, tagCount_low]

theorem spanPages_congr {m' : MemNode} (hvaddr : m.vaddr = m'.vaddr) (hsize : m.size = m'.size)
    (start length : Nat) : spanPages m start length = spanPages m' start length := by
  unfold spanPages pageSpan
  rw [hvaddr, hsize]

/-- The release of pages that were free before their allocation leaves the node as it was. -/
theorem free_undoes_alloc {length i n : Nat}
    (hret : (kMemNodeAllocPagesNolock t h length).2 = i) (hreq : reqPage t length = n)
    (hseg : Seg h.node.FreePage h.node.pageTotal i n) (hpos : 0 < n * pageSize)
    (hin : i * pageSize < h.node.size) (huse : h.node.pageUse < 2 ^ 64) :
    (kMemNodeFreePagesNolock (kMemNodeAllocPagesNolock t h length).1
      (h.node.vaddr + i * pageSize) (n * pageSize)).1.node = h.node := by
  have hword := t.word_le
  have hlt : n < 2 ^ 64 := by
    have := reqPage_lt t length
    omega
  have hspan : ∀ stat use, pageSpan { h.node with statPage := stat, pageUse := use }
      (h.node.vaddr + i * pageSize) (n * pageSize) = some ⟨i, n⟩ := by
    intro stat use
    have haligned := pageSpan_aligned (m := { h.node with statPage := stat, pageUse := use })
      hpos hin
    rwa [Nat.mul_div_cancel n (by decide)] at haligned
  rw [(kMemNodeAllocPagesNolock_success hret).2, hreq, kMemNodeFreePagesNolock_eq, hspan]
  dsimp only [HeapState.setNode]
  rw [setPageFlag_clear hseg, (sub64_add64_eq_iff huse hlt hlt).mpr rfl]

/-- A call writes to the table, the count of pages and the counter only. -/
theorem pageCall_frame (t : Target) (h : HeapState) (c : PageCall) :
    ∃ stat use num, (pageCall t h c).1 =
      { h with node := { h.node with statPage := stat, pageUse := use }, dbgHeapNum := num } := by
  cases c with
  | alloc length =>
      rw [pageCall]
      rcases kMemNodeAllocPagesNolock_cases t h length with
        ⟨r, -, heq, -⟩ | ⟨i, -, -, -, heq⟩
      · exact ⟨h.node.statPage, h.node.pageUse, h.dbgHeapNum, by rw [heq]⟩
      · exact ⟨_, _, _, by rw [heq]⟩
  | free start length =>
      obtain ⟨stat, use, heq⟩ := kMemNodeFreePagesNolock_frame h start length
      exact ⟨stat, use, h.dbgHeapNum, heq⟩

/-- The calls leave the node where it is. -/
theorem pageCalls_area (t : Target) (h : HeapState) (cs : List PageCall) :
    (pageCalls t h cs).node.vaddr = h.node.vaddr ∧ (pageCalls t h cs).node.size = h.node.size := by
  induction cs generalizing h with
  | nil => exact ⟨rfl, rfl⟩
  | cons c cs ih =>
      obtain ⟨stat, use, num, heq⟩ := pageCall_frame t h c
      rw [pageCalls, heq]
      exact ih _

/-- A page that is marked stays so in a call that is not its release. -/
theorem StaysUsed.call (hu : StaysUsed m p h)
    (hfree : ∀ start length, c = .free start length → p ∉ spanPages m start length) :
    StaysUsed m p (pageCall t h c).1 := by
  cases c with
  | alloc length =>
      rw [pageCall]
      rcases kMemNodeAllocPagesNolock_cases t h length with
        ⟨r, -, heq, -⟩ | ⟨i, -, -, -, heq⟩
      · rw [heq]
        exact hu
      · rw [heq]
        refine ⟨hu.vaddr, hu.size, nextDbgHeapNum_low _, ?_⟩
        change kMemNodeSetPageFlag h.node.statPage i _ h.dbgHeapNum.toUInt8 p ≠ 0
        rw [kMemNodeSetPageFlag_apply]
        split
        · exact hu.tag
        · exact hu.used
  | free start length =>
      have hout := hfree start length rfl
      rw [← spanPages_congr hu.vaddr hu.size] at hout
      have hstat := kMemNodeFreePagesNolock_statPage h start length p
      rw [if_neg hout] at hstat
      obtain ⟨stat, use, heq⟩ := kMemNodeFreePagesNolock_frame h start length
      rw [heq] at hstat
      rw [pageCall, heq]
      refine ⟨hu.vaddr, hu.size, hu.tag, ?_⟩
      rw [MemNode.FreePage, hstat]
      exact hu.used

theorem StaysUsed.calls (hu : StaysUsed m p h)
    (hfree : ∀ start length, .free start length ∈ cs → p ∉ spanPages m start length) :
    StaysUsed m p (pageCalls t h cs) := by
  induction cs generalizing h with
  | nil => exact hu
  | cons c cs ih =>
      have hhead : StaysUsed m p (pageCall t h c).1 := by
        apply hu.call
        rintro start length rfl
        exact hfree start length List.mem_cons_self
      apply ih hhead
      intro start length hmem
      exact hfree start length (List.mem_cons_of_mem c hmem)

/-- The pages that an allocation has just marked. -/
theorem StaysUsed.of_grant {length i : Nat} (hvaddr : h.node.vaddr = m.vaddr)
    (hsize : h.node.size = m.size) (htag : h.dbgHeapNum.toUInt8 ≠ 0)
    (hret : (kMemNodeAllocPagesNolock t h length).2 = i) (hlow : i ≤ p)
    (hhigh : p < i + reqPage t length) :
    StaysUsed m p (kMemNodeAllocPagesNolock t h length).1 := by
  rw [(kMemNodeAllocPagesNolock_success hret).2]
  refine ⟨hvaddr, hsize, nextDbgHeapNum_low _, ?_⟩
  change kMemNodeSetPageFlag h.node.statPage i _ h.dbgHeapNum.toUInt8 p ≠ 0
  rw [kMemNodeSetPageFlag_apply, if_pos ⟨hlow, hhigh⟩]
  exact htag

/-- A page with a mark is allocated to every loop that looks at it. -/
theorem ReadsUsed.of_used (hused : ¬ m.FreePage p) : ReadsUsed m p where
  used := hused
  scan := fun req f i hscan => hused (allocScan_free hscan).2
  count := by
    intro lim
    unfold kMemNodeCountContPages
    cases m.pageTotal - p with
    | zero => rfl
    | succ n => exact if_pos (Or.inl hused)
  check := fun failed => if_neg hused

end Calls

/-- After any calls since boot, an allocation marks its pages with a byte that tells the number
of allocations before it and is not zero. Until one of these pages is released, whatever else is
called, every later scan takes it as allocated. -/
theorem granted_pages_read_used (t : Target) (mem : Mem) (m : MemNode)
    (before after : List PageCall) (length i : Nat)
    (hgrant : (kMemNodeAllocPagesNolock t
      (pageCalls t ((HeapState.boot mem).setNode m) before) length).2 = i) :
    let boot := (HeapState.boot mem).setNode m
    let h := pageCalls t boot before
    let h' := (kMemNodeAllocPagesNolock t h length).1
    let tag := pageTag (grants t boot before)
    tag ≠ 0 ∧
      h'.node.statPage = kMemNodeSetPageFlag h.node.statPage i (reqPage t length) tag ∧
      ∀ p, i ≤ p → p < i + reqPage t length →
        (∀ start len, .free start len ∈ after → p ∉ spanPages m start len) →
          ReadsUsed (pageCalls t h' after).node p := by
  intro boot h h' tag
  have htag : h.dbgHeapNum.toUInt8 = tag := pageCalls_tag t mem m before
  have hstat : h'.node.statPage =
      kMemNodeSetPageFlag h.node.statPage i (reqPage t length) tag := by
    rw [← htag]
    exact (kMemNodeAllocPagesNolock_marked hgrant).stat
  have hne : tag ≠ 0 := pageTag_ne_zero _
  refine ⟨hne, hstat, ?_⟩
  intro p hlow hhigh hfree
  obtain ⟨hvaddr, hsize⟩ := pageCalls_area t boot before
  have hgranted : StaysUsed m p h' :=
    StaysUsed.of_grant hvaddr hsize (htag ▸ hne) hgrant hlow hhigh
  exact ReadsUsed.of_used (hgranted.calls hfree).used

/-- A node with a single page. -/
def onePage : MemNode where
  vaddr := 0x80000000
  size := pageSize
  pageTotal := 1
  pageUse := 0
  statPage := fun _ => 0

/-- The page is allocated and released `n` times. -/
def rounds : Nat → List PageCall
  | 0 => []
  | n + 1 => .alloc pageSize :: .free onePage.vaddr pageSize :: rounds n

theorem onePage_alloc {h : HeapState} (hnode : h.node = onePage) :
    (kMemNodeAllocPagesNolock fivePages.toTarget h pageSize).2 = (0 : Nat) := by
  have hscan : allocScan onePage (reqPage fivePages.toTarget pageSize) 1 0 = some 0 := by decide
  rcases kMemNodeAllocPagesNolock_cases fivePages.toTarget h pageSize with
    ⟨r, -, -, hwhy⟩ | ⟨i, -, -, hfound, heq⟩
  · rw [hnode] at hwhy
    rcases hwhy with hzero | hfew | hnone
    · exact absurd hzero (by decide)
    · exact absurd hfew (by decide)
    · exact absurd (hscan.symm.trans hnone) (by simp)
  · rw [hnode] at hfound
    rw [heq, Option.some.inj (hfound.symm.trans hscan)]

theorem onePage_free {h : HeapState} (hnode : h.node = onePage) :
    (kMemNodeFreePagesNolock (kMemNodeAllocPagesNolock fivePages.toTarget h pageSize).1
      onePage.vaddr pageSize).1.node = onePage := by
  have hseg : Seg h.node.FreePage h.node.pageTotal 0 1 := by
    rw [hnode]
    exact ⟨Nat.le_refl 1, fun _ _ => rfl⟩
  have hfree := free_undoes_alloc (onePage_alloc hnode) (by decide) hseg (by decide)
    (by rw [hnode]; decide) (by rw [hnode]; decide)
  rwa [hnode, Nat.zero_mul, Nat.add_zero, Nat.one_mul] at hfree

/-- Each round is one more allocation and leaves the page free. -/
theorem rounds_spec (n : Nat) {h : HeapState} (hnode : h.node = onePage) :
    (pageCalls fivePages.toTarget h (rounds n)).node = onePage ∧
      grants fivePages.toTarget h (rounds n) = n := by
  induction n generalizing h with
  | zero => exact ⟨hnode, rfl⟩
  | succ n ih =>
      obtain ⟨hafter, hcount⟩ := ih (onePage_free hnode)
      refine ⟨hafter, ?_⟩
      rw [rounds, grants, grants, pageCall, pageCall, hcount, grantOf, grantOf,
        onePage_alloc hnode, if_pos (Int.natCast_nonneg 0)]
      omega

/-- The page is granted once more after the counter has wrapped. -/
theorem granted_pages_read_used_wrapped :
    let boot := (HeapState.boot fun _ => 0).setNode onePage
    let h := pageCalls fivePages.toTarget boot (rounds (2 ^ 32))
    let h' := (kMemNodeAllocPagesNolock fivePages.toTarget h pageSize).1
    grants fivePages.toTarget boot (rounds (2 ^ 32)) = 2 ^ 32 ∧ h'.node.statPage 0 = 2 ∧
      ReadsUsed (pageCalls fivePages.toTarget h' [.alloc pageSize]).node 0 := by
  obtain ⟨hnode, hcount⟩ := rounds_spec (2 ^ 32)
    (show ((HeapState.boot fun _ => 0).setNode onePage).node = onePage from rfl)
  -- nothing below looks into the list of calls
  generalize rounds (2 ^ 32) = before at hnode hcount ⊢
  obtain ⟨-, hstat, hlater⟩ := granted_pages_read_used fivePages.toTarget (fun _ => 0) onePage
    before [.alloc pageSize] pageSize 0 (onePage_alloc hnode)
  refine ⟨hcount, ?_, hlater 0 (Nat.le_refl 0) (by decide) nofun⟩
  rw [hstat, kMemNodeSetPageFlag_apply, if_pos (by decide), hcount]
  decide

section Histories

variable {cfg : MemConfig} {mem : Mem} {h h' : HeapState}

/-- Two states with the same node and the same counter; the page functions see nothing else. -/
structure SameTable (h h' : HeapState) : Prop where
  node : h.node = h'.node
  num : h.dbgHeapNum = h'.dbgHeapNum

theorem SameTable.setNode (hnum : h.dbgHeapNum = h'.dbgHeapNum) (m : MemNode) :
    SameTable (h.setNode m) (h'.setNode m) := ⟨rfl, hnum⟩

theorem SameTable.alloc (hsame : SameTable h h') (t : Target) (length : Nat) :
    SameTable (kMemNodeAllocPagesNolock t h length).1 (kMemNodeAllocPagesNolock t h' length).1 := by
  obtain ⟨hnode, hnum⟩ := hsame
  unfold kMemNodeAllocPagesNolock
  rw [hnode, hnum]
  dsimp only
  split
  · exact ⟨hnode, hnum⟩
  · split
    · exact ⟨hnode, hnum⟩
    · split
      · exact ⟨hnode, hnum⟩
      · exact ⟨rfl, rfl⟩

theorem SameTable.free (hsame : SameTable h h') (start length : Nat) :
    SameTable (kMemNodeFreePagesNolock h start length).1
      (kMemNodeFreePagesNolock h' start length).1 := by
  obtain ⟨hnode, hnum⟩ := hsame
  rw [kMemNodeFreePagesNolock_eq, kMemNodeFreePagesNolock_eq, hnode]
  cases pageSpan h'.node start length with
  | none => exact ⟨hnode, hnum⟩
  | some g => exact SameTable.setNode hnum _

theorem pageCalls_concat (t : Target) (h : HeapState) (cs : List PageCall) (c : PageCall) :
    pageCalls t h (cs ++ [c]) = (pageCall t (pageCalls t h cs) c).1 := by
  induction cs generalizing h with
  | nil => rfl
  | cons d cs ih => exact ih _

/-- The table and the counter come from calls of the page functions since boot. -/
def FromPageCalls (cfg : MemConfig) (mem : Mem) (h : HeapState) : Prop :=
  ∃ cs, SameTable h (pageCalls cfg.toTarget (HeapState.fresh cfg mem) cs)

theorem FromPageCalls.alloc (hfrom : FromPageCalls cfg mem h) (length : Nat) :
    FromPageCalls cfg mem (kMemNodeAllocPagesNolock cfg.toTarget h length).1 := by
  obtain ⟨cs, hcs⟩ := hfrom
  refine ⟨cs ++ [.alloc length], ?_⟩
  rw [pageCalls_concat]
  exact hcs.alloc cfg.toTarget length

theorem FromPageCalls.free (hfrom : FromPageCalls cfg mem h) (start length : Nat) :
    FromPageCalls cfg mem (kMemNodeFreePagesNolock h start length).1 := by
  obtain ⟨cs, hcs⟩ := hfrom
  refine ⟨cs ++ [.free start length], ?_⟩
  rw [pageCalls_concat]
  exact hcs.free start length

theorem FromPageCalls.of_same (hfrom : FromPageCalls cfg mem h) (hsame : SameTable h' h) :
    FromPageCalls cfg mem h' := by
  obtain ⟨cs, hcs⟩ := hfrom
  exact ⟨cs, hsame.node.trans hcs.node, hsame.num.trans hcs.num⟩

theorem fromPageCalls_init (cfg : MemConfig) (mem : Mem) :
    FromPageCalls cfg mem (mapInit cfg mem).heap := by
  have hfresh : FromPageCalls cfg mem (HeapState.fresh cfg mem) := ⟨[], rfl, rfl⟩
  apply (hfresh.alloc cfg.brkSize).of_same
  rw [mapInit_heap rfl]
  split
  · exact ⟨rfl, rfl⟩
  · exact ⟨rfl, rfl⟩

/-- Every call of a history is at most one call of a page function. -/
theorem FromPageCalls.step {s s' : MapState} {c : MapCall} (hs : FromPageCalls cfg mem s.heap)
    (hstep : mapStep cfg s c = some s') : FromPageCalls cfg mem s'.heap := by
  cases c with
  | mmap length flags fd offset =>
      rw [mapStep] at hstep
      split at hstep
      · obtain rfl := Option.some.inj hstep
        change FromPageCalls cfg mem (kSysMmap cfg s.heap length flags fd offset).1
        cases hok : mmapArgsOk flags fd offset with
        | false =>
            rw [kSysMmap_rejected cfg s.heap length flags fd offset hok]
            exact hs
        | true =>
            obtain ⟨hnode, hnum, -⟩ := kSysMmap_node cfg s.heap length flags fd offset hok
            exact (hs.alloc (mmapLen length)).of_same ⟨hnode, hnum⟩
      · exact absurd hstep (by simp)
  | munmap addr length =>
      rw [mapStep] at hstep
      split at hstep
      · obtain rfl := Option.some.inj hstep
        change FromPageCalls cfg mem (kSysMunmap cfg s.heap addr length).1
        unfold kSysMunmap
        split
        · exact hs
        · exact hs.free addr length
      · exact absurd hstep (by simp)

theorem FromPageCalls.tag_ne_zero (hfrom : FromPageCalls cfg mem h) :
    h.dbgHeapNum.toUInt8 ≠ 0 := by
  obtain ⟨cs, -, hnum⟩ := hfrom
  rw [hnum, HeapState.fresh, pageCalls_tag]
  exact pageTag_ne_zero _

/-- The mark of the next allocation is not zero in any history of mappings, also in one in which
allocations overlap. -/
theorem history_tag {calls : List MapCall} {s : MapState}
    (hrun : exec (mapStep cfg) (mapInit cfg mem) calls = some s) :
    s.heap.dbgHeapNum.toUInt8 ≠ 0 := by
  apply FromPageCalls.tag_ne_zero
  exact Reachable.invariant (fun _ _ _ hs hstep => FromPageCalls.step hs hstep)
    (fromPageCalls_init cfg mem) ⟨calls, hrun⟩

end Histories

end BaremetalCrt
