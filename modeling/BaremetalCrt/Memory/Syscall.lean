import BaremetalCrt.Memory.Node

/-!
# Memory initialisation and the mapping system calls

`k_mem_init` sets up the head node and takes the brk area from it.
`k_sys_mmap` and `k_sys_munmap` are the only callers of the page allocator
afterwards. They run under the node lock, so each call is one step here.
-/

namespace BaremetalCrt

/-- The static data before `k_mem_init`: zeroed at boot, with the tag counter at one. -/
def HeapState.boot (mem : Mem) : HeapState where
  node := { vaddr := 0, size := 0, pageTotal := 0, pageUse := 0, statPage := fun _ => 0 }
  dbgHeapNum := 1
  brkTop := 0
  brkCur := 0
  mem := mem

/-- `k_mem_init`. -/
def kMemInit (cfg : MemConfig) (h : HeapState) : HeapState × Int :=
  let h := h.setNode { h.node with
    vaddr := cfg.heapHeadArea
    size := cfg.heapSize
    pageTotal := cfg.heapSize / pageSize
    pageUse := 0 }
  let (h, offPage) := kMemNodeAllocPagesNolock cfg.toTarget h cfg.brkSize
  if offPage < 0 then (h, -enomem)
  else
    let top := h.node.vaddr + offPage.toNat * pageSize
    ({ h with brkTop := top, brkCur := top }, 0)

def mapPrivate : BitVec 32 := 0x0000
def mapAnonymous : BitVec 32 := 0x0002
def mapStack : BitVec 32 := 0x20000

/-- The argument check of `k_sys_mmap`: anonymous private mappings only. -/
def mmapArgsOk (flags : BitVec 32) (fd offset : Int) : Bool :=
  let req := mapPrivate ||| mapAnonymous
  decide (((flags &&& ~~~mapStack) &&& req) = req ∧ fd = -1 ∧ offset = 0)

/-- The length that `k_sys_mmap` asks for: an empty mapping still gets a page. -/
def mmapLen (length : Nat) : Nat := if length = 0 then 4 else length

/-- `k_sys_mmap`. The index that the allocator returns is stored in a `size_t`
before it is compared with zero. -/
def kSysMmap (cfg : MemConfig) (h : HeapState) (length : Nat) (flags : BitVec 32)
    (fd offset : Int) : HeapState × Int :=
  let len := mmapLen length
  if mmapArgsOk flags fd offset then
    let (h, r) := kMemNodeAllocPagesNolock cfg.toTarget h len
    let offPage := cfg.toUnsigned r
    if (offPage : Int) < 0 then (h, -enomem)
    else
      let anonPtr := cfg.wrap (h.node.vaddr + offPage * pageSize)
      ({ h with mem := (kMemset cfg.toTarget h.mem anonPtr 0 len).1 }, cfg.ptrToInt anonPtr)
  else (h, -einval)

/-- `k_sys_munmap`. The result of the release is ignored. -/
def kSysMunmap (cfg : MemConfig) (h : HeapState) (addr length : Nat) : HeapState × Int :=
  if addr < h.node.vaddr ∨ h.node.vaddr + h.node.size < cfg.wrap (addr + length) then
    (h, -einval)
  else ((kMemNodeFreePagesNolock h addr length).1, 0)

/-- `k_mem_check_pages`. -/
def kMemCheckPages (h : HeapState) (start length : Nat) : Int :=
  kMemNodeCheckPagesNolock h start length

def madvDontneed : Int := 4

/-- `k_sys_madvise`. The call of `k_memset` has the length in the place of the value, where it
is converted to `int`, and zero in the place of the length. -/
def kSysMadvise (t : Target) (h : HeapState) (addr length : Nat) (advice : Int) :
    HeapState × Int :=
  if advice = madvDontneed then
    let r := kMemCheckPages h addr length
    if r ≠ 0 then (h, r)
    else ({ h with mem := (kMemset t h.mem addr (BitVec.ofNat 32 length).toInt 0).1 }, 0)
  else (h, -einval)

/-- The node describes the heap area of a configuration, as `k_mem_init` sets it up. The
area is an object that `define_heap` aligns to pages. -/
structure MemNode.Describes (m : MemNode) (cfg : MemConfig) : Prop where
  vaddr : m.vaddr = cfg.heapHeadArea
  size : m.size = cfg.heapSize
  total : m.pageTotal = cfg.heapSize / pageSize
  aligned : cfg.heapHeadArea % pageSize = 0
  placed : 0 < cfg.heapHeadArea

/-- `k_sys_mmap` leaves the allocator as the page allocation left it. -/
theorem kSysMmap_node (cfg : MemConfig) (h : HeapState) (length : Nat) (flags : BitVec 32)
    (fd offset : Int) (hok : mmapArgsOk flags fd offset = true) :
    let a := (kMemNodeAllocPagesNolock cfg.toTarget h (mmapLen length)).1
    let k := (kSysMmap cfg h length flags fd offset).1
    k.node = a.node ∧ k.dbgHeapNum = a.dbgHeapNum ∧ k.brkTop = a.brkTop ∧
      k.brkCur = a.brkCur := by
  simp only [kSysMmap, hok, if_true]
  rw [if_neg (by omega)]
  exact ⟨rfl, rfl, rfl, rfl⟩

theorem kSysMmap_rejected (cfg : MemConfig) (h : HeapState) (length : Nat)
    (flags : BitVec 32) (fd offset : Int) (hok : mmapArgsOk flags fd offset = false) :
    (kSysMmap cfg h length flags fd offset).1 = h := by
  simp [kSysMmap, hok]

/-- Without a wrap the request is the length rounded up to pages. -/
theorem reqPage_of_lt {t : Target} {length : Nat} (h : length + pageSize - 1 < 2 ^ t.bits) :
    reqPage t length = (length + pageSize - 1) / pageSize := by
  unfold reqPage Target.wrap
  rw [Nat.mod_eq_of_lt h]

theorem reqPage_pos {t : Target} {length : Nat} (hpos : 0 < length)
    (h : length + pageSize - 1 < 2 ^ t.bits) : 1 ≤ reqPage t length := by
  rw [reqPage_of_lt h]
  unfold pageSize
  omega

/-- The brk size of a configuration can be rounded up without a wrap. -/
theorem MemConfig.brk_no_wrap (cfg : MemConfig) :
    cfg.brkSize + pageSize - 1 < 2 ^ cfg.bits := by
  have hle := cfg.brk_le_heap
  have hfit := cfg.area_fits
  have halign := cfg.heap_aligned
  have hword := cfg.toTarget.word_mod_page
  unfold pageSize at *
  omega

end BaremetalCrt
