import BaremetalCrt.Library.LittleEndian
import BaremetalCrt.Library.Loops
import BaremetalCrt.Sys.String

/-!
# Filling and copying memory by words

`k_memset` and `k_memcpy` go over memory by blocks of four words, by words and by bytes.
The loops share a pointer and a counter, so one statement about both is kept by all of
them: the part of the region that is behind the pointer is done, and the rest is as it was.

## Implementation notes

The routines run on a memory that records the accesses to it. Without the record
`kMemsetTraced` is `kMemset`. Addresses are natural numbers: a region of a C object does
not wrap around.
-/

namespace BaremetalCrt

open BoundedLoop LittleEndian

/-- One access to memory, with its size in bytes. -/
structure Access where
  addr : Nat
  width : Nat
  deriving DecidableEq

/-- The address is a multiple of the size. -/
def Access.Aligned (x : Access) : Prop := x.addr % x.width = 0

/-- The access stays in a region. -/
def Access.Inside (x : Access) (s n : Nat) : Prop := s ≤ x.addr ∧ x.addr + x.width ≤ s + n

/-- A byte or an aligned word of a region. -/
structure Access.Proper (w s n : Nat) (x : Access) : Prop where
  size : x.width = 1 ∨ x.width = w
  aligned : x.Aligned
  inside : x.Inside s n

/-- A memory with the accesses that were made to it, the latest first. -/
structure TracedMem where
  mem : Mem
  loads : List Access
  stores : List Access

namespace TracedMem

def store8 (m : TracedMem) (a : Nat) (v : UInt8) : TracedMem where
  mem := m.mem.store8 a v
  loads := m.loads
  stores := ⟨a, 1⟩ :: m.stores

def storeWord (w : Nat) (m : TracedMem) (a v : Nat) : TracedMem where
  mem := m.mem.storeWord w a v
  loads := m.loads
  stores := ⟨a, w⟩ :: m.stores

def load8 (m : TracedMem) (a : Nat) : UInt8 × TracedMem :=
  (m.mem a, { m with loads := ⟨a, 1⟩ :: m.loads })

def loadWord (w : Nat) (m : TracedMem) (a : Nat) : Nat × TracedMem :=
  (read m.mem a w, { m with loads := ⟨a, w⟩ :: m.loads })

end TracedMem

/-- The variables of `k_memset`. -/
structure FillState where
  s : Nat
  n : Nat
  m : TracedMem

namespace Memset

/-- An iteration of the byte loops. -/
def byteBody (c : UInt8) (x : FillState) : FillState where
  s := x.s + 1
  n := x.n - 1
  m := x.m.store8 x.s c

/-- An iteration of the loop over words. -/
def wordBody (w c2 : Nat) (x : FillState) : FillState where
  s := x.s + w
  n := x.n - w
  m := x.m.storeWord w x.s c2

/-- An iteration of the loop over blocks. -/
def blockBody (w c2 : Nat) (x : FillState) : FillState :=
  let m := x.m.storeWord w x.s c2
  let m := m.storeWord w (x.s + w) c2
  let m := m.storeWord w (x.s + w * 2) c2
  let m := m.storeWord w (x.s + w * 3) c2
  ⟨x.s + w * 4, x.n - w * 4, m⟩

def headTraced (w : Nat) (c : UInt8) (x : FillState) : FillState :=
  loop (fun x => x.s % w ≠ 0 && x.n ≠ 0) (byteBody c) x.n x

def blocksTraced (w c2 : Nat) (x : FillState) : FillState :=
  loop (fun x => x.n ≥ w * 4) (blockBody w c2) x.n x

def wordsTraced (w c2 : Nat) (x : FillState) : FillState :=
  loop (fun x => x.n ≥ w) (wordBody w c2) x.n x

def tailTraced (c : UInt8) (x : FillState) : FillState :=
  loop (fun x => x.n ≠ 0) (byteBody c) x.n x

end Memset

/-- `k_memset` on a memory that records the accesses. -/
def kMemsetTraced (t : Target) (m : TracedMem) (s : Nat) (c : Int) (n : Nat) : TracedMem × Nat :=
  let w := t.optBytes
  let b := lowByte c
  let x := Memset.headTraced w b ⟨s, n, m⟩
  let x :=
    if x.s % w = 0 then
      let c2 := Memset.fillWord w b
      Memset.wordsTraced w c2 (Memset.blocksTraced w c2 x)
    else x
  ((Memset.tailTraced b x).m, s)

/-- The variables of `k_memcpy`. -/
structure CopyState where
  dest : Nat
  src : Nat
  n : Nat
  m : TracedMem

namespace Memcpy

/-- An iteration of the loop over bytes. -/
def byteBody (x : CopyState) : CopyState :=
  let (v, m) := x.m.load8 x.src
  ⟨x.dest + 1, x.src + 1, x.n - 1, m.store8 x.dest v⟩

/-- The assignment of one word at an offset. -/
def wordCopy (w : Nat) (dest src off : Nat) (m : TracedMem) : TracedMem :=
  let (v, m) := m.loadWord w (src + off)
  m.storeWord w (dest + off) v

/-- An iteration of the loop over words. -/
def wordBody (w : Nat) (x : CopyState) : CopyState :=
  ⟨x.dest + w, x.src + w, x.n - w, wordCopy w x.dest x.src 0 x.m⟩

/-- An iteration of the loop over blocks. -/
def blockBody (w : Nat) (x : CopyState) : CopyState :=
  let m := wordCopy w x.dest x.src 0 x.m
  let m := wordCopy w x.dest x.src w m
  let m := wordCopy w x.dest x.src (w * 2) m
  let m := wordCopy w x.dest x.src (w * 3) m
  ⟨x.dest + w * 4, x.src + w * 4, x.n - w * 4, m⟩

def blocks (w : Nat) (x : CopyState) : CopyState :=
  loop (fun x => x.n ≥ w * 4) (blockBody w) x.n x

def words (w : Nat) (x : CopyState) : CopyState :=
  loop (fun x => x.n ≥ w) (wordBody w) x.n x

def bytes (x : CopyState) : CopyState :=
  loop (fun x => x.n ≠ 0) byteBody x.n x

end Memcpy

/-- `k_memcpy`: copy by words where both addresses allow it. -/
def kMemcpy (t : Target) (m : TracedMem) (dest src n : Nat) : TracedMem × Nat :=
  let w := t.optBytes
  let x : CopyState := ⟨dest, src, n, m⟩
  let x := if dest % w = 0 ∧ src % w = 0 then Memcpy.words w (Memcpy.blocks w x) else x
  ((Memcpy.bytes x).m, dest)

theorem Target.optBytes_cases (t : Target) : t.optBytes = 4 ∨ t.optBytes = 8 := by
  unfold Target.optBytes
  exact t.bits_cases.imp (fun h => by rw [h]) fun h => by rw [h]

/-- One more proper access. -/
theorem Access.proper_cons {w lo n : Nat} {old log log' : List Access} {x : Access}
    (hlog : ∀ y ∈ log, y ∈ old ∨ y.Proper w lo n) (hlog' : log' = x :: log)
    (hx : x.Proper w lo n) : ∀ y ∈ log', y ∈ old ∨ y.Proper w lo n := by
  rw [hlog']
  intro y hy
  rcases List.mem_cons.mp hy with rfl | hy
  · exact Or.inr hx
  · exact hlog y hy

theorem Mem.store8_eq_copy (m : Mem) (a : Nat) (v : UInt8) :
    m.store8 a v = copy m a (fun _ => v) 1 := by
  funext b
  by_cases h : b = a
  · rw [Mem.store8, if_pos h, copy_of_mem (by omega) (by omega)]
  · rw [Mem.store8, if_neg h, copy_of_outside (by omega)]

theorem Mem.storeWord_eq_copy (w : Nat) (m : Mem) (a v : Nat) :
    m.storeWord w a v = copy m a (byte v) w := rfl

/-- Doubling a number of few bits by a shift, in a word that has room for it. -/
theorem or_shiftLeft_self_mod {c k b : Nat} (h : c < 2 ^ k) (hb : k + k ≤ b) :
    (c ||| c <<< k) % 2 ^ b = c * (2 ^ k + 1) := by
  have hroom : c * (2 ^ k + 1) < 2 ^ b :=
    calc c * (2 ^ k + 1) = c * 2 ^ k + c := by rw [Nat.mul_add, Nat.mul_one]
      _ < c * 2 ^ k + 2 ^ k := Nat.add_lt_add_left h _
      _ = (c + 1) * 2 ^ k := by rw [Nat.add_mul, Nat.one_mul]
      _ ≤ 2 ^ k * 2 ^ k := Nat.mul_le_mul_right _ h
      _ = 2 ^ (k + k) := (Nat.pow_add 2 k k).symm
      _ ≤ 2 ^ b := Nat.pow_le_pow_right (by decide) hb
  rw [Nat.or_comm, ← Nat.shiftLeft_add_eq_or_of_lt h, Nat.shiftLeft_eq]
  rw [Nat.mul_add, Nat.mul_one] at hroom ⊢
  exact Nat.mod_eq_of_lt hroom

/-- The fill word is the number whose bytes are all the given one. -/
theorem Memset.fillWord_eq {w : Nat} (hw : w = 4 ∨ w = 8) (c : UInt8) :
    fillWord w c = read (fun _ => c) 0 w := by
  have hc : c.toNat < 2 ^ 8 := c.toNat_lt
  unfold fillWord
  dsimp only
  rw [or_shiftLeft_self_mod hc (by omega), or_shiftLeft_self_mod (by omega) (by omega)]
  rcases hw with rfl | rfl
  · rw [if_neg (by decide)]
    simp only [LittleEndian.read]
    omega
  · rw [if_pos (by decide), ← Nat.shiftLeft_add, or_shiftLeft_self_mod (by omega) (by omega)]
    simp only [LittleEndian.read]
    omega

namespace Memset

section Erase

/-- The variables without the record of the accesses. -/
def erase (x : FillState) : Nat × Nat × Mem := (x.s, x.n, x.m.mem)

theorem head_eq_erase (w : Nat) (c : UInt8) (x : FillState) :
    head w c x.s x.n x.m.mem = erase (headTraced w c x) := by
  obtain ⟨s, n, m⟩ := x
  unfold headTraced
  induction n generalizing s m with
  | zero => rfl
  | succ n ih =>
      by_cases hs : s % w ≠ 0
      · rw [loop_of_true (by simp [hs]), head, if_pos hs]
        exact ih (s + 1) (m.store8 s c)
      · rw [loop_of_false (by simp [not_not.mp hs]), head, if_neg hs]
        rfl

theorem blocks_eq_erase (w c2 : Nat) (x : FillState) :
    blocks w c2 x.n x.s x.n x.m.mem = erase (blocksTraced w c2 x) := by
  apply eq_loop_of_equations (g := fun f (x : FillState) => blocks w c2 f x.s x.n x.m.mem)
  · exact fun _ => rfl
  · intro f y hy
    exact if_pos (of_decide_eq_true hy)
  · intro f y hy
    exact if_neg (of_decide_eq_false hy)

theorem words_eq_erase (w c2 : Nat) (x : FillState) :
    words w c2 x.n x.s x.n x.m.mem = erase (wordsTraced w c2 x) := by
  apply eq_loop_of_equations (g := fun f (x : FillState) => words w c2 f x.s x.n x.m.mem)
  · exact fun _ => rfl
  · intro f y hy
    exact if_pos (of_decide_eq_true hy)
  · intro f y hy
    exact if_neg (of_decide_eq_false hy)

theorem tail_eq_erase (c : UInt8) (x : FillState) :
    tail c x.s x.n x.m.mem = (tailTraced c x).m.mem := by
  obtain ⟨s, n, m⟩ := x
  unfold tailTraced
  induction n generalizing s m with
  | zero => rfl
  | succ n ih =>
      rw [loop_of_true (by simp), tail]
      exact ih (s + 1) (m.store8 s c)

end Erase

/-- Where the loops are: the bytes before the pointer are filled, the others are as they
were, and only bytes and aligned words of the region were stored to. -/
structure Filled (w : Nat) (c : UInt8) (s n : Nat) (m : TracedMem) (x : FillState) : Prop where
  le : x.n ≤ n
  place : x.s + x.n = s + n
  mem : x.m.mem = copy m.mem s (fun _ => c) (n - x.n)
  loads : x.m.loads = m.loads
  stores : ∀ y ∈ x.m.stores, y ∈ m.stores ∨ y.Proper w s n

section Fill

variable {w : Nat} {c : UInt8} {s n : Nat} {m : TracedMem} {x : FillState}

theorem Filled.start (w : Nat) (c : UInt8) (s n : Nat) (m : TracedMem) :
    Filled w c s n m ⟨s, n, m⟩ where
  le := Nat.le_refl n
  place := rfl
  mem := by rw [Nat.sub_self, copy_zero]
  loads := rfl
  stores := fun _ => Or.inl

/-- A store of the next bytes that have to be filled. -/
theorem Filled.advance (h : Filled w c s n m x) {k : Nat} {part : Nat → UInt8} {m' : TracedMem}
    (hk : k ≤ x.n) (hsize : k = 1 ∨ k = w) (haligned : x.s % k = 0)
    (hpart : ∀ i < k, part i = c) (hmem : m'.mem = copy x.m.mem x.s part k)
    (hloads : m'.loads = x.m.loads) (hstores : m'.stores = ⟨x.s, k⟩ :: x.m.stores) :
    Filled w c s n m ⟨x.s + k, x.n - k, m'⟩ := by
  obtain ⟨hle, hplace, hold, hsame, hproper⟩ := h
  have hs : x.s = s + (n - x.n) := by omega
  refine ⟨Nat.le_trans (Nat.sub_le _ _) hle, ?_, ?_, hloads.trans hsame, ?_⟩
  · dsimp only
    omega
  · have hn : n - (x.n - k) = n - x.n + k := by omega
    dsimp only
    rw [hmem, hold, hs, hn]
    exact copy_append hpart
  · exact Access.proper_cons hproper hstores
      ⟨hsize, haligned, show s ≤ x.s by omega, show x.s + k ≤ s + n by omega⟩

theorem Filled.byteBody (h : Filled w c s n m x) (hn : x.n ≠ 0) :
    Filled w c s n m (byteBody c x) :=
  h.advance (Nat.pos_of_ne_zero hn) (Or.inl rfl) (Nat.mod_one _) (fun _ _ => rfl)
    (Mem.store8_eq_copy ..) rfl rfl

theorem Filled.wordBody (h : Filled w c s n m x) (hw : w = 4 ∨ w = 8) (hn : x.n ≥ w)
    (hs : x.s % w = 0) : Filled w c s n m (wordBody w (fillWord w c) x) := by
  refine h.advance hn (Or.inr rfl) hs (fun i hi => ?_) (Mem.storeWord_eq_copy ..) rfl rfl
  rw [fillWord_eq hw]
  exact byte_read hi

/-- A block is four words. -/
theorem blockBody_eq (w c2 : Nat) (x : FillState) :
    blockBody w c2 x = Memset.wordBody w c2 (Memset.wordBody w c2 (Memset.wordBody w c2
      (Memset.wordBody w c2 x))) := by
  have h2 : x.s + w * 2 = x.s + w + w := by omega
  have h3 : x.s + w * 3 = x.s + w + w + w := by omega
  have h4 : x.s + w * 4 = x.s + w + w + w + w := by omega
  have hn : x.n - w * 4 = x.n - w - w - w - w := by omega
  simp only [blockBody, Memset.wordBody, h2, h3, h4, hn]

theorem Filled.blockBody (h : Filled w c s n m x) (hw : w = 4 ∨ w = 8) (hn : x.n ≥ w * 4)
    (hs : x.s % w = 0) : Filled w c s n m (blockBody w (fillWord w c) x) := by
  rw [blockBody_eq]
  have hstep : ∀ {y : FillState}, y.s % w = 0 → (Memset.wordBody w (fillWord w c) y).s % w = 0 :=
    fun {y} hy => (Nat.add_mod_right y.s w).trans hy
  have hleft : ∀ {y : FillState}, (Memset.wordBody w (fillWord w c) y).n = y.n - w := rfl
  have h1 := h.wordBody hw (by omega) hs
  have h2 := h1.wordBody hw (by rw [hleft]; omega) (hstep hs)
  have h3 := h2.wordBody hw (by rw [hleft, hleft]; omega) (hstep (hstep hs))
  exact h3.wordBody hw (by rw [hleft, hleft, hleft]; omega) (hstep (hstep (hstep hs)))

theorem Filled.headTraced (h : Filled w c s n m x) : Filled w c s n m (headTraced w c x) := by
  apply loop_invariant _ h
  intro y hy hfilled
  exact hfilled.byteBody (by simpa using (Bool.and_eq_true_iff.mp hy).2)

theorem Filled.blocksTraced (h : Filled w c s n m x) (hw : w = 4 ∨ w = 8) (hs : x.s % w = 0) :
    Filled w c s n m (blocksTraced w (fillWord w c) x) ∧
      (blocksTraced w (fillWord w c) x).s % w = 0 := by
  apply loop_invariant (I := fun y => Filled w c s n m y ∧ y.s % w = 0) _ ⟨h, hs⟩
  rintro y hy ⟨hfilled, hys⟩
  exact ⟨hfilled.blockBody hw (by simpa using hy) hys, (Nat.add_mul_mod_self_left ..).trans hys⟩

theorem Filled.wordsTraced (h : Filled w c s n m x) (hw : w = 4 ∨ w = 8) (hs : x.s % w = 0) :
    Filled w c s n m (wordsTraced w (fillWord w c) x) := by
  have hboth : Filled w c s n m (Memset.wordsTraced w (fillWord w c) x) ∧
      (Memset.wordsTraced w (fillWord w c) x).s % w = 0 := by
    apply loop_invariant (I := fun y => Filled w c s n m y ∧ y.s % w = 0) _ ⟨h, hs⟩
    rintro y hy ⟨hfilled, hys⟩
    exact ⟨hfilled.wordBody hw (by simpa using hy) hys, (Nat.add_mod_right ..).trans hys⟩
  exact hboth.1

theorem Filled.tailTraced (h : Filled w c s n m x) :
    Filled w c s n m (tailTraced c x) ∧ (tailTraced c x).n = 0 := by
  constructor
  · apply loop_invariant _ h
    intro y hy hfilled
    exact hfilled.byteBody (by simpa using hy)
  · exact loop_measure_zero FillState.n
      (fun y hy => Nat.sub_lt (Nat.pos_of_ne_zero hy) Nat.one_pos) x

end Fill

/-- The byte loop alone fills the region. -/
theorem tail_eq_copy (c : UInt8) (s n : Nat) (m : Mem) :
    tail c s n m = copy m s (fun _ => c) n := by
  obtain ⟨hfilled, hzero⟩ := (Filled.start 1 c s n ⟨m, [], []⟩).tailTraced
  rw [tail_eq_erase c ⟨s, n, m, [], []⟩, hfilled.mem, hzero, Nat.sub_zero]

end Memset

/-- Without the record the routine is `kMemset`. -/
theorem kMemset_eq_traced (t : Target) (m : TracedMem) (s : Nat) (c : Int) (n : Nat) :
    kMemset t m.mem s c n = ((kMemsetTraced t m s c n).1.mem, s) := by
  unfold kMemset kMemsetTraced
  dsimp only
  have hhead := Memset.head_eq_erase t.optBytes (lowByte c) ⟨s, n, m⟩
  dsimp only at hhead
  rw [hhead]
  generalize Memset.headTraced t.optBytes (lowByte c) ⟨s, n, m⟩ = x
  by_cases hs : x.s % t.optBytes = 0
  · have hs' : (Memset.erase x).1 % t.optBytes = 0 := hs
    rw [if_pos hs', if_pos hs, ← Memset.tail_eq_erase]
    simp only [Memset.erase]
    rw [Memset.blocks_eq_erase]
    simp only [Memset.erase]
    rw [Memset.words_eq_erase]
    rfl
  · have hs' : ¬ (Memset.erase x).1 % t.optBytes = 0 := hs
    rw [if_neg hs', if_neg hs, ← Memset.tail_eq_erase]
    rfl

/-- `k_memset` fills the region by bytes and aligned words of it. -/
theorem kMemsetTraced_spec (t : Target) (m : TracedMem) (s : Nat) (c : Int) (n : Nat) :
    (kMemsetTraced t m s c n).1.mem = copy m.mem s (fun _ => lowByte c) n ∧
      (kMemsetTraced t m s c n).1.loads = m.loads ∧
      ∀ y ∈ (kMemsetTraced t m s c n).1.stores, y ∈ m.stores ∨ y.Proper t.optBytes s n := by
  have hw := t.optBytes_cases
  have hhead := (Memset.Filled.start t.optBytes (lowByte c) s n m).headTraced
  unfold kMemsetTraced
  dsimp only
  generalize Memset.headTraced t.optBytes (lowByte c) ⟨s, n, m⟩ = x at hhead
  by_cases hs : x.s % t.optBytes = 0
  · rw [if_pos hs]
    obtain ⟨hblocks, hs'⟩ := hhead.blocksTraced hw hs
    obtain ⟨hdone, hzero⟩ := (hblocks.wordsTraced hw hs').tailTraced
    exact ⟨by rw [hdone.mem, hzero, Nat.sub_zero], hdone.loads, hdone.stores⟩
  · rw [if_neg hs]
    obtain ⟨hdone, hzero⟩ := hhead.tailTraced
    exact ⟨by rw [hdone.mem, hzero, Nat.sub_zero], hdone.loads, hdone.stores⟩

/-- The memory and the result of `k_memset`. -/
theorem kMemset_eq_copy (t : Target) (m : Mem) (s : Nat) (c : Int) (n : Nat) :
    kMemset t m s c n = (copy m s (fun _ => lowByte c) n, s) := by
  rw [kMemset_eq_traced t ⟨m, [], []⟩, (kMemsetTraced_spec t ⟨m, [], []⟩ s c n).1]

/-- `k_memset` fills exactly the region, by bytes and aligned words of it: the routine is
its byte loop. -/
theorem memset_equals_byte_loop (t : Target) (m : Mem) (s : Nat) (c : Int) (n : Nat) :
    kMemset t m s c n = (Memset.tail (lowByte c) s n m, s) ∧
      (∀ a, s ≤ a → a < s + n → (kMemset t m s c n).1 a = lowByte c) ∧
      (∀ a, a < s ∨ s + n ≤ a → (kMemset t m s c n).1 a = m a) ∧
      (kMemsetTraced t ⟨m, [], []⟩ s c n).1.mem = (kMemset t m s c n).1 ∧
      (kMemsetTraced t ⟨m, [], []⟩ s c n).1.loads = [] ∧
      ∀ y ∈ (kMemsetTraced t ⟨m, [], []⟩ s c n).1.stores, y.Proper t.optBytes s n := by
  obtain ⟨hmem, hloads, hstores⟩ := kMemsetTraced_spec t ⟨m, [], []⟩ s c n
  rw [kMemset_eq_copy, Memset.tail_eq_copy, hmem]
  dsimp only
  refine ⟨rfl, fun a hlow hhigh => copy_of_mem hlow hhigh, fun a ha => copy_of_outside ha, rfl,
    hloads, fun y hy => ?_⟩
  exact (hstores y hy).resolve_left List.not_mem_nil

namespace Memcpy

/-- Where the loops are: the bytes before the pointers are copied, the others are as they
were, and only bytes and aligned words of the two regions were accessed. -/
structure Copied (w dest src n : Nat) (m : TracedMem) (x : CopyState) : Prop where
  le : x.n ≤ n
  placeDest : x.dest + x.n = dest + n
  placeSrc : x.src + x.n = src + n
  mem : x.m.mem = copy m.mem dest (fun i => m.mem (src + i)) (n - x.n)
  loads : ∀ y ∈ x.m.loads, y ∈ m.loads ∨ y.Proper w src n
  stores : ∀ y ∈ x.m.stores, y ∈ m.stores ∨ y.Proper w dest n

/-- The regions have no byte in common. -/
def Apart (dest src n : Nat) : Prop := dest + n ≤ src ∨ src + n ≤ dest

section Copying

variable {w dest src n : Nat} {m : TracedMem} {x : CopyState}

theorem Copied.start (w dest src n : Nat) (m : TracedMem) :
    Copied w dest src n m ⟨dest, src, n, m⟩ where
  le := Nat.le_refl n
  placeDest := rfl
  placeSrc := rfl
  mem := by rw [Nat.sub_self, copy_zero]
  loads := fun _ => Or.inl
  stores := fun _ => Or.inl

/-- What is left of the source is as it was. -/
theorem Copied.source (h : Copied w dest src n m x) (hd : Apart dest src n) {i : Nat}
    (hi : i < x.n) : x.m.mem (x.src + i) = m.mem (src + (n - x.n + i)) := by
  obtain ⟨hle, -, hsrc, hmem, -, -⟩ := h
  have hplace : x.src + i = src + (n - x.n + i) := by omega
  rw [hplace, hmem]
  apply copy_of_outside
  rcases hd with hbefore | hafter
  · exact Or.inr (by omega)
  · exact Or.inl (by omega)

/-- An assignment of the next bytes that have to be copied. -/
theorem Copied.advance (h : Copied w dest src n m x) (hd : Apart dest src n) {k : Nat}
    {part : Nat → UInt8} {m' : TracedMem} (hk : k ≤ x.n) (hsize : k = 1 ∨ k = w)
    (hdest : x.dest % k = 0) (hsrc : x.src % k = 0)
    (hpart : ∀ i < k, part i = x.m.mem (x.src + i)) (hmem : m'.mem = copy x.m.mem x.dest part k)
    (hloads : m'.loads = ⟨x.src, k⟩ :: x.m.loads)
    (hstores : m'.stores = ⟨x.dest, k⟩ :: x.m.stores) :
    Copied w dest src n m ⟨x.dest + k, x.src + k, x.n - k, m'⟩ := by
  have hsource := fun i (hi : i < k) => h.source hd (Nat.lt_of_lt_of_le hi hk)
  obtain ⟨hle, hplace, hfrom, hold, hread, hwritten⟩ := h
  have hs : x.dest = dest + (n - x.n) := by omega
  refine ⟨Nat.le_trans (Nat.sub_le _ _) hle, ?_, ?_, ?_, ?_, ?_⟩
  · dsimp only
    omega
  · dsimp only
    omega
  · have hn : n - (x.n - k) = n - x.n + k := by omega
    dsimp only
    rw [hmem, hold, hs, hn]
    apply copy_append
    intro i hi
    rw [hpart i hi, hsource i hi]
  · exact Access.proper_cons hread hloads
      ⟨hsize, hsrc, show src ≤ x.src by omega, show x.src + k ≤ src + n by omega⟩
  · exact Access.proper_cons hwritten hstores
      ⟨hsize, hdest, show dest ≤ x.dest by omega, show x.dest + k ≤ dest + n by omega⟩

theorem Copied.byteBody (h : Copied w dest src n m x) (hd : Apart dest src n) (hn : x.n ≠ 0) :
    Copied w dest src n m (byteBody x) := by
  refine h.advance hd (Nat.pos_of_ne_zero hn) (Or.inl rfl) (Nat.mod_one _) (Nat.mod_one _) ?_
    (Mem.store8_eq_copy ..) rfl rfl
  intro i hi
  obtain rfl : i = 0 := by omega
  rfl

theorem Copied.wordBody (h : Copied w dest src n m x) (hd : Apart dest src n) (hn : x.n ≥ w)
    (hdest : x.dest % w = 0) (hsrc : x.src % w = 0) :
    Copied w dest src n m (wordBody w x) :=
  h.advance hd hn (Or.inr rfl) hdest hsrc (fun _ hi => byte_read hi) (Mem.storeWord_eq_copy ..)
    rfl rfl

/-- A block is four words. -/
theorem blockBody_eq (w : Nat) (x : CopyState) :
    blockBody w x = Memcpy.wordBody w (Memcpy.wordBody w (Memcpy.wordBody w
      (Memcpy.wordBody w x))) := by
  have hadd : ∀ a : Nat, a + w * 2 = a + w + w ∧ a + w * 3 = a + w + w + w ∧
      a + w * 4 = a + w + w + w + w := by
    intro a
    omega
  have hn : x.n - w * 4 = x.n - w - w - w - w := by omega
  simp only [blockBody, Memcpy.wordBody, wordCopy, Nat.add_zero, hadd, hn]

theorem Copied.blockBody (h : Copied w dest src n m x) (hd : Apart dest src n)
    (hn : x.n ≥ w * 4) (hdest : x.dest % w = 0) (hsrc : x.src % w = 0) :
    Copied w dest src n m (blockBody w x) := by
  have hstep : ∀ {a : Nat}, a % w = 0 → (a + w) % w = 0 :=
    fun {a} ha => (Nat.add_mod_right a w).trans ha
  have hleft : ∀ {y : CopyState}, (Memcpy.wordBody w y).n = y.n - w := rfl
  rw [blockBody_eq]
  have h1 := h.wordBody hd (by omega) hdest hsrc
  have h2 := h1.wordBody hd (by rw [hleft]; omega) (hstep hdest) (hstep hsrc)
  have h3 := h2.wordBody hd (by rw [hleft, hleft]; omega) (hstep (hstep hdest))
    (hstep (hstep hsrc))
  exact h3.wordBody hd (by rw [hleft, hleft, hleft]; omega) (hstep (hstep (hstep hdest)))
    (hstep (hstep (hstep hsrc)))

/-- Both pointers are at word boundaries. -/
def Boundary (w : Nat) (x : CopyState) : Prop := x.dest % w = 0 ∧ x.src % w = 0

theorem Copied.blocks (h : Copied w dest src n m x) (hd : Apart dest src n)
    (hx : Boundary w x) : Copied w dest src n m (blocks w x) ∧ Boundary w (blocks w x) := by
  apply loop_invariant (I := fun y => Copied w dest src n m y ∧ Boundary w y) _ ⟨h, hx⟩
  rintro y hy ⟨hcopied, hdest, hsrc⟩
  refine ⟨hcopied.blockBody hd (by simpa using hy) hdest hsrc, ?_, ?_⟩
  · exact (Nat.add_mul_mod_self_left ..).trans hdest
  · exact (Nat.add_mul_mod_self_left ..).trans hsrc

theorem Copied.words (h : Copied w dest src n m x) (hd : Apart dest src n)
    (hx : Boundary w x) : Copied w dest src n m (words w x) ∧ Boundary w (words w x) := by
  apply loop_invariant (I := fun y => Copied w dest src n m y ∧ Boundary w y) _ ⟨h, hx⟩
  rintro y hy ⟨hcopied, hdest, hsrc⟩
  refine ⟨hcopied.wordBody hd (by simpa using hy) hdest hsrc, ?_, ?_⟩
  · exact (Nat.add_mod_right ..).trans hdest
  · exact (Nat.add_mod_right ..).trans hsrc

theorem Copied.bytes (h : Copied w dest src n m x) (hd : Apart dest src n) :
    Copied w dest src n m (bytes x) ∧ (bytes x).n = 0 := by
  constructor
  · apply loop_invariant _ h
    intro y hy hcopied
    exact hcopied.byteBody hd (by simpa using hy)
  · exact loop_measure_zero CopyState.n
      (fun y hy => Nat.sub_lt (Nat.pos_of_ne_zero hy) Nat.one_pos) x

end Copying

end Memcpy

/-- `k_memcpy` ends with the whole region copied. -/
theorem kMemcpy_copied {t : Target} {m : TracedMem} {dest src n : Nat}
    (hd : Memcpy.Apart dest src n) :
    ∃ x, Memcpy.Copied t.optBytes dest src n m x ∧ x.n = 0 ∧
      kMemcpy t m dest src n = (x.m, dest) := by
  have hstart := Memcpy.Copied.start t.optBytes dest src n m
  unfold kMemcpy
  dsimp only
  by_cases h : dest % t.optBytes = 0 ∧ src % t.optBytes = 0
  · rw [if_pos h]
    obtain ⟨hblocks, hx⟩ := hstart.blocks hd h
    obtain ⟨hdone, hzero⟩ := (hblocks.words hd hx).1.bytes hd
    exact ⟨_, hdone, hzero, rfl⟩
  · rw [if_neg h]
    obtain ⟨hdone, hzero⟩ := hstart.bytes hd
    exact ⟨_, hdone, hzero, rfl⟩

/-- `k_memcpy` copies exactly the region, by bytes and aligned words: the routine is its
byte loop. -/
theorem memcpy_equals_byte_loop (t : Target) (m : Mem) (dest src n : Nat)
    (hd : dest + n ≤ src ∨ src + n ≤ dest) :
    let r := kMemcpy t ⟨m, [], []⟩ dest src n
    r.1.mem = (Memcpy.bytes ⟨dest, src, n, ⟨m, [], []⟩⟩).m.mem ∧ r.2 = dest ∧
      (∀ i < n, r.1.mem (dest + i) = m (src + i)) ∧
      (∀ a, a < dest ∨ dest + n ≤ a → r.1.mem a = m a) ∧
      (∀ i < n, r.1.mem (src + i) = m (src + i)) ∧
      (∀ y ∈ r.1.loads, y.Proper t.optBytes src n) ∧
      ∀ y ∈ r.1.stores, y.Proper t.optBytes dest n := by
  obtain ⟨x, hcopied, hzero, heq⟩ := kMemcpy_copied (t := t) (m := ⟨m, [], []⟩) hd
  obtain ⟨hbytes, hend⟩ := (Memcpy.Copied.start t.optBytes dest src n ⟨m, [], []⟩).bytes hd
  have hmem := hcopied.mem
  rw [hzero, Nat.sub_zero] at hmem
  have hloop := hbytes.mem
  rw [hend, Nat.sub_zero] at hloop
  intro r
  have hr : r = (x.m, dest) := heq
  rw [hr, hloop]
  dsimp only
  rw [hmem]
  refine ⟨rfl, rfl, fun i hi => copy_add hi, fun a ha => copy_of_outside ha, fun i hi => ?_,
    fun y hy => ?_, fun y hy => ?_⟩
  · apply copy_of_outside
    omega
  · exact (hcopied.loads y hy).resolve_left List.not_mem_nil
  · exact (hcopied.stores y hy).resolve_left List.not_mem_nil

/-- Thirty-five bytes are a block of four words and three bytes. -/
theorem memcpy_equals_byte_loop_block :
    (kMemcpy ⟨64, Or.inr rfl⟩ ⟨UInt8.ofNat, [], []⟩ 8 48 35).1.mem 42 = 82 :=
  (memcpy_equals_byte_loop ⟨64, Or.inr rfl⟩ UInt8.ofNat 8 48 35 (Or.inl (by decide))).2.2.1 34
    (by decide)

end BaremetalCrt
