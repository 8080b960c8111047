import BaremetalCrt.Sys.Target
import Mathlib.Data.List.Infix
import Mathlib.Data.List.Nodup
import Mathlib.Data.List.Range
import Mathlib.Tactic.Cases

/-!
# Gathered writes

`k_sys_writev` hands the buffers of an `iovec` array to the write operation of a file, one after
the other. The operation accepts a part of a buffer from its start or returns an error; the loop
decides by the result whether to go on and what to return.

## Implementation notes

The call records what each write returned. A byte is named by its buffer and its offset in it, so
that bytes of equal value in different places are not confused. The lock of the file is left out,
since the call is followed alone.
-/

namespace BaremetalCrt

/-- A value of `ssize_t`, reduced as the machine does. -/
def Target.ssize (t : Target) (z : Int) : Int := t.ptrToInt (t.toUnsigned z)

/-- A write operation: it accepts at most the bytes it is given, and its result is a value of
`ssize_t`. -/
structure WriteOp (t : Target) (σ : Type) where
  write : σ → Nat → Nat → σ × Int
  le_count : ∀ s buf count, (write s buf count).2 ≤ count
  ge_min : ∀ s buf count, -2 ^ (t.bits - 1) ≤ (write s buf count).2
  lt_max : ∀ s buf count, (write s buf count).2 < 2 ^ (t.bits - 1)

/-- `struct k_file_desc` with its write operation, which a file need not have. -/
structure FileDesc (t : Target) (σ : Type) where
  write : Option (WriteOp t σ)

/-- `struct iovec`. -/
structure Iovec where
  iovBase : Nat
  iovLen : Nat

/-- `k_file_get_desc`, for `CONFIG_MAX_FD` files of the process. -/
def kFileGetDesc {t : Target} {σ : Type} (maxFd : Nat) (fdset : Nat → Option (FileDesc t σ))
    (fd : Int) : Option (FileDesc t σ) :=
  if fd < 0 ∨ maxFd ≤ fd then none else fdset fd.toNat

/-- `k_file_write_nolock` of a file with a write operation. -/
def kFileWriteNolock {t : Target} {σ : Type} (op : WriteOp t σ) (s : σ) (buf count : Nat) :
    σ × Int :=
  if buf = 0 then (s, -einval) else if count = 0 then (s, 0) else op.write s buf count

/-- A write of the loop: the buffer, its length and the result. -/
structure WriteCall where
  index : Nat
  len : Nat
  wr : Int
deriving DecidableEq

/-- The writes of a call, the state of the file behind it, and what it returns. -/
structure WritevResult (σ : Type) where
  calls : List WriteCall
  state : σ
  ret : Int

/-- The loop of `k_sys_writev` over the buffers that are left. -/
def writevLoop {t : Target} {σ : Type} (op : WriteOp t σ) (iov : Nat → Iovec) :
    List Nat → σ → Int → WritevResult σ
  | [], s, ret => ⟨[], s, ret⟩
  | i :: rest, s, ret =>
      if (iov i).iovLen = 0 then writevLoop op iov rest s ret
      else
        let (s', wr) := kFileWriteNolock op s (iov i).iovBase (iov i).iovLen
        let call : WriteCall := ⟨i, (iov i).iovLen, wr⟩
        if 0 < wr then
          let out := writevLoop op iov rest s' (t.ssize (ret + wr))
          { out with calls := call :: out.calls }
        -- The source compares the result as an unsigned value.
        else if t.toUnsigned wr < (iov i).iovLen then ⟨[call], s', ret⟩
        else ⟨[call], s', wr⟩

/-- `k_sys_writev`. -/
def kSysWritev {t : Target} {σ : Type} (desc : Option (FileDesc t σ))
    (iov : Option (Nat → Iovec)) (iovcnt : Int) (s : σ) : WritevResult σ :=
  match desc.bind FileDesc.write with
  | none => ⟨[], s, -ebadf⟩
  | some op =>
      match iov with
      | none => ⟨[], s, -einval⟩
      | some iov =>
          if iovcnt < 0 then ⟨[], s, -einval⟩
          else if iovcnt = 0 then ⟨[], s, 0⟩
          else writevLoop op iov (List.range iovcnt.toNat) s 0

/-- The first bytes of a buffer. -/
def bufferBytes (i n : Nat) : List (Nat × Nat) := (List.range n).map (Prod.mk i)

/-- The bytes that the writes have accepted, in order. -/
def acceptedBytes (calls : List WriteCall) : List (Nat × Nat) :=
  calls.flatMap fun c => bufferBytes c.index c.wr.toNat

/-- The concatenation of the buffers. -/
def iovecBytes (iov : Option (Nat → Iovec)) (iovcnt : Int) : List (Nat × Nat) :=
  match iov with
  | none => []
  | some iov => (List.range iovcnt.toNat).flatMap fun i => bufferBytes i (iov i).iovLen

section Ssize

variable {t : Target} {z : Int}

/-- The reduction is the balanced remainder. -/
theorem Target.ssize_eq_bmod (t : Target) (z : Int) : t.ssize z = z.bmod (2 ^ t.bits) := by
  unfold Target.ssize Target.ptrToInt Target.toUnsigned
  rw [Int.bmod_def]
  rcases t.bits_cases with hbits | hbits
  · rw [hbits]
    split <;> split <;> omega
  · rw [hbits]
    split <;> split <;> omega

/-- The word in terms of the bound of `ssize_t`. -/
theorem Target.word_eq_two_mul (t : Target) :
    ((2 ^ t.bits : Nat) : Int) = 2 * 2 ^ (t.bits - 1) := by
  rcases t.bits_cases with hbits | hbits
  · rw [hbits]
    rfl
  · rw [hbits]
    rfl

theorem Target.ssize_lt (t : Target) (z : Int) : t.ssize z < 2 ^ (t.bits - 1) := by
  have hlt : z.bmod (2 ^ t.bits) < _ := Int.bmod_lt (Nat.two_pow_pos t.bits)
  rw [t.word_eq_two_mul] at hlt
  rw [t.ssize_eq_bmod]
  omega

theorem Target.ssize_of_nonneg (h0 : 0 ≤ z) (h1 : z < 2 ^ (t.bits - 1)) : t.ssize z = z := by
  have hword := t.word_eq_two_mul
  rw [t.ssize_eq_bmod]
  exact Int.bmod_eq_of_le_mul_two (by omega) (by omega)

theorem Target.ssize_zero (t : Target) : t.ssize 0 = 0 := by
  rw [t.ssize_eq_bmod, Int.zero_bmod]

/-- Sums may be reduced at the end. -/
theorem Target.ssize_add (t : Target) (a b : Int) : t.ssize (t.ssize a + b) = t.ssize (a + b) := by
  rw [t.ssize_eq_bmod a, t.ssize_eq_bmod, t.ssize_eq_bmod, Int.bmod_add_bmod]

theorem Target.ssize_ssize (t : Target) (z : Int) : t.ssize (t.ssize z) = t.ssize z := by
  have hadd := t.ssize_add z 0
  rwa [Int.add_zero, Int.add_zero] at hadd

end Ssize

section Bytes

variable {i a b : Nat} {c : WriteCall} {cs : List WriteCall}

theorem acceptedBytes_cons : acceptedBytes (c :: cs) =
    bufferBytes c.index c.wr.toNat ++ acceptedBytes cs := List.flatMap_cons

theorem bufferBytes_length (i n : Nat) : (bufferBytes i n).length = n := by
  rw [bufferBytes, List.length_map, List.length_range]

/-- A write that accepts nothing adds no byte. -/
theorem bufferBytes_of_nonpos {wr : Int} (h : wr ≤ 0) (i : Nat) :
    bufferBytes i wr.toNat = [] := by
  rw [Int.toNat_of_nonpos h]
  rfl

/-- Behind the first bytes of a buffer comes the next one. -/
theorem bufferBytes_of_lt (i : Nat) (h : a < b) :
    ∃ rest, bufferBytes i b = bufferBytes i a ++ (i, a) :: rest := by
  obtain ⟨n, rfl⟩ := Nat.exists_eq_add_of_lt h
  refine ⟨((List.range n).map (a + 1 + ·)).map (Prod.mk i), ?_⟩
  rw [Nat.add_right_comm, bufferBytes, List.range_add, List.range_succ, List.map_append,
    List.map_append, List.append_assoc]
  rfl

/-- Behind a part of a buffer, bytes of other buffers are not a part of the concatenation. -/
theorem short_append_prefix_iff {xs ys : List (Nat × Nat)} (h : a < b) (hxs : ∀ x ∈ xs, x.1 ≠ i) :
    bufferBytes i a ++ xs <+: bufferBytes i b ++ ys ↔ xs = [] := by
  obtain ⟨rest, hrest⟩ := bufferBytes_of_lt i h
  rw [hrest, List.append_assoc, List.prefix_append_right_inj, List.cons_append]
  constructor
  · intro hfirst
    rcases List.prefix_cons_iff.mp hfirst with hnil | ⟨tail, rfl, -⟩
    · exact hnil
    · exact absurd rfl (hxs _ List.mem_cons_self)
  · rintro rfl
    exact List.nil_prefix

theorem index_mem_of_mem_acceptedBytes {x : Nat × Nat} (h : x ∈ acceptedBytes cs) :
    ∃ c ∈ cs, c.index = x.1 := by
  obtain ⟨c, hc, hx⟩ := List.mem_flatMap.mp h
  obtain ⟨off, -, rfl⟩ := List.mem_map.mp hx
  exact ⟨c, hc, rfl⟩

theorem acceptedBytes_eq_nil_iff : acceptedBytes cs = [] ↔ ∀ c ∈ cs, c.wr ≤ 0 := by
  rw [acceptedBytes, List.flatMap_eq_nil_iff]
  refine forall₂_congr fun c _ => ?_
  rw [← List.length_eq_zero_iff, bufferBytes_length]
  exact Int.toNat_eq_zero

end Bytes

section Loop

variable {t : Target} {σ : Type} (op : WriteOp t σ) (iov : Nat → Iovec)

theorem kFileWriteNolock_le (s : σ) (buf count : Nat) :
    (kFileWriteNolock op s buf count).2 ≤ count := by
  have hcount := Int.natCast_nonneg count
  unfold kFileWriteNolock
  split
  · have : -einval ≤ 0 := by decide
    omega
  · split
    · exact hcount
    · exact op.le_count s buf count

/-- What the loop does with a buffer: it skips it, goes on behind the bytes it accepted, or
stops. -/
theorem writevLoop_cases (i : Nat) (rest : List Nat) (s : σ) (ret : Int) :
    ((iov i).iovLen = 0 ∧
        writevLoop op iov (i :: rest) s ret = writevLoop op iov rest s ret) ∨
      ∃ (s' : σ) (wr : Int), 0 < (iov i).iovLen ∧ wr ≤ (iov i).iovLen ∧
        ((0 < wr ∧
            (writevLoop op iov (i :: rest) s ret).calls = ⟨i, (iov i).iovLen, wr⟩ ::
              (writevLoop op iov rest s' (t.ssize (ret + wr))).calls ∧
            (writevLoop op iov (i :: rest) s ret).ret =
              (writevLoop op iov rest s' (t.ssize (ret + wr))).ret) ∨
          (wr ≤ 0 ∧
            (writevLoop op iov (i :: rest) s ret).calls = [⟨i, (iov i).iovLen, wr⟩] ∧
            (writevLoop op iov (i :: rest) s ret).ret =
              if t.toUnsigned wr < (iov i).iovLen then ret else wr)) := by
  have hle := kFileWriteNolock_le op s (iov i).iovBase (iov i).iovLen
  simp only [writevLoop]
  by_cases hlen : (iov i).iovLen = 0
  · exact Or.inl ⟨hlen, if_pos hlen⟩
  · generalize kFileWriteNolock op s (iov i).iovBase (iov i).iovLen = res at hle
    obtain ⟨s', wr⟩ := res
    rw [if_neg hlen]
    refine Or.inr ⟨s', wr, Nat.pos_of_ne_zero hlen, hle, ?_⟩
    dsimp only
    by_cases hpos : 0 < wr
    · rw [if_pos hpos]
      exact Or.inl ⟨hpos, rfl, rfl⟩
    · rw [if_neg hpos]
      refine Or.inr ⟨Int.not_lt.mp hpos, ?_⟩
      split
      · exact ⟨rfl, rfl⟩
      · exact ⟨rfl, rfl⟩

theorem index_mem_of_mem_calls {idx : List Nat} {s : σ} {ret : Int} {c : WriteCall}
    (hc : c ∈ (writevLoop op iov idx s ret).calls) : c.index ∈ idx := by
  induction idx generalizing s ret with
  | nil => exact absurd hc List.not_mem_nil
  | cons i rest ih =>
      rcases writevLoop_cases op iov i rest s ret with
        ⟨-, hskip⟩ | ⟨s', wr, -, -, ⟨-, hcalls, -⟩ | ⟨-, hcalls, -⟩⟩
      · rw [hskip] at hc
        exact List.mem_cons_of_mem _ (ih hc)
      · rw [hcalls] at hc
        rcases List.mem_cons.mp hc with rfl | hc
        · exact List.mem_cons_self
        · exact List.mem_cons_of_mem _ (ih hc)
      · rw [hcalls] at hc
        rw [List.mem_singleton.mp hc]
        exact List.mem_cons_self

/-- The accepted bytes are a prefix of the buffers if and only if no write accepts bytes behind
one that was short. -/
theorem accepted_prefix_iff {idx : List Nat} (hnodup : idx.Nodup) (s : σ) (ret : Int) :
    acceptedBytes (writevLoop op iov idx s ret).calls <+:
        idx.flatMap (fun i => bufferBytes i (iov i).iovLen) ↔
      (writevLoop op iov idx s ret).calls.Pairwise fun x y => 0 < y.wr → x.wr = x.len := by
  induction idx generalizing s ret with
  | nil => exact iff_of_true List.nil_prefix List.Pairwise.nil
  | cons i rest ih =>
      obtain ⟨hi, hrest⟩ := List.nodup_cons.mp hnodup
      rw [List.flatMap_cons]
      rcases writevLoop_cases op iov i rest s ret with
        ⟨hlen, hskip⟩ | ⟨s', wr, hlen, hle, ⟨hpos, hcalls, -⟩ | ⟨hstop, hcalls, -⟩⟩
      · rw [hskip, hlen]
        exact ih hrest s ret
      · have htail := ih hrest s' (t.ssize (ret + wr))
        have hother : ∀ x ∈ acceptedBytes (writevLoop op iov rest s' (t.ssize (ret + wr))).calls,
            x.1 ≠ i := by
          intro x hx heq
          obtain ⟨c, hc, hindex⟩ := index_mem_of_mem_acceptedBytes hx
          exact hi (heq ▸ hindex ▸ index_mem_of_mem_calls op iov hc)
        rw [hcalls, acceptedBytes_cons, List.pairwise_cons]
        by_cases hfull : wr = (iov i).iovLen
        · have hwr : wr.toNat = (iov i).iovLen := by omega
          rw [hwr, List.prefix_append_right_inj, htail]
          exact (and_iff_right fun _ _ _ => hfull).symm
        · have hshort : wr.toNat < (iov i).iovLen := by omega
          rw [short_append_prefix_iff hshort hother, acceptedBytes_eq_nil_iff]
          constructor
          · intro hnone
            refine ⟨fun y hy hwr => absurd (hnone y hy) (Int.not_le.mpr hwr), ?_⟩
            refine List.pairwise_of_forall_mem_list fun x _ y hy hwr => ?_
            exact absurd (hnone y hy) (Int.not_le.mpr hwr)
          · rintro ⟨hfirst, -⟩ y hy
            exact Int.not_lt.mp fun hwr => hfull (hfirst y hy hwr)
      · have hnone : acceptedBytes [⟨i, (iov i).iovLen, wr⟩] = [] :=
          acceptedBytes_eq_nil_iff.mpr (List.forall_mem_singleton.mpr hstop)
        rw [hcalls, hnone]
        exact iff_of_true List.nil_prefix (List.pairwise_singleton _ _)

/-- The writes are some that accepted bytes, and at most one more that stopped the loop; the
result is the sum of what was accepted, or the result of the last write. -/
theorem writevLoop_ret (idx : List Nat) (s : σ) {ret : Int} (hret : t.ssize ret = ret) :
    ∃ more last, (writevLoop op iov idx s ret).calls = more ++ last ∧ (∀ c ∈ more, 0 < c.wr) ∧
      ((last = [] ∧ (writevLoop op iov idx s ret).ret =
          t.ssize (ret + (acceptedBytes more).length)) ∨
        ∃ c, last = [c] ∧ c.wr ≤ 0 ∧ 0 < c.len ∧ (writevLoop op iov idx s ret).ret =
          if t.toUnsigned c.wr < c.len then t.ssize (ret + (acceptedBytes more).length)
          else c.wr) := by
  have hnone : ∀ ret, t.ssize ret = ret → t.ssize (ret + (acceptedBytes []).length) = ret := by
    intro ret hret
    rw [show (acceptedBytes []).length = 0 from rfl, Int.natCast_zero, Int.add_zero, hret]
  induction idx generalizing s ret with
  | nil => exact ⟨[], [], rfl, nofun, Or.inl ⟨rfl, (hnone ret hret).symm⟩⟩
  | cons i rest ih =>
      rcases writevLoop_cases op iov i rest s ret with
        ⟨-, hskip⟩ | ⟨s', wr, hlen, -, ⟨hpos, hcalls, hretEq⟩ | ⟨hstop, hcalls, hretEq⟩⟩
      · rw [hskip]
        exact ih s hret
      · obtain ⟨more, last, hsplit, hmore, hend⟩ := ih s' (t.ssize_ssize (ret + wr))
        have hsum : t.ssize (t.ssize (ret + wr) + (acceptedBytes more).length) =
            t.ssize (ret + (acceptedBytes (⟨i, (iov i).iovLen, wr⟩ :: more)).length) := by
          rw [t.ssize_add, acceptedBytes_cons, List.length_append, bufferBytes_length,
            Int.natCast_add, Int.toNat_of_nonneg (Int.le_of_lt hpos), Int.add_assoc]
        refine ⟨⟨i, (iov i).iovLen, wr⟩ :: more, last, ?_, ?_, ?_⟩
        · rw [hcalls, hsplit, List.cons_append]
        · exact List.forall_mem_cons.mpr ⟨hpos, hmore⟩
        · rw [hretEq, ← hsum]
          exact hend
      · refine ⟨[], [⟨i, (iov i).iovLen, wr⟩], hcalls, nofun, Or.inr ⟨_, rfl, hstop, hlen, ?_⟩⟩
        rw [hretEq, hnone ret hret]

end Loop

/-- The accepted bytes are a prefix of the buffers, a call that accepted some returns their
number, and it returns an error only when it accepted none. -/
def WritesPrefix {σ : Type} (out : WritevResult σ) (bytes : List (Nat × Nat)) : Prop :=
  acceptedBytes out.calls <+: bytes ∧
    (acceptedBytes out.calls ≠ [] → out.ret = (acceptedBytes out.calls).length) ∧
    (out.ret < 0 → acceptedBytes out.calls = [])

section Result

variable {t : Target} {σ : Type} (op : WriteOp t σ) (iov : Nat → Iovec)

/-- A number of bytes can be returned if and only if it is a value of `ssize_t`. -/
theorem ssize_length_iff {α : Type} (t : Target) (l : List α) :
    ((l ≠ [] → t.ssize l.length = l.length) ∧ (t.ssize l.length < 0 → l = [])) ↔
      l.length < 2 ^ (t.bits - 1) := by
  have hlt := t.ssize_lt l.length
  constructor
  · rintro ⟨hsame, -⟩
    by_cases hl : l = []
    · rw [hl]
      exact Nat.two_pow_pos _
    · rw [hsame hl] at hlt
      exact_mod_cast hlt
  · intro hfits
    have hsame : t.ssize l.length = l.length :=
      Target.ssize_of_nonneg (Int.natCast_nonneg _) (by exact_mod_cast hfits)
    refine ⟨fun _ => hsame, fun hneg => ?_⟩
    rw [hsame] at hneg
    omega

/-- An error that is taken for the result is right only when nothing was accepted before it. -/
theorem overwritten_ret_iff {more : List WriteCall} {c : WriteCall} (hmore : ∀ c ∈ more, 0 < c.wr)
    (hneg : c.wr < 0) (hkept : ¬ t.toUnsigned c.wr < c.len) :
    ((acceptedBytes more ≠ [] → c.wr = (acceptedBytes more).length) ∧
        (c.wr < 0 → acceptedBytes more = [])) ↔
      ((more ++ [c]).Pairwise fun _ y => y.wr < 0 → t.toUnsigned y.wr < y.len) ∧
        (acceptedBytes more).length < 2 ^ (t.bits - 1) := by
  constructor
  · rintro ⟨-, hnone⟩
    have hnil : more = [] := by
      rw [List.eq_nil_iff_forall_not_mem]
      intro x hx
      have hzero := acceptedBytes_eq_nil_iff.mp (hnone hneg) x hx
      exact absurd hzero (Int.not_le.mpr (hmore x hx))
    rw [hnil]
    exact ⟨List.pairwise_singleton _ _, Nat.two_pow_pos _⟩
  · rintro ⟨hpairs, -⟩
    have hnil : more = [] := by
      rw [List.eq_nil_iff_forall_not_mem]
      intro x hx
      have hpair := (List.pairwise_append.mp hpairs).2.2 x hx c List.mem_cons_self
      exact hkept (hpair hneg)
    rw [hnil]
    exact ⟨fun h => absurd rfl h, fun _ => rfl⟩

/-- The loop returns what it should if and only if no error behind accepted bytes is taken for
the result, and the number of bytes is a value of `ssize_t`. -/
theorem accepted_ret_iff (idx : List Nat) (s : σ) :
    ((acceptedBytes (writevLoop op iov idx s 0).calls ≠ [] → (writevLoop op iov idx s 0).ret =
          (acceptedBytes (writevLoop op iov idx s 0).calls).length) ∧
        ((writevLoop op iov idx s 0).ret < 0 →
          acceptedBytes (writevLoop op iov idx s 0).calls = [])) ↔
      ((writevLoop op iov idx s 0).calls.Pairwise fun _ y =>
          y.wr < 0 → t.toUnsigned y.wr < y.len) ∧
        (acceptedBytes (writevLoop op iov idx s 0).calls).length < 2 ^ (t.bits - 1) := by
  obtain ⟨more, last, hcalls, hmore, hend⟩ := writevLoop_ret op iov idx s t.ssize_zero
  have hpositive : ∀ y ∈ more, y.wr < 0 → t.toUnsigned y.wr < y.len := fun y hy hneg =>
    absurd (hmore y hy) (Int.not_lt.mpr (Int.le_of_lt hneg))
  rw [hcalls]
  rcases hend with ⟨rfl, hret⟩ | ⟨c, rfl, hwr, hlen, hret⟩
  · rw [hret, List.append_nil, Int.zero_add, ssize_length_iff]
    exact (and_iff_right (List.pairwise_of_forall_mem_list fun _ _ y hy => hpositive y hy)).symm
  · have haccept : acceptedBytes (more ++ [c]) = acceptedBytes more := by
      rw [acceptedBytes, List.flatMap_append, List.flatMap_singleton, bufferBytes_of_nonpos hwr,
        List.append_nil, acceptedBytes]
    rw [hret, haccept, Int.zero_add]
    by_cases hkept : t.toUnsigned c.wr < c.len
    · have hall : ∀ y ∈ more ++ [c], y.wr < 0 → t.toUnsigned y.wr < y.len :=
        List.forall_mem_append.mpr ⟨hpositive, List.forall_mem_singleton.mpr fun _ => hkept⟩
      rw [if_pos hkept, ssize_length_iff]
      exact (and_iff_right (List.pairwise_of_forall_mem_list fun _ _ y hy => hall y hy)).symm
    · have hneg : c.wr < 0 := by
        rcases Int.lt_or_eq_of_le hwr with hneg | hzero
        · exact hneg
        · refine absurd ?_ hkept
          rw [hzero, Target.toUnsigned, Int.zero_emod]
          exact hlen
      rw [if_neg hkept]
      exact overwritten_ret_iff hmore hneg hkept

end Result

/-- A call writes nothing, or enters the loop over all buffers. -/
theorem kSysWritev_cases {t : Target} {σ : Type} (desc : Option (FileDesc t σ))
    (iov : Option (Nat → Iovec)) (iovcnt : Int) (s : σ) :
    (kSysWritev desc iov iovcnt s).calls = [] ∨
      ∃ (op : WriteOp t σ) (vecs : Nat → Iovec), iov = some vecs ∧
        kSysWritev desc iov iovcnt s = writevLoop op vecs (List.range iovcnt.toNat) s 0 := by
  unfold kSysWritev
  split
  · exact Or.inl rfl
  · rename_i op _
    split
    · exact Or.inl rfl
    · rename_i vecs
      split
      · exact Or.inl rfl
      · split
        · exact Or.inl rfl
        · exact Or.inr ⟨op, vecs, rfl, rfl⟩

/-- The accepted bytes are a prefix of the buffers and the result is right, if and only if no
write accepts bytes behind one that was short, no error behind accepted bytes is taken for the
result, and the number of bytes is a value of `ssize_t`. -/
theorem writev_prefix_iff {t : Target} {σ : Type} (maxFd : Nat)
    (fdset : Nat → Option (FileDesc t σ)) (fd : Int) (iov : Option (Nat → Iovec)) (iovcnt : Int)
    (s : σ) :
    let out := kSysWritev (kFileGetDesc maxFd fdset fd) iov iovcnt s
    WritesPrefix out (iovecBytes iov iovcnt) ↔
      (out.calls.Pairwise fun x y =>
        (0 < y.wr → x.wr = x.len) ∧ (y.wr < 0 → t.toUnsigned y.wr < y.len)) ∧
      (acceptedBytes out.calls).length < 2 ^ (t.bits - 1) := by
  intro out
  rcases kSysWritev_cases (kFileGetDesc maxFd fdset fd) iov iovcnt s with
    hcalls | ⟨op, vecs, rfl, hloop⟩
  · have hnone : acceptedBytes out.calls = [] := by
      rw [hcalls]
      rfl
    refine iff_of_true ⟨?_, fun h => absurd hnone h, fun _ => hnone⟩ ⟨?_, ?_⟩
    · rw [hnone]
      exact List.nil_prefix
    · rw [hcalls]
      exact List.Pairwise.nil
    · rw [hnone]
      exact Nat.two_pow_pos _
  · have hout : out = writevLoop op vecs (List.range iovcnt.toNat) s 0 := hloop
    rw [hout, WritesPrefix, iovecBytes, accepted_prefix_iff op vecs List.nodup_range,
      accepted_ret_iff, List.pairwise_and_iff, and_assoc]

/-- A file that counts its writes on a 64-bit target. It accepts two bytes of each buffer, or
four bytes of the first and nothing of the others. -/
def stutteringFile (short : Bool) : WriteOp ⟨64, bits_sixtyFour⟩ Nat where
  write s _ count :=
    (s + 1, if short then (min count 2 : Nat) else if s = 0 then (min count 4 : Nat) else -eagain)
  le_count s _ count := by
    unfold eagain
    split_ifs <;> omega
  ge_min s _ count := by
    unfold eagain
    dsimp only
    split_ifs <;> omega
  lt_max s _ count := by
    unfold eagain
    dsimp only
    split_ifs <;> omega

/-- Two buffers of four bytes. A file that accepts two bytes of each gets the second buffer
behind half of the first; a file that fails on the second one makes the call return its error,
though the first was accepted. -/
theorem writev_splits_buffers :
    let iov : Option (Nat → Iovec) := some fun i => ⟨4096 + 4 * i, 4⟩
    let call := fun short => kSysWritev (some ⟨some (stutteringFile short)⟩) iov 2 0
    (acceptedBytes (call true).calls = [(0, 0), (0, 1), (1, 0), (1, 1)] ∧
      ¬ acceptedBytes (call true).calls <+: iovecBytes iov 2) ∧
    (acceptedBytes (call false).calls = [(0, 0), (0, 1), (0, 2), (0, 3)] ∧
      (call false).ret = -eagain) := by
  decide

end BaremetalCrt
