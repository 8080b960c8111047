import BaremetalCrt.Cpu.WakeScan

/-!
# The futex system call and the requeue command

`k_sys_futex64` dispatches on the command without its flag bits. The command `FUTEX_REQUEUE`
should wake some waiters of a word and register others on a second word; the number of those is
passed in the place of the timeout.

## Implementation notes

The call is followed without interleaving. A wait that finds the expected value in its word
returns only after a wake of another CPU, so that it has no outcome here.
-/

namespace BaremetalCrt

def futexWait : BitVec 32 := 0
def futexWake : BitVec 32 := 1
def futexRequeue : BitVec 32 := 3
def futexWaitBitset : BitVec 32 := 9
def futexWakeBitset : BitVec 32 := 10
def futexPrivateFlag : BitVec 32 := 128
def futexClockRealtime : BitVec 32 := 256

/-- `FUTEX_MASK`. -/
def futexMask : BitVec 32 := ~~~(futexPrivateFlag ||| futexClockRealtime)

variable {N : Nat}

/-- `k_cpu_futex_wait` without interleaving, where `word` is the value of the futex. -/
def kCpuFutexWait (futex : Fin N → CpuFutex) (cur : Fin N) (word val bitset : BitVec 32) :
    Option (WakeOutcome N) :=
  if bitset = 0 then some ⟨[], futex, -einval⟩
  else if word ≠ val then some ⟨[], Function.update futex cur .idle, -ewouldblock⟩
  else none

/-- `k_sys_futex64` without interleaving. The timeout and the second word are not used. -/
def kSysFutex64 (present : Fin N → Bool) (futex : Fin N → CpuFutex) (cur : Fin N)
    (ipi : Fin N → Int) (word : BitVec 32) (uaddr : Nat) (op val : BitVec 32) (_timeout : Int)
    (_uaddr2 : Nat) (val3 : BitVec 32) : Option (WakeOutcome N) :=
  let cmd := op &&& futexMask
  if uaddr = 0 then some ⟨[], futex, -efault⟩
  else if cmd = futexWait then kCpuFutexWait futex cur word val futexBitsetAny
  else if cmd = futexWaitBitset then kCpuFutexWait futex cur word val val3
  else if cmd = futexWake then
    some (kCpuFutexWakeSent present futex cur uaddr val.toInt futexBitsetAny ipi)
  else if cmd = futexWakeBitset then
    some (kCpuFutexWakeSent present futex cur uaddr val.toInt val3 ipi)
  else if cmd = futexRequeue then
    some (kCpuFutexWakeSent present futex cur uaddr val.toInt futexBitsetAny ipi)
  else some ⟨[], futex, -enosys⟩

/-- What `FUTEX_REQUEUE` should do with the waiters of a word: it wakes `val` of them, registers
`val2` of the others on the second word, and leaves no other one of these on the first. -/
structure Requeued (waiters : List (Fin N)) (uaddr uaddr2 : Nat) (val val2 : Int)
    (out : WakeOutcome N) : Prop where
  woken_mem : ∀ i ∈ out.sent, i ∈ waiters ∧ (out.futex i).wakeup = true
  woken_nodup : out.sent.Nodup
  woken_length : out.sent.length = min val.toNat waiters.length
  moved : ∃ moved : List (Fin N), moved.Nodup ∧
    moved.length = min val2.toNat (waiters.length - min val.toNat waiters.length) ∧
    ∀ i ∈ moved, i ∈ waiters ∧ i ∉ out.sent ∧ (out.futex i).matches uaddr2 futexBitsetAny = true
  parked : (waiters.filter fun i => i ∉ out.sent ∧
      (out.futex i).matches uaddr futexBitsetAny = true).length ≤
    waiters.length - min val.toNat waiters.length -
      min val2.toNat (waiters.length - min val.toNat waiters.length)

/-- No failed interrupt changes where a scan of these CPUs stops. Behind the last failure before
a CPU the loop counts on from the error; its count has to be below the bound exactly when the
number of CPUs in front of that CPU is. -/
def StopsInTime (ipi : Fin N → Int) (waiters : List (Fin N)) (val : Int) : Prop :=
  ∀ before i after j rest, waiters = before ++ i :: after ++ j :: rest → ipi i ≠ 0 →
    (∀ a ∈ after, ipi a = 0) → before.length + 1 + after.length ≤ val.toNat →
    (ipi i + 1 + after.length < val ↔ (before.length + 1 + after.length : Int) < val)

section Requeue

variable {present : Fin N → Bool} {futex : Fin N → CpuFutex} {cur : Fin N} {ipi : Fin N → Int}
  {word : BitVec 32} {uaddr uaddr2 : Nat} {op val val3 : BitVec 32} {timeout : Int}

/-- Where no failure matters, the count of a scan compares with the bound as the number of the
CPUs it has notified. -/
theorem StopsInTime.count_iff {waiters p : List (Fin N)} {j : Fin N} {bound : Int}
    (h : StopsInTime ipi waiters bound) (hp : p ++ [j] <+: waiters)
    (hlen : p.length ≤ bound.toNat) : wakeResult ipi p 0 < bound ↔ (p.length : Int) < bound := by
  rcases all_succeed_or_last_failure ipi p with hall | ⟨before, i, after, rfl, hi, hafter⟩
  · rw [wakeResult_of_success hall, Int.zero_add]
  · obtain ⟨rest, hrest⟩ := hp
    have hsplit : waiters = before ++ i :: after ++ j :: rest := by simp [← hrest]
    rw [List.length_append, List.length_cons] at hlen ⊢
    have hstop := h before i after j rest hsplit hi hafter (by omega)
    rw [wakeResult_of_failure hi hafter]
    omega

/-- The CPU behind a proper prefix. -/
theorem exists_concat_prefix {p l : List (Fin N)} (hp : p <+: l) (hlt : p.length < l.length) :
    ∃ j, p ++ [j] <+: l := by
  obtain ⟨rest, rfl⟩ := hp
  cases rest with
  | nil => simp at hlt
  | cons j rest => exact ⟨j, rest, by simp⟩

/-- A scan notifies as many CPUs as it should exactly if no failure matters. -/
theorem Scanned.sent_length_iff {l : List (Fin N)} {bound : Int} {bitset : BitVec 32}
    {out : WakeOutcome N} (h : Scanned present cur uaddr bound bitset ipi l futex 0 out) :
    out.sent.length =
        min bound.toNat (l.filter (wakeWaits present futex cur uaddr bitset)).length ↔
      StopsInTime ipi (l.filter (wakeWaits present futex cur uaddr bitset)) bound := by
  have hfirst := h.sent_first
  have hstop := h.stop
  rw [h.res_eq] at hstop
  generalize l.filter (wakeWaits present futex cur uaddr bitset) = waiters at hfirst hstop ⊢
  have hle := hfirst.length_le
  constructor
  · rintro hlength before i after j rest rfl hi hafter hbound
    have hcount : wakeResult ipi (before ++ i :: after) 0 = ipi i + 1 + after.length :=
      wakeResult_of_failure hi hafter 0
    simp only [List.length_append, List.length_cons] at hlength
    rw [← hcount]
    by_cases hlt : (before.length + 1 + after.length : Int) < bound
    · -- the next CPU is notified, so the count was below the bound
      refine iff_of_true (h.below _ j ?_) hlt
      refine List.prefix_of_prefix_length_le ⟨rest, by simp⟩ hfirst ?_
      simp only [List.length_append, List.length_cons, List.length_nil]
      omega
    · refine iff_of_false ?_ hlt
      have hsent : out.sent = before ++ i :: after := by
        have hpre : out.sent <+: before ++ i :: after :=
          List.prefix_of_prefix_length_le hfirst ⟨j :: rest, rfl⟩ (by simp; omega)
        exact hpre.eq_of_length (by simp; omega)
      rcases hstop with hall | hend
      · rw [hsent] at hall
        have := congrArg List.length hall
        simp at this
      · rw [hsent] at hend
        omega
  · intro htime
    rcases Nat.lt_trichotomy out.sent.length (min bound.toNat waiters.length) with hlt | heq | hgt
    · obtain ⟨j, hj⟩ := exists_concat_prefix hfirst (by omega)
      have hiff := htime.count_iff hj (by omega)
      rcases hstop with hall | hend
      · rw [hall] at hlt
        omega
      · omega
    · exact heq
    · -- the scan went on at the bound
      have hpre : out.sent.take bound.toNat <+: out.sent := List.take_prefix ..
      have hlen : (out.sent.take bound.toNat).length = bound.toNat := by
        rw [List.length_take]
        omega
      obtain ⟨j, hj⟩ := exists_concat_prefix hpre (by omega)
      have hiff := htime.count_iff (hj.trans hfirst) (by omega)
      have hbelow := hiff.mp (h.below _ j hj)
      omega

/-- The requeue command flags the first waiters and leaves every other record alone. With a word
that is null it flags none; otherwise it flags the right number exactly if no failure of an
interrupt matters. -/
theorem kSysFutex64_requeue (hop : op &&& futexMask = futexRequeue) :
    ∃ out, kSysFutex64 present futex cur ipi word uaddr op val timeout uaddr2 val3 = some out ∧
      out.sent <+: futexWaiters present futex cur uaddr futexBitsetAny ∧
      out.futex = flagged out.sent futex ∧
      if uaddr = 0 then out.sent = []
      else (out.sent.length =
          min val.toInt.toNat (futexWaiters present futex cur uaddr futexBitsetAny).length ↔
        StopsInTime ipi (futexWaiters present futex cur uaddr futexBitsetAny) val.toInt) := by
  have hcmds : futexRequeue ≠ futexWait ∧ futexRequeue ≠ futexWaitBitset ∧
      futexRequeue ≠ futexWake ∧ futexRequeue ≠ futexWakeBitset := by decide
  obtain ⟨hwait, hwaitBitset, hwake, hwakeBitset⟩ := hcmds
  simp only [kSysFutex64, hop]
  by_cases huaddr : uaddr = 0
  · simp only [if_pos huaddr]
    exact ⟨_, rfl, List.nil_prefix, (flagged_nil futex).symm, rfl⟩
  · simp only [if_neg huaddr]
    rw [if_neg hwait, if_neg hwaitBitset, if_neg hwake, if_neg hwakeBitset, if_pos trivial]
    have hscan : Scanned present cur uaddr val.toInt futexBitsetAny ipi (List.finRange N) futex 0
        (kCpuFutexWakeSent present futex cur uaddr val.toInt futexBitsetAny ipi) :=
      kCpuFutexWakeSent_scanned futex (by decide)
    exact ⟨_, rfl, hscan.sent_first, hscan.futex_eq, hscan.sent_length_iff⟩

theorem futexWaiters_nodup (present : Fin N → Bool) (futex : Fin N → CpuFutex) (cur : Fin N)
    (uaddr : Nat) (bitset : BitVec 32) : (futexWaiters present futex cur uaddr bitset).Nodup :=
  (List.nodup_finRange N).filter _

theorem matches_of_mem_futexWaiters {bitset : BitVec 32} {i : Fin N}
    (h : i ∈ futexWaiters present futex cur uaddr bitset) :
    (futex i).matches uaddr bitset = true := by
  have hwaits := (List.mem_filter.mp h).2
  rw [wakeWaits, Bool.and_eq_true] at hwaits
  exact hwaits.2

/-- Every waiter that was not woken is still parked on the first word. -/
theorem length_parked {sent : List (Fin N)}
    (hsent : sent <+: futexWaiters present futex cur uaddr futexBitsetAny) :
    ((futexWaiters present futex cur uaddr futexBitsetAny).filter fun i => i ∉ sent ∧
        (flagged sent futex i).matches uaddr futexBitsetAny = true).length =
      (futexWaiters present futex cur uaddr futexBitsetAny).length - sent.length := by
  have hnodup := futexWaiters_nodup present futex cur uaddr futexBitsetAny
  have hmatch : ∀ i ∈ futexWaiters present futex cur uaddr futexBitsetAny,
      (flagged sent futex i).matches uaddr futexBitsetAny = true := by
    intro i hi
    rw [flagged_matches]
    exact matches_of_mem_futexWaiters hi
  obtain ⟨rest, hrest⟩ := hsent
  rw [← hrest] at hnodup hmatch ⊢
  have hdisjoint := (List.nodup_append.mp hnodup).2.2
  have hwoken : (sent.filter fun i => i ∉ sent ∧
      (flagged sent futex i).matches uaddr futexBitsetAny = true) = [] := by
    rw [List.filter_eq_nil_iff]
    intro i hi htest
    exact (of_decide_eq_true htest).1 hi
  have hparked : (rest.filter fun i => i ∉ sent ∧
      (flagged sent futex i).matches uaddr futexBitsetAny = true) = rest := by
    rw [List.filter_eq_self]
    intro i hi
    refine decide_eq_true ⟨fun hmem => hdisjoint i hmem i hi rfl, ?_⟩
    exact hmatch i (List.mem_append_right _ hi)
  rw [List.filter_append, hwoken, hparked, List.nil_append, List.length_append,
    Nat.add_sub_cancel_left]

/-- The records that the command leaves are right only if no waiter had to move. -/
theorem requeued_iff {out : WakeOutcome N} {val val2 : Int}
    (hsent : out.sent <+: futexWaiters present futex cur uaddr futexBitsetAny)
    (hfutex : out.futex = flagged out.sent futex) :
    Requeued (futexWaiters present futex cur uaddr futexBitsetAny) uaddr uaddr2 val val2 out ↔
      out.sent.length =
          min val.toNat (futexWaiters present futex cur uaddr futexBitsetAny).length ∧
        (val2 ≤ 0 ∨
          (futexWaiters present futex cur uaddr futexBitsetAny).length ≤ val.toNat) := by
  have hparked := length_parked hsent
  constructor
  · intro h
    have hleft := h.parked
    rw [hfutex, hparked, h.woken_length] at hleft
    refine ⟨h.woken_length, ?_⟩
    omega
  · rintro ⟨hlength, hnone⟩
    refine ⟨fun i hi => ⟨hsent.subset hi, ?_⟩, ?_, hlength, ⟨[], List.nodup_nil, ?_, nofun⟩, ?_⟩
    · rw [hfutex, flagged, if_pos hi]
    · exact (futexWaiters_nodup present futex cur uaddr futexBitsetAny).sublist hsent.sublist
    · rw [List.length_nil]
      omega
    · rw [hfutex, hparked, hlength]
      omega

end Requeue

/-- The requeue command does what it should if and only if no waiter had to move, no failed
interrupt changes where the scan stops, and for the word null no waiter had to be woken. When the
interrupts succeed, it depends on the counts alone. -/
theorem futex_requeue_iff (present : Fin N → Bool) (futex : Fin N → CpuFutex) (cur : Fin N)
    (ipi : Fin N → Int) (word : BitVec 32) (uaddr uaddr2 : Nat) (op val val3 : BitVec 32)
    (val2 : Int) (hop : op &&& futexMask = futexRequeue) :
    let waiters := futexWaiters present futex cur uaddr futexBitsetAny
    ∃ out, kSysFutex64 present futex cur ipi word uaddr op val val2 uaddr2 val3 = some out ∧
      (Requeued waiters uaddr uaddr2 val.toInt val2 out ↔
        (val2 ≤ 0 ∨ waiters.length ≤ val.toInt.toNat) ∧
          if uaddr = 0 then val.toInt ≤ 0 ∨ waiters = []
          else StopsInTime ipi waiters val.toInt) ∧
      (uaddr ≠ 0 → (∀ i, ipi i = 0) →
        (Requeued waiters uaddr uaddr2 val.toInt val2 out ↔
          val2 ≤ 0 ∨ waiters.length ≤ val.toInt.toNat)) := by
  intro waiters
  obtain ⟨out, hcall, hsent, hfutex, hlength⟩ := kSysFutex64_requeue hop
  refine ⟨out, hcall, ?_, fun huaddr hipi => ?_⟩
  · rw [requeued_iff hsent hfutex, and_comm]
    refine and_congr_right fun _ => ?_
    by_cases huaddr : uaddr = 0
    · rw [if_pos huaddr] at hlength ⊢
      rw [hlength, List.length_nil, ← List.length_eq_zero_iff]
      change 0 = min val.toInt.toNat waiters.length ↔ _
      omega
    · rw [if_neg huaddr] at hlength ⊢
      exact hlength
  · rw [if_neg huaddr] at hlength
    rw [requeued_iff hsent hfutex, hlength]
    exact and_iff_right fun _ i _ _ _ _ hi => absurd (hipi i) hi

/-- Two CPUs wait on a word. -/
def twoParked : Fin 3 → CpuFutex := fun i =>
  if i = 0 then .idle else .waiting 4096 7 futexBitsetAny

/-- With the private flag, and one of the two to be moved, the command fails to do it. -/
theorem futex_requeue_iff_two :
    ∃ out, kSysFutex64 (fun _ => true) twoParked 0 (fun _ => 0) 7 4096
        (futexRequeue ||| futexPrivateFlag) 1 1 8192 0 = some out ∧
      ¬ Requeued (futexWaiters (fun _ => true) twoParked 0 4096 futexBitsetAny) 4096 8192 1 1
        out := by
  obtain ⟨out, hcall, hiff, -⟩ := futex_requeue_iff (fun _ => true) twoParked 0 (fun _ => 0) 7
    4096 8192 (futexRequeue ||| futexPrivateFlag) 1 0 1 (by decide)
  exact ⟨out, hcall, fun h => absurd (hiff.mp h).1 (by decide)⟩

/-- CPUs 1 and 2 wait on a word; one is to be woken and one moved. CPU 2 stays on the first word,
and a wake on the second one finds nobody. -/
theorem futex_requeue_leaves_parked :
    let out := kCpuFutexWakeSent (fun _ => true) twoParked 0 4096 1 futexBitsetAny fun _ => 0
    kSysFutex64 (fun _ => true) twoParked 0 (fun _ => 0) 7 4096 futexRequeue 1 1 8192 0 =
        some out ∧
      out.sent = [1] ∧ (out.futex 2).matches 4096 futexBitsetAny = true ∧
      (out.futex 2).matches 8192 futexBitsetAny = false ∧
      (kCpuFutexWake (fun _ => true) out.futex 0 8192 1 futexBitsetAny fun _ => 0).2 = 0 :=
  ⟨rfl, by decide, by decide, by decide, by decide⟩

end BaremetalCrt
