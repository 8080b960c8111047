import BaremetalCrt.Cpu.FutexRecord
import Mathlib.Data.List.FinRange
import Mathlib.Data.List.Infix

/-!
# Which CPUs a wake scan notifies

`k_cpu_futex_wake` flags a matching record and sends its CPU an interrupt, one CPU after the
other. Its result counts the CPUs and also bounds the loop, and a failed interrupt replaces it.

## Implementation notes

The scan here also records the CPUs it notifies; forgetting them gives the scan of the record
module. An interrupt is sent to a CPU at most once, so its results are a function of the CPU.
-/

namespace BaremetalCrt

variable {N : Nat}

/-- The CPUs that a scan notified, the records behind it and its result. -/
structure WakeOutcome (N : Nat) where
  sent : List (Fin N)
  futex : Fin N → CpuFutex
  res : Int

/-- A CPU other than the caller whose record matches. -/
def wakeWaits (present : Fin N → Bool) (futex : Fin N → CpuFutex) (cur : Fin N) (uaddr : Nat)
    (bitset : BitVec 32) (i : Fin N) : Bool :=
  wakeVisits present cur i && (futex i).matches uaddr bitset

/-- The CPUs that wait, in the order of their numbers. -/
def futexWaiters (present : Fin N → Bool) (futex : Fin N → CpuFutex) (cur : Fin N) (uaddr : Nat)
    (bitset : BitVec 32) : List (Fin N) :=
  (List.finRange N).filter (wakeWaits present futex cur uaddr bitset)

/-- The scan of `k_cpu_futex_wake` over the CPUs that are left, with the CPUs it notifies. -/
def wakeScanSent (present : Fin N → Bool) (cur : Fin N) (uaddr : Nat) (val : Int)
    (bitset : BitVec 32) (ipi : Fin N → Int) :
    List (Fin N) → (Fin N → CpuFutex) → Int → WakeOutcome N
  | [], futex, res => ⟨[], futex, res⟩
  | i :: rest, futex, res =>
      if res < val then
        if wakeVisits present cur i && (futex i).matches uaddr bitset then
          let futex := Function.update futex i { futex i with wakeup := true }
          let res := if ipi i ≠ 0 then ipi i else res
          let out := wakeScanSent present cur uaddr val bitset ipi rest futex (res + 1)
          { out with sent := i :: out.sent }
        else wakeScanSent present cur uaddr val bitset ipi rest futex res
      else ⟨[], futex, res⟩

/-- `k_cpu_futex_wake` with the CPUs it notifies. -/
def kCpuFutexWakeSent (present : Fin N → Bool) (futex : Fin N → CpuFutex) (cur : Fin N)
    (uaddr : Nat) (val : Int) (bitset : BitVec 32) (ipi : Fin N → Int) : WakeOutcome N :=
  if bitset = 0 then ⟨[], futex, -einval⟩
  else wakeScanSent present cur uaddr val bitset ipi (List.finRange N) futex 0

/-- The records with the flag set on some CPUs. -/
def flagged (sent : List (Fin N)) (futex : Fin N → CpuFutex) (i : Fin N) : CpuFutex :=
  if i ∈ sent then { futex i with wakeup := true } else futex i

/-- The result of a scan that notified some CPUs. -/
def wakeResult (ipi : Fin N → Int) : List (Fin N) → Int → Int
  | [], res => res
  | i :: rest, res => wakeResult ipi rest ((if ipi i ≠ 0 then ipi i else res) + 1)

section Trace

variable {present : Fin N → Bool} {cur : Fin N} {uaddr : Nat} {val : Int} {bitset : BitVec 32}
  {ipi : Fin N → Int} {futex : Fin N → CpuFutex}

/-- Without the CPUs it notifies, the scan is that of the record module. -/
theorem wakeScan_eq_sent (l : List (Fin N)) (futex : Fin N → CpuFutex) (res : Int) :
    wakeScan present cur uaddr val bitset ipi l futex res =
      ((wakeScanSent present cur uaddr val bitset ipi l futex res).futex,
        (wakeScanSent present cur uaddr val bitset ipi l futex res).res) := by
  induction l generalizing futex res with
  | nil => rfl
  | cons i rest ih =>
      simp only [wakeScan, wakeScanSent]
      split
      · split
        · exact ih _ _
        · exact ih _ _
      · rfl

theorem kCpuFutexWake_eq_sent (present : Fin N → Bool) (futex : Fin N → CpuFutex) (cur : Fin N)
    (uaddr : Nat) (val : Int) (bitset : BitVec 32) (ipi : Fin N → Int) :
    kCpuFutexWake present futex cur uaddr val bitset ipi =
      ((kCpuFutexWakeSent present futex cur uaddr val bitset ipi).futex,
        (kCpuFutexWakeSent present futex cur uaddr val bitset ipi).res) := by
  unfold kCpuFutexWake kCpuFutexWakeSent
  split
  · rfl
  · exact wakeScan_eq_sent _ _ _

/-- The flag does not change what a record matches. -/
theorem flagged_matches (sent : List (Fin N)) (futex : Fin N → CpuFutex) (i : Fin N)
    (uaddr : Nat) (bitset : BitVec 32) :
    (flagged sent futex i).matches uaddr bitset = (futex i).matches uaddr bitset := by
  unfold flagged
  split
  · rfl
  · rfl

theorem flagged_nil (futex : Fin N → CpuFutex) : flagged [] futex = futex :=
  funext fun _ => if_neg List.not_mem_nil

theorem update_eq_flagged (futex : Fin N → CpuFutex) (i : Fin N) :
    Function.update futex i { futex i with wakeup := true } = flagged [i] futex := by
  funext j
  by_cases h : j = i
  · rw [h, Function.update_self, flagged, if_pos List.mem_cons_self]
  · rw [Function.update_of_ne h, flagged, if_neg (mt List.mem_singleton.mp h)]

theorem flagged_flagged (sent sent' : List (Fin N)) (futex : Fin N → CpuFutex) :
    flagged sent' (flagged sent futex) = flagged (sent ++ sent') futex := by
  funext j
  by_cases h : j ∈ sent
  · by_cases h' : j ∈ sent'
    · simp only [flagged, h, h', List.mem_append, true_or, if_true]
    · simp only [flagged, h, h', List.mem_append, true_or, if_true, if_false]
  · by_cases h' : j ∈ sent'
    · simp only [flagged, h, h', List.mem_append, or_true, if_true, if_false]
    · simp only [flagged, h, h', List.mem_append, or_self, if_false]

theorem wakeWaits_flagged (sent : List (Fin N)) :
    wakeWaits present (flagged sent futex) cur uaddr bitset =
      wakeWaits present futex cur uaddr bitset := by
  funext i
  rw [wakeWaits, wakeWaits, flagged_matches]

end Trace

/-- What a scan over some CPUs does: it notifies the first of those that wait, sets their flags
and nothing else, goes on only below the bound, and stops at the bound or behind the last. -/
structure Scanned (present : Fin N → Bool) (cur : Fin N) (uaddr : Nat) (val : Int)
    (bitset : BitVec 32) (ipi : Fin N → Int) (l : List (Fin N)) (futex : Fin N → CpuFutex)
    (res : Int) (out : WakeOutcome N) : Prop where
  sent_first : out.sent <+: l.filter (wakeWaits present futex cur uaddr bitset)
  futex_eq : out.futex = flagged out.sent futex
  res_eq : out.res = wakeResult ipi out.sent res
  below : ∀ p i, p ++ [i] <+: out.sent → wakeResult ipi p res < val
  stop : out.sent = l.filter (wakeWaits present futex cur uaddr bitset) ∨ val ≤ out.res

section Scan

variable {present : Fin N → Bool} {cur : Fin N} {uaddr : Nat} {val : Int} {bitset : BitVec 32}
  {ipi : Fin N → Int}

/-- One CPU of the scan. -/
theorem wakeScanSent_cons (i : Fin N) (rest : List (Fin N)) (futex : Fin N → CpuFutex)
    (res : Int) :
    wakeScanSent present cur uaddr val bitset ipi (i :: rest) futex res =
      if res < val then
        if wakeWaits present futex cur uaddr bitset i then
          let out := wakeScanSent present cur uaddr val bitset ipi rest (flagged [i] futex)
            ((if ipi i ≠ 0 then ipi i else res) + 1)
          { out with sent := i :: out.sent }
        else wakeScanSent present cur uaddr val bitset ipi rest futex res
      else ⟨[], futex, res⟩ := by
  rw [← update_eq_flagged]
  rfl

theorem not_concat_prefix_nil (p : List (Fin N)) (i : Fin N) : ¬ p ++ [i] <+: [] := by
  intro h
  exact List.append_ne_nil_of_right_ne_nil p (List.cons_ne_nil i []) (List.prefix_nil.mp h)

/-- A scan that notifies no CPU. -/
theorem scanned_none {l : List (Fin N)} {futex : Fin N → CpuFutex} {res : Int}
    (hstop : [] = l.filter (wakeWaits present futex cur uaddr bitset) ∨ val ≤ res) :
    Scanned present cur uaddr val bitset ipi l futex res ⟨[], futex, res⟩ where
  sent_first := List.nil_prefix
  futex_eq := (flagged_nil futex).symm
  res_eq := rfl
  below p i h := absurd h (not_concat_prefix_nil p i)
  stop := hstop

theorem wakeScanSent_scanned (l : List (Fin N)) (futex : Fin N → CpuFutex) (res : Int) :
    Scanned present cur uaddr val bitset ipi l futex res
      (wakeScanSent present cur uaddr val bitset ipi l futex res) := by
  induction l generalizing futex res with
  | nil => exact scanned_none (Or.inl rfl)
  | cons i rest ih =>
      rw [wakeScanSent_cons]
      by_cases hbound : res < val
      · rw [if_pos hbound]
        by_cases hwaits : wakeWaits present futex cur uaddr bitset i = true
        · obtain ⟨hfirst, hfutex, hres, hbelow, hstop⟩ :=
            ih (flagged [i] futex) ((if ipi i ≠ 0 then ipi i else res) + 1)
          rw [wakeWaits_flagged] at hfirst hstop
          rw [if_pos hwaits]
          refine ⟨?_, ?_, hres, ?_, ?_⟩
          · rw [List.filter_cons_of_pos hwaits]
            exact List.cons_prefix_cons.mpr ⟨rfl, hfirst⟩
          · rw [flagged_flagged] at hfutex
            exact hfutex
          · intro p j hp
            cases p with
            | nil => exact hbound
            | cons k p =>
                obtain ⟨rfl, htail⟩ := List.cons_prefix_cons.mp hp
                exact hbelow p j htail
          · rw [List.filter_cons_of_pos hwaits]
            exact hstop.imp (congrArg (i :: ·)) id
        · obtain ⟨hfirst, hfutex, hres, hbelow, hstop⟩ := ih futex res
          rw [if_neg hwaits]
          refine ⟨?_, hfutex, hres, hbelow, ?_⟩
          · rw [List.filter_cons_of_neg hwaits]
            exact hfirst
          · rw [List.filter_cons_of_neg hwaits]
            exact hstop
      · rw [if_neg hbound]
        exact scanned_none (Or.inr (Int.not_lt.mp hbound))

/-- With a bitset, `k_cpu_futex_wake` scans all CPUs. -/
theorem kCpuFutexWakeSent_scanned (futex : Fin N → CpuFutex) (hbitset : bitset ≠ 0) :
    Scanned present cur uaddr val bitset ipi (List.finRange N) futex 0
      (kCpuFutexWakeSent present futex cur uaddr val bitset ipi) := by
  rw [kCpuFutexWakeSent, if_neg hbitset]
  exact wakeScanSent_scanned _ _ _

end Scan

section Count

variable {ipi : Fin N → Int}

/-- While the interrupts succeed, the result counts. -/
theorem wakeResult_of_success {sent : List (Fin N)} (h : ∀ i ∈ sent, ipi i = 0) (res : Int) :
    wakeResult ipi sent res = res + sent.length := by
  induction sent generalizing res with
  | nil => exact (Int.add_zero res).symm
  | cons i rest ih =>
      obtain ⟨hi, hrest⟩ := List.forall_mem_cons.mp h
      rw [wakeResult, if_neg (not_not.mpr hi), ih hrest, List.length_cons]
      omega

theorem wakeResult_append (sent sent' : List (Fin N)) (res : Int) :
    wakeResult ipi (sent ++ sent') res = wakeResult ipi sent' (wakeResult ipi sent res) := by
  induction sent generalizing res with
  | nil => rfl
  | cons i rest ih => exact ih _

/-- The last interrupt that failed decides the result. -/
theorem wakeResult_of_failure {before after : List (Fin N)} {i : Fin N} (hi : ipi i ≠ 0)
    (hafter : ∀ j ∈ after, ipi j = 0) (res : Int) :
    wakeResult ipi (before ++ i :: after) res = ipi i + 1 + after.length := by
  rw [wakeResult_append, wakeResult, if_pos hi, wakeResult_of_success hafter]

/-- No interrupt failed, or there is a last one that did. -/
theorem all_succeed_or_last_failure (ipi : Fin N → Int) (sent : List (Fin N)) :
    (∀ i ∈ sent, ipi i = 0) ∨
      ∃ before i after, sent = before ++ i :: after ∧ ipi i ≠ 0 ∧ ∀ j ∈ after, ipi j = 0 := by
  induction sent with
  | nil => exact Or.inl nofun
  | cons k rest ih =>
      rcases ih with hall | ⟨before, i, after, rfl, hi, hafter⟩
      · by_cases hk : ipi k = 0
        · exact Or.inl (List.forall_mem_cons.mpr ⟨hk, hall⟩)
        · exact Or.inr ⟨[], k, rest, rfl, hk, hall⟩
      · exact Or.inr ⟨k :: before, i, after, rfl, hi, hafter⟩

/-- When no interrupt fails, the scan notifies as many CPUs as it may. -/
theorem Scanned.sent_eq_take {present : Fin N → Bool} {cur : Fin N} {uaddr : Nat} {val : Int}
    {bitset : BitVec 32} {l : List (Fin N)} {futex : Fin N → CpuFutex} {out : WakeOutcome N}
    (h : Scanned present cur uaddr val bitset ipi l futex 0 out) (hipi : ∀ i, ipi i = 0) :
    out.sent = (l.filter (wakeWaits present futex cur uaddr bitset)).take val.toNat := by
  have hcount : ∀ p, wakeResult ipi p 0 = p.length := fun p => by
    rw [wakeResult_of_success (fun i _ => hipi i), Int.zero_add]
  have hshort : out.sent.length ≤ val.toNat := by
    rcases List.eq_nil_or_concat' out.sent with hnil | ⟨p, i, hconcat⟩
    · rw [hnil]
      exact Nat.zero_le _
    · have hlast := h.below p i (hconcat ▸ List.prefix_rfl)
      rw [hcount] at hlast
      rw [hconcat, List.length_append, List.length_singleton]
      omega
  rcases h.stop with hall | hbound
  · rw [← hall, List.take_of_length_le hshort]
  · rw [h.res_eq, hcount] at hbound
    have hlength : out.sent.length = val.toNat := by omega
    rw [← hlength]
    exact List.prefix_iff_eq_take.mp h.sent_first

end Count

/-- When the interrupts succeed, the CPUs with the lowest numbers among those that wait are
flagged and notified, as many as `val` allows; their number is returned and nothing else
changes. -/
theorem futex_wake_lowest (present : Fin N → Bool) (futex : Fin N → CpuFutex) (cur : Fin N)
    (uaddr : Nat) (val : Int) (bitset : BitVec 32) (ipi : Fin N → Int) (hbitset : bitset ≠ 0)
    (hipi : ∀ i, ipi i = 0) :
    let waiters := futexWaiters present futex cur uaddr bitset
    let sent := (kCpuFutexWakeSent present futex cur uaddr val bitset ipi).sent
    let after := kCpuFutexWake present futex cur uaddr val bitset ipi
    sent = waiters.take val.toNat ∧ after.2 = min (max val 0) waiters.length ∧
      after.1 = fun i => if i ∈ sent then { futex i with wakeup := true } else futex i := by
  intro waiters sent after
  have hscan : Scanned present cur uaddr val bitset ipi (List.finRange N) futex 0 _ :=
    kCpuFutexWakeSent_scanned futex hbitset
  have hsent : sent = waiters.take val.toNat := hscan.sent_eq_take hipi
  have hafter : after = _ := kCpuFutexWake_eq_sent present futex cur uaddr val bitset ipi
  refine ⟨hsent, ?_, ?_⟩
  · rw [hafter, hscan.res_eq, wakeResult_of_success (fun i _ => hipi i)]
    change 0 + (sent.length : Int) = _
    rw [hsent, List.length_take]
    omega
  · rw [hafter]
    exact hscan.futex_eq

/-- CPUs 1 and 3 of four wait, CPU 2 is missing: a wake of one notifies CPU 1. -/
theorem futex_wake_lowest_four :
    let futex : Fin 4 → CpuFutex := fun i =>
      if i = 0 then .idle else .waiting 4096 7 futexBitsetAny
    (kCpuFutexWakeSent (fun i => i != 2) futex 0 4096 1 futexBitsetAny fun _ => 0).sent =
      (futexWaiters (fun i => i != 2) futex 0 4096 futexBitsetAny).take 1 ∧
    futexWaiters (fun i => i != 2) futex 0 4096 futexBitsetAny = [1, 3] := by
  intro futex
  exact ⟨(futex_wake_lowest (fun i => i != 2) futex 0 4096 1 futexBitsetAny (fun _ => 0)
    (by decide) fun _ => rfl).1, by decide⟩

/-- The CPUs that were flagged and whose interrupt was sent. -/
def notified (ipi : Fin N → Int) (sent : List (Fin N)) : List (Fin N) :=
  sent.filter fun i => ipi i = 0

/-- A result is the number of CPUs notified, or one of the negative errors of the interrupts. -/
def ReportsWake (ipi : Fin N → Int) (sent : List (Fin N)) (res : Int) : Prop :=
  res = (notified ipi sent).length ∨ res < 0 ∧ ∃ i ∈ sent, ipi i ≠ 0 ∧ res = ipi i

instance (ipi : Fin N → Int) (sent : List (Fin N)) (res : Int) :
    Decidable (ReportsWake ipi sent res) :=
  inferInstanceAs (Decidable (_ ∨ _))

section Failures

variable {ipi : Fin N → Int} {before after : List (Fin N)} {i : Fin N}

theorem reportsWake_of_success {sent : List (Fin N)} (h : ∀ i ∈ sent, ipi i = 0) :
    ReportsWake ipi sent (wakeResult ipi sent 0) := by
  have hall : notified ipi sent = sent :=
    List.filter_eq_self.mpr fun i hi => decide_eq_true (h i hi)
  rw [ReportsWake, wakeResult_of_success h, Int.zero_add, hall]
  exact Or.inl rfl

theorem length_notified_of_failure (hi : ipi i ≠ 0) (hafter : ∀ j ∈ after, ipi j = 0) :
    (notified ipi (before ++ i :: after)).length =
      (notified ipi before).length + after.length := by
  have hall : notified ipi after = after :=
    List.filter_eq_self.mpr fun j hj => decide_eq_true (hafter j hj)
  have hfail : notified ipi (i :: after) = notified ipi after :=
    List.filter_cons_of_neg (by simpa using hi)
  calc (notified ipi (before ++ i :: after)).length
      = (notified ipi before ++ notified ipi (i :: after)).length :=
        congrArg List.length (List.filter_append ..)
    _ = (notified ipi before ++ notified ipi after).length := by rw [hfail]
    _ = (notified ipi before).length + after.length := by rw [hall, List.length_append]

/-- Behind the last error the result grows with each CPU, so it is right only by chance. -/
theorem reportsWake_of_failure_iff (hi : ipi i ≠ 0) (hafter : ∀ j ∈ after, ipi j = 0) :
    ReportsWake ipi (before ++ i :: after) (ipi i + 1 + after.length) ↔
      ipi i + 1 = (notified ipi before).length ∨
        ipi i + 1 + after.length < 0 ∧ ∃ j ∈ before, ipi j = ipi i + 1 + after.length := by
  rw [ReportsWake, length_notified_of_failure hi hafter]
  refine or_congr (by omega) (and_congr_right fun hneg => ?_)
  constructor
  · rintro ⟨j, hj, -, heq⟩
    refine ⟨j, ?_, heq.symm⟩
    rcases List.mem_append.mp hj with hj | hj
    · exact hj
    · rcases List.mem_cons.mp hj with rfl | hj
      · omega
      · have := hafter j hj
        omega
  · rintro ⟨j, hj, heq⟩
    exact ⟨j, List.mem_append_left _ hj, by omega, heq.symm⟩

end Failures

/-- The result is the number of CPUs notified or an error of an interrupt, if and only if there
is a bitset and no interrupt failed, or the last error grows to the number of CPUs notified, or
to an earlier error, by chance. -/
theorem futex_wake_reports_iff (present : Fin N → Bool) (futex : Fin N → CpuFutex) (cur : Fin N)
    (uaddr : Nat) (val : Int) (bitset : BitVec 32) (ipi : Fin N → Int) :
    let sent := (kCpuFutexWakeSent present futex cur uaddr val bitset ipi).sent
    ReportsWake ipi sent (kCpuFutexWake present futex cur uaddr val bitset ipi).2 ↔
      bitset ≠ 0 ∧ ((∀ i ∈ sent, ipi i = 0) ∨
        ∃ before i after, sent = before ++ i :: after ∧ ipi i ≠ 0 ∧ (∀ j ∈ after, ipi j = 0) ∧
          (ipi i + 1 = (notified ipi before).length ∨
            ipi i + 1 + after.length < 0 ∧
              ∃ j ∈ before, ipi j = ipi i + 1 + after.length)) := by
  intro sent
  rw [kCpuFutexWake_eq_sent]
  by_cases hbitset : bitset = 0
  · refine iff_of_false ?_ (fun h => h.1 hbitset)
    have hnone : kCpuFutexWakeSent present futex cur uaddr val bitset ipi =
        ⟨[], futex, -einval⟩ := if_pos hbitset
    rw [show sent = [] from congrArg WakeOutcome.sent hnone, hnone]
    rintro (hcount | ⟨-, i, hi, -⟩)
    · exact absurd hcount (by decide : ¬ -einval = 0)
    · exact absurd hi List.not_mem_nil
  · have hscan : Scanned present cur uaddr val bitset ipi (List.finRange N) futex 0 _ :=
      kCpuFutexWakeSent_scanned futex hbitset
    rw [hscan.res_eq, and_iff_right hbitset]
    change ReportsWake ipi sent (wakeResult ipi sent 0) ↔ _
    constructor
    · intro h
      refine (all_succeed_or_last_failure ipi sent).imp id ?_
      rintro ⟨before, i, after, hsent, hi, hafter⟩
      rw [hsent, wakeResult_of_failure hi hafter, reportsWake_of_failure_iff hi hafter] at h
      exact ⟨before, i, after, hsent, hi, hafter, h⟩
    · rintro (hall | ⟨before, i, after, hsent, hi, hafter, h⟩)
      · exact reportsWake_of_success hall
      · rw [hsent, wakeResult_of_failure hi hafter, reportsWake_of_failure_iff hi hafter]
        exact h

/-- One CPU waits and its interrupt fails with `ENOTSUP`: the result is the error plus one. -/
theorem futex_wake_shifts_error :
    let futex : Fin 2 → CpuFutex := fun i =>
      if i = 0 then .idle else .waiting 4096 7 futexBitsetAny
    let sent := (kCpuFutexWakeSent (fun _ => true) futex 0 4096 1 futexBitsetAny
      fun _ => -enotsup).sent
    let res := (kCpuFutexWake (fun _ => true) futex 0 4096 1 futexBitsetAny fun _ => -enotsup).2
    sent = [1] ∧ res = -94 ∧ ¬ ReportsWake (fun _ => -enotsup) sent res := by
  decide

end BaremetalCrt
