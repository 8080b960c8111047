import BaremetalCrt.Futex.Ledger
import BaremetalCrt.Library.Counting
import Mathlib.Data.Finset.Card

/-!
# How many waiters a sequence of wakes releases

A group of CPUs waits for one word, whose value stays the expected one, and
other CPUs wake one waiter at a time. As long as no scan meets a wait that is
flagged already, `k` wakes release as many waiters, or all of them. Without
that condition two wakes can be spent on the same waiter.

## Implementation notes

The invariant keeps the account of the wakes that have begun. Each of them has
counted a waiter, has ended without a result, or is still scanning without one.
A wake can only end without a result after every waiter was counted.
-/

namespace BaremetalCrt

open LabelledSystem

variable {N : Nat}

/-- The CPU is in the given wait, unflagged and not on its way out. -/
def PendingIn (s : FutexSys N) (wcall : WaitCall) (p : Fin N) : Prop :=
  (s.futex p).wakeup = false ∧
    ∃ stage, s.pc p = .wait wcall stage ∧ ∀ res, stage ≠ .leave res

/-- Whether a place in the code belongs to a wait on the word. -/
def FutexPc.waitsOn (uaddr : Nat) : FutexPc N → Bool
  | .wait call _ => call.uaddr == uaddr
  | _ => false

/-- The CPUs that wait on the word. -/
def waitersOn (s : FutexSys N) (uaddr : Nat) : Finset (Fin N) :=
  Finset.univ.filter fun p => (s.pc p).waitsOn uaddr = true

theorem mem_waitersOn {s : FutexSys N} {uaddr : Nat} {p : Fin N} :
    p ∈ waitersOn s uaddr ↔
      ∃ call stage, s.pc p = .wait call stage ∧ call.uaddr = uaddr := by
  rw [waitersOn, Finset.mem_filter, and_iff_right (Finset.mem_univ p)]
  cases s.pc p with
  | wait call stage => simp [FutexPc.waitsOn]
  | user => simp [FutexPc.waitsOn]
  | scan call i res => simp [FutexPc.waitsOn]
  | raise call i res => simp [FutexPc.waitsOn]

/-- All waits on the word are pending in one and the same call, the word has the
expected value, and no wake is in progress. -/
structure Gathered (wcall : WaitCall) (s : FutexSys N) : Prop where
  word : s.word wcall.uaddr = wcall.val
  pending : ∀ p ∈ waitersOn s wcall.uaddr, PendingIn s wcall p
  quiet : ∀ p, (s.pc p).units = none

/-- A wake of one waiter that addresses the given wait. -/
def WakesOne (wcall : WaitCall) (call : WakeCall) : Prop :=
  call.uaddr = wcall.uaddr ∧ call.n = 1 ∧ wcall.bitset &&& call.bitset ≠ 0

/-- The word keeps its value, no further wait on it begins, and every wake is a
wake of one of the waiters. -/
def WakesOnly (wcall : WaitCall) : FutexLabel N → Prop
  | .store _ addr val => addr = wcall.uaddr → val = wcall.val
  | .waitBegin _ call => call.uaddr ≠ wcall.uaddr
  | .wakeBegin _ call => WakesOne wcall call
  | _ => True

/-- Whether a label begins a wake. -/
def FutexLabel.isWake : FutexLabel N → Bool
  | .wakeBegin _ _ => true
  | _ => false

/-- Whether a wake is scanning and has counted nothing yet. -/
def FutexPc.zeroScan : FutexPc N → Bool
  | .scan _ _ res => res == 0
  | _ => false

/-- The number of scans that have counted nothing yet. -/
def zeroScans (s : FutexSys N) : Nat := held fun p => (s.pc p).zeroScan

section Scans

variable {s s' : FutexSys N} {p : Fin N} {pc : FutexPc N}

theorem zeroScan_update (hpc : s'.pc = Function.update s.pc p pc) :
    (fun q => (s'.pc q).zeroScan) =
      Function.update (fun q => (s.pc q).zeroScan) p pc.zeroScan := by
  rw [hpc]
  exact Function.comp_update FutexPc.zeroScan s.pc p pc

theorem zeroScans_same (hpc : s'.pc = Function.update s.pc p pc)
    (hsame : pc.zeroScan = (s.pc p).zeroScan) : zeroScans s' = zeroScans s := by
  rw [zeroScans, zeroScan_update hpc, hsame, Function.update_eq_self]
  rfl

theorem zeroScans_begin (hpc : s'.pc = Function.update s.pc p pc) (hnew : pc.zeroScan = true)
    (hold : (s.pc p).zeroScan = false) : zeroScans s' = zeroScans s + 1 := by
  rw [zeroScans, zeroScan_update hpc, hnew]
  exact held_set hold

theorem zeroScans_end (hpc : s'.pc = Function.update s.pc p pc) (hnew : pc.zeroScan = false)
    (hold : (s.pc p).zeroScan = true) : zeroScans s' + 1 = zeroScans s := by
  rw [zeroScans, zeroScan_update hpc, hnew]
  exact held_clear hold

/-- Where no wake is in progress no scan is. -/
theorem zeroScans_of_quiet (h : ∀ p, (s.pc p).units = none) : zeroScans s = 0 := by
  have hnone : ∀ p, (s.pc p).zeroScan = false := by
    intro p
    have hp := h p
    cases hpc : s.pc p with
    | scan call i res => exact absurd (hpc ▸ hp) (by simp [FutexPc.units])
    | _ => rfl
  simp [zeroScans, held, hnone]

end Scans

/-- A pending waiter stays one as long as its place and its record are left alone. -/
theorem PendingIn.frame {s s' : FutexSys N} {wcall : WaitCall} {p : Fin N}
    (h : PendingIn s wcall p) (hpc : s'.pc p = s.pc p) (hfutex : s'.futex p = s.futex p) :
    PendingIn s' wcall p := by
  rw [PendingIn, hpc, hfutex]
  exact h

/-- What holds at a place in the code while the waiters in `group` are woken and
those in `done` have been counted; `stay` says that the CPU has begun no wait
since. -/
def PlaceOk (wcall : WaitCall) (group : Finset (Fin N)) (done : List (Fin N)) (p : Fin N)
    (stay : Prop) : FutexPc N → Prop
  | .user => True
  | .wait call _ => call.uaddr = wcall.uaddr → p ∈ group ∧ stay
  | .scan call i res => WakesOne wcall call ∧
      (res = 0 ∧ (∀ q ∈ group, q.val < i → q ∈ done) ∨ res = 1)
  | .raise call _ res => WakesOne wcall call ∧ res = 0

theorem PlaceOk.mono {wcall : WaitCall} {group : Finset (Fin N)} {done done' : List (Fin N)}
    {p : Fin N} {stay : Prop} {pc : FutexPc N} (h : PlaceOk wcall group done p stay pc)
    (hsub : done ⊆ done') : PlaceOk wcall group done' p stay pc := by
  cases pc with
  | user => trivial
  | wait call stage => exact h
  | raise call c res => exact h
  | scan call i res =>
      refine ⟨h.1, h.2.imp_left ?_⟩
      rintro ⟨hres, hdone⟩
      exact ⟨hres, fun q hq hlt => hsub (hdone q hq hlt)⟩

/-- The account of a run from `s₀`: `new` holds the entries since then, `missed`
counts the wakes that ended without a result, `begun` those that have begun. -/
structure ReleaseInv (wcall : WaitCall) (s₀ s : FutexSys N) (new : List (Counted N))
    (missed begun : Nat) : Prop where
  base : LedgerInv s
  counted_eq : s.counted = new ++ s₀.counted
  distinct : (new.map Counted.waiter).Nodup
  origin : ∀ e ∈ new, e.waiter ∈ waitersOn s₀ wcall.uaddr ∧ e.wait = s₀.waits e.waiter
  uncounted : ∀ p ∈ waitersOn s₀ wcall.uaddr, p ∉ new.map Counted.waiter → PendingIn s wcall p
  place : ∀ p, PlaceOk wcall (waitersOn s₀ wcall.uaddr) (new.map Counted.waiter) p
    (s.waits p = s₀.waits p) (s.pc p)
  word : s.word wcall.uaddr = wcall.val
  balance : new.length + missed + zeroScans s = begun
  covered : missed ≠ 0 → ∀ p ∈ waitersOn s₀ wcall.uaddr, p ∈ new.map Counted.waiter

section Release

variable {wcall : WaitCall} {s₀ s s' : FutexSys N} {new : List (Counted N)}
  {missed begun : Nat}

theorem Gathered.release (hbase : LedgerInv s₀) (h : Gathered wcall s₀) :
    ReleaseInv wcall s₀ s₀ [] 0 0 where
  base := hbase
  counted_eq := rfl
  distinct := List.nodup_nil
  origin := fun _ he => absurd he List.not_mem_nil
  uncounted := fun p hp _ => h.pending p hp
  place := by
    intro p
    have hquiet := h.quiet p
    cases hpc : s₀.pc p with
    | user => trivial
    | wait call stage => exact fun haddr => ⟨mem_waitersOn.mpr ⟨call, stage, hpc, haddr⟩, rfl⟩
    | scan call i res => exact absurd (hpc ▸ hquiet) (by simp [FutexPc.units])
    | raise call c res => exact absurd (hpc ▸ hquiet) (by simp [FutexPc.units])
  word := h.word
  balance := by
    rw [zeroScans_of_quiet h.quiet]
    rfl
  covered := fun h0 => absurd rfl h0

/-- A step of one CPU that counts nothing. -/
theorem ReleaseInv.advance (h : ReleaseInv wcall s₀ s new missed begun) {p : Fin N}
    {pc : FutexPc N} {missed' begun' : Nat} (hbase : LedgerInv s')
    (hpc : s'.pc = Function.update s.pc p pc) (hcounted : s'.counted = s.counted)
    (hword : s'.word wcall.uaddr = wcall.val)
    (hother : ∀ q, q ≠ p → s'.futex q = s.futex q ∧ s'.waits q = s.waits q)
    (hplace : PlaceOk wcall (waitersOn s₀ wcall.uaddr) (new.map Counted.waiter) p
      (s'.waits p = s₀.waits p) pc)
    (hpend : PendingIn s wcall p → PendingIn s' wcall p)
    (hbalance : new.length + missed' + zeroScans s' = begun')
    (hcovered : missed' ≠ 0 → ∀ q ∈ waitersOn s₀ wcall.uaddr, q ∈ new.map Counted.waiter) :
    ReleaseInv wcall s₀ s' new missed' begun' where
  base := hbase
  counted_eq := hcounted.trans h.counted_eq
  distinct := h.distinct
  origin := h.origin
  uncounted := by
    intro q hq hnot
    have hq' := h.uncounted q hq hnot
    by_cases hqp : q = p
    · subst q
      exact hpend hq'
    · exact hq'.frame (by rw [hpc, Function.update_of_ne hqp]) (hother q hqp).1
  place := by
    intro q
    rw [hpc]
    by_cases hqp : q = p
    · subst q
      rw [Function.update_self]
      exact hplace
    · rw [Function.update_of_ne hqp, (hother q hqp).2]
      exact h.place q
  word := hword
  balance := hbalance
  covered := hcovered

/-- A step that leaves all CPUs where they are. -/
theorem ReleaseInv.keep (h : ReleaseInv wcall s₀ s new missed begun) (hbase : LedgerInv s')
    (hpc : s'.pc = s.pc) (hfutex : s'.futex = s.futex) (hwaits : s'.waits = s.waits)
    (hcounted : s'.counted = s.counted) (hword : s'.word wcall.uaddr = wcall.val) :
    ReleaseInv wcall s₀ s' new missed begun where
  base := hbase
  counted_eq := hcounted.trans h.counted_eq
  distinct := h.distinct
  origin := h.origin
  uncounted := by
    intro p hp hnot
    exact (h.uncounted p hp hnot).frame (congrFun hpc p) (congrFun hfutex p)
  place := by
    rw [hpc, hwaits]
    exact h.place
  word := hword
  balance := by
    rw [zeroScans, hpc]
    exact h.balance
  covered := h.covered

/-- A wait that goes on to another stage. -/
theorem ReleaseInv.stage_move (h : ReleaseInv wcall s₀ s new missed begun) {p : Fin N}
    {call : WaitCall} {stage stage' : WaitStage} (hp : s.pc p = .wait call stage)
    (hbase : LedgerInv s') (hpc : s'.pc = Function.update s.pc p (.wait call stage'))
    (hcounted : s'.counted = s.counted) (hword : s'.word = s.word) (hfutex : s'.futex = s.futex)
    (hwaits : s'.waits = s.waits)
    (hstay : PendingIn s wcall p → call = wcall → ∀ res, stage' ≠ .leave res) :
    ReleaseInv wcall s₀ s' new missed begun := by
  have hplace := h.place p
  rw [hp] at hplace
  refine h.advance hbase hpc hcounted (by rw [hword]; exact h.word)
    (fun q _ => by rw [hfutex, hwaits]; exact ⟨rfl, rfl⟩) (by rw [hwaits]; exact hplace) ?_ ?_
    h.covered
  · intro hpend
    have ⟨hflag, stage₀, hstage, _⟩ := hpend
    obtain ⟨rfl, -⟩ := FutexPc.wait.inj (hp.symm.trans hstage)
    refine ⟨by rw [hfutex]; exact hflag, stage', ?_, hstay hpend rfl⟩
    rw [hpc, Function.update_self]
  · rw [zeroScans_same hpc (by rw [hp]; rfl)]
    exact h.balance

/-- A CPU in a scan is not a pending waiter. -/
theorem not_pendingIn_of_units {u : Int} {p : Fin N} (hp : (s.pc p).units = some u) :
    ¬ PendingIn s wcall p := by
  rintro ⟨-, stage, hstage, -⟩
  rw [hstage] at hp
  exact absurd hp (by simp [FutexPc.units])

/-- A pending waiter is met by every scan that comes to it. -/
theorem ReleaseInv.matches_of_pending (h : ReleaseInv wcall s₀ s new missed begun)
    {p c : Fin N} {call : WakeCall} {res : Int} (hp : s.pc p = .scan call c res)
    (hc : PendingIn s wcall c) :
    (wakeVisits s.present p c && (s.futex c).matches call.uaddr call.bitset) = true := by
  obtain ⟨haddr, -, hmask⟩ : WakesOne wcall call := by
    have hplace := h.place p
    rw [hp] at hplace
    exact hplace.1
  obtain ⟨-, stage, hstage, -⟩ := hc
  obtain ⟨huaddr, -, hbitset⟩ := h.base.base.waiting hstage
  rw [Bool.and_eq_true, wakeVisits_iff, CpuFutex.matches_iff, huaddr, hbitset, haddr]
  refine ⟨⟨(h.base.base.waiter c wcall stage hstage).2, ?_⟩, rfl, hmask⟩
  rintro rfl
  exact absurd (hp.symm.trans hstage) (by simp)

/-- The wait that a scan meets belongs to the group, and it is uncounted as long
as it is unflagged. -/
theorem ReleaseInv.met (h : ReleaseInv wcall s₀ s new missed begun) {p c : Fin N}
    {call : WakeCall} {res : Int} (hp : s.pc p = .scan call c res)
    (hmatch : (s.futex c).matches call.uaddr call.bitset = true)
    (hclear : (s.futex c).wakeup = false) :
    c ∈ waitersOn s₀ wcall.uaddr ∧ s.waits c = s₀.waits c ∧ c ∉ new.map Counted.waiter := by
  have hscan := h.place p
  rw [hp] at hscan
  obtain ⟨call', stage, hc⟩ := h.base.base.wait_of_matches hmatch
  have haddr : call'.uaddr = wcall.uaddr := by
    rw [← (h.base.base.waiting hc).1, (CpuFutex.matches_iff.mp hmatch).1]
    exact hscan.1.1
  have hplace := h.place c
  rw [hc] at hplace
  obtain ⟨hmem, hwaits⟩ := hplace haddr
  refine ⟨hmem, hwaits, ?_⟩
  intro hcounted
  obtain ⟨e, he, rfl⟩ := List.mem_map.mp hcounted
  have hentry : e ∈ s.counted := by
    rw [h.counted_eq]
    exact List.mem_append_left _ he
  have hflag := h.base.flag_of_entry _ call' stage hc e hentry rfl
    ((h.origin e he).2.trans hwaits.symm)
  rw [hflag] at hclear
  exact absurd hclear (by simp)

theorem ReleaseInv.count_move (h : ReleaseInv wcall s₀ s new missed begun) {p c : Fin N}
    {call : WakeCall} {res : Int} (hp : s.pc p = .scan call c res) (hres : res < call.n)
    (hvisit : wakeVisits s.present p c = true)
    (hmatch : (s.futex c).matches call.uaddr call.bitset = true)
    (hclear : (s.futex c).wakeup = false) :
    ReleaseInv wcall s₀ { s.setPc p (.raise call c res) with
      futex := Function.update s.futex c { s.futex c with wakeup := true }
      counted := ⟨p, s.wakes p, c, s.waits c⟩ :: s.counted }
      (⟨p, s.wakes p, c, s.waits c⟩ :: new) missed begun := by
  obtain ⟨hmem, hwaits, hnew⟩ := h.met hp hmatch hclear
  have hscan := h.place p
  rw [hp] at hscan
  obtain rfl : res = 0 := by
    rcases hscan.2 with ⟨hzero, -⟩ | hone
    · exact hzero
    · rw [hscan.1.2.1, hone] at hres
      exact absurd hres (by decide)
  have hsub : new.map Counted.waiter ⊆
      (⟨p, s.wakes p, c, s.waits c⟩ :: new : List (Counted N)).map Counted.waiter :=
    List.subset_cons_self _ _
  refine ⟨h.base.move (FutexMove.count hp hres hvisit hmatch), ?_, ?_, ?_, ?_, ?_, h.word, ?_, ?_⟩
  · exact congrArg (_ :: ·) h.counted_eq
  · exact List.nodup_cons.mpr ⟨hnew, h.distinct⟩
  · intro e he
    rcases List.mem_cons.mp he with rfl | he
    · exact ⟨hmem, hwaits⟩
    · exact h.origin e he
  · intro q hq hnot
    have hqc : q ≠ c := fun heq => hnot (heq ▸ List.mem_cons_self)
    have hpend := h.uncounted q hq fun hin => hnot (hsub hin)
    have hqp : q ≠ p := by
      rintro rfl
      exact not_pendingIn_of_units (by rw [hp]; rfl) hpend
    exact hpend.frame (Function.update_of_ne hqp ..) (Function.update_of_ne hqc ..)
  · intro q
    change PlaceOk _ _ _ _ _ (Function.update s.pc p _ q)
    by_cases hqp : q = p
    · subst q
      rw [Function.update_self]
      exact ⟨hscan.1, rfl⟩
    · rw [Function.update_of_ne hqp]
      exact (h.place q).mono hsub
  · have hend : zeroScans (s.setPc p (.raise call c 0)) + 1 = zeroScans s :=
      zeroScans_end rfl rfl (by rw [hp]; rfl)
    calc new.length + 1 + missed + zeroScans (s.setPc p (.raise call c 0))
        = new.length + missed + (zeroScans (s.setPc p (.raise call c 0)) + 1) := by omega
      _ = new.length + missed + zeroScans s := by rw [hend]
      _ = begun := h.balance
  · intro hmissed q hq
    exact hsub (h.covered hmissed q hq)

/-- A scan that passes a CPU without counting it. -/
theorem ReleaseInv.skip_move (h : ReleaseInv wcall s₀ s new missed begun) {p c : Fin N}
    {call : WakeCall} {res : Int} (hp : s.pc p = .scan call c res) (hres : res < call.n)
    (hno : (wakeVisits s.present p c && (s.futex c).matches call.uaddr call.bitset) = false) :
    ReleaseInv wcall s₀ (s.setPc p (.scan call (c + 1) res)) new missed begun := by
  have hscan := h.place p
  rw [hp] at hscan
  have hc : c ∈ waitersOn s₀ wcall.uaddr → c ∈ new.map Counted.waiter := by
    intro hmem
    by_contra hnot
    rw [h.matches_of_pending hp (h.uncounted c hmem hnot)] at hno
    exact absurd hno (by simp)
  refine h.advance (h.base.move (FutexMove.skip hp hres hno)) rfl rfl h.word
    (fun _ _ => ⟨rfl, rfl⟩) ⟨hscan.1, ?_⟩
    (fun hpend => absurd hpend (not_pendingIn_of_units (by rw [hp]; rfl))) ?_ h.covered
  · refine hscan.2.imp_left ?_
    rintro ⟨hzero, hdone⟩
    refine ⟨hzero, fun q hq hlt => ?_⟩
    rcases Nat.lt_succ_iff_lt_or_eq.mp hlt with hlt | heq
    · exact hdone q hq hlt
    · obtain rfl : q = c := Fin.ext heq
      exact hc hq
  · rw [zeroScans_same rfl (by rw [hp]; rfl)]
    exact h.balance

/-- A wake that returns: with its one unit, or after all waiters were counted. -/
theorem ReleaseInv.finish_move (h : ReleaseInv wcall s₀ s new missed begun) {p : Fin N}
    {call : WakeCall} {i : Nat} {res : Int} (hp : s.pc p = .scan call i res)
    (hend : N ≤ i ∨ call.n ≤ res) :
    ∃ missed', ReleaseInv wcall s₀
      { s.setPc p .user with returned := ⟨p, s.wakes p, res⟩ :: s.returned } new missed' begun := by
  have hscan := h.place p
  rw [hp] at hscan
  have hbase := h.base.move (FutexMove.finish hp hend)
  have hpend : PendingIn s wcall p →
      PendingIn { s.setPc p .user with returned := ⟨p, s.wakes p, res⟩ :: s.returned } wcall p :=
    fun hpend => absurd hpend (not_pendingIn_of_units (by rw [hp]; rfl))
  rcases hscan.2 with ⟨rfl, hdone⟩ | rfl
  · have hlast : N ≤ i := by
      rw [hscan.1.2.1] at hend
      omega
    have hcount : zeroScans (s.setPc p .user) + 1 = zeroScans s :=
      zeroScans_end rfl rfl (by rw [hp]; rfl)
    refine ⟨missed + 1, h.advance hbase rfl rfl h.word (fun _ _ => ⟨rfl, rfl⟩) trivial hpend
      ?_ fun _ q hq => hdone q hq (Nat.lt_of_lt_of_le q.isLt hlast)⟩
    calc new.length + (missed + 1) + zeroScans (s.setPc p .user)
        = new.length + missed + (zeroScans (s.setPc p .user) + 1) := by omega
      _ = new.length + missed + zeroScans s := by rw [hcount]
      _ = begun := h.balance
  · have hsame : zeroScans (s.setPc p .user) = zeroScans s :=
      zeroScans_same rfl (by rw [hp]; rfl)
    refine ⟨missed, h.advance hbase rfl rfl h.word (fun _ _ => ⟨rfl, rfl⟩) trivial hpend ?_
      h.covered⟩
    change new.length + missed + zeroScans (s.setPc p .user) = begun
    rw [hsame]
    exact h.balance

theorem ReleaseInv.raise_move (h : ReleaseInv wcall s₀ s new missed begun) {p c : Fin N}
    {call : WakeCall} {res : Int} (hp : s.pc p = .raise call c res) :
    ReleaseInv wcall s₀ { s.setPc p (.scan call (c + 1) (res + 1)) with
      pending := Function.update s.pending c true } new missed begun := by
  have hraise := h.place p
  rw [hp] at hraise
  obtain ⟨hcall, rfl⟩ := hraise
  refine h.advance (h.base.move (FutexMove.raise hp)) rfl rfl h.word (fun _ _ => ⟨rfl, rfl⟩)
    ⟨hcall, Or.inr rfl⟩
    (fun hpend => absurd hpend (not_pendingIn_of_units (by rw [hp]; rfl))) ?_ h.covered
  change new.length + missed + zeroScans (s.setPc p _) = begun
  rw [zeroScans_same rfl (by rw [hp]; rfl)]
  exact h.balance

theorem ReleaseInv.wakeBegin_move (h : ReleaseInv wcall s₀ s new missed begun) {p : Fin N}
    {call : WakeCall} (hp : s.pc p = .user) (hbit : call.bitset ≠ 0)
    (hcall : WakesOne wcall call) :
    ReleaseInv wcall s₀ { s.setPc p (.scan call 0 0) with
      wakes := Function.update s.wakes p (s.wakes p + 1) } new missed (begun + 1) := by
  have hbegin : zeroScans (s.setPc p (.scan call 0 0)) = zeroScans s + 1 :=
    zeroScans_begin rfl rfl (by rw [hp]; rfl)
  refine h.advance (h.base.move (FutexMove.wakeBegin hp hbit)) rfl rfl h.word
    (fun _ _ => ⟨rfl, rfl⟩) ⟨hcall, Or.inl ⟨rfl, fun _ _ hlt => absurd hlt (Nat.not_lt_zero _)⟩⟩
    ?_ ?_ h.covered
  · rintro ⟨-, stage, hstage, -⟩
    exact absurd (hp.symm.trans hstage) (by simp)
  · change new.length + missed + zeroScans (s.setPc p (.scan call 0 0)) = begun + 1
    rw [hbegin, ← Nat.add_assoc, h.balance]

/-- A wait on another word begins. -/
theorem ReleaseInv.waitBegin_move (h : ReleaseInv wcall s₀ s new missed begun) {p : Fin N}
    {call : WaitCall} (hpres : s.present p = true) (hp : s.pc p = .user)
    (hbit : call.bitset ≠ 0) (haddr : call.uaddr ≠ wcall.uaddr) :
    ReleaseInv wcall s₀ { s.setPc p (.wait call .test) with
      futex := Function.update s.futex p (CpuFutex.waiting call.uaddr call.val call.bitset)
      waits := Function.update s.waits p (s.waits p + 1) } new missed begun := by
  refine h.advance (h.base.move (FutexMove.waitBegin hpres hp hbit)) rfl rfl h.word
    (fun q hq => ⟨Function.update_of_ne hq _ _, Function.update_of_ne hq _ _⟩)
    (fun heq => absurd heq haddr) ?_ ?_ h.covered
  · rintro ⟨-, stage, hstage, -⟩
    exact absurd (hp.symm.trans hstage) (by simp)
  · change new.length + missed + zeroScans (s.setPc p _) = begun
    rw [zeroScans_same rfl (by rw [hp]; rfl)]
    exact h.balance

/-- A waiter leaves, which it only does after it was counted. -/
theorem ReleaseInv.leave_move (h : ReleaseInv wcall s₀ s new missed begun) {p : Fin N}
    {call : WaitCall} {res : Int} (hp : s.pc p = .wait call (.leave res)) :
    ReleaseInv wcall s₀ { s.setPc p .user with
      futex := Function.update s.futex p CpuFutex.idle } new missed begun := by
  refine h.advance (h.base.move (FutexMove.leave hp)) rfl rfl h.word
    (fun q hq => ⟨Function.update_of_ne hq _ _, rfl⟩) trivial ?_ ?_ h.covered
  · rintro ⟨-, stage, hstage, hstay⟩
    obtain ⟨-, rfl⟩ := FutexPc.wait.inj (hp.symm.trans hstage)
    exact absurd rfl (hstay res)
  · change new.length + missed + zeroScans (s.setPc p _) = begun
    rw [zeroScans_same rfl (by rw [hp]; rfl)]
    exact h.balance

theorem ReleaseInv.move {l : FutexLabel N} (h : ReleaseInv wcall s₀ s new missed begun)
    (hmove : FutexMove s l s') (hlabel : WakesOnly wcall l) (hok : NoRewake s l) :
    ∃ new' missed',
      ReleaseInv wcall s₀ s' new' missed' (begun + if l.isWake then 1 else 0) := by
  have hbase := h.base.move hmove
  cases hmove with
  | waitRejected _ => exact ⟨new, missed, h⟩
  | wakeRejected hbit =>
      -- a wake that addresses the waiters has a bit set that is not empty
      obtain ⟨-, -, hmask⟩ := hlabel
      rw [hbit] at hmask
      exact absurd (BitVec.and_zero) hmask
  | @store p addr val hp =>
      refine ⟨new, missed, h.keep hbase rfl rfl rfl rfl ?_⟩
      change Function.update s.word addr val wcall.uaddr = wcall.val
      by_cases haddr : wcall.uaddr = addr
      · rw [← haddr, Function.update_self]
        exact hlabel haddr.symm
      · rw [Function.update_of_ne haddr]
        exact h.word
  | interrupt => exact ⟨new, missed, h.keep hbase rfl rfl rfl rfl h.word⟩
  | take _ => exact ⟨new, missed, h.keep hbase rfl rfl rfl rfl h.word⟩
  | waitBegin hpres hp hbit => exact ⟨new, missed, h.waitBegin_move hpres hp hbit hlabel⟩
  | wakeBegin hp hbit => exact ⟨new, missed, h.wakeBegin_move hp hbit hlabel⟩
  | test hp =>
      refine ⟨new, missed, h.stage_move hp hbase rfl rfl rfl rfl rfl ?_⟩
      rintro ⟨hflag, -⟩ _ res
      simp [hflag]
  | read hp =>
      refine ⟨new, missed, h.stage_move hp hbase rfl rfl rfl rfl rfl ?_⟩
      rintro - rfl res
      rw [(h.base.base.waiting hp).2.1, h.word]
      simp
  | wfi hp _ => exact ⟨new, missed, h.stage_move hp hbase rfl rfl rfl rfl rfl (by simp)⟩
  | window hp => exact ⟨new, missed, h.stage_move hp hbase rfl rfl rfl rfl rfl (by simp)⟩
  | leave hp => exact ⟨new, missed, h.leave_move hp⟩
  | @count p c call res hp hres hvisit hmatch =>
      have hclear := hok call c res hp hres hvisit hmatch
      exact ⟨_, missed, h.count_move hp hres hvisit hmatch hclear⟩
  | skip hp hres hno => exact ⟨new, missed, h.skip_move hp hres hno⟩
  | finish hp hend =>
      obtain ⟨missed', h'⟩ := h.finish_move hp hend
      exact ⟨new, missed', h'⟩
  | raise hp => exact ⟨new, missed, h.raise_move hp⟩

theorem ReleaseInv.run {t : FutexSys N} {ls : List (FutexLabel N)}
    (h : ReleaseInv wcall s₀ s new missed begun) (hlabels : ∀ l ∈ ls, WakesOnly wcall l)
    (hok : Along futexStep NoRewake s ls) (hrun : exec futexStep s ls = some t) :
    ∃ new' missed', ReleaseInv wcall s₀ t new' missed' (begun + ls.countP FutexLabel.isWake) := by
  induction ls generalizing s new missed begun with
  | nil =>
      obtain rfl : s = t := by simpa using hrun
      exact ⟨new, missed, h⟩
  | cons l ls ih =>
      obtain ⟨s₁, hs₁, hrun⟩ := (exec_cons_iff futexStep).mp hrun
      obtain ⟨hl, hls⟩ := List.forall_mem_cons.mp hlabels
      obtain ⟨new₁, missed₁, h₁⟩ := h.move (futexStep_move hs₁) hl hok.1
      obtain ⟨new', missed', h'⟩ := ih h₁ hls (hok.2 s₁ hs₁) hrun
      refine ⟨new', missed', ?_⟩
      rw [List.countP_cons, Nat.add_comm (ls.countP _), ← Nat.add_assoc]
      exact h'

/-- Once no wake is in progress, as many waiters as there were wakes have been
counted, or all of them. -/
theorem ReleaseInv.length_eq (h : ReleaseInv wcall s₀ s new missed begun)
    (hquiet : ∀ p, (s.pc p).units = none) :
    new.length = min begun (waitersOn s₀ wcall.uaddr).card := by
  have hnone := zeroScans_of_quiet hquiet
  have hbalance : new.length + missed = begun := by
    have := h.balance
    rwa [hnone, Nat.add_zero] at this
  have hcard : (new.map Counted.waiter).toFinset.card = new.length := by
    rw [List.toFinset_card_of_nodup h.distinct, List.length_map]
  have hsub : (new.map Counted.waiter).toFinset ⊆ waitersOn s₀ wcall.uaddr := by
    intro p hp
    obtain ⟨e, he, rfl⟩ := List.mem_map.mp (List.mem_toFinset.mp hp)
    exact (h.origin e he).1
  have hle := Finset.card_le_card hsub
  rw [hcard] at hle
  by_cases hmissed : missed = 0
  · rw [hmissed, Nat.add_zero] at hbalance
    rw [← hbalance, Nat.min_eq_left hle]
  · have hall : waitersOn s₀ wcall.uaddr ⊆ (new.map Counted.waiter).toFinset :=
      fun p hp => List.mem_toFinset.mpr (h.covered hmissed p hp)
    have hge := Finset.card_le_card hall
    rw [hcard] at hge
    omega

/-- The counted waiters are exactly those that do not wait any longer. -/
theorem ReleaseInv.counted_iff (h : ReleaseInv wcall s₀ s new missed begun) {p : Fin N}
    (hp : p ∈ waitersOn s₀ wcall.uaddr) :
    p ∈ new.map Counted.waiter ↔ ¬ PendingIn s wcall p := by
  constructor
  · rintro hmem ⟨hflag, stage, hstage, -⟩
    obtain ⟨e, he, rfl⟩ := List.mem_map.mp hmem
    have hentry : e ∈ s.counted := by
      rw [h.counted_eq]
      exact List.mem_append_left _ he
    have hplace := h.place e.waiter
    rw [hstage] at hplace
    have hset := h.base.flag_of_entry _ wcall stage hstage e hentry rfl
      ((h.origin e he).2.trans (hplace rfl).2.symm)
    rw [hset] at hflag
    exact absurd hflag (by simp)
  · intro hnot
    by_contra hmem
    exact hnot (h.uncounted p hp hmem)

end Release

/-- In every run, the result of every wake is the number of ledger entries of that
wake, and the entries stand for different waits exactly when no scan met a wait
that was flagged already. From any state of the run in which a group of CPUs
waits for a word, `k` further wakes of one waiter each that meet no flagged wait
release `k` of them, or all. -/
theorem futex_wakes_count_distinct (present : Fin N → Bool) (word : Nat → BitVec 32)
    (pending : Fin N → Bool) (ls : List (FutexLabel N)) (s : FutexSys N)
    (hrun : exec futexStep (FutexSys.start present word pending) ls = some s) :
    (∀ r ∈ s.returned, r.res = unitsOf s r.waker r.wake) ∧
    ((s.counted.map Counted.key).Nodup ↔
      Along futexStep NoRewake (FutexSys.start present word pending) ls) ∧
    ∀ (wcall : WaitCall) (ms : List (FutexLabel N)) (t : FutexSys N), Gathered wcall s →
      (∀ l ∈ ms, WakesOnly wcall l) → Along futexStep NoRewake s ms →
      exec futexStep s ms = some t → (∀ p, (t.pc p).units = none) →
      ∃ new, t.counted = new ++ s.counted ∧
        new.length = min (ms.countP FutexLabel.isWake) (waitersOn s wcall.uaddr).card ∧
        (new.map Counted.waiter).Nodup ∧
        (∀ e ∈ new, e.waiter ∈ waitersOn s wcall.uaddr ∧ e.wait = s.waits e.waiter) ∧
        ∀ p ∈ waitersOn s wcall.uaddr,
          p ∈ new.map Counted.waiter ↔ ¬ PendingIn t wcall p := by
  have hstart := LedgerInv.start present word pending
  have hledger : LedgerInv s := hstart.run hrun
  refine ⟨((ReturnInv.start present word pending).run hrun).returned, ?_, ?_⟩
  · rw [hstart.nodup_exec hrun]
    exact and_iff_right List.nodup_nil
  · intro wcall ms t hgather hlabels hok hmore hquiet
    obtain ⟨new, missed, h⟩ := (hgather.release hledger).run hlabels hok hmore
    rw [Nat.zero_add] at h
    exact ⟨new, h.counted_eq, h.length_eq hquiet, h.distinct, h.origin,
      fun p hp => h.counted_iff hp⟩

/-- CPUs 1 and 2 begin to wait for the word 64. -/
def twoWaits : List (FutexLabel 3) :=
  [.waitBegin 1 ⟨64, 0, futexBitsetAny⟩, .waitBegin 2 ⟨64, 0, futexBitsetAny⟩]

/-- CPU 0 wakes one waiter of the word 64 and returns. -/
def oneWake : List (FutexLabel 3) :=
  [.wakeBegin 0 ⟨64, 1, futexBitsetAny⟩, .step 0, .step 0, .step 0, .step 0]

/-- Three CPUs, no call made, all words 0. -/
def threeIdle : FutexSys 3 := FutexSys.start (fun _ => true) (fun _ => 0) (fun _ => false)

/-- One wake releases one of the two waiters. -/
theorem futex_wakes_count_distinct_one : ∃ s t : FutexSys 3,
    exec futexStep threeIdle twoWaits = some s ∧ exec futexStep s oneWake = some t ∧
    ∃ new, t.counted = new ++ s.counted ∧ new.length = 1 ∧
      ∀ p ∈ waitersOn s 64, p ∈ new.map Counted.waiter ↔
        ¬ PendingIn t ⟨64, 0, futexBitsetAny⟩ p := by
  have hwaits : (exec futexStep threeIdle twoWaits).map (fun s => (s.word 64,
      (s.futex 1).wakeup || (s.futex 2).wakeup, s.pc 0, s.pc 1, s.pc 2)) =
      some (0, false, .user, .wait ⟨64, 0, futexBitsetAny⟩ .test,
        .wait ⟨64, 0, futexBitsetAny⟩ .test) := by
    decide +kernel
  have hwake : (exec futexStep threeIdle (twoWaits ++ oneWake)).map (fun t =>
      (t.counted.map Counted.key, t.pc 0, t.pc 1, t.pc 2)) =
      some ([(1, 1)], .user, .wait ⟨64, 0, futexBitsetAny⟩ .test,
        .wait ⟨64, 0, futexBitsetAny⟩ .test) := by
    decide +kernel
  obtain ⟨s, hs, hobs⟩ := Option.map_eq_some_iff.mp hwaits
  simp only [Prod.mk.injEq, Bool.or_eq_false_iff] at hobs
  obtain ⟨hword, ⟨hflag₁, hflag₂⟩, hpc₀, hpc₁, hpc₂⟩ := hobs
  obtain ⟨t, ht, hend⟩ := Option.map_eq_some_iff.mp hwake
  simp only [Prod.mk.injEq] at hend
  obtain ⟨hkeys, hend₀, hend₁, hend₂⟩ := hend
  obtain ⟨s', hs', hst⟩ := (exec_append_iff futexStep).mp ht
  obtain rfl : s' = s := Option.some.inj (hs'.symm.trans hs)
  have hgather : Gathered ⟨64, 0, futexBitsetAny⟩ s' := by
    refine ⟨hword, ?_, ?_⟩
    · intro p hp
      obtain ⟨call, stage, hwait, -⟩ := mem_waitersOn.mp hp
      match p with
      | 0 => exact absurd (hpc₀.symm.trans hwait) (by simp)
      | 1 => exact ⟨hflag₁, .test, hpc₁, by simp⟩
      | 2 => exact ⟨hflag₂, .test, hpc₂, by simp⟩
    · intro p
      match p with
      | 0 => rw [hpc₀]; rfl
      | 1 => rw [hpc₁]; rfl
      | 2 => rw [hpc₂]; rfl
  have hquiet : ∀ p, (t.pc p).units = none := by
    intro p
    match p with
    | 0 => rw [hend₀]; rfl
    | 1 => rw [hend₁]; rfl
    | 2 => rw [hend₂]; rfl
  have hok : Along futexStep NoRewake s' oneWake := by
    have hnodup : (t.counted.map Counted.key).Nodup := by
      rw [hkeys]
      decide
    exact (((LedgerInv.start _ _ _).nodup_exec ht).mp hnodup).2.append hs'
  have hlabels : ∀ l ∈ oneWake, WakesOnly ⟨64, 0, futexBitsetAny⟩ l := by
    intro l hl
    simp only [oneWake, List.mem_cons, List.not_mem_nil, or_false, or_self] at hl
    rcases hl with rfl | rfl
    · exact ⟨rfl, rfl, by decide⟩
    · trivial
  have hcard : (waitersOn s' 64).card = 2 := by
    have hset : waitersOn s' 64 = {1, 2} := by
      ext p
      match p with
      | 0 => simp [mem_waitersOn, hpc₀]
      | 1 => simp [mem_waitersOn, hpc₁]
      | 2 => simp [mem_waitersOn, hpc₂]
    rw [hset]
    rfl
  obtain ⟨new, hnew, hlength, -, -, hiff⟩ := (futex_wakes_count_distinct _ _ _ twoWaits s' hs').2.2
    ⟨64, 0, futexBitsetAny⟩ oneWake t hgather hlabels hok hst hquiet
  rw [hcard] at hlength
  exact ⟨s', t, hs', hst, new, hnew, hlength, hiff⟩

/-- The second wake of one waiter comes before the first waiter has run: both
return 1 for the same wait, and the second waiter is not woken. -/
theorem futex_wake_counts_twice : ∃ s : FutexSys 3,
    exec futexStep threeIdle (twoWaits ++ oneWake ++ oneWake) = some s ∧
    s.returned = [⟨0, 2, 1⟩, ⟨0, 1, 1⟩] ∧
    s.counted.map Counted.key = [(1, 1), (1, 1)] ∧
    (s.futex 2).wakeup = false := by
  have heval : (exec futexStep threeIdle (twoWaits ++ oneWake ++ oneWake)).map
      (fun s => (s.returned, s.counted.map Counted.key, (s.futex 2).wakeup)) =
      some ([⟨0, 2, 1⟩, ⟨0, 1, 1⟩], [(1, 1), (1, 1)], false) := by
    decide +kernel
  obtain ⟨s, hs, hobs⟩ := Option.map_eq_some_iff.mp heval
  simp only [Prod.mk.injEq] at hobs
  exact ⟨s, hs, hobs⟩

end BaremetalCrt
