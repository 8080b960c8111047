import BaremetalCrt.Device.Boot
import BaremetalCrt.Device.Find
import Mathlib.Data.Finset.Card
import Mathlib.Data.Fintype.Prod

/-!
# Progress of the probe loop

A pass that returns `-EAGAIN` and changes nothing is the start of an endless loop,
unless a callback changes its answer by itself. The states in which such a pass
starts are characterised; in all others a pass adds to the records, of which
there are only finitely many.
-/

namespace BaremetalCrt

variable {D B R : Type}

/-- The callbacks answer `-EAGAIN` only while a device that is named in the
configuration is not probed; a bus has no configuration. -/
structure AgainWhileWaiting (board : Board D B R) (conf : D → List CStr) (ops : Ops D B R) :
    Prop where
  dev : ∀ r add, ops.devAdd r = some add → ∀ d l f, add d l f = -eagain →
    ∃ name ∈ conf d, ∃ e, HasName board name e ∧ (f.dev e).probed = false
  bus : ∀ r add, ops.busAdd r = some add → ∀ b l f, add b l f ≠ -eagain

section Idle

variable [Fintype D] [Fintype R] [DecidableEq R] (board : Board D B R) (l : Links D B R)
  (ops : Ops D B R) (f : Flags D B R)

/-- A pass has nothing left to do for the device itself. -/
def DevDone (d : D) : Prop := (f.dev d).drv ≠ none ∧ (f.dev d).probed = true

/-- A pass can do nothing for the device: there is no driver for it, or the callback
answers `-EAGAIN`. -/
def DevBlocked (d : D) : Prop :=
  ((f.dev d).drv = none ∧ matchDriver board l (board.devType d) = none) ∨
    ((f.dev d).probed = false ∧ ∃ r add, (f.dev d).drv = some r ∧ ops.devAdd r = some add ∧
      add d l f = -eagain)

/-- A pass has nothing left to do for the bus itself, which can do without a driver. -/
def BusDone (b : B) : Prop :=
  ((f.bus b).drv ≠ none ∧ (f.bus b).probed = true) ∨
    ((f.bus b).drv = none ∧ matchDriver board l (board.busType b) = none)

/-- The devices that a pass comes to from a device if it changes nothing. -/
inductive Met : D → D → Prop
  | self (d : D) : Met d d
  | child {d c e : D} {b : B} (hd : DevDone f d) (hb : l.busChild d = some b)
      (hdone : BusDone board l f b) (hc : c ∈ l.children b) (he : Met c e) : Met d e

/-- Nothing is left to do for the device and for its bus. -/
def Rests (d : D) : Prop := DevDone f d ∧ ∀ b, l.busChild d = some b → BusDone board l f b

/-- A pass can change nothing, and some device is not probed. -/
def Stuck : Prop :=
  (∀ e, Met board l f board.devRoot e → Rests board l f e ∨ DevBlocked board l ops f e) ∧
    ∃ e, Met board l f board.devRoot e ∧ DevBlocked board l ops f e

end Idle

/-- At least one device is probed, driver attached or device failed that was not before. -/
def Progress (f f' : Flags D B R) : Prop :=
  (∃ d, (f.dev d).probed = false ∧ (f'.dev d).probed = true) ∨
    (∃ d, (f.dev d).drv = none ∧ (f'.dev d).drv ≠ none) ∨
    (∃ b, (f.bus b).drv = none ∧ (f'.bus b).drv ≠ none) ∨
    ∃ d, (f.dev d).failed = false ∧ (f'.dev d).failed = true

/-- The states in which the passes of the loop start. -/
inductive PassStart [Fintype D] [Fintype B] [Fintype R] [DecidableEq D] [DecidableEq B]
    [DecidableEq R] (board : Board D B R) (l : Links D B R) (env : Nat → Ops D B R) :
    Nat → ProbeState D B R → Prop
  | first : PassStart board l env 0 ProbeState.initial
  | next {k : Nat} {s s' : ProbeState D B R} (hs : PassStart board l env k s)
      (hpass : probePass board l (env k) s = some (s', -eagain)) : PassStart board l env (k + 1) s'

/-- A bus is attached and probed at once, and none has failed. -/
def BusesOk (f : Flags D B R) : Prop :=
  ∀ b, ((f.bus b).drv ≠ none ↔ (f.bus b).probed = true) ∧ (f.bus b).failed = false

section Records

variable {f f' g : Flags D B R} {n n' : NodeFlags R}

theorem NodeFlags.Le.antisymm (h : n.Le n') (h' : n'.Le n) : n = n' := by
  apply NodeFlags.ext
  · cases hn : n.drv with
    | some r => exact (h.drv r hn).symm
    | none =>
        cases hn' : n'.drv with
        | some r => exact hn.symm.trans (h'.drv r hn')
        | none => rfl
  · exact Bool.eq_iff_iff.mpr ⟨h.probed, h'.probed⟩
  · exact Bool.eq_iff_iff.mpr ⟨h.failed, h'.failed⟩

theorem Flags.Le.antisymm (h : f.Le f') (h' : f'.Le f) : f = f' :=
  Flags.ext (funext fun d => (h.dev d).antisymm (h'.dev d))
    (funext fun b => (h.bus b).antisymm (h'.bus b))

/-- What lies between equal records is equal to them. -/
theorem Flags.Le.squeeze (h : f.Le g) (h' : g.Le f') (heq : f' = f) : g = f := by
  rw [heq] at h'
  exact h'.antisymm h

theorem NodeFlags.attach_of_ne_none (found : Option R) (h : n.drv ≠ none) :
    n.attach found = n := by
  unfold NodeFlags.attach
  split
  · rename_i hnone
    exact absurd hnone h
  · rfl

theorem NodeFlags.attach_none (n : NodeFlags R) : n.attach none = n := by
  unfold NodeFlags.attach
  split
  · rename_i hnone
    rw [← hnone]
  · rfl

theorem NodeFlags.attach_drv_eq_none {found : Option R} :
    (n.attach found).drv = none ↔ n.drv = none ∧ found = none := by
  cases hdrv : n.drv with
  | none => simp [NodeFlags.attach, hdrv]
  | some r => simp [NodeFlags.attach, hdrv]

theorem NodeFlags.probe_of_probed {answer : Option Int} (h : n.probed = true) :
    n.probe answer = (n, 0) := by
  unfold NodeFlags.probe
  rw [if_pos h]

theorem NodeFlags.probe_again (h : n.probed = false) :
    n.probe (some (-eagain)) = (n, -eagain) := by
  unfold NodeFlags.probe
  rw [if_neg (Bool.eq_false_iff.mp h)]
  rfl

/-- Nothing was attached if the record is as before in the end. -/
theorem NodeFlags.attach_of_probe {answer : Option Int} {found : Option R}
    (h : ((n.attach found).probe answer).1 = n) : n.attach found = n := by
  have hprobe := NodeFlags.le_probe answer (n.attach found)
  rw [h] at hprobe
  exact hprobe.antisymm (NodeFlags.le_attach found n)

/-- Only an unprobed node whose callback answers so is delayed. -/
theorem NodeFlags.probe_eq_again {answer : Option Int} (h : (n.probe answer).2 = -eagain) :
    n.probed = false ∧ answer = some (-eagain) := by
  unfold NodeFlags.probe at h
  split at h
  · exact absurd (show (0 : Int) = -eagain from h) (by decide)
  · rename_i hprobed
    refine ⟨Bool.eq_false_iff.mpr hprobed, ?_⟩
    split at h
    · exact absurd (show (0 : Int) = -eagain from h) (by decide)
    · split at h
      · exact absurd (show (0 : Int) = -eagain from h) (by decide)
      · split at h
        · rename_i hagain
          rw [hagain]
        · rename_i hne
          exact absurd h hne

theorem NodeFlags.attach_failed {found : Option R} : (n.attach found).failed = n.failed := by
  unfold NodeFlags.attach
  split
  · rfl
  · rfl

end Records

section Starts

variable [Fintype R] [DecidableEq D] [DecidableEq B] [DecidableEq R] {board : Board D B R}
  {l : Links D B R} {ops : Ops D B R} {s s' : ProbeState D B R} {conf : D → List CStr}

omit [DecidableEq B] in
theorem deviceStart_of_done (board : Board D B R) (l : Links D B R) (ops : Ops D B R) {d : D}
    (h : DevDone s.flags d) : deviceStart board l ops d s = (s, 0) := by
  obtain ⟨r, hr⟩ := Option.ne_none_iff_exists'.mp h.1
  simp [deviceStart, NodeFlags.attach_of_ne_none _ h.1, hr, NodeFlags.probe_of_probed h.2, h.2]

omit [DecidableEq B] in
theorem deviceStart_of_blocked {d : D} (h : DevBlocked board l ops s.flags d) :
    (deviceStart board l ops d s).1.flags = s.flags ∧
      (deviceStart board l ops d s).2 = -eagain := by
  rcases h with ⟨hnone, hmatch⟩ | ⟨hprobed, r, add, hr, hadd, hagain⟩
  · simp [deviceStart, hmatch, NodeFlags.attach_none, hnone]
  · have hattach := NodeFlags.attach_of_ne_none (matchDriver board l (board.devType d))
      (hr ▸ Option.some_ne_none r)
    simp [deviceStart, hattach, hr, hadd, hagain, NodeFlags.probe_again hprobed]

omit [DecidableEq B] in
/-- A start of a device that changes nothing. -/
theorem deviceStart_idle {d : D} (h : (deviceStart board l ops d s).1.flags = s.flags) :
    ((deviceStart board l ops d s).2 = 0 → DevDone s.flags d) ∧
      ((deviceStart board l ops d s).2 = -eagain → DevBlocked board l ops s.flags d) := by
  simp only [deviceStart] at h ⊢
  split at h
  · rename_i hnone
    refine ⟨fun hr => absurd (show -eagain = 0 from hr) (by decide), fun _ => Or.inl ?_⟩
    exact NodeFlags.attach_drv_eq_none.mp hnone
  · rename_i r hr
    have hafter := congrArg (fun f : Flags D B R => f.dev d) h
    simp only [Flags.setDev_dev] at hafter
    have hkeep := NodeFlags.attach_of_probe hafter
    simp only [hkeep, Flags.setDev_self] at hr hafter ⊢
    constructor
    · intro hzero
      have hprobed := NodeFlags.probed_of_probe hzero
      rw [hafter] at hprobed
      exact ⟨hr ▸ Option.some_ne_none r, hprobed⟩
    · intro hagain
      obtain ⟨hprobed, hanswer⟩ := NodeFlags.probe_eq_again hagain
      obtain ⟨add, hadd, heq⟩ := Option.map_eq_some_iff.mp hanswer
      exact Or.inr ⟨hprobed, r, add, hr, hadd, heq⟩

omit [DecidableEq D] in
theorem busStart_of_done (ops : Ops D B R) {b : B} (h : BusDone board l s.flags b) :
    busStart board l ops b s = (s, 0) := by
  rcases h with ⟨hdrv, hprobed⟩ | ⟨hnone, hmatch⟩
  · obtain ⟨r, hr⟩ := Option.ne_none_iff_exists'.mp hdrv
    simp [busStart, NodeFlags.attach_of_ne_none _ hdrv, hr, NodeFlags.probe_of_probed hprobed]
  · simp [busStart, hmatch, NodeFlags.attach_none, hnone]

omit [DecidableEq D] in
/-- A start of a bus that changes nothing. -/
theorem busStart_idle {b : B} (h : (busStart board l ops b s).1.flags = s.flags)
    (hzero : (busStart board l ops b s).2 = 0) : BusDone board l s.flags b := by
  simp only [busStart] at h hzero
  split at h
  · rename_i hnone
    exact Or.inr (NodeFlags.attach_drv_eq_none.mp hnone)
  · rename_i r hr
    simp only [hr] at hzero
    have hafter := congrArg (fun f : Flags D B R => f.bus b) h
    simp only [Flags.setBus_bus] at hafter
    have hprobed := NodeFlags.probed_of_probe hzero
    have hkeep := NodeFlags.attach_of_probe hafter
    refine Or.inl ⟨?_, ?_⟩
    · rw [← hkeep, hr]
      exact Option.some_ne_none r
    · rw [← hafter]
      exact hprobed

omit [DecidableEq D] in
theorem busStart_ne_again (hops : AgainWhileWaiting board conf ops) (b : B)
    (s : ProbeState D B R) : (busStart board l ops b s).2 ≠ -eagain := by
  simp only [busStart]
  split
  · exact (by decide : (0 : Int) ≠ -eagain)
  · intro hagain
    obtain ⟨-, hanswer⟩ := NodeFlags.probe_eq_again hagain
    obtain ⟨add, hadd, heq⟩ := Option.map_eq_some_iff.mp hanswer
    exact hops.bus _ add hadd _ _ _ heq

omit [DecidableEq D] in
/-- A start without an error keeps the buses in order. -/
theorem busesOk_busStart (hops : AgainWhileWaiting board conf ops) {b : B}
    (herr : isError (busStart board l ops b s).2 = false) (h : BusesOk s.flags) :
    BusesOk (busStart board l ops b s).1.flags := by
  have hzero := (isError_eq_false_iff.mp herr).resolve_right (busStart_ne_again hops b s)
  intro c
  simp only [busStart] at hzero ⊢
  split at hzero
  · rename_i hnone
    obtain ⟨hdrv, hfound⟩ := NodeFlags.attach_drv_eq_none.mp hnone
    simp only [hfound, NodeFlags.attach_none, Flags.setBus_self]
    exact h c
  · rename_i r hr
    by_cases hcb : c = b
    · subst c
      simp only [Flags.setBus_bus, NodeFlags.probe_of_zero hzero, NodeFlags.attach_failed, hr]
      exact ⟨by simp, (h b).2⟩
    · simp only [Flags.setBus_bus_of_ne _ _ _ hcb]
      exact h c

end Starts

section Idleness

variable [Fintype D] [Fintype R] [DecidableEq D] [DecidableEq B] [DecidableEq R]
  {board : Board D B R} {l : Links D B R} {ops : Ops D B R} {f : Flags D B R}
  {s s' : ProbeState D B R} {conf : D → List CStr}

omit [Fintype D] [DecidableEq D] [DecidableEq B] in
theorem DevBlocked.not_done {d : D} (h : DevBlocked board l ops f d) : ¬ DevDone f d := by
  rintro ⟨hdrv, hprobed⟩
  rcases h with ⟨hnone, -⟩ | ⟨hfalse, -⟩
  · exact hdrv hnone
  · exact absurd (hprobed.symm.trans hfalse) (by simp)

/-- In a loop that changes nothing and has no error, the calls for the devices are
such calls, and a delay comes from one of them. -/
theorem probeLoop_idle {n : Nat} {ds : List D} {r e : Int}
    (h : probeLoop (deviceProbe board l ops n) ds s r = some (s', e)) (herr : isError e = false)
    (hs : s.flags = f) (hs' : s'.flags = f) :
    (∀ c ∈ ds, ∃ t t' e', deviceProbe board l ops n c t = some (t', e') ∧ isError e' = false ∧
      t.flags = f ∧ t'.flags = f) ∧
    (e = -eagain → r = -eagain ∨ ∃ c ∈ ds, ∃ t t',
      deviceProbe board l ops n c t = some (t', -eagain) ∧ t.flags = f ∧ t'.flags = f) := by
  induction ds generalizing s r with
  | nil =>
      obtain ⟨-, rfl⟩ := Prod.mk.inj (Option.some.inj h)
      exact ⟨fun _ hc => absurd hc List.not_mem_nil, Or.inl⟩
  | cons d ds ih =>
      obtain ⟨s₁, e₁, hd, hok, h⟩ := probeLoop_cons h herr
      have hs₁ : s₁.flags = f :=
        hs ▸ (deviceProbe_le hd hok).squeeze (probeLoop_le h herr) (hs'.trans hs.symm)
      obtain ⟨hall, hagain⟩ := ih h hs₁
      constructor
      · intro c hc
        rcases List.mem_cons.mp hc with rfl | hc
        · exact ⟨s, s₁, e₁, hd, hok, hs, hs₁⟩
        · exact hall c hc
      · intro he
        rcases hagain he with hacc | ⟨c, hc, hcall⟩
        · by_cases he₁ : e₁ = -eagain
          · exact Or.inr ⟨d, List.mem_cons_self, s, s₁, he₁ ▸ hd, hs, hs₁⟩
          · rw [if_neg he₁] at hacc
            exact Or.inl hacc
        · exact Or.inr ⟨c, List.mem_cons_of_mem d hc, hcall⟩

/-- A walk that changes nothing and has no error has found everything done or
blocked, and something blocked if it returns `-EAGAIN`. -/
theorem deviceProbe_idle (hops : AgainWhileWaiting board conf ops) {n : Nat} {d : D} {r : Int}
    (h : deviceProbe board l ops n d s = some (s', r)) (herr : isError r = false)
    (hs : s.flags = f) (hs' : s'.flags = f) :
    (∀ e, Met board l f d e → Rests board l f e ∨ DevBlocked board l ops f e) ∧
      (r = -eagain → ∃ e, Met board l f d e ∧ DevBlocked board l ops f e) := by
  induction n generalizing d s s' r with
  | zero => exact absurd h (by simp [deviceProbe])
  | succ n ih =>
      rcases deviceProbe_cases h with ⟨heq, hnone⟩ | ⟨b, hzero, hb, h⟩
      · have hflags : (deviceStart board l ops d s).1.flags = s.flags := by
          rw [heq]
          exact hs'.trans hs.symm
        have hidle := deviceStart_idle hflags
        rw [heq, hs] at hidle
        rcases isError_eq_false_iff.mp herr with rfl | rfl
        · have hdone := hidle.1 rfl
          refine ⟨fun e he => Or.inl ?_, fun hr => absurd hr (by decide)⟩
          cases he with
          | self => exact ⟨hdone, fun b hb => absurd ((hnone rfl).symm.trans hb) (by simp)⟩
          | child _ hb _ _ _ => exact absurd ((hnone rfl).symm.trans hb) (by simp)
        · have hblocked := hidle.2 rfl
          refine ⟨fun e he => Or.inr ?_, fun _ => ⟨d, Met.self d, hblocked⟩⟩
          cases he with
          | self => exact hblocked
          | child hd _ _ _ _ => exact absurd hd hblocked.not_done
      · have hstart := (deviceStart_le board l ops d s).squeeze (busProbe_le h herr)
          (hs'.trans hs.symm)
        have hdone := (deviceStart_idle hstart).1 hzero
        rcases busProbe_cases h with ⟨heq, hne⟩ | ⟨hbzero, h⟩
        · -- the callbacks of buses do not delay
          have hagain := (isError_eq_false_iff.mp herr).resolve_left hne
          exact absurd ((congrArg Prod.snd heq).trans hagain) (busStart_ne_again hops _ _)
        · have hbus := (busStart_le board l ops b _).squeeze (probeLoop_le h herr)
            ((hs'.trans hs.symm).trans hstart.symm)
          have hbdone := busStart_idle hbus hbzero
          rw [hstart, hs] at hbdone
          rw [hs] at hdone
          obtain ⟨hall, hagain⟩ := probeLoop_idle h herr ((hbus.trans hstart).trans hs) hs'
          constructor
          · intro e he
            cases he with
            | self =>
                refine Or.inl ⟨hdone, fun b' hb' => ?_⟩
                obtain rfl := Option.some.inj (hb.symm.trans hb')
                exact hbdone
            | @child _ c _ b' _ hb' _ hc he =>
                obtain rfl := Option.some.inj (hb.symm.trans hb')
                obtain ⟨t, t', e', hcall, hok, ht, ht'⟩ := hall c hc
                exact (ih hcall hok ht ht').1 e he
          · intro hr
            rcases hagain hr with hzero | ⟨c, hc, t, t', hcall, ht, ht'⟩
            · exact absurd hzero (by decide)
            · obtain ⟨e, he, hblocked⟩ := (ih hcall rfl ht ht').2 rfl
              exact ⟨e, Met.child hdone hb hbdone hc he, hblocked⟩

omit [Fintype D] [Fintype R] [DecidableEq D] [DecidableEq B] [DecidableEq R] in
theorem probeLoop_of_idle {P : D → Prop}
    {probe : D → ProbeState D B R → Option (ProbeState D B R × Int)} {ds : List D}
    (hprobe : ∀ c ∈ ds, ∀ t t' e, t.flags = f → probe c t = some (t', e) →
      t'.flags = f ∧ isError e = false ∧ (P c → e = -eagain))
    {r e : Int} (hs : s.flags = f) (hr : isError r = false)
    (h : probeLoop probe ds s r = some (s', e)) :
    s'.flags = f ∧ isError e = false ∧ ((r = -eagain ∨ ∃ c ∈ ds, P c) → e = -eagain) := by
  induction ds generalizing s r with
  | nil =>
      obtain ⟨rfl, rfl⟩ := Prod.mk.inj (Option.some.inj h)
      refine ⟨hs, hr, ?_⟩
      rintro (hagain | ⟨c, hc, -⟩)
      · exact hagain
      · exact absurd hc List.not_mem_nil
  | cons d ds ih =>
      obtain ⟨⟨s₁, e₁⟩, hd, h⟩ := Option.bind_eq_some_iff.mp h
      obtain ⟨hs₁, hok, hwait⟩ := hprobe d List.mem_cons_self s s₁ e₁ hs hd
      simp only [hok, Bool.false_eq_true, if_false] at h
      have hacc : isError (if e₁ = -eagain then -eagain else r) = false := by
        split
        · rfl
        · exact hr
      obtain ⟨hs', he, hagain⟩ := ih (fun c hc => hprobe c (List.mem_cons_of_mem d hc)) hs₁ hacc h
      refine ⟨hs', he, fun hsome => hagain ?_⟩
      by_cases he₁ : e₁ = -eagain
      · exact Or.inl (if_pos he₁)
      · rw [if_neg he₁]
        refine hsome.imp_right ?_
        rintro ⟨c, hc, hP⟩
        rcases List.mem_cons.mp hc with rfl | hc
        · exact absurd (hwait hP) he₁
        · exact ⟨c, hc, hP⟩

/-- A walk that comes to done and blocked devices only changes nothing, and it
returns `-EAGAIN` if it comes to a blocked one. -/
theorem deviceProbe_of_idle {n : Nat} {d : D} {r : Int} (hs : s.flags = f)
    (hidle : ∀ e, Met board l f d e → Rests board l f e ∨ DevBlocked board l ops f e)
    (h : deviceProbe board l ops n d s = some (s', r)) :
    s'.flags = f ∧ isError r = false ∧
      ((∃ e, Met board l f d e ∧ DevBlocked board l ops f e) → r = -eagain) := by
  induction n generalizing d s s' r with
  | zero => exact absurd h (by simp [deviceProbe])
  | succ n ih =>
      subst f
      rcases hidle d (Met.self d) with ⟨hdone, hbdone⟩ | hblocked
      · have hstart := deviceStart_of_done board l ops hdone
        rcases deviceProbe_cases h with ⟨heq, hnone⟩ | ⟨b, -, hb, h⟩
        · obtain ⟨rfl, rfl⟩ := Prod.mk.inj (hstart.symm.trans heq)
          refine ⟨rfl, rfl, ?_⟩
          rintro ⟨e, he, hblocked⟩
          cases he with
          | self => exact absurd hdone hblocked.not_done
          | child _ hb _ _ _ => exact absurd ((hnone rfl).symm.trans hb) (by simp)
        · rw [hstart] at h
          have hbstart := busStart_of_done ops (hbdone b hb)
          rcases busProbe_cases h with ⟨heq, hne⟩ | ⟨-, h⟩
          · exact absurd (congrArg Prod.snd (heq.symm.trans hbstart)) hne
          · rw [hbstart] at h
            obtain ⟨hs', herr, hagain⟩ := probeLoop_of_idle
              (P := fun c => ∃ e, Met board l s.flags c e ∧ DevBlocked board l ops s.flags e)
              (fun c hc t t' e ht hcall => ih ht
                (fun x hx => hidle x (Met.child hdone hb (hbdone b hb) hc hx)) hcall)
              rfl rfl h
            refine ⟨hs', herr, ?_⟩
            rintro ⟨e, he, hblocked⟩
            cases he with
            | self => exact absurd hdone hblocked.not_done
            | @child _ c _ b' _ hb' _ hc he =>
                obtain rfl := Option.some.inj (hb.symm.trans hb')
                exact hagain (Or.inr ⟨c, hc, e, he, hblocked⟩)
      · obtain ⟨hflags, hagain⟩ := deviceStart_of_blocked hblocked
        rcases deviceProbe_cases h with ⟨heq, -⟩ | ⟨b, hzero, -⟩
        · rw [heq] at hflags hagain
          dsimp only at hflags hagain
          rw [hagain]
          exact ⟨hflags, rfl, fun _ => rfl⟩
        · exact absurd (hagain.symm.trans hzero) (by decide)

variable [Fintype B]

/-- A pass changes nothing and returns `-EAGAIN` exactly in the stuck states. -/
theorem probePass_stuck_iff (hl : LinksInv board l) (hops : AgainWhileWaiting board conf ops)
    (s : ProbeState D B R) :
    (∃ s', probePass board l ops s = some (s', -eagain) ∧ s'.flags = s.flags) ↔
      Stuck board l ops s.flags := by
  constructor
  · rintro ⟨s', h, hs'⟩
    obtain ⟨hall, hsome⟩ := deviceProbe_idle hops h rfl rfl hs'
    exact ⟨hall, hsome rfl⟩
  · rintro ⟨hall, hsome⟩
    have htotal := kDeviceProbeAll_isSome ops hl true s
    obtain ⟨⟨s', r⟩, h⟩ := Option.isSome_iff_exists.mp htotal
    obtain ⟨hs', -, hagain⟩ := deviceProbe_of_idle rfl hall h
    rw [hagain hsome] at h
    exact ⟨s', h, hs'⟩

end Idleness

/-- What probing can record about a device or a bus. -/
inductive RecordKind
  | attached
  | probed
  | failed
  deriving DecidableEq

instance : Fintype RecordKind where
  elems := {.attached, .probed, .failed}
  complete := fun k => by cases k <;> decide

def NodeFlags.has (n : NodeFlags R) : RecordKind → Bool
  | .attached => n.drv.isSome
  | .probed => n.probed
  | .failed => n.failed

/-- The record of a device or of a bus. -/
def Flags.node (f : Flags D B R) : D ⊕ B → NodeFlags R := Sum.elim f.dev f.bus

/-- Everything that is recorded. -/
def Flags.support [Fintype D] [Fintype B] (f : Flags D B R) : Finset ((D ⊕ B) × RecordKind) :=
  Finset.univ.filter fun p => (f.node p.1).has p.2

section Measure

variable {board : Board D B R} {l : Links D B R} {env : Nat → Ops D B R} {conf : D → List CStr}
  {f f' : Flags D B R} {n n' : NodeFlags R}

@[simp] theorem Flags.mem_support [Fintype D] [Fintype B] {x : D ⊕ B} {k : RecordKind} :
    (x, k) ∈ f.support ↔ (f.node x).has k = true := by
  simp [Flags.support]

theorem Flags.support_card_le [Fintype D] [Fintype B] (f : Flags D B R) :
    f.support.card ≤ Fintype.card ((D ⊕ B) × RecordKind) :=
  Finset.card_le_univ _

theorem Flags.Le.node (h : f.Le f') (x : D ⊕ B) : (f.node x).Le (f'.node x) := by
  cases x with
  | inl d => exact h.dev d
  | inr b => exact h.bus b

theorem NodeFlags.Le.has (h : n.Le n') {k : RecordKind} (hk : n.has k = true) :
    n'.has k = true := by
  cases k with
  | attached =>
      obtain ⟨r, hr⟩ := Option.isSome_iff_exists.mp hk
      exact Option.isSome_iff_exists.mpr ⟨r, h.drv r hr⟩
  | probed => exact h.probed hk
  | failed => exact h.failed hk

/-- A record that holds no more than a part of it is that part. -/
theorem NodeFlags.Le.eq_of_has (h : n.Le n') (hhas : ∀ k, n'.has k = true → n.has k = true) :
    n = n' := by
  refine h.antisymm ⟨fun r hr => ?_, hhas .probed, hhas .failed⟩
  have hsome : n'.drv.isSome = true := Option.isSome_iff_exists.mpr ⟨r, hr⟩
  obtain ⟨r', hr'⟩ := Option.isSome_iff_exists.mp (hhas .attached hsome)
  rw [hr', ← h.drv r' hr', hr]

theorem Flags.Le.support_subset [Fintype D] [Fintype B] (h : f.Le f') : f.support ⊆ f'.support := by
  rintro ⟨x, k⟩ hmem
  rw [Flags.mem_support] at hmem ⊢
  exact (h.node x).has hmem

/-- Records that grow and change grow in number. -/
theorem Flags.Le.card_lt [Fintype D] [Fintype B] (h : f.Le f') (hne : f' ≠ f) :
    f.support.card < f'.support.card := by
  apply Finset.card_lt_card
  apply Finset.ssubset_iff_subset_ne.mpr
  refine ⟨h.support_subset, fun heq => hne ?_⟩
  have hnode : ∀ x, f.node x = f'.node x := by
    intro x
    apply (h.node x).eq_of_has
    intro k hk
    rw [← Flags.mem_support, heq]
    exact Flags.mem_support.mpr hk
  exact Flags.ext (funext fun d => (hnode (.inl d)).symm) (funext fun b => (hnode (.inr b)).symm)

/-- With the buses in order, a change of the records is progress. -/
theorem progress_of_ne (h : f.Le f') (hne : f' ≠ f) (hf : BusesOk f) (hf' : BusesOk f') :
    Progress f f' := by
  by_contra hno
  simp only [Progress, not_or, not_exists, not_and, ne_eq, not_not] at hno
  obtain ⟨hprobed, hdrv, hbus, hfailed⟩ := hno
  have hbdrv : ∀ b, (f'.bus b).drv ≠ none → (f.bus b).drv ≠ none :=
    fun b hb hnone => hb (hbus b hnone)
  -- a record that is new would be progress of its kind
  have hold : ∀ {n n' : NodeFlags R}, n.Le n' → (n.drv = none → n'.drv = none) →
      (n'.probed = true → n.probed = true) → (n'.failed = true → n.failed = true) → n'.Le n := by
    intro n n' hle hnone hp hq
    refine ⟨fun r hr => ?_, hp, hq⟩
    cases hn : n.drv with
    | none => exact absurd ((hnone hn).symm.trans hr) (by simp)
    | some r' => rw [← hr, hle.drv r' hn]
  apply hne
  refine Flags.Le.antisymm ⟨fun d => ?_, fun b => ?_⟩ h
  · apply hold (h.dev d) (hdrv d)
    · intro hp
      by_contra hcontra
      exact hprobed d (Bool.eq_false_iff.mpr hcontra) hp
    · intro hq
      by_contra hcontra
      exact hfailed d (Bool.eq_false_iff.mpr hcontra) hq
  · apply hold (h.bus b) (hbus b)
    · intro hp
      exact (hf b).1.mp (hbdrv b ((hf' b).1.mpr hp))
    · intro hq
      exact absurd ((hf' b).2.symm.trans hq) (by simp)

variable [Fintype D] [Fintype B] [Fintype R] [DecidableEq D] [DecidableEq B] [DecidableEq R]

theorem busesOk_probePass {ops : Ops D B R} (hops : AgainWhileWaiting board conf ops)
    {s s' : ProbeState D B R} {r : Int} (h : probePass board l ops s = some (s', r))
    (herr : isError r = false) : BusesOk s.flags → BusesOk s'.flags := by
  refine deviceProbe_rel (Q := fun s s' => BusesOk s.flags → BusesOk s'.flags) (fun _ => id)
    (fun _ _ _ hst htu => htu ∘ hst) ?_ ?_ h herr
  · intro e _ s _ hs
    have hbus : (deviceStart board l ops e s).1.flags.bus = s.flags.bus :=
      deviceStart_bus board l ops e s
    unfold BusesOk
    rw [hbus]
    exact hs
  · intro b s hok
    exact busesOk_busStart hops hok

theorem PassStart.busesOk (henv : ∀ k, AgainWhileWaiting board conf (env k)) {k : Nat}
    {s : ProbeState D B R} (h : PassStart board l env k s) : BusesOk s.flags := by
  induction h with
  | first => exact fun b => ⟨by simp [ProbeState.initial], rfl⟩
  | next _ hpass ih => exact busesOk_probePass (henv _) hpass rfl ih

/-- A pass that starts in no stuck state and returns `-EAGAIN` changes the records. -/
theorem probePass_ne (hl : LinksInv board l) {ops : Ops D B R}
    (hops : AgainWhileWaiting board conf ops) {s s' : ProbeState D B R}
    (hpass : probePass board l ops s = some (s', -eagain)) (hfree : ¬ Stuck board l ops s.flags) :
    s'.flags ≠ s.flags :=
  fun heq => hfree ((probePass_stuck_iff hl hops s).mp ⟨s', hpass, heq⟩)

theorem initLoop_isSome (hl : LinksInv board l) (henv : ∀ k, AgainWhileWaiting board conf (env k))
    (hfree : ∀ k s, PassStart board l env k s → ¬ Stuck board l (env k) s.flags) {n k : Nat}
    {s : ProbeState D B R} (hs : PassStart board l env k s)
    (hn : Fintype.card ((D ⊕ B) × RecordKind) < s.flags.support.card + n) (res : Int) :
    (initLoop board l env n k s res).isSome := by
  induction n generalizing k s with
  | zero =>
      have hle := s.flags.support_card_le
      omega
  | succ n ih =>
      have htotal := kDeviceProbeAll_isSome (env k) hl true s
      obtain ⟨⟨s', r⟩, hpass⟩ := Option.isSome_iff_exists.mp htotal
      have hpass : probePass board l (env k) s = some (s', r) := hpass
      simp only [initLoop, hpass, Option.bind_some]
      split
      · rfl
      · split
        · rename_i hagain
          rw [hagain] at hpass
          have hne := probePass_ne hl (henv k) hpass (hfree k s hs)
          have hlt := (deviceProbe_le hpass rfl).card_lt hne
          exact ih (PassStart.next hs hpass) (by omega)
        · rfl

end Measure

variable [Fintype D] [Fintype B] [Fintype R] [DecidableEq D] [DecidableEq B] [DecidableEq R]

/-- The probe loop ends, and every pass of it that returns `-EAGAIN` makes progress,
exactly when no pass starts in a stuck state. -/
theorem init_drivers_terminates_iff (board : Board D B R) (conf : D → List CStr)
    (env : Nat → Ops D B R) (henv : ∀ k, AgainWhileWaiting board conf (env k))
    (initcalls : List (Initcall D B R))
    (hroot : ∀ dev parent, AddCall.device dev parent ∈ initcalls.flatMap (·.calls) →
      dev ≠ some board.devRoot) :
    ((∃ n, (initDrivers board env n initcalls).isSome) ∧
      ∀ k s s', PassStart board (bootLinks board initcalls) env k s →
        probePass board (bootLinks board initcalls) (env k) s = some (s', -eagain) →
          Progress s.flags s'.flags) ↔
    ∀ k s, PassStart board (bootLinks board initcalls) env k s →
      ¬ Stuck board (bootLinks board initcalls) (env k) s.flags := by
  have hl := (built_linkAll Built.empty hroot).inv
  obtain ⟨res, hres⟩ := initDrivers_eq board env initcalls
  constructor
  · rintro ⟨-, hprogress⟩ k s hs hstuck
    obtain ⟨s', hpass, heq⟩ := (probePass_stuck_iff hl (henv k) s).mpr hstuck
    have hmore := hprogress k s s' hs hpass
    rw [heq] at hmore
    rcases hmore with ⟨d, hno, hyes⟩ | ⟨d, hno, hyes⟩ | ⟨b, hno, hyes⟩ | ⟨d, hno, hyes⟩
    · exact absurd (hno.symm.trans hyes) (by simp)
    · exact hyes hno
    · exact hyes hno
    · exact absurd (hno.symm.trans hyes) (by simp)
  · intro hfree
    constructor
    · refine ⟨Fintype.card ((D ⊕ B) × RecordKind) + 1, ?_⟩
      rw [hres, Option.isSome_map]
      exact initLoop_isSome hl henv hfree PassStart.first (by omega) res
    · intro k s s' hs hpass
      have hok := hs.busesOk henv
      have hne := probePass_ne hl (henv k) hpass (hfree k s hs)
      have hok' := busesOk_probePass (henv k) hpass rfl hok
      exact progress_of_ne (deviceProbe_le hpass rfl) hne hok hok'

/-- With callbacks that do not change by themselves, a stuck state is never left. -/
theorem initLoop_of_stuck {board : Board D B R} {l : Links D B R} {ops : Ops D B R}
    {conf : D → List CStr} (hl : LinksInv board l) (hops : AgainWhileWaiting board conf ops)
    {s : ProbeState D B R} (hstuck : Stuck board l ops s.flags) (n k : Nat) (res : Int) :
    initLoop board l (fun _ => ops) n k s res = none := by
  induction n generalizing k s with
  | zero => rfl
  | succ n ih =>
      obtain ⟨s', hpass, heq⟩ := (probePass_stuck_iff hl hops s).mpr hstuck
      have hloop : initLoop board l (fun _ => ops) (n + 1) k s res =
          initLoop board l (fun _ => ops) n (k + 1) s' res := by
        simp only [initLoop, hpass, Option.bind_some]
        rfl
      rw [hloop]
      apply ih
      rw [heq]
      exact hstuck

/-- A board with a device 1 on the root bus. Driver 1 is for the root device and the
root bus, driver 2 for device 1. -/
def orphanBoard : Board (Fin 2) (Fin 1) (Fin 3) where
  devRoot := 0
  busRoot := 0
  head := 0
  devName := fun _ => some (CStr.ofChars "dev".toList)
  devType := fun d => ⟨CStr.ofChars "none".toList,
    if d = 0 then CStr.ofChars "root".toList else CStr.ofChars "uart".toList⟩
  busName := fun _ => some (CStr.ofChars "bus".toList)
  busType := fun _ => ⟨CStr.ofChars "none".toList, CStr.ofChars "root".toList⟩
  drvType := fun r => some ⟨CStr.ofChars "none".toList,
    match r with
    | 0 => CStr.ofChars "none".toList
    | 1 => CStr.ofChars "root".toList
    | 2 => CStr.ofChars "uart".toList⟩
  busRoot_named := bus_named

/-- No driver has a callback. -/
def silentOps : Ops (Fin 2) (Fin 1) (Fin 3) := ⟨fun _ => none, fun _ => none⟩

/-- The initialisation functions of that board, with the given drivers. -/
def orphanInitcalls (drvs : List (Fin 3)) : List (Initcall (Fin 2) (Fin 1) (Fin 3)) :=
  [⟨[.bus (some 0) (some 0), .device (some 1) (some 0)], 0⟩, ⟨drvs.map .driver, 0⟩]

theorem silentOps_again (board : Board (Fin 2) (Fin 1) (Fin 3)) (conf : Fin 2 → List CStr) :
    AgainWhileWaiting board conf silentOps :=
  ⟨fun _ _ h => absurd h (Option.some_ne_none _ ∘ Eq.symm),
    fun _ _ h => absurd h (Option.some_ne_none _ ∘ Eq.symm)⟩

theorem orphanInitcalls_root (drvs : List (Fin 3)) (dev : Option (Fin 2)) (parent : Option (Fin 1))
    (h : AddCall.device dev parent ∈ (orphanInitcalls drvs).flatMap (·.calls)) :
    dev ≠ some orphanBoard.devRoot := by
  simp only [orphanInitcalls, List.flatMap_cons, List.flatMap_nil, List.append_nil,
    List.mem_append, List.mem_cons, List.mem_map, reduceCtorEq, List.not_mem_nil, or_false,
    false_or, and_false, exists_false, AddCall.device.injEq] at h
  rw [h.1]
  decide

/-- With both drivers registered the loop ends and makes progress. -/
theorem init_drivers_terminates_iff_both :
    (∃ n, (initDrivers orphanBoard (fun _ => silentOps) n (orphanInitcalls [1, 2])).isSome) ∧
      ∀ k s s', PassStart orphanBoard (bootLinks orphanBoard (orphanInitcalls [1, 2]))
          (fun _ => silentOps) k s →
        probePass orphanBoard (bootLinks orphanBoard (orphanInitcalls [1, 2])) silentOps s =
          some (s', -eagain) → Progress s.flags s'.flags := by
  refine (init_drivers_terminates_iff orphanBoard (fun _ => []) (fun _ => silentOps)
    (fun _ => silentOps_again _ _) _ (orphanInitcalls_root [1, 2])).mpr fun k s hs => ?_
  -- the first pass is the last one
  have hzero : (probePass orphanBoard (bootLinks orphanBoard (orphanInitcalls [1, 2])) silentOps
      ProbeState.initial).map Prod.snd = some 0 := by decide +kernel
  have hfirst : s = ProbeState.initial := by
    induction hs with
    | first => rfl
    | next _ hpass ih =>
        rw [ih] at hpass
        rw [hpass] at hzero
        exact absurd (show -eagain = 0 from Option.some.inj hzero) (by decide)
  have hmatch : matchDriver orphanBoard (bootLinks orphanBoard (orphanInitcalls [1, 2]))
      (orphanBoard.devType 0) ≠ none := by decide +kernel
  rintro ⟨hall, -⟩
  rw [hfirst] at hall
  rcases hall 0 (Met.self 0) with ⟨⟨hdrv, -⟩, -⟩ | ⟨-, hnone⟩ | ⟨-, r, add, hdrv, -⟩
  · exact hdrv rfl
  · exact hmatch hnone
  · exact absurd hdrv (Option.some_ne_none r ∘ Eq.symm)

/-- Without the driver of device 1 the loop never ends. -/
theorem init_drivers_hangs :
    (∀ conf, AgainWhileWaiting orphanBoard conf silentOps) ∧
    (∀ dev parent, AddCall.device dev parent ∈ (orphanInitcalls [1]).flatMap (·.calls) →
      dev ≠ some orphanBoard.devRoot) ∧
    ∀ n, initDrivers orphanBoard (fun _ => silentOps) n (orphanInitcalls [1]) = none := by
  refine ⟨silentOps_again _, orphanInitcalls_root [1], fun n => ?_⟩
  have hl := (built_linkAll Built.empty (orphanInitcalls_root [1])).inv
  obtain ⟨res, hres⟩ := initDrivers_eq orphanBoard (fun _ => silentOps)
    (orphanInitcalls [1])
  rw [hres, Option.map_eq_none_iff]
  -- from the second pass on nothing changes
  have hpasses : (probePass orphanBoard (bootLinks orphanBoard (orphanInitcalls [1])) silentOps
      ProbeState.initial).bind (fun (s, r) =>
        (probePass orphanBoard (bootLinks orphanBoard (orphanInitcalls [1])) silentOps s).map
          fun (s', r') => (r, r', decide (∀ d, s'.flags.dev d = s.flags.dev d),
            decide (∀ b, s'.flags.bus b = s.flags.bus b))) =
      some (-eagain, -eagain, true, true) := by decide +kernel
  obtain ⟨⟨s, r⟩, hfirst, hpasses⟩ := Option.bind_eq_some_iff.mp hpasses
  obtain ⟨⟨s', r'⟩, hsecond, heq⟩ := Option.map_eq_some_iff.mp hpasses
  simp only [Prod.mk.injEq, decide_eq_true_eq] at heq
  obtain ⟨rfl, rfl, hdev, hbus⟩ := heq
  have hstuck := (probePass_stuck_iff hl (silentOps_again _ fun _ => []) s).mp
    ⟨s', hsecond, Flags.ext (funext hdev) (funext hbus)⟩
  cases n with
  | zero => rfl
  | succ n =>
      simp only [initLoop, hfirst, Option.bind_some]
      exact initLoop_of_stuck hl (silentOps_again _ fun _ => []) hstuck n 1 res

end BaremetalCrt
