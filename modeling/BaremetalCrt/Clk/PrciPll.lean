import BaremetalCrt.Clk.Prci
import BaremetalCrt.Library.Runs

/-!
# The PLL registers of the PRCI and the reported frequencies

`clk_prci_set_freq` searches the dividers for a frequency, caches the frequency it found, packs
the dividers into the register of the PLL and waits until the PLL has locked. The cached
frequency and the register are written separately; `clk_prci_get_freq` answers from the cache.

## Implementation notes

A register keeps what is written to it, except that the PLL itself drives the bit `LOCK`: it is
clear for a number of reads that the PLL chooses at each write, and set after that.
-/

namespace BaremetalCrt

open LabelledSystem

/-- The PLLs whose frequency can be set. -/
inductive PrciPll where
  | ddrctrl
  | core
  | gemgxl
deriving DecidableEq

namespace PrciPll

/-- `PRCI_INDEX_DDRCTRLCLK`, `PRCI_INDEX_CORECLK` and `PRCI_INDEX_GEMGXLCLK`. -/
def index : PrciPll → Int
  | ddrctrl => 0
  | core => 2
  | gemgxl => 3

/-- The member `pllcfg0` of `pllcfg_offs`. -/
def pllcfg0 : PrciPll → Nat
  | ddrctrl => 0x0c
  | core => 0x04
  | gemgxl => 0x1c

theorem pllcfg0_injective : Function.Injective pllcfg0 := by
  intro a b h
  cases a <;> cases b <;> first | rfl | exact absurd h (by decide)

end PrciPll

/-- `PRCI_PLLCFG_FSE`. -/
def prciPllcfgFse : BitVec 32 := 1 <<< 25

/-- `PRCI_PLLCFG_LOCK`. -/
def prciPllcfgLock : BitVec 32 := 1 <<< 31

/-- A register of a PLL: the word written and the reads until the PLL reports its lock. -/
structure PllReg where
  word : BitVec 32
  wait : Nat

/-- `k_device_read32` of a register. -/
def PllReg.read32 (reg : PllReg) : BitVec 32 × PllReg :=
  if reg.wait = 0 then (reg.word ||| prciPllcfgLock, reg)
  else (reg.word &&& ~~~prciPllcfgLock, { reg with wait := reg.wait - 1 })

/-- The busy wait of `clk_prci_update_pllcfg`, for a bounded number of reads. -/
def waitLock : Nat → PllReg → Option PllReg
  | 0, _ => none
  | f + 1, reg =>
      if reg.read32.1 &&& prciPllcfgLock = 0 then waitLock f reg.read32.2 else some reg.read32.2

/-- `struct clk_prci_priv`, with the cached frequency of each PLL, and the registers. -/
structure Prci where
  freqIn : BitVec 64
  freq : PrciPll → BitVec 64
  regs : Nat → PllReg

/-- The word that `clk_prci_update_pllcfg` writes. -/
def pllcfgWord (conf : Pllcfg) : BitVec 32 :=
  BitVec.ofNat 32 conf.divrFound <<< 0 ||| BitVec.ofNat 32 conf.divfFound <<< 6 |||
    BitVec.ofNat 32 conf.divqFound <<< 15 ||| BitVec.ofNat 32 conf.range <<< 18 ||| prciPllcfgFse

/-- The record with which `clk_prci_update_pllcfg` starts the search. -/
def Pllcfg.init (target : BitVec 64) : Pllcfg := ⟨target, 0, 0, 0, 0, 0, 0, 0, 0, 0, 0, false⟩

/-- `clk_prci_update_pllcfg` for the cache and the register of a PLL that reports its lock after
`lock` reads. -/
def clkPrciUpdatePllcfg (p : Prci) (target : BitVec 64) (pll : PrciPll) (lock : Nat) :
    Option (Prci × Int) :=
  let (conf, r) := clkPrciFindDivr p.freqIn (Pllcfg.init target)
  if r ≠ 0 then some (p, r)
  else
    let p := { p with freq := Function.update p.freq pll conf.result }
    (waitLock (lock + 1) ⟨pllcfgWord conf, lock⟩).map fun reg =>
      ({ p with regs := Function.update p.regs pll.pllcfg0 reg }, 0)

/-- `clk_prci_get_freq`: the error or the frequency that it stores. -/
def clkPrciGetFreq (p : Prci) (index : Int) : Except Failure (BitVec 64) :=
  match index with
  | 0 => .ok (p.freq .ddrctrl)
  | 1 => .ok (p.freq .core / 2)
  | 2 => .ok (p.freq .core)
  | 3 => .ok (p.freq .gemgxl)
  | _ => .error ⟨-einval, neg_einval_ne_zero⟩

/-- `clk_prci_set_freq`. The clock `PRCI_INDEX_TLCLK` cannot be changed. -/
def clkPrciSetFreq (p : Prci) (index : Int) (freq : BitVec 64) (lock : Nat) :
    Option (Prci × Int) :=
  match index with
  | 0 => clkPrciUpdatePllcfg p freq .ddrctrl lock
  | 1 => some (p, -einval)
  | 2 => clkPrciUpdatePllcfg p freq .core lock
  | 3 => clkPrciUpdatePllcfg p freq .gemgxl lock
  | _ => some (p, -einval)

/-- The fields of a PLL register. -/
structure PllFields where
  dividers : Dividers
  range : Nat
  fse : Bool

/-- Decode the fields: `divr` in bits 0 to 5, `divf` in bits 6 to 14, `divq` in bits 15 to 17,
the range in bits 18 to 20 and `FSE` in bit 25. -/
def decodePll (w : BitVec 32) : PllFields where
  dividers :=
    ⟨(w.extractLsb' 0 6).toNat, (w.extractLsb' 6 9).toNat, (w.extractLsb' 15 3).toNat⟩
  range := (w.extractLsb' 18 3).toNat
  fse := w.getLsbD 25

section Fields

/-- A field above the bits in use is added. -/
theorem toNat_or_field {x : BitVec 32} {n y k : Nat} (hx : x.toNat = n) (hn : n < 2 ^ k)
    (hy : y * 2 ^ k < 2 ^ 32) : (x ||| BitVec.ofNat 32 y <<< k).toNat = n + y * 2 ^ k := by
  have hle : y ≤ y * 2 ^ k := Nat.le_mul_of_pos_right y (Nat.two_pow_pos k)
  rw [BitVec.toNat_or, BitVec.toNat_shiftLeft, BitVec.toNat_ofNat,
    Nat.mod_eq_of_lt (Nat.lt_of_le_of_lt hle hy), Nat.shiftLeft_eq, Nat.mod_eq_of_lt hy,
    ← Nat.shiftLeft_eq, hx, Nat.or_comm, ← Nat.shiftLeft_add_eq_or_of_lt hn, Nat.add_comm]

/-- A field inside a word, from the number the word stands for. -/
theorem toNat_field {w : BitVec 32} (start len : Nat) {v : Nat}
    (h : w.toNat / 2 ^ start % 2 ^ len = v) : (w.extractLsb' start len).toNat = v := by
  rw [BitVec.extractLsb'_toNat, Nat.shiftRight_eq_div_pow]
  exact h

variable {conf : Pllcfg}

/-- The written word as a sum, when every field fits. -/
theorem toNat_pllcfgWord (hr : conf.divrFound < 64) (hf : conf.divfFound < 512)
    (hq : conf.divqFound < 8) (hrange : conf.range < 8) :
    (pllcfgWord conf).toNat = conf.divrFound + conf.divfFound * 2 ^ 6 +
      conf.divqFound * 2 ^ 15 + conf.range * 2 ^ 18 + 2 ^ 25 := by
  have hdivr : (BitVec.ofNat 32 conf.divrFound <<< 0).toNat = conf.divrFound := by
    rw [BitVec.shiftLeft_zero, BitVec.toNat_ofNat]
    omega
  have hdivf := toNat_or_field (y := conf.divfFound) (k := 6) hdivr (by omega) (by omega)
  have hdivq := toNat_or_field (y := conf.divqFound) (k := 15) hdivf (by omega) (by omega)
  have hcode := toNat_or_field (y := conf.range) (k := 18) hdivq (by omega) (by omega)
  exact toNat_or_field (y := 1) (k := 25) hcode (by omega) (by omega)

/-- A word that agrees with the written one up to `FSE` decodes to the dividers and the range
found. -/
theorem decodePll_eq (hr : conf.divrFound < 64) (hf : conf.divfFound < 512)
    (hq : conf.divqFound < 8) (hrange : conf.range < 8) {w : BitVec 32}
    (hw : w.toNat % 2 ^ 26 = (pllcfgWord conf).toNat) :
    decodePll w = ⟨conf.dividers, conf.range, true⟩ := by
  rw [toNat_pllcfgWord hr hf hq hrange] at hw
  have hdivr : (w.extractLsb' 0 6).toNat = conf.divrFound := toNat_field 0 6 (by omega)
  have hdivf : (w.extractLsb' 6 9).toNat = conf.divfFound := toNat_field 6 9 (by omega)
  have hdivq : (w.extractLsb' 15 3).toNat = conf.divqFound := toNat_field 15 3 (by omega)
  have hcode : (w.extractLsb' 18 3).toNat = conf.range := toNat_field 18 3 (by omega)
  have hfse : w.getLsbD 25 = true := by
    rw [← BitVec.testBit_toNat, Nat.testBit_eq_decide_div_mod_eq, decide_eq_true_eq]
    omega
  rw [decodePll, hdivr, hdivf, hdivq, hcode, hfse]
  rfl

/-- So do the word written and the word with the lock. -/
theorem decodePll_written (hr : conf.divrFound < 64) (hf : conf.divfFound < 512)
    (hq : conf.divqFound < 8) (hrange : conf.range < 8) :
    decodePll (pllcfgWord conf) = ⟨conf.dividers, conf.range, true⟩ ∧
      decodePll (pllcfgWord conf ||| prciPllcfgLock) = ⟨conf.dividers, conf.range, true⟩ := by
  have hword := toNat_pllcfgWord hr hf hq hrange
  have hlock : (pllcfgWord conf ||| prciPllcfgLock).toNat = _ :=
    toNat_or_field (y := 1) (k := 31) hword (by omega) (by omega)
  exact ⟨decodePll_eq hr hf hq hrange (by omega), decodePll_eq hr hf hq hrange (by omega)⟩

end Fields

section Lock

theorem or_lock_and_lock (w : BitVec 32) : (w ||| prciPllcfgLock) &&& prciPllcfgLock ≠ 0 := by
  intro h
  have hbit := congrArg (fun v => v.getLsbD 31) h
  simp [prciPllcfgLock] at hbit

theorem and_not_lock_and_lock (w : BitVec 32) :
    (w &&& ~~~prciPllcfgLock) &&& prciPllcfgLock = 0 := by
  rw [BitVec.and_assoc]
  have hnone : ~~~prciPllcfgLock &&& prciPllcfgLock = 0 := by decide
  rw [hnone]
  exact BitVec.and_zero

/-- The busy wait ends when the PLL reports its lock. -/
theorem waitLock_eq {f : Nat} {reg : PllReg} (h : reg.wait < f) :
    waitLock f reg = some ⟨reg.word, 0⟩ := by
  induction f generalizing reg with
  | zero => exact absurd h (Nat.not_lt_zero _)
  | succ f ih =>
      rw [waitLock, PllReg.read32]
      by_cases hwait : reg.wait = 0
      · rw [if_pos hwait, if_neg (or_lock_and_lock reg.word), ← hwait]
      · rw [if_neg hwait, if_pos (and_not_lock_and_lock reg.word)]
        have hless : reg.wait - 1 < f := by omega
        exact ih hless

end Lock

/-- The driver after a search that succeeded. -/
def Prci.locked (p : Prci) (pll : PrciPll) (conf : Pllcfg) : Prci :=
  { p with
    freq := Function.update p.freq pll conf.result
    regs := Function.update p.regs pll.pllcfg0 ⟨pllcfgWord conf, 0⟩ }

section Locked

variable (p : Prci) (conf : Pllcfg) {pll pll' : PrciPll}

theorem Prci.locked_regs_self :
    (p.locked pll conf).regs pll.pllcfg0 = ⟨pllcfgWord conf, 0⟩ :=
  Function.update_self ..

theorem Prci.locked_freq_self : (p.locked pll conf).freq pll = conf.result :=
  Function.update_self ..

theorem Prci.locked_regs_of_ne (h : pll' ≠ pll) :
    (p.locked pll conf).regs pll'.pllcfg0 = p.regs pll'.pllcfg0 :=
  Function.update_of_ne (fun heq => h (PrciPll.pllcfg0_injective heq)) ..

theorem Prci.locked_freq_of_ne (h : pll' ≠ pll) : (p.locked pll conf).freq pll' = p.freq pll' :=
  Function.update_of_ne h ..

end Locked

theorem PllReg.read32_locked (word : BitVec 32) :
    (PllReg.mk word 0).read32.1 = word ||| prciPllcfgLock := rfl

section Calls

variable {index : Int} {conf conf' : Pllcfg} {freqIn : BitVec 64}

/-- What a successful search leaves fits the fields of the register. -/
theorem clkPrciFindDivr_success (h : clkPrciFindDivr freqIn conf = (conf', 0)) :
    conf'.dividers.Admissible freqIn ∧ conf'.result.toNat = conf'.dividers.freq freqIn ∧
      conf'.range < 8 := by
  obtain ⟨found, hsearched, ⟨-, heq⟩ | ⟨range, low, high, hfound, heq, -, hentry, -, -⟩⟩ :=
    clkPrciFindDivr_cases freqIn conf
  · rw [heq] at h
    exact absurd (congrArg Prod.snd h) (by decide : ¬ -einval = 0)
  · obtain rfl : _ = conf' := congrArg Prod.fst (heq.symm.trans h)
    obtain ⟨hmem, hresult, -⟩ := hsearched.chosen hfound
    have hcodes : ∀ e ∈ refRanges, e.1 < 8 := by decide
    exact ⟨mem_divrCandidates.mp hmem, hresult, hcodes _ hentry⟩

/-- The register that a successful call leaves decodes to what was found. -/
theorem decodePll_found (h : clkPrciFindDivr freqIn conf = (conf', 0)) :
    decodePll (pllcfgWord conf') = ⟨conf'.dividers, conf'.range, true⟩ ∧
      decodePll (pllcfgWord conf' ||| prciPllcfgLock) = ⟨conf'.dividers, conf'.range, true⟩ := by
  obtain ⟨hadm, -, hrange⟩ := clkPrciFindDivr_success h
  exact decodePll_written hadm.divr_lt hadm.divf_lt (Nat.lt_succ_of_lt hadm.divq_lt) hrange

/-- `clk_prci_update_pllcfg` fails and changes nothing, or writes what it found. -/
theorem clkPrciUpdatePllcfg_cases (p : Prci) (target : BitVec 64) (pll : PrciPll) (lock : Nat) :
    (∃ r, r ≠ 0 ∧ clkPrciUpdatePllcfg p target pll lock = some (p, r)) ∨
      ∃ conf, clkPrciFindDivr p.freqIn (Pllcfg.init target) = (conf, 0) ∧
        clkPrciUpdatePllcfg p target pll lock = some (p.locked pll conf, 0) := by
  unfold clkPrciUpdatePllcfg
  obtain ⟨conf, r⟩ := clkPrciFindDivr p.freqIn (Pllcfg.init target)
  by_cases hr : r = 0
  · subst hr
    refine Or.inr ⟨conf, rfl, ?_⟩
    dsimp only
    have hwait : waitLock (lock + 1) ⟨pllcfgWord conf, lock⟩ = some ⟨pllcfgWord conf, 0⟩ :=
      waitLock_eq (Nat.lt_succ_self lock)
    rw [if_neg (not_not.mpr rfl), hwait]
    rfl
  · exact Or.inl ⟨r, hr, if_pos hr⟩

theorem clkPrciSetFreq_index (p : Prci) (pll : PrciPll) (freq : BitVec 64) (lock : Nat) :
    clkPrciSetFreq p pll.index freq lock = clkPrciUpdatePllcfg p freq pll lock := by
  cases pll <;> rfl

theorem clkPrciGetFreq_index (p : Prci) (pll : PrciPll) :
    clkPrciGetFreq p pll.index = .ok (p.freq pll) := by
  cases pll <;> rfl

theorem clkPrciSetFreq_other (p : Prci) (freq : BitVec 64) (lock : Nat)
    (h : ∀ pll : PrciPll, index ≠ pll.index) :
    clkPrciSetFreq p index freq lock = some (p, -einval) := by
  unfold clkPrciSetFreq
  split
  · exact absurd rfl (h .ddrctrl)
  · rfl
  · exact absurd rfl (h .core)
  · exact absurd rfl (h .gemgxl)
  · rfl

/-- Every call returns: it fails and changes nothing, or writes what it found for its PLL. -/
theorem clkPrciSetFreq_cases (p : Prci) (index : Int) (freq : BitVec 64) (lock : Nat) :
    (∃ r, r ≠ 0 ∧ clkPrciSetFreq p index freq lock = some (p, r)) ∨
      ∃ pll conf, index = pll.index ∧
        clkPrciFindDivr p.freqIn (Pllcfg.init freq) = (conf, 0) ∧
        clkPrciSetFreq p index freq lock = some (p.locked pll conf, 0) := by
  by_cases h : ∃ pll : PrciPll, index = pll.index
  · obtain ⟨pll, rfl⟩ := h
    rw [clkPrciSetFreq_index]
    rcases clkPrciUpdatePllcfg_cases p freq pll lock with hfail | ⟨conf, hfind, hset⟩
    · exact Or.inl hfail
    · exact Or.inr ⟨pll, conf, rfl, hfind, hset⟩
  · exact Or.inl ⟨-einval, by decide, clkPrciSetFreq_other p freq lock (not_exists.mp h)⟩

end Calls

/-- A call of `clk_prci_set_freq` and the reads until the PLL reports its lock. -/
structure SetFreqCall where
  index : Int
  freq : BitVec 64
  lock : Nat

/-- The driver, and the PLLs that a call has set successfully. -/
structure PrciHistory where
  prci : Prci
  done : PrciPll → Bool

def setFreqStep (s : PrciHistory) (c : SetFreqCall) : Option PrciHistory :=
  (clkPrciSetFreq s.prci c.index c.freq c.lock).map fun (p, r) =>
    ⟨p, fun pll => s.done pll || (r == 0 && c.index == pll.index)⟩

/-- The cached frequency of every PLL that was set is that of its register. -/
structure CachesRegisters (freqIn : BitVec 64) (s : PrciHistory) : Prop where
  freqIn_eq : s.prci.freqIn = freqIn
  freq_eq : ∀ pll, s.done pll = true → (s.prci.freq pll).toNat =
    (decodePll (s.prci.regs pll.pllcfg0).read32.1).dividers.freq freqIn

section History

variable {freqIn : BitVec 64} {s s' : PrciHistory} {c : SetFreqCall}

theorem setFreqStep_cases (s : PrciHistory) (c : SetFreqCall) :
    setFreqStep s c = some s ∨
      ∃ pll conf, clkPrciFindDivr s.prci.freqIn (Pllcfg.init c.freq) = (conf, 0) ∧
        setFreqStep s c =
          some ⟨s.prci.locked pll conf, fun pll' => s.done pll' || pll.index == pll'.index⟩ := by
  unfold setFreqStep
  rcases clkPrciSetFreq_cases s.prci c.index c.freq c.lock with
    ⟨r, hr, hset⟩ | ⟨pll, conf, hindex, hfind, hset⟩
  · left
    have hfailed : (r == 0) = false := beq_eq_false_iff_ne.mpr hr
    simp only [hset, Option.map_some, hfailed, Bool.false_and, Bool.or_false]
  · right
    refine ⟨pll, conf, hfind, ?_⟩
    rw [hset, hindex]
    rfl

theorem PrciPll.eq_of_index_beq {pll pll' : PrciPll} (h : (pll.index == pll'.index) = true) :
    pll' = pll := by
  cases pll <;> cases pll' <;> first | rfl | exact absurd h (by decide)

/-- A successful call writes the cache and the register of its PLL and no other. -/
theorem CachesRegisters.locked (h : CachesRegisters freqIn s) {pll : PrciPll} {conf conf' : Pllcfg}
    (hfind : clkPrciFindDivr s.prci.freqIn conf = (conf', 0)) :
    CachesRegisters freqIn
      ⟨s.prci.locked pll conf', fun pll' => s.done pll' || pll.index == pll'.index⟩ := by
  refine ⟨h.freqIn_eq, fun pll' hdone => ?_⟩
  rw [h.freqIn_eq] at hfind
  by_cases hpll : pll' = pll
  · subst hpll
    calc ((s.prci.locked pll' conf').freq pll').toNat
        = conf'.dividers.freq freqIn := by
          rw [Prci.locked_freq_self, (clkPrciFindDivr_success hfind).2.1]
      _ = (decodePll ((s.prci.locked pll' conf').regs pll'.pllcfg0).read32.1).dividers.freq
            freqIn := by
          rw [Prci.locked_regs_self, PllReg.read32_locked, (decodePll_found hfind).2]
  · have hbefore : s.done pll' = true :=
      (Bool.or_eq_true _ _ ▸ hdone).resolve_right (mt PrciPll.eq_of_index_beq hpll)
    dsimp only
    rw [Prci.locked_regs_of_ne _ _ hpll, Prci.locked_freq_of_ne _ _ hpll]
    exact h.freq_eq pll' hbefore

/-- Every sequence of calls can be carried out and keeps the caches. -/
theorem exec_setFreqStep (h : CachesRegisters freqIn s) (calls : List SetFreqCall) :
    ∃ s', exec setFreqStep s calls = some s' ∧ CachesRegisters freqIn s' := by
  induction calls generalizing s with
  | nil => exact ⟨s, rfl, h⟩
  | cons c calls ih =>
      have hnext : ∃ m, setFreqStep s c = some m ∧ CachesRegisters freqIn m := by
        rcases setFreqStep_cases s c with hkeep | ⟨pll, conf, hfind, hset⟩
        · exact ⟨s, hkeep, h⟩
        · exact ⟨_, hset, h.locked hfind⟩
      obtain ⟨m, hstep, hm⟩ := hnext
      obtain ⟨s', hrest, hs'⟩ := ih hm
      exact ⟨s', (exec_cons_iff setFreqStep).mpr ⟨m, hstep, hrest⟩, hs'⟩

end History

/-- After any sequence of calls, each PLL that was set reports the frequency of the dividers in
its own register. The next call writes a word that decodes to the dividers and the range found,
or returns an error and changes nothing. -/
theorem prci_reports_registers (p : Prci) (calls : List SetFreqCall) :
    ∃ s, exec setFreqStep ⟨p, fun _ => false⟩ calls = some s ∧
      (∀ pll, s.done pll = true → ∃ f, clkPrciGetFreq s.prci pll.index = .ok f ∧
        f.toNat = (decodePll (s.prci.regs pll.pllcfg0).read32.1).dividers.freq p.freqIn) ∧
      ∀ c : SetFreqCall, ∃ p' r,
        clkPrciSetFreq s.prci c.index c.freq c.lock = some (p', r) ∧
        (r = 0 → ∃ (pll : PrciPll) (conf : Pllcfg), c.index = pll.index ∧
          clkPrciFindDivr p.freqIn (Pllcfg.init c.freq) = (conf, 0) ∧
          decodePll (p'.regs pll.pllcfg0).word = ⟨conf.dividers, conf.range, true⟩ ∧
          decodePll (p'.regs pll.pllcfg0).read32.1 = ⟨conf.dividers, conf.range, true⟩) ∧
        (r ≠ 0 → p' = s.prci) := by
  have hstart : CachesRegisters p.freqIn ⟨p, fun _ => false⟩ := ⟨rfl, nofun⟩
  obtain ⟨s, hexec, hs⟩ := exec_setFreqStep hstart calls
  refine ⟨s, hexec, fun pll hdone => ?_, fun c => ?_⟩
  · exact ⟨_, clkPrciGetFreq_index s.prci pll, hs.freq_eq pll hdone⟩
  · rcases clkPrciSetFreq_cases s.prci c.index c.freq c.lock with
      ⟨r, hr, hset⟩ | ⟨pll, conf, hindex, hfind, hset⟩
    · exact ⟨s.prci, r, hset, fun h => absurd h hr, fun _ => rfl⟩
    · refine ⟨_, 0, hset, fun _ => ?_, fun h => absurd rfl h⟩
      rw [hs.freqIn_eq] at hfind
      obtain ⟨hword, hread⟩ := decodePll_found hfind
      refine ⟨pll, conf, hindex, hfind, ?_, ?_⟩
      · rw [Prci.locked_regs_self]
        exact hword
      · rw [Prci.locked_regs_self]
        exact hread

end BaremetalCrt
