import BaremetalCrt.Library.Loops
import BaremetalCrt.Sys.Ticks

/-!
# The search for the dividers of a PLL

A PLL of the PRCI divides its input by `divr + 1`, multiplies it by `2 * (divf + 1)` and shifts
it right by `divq`. The driver tries every choice of the three, keeps the reference and the VCO
frequency in their limits and records the choice whose frequency is nearest to the target.

## Implementation notes

The member `divq` of `struct clk_prci_pllcfg` is never used and is left out, as are the messages
of the driver. The three functions share one record; the choices they have tried so far are a
list in the order of the loops.
-/

namespace BaremetalCrt

open BoundedLoop

/-- `MHZ`. -/
def mhz : Nat := 1000000

def prciPllcfgDivrMax : Nat := 64
def prciPllcfgDivfMax : Nat := 512
def prciPllcfgDivqMax : Nat := 7

def prciRefMin : Nat := 7 * mhz
def prciRefRange1 : Nat := 11 * mhz
def prciRefRange2 : Nat := 18 * mhz
def prciRefRange3 : Nat := 30 * mhz
def prciRefRange4 : Nat := 50 * mhz
def prciRefRange5 : Nat := 80 * mhz
def prciRefRange6 : Nat := 130 * mhz
def prciRefRange7 : Nat := 200 * mhz
def prciRefMax : Nat := prciRefRange7

def prciVcoMin : Nat := 2400 * mhz
def prciVcoMax : Nat := 4800 * mhz

/-- `struct clk_prci_pllcfg`. -/
structure Pllcfg where
  target : BitVec 64
  divr : Nat
  postDivr : BitVec 64
  divf : Nat
  postDivf : BitVec 64
  result : BitVec 64
  divrFound : Nat
  postDivrFound : BitVec 64
  divfFound : Nat
  divqFound : Nat
  range : Nat
  found : Bool

/-- `NABS` of an `int64_t`. -/
def nabs (a : BitVec 64) : BitVec 64 := if 0 < a.toInt then a else -a

/-- `clk_prci_filter_range`: the error or the range that it stores. -/
def clkPrciFilterRange (postDivr : BitVec 64) : Except Failure Nat :=
  let p := postDivr.toNat
  if prciRefMin ≤ p ∧ p ≤ prciRefRange1 - 1 then .ok 1
  else if prciRefRange1 ≤ p ∧ p ≤ prciRefRange2 - 1 then .ok 2
  else if prciRefRange2 ≤ p ∧ p ≤ prciRefRange3 - 1 then .ok 3
  else if prciRefRange3 ≤ p ∧ p ≤ prciRefRange4 - 1 then .ok 4
  else if prciRefRange4 ≤ p ∧ p ≤ prciRefRange5 - 1 then .ok 5
  else if prciRefRange5 ≤ p ∧ p ≤ prciRefRange6 - 1 then .ok 6
  else if prciRefRange6 ≤ p ∧ p ≤ prciRefRange7 - 1 then .ok 7
  else .error ⟨-erange, by decide⟩

/-- An iteration of `clk_prci_find_divq`. -/
def findDivqStep (conf : Pllcfg) (i : Nat) : Pllcfg :=
  let postDivq := conf.postDivf >>> i
  let diff := conf.target - postDivq
  let diffFound := conf.target - conf.result
  if (nabs diffFound).toInt ≤ (nabs diff).toInt then conf
  else
    { conf with
      result := postDivq
      divrFound := conf.divr
      postDivrFound := conf.postDivr
      divfFound := conf.divf
      divqFound := i
      found := true }

/-- `clk_prci_find_divq`. -/
def clkPrciFindDivq (conf : Pllcfg) : Pllcfg × Int :=
  let conf := (List.range prciPllcfgDivqMax).foldl findDivqStep conf
  (conf, if conf.found then 0 else -einval)

/-- An iteration of `clk_prci_find_divf`, which ignores what `clk_prci_find_divq` returns. -/
def findDivfStep (conf : Pllcfg) (i : Nat) : Pllcfg :=
  let postDivf := conf.postDivr * 2 * BitVec.ofNat 64 (i + 1)
  if postDivf.toNat < prciVcoMin ∨ prciVcoMax ≤ postDivf.toNat then conf
  else (clkPrciFindDivq { conf with divf := i, postDivf := postDivf }).1

/-- `clk_prci_find_divf`. -/
def clkPrciFindDivf (conf : Pllcfg) : Pllcfg × Int :=
  let conf := (List.range prciPllcfgDivfMax).foldl findDivfStep conf
  (conf, if conf.found then 0 else -einval)

/-- An iteration of `clk_prci_find_divr`, which ignores what `clk_prci_find_divf` returns. -/
def findDivrStep (freqIn : BitVec 64) (conf : Pllcfg) (i : Nat) : Pllcfg :=
  let postDivr := freqIn / BitVec.ofNat 64 (i + 1)
  if postDivr.toNat < prciRefMin ∨ prciRefMax ≤ postDivr.toNat then conf
  else (clkPrciFindDivf { conf with divr := i, postDivr := postDivr }).1

/-- The record with which `clk_prci_find_divr` enters its loop. -/
def Pllcfg.cleared (conf : Pllcfg) : Pllcfg := { conf with result := 0, found := false }

/-- What `clk_prci_find_divr` does behind its loop. -/
def findDivrRange (conf : Pllcfg) : Pllcfg × Int :=
  if conf.found then
    match clkPrciFilterRange conf.postDivrFound with
    | .error _ => (conf, -einval)
    | .ok range => ({ conf with range := range }, 0)
  else (conf, -einval)

/-- `clk_prci_find_divr`. -/
def clkPrciFindDivr (freqIn : BitVec 64) (conf : Pllcfg) : Pllcfg × Int :=
  findDivrRange ((List.range prciPllcfgDivrMax).foldl (findDivrStep freqIn) conf.cleared)

/-- A choice of the three dividers. -/
structure Dividers where
  divr : Nat
  divf : Nat
  divq : Nat
deriving DecidableEq

namespace Dividers

/-- The frequency of the reference. -/
def ref (freqIn : BitVec 64) (d : Dividers) : Nat := freqIn.toNat / (d.divr + 1)

/-- The frequency of the VCO. -/
def vco (freqIn : BitVec 64) (d : Dividers) : Nat := d.ref freqIn * 2 * (d.divf + 1)

/-- The frequency of the output. -/
def freq (freqIn : BitVec 64) (d : Dividers) : Nat := d.vco freqIn >>> d.divq

/-- The dividers fit their fields, the reference and the VCO keep their limits. -/
structure Admissible (freqIn : BitVec 64) (d : Dividers) : Prop where
  divr_lt : d.divr < 64
  divf_lt : d.divf < 512
  divq_lt : d.divq < 7
  ref_ge : 7 * mhz ≤ d.ref freqIn
  ref_lt : d.ref freqIn < 200 * mhz
  vco_ge : 2400 * mhz ≤ d.vco freqIn
  vco_lt : d.vco freqIn < 4800 * mhz

end Dividers

/-- How far a frequency is from the target. -/
def freqDistance (target : BitVec 64) (freq : Nat) : Nat := ((target.toNat : Int) - freq).natAbs

/-- The reference frequencies of each range, from the first to before the second. -/
def refRanges : List (Nat × Nat × Nat) :=
  [(1, 7 * mhz, 11 * mhz), (2, 11 * mhz, 18 * mhz), (3, 18 * mhz, 30 * mhz),
    (4, 30 * mhz, 50 * mhz), (5, 50 * mhz, 80 * mhz), (6, 80 * mhz, 130 * mhz),
    (7, 130 * mhz, 200 * mhz)]

/-- The choice that the record holds. -/
def Pllcfg.dividers (conf : Pllcfg) : Dividers :=
  ⟨conf.divrFound, conf.divfFound, conf.divqFound⟩

section Ranges

variable {postDivr : BitVec 64}

theorem find?_elim_cons {α β : Type} (p : α → Bool) (e : α) (l : List α) (b : β) (g : α → β) :
    ((e :: l).find? p).elim b g = if p e = true then g e else (l.find? p).elim b g := by
  rw [List.find?_cons]
  cases p e <;> rfl

/-- `clk_prci_filter_range` looks its argument up in the table of the ranges. -/
theorem clkPrciFilterRange_eq (postDivr : BitVec 64) :
    clkPrciFilterRange postDivr =
      (refRanges.find? fun e => e.2.1 ≤ postDivr.toNat ∧ postDivr.toNat < e.2.2).elim
        (.error ⟨-erange, by decide⟩) fun e => .ok e.1 := by
  have hle : ∀ n, 0 < n → (postDivr.toNat ≤ n * mhz - 1 ↔ postDivr.toNat < n * mhz) := by
    intro n hn
    unfold mhz
    omega
  simp (disch := decide) only [clkPrciFilterRange, prciRefMin, prciRefRange1, prciRefRange2,
    prciRefRange3, prciRefRange4, prciRefRange5, prciRefRange6, prciRefRange7, hle]
  simp only [refRanges, find?_elim_cons, decide_eq_true_eq]
  rfl

/-- Between the limits of the reference `clk_prci_filter_range` cannot fail. -/
theorem clkPrciFilterRange_ok (hmin : 7 * mhz ≤ postDivr.toNat)
    (hmax : postDivr.toNat < 200 * mhz) :
    ∃ range low high, clkPrciFilterRange postDivr = .ok range ∧
      (range, low, high) ∈ refRanges ∧ low ≤ postDivr.toNat ∧ postDivr.toNat < high := by
  rw [clkPrciFilterRange_eq]
  cases hfind : refRanges.find? fun e => e.2.1 ≤ postDivr.toNat ∧ postDivr.toNat < e.2.2 with
  | none =>
      simp only [refRanges, mhz, List.find?_eq_none, List.forall_mem_cons, decide_eq_true_eq]
        at hfind hmin hmax
      omega
  | some e =>
      have hbounds : e.2.1 ≤ postDivr.toNat ∧ postDivr.toNat < e.2.2 := by
        simpa using List.find?_some hfind
      exact ⟨e.1, e.2.1, e.2.2, rfl, List.mem_of_find?_eq_some hfind, hbounds⟩

end Ranges

section Distance

variable {a b : BitVec 64}

/-- Below half of the range the source compares distances. -/
theorem toInt_nabs_sub (ha : a.toNat < 2 ^ 63) (hb : b.toNat < 2 ^ 63) :
    (nabs (a - b)).toInt = freqDistance a b.toNat := by
  have hsub : (a - b).toInt = (a.toNat : Int) - b.toNat := by
    rw [FitsInt64.toInt_sub, toInt_of_lt ha, toInt_of_lt hb]
    rw [toInt_of_lt ha, toInt_of_lt hb]
    exact ⟨by omega, by omega⟩
  unfold nabs freqDistance
  split
  · rename_i hpos
    rw [hsub] at hpos ⊢
    omega
  · rename_i hneg
    rw [hsub] at hneg
    have hfits : FitsInt64 (-(a - b).toInt) := by
      rw [hsub]
      exact ⟨by omega, by omega⟩
    rw [BitVec.toInt_neg, hfits.bmod_eq, hsub]
    omega

theorem freqDistance_zero (target : BitVec 64) : freqDistance target 0 = target.toNat := by
  unfold freqDistance
  omega

end Distance

/-- The record after the choices of a list: what it holds is one of them, and none of them is
nearer to the target. -/
structure Searched (freqIn target : BitVec 64) (seen : List Dividers) (conf : Pllcfg) : Prop where
  target_eq : conf.target = target
  unset : conf.found = false → conf.result = 0
  result_lt : conf.result.toNat < 2 ^ 63
  chosen : conf.found = true → conf.dividers ∈ seen ∧
    conf.result.toNat = conf.dividers.freq freqIn ∧
    conf.postDivrFound.toNat = conf.dividers.ref freqIn
  near : target.toNat < 2 ^ 63 → conf.found = true →
    freqDistance target conf.result.toNat < target.toNat
  nearest : target.toNat < 2 ^ 63 → ∀ d ∈ seen,
    freqDistance target conf.result.toNat ≤ freqDistance target (d.freq freqIn)

/-- The record is at a value of `divr`. -/
def Pllcfg.AtDivr (freqIn : BitVec 64) (r : Nat) (conf : Pllcfg) : Prop :=
  conf.divr = r ∧ conf.postDivr.toNat = freqIn.toNat / (r + 1)

/-- The record is at a value of `divr` and one of `divf`. -/
def Pllcfg.AtDivf (freqIn : BitVec 64) (r f : Nat) (conf : Pllcfg) : Prop :=
  conf.AtDivr freqIn r ∧ conf.divf = f ∧
    conf.postDivf.toNat = freqIn.toNat / (r + 1) * 2 * (f + 1) ∧ conf.postDivf.toNat < prciVcoMax

/-- The choices that `clk_prci_find_divq` tries. -/
def divqCandidates (r f : Nat) : List Dividers :=
  (List.range prciPllcfgDivqMax).flatMap fun q => [⟨r, f, q⟩]

/-- The choices that `clk_prci_find_divf` tries. -/
def divfCandidates (freqIn : BitVec 64) (r : Nat) : List Dividers :=
  (List.range prciPllcfgDivfMax).flatMap fun f =>
    let v := freqIn.toNat / (r + 1) * 2 * (f + 1)
    if v < prciVcoMin ∨ prciVcoMax ≤ v then [] else divqCandidates r f

/-- The choices that `clk_prci_find_divr` tries. -/
def divrCandidates (freqIn : BitVec 64) : List Dividers :=
  (List.range prciPllcfgDivrMax).flatMap fun r =>
    let p := freqIn.toNat / (r + 1)
    if p < prciRefMin ∨ prciRefMax ≤ p then [] else divfCandidates freqIn r

theorem mem_within {α : Type} {low high v : Nat} {l : List α} {x : α} :
    x ∈ (if v < low ∨ high ≤ v then [] else l) ↔ low ≤ v ∧ v < high ∧ x ∈ l := by
  split
  · simp only [List.not_mem_nil, false_iff]
    omega
  · rename_i hin
    rw [not_or, Nat.not_lt, Nat.not_le] at hin
    rw [and_iff_right hin.1, and_iff_right hin.2]

theorem mem_divqCandidates {r f : Nat} {d : Dividers} :
    d ∈ divqCandidates r f ↔ d.divr = r ∧ d.divf = f ∧ d.divq < prciPllcfgDivqMax := by
  simp only [divqCandidates, List.mem_flatMap, List.mem_range, List.mem_singleton]
  constructor
  · rintro ⟨q, hq, rfl⟩
    exact ⟨rfl, rfl, hq⟩
  · rintro ⟨rfl, rfl, hq⟩
    exact ⟨d.divq, hq, rfl⟩

/-- The search tries exactly the admissible choices. -/
theorem mem_divrCandidates {freqIn : BitVec 64} {d : Dividers} :
    d ∈ divrCandidates freqIn ↔ d.Admissible freqIn := by
  simp only [divrCandidates, divfCandidates, List.mem_flatMap, List.mem_range, mem_within,
    mem_divqCandidates]
  constructor
  · rintro ⟨_, hr, hrmin, hrmax, _, hf, hvmin, hvmax, rfl, rfl, hq⟩
    exact ⟨hr, hf, hq, hrmin, hrmax, hvmin, hvmax⟩
  · rintro ⟨hr, hf, hq, hrmin, hrmax, hvmin, hvmax⟩
    exact ⟨d.divr, hr, hrmin, hrmax, d.divf, hf, hvmin, hvmax, rfl, rfl, hq⟩

section Search

variable {freqIn target : BitVec 64} {seen : List Dividers} {conf : Pllcfg} {r f i : Nat}

/-- The record is never farther from the target than the frequency zero it starts with. -/
theorem Searched.distance_le (h : Searched freqIn target seen conf)
    (htarget : target.toNat < 2 ^ 63) :
    freqDistance target conf.result.toNat ≤ target.toNat := by
  cases hfound : conf.found with
  | false =>
      rw [h.unset hfound]
      exact Nat.le_of_eq (freqDistance_zero target)
  | true => exact Nat.le_of_lt (h.near htarget hfound)

theorem Pllcfg.AtDivf.freq_eq (h : conf.AtDivf freqIn r f) (i : Nat) :
    (conf.postDivf >>> i).toNat = Dividers.freq freqIn ⟨r, f, i⟩ := by
  rw [BitVec.toNat_ushiftRight, h.2.2.1]
  rfl

theorem Pllcfg.AtDivf.freq_lt (h : conf.AtDivf freqIn r f) (i : Nat) :
    (conf.postDivf >>> i).toNat < 2 ^ 63 := by
  have hvco := h.2.2.2
  have hle : conf.postDivf.toNat >>> i ≤ conf.postDivf.toNat := Nat.shiftRight_le _ _
  rw [BitVec.toNat_ushiftRight]
  unfold prciVcoMax mhz at hvco
  omega

/-- One iteration of the innermost loop accounts for one more choice. -/
theorem Searched.findDivqStep (h : Searched freqIn target seen conf)
    (hat : conf.AtDivf freqIn r f) (i : Nat) :
    Searched freqIn target (seen ++ [⟨r, f, i⟩]) (findDivqStep conf i) := by
  have hfreq := hat.freq_eq i
  have hlt := hat.freq_lt i
  have hcmp : target.toNat < 2 ^ 63 →
      ((nabs (conf.target - conf.result)).toInt ≤
          (nabs (conf.target - conf.postDivf >>> i)).toInt ↔
        freqDistance target conf.result.toNat ≤
          freqDistance target (Dividers.freq freqIn ⟨r, f, i⟩)) := by
    intro htarget
    rw [h.target_eq, toInt_nabs_sub htarget h.result_lt, toInt_nabs_sub htarget hlt, hfreq]
    exact Int.ofNat_le
  simp only [BaremetalCrt.findDivqStep]
  split
  · rename_i hskip
    refine ⟨h.target_eq, h.unset, h.result_lt, ?_, h.near, ?_⟩
    · intro hfound
      obtain ⟨hmem, hresult⟩ := h.chosen hfound
      exact ⟨List.mem_append_left _ hmem, hresult⟩
    · intro htarget
      exact List.forall_mem_append.mpr
        ⟨h.nearest htarget, List.forall_mem_singleton.mpr ((hcmp htarget).mp hskip)⟩
  · rename_i htake
    have hcloser : target.toNat < 2 ^ 63 →
        freqDistance target (conf.postDivf >>> i).toNat <
          freqDistance target conf.result.toNat := by
      intro htarget
      rw [hfreq]
      exact Nat.lt_of_not_le (mt (hcmp htarget).mpr htake)
    obtain ⟨⟨hdivr, hpostDivr⟩, hdivf, -⟩ := hat
    refine ⟨h.target_eq, nofun, hlt, ?_, ?_, ?_⟩
    · intro _
      rw [show Pllcfg.dividers _ = ⟨r, f, i⟩ by rw [Pllcfg.dividers, hdivr, hdivf]]
      exact ⟨List.mem_append_right _ List.mem_cons_self, hfreq, hpostDivr⟩
    · intro htarget _
      exact Nat.lt_of_lt_of_le (hcloser htarget) (h.distance_le htarget)
    · intro htarget
      refine List.forall_mem_append.mpr ⟨?_, List.forall_mem_singleton.mpr ?_⟩
      · intro d hd
        exact Nat.le_trans (Nat.le_of_lt (hcloser htarget)) (h.nearest htarget d hd)
      · exact Nat.le_of_eq (congrArg _ hfreq)

/-- An iteration keeps the place in the outer loops. -/
theorem Pllcfg.AtDivf.findDivqStep (hat : conf.AtDivf freqIn r f) (i : Nat) :
    (findDivqStep conf i).AtDivf freqIn r f := by
  simp only [BaremetalCrt.findDivqStep]
  split
  · exact hat
  · exact hat

theorem clkPrciFindDivq_fst (conf : Pllcfg) :
    (clkPrciFindDivq conf).1 = (List.range prciPllcfgDivqMax).foldl findDivqStep conf := by
  simp only [clkPrciFindDivq]

theorem Searched.clkPrciFindDivq (h : Searched freqIn target seen conf)
    (hat : conf.AtDivf freqIn r f) :
    Searched freqIn target (seen ++ divqCandidates r f) (clkPrciFindDivq conf).1 ∧
      (clkPrciFindDivq conf).1.AtDivf freqIn r f := by
  rw [clkPrciFindDivq_fst, divqCandidates]
  generalize List.range prciPllcfgDivqMax = choices
  refine foldl_seen (I := fun seen conf =>
    Searched freqIn target seen conf ∧ conf.AtDivf freqIn r f) ?_ ⟨h, hat⟩
  rintro i - seen conf ⟨h, hat⟩
  exact ⟨h.findDivqStep hat i, hat.findDivqStep i⟩

/-- The product that `clk_prci_find_divf` computes does not wrap. -/
theorem Pllcfg.AtDivr.toNat_vco (hat : conf.AtDivr freqIn r)
    (hmax : conf.postDivr.toNat < prciRefMax) (hf : f < prciPllcfgDivfMax) :
    (conf.postDivr * 2 * BitVec.ofNat 64 (f + 1)).toNat =
      freqIn.toNat / (r + 1) * 2 * (f + 1) := by
  have hprod : conf.postDivr.toNat * 2 * (f + 1) ≤ prciRefMax * 2 * prciPllcfgDivfMax :=
    Nat.mul_le_mul (Nat.mul_le_mul_right 2 (Nat.le_of_lt hmax)) hf
  have hdouble : conf.postDivr.toNat * 2 < 2 ^ 64 := by
    unfold prciRefMax prciRefRange7 mhz at hmax
    omega
  have hfac : f + 1 < 2 ^ 64 := by
    unfold prciPllcfgDivfMax at hf
    omega
  have hword : prciRefMax * 2 * prciPllcfgDivfMax < 2 ^ 64 := by decide
  rw [BitVec.toNat_mul, BitVec.toNat_mul, BitVec.toNat_ofNat, Nat.mod_eq_of_lt hfac,
    show (2 : BitVec 64).toNat = 2 from rfl, Nat.mod_eq_of_lt hdouble,
    Nat.mod_eq_of_lt (Nat.lt_of_le_of_lt hprod hword), hat.2]

theorem Searched.findDivfStep (h : Searched freqIn target seen conf)
    (hat : conf.AtDivr freqIn r) (hmax : conf.postDivr.toNat < prciRefMax)
    (hf : f < prciPllcfgDivfMax) :
    Searched freqIn target
        (seen ++ if freqIn.toNat / (r + 1) * 2 * (f + 1) < prciVcoMin ∨
          prciVcoMax ≤ freqIn.toNat / (r + 1) * 2 * (f + 1) then [] else divqCandidates r f)
        (findDivfStep conf f) ∧
      (findDivfStep conf f).AtDivr freqIn r ∧
      (findDivfStep conf f).postDivr.toNat < prciRefMax := by
  have hvco := hat.toNat_vco hmax hf
  simp only [BaremetalCrt.findDivfStep, hvco]
  split
  · rw [List.append_nil]
    exact ⟨h, hat, hmax⟩
  · rename_i hin
    rw [not_or, Nat.not_lt, Nat.not_le] at hin
    have hstart : Searched freqIn target seen
        { conf with divf := f, postDivf := conf.postDivr * 2 * BitVec.ofNat 64 (f + 1) } :=
      ⟨h.target_eq, h.unset, h.result_lt, h.chosen, h.near, h.nearest⟩
    obtain ⟨hsearched, hplace⟩ := hstart.clkPrciFindDivq
      (r := r) (f := f) ⟨hat, rfl, hvco, by rw [hvco]; exact hin.2⟩
    refine ⟨hsearched, hplace.1, ?_⟩
    rw [hplace.1.2, ← hat.2]
    exact hmax

theorem clkPrciFindDivf_fst (conf : Pllcfg) :
    (clkPrciFindDivf conf).1 = (List.range prciPllcfgDivfMax).foldl findDivfStep conf := by
  simp only [clkPrciFindDivf]

theorem Searched.clkPrciFindDivf (h : Searched freqIn target seen conf)
    (hat : conf.AtDivr freqIn r) (hmax : conf.postDivr.toNat < prciRefMax) :
    Searched freqIn target (seen ++ divfCandidates freqIn r) (clkPrciFindDivf conf).1 := by
  have hrange : ∀ f ∈ List.range prciPllcfgDivfMax, f < prciPllcfgDivfMax :=
    fun f hf => List.mem_range.mp hf
  rw [clkPrciFindDivf_fst, divfCandidates]
  generalize List.range prciPllcfgDivfMax = choices at hrange ⊢
  refine (foldl_seen (I := fun seen conf => Searched freqIn target seen conf ∧
    conf.AtDivr freqIn r ∧ conf.postDivr.toNat < prciRefMax) ?_ ⟨h, hat, hmax⟩).1
  rintro f hf seen conf ⟨h, hat, hmax⟩
  exact h.findDivfStep hat hmax (hrange f hf)

theorem toNat_ref (freqIn : BitVec 64) (hr : r < prciPllcfgDivrMax) :
    (freqIn / BitVec.ofNat 64 (r + 1)).toNat = freqIn.toNat / (r + 1) := by
  have hfac : r + 1 < 2 ^ 64 := by
    unfold prciPllcfgDivrMax at hr
    omega
  rw [BitVec.toNat_udiv, BitVec.toNat_ofNat, Nat.mod_eq_of_lt hfac]

theorem Searched.findDivrStep (h : Searched freqIn target seen conf)
    (hr : r < prciPllcfgDivrMax) :
    Searched freqIn target
      (seen ++ if freqIn.toNat / (r + 1) < prciRefMin ∨ prciRefMax ≤ freqIn.toNat / (r + 1)
        then [] else divfCandidates freqIn r)
      (findDivrStep freqIn conf r) := by
  have href := toNat_ref freqIn hr
  simp only [BaremetalCrt.findDivrStep, href]
  split
  · rw [List.append_nil]
    exact h
  · rename_i hin
    rw [not_or, Nat.not_lt, Nat.not_le] at hin
    have hstart : Searched freqIn target seen
        { conf with divr := r, postDivr := freqIn / BitVec.ofNat 64 (r + 1) } :=
      ⟨h.target_eq, h.unset, h.result_lt, h.chosen, h.near, h.nearest⟩
    exact hstart.clkPrciFindDivf ⟨rfl, href⟩ (by rw [href]; exact hin.2)

/-- The three loops account for every admissible choice. -/
theorem searched_divr (freqIn : BitVec 64) (conf : Pllcfg) :
    Searched freqIn conf.target (divrCandidates freqIn)
      ((List.range prciPllcfgDivrMax).foldl (findDivrStep freqIn) conf.cleared) := by
  have hstart : Searched freqIn conf.target [] conf.cleared :=
    ⟨rfl, fun _ => rfl, Nat.two_pow_pos 63, nofun, fun _ => nofun, fun _ => nofun⟩
  have hrange : ∀ r ∈ List.range prciPllcfgDivrMax, r < prciPllcfgDivrMax :=
    fun r hr => List.mem_range.mp hr
  rw [divrCandidates, ← List.nil_append (List.flatMap _ _)]
  generalize List.range prciPllcfgDivrMax = choices at hrange ⊢
  refine foldl_seen (I := Searched freqIn conf.target) ?_ hstart
  intro r hr seen conf h
  exact h.findDivrStep (hrange r hr)

/-- What `clk_prci_find_divr` records, for any target. -/
theorem clkPrciFindDivr_cases (freqIn : BitVec 64) (conf : Pllcfg) :
    ∃ conf', Searched freqIn conf.target (divrCandidates freqIn) conf' ∧
      ((conf'.found = false ∧ clkPrciFindDivr freqIn conf = (conf', -einval)) ∨
        ∃ range low high, conf'.found = true ∧
          clkPrciFindDivr freqIn conf = ({ conf' with range := range }, 0) ∧
          clkPrciFilterRange conf'.postDivrFound = .ok range ∧ (range, low, high) ∈ refRanges ∧
          low ≤ conf'.dividers.ref freqIn ∧ conf'.dividers.ref freqIn < high) := by
  have hsearched := searched_divr freqIn conf
  rw [clkPrciFindDivr]
  generalize (List.range prciPllcfgDivrMax).foldl (findDivrStep freqIn) conf.cleared = conf' at *
  refine ⟨conf', hsearched, ?_⟩
  cases hfound : conf'.found with
  | false => exact Or.inl ⟨rfl, if_neg (by simp [hfound])⟩
  | true =>
      obtain ⟨hmem, -, href⟩ := hsearched.chosen hfound
      have hadm := mem_divrCandidates.mp hmem
      obtain ⟨range, low, high, hrange, hentry, hlow, hhigh⟩ :=
        clkPrciFilterRange_ok (href ▸ hadm.ref_ge) (href ▸ hadm.ref_lt)
      rw [href] at hlow hhigh
      refine Or.inr ⟨range, low, high, rfl, ?_, hrange, hentry, hlow, hhigh⟩
      simp only [findDivrRange, hfound, if_true, hrange]

end Search

/-- The search succeeds if and only if an admissible choice is nearer to the target than the
frequency zero; it then records an admissible choice that none is nearer than, with the range of
its reference. -/
theorem find_divr_nearest (freqIn : BitVec 64) (conf : Pllcfg)
    (htarget : conf.target.toNat < 2 ^ 63) :
    let conf' := (clkPrciFindDivr freqIn conf).1
    let ret := (clkPrciFindDivr freqIn conf).2
    (ret = 0 ↔ ∃ d : Dividers, d.Admissible freqIn ∧
      freqDistance conf.target (d.freq freqIn) < conf.target.toNat) ∧
    (ret = 0 →
      conf'.dividers.Admissible freqIn ∧
      conf'.result.toNat = conf'.dividers.freq freqIn ∧
      (∀ d : Dividers, d.Admissible freqIn →
        freqDistance conf.target (conf'.dividers.freq freqIn) ≤
          freqDistance conf.target (d.freq freqIn)) ∧
      clkPrciFilterRange conf'.postDivrFound = .ok conf'.range ∧
      ∃ low high, (conf'.range, low, high) ∈ refRanges ∧
        low ≤ conf'.dividers.ref freqIn ∧ conf'.dividers.ref freqIn < high) := by
  obtain ⟨conf', hsearched, ⟨hfound, heq⟩ | ⟨range, low, high, hfound, heq, hrange, hentry,
    hlow, hhigh⟩⟩ := clkPrciFindDivr_cases freqIn conf
  · rw [heq]
    have hfailed : ¬ -einval = 0 := by decide
    refine ⟨iff_of_false hfailed ?_, fun h => absurd h hfailed⟩
    rintro ⟨d, hadm, hnear⟩
    have hbest := hsearched.nearest htarget d (mem_divrCandidates.mpr hadm)
    rw [hsearched.unset hfound] at hbest
    exact absurd (freqDistance_zero conf.target ▸ hbest) (Nat.not_le.mpr hnear)
  · rw [heq]
    obtain ⟨hmem, hresult, -⟩ := hsearched.chosen hfound
    have hadm := mem_divrCandidates.mp hmem
    refine ⟨iff_of_true rfl ⟨conf'.dividers, hadm, ?_⟩, fun _ =>
      ⟨hadm, hresult, ?_, hrange, low, high, hentry, hlow, hhigh⟩⟩
    · rw [← hresult]
      exact hsearched.near htarget hfound
    · intro d hd
      change freqDistance conf.target (conf'.dividers.freq freqIn) ≤ _
      rw [← hresult]
      exact hsearched.nearest htarget d (mem_divrCandidates.mpr hd)

/-- From the 33.33 MHz oscillator the search finds dividers for 1 GHz. -/
theorem find_divr_gigahertz :
    (clkPrciFindDivr 33333333
      ⟨1000000000, 0, 0, 0, 0, 0, 0, 0, 0, 0, 0, false⟩).2 = 0 :=
  (find_divr_nearest 33333333 ⟨1000000000, 0, 0, 0, 0, 0, 0, 0, 0, 0, 0, false⟩
    (by decide)).1.mpr ⟨⟨0, 59, 2⟩,
      ⟨by decide, by decide, by decide, by decide, by decide, by decide, by decide⟩, by decide⟩

end BaremetalCrt
