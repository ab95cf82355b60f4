/-
  File:      Ruwa/Call/CodecTables.lean
  Subject:   THE TABLES OF THE SPEECH CODEC (`call/mlow/smpl_cc_tables.rs`), which are expanded from
             a seed when the codec starts, and in part computed.

  A table is cumulative: symbol `i` takes the part from entry `i` to entry `i + 1`. A seed holds a
  byte for each symbol, whose square is its weight; the weights of splits and of runs of pulses are
  computed with integer logarithms.

  * **`pdfToCmf_rises`** -- a table from weights that are not all zero rises at every step, and
    does not wrap around;
  * `log2lin_bounds`, `probSplitFast_half`, `runEnds_bounds` -- the weights of splits and runs;
  * **`build_rises`** -- every table of every seed rises, so that every symbol can be coded.
-/
import Mathlib.Data.List.GetD
import Mathlib.Data.List.Pairwise
import Mathlib.Algebra.Order.Ring.Int
import Ruwa.Call.RangeCoder
import Ruwa.Library.Segments

namespace Ruwa.Call

open Ruwa.Library

/-! ## 1. Fixed-point logarithms -/

/-- `as i32`, which the wrapping operators of `i32` end in. -/
def toI32 (x : Int) : Int := Int.bmod x (2 ^ 32)

def toI16 (x : Int) : Int := Int.bmod x (2 ^ 16)

/-- silk_SMULBB -/
def smulbb (a b : Int) : Int := toI32 (toI16 a * toI16 b)

/-- silk_SMLAWB -/
def smlawb (a b c : Int) : Int := toI32 (a + (b * toI16 c) / 2 ^ 16)

/-- silk_CLZ_FRAC: the leading zeros, and the seven bits behind the first one. -/
def clzFrac (inp : Int) : Int × Int :=
  let u := (inp % 2 ^ 32).toNat
  let lz := 32 - ilog u
  let r := ((24 - (lz : Int)) % 32).toNat
  (lz, (((u >>> r ||| u <<< (32 - r)) % 2 ^ 32 &&& 0x7f : Nat) : Int))

/-- silk_lin2log: 128 times the logarithm. -/
def lin2log (inLin : Int) : Int :=
  let (lz, fracQ7) := clzFrac inLin
  toI32 (smlawb fracQ7 (toI32 (fracQ7 * (128 - fracQ7))) 179 + (31 - lz) * 2 ^ 7)

/-- silk_log2lin: its inverse. -/
def log2lin (inLogQ7 : Int) : Int :=
  if inLogQ7 < 0 then 0
  else if inLogQ7 ≥ 3967 then 2 ^ 31 - 1
  else
    let out : Int := 2 ^ (inLogQ7 / 2 ^ 7).toNat
    let fracQ7 := inLogQ7 % 2 ^ 7
    let inner := smlawb fracQ7 (smulbb fracQ7 (128 - fracQ7)) (-174)
    if inLogQ7 < 2048 then toI32 (out + toI32 (out * inner) / 2 ^ 7)
    else toI32 (out + toI32 (out / 2 ^ 7 * inner))

/-- silk_sigm_Q15 -/
def sigmQ15 (inQ5 : Int) : Int :=
  let slope : List Int := [237, 153, 73, 30, 12, 7]
  let pos : List Int := [16384, 23955, 28861, 31213, 32178, 32548]
  let neg : List Int := [16384, 8812, 3906, 1554, 589, 219]
  if inQ5 < 0 then
    let inQ5 := -inQ5
    if inQ5 ≥ 6 * 32 then 0
    else
      let ind := (inQ5 / 2 ^ 5).toNat
      neg.getD ind 0 - smulbb (slope.getD ind 0) (inQ5 % 2 ^ 5)
  else if inQ5 ≥ 6 * 32 then 32767
  else
    let ind := (inQ5 / 2 ^ 5).toNat
    pos.getD ind 0 + smulbb (slope.getD ind 0) (inQ5 % 2 ^ 5)

/-! ## 2. Tables -/

/-- The sum of a row. -/
def rowSum (pdf : List Int) : Int := pdf.foldr (· + ·) 0

/-- What the entries of a row add to the table, one after the other. -/
def cumulate (n : Nat) (sump : Int) : UInt16 → List Int → List UInt16
  | _, [] => []
  | c, x :: rest =>
      let p := (x * (32767 - n)).tdiv sump + 1
      let c := UInt16.ofNat ((c.toNat + p) % 2 ^ 16).toNat
      c :: cumulate n sump c rest

def pdfToCmf (pdf : List Int) : List UInt16 := 0 :: cumulate pdf.length (rowSum pdf) 0 pdf

def LOG2_EXP1_Q15 : Int := 47274
def LOG2_2PI_Q14 : Int := 43442
def SMPL_MAX_PULSES_PER_SF : Nat := 40
def RUNLENGTH_STEP : Nat := 8
def NUM_RUNLEN_CMFS : Nat := 20
def SPLIT_NUM_TABLES : Nat := SMPL_MAX_PULSES_PER_SF * 4 - 1

/-- The logarithm of a factorial. -/
def stirling (n : Int) : Int :=
  if n = 0 then 0
  else
    let ret := toI32 ((n * 2 + 1) * (lin2log n * 2 ^ 7))
    let ret := toI32 (ret - toI32 (LOG2_EXP1_Q15 * n))
    let ret := toI32 (ret + LOG2_2PI_Q14)
    toI32 (ret + LOG2_EXP1_Q15.tdiv (12 * n))

/-- The probability that `k` of `n` pulses are in the first half. -/
def probSplitFast (k n : Int) : Int :=
  let tmp := toI32 (stirling n - stirling k)
  let tmp := toI32 (tmp - stirling (n - k))
  let tmp := toI32 (tmp - toI32 (n * 2 ^ 15))
  if tmp = 0 then 2 ^ 30 else (2 ^ 30 : Int).tdiv (log2lin (-tmp / 2 ^ 8))

/-- The row of a number of pulses. -/
def splitRow (numPulses : Nat) : List UInt16 :=
  let minSplit := numPulses - SMPL_MAX_PULSES_PER_SF * 2
  let maxSplit := numPulses - minSplit
  pdfToCmf <| (List.range (maxSplit + 1 - minSplit)).map fun i : Nat =>
    probSplitFast (minSplit + i : Nat) numPulses

def createSplitCmfs : List (List UInt16) :=
  (List.range SPLIT_NUM_TABLES).map fun i => splitRow (i + 1)

def ONE_Q31 : Int := 2 ^ 31

/-- The probability that a run ends here, for `nump` pulses in what is left of `ms` samples. -/
def runEnds (ms nump nums : Nat) : Int :=
  let tmp := ONE_Q31 - ONE_Q31 / ((ms - nums + 1 : Nat) : Int)
  let p1 := (List.range (nump - 1)).foldl (fun p1 _ => p1 * tmp / 2 ^ 31) tmp
  let p1 := min (ONE_Q31 - p1) 2147376274
  let logOutQ7 :=
    if nump > ms then lin2log ((nump * 2 ^ 10 : Nat) / (ms : Int)) - 10 * 128
    else -(lin2log ((ms * 2 ^ 10 : Nat) / (nump : Int)) - 10 * 128)
  let scaleFacQ15 := 36000 - (36000 - 26000) * sigmQ15 (logOutQ7 / 2 ^ 2 + 146) / 2 ^ 15
  min (ONE_Q31 - log2lin (scaleFacQ15 * (lin2log (toI32 (ONE_Q31 - p1)) - 31 * 128) / 2 ^ 15
    + 31 * 128)) 2147376274

/-- The probabilities of the runs from `nums` on, with the probability that it is as long. -/
def runPdf (ms nump : Nat) : Nat → Nat → Int → List Int
  | 0, _, _ => []
  | left + 1, nums, plonger =>
      plonger * runEnds ms nump nums / 2 ^ 31 ::
        runPdf ms nump left (nums + 1) (plonger * (ONE_Q31 - runEnds ms nump nums) / 2 ^ 31)

/-- The row of a number of pulses in a bucket. -/
def runlenRow (ms nump : Nat) : List UInt16 := pdfToCmf (runPdf ms nump ms 1 ONE_Q31)

structure RunlenCmfs where
  maxSamples : Nat
  cmfs : List (List UInt16)

def createRunlenTable (maxSamples : Nat) : RunlenCmfs where
  maxSamples
  cmfs := (List.range SMPL_MAX_PULSES_PER_SF).map fun i => runlenRow maxSamples (i + 1)

def createRunlen : List RunlenCmfs :=
  (List.range NUM_RUNLEN_CMFS).map fun i => createRunlenTable ((i + 1) * RUNLENGTH_STEP)

/-- The weights of a seed are squares, which are cut at 65535. -/
def dcmfToCmf (dcmf : List UInt8) : List UInt16 :=
  pdfToCmf (dcmf.map fun b => min (((b.toNat + 1) * (b.toNat + 1) : Nat) : Int) 65535)

/-- The seed of the tables. -/
structure CcSeed where
  nrgresGain4Dcmf : List UInt8
  nrgresShape4Dcmf : List UInt8
  fcbgOffsetDcmf : List UInt8
  acbgainsHrDcmf : List UInt8
  fcbgainsVDcmf : List UInt8
  fcbgainsVDeltaDcmf : List UInt8
  acbgainsCbHrQ14 : List Int
  nPulsesDcmfBgn : List UInt8
  nPulsesDcmfUv : List UInt8
  nPulsesDcmfV : List UInt8
  gainRecon : List UInt8
  gainReconBase : Nat

/-- The tables of the high rate; those of the low rate are left out. -/
structure CcTables where
  nrgresGain4 : List UInt16
  nrgresShape4 : List UInt16
  fcbgOffset : List (List UInt16)
  acbgainsHr : List UInt16
  fcbgainsV : List UInt16
  fcbgainsVDelta : List UInt16
  acbgainsCbHrQ14 : List Int
  gainRecon : List Int
  gainReconBase : Nat
  nPulseCmfs : List (List UInt16)
  splitCmfs : List (List UInt16)
  runlen : List RunlenCmfs

def FCBG_OFFSET_STEPS : Nat := 176
def FCBG_OFFSET_BUCKETS : Nat := 4
def ACBG_N : Nat := 16
def FCBG_V_N : Nat := 34

/-- `chunks_exact`, of `count` chunks. -/
def chunksExact {α : Type} (size count : Nat) (xs : List α) : List (List α) :=
  (List.range count).map fun i => (xs.drop (i * size)).take size

def CcSeed.build (seed : CcSeed) : CcTables where
  nrgresGain4 := dcmfToCmf seed.nrgresGain4Dcmf
  nrgresShape4 := dcmfToCmf seed.nrgresShape4Dcmf
  fcbgOffset := (chunksExact FCBG_OFFSET_STEPS (seed.fcbgOffsetDcmf.length / FCBG_OFFSET_STEPS)
    seed.fcbgOffsetDcmf).map dcmfToCmf
  acbgainsHr := (chunksExact ACBG_N (seed.acbgainsHrDcmf.length / ACBG_N)
    seed.acbgainsHrDcmf).flatMap dcmfToCmf
  fcbgainsV := dcmfToCmf seed.fcbgainsVDcmf
  fcbgainsVDelta := dcmfToCmf seed.fcbgainsVDeltaDcmf
  acbgainsCbHrQ14 := seed.acbgainsCbHrQ14.map toI16
  gainRecon := (chunksExact 2 (seed.gainRecon.length / 2) seed.gainRecon).map fun b =>
    toI16 ((b.getD 0 0).toNat + 256 * (b.getD 1 0).toNat)
  gainReconBase := seed.gainReconBase
  nPulseCmfs := [seed.nPulsesDcmfBgn, seed.nPulsesDcmfUv, seed.nPulsesDcmfV].map dcmfToCmf
  splitCmfs := createSplitCmfs
  runlen := createRunlen

namespace CcTables

def nPulseCount (cc : CcTables) (idx : Nat) : List UInt16 := cc.nPulseCmfs.getD idx []

/-- The row of `total` pulses, with the whole row before it is windowed. -/
def splitCmf (cc : CcTables) (total : Nat) : List UInt16 := cc.splitCmfs.getD (total - 1) []

/-- The row of a table and a bucket, cut at `minOffset`. -/
def fcbgOffsetRow (cc : CcTables) (tableIx bucket minOffset : Nat) : List UInt16 :=
  ((cc.fcbgOffset.getD (tableIx * FCBG_OFFSET_BUCKETS + bucket) []).drop minOffset).take 92

/-- The row of the gain before, where -1 is none. -/
def acbgainRow (cc : CcTables) (prev : Int) : List UInt16 :=
  (cc.acbgainsHr.drop ((prev + 1).toNat * (ACBG_N + 1))).take (ACBG_N + 1)

def acbgainWeights (cc : CcTables) (gi : Nat) : Int × Int :=
  (cc.acbgainsCbHrQ14.getD (gi * 2) 0, cc.acbgainsCbHrQ14.getD (gi * 2 + 1) 0)

def fcbgainVDelta (cc : CcTables) (prevFilt : Nat) : List UInt16 :=
  (cc.fcbgainsVDelta.drop (FCBG_V_N - 1 - prevFilt)).take 35

/-- A number from the memory behind the tables, whose addresses are on 32 bits. -/
def gainReconAt (cc : CcTables) (addr : Nat) : Int :=
  let off := (addr + 2 ^ 32 - cc.gainReconBase) % 2 ^ 32
  if off / 2 < cc.gainRecon.length ∧ off % 2 = 0 then cc.gainRecon.getD (off / 2) 0 else 0

def nrgStep (cc : CcTables) (cfg : Nat) : Int :=
  cc.gainReconAt ((cc.gainReconBase + cfg * 2) % 2 ^ 32)

/-- With four quarters, from the first of two places. -/
def gainRecon4 (cc : CcTables) (idx : Nat) : Int := cc.gainReconAt ((0xf35f0 + idx * 2) % 2 ^ 32)

/-- The row of `c` pulses in bucket `oct`. -/
def runlenCmf (cc : CcTables) (oct c : Nat) : List UInt16 :=
  ((cc.runlen.map (·.cmfs)).getD (oct - 1) []).getD (c - 1) []

def maxSamples (cc : CcTables) (oct : Nat) : Nat := (cc.runlen.map (·.maxSamples)).getD (oct - 1) 0

end CcTables

/-! ## 3. Every table rises -/

/-- What the entries of a row add in all. -/
def steps (n : Nat) (sump : Int) (pdf : List Int) : Int :=
  pdf.foldr (fun (x rest : Int) => (x * (32767 - n)).tdiv sump + 1 + rest) 0

/-- Rounding down adds no more than the whole. -/
theorem mul_steps_le {n : Nat} {sump : Int} (hpos : 0 < sump) (hn : n ≤ 32767) :
    ∀ {pdf : List Int}, (∀ x ∈ pdf, 0 ≤ x) →
      sump * steps n sump pdf ≤ rowSum pdf * (32767 - n) + sump * pdf.length
  | [], _ => by simp [steps, rowSum]
  | x :: rest, h => by
      have hx : 0 ≤ x * (32767 - n) := Int.mul_nonneg (h x List.mem_cons_self) (by omega)
      have hrest := mul_steps_le hpos hn fun y hy => h y (List.mem_cons_of_mem x hy)
      have hfloor : sump * (x * (32767 - n)).tdiv sump ≤ x * (32767 - n) := by
        rw [Int.tdiv_eq_ediv_of_nonneg hx]
        exact Int.mul_ediv_self_le (by omega)
      show sump * ((x * (32767 - n)).tdiv sump + 1 + steps n sump rest) ≤
        (x + rowSum rest) * (32767 - n) + sump * ((rest.length + 1 : Nat) : Int)
      rw [Int.mul_add, Int.mul_add, Int.add_mul, Int.natCast_add, Int.mul_add]
      omega

theorem steps_nonneg {n : Nat} {sump : Int} (hpos : 0 < sump) (hn : n ≤ 32767) :
    ∀ {pdf : List Int}, (∀ x ∈ pdf, 0 ≤ x) → 0 ≤ steps n sump pdf
  | [], _ => Int.le_refl 0
  | x :: rest, h => by
      have hx : 0 ≤ x * (32767 - n) := Int.mul_nonneg (h x List.mem_cons_self) (by omega)
      have hp := Int.tdiv_nonneg hx (Int.le_of_lt hpos)
      have hrest := steps_nonneg hpos hn fun y hy => h y (List.mem_cons_of_mem x hy)
      show 0 ≤ (x * (32767 - n)).tdiv sump + 1 + steps n sump rest
      omega

/-- One entry of a table, where the table has room for it. -/
theorem cumulate_cons {n : Nat} {sump x : Int} (rest : List Int) {c : UInt16}
    (hp : 0 ≤ (x * (32767 - n)).tdiv sump)
    (hfits : c.toNat + ((x * (32767 - n)).tdiv sump + 1) < 65536) :
    ∃ c', cumulate n sump c (x :: rest) = c' :: cumulate n sump c' rest ∧
      (c'.toNat : Int) = c.toNat + ((x * (32767 - n)).tdiv sump + 1) := by
  refine ⟨_, rfl, ?_⟩
  rw [UInt16.toNat_ofNat']
  omega

theorem cumulate_ascends {n : Nat} {sump : Int} (hpos : 0 < sump) (hn : n ≤ 32767)
    {pdf : List Int} {c : UInt16} (h : ∀ x ∈ pdf, 0 ≤ x)
    (hfits : c.toNat + steps n sump pdf < 65536) :
    (c :: cumulate n sump c pdf).Pairwise (· < ·) := by
  induction pdf generalizing c with
  | nil => exact List.pairwise_singleton _ c
  | cons x rest ih =>
      have hx : 0 ≤ x * (32767 - n) := Int.mul_nonneg (h x List.mem_cons_self) (by omega)
      have hp := Int.tdiv_nonneg hx (Int.le_of_lt hpos)
      have htail : ∀ y ∈ rest, 0 ≤ y := fun y hy => h y (List.mem_cons_of_mem x hy)
      have hrest := steps_nonneg hpos hn htail
      have hsum : c.toNat + ((x * (32767 - n)).tdiv sump + 1 + steps n sump rest) < 65536 := hfits
      obtain ⟨c', hcumulate, hvalue⟩ := cumulate_cons rest (c := c) hp (by omega)
      have hlt : c < c' := by
        rw [UInt16.lt_iff_toNat_lt]
        omega
      have hnext := ih (c := c') htail (by omega)
      rw [hcumulate]
      refine List.pairwise_cons.mpr ⟨fun y hy => ?_, hnext⟩
      rcases List.mem_cons.mp hy with rfl | hy
      · exact hlt
      · exact UInt16.lt_trans hlt ((List.pairwise_cons.mp hnext).1 y hy)

/-- No entry is above the last one. -/
theorem cumulate_le {n : Nat} {sump : Int} (hpos : 0 < sump) (hn : n ≤ 32767)
    {pdf : List Int} {c : UInt16} (h : ∀ x ∈ pdf, 0 ≤ x)
    (hfits : c.toNat + steps n sump pdf < 65536) :
    ∀ y ∈ cumulate n sump c pdf, (y.toNat : Int) ≤ c.toNat + steps n sump pdf := by
  induction pdf generalizing c with
  | nil => exact fun y hy => nomatch hy
  | cons x rest ih =>
      have hx : 0 ≤ x * (32767 - n) := Int.mul_nonneg (h x List.mem_cons_self) (by omega)
      have hp := Int.tdiv_nonneg hx (Int.le_of_lt hpos)
      have htail : ∀ y ∈ rest, 0 ≤ y := fun y hy => h y (List.mem_cons_of_mem x hy)
      have hrest := steps_nonneg hpos hn htail
      have hsum : steps n sump (x :: rest) =
          (x * (32767 - n)).tdiv sump + 1 + steps n sump rest := rfl
      obtain ⟨c', hcumulate, hvalue⟩ := cumulate_cons rest (c := c) hp (by omega)
      intro y hy
      rw [hcumulate] at hy
      rcases List.mem_cons.mp hy with rfl | hy
      · omega
      · have := ih (c := c') htail (by omega) y hy
        omega

theorem length_cumulate (n : Nat) (sump : Int) :
    ∀ (c : UInt16) (pdf : List Int), (cumulate n sump c pdf).length = pdf.length
  | _, [] => rfl
  | _, _ :: rest => congrArg (· + 1) (length_cumulate n sump _ rest)

theorem length_pdfToCmf (pdf : List Int) : (pdfToCmf pdf).length = pdf.length + 1 :=
  congrArg (· + 1) (length_cumulate _ _ _ pdf)

theorem steps_le {pdf : List Int} (hlen : pdf.length ≤ 32767) (h : ∀ x ∈ pdf, 0 ≤ x)
    (hpos : 0 < rowSum pdf) : steps pdf.length (rowSum pdf) pdf ≤ 32767 := by
  have hall : rowSum pdf * steps pdf.length (rowSum pdf) pdf ≤ rowSum pdf * 32767 := by
    calc rowSum pdf * steps pdf.length (rowSum pdf) pdf
        ≤ rowSum pdf * (32767 - pdf.length) + rowSum pdf * pdf.length := mul_steps_le hpos hlen h
      _ = rowSum pdf * 32767 := by
          rw [← Int.mul_add]
          congr 1
          omega
  exact Int.le_of_mul_le_mul_left hall hpos

/-- A table whose symbols can all be coded: it begins with zero, rises at every step, and its last
    entry has room in the range. -/
structure Rises (table : List UInt16) : Prop where
  first : table.head? = some 0
  ascends : table.Pairwise (· < ·)
  le : ∀ x ∈ table, x.toNat ≤ 32767

/-- **A table rises at every step**, if no weight is negative and they are not all zero. -/
theorem pdfToCmf_rises {pdf : List Int} (hlen : pdf.length ≤ 32767) (h : ∀ x ∈ pdf, 0 ≤ x)
    (hpos : 0 < rowSum pdf) : Rises (pdfToCmf pdf) := by
  have hsteps := steps_le hlen h hpos
  have hfits : ((0 : UInt16).toNat : Int) + steps pdf.length (rowSum pdf) pdf < 65536 := by
    rw [UInt16.toNat_zero]
    omega
  refine ⟨rfl, cumulate_ascends hpos hlen h hfits, fun x hx => ?_⟩
  rcases List.mem_cons.mp hx with rfl | hx
  · rw [UInt16.toNat_zero]
    omega
  · have := cumulate_le hpos hlen h hfits x hx
    rw [UInt16.toNat_zero] at this
    omega

theorem rowSum_nonneg : ∀ {pdf : List Int}, (∀ x ∈ pdf, 0 ≤ x) → 0 ≤ rowSum pdf
  | [], _ => Int.le_refl 0
  | x :: _, h =>
      Int.add_nonneg (h x List.mem_cons_self)
        (rowSum_nonneg fun y hy => h y (List.mem_cons_of_mem x hy))

/-- One entry that is not zero is enough. -/
theorem rowSum_pos {x : Int} (hx : 0 < x) :
    ∀ {pdf : List Int}, (∀ y ∈ pdf, 0 ≤ y) → x ∈ pdf → 0 < rowSum pdf
  | y :: _, h, hmem => by
      have hrest := fun z hz => h z (List.mem_cons_of_mem y hz)
      show 0 < y + rowSum _
      rcases List.mem_cons.mp hmem with rfl | hmem
      · have := rowSum_nonneg hrest
        omega
      · have := rowSum_pos hx hrest hmem
        have := h y List.mem_cons_self
        omega

theorem inner_bounds : ∀ frac < 128, 0 ≤ smlawb (frac : Nat) (smulbb frac (128 - frac)) (-174) ∧
    smlawb (frac : Nat) (smulbb frac (128 - frac)) (-174) ≤ 127 := by
  decide +kernel

theorem toI32_eq {x : Int} (hlow : -2 ^ 31 ≤ x) (hhigh : x < 2 ^ 31) : toI32 x = x := by
  exact Int.bmod_eq_of_le_mul_two (by omega) (by omega)

/-- The antilogarithm is never negative, and no `i32` is passed. -/
theorem log2lin_bounds (q : Int) : 0 ≤ log2lin q ∧ log2lin q < 2 ^ 31 := by
  unfold log2lin
  split
  · omega
  split
  · omega
  · have hfrac : ((q % 2 ^ 7).toNat : Int) = q % 2 ^ 7 := Int.toNat_of_nonneg (by omega)
    obtain ⟨hnonneg, hle⟩ := inner_bounds (q % 2 ^ 7).toNat (by omega)
    rw [hfrac] at hnonneg hle
    have hpow : ∀ {k : Nat}, (q / 2 ^ 7).toNat ≤ k → (2 : Int) ^ (q / 2 ^ 7).toNat ≤ 2 ^ k :=
      fun h => pow_le_pow_right₀ (by decide) h
    have hout : 0 < (2 : Int) ^ (q / 2 ^ 7).toNat := Int.pow_pos (by decide)
    dsimp only
    generalize smlawb (q % 2 ^ 7) (smulbb (q % 2 ^ 7) (128 - q % 2 ^ 7)) (-174) = inner at hnonneg hle ⊢
    split
    · have hsmall := hpow (k := 15) (by omega)
      generalize (2 : Int) ^ (q / 2 ^ 7).toNat = out at hout hsmall ⊢
      have hprod : 0 ≤ out * inner := Int.mul_nonneg (by omega) hnonneg
      have hprod' : out * inner ≤ 2 ^ 15 * 127 := Int.mul_le_mul hsmall hle hnonneg (by omega)
      rw [toI32_eq (x := out * inner) (by omega) (by omega), toI32_eq (by omega) (by omega)]
      omega
    · have hsmall := hpow (k := 30) (by omega)
      generalize (2 : Int) ^ (q / 2 ^ 7).toNat = out at hout hsmall ⊢
      have hprod : 0 ≤ out / 2 ^ 7 * inner := Int.mul_nonneg (by omega) hnonneg
      have hprod' : out / 2 ^ 7 * inner ≤ 2 ^ 23 * 127 :=
        Int.mul_le_mul (by omega) hle hnonneg (by omega)
      rw [toI32_eq (x := out / 2 ^ 7 * inner) (by omega) (by omega), toI32_eq (by omega) (by omega)]
      omega

theorem probSplitFast_nonneg (k n : Int) : 0 ≤ probSplitFast k n := by
  unfold probSplitFast
  dsimp only
  split
  · omega
  · exact Int.tdiv_nonneg (by omega) (log2lin_bounds _).1

/-- Pulses in equal halves have a probability. -/
theorem probSplitFast_half : ∀ n < 160, 0 < n → 0 < probSplitFast (n / 2 : Nat) (n : Nat) := by
  decide +kernel

/-- Where the first half begins to hold no more than it can. -/
theorem length_splitRow (n : Nat) :
    (splitRow n).length = n - (n - 80) + 1 - (n - 80) + 1 := by
  unfold splitRow SMPL_MAX_PULSES_PER_SF
  dsimp only
  rw [length_pdfToCmf, List.length_map, List.length_range]

/-- **Every row of the splits rises.** -/
theorem splitRow_rises {n : Nat} (hpos : 0 < n) (hn : n < 160) :
    Rises (splitRow n) := by
  unfold splitRow SMPL_MAX_PULSES_PER_SF
  dsimp only
  have hnonneg : ∀ x ∈ (List.range (n - (n - 40 * 2) + 1 - (n - 40 * 2))).map
      fun i : Nat => probSplitFast (n - 40 * 2 + i : Nat) n, 0 ≤ x := by
    intro x hx
    obtain ⟨i, _, rfl⟩ := List.mem_map.mp hx
    exact probSplitFast_nonneg _ _
  have hhalf : probSplitFast (n / 2 : Nat) n ∈
      (List.range (n - (n - 40 * 2) + 1 - (n - 40 * 2))).map
        fun i : Nat => probSplitFast (n - 40 * 2 + i : Nat) n := by
    refine List.mem_map.mpr ⟨n / 2 - (n - 40 * 2), List.mem_range.mpr (by omega), ?_⟩
    have hindex : n - 40 * 2 + (n / 2 - (n - 40 * 2)) = n / 2 := by omega
    rw [hindex]
  refine pdfToCmf_rises ?_ hnonneg (rowSum_pos (probSplitFast_half n hn hpos) hnonneg hhalf)
  rw [List.length_map, List.length_range]
  omega

/-- A run ends with a probability that is neither zero nor too large. -/
theorem runEnds_bounds (ms nump nums : Nat) : 0 < runEnds ms nump nums ∧
    runEnds ms nump nums ≤ 2147376274 := by
  unfold runEnds ONE_Q31
  extract_lets tmp p1 p1' logOutQ7 scaleFacQ15
  obtain ⟨hnonneg, hlt⟩ := log2lin_bounds
    (scaleFacQ15 * (lin2log (toI32 (2 ^ 31 - p1')) - 31 * 128) / 2 ^ 15 + 31 * 128)
  omega

theorem length_runPdf (ms nump : Nat) :
    ∀ (left nums : Nat) (plonger : Int), (runPdf ms nump left nums plonger).length = left
  | 0, _, _ => rfl
  | left + 1, _, _ => congrArg (· + 1) (length_runPdf ms nump left _ _)

theorem length_runlenRow (ms nump : Nat) : (runlenRow ms nump).length = ms + 1 := by
  unfold runlenRow
  rw [length_pdfToCmf, length_runPdf]

theorem runPdf_nonneg (ms nump : Nat) :
    ∀ (left nums : Nat) {plonger : Int}, 0 ≤ plonger → ∀ x ∈ runPdf ms nump left nums plonger, 0 ≤ x
  | 0, _, _, _, x, hx => nomatch hx
  | left + 1, nums, plonger, hplonger, x, hx => by
      obtain ⟨hpos, hle⟩ := runEnds_bounds ms nump nums
      rcases List.mem_cons.mp hx with rfl | hx
      · exact Int.ediv_nonneg (Int.mul_nonneg hplonger (by omega)) (by decide)
      · refine runPdf_nonneg ms nump left (nums + 1) ?_ x hx
        unfold ONE_Q31
        exact Int.ediv_nonneg (Int.mul_nonneg hplonger (by omega)) (by decide)

/-- **Every row of the runs rises.** -/
theorem runlenRow_rises {ms : Nat} (hpos : 0 < ms) (hms : ms ≤ 160) (nump : Nat) :
    Rises (runlenRow ms nump) := by
  have hnonneg := @runPdf_nonneg ms nump ms 1 ONE_Q31 (by decide)
  obtain ⟨hends, _⟩ := runEnds_bounds ms nump 1
  have hfirst : runEnds ms nump 1 ∈ runPdf ms nump ms 1 ONE_Q31 := by
    obtain ⟨left, rfl⟩ : ∃ left, ms = left + 1 := ⟨ms - 1, by omega⟩
    refine List.mem_cons.mpr (Or.inl ?_)
    unfold ONE_Q31
    omega
  refine pdfToCmf_rises ?_ hnonneg (rowSum_pos hends hnonneg hfirst)
  rw [length_runPdf]
  omega

theorem square_pos (b : UInt8) : 0 < min (((b.toNat + 1) * (b.toNat + 1) : Nat) : Int) 65535 := by
  have : 0 < (b.toNat + 1) * (b.toNat + 1) := Nat.mul_pos (by omega) (by omega)
  omega

/-- **A seed's table rises**, whatever the bytes are. -/
theorem dcmfToCmf_rises {dcmf : List UInt8} (hlen : dcmf.length ≤ 32767) :
    Rises (dcmfToCmf dcmf) := by
  cases dcmf with
  | nil => exact ⟨rfl, List.pairwise_singleton _ 0, fun x hx => by
      rw [List.mem_singleton.mp hx]
      decide⟩
  | cons b rest =>
      have hnonneg : ∀ x ∈ (b :: rest).map
          fun b => min (((b.toNat + 1) * (b.toNat + 1) : Nat) : Int) 65535, 0 ≤ x := by
        intro x hx
        obtain ⟨b, _, rfl⟩ := List.mem_map.mp hx
        exact Int.le_of_lt (square_pos b)
      refine pdfToCmf_rises ?_ hnonneg (rowSum_pos (square_pos b) hnonneg List.mem_cons_self)
      rwa [List.length_map]

theorem length_dcmfToCmf (dcmf : List UInt8) : (dcmfToCmf dcmf).length = dcmf.length + 1 := by
  unfold dcmfToCmf
  rw [length_pdfToCmf, List.length_map]

/-! ## 4. The tables of a seed -/

section

variable (seed : CcSeed)

theorem build_splitCmf {total : Nat} (hpos : 0 < total) (htotal : total < 160) :
    seed.build.splitCmf total = splitRow total := by
  show createSplitCmfs.getD (total - 1) [] = _
  unfold createSplitCmfs SPLIT_NUM_TABLES SMPL_MAX_PULSES_PER_SF
  rw [List.getD_eq_getElem _ _ (by rw [List.length_map, List.length_range]; omega),
    List.getElem_map, List.getElem_range, Nat.sub_add_cancel hpos]

theorem build_maxSamples {oct : Nat} (hpos : 0 < oct) (hoct : oct ≤ 20) :
    seed.build.maxSamples oct = oct * 8 := by
  show (createRunlen.map (·.maxSamples)).getD (oct - 1) 0 = _
  unfold createRunlen NUM_RUNLEN_CMFS RUNLENGTH_STEP
  rw [List.map_map, List.getD_eq_getElem _ _ (by rw [List.length_map, List.length_range]; omega),
    List.getElem_map, List.getElem_range]
  show (oct - 1 + 1) * 8 = _
  rw [Nat.sub_add_cancel hpos]

theorem build_runlenCmf {oct c : Nat} (hpos : 0 < oct) (hoct : oct ≤ 20) (hc : 0 < c)
    (hcount : c ≤ 40) : seed.build.runlenCmf oct c = runlenRow (oct * 8) c := by
  show ((createRunlen.map (·.cmfs)).getD (oct - 1) []).getD (c - 1) [] = _
  unfold createRunlen NUM_RUNLEN_CMFS RUNLENGTH_STEP
  rw [List.map_map, List.getD_eq_getElem (n := oct - 1) _ _
      (by rw [List.length_map, List.length_range]; omega), List.getElem_map, List.getElem_range]
  show ((List.range 40).map fun i => runlenRow ((oct - 1 + 1) * 8) (i + 1)).getD (c - 1) [] = _
  rw [List.getD_eq_getElem _ _ (by rw [List.length_map, List.length_range]; omega),
    List.getElem_map, List.getElem_range, Nat.sub_add_cancel hpos, Nat.sub_add_cancel hc]

/-- A seed with as many bytes as the codec asserts; of the pulse counts, which it does not measure,
    no more than a table has room for. -/
structure CcSeed.Sound : Prop where
  gain : seed.nrgresGain4Dcmf.length = 84
  shape : seed.nrgresShape4Dcmf.length = 98
  offset : seed.fcbgOffsetDcmf.length = 12 * FCBG_OFFSET_STEPS
  acbgains : seed.acbgainsHrDcmf.length = (ACBG_N + 1) * ACBG_N
  fcbgains : seed.fcbgainsVDcmf.length = FCBG_V_N
  fcbgainsDelta : seed.fcbgainsVDeltaDcmf.length = 67
  pulses : ∀ dcmf ∈ [seed.nPulsesDcmfBgn, seed.nPulsesDcmfUv, seed.nPulsesDcmfV],
    dcmf.length ≤ 32767

/-- The rows of the gains, which the codec keeps one behind the other. -/
def CcTables.acbgainRows (cc : CcTables) : List (List UInt16) :=
  chunksExact (ACBG_N + 1) (ACBG_N + 1) cc.acbgainsHr

/-- Every table there is. -/
def CcTables.all (cc : CcTables) : List (List UInt16) :=
  cc.nrgresGain4 :: cc.nrgresShape4 :: cc.fcbgainsV :: cc.fcbgainsVDelta ::
    (cc.acbgainRows ++ cc.fcbgOffset ++ cc.nPulseCmfs ++ cc.splitCmfs ++
      cc.runlen.flatMap (·.cmfs))

theorem length_chunksExact {α : Type} {size count : Nat} {xs : List α}
    (hlen : xs.length = count * size) : ∀ c ∈ chunksExact size count xs, c.length = size := by
  intro c hc
  obtain ⟨i, hi, rfl⟩ := List.mem_map.mp hc
  have hlt := List.mem_range.mp hi
  have hle : (i + 1) * size ≤ count * size := Nat.mul_le_mul_right size hlt
  rw [Nat.add_mul] at hle
  rw [List.length_take, List.length_drop]
  omega

variable {seed}

theorem CcSeed.Sound.fcbgOffset (h : seed.Sound) : ∀ row ∈ seed.build.fcbgOffset,
    Rises row ∧ row.length = 177 := by
  intro row hrow
  obtain ⟨dcmf, hdcmf, rfl⟩ := List.mem_map.mp hrow
  have hcount : seed.fcbgOffsetDcmf.length / FCBG_OFFSET_STEPS * FCBG_OFFSET_STEPS =
      seed.fcbgOffsetDcmf.length := by
    rw [h.offset]
    rfl
  have hlen : dcmf.length = 176 := length_chunksExact hcount.symm dcmf hdcmf
  exact ⟨dcmfToCmf_rises (by omega), by rw [length_dcmfToCmf, hlen]⟩

theorem CcSeed.Sound.gain4 (h : seed.Sound) : Rises seed.build.nrgresGain4 :=
  dcmfToCmf_rises (by rw [h.gain]; decide)

theorem CcSeed.Sound.shape4 (h : seed.Sound) : Rises seed.build.nrgresShape4 :=
  dcmfToCmf_rises (by rw [h.shape]; decide)

theorem CcSeed.Sound.filters (h : seed.Sound) : Rises seed.build.fcbgainsV :=
  dcmfToCmf_rises (by rw [h.fcbgains]; decide)

theorem CcSeed.Sound.filterDeltas (h : seed.Sound) : Rises seed.build.fcbgainsVDelta :=
  dcmfToCmf_rises (by rw [h.fcbgainsDelta]; decide)

/-- A row of the gains is the row of its chunk. -/
theorem CcSeed.Sound.gainRow (h : seed.Sound) {i : Nat} (hi : i < 17) :
    Rises ((seed.build.acbgainsHr.drop (i * 17)).take 17) ∧
      ((seed.build.acbgainsHr.drop (i * 17)).take 17).length = 17 := by
  have hcount : seed.acbgainsHrDcmf.length / ACBG_N = 17 := by
    rw [h.acbgains]
    rfl
  have hlen : ∀ c ∈ chunksExact ACBG_N 17 seed.acbgainsHrDcmf, c.length = 16 :=
    length_chunksExact h.acbgains
  have hrow : ∀ c ∈ chunksExact ACBG_N 17 seed.acbgainsHrDcmf, (dcmfToCmf c).length = 17 :=
    fun c hc => by rw [length_dcmfToCmf, hlen c hc]
  have hi' : i < (chunksExact ACBG_N 17 seed.acbgainsHrDcmf).length := by
    unfold chunksExact
    rwa [List.length_map, List.length_range]
  show Rises ((((chunksExact ACBG_N (seed.acbgainsHrDcmf.length / ACBG_N)
    seed.acbgainsHrDcmf).flatMap dcmfToCmf).drop (i * 17)).take 17) ∧ _
  rw [hcount, take_flatMap hrow hi']
  refine ⟨dcmfToCmf_rises (by rw [hlen _ (List.getElem_mem hi')]; decide), ?_⟩
  show ((((chunksExact ACBG_N (seed.acbgainsHrDcmf.length / ACBG_N)
    seed.acbgainsHrDcmf).flatMap dcmfToCmf).drop (i * 17)).take 17).length = 17
  rw [hcount, take_flatMap hrow hi', hrow _ (List.getElem_mem hi')]

/-- **Every table of every seed rises.** -/
theorem build_rises (h : seed.Sound) : ∀ table ∈ seed.build.all, Rises table := by
  intro table htable
  unfold CcTables.all at htable
  rcases List.mem_cons.mp htable with rfl | htable
  · exact h.gain4
  rcases List.mem_cons.mp htable with rfl | htable
  · exact h.shape4
  rcases List.mem_cons.mp htable with rfl | htable
  · exact h.filters
  rcases List.mem_cons.mp htable with rfl | htable
  · exact h.filterDeltas
  rcases List.mem_append.mp htable with htable | htable
  · rcases List.mem_append.mp htable with htable | htable
    · rcases List.mem_append.mp htable with htable | htable
      · rcases List.mem_append.mp htable with htable | htable
        · obtain ⟨i, hi, rfl⟩ := List.mem_map.mp htable
          exact (h.gainRow (List.mem_range.mp hi)).1
        · exact (h.fcbgOffset table htable).1
      · obtain ⟨dcmf, hdcmf, rfl⟩ := List.mem_map.mp htable
        exact dcmfToCmf_rises (h.pulses dcmf hdcmf)
    · obtain ⟨i, hi, rfl⟩ := List.mem_map.mp htable
      have : i < 159 := List.mem_range.mp hi
      exact splitRow_rises (by omega) (by omega)
  · obtain ⟨bucket, hbucket, htable⟩ := List.mem_flatMap.mp htable
    obtain ⟨i, hi, rfl⟩ := List.mem_map.mp hbucket
    obtain ⟨c, _, rfl⟩ := List.mem_map.mp htable
    have : i < 20 := List.mem_range.mp hi
    unfold RUNLENGTH_STEP
    exact runlenRow_rises (by omega) (by omega) (c + 1)

end

/-- A seed of one weight throughout. -/
def flatSeed : CcSeed where
  nrgresGain4Dcmf := List.replicate 84 7
  nrgresShape4Dcmf := List.replicate 98 7
  fcbgOffsetDcmf := List.replicate (12 * FCBG_OFFSET_STEPS) 7
  acbgainsHrDcmf := List.replicate ((ACBG_N + 1) * ACBG_N) 7
  fcbgainsVDcmf := List.replicate FCBG_V_N 7
  fcbgainsVDeltaDcmf := List.replicate 67 7
  acbgainsCbHrQ14 := List.replicate 32 5000
  nPulsesDcmfBgn := List.replicate 17 7
  nPulsesDcmfUv := List.replicate 33 7
  nPulsesDcmfV := List.replicate 33 7
  gainRecon := List.replicate 200 1
  gainReconBase := 0xf35e0

theorem flatSeed_sound : flatSeed.Sound where
  gain := List.length_replicate
  shape := List.length_replicate
  offset := List.length_replicate
  acbgains := List.length_replicate
  fcbgains := List.length_replicate
  fcbgainsDelta := List.length_replicate
  pulses := by
    intro dcmf hdcmf
    have hlen : dcmf.length = 17 ∨ dcmf.length = 33 := by
      rcases List.mem_cons.mp hdcmf with rfl | hdcmf
      · exact Or.inl List.length_replicate
      rcases List.mem_cons.mp hdcmf with rfl | hdcmf
      · exact Or.inr List.length_replicate
      · rw [List.mem_singleton.mp hdcmf]
        exact Or.inr List.length_replicate
    omega

theorem build_rises_flat : Rises flatSeed.build.nrgresShape4 :=
  build_rises flatSeed_sound _ (List.mem_cons_of_mem _ List.mem_cons_self)

end Ruwa.Call
