/-
  File:      Ruwa/Call/Pulses.lean
  Subject:   THE PULSES OF A FRAME OF SPEECH (`call/mlow/smpl_pulse.rs`, with the encoder's side in
             `encode.rs` and `analysis.rs`).

  The excitation of a frame is 320 samples, nearly all of them zero. Coded are the number of pulses,
  its split over the four quarters, the runs from one pulse to the next, and the signs.

  * `Runs` and `place` -- the symbols of a quarter, and what the reader makes of them, apart from
    any range coder; `place_magRuns`: the quarter's pulses, where they were;
  * `signBatch_packSigns` -- fifteen signs a symbol;
  * `scatter_spikes` -- the pulses are put where they were;
  * **`inverts_pulses`** -- the reader gets the excitation back.
-/
import Ruwa.Call.CodecTables
import Ruwa.Call.RangeTrip

namespace Ruwa.Call

open Ruwa.Library

/-! ## 1. The reader -/

def SMPL_INTF_LEN : Nat := 320

/-- The samples of a quarter. -/
def posPer : Nat := SMPL_INTF_LEN / 4

def SMPL_PULSE_COUNT_BYTE : List Nat := [80, 160, 160, 16, 32, 32, 0, 0]

def mem8Static (at_ : Nat) : Nat := SMPL_PULSE_COUNT_BYTE.getD at_ 0

/-- The most pulses of a frame. Every caller passes 320 samples, four quarters and the regular
    flag. -/
def frameLen4k (p6 s1 : Nat) : Nat := mem8Static (p6 * 3 + (1 + s1)) * SMPL_INTF_LEN / 320

/-- The most pulses of a quarter. -/
def subfrLen16 (p6 s1 : Nat) : Nat := frameLen4k p6 s1 / 4

/-- The cumulative frequency of up to `k` pulses, on 32 bits. -/
def triT (l k : Nat) : Nat :=
  let a := wrappingMul ((k + 2) % 2 ^ 32) ((l + 1) % 2 ^ 32)
  let b := wrappingMul (wrappingSub k 1) ((k + 131070) % 2 ^ 32) >>> 1
  wrappingSub a b &&& 0xffff

def triFt (l : Nat) : Nat := if triT l l = 0 then 1 else triT l l

/-- The search for the number of pulses, among the `left` that are left. -/
def countSearch (l val : Nat) : Nat → Nat → Nat → RangeDecoder → Nat × RangeDecoder
  | 0, k, _, d => (k, d)
  | left + 1, k, prevCum, d =>
      if prevCum ≤ val ∧ val < triT l k then (k, d.update prevCum (triT l k) (triFt l))
      else countSearch l val left (k + 1) (triT l k) d

def decodeCount (d : RangeDecoder) (cc : CcTables) (p6 s1 : Nat) : Nat × RangeDecoder :=
  if p6 ≠ 0 then d.decodeCdf (cc.nPulseCount (1 + s1))
  else
    let (val, d) := d.decode (triFt (frameLen4k p6 s1))
    countSearch (frameLen4k p6 s1) val (frameLen4k p6 s1 + 1) 0 0 d

/-- `smpl_split_3537`: the pulses of the first of two quarters. -/
def split3537 (d : RangeDecoder) (cc : CcTables) (count granularity : Nat) :
    Option Nat × RangeDecoder :=
  let lo := min count granularity
  let minSplit := count - granularity
  if lo < minSplit then (none, d)
  else if minSplit = lo then (some minSplit, d)
  else
    let (k, d) := d.decodeCdfWindow (cc.splitCmf count) minSplit (lo - minSplit + 2)
    (some (k + minSplit), d)

/-- The pulses of the quarters, `sum` of them in the first half. Where one half cannot be split,
    there are none at all. -/
def quarterCounts (total sum : Nat) : Option Nat → Option Nat → List Nat
  | some s0, some s2 => [s0, sum - s0, s2, total - sum - s2]
  | _, _ => [0, 0, 0, 0]

def decodeHalves (d : RangeDecoder) (cc : CcTables) (total sum granularity : Nat) :
    List Nat × RangeDecoder :=
  let (s0, d) := if sum > 0 then split3537 d cc sum granularity else (some 0, d)
  let (s2, d) := if sum < total then split3537 d cc (total - sum) granularity else (some 0, d)
  (quarterCounts total sum s0 s2, d)

/-- The split over the quarters. The source returns at once where there is nothing to split. -/
def decodeSplits (d : RangeDecoder) (cc : CcTables) (total granularity : Nat) :
    List Nat × RangeDecoder :=
  let init := total - granularity * 2
  let lo := total - 80
  if total = 0 ∨ init < lo then ([0, 0, 0, 0], d)
  else
    let (k, d) :=
      if init < total - lo then
        d.decodeCdfWindow (cc.splitCmf total) (init - lo) (total - lo - init + 2)
      else (0, d)
    decodeHalves d cc total (init + k) granularity

/-- One more at the place of the last pulse, which is the head of the list. -/
def bump : List (Nat × Int) → List (Nat × Int)
  | [] => []
  | (at_, mag) :: rest => (at_, mag + 1) :: rest

/-- The pulses of a quarter with `cnt`, of which `c` are left, in what is left of it. -/
def decodeRuns (cc : CcTables) (cnt : Nat) :
    Nat → Nat → Nat → List (Nat × Int) → RangeDecoder → List (Nat × Int) × RangeDecoder
  | 0, _, _, placed, d => (placed, d)
  | c + 1, pos, runPos, placed, d =>
      let oct := (pos + 7) / 8
      let (m, d) :=
        d.decodeCdfWindow (cc.runlenCmf oct (c + 1)) (cc.maxSamples oct - pos) (pos + 1)
      if m > 0 ∨ c + 1 = cnt then
        decodeRuns cc cnt c (pos - m) (runPos + m) ((runPos + m, 1) :: placed) d
      else decodeRuns cc cnt c pos runPos (bump placed) d

def decodeMagnitudes (cc : CcTables) :
    List Nat → Nat → List (Nat × Int) → RangeDecoder → List (Nat × Int) × RangeDecoder
  | [], _, placed, d => (placed, d)
  | cnt :: rest, base, placed, d =>
      if cnt = 0 then decodeMagnitudes cc rest (base + posPer) placed d
      else
        let (placed, d) := decodeRuns cc cnt cnt posPer base placed d
        decodeMagnitudes cc rest (base + posPer) placed d

/-- The signs of one symbol, from the highest bit down. -/
def signBatch : Nat → List (Nat × Int) → List (Nat × Int)
  | _, [] => []
  | bitfield, (at_, mag) :: rest =>
      (at_, mag * (((bitfield >>> 14 &&& 2 : Nat) : Int) - 1)) ::
        signBatch ((bitfield <<< 1) % 2 ^ 32) rest

/-- All signs, in at most `rounds` symbols. -/
def decodeSigns : Nat → List (Nat × Int) → RangeDecoder → List (Nat × Int) × RangeDecoder
  | 0, placed, d => (placed, d)
  | rounds + 1, placed, d =>
      if placed = [] then ([], d)
      else
        let nbits := min placed.length 15
        let (sym, d) := d.decodeRawSymbol nbits
        let (rest, d) := decodeSigns rounds (placed.drop nbits) d
        (signBatch ((sym <<< (16 - nbits)) % 2 ^ 32) (placed.take nbits) ++ rest, d)

/-- The pulses in their places; a place outside is left out. -/
def scatter (placed : List (Nat × Int)) (pulses : List Int) : List Int :=
  placed.foldl (fun pulses p => pulses.set p.1 p.2) pulses

structure SmplPulseResult where
  pulses : List Int
  subfr : List Nat

/-- The pulses, after their split. -/
def decodeExcitation (d : RangeDecoder) (cc : CcTables) (subfr : List Nat) :
    SmplPulseResult × RangeDecoder :=
  let (placed, d) := decodeMagnitudes cc subfr 0 [] d
  let (placed, d) := decodeSigns placed.length placed.reverse d
  ({ pulses := scatter placed (List.replicate SMPL_INTF_LEN 0), subfr }, d)

def decodeSmplPulses (d : RangeDecoder) (cc : CcTables) (p6 s1 : Nat) :
    SmplPulseResult × RangeDecoder :=
  let (total, d) := decodeCount d cc p6 s1
  let (subfr, d) := decodeSplits d cc total (subfrLen16 p6 s1)
  decodeExcitation d cc subfr

/-! ## 2. The writer -/

/-- A symbol of equal frequencies. -/
structure SmplRawSym where
  sym : Nat
  nbits : Nat

structure SmplPulseParams where
  total : Nat
  subfr : List Nat
  magRuns : List Nat
  signSyms : List SmplRawSym

/-- The pulses of a quarter: how far from the one before, and a zero for each one more in place. -/
def magRuns : Nat → Nat → List Int → List Nat
  | _, _, [] => []
  | runPos, p, v :: rest =>
      if v = 0 then magRuns runPos (p + 1) rest
      else (p - runPos) :: (List.replicate (v.natAbs - 1) 0 ++ magRuns p (p + 1) rest)

/-- The signs of the pulses, as bits. -/
def signs (samples : List Int) : List Nat :=
  (samples.filter (· ≠ 0)).map fun v => if v < 0 then 0 else 1

/-- The bits in one symbol, the first one highest. -/
def packSigns : List Nat → Nat
  | [] => 0
  | bit :: rest => bit <<< rest.length ||| packSigns rest

def signSyms : Nat → List Nat → List SmplRawSym
  | 0, _ => []
  | rounds + 1, bits =>
      if bits = [] then []
      else
        let nbits := min bits.length 15
        ⟨packSigns (bits.take nbits), nbits⟩ :: signSyms rounds (bits.drop nbits)

/-- The pulses of some samples. -/
def pulseSum (samples : List Int) : Nat := (samples.map Int.natAbs).foldr (· + ·) 0

/-- The samples of one quarter. -/
def quarter (pulse : List Int) (sf : Nat) : List Int := (pulse.drop (sf * posPer)).take posPer

/-- A quarter without pulses is skipped. -/
def pulsedQuarters (pulse : List Int) : List (Nat × List Int) :=
  ((List.range 4).map fun sf => (sf * posPer, quarter pulse sf)).filter (pulseSum ·.2 ≠ 0)

def smplBuildPulseParams (pulse : List Int) : SmplPulseParams where
  total := ((List.range 4).map fun sf => pulseSum (quarter pulse sf)).foldr (· + ·) 0
  subfr := (List.range 4).map fun sf => pulseSum (quarter pulse sf)
  magRuns := (pulsedQuarters pulse).flatMap fun q => magRuns q.1 q.1 q.2
  signSyms :=
    let bits := (pulsedQuarters pulse).flatMap fun q => signs q.2
    signSyms bits.length bits

def encodeCount (e : RangeEncoder) (p6 s1 total : Nat) : RangeEncoder :=
  let l := frameLen4k p6 s1
  e.encode (if total > 0 then triT l (total - 1) else 0) (triT l total) (triFt l)

def encodeSplit3537 (e : RangeEncoder) (cc : CcTables) (count granularity s0 : Nat) :
    RangeEncoder :=
  let lo := min count granularity
  let minSplit := count - granularity
  if lo < minSplit ∨ minSplit = lo then e
  else e.encodeCdfWindow (s0 - minSplit) (cc.splitCmf count) minSplit (lo - minSplit + 2)

def encodeHalves (e : RangeEncoder) (cc : CcTables) (total finalSum granularity s0 s2 : Nat) :
    RangeEncoder :=
  let e := if finalSum > 0 then encodeSplit3537 e cc finalSum granularity s0 else e
  if finalSum < total then encodeSplit3537 e cc (total - finalSum) granularity s2 else e

def encodeSplits (e : RangeEncoder) (cc : CcTables) (granularity : Nat) (pp : SmplPulseParams) :
    RangeEncoder :=
  let finalSum := pp.subfr.getD 0 0 + pp.subfr.getD 1 0
  let init := pp.total - granularity * 2
  let lo := pp.total - 80
  let e :=
    if init < pp.total - lo then
      e.encodeCdfWindow (finalSum - init) (cc.splitCmf pp.total) (init - lo)
        (pp.total - lo - init + 2)
    else e
  encodeHalves e cc pp.total finalSum granularity (pp.subfr.getD 0 0) (pp.subfr.getD 2 0)

/-- The recorded runs of a quarter, with what is left of them. -/
def encodeRuns (cc : CcTables) (cnt : Nat) :
    Nat → Nat → List Nat → RangeEncoder → List Nat × RangeEncoder
  | 0, _, runs, e => (runs, e)
  | c + 1, pos, runs, e =>
      let oct := (pos + 7) / 8
      let m := runs.headD 0
      let e := e.encodeCdfWindow m (cc.runlenCmf oct (c + 1)) (cc.maxSamples oct - pos) (pos + 1)
      encodeRuns cc cnt c (if m > 0 ∨ c + 1 = cnt then pos - m else pos) runs.tail e

def encodeMagnitudes (cc : CcTables) : List Nat → List Nat → RangeEncoder → RangeEncoder
  | [], _, e => e
  | cnt :: rest, runs, e =>
      if cnt = 0 then encodeMagnitudes cc rest runs e
      else
        let (runs, e) := encodeRuns cc cnt cnt posPer runs e
        encodeMagnitudes cc rest runs e

def encodeSigns (syms : List SmplRawSym) (e : RangeEncoder) : RangeEncoder :=
  syms.foldl (fun e rs => e.encodeRawSymbol rs.sym rs.nbits) e

def encodeSmplPulses (e : RangeEncoder) (cc : CcTables) (p6 s1 : Nat) (pp : SmplPulseParams) :
    RangeEncoder :=
  let e := encodeCount e p6 s1 pp.total
  if pp.total = 0 ∨ pp.total - subfrLen16 p6 s1 * 2 < pp.total - 80 then e
  else
    encodeSigns pp.signSyms
      (encodeMagnitudes cc pp.subfr pp.magRuns (encodeSplits e cc (subfrLen16 p6 s1) pp))

/-! ## 3. Symbols of a window -/

/-- A later entry is no smaller. -/
theorem getD_le {table : List UInt16} (h : table.Pairwise (· < ·)) {i j : Nat} (hij : i ≤ j)
    (hj : j < table.length) : (table.getD i 0).toNat ≤ (table.getD j 0).toNat := by
  rw [List.getD_eq_getElem _ _ (by omega), List.getD_eq_getElem _ _ hj]
  rcases Nat.eq_or_lt_of_le hij with rfl | hlt
  · exact Nat.le_refl _
  · have := List.pairwise_iff_getElem.mp h i j (by omega) hj hlt
    exact Nat.le_of_lt (UInt16.lt_iff_toNat_lt.mp this)

/-- **A symbol of a window of a table.** -/
theorem inverts_window {table : List UInt16} (h : Rises table) {start n v : Nat}
    (hfit : start + n ≤ table.length) (hv : v + 1 < n) :
    Inverts (fun e => e.encodeCdfWindow v table start n)
      (fun d => d.decodeCdfWindow table start n) v 0 := by
  refine inverts_entries ⟨fun j k hjk hk => getD_le h.ascends (by omega) (by omega), hv, ?_, ?_⟩
  · have := List.pairwise_iff_getElem.mp h.ascends (start + v) (start + (v + 1)) (by omega)
      (by omega) (by omega)
    rw [List.getD_eq_getElem _ _ (by omega), List.getD_eq_getElem _ _ (by omega)]
    exact UInt16.lt_iff_toNat_lt.mp this
  · exact UInt16.toNat_lt _

theorem Rises.table {table : List UInt16} (h : Rises table) {v : Nat} (hv : v + 1 < table.length) :
    Table table v := by
  refine ⟨h.ascends.imp UInt16.le_of_lt, hv, ?_⟩
  rw [List.getD_eq_getElem _ _ (by omega), List.getD_eq_getElem _ _ hv]
  exact List.pairwise_iff_getElem.mp h.ascends v (v + 1) (by omega) hv (by omega)

/-- A symbol of a whole table. -/
theorem inverts_cdf {table : List UInt16} {v : Nat} (h : Table table v) :
    Inverts (fun e => e.encodeCdf v table) (fun d => d.decodeCdf table) v 0 :=
  inverts_entries h.entries

/-! ## 4. The number of pulses -/

theorem triT_lt : ∀ k < 160, triT 160 k < triT 160 (k + 1) := by decide +kernel

-- The numbers are compared by these facts alone, and never computed again.
attribute [irreducible] triT triFt

theorem triT_mono {j k : Nat} (hjk : j ≤ k) (hk : k ≤ 160) : triT 160 j ≤ triT 160 k := by
  induction k with
  | zero =>
      obtain rfl : j = 0 := by omega
      exact Nat.le_refl _
  | succ k ih =>
      have hlast := triT_lt k (by omega)
      rcases Nat.eq_or_lt_of_le hjk with rfl | hlt
      · exact Nat.le_refl _
      · have := ih (by omega) (by omega)
        omega

/-- Up to fewer than `k` pulses. -/
def triBelow (k : Nat) : Nat := if k > 0 then triT 160 (k - 1) else 0

theorem triBelow_zero : triBelow 0 = 0 := if_neg (Nat.lt_irrefl 0)

theorem triBelow_succ (k : Nat) : triBelow (k + 1) = triT 160 k := if_pos (Nat.succ_pos k)

theorem triBelow_lt {k : Nat} (hk : k ≤ 160) : triBelow k < triT 160 k := by
  unfold triBelow
  split
  · have := triT_lt (k - 1) (by omega)
    rwa [Nat.sub_add_cancel (by omega)] at this
  · obtain rfl : k = 0 := by omega
    decide +kernel

theorem triFt_eq : triFt 160 = triT 160 160 := by decide +kernel

theorem triT_last : triT 160 160 ≤ 2 ^ 23 := by decide +kernel

theorem countSearch_eq {val total : Nat} (htotal : total ≤ 160) (hlow : triBelow total ≤ val)
    (hhigh : val < triT 160 total) (d : RangeDecoder) :
    ∀ {n k : Nat}, k ≤ total → total < k + n →
      countSearch 160 val n k (triBelow k) d =
        (total, d.update (triBelow total) (triT 160 total) (triFt 160))
  | 0, k, hk, hleft => by omega
  | left + 1, k, hk, hleft => by
      unfold countSearch
      rcases Nat.eq_or_lt_of_le hk with rfl | hbefore
      · rw [if_pos ⟨hlow, hhigh⟩]
      · have hbelow : triT 160 k ≤ triBelow total := by
          unfold triBelow
          rw [if_pos (by omega)]
          exact triT_mono (by omega) (by omega)
        have hnext := countSearch_eq htotal hlow hhigh d (n := left) (k := k + 1) hbefore
          (by omega)
        rw [triBelow_succ] at hnext
        rw [if_neg fun h => Nat.not_lt.mpr hbelow (Nat.lt_of_le_of_lt hlow h.2)]
        exact hnext

theorem frameLen4k_eq {s1 : Nat} (hs1 : s1 ≤ 1) : frameLen4k 0 s1 = 160 := by
  rcases Nat.le_one_iff_eq_zero_or_eq_one.mp hs1 with rfl | rfl <;> rfl

/-- **The number of pulses is read back.** -/
theorem inverts_count (cc : CcTables) {s1 total : Nat} (hs1 : s1 ≤ 1) (htotal : total ≤ 160) :
    Inverts (fun e => encodeCount e 0 s1 total) (fun d => decodeCount d cc 0 s1) total 0 := by
  have hfreq : Frequencies (triBelow total) (triT 160 total) (triFt 160) := by
    rw [triFt_eq]
    exact ⟨triBelow_lt htotal, triT_mono htotal (Nat.le_refl 160), triT_last⟩
  have henc : (fun e => encodeCount e 0 s1 total) =
      fun e => e.encode (triBelow total) (triT 160 total) (triFt 160) := by
    funext e
    unfold encodeCount triBelow
    rw [frameLen4k_eq hs1]
  rw [henc]
  refine inverts_encode hfreq fun d fs heq hlow hhigh => ?_
  unfold decodeCount
  rw [if_neg (fun h => h rfl), frameLen4k_eq hs1, heq]
  have hsearch := countSearch_eq htotal hlow hhigh { d with ext := d.rng / triFt 160 }
    (Nat.zero_le total) (show total < 0 + (160 + 1) by omega)
  rw [triBelow_zero] at hsearch
  exact hsearch

/-! ## 5. The split -/

section

variable (seed : CcSeed)

theorem inverts_split3537 {s0 s1 : Nat} (hs0 : s0 ≤ 40) (hs1 : s1 ≤ 40) :
    Inverts (fun e => encodeSplit3537 e seed.build (s0 + s1) 40 s0)
      (fun d => split3537 d seed.build (s0 + s1) 40) (some s0) 0 := by
  have hlo : ¬ min (s0 + s1) 40 < s0 + s1 - 40 := by omega
  unfold encodeSplit3537 split3537
  by_cases heq : s0 + s1 - 40 = min (s0 + s1) 40
  · simp only [if_neg hlo, if_pos heq, if_pos (Or.inr heq)]
    have hall : s0 + s1 - 40 = s0 := by omega
    rw [hall]
    exact Inverts.pure (some s0)
  · have hboth : ¬ (min (s0 + s1) 40 < s0 + s1 - 40 ∨ s0 + s1 - 40 = min (s0 + s1) 40) :=
      fun h => h.elim hlo heq
    simp only [if_neg hlo, if_neg heq, if_neg hboth]
    rw [build_splitCmf seed (by omega) (by omega)]
    have hwindow := inverts_window (splitRow_rises (n := s0 + s1) (by omega) (by omega))
      (show s0 + s1 - 40 + (min (s0 + s1) 40 - (s0 + s1 - 40) + 2) ≤ _ by
        rw [length_splitRow]; omega) (v := s0 - (s0 + s1 - 40)) (by omega)
    have hmap := hwindow.map fun k => some (k + (s0 + s1 - 40))
    rwa [Nat.sub_add_cancel (by omega)] at hmap

/-- A step that is taken by both or by neither. -/
theorem Inverts.when {α : Type} {c : Prop} [Decidable c] {enc : RangeEncoder → RangeEncoder}
    {dec : RangeDecoder → α × RangeDecoder} {a b : α} (h : c → Inverts enc dec a 0)
    (hskip : ¬ c → b = a) :
    Inverts (fun e => if c then enc e else e) (fun d => if c then dec d else (b, d)) a 0 := by
  by_cases hc : c
  · simp only [if_pos hc]
    exact h hc
  · simp only [if_neg hc]
    rw [hskip hc]
    exact Inverts.pure a

theorem inverts_halves {s0 s1 s2 s3 : Nat} (hs0 : s0 ≤ 40) (hs1 : s1 ≤ 40) (hs2 : s2 ≤ 40)
    (hs3 : s3 ≤ 40) :
    Inverts (fun e => encodeHalves e seed.build (s0 + s1 + (s2 + s3)) (s0 + s1) 40 s0 s2)
      (fun d => decodeHalves d seed.build (s0 + s1 + (s2 + s3)) (s0 + s1) 40) [s0, s1, s2, s3]
      0 := by
  have hfirst := Inverts.when (c := s0 + s1 > 0) (b := some 0)
    (fun _ => inverts_split3537 seed hs0 hs1) (fun hc => by congr 1; omega)
  have hsecond := Inverts.when (c := s0 + s1 < s0 + s1 + (s2 + s3)) (b := some 0)
    (fun _ => inverts_split3537 seed hs2 hs3) (fun hc => by congr 1; omega)
  have hcounts : quarterCounts (s0 + s1 + (s2 + s3)) (s0 + s1) (some s0) (some s2) =
      [s0, s1, s2, s3] := by
    show [s0, s0 + s1 - s0, s2, s0 + s1 + (s2 + s3) - (s0 + s1) - s2] = _
    rw [Nat.add_sub_cancel_left, Nat.add_sub_cancel_left, Nat.add_sub_cancel_left]
  have hall := hfirst.bind (hsecond.map (quarterCounts (s0 + s1 + (s2 + s3)) (s0 + s1) (some s0)))
    (g := fun a d =>
      (quarterCounts (s0 + s1 + (s2 + s3)) (s0 + s1) a
        (if s0 + s1 < s0 + s1 + (s2 + s3) then split3537 d seed.build (s2 + s3) 40
          else (some 0, d)).1,
        (if s0 + s1 < s0 + s1 + (s2 + s3) then split3537 d seed.build (s2 + s3) 40
          else (some 0, d)).2))
  rw [hcounts] at hall
  unfold encodeHalves decodeHalves
  rw [Nat.add_sub_cancel_left]
  exact hall

/-- **The split over the quarters is read back.** -/
theorem inverts_splits {pp : SmplPulseParams} {s0 s1 s2 s3 : Nat} (hs0 : s0 ≤ 40) (hs1 : s1 ≤ 40)
    (hs2 : s2 ≤ 40) (hs3 : s3 ≤ 40) (htotal : pp.total = s0 + s1 + (s2 + s3))
    (hsubfr : pp.subfr = [s0, s1, s2, s3]) (hpos : pp.total ≠ 0) :
    Inverts (fun e => encodeSplits e seed.build 40 pp)
      (fun d => decodeSplits d seed.build pp.total 40) pp.subfr 0 := by
  have hnone : ¬ (pp.total = 0 ∨ pp.total - 40 * 2 < pp.total - 80) := by omega
  have hrow : pp.total - 40 * 2 < pp.total - (pp.total - 80) →
      Inverts
        (fun e => e.encodeCdfWindow (s0 + s1 - (pp.total - 40 * 2)) (seed.build.splitCmf pp.total)
          (pp.total - 40 * 2 - (pp.total - 80))
          (pp.total - (pp.total - 80) - (pp.total - 40 * 2) + 2))
        (fun d => d.decodeCdfWindow (seed.build.splitCmf pp.total)
          (pp.total - 40 * 2 - (pp.total - 80))
          (pp.total - (pp.total - 80) - (pp.total - 40 * 2) + 2))
        (s0 + s1 - (pp.total - 40 * 2)) 0 := by
    intro hc
    rw [build_splitCmf seed (by omega) (by omega)]
    exact inverts_window (splitRow_rises (by omega) (by omega))
      (by rw [length_splitRow]; omega) (by omega)
  have hwindow := Inverts.when (b := 0) hrow (fun hc => by omega)
  have hhalves := inverts_halves seed hs0 hs1 hs2 hs3
  rw [← htotal, ← hsubfr] at hhalves
  have hsum : pp.total - 40 * 2 + (s0 + s1 - (pp.total - 40 * 2)) = s0 + s1 := by omega
  have hrest : Inverts (fun e => encodeHalves e seed.build pp.total (s0 + s1) 40 s0 s2)
      (fun d => decodeHalves d seed.build pp.total
        (pp.total - 40 * 2 + (s0 + s1 - (pp.total - 40 * 2))) 40) pp.subfr 0 := by
    rw [hsum]
    exact hhalves
  have hall := hwindow.bind (g := fun k d =>
    decodeHalves d seed.build pp.total (pp.total - 40 * 2 + k) 40) hrest
  unfold encodeSplits decodeSplits
  simp only [if_neg hnone]
  rw [hsubfr] at hall ⊢
  exact hall

/-! ## 6. The runs -/

/-- Symbols that the tables have, for the `c` pulses left in the `pos` samples left. -/
def Admitted (cnt : Nat) : List Nat → Nat → Nat → Prop
  | [], c, _ => c = 0
  | m :: rest, c, pos =>
      0 < c ∧ m < pos ∧ Admitted cnt rest (c - 1) (if m > 0 ∨ c = cnt then pos - m else pos)

/-- The pulses that are read from some symbols. -/
def place (cnt : Nat) : List Nat → Nat → Nat → List (Nat × Int) → List (Nat × Int)
  | [], _, _, placed => placed
  | m :: rest, c, runPos, placed =>
      if m > 0 ∨ c = cnt then place cnt rest (c - 1) (runPos + m) ((runPos + m, 1) :: placed)
      else place cnt rest (c - 1) runPos (bump placed)

theorem encodeRuns_fst (cc : CcTables) (cnt : Nat) :
    ∀ (c pos : Nat) (runs : List Nat) (e : RangeEncoder),
      (encodeRuns cc cnt c pos runs e).1 = runs.drop c
  | 0, _, _, _ => rfl
  | c + 1, pos, runs, e => by
      unfold encodeRuns
      rw [encodeRuns_fst cc cnt c, List.drop_tail]

theorem inverts_run {pos c m : Nat} (hpos : pos ≤ 80) (hc : 0 < c) (hcount : c ≤ 40)
    (hm : m < pos) :
    Inverts
      (fun e => e.encodeCdfWindow m (seed.build.runlenCmf ((pos + 7) / 8) c)
        (seed.build.maxSamples ((pos + 7) / 8) - pos) (pos + 1))
      (fun d => d.decodeCdfWindow (seed.build.runlenCmf ((pos + 7) / 8) c)
        (seed.build.maxSamples ((pos + 7) / 8) - pos) (pos + 1)) m 0 := by
  rw [build_runlenCmf seed (by omega) (by omega) hc hcount,
    build_maxSamples seed (by omega) (by omega)]
  exact inverts_window (runlenRow_rises (by omega) (by omega) c) (by rw [length_runlenRow]; omega)
    (by omega)

/-- **The runs of a quarter are read back**, as the pulses they place. -/
theorem inverts_runs (more : List Nat) {cnt : Nat} :
    ∀ {runs : List Nat} {c pos : Nat} (runPos : Nat) (placed : List (Nat × Int)), pos ≤ 80 →
      c ≤ 40 → Admitted cnt runs c pos →
      Inverts (fun e => (encodeRuns seed.build cnt c pos (runs ++ more) e).2)
        (fun d => decodeRuns seed.build cnt c pos runPos placed d)
        (place cnt runs c runPos placed) 0
  | [], c, pos, runPos, placed, _, _, hadmitted => by
      obtain rfl : c = 0 := hadmitted
      exact Inverts.pure placed
  | m :: rest, 0, _, _, _, _, _, hadmitted => absurd hadmitted.1 (Nat.lt_irrefl 0)
  | m :: rest, c + 1, pos, runPos, placed, hpos, hcount, hadmitted => by
      obtain ⟨hc, hm, hrest⟩ := hadmitted
      rw [Nat.add_sub_cancel] at hrest
      have hsymbol := inverts_run seed hpos hc hcount hm
      have hnext : Inverts
          (fun e => (encodeRuns seed.build cnt c (if m > 0 ∨ c + 1 = cnt then pos - m else pos)
            (rest ++ more) e).2)
          (fun d => if m > 0 ∨ c + 1 = cnt then
              decodeRuns seed.build cnt c (pos - m) (runPos + m) ((runPos + m, 1) :: placed) d
            else decodeRuns seed.build cnt c pos runPos (bump placed) d)
          (place cnt (m :: rest) (c + 1) runPos placed) 0 := by
        unfold place
        rw [Nat.add_sub_cancel]
        by_cases hnew : m > 0 ∨ c + 1 = cnt
        · rw [if_pos hnew] at hrest
          simp only [if_pos hnew]
          exact inverts_runs more _ _ (by omega) (by omega) hrest
        · rw [if_neg hnew] at hrest
          simp only [if_neg hnew]
          exact inverts_runs more _ _ hpos (by omega) hrest
      exact hsymbol.bind (g := fun m d =>
        if m > 0 ∨ c + 1 = cnt then
          decodeRuns seed.build cnt c (pos - m) (runPos + m) ((runPos + m, 1) :: placed) d
        else decodeRuns seed.build cnt c pos runPos (bump placed) d) hnext

end

/-- The pulses among some samples, from place `p` on, without their signs. -/
def spikes : Nat → List Int → List (Nat × Int)
  | _, [] => []
  | p, v :: rest => if v = 0 then spikes (p + 1) rest else (p, v.natAbs) :: spikes (p + 1) rest

/-- More pulses in the same place. -/
theorem place_more {cnt at_ runPos : Nat} {placed : List (Nat × Int)} {rest : List Nat} :
    ∀ (more c : Nat) (mag : Int), c + more < cnt →
      place cnt (List.replicate more 0 ++ rest) (c + more) runPos ((at_, mag) :: placed) =
        place cnt rest c runPos ((at_, mag + more) :: placed)
  | 0, c, mag, _ => by
      rw [Int.natCast_zero, Int.add_zero]
      rfl
  | more + 1, c, mag, hless => by
      have hold : ¬ (0 > 0 ∨ c + (more + 1) = cnt) := by omega
      show (if 0 > 0 ∨ c + (more + 1) = cnt then _
        else place cnt (List.replicate more 0 ++ rest) (c + more) runPos ((at_, mag + 1) :: placed)) = _
      rw [if_neg hold, place_more more c (mag + 1) (by omega), Int.natCast_add, Int.add_assoc,
        Int.add_comm 1]
      rfl

theorem admitted_more {cnt pos : Nat} {rest : List Nat} (hpos : 0 < pos) :
    ∀ (more c : Nat), c + more < cnt → Admitted cnt rest c pos →
      Admitted cnt (List.replicate more 0 ++ rest) (c + more) pos
  | 0, _, _, h => h
  | more + 1, c, hless, h => by
      have hold : ¬ (0 > 0 ∨ c + (more + 1) = cnt) := by omega
      refine ⟨Nat.succ_pos _, hpos, ?_⟩
      rw [if_neg hold]
      exact admitted_more hpos more c (by omega) h

theorem pulseSum_cons (v : Int) (rest : List Int) :
    pulseSum (v :: rest) = v.natAbs + pulseSum rest := rfl

/-- **The symbols of a quarter give its pulses.** -/
theorem place_magRuns {cnt last : Nat} :
    ∀ {samples : List Int} {runPos p : Nat} (placed : List (Nat × Int)), runPos ≤ p →
      p + samples.length = last → pulseSum samples ≤ cnt →
      (pulseSum samples = cnt ∨ runPos < p) →
      Admitted cnt (magRuns runPos p samples) (pulseSum samples) (last - runPos) ∧
        place cnt (magRuns runPos p samples) (pulseSum samples) runPos placed =
          (spikes p samples).reverse ++ placed
  | [], _, _, placed, _, _, _, _ => ⟨rfl, rfl⟩
  | v :: rest, runPos, p, placed, hle, hlast, hcnt, hfirst => by
      rw [List.length_cons] at hlast
      rw [pulseSum_cons] at hcnt hfirst ⊢
      unfold magRuns spikes
      by_cases hv : v = 0
      · subst hv
        rw [if_pos rfl, if_pos rfl]
        rw [Int.natAbs_zero, Nat.zero_add] at hcnt hfirst ⊢
        exact place_magRuns placed (by omega) (by omega) hcnt (by omega)
      · rw [if_neg hv, if_neg hv]
        have habs : 0 < v.natAbs := Int.natAbs_pos.mpr hv
        obtain ⟨z, hz⟩ : ∃ z, v.natAbs = z + 1 := ⟨v.natAbs - 1, by omega⟩
        rw [hz] at hcnt hfirst ⊢
        rw [Nat.add_sub_cancel]
        have hsum : z + 1 + pulseSum rest = pulseSum rest + z + 1 := by omega
        rw [hsum] at hcnt hfirst ⊢
        have hnew : p - runPos > 0 ∨ pulseSum rest + z + 1 = cnt := by omega
        have hp : runPos + (p - runPos) = p := by omega
        have hleft : last - runPos - (p - runPos) = last - p := by omega
        obtain ⟨hadmitted, hplace⟩ := @place_magRuns cnt last rest p (p + 1)
          ((p, 1 + (z : Int)) :: placed) (by omega) (by omega) (by omega) (by omega)
        constructor
        · refine ⟨Nat.succ_pos _, by omega, ?_⟩
          rw [if_pos hnew, hleft]
          exact admitted_more (by omega) z _ (by omega) hadmitted
        · unfold place
          rw [if_pos hnew, hp, Nat.add_sub_cancel, place_more z _ 1 (by omega), hplace,
            List.reverse_cons, List.append_assoc]
          have hmag : ((z + 1 : Nat) : Int) = 1 + z := by omega
          rw [hmag]
          rfl

theorem spikes_cons (p : Nat) (v : Int) (rest : List Int) :
    spikes p (v :: rest) =
      if v = 0 then spikes (p + 1) rest else (p, (v.natAbs : Int)) :: spikes (p + 1) rest := rfl

theorem spikes_append : ∀ (p : Nat) (xs ys : List Int),
    spikes p (xs ++ ys) = spikes p xs ++ spikes (p + xs.length) ys
  | _, [], _ => rfl
  | p, v :: rest, ys => by
      have hplace : p + (v :: rest).length = p + 1 + rest.length := by
        rw [List.length_cons]
        omega
      rw [List.cons_append, hplace, spikes_cons, spikes_cons, spikes_append (p + 1) rest ys]
      split
      · rfl
      · rw [List.cons_append]

/-- A quarter without pulses is all zeros. -/
theorem silent_of_pulseSum : ∀ {samples : List Int}, pulseSum samples = 0 →
    ∀ v ∈ samples, v = 0
  | v :: rest, h, w, hw => by
      rw [pulseSum_cons] at h
      rcases List.mem_cons.mp hw with rfl | hw
      · exact Int.natAbs_eq_zero.mp (by omega)
      · exact silent_of_pulseSum (by omega) w hw

theorem spikes_silent : ∀ (p : Nat) {samples : List Int}, (∀ v ∈ samples, v = 0) →
    spikes p samples = []
  | _, [], _ => rfl
  | p, v :: rest, h => by
      unfold spikes
      rw [if_pos (h v List.mem_cons_self)]
      exact spikes_silent (p + 1) fun w hw => h w (List.mem_cons_of_mem v hw)

theorem magRuns_silent (runPos : Nat) : ∀ (p : Nat) {samples : List Int}, (∀ v ∈ samples, v = 0) →
    magRuns runPos p samples = []
  | _, [], _ => rfl
  | p, v :: rest, h => by
      unfold magRuns
      rw [if_pos (h v List.mem_cons_self)]
      exact magRuns_silent runPos (p + 1) fun w hw => h w (List.mem_cons_of_mem v hw)

/-- The symbols of the quarters from `base` on. -/
def quarterRuns : Nat → List (List Int) → List Nat
  | _, [] => []
  | base, q :: rest => magRuns base base q ++ quarterRuns (base + posPer) rest

theorem length_magRuns : ∀ (runPos p : Nat) (samples : List Int),
    (magRuns runPos p samples).length = pulseSum samples
  | _, _, [] => rfl
  | runPos, p, v :: rest => by
      rw [pulseSum_cons]
      unfold magRuns
      split
      · rename_i hv
        rw [length_magRuns, hv, Int.natAbs_zero, Nat.zero_add]
      · rename_i hv
        have := Int.natAbs_pos.mpr hv
        rw [List.length_cons, List.length_append, List.length_replicate, length_magRuns]
        omega

/-- **The pulses of all quarters are read back.** -/
theorem inverts_magnitudes (seed : CcSeed) :
    ∀ {quarters : List (List Int)} (base : Nat) (placed : List (Nat × Int)),
      (∀ q ∈ quarters, q.length = posPer ∧ pulseSum q ≤ 40) →
      Inverts
        (fun e => encodeMagnitudes seed.build (quarters.map pulseSum) (quarterRuns base quarters) e)
        (fun d => decodeMagnitudes seed.build (quarters.map pulseSum) base placed d)
        ((spikes base quarters.flatten).reverse ++ placed) 0
  | [], base, placed, _ => Inverts.pure placed
  | q :: rest, base, placed, h => by
      obtain ⟨hlen, hsum⟩ := h q List.mem_cons_self
      have hrest := fun placed => inverts_magnitudes seed (base + posPer) placed
        fun r hr => h r (List.mem_cons_of_mem q hr)
      rw [List.flatten_cons, spikes_append, hlen, List.reverse_append, List.append_assoc,
        List.map_cons]
      unfold encodeMagnitudes decodeMagnitudes quarterRuns
      by_cases hzero : pulseSum q = 0
      · have hsilent := silent_of_pulseSum hzero
        simp only [if_pos hzero]
        rw [spikes_silent base hsilent, magRuns_silent base base hsilent]
        exact hrest placed
      · obtain ⟨hadmitted, hplace⟩ := @place_magRuns (pulseSum q) (base + posPer) q base base
          placed (Nat.le_refl base) (by rw [hlen]) (Nat.le_refl _) (Or.inl rfl)
        rw [Nat.add_sub_cancel_left] at hadmitted
        have hruns := inverts_runs seed (quarterRuns (base + posPer) rest) base placed
          (show posPer ≤ 80 by decide) hsum hadmitted
        rw [hplace] at hruns
        have hboth := hruns.bind (g := fun placed d =>
          decodeMagnitudes seed.build (rest.map pulseSum) (base + posPer) placed d) (hrest _)
        have hleft : (fun e => encodeMagnitudes seed.build (rest.map pulseSum)
            (encodeRuns seed.build (pulseSum q) (pulseSum q) posPer
              (magRuns base base q ++ quarterRuns (base + posPer) rest) e).1
            (encodeRuns seed.build (pulseSum q) (pulseSum q) posPer
              (magRuns base base q ++ quarterRuns (base + posPer) rest) e).2) =
            fun e => encodeMagnitudes seed.build (rest.map pulseSum) (quarterRuns (base + posPer) rest)
              (encodeRuns seed.build (pulseSum q) (pulseSum q) posPer
                (magRuns base base q ++ quarterRuns (base + posPer) rest) e).2 := by
          funext e
          rw [encodeRuns_fst, ← length_magRuns base base q, List.drop_left]
        simp only [if_neg hzero]
        rw [hleft]
        exact hboth

/-! ## 7. The signs -/

theorem packSigns_cons {b : Nat} {rest : List Nat} (h : packSigns rest < 2 ^ rest.length) :
    packSigns (b :: rest) = b * 2 ^ rest.length + packSigns rest := by
  show b <<< rest.length ||| packSigns rest = _
  rw [← Nat.shiftLeft_add_eq_or_of_lt h, Nat.shiftLeft_eq]

theorem packSigns_lt : ∀ {bits : List Nat}, (∀ b ∈ bits, b ≤ 1) →
    packSigns bits < 2 ^ bits.length
  | [], _ => Nat.one_pos
  | b :: rest, h => by
      have hb := h b List.mem_cons_self
      have hrest := packSigns_lt fun c hc => h c (List.mem_cons_of_mem b hc)
      rw [packSigns_cons hrest, List.length_cons, Nat.pow_succ]
      have : b * 2 ^ rest.length ≤ 1 * 2 ^ rest.length := Nat.mul_le_mul_right _ hb
      omega

/-- The pulses with their signs. -/
def signed (placed : List (Nat × Int)) (bits : List Nat) : List (Nat × Int) :=
  List.zipWith (fun p (b : Nat) => (p.1, p.2 * (2 * (b : Int) - 1))) placed bits

theorem and_two (x : Nat) : x &&& 2 = 2 * (x / 2 % 2) := by
  have hhigh : (x &&& 2) / 2 = x / 2 % 2 := Nat.and_div_two.trans (Nat.and_one_is_mod (x / 2))
  have hlow : (x &&& 2) % 2 ≠ 1 := fun h => by
    have := (Nat.and_mod_two_eq_one.mp h).2
    omega
  omega

/-- **The signs of one symbol.** Bit 15 of the field is the next sign; the bits above do not
    matter. -/
theorem signBatch_packSigns : ∀ {placed : List (Nat × Int)} {bits : List Nat} {bitfield : Nat},
    (∀ b ∈ bits, b ≤ 1) → bits.length = placed.length → bits.length ≤ 16 →
    bitfield % 2 ^ 16 = packSigns bits * 2 ^ (16 - bits.length) →
    signBatch bitfield placed = signed placed bits
  | [], [], _, _, _, _, _ => rfl
  | (at_, mag) :: placed, b :: rest, bitfield, h, hlen, hfits, hfield => by
      have hb := h b List.mem_cons_self
      have htail := fun c hc => h c (List.mem_cons_of_mem b hc)
      have hrest := packSigns_lt htail
      have hshift : 16 - (b :: rest).length = 15 - rest.length := by
        rw [List.length_cons]
        omega
      rw [List.length_cons] at hfits
      have hpow : 2 ^ rest.length * 2 ^ (15 - rest.length) = 2 ^ 15 := by
        rw [← Nat.pow_add, Nat.add_sub_cancel' (by omega)]
      have hlow : packSigns rest * 2 ^ (15 - rest.length) < 2 ^ 15 :=
        hpow ▸ Nat.mul_lt_mul_of_pos_right hrest (Nat.two_pow_pos _)
      have hdouble : packSigns rest * 2 ^ (16 - rest.length) =
          2 * (packSigns rest * 2 ^ (15 - rest.length)) := by
        have hsucc : 16 - rest.length = 15 - rest.length + 1 := by omega
        rw [hsucc, Nat.pow_succ, ← Nat.mul_assoc, Nat.mul_comm 2]
      rw [hshift, packSigns_cons hrest, Nat.add_mul, Nat.mul_assoc, hpow] at hfield
      have hbit : bitfield >>> 14 &&& 2 = 2 * b := by
        rw [Nat.shiftRight_eq_div_pow, and_two]
        omega
      have hnext : (bitfield <<< 1) % 2 ^ 32 % 2 ^ 16 =
          packSigns rest * 2 ^ (16 - rest.length) := by
        rw [Nat.shiftLeft_eq, hdouble]
        omega
      show (at_, mag * (((bitfield >>> 14 &&& 2 : Nat) : Int) - 1)) ::
        signBatch ((bitfield <<< 1) % 2 ^ 32) placed = (at_, mag * (2 * (b : Int) - 1)) ::
          signed placed rest
      rw [hbit, signBatch_packSigns htail (Nat.succ.inj hlen) (by omega) hnext, Int.natCast_mul]
      rfl

theorem signed_append {p₁ p₂ : List (Nat × Int)} {b₁ b₂ : List Nat} (h : p₁.length = b₁.length) :
    signed (p₁ ++ p₂) (b₁ ++ b₂) = signed p₁ b₁ ++ signed p₂ b₂ := by
  unfold signed
  exact List.zipWith_append h

/-- **All signs are read back.** -/
theorem inverts_signs : ∀ {rounds : Nat} {placed : List (Nat × Int)} {bits : List Nat},
    (∀ b ∈ bits, b ≤ 1) → bits.length = placed.length → bits.length ≤ rounds →
    Inverts (fun e => encodeSigns (signSyms rounds bits) e) (fun d => decodeSigns rounds placed d)
      (signed placed bits) 0
  | 0, placed, bits, _, hlen, hrounds => by
      obtain rfl : bits = [] := List.length_eq_zero_iff.mp (by omega)
      obtain rfl : placed = [] := List.length_eq_zero_iff.mp hlen.symm
      exact Inverts.pure []
  | rounds + 1, placed, bits, h, hlen, hrounds => by
      unfold signSyms decodeSigns
      by_cases hnil : bits = []
      · subst hnil
        obtain rfl : placed = [] := List.length_eq_zero_iff.mp hlen.symm
        simp only [if_pos]
        exact Inverts.pure []
      · have hpos : 0 < bits.length := List.length_pos_iff.mpr hnil
        have hplaced : placed ≠ [] := List.ne_nil_of_length_pos (hlen ▸ hpos)
        simp only [if_neg hnil, if_neg hplaced]
        rw [← hlen]
        obtain ⟨n, hn⟩ : ∃ n, n = min bits.length 15 := ⟨_, rfl⟩
        rw [← hn]
        have htake : (bits.take n).length = n := by
          rw [List.length_take]
          omega
        have htaken : (placed.take n).length = n := by
          rw [List.length_take]
          omega
        have hbits : ∀ b ∈ bits.take n, b ≤ 1 := fun b hb => h b (List.mem_of_mem_take hb)
        have hpack := packSigns_lt hbits
        rw [htake] at hpack
        have hbatch : signBatch ((packSigns (bits.take n) <<< (16 - n)) % 2 ^ 32) (placed.take n) =
            signed (placed.take n) (bits.take n) := by
          refine signBatch_packSigns hbits (htake.trans htaken.symm) (by omega) ?_
          rw [htake, Nat.shiftLeft_eq, Nat.mod_mod_of_dvd _ (by decide)]
          refine Nat.mod_eq_of_lt ?_
          calc packSigns (bits.take n) * 2 ^ (16 - n)
              < 2 ^ n * 2 ^ (16 - n) := Nat.mul_lt_mul_of_pos_right hpack (Nat.two_pow_pos _)
            _ = 2 ^ 16 := by rw [← Nat.pow_add, Nat.add_sub_cancel' (by omega)]
        have hrest := @inverts_signs rounds (placed.drop n) (bits.drop n)
          (fun b hb => h b (List.mem_of_mem_drop hb))
          (by rw [List.length_drop, List.length_drop, hlen]) (by rw [List.length_drop]; omega)
        have hall := (inverts_rawSymbol (show n ≤ 23 by omega) hpack).bind
          (hrest.map fun rest =>
            signBatch ((packSigns (bits.take n) <<< (16 - n)) % 2 ^ 32) (placed.take n) ++ rest)
          (g := fun sym d =>
            (signBatch ((sym <<< (16 - n)) % 2 ^ 32) (placed.take n) ++
              (decodeSigns rounds (placed.drop n) d).1, (decodeSigns rounds (placed.drop n) d).2))
        rw [hbatch, ← signed_append (htaken.trans htake.symm), List.take_append_drop,
          List.take_append_drop] at hall
        exact hall

/-! ## 8. The excitation -/

/-- The pulses among some samples, from place `p` on. -/
def peaks : Nat → List Int → List (Nat × Int)
  | _, [] => []
  | p, v :: rest => if v = 0 then peaks (p + 1) rest else (p, v) :: peaks (p + 1) rest

theorem signs_cons (v : Int) (rest : List Int) :
    signs (v :: rest) = if v = 0 then signs rest else (if v < 0 then 0 else 1) :: signs rest := by
  unfold signs
  by_cases hv : v = 0
  · rw [if_pos hv, List.filter_cons_of_neg (by simp [hv])]
  · rw [if_neg hv, List.filter_cons_of_pos (by simp [hv]), List.map_cons]

theorem signed_spikes : ∀ (p : Nat) (samples : List Int),
    signed (spikes p samples) (signs samples) = peaks p samples
  | _, [] => rfl
  | p, v :: rest => by
      rw [spikes_cons, signs_cons]
      unfold peaks
      split
      · exact signed_spikes (p + 1) rest
      · show (p, (v.natAbs : Int) * (2 * ((if v < 0 then 0 else 1 : Nat) : Int) - 1)) ::
          signed (spikes (p + 1) rest) (signs rest) = _
        rw [signed_spikes (p + 1) rest]
        congr 2
        split <;> omega

theorem length_spikes : ∀ (p : Nat) (samples : List Int),
    (spikes p samples).length = (signs samples).length
  | _, [] => rfl
  | p, v :: rest => by
      rw [spikes_cons, signs_cons]
      split
      · exact length_spikes (p + 1) rest
      · exact congrArg (· + 1) (length_spikes (p + 1) rest)

theorem signs_le (samples : List Int) : ∀ b ∈ signs samples, b ≤ 1 := by
  intro b hb
  obtain ⟨v, _, rfl⟩ := List.mem_map.mp hb
  split <;> omega

/-- **The pulses are put where they were.** -/
theorem scatter_peaks : ∀ (before samples : List Int),
    scatter (peaks before.length samples) (before ++ List.replicate samples.length 0) =
      before ++ samples
  | _, [] => rfl
  | before, v :: rest => by
      have hnext := scatter_peaks (before ++ [v]) rest
      rw [List.length_append, List.length_singleton, List.append_assoc, List.append_assoc,
        List.singleton_append, List.singleton_append] at hnext
      rw [List.length_cons, List.replicate_succ]
      unfold peaks
      split
      · rename_i hv
        rw [hv] at hnext ⊢
        exact hnext
      · show scatter (peaks (before.length + 1) rest)
          ((before ++ 0 :: List.replicate rest.length 0).set before.length v) = _
        rw [List.set_append_right _ _ (Nat.le_refl _), Nat.sub_self, List.set_cons_zero]
        exact hnext

/-! ## 9. The block -/

def quarters (pulse : List Int) : List (List Int) := (List.range 4).map (quarter pulse)

theorem flatten_quarters {pulse : List Int} (hlen : pulse.length = SMPL_INTF_LEN) :
    (quarters pulse).flatten = pulse := by
  show pulse.take 80 ++ ((pulse.drop 80).take 80 ++ ((pulse.drop 160).take 80 ++
    ((pulse.drop 240).take 80 ++ []))) = pulse
  have hlast : (pulse.drop 240).take 80 = pulse.drop 240 := by
    refine List.take_of_length_le ?_
    rw [List.length_drop, hlen]
    decide
  have hthird : (pulse.drop 160).take 80 ++ pulse.drop 240 = pulse.drop 160 := by
    have := List.take_append_drop 80 (pulse.drop 160)
    rwa [List.drop_drop] at this
  have hsecond : (pulse.drop 80).take 80 ++ pulse.drop 160 = pulse.drop 80 := by
    have := List.take_append_drop 80 (pulse.drop 80)
    rwa [List.drop_drop] at this
  rw [List.append_nil, hlast, hthird, hsecond, List.take_append_drop]

theorem length_quarter {pulse : List Int} (hlen : pulse.length = SMPL_INTF_LEN) :
    ∀ q ∈ quarters pulse, q.length = posPer := by
  intro q hq
  obtain ⟨sf, hsf, rfl⟩ := List.mem_map.mp hq
  have := List.mem_range.mp hsf
  unfold quarter posPer SMPL_INTF_LEN at *
  rw [List.length_take, List.length_drop, hlen]
  omega

/-- Quarters without pulses give no symbols anyway. -/
theorem flatMap_pulsed {α : Type} {f : Nat × List Int → List α}
    (h : ∀ q, pulseSum q.2 = 0 → f q = []) :
    ∀ (qs : List (Nat × List Int)), (qs.filter (pulseSum ·.2 ≠ 0)).flatMap f = qs.flatMap f
  | [] => rfl
  | q :: rest => by
      by_cases hq : pulseSum q.2 = 0
      · rw [List.filter_cons_of_neg (by simp [hq]), List.flatMap_cons, h q hq, List.nil_append]
        exact flatMap_pulsed h rest
      · rw [List.filter_cons_of_pos (by simp [hq]), List.flatMap_cons, List.flatMap_cons,
          flatMap_pulsed h rest]

theorem signs_silent {samples : List Int} (h : ∀ v ∈ samples, v = 0) : signs samples = [] := by
  unfold signs
  rw [List.filter_eq_nil_iff.mpr fun v hv => by simp [h v hv], List.map_nil]

theorem signs_append (xs ys : List Int) : signs (xs ++ ys) = signs xs ++ signs ys := by
  unfold signs
  rw [List.filter_append, List.map_append]

theorem params_magRuns (pulse : List Int) :
    (smplBuildPulseParams pulse).magRuns = quarterRuns 0 (quarters pulse) := by
  show (pulsedQuarters pulse).flatMap (fun q => magRuns q.1 q.1 q.2) = _
  unfold pulsedQuarters
  rw [flatMap_pulsed fun q hq => magRuns_silent q.1 q.1 (silent_of_pulseSum hq)]
  rfl

theorem params_bits {pulse : List Int} (hlen : pulse.length = SMPL_INTF_LEN) :
    (pulsedQuarters pulse).flatMap (fun q => signs q.2) = signs pulse := by
  unfold pulsedQuarters
  rw [flatMap_pulsed fun q hq => signs_silent (silent_of_pulseSum hq)]
  have hflatten : quarter pulse 0 ++ (quarter pulse 1 ++ (quarter pulse 2 ++ (quarter pulse 3 ++
    []))) = pulse := flatten_quarters hlen
  calc signs (quarter pulse 0) ++ (signs (quarter pulse 1) ++ (signs (quarter pulse 2) ++
        (signs (quarter pulse 3) ++ [])))
      = signs (quarter pulse 0 ++ (quarter pulse 1 ++ (quarter pulse 2 ++ (quarter pulse 3 ++
          [])))) := by
        rw [signs_append, signs_append, signs_append, signs_append]
        rfl
    _ = signs pulse := by rw [hflatten]

/-- An excitation that can be coded. -/
structure Excitation (pulse : List Int) : Prop where
  length : pulse.length = SMPL_INTF_LEN
  few : ∀ q ∈ quarters pulse, pulseSum q ≤ 40

theorem params_subfr (pulse : List Int) :
    (smplBuildPulseParams pulse).subfr = (quarters pulse).map pulseSum := by
  unfold quarters
  rw [List.map_map]
  rfl

theorem params_total (pulse : List Int) : (smplBuildPulseParams pulse).total =
    pulseSum (quarter pulse 0) + pulseSum (quarter pulse 1) +
      (pulseSum (quarter pulse 2) + pulseSum (quarter pulse 3)) := by
  show pulseSum (quarter pulse 0) + (pulseSum (quarter pulse 1) + (pulseSum (quarter pulse 2) +
    (pulseSum (quarter pulse 3) + 0))) = _
  omega

/-- The pulses, after their split. -/
theorem inverts_excitation (seed : CcSeed) {pulse : List Int} (h : Excitation pulse) :
    Inverts
      (fun e => encodeSigns (smplBuildPulseParams pulse).signSyms
        (encodeMagnitudes seed.build (smplBuildPulseParams pulse).subfr
          (smplBuildPulseParams pulse).magRuns e))
      (fun d => decodeExcitation d seed.build (smplBuildPulseParams pulse).subfr)
      ⟨pulse, (smplBuildPulseParams pulse).subfr⟩ 0 := by
  have hmagnitudes := @inverts_magnitudes seed (quarters pulse) 0 []
    fun q hq => ⟨length_quarter h.length q hq, h.few q hq⟩
  rw [flatten_quarters h.length, List.append_nil, ← params_magRuns, ← params_subfr] at hmagnitudes
  have hsyms : (smplBuildPulseParams pulse).signSyms = signSyms (signs pulse).length (signs pulse) := by
    show signSyms ((pulsedQuarters pulse).flatMap fun q => signs q.2).length
      ((pulsedQuarters pulse).flatMap fun q => signs q.2) = _
    rw [params_bits h.length]
  have hsigns := @inverts_signs (spikes 0 pulse).length (spikes 0 pulse) (signs pulse)
    (signs_le pulse) (length_spikes 0 pulse).symm (Nat.le_of_eq (length_spikes 0 pulse).symm)
  rw [signed_spikes, length_spikes, ← hsyms] at hsigns
  have hplaces : scatter (peaks 0 pulse) (List.replicate SMPL_INTF_LEN 0) = pulse := by
    have := scatter_peaks [] pulse
    rwa [List.nil_append, List.nil_append, h.length] at this
  have hresult := hsigns.map fun placed =>
    (⟨scatter placed (List.replicate SMPL_INTF_LEN 0), (smplBuildPulseParams pulse).subfr⟩ :
      SmplPulseResult)
  rw [hplaces] at hresult
  have hrest : Inverts (fun e => encodeSigns (smplBuildPulseParams pulse).signSyms e)
      (fun d =>
        (⟨scatter (decodeSigns (spikes 0 pulse).reverse.length (spikes 0 pulse).reverse.reverse d).1
            (List.replicate SMPL_INTF_LEN 0), (smplBuildPulseParams pulse).subfr⟩,
          (decodeSigns (spikes 0 pulse).reverse.length (spikes 0 pulse).reverse.reverse d).2))
      (⟨pulse, (smplBuildPulseParams pulse).subfr⟩ : SmplPulseResult) 0 := by
    rw [List.reverse_reverse, List.length_reverse, length_spikes]
    exact hresult
  exact hmagnitudes.bind (g := fun placed d =>
    ((⟨scatter (decodeSigns placed.length placed.reverse d).1 (List.replicate SMPL_INTF_LEN 0),
        (smplBuildPulseParams pulse).subfr⟩ : SmplPulseResult),
      (decodeSigns placed.length placed.reverse d).2)) hrest

theorem subfrLen16_eq {sel : Nat} (hsel : sel ≤ 1) : subfrLen16 0 sel = 40 := by
  unfold subfrLen16
  rw [frameLen4k_eq hsel]

/-- A frame with no pulses ends with their number. -/
theorem inverts_none (seed : CcSeed) {pp : SmplPulseParams} {result : SmplPulseResult}
    (hsubfr : pp.subfr = [0, 0, 0, 0]) (hsigns : pp.signSyms = [])
    (hexcitation : Inverts
      (fun e => encodeSigns pp.signSyms (encodeMagnitudes seed.build pp.subfr pp.magRuns e))
      (fun d => decodeExcitation d seed.build pp.subfr) result 0) :
    Inverts (fun e => e)
      (fun d => decodeExcitation (decodeSplits d seed.build 0 40).2 seed.build
        (decodeSplits d seed.build 0 40).1) result 0 := by
  rw [hsubfr, hsigns] at hexcitation
  exact hexcitation

/-- The number, the split and the rest, one after the other. -/
theorem inverts_block (seed : CcSeed) {pp : SmplPulseParams} {result : SmplPulseResult}
    {s0 s1 s2 s3 p6 sel : Nat} (hs0 : s0 ≤ 40) (hs1 : s1 ≤ 40) (hs2 : s2 ≤ 40) (hs3 : s3 ≤ 40)
    (htotal : pp.total = s0 + s1 + (s2 + s3)) (hsubfr : pp.subfr = [s0, s1, s2, s3])
    (hsigns : pp.total = 0 → pp.signSyms = []) (hsel : subfrLen16 p6 sel = 40)
    (hcount : Inverts (fun e => encodeCount e p6 sel pp.total)
      (fun d => decodeCount d seed.build p6 sel) pp.total 0)
    (hexcitation : Inverts
      (fun e => encodeSigns pp.signSyms (encodeMagnitudes seed.build pp.subfr pp.magRuns e))
      (fun d => decodeExcitation d seed.build pp.subfr) result 0) :
    Inverts (fun e => encodeSmplPulses e seed.build p6 sel pp)
      (fun d => decodeSmplPulses d seed.build p6 sel) result 0 := by
  have hrest : Inverts
      (fun e => if pp.total = 0 ∨ pp.total - 40 * 2 < pp.total - 80 then e
        else encodeSigns pp.signSyms (encodeMagnitudes seed.build pp.subfr pp.magRuns
          (encodeSplits e seed.build 40 pp)))
      (fun d => decodeExcitation (decodeSplits d seed.build pp.total 40).2 seed.build
        (decodeSplits d seed.build pp.total 40).1) result 0 := by
    by_cases hzero : pp.total = 0
    · have hnone : pp.total = 0 ∨ pp.total - 40 * 2 < pp.total - 80 := Or.inl hzero
      simp only [if_pos hnone]
      have hzeros : pp.subfr = [0, 0, 0, 0] := by
        rw [hsubfr]
        congr 1 <;> [skip; congr 1 <;> [skip; congr 1 <;> [skip; congr 1]]] <;> omega
      have hend := inverts_none seed hzeros (hsigns hzero) hexcitation
      rw [hzero]
      exact hend
    · have hsplits := inverts_splits seed hs0 hs1 hs2 hs3 htotal hsubfr hzero
      have hnone : ¬ (pp.total = 0 ∨ pp.total - 40 * 2 < pp.total - 80) := by omega
      simp only [if_neg hnone]
      exact hsplits.bind (g := fun subfr d => decodeExcitation d seed.build subfr) hexcitation
  have hall := hcount.bind (g := fun total d =>
    decodeExcitation (decodeSplits d seed.build total 40).2 seed.build
      (decodeSplits d seed.build total 40).1) hrest
  unfold encodeSmplPulses decodeSmplPulses
  rw [hsel]
  exact hall

/-- **The pulses of a frame are read back**, whatever the seed of the tables is. -/
theorem inverts_pulses (seed : CcSeed) {pulse : List Int} (h : Excitation pulse) {s1 : Nat}
    (hs1 : s1 ≤ 1) :
    Inverts (fun e => encodeSmplPulses e seed.build 0 s1 (smplBuildPulseParams pulse))
      (fun d => decodeSmplPulses d seed.build 0 s1)
      ⟨pulse, (smplBuildPulseParams pulse).subfr⟩ 0 := by
  have hq : ∀ sf < 4, pulseSum (quarter pulse sf) ≤ 40 := fun sf hsf =>
    h.few _ (List.mem_map_of_mem (List.mem_range.mpr hsf))
  refine inverts_block seed (hq 0 (by decide)) (hq 1 (by decide)) (hq 2 (by decide))
    (hq 3 (by decide)) (params_total pulse) rfl ?_ (subfrLen16_eq hs1)
    (inverts_count seed.build hs1 ?_) (inverts_excitation seed h)
  rotate_left
  · rw [params_total]
    have := hq 0 (by decide)
    have := hq 1 (by decide)
    have := hq 2 (by decide)
    have := hq 3 (by decide)
    omega
  intro hzero
  rw [params_total] at hzero
  have hsilent : ∀ q ∈ quarters pulse, pulseSum q = 0 := by
    intro q hmem
    obtain ⟨sf, hsf, rfl⟩ := List.mem_map.mp hmem
    have := List.mem_range.mp hsf
    interval_cases sf <;> omega
  have hsigns : signs pulse = [] := by
    refine signs_silent fun v hv => ?_
    rw [← flatten_quarters h.length] at hv
    obtain ⟨q, hmem, hv⟩ := List.mem_flatten.mp hv
    exact silent_of_pulseSum (hsilent q hmem) v hv
  show signSyms ((pulsedQuarters pulse).flatMap fun q => signs q.2).length
    ((pulsedQuarters pulse).flatMap fun q => signs q.2) = []
  rw [params_bits h.length, hsigns]
  rfl

end Ruwa.Call
