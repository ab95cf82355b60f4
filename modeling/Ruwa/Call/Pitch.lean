/-
  File:      Ruwa/Call/Pitch.lean
  Subject:   THE PITCH OF A VOICED FRAME (`call/mlow/smpl_pitch.rs`, and the encoder's side of it in
             `encode.rs` and `smpl_pitch_enc.rs`).

  A voiced frame has gains and filters, and eight lags that follow a contour. The encoder writes from
  tables with fields, in units of blocks and lags; the decoder follows pointers through its memory,
  in units of sixty-fourths. Each side keeps where it ended in units of its own.

  * `inverts_contour` -- the contour, on its own or after the block before;
  * `inverts_segments`, `inverts_lags` -- the lag of each segment, relative to the one before;
  * **`inverts_pitch`** -- the decoder gets gains, filters and lags, and the two sides stay `Tied`;
  * **`voiced_read`** -- pulses and pitch of a voiced frame, from the bytes of a stream.
-/
import Ruwa.Call.Gains
import Ruwa.Call.PitchMemory

namespace Ruwa.Call

open Ruwa.Library

/-! ## 1. What is kept -/

/-- What the frames of a packet leave to the next one; -1 is none. The lag is kept by the decoder,
    the block and the index of a lag by the encoder. -/
structure SmplLsfState where
  prevStage1 : Nat
  prevMatch : Bool
  havePrev : Bool
  prevGainIdx : Int
  prevFiltIdx : Int
  prevLag : Int
  prevFracLag : Int
  prevLagblk : Int
  prevLagidx : Int

def SmplLsfState.default : SmplLsfState := ⟨0, false, false, 0, 0, 0, 0, 0, 0⟩

/-- The table of lags that goes with the mean gain. -/
def lagMode (gainAccum : Int) : Nat :=
  let avgGain := gainAccum.tdiv 4
  if avgGain ≥ 10007 then if avgGain < 14085 then 1 else 2 else 0

/-! ## 2. The decoder's lags -/

structure SmplPitchResult where
  gainIdx : List Nat
  filtIdx : List Int
  lag : Int
  contour : Int
  sampleLagQ6 : List Int
  numSeg : Int
  intLagQ6 : List Int
  blockLags : List Int
  numSubfr : Nat

/-- The number of a contour, among those that begin with block `di`. -/
def decodeDelta (d : RangeDecoder) (mem : List Segment) (lagCdf di : Nat) :
    Option Nat × RangeDecoder :=
  let lo := memU8 mem ((DELTA_BOUNDS_ADDR + di * 2) % 2 ^ 32)
  let hi := memU8 mem ((DELTA_BOUNDS_ADDR + (di * 2 + 1)) % 2 ^ 32)
  if hi + 2 < lo + 2 then (none, d)
  else
    let (sym, d) := decodeCdfMem d mem ((lagCdf + lo * 2) % 2 ^ 32) (hi + 2 - lo)
    (some (sym + lo), d)

/-- The number of a contour, or none where the interval of the memory is malformed. -/
def decodePrimaryLag (d : RangeDecoder) (mem : List Segment) (prevLag : Int) :
    Option Nat × RangeDecoder :=
  let lagCdf := memU32 mem (PCFG + 22248)
  if prevLag < 0 then
    let (lag, d) := decodeCdfMem d mem lagCdf (memI32 mem (PCFG + 22240) + 1).toNat
    (some lag, d)
  else
    let deltaCdf := memU32 mem (PCFG + 22268)
    let (di, d) := decodeCdfMem d mem ((deltaCdf + prevLag.toNat * 20) % 2 ^ 32) 10
    decodeDelta d mem lagCdf di

/-- The place of a number in the contour map. -/
def contourOf (mem : List Segment) (target : Nat) : Option Nat :=
  (List.range 217).find? fun i => memU8 mem ((memU32 mem (PCFG + 22244) + i) % 2 ^ 32) = target

/-- A word of a contour's record. -/
def recordI32 (mem : List Segment) (contour word : Nat) : Int :=
  memI32 mem ((PCFG + contour * 0x44 + 0x1d38 + word * 4) % 2 ^ 32)

structure LagState where
  subfrW : Nat
  intLagQ6 : List Int
  blockLags : List Int
  sampleLagQ6 : List Int
  prevLag : Int
  prevFracLag : Int
  l2 : Int

/-- A lag for the next `n` eighths; there is no writing past the last one. -/
def LagState.fill : Nat → Int → LagState → LagState
  | 0, _, s => s
  | n + 1, v, s =>
      fill n v
        { s with
          subfrW := s.subfrW + 1
          intLagQ6 := s.intLagQ6.set s.subfrW v
          blockLags := s.blockLags.set s.subfrW v }

/-- What is noted down of a segment: its lag, its block and how long it is. -/
def LagState.heard (s : LagState) (seg : Nat) (lag blk : Int) (len : Nat) : LagState :=
  let s := { s with sampleLagQ6 := s.sampleLagQ6.set seg lag }
  let s := s.fill len lag
  { s with prevLag := blk, prevFracLag := lag, l2 := blk }

/-- The lag of the first segment, on its own. -/
def decodeFine (mem : List Segment) (contour : Nat) (s : LagState) (d : RangeDecoder) :
    LagState × RangeDecoder :=
  let baseLag := recordI32 mem contour 0
  let (sym, d) := d.decode64FineSym
  let curLag2 := baseLag * 2 ^ 6 + sym
  let s := s.fill (recordI32 mem contour 8).toNat curLag2
  ({ s with
      intLagQ6 := s.intLagQ6.set s.subfrW curLag2
      blockLags := s.blockLags.set s.subfrW curLag2
      prevLag := baseLag
      prevFracLag := curLag2
      l2 := curLag2 }, d)

/-- The lags of the other segments. The lag before is in `prevFracLag`. -/
def decodeSegments (mem : List Segment) (contour fracSegBase : Nat) :
    List Nat → LagState → RangeDecoder → LagState × RangeDecoder
  | [], s, d => (s, d)
  | seg :: rest, s, d =>
      let segLag := recordI32 mem contour seg
      let nl2 := s.l2 * 2 ^ 6 - s.prevFracLag + (segLag - s.l2) * 2 ^ 6
      let off := (((fracSegBase : Int) + nl2 * 2 + 0xfe) % 2 ^ 32).toNat
      let (sym, d) := decodeCdfMem d mem off 65
      let l3 := (sym : Int) + s.prevFracLag + nl2
      decodeSegments mem contour fracSegBase rest
        (s.heard seg l3 segLag (recordI32 mem contour (8 + seg)).toNat) d

/-- The lags of a contour. -/
def decodeContour (mem : List Segment) (contour mode : Nat) (st : SmplLsfState)
    (d : RangeDecoder) : LagState × RangeDecoder :=
  let baseLag := recordI32 mem contour 0
  let readFine := ¬ (st.prevLag ≥ 0 ∧ -1 ≤ baseLag - st.prevLag ∧ baseLag - st.prevLag < 3)
  let s : LagState := ⟨0, List.replicate 4 0, List.replicate 8 0, List.replicate 8 0, st.prevLag,
    st.prevFracLag, baseLag⟩
  let (s, d) := if readFine then decodeFine mem contour s d else (s, d)
  let start := if readFine then 1 else 0
  let count := (recordI32 mem contour 16).toNat
  let fracSegBase := (memU32 mem (PCFG + 22252) + mode * 0x280) % 2 ^ 32
  decodeSegments mem contour fracSegBase (List.range' start (count - start)) s d

/-- The lags of a contour, where there is one of this number. -/
def decodeKnown (mem : List Segment) (pairs : List (Nat × Int)) (mode : Nat) (st : SmplLsfState)
    (lag contour : Nat) (d : RangeDecoder) : (SmplPitchResult × SmplLsfState) × RangeDecoder :=
  if (contour : Int) ≥ memI32 mem (PCFG + 22240) then
    ((⟨pairs.map (·.1), pairs.map (·.2), lag, contour, List.replicate 8 0, 0, List.replicate 4 0,
      List.replicate 8 0, 0⟩, st), d)
  else
    let (s, d) := decodeContour mem contour mode st d
    ((⟨pairs.map (·.1), pairs.map (·.2), lag, contour, s.sampleLagQ6, recordI32 mem contour 16,
        s.intLagQ6, s.blockLags, s.subfrW⟩,
      { st with prevLag := s.prevLag, prevFracLag := s.prevFracLag }), d)

/-- The lags of the contour that was found, if any. -/
def decodeFound (mem : List Segment) (pairs : List (Nat × Int)) (mode : Nat) (st : SmplLsfState)
    (lag : Option Nat) (d : RangeDecoder) : (SmplPitchResult × SmplLsfState) × RangeDecoder :=
  match lag with
  | none =>
      ((⟨pairs.map (·.1), pairs.map (·.2), -1, 0, List.replicate 8 0, 0, List.replicate 4 0,
        List.replicate 8 0, 0⟩, st), d)
  | some lag =>
      match contourOf mem (lag + 1) with
      | none =>
          ((⟨pairs.map (·.1), pairs.map (·.2), lag, -1, List.replicate 8 0, 0, List.replicate 4 0,
            List.replicate 8 0, 0⟩, st), d)
      | some contour => decodeKnown mem pairs mode st lag contour d

/-- What is left of the pitch once the gains are read. -/
def decodeLags (mem : List Segment) (pairs : List (Nat × Int)) (mode : Nat) (st : SmplLsfState)
    (d : RangeDecoder) : (SmplPitchResult × SmplLsfState) × RangeDecoder :=
  let (lag, d) := decodePrimaryLag d mem st.prevLag
  decodeFound mem pairs mode st lag d

def decodeSmplPitch (d : RangeDecoder) (mem : List Segment) (cc : CcTables) (st : SmplLsfState)
    (subfrCounts : List Nat) : (SmplPitchResult × SmplLsfState) × RangeDecoder :=
  let ((pairs, l), d) := decodeLtp cc subfrCounts ⟨st.prevGainIdx, st.prevFiltIdx, 0⟩ d
  decodeLags mem pairs (lagMode l.gainAccum)
    { st with prevGainIdx := l.prevGainIdx, prevFiltIdx := l.prevFiltIdx } d

/-! ## 3. The encoder's lags -/

structure SmplPitchParams where
  gainIdx : List Nat
  filtIdx : List Nat
  blocksegIdx : Nat
  laginds : List Nat

def BLOCKSIZE : Nat := 64

/-- The lags from segment `k` on, each written relative to the one before. -/
def encodeSegments (row : List UInt16) (seg : BlockSeg) (laginds : List Nat) :
    List Nat → Nat → Nat → Nat → RangeEncoder → RangeEncoder
  | [], _, _, _, e => e
  | k :: rest, lagindsIx, prevLagblk, prevLagidx, e =>
      let blk := seg.blocks.getD k 0
      let idx := laginds.getD lagindsIx 0
      let prevLagidxMod : Int := prevLagidx - prevLagblk * BLOCKSIZE
      let rangeStart : Int := -prevLagidxMod + ((blk : Int) - prevLagblk) * BLOCKSIZE
      let base := (rangeStart + 2 * BLOCKSIZE - 1).toNat
      let ix := ((idx : Int) - prevLagidx - rangeStart).toNat
      let e := e.encode (rowEntry row (base + ix) - rowEntry row base)
        (rowEntry row (base + (ix + 1)) - rowEntry row base)
        (rowEntry row (base + BLOCKSIZE) - rowEntry row base)
      encodeSegments row seg laginds rest (lagindsIx + seg.seglens.getD k 0) blk idx e

/-- The contour, by its number, or by its first block and its number among those. -/
def encodeContour (tab : PitchTables) (blocksegsIx : Nat) (prevLagblk : Int) (e : RangeEncoder) :
    RangeEncoder :=
  let ixJulia := tab.blocksegs2idx.getD blocksegsIx 0
  let cmf := tab.blocksegIdxCmf
  if prevLagblk < 0 then
    e.encode (rowEntry cmf (ixJulia - 1)) (rowEntry cmf ixJulia)
      (rowEntry cmf tab.blocksegs.length)
  else
    let b0 := ((tab.blocksegs.map (·.blocks)).getD blocksegsIx []).getD 0 0
    let row := tab.blockTransitionCmf.getD prevLagblk.toNat []
    let e := e.encode (rowEntry row b0) (rowEntry row (b0 + 1)) (rowEntry row PITCH_NUM_BLOCKS)
    let (start, last) := tab.firstblockRange.getD b0 (0, 0)
    e.encode (rowEntry cmf (start + (ixJulia - start - 1)) - rowEntry cmf start)
      (rowEntry cmf (start + (ixJulia - start)) - rowEntry cmf start)
      (rowEntry cmf (start + (last - start + 1)) - rowEntry cmf start)

/-- The lags of a contour: the first one on its own, where it does not follow from the last frame. -/
def encodeLags (row : List UInt16) (seg : BlockSeg) (laginds : List Nat) (prevLagblk prevLagidx : Int)
    (e : RangeEncoder) : RangeEncoder :=
  let blk := seg.blocks.getD 0 0
  if ¬ (prevLagblk > -1 ∧ -1 ≤ (blk : Int) - prevLagblk ∧ (blk : Int) - prevLagblk ≤ 2) then
    let first := laginds.getD 0 0
    let idxMod := first - blk * BLOCKSIZE
    encodeSegments row seg laginds (List.range' 1 (seg.blocks.length - 1)) (seg.seglens.getD 0 0)
      blk first (e.encode idxMod (idxMod + 1) BLOCKSIZE)
  else
    encodeSegments row seg laginds (List.range' 0 seg.blocks.length) 0 prevLagblk.toNat
      prevLagidx.toNat e

def smplEncodeLagsWire (tab : PitchTables) (e : RangeEncoder) (blocksegsIx : Nat)
    (laginds : List Nat) (prevLagblk prevLagidx : Int) (mode : Nat) : RangeEncoder :=
  encodeLags (tab.deltaLagCmfs.getD mode []) (tab.blocksegs.getD blocksegsIx ⟨[], []⟩) laginds
    prevLagblk prevLagidx (encodeContour tab blocksegsIx prevLagblk e)

/-- Block and lag that a frame ends with. -/
def smplLagsPredictorAfter (tab : PitchTables) (blocksegsIx : Nat) (laginds : List Nat) :
    Nat × Nat :=
  let seg := tab.blocksegs.getD blocksegsIx ⟨[], []⟩
  (seg.blocks.getD (seg.blocks.length - 1) 0, laginds.getD (NUM_SUBFRAMES - 1) 0)

/-- The quarters as the encoder goes through them. -/
def ltpQuarters (subfrCounts : List Nat) (pp : SmplPitchParams) : List (Nat × Nat × Nat) :=
  subfrCounts.zip (pp.gainIdx.zip pp.filtIdx)

def encodeSmplPitch (e : RangeEncoder) (tab : PitchTables) (cc : CcTables) (st : SmplLsfState)
    (subfrCounts : List Nat) (pp : SmplPitchParams) : SmplLsfState × RangeEncoder :=
  let (l, e) := encodeLtp cc (ltpQuarters subfrCounts pp) ⟨st.prevGainIdx, st.prevFiltIdx, 0⟩ e
  let e := smplEncodeLagsWire tab e pp.blocksegIdx pp.laginds st.prevLagblk st.prevLagidx
    (lagMode l.gainAccum)
  let (nblk, nidx) := smplLagsPredictorAfter tab pp.blocksegIdx pp.laginds
  ({ st with
      prevGainIdx := l.prevGainIdx
      prevFiltIdx := l.prevFiltIdx
      prevLagblk := nblk
      prevLagidx := nidx }, e)

/-! ## 4. The contour is read back -/

section

variable {seed : PitchSeed}

theorem mem_records (seed : PitchSeed) : (⟨PCFG + 0x1d38,
    (seed.blocksegs.flatMap recordWords ++ headerWords).flatMap (toLE 4)⟩ : Segment) ∈
      buildSmplMem seed := List.mem_cons_self

/-- What lies behind the records. -/
theorem memU32_header (h : seed.Sound) {i : Nat} (hi : i < 9) :
    memU32 (buildSmplMem seed) (PCFG + (0x56dc + i * 4)) = headerWords.getD i 0 := by
  have hlen : (seed.blocksegs.flatMap recordWords).length = 3689 := by
    rw [length_flatMap fun seg _ => length_recordWords seg, h.contours]
    rfl
  have hword : (seed.blocksegs.flatMap recordWords ++ headerWords).getD (3689 + i) 0 =
      headerWords.getD i 0 := by
    rw [List.getD_eq_getElem?_getD, List.getElem?_append_right (by omega), hlen,
      Nat.add_sub_cancel_left, List.getD_eq_getElem?_getD]
  have haddr : PCFG + (0x56dc + i * 4) = PCFG + 0x1d38 + (3689 + i) * 4 := by omega
  have hsmall : headerWords.getD i 0 < 2 ^ 32 := by
    interval_cases i <;> decide
  rw [haddr, memU32_word (apart_mem h) (mem_records seed) _ (hword ▸ hsmall), hword]
  rw [List.length_append, hlen]
  show 3689 + i < 3689 + 9
  omega

/-- The number of contours. -/
theorem memI32_count (h : seed.Sound) : memI32 (buildSmplMem seed) (PCFG + 22240) = 217 := by
  unfold memI32
  rw [show memU32 (buildSmplMem seed) (PCFG + 22240) = NUM_CONTOURS from
    memU32_header h (i := 1) (by decide)]
  rfl

theorem recordWords_block (seg : BlockSeg) {j : Nat} (hj : j < 8) :
    (recordWords seg).getD j 0 = seg.blocks.getD j 0 := by
  interval_cases j <;> rfl

theorem recordWords_len (seg : BlockSeg) {j : Nat} (hj : j < 8) :
    (recordWords seg).getD (8 + j) 0 = seg.seglens.getD j 0 := by
  interval_cases j <;> rfl

theorem recordWords_count (seg : BlockSeg) : (recordWords seg).getD 16 0 = seg.blocks.length := rfl

theorem getD_le_sum : ∀ (ns : List Nat) (j : Nat), ns.getD j 0 ≤ ns.foldr (· + ·) 0
  | [], _ => Nat.le_refl 0
  | n :: _, 0 => Nat.le_add_right n _
  | n :: rest, j + 1 => Nat.le_trans (getD_le_sum rest j) (Nat.le_add_left _ n)

theorem BlockSeg.Sound.block_lt {seg : BlockSeg} (h : seg.Sound) (j : Nat) :
    seg.blocks.getD j 0 < 9 := by
  by_cases hj : j < seg.blocks.length
  · rw [List.getD_eq_getElem _ _ hj]
    exact h.block _ (List.getElem_mem hj)
  · rw [List.getD_eq_default _ _ (by omega)]
    decide

theorem BlockSeg.Sound.long {seg : BlockSeg} (h : seg.Sound) {k : Nat} (hk : k < seg.seglens.length) :
    0 < seg.seglens.getD k 0 := by
  rw [List.getD_eq_getElem _ _ hk]
  exact h.longs _ (List.getElem_mem hk)

theorem BlockSeg.Sound.len_le {seg : BlockSeg} (h : seg.Sound) (j : Nat) :
    seg.seglens.getD j 0 ≤ 8 := by
  have := getD_le_sum seg.seglens j
  have hwhole := h.whole
  unfold NUM_SUBFRAMES at hwhole
  omega

theorem BlockSeg.Sound.word_lt {seg : BlockSeg} (h : seg.Sound) {j : Nat} (hj : j < 17) :
    (recordWords seg).getD j 0 < 2 ^ 31 := by
  have hfew := h.few
  by_cases hblock : j < 8
  · rw [recordWords_block seg hblock]
    have := h.block_lt j
    omega
  by_cases hlast : j = 16
  · rw [hlast, recordWords_count]
    omega
  · obtain ⟨k, rfl⟩ : ∃ k, j = 8 + k := ⟨j - 8, by omega⟩
    rw [recordWords_len seg (by omega)]
    have := h.len_le k
    omega

/-- **A word of the record of a contour.** -/
theorem recordI32_word (h : seed.Sound) {c j : Nat} (hc : c < seed.blocksegs.length) (hj : j < 17) :
    recordI32 (buildSmplMem seed) c j = ((recordWords seed.blocksegs[c]).getD j 0 : Nat) := by
  have hlen : (seed.blocksegs.flatMap recordWords).length = 3689 := by
    rw [length_flatMap fun seg _ => length_recordWords seg, h.contours]
    rfl
  have hcount : c < 217 := by
    rw [h.contours] at hc
    exact hc
  have hword : (seed.blocksegs.flatMap recordWords ++ headerWords).getD (c * 17 + j) 0 =
      (recordWords seed.blocksegs[c]).getD j 0 := by
    rw [← getD_flatMap (fun seg _ => length_recordWords seg) hc hj, List.getD_eq_getElem?_getD,
      List.getElem?_append_left (by omega), ← List.getD_eq_getElem?_getD]
  have hsmall := (h.contour _ (List.getElem_mem hc)).word_lt hj
  have haddr : (PCFG + c * 0x44 + 0x1d38 + j * 4) % 2 ^ 32 = PCFG + 0x1d38 + (c * 17 + j) * 4 := by
    unfold PCFG G_CLK
    omega
  unfold recordI32 memI32
  rw [haddr, memU32_word (apart_mem h) (mem_records seed) (by rw [List.length_append, hlen]; omega)
    (by rw [hword]; omega), hword]
  exact toI32_eq (by omega) (by omega)

/-- **The contour map leads back to the contour.** -/
theorem contourOf_index (h : seed.Sound) {c : Nat} (hc : c < NUM_CONTOURS) :
    contourOf (buildSmplMem seed) (seed.blocksegs2idx.getD c 0).toNat = some c := by
  have hseg : (⟨HDR_CONTOUR_MAP, seed.blocksegs2idx⟩ : Segment) ∈ buildSmplMem seed := by
    unfold buildSmplMem
    simp
  have hmap : ∀ i < 217, memU8 (buildSmplMem seed)
      ((memU32 (buildSmplMem seed) (PCFG + 22244) + i) % 2 ^ 32) =
        (seed.blocksegs2idx.getD i 0).toNat := by
    intro i hi
    have hhead : memU32 (buildSmplMem seed) (PCFG + 22244) = HDR_CONTOUR_MAP :=
      memU32_header h (i := 2) (by decide)
    have hsmall : (HDR_CONTOUR_MAP + i) % 2 ^ 32 = HDR_CONTOUR_MAP + i := by
      unfold HDR_CONTOUR_MAP
      omega
    rw [hhead, hsmall, memU8_byte (apart_mem h) hseg (by rw [h.index]; exact hi)]
  have hlen : seed.blocksegs2idx.length = 217 := h.index
  have hc' : c < 217 := hc
  unfold contourOf
  refine (List.find?_eq_some_iff_getElem).mpr ⟨?_, c, by rw [List.length_range]; exact hc', ?_, ?_⟩
  · rw [hmap c hc']
    exact decide_eq_true rfl
  · rw [List.getElem_range]
  · intro j hj
    rw [List.getElem_range, hmap j (by omega), Bool.not_eq_true', decide_eq_false_iff_not,
      List.getD_eq_getElem _ _ (by omega), List.getD_eq_getElem _ _ (by omega)]
    intro heq
    have := (List.Nodup.getElem_inj_iff h.distinct).mp (UInt8.toNat_inj.mp heq)
    omega

/-- A table begins with zero. -/
theorem rowEntry_zero {row : List UInt16} (h : Rises row) : rowEntry row 0 = 0 := by
  unfold rowEntry
  rw [List.getD_eq_getElem?_getD, ← List.head?_eq_getElem?, h.first]
  rfl

theorem mem_lags (seed : PitchSeed) :
    (⟨HDR_LAG_CDF, le16 ([dcmfToCmf seed.blocksegIdxDcmf].flatMap id)⟩ : Segment) ∈
      buildSmplMem seed := by
  have hrow : [dcmfToCmf seed.blocksegIdxDcmf].flatMap id = dcmfToCmf seed.blocksegIdxDcmf :=
    List.append_nil _
  rw [hrow]
  unfold buildSmplMem
  simp

theorem mem_transitions (seed : PitchSeed) :
    (⟨HDR_DELTA_CDF, le16 (seed.blockTransitionCmf.flatMap id)⟩ : Segment) ∈ buildSmplMem seed := by
  unfold buildSmplMem
  simp

theorem mem_deltas (seed : PitchSeed) :
    (⟨HDR_FRAC_BASE, le16 (seed.deltaLagCmfs.flatMap id)⟩ : Segment) ∈ buildSmplMem seed := by
  unfold buildSmplMem
  simp

theorem mem_bounds (seed : PitchSeed) :
    (⟨DELTA_BOUNDS_ADDR, seed.firstblockRange ++ [0, 0]⟩ : Segment) ∈ buildSmplMem seed := by
  unfold buildSmplMem
  simp

/-- A window of the table of contours. -/
theorem inverts_lagCdf (h : seed.Sound) {k n v a : Nat} (hk : k + n ≤ 218) (hv : v + 1 < n)
    (haddr : a = HDR_LAG_CDF + 2 * k) :
    Inverts
      (fun e => e.encode
        (rowEntry (dcmfToCmf seed.blocksegIdxDcmf) (k + v) -
          rowEntry (dcmfToCmf seed.blocksegIdxDcmf) k)
        (rowEntry (dcmfToCmf seed.blocksegIdxDcmf) (k + (v + 1)) -
          rowEntry (dcmfToCmf seed.blocksegIdxDcmf) k)
        (rowEntry (dcmfToCmf seed.blocksegIdxDcmf) (k + (n - 1)) -
          rowEntry (dcmfToCmf seed.blocksegIdxDcmf) k))
      (fun d => decodeCdfMem d (buildSmplMem seed) a n) v 0 := by
  refine inverts_mem (apart_mem h) (mem_lags seed) (l := 218) (r := 0) ?_ Nat.one_pos h.lagRow.2
    hk hv (by rw [haddr]; omega)
  intro row hrow
  rw [List.mem_singleton.mp hrow]
  exact h.lagRow.1

/-- A block, after the block before. -/
theorem inverts_transition (h : seed.Sound) {b v a : Nat} (hb : b < 9) (hv : v < 9)
    (haddr : a = HDR_DELTA_CDF + b * 20) :
    Inverts
      (fun e => e.encode (rowEntry (seed.blockTransitionCmf.getD b []) v)
        (rowEntry (seed.blockTransitionCmf.getD b []) (v + 1))
        (rowEntry (seed.blockTransitionCmf.getD b []) PITCH_NUM_BLOCKS))
      (fun d => decodeCdfMem d (buildSmplMem seed) a 10) v 0 := by
  obtain ⟨hcount, hrows⟩ := h.transitionRows
  have hr : b < seed.blockTransitionCmf.length := by omega
  have hrises := (hrows _ (List.getElem_mem hr)).2
  have hmem := inverts_mem (apart_mem h) (mem_transitions seed) (fun row hrow => (hrows row hrow).1)
    (k := 0) (n := 10) (v := v) (a := a) hr hrises (by decide) (by omega)
    (by rw [haddr]; omega)
  rw [rowEntry_zero hrises, Nat.zero_add, Nat.zero_add, Nat.zero_add, Nat.sub_zero, Nat.sub_zero,
    Nat.sub_zero] at hmem
  rw [List.getD_eq_getElem _ _ hr]
  exact hmem

/-- The bounds of the contours that begin with a block, as each side has them. -/
theorem bounds_eq (h : seed.Sound) {b i : Nat} (hb : b < 9) (hi : i < 2) :
    memU8 (buildSmplMem seed) ((DELTA_BOUNDS_ADDR + (b * 2 + i)) % 2 ^ 32) =
      (seed.firstblockRange.getD (2 * b + i) 0).toNat := by
  have hlen : seed.firstblockRange.length = 18 := h.ranges
  have hsmall : (DELTA_BOUNDS_ADDR + (b * 2 + i)) % 2 ^ 32 = DELTA_BOUNDS_ADDR + (2 * b + i) := by
    unfold DELTA_BOUNDS_ADDR
    omega
  rw [hsmall, memU8_byte (apart_mem h) (mem_bounds seed) (by rw [List.length_append]; omega)]
  congr 1
  rw [List.getD_eq_getElem?_getD, List.getElem?_append_left (by omega),
    ← List.getD_eq_getElem?_getD]

theorem firstblockRange_eq (h : seed.Sound) {b : Nat} (hb : b < 9) :
    seed.build.firstblockRange.getD b (0, 0) = ((seed.firstblockRange.getD (2 * b) 0).toNat,
      (seed.firstblockRange.getD (2 * b + 1) 0).toNat) := by
  have hlen : seed.firstblockRange.length = 18 := h.ranges
  show ((chunksExact 2 (seed.firstblockRange.length / 2) seed.firstblockRange).map
    fun p => ((p.getD 0 0).toNat, (p.getD 1 0).toNat)).getD b (0, 0) = _
  unfold chunksExact
  rw [hlen, List.map_map, List.getD_eq_getElem _ _ (by rw [List.length_map, List.length_range]; omega),
    List.getElem_map, List.getElem_range]
  have hat : ∀ i < 2, ((seed.firstblockRange.drop (b * 2)).take 2).getD i 0 =
      seed.firstblockRange.getD (2 * b + i) 0 := by
    intro i hi
    rw [List.getD_eq_getElem?_getD, List.getElem?_take_of_lt hi, List.getElem?_drop,
      ← List.getD_eq_getElem?_getD, Nat.mul_comm b 2]
  show (((((seed.firstblockRange.drop (b * 2)).take 2).getD 0 0).toNat,
    (((seed.firstblockRange.drop (b * 2)).take 2).getD 1 0).toNat)) = _
  rw [hat 0 (by decide), hat 1 (by decide), Nat.add_zero]

/-- What a frame may be read after: no lag, or a lag of a block. -/
inductive After : Int → Int → Prop
  | none (i : Int) : After (-1) i
  | lag (b i : Nat) : b < 9 → b * 64 ≤ i → i < b * 64 + 64 → After b i

theorem index_eq (seed : PitchSeed) (c : Nat) :
    seed.build.blocksegs2idx.getD c 0 = (seed.blocksegs2idx.getD c 0).toNat := by
  show (seed.blocksegs2idx.map UInt8.toNat).getD c 0 = _
  rw [List.getD_eq_getElem?_getD, List.getElem?_map, List.getD_eq_getElem?_getD]
  cases seed.blocksegs2idx[c]? <;> rfl

theorem blocks_eq {c : Nat} (hc : c < seed.blocksegs.length) :
    (seed.blocksegs.map (·.blocks)).getD c [] = seed.blocksegs[c].blocks := by
  rw [List.getD_eq_getElem _ _ (by rw [List.length_map]; exact hc), List.getElem_map]

/-- **The contour is read back**, as the number that the map has it under. -/
theorem inverts_contour (h : seed.Sound) {prev i : Int} (hprev : After prev i) {c : Nat}
    (hc : c < seed.blocksegs.length) :
    Inverts (fun e => encodeContour seed.build c prev e)
      (fun d => decodePrimaryLag d (buildSmplMem seed) prev)
      (some ((seed.blocksegs2idx.getD c 0).toNat - 1)) 0 := by
  have hcount : c < NUM_CONTOURS := h.contours ▸ hc
  obtain ⟨b0, hb0⟩ : ∃ b0, b0 = ((seed.blocksegs.map (·.blocks)).getD c []).getD 0 0 := ⟨_, rfl⟩
  obtain ⟨hfirst, hlast, hin⟩ := h.range c hcount b0 hb0
  obtain ⟨ix, hix⟩ : ∃ ix, ix = (seed.blocksegs2idx.getD c 0).toNat := ⟨_, rfl⟩
  obtain ⟨lo, hlo⟩ : ∃ lo, lo = (seed.firstblockRange.getD (2 * b0) 0).toNat := ⟨_, rfl⟩
  obtain ⟨hi, hhi⟩ : ∃ hi, hi = (seed.firstblockRange.getD (2 * b0 + 1) 0).toNat := ⟨_, rfl⟩
  rw [← hix, ← hlo] at hfirst
  rw [← hix, ← hhi] at hlast
  rw [← hhi] at hin
  unfold NUM_CONTOURS at hin
  have hhead : memU32 (buildSmplMem seed) (PCFG + 22248) = HDR_LAG_CDF :=
    memU32_header h (i := 3) (by decide)
  have hdeltas : memU32 (buildSmplMem seed) (PCFG + 22268) = HDR_DELTA_CDF :=
    memU32_header h (i := 8) (by decide)
  have hnum := memI32_count h
  have hzero := rowEntry_zero h.lagRow.2
  unfold encodeContour decodePrimaryLag
  rw [hhead, hdeltas, hnum, index_eq, ← hix]
  cases hprev with
  | none =>
      have hall := inverts_lagCdf h (k := 0) (n := 218) (v := ix - 1) (a := HDR_LAG_CDF)
        (by decide) (by omega) rfl
      have hsucc : ix - 1 + 1 = ix := by omega
      rw [hzero, Nat.zero_add, Nat.zero_add, Nat.zero_add, Nat.sub_zero, Nat.sub_zero, Nat.sub_zero,
        hsucc] at hall
      have hlen : seed.build.blocksegs.length = 217 := h.contours
      rw [hlen]
      simp only [if_pos (show (-1 : Int) < 0 by decide)]
      exact hall.map some
  | lag b j hb _ _ =>
      have hnonneg : ¬ ((b : Int) < 0) := by omega
      have hb0lt : b0 < 9 := by
        rw [hb0, blocks_eq hc]
        exact (h.contour _ (List.getElem_mem hc)).block_lt 0
      have hblock := inverts_transition h hb hb0lt (a := (HDR_DELTA_CDF + b * 20) % 2 ^ 32)
        (by unfold HDR_DELTA_CDF; omega)
      have hsub := inverts_lagCdf h (k := lo) (n := hi + 2 - lo) (v := ix - 1 - lo)
        (a := (HDR_LAG_CDF + lo * 2) % 2 ^ 32) (by omega) (by omega)
        (by unfold HDR_LAG_CDF; omega)
      have hsym : ix - 1 - lo + lo = ix - 1 := by omega
      have hlow : ix - lo - 1 = ix - 1 - lo := by omega
      have hhigh : ix - lo = ix - 1 - lo + 1 := by omega
      have htop : hi - lo + 1 = hi + 2 - lo - 1 := by omega
      have hresult := hsub.map fun sym => some (sym + lo)
      rw [hsym] at hresult
      have hrange := firstblockRange_eq h hb0lt
      rw [← hlo, ← hhi] at hrange
      have hlo8 := bounds_eq h hb0lt (i := 0) (by decide)
      have hhi8 := bounds_eq h hb0lt (i := 1) (by decide)
      rw [Nat.add_zero, Nat.add_zero, ← hlo] at hlo8
      rw [← hhi] at hhi8
      have hsecond : Inverts
          (fun e => e.encode
            (rowEntry (dcmfToCmf seed.blocksegIdxDcmf) (lo + (ix - lo - 1)) -
              rowEntry (dcmfToCmf seed.blocksegIdxDcmf) lo)
            (rowEntry (dcmfToCmf seed.blocksegIdxDcmf) (lo + (ix - lo)) -
              rowEntry (dcmfToCmf seed.blocksegIdxDcmf) lo)
            (rowEntry (dcmfToCmf seed.blocksegIdxDcmf) (lo + (hi - lo + 1)) -
              rowEntry (dcmfToCmf seed.blocksegIdxDcmf) lo))
          (fun d => decodeDelta d (buildSmplMem seed) HDR_LAG_CDF b0) (some (ix - 1)) 0 := by
        unfold decodeDelta
        rw [hlo8, hhi8, hlow, hhigh, htop]
        simp only [if_neg (show ¬ hi + 2 < lo + 2 by omega)]
        exact hresult
      simp only [if_neg hnonneg]
      have hblock0 : ((seed.build.blocksegs.map (·.blocks)).getD c []).getD 0 0 = b0 := hb0.symm
      simp only [hblock0, hrange, Int.toNat_natCast]
      exact hblock.bind hsecond (g := fun di d => decodeDelta d (buildSmplMem seed) HDR_LAG_CDF di)

/-! ## 5. The lags are read back -/

/-- A lag for each segment, over the eighths of the segment. -/
def spread : List Nat → List Nat → List Nat
  | n :: ns, lag :: lags => List.replicate n lag ++ spread ns lags
  | _, _ => []

/-- Within segment `k` there is the lag of segment `k`. -/
theorem spread_in : ∀ {ns lags : List Nat} (k : Nat) {i : Nat}, ns.length = lags.length →
    k < ns.length → i < ns.getD k 0 → (spread ns lags).getD ((ns.take k).sum + i) 0 = lags.getD k 0
  | n :: ns, lag :: lags, 0, i, _, _, hi => by
      have hi' : i < n := hi
      show (List.replicate n lag ++ spread ns lags).getD (0 + i) 0 = lag
      rw [Nat.zero_add, List.getD_eq_getElem?_getD,
        List.getElem?_append_left (by rw [List.length_replicate]; exact hi'),
        List.getElem?_replicate_of_lt hi']
      rfl
  | n :: ns, lag :: lags, k + 1, i, hlen, hk, hi => by
      have hrest : (spread ns lags).getD ((ns.take k).sum + i) 0 = lags.getD k 0 :=
        spread_in k (Nat.succ.inj hlen) (Nat.lt_of_succ_lt_succ hk) hi
      rw [List.take_succ_cons, List.sum_cons]
      show (List.replicate n lag ++ spread ns lags).getD _ 0 = lags.getD k 0
      rw [← hrest, List.getD_eq_getElem?_getD, Nat.add_assoc,
        List.getElem?_append_right (by rw [List.length_replicate]; exact Nat.le_add_right _ _),
        List.length_replicate, Nat.add_sub_cancel_left, List.getD_eq_getElem?_getD]

theorem length_spread : ∀ {ns lags : List Nat}, ns.length = lags.length →
    (spread ns lags).length = ns.sum
  | [], [], _ => rfl
  | n :: ns, lag :: lags, hlen => by
      show (List.replicate n lag ++ spread ns lags).length = _
      rw [List.length_append, List.length_replicate, length_spread (Nat.succ.inj hlen),
        List.sum_cons]

/-- A lag for each segment, in the block of the segment. -/
structure Lags (seg : BlockSeg) (lags : List Nat) : Prop where
  count : lags.length = seg.blocks.length
  low : ∀ k < seg.blocks.length, seg.blocks.getD k 0 * 64 ≤ lags.getD k 0
  high : ∀ k < seg.blocks.length, lags.getD k 0 < seg.blocks.getD k 0 * 64 + 64

/-- What the decoder notes down of some segments. -/
def hear (seg : BlockSeg) (lags : List Nat) : List Nat → LagState → LagState
  | [], s => s
  | k :: rest, s =>
      hear seg lags rest
        (s.heard k (lags.getD k 0 : Nat) (seg.blocks.getD k 0 : Nat) (seg.seglens.getD k 0))

/-- **A lag, after the lag before.** -/
theorem inverts_delta (h : seed.Sound) {mode b pb lag pi : Nat} (hmode : mode < 3)
    (hnear : pb ≤ b + 1 ∧ b ≤ pb + 2) (hlow : b * 64 ≤ lag) (hhigh : lag < b * 64 + 64)
    (hplow : pb * 64 ≤ pi) (hphigh : pi < pb * 64 + 64) {a : Nat}
    (ha : (a : Int) = HDR_FRAC_BASE + mode * 640 + ((b : Int) * 64 - pi) * 2 + 0xfe) :
    let start : Int := -((pi : Int) - pb * BLOCKSIZE) + ((b : Int) - pb) * BLOCKSIZE
    let base := (start + 2 * BLOCKSIZE - 1).toNat
    let ix := ((lag : Int) - pi - start).toNat
    let row := seed.build.deltaLagCmfs.getD mode []
    Inverts
      (fun e => e.encode (rowEntry row (base + ix) - rowEntry row base)
        (rowEntry row (base + (ix + 1)) - rowEntry row base)
        (rowEntry row (base + BLOCKSIZE) - rowEntry row base))
      (fun d => decodeCdfMem d (buildSmplMem seed) a 65) (lag - b * 64) 0 := by
  obtain ⟨hcount, hrows⟩ := h.deltaRows
  have hr : mode < seed.deltaLagCmfs.length := by omega
  obtain ⟨base, hbase⟩ : ∃ base : Nat, (base : Int) = (b : Int) * 64 - pi + 127 :=
    ⟨((b : Int) * 64 - pi + 127).toNat, by omega⟩
  have hfrom : (-((pi : Int) - pb * BLOCKSIZE) + ((b : Int) - pb) * BLOCKSIZE + 2 * BLOCKSIZE -
      1).toNat = base := by
    unfold BLOCKSIZE
    omega
  have hsym : ((lag : Int) - pi -
      (-((pi : Int) - pb * BLOCKSIZE) + ((b : Int) - pb) * BLOCKSIZE)).toNat = lag - b * 64 := by
    unfold BLOCKSIZE
    omega
  have hmem := inverts_mem (apart_mem h) (mem_deltas seed) (fun row hrow => (hrows row hrow).1)
    (k := base) (n := 65) (v := lag - b * 64) (a := a) hr (hrows _ (List.getElem_mem hr)).2
    (by omega) (by omega) (by omega)
  intro start from' ix row
  have hrow : row = seed.deltaLagCmfs[mode] := List.getD_eq_getElem _ _ hr
  rw [hrow, show from' = base from hfrom, show ix = lag - b * 64 from hsym]
  exact hmem

theorem sum_take_succ (ns : List Nat) {k : Nat} (hk : k < ns.length) :
    (ns.take k).sum + ns.getD k 0 = (ns.take (k + 1)).sum := by
  rw [List.take_succ_eq_append_getElem hk, List.sum_append, List.getD_eq_getElem _ _ hk,
    List.sum_singleton]

/-- **The lags of segments are read back**, from segment `k` on. -/
theorem inverts_segments (h : seed.Sound) {c mode : Nat} (hc : c < seed.blocksegs.length)
    (hmode : mode < 3) {seg : BlockSeg} (hseg : seed.blocksegs[c] = seg) {lags : List Nat}
    (hlags : Lags seg lags) : ∀ (m : Nat) {k pb pi : Nat} {s : LagState},
    k + m = seg.blocks.length →
    (0 < m → pb ≤ seg.blocks.getD k 0 + 1 ∧ seg.blocks.getD k 0 ≤ pb + 2) →
    pb * 64 ≤ pi → pi < pb * 64 + 64 → s.prevFracLag = pi →
    Inverts
      (fun e => encodeSegments (seed.build.deltaLagCmfs.getD mode []) seg (spread seg.seglens lags)
        (List.range' k m) (seg.seglens.take k).sum pb pi e)
      (fun d => decodeSegments (buildSmplMem seed) c (HDR_FRAC_BASE + mode * 640)
        (List.range' k m) s d)
      (hear seg lags (List.range' k m) s) 0
  | 0, _, _, _, s, _, _, _, _, _ => Inverts.pure s
  | m + 1, k, pb, pi, s, hkm, hnear, hplow, hphigh, hfrac => by
      have hsound : seg.Sound := hseg ▸ h.contour _ (List.getElem_mem hc)
      have hfew := hsound.few
      have hpairs := hsound.pairs
      have hk : k < seg.blocks.length := by omega
      have hblk : recordI32 (buildSmplMem seed) c k = (seg.blocks.getD k 0 : Nat) := by
        rw [recordI32_word h hc (by omega), hseg, recordWords_block seg (by omega)]
      have hlen : recordI32 (buildSmplMem seed) c (8 + k) = (seg.seglens.getD k 0 : Nat) := by
        rw [recordI32_word h hc (by omega), hseg, recordWords_len seg (by omega)]
      have hlag : (spread seg.seglens lags).getD (seg.seglens.take k).sum 0 = lags.getD k 0 :=
        spread_in k (i := 0) (hpairs.trans hlags.count.symm) (by omega) (hsound.long (by omega))
      have hsum := sum_take_succ seg.seglens (k := k) (by omega)
      have hlow := hlags.low k hk
      have hhigh := hlags.high k hk
      have hnext : 0 < m → seg.blocks.getD k 0 ≤ seg.blocks.getD (k + 1) 0 + 1 ∧
          seg.blocks.getD (k + 1) 0 ≤ seg.blocks.getD k 0 + 2 := by
        intro hm
        have hk' : k + 1 < seg.blocks.length := by omega
        rw [List.getD_eq_getElem _ _ hk, List.getD_eq_getElem _ _ hk']
        exact List.isChain_iff_getElem.mp hsound.near k hk'
      have hrest := inverts_segments h hc hmode hseg hlags m (k := k + 1)
        (s := s.heard k (lags.getD k 0 : Nat) (seg.blocks.getD k 0 : Nat) (seg.seglens.getD k 0))
        (by omega) hnext hlow hhigh rfl
      have hstep := inverts_delta h hmode (hnear (Nat.succ_pos m)) hlow hhigh hplow hphigh
        (a := (((HDR_FRAC_BASE + mode * 640 : Nat) : Int) +
          (s.l2 * 2 ^ 6 - s.prevFracLag + ((seg.blocks.getD k 0 : Nat) - s.l2) * 2 ^ 6) * 2 + 0xfe) %
            2 ^ 32 |>.toNat)
        (by rw [hfrac]; unfold HDR_FRAC_BASE; omega)
      dsimp only at hstep
      rw [List.range'_succ]
      unfold encodeSegments decodeSegments hear
      simp only [hblk, hlen, hlag, hsum, Int.toNat_natCast]
      have hvalue : ((lags.getD k 0 - seg.blocks.getD k 0 * 64 : Nat) : Int) + s.prevFracLag +
          (s.l2 * 2 ^ 6 - s.prevFracLag + ((seg.blocks.getD k 0 : Nat) - s.l2) * 2 ^ 6) =
            (lags.getD k 0 : Nat) := by
        omega
      rw [← hvalue] at hrest
      have hall := hstep.bind hrest (g := fun (sym : Nat) d => decodeSegments (buildSmplMem seed) c
        (HDR_FRAC_BASE + mode * 640) (List.range' (k + 1) m)
        (s.heard k ((sym : Int) + s.prevFracLag +
          (s.l2 * 2 ^ 6 - s.prevFracLag + ((seg.blocks.getD k 0 : Nat) - s.l2) * 2 ^ 6))
          (seg.blocks.getD k 0 : Nat) (seg.seglens.getD k 0)) d)
      rw [hvalue] at hall
      exact hall

/-! ## 6. What the decoder notes down -/

@[simp] theorem LagState.fill_subfrW : ∀ (n : Nat) (v : Int) (s : LagState),
    (s.fill n v).subfrW = s.subfrW + n
  | 0, _, _ => rfl
  | n + 1, v, s => by
      unfold LagState.fill
      rw [LagState.fill_subfrW n]
      show s.subfrW + 1 + n = s.subfrW + (n + 1)
      omega

theorem LagState.fill_length : ∀ (n : Nat) (v : Int) (s : LagState),
    (s.fill n v).blockLags.length = s.blockLags.length
  | 0, _, _ => rfl
  | n + 1, v, s => by
      unfold LagState.fill
      rw [LagState.fill_length n]
      exact List.length_set

theorem LagState.fill_before : ∀ (n : Nat) (v : Int) (s : LagState) {i : Nat}, i < s.subfrW →
    (s.fill n v).blockLags.getD i 0 = s.blockLags.getD i 0
  | 0, _, _, _, _ => rfl
  | n + 1, v, s, i, hi => by
      unfold LagState.fill
      rw [LagState.fill_before n v _ (show i < s.subfrW + 1 by omega)]
      show (s.blockLags.set s.subfrW v).getD i 0 = s.blockLags.getD i 0
      rw [List.getD_eq_getElem?_getD, List.getElem?_set_ne (by omega), List.getD_eq_getElem?_getD]

theorem LagState.fill_within : ∀ (n : Nat) (v : Int) (s : LagState) {i : Nat}, i < n →
    s.subfrW + i < s.blockLags.length → (s.fill n v).blockLags.getD (s.subfrW + i) 0 = v
  | n + 1, v, s, 0, _, hlen => by
      unfold LagState.fill
      rw [LagState.fill_before n v _ (show s.subfrW + 0 < s.subfrW + 1 by omega)]
      show (s.blockLags.set s.subfrW v).getD s.subfrW 0 = v
      rw [List.getD_eq_getElem?_getD, List.getElem?_set_self (by omega)]
      rfl
  | n + 1, v, s, i + 1, hi, hlen => by
      unfold LagState.fill
      have hnext := LagState.fill_within n v
        { s with
          subfrW := s.subfrW + 1
          intLagQ6 := s.intLagQ6.set s.subfrW v
          blockLags := s.blockLags.set s.subfrW v } (i := i) (by omega)
        (by show s.subfrW + 1 + i < (s.blockLags.set s.subfrW v).length
            rw [List.length_set]
            omega)
      have hplace : s.subfrW + (i + 1) = s.subfrW + 1 + i := by omega
      rw [hplace]
      exact hnext

/-- The eighths up to segment `k` have their lags. -/
structure Noted (seg : BlockSeg) (lags : List Nat) (k : Nat) (s : LagState) : Prop where
  place : s.subfrW = (seg.seglens.take k).sum
  eighths : s.blockLags.length = 8
  lags : ∀ i < s.subfrW, s.blockLags.getD i 0 = ((spread seg.seglens lags).getD i 0 : Nat)

theorem sum_take_le (ns : List Nat) (k : Nat) : (ns.take k).sum ≤ ns.sum := by
  calc (ns.take k).sum ≤ (ns.take k).sum + (ns.drop k).sum := Nat.le_add_right _ _
    _ = ns.sum := by rw [← List.sum_append, List.take_append_drop]

theorem BlockSeg.Sound.sum {seg : BlockSeg} (h : seg.Sound) : seg.seglens.sum = 8 := h.whole

theorem Noted.fill {seg : BlockSeg} (hsound : seg.Sound) {lags : List Nat} (hlags : Lags seg lags)
    {k : Nat} (hk : k < seg.blocks.length) {s : LagState} (h : Noted seg lags k s) :
    Noted seg lags (k + 1) (s.fill (seg.seglens.getD k 0) (lags.getD k 0 : Nat)) := by
  have hpairs := hsound.pairs
  have hsum := sum_take_succ seg.seglens (k := k) (by omega)
  have hle := sum_take_le seg.seglens (k + 1)
  rw [hsound.sum] at hle
  refine ⟨by rw [LagState.fill_subfrW, h.place, hsum], by rw [LagState.fill_length, h.eighths], ?_⟩
  intro i hi
  rw [LagState.fill_subfrW, h.place] at hi
  by_cases hbefore : i < s.subfrW
  · rw [LagState.fill_before _ _ _ hbefore]
    exact h.lags i hbefore
  · have hplace := h.place
    obtain ⟨j, rfl⟩ : ∃ j, i = s.subfrW + j := ⟨i - s.subfrW, by omega⟩
    rw [LagState.fill_within _ _ _ (by omega) (by rw [h.eighths]; omega), h.place,
      spread_in k (hpairs.trans hlags.count.symm) (by omega) (by omega)]

theorem Noted.hear {seg : BlockSeg} (hsound : seg.Sound) {lags : List Nat} (hlags : Lags seg lags) :
    ∀ (m : Nat) {k : Nat} {s : LagState}, k + m = seg.blocks.length → Noted seg lags k s →
      Noted seg lags seg.blocks.length (hear seg lags (List.range' k m) s)
  | 0, k, s, hkm, h => by
      obtain rfl : k = seg.blocks.length := by omega
      exact h
  | m + 1, k, s, hkm, h => by
      have hstep : Noted seg lags (k + 1)
          (s.heard k (lags.getD k 0 : Nat) (seg.blocks.getD k 0 : Nat) (seg.seglens.getD k 0)) := by
        have hfirst : Noted seg lags k
            { s with sampleLagQ6 := s.sampleLagQ6.set k (lags.getD k 0 : Nat) } :=
          ⟨h.place, h.eighths, h.lags⟩
        obtain ⟨hplace, heighths, hread⟩ := hfirst.fill hsound hlags (by omega)
        exact ⟨hplace, heighths, hread⟩
      rw [List.range'_succ]
      exact Noted.hear hsound hlags m (by omega) hstep

/-- Block and lag are those of the last segment. -/
theorem hear_last (seg : BlockSeg) (lags : List Nat) : ∀ (m : Nat) {k : Nat} {s : LagState},
    (s.prevLag = (seg.blocks.getD (k - 1) 0 : Nat) ∧ s.prevFracLag = (lags.getD (k - 1) 0 : Nat)) ∨
      0 < m →
    (hear seg lags (List.range' k m) s).prevLag = (seg.blocks.getD (k + m - 1) 0 : Nat) ∧
      (hear seg lags (List.range' k m) s).prevFracLag = (lags.getD (k + m - 1) 0 : Nat)
  | 0, k, s, h => h.resolve_right (Nat.lt_irrefl 0)
  | m + 1, k, s, _ => by
      have hplace : k + (m + 1) - 1 = k + 1 + m - 1 := by omega
      rw [List.range'_succ, hplace]
      exact hear_last seg lags m (k := k + 1) (Or.inl ⟨rfl, rfl⟩)

/-! ## 7. The lags of a contour are read back -/

/-- Before any segment. -/
def LagState.start (prevLag prevFracLag l2 : Int) : LagState :=
  ⟨0, List.replicate 4 0, List.replicate 8 0, List.replicate 8 0, prevLag, prevFracLag, l2⟩

/-- After a first segment whose lag is on its own. -/
def LagState.fine (s : LagState) (len : Nat) (lag blk : Int) : LagState :=
  let s := s.fill len lag
  { s with
    intLagQ6 := s.intLagQ6.set s.subfrW lag
    blockLags := s.blockLags.set s.subfrW lag
    prevLag := blk
    prevFracLag := lag
    l2 := lag }

/-- The lag of the first segment follows from the frame before. -/
def Follow (seg : BlockSeg) (prevLag : Int) : Prop :=
  prevLag ≥ 0 ∧ -1 ≤ ((seg.blocks.getD 0 0 : Nat) : Int) - prevLag ∧
    ((seg.blocks.getD 0 0 : Nat) : Int) - prevLag < 3

instance decidableFollow (seg : BlockSeg) (prevLag : Int) : Decidable (Follow seg prevLag) :=
  inferInstanceAs (Decidable (_ ∧ _ ∧ _))

/-- What the decoder makes of the lags of a contour. -/
def heardContour (seg : BlockSeg) (lags : List Nat) (prevLag prevFracLag : Int) : LagState :=
  let s := LagState.start prevLag prevFracLag (seg.blocks.getD 0 0 : Nat)
  if Follow seg prevLag then hear seg lags (List.range' 0 seg.blocks.length) s
  else
    hear seg lags (List.range' 1 (seg.blocks.length - 1))
      (s.fine (seg.seglens.getD 0 0) (lags.getD 0 0 : Nat) (seg.blocks.getD 0 0 : Nat))

theorem Noted.fine {seg : BlockSeg} (hsound : seg.Sound) {lags : List Nat} (hlags : Lags seg lags)
    {s : LagState} (h : Noted seg lags 0 s) (blk : Int) :
    Noted seg lags 1 (s.fine (seg.seglens.getD 0 0) (lags.getD 0 0 : Nat) blk) := by
  have hpos : 0 < seg.blocks.length := List.length_pos_of_ne_nil hsound.some
  obtain ⟨hplace, heighths, hread⟩ := h.fill hsound hlags hpos
  refine ⟨hplace, ?_, ?_⟩
  · show (List.set _ _ _).length = 8
    rw [List.length_set]
    exact heighths
  · intro i hi
    show (List.set _ _ _).getD i 0 = _
    have hi' : i < (s.fill (seg.seglens.getD 0 0) (lags.getD 0 0 : Nat)).subfrW := hi
    rw [List.getD_eq_getElem?_getD, List.getElem?_set_ne (Nat.ne_of_gt hi'),
      ← List.getD_eq_getElem?_getD]
    exact hread i hi'

theorem heardContour_noted {seg : BlockSeg} (hsound : seg.Sound) {lags : List Nat}
    (hlags : Lags seg lags) (prevLag prevFracLag : Int) :
    Noted seg lags seg.blocks.length (heardContour seg lags prevLag prevFracLag) := by
  have hpos : 0 < seg.blocks.length := List.length_pos_of_ne_nil hsound.some
  have hstart : Noted seg lags 0
      (LagState.start prevLag prevFracLag (seg.blocks.getD 0 0 : Nat)) :=
    ⟨rfl, rfl, fun i hi => absurd hi (Nat.not_lt_zero i)⟩
  unfold heardContour
  dsimp only
  split
  · exact hstart.hear hsound hlags _ (Nat.zero_add _)
  · exact (hstart.fine hsound hlags _).hear hsound hlags _ (by omega)

/-- **The eighths have the lags that were written.** -/
theorem heardContour_blockLags {seg : BlockSeg} (hsound : seg.Sound) {lags : List Nat}
    (hlags : Lags seg lags) (prevLag prevFracLag : Int) :
    (heardContour seg lags prevLag prevFracLag).blockLags =
      (spread seg.seglens lags).map fun (lag : Nat) => (lag : Int) := by
  obtain ⟨hplace, heighths, hread⟩ := heardContour_noted hsound hlags prevLag prevFracLag
  have hpairs := hsound.pairs
  have hlen : (spread seg.seglens lags).length = 8 := by
    rw [length_spread (hpairs.trans hlags.count.symm), hsound.sum]
  rw [List.take_of_length_le (by omega), hsound.sum] at hplace
  refine List.ext_getElem (by rw [heighths, List.length_map, hlen]) fun i hi hi' => ?_
  have hat := hread i (by omega)
  rw [List.getD_eq_getElem _ _ hi, List.getD_eq_getElem _ _ (by omega)] at hat
  rw [List.getElem_map, hat]

/-- The decoder keeps the last block and the last lag. -/
theorem heardContour_last {seg : BlockSeg} (hsound : seg.Sound) (lags : List Nat)
    (prevLag prevFracLag : Int) :
    (heardContour seg lags prevLag prevFracLag).prevLag =
        (seg.blocks.getD (seg.blocks.length - 1) 0 : Nat) ∧
      (heardContour seg lags prevLag prevFracLag).prevFracLag =
        (lags.getD (seg.blocks.length - 1) 0 : Nat) := by
  have hpos : 0 < seg.blocks.length := List.length_pos_of_ne_nil hsound.some
  unfold heardContour
  dsimp only
  split
  · have hlast := hear_last seg lags seg.blocks.length (k := 0)
      (s := LagState.start prevLag prevFracLag (seg.blocks.getD 0 0 : Nat)) (Or.inr hpos)
    rwa [Nat.zero_add] at hlast
  · have hlast := hear_last seg lags (seg.blocks.length - 1) (k := 1)
      (s := (LagState.start prevLag prevFracLag (seg.blocks.getD 0 0 : Nat)).fine
        (seg.seglens.getD 0 0) (lags.getD 0 0 : Nat) (seg.blocks.getD 0 0 : Nat))
      (Or.inl ⟨rfl, rfl⟩)
    rwa [show 1 + (seg.blocks.length - 1) - 1 = seg.blocks.length - 1 by omega] at hlast

/-- **The lags of a contour are read back.** -/
theorem inverts_lags (h : seed.Sound) {c mode : Nat} (hc : c < seed.blocksegs.length)
    (hmode : mode < 3) {seg : BlockSeg} (hseg : seed.blocksegs[c] = seg) {lags : List Nat}
    (hlags : Lags seg lags) {st : SmplLsfState} (hafter : After st.prevLag st.prevFracLag) :
    Inverts
      (fun e => encodeLags (seed.build.deltaLagCmfs.getD mode []) seg (spread seg.seglens lags)
        st.prevLag st.prevFracLag e)
      (fun d => decodeContour (buildSmplMem seed) c mode st d)
      (heardContour seg lags st.prevLag st.prevFracLag) 0 := by
  have hsound : seg.Sound := hseg ▸ h.contour _ (List.getElem_mem hc)
  have hpos : 0 < seg.blocks.length := List.length_pos_of_ne_nil hsound.some
  have hfew := hsound.few
  have hpairs := hsound.pairs
  have hbase : recordI32 (buildSmplMem seed) c 0 = (seg.blocks.getD 0 0 : Nat) := by
    rw [recordI32_word h hc (by decide), hseg, recordWords_block seg (by decide)]
  have hlen : recordI32 (buildSmplMem seed) c 8 = (seg.seglens.getD 0 0 : Nat) := by
    rw [recordI32_word h hc (by decide), hseg]
    exact congrArg _ (recordWords_len seg (j := 0) (by decide))
  have hcount : recordI32 (buildSmplMem seed) c 16 = (seg.blocks.length : Nat) := by
    rw [recordI32_word h hc (by decide), hseg, recordWords_count]
  have hfrac : (memU32 (buildSmplMem seed) (PCFG + 22252) + mode * 0x280) % 2 ^ 32 =
      HDR_FRAC_BASE + mode * 640 := by
    rw [show memU32 (buildSmplMem seed) (PCFG + 22252) = HDR_FRAC_BASE from
      memU32_header h (i := 4) (by decide)]
    unfold HDR_FRAC_BASE
    omega
  have hlow := hlags.low 0 hpos
  have hhigh := hlags.high 0 hpos
  have hfirst : (spread seg.seglens lags).getD 0 0 = lags.getD 0 0 :=
    spread_in 0 (i := 0) (hpairs.trans hlags.count.symm) (by omega) (hsound.long (by omega))
  unfold encodeLags decodeContour heardContour
  rw [hbase, hcount, hfrac]
  by_cases hfollow : Follow seg st.prevLag
  · -- the first lag follows from the frame before
    have hwrite : st.prevLag > -1 ∧ -1 ≤ ((seg.blocks.getD 0 0 : Nat) : Int) - st.prevLag ∧
        ((seg.blocks.getD 0 0 : Nat) : Int) - st.prevLag ≤ 2 := by
      obtain ⟨h₁, h₂, h₃⟩ := hfollow
      omega
    have hread : st.prevLag ≥ 0 ∧ -1 ≤ ((seg.blocks.getD 0 0 : Nat) : Int) - st.prevLag ∧
        ((seg.blocks.getD 0 0 : Nat) : Int) - st.prevLag < 3 := hfollow
    simp only [if_pos hfollow, if_neg (not_not.mpr hwrite), if_neg (not_not.mpr hread),
      Int.toNat_natCast, Nat.sub_zero]
    obtain ⟨b, pi, hb, hpi, hplow, hphigh⟩ : ∃ b pi : Nat, st.prevLag = b ∧ st.prevFracLag = pi ∧
        b * 64 ≤ pi ∧ pi < b * 64 + 64 := by
      revert hafter hread
      generalize st.prevLag = prev
      generalize st.prevFracLag = frac
      intro hafter hread
      cases hafter with
      | none => exact absurd hread.1 (by decide)
      | lag b pi _ hplow hphigh => exact ⟨b, pi, rfl, rfl, hplow, hphigh⟩
    have hall := inverts_segments h hc hmode hseg hlags seg.blocks.length (k := 0)
      (s := LagState.start st.prevLag st.prevFracLag (seg.blocks.getD 0 0 : Nat))
      (Nat.zero_add _) (fun _ => by omega) hplow hphigh hpi
    rw [hb, hpi] at hall ⊢
    exact hall
  · -- the first lag is on its own
    have hwrite : ¬ (st.prevLag > -1 ∧ -1 ≤ ((seg.blocks.getD 0 0 : Nat) : Int) - st.prevLag ∧
        ((seg.blocks.getD 0 0 : Nat) : Int) - st.prevLag ≤ 2) := fun hw =>
      hfollow ⟨by omega, hw.2.1, by omega⟩
    have hread : ¬ (st.prevLag ≥ 0 ∧ -1 ≤ ((seg.blocks.getD 0 0 : Nat) : Int) - st.prevLag ∧
        ((seg.blocks.getD 0 0 : Nat) : Int) - st.prevLag < 3) := hfollow
    simp only [if_neg hfollow, if_pos hwrite, if_pos hread, Int.toNat_natCast, hfirst]
    have hnext : 0 < seg.blocks.length - 1 → seg.blocks.getD 0 0 ≤ seg.blocks.getD 1 0 + 1 ∧
        seg.blocks.getD 1 0 ≤ seg.blocks.getD 0 0 + 2 := by
      intro hm
      have hk' : 0 + 1 < seg.blocks.length := by omega
      rw [List.getD_eq_getElem _ _ hpos, List.getD_eq_getElem _ _ hk']
      exact List.isChain_iff_getElem.mp hsound.near 0 hk'
    have hrest := inverts_segments h hc hmode hseg hlags (seg.blocks.length - 1) (k := 1)
      (s := (LagState.start st.prevLag st.prevFracLag (seg.blocks.getD 0 0 : Nat)).fine
        (seg.seglens.getD 0 0) (lags.getD 0 0 : Nat) (seg.blocks.getD 0 0 : Nat))
      (by omega) hnext hlow hhigh rfl
    have hsum : (seg.seglens.take 1).sum = seg.seglens.getD 0 0 := by
      rw [← sum_take_succ _ (k := 0) (by omega)]
      exact Nat.zero_add _
    have hvalue : ((seg.blocks.getD 0 0 : Nat) : Int) * 2 ^ 6 +
        ((lags.getD 0 0 - seg.blocks.getD 0 0 * BLOCKSIZE : Nat) : Int) = (lags.getD 0 0 : Nat) := by
      unfold BLOCKSIZE
      omega
    have hfine := (inverts_fine (v := lags.getD 0 0 - seg.blocks.getD 0 0 * BLOCKSIZE)
      (by unfold BLOCKSIZE; omega)).map fun (sym : Nat) =>
        (LagState.start st.prevLag st.prevFracLag (seg.blocks.getD 0 0 : Nat)).fine
          (seg.seglens.getD 0 0) (((seg.blocks.getD 0 0 : Nat) : Int) * 2 ^ 6 + (sym : Nat))
          (seg.blocks.getD 0 0 : Nat)
    rw [hvalue] at hfine
    rw [hsum] at hrest
    have hall := hfine.bind hrest (g := fun s d => decodeSegments (buildSmplMem seed) c
      (HDR_FRAC_BASE + mode * 640) (List.range' 1 (seg.blocks.length - 1)) s d)
    unfold decodeFine
    simp only [hbase, hlen, Int.toNat_natCast]
    exact hall

/-! ## 8. The pitch is read back -/

/-- Both sides keep the same for the next frame: a gain, a filter, a block and a lag. -/
structure Tied (se sd : SmplLsfState) : Prop where
  gain : se.prevGainIdx = sd.prevGainIdx
  filter : se.prevFiltIdx = sd.prevFiltIdx
  block : se.prevLagblk = sd.prevLag
  lag : se.prevLagidx = sd.prevFracLag
  after : After sd.prevLag sd.prevFracLag
  kept : (⟨se.prevGainIdx, se.prevFiltIdx, 0⟩ : Ltp).Sound

/-- So it is where both have nothing to go on from. -/
theorem tied_none {se sd : SmplLsfState}
    (he : se.prevGainIdx = -1 ∧ se.prevFiltIdx = -1 ∧ se.prevLagblk = -1 ∧ se.prevLagidx = -1)
    (hd : sd.prevGainIdx = -1 ∧ sd.prevFiltIdx = -1 ∧ sd.prevLag = -1 ∧ sd.prevFracLag = -1) :
    Tied se sd := by
  obtain ⟨he₁, he₂, he₃, he₄⟩ := he
  obtain ⟨hd₁, hd₂, hd₃, hd₄⟩ := hd
  refine ⟨by rw [he₁, hd₁], by rw [he₂, hd₂], by rw [he₃, hd₃], by rw [he₄, hd₄], ?_, ?_⟩
  · rw [hd₃]
    exact After.none _
  · rw [he₁, he₂]
    exact ⟨⟨by decide, by decide⟩, by decide, by decide⟩

/-- The gains and filters that the encoder goes through, of each quarter. -/
structure SmplPitchParams.Fits (pp : SmplPitchParams) : Prop where
  gains : pp.gainIdx.length = 4
  filters : pp.filtIdx.length = 4
  gain : ∀ gi ∈ pp.gainIdx, gi < 16
  filter : ∀ fi ∈ pp.filtIdx, fi < 34

/-- A filter, or -1 where a quarter has no pulses. -/
def readFilters (subfrCounts : List Nat) (pp : SmplPitchParams) : List Int :=
  (subfrCounts.zip pp.filtIdx).map fun q => if q.1 > 0 then (q.2 : Int) else -1

theorem lagMode_lt (gainAccum : Int) : lagMode gainAccum < 3 := by
  unfold lagMode
  dsimp only
  split
  · split <;> decide
  · decide

/-- What the decoder makes of the pitch. -/
def readPitch (pairs : List (Nat × Int)) (lag c : Nat) (numSeg : Int) (s : LagState) :
    SmplPitchResult where
  gainIdx := pairs.map (·.1)
  filtIdx := pairs.map (·.2)
  lag := lag
  contour := c
  sampleLagQ6 := s.sampleLagQ6
  numSeg := numSeg
  intLagQ6 := s.intLagQ6
  blockLags := s.blockLags
  numSubfr := s.subfrW

/-- With its contour found, the lags of a frame are those of the contour. -/
theorem decodeKnown_eq {mem : List Segment} {c : Nat}
    (hin : ¬ (c : Int) ≥ memI32 mem (PCFG + 22240)) (pairs : List (Nat × Int)) {mode : Nat}
    {st : SmplLsfState} (lag : Nat) {d d' : RangeDecoder} {s : LagState}
    (hs : decodeContour mem c mode st d = (s, d')) :
    decodeKnown mem pairs mode st lag c d =
      ((readPitch pairs lag c (recordI32 mem c 16) s,
        { st with prevLag := s.prevLag, prevFracLag := s.prevFracLag }), d') := by
  unfold decodeKnown
  rw [if_neg hin, hs]
  rfl

theorem decodeFound_some {mem : List Segment} {lag c : Nat} (hplace : contourOf mem (lag + 1) = some c)
    (pairs : List (Nat × Int)) (mode : Nat) (st : SmplLsfState) (d : RangeDecoder) :
    decodeFound mem pairs mode st (some lag) d = decodeKnown mem pairs mode st lag c d := by
  unfold decodeFound
  simp only [hplace]

theorem decodeLags_eq {mem : List Segment} (pairs : List (Nat × Int)) (mode : Nat)
    {st : SmplLsfState} {lag : Option Nat} {d d' : RangeDecoder}
    (hlag : decodePrimaryLag d mem st.prevLag = (lag, d')) :
    decodeLags mem pairs mode st d = decodeFound mem pairs mode st lag d' := by
  unfold decodeLags
  rw [hlag]

/-- Contour and lags, once the gains are read. -/
theorem inverts_wire (h : seed.Sound) {c mode : Nat} (hc : c < seed.blocksegs.length)
    (hmode : mode < 3) {seg : BlockSeg} (hseg : seed.blocksegs[c] = seg) {lags : List Nat}
    (hlags : Lags seg lags) (pairs : List (Nat × Int)) (st : SmplLsfState)
    (hafter : After st.prevLag st.prevFracLag) {s : LagState}
    (hs : heardContour seg lags st.prevLag st.prevFracLag = s) :
    Inverts
      (fun e => smplEncodeLagsWire seed.build e c (spread seg.seglens lags) st.prevLag
        st.prevFracLag mode)
      (fun d => decodeLags (buildSmplMem seed) pairs mode st d)
      (readPitch pairs ((seed.blocksegs2idx.getD c 0).toNat - 1) c (seg.blocks.length : Nat) s,
        { st with prevLag := s.prevLag, prevFracLag := s.prevFracLag }) 0 := by
  have hcount : c < NUM_CONTOURS := h.contours ▸ hc
  have hsize : c < 217 := hcount
  have hpos : 0 < (seed.blocksegs2idx.getD c 0).toNat :=
    Nat.lt_of_le_of_lt (Nat.zero_le _) (h.range c hcount _ rfl).1
  have hsegs : recordI32 (buildSmplMem seed) c 16 = (seg.blocks.length : Nat) := by
    rw [recordI32_word h hc (by decide), hseg, recordWords_count]
  have hplace : contourOf (buildSmplMem seed) ((seed.blocksegs2idx.getD c 0).toNat - 1 + 1) =
      some c := by
    rw [Nat.sub_add_cancel hpos]
    exact contourOf_index h hcount
  have hin : ¬ (c : Int) ≥ memI32 (buildSmplMem seed) (PCFG + 22240) := by
    rw [memI32_count h]
    omega
  have hrest := inverts_lags h hc hmode hseg hlags hafter
  rw [hs] at hrest
  have hfound := hrest.of_eq fun d d' heq => by
    have hknown := decodeKnown_eq hin pairs ((seed.blocksegs2idx.getD c 0).toNat - 1) heq
    rw [hsegs] at hknown
    exact (decodeFound_some hplace pairs mode st d).trans hknown
  have hwrite : seed.build.blocksegs.getD c ⟨[], []⟩ = seg := by
    show seed.blocksegs.getD c ⟨[], []⟩ = seg
    rw [List.getD_eq_getElem _ _ hc, hseg]
  unfold smplEncodeLagsWire
  rw [hwrite]
  exact (inverts_contour h hafter hc).andThen hfound fun d d' heq =>
    decodeLags_eq pairs mode heq

/-- **The pitch of a voiced frame is read back**: the gains, the filter of each quarter with pulses,
    and the lags; and the two sides stay tied. -/
theorem inverts_pitch {ccSeed : CcSeed} (hcc : ccSeed.Sound) (h : seed.Sound)
    {se sd : SmplLsfState} (htied : Tied se sd) {subfrCounts : List Nat}
    (hcounts : subfrCounts.length = 4) {pp : SmplPitchParams} (hpp : pp.Fits)
    (hc : pp.blocksegIdx < seed.blocksegs.length) {lags : List Nat}
    (hlags : Lags seed.blocksegs[pp.blocksegIdx] lags)
    (hlaginds : pp.laginds = spread seed.blocksegs[pp.blocksegIdx].seglens lags) :
    ∃ r sd', Inverts
        (fun e => (encodeSmplPitch e seed.build ccSeed.build se subfrCounts pp).2)
        (fun d => decodeSmplPitch d (buildSmplMem seed) ccSeed.build sd subfrCounts) (r, sd') 0 ∧
      r.gainIdx = pp.gainIdx ∧ r.filtIdx = readFilters subfrCounts pp ∧
      r.contour = pp.blocksegIdx ∧
      r.blockLags = pp.laginds.map (fun (lag : Nat) => (lag : Int)) ∧
      ∀ e, Tied (encodeSmplPitch e seed.build ccSeed.build se subfrCounts pp).1 sd' := by
  obtain ⟨seg, hseg⟩ : ∃ seg, seed.blocksegs[pp.blocksegIdx] = seg := ⟨_, rfl⟩
  rw [hseg] at hlags hlaginds
  have hsound : seg.Sound := hseg ▸ h.contour _ (List.getElem_mem hc)
  obtain ⟨qs, hqs⟩ : ∃ qs, qs = ltpQuarters subfrCounts pp := ⟨_, rfl⟩
  have hpairs : (pp.gainIdx.zip pp.filtIdx).length = 4 := by
    rw [List.length_zip, hpp.gains, hpp.filters]
    rfl
  have hmem : ∀ q ∈ qs, q.2.1 < 16 ∧ q.2.2 < 34 := by
    intro q hq
    have hin := (List.of_mem_zip (hqs ▸ hq)).2
    exact ⟨hpp.gain _ (List.of_mem_zip hin).1, hpp.filter _ (List.of_mem_zip hin).2⟩
  have hfst : qs.map (·.1) = subfrCounts := by
    rw [hqs]
    exact List.map_fst_zip (by rw [hpairs, hcounts])
  obtain ⟨l, hl⟩ : ∃ l, l = ltpAfter ccSeed.build qs ⟨se.prevGainIdx, se.prevFiltIdx, 0⟩ :=
    ⟨_, rfl⟩
  have hltp := inverts_ltp hcc htied.kept hmem
  rw [hfst, ← hl] at hltp
  obtain ⟨s, hs⟩ : ∃ s, heardContour seg lags sd.prevLag sd.prevFracLag = s := ⟨_, rfl⟩
  have hwire := inverts_wire h hc (lagMode_lt l.gainAccum) hseg hlags (qs.map quarterPair)
    { sd with prevGainIdx := l.prevGainIdx, prevFiltIdx := l.prevFiltIdx } htied.after hs
  have henc : ∀ e, encodeSmplPitch e seed.build ccSeed.build se subfrCounts pp =
      ({ se with
          prevGainIdx := l.prevGainIdx
          prevFiltIdx := l.prevFiltIdx
          prevLagblk := ((smplLagsPredictorAfter seed.build pp.blocksegIdx pp.laginds).1 : Nat)
          prevLagidx := ((smplLagsPredictorAfter seed.build pp.blocksegIdx pp.laginds).2 : Nat) },
        smplEncodeLagsWire seed.build
          (encodeLtp ccSeed.build qs ⟨se.prevGainIdx, se.prevFiltIdx, 0⟩ e).2 pp.blocksegIdx
          (spread seg.seglens lags) sd.prevLag sd.prevFracLag (lagMode l.gainAccum)) := by
    intro e
    rw [hl, ← encodeLtp_fst ccSeed.build qs _ e, hqs, ← hlaginds, ← htied.block, ← htied.lag]
    rfl
  have hsnd : qs.map (·.2) = pp.gainIdx.zip pp.filtIdx := by
    rw [hqs]
    exact List.map_snd_zip (by rw [hpairs, hcounts])
  have hfilters : subfrCounts.zip pp.filtIdx = qs.map fun q => (q.1, q.2.2) := by
    have hright : pp.filtIdx = (pp.gainIdx.zip pp.filtIdx).map (·.2) :=
      (List.map_snd_zip (by rw [hpp.gains, hpp.filters])).symm
    rw [hright, List.zip_map_right, hqs]
    rfl
  refine ⟨readPitch (qs.map quarterPair) ((seed.blocksegs2idx.getD pp.blocksegIdx 0).toNat - 1)
    pp.blocksegIdx (seg.blocks.length : Nat) s,
    { sd with
      prevGainIdx := l.prevGainIdx
      prevFiltIdx := l.prevFiltIdx
      prevLag := s.prevLag
      prevFracLag := s.prevFracLag }, ?_, ?_, ?_, rfl, ?_, ?_⟩
  · simp only [henc]
    refine hltp.andThen hwire fun d d' heq => ?_
    unfold decodeSmplPitch
    rw [← htied.gain, ← htied.filter, heq]
  · show (qs.map quarterPair).map (·.1) = pp.gainIdx
    calc (qs.map quarterPair).map (·.1) = (qs.map (·.2)).map (·.1) := by
          rw [List.map_map, List.map_map]
          rfl
      _ = pp.gainIdx := by
          rw [hsnd]
          exact List.map_fst_zip (by rw [hpp.gains, hpp.filters])
  · show (qs.map quarterPair).map (·.2) = readFilters subfrCounts pp
    unfold readFilters
    rw [hfilters, List.map_map, List.map_map]
    rfl
  · show s.blockLags = _
    rw [hlaginds, ← hs]
    exact heardContour_blockLags hsound hlags _ _
  · intro e
    rw [henc]
    obtain ⟨hblock, hlag⟩ := heardContour_last hsound lags sd.prevLag sd.prevFracLag
    rw [hs] at hblock hlag
    have hpos : 0 < seg.blocks.length := List.length_pos_of_ne_nil hsound.some
    have hpairs' := hsound.pairs
    have hrow : seed.build.blocksegs.getD pp.blocksegIdx ⟨[], []⟩ = seg := by
      show seed.blocksegs.getD pp.blocksegIdx ⟨[], []⟩ = seg
      rw [List.getD_eq_getElem _ _ hc, hseg]
    have hwhole := sum_take_succ seg.seglens (k := seg.blocks.length - 1) (by omega)
    rw [Nat.sub_add_cancel hpos,
      List.take_of_length_le (show seg.seglens.length ≤ seg.blocks.length by omega), hsound.sum]
      at hwhole
    have hlong := hsound.long (k := seg.blocks.length - 1) (by omega)
    have hend : pp.laginds.getD (NUM_SUBFRAMES - 1) 0 = lags.getD (seg.blocks.length - 1) 0 := by
      have hat : (spread seg.seglens lags).getD ((seg.seglens.take (seg.blocks.length - 1)).sum +
          (seg.seglens.getD (seg.blocks.length - 1) 0 - 1)) 0 =
            lags.getD (seg.blocks.length - 1) 0 :=
        spread_in _ (hpairs'.trans hlags.count.symm) (by omega) (by omega)
      rw [show (seg.seglens.take (seg.blocks.length - 1)).sum +
        (seg.seglens.getD (seg.blocks.length - 1) 0 - 1) = NUM_SUBFRAMES - 1 by
          unfold NUM_SUBFRAMES
          omega] at hat
      rw [hlaginds, hat]
    have hlow := hlags.low (seg.blocks.length - 1) (by omega)
    have hhigh := hlags.high (seg.blocks.length - 1) (by omega)
    have hsoundl : l.Sound := hl ▸ ltpAfter_sound ccSeed.build htied.kept hmem
    refine ⟨rfl, rfl, ?_, ?_, ?_, hsoundl.gain, hsoundl.filter⟩
    · show (((smplLagsPredictorAfter seed.build pp.blocksegIdx pp.laginds).1 : Nat) : Int) = s.prevLag
      unfold smplLagsPredictorAfter
      rw [hrow, hblock]
    · show (((smplLagsPredictorAfter seed.build pp.blocksegIdx pp.laginds).2 : Nat) : Int) =
        s.prevFracLag
      unfold smplLagsPredictorAfter
      rw [hlag, ← hend]
    · show After s.prevLag s.prevFracLag
      rw [hblock, hlag]
      exact After.lag _ _ (hsound.block_lt _) hlow hhigh

/-- A pitch that the tables have symbols for: its lags are those of a contour. -/
structure SmplPitchParams.Of (pp : SmplPitchParams) (seed : PitchSeed) : Prop extends pp.Fits where
  contour : pp.blocksegIdx < seed.blocksegs.length
  laginds : ∃ lags, Lags seed.blocksegs[pp.blocksegIdx] lags ∧
    pp.laginds = spread seed.blocksegs[pp.blocksegIdx].seglens lags

/-- What the decoder gets of the pitch is what the encoder has of it. -/
structure Heard (subfrCounts : List Nat) (pp : SmplPitchParams) (r : SmplPitchResult) : Prop where
  gains : r.gainIdx = pp.gainIdx
  filters : r.filtIdx = readFilters subfrCounts pp
  contour : r.contour = pp.blocksegIdx
  lags : r.blockLags = pp.laginds.map fun (lag : Nat) => (lag : Int)

/-! ## 9. Voiced frames -/

/-- The excitation of a voiced frame: its pulses, then its pitch. -/
def encodeVoiced (tab : PitchTables) (cc : CcTables) (st : SmplLsfState) (pulses : SmplPulseParams)
    (pp : SmplPitchParams) (e : RangeEncoder) : SmplLsfState × RangeEncoder :=
  encodeSmplPitch (encodeSmplPulses e cc 0 1 pulses) tab cc st pulses.subfr pp

def decodeVoiced (mem : List Segment) (cc : CcTables) (st : SmplLsfState) (d : RangeDecoder) :
    (SmplPulseResult × SmplPitchResult × SmplLsfState) × RangeDecoder :=
  let (pulses, d) := decodeSmplPulses d cc 0 1
  let (pitch, d) := decodeSmplPitch d mem cc st pulses.subfr
  ((pulses, pitch), d)

theorem inverts_voiced {ccSeed : CcSeed} (hcc : ccSeed.Sound) (h : seed.Sound)
    {se sd : SmplLsfState} (htied : Tied se sd) {pulse : List Int} (hpulse : Excitation pulse)
    {pp : SmplPitchParams} (hpp : pp.Of seed) :
    ∃ r sd', Inverts
        (fun e => (encodeVoiced seed.build ccSeed.build se (smplBuildPulseParams pulse) pp e).2)
        (fun d => decodeVoiced (buildSmplMem seed) ccSeed.build sd d)
        (readPulses pulse, r, sd') 0 ∧
      Heard (smplBuildPulseParams pulse).subfr pp r ∧
      ∀ e, Tied (encodeVoiced seed.build ccSeed.build se (smplBuildPulseParams pulse) pp e).1
        sd' := by
  obtain ⟨lags, hlags, hlaginds⟩ := hpp.laginds
  obtain ⟨r, sd', hpitch, hgains, hfilters, hcontour, hblockLags, htied'⟩ :=
    inverts_pitch hcc h htied (length_subfr pulse) hpp.toFits hpp.contour hlags hlaginds
  refine ⟨r, sd', ?_, ⟨hgains, hfilters, hcontour, hblockLags⟩, fun e => htied' _⟩
  have hpulses := inverts_pulses ccSeed hpulse (Nat.le_refl 1)
  have hboth : Inverts
      (fun e => (encodeSmplPitch e seed.build ccSeed.build se (smplBuildPulseParams pulse).subfr
        pp).2)
      (fun d => ((readPulses pulse, (decodeSmplPitch d (buildSmplMem seed) ccSeed.build sd
        (smplBuildPulseParams pulse).subfr).1), (decodeSmplPitch d (buildSmplMem seed) ccSeed.build
          sd (smplBuildPulseParams pulse).subfr).2)) (readPulses pulse, r, sd') 0 :=
    hpitch.of_eq fun d d' heq => by rw [heq]
  refine hpulses.andThen hboth fun d d' heq => ?_
  unfold decodeVoiced
  rw [heq]
  rfl

/-- **A voiced excitation is read back**, pulses and pitch, amid any symbols, and the two sides stay
    tied for the next frame. -/
theorem voiced_read {ccSeed : CcSeed} (hcc : ccSeed.Sound) (h : seed.Sound)
    {se sd : SmplLsfState} (htied : Tied se sd) {pulse : List Int} (hpulse : Excitation pulse)
    {pp : SmplPitchParams} (hpp : pp.Of seed) {size : Nat} (hsize : size < 2 ^ 32)
    (earlier : List (List (Kind × Nat))) {before after : List (Kind × Nat)}
    (hbefore : ∀ s ∈ before, s.1.Admits s.2) (hafter : ∀ s ∈ after, s.1.Admits s.2)
    (herr : ((afterStreams size earlier).streamAmid before (fun e =>
      (encodeVoiced seed.build ccSeed.build se (smplBuildPulseParams pulse) pp e).2) after).err =
        false) :
    let e := (afterStreams size earlier).streamAmid before (fun e =>
      (encodeVoiced seed.build ccSeed.build se (smplBuildPulseParams pulse) pp e).2) after
    ∃ r sd', Heard (smplBuildPulseParams pulse).subfr pp r ∧
      (∀ e, Tied (encodeVoiced seed.build ccSeed.build se (smplBuildPulseParams pulse) pp e).1
        sd') ∧
      (∃ d, readAmid before (decodeVoiced (buildSmplMem seed) ccSeed.build sd) after
          (RangeDecoder.new e.buf) = (told before (readPulses pulse, r, sd') after, d) ∧
        d.err = 0) ∧
      (rawBits before + rawBits after = 0 →
        ∃ d, readAmid before (decodeVoiced (buildSmplMem seed) ccSeed.build sd) after
            (RangeDecoder.new (e.buf.take e.consumedLen)) =
          (told before (readPulses pulse, r, sd') after, d) ∧ d.err = 0) := by
  obtain ⟨r, sd', hinverts, hheard, htied'⟩ := inverts_voiced hcc h htied hpulse hpp
  obtain ⟨hwhole, hconsumed⟩ := hinverts.amid hsize earlier hbefore hafter herr
  exact ⟨r, sd', hheard, htied', hwhole, hconsumed⟩

end

/-- A seed of one contour, again and again, with a number of its own each time. -/
def flatPitchSeed : PitchSeed where
  blocksegs := List.replicate NUM_CONTOURS ⟨[2, 3], [5, 3]⟩
  blocksegs2idx := (List.range NUM_CONTOURS).map fun i => UInt8.ofNat (i + 1)
  firstblockRange := (List.range PITCH_NUM_BLOCKS).flatMap fun _ => [0, 216]
  blocksegIdxDcmf := List.replicate NUM_CONTOURS 7
  deltaLagDcmfs := List.replicate (3 * 319) 7
  blockTransitionDcmf := List.replicate (PITCH_NUM_BLOCKS * PITCH_NUM_BLOCKS) 7

theorem flatPitchSeed_sound : flatPitchSeed.Sound where
  contours := List.length_replicate
  contour := by
    intro seg hseg
    rw [(List.mem_replicate.mp hseg).2]
    exact ⟨by decide, by decide, rfl, by decide, by decide, rfl, by decide⟩
  index := rfl
  distinct := by
    refine List.Nodup.map_on (fun i hi j hj heq => ?_) List.nodup_range
    have hnat := congrArg UInt8.toNat heq
    rw [UInt8.toNat_ofNat', UInt8.toNat_ofNat'] at hnat
    rw [List.mem_range, NUM_CONTOURS] at hi hj
    omega
  ranges := rfl
  range := by
    intro i hi b hb
    have hblocks : (flatPitchSeed.blocksegs.map (·.blocks)).getD i [] = [2, 3] := by
      rw [flatPitchSeed, List.map_replicate,
        List.getD_eq_getElem _ _ (by rw [List.length_replicate]; exact hi), List.getElem_replicate]
    have hindex : (flatPitchSeed.blocksegs2idx.getD i 0).toNat = i + 1 := by
      rw [flatPitchSeed, List.getD_eq_getElem _ _ (by rw [List.length_map, List.length_range]; exact hi),
        List.getElem_map, List.getElem_range, UInt8.toNat_ofNat']
      rw [NUM_CONTOURS] at hi
      omega
    rw [hb, hblocks, hindex]
    exact ⟨Nat.succ_pos i, Nat.succ_le_succ (Nat.le_of_lt_succ hi), by decide⟩
  lags := List.length_replicate
  deltas := List.length_replicate
  transitions := List.length_replicate

/-- What a frame that does not go on from another begins with. -/
def SmplLsfState.cleared : SmplLsfState := ⟨1, false, true, -1, -1, -1, -1, -1, -1⟩

def somePitch : SmplPitchParams :=
  ⟨[3, 15, 0, 7], [20, 33, 1, 2], 101, [140, 140, 140, 140, 140, 255, 255, 255]⟩

theorem somePitch_of : somePitch.Of flatPitchSeed where
  gains := rfl
  filters := rfl
  gain := by decide
  filter := by decide
  contour := by decide +kernel
  laginds := ⟨[140, 255], ⟨rfl, by decide +kernel, by decide +kernel⟩, rfl⟩

theorem voiced_read_flat :
    let e := (afterStreams 100 []).streamAmid [(.cdf [0, 3, 9, 14], 1)] (fun e =>
      (encodeVoiced flatPitchSeed.build flatSeed.build SmplLsfState.cleared
        (smplBuildPulseParams somePulses) somePitch e).2) [(.rawSymbol 4, 9)]
    ∃ r sd', Heard [3, 1, 0, 0] somePitch r ∧
      ∃ d, readAmid [(.cdf [0, 3, 9, 14], 1)]
          (decodeVoiced (buildSmplMem flatPitchSeed) flatSeed.build SmplLsfState.cleared)
          [(.rawSymbol 4, 9)] (RangeDecoder.new (e.buf.take e.consumedLen)) =
        (([1], (⟨somePulses, [3, 1, 0, 0]⟩, r, sd'), [9]), d) ∧ d.err = 0 := by
  have herr : ((afterStreams 100 []).streamAmid [(.cdf [0, 3, 9, 14], 1)] (fun e =>
      (encodeVoiced flatPitchSeed.build flatSeed.build SmplLsfState.cleared
        (smplBuildPulseParams somePulses) somePitch e).2) [(.rawSymbol 4, 9)]).err = false := by
    decide +kernel
  have htied : Tied SmplLsfState.cleared SmplLsfState.cleared :=
    tied_none ⟨rfl, rfl, rfl, rfl⟩ ⟨rfl, rfl, rfl, rfl⟩
  obtain ⟨r, sd', hheard, _, _, hconsumed⟩ := voiced_read flatSeed_sound flatPitchSeed_sound htied
    excitation_somePulses somePitch_of (show 100 < 2 ^ 32 by decide) [] (by decide) (by decide) herr
  exact ⟨r, sd', hheard, hconsumed rfl⟩

end Ruwa.Call
