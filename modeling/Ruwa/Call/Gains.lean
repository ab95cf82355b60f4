/-
  File:      Ruwa/Call/Gains.lean
  Subject:   THE GAINS OF A FRAME OF SPEECH (`call/mlow/smpl_gains.rs`, the gains of
             `call/mlow/smpl_pitch.rs`, and the encoder's side of both in `encode.rs`).

  Pulses have unit size; gains say how loud a quarter is. An unvoiced frame has a main gain, a shape
  over its quarters, and a residue for each quarter with pulses, whose table depends on the gain that
  was read before it. A voiced frame has a gain for each quarter and a filter for each quarter with
  pulses, both in tables that depend on the one before.

  * `Rises.part` -- a table that is cut out of a longer one still has its symbols;
  * `inverts_gains`, `inverts_ltp` -- both are read back, and the voiced reader ends with the gain
    and the filter that the writer ends with;
  * **`unvoiced_read`** -- pulses and gains of an unvoiced frame, from the bytes of a stream.
-/
import Ruwa.Call.Pulses

namespace Ruwa.Call

open Ruwa.Library

/-! ## 1. Gains of unvoiced frames -/

structure SmplGainParams where
  gainMain : Nat
  gainDelta : Nat
  nrgRes : List Nat

structure SmplGainResult where
  gainQ : List Int
  nrgRes : List Nat

/-- The gains of the quarters. Every caller passes four quarters. The index is not bounded by the
    table of shapes; behind it there is more of the memory. -/
def gainQ (cc : CcTables) (gainMain gainDelta : Nat) : List Int :=
  (List.range 4).map fun (sf : Nat) =>
    (gainMain : Int) * cc.nrgStep 2 - 0x154000 + cc.gainRecon4 (sf + 4 * gainDelta) * 2 ^ 4

def nrgBucket (cnt : Nat) : Nat := if cnt ≥ 30 then 3 else (cnt &&& 0xffff) / 10

/-- How far into its row the table of a quarter begins. -/
def minOffset (gain : Int) : Nat :=
  let g := (gain + 8192) >>> (14 : Nat)
  let g := if g < -85 then -85 else g
  if g < 0 then (-g).toNat else 0

/-- The table of a residue, from the pulses of the quarter and its gain. -/
def nrgResCdf (cc : CcTables) (cnt : Nat) (gain : Int) : List UInt16 :=
  cc.fcbgOffsetRow 2 (nrgBucket cnt) (minOffset gain)

/-- The residues of the quarters, each with its pulses and its gain. -/
def decodeNrgRes (cc : CcTables) : List (Nat × Int) → RangeDecoder → List Nat × RangeDecoder
  | [], d => ([], d)
  | (cnt, gain) :: rest, d =>
      let (sym, d) := if cnt > 0 then d.decodeCdf (nrgResCdf cc cnt gain) else (0, d)
      let (syms, d) := decodeNrgRes cc rest d
      (sym :: syms, d)

def decodeSmplGains (d : RangeDecoder) (cc : CcTables) (subfrCounts : List Nat) :
    SmplGainResult × RangeDecoder :=
  let (gainMain, d) := d.decodeCdf cc.nrgresGain4
  let (gainDelta, d) := d.decodeCdf cc.nrgresShape4
  let (nrgRes, d) := decodeNrgRes cc (subfrCounts.zip (gainQ cc gainMain gainDelta)) d
  (⟨gainQ cc gainMain gainDelta, nrgRes⟩, d)

def encodeNrgRes (cc : CcTables) : List ((Nat × Int) × Nat) → RangeEncoder → RangeEncoder
  | [], e => e
  | ((cnt, gain), sym) :: rest, e =>
      encodeNrgRes cc rest (if cnt > 0 then e.encodeCdf sym (nrgResCdf cc cnt gain) else e)

def encodeSmplGains (e : RangeEncoder) (cc : CcTables) (subfrCounts : List Nat)
    (gp : SmplGainParams) : RangeEncoder :=
  encodeNrgRes cc ((subfrCounts.zip (gainQ cc gp.gainMain gp.gainDelta)).zip gp.nrgRes)
    ((e.encodeCdf gp.gainMain cc.nrgresGain4).encodeCdf gp.gainDelta cc.nrgresShape4)

/-! ## 2. Gains of voiced frames -/

/-- What a frame leaves to the next one, where -1 is none, and the sum of its gains. -/
structure Ltp where
  prevGainIdx : Int
  prevFiltIdx : Int
  gainAccum : Int

def Ltp.gain (cc : CcTables) (l : Ltp) (gi : Nat) : Ltp :=
  let (w0, w2) := cc.acbgainWeights gi
  { l with prevGainIdx := gi, gainAccum := l.gainAccum + (w0 + 2 * w2) }

/-- The table of a filter, after the filter before. -/
def Ltp.filterCdf (cc : CcTables) (l : Ltp) : List UInt16 :=
  if l.prevFiltIdx = -1 then cc.fcbgainsV else cc.fcbgainVDelta l.prevFiltIdx.toNat

/-- The filter of a quarter with pulses. -/
def decodeFilter (cc : CcTables) (cnt gi : Nat) (l : Ltp) (d : RangeDecoder) :
    ((Nat × Int) × Ltp) × RangeDecoder :=
  if cnt > 0 then
    let (fi, d) := d.decodeCdf (l.filterCdf cc)
    (((gi, (fi : Int)), { l with prevFiltIdx := fi }), d)
  else (((gi, -1), l), d)

def decodeQuarter (cc : CcTables) (cnt : Nat) (l : Ltp) (d : RangeDecoder) :
    ((Nat × Int) × Ltp) × RangeDecoder :=
  let (gi, d) := d.decodeCdf (cc.acbgainRow l.prevGainIdx)
  decodeFilter cc cnt gi (l.gain cc gi) d

/-- The first loop of `decode_smpl_pitch`: gain and filter of each quarter, from its number of
    pulses. -/
def decodeLtp (cc : CcTables) :
    List Nat → Ltp → RangeDecoder → (List (Nat × Int) × Ltp) × RangeDecoder
  | [], l, d => (([], l), d)
  | cnt :: rest, l, d =>
      let ((pair, l), d) := decodeQuarter cc cnt l d
      let ((pairs, l), d) := decodeLtp cc rest l d
      ((pair :: pairs, l), d)

def encodeFilter (cc : CcTables) (cnt fi : Nat) (l : Ltp) (e : RangeEncoder) : RangeEncoder :=
  if cnt > 0 then e.encodeCdf fi (l.filterCdf cc) else e

/-- A quarter's filter is kept where there is one. -/
def Ltp.filter (l : Ltp) (cnt fi : Nat) : Ltp := if cnt > 0 then { l with prevFiltIdx := fi } else l

/-- The first loop of `encode_smpl_pitch`, over the quarters, each with its pulses, its gain and its
    filter. -/
def encodeLtp (cc : CcTables) : List (Nat × Nat × Nat) → Ltp → RangeEncoder → Ltp × RangeEncoder
  | [], l, e => (l, e)
  | (cnt, gi, fi) :: rest, l, e =>
      let e := e.encodeCdf gi (cc.acbgainRow l.prevGainIdx)
      let e := encodeFilter cc cnt fi (l.gain cc gi) e
      encodeLtp cc rest ((l.gain cc gi).filter cnt fi) e

/-! ## 3. Unvoiced gains are read back -/

section

variable {seed : CcSeed}

/-- A part of a table that rises has its symbols. -/
theorem Rises.part {table : List UInt16} (h : Rises table) {start n v : Nat}
    (hfit : start + n ≤ table.length) (hv : v + 1 < n) : Table ((table.drop start).take n) v := by
  have hascends : ((table.drop start).take n).Pairwise (· < ·) :=
    h.ascends.sublist ((List.take_sublist n _).trans (List.drop_sublist start _))
  have hlen : ((table.drop start).take n).length = n := by
    rw [List.length_take, List.length_drop]
    omega
  refine ⟨hascends.imp UInt16.le_of_lt, by omega, ?_⟩
  rw [List.getD_eq_getElem _ _ (by omega), List.getD_eq_getElem _ _ (by omega)]
  exact List.pairwise_iff_getElem.mp hascends v (v + 1) (by omega) (by omega) (by omega)

/-- Gains that the tables have symbols for. -/
structure SmplGainParams.Fits (gp : SmplGainParams) : Prop where
  main : gp.gainMain < 84
  delta : gp.gainDelta < 98
  count : gp.nrgRes.length = 4
  nrgRes : ∀ sym ∈ gp.nrgRes, sym < 91

theorem nrgBucket_le (cnt : Nat) : nrgBucket cnt ≤ 3 := by
  unfold nrgBucket
  split
  · exact Nat.le_refl 3
  · have hmask : cnt &&& 0xffff ≤ cnt := Nat.and_le_left
    omega

/-- The table stays within its row, however low the gain is. -/
theorem minOffset_le (gain : Int) : minOffset gain ≤ 85 := by
  unfold minOffset
  generalize (gain + 8192) >>> 14 = g
  dsimp only
  split <;> split <;> omega

theorem table_nrgRes (h : seed.Sound) (cnt : Nat) (gain : Int) {sym : Nat} (hsym : sym < 91) :
    Table (nrgResCdf seed.build cnt gain) sym := by
  have hbucket := nrgBucket_le cnt
  have hoffset := minOffset_le gain
  have hrows : seed.build.fcbgOffset.length = 12 := by
    show ((chunksExact FCBG_OFFSET_STEPS (seed.fcbgOffsetDcmf.length / FCBG_OFFSET_STEPS)
      seed.fcbgOffsetDcmf).map dcmfToCmf).length = 12
    unfold chunksExact
    rw [List.length_map, List.length_map, List.length_range, h.offset]
    rfl
  have hrow : 2 * FCBG_OFFSET_BUCKETS + nrgBucket cnt < seed.build.fcbgOffset.length := by
    rw [hrows]
    unfold FCBG_OFFSET_BUCKETS
    omega
  unfold nrgResCdf CcTables.fcbgOffsetRow
  rw [List.getD_eq_getElem _ _ hrow]
  obtain ⟨hrises, hlen⟩ := h.fcbgOffset _ (List.getElem_mem hrow)
  exact hrises.part (by rw [hlen]; omega) (by omega)

/-- What the decoder makes of the residue of a quarter. -/
def readRes (q : (Nat × Int) × Nat) : Nat := if q.1.1 > 0 then q.2 else 0

theorem inverts_res (h : seed.Sound) (cnt : Nat) (gain : Int) {sym : Nat} (hsym : sym < 91) :
    Inverts (fun e => if cnt > 0 then e.encodeCdf sym (nrgResCdf seed.build cnt gain) else e)
      (fun d => if cnt > 0 then d.decodeCdf (nrgResCdf seed.build cnt gain) else (0, d))
      (readRes ((cnt, gain), sym)) 0 := by
  unfold readRes
  by_cases hcnt : cnt > 0
  · simp only [if_pos hcnt]
    exact inverts_cdf (table_nrgRes h cnt gain hsym)
  · simp only [if_neg hcnt]
    exact Inverts.pure 0

theorem inverts_nrgRes (h : seed.Sound) :
    ∀ {qs : List ((Nat × Int) × Nat)}, (∀ q ∈ qs, q.2 < 91) →
      Inverts (fun e => encodeNrgRes seed.build qs e)
        (fun d => decodeNrgRes seed.build (qs.map (·.1)) d) (qs.map readRes) 0
  | [], _ => Inverts.pure []
  | ((cnt, gain), sym) :: rest, hqs => by
      have hsym : sym < 91 := hqs _ List.mem_cons_self
      have htail := inverts_nrgRes h fun q hq => hqs q (List.mem_cons_of_mem ((cnt, gain), sym) hq)
      have hsyms := htail.map fun syms => readRes ((cnt, gain), sym) :: syms
      exact (inverts_res h cnt gain hsym).bind hsyms (g := fun sym d =>
        (sym :: (decodeNrgRes seed.build (rest.map (·.1)) d).1,
          (decodeNrgRes seed.build (rest.map (·.1)) d).2))

/-- What the decoder makes of the gains. -/
def readGains (cc : CcTables) (subfrCounts : List Nat) (gp : SmplGainParams) : SmplGainResult where
  gainQ := gainQ cc gp.gainMain gp.gainDelta
  nrgRes := ((subfrCounts.zip (gainQ cc gp.gainMain gp.gainDelta)).zip gp.nrgRes).map readRes

/-- **The gains of an unvoiced frame are read back**, and a residue of 0 where there are no
    pulses. -/
theorem inverts_gains (h : seed.Sound) {subfrCounts : List Nat} (hcounts : subfrCounts.length = 4)
    {gp : SmplGainParams} (hgp : gp.Fits) :
    Inverts (fun e => encodeSmplGains e seed.build subfrCounts gp)
      (fun d => decodeSmplGains d seed.build subfrCounts) (readGains seed.build subfrCounts gp)
      0 := by
  have hmain : gp.gainMain + 1 < seed.build.nrgresGain4.length := by
    show gp.gainMain + 1 < (dcmfToCmf seed.nrgresGain4Dcmf).length
    rw [length_dcmfToCmf, h.gain]
    exact Nat.succ_lt_succ hgp.main
  have hdelta : gp.gainDelta + 1 < seed.build.nrgresShape4.length := by
    show gp.gainDelta + 1 < (dcmfToCmf seed.nrgresShape4Dcmf).length
    rw [length_dcmfToCmf, h.shape]
    exact Nat.succ_lt_succ hgp.delta
  obtain ⟨pairs, hpairs⟩ : ∃ pairs,
      pairs = subfrCounts.zip (gainQ seed.build gp.gainMain gp.gainDelta) := ⟨_, rfl⟩
  have hcount : pairs.length = gp.nrgRes.length := by
    rw [hpairs, List.length_zip, hcounts, hgp.count]
    rfl
  have hres := @inverts_nrgRes seed h (pairs.zip gp.nrgRes)
    fun q hq => hgp.nrgRes q.2 (List.of_mem_zip hq).2
  rw [List.map_fst_zip (Nat.le_of_eq hcount)] at hres
  have hresult := hres.map fun nrgRes =>
    (⟨gainQ seed.build gp.gainMain gp.gainDelta, nrgRes⟩ : SmplGainResult)
  rw [hpairs] at hresult
  have hshape := (inverts_cdf (h.shape4.table hdelta)).bind hresult (g := fun gainDelta d =>
    ((⟨gainQ seed.build gp.gainMain gainDelta,
        (decodeNrgRes seed.build (subfrCounts.zip (gainQ seed.build gp.gainMain gainDelta)) d).1⟩ :
        SmplGainResult),
      (decodeNrgRes seed.build (subfrCounts.zip (gainQ seed.build gp.gainMain gainDelta)) d).2))
  exact (inverts_cdf (h.gain4.table hmain)).bind hshape (g := fun gainMain d =>
    ((⟨gainQ seed.build gainMain (d.decodeCdf seed.build.nrgresShape4).1,
        (decodeNrgRes seed.build (subfrCounts.zip
          (gainQ seed.build gainMain (d.decodeCdf seed.build.nrgresShape4).1))
          (d.decodeCdf seed.build.nrgresShape4).2).1⟩ : SmplGainResult),
      (decodeNrgRes seed.build (subfrCounts.zip
        (gainQ seed.build gainMain (d.decodeCdf seed.build.nrgresShape4).1))
        (d.decodeCdf seed.build.nrgresShape4).2).2))

/-! ## 4. Voiced gains are read back -/

/-- What the gains and filters may begin with. -/
structure Ltp.Sound (l : Ltp) : Prop where
  gain : -1 ≤ l.prevGainIdx ∧ l.prevGainIdx < 16
  filter : -1 ≤ l.prevFiltIdx ∧ l.prevFiltIdx < 34

theorem table_gain (h : seed.Sound) {l : Ltp} (hl : l.Sound) {gi : Nat} (hgi : gi < 16) :
    Table (seed.build.acbgainRow l.prevGainIdx) gi := by
  obtain ⟨hlow, hhigh⟩ := hl.gain
  obtain ⟨hrises, hlen⟩ := h.gainRow (i := (l.prevGainIdx + 1).toNat) (by omega)
  exact hrises.table (by rw [hlen]; omega)

theorem table_filter (h : seed.Sound) {l : Ltp} (hl : l.Sound) {fi : Nat} (hfi : fi < 34) :
    Table (l.filterCdf seed.build) fi := by
  obtain ⟨hlow, hhigh⟩ := hl.filter
  unfold Ltp.filterCdf
  split
  · refine h.filters.table ?_
    show fi + 1 < (dcmfToCmf seed.fcbgainsVDcmf).length
    rw [length_dcmfToCmf, h.fcbgains]
    exact Nat.succ_lt_succ hfi
  · refine h.filterDeltas.part ?_ (by omega)
    show FCBG_V_N - 1 - l.prevFiltIdx.toNat + 35 ≤ (dcmfToCmf seed.fcbgainsVDeltaDcmf).length
    rw [length_dcmfToCmf, h.fcbgainsDelta]
    unfold FCBG_V_N
    omega

theorem Ltp.Sound.gained {l : Ltp} (hl : l.Sound) (cc : CcTables) {gi : Nat} (hgi : gi < 16) :
    (l.gain cc gi).Sound :=
  ⟨⟨by show -1 ≤ (gi : Int); omega, by show (gi : Int) < 16; omega⟩, hl.filter⟩

theorem Ltp.Sound.filtered {l : Ltp} (hl : l.Sound) (cnt : Nat) {fi : Nat} (hfi : fi < 34) :
    (l.filter cnt fi).Sound := by
  unfold Ltp.filter
  split
  · exact ⟨hl.gain, ⟨by show -1 ≤ (fi : Int); omega, by show (fi : Int) < 34; omega⟩⟩
  · exact hl

/-- What the decoder makes of a quarter. -/
def quarterPair (q : Nat × Nat × Nat) : Nat × Int := (q.2.1, if q.1 > 0 then (q.2.2 : Int) else -1)

def ltpAfter (cc : CcTables) : List (Nat × Nat × Nat) → Ltp → Ltp
  | [], l => l
  | (cnt, gi, fi) :: rest, l => ltpAfter cc rest ((l.gain cc gi).filter cnt fi)

theorem encodeLtp_fst (cc : CcTables) :
    ∀ (qs : List (Nat × Nat × Nat)) (l : Ltp) (e : RangeEncoder),
      (encodeLtp cc qs l e).1 = ltpAfter cc qs l
  | [], _, _ => rfl
  | (_, _, _) :: rest, _, _ => encodeLtp_fst cc rest _ _

theorem ltpAfter_sound (cc : CcTables) :
    ∀ {qs : List (Nat × Nat × Nat)} {l : Ltp}, l.Sound → (∀ q ∈ qs, q.2.1 < 16 ∧ q.2.2 < 34) →
      (ltpAfter cc qs l).Sound
  | [], _, hl, _ => hl
  | (cnt, gi, fi) :: rest, l, hl, h => by
      obtain ⟨hgi, hfi⟩ : gi < 16 ∧ fi < 34 := h _ List.mem_cons_self
      show (ltpAfter cc rest ((l.gain cc gi).filter cnt fi)).Sound
      exact ltpAfter_sound cc ((hl.gained cc hgi).filtered cnt hfi)
        fun q hq => h q (List.mem_cons_of_mem (cnt, gi, fi) hq)

theorem inverts_filter (h : seed.Sound) {l : Ltp} (hl : l.Sound) (cnt gi : Nat) {fi : Nat}
    (hfi : fi < 34) :
    Inverts (fun e => encodeFilter seed.build cnt fi l e)
      (fun d => decodeFilter seed.build cnt gi l d) (quarterPair (cnt, gi, fi), l.filter cnt fi)
      0 := by
  unfold encodeFilter decodeFilter quarterPair Ltp.filter
  by_cases hcnt : cnt > 0
  · simp only [if_pos hcnt]
    exact (inverts_cdf (table_filter h hl hfi)).map fun fi : Nat =>
      (((gi, (fi : Int)), { l with prevFiltIdx := fi }) : (Nat × Int) × Ltp)
  · simp only [if_neg hcnt]
    exact Inverts.pure _

theorem inverts_quarter (h : seed.Sound) {l : Ltp} (hl : l.Sound) (cnt : Nat) {gi fi : Nat}
    (hgi : gi < 16) (hfi : fi < 34) :
    Inverts
      (fun e => encodeFilter seed.build cnt fi (l.gain seed.build gi)
        (e.encodeCdf gi (seed.build.acbgainRow l.prevGainIdx)))
      (fun d => decodeQuarter seed.build cnt l d)
      (quarterPair (cnt, gi, fi), (l.gain seed.build gi).filter cnt fi) 0 :=
  (inverts_cdf (table_gain h hl hgi)).bind
    (inverts_filter h (hl.gained seed.build hgi) cnt gi hfi)
    (g := fun gi d => decodeFilter seed.build cnt gi (l.gain seed.build gi) d)

/-- **Gains and filters are read back.** -/
theorem inverts_ltp (h : seed.Sound) :
    ∀ {qs : List (Nat × Nat × Nat)} {l : Ltp}, l.Sound → (∀ q ∈ qs, q.2.1 < 16 ∧ q.2.2 < 34) →
      Inverts (fun e => (encodeLtp seed.build qs l e).2)
        (fun d => decodeLtp seed.build (qs.map (·.1)) l d)
        (qs.map quarterPair, ltpAfter seed.build qs l) 0
  | [], _, _, _ => Inverts.pure _
  | (cnt, gi, fi) :: rest, l, hl, hqs => by
      obtain ⟨hgi, hfi⟩ : gi < 16 ∧ fi < 34 := hqs _ List.mem_cons_self
      have htail := inverts_ltp h ((hl.gained seed.build hgi).filtered cnt hfi)
        fun q hq => hqs q (List.mem_cons_of_mem (cnt, gi, fi) hq)
      have hpairs := htail.map fun r => (quarterPair (cnt, gi, fi) :: r.1, r.2)
      exact (inverts_quarter h hl cnt hgi hfi).bind hpairs (g := fun r d =>
        ((r.1 :: (decodeLtp seed.build (rest.map (·.1)) r.2 d).1.1,
          (decodeLtp seed.build (rest.map (·.1)) r.2 d).1.2),
          (decodeLtp seed.build (rest.map (·.1)) r.2 d).2))


end

/-! ## 5. Frames -/

/-- The excitation of an unvoiced frame: its pulses, then its gains. -/
def encodeUnvoiced (cc : CcTables) (pp : SmplPulseParams) (gp : SmplGainParams) (e : RangeEncoder) :
    RangeEncoder :=
  encodeSmplGains (encodeSmplPulses e cc 0 0 pp) cc pp.subfr gp

def decodeUnvoiced (cc : CcTables) (d : RangeDecoder) :
    (SmplPulseResult × SmplGainResult) × RangeDecoder :=
  let (pulses, d) := decodeSmplPulses d cc 0 0
  let (gains, d) := decodeSmplGains d cc pulses.subfr
  ((pulses, gains), d)

theorem length_subfr (pulse : List Int) : (smplBuildPulseParams pulse).subfr.length = 4 := by
  rw [params_subfr, List.length_map]
  rfl

/-- What the decoder makes of the pulses. -/
def readPulses (pulse : List Int) : SmplPulseResult := ⟨pulse, (smplBuildPulseParams pulse).subfr⟩

/-- **An unvoiced excitation is read back**, pulses and gains, amid any symbols. -/
theorem unvoiced_read {seed : CcSeed} (h : seed.Sound) {pulse : List Int} (hpulse : Excitation pulse)
    {gp : SmplGainParams} (hgp : gp.Fits) {size : Nat} (hsize : size < 2 ^ 32)
    (earlier : List (List (Kind × Nat))) {before after : List (Kind × Nat)}
    (hbefore : ∀ s ∈ before, s.1.Admits s.2) (hafter : ∀ s ∈ after, s.1.Admits s.2)
    (herr : ((afterStreams size earlier).streamAmid before
      (encodeUnvoiced seed.build (smplBuildPulseParams pulse) gp) after).err = false) :
    let e := (afterStreams size earlier).streamAmid before
      (encodeUnvoiced seed.build (smplBuildPulseParams pulse) gp) after
    let excitation := (readPulses pulse,
      readGains seed.build (smplBuildPulseParams pulse).subfr gp)
    (∃ d, readAmid before (decodeUnvoiced seed.build) after (RangeDecoder.new e.buf) =
        (told before excitation after, d) ∧ d.err = 0) ∧
      (rawBits before + rawBits after = 0 →
        ∃ d, readAmid before (decodeUnvoiced seed.build) after
            (RangeDecoder.new (e.buf.take e.consumedLen)) = (told before excitation after, d) ∧
          d.err = 0) := by
  have hgains := (inverts_gains h (length_subfr pulse) hgp).map fun gains =>
    (readPulses pulse, gains)
  have hall : Inverts (encodeUnvoiced seed.build (smplBuildPulseParams pulse) gp)
      (decodeUnvoiced seed.build)
      (readPulses pulse, readGains seed.build (smplBuildPulseParams pulse).subfr gp) 0 := by
    refine (inverts_pulses seed hpulse (Nat.zero_le 1)).andThen hgains fun d d' hread => ?_
    unfold decodeUnvoiced
    rw [hread]
    dsimp only
    generalize decodeSmplGains d' seed.build (smplBuildPulseParams pulse).subfr = gains
    rfl
  exact hall.amid hsize earlier hbefore hafter herr

/-- Two pulses in a frame, one of size three. -/
def somePulses : List Int := 3 :: (List.replicate 100 0 ++ -1 :: List.replicate 218 0)

theorem excitation_somePulses : Excitation somePulses := ⟨by decide +kernel, by decide +kernel⟩

theorem unvoiced_read_flat :
    let gp : SmplGainParams := ⟨40, 17, [5, 60, 0, 33]⟩
    let e := (afterStreams 100 []).streamAmid [(.cdf [0, 3, 9, 14], 1)]
      (encodeUnvoiced flatSeed.build (smplBuildPulseParams somePulses) gp) [(.rawSymbol 4, 9)]
    ∃ d, readAmid [(.cdf [0, 3, 9, 14], 1)] (decodeUnvoiced flatSeed.build) [(.rawSymbol 4, 9)]
        (RangeDecoder.new (e.buf.take e.consumedLen)) =
      (([1], (⟨somePulses, [3, 1, 0, 0]⟩, readGains flatSeed.build [3, 1, 0, 0] gp), [9]), d) ∧
        d.err = 0 :=
  (unvoiced_read flatSeed_sound excitation_somePulses
    ⟨by decide, by decide, rfl, by decide⟩ (by decide) [] (by decide) (by decide)
    (by decide +kernel)).2 rfl

end Ruwa.Call
