/-
  File:      Ruwa/Call/PitchMemory.lean
  Subject:   THE TABLES OF THE PITCH (`call/mlow/smpl_pitch_seed.rs`, `smpl_mem.rs`).

  From one seed the encoder gets tables with fields, and the decoder a memory: bytes at the fixed
  addresses that its pointers go to.

  * `apart_mem` -- the segments of that memory do not overlap;
  * `memU32_word`, `memU8_byte` -- what is read from a segment;
  * **`inverts_mem`** -- a symbol that is written with a row of a table is read from the memory that
    the row lies in.
-/
import Ruwa.Call.Pulses
import Ruwa.Library.Scalars

namespace Ruwa.Call

open Ruwa.Library

/-! ## 1. The seed and the encoder's tables -/

def NUM_CONTOURS : Nat := 217
def PITCH_NUM_BLOCKS : Nat := 9
def NUM_SUBFRAMES : Nat := 8

/-- A contour: the pitch blocks a frame goes through, and for how many eighths of it each. -/
structure BlockSeg where
  blocks : List Nat
  seglens : List Nat

/-- The seed, with the contours that the source unpacks from a bit stream. -/
structure PitchSeed where
  blocksegs : List BlockSeg
  blocksegs2idx : List UInt8
  firstblockRange : List UInt8
  blocksegIdxDcmf : List UInt8
  deltaLagDcmfs : List UInt8
  blockTransitionDcmf : List UInt8

structure PitchTables where
  blocksegs : List BlockSeg
  blocksegs2idx : List Nat
  firstblockRange : List (Nat × Nat)
  blocksegIdxCmf : List UInt16
  deltaLagCmfs : List (List UInt16)
  blockTransitionCmf : List (List UInt16)

namespace PitchSeed

variable (seed : PitchSeed)

/-- The tables of the lags, three rows of them. -/
def deltaLagCmfs : List (List UInt16) :=
  (chunksExact 319 (seed.deltaLagDcmfs.length / 319) seed.deltaLagDcmfs).map dcmfToCmf

def blockTransitionCmf : List (List UInt16) :=
  (chunksExact PITCH_NUM_BLOCKS (seed.blockTransitionDcmf.length / PITCH_NUM_BLOCKS)
    seed.blockTransitionDcmf).map dcmfToCmf

def build : PitchTables where
  blocksegs := seed.blocksegs
  blocksegs2idx := seed.blocksegs2idx.map UInt8.toNat
  firstblockRange := (chunksExact 2 (seed.firstblockRange.length / 2) seed.firstblockRange).map
    fun p => ((p.getD 0 0).toNat, (p.getD 1 0).toNat)
  blocksegIdxCmf := dcmfToCmf seed.blocksegIdxDcmf
  deltaLagCmfs := seed.deltaLagCmfs
  blockTransitionCmf := seed.blockTransitionCmf

end PitchSeed

/-! ## 2. The decoder's memory -/

def G_CLK : Nat := 0xb9f9a8
def PCFG : Nat := G_CLK + 0x5704
def HDR_CONTOUR_MAP : Nat := 0xe7c10
def HDR_LAG_CDF : Nat := 0xbaa7b0
def HDR_FRAC_BASE : Nat := 0xbaa9be
def HDR_DELTA_CDF : Nat := 0xbab13e
def HDR_UNUSED : List Nat := [0xe7d20, 0xe7ef0, 0xe8096]
def DELTA_BOUNDS_ADDR : Nat := 0xe7ef0

/-- Eight blocks, eight lengths, and how many of them count. -/
def recordWords (seg : BlockSeg) : List Nat :=
  (List.range 8).map (seg.blocks.getD · 0) ++ (List.range 8).map (seg.seglens.getD · 0) ++
    [seg.blocks.length]

/-- What lies behind the records. -/
def headerWords : List Nat :=
  [187, NUM_CONTOURS, HDR_CONTOUR_MAP, HDR_LAG_CDF, HDR_FRAC_BASE] ++ HDR_UNUSED ++ [HDR_DELTA_CDF]

def buildSmplMem (seed : PitchSeed) : List Segment :=
  [⟨PCFG + 0x1d38, (seed.blocksegs.flatMap recordWords ++ headerWords).flatMap (toLE 4)⟩,
    ⟨HDR_LAG_CDF, le16 (dcmfToCmf seed.blocksegIdxDcmf)⟩,
    ⟨HDR_FRAC_BASE, le16 (seed.deltaLagCmfs.flatMap id)⟩,
    ⟨HDR_DELTA_CDF, le16 (seed.blockTransitionCmf.flatMap id)⟩,
    ⟨HDR_CONTOUR_MAP, seed.blocksegs2idx⟩,
    ⟨DELTA_BOUNDS_ADDR, seed.firstblockRange ++ [0, 0]⟩]

/-- The `n` bytes from an address on, where one segment has them all. -/
def memBytes (mem : List Segment) (addr n : Nat) : Option Bytes :=
  (locate mem addr n).map fun at_ => (at_.1.drop at_.2).take n

/-- A number of `n` bytes; outside of the segments it is zero. -/
def memNat (mem : List Segment) (addr n : Nat) : Nat := ((memBytes mem addr n).map fromLE).getD 0

def memU8 (mem : List Segment) (addr : Nat) : Nat := memNat mem addr 1

def memU16 (mem : List Segment) (addr : Nat) : Nat := memNat mem addr 2

def memU32 (mem : List Segment) (addr : Nat) : Nat := memNat mem addr 4

def memI32 (mem : List Segment) (addr : Nat) : Int := toI32 (memU32 mem addr)

def cdfAt (mem : List Segment) (addr n : Nat) : List UInt16 :=
  (List.range n).map fun i => UInt16.ofNat (memU16 mem ((addr + i * 2) % 2 ^ 32))

/-- A symbol of the table at an address, from the bytes themselves where they lie together. -/
def decodeCdfMem (d : RangeDecoder) (mem : List Segment) (addr n : Nat) : Nat × RangeDecoder :=
  match memBytes mem addr (n * 2) with
  | some bytes => d.decodeCdfLe16 bytes
  | none => d.decodeCdf (cdfAt mem addr n)

/-! ## 3. What is promised of the seed -/

/-- A contour of a whole frame, whose blocks lie next to each other. -/
structure BlockSeg.Sound (seg : BlockSeg) : Prop where
  some : seg.blocks ≠ []
  few : seg.blocks.length ≤ 8
  pairs : seg.seglens.length = seg.blocks.length
  block : ∀ b ∈ seg.blocks, b < PITCH_NUM_BLOCKS
  longs : ∀ n ∈ seg.seglens, 0 < n
  whole : seg.seglens.foldr (· + ·) 0 = NUM_SUBFRAMES
  near : seg.blocks.IsChain fun a b => a ≤ b + 1 ∧ b ≤ a + 2

/-- The seed that is built in. -/
structure PitchSeed.Sound (seed : PitchSeed) : Prop where
  contours : seed.blocksegs.length = NUM_CONTOURS
  contour : ∀ seg ∈ seed.blocksegs, seg.Sound
  index : seed.blocksegs2idx.length = NUM_CONTOURS
  distinct : seed.blocksegs2idx.Nodup
  ranges : seed.firstblockRange.length = 2 * PITCH_NUM_BLOCKS
  range : ∀ i < NUM_CONTOURS, ∀ b,
    b = ((seed.blocksegs.map (·.blocks)).getD i []).getD 0 0 →
    (seed.firstblockRange.getD (2 * b) 0).toNat < (seed.blocksegs2idx.getD i 0).toNat ∧
      (seed.blocksegs2idx.getD i 0).toNat ≤ (seed.firstblockRange.getD (2 * b + 1) 0).toNat + 1 ∧
      (seed.firstblockRange.getD (2 * b + 1) 0).toNat < NUM_CONTOURS
  lags : seed.blocksegIdxDcmf.length = NUM_CONTOURS
  deltas : seed.deltaLagDcmfs.length = 3 * 319
  transitions : seed.blockTransitionDcmf.length = PITCH_NUM_BLOCKS * PITCH_NUM_BLOCKS

section

variable {seed : PitchSeed}

theorem length_recordWords (seg : BlockSeg) : (recordWords seg).length = 17 := by
  unfold recordWords
  rw [List.length_append, List.length_append, List.length_map, List.length_map, List.length_range]
  rfl

theorem length_dcmfRows {size count : Nat} {dcmfs : List UInt8} (h : dcmfs.length = count * size)
    (hsize : 0 < size) :
    ((chunksExact size (dcmfs.length / size) dcmfs).map dcmfToCmf).length = count ∧
      ∀ row ∈ (chunksExact size (dcmfs.length / size) dcmfs).map dcmfToCmf,
        row.length = size + 1 ∧ (size ≤ 32767 → Rises row) := by
  have hcount : dcmfs.length / size = count := by
    rw [h]
    exact Nat.mul_div_cancel count hsize
  constructor
  · unfold chunksExact
    rw [List.length_map, List.length_map, List.length_range, hcount]
  · intro row hrow
    obtain ⟨dcmf, hdcmf, rfl⟩ := List.mem_map.mp hrow
    have hlen : dcmf.length = size := length_chunksExact (hcount.symm ▸ h) dcmf hdcmf
    exact ⟨by rw [length_dcmfToCmf, hlen], fun hsmall => dcmfToCmf_rises (by omega)⟩

theorem PitchSeed.Sound.deltaRows (h : seed.Sound) : seed.deltaLagCmfs.length = 3 ∧
    ∀ row ∈ seed.deltaLagCmfs, row.length = 320 ∧ Rises row := by
  obtain ⟨hcount, hrows⟩ := length_dcmfRows h.deltas (by decide)
  exact ⟨hcount, fun row hrow => ⟨(hrows row hrow).1, (hrows row hrow).2 (by decide)⟩⟩

theorem PitchSeed.Sound.transitionRows (h : seed.Sound) : seed.blockTransitionCmf.length = 9 ∧
    ∀ row ∈ seed.blockTransitionCmf, row.length = 10 ∧ Rises row := by
  obtain ⟨hcount, hrows⟩ := length_dcmfRows h.transitions (by decide)
  exact ⟨hcount, fun row hrow => ⟨(hrows row hrow).1, (hrows row hrow).2 (by decide)⟩⟩

theorem PitchSeed.Sound.lagRow (h : seed.Sound) :
    (dcmfToCmf seed.blocksegIdxDcmf).length = 218 ∧ Rises (dcmfToCmf seed.blocksegIdxDcmf) :=
  ⟨by rw [length_dcmfToCmf, h.lags]; rfl, dcmfToCmf_rises (by rw [h.lags]; decide)⟩

/-- **The segments do not overlap.** -/
theorem apart_mem (h : seed.Sound) : Apart (buildSmplMem seed) := by
  have hrecords : ((seed.blocksegs.flatMap recordWords ++ headerWords).flatMap (toLE 4)).length =
      14792 := by
    rw [length_flatMap fun n _ => length_toLE 4 n, List.length_append,
      length_flatMap fun seg _ => length_recordWords seg, h.contours]
    rfl
  have hlags : (le16 (dcmfToCmf seed.blocksegIdxDcmf)).length = 436 := by
    rw [length_le16, h.lagRow.1]
  have hfracs : (le16 (seed.deltaLagCmfs.flatMap id)).length = 1920 := by
    rw [length_le16, length_flatMap (f := id) fun row hrow => (h.deltaRows.2 row hrow).1, h.deltaRows.1]
  have hdeltas : (le16 (seed.blockTransitionCmf.flatMap id)).length = 180 := by
    rw [length_le16, length_flatMap (f := id) fun row hrow => (h.transitionRows.2 row hrow).1,
      h.transitionRows.1]
  have hindex : seed.blocksegs2idx.length = 217 := h.index
  have hranges : (seed.firstblockRange ++ [0, 0]).length = 20 := by
    rw [List.length_append, h.ranges]
    rfl
  unfold Apart buildSmplMem
  simp only [List.pairwise_cons, List.mem_cons, List.not_mem_nil, or_false, forall_eq_or_imp,
    forall_eq, IsEmpty.forall_iff, implies_true, and_true, List.Pairwise.nil]
  unfold PCFG G_CLK HDR_LAG_CDF HDR_FRAC_BASE HDR_DELTA_CDF HDR_CONTOUR_MAP DELTA_BOUNDS_ADDR
  rw [hrecords, hlags, hfracs, hdeltas, hindex, hranges]
  omega

end

/-! ## 4. Reading the memory -/

section

variable {mem : List Segment}

theorem memBytes_of_mem (hapart : Apart mem) {base : Nat} {data : Bytes} (hs : ⟨base, data⟩ ∈ mem)
    {off n : Nat} (hn : 0 < n) (hin : off + n ≤ data.length) :
    memBytes mem (base + off) n = some ((data.drop off).take n) := by
  unfold memBytes
  rw [locate_of_mem hn hapart hs hin]
  rfl

theorem memU8_byte (hapart : Apart mem) {base : Nat} {data : Bytes} (hs : ⟨base, data⟩ ∈ mem)
    {i : Nat} (hi : i < data.length) : memU8 mem (base + i) = (data.getD i 0).toNat := by
  unfold memU8 memNat
  rw [memBytes_of_mem hapart hs (by decide) hi, List.drop_eq_getElem_cons hi,
    List.getD_eq_getElem _ _ hi]
  rfl

/-- **A word of a segment of words.** -/
theorem memU32_word (hapart : Apart mem) {base : Nat} {ws : List Nat}
    (hs : ⟨base, ws.flatMap (toLE 4)⟩ ∈ mem) {k : Nat} (hk : k < ws.length)
    (hsmall : ws.getD k 0 < 2 ^ 32) : memU32 mem (base + k * 4) = ws.getD k 0 := by
  have hlen : ∀ w ∈ ws, (toLE 4 w).length = 4 := fun w _ => length_toLE 4 w
  have hin : k * 4 + 4 ≤ (ws.flatMap (toLE 4)).length := by
    rw [length_flatMap hlen]
    omega
  unfold memU32 memNat
  rw [memBytes_of_mem hapart hs (by decide) hin, take_flatMap hlen hk]
  rw [List.getD_eq_getElem _ _ hk] at hsmall ⊢
  exact fromLE_toLE hsmall

/-- The entries of the bytes of a table, from `start` on. -/
theorem le16_window (table : List UInt16) {start n i : Nat} (hi : i < n) :
    ((((le16 table).drop (2 * start)).take (n * 2)).getD (2 * i) 0).toNat +
        256 * ((((le16 table).drop (2 * start)).take (n * 2)).getD (2 * i + 1) 0).toNat =
      (table.getD (start + i) 0).toNat := by
  have hat : ∀ j < n * 2, (((le16 table).drop (2 * start)).take (n * 2)).getD j 0 =
      (le16 table).getD (2 * start + j) 0 := by
    intro j hj
    rw [List.getD_eq_getElem?_getD, List.getElem?_take_of_lt hj, List.getElem?_drop,
      ← List.getD_eq_getElem?_getD]
  have hfirst : 2 * start + 2 * i = 2 * (start + i) := by omega
  have hsecond : 2 * start + (2 * i + 1) = 2 * (start + i) + 1 := by omega
  rw [hat _ (by omega), hat _ (by omega), hfirst, hsecond]
  exact le16_entry table (start + i)

/-- A row of a table that the encoder has as such. -/
def rowEntry (row : List UInt16) (i : Nat) : Nat := (row.getD i 0).toNat

/-- **A symbol of a row is read from the memory**, where all rows lie one behind the other. -/
theorem inverts_mem (hapart : Apart mem) {base l : Nat} {rows : List (List UInt16)}
    (hs : ⟨base, le16 (rows.flatMap id)⟩ ∈ mem) (hlen : ∀ row ∈ rows, row.length = l)
    {r k n v a : Nat} (hr : r < rows.length) (hrises : Rises rows[r]) (hk : k + n ≤ l)
    (hv : v + 1 < n) (haddr : a = base + 2 * (r * l + k)) :
    Inverts
      (fun e => e.encode (rowEntry rows[r] (k + v) - rowEntry rows[r] k)
        (rowEntry rows[r] (k + (v + 1)) - rowEntry rows[r] k)
        (rowEntry rows[r] (k + (n - 1)) - rowEntry rows[r] k))
      (fun d => decodeCdfMem d mem a n) v 0 := by
  have hall : (rows.flatMap id).length = rows.length * l := length_flatMap (f := id) hlen
  have hlast : r * l + l ≤ rows.length * l := by
    rw [← Nat.succ_mul]
    exact Nat.mul_le_mul_right l hr
  have hin : 2 * (r * l + k) + n * 2 ≤ (le16 (rows.flatMap id)).length := by
    rw [length_le16, hall]
    omega
  have hentry : ∀ i < n, ((rows.flatMap id).getD (r * l + k + i) 0).toNat =
      rowEntry rows[r] (k + i) := by
    intro i hi
    unfold rowEntry
    rw [Nat.add_assoc, getD_flatMap (f := id) hlen hr (by omega)]
    rfl
  have hrow : rows[r].length = l := hlen _ (List.getElem_mem hr)
  obtain ⟨bytes, hbytes⟩ : ∃ bytes, bytes =
      ((le16 (rows.flatMap id)).drop (2 * (r * l + k))).take (n * 2) := ⟨_, rfl⟩
  obtain ⟨entry, hfun⟩ : ∃ entry : Nat → Nat, entry = fun i =>
    (bytes.getD (2 * i) 0).toNat + 256 * (bytes.getD (2 * i + 1) 0).toNat := ⟨_, rfl⟩
  have hat : ∀ i < n, entry i = rowEntry rows[r] (k + i) := by
    intro i hi
    rw [hfun, ← hentry i hi, hbytes]
    exact le16_window _ hi
  have hascends : Ascends entry n v := by
    refine ⟨fun i j hij hj => ?_, hv, ?_, ?_⟩
    · rw [hat i (by omega), hat j hj]
      exact getD_le hrises.ascends (by omega) (by omega)
    · rw [hat v (by omega), hat (v + 1) hv]
      have hlt := List.pairwise_iff_getElem.mp hrises.ascends (k + v) (k + (v + 1)) (by omega)
        (by omega) (by omega)
      unfold rowEntry
      rw [List.getD_eq_getElem _ _ (by omega), List.getD_eq_getElem _ _ (by omega)]
      exact UInt16.lt_iff_toNat_lt.mp hlt
    · rw [hat (n - 1) (by omega)]
      exact UInt16.toNat_lt _
  have henc : (fun e : RangeEncoder => e.encode (rowEntry rows[r] (k + v) - rowEntry rows[r] k)
      (rowEntry rows[r] (k + (v + 1)) - rowEntry rows[r] k)
      (rowEntry rows[r] (k + (n - 1)) - rowEntry rows[r] k)) =
      fun e => e.encodeEntries v entry n := by
    have hlt := hascends.frequencies.lt
    have hle := hascends.frequencies.le
    funext e
    unfold RangeEncoder.encodeEntries
    rw [if_neg (by omega), hat v (by omega), hat (v + 1) hv, hat (n - 1) (by omega),
      hat 0 (by omega)]
    rfl
  have hdec : (fun d => decodeCdfMem d mem a n) = fun d => d.decodeEntries entry n := by
    funext d
    unfold decodeCdfMem
    rw [haddr, memBytes_of_mem hapart hs (by omega) hin, ← hbytes, hfun]
    show d.decodeEntries _ (bytes.length / 2) = _
    have hcount : bytes.length / 2 = n := by
      rw [hbytes, List.length_take, List.length_drop]
      omega
    rw [hcount]
  rw [henc, hdec]
  exact inverts_entries hascends

end

end Ruwa.Call
