/-
  File:      Ruwa/Call/RangeCoder.lean
  Subject:   THE RANGE CODER OF THE CALL CODEC (`call/mlow/rangecoder.rs`): `RangeEncoder` and
             `RangeDecoder`.

  Range-coded symbols stand at the front of the buffer, and raw bits at the back. The encoder keeps
  its last byte and the bytes of ones behind it, which a carry may still change.

  A loop that brings the range back over `EC_CODE_BOT` has four rounds: a range of at least one
  needs three. With a range of zero the loops of the source do not end; no symbol of a table leaves
  one.
-/
import Mathlib.Data.Nat.Log
import Ruwa.Library.Bytes

namespace Ruwa.Call

open Ruwa.Library

/-! ## 1. Constants -/

def EC_SYM_BITS : Nat := 8
def EC_CODE_BITS : Nat := 32
def EC_SYM_MAX : Nat := 255
def EC_CODE_TOP : Nat := 2 ^ 31
def EC_CODE_BOT : Nat := 2 ^ 23
def EC_CODE_EXTRA : Nat := 7
def EC_WINDOW_SIZE : Nat := 32
def EC_UINT_BITS : Nat := 8
def EC_CODE_SHIFT : Nat := 23

/-- `floor(log2(x)) + 1`, and 0 for 0. -/
def ilog (x : Nat) : Nat := if x = 0 then 0 else Nat.log2 x + 1

/-- `wrapping_sub` of two `u32`. -/
def wrappingSub (a b : Nat) : Nat := (a + 2 ^ 32 - b) % 2 ^ 32

/-- `wrapping_mul` of two `u32`. -/
def wrappingMul (a b : Nat) : Nat := a * b % 2 ^ 32

/-! ## 2. `RangeDecoder` -/

structure RangeDecoder where
  buf : Bytes
  endOffs : Nat
  endWindow : Nat
  nendBits : Nat
  offs : Nat
  rng : Nat
  val : Nat
  ext : Nat
  rem : Nat
  err : Nat

namespace RangeDecoder

def readByte (d : RangeDecoder) : Nat × RangeDecoder :=
  if d.offs < d.buf.length then ((d.buf.getD d.offs 0).toNat, { d with offs := d.offs + 1 })
  else (0, d)

def readByteFromEnd (d : RangeDecoder) : Nat × RangeDecoder :=
  if d.endOffs < d.buf.length then
    ((d.buf.getD (d.buf.length - (d.endOffs + 1)) 0).toNat, { d with endOffs := d.endOffs + 1 })
  else (0, d)

def normalize : Nat → RangeDecoder → RangeDecoder
  | 0, d => d
  | rounds + 1, d =>
      if d.rng ≤ EC_CODE_BOT then
        let sym0 := d.rem
        let (rem, d) := d.readByte
        let sym := (sym0 <<< EC_SYM_BITS ||| rem) >>> (EC_SYM_BITS - EC_CODE_EXTRA)
        normalize rounds
          { d with
            rng := (d.rng <<< EC_SYM_BITS) % 2 ^ 32
            rem
            val := ((d.val <<< EC_SYM_BITS) % 2 ^ 32 + (EC_SYM_MAX - sym % 256)) % 2 ^ 32
              &&& (EC_CODE_TOP - 1) }
      else d

def new (buf : Bytes) : RangeDecoder :=
  let d : RangeDecoder := ⟨buf, 0, 0, 0, 0, 1 <<< EC_CODE_EXTRA, 0, 0, 0, 0⟩
  let (rem, d) := d.readByte
  normalize 4 { d with rem, val := d.rng - 1 - rem >>> (EC_SYM_BITS - EC_CODE_EXTRA) }

/-- A cumulative frequency below `ft`, after the range was divided. -/
def locate (d : RangeDecoder) (ext ft : Nat) : Nat × RangeDecoder :=
  if ext = 0 then (0, { d with err := 1, ext := 1 })
  else (ft - min (d.val / ext + 1) ft, { d with ext })

def decode (d : RangeDecoder) (ft : Nat) : Nat × RangeDecoder :=
  if ft = 0 then (0, { d with err := 1, ext := 1 }) else d.locate (d.rng / ft) ft

def decodeBin (d : RangeDecoder) (bits : Nat) : Nat × RangeDecoder :=
  d.locate (d.rng >>> bits) (1 <<< bits)

/-- Past the symbol with the cumulative range from `fl` to `fh` of `ft`. -/
def update (d : RangeDecoder) (fl fh ft : Nat) : RangeDecoder :=
  let s := wrappingMul d.ext (ft - fh)
  normalize 4
    { d with
      val := wrappingSub d.val s
      rng := if fl > 0 then wrappingMul d.ext (fh - fl) else wrappingSub d.rng s }

def decodeRawSymbol (d : RangeDecoder) (nbits : Nat) : Nat × RangeDecoder :=
  let (sym, d) := d.decodeBin nbits
  (sym, d.update sym (sym + 1) (1 <<< nbits))

def bitLogp (d : RangeDecoder) (logp : Nat) : Nat × RangeDecoder :=
  let s := d.rng >>> logp
  if d.val < s then (1, normalize 4 { d with rng := s })
  else (0, normalize 4 { d with val := d.val - s, rng := d.rng - s })

/-- The loop over an inverse table: the first symbol whose bound is not above the value. The bound
    before is kept for the width. -/
def icdfLoop (r val : Nat) : List UInt8 → Nat → Nat → Nat × Nat × Nat
  | [], ret, t => (ret, t, 0)
  | [b], ret, t => (ret, t, wrappingMul r b.toNat)
  | b :: rest, ret, t =>
      let s := wrappingMul r b.toNat
      if val ≥ s then (ret, t, s) else icdfLoop r val rest (ret + 1) s

def decodeIcdf (d : RangeDecoder) (icdf : List UInt8) (ftb : Nat) : Nat × RangeDecoder :=
  if icdf = [] then (0, { d with err := 1 })
  else
    let (ret, t, s) := icdfLoop (d.rng >>> ftb) d.val icdf 0 d.rng
    (ret, normalize 4 { d with val := d.val - s, rng := t - s })

/-- The search of the three table readers, over `n` entries. -/
def cdfSearch (entry : Nat → Nat) (target : Nat) : Nat → Nat → Nat
  | 0, k => k
  | left + 1, k => if entry (k + 1) > target then k else cdfSearch entry target left (k + 1)

/-- A symbol of a cumulative table with `n` entries, whose first entry is subtracted. -/
def decodeEntries (d : RangeDecoder) (entry : Nat → Nat) (n : Nat) : Nat × RangeDecoder :=
  if n < 2 ∨ entry (n - 1) ≤ entry 0 then (0, { d with err := 1 })
  else
    let ft := entry (n - 1) - entry 0
    let (fs, d) := d.decode ft
    let k := cdfSearch entry (entry 0 + fs) (n - 1) 0
    (k, d.update (entry k - entry 0) (entry (k + 1) - entry 0) ft)

def decodeCdf (d : RangeDecoder) (cdf : List UInt16) : Nat × RangeDecoder :=
  d.decodeEntries (fun i => (cdf.getD i 0).toNat) cdf.length

def decodeCdfWindow (d : RangeDecoder) (base : List UInt16) (start n : Nat) : Nat × RangeDecoder :=
  d.decodeEntries (fun i => (base.getD (start + i) 0).toNat) n

def decodeCdfLe16 (d : RangeDecoder) (bytes : Bytes) : Nat × RangeDecoder :=
  d.decodeEntries
    (fun i => (bytes.getD (2 * i) 0).toNat + 256 * (bytes.getD (2 * i + 1) 0).toNat)
    (bytes.length / 2)

/-- The window is filled until it has more than 24 bits. -/
def refill : Nat → RangeDecoder → Nat → Nat → RangeDecoder × Nat × Nat
  | 0, d, window, available => (d, window, available)
  | rounds + 1, d, window, available =>
      let (b, d) := d.readByteFromEnd
      let window := window ||| (b <<< available) % 2 ^ 32
      let available := available + EC_SYM_BITS
      if available > EC_WINDOW_SIZE - EC_SYM_BITS then (d, window, available)
      else refill rounds d window available

/-- Raw bits from the back. -/
def bitsN (d : RangeDecoder) (n : Nat) : Nat × RangeDecoder :=
  let (d, window, available) :=
    if d.nendBits < n then refill 4 d d.endWindow d.nendBits else (d, d.endWindow, d.nendBits)
  (window &&& ((1 <<< n) - 1),
    { d with endWindow := window >>> n, nendBits := available - n })

def decodeUint (d : RangeDecoder) (ft0 : Nat) : Nat × RangeDecoder :=
  let ft := ft0 - 1
  let ftb := ilog ft
  if ftb > EC_UINT_BITS then
    let ftb := ftb - EC_UINT_BITS
    let t := (ft >>> ftb) + 1
    let (s, d) := d.decode t
    let d := d.update s (s + 1) t
    let (low, d) := d.bitsN ftb
    let v := s <<< ftb ||| low
    if v ≤ ft then (v, d) else (ft, { d with err := 1 })
  else
    let (s, d) := d.decode (ft + 1)
    (s, d.update s (s + 1) (ft + 1))

/-- The symbol of a uniform table of 64; a value above the last bound counts as the first symbol. -/
def decode64FineSym (d : RangeDecoder) : Nat × RangeDecoder :=
  let ext := d.rng >>> 6
  if ext = 0 then (0, { d with err := 1, ext := 1 })
  else
    let sym := 63 - d.val / ext
    (sym, { d with ext }.update sym (sym + 1) 64)

end RangeDecoder

/-! ## 3. `RangeEncoder` -/

structure RangeEncoder where
  buf : Bytes
  storage : Nat
  endOffs : Nat
  endWindow : Nat
  nendBits : Nat
  offs : Nat
  rng : Nat
  val : Nat
  ext : Nat
  rem : Option Nat
  err : Bool

namespace RangeEncoder

def new (size : Nat) : RangeEncoder where
  buf := List.replicate size 0
  storage := size % 2 ^ 32
  endOffs := 0
  endWindow := 0
  nendBits := 0
  offs := 0
  rng := EC_CODE_TOP
  val := 0
  ext := 0
  rem := none
  err := false

/-- A new stream in the old buffer. -/
def reset (e : RangeEncoder) : RangeEncoder :=
  { RangeEncoder.new 0 with buf := e.buf, storage := e.storage }

def writeByte (e : RangeEncoder) (b : Nat) : RangeEncoder :=
  if e.offs + e.endOffs < e.storage then
    { e with buf := e.buf.set e.offs (UInt8.ofNat b), offs := e.offs + 1 }
  else { e with err := true }

def writeByteAtEnd (e : RangeEncoder) (b : Nat) : RangeEncoder :=
  if e.offs + e.endOffs < e.storage then
    { e with
      endOffs := e.endOffs + 1
      buf := e.buf.set (e.storage - (e.endOffs + 1)) (UInt8.ofNat b) }
  else { e with err := true }

def writeBytes (sym : Nat) : Nat → RangeEncoder → RangeEncoder
  | 0, e => e
  | count + 1, e => writeBytes sym count (e.writeByte sym)

/-- The byte before, with the carry. -/
def writeRem (e : RangeEncoder) (carry : Nat) : RangeEncoder :=
  match e.rem with
  | some rem => e.writeByte (rem + carry)
  | none => e

/-- A byte; bytes of ones wait for the next one. -/
def carryOut (e : RangeEncoder) (c : Nat) : RangeEncoder :=
  if c = EC_SYM_MAX then { e with ext := e.ext + 1 }
  else
    let carry := c >>> EC_SYM_BITS
    let e := writeBytes ((EC_SYM_MAX + carry) &&& EC_SYM_MAX) e.ext (e.writeRem carry)
    { e with ext := 0, rem := some (c &&& EC_SYM_MAX) }

def normalize : Nat → RangeEncoder → RangeEncoder
  | 0, e => e
  | rounds + 1, e =>
      if e.rng ≤ EC_CODE_BOT then
        normalize rounds
          { e.carryOut (e.val >>> EC_CODE_SHIFT) with
            val := (e.val <<< EC_SYM_BITS) % 2 ^ 32 &&& (EC_CODE_TOP - 1)
            rng := (e.rng <<< EC_SYM_BITS) % 2 ^ 32 }
      else e

def encode (e : RangeEncoder) (fl fh ft : Nat) : RangeEncoder :=
  if ft = 0 then { e with err := true }
  else
    let r := e.rng / ft
    normalize 4 <|
      if fl > 0 then
        { e with
          val := (e.val + wrappingSub e.rng (wrappingMul r (ft - fl))) % 2 ^ 32
          rng := wrappingMul r (fh - fl) }
      else { e with rng := wrappingSub e.rng (wrappingMul r (ft - fh)) }

def bitLogp (e : RangeEncoder) (val : Nat) (logp : Nat) : RangeEncoder :=
  let s := e.rng >>> logp
  let r := e.rng - s
  normalize 4 <|
    if val ≠ 0 then { e with val := (e.val + r) % 2 ^ 32, rng := s } else { e with rng := r }

def encodeIcdf (e : RangeEncoder) (s : Nat) (icdf : List UInt8) (ftb : Nat) : RangeEncoder :=
  let r := e.rng >>> ftb
  normalize 4 <|
    if s > 0 then
      { e with
        val := (e.val + wrappingSub e.rng (wrappingMul r (icdf.getD (s - 1) 0).toNat)) % 2 ^ 32
        rng := wrappingMul r (icdf.getD (s - 1) 0 - icdf.getD s 0).toNat }
    else { e with rng := wrappingSub e.rng (wrappingMul r (icdf.getD s 0).toNat) }

/-- A symbol of a cumulative table with `n` entries. -/
def encodeEntries (e : RangeEncoder) (s : Nat) (entry : Nat → Nat) (n : Nat) : RangeEncoder :=
  if n < 2 ∨ s + 1 ≥ n ∨ entry (n - 1) ≤ entry 0 then { e with err := true }
  else e.encode (entry s - entry 0) (entry (s + 1) - entry 0) (entry (n - 1) - entry 0)

def encodeCdf (e : RangeEncoder) (s : Nat) (cdf : List UInt16) : RangeEncoder :=
  e.encodeEntries s (fun i => (cdf.getD i 0).toNat) cdf.length

def encodeCdfWindow (e : RangeEncoder) (s : Nat) (base : List UInt16) (start n : Nat) :
    RangeEncoder :=
  e.encodeEntries s (fun i => (base.getD (start + i) 0).toNat) n

/-- The window goes out at the back until it has fewer than 8 bits. -/
def flushWindow : Nat → RangeEncoder → Nat → Nat → RangeEncoder × Nat × Nat
  | 0, e, window, used => (e, window, used)
  | rounds + 1, e, window, used =>
      if used < EC_SYM_BITS then (e, window, used)
      else
        flushWindow rounds (e.writeByteAtEnd (window &&& EC_SYM_MAX)) (window >>> EC_SYM_BITS)
          (used - EC_SYM_BITS)

/-- Raw bits to the back, 25 at most: with more, the loop of the source would take a byte off a
    window that has none. -/
def bitsN (e : RangeEncoder) (fl n : Nat) : RangeEncoder :=
  let (e, window, used) :=
    if e.nendBits + n > EC_WINDOW_SIZE then flushWindow e.nendBits e e.endWindow e.nendBits
    else (e, e.endWindow, e.nendBits)
  { e with
    endWindow := window ||| (fl <<< used) % 2 ^ 32
    nendBits := used + n }

def encodeUint (e : RangeEncoder) (fl ft0 : Nat) : RangeEncoder :=
  let ft := ft0 - 1
  let ftb := ilog ft
  if ftb > EC_UINT_BITS then
    let ftb := ftb - EC_UINT_BITS
    let t := (ft >>> ftb) + 1
    (e.encode (fl >>> ftb) ((fl >>> ftb) + 1) t).bitsN (fl &&& ((1 <<< ftb) - 1)) ftb
  else e.encode fl (fl + 1) (ft + 1)

def encodeRawSymbol (e : RangeEncoder) (sym nbits : Nat) : RangeEncoder :=
  e.encode sym (sym + 1) (1 <<< nbits)

def encode64FineSym (e : RangeEncoder) (sym : Nat) : RangeEncoder := e.encode sym (sym + 1) 64

/-- The bits of the last value that tell it apart, and how many. -/
def lastBits (e : RangeEncoder) : Nat × Nat :=
  let l := EC_CODE_BITS - ilog e.rng
  let msk := (EC_CODE_TOP - 1) >>> l
  let cut msk := (e.val + msk) % 2 ^ 32 - ((e.val + msk) % 2 ^ 32 &&& msk)
  if cut msk ||| msk ≥ (e.val + e.rng) % 2 ^ 32 then (l + 1, cut (msk >>> 1)) else (l, cut msk)

def writeLast : Nat → RangeEncoder → Nat → Nat → RangeEncoder
  | 0, e, _, _ => e
  | rounds + 1, e, l, last =>
      if l > 0 then
        writeLast rounds (e.carryOut (last >>> EC_CODE_SHIFT)) (l - EC_SYM_BITS)
          ((last <<< EC_SYM_BITS) % 2 ^ 32 &&& (EC_CODE_TOP - 1))
      else e

/-- What lies between the front and the back is zero, but for the last raw bits. -/
def merge (e : RangeEncoder) (window used : Nat) : RangeEncoder :=
  if e.err then e
  else
    let gap := e.storage - e.endOffs - e.offs
    let buf := e.buf.take e.offs ++ List.replicate gap 0 ++ e.buf.drop (e.offs + gap)
    if used > 0 then
      if e.endOffs ≥ e.storage - e.offs then { e with buf, err := true }
      else
        let at_ := e.storage - e.endOffs - 1
        { e with buf := buf.set at_ (buf.getD at_ 0 ||| UInt8.ofNat window) }
    else { e with buf }

/-- `done` -/
def finish (e : RangeEncoder) : RangeEncoder :=
  let (l, last) := e.lastBits
  let e := writeLast l e l last
  let e := if e.rem.isSome ∨ e.ext > 0 then e.carryOut 0 else e
  let (e, window, used) := flushWindow e.nendBits e e.endWindow e.nendBits
  e.merge window used

def consumedLen (e : RangeEncoder) : Nat := e.offs + e.endOffs

end RangeEncoder

end Ruwa.Call
