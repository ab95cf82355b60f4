/-
  File:      Ruwa/Call/RangeEncoding.lean
  Subject:   WHAT THE RANGE ENCODER HAS WRITTEN. Its state stands for an interval of codes, and for
             the raw bits so far.

  * `Emits` -- without an error, the bytes at the two ends of the buffer are those written there;
  * `carryOut_digits` -- a byte goes out as one digit more, its carry taken in by the byte before;
  * `Encodes` -- the interval, with the promise that no carry is ever lost; kept by a part of it
    (`Encodes.narrow`) and by a digit more (`Encodes.scale`, `Encodes.renew`);
  * `RawBits` -- the number that the raw bits spell (`RawBits.bitsN`);
  * `Tracks`, and **`holds_finish`**: what `done` leaves lies in the interval, and ends with the raw
    bits.
-/
import Mathlib.Algebra.Order.Group.Nat
import Mathlib.Tactic.IntervalCases
import Ruwa.Call.RangeCoder
import Ruwa.Library.IntervalCoder

namespace Ruwa.Call

open Ruwa.Library
open RangeEncoder

/-! ## 1. The two ends of the buffer -/

/-- `front` stands at the start of the buffer and `rear` at its end. -/
structure Emitted (e : RangeEncoder) (front rear : Bytes) : Prop where
  offs : e.offs = front.length
  endOffs : e.endOffs = rear.length
  room : e.buf.length = e.storage
  fits : front.length + rear.length ≤ e.storage
  take : e.buf.take front.length = front
  drop : e.buf.drop (e.storage - rear.length) = rear

/-- An error is for good: without one, all that was written is there. -/
def Emits (e : RangeEncoder) (front rear : Bytes) : Prop := e.err = false → Emitted e front rear

variable {e : RangeEncoder} {front rear : Bytes}

/-- The rest of the state has no part in it. -/
theorem Emits.rest (h : Emits e front rear) (endWindow nendBits rng val ext : Nat)
    (rem : Option Nat) :
    Emits { e with endWindow, nendBits, rng, val, ext, rem } front rear := by
  intro herr
  have hold := h herr
  exact ⟨hold.offs, hold.endOffs, hold.room, hold.fits, hold.take, hold.drop⟩

theorem Emits.writeByte (h : Emits e front rear) (b : Nat) :
    Emits (e.writeByte b) (front ++ [UInt8.ofNat b]) rear := by
  unfold RangeEncoder.writeByte
  split
  · rename_i hroom
    intro herr
    have hold := h herr
    rw [hold.offs, hold.endOffs] at hroom
    have hbefore : front.length < e.storage - rear.length := by omega
    have hlt : front.length < e.buf.length := by
      rw [hold.room]
      omega
    exact
      { offs := by simp [hold.offs]
        endOffs := hold.endOffs
        room := by simp [hold.room]
        fits := by
          show _ ≤ e.storage
          rw [List.length_append, List.length_singleton]
          omega
        take := by
          show (e.buf.set e.offs _).take _ = _
          rw [hold.offs, List.length_append, List.length_singleton,
            List.take_set, List.take_succ_eq_append_getElem hlt, hold.take,
            List.set_append_right _ _ (Nat.le_refl _)]
          simp
        drop := by
          show (e.buf.set e.offs _).drop _ = _
          rw [hold.offs, List.drop_set_of_lt hbefore, hold.drop] }
  · intro herr
    cases herr

theorem Emits.writeByteAtEnd (h : Emits e front rear) (b : Nat) :
    Emits (e.writeByteAtEnd b) front (UInt8.ofNat b :: rear) := by
  unfold RangeEncoder.writeByteAtEnd
  split
  · rename_i hroom
    intro herr
    have hold := h herr
    rw [hold.offs, hold.endOffs] at hroom
    have hat : e.storage - (rear.length + 1) < e.buf.length := by
      rw [hold.room]
      omega
    have hnext : e.storage - (rear.length + 1) + 1 = e.storage - rear.length := by omega
    exact
      { offs := hold.offs
        endOffs := by simp [hold.endOffs]
        room := by simp [hold.room]
        fits := by
          show _ ≤ e.storage
          rw [List.length_cons]
          omega
        take := by
          show (e.buf.set _ _).take _ = _
          rw [hold.endOffs, List.take_set_of_le (by omega), hold.take]
        drop := by
          show (e.buf.set _ _).drop _ = _
          rw [hold.endOffs, List.length_cons, List.drop_set, if_neg (Nat.lt_irrefl _), Nat.sub_self,
            List.drop_eq_getElem_cons hat, hnext, hold.drop]
          rfl }
  · intro herr
    cases herr

theorem Emits.writeBytes (h : Emits e front rear) (sym n : Nat) :
    Emits (writeBytes sym n e) (front ++ List.replicate n (UInt8.ofNat sym)) rear := by
  induction n generalizing e front with
  | zero => simpa [RangeEncoder.writeBytes] using h
  | succ n ih =>
      rw [RangeEncoder.writeBytes, List.replicate_succ, ← List.singleton_append,
        ← List.append_assoc]
      exact ih (h.writeByte sym)

/-- Writing changes the buffer, its offset and the error, and nothing else. -/
theorem writeByte_eq (e : RangeEncoder) (b : Nat) :
    ∃ buf offs err, e.writeByte b = { e with buf := buf, offs := offs, err := err } := by
  unfold RangeEncoder.writeByte
  split
  · exact ⟨_, _, e.err, rfl⟩
  · exact ⟨e.buf, e.offs, true, rfl⟩

theorem writeBytes_eq (sym n : Nat) (e : RangeEncoder) :
    ∃ buf offs err, writeBytes sym n e = { e with buf := buf, offs := offs, err := err } := by
  induction n generalizing e with
  | zero => exact ⟨e.buf, e.offs, e.err, rfl⟩
  | succ n ih =>
      obtain ⟨buf, offs, err, heq⟩ := writeByte_eq e sym
      obtain ⟨buf', offs', err', heq'⟩ := ih { e with buf := buf, offs := offs, err := err }
      exact ⟨buf', offs', err', by rw [RangeEncoder.writeBytes, heq, heq']⟩

/-! ## 2. Carries -/

/-- The last byte, which is not in the buffer yet. -/
def RangeEncoder.held (e : RangeEncoder) : Bytes := (e.rem.map UInt8.ofNat).toList

/-- The number of all digits, and one more: with the bytes of ones that wait. -/
def digits (e : RangeEncoder) (front : Bytes) : Nat := (fromBE (front ++ e.held) + 1) * 256 ^ e.ext

/-- How many digits there are. -/
def count (e : RangeEncoder) (front : Bytes) : Nat := (front ++ e.held).length + e.ext

/-- The last byte can take a carry in. -/
def TakesCarry (e : RangeEncoder) : Prop := ∃ r < 255, e.rem = some r

/-- What the digits before this byte become in the buffer, with its carry. -/
theorem carried_digits (front : Bytes) (e : RangeEncoder) (k : Nat) (hk : k < 2)
    (hcarry : k = 1 → TakesCarry e) :
    fromBE (front ++ (e.rem.map fun r => UInt8.ofNat (r + k)).toList ++
      List.replicate e.ext (UInt8.ofNat ((255 + k) &&& 255))) + 1 = digits e front + k := by
  match k, hk with
  | 0, _ => exact fromBE_ones _ _
  | 1, _ =>
      obtain ⟨r, hr, hrem⟩ := hcarry rfl
      have hnext : (UInt8.ofNat (r + 1)).toNat = (UInt8.ofNat r).toNat + 1 := by
        rw [UInt8.toNat_ofNat', UInt8.toNat_ofNat']
        omega
      unfold digits RangeEncoder.held
      rw [hrem]
      show fromBE (front ++ [UInt8.ofNat (r + 1)] ++ List.replicate e.ext 0) + 1 =
        (fromBE (front ++ [UInt8.ofNat r]) + 1) * 256 ^ e.ext + 1
      rw [fromBE_zeros, fromBE_concat, fromBE_concat, hnext, Nat.add_assoc]

/-- The byte before goes out with its carry. -/
theorem Emits.writeRem (h : Emits e front rear) (k : Nat) :
    Emits (e.writeRem k) (front ++ (e.rem.map fun r => UInt8.ofNat (r + k)).toList) rear := by
  unfold RangeEncoder.writeRem
  cases e.rem with
  | none => simpa using h
  | some r => exact h.writeByte (r + k)

theorem writeRem_eq (e : RangeEncoder) (k : Nat) :
    ∃ buf offs err, e.writeRem k = { e with buf := buf, offs := offs, err := err } := by
  unfold RangeEncoder.writeRem
  split
  · exact writeByte_eq e _
  · exact ⟨e.buf, e.offs, e.err, rfl⟩

/-- A byte that goes out changes the front, and what waits behind it. -/
theorem carryOut_eq (e : RangeEncoder) (c : Nat) :
    ∃ buf offs ext rem err,
      e.carryOut c = { e with buf := buf, offs := offs, ext := ext, rem := rem, err := err } := by
  unfold carryOut
  split
  · exact ⟨e.buf, e.offs, e.ext + 1, e.rem, e.err, rfl⟩
  · obtain ⟨buf, offs, err, heq⟩ := writeRem_eq e (c >>> EC_SYM_BITS)
    obtain ⟨buf', offs', err', heq'⟩ :=
      writeBytes_eq ((EC_SYM_MAX + c >>> EC_SYM_BITS) &&& EC_SYM_MAX) e.ext
        { e with buf := buf, offs := offs, err := err }
    dsimp only
    rw [heq, heq']
    exact ⟨buf', offs', 0, some (c &&& EC_SYM_MAX), err', rfl⟩

/-- The value and the range have no part in it. -/
theorem carryOut_rest (e : RangeEncoder) (c val rng : Nat) :
    RangeEncoder.carryOut { e with val, rng } c = { e.carryOut c with val, rng } := by
  have hbyte : ∀ (e : RangeEncoder) (b : Nat),
      RangeEncoder.writeByte { e with val, rng } b = { e.writeByte b with val, rng } := by
    intro e b
    unfold RangeEncoder.writeByte
    dsimp only
    split <;> rfl
  have hbytes : ∀ (sym n : Nat) (e : RangeEncoder),
      writeBytes sym n { e with val, rng } = { writeBytes sym n e with val, rng } := by
    intro sym n
    induction n with
    | zero => exact fun e => rfl
    | succ n ih =>
        intro e
        rw [RangeEncoder.writeBytes, hbyte, ih]
        rfl
  have hrem : RangeEncoder.writeRem { e with val, rng } (c >>> EC_SYM_BITS) =
      { e.writeRem (c >>> EC_SYM_BITS) with val, rng } := by
    unfold RangeEncoder.writeRem
    dsimp only
    split
    · exact hbyte e _
    · rfl
  unfold carryOut
  dsimp only
  rw [hrem, hbytes]
  split <;> rfl

/-- **A byte goes out as one digit more**, its carry taken in by the digits before it. -/
theorem carryOut_digits (h : Emits e front rear) {c : Nat} (hc : c < 512)
    (hcarry : 256 ≤ c → TakesCarry e) :
    ∃ front', Emits (e.carryOut c) front' rear ∧
      count (e.carryOut c) front' = count e front + 1 ∧
      digits (e.carryOut c) front' + 255 = digits e front * 256 + c ∧
      if c = 255 then (e.carryOut c).rem = e.rem
      else (e.carryOut c).rem = some (c % 256) ∧ (e.carryOut c).ext = 0 := by
  unfold carryOut
  by_cases hones : c = EC_SYM_MAX
  · rw [if_pos hones]
    have h255 : c = 255 := hones
    refine ⟨front, h.rest _ _ _ _ _ _, ?_, ?_, ?_⟩
    · show (front ++ e.held).length + (e.ext + 1) = (front ++ e.held).length + e.ext + 1
      rfl
    · show (fromBE (front ++ e.held) + 1) * 256 ^ (e.ext + 1) + 255 = _
      rw [Nat.pow_succ, ← Nat.mul_assoc, h255]
      rfl
    · rw [if_pos h255]
  · rw [if_neg hones]
    have hne : c ≠ 255 := hones
    have hk : c >>> EC_SYM_BITS = c / 256 := Nat.shiftRight_eq_div_pow c 8
    have hlow : c &&& EC_SYM_MAX = c % 256 := Nat.and_two_pow_sub_one_eq_mod c 8
    -- The byte before goes out first, and then the bytes that waited.
    have hemits := h.writeRem (c / 256)
    obtain ⟨buf, offs, err, heq⟩ := writeRem_eq e (c / 256)
    rw [heq] at hemits
    have hall := hemits.writeBytes ((EC_SYM_MAX + c / 256) &&& EC_SYM_MAX) e.ext
    obtain ⟨buf', offs', err', heq'⟩ :=
      writeBytes_eq ((EC_SYM_MAX + c / 256) &&& EC_SYM_MAX) e.ext
        { e with buf := buf, offs := offs, err := err }
    rw [heq'] at hall
    have hnumber := carried_digits front e (c / 256) (by omega) (fun h1 => hcarry (by omega))
    dsimp only
    rw [hk, hlow, heq, heq']
    refine ⟨_, hall.rest _ _ _ _ _ _, ?_, ?_, ?_⟩
    · unfold count RangeEncoder.held
      simp only [List.length_append, List.length_replicate, Option.length_toList,
        Option.isSome_map, Option.isSome_some, if_true]
    · have hdigit : (UInt8.ofNat (c % 256)).toNat = c % 256 := by
        rw [UInt8.toNat_ofNat']
        omega
      show (fromBE (_ ++ [UInt8.ofNat (c % 256)]) + 1) * 256 ^ 0 + 255 = _
      rw [fromBE_concat, hdigit]
      have hsplit := Nat.div_add_mod c 256
      show (fromBE (front ++ (e.rem.map fun r => UInt8.ofNat (r + c / 256)).toList ++
        List.replicate e.ext (UInt8.ofNat ((255 + c / 256) &&& 255))) * 256 + c % 256 + 1) * 1 +
          255 = _
      omega
    · rw [if_neg hne]
      exact ⟨rfl, rfl⟩

/-! ## 3. The interval -/

/-- The interval that the state stands for. -/
structure Encodes (e : RangeEncoder) (i : Interval) (front rear : Bytes) : Prop where
  emits : Emits e front rear
  width : e.rng = i.width
  place : i.place = count e front + 3
  low : i.low + 2 ^ 31 = digits e front * 2 ^ 31 + e.val
  top : e.val + e.rng < 2 ^ 32
  carry : 2 ^ 31 < e.val + e.rng → TakesCarry e

variable {i : Interval}

/-- A part of the interval. -/
theorem Encodes.narrow (h : Encodes e i front rear) {lower upper : Nat} (hupper : upper ≤ e.rng)
    (hlower : lower < upper) :
    Encodes { e with val := (e.val + (e.rng - upper)) % 2 ^ 32, rng := upper - lower }
      (i.narrow lower upper) front rear := by
  have htop := h.top
  have hfits : (e.val + (e.rng - upper)) % 2 ^ 32 = e.val + (e.rng - upper) :=
    Nat.mod_eq_of_lt (by omega)
  rw [hfits]
  exact
    { emits := h.emits.rest _ _ _ _ _ _
      width := rfl
      place := h.place
      low := by
        show i.low + (i.width - upper) + 2 ^ 31 =
          digits e front * 2 ^ 31 + (e.val + (e.rng - upper))
        have hlow := h.low
        rw [← h.width]
        omega
      top := by
        show e.val + (e.rng - upper) + (upper - lower) < 2 ^ 32
        omega
      carry := by
        intro hhigh
        have hhigh' : 2 ^ 31 < e.val + (e.rng - upper) + (upper - lower) := hhigh
        exact h.carry (by omega) }

/-- One digit more: what the loop of `normalize` does in a round. -/
theorem Encodes.scale (h : Encodes e i front rear) (hpos : 0 < e.rng) (hbot : e.rng ≤ 2 ^ 23) :
    ∃ front', Encodes
      { e.carryOut (e.val >>> EC_CODE_SHIFT) with
        val := (e.val <<< EC_SYM_BITS) % 2 ^ 32 &&& (EC_CODE_TOP - 1)
        rng := (e.rng <<< EC_SYM_BITS) % 2 ^ 32 }
      (i.scale 256) front' rear := by
  have htop := h.top
  have hval : (e.val <<< EC_SYM_BITS) % 2 ^ 32 &&& (EC_CODE_TOP - 1) = e.val * 256 % 2 ^ 31 := by
    show (e.val <<< 8) % 2 ^ 32 &&& (2 ^ 31 - 1) = _
    rw [Nat.and_two_pow_sub_one_eq_mod, Nat.shiftLeft_eq]
    omega
  have hrng : (e.rng <<< EC_SYM_BITS) % 2 ^ 32 = e.rng * 256 := by
    show (e.rng <<< 8) % 2 ^ 32 = _
    rw [Nat.shiftLeft_eq]
    omega
  have hc : e.val >>> EC_CODE_SHIFT = e.val / 2 ^ 23 := Nat.shiftRight_eq_div_pow e.val 23
  rw [hval, hrng, hc]
  obtain ⟨front', hemits, hcount, hdigits, hrem⟩ :=
    carryOut_digits h.emits (c := e.val / 2 ^ 23) (by omega) (fun hhigh => h.carry (by omega))
  refine ⟨front', hemits.rest _ _ _ _ _ _, ?_, ?_, ?_, ?_, ?_⟩
  · show e.rng * 256 = i.width * 256
    rw [h.width]
  · show i.place + 1 = count (e.carryOut (e.val / 2 ^ 23)) front' + 3
    rw [hcount, h.place]
  · show i.low * 256 + 2 ^ 31 =
      digits (e.carryOut (e.val / 2 ^ 23)) front' * 2 ^ 31 + e.val * 256 % 2 ^ 31
    have hlow := h.low
    omega
  · show e.val * 256 % 2 ^ 31 + e.rng * 256 < 2 ^ 32
    omega
  · -- Only a byte of ones keeps the byte before; then that one takes the carry.
    intro hhigh
    have hhigh' : 2 ^ 31 < e.val * 256 % 2 ^ 31 + e.rng * 256 := hhigh
    show TakesCarry (e.carryOut (e.val / 2 ^ 23))
    by_cases hones : e.val / 2 ^ 23 = 255
    · rw [if_pos hones] at hrem
      obtain ⟨r, hr, hold⟩ := h.carry (by omega)
      exact ⟨r, hr, by rw [hrem, hold]⟩
    · rw [if_neg hones] at hrem
      exact ⟨e.val / 2 ^ 23 % 256, by omega, hrem.1⟩

theorem Encodes.renew : ∀ {n : Nat} {e : RangeEncoder} {i : Interval} {front : Bytes},
    Encodes e i front rear → 0 < e.rng →
      ∃ front', Encodes (normalize n e) (i.renew 256 (2 ^ 23) n) front' rear
  | 0, _, _, front, h, _ => ⟨front, h⟩
  | rounds + 1, e, i, front, h, hpos => by
      unfold RangeEncoder.normalize Interval.renew
      rw [← h.width]
      show ∃ front', Encodes (if e.rng ≤ 2 ^ 23 then _ else _) (if e.rng ≤ 2 ^ 23 then _ else _) _ _
      split
      · rename_i hbot
        obtain ⟨front', hscaled⟩ := h.scale hpos hbot
        refine hscaled.renew ?_
        rw [hscaled.width]
        show 0 < i.width * 256
        rw [← h.width]
        omega
      · exact ⟨front, h⟩

/-! ## 4. Raw bits -/

/-- The raw bits so far are `t` bits that spell `v`: full bytes at the end of the buffer, and the
    rest in the window. -/
structure RawBits (e : RangeEncoder) (rear : Bytes) (v t : Nat) : Prop where
  bits : t = 8 * rear.length + e.nendBits
  value : v = fromBE rear + 256 ^ rear.length * e.endWindow
  small : e.endWindow < 2 ^ e.nendBits
  window : e.nendBits ≤ 32

/-- Full bytes of the window go to the end of the buffer. -/
theorem flushWindow_spec (rounds window used : Nat) (h : Emits e front rear)
    (hsmall : window < 2 ^ used) (hrounds : used < 8 * (rounds + 1)) :
    ∃ buf endOffs err window' used' rear',
      flushWindow rounds e window used =
        ({ e with buf := buf, endOffs := endOffs, err := err }, window', used') ∧
      Emits { e with buf := buf, endOffs := endOffs, err := err } front rear' ∧
      8 * rear'.length + used' = 8 * rear.length + used ∧
      fromBE rear' + 256 ^ rear'.length * window' = fromBE rear + 256 ^ rear.length * window ∧
      window' < 2 ^ used' ∧ used' < 8 := by
  induction rounds generalizing e window used rear with
  | zero => exact ⟨e.buf, e.endOffs, e.err, window, used, rear, rfl, h, rfl, rfl, hsmall, hrounds⟩
  | succ rounds ih =>
      unfold flushWindow
      split
      · rename_i hfew
        exact ⟨e.buf, e.endOffs, e.err, window, used, rear, rfl, h, rfl, rfl, hsmall, hfew⟩
      · rename_i hmany
        have hmany' : 8 ≤ used := Nat.le_of_not_lt hmany
        have hbyte : window &&& EC_SYM_MAX = window % 256 := Nat.and_two_pow_sub_one_eq_mod window 8
        have hrest : window >>> EC_SYM_BITS = window / 256 := Nat.shiftRight_eq_div_pow window 8
        have hless : window / 256 < 2 ^ (used - 8) := by
          rw [Nat.div_lt_iff_lt_mul (by decide)]
          calc window < 2 ^ used := hsmall
            _ = 2 ^ (used - 8) * 2 ^ 8 := by rw [← Nat.pow_add, Nat.sub_add_cancel hmany']
        obtain ⟨buf, endOffs, err, heq⟩ : ∃ buf endOffs err,
            e.writeByteAtEnd (window % 256) =
              { e with buf := buf, endOffs := endOffs, err := err } := by
          unfold RangeEncoder.writeByteAtEnd
          split
          · exact ⟨_, _, e.err, rfl⟩
          · exact ⟨e.buf, e.endOffs, true, rfl⟩
        have hwritten := h.writeByteAtEnd (window % 256)
        rw [hbyte, hrest]
        rw [heq] at hwritten ⊢
        obtain ⟨buf', endOffs', err', window', used', rear', hflush, hemits, hbits, hvalue, hend⟩ :=
          ih (window / 256) (used - 8) hwritten hless (by omega)
        refine ⟨buf', endOffs', err', window', used', rear', hflush, hemits, ?_, ?_, hend⟩
        · rw [hbits, List.length_cons]
          omega
        · rw [hvalue, ← List.singleton_append, fromBE_append, List.length_append,
            List.length_singleton, Nat.add_comm 1, Nat.pow_succ]
          have hdigit : fromBE [UInt8.ofNat (window % 256)] = window % 256 := by
            rw [fromBE_singleton, UInt8.toNat_ofNat']
            omega
          rw [hdigit]
          calc window % 256 * 256 ^ rear.length + fromBE rear +
                256 ^ rear.length * 256 * (window / 256)
              = fromBE rear + 256 ^ rear.length * (256 * (window / 256) + window % 256) := by ring
            _ = fromBE rear + 256 ^ rear.length * window := by rw [Nat.div_add_mod]

/-- What was written at the end leaves the interval alone. -/
theorem Encodes.atEnd (h : Encodes e i front rear) {buf : Bytes} {endOffs : Nat} {err : Bool}
    {rear' : Bytes}
    (hemits : Emits { e with buf := buf, endOffs := endOffs, err := err } front rear')
    (endWindow nendBits : Nat) :
    Encodes { e with buf, endOffs, err, endWindow, nendBits } i front rear' where
  emits := hemits.rest _ _ _ _ _ _
  width := h.width
  place := h.place
  low := h.low
  top := h.top
  carry := h.carry

/-- Bits above those that are there. -/
theorem or_shiftLeft {window fl used n : Nat} (hsmall : window < 2 ^ used) (hfl : fl < 2 ^ n)
    (hroom : used + n ≤ 32) :
    window ||| (fl <<< used) % 2 ^ 32 = window + fl * 2 ^ used ∧
      window + fl * 2 ^ used < 2 ^ (used + n) := by
  have hnext : (fl + 1) * 2 ^ used ≤ 2 ^ (used + n) := by
    rw [Nat.pow_add, Nat.mul_comm]
    exact Nat.mul_le_mul_left _ hfl
  have hlt : window + fl * 2 ^ used < 2 ^ (used + n) := by
    rw [Nat.add_mul] at hnext
    omega
  have hfits : fl * 2 ^ used < 2 ^ 32 :=
    Nat.lt_of_lt_of_le (by omega) (Nat.pow_le_pow_right (by decide) hroom)
  constructor
  · rw [Nat.shiftLeft_eq, Nat.mod_eq_of_lt hfits, ← Nat.shiftLeft_eq, Nat.or_comm,
      ← Nat.shiftLeft_add_eq_or_of_lt hsmall, Nat.shiftLeft_eq, Nat.add_comm]
  · exact hlt

/-- **Raw bits are put above those that are there.** -/
theorem RawBits.bitsN {v t fl n : Nat} (h : RawBits e rear v t) (hcodes : Encodes e i front rear)
    (hfl : fl < 2 ^ n) (hn : n ≤ 25) :
    ∃ rear', Encodes (e.bitsN fl n) i front rear' ∧
      RawBits (e.bitsN fl n) rear' (v + fl * 2 ^ t) (t + n) ∧ (e.bitsN fl n).rng = e.rng := by
  -- In both cases there is room in the window for the bits.
  obtain ⟨buf, endOffs, err, window, used, rear', heq, hcodes', hbits, hvalue, hsmall, hroom⟩ :
      ∃ buf endOffs err window used rear',
        (if e.nendBits + n > EC_WINDOW_SIZE then flushWindow e.nendBits e e.endWindow e.nendBits
          else (e, e.endWindow, e.nendBits)) =
          ({ e with buf := buf, endOffs := endOffs, err := err }, window, used) ∧
        Encodes { e with buf := buf, endOffs := endOffs, err := err } i front rear' ∧
        8 * rear'.length + used = t ∧ fromBE rear' + 256 ^ rear'.length * window = v ∧
        window < 2 ^ used ∧ used + n ≤ 32 := by
    split
    · obtain ⟨buf, endOffs, err, window, used, rear', heq, hemits, hbits, hvalue, hsmall, hused⟩ :=
        flushWindow_spec e.nendBits _ _ hcodes.emits h.small (by omega)
      exact ⟨buf, endOffs, err, window, used, rear', heq, hcodes.atEnd hemits _ _,
        hbits.trans h.bits.symm, hvalue.trans h.value.symm, hsmall, by omega⟩
    · rename_i hroom
      exact ⟨e.buf, e.endOffs, e.err, e.endWindow, e.nendBits, rear, rfl, hcodes, h.bits.symm,
        h.value.symm, h.small, Nat.le_of_not_lt hroom⟩
  obtain ⟨hor, hlt⟩ := or_shiftLeft hsmall hfl hroom
  unfold RangeEncoder.bitsN
  rw [heq]
  dsimp only
  rw [hor]
  refine ⟨rear', hcodes'.atEnd hcodes'.emits _ _, ⟨?_, ?_, hlt, hroom⟩, rfl⟩
  · rw [← hbits, Nat.add_assoc]
  · rw [← hvalue, ← hbits, Nat.pow_add, Nat.pow_mul]
    show _ + fl * (256 ^ rear'.length * 2 ^ used) = _
    ring

/-! ## 5. The end of the stream -/

/-- The code that a decoder reads: the first bytes of a buffer, `n` and one more, all but their last
    bit. A byte past the end is zero. -/
def code (buf : Bytes) (n : Nat) : Nat := spelled (fun k => buf.getD k 0) (n + 1) / 2

/-- The next eight bits of the code, as the decoder puts them together. -/
def digit (buf : Bytes) (n : Nat) : Nat :=
  ((buf.getD n 0).toNat * 256 + (buf.getD (n + 1) 0).toNat) / 2 % 256

theorem code_digits (buf : Bytes) : Interval.Digits 256 (code buf) (digit buf) := by
  intro n
  have hbyte := (buf.getD (n + 1) 0).toNat_lt
  constructor
  · exact Nat.mod_lt _ (by decide)
  · show (spelled (fun k => buf.getD k 0) (n + 1) * 256 + (buf.getD (n + 1) 0).toNat) / 2 =
      spelled (fun k => buf.getD k 0) (n + 1) / 2 * 256 + digit buf n
    have hthis : spelled (fun k => buf.getD k 0) (n + 1) =
      spelled (fun k => buf.getD k 0) n * 256 + (buf.getD n 0).toNat := rfl
    unfold digit
    omega

/-- The interval, and the raw bits, after some symbols. -/
structure Mark where
  interval : Interval
  raw : Nat
  bits : Nat

/-- A buffer agrees with what was written. -/
structure Mark.In (buf : Bytes) (m : Mark) : Prop where
  holds : (m.interval).Holds (code buf)
  raw : fromBE buf % 2 ^ m.bits = m.raw

/-- `v`, rounded up to a multiple of a power of two. -/
def roundUp (v r : Nat) : Nat := (v + (2 ^ r - 1)) / 2 ^ r * 2 ^ r

theorem le_roundUp (v r : Nat) : v ≤ roundUp v r ∧ roundUp v r < v + 2 ^ r := by
  have hpos : 0 < 2 ^ r := Nat.two_pow_pos r
  have hsplit := Nat.div_add_mod' (v + (2 ^ r - 1)) (2 ^ r)
  have hrest := Nat.mod_lt (v + (2 ^ r - 1)) hpos
  unfold roundUp
  omega

/-- As the encoder rounds. -/
theorem cut_eq {v r : Nat} (h : v + (2 ^ r - 1) < 2 ^ 32) :
    (v + (2 ^ r - 1)) % 2 ^ 32 - ((v + (2 ^ r - 1)) % 2 ^ 32 &&& (2 ^ r - 1)) = roundUp v r := by
  have hsplit := Nat.div_add_mod' (v + (2 ^ r - 1)) (2 ^ r)
  rw [Nat.mod_eq_of_lt h, Nat.and_two_pow_sub_one_eq_mod]
  unfold roundUp
  omega

/-- The masks of the last bits. -/
theorem mask_eq {s : Nat} (hlow : 23 ≤ s) (hhigh : s ≤ 31) :
    (EC_CODE_TOP - 1) >>> (EC_CODE_BITS - (s + 1)) = 2 ^ s - 1 ∧
      (2 ^ s - 1) >>> 1 = 2 ^ (s - 1) - 1 := by
  interval_cases s <;> exact ⟨rfl, rfl⟩

/-- **The last bits tell the value apart**: any bits may follow them. -/
theorem lastBits_spec (hlow : 2 ^ 23 < e.rng) (hhigh : e.rng ≤ 2 ^ 31)
    (htop : e.val + e.rng < 2 ^ 32) :
    e.lastBits.1 ≤ 9 ∧ 2 ^ (31 - e.lastBits.1) ∣ e.lastBits.2 ∧ e.val ≤ e.lastBits.2 ∧
      e.lastBits.2 + 2 ^ (31 - e.lastBits.1) ≤ e.val + e.rng := by
  have hpos : e.rng ≠ 0 := by omega
  -- `s` is the place of the highest bit of the range.
  obtain ⟨s, hs⟩ : ∃ s, s = Nat.log2 e.rng := ⟨_, rfl⟩
  have hle : 2 ^ s ≤ e.rng := hs ▸ Nat.log2_self_le hpos
  have hlt : e.rng < 2 ^ (s + 1) := hs ▸ Nat.lt_log2_self
  have hs23 : 23 ≤ s := by
    by_contra hsmall
    have : 2 ^ (s + 1) ≤ 2 ^ 23 := Nat.pow_le_pow_right (by decide) (by omega)
    omega
  have hs31 : s ≤ 31 := by
    by_contra hbig
    have : 2 ^ 32 ≤ 2 ^ s := Nat.pow_le_pow_right (by decide) (by omega)
    omega
  have hhalf : 2 ^ (s - 1) * 2 = 2 ^ s := Nat.two_pow_pred_mul_two (by omega)
  have hilog : ilog e.rng = s + 1 := by
    unfold ilog
    rw [if_neg hpos, ← hs]
  obtain ⟨hmask, hmask'⟩ := mask_eq hs23 hs31
  have hor : roundUp e.val s ||| (2 ^ s - 1) = roundUp e.val s + (2 ^ s - 1) := by
    unfold roundUp
    rw [Nat.mul_comm]
    exact (Nat.two_pow_add_eq_or_of_lt (Nat.sub_lt (Nat.two_pow_pos s) Nat.one_pos) _).symm
  unfold lastBits
  simp only [hilog, hmask, hmask']
  rw [cut_eq (by omega), cut_eq (by omega), Nat.mod_eq_of_lt htop, hor]
  have hsub : EC_CODE_BITS - (s + 1) = 31 - s := by
    show 32 - (s + 1) = 31 - s
    omega
  rw [hsub]
  split
  · have hround := le_roundUp e.val (s - 1)
    have hexp : 31 - (31 - s + 1) = s - 1 := by omega
    dsimp only
    rw [hexp]
    exact ⟨by omega, Nat.dvd_mul_left _ _, hround.1, by omega⟩
  · rename_i hroom
    have hround := le_roundUp e.val s
    have hexp : 31 - (31 - s) = s := by omega
    dsimp only
    rw [hexp]
    exact ⟨by omega, Nat.dvd_mul_left _ _, hround.1, by omega⟩

theorem last_zero {last : Nat} (hdvd : 2 ^ 31 ∣ last)
    (h : Encodes { e with val := last, rng := 2 ^ 31 } i front rear) : last = 0 := by
  obtain ⟨k, hk⟩ := hdvd
  have htop : last + 2 ^ 31 < 2 ^ 32 := h.top
  omega

/-- The last value, with its bits: what is left of it goes out. -/
theorem Encodes.writeLast :
    ∀ {rounds l last : Nat} {e : RangeEncoder} {i : Interval} {front : Bytes}, l ≤ 8 * rounds →
      l ≤ 9 → 2 ^ (31 - l) ∣ last →
      Encodes { e with val := last, rng := 2 ^ (31 - l) } i front rear →
        ∃ e' i' front', RangeEncoder.writeLast rounds e l last = e' ∧
          Encodes { e' with val := 0, rng := 2 ^ 31 } i' front' rear ∧
          (∀ buf, i'.Holds (code buf) → i.Holds (code buf)) ∧ e'.endWindow = e.endWindow ∧
          e'.nendBits = e.nendBits
  | 0, l, last, e, i, front, hrounds, _, hdvd, h => by
      obtain rfl : l = 0 := by omega
      exact ⟨e, i, front, rfl, last_zero hdvd h ▸ h, fun _ hholds => hholds, rfl, rfl⟩
  | rounds + 1, l, last, e, i, front, hrounds, hl, hdvd, h => by
      unfold RangeEncoder.writeLast
      split
      · -- No more of the interval than one byte goes out.
        obtain ⟨w, hw⟩ : ∃ w, w = 31 - max l 8 := ⟨_, rfl⟩
        have hle : 2 ^ w ≤ 2 ^ (31 - l) := Nat.pow_le_pow_right (by decide) (by omega)
        have hbot : 2 ^ w ≤ 2 ^ 23 := Nat.pow_le_pow_right (by decide) (by omega)
        have hnarrow := h.narrow (Nat.le_refl (2 ^ (31 - l)))
          (show 2 ^ (31 - l) - 2 ^ w < 2 ^ (31 - l) from
            Nat.sub_lt (Nat.two_pow_pos _) (Nat.two_pow_pos _))
        have hlast : last < 2 ^ 32 := Nat.lt_of_le_of_lt (Nat.le_add_right _ _) h.top
        dsimp only at hnarrow
        rw [Nat.sub_self, Nat.add_zero, Nat.mod_eq_of_lt hlast, Nat.sub_sub_self hle] at hnarrow
        obtain ⟨front₁, hscale⟩ := hnarrow.scale (Nat.two_pow_pos w) hbot
        rw [carryOut_rest] at hscale
        have hnext : (2 ^ w <<< EC_SYM_BITS) % 2 ^ 32 = 2 ^ (31 - (l - 8)) := by
          show (2 ^ w <<< 8) % 2 ^ 32 = _
          rw [Nat.shiftLeft_eq, ← Nat.pow_add, Nat.mod_eq_of_lt (Nat.pow_lt_pow_right (by decide)
            (by omega))]
          congr 1
          omega
        dsimp only at hscale
        rw [hnext] at hscale
        have hdvd' : 2 ^ (31 - (l - 8)) ∣
            (last <<< EC_SYM_BITS) % 2 ^ 32 &&& (EC_CODE_TOP - 1) := by
          have htop : 2 ^ (31 - (l - 8)) ∣ 2 ^ 31 := Nat.pow_dvd_pow 2 (by omega)
          have hshift : 2 ^ (31 - (l - 8)) ∣ last * 2 ^ 8 := by
            have hmul : 2 ^ (31 - l + 8) ∣ last * 2 ^ 8 := by
              rw [Nat.pow_add]
              exact Nat.mul_dvd_mul_right hdvd _
            exact Nat.dvd_trans (Nat.pow_dvd_pow 2 (by omega)) hmul
          show _ ∣ (last <<< 8) % 2 ^ 32 &&& (2 ^ 31 - 1)
          rw [Nat.and_two_pow_sub_one_eq_mod, Nat.shiftLeft_eq,
            Nat.mod_mod_of_dvd _ (Nat.pow_dvd_pow 2 (show 31 ≤ 32 by omega))]
          exact (Nat.dvd_mod_iff htop).mpr hshift
        obtain ⟨e', i', front', heq, hcodes, hback, hwindow, hbits⟩ :=
          Encodes.writeLast (show l - 8 ≤ 8 * rounds by omega) (by omega) hdvd' hscale
        obtain ⟨_, _, _, _, _, hcarry⟩ := carryOut_eq e (last >>> EC_CODE_SHIFT)
        refine ⟨e', i', front', heq, hcodes, fun buf hholds => ?_, ?_, ?_⟩
        · refine Interval.holds_of_narrow ?_ ?_
            (Interval.holds_of_scale (code_digits buf) (hback buf hholds))
          · rw [← h.width]
          · exact Nat.sub_le _ _
        · rw [hwindow, hcarry]
        · rw [hbits, hcarry]
      · rename_i hzero
        obtain rfl : l = 0 := by omega
        exact ⟨e, i, front, rfl, last_zero hdvd h ▸ h, fun _ hholds => hholds, rfl, rfl⟩

/-- What waits goes out; the byte that is held then is not part of the stream. -/
theorem Encodes.flush (h : Encodes { e with val := 0, rng := 2 ^ 31 } i front rear) :
    ∃ e' front', (if e.rem.isSome ∨ e.ext > 0 then e.carryOut 0 else e) = e' ∧
      Emits e' front' rear ∧ i = ⟨fromBE front' * 2 ^ 31, 2 ^ 31, front'.length + 3⟩ ∧
      e'.endWindow = e.endWindow ∧ e'.nendBits = e.nendBits := by
  have hlow : i.low + 2 ^ 31 = digits e front * 2 ^ 31 + 0 := h.low
  have hplace : i.place = count e front + 3 := h.place
  have hwidth : 2 ^ 31 = i.width := h.width
  obtain ⟨low, width, place⟩ := i
  have hemits : Emits e front rear := h.emits.rest e.endWindow e.nendBits e.rng e.val e.ext e.rem
  split
  · obtain ⟨front', hemits', hcount, hdigits, hrem⟩ :=
      carryOut_digits hemits (c := 0) (by omega) (fun hhigh => by omega)
    obtain ⟨hrem, hext⟩ : _ ∧ _ := by simpa using hrem
    have hheld : (e.carryOut 0).held = [0] := by
      unfold RangeEncoder.held
      rw [hrem]
      rfl
    unfold count at hcount
    unfold digits at hdigits
    rw [hheld, hext, List.length_append, List.length_singleton] at hcount
    rw [hheld, hext, fromBE_concat, UInt8.toNat_zero, Nat.pow_zero] at hdigits
    obtain ⟨_, _, _, _, _, hcarry⟩ := carryOut_eq e 0
    refine ⟨_, front', rfl, hemits', ?_, by rw [hcarry], by rw [hcarry]⟩
    unfold digits at hlow
    unfold count at hplace
    dsimp only [RangeEncoder.held] at hlow hplace hwidth hdigits hcount
    congr 1 <;> omega
  · rename_i hnone
    obtain ⟨hrem, hext⟩ : e.rem = none ∧ e.ext = 0 := by simpa using hnone
    refine ⟨e, front, rfl, hemits, ?_, rfl, rfl⟩
    have hheld : e.held = [] := by
      unfold RangeEncoder.held
      rw [hrem]
      rfl
    have hnumber : digits e front = fromBE front + 1 := by
      unfold digits
      rw [hheld, hext, List.append_nil, Nat.pow_zero, Nat.mul_one]
    have hlength : count e front = front.length := by
      unfold count
      rw [hheld, hext, List.append_nil, Nat.add_zero]
    dsimp only at hlow hplace hwidth
    congr 1 <;> omega

/-- The code of a buffer lies in the interval of the bytes at its front. -/
theorem holds_front {front buf : Bytes} (h : front <+: buf) :
    Interval.Holds (code buf) ⟨fromBE front * 2 ^ 31, 2 ^ 31, front.length + 3⟩ := by
  obtain ⟨rest, rfl⟩ := h
  obtain ⟨tail, htail, heq⟩ := spelled_add (fun k => (front ++ rest).getD k 0) front.length 4
  have hfront : spelled (fun k => (front ++ rest).getD k 0) front.length = fromBE front :=
    spelled_of_front _ _ fun k hk => List.getD_append _ _ _ _ hk
  rw [hfront] at heq
  have hcode : code (front ++ rest) (front.length + 3) = (fromBE front * 256 ^ 4 + tail) / 2 := by
    unfold code
    rw [heq]
  constructor
  · show fromBE front * 2 ^ 31 ≤ code (front ++ rest) (front.length + 3)
    rw [hcode]
    omega
  · show code (front ++ rest) (front.length + 3) < _
    rw [hcode]
    dsimp only
    omega

/-- The low bits of a string are those of its end, and then those of what stands before. -/
theorem fromBE_mod (xs rear : Bytes) {q window used : Nat} (hxs : fromBE xs = q * 2 ^ used + window)
    (hsmall : window < 2 ^ used) :
    fromBE (xs ++ rear) % 2 ^ (8 * rear.length + used) =
      fromBE rear + 256 ^ rear.length * window := by
  have hpow : 2 ^ (8 * rear.length + used) = 256 ^ rear.length * 2 ^ used := by
    rw [Nat.pow_add, Nat.pow_mul]
  have hrear := fromBE_lt rear
  have hlt : fromBE rear + 256 ^ rear.length * window < 256 ^ rear.length * 2 ^ used := by
    calc fromBE rear + 256 ^ rear.length * window
        < 256 ^ rear.length + 256 ^ rear.length * window := by omega
      _ = 256 ^ rear.length * (window + 1) := by ring
      _ ≤ 256 ^ rear.length * 2 ^ used := Nat.mul_le_mul_left _ hsmall
  have hsum : fromBE (xs ++ rear) =
      fromBE rear + 256 ^ rear.length * window + 256 ^ rear.length * 2 ^ used * q := by
    rw [fromBE_append, hxs]
    ring
  rw [hsum, hpow, Nat.add_mul_mod_self_left, Nat.mod_eq_of_lt hlt]

/-- The buffer is put together. -/
theorem merge_spec {window used : Nat} (h : Emits e front rear) (hsmall : window < 2 ^ used)
    (hused : used < 8) (herr : (e.merge window used).err = false) :
    (e.merge window used).offs = front.length ∧ (e.merge window used).endOffs = rear.length ∧
      ∃ mid, (e.merge window used).buf = front ++ mid ++ rear ∧
        fromBE (front ++ mid ++ rear) % 2 ^ (8 * rear.length + used) =
          fromBE rear + 256 ^ rear.length * window := by
  unfold merge at herr ⊢
  split at herr
  · rename_i hbad
    rw [hbad] at herr
    cases herr
  rename_i hgood
  have hnow := h (by simpa using hgood)
  obtain ⟨gap, hgap⟩ : ∃ gap, gap = e.storage - e.endOffs - e.offs := ⟨_, rfl⟩
  have hbuf : e.buf.take e.offs ++ List.replicate gap 0 ++ e.buf.drop (e.offs + gap) =
      front ++ List.replicate gap 0 ++ rear := by
    have hat : e.offs + gap = e.storage - rear.length := by
      rw [hgap, hnow.offs, hnow.endOffs]
      have := hnow.fits
      omega
    rw [hat, hnow.drop, hnow.offs, hnow.take]
  rw [if_neg hgood]
  dsimp only at herr ⊢
  rw [← hgap, hbuf] at herr ⊢
  split at herr
  · rename_i hsome
    rw [if_pos hsome]
    split at herr
    · cases herr
    · rename_i hroom
      rw [if_neg hroom]
      -- The last raw bits go into the last zero.
      obtain ⟨g, rfl⟩ : ∃ g, gap = g + 1 := ⟨gap - 1, by omega⟩
      have hfits := hnow.fits
      have hat : e.storage - e.endOffs - 1 = (front ++ List.replicate g 0).length := by
        rw [List.length_append, List.length_replicate]
        rw [hnow.offs, hnow.endOffs] at hgap
        rw [hnow.endOffs]
        omega
      have hzero : front ++ List.replicate (g + 1) 0 ++ rear =
          (front ++ List.replicate g 0) ++ ((0 : UInt8) :: rear) := by
        rw [List.replicate_succ']
        simp only [List.append_assoc, List.singleton_append]
      have hbyte : (0 : UInt8) ||| UInt8.ofNat window = UInt8.ofNat window := UInt8.zero_or
      have hset : (front ++ List.replicate (g + 1) 0 ++ rear).set (e.storage - e.endOffs - 1)
          ((front ++ List.replicate (g + 1) 0 ++ rear).getD (e.storage - e.endOffs - 1) 0 |||
            UInt8.ofNat window) =
          front ++ (List.replicate g 0 ++ [UInt8.ofNat window]) ++ rear := by
        rw [hzero, hat, List.getD_append_right _ _ _ _ (Nat.le_refl _), Nat.sub_self,
          List.getD_cons_zero, hbyte, List.set_append_right _ _ (Nat.le_refl _), Nat.sub_self,
          List.set_cons_zero]
        simp only [List.append_assoc, List.singleton_append]
      refine ⟨hnow.offs, hnow.endOffs, List.replicate g 0 ++ [UInt8.ofNat window], hset, ?_⟩
      have hwindow : window < 2 ^ 8 :=
        Nat.lt_trans hsmall (Nat.pow_lt_pow_right (by decide) hused)
      refine fromBE_mod _ rear (q := fromBE (front ++ List.replicate g 0) * 2 ^ (8 - used)) ?_ hsmall
      rw [← List.append_assoc, fromBE_concat, UInt8.toNat_ofNat', Nat.mod_eq_of_lt hwindow,
        Nat.mul_assoc, ← Nat.pow_add, Nat.sub_add_cancel (Nat.le_of_lt hused)]
  · rename_i hnone
    obtain rfl : used = 0 := by omega
    obtain rfl : window = 0 := by simpa using hsmall
    rw [if_neg hnone]
    have hzeros := fromBE_mod (front ++ List.replicate gap 0) rear
      (by rw [Nat.pow_zero, Nat.mul_one, Nat.add_zero]) hsmall
    exact ⟨hnow.offs, hnow.endOffs, List.replicate gap 0, rfl, hzeros⟩

/-- The state stands for the interval and the raw bits of a mark. -/
structure Tracks (e : RangeEncoder) (m : Mark) : Prop where
  stands : ∃ front rear, Encodes e m.interval front rear ∧ RawBits e rear m.raw m.bits
  low : 2 ^ 23 < m.interval.width
  high : m.interval.width ≤ 2 ^ 31

/-- **What `done` leaves is read as it was written**, whatever follows the front. -/
theorem finish_spec {m : Mark} (h : Tracks e m) (herr : e.finish.err = false) :
    ∃ front rest, e.finish.buf = front ++ rest ∧ e.finish.offs = front.length ∧
      (∀ buf, front <+: buf → m.interval.Holds (code buf)) ∧
      fromBE e.finish.buf % 2 ^ m.bits = m.raw ∧
      (m.bits = 0 → m.raw = 0 ∧ e.finish.endOffs = 0) := by
  obtain ⟨front, rear, hcodes, hraw⟩ := h.stands
  obtain ⟨hl, hdvd, hle, hroom⟩ :=
    lastBits_spec (hcodes.width ▸ h.low) (hcodes.width ▸ h.high) hcodes.top
  obtain ⟨l, last, hlast⟩ : ∃ l last, e.lastBits = (l, last) := ⟨_, _, rfl⟩
  rw [hlast] at hl hdvd hle hroom
  dsimp only at hl hdvd hle hroom
  have htop := hcodes.top
  have hpos : 0 < 2 ^ (31 - l) := Nat.two_pow_pos _
  -- The part of the interval that the last bits name.
  have hpart := hcodes.narrow (Nat.sub_le e.rng (last - e.val))
    (show e.rng - (last - e.val) - 2 ^ (31 - l) < e.rng - (last - e.val) by omega)
  rw [show (e.val + (e.rng - (e.rng - (last - e.val)))) % 2 ^ 32 = last by omega,
    show e.rng - (last - e.val) - (e.rng - (last - e.val) - 2 ^ (31 - l)) = 2 ^ (31 - l) by omega]
    at hpart
  obtain ⟨e₁, i₁, front₁, heq₁, hcodes₁, hback, hwindow₁, hbits₁⟩ :=
    Encodes.writeLast (show l ≤ 8 * l by omega) hl hdvd hpart
  obtain ⟨e₂, front₂, heq₂, hemits₂, hfront₂, hwindow₂, hbits₂⟩ := hcodes₁.flush
  obtain ⟨buf, endOffs, err, window, used, rear₃, heq₃, hemits₃, hbits₃, hvalue₃, hsmall₃,
      hused₃⟩ :=
    flushWindow_spec e₂.nendBits e₂.endWindow e₂.nendBits hemits₂
      (by rw [hwindow₂, hwindow₁, hbits₂, hbits₁]; exact hraw.small) (by omega)
  have hfinish : e.finish =
      RangeEncoder.merge { e₂ with buf := buf, endOffs := endOffs, err := err } window used := by
    unfold finish
    rw [hlast]
    dsimp only
    rw [heq₁, heq₂, heq₃]
  rw [hfinish] at herr ⊢
  obtain ⟨hoffs, hend, mid, hbuf, hmod⟩ := merge_spec hemits₃ hsmall₃ hused₃ herr
  have hbits : m.bits = 8 * rear₃.length + used := by
    rw [hbits₃, hbits₂, hbits₁, hraw.bits]
  have hvalue : m.raw = fromBE rear₃ + 256 ^ rear₃.length * window := by
    rw [hvalue₃, hwindow₂, hwindow₁, hraw.value]
  refine ⟨front₂, mid ++ rear₃, by rw [hbuf, List.append_assoc], hoffs, ?_, ?_, ?_⟩
  · intro buf hprefix
    have hholds := hback buf (hfront₂ ▸ holds_front hprefix)
    exact Interval.holds_of_narrow (by rw [← hcodes.width]; exact Nat.sub_le _ _) (Nat.sub_le _ _)
      hholds
  · rw [hbuf, hbits, hmod, hvalue]
  · intro hnone
    obtain ⟨hrear, hzero⟩ : rear₃ = [] ∧ used = 0 := by
      have hlength : rear₃.length = 0 := by omega
      exact ⟨List.length_eq_zero_iff.mp hlength, by omega⟩
    subst hrear hzero
    obtain rfl : window = 0 := by simpa using hsmall₃
    exact ⟨by simpa using hvalue, hend⟩

/-! ## 6. The steps of a mark -/

/-- A part of the interval, made wide again. -/
def Mark.part (m : Mark) (lower upper : Nat) : Mark :=
  { m with interval := (m.interval.narrow lower upper).renew 256 (2 ^ 23) 4 }

/-- `n` raw bits more. -/
def Mark.push (m : Mark) (fl n : Nat) : Mark := ⟨m.interval, m.raw + fl * 2 ^ m.bits, m.bits + n⟩

variable {m : Mark}

theorem Tracks.rng (h : Tracks e m) : e.rng = m.interval.width := by
  obtain ⟨front, rear, hcodes, _⟩ := h.stands
  exact hcodes.width

theorem Tracks.val_lt (h : Tracks e m) : e.val < 2 ^ 32 := by
  obtain ⟨front, rear, hcodes, _⟩ := h.stands
  exact Nat.lt_of_le_of_lt (Nat.le_add_right _ _) hcodes.top

theorem Tracks.raw_lt (h : Tracks e m) : m.raw < 2 ^ m.bits := by
  obtain ⟨front, rear, _, hraw⟩ := h.stands
  have hrear := fromBE_lt rear
  rw [hraw.value, hraw.bits, Nat.pow_add, Nat.pow_mul]
  calc fromBE rear + 256 ^ rear.length * e.endWindow
      < 256 ^ rear.length + 256 ^ rear.length * e.endWindow := by omega
    _ = 256 ^ rear.length * (e.endWindow + 1) := by ring
    _ ≤ 256 ^ rear.length * 2 ^ e.nendBits := Nat.mul_le_mul_left _ hraw.small

theorem normalize_raw (rounds : Nat) (e : RangeEncoder) :
    (normalize rounds e).endWindow = e.endWindow ∧ (normalize rounds e).nendBits = e.nendBits := by
  induction rounds generalizing e with
  | zero => exact ⟨rfl, rfl⟩
  | succ rounds ih =>
      unfold RangeEncoder.normalize
      split
      · obtain ⟨_, _, _, _, _, hcarry⟩ := carryOut_eq e (e.val >>> EC_CODE_SHIFT)
        obtain ⟨hwindow, hbits⟩ := ih
          { e.carryOut (e.val >>> EC_CODE_SHIFT) with
            val := (e.val <<< EC_SYM_BITS) % 2 ^ 32 &&& (EC_CODE_TOP - 1)
            rng := (e.rng <<< EC_SYM_BITS) % 2 ^ 32 }
        rw [hwindow, hbits, hcarry]
        exact ⟨rfl, rfl⟩
      · exact ⟨rfl, rfl⟩

/-- **A symbol takes a part of the interval.** -/
theorem Tracks.part (h : Tracks e m) {lower upper : Nat} (hlower : lower < upper)
    (hupper : upper ≤ e.rng) :
    Tracks
      (normalize 4 { e with val := (e.val + (e.rng - upper)) % 2 ^ 32, rng := upper - lower })
      (m.part lower upper) := by
  obtain ⟨front, rear, hcodes, hraw⟩ := h.stands
  obtain ⟨front', hcodes'⟩ :=
    (hcodes.narrow hupper hlower).renew (n := 4) (Nat.sub_pos_of_lt hlower)
  obtain ⟨hwindow, hbits⟩ := normalize_raw 4
    { e with val := (e.val + (e.rng - upper)) % 2 ^ 32, rng := upper - lower }
  have hrng := h.rng
  have hhigh := h.high
  exact
    { stands := by
        refine ⟨front', rear, hcodes', ⟨?_, ?_, ?_, ?_⟩⟩
        · rw [hbits]
          exact hraw.bits
        · rw [hwindow]
          exact hraw.value
        · rw [hwindow, hbits]
          exact hraw.small
        · rw [hbits]
          exact hraw.window
      low := by
        refine Interval.lt_width_renew ?_
        show 2 ^ 23 < (upper - lower) * 256 ^ 4
        omega
      high := by
        refine Interval.width_renew_le (by decide) ?_
        show upper - lower ≤ 2 ^ 31
        omega }

theorem Tracks.push (h : Tracks e m) {fl n : Nat} (hfl : fl < 2 ^ n) (hn : n ≤ 25) :
    Tracks (e.bitsN fl n) (m.push fl n) := by
  obtain ⟨front, rear, hcodes, hraw⟩ := h.stands
  obtain ⟨rear', hcodes', hraw', _⟩ := hraw.bitsN hcodes hfl hn
  exact ⟨⟨front, rear', hcodes', hraw'⟩, h.low, h.high⟩

theorem Mark.in_of_part {buf : Bytes} {lower upper : Nat} (hupper : upper ≤ m.interval.width)
    (hlower : lower ≤ upper) (h : (m.part lower upper).In buf) : m.In buf where
  holds :=
    Interval.holds_of_narrow hupper hlower (Interval.holds_of_renew (code_digits buf) h.holds)
  raw := h.raw

theorem Mark.in_of_push {buf : Bytes} {fl n : Nat} (hraw : m.raw < 2 ^ m.bits)
    (h : (m.push fl n).In buf) : m.In buf where
  holds := h.holds
  raw := by
    have hall : fromBE buf % 2 ^ (m.bits + n) = m.raw + fl * 2 ^ m.bits := h.raw
    rw [← Nat.mod_mod_of_dvd _ (Nat.pow_dvd_pow 2 (Nat.le_add_right m.bits n)), hall,
      Nat.add_mul_mod_self_right, Nat.mod_eq_of_lt hraw]

/-- Before the first symbol. -/
def Mark.start : Mark := ⟨⟨0, 2 ^ 31, 3⟩, 0, 0⟩

theorem tracks_reset (h : e.buf.length = e.storage) : Tracks e.reset Mark.start where
  stands :=
    ⟨[], [],
      { emits := fun _ =>
          { offs := rfl
            endOffs := rfl
            room := h
            fits := Nat.zero_le _
            take := rfl
            drop := by
              show e.buf.drop (e.storage - 0) = []
              apply List.drop_eq_nil_of_le
              rw [h, Nat.sub_zero] }
        width := rfl
        place := rfl
        low := by
          have hdigits : digits e.reset [] = 1 := rfl
          rw [hdigits]
          show 0 + 2 ^ 31 = 1 * 2 ^ 31 + 0
          omega
        top := by
          show 0 + 2 ^ 31 < 2 ^ 32
          omega
        carry := by
          intro hhigh
          have hhigh' : 2 ^ 31 < 0 + 2 ^ 31 := hhigh
          omega },
      ⟨rfl, rfl, Nat.one_pos, Nat.zero_le _⟩⟩
  low := by
    show 2 ^ 23 < 2 ^ 31
    omega
  high := Nat.le_refl _

end Ruwa.Call
