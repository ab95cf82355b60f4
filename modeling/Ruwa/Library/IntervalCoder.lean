/-
  File:      Ruwa/Library/IntervalCoder.lean
  Subject:   INTERVAL CODING. A code is read digit by digit, and symbols are parts of intervals.

  A coder keeps an interval of the codes that may still be written. A symbol takes a part of it, and
  an interval that is narrow gets one more digit. A reader keeps only what is left above the code.

  * `Interval` -- its steps: `narrow`, `scale`, and `renew`, which scales until it is wide;
  * `Holds` -- the code lies in the interval; **a code of a later interval is one of the earlier**
    (`holds_of_narrow`, `holds_of_scale`, `holds_of_renew`);
  * `Left` -- what is left above the code, followed through each step (`Left.narrow`,
    `Left.scale`); it tells the part that was taken (`Left.between`);
  * `spelled` -- the number in front of a stream of bytes;
  * `fromBE_ones`, `fromBE_zeros` -- digits that wait for a carry, and digits after one.
-/
import Mathlib.Algebra.Order.Ring.Nat
import Mathlib.Data.List.GetD
import Mathlib.Data.List.Induction
import Mathlib.Tactic.Ring
import Ruwa.Library.Bytes

namespace Ruwa.Library

/-! ## 1. Intervals of codes -/

/-- The codes from `low` on, `width` of them, with `place` digits more than at the start. -/
structure Interval where
  low : Nat
  width : Nat
  place : Nat

namespace Interval

/-- The part from `lower` to `upper`, both counted from above. -/
def narrow (i : Interval) (lower upper : Nat) : Interval :=
  { i with low := i.low + (i.width - upper), width := upper - lower }

/-- One more digit. -/
def scale (base : Nat) (i : Interval) : Interval := ⟨i.low * base, i.width * base, i.place + 1⟩

/-- More digits until the interval is wider than `bot`. -/
def renew (base bot : Nat) : Nat → Interval → Interval
  | 0, i => i
  | rounds + 1, i => if i.width ≤ bot then renew base bot rounds (i.scale base) else i

/-- The code at the place of the interval lies in it. -/
structure Holds (code : Nat → Nat) (i : Interval) : Prop where
  low_le : i.low ≤ code i.place
  lt : code i.place < i.low + i.width

/-- Each place of the code has one digit more than the place before. -/
def Digits (base : Nat) (code digit : Nat → Nat) : Prop :=
  ∀ n, digit n < base ∧ code (n + 1) = code n * base + digit n

/-- What is left in the interval above the code. -/
def Left (code : Nat → Nat) (i : Interval) (v : Nat) : Prop :=
  code i.place + v + 1 = i.low + i.width

variable {code digit : Nat → Nat} {base bot top : Nat} {i : Interval} {lower upper v : Nat}

theorem holds_of_narrow (hupper : upper ≤ i.width) (hlower : lower ≤ upper)
    (h : Holds code (i.narrow lower upper)) : Holds code i where
  low_le := Nat.le_trans (Nat.le_add_right _ _) h.low_le
  lt := by
    have hlt : code i.place < i.low + (i.width - upper) + (upper - lower) := h.lt
    omega

theorem holds_of_scale (hdigits : Digits base code digit) (h : Holds code (i.scale base)) :
    Holds code i := by
  obtain ⟨hdigit, hnext⟩ := hdigits i.place
  have hlow : i.low * base ≤ code (i.place + 1) := h.low_le
  have hlt : code (i.place + 1) < i.low * base + i.width * base := h.lt
  rw [hnext] at hlow hlt
  constructor
  · have hbelow : i.low * base < (code i.place + 1) * base := by
      rw [Nat.add_mul]
      omega
    exact Nat.lt_succ_iff.mp (Nat.lt_of_mul_lt_mul_right hbelow)
  · have habove : code i.place * base < (i.low + i.width) * base := by
      rw [Nat.add_mul]
      omega
    exact Nat.lt_of_mul_lt_mul_right habove

theorem holds_of_renew (hdigits : Digits base code digit) :
    ∀ {rounds : Nat} {i : Interval}, Holds code (renew base bot rounds i) → Holds code i
  | 0, _, h => h
  | rounds + 1, i, h => by
      unfold renew at h
      split at h
      · exact holds_of_scale hdigits (holds_of_renew hdigits h)
      · exact h

/-- Enough rounds make the interval wide. -/
theorem lt_width_renew : ∀ {rounds : Nat} {i : Interval}, bot < i.width * base ^ rounds →
    bot < (renew base bot rounds i).width
  | 0, i, h => by simpa [renew] using h
  | rounds + 1, i, h => by
      unfold renew
      split
      · apply lt_width_renew
        rwa [scale, Nat.mul_assoc, ← Nat.pow_succ']
      · omega

/-- No round makes it too wide. -/
theorem width_renew_le (htop : bot * base ≤ top) : ∀ {rounds : Nat} {i : Interval},
    i.width ≤ top → (renew base bot rounds i).width ≤ top
  | 0, _, h => h
  | rounds + 1, i, h => by
      unfold renew
      split
      · rename_i hnarrow
        exact width_renew_le htop (Nat.le_trans (Nat.mul_le_mul_right base hnarrow) htop)
      · exact h

theorem Left.lt_width (h : Left code i v) (hholds : Holds code i) : v < i.width := by
  have hlow := hholds.low_le
  unfold Left at h
  omega

/-- **What is left tells the part** that the code lies in. -/
theorem Left.between (h : Left code i v) (hupper : upper ≤ i.width) (hlower : lower ≤ upper)
    (hholds : Holds code (i.narrow lower upper)) : lower ≤ v ∧ v < upper := by
  have hlow : i.low + (i.width - upper) ≤ code i.place := hholds.low_le
  have hlt : code i.place < i.low + (i.width - upper) + (upper - lower) := hholds.lt
  unfold Left at h
  omega

theorem Left.narrow (h : Left code i v) (hupper : upper ≤ i.width) (hlower : lower ≤ v)
    (hle : lower ≤ upper) : Left code (i.narrow lower upper) (v - lower) := by
  show code i.place + (v - lower) + 1 = i.low + (i.width - upper) + (upper - lower)
  unfold Left at h
  omega

theorem Left.scale (hdigits : Digits base code digit) (h : Left code i v) :
    Left code (i.scale base) (v * base + (base - 1 - digit i.place)) := by
  obtain ⟨hdigit, hnext⟩ := hdigits i.place
  show code (i.place + 1) + _ + 1 = i.low * base + i.width * base
  have hsum : (code i.place + v + 1) * base = (i.low + i.width) * base := by
    rw [show code i.place + v + 1 = i.low + i.width from h]
  rw [hnext]
  rw [Nat.add_mul, Nat.add_mul, Nat.one_mul, Nat.add_mul] at hsum
  omega

end Interval

/-! ## 2. Numbers in front of a stream, and at the end of a string -/

/-- The number that the first bytes of a stream spell. -/
def spelled (byte : Nat → UInt8) : Nat → Nat
  | 0 => 0
  | n + 1 => spelled byte n * 256 + (byte n).toNat

theorem spelled_of_front (byte : Nat → UInt8) (bs : Bytes)
    (h : ∀ k < bs.length, byte k = bs.getD k 0) : spelled byte bs.length = fromBE bs := by
  induction bs using List.reverseRecOn with
  | nil => rfl
  | append_singleton bs b ih =>
      have hfront : ∀ k < bs.length, byte k = bs.getD k 0 := by
        intro k hk
        rw [h k (by simp; omega), List.getD_append _ _ _ _ hk]
      have hlast : byte bs.length = b := by
        rw [h bs.length (by simp), List.getD_append_right _ _ _ _ (Nat.le_refl _)]
        simp
      rw [List.length_append, List.length_singleton, spelled, ih hfront, hlast, fromBE_concat]

/-- What follows the first bytes is less than one of them. -/
theorem spelled_add (byte : Nat → UInt8) (n k : Nat) :
    ∃ rest < 256 ^ k, spelled byte (n + k) = spelled byte n * 256 ^ k + rest := by
  induction k with
  | zero => exact ⟨0, by simp, by simp⟩
  | succ k ih =>
      obtain ⟨rest, hrest, heq⟩ := ih
      have hbyte := (byte (n + k)).toNat_lt
      refine ⟨rest * 256 + (byte (n + k)).toNat, ?_, ?_⟩
      · rw [Nat.pow_succ]
        omega
      · rw [← Nat.add_assoc, spelled, heq, Nat.pow_succ]
        ring

@[simp] theorem fromBE_singleton (b : UInt8) : fromBE [b] = b.toNat := by simp [fromBE]

theorem fromBE_append (xs ys : Bytes) :
    fromBE (xs ++ ys) = fromBE xs * 256 ^ ys.length + fromBE ys := by
  induction ys using List.reverseRecOn with
  | nil => simp
  | append_singleton ys b ih =>
      rw [← List.append_assoc, fromBE_concat, ih, fromBE_concat, List.length_append,
        List.length_singleton, Nat.pow_succ]
      ring

theorem fromBE_lt (bs : Bytes) : fromBE bs < 256 ^ bs.length := by
  induction bs using List.reverseRecOn with
  | nil => simp
  | append_singleton bs b ih =>
      have hb := b.toNat_lt
      rw [fromBE_concat, List.length_append, List.length_singleton, Nat.pow_succ]
      omega

/-- The bytes of a string from its end are the digits of its number from below. -/
theorem fromBE_digit (bs : Bytes) (k : Nat) :
    fromBE bs / 256 ^ k % 256 = (bs.reverse.getD k 0).toNat := by
  induction bs using List.reverseRecOn generalizing k with
  | nil => simp
  | append_singleton bs b ih =>
      have hb := b.toNat_lt
      rw [fromBE_concat, List.reverse_append, List.reverse_singleton, List.singleton_append]
      cases k with
      | zero =>
          rw [Nat.pow_zero, Nat.div_one, List.getD_cons_zero]
          omega
      | succ k =>
          rw [List.getD_cons_succ, ← ih k, Nat.pow_succ', ← Nat.div_div_eq_div_mul]
          congr 2
          omega

/-! ## 3. Digits that wait for a carry -/

/-- The largest digits go over into the next number of digits before them. -/
theorem fromBE_ones (bs : Bytes) (n : Nat) :
    fromBE (bs ++ List.replicate n 255) + 1 = (fromBE bs + 1) * 256 ^ n := by
  induction n with
  | zero => simp
  | succ n ih =>
      rw [List.replicate_succ', ← List.append_assoc, fromBE_concat, Nat.pow_succ, ← Nat.mul_assoc,
        ← ih]
      show _ * 256 + 255 + 1 = _
      omega

theorem fromBE_zeros (bs : Bytes) (n : Nat) :
    fromBE (bs ++ List.replicate n 0) = fromBE bs * 256 ^ n := by
  induction n with
  | zero => simp
  | succ n ih =>
      rw [List.replicate_succ', ← List.append_assoc, fromBE_concat, ih, Nat.pow_succ,
        ← Nat.mul_assoc]
      exact Nat.add_zero _

end Ruwa.Library
