/-
  File:      Ruwa/Call/RangeDecoding.lean
  Subject:   HOW THE RANGE DECODER FOLLOWS. Over a buffer that agrees with what was written, its
             state is what is left of the encoder's interval above the code, and of the raw bits.

  * `Reads` -- the interval's width, what is left above the code, and where the next byte stands;
    a digit more is a byte more (`Reads.scale`, `Reads.renew`);
  * `ReadsRaw` -- the window on the raw bits; **the next ones are at its low end**
    (`ReadsRaw.bitsN`);
  * `Follows` -- both, with no error; `follows_new`, `Follows.part`, `Follows.push`.
-/
import Ruwa.Call.RangeEncoding

namespace Ruwa.Call

open Ruwa.Library
open RangeDecoder

variable {buf : Bytes} {d : RangeDecoder} {i : Interval} {m : Mark}

/-! ## 1. The front of the buffer -/

/-- The decoder is at the interval. -/
structure Reads (buf : Bytes) (d : RangeDecoder) (i : Interval) : Prop where
  source : d.buf = buf
  rng : d.rng = i.width
  left : i.Left (code buf) d.val
  rem : d.rem = (buf.getD i.place 0).toNat
  offs : d.offs = min (i.place + 1) buf.length

/-- The next byte, or zero past the end. -/
theorem readByte_eq (hbuf : d.buf = buf) {n : Nat} (hoffs : d.offs = min n buf.length) :
    d.readByte = ((buf.getD n 0).toNat, { d with offs := min (n + 1) buf.length }) := by
  subst hbuf
  unfold readByte
  rw [hoffs]
  split
  · rename_i hlt
    have hn : min n d.buf.length = n := by omega
    have hnext : min (n + 1) d.buf.length = n + 1 := by omega
    rw [hn, hnext]
  · rename_i hge
    have hout : d.buf.length ≤ n := by omega
    have hnext : min (n + 1) d.buf.length = d.offs := by omega
    rw [List.getD_eq_default _ _ hout, hnext]
    rfl

/-- What the bits that come in make of the value. -/
theorem shift_in {val sym : Nat} (hval : val < 2 ^ 23) :
    ((val <<< EC_SYM_BITS) % 2 ^ 32 + (EC_SYM_MAX - sym % 256)) % 2 ^ 32 &&& (EC_CODE_TOP - 1) =
      val * 256 + (256 - 1 - sym % 256) := by
  show ((val <<< 8) % 2 ^ 32 + (255 - sym % 256)) % 2 ^ 32 &&& (2 ^ 31 - 1) = _
  rw [Nat.and_two_pow_sub_one_eq_mod, Nat.shiftLeft_eq]
  omega

/-- **A byte more**: what the loop of `normalize` does in a round. -/
theorem Reads.scale (h : Reads buf d i) (hholds : i.Holds (code buf)) (hbot : d.rng ≤ 2 ^ 23) :
    Reads buf
      { d with
        rng := (d.rng <<< EC_SYM_BITS) % 2 ^ 32
        offs := min (i.place + 2) buf.length
        rem := (buf.getD (i.place + 1) 0).toNat
        val := ((d.val <<< EC_SYM_BITS) % 2 ^ 32 + (EC_SYM_MAX -
          ((d.rem <<< EC_SYM_BITS ||| (buf.getD (i.place + 1) 0).toNat) >>>
            (EC_SYM_BITS - EC_CODE_EXTRA)) % 256)) % 2 ^ 32 &&& (EC_CODE_TOP - 1) }
      (i.scale 256) := by
  have hlt := h.left.lt_width hholds
  rw [← h.rng] at hlt
  have hsym : ((d.rem <<< EC_SYM_BITS ||| (buf.getD (i.place + 1) 0).toNat) >>>
      (EC_SYM_BITS - EC_CODE_EXTRA)) % 256 = digit buf i.place := by
    show ((d.rem <<< 8 ||| (buf.getD (i.place + 1) 0).toNat) >>> 1) % 256 = _
    rw [shiftLeft_or_byte, h.rem, Nat.shiftRight_eq_div_pow]
    rfl
  have hdigit : digit buf i.place % 256 = digit buf i.place := Nat.mod_mod _ _
  rw [hsym, ← hdigit, shift_in (by omega), hdigit]
  exact
    { source := h.source
      rng := by
        show (d.rng <<< 8) % 2 ^ 32 = i.width * 256
        rw [Nat.shiftLeft_eq, ← h.rng]
        omega
      left := h.left.scale (code_digits buf)
      rem := rfl
      offs := rfl }

theorem Reads.renew : ∀ {n : Nat} {d : RangeDecoder} {i : Interval}, Reads buf d i →
    (i.renew 256 (2 ^ 23) n).Holds (code buf) →
      Reads buf (normalize n d) (i.renew 256 (2 ^ 23) n)
  | 0, _, _, h, _ => h
  | rounds + 1, d, i, h, hholds => by
      unfold RangeDecoder.normalize
      unfold Interval.renew at hholds ⊢
      rw [← h.rng] at hholds ⊢
      have hread := readByte_eq h.source h.offs
      show Reads buf (if d.rng ≤ 2 ^ 23 then _ else _) (if d.rng ≤ 2 ^ 23 then _ else _)
      split
      · rename_i hbot
        rw [if_pos hbot] at hholds
        have hnow := Interval.holds_of_scale (code_digits buf)
          (Interval.holds_of_renew (code_digits buf) hholds)
        rw [hread]
        exact (h.scale hnow hbot).renew hholds
      · exact h

/-- The loop leaves the rest of the state alone. -/
theorem normalize_eq (rounds : Nat) (d : RangeDecoder) :
    ∃ offs rng val rem, normalize rounds d =
      { d with offs := offs, rng := rng, val := val, rem := rem } := by
  induction rounds generalizing d with
  | zero => exact ⟨d.offs, d.rng, d.val, d.rem, rfl⟩
  | succ rounds ih =>
      unfold RangeDecoder.normalize
      split
      · obtain ⟨offs, hread⟩ : ∃ offs, d.readByte = (d.readByte.1, { d with offs := offs }) := by
          unfold readByte
          split
          · exact ⟨_, rfl⟩
          · exact ⟨d.offs, rfl⟩
        rw [hread]
        exact ih _
      · exact ⟨d.offs, d.rng, d.val, d.rem, rfl⟩

/-! ## 2. Raw bits -/

/-- The decoder is behind the first `t` raw bits, with some of the next in its window. -/
def ReadsRaw (buf : Bytes) (d : RangeDecoder) (t : Nat) : Prop :=
  ∃ k, d.endOffs = min k buf.length ∧ t + d.nendBits = 8 * k ∧
    d.endWindow = fromBE buf % 2 ^ (8 * k) / 2 ^ t

/-- The next byte from the end, or zero. -/
theorem readByteFromEnd_eq (hbuf : d.buf = buf) {k : Nat} (hend : d.endOffs = min k buf.length) :
    d.readByteFromEnd =
      (fromBE buf / 256 ^ k % 256, { d with endOffs := min (k + 1) buf.length }) := by
  subst hbuf
  unfold readByteFromEnd
  rw [hend, fromBE_digit]
  split
  · rename_i hlt
    have hk : min k d.buf.length = k := by omega
    have hnext : min (k + 1) d.buf.length = k + 1 := by omega
    have hlen : k < d.buf.reverse.length := by
      rw [List.length_reverse]
      omega
    have hat : d.buf.length - (k + 1) = d.buf.length - 1 - k := by omega
    rw [hk, hnext, List.getD_eq_getElem _ _ hlen, List.getElem_reverse,
      List.getD_eq_getElem _ _ (by omega)]
    simp only [hat]
  · rename_i hge
    have hout : d.buf.reverse.length ≤ k := by
      rw [List.length_reverse]
      omega
    have hnext : min (k + 1) d.buf.length = d.endOffs := by omega
    rw [List.getD_eq_default _ _ hout, hnext]
    rfl

/-- A byte above the window. -/
theorem window_add (b : Nat) {k t : Nat} (ht : t ≤ 8 * k) (hroom : 8 * k - t ≤ 24) :
    b % 2 ^ (8 * k) / 2 ^ t ||| ((b / 256 ^ k % 256) <<< (8 * k - t)) % 2 ^ 32 =
      b % 2 ^ (8 * (k + 1)) / 2 ^ t := by
  have hpow : 256 ^ k = 2 ^ (8 * k) := by rw [Nat.pow_mul]
  have hsplit : 2 ^ (8 * k) = 2 ^ t * 2 ^ (8 * k - t) := by
    rw [← Nat.pow_add, Nat.add_sub_cancel' ht]
  have hnext : b % 2 ^ (8 * (k + 1)) =
      b % 2 ^ (8 * k) + 2 ^ t * (2 ^ (8 * k - t) * (b / 256 ^ k % 256)) := by
    rw [← Nat.mul_assoc, ← hsplit, hpow, Nat.mul_add, Nat.mul_one, Nat.pow_add, Nat.mod_mul]
  have hsmall : b % 2 ^ (8 * k) / 2 ^ t < 2 ^ (8 * k - t) := by
    rw [Nat.div_lt_iff_lt_mul (Nat.two_pow_pos t), Nat.mul_comm (2 ^ (8 * k - t)), ← hsplit]
    exact Nat.mod_lt _ (Nat.two_pow_pos _)
  have hbyte : b / 256 ^ k % 256 < 2 ^ 8 := Nat.mod_lt _ (by decide)
  obtain ⟨hor, _⟩ := or_shiftLeft hsmall hbyte (by omega)
  rw [hor, hnext, Nat.add_mul_div_left _ _ (Nat.two_pow_pos t), Nat.mul_comm (2 ^ (8 * k - t))]

/-- The window is filled with the bytes that come next. -/
theorem refill_spec {t : Nat} : ∀ {rounds k : Nat} {d : RangeDecoder}, d.buf = buf →
    d.endOffs = min k buf.length → t ≤ 8 * k → 8 * k - t ≤ 24 → 24 < 8 * k - t + 8 * rounds →
      ∃ k', refill rounds d (fromBE buf % 2 ^ (8 * k) / 2 ^ t) (8 * k - t) =
          ({ d with endOffs := min k' buf.length }, fromBE buf % 2 ^ (8 * k') / 2 ^ t, 8 * k' - t) ∧
        t + 25 ≤ 8 * k'
  | 0, k, d, _, _, _, hroom, hrounds => absurd hrounds (by omega)
  | rounds + 1, k, d, hbuf, hend, ht, hroom, hrounds => by
      unfold refill
      rw [readByteFromEnd_eq hbuf hend]
      dsimp only
      rw [window_add _ ht hroom]
      have hbits : 8 * k - t + EC_SYM_BITS = 8 * (k + 1) - t := by
        show 8 * k - t + 8 = _
        omega
      rw [hbits]
      show ∃ k', (if 8 * (k + 1) - t > 32 - 8 then _ else _) = _ ∧ _
      split
      · exact ⟨k + 1, rfl, by omega⟩
      · rename_i hmore
        exact refill_spec (t := t) (k := k + 1) (d := { d with endOffs := min (k + 1) buf.length })
          hbuf rfl (by omega) (by omega) (by omega)

/-- **The next raw bits** are at the low end of the window. -/
theorem ReadsRaw.bitsN {t n : Nat} (h : ReadsRaw buf d t) (hbuf : d.buf = buf) (hn : n ≤ 25) :
    ∃ endOffs endWindow nendBits,
      d.bitsN n = (fromBE buf % 2 ^ (t + n) / 2 ^ t,
        { d with endOffs := endOffs, endWindow := endWindow, nendBits := nendBits }) ∧
      ReadsRaw buf { d with endOffs := endOffs, endWindow := endWindow, nendBits := nendBits }
        (t + n) := by
  obtain ⟨k, hend, hbits, hwindow⟩ := h
  have hle : t ≤ 8 * k := by omega
  have havailable : d.nendBits = 8 * k - t := by omega
  -- In both cases the window has enough bits.
  obtain ⟨k', heq, hfull⟩ : ∃ k',
      (if d.nendBits < n then refill 4 d d.endWindow d.nendBits
        else (d, d.endWindow, d.nendBits)) =
        ({ d with endOffs := min k' buf.length }, fromBE buf % 2 ^ (8 * k') / 2 ^ t, 8 * k' - t) ∧
      t + n ≤ 8 * k' := by
    split
    · obtain ⟨k', heq, hfull⟩ :
          ∃ k', refill 4 d (fromBE buf % 2 ^ (8 * k) / 2 ^ t) (8 * k - t) = _ ∧ t + 25 ≤ 8 * k' :=
        refill_spec hbuf hend hle (by omega) (by omega)
      rw [← hwindow, ← havailable] at heq
      exact ⟨k', heq, by omega⟩
    · refine ⟨k, ?_, by omega⟩
      rw [← hend, ← hwindow, ← havailable]
  unfold RangeDecoder.bitsN
  rw [heq]
  dsimp only
  refine ⟨_, _, _, Prod.ext ?_ rfl, k', rfl, ?_, ?_⟩
  all_goals dsimp only
  · rw [Nat.one_shiftLeft, Nat.and_two_pow_sub_one_eq_mod, ← Nat.mod_mul_right_div_self,
      ← Nat.pow_add, Nat.mod_mod_of_dvd _ (Nat.pow_dvd_pow 2 hfull)]
  · omega
  · rw [Nat.shiftRight_eq_div_pow, Nat.div_div_eq_div_mul, ← Nat.pow_add]

/-! ## 3. Following the encoder -/

/-- The decoder is where the encoder was at the mark. -/
structure Follows (buf : Bytes) (d : RangeDecoder) (m : Mark) : Prop where
  reads : Reads buf d m.interval
  raw : ReadsRaw buf d m.bits
  err : d.err = 0

/-- **A symbol is read**: the value tells its part, and the decoder goes on with it. -/
theorem Follows.part (h : Follows buf d m) {lower upper : Nat} (hlower : lower < upper)
    (hupper : upper ≤ d.rng) (hin : (m.part lower upper).In buf) (ext : Nat) :
    lower ≤ d.val ∧ d.val < upper ∧
      Follows buf (normalize 4 { d with val := d.val - lower, rng := upper - lower, ext := ext })
        (m.part lower upper) := by
  have hwidth : upper ≤ m.interval.width := h.reads.rng ▸ hupper
  have hpart : (m.interval.narrow lower upper).Holds (code buf) :=
    Interval.holds_of_renew (code_digits buf) hin.holds
  obtain ⟨hle, hlt⟩ := h.reads.left.between hwidth (Nat.le_of_lt hlower) hpart
  have hreads : Reads buf { d with val := d.val - lower, rng := upper - lower, ext := ext }
      (m.interval.narrow lower upper) :=
    { source := h.reads.source
      rng := rfl
      left := h.reads.left.narrow hwidth hle (Nat.le_of_lt hlower)
      rem := h.reads.rem
      offs := h.reads.offs }
  have hrenew := hreads.renew (n := 4) hin.holds
  obtain ⟨offs, rng, val, rem, heq⟩ :=
    normalize_eq 4 { d with val := d.val - lower, rng := upper - lower, ext := ext }
  refine ⟨hle, hlt, hrenew, ?_, ?_⟩
  · rw [heq]
    exact h.raw
  · rw [heq]
    exact h.err

/-- **Raw bits are read.** -/
theorem Follows.push (h : Follows buf d m) {fl n : Nat} (hn : n ≤ 25)
    (hraw : m.raw < 2 ^ m.bits) (hin : (m.push fl n).In buf) :
    ∃ d', d.bitsN n = (fl, d') ∧ Follows buf d' (m.push fl n) := by
  obtain ⟨endOffs, endWindow, nendBits, heq, hnext⟩ := h.raw.bitsN h.reads.source hn
  have hall : fromBE buf % 2 ^ (m.bits + n) = m.raw + fl * 2 ^ m.bits := hin.raw
  have hvalue : fromBE buf % 2 ^ (m.bits + n) / 2 ^ m.bits = fl := by
    rw [hall, Nat.add_mul_div_right _ _ (Nat.two_pow_pos _), Nat.div_eq_of_lt hraw, Nat.zero_add]
  refine ⟨_, by rw [heq, hvalue], ?_, hnext, h.err⟩
  exact ⟨h.reads.source, h.reads.rng, h.reads.left, h.reads.rem, h.reads.offs⟩

/-- **A new decoder follows a new encoder**: it reads its first bytes as if they were digits of a
    small interval. -/
theorem follows_new (hin : Mark.start.In buf) : Follows buf (RangeDecoder.new buf) Mark.start := by
  have hfirst : code buf 0 = (buf.getD 0 0).toNat / 2 := by
    show (0 * 256 + (buf.getD 0 0).toNat) / 2 = _
    rw [Nat.zero_mul, Nat.zero_add]
  have hbyte := (buf.getD 0 0).toNat_lt
  have hread := readByte_eq (d := ⟨buf, 0, 0, 0, 0, 1 <<< EC_CODE_EXTRA, 0, 0, 0, 0⟩)
    rfl (n := 0) (Nat.zero_min _).symm
  have hstart : Mark.start.interval = Interval.renew 256 (2 ^ 23) 4 ⟨0, 2 ^ 7, 0⟩ := rfl
  have hreads : Reads buf
      ⟨buf, 0, 0, 0, min 1 buf.length, 1 <<< EC_CODE_EXTRA,
        (1 <<< EC_CODE_EXTRA) - 1 - (buf.getD 0 0).toNat >>> (EC_SYM_BITS - EC_CODE_EXTRA), 0,
        (buf.getD 0 0).toNat, 0⟩
      ⟨0, 2 ^ 7, 0⟩ :=
    { source := rfl
      rng := rfl
      left := by
        show code buf 0 + (128 - 1 - (buf.getD 0 0).toNat >>> 1) + 1 = 0 + 128
        rw [hfirst, Nat.shiftRight_eq_div_pow]
        omega
      rem := rfl
      offs := rfl }
  have hrenew := hreads.renew (n := 4) (hstart ▸ hin.holds)
  unfold RangeDecoder.new
  dsimp only
  rw [hread]
  dsimp only
  obtain ⟨offs, rng, val, rem, heq⟩ := normalize_eq 4
    ⟨buf, 0, 0, 0, min 1 buf.length, 1 <<< EC_CODE_EXTRA,
      (1 <<< EC_CODE_EXTRA) - 1 - (buf.getD 0 0).toNat >>> (EC_SYM_BITS - EC_CODE_EXTRA), 0,
      (buf.getD 0 0).toNat, 0⟩
  refine ⟨hstart ▸ hrenew, ?_, ?_⟩
  · rw [heq]
    exact ⟨0, (Nat.zero_min _).symm, rfl, by simp [Nat.mod_one]⟩
  · rw [heq]

end Ruwa.Call
