/-
  File:      Ruwa/Call/RangeTrip.lean
  Subject:   THE RANGE DECODER READS WHAT THE RANGE ENCODER WROTE.

  * `Inverts` -- a reader inverts a writer; it composes (`Inverts.bind`), so that a format is read
    back when its fields are;
  * `inverts_part` -- for symbols that take a part of the range, and the kinds of symbol there are:
    `inverts_encode`, `inverts_entries`, `inverts_icdf`, `inverts_bitLogp`, `inverts_bitsN`,
    `inverts_uint`, `inverts_fine`;
  * **`readAll_stream`** -- every script of symbols is read back from the buffer, and, with no raw
    bits, from the bytes that were consumed;
  * `Inverts.amid` -- so is a block of a format, with any symbols before it and after it.
-/
import Ruwa.Call.RangeDecoding

namespace Ruwa.Call

open Ruwa.Library

variable {α β : Type}

/-! ## 1. Readers that invert writers -/

/-- Over what `enc` writes, `dec` reads `a`; `n` raw bits are written. -/
def Inverts (enc : RangeEncoder → RangeEncoder) (dec : RangeDecoder → α × RangeDecoder) (a : α)
    (n : Nat) : Prop :=
  ∀ e m, Tracks e m → ∃ m', Tracks (enc e) m' ∧ m'.bits = m.bits + n ∧
    ∀ buf, m'.In buf → m.In buf ∧ ∀ d, Follows buf d m → ∃ d', dec d = (a, d') ∧ Follows buf d' m'

/-- Nothing is written, and nothing read. -/
theorem Inverts.pure (a : α) : Inverts id (fun d => (a, d)) a 0 := by
  intro e m h
  exact ⟨m, h, rfl, fun _ hin => ⟨hin, fun d hd => ⟨d, rfl, hd⟩⟩⟩

/-- **One after the other.** -/
theorem Inverts.bind {enc₁ enc₂ : RangeEncoder → RangeEncoder}
    {dec₁ : RangeDecoder → α × RangeDecoder} {g : α → RangeDecoder → β × RangeDecoder}
    {a : α} {b : β} {n₁ n₂ : Nat} (h₁ : Inverts enc₁ dec₁ a n₁) (h₂ : Inverts enc₂ (g a) b n₂) :
    Inverts (fun e => enc₂ (enc₁ e)) (fun d => g (dec₁ d).1 (dec₁ d).2) b (n₁ + n₂) := by
  intro e m h
  obtain ⟨m₁, htracks₁, hbits₁, hback₁⟩ := h₁ e m h
  obtain ⟨m₂, htracks₂, hbits₂, hback₂⟩ := h₂ (enc₁ e) m₁ htracks₁
  refine ⟨m₂, htracks₂, by omega, fun buf hin₂ => ?_⟩
  obtain ⟨hin₁, hreads₂⟩ := hback₂ buf hin₂
  obtain ⟨hin, hreads₁⟩ := hback₁ buf hin₁
  refine ⟨hin, fun d hd => ?_⟩
  obtain ⟨d₁, heq₁, hd₁⟩ := hreads₁ d hd
  obtain ⟨d₂, heq₂, hd₂⟩ := hreads₂ d₁ hd₁
  exact ⟨d₂, by dsimp only; rw [heq₁, heq₂], hd₂⟩

/-- What is made of a value that was read. -/
theorem Inverts.map {enc : RangeEncoder → RangeEncoder} {dec : RangeDecoder → α × RangeDecoder}
    {a : α} {n : Nat} (h : Inverts enc dec a n) (f : α → β) :
    Inverts enc (fun d => (f (dec d).1, (dec d).2)) (f a) n := by
  have hpure := h.bind (g := fun a d => (f a, d)) (Inverts.pure (f a))
  exact hpure

/-- Another reader that does the same where the value is read. -/
theorem Inverts.of_eq {enc : RangeEncoder → RangeEncoder} {dec : RangeDecoder → α × RangeDecoder}
    {dec' : RangeDecoder → β × RangeDecoder} {a : α} {b : β} {n : Nat} (h : Inverts enc dec a n)
    (hdec : ∀ d d', dec d = (a, d') → dec' d = (b, d')) : Inverts enc dec' b n := by
  intro e m htracks
  obtain ⟨m', htracks', hbits, hback⟩ := h e m htracks
  refine ⟨m', htracks', hbits, fun buf hin => ?_⟩
  obtain ⟨hold, hreads⟩ := hback buf hin
  refine ⟨hold, fun d hd => ?_⟩
  obtain ⟨d', heq, hd'⟩ := hreads d hd
  exact ⟨d', hdec d d' heq, hd'⟩

/-- A reader that goes on in a certain way once the value is read. -/
theorem Inverts.andThen {enc₁ enc₂ : RangeEncoder → RangeEncoder}
    {dec₁ : RangeDecoder → α × RangeDecoder} {dec₂ dec : RangeDecoder → β × RangeDecoder} {a : α}
    {b : β} (h₁ : Inverts enc₁ dec₁ a 0) (h₂ : Inverts enc₂ dec₂ b 0)
    (hdec : ∀ d d', dec₁ d = (a, d') → dec d = dec₂ d') :
    Inverts (fun e => enc₂ (enc₁ e)) dec b 0 := by
  intro e m htracks
  obtain ⟨m₁, htracks₁, hbits₁, hback₁⟩ := h₁ e m htracks
  obtain ⟨m₂, htracks₂, hbits₂, hback₂⟩ := h₂ (enc₁ e) m₁ htracks₁
  refine ⟨m₂, htracks₂, by omega, fun buf hin₂ => ?_⟩
  obtain ⟨hin₁, hreads₂⟩ := hback₂ buf hin₂
  obtain ⟨hin, hreads₁⟩ := hback₁ buf hin₁
  refine ⟨hin, fun d hd => ?_⟩
  obtain ⟨d₁, heq₁, hd₁⟩ := hreads₁ d hd
  obtain ⟨d₂, heq₂, hd₂⟩ := hreads₂ d₁ hd₁
  exact ⟨d₂, by rw [hdec d d₁ heq₁, heq₂], hd₂⟩

/-- **What was written in a whole buffer is read from it.** -/
theorem Inverts.read {enc : RangeEncoder → RangeEncoder} {dec : RangeDecoder → α × RangeDecoder}
    {a : α} {n : Nat} (h : Inverts enc dec a n) {e : RangeEncoder}
    (hroom : e.buf.length = e.storage) (herr : (enc e.reset).finish.err = false) :
    ∃ d, dec (RangeDecoder.new (enc e.reset).finish.buf) = (a, d) ∧ d.err = 0 := by
  obtain ⟨m, htracks, _, hback⟩ := h _ _ (tracks_reset hroom)
  obtain ⟨front, rest, hbuf, _, hholds, hraw, _⟩ := finish_spec htracks herr
  obtain ⟨hstart, hreads⟩ := hback _ ⟨hholds _ (hbuf ▸ List.prefix_append front rest), hraw⟩
  obtain ⟨d, heq, hd⟩ := hreads _ (follows_new hstart)
  exact ⟨d, heq, hd.err⟩

/-- With no raw bits, the bytes that were consumed are enough. -/
theorem Inverts.read_consumed {enc : RangeEncoder → RangeEncoder}
    {dec : RangeDecoder → α × RangeDecoder} {a : α} (h : Inverts enc dec a 0) {e : RangeEncoder}
    (hroom : e.buf.length = e.storage) (herr : (enc e.reset).finish.err = false) :
    ∃ d, dec (RangeDecoder.new ((enc e.reset).finish.buf.take (enc e.reset).finish.consumedLen)) =
      (a, d) ∧ d.err = 0 := by
  obtain ⟨m, htracks, hbits, hback⟩ := h _ _ (tracks_reset hroom)
  obtain ⟨front, rest, hbuf, hoffs, hholds, _, hnone⟩ := finish_spec htracks herr
  obtain ⟨hraw, hend⟩ := hnone hbits
  have htaken : (enc e.reset).finish.buf.take (enc e.reset).finish.consumedLen = front := by
    unfold RangeEncoder.consumedLen
    rw [hbuf, hoffs, hend, Nat.add_zero, List.take_left]
  rw [htaken]
  have hin : m.In front :=
    ⟨hholds _ (List.prefix_refl front), by rw [hbits, hraw]; exact Nat.mod_one _⟩
  obtain ⟨hstart, hreads⟩ := hback _ hin
  obtain ⟨d, heq, hd⟩ := hreads _ (follows_new hstart)
  exact ⟨d, heq, hd.err⟩

/-! ## 2. Symbols that take a part of the range -/

/-- A symbol that narrows the range to the part from `lower` to `upper`, both counted from above. -/
theorem inverts_part {enc : RangeEncoder → RangeEncoder} {dec : RangeDecoder → α × RangeDecoder}
    {a : α} (lower upper : Nat → Nat)
    (hpart : ∀ rng, 2 ^ 23 < rng → rng ≤ 2 ^ 31 → lower rng < upper rng ∧ upper rng ≤ rng)
    (henc : ∀ e : RangeEncoder, 2 ^ 23 < e.rng → e.rng ≤ 2 ^ 31 → e.val < 2 ^ 32 →
      enc e = RangeEncoder.normalize 4 { e with
        val := (e.val + (e.rng - upper e.rng)) % 2 ^ 32, rng := upper e.rng - lower e.rng })
    (hdec : ∀ d : RangeDecoder, 2 ^ 23 < d.rng → d.rng ≤ 2 ^ 31 → lower d.rng ≤ d.val →
      d.val < upper d.rng → ∃ ext, dec d = (a, RangeDecoder.normalize 4 { d with
        val := d.val - lower d.rng, rng := upper d.rng - lower d.rng, ext := ext })) :
    Inverts enc dec a 0 := by
  intro e m h
  have hlow := h.low
  have hhigh := h.high
  rw [← h.rng] at hlow hhigh
  obtain ⟨hlower, hupper⟩ := hpart e.rng hlow hhigh
  refine ⟨m.part (lower e.rng) (upper e.rng), ?_, rfl, fun buf hin => ?_⟩
  · rw [henc e hlow hhigh h.val_lt]
    exact h.part hlower hupper
  · refine ⟨Mark.in_of_part (h.rng ▸ hupper) (Nat.le_of_lt hlower) hin, fun d hd => ?_⟩
    have hrng : d.rng = e.rng := hd.reads.rng.trans h.rng.symm
    obtain ⟨hle, hlt, _⟩ := hd.part hlower (hrng ▸ hupper) hin 0
    obtain ⟨ext, heq⟩ := hdec d (hrng ▸ hlow) (hrng ▸ hhigh) (hrng ▸ hle) (hrng ▸ hlt)
    rw [hrng] at heq
    exact ⟨_, heq, (hd.part hlower (hrng ▸ hupper) hin ext).2.2⟩

theorem wrappingSub_eq {a b : Nat} (h : b ≤ a) (ha : a < 2 ^ 32) : wrappingSub a b = a - b := by
  unfold wrappingSub
  omega

theorem wrappingMul_eq {a b c : Nat} (h : a * b ≤ c) (hc : c < 2 ^ 32) : wrappingMul a b = a * b :=
  Nat.mod_eq_of_lt (Nat.lt_of_le_of_lt h hc)

/-- The part of a symbol with the cumulative frequencies from `fl` to `fh` of `ft`. -/
def lowerPart (fh ft rng : Nat) : Nat := rng / ft * (ft - fh)

def upperPart (fl ft rng : Nat) : Nat := if fl > 0 then rng / ft * (ft - fl) else rng

section

variable {fl fh ft : Nat}

/-- The frequencies of a symbol that can be written. -/
structure Frequencies (fl fh ft : Nat) : Prop where
  lt : fl < fh
  le : fh ≤ ft
  small : ft ≤ 2 ^ 23

theorem Frequencies.unit_pos (h : Frequencies fl fh ft) {rng : Nat} (hlow : 2 ^ 23 < rng) :
    0 < rng / ft := by
  have hlt := h.lt
  have hle := h.le
  have hsmall := h.small
  exact Nat.div_pos (by omega) (by omega)

theorem Frequencies.part (h : Frequencies fl fh ft) {rng : Nat} (hlow : 2 ^ 23 < rng) :
    lowerPart fh ft rng < upperPart fl ft rng ∧ upperPart fl ft rng ≤ rng ∧
      lowerPart fh ft rng ≤ rng := by
  have hlt := h.lt
  have hle := h.le
  have hunit := h.unit_pos hlow
  have hall : rng / ft * ft ≤ rng := Nat.div_mul_le_self rng ft
  have hfh : rng / ft * (ft - fh) < rng / ft * (ft - fl) :=
    Nat.mul_lt_mul_of_pos_left (by omega) hunit
  have hfl : rng / ft * (ft - fl) ≤ rng / ft * ft := Nat.mul_le_mul_left _ (Nat.sub_le _ _)
  unfold lowerPart upperPart
  split <;> omega

/-- As the encoder narrows its range. -/
theorem encode_eq (h : Frequencies fl fh ft) (e : RangeEncoder) (hlow : 2 ^ 23 < e.rng)
    (hhigh : e.rng ≤ 2 ^ 31) (hval : e.val < 2 ^ 32) :
    e.encode fl fh ft = RangeEncoder.normalize 4 { e with
      val := (e.val + (e.rng - upperPart fl ft e.rng)) % 2 ^ 32
      rng := upperPart fl ft e.rng - lowerPart fh ft e.rng } := by
  obtain ⟨hpart, hupper, hlower⟩ := h.part hlow
  have hlt := h.lt
  have hle := h.le
  have hrng : e.rng < 2 ^ 32 := by omega
  unfold RangeEncoder.encode
  rw [if_neg (by omega)]
  unfold upperPart at hpart hupper ⊢
  unfold lowerPart at hpart hlower ⊢
  dsimp only
  split
  · rename_i hfl
    rw [if_pos hfl] at hpart hupper
    have hwidth : e.rng / ft * (fh - fl) = e.rng / ft * (ft - fl) - e.rng / ft * (ft - fh) := by
      rw [← Nat.mul_sub]
      congr 1
      omega
    rw [wrappingMul_eq hupper hrng, wrappingSub_eq hupper hrng, hwidth.symm,
      wrappingMul_eq (c := e.rng) (by omega) hrng]
  · rename_i hfl
    rw [if_neg hfl] at hpart hupper
    rw [wrappingMul_eq hlower hrng, wrappingSub_eq hlower hrng, Nat.sub_self, Nat.add_zero,
      Nat.mod_eq_of_lt hval]

/-- What the decoder finds lies in the symbol's frequencies. -/
theorem decode_eq (h : Frequencies fl fh ft) (d : RangeDecoder) (hlow : 2 ^ 23 < d.rng)
    (hlower : lowerPart fh ft d.rng ≤ d.val) (hupper : d.val < upperPart fl ft d.rng) :
    ∃ fs, d.decode ft = (fs, { d with ext := d.rng / ft }) ∧ fl ≤ fs ∧ fs < fh := by
  have hlt := h.lt
  have hle := h.le
  have hunit := h.unit_pos hlow
  refine ⟨ft - min (d.val / (d.rng / ft) + 1) ft, ?_, ?_, ?_⟩
  · unfold RangeDecoder.decode
    rw [if_neg (by omega)]
    unfold RangeDecoder.locate
    rw [if_neg (by omega)]
  · unfold upperPart at hupper
    split at hupper
    · have : d.val / (d.rng / ft) < ft - fl := by
        rwa [Nat.div_lt_iff_lt_mul hunit, Nat.mul_comm]
      omega
    · omega
  · have : ft - fh ≤ d.val / (d.rng / ft) := by
      rwa [Nat.le_div_iff_mul_le hunit, Nat.mul_comm]
    omega

/-- As the decoder goes past the symbol. -/
theorem update_eq (h : Frequencies fl fh ft) (d : RangeDecoder) (hlow : 2 ^ 23 < d.rng)
    (hhigh : d.rng ≤ 2 ^ 31) (hext : d.ext = d.rng / ft) (hlower : lowerPart fh ft d.rng ≤ d.val)
    (hval : d.val < 2 ^ 32) :
    d.update fl fh ft = RangeDecoder.normalize 4 { d with
      val := d.val - lowerPart fh ft d.rng
      rng := upperPart fl ft d.rng - lowerPart fh ft d.rng } := by
  obtain ⟨hpart, hupper, hle⟩ := h.part hlow
  have hlt := h.lt
  have hfh := h.le
  have hrng : d.rng < 2 ^ 32 := by omega
  have hmul : wrappingMul d.ext (ft - fh) = lowerPart fh ft d.rng := by
    rw [hext]
    exact wrappingMul_eq hle hrng
  unfold RangeDecoder.update
  dsimp only
  rw [hmul, wrappingSub_eq hlower hval, wrappingSub_eq hle hrng, hext]
  congr 2
  unfold upperPart at hpart hupper ⊢
  split
  · rename_i hfl
    rw [if_pos hfl] at hpart hupper
    have hwidth : d.rng / ft * (fh - fl) = d.rng / ft * (ft - fl) - lowerPart fh ft d.rng := by
      unfold lowerPart
      rw [← Nat.mul_sub]
      congr 1
      omega
    rw [← hwidth]
    exact wrappingMul_eq (c := d.rng) (by omega) hrng
  · rfl

/-- **A symbol by its frequencies.** The reader has only to name the symbol. -/
theorem inverts_encode (h : Frequencies fl fh ft) {dec : RangeDecoder → α × RangeDecoder} {a : α}
    (hdec : ∀ (d : RangeDecoder) (fs : Nat), d.decode ft = (fs, { d with ext := d.rng / ft }) →
      fl ≤ fs → fs < fh → dec d = (a, RangeDecoder.update { d with ext := d.rng / ft } fl fh ft)) :
    Inverts (fun e => e.encode fl fh ft) dec a 0 := by
  refine inverts_part (lowerPart fh ft) (upperPart fl ft)
    (fun rng hlow _ => ⟨(h.part hlow).1, (h.part hlow).2.1⟩) (encode_eq h) ?_
  intro d hlow hhigh hlower hupper
  obtain ⟨fs, heq, hle, hlt⟩ := decode_eq h d hlow hlower hupper
  have hrng := (h.part hlow).2.1
  refine ⟨d.rng / ft, ?_⟩
  rw [hdec d fs heq hle hlt, update_eq h { d with ext := d.rng / ft } hlow hhigh rfl hlower (by
    show d.val < 2 ^ 32
    omega)]

end

/-! ## 3. The kinds of symbols -/

/-- A cumulative table, and a symbol of it that has a frequency. -/
structure Ascends (entry : Nat → Nat) (n v : Nat) : Prop where
  le : ∀ j k, j ≤ k → k < n → entry j ≤ entry k
  symbol : v + 1 < n
  lt : entry v < entry (v + 1)
  small : entry (n - 1) < 2 ^ 16

theorem Ascends.frequencies {entry : Nat → Nat} {n v : Nat} (h : Ascends entry n v) :
    Frequencies (entry v - entry 0) (entry (v + 1) - entry 0) (entry (n - 1) - entry 0) := by
  have hsymbol := h.symbol
  have hfirst := h.le 0 v (Nat.zero_le v) (by omega)
  have hlast := h.le (v + 1) (n - 1) (by omega) (by omega)
  have hlt := h.lt
  have hsmall := h.small
  exact ⟨by omega, by omega, by omega⟩

/-- The search stops at the symbol. -/
theorem cdfSearch_eq {entry : Nat → Nat} {target v : Nat} (hlt : target < entry (v + 1)) :
    ∀ {left k : Nat}, k ≤ v → v < k + left → (∀ j, k < j → j ≤ v → entry j ≤ target) →
      RangeDecoder.cdfSearch entry target left k = v
  | 0, k, hk, hleft, _ => by omega
  | left + 1, k, hk, hleft, hle => by
      unfold RangeDecoder.cdfSearch
      rcases Nat.eq_or_lt_of_le hk with heq | hbefore
      · rw [heq, if_pos hlt]
      · have hnext := hle (k + 1) (by omega) (by omega)
        rw [if_neg (by omega)]
        exact cdfSearch_eq hlt (by omega) (by omega) fun j hj hjv => hle j (by omega) hjv

/-- **A symbol of a cumulative table.** -/
theorem inverts_entries {entry : Nat → Nat} {n v : Nat} (h : Ascends entry n v) :
    Inverts (fun e => e.encodeEntries v entry n) (fun d => d.decodeEntries entry n) v 0 := by
  have hfreq := h.frequencies
  have hsymbol := h.symbol
  have hfirst := h.le 0 v (Nat.zero_le v) (by omega)
  have hlt := hfreq.lt
  have hle := hfreq.le
  have henc : (fun e : RangeEncoder => e.encodeEntries v entry n) = fun e =>
      e.encode (entry v - entry 0) (entry (v + 1) - entry 0) (entry (n - 1) - entry 0) := by
    funext e
    unfold RangeEncoder.encodeEntries
    rw [if_neg (by omega)]
  rw [henc]
  refine inverts_encode hfreq ?_
  intro d fs heq hlow hhigh
  have hsearch : RangeDecoder.cdfSearch entry (entry 0 + fs) (n - 1) 0 = v := by
    refine cdfSearch_eq (by omega) (Nat.zero_le v) (by omega) ?_
    intro j _ hj
    have hbelow := h.le j v hj (by omega)
    omega
  unfold RangeDecoder.decodeEntries
  rw [if_neg (by omega)]
  dsimp only
  rw [heq, hsearch]

/-- One bit, where a one has the probability `1 / 2 ^ logp`. -/
theorem inverts_bitLogp {logp v : Nat} (hpos : 0 < logp) (hlogp : logp ≤ 23) (hv : v < 2) :
    Inverts (fun e => e.bitLogp v logp) (fun d => d.bitLogp logp) v 0 := by
  have hsmall : ∀ rng, 2 ^ 23 < rng → 0 < rng / 2 ^ logp ∧ rng / 2 ^ logp < rng := by
    intro rng hlow
    have hle : 2 ^ logp ≤ 2 ^ 23 := Nat.pow_le_pow_right (by decide) hlogp
    have hone : 1 < 2 ^ logp := Nat.one_lt_two_pow (by omega)
    exact ⟨Nat.div_pos (by omega) (Nat.two_pow_pos _), Nat.div_lt_self (by omega) hone⟩
  refine inverts_part (fun rng => if v = 0 then rng / 2 ^ logp else 0)
    (fun rng => if v = 0 then rng else rng / 2 ^ logp) ?_ ?_ ?_
  · intro rng hlow _
    have := hsmall rng hlow
    split <;> omega
  · intro e hlow _ hval
    have := hsmall e.rng hlow
    unfold RangeEncoder.bitLogp
    dsimp only
    rw [Nat.shiftRight_eq_div_pow]
    split
    · rw [Nat.sub_zero]
    · rename_i hzero
      have hzero' : v = 0 := by omega
      rw [if_pos hzero', if_pos hzero', Nat.sub_self, Nat.add_zero, Nat.mod_eq_of_lt hval]
  · intro d hlow _ hlower hupper
    have := hsmall d.rng hlow
    refine ⟨d.ext, ?_⟩
    unfold RangeDecoder.bitLogp
    dsimp only
    rw [Nat.shiftRight_eq_div_pow]
    by_cases hzero : v = 0
    · rw [if_pos hzero] at hlower hupper ⊢
      rw [if_pos hzero, if_neg (by omega), hzero]
    · rw [if_neg hzero] at hlower hupper ⊢
      rw [if_neg hzero, if_pos hupper, Nat.sub_zero, Nat.sub_zero]
      have hone : v = 1 := by omega
      rw [hone]

/-- **Raw bits.** -/
theorem inverts_bitsN {n v : Nat} (hn : n ≤ 25) (hv : v < 2 ^ n) :
    Inverts (fun e => e.bitsN v n) (fun d => d.bitsN n) v n := by
  intro e m h
  refine ⟨m.push v n, h.push hv hn, rfl, fun buf hin => ?_⟩
  exact ⟨Mark.in_of_push h.raw_lt hin, fun d hd => hd.push hn h.raw_lt hin⟩

/-- A symbol of equal frequencies. -/
theorem inverts_uniform {ft v : Nat} (hft : ft ≤ 2 ^ 23) (hv : v < ft) :
    Inverts (fun e => e.encode v (v + 1) ft)
      (fun d => ((d.decode ft).1, (d.decode ft).2.update (d.decode ft).1 ((d.decode ft).1 + 1) ft))
      v 0 := by
  refine inverts_encode ⟨Nat.lt_succ_self v, hv, hft⟩ ?_
  intro d fs heq hlow hhigh
  obtain rfl : fs = v := by omega
  rw [heq]

theorem inverts_rawSymbol {nbits v : Nat} (hnbits : nbits ≤ 23) (hv : v < 2 ^ nbits) :
    Inverts (fun e => e.encodeRawSymbol v nbits) (fun d => d.decodeRawSymbol nbits) v 0 := by
  have hpow : 2 ^ nbits ≤ 2 ^ 23 := Nat.pow_le_pow_right (by decide) hnbits
  have huniform := inverts_uniform hpow hv
  have henc : (fun e : RangeEncoder => e.encodeRawSymbol v nbits) =
      fun e => e.encode v (v + 1) (2 ^ nbits) := by
    funext e
    unfold RangeEncoder.encodeRawSymbol
    rw [Nat.one_shiftLeft]
  have hdec : (fun d : RangeDecoder => d.decodeRawSymbol nbits) = fun d =>
      ((d.decode (2 ^ nbits)).1, (d.decode (2 ^ nbits)).2.update (d.decode (2 ^ nbits)).1
        ((d.decode (2 ^ nbits)).1 + 1) (2 ^ nbits)) := by
    funext d
    have hbin : d.decodeBin nbits = d.decode (2 ^ nbits) := by
      unfold RangeDecoder.decodeBin RangeDecoder.decode
      rw [if_neg (Nat.two_pow_pos nbits).ne', Nat.one_shiftLeft, Nat.shiftRight_eq_div_pow]
    unfold RangeDecoder.decodeRawSymbol
    rw [hbin, Nat.one_shiftLeft]
  rw [henc, hdec]
  exact huniform

/-- The reader of a symbol of 64 divides by itself. -/
theorem inverts_fine {v : Nat} (hv : v < 64) :
    Inverts (fun e => e.encode64FineSym v) (fun d => d.decode64FineSym) v 0 := by
  have hfreq : Frequencies v (v + 1) 64 := ⟨Nat.lt_succ_self v, hv, by decide⟩
  refine inverts_part (lowerPart (v + 1) 64) (upperPart v 64)
    (fun rng hlow _ => ⟨(hfreq.part hlow).1, (hfreq.part hlow).2.1⟩) (encode_eq hfreq) ?_
  intro d hlow hhigh hlower hupper
  have hunit := hfreq.unit_pos hlow
  have hrng := (hfreq.part hlow).2.1
  have hshift : d.rng >>> 6 = d.rng / 64 := Nat.shiftRight_eq_div_pow d.rng 6
  have hsym : 63 - d.val / (d.rng / 64) = v := by
    have hle : 64 - (v + 1) ≤ d.val / (d.rng / 64) := by
      rwa [Nat.le_div_iff_mul_le hunit, Nat.mul_comm]
    unfold upperPart at hupper
    split at hupper
    · have : d.val / (d.rng / 64) < 64 - v := by
        rwa [Nat.div_lt_iff_lt_mul hunit, Nat.mul_comm]
      omega
    · omega
  refine ⟨d.rng / 64, ?_⟩
  unfold RangeDecoder.decode64FineSym
  dsimp only
  rw [hshift, if_neg (by omega), hsym]
  have hupdate := update_eq hfreq { d with ext := d.rng / 64 } hlow hhigh rfl hlower (by
    show d.val < 2 ^ 32
    omega)
  rw [hupdate]

/-- The loop stops at the symbol, with the bound before it. -/
theorem icdfLoop_eq {r val : Nat} : ∀ {table : List UInt8} {v ret t : Nat}, v < table.length →
    (∀ b ∈ table, r * b.toNat < 2 ^ 32) → (∀ j < v, val < r * (table.getD j 0).toNat) →
    r * (table.getD v 0).toNat ≤ val →
      RangeDecoder.icdfLoop r val table ret t =
        (ret + v, (if v = 0 then t else r * (table.getD (v - 1) 0).toNat),
          r * (table.getD v 0).toNat)
  | [], _, _, _, hv, _, _, _ => by cases hv
  | [b], v, ret, t, hv, hfits, _, _ => by
      obtain rfl : v = 0 := by simpa using hv
      unfold RangeDecoder.icdfLoop wrappingMul
      rw [Nat.mod_eq_of_lt (hfits b (List.mem_singleton_self b))]
      rfl
  | b :: c :: rest, 0, ret, t, _, hfits, _, hat => by
      have hat' : r * b.toNat ≤ val := hat
      unfold RangeDecoder.icdfLoop wrappingMul
      rw [Nat.mod_eq_of_lt (hfits b List.mem_cons_self), if_pos hat']
      rfl
  | b :: c :: rest, v + 1, ret, t, hv, hfits, hbefore, hat => by
      have hfirst : val < r * b.toNat := hbefore 0 (Nat.succ_pos v)
      unfold RangeDecoder.icdfLoop wrappingMul
      rw [Nat.mod_eq_of_lt (hfits b List.mem_cons_self), if_neg (by omega),
        icdfLoop_eq (v := v) (by simpa using hv) (fun x hx => hfits x (List.mem_cons_of_mem b hx))
          (fun j hj => hbefore (j + 1) (by omega)) hat]
      rw [if_neg (Nat.succ_ne_zero v), Nat.add_sub_cancel]
      cases v with
      | zero => rfl
      | succ v =>
          rw [if_neg (Nat.succ_ne_zero v), Nat.add_assoc, Nat.add_comm 1]
          rfl

/-- A table of upper bounds that fall, and a symbol of it. -/
structure Descends (table : List UInt8) (ftb v : Nat) : Prop where
  falls : table.Pairwise (· > ·)
  symbol : v < table.length
  first : (table.getD 0 0).toNat < 2 ^ ftb
  bits : ftb ≤ 23

theorem Descends.lt {table : List UInt8} {ftb v : Nat} (h : Descends table ftb v) {j k : Nat}
    (hjk : j < k) (hk : k < table.length) : (table.getD k 0).toNat < (table.getD j 0).toNat := by
  have hfalls := List.pairwise_iff_getElem.mp h.falls j k (by omega) hk hjk
  rw [List.getD_eq_getElem _ _ hk, List.getD_eq_getElem _ _ (by omega)]
  exact hfalls

/-- **A symbol of an inverse table.** -/
theorem inverts_icdf {table : List UInt8} {ftb v : Nat} (h : Descends table ftb v) :
    Inverts (fun e => e.encodeIcdf v table ftb) (fun d => d.decodeIcdf table ftb) v 0 := by
  have hsymbol := h.symbol
  have hbound : ∀ b ∈ table, b.toNat < 2 ^ ftb := by
    intro b hb
    obtain ⟨k, hk, rfl⟩ := List.mem_iff_getElem.mp hb
    have hfirst := h.first
    rcases Nat.eq_zero_or_pos k with rfl | hpos
    · rwa [List.getD_eq_getElem _ _ hk] at hfirst
    · have hlt := h.lt hpos hk
      rw [List.getD_eq_getElem _ _ hk] at hlt
      omega
  have hall : ∀ rng, ∀ b ∈ table, rng / 2 ^ ftb * b.toNat ≤ rng := by
    intro rng b hb
    have hle := Nat.mul_le_mul_left (rng / 2 ^ ftb) (Nat.le_of_lt (hbound b hb))
    have hdiv := Nat.div_mul_le_self rng (2 ^ ftb)
    omega
  have hat : ∀ k < table.length, table.getD k 0 ∈ table := by
    intro k hk
    rw [List.getD_eq_getElem _ _ hk]
    exact List.getElem_mem hk
  have hunit : ∀ rng, 2 ^ 23 < rng → 0 < rng / 2 ^ ftb := by
    intro rng hlow
    have hle : 2 ^ ftb ≤ 2 ^ 23 := Nat.pow_le_pow_right (by decide) h.bits
    exact Nat.div_pos (by omega) (Nat.two_pow_pos _)
  refine inverts_part (fun rng => rng / 2 ^ ftb * (table.getD v 0).toNat)
    (fun rng => if v = 0 then rng else rng / 2 ^ ftb * (table.getD (v - 1) 0).toNat) ?_ ?_ ?_
  · intro rng hlow _
    have hpos := hunit rng hlow
    split
    · rename_i hzero
      have hfirst := Nat.mul_lt_mul_of_pos_left h.first hpos
      have hdiv := Nat.div_mul_le_self rng (2 ^ ftb)
      rw [hzero]
      omega
    · rename_i hsome
      have hlt := Nat.mul_lt_mul_of_pos_left (h.lt (Nat.pred_lt hsome) hsymbol) hpos
      exact ⟨hlt, hall rng _ (hat (v - 1) (by omega))⟩
  · intro e hlow hhigh hval
    have hrng : e.rng < 2 ^ 32 := by omega
    have hthis := hall e.rng _ (hat v hsymbol)
    unfold RangeEncoder.encodeIcdf
    dsimp only
    rw [Nat.shiftRight_eq_div_pow]
    split
    · rename_i hsome
      have hbefore := hall e.rng _ (hat (v - 1) (by omega))
      have hlt := h.lt (show v - 1 < v by omega) hsymbol
      have hsub : (table.getD (v - 1) 0 - table.getD v 0).toNat =
          (table.getD (v - 1) 0).toNat - (table.getD v 0).toNat :=
        UInt8.toNat_sub_of_le _ _ (UInt8.le_iff_toNat_le.mpr (Nat.le_of_lt hlt))
      rw [if_neg (by omega), wrappingMul_eq hbefore hrng, wrappingSub_eq hbefore hrng, hsub,
        wrappingMul_eq (c := e.rng) (Nat.le_trans (Nat.mul_le_mul_left _ (Nat.sub_le _ _)) hbefore)
          hrng, Nat.mul_sub]
    · rename_i hnone
      rw [if_pos (by omega), wrappingMul_eq hthis hrng, wrappingSub_eq hthis hrng, Nat.sub_self,
        Nat.add_zero, Nat.mod_eq_of_lt hval]
  · intro d hlow hhigh hlower hupper
    have hloop : RangeDecoder.icdfLoop (d.rng / 2 ^ ftb) d.val table 0 d.rng =
        (0 + v, (if v = 0 then d.rng else d.rng / 2 ^ ftb * (table.getD (v - 1) 0).toNat),
          d.rng / 2 ^ ftb * (table.getD v 0).toNat) := by
      refine icdfLoop_eq hsymbol (fun b hb => ?_) (fun j hj => ?_) hlower
      · have := hall d.rng b hb
        omega
      · rw [if_neg (by omega)] at hupper
        have hle : (table.getD (v - 1) 0).toNat ≤ (table.getD j 0).toNat := by
          rcases Nat.eq_or_lt_of_le (show j ≤ v - 1 by omega) with heq | hlt
          · rw [heq]
          · exact Nat.le_of_lt (h.lt hlt (by omega))
        exact Nat.lt_of_lt_of_le hupper (Nat.mul_le_mul_left _ hle)
    have hsome : table ≠ [] := by
      rintro rfl
      cases hsymbol
    refine ⟨d.ext, ?_⟩
    unfold RangeDecoder.decodeIcdf
    rw [if_neg hsome, Nat.shiftRight_eq_div_pow, hloop]
    dsimp only
    rw [Nat.zero_add]

/-! ## 4. Integers -/

theorem ilog_spec {x : Nat} (hpos : x ≠ 0) :
    2 ^ (ilog x - 1) ≤ x ∧ x < 2 ^ ilog x ∧ 0 < ilog x := by
  unfold ilog
  rw [if_neg hpos, Nat.add_sub_cancel]
  exact ⟨Nat.log2_self_le hpos, Nat.lt_log2_self, Nat.succ_pos _⟩

/-- The high bits of an integer below `ft + 1`, of which there are at most 256. -/
theorem high_bits {ft fl : Nat} (hft : ft < 2 ^ 32) (hfl : fl ≤ ft) (hmany : 8 < ilog ft) :
    ilog ft - 8 ≤ 24 ∧ (ft >>> (ilog ft - 8)) + 1 ≤ 2 ^ 8 ∧
      fl >>> (ilog ft - 8) < (ft >>> (ilog ft - 8)) + 1 := by
  have hpos : ft ≠ 0 := by
    rintro rfl
    simp [ilog] at hmany
  obtain ⟨hle, hlt, _⟩ := ilog_spec hpos
  have hbits : ilog ft ≤ 32 := by
    by_contra hbig
    have : 2 ^ 32 ≤ 2 ^ (ilog ft - 1) := Nat.pow_le_pow_right (by decide) (by omega)
    omega
  rw [Nat.shiftRight_eq_div_pow, Nat.shiftRight_eq_div_pow]
  refine ⟨by omega, ?_, Nat.lt_succ_of_le (Nat.div_le_div_right hfl)⟩
  have hquot : ft / 2 ^ (ilog ft - 8) < 2 ^ 8 := by
    rw [Nat.div_lt_iff_lt_mul (Nat.two_pow_pos _), ← Nat.pow_add]
    rwa [show 8 + (ilog ft - 8) = ilog ft by omega]
  exact hquot

/-- **An integer below a bound**: its high bits in the range, and its low bits raw. -/
theorem inverts_uint {ft v : Nat} (hft : ft ≤ 2 ^ 32) (hv : v < ft) :
    Inverts (fun e => e.encodeUint v ft) (fun d => d.decodeUint ft) v (ilog (ft - 1) - 8) := by
  by_cases hmany : ilog (ft - 1) > EC_UINT_BITS
  · obtain ⟨hbits, hsmall, hhigh⟩ := high_bits (show ft - 1 < 2 ^ 32 by omega)
      (Nat.le_sub_one_of_lt hv) hmany
    obtain ⟨ftb, hftb⟩ : ∃ ftb, ftb = ilog (ft - 1) - EC_UINT_BITS := ⟨_, rfl⟩
    have hftb' : ilog (ft - 1) - 8 = ftb := hftb.symm
    rw [hftb'] at hbits hsmall hhigh ⊢
    have hlow : v % 2 ^ ftb < 2 ^ ftb := Nat.mod_lt _ (Nat.two_pow_pos _)
    have hfront := inverts_uniform (Nat.le_trans hsmall (by decide)) hhigh
    have hback := (inverts_bitsN (show ftb ≤ 25 by omega) hlow).map fun low => (v >>> ftb, low)
    have hboth := hfront.bind (g := fun s d => ((s, (d.bitsN ftb).1), (d.bitsN ftb).2)) hback
    rw [Nat.zero_add] at hboth
    have henc : (fun e : RangeEncoder => e.encodeUint v ft) = fun e =>
        (e.encode (v >>> ftb) (v >>> ftb + 1) ((ft - 1) >>> ftb + 1)).bitsN (v % 2 ^ ftb) ftb := by
      funext e
      unfold RangeEncoder.encodeUint
      dsimp only
      rw [if_pos hmany, ← hftb, Nat.one_shiftLeft, Nat.and_two_pow_sub_one_eq_mod]
    rw [henc]
    refine hboth.of_eq fun d d' heq => ?_
    obtain ⟨hvalues, hnext⟩ := Prod.ext_iff.mp heq
    obtain ⟨hs, hbitsN⟩ := Prod.ext_iff.mp hvalues
    dsimp only at hs hbitsN hnext
    have hwhole : (v >>> ftb) <<< ftb ||| v % 2 ^ ftb = v := by
      rw [← Nat.shiftLeft_add_eq_or_of_lt hlow, Nat.shiftLeft_eq, Nat.shiftRight_eq_div_pow]
      exact Nat.div_add_mod' v (2 ^ ftb)
    unfold RangeDecoder.decodeUint
    dsimp only
    rw [if_pos hmany, ← hftb, hbitsN, hnext, hs, hwhole, if_pos (Nat.le_sub_one_of_lt hv)]
  · have hfew : ilog (ft - 1) ≤ 8 := Nat.le_of_not_lt hmany
    have hsmall : ft ≤ 2 ^ 8 := by
      by_cases hone : ft - 1 = 0
      · omega
      · have hlt := (ilog_spec hone).2.1
        have hle : 2 ^ ilog (ft - 1) ≤ 2 ^ 8 := Nat.pow_le_pow_right (by decide) hfew
        omega
    rw [Nat.sub_eq_zero_of_le hfew]
    have hft' : ft - 1 + 1 = ft := by omega
    have hplain := inverts_uniform (Nat.le_trans hsmall (by decide)) hv
    have henc : (fun e : RangeEncoder => e.encodeUint v ft) = fun e => e.encode v (v + 1) ft := by
      funext e
      unfold RangeEncoder.encodeUint
      dsimp only
      rw [if_neg hmany, hft']
    have hdec : (fun d : RangeDecoder => d.decodeUint ft) = fun d =>
        ((d.decode ft).1, (d.decode ft).2.update (d.decode ft).1 ((d.decode ft).1 + 1) ft) := by
      funext d
      unfold RangeDecoder.decodeUint
      dsimp only
      rw [if_neg hmany, hft']
    rw [henc, hdec]
    exact hplain

/-! ## 5. Scripts of symbols -/

/-- The kinds of symbols, each with what both sides know of it. -/
inductive Kind
  | bitLogp (logp : Nat)
  | icdf (table : List UInt8) (ftb : Nat)
  | cdf (table : List UInt16)
  | cdfWindow (base : List UInt16) (start n : Nat)
  | cdfLe16 (table : List UInt16)
  | rawSymbol (nbits : Nat)
  | fine
  | bitsN (n : Nat)
  | uint (ft : Nat)

/-- A table as the bytes that the decoder may read it from. -/
def le16 (table : List UInt16) : Bytes :=
  table.flatMap fun w => [UInt8.ofNat w.toNat, UInt8.ofNat (w.toNat / 256)]

def RangeEncoder.write (e : RangeEncoder) : Kind → Nat → RangeEncoder
  | .bitLogp logp, v => e.bitLogp v logp
  | .icdf table ftb, v => e.encodeIcdf v table ftb
  | .cdf table, v => e.encodeCdf v table
  | .cdfWindow base start n, v => e.encodeCdfWindow v base start n
  | .cdfLe16 table, v => e.encodeCdf v table
  | .rawSymbol nbits, v => e.encodeRawSymbol v nbits
  | .fine, v => e.encode64FineSym v
  | .bitsN n, v => e.bitsN v n
  | .uint ft, v => e.encodeUint v ft

def RangeDecoder.read (d : RangeDecoder) : Kind → Nat × RangeDecoder
  | .bitLogp logp => d.bitLogp logp
  | .icdf table ftb => d.decodeIcdf table ftb
  | .cdf table => d.decodeCdf table
  | .cdfWindow base start n => d.decodeCdfWindow base start n
  | .cdfLe16 table => d.decodeCdfLe16 (le16 table)
  | .rawSymbol nbits => d.decodeRawSymbol nbits
  | .fine => d.decode64FineSym
  | .bitsN n => d.bitsN n
  | .uint ft => d.decodeUint ft

/-- The raw bits of a symbol. -/
def Kind.rawBits : Kind → Nat
  | .bitsN n => n
  | .uint ft => ilog (ft - 1) - 8
  | _ => 0

/-- A table of frequencies that do not fall, with room for the symbol. -/
structure Table (table : List UInt16) (v : Nat) : Prop where
  ascends : table.Pairwise (· ≤ ·)
  symbol : v + 1 < table.length
  lt : table.getD v 0 < table.getD (v + 1) 0

instance decidableTable (table : List UInt16) (v : Nat) : Decidable (Table table v) :=
  decidable_of_iff (table.Pairwise (· ≤ ·) ∧ v + 1 < table.length ∧
    table.getD v 0 < table.getD (v + 1) 0) ⟨fun h => ⟨h.1, h.2.1, h.2.2⟩, fun h => ⟨h.1, h.2, h.3⟩⟩

instance decidableDescends (table : List UInt8) (ftb v : Nat) : Decidable (Descends table ftb v) :=
  decidable_of_iff (table.Pairwise (· > ·) ∧ v < table.length ∧ (table.getD 0 0).toNat < 2 ^ ftb ∧
    ftb ≤ 23) ⟨fun h => ⟨h.1, h.2.1, h.2.2.1, h.2.2.2⟩, fun h => ⟨h.1, h.2, h.3, h.4⟩⟩

/-- What may be written as a symbol of the kind. -/
def Kind.Admits : Kind → Nat → Prop
  | .bitLogp logp, v => 0 < logp ∧ logp ≤ 23 ∧ v < 2
  | .icdf table ftb, v => Descends table ftb v
  | .cdf table, v => Table table v
  | .cdfWindow base start n, v => start + n ≤ base.length ∧ Table ((base.drop start).take n) v
  | .cdfLe16 table, v => Table table v
  | .rawSymbol nbits, v => nbits ≤ 23 ∧ v < 2 ^ nbits
  | .fine, v => v < 64
  | .bitsN n, v => n ≤ 25 ∧ v < 2 ^ n
  | .uint ft, v => ft ≤ 2 ^ 32 ∧ v < ft

instance decidableAdmits (k : Kind) (v : Nat) : Decidable (k.Admits v) := by
  unfold Kind.Admits
  split <;> infer_instance

theorem Table.entries {table : List UInt16} {v : Nat} (h : Table table v) :
    Ascends (fun i => (table.getD i 0).toNat) table.length v where
  le := by
    intro j k hjk hk
    rcases Nat.eq_or_lt_of_le hjk with rfl | hlt
    · exact Nat.le_refl _
    · have hle := List.pairwise_iff_getElem.mp h.ascends j k (by omega) hk hlt
      rw [List.getD_eq_getElem _ _ hk, List.getD_eq_getElem _ _ (by omega)]
      exact hle
  symbol := h.symbol
  lt := h.lt
  small := UInt16.toNat_lt _

/-- The symbols of a script, each kind with its value. -/
def writeAll (script : List (Kind × Nat)) (e : RangeEncoder) : RangeEncoder :=
  script.foldl (fun e s => e.write s.1 s.2) e

def readAll : List Kind → RangeDecoder → List Nat × RangeDecoder
  | [], d => ([], d)
  | k :: kinds, d =>
      let (v, d) := d.read k
      let (vs, d) := readAll kinds d
      (v :: vs, d)

/-- The raw bits of a script. -/
def rawBits (script : List (Kind × Nat)) : Nat := (script.map (·.1.rawBits)).foldr (· + ·) 0

theorem le16_entry (table : List UInt16) (i : Nat) :
    ((le16 table).getD (2 * i) 0).toNat + 256 * ((le16 table).getD (2 * i + 1) 0).toNat =
      (table.getD i 0).toNat := by
  induction table generalizing i with
  | nil => rfl
  | cons w rest ih =>
      have hw := w.toNat_lt
      cases i with
      | zero =>
          show (UInt8.ofNat w.toNat).toNat + 256 * (UInt8.ofNat (w.toNat / 256)).toNat = w.toNat
          rw [UInt8.toNat_ofNat', UInt8.toNat_ofNat']
          omega
      | succ i => exact ih i

theorem length_le16 (table : List UInt16) : (le16 table).length = 2 * table.length := by
  induction table with
  | nil => rfl
  | cons w rest ih =>
      show (le16 rest).length + 2 = 2 * (rest.length + 1)
      omega

/-- **A symbol of any kind is read back.** -/
theorem inverts_kind {k : Kind} {v : Nat} (h : k.Admits v) :
    Inverts (fun e => e.write k v) (fun d => d.read k) v k.rawBits := by
  cases k with
  | bitLogp logp => exact inverts_bitLogp h.1 h.2.1 h.2.2
  | icdf table ftb => exact inverts_icdf h
  | cdf table => exact inverts_entries (Table.entries h)
  | cdfWindow base start n =>
      obtain ⟨hfits, htable⟩ := h
      have hentries := htable.entries
      have hlen : ((base.drop start).take n).length = n := by
        rw [List.length_take, List.length_drop]
        omega
      have hat : ∀ i < n, ((base.drop start).take n).getD i 0 = base.getD (start + i) 0 := by
        intro i hi
        rw [List.getD_eq_getElem _ _ (by omega), List.getD_eq_getElem _ _ (by omega),
          List.getElem_take, List.getElem_drop]
      have hsymbol := hentries.symbol
      rw [hlen] at hentries hsymbol
      have hwindow : Ascends (fun i => (base.getD (start + i) 0).toNat) n v :=
        { le := by
            intro j k hjk hk
            rw [← hat j (by omega), ← hat k hk]
            exact hentries.le j k hjk hk
          symbol := hsymbol
          lt := by
            rw [← hat v (by omega), ← hat (v + 1) hsymbol]
            exact hentries.lt
          small := UInt16.toNat_lt _ }
      exact inverts_entries hwindow
  | cdfLe16 table =>
      have hdec : (fun d : RangeDecoder => d.read (.cdfLe16 table)) =
          fun d => d.decodeCdf table := by
        funext d
        show d.decodeCdfLe16 (le16 table) = d.decodeCdf table
        unfold RangeDecoder.decodeCdfLe16 RangeDecoder.decodeCdf
        rw [length_le16, Nat.mul_div_cancel_left _ (by decide)]
        congr 1
        funext i
        exact le16_entry table i
      rw [hdec]
      exact inverts_entries (Table.entries h)
  | rawSymbol nbits => exact inverts_rawSymbol h.1 h.2
  | fine => exact inverts_fine h
  | bitsN n => exact inverts_bitsN h.1 h.2
  | uint ft => exact inverts_uint h.1 h.2

theorem inverts_script : ∀ {script : List (Kind × Nat)}, (∀ s ∈ script, s.1.Admits s.2) →
    Inverts (writeAll script) (readAll (script.map (·.1))) (script.map (·.2)) (rawBits script)
  | [], _ => Inverts.pure []
  | s :: rest, h => by
      have htail : ∀ x ∈ rest, x.1.Admits x.2 := fun x hx => h x (List.mem_cons_of_mem s hx)
      have hrest := (inverts_script htail).map (s.2 :: ·)
      exact (inverts_kind (h s List.mem_cons_self)).bind
        (g := fun v d => (v :: (readAll (rest.map (·.1)) d).1, (readAll (rest.map (·.1)) d).2))
        hrest

/-! ## 6. Streams -/

/-- The buffer is as long as the encoder holds it to be. -/
def Room (e : RangeEncoder) : Prop := e.buf.length = e.storage

variable {e : RangeEncoder}

/-- What is not the buffer has no part in it. -/
theorem Room.congr {e' : RangeEncoder} (h : Room e) (hbuf : e'.buf.length = e.buf.length)
    (hstorage : e'.storage = e.storage) : Room e' := by
  unfold Room
  rw [hbuf, hstorage, show e.buf.length = e.storage from h]

theorem Room.writeByte (h : Room e) (b : Nat) : Room (e.writeByte b) := by
  unfold RangeEncoder.writeByte
  split
  · exact h.congr (List.length_set) rfl
  · exact h.congr rfl rfl

theorem Room.writeByteAtEnd (h : Room e) (b : Nat) : Room (e.writeByteAtEnd b) := by
  unfold RangeEncoder.writeByteAtEnd
  split
  · exact h.congr (List.length_set) rfl
  · exact h.congr rfl rfl

theorem Room.writeBytes (sym n : Nat) (h : Room e) : Room (RangeEncoder.writeBytes sym n e) := by
  induction n generalizing e with
  | zero => exact h
  | succ n ih => exact ih (h.writeByte sym)

theorem Room.carryOut (h : Room e) (c : Nat) : Room (e.carryOut c) := by
  unfold RangeEncoder.carryOut
  split
  · exact h.congr rfl rfl
  · have hrem : Room (e.writeRem (c >>> EC_SYM_BITS)) := by
      unfold RangeEncoder.writeRem
      split
      · exact h.writeByte _
      · exact h
    exact (hrem.writeBytes _ _).congr rfl rfl

theorem Room.normalize (rounds : Nat) (h : Room e) : Room (RangeEncoder.normalize rounds e) := by
  induction rounds generalizing e with
  | zero => exact h
  | succ rounds ih =>
      unfold RangeEncoder.normalize
      split
      · exact ih ((h.carryOut _).congr rfl rfl)
      · exact h

theorem Room.encode (h : Room e) (fl fh ft : Nat) : Room (e.encode fl fh ft) := by
  unfold RangeEncoder.encode
  split
  · exact h.congr rfl rfl
  · refine Room.normalize 4 ?_
    split <;> exact h.congr rfl rfl

theorem Room.encodeEntries (h : Room e) (s : Nat) (entry : Nat → Nat) (n : Nat) :
    Room (e.encodeEntries s entry n) := by
  unfold RangeEncoder.encodeEntries
  split
  · exact h.congr rfl rfl
  · exact h.encode _ _ _

theorem Room.flushWindow (rounds window used : Nat) (h : Room e) :
    Room (RangeEncoder.flushWindow rounds e window used).1 := by
  induction rounds generalizing e window used with
  | zero => exact h
  | succ rounds ih =>
      unfold RangeEncoder.flushWindow
      split
      · exact h
      · exact ih _ _ (h.writeByteAtEnd _)

theorem Room.bitsN (h : Room e) (fl n : Nat) : Room (e.bitsN fl n) := by
  have hflushed : Room
      (if e.nendBits + n > EC_WINDOW_SIZE then
        RangeEncoder.flushWindow e.nendBits e e.endWindow e.nendBits
      else (e, e.endWindow, e.nendBits)).1 := by
    split
    · exact h.flushWindow _ _ _
    · exact h
  exact hflushed.congr rfl rfl

theorem Room.write (h : Room e) (k : Kind) (v : Nat) : Room (e.write k v) := by
  cases k with
  | bitLogp logp =>
      refine Room.normalize 4 ?_
      split <;> exact h.congr rfl rfl
  | icdf table ftb =>
      refine Room.normalize 4 ?_
      split <;> exact h.congr rfl rfl
  | cdf table => exact h.encodeEntries _ _ _
  | cdfWindow base start n => exact h.encodeEntries _ _ _
  | cdfLe16 table => exact h.encodeEntries _ _ _
  | rawSymbol nbits => exact h.encode _ _ _
  | fine => exact h.encode _ _ _
  | bitsN n => exact h.bitsN _ _
  | uint ft =>
      show Room (e.encodeUint v ft)
      unfold RangeEncoder.encodeUint
      dsimp only
      split
      · exact (h.encode _ _ _).bitsN _ _
      · exact h.encode _ _ _

theorem Room.writeAll (script : List (Kind × Nat)) (h : Room e) : Room (writeAll script e) := by
  induction script generalizing e with
  | nil => exact h
  | cons s rest ih => exact ih (h.write s.1 s.2)

theorem Room.writeLast (rounds l last : Nat) (h : Room e) :
    Room (RangeEncoder.writeLast rounds e l last) := by
  induction rounds generalizing e l last with
  | zero => exact h
  | succ rounds ih =>
      unfold RangeEncoder.writeLast
      split
      · exact ih _ _ (h.carryOut _)
      · exact h

theorem Room.merge (h : Room e) (window used : Nat) : Room (e.merge window used) := by
  have hroom : e.buf.length = e.storage := h
  have hlen : (e.buf.take e.offs ++ List.replicate (e.storage - e.endOffs - e.offs) 0 ++
      e.buf.drop (e.offs + (e.storage - e.endOffs - e.offs))).length = e.buf.length := by
    simp only [List.length_append, List.length_take, List.length_replicate, List.length_drop]
    omega
  unfold RangeEncoder.merge
  split
  · exact h
  · dsimp only
    split
    · split
      · exact h.congr hlen rfl
      · exact h.congr (List.length_set.trans hlen) rfl
    · exact h.congr hlen rfl

theorem Room.finish (h : Room e) : Room e.finish := by
  have hlast := h.writeLast e.lastBits.1 e.lastBits.1 e.lastBits.2
  have hcarried : Room
      (if (RangeEncoder.writeLast e.lastBits.1 e e.lastBits.1 e.lastBits.2).rem.isSome ∨
          (RangeEncoder.writeLast e.lastBits.1 e e.lastBits.1 e.lastBits.2).ext > 0 then
        (RangeEncoder.writeLast e.lastBits.1 e e.lastBits.1 e.lastBits.2).carryOut 0
      else RangeEncoder.writeLast e.lastBits.1 e e.lastBits.1 e.lastBits.2) := by
    split
    · exact hlast.carryOut 0
    · exact hlast
  exact (hcarried.flushWindow _ _ _).merge _ _

/-- A stream, and what `done` makes of it. -/
def RangeEncoder.stream (e : RangeEncoder) (script : List (Kind × Nat)) : RangeEncoder :=
  (writeAll script e.reset).finish

/-- An encoder that wrote some streams, one after the other. -/
def afterStreams (size : Nat) (earlier : List (List (Kind × Nat))) : RangeEncoder :=
  earlier.foldl RangeEncoder.stream (RangeEncoder.new size)

theorem room_afterStreams {size : Nat} (h : size < 2 ^ 32) (earlier : List (List (Kind × Nat))) :
    Room (afterStreams size earlier) := by
  have hnew : Room (RangeEncoder.new size) := by
    show (List.replicate size 0).length = size % 2 ^ 32
    rw [List.length_replicate, Nat.mod_eq_of_lt h]
  unfold afterStreams
  generalize RangeEncoder.new size = e at hnew
  induction earlier generalizing e with
  | nil => exact hnew
  | cons script rest ih =>
      have hreset : Room e.reset := hnew.congr rfl rfl
      exact ih _ (hreset.writeAll script).finish

/-- **Every script of symbols is read back**, from the whole buffer, or, with no raw bits, from the
    bytes that were consumed; whatever the encoder wrote before. -/
theorem readAll_stream {size : Nat} (hsize : size < 2 ^ 32) (earlier : List (List (Kind × Nat)))
    (script : List (Kind × Nat)) (hadmits : ∀ s ∈ script, s.1.Admits s.2)
    (herr : ((afterStreams size earlier).stream script).err = false) :
    let e := (afterStreams size earlier).stream script
    let kinds := script.map (·.1)
    let values := script.map (·.2)
    (∃ d, readAll kinds (RangeDecoder.new e.buf) = (values, d) ∧ d.err = 0) ∧
      (rawBits script = 0 →
        ∃ d, readAll kinds (RangeDecoder.new (e.buf.take e.consumedLen)) = (values, d) ∧
          d.err = 0) := by
  have hroom := room_afterStreams hsize earlier
  have hinverts := inverts_script hadmits
  constructor
  · exact hinverts.read hroom herr
  · intro hnone
    rw [hnone] at hinverts
    exact hinverts.read_consumed hroom herr

/-- One symbol of each kind, after another stream. -/
theorem readAll_stream_mixed :
    let script : List (Kind × Nat) :=
      [(.icdf [255, 200, 150, 90, 30, 0] 8, 3), (.cdf [5, 8, 14, 30], 2), (.bitLogp 3, 1),
        (.bitsN 5, 19), (.uint 2000, 1234), (.fine, 40), (.rawSymbol 6, 33),
        (.cdfWindow [9, 9, 0, 3, 7, 12] 2 4, 1), (.cdfLe16 [0, 300, 700], 1)]
    let e := (afterStreams 24 [[(.uint 7, 6)]]).stream script
    ∃ d, readAll (script.map (·.1)) (RangeDecoder.new e.buf) =
        ([3, 2, 1, 19, 1234, 40, 33, 1, 1], d) ∧
      d.err = 0 :=
  (readAll_stream (by decide) _ _ (by decide) (by decide)).1

/-! ## 7. Blocks -/

/-- Some symbols, a block of a format, and some more symbols. -/
def RangeEncoder.streamAmid (e : RangeEncoder) (before : List (Kind × Nat))
    (enc : RangeEncoder → RangeEncoder) (after : List (Kind × Nat)) : RangeEncoder :=
  (writeAll after (enc (writeAll before e.reset))).finish

def readAmid (before : List (Kind × Nat)) (dec : RangeDecoder → α × RangeDecoder)
    (after : List (Kind × Nat)) (d : RangeDecoder) : (List Nat × α × List Nat) × RangeDecoder :=
  let (values, d) := readAll (before.map (·.1)) d
  let (a, d) := dec d
  let (values', d) := readAll (after.map (·.1)) d
  ((values, a, values'), d)

/-- What the symbols are, with what the block is. -/
def told (before : List (Kind × Nat)) (a : α) (after : List (Kind × Nat)) : List Nat × α × List Nat :=
  (before.map (·.2), a, after.map (·.2))

/-- **A block that is read back is read back amid any symbols**, from the whole buffer, or, with no
    raw bits, from the bytes that were consumed; whatever the encoder wrote before. -/
theorem Inverts.amid {enc : RangeEncoder → RangeEncoder} {dec : RangeDecoder → α × RangeDecoder}
    {a : α} (h : Inverts enc dec a 0) {size : Nat} (hsize : size < 2 ^ 32)
    (earlier : List (List (Kind × Nat))) {before after : List (Kind × Nat)}
    (hbefore : ∀ s ∈ before, s.1.Admits s.2) (hafter : ∀ s ∈ after, s.1.Admits s.2)
    (herr : ((afterStreams size earlier).streamAmid before enc after).err = false) :
    let e := (afterStreams size earlier).streamAmid before enc after
    (∃ d, readAmid before dec after (RangeDecoder.new e.buf) = (told before a after, d) ∧
        d.err = 0) ∧
      (rawBits before + rawBits after = 0 →
        ∃ d, readAmid before dec after (RangeDecoder.new (e.buf.take e.consumedLen)) =
          (told before a after, d) ∧ d.err = 0) := by
  have hroom := room_afterStreams hsize earlier
  have hrest := (h.bind ((inverts_script hafter).map fun values => (a, values))
    (g := fun a d => ((a, (readAll (after.map (·.1)) d).1), (readAll (after.map (·.1)) d).2))).map
      fun r => (before.map (·.2), r)
  have hall := (inverts_script hbefore).bind hrest (g := fun values d =>
    ((values, (dec d).1, (readAll (after.map (·.1)) (dec d).2).1),
      (readAll (after.map (·.1)) (dec d).2).2))
  constructor
  · exact hall.read hroom herr
  · intro hnone
    have hbits : rawBits before + (0 + rawBits after) = 0 := by omega
    rw [hbits] at hall
    exact hall.read_consumed hroom herr

end Ruwa.Call
