/-
  File:      Ruwa/Call/Roc.lean
  Subject:   THE ROLLOVER COUNTERS (`call.rs`): `RocTracker` on the send side, `RecvRocTracker` on
             the receive side.

  A packet index has 48 bits and only the low 16 travel, as the RTP sequence number. Both trackers
  hold the upper 32 (the ROC) and the last or highest sequence number, with the comparisons
  written out on signed integers. Read as ONE number each, they are simple:

  * `RocTracker.Counts t n` -- the next packet folded is number `n` of the stream;
    `counts_advance` is the step;
  * `RecvRocTracker.Holds t high` -- the highest index accepted is `high` (`none`: nothing yet);
    `estimateRoc_near` and `holds_commit` are the guess and the follow of `Library/Rollover.lean`.
-/
import Ruwa.Library.Rollover

namespace Ruwa.Call

open Ruwa.Library

/-- The 48-bit index of a packet: `ROC << 16 | seq`. -/
def packetIndex (roc : UInt32) (seq : UInt16) : Nat := roc.toNat * 0x10000 + seq.toNat

theorem packetIndex_lt (roc : UInt32) (seq : UInt16) : packetIndex roc seq < 2 ^ 48 := by
  have := roc.toNat_lt
  have := seq.toNat_lt
  unfold packetIndex
  omega

theorem packetIndex_div (roc : UInt32) (seq : UInt16) :
    packetIndex roc seq / (2 * 2 ^ 15) = roc.toNat := by
  have := seq.toNat_lt
  unfold packetIndex
  omega

theorem packetIndex_mod (roc : UInt32) (seq : UInt16) :
    packetIndex roc seq % (2 * 2 ^ 15) = seq.toNat := by
  have := seq.toNat_lt
  unfold packetIndex
  omega

/-! ## 1. The send side -/

/-- Send-side tracker for monotonic 16-bit sequence numbers. -/
structure RocTracker where
  roc : UInt32
  lastSeq : UInt16
  initialized : Bool
  deriving Repr, DecidableEq

namespace RocTracker

def default : RocTracker := ⟨0, 0, false⟩

/-- Folds the next outbound `seq`, returning the ROC to build its IV with. -/
def advance (t : RocTracker) (seq : UInt16) : UInt32 × RocTracker :=
  if !t.initialized then
    (t.roc, { t with lastSeq := seq, initialized := true })
  else
    -- a signed 16-bit gap below -32768 is the wrap
    let roc := if (seq.toNat : Int) - (t.lastSeq.toNat : Int) < -32768 then t.roc + 1 else t.roc
    (roc, { t with roc := roc, lastSeq := seq })

/-- The tracker has folded the packets below `n`, which start at number 1. -/
def Counts (t : RocTracker) (n : Nat) : Prop :=
  (t = default ∧ n = 1) ∨
  (t.initialized = true ∧ 1 < n ∧ packetIndex t.roc t.lastSeq = (n - 1) % 2 ^ 48)

theorem counts_default : default.Counts 1 := Or.inl ⟨rfl, rfl⟩

/-- **One packet: its index is its number, and the tracker counts on.** -/
theorem counts_advance {t : RocTracker} {n : Nat} (h : t.Counts n) {seq : UInt16}
    (hseq : seq.toNat = n % 2 ^ 16) :
    packetIndex (t.advance seq).1 seq = n % 2 ^ 48 ∧ (t.advance seq).2.Counts (n + 1) := by
  rcases h with ⟨rfl, rfl⟩ | ⟨hi, hn, hidx⟩
  · have hix : packetIndex default.roc seq = 1 % 2 ^ 48 := by
      simp [packetIndex, default, hseq]
    exact ⟨hix, Or.inr ⟨rfl, by omega, hix⟩⟩
  · have hlast : t.lastSeq.toNat = (n - 1) % 2 ^ 16 := by
      have := t.lastSeq.toNat_lt
      unfold packetIndex at hidx
      omega
    have hroc : t.roc.toNat = (n - 1) % 2 ^ 48 / 2 ^ 16 := by
      have := t.lastSeq.toNat_lt
      unfold packetIndex at hidx
      omega
    have hix : packetIndex (t.advance seq).1 seq = n % 2 ^ 48 := by
      unfold advance packetIndex
      simp only [hi, Bool.not_true, Bool.false_eq_true, if_false]
      split
      · -- the sequence number wrapped, so a whole epoch is complete
        rename_i hgap
        rw [UInt32.toNat_add, hroc, hseq]
        rw [hlast, hseq] at hgap
        simp only [UInt32.reduceToNat]
        omega
      · rename_i hgap
        rw [hlast, hseq] at hgap
        rw [hroc, hseq]
        omega
    refine ⟨hix, Or.inr ⟨?_, by omega, ?_⟩⟩
    · simp [advance, hi]
    · have hsame : packetIndex (t.advance seq).2.roc (t.advance seq).2.lastSeq =
          packetIndex (t.advance seq).1 seq := by
        simp [advance, hi]
      rw [hsame, hix, Nat.add_sub_cancel]

end RocTracker

/-! ## 2. The receive side -/

/-- Receive-side estimator (guess the index from the highest sequence number seen). -/
structure RecvRocTracker where
  roc : UInt32
  sL : UInt16
  initialized : Bool
  deriving Repr, DecidableEq

namespace RecvRocTracker

def default : RecvRocTracker := ⟨0, 0, false⟩

/-- The ROC estimated for `seq`, without folding anything. -/
def estimateRoc (t : RecvRocTracker) (seq : UInt16) : UInt32 :=
  if !t.initialized then
    t.roc
  else if t.sL < 0x8000 then
    if (seq.toNat : Int) - (t.sL.toNat : Int) > 0x8000 then t.roc - 1 else t.roc
  else if (t.sL.toNat : Int) - (seq.toNat : Int) > 0x8000 then
    t.roc + 1
  else
    t.roc

/-- Folds an AUTHENTICATED packet; `v` comes from `estimateRoc`. -/
def commitRoc (t : RecvRocTracker) (v : UInt32) (seq : UInt16) : RecvRocTracker :=
  if !t.initialized then
    { t with sL := seq, initialized := true }
  else if v = t.roc then
    if seq > t.sL then { t with sL := seq } else t
  else if v = t.roc + 1 then
    { t with roc := v, sL := seq }
  else
    -- a reordered late packet of the epoch before: leave the state untouched
    t

/-- The highest index accepted so far, as the tracker holds it. -/
def Holds (t : RecvRocTracker) : Option Nat → Prop
  | none => t = default
  | some high => t.initialized = true ∧ packetIndex t.roc t.sL = high

/-- A packet the tracker can place: the first one has ROC 0, every other one lies within half a
    range of the highest index accepted. -/
def Reachable (roc : UInt32) (seq : UInt16) : Option Nat → Prop
  | none => roc = 0
  | some high => Rollover.Near (2 ^ 15) (packetIndex roc seq) high

instance (roc : UInt32) (seq : UInt16) (high : Option Nat) : Decidable (Reachable roc seq high) := by
  cases high <;> unfold Reachable <;> infer_instance

/-- The highest index once a packet is accepted. -/
def raise (high : Option Nat) (idx : Nat) : Option Nat := some (max (high.getD 0) idx)

/-- **The estimate is the ROC the packet was sent with.** -/
theorem estimateRoc_near {t : RecvRocTracker} {high : Option Nat} (ht : t.Holds high)
    {roc : UInt32} {seq : UInt16} (h : Reachable roc seq high) : t.estimateRoc seq = roc := by
  cases high with
  | none =>
      have hd : t = default := ht
      have hr : roc = 0 := h
      rw [hd, hr]
      rfl
  | some high =>
      obtain ⟨hi, rfl⟩ := ht
      have hnear : Rollover.Near (2 ^ 15) (packetIndex roc seq) (packetIndex t.roc t.sL) := h
      have hguess := Rollover.guess_near hnear
      rw [packetIndex_div, packetIndex_mod, packetIndex_mod, packetIndex_div] at hguess
      have hlt := roc.toNat_lt
      have htlt := t.roc.toNat_lt
      obtain ⟨hab, hba⟩ := hnear
      unfold packetIndex at hab hba
      unfold Rollover.guess at hguess
      unfold estimateRoc
      simp only [hi, Bool.not_true, Bool.false_eq_true, if_false, UInt16.lt_iff_toNat_lt]
      apply UInt32.toNat_inj.mp
      by_cases hlow : t.sL.toNat < 2 ^ 15
      · rw [if_pos hlow] at hguess
        rw [if_pos (by exact hlow)]
        by_cases hlate : t.sL.toNat + 2 ^ 15 < seq.toNat
        · -- a late packet from before the rollover: the epoch below exists, or nothing was near
          rw [if_pos hlate] at hguess
          rw [if_pos (by omega), UInt32.toNat_sub]
          simp only [UInt32.reduceToNat]
          omega
        · rw [if_neg hlate] at hguess
          rw [if_neg (by omega), hguess]
      · rw [if_neg hlow] at hguess
        rw [if_neg (by exact hlow)]
        by_cases hearly : seq.toNat + 2 ^ 15 < t.sL.toNat
        · rw [if_pos hearly] at hguess
          rw [if_pos (by omega), UInt32.toNat_add]
          simp only [UInt32.reduceToNat]
          omega
        · rw [if_neg hearly] at hguess
          rw [if_neg (by omega), hguess]

/-- A commit is the general `follow`, as long as `v` does not lie a whole ROC range below. -/
theorem commitRoc_follow {t : RecvRocTracker} (hi : t.initialized = true) {v : UInt32}
    (seq : UInt16) (hv : t.roc.toNat ≤ v.toNat + 1) :
    ((t.commitRoc v seq).roc.toNat, (t.commitRoc v seq).sL.toNat) =
      Rollover.follow t.roc.toNat t.sL.toNat v.toNat seq.toNat := by
  have hlt := v.toNat_lt
  have htlt := t.roc.toNat_lt
  have hsucc : v = t.roc + 1 ↔ v.toNat = t.roc.toNat + 1 := by
    rw [← UInt32.toNat_inj, UInt32.toNat_add]
    simp only [UInt32.reduceToNat]
    omega
  unfold commitRoc Rollover.follow
  simp only [hi, Bool.not_true, Bool.false_eq_true, if_false, hsucc, ← UInt32.toNat_inj]
  by_cases hsame : v.toNat = t.roc.toNat
  · rw [if_pos hsame, if_pos hsame]
    by_cases hgt : seq > t.sL
    · have hgt' : t.sL.toNat < seq.toNat := hgt
      rw [if_pos hgt, Nat.max_eq_right (Nat.le_of_lt hgt')]
    · have hle : seq.toNat ≤ t.sL.toNat := Nat.le_of_not_lt hgt
      rw [if_neg hgt, Nat.max_eq_left hle]
  · rw [if_neg hsame, if_neg hsame]
    by_cases hnext : v.toNat = t.roc.toNat + 1
    · rw [if_pos hnext, if_pos hnext]
    · rw [if_neg hnext, if_neg hnext]

theorem commitRoc_initialized (t : RecvRocTracker) (v : UInt32) (seq : UInt16) :
    (t.commitRoc v seq).initialized = true := by
  obtain ⟨r, s, i⟩ := t
  cases i with
  | false => rfl
  | true =>
      unfold commitRoc
      simp only [Bool.not_true, Bool.false_eq_true, if_false]
      split
      · split <;> rfl
      · split <;> rfl

/-- **A commit follows the highest index accepted.** -/
theorem holds_commit {t : RecvRocTracker} {high : Option Nat} (ht : t.Holds high)
    {roc : UInt32} {seq : UInt16} (h : Reachable roc seq high) :
    (t.commitRoc roc seq).Holds (raise high (packetIndex roc seq)) := by
  cases high with
  | none =>
      have hd : t = default := ht
      have hr : roc = 0 := h
      subst hd hr
      refine ⟨rfl, ?_⟩
      show packetIndex 0 seq = max 0 (packetIndex 0 seq)
      omega
  | some high =>
      obtain ⟨hi, rfl⟩ := ht
      have hnear : Rollover.Near (2 ^ 15) (packetIndex roc seq) (packetIndex t.roc t.sL) := h
      have hfollow := Rollover.follow_near hnear
      rw [packetIndex_div, packetIndex_mod, packetIndex_div, packetIndex_mod] at hfollow
      show (t.commitRoc roc seq).initialized = true ∧
        packetIndex (t.commitRoc roc seq).roc (t.commitRoc roc seq).sL =
          max (packetIndex t.roc t.sL) (packetIndex roc seq)
      have hbelow : t.roc.toNat ≤ roc.toNat + 1 := by
        have := hnear.2
        have := t.sL.toNat_lt
        have := seq.toNat_lt
        unfold packetIndex at *
        omega
      rw [← commitRoc_follow hi seq hbelow] at hfollow
      obtain ⟨hq, hr⟩ := Prod.mk.inj hfollow
      refine ⟨commitRoc_initialized t roc seq, ?_⟩
      rw [packetIndex, hq, hr, Nat.mul_comm]
      exact Nat.div_add_mod _ (2 * 2 ^ 15)

end RecvRocTracker

end Ruwa.Call
