/-
  File:      Ruwa/Library/Rollover.lean
  Subject:   ROLLOVER COUNTERS: long packet indices carried by short sequence numbers.

  A sender numbers its packets 0, 1, 2, … without end, but a packet carries only the remainder of
  its number modulo `2 * half`. The quotient, the EPOCH, is never sent: the receiver guesses it
  from the highest number it has accepted so far. The guess compares the remainder with the
  remainder of that highest number, one half of the range at a time.

  * `guess_near` -- the guess is the epoch, for every packet less than `half` away from the
    highest number accepted, in either direction and on either side of a rollover;
  * `follow_near` -- after the packet is accepted, the receiver's pair is the quotient and the
    remainder of the new highest number.
-/
import Mathlib.Algebra.Group.Nat.Defs
import Mathlib.Tactic.Common

namespace Ruwa.Library.Rollover

variable {half : Nat}

/-- The numbers `a` and `b` are less than `half` apart. -/
def Near (half a b : Nat) : Prop := a < b + half ∧ b < a + half

instance (half a b : Nat) : Decidable (Near half a b) := inferInstanceAs (Decidable (_ ∧ _))

/-- The epoch guessed for remainder `seq`, when the highest number accepted has epoch `epoch` and
    remainder `last`. -/
def guess (half epoch last seq : Nat) : Nat :=
  if last < half then
    if last + half < seq then epoch - 1 else epoch
  else
    if seq + half < last then epoch + 1 else epoch

/-- The pair kept after a packet with epoch `v` and remainder `seq` was accepted. -/
def follow (epoch last v seq : Nat) : Nat × Nat :=
  if v = epoch then (epoch, max last seq)
  else if v = epoch + 1 then (v, seq)
  else (epoch, last)

theorem Near.pos {a b : Nat} (h : Near half a b) : 0 < 2 * half := by
  obtain ⟨hab, hba⟩ := h
  omega

/-- Two numbers less than half a range apart lie in the same epoch or in neighbouring ones; and
    the remainders tell which. -/
theorem near_cases {a b : Nat} (h : Near half a b) :
    (a / (2 * half) = b / (2 * half) ∧ Near half (a % (2 * half)) (b % (2 * half))) ∨
    (a / (2 * half) = b / (2 * half) + 1 ∧ a % (2 * half) + half < b % (2 * half)) ∨
    (b / (2 * half) = a / (2 * half) + 1 ∧ b % (2 * half) + half < a % (2 * half)) := by
  have hpos := h.pos
  obtain ⟨hab, hba⟩ := h
  have ha := Nat.div_add_mod a (2 * half)
  have hb := Nat.div_add_mod b (2 * half)
  have hra := Nat.mod_lt a hpos
  have hrb := Nat.mod_lt b hpos
  generalize a / (2 * half) = p at *
  generalize b / (2 * half) = q at *
  generalize a % (2 * half) = r at *
  generalize b % (2 * half) = t at *
  -- the quotients differ by at most one: one epoch more is already `2 * half` further away
  rcases Nat.lt_trichotomy p q with hlt | heq | hgt
  · have hstep : 2 * half * (p + 1) ≤ 2 * half * q := Nat.mul_le_mul_left _ hlt
    rw [Nat.mul_add, Nat.mul_one] at hstep
    have hq : q = p + 1 := by
      by_contra hne
      have h2 : 2 * half * (p + 2) ≤ 2 * half * q := Nat.mul_le_mul_left _ (by omega)
      rw [Nat.mul_add] at h2
      omega
    subst hq
    rw [Nat.mul_add, Nat.mul_one] at hb
    exact Or.inr (Or.inr ⟨rfl, by omega⟩)
  · subst heq
    exact Or.inl ⟨rfl, by omega, by omega⟩
  · have hstep : 2 * half * (q + 1) ≤ 2 * half * p := Nat.mul_le_mul_left _ hgt
    rw [Nat.mul_add, Nat.mul_one] at hstep
    have hp : p = q + 1 := by
      by_contra hne
      have h2 : 2 * half * (q + 2) ≤ 2 * half * p := Nat.mul_le_mul_left _ (by omega)
      rw [Nat.mul_add] at h2
      omega
    subst hp
    rw [Nat.mul_add, Nat.mul_one] at ha
    exact Or.inr (Or.inl ⟨rfl, by omega⟩)

/-- **The guess is right for every packet near the highest one.** -/
theorem guess_near {idx high : Nat} (h : Near half idx high) :
    guess half (high / (2 * half)) (high % (2 * half)) (idx % (2 * half)) = idx / (2 * half) := by
  have hpos := h.pos
  have hri := Nat.mod_lt idx hpos
  have hrh := Nat.mod_lt high hpos
  unfold guess
  rcases near_cases h with ⟨hq, hn⟩ | ⟨hq, hlt⟩ | ⟨hq, hlt⟩
  · obtain ⟨h₁, h₂⟩ := hn
    rw [hq]
    split <;> rw [if_neg (by omega)]
  · rw [if_neg (by omega), if_pos hlt, hq]
  · rw [if_pos (by omega), if_pos hlt, hq, Nat.add_sub_cancel]

/-- **The pair follows the highest number.** -/
theorem follow_near {idx high : Nat} (h : Near half idx high) :
    follow (high / (2 * half)) (high % (2 * half)) (idx / (2 * half)) (idx % (2 * half)) =
      (max high idx / (2 * half), max high idx % (2 * half)) := by
  have hi := Nat.div_add_mod idx (2 * half)
  have hh := Nat.div_add_mod high (2 * half)
  unfold follow
  rcases near_cases h with ⟨hq, -⟩ | ⟨hq, hlt⟩ | ⟨hq, hlt⟩
  · rw [if_pos hq]
    rcases Nat.le_total high idx with hle | hle
    · have hr : high % (2 * half) ≤ idx % (2 * half) := by
        rw [hq] at hi
        omega
      rw [Nat.max_eq_right hle, Nat.max_eq_right hr, hq]
    · have hr : idx % (2 * half) ≤ high % (2 * half) := by
        rw [hq] at hi
        omega
      rw [Nat.max_eq_left hle, Nat.max_eq_left hr]
  · have hle : high ≤ idx := by
      rw [hq, Nat.mul_add, Nat.mul_one] at hi
      have := Nat.mod_lt high h.pos
      omega
    rw [if_neg (by omega), if_pos hq, Nat.max_eq_right hle]
  · have hle : idx ≤ high := by
      rw [hq, Nat.mul_add, Nat.mul_one] at hh
      have := Nat.mod_lt idx h.pos
      omega
    rw [if_neg (by omega), if_neg (by omega), Nat.max_eq_left hle]

end Ruwa.Library.Rollover
