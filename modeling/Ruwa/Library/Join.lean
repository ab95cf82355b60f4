/-
  File:      Ruwa/Library/Join.lean
  Subject:   LEFT JOINS: the rows of a table that match, or none at all.

  * `matched_of_unique` -- a join with a key gives one row;
  * `length_matched_le_one` -- and so does one that finds no second.
-/
import Mathlib.Data.List.Nodup

namespace Ruwa.Library

variable {α : Type}

/-- What a row is joined with: the rows that match, and a row of nulls if there is none. -/
def matched (p : α → Bool) (rows : List α) : List (Option α) :=
  match rows.filter p with
  | [] => [none]
  | a :: as => (a :: as).map some

variable {p : α → Bool} {rows : List α}

theorem mem_matched_some {a : α} : some a ∈ matched p rows ↔ a ∈ rows ∧ p a = true := by
  rw [← List.mem_filter]
  unfold matched
  cases rows.filter p with
  | nil => simp
  | cons b bs => simp

theorem mem_matched_none : none ∈ matched p rows ↔ ∀ a ∈ rows, p a = false := by
  have hnil : (∀ a ∈ rows, p a = false) ↔ rows.filter p = [] := by
    simp [List.filter_eq_nil_iff]
  rw [hnil]
  unfold matched
  cases rows.filter p with
  | nil => simp
  | cons b bs => simp

theorem matched_ne_nil : matched p rows ≠ [] := by
  unfold matched
  cases rows.filter p <;> simp

/-- Rows of which no two match leave one at most. -/
theorem length_filter_le_one (h : rows.Pairwise fun a b => ¬(p a = true ∧ p b = true)) :
    (rows.filter p).length ≤ 1 := by
  have hfilter : (rows.filter p).Pairwise fun a b => ¬(p a = true ∧ p b = true) := h.filter p
  have hmem : ∀ a ∈ rows.filter p, p a = true := fun a ha => (List.mem_filter.mp ha).2
  cases hrows : rows.filter p with
  | nil => exact Nat.zero_le 1
  | cons a as =>
      cases as with
      | nil => exact Nat.le_refl 1
      | cons b bs =>
          rw [hrows] at hfilter hmem
          have hab := List.rel_of_pairwise_cons hfilter (List.mem_cons_self (a := b) (l := bs))
          exact absurd ⟨hmem a (by simp), hmem b (by simp)⟩ hab

/-- **A join with a key gives one row.** -/
theorem matched_of_unique (h : rows.Pairwise fun a b => ¬(p a = true ∧ p b = true)) :
    matched p rows = [rows.find? p] := by
  have hone := length_filter_le_one h
  rw [← List.head?_filter]
  unfold matched
  cases hrows : rows.filter p with
  | nil => rfl
  | cons a as =>
      rw [hrows] at hone
      have hnil : as = [] := List.length_eq_zero_iff.mp (by simpa using hone)
      rw [hnil]
      rfl

/-- **A join gives one row exactly when no two rows match.** -/
theorem length_matched_le_one (hnodup : rows.Nodup) :
    (matched p rows).length ≤ 1 ↔ ∀ a ∈ rows, ∀ b ∈ rows, p a = true → p b = true → a = b := by
  have hlength : (matched p rows).length ≤ 1 ↔ (rows.filter p).length ≤ 1 := by
    unfold matched
    cases rows.filter p with
    | nil => simp
    | cons a as => simp
  rw [hlength]
  constructor
  · intro h a ha b hb hpa hpb
    have ha' : a ∈ rows.filter p := List.mem_filter.mpr ⟨ha, hpa⟩
    have hb' : b ∈ rows.filter p := List.mem_filter.mpr ⟨hb, hpb⟩
    cases hrows : rows.filter p with
    | nil => simp [hrows] at ha'
    | cons c cs =>
        rw [hrows] at ha' hb' h
        have hnil : cs = [] := List.length_eq_zero_iff.mp (by simpa using h)
        subst hnil
        rw [List.mem_singleton.mp ha', List.mem_singleton.mp hb']
  · intro h
    refine length_filter_le_one (hnodup.imp_of_mem fun ha hb hne hboth => ?_)
    exact hne (h _ ha _ hb hboth.1 hboth.2)

end Ruwa.Library
