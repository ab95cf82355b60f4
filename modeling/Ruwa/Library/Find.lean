/-
  File:      Ruwa/Library/Find.lean
  Subject:   THE FIRST OCCURRENCE of a pattern in a list.

  * `find` -- where it starts; `find_eq_none` says when there is none;
  * `Marked` -- a pattern that starts with a mark and does not have it a second time. Two such
    patterns never overlap, so what stands before one of them decides nothing about it:
    `find_append`, `infix_append_iff`.
-/
import Mathlib.Data.List.Infix
import Mathlib.Tactic.Common

namespace Ruwa.Library

variable {α : Type} [DecidableEq α] {pat : List α}

/-- The index of the first occurrence. -/
def find (pat : List α) : List α → Option Nat
  | [] => if pat = [] then some 0 else none
  | c :: cs => if pat.isPrefixOf (c :: cs) then some 0 else (find pat cs).map (· + 1)

theorem find_eq_none {cs : List α} : find pat cs = none ↔ ¬pat <:+: cs := by
  induction cs with
  | nil => simp [find]
  | cons c cs ih =>
      rw [List.infix_cons_iff, not_or, ← ih, find]
      by_cases h : pat.isPrefixOf (c :: cs) = true
      · simp [h, List.isPrefixOf_iff_prefix.mp h]
      · have hno : ¬pat <+: c :: cs := fun hp => h (List.isPrefixOf_iff_prefix.mpr hp)
        simp [h, hno]

/-- What stands before and behind the first occurrence. -/
theorem find_eq_some {cs : List α} {i : Nat} (hne : pat ≠ []) (h : find pat cs = some i) :
    ∃ l r, cs = l ++ pat ++ r ∧ l.length = i ∧ ¬pat <:+: l := by
  induction cs generalizing i with
  | nil =>
      rw [find, if_neg hne] at h
      cases h
  | cons c cs ih =>
      rw [find] at h
      split at h
      · rename_i hfront
        obtain ⟨r, hr⟩ := List.isPrefixOf_iff_prefix.mp hfront
        cases h
        exact ⟨[], r, hr.symm, rfl, fun hin => hne (List.infix_nil.mp hin)⟩
      · rename_i hfront
        obtain ⟨j, hj, rfl⟩ := Option.map_eq_some_iff.mp h
        obtain ⟨l, r, rfl, rfl, hl⟩ := ih hj
        refine ⟨c :: l, r, rfl, rfl, ?_⟩
        rw [List.infix_cons_iff, not_or]
        refine ⟨fun hp => hfront (List.isPrefixOf_iff_prefix.mpr ?_), hl⟩
        exact hp.trans ⟨pat ++ r, by rw [List.append_assoc]; rfl⟩

/-! ## Marked patterns -/

/-- It starts with the mark, which it has only once. -/
def Marked (mark : α) (pat : List α) : Prop := ∃ body, pat = mark :: body ∧ mark ∉ body

variable {mark : α}

omit [DecidableEq α] in
theorem Marked.ne_nil (h : Marked mark pat) : pat ≠ [] := by
  obtain ⟨body, rfl, -⟩ := h
  exact List.cons_ne_nil _ _

omit [DecidableEq α] in
/-- At the front of a list that goes on with the mark, the pattern ends before. -/
theorem Marked.prefix_left (h : Marked mark pat) {l r : List α} (hl : l ≠ [])
    (hp : pat <+: l ++ mark :: r) : pat <+: l := by
  obtain ⟨body, rfl, hbody⟩ := h
  by_cases hlen : (mark :: body).length ≤ l.length
  · exact List.prefix_of_prefix_length_le hp (List.prefix_append l _) hlen
  · obtain ⟨rest, hrest⟩ := List.prefix_of_prefix_length_le (List.prefix_append l (mark :: r)) hp
      (Nat.le_of_not_le hlen)
    cases rest with
    | nil =>
        rw [List.append_nil] at hrest
        exact hrest ▸ List.prefix_refl _
    | cons c rest =>
        -- the mark behind `l` would be a second one in the pattern
        obtain ⟨suf, hsuf⟩ := hp
        rw [← hrest, List.append_assoc] at hsuf
        have hc : c = mark := (List.cons.inj (List.append_cancel_left hsuf)).1
        subst hc
        obtain ⟨a, l, rfl⟩ := List.exists_cons_of_ne_nil hl
        refine absurd ?_ hbody
        rw [← (List.cons.inj hrest).2]
        exact List.mem_append_right l List.mem_cons_self

omit [DecidableEq α] in
/-- **An occurrence lies on one side of a mark.** -/
theorem Marked.infix_append_iff (h : Marked mark pat) {l r : List α} :
    pat <:+: l ++ mark :: r ↔ pat <:+: l ∨ pat <:+: mark :: r := by
  constructor
  · induction l with
    | nil => exact .inr
    | cons c l ih =>
        intro hin
        rcases List.infix_cons_iff.mp hin with hp | hin
        · exact .inl (h.prefix_left (List.cons_ne_nil c l) hp).isInfix
        · exact (ih hin).imp_left fun hl => List.infix_cons hl
  · rintro (hl | hr)
    · exact hl.trans (List.prefix_append _ _).isInfix
    · exact hr.trans (List.suffix_append _ _).isInfix

omit [DecidableEq α] in
/-- It starts behind everything that has no mark. -/
theorem Marked.infix_of_append (h : Marked mark pat) {l r : List α} (hl : mark ∉ l)
    (hin : pat <:+: l ++ r) : pat <:+: r := by
  obtain ⟨body, rfl, -⟩ := h
  induction l with
  | nil => exact hin
  | cons c l ih =>
      rcases List.infix_cons_iff.mp hin with ⟨suf, hp⟩ | hin
      · exact absurd ((List.cons.inj hp).1 ▸ List.mem_cons_self) hl
      · exact ih (fun hm => hl (List.mem_cons_of_mem c hm)) hin

omit [DecidableEq α] in
/-- **Two occurrences do not overlap**: the later one stands behind the whole of the earlier. -/
theorem Marked.behind {pat' : List α} (h : Marked mark pat) (h' : Marked mark pat')
    {l r l' r' : List α} (heq : l ++ pat ++ r = l' ++ pat' ++ r') (hlt : l.length < l'.length) :
    ∃ m, l' = l ++ pat ++ m ∧ r = m ++ pat' ++ r' := by
  obtain ⟨body, rfl, hbody⟩ := h
  obtain ⟨body', rfl, -⟩ := h'
  rw [List.append_assoc, List.append_assoc] at heq
  obtain ⟨mid, rfl⟩ := List.prefix_of_prefix_length_le (List.prefix_append l _)
    (heq ▸ List.prefix_append l' _) (Nat.le_of_lt hlt)
  rw [List.append_assoc] at heq
  have hmid := List.append_cancel_left heq
  rcases List.append_eq_append_iff.mp hmid with ⟨m, rfl, hr⟩ | ⟨m, hpat, hr⟩
  · exact ⟨m, (List.append_assoc _ _ _).symm, by rw [hr, List.append_assoc]⟩
  · cases m with
    | nil =>
        rw [List.append_nil] at hpat
        exact ⟨[], by rw [List.append_nil, hpat], hr.symm⟩
    | cons c m =>
        -- the mark of the later occurrence would be a second one in the earlier
        have hc : mark = c := (List.cons.inj hr).1
        subst hc
        cases mid with
        | nil => exact absurd hlt (by simp)
        | cons b mid =>
            refine absurd ?_ hbody
            rw [(List.cons.inj hpat).2]
            exact List.mem_append_right mid List.mem_cons_self

/-- **The first occurrence is the one that has none before it.** -/
theorem find_append (h : Marked mark pat) {l : List α} (hl : ¬pat <:+: l) (r : List α) :
    find pat (l ++ pat ++ r) = some l.length := by
  induction l with
  | nil =>
      obtain ⟨body, rfl, -⟩ := h
      exact if_pos (List.isPrefixOf_iff_prefix.mpr (List.prefix_append _ r))
  | cons c l ih =>
      rw [List.infix_cons_iff, not_or] at hl
      have hfront : ¬pat.isPrefixOf (c :: (l ++ pat ++ r)) = true := by
        intro hp
        obtain ⟨body, hpat, -⟩ := id h
        refine hl.1 (h.prefix_left (List.cons_ne_nil c l) (r := body ++ r) ?_)
        have := List.isPrefixOf_iff_prefix.mp hp
        rw [hpat] at this ⊢
        simpa only [List.cons_append, List.append_assoc] using this
      rw [List.cons_append, List.cons_append, find, if_neg hfront, ih hl.2]
      rfl

end Ruwa.Library
