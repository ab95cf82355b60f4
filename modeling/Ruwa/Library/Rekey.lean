/-
  File:      Ruwa/Library/Rekey.lean
  Subject:   ROWS THAT ARE MOVED to another place of their table, unless their name is taken there.

  A table has a key of two parts, the place of a row and its name. One place is folded into another
  by two statements: an update of the rows whose name is free there, and a removal of the others.

  * `keyed_fold` -- the key stays one;
  * `row_fold` -- what has a key afterwards, for every key;
  * **`row_foldAll`** -- the same after many places were folded: the row that was there, or else the
    first of those that were moved there;
  * `keeper_isSome` -- no name is lost;
  * `filter_foldAll` -- the places that are not named keep their rows in their order.
-/
import Mathlib.Data.List.Basic

namespace Ruwa.Library

/-- The key of a table's rows, and how a row is moved. -/
structure Keying (α κ ι : Type) where
  place : α → κ
  name : α → ι
  move : κ → α → α
  place_move : ∀ k a, place (move k a) = k
  name_move : ∀ k a, name (move k a) = name a

namespace Keying

variable {α κ ι : Type} [DecidableEq κ] [DecidableEq ι] (K : Keying α κ ι)

def HasKey (k : κ) (i : ι) (a : α) : Prop := K.place a = k ∧ K.name a = i

instance (k : κ) (i : ι) : DecidablePred (K.HasKey k i) := fun _ => inferInstanceAs (Decidable (_ ∧ _))

/-- No two rows have the same key. -/
def Keyed (rows : List α) : Prop :=
  rows.Pairwise fun a b => ¬(K.place a = K.place b ∧ K.name a = K.name b)

instance (rows : List α) : Decidable (K.Keyed rows) :=
  inferInstanceAs (Decidable (List.Pairwise _ _))

def row (rows : List α) (k : κ) (i : ι) : Option α := rows.find? fun a => K.HasKey k i a

/-- The row is at the first place, and its name is free at the second. -/
def Movable (rows : List α) (src dst : κ) (a : α) : Prop :=
  K.place a = src ∧ ¬∃ p ∈ rows, K.HasKey dst (K.name a) p

instance (rows : List α) (src dst : κ) : DecidablePred (K.Movable rows src dst) :=
  fun _ => inferInstanceAs (Decidable (_ ∧ ¬_))

/-- `UPDATE ... SET place = dst WHERE place = src AND NOT EXISTS ...` -/
def rekey (rows : List α) (src dst : κ) : List α :=
  rows.map fun a => if K.Movable rows src dst a then K.move dst a else a

/-- `DELETE ... WHERE place = src` -/
def clear (rows : List α) (src : κ) : List α := rows.filter fun a => K.place a ≠ src

def fold (rows : List α) (src dst : κ) : List α := K.clear (K.rekey rows src dst) src

def foldAll (rows : List α) (pairs : List (κ × κ)) : List α :=
  pairs.foldl (fun rows p => K.fold rows p.1 p.2) rows

/-- The row of a place, or else the first that is moved there. -/
def keeper (rows : List α) (pairs : List (κ × κ)) (k : κ) (i : ι) : Option α :=
  (K.row rows k i).or
    (pairs.findSome? fun p => if p.2 = k then (K.row rows p.1 i).map (K.move k) else none)

variable {K} {rows : List α} {src dst k : κ} {i : ι} {a : α}

/-! ## 1. Rows by their key -/

theorem row_eq_none : K.row rows k i = none ↔ ∀ a ∈ rows, ¬K.HasKey k i a := by
  unfold row
  rw [List.find?_eq_none]
  simp only [decide_eq_true_eq]

theorem mem_of_row (h : K.row rows k i = some a) : a ∈ rows ∧ K.HasKey k i a :=
  have hkey : decide (K.HasKey k i a) = true := List.find?_some (p := fun a => K.HasKey k i a) h
  ⟨List.mem_of_find?_eq_some h, of_decide_eq_true hkey⟩

theorem row_cons_pos {b : α} (h : K.HasKey k i b) : K.row (b :: rows) k i = some b := by
  unfold row
  rw [List.find?_cons, decide_eq_true h]

theorem row_cons_neg {b : α} (h : ¬K.HasKey k i b) : K.row (b :: rows) k i = K.row rows k i := by
  unfold row
  rw [List.find?_cons, decide_eq_false h]

/-- **The row of a key.** -/
theorem row_eq_some (h : K.Keyed rows) : K.row rows k i = some a ↔ a ∈ rows ∧ K.HasKey k i a := by
  refine ⟨mem_of_row, ?_⟩
  intro ⟨hmem, hkey⟩
  induction rows with
  | nil => cases hmem
  | cons b rows ih =>
      obtain ⟨hfirst, hrest⟩ := List.pairwise_cons.mp h
      rcases List.mem_cons.mp hmem with rfl | hmem
      · exact row_cons_pos hkey
      · have hb : ¬K.HasKey k i b := fun hb =>
          hfirst a hmem ⟨hb.1.trans hkey.1.symm, hb.2.trans hkey.2.symm⟩
        rw [row_cons_neg hb]
        exact ih hrest hmem

/-- One row, as a list. -/
theorem filter_hasKey (h : K.Keyed rows) (k : κ) (i : ι) :
    rows.filter (fun a => K.HasKey k i a) = (K.row rows k i).toList := by
  induction rows with
  | nil => rfl
  | cons b rows ih =>
      obtain ⟨hfirst, hrest⟩ := List.pairwise_cons.mp h
      by_cases hb : K.HasKey k i b
      · have hnone : rows.filter (fun a => K.HasKey k i a) = [] := by
          refine List.filter_eq_nil_iff.mpr fun a ha hkey => ?_
          have hkey := of_decide_eq_true hkey
          exact hfirst a ha ⟨hb.1.trans hkey.1.symm, hb.2.trans hkey.2.symm⟩
        rw [row_cons_pos hb, List.filter_cons, if_pos (decide_eq_true hb), hnone]
        rfl
      · rw [row_cons_neg hb, List.filter_cons, if_neg (by simpa using hb), ih hrest]

/-! ## 2. One place -/

theorem mem_fold (hne : src ≠ dst) {b : α} : b ∈ K.fold rows src dst ↔
    (b ∈ rows ∧ K.place b ≠ src) ∨
      ∃ a ∈ rows, K.Movable rows src dst a ∧ K.move dst a = b := by
  unfold fold clear rekey
  rw [List.mem_filter, List.mem_map, decide_eq_true_eq]
  constructor
  · rintro ⟨⟨a, ha, rfl⟩, hplace⟩
    by_cases hmove : K.Movable rows src dst a
    · rw [if_pos hmove]
      exact Or.inr ⟨a, ha, hmove, rfl⟩
    · rw [if_neg hmove] at hplace ⊢
      exact Or.inl ⟨ha, hplace⟩
  · rintro (⟨hb, hplace⟩ | ⟨a, ha, hmove, rfl⟩)
    · exact ⟨⟨b, hb, if_neg fun hmove => hplace hmove.1⟩, hplace⟩
    · refine ⟨⟨a, ha, if_pos hmove⟩, ?_⟩
      rw [K.place_move]
      exact hne.symm

/-- **The key stays one.** -/
theorem keyed_fold (h : K.Keyed rows) : K.Keyed (K.fold rows src dst) := by
  refine List.Pairwise.filter _ (List.pairwise_map.mpr (h.imp_of_mem fun {a b} ha hb hab => ?_))
  -- A row that is moved does not meet another at its new place.
  have hfree : ∀ {c d : α}, d ∈ rows → K.Movable rows src dst c → ¬K.Movable rows src dst d →
      ¬(dst = K.place d ∧ K.name c = K.name d) := fun hd hc _ ⟨hplace, hname⟩ =>
    hc.2 ⟨_, hd, hplace.symm, hname.symm⟩
  by_cases hma : K.Movable rows src dst a <;> by_cases hmb : K.Movable rows src dst b
  · rw [if_pos hma, if_pos hmb, K.name_move, K.name_move]
    exact fun hsame => hab ⟨hma.1.trans hmb.1.symm, hsame.2⟩
  · rw [if_pos hma, if_neg hmb, K.name_move, K.place_move]
    exact hfree hb hma hmb
  · rw [if_neg hma, if_pos hmb, K.name_move, K.place_move]
    exact fun hsame => hfree ha hmb hma ⟨hsame.1.symm, hsame.2.symm⟩
  · rw [if_neg hma, if_neg hmb]
    exact hab

/-- **What has a key afterwards.** -/
theorem row_fold (h : K.Keyed rows) (hne : src ≠ dst) (k : κ) (i : ι) :
    K.row (K.fold rows src dst) k i =
      if k = src then none
      else if k = dst then (K.row rows dst i).or ((K.row rows src i).map (K.move dst))
      else K.row rows k i := by
  have hkeyed : K.Keyed (K.fold rows src dst) := keyed_fold h
  -- Rows of other places are where they were.
  have hstays : ∀ {a : α}, k ≠ src → K.row rows k i = some a →
      K.row (K.fold rows src dst) k i = some a := by
    intro a hk ha
    obtain ⟨hmem, hkey⟩ := mem_of_row ha
    refine (row_eq_some hkeyed).mpr ⟨(mem_fold hne).mpr (Or.inl ⟨hmem, ?_⟩), hkey⟩
    rw [hkey.1]
    exact hk
  split
  · rename_i hk
    refine row_eq_none.mpr fun a ha hkey => ?_
    rcases (mem_fold hne).mp ha with ⟨-, hplace⟩ | ⟨b, -, -, rfl⟩
    · exact hplace (hkey.1.trans hk)
    · exact hne (hk.symm.trans (hkey.1.symm.trans (K.place_move dst b)))
  · rename_i hsrc
    split
    · rename_i hk
      subst hk
      cases hdst : K.row rows k i with
      | some a => exact hstays hsrc hdst
      | none =>
          rw [Option.none_or]
          cases hmoved : K.row rows src i with
          | some a =>
              obtain ⟨hmem, hplace, hname⟩ := mem_of_row hmoved
              have hfree : ¬∃ p ∈ rows, K.HasKey k (K.name a) p := fun ⟨p, hp, hkey⟩ =>
                row_eq_none.mp hdst p hp (hname ▸ hkey)
              exact (row_eq_some hkeyed).mpr
                ⟨(mem_fold hne).mpr (Or.inr ⟨a, hmem, ⟨hplace, hfree⟩, rfl⟩), K.place_move k a,
                  (K.name_move k a).trans hname⟩
          | none =>
              refine row_eq_none.mpr fun b hb hkey => ?_
              rcases (mem_fold hne).mp hb with ⟨hmem, -⟩ | ⟨a, ha, hmove, rfl⟩
              · exact row_eq_none.mp hdst b hmem hkey
              · exact row_eq_none.mp hmoved a ha ⟨hmove.1, (K.name_move k a).symm.trans hkey.2⟩
    · rename_i hdst
      cases hrow : K.row rows k i with
      | some a => exact hstays hsrc hrow
      | none =>
          refine row_eq_none.mpr fun b hb hkey => ?_
          rcases (mem_fold hne).mp hb with ⟨hmem, -⟩ | ⟨a, -, -, rfl⟩
          · exact row_eq_none.mp hrow b hmem hkey
          · exact hdst (hkey.1.symm.trans (K.place_move dst a))

theorem filter_fold (hsrc : k ≠ src) (hdst : k ≠ dst) :
    (K.fold rows src dst).filter (fun a => K.place a = k) = rows.filter fun a => K.place a = k := by
  have hsame : ∀ a ∈ rows, (decide (K.place a = k)) =
      (decide (K.place (if K.Movable rows src dst a then K.move dst a else a) = k) &&
        decide (K.place (if K.Movable rows src dst a then K.move dst a else a) ≠ src)) := by
    intro a _
    by_cases hmove : K.Movable rows src dst a
    · rw [if_pos hmove, K.place_move, hmove.1, decide_eq_false (Ne.symm hsrc),
        decide_eq_false (Ne.symm hdst), Bool.false_and]
    · rw [if_neg hmove]
      by_cases hk : K.place a = k
      · rw [hk, decide_eq_true rfl, decide_eq_true hsrc, Bool.and_self]
      · rw [decide_eq_false hk, Bool.false_and]
  unfold fold clear rekey
  rw [List.filter_filter, List.filter_map]
  refine (congrArg _ (List.filter_congr fun a ha => (hsame a ha).symm)).trans ?_
  refine (List.map_congr_left fun a ha => if_neg fun hmove => hsrc ?_).trans (List.map_id _)
  exact (of_decide_eq_true (List.mem_filter.mp ha).2).symm.trans hmove.1

/-! ## 3. Many places -/

/-- The places are folded once each, and nothing is folded into one of them. -/
structure Separate (pairs : List (κ × κ)) : Prop where
  nodup : (pairs.map Prod.fst).Nodup
  apart : ∀ p ∈ pairs, ∀ q ∈ pairs, p.1 ≠ q.2

omit [DecidableEq κ] in
theorem Separate.tail {p : κ × κ} {pairs : List (κ × κ)} (h : Separate (p :: pairs)) :
    Separate pairs where
  nodup := (List.nodup_cons.mp h.nodup).2
  apart q hq r hr := h.apart q (List.mem_cons_of_mem _ hq) r (List.mem_cons_of_mem _ hr)

/-- The first value of a function on a list depends on its values there. -/
theorem findSome?_congr {β γ : Type} {f g : β → Option γ} {l : List β}
    (h : ∀ b ∈ l, f b = g b) : l.findSome? f = l.findSome? g := by
  induction l with
  | nil => rfl
  | cons b l ih =>
      rw [List.findSome?_cons, List.findSome?_cons, h b List.mem_cons_self,
        ih fun c hc => h c (List.mem_cons_of_mem _ hc)]

/-- **What has a key after all of them**: nothing at a place that was folded, and the keeper at
    every other. -/
theorem row_foldAll {pairs : List (κ × κ)} (h : K.Keyed rows) (hpairs : Separate pairs) (k : κ)
    (i : ι) : K.row (K.foldAll rows pairs) k i =
      if k ∈ pairs.map Prod.fst then none else K.keeper rows pairs k i := by
  induction pairs generalizing rows with
  | nil =>
      rw [List.map_nil, if_neg List.not_mem_nil]
      unfold keeper
      rw [List.findSome?_nil, Option.or_none]
      rfl
  | cons p pairs ih =>
      have hne := hpairs.apart p List.mem_cons_self p List.mem_cons_self
      have hrow := row_fold h hne
      show K.row (K.foldAll (K.fold rows p.1 p.2) pairs) k i = _
      rw [ih (keyed_fold h) hpairs.tail]
      rw [List.map_cons]
      by_cases hrest : k ∈ pairs.map Prod.fst
      · rw [if_pos hrest, if_pos (List.mem_cons_of_mem _ hrest)]
      · rw [if_neg hrest]
        -- The first fold leaves the rows that the others move.
        have hlater : (pairs.findSome? fun q =>
            if q.2 = k then (K.row (K.fold rows p.1 p.2) q.1 i).map (K.move k) else none) =
            pairs.findSome? fun q =>
              if q.2 = k then (K.row rows q.1 i).map (K.move k) else none := by
          refine findSome?_congr fun q hq => ?_
          have hfirst : q.1 ≠ p.1 := fun hsame =>
            (List.nodup_cons.mp hpairs.nodup).1 (hsame ▸ List.mem_map_of_mem hq)
          have hsecond := hpairs.apart q (List.mem_cons_of_mem _ hq) p List.mem_cons_self
          rw [hrow, if_neg hfirst, if_neg hsecond]
        unfold keeper
        rw [hlater, hrow]
        by_cases hsrc : k = p.1
        · rw [if_pos hsrc, if_pos (List.mem_cons.mpr (Or.inl hsrc)), Option.none_or]
          refine List.findSome?_eq_none_iff.mpr fun q hq => if_neg fun hq2 => ?_
          exact hpairs.apart p List.mem_cons_self q (List.mem_cons_of_mem _ hq)
            (hsrc.symm.trans hq2.symm)
        · rw [if_neg hsrc, if_neg (fun hk => (List.mem_cons.mp hk).elim hsrc hrest), List.findSome?_cons]
          by_cases hdst : k = p.2
          · rw [if_pos hdst, if_pos hdst.symm, ← hdst]
            cases K.row rows k i with
            | some a => rfl
            | none =>
                rw [Option.none_or, Option.none_or]
                cases K.row rows p.1 i with
                | some a => rfl
                | none => rfl
          · rw [if_neg hdst, if_neg (Ne.symm hdst)]

/-- A row that is there, or is moved there, has a keeper. -/
theorem keeper_isSome {pairs : List (κ × κ)} (ha : a ∈ rows)
    (hplace : K.place a = k ∨ (K.place a, k) ∈ pairs) :
    (K.keeper rows pairs k (K.name a)).isSome = true := by
  rw [Option.isSome_iff_ne_none]
  intro hnone
  obtain ⟨hrow, hmoved⟩ := Option.or_eq_none_iff.mp hnone
  rcases hplace with hk | hmem
  · exact row_eq_none.mp hrow a ha ⟨hk, rfl⟩
  · have hfirst := List.findSome?_eq_none_iff.mp hmoved _ hmem
    rw [if_pos rfl, Option.map_eq_none_iff] at hfirst
    exact row_eq_none.mp hfirst a ha ⟨rfl, rfl⟩

theorem filter_foldAll {pairs : List (κ × κ)} (h : ∀ p ∈ pairs, k ≠ p.1 ∧ k ≠ p.2) :
    (K.foldAll rows pairs).filter (fun a => K.place a = k) =
      rows.filter fun a => K.place a = k := by
  induction pairs generalizing rows with
  | nil => rfl
  | cons p pairs ih =>
      obtain ⟨hsrc, hdst⟩ := h p List.mem_cons_self
      exact (ih fun q hq => h q (List.mem_cons_of_mem _ hq)).trans (filter_fold hsrc hdst)

end Keying

end Ruwa.Library
