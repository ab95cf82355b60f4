/-
  File:      Ruwa/Library/Around.lean
  Subject:   THE ROWS AROUND A ROW of a table that is read in the order of a key.

  * `ascending`, `descending` -- the rows in the order of a key that no two of them share;
  * `Around` -- a row with its nearest neighbours on both sides;
  * `neighbours_iff` -- neighbours that are taken from before and behind another place than the row;
  * **`around_iff`** -- the neighbours on the two sides of a coarser key are those of the row exactly
    when the row is the last with its coarse key, or every row is taken anyway.
-/
import Mathlib.Data.List.DropRight
import Mathlib.Data.List.Nodup
import Mathlib.Data.List.Pairwise
import Mathlib.Data.List.Sort
import Mathlib.Order.Basic

namespace Ruwa.Library

/-! ## 1. Rows in order -/

section Order

variable {α κ : Type} [LinearOrder κ] {key : α → κ} {rows : List α}

def ascending (key : α → κ) (rows : List α) : List α :=
  rows.insertionSort fun a b => key a ≤ key b

def descending (key : α → κ) (rows : List α) : List α :=
  rows.insertionSort fun a b => key b ≤ key a

theorem ascending_perm : (ascending key rows).Perm rows := List.perm_insertionSort _ rows

theorem descending_perm : (descending key rows).Perm rows := List.perm_insertionSort _ rows

theorem ascending_sorted : (ascending key rows).Pairwise fun a b => key a ≤ key b := by
  have : IsTrans α fun a b => key a ≤ key b := ⟨fun _ _ _ h h' => le_trans h h'⟩
  have : Std.Total fun a b : α => key a ≤ key b := ⟨fun a b => le_total (key a) (key b)⟩
  exact List.pairwise_insertionSort _ rows

theorem descending_sorted : (descending key rows).Pairwise fun a b => key b ≤ key a := by
  have : IsTrans α fun a b => key b ≤ key a := ⟨fun _ _ _ h h' => le_trans h' h⟩
  have : Std.Total fun a b : α => key b ≤ key a := ⟨fun a b => le_total (key b) (key a)⟩
  exact List.pairwise_insertionSort _ rows

/-- The key tells the rows apart. -/
def KeyedBy (key : α → κ) (rows : List α) : Prop := rows.Pairwise fun a b => key a ≠ key b

omit [LinearOrder κ] in
theorem KeyedBy.inj (h : KeyedBy key rows) {a b : α} (ha : a ∈ rows) (hb : b ∈ rows)
    (hkey : key a = key b) : a = b := by
  have : Std.Symm fun a b : α => key a ≠ key b := ⟨fun _ _ => Ne.symm⟩
  by_contra hne
  exact List.Pairwise.forall h ha hb hne hkey

/-- **There is one order.** -/
theorem eq_ascending (h : KeyedBy key rows) {sorted : List α} (hperm : sorted.Perm rows)
    (hsorted : sorted.Pairwise fun a b => key a ≤ key b) : sorted = ascending key rows := by
  refine List.Perm.eq_of_pairwise (fun a b ha hb hab hba => ?_) hsorted ascending_sorted
    (hperm.trans ascending_perm.symm)
  exact h.inj (hperm.subset ha) (ascending_perm.subset hb) (le_antisymm hab hba)

theorem descending_eq (h : KeyedBy key rows) :
    descending key rows = (ascending key rows).reverse := by
  rw [← eq_ascending h ((List.reverse_perm _).trans descending_perm)
    (List.pairwise_reverse.mpr descending_sorted), List.reverse_reverse]

theorem ascending_filter (h : KeyedBy key rows) (p : α → Bool) :
    ascending key (rows.filter p) = (ascending key rows).filter p :=
  (eq_ascending (h.filter p) (ascending_perm.filter p) (ascending_sorted.filter p)).symm

theorem ascending_strict (h : KeyedBy key rows) :
    (ascending key rows).Pairwise fun a b => key a < key b :=
  (ascending_sorted.and (h.perm ascending_perm.symm fun hab => hab.symm)).imp
    fun hab => lt_of_le_of_ne hab.1 hab.2

/-- Rows in the order of a key stand in two parts, up to a value of it and beyond. -/
theorem filter_le_append (h : rows.Pairwise fun a b => key a ≤ key b) (k : κ) :
    rows.filter (key · ≤ k) ++ rows.filter (k < key ·) = rows := by
  induction rows with
  | nil => rfl
  | cons a rows ih =>
      obtain ⟨hfirst, hrest⟩ := List.pairwise_cons.mp h
      by_cases ha : key a ≤ k
      · have hupto := List.filter_cons_of_pos (p := (key · ≤ k)) (l := rows) (decide_eq_true ha)
        rw [hupto, List.filter_cons_of_neg (by simpa using ha), List.cons_append, ih hrest]
      · have hall : ∀ b ∈ rows, k < key b := fun b hb => lt_of_lt_of_le (not_le.mp ha) (hfirst b hb)
        have hbeyond := List.filter_cons_of_pos (p := (k < key ·)) (l := rows)
          (decide_eq_true (not_le.mp ha))
        rw [List.filter_cons_of_neg (by simpa using ha), hbeyond, List.filter_eq_nil_iff.mpr fun b hb => by simpa using hall b hb,
          List.filter_eq_self.mpr fun b hb => decide_eq_true (hall b hb), List.nil_append]

end Order

/-! ## 2. Neighbours -/

section Neighbours

variable {α : Type} {a : α} {before after : Nat}

/-- The row, behind the `before` rows that are nearest before it and followed by the `after` that are
    nearest behind it, or as many as there are. -/
def Around (rows : List α) (a : α) (before after : Nat) (found : List α) : Prop :=
  ∃ pre post, rows = pre ++ a :: post ∧ found = pre.rtake before ++ a :: post.take after

theorem length_rtake (l : List α) (n : Nat) : (l.rtake n).length = min n l.length := by
  unfold List.rtake
  rw [List.length_drop]
  omega

theorem mem_rtake {l : List α} {n : Nat} {b : α} (h : b ∈ l.rtake n) : b ∈ l := List.mem_of_mem_drop h

theorem rtake_all {l : List α} {n : Nat} (h : l.length ≤ n) : l.rtake n = l := by
  unfold List.rtake
  rw [Nat.sub_eq_zero_of_le h, List.drop_zero]

/-- The last rows of two parts. -/
theorem rtake_append (l r : List α) (n : Nat) :
    (l ++ r).rtake n = l.rtake (n - r.length) ++ r.rtake n := by
  unfold List.rtake
  rw [List.length_append, List.drop_append]
  congr 1
  · by_cases hn : n ≤ r.length
    · rw [List.drop_eq_nil_of_le (by omega), List.drop_eq_nil_of_le (by omega)]
    · congr 1
      omega
  · congr 1
    omega

/-- **Neighbours taken at another place**: the rows of `mid` stand behind the row and are counted as
    if they stood before it. -/
theorem neighbours_iff {pre mid post : List α} (hpre : a ∉ pre) (hmid : a ∉ mid) (hpost : a ∉ post) :
    (pre ++ a :: mid).rtake (before + 1) ++ post.take after =
        pre.rtake before ++ a :: (mid ++ post).take after ↔
      mid = [] ∨ pre.length + mid.length ≤ before ∧ mid.length + post.length ≤ after := by
  have hrest : ∀ n, a ∉ (mid ++ post).take n := fun n h => by
    rcases List.mem_append.mp (List.mem_of_mem_take h) with h | h
    · exact hmid h
    · exact hpost h
  rw [show pre ++ a :: mid = (pre ++ [a]) ++ mid by simp, rtake_append]
  by_cases hroom : mid.length ≤ before
  · have hfirst : (pre ++ [a]).rtake (before + 1 - mid.length) =
        pre.rtake (before - mid.length) ++ [a] := by
      rw [Nat.succ_sub hroom, List.rtake_concat_succ]
    rw [hfirst, rtake_all (Nat.le_succ_of_le hroom), List.append_assoc, List.append_assoc,
      List.singleton_append, List.append_cons_inj_of_notMem
        (fun h => hpre (mem_rtake h))
        (fun h => by
          rcases List.mem_append.mp h with h | h
          · exact hmid h
          · exact hpost (List.mem_of_mem_take h))]
    constructor
    · rintro ⟨hleft, -, hright⟩
      have hleft := congrArg List.length hleft
      have hright := congrArg List.length hright
      simp only [length_rtake, List.length_append, List.length_take] at hleft hright
      rcases Nat.eq_zero_or_pos mid.length with hzero | hpos
      · exact .inl (List.eq_nil_of_length_eq_zero hzero)
      · exact .inr (by omega)
    · rintro (rfl | ⟨hleft, hright⟩)
      · exact ⟨rfl, rfl, rfl⟩
      · refine ⟨?_, rfl, ?_⟩
        · rw [rtake_all (by omega), rtake_all (by omega)]
        · rw [List.take_of_length_le (by omega), List.take_of_length_le (by simp; omega)]
  · -- the row itself is not among the rows that are taken
    have hnone : before + 1 - mid.length = 0 := by omega
    rw [hnone, List.rtake_zero, List.nil_append]
    constructor
    · intro h
      have hmem : a ∈ mid.rtake (before + 1) ++ post.take after :=
        h ▸ List.mem_append_right _ List.mem_cons_self
      rcases List.mem_append.mp hmem with hmem | hmem
      · exact absurd (mem_rtake hmem) hmid
      · exact absurd (List.mem_of_mem_take hmem) hpost
    · rintro (rfl | ⟨hleft, -⟩)
      · exact absurd (Nat.zero_le before) hroom
      · omega

end Neighbours

/-! ## 3. Two sides of a coarser key -/

section Coarse

variable {α κ ν : Type} [LinearOrder κ] [LinearOrder ν] {key : α → κ} {coarse : α → ν}
  {rows : List α} {a : α} {before after : Nat}

/-- The last `before + 1` rows up to the coarse key, and the first `after` beyond it. -/
def sides (key : α → κ) (coarse : α → ν) (rows : List α) (a : α) (before after : Nat) : List α :=
  ((descending key (rows.filter (coarse · ≤ coarse a))).take (before + 1)).reverse ++
    (ascending key (rows.filter (coarse a < coarse ·))).take after

/-- The rows in order: what stands before the row, what shares its coarse key behind it, and what is
    beyond that. -/
theorem ascending_parts (h : KeyedBy key rows) (hcoarse : ∀ b c, key b ≤ key c → coarse b ≤ coarse c)
    (ha : a ∈ rows) : ∃ pre mid post, ascending key rows = pre ++ a :: (mid ++ post) ∧
      (∀ b ∈ pre, key b < key a) ∧ (∀ b ∈ mid, key a < key b ∧ coarse b = coarse a) ∧
      ∀ b ∈ post, key a < key b ∧ coarse a < coarse b := by
  have hperm : (ascending key rows).Perm rows := ascending_perm
  obtain ⟨pre, rest, hrows⟩ := List.append_of_mem (hperm.symm.subset ha)
  have hstrict := ascending_strict h
  rw [hrows, List.pairwise_append, List.pairwise_cons] at hstrict
  obtain ⟨-, ⟨hbehind, hrest⟩, hahead⟩ := hstrict
  have hsorted : rest.Pairwise fun b c => coarse b ≤ coarse c :=
    hrest.imp fun hbc => hcoarse _ _ (le_of_lt hbc)
  refine ⟨pre, rest.filter (coarse · ≤ coarse a), rest.filter (coarse a < coarse ·), ?_,
    fun b hb => hahead b hb a List.mem_cons_self, fun b hb => ?_, fun b hb => ?_⟩
  · rw [filter_le_append hsorted]
    exact hrows
  · obtain ⟨hmem, hle⟩ := List.mem_filter.mp hb
    exact ⟨hbehind b hmem, le_antisymm (of_decide_eq_true hle)
      (hcoarse _ _ (le_of_lt (hbehind b hmem)))⟩
  · obtain ⟨hmem, hlt⟩ := List.mem_filter.mp hb
    exact ⟨hbehind b hmem, of_decide_eq_true hlt⟩

theorem not_mem_of_lt {l : List α} (h : ∀ b ∈ l, key a < key b) : a ∉ l :=
  fun ha => lt_irrefl (key a) (h a ha)

/-- **Neighbours from two sides of a coarser key.** -/
theorem around_iff (h : KeyedBy key rows) (hcoarse : ∀ b c, key b ≤ key c → coarse b ≤ coarse c)
    (ha : a ∈ rows) :
    Around (ascending key rows) a before after (sides key coarse rows a before after) ↔
      (∀ b ∈ rows, coarse b = coarse a → key b ≤ key a) ∨
        rows.countP (coarse · ≤ coarse a) ≤ before + 1 ∧ rows.countP (key a < key ·) ≤ after := by
  obtain ⟨pre, mid, post, hrows, hpre, hmid, hpost⟩ := ascending_parts h hcoarse ha
  have hperm : (ascending key rows).Perm rows := ascending_perm
  have hapre : a ∉ pre := fun hmem => lt_irrefl (key a) (hpre a hmem)
  have hamid : a ∉ mid := not_mem_of_lt fun b hb => (hmid b hb).1
  have hapost : a ∉ post := not_mem_of_lt fun b hb => (hpost b hb).1
  have hupto : (ascending key rows).filter (coarse · ≤ coarse a) = pre ++ a :: mid := by
    rw [hrows, show pre ++ a :: (mid ++ post) = (pre ++ a :: mid) ++ post by simp,
      List.filter_append, List.filter_eq_self.mpr, List.filter_eq_nil_iff.mpr, List.append_nil]
    · intro b hb
      simpa using (hpost b hb).2
    · intro b hb
      rcases List.mem_append.mp hb with hb | hb
      · exact decide_eq_true (hcoarse _ _ (le_of_lt (hpre b hb)))
      · rcases List.mem_cons.mp hb with rfl | hb
        · exact decide_eq_true le_rfl
        · exact decide_eq_true (le_of_eq (hmid b hb).2)
  have hbeyond : (ascending key rows).filter (coarse a < coarse ·) = post := by
    rw [hrows, show pre ++ a :: (mid ++ post) = (pre ++ a :: mid) ++ post by simp,
      List.filter_append, List.filter_eq_self (l := post) |>.mpr, List.filter_eq_nil_iff.mpr,
      List.nil_append]
    · intro b hb
      rcases List.mem_append.mp hb with hb | hb
      · simpa using hcoarse _ _ (le_of_lt (hpre b hb))
      · rcases List.mem_cons.mp hb with rfl | hb
        · simp
        · simpa using le_of_eq (hmid b hb).2
    · intro b hb
      exact decide_eq_true (hpost b hb).2
  have hsides : sides key coarse rows a before after =
      (pre ++ a :: mid).rtake (before + 1) ++ post.take after := by
    unfold sides
    rw [descending_eq (h.filter _), ascending_filter h, ascending_filter h, hupto, hbeyond,
      ← List.rtake_eq_reverse_take_reverse]
  have haround : Around (ascending key rows) a before after
        (sides key coarse rows a before after) ↔
      sides key coarse rows a before after = pre.rtake before ++ a :: (mid ++ post).take after := by
    constructor
    · rintro ⟨pre', post', hrows', hfound⟩
      rw [hrows] at hrows'
      obtain ⟨rfl, -, rfl⟩ := (List.append_cons_inj_of_notMem hapre (by simp [hamid, hapost])).mp
        hrows'
      exact hfound
    · intro hfound
      exact ⟨pre, mid ++ post, hrows, hfound⟩
  have hmidnil : mid = [] ↔ ∀ b ∈ rows, coarse b = coarse a → key b ≤ key a := by
    constructor
    · rintro rfl b hb heq
      have hmem : b ∈ pre ++ a :: ([] ++ post) := hrows ▸ hperm.symm.subset hb
      rcases List.mem_append.mp hmem with hmem | hmem
      · exact le_of_lt (hpre b hmem)
      · rcases List.mem_cons.mp hmem with rfl | hmem
        · exact le_rfl
        · exact absurd heq (ne_of_gt (hpost b hmem).2)
    · intro hlast
      refine List.eq_nil_iff_forall_not_mem.mpr fun b hb => ?_
      have hmem : b ∈ rows := by
        refine hperm.subset ?_
        rw [hrows]
        exact List.mem_append_right _ (List.mem_cons_of_mem _ (List.mem_append_left _ hb))
      exact absurd (hlast b hmem (hmid b hb).2) (not_le.mpr (hmid b hb).1)
  have hcountUpto : rows.countP (coarse · ≤ coarse a) = pre.length + (mid.length + 1) := by
    rw [← hperm.countP_eq, List.countP_eq_length_filter, hupto,
      List.length_append, List.length_cons]
  have hcountBeyond : rows.countP (key a < key ·) = mid.length + post.length := by
    rw [← hperm.countP_eq, hrows, List.countP_append, List.countP_cons,
      List.countP_eq_zero.mpr, List.countP_eq_length.mpr, List.length_append]
    · simp
    · intro b hb
      rcases List.mem_append.mp hb with hb | hb
      · exact decide_eq_true (hmid b hb).1
      · exact decide_eq_true (hpost b hb).1
    · intro b hb
      simpa using le_of_lt (hpre b hb)
  rw [haround, hsides, neighbours_iff hapre hamid hapost, hmidnil, hcountUpto, hcountBeyond]
  refine or_congr Iff.rfl (and_congr ?_ Iff.rfl)
  omega

end Coarse

end Ruwa.Library
