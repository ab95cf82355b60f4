/-
  File:      Ruwa/Library/Paging.lean
  Subject:   PAGING THROUGH ROWS WITH A CURSOR THAT NEED NOT BE UNIQUE.

  A page is the first `limit` rows below the cursor, highest key first, and the next cursor is the
  key of its last row. Rows that share this key and did not fit on the page are below no later
  cursor.

  * `pages_end` -- the pages come to an end, and no row is on two of them;
  * **`pages_complete_iff`** -- every row is on a page exactly when the rows of each key fit on one.
-/
import Mathlib.Data.List.Perm.Subperm
import Mathlib.Data.List.Sort
import Mathlib.Order.Basic
import Mathlib.Tactic.Common

namespace Ruwa.Library

variable {α κ : Type} [LinearOrder κ]

/-! ## 1. Pages -/

/-- Some order of the rows that has the highest key first; between equal keys it is free. -/
structure HighestFirst (key : α → κ) where
  sort : List α → List α
  perm : ∀ rows, (sort rows).Perm rows
  sorted : ∀ rows, (sort rows).Pairwise fun a b => key b ≤ key a

/-- Equal keys as they stand among the rows. -/
def HighestFirst.byInsertion (key : α → κ) : HighestFirst key where
  sort := List.insertionSort fun a b => key b ≤ key a
  perm := List.perm_insertionSort _
  sorted rows := by
    have : IsTrans α fun a b => key b ≤ key a := ⟨fun _ _ _ h h' => le_trans h' h⟩
    have : Std.Total fun a b : α => key b ≤ key a := ⟨fun a b => le_total (key b) (key a)⟩
    exact List.pairwise_insertionSort _ rows

/-- The rows that the cursor has not passed. -/
def below (key : α → κ) (rows : List α) (before : κ) : List α :=
  rows.filter fun a => key a < before

def HighestFirst.page {key : α → κ} (order : HighestFirst key) (limit : Nat) (rows : List α)
    (before : κ) : List α :=
  (order.sort (below key rows before)).take limit

/-- The pages up to the first empty one, if it is reached within the fuel. -/
def pages (key : α → κ) (list : κ → List α) : Nat → κ → Option (List (List α))
  | 0, _ => none
  | fuel + 1, before =>
      match (list before).getLast? with
      | none => some []
      | some last => (pages key list fuel (key last)).map (list before :: ·)

/-! ## 2. Keys that stay together -/

def higher (key : α → κ) (rows : List α) (k : κ) : Nat := rows.countP fun a => k < key a

def reached (key : α → κ) (rows : List α) (k : κ) : Nat := rows.countP fun a => k ≤ key a

/-- With `limit` rows to a page, the first and the last row of each key are on the same page. -/
def Together (key : α → κ) (limit : Nat) (rows : List α) : Prop :=
  ∀ a ∈ rows, higher key rows (key a) / limit = (reached key rows (key a) - 1) / limit

instance (key : α → κ) (limit : Nat) (rows : List α) : Decidable (Together key limit rows) :=
  inferInstanceAs (Decidable (∀ a ∈ rows, _))

variable {key : α → κ} {limit : Nat} {rows first rest : List α}

theorem higher_lt_reached {a : α} (h : a ∈ rows) :
    higher key rows (key a) < reached key rows (key a) := by
  induction rows with
  | nil => cases h
  | cons b rows ih =>
      have hle : higher key rows (key a) ≤ reached key rows (key a) :=
        List.countP_mono_left fun c _ hc => by
          simp only [decide_eq_true_eq] at hc ⊢
          exact le_of_lt hc
      unfold higher reached at ih hle ⊢
      rw [List.countP_cons, List.countP_cons]
      rcases List.mem_cons.mp h with rfl | hrest
      · simp only [lt_self_iff_false, decide_false, Bool.false_eq_true, if_false, le_refl,
          decide_true, if_true]
        omega
      · have hlt := ih hrest
        by_cases hb : key a < key b
        · simp only [hb, le_of_lt hb, decide_true, if_true]
          omega
        · simp only [hb, decide_false, Bool.false_eq_true, if_false]
          omega

theorem together_perm {rows' : List α} (h : rows.Perm rows') :
    Together key limit rows ↔ Together key limit rows' := by
  have hhigher : ∀ k, higher key rows k = higher key rows' k := fun k => h.countP_eq _
  have hreached : ∀ k, reached key rows k = reached key rows' k := fun k => h.countP_eq _
  unfold Together
  simp only [hhigher, hreached, h.mem_iff]

/-- Rows below all those of a full first page are counted behind it. -/
theorem counted_behind {a : α} (rest : List α) (ha : ∀ b ∈ first, key a < key b) :
    higher key (first ++ rest) (key a) = first.length + higher key rest (key a) ∧
      reached key (first ++ rest) (key a) = first.length + reached key rest (key a) := by
  unfold higher reached
  rw [List.countP_append, List.countP_append]
  have hhigher : first.countP (fun b => key a < key b) = first.length :=
    List.countP_eq_length.mpr fun b hb => decide_eq_true (ha b hb)
  have hreached : first.countP (fun b => key a ≤ key b) = first.length :=
    List.countP_eq_length.mpr fun b hb => decide_eq_true (le_of_lt (ha b hb))
  exact ⟨by rw [hhigher], by rw [hreached]⟩

/-- **Off the first page**: the keys stay together if none is on both sides of the page's end, and
    they do so on the pages after it. -/
theorem together_append {last : α} (hlimit : 0 < limit) (hlast : last ∈ first)
    (hfirst : ∀ a ∈ first, key last ≤ key a) (hrest : ∀ a ∈ rest, key a ≤ key last)
    (hlength : first.length ≤ limit) (hfull : rest ≠ [] → first.length = limit) :
    Together key limit (first ++ rest) ↔
      (∀ a ∈ rest, key a < key last) ∧ Together key limit rest := by
  have hshift : ∀ a ∈ rest, key a < key last →
      (higher key (first ++ rest) (key a) / limit =
          (reached key (first ++ rest) (key a) - 1) / limit ↔
        higher key rest (key a) / limit = (reached key rest (key a) - 1) / limit) := by
    intro a ha hlt
    have hbehind := counted_behind rest fun b hb => lt_of_lt_of_le hlt (hfirst b hb)
    have hpos : higher key rest (key a) < reached key rest (key a) := higher_lt_reached ha
    have hsub : first.length + reached key rest (key a) - 1 =
        limit + (reached key rest (key a) - 1) := by
      rw [hfull (List.ne_nil_of_mem ha)]
      omega
    rw [hbehind.1, hbehind.2, hsub, hfull (List.ne_nil_of_mem ha), Nat.add_div_left _ hlimit,
      Nat.add_div_left _ hlimit]
    exact Nat.succ_inj
  constructor
  · intro h
    have hlow : ∀ a ∈ rest, key a < key last := by
      intro a ha
      refine lt_of_le_of_ne (hrest a ha) fun heq => ?_
      -- the key of the last row is also the first key of the rest
      have hsplit := h last (List.mem_append_left rest hlast)
      have hfulls := hfull (List.ne_nil_of_mem ha)
      have hhigher : higher key (first ++ rest) (key last) < limit := by
        have hnone : higher key rest (key last) = 0 :=
          List.countP_eq_zero.mpr fun b hb => by simpa using hrest b hb
        have hpart : higher key (first ++ rest) (key last) = higher key first (key last) := by
          unfold higher at hnone ⊢
          rw [List.countP_append, hnone, Nat.add_zero]
        rw [hpart, ← hfulls]
        exact Nat.lt_of_lt_of_le (higher_lt_reached hlast) List.countP_le_length
      have hreached : limit < reached key (first ++ rest) (key last) := by
        unfold reached
        rw [List.countP_append, List.countP_eq_length.mpr fun b hb => decide_eq_true (hfirst b hb),
          hfulls]
        have hpos : 0 < rest.countP fun b => key last ≤ key b :=
          List.countP_pos_iff.mpr ⟨a, ha, decide_eq_true (le_of_eq heq.symm)⟩
        omega
      rw [Nat.div_eq_of_lt hhigher] at hsplit
      have hone : 0 < (reached key (first ++ rest) (key last) - 1) / limit :=
        Nat.div_pos (by omega) hlimit
      omega
    exact ⟨hlow, fun a ha => (hshift a ha (hlow a ha)).mp (h a (List.mem_append_right first ha))⟩
  · rintro ⟨hlow, h⟩ a ha
    rcases List.mem_append.mp ha with hin | hin
    · have hnone : reached key rest (key a) = 0 :=
        List.countP_eq_zero.mpr fun b hb => by
          simpa using lt_of_lt_of_le (hlow b hb) (hfirst a hin)
      have hreached : reached key (first ++ rest) (key a) ≤ limit := by
        unfold reached at hnone ⊢
        rw [List.countP_append, hnone, Nat.add_zero]
        exact Nat.le_trans List.countP_le_length hlength
      have hhigher : higher key (first ++ rest) (key a) < reached key (first ++ rest) (key a) :=
        higher_lt_reached ha
      rw [Nat.div_eq_of_lt (by omega), Nat.div_eq_of_lt (by omega)]
    · exact (hshift a hin (hlow a hin)).mpr (h a hin)

/-! ## 3. A run of pages -/

variable (order : HighestFirst key)

/-- What a page and its cursor leave for the next. -/
theorem page_split (rows : List α) {before : κ} {last : α}
    (hlast : (order.page limit rows before).getLast? = some last) :
    ∃ rest, (order.page limit rows before ++ rest).Perm (below key rows before) ∧
      last ∈ order.page limit rows before ∧
      (∀ a ∈ order.page limit rows before, key last ≤ key a) ∧ (∀ a ∈ rest, key a ≤ key last) ∧
      (order.page limit rows before).length ≤ limit ∧
      (rest ≠ [] → (order.page limit rows before).length = limit) ∧
      (below key rows (key last)).Perm (rest.filter fun a => key a < key last) := by
  obtain ⟨sorted, hdef⟩ : ∃ sorted, sorted = order.sort (below key rows before) := ⟨_, rfl⟩
  have hpage : order.page limit rows before = sorted.take limit := by
    rw [hdef]
    rfl
  have hsorted : sorted.Pairwise fun a b => key b ≤ key a :=
    hdef ▸ order.sorted (below key rows before)
  have hperm : sorted.Perm (below key rows before) := hdef ▸ order.perm (below key rows before)
  have hparts : order.page limit rows before ++ sorted.drop limit = sorted := by
    rw [hpage]
    exact List.take_append_drop limit sorted
  rw [← hparts] at hsorted hperm
  obtain ⟨init, hinit⟩ := List.getLast?_eq_some_iff.mp hlast
  have hmem : last ∈ order.page limit rows before := List.mem_of_getLast? hlast
  obtain ⟨hfirst, -, hcross⟩ := List.pairwise_append.mp hsorted
  have hlow : ∀ a ∈ order.page limit rows before, key last ≤ key a := by
    intro a ha
    rw [hinit] at ha hfirst
    rcases List.mem_append.mp ha with hin | hin
    · exact (List.pairwise_append.mp hfirst).2.2 a hin last List.mem_cons_self
    · rw [List.mem_singleton.mp hin]
  have hbefore : key last < before := by
    have hin := hperm.subset (List.mem_append_left _ hmem)
    simpa [below] using (List.mem_filter.mp hin).2
  refine ⟨sorted.drop limit, hperm, hmem, hlow, fun a ha => hcross last hmem a ha,
    hpage ▸ List.length_take_le limit sorted, ?_, ?_⟩
  · intro hne
    rw [hpage]
    have hlt : limit < sorted.length := by
      by_contra hle
      exact hne (List.drop_eq_nil_of_le (Nat.le_of_not_lt hle))
    exact List.length_take_of_le (Nat.le_of_lt hlt)
  · have hnarrow : below key rows (key last) =
        (below key rows before).filter fun a => key a < key last := by
      unfold below
      rw [List.filter_filter]
      refine List.filter_congr fun a _ => ?_
      by_cases ha : key a < key last
      · simp [ha, lt_trans ha hbefore]
      · simp [ha]
    have hnone : (order.page limit rows before).filter (fun a => key a < key last) = [] :=
      List.filter_eq_nil_iff.mpr fun a ha => by simpa using hlow a ha
    have hfiltered := hperm.filter fun a => decide (key a < key last)
    rw [List.filter_append, hnone, List.nil_append, ← hnarrow] at hfiltered
    exact hfiltered.symm

/-- **Every paging ends, and no row is on two pages.** -/
theorem pages_end (limit : Nat) (rows : List α) {fuel : Nat} {before : κ}
    (hfuel : (below key rows before).length < fuel) :
    ∃ ps, pages key (order.page limit rows) fuel before = some ps ∧
      ps.flatten.Subperm (below key rows before) := by
  induction fuel generalizing before with
  | zero => exact absurd hfuel (Nat.not_lt_zero _)
  | succ fuel ih =>
      unfold pages
      cases hlast : (order.page limit rows before).getLast? with
      | none => exact ⟨[], rfl, List.nil_subperm⟩
      | some last =>
          obtain ⟨rest, hperm, hmem, -, -, -, -, hbelow⟩ := page_split order rows hlast
          have hshorter : (below key rows (key last)).length ≤ rest.length :=
            hbelow.length_eq ▸ List.length_filter_le _ _
          have htotal := hperm.length_eq
          have hpos := List.length_pos_of_mem hmem
          rw [List.length_append] at htotal
          have hfewer : (below key rows (key last)).length < fuel := by omega
          obtain ⟨ps, hps, hsub⟩ := ih hfewer
          have hrest : ps.flatten.Subperm rest :=
            hsub.trans (hbelow.subperm.trans List.filter_sublist.subperm)
          refine ⟨order.page limit rows before :: ps, by simp [hps], ?_⟩
          rw [List.flatten_cons]
          exact ((List.subperm_append_left _).mpr hrest).trans hperm.subperm

/-- **The pages hold every row exactly when the rows of each key fit on one of them.** -/
theorem pages_complete_iff (hlimit : 0 < limit) (rows : List α) {fuel : Nat} {before : κ}
    (hfuel : (below key rows before).length < fuel) :
    ∃ ps, pages key (order.page limit rows) fuel before = some ps ∧
      (ps.flatten.Perm (below key rows before) ↔ Together key limit (below key rows before)) := by
  induction fuel generalizing before with
  | zero => exact absurd hfuel (Nat.not_lt_zero _)
  | succ fuel ih =>
      unfold pages
      cases hlast : (order.page limit rows before).getLast? with
      | none =>
          have hempty : below key rows before = [] := by
            have hnil := List.getLast?_eq_none_iff.mp hlast
            have hsorted : order.sort (below key rows before) = [] := by
              rcases List.take_eq_nil_iff.mp hnil with h | h
              · omega
              · exact h
            exact List.perm_nil.mp (hsorted ▸ (order.perm (below key rows before)).symm)
          refine ⟨[], rfl, ?_⟩
          rw [hempty]
          exact iff_of_true .rfl fun a ha => nomatch ha
      | some last =>
          obtain ⟨rest, hperm, hmem, hfirst, hrest, hlength, hfull, hbelow⟩ :=
            page_split order rows hlast
          have hshorter : (below key rows (key last)).length ≤ rest.length :=
            hbelow.length_eq ▸ List.length_filter_le _ _
          have htotal := hperm.length_eq
          have hpos := List.length_pos_of_mem hmem
          rw [List.length_append] at htotal
          have hfewer : (below key rows (key last)).length < fuel := by omega
          obtain ⟨ps, hps, hiff⟩ := ih hfewer
          obtain ⟨ps', hps', hsub⟩ := pages_end order limit rows hfewer
          cases hps.symm.trans hps'
          refine ⟨order.page limit rows before :: ps, by simp [hps], ?_⟩
          rw [List.flatten_cons, ← together_perm hperm,
            together_append hlimit hmem hfirst hrest hlength hfull]
          have hall : (∀ a ∈ rest, key a < key last) → (below key rows (key last)).Perm rest := by
            intro hlow
            rwa [List.filter_eq_self.mpr fun a ha => decide_eq_true (hlow a ha)] at hbelow
          constructor
          · intro hcomplete
            have hsame : ps.flatten.Perm rest :=
              (List.perm_append_left_iff _).mp (hcomplete.trans hperm.symm)
            have hlow : ∀ a ∈ rest, key a < key last := by
              have hlen : rest.length ≤ (rest.filter fun a => key a < key last).length := by
                rw [← hbelow.length_eq, ← hsame.length_eq]
                exact hsub.length_le
              intro a ha
              have hself := List.filter_sublist.eq_of_length_le hlen
              rw [← hself] at ha
              simpa using (List.mem_filter.mp ha).2
            refine ⟨hlow, ?_⟩
            rw [← together_perm (hall hlow)]
            exact hiff.mp (hsame.trans (hall hlow).symm)
          · rintro ⟨hlow, htogether⟩
            rw [← together_perm (hall hlow)] at htogether
            exact ((hiff.mpr htogether).trans (hall hlow)).append_left _ |>.trans hperm

end Ruwa.Library
