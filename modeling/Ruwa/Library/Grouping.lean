/-
  File:      Ruwa/Library/Grouping.lean
  Subject:   ITEMS COLLECTED UNDER A KEY, in one pass: the first item of a key opens its group, and
             an index remembers where the group stands.

  * `heads` -- the items that open a group;
  * `whole` -- a group with all the items of its key;
  * **`groups_collect`** -- the pass makes the whole group of every head, in their order.
-/
import Mathlib.Data.List.Nodup
import Mathlib.Tactic.Common

namespace Ruwa.Library

/-- The groups so far, and the place of each key's group. -/
structure Grouped (κ γ : Type) where
  groups : List γ
  index : List (κ × Nat)

namespace Grouped

variable {α κ γ : Type} [DecidableEq κ]

section

variable (key : α → κ) (start : α → γ) (add : γ → α → γ)

def put (g : Grouped κ γ) (a : α) : Grouped κ γ :=
  match g.index.lookup (key a) with
  | some i => { g with groups := g.groups.modify i fun c => add c a }
  | none =>
      { groups := g.groups ++ [add (start a) a]
        index := g.index ++ [(key a, g.groups.length)] }

def collect (as : List α) : Grouped κ γ := as.foldl (put key start add) ⟨[], []⟩

/-- The items that no item with the same key precedes. -/
def heads : List α → List α
  | [] => []
  | a :: as => a :: (heads as).filter fun b => decide (key b ≠ key a)

/-- The group that an item opens, with every item of its key. -/
def whole (as : List α) (a : α) : γ :=
  (as.filter fun b => decide (key b = key a)).foldl add (start a)

end

variable {key : α → κ} {start : α → γ} {add : γ → α → γ}

/-! ## 1. Heads -/

theorem mem_heads {as : List α} {a : α} :
    a ∈ heads key as ↔ (as.find? fun b => decide (key b = key a)) = some a := by
  induction as with
  | nil => simp [heads]
  | cons b as ih =>
      rw [heads, List.mem_cons, List.mem_filter, ih]
      by_cases hkey : key b = key a
      · rw [List.find?_cons_of_pos (by simpa using hkey)]
        simp [hkey, eq_comm]
      · rw [List.find?_cons_of_neg (by simpa using hkey)]
        have hne : a ≠ b := fun h => hkey (by rw [h])
        simp [hne, Ne.symm hkey]

theorem mem_of_mem_heads {as : List α} {a : α} (h : a ∈ heads key as) : a ∈ as :=
  List.mem_of_find?_eq_some (mem_heads.mp h)

/-- Every key has a head. -/
theorem exists_head {as : List α} {a : α} (h : a ∈ as) : ∃ b ∈ heads key as, key b = key a := by
  cases hfind : as.find? fun b => decide (key b = key a) with
  | none =>
      have hno := List.find?_eq_none.mp hfind a h
      exact absurd (decide_eq_true rfl) hno
  | some b =>
      have hkey : key b = key a := by simpa using List.find?_some hfind
      exact ⟨b, mem_heads.mpr (by rw [hkey]; exact hfind), hkey⟩

theorem heads_concat (as : List α) (b : α) :
    heads key (as ++ [b]) = heads key as ++ if ∃ a ∈ as, key a = key b then [] else [b] := by
  induction as with
  | nil => simp [heads]
  | cons a as ih =>
      rw [List.cons_append, heads, heads, ih, List.filter_append, List.cons_append]
      by_cases hold : ∃ c ∈ as, key c = key b
      · simp [hold]
      · by_cases hkey : key a = key b
        · simp [hold, hkey]
        · simp [hold, hkey, Ne.symm hkey]

/-- The heads have different keys. -/
theorem nodup_heads (as : List α) : ((heads key as).map key).Nodup := by
  induction as with
  | nil => exact List.nodup_nil
  | cons a as ih =>
      rw [heads, List.map_cons, List.nodup_cons]
      refine ⟨?_, ih.sublist (List.filter_sublist.map key)⟩
      rw [List.mem_map]
      rintro ⟨b, hb, hkey⟩
      exact of_decide_eq_true (List.mem_filter.mp hb).2 hkey

/-! ## 2. The pass -/

theorem whole_concat (as : List α) (a b : α) :
    whole key start add (as ++ [b]) a =
      if key b = key a then add (whole key start add as a) b else whole key start add as a := by
  unfold whole
  rw [List.filter_append, List.foldl_append]
  by_cases hkey : key b = key a
  · simp [hkey]
  · simp [hkey]

/-- An item of a new key is a group of its own. -/
theorem whole_new {as : List α} {b : α} (h : ¬∃ a ∈ as, key a = key b) :
    whole key start add (as ++ [b]) b = add (start b) b := by
  have hnone : (as.filter fun a => decide (key a = key b)) = [] := by
    rw [List.filter_eq_nil_iff]
    exact fun a ha hkey => h ⟨a, ha, of_decide_eq_true hkey⟩
  rw [whole_concat, if_pos rfl, whole, hnone, List.foldl_nil]

/-- The groups are those of the heads, and the index has the place of each. -/
structure Collects (as : List α) (g : Grouped κ γ) (key : α → κ) (start : α → γ)
    (add : γ → α → γ) : Prop where
  groups : g.groups = (heads key as).map (whole key start add as)
  index : g.index = (heads key as).zipIdx.map fun e => (key e.1, e.2)

theorem Collects.lookup_some {as : List α} {g : Grouped κ γ} (h : Collects as g key start add)
    {k : κ} {i : Nat} (hk : g.index.lookup k = some i) :
    ∃ a, (heads key as)[i]? = some a ∧ key a = k := by
  obtain ⟨left, right, heq, -⟩ := List.lookup_eq_some_iff.mp hk
  have hmem : (k, i) ∈ (heads key as).zipIdx.map fun e => (key e.1, e.2) := by
    rw [← h.index, heq]
    simp
  obtain ⟨⟨a, j⟩, hat, heq⟩ := List.mem_map.mp hmem
  cases heq
  exact ⟨a, List.mem_zipIdx_iff_getElem?.mp hat, rfl⟩

theorem Collects.lookup_none {as : List α} {g : Grouped κ γ} (h : Collects as g key start add)
    {k : κ} (hk : g.index.lookup k = none) : ¬∃ a ∈ as, key a = k := by
  rintro ⟨a, ha, rfl⟩
  obtain ⟨b, hb, hkey⟩ : ∃ b ∈ heads key as, key b = key a := exists_head ha
  obtain ⟨i, hi⟩ := List.getElem?_of_mem hb
  have hmem : (key b, i) ∈ g.index := by
    rw [h.index, List.mem_map]
    exact ⟨(b, i), List.mem_zipIdx_iff_getElem?.mpr hi, rfl⟩
  exact absurd hkey.symm (by simpa using List.lookup_eq_none_iff.mp hk _ hmem)

theorem collects_put {as : List α} {g : Grouped κ γ} (h : Collects as g key start add) (b : α) :
    Collects (as ++ [b]) (g.put key start add b) key start add := by
  cases hk : g.index.lookup (key b) with
  | none =>
      have hnew := h.lookup_none hk
      have hheads : heads key (as ++ [b]) = heads key as ++ [b] := by
        rw [heads_concat, if_neg hnew]
      have hsame : (heads key as).map (whole key start add (as ++ [b])) =
          (heads key as).map (whole key start add as) := by
        refine List.map_congr_left fun a ha => ?_
        rw [whole_concat, if_neg fun hkey => hnew ⟨a, mem_of_mem_heads ha, hkey.symm⟩]
      rw [put, hk]
      refine ⟨?_, ?_⟩
      · rw [hheads, List.map_append, hsame, ← h.groups, List.map_singleton, whole_new hnew]
      · rw [hheads, List.zipIdx_append, List.map_append, ← h.index, h.groups, List.length_map]
        simp
  | some i =>
      obtain ⟨a, hi, hkey⟩ := h.lookup_some hk
      have hold : ∃ a ∈ as, key a = key b :=
        ⟨a, mem_of_mem_heads (List.mem_of_getElem? hi), hkey⟩
      have hheads : heads key (as ++ [b]) = heads key as := by
        rw [heads_concat, if_pos hold, List.append_nil]
      rw [put, hk]
      refine ⟨?_, by rw [hheads]; exact h.index⟩
      rw [hheads]
      refine List.ext_getElem? fun j => ?_
      rw [List.getElem?_modify, h.groups, List.getElem?_map, List.getElem?_map]
      cases hj : (heads key as)[j]? with
      | none => simp
      | some c =>
          simp only [Option.map_some, whole_concat]
          by_cases hij : i = j
          · subst hij
            cases hi.symm.trans hj
            simp [hkey]
          · -- no other head has this key
            have hne : key b ≠ key c := by
              intro hkc
              have hlt : i < ((heads key as).map key).length := by
                rw [List.length_map]
                exact (List.getElem?_eq_some_iff.mp hi).1
              refine hij ((List.getElem?_inj hlt (nodup_heads as)).mp ?_)
              rw [List.getElem?_map, List.getElem?_map, hi, hj, Option.map_some, Option.map_some,
                hkey, hkc]
            simp [hij, hne]

theorem collects_collect (as : List α) :
    Collects as (collect key start add as) key start add := by
  have hrun : ∀ (bs done : List α) (g : Grouped κ γ), Collects done g key start add →
      Collects (done ++ bs) (bs.foldl (put key start add) g) key start add := by
    intro bs
    induction bs with
    | nil =>
        intro done g h
        rw [List.append_nil]
        exact h
    | cons b bs ih =>
        intro done g h
        have hstep := ih (done ++ [b]) (g.put key start add b) (collects_put h b)
        rw [List.append_assoc] at hstep
        exact hstep
  exact hrun as [] ⟨[], []⟩ ⟨rfl, rfl⟩

/-- **The pass makes the whole group of every head**, in their order. -/
theorem groups_collect (as : List α) :
    (collect key start add as).groups = (heads key as).map (whole key start add as) :=
  (collects_collect as).groups

end Grouped

end Ruwa.Library
