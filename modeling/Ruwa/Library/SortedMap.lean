/-
  File:      Ruwa/Library/SortedMap.lean
  Subject:   SORTED MAPS: a map as the list of its entries in key order (`BTreeMap`).

  A map is kept as its entry list, strictly ascending in the key; the order is a field, so two
  maps with the same entries are equal and a list that is out of order or has a key twice is not
  a map. Iterating a `BTreeMap` gives exactly this list.

  * `insert` is the map operation; `sorted_insertEntry` keeps the field;
  * **`insertAll_entries`** -- inserting the entries of a map into the empty map, one by one in
    order, gives the map back: what a decoder does with the attributes it reads.
-/
import Mathlib.Order.Lattice
import Mathlib.Data.List.Basic

namespace Ruwa.Library

variable {κ ν : Type}

/-- A map with its entries in strictly ascending key order. -/
structure SortedMap (κ ν : Type) [LinearOrder κ] where
  entries : List (κ × ν)
  sorted : entries.Pairwise fun a b => a.1 < b.1

namespace SortedMap

variable [LinearOrder κ]

instance [DecidableEq ν] : DecidableEq (SortedMap κ ν) := fun a b =>
  decidable_of_iff (a.entries = b.entries) (by
    obtain ⟨ea, ha⟩ := a
    obtain ⟨eb, hb⟩ := b
    simp)

@[ext] theorem ext {a b : SortedMap κ ν} (h : a.entries = b.entries) : a = b := by
  obtain ⟨ea, ha⟩ := a
  obtain ⟨eb, hb⟩ := b
  cases h
  rfl

/-- The map without entries. -/
def empty : SortedMap κ ν := ⟨[], List.Pairwise.nil⟩

/-- Puts an entry in its place, replacing one with the same key. -/
def insertEntry (k : κ) (v : ν) : List (κ × ν) → List (κ × ν)
  | [] => [(k, v)]
  | e :: es =>
      if k < e.1 then (k, v) :: e :: es
      else if e.1 < k then e :: insertEntry k v es
      else (k, v) :: es

theorem mem_insertEntry {k : κ} {v : ν} {es : List (κ × ν)} {x : κ × ν}
    (hx : x ∈ insertEntry k v es) : x = (k, v) ∨ x ∈ es := by
  induction es with
  | nil => exact Or.inl (List.mem_singleton.mp hx)
  | cons e es ih =>
      unfold insertEntry at hx
      split at hx
      · exact List.mem_cons.mp hx
      · split at hx
        · rcases List.mem_cons.mp hx with rfl | hx'
          · exact Or.inr List.mem_cons_self
          · exact (ih hx').imp_right (List.mem_cons_of_mem e)
        · exact (List.mem_cons.mp hx).imp_right (List.mem_cons_of_mem e)

theorem sorted_insertEntry {k : κ} {v : ν} {es : List (κ × ν)}
    (h : es.Pairwise fun a b => a.1 < b.1) :
    (insertEntry k v es).Pairwise fun a b => a.1 < b.1 := by
  induction es with
  | nil => exact List.pairwise_singleton _ _
  | cons e es ih =>
      obtain ⟨hhead, htail⟩ := List.pairwise_cons.mp h
      unfold insertEntry
      split
      · rename_i hlt
        refine List.pairwise_cons.mpr ⟨fun x hx => ?_, h⟩
        rcases List.mem_cons.mp hx with rfl | hx'
        · exact hlt
        · exact lt_trans hlt (hhead x hx')
      · split
        · rename_i hgt
          refine List.pairwise_cons.mpr ⟨fun x hx => ?_, ih htail⟩
          rcases mem_insertEntry hx with rfl | hx'
          · exact hgt
          · exact hhead x hx'
        · -- neither key is smaller: the entry is replaced
          rename_i hge hle
          have heq : k = e.1 := le_antisymm (not_lt.mp hle) (not_lt.mp hge)
          refine List.pairwise_cons.mpr ⟨fun x hx => ?_, htail⟩
          show k < x.1
          rw [heq]
          exact hhead x hx

/-- `map.insert(k, v)`. -/
def insert (m : SortedMap κ ν) (k : κ) (v : ν) : SortedMap κ ν :=
  ⟨insertEntry k v m.entries, sorted_insertEntry m.sorted⟩

/-- `map.get(k)`. -/
def get? (m : SortedMap κ ν) (k : κ) : Option ν :=
  (m.entries.find? fun e => decide (e.1 = k)).map Prod.snd

/-- A key above all keys of the map goes to the end. -/
theorem insertEntry_above {k : κ} {v : ν} {es : List (κ × ν)} (h : ∀ e ∈ es, e.1 < k) :
    insertEntry k v es = es ++ [(k, v)] := by
  induction es with
  | nil => rfl
  | cons e es ih =>
      have he : e.1 < k := h e List.mem_cons_self
      rw [insertEntry, if_neg (not_lt.mpr (le_of_lt he)), if_pos he,
        ih fun x hx => h x (List.mem_cons_of_mem e hx)]
      rfl

/-- Inserts entries one by one. -/
def insertAll (m : SortedMap κ ν) (es : List (κ × ν)) : SortedMap κ ν :=
  es.foldl (fun m e => m.insert e.1 e.2) m

@[simp] theorem insertAll_nil (m : SortedMap κ ν) : m.insertAll [] = m := rfl

@[simp] theorem insertAll_cons (m : SortedMap κ ν) (e : κ × ν) (es : List (κ × ν)) :
    m.insertAll (e :: es) = (m.insert e.1 e.2).insertAll es := rfl

/-- Entries that come in order are appended. -/
theorem entries_insertAll {m : SortedMap κ ν} {es : List (κ × ν)}
    (h : (m.entries ++ es).Pairwise fun a b => a.1 < b.1) :
    (m.insertAll es).entries = m.entries ++ es := by
  induction es generalizing m with
  | nil => exact (List.append_nil _).symm
  | cons e es ih =>
      have habove : ∀ x ∈ m.entries, x.1 < e.1 := fun x hx =>
        (List.pairwise_append.mp h).2.2 x hx e List.mem_cons_self
      have hins : (m.insert e.1 e.2).entries = m.entries ++ [e] := insertEntry_above habove
      rw [insertAll_cons, ih (by rw [hins, List.append_assoc]; exact h), hins, List.append_assoc]
      rfl

/-- **Inserting the entries of a map in order rebuilds the map.** -/
theorem insertAll_entries (m : SortedMap κ ν) : empty.insertAll m.entries = m :=
  ext (entries_insertAll m.sorted)

end SortedMap

end Ruwa.Library
