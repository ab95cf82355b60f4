/-
  File:      Ruwa/Library/SetHash.lean
  Subject:   A RUNNING HASH OF A COLLECTION: each element is mapped into a commutative group, and the
             hash of the collection is the sum.

  A collection holds one element under each key. Whoever keeps the sum up to date has to take out
  what an edit replaces; one that is blind adds what is set, and takes out what the removal itself
  carries.

  * `total`, `Edit` -- the sum over a collection, and what can happen to the collection;
  * `total_insert`, `total_erase` -- what that does to the sum;
  * **`total_apply_iff`** -- the blind update is right exactly when the edit is balanced;
  * `total_applyAll` -- so it is over balanced edits.
-/
import Mathlib.Algebra.BigOperators.Group.Multiset.Basic
import Mathlib.Data.Finmap

namespace Ruwa.Library

/-- One element under each key. -/
abbrev Collection (κ α : Type) : Type := Finmap fun _ : κ => α

section

variable {κ α G : Type} [AddCommGroup G] (f : α → G)

/-- The hash of a collection. -/
def total (s : Collection κ α) : G := (s.entries.map fun e => f e.2).sum

@[simp] theorem total_empty : total f (∅ : Collection κ α) = 0 := rfl

variable [DecidableEq κ]

/-- What the element under a key adds to it. -/
def held (s : Collection κ α) (k : κ) : G := (s.lookup k).elim 0 f

inductive Edit (κ α : Type) where
  | set (k : κ) (a : α)
  | remove (k : κ) (a : α)

def Edit.apply : Edit κ α → Collection κ α → Collection κ α
  | .set k a, s => s.insert k a
  | .remove k _, s => s.erase k

/-- The update that does not look at the collection. -/
def Edit.delta : Edit κ α → G
  | .set _ a => f a
  | .remove _ a => -f a

/-- A set replaces nothing, and a removal carries what it removes, as far as the hash can tell. -/
def Edit.Balanced (s : Collection κ α) : Edit κ α → Prop
  | .set k _ => held f s k = 0
  | .remove k a => held f s k = f a

theorem total_insert_of_notMem {s : Collection κ α} {k : κ} (a : α) (h : k ∉ s) :
    total f (s.insert k a) = f a + total f s := by
  unfold total
  rw [Finmap.entries_insert_of_notMem h, Multiset.map_cons, Multiset.sum_cons]

theorem insert_erase_self (s : Collection κ α) (k : κ) (a : α) :
    (s.erase k).insert k a = s.insert k a := by
  refine Finmap.ext_lookup fun x => ?_
  by_cases h : x = k
  · rw [h, Finmap.lookup_insert, Finmap.lookup_insert]
  · rw [Finmap.lookup_insert_of_ne _ h, Finmap.lookup_insert_of_ne _ h, Finmap.lookup_erase_ne h]

theorem insert_lookup {s : Collection κ α} {k : κ} {a : α} (h : s.lookup k = some a) :
    s.insert k a = s := by
  refine Finmap.ext_lookup fun x => ?_
  by_cases hx : x = k
  · rw [hx, Finmap.lookup_insert, h]
  · rw [Finmap.lookup_insert_of_ne _ hx]

theorem erase_of_notMem {s : Collection κ α} {k : κ} (h : k ∉ s) : s.erase k = s := by
  refine Finmap.ext_lookup fun x => ?_
  by_cases hx : x = k
  · rw [hx, Finmap.lookup_erase, Finmap.lookup_eq_none.mpr h]
  · rw [Finmap.lookup_erase_ne hx]

/-- **Removing** takes out what was there. -/
theorem total_erase (s : Collection κ α) (k : κ) :
    total f (s.erase k) = total f s - held f s k := by
  unfold held
  cases h : s.lookup k with
  | none => rw [erase_of_notMem (Finmap.lookup_eq_none.mp h), Option.elim_none, sub_zero]
  | some a =>
      have hsum : total f s = f a + total f (s.erase k) := by
        rw [← total_insert_of_notMem f a Finmap.notMem_erase_self, insert_erase_self,
          insert_lookup h]
      rw [hsum, Option.elim_some, add_sub_cancel_left]

/-- **Setting** takes it out and adds what is there now. -/
theorem total_insert (s : Collection κ α) (k : κ) (a : α) :
    total f (s.insert k a) = total f s - held f s k + f a := by
  rw [← insert_erase_self, total_insert_of_notMem f a Finmap.notMem_erase_self, total_erase,
    add_comm]

/-- **The blind update is right exactly when the edit is balanced.** -/
theorem total_apply_iff (e : Edit κ α) (s : Collection κ α) :
    total f (e.apply s) = total f s + e.delta f ↔ e.Balanced f s := by
  cases e with
  | set k a =>
      unfold Edit.apply Edit.delta Edit.Balanced
      dsimp only
      rw [total_insert, add_left_inj, sub_eq_self]
  | remove k a =>
      unfold Edit.apply Edit.delta Edit.Balanced
      dsimp only
      rw [total_erase, ← sub_eq_add_neg, sub_right_inj]

/-- Edits one after the other. -/
def applyAll (es : List (Edit κ α)) (s : Collection κ α) : Collection κ α :=
  es.foldl (fun s e => e.apply s) s

/-- Each is balanced where it comes. -/
def BalancedAll : Collection κ α → List (Edit κ α) → Prop
  | _, [] => True
  | s, e :: es => e.Balanced f s ∧ BalancedAll (e.apply s) es

/-- **Over balanced edits the blind updates add up** to the hash of what is there. -/
theorem total_applyAll {s : Collection κ α} {es : List (Edit κ α)} (h : BalancedAll f s es) :
    total f (applyAll es s) = total f s + (es.map (Edit.delta f)).sum := by
  induction es generalizing s with
  | nil => rw [List.map_nil, List.sum_nil, add_zero]; rfl
  | cons e es ih =>
      obtain ⟨hfirst, hrest⟩ := h
      calc total f (applyAll (e :: es) s)
          = total f (e.apply s) + (es.map (Edit.delta f)).sum := ih hrest
        _ = total f s + e.delta f + (es.map (Edit.delta f)).sum := by
            rw [(total_apply_iff f e s).mpr hfirst]
        _ = total f s + ((e :: es).map (Edit.delta f)).sum := by
            rw [List.map_cons, List.sum_cons, add_assoc]

end

end Ruwa.Library
