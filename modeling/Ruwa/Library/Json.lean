/-
  File:      Ruwa/Library/Json.lean
  Subject:   JSON VALUES, read and changed the way a program does that keeps records in them.

  The members of an object have no order; a member that is set replaces the one of that name.

  * `get_set`, `get_erase`, `get_merge` -- what is read after a change;
  * **`erase_merge`** -- two changes of different members are independent of each other.
-/
import Mathlib.Data.List.Basic
import Mathlib.Tactic.Common

namespace Ruwa.Library

inductive Json where
  | null
  | bool (b : Bool)
  | num (literal : List Char)
  | str (s : List Char)
  | arr (items : List Json)
  | obj (members : List (List Char × Json))

/-- The members of an object. -/
abbrev Members := List (List Char × Json)

namespace Json

/-! ## 1. Reading -/

def asStr : Json → Option (List Char)
  | str s => some s
  | _ => none

def asArray : Json → Option (List Json)
  | arr items => some items
  | _ => none

def asObject : Json → Option Members
  | obj members => some members
  | _ => none

end Json

namespace Members

def get (ms : Members) (key : List Char) : Option Json :=
  (ms.find? fun m => m.1 = key).map (·.2)

/-! ## 2. Changing -/

def erase (ms : Members) (key : List Char) : Members := ms.filter fun m => m.1 ≠ key

def set (ms : Members) (key : List Char) (value : Json) : Members := (key, value) :: erase ms key

/-- Every member of `extra`, one after the other. -/
def merge (ms extra : Members) : Members := extra.foldl (fun ms m => set ms m.1 m.2) ms

@[simp] theorem get_set (ms : Members) (key : List Char) (value : Json) :
    get (set ms key value) key = some value := by
  simp [get, set]

theorem get_erase {ms : Members} {key other : List Char} (h : key ≠ other) :
    get (erase ms other) key = get ms key := by
  unfold get erase
  induction ms with
  | nil => rfl
  | cons m ms ih =>
      by_cases hm : m.1 = other
      · rw [List.filter_cons_of_neg (by simpa using hm), ih,
          List.find?_cons_of_neg (by simpa [hm] using fun he => h he.symm)]
      · rw [List.filter_cons_of_pos (by simpa using hm)]
        by_cases hk : m.1 = key
        · simp [hk]
        · rw [List.find?_cons_of_neg (by simpa using hk), List.find?_cons_of_neg (by simpa using hk),
            ih]

theorem get_set_ne {ms : Members} {key other : List Char} {value : Json} (h : key ≠ other) :
    get (set ms other value) key = get ms key := by
  have hskip : get (set ms other value) key = get (erase ms other) key := by
    unfold get set
    rw [List.find?_cons_of_neg (by simpa using fun he => h he.symm)]
  rw [hskip, get_erase h]

/-- A member that is not merged keeps its value. -/
theorem get_merge {ms extra : Members} {key : List Char} (h : ∀ m ∈ extra, key ≠ m.1) :
    get (merge ms extra) key = get ms key := by
  induction extra generalizing ms with
  | nil => rfl
  | cons m extra ih =>
      have hrest : get (merge (set ms m.1 m.2) extra) key = get (set ms m.1 m.2) key :=
        ih fun x hx => h x (List.mem_cons_of_mem m hx)
      exact hrest.trans (get_set_ne (h m List.mem_cons_self))

@[simp] theorem erase_set (ms : Members) (key : List Char) (value : Json) :
    erase (set ms key value) key = erase ms key := by
  simp [erase, set]

theorem erase_set_ne {ms : Members} {key other : List Char} {value : Json} (h : key ≠ other) :
    erase (set ms other value) key = set (erase ms key) other value := by
  have hswap : erase (erase ms other) key = erase (erase ms key) other := by
    unfold erase
    rw [List.filter_filter, List.filter_filter]
    exact List.filter_congr fun m _ => Bool.and_comm _ _
  have hkeep : erase (set ms other value) key = (other, value) :: erase (erase ms other) key :=
    List.filter_cons_of_pos (by simpa using fun he => h he.symm)
  rw [hkeep, hswap]
  rfl

/-- **Two changes of different members are independent of each other.** -/
theorem erase_merge {ms extra : Members} {key : List Char} (h : ∀ m ∈ extra, key ≠ m.1) :
    erase (merge ms extra) key = merge (erase ms key) extra := by
  induction extra generalizing ms with
  | nil => rfl
  | cons m extra ih =>
      have hrest : erase (merge (set ms m.1 m.2) extra) key =
          merge (erase (set ms m.1 m.2) key) extra :=
        ih fun x hx => h x (List.mem_cons_of_mem m hx)
      rw [erase_set_ne (h m List.mem_cons_self)] at hrest
      exact hrest

end Members

/-- The member of an object; other values have none. -/
def Json.get (v : Json) (key : List Char) : Option Json := v.asObject.bind (Members.get · key)

end Ruwa.Library
