/-
  File:      Ruwa/Library/Path.lean
  Subject:   PATHS, as the file system follows them component by component from a directory.

  * `join`, `fileAt` -- a path pushed onto another, and the file that a path names;
  * `descend` -- the same walk that may not leave the directory it starts in;
  * **`direct_iff`** -- a walk ends directly in its directory, whatever that one is called, exactly
    when it never leaves it and ends one level down.
-/
import Mathlib.Data.List.Basic
import Mathlib.Tactic.Common

namespace Ruwa.Library.Path

/-- One component of a path. -/
abbrev Name := List Char

def components (path : List Char) : List Name := path.splitOn '/'

def IsAbsolute (path : List Char) : Prop := path.head? = some '/'

instance (path : List Char) : Decidable (IsAbsolute path) :=
  inferInstanceAs (Decidable (_ = _))

/-- A path pushed onto another: an absolute one replaces it. -/
def join (base path : List Char) : List Char :=
  if IsAbsolute path then path
  else if base = [] ∨ base.getLast? = some '/' then base ++ path
  else base ++ '/' :: path

/-- From a directory to the next, by one component; above the root is the root. -/
def enter (dir : List Name) (c : Name) : List Name :=
  if c = [] ∨ c = ['.'] then dir else if c = ['.', '.'] then dir.dropLast else dir ++ [c]

def follow (dir : List Name) (path : List Char) : List Name :=
  (components path).foldl enter (if IsAbsolute path then [] else dir)

/-- The component names an entry of a directory. -/
def IsName (c : Name) : Prop := c ≠ [] ∧ c ≠ ['.'] ∧ c ≠ ['.', '.']

instance (c : Name) : Decidable (IsName c) := inferInstanceAs (Decidable (_ ∧ _ ∧ _))

/-- Only such a path can name a file that is not a directory. -/
def NamesFile (path : List Char) : Prop := ∃ c ∈ (components path).getLast?, IsName c

instance (path : List Char) : Decidable (NamesFile path) :=
  decidable_of_iff (((components path).getLast?.any fun c => decide (IsName c)) = true) (by
    simp [NamesFile, Option.any_eq_true])

def fileAt (dir : List Name) (path : List Char) : Option (List Name) :=
  if NamesFile path then some (follow dir path) else none

/-! ## A walk that stays inside -/

/-- The walk below a directory, from a place in it; nothing if it leaves the directory. -/
def descend : List Name → List Name → Option (List Name)
  | place, [] => some place
  | place, c :: cs => if place = [] ∧ c = ['.', '.'] then none else descend (enter place c) cs

theorem enter_isName {c : Name} (h : IsName c) (dir : List Name) : enter dir c = dir ++ [c] := by
  rw [enter, if_neg (not_or.mpr ⟨h.1, h.2.1⟩), if_neg h.2.2]

theorem enter_append {dir place : List Name} {c : Name} (h : ¬(place = [] ∧ c = ['.', '.'])) :
    enter (dir ++ place) c = dir ++ enter place c := by
  unfold enter
  split
  · rfl
  · split
    · next hup =>
        have hne : place ≠ [] := fun hnil => h ⟨hnil, hup⟩
        exact List.dropLast_append_of_ne_nil hne
    · exact List.append_assoc dir place [c]

theorem foldl_enter_of_descend {cs place place' : List Name} (dir : List Name)
    (h : descend place cs = some place') : cs.foldl enter (dir ++ place) = dir ++ place' := by
  induction cs generalizing place with
  | nil =>
      cases h
      rfl
  | cons c cs ih =>
      unfold descend at h
      split at h
      · cases h
      · next hstay =>
          rw [List.foldl_cons, enter_append hstay]
          exact ih h

/-- A walk that leaves its directory ends in the same place whatever the directory is called. -/
theorem foldl_enter_of_climb {cs place : List Name} (parent : List Name)
    (h : descend place cs = none) : ∃ dest, ∀ n, cs.foldl enter (parent ++ [n] ++ place) = dest := by
  induction cs generalizing place with
  | nil => cases h
  | cons c cs ih =>
      unfold descend at h
      split at h
      · next hleave =>
          obtain ⟨rfl, rfl⟩ := hleave
          refine ⟨cs.foldl enter parent, fun n => ?_⟩
          rw [List.append_nil, List.foldl_cons]
          simp [enter]
      · next hstay =>
          obtain ⟨dest, hdest⟩ := ih h
          refine ⟨dest, fun n => ?_⟩
          rw [List.foldl_cons, enter_append hstay]
          exact hdest n

/-- The entry of its directory that a path names, if it stays inside and names one. -/
def entry (path : List Char) : Option Name :=
  if IsAbsolute path then none
  else
    match descend [] (components path) with
    | some [name] => some name
    | _ => none

theorem follow_of_entry {path : List Char} {name : Name} (h : entry path = some name)
    (dir : List Name) : follow dir path = dir ++ [name] := by
  unfold entry at h
  split at h
  · cases h
  · next hrel =>
      split at h
      · next hdescend =>
          cases h
          have hwalk := foldl_enter_of_descend dir hdescend
          rw [List.append_nil] at hwalk
          rwa [follow, if_neg hrel]
      · cases h

/-- **Directly inside, whatever the directory is called.** -/
theorem direct_iff {path : List Char} (parent : List Name) {P : Name → Prop} {a b : Name}
    (ha : P a) (hb : P b) (hab : a ≠ b) :
    (∀ n, P n → ∃ name, follow (parent ++ [n]) path = parent ++ [n] ++ [name]) ↔
      (entry path).isSome = true := by
  constructor
  · intro h
    obtain ⟨x, hx⟩ := h a ha
    obtain ⟨y, hy⟩ := h b hb
    -- two names of the directory give two places, so the walk depends on the name
    have hdiffer : ∀ dest, (∀ n, follow (parent ++ [n]) path = dest) → False := by
      intro dest hsame
      rw [hsame a] at hx
      rw [hsame b, hx] at hy
      simp only [List.append_assoc, List.append_cancel_left_eq, List.singleton_append,
        List.cons.injEq] at hy
      exact hab hy.1
    unfold entry
    split
    · next habs =>
        refine absurd (fun n => ?_) (hdiffer ((components path).foldl enter []))
        rw [follow, if_pos habs]
    · next hrel =>
        cases hdescend : descend [] (components path) with
        | none =>
            obtain ⟨dest, hdest⟩ := foldl_enter_of_climb parent hdescend
            refine absurd (fun n => ?_) (hdiffer dest)
            rw [follow, if_neg hrel, ← hdest n, List.append_nil]
        | some place =>
            have hwalk := foldl_enter_of_descend (parent ++ [a]) hdescend
            rw [List.append_nil] at hwalk
            rw [follow, if_neg hrel, hwalk, List.append_cancel_left_eq] at hx
            rw [hx]
            rfl
  · intro h n _
    obtain ⟨name, hname⟩ := Option.isSome_iff_exists.mp h
    exact ⟨name, follow_of_entry hname (parent ++ [n])⟩

/-! ## A path pushed onto a directory -/

theorem components_append (left right : List Char) :
    components (left ++ '/' :: right) = components left ++ components right :=
  List.splitOn_append_cons_self left right

theorem components_of_not_mem {name : List Char} (h : '/' ∉ name) : components name = [name] :=
  List.splitOn_eq_singleton h

theorem join_relative {base path : List Char} (hbase : base ≠ []) (hend : base.getLast? ≠ some '/')
    (hrel : ¬IsAbsolute path) : join base path = base ++ '/' :: path := by
  rw [join, if_neg hrel, if_neg (not_or.mpr ⟨hbase, hend⟩)]

theorem components_ne_nil (path : List Char) : components path ≠ [] := List.splitOn_ne_nil '/' path

theorem namesFile_append (left right : List Char) :
    NamesFile (left ++ '/' :: right) ↔ NamesFile right := by
  unfold NamesFile
  rw [components_append, List.getLast?_append_of_ne_nil _ (components_ne_nil right)]

end Ruwa.Library.Path
