/-
  File:      Ruwa/Library/SkipWindow.lean
  Subject:   RECEIVING A NUMBERED STREAM OUT OF ORDER: the next number, and the ones passed over.

  A receiver that moves forward through a stream keeps a note of every number it skips, and takes
  a late number from the notes. The window is what the receiver has left to accept: everything
  from `next` on, and what is `missing` below it.

  * `take_eq_none` -- a number is refused exactly when it was seen;
  * `seen_take` -- afterwards it counts as seen, and nothing else changed;
  * **`seen_arriveAll`** -- after any stream, exactly what arrived was seen;
  * `length_missing` -- the notes never outgrow the numbers passed; `capped` keeps the newest.

  `takeFirst` is how a program looks a note up: the first entry that matches, and the others.
  `takeFirst_map` says when that is the same as erasing a number.
-/
import Mathlib.Data.List.Nodup
import Mathlib.Data.List.Range
import Mathlib.Data.List.Dedup
import Mathlib.Data.List.Perm.Subperm

namespace Ruwa.Library

/-! ## 1. Looking up and removing -/

/-- The first entry with `p`, and the list without it: `position`, `clone` and `remove`. -/
def takeFirst {α : Type} (p : α → Bool) : List α → Option (α × List α)
  | [] => none
  | a :: as => if p a then some (a, as) else (takeFirst p as).map fun (b, bs) => (b, a :: bs)

/-- Entries that are made from numbers, looked up by their number. -/
theorem takeFirst_map {α : Type} {p : α → Bool} {f : Nat → α} {is : List Nat} {i : Nat}
    (hp : ∀ j ∈ is, p (f j) = true ↔ j = i) :
    takeFirst p (is.map f) = if i ∈ is then some (f i, (is.erase i).map f) else none := by
  induction is with
  | nil => rfl
  | cons j is ih =>
      have hj := hp j List.mem_cons_self
      have hrest := ih fun k hk => hp k (List.mem_cons_of_mem _ hk)
      rw [List.map_cons, takeFirst]
      by_cases hji : j = i
      · rw [if_pos (hj.mpr hji), hji, if_pos List.mem_cons_self, List.erase_cons_head]
      · have hmem : i ∈ j :: is ↔ i ∈ is := by
          rw [List.mem_cons]
          exact ⟨fun h => h.resolve_left fun h => hji h.symm, Or.inr⟩
        rw [if_neg (mt hj.mp hji), hrest]
        by_cases hi : i ∈ is
        · rw [if_pos hi, if_pos (hmem.mpr hi), List.erase_cons_tail (by simpa using hji)]
          rfl
        · rw [if_neg hi, if_neg (mt hmem.mp hi)]
          rfl

/-- What was found is the first entry that matches, and only it is missing from the rest. -/
theorem takeFirst_map_some {α : Type} {p : α → Bool} {f : Nat → α} {is : List Nat} {a : α}
    {rest : List α} (h : takeFirst p (is.map f) = some (a, rest)) :
    ∃ j ∈ is, a = f j ∧ p a = true ∧ rest = (is.erase j).map f := by
  induction is generalizing rest with
  | nil => cases h
  | cons i is ih =>
      rw [List.map_cons, takeFirst] at h
      by_cases hi : p (f i) = true
      · rw [if_pos hi] at h
        cases h
        exact ⟨i, List.mem_cons_self, rfl, hi, by rw [List.erase_cons_head]⟩
      · rw [if_neg hi] at h
        obtain ⟨⟨b, bs⟩, hrest, heq⟩ := Option.map_eq_some_iff.mp h
        cases heq
        obtain ⟨j, hj, rfl, hp, rfl⟩ := ih hrest
        have hne : i ≠ j := fun hij => hi (hij ▸ hp)
        refine ⟨j, List.mem_cons_of_mem i hj, rfl, hp, ?_⟩
        rw [List.erase_cons_tail (by simpa using hne), List.map_cons]

/-- What is left is part of what there was. -/
theorem takeFirst_sublist {α : Type} {p : α → Bool} {as rest : List α} {a : α}
    (h : takeFirst p as = some (a, rest)) : rest.Sublist as := by
  induction as generalizing rest with
  | nil => cases h
  | cons b as ih =>
      rw [takeFirst] at h
      by_cases hb : p b = true
      · rw [if_pos hb] at h
        cases h
        exact List.sublist_cons_self a as
      · rw [if_neg hb] at h
        obtain ⟨⟨c, cs⟩, hrest, heq⟩ := Option.map_eq_some_iff.mp h
        cases heq
        exact (ih hrest).cons_cons b

/-- An entry is what was found, or is left. -/
theorem mem_of_takeFirst {α : Type} {p : α → Bool} {as rest : List α} {a : α}
    (h : takeFirst p as = some (a, rest)) : p a = true ∧ ∀ b ∈ as, b = a ∨ b ∈ rest := by
  induction as generalizing rest with
  | nil => cases h
  | cons c as ih =>
      rw [takeFirst] at h
      by_cases hc : p c = true
      · rw [if_pos hc] at h
        cases h
        exact ⟨hc, fun b hb => List.mem_cons.mp hb⟩
      · rw [if_neg hc] at h
        obtain ⟨⟨a', rest'⟩, hrest, heq⟩ := Option.map_eq_some_iff.mp h
        cases heq
        obtain ⟨hp, hmem⟩ := ih hrest
        refine ⟨hp, fun b hb => ?_⟩
        rcases List.mem_cons.mp hb with rfl | hb
        · exact .inr List.mem_cons_self
        · exact (hmem b hb).imp_right (List.mem_cons_of_mem c)

/-! ## 2. The window -/

/-- What a receiver has left to accept. No number is missing twice, and none lies ahead. -/
structure SkipWindow where
  next : Nat
  missing : List Nat
  nodup : missing.Nodup
  below : ∀ i ∈ missing, i < next

namespace SkipWindow

/-- Nothing received yet. -/
def start : SkipWindow := ⟨0, [], List.nodup_nil, fun _ h => nomatch h⟩

/-- A number that was accepted before. -/
def Seen (w : SkipWindow) (i : Nat) : Prop := i < w.next ∧ i ∉ w.missing

/-- Moving forward past `i` notes what lies between. -/
def forward (w : SkipWindow) (i : Nat) (h : w.next ≤ i) : SkipWindow where
  next := i + 1
  missing := w.missing ++ List.range' w.next (i - w.next)
  nodup := by
    refine w.nodup.append List.nodup_range' fun j hj hj' => ?_
    have hlt := w.below j hj
    have hle := (List.mem_range'_1.mp hj').1
    omega
  below := by
    intro j hj
    rcases List.mem_append.mp hj with hj | hj
    · have := w.below j hj
      omega
    · have := (List.mem_range'_1.mp hj).2
      omega

/-- A late number is crossed out. -/
def late (w : SkipWindow) (i : Nat) : SkipWindow where
  next := w.next
  missing := w.missing.erase i
  nodup := w.nodup.erase i
  below _ hj := w.below _ (List.mem_of_mem_erase hj)

/-- Accepts a number, or refuses it. -/
def take (w : SkipWindow) (i : Nat) : Option SkipWindow :=
  if h : w.next ≤ i then some (w.forward i h)
  else if i ∈ w.missing then some (w.late i)
  else none

theorem take_forward {w : SkipWindow} {i : Nat} (h : w.next ≤ i) :
    w.take i = some (w.forward i h) := dif_pos h

theorem take_late {w : SkipWindow} {i : Nat} (h : i ∈ w.missing) : w.take i = some (w.late i) := by
  unfold take
  rw [dif_neg (Nat.not_le.mpr (w.below i h)), if_pos h]

/-- **A number is refused exactly when it was seen.** -/
theorem take_eq_none {w : SkipWindow} {i : Nat} : w.take i = none ↔ w.Seen i := by
  unfold take Seen
  by_cases h : w.next ≤ i
  · rw [dif_pos h]
    exact ⟨fun hn => (nomatch hn), fun hs => absurd hs.1 (Nat.not_lt.mpr h)⟩
  · rw [dif_neg h]
    by_cases hm : i ∈ w.missing
    · rw [if_pos hm]
      exact ⟨fun hn => (nomatch hn), fun hs => absurd hm hs.2⟩
    · rw [if_neg hm]
      exact ⟨fun _ => ⟨Nat.not_le.mp h, hm⟩, fun _ => rfl⟩

theorem seen_forward {w : SkipWindow} {i j : Nat} (h : w.next ≤ i) :
    (w.forward i h).Seen j ↔ j = i ∨ w.Seen j := by
  unfold forward Seen
  rw [List.mem_append, List.mem_range'_1]
  have hbelow := w.below j
  grind

theorem seen_late {w : SkipWindow} {i j : Nat} (h : i ∈ w.missing) :
    (w.late i).Seen j ↔ j = i ∨ w.Seen j := by
  have hlt := w.below i h
  unfold late Seen
  rw [w.nodup.mem_erase_iff]
  grind

/-- **Afterwards the number counts as seen**, and nothing else changed. -/
theorem seen_take {w w' : SkipWindow} {i j : Nat} (h : w.take i = some w') :
    w'.Seen j ↔ j = i ∨ w.Seen j := by
  unfold take at h
  split at h
  · cases h
    exact seen_forward _
  · split at h
    · rename_i hm
      cases h
      exact seen_late hm
    · cases h

/-- The notes never outgrow the numbers passed. -/
theorem length_missing (w : SkipWindow) : w.missing.length ≤ w.next := by
  have hsub : w.missing ⊆ List.range w.next := fun i hi => List.mem_range.mpr (w.below i hi)
  have hlen := (List.subperm_of_subset w.nodup hsub).length_le
  rwa [List.length_range] at hlen

/-- Nothing received yet, and nothing below `n` to come. -/
def startAt (n : Nat) : SkipWindow := ⟨n, [], List.nodup_nil, fun _ h => nomatch h⟩

/-- Only the newest `n` notes are kept. -/
def capped (w : SkipWindow) (n : Nat) : SkipWindow where
  next := w.next
  missing := w.missing.drop (w.missing.length - n)
  nodup := w.nodup.sublist (List.drop_sublist _ _)
  below i hi := w.below i (List.mem_of_mem_drop hi)

theorem capped_of_length_le {w : SkipWindow} {n : Nat} (h : w.missing.length ≤ n) :
    w.capped n = w := by
  unfold capped
  simp only [Nat.sub_eq_zero_of_le h, List.drop_zero]

/-- What a receiver that walks at most `cap` numbers ahead, and keeps as many notes, still takes. -/
def Reach (w : SkipWindow) (cap i : Nat) : Prop :=
  i ∈ w.missing ∨ (w.next ≤ i ∧ i - w.next ≤ cap)

instance (w : SkipWindow) (cap i : Nat) : Decidable (w.Reach cap i) :=
  inferInstanceAs (Decidable (_ ∨ _))

/-- The window of such a receiver after it. -/
def advance (w : SkipWindow) (cap i : Nat) : SkipWindow :=
  if h : w.next ≤ i then (w.forward i h).capped cap else w.late i

theorem next_advance (w : SkipWindow) (cap i : Nat) :
    (w.advance cap i).next = max w.next (i + 1) := by
  unfold advance
  split
  · rename_i hle
    exact (Nat.max_eq_right (Nat.le_succ_of_le hle)).symm
  · rename_i hlt
    exact (Nat.max_eq_left (Nat.not_le.mp hlt)).symm

/-! ## 3. A whole stream -/

/-- The window after one arrival; a refused number changes nothing. -/
def arrive (w : SkipWindow) (i : Nat) : SkipWindow := (w.take i).getD w

/-- One arrival: the number counts as seen from now on. -/
theorem seen_arrive {w : SkipWindow} {i j : Nat} : (w.arrive i).Seen j ↔ j = i ∨ w.Seen j := by
  unfold arrive
  cases h : w.take i with
  | some w' => exact seen_take h
  | none =>
      have hseen := take_eq_none.mp h
      rw [Option.getD_none]
      exact ⟨Or.inr, fun hj => hj.elim (fun he => he ▸ hseen) id⟩

theorem next_arrive {w : SkipWindow} {i n : Nat} (hw : w.next ≤ n) (hi : i < n) :
    (w.arrive i).next ≤ n := by
  unfold arrive take
  split
  · exact hi
  · split
    · exact hw
    · exact hw

/-- The window after a stream of arrivals. -/
def arriveAll (w : SkipWindow) (is : List Nat) : SkipWindow := is.foldl arrive w

/-- **After any stream, exactly what arrived was seen.** -/
theorem seen_arriveAll {w : SkipWindow} {is : List Nat} {j : Nat} :
    (w.arriveAll is).Seen j ↔ j ∈ is ∨ w.Seen j := by
  induction is generalizing w with
  | nil => exact ⟨Or.inr, fun h => h.resolve_left List.not_mem_nil⟩
  | cons i is ih =>
      have hstep : (w.arriveAll (i :: is)).Seen j ↔ ((w.arrive i).arriveAll is).Seen j := Iff.rfl
      rw [hstep, ih, seen_arrive, List.mem_cons]
      tauto

theorem next_arriveAll {w : SkipWindow} {is : List Nat} {n : Nat} (hw : w.next ≤ n)
    (his : ∀ i ∈ is, i < n) : (w.arriveAll is).next ≤ n := by
  induction is generalizing w with
  | nil => exact hw
  | cons i is ih =>
      exact ih (next_arrive hw (his i List.mem_cons_self)) fun k hk =>
        his k (List.mem_cons_of_mem _ hk)

end SkipWindow

end Ruwa.Library
