/-
  File:      Ruwa/Library/Segments.lean
  Subject:   A MEMORY OF SEGMENTS, each with the address it begins at, and rows of equal length that
             lie one behind the other.

  * `locate` -- the first segment that holds a whole range of addresses;
  * **`locate_of_mem`** -- where the segments are apart, that is the segment the range is in;
  * `take_flatMap`, `getD_flatMap` -- a row, and an entry of a row, is found at its index.
-/
import Ruwa.Library.Bytes

namespace Ruwa.Library

/-! ## 1. Segments -/

structure Segment where
  base : Nat
  data : Bytes

/-- The segment with the `n` bytes from `addr` on, and where they begin in it. -/
def locate : List Segment → Nat → Nat → Option (Bytes × Nat)
  | [], _, _ => none
  | s :: rest, addr, n =>
      if s.base ≤ addr ∧ addr - s.base + n ≤ s.data.length then some (s.data, addr - s.base)
      else locate rest addr n

/-- No two segments share an address. -/
def Apart (segments : List Segment) : Prop :=
  segments.Pairwise fun a b =>
    a.base + a.data.length ≤ b.base ∨ b.base + b.data.length ≤ a.base

/-- **What lies in a segment is found there.** -/
theorem locate_of_mem {off n : Nat} (hn : 0 < n) :
    ∀ {segments : List Segment} {s : Segment}, Apart segments → s ∈ segments →
      off + n ≤ s.data.length → locate segments (s.base + off) n = some (s.data, off)
  | t :: rest, s, hapart, hmem, hin => by
      obtain ⟨hfirst, hrest⟩ := List.pairwise_cons.mp hapart
      unfold locate
      rcases List.mem_cons.mp hmem with rfl | hmem
      · rw [if_pos (by omega), Nat.add_sub_cancel_left]
      · have hother := hfirst s hmem
        rw [if_neg (by omega)]
        exact locate_of_mem hn hrest hmem hin

/-! ## 2. Rows of equal length -/

section

variable {α β : Type}

/-- A row is found at its index. -/
theorem take_flatMap {f : α → List β} {n : Nat} :
    ∀ {xs : List α}, (∀ x ∈ xs, (f x).length = n) → ∀ {i : Nat} (hi : i < xs.length),
      ((xs.flatMap f).drop (i * n)).take n = f xs[i]
  | x :: rest, h, 0, _ => by
      rw [Nat.zero_mul, List.drop_zero, List.flatMap_cons, List.getElem_cons_zero]
      exact List.take_left' (h x List.mem_cons_self)
  | x :: rest, h, i + 1, hi => by
      have hx := h x List.mem_cons_self
      rw [List.flatMap_cons, List.drop_append, List.getElem_cons_succ]
      have hdrop : (f x).drop ((i + 1) * n) = [] :=
        List.drop_eq_nil_of_le (by rw [hx, Nat.succ_mul]; omega)
      have hless : (i + 1) * n - (f x).length = i * n := by
        rw [hx, Nat.succ_mul]
        omega
      rw [hdrop, hless, List.nil_append]
      exact take_flatMap (fun y hy => h y (List.mem_cons_of_mem x hy)) (Nat.lt_of_succ_lt_succ hi)

/-- An entry of a row is found behind the rows before it. -/
theorem getD_flatMap {f : α → List β} {n : Nat} {xs : List α} (h : ∀ x ∈ xs, (f x).length = n)
    {i j : Nat} (hi : i < xs.length) (hj : j < n) (d : β) :
    (xs.flatMap f).getD (i * n + j) d = (f xs[i]).getD j d := by
  rw [← take_flatMap h hi, List.getD_eq_getElem?_getD, List.getD_eq_getElem?_getD,
    List.getElem?_take_of_lt hj, List.getElem?_drop]

theorem length_flatMap {f : α → List β} {n : Nat} :
    ∀ {xs : List α}, (∀ x ∈ xs, (f x).length = n) → (xs.flatMap f).length = xs.length * n
  | [], _ => (Nat.zero_mul n).symm
  | x :: rest, h => by
      rw [List.flatMap_cons, List.length_append, h x List.mem_cons_self,
        length_flatMap fun y hy => h y (List.mem_cons_of_mem x hy), List.length_cons, Nat.succ_mul,
        Nat.add_comm]

end

end Ruwa.Library
