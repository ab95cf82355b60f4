/-
  File:      Ruwa/Library/Framing.lean
  Subject:   SELF-DELIMITING CODES under an incremental decoder.

  A stream transport cuts what was sent wherever it likes. The receiver keeps a buffer: it
  appends every chunk that arrives and takes whole items off the front when somebody asks. That
  the result does not depend on the cuts is a property of the code alone, and is proved once:

  * `FrameCode` -- a code whose reader finds the end of the first item by itself: it returns the
    item from anything that starts with the item's whole encoding (`next_enc`) and nothing from
    a proper beginning of one (`next_short`);
  * `run_sound` -- the INVARIANT of the decoder: what lies in the buffer followed by what was not
    fed yet spells exactly the items that were not returned yet;
  * `run_drained` -- once everything is fed and the reader has nothing more to give, everything
    was returned, in order, and the buffer is empty; `run_drain` says how many reads suffice.
-/
import Mathlib.Data.List.Basic
import Mathlib.Tactic.Common

namespace Ruwa.Library

universe u v

/-- A beginning of two lists: it ends in the first, or it has all of it. -/
theorem prefix_append_cases {α : Type u} {a b cut : List α} (h : cut <+: a ++ b) :
    (cut <+: a ∧ cut.length < a.length) ∨ ∃ cut', cut = a ++ cut' ∧ cut' <+: b := by
  by_cases hlt : cut.length < a.length
  · exact .inl ⟨List.prefix_of_prefix_length_le h (List.prefix_append a b) (Nat.le_of_lt hlt), hlt⟩
  · obtain ⟨cut', rfl⟩ :=
      List.prefix_of_prefix_length_le (List.prefix_append a b) h (Nat.le_of_not_lt hlt)
    exact .inr ⟨cut', rfl, (List.prefix_append_right_inj a).mp h⟩

/-- A self-delimiting code for the items that are `Valid`, over an alphabet `σ`. -/
structure FrameCode (σ : Type u) (α : Type v) where
  /-- The items the code is for. -/
  Valid : α → Prop
  /-- What the sender puts on the stream for an item. -/
  enc : α → List σ
  /-- The first item of a buffer and what follows it, when the buffer holds all of it. -/
  next : List σ → Option (α × List σ)
  next_enc : ∀ {a : α} (rest : List σ), Valid a → next (enc a ++ rest) = some (a, rest)
  next_short : ∀ {a : α} {buf : List σ}, Valid a → buf <+: enc a →
    buf.length < (enc a).length → next buf = none
  next_nil : next [] = none

namespace FrameCode

variable {σ : Type u} {α : Type v} (c : FrameCode σ α)

/-! ## 1. The decoder -/

/-- One thing that happens to the decoder. -/
inductive Op (σ : Type u)
  | feed (chunk : List σ)
  | read

/-- The decoder: its buffer, and the items it has returned so far (oldest first). -/
structure Decoding (σ : Type u) (α : Type v) where
  buf : List σ
  out : List α

/-- What one operation does. -/
def step (d : Decoding σ α) : Op σ → Decoding σ α
  | .feed chunk => { d with buf := d.buf ++ chunk }
  | .read =>
      match c.next d.buf with
      | some (a, rest) => ⟨rest, d.out ++ [a]⟩
      | none => d

/-- What a list of operations does. -/
def run (d : Decoding σ α) (ops : List (Op σ)) : Decoding σ α := ops.foldl c.step d

@[simp] theorem run_nil (d : Decoding σ α) : c.run d [] = d := rfl

@[simp] theorem run_cons (d : Decoding σ α) (op : Op σ) (ops : List (Op σ)) :
    c.run d (op :: ops) = c.run (c.step d op) ops := rfl

theorem run_append (d : Decoding σ α) (ops ops' : List (Op σ)) :
    c.run d (ops ++ ops') = c.run (c.run d ops) ops' := List.foldl_append

/-- Everything a list of operations feeds. -/
def fed : List (Op σ) → List σ
  | [] => []
  | .feed chunk :: ops => chunk ++ fed ops
  | .read :: ops => fed ops

/-! ## 2. One read -/

/-- **One read against the items that are still to come**: it returns the first of them, or
    nothing at all, and the unread part keeps spelling what is left. -/
theorem next_stream {buf rest : List σ} {left : List α} (hv : ∀ a ∈ left, c.Valid a)
    (h : buf ++ rest = left.flatMap c.enc) :
    (c.next buf = none ∧ (rest = [] → left = [])) ∨
    ∃ a later buf', left = a :: later ∧ c.next buf = some (a, buf') ∧
      buf' ++ rest = later.flatMap c.enc := by
  cases left with
  | nil =>
      have hb : buf = [] := (List.append_eq_nil_iff.mp h).1
      exact Or.inl ⟨hb ▸ c.next_nil, fun _ => rfl⟩
  | cons a later =>
      have ha : c.Valid a := hv a List.mem_cons_self
      rw [List.flatMap_cons] at h
      have hprefix : buf <+: c.enc a ++ later.flatMap c.enc := h ▸ List.prefix_append buf rest
      rcases prefix_append_cases hprefix with ⟨hp, hl⟩ | ⟨buf', rfl, -⟩
      · -- the first item is not complete: the buffer is a proper beginning of it
        refine Or.inl ⟨c.next_short ha hp hl, fun hr => ?_⟩
        have := congrArg List.length h
        simp only [hr, List.append_nil, List.length_append] at this
        omega
      · refine Or.inr ⟨a, later, buf', rfl, c.next_enc buf' ha, ?_⟩
        rw [List.append_assoc] at h
        exact List.append_cancel_left h

/-! ## 3. Whole runs -/

/-- **The invariant of the decoder over any operations**: `got` was returned, and the buffer
    together with what was not fed yet spells the rest. -/
theorem run_sound {ops : List (Op σ)} {rest : List σ} {left : List α} {d : Decoding σ α}
    (hv : ∀ a ∈ left, c.Valid a) (h : d.buf ++ (fed ops ++ rest) = left.flatMap c.enc) :
    ∃ got later, left = got ++ later ∧ (c.run d ops).out = d.out ++ got ∧
      (c.run d ops).buf ++ rest = later.flatMap c.enc := by
  induction ops generalizing d left with
  | nil => exact ⟨[], left, rfl, (List.append_nil _).symm, h⟩
  | cons op ops ih =>
      cases op with
      | feed chunk =>
          refine ih hv ?_
          show d.buf ++ chunk ++ (fed ops ++ rest) = _
          rw [← h, fed]
          simp only [List.append_assoc]
      | read =>
          rcases c.next_stream hv h with ⟨hn, -⟩ | ⟨a, later, buf', rfl, hn, hb⟩
          · have hs : c.step d .read = d := by simp only [step, hn]
            rw [run_cons, hs]
            exact ih hv h
          · have hs : c.step d .read = ⟨buf', d.out ++ [a]⟩ := by simp only [step, hn]
            rw [run_cons, hs]
            obtain ⟨got, later', rfl, hout, hbuf⟩ :=
              ih (d := ⟨buf', d.out ++ [a]⟩) (fun x hx => hv x (List.mem_cons_of_mem a hx)) hb
            exact ⟨a :: got, later', rfl, by simp [hout], hbuf⟩

/-- **Everything fed and nothing left to read: every item was returned, and the buffer is
    empty.** -/
theorem run_drained {ops : List (Op σ)} {left : List α} {d : Decoding σ α}
    (hv : ∀ a ∈ left, c.Valid a) (h : d.buf ++ fed ops = left.flatMap c.enc)
    (hn : c.next (c.run d ops).buf = none) :
    (c.run d ops).out = d.out ++ left ∧ (c.run d ops).buf = [] := by
  have h' : d.buf ++ (fed ops ++ []) = left.flatMap c.enc := by rw [List.append_nil, h]
  obtain ⟨got, later, rfl, hout, hbuf⟩ := c.run_sound hv h'
  have hv' : ∀ a ∈ later, c.Valid a := fun a ha => hv a (List.mem_append_right got ha)
  rcases c.next_stream hv' hbuf with ⟨-, hl⟩ | ⟨a, _, _, -, hs, -⟩
  · have hl' : later = [] := hl rfl
    subst hl'
    simp only [List.append_nil, List.flatMap_nil] at hbuf hout ⊢
    exact ⟨hout, hbuf⟩
  · rw [hs] at hn
    cases hn

/-- Reading as often as there are items empties a buffer that spells them. -/
theorem run_drain {left : List α} {n : Nat} (hn : left.length ≤ n) (hv : ∀ a ∈ left, c.Valid a)
    (d : Decoding σ α) (h : d.buf = left.flatMap c.enc) :
    c.run d (List.replicate n .read) = ⟨[], d.out ++ left⟩ := by
  induction n generalizing left d with
  | zero =>
      have hl : left = [] := List.eq_nil_of_length_eq_zero (Nat.le_zero.mp hn)
      subst hl
      obtain ⟨buf, out⟩ := d
      simp only [List.flatMap_nil] at h
      simp [h]
  | succ n ih =>
      have h' : d.buf ++ [] = left.flatMap c.enc := by rw [List.append_nil, h]
      rw [List.replicate_succ, run_cons]
      rcases c.next_stream hv h' with ⟨hnone, hl⟩ | ⟨a, later, buf', rfl, hs, hb⟩
      · have hs : c.step d .read = d := by simp only [step, hnone]
        rw [hs]
        exact ih (by rw [hl rfl]; exact Nat.zero_le n) hv d h
      · have hs' : c.step d .read = ⟨buf', d.out ++ [a]⟩ := by simp only [step, hs]
        rw [List.append_nil] at hb
        rw [hs', ih (Nat.le_of_succ_le_succ hn) (fun x hx => hv x (List.mem_cons_of_mem a hx)) _ hb]
        simp

end FrameCode

end Ruwa.Library
