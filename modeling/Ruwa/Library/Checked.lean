/-
  File:      Ruwa/Library/Checked.lean
  Subject:   CODE THAT MAY PANIC: index arithmetic, slices and reservations on a machine.

  A computation returns a value, an error of its own, or it stops in a panic. Three kinds of
  operation can panic, and how soon they do depends on the machine: how large an index gets, and
  how many values of a type fit into one allocation.

  * `Memory` -- these two bounds; `Memory.unbounded` has none, `Memory.words64` are those of a
    machine with 64-bit words;
  * `add`, `slice`, `withCapacity` -- the operations, with the lemma for when each of them goes
    through;
  * `Panics` -- the computation ends in a panic;
  * `Agrees` -- a machine does what another does, unless it panics.
-/
import Mathlib.Algebra.Group.Nat.Defs
import Mathlib.Tactic.Common

namespace Ruwa.Library.Checked

/-! ## 1. The machine -/

/-- `isize::MAX` of 64-bit words. -/
def isizeMax : Nat := 2 ^ 63 - 1

/-- What a machine can count and hold. -/
structure Memory where
  /-- A `usize` can be the number. -/
  usize : Nat → Bool
  /-- One allocation can hold so many values. -/
  vec : Nat → Bool
  usize_mono : ∀ {m n : Nat}, m ≤ n → usize n = true → usize m = true

namespace Memory

theorem any_mono {m n : Nat} (_ : m ≤ n) (h : true = true) : true = true := h

def unbounded : Memory := ⟨fun _ => true, fun _ => true, any_mono⟩

theorem word_mono {m n : Nat} (h : m ≤ n) (h' : decide (n < 2 ^ 64) = true) :
    decide (m < 2 ^ 64) = true :=
  decide_eq_true (Nat.lt_of_le_of_lt h (of_decide_eq_true h'))

/-- 64-bit words, for values of `size` bytes. -/
def words64 (size : Nat) : Memory where
  usize n := decide (n < 2 ^ 64)
  vec n := decide (n * size ≤ isizeMax)
  usize_mono := word_mono

end Memory

inductive Panic
  | outOfBounds
  | overflow
  | capacity
  deriving Repr, DecidableEq

/-- Why a computation returned no value. -/
inductive Stop (ε : Type)
  | panic (p : Panic)
  | err (e : ε)
  deriving Repr, DecidableEq

/-! ## 2. The operations -/

section

variable {ε α β : Type} {m : Memory}

/-- `a + b`. -/
def add (m : Memory) (a b : Nat) : Except (Stop ε) Nat :=
  if m.usize (a + b) then .ok (a + b) else .error (.panic .overflow)

/-- `xs[lo..hi]`. -/
def slice (xs : List α) (lo hi : Nat) : Except (Stop ε) (List α) :=
  if lo ≤ hi ∧ hi ≤ xs.length then .ok ((xs.take hi).drop lo) else .error (.panic .outOfBounds)

/-- `xs[i]`. -/
def index (xs : List α) (i : Nat) : Except (Stop ε) α :=
  match xs[i]? with
  | some x => .ok x
  | none => .error (.panic .outOfBounds)

/-- `Vec::with_capacity(n)`. -/
def withCapacity (m : Memory) (n : Nat) : Except (Stop ε) Unit :=
  if m.vec n then .ok () else .error (.panic .capacity)

/-- It ends in a panic. -/
def Panics (x : Except (Stop ε) α) : Prop := ∃ p, x = .error (.panic p)

theorem add_ok {a b : Nat} (h : m.usize (a + b) = true) :
    (add m a b : Except (Stop ε) Nat) = .ok (a + b) := if_pos h

theorem slice_ok {xs : List α} {lo hi : Nat} (h : lo ≤ hi) (h' : hi ≤ xs.length) :
    (slice xs lo hi : Except (Stop ε) (List α)) = .ok ((xs.take hi).drop lo) := if_pos ⟨h, h'⟩

theorem index_append (pre : List α) (x : α) (suf : List α) :
    (index (pre ++ x :: suf) pre.length : Except (Stop ε) α) = .ok x := by
  unfold index
  rw [List.getElem?_append_right (Nat.le_refl _), Nat.sub_self]
  rfl

theorem withCapacity_ok {n : Nat} (h : m.vec n = true) :
    (withCapacity m n : Except (Stop ε) Unit) = .ok () := if_pos h

theorem not_panics_ok (a : α) : ¬Panics (.ok a : Except (Stop ε) α) := by
  rintro ⟨p, h⟩
  cases h

theorem not_panics_err (e : ε) : ¬Panics (.error (.err e) : Except (Stop ε) α) := by
  rintro ⟨p, h⟩
  cases h

/-- Two steps: one of them panics. -/
theorem panics_bind {x : Except (Stop ε) α} {f : α → Except (Stop ε) β} :
    Panics (x >>= f) ↔ Panics x ∨ ∃ a, x = .ok a ∧ Panics (f a) := by
  cases x with
  | error stop =>
      constructor
      · rintro ⟨p, h⟩
        exact .inl ⟨p, congrArg Except.error (Except.error.inj h)⟩
      · rintro (⟨p, h⟩ | ⟨a, h, -⟩)
        · exact ⟨p, congrArg Except.error (Except.error.inj h)⟩
        · cases h
  | ok a =>
      constructor
      · exact fun h => .inr ⟨a, rfl, h⟩
      · rintro (h | ⟨a', h, hpanics⟩)
        · exact absurd h (not_panics_ok a)
        · cases h
          exact hpanics

/-! ## 3. Two machines -/

/-- The first computation panics, or the two give the same. -/
def Agrees (x y : Except (Stop ε) α) : Prop := Panics x ∨ x = y

theorem Agrees.refl (x : Except (Stop ε) α) : Agrees x x := .inr rfl

theorem Agrees.bind {x y : Except (Stop ε) α} {f g : α → Except (Stop ε) β} (h : Agrees x y)
    (hfg : ∀ a, Agrees (f a) (g a)) : Agrees (x >>= f) (y >>= g) := by
  rcases h with h | rfl
  · exact .inl (panics_bind.mpr (.inl h))
  · cases x with
    | error stop => exact .inr rfl
    | ok a => exact hfg a

/-- Without bounds an operation goes through that another machine may refuse. -/
theorem agrees_add (m : Memory) (a b : Nat) :
    Agrees (add m a b : Except (Stop ε) Nat) (add .unbounded a b) := by
  unfold add
  split
  · exact .refl _
  · exact .inl ⟨.overflow, rfl⟩

theorem agrees_withCapacity (m : Memory) (n : Nat) :
    Agrees (withCapacity m n : Except (Stop ε) Unit) (withCapacity .unbounded n) := by
  unfold withCapacity
  split
  · exact .refl _
  · exact .inl ⟨.capacity, rfl⟩

end

end Ruwa.Library.Checked
