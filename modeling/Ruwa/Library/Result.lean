/-
  File:      Ruwa/Library/Result.lean
  Subject:   RESULTS THAT MAY FAIL: taking a `do` block of `Except` apart.

  A block that returned a value ran through every one of its steps. `bind_ok` peels off the first
  step; a proof about a successful call uses it once for each `?` of the source, with no case
  split on the errors.
-/
import Mathlib.Tactic.Common

namespace Ruwa.Library.Result

variable {ε α β : Type}

/-- A block that succeeded: its first step did, and so did the rest. -/
theorem bind_ok {x : Except ε α} {f : α → Except ε β} {b : β} :
    (x >>= f) = .ok b ↔ ∃ a, x = .ok a ∧ f a = .ok b := by
  cases x with
  | error e => exact ⟨fun h => (nomatch h), fun ⟨_, h, _⟩ => (nomatch h)⟩
  | ok a => exact ⟨fun h => ⟨a, rfl, h⟩, fun ⟨_, h, h'⟩ => by cases h; exact h'⟩

/-- A step that succeeded can be replaced by its value. -/
theorem ok_bind {x : Except ε α} {a : α} (h : x = .ok a) (f : α → Except ε β) :
    (x >>= f) = f a := by
  subst h
  rfl

theorem isOk_iff {x : Except ε α} : x.isOk = true ↔ ∃ a, x = .ok a := by
  cases x <;> simp [Except.isOk, Except.toBool]

/-- The error of a block that failed. -/
def failure : Except ε α → Option ε
  | .error e => some e
  | .ok _ => none

@[simp] theorem failure_eq_some {x : Except ε α} {e : ε} : failure x = some e ↔ x = .error e := by
  cases x <;> simp [failure]

end Ruwa.Library.Result
