/-
  File:      Ruwa/Library/Turns.lean
  Subject:   TAKING TURNS: asks that are served one after the other, each from the pile it names,
             and a run that stops at its first failure.

  * `dispense` -- who gets what; **`dispense_at`** -- a pile is handed out in the order in which it
    is asked for, as far as it goes;
  * `runTurns` -- a run that notes what each turn leaves behind;
  * `runTurns_ok`, `runTurns_error`, `runTurns_notes` -- what comes of it, and when it leaves
    nothing behind.
-/
import Mathlib.Data.List.Basic
import Mathlib.Data.List.Forall2

namespace Ruwa.Library

/-! ## 1. Piles -/

section Dispense

variable {α κ ρ : Type} [DecidableEq κ]

/-- Each ask takes the next of the pile it names; one for an empty pile gets nothing. -/
def dispense : List (α × κ) → (κ → List ρ) → List (α × κ × ρ)
  | [], _ => []
  | (a, k) :: asks, piles =>
      match piles k with
      | [] => dispense asks piles
      | r :: rest => (a, k, r) :: dispense asks (Function.update piles k rest)

variable {a : α} {k : κ} {r : ρ} {rest : List ρ} {asks : List (α × κ)} {piles : κ → List ρ}

theorem dispense_empty (h : piles k = []) :
    dispense ((a, k) :: asks) piles = dispense asks piles := by
  rw [dispense, h]

theorem dispense_served (h : piles k = r :: rest) :
    dispense ((a, k) :: asks) piles =
      (a, k, r) :: dispense asks (Function.update piles k rest) := by
  rw [dispense, h]

/-- **One pile** goes to its asks, in their order. -/
theorem dispense_at (asks : List (α × κ)) (piles : κ → List ρ) (k : κ) :
    (dispense asks piles).filter (fun x => x.2.1 = k) =
      ((asks.filter fun ask => ask.2 = k).zip (piles k)).map fun p => (p.1.1, k, p.2) := by
  induction asks generalizing piles with
  | nil => rfl
  | cons ask asks ih =>
      obtain ⟨a, k'⟩ := ask
      by_cases hk : k' = k
      · subst hk
        rw [List.filter_cons_of_pos (by simp)]
        cases hpile : piles k' with
        | nil =>
            rw [dispense_empty hpile, ih, hpile, List.zip_nil_right, List.zip_nil_right]
        | cons r rest =>
            rw [dispense_served hpile, List.filter_cons_of_pos (by simp), ih,
              Function.update_self]
            rfl
      · rw [List.filter_cons_of_neg (by simpa using hk)]
        cases hpile : piles k' with
        | nil => rw [dispense_empty hpile, ih]
        | cons r rest =>
            rw [dispense_served hpile, List.filter_cons_of_neg (by simpa using hk), ih,
              Function.update_of_ne (Ne.symm hk)]

theorem length_dispense_at (asks : List (α × κ)) (piles : κ → List ρ) (k : κ) :
    ((dispense asks piles).filter fun x => x.2.1 = k).length =
      min (asks.filter fun ask => ask.2 = k).length (piles k).length := by
  rw [dispense_at, List.length_map, List.length_zip]

/-- What is handed out was asked for, and comes from the pile. -/
theorem mem_dispense {x : α × κ × ρ} (hx : x ∈ dispense asks piles) :
    (x.1, x.2.1) ∈ asks ∧ x.2.2 ∈ piles x.2.1 := by
  obtain ⟨a, k, r⟩ := x
  have hat : (a, k, r) ∈ (dispense asks piles).filter fun x => x.2.1 = k :=
    List.mem_filter.mpr ⟨hx, by simp⟩
  rw [dispense_at] at hat
  obtain ⟨⟨⟨a', k'⟩, r'⟩, hp, heq⟩ := List.mem_map.mp hat
  obtain ⟨hfiltered, hpile⟩ := List.of_mem_zip hp
  obtain ⟨hask, hkey⟩ := List.mem_filter.mp hfiltered
  have hk : k' = k := of_decide_eq_true hkey
  cases hk
  cases heq
  exact ⟨hask, hpile⟩

/-- Somebody gets the first of a pile that is asked for. -/
theorem exists_dispensed (hask : (a, k) ∈ asks) (hpile : piles k ≠ []) :
    ∃ x ∈ dispense asks piles, x.2.1 = k := by
  have hasks : 0 < (asks.filter fun ask => ask.2 = k).length :=
    List.length_pos_of_mem (List.mem_filter.mpr ⟨hask, by simp⟩)
  have hlength := length_dispense_at asks piles k
  have hrest : 0 < (piles k).length := List.length_pos_of_ne_nil hpile
  have hsome : 0 < ((dispense asks piles).filter fun x => x.2.1 = k).length := by omega
  obtain ⟨x, hx⟩ := List.exists_mem_of_length_pos hsome
  obtain ⟨hx, hk⟩ := List.mem_filter.mp hx
  exact ⟨x, hx, of_decide_eq_true hk⟩

/-- Only the piles that are asked for matter. -/
theorem dispense_congr {piles' : κ → List ρ} (h : ∀ ask ∈ asks, piles ask.2 = piles' ask.2) :
    dispense asks piles = dispense asks piles' := by
  induction asks generalizing piles piles' with
  | nil => rfl
  | cons ask asks ih =>
      obtain ⟨a, k⟩ := ask
      have hk : piles k = piles' k := h (a, k) List.mem_cons_self
      have hrest : ∀ ask ∈ asks, piles ask.2 = piles' ask.2 :=
        fun ask hask => h ask (List.mem_cons_of_mem _ hask)
      cases hpile : piles k with
      | nil => rw [dispense_empty hpile, dispense_empty (hk ▸ hpile), ih hrest]
      | cons r rest =>
          rw [dispense_served hpile, dispense_served (hk ▸ hpile)]
          refine congrArg _ (ih fun ask hask => ?_)
          by_cases heq : ask.2 = k
          · rw [heq, Function.update_self, Function.update_self]
          · rw [Function.update_of_ne heq, Function.update_of_ne heq, hrest ask hask]

end Dispense

/-! ## 2. A run -/

section Run

variable {τ β ν ε : Type}

/-- One turn after the other, up to the first that fails, with a note of each that did not. -/
def runTurns (turn : τ → Except ε (β × ν)) : List τ → Except ε (List β) × List ν
  | [] => (.ok [], [])
  | t :: ts =>
      match turn t with
      | .error e => (.error e, [])
      | .ok (b, note) =>
          let (rest, notes) := runTurns turn ts
          (rest.map (b :: ·), note :: notes)

variable {turn : τ → Except ε (β × ν)} {t : τ} {ts : List τ} {b : β} {note : ν}

theorem runTurns_fails {e : ε} (h : turn t = .error e) :
    runTurns turn (t :: ts) = (.error e, []) := by
  rw [runTurns, h]

theorem runTurns_goes (h : turn t = .ok (b, note)) :
    runTurns turn (t :: ts) =
      ((runTurns turn ts).1.map (b :: ·), note :: (runTurns turn ts).2) := by
  rw [runTurns, h]

/-- A run that comes to its end made something of every turn. -/
theorem runTurns_ok {out : List β} (h : (runTurns turn ts).1 = .ok out) :
    List.Forall₂ (fun t b => ∃ note, turn t = .ok (b, note)) ts out := by
  induction ts generalizing out with
  | nil =>
      cases h
      exact .nil
  | cons t ts ih =>
      cases hturn : turn t with
      | error e =>
          rw [runTurns_fails hturn] at h
          cases h
      | ok p =>
          obtain ⟨b, note⟩ := p
          rw [runTurns_goes hturn] at h
          cases hrest : (runTurns turn ts).1 with
          | error e =>
              rw [hrest] at h
              cases h
          | ok rest =>
              rw [hrest] at h
              cases h
              exact .cons ⟨note, hturn⟩ (ih hrest)

theorem runTurns_all {out : List β} (h : (runTurns turn ts).1 = .ok out) (ht : t ∈ ts) :
    ∃ p, turn t = .ok p := by
  have hturns := runTurns_ok h
  clear h
  induction hturns with
  | nil => cases ht
  | cons hhead _ ih =>
      rcases List.mem_cons.mp ht with rfl | ht
      · obtain ⟨note, hhead⟩ := hhead
        exact ⟨_, hhead⟩
      · exact ih ht

/-- One that does not stopped at a turn that failed. -/
theorem runTurns_error {e : ε} (h : (runTurns turn ts).1 = .error e) :
    ∃ t ∈ ts, turn t = .error e := by
  induction ts with
  | nil => cases h
  | cons t ts ih =>
      cases hturn : turn t with
      | error e' =>
          rw [runTurns_fails hturn] at h
          cases h
          exact ⟨t, List.mem_cons_self, hturn⟩
      | ok p =>
          rw [runTurns_goes hturn] at h
          cases hrest : (runTurns turn ts).1 with
          | error e' =>
              rw [hrest] at h
              cases h
              obtain ⟨t', ht', hfails⟩ := ih hrest
              exact ⟨t', List.mem_cons_of_mem _ ht', hfails⟩
          | ok rest =>
              rw [hrest] at h
              cases h

/-- **Nothing is left behind** exactly when already the first turn fails, if there is one. -/
theorem runTurns_notes :
    (runTurns turn ts).2 = [] ↔ ∀ t, ts.head? = some t → ∃ e, turn t = .error e := by
  cases ts with
  | nil => exact ⟨fun _ _ ht => (nomatch ht), fun _ => rfl⟩
  | cons t ts =>
      cases hturn : turn t with
      | error e =>
          rw [runTurns_fails hturn]
          refine ⟨fun _ t' ht' => ?_, fun _ => rfl⟩
          cases ht'
          exact ⟨e, hturn⟩
      | ok p =>
          rw [runTurns_goes hturn]
          refine ⟨fun h => (nomatch h), fun h => ?_⟩
          obtain ⟨e, hfails⟩ := h t rfl
          cases hturn.symm.trans hfails

end Run

end Ruwa.Library
