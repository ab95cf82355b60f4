/-
  File:      Ruwa/Library/Tickets.lean
  Subject:   DISPENSERS OF NUMBERED TICKETS. A dispenser has a key, and the number of its next
             ticket. Dispensers stand at places; they are moved and taken away, and new ones are put
             up.

  * `Ledger` -- the dispensers, the tickets that were given out, and the keys that were used;
  * `Ledger.Sound` -- no key stands at two places, and each dispenser is ahead of its tickets;
  * `sound_moved`, `sound_put`, `sound_placed` -- dispensers that are moved or taken away, and new
    ones;
  * **`sound_given`**, `sound_first` -- a ticket that is given out was not given out before.
-/
import Mathlib.Data.List.Nodup

namespace Ruwa.Library

variable {κ ρ : Type}

/-- What stands at each place, the tickets that were given out, and the keys in use. -/
structure Ledger (κ ρ : Type) where
  stands : ρ → Option (κ × Nat)
  given : List (κ × Nat)
  known : List κ

structure Ledger.Sound (l : Ledger κ ρ) : Prop where
  apart : ∀ {p q k i j}, l.stands p = some (k, i) → l.stands q = some (k, j) → p = q
  ahead : ∀ {p k i j}, l.stands p = some (k, i) → (k, j) ∈ l.given → j < i
  standing : ∀ {p k i}, l.stands p = some (k, i) → k ∈ l.known
  past : ∀ {k i}, (k, i) ∈ l.given → k ∈ l.known
  distinct : l.given.Nodup

variable {l : Ledger κ ρ} {stands : ρ → Option (κ × Nat)}

/-- **Dispensers are moved**, each to a place of its own, or taken away. -/
theorem sound_moved (h : l.Sound) (source : ρ → ρ)
    (hcomes : ∀ p x, stands p = some x → l.stands (source p) = some x)
    (hown : ∀ p q, (stands p).isSome → (stands q).isSome → source p = source q → p = q) :
    Ledger.Sound { l with stands := stands } where
  apart := by
    intro p q k i j hp hq
    have hsame := h.apart (hcomes p _ hp) (hcomes q _ hq)
    exact hown p q (Option.isSome_of_eq_some hp) (Option.isSome_of_eq_some hq) hsame
  ahead hp hgiven := h.ahead (hcomes _ _ hp) hgiven
  standing hp := h.standing (hcomes _ _ hp)
  past := h.past
  distinct := h.distinct

/-- **New ones are put up**, with keys that were not used before. -/
theorem sound_put (h : l.Sound) (new : ρ → Option (κ × Nat)) (keys : List κ)
    (hstands : ∀ p x, stands p = some x → l.stands p = some x ∨ new p = some x)
    (hnew : ∀ p x, new p = some x → x.1 ∈ keys ∧ x.1 ∉ l.known)
    (hown : ∀ p q x y, new p = some x → new q = some y → x.1 = y.1 → p = q) :
    Ledger.Sound { stands := stands, given := l.given, known := keys ++ l.known } where
  apart := by
    intro p q k i j hp hq
    rcases hstands p _ hp with holdp | hnewp <;> rcases hstands q _ hq with holdq | hnewq
    · exact h.apart holdp holdq
    · exact absurd (h.standing holdp) (hnew q _ hnewq).2
    · exact absurd (h.standing holdq) (hnew p _ hnewp).2
    · exact hown p q _ _ hnewp hnewq rfl
  ahead := by
    intro p k i j hp hgiven
    rcases hstands p _ hp with holdp | hnewp
    · exact h.ahead holdp hgiven
    · exact absurd (h.past hgiven) (hnew p _ hnewp).2
  standing := by
    intro p k i hp
    rcases hstands p _ hp with holdp | hnewp
    · exact List.mem_append_right _ (h.standing holdp)
    · exact List.mem_append_left _ (hnew p _ hnewp).1
  past hgiven := List.mem_append_right _ (h.past hgiven)
  distinct := h.distinct

/-- More keys in use. -/
theorem sound_learn (h : l.Sound) (keys : List κ) :
    Ledger.Sound { l with known := keys ++ l.known } :=
  sound_put h (fun _ => none) keys (fun _ _ hp => .inl hp) (fun _ _ hk => nomatch hk)
    fun _ _ _ _ hk => nomatch hk

/-- **A dispenser gives out its ticket** and moves on: nobody has that ticket yet. -/
theorem sound_given (h : l.Sound) {p : ρ} {k : κ} {i : Nat} (hp : l.stands p = some (k, i))
    (hself : stands p = some (k, i + 1)) (hothers : ∀ q, q ≠ p → stands q = l.stands q) :
    Ledger.Sound { stands := stands, given := l.given ++ [(k, i)], known := l.known } := by
  have hstands : ∀ q x, stands q = some x → (q = p ∧ x = (k, i + 1)) ∨
      (q ≠ p ∧ l.stands q = some x) := by
    intro q x hq
    by_cases hqp : q = p
    · rw [hqp, hself] at hq
      exact .inl ⟨hqp, (Option.some.inj hq).symm⟩
    · exact .inr ⟨hqp, hothers q hqp ▸ hq⟩
  refine ⟨?_, ?_, ?_, ?_, ?_⟩
  · intro q q' k' j j' hq hq'
    rcases hstands q _ hq with ⟨hqp, hk⟩ | ⟨hqp, hq⟩ <;>
      rcases hstands q' _ hq' with ⟨hqp', hk'⟩ | ⟨hqp', hq'⟩
    · exact hqp.trans hqp'.symm
    · cases hk
      exact absurd (h.apart hq' hp) hqp'
    · cases hk'
      exact absurd (h.apart hq hp) hqp
    · exact h.apart hq hq'
  · intro q k' j j' hq hgiven
    rcases List.mem_append.mp hgiven with hold | hnew
    · rcases hstands q _ hq with ⟨-, hk⟩ | ⟨-, hq⟩
      · cases hk
        exact Nat.lt_succ_of_lt (h.ahead hp hold)
      · exact h.ahead hq hold
    · cases List.mem_singleton.mp hnew
      rcases hstands q _ hq with ⟨-, hk⟩ | ⟨hqp, hq⟩
      · cases hk
        exact Nat.lt_succ_self i
      · exact absurd (h.apart hq hp) hqp
  · intro q k' j hq
    rcases hstands q _ hq with ⟨-, hk⟩ | ⟨-, hq⟩
    · cases hk
      exact h.standing hp
    · exact h.standing hq
  · intro k' j hgiven
    rcases List.mem_append.mp hgiven with hold | hnew
    · exact h.past hold
    · cases List.mem_singleton.mp hnew
      exact h.standing hp
  · refine List.nodup_append.mpr ⟨h.distinct, List.nodup_singleton _, fun a ha b hb hab => ?_⟩
    rw [hab, List.mem_singleton.mp hb] at ha
    exact absurd (h.ahead hp ha) (Nat.lt_irrefl i)

/-- **What stands at a place** stays, or is taken away, or gives way to a new one. -/
theorem sound_placed [DecidableEq ρ] (h : l.Sound) (p : ρ)
    (hplace : ∀ x, stands p = some x → l.stands p = some x ∨ x.1 ∉ l.known)
    (hothers : ∀ q, q ≠ p → stands q = l.stands q) :
    Ledger.Sound { stands := stands, given := l.given
                   known := ((stands p).map Prod.fst).toList ++ l.known } := by
  by_cases hold : ∀ x, stands p = some x → l.stands p = some x
  · refine sound_learn (l := { l with stands := stands })
      (sound_moved h id (fun q x hq => ?_) fun _ _ _ _ hpq => hpq) _
    by_cases hqp : q = p
    · exact hqp ▸ hold x (hqp ▸ hq)
    · exact hothers q hqp ▸ hq
  · simp only [not_forall] at hold
    obtain ⟨x, hx, hne⟩ := hold
    have hnew : x.1 ∉ l.known := (hplace x hx).resolve_left hne
    have honly : ∀ q y, (if q = p then some x else none) = some y → q = p ∧ y = x := by
      intro q y hy
      by_cases hqp : q = p
      · rw [if_pos hqp] at hy
        exact ⟨hqp, (Option.some.inj hy).symm⟩
      · rw [if_neg hqp] at hy
        cases hy
    refine sound_put h (fun q => if q = p then some x else none) _ (fun q y hq => ?_)
      (fun q y hy => ?_) fun q q' y y' hy hy' _ => ?_
    · by_cases hqp : q = p
      · rw [if_pos hqp, ← hx, ← hqp]
        exact .inr hq
      · exact .inl (hothers q hqp ▸ hq)
    · rw [(honly q y hy).2, hx]
      exact ⟨List.mem_singleton_self _, hnew⟩
    · exact (honly q y hy).1.trans (honly q' y' hy').1.symm

/-- **A new dispenser** that gives out its first ticket at once. -/
theorem sound_first [DecidableEq ρ] (h : l.Sound) {p : ρ} {k : κ} {i : Nat} (hk : k ∉ l.known)
    (hself : stands p = some (k, i + 1)) (hothers : ∀ q, q ≠ p → stands q = l.stands q) :
    Ledger.Sound { stands := stands, given := l.given ++ [(k, i)], known := k :: l.known } := by
  have hput : Ledger.Sound ⟨Function.update l.stands p (some (k, i)), l.given, _⟩ :=
    sound_placed h p
      (fun x hx => by
        rw [Function.update_self] at hx
        cases hx
        exact .inr hk)
      fun q hqp => Function.update_of_ne hqp _ _
  rw [Function.update_self] at hput
  refine sound_given hput (Function.update_self ..) hself fun q hqp => ?_
  rw [hothers q hqp]
  exact (Function.update_of_ne hqp _ _).symm

end Ruwa.Library
