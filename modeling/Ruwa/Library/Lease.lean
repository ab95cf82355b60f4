/-
  File:      Ruwa/Library/Lease.lean
  Subject:   A LEASE ON ONE RESOURCE: who holds it, since when, and for how long.

  A lease is granted when nobody holds it, when the caller holds it, or when it has expired. The
  holder renews it by moving its start forward; the time to live stays what it was granted with.

  * `answer` -- one call to the arbiter; `answers` -- a run of calls;
  * `heldBy` -- what an owner may conclude from the answers it got, and nothing else;
  * `Agrees` -- the slot against the conclusions of every owner; `agrees_answer` is one call;
  * **`agrees_answers`** -- any run of calls under a clock that does not run backwards;
  * `Agrees.slot_eq`, `Agrees.same_owner` -- what an owner was told holds until it expires.
-/
import Mathlib.Order.Lattice
import Mathlib.Data.List.Basic

namespace Ruwa.Library

/-- A lease as it was granted or last renewed. -/
structure Lease (α τ : Type) where
  owner : α
  since : τ
  ttl : τ
  deriving DecidableEq

namespace Lease

variable {α τ : Type} [LinearOrder τ] [Add τ]

/-- Past its time to live: anyone may take it. -/
def Expired (l : Lease α τ) (now : τ) : Prop := l.since + l.ttl < now

instance (l : Lease α τ) (now : τ) : Decidable (l.Expired now) :=
  inferInstanceAs (Decidable (_ < _))

inductive Request (α τ : Type)
  | acquire (owner : α) (ttl : τ)
  | renew (owner : α)
  | release (owner : α)
  deriving DecidableEq

/-! ## 1. The arbiter -/

section Arbiter

variable [DecidableEq α]

/-- What a call is told, and the slot it leaves. A release is told `true`: it cannot fail. -/
def answer (slot : Option (Lease α τ)) (now : τ) : Request α τ → Bool × Option (Lease α τ)
  | .acquire owner ttl =>
      match slot with
      | none => (true, some ⟨owner, now, ttl⟩)
      | some l =>
          if l.owner = owner ∨ l.Expired now then (true, some ⟨owner, now, ttl⟩) else (false, some l)
  | .renew owner =>
      match slot with
      | none => (false, none)
      | some l => if l.owner = owner then (true, some { l with since := now }) else (false, some l)
  | .release owner =>
      match slot with
      | none => (true, none)
      | some l => if l.owner = owner then (true, none) else (true, some l)

/-- A call with the time it was made at. -/
abbrev Call (α τ : Type) := τ × Request α τ

/-- A call with what it was told. -/
abbrev Told (α τ : Type) := Call α τ × Bool

/-- The slot after a run of calls, and what each was told. -/
def answers (slot : Option (Lease α τ)) : List (Call α τ) → List (Told α τ) × Option (Lease α τ)
  | [] => ([], slot)
  | c :: cs =>
      let (told, slot) := answer slot c.1 c.2
      let (rest, slot) := answers slot cs
      ((c, told) :: rest, slot)

/-- Only an acquire puts its caller into the slot, and only if the slot was free for it. -/
theorem answer_owner {slot : Option (Lease α τ)} {now : τ} {r : Request α τ} {l : Lease α τ}
    (h : (answer slot now r).2 = some l) :
    (∃ l', slot = some l' ∧ l'.owner = l.owner) ∨
      ∃ ttl, r = .acquire l.owner ttl ∧
        ∀ l', slot = some l' → l'.owner = l.owner ∨ l'.Expired now := by
  cases slot with
  | none =>
      cases r with
      | acquire owner ttl =>
          cases h
          exact .inr ⟨ttl, rfl, fun _ hl => (nomatch hl)⟩
      | renew owner => cases h
      | release owner => cases h
  | some l' =>
      refine or_iff_not_imp_left.mpr fun hother => ?_
      have hne : l'.owner ≠ l.owner := fun he => hother ⟨l', rfl, he⟩
      cases r with
      | acquire owner ttl =>
          unfold answer at h
          dsimp only at h
          split at h
          · next hfree =>
              cases h
              refine ⟨ttl, rfl, ?_⟩
              rintro _ ⟨⟩
              exact hfree
          · cases h
            exact absurd rfl hne
      | renew owner =>
          unfold answer at h
          dsimp only at h
          split at h <;> cases h <;> exact absurd rfl hne
      | release owner =>
          unfold answer at h
          dsimp only at h
          split at h
          · cases h
          · cases h
            exact absurd rfl hne

/-! ## 2. What an owner was told -/

/-- The start and the time to live that the owner knows of, one answer further. -/
def learn (owner : α) (known : Option (τ × τ)) : Told α τ → Option (τ × τ)
  | ((now, .acquire o ttl), true) => if o = owner then some (now, ttl) else known
  | ((now, .renew o), true) => if o = owner then known.map fun k => (now, k.2) else known
  | ((_, .release o), _) => if o = owner then none else known
  | (_, false) => known

/-- **The owner's last successful acquire or renew**, if it has not released since. -/
def heldBy (owner : α) (history : List (Told α τ)) : Option (τ × τ) :=
  history.foldl (learn owner) none

/-- The owner who was told last that it holds the lease, one answer further. -/
def learnLast (last : Option α) : Told α τ → Option α
  | ((_, .acquire o _), true) => some o
  | ((_, .renew o), true) => some o
  | ((_, .release o), _) => if last = some o then none else last
  | (_, false) => last

/-- **The owner of the last successful acquire or renew of all**, if it has not released since. -/
def lastTold (history : List (Told α τ)) : Option α := history.foldl learnLast none

end Arbiter

/-- **The slot against what every owner was told.** -/
structure Agrees (slot : Option (Lease α τ)) (known : α → Option (τ × τ)) (last : Option α)
    (clock : τ) : Prop where
  held : ∀ l, slot = some l → known l.owner = some (l.since, l.ttl)
  lost : ∀ o s t, known o = some (s, t) → slot = some ⟨o, s, t⟩ ∨ s + t < clock
  last : last = slot.map Lease.owner

namespace Agrees

variable {slot : Option (Lease α τ)} {known : α → Option (τ × τ)} {last : Option α} {clock now : τ}

theorem start (clock : τ) : Agrees (none : Option (Lease α τ)) (fun _ => none) none clock where
  held _ h := nomatch h
  lost _ _ _ h := nomatch h
  last := rfl

/-- Time goes by. -/
theorem later (h : Agrees slot known last clock) (hnow : clock ≤ now) :
    Agrees slot known last now where
  held := h.held
  lost o s t hk := (h.lost o s t hk).imp id fun hlt => lt_of_lt_of_le hlt hnow
  last := h.last

/-- What an owner was told holds until it expires. -/
theorem slot_eq (h : Agrees slot known last clock) {o : α} {s t : τ} (hk : known o = some (s, t))
    (hfresh : clock ≤ s + t) : slot = some ⟨o, s, t⟩ :=
  (h.lost o s t hk).resolve_right (not_lt_of_ge hfresh)

/-- At most one owner holds the lease. -/
theorem same_owner (h : Agrees slot known last clock) {o o' : α} {s t s' t' : τ}
    (hk : known o = some (s, t)) (hk' : known o' = some (s', t')) (hfresh : clock ≤ s + t)
    (hfresh' : clock ≤ s' + t') : o = o' := by
  have heq := (h.slot_eq hk hfresh).symm.trans (h.slot_eq hk' hfresh')
  exact congrArg Lease.owner (Option.some.inj heq)

variable [DecidableEq α]

/-- The owner is granted the lease, now. -/
theorem grant (h : Agrees slot known last now) (o : α) (ttl : τ)
    (hfree : ∀ l, slot = some l → l.owner = o ∨ l.Expired now) :
    Agrees (some ⟨o, now, ttl⟩) (fun p => if o = p then some (now, ttl) else known p) (some o)
      now where
  held l hl := by
    cases hl
    rw [if_pos rfl]
  lost p s t hk := by
    by_cases hp : o = p
    · subst hp
      rw [if_pos rfl] at hk
      cases hk
      exact Or.inl rfl
    · rw [if_neg hp] at hk
      -- Whoever held the slot before has let it expire.
      rcases h.lost p s t hk with hslot | hlt
      · rcases hfree _ hslot with hown | hexp
        · exact absurd hown.symm hp
        · exact Or.inr hexp
      · exact Or.inr hlt
  last := rfl

/-- The owner gives up what it holds. -/
theorem giveUp (h : Agrees slot known last now) (o : α) (slot' : Option (Lease α τ))
    (hslot' : slot' = if slot.map Lease.owner = some o then none else slot) :
    Agrees slot' (fun p => if o = p then none else known p) (if last = some o then none else last)
      now := by
  rw [hslot', h.last]
  by_cases hown : slot.map Lease.owner = some o
  · rw [if_pos hown, if_pos hown]
    refine ⟨fun l hl => (nomatch hl), fun p s t hk => ?_, rfl⟩
    by_cases hp : o = p
    · rw [if_pos hp] at hk
      cases hk
    · rw [if_neg hp] at hk
      rcases h.lost p s t hk with hslot | hlt
      · rw [hslot] at hown
        exact absurd (Option.some.inj hown).symm hp
      · exact Or.inr hlt
  · rw [if_neg hown, if_neg hown]
    refine ⟨fun l hl => ?_, fun p s t hk => ?_, rfl⟩
    · have hne : o ≠ l.owner := fun he => hown (by rw [hl, he]; rfl)
      rw [if_neg hne]
      exact h.held l hl
    · by_cases hp : o = p
      · rw [if_pos hp] at hk
        cases hk
      · rw [if_neg hp] at hk
        exact h.lost p s t hk

/-- **One call**: what is learnt from its answer goes on to agree with the slot. -/
theorem answer (h : Agrees slot known last clock) (hnow : clock ≤ now) (r : Request α τ) :
    Agrees (Lease.answer slot now r).2
      (fun o => learn o (known o) ((now, r), (Lease.answer slot now r).1))
      (learnLast last ((now, r), (Lease.answer slot now r).1)) now := by
  have h := h.later hnow
  cases r with
  | acquire owner ttl =>
      cases hslot : slot with
      | none => exact h.grant owner ttl fun l hl => by rw [hslot] at hl; cases hl
      | some l =>
          by_cases hfree : l.owner = owner ∨ l.Expired now
          · have hanswer : Lease.answer (some l) now (.acquire owner ttl) =
                (true, some ⟨owner, now, ttl⟩) := if_pos hfree
            rw [hanswer]
            exact h.grant owner ttl fun l' hl' => by rw [hslot] at hl'; cases hl'; exact hfree
          · have hanswer : Lease.answer (some l) now (.acquire owner ttl) = (false, some l) :=
              if_neg hfree
            rw [hanswer, ← hslot]
            exact h
  | renew owner =>
      cases hslot : slot with
      | none =>
          rw [hslot] at h
          exact h
      | some l =>
          by_cases hown : l.owner = owner
          · have hanswer : Lease.answer (some l) now (.renew owner) =
                (true, some { l with since := now }) := if_pos hown
            have hk := h.held l hslot
            have hgrant := h.grant owner l.ttl fun l' hl' => by
              rw [hslot] at hl'
              cases hl'
              exact Or.inl hown
            rw [hown] at hk
            have hlearn : (fun o => learn o (known o) ((now, .renew owner), true)) =
                fun p => if owner = p then some (now, l.ttl) else known p := by
              funext p
              show (if owner = p then (known p).map _ else known p) = _
              by_cases hp : owner = p
              · rw [if_pos hp, if_pos hp, ← hp, hk]
                rfl
              · rw [if_neg hp, if_neg hp]
            rw [hanswer, hlearn, show ({ l with since := now } : Lease α τ) = ⟨owner, now, l.ttl⟩
              from hown ▸ rfl]
            exact hgrant
          · have hanswer : Lease.answer (some l) now (.renew owner) = (false, some l) := if_neg hown
            rw [hanswer, ← hslot]
            exact h
  | release owner =>
      have hanswer : Lease.answer slot now (.release owner) =
          (true, if slot.map Lease.owner = some owner then none else slot) := by
        cases slot with
        | none => rfl
        | some l =>
            show (if l.owner = owner then _ else _) = _
            simp only [Option.map_some, Option.some.injEq]
            split <;> rfl
      rw [hanswer]
      exact h.giveUp owner _ rfl

/-- **Any run of calls**, in the order of the clock, up to any later time. -/
theorem answers (h : Agrees slot known last clock) {cs : List (Call α τ)}
    (htimes : (clock :: (cs.map Prod.fst ++ [now])).Pairwise (· ≤ ·)) :
    Agrees (Lease.answers slot cs).2
      (fun o => (Lease.answers slot cs).1.foldl (learn o) (known o))
      ((Lease.answers slot cs).1.foldl learnLast last) now := by
  induction cs generalizing slot known last clock with
  | nil =>
      have hle := (List.pairwise_cons.mp htimes).1 now (List.mem_singleton_self now)
      exact h.later hle
  | cons c cs ih =>
      obtain ⟨hclock, hrest⟩ := List.pairwise_cons.mp htimes
      exact ih (h.answer (hclock c.1 List.mem_cons_self) c.2) hrest

/-- The same from the start, when nobody holds the lease. -/
theorem answers_start {cs : List (Call α τ)} (htimes : (cs.map Prod.fst ++ [now]).Pairwise (· ≤ ·)) :
    Agrees (Lease.answers none cs).2 (fun o => heldBy o (Lease.answers none cs).1)
      (lastTold (Lease.answers none cs).1) now := by
  cases cs with
  | nil => exact start now
  | cons c cs =>
      have hfirst := (start c.1).answer le_rfl c.2
      exact hfirst.answers htimes

end Agrees

end Lease

end Ruwa.Library
