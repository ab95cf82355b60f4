/-
  File:      Ruwa/Library/Run.lean
  Subject:   RUNS OF A SYSTEM THAT TAKES ONE EVENT AT A TIME, and what they keep.

  A system is a step: the state after an event, or nothing when the event cannot happen there. What
  a run is promised by its environment is a condition on each of its steps.

  * `runFrom`, `Meets` -- a run, and a run whose every step meets a condition;
  * **`run_invariant`** -- what each such step keeps, each such run keeps;
  * `run_history` -- the same for an invariant that speaks of the events so far;
  * `run_iff`, `run_states_iff` -- a run has no fault exactly when its steps meet the condition;
    `meets_of_states` is one direction of it.
-/
import Mathlib.Data.List.Basic

namespace Ruwa.Library

variable {σ ε : Type} (step : σ → ε → Option σ)

/-- The state after a run; nothing if one of its events cannot happen. -/
def runFrom (s : σ) : List ε → Option σ
  | [] => some s
  | e :: es =>
      match step s e with
      | none => none
      | some s' => runFrom s' es

/-- Every step of the run meets the condition, in the state it is taken in. -/
def Meets (C : σ → ε → Prop) (s : σ) : List ε → Prop
  | [] => True
  | e :: es =>
      C s e ∧
        match step s e with
        | none => True
        | some s' => Meets C s' es

instance decidableMeets (C : σ → ε → Prop) [∀ s e, Decidable (C s e)] (s : σ) :
    (es : List ε) → Decidable (Meets step C s es)
  | [] => inferInstanceAs (Decidable True)
  | e :: es => by
      unfold Meets
      refine @instDecidableAnd _ _ _ ?_
      split
      · infer_instance
      · rename_i s' _
        exact decidableMeets C s' es

variable {step} {C : σ → ε → Prop} {s s' : σ}

theorem runFrom_cons {e : ε} {es : List ε} (h : runFrom step s (e :: es) = some s') :
    ∃ mid, step s e = some mid ∧ runFrom step mid es = some s' := by
  unfold runFrom at h
  cases hstep : step s e with
  | none =>
      rw [hstep] at h
      cases h
  | some mid =>
      rw [hstep] at h
      exact ⟨mid, rfl, h⟩

theorem meets_cons {e : ε} {es : List ε} (h : Meets step C s (e :: es)) {mid : σ}
    (hstep : step s e = some mid) : C s e ∧ Meets step C mid es := by
  obtain ⟨hcond, hrest⟩ := h
  rw [hstep] at hrest
  exact ⟨hcond, hrest⟩

/-- A condition that nothing violates is met by every run. -/
theorem meets_of_forall (h : ∀ s e, C s e) (es : List ε) : Meets step C s es := by
  induction es generalizing s with
  | nil => exact trivial
  | cons e es ih =>
      refine ⟨h s e, ?_⟩
      split
      · trivial
      · exact ih

/-- A condition on the events alone can be added to that on the steps. -/
theorem meets_and {P : ε → Prop} {es : List ε} (h : Meets step C s es) (hP : ∀ e ∈ es, P e) :
    Meets step (fun s e => C s e ∧ P e) s es := by
  induction es generalizing s with
  | nil => exact trivial
  | cons e es ih =>
      obtain ⟨hcond, hrest⟩ := h
      refine ⟨⟨hcond, hP e List.mem_cons_self⟩, ?_⟩
      split at hrest
      · trivial
      · exact ih hrest fun e' he' => hP e' (List.mem_cons_of_mem e he')

theorem runFrom_append {es es' : List ε} :
    runFrom step s (es ++ es') = (runFrom step s es).bind fun mid => runFrom step mid es' := by
  induction es generalizing s with
  | nil => rfl
  | cons e es ih =>
      simp only [List.cons_append, runFrom]
      cases step s e with
      | none => rfl
      | some mid => exact ih

/-- A run whose steps meet the condition does so in both its parts. -/
theorem meets_append {es es' : List ε} (h : Meets step C s (es ++ es')) {mid : σ}
    (hrun : runFrom step s es = some mid) : Meets step C s es ∧ Meets step C mid es' := by
  induction es generalizing s with
  | nil =>
      cases hrun
      exact ⟨trivial, h⟩
  | cons e es ih =>
      obtain ⟨next, hstep, hrest⟩ := runFrom_cons hrun
      obtain ⟨hcond, hmeets⟩ := meets_cons h hstep
      obtain ⟨hfirst, hlast⟩ := ih hmeets hrest
      refine ⟨⟨hcond, ?_⟩, hlast⟩
      rw [hstep]
      exact hfirst

/-- **What every step of a run keeps, the run keeps.** -/
theorem run_invariant {I : σ → Prop}
    (hkeep : ∀ s e s', I s → C s e → step s e = some s' → I s') {es : List ε} (hI : I s)
    (hmeets : Meets step C s es) (hrun : runFrom step s es = some s') : I s' := by
  induction es generalizing s with
  | nil =>
      cases hrun
      exact hI
  | cons e es ih =>
      obtain ⟨mid, hstep, hrest⟩ := runFrom_cons hrun
      obtain ⟨hcond, hmeets'⟩ := meets_cons hmeets hstep
      exact ih (hkeep s e mid hI hcond hstep) hmeets' hrest

/-- **A run is free of faults exactly when every step of it meets the condition**, if a step adds a
    fault exactly when it does not. -/
theorem run_iff {I F : σ → Prop} {P : ε → Prop}
    (hkeep : ∀ s e s', I s → P e → step s e = some s' → I s' ∧ (F s' ↔ F s ∧ C s e))
    {es : List ε} (hI : I s) (hP : ∀ e ∈ es, P e) (hrun : runFrom step s es = some s') :
    F s' ↔ F s ∧ Meets step C s es := by
  induction es generalizing s with
  | nil =>
      cases hrun
      exact ⟨fun h => ⟨h, trivial⟩, fun h => h.1⟩
  | cons e es ih =>
      obtain ⟨mid, hstep, hrest⟩ := runFrom_cons hrun
      obtain ⟨hI', hiff⟩ := hkeep s e mid hI (hP e List.mem_cons_self) hstep
      have hmeets : Meets step C s (e :: es) ↔ C s e ∧ Meets step C mid es := by
        refine ⟨fun h => meets_cons h hstep, fun h => ⟨h.1, ?_⟩⟩
        rw [hstep]
        exact h.2
      rw [ih hI' (fun e' he' => hP e' (List.mem_cons_of_mem e he')) hrest, hiff, hmeets, and_assoc]

/-- **Every state of a run is without faults exactly when its steps meet the condition**, if a step
    from such a state leads to one exactly when it does. -/
theorem run_states_iff {I F : σ → Prop} (hI : ∀ s e s', I s → step s e = some s' → I s')
    (hF : ∀ s e s', I s → F s → step s e = some s' → (F s' ↔ C s e)) {es : List ε} (h : I s)
    (hstart : F s) (hrun : runFrom step s es = some s') :
    (∀ pre post mid, es = pre ++ post → runFrom step s pre = some mid → F mid) ↔
      Meets step C s es := by
  induction es generalizing s with
  | nil =>
      refine ⟨fun _ => trivial, fun _ pre post mid hsplit hpre => ?_⟩
      obtain ⟨rfl, -⟩ := List.append_eq_nil_iff.mp hsplit.symm
      cases hpre
      exact hstart
  | cons e es ih =>
      obtain ⟨next, hstep, hrest⟩ := runFrom_cons hrun
      have hiff := hF s e next h hstart hstep
      constructor
      · intro hall
        have hnext : F next := hall [e] es next rfl (by rw [runFrom, hstep]; rfl)
        refine ⟨hiff.mp hnext, ?_⟩
        rw [hstep]
        refine (ih (hI s e next h hstep) hnext hrest).mp fun pre post mid hsplit hpre => ?_
        refine hall (e :: pre) post mid (congrArg (e :: ·) hsplit) ?_
        rw [runFrom, hstep]
        exact hpre
      · intro hmeets pre post mid hsplit hpre
        obtain ⟨hcond, hmeets'⟩ := meets_cons hmeets hstep
        cases pre with
        | nil =>
            cases hpre
            exact hstart
        | cons a pre =>
            obtain ⟨rfl, htail⟩ := List.cons.inj hsplit
            rw [runFrom, hstep] at hpre
            exact (ih (hI s e next h hstep) (hiff.mpr hcond) hrest).mpr hmeets' pre post mid htail
              hpre

/-- In a run whose states are all without faults every step meets the condition, if it is one of
    every step to such a state. -/
theorem meets_of_states {F : σ → Prop} (hF : ∀ s e s', step s e = some s' → F s' → C s e)
    {es : List ε} (hrun : runFrom step s es = some s')
    (hall : ∀ pre post mid, es = pre ++ post → runFrom step s pre = some mid → F mid) :
    Meets step C s es := by
  induction es generalizing s with
  | nil => exact trivial
  | cons e es ih =>
      obtain ⟨next, hstep, hrest⟩ := runFrom_cons hrun
      have hnext : F next := hall [e] es next rfl (by rw [runFrom, hstep]; rfl)
      refine ⟨hF s e next hstep hnext, ?_⟩
      rw [hstep]
      refine ih hrest fun pre post mid hsplit hpre => ?_
      refine hall (e :: pre) post mid (congrArg (e :: ·) hsplit) ?_
      rw [runFrom, hstep]
      exact hpre

/-- The same for an invariant of the events so far and the state. -/
theorem run_history {I : List ε → σ → Prop}
    (hkeep : ∀ past s e s', I past s → C s e → step s e = some s' → I (past ++ [e]) s')
    {past es : List ε} (hI : I past s) (hmeets : Meets step C s es)
    (hrun : runFrom step s es = some s') : I (past ++ es) s' := by
  induction es generalizing s past with
  | nil =>
      cases hrun
      rwa [List.append_nil]
  | cons e es ih =>
      obtain ⟨mid, hstep, hrest⟩ := runFrom_cons hrun
      obtain ⟨hcond, hmeets'⟩ := meets_cons hmeets hstep
      have hnext := ih (hkeep past s e mid hI hcond hstep) hmeets' hrest
      rwa [List.append_assoc] at hnext

end Ruwa.Library
