/-
  File:      Ruwa/Session/Lease.lean
  Subject:   SESSION LEASES in the store (`store.rs`): which instance may hold a session's socket.

  A lease is a row of `session_leases`. The statements are those of the SQLite store; the Postgres
  store runs the same ones.

  * `leaseAcquire`, `leaseRenew`, `leaseRelease`, `leaseHolder` -- the source;
  * `leaseCall_refines` -- one call is a call to the arbiter of `Library/Lease.lean`, for the
    session it names, and nothing for the others;
  * **`lease_mutual_exclusion`** -- what an owner was told about a session, in any run of calls.
-/
import Ruwa.Library.Lease
import Mathlib.Data.List.Pairwise

namespace Ruwa.Session

open Ruwa.Library

/-! ## 1. The source -/

structure LeaseRow where
  ownerId : String
  heartbeatTs : Int
  ttl : Int
  deriving DecidableEq

/-- The table `session_leases`, by its primary key. -/
abbrev SessionLeases := String → Option LeaseRow

/-- One conditional upsert, and the owner that is read back. -/
def leaseAcquire (db : SessionLeases) (sessionId owner : String) (ttl now : Int) :
    Bool × SessionLeases :=
  let db := match db sessionId with
    | none => Function.update db sessionId (some ⟨owner, now, ttl⟩)
    | some row =>
        if row.ownerId = owner ∨ row.heartbeatTs + row.ttl < now then
          Function.update db sessionId (some ⟨owner, now, ttl⟩)
        else db
  let held := (db sessionId).map LeaseRow.ownerId
  (held == some owner, db)

/-- `UPDATE ... WHERE session_id = ? AND owner_id = ?`: whether a row changed. -/
def leaseRenew (db : SessionLeases) (sessionId owner : String) (now : Int) : Bool × SessionLeases :=
  match db sessionId with
  | none => (false, db)
  | some row =>
      if row.ownerId = owner then
        (true, Function.update db sessionId (some { row with heartbeatTs := now }))
      else (false, db)

def leaseRelease (db : SessionLeases) (sessionId owner : String) : SessionLeases :=
  match db sessionId with
  | none => db
  | some row => if row.ownerId = owner then Function.update db sessionId none else db

/-- The owner, and whether its lease is stale. -/
def leaseHolder (db : SessionLeases) (sessionId : String) (now : Int) : Option (String × Bool) :=
  (db sessionId).map fun row => (row.ownerId, decide (row.heartbeatTs + row.ttl < now))

/-! ## 2. Runs of calls -/

/-- A call for one session, at a time. -/
structure LeaseCall where
  sessionId : String
  now : Int
  request : Lease.Request String Int

/-- What the caller is told, and the table afterwards. A release tells nothing. -/
def leaseCall (db : SessionLeases) (c : LeaseCall) : Bool × SessionLeases :=
  match c.request with
  | .acquire owner ttl => leaseAcquire db c.sessionId owner ttl c.now
  | .renew owner => leaseRenew db c.sessionId owner c.now
  | .release owner => (true, leaseRelease db c.sessionId owner)

def leaseCalls (db : SessionLeases) : List LeaseCall → List (LeaseCall × Bool) × SessionLeases
  | [] => ([], db)
  | c :: cs =>
      let (told, db) := leaseCall db c
      let (rest, db) := leaseCalls db cs
      ((c, told) :: rest, db)

/-- What was told about one session. -/
def toldAbout (sessionId : String) (calls : List (LeaseCall × Bool)) :
    List (Lease.Told String Int) :=
  (calls.filter fun c => c.1.sessionId = sessionId).map fun c => ((c.1.now, c.1.request), c.2)

/-! ## 3. The arbiter of one session -/

def LeaseRow.lease (row : LeaseRow) : Lease String Int := ⟨row.ownerId, row.heartbeatTs, row.ttl⟩

/-- The slot of one session. -/
def slot (db : SessionLeases) (sessionId : String) : Option (Lease String Int) :=
  (db sessionId).map LeaseRow.lease

theorem leaseAcquire_refines (db : SessionLeases) (sessionId owner : String) (ttl now : Int) :
    ((leaseAcquire db sessionId owner ttl now).1, slot (leaseAcquire db sessionId owner ttl now).2
      sessionId) = Lease.answer (slot db sessionId) now (.acquire owner ttl) := by
  unfold leaseAcquire slot
  cases hrow : db sessionId with
  | none => simp [Lease.answer, LeaseRow.lease]
  | some row =>
      by_cases hfree : row.ownerId = owner ∨ row.heartbeatTs + row.ttl < now
      · have hanswer : Lease.answer (some row.lease) now (.acquire owner ttl) =
            (true, some ⟨owner, now, ttl⟩) := if_pos hfree
        rw [Option.map_some, hanswer]
        simp [hfree, LeaseRow.lease]
      · have hanswer : Lease.answer (some row.lease) now (.acquire owner ttl) =
            (false, some row.lease) := if_neg hfree
        rw [Option.map_some, hanswer]
        dsimp only
        rw [if_neg hfree, hrow]
        simpa using (not_or.mp hfree).1

theorem leaseRenew_refines (db : SessionLeases) (sessionId owner : String) (now : Int) :
    ((leaseRenew db sessionId owner now).1, slot (leaseRenew db sessionId owner now).2 sessionId) =
      Lease.answer (slot db sessionId) now (.renew owner) := by
  unfold leaseRenew slot
  cases hrow : db sessionId with
  | none => simp [Lease.answer, hrow]
  | some row =>
      by_cases hown : row.ownerId = owner
      · simp [Lease.answer, LeaseRow.lease, hown]
      · simp [Lease.answer, LeaseRow.lease, hown, hrow]

theorem leaseRelease_refines (db : SessionLeases) (sessionId owner : String) (now : Int) :
    (true, slot (leaseRelease db sessionId owner) sessionId) =
      Lease.answer (slot db sessionId) now (.release owner) := by
  unfold leaseRelease slot
  cases hrow : db sessionId with
  | none => simp [Lease.answer, hrow]
  | some row =>
      by_cases hown : row.ownerId = owner
      · simp [Lease.answer, LeaseRow.lease, hown]
      · simp [Lease.answer, LeaseRow.lease, hown, hrow]

/-- **A call is one call to the arbiter of its session.** -/
theorem leaseCall_refines (db : SessionLeases) (c : LeaseCall) :
    ((leaseCall db c).1, slot (leaseCall db c).2 c.sessionId) =
      Lease.answer (slot db c.sessionId) c.now c.request := by
  obtain ⟨sessionId, now, request⟩ := c
  cases request with
  | acquire owner ttl => exact leaseAcquire_refines db sessionId owner ttl now
  | renew owner => exact leaseRenew_refines db sessionId owner now
  | release owner => exact leaseRelease_refines db sessionId owner now

/-- The rows of other sessions stay as they are. -/
theorem leaseCall_other (db : SessionLeases) (c : LeaseCall) {sessionId : String}
    (h : sessionId ≠ c.sessionId) : (leaseCall db c).2 sessionId = db sessionId := by
  obtain ⟨id, now, request⟩ := c
  have hkeep (row : Option LeaseRow) : Function.update db id row sessionId = db sessionId :=
    Function.update_of_ne h row db
  cases request with
  | acquire owner ttl =>
      show (leaseAcquire db id owner ttl now).2 sessionId = _
      unfold leaseAcquire
      cases db id with
      | none => exact hkeep _
      | some row =>
          dsimp only
          split
          · exact hkeep _
          · rfl
  | renew owner =>
      show (leaseRenew db id owner now).2 sessionId = _
      unfold leaseRenew
      cases db id with
      | none => rfl
      | some row =>
          dsimp only
          split
          · exact hkeep _
          · rfl
  | release owner =>
      show leaseRelease db id owner sessionId = _
      unfold leaseRelease
      cases db id with
      | none => rfl
      | some row =>
          dsimp only
          split
          · exact hkeep _
          · rfl

/-- The calls for one session, as its arbiter sees them. -/
def callsOn (sessionId : String) (calls : List LeaseCall) : List (Lease.Call String Int) :=
  (calls.filter fun c => c.sessionId = sessionId).map fun c => (c.now, c.request)

/-- **A run of calls, seen from one session**, is a run of its arbiter. -/
theorem leaseCalls_refines (db : SessionLeases) (calls : List LeaseCall) (sessionId : String) :
    (toldAbout sessionId (leaseCalls db calls).1, slot (leaseCalls db calls).2 sessionId) =
      Lease.answers (slot db sessionId) (callsOn sessionId calls) := by
  induction calls generalizing db with
  | nil => rfl
  | cons c calls ih =>
      have hrest := ih (leaseCall db c).2
      by_cases hc : c.sessionId = sessionId
      · have hone := leaseCall_refines db c
        rw [hc] at hone
        have htold : toldAbout sessionId (leaseCalls db (c :: calls)).1 =
            ((c.now, c.request), (leaseCall db c).1) ::
              toldAbout sessionId (leaseCalls (leaseCall db c).2 calls).1 := by
          unfold toldAbout
          show (List.filter _ ((c, _) :: _)).map _ = _
          rw [List.filter_cons_of_pos (by simpa using hc)]
          rfl
        have hcalls : callsOn sessionId (c :: calls) =
            (c.now, c.request) :: callsOn sessionId calls := by
          unfold callsOn
          rw [List.filter_cons_of_pos (by simpa using hc)]
          rfl
        rw [htold, hcalls, Lease.answers, ← hone]
        dsimp only
        rw [← hrest]
        rfl
      · have htold : toldAbout sessionId (leaseCalls db (c :: calls)).1 =
            toldAbout sessionId (leaseCalls (leaseCall db c).2 calls).1 := by
          unfold toldAbout
          show (List.filter _ ((c, _) :: _)).map _ = _
          rw [List.filter_cons_of_neg (by simpa using hc)]
          rfl
        have hcalls : callsOn sessionId (c :: calls) = callsOn sessionId calls := by
          unfold callsOn
          rw [List.filter_cons_of_neg (by simpa using hc)]
        have hslot : slot (leaseCall db c).2 sessionId = slot db sessionId := by
          unfold slot
          rw [leaseCall_other db c fun he => hc he.symm]
        rw [htold, hcalls, ← hslot, ← hrest]
        rfl

/-! ## 4. Mutual exclusion -/

/-- No row, for any session. -/
def noLeases : SessionLeases := fun _ => none

/-- **A lease excludes.** Any owners acquire, renew and release in any order, under a clock that
    does not run backwards. Until the lease an owner was told of expires, no other owner is told
    that it holds it, by an acquire or by a renew, and no other owner was; and the holder that the
    store names is the owner that was told last, stale exactly when its lease has expired. -/
theorem lease_mutual_exclusion (calls : List LeaseCall) (now : Int)
    (htimes : (calls.map LeaseCall.now ++ [now]).Pairwise (· ≤ ·)) (sessionId : String) :
    let history := toldAbout sessionId (leaseCalls noLeases calls).1
    let db := (leaseCalls noLeases calls).2
    (∀ owner s ttl, Lease.heldBy owner history = some (s, ttl) → now ≤ s + ttl →
      (∀ other, other ≠ owner →
        (∀ ttl', (leaseAcquire db sessionId other ttl' now).1 = false) ∧
        (leaseRenew db sessionId other now).1 = false) ∧
      (∀ other s' ttl', Lease.heldBy other history = some (s', ttl') → now ≤ s' + ttl' →
        other = owner) ∧
      leaseHolder db sessionId now = some (owner, false)) ∧
    (∀ owner, Lease.lastTold history = some owner →
      ∃ s ttl, Lease.heldBy owner history = some (s, ttl) ∧
        leaseHolder db sessionId now = some (owner, decide (s + ttl < now))) ∧
    (Lease.lastTold history = none → leaseHolder db sessionId now = none) := by
  intro history db
  have hrefines := leaseCalls_refines noLeases calls sessionId
  have hsub : ((callsOn sessionId calls).map Prod.fst ++ [now]).Sublist
      (calls.map LeaseCall.now ++ [now]) := by
    unfold callsOn
    rw [List.map_map]
    exact (List.filter_sublist.map _).append_right _
  have hagrees : Lease.Agrees (slot db sessionId) (fun owner => Lease.heldBy owner history)
      (Lease.lastTold history) now := by
    have hstart := Lease.Agrees.answers_start (htimes.sublist hsub)
    have hnone : slot noLeases sessionId = none := rfl
    rw [hnone] at hrefines
    rw [← hrefines] at hstart
    exact hstart
  have hholder : leaseHolder db sessionId now =
      (slot db sessionId).map fun l => (l.owner, decide (l.Expired now)) := by
    unfold leaseHolder slot
    rw [Option.map_map]
    rfl
  refine ⟨fun owner s ttl hheld hfresh => ?_, fun owner hlast => ?_, fun hlast => ?_⟩
  · have hslot := hagrees.slot_eq hheld hfresh
    refine ⟨fun other hother => ?_, fun other s' ttl' hheld' hfresh' => ?_, ?_⟩
    · have hfree : ¬ (owner = other ∨ s + ttl < now) :=
        not_or.mpr ⟨fun he => hother he.symm, not_lt_of_ge hfresh⟩
      constructor
      · intro ttl'
        have hanswer := congrArg Prod.fst (leaseAcquire_refines db sessionId other ttl' now)
        rw [hslot] at hanswer
        exact hanswer.trans (congrArg Prod.fst (if_neg hfree))
      · have hanswer := congrArg Prod.fst (leaseRenew_refines db sessionId other now)
        rw [hslot] at hanswer
        exact hanswer.trans (congrArg Prod.fst (if_neg fun he => hother he.symm))
    · exact hagrees.same_owner hheld' hheld hfresh' hfresh
    · rw [hholder, hslot]
      show some (owner, decide (s + ttl < now)) = _
      rw [decide_eq_false (not_lt_of_ge hfresh)]
  · have hown := hagrees.last.symm.trans hlast
    obtain ⟨l, hslot, hl⟩ := Option.map_eq_some_iff.mp hown
    refine ⟨l.since, l.ttl, hl ▸ hagrees.held l hslot, ?_⟩
    rw [hholder, hslot, ← hl]
    rfl
  · have hown := hagrees.last.symm.trans hlast
    rw [hholder, Option.map_eq_none_iff.mp hown]
    rfl

/-- An instance acquires and renews; at 90 it still holds the lease, and no other gets it. -/
theorem lease_mutual_exclusion_renewed :
    (leaseAcquire (leaseCalls noLeases [⟨"s", 0, .acquire "A" 60⟩, ⟨"s", 40, .renew "A"⟩]).2
      "s" "B" 60 90).1 = false := by
  have h := lease_mutual_exclusion [⟨"s", 0, .acquire "A" 60⟩, ⟨"s", 40, .renew "A"⟩] 90
    (by decide) "s"
  exact ((h.1 "A" 40 60 (by decide) (by decide)).1 "B" (by decide)).1 60

end Ruwa.Session
