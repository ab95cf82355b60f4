/-
  File:      Ruwa/Session/Leasing.lean
  Subject:   ONE INSTANCE AT A TIME (`session.rs`: `connect`, `run_with_reconnect`,
             `run_connection`, with leasing on).

  Several instances of the service share the store. Each has the session, with drivers of its own;
  `connect` acquires the lease, the loop of a connection renews it, and a driver that has returned
  releases it. Between these nobody looks at it: a backoff and a handshake take their time.

  * `Cluster.step` -- what an instance does, with the lease's part in it;
  * `Excludes` -- the invariant; `excludes_step` -- what one step keeps;
  * **`login_excludes`** -- runs in which no lease lapses at a handshake, or under a connection
    that another instance connects beside;
  * **`login_twice`** -- a handshake that outlasts its lease.
-/
import Ruwa.Session.Lease
import Ruwa.Session.SendPath

namespace Ruwa.Session

open Ruwa.Library

variable {α : Type}

/-! ## 1. The instances -/

/-- The session of every instance, by its owner id, and what the instances share. -/
structure Cluster (α : Type) where
  webs : String → Web α
  leases : SessionLeases
  clock : Int
  /-- What the instances were told about the session's lease, oldest first. -/
  told : List (Lease.Told String Int)

/-- What an instance does, when, and whether the store answers then. -/
structure InstanceCall (α : Type) where
  owner : String
  now : Int
  storeOk : Bool
  call : Call α

/-- The request to the store on the way. A `reconnect` that does not bounce comes to a `connect`
    that is not turned away. -/
def Web.leaseRequest (s : Web α) (owner : String) (ttl : Int) :
    Call α → Option (Lease.Request String Int)
  | .connect _ => if s.guarded then none else some (.acquire owner ttl)
  | .reconnect _ => if s.reconnectCanBounce then none else some (.acquire owner ttl)
  | .driver _ (.heartbeat _) => some (.renew owner)
  | .driver _ .finish => some (.release owner)
  | _ => none

/-- The call, with the answer that it got. -/
def Call.answered (granted : Bool) : Call α → Call α
  | .connect _ => .connect granted
  | .reconnect _ => .reconnect granted
  | .driver id (.heartbeat _) => .driver id (.heartbeat granted)
  | e => e

namespace Cluster

/-- Instances with nothing in memory, and a lease table without the session. -/
def new (status : SessionStatus) (clock : Int) : Cluster α where
  webs _ := Web.new status
  leases := noLeases
  clock := clock
  told := []

variable (sessionId : String) (ttl : String → Int)

/-- What the step asks of the store; `ttl` is each instance's `lease_ttl_secs`. -/
def request (c : Cluster α) (e : InstanceCall α) : Option (Lease.Request String Int) :=
  (c.webs e.owner).leaseRequest e.owner (ttl e.owner) e.call

/-- The answer, the table and what is known of it afterwards. A store that fails is taken for a
    refusal. -/
def consult (c : Cluster α) (e : InstanceCall α) :
    Option (Lease.Request String Int) → Bool × SessionLeases × List (Lease.Told String Int)
  | none => (false, c.leases, c.told)
  | some r =>
      if e.storeOk then
        let (granted, leases) := leaseCall c.leases ⟨sessionId, e.now, r⟩
        (granted, leases, c.told ++ [((e.now, r), granted)])
      else (false, c.leases, c.told)

def step (c : Cluster α) (e : InstanceCall α) : Option (Cluster α) :=
  if e.now < c.clock then none
  else
    let (granted, leases, told) := c.consult sessionId e (c.request ttl e)
    ((c.webs e.owner).step (e.call.answered granted)).map fun s =>
      ⟨Function.update c.webs e.owner s, leases, e.now, told⟩

end Cluster

/-- A driver of the instance holds a connection: its handshake is done. -/
def Web.LoggedIn (s : Web α) : Prop := ¬Idle s

instance (s : Web α) : Decidable s.LoggedIn := inferInstanceAs (Decidable (¬_))

/-- By what it was told, the instance's lease has not run out, and it has not released it. -/
def Unlapsed (told : List (Lease.Told String Int)) (owner : String) (now : Int) : Prop :=
  ∃ since ttl, Lease.heldBy owner told = some (since, ttl) ∧ now ≤ since + ttl

/-- The end of a handshake. -/
def Call.IsLogin : Call α → Prop
  | .driver _ (.handshakeDone _) => True
  | _ => False

/-- No lapse where it matters: a handshake ends before the instance's lease runs out, and who
    connects finds no other instance at work on a lease that has. -/
structure OnTime (ttl : String → Int) (c : Cluster α) (e : InstanceCall α) : Prop where
  login : e.call.IsLogin → Unlapsed c.told e.owner e.now
  acquire : ∀ owner t, c.request ttl e = some (.acquire owner t) →
    ∀ other, other ≠ e.owner → (c.webs other).LoggedIn → Unlapsed c.told other e.now

/-! ## 2. Who holds a connection -/

theorem idle_moveTo {s : Web α} (h : Idle s) (id : Nat) {pos : Await} (hpos : pos.conn = none) :
    Idle (s.moveTo id pos) := by
  intro d hd
  rcases mem_moveTo.mp hd with ⟨-, rfl⟩ | ⟨hold, -⟩
  · exact hpos
  · exact h d hold

theorem idle_failed {s : Web α} (h : Idle s) (id : Nat) : Idle (s.failed id) := by
  obtain ⟨pos, hconn, hdrivers, -⟩ := failed_effect s id
  intro d hd
  rw [hdrivers] at hd
  exact idle_moveTo h id hconn d hd

/-- A driver without a connection gets one by a handshake only. -/
theorem idle_driverStep {s s' : Web α} {d : Driver} {e : DriverStep α} (h : Idle s)
    (hd : d ∈ s.drivers) (hlogin : ∀ drained, e ≠ .handshakeDone drained)
    (hstep : s.driverStep d e = some s') : Idle s' := by
  have hconn := h d hd
  cases driverStep_cases hstep with
  | started => exact idle_moveTo (s := { s with reachedSuccess := false }) h d.id rfl
  | proxyFailed => exact idle_moveTo (s := (s.setStatus .proxyError).emit .disconnected) h d.id rfl
  | dialFailed | lost | closed => exact idle_failed h d.id
  | handshakeDone drained => exact absurd rfl (hlogin drained)
  | wokenIdle => exact idle_moveTo h d.id rfl
  | backoffOver =>
      exact idle_moveTo (s := { (s.setStatus .connecting).emit .connecting with
        reachedSuccess := false }) h d.id rfl
  | finish => exact fun d' hd' => h d' (List.mem_of_mem_filter hd')
  -- The other steps are those of a driver in a connection.
  | frame _ _ _ hpos | outgoing _ hpos | written _ hpos | reconnectHeard _ hpos | woken _ hpos
  | left _ hpos | renewed _ hpos | leaseLost _ hpos =>
      rw [hpos] at hconn
      cases hconn

theorem idle_abortHandle {s : Web α} (h : Idle s) : Idle s.abortHandle :=
  fun d hd => h d (mem_abortHandle.mp hd).1

theorem idle_spawnDriver {s : Web α} (h : Idle s) : Idle s.spawnDriver := by
  intro d hd
  rcases List.mem_append.mp hd with hold | hnew
  · exact idle_abortHandle h d hold
  · rw [List.mem_singleton.mp hnew]
    rfl

theorem idle_connect {s : Web α} (h : Idle s) (granted : Bool) : Idle (s.connect granted) := by
  unfold Web.connect
  split
  · exact h
  · split
    · exact idle_spawnDriver h
    · exact h

theorem idle_reconnect {s : Web α} (h : Idle s) (granted : Bool) : Idle (s.reconnect granted) := by
  unfold Web.reconnect
  split
  · exact idle_alike (requestReconnect_alike s) h
  · split
    · exact idle_connect (s := s.abortTask.setStatus .disconnected) (idle_abortHandle h) granted
    · exact idle_connect h granted

/-- **An instance logs in by a handshake**, and by nothing else. -/
theorem idle_step {s s' : Web α} {e : Call α} (h : Idle s) (hlogin : ¬e.IsLogin)
    (hstep : s.step e = some s') : Idle s' := by
  rcases step_alike hstep with halike | ⟨granted, rfl⟩ | ⟨granted, rfl⟩ |
    ⟨id, e', rfl, d, hd, hdriver⟩
  · exact idle_alike halike h
  · cases hstep
    exact idle_connect h granted
  · cases hstep
    exact idle_reconnect h granted
  · refine idle_driverStep h hd ?_ hdriver
    rintro drained rfl
    exact hlogin trivial

/-! ## 3. Who holds the lease -/

section Cluster

variable {sessionId : String} {ttl : String → Int} {c c' : Cluster α} {e : InstanceCall α}

/-- The lease is that of whoever holds a connection, if it is anybody's. -/
structure Excludes (sessionId : String) (c : Cluster α) : Prop where
  agrees : Lease.Agrees (slot c.leases sessionId) (fun owner => Lease.heldBy owner c.told)
    (Lease.lastTold c.told) c.clock
  mine : ∀ owner, (c.webs owner).LoggedIn → ∀ l, slot c.leases sessionId = some l → l.owner = owner
  single : ∀ owner other, (c.webs owner).LoggedIn → (c.webs other).LoggedIn → owner = other

theorem excludes_new (status : SessionStatus) (clock : Int) :
    Excludes sessionId (Cluster.new status clock : Cluster α) where
  agrees := .start clock
  mine _ h := absurd (fun _ hd => (nomatch hd)) h
  single _ _ h := absurd (fun _ hd => (nomatch hd)) h

/-- An instance acquires in its own name. -/
theorem request_acquire {owner : String} {t : Int}
    (h : c.request ttl e = some (.acquire owner t)) : owner = e.owner := by
  unfold Cluster.request Web.leaseRequest at h
  split at h
  · split at h <;> cases h
    rfl
  · split at h <;> cases h
    rfl
  · cases h
  · cases h
  · cases h

/-- A handshake does not ask. -/
theorem request_login (h : e.call.IsLogin) : c.request ttl e = none := by
  unfold Cluster.request
  unfold Call.IsLogin at h
  split at h
  · next heq =>
      rw [heq]
      rfl
  · exact h.elim

theorem isLogin_answered {granted : Bool} {call : Call α} :
    (call.answered granted).IsLogin ↔ call.IsLogin := by
  unfold Call.answered
  split <;> exact Iff.rfl

/-- While the lease has not lapsed, the table has it. -/
theorem Excludes.slot_eq (h : Excludes sessionId c) {owner : String} {now : Int}
    (hnow : c.clock ≤ now) (hlease : Unlapsed c.told owner now) :
    ∃ l, slot c.leases sessionId = some l ∧ l.owner = owner ∧ ¬l.Expired now := by
  obtain ⟨since, t, hheld, hfresh⟩ := hlease
  exact ⟨_, (h.agrees.later hnow).slot_eq hheld hfresh, rfl, not_lt_of_ge hfresh⟩

/-- What was told agrees with the table after every request. -/
theorem agrees_consult (h : Excludes sessionId c) (hnow : c.clock ≤ e.now)
    (r : Option (Lease.Request String Int)) :
    Lease.Agrees (slot (c.consult sessionId e r).2.1 sessionId)
      (fun owner => Lease.heldBy owner (c.consult sessionId e r).2.2)
      (Lease.lastTold (c.consult sessionId e r).2.2) e.now := by
  cases r with
  | none => exact h.agrees.later hnow
  | some r =>
      unfold Cluster.consult
      by_cases hok : e.storeOk = true
      · have hanswer := leaseCall_refines c.leases ⟨sessionId, e.now, r⟩
        have hagrees := h.agrees.answer hnow r
        rw [← hanswer] at hagrees
        simpa [hok, Lease.heldBy, Lease.lastTold, List.foldl_append] using hagrees
      · simpa [hok] using h.agrees.later hnow

/-- Nobody takes the lease from whoever holds a connection. -/
theorem mine_consult (h : Excludes sessionId c) (hnow : c.clock ≤ e.now)
    (htime : OnTime ttl c e) {owner : String} (hlogged : (c.webs owner).LoggedIn) {l : Lease String Int}
    (hslot : slot (c.consult sessionId e (c.request ttl e)).2.1 sessionId = some l) :
    l.owner = owner := by
  unfold Cluster.consult at hslot
  split at hslot
  · exact h.mine owner hlogged l hslot
  · next r hrequest =>
      by_cases hok : e.storeOk = true
      · have hanswer := congrArg Prod.snd (leaseCall_refines c.leases ⟨sessionId, e.now, r⟩)
        simp only [hok, if_true] at hslot
        rcases Lease.answer_owner (hanswer.symm.trans hslot) with ⟨l', hl', heq⟩ |
          ⟨t, rfl, hfree⟩
        · exact heq ▸ h.mine owner hlogged l' hl'
        · by_contra hother
          have hself := request_acquire hrequest
          -- The table has the lease of the one at work, and it has not expired.
          have hlease := htime.acquire l.owner t hrequest owner
            (fun he => hother (hself.trans he.symm)) hlogged
          obtain ⟨l', hl', hown, hfresh⟩ := h.slot_eq hnow hlease
          rcases hfree l' hl' with he | hexpired
          · exact hother (he.symm.trans hown)
          · exact hfresh hexpired
      · simp only [hok] at hslot
        exact h.mine owner hlogged l hslot

/-- What a step does to each part of the cluster. -/
structure Stepped (sessionId : String) (ttl : String → Int) (c : Cluster α) (e : InstanceCall α)
    (c' : Cluster α) : Prop where
  now : c.clock ≤ e.now
  self : (c.webs e.owner).step
    (e.call.answered (c.consult sessionId e (c.request ttl e)).1) = some (c'.webs e.owner)
  others : ∀ owner, owner ≠ e.owner → c'.webs owner = c.webs owner
  leases : c'.leases = (c.consult sessionId e (c.request ttl e)).2.1
  clock : c'.clock = e.now
  told : c'.told = (c.consult sessionId e (c.request ttl e)).2.2

theorem cluster_step (hstep : Cluster.step sessionId ttl c e = some c') :
    Stepped sessionId ttl c e c' := by
  unfold Cluster.step at hstep
  split at hstep
  · cases hstep
  · next hnow =>
      obtain ⟨s, hs, rfl⟩ := Option.map_eq_some_iff.mp hstep
      have hself : Function.update c.webs e.owner s e.owner = s := Function.update_self ..
      exact ⟨Int.not_lt.mp hnow, hs.trans (congrArg some hself.symm),
        fun _ hne => Function.update_of_ne hne .., rfl, rfl, rfl⟩

/-- Without a handshake, nobody is logged in who was not. -/
theorem loggedIn_step (hstep : Stepped sessionId ttl c e c') (hlogin : ¬e.call.IsLogin)
    {owner : String} (h : (c'.webs owner).LoggedIn) : (c.webs owner).LoggedIn := by
  by_cases hself : owner = e.owner
  · subst hself
    intro hidle
    exact h (idle_step hidle (fun hl => hlogin (isLogin_answered.mp hl)) hstep.self)
  · rwa [← hstep.others owner hself]

/-- A handshake leaves the lease alone, and finds it with the instance. -/
theorem login_step (h : Excludes sessionId c) (htime : OnTime ttl c e)
    (hstep : Stepped sessionId ttl c e c') (hlogin : e.call.IsLogin) :
    ∃ l, slot c'.leases sessionId = some l ∧ l.owner = e.owner ∧ ¬l.Expired e.now := by
  rw [hstep.leases, request_login hlogin]
  exact h.slot_eq hstep.now (htime.login hlogin)

/-- **One step** of any instance. -/
theorem excludes_step (h : Excludes sessionId c) (htime : OnTime ttl c e)
    (hstep : Stepped sessionId ttl c e c') : Excludes sessionId c' := by
  have hagrees := agrees_consult h hstep.now (c.request ttl e)
  rw [← hstep.leases, ← hstep.told, ← hstep.clock] at hagrees
  by_cases hlogin : e.call.IsLogin
  · obtain ⟨l, hslot, hown, -⟩ := login_step h htime hstep hlogin
    have hbefore : slot c.leases sessionId = some l := by
      rwa [hstep.leases, request_login hlogin] at hslot
    -- Another instance at work would have the lease.
    have halone (owner : String) (hlogged : (c'.webs owner).LoggedIn) : owner = e.owner := by
      by_contra hother
      rw [hstep.others owner hother] at hlogged
      exact hother ((h.mine owner hlogged l hbefore).symm.trans hown)
    refine ⟨hagrees, ?_, ?_⟩
    · intro owner hlogged l' hl'
      rw [hslot, Option.some.injEq] at hl'
      rw [← hl', hown, halone owner hlogged]
    · intro owner other hlogged hlogged'
      rw [halone owner hlogged, halone other hlogged']
  · refine ⟨hagrees, ?_, ?_⟩
    · intro owner hlogged l hl
      rw [hstep.leases] at hl
      exact mine_consult h hstep.now htime (loggedIn_step hstep hlogin hlogged) hl
    · intro owner other hlogged hlogged'
      exact h.single owner other (loggedIn_step hstep hlogin hlogged)
        (loggedIn_step hstep hlogin hlogged')

end Cluster

/-! ## 4. Runs -/

/-- **No two instances are logged in, and who logs in holds the lease**, in every run in which no
    handshake ends on a lapsed lease, and no instance connects while another is at work on one. -/
theorem login_excludes (sessionId : String) (ttl : String → Int) (status : SessionStatus)
    (clock : Int) (run : List (InstanceCall α)) (c : Cluster α)
    (htimes : Meets (Cluster.step sessionId ttl) (OnTime ttl) (Cluster.new status clock) run)
    (hrun : runFrom (Cluster.step sessionId ttl) (Cluster.new status clock) run = some c) :
    (∀ owner other, (c.webs owner).LoggedIn → (c.webs other).LoggedIn → owner = other) ∧
      ∀ e c', OnTime ttl c e → Cluster.step sessionId ttl c e = some c' → e.call.IsLogin →
        leaseHolder c'.leases sessionId c'.clock = some (e.owner, false) := by
  have hexcludes : Excludes sessionId c :=
    run_invariant (fun _ _ _ h htime hstep => excludes_step h htime (cluster_step hstep))
      (excludes_new status clock) htimes hrun
  refine ⟨hexcludes.single, fun e c' htime hstep hlogin => ?_⟩
  have hstepped := cluster_step hstep
  obtain ⟨l, hslot, hown, hfresh⟩ := login_step hexcludes htime hstepped hlogin
  obtain ⟨row, hrow, rfl⟩ := Option.map_eq_some_iff.mp hslot
  rw [← hown, hstepped.clock, leaseHolder, hrow, Option.map_some]
  exact congrArg (fun stale => some (row.ownerId, stale)) (decide_eq_false hfresh)

namespace Sample

/-- One instance logs in, and the other is refused. -/
def refused : List (InstanceCall Nat) :=
  [⟨"A", 0, true, .connect false⟩, ⟨"A", 0, true, .driver 0 (.start true)⟩,
    ⟨"A", 1, true, .driver 0 (.handshakeDone [])⟩, ⟨"B", 2, true, .connect false⟩]

/-- The handshake of one instance takes a minute; the other connects and logs in meanwhile. -/
def outlasted : List (InstanceCall Nat) :=
  [⟨"A", 0, true, .connect false⟩, ⟨"A", 0, true, .driver 0 (.start true)⟩,
    ⟨"B", 61, true, .connect false⟩, ⟨"B", 61, true, .driver 0 (.start true)⟩,
    ⟨"B", 62, true, .driver 0 (.handshakeDone [])⟩, ⟨"A", 63, true, .driver 0 (.handshakeDone [])⟩]

end Sample

theorem login_excludes_refused :
    ∃ c, runFrom (Cluster.step "s" fun _ => 60) (Cluster.new .disconnected 0) Sample.refused =
        some c ∧
      (c.webs "A").LoggedIn ∧ ∀ other, (c.webs other).LoggedIn → other = "A" := by
  refine ⟨_, rfl, by decide, fun other hlogged => ?_⟩
  refine (login_excludes "s" (fun _ => 60) .disconnected 0 Sample.refused _ ?_ rfl).1 other "A"
    hlogged (by decide)
  refine ⟨⟨fun h => h.elim, ?_⟩, ⟨fun h => h.elim, ?_⟩, ⟨fun _ => ⟨0, 60, by decide, by decide⟩, ?_⟩,
    ⟨fun h => h.elim, ?_⟩, trivial⟩
  · intro owner t hrequest other hother hlogged
    exact absurd (fun _ hd => (nomatch hd)) hlogged
  · intro owner t hrequest
    cases hrequest
  · intro owner t hrequest
    cases hrequest
  · intro owner t hrequest other hother hlogged
    by_cases hA : other = "A"
    · subst hA
      exact ⟨0, 60, by decide, by decide⟩
    · refine absurd ?_ hlogged
      simp only [Function.update_of_ne hA]
      exact fun _ hd => (nomatch hd)

/-- **A handshake that outlasts its lease**: both instances are logged in. -/
theorem login_twice :
    ∃ c, runFrom (Cluster.step "s" fun _ => 60) (Cluster.new .disconnected 0) Sample.outlasted =
        some c ∧
      (c.webs "A").LoggedIn ∧ (c.webs "B").LoggedIn ∧
      leaseHolder c.leases "s" c.clock = some ("B", false) := by
  refine ⟨_, rfl, ?_, ?_, ?_⟩
  · decide
  · decide
  · decide

end Ruwa.Session
