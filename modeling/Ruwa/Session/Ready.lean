/-
  File:      Ruwa/Session/Ready.lean
  Subject:   WHAT `connected` MEANS: the sync phase of a session and the connection it belongs to.

  `sync_ready`, the marked collections and the 30 s timer belong to the session. A connection that
  ends does not touch them, so a timer or a task that outlives its connection still acts on them.

  * `step_syncEffect` -- what every step other than the timer and the marks does to the phase;
  * **`ready_is_synced`** -- runs in which both act for the connection in use only;
  * `login_serving`, `serving_run` -- they do so from a login on while the connection stays up;
  * **`ready_while_offline`** -- the timer of a connection that is gone.
-/
import Ruwa.Session.SendPath

namespace Ruwa.Session

open Ruwa.Library

variable {α : Type}

/-! ## 1. The phase -/

/-- The select loop of the connection is running. -/
def InLoop (s : Web α) (c : Nat) : Prop :=
  ∃ d ∈ s.drivers, d.pos = .selecting c ∨ d.pos = .writing c

instance (s : Web α) (c : Nat) : Decidable (InLoop s c) :=
  inferInstanceAs (Decidable (∃ d ∈ s.drivers, _))

/-- The timer and the tasks act for the connection in use, in its sync phase; or too late to do
    anything. -/
def InPhase (s : Web α) : Call α → Prop
  | .deadline =>
      s.syncReady = true ∨ s.status = .syncing ∧ ∀ c, s.syncDeadline = some c → InLoop s c
  | .collectionSynced c _ => s.syncReady = true ∨ s.status = .syncing ∧ InLoop s c
  | _ => True

instance (s : Web α) : (e : Call α) → Decidable (InPhase s e)
  | .deadline => decidable_of_iff
      (s.syncReady = true ∨ s.status = .syncing ∧ ∀ c ∈ s.syncDeadline, InLoop s c) (by rfl)
  | .collectionSynced c _ =>
      inferInstanceAs (Decidable (s.syncReady = true ∨ s.status = .syncing ∧ InLoop s c))
  | .connect _ | .reconnect _ | .rekey | .logout | .enqueue _ | .pump _ | .driver .. =>
      inferInstanceAs (Decidable True)

/-- The step makes the session ready: it becomes `connected`, or says so. -/
def MakesReady (s s' : Web α) : Prop :=
  s'.status = .connected ∧ s.status ≠ .connected ∨
    s'.events.count .connected ≠ s.events.count .connected

/-- Between two `connected` there is a login. -/
def OncePerLogin (events : List SessionEvent) : Prop :=
  ∀ xs ys zs, events = xs ++ .connected :: (ys ++ .connected :: zs) → SessionEvent.syncing ∈ ys

/-- What a step other than the timer and the marks does. -/
inductive SyncEffect (s s' : Web α) : Prop
  | same (hstatus : s'.status = s.status) (hready : s'.syncReady = s.syncReady)
      (hsynced : s'.syncedCollections = s.syncedCollections)
      (hdeadline : s'.syncDeadline = s.syncDeadline) (hevents : s'.events = s.events)
      (hloop : ∀ c, InLoop s' c → InLoop s c)
  | off (new : List SessionEvent) (hstatus : s'.status ≠ .syncing ∧ s'.status ≠ .connected)
      (hevents : s'.events = s.events ++ new) (hnew : SessionEvent.connected ∉ new)
  | began (conn : Nat) (new : List SessionEvent) (hstatus : s'.status = .syncing)
      (hsynced : s'.syncedCollections = []) (hdeadline : s'.syncDeadline = some conn)
      (hevents : s'.events = s.events ++ (new ++ [.syncing]))
      (hnew : SessionEvent.connected ∉ new) (hloop : ∀ c, InLoop s' c → c = conn)

theorem inLoop_alike {s s' : Web α} (h : Alike s s') {c : Nat} (hloop : InLoop s' c) :
    InLoop s c := by
  obtain ⟨d', hd', hpos⟩ := hloop
  obtain ⟨d, hd, -, heq⟩ := h.mem hd'
  exact ⟨d, hd, heq ▸ hpos⟩

/-- A driver that moves within its connection, or out of it, brings no other into the loop. -/
theorem inLoop_moveTo {s s' : Web α} {d : Driver} (hd : d ∈ s.drivers) {pos : Await} {c : Nat}
    (hdrivers : s'.drivers = (s.moveTo d.id pos).drivers)
    (hpos : pos = .selecting c ∨ pos = .writing c → d.pos = .selecting c ∨ d.pos = .writing c)
    (hloop : InLoop s' c) : InLoop s c := by
  obtain ⟨d', hd', hin⟩ := hloop
  rw [hdrivers] at hd'
  rcases mem_moveTo.mp hd' with ⟨-, rfl⟩ | ⟨hold, -⟩
  · exact ⟨d, hd, hpos hin⟩
  · exact ⟨d', hold, hin⟩

theorem failed_off (s : Web α) (id : Nat) : SyncEffect s (s.failed id) := by
  unfold Web.failed
  dsimp only
  split
  · split <;> exact .off [.disconnected] (by simp [Web.moveTo, Web.setStatus]) rfl (by simp)
  · split
    · next h => cases h
    · split
      · exact .off [.disconnected, .connecting] (by simp [Web.redial, Web.moveTo, Web.emit,
          Web.setStatus]) (by simp [Web.redial, Web.moveTo, Web.emit, Web.setStatus, Web.cleanup,
            Web.resetSendQueue]) (by simp)
      · exact .off [.disconnected] (by simp [Web.moveTo, Web.setStatus, Web.emit]) rfl (by simp)

theorem handshakeDone_off (s : Web α) (id : Nat) (drained : List α) :
    SyncEffect s (s.handshakeDone id drained) := by
  have hfold : ∀ (t : Web α) (ops : List α), (ops.foldl Web.enqueueSend t).status = t.status ∧
      (ops.foldl Web.enqueueSend t).events = t.events := by
    intro t ops
    induction ops generalizing t with
    | nil => exact ⟨rfl, rfl⟩
    | cons op ops ih => exact ih (t.enqueueSend op)
  have hview : (s.handshakeDone id drained).status = .awaitingQr ∧
      (s.handshakeDone id drained).events = s.events ++ [.connecting] := by
    unfold Web.handshakeDone
    cases hrx : s.sendRx with
    | none => simp [Web.moveTo, Web.setStatus, Web.emit]
    | some ch => simp [Web.moveTo, Web.setStatus, Web.emit, hfold]
  refine .off [.connecting] ?_ hview.2 (by simp)
  rw [hview.1]
  simp

/-- A frame begins a sync phase, or leaves the phase alone. -/
theorem frame_effect {s : Web α} {d : Driver} (hone : OneDriver s) (hd : d ∈ s.drivers) {c : Nat}
    (hpos : d.pos = .selecting c) (f : Frame) {pos : Await}
    (hmoved : pos = .selecting c ∨ pos = .writing c) :
    SyncEffect s ((s.processInboundNode c f).moveTo d.id pos) := by
  have hlive : d.pos ≠ .exited := by simp [hpos]
  have hdrivers : ((s.processInboundNode c f).moveTo d.id pos).drivers =
      (s.moveTo d.id pos).drivers := by
    simp only [Web.moveTo, (wiring_processInboundNode s c f).2]
  have hback : ∀ c', InLoop ((s.processInboundNode c f).moveTo d.id pos) c' → InLoop s c' := by
    intro c' hloop
    refine inLoop_moveTo hd hdrivers ?_ hloop
    rcases hmoved with rfl | rfl <;> simp [hpos]
  have honly : ∀ c', InLoop s c' → c' = c := by
    rintro c' ⟨d', hd', hin⟩
    by_cases hid : d'.id = d.id
    · rw [hone.eq hd' hd hid, hpos] at hin
      simpa [eq_comm] using hin
    · have hidle := others_idle hone hd hlive hd' hid
      rcases hin with hin | hin <;> rw [hin] at hidle <;> cases hidle
  cases f with
  | success =>
      exact .began c [] rfl rfl rfl rfl (by simp) fun c' h => honly c' (hback c' h)
  | pairSuccess =>
      refine .began c [.paired] rfl rfl rfl ?_ (by simp) fun c' h => honly c' (hback c' h)
      simp [Web.processInboundNode, Web.beginSync, Web.emit, Web.setStatus, Web.moveTo]
  | halt => exact .same rfl rfl rfl rfl rfl hback
  | reject => exact .same rfl rfl rfl rfl rfl hback
  | restart => exact .same rfl rfl rfl rfl rfl hback
  | other => exact .same rfl rfl rfl rfl rfl hback

theorem driverStep_syncEffect {s s' : Web α} {d : Driver} {e : DriverStep α} (hone : OneDriver s)
    (hd : d ∈ s.drivers) (h : s.driverStep d e = some s') : SyncEffect s s' := by
  cases driverStep_cases h with
  | started =>
      exact .same rfl rfl rfl rfl rfl fun c hloop => inLoop_moveTo hd rfl (by simp) hloop
  | proxyFailed =>
      exact .off [.disconnected] (by simp [Web.moveTo, Web.setStatus, Web.emit]) rfl (by simp)
  | dialFailed | lost | closed => exact failed_off s d.id
  | handshakeDone drained => exact handshakeDone_off s d.id drained
  | frame f reply c hpos =>
      refine frame_effect hone hd hpos f ?_
      cases reply with
      | true => exact .inr rfl
      | false => exact .inl rfl
  | outgoing _ hpos | written _ hpos | renewed _ hpos =>
      refine .same rfl rfl rfl rfl rfl fun c' hloop => inLoop_moveTo hd rfl ?_ hloop
      simp [hpos]
  | reconnectHeard | woken | wokenIdle | left =>
      exact .same rfl rfl rfl rfl rfl fun c' hloop => inLoop_moveTo hd rfl (by simp) hloop
  | leaseLost =>
      refine .off [] ?_ ?_ (by simp)
      · simp [Web.moveTo, Web.setStatus, Web.cleanup, Web.resetSendQueue]
      · simp [Web.moveTo, Web.setStatus, Web.cleanup, Web.resetSendQueue]
  | backoffOver =>
      exact .off [.connecting] (by simp [Web.redial, Web.moveTo, Web.setStatus, Web.emit]) rfl
        (by simp)
  | finish =>
      refine .same rfl rfl rfl rfl rfl ?_
      rintro c ⟨d', hd', hin⟩
      exact ⟨d', List.mem_of_mem_filter hd', hin⟩

theorem connect_syncEffect (s : Web α) (granted : Bool) : SyncEffect s (s.connect granted) := by
  unfold Web.connect
  split
  · exact .same rfl rfl rfl rfl rfl fun _ h => h
  · split
    · exact .off [.connecting] (by simp [Web.spawnDriver, Web.abortHandle, Web.setStatus, Web.emit])
        rfl (by simp)
    · exact .same rfl rfl rfl rfl rfl fun _ h => h

theorem reconnect_syncEffect (s : Web α) (granted : Bool) : SyncEffect s (s.reconnect granted) := by
  unfold Web.reconnect
  split
  · exact .same rfl rfl rfl rfl rfl fun _ h => inLoop_alike (requestReconnect_alike s) h
  · split
    · unfold Web.connect
      rw [if_neg (by simp [Web.guarded, Web.setStatus])]
      split
      · exact .off [.connecting] (by simp [Web.spawnDriver, Web.abortHandle, Web.setStatus, Web.emit])
          rfl (by simp)
      · exact .off [] (by simp [Web.setStatus]) (by simp [Web.setStatus, Web.abortTask,
          Web.abortHandle]) (by simp)
    · exact connect_syncEffect s granted

theorem step_syncEffect {s s' : Web α} {e : Call α} (hone : OneDriver s)
    (hstep : s.step e = some s') :
    SyncEffect s s' ∨ e = .deadline ∨ ∃ c name, e = .collectionSynced c name := by
  cases e with
  | connect granted =>
      cases hstep
      exact .inl (connect_syncEffect s granted)
  | reconnect granted =>
      cases hstep
      exact .inl (reconnect_syncEffect s granted)
  | rekey =>
      cases hstep
      exact .inl (.same rfl rfl rfl rfl rfl fun _ h => inLoop_alike (requestReconnect_alike s) h)
  | logout =>
      cases hstep
      exact .inl (.off [.loggedOut] (by simp [Web.logout, Web.notifyLogout, Web.setStatus, Web.emit])
        rfl (by simp))
  | enqueue op =>
      cases hstep
      exact .inl (.same rfl rfl rfl rfl rfl fun _ h => h)
  | pump p =>
      simp only [Web.step] at hstep
      split at hstep
      · obtain ⟨taken, -, rfl⟩ := Option.map_eq_some_iff.mp hstep
        exact .inl (.same rfl rfl rfl rfl rfl fun _ h => h)
      · cases hstep
  | deadline => exact .inr (.inl rfl)
  | collectionSynced c name => exact .inr (.inr ⟨c, name, rfl⟩)
  | driver id e =>
      obtain ⟨d, hfind, hdriver⟩ := Option.bind_eq_some_iff.mp hstep
      exact .inl (driverStep_syncEffect hone (List.mem_of_find?_eq_some hfind) hdriver)

/-! ## 2. What has been announced -/

/-- The last `connected` is not behind an end without one. -/
theorem split_before {events new xs ys : List SessionEvent} (hnew : SessionEvent.connected ∉ new)
    (h : events ++ new = xs ++ .connected :: ys) :
    ∃ ys', ys = ys' ++ new ∧ events = xs ++ .connected :: ys' := by
  rcases List.append_eq_append_iff.mp h with ⟨as, rfl, hend⟩ | ⟨bs, rfl, hend⟩
  · refine absurd ?_ hnew
    rw [hend]
    simp
  · cases bs with
    | nil =>
        refine absurd ?_ hnew
        rw [List.nil_append] at hend
        rw [← hend]
        simp
    | cons b bs =>
        obtain ⟨rfl, rfl⟩ := List.cons.inj hend
        exact ⟨bs, rfl, rfl⟩

theorem oncePerLogin_append {events new : List SessionEvent} (h : OncePerLogin events)
    (hnew : SessionEvent.connected ∉ new) : OncePerLogin (events ++ new) := by
  intro xs ys zs hsplit
  have hsplit' : events ++ new = (xs ++ .connected :: ys) ++ .connected :: zs := by
    rw [hsplit]
    simp
  obtain ⟨zs', -, hevents⟩ := split_before hnew hsplit'
  exact h xs ys zs' (by rw [hevents]; simp)

/-- A session that has logged in since may say `connected` again. -/
theorem oncePerLogin_ready {events : List SessionEvent} (h : OncePerLogin events)
    (hsince : ∀ xs ys, events = xs ++ .connected :: ys → SessionEvent.syncing ∈ ys) :
    OncePerLogin (events ++ [.connected]) := by
  intro xs ys zs hsplit
  rcases List.eq_nil_or_concat zs with rfl | ⟨zs', last, rfl⟩
  · have hsame : events ++ [SessionEvent.connected] = (xs ++ .connected :: ys) ++ [.connected] := by
      rw [hsplit]
      simp
    exact hsince xs ys (List.append_cancel_right hsame)
  · have hsame : events ++ [SessionEvent.connected] =
        (xs ++ .connected :: (ys ++ .connected :: zs')) ++ [last] := by
      rw [hsplit]
      simp
    exact h xs ys zs' (List.append_inj_left' hsame rfl)

/-! ## 3. The invariant -/

/-- While a connection is in its sync phase, the timer is its own, and so are the marks; and it
    has logged in since the last `connected`. -/
structure Phase (s : Web α) : Prop where
  own : ∀ c, InLoop s c → s.status = .syncing → s.syncReady = false →
    s.syncDeadline = some c ∧ ∀ m ∈ s.syncedCollections, m.2 = c
  since : ∀ c, InLoop s c → s.status = .syncing → s.syncReady = false →
    ∀ xs ys, s.events = xs ++ .connected :: ys → SessionEvent.syncing ∈ ys
  once : OncePerLogin s.events

theorem phase_of_ready {s : Web α} (hready : s.syncReady = true) (honce : OncePerLogin s.events) :
    Phase s := by
  refine ⟨?_, ?_, honce⟩
  · intro c _ _ hnot
    rw [hready] at hnot
    cases hnot
  · intro c _ _ hnot
    rw [hready] at hnot
    cases hnot

theorem phase_effect {s s' : Web α} (h : Phase s) (heffect : SyncEffect s s') :
    Phase s' ∧ ¬MakesReady s s' := by
  cases heffect with
  | same hstatus hready hsynced hdeadline hevents hloop =>
      refine ⟨⟨?_, ?_, by rw [hevents]; exact h.once⟩, ?_⟩
      · intro c hin hsyncing hnot
        rw [hdeadline, hsynced]
        exact h.own c (hloop c hin) (hstatus ▸ hsyncing) (hready ▸ hnot)
      · intro c hin hsyncing hnot
        rw [hevents]
        exact h.since c (hloop c hin) (hstatus ▸ hsyncing) (hready ▸ hnot)
      · rintro (⟨hnow, hbefore⟩ | hcount)
        · exact hbefore (hstatus ▸ hnow)
        · exact hcount (by rw [hevents])
  | off new hstatus hevents hnew =>
      refine ⟨⟨?_, ?_, by rw [hevents]; exact oncePerLogin_append h.once hnew⟩, ?_⟩
      · intro c _ hsyncing
        exact absurd hsyncing hstatus.1
      · intro c _ hsyncing
        exact absurd hsyncing hstatus.1
      · rintro (⟨hnow, -⟩ | hcount)
        · exact hstatus.2 hnow
        · refine hcount ?_
          rw [hevents, List.count_append, List.count_eq_zero_of_not_mem hnew, Nat.add_zero]
  | began conn new hstatus hsynced hdeadline hevents hnew hloop =>
      have hnew' : SessionEvent.connected ∉ new ++ [.syncing] := by simpa using hnew
      refine ⟨⟨?_, ?_, by rw [hevents]; exact oncePerLogin_append h.once hnew'⟩, ?_⟩
      · intro c hin _ _
        rw [hdeadline, hsynced, hloop c hin]
        exact ⟨rfl, fun m hm => (nomatch hm)⟩
      · intro c _ _ _ xs ys hsplit
        rw [hevents] at hsplit
        obtain ⟨ys', rfl, -⟩ := split_before hnew' hsplit
        simp
      · rintro (⟨hnow, -⟩ | hcount)
        · rw [hstatus] at hnow
          cases hnow
        · refine hcount ?_
          rw [hevents, List.count_append, List.count_eq_zero_of_not_mem hnew', Nat.add_zero]

theorem markReady_ready (s : Web α) : s.markReady.syncReady = true := by
  unfold Web.markReady
  split
  · assumption
  · rfl

/-- `mark_ready` for the connection in use. -/
theorem once_markReady {s : Web α} (h : Phase s) {c : Nat} (hin : InLoop s c)
    (hsyncing : s.status = .syncing) (hnot : s.syncReady = false) :
    OncePerLogin s.markReady.events := by
  rw [Web.markReady, if_neg (by simp [hnot])]
  exact oncePerLogin_ready h.once (h.since c hin hsyncing hnot)

/-- How a session may become ready. -/
def ReadyBy (s : Web α) (e : Call α) : Prop :=
  ∃ c, InLoop s c ∧ s.status = .syncing ∧ s.syncDeadline = some c ∧
    (e = .deadline ∨ ∃ name, e = .collectionSynced c name ∧
      ∀ name' ∈ allCollections, (name', c) ∈ (name, c) :: s.syncedCollections)

theorem deadline_step {s s' : Web α} (h : Phase s) (hphase : InPhase s .deadline)
    (hstep : s.step .deadline = some s') :
    Phase s' ∧ (MakesReady s s' → ReadyBy s .deadline) := by
  simp only [Web.step] at hstep
  cases hdeadline : s.syncDeadline with
  | none =>
      rw [hdeadline] at hstep
      cases hstep
  | some c =>
      rw [hdeadline] at hstep
      cases hstep
      by_cases hready : s.syncReady = true
      · have hsame : s.markReady = s := by rw [Web.markReady, if_pos hready]
        rw [hsame]
        refine ⟨phase_of_ready hready h.once, ?_⟩
        rintro (⟨hnow, hbefore⟩ | hcount)
        · exact absurd hnow hbefore
        · exact absurd rfl hcount
      · rcases hphase with hready' | ⟨hsyncing, hloop⟩
        · exact absurd hready' hready
        · have hin := hloop c hdeadline
          have honce := once_markReady h hin hsyncing (by simpa using hready)
          exact ⟨phase_of_ready (markReady_ready s) honce, fun _ =>
            ⟨c, hin, hsyncing, hdeadline, .inl rfl⟩⟩

/-- Of a set that is complete, every mark is by the connection in use. -/
theorem allSynced_own {s : Web α} {c : Nat} {name : String}
    (hown : ∀ m ∈ s.syncedCollections, m.2 = c) (hall : (s.marked c name).AllSynced) :
    ∀ name' ∈ allCollections, (name', c) ∈ (name, c) :: s.syncedCollections := by
  intro name' hname
  obtain ⟨m, hm, rfl⟩ := List.mem_map.mp (hall name' hname)
  have hby : m.2 = c := by
    rcases List.mem_cons.mp hm with rfl | hold
    · rfl
    · exact hown m hold
  have hself : (m.1, c) = m := by rw [← hby]
  rw [hself]
  exact hm

theorem collectionSynced_step {s s' : Web α} {c : Nat} {name : String} (h : Phase s)
    (hphase : InPhase s (.collectionSynced c name))
    (hstep : s.step (.collectionSynced c name) = some s') :
    Phase s' ∧ (MakesReady s s' → ReadyBy s (.collectionSynced c name)) := by
  simp only [Web.step] at hstep
  split at hstep
  · cases hstep
    by_cases hready : s.syncReady = true
    · -- too late: the mark is kept, and nothing else happens
      have hsame : s.markCollectionSynced c name = s.marked c name := by
        unfold Web.markCollectionSynced
        split
        · rw [Web.markReady, if_pos (show (s.marked c name).syncReady = true from hready)]
        · rfl
      rw [hsame]
      refine ⟨phase_of_ready (show (s.marked c name).syncReady = true from hready) h.once, ?_⟩
      rintro (⟨hnow, hbefore⟩ | hcount)
      · exact absurd hnow hbefore
      · exact absurd rfl hcount
    · have hnot : s.syncReady = false := by simpa using hready
      rcases hphase with hready' | ⟨hsyncing, hin⟩
      · exact absurd hready' hready
      · obtain ⟨hdeadline, hown⟩ := h.own c hin hsyncing hnot
        have hmarked : Phase (s.marked c name) := by
          refine ⟨?_, h.since, h.once⟩
          intro c' hin' _ _
          have hsame := (h.own c' hin' hsyncing hnot).1
          rw [hdeadline, Option.some.injEq] at hsame
          subst hsame
          refine ⟨hdeadline, ?_⟩
          intro m hm
          rcases List.mem_cons.mp hm with rfl | hold
          · rfl
          · exact hown m hold
        unfold Web.markCollectionSynced
        split
        · next hall =>
            have honce := once_markReady hmarked (show InLoop (s.marked c name) c from hin) hsyncing
              hnot
            exact ⟨phase_of_ready (markReady_ready _) honce, fun _ =>
              ⟨c, hin, hsyncing, hdeadline, .inr ⟨name, rfl, allSynced_own hown hall⟩⟩⟩
        · refine ⟨hmarked, ?_⟩
          rintro (⟨hnow, hbefore⟩ | hcount)
          · exact absurd hnow hbefore
          · exact absurd rfl hcount
  · cases hstep

theorem ready_step {s s' : Web α} {e : Call α} (hone : OneDriver s) (h : Phase s)
    (hphase : InPhase s e) (hstep : s.step e = some s') :
    Phase s' ∧ (MakesReady s s' → ReadyBy s e) := by
  rcases step_syncEffect hone hstep with heffect | rfl | ⟨c, name, rfl⟩
  · obtain ⟨hkept, hnot⟩ := phase_effect h heffect
    exact ⟨hkept, fun hready => absurd hready hnot⟩
  · exact deadline_step h hphase hstep
  · exact collectionSynced_step h hphase hstep

/-! ## 4. Runs -/

theorem phase_new (status : SessionStatus) : Phase (Web.new (α := α) status) := by
  refine ⟨?_, ?_, ?_⟩
  · rintro c ⟨d, hd, -⟩
    cases hd
  · rintro c ⟨d, hd, -⟩
    cases hd
  · intro xs ys zs hsplit
    cases xs <;> cases hsplit

/-- **A session becomes ready by the sync phase of the connection in use**, once for each login, in
    every run in which timers and tasks act for that connection only. -/
theorem ready_is_synced (status : SessionStatus) (calls : List (Call α)) (e : Call α)
    (s s' : Web α) (hphase : Meets Web.step InPhase (Web.new status) (calls ++ [e]))
    (hrun : runFrom Web.step (Web.new status) calls = some s) (hstep : s.step e = some s') :
    (MakesReady s s' → ReadyBy s e) ∧ OncePerLogin s'.events := by
  obtain ⟨hmeets, hlast⟩ := meets_append hphase hrun
  have hkept : OneDriver s ∧ Phase s := by
    refine run_invariant (I := fun s => OneDriver s ∧ Phase s) ?_
      ⟨oneDriver_new status, phase_new status⟩ hmeets hrun
    intro t e t' ht hcond hstep
    exact ⟨step_oneDriver ht.1 hstep, (ready_step ht.1 ht.2 hcond hstep).1⟩
  obtain ⟨hphase', hready⟩ := ready_step hkept.1 hkept.2 hlast.1 hstep
  exact ⟨hready, hphase'.once⟩

/-! ## 5. A connection that stays up -/

/-- The connection is in its loop, in the sync phase that it began or past it. -/
structure Serving (s : Web α) (c : Nat) : Prop where
  loop : InLoop s c
  phase : s.syncReady = true ∨ s.status = .syncing
  timer : ∀ c', s.syncDeadline = some c' → c' = c

/-- Nobody connects, reconnects or logs out, and the driver does not leave its loop. -/
def Undisturbed (c : Nat) : Call α → Prop
  | .connect _ | .reconnect _ | .logout => False
  | .collectionSynced c' _ => c' = c
  | .driver _ e =>
      match e with
      | .frame _ _ | .outgoing | .written => True
      | .heartbeat granted => granted = true
      | _ => False
  | _ => True

theorem inLoop_of_drivers {s s' : Web α} {c : Nat} (hdrivers : s'.drivers = s.drivers)
    (h : InLoop s c) : InLoop s' c := by
  unfold InLoop
  rw [hdrivers]
  exact h

theorem serving_inPhase {s : Web α} {c : Nat} {e : Call α} (h : Serving s c)
    (he : Undisturbed c e) : InPhase s e := by
  cases e with
  | deadline =>
      refine h.phase.imp_right fun hsyncing => ⟨hsyncing, fun c' hc' => ?_⟩
      rw [h.timer c' hc']
      exact h.loop
  | collectionSynced c' name =>
      cases he
      exact h.phase.imp_right fun hsyncing => ⟨hsyncing, h.loop⟩
  | _ => trivial

/-- A driver that stays in the loop of its connection. -/
theorem serving_moveTo {s t : Web α} {d : Driver} {c : Nat} {pos : Await} (hd : d ∈ s.drivers)
    (hdrivers : t.drivers = s.drivers) (hpos : pos = .selecting c ∨ pos = .writing c)
    (hphase : t.syncReady = true ∨ t.status = .syncing)
    (htimer : ∀ c', t.syncDeadline = some c' → c' = c) : Serving (t.moveTo d.id pos) c := by
  refine ⟨⟨⟨d.id, pos, false, false⟩, ?_, hpos⟩, hphase, htimer⟩
  refine mem_moveTo.mpr (.inl ⟨⟨d, ?_, rfl⟩, rfl⟩)
  rw [hdrivers]
  exact hd

theorem loop_of_reply (c : Nat) (reply : Bool) :
    (if reply then Await.writing c else .selecting c) = .selecting c ∨
      (if reply then Await.writing c else .selecting c) = .writing c := by
  cases reply with
  | true => exact .inr rfl
  | false => exact .inl rfl

/-- **A login**: the connection serves from there on. -/
theorem login_serving {s s' : Web α} {id : Nat} {f : Frame} {reply : Bool}
    (hlogin : f = .success ∨ f = .pairSuccess)
    (hstep : s.step (.driver id (.frame f reply)) = some s') : ∃ c, Serving s' c := by
  obtain ⟨d, hfind, hdriver⟩ := Option.bind_eq_some_iff.mp hstep
  have hd := List.mem_of_find?_eq_some hfind
  cases driverStep_cases hdriver with
  | frame _ _ c hpos =>
      have htimer : ∀ c', some c = some c' → c' = c := fun c' h => (Option.some.inj h).symm
      rcases hlogin with rfl | rfl
      · exact ⟨c, serving_moveTo hd rfl (loop_of_reply c reply) (.inr rfl) htimer⟩
      · exact ⟨c, serving_moveTo hd rfl (loop_of_reply c reply) (.inr rfl) htimer⟩

/-- Marking a session ready leaves its drivers, and sets no timer. -/
theorem markReady_frame (s : Web α) : s.markReady.drivers = s.drivers ∧
    ∀ c, s.markReady.syncDeadline = some c → s.syncDeadline = some c := by
  unfold Web.markReady
  split
  · exact ⟨rfl, fun c hc => hc⟩
  · refine ⟨rfl, fun c hc => ?_⟩
    cases hc

/-- A step of a driver, of which only that of the connection acts. -/
theorem serving_driver {s s' : Web α} {c id : Nat} {e : DriverStep α} (hone : OneDriver s)
    (h : Serving s c) (he : Undisturbed c (.driver id e))
    (hstep : s.step (.driver id e) = some s') : Serving s' c := by
  obtain ⟨d, hfind, hdriver⟩ := Option.bind_eq_some_iff.mp hstep
  have hd := List.mem_of_find?_eq_some hfind
  -- the driver that is in a loop is the one of this connection
  have hown : ∀ c', d.pos = .selecting c' ∨ d.pos = .writing c' → c' = c := by
    intro c' hpos
    obtain ⟨d', hd', hpos'⟩ := h.loop
    have hlive : d.pos ≠ .exited := by
      rintro hexited
      rcases hpos with hpos | hpos <;> cases hexited.symm.trans hpos
    by_cases hid : d'.id = d.id
    · rw [hone.eq hd' hd hid] at hpos'
      rcases hpos with hpos | hpos <;> rcases hpos' with hpos' | hpos' <;>
        cases hpos.symm.trans hpos' <;> rfl
    · have hidle := others_idle hone hd hlive hd' hid
      rcases hpos' with hpos' | hpos' <;> rw [hpos'] at hidle <;> cases hidle
  cases driverStep_cases hdriver with
  | frame f reply c' hpos =>
      obtain rfl := hown c' (.inl hpos)
      refine serving_moveTo hd (wiring_processInboundNode s c' f).2 (loop_of_reply c' reply) ?_ ?_
      · cases f with
        | success | pairSuccess => exact .inr rfl
        | halt | reject | restart | other => exact h.phase
      · cases f with
        | success | pairSuccess => exact fun c'' hc'' => (Option.some.inj hc'').symm
        | halt | reject | restart | other => exact h.timer
  | outgoing c' hpos =>
      obtain rfl := hown c' (.inl hpos)
      exact serving_moveTo hd rfl (.inr rfl) h.phase h.timer
  | written c' hpos =>
      obtain rfl := hown c' (.inr hpos)
      exact serving_moveTo hd rfl (.inl rfl) h.phase h.timer
  | renewed c' hpos =>
      obtain rfl := hown c' (.inl hpos)
      exact serving_moveTo hd rfl (.inl rfl) h.phase h.timer
  | leaseLost c' hpos => cases he
  | _ => exact he.elim

/-- **One step** of a connection that nothing disturbs. -/
theorem serving_step {s s' : Web α} {c : Nat} {e : Call α} (hone : OneDriver s) (h : Serving s c)
    (he : Undisturbed c e) (hstep : s.step e = some s') : Serving s' c := by
  cases e with
  | connect granted => exact he.elim
  | reconnect granted => exact he.elim
  | logout => exact he.elim
  | rekey =>
      cases hstep
      obtain ⟨d, hd, hpos⟩ := h.loop
      refine ⟨⟨_, List.mem_map.mpr ⟨d, hd, rfl⟩, ?_⟩, h.phase, h.timer⟩
      rcases hpos with hpos | hpos
      · rw [hpos]
        exact .inl rfl
      · rw [hpos]
        exact .inr hpos
  | enqueue op =>
      cases hstep
      exact ⟨h.loop, h.phase, h.timer⟩
  | pump p =>
      simp only [Web.step] at hstep
      split at hstep
      · obtain ⟨taken, -, rfl⟩ := Option.map_eq_some_iff.mp hstep
        exact ⟨h.loop, h.phase, h.timer⟩
      · cases hstep
  | deadline =>
      simp only [Web.step] at hstep
      split at hstep
      · cases hstep
      · cases hstep
        refine ⟨inLoop_of_drivers (markReady_frame s).1 h.loop, .inl (markReady_ready s), ?_⟩
        intro c' hc'
        cases hc'
  | collectionSynced c' name =>
      simp only [Web.step] at hstep
      split at hstep
      · cases hstep
        unfold Web.markCollectionSynced
        split
        · obtain ⟨hdrivers, htimer⟩ := markReady_frame (s.marked c' name)
          refine ⟨inLoop_of_drivers hdrivers h.loop, .inl (markReady_ready _), fun c'' hc'' => ?_⟩
          exact h.timer c'' (htimer c'' hc'')
        · exact ⟨h.loop, h.phase, h.timer⟩
      · cases hstep
  | driver id e => exact serving_driver hone h he hstep

/-- **From a login on, as long as nothing disturbs the connection**, its timer and its tasks act in
    its sync phase or too late to do anything. -/
theorem serving_run {s : Web α} {c : Nat} {calls : List (Call α)} (hone : OneDriver s)
    (h : Serving s c) (hcalls : ∀ e ∈ calls, Undisturbed c e) :
    Meets Web.step InPhase s calls := by
  induction calls generalizing s with
  | nil => trivial
  | cons e calls ih =>
      have he := hcalls e List.mem_cons_self
      refine ⟨serving_inPhase h he, ?_⟩
      split
      · trivial
      · rename_i s' hstep
        exact ih (step_oneDriver hone hstep) (serving_step hone h he hstep)
          fun e' he' => hcalls e' (List.mem_cons_of_mem _ he')

namespace Sample

/-- A login, whose tasks mark every collection but one. -/
def synced : List (Call Nat) :=
  [.connect true, .driver 0 (.start true), .driver 0 (.handshakeDone []),
    .driver 0 (.frame .success false)] ++
    (allCollections.take 4).map fun name => .collectionSynced 0 name

/-- A login, and the connection is lost before its sync phase ends. -/
def cutShort : List (Call Nat) :=
  [.connect true, .driver 0 (.start true), .driver 0 (.handshakeDone []),
    .driver 0 (.frame .success false), .driver 0 .lost]

end Sample

theorem ready_is_synced_synced :
    ∃ s s', runFrom Web.step (Web.new .pending) Sample.synced = some s ∧
      s.step (.collectionSynced 0 "regular_low") = some s' ∧ s'.status = .connected ∧
      ReadyBy s (.collectionSynced 0 "regular_low") := by
  refine ⟨_, _, rfl, rfl, rfl, ?_⟩
  exact (ready_is_synced .pending Sample.synced (.collectionSynced 0 "regular_low") _ _ (by decide)
    rfl rfl).1 (.inl ⟨rfl, by decide⟩)

/-- **The timer of a connection that is gone**: the session is `connected`, and says so, while its
    driver waits for the next attempt. -/
theorem ready_while_offline :
    ∃ s s', runFrom Web.step (Web.new .pending) Sample.cutShort = some s ∧
      s.step .deadline = some s' ∧ s.status = .disconnected ∧
      s.drivers.map Driver.pos = [.backoff] ∧ MakesReady s s' ∧ ¬ReadyBy s .deadline := by
  refine ⟨_, _, rfl, rfl, rfl, rfl, .inl ⟨rfl, by decide⟩, ?_⟩
  rintro ⟨c, ⟨d, hd, hpos⟩, -⟩
  cases List.mem_singleton.mp hd
  rcases hpos with hpos | hpos <;> cases hpos

end Ruwa.Session
