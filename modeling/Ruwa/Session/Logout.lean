/-
  File:      Ruwa/Session/Logout.lean
  Subject:   WHEN A LOGOUT IS FINAL.

  `logout` sets the status and wakes whoever waits for `logout_notify` at that moment: a driver in
  its select loop or in its backoff. Nobody else hears of it, and whoever is woken may find
  another branch ready first. The sync phase does not ask for the status at all.

  * **`logout_final`** -- runs in which the driver hears it, and no sync phase ends after it;
  * **`logout_undone`** -- a logout while the driver dials.
-/
import Ruwa.Session.Driver

namespace Ruwa.Session

open Ruwa.Library

variable {α : Type}

/-! ## 1. Being heard -/

/-- Awaits at which a driver hears of a logout, or is past it. -/
def Await.Listens : Await → Prop
  | .selecting _ => True
  | .backoff => True
  | .leaving _ => True
  | .exited => True
  | _ => False

instance (pos : Await) : Decidable pos.Listens := by
  cases pos <;> unfold Await.Listens <;> infer_instance

/-- A logout finds every driver listening; who was woken takes that branch; and while the session
    is logged out no sync phase ends. -/
def Heard (s : Web α) : Call α → Prop
  | .logout => ∀ d ∈ s.drivers, d.pos.Listens
  | .driver id e => ∀ d ∈ s.drivers, d.id = id → d.logoutHeard = true → e = .logoutHeard
  | .deadline => s.status = .loggedOut → s.syncReady = true
  | .collectionSynced conn name =>
      s.status = .loggedOut → s.syncReady = true ∨ ¬(s.marked conn name).AllSynced
  | _ => True

instance [DecidableEq α] (s : Web α) (e : Call α) : Decidable (Heard s e) := by
  cases e <;> unfold Heard <;> infer_instance

/-- An explicit `connect`; `reconnect` comes to one, too. -/
def Call.IsConnect : Call α → Prop
  | .connect _ => True
  | .reconnect _ => True
  | _ => False

instance (e : Call α) : Decidable e.IsConnect := by
  cases e <;> unfold Call.IsConnect <;> infer_instance

/-- The driver was woken and has not gone on, or it is on its way out. -/
def Driver.Parting (d : Driver) : Prop :=
  match d.pos with
  | .selecting _ => d.logoutHeard = true
  | .backoff => d.logoutHeard = true
  | .leaving _ => True
  | .exited => True
  | _ => False

/-- Logged out, and no driver will stay. -/
structure Parted (s : Web α) : Prop where
  status : s.status = .loggedOut
  drivers : ∀ d ∈ s.drivers, d.Parting

/-- No connection was opened since, and no event tells of one. -/
structure Silent (s s' : Web α) : Prop where
  nextConn : s'.nextConn = s.nextConn
  events : ∃ new, s'.events = s.events ++ new ∧
    ∀ ev ∈ new, ev ≠ .connecting ∧ ev ≠ .syncing ∧ ev ≠ .connected

theorem Silent.refl (s : Web α) : Silent s s := ⟨rfl, [], by simp, by simp⟩

theorem Silent.trans {s t u : Web α} (h : Silent s t) (h' : Silent t u) : Silent s u := by
  obtain ⟨new, hnew, hsilent⟩ := h.events
  obtain ⟨new', hnew', hsilent'⟩ := h'.events
  refine ⟨h'.nextConn.trans h.nextConn, new ++ new', by rw [hnew', hnew, List.append_assoc], ?_⟩
  intro ev hev
  rcases List.mem_append.mp hev with hev | hev
  · exact hsilent ev hev
  · exact hsilent' ev hev

/-! ## 2. What a step keeps -/

theorem parted_moveTo {s : Web α} (h : Parted s) (id : Nat) {pos : Await}
    (hpos : (⟨id, pos, false, false⟩ : Driver).Parting) : Parted (s.moveTo id pos) := by
  refine ⟨h.status, ?_⟩
  intro d hd
  obtain ⟨d', hd', rfl⟩ := List.mem_map.mp hd
  split
  · exact hpos
  · exact h.drivers d' hd'

theorem parted_logout {s : Web α} (h : ∀ d ∈ s.drivers, d.pos.Listens) :
    Parted s.logout ∧ Silent s s.logout := by
  refine ⟨⟨rfl, ?_⟩, rfl, [.loggedOut], rfl, by simp⟩
  intro d hd
  obtain ⟨d', hd', rfl⟩ := List.mem_map.mp hd
  have hlistens := h d' hd'
  unfold Driver.Parting
  cases hpos : d'.pos <;> rw [hpos] at hlistens <;> simp_all [Await.Listens]

/-- A driver that hears the logout, or is on its way out, stays silent. -/
theorem parted_driver {s s' : Web α} {d : Driver} {e : DriverStep α} (h : Parted s)
    (hd : d ∈ s.drivers) (hheard : d.logoutHeard = true → e = .logoutHeard)
    (hstep : s.driverStep d e = some s') : Parted s' ∧ Silent s s' := by
  have hparting := h.drivers d hd
  unfold Driver.Parting at hparting
  cases driverStep_cases hstep with
  | started hpos | proxyFailed hpos | dialFailed hpos | handshakeDone _ hpos | written _ hpos
  | closed _ hpos => simp [hpos] at hparting
  | frame _ _ _ hpos | outgoing _ hpos | reconnectHeard _ hpos | renewed _ hpos | leaseLost _ hpos
  | backoffOver hpos =>
      -- Whoever was woken takes another branch.
      simp only [hpos] at hparting
      cases hheard hparting
  | lost _ hpos =>
      rcases hpos with hpos | hpos <;> simp only [hpos] at hparting
      cases hheard hparting
  | woken | wokenIdle =>
      exact ⟨parted_moveTo h d.id trivial, rfl, [], by simp [Web.moveTo], by simp⟩
  | left =>
      have hcleanup : Parted s.cleanup := ⟨h.status, h.drivers⟩
      exact ⟨parted_moveTo hcleanup d.id trivial, rfl, [],
        by simp [Web.moveTo, Web.cleanup, Web.resetSendQueue], by simp⟩
  | finish =>
      refine ⟨⟨h.status, ?_⟩, rfl, [], by simp, by simp⟩
      intro d' hd'
      exact h.drivers d' (List.mem_of_mem_filter hd')

theorem parted_step {s s' : Web α} {e : Call α} (h : Parted s) (hheard : Heard s e)
    (hconnect : ¬e.IsConnect) (hstep : s.step e = some s') : Parted s' ∧ Silent s s' := by
  cases e with
  | connect granted => exact absurd trivial hconnect
  | reconnect granted => exact absurd trivial hconnect
  | rekey =>
      cases hstep
      refine ⟨⟨h.status, ?_⟩, rfl, [], by simp [Web.requestReconnect], by simp⟩
      intro d hd
      obtain ⟨d', hd', rfl⟩ := List.mem_map.mp hd
      have hparting := h.drivers d' hd'
      unfold Driver.Parting at hparting ⊢
      cases hpos : d'.pos <;> simp_all
  | logout =>
      cases hstep
      exact parted_logout hheard
  | enqueue op =>
      cases hstep
      exact ⟨⟨h.status, h.drivers⟩, rfl, [], by simp [Web.enqueueSend], by simp⟩
  | pump p =>
      simp only [Web.step] at hstep
      split at hstep
      · obtain ⟨taken, -, rfl⟩ := Option.map_eq_some_iff.mp hstep
        exact ⟨⟨h.status, h.drivers⟩, rfl, [], by simp, by simp⟩
      · cases hstep
  | deadline =>
      have hready : s.syncReady = true := hheard h.status
      simp only [Web.step] at hstep
      split at hstep
      · cases hstep
      · cases hstep
        rw [Web.markReady, if_pos hready]
        exact ⟨⟨h.status, h.drivers⟩, rfl, [], by simp, by simp⟩
  | collectionSynced conn name =>
      have hmarked : Parted (s.marked conn name) ∧ Silent s (s.marked conn name) :=
        ⟨⟨h.status, h.drivers⟩, rfl, [], by simp [Web.marked], by simp⟩
      simp only [Web.step] at hstep
      split at hstep
      · cases hstep
        unfold Web.markCollectionSynced
        rcases hheard h.status with hready | hmissing
        · split
          · rw [Web.markReady, if_pos (show (s.marked conn name).syncReady = true from hready)]
            exact hmarked
          · exact hmarked
        · rw [if_neg hmissing]
          exact hmarked
      · cases hstep
  | driver id e =>
      obtain ⟨d, hfind, hdriver⟩ := Option.bind_eq_some_iff.mp hstep
      have hd := List.mem_of_find?_eq_some hfind
      have hid : d.id = id := by simpa using List.find?_some hfind
      exact parted_driver h hd (hheard d hd hid) hdriver

/-! ## 3. Runs -/

/-- **A logout that is heard is final** until the next `connect`. -/
theorem logout_final (s s' : Web α) (calls : List (Call α))
    (hheard : Meets Web.step Heard s (.logout :: calls)) (hconnect : ∀ e ∈ calls, ¬e.IsConnect)
    (hrun : runFrom Web.step s (.logout :: calls) = some s') :
    s'.status = .loggedOut ∧
      (∀ d ∈ s'.drivers, d.pos ≠ .spawned ∧ d.pos ≠ .dialing) ∧
      s'.nextConn = s.nextConn ∧
      ∃ new, s'.events = s.events ++ new ∧
        ∀ ev ∈ new, ev ≠ .connecting ∧ ev ≠ .syncing ∧ ev ≠ .connected := by
  obtain ⟨mid, hstep, hrest⟩ := runFrom_cons hrun
  obtain ⟨hlisten, hmeets⟩ := meets_cons hheard hstep
  cases hstep
  have hkept : Parted s' ∧ Silent s s' := by
    refine run_invariant (I := fun t => Parted t ∧ Silent s t) ?_ (parted_logout hlisten)
      (meets_and hmeets hconnect) hrest
    intro t e t' ht hcond hstep
    obtain ⟨hparted, hsilent⟩ := parted_step ht.1 hcond.1 hcond.2 hstep
    exact ⟨hparted, ht.2.trans hsilent⟩
  refine ⟨hkept.1.status, ?_, hkept.2.nextConn, hkept.2.events⟩
  intro d hd
  have hparting := hkept.1.drivers d hd
  unfold Driver.Parting at hparting
  cases hpos : d.pos <;> simp_all

namespace Sample

/-- A session in use. -/
def inUse : Web Nat :=
  (runFrom Web.step (Web.new .pending) [.connect true, .driver 0 (.start true),
    .driver 0 (.handshakeDone []), .driver 0 (.frame .success false), .deadline]).getD
      (Web.new .pending)

/-- The driver hears the logout, says good-bye and returns. -/
def parting : List (Call Nat) := [.driver 0 .logoutHeard, .driver 0 .left, .driver 0 .finish]

/-- A session whose driver dials. -/
def dialing : Web Nat :=
  (runFrom Web.step (Web.new .pending) [.connect true, .driver 0 (.start true)]).getD
    (Web.new .pending)

/-- The handshake goes on after the logout, and the sync phase after it. -/
def goingOn : List (Call Nat) :=
  [.driver 0 (.handshakeDone []), .driver 0 (.frame .success false), .deadline]

end Sample

theorem logout_final_parting :
    Sample.inUse.status = .connected ∧
      ∃ s', runFrom Web.step Sample.inUse (.logout :: Sample.parting) = some s' ∧
        s'.status = .loggedOut := by
  refine ⟨rfl, _, rfl, ?_⟩
  exact (logout_final Sample.inUse _ Sample.parting (by decide) (by decide) rfl).1

/-- **A logout while the driver dials is undone**: the session ends up connected. -/
theorem logout_undone :
    ∃ s', runFrom Web.step Sample.dialing (.logout :: Sample.goingOn) = some s' ∧
      s'.status = .connected ∧
      s'.events = Sample.dialing.events ++ [.loggedOut, .connecting, .syncing, .connected] :=
  ⟨_, rfl, rfl, rfl⟩

end Ruwa.Session
