/-
  File:      Ruwa/Session/Offline.lean
  Subject:   DRAINING THE OFFLINE QUEUE IN PAGES (`session.rs`, `OfflineDrain`): the state of the
             drain belongs to the session and outlives the connection, and a watchdog asks for the
             next page when one goes idle.

  A step is what happens under one lock: the connection task and every watchdog let go of the drain
  between deciding for a request and making it.

  * `Kept` -- what the pages asked for and the state of the drain should be;
  * **`drain_kept`** -- it is, in every run in which a request comes while what it was decided on
    still holds, and no drain is given up on the connection it is for;
  * `watchdog_proper`, `ask_proper`, `giveUp_late` -- what that asks of a watchdog and of the
    connection task where nothing comes between;
  * `drain_outlived` -- a page is asked for on a connection that announced nothing,
    and a page that starts late ends the drain.
-/
import Ruwa.Library.Run

namespace Ruwa.Session.Offline

open Ruwa.Library

/-! ## 1. The drain -/

def offlinePageSize : Nat := 100

/-- In milliseconds, as all times are. -/
def offlinePageIdle : Nat := 1500
def offlinePageStartTimeout : Nat := 15000

structure OfflineDrain where
  active : Bool
  generation : Nat
  announced : Nat
  pageSeen : Nat
  seen : Nat
  pages : Nat
  requestedAt : Option Nat
  lastRx : Option Nat
  deriving DecidableEq

def OfflineDrain.default : OfflineDrain := ⟨false, 0, 0, 0, 0, 0, none, none⟩

/-- A preview starts the drain anew. -/
def OfflineDrain.begin (od : OfflineDrain) (announced : Nat) : OfflineDrain :=
  ⟨true, od.generation + 1, announced, 0, 0, 0, none, none⟩

def OfflineDrain.request (od : OfflineDrain) (now : Nat) : OfflineDrain :=
  { od with pages := od.pages + 1, pageSeen := 0, requestedAt := some now }

def OfflineDrain.note (od : OfflineDrain) (now : Nat) : OfflineDrain :=
  { od with pageSeen := od.pageSeen + 1, seen := od.seen + 1, lastRx := some now }

def OfflineDrain.finish (od : OfflineDrain) : OfflineDrain := { od with active := false }

/-- Some stanza of the page has come, and none for a while. -/
def OfflineDrain.idle (od : OfflineDrain) (now : Nat) : Bool :=
  decide (od.pageSeen ≠ 0) && od.lastRx.any fun t => decide (offlinePageIdle < now - t)

/-- The page has not started. -/
def OfflineDrain.stalled (od : OfflineDrain) (now : Nat) : Bool :=
  decide (od.pageSeen = 0) &&
    od.requestedAt.any fun t => decide (offlinePageStartTimeout < now - t)

/-! ## 2. Connections, the connection task and the watchdogs -/

/-- What has happened on a connection since it was made. -/
structure Line where
  /-- It has announced a queue and not yet sent the end marker. -/
  draining : Bool
  /-- A page was asked for since then. -/
  asked : Bool
  /-- The stanzas of the queue since the last request, and when the last one came. -/
  received : Nat
  lastAt : Option Nat
  deriving DecidableEq

/-- The request that the connection task is about to make. -/
inductive Ask where
  | preview (generation : Nat)
  | pageFull
  deriving DecidableEq

inductive Phase where
  | sleeping
  | idle
  | holding (dispatcher : Nat)
  | stalled
  deriving DecidableEq

structure Watchdog where
  generation : Nat
  phase : Phase
  deriving DecidableEq

/-- A page request that went out, with the connection as it was then. -/
structure PageRequest where
  line : Line
  now : Nat
  deriving DecidableEq

structure World where
  drain : OfflineDrain
  now : Nat
  live : Option (Nat × Line)
  /-- `iq_client`: the dispatcher of the current connection. -/
  client : Option Nat
  connections : Nat
  asking : Option Ask
  watchdogs : List Watchdog
  sent : List PageRequest
  deriving DecidableEq

def World.start : World := ⟨.default, 0, none, none, 0, none, [], []⟩

/-- `send_node`: what is sent on a connection that is gone is dropped. -/
def World.send (w : World) (dispatcher : Nat) : World :=
  match w.live with
  | none => w
  | some (c, line) =>
      if c = dispatcher then
        { w with
          live := some (c, { line with asked := true, received := 0 })
          sent := ⟨line, w.now⟩ :: w.sent }
      else w

def World.requestOfflinePage (w : World) (dispatcher : Nat) : World :=
  if w.drain.active then { w with drain := w.drain.request w.now }.send dispatcher else w

inductive Event where
  | elapse (ms : Nat)
  | connect
  /-- The socket is gone. -/
  | close
  /-- `clear_iq_client` -/
  | clear
  | preview (announced : Nat)
  /-- A stanza with an `offline` attribute. -/
  | stanza
  /-- The end marker. -/
  | offline
  /-- The connection task makes the request it has decided for. -/
  | ask
  /-- Watchdog `i` wakes up, takes the dispatcher, makes its request, or gives up. -/
  | tick (i : Nat)
  | fetch (i : Nat)
  | request (i : Nat)
  | giveUp (i : Nat)
  deriving DecidableEq

/-- What a watchdog decides for; none, if it ends. -/
def World.action (w : World) (generation : Nat) : Option Phase :=
  if !w.drain.active || w.drain.generation ≠ generation then none
  else if w.drain.pageSeen = 0 then
    some (if w.drain.stalled w.now then .stalled else .sleeping)
  else some (if w.drain.idle w.now then .idle else .sleeping)

def World.wake (w : World) (i : Nat) (d : Watchdog) (phase : Phase) : World :=
  { w with watchdogs := w.watchdogs.set i { d with phase := phase } }

def World.quit (w : World) (i : Nat) : World := { w with watchdogs := w.watchdogs.eraseIdx i }

/-- A stanza on the live connection counts toward the page of the drain, whichever it is. -/
def World.noteOfflineStanza (w : World) (c : Nat) (line : Line) : World :=
  let w := { w with
    live := some (c, { line with received := line.received + 1, lastAt := some w.now }) }
  if w.drain.active then
    { w with
      drain := w.drain.note w.now
      asking := if offlinePageSize ≤ w.drain.pageSeen + 1 then some .pageFull else none }
  else w

def World.step (w : World) : Event → Option World
  | .elapse ms => some { w with now := w.now + ms }
  | .connect =>
      if w.live = none ∧ w.client = none then
        some { w with
          live := some (w.connections, ⟨false, false, 0, none⟩)
          client := some w.connections
          connections := w.connections + 1 }
      else none
  | .close =>
      if w.live ≠ none ∧ w.asking = none then some { w with live := none } else none
  | .clear => if w.live = none then some { w with client := none } else none
  | .preview announced =>
      match w.live, w.asking with
      | some (c, _), none =>
          some { w with
            drain := w.drain.begin announced
            live := some (c, ⟨true, false, 0, none⟩)
            asking := some (.preview (w.drain.generation + 1)) }
      | _, _ => none
  | .stanza =>
      match w.live, w.asking with
      | some (c, line), none => some (w.noteOfflineStanza c line)
      | _, _ => none
  | .offline =>
      match w.live, w.asking with
      | some (c, line), none =>
          some { w with
            drain := w.drain.finish
            live := some (c, { line with draining := false }) }
      | _, _ => none
  | .ask =>
      match w.live, w.asking with
      | some (c, _), some (.preview generation) =>
          let w' := { w with asking := none }.requestOfflinePage c
          some { w' with watchdogs := w'.watchdogs ++ [⟨generation, .sleeping⟩] }
      | some (c, _), some .pageFull => some ({ w with asking := none }.requestOfflinePage c)
      | _, _ => none
  | .tick i =>
      match w.watchdogs[i]? with
      | some ⟨generation, .sleeping⟩ =>
          match w.action generation with
          | none => some (w.quit i)
          | some phase => some (w.wake i ⟨generation, .sleeping⟩ phase)
      | _ => none
  | .fetch i =>
      match w.watchdogs[i]? with
      | some ⟨generation, .idle⟩ =>
          match w.client with
          | none => some (w.quit i)
          | some dispatcher => some (w.wake i ⟨generation, .idle⟩ (.holding dispatcher))
      | _ => none
  | .request i =>
      match w.watchdogs[i]? with
      | some ⟨generation, .holding dispatcher⟩ =>
          some ((w.requestOfflinePage dispatcher).wake i ⟨generation, .holding dispatcher⟩ .sleeping)
      | _ => none
  | .giveUp i =>
      match w.watchdogs[i]? with
      | some ⟨generation, .stalled⟩ =>
          if w.drain.generation = generation then some ({ w with drain := w.drain.finish }.quit i)
          else some (w.quit i)
      | _ => none

/-! ## 3. What should be -/

/-- The connection had announced a queue and not ended it, and the page before was full or had gone
    idle. -/
def PageRequest.Valid (r : PageRequest) : Prop :=
  r.line.draining = true ∧
    (r.line.asked = true → offlinePageSize ≤ r.line.received ∨
      (0 < r.line.received ∧ ∃ t ∈ r.line.lastAt, offlinePageIdle < r.now - t))

/-- **Every page was asked for where and when it should be, and the drain is active as long as the
    queue of the live connection has not ended.** -/
structure Kept (w : World) : Prop where
  requests : ∀ r ∈ w.sent, r.Valid
  active : ∀ c line, w.live = some (c, line) → line.draining = true → w.drain.active = true

/-- What each step of a run is asked to meet. -/
def Proper (w : World) : Event → Prop
  -- a page is not completed by a stanza of a connection that has announced nothing
  | .stanza => ∀ p ∈ w.live, p.2.draining = false → w.drain.active = true →
      w.drain.pageSeen + 1 < offlinePageSize
  -- a full page has not been followed up by a watchdog
  | .ask => w.asking = some .pageFull → w.drain.active = true → offlinePageSize ≤ w.drain.pageSeen
  -- a watchdog's page is still idle, and that of the connection it asks on
  | .request i => ∀ d ∈ w.watchdogs[i]?, ∀ p ∈ w.live, d.phase = .holding p.1 →
      w.drain.active = true → p.2.draining = true ∧ w.drain.idle w.now = true
  -- a drain is not given up on the connection it is for
  | .giveUp i => ∀ d ∈ w.watchdogs[i]?, d.generation = w.drain.generation →
      ∀ p ∈ w.live, p.2.draining = false
  | _ => True

instance (w : World) (e : Event) : Decidable (Proper w e) :=
  match e with
  | .stanza => inferInstanceAs (Decidable (∀ p ∈ w.live, _))
  | .ask => inferInstanceAs (Decidable (_ → _))
  | .request i => inferInstanceAs (Decidable (∀ d ∈ w.watchdogs[i]?, _))
  | .giveUp i => inferInstanceAs (Decidable (∀ d ∈ w.watchdogs[i]?, _))
  | .elapse _ | .connect | .close | .clear | .preview _ | .offline | .tick _ | .fetch _ =>
      inferInstanceAs (Decidable True)

/-! ## 4. What such a run keeps -/

structure Sound (w : World) : Prop where
  kept : Kept w
  /-- The count of the drain is not ahead of the connection. -/
  page : ∀ c line, w.live = some (c, line) → line.draining = true →
    w.drain.pageSeen ≤ line.received ∧ (0 < w.drain.pageSeen → w.drain.lastRx = line.lastAt)
  full : w.asking = some .pageFull →
    ∃ c line, w.live = some (c, line) ∧ line.draining = true
  preview : ∀ g, w.asking = some (.preview g) → w.drain.pageSeen = 0 ∧
    ∃ c line, w.live = some (c, line) ∧ line.draining = true ∧ line.asked = false

theorem sound_start : Sound .start :=
  ⟨⟨nofun, nofun⟩, nofun, nofun, nofun⟩

/-- The drain says nothing of the watchdogs. -/
theorem sound_watchdogs {w : World} (h : Sound w) (watchdogs : List Watchdog) :
    Sound { w with watchdogs := watchdogs } :=
  ⟨⟨h.kept.requests, h.kept.active⟩, h.page, h.full, h.preview⟩

/-- Nothing is left to ask for. -/
theorem sound_asked {w : World} (h : Sound w) : Sound { w with asking := none } :=
  ⟨⟨h.kept.requests, h.kept.active⟩, h.page, nofun, nofun⟩

/-- **One request**, made where it should be, and not in place of the one for a preview. -/
theorem sound_request {w : World} (h : Sound w) {dispatcher : Nat}
    (hvalid : w.drain.active = true → ∀ line, w.live = some (dispatcher, line) →
      PageRequest.Valid ⟨line, w.now⟩)
    (hpreview : ∀ g, w.asking = some (.preview g) → w.drain.active = true →
      ∀ line, w.live ≠ some (dispatcher, line)) :
    Sound (w.requestOfflinePage dispatcher) := by
  unfold World.requestOfflinePage
  split
  · rename_i hactive
    unfold World.send
    dsimp only
    split
    · rename_i hlive
      refine ⟨⟨h.kept.requests, fun c line hl => absurd hl (by rw [hlive]; nofun)⟩,
        fun c line hl => absurd hl (by rw [hlive]; nofun), h.full, fun g hg => ⟨rfl, ?_⟩⟩
      exact (h.preview g hg).2
    · rename_i c line hlive
      split
      · -- the connection is there: the request goes out
        rename_i hc
        subst hc
        refine ⟨⟨fun r hr => ?_, fun c' line' hl hdraining => hactive⟩, fun c' line' hl _ => ?_,
          fun hfull => ?_, fun g hg => absurd hlive (hpreview g hg hactive line)⟩
        · rcases List.mem_cons.mp hr with rfl | hr
          · exact hvalid hactive line hlive
          · exact h.kept.requests r hr
        · exact ⟨Nat.zero_le _, fun hpos => absurd hpos (Nat.lt_irrefl 0)⟩
        · obtain ⟨c', line', hl, hdraining⟩ := h.full hfull
          cases hlive.symm.trans hl
          exact ⟨_, _, rfl, hdraining⟩
      · refine ⟨⟨h.kept.requests, fun c' line' hl hdraining => hactive⟩, fun c' line' hl _ => ?_,
          fun hfull => ?_, fun g hg => ⟨rfl, ?_⟩⟩
        · exact ⟨Nat.zero_le _, fun hpos => absurd hpos (Nat.lt_irrefl 0)⟩
        · exact hlive ▸ h.full hfull
        · exact hlive ▸ (h.preview g hg).2
  · exact h

theorem sound_stanza {w : World} (h : Sound w) {c : Nat} {line : Line}
    (hlive : w.live = some (c, line)) (hasking : w.asking = none) (hproper : Proper w .stanza) :
    Sound (w.noteOfflineStanza c line) := by
  unfold World.noteOfflineStanza
  dsimp only
  split
  · rename_i hactive
    refine ⟨⟨h.kept.requests, fun _ _ _ _ => hactive⟩, fun c' line' hl hdraining => ?_,
      fun hfull => ?_, fun g hg => ?_⟩
    · cases hl
      exact ⟨Nat.succ_le_succ (h.page c line hlive hdraining).1, fun _ => rfl⟩
    · refine ⟨c, _, rfl, ?_⟩
      cases hdraining : line.draining with
      | true => rfl
      | false =>
          have hlt := hproper (c, line) hlive hdraining hactive
          rw [if_neg (by omega)] at hfull
          cases hfull
    · dsimp only at hg
      split at hg <;> cases hg
  · rename_i hactive
    refine ⟨⟨h.kept.requests, fun c' line' hl hdraining => ?_⟩, fun c' line' hl hdraining => ?_,
      fun hfull => ?_, fun g hg => ?_⟩
    · cases hl
      exact h.kept.active c line hlive hdraining
    · cases hl
      exact absurd (h.kept.active c line hlive hdraining) hactive
    · exact absurd (hasking.symm.trans hfull) nofun
    · exact absurd (hasking.symm.trans hg) nofun

theorem sound_ask {w w' : World} (h : Sound w) (hproper : Proper w .ask)
    (hstep : w.step .ask = some w') : Sound w' := by
  simp only [World.step] at hstep
  split at hstep
  · rename_i c line generation hlive hasking
    cases hstep
    refine sound_watchdogs (sound_request (sound_asked h) (fun _ line' hl => ?_) nofun) _
    obtain ⟨-, c', line'', hl', hdraining, hasked⟩ := h.preview generation hasking
    cases hl'.symm.trans hl
    exact ⟨hdraining, fun hagain => absurd (hasked.symm.trans hagain) nofun⟩
  · rename_i c line hlive hasking
    cases hstep
    refine sound_request (sound_asked h) (fun hactive line' hl => ?_) nofun
    obtain ⟨c', line'', hl', hdraining⟩ := h.full hasking
    cases hl'.symm.trans hl
    have hpage := (h.page _ _ hl' hdraining).1
    exact ⟨hdraining, fun _ => Or.inl (Nat.le_trans (hproper hasking hactive) hpage)⟩
  · cases hstep

/-- The request of a watchdog, whose page is still idle. -/
theorem sound_watchdog {w : World} (h : Sound w) {dispatcher : Nat}
    (hidle : w.drain.active = true → ∀ line, w.live = some (dispatcher, line) →
      line.draining = true ∧ w.drain.idle w.now = true) :
    Sound (w.requestOfflinePage dispatcher) := by
  have hseen : w.drain.idle w.now = true → w.drain.pageSeen ≠ 0 ∧
      ∃ t, w.drain.lastRx = some t ∧ offlinePageIdle < w.now - t := by
    intro hi
    unfold OfflineDrain.idle at hi
    simp only [Bool.and_eq_true, decide_eq_true_eq, Option.any_eq_true] at hi
    exact hi
  refine sound_request h (fun hactive line hlive => ?_) fun g hg hactive line hlive => ?_
  · obtain ⟨hdraining, hi⟩ := hidle hactive line hlive
    obtain ⟨hpos, t, hlast, hsilent⟩ := hseen hi
    obtain ⟨hle, hsame⟩ := h.page _ line hlive hdraining
    refine ⟨hdraining, fun _ => Or.inr ⟨by dsimp only; omega, t, ?_, hsilent⟩⟩
    rw [← hsame (Nat.pos_of_ne_zero hpos)]
    exact hlast
  · exact (hseen (hidle hactive line hlive).2).1 (h.preview g hg).1

/-- Without an open preview nothing is left to ask for. -/
theorem Sound.asking_none {w : World} (h : Sound w)
    (hover : ∀ c line, w.live = some (c, line) → line.draining = false) : w.asking = none := by
  cases hasking : w.asking with
  | none => rfl
  | some cause =>
      cases cause with
      | preview g =>
          obtain ⟨-, c, line, hlive, hdraining, -⟩ := h.preview g hasking
          exact absurd ((hover c line hlive).symm.trans hdraining) nofun
      | pageFull =>
          obtain ⟨c, line, hlive, hdraining⟩ := h.full hasking
          exact absurd ((hover c line hlive).symm.trans hdraining) nofun

/-- **Without an open preview** the drain may stand as it likes. -/
theorem sound_over {w w' : World} (h : Sound w) (hsent : w'.sent = w.sent)
    (hasking : w'.asking = none)
    (hover : ∀ c line, w'.live = some (c, line) → line.draining = false) : Sound w' := by
  refine ⟨⟨hsent ▸ h.kept.requests, fun c line hlive hdraining => ?_⟩,
    fun c line hlive hdraining => ?_, fun hfull => ?_, fun g hg => ?_⟩
  · exact absurd ((hover c line hlive).symm.trans hdraining) nofun
  · exact absurd ((hover c line hlive).symm.trans hdraining) nofun
  · exact absurd (hasking.symm.trans hfull) nofun
  · exact absurd (hasking.symm.trans hg) nofun

theorem sound_step {w w' : World} {e : Event} (h : Sound w) (hproper : Proper w e)
    (hstep : w.step e = some w') : Sound w' := by
  cases e with
  | elapse ms =>
      cases hstep
      exact ⟨⟨h.kept.requests, h.kept.active⟩, h.page, h.full, h.preview⟩
  | connect =>
      simp only [World.step] at hstep
      split at hstep
      · rename_i hnone
        cases hstep
        have hasking : w.asking = none :=
          h.asking_none fun c line hl => absurd (hnone.1.symm.trans hl) nofun
        refine sound_over h rfl hasking fun c line hl => ?_
        cases hl
        rfl
      · cases hstep
  | close =>
      simp only [World.step] at hstep
      split at hstep
      · rename_i hquiet
        cases hstep
        exact sound_over h rfl hquiet.2 nofun
      · cases hstep
  | clear =>
      simp only [World.step] at hstep
      split at hstep
      · cases hstep
        exact ⟨⟨h.kept.requests, h.kept.active⟩, h.page, h.full, h.preview⟩
      · cases hstep
  | preview announced =>
      simp only [World.step] at hstep
      split at hstep
      · cases hstep
        refine ⟨⟨h.kept.requests, fun _ _ _ _ => rfl⟩, fun c line hl hd => ?_, nofun,
          fun g hg => ⟨rfl, _, _, rfl, rfl, rfl⟩⟩
        exact ⟨Nat.zero_le _, fun hpos => absurd hpos (Nat.lt_irrefl 0)⟩
      · cases hstep
  | stanza =>
      simp only [World.step] at hstep
      split at hstep
      · rename_i c line hlive hasking
        cases hstep
        exact sound_stanza h hlive hasking hproper
      · cases hstep
  | offline =>
      simp only [World.step] at hstep
      split at hstep
      · rename_i c line hlive hasking
        cases hstep
        refine sound_over h rfl hasking fun c' line' hl => ?_
        cases hl
        rfl
      · cases hstep
  | ask => exact sound_ask h hproper hstep
  | tick i =>
      simp only [World.step] at hstep
      split at hstep
      · split at hstep
        · cases hstep
          exact sound_watchdogs h _
        · cases hstep
          exact sound_watchdogs h _
      · cases hstep
  | fetch i =>
      simp only [World.step] at hstep
      split at hstep
      · split at hstep
        · cases hstep
          exact sound_watchdogs h _
        · cases hstep
          exact sound_watchdogs h _
      · cases hstep
  | request i =>
      simp only [World.step] at hstep
      split at hstep
      · rename_i generation dispatcher hi
        cases hstep
        refine sound_watchdogs (sound_watchdog h fun hactive line hlive => ?_) _
        exact hproper ⟨generation, .holding dispatcher⟩ hi (dispatcher, line) hlive rfl hactive
      · cases hstep
  | giveUp i =>
      simp only [World.step] at hstep
      split at hstep
      · rename_i generation hi
        split at hstep
        · rename_i hcurrent
          cases hstep
          have hover : ∀ c line, w.live = some (c, line) → line.draining = false := fun c line hl =>
            hproper ⟨generation, .stalled⟩ hi hcurrent.symm (c, line) hl
          exact sound_over h rfl (h.asking_none hover) hover
        · cases hstep
          exact sound_watchdogs h _
      · cases hstep

/-- **The drain**, over every run of connections, stanzas and watchdogs whose steps are proper. -/
theorem drain_kept {events : List Event} {w : World} (hmeets : Meets World.step Proper .start events)
    (hrun : runFrom World.step .start events = some w) : Kept w :=
  (run_invariant (I := Sound) (fun _ _ _ hs hproper hstep => sound_step hs hproper hstep)
    sound_start hmeets hrun).kept

/-! ## 5. Steps that nothing disturbs -/

/-- A watchdog decides for a request over an idle page of its own drain, and to give up over a page
    that has not started in time. -/
theorem action_cases {w : World} {generation : Nat} {phase : Phase}
    (h : w.action generation = some phase) :
    w.drain.active = true ∧ w.drain.generation = generation ∧
      (phase = .sleeping ∨ (phase = .idle ∧ w.drain.idle w.now = true) ∨
        (phase = .stalled ∧ w.drain.stalled w.now = true)) := by
  unfold World.action at h
  split at h
  · cases h
  · rename_i hcurrent
    simp only [Bool.or_eq_true, Bool.not_eq_true', decide_eq_true_eq, not_or,
      Bool.not_eq_false, Decidable.not_not] at hcurrent
    refine ⟨hcurrent.1, hcurrent.2, ?_⟩
    split at h
    · cases h
      split
      · rename_i hstalled
        exact .inr (.inr ⟨rfl, hstalled⟩)
      · exact .inl rfl
    · cases h
      split
      · rename_i hidle
        exact .inr (.inl ⟨rfl, hidle⟩)
      · exact .inl rfl

/-- **A watchdog that is not interrupted**: it wakes up over an idle page while the live connection
    has an open preview, takes its dispatcher and makes the request. -/
theorem watchdog_proper {w : World} {i generation c : Nat} {line : Line}
    (hi : w.watchdogs[i]? = some ⟨generation, .sleeping⟩)
    (haction : w.action generation = some .idle) (hlive : w.live = some (c, line))
    (hclient : w.client = some c) (hdraining : line.draining = true) :
    Meets World.step Proper w [.tick i, .fetch i, .request i] := by
  have hbound := (List.getElem?_eq_some_iff.mp hi).1
  obtain ⟨-, -, hidle⟩ := action_cases haction
  have hidle : w.drain.idle w.now = true := by simpa using hidle
  have htick : w.step (.tick i) = some (w.wake i ⟨generation, .sleeping⟩ .idle) := by
    simp only [World.step, hi, haction]
  let woken := w.wake i ⟨generation, .sleeping⟩ .idle
  have hwoken : woken.watchdogs[i]? = some ⟨generation, .idle⟩ := List.getElem?_set_self hbound
  have hfetch : woken.step (.fetch i) =
      some (woken.wake i ⟨generation, .idle⟩ (.holding c)) := by
    simp only [World.step, hwoken, show woken.client = some c from hclient]
  refine ⟨trivial, ?_⟩
  rw [htick]
  refine ⟨trivial, ?_⟩
  rw [hfetch]
  refine ⟨fun d _ p hp _ _ => ?_, ?_⟩
  · cases hlive.symm.trans hp
    exact ⟨hdraining, hidle⟩
  · split <;> trivial

/-- **The request of the connection task**, right after the stanza that it was decided on. -/
theorem ask_proper {w w' : World} (hstep : w.step .stanza = some w') : Proper w' .ask := by
  simp only [World.step] at hstep
  split at hstep
  · rename_i c line hlive hasking
    cases hstep
    intro hfull hactive
    unfold World.noteOfflineStanza at hfull hactive ⊢
    dsimp only at hfull hactive ⊢
    split at hfull
    · rename_i hcounted
      rw [if_pos hcounted]
      by_cases hpage : offlinePageSize ≤ w.drain.pageSeen + 1
      · exact hpage
      · dsimp only at hfull
        rw [if_neg hpage] at hfull
        cases hfull
    · cases hasking.symm.trans hfull
  · cases hstep

/-- **A drain is given up** only over a page that was asked for long ago and has not started. -/
theorem giveUp_late {w : World} {generation : Nat} (h : w.action generation = some .stalled) :
    w.drain.pageSeen = 0 ∧
      ∃ t, w.drain.requestedAt = some t ∧ offlinePageStartTimeout < w.now - t := by
  obtain ⟨-, -, hstalled⟩ := action_cases h
  have hstalled : w.drain.stalled w.now = true := by simpa using hstalled
  unfold OfflineDrain.stalled at hstalled
  simp only [Bool.and_eq_true, decide_eq_true_eq, Option.any_eq_true] at hstalled
  exact hstalled

namespace Sample

/-- A page goes idle, the next one is full; then the end. -/
def drained : List Event :=
  [.connect, .preview 101, .ask, .stanza, .elapse 2000, .tick 0, .fetch 0, .request 0] ++
    List.replicate 100 .stanza ++ [.ask, .offline, .close, .clear, .connect, .elapse 2000, .tick 0]

/-- The connection is lost while a page is coming in. -/
def outlived : List Event :=
  [.connect, .preview 300, .ask, .stanza, .close, .clear, .connect, .elapse 2000, .tick 0, .fetch 0,
    .request 0]

/-- The first page takes more than fifteen seconds to start. -/
def late : List Event := [.connect, .preview 300, .ask, .elapse 16000, .tick 0, .giveUp 0]

end Sample

/-- A page is asked for on a connection that has announced nothing, and a page that starts late ends
    the drain of a connection whose queue has not ended. -/
theorem drain_outlived :
    (∃ w, runFrom World.step .start Sample.outlived = some w ∧ ¬Kept w) ∧
      ∃ w, runFrom World.step .start Sample.late = some w ∧ ¬Kept w := by
  have houtlived : (runFrom World.step .start Sample.outlived).any
      (fun w => decide (∃ r ∈ w.sent, r.line.draining = false)) = true := by
    decide +kernel
  have hlate : (runFrom World.step .start Sample.late).any
      (fun w => decide (∃ p ∈ w.live, p.2.draining = true ∧ w.drain.active = false)) = true := by
    decide +kernel
  obtain ⟨w, hw, hfound⟩ := (Option.any_eq_true _ _).mp houtlived
  obtain ⟨r, hr, hquiet⟩ := of_decide_eq_true hfound
  obtain ⟨w', hw', hfound'⟩ := (Option.any_eq_true _ _).mp hlate
  obtain ⟨⟨c, line⟩, hlive, hdraining, hinactive⟩ := of_decide_eq_true hfound'
  refine ⟨⟨w, hw, fun hkept => ?_⟩, w', hw', fun hkept => ?_⟩
  · exact absurd (hquiet.symm.trans (hkept.requests r hr).1) nofun
  · exact absurd (hinactive.symm.trans (hkept.active c line hlive hdraining)) nofun

/-- A page that goes idle, one that is full, and the end marker. -/
theorem drain_kept_drained :
    ∃ w, runFrom World.step .start Sample.drained = some w ∧ w.sent.length = 3 ∧ Kept w := by
  have hrun : ∃ w, runFrom World.step .start Sample.drained = some w ∧ w.sent.length = 3 := by
    obtain ⟨w, hw, hlength⟩ := Option.map_eq_some_iff.mp
      (show (runFrom World.step .start Sample.drained).map (·.sent.length) = some 3 by
        decide +kernel)
    exact ⟨w, hw, hlength⟩
  obtain ⟨w, hw, hlength⟩ := hrun
  have hmeets : Meets World.step Proper .start Sample.drained := by decide +kernel
  exact ⟨w, hw, hlength, drain_kept hmeets hw⟩

end Ruwa.Session.Offline
