/-
  File:      Ruwa/Cloud/Status.lean
  Subject:   THE STATUS OF A CLOUD MESSAGE while webhooks, echoes and API sends overlap.

  A handler changes the row first and emits its event after, and another handler may run between
  the two. Each part is one step of `World`.

  * `ingestStatuses_run`, `ingestEchoes_run`, `cloudRecordOutbound_run` -- the handlers of
    `Cloud/Ingest.lean` are runs of such steps;
  * **`status_is_maximum`** -- from its insertion on, a row holds the furthest status reported;
  * **`lifecycle_once`**, **`lifecycle_in_order`** -- what is emitted for it.
-/
import Ruwa.Cloud.Ingest
import Ruwa.Library.Run
import Mathlib.Data.List.Nodup

namespace Ruwa.Cloud

open Ruwa.Session Ruwa.Library Ruwa.Library.Text

/-! ## 1. Handlers in parts -/

/-- What is left to do of a handler that was interrupted. -/
inductive Task
  | insertEcho (e : OutboundEcho)
  | emit (events : List SessionEvent)
  deriving DecidableEq

structure World where
  session : CloudSession
  pending : List Task
  deriving DecidableEq

inductive Part
  | status (u : StatusUpdate)
  | echo (e : OutboundEcho)
  | record (chatJid wamid senderJid : String) (content : CloudKindPayload) (timestamp : Int)
  | go (i : Nat)

def World.withRows (w : World) (rows : List MessageRow) : World :=
  { w with session := { w.session with rows := rows } }

def World.defer (w : World) (t : Task) : World := { w with pending := w.pending ++ [t] }

/-- The task goes on for one part; what is left of it stays in its place. -/
def World.resume (w : World) (i : Nat) : Task → World
  | .emit [] => w
  | .emit (ev :: evs) => { session := w.session.emit ev, pending := w.pending.set i (.emit evs) }
  | .insertEcho e =>
      match messageInsert w.session.rows (e.newMessage w.session.jid) false with
      | .error _ => { w with pending := w.pending.set i (.emit []) }
      | .ok rows =>
          { w.withRows rows with
            pending := w.pending.set i
              (.emit [.message e.wamid (toJid (trim e.recipient)) (w.session.jid.getD "self"),
                .messageSent e.wamid (toJid (trim e.recipient))]) }

def World.step (w : World) : Part → Option World
  | .status u =>
      match u.reported with
      | none => some w
      | some status =>
          let (moved, rows) := messageAdvanceStatus w.session.rows u.wamid status
          some (if moved then (w.withRows rows).defer (.emit [u.event status]) else w)
  | .echo e =>
      if trim e.recipient = [] then some w
      else if messageExists w.session.rows (toJid (trim e.recipient)) e.wamid then some w
      else some (w.defer (.insertEcho e))
  | .record chatJid wamid senderJid content timestamp =>
      match messageInsert w.session.rows
          (outboundMessage chatJid wamid senderJid content timestamp) false with
      | .error _ => some w
      | .ok rows => some ((w.withRows rows).defer (.emit [.messageSent wamid chatJid]))
  | .go i => (w.pending[i]?).map (w.resume i)

/-! ## 2. The handlers are runs -/

/-- A handler from start to end, with none between its parts, is a run that leaves tasks with
    nothing to do. -/
def IsRunOf (f : CloudSession → CloudSession) : Prop :=
  ∀ s pending, ∃ parts idle, runFrom World.step ⟨s, pending⟩ parts =
    some ⟨f s, pending ++ List.replicate idle (.emit [])⟩

theorem isRunOf_comp {f g : CloudSession → CloudSession} (hf : IsRunOf f) (hg : IsRunOf g) :
    IsRunOf fun s => g (f s) := by
  intro s pending
  obtain ⟨parts, n, h⟩ := hf s pending
  obtain ⟨parts', n', h'⟩ := hg (f s) (pending ++ List.replicate n (.emit []))
  refine ⟨parts ++ parts', n + n', ?_⟩
  rw [runFrom_append, h, ← List.replicate_append_replicate, ← List.append_assoc]
  exact h'

theorem isRunOf_foldl {α : Type} {f : CloudSession → α → CloudSession}
    (hf : ∀ a, IsRunOf fun s => f s a) (as : List α) : IsRunOf fun s => as.foldl f s := by
  induction as with
  | nil => exact fun s pending => ⟨[], 0, by simp [runFrom]⟩
  | cons a as ih => exact isRunOf_comp (hf a) ih

theorem cloudIngestStatus_run (u : StatusUpdate) : IsRunOf fun s => cloudIngestStatus s u := by
  intro s pending
  unfold cloudIngestStatus
  cases hreported : u.reported with
  | none => exact ⟨[], 0, by simp [runFrom]⟩
  | some status =>
      cases hmoved : messageAdvanceStatus s.rows u.wamid status with
      | mk moved rows =>
          cases moved with
          | false => exact ⟨[], 0, by simp [runFrom, hmoved]⟩
          | true =>
              refine ⟨[.status u, .go pending.length], 1, ?_⟩
              simp [runFrom, World.step, hreported, hmoved, World.withRows, World.defer,
                World.resume]

theorem cloudIngestOutboundEcho_run (e : OutboundEcho) :
    IsRunOf fun s => cloudIngestOutboundEcho s e := by
  intro s pending
  unfold cloudIngestOutboundEcho
  by_cases hto : trim e.recipient = []
  · exact ⟨[], 0, by simp [runFrom, hto]⟩
  · cases hexists : messageExists s.rows (toJid (trim e.recipient)) e.wamid with
    | true => exact ⟨[], 0, by simp [runFrom, hexists]⟩
    | false =>
        cases hinsert : messageInsert s.rows (e.newMessage s.jid) false with
        | error err =>
            refine ⟨[.echo e, .go pending.length], 1, ?_⟩
            simp [runFrom, World.step, World.defer, World.resume, hto, hexists, hinsert]
        | ok rows =>
            refine ⟨[.echo e, .go pending.length, .go pending.length, .go pending.length], 1, ?_⟩
            simp [runFrom, World.step, World.defer, World.resume, World.withRows,
              CloudSession.emit, hto, hexists, hinsert]

/-- **What a batch does to messages of the business is a run of parts.** -/
theorem ingestEchoes_run (echoes : List OutboundEcho) (statuses : List StatusUpdate) :
    IsRunOf fun s => statuses.foldl cloudIngestStatus (echoes.foldl cloudIngestOutboundEcho s) :=
  isRunOf_comp (isRunOf_foldl cloudIngestOutboundEcho_run echoes)
    (isRunOf_foldl cloudIngestStatus_run statuses)

theorem cloudRecordOutbound_run {s s' : CloudSession} {chatJid wamid senderJid : String}
    {content : CloudKindPayload} {timestamp : Int} (pending : List Task)
    (h : cloudRecordOutbound s chatJid wamid senderJid content timestamp = .ok s') :
    ∃ parts, runFrom World.step ⟨s, pending⟩ parts = some ⟨s', pending ++ [.emit []]⟩ := by
  refine ⟨[.record chatJid wamid senderJid content timestamp, .go pending.length], ?_⟩
  unfold cloudRecordOutbound at h
  split at h
  · cases h
  · next rows hinsert =>
      cases h
      simp [runFrom, World.step, World.defer, World.resume, World.withRows, hinsert]

/-! ## 3. What one part changes for one message -/

/-- The rank an event announces for the message. -/
def SessionEvent.told (wamid : String) : SessionEvent → Option Nat
  | .message _ _ _ => none
  | .messageSent id _ => if id = wamid then some MessageStatus.sent.rank else none
  | .messageDelivered id _ => if id = wamid then some MessageStatus.delivered.rank else none
  | .messageRead id _ => if id = wamid then some MessageStatus.read.rank else none
  | .messageFailed id _ _ => if id = wamid then some MessageStatus.failed.rank else none

def toldBy (wamid : String) (events : List SessionEvent) : List Nat :=
  events.filterMap (SessionEvent.told wamid)

def Task.unsent (wamid : String) : Task → List Nat
  | .insertEcho _ => []
  | .emit events => toldBy wamid events

/-- What was announced for the message, oldest first. -/
def World.told (w : World) (wamid : String) : List Nat := toldBy wamid w.session.events

/-- What handlers have decided to announce for it, and have not sent yet. -/
def World.unsent (w : World) (wamid : String) : List Nat := w.pending.flatMap (Task.unsent wamid)

/-- The status a part reports for the message. -/
def Part.reports (wamid : String) : Part → Option MessageStatus
  | .status u => if u.wamid = wamid then u.reported else none
  | _ => none

/-- The chat a part files the message under. -/
def Part.files (wamid : String) : Part → Option String
  | .echo e => if e.wamid = wamid then some (toJid (trim e.recipient)) else none
  | .record chatJid id _ _ _ => if id = wamid then some chatJid else none
  | _ => none

/-- All that a part can do to the rows of a message and to what is announced for it. -/
inductive Effect (wamid : String) (w : World) (p : Part) (w' : World) : Prop
  | none
      (hrows : rowsOf wamid w'.session.rows = rowsOf wamid w.session.rows)
      (htold : w'.told wamid = w.told wamid) (hunsent : w'.unsent wamid = w.unsent wamid)
      (hlow : ∀ status, p.reports wamid = some status →
        ∀ row ∈ rowsOf wamid w.session.rows, status.rank ≤ row.status.rank)
  | raised (status : MessageStatus)
      (hreports : p.reports wamid = some status)
      (hmoved : ∃ row ∈ rowsOf wamid w.session.rows, row.status.rank < status.rank)
      (hrows : rowsOf wamid w'.session.rows =
        (rowsOf wamid w.session.rows).map fun row => row.raise status)
      (htold : w'.told wamid = w.told wamid)
      (hunsent : w'.unsent wamid = w.unsent wamid ++ [status.rank])
  | inserted (m : NewMessage) (before after : List Nat)
      (hreports : p.reports wamid = Option.none) (hid : m.messageId = wamid)
      (hstatus : m.status = some .sent)
      (hfiles : p.files wamid = some m.chatJid ∨
        ∃ e, Task.insertEcho e ∈ w.pending ∧ e.wamid = wamid ∧ toJid (trim e.recipient) = m.chatJid)
      (hnew : ∀ row ∈ w.session.rows, ¬row.HasKey m.chatJid wamid)
      (hrows : rowsOf wamid w'.session.rows = rowsOf wamid w.session.rows ++ [m.row])
      (htold : w'.told wamid = w.told wamid) (hbefore : w.unsent wamid = before ++ after)
      (hunsent : w'.unsent wamid = before ++ MessageStatus.sent.rank :: after)
  | sent (before said after : List Nat)
      (hreports : p.reports wamid = Option.none)
      (hrows : rowsOf wamid w'.session.rows = rowsOf wamid w.session.rows)
      (htold : w'.told wamid = w.told wamid ++ said)
      (hbefore : w.unsent wamid = before ++ (said ++ after))
      (hunsent : w'.unsent wamid = before ++ after)

theorem toldBy_append (wamid : String) (events events' : List SessionEvent) :
    toldBy wamid (events ++ events') = toldBy wamid events ++ toldBy wamid events' :=
  List.filterMap_append

theorem toldBy_nil (wamid : String) : toldBy wamid [] = [] := rfl

theorem toldBy_cons (wamid : String) (ev : SessionEvent) (events : List SessionEvent) :
    toldBy wamid (ev :: events) = (ev.told wamid).toList ++ toldBy wamid events := by
  unfold toldBy
  cases h : ev.told wamid <;> simp [h]

theorem unsent_defer (w : World) (wamid : String) (t : Task) :
    (w.defer t).unsent wamid = w.unsent wamid ++ t.unsent wamid := by
  simp [World.unsent, World.defer]

theorem told_event {u : StatusUpdate} {status : MessageStatus} (h : u.reported = some status)
    (wamid : String) :
    (u.event status).told wamid = if u.wamid = wamid then some status.rank else none := by
  unfold StatusUpdate.reported at h
  split at h <;> cases h <;> rfl

/-- The list around the task that goes on. -/
theorem pending_split {w : World} {i : Nat} {t : Task} (h : w.pending[i]? = some t) :
    ∃ before after, w.pending = before ++ t :: after ∧
      ∀ t', w.pending.set i t' = before ++ t' :: after := by
  obtain ⟨hlt, rfl⟩ := List.getElem?_eq_some_iff.mp h
  refine ⟨w.pending.take i, w.pending.drop (i + 1), ?_, ?_⟩
  · simp
  · intro t'
    exact List.set_eq_take_append_cons_drop.trans (if_pos hlt)

theorem step_status {w w' : World} {u : StatusUpdate} (wamid : String)
    (h : w.step (.status u) = some w') : Effect wamid w (.status u) w' := by
  unfold World.step at h
  simp only at h
  cases hreported : u.reported with
  | none =>
      rw [hreported] at h
      cases h
      refine .none rfl rfl rfl ?_
      intro status hstatus
      simp [Part.reports, hreported] at hstatus
  | some status =>
      rw [hreported] at h
      simp only [Option.some.injEq] at h
      by_cases hid : u.wamid = wamid
      · subst hid
        split at h
        · next hmoved =>
            subst h
            refine .raised status (by simp [Part.reports, hreported]) ?_
              (rowsOf_advance u.wamid w.session.rows status) rfl ?_
            · simp only [messageAdvanceStatus, List.any_eq_true, decide_eq_true_eq] at hmoved
              obtain ⟨row, hrow, hid, hlt⟩ := hmoved
              exact ⟨row, mem_rowsOf.mpr ⟨hrow, hid⟩, hlt⟩
            · rw [unsent_defer]
              simp [Task.unsent, toldBy, told_event hreported, World.unsent, World.withRows]
        · next hmoved =>
            subst h
            refine .none rfl rfl rfl ?_
            intro status' hstatus row hrow
            simp only [Part.reports, if_pos, hreported, Option.some.injEq] at hstatus
            subst hstatus
            simp only [messageAdvanceStatus, List.any_eq_true, decide_eq_true_eq] at hmoved
            obtain ⟨hrow, hid⟩ := mem_rowsOf.mp hrow
            exact Nat.le_of_not_lt fun hlt => hmoved ⟨row, hrow, hid, hlt⟩
      · have hnone : ∀ status', Part.reports wamid (.status u) = some status' →
            ∀ row ∈ rowsOf wamid w.session.rows, status'.rank ≤ row.status.rank := by
          intro status' hstatus
          simp [Part.reports, hid] at hstatus
        split at h
        · subst h
          refine .none (rowsOf_advance_ne hid w.session.rows status) rfl ?_ hnone
          rw [unsent_defer]
          simp [Task.unsent, toldBy, told_event hreported, hid, World.unsent, World.withRows]
        · subst h
          exact .none rfl rfl rfl hnone

theorem rowsOf_insert (wamid : String) (rows : List MessageRow) (m : NewMessage) :
    rowsOf wamid (rows ++ [m.row]) =
      rowsOf wamid rows ++ if m.messageId = wamid then [m.row] else [] := by
  rw [rowsOf_append]
  congr 1
  unfold rowsOf
  by_cases h : m.messageId = wamid <;> simp [NewMessage.row, h]

theorem step_echo {w w' : World} {e : OutboundEcho} (wamid : String)
    (h : w.step (.echo e) = some w') : Effect wamid w (.echo e) w' := by
  have hnone : ∀ status, Part.reports wamid (.echo e) = some status →
      ∀ row ∈ rowsOf wamid w.session.rows, status.rank ≤ row.status.rank := by
    intro status hstatus
    cases hstatus
  simp only [World.step] at h
  split at h
  · cases h
    exact .none rfl rfl rfl hnone
  · split at h
    · cases h
      exact .none rfl rfl rfl hnone
    · cases h
      refine .none rfl rfl ?_ hnone
      rw [unsent_defer]
      exact List.append_nil _

theorem step_record {w w' : World} {chatJid id senderJid : String} {content : CloudKindPayload}
    {timestamp : Int} (wamid : String)
    (h : w.step (.record chatJid id senderJid content timestamp) = some w') :
    Effect wamid w (.record chatJid id senderJid content timestamp) w' := by
  have hnone : ∀ status, Part.reports wamid (.record chatJid id senderJid content timestamp) =
      some status → ∀ row ∈ rowsOf wamid w.session.rows, status.rank ≤ row.status.rank := by
    intro status hstatus
    cases hstatus
  simp only [World.step] at h
  split at h
  · cases h
    exact .none rfl rfl rfl hnone
  · next rows hinsert =>
      cases h
      obtain ⟨hnew, rfl⟩ := messageInsert_false hinsert
      have hrows := rowsOf_insert wamid w.session.rows
        (outboundMessage chatJid id senderJid content timestamp)
      by_cases hid : id = wamid
      · subst hid
        refine .inserted (outboundMessage chatJid id senderJid content timestamp) (w.unsent id) []
          rfl rfl rfl (.inl ?_) hnew ?_ rfl (List.append_nil _).symm ?_
        · simp [Part.files, outboundMessage]
        · rw [if_pos (show (outboundMessage chatJid id senderJid content timestamp).messageId = id
            from rfl)] at hrows
          exact hrows
        · rw [unsent_defer]
          simp [Task.unsent, toldBy, SessionEvent.told, World.unsent, World.withRows]
      · have hother : (outboundMessage chatJid id senderJid content timestamp).messageId ≠ wamid :=
          hid
        rw [if_neg hother, List.append_nil] at hrows
        refine .none hrows rfl ?_ hnone
        rw [unsent_defer]
        simp [Task.unsent, toldBy, SessionEvent.told, World.unsent, World.withRows, hid]

/-- An echo goes on with its row: it is inserted, or another has inserted it since. -/
theorem resume_insertEcho {w : World} {i : Nat} {e : OutboundEcho}
    (hget : w.pending[i]? = some (.insertEcho e)) (wamid : String) :
    Effect wamid w (.go i) (w.resume i (.insertEcho e)) := by
  have hnone : ∀ status, Part.reports wamid (.go i) = some status →
      ∀ row ∈ rowsOf wamid w.session.rows, status.rank ≤ row.status.rank := by
    intro status hstatus
    cases hstatus
  obtain ⟨before, after, hpending, hset⟩ := pending_split hget
  have hunsent : w.unsent wamid =
      before.flatMap (Task.unsent wamid) ++ after.flatMap (Task.unsent wamid) := by
    simp [World.unsent, hpending, Task.unsent]
  simp only [World.resume]
  split
  · refine .none rfl rfl ?_ hnone
    rw [hunsent]
    simp [World.unsent, hset, Task.unsent, toldBy]
  · next rows hinsert =>
      obtain ⟨hnew, rfl⟩ := messageInsert_false hinsert
      have hrows := rowsOf_insert wamid w.session.rows (e.newMessage w.session.jid)
      by_cases hid : e.wamid = wamid
      · subst hid
        rw [if_pos (show (e.newMessage w.session.jid).messageId = e.wamid from rfl)] at hrows
        refine .inserted (e.newMessage w.session.jid) _ _ rfl rfl rfl
          (.inr ⟨e, List.mem_of_getElem? hget, rfl, rfl⟩) hnew hrows rfl hunsent ?_
        simp [World.unsent, hset, Task.unsent, toldBy_cons, toldBy_nil, SessionEvent.told]
      · have hother : (e.newMessage w.session.jid).messageId ≠ wamid := hid
        rw [if_neg hother, List.append_nil] at hrows
        refine .none hrows rfl ?_ hnone
        rw [hunsent]
        simp [World.unsent, hset, Task.unsent, toldBy_cons, toldBy_nil, SessionEvent.told, hid]

theorem resume_emit {w : World} {i : Nat} {events : List SessionEvent}
    (hget : w.pending[i]? = some (.emit events)) (wamid : String) :
    Effect wamid w (.go i) (w.resume i (.emit events)) := by
  cases events with
  | nil =>
      refine .none rfl rfl rfl ?_
      intro status hstatus
      cases hstatus
  | cons ev evs =>
      obtain ⟨before, after, hpending, hset⟩ := pending_split hget
      refine .sent (before.flatMap (Task.unsent wamid)) (ev.told wamid).toList
        (toldBy wamid evs ++ after.flatMap (Task.unsent wamid)) rfl rfl ?_ ?_ ?_
      · simp only [World.told, World.resume, CloudSession.emit, toldBy_append]
        rw [toldBy_cons]
        simp [toldBy]
      · simp [World.unsent, hpending, Task.unsent, toldBy_cons]
      · simp [World.unsent, World.resume, hset, Task.unsent]

theorem step_effect {w w' : World} {p : Part} (wamid : String) (h : w.step p = some w') :
    Effect wamid w p w' := by
  cases p with
  | status u => exact step_status wamid h
  | echo e => exact step_echo wamid h
  | record chatJid id senderJid content timestamp => exact step_record wamid h
  | go i =>
      obtain ⟨t, hget, rfl⟩ := Option.map_eq_some_iff.mp h
      cases t with
      | insertEcho e => exact resume_insertEcho hget wamid
      | emit events => exact resume_emit hget wamid

/-- An echo that is about to be inserted was found unknown before. -/
theorem step_echoes {w w' : World} {p : Part} (h : w.step p = some w') {e : OutboundEcho}
    (he : Task.insertEcho e ∈ w'.pending) : Task.insertEcho e ∈ w.pending ∨ p = .echo e := by
  cases p with
  | status u =>
      simp only [World.step] at h
      split at h
      · cases h
        exact .inl he
      · simp only [Option.some.injEq] at h
        split at h
        · subst h
          exact .inl (by simpa [World.defer, World.withRows] using he)
        · subst h
          exact .inl he
  | echo e' =>
      simp only [World.step] at h
      split at h
      · cases h
        exact .inl he
      · split at h
        · cases h
          exact .inl he
        · cases h
          rcases List.mem_append.mp he with hold | hnew
          · exact .inl hold
          · cases List.mem_singleton.mp hnew
            exact .inr rfl
  | record chatJid id senderJid content timestamp =>
      simp only [World.step] at h
      split at h
      · cases h
        exact .inl he
      · cases h
        exact .inl (by simpa [World.defer, World.withRows] using he)
  | go i =>
      obtain ⟨t, hget, rfl⟩ := Option.map_eq_some_iff.mp h
      have hset : ∀ events, Task.insertEcho e ∈ w.pending.set i (.emit events) →
          Task.insertEcho e ∈ w.pending := by
        intro events hmem
        rcases List.mem_or_eq_of_mem_set hmem with hold | hnew
        · exact hold
        · cases hnew
      unfold World.resume at he
      split at he
      · exact .inl he
      · exact .inl (hset _ he)
      · split at he
        · exact .inl (hset _ he)
        · exact .inl (hset _ he)

/-! ## 4. The row holds the furthest status -/

/-- What a part reports while the row is there; the status of an unknown message is ignored. -/
def World.heard (w : World) (chat wamid : String) (p : Part) : Nat :=
  if messageExists w.session.rows chat wamid then ((p.reports wamid).map MessageStatus.rank).getD 0
  else 0

/-- The furthest status reported in a run while the row was there. -/
def furthest (chat wamid : String) (w : World) : List Part → Nat
  | [] => 0
  | p :: parts =>
      match w.step p with
      | none => 0
      | some w' => max (w.heard chat wamid p) (furthest chat wamid w' parts)

/-- The row of the message in the chat stands at `rank`, or is not there and `rank` is the one it
    will start with. -/
structure StandsAt (chat wamid : String) (w : World) (rank : Nat) : Prop where
  row : ∀ row ∈ rowsOf wamid w.session.rows, row.chatJid = chat → row.status.rank = rank
  start : (∀ row ∈ rowsOf wamid w.session.rows, row.chatJid ≠ chat) → rank = MessageStatus.sent.rank

theorem standsAt_congr {chat wamid : String} {w w' : World} {rank : Nat}
    (hrows : rowsOf wamid w'.session.rows = rowsOf wamid w.session.rows)
    (h : StandsAt chat wamid w rank) : StandsAt chat wamid w' rank :=
  ⟨by rw [hrows]; exact h.row, by rw [hrows]; exact h.start⟩

theorem messageExists_rowsOf {rows : List MessageRow} {chat wamid : String} :
    messageExists rows chat wamid = true ↔ ∃ row ∈ rowsOf wamid rows, row.chatJid = chat := by
  simp only [messageExists, List.any_eq_true, decide_eq_true_eq, mem_rowsOf]
  constructor
  · rintro ⟨row, hrow, hkey⟩
    exact ⟨row, ⟨hrow, hkey.2⟩, hkey.1⟩
  · rintro ⟨row, ⟨hrow, hid⟩, hchat⟩
    exact ⟨row, hrow, hchat, hid⟩

theorem heard_of_reports_none {w : World} {chat wamid : String} {p : Part}
    (h : p.reports wamid = none) : w.heard chat wamid p = 0 := by
  simp [World.heard, h]

/-- A part that leaves the row alone told nothing beyond where the row stands. -/
theorem heard_le {chat wamid : String} {w : World} {p : Part} {rank : Nat}
    (h : StandsAt chat wamid w rank)
    (hlow : ∀ status, p.reports wamid = some status →
      ∀ row ∈ rowsOf wamid w.session.rows, status.rank ≤ row.status.rank) :
    w.heard chat wamid p ≤ rank := by
  unfold World.heard
  split
  · next hexists =>
      obtain ⟨row, hrow, hchat⟩ := messageExists_rowsOf.mp hexists
      cases hreports : p.reports wamid with
      | none => exact Nat.zero_le rank
      | some status => exact h.row row hrow hchat ▸ hlow status hreports row hrow
  · exact Nat.zero_le rank

theorem standsAt_step {chat wamid : String} {w w' : World} {p : Part} {rank : Nat}
    (h : StandsAt chat wamid w rank) (hstep : w.step p = some w') :
    StandsAt chat wamid w' (max rank (w.heard chat wamid p)) := by
  cases step_effect wamid hstep with
  | none hrows _ _ hlow =>
      rw [Nat.max_eq_left (heard_le h hlow)]
      exact standsAt_congr hrows h
  | sent before said after hreports hrows =>
      rw [heard_of_reports_none hreports, Nat.max_zero]
      exact standsAt_congr hrows h
  | raised status hreports _ hrows =>
      refine ⟨?_, ?_⟩
      · intro row' hrow' hchat
        rw [hrows] at hrow'
        obtain ⟨row, hrow, rfl⟩ := List.mem_map.mp hrow'
        rw [MessageRow.raise_chatJid] at hchat
        have hexists : messageExists w.session.rows chat wamid = true :=
          messageExists_rowsOf.mpr ⟨row, hrow, hchat⟩
        rw [MessageRow.raise_rank, h.row row hrow hchat, World.heard, if_pos hexists, hreports]
        rfl
      · intro hnone
        have hnone' : ∀ row ∈ rowsOf wamid w.session.rows, row.chatJid ≠ chat := by
          intro row hrow hchat
          refine hnone (row.raise status) ?_ ((row.raise_chatJid status).trans hchat)
          rw [hrows]
          exact List.mem_map_of_mem hrow
        have hunknown : ¬messageExists w.session.rows chat wamid = true := by
          intro hexists
          obtain ⟨row, hrow, hchat⟩ := messageExists_rowsOf.mp hexists
          exact hnone' row hrow hchat
        rw [World.heard, if_neg hunknown, Nat.max_zero]
        exact h.start hnone'
  | inserted m before after hreports hid hstatus _ hnew hrows =>
      rw [heard_of_reports_none hreports, Nat.max_zero]
      refine ⟨?_, ?_⟩
      · intro row hrow hchat
        rw [hrows] at hrow
        rcases List.mem_append.mp hrow with hold | hrow
        · exact h.row row hold hchat
        · rw [List.mem_singleton] at hrow
          subst hrow
          have hunknown : ∀ row ∈ rowsOf wamid w.session.rows, row.chatJid ≠ chat := by
            intro row hrow hchat'
            obtain ⟨hmem, hid'⟩ := mem_rowsOf.mp hrow
            exact hnew row hmem ⟨hchat'.trans hchat.symm, hid'⟩
          rw [h.start hunknown, NewMessage.row, hstatus]
          rfl
      · intro hnone
        refine h.start fun row hrow => hnone row ?_
        rw [hrows]
        exact List.mem_append_left _ hrow

theorem standsAt_run {chat wamid : String} {w w' : World} {parts : List Part} {rank : Nat}
    (h : StandsAt chat wamid w rank) (hrun : runFrom World.step w parts = some w') :
    StandsAt chat wamid w' (max rank (furthest chat wamid w parts)) := by
  induction parts generalizing w rank with
  | nil =>
      cases hrun
      rwa [furthest, Nat.max_zero]
  | cons p parts ih =>
      obtain ⟨mid, hstep, hrest⟩ := runFrom_cons hrun
      have hnext := ih (standsAt_step h hstep) hrest
      rw [Nat.max_assoc] at hnext
      simpa only [furthest, hstep] using hnext

/-- **A row stands at the furthest status reported since it was inserted, `sent` at least.** -/
theorem status_is_maximum {chat wamid : String} {w w' : World} {parts : List Part}
    (hunknown : messageExists w.session.rows chat wamid = false)
    (hrun : runFrom World.step w parts = some w') :
    ∀ row ∈ w'.session.rows, row.HasKey chat wamid →
      row.status.rank = max MessageStatus.sent.rank (furthest chat wamid w parts) := by
  have hstart : StandsAt chat wamid w MessageStatus.sent.rank := by
    refine ⟨?_, fun _ => rfl⟩
    intro row hrow hchat
    have hexists := messageExists_rowsOf.mpr ⟨row, hrow, hchat⟩
    rw [hunknown] at hexists
    cases hexists
  intro row hrow hkey
  exact (standsAt_run hstart hrun).row row (mem_rowsOf.mpr ⟨hrow, hkey.2⟩) hkey.1

/-! ## 5. What is announced -/

/-- Nothing of the message is known, and nothing of it is under way. -/
structure World.Fresh (w : World) (wamid : String) : Prop where
  rows : rowsOf wamid w.session.rows = []
  told : w.told wamid = []
  unsent : w.unsent wamid = []
  echoes : ∀ e, Task.insertEcho e ∈ w.pending → e.wamid ≠ wamid

/-- Both writers file the message under one chat. -/
def FiledUnder (chat wamid : String) (p : Part) : Prop :=
  p.files wamid = none ∨ p.files wamid = some chat

instance (chat wamid : String) (p : Part) : Decidable (FiledUnder chat wamid p) :=
  inferInstanceAs (Decidable (_ ∨ _))

theorem FiledUnder.eq {chat wamid : String} {p : Part} (h : FiledUnder chat wamid p) {c : String}
    (hfiles : p.files wamid = some c) : c = chat := by
  rcases h with h | h <;> rw [hfiles] at h <;> cases h
  rfl

/-- No announcement of the message is under way when its row is inserted or moves. -/
def InTurn (wamid : String) (w : World) (p : Part) : Prop :=
  match w.step p with
  | none => True
  | some w' =>
      rowsOf wamid w'.session.rows = rowsOf wamid w.session.rows ∨ w.unsent wamid = []

instance (wamid : String) (w : World) (p : Part) : Decidable (InTurn wamid w p) := by
  unfold InTurn
  split <;> infer_instance

/-- What is announced for a message, and what is about to be, its row has passed. -/
structure Announced (chat wamid : String) (w : World) : Prop where
  filed : ∀ row ∈ rowsOf wamid w.session.rows, row.chatJid = chat
  echoes : ∀ e, Task.insertEcho e ∈ w.pending → e.wamid = wamid → toJid (trim e.recipient) = chat
  unborn : rowsOf wamid w.session.rows = [] → w.told wamid ++ w.unsent wamid = []
  passed : ∀ row ∈ rowsOf wamid w.session.rows, ∀ rank ∈ w.told wamid ++ w.unsent wamid,
    rank ≤ row.status.rank
  once : (w.told wamid ++ w.unsent wamid).Nodup

/-- The announcements come in order, one at a time. -/
structure Ordered (wamid : String) (w : World) : Prop where
  single : (w.unsent wamid).length ≤ 1
  order : (w.told wamid ++ w.unsent wamid).Pairwise (· < ·)

theorem echoes_step {chat wamid : String} {w w' : World} {p : Part} (h : Announced chat wamid w)
    (hfiled : FiledUnder chat wamid p) (hstep : w.step p = some w') (e : OutboundEcho)
    (he : Task.insertEcho e ∈ w'.pending) (hid : e.wamid = wamid) :
    toJid (trim e.recipient) = chat := by
  rcases step_echoes hstep he with hold | rfl
  · exact h.echoes e hold hid
  · exact hfiled.eq (by rw [Part.files, if_pos hid])

/-- The row that is inserted is the first of its message. -/
theorem rowsOf_eq_nil {chat wamid : String} {w : World} {p : Part} {m : NewMessage}
    (h : Announced chat wamid w) (hfiled : FiledUnder chat wamid p)
    (hfiles : p.files wamid = some m.chatJid ∨
      ∃ e, Task.insertEcho e ∈ w.pending ∧ e.wamid = wamid ∧ toJid (trim e.recipient) = m.chatJid)
    (hnew : ∀ row ∈ w.session.rows, ¬row.HasKey m.chatJid wamid) :
    rowsOf wamid w.session.rows = [] ∧ m.chatJid = chat := by
  have hchat : m.chatJid = chat := by
    rcases hfiles with hfiles | ⟨e, he, hid, hto⟩
    · exact hfiled.eq hfiles
    · rw [← hto]
      exact h.echoes e he hid
  refine ⟨List.eq_nil_iff_forall_not_mem.mpr ?_, hchat⟩
  intro row hrow
  obtain ⟨hmem, hid⟩ := mem_rowsOf.mp hrow
  exact hnew row hmem ⟨(h.filed row hrow).trans hchat.symm, hid⟩

theorem announced_step {chat wamid : String} {w w' : World} {p : Part}
    (h : Announced chat wamid w) (hfiled : FiledUnder chat wamid p) (hstep : w.step p = some w') :
    Announced chat wamid w' := by
  have hechoes := echoes_step h hfiled hstep
  cases step_effect wamid hstep with
  | none hrows htold hunsent =>
      exact ⟨by rw [hrows]; exact h.filed, hechoes, by rw [hrows, htold, hunsent]; exact h.unborn,
        by rw [hrows, htold, hunsent]; exact h.passed, by rw [htold, hunsent]; exact h.once⟩
  | sent before said after _ hrows htold hbefore hunsent =>
      have hperm : (w'.told wamid ++ w'.unsent wamid).Perm (w.told wamid ++ w.unsent wamid) := by
        rw [htold, hunsent, hbefore, List.append_assoc]
        refine List.Perm.append_left _ ?_
        rw [← List.append_assoc, ← List.append_assoc]
        exact List.Perm.append_right _ List.perm_append_comm
      refine ⟨by rw [hrows]; exact h.filed, hechoes, ?_, ?_, hperm.nodup_iff.mpr h.once⟩
      · intro hnone
        rw [hrows] at hnone
        exact List.perm_nil.mp (h.unborn hnone ▸ hperm)
      · intro row hrow rank hrank
        rw [hrows] at hrow
        exact h.passed row hrow rank (hperm.mem_iff.mp hrank)
  | raised status _ hmoved hrows htold hunsent =>
      obtain ⟨low, hlow, hlt⟩ := hmoved
      have hall : ∀ rank ∈ w.told wamid ++ w.unsent wamid, rank < status.rank :=
        fun rank hrank => Nat.lt_of_le_of_lt (h.passed low hlow rank hrank) hlt
      refine ⟨?_, hechoes, ?_, ?_, ?_⟩
      · intro row' hrow'
        rw [hrows] at hrow'
        obtain ⟨row, hrow, rfl⟩ := List.mem_map.mp hrow'
        exact (row.raise_chatJid status).trans (h.filed row hrow)
      · intro hnone
        rw [hrows, List.map_eq_nil_iff] at hnone
        rw [hnone] at hlow
        cases hlow
      · intro row' hrow' rank hrank
        rw [hrows] at hrow'
        obtain ⟨row, hrow, rfl⟩ := List.mem_map.mp hrow'
        rw [row.raise_rank]
        rw [htold, hunsent, ← List.append_assoc] at hrank
        rcases List.mem_append.mp hrank with hold | hnew
        · exact Nat.le_trans (h.passed row hrow rank hold) (Nat.le_max_left _ _)
        · exact Nat.le_trans (Nat.le_of_eq (List.mem_singleton.mp hnew)) (Nat.le_max_right _ _)
      · rw [htold, hunsent, ← List.append_assoc]
        refine h.once.append (List.nodup_singleton _) ?_
        intro rank hrank hnew
        exact Nat.ne_of_lt (hall rank hrank) (List.mem_singleton.mp hnew)
  | inserted m before after _ hid hstatus hfiles hnew hrows htold hbefore hunsent =>
      obtain ⟨hnone, hchat⟩ := rowsOf_eq_nil h hfiled hfiles hnew
      obtain ⟨htold₀, hunsent₀⟩ := List.append_eq_nil_iff.mp (h.unborn hnone)
      obtain ⟨rfl, rfl⟩ := List.append_eq_nil_iff.mp (hbefore.symm.trans hunsent₀)
      rw [hnone, List.nil_append] at hrows
      have hsaid : w'.told wamid ++ w'.unsent wamid = [MessageStatus.sent.rank] := by
        rw [htold, htold₀, hunsent]
        rfl
      refine ⟨?_, hechoes, ?_, ?_, ?_⟩
      · intro row hrow
        rw [hrows, List.mem_singleton] at hrow
        subst hrow
        exact hchat
      · intro hnil
        rw [hrows] at hnil
        cases hnil
      · intro row hrow rank hrank
        rw [hrows, List.mem_singleton] at hrow
        rw [hsaid, List.mem_singleton] at hrank
        subst hrow hrank
        simp [NewMessage.row, hstatus]
      · rw [hsaid]
        exact List.nodup_singleton _

/-- A row that moves is not the same row. -/
theorem raised_ne {rows : List MessageRow} {status : MessageStatus}
    (hmoved : ∃ row ∈ rows, row.status.rank < status.rank) :
    rows.map (fun row => row.raise status) ≠ rows := by
  intro hsame
  obtain ⟨row, hrow, hlt⟩ := hmoved
  have hfix : row.raise status = row := by
    have hid : rows.map (fun row => row.raise status) = rows.map id := by
      rw [hsame, List.map_id]
    exact List.map_inj_left.mp hid row hrow
  have hrank := row.raise_rank status
  rw [hfix, Nat.max_eq_right (Nat.le_of_lt hlt)] at hrank
  exact Nat.ne_of_lt hlt hrank

theorem ordered_step {chat wamid : String} {w w' : World} {p : Part} (h : Ordered wamid w)
    (hannounced : Announced chat wamid w) (hfiled : FiledUnder chat wamid p)
    (hturn : InTurn wamid w p) (hstep : w.step p = some w') : Ordered wamid w' := by
  rw [InTurn, hstep] at hturn
  cases step_effect wamid hstep with
  | none _ htold hunsent =>
      exact ⟨by rw [hunsent]; exact h.single, by rw [htold, hunsent]; exact h.order⟩
  | sent before said after _ _ htold hbefore hunsent =>
      have hsingle := h.single
      have horder := h.order
      rw [hbefore] at hsingle horder
      simp only [List.length_append] at hsingle
      refine ⟨by rw [hunsent, List.length_append]; omega, ?_⟩
      rw [htold, hunsent, List.append_assoc]
      -- of the one announcement under way, it is the one that is sent, or nothing is
      rcases Nat.eq_zero_or_pos said.length with hsaid | hsaid
      · rw [List.length_eq_zero_iff.mp hsaid] at horder ⊢
        exact horder
      · have hbefore₀ : before = [] := List.length_eq_zero_iff.mp (by omega)
        rw [hbefore₀] at horder ⊢
        exact horder
  | raised status _ hmoved hrows htold hunsent =>
      obtain hsame | hquiet := hturn
      · exact absurd (hrows.symm.trans hsame) (raised_ne hmoved)
      · obtain ⟨low, hlow, hlt⟩ := hmoved
        refine ⟨by rw [hunsent, hquiet]; exact Nat.le_refl 1, ?_⟩
        rw [htold, hunsent, ← List.append_assoc]
        refine List.pairwise_append.mpr ⟨h.order, List.pairwise_singleton _ _, ?_⟩
        intro rank hrank next hnext
        rw [List.mem_singleton.mp hnext]
        exact Nat.lt_of_le_of_lt (hannounced.passed low hlow rank hrank) hlt
  | inserted m before after _ _ _ hfiles hnew hrows htold hbefore hunsent =>
      obtain ⟨hnone, -⟩ := rowsOf_eq_nil hannounced hfiled hfiles hnew
      obtain ⟨htold₀, hunsent₀⟩ := List.append_eq_nil_iff.mp (hannounced.unborn hnone)
      obtain ⟨rfl, rfl⟩ := List.append_eq_nil_iff.mp (hbefore.symm.trans hunsent₀)
      refine ⟨by rw [hunsent]; exact Nat.le_refl 1, ?_⟩
      rw [htold, htold₀, hunsent]
      exact List.pairwise_singleton _ _

theorem announced_of_fresh {wamid : String} {w : World} (h : w.Fresh wamid) (chat : String) :
    Announced chat wamid w ∧ Ordered wamid w := by
  have hnil : w.told wamid ++ w.unsent wamid = [] := by rw [h.told, h.unsent]; rfl
  refine ⟨⟨?_, ?_, fun _ => hnil, ?_, by rw [hnil]; exact List.nodup_nil⟩,
    ⟨by rw [h.unsent]; exact Nat.zero_le 1, by rw [hnil]; exact List.Pairwise.nil⟩⟩
  · intro row hrow
    rw [h.rows] at hrow
    cases hrow
  · intro e he hid
    exact absurd hid (h.echoes e he)
  · intro row hrow
    rw [h.rows] at hrow
    cases hrow

/-- **Each lifecycle event of a message is emitted once.** -/
theorem lifecycle_once {chat wamid : String} {w w' : World} {parts : List Part}
    (hfresh : w.Fresh wamid)
    (hfiled : Meets World.step (fun _ p => FiledUnder chat wamid p) w parts)
    (hrun : runFrom World.step w parts = some w') : (w'.told wamid).Nodup := by
  have hkept : Announced chat wamid w' :=
    run_invariant (fun _ _ _ h hfiled hstep => announced_step h hfiled hstep)
      (announced_of_fresh hfresh chat).1 hfiled hrun
  exact (List.nodup_append.mp hkept.once).1

/-- **Announcements that are each sent before the row moves on are in order.** -/
theorem lifecycle_in_order {chat wamid : String} {w w' : World} {parts : List Part}
    (hfresh : w.Fresh wamid)
    (hfiled : Meets World.step (fun w p => FiledUnder chat wamid p ∧ InTurn wamid w p) w parts)
    (hrun : runFrom World.step w parts = some w') : (w'.told wamid).Pairwise (· < ·) := by
  have hkept : Announced chat wamid w' ∧ Ordered wamid w' := by
    refine run_invariant (I := fun w => Announced chat wamid w ∧ Ordered wamid w) ?_
      (announced_of_fresh hfresh chat) hfiled hrun
    intro _ _ _ h hcond hstep
    exact ⟨announced_step h.1 hcond.1 hstep, ordered_step h.2 h.1 hcond.1 hcond.2 hstep⟩
  exact (List.pairwise_append.mp hkept.2.order).1

/-- **The status of a cloud message** over every order of webhooks, echoes and sends. -/
theorem cloud_status (chat wamid : String) {w w' : World} {parts : List Part}
    (hfresh : w.Fresh wamid) (hrun : runFrom World.step w parts = some w') :
    (∀ row ∈ w'.session.rows, row.HasKey chat wamid →
        row.status.rank = max MessageStatus.sent.rank (furthest chat wamid w parts)) ∧
      (Meets World.step (fun _ p => FiledUnder chat wamid p) w parts → (w'.told wamid).Nodup) ∧
      (Meets World.step (fun w p => FiledUnder chat wamid p ∧ InTurn wamid w p) w parts →
        (w'.told wamid).Pairwise (· < ·)) := by
  have hunknown : messageExists w.session.rows chat wamid = false := by
    refine messageExists_false.mpr fun row hrow hkey => ?_
    have hmem := mem_rowsOf.mpr ⟨hrow, hkey.2⟩
    rw [hfresh.rows] at hmem
    cases hmem
  exact ⟨status_is_maximum hunknown hrun, fun hfiled => lifecycle_once hfresh hfiled hrun,
    fun hfiled => lifecycle_in_order hfresh hfiled hrun⟩

/-! ## 6. Runs that show the bounds -/

namespace Sample

def empty : World := ⟨⟨none, false, [], [], 0⟩, []⟩

def text : CloudKindPayload := ⟨"text", some "hi", "\x7b\x7d"⟩

def report (status : String) : Part := .status ⟨"wamid.1", "15550001".toList, status, none⟩

def send (chat : String) : Part := .record chat "wamid.1" "self" text 7

def chat : String := "15550001@s.whatsapp.net"

/-- Two reports, each announced before the next. -/
def orderly : List Part := [send chat, .go 0, report "delivered", .go 1, report "read", .go 2]

/-- `read` is announced by its handler before the handler of `delivered` comes to it. -/
def overtaken : List Part := [send chat, .go 0, report "delivered", report "read", .go 2, .go 1]

/-- `delivered` is reported before the row is inserted. -/
def early : List Part := [report "delivered", send chat, .go 0]

/-- The message is filed under the number it was sent to and under the one WhatsApp has for it. -/
def twice : List Part := [send chat, .go 0, send "5215550001@s.whatsapp.net", .go 1]

theorem empty_fresh : empty.Fresh "wamid.1" := by
  refine ⟨rfl, rfl, rfl, ?_⟩
  intro e he
  cases he

end Sample

/-- Two reports in order: the row stands at `read`, and three events are in order. -/
theorem cloud_status_orderly :
    ∃ w', runFrom World.step Sample.empty Sample.orderly = some w' ∧
      (∀ row ∈ w'.session.rows, row.HasKey Sample.chat "wamid.1" →
        row.status.rank = MessageStatus.read.rank) ∧
      (w'.told "wamid.1").Nodup ∧ (w'.told "wamid.1").Pairwise (· < ·) := by
  have hrun : ∃ w', runFrom World.step Sample.empty Sample.orderly = some w' := ⟨_, rfl⟩
  obtain ⟨w', hrun⟩ := hrun
  obtain ⟨hrow, honce, horder⟩ := cloud_status Sample.chat "wamid.1" Sample.empty_fresh hrun
  refine ⟨w', hrun, ?_, honce (by decide), horder (by decide)⟩
  intro row hmem hkey
  rw [hrow row hmem hkey]
  decide

/-- A status that comes before the row is lost; a row under two chats announces `sent` twice; a
    handler that is overtaken announces `delivered` after `read`. -/
theorem cloud_status_not_of_all_reports :
    (Part.reports "wamid.1" (Sample.report "delivered") = some .delivered ∧
      (runFrom World.step Sample.empty Sample.early).map (fun w =>
        w.session.rows.map fun row => (row.messageId, row.status)) = some [("wamid.1", .sent)]) ∧
      (runFrom World.step Sample.empty Sample.twice).map (World.told · "wamid.1") =
        some [MessageStatus.sent.rank, MessageStatus.sent.rank] ∧
      (runFrom World.step Sample.empty Sample.overtaken).map (World.told · "wamid.1") =
        some [MessageStatus.sent.rank, MessageStatus.read.rank, MessageStatus.delivered.rank] := by
  decide

end Ruwa.Cloud
