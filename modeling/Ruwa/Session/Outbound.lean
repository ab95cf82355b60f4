/-
  File:      Ruwa/Session/Outbound.lean
  Subject:   WHAT IS SENT, AND SENT AGAIN (`session.rs`: `enqueue_send_persistent`, the drain of
             `run_connection`, `run_send_pump`, `logout`; `store.rs`: `outbound_queue_*`).

  An operation that has to outlive its connection is written to a table, and goes into the channel
  as well. The connection that takes the receiver reads the table into the channel; the task that
  waits for the server's ack deletes the row. No lock joins these: other calls come between the
  table and the channel, and between any two rows that are sent again.

  * `SendOp`, `Outbound` -- the operations; a session with its table, its acks and its account;
  * `Outbound.step` -- the steps;
  * **`outbound_move`** -- on the send path a step is a move of `Library/Lanes.lean`, or none;
  * `lane_invariant` -- what a step keeps of every lane;
  * `Reading` -- connections that go through the rows they read.

  What becomes of an operation on the wire is left out, and so is a restart of the process.
-/
import Ruwa.Library.Lanes
import Ruwa.Library.Text
import Ruwa.Protocol.Binary
import Ruwa.Session.SendPath
import Ruwa.Session.Shipping
import Mathlib.Data.List.Sort

namespace Ruwa.Session

open Ruwa.Library
open Ruwa.Protocol.Binary (Node)

/-! ## 1. Operations -/

inductive MediaType
  | image
  | video
  | audio
  | ptt
  | document
  | sticker
  | history
  | appState
  deriving DecidableEq

inductive SendOp
  | text (chatJid msgId text : String) (timestamp : Int)
  | media (chatJid msgId : String) (kind : MediaType) (filePath mime : String)
      (caption filename : Option String) (mentions : List String) (timestamp : Int)
  | rawNode (node : Node)
  | encryptedInner (chatJid msgId : String) (innerProto : Bytes) (timestamp : Int)
  | peerHistoryRequest (chat oldestId : String) (oldestFromMe : Bool) (oldestTs : Int)
      (count : UInt32)

/-- `persistable_op_view`: the id of an operation that outlives its connection. -/
def SendOp.persistable? : SendOp → Option String
  | .text _ msgId _ _ => some msgId
  | .media _ msgId _ _ _ _ _ _ _ => some msgId
  | .encryptedInner _ msgId _ _ => some msgId
  | .rawNode _ => none
  | .peerHistoryRequest _ _ _ _ _ => none

def SendOp.filePath? : SendOp → Option String
  | .media _ _ _ filePath _ _ _ _ _ => some filePath
  | _ => none

/-- An operation on its way. The source keeps neither `seq`, how many were enqueued before it, nor
    the account that the session was paired as then. -/
structure Queued where
  op : SendOp
  seq : Nat
  account : Option Nat

def Queued.msgId? (q : Queued) : Option String := q.op.persistable?

/-- `parse_user_jid`: the user and the device. -/
def parseUserJid (jid : String) : Option (Nat × Nat) := do
  let bare := jid.toList.takeWhile fun c => c ≠ '@'
  let (user, device) ←
    match Text.splitOnce ':' bare with
    | some (u, d) => (Text.parseUint (2 ^ 32) d).map fun device => (u, device)
    | none => some (bare, 0)
  let user := match Text.splitOnce '.' user with
    | some (u, _) => u
    | none => user
  let n ← Text.parseUint (2 ^ 64) user
  return (n, device)

/-- `select_client_payload`: the account of the login, if it is one. -/
def loginAccount (jid : Option String) : Option Nat :=
  jid.bind fun jid => (parseUserJid jid).map Prod.fst

/-! ## 2. The table -/

/-- `outbound_queue_upsert`. -/
def outboundQueueUpsert {α : Type} (queue : List (QueueRow α)) (row : QueueRow α) :
    List (QueueRow α) :=
  outboundQueueDelete queue row.msgId ++ [row]

/-- By `created_at`, and then by `msg_id`. -/
def QueueRow.Before {α : Type} (a b : QueueRow α) : Prop :=
  a.createdAt < b.createdAt ∨ a.createdAt = b.createdAt ∧ a.msgId ≤ b.msgId

instance {α : Type} (a b : QueueRow α) : Decidable (a.Before b) :=
  inferInstanceAs (Decidable (_ ∨ _))

/-- `outbound_queue_drain`. -/
def outboundQueueDrain {α : Type} (queue : List (QueueRow α)) : List (QueueRow α) :=
  queue.insertionSort QueueRow.Before

/-! ## 3. The session -/

/-- A driver that took the receiver; its pump is spawned when the rows are through. -/
structure Drain where
  driver : Nat
  pump : Nat × Nat
  /-- The table was read. -/
  read : Bool
  deriving DecidableEq

/-- A session with what its sends depend on. The source does not keep the last four: the account
    that each connection has logged in as, what was enqueued, the ids that were acked with the
    number of connections by then, and the operations whose file was gone. -/
structure Outbound where
  web : Web Queued
  ships : Shipping Queued
  jid : Option String
  /-- The account in the payload of each driver that shakes hands. -/
  payloads : List (Nat × Option Nat)
  /-- The calls of `enqueue_send_persistent` that have written their row and not sent yet. -/
  pending : List Queued
  drains : List Drain
  /-- What each connection has read of the table and not come to. -/
  redriving : List (Nat × Queued)
  logins : List (Nat × Option Nat)
  enqueued : List Queued
  acked : List (String × Nat)
  gone : List Queued

/-- Calls of the session that reach beyond it. `OutboundCall` has its own for them. -/
def Call.Reaches {α : Type} : Call α → Bool
  | .enqueue _ => true
  | .pump _ => true
  | .logout => true
  | .driver _ (.handshakeDone _) => true
  | .driver _ (.frame .pairSuccess _) => true
  | _ => false

def Call.driver? {α : Type} : Call α → Option Nat
  | .driver id _ => some id
  | _ => none

inductive OutboundCall
  /-- `enqueue_send_persistent` up to its upsert. -/
  | enqueueSendPersistent (op : SendOp) (now : Int) (storeOk : Bool)
  /-- Such a call goes on to the channel. Calls are named by their place. -/
  | sendPending (place : Nat)
  /-- `enqueue_send`; its callers have operations that are not persisted. -/
  | enqueueSend (op : SendOp)
  /-- The socket is open, and `select_client_payload` reads the JID. -/
  | payload (id : Nat)
  /-- `take_send_receiver`, if the receiver is there. -/
  | handshakeDone (id : Nat)
  /-- `drain_outbound_queue`. -/
  | drainOutboundQueue (p : Nat × Nat) (drainOk : Bool)
  /-- The next row of those, with the files that exist, and whether a row can be deleted. -/
  | redrive (p : Nat × Nat) (files : List String) (deleteOk : Bool)
  /-- `handle_send_op`: it fails, or ships to the chat it names. -/
  | pump (p : Nat × Nat) (outcome : Option (String × Bool))
  | pairSuccess (id : Nat) (jid : Option String) (reply : Bool)
  | logout (fresh storeOk : Bool)
  | shipping (e : ShipCall)
  | session (e : Call Queued)

/-- The operation that a call enqueues. -/
def OutboundCall.op? : OutboundCall → Option SendOp
  | .enqueueSendPersistent op _ _ => some op
  | .enqueueSend op => some op
  | _ => none

namespace Outbound

/-- A session that was just created. -/
def new (status : SessionStatus) (messages : List MessageRow) : Outbound where
  web := .new status
  ships := .new messages []
  jid := none
  payloads := []
  pending := []
  drains := []
  redriving := []
  logins := []
  enqueued := []
  acked := []
  gone := []

def tagged (s : Outbound) (op : SendOp) : Queued := ⟨op, s.enqueued.length, loginAccount s.jid⟩

def enqueueSend (s : Outbound) (op : SendOp) : Outbound :=
  { s with web := s.web.enqueueSend (s.tagged op), enqueued := s.enqueued ++ [s.tagged op] }

/-- The first half of a call: an operation that is not persisted goes on at once. A failed upsert is
    ignored. -/
def enqueueSendPersistent (s : Outbound) (op : SendOp) (now : Int) (storeOk : Bool) : Outbound :=
  match op.persistable? with
  | none => s.enqueueSend op
  | some msgId =>
      { s with
        ships :=
          if storeOk then
            { s.ships with queue := outboundQueueUpsert s.ships.queue ⟨msgId, s.tagged op, now⟩ }
          else s.ships
        pending := s.pending ++ [s.tagged op]
        enqueued := s.enqueued ++ [s.tagged op] }

/-- The second half. -/
def sendPending (s : Outbound) (place : Nat) : Option Outbound :=
  s.pending[place]?.map fun q =>
    { s with web := s.web.enqueueSend q, pending := s.pending.eraseIdx place }

/-- The connection has not read the table, or not come to the end of what it read. -/
def Busy (s : Outbound) (p : Nat × Nat) : Prop :=
  (∃ d ∈ s.drains, d.pump = p ∧ d.read = false) ∨ ∃ e ∈ s.redriving, e.1 = p.2

instance (s : Outbound) (p : Nat × Nat) : Decidable (s.Busy p) :=
  inferInstanceAs (Decidable (_ ∨ _))

/-- There is no await from the receiver to the pump: the driver does nothing else. -/
def Draining (s : Outbound) (id : Nat) : Prop := ∃ d ∈ s.drains, d.driver = id ∧ s.Busy d.pump

instance (s : Outbound) (id : Nat) : Decidable (s.Draining id) :=
  inferInstanceAs (Decidable (∃ d ∈ s.drains, _))

/-- A driver has shaken hands with the payload it chose. -/
def handshakeDone (s : Outbound) (id : Nat) : Option Outbound :=
  (s.payloads.find? fun p => decide (p.1 = id)).bind fun p =>
    (s.web.step (.driver id (.handshakeDone []))).map fun web =>
      { s with
        web := web
        payloads := s.payloads.filter fun p => p.1 ≠ id
        drains := s.drains ++ s.web.sendRx.toList.map fun ch => ⟨id, (ch, s.web.nextConn), false⟩
        logins := s.logins ++ [(s.web.nextConn, p.2)] }

/-- The operations of the table, in the order in which they are sent again. -/
def drained (s : Outbound) (drainOk : Bool) : List Queued :=
  if drainOk then (outboundQueueDrain s.ships.queue).map QueueRow.op else []

def drainOutboundQueue (s : Outbound) (p : Nat × Nat) (drainOk : Bool) : Option Outbound :=
  if ∃ d ∈ s.drains, d.pump = p ∧ d.read = false then
    some { s with
      drains := s.drains.map fun d => if d.pump = p then { d with read := true } else d
      redriving := s.redriving ++ (s.drained drainOk).map fun q => (p.2, q) }
  else none

/-- A media operation whose file does not exist any more. -/
def isGone (files : List String) (q : Queued) : Bool :=
  match q.op.filePath? with
  | none => false
  | some path => decide (path ∉ files)

/-- `delete_outbound_queue_row`. -/
def withoutRow (s : Outbound) (q : Queued) : Shipping Queued :=
  match q.msgId? with
  | none => s.ships
  | some msgId => { s.ships with queue := outboundQueueDelete s.ships.queue msgId }

/-- A media operation whose file is gone is dropped with its row, any other is sent again. -/
def redrive (s : Outbound) (p : Nat × Nat) (files : List String) (deleteOk : Bool) :
    Option Outbound :=
  if ∃ d ∈ s.drains, d.pump = p then
    (takeQueued p.2 s.redriving).map fun (q, rest) =>
      if isGone files q then
        { s with
          redriving := rest
          ships := if deleteOk then s.withoutRow q else s.ships
          gone := s.gone ++ [q] }
      else { s with redriving := rest, web := s.web.enqueueSend q }
  else none

/-- The end of `handle_send_op`. -/
def shipped (s : Outbound) (conn : Nat) (q : Queued) (chat : String) (storeOk : Bool) :
    Shipping Queued :=
  match q.msgId? with
  | none => s.ships
  | some msgId => s.ships.ship conn msgId chat storeOk

def pump (s : Outbound) (p : Nat × Nat) (outcome : Option (String × Bool)) : Option Outbound :=
  if s.web.pumps.contains p ∧ ¬s.Busy p then
    (takeQueued p.1 s.web.queued).map fun (q, rest) =>
      match outcome with
      | none => { s with web := { s.web with queued := rest } }
      | some (chat, storeOk) =>
          { s with
            web := { s.web with queued := rest, shipped := s.web.shipped ++ [(p.2, q)] }
            ships := s.shipped p.2 q chat storeOk }
  else none

/-- Either way `outbound_queue` is not among what is cleared: with `fresh` the keys of the device
    are replaced, and the tables of its crypto are emptied. -/
def logout (s : Outbound) (_fresh storeOk : Bool) : Outbound :=
  if storeOk then { s with web := s.web.logout, jid := none } else s

/-- An ack is counted with the connections by then. -/
def afterShipping (s : Outbound) (e : ShipCall) (ships : Shipping Queued) : Outbound :=
  match e with
  | .ack _ msgId _ => { s with ships := ships, acked := s.acked ++ [(msgId, s.web.nextConn)] }
  | _ => { s with ships := ships }

def step (s : Outbound) : OutboundCall → Option Outbound
  | .enqueueSendPersistent op now storeOk => some (s.enqueueSendPersistent op now storeOk)
  | .sendPending place => s.sendPending place
  | .enqueueSend op => if op.persistable? = none then some (s.enqueueSend op) else none
  | .payload id =>
      if ∃ d ∈ s.web.drivers, d.id = id ∧ d.pos = .dialing then
        some { s with
          payloads := (id, loginAccount s.jid) :: s.payloads.filter fun p => p.1 ≠ id }
      else none
  | .handshakeDone id => s.handshakeDone id
  | .drainOutboundQueue p drainOk => s.drainOutboundQueue p drainOk
  | .redrive p files deleteOk => s.redrive p files deleteOk
  | .pump p outcome => s.pump p outcome
  | .pairSuccess id jid reply =>
      if s.Draining id then none
      else (s.web.step (.driver id (.frame .pairSuccess reply))).map fun web =>
        { s with web := web, jid := jid }
  | .logout fresh storeOk => some (s.logout fresh storeOk)
  | .shipping (.ship ..) => none
  | .shipping e => (s.ships.step e).map (s.afterShipping e)
  | .session e =>
      if e.Reaches ∨ ∃ id ∈ e.driver?, s.Draining id then none
      else (s.web.step e).map fun web =>
        { s with web := web, payloads := s.payloads.filter fun p => some p.1 ≠ e.driver? }

end Outbound

/-! ## 4. The send path of a session -/

section Path

variable {α : Type} {s s' : Web α}

def Web.lanes (s : Web α) : Lanes α :=
  ⟨s.sendTx, s.sendRx, s.nextChannel, s.pumps, s.queued, s.shipped, s.nextConn⟩

theorem lanes_failed (s : Web α) (id : Nat) : (s.failed id).lanes = s.lanes.reset := by
  unfold Web.failed
  dsimp only
  split
  · split <;> rfl
  · split
    · rfl
    · split <;> rfl

theorem lanes_foldl_enqueueSend (s : Web α) (ops : List α) :
    (ops.foldl Web.enqueueSend s).lanes =
      { s.lanes with queued := s.queued ++ ops.map fun op => (s.sendTx, op) } := by
  induction ops generalizing s with
  | nil => simp [Web.lanes]
  | cons op ops ih =>
      rw [List.foldl_cons, ih (s.enqueueSend op)]
      simp [Web.enqueueSend, Web.lanes]

theorem lanes_handshakeDone (s : Web α) (id : Nat) (drained : List α) :
    (s.handshakeDone id drained).lanes = s.lanes.opened drained := by
  unfold Web.handshakeDone Lanes.opened
  cases hrx : s.sendRx with
  | none => simp [Web.lanes, Web.moveTo, Web.setStatus, Web.emit, hrx]
  | some ch =>
      have hfold := lanes_foldl_enqueueSend
        { ({ s with nextConn := s.nextConn + 1 }.setStatus .awaitingQr).emit .connecting with
          iqClient := some s.nextConn, sendRx := none } drained
      simp only [Web.lanes, Lanes.mk.injEq] at hfold
      obtain ⟨htx, hrx', hnext, hpumps, hqueued, hshipped, hconn⟩ := hfold
      simp_all [Web.lanes, Web.moveTo, Web.setStatus, Web.emit]

theorem lanes_processInboundNode (s : Web α) (conn : Nat) (f : Frame) :
    (s.processInboundNode conn f).lanes = s.lanes := by
  cases f <;> rfl

/-- Up to its handshake a driver leaves the send path alone, or resets the queue. -/
theorem lanes_driverStep {d : Driver} {e : DriverStep α} (h : s.driverStep d e = some s') :
    s'.lanes = s.lanes ∨ s'.lanes = s.lanes.reset ∨
      ∃ drained, e = .handshakeDone drained ∧ s'.lanes = s.lanes.opened drained := by
  cases driverStep_cases h with
  | started | proxyFailed => exact .inl rfl
  | outgoing | written | reconnectHeard | woken | wokenIdle | renewed => exact .inl rfl
  | backoffOver | finish => exact .inl rfl
  | frame f reply c => exact .inl (lanes_processInboundNode s c f)
  | dialFailed | lost | closed => exact .inr (.inl (lanes_failed s d.id))
  | left | leaseLost => exact .inr (.inl rfl)
  | handshakeDone drained => exact .inr (.inr ⟨drained, rfl, lanes_handshakeDone s d.id drained⟩)

theorem lanes_connect (s : Web α) (granted : Bool) : (s.connect granted).lanes = s.lanes := by
  unfold Web.connect
  split
  · rfl
  · split <;> rfl

theorem lanes_reconnect (s : Web α) (granted : Bool) : (s.reconnect granted).lanes = s.lanes := by
  unfold Web.reconnect
  split
  · rfl
  · split
    · exact lanes_connect _ granted
    · exact lanes_connect s granted

theorem lanes_markReady (s : Web α) : s.markReady.lanes = s.lanes := by
  unfold Web.markReady
  split <;> rfl

/-- A call that does not reach beyond the session, and a driver's frames. -/
theorem lanes_step {e : Call α} (hstep : s.step e = some s')
    (hown : e.Reaches = false ∨ ∃ id f reply, e = .driver id (.frame f reply)) :
    s'.lanes = s.lanes ∨ s'.lanes = s.lanes.reset := by
  cases e with
  | connect granted =>
      cases hstep
      exact .inl (lanes_connect s granted)
  | reconnect granted =>
      cases hstep
      exact .inl (lanes_reconnect s granted)
  | rekey =>
      cases hstep
      exact .inl rfl
  | logout => simp [Call.Reaches] at hown
  | enqueue op => simp [Call.Reaches] at hown
  | pump p => simp [Call.Reaches] at hown
  | deadline =>
      simp only [Web.step] at hstep
      split at hstep <;> cases hstep
      exact .inl (lanes_markReady s)
  | collectionSynced conn name =>
      simp only [Web.step] at hstep
      split at hstep <;> cases hstep
      unfold Web.markCollectionSynced
      split
      · exact .inl (lanes_markReady (s.marked conn name))
      · exact .inl rfl
  | driver id e =>
      obtain ⟨d, -, hdriver⟩ := Option.bind_eq_some_iff.mp hstep
      rcases lanes_driverStep hdriver with hsame | hreset | ⟨drained, rfl, -⟩
      · exact .inl hsame
      · exact .inr hreset
      · simp [Call.Reaches] at hown

theorem lanes_handshakeStep {id : Nat} {drained : List α}
    (hstep : s.step (.driver id (.handshakeDone drained)) = some s') :
    s'.lanes = s.lanes.opened drained := by
  obtain ⟨d, -, hdriver⟩ := Option.bind_eq_some_iff.mp hstep
  cases driverStep_cases hdriver
  exact lanes_handshakeDone s d.id drained

/-- The oldest operation of a channel, with what is before and behind it. -/
theorem takeQueued_cases {ch : Nat} {queued rest : List (Nat × α)} {op : α}
    (h : takeQueued ch queued = some (op, rest)) :
    ∃ before after, queued = before ++ (ch, op) :: after ∧ rest = before ++ after ∧
      ∀ q ∈ before, q.1 ≠ ch := by
  induction queued generalizing rest with
  | nil => cases h
  | cons q queued ih =>
      unfold takeQueued at h
      split at h
      · next hch =>
          cases h
          exact ⟨[], queued, by rw [← hch]; rfl, rfl, fun _ hq => (nomatch hq)⟩
      · next hch =>
          obtain ⟨⟨op', rest'⟩, htake, heq⟩ := Option.map_eq_some_iff.mp h
          cases heq
          obtain ⟨before, after, rfl, rfl, hfar⟩ := ih htake
          refine ⟨q :: before, after, rfl, rfl, ?_⟩
          intro q' hq'
          rcases List.mem_cons.mp hq' with rfl | hold
          · exact hch
          · exact hfar q' hold

theorem mem_takeQueued {ch : Nat} {queued rest : List (Nat × α)} {op : α}
    (h : takeQueued ch queued = some (op, rest)) : (ch, op) ∈ queued ∧ rest ⊆ queued := by
  obtain ⟨before, after, rfl, rfl, -⟩ := takeQueued_cases h
  refine ⟨List.mem_append_right _ List.mem_cons_self, ?_⟩
  exact List.append_subset.mpr ⟨List.subset_append_left _ _,
    fun _ hm => List.mem_append_right _ (List.mem_cons_of_mem _ hm)⟩

end Path

/-! ## 5. A step as a move -/

/-- The operation that a step puts into the channel. -/
def Outbound.entering (s : Outbound) : OutboundCall → Option Queued
  | .enqueueSendPersistent op _ _ =>
      if op.persistable? = none then some (s.tagged op) else none
  | .enqueueSend op => some (s.tagged op)
  | .sendPending place => s.pending[place]?
  | .redrive p files _ =>
      ((takeQueued p.2 s.redriving).map Prod.fst).filter fun q => !Outbound.isGone files q
  | _ => none

/-- What a step of the session does on the send path. -/
def Outbound.Sends (s : Outbound) (e : OutboundCall) : LaneOp Queued → Prop
  | .enqueue q => s.entering e = some q
  | .opened first => first = [] ∧ ∃ id, e = .handshakeDone id
  | .reset => True
  | .ships p => ¬s.Busy p
  | .drops _ => True

section Steps

variable {s s' : Outbound} {e : OutboundCall}

/-- A handshake, as far as it is not the session's. -/
theorem handshakeDone_cases {id : Nat} (h : s.handshakeDone id = some s') :
    ∃ web login, s.web.step (.driver id (.handshakeDone [])) = some web ∧
      (id, login) ∈ s.payloads ∧
      s' = { s with
        web := web
        payloads := s.payloads.filter fun p => p.1 ≠ id
        drains := s.drains ++ s.web.sendRx.toList.map fun ch => ⟨id, (ch, s.web.nextConn), false⟩
        logins := s.logins ++ [(s.web.nextConn, login)] } := by
  obtain ⟨⟨id', login⟩, hfind, h⟩ := Option.bind_eq_some_iff.mp h
  obtain ⟨web, hweb, rfl⟩ := Option.map_eq_some_iff.mp h
  have hid : id' = id := by simpa using List.find?_some hfind
  subst hid
  exact ⟨web, login, hweb, List.mem_of_find?_eq_some hfind, rfl⟩

theorem sendPending_cases {place : Nat} (h : s.sendPending place = some s') :
    ∃ q, s.pending[place]? = some q ∧
      s' = { s with web := s.web.enqueueSend q, pending := s.pending.eraseIdx place } := by
  obtain ⟨q, hq, rfl⟩ := Option.map_eq_some_iff.mp h
  exact ⟨q, hq, rfl⟩

theorem drain_cases {p : Nat × Nat} {drainOk : Bool}
    (h : s.drainOutboundQueue p drainOk = some s') :
    (∃ d ∈ s.drains, d.pump = p ∧ d.read = false) ∧ s' = { s with
      drains := s.drains.map fun d => if d.pump = p then { d with read := true } else d
      redriving := s.redriving ++ (s.drained drainOk).map fun q => (p.2, q) } := by
  unfold Outbound.drainOutboundQueue at h
  split at h <;> cases h
  next hdrain => exact ⟨hdrain, rfl⟩

/-- What is drained has a row. -/
theorem mem_drained {drainOk : Bool} {q : Queued} (hq : q ∈ s.drained drainOk) :
    (∃ row ∈ s.ships.queue, row.op = q) ∧ drainOk = true := by
  unfold Outbound.drained at hq
  split at hq
  · next hdrain =>
      obtain ⟨row, hrow, rfl⟩ := List.mem_map.mp hq
      exact ⟨⟨row, (List.mem_insertionSort _).mp hrow, rfl⟩, hdrain⟩
  · cases hq

/-- A row that was read is through: it was dropped, or is in the channel. -/
theorem redrive_cases {p : Nat × Nat} {files : List String} {deleteOk : Bool}
    (h : s.redrive p files deleteOk = some s') :
    (∃ d ∈ s.drains, d.pump = p) ∧ ∃ q rest, takeQueued p.2 s.redriving = some (q, rest) ∧
      (Outbound.isGone files q = true ∧ s.entering (.redrive p files deleteOk) = none ∧ s' = { s with
          redriving := rest
          ships := if deleteOk then s.withoutRow q else s.ships
          gone := s.gone ++ [q] } ∨
        s.entering (.redrive p files deleteOk) = some q ∧
          s' = { s with redriving := rest, web := s.web.enqueueSend q }) := by
  unfold Outbound.redrive at h
  split at h
  · next hdrain =>
      obtain ⟨⟨q, rest⟩, htake, rfl⟩ := Option.map_eq_some_iff.mp h
      refine ⟨hdrain, q, rest, htake, ?_⟩
      by_cases hgone : Outbound.isGone files q = true
      · exact .inl ⟨hgone, by simp [Outbound.entering, htake, hgone], by simp [hgone]⟩
      · exact .inr ⟨by simp [Outbound.entering, htake, hgone], by simp [hgone]⟩
  · cases h

theorem isGone_iff {files : List String} {q : Queued} :
    Outbound.isGone files q = true ↔ ∃ path, q.op.filePath? = some path ∧ path ∉ files := by
  unfold Outbound.isGone
  cases q.op.filePath? <;> simp

theorem pump_cases {p : Nat × Nat} {outcome : Option (String × Bool)}
    (h : s.pump p outcome = some s') :
    p ∈ s.web.pumps ∧ ¬s.Busy p ∧ ∃ q rest, takeQueued p.1 s.web.queued = some (q, rest) ∧
      (outcome = none ∧ s' = { s with web := { s.web with queued := rest } } ∨
        ∃ chat storeOk, outcome = some (chat, storeOk) ∧ s' = { s with
          web := { s.web with queued := rest, shipped := s.web.shipped ++ [(p.2, q)] }
          ships := s.shipped p.2 q chat storeOk }) := by
  unfold Outbound.pump at h
  split at h
  · next hp =>
      obtain ⟨⟨q, rest⟩, htake, h⟩ := Option.map_eq_some_iff.mp h
      refine ⟨List.contains_iff_mem.mp hp.1, hp.2, q, rest, htake, ?_⟩
      cases outcome with
      | none => exact .inl ⟨rfl, h.symm⟩
      | some o => exact .inr ⟨o.1, o.2, rfl, h.symm⟩
  · cases h

theorem web_afterShipping (s : Outbound) (e : ShipCall) (ships : Shipping Queued) :
    (s.afterShipping e ships).web = s.web := by
  cases e <;> rfl

theorem shipping_cases {e : ShipCall} (h : s.step (.shipping e) = some s') :
    (∀ conn msgId chat storeOk, e ≠ .ship conn msgId chat storeOk) ∧
      ∃ ships, s.ships.step e = some ships ∧ s' = s.afterShipping e ships := by
  cases e with
  | ship conn msgId chat storeOk => cases h
  | _ =>
      simp only [Outbound.step, Option.map_eq_some_iff] at h
      obtain ⟨ships, hships, rfl⟩ := h
      exact ⟨by rintro _ _ _ _ ⟨⟩, ships, hships, rfl⟩

theorem pairSuccess_cases {id : Nat} {jid : Option String} {reply : Bool}
    (h : s.step (.pairSuccess id jid reply) = some s') :
    ¬s.Draining id ∧ ∃ web, s.web.step (.driver id (.frame .pairSuccess reply)) = some web ∧
      s' = { s with web := web, jid := jid } := by
  simp only [Outbound.step] at h
  split at h
  · cases h
  · next hfree =>
      obtain ⟨web, hweb, rfl⟩ := Option.map_eq_some_iff.mp h
      exact ⟨hfree, web, hweb, rfl⟩

theorem session_cases {e : Call Queued} (h : s.step (.session e) = some s') :
    e.Reaches = false ∧ (∀ id ∈ e.driver?, ¬s.Draining id) ∧ ∃ web, s.web.step e = some web ∧
      s' = { s with web := web, payloads := s.payloads.filter fun p => some p.1 ≠ e.driver? } := by
  simp only [Outbound.step] at h
  split at h
  · cases h
  · next hfree =>
      obtain ⟨web, hweb, rfl⟩ := Option.map_eq_some_iff.mp h
      obtain ⟨hreaches, hdrain⟩ := not_or.mp hfree
      exact ⟨by simpa using hreaches, fun id hid hd => hdrain ⟨id, hid, hd⟩, web, hweb, rfl⟩

/-- **On the send path a step is a move, or none.** -/
theorem outbound_move (hstep : s.step e = some s') :
    s'.web.lanes = s.web.lanes ∨ ∃ op, Move s.web.lanes op s'.web.lanes ∧ s.Sends e op := by
  have hown {web : Web Queued} (h : web.lanes = s.web.lanes ∨ web.lanes = s.web.lanes.reset) :
      web.lanes = s.web.lanes ∨ ∃ op, Move s.web.lanes op web.lanes ∧ s.Sends e op := by
    refine h.imp id fun hreset => ⟨.reset, ?_, trivial⟩
    rw [hreset]
    exact .reset
  cases e with
  | enqueueSendPersistent op now storeOk =>
      cases hstep
      unfold Outbound.enqueueSendPersistent
      split
      · next hop =>
          exact .inr ⟨.enqueue (s.tagged op), .enqueue _, by simp [Outbound.Sends, Outbound.entering, hop]⟩
      · exact .inl rfl
  | sendPending place =>
      obtain ⟨q, hq, rfl⟩ := sendPending_cases hstep
      exact .inr ⟨.enqueue q, .enqueue _, hq⟩
  | enqueueSend op =>
      simp only [Outbound.step] at hstep
      split at hstep <;> cases hstep
      exact .inr ⟨.enqueue (s.tagged op), .enqueue _, rfl⟩
  | payload id =>
      simp only [Outbound.step] at hstep
      split at hstep <;> cases hstep
      exact .inl rfl
  | handshakeDone id =>
      obtain ⟨web, login, hweb, -, rfl⟩ := handshakeDone_cases hstep
      refine .inr ⟨.opened [], ?_, rfl, id, rfl⟩
      show Move s.web.lanes _ web.lanes
      rw [lanes_handshakeStep hweb]
      exact .opened _
  | drainOutboundQueue p drainOk =>
      obtain ⟨-, rfl⟩ := drain_cases hstep
      exact .inl rfl
  | redrive p files deleteOk =>
      obtain ⟨-, q, rest, -, ⟨-, -, rfl⟩ | ⟨henters, rfl⟩⟩ := redrive_cases hstep
      · exact .inl rfl
      · exact .inr ⟨.enqueue q, .enqueue _, henters⟩
  | pump p outcome =>
      obtain ⟨hp, hidle, q, rest, htake, hcases⟩ := pump_cases hstep
      obtain ⟨before, after, hqueued, rfl, hfirst⟩ := takeQueued_cases htake
      rcases hcases with ⟨-, rfl⟩ | ⟨chat, storeOk, -, rfl⟩
      · exact .inr ⟨.drops p, .drops p q before after hp hqueued hfirst, trivial⟩
      · exact .inr ⟨.ships p, .ships p q before after hp hqueued hfirst, hidle⟩
  | pairSuccess id jid reply =>
      obtain ⟨-, web, hweb, rfl⟩ := pairSuccess_cases hstep
      exact hown (lanes_step hweb (.inr ⟨id, .pairSuccess, reply, rfl⟩))
  | logout fresh storeOk =>
      cases hstep
      unfold Outbound.logout
      split <;> exact .inl rfl
  | shipping e =>
      obtain ⟨-, ships, -, rfl⟩ := shipping_cases hstep
      exact .inl (by rw [web_afterShipping])
  | session e =>
      obtain ⟨hreaches, -, web, hweb, rfl⟩ := session_cases hstep
      exact hown (lanes_step hweb (.inl hreaches))

/-- A session's pumps share nothing, whatever happens. -/
theorem lanes_sound_step (h : s.web.lanes.Sound) (hstep : s.step e = some s') : s'.web.lanes.Sound := by
  rcases outbound_move hstep with hsame | ⟨op, hmove, -⟩
  · rw [hsame]
    exact h
  · exact sound_move h hmove

/-- What a step adds to the records: what was enqueued, acked and dropped, and who logged in. -/
inductive Adds (s : Outbound) (e : OutboundCall) (s' : Outbound) : Prop
  | nothing (hop : e.op? = none) (henqueued : s'.enqueued = s.enqueued)
      (hacked : s'.acked = s.acked) (hgone : s'.gone = s.gone) (hlogins : s'.logins = s.logins)
  | operation (op : SendOp) (hop : e.op? = some op)
      (henqueued : s'.enqueued = s.enqueued ++ [s.tagged op])
      (hacked : s'.acked = s.acked) (hgone : s'.gone = s.gone) (hlogins : s'.logins = s.logins)
  | ack (conn : Nat) (msgId : String) (error : Option String)
      (he : e = .shipping (.ack conn msgId error)) (hweb : s'.web = s.web)
      (henqueued : s'.enqueued = s.enqueued)
      (hacked : s'.acked = s.acked ++ [(msgId, s.web.nextConn)]) (hgone : s'.gone = s.gone)
      (hlogins : s'.logins = s.logins)
  | login (id : Nat) (login : Option Nat) (he : e = .handshakeDone id)
      (hpayload : (id, login) ∈ s.payloads) (hconn : s'.web.nextConn = s.web.nextConn + 1)
      (henqueued : s'.enqueued = s.enqueued) (hacked : s'.acked = s.acked)
      (hgone : s'.gone = s.gone) (hlogins : s'.logins = s.logins ++ [(s.web.nextConn, login)])
  | drop (p : Nat × Nat) (files : List String) (deleteOk : Bool) (q : Queued)
      (he : e = .redrive p files deleteOk) (hfile : Outbound.isGone files q = true)
      (henqueued : s'.enqueued = s.enqueued) (hacked : s'.acked = s.acked)
      (hgone : s'.gone = s.gone ++ [q]) (hlogins : s'.logins = s.logins)

theorem adds_step (hstep : s.step e = some s') : Adds s e s' := by
  cases e with
  | enqueueSendPersistent op now storeOk =>
      cases hstep
      refine .operation op rfl ?_ ?_ ?_ ?_ <;>
        (unfold Outbound.enqueueSendPersistent; split <;> rfl)
  | sendPending place =>
      obtain ⟨q, -, rfl⟩ := sendPending_cases hstep
      exact .nothing rfl rfl rfl rfl rfl
  | enqueueSend op =>
      simp only [Outbound.step] at hstep
      split at hstep <;> cases hstep
      exact .operation op rfl rfl rfl rfl rfl
  | payload id =>
      simp only [Outbound.step] at hstep
      split at hstep <;> cases hstep
      exact .nothing rfl rfl rfl rfl rfl
  | handshakeDone id =>
      obtain ⟨web, login, hweb, hpayload, rfl⟩ := handshakeDone_cases hstep
      have hconn : web.nextConn = s.web.nextConn + 1 := by
        have hopened := congrArg Lanes.nextConn (lanes_handshakeStep hweb)
        rw [nextConn_opened] at hopened
        exact hopened
      exact .login id login rfl hpayload hconn rfl rfl rfl rfl
  | drainOutboundQueue p drainOk =>
      obtain ⟨-, rfl⟩ := drain_cases hstep
      exact .nothing rfl rfl rfl rfl rfl
  | redrive p files deleteOk =>
      obtain ⟨-, q, rest, -, ⟨hfile, -, rfl⟩ | ⟨-, rfl⟩⟩ := redrive_cases hstep
      · exact .drop p files deleteOk q rfl hfile rfl rfl rfl rfl
      · exact .nothing rfl rfl rfl rfl rfl
  | pump p outcome =>
      obtain ⟨-, -, q, rest, -, ⟨-, rfl⟩ | ⟨chat, storeOk, -, rfl⟩⟩ := pump_cases hstep
      · exact .nothing rfl rfl rfl rfl rfl
      · exact .nothing rfl rfl rfl rfl rfl
  | pairSuccess id jid reply =>
      obtain ⟨-, web, -, rfl⟩ := pairSuccess_cases hstep
      exact .nothing rfl rfl rfl rfl rfl
  | logout fresh storeOk =>
      cases hstep
      unfold Outbound.logout
      split <;> exact .nothing rfl rfl rfl rfl rfl
  | shipping e =>
      obtain ⟨-, ships, -, rfl⟩ := shipping_cases hstep
      cases e with
      | ack conn msgId error => exact .ack conn msgId error rfl rfl rfl rfl rfl rfl
      | _ => exact .nothing rfl rfl rfl rfl rfl
  | session e =>
      obtain ⟨-, -, web, -, rfl⟩ := session_cases hstep
      exact .nothing rfl rfl rfl rfl rfl

/-- **What a step keeps of every lane**: a lane may lose operations; what comes into the channel,
    and what a connection finds there, has to be looked at. -/
theorem lane_invariant {Q : Nat × Nat → List Queued → Prop} (h : s.web.lanes.Sound)
    (hsub : ∀ p l l', l'.Sublist l → Q p l → Q p l')
    (henqueue : ∀ q, s.entering e = some q → ∀ p ∈ s.web.pumps, p.1 = s.web.sendTx →
      Q p (s.web.lanes.lane p) → Q p (s.web.lanes.lane p ++ [q]))
    (hopened : ∀ id, e = .handshakeDone id → ∀ ch ∈ s.web.sendRx,
      Q (ch, s.web.nextConn) (along ch s.web.queued))
    (hstep : s.step e = some s') (hkept : ∀ p ∈ s.web.pumps, Q p (s.web.lanes.lane p)) :
    ∀ p ∈ s'.web.pumps, Q p (s'.web.lanes.lane p) := by
  rcases outbound_move hstep with hsame | ⟨op, hmove, hsends⟩
  · have hpumps : s'.web.pumps = s.web.pumps := congrArg Lanes.pumps hsame
    rw [hsame, hpumps]
    exact hkept
  · refine lanes_kept (s := s.web.lanes) h hsub ?_ hmove hkept
    cases op with
    | enqueue q => exact henqueue q hsends
    | opened first =>
        obtain ⟨rfl, id, rfl⟩ := hsends
        intro ch hch
        rw [List.append_nil]
        exact hopened id rfl ch hch
    | reset => trivial
    | ships p => trivial
    | drops p => trivial

end Steps

/-! ## 6. Rows that were read -/

/-- What is known of the connections that go through their rows. -/
structure Reading (s : Outbound) : Prop where
  pumped : ∀ d ∈ s.drains, d.pump ∈ s.web.pumps
  /-- Before the table is read, nothing was given to the connection. -/
  unread : ∀ d ∈ s.drains, d.read = false →
    (∀ e ∈ s.redriving, e.1 ≠ d.pump.2) ∧ ∀ e ∈ s.web.shipped, e.1 ≠ d.pump.2
  redriving_lt : ∀ e ∈ s.redriving, e.1 < s.web.nextConn

/-- What a step does to the rows that were read. -/
inductive Rereads (s : Outbound) (e : OutboundCall) (s' : Outbound) : Prop
  | same (hother : ∀ p files deleteOk, e ≠ .redrive p files deleteOk)
      (hdrains : ∀ d ∈ s'.drains, d ∈ s.drains ∨
        ∃ ch ∈ s.web.sendRx, d.pump = (ch, s.web.nextConn) ∧ d.pump ∈ s'.web.pumps)
      (hredriving : s'.redriving = s.redriving)
  | drains (p : Nat × Nat) (drainOk : Bool) (he : e = .drainOutboundQueue p drainOk)
      (hdrain : ∃ d ∈ s.drains, d.pump = p ∧ d.read = false) (hweb : s'.web = s.web)
      (hdrains : s'.drains =
        s.drains.map fun d => if d.pump = p then { d with read := true } else d)
      (hredriving : s'.redriving = s.redriving ++ (s.drained drainOk).map fun q => (p.2, q))
  | through (p : Nat × Nat) (files : List String) (deleteOk : Bool) (q : Queued)
      (before after : List (Nat × Queued)) (he : e = .redrive p files deleteOk)
      (hdrain : ∃ d ∈ s.drains, d.pump = p) (hdrains : s'.drains = s.drains)
      (hbefore : s.redriving = before ++ (p.2, q) :: after) (hfirst : ∀ e ∈ before, e.1 ≠ p.2)
      (hredriving : s'.redriving = before ++ after)
      (hweb : s'.web = s.web ∨ s'.web = s.web.enqueueSend q)

section Steps

variable {s s' : Outbound} {e : OutboundCall}

theorem reading_new (status : SessionStatus) (messages : List MessageRow) :
    Reading (Outbound.new status messages) where
  pumped _ hd := nomatch hd
  unread _ hd := nomatch hd
  redriving_lt _ he := nomatch he

/-- A connection that takes the receiver has a pump. -/
theorem mem_pumps_handshake {id : Nat} {web : Web Queued} {ch : Nat} (hrx : s.web.sendRx = some ch)
    (hstep : s.web.step (.driver id (.handshakeDone [])) = some web) :
    (ch, s.web.nextConn) ∈ web.pumps := by
  have hpumps : web.pumps = (s.web.lanes.opened []).pumps :=
    congrArg Lanes.pumps (lanes_handshakeStep hstep)
  rw [hpumps, Lanes.opened, show s.web.lanes.rx = some ch from hrx]
  exact List.mem_append_right _ (List.mem_singleton_self _)

theorem rereads_step (hstep : s.step e = some s') : Rereads s e s' := by
  have hsame (hother : ∀ p files deleteOk, e ≠ .redrive p files deleteOk)
      (hdrains : s'.drains = s.drains) (hredriving : s'.redriving = s.redriving) :
      Rereads s e s' := .same hother (fun d hd => .inl (hdrains ▸ hd)) hredriving
  cases e with
  | handshakeDone id =>
      obtain ⟨web, login, hweb, -, rfl⟩ := handshakeDone_cases hstep
      refine .same (fun _ _ _ h => nomatch h) (fun d hd => ?_) rfl
      refine (List.mem_append.mp hd).imp (fun h => h) fun hnew => ?_
      obtain ⟨ch, hch, rfl⟩ := List.mem_map.mp hnew
      have hrx := Option.mem_toList.mp hch
      exact ⟨ch, hrx, rfl, mem_pumps_handshake hrx hweb⟩
  | drainOutboundQueue p drainOk =>
      obtain ⟨hdrain, rfl⟩ := drain_cases hstep
      exact .drains p drainOk rfl hdrain rfl rfl rfl
  | redrive p files deleteOk =>
      obtain ⟨hdrain, q, rest, htake, hcases⟩ := redrive_cases hstep
      obtain ⟨before, after, hbefore, rfl, hfirst⟩ := takeQueued_cases htake
      rcases hcases with ⟨-, -, rfl⟩ | ⟨-, rfl⟩
      · exact .through p files deleteOk q before after rfl hdrain rfl hbefore hfirst rfl (.inl rfl)
      · exact .through p files deleteOk q before after rfl hdrain rfl hbefore hfirst rfl (.inr rfl)
  | enqueueSendPersistent op now storeOk =>
      cases hstep
      refine hsame (fun _ _ _ h => nomatch h) ?_ ?_ <;>
        (unfold Outbound.enqueueSendPersistent; split <;> rfl)
  | sendPending place =>
      obtain ⟨q, -, rfl⟩ := sendPending_cases hstep
      exact hsame (fun _ _ _ h => nomatch h) rfl rfl
  | enqueueSend op =>
      simp only [Outbound.step] at hstep
      split at hstep <;> cases hstep
      exact hsame (fun _ _ _ h => nomatch h) rfl rfl
  | payload id =>
      simp only [Outbound.step] at hstep
      split at hstep <;> cases hstep
      exact hsame (fun _ _ _ h => nomatch h) rfl rfl
  | pump p outcome =>
      obtain ⟨-, -, q, rest, -, ⟨-, rfl⟩ | ⟨chat, storeOk, -, rfl⟩⟩ := pump_cases hstep
      · exact hsame (fun _ _ _ h => nomatch h) rfl rfl
      · exact hsame (fun _ _ _ h => nomatch h) rfl rfl
  | pairSuccess id jid reply =>
      obtain ⟨-, web, -, rfl⟩ := pairSuccess_cases hstep
      exact hsame (fun _ _ _ h => nomatch h) rfl rfl
  | logout fresh storeOk =>
      cases hstep
      refine hsame (fun _ _ _ h => nomatch h) ?_ ?_ <;> (unfold Outbound.logout; split <;> rfl)
  | shipping e =>
      obtain ⟨-, ships, -, rfl⟩ := shipping_cases hstep
      refine hsame (fun _ _ _ h => nomatch h) ?_ ?_ <;> cases e <;> rfl
  | session e =>
      obtain ⟨-, -, web, -, rfl⟩ := session_cases hstep
      exact hsame (fun _ _ _ h => nomatch h) rfl rfl

/-- Connections and pumps stay; a connection is given something by a pump that is not busy. -/
theorem lanes_grow (hstep : s.step e = some s') :
    s.web.pumps ⊆ s'.web.pumps ∧ s.web.nextConn ≤ s'.web.nextConn ∧
      ∀ x ∈ s'.web.shipped, x ∈ s.web.shipped ∨ ∃ p ∈ s.web.pumps, ¬s.Busy p ∧ x.1 = p.2 := by
  have hlanes {l : Lanes Queued} (hl : s'.web.lanes = l) : s'.web.pumps = l.pumps ∧
      s'.web.nextConn = l.nextConn ∧ s'.web.shipped = l.shipped :=
    ⟨congrArg Lanes.pumps hl, congrArg Lanes.nextConn hl, congrArg Lanes.shipped hl⟩
  rcases outbound_move hstep with hsame | ⟨op, hmove, hsends⟩
  · obtain ⟨hpumps, hconn, hshipped⟩ := hlanes hsame
    rw [hpumps, hconn, hshipped]
    exact ⟨List.Subset.refl _, Nat.le_refl _, fun x hx => .inl hx⟩
  · refine ⟨?_, nextConn_move hmove, ?_⟩
    · generalize hl : s'.web.lanes = l at hmove
      rw [(hlanes hl).1]
      cases hmove with
      | opened first =>
          unfold Lanes.opened
          split
          · exact List.Subset.refl _
          · exact List.subset_append_left _ _
      | enqueue | reset | ships | drops => exact List.Subset.refl _
    · generalize hl : s'.web.lanes = l at hmove
      rw [(hlanes hl).2.2]
      cases hmove with
      | opened first =>
          unfold Lanes.opened
          split <;> exact fun x hx => .inl hx
      | ships p a before after hp =>
          intro x hx
          refine (List.mem_append.mp hx).imp (fun h => h) fun hnew => ?_
          exact ⟨p, hp, hsends, congrArg Prod.fst (List.mem_singleton.mp hnew)⟩
      | enqueue | reset | drops => exact fun x hx => .inl hx

theorem reading_step (hs : s.web.lanes.Sound) (h : Reading s) (hstep : s.step e = some s') :
    Reading s' := by
  obtain ⟨hpumps, hconn, hshipped⟩ := lanes_grow hstep
  -- A pump that ships is through with the table.
  have hsilent {d : Drain} (hd : d ∈ s.drains) (hread : d.read = false) :
      ∀ x ∈ s'.web.shipped, x.1 ≠ d.pump.2 := by
    intro x hx he
    rcases hshipped x hx with hold | ⟨p, hp, hidle, hx⟩
    · exact (h.unread d hd hread).2 x hold he
    · have hsame : d.pump = p := by
        by_contra hne
        exact (hs.distinct (h.pumped d hd) hp hne).2 (he.symm.trans hx)
      exact hidle (.inl ⟨d, hd, hsame, hread⟩)
  cases rereads_step hstep with
  | same _ hdrains hredriving =>
      refine ⟨fun d hd => ?_, fun d hd hread => ?_, fun x hx => ?_⟩
      · rcases hdrains d hd with hold | ⟨ch, -, -, hmem⟩
        · exact hpumps (h.pumped d hold)
        · exact hmem
      · rw [hredriving]
        rcases hdrains d hd with hold | ⟨ch, -, hpump, -⟩
        · exact ⟨(h.unread d hold hread).1, hsilent hold hread⟩
        · rw [hpump]
          refine ⟨fun x hx => Nat.ne_of_lt (h.redriving_lt x hx), fun x hx => Nat.ne_of_lt ?_⟩
          rcases hshipped x hx with hold | ⟨p, hp, -, hxp⟩
          · obtain ⟨p, hp, hxp⟩ := hs.pumped x hold
            exact hxp ▸ (hs.pumps_lt p hp).2
          · exact hxp ▸ (hs.pumps_lt p hp).2
      · exact Nat.lt_of_lt_of_le (h.redriving_lt x (hredriving ▸ hx)) hconn
  | drains p drainOk _ hdrain hweb hdrains hredriving =>
      obtain ⟨d₀, hd₀, rfl, -⟩ := hdrain
      have hp := h.pumped d₀ hd₀
      have hbefore {d : Drain} (hd : d ∈ s'.drains) : (∃ d' ∈ s.drains, d'.pump = d.pump) ∧
          (d.read = false → d ∈ s.drains ∧ d.pump ≠ d₀.pump) := by
        rw [hdrains] at hd
        obtain ⟨d', hd', rfl⟩ := List.mem_map.mp hd
        split
        · exact ⟨⟨d', hd', rfl⟩, fun hread => nomatch hread⟩
        · next hne => exact ⟨⟨d', hd', rfl⟩, fun _ => ⟨hd', hne⟩⟩
      refine ⟨fun d hd => ?_, fun d hd hread => ?_, fun x hx => ?_⟩
      · obtain ⟨⟨d', hd', he⟩, -⟩ := hbefore hd
        exact hpumps (he ▸ h.pumped d' hd')
      · obtain ⟨hold, hne⟩ := (hbefore hd).2 hread
        refine ⟨fun x hx => ?_, hsilent hold hread⟩
        rw [hredriving] at hx
        rcases List.mem_append.mp hx with hx | hnew
        · exact (h.unread d hold hread).1 x hx
        · obtain ⟨q, -, rfl⟩ := List.mem_map.mp hnew
          exact (hs.distinct hp (h.pumped d hold) hne.symm).2
      · rw [hredriving] at hx
        rcases List.mem_append.mp hx with hx | hnew
        · exact Nat.lt_of_lt_of_le (h.redriving_lt x hx) hconn
        · obtain ⟨q, -, rfl⟩ := List.mem_map.mp hnew
          exact Nat.lt_of_lt_of_le (hs.pumps_lt _ hp).2 hconn
  | through p files deleteOk q before after _ _ hdrains hbefore _ hredriving =>
      have hsub : ∀ x ∈ s'.redriving, x ∈ s.redriving := by
        rw [hredriving, hbefore]
        intro x hx
        exact (List.mem_append.mp hx).elim (List.mem_append_left _)
          fun hx => List.mem_append_right _ (List.mem_cons_of_mem _ hx)
      refine ⟨fun d hd => hpumps (h.pumped d (hdrains ▸ hd)), fun d hd hread => ?_,
        fun x hx => Nat.lt_of_lt_of_le (h.redriving_lt x (hsub x hx)) hconn⟩
      rw [hdrains] at hd
      exact ⟨fun x hx => (h.unread d hd hread).1 x (hsub x hx), hsilent hd hread⟩

end Steps

end Ruwa.Session
