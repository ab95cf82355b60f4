/-
  File:      Ruwa/Session/Shipping.lean
  Subject:   A MESSAGE ON ITS WAY (`session.rs`: the end of `encrypt_inner_proto_and_ship` and of
             `send_group_message`, the ack dispatch of `run_connection`).

  Whoever ships a message registers for its ack, writes `sent`, and leaves a task behind that
  waits for the ack. The recv loop tells that task the class of the ack and nothing else; the task
  writes `delivered`, drops the row of the outbound queue and announces the delivery.

  * `Shipping` -- the tables, the waiting tasks, the events; `Shipping.step` -- the steps;
  * `Kept` -- rows that did not go back;
  * **`status_truthful`** -- runs in which no delivered message is shipped again, no message is
    acked twice, and no ack is an error;
  * **`status_untruthful`** -- an error ack; a message that is shipped twice.

  The moving of rows from one chat to another is left out.
-/
import Ruwa.Session.Messages
import Ruwa.Library.Run
import Mathlib.Data.List.Perm.Basic

namespace Ruwa.Session

open Ruwa.Library

variable {α : Type}

/-! ## 1. What is shared -/

/-- What became of the channel that a task waits on. -/
inductive Signal
  /-- The recv loop sent the class of an ack. -/
  | acked
  /-- Its sender is gone: another registration took its place, or the dispatcher went. -/
  | dropped
  deriving DecidableEq

/-- The task that is left behind by a shipping. While it has no signal, its sender is in the
    `pending_acks` of the connection. -/
structure Waiter where
  conn : Nat
  msgId : String
  chat : String
  signal : Option Signal
  deriving DecidableEq

/-- The events about messages that are sent. -/
inductive ShipEvent
  | messageSent (id chat : String)
  | messageDelivered (id chat : String)
  deriving DecidableEq

/-- A row of one session's `outbound_queue`. -/
structure QueueRow (α : Type) where
  msgId : String
  op : α
  createdAt : Int
  deriving DecidableEq

structure Shipping (α : Type) where
  messages : List MessageRow
  /-- `outbound_queue`, in the order of insertion. -/
  queue : List (QueueRow α)
  waiters : List Waiter
  /-- `pending_ack_nodes`, by connection. -/
  pendingAckNodes : List (Nat × String)
  events : List ShipEvent

/-- The sender of the task's channel is what `pending_acks` has for the id. -/
def Waiter.Awaits (w : Waiter) (conn : Nat) (msgId : String) : Prop :=
  w.conn = conn ∧ w.msgId = msgId ∧ w.signal = none

instance (w : Waiter) (conn : Nat) (msgId : String) : Decidable (w.Awaits conn msgId) :=
  inferInstanceAs (Decidable (_ ∧ _))

/-- Whoever awaits the ack gets the signal. -/
def Waiter.told (w : Waiter) (conn : Nat) (msgId : String) (signal : Signal) : Waiter :=
  if w.Awaits conn msgId then { w with signal := some signal } else w

/-- `outbound_queue_delete`. -/
def outboundQueueDelete (queue : List (QueueRow α)) (msgId : String) : List (QueueRow α) :=
  queue.filter fun row => row.msgId ≠ msgId

namespace Shipping

/-- A process that starts, with what the tables hold. -/
def new (messages : List MessageRow) (queue : List (QueueRow α)) : Shipping α :=
  ⟨messages, queue, [], [], []⟩

/-! ## 2. What the functions do -/

def tell (s : Shipping α) (conn : Nat) (msgId : String) (signal : Signal) : Shipping α :=
  { s with waiters := s.waiters.map fun w => w.told conn msgId signal }

/-- `register_ack` takes the place of an earlier registration. -/
def registerAck (s : Shipping α) (conn : Nat) (msgId : String) : Shipping α :=
  s.tell conn msgId .dropped

def emit (s : Shipping α) (ev : ShipEvent) : Shipping α := { s with events := s.events ++ [ev] }

/-- `update_message_status`. -/
def updateMessageStatus (s : Shipping α) (msgId : String) (status : MessageStatus) : Shipping α :=
  { s with messages := messageSetStatus s.messages msgId status }

/-- The tail of a shipping. If `sent` cannot be written the function returns, with the node sent. -/
def ship (s : Shipping α) (conn : Nat) (msgId chat : String) (storeOk : Bool) : Shipping α :=
  let s := s.registerAck conn msgId
  if storeOk then
    let s := (s.updateMessageStatus msgId .sent).emit (.messageSent msgId chat)
    { s with waiters := s.waiters ++ [⟨conn, msgId, chat, none⟩] }
  else s

/-- An ack arrives. Its error code is logged; a waiter for the whole node comes first. -/
def ackArrives (s : Shipping α) (conn : Nat) (msgId : String) (_error : Option String) :
    Shipping α :=
  if (conn, msgId) ∈ s.pendingAckNodes then
    { s with pendingAckNodes := s.pendingAckNodes.erase (conn, msgId) }
  else s.tell conn msgId .acked

/-- The task goes on after an ack; what the store fails at is logged. -/
def delivered (s : Shipping α) (w : Waiter) (statusOk deleteOk : Bool) : Shipping α :=
  let s := if statusOk then s.updateMessageStatus w.msgId .delivered else s
  let s := if deleteOk then { s with queue := outboundQueueDelete s.queue w.msgId } else s
  s.emit (.messageDelivered w.msgId w.chat)

end Shipping

/-- What can happen. Tasks are named by their place. -/
inductive ShipCall
  /-- `persist_outgoing`, with status `queued`. -/
  | persistOutgoing (m : NewMessage)
  /-- A message that arrives, or comes with the history. -/
  | persistIncoming (m : NewMessage)
  | ship (conn : Nat) (msgId chat : String) (storeOk : Bool)
  /-- A registration that nobody waits on: the resend after a retry receipt, or a request to the
      own phone. -/
  | register (conn : Nat) (msgId : String)
  /-- `register_ack_node`. -/
  | registerNode (conn : Nat) (msgId : String)
  | ack (conn : Nat) (msgId : String) (error : Option String)
  /-- A task with a signal goes on. -/
  | wakes (place : Nat) (statusOk deleteOk : Bool)
  /-- 60 s without one. -/
  | timesOut (place : Nat)
  /-- Nobody has the dispatcher of the connection any more. -/
  | dispatcherGone (conn : Nat)
  deriving DecidableEq

namespace Shipping

/-- A failed insert changes nothing. -/
def insert (s : Shipping α) (m : NewMessage) (ignoreConflict : Bool) : Shipping α :=
  match messageInsert s.messages m ignoreConflict with
  | .ok rows => { s with messages := rows }
  | .error _ => s

def dropDispatcher (s : Shipping α) (conn : Nat) : Shipping α :=
  { s with
    waiters := s.waiters.map fun w => w.told conn w.msgId .dropped
    pendingAckNodes := s.pendingAckNodes.filter fun p => p.1 ≠ conn }

def step (s : Shipping α) : ShipCall → Option (Shipping α)
  | .persistOutgoing m => some (s.insert { m with status := some .queued } false)
  | .persistIncoming m => some (s.insert { m with status := none } true)
  | .ship conn msgId chat storeOk => some (s.ship conn msgId chat storeOk)
  | .register conn msgId => some (s.registerAck conn msgId)
  | .registerNode conn msgId =>
      some { s with pendingAckNodes := (conn, msgId) :: s.pendingAckNodes.erase (conn, msgId) }
  | .ack conn msgId error => some (s.ackArrives conn msgId error)
  | .wakes place statusOk deleteOk =>
      match s.waiters[place]? with
      | none => none
      | some w =>
          match w.signal with
          | none => none
          | some .acked =>
              some ({ s with waiters := s.waiters.eraseIdx place }.delivered w statusOk deleteOk)
          | some .dropped => some { s with waiters := s.waiters.eraseIdx place }
  | .timesOut place =>
      match s.waiters[place]? with
      | none => none
      | some w =>
          if w.signal = none then some { s with waiters := s.waiters.eraseIdx place } else none
  | .dispatcherGone conn => some (s.dropDispatcher conn)

end Shipping

/-! ## 3. What is promised -/

/-- From `delivered` nowhere, from `sent` to `delivered` only. -/
def MessageStatus.Forward (before after : MessageStatus) : Prop :=
  (before = .delivered → after = .delivered) ∧
    (before = .sent → after = .sent ∨ after = .delivered)

/-- Every row is in its place, and its status did not go back. -/
def Kept (rows rows' : List MessageRow) : Prop :=
  ∀ (i : Nat) (row : MessageRow), rows[i]? = some row → ∃ row', rows'[i]? = some row' ∧
    row'.chatJid = row.chatJid ∧ row'.messageId = row.messageId ∧ row.status.Forward row'.status

/-- The delivery of the message was announced. -/
def ShipEvent.IsDelivered (msgId : String) : ShipEvent → Bool
  | .messageDelivered id _ => id = msgId
  | .messageSent _ _ => false

/-- A task for the message was told of an ack. -/
def Waiter.isAcked (msgId : String) (w : Waiter) : Bool := w.msgId = msgId ∧ w.signal = some .acked

/-- How often the delivery was announced, or is about to be. -/
def Shipping.announcements (s : Shipping α) (msgId : String) : Nat :=
  s.waiters.countP (Waiter.isAcked msgId) + s.events.countP (ShipEvent.IsDelivered msgId)

/-- No message is shipped that is delivered. An ack that somebody awaits is no error, and the first
    of its message. -/
def Truthful (s : Shipping α) : ShipCall → Prop
  | .ship _ msgId _ storeOk => storeOk = true →
      ∀ row ∈ s.messages, row.messageId = msgId → row.status ≠ .delivered
  | .ack conn msgId error => (conn, msgId) ∉ s.pendingAckNodes →
      (∃ w ∈ s.waiters, w.Awaits conn msgId) → error = none ∧ s.announcements msgId = 0
  | _ => True

instance (s : Shipping α) (e : ShipCall) : Decidable (Truthful s e) := by
  cases e <;> unfold Truthful <;> infer_instance

/-! ## 4. Rows -/

theorem MessageStatus.Forward.refl (status : MessageStatus) : status.Forward status :=
  ⟨id, .inl⟩

theorem MessageStatus.Forward.trans {a b c : MessageStatus} (h : a.Forward b) (h' : b.Forward c) :
    a.Forward c := by
  refine ⟨fun ha => h'.1 (h.1 ha), fun ha => ?_⟩
  rcases h.2 ha with hb | hb
  · exact h'.2 hb
  · exact .inr (h'.1 hb)

/-- To `delivered` from anywhere, to `sent` from anywhere but `delivered`. -/
theorem MessageStatus.forward_delivered (status : MessageStatus) : status.Forward .delivered :=
  ⟨fun _ => rfl, fun _ => .inr rfl⟩

theorem MessageStatus.forward_sent {status : MessageStatus} (h : status ≠ .delivered) :
    status.Forward .sent :=
  ⟨fun he => absurd he h, fun _ => .inl rfl⟩

section Rows

variable {rows rows' rows'' : List MessageRow}

theorem Kept.refl (rows : List MessageRow) : Kept rows rows :=
  fun _ row hrow => ⟨row, hrow, rfl, rfl, .refl _⟩

theorem Kept.trans (h : Kept rows rows') (h' : Kept rows' rows'') : Kept rows rows'' := by
  intro i row hrow
  obtain ⟨row', hrow', hchat, hid, hforward⟩ := h i row hrow
  obtain ⟨row'', hrow'', hchat', hid', hforward'⟩ := h' i row' hrow'
  exact ⟨row'', hrow'', hchat'.trans hchat, hid'.trans hid, hforward.trans hforward'⟩

theorem kept_append (rows new : List MessageRow) : Kept rows (rows ++ new) := by
  intro i row hrow
  refine ⟨row, ?_, rfl, rfl, .refl _⟩
  rw [List.getElem?_append_left (List.getElem?_eq_some_iff.mp hrow).1, hrow]

theorem kept_map {f : MessageRow → MessageRow}
    (h : ∀ row ∈ rows, (f row).chatJid = row.chatJid ∧ (f row).messageId = row.messageId ∧
      row.status.Forward (f row).status) : Kept rows (rows.map f) := by
  intro i row hrow
  exact ⟨f row, by rw [List.getElem?_map, hrow, Option.map_some],
    h row (List.mem_of_getElem? hrow)⟩

theorem kept_messageSetStatus {msgId : String} {status : MessageStatus}
    (h : ∀ row ∈ rows, row.messageId = msgId → row.status.Forward status) :
    Kept rows (messageSetStatus rows msgId status) := by
  refine kept_map fun row hrow => ?_
  by_cases hid : row.messageId = msgId
  · rw [if_pos hid]
    exact ⟨rfl, rfl, h row hrow hid⟩
  · rw [if_neg hid]
    exact ⟨rfl, rfl, .refl _⟩

/-- An insert adds a row, or fills one that could not be decrypted. -/
theorem messageInsert_cases {m : NewMessage} {ignoreConflict : Bool}
    (h : messageInsert rows m ignoreConflict = .ok rows') :
    rows' = rows ++ [m.row] ∨ ∃ f : MessageRow → MessageRow, rows' = rows.map f ∧
      ∀ row, (f row).chatJid = row.chatJid ∧ (f row).messageId = row.messageId ∧
        (f row).status = row.status := by
  unfold messageInsert at h
  split at h
  · split at h
    · cases h
      refine .inr ⟨_, rfl, fun row => ?_⟩
      split <;> exact ⟨rfl, rfl, rfl⟩
    · cases h
  · cases h
    exact .inl rfl

end Rows

/-! ## 5. What a step keeps -/

section Steps

variable {s s' : Shipping α} {e : ShipCall}

/-- A task goes on with its signal. -/
theorem wakes_cases {place : Nat} {statusOk deleteOk : Bool}
    (h : s.step (.wakes place statusOk deleteOk) = some s') :
    ∃ w, s.waiters[place]? = some w ∧
      (w.signal = some .acked ∧
          s' = { s with waiters := s.waiters.eraseIdx place }.delivered w statusOk deleteOk ∨
        w.signal = some .dropped ∧ s' = { s with waiters := s.waiters.eraseIdx place }) := by
  simp only [Shipping.step] at h
  split at h
  · cases h
  · next w hplace =>
      refine ⟨w, hplace, ?_⟩
      split at h <;> cases h
      · next hsignal => exact .inl ⟨hsignal, rfl⟩
      · next hsignal => exact .inr ⟨hsignal, rfl⟩

theorem timesOut_cases {place : Nat} (h : s.step (.timesOut place) = some s') :
    ∃ w, s.waiters[place]? = some w ∧ w.signal = none ∧
      s' = { s with waiters := s.waiters.eraseIdx place } := by
  simp only [Shipping.step] at h
  split at h
  · cases h
  · next w hplace =>
      split at h <;> cases h
      next hsignal => exact ⟨w, hplace, hsignal, rfl⟩

theorem kept_insert (s : Shipping α) (m : NewMessage) (ignoreConflict : Bool) :
    Kept s.messages (s.insert m ignoreConflict).messages := by
  unfold Shipping.insert
  split
  · next rows hrows =>
      rcases messageInsert_cases hrows with rfl | ⟨f, rfl, hf⟩
      · exact kept_append _ _
      · refine kept_map fun row _ => ⟨(hf row).1, (hf row).2.1, ?_⟩
        rw [(hf row).2.2]
        exact .refl _
  · exact .refl _

theorem kept_delivered (s : Shipping α) (w : Waiter) (statusOk deleteOk : Bool) :
    Kept s.messages (s.delivered w statusOk deleteOk).messages := by
  have hset : Kept s.messages (messageSetStatus s.messages w.msgId .delivered) :=
    kept_messageSetStatus fun row _ _ => row.status.forward_delivered
  unfold Shipping.delivered
  cases statusOk <;> cases deleteOk
  · exact .refl _
  · exact .refl _
  · exact hset
  · exact hset

/-- **No row goes back** in one step. -/
theorem kept_step (htrue : Truthful s e) (hstep : s.step e = some s') :
    Kept s.messages s'.messages := by
  cases e with
  | persistOutgoing m =>
      cases hstep
      exact kept_insert s _ false
  | persistIncoming m =>
      cases hstep
      exact kept_insert s _ true
  | ship conn msgId chat storeOk =>
      cases hstep
      unfold Shipping.ship
      cases storeOk with
      | false => exact .refl _
      | true =>
          exact kept_messageSetStatus fun row hrow hid =>
            MessageStatus.forward_sent (htrue rfl row hrow hid)
  | register conn msgId =>
      cases hstep
      exact .refl _
  | registerNode conn msgId =>
      cases hstep
      exact .refl _
  | ack conn msgId error =>
      cases hstep
      unfold Shipping.ackArrives
      split <;> exact .refl _
  | wakes place statusOk deleteOk =>
      obtain ⟨w, -, ⟨-, rfl⟩ | ⟨-, rfl⟩⟩ := wakes_cases hstep
      · exact kept_delivered { s with waiters := s.waiters.eraseIdx place } w statusOk deleteOk
      · exact .refl _
  | timesOut place =>
      obtain ⟨w, -, -, rfl⟩ := timesOut_cases hstep
      exact .refl _
  | dispatcherGone conn =>
      cases hstep
      exact .refl _

/-- No two tasks await the same ack. -/
def Alone (waiters : List Waiter) : Prop :=
  waiters.Pairwise fun w w' => ∀ conn msgId, w.Awaits conn msgId → ¬w'.Awaits conn msgId

theorem awaits_told {w : Waiter} {conn conn' : Nat} {msgId msgId' : String} {signal : Signal}
    (h : (w.told conn msgId signal).Awaits conn' msgId') :
    w.Awaits conn' msgId' ∧ ¬w.Awaits conn msgId := by
  unfold Waiter.told at h
  split at h
  · exact absurd h.2.2 (by simp)
  · next hother => exact ⟨h, hother⟩

theorem alone_map {waiters : List Waiter} {f : Waiter → Waiter} (h : Alone waiters)
    (hf : ∀ w conn msgId, (f w).Awaits conn msgId → w.Awaits conn msgId) :
    Alone (waiters.map f) := by
  refine List.Pairwise.map f ?_ h
  intro w w' hww conn msgId hw hw'
  exact hww conn msgId (hf w conn msgId hw) (hf w' conn msgId hw')

theorem alone_step (h : Alone s.waiters) (hstep : s.step e = some s') : Alone s'.waiters := by
  have htell (conn : Nat) (msgId : String) (signal : Signal) :
      Alone (s.tell conn msgId signal).waiters :=
    alone_map h fun _ _ _ hw => (awaits_told hw).1
  cases e with
  | persistOutgoing m =>
      cases hstep
      unfold Shipping.insert
      split <;> exact h
  | persistIncoming m =>
      cases hstep
      unfold Shipping.insert
      split <;> exact h
  | ship conn msgId chat storeOk =>
      cases hstep
      unfold Shipping.ship
      cases storeOk with
      | false => exact htell conn msgId .dropped
      | true =>
          -- Whoever awaited the ack before does not any more.
          refine List.pairwise_append.mpr ⟨htell conn msgId .dropped, List.pairwise_singleton _ _, ?_⟩
          intro w hw w' hw' conn' msgId' hawaits hawaits'
          obtain ⟨w₀, -, rfl⟩ := List.mem_map.mp hw
          rw [List.mem_singleton.mp hw'] at hawaits'
          obtain ⟨rfl, rfl, -⟩ := hawaits'
          exact (awaits_told hawaits).2 (awaits_told hawaits).1
  | register conn msgId =>
      cases hstep
      exact htell conn msgId .dropped
  | registerNode conn msgId =>
      cases hstep
      exact h
  | ack conn msgId error =>
      cases hstep
      unfold Shipping.ackArrives
      split
      · exact h
      · exact htell conn msgId .acked
  | wakes place statusOk deleteOk =>
      have herase : Alone (s.waiters.eraseIdx place) := h.sublist (List.eraseIdx_sublist _ _)
      obtain ⟨w, -, ⟨-, rfl⟩ | ⟨-, rfl⟩⟩ := wakes_cases hstep
      · cases statusOk <;> cases deleteOk <;> exact herase
      · exact herase
  | timesOut place =>
      obtain ⟨w, -, -, rfl⟩ := timesOut_cases hstep
      exact h.sublist (List.eraseIdx_sublist _ _)
  | dispatcherGone conn =>
      cases hstep
      exact alone_map h fun _ _ _ hw => (awaits_told hw).1

/-- Without an ack nobody is told of one. -/
theorem isAcked_told_dropped (w : Waiter) (conn : Nat) (msgId msgId' : String) :
    (w.told conn msgId .dropped).isAcked msgId' = w.isAcked msgId' := by
  unfold Waiter.told
  split
  · next h => simp [Waiter.isAcked, h.2.2]
  · rfl

theorem isAcked_told_acked (w : Waiter) (conn : Nat) (msgId msgId' : String) :
    (w.told conn msgId .acked).isAcked msgId' =
      (w.isAcked msgId' || (decide (msgId' = msgId) && decide (w.Awaits conn msgId))) := by
  unfold Waiter.told
  by_cases h : w.Awaits conn msgId
  · rw [if_pos h]
    simp [Waiter.isAcked, h, h.2.1, h.2.2, eq_comm]
  · rw [if_neg h]
    simp [h]

/-- One ack is one announcement at most. -/
theorem countP_told_acked {waiters : List Waiter} (h : Alone waiters) (conn : Nat)
    (msgId msgId' : String) :
    (waiters.map fun w => w.told conn msgId .acked).countP (Waiter.isAcked msgId') ≤
      waiters.countP (Waiter.isAcked msgId') +
        if msgId' = msgId ∧ ∃ w ∈ waiters, w.Awaits conn msgId then 1 else 0 := by
  induction waiters with
  | nil => simp
  | cons w waiters ih =>
      obtain ⟨hhead, htail⟩ := List.pairwise_cons.mp h
      have hrest := ih htail
      simp only [List.map_cons, List.countP_cons, isAcked_told_acked]
      by_cases hw : msgId' = msgId ∧ w.Awaits conn msgId
      · obtain ⟨rfl, hw⟩ := hw
        -- The others do not await it.
        have hnone : ¬∃ w' ∈ waiters, w'.Awaits conn msgId' := by
          rintro ⟨w', hw', hawaits⟩
          exact hhead w' hw' conn msgId' hw hawaits
        have hacked : w.isAcked msgId' = false := by simp [Waiter.isAcked, hw.2.2]
        simp [hnone] at hrest
        simp [hw, hacked, hrest]
      · have hsame : (decide (msgId' = msgId) && decide (w.Awaits conn msgId)) = false := by
          simpa [not_and] using hw
        rw [hsame, Bool.or_false]
        split at hrest
        · next hex =>
            obtain ⟨hid, w', hw', hawaits⟩ := hex
            have hex' : msgId' = msgId ∧ ∃ w' ∈ w :: waiters, w'.Awaits conn msgId :=
              ⟨hid, w', List.mem_cons_of_mem w hw', hawaits⟩
            rw [if_pos hex']
            omega
        · omega

theorem countP_eraseIdx {w : Waiter} {waiters : List Waiter} {place : Nat} (p : Waiter → Bool)
    (h : waiters[place]? = some w) :
    waiters.countP p = (waiters.eraseIdx place).countP p + if p w then 1 else 0 := by
  obtain ⟨hlt, hw⟩ := List.getElem?_eq_some_iff.mp h
  rw [← (List.getElem_cons_eraseIdx_perm hlt).countP_eq p, List.countP_cons, hw]

/-- Waiters that are dropped announce nothing more. -/
theorem countP_told_dropped (waiters : List Waiter) (conn : Nat) (of : Waiter → String)
    (msgId : String) :
    (waiters.map fun w => w.told conn (of w) .dropped).countP (Waiter.isAcked msgId) =
      waiters.countP (Waiter.isAcked msgId) := by
  rw [List.countP_map]
  refine List.countP_congr fun w _ => ?_
  rw [Function.comp_apply, isAcked_told_dropped]

theorem announcements_tell_dropped (s : Shipping α) (conn : Nat) (msgId msgId' : String) :
    (s.tell conn msgId .dropped).announcements msgId' = s.announcements msgId' :=
  congrArg (· + s.events.countP (ShipEvent.IsDelivered msgId'))
    (countP_told_dropped s.waiters conn (fun _ => msgId) msgId')

/-- **A delivery is announced by an ack that somebody awaits**, and by nothing else. -/
theorem announcements_step (h : Alone s.waiters) (htrue : Truthful s e)
    (hstep : s.step e = some s') (msgId : String) :
    s'.announcements msgId ≤ s.announcements msgId ∨
      (∃ conn, e = .ack conn msgId none) ∧ s'.announcements msgId ≤ 1 := by
  cases e with
  | persistOutgoing m =>
      cases hstep
      unfold Shipping.insert
      split <;> exact .inl (Nat.le_refl _)
  | persistIncoming m =>
      cases hstep
      unfold Shipping.insert
      split <;> exact .inl (Nat.le_refl _)
  | ship conn id chat storeOk =>
      cases hstep
      refine .inl (Nat.le_of_eq ?_)
      have hdropped := announcements_tell_dropped s conn id msgId
      unfold Shipping.ship
      cases storeOk with
      | false => exact hdropped
      | true =>
          rw [← hdropped]
          simp [Shipping.announcements, Shipping.registerAck, Shipping.updateMessageStatus,
            Shipping.emit, Waiter.isAcked, ShipEvent.IsDelivered]
  | register conn id =>
      cases hstep
      exact .inl (Nat.le_of_eq (announcements_tell_dropped s conn id msgId))
  | registerNode conn id =>
      cases hstep
      exact .inl (Nat.le_refl _)
  | ack conn id error =>
      cases hstep
      unfold Shipping.ackArrives
      split
      · exact .inl (Nat.le_refl _)
      · next hnode =>
          have hcount := countP_told_acked h conn id msgId
          have hafter : (s.tell conn id .acked).announcements msgId ≤ s.announcements msgId +
              if msgId = id ∧ ∃ w ∈ s.waiters, w.Awaits conn id then 1 else 0 := by
            unfold Shipping.announcements Shipping.tell
            dsimp only
            omega
          split at hafter
          · next hawaited =>
              obtain ⟨rfl, hex⟩ := hawaited
              obtain ⟨rfl, hzero⟩ := htrue hnode hex
              rw [hzero] at hafter
              exact .inr ⟨⟨conn, rfl⟩, hafter⟩
          · exact .inl hafter
  | wakes place statusOk deleteOk =>
      obtain ⟨w, hplace, hcases⟩ := wakes_cases hstep
      have hcount := countP_eraseIdx (Waiter.isAcked msgId) hplace
      rcases hcases with ⟨hsignal, rfl⟩ | ⟨-, rfl⟩
      · -- What is announced now was about to be.
        refine .inl (Nat.le_of_eq ?_)
        have hacked : w.isAcked msgId = ShipEvent.IsDelivered msgId
            (.messageDelivered w.msgId w.chat) := by
          simp [Waiter.isAcked, ShipEvent.IsDelivered, hsignal]
        rw [hacked] at hcount
        unfold Shipping.announcements Shipping.delivered
        cases statusOk <;> cases deleteOk <;>
          simp [Shipping.emit, Shipping.updateMessageStatus, List.countP_cons, hcount] <;>
          omega
      · refine .inl ?_
        unfold Shipping.announcements
        dsimp only
        omega
  | timesOut place =>
      obtain ⟨w, hplace, -, rfl⟩ := timesOut_cases hstep
      have hcount := countP_eraseIdx (Waiter.isAcked msgId) hplace
      refine .inl ?_
      unfold Shipping.announcements
      dsimp only
      omega
  | dispatcherGone conn =>
      cases hstep
      refine .inl (Nat.le_of_eq ?_)
      have hcount := countP_told_dropped s.waiters conn Waiter.msgId msgId
      exact congrArg (· + s.events.countP (ShipEvent.IsDelivered msgId)) hcount

/-- A row that is delivered was before, or an ack for it was taken. -/
theorem stored_step (hstep : s.step e = some s') {row' : MessageRow} (hrow' : row' ∈ s'.messages)
    (hdelivered : row'.status = .delivered) :
    (∃ row ∈ s.messages, row.messageId = row'.messageId ∧ row.status = .delivered) ∨
      0 < s.announcements row'.messageId := by
  have hsame (h : row' ∈ s.messages) :
      (∃ row ∈ s.messages, row.messageId = row'.messageId ∧ row.status = .delivered) ∨
        0 < s.announcements row'.messageId := .inl ⟨row', h, rfl, hdelivered⟩
  have hinsert (m : NewMessage) (ignoreConflict : Bool) (hm : m.row.status ≠ .delivered)
      (h : row' ∈ (s.insert m ignoreConflict).messages) :
      (∃ row ∈ s.messages, row.messageId = row'.messageId ∧ row.status = .delivered) ∨
        0 < s.announcements row'.messageId := by
    unfold Shipping.insert at h
    split at h
    · next rows hrows =>
        rcases messageInsert_cases hrows with rfl | ⟨f, rfl, hf⟩
        · rcases List.mem_append.mp h with hold | hnew
          · exact hsame hold
          · rw [List.mem_singleton.mp hnew] at hdelivered
            exact absurd hdelivered hm
        · obtain ⟨row, hrow, rfl⟩ := List.mem_map.mp h
          exact .inl ⟨row, hrow, (hf row).2.1.symm, (hf row).2.2.symm.trans hdelivered⟩
    · exact hsame h
  cases e with
  | persistOutgoing m =>
      cases hstep
      exact hinsert _ false (by simp [NewMessage.row]) hrow'
  | persistIncoming m =>
      cases hstep
      exact hinsert _ true (by simp [NewMessage.row]) hrow'
  | ship conn msgId chat storeOk =>
      cases hstep
      unfold Shipping.ship at hrow'
      cases storeOk with
      | false => exact hsame hrow'
      | true =>
          obtain ⟨row, hrow, rfl⟩ := List.mem_map.mp hrow'
          by_cases hid : row.messageId = msgId
          · rw [if_pos hid] at hdelivered
            cases hdelivered
          · rw [if_neg hid] at hsame ⊢
            exact hsame hrow
  | register conn msgId =>
      cases hstep
      exact hsame hrow'
  | registerNode conn msgId =>
      cases hstep
      exact hsame hrow'
  | ack conn msgId error =>
      cases hstep
      unfold Shipping.ackArrives at hrow'
      split at hrow' <;> exact hsame hrow'
  | wakes place statusOk deleteOk =>
      obtain ⟨w, hplace, ⟨hsignal, rfl⟩ | ⟨-, rfl⟩⟩ := wakes_cases hstep
      · have hpending : 0 < s.announcements w.msgId := by
          refine Nat.lt_of_lt_of_le ?_ (Nat.le_add_right _ _)
          refine List.countP_pos_iff.mpr ⟨w, List.mem_of_getElem? hplace, ?_⟩
          simp [Waiter.isAcked, hsignal]
        have hmem : row' ∈ s.messages ∨
            row' ∈ messageSetStatus s.messages w.msgId .delivered := by
          cases statusOk <;> cases deleteOk
          · exact .inl hrow'
          · exact .inl hrow'
          · exact .inr hrow'
          · exact .inr hrow'
        rcases hmem with hold | hset
        · exact hsame hold
        · obtain ⟨row, hrow, rfl⟩ := List.mem_map.mp hset
          by_cases hid : row.messageId = w.msgId
          · rw [if_pos hid]
            exact .inr (hid ▸ hpending)
          · rw [if_neg hid] at hsame ⊢
            exact hsame hrow
      · exact hsame hrow'
  | timesOut place =>
      obtain ⟨w, -, -, rfl⟩ := timesOut_cases hstep
      exact hsame hrow'
  | dispatcherGone conn =>
      cases hstep
      exact hsame hrow'

end Steps

/-! ## 6. Runs -/

/-- What is known of the acks so far from what is announced and stored. -/
structure Announced (rows : List MessageRow) (past : List ShipCall) (s : Shipping α) : Prop where
  alone : Alone s.waiters
  once : ∀ msgId, s.announcements msgId ≤ 1
  acked : ∀ msgId, 0 < s.announcements msgId → ∃ conn, .ack conn msgId none ∈ past
  stored : ∀ row ∈ s.messages, row.status = .delivered →
    (∃ row₀ ∈ rows, row₀.messageId = row.messageId ∧ row₀.status = .delivered) ∨
      ∃ conn, .ack conn row.messageId none ∈ past

theorem announced_new (rows : List MessageRow) (queue : List (QueueRow α)) :
    Announced rows [] (Shipping.new rows queue) where
  alone := List.Pairwise.nil
  once _ := Nat.zero_le _
  acked _ h := absurd h (Nat.lt_irrefl 0)
  stored row hrow hdelivered := .inl ⟨row, hrow, rfl, hdelivered⟩

theorem announced_step {rows : List MessageRow} {past : List ShipCall} {s s' : Shipping α}
    {e : ShipCall} (h : Announced rows past s) (htrue : Truthful s e)
    (hstep : s.step e = some s') : Announced rows (past ++ [e]) s' := by
  have hlater (msgId : String) (hacked : 0 < s.announcements msgId) :
      ∃ conn, .ack conn msgId none ∈ past ++ [e] := by
    obtain ⟨conn, hpast⟩ := h.acked msgId hacked
    exact ⟨conn, List.mem_append_left _ hpast⟩
  refine ⟨alone_step h.alone hstep, fun msgId => ?_, fun msgId hpos => ?_, fun row hrow hdel => ?_⟩
  · rcases announcements_step h.alone htrue hstep msgId with hle | ⟨-, hone⟩
    · exact Nat.le_trans hle (h.once msgId)
    · exact hone
  · rcases announcements_step h.alone htrue hstep msgId with hle | ⟨⟨conn, rfl⟩, -⟩
    · exact hlater msgId (Nat.lt_of_lt_of_le hpos hle)
    · exact ⟨conn, List.mem_append_right _ (List.mem_singleton_self _)⟩
  · rcases stored_step hstep hrow hdel with ⟨row₁, hrow₁, hid, hdel₁⟩ | hpos
    · rw [← hid]
      refine (h.stored row₁ hrow₁ hdel₁).imp id ?_
      rintro ⟨conn, hpast⟩
      exact ⟨conn, List.mem_append_left _ hpast⟩
    · exact .inr (hlater _ hpos)

/-- **The status is truthful and moves forward** in every run in which no delivered message is
    shipped again, and each ack that a task waits on is the first of its message and no error. -/
theorem status_truthful (rows : List MessageRow) (queue : List (QueueRow α)) (run : List ShipCall)
    (s : Shipping α) (htrue : Meets Shipping.step Truthful (Shipping.new rows queue) run)
    (hrun : runFrom Shipping.step (Shipping.new rows queue) run = some s) :
    (∀ past rest mid, run = past ++ rest →
      runFrom Shipping.step (Shipping.new rows queue) past = some mid →
        Kept mid.messages s.messages) ∧
    (∀ msgId, s.events.countP (ShipEvent.IsDelivered msgId) ≤ 1) ∧
    ∀ msgId, (∀ conn, .ack conn msgId none ∉ run) →
      (∀ chat, .messageDelivered msgId chat ∉ s.events) ∧
      ∀ row ∈ s.messages, row.messageId = msgId → row.status = .delivered →
        ∃ row₀ ∈ rows, row₀.messageId = msgId ∧ row₀.status = .delivered := by
  have hannounced : Announced rows ([] ++ run) s :=
    run_history (I := Announced rows) (fun _ _ _ _ h htrue hstep => announced_step h htrue hstep)
      (announced_new rows queue) htrue hrun
  refine ⟨?_, fun msgId => ?_, fun msgId hnone => ⟨fun chat hmem => ?_, ?_⟩⟩
  · rintro past rest mid rfl hpast
    have hmeets := (meets_append htrue hpast).2
    rw [runFrom_append, hpast, Option.bind_some] at hrun
    exact run_invariant (I := fun s => Kept mid.messages s.messages)
      (fun _ _ _ h htrue hstep => h.trans (kept_step htrue hstep)) (.refl _) hmeets hrun
  · exact Nat.le_trans (Nat.le_add_left _ _) (hannounced.once msgId)
  · have hpos : 0 < s.announcements msgId := by
      refine Nat.lt_of_lt_of_le ?_ (Nat.le_add_left _ _)
      exact List.countP_pos_iff.mpr ⟨_, hmem, by simp [ShipEvent.IsDelivered]⟩
    obtain ⟨conn, hack⟩ := hannounced.acked msgId hpos
    exact hnone conn hack
  · rintro row hrow rfl hdelivered
    exact (hannounced.stored row hrow hdelivered).resolve_right fun ⟨conn, hack⟩ => hnone conn hack

namespace Sample

def outgoing : NewMessage := ⟨"c", "m", "self", true, 0, "text", some "hi", "", none⟩

/-- A message is shipped, lost with its connection, shipped on the next one, and acked. -/
def redriven : List ShipCall :=
  [.persistOutgoing outgoing, .ship 0 "m" "c" true, .dispatcherGone 0, .wakes 0 true true,
    .ship 1 "m" "c" true, .ack 1 "m" none, .wakes 0 true true]

/-- The server rejects it. -/
def rejected : List ShipCall :=
  [.persistOutgoing outgoing, .ship 0 "m" "c" true, .ack 0 "m" (some "463"), .wakes 0 true true]

/-- A message that is in the channel twice: acked, and then shipped again. -/
def again : List ShipCall :=
  [.persistOutgoing outgoing, .ship 0 "m" "c" true, .ack 0 "m" none, .wakes 0 true true,
    .ship 0 "m" "c" true]

end Sample

theorem status_truthful_redriven :
    ∃ s, runFrom Shipping.step (Shipping.new [] ([] : List (QueueRow Nat))) Sample.redriven =
        some s ∧
      s.messages.map MessageRow.status = [.delivered] ∧
      s.events.countP (ShipEvent.IsDelivered "m") ≤ 1 :=
  ⟨_, rfl, rfl, (status_truthful [] ([] : List (QueueRow Nat)) Sample.redriven _ (by decide)
    rfl).2.1 "m"⟩

/-- **An error ack is taken for a delivery; a second shipping takes the status back**, and its ack
    announces the delivery again. -/
theorem status_untruthful :
    (∃ s, runFrom Shipping.step (Shipping.new [] ([] : List (QueueRow Nat))) Sample.rejected =
        some s ∧
      s.messages.map MessageRow.status = [.delivered] ∧ .messageDelivered "m" "c" ∈ s.events) ∧
    (∃ s, runFrom Shipping.step (Shipping.new [] ([] : List (QueueRow Nat))) Sample.again =
        some s ∧
      .messageDelivered "m" "c" ∈ s.events ∧ s.messages.map MessageRow.status = [.sent]) ∧
    ∃ s, runFrom Shipping.step (Shipping.new [] ([] : List (QueueRow Nat)))
        (Sample.again ++ [.ack 0 "m" none, .wakes 0 true true]) = some s ∧
      s.events.countP (ShipEvent.IsDelivered "m") = 2 :=
  ⟨⟨_, rfl, rfl, by decide⟩, ⟨_, rfl, by decide, rfl⟩, _, rfl, rfl⟩

end Ruwa.Session
