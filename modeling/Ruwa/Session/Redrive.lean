/-
  File:      Ruwa/Session/Redrive.lean
  Subject:   WHAT A CONNECTION SENDS AGAIN: once, in order, and only what was not acked.

  An operation that is enqueued while the receiver is with the session is in the channel and in
  the table, and the connection that takes the receiver sends both; the same goes for a call that
  has written its row and not sent yet. What is sent while a connection goes through its rows
  overtakes them. The table is read in the order of seconds and random ids; and a row goes only if
  its own task hears of the ack.

  * `Orderly` -- what is asked of the steps;
  * `Table` -- what is known of the table;
  * `Outbound.road` -- a lane, and what its connection has read of the table and not come to;
  * `road_invariant` -- what a step keeps of every road; `Paths` -- what is known of them;
  * **`sends_once_in_order`** -- runs whose steps are orderly;
  * **`sends_twice`** -- an operation that was enqueued offline; two that share a second; an ack
    after a resend; a call whose row is drained before it sends; one that sends in between the rows.
-/
import Ruwa.Session.Outbound

namespace Ruwa.Session

open Ruwa.Library

/-! ## 1. What is asked -/

section Told

variable {α : Type}

/-- A task for the message was told of an ack, and has not gone on. -/
def Told (s : Shipping α) (msgId : String) : Prop :=
  ∃ w ∈ s.waiters, w.msgId = msgId ∧ w.signal = some .acked

instance (s : Shipping α) (msgId : String) : Decidable (Told s msgId) :=
  inferInstanceAs (Decidable (∃ w ∈ s.waiters, _))

/-- An ack that comes now is heard by a task for the message, or one was told before. -/
def Hears (s : Shipping α) (conn : Nat) (msgId : String) : Prop :=
  Told s msgId ∨ (conn, msgId) ∉ s.pendingAckNodes ∧ ∃ w ∈ s.waiters, w.Awaits conn msgId

instance (s : Shipping α) (conn : Nat) (msgId : String) : Decidable (Hears s conn msgId) :=
  inferInstanceAs (Decidable (_ ∨ _))

end Told

/-- An id is new, and its row is written. Calls send in the order of their rows, to a connection
    that is through with the rows it read, and before an ack for them comes. A connection that takes
    the receiver finds no operation in the channel that is persisted; nor when it reads the table,
    where the rows are in the order of the drain, none is about to go, and none is of a call that has
    yet to send. What it sends again goes into its own channel. An ack for a row is heard by its task,
    and that task can delete it. -/
def Orderly (s : Outbound) : OutboundCall → Prop
  | .enqueueSendPersistent op _ storeOk => ∀ msgId ∈ op.persistable?,
      storeOk = true ∧ (∀ q ∈ s.enqueued, q.msgId? ≠ some msgId) ∧ ∀ a ∈ s.acked, a.1 ≠ msgId
  | .sendPending place => place = 0 ∧
      (∀ p ∈ s.web.pumps, p.1 = s.web.sendTx → ∀ e ∈ s.redriving, e.1 ≠ p.2) ∧
        ∀ q ∈ s.pending, ∀ a ∈ s.acked, q.msgId? ≠ some a.1
  | .handshakeDone _ => ∀ ch ∈ s.web.sendRx, ∀ e ∈ s.web.queued, e.1 = ch → e.2.msgId? = none
  | .drainOutboundQueue p drainOk => drainOk = true →
      (∀ e ∈ s.web.queued, e.1 = p.1 → e.2.msgId? = none) ∧ s.pending = [] ∧
        s.ships.queue.Pairwise QueueRow.Before ∧ ∀ row ∈ s.ships.queue, ¬Told s.ships row.msgId
  | .redrive p _ _ => p.1 = s.web.sendTx
  | .shipping (.ack conn msgId _) =>
      (∃ row ∈ s.ships.queue, row.msgId = msgId) → Hears s.ships conn msgId
  | .shipping (.wakes place _ deleteOk) => ∀ w ∈ s.ships.waiters[place]?,
      w.signal = some .acked → deleteOk = true
  | _ => True

instance decidableOrderly (s : Outbound) : (e : OutboundCall) → Decidable (Orderly s e)
  | .enqueueSendPersistent op _ storeOk => inferInstanceAs (Decidable (∀ msgId ∈ op.persistable?,
      storeOk = true ∧ (∀ q ∈ s.enqueued, q.msgId? ≠ some msgId) ∧ ∀ a ∈ s.acked, a.1 ≠ msgId))
  | .sendPending place => inferInstanceAs (Decidable (place = 0 ∧
      (∀ p ∈ s.web.pumps, p.1 = s.web.sendTx → ∀ e ∈ s.redriving, e.1 ≠ p.2) ∧
        ∀ q ∈ s.pending, ∀ a ∈ s.acked, q.msgId? ≠ some a.1))
  | .handshakeDone _ => inferInstanceAs (Decidable
      (∀ ch ∈ s.web.sendRx, ∀ e ∈ s.web.queued, e.1 = ch → e.2.msgId? = none))
  | .drainOutboundQueue p drainOk =>
      have : Decidable (s.pending = []) := decidable_of_iff _ List.isEmpty_iff
      inferInstanceAs (Decidable (drainOk = true →
        (∀ e ∈ s.web.queued, e.1 = p.1 → e.2.msgId? = none) ∧ s.pending = [] ∧
          s.ships.queue.Pairwise QueueRow.Before ∧ ∀ row ∈ s.ships.queue, ¬Told s.ships row.msgId))
  | .redrive p _ _ => inferInstanceAs (Decidable (p.1 = s.web.sendTx))
  | .shipping (.ack conn msgId _) => inferInstanceAs (Decidable
      ((∃ row ∈ s.ships.queue, row.msgId = msgId) → Hears s.ships conn msgId))
  | .shipping (.wakes place _ deleteOk) => inferInstanceAs (Decidable
      (∀ w ∈ s.ships.waiters[place]?, w.signal = some .acked → deleteOk = true))
  | .shipping (.persistOutgoing _) | .shipping (.persistIncoming _) | .shipping (.ship ..)
  | .shipping (.register ..) | .shipping (.registerNode ..) | .shipping (.timesOut _)
  | .shipping (.dispatcherGone _) | .enqueueSend _ | .payload _ | .pump .. | .pairSuccess ..
  | .logout .. | .session _ => inferInstanceAs (Decidable True)

/-! ## 2. Who was told -/

section Waiters

variable {α : Type} {s s' : Shipping α}

theorem signal_told (w : Waiter) (conn : Nat) (msgId : String) (signal : Signal) :
    (w.told conn msgId signal).msgId = w.msgId ∧
      ((w.told conn msgId signal).signal = some .acked ↔
        w.signal = some .acked ∨ signal = .acked ∧ w.Awaits conn msgId) := by
  unfold Waiter.told
  split
  · next hawaits => simp [hawaits, hawaits.2.2]
  · next hawaits => simp [hawaits]

/-- Being told that the sender is gone. -/
theorem told_map_dropped (f : Waiter → Nat × String) (waiters : List Waiter) (msgId : String) :
    (∃ w ∈ waiters.map fun w => w.told (f w).1 (f w).2 .dropped,
        w.msgId = msgId ∧ w.signal = some .acked) ↔
      ∃ w ∈ waiters, w.msgId = msgId ∧ w.signal = some .acked := by
  have hsame (w : Waiter) : ((w.told (f w).1 (f w).2 .dropped).msgId = msgId ∧
      (w.told (f w).1 (f w).2 .dropped).signal = some .acked) ↔
        w.msgId = msgId ∧ w.signal = some .acked := by
    obtain ⟨hid, hsignal⟩ := signal_told w (f w).1 (f w).2 .dropped
    rw [hid, hsignal]
    simp
  simp only [List.mem_map, exists_exists_and_eq_and, hsame]

theorem told_register (s : Shipping α) (conn : Nat) (msgId id : String) :
    Told (s.registerAck conn msgId) id ↔ Told s id :=
  told_map_dropped (fun _ => (conn, msgId)) s.waiters id

theorem told_dropDispatcher (s : Shipping α) (conn : Nat) (id : String) :
    Told (s.dropDispatcher conn) id ↔ Told s id :=
  told_map_dropped (fun w => (conn, w.msgId)) s.waiters id

theorem told_ship (s : Shipping α) (conn : Nat) (msgId chat : String) (storeOk : Bool)
    (id : String) : Told (s.ship conn msgId chat storeOk) id ↔ Told s id := by
  rw [← told_register s conn msgId id]
  unfold Shipping.ship
  cases storeOk with
  | false => exact Iff.rfl
  | true => simp [Told, Shipping.registerAck, Shipping.updateMessageStatus, Shipping.emit]

/-- A task goes; the others stay as they were. -/
theorem told_eraseIdx {w : Waiter} {place : Nat} (hplace : s.waiters[place]? = some w)
    (id : String) :
    (Told { s with waiters := s.waiters.eraseIdx place } id → Told s id) ∧
      (Told s id → Told { s with waiters := s.waiters.eraseIdx place } id ∨
        w.msgId = id ∧ w.signal = some .acked) := by
  obtain ⟨hlt, hw⟩ := List.getElem?_eq_some_iff.mp hplace
  have hperm := List.getElem_cons_eraseIdx_perm hlt
  rw [hw] at hperm
  constructor
  · rintro ⟨w', hw', h⟩
    exact ⟨w', hperm.subset (List.mem_cons_of_mem w hw'), h⟩
  · rintro ⟨w', hw', h⟩
    rcases List.mem_cons.mp (hperm.symm.subset hw') with rfl | hold
    · exact .inr h
    · exact .inl ⟨w', hold, h⟩

/-- An ack tells who awaits it, and nobody else. -/
theorem told_ack (s : Shipping α) (conn : Nat) (msgId : String) (error : Option String)
    (id : String) :
    (Told (s.ackArrives conn msgId error) id → Told s id ∨ id = msgId) ∧
      (Told s id → Told (s.ackArrives conn msgId error) id) ∧
        (Hears s conn msgId → Told (s.ackArrives conn msgId error) msgId) := by
  have htell (id : String) : Told (s.tell conn msgId .acked) id ↔
      Told s id ∨ ∃ w ∈ s.waiters, w.msgId = id ∧ w.Awaits conn msgId := by
    have hsame (w : Waiter) : ((w.told conn msgId .acked).msgId = id ∧
        (w.told conn msgId .acked).signal = some .acked) ↔
          (w.msgId = id ∧ w.signal = some .acked) ∨ w.msgId = id ∧ w.Awaits conn msgId := by
      obtain ⟨hid, hsignal⟩ := signal_told w conn msgId .acked
      rw [hid, hsignal]
      simp [and_or_left]
    simp only [Told, Shipping.tell, List.mem_map, exists_exists_and_eq_and, hsame, and_or_left,
      exists_or]
  unfold Shipping.ackArrives
  split
  · next hpending =>
      refine ⟨.inl, fun h => h, ?_⟩
      rintro (htold | ⟨hnot, -⟩)
      · exact htold
      · exact absurd hpending hnot
  · refine ⟨fun h => ?_, fun h => (htell id).mpr (.inl h), ?_⟩
    · rcases (htell id).mp h with htold | ⟨w, -, hid, hawaits⟩
      · exact .inl htold
      · exact .inr (hid.symm.trans hawaits.2.1)
    · rintro (htold | ⟨-, w, hw, hawaits⟩)
      · exact (htell msgId).mpr (.inl htold)
      · exact (htell msgId).mpr (.inr ⟨w, hw, hawaits.2.1, hawaits⟩)

/-- Apart from an ack and from a task that was told of one, nothing changes the rows, or who was
    told. -/
theorem ships_cases {e : ShipCall} (hstep : s.step e = some s') :
    (s'.queue = s.queue ∧ ∀ id, Told s' id ↔ Told s id) ∨
      (∃ conn msgId error, e = .ack conn msgId error ∧ s' = s.ackArrives conn msgId error) ∨
      ∃ place statusOk deleteOk w, e = .wakes place statusOk deleteOk ∧
        s.waiters[place]? = some w ∧ w.signal = some .acked ∧
        s' = { s with waiters := s.waiters.eraseIdx place }.delivered w statusOk deleteOk := by
  have hinsert (m : NewMessage) (ignoreConflict : Bool) :
      (s.insert m ignoreConflict).queue = s.queue ∧
        ∀ id, Told (s.insert m ignoreConflict) id ↔ Told s id := by
    unfold Shipping.insert
    split <;> exact ⟨rfl, fun _ => Iff.rfl⟩
  have herase {w : Waiter} {place : Nat} (hplace : s.waiters[place]? = some w)
      (hsignal : w.signal ≠ some .acked) (id : String) :
      Told { s with waiters := s.waiters.eraseIdx place } id ↔ Told s id := by
    obtain ⟨hafter, hbefore⟩ := told_eraseIdx hplace id
    exact ⟨hafter, fun h => (hbefore h).resolve_right fun hw => hsignal hw.2⟩
  cases e with
  | persistOutgoing m =>
      cases hstep
      exact .inl (hinsert _ false)
  | persistIncoming m =>
      cases hstep
      exact .inl (hinsert _ true)
  | ship conn msgId chat storeOk =>
      cases hstep
      refine .inl ⟨?_, told_ship s conn msgId chat storeOk⟩
      unfold Shipping.ship
      cases storeOk <;> rfl
  | register conn msgId =>
      cases hstep
      exact .inl ⟨rfl, told_register s conn msgId⟩
  | registerNode conn msgId =>
      cases hstep
      exact .inl ⟨rfl, fun _ => Iff.rfl⟩
  | ack conn msgId error =>
      cases hstep
      exact .inr (.inl ⟨conn, msgId, error, rfl, rfl⟩)
  | wakes place statusOk deleteOk =>
      obtain ⟨w, hplace, ⟨hsignal, rfl⟩ | ⟨hsignal, rfl⟩⟩ := wakes_cases hstep
      · exact .inr (.inr ⟨place, statusOk, deleteOk, w, rfl, hplace, hsignal, rfl⟩)
      · exact .inl ⟨rfl, herase hplace (by simp [hsignal])⟩
  | timesOut place =>
      obtain ⟨w, hplace, hsignal, rfl⟩ := timesOut_cases hstep
      exact .inl ⟨rfl, herase hplace (by simp [hsignal])⟩
  | dispatcherGone conn =>
      cases hstep
      exact .inl ⟨rfl, told_dropDispatcher s conn⟩

/-- The task goes on, and deletes the row. -/
theorem delivered_queue (s : Shipping α) (w : Waiter) (statusOk : Bool) :
    (s.delivered w statusOk true).queue = outboundQueueDelete s.queue w.msgId := by
  cases statusOk <;> rfl

theorem told_delivered (s : Shipping α) (w : Waiter) (statusOk deleteOk : Bool) (id : String) :
    Told (s.delivered w statusOk deleteOk) id ↔ Told s id := by
  cases statusOk <;> cases deleteOk <;> exact Iff.rfl

theorem mem_outboundQueueDelete {queue : List (QueueRow α)} {msgId : String} {row : QueueRow α} :
    row ∈ outboundQueueDelete queue msgId ↔ row ∈ queue ∧ row.msgId ≠ msgId := by
  simp [outboundQueueDelete]

end Waiters

/-! ## 3. The table -/

/-- What is known of the table, and of what was read of it. -/
structure Table (s : Outbound) : Prop where
  numbered : ∀ q ∈ s.enqueued, q.seq < s.enqueued.length
  distinct : s.enqueued.Pairwise fun q q' => ∀ id, q.msgId? = some id → q'.msgId? ≠ some id
  rows : ∀ row ∈ s.ships.queue, row.op ∈ s.enqueued ∧ row.op.msgId? = some row.msgId
  ordered : s.ships.queue.Pairwise fun a b => a.op.seq < b.op.seq
  redriven : ∀ e ∈ s.redriving, e.2 ∈ s.enqueued
  /-- A row whose ack came is about to go. -/
  pending : ∀ a ∈ s.acked, ∀ row ∈ s.ships.queue, row.msgId = a.1 → Told s.ships row.msgId
  heard : ∀ id, Told s.ships id → ∃ n, (id, n) ∈ s.acked
  kept : ∀ q ∈ s.enqueued, ∀ id, q.msgId? = some id →
    q ∈ s.gone ∨ (∃ n, (id, n) ∈ s.acked) ∨ ∃ row ∈ s.ships.queue, row.op = q

section Steps

variable {s s' : Outbound} {e : OutboundCall}

theorem table_new (status : SessionStatus) (messages : List MessageRow) :
    Table (Outbound.new status messages) where
  numbered _ hq := nomatch hq
  distinct := List.Pairwise.nil
  rows _ hrow := nomatch hrow
  ordered := List.Pairwise.nil
  redriven _ he := nomatch he
  pending _ ha := nomatch ha
  heard _ h := by obtain ⟨w, hw, -⟩ := h; cases hw
  kept _ hq := nomatch hq

/-- Nothing of it changes. -/
theorem Table.of_same (h : Table s) (hqueue : s'.ships.queue = s.ships.queue)
    (htold : ∀ id, Told s'.ships id ↔ Told s.ships id) (henqueued : s'.enqueued = s.enqueued)
    (hredriving : s'.redriving ⊆ s.redriving) (hacked : s'.acked = s.acked)
    (hgone : s'.gone = s.gone) : Table s' := by
  refine ⟨?_, ?_, ?_, ?_, ?_, ?_, ?_, ?_⟩
  · rw [henqueued]
    exact h.numbered
  · rw [henqueued]
    exact h.distinct
  · rw [henqueued, hqueue]
    exact h.rows
  · rw [hqueue]
    exact h.ordered
  · rw [henqueued]
    exact fun e he => h.redriven e (hredriving he)
  · rw [hqueue, hacked]
    exact fun a ha row hrow hid => (htold _).mpr (h.pending a ha row hrow hid)
  · rw [hacked]
    exact fun id hid => h.heard id ((htold id).mp hid)
  · rw [henqueued, hgone, hacked, hqueue]
    exact h.kept

/-- Two persisted operations with one id are one. -/
theorem Table.eq_of_msgId (h : Table s) {q q' : Queued} (hq : q ∈ s.enqueued)
    (hq' : q' ∈ s.enqueued) {id : String} (hid : q.msgId? = some id)
    (hid' : q'.msgId? = some id) : q = q' := by
  by_contra hne
  have hsymm : Std.Symm fun q q' : Queued => ∀ id, q.msgId? = some id → q'.msgId? ≠ some id :=
    ⟨fun _ _ h id hb ha => h id ha hb⟩
  exact h.distinct.forall hq hq' hne id hid hid'

/-- An operation that is not persisted. -/
theorem table_enqueueSend (h : Table s) {op : SendOp} (hop : op.persistable? = none) :
    Table (s.enqueueSend op) := by
  refine ⟨?_, ?_, ?_, h.ordered, ?_, h.pending, h.heard, ?_⟩
  · intro q hq
    rw [Outbound.enqueueSend, List.length_append]
    rcases List.mem_append.mp hq with hold | hnew
    · exact Nat.lt_succ_of_lt (h.numbered q hold)
    · rw [List.mem_singleton.mp hnew]
      exact Nat.lt_succ_self _
  · refine List.pairwise_append.mpr ⟨h.distinct, List.pairwise_singleton _ _, ?_⟩
    intro q _ q' hq' id _ hid'
    rw [List.mem_singleton.mp hq'] at hid'
    exact absurd (hop.symm.trans hid') (by simp)
  · intro row hrow
    exact ⟨List.mem_append_left _ (h.rows row hrow).1, (h.rows row hrow).2⟩
  · exact fun e he => List.mem_append_left _ (h.redriven e he)
  · intro q hq id hid
    rcases List.mem_append.mp hq with hold | hnew
    · exact h.kept q hold id hid
    · rw [List.mem_singleton.mp hnew] at hid
      exact absurd (hop.symm.trans hid) (by simp)

/-- An operation with a new id: its row is the last. -/
theorem table_enqueueSendPersistent (h : Table s) {op : SendOp} {msgId : String} (now : Int)
    (hop : op.persistable? = some msgId) (hfresh : ∀ q ∈ s.enqueued, q.msgId? ≠ some msgId)
    (hunacked : ∀ a ∈ s.acked, a.1 ≠ msgId) : Table (s.enqueueSendPersistent op now true) := by
  have hdelete : outboundQueueDelete s.ships.queue msgId = s.ships.queue := by
    refine List.filter_eq_self.mpr fun row hrow => ?_
    obtain ⟨henq, hid⟩ := h.rows row hrow
    have hne : row.msgId ≠ msgId := fun he => hfresh row.op henq (he ▸ hid)
    simpa using hne
  have hs' : s.enqueueSendPersistent op now true = { s with
      ships := { s.ships with queue := s.ships.queue ++ [⟨msgId, s.tagged op, now⟩] }
      pending := s.pending ++ [s.tagged op]
      enqueued := s.enqueued ++ [s.tagged op] } := by
    simp only [Outbound.enqueueSendPersistent, hop, if_true, outboundQueueUpsert, hdelete]
  have htag : (s.tagged op).msgId? = some msgId := hop
  rw [hs']
  refine ⟨?_, ?_, ?_, ?_, ?_, ?_, h.heard, ?_⟩
  · intro q hq
    show q.seq < (s.enqueued ++ [s.tagged op]).length
    rw [List.length_append]
    rcases List.mem_append.mp hq with hold | hnew
    · exact Nat.lt_succ_of_lt (h.numbered q hold)
    · rw [List.mem_singleton.mp hnew]
      exact Nat.lt_succ_self _
  · refine List.pairwise_append.mpr ⟨h.distinct, List.pairwise_singleton _ _, ?_⟩
    intro q hq q' hq' id hid hid'
    rw [List.mem_singleton.mp hq', htag, Option.some.injEq] at hid'
    exact hfresh q hq (hid'.symm ▸ hid)
  · intro row hrow
    rcases List.mem_append.mp hrow with hold | hnew
    · exact ⟨List.mem_append_left _ (h.rows row hold).1, (h.rows row hold).2⟩
    · rw [List.mem_singleton.mp hnew]
      exact ⟨List.mem_append_right _ (List.mem_singleton_self _), htag⟩
  · refine List.pairwise_append.mpr ⟨h.ordered, List.pairwise_singleton _ _, ?_⟩
    intro row hrow row' hrow'
    rw [List.mem_singleton.mp hrow']
    exact h.numbered row.op (h.rows row hrow).1
  · exact fun e he => List.mem_append_left _ (h.redriven e he)
  · intro a ha row hrow hid
    rcases List.mem_append.mp hrow with hold | hnew
    · exact h.pending a ha row hold hid
    · rw [List.mem_singleton.mp hnew] at hid
      exact absurd hid.symm (hunacked a ha)
  · intro q hq id hid
    rcases List.mem_append.mp hq with hold | hnew
    · refine (h.kept q hold id hid).imp (fun h => h) (Or.imp (fun h => h) ?_)
      rintro ⟨row, hrow, hrowop⟩
      exact ⟨row, List.mem_append_left _ hrow, hrowop⟩
    · rw [List.mem_singleton.mp hnew]
      exact .inr (.inr ⟨_, List.mem_append_right _ (List.mem_singleton_self _), rfl⟩)

/-- A connection reads the table. -/
theorem table_drain (h : Table s) {p : Nat × Nat} {drainOk : Bool}
    (hstep : s.drainOutboundQueue p drainOk = some s') : Table s' := by
  obtain ⟨-, rfl⟩ := drain_cases hstep
  refine ⟨h.numbered, h.distinct, h.rows, h.ordered, ?_, h.pending, h.heard, h.kept⟩
  intro e he
  rcases List.mem_append.mp he with hold | hnew
  · exact h.redriven e hold
  · obtain ⟨q, hq, rfl⟩ := List.mem_map.mp hnew
    obtain ⟨⟨row, hrow, rfl⟩, -⟩ := mem_drained hq
    exact (h.rows row hrow).1

/-- The row of an operation goes, and it is recorded as gone. -/
theorem table_dropped (h : Table s) {q : Queued} {rest : List (Nat × Queued)} (hq : q ∈ s.enqueued)
    (hrest : rest ⊆ s.redriving) (deleteOk : Bool) : Table { s with
      redriving := rest
      ships := if deleteOk then s.withoutRow q else s.ships
      gone := s.gone ++ [q] } := by
  have hships : (if deleteOk then s.withoutRow q else s.ships).waiters = s.ships.waiters ∧
      (if deleteOk then s.withoutRow q else s.ships).queue.Sublist s.ships.queue ∧
      ∀ row ∈ s.ships.queue, row ∈ (if deleteOk then s.withoutRow q else s.ships).queue ∨
        q.msgId? = some row.msgId := by
    cases deleteOk with
    | false => exact ⟨rfl, List.Sublist.refl _, fun row hrow => .inl hrow⟩
    | true =>
        unfold Outbound.withoutRow
        cases hid : q.msgId? with
        | none => exact ⟨rfl, List.Sublist.refl _, fun row hrow => .inl hrow⟩
        | some id =>
            refine ⟨rfl, List.filter_sublist, fun row hrow => ?_⟩
            by_cases hrid : row.msgId = id
            · exact .inr (congrArg some hrid.symm)
            · exact .inl (mem_outboundQueueDelete.mpr ⟨hrow, hrid⟩)
  obtain ⟨hwaiters, hqueue, hgoes⟩ := hships
  have htold (id : String) :
      Told (if deleteOk then s.withoutRow q else s.ships) id ↔ Told s.ships id := by
    unfold Told
    rw [hwaiters]
  refine ⟨h.numbered, h.distinct, fun row hrow => h.rows row (hqueue.subset hrow),
    h.ordered.sublist hqueue, fun e he => h.redriven e (hrest he), ?_, ?_, ?_⟩
  · exact fun a ha row hrow hid => (htold _).mpr (h.pending a ha row (hqueue.subset hrow) hid)
  · exact fun id hid => h.heard id ((htold id).mp hid)
  · intro q' hq' id hid
    rcases h.kept q' hq' id hid with hgone | hacked | ⟨row, hrow, rfl⟩
    · exact .inl (List.mem_append_left _ hgone)
    · exact .inr (.inl hacked)
    · rcases hgoes row hrow with hstays | hqid
      · exact .inr (.inr ⟨row, hstays, rfl⟩)
      · -- The row that goes is its own.
        have hsame : q = row.op := h.eq_of_msgId hq hq' hqid (h.rows row hrow).2
        exact .inl (List.mem_append_right _ (List.mem_singleton.mpr hsame.symm))

/-- An ack is counted; if it is for a row, its task hears of it. -/
theorem table_ack (h : Table s) {conn : Nat} {msgId : String} {error : Option String}
    (hhears : (∃ row ∈ s.ships.queue, row.msgId = msgId) → Hears s.ships conn msgId) :
    Table (s.afterShipping (.ack conn msgId error) (s.ships.ackArrives conn msgId error)) := by
  have hqueue : (s.ships.ackArrives conn msgId error).queue = s.ships.queue := by
    unfold Shipping.ackArrives
    split <;> rfl
  have htold (id : String) := told_ack s.ships conn msgId error id
  refine ⟨h.numbered, h.distinct, ?_, ?_, h.redriven, ?_, ?_, ?_⟩
  · exact fun row hrow => h.rows row (hqueue ▸ hrow)
  · exact hqueue.symm ▸ h.ordered
  · intro a ha row hrow hid
    have hqrow : row ∈ s.ships.queue := hqueue ▸ hrow
    rcases List.mem_append.mp ha with hold | hnew
    · exact (htold _).2.1 (h.pending a hold row hqrow hid)
    · rw [List.mem_singleton.mp hnew] at hid
      rw [hid]
      exact (htold msgId).2.2 (hhears ⟨row, hqrow, hid⟩)
  · intro id hid
    rcases (htold id).1 hid with hold | rfl
    · obtain ⟨n, hn⟩ := h.heard id hold
      exact ⟨n, List.mem_append_left _ hn⟩
    · exact ⟨s.web.nextConn, List.mem_append_right _ (List.mem_singleton_self _)⟩
  · intro q hq id hid
    refine (h.kept q hq id hid).imp (fun h => h) (Or.imp ?_ ?_)
    · rintro ⟨n, hn⟩
      exact ⟨n, List.mem_append_left _ hn⟩
    · rintro ⟨row, hrow, hrowop⟩
      exact ⟨row, hqueue.symm ▸ hrow, hrowop⟩

/-- A task that was told of the ack takes its row away. -/
theorem table_delivered (h : Table s) {ships : Shipping Queued} {place : Nat} {w : Waiter}
    {statusOk : Bool} (hplace : s.ships.waiters[place]? = some w) (hsignal : w.signal = some .acked)
    (hships : ships =
      { s.ships with waiters := s.ships.waiters.eraseIdx place }.delivered w statusOk true) :
    Table { s with ships := ships } := by
  have hqueue : ships.queue = outboundQueueDelete s.ships.queue w.msgId := by
    rw [hships, delivered_queue]
  have htold (id : String) :
      (Told ships id → Told s.ships id) ∧ (Told s.ships id → Told ships id ∨ w.msgId = id) := by
    obtain ⟨hafter, hbefore⟩ := told_eraseIdx hplace id
    rw [hships, told_delivered]
    exact ⟨hafter, fun h => (hbefore h).imp (fun h => h) And.left⟩
  have hmem {row : QueueRow Queued} (hrow : row ∈ ships.queue) :
      row ∈ s.ships.queue ∧ row.msgId ≠ w.msgId := by
    rw [hqueue] at hrow
    exact mem_outboundQueueDelete.mp hrow
  refine ⟨h.numbered, h.distinct, fun row hrow => h.rows row (hmem hrow).1, ?_, h.redriven, ?_, ?_,
    ?_⟩
  · show ships.queue.Pairwise _
    rw [hqueue]
    exact h.ordered.sublist List.filter_sublist
  · intro a ha row hrow hid
    obtain ⟨hold, hne⟩ := hmem hrow
    exact ((htold _).2 (h.pending a ha row hold hid)).resolve_right fun he => hne he.symm
  · exact fun id hid => h.heard id ((htold id).1 hid)
  · intro q hq id hid
    rcases h.kept q hq id hid with hgone | hacked | ⟨row, hrow, rfl⟩
    · exact .inl hgone
    · exact .inr (.inl hacked)
    · by_cases hrid : row.msgId = w.msgId
      · -- Whoever was told was told of an ack.
        obtain ⟨n, hn⟩ := h.heard w.msgId
          ⟨w, List.mem_of_getElem? hplace, rfl, hsignal⟩
        rw [(h.rows row hrow).2, Option.some.injEq] at hid
        exact .inr (.inl ⟨n, by rw [← hid, hrid]; exact hn⟩)
      · refine .inr (.inr ⟨row, ?_, rfl⟩)
        show row ∈ ships.queue
        rw [hqueue]
        exact mem_outboundQueueDelete.mpr ⟨hrow, hrid⟩

theorem table_step (h : Table s) (horderly : Orderly s e) (hstep : s.step e = some s') :
    Table s' := by
  have hself : s.redriving ⊆ s.redriving := List.Subset.refl _
  cases e with
  | enqueueSendPersistent op now storeOk =>
      cases hstep
      cases hop : op.persistable? with
      | none =>
          rw [Outbound.enqueueSendPersistent, hop]
          exact table_enqueueSend h hop
      | some msgId =>
          obtain ⟨rfl, hfresh, hunacked⟩ := horderly msgId hop
          exact table_enqueueSendPersistent h now hop hfresh hunacked
  | sendPending place =>
      obtain ⟨q, -, rfl⟩ := sendPending_cases hstep
      exact h.of_same rfl (fun _ => Iff.rfl) rfl hself rfl rfl
  | enqueueSend op =>
      simp only [Outbound.step] at hstep
      split at hstep <;> cases hstep
      next hop => exact table_enqueueSend h hop
  | payload id =>
      simp only [Outbound.step] at hstep
      split at hstep <;> cases hstep
      exact h.of_same rfl (fun _ => Iff.rfl) rfl hself rfl rfl
  | handshakeDone id =>
      obtain ⟨web, login, -, -, rfl⟩ := handshakeDone_cases hstep
      exact h.of_same rfl (fun _ => Iff.rfl) rfl hself rfl rfl
  | drainOutboundQueue p drainOk => exact table_drain h hstep
  | redrive p files deleteOk =>
      obtain ⟨-, q, rest, htake, hcases⟩ := redrive_cases hstep
      obtain ⟨hq, hrest⟩ := mem_takeQueued htake
      rcases hcases with ⟨-, -, rfl⟩ | ⟨-, rfl⟩
      · exact table_dropped h (h.redriven _ hq) hrest deleteOk
      · exact h.of_same rfl (fun _ => Iff.rfl) rfl hrest rfl rfl
  | pump p outcome =>
      obtain ⟨-, -, q, rest, -, ⟨-, rfl⟩ | ⟨chat, storeOk, -, rfl⟩⟩ := pump_cases hstep
      · exact h.of_same rfl (fun _ => Iff.rfl) rfl hself rfl rfl
      · have hships : (s.shipped p.2 q chat storeOk).queue = s.ships.queue ∧
            ∀ id, Told (s.shipped p.2 q chat storeOk) id ↔ Told s.ships id := by
          unfold Outbound.shipped
          split
          · exact ⟨rfl, fun _ => Iff.rfl⟩
          · next msgId _ =>
              refine ⟨?_, told_ship s.ships p.2 msgId chat storeOk⟩
              unfold Shipping.ship
              cases storeOk <;> rfl
        exact h.of_same hships.1 hships.2 rfl hself rfl rfl
  | pairSuccess id jid reply =>
      obtain ⟨-, web, -, rfl⟩ := pairSuccess_cases hstep
      exact h.of_same rfl (fun _ => Iff.rfl) rfl hself rfl rfl
  | logout fresh storeOk =>
      cases hstep
      unfold Outbound.logout
      split
      · exact h.of_same rfl (fun _ => Iff.rfl) rfl hself rfl rfl
      · exact h
  | shipping e =>
      obtain ⟨-, ships, hships, rfl⟩ := shipping_cases hstep
      rcases ships_cases hships with ⟨hqueue, htold⟩ | ⟨conn, msgId, error, rfl, rfl⟩ |
        ⟨place, statusOk, deleteOk, w, rfl, hplace, hsignal, hdelivered⟩
      · cases e with
        | ack conn msgId error =>
            cases hships
            exact table_ack h horderly
        | _ => exact h.of_same hqueue htold rfl hself rfl rfl
      · exact table_ack h horderly
      · have hdelete : deleteOk = true := horderly w hplace hsignal
        subst hdelete
        exact table_delivered h hplace hsignal hdelivered
  | session e =>
      obtain ⟨-, -, web, -, rfl⟩ := session_cases hstep
      exact h.of_same rfl (fun _ => Iff.rfl) rfl hself rfl rfl

end Steps

/-! ## 4. The roads -/

/-- What a connection was given, what its pump has before it, and what it has read of the table and
    not come to. -/
def Outbound.road (s : Outbound) (p : Nat × Nat) : List Queued :=
  s.web.lanes.lane p ++ along p.2 s.redriving

def Queued.persisted (q : Queued) : Bool := q.msgId?.isSome

/-- In the order in which they were enqueued, and none of them twice. -/
def InOrder (ops : List Queued) : Prop :=
  (ops.filter Queued.persisted).Pairwise fun q q' => q.seq < q'.seq

instance (ops : List Queued) : Decidable (InOrder ops) :=
  inferInstanceAs (Decidable (List.Pairwise _ _))

section Steps

variable {s s' : Outbound} {e : OutboundCall}

/-- A row that was read comes to the end of the channel of its connection: its road is the same,
    and so are the others. -/
theorem road_redriven (hs : s.web.lanes.Sound) {p p' : Nat × Nat} {q : Queued}
    {before after : List (Nat × Queued)} (hbefore : s.redriving = before ++ (p.2, q) :: after)
    (hfirst : ∀ e ∈ before, e.1 ≠ p.2) (hhome : p.1 = s.web.sendTx) (hp : p ∈ s.web.pumps)
    (hp' : p' ∈ s.web.pumps) :
    (s.web.enqueueSend q).lanes.lane p' ++ along p'.2 (before ++ after) = s.road p' := by
  have hlane : (s.web.enqueueSend q).lanes.lane p' =
      s.web.lanes.lane p' ++ if s.web.lanes.tx = p'.1 then [q] else [] :=
    lane_enqueue s.web.lanes q p'
  unfold Outbound.road
  rw [hlane, hbefore]
  by_cases he : p = p'
  · subst he
    have htx : s.web.lanes.tx = p.1 := hhome.symm
    simp [htx, along_eq_nil hfirst]
  · obtain ⟨hch, hconn⟩ := hs.distinct hp hp' he
    have htx : s.web.lanes.tx ≠ p'.1 := fun h => hch (hhome.trans h)
    simp [htx, hconn]

/-- **What a step keeps of every road**: a road may lose operations; what comes into the channel,
    what a connection finds there, and what it reads of the table has to be looked at. -/
theorem road_invariant {Q : Nat × Nat → List Queued → Prop} (hs : s.web.lanes.Sound)
    (hr : Reading s) (hsub : ∀ p l l', l'.Sublist l → Q p l → Q p l')
    (henter : ∀ q, s.entering e = some q → (∀ p files deleteOk, e ≠ .redrive p files deleteOk) →
      ∀ p ∈ s.web.pumps, p.1 = s.web.sendTx → Q p (s.road p) →
        Q p (s.web.lanes.lane p ++ q :: along p.2 s.redriving))
    (hhome : ∀ p files deleteOk, e = .redrive p files deleteOk → p.1 = s.web.sendTx)
    (hdrain : ∀ p drainOk, e = .drainOutboundQueue p drainOk → s.road p = along p.1 s.web.queued →
      Q p (along p.1 s.web.queued) → Q p (along p.1 s.web.queued ++ s.drained drainOk))
    (hopened : ∀ id, e = .handshakeDone id → ∀ ch ∈ s.web.sendRx,
      Q (ch, s.web.nextConn) (along ch s.web.queued))
    (hstep : s.step e = some s') (hkept : ∀ p ∈ s.web.pumps, Q p (s.road p)) :
    ∀ p ∈ s'.web.pumps, Q p (s'.road p) := by
  cases rereads_step hstep with
  | same hother _ hredriving =>
      unfold Outbound.road
      rw [hredriving]
      refine lane_invariant (Q := fun p l => Q p (l ++ along p.2 s.redriving)) hs ?_ ?_ ?_ hstep hkept
      · exact fun p l l' hl => hsub p _ _ (hl.append (List.Sublist.refl _))
      · intro q hq p hp htx hQ
        rw [List.append_assoc]
        exact henter q hq hother p hp htx hQ
      · intro id he ch hch
        have hnone : along s.web.nextConn s.redriving = [] :=
          along_eq_nil fun x hx => Nat.ne_of_lt (hr.redriving_lt x hx)
        rw [hnone, List.append_nil]
        exact hopened id he ch hch
  | drains p drainOk he hdrained hweb _ hredriving =>
      obtain ⟨d, hd, rfl, hread⟩ := hdrained
      obtain ⟨hrest, hshipped⟩ := hr.unread d hd hread
      intro p hp
      rw [hweb] at hp
      by_cases hsame : p = d.pump
      · subst hsame
        have hroad : s.road d.pump = along d.pump.1 s.web.queued := by
          simp [Outbound.road, Lanes.lane, Web.lanes, along_eq_nil hrest, along_eq_nil hshipped]
        have hroad' : s'.road d.pump = along d.pump.1 s.web.queued ++ s.drained drainOk := by
          simp [Outbound.road, Lanes.lane, Web.lanes, hweb, hredriving, along_eq_nil hrest,
            along_eq_nil hshipped]
        rw [hroad']
        exact hdrain d.pump drainOk he hroad (hroad ▸ hkept d.pump hp)
      · have hroad : s'.road p = s.road p := by
          have hconn := (hs.distinct (hr.pumped d hd) hp (Ne.symm hsame)).2
          unfold Outbound.road
          rw [hweb, hredriving, along_append, along_tagged_ne hconn, List.append_nil]
        rw [hroad]
        exact hkept p hp
  | through p files deleteOk q before after he hdrained _ hbefore hfirst hredriving hweb =>
      obtain ⟨d, hd, rfl⟩ := hdrained
      intro p hp
      rcases hweb with hweb | hweb
      · rw [hweb] at hp
        refine hsub p _ _ ?_ (hkept p hp)
        unfold Outbound.road
        rw [hweb, hredriving, hbefore]
        refine (List.Sublist.refl _).append ?_
        have hrest : (before ++ after).Sublist (before ++ (d.pump.2, q) :: after) :=
          (List.Sublist.refl before).append (List.sublist_cons_self _ _)
        exact (hrest.filter _).map _
      · rw [hweb] at hp
        have hroad : s'.road p = s.road p := by
          unfold Outbound.road
          rw [hweb, hredriving]
          exact road_redriven hs hbefore hfirst (hhome _ files deleteOk he) (hr.pumped d hd) hp
        rw [hroad]
        exact hkept p hp

end Steps

/-- What is known of the roads, and of the calls that have yet to send. -/
structure Paths (s : Outbound) : Prop where
  sound : s.web.lanes.Sound
  reading : Reading s
  waiting : s.pending.Pairwise fun q q' => q.seq < q'.seq
  waiting_lt : ∀ q ∈ s.pending, q.seq < s.enqueued.length
  ordered : ∀ p ∈ s.web.pumps, InOrder (s.road p)
  numbered : ∀ p ∈ s.web.pumps, ∀ q ∈ s.road p, q.persisted = true →
    q.seq < s.enqueued.length ∧ ∀ q' ∈ s.pending, q.seq < q'.seq
  /-- No operation is on the road of a connection that opened after its ack. -/
  acked : ∀ p ∈ s.web.pumps, ∀ q ∈ s.road p, ∀ a ∈ s.acked, q.msgId? = some a.1 → p.2 < a.2

section Steps

variable {s s' : Outbound} {e : OutboundCall}

theorem paths_new (status : SessionStatus) (messages : List MessageRow) :
    Paths (Outbound.new status messages) where
  sound := sound_start 0
  reading := reading_new status messages
  waiting := List.Pairwise.nil
  waiting_lt _ hq := nomatch hq
  ordered _ hp := nomatch hp
  numbered _ hp := nomatch hp
  acked _ hp := nomatch hp

/-- Who waits to send: whoever did before, and whoever has just written a row. -/
theorem pending_step (hstep : s.step e = some s') :
    s'.pending = s.pending ∨ (∃ place, e = .sendPending place ∧
        s'.pending = s.pending.eraseIdx place) ∨
      ∃ op now storeOk, e = .enqueueSendPersistent op now storeOk ∧
        s'.pending = s.pending ++ [s.tagged op] := by
  cases e with
  | enqueueSendPersistent op now storeOk =>
      cases hstep
      unfold Outbound.enqueueSendPersistent
      split
      · exact .inl rfl
      · exact .inr (.inr ⟨op, now, storeOk, rfl, rfl⟩)
  | sendPending place =>
      obtain ⟨q, -, rfl⟩ := sendPending_cases hstep
      exact .inr (.inl ⟨place, rfl, rfl⟩)
  | enqueueSend op =>
      simp only [Outbound.step] at hstep
      split at hstep <;> cases hstep
      exact .inl rfl
  | payload id =>
      simp only [Outbound.step] at hstep
      split at hstep <;> cases hstep
      exact .inl rfl
  | handshakeDone id =>
      obtain ⟨web, login, -, -, rfl⟩ := handshakeDone_cases hstep
      exact .inl rfl
  | drainOutboundQueue p drainOk =>
      obtain ⟨-, rfl⟩ := drain_cases hstep
      exact .inl rfl
  | redrive p files deleteOk =>
      obtain ⟨-, q, rest, -, ⟨-, -, rfl⟩ | ⟨-, rfl⟩⟩ := redrive_cases hstep
      · exact .inl rfl
      · exact .inl rfl
  | pump p outcome =>
      obtain ⟨-, -, q, rest, -, ⟨-, rfl⟩ | ⟨chat, storeOk, -, rfl⟩⟩ := pump_cases hstep
      · exact .inl rfl
      · exact .inl rfl
  | pairSuccess id jid reply =>
      obtain ⟨-, web, -, rfl⟩ := pairSuccess_cases hstep
      exact .inl rfl
  | logout fresh storeOk =>
      cases hstep
      unfold Outbound.logout
      split <;> exact .inl rfl
  | shipping e =>
      obtain ⟨-, ships, -, rfl⟩ := shipping_cases hstep
      cases e <;> exact .inl rfl
  | session e =>
      obtain ⟨-, -, web, -, rfl⟩ := session_cases hstep
      exact .inl rfl

theorem enqueued_grows (hstep : s.step e = some s') : s.enqueued.length ≤ s'.enqueued.length := by
  cases adds_step hstep with
  | nothing _ henqueued | ack _ _ _ _ _ henqueued => rw [henqueued]
  | login _ _ _ _ _ henqueued | drop _ _ _ _ _ _ henqueued => rw [henqueued]
  | operation op _ henqueued =>
      rw [henqueued, List.length_append]
      exact Nat.le_add_right _ _

theorem waiting_step (h : Paths s) (hstep : s.step e = some s') :
    (s'.pending.Pairwise fun q q' => q.seq < q'.seq) ∧
      ∀ q ∈ s'.pending, q.seq < s'.enqueued.length := by
  have hgrows := enqueued_grows hstep
  rcases pending_step hstep with hsame | ⟨place, -, herase⟩ | ⟨op, now, storeOk, rfl, hmore⟩
  · rw [hsame]
    exact ⟨h.waiting, fun q hq => Nat.lt_of_lt_of_le (h.waiting_lt q hq) hgrows⟩
  · rw [herase]
    have hsub := s.pending.eraseIdx_sublist place
    exact ⟨h.waiting.sublist hsub,
      fun q hq => Nat.lt_of_lt_of_le (h.waiting_lt q (hsub.subset hq)) hgrows⟩
  · have hlength : s'.enqueued.length = s.enqueued.length + 1 := by
      cases adds_step hstep with
      | nothing hnone => cases hnone
      | operation op' _ henqueued => rw [henqueued, List.length_append, List.length_singleton]
      | ack _ _ _ he | login _ _ he | drop _ _ _ _ he => cases he
    rw [hmore, hlength]
    refine ⟨List.pairwise_append.mpr ⟨h.waiting, List.pairwise_singleton _ _, ?_⟩, ?_⟩
    · intro q hq q' hq'
      rw [List.mem_singleton.mp hq']
      exact h.waiting_lt q hq
    · intro q hq
      rcases List.mem_append.mp hq with hold | hnew
      · exact Nat.lt_succ_of_lt (h.waiting_lt q hold)
      · rw [List.mem_singleton.mp hnew]
        exact Nat.lt_succ_self _

/-- What comes into the channel, but for the rows that were read, is not persisted, or is of the call
    that has waited longest. -/
theorem entering_cases (horderly : Orderly s e) (hstep : s.step e = some s') {q : Queued}
    (hq : s.entering e = some q) (hother : ∀ p files deleteOk, e ≠ .redrive p files deleteOk) :
    q.msgId? = none ∨ (∃ rest, s.pending = q :: rest ∧ s'.pending = rest) ∧
      (∀ p ∈ s.web.pumps, p.1 = s.web.sendTx → along p.2 s.redriving = []) ∧
        ∀ a ∈ s.acked, q.msgId? ≠ some a.1 := by
  cases e with
  | enqueueSendPersistent op now storeOk =>
      simp only [Outbound.entering] at hq
      split at hq <;> cases hq
      next hop => exact .inl hop
  | enqueueSend op =>
      simp only [Outbound.step] at hstep
      split at hstep <;> cases hstep
      cases hq
      next hop => exact .inl hop
  | sendPending place =>
      obtain ⟨q', hq', rfl⟩ := sendPending_cases hstep
      obtain ⟨rfl, hfree, hunacked⟩ := horderly
      cases hpending : s.pending with
      | nil =>
          rw [hpending] at hq'
          cases hq'
      | cons q₀ rest =>
          have hhead : q = q₀ := by
            simp only [Outbound.entering, hpending, List.getElem?_cons_zero] at hq
            exact (Option.some.inj hq).symm
          subst hhead
          refine .inr ⟨⟨rest, rfl, by simp⟩, ?_, ?_⟩
          · exact fun p hp htx => along_eq_nil fun x hx => hfree p hp htx x hx
          · exact fun a ha => hunacked q (hpending ▸ List.mem_cons_self) a ha
  | redrive p files deleteOk => exact absurd rfl (hother p files deleteOk)
  | handshakeDone | drainOutboundQueue | payload | pump | pairSuccess | logout | shipping | session =>
      cases hq

/-- The rows are drained in the order in which they were enqueued. -/
theorem drained_ordered (h : Table s) {drainOk : Bool}
    (hsorted : drainOk = true → s.ships.queue.Pairwise QueueRow.Before) :
    (s.drained drainOk).Pairwise fun q q' => q.seq < q'.seq := by
  unfold Outbound.drained
  split
  · next hdrain =>
      rw [outboundQueueDrain, (hsorted hdrain).insertionSort_eq]
      exact List.pairwise_map.mpr h.ordered
  · exact List.Pairwise.nil

/-- In the channel that a connection takes there is nothing that is persisted. -/
theorem channel_empty {ch : Nat} (hempty : ∀ e ∈ s.web.queued, e.1 = ch → e.2.msgId? = none)
    {q : Queued} (hq : q ∈ along ch s.web.queued) : q.msgId? = none :=
  hempty (ch, q) (mem_along.mp hq) rfl

theorem channel_unpersisted {ch : Nat}
    (hempty : ∀ e ∈ s.web.queued, e.1 = ch → e.2.msgId? = none) :
    (along ch s.web.queued).filter Queued.persisted = [] := by
  refine List.filter_eq_nil_iff.mpr fun q hq => ?_
  simp [Queued.persisted, channel_empty hempty hq]

theorem inOrder_step (ht : Table s) (h : Paths s) (horderly : Orderly s e)
    (hstep : s.step e = some s') : ∀ p ∈ s'.web.pumps, InOrder (s'.road p) := by
  refine road_invariant (Q := fun _ l => InOrder l) h.sound h.reading ?_ ?_ ?_ ?_ ?_ hstep h.ordered
  · exact fun _ l l' hsub hl => hl.sublist (hsub.filter _)
  · intro q hq hother p hp htx hl
    rcases entering_cases horderly hstep hq hother with hnone | ⟨⟨rest, hpending, -⟩, hfree, -⟩
    · have hskip : q.persisted = false := by simp [Queued.persisted, hnone]
      unfold InOrder Outbound.road at *
      rwa [List.filter_append, List.filter_cons_of_neg (by simp [hskip]), ← List.filter_append]
    · unfold InOrder
      rw [hfree p hp htx, List.filter_append]
      have hlane : s.road p = s.web.lanes.lane p := by
        rw [Outbound.road, hfree p hp htx, List.append_nil]
      rw [hlane] at hl
      refine List.pairwise_append.mpr ⟨hl, List.Pairwise.filter _ (List.pairwise_singleton _ _), ?_⟩
      intro q₀ hq₀ q' hq'
      obtain ⟨hmem, hpersisted⟩ := List.mem_filter.mp hq₀
      rw [List.mem_singleton.mp (List.mem_of_mem_filter hq')]
      exact (h.numbered p hp q₀ (hlane.symm ▸ hmem) hpersisted).2 q (hpending ▸ List.mem_cons_self)
  · rintro p files deleteOk rfl
    exact horderly
  · rintro p drainOk rfl - hl
    cases drainOk with
    | false =>
        rw [Outbound.drained, if_neg (by decide), List.append_nil]
        exact hl
    | true =>
        obtain ⟨hempty, -, hsorted, -⟩ := horderly rfl
        unfold InOrder
        rw [List.filter_append, channel_unpersisted hempty, List.nil_append]
        exact (drained_ordered ht fun _ => hsorted).filter _
  · rintro id rfl ch hch
    unfold InOrder
    rw [channel_unpersisted (horderly ch hch)]
    exact List.Pairwise.nil

theorem numbered_step (ht : Table s) (h : Paths s) (horderly : Orderly s e)
    (hstep : s.step e = some s') : ∀ p ∈ s'.web.pumps, ∀ q ∈ s'.road p, q.persisted = true →
      q.seq < s'.enqueued.length ∧ ∀ q' ∈ s'.pending, q.seq < q'.seq := by
  have hgrows := enqueued_grows hstep
  -- Whoever has just written a row is the last.
  have hlater {q : Queued} (hlt : q.seq < s.enqueued.length)
      (hbefore : ∀ q' ∈ s.pending, q.seq < q'.seq) :
      q.seq < s'.enqueued.length ∧ ∀ q' ∈ s'.pending, q.seq < q'.seq := by
    refine ⟨Nat.lt_of_lt_of_le hlt hgrows, fun q' hq' => ?_⟩
    rcases pending_step hstep with hsame | ⟨place, -, herase⟩ | ⟨op, _, _, -, hmore⟩
    · exact hbefore q' (hsame ▸ hq')
    · exact hbefore q' ((s.pending.eraseIdx_sublist place).subset (herase ▸ hq'))
    · rw [hmore] at hq'
      rcases List.mem_append.mp hq' with hold | hnew
      · exact hbefore q' hold
      · rw [List.mem_singleton.mp hnew]
        exact hlt
  refine road_invariant (Q := fun _ l => ∀ q ∈ l, q.persisted = true →
      q.seq < s'.enqueued.length ∧ ∀ q' ∈ s'.pending, q.seq < q'.seq)
    h.sound h.reading ?_ ?_ ?_ ?_ ?_ hstep fun p hp q hq hpersisted =>
      hlater (h.numbered p hp q hq hpersisted).1 (h.numbered p hp q hq hpersisted).2
  · exact fun _ l l' hsub hl q hq => hl q (hsub.subset hq)
  · intro q hq hother p hp htx hl q₀ hq₀ hpersisted
    rcases List.mem_append.mp hq₀ with hlane | hrest
    · exact hl q₀ (List.mem_append_left _ hlane) hpersisted
    · rcases List.mem_cons.mp hrest with rfl | hrest
      · rcases entering_cases horderly hstep hq hother with hnone | ⟨⟨rest, hpending, hafter⟩, -, -⟩
        · simp [Queued.persisted, hnone] at hpersisted
        · have hwaits := h.waiting
          rw [hpending] at hwaits
          refine ⟨Nat.lt_of_lt_of_le (h.waiting_lt q₀ (hpending ▸ List.mem_cons_self)) hgrows, ?_⟩
          rw [hafter]
          exact (List.pairwise_cons.mp hwaits).1
      · exact hl q₀ (List.mem_append_right _ hrest) hpersisted
  · rintro p files deleteOk rfl
    exact horderly
  · rintro p drainOk rfl - hl q hq hpersisted
    rcases List.mem_append.mp hq with hold | hnew
    · exact hl q hold hpersisted
    · obtain ⟨⟨row, hrow, rfl⟩, hdrain⟩ := mem_drained hnew
      obtain ⟨-, hnone, -⟩ := horderly hdrain
      refine hlater (ht.numbered row.op (ht.rows row hrow).1) fun q' hq' => ?_
      rw [hnone] at hq'
      cases hq'
  · rintro id rfl ch hch q hq hpersisted
    simp [Queued.persisted, channel_empty (horderly ch hch) hq] at hpersisted

theorem acked_roads_step (ht : Table s) (h : Paths s) (horderly : Orderly s e)
    (hstep : s.step e = some s') : ∀ p ∈ s'.web.pumps, ∀ q ∈ s'.road p,
      ∀ a ∈ s'.acked, q.msgId? = some a.1 → p.2 < a.2 := by
  have hroads : ∀ p ∈ s'.web.pumps, ∀ q ∈ s'.road p, ∀ a ∈ s.acked,
      q.msgId? = some a.1 → p.2 < a.2 := by
    refine road_invariant
      (Q := fun p l => ∀ q ∈ l, ∀ a ∈ s.acked, q.msgId? = some a.1 → p.2 < a.2)
      h.sound h.reading ?_ ?_ ?_ ?_ ?_ hstep h.acked
    · exact fun _ l l' hsub hl q hq => hl q (hsub.subset hq)
    · intro q hq hother p hp htx hl q₀ hq₀ a ha hid
      rcases List.mem_append.mp hq₀ with hlane | hrest
      · exact hl q₀ (List.mem_append_left _ hlane) a ha hid
      · rcases List.mem_cons.mp hrest with rfl | hrest
        · rcases entering_cases horderly hstep hq hother with hnone | ⟨-, -, hunacked⟩
          · rw [hnone] at hid
            cases hid
          · exact absurd hid (hunacked a ha)
        · exact hl q₀ (List.mem_append_right _ hrest) a ha hid
    · rintro p files deleteOk rfl
      exact horderly
    · rintro p drainOk rfl - hl q hq a ha hid
      rcases List.mem_append.mp hq with hold | hnew
      · exact hl q hold a ha hid
      · -- A row whose ack came would be about to go.
        obtain ⟨⟨row, hrow, rfl⟩, hdrain⟩ := mem_drained hnew
        obtain ⟨-, -, -, hclean⟩ := horderly hdrain
        rw [(ht.rows row hrow).2, Option.some.injEq] at hid
        exact absurd (ht.pending a ha row hrow hid) (hclean row hrow)
    · rintro id rfl ch hch q hq a ha hid
      rw [channel_empty (horderly ch hch) hq] at hid
      cases hid
  cases adds_step hstep with
  | nothing _ _ hacked | operation _ _ _ hacked =>
      rw [hacked]
      exact hroads
  | login _ _ _ _ _ _ hacked | drop _ _ _ _ _ _ _ hacked =>
      rw [hacked]
      exact hroads
  | ack conn msgId error _ hweb _ hacked =>
      intro p hp q hq a ha hid
      rw [hacked] at ha
      rcases List.mem_append.mp ha with hold | hnew
      · exact hroads p hp q hq a hold hid
      · rw [List.mem_singleton.mp hnew]
        exact (h.sound.pumps_lt p (hweb ▸ hp)).2

theorem paths_step (ht : Table s) (h : Paths s) (horderly : Orderly s e)
    (hstep : s.step e = some s') : Paths s' where
  sound := lanes_sound_step h.sound hstep
  reading := reading_step h.sound h.reading hstep
  waiting := (waiting_step h hstep).1
  waiting_lt := (waiting_step h hstep).2
  ordered := inOrder_step ht h horderly hstep
  numbered := numbered_step ht h horderly hstep
  acked := acked_roads_step ht h horderly hstep

end Steps

/-! ## 5. Runs -/

/-- What is recorded has happened. -/
structure Recorded (past : List OutboundCall) (s : Outbound) : Prop where
  acked : ∀ a ∈ s.acked, ∃ conn error, .shipping (.ack conn a.1 error) ∈ past
  gone : ∀ q ∈ s.gone, ∃ path, q.op.filePath? = some path ∧
    ∃ p files deleteOk, .redrive p files deleteOk ∈ past ∧ path ∉ files

theorem recorded_new (status : SessionStatus) (messages : List MessageRow) :
    Recorded [] (Outbound.new status messages) where
  acked _ ha := nomatch ha
  gone _ hq := nomatch hq

theorem Recorded.later {past : List OutboundCall} {s : Outbound} (h : Recorded past s)
    (e : OutboundCall) : Recorded (past ++ [e]) s where
  acked a ha := by
    obtain ⟨conn, error, hmem⟩ := h.acked a ha
    exact ⟨conn, error, List.mem_append_left _ hmem⟩
  gone q hq := by
    obtain ⟨path, hpath, p, files, deleteOk, hmem, hfiles⟩ := h.gone q hq
    exact ⟨path, hpath, p, files, deleteOk, List.mem_append_left _ hmem, hfiles⟩

theorem recorded_step {past : List OutboundCall} {s s' : Outbound} {e : OutboundCall}
    (h : Recorded past s) (hstep : s.step e = some s') : Recorded (past ++ [e]) s' := by
  have hlater := h.later e
  cases adds_step hstep with
  | nothing _ _ hacked hgone | operation _ _ _ hacked hgone =>
      exact ⟨hacked ▸ hlater.acked, hgone ▸ hlater.gone⟩
  | login _ _ _ _ _ _ hacked hgone => exact ⟨hacked ▸ hlater.acked, hgone ▸ hlater.gone⟩
  | ack conn msgId error he _ _ hacked hgone =>
      refine ⟨?_, hgone ▸ hlater.gone⟩
      intro a ha
      rw [hacked] at ha
      rcases List.mem_append.mp ha with hold | hnew
      · exact hlater.acked a hold
      · rw [List.mem_singleton.mp hnew, he]
        exact ⟨conn, error, List.mem_append_right _ (List.mem_singleton_self _)⟩
  | drop p files deleteOk q he hfile _ hacked hgone =>
      refine ⟨hacked ▸ hlater.acked, ?_⟩
      intro q' hq'
      rw [hgone] at hq'
      rcases List.mem_append.mp hq' with hold | hnew
      · exact hlater.gone q' hold
      · obtain ⟨path, hpath, hfiles⟩ := isGone_iff.mp hfile
        rw [List.mem_singleton.mp hnew, he]
        exact ⟨path, hpath, p, files, deleteOk,
          List.mem_append_right _ (List.mem_singleton_self _), hfiles⟩

/-- An ack stays counted. -/
theorem acked_run {s s' : Outbound} {run : List OutboundCall}
    (hrun : runFrom Outbound.step s run = some s') : s.acked ⊆ s'.acked := by
  induction run generalizing s with
  | nil =>
      cases hrun
      exact List.Subset.refl _
  | cons e run ih =>
      obtain ⟨mid, hstep, hrest⟩ := runFrom_cons hrun
      refine List.Subset.trans ?_ (ih hrest)
      cases adds_step hstep with
      | nothing _ _ hacked | operation _ _ _ hacked =>
          rw [hacked]
          exact List.Subset.refl _
      | login _ _ _ _ _ _ hacked | drop _ _ _ _ _ _ _ hacked =>
          rw [hacked]
          exact List.Subset.refl _
      | ack _ _ _ _ _ _ hacked =>
          rw [hacked]
          exact List.subset_append_left _ _

/-- **Persistent sends are shipped once a connection, in order, and are not lost**, in every run
    whose steps are orderly: what a connection was given is in the order of its enqueueing; an
    operation whose ack came is on no connection that opened later; and one whose ack did not come
    has its row, unless it is about a file that was found missing. -/
theorem sends_once_in_order (status : SessionStatus) (messages : List MessageRow)
    (run : List OutboundCall) (s : Outbound)
    (horderly : Meets Outbound.step Orderly (Outbound.new status messages) run)
    (hrun : runFrom Outbound.step (Outbound.new status messages) run = some s) :
    (∀ conn, InOrder (along conn s.web.shipped)) ∧
    (∀ past rest mid conn msgId error, run = past ++ .shipping (.ack conn msgId error) :: rest →
      runFrom Outbound.step (Outbound.new status messages) past = some mid →
        ∀ e ∈ s.web.shipped, e.2.msgId? = some msgId → e.1 < mid.web.nextConn) ∧
    ∀ q ∈ s.enqueued, ∀ msgId, q.msgId? = some msgId →
      (∀ conn error, .shipping (.ack conn msgId error) ∉ run) →
        (∃ row ∈ s.ships.queue, row.op = q) ∨
          ∃ path, q.op.filePath? = some path ∧ ∃ p files deleteOk,
            .redrive p files deleteOk ∈ run ∧ path ∉ files := by
  have hkept : Table s ∧ Paths s :=
    run_invariant (I := fun s => Table s ∧ Paths s)
      (fun _ _ _ h horderly hstep =>
        ⟨table_step h.1 horderly hstep, paths_step h.1 h.2 horderly hstep⟩)
      ⟨table_new status messages, paths_new status messages⟩ horderly hrun
  have hrecorded : Recorded ([] ++ run) s :=
    run_history (I := Recorded) (fun _ _ _ _ h _ hstep => recorded_step h hstep)
      (recorded_new status messages) horderly hrun
  obtain ⟨htable, hpaths⟩ := hkept
  refine ⟨?_, ?_, ?_⟩
  · intro conn
    by_cases hpump : ∃ p ∈ s.web.pumps, p.2 = conn
    · obtain ⟨p, hp, rfl⟩ := hpump
      have hroad : (along p.2 s.web.shipped).Sublist (s.road p) :=
        (List.sublist_append_left _ _).trans (List.sublist_append_left _ _)
      exact (hpaths.ordered p hp).sublist (hroad.filter _)
    · -- A connection without a pump was given nothing.
      have hnone : along conn s.web.shipped = [] := by
        refine along_eq_nil fun e he hconn => ?_
        obtain ⟨p, hp, hpconn⟩ := hpaths.sound.pumped e he
        exact hpump ⟨p, hp, hpconn.trans hconn⟩
      rw [hnone]
      exact List.Pairwise.nil
  · rintro past rest mid conn msgId error rfl hpast e he hid
    rw [runFrom_append, hpast, Option.bind_some] at hrun
    obtain ⟨next, hstep, hrest⟩ := runFrom_cons hrun
    have hcounted : (msgId, mid.web.nextConn) ∈ next.acked := by
      obtain ⟨-, ships, -, rfl⟩ := shipping_cases hstep
      exact List.mem_append_right _ (List.mem_singleton_self _)
    obtain ⟨p, hp, hconn, hlane⟩ := hpaths.sound.mem_lane he
    have hlt := hpaths.acked p hp e.2 (List.mem_append_left _ hlane) _ (acked_run hrest hcounted) hid
    exact hconn ▸ hlt
  · intro q hq msgId hid hunacked
    rcases htable.kept q hq msgId hid with hgone | ⟨n, hn⟩ | hrow
    · exact .inr (hrecorded.gone q hgone)
    · obtain ⟨conn, error, hack⟩ := hrecorded.acked _ hn
      exact absurd hack (hunacked conn error)
    · exact .inl hrow

namespace Sample

def op (msgId : String) : SendOp := .text "c" msgId "hi" 0

/-- A call that writes its row and sends. -/
def enqueue (msgId : String) : List OutboundCall :=
  [.enqueueSendPersistent (op msgId) 0 true, .sendPending 0]

/-- A driver that starts, and its handshake. -/
def dialed : List OutboundCall :=
  [.session (.connect true), .session (.driver 0 (.start true)), .payload 0, .handshakeDone 0]

/-- It reads the table, and finds nothing. -/
def online : List OutboundCall := dialed ++ [.drainOutboundQueue (0, 0) true]

/-- Its connection is lost, and it comes back with another. -/
def redialed : List OutboundCall :=
  [.session (.driver 0 .lost), .session (.driver 0 .backoffOver), .payload 0, .handshakeDone 0,
    .drainOutboundQueue (1, 1) true]

def ship (p : Nat × Nat) : OutboundCall := .pump p (some ("c", true))

/-- A message is shipped, lost with its connection, shipped on the next one, and acked. -/
def survives : List OutboundCall :=
  online ++ enqueue "a" ++ [ship (0, 0)] ++ redialed ++ [.redrive (1, 1) [] true,
    ship (1, 1), .shipping (.ack 1 "a" none), .shipping (.wakes 1 true true)]

def offline : List OutboundCall :=
  enqueue "a" ++ online ++ [.redrive (0, 0) [] true, ship (0, 0), ship (0, 0)]

/-- Two messages of one second, whose ids are the other way round. -/
def oneSecond : List OutboundCall :=
  online ++ enqueue "b" ++ enqueue "a" ++ redialed ++
    [.redrive (1, 1) [] true, .redrive (1, 1) [] true, ship (1, 1), ship (1, 1)]

/-- A retry receipt comes before the ack: the resend registers for it, and nobody waits there. -/
def resent : List OutboundCall := online ++ enqueue "a" ++ [ship (0, 0), .shipping (.register 0 "a")]

/-- The table is read between the row of a message and the channel. -/
def halfway : List OutboundCall :=
  dialed ++ [.enqueueSendPersistent (op "a") 0 true, .drainOutboundQueue (0, 0) true, .sendPending 0,
    .redrive (0, 0) [] true, ship (0, 0), ship (0, 0)]

/-- A message is sent while the row of another one is read, and not in the channel yet. -/
def overtaken : List OutboundCall :=
  online ++ enqueue "a" ++ redialed ++ enqueue "b" ++
    [.redrive (1, 1) [] true, ship (1, 1), ship (1, 1)]

end Sample

theorem sends_once_in_order_survives : ∃ s,
    runFrom Outbound.step (Outbound.new .pending []) Sample.survives = some s ∧
      s.web.shipped.map (fun e => (e.1, e.2.seq)) = [(0, 0), (1, 0)] ∧
      InOrder (along 1 s.web.shipped) ∧ s.ships.queue.length = 0 := by
  have hrun : ∃ s, runFrom Outbound.step (Outbound.new .pending []) Sample.survives = some s :=
    ⟨_, rfl⟩
  obtain ⟨s, hrun⟩ := hrun
  have horder := (sends_once_in_order .pending [] Sample.survives s (by decide) hrun).1 1
  cases hrun
  exact ⟨_, rfl, rfl, horder, rfl⟩

/-- **What is enqueued offline is shipped twice on the next connection; what shares a second comes
    in the order of its ids; and a message whose ack comes after a resend is shipped again.** A call
    whose row is drained before it sends is shipped twice as well, and one that sends while the rows
    are on their way is shipped before them. -/
theorem sends_twice :
    (∃ s, runFrom Outbound.step (Outbound.new .pending []) Sample.offline = some s ∧
      s.web.shipped.map (fun e => (e.1, e.2.seq)) = [(0, 0), (0, 0)] ∧
      ¬InOrder (along 0 s.web.shipped)) ∧
    (∃ s, runFrom Outbound.step (Outbound.new .pending []) Sample.oneSecond = some s ∧
      s.web.shipped.map (fun e => (e.1, e.2.seq)) = [(1, 1), (1, 0)] ∧
      ¬InOrder (along 1 s.web.shipped)) ∧
    (∃ mid s, runFrom Outbound.step (Outbound.new .pending []) Sample.resent = some mid ∧
      runFrom Outbound.step mid (.shipping (.ack 0 "a" none) :: Sample.redialed ++
        [.redrive (1, 1) [] true, Sample.ship (1, 1)]) = some s ∧
      ∃ e ∈ s.web.shipped, e.2.msgId? = some "a" ∧ mid.web.nextConn ≤ e.1) ∧
    (∃ s, runFrom Outbound.step (Outbound.new .pending []) Sample.halfway = some s ∧
      s.web.shipped.map (fun e => (e.1, e.2.seq)) = [(0, 0), (0, 0)] ∧
      ¬InOrder (along 0 s.web.shipped)) ∧
    ∃ s, runFrom Outbound.step (Outbound.new .pending []) Sample.overtaken = some s ∧
      s.web.shipped.map (fun e => (e.1, e.2.seq)) = [(1, 1), (1, 0)] ∧
      ¬InOrder (along 1 s.web.shipped) := by
  refine ⟨⟨_, rfl, rfl, by decide⟩, ⟨_, rfl, rfl, by decide⟩, ⟨_, _, rfl, rfl, ?_⟩,
    ⟨_, rfl, rfl, by decide⟩, _, rfl, rfl, by decide⟩
  exact ⟨_, List.mem_append_right _ (List.mem_singleton_self _), rfl, by decide⟩

end Ruwa.Session
