/-
  File:      Ruwa/Session/Healing.lean
  Subject:   MESSAGES THAT COULD NOT BE DECRYPTED AT FIRST (`session.rs`, `process_inbound_message`
             and `restore_resent_message`): their retries, the task that announces them after a
             while, and what becomes of their row when they are decrypted at last.

  A run is made of messages with any ids, of mappings that are learned, of waiting tasks that wake
  up and look at their row, of tasks that send what they decided on, and of the counters of the
  retries being cleared.

  * `said_readable` -- what was decrypted is never filed as undecryptable;
  * `step_kept`, `step_read` -- what one step does to the rows, the tasks and the events of an id;
  * **`healed_once`** -- the message is healed and told once if all that carries it is filed, in one
    chat, and it is read once, while no task is about to announce it;
  * `healing_fails` -- a second delivery tells it twice, a mapping that is learned in between leaves
    the old row, and so does an edit; a task that looked before announces it after.
-/
import Ruwa.Session.Convergence

namespace Ruwa.Session.Inbound

open Ruwa.Library Ruwa.Crypto

/-! ## 1. What can be read -/

/-- What it says has a type of its own. -/
def InboundContent.Readable : InboundContent → Prop
  | typed kind _ => kind ≠ undecryptable
  | _ => True

theorem option_map_readable {α : Type} {f : α → InboundContent} (o : Option α)
    (h : ∀ x, (f x).Readable) : ∀ c ∈ o.map f, c.Readable := by
  rintro c hc
  obtain ⟨x, -, rfl⟩ := Option.map_eq_some_iff.mp hc
  exact h x

theorem findSome_readable {os : List (Option InboundContent)} {c : InboundContent}
    (h : ∀ o ∈ os, ∀ c ∈ o, c.Readable) (hc : os.findSome? id = some c) : c.Readable := by
  obtain ⟨o, ho, hsome⟩ := List.exists_of_findSome?_eq_some hc
  exact h o ho c hsome

theorem first_readable {content : Content} {c : InboundContent} (h : content.first = some c) :
    c.Readable := by
  unfold Content.first at h
  refine findSome_readable (fun o ho => ?_) h
  simp only [List.mem_cons, List.not_mem_nil, or_false] at ho
  rcases ho with rfl | rfl | rfl | rfl | rfl | rfl | rfl <;>
    exact option_map_readable _ fun _ => trivial

theorem response_readable (kind : ReplyKind) (o : Option ResponseMessage) :
    ∀ c ∈ o.bind (·.read kind), c.Readable := by
  rintro c hc
  obtain ⟨m, -, hread⟩ := Option.bind_eq_some_iff.mp hc
  obtain ⟨text, -, rfl⟩ := Option.map_eq_some_iff.mp hread
  exact trivial

theorem flag_readable (flag : Bool) {kind : String} (h : kind ≠ undecryptable) :
    ∀ c ∈ if flag then some (InboundContent.typed kind none) else none, c.Readable := by
  rintro c hc
  cases flag with
  | true =>
      cases hc
      exact h
  | false => cases hc

theorem rest_readable (content : Content) : content.rest.Readable := by
  unfold Content.rest
  cases hfind : List.findSome? id _ with
  | none => exact trivial
  | some c =>
      refine findSome_readable (fun o ho => ?_) hfind
      simp only [List.mem_cons, List.not_mem_nil, or_false] at ho
      rcases ho with rfl | rfl | rfl | rfl | rfl | rfl | rfl | rfl | rfl | rfl | rfl | rfl | rfl |
        rfl | rfl | rfl | rfl | rfl | rfl | rfl | rfl | rfl | rfl
      all_goals first
        | exact response_readable _ _
        | exact flag_readable _ (by decide)
        | exact option_map_readable _ fun _ => trivial
        | exact option_map_readable _ fun _ => (by decide : (_ : String) ≠ undecryptable)

theorem read_readable (content : Content) (edit : Option InboundContent) :
    (content.read edit).Readable := by
  unfold Content.read
  cases hfirst : content.first with
  | some c => exact first_readable hfirst
  | none =>
      cases content.protocol with
      | none => exact rest_readable content
      | some pm =>
          simp only
          unfold ProtocolMessage.read
          split
          · exact trivial
          · split
            · exact trivial
            · split
              · exact trivial
              · split
                · exact trivial
                · exact (by decide : "protocol" ≠ undecryptable)

/-- The induction is on the wrappers that may still be taken off. -/
theorem classify_readable (m : Message) (depth : Nat) : (classifyE2eMessage m depth).Readable := by
  induction hlayers : 4 - depth generalizing m depth with
  | zero =>
      rw [classify_bare (.inr (by omega))]
      exact read_readable _ _
  | succ layers ih =>
      cases hinner : m.inner with
      | none =>
          rw [classify_bare (.inl hinner)]
          exact read_readable _ _
      | some inner =>
          rw [classify_inner hinner (by omega)]
          exact ih inner (depth + 1) (by omega)

theorem useCase_kind {t : SecretEncType} {kind useCase : String}
    (h : t.useCase = some (kind, useCase)) : kind ≠ undecryptable := by
  cases t <;> cases h <;> decide

theorem decryptSecret_readable (r : Receiver) (secrets : List MessageSecret)
    (se : SecretEncryptedMessage) (editor : Str) :
    (decryptSecretEncrypted r secrets se editor).Readable := by
  have hsealed : ∀ {kind : String}, kind ≠ undecryptable → ∀ target text,
      (sealedContent kind target text).Readable := by
    intro kind hkind target text
    unfold sealedContent
    split
    · exact trivial
    · exact hkind
  unfold decryptSecretEncrypted
  split
  · exact trivial
  · split
    · exact trivial
    · split
      · exact trivial
      · next huse =>
          obtain ⟨t, -, ht⟩ := Option.bind_eq_some_iff.mp huse
          split <;> exact hsealed (useCase_kind ht) _ _

theorem decodeInbound_readable (r : Receiver) (store : Store) (s : Stanza) (m : Message) :
    (decodeInbound r store s m).Readable := by
  have hclass := classify_readable m 0
  unfold decodeInbound
  split
  · split
    · exact decryptSecret_readable _ _ _ _
    · exact trivial
  · next kind text htyped =>
      rw [htyped] at hclass
      split
      · split
        · unfold openPollVote
          split
          · exact (by decide : "poll_vote" ≠ undecryptable)
          · exact trivial
        · exact hclass
      · exact hclass
  · exact hclass

theorem columns_readable (base64 : Bytes → Str) (mark : Str × Json) (c : InboundContent)
    (h : c.Readable) : (columns base64 mark c).msgType ≠ undecryptable := by
  cases c with
  | typed kind text => exact h
  | media kind m =>
      have hkind : mediaKindStr kind ≠ undecryptable := by cases kind <;> decide
      exact hkind
  | _ => simp [columns, undecryptable]

theorem e2eContentColumns_readable (base64 : Bytes → Str) (source : String) (m : Option Message) :
    (e2eContentColumns base64 source m).msgType ≠ undecryptable := by
  cases m with
  | none => exact columns_readable base64 _ .other trivial
  | some m =>
      have hclass := classify_readable m 0
      unfold e2eContentColumns
      simp only
      split
      · exact columns_readable base64 _ _ trivial
      · exact columns_readable base64 _ _ trivial
      · exact columns_readable base64 _ _ trivial
      · exact columns_readable base64 _ _ trivial
      · exact columns_readable base64 _ _ hclass

/-- **What was decrypted is never filed as undecryptable**, and what was not always is. -/
theorem said_readable (r : Receiver) (w : World) (s : Stanza) :
    (inboundColumns r s (said r w s)).msgType ≠ undecryptable ↔ s.plain.isSome = true := by
  unfold said inboundContent
  cases s.plain with
  | none => exact ⟨fun h => absurd rfl h, fun h => Bool.noConfusion h⟩
  | some plain =>
      refine ⟨fun _ => rfl, fun _ => ?_⟩
      refine columns_readable r.wire.base64 (member "enc_type" (.str s.encType)) _ ?_
      cases s.message r with
      | none => exact trivial
      | some m => exact decodeInbound_readable _ _ _ _

theorem resentMessage_readable {r : Receiver} {table : List LidPnRow} {wmi : WebMessageInfo}
    {m : NewMessage} (hm : resentMessage r table wmi = some m) :
    m.columns.msgType ≠ undecryptable := by
  unfold resentMessage at hm
  obtain ⟨messageId, -, hm⟩ := Option.bind_eq_some_iff.mp hm
  obtain ⟨chatRaw, -, hm⟩ := Option.bind_eq_some_iff.mp hm
  simp only at hm
  split at hm
  · cases hm
  · cases hm
    exact e2eContentColumns_readable _ _ _

/-! ## 2. A session that waits -/

/-- A session, how often each message was asked for again (0 where there is no counter), and the
    tasks that announce one, each with its event: those that sleep, and those that have looked at
    the row and have not sent yet. -/
structure Live where
  world : World
  messageRetries : Str → Nat
  waiting : List Event
  sending : List Event

def bumpMessageRetry (retries : Str → Nat) (messageId : Str) : Str → Nat := fun id =>
  if id = messageId then retries id + 1 else retries id

def takeMessageRetry (retries : Str → Nat) (messageId : Str) : Str → Nat := fun id =>
  if id = messageId then 0 else retries id

def messageTypeGet (rows : List Row) (chat messageId : Str) : Option String :=
  (rows.find? fun row => row.HasKey chat messageId).map (·.msgType)

/-- The message itself, as it would be filed. -/
def own (r : Receiver) (w : World) (s : Stanza) : NewMessage :=
  (messageRouting r w s).message s (inboundColumns r s (said r w s))

/-- A message with what is counted of it: the first failure leaves a task behind, and what could
    be read takes its counter away. -/
def Live.inbound (r : Receiver) (l : Live) (s : Stanza) : Live :=
  let c := inboundColumns r s (said r l.world s)
  let restored := (resent r l.world s).foldl (fun retries m => takeMessageRetry retries m.messageId)
    l.messageRetries
  let world := processInboundMessage r l.world s
  if c.msgType = undecryptable then
    let retries := bumpMessageRetry restored s.id
    { l with
      world := world
      messageRetries := retries
      waiting := l.waiting ++
        if Filed r s (said r l.world s) (learnedStore r l.world s).rows ∧ retries s.id = 1 then
          [filedEvent r s c (messageRouting r l.world s)]
        else [] }
  else
    { l with
      world := world
      messageRetries := takeMessageRetry restored s.id }

/-- A task wakes up and looks at the row: it is going to send its event if that still cannot be
    read. Nothing is locked between this and `Live.send`. -/
def Live.wake (l : Live) (i : Nat) : Live :=
  match l.waiting[i]? with
  | none => l
  | some event =>
      let silent := { l with waiting := l.waiting.eraseIdx i }
      if messageTypeGet l.world.store.rows event.chat event.id = some undecryptable then
        { silent with sending := l.sending ++ [event] }
      else silent

/-- A task that has looked sends its event. -/
def Live.send (l : Live) (i : Nat) : Live :=
  match l.sending[i]? with
  | none => l
  | some event =>
      { l with
        world := { l.world with events := l.world.events ++ [event] }
        sending := l.sending.eraseIdx i }

/-- What the session does next. A mapping may be learned from elsewhere too, and a reconnect by
    hand clears the counters. -/
inductive Turn where
  | inbound (s : Stanza)
  | learn (now : Int) (pair : Str × Str)
  | wake (i : Nat)
  | send (i : Nat)
  | clearMessageRetries

def step (r : Receiver) (l : Live) : Turn → Live
  | .inbound s => l.inbound r s
  | .learn now pair =>
      { l with world := { l.world with store := { l.world.store with
        table := putMapping r.sessionId now l.world.store.table pair } } }
  | .wake i => l.wake i
  | .send i => l.send i
  | .clearMessageRetries => { l with messageRetries := fun _ => 0 }

def live (r : Receiver) (l : Live) (turns : List Turn) : Live := turns.foldl (step r) l

/-! ## 3. What is asked of it -/

/-- What is decrypted of a message by a stanza: by its resends, and by itself. -/
def decrypted (r : Receiver) (w : World) (s : Stanza) (id : Str) : List NewMessage :=
  (resent r w s ++ if s.plain.isSome then [own r w s] else []).filter fun m => m.messageId = id

/-- An event tells of a message that could not be decrypted. -/
def Event.isPlaceholder (e : Event) : Bool :=
  match Members.get e.body "type".toList with
  | some (.str kind) => kind = undecryptable.toList
  | _ => false

def contentEvents (id : Str) (events : List Event) : List Event :=
  events.filter fun e => e.id = id && !e.isPlaceholder

def placeholderEvents (id : Str) (events : List Event) : List Event :=
  events.filter fun e => e.id = id && e.isPlaceholder

theorem contentEvents_append (id : Str) (old new : List Event) :
    contentEvents id (old ++ new) = contentEvents id old ++ contentEvents id new :=
  List.filter_append ..

theorem placeholderEvents_append (id : Str) (old new : List Event) :
    placeholderEvents id (old ++ new) = placeholderEvents id old ++ placeholderEvents id new :=
  List.filter_append ..

/-- What tells of other messages tells nothing of this one. -/
theorem told_other {id : Str} {events : List Event} (h : ∀ e ∈ events, e.id ≠ id) :
    contentEvents id events = [] ∧ placeholderEvents id events = [] :=
  ⟨List.filter_eq_nil_iff.mpr fun e he => by simp [h e he],
    List.filter_eq_nil_iff.mpr fun e he => by simp [h e he]⟩

/-- The row has what was decrypted in it. -/
def NewMessage.In (m : NewMessage) (row : Row) : Prop :=
  row.msgType = m.columns.msgType ∧ row.bodyText = m.columns.bodyText ∧
    row.payload = some (.obj m.columns.payload)

/-- What is left of the message after it was decrypted in `before`. -/
structure Healed (id : Str) (m : NewMessage) (before after : Live) : Prop where
  stored : ∃ row ∈ after.world.store.rows, row.messageId = id ∧ m.In row
  healed : ∀ row ∈ after.world.store.rows, row.messageId = id → row.msgType ≠ undecryptable
  silent : placeholderEvents id after.world.events = placeholderEvents id before.world.events
  once : (contentEvents id after.world.events).length = 1

/-- **Once it was decrypted it is stored, told once, and never announced as undecryptable.** -/
def Heals (r : Receiver) (id : Str) (l : Live) (turns : List Turn) : Prop :=
  ∀ (pre : List Turn) (s : Stanza) (post : List Turn), turns = pre ++ .inbound s :: post →
    ∀ m ∈ decrypted r (live r l pre).world s id, Healed id m (live r l pre) (live r l turns)

/-- Nothing is known of the message yet. -/
structure Unheard (id : Str) (l : Live) : Prop where
  rows : ∀ row ∈ l.world.store.rows, row.messageId ≠ id
  waiting : ∀ e ∈ l.waiting, e.id ≠ id
  sending : ∀ e ∈ l.sending, e.id ≠ id
  events : ∀ e ∈ l.world.events, e.id ≠ id

/-! ## 4. When it does so -/

/-- What a stanza brings of the message, read or not. -/
def brings (r : Receiver) (w : World) (s : Stanza) (id : Str) : List NewMessage :=
  (resent r w s ++ [own r w s]).filter fun m => m.messageId = id

/-- A stanza that brings the message brings it once, to its chat, is filed, and is read only while
    no row of it can be read and no task is about to announce it; and no other stanza changes it. -/
structure Steady (r : Receiver) (id chat : Str) (l : Live) (s : Stanza) : Prop where
  single : (brings r l.world s id).length ≤ 1
  keyed : ∀ m ∈ brings r l.world s id, m.chatJid = chat
  first : ∀ m ∈ decrypted r l.world s id, ∀ row ∈ l.world.store.rows, row.messageId = id →
    row.msgType = undecryptable
  quiet : ∀ m ∈ decrypted r l.world s id, ∀ e ∈ l.sending, e.id ≠ id
  filed : s.id = id → Filed r s (said r l.world s) (learnedStore r l.world s).rows
  spared : named (said r l.world s) ≠ some id

instance (r : Receiver) (id chat : Str) (l : Live) (s : Stanza) :
    Decidable (Steady r id chat l s) :=
  decidable_of_iff ((brings r l.world s id).length ≤ 1 ∧
      (∀ m ∈ brings r l.world s id, m.chatJid = chat) ∧
      (∀ m ∈ decrypted r l.world s id, ∀ row ∈ l.world.store.rows, row.messageId = id →
        row.msgType = undecryptable) ∧
      (∀ m ∈ decrypted r l.world s id, ∀ e ∈ l.sending, e.id ≠ id) ∧
      (s.id = id → Filed r s (said r l.world s) (learnedStore r l.world s).rows) ∧
      named (said r l.world s) ≠ some id)
    ⟨fun h => ⟨h.1, h.2.1, h.2.2.1, h.2.2.2.1, h.2.2.2.2.1, h.2.2.2.2.2⟩,
      fun h => ⟨h.single, h.keyed, h.first, h.quiet, h.filed, h.spared⟩⟩

def Turn.Steady (r : Receiver) (id chat : Str) (l : Live) : Turn → Prop
  | .inbound s => Inbound.Steady r id chat l s
  | _ => True

instance (r : Receiver) (id chat : Str) (l : Live) : (t : Turn) → Decidable (t.Steady r id chat l)
  | .inbound s => inferInstanceAs (Decidable (Inbound.Steady r id chat l s))
  | .learn .. => .isTrue trivial
  | .wake _ => .isTrue trivial
  | .send _ => .isTrue trivial
  | .clearMessageRetries => .isTrue trivial

def AllSteady (r : Receiver) (id chat : Str) (l : Live) : List Turn → Prop
  | [] => True
  | t :: turns => t.Steady r id chat l ∧ AllSteady r id chat (step r l t) turns

def decAllSteady (r : Receiver) (id chat : Str) (l : Live) :
    (turns : List Turn) → Decidable (AllSteady r id chat l turns)
  | [] => .isTrue trivial
  | t :: turns =>
      have := decAllSteady r id chat (step r l t) turns
      inferInstanceAs (Decidable (_ ∧ _))

instance (r : Receiver) (id chat : Str) (l : Live) (turns : List Turn) :
    Decidable (AllSteady r id chat l turns) := decAllSteady r id chat l turns

/-! ## 5. One step -/

section Step

variable {r : Receiver} {w : World} {s : Stanza} {id chat : Str}

theorem filter_own : ([own r w s].filter fun m => m.messageId = id) =
    if s.id = id then [own r w s] else [] := by
  by_cases hid : s.id = id
  · rw [if_pos hid]
    exact List.filter_cons_of_pos (decide_eq_true hid)
  · rw [if_neg hid]
    exact List.filter_cons_of_neg fun h => hid (of_decide_eq_true h)

/-- **What a message does to the rows of an id**: it puts there what it brings of it. -/
theorem process_rowsOf (hfiled : s.id = id → Filed r s (said r w s) (learnedStore r w s).rows)
    (hspared : named (said r w s) ≠ some id) :
    rowsOf id (processInboundMessage r w s).store.rows =
      (brings r w s id).foldl messageInsert (rowsOf id w.store.rows) := by
  have hresent : rowsOf id (learnedStore r w s).rows =
      ((resent r w s).filter fun m => m.messageId = id).foldl messageInsert
        (rowsOf id w.store.rows) := rowsOf_foldl id (resent r w s) w.store.rows
  have hother : s.id ≠ id → brings r w s id =
      (resent r w s).filter fun m => m.messageId = id := by
    intro hid
    unfold brings
    rw [List.filter_append, filter_own, if_neg hid, List.append_nil]
  rw [process_eq]
  cases happlied : (applyTarget (learnedStore r w s).rows (said r w s)).1 with
  | true =>
      have hid : s.id ≠ id := fun hid =>
        Bool.false_ne_true ((hfiled hid).1.symm.trans happlied)
      rw [settle_applied (before r w s) happlied, hother hid, ← hresent]
      exact rowsOf_map_spared (target_key _)
        (fun row hrow => target_spared (by rwa [hrow])) _
  | false =>
      cases hprotocol : protocolOnly (inboundColumns r s (said r w s)).msgType with
      | true =>
          have hid : s.id ≠ id := fun hid =>
            Bool.false_ne_true ((hfiled hid).2.symm.trans hprotocol)
          rw [settle_protocol (before r w s) happlied hprotocol, hother hid]
          exact hresent
      | false =>
          have hkept : ∀ rows, rowsOf id (rows.map (Row.voted (messageRouting r w s).chatJid
              (messageRouting r w s).senderJid (said r w s))) = rowsOf id rows :=
            rowsOf_map_spared (voted_key _ _ _) fun row hrow => voted_spared (by rwa [hrow])
          rw [settle_filed (before r w s) ⟨happlied, hprotocol⟩]
          refine (hkept _).trans ?_
          by_cases hid : s.id = id
          · rw [rowsOf_insert_own hid]
            unfold brings
            rw [List.filter_append, filter_own, if_pos hid, List.foldl_append, ← hresent]
            rfl
          · rw [rowsOf_insert_other hid, hother hid]
            exact hresent

theorem isPlaceholder_body {messageId chat sender : Str} {c : Columns} {told : Members}
    {pushName : Option Str} {fromMe : Bool} {timestamp : Int} :
    Event.isPlaceholder ⟨messageId, chat, sender,
      messageBody r chat messageId c told pushName fromMe timestamp⟩ =
        decide (c.msgType = undecryptable) := by
  have hget : Members.get (messageBody r chat messageId c told pushName fromMe timestamp)
      "type".toList = some (.str c.msgType.toList) := rfl
  unfold Event.isPlaceholder
  simp only [hget, String.toList_inj]

theorem resent_told (id : Str) : (contentEvents id (resentEvents r w s)).length =
      ((resent r w s).filter fun m => m.messageId = id).length ∧
    placeholderEvents id (resentEvents r w s) = [] := by
  unfold resentEvents resent contentEvents placeholderEvents
  induction resentItems r s with
  | nil => exact ⟨rfl, rfl⟩
  | cons wmi items ih =>
      cases hm : resentMessage r (learnedTable r w s) wmi with
      | none =>
          simp only [List.filterMap_cons, hm, Option.map_none]
          exact ih
      | some m =>
          have hreadable := resentMessage_readable hm
          have hplain : (resentEvent r (nonempty wmi.pushName) m).isPlaceholder = false :=
            isPlaceholder_body.trans (decide_eq_false hreadable)
          have hid : (resentEvent r (nonempty wmi.pushName) m).id = m.messageId := rfl
          simp only [List.filterMap_cons, hm, Option.map_some, List.filter_cons, hplain, hid,
            Bool.not_false, Bool.and_true, Bool.and_false, Bool.false_eq_true, if_false]
          refine ⟨?_, ih.2⟩
          split
          · rw [List.length_cons, List.length_cons, ih.1]
          · exact ih.1

theorem own_told (hfiled : s.id = id → Filed r s (said r w s) (learnedStore r w s).rows) :
    (contentEvents id (settledEvents r w s (learnedStore r w s).rows)).length =
        ((if s.plain.isSome then [own r w s] else []).filter fun m => m.messageId = id).length ∧
      placeholderEvents id (settledEvents r w s (learnedStore r w s).rows) = [] := by
  by_cases hid : s.id = id
  · have hf := hfiled hid
    have hreadable := said_readable r w s
    unfold settledEvents
    rw [if_neg (by rw [hf.1]; exact Bool.false_ne_true)]
    cases hplain : s.plain.isSome with
    | false =>
        rw [if_neg fun h => Bool.false_ne_true (hplain.symm.trans (hreadable.mp h.2))]
        exact ⟨rfl, rfl⟩
    | true =>
        have hplaceholder : (filedEvent r s (inboundColumns r s (said r w s))
            (messageRouting r w s)).isPlaceholder = false :=
          isPlaceholder_body.trans (decide_eq_false (hreadable.mpr hplain))
        have heventId : (filedEvent r s (inboundColumns r s (said r w s))
            (messageRouting r w s)).id = id := hid
        rw [if_pos ⟨hf, hreadable.mpr hplain⟩, if_pos rfl, filter_own, if_pos hid]
        simp [contentEvents, placeholderEvents, hplaceholder, heventId]
  · have hother : ∀ e ∈ settledEvents r w s (learnedStore r w s).rows, e.id ≠ id := by
      intro e he
      unfold settledEvents at he
      split at he
      · rw [List.mem_singleton.mp he]
        exact hid
      · split at he
        · rw [List.mem_singleton.mp he]
          exact hid
        · cases he
    obtain ⟨hcontent, hplaceholder⟩ := told_other hother
    rw [hcontent, hplaceholder]
    refine ⟨?_, rfl⟩
    split
    · rw [filter_own, if_neg hid]
      rfl
    · rfl

/-- **What a message tells**: an event for what is decrypted of it, and no placeholder. -/
theorem process_told (hfiled : s.id = id → Filed r s (said r w s) (learnedStore r w s).rows) :
    (contentEvents id (processInboundMessage r w s).events).length =
        (contentEvents id w.events).length + (decrypted r w s id).length ∧
      placeholderEvents id (processInboundMessage r w s).events =
        placeholderEvents id w.events := by
  obtain ⟨hresent, hquiet⟩ := resent_told (r := r) (w := w) (s := s) id
  obtain ⟨hown, hstill⟩ := own_told hfiled
  unfold decrypted
  rw [process_events, List.filter_append, List.length_append]
  simp only [contentEvents_append, placeholderEvents_append, List.length_append, hresent, hquiet,
    hown, hstill, List.append_nil, Nat.add_assoc, and_self]

/-- What is decrypted is what is brought and can be read. -/
theorem decrypted_eq (r : Receiver) (w : World) (s : Stanza) (id : Str) :
    decrypted r w s id = (brings r w s id).filter fun m => m.columns.msgType ≠ undecryptable := by
  have hresent : (resent r w s).filter (fun m => m.columns.msgType ≠ undecryptable) =
      resent r w s := by
    refine List.filter_eq_self.mpr fun m hm => decide_eq_true ?_
    obtain ⟨wmi, -, hwmi⟩ := List.mem_filterMap.mp hm
    exact resentMessage_readable hwmi
  have hown : [own r w s].filter (fun m => m.columns.msgType ≠ undecryptable) =
      if s.plain.isSome then [own r w s] else [] := by
    split
    · next hplain =>
        exact List.filter_cons_of_pos (decide_eq_true ((said_readable r w s).mpr hplain))
    · next hplain =>
        exact List.filter_cons_of_neg fun h =>
          hplain ((said_readable r w s).mp (of_decide_eq_true h))
  unfold decrypted brings
  rw [List.filter_comm]
  refine congrArg _ ?_
  rw [List.filter_append, hresent, hown]

end Step

/-! ## 6. The row, the tasks and the events of an id -/

/-- A row after a message of its key, or the row that it adds. -/
def NewMessage.settled (m : NewMessage) (o : Option Row) : Row := (o.map m.heal).getD m.row

theorem insert_one {o : Option Row} {m : NewMessage}
    (h : ∀ row ∈ o, row.HasKey m.chatJid m.messageId) :
    messageInsert o.toList m = [m.settled o] := by
  cases o with
  | none => rfl
  | some row =>
      have hany : ((some row).toList.any fun row => row.HasKey m.chatJid m.messageId) = true :=
        List.any_eq_true.mpr ⟨row, List.mem_singleton_self row, decide_eq_true (h row rfl)⟩
      rw [messageInsert, if_pos hany]
      rfl

theorem settled_key {o : Option Row} {m : NewMessage} {chat : Str}
    (h : ∀ row ∈ o, row.chatJid = chat) (hm : m.chatJid = chat) : (m.settled o).chatJid = chat := by
  cases o with
  | none => exact hm
  | some row => exact (heal_key m row).2.trans (h row rfl)

theorem settled_read {o : Option Row} {m : NewMessage}
    (h : ∀ row ∈ o, row.HasKey m.chatJid m.messageId) (hread : m.columns.msgType ≠ undecryptable)
    (hold : ∀ row ∈ o, row.msgType = undecryptable) : m.In (m.settled o) := by
  cases o with
  | none => exact ⟨rfl, rfl, rfl⟩
  | some row =>
      have hheal : m.settled (some row) = m.heal row := rfl
      rw [hheal, NewMessage.heal, if_pos ⟨h row rfl, hold row rfl, hread⟩]
      exact ⟨rfl, rfl, rfl⟩

/-- What cannot be read changes no row, and adds one that cannot. -/
theorem settled_unread {o : Option Row} {m : NewMessage} (h : m.columns.msgType = undecryptable) :
    (m.settled o).msgType = ((o.map (·.msgType)).getD undecryptable) := by
  cases o with
  | none => exact h
  | some row => exact congrArg Row.msgType (if_neg fun hheal => hheal.2.2 h)

def readRows (id : Str) (l : Live) : List Row :=
  (rowsOf id l.world.store.rows).filter fun row => row.msgType ≠ undecryptable

theorem readRows_congr {id : Str} {l l' : Live}
    (h : l'.world.store.rows = l.world.store.rows) : readRows id l' = readRows id l := by
  unfold readRows
  rw [h]

theorem readRows_one {id : Str} {l : Live} {row : Row}
    (hrow : rowsOf id l.world.store.rows = [row]) (hread : row.msgType ≠ undecryptable) :
    readRows id l = [row] := by
  unfold readRows
  rw [hrow]
  exact List.filter_cons_of_pos (decide_eq_true hread)

/-- There is at most one row of the id, in its chat; it was told if it can be read, and no task is
    about to announce it then; and the tasks have nothing else to say of it. -/
structure Kept (id chat : Str) (l : Live) : Prop where
  row : ∃ o : Option Row, rowsOf id l.world.store.rows = o.toList ∧ ∀ row ∈ o, row.chatJid = chat
  told : (contentEvents id l.world.events).length = (readRows id l).length
  waiting : ∀ e ∈ l.waiting, e.id = id → e.isPlaceholder = true
  sending : ∀ e ∈ l.sending, e.id = id → e.isPlaceholder = true ∧ readRows id l = []

theorem unheard_kept {id : Str} {l : Live} (h : Unheard id l) (chat : Str) : Kept id chat l := by
  have hrows : rowsOf id l.world.store.rows = [] :=
    List.filter_eq_nil_iff.mpr fun row hrow => by simpa using h.rows row hrow
  refine ⟨⟨none, hrows, fun row hrow => by cases hrow⟩, ?_,
    fun e he hid => (h.waiting e he hid).elim, fun e he hid => (h.sending e he hid).elim⟩
  unfold readRows
  rw [hrows, (told_other h.events).1]
  rfl

section Turn

variable {r : Receiver} {id chat : Str} {l : Live} {s : Stanza}

theorem inbound_world : (l.inbound r s).world = processInboundMessage r l.world s := by
  unfold Live.inbound
  simp only
  split <;> rfl

theorem inbound_waiting {e : Event} (he : e ∈ (l.inbound r s).waiting) :
    e ∈ l.waiting ∨ e.isPlaceholder = true := by
  unfold Live.inbound at he
  simp only at he
  split at he
  · next hu =>
      rcases List.mem_append.mp he with he | he
      · exact .inl he
      · split at he
        · rw [List.mem_singleton.mp he]
          exact .inr (isPlaceholder_body.trans (decide_eq_true hu))
        · cases he
  · exact .inl he

theorem inbound_sending : (l.inbound r s).sending = l.sending := by
  unfold Live.inbound
  simp only
  split <;> rfl

/-- A message brings nothing of the id and leaves its row, or it brings one thing for it. -/
theorem inbound_rows (h : Kept id chat l) (hs : Steady r id chat l s) :
    ∃ o : Option Row, rowsOf id l.world.store.rows = o.toList ∧ (∀ row ∈ o, row.chatJid = chat) ∧
      ((brings r l.world s id = [] ∧ rowsOf id (l.inbound r s).world.store.rows = o.toList) ∨
        ∃ m, brings r l.world s id = [m] ∧ m.chatJid = chat ∧
          (∀ row ∈ o, row.HasKey m.chatJid m.messageId) ∧
          rowsOf id (l.inbound r s).world.store.rows = [m.settled o]) := by
  obtain ⟨o, ho, hchat⟩ := h.row
  have hrows := process_rowsOf hs.filed hs.spared
  have hsingle := hs.single
  have hkeyed := hs.keyed
  have hid : ∀ m ∈ brings r l.world s id, m.messageId = id := fun m hm =>
    of_decide_eq_true (List.mem_filter.mp hm).2
  refine ⟨o, ho, hchat, ?_⟩
  rw [inbound_world, hrows, ho]
  rcases hb : brings r l.world s id with _ | ⟨m, _ | ⟨m', rest⟩⟩
  · exact .inl ⟨rfl, rfl⟩
  · rw [hb] at hkeyed hid
    have hm := List.mem_singleton_self m
    have hkey : ∀ row ∈ o, row.HasKey m.chatJid m.messageId := by
      intro row hrow
      have hmem : row ∈ rowsOf id l.world.store.rows := by
        rw [ho]
        exact Option.mem_toList.mpr hrow
      exact ⟨(hchat row hrow).trans (hkeyed m hm).symm,
        (mem_rowsOf.mp hmem).2.trans (hid m hm).symm⟩
    exact .inr ⟨m, rfl, hkeyed m hm, hkey, insert_one hkey⟩
  · rw [hb] at hsingle
    simp at hsingle

/-- **What was decrypted can be read after**, and so can what could before. -/
theorem inbound_read (h : Kept id chat l) (hs : Steady r id chat l s) :
    (readRows id (l.inbound r s)).length =
        (readRows id l).length + (decrypted r l.world s id).length ∧
      ∀ m ∈ decrypted r l.world s id,
        ∃ row, rowsOf id (l.inbound r s).world.store.rows = [row] ∧ m.In row := by
  have hfirst := hs.first
  obtain ⟨o, ho, -, ⟨hb, hrows⟩ | ⟨m, hb, -, hkey, hrows⟩⟩ := inbound_rows h hs
  · unfold readRows
    rw [decrypted_eq, hb, hrows, ho]
    exact ⟨rfl, fun m hm => by cases hm⟩
  · unfold readRows
    rw [decrypted_eq, hb] at hfirst ⊢
    rw [hrows, ho]
    by_cases hread : m.columns.msgType = undecryptable
    · have hnone : [m].filter (fun m => m.columns.msgType ≠ undecryptable) = [] :=
        List.filter_cons_of_neg fun hm => absurd hread (of_decide_eq_true hm)
      rw [hnone]
      refine ⟨?_, fun m hm => by cases hm⟩
      have hkind := settled_unread (o := o) hread
      cases o with
      | none => simp [hkind]
      | some row =>
          simp only [List.filter_cons, List.filter_nil, hkind, Option.map_some, Option.getD_some,
            Option.toList_some]
          split <;> rfl
    · have hone : [m].filter (fun m => m.columns.msgType ≠ undecryptable) = [m] :=
        List.filter_cons_of_pos (decide_eq_true hread)
      rw [hone] at hfirst ⊢
      have hold : ∀ row ∈ o, row.msgType = undecryptable := by
        intro row hrow
        have hmem : row ∈ rowsOf id l.world.store.rows := by
          rw [ho]
          exact Option.mem_toList.mpr hrow
        exact hfirst m (List.mem_singleton_self m) row (mem_rowsOf.mp hmem).1 (mem_rowsOf.mp hmem).2
      have hin := settled_read hkey hread hold
      have hnow : (m.settled o).msgType ≠ undecryptable := fun hu => hread (hin.1.symm.trans hu)
      have hnew : [m.settled o].filter (fun row => row.msgType ≠ undecryptable) = [m.settled o] :=
        List.filter_cons_of_pos (decide_eq_true hnow)
      have hnone : o.toList.filter (fun row => row.msgType ≠ undecryptable) = [] :=
        List.filter_eq_nil_iff.mpr fun row hrow hnot =>
          absurd (hold row (Option.mem_toList.mp hrow)) (of_decide_eq_true hnot)
      rw [hnew, hnone]
      exact ⟨rfl, fun m' hm' => ⟨_, rfl, List.mem_singleton.mp hm' ▸ hin⟩⟩

/-- A row that a task finds is one of the rows of the id. -/
theorem messageTypeGet_some {rows : List Row} {chat id : Str} {kind : String}
    (h : messageTypeGet rows chat id = some kind) : ∃ row ∈ rowsOf id rows, row.msgType = kind := by
  obtain ⟨row, hfind, hkind⟩ := Option.map_eq_some_iff.mp h
  have hkey := List.find?_some hfind
  exact ⟨row, mem_rowsOf.mpr ⟨List.mem_of_find?_eq_some hfind, (of_decide_eq_true hkey).2⟩, hkind⟩

/-- The one row of the id cannot be read where a task is going to announce it. -/
theorem unread_of_messageTypeGet (h : Kept id chat l) {chat' : Str}
    (htype : messageTypeGet l.world.store.rows chat' id = some undecryptable) :
    readRows id l = [] := by
  obtain ⟨o, ho, -⟩ := h.row
  obtain ⟨row, hrow, hkind⟩ := messageTypeGet_some htype
  unfold readRows
  rw [ho] at hrow ⊢
  cases o with
  | none => rfl
  | some found =>
      cases List.mem_singleton.mp hrow
      exact List.filter_cons_of_neg fun hread => of_decide_eq_true hread hkind

/-- A task that wakes up sends nothing yet. -/
theorem wake_world (l : Live) (i : Nat) : (l.wake i).world = l.world := by
  unfold Live.wake
  split
  · rfl
  · simp only
    split <;> rfl

theorem wake_waiting {i : Nat} {e : Event} (he : e ∈ (l.wake i).waiting) : e ∈ l.waiting := by
  unfold Live.wake at he
  split at he
  · exact he
  · simp only at he
    split at he <;> exact List.mem_of_mem_eraseIdx he

/-- What it is going to send it had to send before, and it found no readable row. -/
theorem wake_sending {i : Nat} {e : Event} (he : e ∈ (l.wake i).sending) :
    e ∈ l.sending ∨
      e ∈ l.waiting ∧ messageTypeGet l.world.store.rows e.chat e.id = some undecryptable := by
  unfold Live.wake at he
  split at he
  · exact .inl he
  · next event hevent =>
      simp only at he
      split at he
      · next htype =>
          rcases List.mem_append.mp he with he | he
          · exact .inl he
          · rw [List.mem_singleton.mp he]
            exact .inr ⟨List.mem_of_getElem? hevent, htype⟩
      · exact .inl he

theorem send_waiting (l : Live) (i : Nat) : (l.send i).waiting = l.waiting := by
  unfold Live.send
  split <;> rfl

theorem send_sending {i : Nat} {e : Event} (he : e ∈ (l.send i).sending) : e ∈ l.sending := by
  unfold Live.send at he
  split at he
  · exact he
  · exact List.mem_of_mem_eraseIdx he

/-- A task that sends changes no row. -/
theorem send_world (l : Live) (i : Nat) :
    (l.send i).world = l.world ∨
      ∃ e ∈ l.sending, (l.send i).world = { l.world with events := l.world.events ++ [e] } := by
  unfold Live.send
  split
  · exact .inl rfl
  · next event hevent => exact .inr ⟨event, List.mem_of_getElem? hevent, rfl⟩

/-- What a task sends is no content, and nothing of what can be read. -/
theorem send_told (h : Kept id chat l) (i : Nat) :
    (l.send i).world.store = l.world.store ∧
      contentEvents id (l.send i).world.events = contentEvents id l.world.events ∧
      (readRows id l ≠ [] →
        placeholderEvents id (l.send i).world.events = placeholderEvents id l.world.events) := by
  rcases send_world l i with hsame | ⟨e, he, hsent⟩
  · rw [hsame]
    exact ⟨rfl, rfl, fun _ => rfl⟩
  · have hquiet : contentEvents id [e] = [] := by
      refine List.filter_eq_nil_iff.mpr fun e' he' hcontent => ?_
      rw [List.mem_singleton.mp he', Bool.and_eq_true] at hcontent
      rw [(h.sending e he (of_decide_eq_true hcontent.1)).1] at hcontent
      exact Bool.false_ne_true hcontent.2
    rw [hsent, contentEvents_append, placeholderEvents_append, hquiet, List.append_nil]
    refine ⟨rfl, rfl, fun hread => ?_⟩
    have hother : ∀ e' ∈ [e], e'.id ≠ id := fun e' he' hid => by
      rw [List.mem_singleton.mp he'] at hid
      exact hread (h.sending e he hid).2
    rw [(told_other hother).2, List.append_nil]

/-- A row can be read after a message where one could before, or where the message was decrypted:
    a task that is about to announce it waits in neither case. -/
theorem inbound_quiet (h : Kept id chat l) (hs : Steady r id chat l s) {e : Event}
    (he : e ∈ l.sending) (hid : e.id = id) : readRows id (l.inbound r s) = [] := by
  have hnone : decrypted r l.world s id = [] :=
    List.eq_nil_iff_forall_not_mem.mpr fun m hm => hs.quiet m hm e he hid
  have hread := (inbound_read h hs).1
  rw [hnone, (h.sending e he hid).2] at hread
  exact List.eq_nil_of_length_eq_zero hread

theorem step_kept (h : Kept id chat l) {t : Turn} (ht : t.Steady r id chat l) :
    Kept id chat (step r l t) := by
  cases t with
  | inbound s =>
      have hs : Steady r id chat l s := ht
      refine ⟨?_, ?_, fun e he hid => ?_, fun e he hid => ?_⟩
      · obtain ⟨o, -, hchat, ⟨-, hrows⟩ | ⟨m, -, hm, -, hrows⟩⟩ := inbound_rows h hs
        · exact ⟨o, hrows, hchat⟩
        · refine ⟨some (m.settled o), hrows, fun row hrow => ?_⟩
          cases hrow
          exact settled_key hchat hm
      · have htold := (process_told hs.filed).1
        rw [← inbound_world] at htold
        exact htold.trans ((congrArg (· + _) h.told).trans (inbound_read h hs).1.symm)
      · exact (inbound_waiting he).elim (fun he => h.waiting e he hid) fun hp => hp
      · have hsending : e ∈ l.sending := inbound_sending (r := r) (s := s) ▸ he
        exact ⟨(h.sending e hsending hid).1, inbound_quiet h hs hsending hid⟩
  | learn now pair => exact ⟨h.row, h.told, h.waiting, h.sending⟩
  | wake i =>
      have hworld : (step r l (.wake i)).world = l.world := wake_world l i
      have hread : readRows id (step r l (.wake i)) = readRows id l :=
        readRows_congr (congrArg (fun w => w.store.rows) hworld)
      refine ⟨by rw [hworld]; exact h.row, by rw [hworld, hread]; exact h.told,
        fun e he => h.waiting e (wake_waiting he), fun e he hid => ?_⟩
      rw [hread]
      rcases wake_sending he with he | ⟨he, htype⟩
      · exact h.sending e he hid
      · exact ⟨h.waiting e he hid, unread_of_messageTypeGet h (hid ▸ htype)⟩
  | send i =>
      obtain ⟨hstore, htold, -⟩ := send_told h i
      have hrows : (step r l (.send i)).world.store.rows = l.world.store.rows :=
        congrArg Store.rows hstore
      have hread : readRows id (step r l (.send i)) = readRows id l := readRows_congr hrows
      refine ⟨by rw [hrows]; exact h.row, ?_, fun e he => h.waiting e (send_waiting l i ▸ he),
        fun e he hid => ?_⟩
      · exact (congrArg List.length htold).trans (h.told.trans (congrArg List.length hread.symm))
      · rw [hread]
        exact h.sending e (send_sending he) hid
  | clearMessageRetries => exact ⟨h.row, h.told, h.waiting, h.sending⟩

/-- **What can be read stays as it is**, and nothing more is announced of it. -/
theorem step_read (h : Kept id chat l) {t : Turn} (ht : t.Steady r id chat l) {row : Row}
    (hrow : rowsOf id l.world.store.rows = [row]) (hread : row.msgType ≠ undecryptable) :
    rowsOf id (step r l t).world.store.rows = [row] ∧
      placeholderEvents id (step r l t).world.events = placeholderEvents id l.world.events := by
  cases t with
  | inbound s =>
      have hs : Steady r id chat l s := ht
      refine ⟨?_, ?_⟩
      · obtain ⟨o, ho, -, ⟨-, hrows⟩ | ⟨m, -, -, -, hrows⟩⟩ := inbound_rows h hs
        · exact hrows.trans (ho.symm.trans hrow)
        · have hsome : o = some row := by
            rw [hrow] at ho
            cases o <;> cases ho
            rfl
          rw [hsome] at hrows
          exact hrows.trans (congrArg (fun row => [row]) (if_neg fun hheal => hread hheal.2.1))
      · have htold := (process_told hs.filed).2
        rwa [← inbound_world] at htold
  | learn now pair => exact ⟨hrow, rfl⟩
  | wake i =>
      have hworld : (step r l (.wake i)).world = l.world := wake_world l i
      rw [hworld]
      exact ⟨hrow, rfl⟩
  | send i =>
      obtain ⟨hstore, -, hquiet⟩ := send_told h i
      refine ⟨(congrArg (fun store => rowsOf id store.rows) hstore).trans hrow, hquiet ?_⟩
      rw [readRows_one hrow hread]
      exact List.cons_ne_nil _ _
  | clearMessageRetries => exact ⟨hrow, rfl⟩

end Turn

/-! ## 7. Runs -/

section Runs

variable {r : Receiver} {id chat : Str} {l : Live}

theorem allSteady_append {pre post : List Turn} (h : AllSteady r id chat l (pre ++ post)) :
    AllSteady r id chat l pre ∧ AllSteady r id chat (live r l pre) post := by
  induction pre generalizing l with
  | nil => exact ⟨trivial, h⟩
  | cons t pre ih =>
      obtain ⟨hpre, hpost⟩ := ih h.2
      exact ⟨⟨h.1, hpre⟩, hpost⟩

theorem live_kept (h : Kept id chat l) {turns : List Turn} (ht : AllSteady r id chat l turns) :
    Kept id chat (live r l turns) := by
  induction turns generalizing l with
  | nil => exact h
  | cons t turns ih => exact ih (step_kept h ht.1) ht.2

theorem live_read (h : Kept id chat l) {turns : List Turn} (ht : AllSteady r id chat l turns)
    {row : Row} (hrow : rowsOf id l.world.store.rows = [row])
    (hread : row.msgType ≠ undecryptable) :
    rowsOf id (live r l turns).world.store.rows = [row] ∧
      placeholderEvents id (live r l turns).world.events =
        placeholderEvents id l.world.events := by
  induction turns generalizing l with
  | nil => exact ⟨hrow, rfl⟩
  | cons t turns ih =>
      obtain ⟨hstep, hquiet⟩ := step_read h ht.1 hrow hread
      obtain ⟨hend, hsilent⟩ := ih (step_kept h ht.1) ht.2 hstep
      exact ⟨hend, hsilent.trans hquiet⟩

end Runs

/-- **A message that is brought to one chat, is filed there and is read once is healed**: in every
    run, whatever else arrives, is learned and wakes up in it. -/
theorem healed_once (r : Receiver) (id chat : Str) (l : Live) (turns : List Turn)
    (hunheard : Unheard id l) (hsteady : AllSteady r id chat l turns) : Heals r id l turns := by
  rintro pre s post rfl m hm
  obtain ⟨hpre, hinbound, hpost⟩ := allSteady_append hsteady
  have hkept := live_kept (unheard_kept hunheard chat) hpre
  have hs : Steady r id chat (live r l pre) s := hinbound
  obtain ⟨row, hrow, hin⟩ := (inbound_read hkept hs).2 m hm
  have hread : row.msgType ≠ undecryptable := by
    rw [decrypted_eq] at hm
    exact fun hu => of_decide_eq_true (List.mem_filter.mp hm).2 (hin.1.symm.trans hu)
  have hnext := step_kept hkept hinbound
  obtain ⟨hend, hsilent⟩ := live_read hnext hpost hrow hread
  have hrun : live r l (pre ++ .inbound s :: post) =
      live r (step r (live r l pre) (.inbound s)) post := by
    unfold live
    rw [List.foldl_append]
    rfl
  rw [hrun]
  have hmem : row ∈ rowsOf id (live r (step r (live r l pre) (.inbound s)) post).world.store.rows :=
    hend ▸ List.mem_singleton_self row
  refine ⟨⟨row, (mem_rowsOf.mp hmem).1, (mem_rowsOf.mp hmem).2, hin⟩, ?_, ?_, ?_⟩
  · intro other hother hid
    have hsame := mem_rowsOf.mpr ⟨hother, hid⟩
    rw [hend] at hsame
    exact List.mem_singleton.mp hsame ▸ hread
  · have htold := (process_told hs.filed).2
    rw [← inbound_world] at htold
    exact hsilent.trans htold
  · rw [(live_kept hnext hpost).told, readRows_one hend hread]
    rfl

theorem healed_own {r : Receiver} {l : Live} {turns post : List Turn} (pre : List Turn) (s : Stanza)
    (h : Heals r s.id l turns) (hturns : turns = pre ++ .inbound s :: post)
    (hplain : s.plain.isSome = true) :
    Healed s.id (own r (live r l pre).world s) (live r l pre) (live r l turns) := by
  refine h pre s post hturns _
    (List.mem_filter.mpr ⟨List.mem_append_right _ ?_, decide_eq_true rfl⟩)
  rw [if_pos hplain]
  exact List.mem_singleton_self _

namespace Sample

/-- A session that waits for nothing, with these rows. -/
def listening (rows : List Row) : Live := ⟨world rows, fun _ => 0, [], []⟩

/-- A contact writes from the LID of its account, with the bytes of an edit or of a text in it. -/
def fromLid (plain : Option Bytes) : Stanza :=
  { stanza "FIRST" stranger [] with source := "271001122".toList ++ lidServer, plain := plain }

def reading : Receiver :=
  receiver [(textBytes "hi", textMessage "hi"), (editBytes "one", edit "one")] []

def unreadable : Turn := .inbound (fromLid none)

def readable : Turn := .inbound (fromLid (some (textBytes "hi")))

/-- The number of the account, and that of another. -/
def learned (lid : String) : Turn := .learn 1700000102 (lid.toList ++ lidServer, jidOf stranger)

end Sample

/-- **A message is not healed** where it is delivered twice, where the number of its chat is learned
    in between, where it is an edit, and where a task has looked at its row and sends after. -/
theorem healing_fails :
    (Unheard "FIRST".toList (Sample.listening []) ∧
        ¬Heals Sample.reading "FIRST".toList (Sample.listening [])
          [Sample.readable, Sample.readable]) ∧
      (¬Heals Sample.reading "FIRST".toList (Sample.listening [])
          [Sample.unreadable, Sample.learned "271001122", Sample.readable, .wake 0, .send 0] ∧
        (placeholderEvents "FIRST".toList (live Sample.reading (Sample.listening [])
          [Sample.unreadable, Sample.learned "271001122", Sample.readable, .wake 0,
            .send 0]).world.events).length = 1) ∧
      (Unheard "FIRST".toList (Sample.listening [Sample.hello]) ∧
        ¬Heals Sample.reading "FIRST".toList (Sample.listening [Sample.hello])
          [Sample.unreadable, .inbound (Sample.fromLid (some (Sample.editBytes "one")))]) ∧
      ¬Heals Sample.reading "FIRST".toList (Sample.listening [])
        [Sample.unreadable, .wake 0, Sample.readable, .send 0] := by
  have hsilent : Unheard "FIRST".toList (Sample.listening []) :=
    ⟨fun row hrow => (nomatch hrow), fun e he => (nomatch he), fun e he => (nomatch he),
      fun e he => (nomatch he)⟩
  refine ⟨⟨hsilent, fun h => ?_⟩, ⟨fun h => ?_, by decide +kernel⟩,
    ⟨⟨fun row hrow => ?_, fun e he => (nomatch he), fun e he => (nomatch he),
      fun e he => (nomatch he)⟩, fun h => ?_⟩, fun h => ?_⟩
  · have hhealed := healed_own [] (Sample.fromLid (some (Sample.textBytes "hi"))) h rfl rfl
    exact absurd hhealed.once (by decide +kernel)
  · have hhealed := healed_own [Sample.unreadable, Sample.learned "271001122"]
      (Sample.fromLid (some (Sample.textBytes "hi"))) h rfl rfl
    exact absurd hhealed.healed (by decide +kernel)
  · rw [List.mem_singleton.mp hrow]
    decide
  · have hhealed := healed_own [Sample.unreadable]
      (Sample.fromLid (some (Sample.editBytes "one"))) h rfl rfl
    exact absurd hhealed.healed (by decide +kernel)
  · have hhealed := healed_own [Sample.unreadable, .wake 0]
      (Sample.fromLid (some (Sample.textBytes "hi"))) h rfl rfl
    exact absurd (congrArg List.length hhealed.silent) (by decide +kernel)

/-- A failure that is announced; after a reconnect another one, a mapping of someone else, the
    message, and the second task, which has nothing to announce. -/
theorem retried_once :
    Heals Sample.reading "FIRST".toList (Sample.listening [])
      [Sample.unreadable, .wake 0, .send 0, .clearMessageRetries, Sample.unreadable,
        Sample.learned "5544", Sample.readable, .wake 0, .send 0] := by
  refine healed_once Sample.reading "FIRST".toList ("271001122".toList ++ lidServer)
    (Sample.listening []) _ ⟨fun row hrow => ?_, fun e he => ?_, fun e he => ?_, fun e he => ?_⟩
    (by decide +kernel)
  · cases hrow
  · cases he
  · cases he
  · cases he

end Ruwa.Session.Inbound
