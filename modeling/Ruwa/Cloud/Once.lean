/-
  File:      Ruwa/Cloud/Once.lean
  Subject:   EACH CLOUD MESSAGE ONCE: inbound messages, echoes and our own sends (`api.rs`,
             `cloud_send_record`) over the same rows.

  A handler looks whether a message is known, and inserts it and announces it later; another handler
  may come between. Graph may have accepted a send whose answer is still on its way to us.

  * `Ledger`, `Turn` -- one message: its rows, its announcements, and who is about to write it;
  * `step_turn` -- a step of the handlers is a turn of the ledger of each message;
  * **`cloud_once`** -- what a run that overtakes nobody leaves of a message.
-/
import Ruwa.Cloud.Chat
import Ruwa.Cloud.Status
import Mathlib.Algebra.GroupWithZero.Nat

namespace Ruwa.Cloud

open Ruwa.Session Ruwa.Library Ruwa.Library.Text

/-! ## 1. The ledger of one message -/

/-- What concerns one id: the chats of its rows, how many Message events it has or will have, the
    chats that handlers are about to insert it under, as a message or an echo, the chats of sends
    that Graph accepted and that are not recorded, and what their callers were answered. -/
structure Ledger where
  chats : List String
  messages : Nat
  found : List String
  echoes : List String
  accepted : List String
  own : Bool
  answers : List Bool

inductive Move
  | quiet
  | find (chat : String)
  | insert (chat : String)
  | findEcho (chat : String)
  | insertEcho (chat : String)
  | accept (chat : String)
  | record (chat : String)
  deriving DecidableEq

inductive Turn : Ledger → Move → Ledger → Prop
  | quiet (l : Ledger) : Turn l .quiet l
  | known (l : Ledger) {c : String} (hc : c ∈ l.chats) : Turn l (.find c) l
  | find (l : Ledger) {c : String} (hc : c ∉ l.chats) :
      Turn l (.find c) { l with found := l.found ++ [c] }
  | insertAgain (l : Ledger) {c : String} {a b : List String} (hfound : l.found = a ++ c :: b)
      (hc : c ∈ l.chats) :
      Turn l (.insert c) { l with found := a ++ b, messages := l.messages + 1 }
  | insert (l : Ledger) {c : String} {a b : List String} (hfound : l.found = a ++ c :: b)
      (hc : c ∉ l.chats) :
      Turn l (.insert c)
        { l with found := a ++ b, chats := l.chats ++ [c], messages := l.messages + 1 }
  | knownEcho (l : Ledger) {c : String} (hc : c ∈ l.chats) : Turn l (.findEcho c) l
  | findEcho (l : Ledger) {c : String} (hc : c ∉ l.chats) :
      Turn l (.findEcho c) { l with echoes := l.echoes ++ [c] }
  | refuseEcho (l : Ledger) {c : String} {a b : List String} (hechoes : l.echoes = a ++ c :: b)
      (hc : c ∈ l.chats) : Turn l (.insertEcho c) { l with echoes := a ++ b }
  | insertEcho (l : Ledger) {c : String} {a b : List String} (hechoes : l.echoes = a ++ c :: b)
      (hc : c ∉ l.chats) :
      Turn l (.insertEcho c)
        { l with echoes := a ++ b, chats := l.chats ++ [c], messages := l.messages + 1 }
  | accept (l : Ledger) {c : String} :
      Turn l (.accept c) { l with accepted := l.accepted ++ [c], own := true }
  | refuseRecord (l : Ledger) {c : String} {a b : List String} (haccepted : l.accepted = a ++ c :: b)
      (hc : c ∈ l.chats) :
      Turn l (.record c) { l with accepted := a ++ b, answers := l.answers ++ [false] }
  | record (l : Ledger) {c : String} {a b : List String} (haccepted : l.accepted = a ++ c :: b)
      (hc : c ∉ l.chats) :
      Turn l (.record c)
        { l with accepted := a ++ b, chats := l.chats ++ [c], answers := l.answers ++ [true] }

/-- The message is here, or somebody is about to write it. -/
def Ledger.Alive (l : Ledger) : Prop :=
  l.chats ≠ [] ∨ l.found ≠ [] ∨ l.echoes ≠ [] ∨ l.accepted ≠ []

theorem alive_turn {l l' : Ledger} {mv : Move} (h : Turn l mv l') (halive : l.Alive ∨ mv ≠ .quiet) :
    l'.Alive := by
  unfold Ledger.Alive at halive ⊢
  cases h with
  | quiet => exact halive.resolve_right fun hne => hne rfl
  | known hc => exact .inl (List.ne_nil_of_mem hc)
  | find => exact .inr (.inl (by simp))
  | insertAgain _ hc => exact .inl (List.ne_nil_of_mem hc)
  | insert => exact .inl (by simp)
  | knownEcho hc => exact .inl (List.ne_nil_of_mem hc)
  | findEcho => exact .inr (.inr (.inl (by simp)))
  | refuseEcho _ hc => exact .inl (List.ne_nil_of_mem hc)
  | insertEcho => exact .inl (by simp)
  | accept => exact .inr (.inr (.inr (by simp)))
  | refuseRecord _ hc => exact .inl (List.ne_nil_of_mem hc)
  | record => exact .inl (by simp)

/-! ## 2. A message that came to us -/

/-- It comes under one chat, and a handler that goes on with it finds it still unknown. -/
def AsMessage (chat : String) (l : Ledger) : Move → Prop
  | .quiet => True
  | .find c => c = chat
  | .insert c => c ∉ l.chats
  | _ => False

instance (chat : String) (l : Ledger) : (mv : Move) → Decidable (AsMessage chat l mv)
  | .quiet => inferInstanceAs (Decidable True)
  | .find _ => inferInstanceAs (Decidable (_ = _))
  | .insert _ => inferInstanceAs (Decidable (_ ∉ _))
  | .findEcho _ | .insertEcho _ | .accept _ | .record _ => inferInstanceAs (Decidable False)

/-- As many announcements as rows, and one row at most. -/
def Single (chat : String) (l : Ledger) : Prop :=
  l.chats = [] ∧ l.messages = 0 ∨ l.chats = [chat] ∧ l.messages = 1

structure InboundOnce (chat : String) (l : Ledger) : Prop where
  found : ∀ c ∈ l.found, c = chat
  single : Single chat l

theorem inboundOnce_turn {chat : String} {l l' : Ledger} {mv : Move} (h : InboundOnce chat l)
    (hcond : AsMessage chat l mv) (hturn : Turn l mv l') : InboundOnce chat l' := by
  cases hturn with
  | quiet => exact h
  | known => exact h
  | find =>
      refine ⟨fun c hc => ?_, h.single⟩
      rcases List.mem_append.mp hc with hold | hnew
      · exact h.found c hold
      · exact (List.mem_singleton.mp hnew).trans hcond
  | insertAgain _ hc => exact absurd hc hcond
  | @insert c a b hfound hc =>
      have hchat : c = chat := h.found c (by rw [hfound]; simp)
      refine ⟨fun c' hc' => h.found c' ?_, ?_⟩
      · rw [hfound]
        rcases List.mem_append.mp hc' with hold | hold
        · exact List.mem_append_left _ hold
        · exact List.mem_append_right _ (List.mem_cons_of_mem _ hold)
      · rcases h.single with ⟨hnone, hzero⟩ | ⟨hone, -⟩
        · exact .inr ⟨by simp [hnone, hchat], by simp [hzero]⟩
        · exact absurd (by simp [hone, hchat]) hc
  | knownEcho => exact hcond.elim
  | findEcho => exact hcond.elim
  | refuseEcho => exact hcond.elim
  | insertEcho => exact hcond.elim
  | accept => exact hcond.elim
  | refuseRecord => exact hcond.elim
  | record => exact hcond.elim

/-! ## 3. A message that went out -/

/-- It goes out under one chat; Graph's id for a send of ours is new; and an echo is not inserted
    while a send of ours waits to be recorded. -/
def AsSend (chat : String) (l : Ledger) : Move → Prop
  | .quiet => True
  | .findEcho c => c = chat
  | .insertEcho _ => l.accepted = []
  | .accept c => c = chat ∧ l.chats = [] ∧ l.echoes = [] ∧ l.accepted = []
  | .record _ => True
  | _ => False

instance (chat : String) (l : Ledger) : (mv : Move) → Decidable (AsSend chat l mv)
  | .quiet | .record _ => inferInstanceAs (Decidable True)
  | .findEcho _ => inferInstanceAs (Decidable (_ = _))
  | .insertEcho _ => inferInstanceAs (Decidable (_ = _))
  | .accept _ => inferInstanceAs (Decidable (_ ∧ _ ∧ _ ∧ _))
  | .find _ | .insert _ => inferInstanceAs (Decidable False)

structure OutboundOnce (chat : String) (l : Ledger) : Prop where
  echoes : ∀ c ∈ l.echoes, c = chat
  foreign : l.own = false → l.accepted = [] ∧ l.answers = [] ∧ Single chat l
  ours : l.own = true → l.messages = 0 ∧ (∀ ok ∈ l.answers, ok = true) ∧
    (l.chats = [chat] ∧ l.accepted = [] ∨ l.chats = [] ∧ l.accepted = [chat])

theorem outboundOnce_turn {chat : String} {l l' : Ledger} {mv : Move} (h : OutboundOnce chat l)
    (hcond : AsSend chat l mv) (hturn : Turn l mv l') : OutboundOnce chat l' := by
  have hshorter : ∀ {c : String} {a b : List String}, l.echoes = a ++ c :: b →
      ∀ c' ∈ a ++ b, c' = chat := by
    intro c a b hechoes c' hc'
    refine h.echoes c' ?_
    rw [hechoes]
    rcases List.mem_append.mp hc' with hold | hold
    · exact List.mem_append_left _ hold
    · exact List.mem_append_right _ (List.mem_cons_of_mem _ hold)
  cases hturn with
  | quiet => exact h
  | known => exact hcond.elim
  | find => exact hcond.elim
  | insertAgain => exact hcond.elim
  | insert => exact hcond.elim
  | knownEcho => exact h
  | findEcho =>
      refine ⟨fun c hc => ?_, h.foreign, h.ours⟩
      rcases List.mem_append.mp hc with hold | hnew
      · exact h.echoes c hold
      · exact (List.mem_singleton.mp hnew).trans hcond
  | refuseEcho hechoes => exact ⟨hshorter hechoes, h.foreign, h.ours⟩
  | @insertEcho c a b hechoes hc =>
      have hchat : c = chat := h.echoes c (by rw [hechoes]; simp)
      refine ⟨hshorter hechoes, fun hown => ?_, fun hown => ?_⟩
      · obtain ⟨haccepted, hanswers, hsingle⟩ := h.foreign hown
        refine ⟨haccepted, hanswers, ?_⟩
        rcases hsingle with ⟨hnone, hzero⟩ | ⟨hone, -⟩
        · exact .inr ⟨by simp [hnone, hchat], by simp [hzero]⟩
        · exact absurd (by simp [hone, hchat]) hc
      · -- a send of ours that is not waiting has its row
        obtain ⟨-, -, ⟨hone, -⟩ | ⟨-, hwaits⟩⟩ := h.ours hown
        · exact absurd (by simp [hone, hchat]) hc
        · have hnone : l.accepted = [] := hcond
          rw [hnone] at hwaits
          cases hwaits
  | accept =>
      obtain ⟨rfl, hchats, hechoes, haccepted⟩ := hcond
      refine ⟨h.echoes, fun hown => (nomatch hown), fun _ => ?_⟩
      cases hown : l.own with
      | true =>
          obtain ⟨-, -, ⟨hone, -⟩ | ⟨-, hwaits⟩⟩ := h.ours hown
          · rw [hchats] at hone
            cases hone
          · rw [haccepted] at hwaits
            cases hwaits
      | false =>
          obtain ⟨-, hanswers, ⟨-, hzero⟩ | ⟨hone, -⟩⟩ := h.foreign hown
          · exact ⟨hzero, by simp [hanswers], .inr ⟨hchats, by simp [haccepted]⟩⟩
          · rw [hchats] at hone
            cases hone
  | @refuseRecord c a b haccepted hc =>
      cases hown : l.own with
      | false =>
          rw [(h.foreign hown).1] at haccepted
          simp at haccepted
      | true =>
          obtain ⟨-, -, ⟨-, hnone⟩ | ⟨hnone, -⟩⟩ := h.ours hown
          · rw [hnone] at haccepted
            simp at haccepted
          · rw [hnone] at hc
            cases hc
  | @record c a b haccepted hc =>
      cases hown : l.own with
      | false =>
          rw [(h.foreign hown).1] at haccepted
          simp at haccepted
      | true =>
          obtain ⟨hzero, hanswers, ⟨-, hnone⟩ | ⟨hnone, hwaits⟩⟩ := h.ours hown
          · rw [hnone] at haccepted
            simp at haccepted
          · rw [hwaits] at haccepted
            obtain ⟨rfl, hcons⟩ | ⟨_, rfl, hcons⟩ := List.cons_eq_append_iff.mp haccepted
            · cases hcons
              refine ⟨h.echoes, fun hfalse => (nomatch hfalse), fun _ => ?_⟩
              refine ⟨hzero, ?_, .inl ⟨by simp [hnone], rfl⟩⟩
              intro ok hok
              rcases List.mem_append.mp hok with hold | hnew
              · exact hanswers ok hold
              · exact List.mem_singleton.mp hnew
            · simp at hcons

/-! ## 4. Handlers and sends -/

/-- The row of an inbound message. -/
def InboundMessage.newMessage (m : InboundMessage) : NewMessage :=
  ⟨inboundChat m.sender, m.wamid, inboundChat m.sender, false, m.timestamp, m.content.msgType,
    m.content.bodyText, m.content.payloadJson, none⟩

/-- A send that Graph accepted. -/
structure CloudSend where
  chatJid : String
  wamid : String
  content : CloudKindPayload
  timestamp : Int

structure Traffic where
  world : World
  found : List InboundMessage
  accepted : List CloudSend
  sent : List String
  answers : List (String × Bool)

inductive Event
  | message (m : InboundMessage)
  | insertMessage (i : Nat)
  | echo (e : OutboundEcho)
  | status (u : StatusUpdate)
  | go (i : Nat)
  | accept (recipient : List Char) (waId : Option (List Char)) (wamid : String)
      (content : CloudKindPayload) (timestamp : Int)
  | record (i : Nat)

def Traffic.through (t : Traffic) (p : Part) : Option Traffic :=
  (t.world.step p).map fun w => { t with world := w }

def Traffic.step (t : Traffic) : Event → Option Traffic
  | .message m =>
      if messageExists t.world.session.rows (inboundChat m.sender) m.wamid then some t
      else some { t with found := t.found ++ [m] }
  | .insertMessage i =>
      (t.found[i]?).map fun m =>
        match messageInsert t.world.session.rows m.newMessage true with
        | .error _ => { t with found := t.found.eraseIdx i }
        | .ok rows =>
            { t with
              found := t.found.eraseIdx i
              world := (t.world.withRows rows).defer
                (.emit [.message m.wamid (inboundChat m.sender) (inboundChat m.sender)]) }
  | .echo e => t.through (.echo e)
  | .status u => t.through (.status u)
  | .go i => t.through (.go i)
  | .accept recipient waId wamid content timestamp =>
      match checkRecipient recipient with
      | .error _ => none
      | .ok _ =>
          some { t with
            accepted := t.accepted ++ [⟨sendChat recipient waId, wamid, content, timestamp⟩]
            sent := t.sent ++ [wamid] }
  | .record i =>
      (t.accepted[i]?).map fun s =>
        match messageInsert t.world.session.rows (outboundMessage s.chatJid s.wamid
            (t.world.session.jid.getD "self") s.content s.timestamp) false with
        | .error _ =>
            { t with accepted := t.accepted.eraseIdx i, answers := t.answers ++ [(s.wamid, false)] }
        | .ok rows =>
            { t with
              accepted := t.accepted.eraseIdx i
              answers := t.answers ++ [(s.wamid, true)]
              world := (t.world.withRows rows).defer (.emit [.messageSent s.wamid s.chatJid]) }

/-- An inbound message from its check to its event, with nothing between, is what
    `cloud_ingest_message` does. -/
theorem cloudIngestMessage_run (t : Traffic) (m : InboundMessage) :
    ∃ events idle, runFrom Traffic.step t events =
      some { t with world := ⟨cloudIngestMessage t.world.session m,
        t.world.pending ++ List.replicate idle (.emit [])⟩ } := by
  have herase : (t.found ++ [m]).eraseIdx t.found.length = t.found := by
    rw [List.eraseIdx_append_of_length_le (Nat.le_refl _), Nat.sub_self]
    exact List.append_nil _
  unfold cloudIngestMessage
  cases hexists : messageExists t.world.session.rows (inboundChat m.sender) m.wamid with
  | true => exact ⟨[], 0, by simp [runFrom, hexists]⟩
  | false =>
      cases hinsert : messageInsert t.world.session.rows m.newMessage true with
      | error e =>
          refine ⟨[.message m, .insertMessage t.found.length], 0, ?_⟩
          unfold InboundMessage.newMessage at hinsert
          simp [runFrom, Traffic.step, InboundMessage.newMessage, hexists, hinsert, herase]
      | ok rows =>
          refine ⟨[.message m, .insertMessage t.found.length, .go t.world.pending.length], 1, ?_⟩
          unfold InboundMessage.newMessage at hinsert
          simp [runFrom, Traffic.step, Traffic.through, World.step, World.resume, World.defer,
            World.withRows, CloudSession.emit, InboundMessage.newMessage, hexists, hinsert, herase]

/-! ## 5. The ledger of an id -/

def chatsOf (wamid : String) (rows : List MessageRow) : List String :=
  (rowsOf wamid rows).map MessageRow.chatJid

def SessionEvent.isMessage (wamid : String) : SessionEvent → Bool
  | .message id _ _ => id = wamid
  | _ => false

/-- The Message events that a list of events has for the id. -/
def messagesIn (wamid : String) (events : List SessionEvent) : Nat :=
  events.countP (SessionEvent.isMessage wamid)

def Task.due (wamid : String) : Task → Nat
  | .insertEcho _ => 0
  | .emit events => messagesIn wamid events

def Task.echoChat (wamid : String) : Task → Option String
  | .insertEcho e => if e.wamid = wamid then some (toJid (trim e.recipient)) else none
  | .emit _ => none

def World.due (w : World) (wamid : String) : Nat := (w.pending.map (Task.due wamid)).sum

def World.messages (w : World) (wamid : String) : Nat :=
  messagesIn wamid w.session.events + w.due wamid

def World.echoChats (w : World) (wamid : String) : List String :=
  w.pending.filterMap (Task.echoChat wamid)

def InboundMessage.chatFor (wamid : String) (m : InboundMessage) : Option String :=
  if m.wamid = wamid then some (inboundChat m.sender) else none

def CloudSend.chatFor (wamid : String) (s : CloudSend) : Option String :=
  if s.wamid = wamid then some s.chatJid else none

def Traffic.ledger (t : Traffic) (wamid : String) : Ledger where
  chats := chatsOf wamid t.world.session.rows
  messages := t.world.messages wamid
  found := t.found.filterMap (InboundMessage.chatFor wamid)
  echoes := t.world.echoChats wamid
  accepted := t.accepted.filterMap (CloudSend.chatFor wamid)
  own := decide (wamid ∈ t.sent)
  answers := t.answers.filterMap fun a => if a.1 = wamid then some a.2 else none

/-- What an event is for the message of the id. -/
def Traffic.move (t : Traffic) (wamid : String) : Event → Move
  | .message m => if m.wamid = wamid then .find (inboundChat m.sender) else .quiet
  | .insertMessage i =>
      match t.found[i]? with
      | some m => if m.wamid = wamid then .insert (inboundChat m.sender) else .quiet
      | none => .quiet
  | .echo e =>
      if e.wamid = wamid ∧ trim e.recipient ≠ [] then .findEcho (toJid (trim e.recipient))
      else .quiet
  | .status _ => .quiet
  | .go i =>
      match t.world.pending[i]? with
      | some (.insertEcho e) =>
          if e.wamid = wamid then .insertEcho (toJid (trim e.recipient)) else .quiet
      | _ => .quiet
  | .accept recipient waId id _ _ => if id = wamid then .accept (sendChat recipient waId) else .quiet
  | .record i =>
      match t.accepted[i]? with
      | some s => if s.wamid = wamid then .record s.chatJid else .quiet
      | none => .quiet

/-! ### Rows -/

theorem mem_chatsOf {wamid c : String} {rows : List MessageRow} :
    c ∈ chatsOf wamid rows ↔ messageExists rows c wamid = true := by
  rw [messageExists_rowsOf]
  simp [chatsOf]

/-- A change that leaves the keys alone. -/
theorem chatsOf_map {f : MessageRow → MessageRow} (hid : ∀ row, (f row).messageId = row.messageId)
    (hchat : ∀ row, (f row).chatJid = row.chatJid) (wamid : String) (rows : List MessageRow) :
    chatsOf wamid (rows.map f) = chatsOf wamid rows := by
  unfold chatsOf rowsOf
  rw [List.filter_map, List.map_map]
  simp only [Function.comp_def, hid, hchat]

theorem chatsOf_insert (wamid : String) (rows : List MessageRow) (m : NewMessage) :
    chatsOf wamid (rows ++ [m.row]) =
      chatsOf wamid rows ++ if m.messageId = wamid then [m.chatJid] else [] := by
  unfold chatsOf
  rw [rowsOf_insert, List.map_append]
  split <;> rfl

/-- **An insertion**: a new key gets a row; a known one is an error, or keeps its row. -/
theorem messageInsert_chats (rows : List MessageRow) (m : NewMessage) (ignoreConflict : Bool) :
    (m.chatJid ∉ chatsOf m.messageId rows ∧
        messageInsert rows m ignoreConflict = .ok (rows ++ [m.row])) ∨
      (m.chatJid ∈ chatsOf m.messageId rows ∧
        if ignoreConflict then
          ∃ rows', messageInsert rows m true = .ok rows' ∧
            ∀ wamid, chatsOf wamid rows' = chatsOf wamid rows
        else messageInsert rows m false = .error .constraint) := by
  have hmem : m.chatJid ∈ chatsOf m.messageId rows ↔
      (rows.any fun row => row.HasKey m.chatJid m.messageId) = true := mem_chatsOf
  by_cases hknown : m.chatJid ∈ chatsOf m.messageId rows
  · refine .inr ⟨hknown, ?_⟩
    cases ignoreConflict with
    | false => exact if_pos (hmem.mp hknown)
    | true =>
        refine ⟨_, if_pos (hmem.mp hknown), fun wamid => chatsOf_map ?_ ?_ wamid rows⟩
        · intro row
          split <;> rfl
        · intro row
          split <;> rfl
  · exact .inl ⟨hknown, if_neg fun hany => hknown (hmem.mpr hany)⟩

/-! ### Announcements -/

theorem messages_emit (w : World) (ev : SessionEvent) (wamid : String) :
    messagesIn wamid (w.session.emit ev).events =
      messagesIn wamid w.session.events + messagesIn wamid [ev] := by
  unfold messagesIn CloudSession.emit
  exact List.countP_append

@[simp] theorem session_defer (w : World) (task : Task) : (w.defer task).session = w.session := rfl

@[simp] theorem rows_withRows (w : World) (rows : List MessageRow) :
    (w.withRows rows).session.rows = rows := rfl

@[simp] theorem messages_defer (w : World) (task : Task) (wamid : String) :
    (w.defer task).messages wamid = w.messages wamid + task.due wamid := by
  simp [World.messages, World.due, World.defer, Nat.add_assoc]

@[simp] theorem messages_withRows (w : World) (rows : List MessageRow) (wamid : String) :
    (w.withRows rows).messages wamid = w.messages wamid := rfl

@[simp] theorem echoChats_defer (w : World) (task : Task) (wamid : String) :
    (w.defer task).echoChats wamid = w.echoChats wamid ++ (task.echoChat wamid).toList := by
  unfold World.echoChats World.defer
  rw [List.filterMap_append]
  cases h : task.echoChat wamid <;> simp [h]

@[simp] theorem echoChats_withRows (w : World) (rows : List MessageRow) (wamid : String) :
    (w.withRows rows).echoChats wamid = w.echoChats wamid := rfl

/-- What a list says of the places around the one that is taken out. -/
theorem eraseIdx_split {α : Type} {l : List α} {i : Nat} {x : α} (h : l[i]? = some x) :
    ∃ a b, l = a ++ x :: b ∧ l.eraseIdx i = a ++ b := by
  obtain ⟨hlt, rfl⟩ := List.getElem?_eq_some_iff.mp h
  exact ⟨l.take i, l.drop (i + 1), by simp, List.eraseIdx_eq_take_drop_succ l i⟩

/-- What the one that is taken out stood for goes with it. -/
theorem filterMap_eraseIdx {α β : Type} (f : α → Option β) {l : List α} {i : Nat} {x : α}
    (h : l[i]? = some x) :
    ∃ a b, l.filterMap f = a ++ ((f x).toList ++ b) ∧ (l.eraseIdx i).filterMap f = a ++ b := by
  obtain ⟨before, after, hlist, herase⟩ := eraseIdx_split h
  refine ⟨before.filterMap f, after.filterMap f, ?_, ?_⟩
  · rw [hlist, List.filterMap_append]
    cases hx : f x <;> simp [hx]
  · rw [herase, List.filterMap_append]

/-! ## 6. A step is a turn -/

variable {t t' : Traffic} {w w' : World} {wamid : String}

theorem ledger_through (t : Traffic) (w' : World)
    (hchats : chatsOf wamid w'.session.rows = chatsOf wamid t.world.session.rows)
    (hmessages : w'.messages wamid = t.world.messages wamid)
    (hechoes : w'.echoChats wamid = t.world.echoChats wamid) :
    ({ t with world := w' } : Traffic).ledger wamid = t.ledger wamid := by
  unfold Traffic.ledger
  simp only [hchats, hmessages, hechoes]

theorem ledger_world (t : Traffic) (w' : World) (wamid : String) :
    ({ t with world := w' } : Traffic).ledger wamid =
      { t.ledger wamid with
        chats := chatsOf wamid w'.session.rows
        messages := w'.messages wamid
        echoes := w'.echoChats wamid } := rfl

theorem status_turn {u : StatusUpdate} (h : t.step (.status u) = some t') :
    Turn (t.ledger wamid) .quiet (t'.ledger wamid) := by
  obtain ⟨w', hstep, rfl⟩ := Option.map_eq_some_iff.mp h
  have hsame : chatsOf wamid w'.session.rows = chatsOf wamid t.world.session.rows ∧
      w'.messages wamid = t.world.messages wamid ∧
      w'.echoChats wamid = t.world.echoChats wamid := by
    simp only [World.step] at hstep
    split at hstep
    · cases hstep
      exact ⟨rfl, rfl, rfl⟩
    · next status _ =>
        simp only [Option.some.injEq] at hstep
        split at hstep
        · subst hstep
          refine ⟨chatsOf_map ?_ ?_ wamid _, ?_, ?_⟩
          · intro row
            split <;> rfl
          · intro row
            split <;> rfl
          · have hevent : (u.event status).isMessage wamid = false := by
              unfold StatusUpdate.event
              split <;> rfl
            simp [Task.due, messagesIn, hevent]
          · simp [Task.echoChat]
        · subst hstep
          exact ⟨rfl, rfl, rfl⟩
  rw [ledger_through t w' hsame.1 hsame.2.1 hsame.2.2]
  exact .quiet _

theorem echo_turn {e : OutboundEcho} (h : t.step (.echo e) = some t') :
    Turn (t.ledger wamid) (t.move wamid (.echo e)) (t'.ledger wamid) := by
  obtain ⟨w', hstep, rfl⟩ := Option.map_eq_some_iff.mp h
  simp only [World.step] at hstep
  simp only [Traffic.move]
  by_cases hto : trim e.recipient = []
  · rw [if_pos hto] at hstep
    cases hstep
    rw [if_neg fun hand => hand.2 hto]
    exact .quiet _
  · rw [if_neg hto] at hstep
    by_cases hid : e.wamid = wamid
    · subst hid
      rw [if_pos ⟨rfl, hto⟩]
      split at hstep
      · next hexists =>
          cases hstep
          exact .knownEcho _ (mem_chatsOf.mpr hexists)
      · next hunknown =>
          cases hstep
          have hledger : ({ t with world := t.world.defer (.insertEcho e) } : Traffic).ledger e.wamid =
              { t.ledger e.wamid with
                echoes := (t.ledger e.wamid).echoes ++ [toJid (trim e.recipient)] } := by
            simp [Traffic.ledger, Task.due, Task.echoChat]
          rw [hledger]
          exact .findEcho _ fun hmem => hunknown (mem_chatsOf.mp hmem)
    · rw [if_neg fun hand => hid hand.1]
      split at hstep
      · cases hstep
        exact .quiet _
      · cases hstep
        rw [ledger_through t (t.world.defer (.insertEcho e)) rfl (by simp [Task.due])
          (by simp [Task.echoChat, hid])]
        exact .quiet _

/-- A task that goes on leaves what it still has to announce. -/
theorem due_set {i : Nat} {task : Task} (hget : w.pending[i]? = some task) (wamid : String)
    (s : CloudSession) (task' : Task) :
    (⟨s, w.pending.set i task'⟩ : World).due wamid + task.due wamid =
      w.due wamid + task'.due wamid := by
  obtain ⟨before, after, hpending, hset⟩ := pending_split hget
  have hdue : w.due wamid = (before.map (Task.due wamid)).sum +
      (task.due wamid + (after.map (Task.due wamid)).sum) := by
    unfold World.due
    rw [hpending, List.map_append, List.sum_append]
    rfl
  have hdue' : (⟨s, w.pending.set i task'⟩ : World).due wamid =
      (before.map (Task.due wamid)).sum +
        (task'.due wamid + (after.map (Task.due wamid)).sum) := by
    unfold World.due
    rw [hset, List.map_append, List.sum_append]
    rfl
  omega

theorem echoChats_set {i : Nat} {task : Task} (hget : w.pending[i]? = some task) (wamid : String) :
    ∃ a b, w.echoChats wamid = a ++ ((task.echoChat wamid).toList ++ b) ∧
      ∀ s task', (⟨s, w.pending.set i task'⟩ : World).echoChats wamid =
        a ++ ((task'.echoChat wamid).toList ++ b) := by
  obtain ⟨before, after, hpending, hset⟩ := pending_split hget
  have hcons : ∀ task'' : Task, (task'' :: after).filterMap (Task.echoChat wamid) =
      (task''.echoChat wamid).toList ++ after.filterMap (Task.echoChat wamid) := by
    intro task''
    cases h : task''.echoChat wamid <;> simp [h]
  refine ⟨before.filterMap (Task.echoChat wamid), after.filterMap (Task.echoChat wamid), ?_, ?_⟩
  · unfold World.echoChats
    rw [hpending, List.filterMap_append, hcons]
  · intro s task'
    unfold World.echoChats
    rw [hset, List.filterMap_append, hcons]

theorem emit_turn {i : Nat} {events : List SessionEvent}
    (hget : t.world.pending[i]? = some (.emit events)) :
    Turn (t.ledger wamid) .quiet
      (({ t with world := t.world.resume i (.emit events) } : Traffic).ledger wamid) := by
  cases events with
  | nil => exact .quiet _
  | cons ev evs =>
      obtain ⟨a, b, hechoes, hechoes'⟩ := echoChats_set hget wamid
      rw [ledger_through t (t.world.resume i (.emit (ev :: evs))) rfl]
      · exact .quiet _
      · have hdue := due_set hget wamid (t.world.session.emit ev) (.emit evs)
        have hcons : messagesIn wamid (ev :: evs) = messagesIn wamid [ev] + messagesIn wamid evs := by
          unfold messagesIn
          rw [← List.countP_append]
          rfl
        simp only [Task.due, hcons] at hdue
        simp only [World.resume, World.messages, messages_emit]
        omega
      · simp only [World.resume, hechoes, hechoes', Task.echoChat]

/-- What the world becomes when the echo goes on, and what it has left to do. -/
theorem resume_insertEcho_cases (w : World) (i : Nat) (e : OutboundEcho) :
    (toJid (trim e.recipient) ∉ chatsOf e.wamid w.session.rows ∧
        w.resume i (.insertEcho e) =
          { w.withRows (w.session.rows ++ [(e.newMessage w.session.jid).row]) with
            pending := w.pending.set i
              (.emit [.message e.wamid (toJid (trim e.recipient)) (w.session.jid.getD "self"),
                .messageSent e.wamid (toJid (trim e.recipient))]) }) ∨
      (toJid (trim e.recipient) ∈ chatsOf e.wamid w.session.rows ∧
        w.resume i (.insertEcho e) = { w with pending := w.pending.set i (.emit []) }) := by
  rcases messageInsert_chats w.session.rows (e.newMessage w.session.jid) false with
    ⟨hnew, hinsert⟩ | ⟨hknown, hinsert⟩
  · exact .inl ⟨hnew, by simp only [World.resume, hinsert]⟩
  · simp only [Bool.false_eq_true, if_false] at hinsert
    exact .inr ⟨hknown, by simp only [World.resume, hinsert]⟩

theorem insertEcho_turn {i : Nat} {e : OutboundEcho}
    (hget : t.world.pending[i]? = some (.insertEcho e)) :
    Turn (t.ledger wamid)
      (if e.wamid = wamid then .insertEcho (toJid (trim e.recipient)) else .quiet)
      (({ t with world := t.world.resume i (.insertEcho e) } : Traffic).ledger wamid) := by
  obtain ⟨a, b, hechoes, hechoes'⟩ := echoChats_set hget wamid
  have hledger : (t.ledger wamid).echoes = a ++ (((Task.insertEcho e).echoChat wamid).toList ++ b) :=
    hechoes
  -- for another id nothing changes
  have hother : e.wamid ≠ wamid → a ++ b = (t.ledger wamid).echoes := by
    intro hid
    rw [hledger]
    simp [Task.echoChat, hid]
  rcases resume_insertEcho_cases t.world i e with ⟨hnew, hresume⟩ | ⟨hknown, hresume⟩
  · have hdue := due_set hget wamid
      { t.world.session with rows := t.world.session.rows ++ [(e.newMessage t.world.session.jid).row] }
      (.emit [.message e.wamid (toJid (trim e.recipient)) (t.world.session.jid.getD "self"),
        .messageSent e.wamid (toJid (trim e.recipient))])
    rw [ledger_world t (t.world.resume i (.insertEcho e)), hresume]
    simp only [World.withRows, chatsOf_insert, World.messages, hechoes']
    simp only [Task.due, messagesIn, SessionEvent.isMessage, List.countP_cons, List.countP_nil,
      Nat.add_zero, Nat.zero_add, Bool.false_eq_true, if_false, decide_eq_true_eq] at hdue
    rw [hdue]
    by_cases hid : e.wamid = wamid
    · subst hid
      have hid' : (e.newMessage t.world.session.jid).messageId = e.wamid := rfl
      simp only [if_true, if_pos hid']
      exact .insertEcho (t.ledger e.wamid) (by simpa [Task.echoChat] using hledger) hnew
    · have hid' : (e.newMessage t.world.session.jid).messageId ≠ wamid := hid
      simp only [if_neg hid, if_neg hid', List.append_nil]
      simp only [Task.echoChat, Option.toList, List.nil_append, hother hid]
      exact .quiet (t.ledger wamid)
  · have hdue := due_set hget wamid t.world.session (.emit [])
    simp only [Task.due, messagesIn, List.countP_nil, Nat.add_zero] at hdue
    rw [ledger_world t (t.world.resume i (.insertEcho e)), hresume]
    simp only [World.messages, hechoes', hdue]
    by_cases hid : e.wamid = wamid
    · subst hid
      rw [if_pos rfl]
      exact .refuseEcho (t.ledger e.wamid) (by simpa [Task.echoChat] using hledger) hknown
    · rw [if_neg hid]
      simp only [Task.echoChat, Option.toList, List.nil_append, hother hid]
      exact .quiet (t.ledger wamid)

theorem go_turn {i : Nat} (h : t.step (.go i) = some t') :
    Turn (t.ledger wamid) (t.move wamid (.go i)) (t'.ledger wamid) := by
  obtain ⟨w', hstep, rfl⟩ := Option.map_eq_some_iff.mp h
  obtain ⟨task, hget, rfl⟩ := Option.map_eq_some_iff.mp hstep
  simp only [Traffic.move, hget]
  cases task with
  | insertEcho e => exact insertEcho_turn hget
  | emit events => exact emit_turn hget

theorem message_turn {m : InboundMessage} (h : t.step (.message m) = some t') :
    Turn (t.ledger wamid) (t.move wamid (.message m)) (t'.ledger wamid) := by
  simp only [Traffic.step] at h
  simp only [Traffic.move]
  split at h
  · next hexists =>
      cases h
      by_cases hid : m.wamid = wamid
      · subst hid
        rw [if_pos rfl]
        exact .known _ (mem_chatsOf.mpr hexists)
      · rw [if_neg hid]
        exact .quiet _
  · next hunknown =>
      cases h
      by_cases hid : m.wamid = wamid
      · subst hid
        rw [if_pos rfl]
        have hturn := Turn.find (t.ledger m.wamid) fun hmem => hunknown (mem_chatsOf.mp hmem)
        simpa [Traffic.ledger, InboundMessage.chatFor] using hturn
      · rw [if_neg hid]
        have hturn := Turn.quiet (t.ledger wamid)
        simpa [Traffic.ledger, InboundMessage.chatFor, hid] using hturn

theorem insertMessage_turn {i : Nat} (h : t.step (.insertMessage i) = some t') :
    Turn (t.ledger wamid) (t.move wamid (.insertMessage i)) (t'.ledger wamid) := by
  obtain ⟨m, hget, rfl⟩ := Option.map_eq_some_iff.mp h
  obtain ⟨a, b, hfound, herase⟩ := filterMap_eraseIdx (InboundMessage.chatFor wamid) hget
  -- nothing of another message goes with this one
  have hsame : m.wamid ≠ wamid → a ++ b = t.found.filterMap (InboundMessage.chatFor wamid) := by
    intro hid
    rw [hfound]
    simp [InboundMessage.chatFor, hid]
  simp only [Traffic.move, hget]
  rcases messageInsert_chats t.world.session.rows m.newMessage true with
    ⟨hnew, hinsert⟩ | ⟨hknown, hinsert⟩
  · simp only [hinsert]
    by_cases hid : m.wamid = wamid
    · subst hid
      rw [if_pos rfl]
      have hturn := Turn.insert (t.ledger m.wamid) (c := inboundChat m.sender) (a := a) (b := b)
        (by simp [Traffic.ledger, hfound, InboundMessage.chatFor]) hnew
      have hrow := chatsOf_insert m.wamid t.world.session.rows m.newMessage
      rw [if_pos (show m.newMessage.messageId = m.wamid from rfl)] at hrow
      have hchat : m.newMessage.chatJid = inboundChat m.sender := rfl
      simpa [Traffic.ledger, herase, hrow, hchat, Task.due, messagesIn, SessionEvent.isMessage,
        Task.echoChat] using hturn
    · rw [if_neg hid]
      have hturn := Turn.quiet (t.ledger wamid)
      have hrow := chatsOf_insert wamid t.world.session.rows m.newMessage
      rw [if_neg (show m.newMessage.messageId ≠ wamid from hid), List.append_nil] at hrow
      simpa [Traffic.ledger, herase, hsame hid, hrow, Task.due, messagesIn,
        SessionEvent.isMessage, Task.echoChat, hid] using hturn
  · obtain ⟨rows, hok, hrows⟩ := hinsert
    simp only [hok]
    by_cases hid : m.wamid = wamid
    · subst hid
      rw [if_pos rfl]
      have hturn := Turn.insertAgain (t.ledger m.wamid) (c := inboundChat m.sender) (a := a)
        (b := b) (by simp [Traffic.ledger, hfound, InboundMessage.chatFor]) hknown
      simpa [Traffic.ledger, herase, hrows, Task.due, messagesIn, SessionEvent.isMessage,
        Task.echoChat] using hturn
    · rw [if_neg hid]
      have hturn := Turn.quiet (t.ledger wamid)
      simpa [Traffic.ledger, herase, hsame hid, hrows, Task.due, messagesIn,
        SessionEvent.isMessage, Task.echoChat, hid] using hturn

theorem accept_turn {recipient : List Char} {waId : Option (List Char)} {id : String}
    {content : CloudKindPayload} {timestamp : Int}
    (h : t.step (.accept recipient waId id content timestamp) = some t') :
    Turn (t.ledger wamid) (t.move wamid (.accept recipient waId id content timestamp))
      (t'.ledger wamid) := by
  simp only [Traffic.step] at h
  simp only [Traffic.move]
  split at h
  · cases h
  · cases h
    by_cases hid : id = wamid
    · subst hid
      rw [if_pos rfl]
      have hturn := Turn.accept (t.ledger id) (c := sendChat recipient waId)
      simpa [Traffic.ledger, CloudSend.chatFor] using hturn
    · rw [if_neg hid]
      have hturn := Turn.quiet (t.ledger wamid)
      simpa [Traffic.ledger, CloudSend.chatFor, hid, Ne.symm hid] using hturn

theorem record_turn {i : Nat} (h : t.step (.record i) = some t') :
    Turn (t.ledger wamid) (t.move wamid (.record i)) (t'.ledger wamid) := by
  obtain ⟨s, hget, rfl⟩ := Option.map_eq_some_iff.mp h
  obtain ⟨a, b, haccepted, herase⟩ := filterMap_eraseIdx (CloudSend.chatFor wamid) hget
  have hsame : s.wamid ≠ wamid → a ++ b = t.accepted.filterMap (CloudSend.chatFor wamid) := by
    intro hid
    rw [haccepted]
    simp [CloudSend.chatFor, hid]
  simp only [Traffic.move, hget]
  obtain ⟨m, hm⟩ : ∃ m, m = outboundMessage s.chatJid s.wamid (t.world.session.jid.getD "self")
      s.content s.timestamp := ⟨_, rfl⟩
  have hkey : m.messageId = s.wamid ∧ m.chatJid = s.chatJid := by rw [hm]; exact ⟨rfl, rfl⟩
  rw [← hm]
  have hcases := messageInsert_chats t.world.session.rows m false
  rw [hkey.1, hkey.2] at hcases
  rcases hcases with ⟨hnew, hinsert⟩ | ⟨hknown, hinsert⟩
  · simp only [hinsert]
    have hrow := chatsOf_insert wamid t.world.session.rows m
    rw [hkey.1, hkey.2] at hrow
    by_cases hid : s.wamid = wamid
    · subst hid
      rw [if_pos rfl]
      rw [if_pos rfl] at hrow
      have hturn := Turn.record (t.ledger s.wamid) (c := s.chatJid) (a := a) (b := b)
        (by simp [Traffic.ledger, haccepted, CloudSend.chatFor]) hnew
      simpa [Traffic.ledger, herase, hrow, Task.due, messagesIn, SessionEvent.isMessage,
        Task.echoChat] using hturn
    · rw [if_neg hid]
      rw [if_neg hid, List.append_nil] at hrow
      have hturn := Turn.quiet (t.ledger wamid)
      simpa [Traffic.ledger, herase, hsame hid, hrow, Task.due, messagesIn,
        SessionEvent.isMessage, Task.echoChat, hid] using hturn
  · simp only [Bool.false_eq_true, if_false] at hinsert
    simp only [hinsert]
    by_cases hid : s.wamid = wamid
    · subst hid
      rw [if_pos rfl]
      have hturn := Turn.refuseRecord (t.ledger s.wamid) (c := s.chatJid) (a := a) (b := b)
        (by simp [Traffic.ledger, haccepted, CloudSend.chatFor]) hknown
      simpa [Traffic.ledger, herase] using hturn
    · rw [if_neg hid]
      have hturn := Turn.quiet (t.ledger wamid)
      simpa [Traffic.ledger, herase, hsame hid, hid] using hturn

/-- **A step of the handlers is a turn of the ledger of every message.** -/
theorem step_turn {e : Event} (wamid : String) (h : t.step e = some t') :
    Turn (t.ledger wamid) (t.move wamid e) (t'.ledger wamid) := by
  cases e with
  | message m => exact message_turn h
  | insertMessage i => exact insertMessage_turn h
  | echo e => exact echo_turn h
  | status u => exact status_turn h
  | go i => exact go_turn h
  | accept recipient waId id content timestamp => exact accept_turn h
  | record i => exact record_turn h

/-! ## 7. Runs -/

/-- Nothing of the message is known, and nothing of it is under way. -/
def Traffic.Unseen (t : Traffic) (wamid : String) : Prop :=
  t.ledger wamid = ⟨[], 0, [], [], [], false, []⟩

/-- Nothing of the message is under way. -/
structure Traffic.Settled (t : Traffic) (wamid : String) : Prop where
  found : ∀ m ∈ t.found, m.wamid ≠ wamid
  accepted : ∀ s ∈ t.accepted, s.wamid ≠ wamid
  echoes : ∀ e, Task.insertEcho e ∈ t.world.pending → e.wamid ≠ wamid
  due : t.world.due wamid = 0

/-- Where no handler waits and the tasks have emitted what they had, nothing of any message waits. -/
theorem settled_of_idle (wamid : String) (hfound : t.found = []) (haccepted : t.accepted = [])
    (hpending : ∀ task ∈ t.world.pending, task = .emit []) : t.Settled wamid where
  found m hm := by
    rw [hfound] at hm
    cases hm
  accepted s hs := by
    rw [haccepted] at hs
    cases hs
  echoes e he := by
    cases hpending _ he
  due := by
    unfold World.due
    refine List.sum_eq_zero_iff_forall_eq_nat.mpr fun n hn => ?_
    obtain ⟨task, htask, rfl⟩ := List.mem_map.mp hn
    rw [hpending task htask]
    rfl

/-- The event brings the message: a delivery of it, an echo, or its send. -/
def Event.Brings (wamid : String) : Event → Prop
  | .message m => m.wamid = wamid
  | .echo e => e.wamid = wamid ∧ trim e.recipient ≠ []
  | .accept _ _ id _ _ => id = wamid
  | _ => False

def Traffic.rows (t : Traffic) (wamid : String) : List MessageRow := rowsOf wamid t.world.session.rows

/-- The Message events of the message so far. -/
def Traffic.announced (t : Traffic) (wamid : String) : Nat :=
  messagesIn wamid t.world.session.events

/-- A step that the message of the id takes as one that came to us. -/
def InboundStep (chat wamid : String) (t : Traffic) (e : Event) : Prop :=
  AsMessage chat (t.ledger wamid) (t.move wamid e)

instance (chat wamid : String) (t : Traffic) (e : Event) : Decidable (InboundStep chat wamid t e) :=
  inferInstanceAs (Decidable (AsMessage _ _ _))

/-- A step that it takes as one that went out. -/
def OutboundStep (chat wamid : String) (t : Traffic) (e : Event) : Prop :=
  AsSend chat (t.ledger wamid) (t.move wamid e)

instance (chat wamid : String) (t : Traffic) (e : Event) : Decidable (OutboundStep chat wamid t e) :=
  inferInstanceAs (Decidable (AsSend _ _ _))

theorem move_of_brings {e : Event} (h : e.Brings wamid) : t.move wamid e ≠ .quiet := by
  cases e with
  | message m => simp [Traffic.move, if_pos (show m.wamid = wamid from h)]
  | echo e =>
      have hboth : e.wamid = wamid ∧ trim e.recipient ≠ [] := h
      simp [Traffic.move, if_pos hboth]
  | accept recipient waId id => simp [Traffic.move, if_pos (show id = wamid from h)]
  | insertMessage => exact h.elim
  | status => exact h.elim
  | go => exact h.elim
  | record => exact h.elim

theorem length_chatsOf (wamid : String) (rows : List MessageRow) :
    (chatsOf wamid rows).length = (rowsOf wamid rows).length := List.length_map _

/-- What was brought is there, or about to be. -/
theorem alive_run {events : List Event} (hrun : runFrom Traffic.step t events = some t')
    (hbrings : (∃ e ∈ events, e.Brings wamid) ∨ (t.ledger wamid).Alive) :
    (t'.ledger wamid).Alive := by
  induction events generalizing t with
  | nil =>
      cases hrun
      exact hbrings.resolve_left fun ⟨_, he, _⟩ => nomatch he
  | cons e events ih =>
      obtain ⟨mid, hstep, hrest⟩ := runFrom_cons hrun
      refine ih hrest ?_
      rcases hbrings with ⟨e', he', hbrings⟩ | halive
      · rcases List.mem_cons.mp he' with rfl | hlater
        · exact .inr (alive_turn (step_turn wamid hstep) (.inr (move_of_brings hbrings)))
        · exact .inl ⟨e', hlater, hbrings⟩
      · exact .inr (alive_turn (step_turn wamid hstep) (.inl halive))

theorem chats_of_settled (hsettled : t.Settled wamid) (halive : (t.ledger wamid).Alive) :
    (t.ledger wamid).chats ≠ [] := by
  rcases halive with hchats | hfound | hechoes | haccepted
  · exact hchats
  · refine absurd (List.filterMap_eq_nil_iff.mpr fun m hm => ?_) hfound
    exact if_neg (hsettled.found m hm)
  · refine absurd (List.filterMap_eq_nil_iff.mpr fun task htask => ?_) hechoes
    cases task with
    | insertEcho e => exact if_neg (hsettled.echoes e htask)
    | emit events => rfl
  · refine absurd (List.filterMap_eq_nil_iff.mpr fun s hs => ?_) haccepted
    exact if_neg (hsettled.accepted s hs)

theorem messages_of_settled (hsettled : t.Settled wamid) :
    (t.ledger wamid).messages = t.announced wamid := by
  show t.announced wamid + t.world.due wamid = t.announced wamid
  rw [hsettled.due, Nat.add_zero]

theorem announced_le (t : Traffic) (wamid : String) :
    t.announced wamid ≤ (t.ledger wamid).messages := Nat.le_add_right _ _

theorem single_counts {chat : String} (h : Single chat (t.ledger wamid)) :
    (t.rows wamid).length ≤ 1 ∧ t.announced wamid ≤ 1 ∧
      (t.Settled wamid → (t.ledger wamid).Alive →
        (t.rows wamid).length = 1 ∧ t.announced wamid = 1) := by
  have hrows : (t.rows wamid).length = (t.ledger wamid).chats.length := (length_chatsOf _ _).symm
  have hle := announced_le t wamid
  rcases h with ⟨hnone, hzero⟩ | ⟨hone, hmessages⟩
  · rw [hrows, hnone]
    refine ⟨Nat.zero_le 1, by omega, fun hsettled halive => ?_⟩
    exact absurd hnone (chats_of_settled hsettled halive)
  · rw [hrows, hone]
    refine ⟨Nat.le_refl 1, by omega, fun hsettled _ => ⟨rfl, ?_⟩⟩
    rw [← messages_of_settled hsettled, hmessages]

theorem inbound_counts {chat : String} {events : List Event} (hunseen : t.Unseen wamid)
    (hrun : runFrom Traffic.step t events = some t')
    (hmeets : Meets Traffic.step (InboundStep chat wamid) t events) :
    (t'.rows wamid).length ≤ 1 ∧ t'.announced wamid ≤ 1 ∧
      (t'.Settled wamid → (∃ e ∈ events, e.Brings wamid) →
        (t'.rows wamid).length = 1 ∧ t'.announced wamid = 1) := by
  have hstart : InboundOnce chat (t.ledger wamid) := by
    rw [hunseen]
    exact ⟨fun c hc => (nomatch hc), .inl ⟨rfl, rfl⟩⟩
  have hkept : InboundOnce chat (t'.ledger wamid) :=
    run_invariant (I := fun t => InboundOnce chat (t.ledger wamid))
      (fun _ _ _ h hcond hstep => inboundOnce_turn h hcond (step_turn wamid hstep)) hstart hmeets hrun
  obtain ⟨hrows, hannounced, hsettled⟩ := single_counts hkept.single
  exact ⟨hrows, hannounced, fun hs hbrings => hsettled hs (alive_run hrun (.inl hbrings))⟩

theorem outboundOnce_run {chat : String} {events : List Event} (hunseen : t.Unseen wamid)
    (hrun : runFrom Traffic.step t events = some t')
    (hmeets : Meets Traffic.step (OutboundStep chat wamid) t events) :
    OutboundOnce chat (t'.ledger wamid) := by
  have hstart : OutboundOnce chat (t.ledger wamid) := by
    rw [hunseen]
    exact ⟨fun c hc => (nomatch hc), fun _ => ⟨rfl, rfl, .inl ⟨rfl, rfl⟩⟩, fun hown => (nomatch hown)⟩
  exact run_invariant (I := fun t => OutboundOnce chat (t.ledger wamid))
    (fun _ _ _ h hcond hstep => outboundOnce_turn h hcond (step_turn wamid hstep)) hstart hmeets hrun

theorem mem_answers {ok : Bool} (h : (wamid, ok) ∈ t.answers) : ok ∈ (t.ledger wamid).answers :=
  List.mem_filterMap.mpr ⟨(wamid, ok), h, if_pos rfl⟩

/-- A send of ours: one row, no announcement as somebody else's, no error for its caller. -/
theorem own_counts {chat : String} {events : List Event} (hunseen : t.Unseen wamid)
    (hrun : runFrom Traffic.step t events = some t')
    (hmeets : Meets Traffic.step (OutboundStep chat wamid) t events) (hown : wamid ∈ t'.sent) :
    (t'.rows wamid).length ≤ 1 ∧ t'.announced wamid = 0 ∧
      (∀ ok, (wamid, ok) ∈ t'.answers → ok = true) ∧
      (t'.Settled wamid → (t'.ledger wamid).Alive → (t'.rows wamid).length = 1) := by
  have hrows : (t'.rows wamid).length = (t'.ledger wamid).chats.length := (length_chatsOf _ _).symm
  obtain ⟨hzero, hanswers, hcases⟩ :=
    (outboundOnce_run hunseen hrun hmeets).ours (decide_eq_true hown)
  have hle := announced_le t' wamid
  refine ⟨?_, by omega, fun ok hok => hanswers ok (mem_answers hok), fun hs halive => ?_⟩
  · rcases hcases with ⟨hchats, -⟩ | ⟨hchats, -⟩ <;> rw [hrows, hchats] <;> simp
  · rcases hcases with ⟨hchats, -⟩ | ⟨hchats, -⟩
    · rw [hrows, hchats]
      rfl
    · exact absurd hchats (chats_of_settled hs halive)

/-- A send of somebody else: like a message that came to us. -/
theorem foreign_counts {chat : String} {events : List Event} (hunseen : t.Unseen wamid)
    (hrun : runFrom Traffic.step t events = some t')
    (hmeets : Meets Traffic.step (OutboundStep chat wamid) t events) (hown : wamid ∉ t'.sent) :
    ((t'.rows wamid).length ≤ 1 ∧ t'.announced wamid ≤ 1 ∧
      (t'.Settled wamid → (t'.ledger wamid).Alive →
        (t'.rows wamid).length = 1 ∧ t'.announced wamid = 1)) ∧
      ∀ ok, (wamid, ok) ∈ t'.answers → ok = true := by
  obtain ⟨-, hanswers, hsingle⟩ :=
    (outboundOnce_run hunseen hrun hmeets).foreign (decide_eq_false hown)
  refine ⟨single_counts hsingle, fun ok hok => ?_⟩
  have hmem := mem_answers hok
  rw [hanswers] at hmem
  cases hmem

/-- **Each cloud message once**, over every order of deliveries, echoes and sends in which a handler
    that goes on with a message finds it still unknown, and an echo waits for our own send to be
    recorded. -/
theorem cloud_once (chat wamid : String) {events : List Event} (hunseen : t.Unseen wamid)
    (hrun : runFrom Traffic.step t events = some t') :
    (Meets Traffic.step (InboundStep chat wamid) t events →
        (t'.rows wamid).length ≤ 1 ∧ t'.announced wamid ≤ 1 ∧
          (t'.Settled wamid → (∃ e ∈ events, e.Brings wamid) →
            (t'.rows wamid).length = 1 ∧ t'.announced wamid = 1)) ∧
      (Meets Traffic.step (OutboundStep chat wamid) t events →
        (t'.rows wamid).length ≤ 1 ∧
          (wamid ∈ t'.sent → t'.announced wamid = 0) ∧
          (wamid ∉ t'.sent → t'.announced wamid ≤ 1) ∧
          (∀ ok, (wamid, ok) ∈ t'.answers → ok = true) ∧
          (t'.Settled wamid → (∃ e ∈ events, e.Brings wamid) →
            (t'.rows wamid).length = 1 ∧ (wamid ∉ t'.sent → t'.announced wamid = 1))) := by
  refine ⟨fun hmeets => inbound_counts hunseen hrun hmeets, fun hmeets => ?_⟩
  have halive : (∃ e ∈ events, e.Brings wamid) → (t'.ledger wamid).Alive :=
    fun hbrings => alive_run hrun (.inl hbrings)
  by_cases hown : wamid ∈ t'.sent
  · obtain ⟨hrows, hannounced, hanswers, hsettled⟩ := own_counts hunseen hrun hmeets hown
    exact ⟨hrows, fun _ => hannounced, fun hnot => absurd hown hnot, hanswers,
      fun hs hbrings => ⟨hsettled hs (halive hbrings), fun hnot => absurd hown hnot⟩⟩
  · obtain ⟨⟨hrows, hannounced, hsettled⟩, hanswers⟩ := foreign_counts hunseen hrun hmeets hown
    refine ⟨hrows, fun hin => absurd hin hown, fun _ => hannounced, hanswers, fun hs hbrings => ?_⟩
    obtain ⟨hone, honce⟩ := hsettled hs (halive hbrings)
    exact ⟨hone, fun _ => honce⟩

/-! ## 8. Runs that overtake -/

namespace Sample

def quietTraffic : Traffic := ⟨empty, [], [], [], []⟩

def hello : InboundMessage := ⟨"wamid.1", "15550001".toList, 7, text⟩

def sending : Event := .accept "15550001".toList none "wamid.1" text 7

def echoing : Event := .echo ⟨"wamid.1", "15550001".toList, 7, text⟩

/-- A delivery that both handlers find unknown. -/
def delivered : List Event :=
  [.message hello, .message hello, .insertMessage 0, .insertMessage 0, .go 0, .go 1]

/-- A delivery, and the same again. -/
def redelivered : List Event := [.message hello, .insertMessage 0, .go 0, .message hello]

/-- The echo comes before the answer to the send. -/
def overtakenSend : List Event := [sending, echoing, .go 0, .go 0, .go 0, .record 0]

/-- The echo comes after it, twice. -/
def inOrder : List Event := [sending, .record 0, .go 0, echoing, echoing]

end Sample

/-- Two handlers announce one message twice; an echo that overtakes the answer of a send is
    announced as somebody else's, and the send is answered with an error. -/
theorem cloud_twice :
    (runFrom Traffic.step Sample.quietTraffic Sample.delivered).map
        (fun t => ((t.rows "wamid.1").length, t.announced "wamid.1")) = some (1, 2) ∧
      (runFrom Traffic.step Sample.quietTraffic Sample.overtakenSend).map
        (fun t => (t.announced "wamid.1", t.sent, t.answers)) =
          some (1, ["wamid.1"], [("wamid.1", false)]) := by
  decide +kernel

/-- A message that is delivered again when it is filed, and a send whose echoes come after it is
    recorded. -/
theorem cloud_once_in_order :
    (∃ t', runFrom Traffic.step Sample.quietTraffic Sample.redelivered = some t' ∧
      (t'.rows "wamid.1").length = 1 ∧ t'.announced "wamid.1" = 1) ∧
      ∃ t', runFrom Traffic.step Sample.quietTraffic Sample.inOrder = some t' ∧
        (t'.rows "wamid.1").length ≤ 1 ∧ t'.announced "wamid.1" = 0 ∧
        ∀ ok, ("wamid.1", ok) ∈ t'.answers → ok = true := by
  have hinbound : ∃ t', runFrom Traffic.step Sample.quietTraffic Sample.redelivered = some t' :=
    ⟨_, rfl⟩
  have houtbound : ∃ t', runFrom Traffic.step Sample.quietTraffic Sample.inOrder = some t' :=
    ⟨_, rfl⟩
  obtain ⟨t₁, hfirst⟩ := hinbound
  obtain ⟨t₂, hsecond⟩ := houtbound
  obtain ⟨-, -, hcounts⟩ :=
    (cloud_once Sample.chat "wamid.1" (t := Sample.quietTraffic) rfl hfirst).1 (by decide +kernel)
  obtain ⟨hrows, hown, -, hanswers, -⟩ :=
    (cloud_once Sample.chat "wamid.1" (t := Sample.quietTraffic) rfl hsecond).2 (by decide +kernel)
  refine ⟨⟨t₁, hfirst, hcounts ?_ ?_⟩, t₂, hsecond, hrows, hown ?_, hanswers⟩
  · have hidle : (runFrom Traffic.step Sample.quietTraffic Sample.redelivered).map
        (fun t => (t.found, t.accepted, t.world.pending)) = some ([], [], [.emit []]) :=
      rfl
    rw [hfirst] at hidle
    obtain ⟨hfound, hrest⟩ := Prod.mk.inj (Option.some.inj hidle)
    obtain ⟨haccepted, hpending⟩ := Prod.mk.inj hrest
    exact settled_of_idle "wamid.1" hfound haccepted
      (hpending ▸ fun task htask => List.mem_singleton.mp htask)
  · exact ⟨.message Sample.hello, List.mem_cons_self, rfl⟩
  · have hsent : (runFrom Traffic.step Sample.quietTraffic Sample.inOrder).map Traffic.sent =
        some ["wamid.1"] := by
      decide +kernel
    rw [hsecond] at hsent
    rw [Option.some.inj hsent]
    exact List.mem_singleton_self _

end Ruwa.Cloud
