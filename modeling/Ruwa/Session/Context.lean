/-
  File:      Ruwa/Session/Context.lean
  Subject:   THE MESSAGES AROUND A MESSAGE (`store.rs`, `message_context`; `api.rs`,
             `get_message_context`).

  The messages of a chat are read in the order of their time and, within a second, of their id. The
  window is put together from two queries that part the chat by the time alone.

  * `messageContext_sides` -- the two queries, as the sides of the message's second;
  * **`message_context_iff`** -- the window is the one around the message exactly when no message of
    its second comes behind it, or the whole chat fits.
-/
import Ruwa.Library.Around
import Ruwa.Session.Listing
import Mathlib.Data.List.Pairwise
import Mathlib.Data.Prod.Lex
import Mathlib.Data.String.Basic

namespace Ruwa.Session

open Ruwa.Library

/-! ## 1. The source -/

/-- The table `messages`; its primary key is the session, the chat and the id of a message. -/
structure MessageTable where
  rows : List StoredMessage
  keyed : rows.Pairwise fun a b => a.sessionId = b.sessionId → a.row.chatJid = b.row.chatJid →
    a.row.messageId ≠ b.row.messageId

def MessageTable.inChat (table : MessageTable) (sessionId chat : String) : List StoredMessage :=
  table.rows.filter fun m => m.sessionId = sessionId ∧ m.row.chatJid = chat

/-- `timestamp, message_id` -/
def StoredMessage.place (m : StoredMessage) : Int ×ₗ String :=
  toLex (m.timestamp, m.row.messageId)

/-- The target and the `before` messages ahead of it, then the `after` behind. -/
def messageContext (table : MessageTable) (sessionId chat msgId : String) (before after : Nat) :
    List StoredMessage :=
  let inChat := table.inChat sessionId chat
  match inChat.find? fun m => m.row.messageId = msgId with
  | none => []
  | some target =>
      let ts := target.timestamp
      let older := (descending StoredMessage.place (inChat.filter fun m => m.timestamp ≤ ts)).take
        (before + 1)
      let newer := (ascending StoredMessage.place (inChat.filter fun m => ts < m.timestamp)).take
        after
      older.reverse ++ newer

/-- The request; it asks for 5 on each side unless it says how many, and for 50 at most. -/
def getMessageContext (table : MessageTable) (sessionId chat msgId : String)
    (before after : Option Nat) : List StoredMessage :=
  messageContext table sessionId chat msgId (min (before.getD 5) 50) (min (after.getD 5) 50)

/-! ## 2. The window -/

/-- The messages of a chat in their order. -/
def MessageTable.chronological (table : MessageTable) (sessionId chat : String) :
    List StoredMessage :=
  ascending StoredMessage.place (table.inChat sessionId chat)

section

variable {table : MessageTable} {sessionId chat : String} {target : StoredMessage}

theorem inChat_ids : (table.inChat sessionId chat).Pairwise fun a b =>
    a.row.messageId ≠ b.row.messageId := by
  refine (table.keyed.filter _).imp_of_mem fun ha hb hne => ?_
  obtain ⟨hsession, hchat⟩ := of_decide_eq_true (List.mem_filter.mp ha).2
  obtain ⟨hsession', hchat'⟩ := of_decide_eq_true (List.mem_filter.mp hb).2
  exact hne (hsession.trans hsession'.symm) (hchat.trans hchat'.symm)

theorem inChat_keyed : KeyedBy StoredMessage.place (table.inChat sessionId chat) :=
  inChat_ids.imp fun hne heq => hne (congrArg (fun p => (ofLex p).2) heq)

/-- The id names one message of the chat. -/
theorem inChat_find (h : target ∈ table.inChat sessionId chat) :
    (table.inChat sessionId chat).find? (fun m => m.row.messageId = target.row.messageId) =
      some target := by
  obtain ⟨found, hfound⟩ := Option.isSome_iff_exists.mp
    (List.find?_isSome (p := fun m => decide (m.row.messageId = target.row.messageId)).mpr
      ⟨target, h, decide_eq_true rfl⟩)
  have hid : found.row.messageId = target.row.messageId := by
    simpa using List.find?_some hfound
  have : Std.Symm fun a b : StoredMessage => a.row.messageId ≠ b.row.messageId :=
    ⟨fun _ _ => Ne.symm⟩
  by_contra hne
  exact List.Pairwise.forall inChat_ids (List.mem_of_find?_eq_some hfound) h
    (fun heq => hne (hfound.trans (congrArg some heq))) hid

theorem messageContext_sides (h : target ∈ table.inChat sessionId chat) (before after : Nat) :
    messageContext table sessionId chat target.row.messageId before after =
      sides StoredMessage.place StoredMessage.timestamp (table.inChat sessionId chat) target before
        after := by
  unfold messageContext
  dsimp only
  rw [inChat_find h]
  rfl

theorem timestamp_of_place (m m' : StoredMessage) (h : m.place ≤ m'.place) :
    m.timestamp ≤ m'.timestamp := by
  rcases Prod.Lex.le_iff.mp h with hlt | ⟨heq, -⟩
  · exact Int.le_of_lt hlt
  · exact Int.le_of_eq heq

/-- Within a second the id decides. -/
theorem place_le_iff {m m' : StoredMessage} (h : m.timestamp = m'.timestamp) :
    m.place ≤ m'.place ↔ m.row.messageId ≤ m'.row.messageId := by
  constructor
  · intro hle
    rcases Prod.Lex.le_iff.mp hle with hlt | ⟨-, hid⟩
    · exact absurd h (Int.ne_of_lt hlt)
    · exact hid
  · intro hid
    exact Prod.Lex.le_iff.mpr (.inr ⟨h, hid⟩)

end

/-- **The window is the one around the message** exactly when no message of its second has a greater
    id, or when the window holds all: what was sent until the end of that second, and what comes
    behind the message. -/
theorem message_context_iff (table : MessageTable) (sessionId chat : String)
    (target : StoredMessage) (h : target ∈ table.inChat sessionId chat) (before after : Nat) :
    Around (table.chronological sessionId chat) target before after
        (messageContext table sessionId chat target.row.messageId before after) ↔
      (∀ m ∈ table.inChat sessionId chat, m.timestamp = target.timestamp →
        m.row.messageId ≤ target.row.messageId) ∨
      (table.inChat sessionId chat).countP (fun m => m.timestamp ≤ target.timestamp) ≤ before + 1 ∧
        (table.inChat sessionId chat).countP (fun m => target.place < m.place) ≤ after := by
  rw [messageContext_sides h]
  unfold MessageTable.chronological
  rw [around_iff inChat_keyed timestamp_of_place h]
  refine or_congr (forall₂_congr fun m _ => forall_congr' fun hts => ?_) Iff.rfl
  exact place_le_iff hts

namespace Sample

/-- Two messages of one second, and one of the next. -/
def talk : MessageTable := ⟨[stored "A" 7, stored "B" 7, stored "C" 8], by decide⟩

end Sample

/-- The message itself is not in its window: one of the same second has taken its place. -/
theorem message_context_missing :
    Sample.stored "A" 7 ∈ Sample.talk.inChat "s" "c@s.whatsapp.net" ∧
    getMessageContext Sample.talk "s" "c@s.whatsapp.net" "A" (some 0) (some 0) =
      [Sample.stored "B" 7] ∧
    ¬Around (Sample.talk.chronological "s" "c@s.whatsapp.net") (Sample.stored "A" 7) 0 0
      (messageContext Sample.talk "s" "c@s.whatsapp.net" "A" 0 0) := by
  have hwindow : messageContext Sample.talk "s" "c@s.whatsapp.net" "A" 0 0 =
      [Sample.stored "B" 7] := by decide +kernel
  refine ⟨by decide +kernel, by decide +kernel, ?_⟩
  rintro ⟨pre, post, -, hfound⟩
  have hmem : Sample.stored "A" 7 ∈ [Sample.stored "B" 7] := by
    rw [← hwindow, hfound]
    exact List.mem_append_right _ List.mem_cons_self
  exact absurd hmem (by decide)

/-- The last message of its second, with one on each side. -/
theorem message_context_last :
    Around (Sample.talk.chronological "s" "c@s.whatsapp.net") (Sample.stored "B" 7) 1 1
      (messageContext Sample.talk "s" "c@s.whatsapp.net" "B" 1 1) :=
  (message_context_iff Sample.talk "s" "c@s.whatsapp.net" (Sample.stored "B" 7)
    (by decide +kernel) 1 1).mpr (.inl (by decide +kernel))

end Ruwa.Session
