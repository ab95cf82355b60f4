/-
  File:      Ruwa/Session/Convergence.lean
  Subject:   EDITS, REVOKES AND DELIVERIES OF A STORED MESSAGE IN EVERY ORDER, as
             `process_inbound_message` handles them: what they leave in its row, and what is told of
             it.

  * `arrive_chats` -- a message has rows in the chats where it had some, and where it is filed;
  * `arrive_step` -- what arrives does to the row what its update says, and tells as much;
  * `run_sim` -- so does a run;
  * **`row_converges_iff`** -- the row converges, and a revoke is the end of it, exactly when it is the
    only one, all that files the message files it there, all that write it agree, and nothing brings
    back what was revoked;
  * `updates_diverge` -- two edits in two orders leave two texts, a revoke leaves the payload, and a
    batch of history may add a row with the text that was revoked.
-/
import Ruwa.Session.Edits
import Ruwa.Session.Updates

namespace Ruwa.Session.Inbound

open Ruwa.Library Ruwa.Crypto

/-! ## 1. What arrives -/

/-- A chat of the history, with its messages. -/
structure Conversation where
  id : Option Str
  messages : List (Option WebMessageInfo)

/-- A message, or a batch of the history. -/
inductive Arrival where
  | stanza (s : Stanza)
  | history (conversations : List Conversation)

/-- A message of the history is filed under the name that its chat has there. -/
def historyMessage (base64 : Bytes → Str) (chat : Str) (wmi : WebMessageInfo) :
    Option NewMessage :=
  let key := wmi.key.getD {}
  (nonempty key.id).map fun messageId =>
    let fromMe := key.fromMe.getD false
    ⟨chat, messageId,
      (wmi.participant.or key.participant).getD (if fromMe then "self".toList else chat), fromMe,
      (wmi.messageTimestamp.getD 0 : Nat), e2eContentColumns base64 "history_sync" wmi.message⟩

/-- The rows of `parse_history_sync_payload`, from what was inflated and decoded. -/
def parseHistorySyncPayload (base64 : Bytes → Str) (conversations : List Conversation) :
    List NewMessage :=
  conversations.flatMap fun conv =>
    match conv.id with
    | none => []
    | some chat => conv.messages.filterMap fun message => message.bind (historyMessage base64 chat)

/-- `INSERT OR IGNORE` -/
def insertOrIgnore (rows : List Row) (m : NewMessage) : List Row :=
  if rows.any fun row => row.HasKey m.chatJid m.messageId then rows else rows ++ [m.row]

def messagesInsertBatch (rows : List Row) (batch : List NewMessage) : List Row :=
  batch.foldl insertOrIgnore rows

def arrive (r : Receiver) (w : World) : Arrival → World
  | .stanza s => processInboundMessage r w s
  | .history conversations =>
      { w with store := { w.store with
        rows := messagesInsertBatch w.store.rows
          (parseHistorySyncPayload r.wire.base64 conversations) } }

def secretOf (w : World) (t : Str) : Option Secret := messageSecretGet w.store.secrets t

/-- The secret that a message brings. -/
def broughtSecret (r : Receiver) (s : Stanza) : Option Secret :=
  ((s.message r).bind messageSecretFromE2e).map fun secret => (Poll.toNonAdJid s.sender, secret)

/-- What an arrival is to the message `t`, as the session in this state reads it: an edit or a
    revoke of it, its delivery, its resend by the phone, or a batch of history. -/
inductive Carries (r : Receiver) (t : Str) (w : World) : Arrival → Update → Prop where
  | edit {s : Stanza} {text : Option Str} {sealed : Option (Secret → Bool)} (hid : s.id ≠ t)
      (hresent : resent r w s = [])
      (hsaid : said r w s = some (.edited (some t)
        ((Update.edit s.timestamp text sealed).read (secretOf w t)))) :
      Carries r t w (.stanza s) (.edit s.timestamp text sealed)
  | revoke {s : Stanza} (hid : s.id ≠ t) (hresent : resent r w s = [])
      (hsaid : said r w s = some (.revoked (some t))) :
      Carries r t w (.stanza s) .revoke
  | delivery {s : Stanza} {c : Columns} {tells : Bool} (hid : s.id = t)
      (hresent : resent r w s = []) (hcolumns : inboundColumns r s (said r w s) = c)
      (hnames : ∀ target change, said r w s ≠ some (Change.content target change))
      (hvote : ∀ pollId selected, said r w s = some (.pollVote pollId (some selected)) → pollId ≠ t)
      (hfiled : protocolOnly c.msgType = false)
      (htells : tells = true ↔
        c.msgType ≠ undecryptable ∧ ¬Bare (filedEvent r s c (messageRouting r w s)).body) :
      Carries r t w (.stanza s) (.content c (broughtSecret r s) tells)
  | resend {s : Stanza} {m : NewMessage} {tells : Bool} (hid : s.id ≠ t)
      (hresent : resent r w s = [m]) (hkey : m.messageId = t)
      (hsaid : said r w s = some (.typed "protocol" none))
      (htells : tells = true ↔ ∃ e ∈ resentEvents r w s, ¬Bare e.body) :
      Carries r t w (.stanza s) (.content m.columns none tells)
  | history {conversations : List Conversation} :
      Carries r t w (.history conversations) .history

/-- The mappings that an arrival teaches. -/
def Arrival.learn (r : Receiver) (table : List LidPnRow) : Arrival → List LidPnRow
  | stanza s => captureLidPnMappings r.sessionId table s
  | history _ => table

/-- The chats in which an arrival files the message. -/
def Arrival.chats (r : Receiver) (table : List LidPnRow) (t : Str) : Arrival → List Str
  | stanza s =>
      let learned := captureLidPnMappings r.sessionId table s
      (((resentItems r s).filterMap (resentMessage r learned)).filter
          fun m => m.messageId = t).map (·.chatJid) ++
        if s.id = t then
          [canonicalUserJid learned r.sessionId
            (((s.message r).bind deviceSentDestination).getD s.source)]
        else []
  | history conversations =>
      ((parseHistorySyncPayload r.wire.base64 conversations).filter
        fun m => m.messageId = t).map (·.chatJid)

/-- What is told of a message: under its id, or as an edit of it. -/
def About (t : Str) (e : Event) : Prop :=
  e.id = t ∨ Members.get e.body "edits".toList = some (.str t)

/-! ## 2. The rows of an id -/

def rowsOf (id : Str) (rows : List Row) : List Row := rows.filter fun row => row.messageId = id

theorem mem_rowsOf {id : Str} {rows : List Row} {row : Row} :
    row ∈ rowsOf id rows ↔ row ∈ rows ∧ row.messageId = id := by
  simp [rowsOf]

theorem rowsOf_map {id : Str} {f : Row → Row} (h : ∀ row, (f row).messageId = row.messageId)
    (rows : List Row) : rowsOf id (rows.map f) = (rowsOf id rows).map f := by
  unfold rowsOf
  rw [List.filter_map]
  exact congrArg _ (List.filter_congr fun row _ => by simp [h row])

theorem heal_key (m : NewMessage) (row : Row) :
    (m.heal row).messageId = row.messageId ∧ (m.heal row).chatJid = row.chatJid := by
  unfold NewMessage.heal
  split <;> exact ⟨rfl, rfl⟩

/-- A message looks for a row among those of its id. -/
theorem rowsOf_any (m : NewMessage) (rows : List Row) :
    (rowsOf m.messageId rows).any (fun row => row.HasKey m.chatJid m.messageId) =
      rows.any fun row => row.HasKey m.chatJid m.messageId := by
  rw [Bool.eq_iff_iff, List.any_eq_true, List.any_eq_true]
  constructor
  · rintro ⟨row, hrow, hkey⟩
    exact ⟨row, (mem_rowsOf.mp hrow).1, hkey⟩
  · rintro ⟨row, hrow, hkey⟩
    exact ⟨row, mem_rowsOf.mpr ⟨hrow, (of_decide_eq_true hkey).2⟩, hkey⟩

theorem rowsOf_row {id : Str} (m : NewMessage) :
    rowsOf id [m.row] = if m.messageId = id then [m.row] else [] := by
  by_cases h : m.messageId = id
  · rw [if_pos h]
    exact List.filter_cons_of_pos (decide_eq_true h)
  · rw [if_neg h]
    exact List.filter_cons_of_neg fun hid => h (of_decide_eq_true hid)

theorem rowsOf_insert_other {id : Str} {m : NewMessage} (h : m.messageId ≠ id) (rows : List Row) :
    rowsOf id (messageInsert rows m) = rowsOf id rows := by
  unfold messageInsert
  split
  · rw [rowsOf_map fun row => (heal_key m row).1]
    refine (List.map_congr_left fun row hrow => ?_).trans (List.map_id _)
    exact if_neg fun hheal => h (hheal.1.2.symm.trans (mem_rowsOf.mp hrow).2)
  · unfold rowsOf
    rw [List.filter_append]
    exact (congrArg _ ((rowsOf_row m).trans (if_neg h))).trans (List.append_nil _)

theorem rowsOf_insert_own {id : Str} {m : NewMessage} (h : m.messageId = id) (rows : List Row) :
    rowsOf id (messageInsert rows m) = messageInsert (rowsOf id rows) m := by
  subst h
  unfold messageInsert
  rw [rowsOf_any]
  split
  · exact rowsOf_map (fun row => (heal_key m row).1) rows
  · unfold rowsOf
    rw [List.filter_append]
    exact congrArg _ ((rowsOf_row m).trans (if_pos rfl))

/-- Of several messages those with the id are put into its rows. -/
theorem rowsOf_foldl (id : Str) (ms : List NewMessage) (rows : List Row) :
    rowsOf id (ms.foldl messageInsert rows) =
      (ms.filter fun m => m.messageId = id).foldl messageInsert (rowsOf id rows) := by
  induction ms generalizing rows with
  | nil => rfl
  | cons m ms ih =>
      rw [List.foldl_cons, ih]
      by_cases h : m.messageId = id
      · rw [rowsOf_insert_own h, List.filter_cons_of_pos (by simpa using h), List.foldl_cons]
      · rw [rowsOf_insert_other h, List.filter_cons_of_neg (by simpa using h)]

theorem target_key (content : Option InboundContent) (row : Row) :
    (row.target content).messageId = row.messageId := by
  unfold Row.target
  split
  · unfold Row.edit
    split <;> rfl
  · unfold Row.revoke
    split <;> rfl
  · rfl

/-- The message that is edited, revoked or voted on. -/
def named : Option InboundContent → Option Str
  | some (.edited target _) => target
  | some (.revoked target) => target
  | some (.pollVote pollId (some _)) => some pollId
  | _ => none

theorem target_chat (content : Option InboundContent) (row : Row) :
    (row.target content).chatJid = row.chatJid := by
  unfold Row.target
  split
  · unfold Row.edit
    split <;> rfl
  · unfold Row.revoke
    split <;> rfl
  · rfl

theorem target_spared {content : Option InboundContent} {row : Row}
    (h : named content ≠ some row.messageId) : row.target content = row := by
  unfold Row.target
  split
  · exact if_neg fun hid => h (congrArg some hid.symm)
  · exact if_neg fun hid => h (congrArg some hid.symm)
  · rfl

theorem voted_key (chat voter : Str) (content : Option InboundContent) (row : Row) :
    (row.voted chat voter content).messageId = row.messageId := by
  unfold Row.voted
  split
  · unfold Row.tally
    split <;> rfl
  · rfl

theorem voted_spared {chat voter : Str} {content : Option InboundContent} {row : Row}
    (h : named content ≠ some row.messageId) : row.voted chat voter content = row := by
  unfold Row.voted
  split
  · exact if_neg fun hkey => h (congrArg some hkey.2.symm)
  · rfl

/-- What spares the id leaves its rows. -/
theorem rowsOf_map_spared {id : Str} {f : Row → Row}
    (hkey : ∀ row, (f row).messageId = row.messageId)
    (hspared : ∀ row, row.messageId = id → f row = row) (rows : List Row) :
    rowsOf id (rows.map f) = rowsOf id rows := by
  rw [rowsOf_map hkey]
  exact (List.map_congr_left fun row hrow => hspared row (mem_rowsOf.mp hrow).2).trans
    (List.map_id _)

theorem rowsOf_ignore (id : Str) (m : NewMessage) (rows : List Row) :
    rowsOf id (insertOrIgnore rows m) =
      if m.messageId = id then insertOrIgnore (rowsOf id rows) m else rowsOf id rows := by
  by_cases h : m.messageId = id
  · subst h
    rw [if_pos rfl]
    unfold insertOrIgnore
    rw [rowsOf_any]
    split
    · rfl
    · unfold rowsOf
      rw [List.filter_append]
      exact congrArg _ ((rowsOf_row m).trans (if_pos rfl))
  · rw [if_neg h]
    unfold insertOrIgnore
    split
    · rfl
    · unfold rowsOf
      rw [List.filter_append]
      exact (congrArg _ ((rowsOf_row m).trans (if_neg h))).trans (List.append_nil _)

theorem rowsOf_batch (id : Str) (batch : List NewMessage) (rows : List Row) :
    rowsOf id (messagesInsertBatch rows batch) =
      messagesInsertBatch (rowsOf id rows) (batch.filter fun m => m.messageId = id) := by
  induction batch generalizing rows with
  | nil => rfl
  | cons m batch ih =>
      refine (ih (insertOrIgnore rows m)).trans ?_
      rw [rowsOf_ignore]
      by_cases h : m.messageId = id
      · rw [if_pos h, List.filter_cons_of_pos (by simpa using h)]
        rfl
      · rw [if_neg h, List.filter_cons_of_neg (by simpa using h)]

/-- The chats in which the message has a row. -/
def chatsOf (id : Str) (rows : List Row) : List Str := (rowsOf id rows).map (·.chatJid)

/-- A message is appended unless its key is there: no chat goes, and that of the message is there. -/
theorem filed_chats {rows filed : List Row} {m : NewMessage}
    (hsame : filed.map (·.chatJid) = rows.map (·.chatJid)) :
    let after :=
      if rows.any fun row => row.HasKey m.chatJid m.messageId then filed else rows ++ [m.row]
    rows.map (·.chatJid) <+: after.map (·.chatJid) ∧ m.chatJid ∈ after.map (·.chatJid) := by
  intro after
  by_cases hany : (rows.any fun row => row.HasKey m.chatJid m.messageId) = true
  · have hafter : after = filed := if_pos hany
    obtain ⟨row, hrow, hkey⟩ := List.any_eq_true.mp hany
    rw [hafter, hsame]
    exact ⟨List.prefix_rfl, List.mem_map.mpr ⟨row, hrow, (of_decide_eq_true hkey).1⟩⟩
  · have hafter : after = rows ++ [m.row] := if_neg hany
    rw [hafter, List.map_append]
    exact ⟨List.prefix_append _ _, List.mem_append_right _ (List.mem_singleton_self m.chatJid)⟩

theorem insert_chats (rows : List Row) (m : NewMessage) :
    rows.map (·.chatJid) <+: (messageInsert rows m).map (·.chatJid) ∧
      m.chatJid ∈ (messageInsert rows m).map (·.chatJid) := by
  refine filed_chats ?_
  rw [List.map_map]
  exact List.map_congr_left fun row _ => (heal_key m row).2

theorem ignore_chats (rows : List Row) (m : NewMessage) :
    rows.map (·.chatJid) <+: (insertOrIgnore rows m).map (·.chatJid) ∧
      m.chatJid ∈ (insertOrIgnore rows m).map (·.chatJid) :=
  filed_chats rfl

theorem batch_chats (batch : List NewMessage) (rows : List Row) :
    rows.map (·.chatJid) <+: (messagesInsertBatch rows batch).map (·.chatJid) ∧
      ∀ m ∈ batch, m.chatJid ∈ (messagesInsertBatch rows batch).map (·.chatJid) := by
  induction batch generalizing rows with
  | nil => exact ⟨List.prefix_rfl, fun m hm => (nomatch hm)⟩
  | cons m batch ih =>
      obtain ⟨hstays, hthere⟩ := ignore_chats rows m
      obtain ⟨hrest, hall⟩ := ih (insertOrIgnore rows m)
      refine ⟨hstays.trans hrest, fun m' hm' => ?_⟩
      rcases List.mem_cons.mp hm' with rfl | hm'
      · exact hrest.subset hthere
      · exact hall m' hm'

theorem any_known {row : Row} {m : NewMessage} (h : row.HasKey m.chatJid m.messageId) :
    ([row].any fun row => row.HasKey m.chatJid m.messageId) = true :=
  List.any_eq_true.mpr ⟨row, List.mem_singleton_self row, decide_eq_true h⟩

/-- A message is put into the only row, if that has its key. -/
theorem insert_known {row : Row} {m : NewMessage} (h : row.HasKey m.chatJid m.messageId) :
    messageInsert [row] m = [m.heal row] := by
  rw [messageInsert, if_pos (any_known h)]
  rfl

theorem batch_known {row : Row} {batch : List NewMessage}
    (h : ∀ m ∈ batch, row.HasKey m.chatJid m.messageId) :
    messagesInsertBatch [row] batch = [row] := by
  induction batch with
  | nil => rfl
  | cons m batch ih =>
      have hfirst : insertOrIgnore [row] m = [row] := if_pos (any_known (h m List.mem_cons_self))
      refine (congrArg (fun rows => messagesInsertBatch rows batch) hfirst).trans ?_
      exact ih fun m' hm' => h m' (List.mem_cons_of_mem m hm')

/-! ## 3. One arrival -/

section Step

variable {r : Receiver} {w : World} {s : Stanza} {chat t : Str}

theorem applyTarget_none {rows : List Row} {content : Option InboundContent}
    (h : ∀ target change, content ≠ some (Change.content target change)) :
    (applyTarget rows content).1 = false := by
  unfold applyTarget
  split
  · next target text => exact (h target (.edit text) rfl).elim
  · next target => exact (h target .revoke rfl).elim
  · rfl

theorem resentEvents_mem {e : Event} (he : e ∈ resentEvents r w s) :
    ∃ m ∈ resent r w s, e.id = m.messageId := by
  obtain ⟨wmi, hwmi, hevent⟩ := List.mem_filterMap.mp he
  obtain ⟨m, hm, rfl⟩ := Option.map_eq_some_iff.mp hevent
  exact ⟨m, List.mem_filterMap.mpr ⟨wmi, hwmi, hm⟩, rfl⟩

theorem resentEvents_nil (h : resent r w s = []) : resentEvents r w s = [] := by
  refine List.eq_nil_iff_forall_not_mem.mpr fun e he => ?_
  obtain ⟨m, hm, -⟩ := resentEvents_mem he
  rw [h] at hm
  cases hm

theorem secretGet_put (secrets : List MessageSecret) (m : MessageSecret) (t : Str) :
    messageSecretGet (messageSecretPut secrets m) t =
      (messageSecretGet secrets t).or
        (if m.messageId = t then some (m.senderJid, m.secret) else none) := by
  unfold messageSecretGet messageSecretPut
  split
  · next hany =>
      by_cases hid : m.messageId = t
      · subst hid
        obtain ⟨old, hold, hkey⟩ := List.any_eq_true.mp hany
        cases hfind : secrets.find? fun s => s.messageId = m.messageId with
        | none => exact absurd hkey (List.find?_eq_none.mp hfind old hold)
        | some s => rfl
      · rw [if_neg hid, Option.or_none]
  · rw [List.find?_append]
    cases hfind : secrets.find? fun s => s.messageId = t with
    | some s => rfl
    | none =>
        by_cases hid : m.messageId = t
        · simp [hid]
        · simp [hid]

/-- The secret of another message stays, and that of the message itself is the first. -/
theorem secretOf_process :
    secretOf (processInboundMessage r w s) t =
      (secretOf w t).or (if s.id = t then broughtSecret r s else none) := by
  unfold secretOf
  rw [(process_frame r w s).2.2.2.2]
  unfold recordSecret broughtSecret
  cases (s.message r).bind messageSecretFromE2e with
  | none => simp
  | some secret => rw [secretGet_put]; rfl

theorem unsent_rows (h : resent r w s = []) :
    (learnedStore r w s).rows = w.store.rows := by
  unfold learnedStore
  rw [h]
  rfl

/-- An edit or a revoke of a message that is there changes its rows, and is told. -/
theorem process_change (change : Change) (hstored : rowsOf t w.store.rows ≠ [])
    (hresent : resent r w s = []) (hsaid : said r w s = some (change.content t)) :
    rowsOf t (processInboundMessage r w s).store.rows =
        (rowsOf t w.store.rows).map (Row.target (some (change.content t))) ∧
      (processInboundMessage r w s).events = w.events ++
        [⟨s.id, (messageRouting r w s).chatJid, (messageRouting r w s).senderJid,
          targetBody (some (change.content t)) s.pushName (messageRouting r w s).fromMe
            s.timestamp⟩] := by
  obtain ⟨row, hrow⟩ := List.exists_mem_of_ne_nil _ hstored
  have hrows := unsent_rows hresent
  have happlied : (applyTarget (learnedStore r w s).rows (said r w s)).1 = true := by
    rw [hsaid, hrows]
    exact (applied_iff _ t change).mpr ⟨row, mem_rowsOf.mp hrow⟩
  constructor
  · rw [process_eq, settle_applied (before r w s) happlied, hsaid, ← hrows]
    exact rowsOf_map (target_key _) _
  · rw [process_events, resentEvents_nil hresent, settledEvents, if_pos happlied, hsaid,
      List.append_nil]

theorem marker_mem {key : String} (h : key ∈ markers) (value : Json) :
    (member key value).1 ∈ markers.map String.toList := List.mem_map_of_mem h

/-- The notice of an edit tells its text, if it has one. -/
theorem bare_edit_notice {target : Option Str} {text pushName : Option Str} {fromMe : Bool}
    {timestamp : Int} :
    Bare (targetBody (some (.edited target text)) pushName fromMe timestamp) ↔ text = none := by
  unfold Bare targetBody
  simp only [List.mem_append, List.mem_cons, List.not_mem_nil, or_false]
  constructor
  · intro h
    have htext := h (member "text" (jsonText text)) (Or.inl (Or.inr (Or.inl rfl)))
    cases text with
    | none => rfl
    | some x =>
        rcases htext with hmarker | hnull
        · exact absurd hmarker (by decide : "text".toList ∉ markers.map String.toList)
        · cases hnull
  · rintro rfl m ((rfl | rfl | rfl) | rfl | rfl | rfl)
    · exact Or.inl (marker_mem (by decide) _)
    · exact Or.inr rfl
    all_goals exact Or.inl (marker_mem (by decide) _)

theorem take_heal {row : Row} {m : NewMessage} (hkey : row.HasKey m.chatJid m.messageId) :
    m.heal row = row.take m.columns := by
  by_cases h : m.Heals row
  · rw [NewMessage.heal, if_pos h, Row.take, if_pos h.2]
  · rw [NewMessage.heal, if_neg h, Row.take, if_neg fun hh => h ⟨hkey, hh⟩]

/-- Something of the message is told by these events. -/
def Tells (t : Str) (events : List Event) : Prop := ∃ e ∈ events, About t e ∧ ¬Bare e.body

/-- What an arrival leaves of the one row and the secret of the message, and what it tells. -/
structure Stepped (r : Receiver) (w : World) (t : Str) (k : Known) (a : Arrival) (u : Update) :
    Prop where
  row : rowsOf t (arrive r w a).store.rows = [(k.apply u).row]
  secret : secretOf (arrive r w a) t = (k.apply u).secret
  told : ∃ events, (arrive r w a).events = w.events ++ events ∧
    (Tells t events ↔ u.told k.secret = true)

/-- A message that names no other is put among its rows, if it is one to be filed. -/
theorem process_delivery {c : Columns} (hid : s.id = t) (hresent : resent r w s = [])
    (hcolumns : inboundColumns r s (said r w s) = c)
    (hnames : ∀ target change, said r w s ≠ some (Change.content target change))
    (hvote : ∀ pollId selected, said r w s = some (.pollVote pollId (some selected)) → pollId ≠ t)
    (hfiled : protocolOnly c.msgType = false) :
    rowsOf t (processInboundMessage r w s).store.rows =
        messageInsert (rowsOf t w.store.rows) ((messageRouting r w s).message s c) ∧
      (processInboundMessage r w s).events = w.events ++
        if c.msgType = undecryptable then [] else [filedEvent r s c (messageRouting r w s)] := by
  have hnone : ∀ rows, (applyTarget rows (said r w s)).1 = false := fun _ => applyTarget_none hnames
  have hfiled' : ∀ rows, Filed r s (said r w s) rows := fun rows => ⟨hnone rows, hcolumns ▸ hfiled⟩
  constructor
  · have hspared : named (said r w s) ≠ some t := by
      unfold named
      split
      · next target text hsaid =>
          rintro rfl
          exact hnames t (.edit text) hsaid
      · next target hsaid =>
          rintro rfl
          exact hnames t .revoke hsaid
      · next pollId selected hsaid => exact fun h => hvote pollId selected hsaid (Option.some.inj h)
      · exact nofun
    rw [process_eq, settle_filed (before r w s) (hfiled' _), hcolumns]
    refine (rowsOf_map_spared (voted_key _ _ _)
      (fun row hrow => voted_spared (by rwa [hrow])) _).trans ((rowsOf_insert_own hid _).trans ?_)
    exact congrArg (fun rows => messageInsert (rowsOf t rows) _) (unsent_rows hresent)
  · rw [process_events, resentEvents_nil hresent, settledEvents,
      if_neg (by rw [hnone]; exact Bool.false_ne_true), hcolumns, List.append_nil]
    by_cases hu : c.msgType = undecryptable
    · rw [if_pos hu, if_neg fun h => h.2 hu]
    · rw [if_neg hu, if_pos ⟨hfiled' _, hu⟩]

/-- The answer of the phone puts its message among its rows, and is nothing itself. -/
theorem process_resend {m : NewMessage} (hresent : resent r w s = [m]) (hkey : m.messageId = t)
    (hsaid : said r w s = some (.typed "protocol" none)) :
    rowsOf t (processInboundMessage r w s).store.rows =
        messageInsert (rowsOf t w.store.rows) m ∧
      (processInboundMessage r w s).events = w.events ++ resentEvents r w s := by
  have hnone : ∀ rows, (applyTarget rows (said r w s)).1 = false := fun rows => by rw [hsaid]; rfl
  have hprotocol : protocolOnly (inboundColumns r s (said r w s)).msgType = true := by
    rw [hsaid]
    rfl
  constructor
  · rw [process_eq, settle_protocol (before r w s) (hnone _) hprotocol]
    have hrows : (before r w s).store.rows = messageInsert w.store.rows m :=
      congrArg (fun ms => ms.foldl messageInsert w.store.rows) hresent
    rw [hrows]
    exact rowsOf_insert_own hkey _
  · rw [process_events, settledEvents, if_neg (by rw [hnone]; exact Bool.false_ne_true),
      if_neg fun h => Bool.false_ne_true (h.1.2.symm.trans hprotocol), List.append_nil]

/-- A stanza files what the phone resends in it, and itself. -/
theorem chats_stanza : (Arrival.stanza s).chats r w.store.table t =
    ((resent r w s).filter fun m => m.messageId = t).map (·.chatJid) ++
      if s.id = t then [(messageRouting r w s).chatJid] else [] := rfl

theorem chats_edit (hid : s.id ≠ t) (hresent : resent r w s = []) :
    (Arrival.stanza s).chats r w.store.table t = [] := by
  rw [chats_stanza, hresent, if_neg hid]
  rfl

theorem chats_delivery (hid : s.id = t) (hresent : resent r w s = []) :
    (Arrival.stanza s).chats r w.store.table t = [(messageRouting r w s).chatJid] := by
  rw [chats_stanza, hresent, if_pos hid]
  rfl

theorem chats_resend {m : NewMessage} (hid : s.id ≠ t) (hresent : resent r w s = [m])
    (hkey : m.messageId = t) : (Arrival.stanza s).chats r w.store.table t = [m.chatJid] := by
  rw [chats_stanza, hresent, if_neg hid, List.filter_cons_of_pos (by simpa using hkey)]
  rfl

/-- **A message has rows in the chats where it had some, and where it is filed.** -/
theorem arrive_chats {a : Arrival} {u : Update} (hstored : rowsOf t w.store.rows ≠ [])
    (h : Carries r t w a u) :
    chatsOf t w.store.rows <+: chatsOf t (arrive r w a).store.rows ∧
      ∀ c ∈ a.chats r w.store.table t, c ∈ chatsOf t (arrive r w a).store.rows := by
  have hchange : ∀ {s : Stanza} (change : Change), s.id ≠ t → resent r w s = [] →
      said r w s = some (change.content t) →
        chatsOf t w.store.rows <+: chatsOf t (arrive r w (.stanza s)).store.rows ∧
          ∀ c ∈ (Arrival.stanza s).chats r w.store.table t,
            c ∈ chatsOf t (arrive r w (.stanza s)).store.rows := by
    intro s change hid hresent hsaid
    have hsame : chatsOf t (arrive r w (.stanza s)).store.rows = chatsOf t w.store.rows := by
      unfold chatsOf
      rw [arrive, (process_change change hstored hresent hsaid).1, List.map_map]
      exact List.map_congr_left fun row _ => target_chat _ row
    rw [hsame, chats_edit hid hresent]
    exact ⟨List.prefix_rfl, fun c hc => (nomatch hc)⟩
  cases h with
  | edit hid hresent hsaid => exact hchange (.edit _) hid hresent hsaid
  | revoke hid hresent hsaid => exact hchange .revoke hid hresent hsaid
  | delivery hid hresent hcolumns hnames hvote hfiled htells =>
      unfold chatsOf
      rw [arrive, (process_delivery hid hresent hcolumns hnames hvote hfiled).1,
        chats_delivery hid hresent]
      obtain ⟨hstays, hthere⟩ := insert_chats (rowsOf t w.store.rows)
        ((messageRouting r w _).message _ _)
      exact ⟨hstays, fun c hc => List.mem_singleton.mp hc ▸ hthere⟩
  | resend hid hresent hkey hsaid htells =>
      unfold chatsOf
      rw [arrive, (process_resend hresent hkey hsaid).1, chats_resend hid hresent hkey]
      obtain ⟨hstays, hthere⟩ := insert_chats (rowsOf t w.store.rows) _
      exact ⟨hstays, fun c hc => List.mem_singleton.mp hc ▸ hthere⟩
  | history =>
      unfold chatsOf
      rw [arrive, rowsOf_batch]
      obtain ⟨hstays, hthere⟩ := batch_chats _ (rowsOf t w.store.rows)
      refine ⟨hstays, fun c hc => ?_⟩
      obtain ⟨m, hm, rfl⟩ := List.mem_map.mp hc
      exact hthere m hm

/-- **What arrives does to the row what its update says**, and tells as much, if it files the message
    nowhere else. -/
theorem arrive_step {row : Row} {a : Arrival} {u : Update} (hrow : rowsOf t w.store.rows = [row])
    (hhome : ∀ c ∈ a.chats r w.store.table t, c = row.chatJid) (h : Carries r t w a u) :
    Stepped r w t ⟨row, secretOf w t⟩ a u := by
  have hstored : rowsOf t w.store.rows ≠ [] := by rw [hrow]; exact List.cons_ne_nil _ _
  have ht : row.messageId = t := (mem_rowsOf.mp (hrow ▸ List.mem_singleton_self row)).2
  cases h with
  | @edit s text sealed hid hresent hsaid =>
      obtain ⟨hafter, hevents⟩ := process_change
        (.edit ((Update.edit s.timestamp text sealed).read (secretOf w t))) hstored hresent hsaid
      refine ⟨?_, ?_, _, hevents, ?_⟩
      · rw [arrive, hafter, hrow]
        exact congrArg (fun row => [row]) (if_pos ht)
      · rw [arrive, secretOf_process, if_neg hid, Option.or_none]
        rfl
      · unfold Tells
        simp only [List.mem_singleton, exists_eq_left]
        rw [Change.content, bare_edit_notice, ← ne_eq, ← Option.isSome_iff_ne_none]
        exact ⟨fun h => h.2, fun h => ⟨Or.inr rfl, h⟩⟩
  | @revoke s hid hresent hsaid =>
      obtain ⟨hafter, hevents⟩ := process_change .revoke hstored hresent hsaid
      refine ⟨?_, ?_, _, hevents, ?_⟩
      · rw [arrive, hafter, hrow]
        exact congrArg (fun row => [row]) (if_pos ht)
      · rw [arrive, secretOf_process, if_neg hid, Option.or_none]
        rfl
      · unfold Tells
        simp only [List.mem_singleton, exists_eq_left]
        refine ⟨fun h => ?_, fun h => Bool.noConfusion h⟩
        rcases h.1 with hsame | hedits
        · exact absurd hsame hid
        · cases hedits
  | @delivery s c tells hid hresent hcolumns hnames hvote hfiled htells =>
      rw [chats_delivery hid hresent] at hhome
      have hkey : row.HasKey (messageRouting r w s).chatJid s.id :=
        ⟨(hhome _ (List.mem_singleton_self _)).symm, ht.trans hid.symm⟩
      obtain ⟨hafter, hevents⟩ := process_delivery hid hresent hcolumns hnames hvote hfiled
      refine ⟨?_, ?_, _, hevents, ?_⟩
      · rw [arrive, hafter, hrow, insert_known hkey, take_heal hkey]
        rfl
      · rw [arrive, secretOf_process, if_pos hid]
        rfl
      · rw [show Update.told _ (.content c (broughtSecret r s) tells) = tells from rfl, htells]
        unfold Tells
        split
        · next hu => simp [hu]
        · next hu =>
            simp only [List.mem_singleton, exists_eq_left]
            exact ⟨fun h => ⟨hu, h.2⟩, fun h => ⟨Or.inl hid, h.2⟩⟩
  | @resend s m tells hid hresent hkey hsaid htells =>
      rw [chats_resend hid hresent hkey] at hhome
      have hkey' : row.HasKey m.chatJid m.messageId :=
        ⟨(hhome _ (List.mem_singleton_self _)).symm, ht.trans hkey.symm⟩
      obtain ⟨hafter, hevents⟩ := process_resend hresent hkey hsaid
      refine ⟨?_, ?_, _, hevents, ?_⟩
      · rw [arrive, hafter, hrow, insert_known hkey', take_heal hkey']
        rfl
      · rw [arrive, secretOf_process, if_neg hid]
        rfl
      · rw [show Update.told _ (.content m.columns none tells) = tells from rfl, htells]
        unfold Tells
        refine exists_congr fun e => and_congr_right fun he => ?_
        obtain ⟨m', hm', hide⟩ := resentEvents_mem he
        rw [hresent] at hm'
        obtain rfl := List.mem_singleton.mp hm'
        exact ⟨fun h => h.2, fun h => ⟨Or.inl (hide.trans hkey), h⟩⟩
  | @history conversations =>
      refine ⟨?_, rfl, [], (List.append_nil _).symm, ?_⟩
      · rw [arrive, rowsOf_batch, hrow]
        refine batch_known fun m hm => ⟨?_, ht.trans ?_⟩
        · exact (hhome _ (List.mem_map_of_mem hm)).symm
        · exact (of_decide_eq_true (List.mem_filter.mp hm).2).symm
      · constructor
        · intro h
          obtain ⟨e, he, -⟩ := h
          cases he
        · intro h
          cases h

/-- An arrival teaches its mappings. -/
theorem arrive_table (a : Arrival) : (arrive r w a).store.table = a.learn r w.store.table := by
  cases a with
  | stanza s => exact (process_frame r w s).2.2.2.1
  | history conversations => rfl

end Step

/-! ## 4. Every order -/

/-- Something that arrives, and what it is to the message. -/
structure Item where
  arrival : Arrival
  update : Update

def runItems (r : Receiver) (w : World) (items : List Item) : World :=
  items.foldl (fun w x => arrive r w x.arrival) w

/-- The mappings after these items. -/
def tableAfter (r : Receiver) (table : List LidPnRow) (items : List Item) : List LidPnRow :=
  items.foldl (fun table x => x.arrival.learn r table) table

/-- In every state that an order of these items leads to, the next of them is to the message what is
    said of it. -/
def AllCarry (r : Receiver) (w : World) (t : Str) (items : List Item) : Prop :=
  ∀ (pre post : List Item) (x : Item), (pre ++ x :: post).Perm items →
    Carries r t (runItems r w pre) x.arrival x.update

/-- Whatever files the message files it in this chat, under the mappings that any of the others may
    have taught before. -/
def AllHome (r : Receiver) (table : List LidPnRow) (chat t : Str) (items : List Item) : Prop :=
  ∀ (pre post : List Item) (x : Item), (pre ++ x :: post).Perm items →
    ∀ c ∈ x.arrival.chats r (tableAfter r table pre) t, c = chat

/-- What arrives last tells. -/
def toldBy (r : Receiver) (w : World) (a : Arrival) : List Event :=
  (arrive r w a).events.drop w.events.length

/-- **Every order of the items leaves the same row and no other of the message**, with the text of
    the latest edit if nothing revokes it; and once it is revoked, its rows are hidden and nothing is
    told of it. -/
structure RowConverges (r : Receiver) (w : World) (t : Str) (items : List Item) : Prop where
  same : ∃ row : Row,
    (∀ order : List Item, order.Perm items →
      rowsOf t (runItems r w order).store.rows = [row]) ∧
      (Update.revoke ∉ items.map Item.update →
        (∃ u ∈ items.map Item.update, u.isEdit = true) →
          LatestText (items.map Item.update) row.bodyText)
  hidden : ∀ pre post : List Item, (pre ++ post).Perm items →
    Update.revoke ∈ pre.map Item.update →
      ∀ row ∈ rowsOf t (runItems r w pre).store.rows, row.Hidden
  silent : ∀ (pre post : List Item) (x : Item), (pre ++ x :: post).Perm items →
    Update.revoke ∈ pre.map Item.update → ¬Tells t (toldBy r (runItems r w pre) x.arrival)

/-- **The message has one row, which all that files it means, and on which all agree.** -/
def AllAgree (r : Receiver) (w : World) (t : Str) (items : List Item) : Prop :=
  ∃ row, rowsOf t w.store.rows = [row] ∧ AllHome r w.store.table row.chatJid t items ∧
    Agreeable ⟨row, secretOf w t⟩ (items.map Item.update)

section Runs

variable {r : Receiver} {w : World} {t : Str} {row : Row} {items : List Item}

theorem runItems_append (pre post : List Item) :
    runItems r w (pre ++ post) = runItems r (runItems r w pre) post := List.foldl_append ..

theorem run_table (pre : List Item) :
    (runItems r w pre).store.table = tableAfter r w.store.table pre := by
  induction pre using List.reverseRecOn with
  | nil => rfl
  | append_singleton pre x ih =>
      have hafter : tableAfter r w.store.table (pre ++ [x]) =
          x.arrival.learn r (tableAfter r w.store.table pre) := List.foldl_append ..
      rw [runItems_append, hafter, ← ih]
      exact arrive_table x.arrival

theorem chatsOf_eq_nil {rows : List Row} : chatsOf t rows = [] ↔ rowsOf t rows = [] :=
  List.map_eq_nil_iff

/-- No chat in which the message has a row goes in a run. -/
theorem run_chats (hcarry : AllCarry r w t items) (pre mid post : List Item)
    (hperm : (pre ++ mid ++ post).Perm items)
    (hthere : rowsOf t (runItems r w pre).store.rows ≠ []) :
    rowsOf t (runItems r w (pre ++ mid)).store.rows ≠ [] ∧
      chatsOf t (runItems r w pre).store.rows <+:
        chatsOf t (runItems r w (pre ++ mid)).store.rows := by
  induction mid using List.reverseRecOn generalizing post with
  | nil =>
      rw [List.append_nil]
      exact ⟨hthere, List.prefix_rfl⟩
  | append_singleton mid x ih =>
      have hperm' : (pre ++ mid ++ x :: post).Perm items := by
        rwa [← List.append_assoc, List.append_assoc (pre ++ mid)] at hperm
      obtain ⟨hbefore, hchats⟩ := ih (x :: post) hperm'
      have hall := hchats.trans (arrive_chats hbefore (hcarry (pre ++ mid) post x hperm')).1
      rw [← List.append_assoc, runItems_append]
      refine ⟨fun hnil => hthere ?_, hall⟩
      have hempty : chatsOf t (arrive r (runItems r w (pre ++ mid)) x.arrival).store.rows = [] :=
        chatsOf_eq_nil.mpr hnil
      rw [hempty] at hall
      exact chatsOf_eq_nil.mp (List.prefix_nil.mp hall)

/-- **If one row is left of the message in every order, it had one, and all file it there.** -/
theorem home_of_one (hstored : rowsOf t w.store.rows ≠ []) (hcarry : AllCarry r w t items)
    {last : Row} (hall : ∀ order : List Item, order.Perm items →
      rowsOf t (runItems r w order).store.rows = [last]) :
    ∃ row, rowsOf t w.store.rows = [row] ∧ AllHome r w.store.table row.chatJid t items := by
  have hend : ∀ order : List Item, order.Perm items →
      chatsOf t (runItems r w order).store.rows = [last.chatJid] := fun order horder => by
    unfold chatsOf
    rw [hall order horder]
    rfl
  have hfirst : chatsOf t w.store.rows = [last.chatJid] := by
    have hrun := (run_chats hcarry [] items [] (by rw [List.append_nil]; rfl) hstored).2
    rw [List.nil_append, hend items (List.Perm.refl items)] at hrun
    exact hrun.eq_of_length_le (List.length_pos_iff.mpr (mt chatsOf_eq_nil.mp hstored))
  obtain ⟨row, hrow, hchat⟩ := List.map_eq_singleton_iff.mp hfirst
  refine ⟨row, hrow, fun pre post x hperm c hc => ?_⟩
  have hthere := (run_chats hcarry [] pre (x :: post) hperm hstored).1
  have hfiled := (arrive_chats hthere (hcarry pre post x hperm)).2
  have hnext : (pre ++ [x] ++ post).Perm items := by
    rwa [List.append_assoc]
  obtain ⟨hthere', -⟩ := run_chats hcarry [] (pre ++ [x]) post hnext hstored
  have hrest := (run_chats hcarry (pre ++ [x]) post [] (by rwa [List.append_nil]) hthere').2
  rw [hend _ hnext, runItems_append] at hrest
  rw [List.nil_append, run_table] at hfiled
  exact (List.mem_singleton.mp (hrest.subset (hfiled c hc))).trans hchat.symm

/-- What a run leaves of the row and of the secret. -/
theorem run_sim (hrow : rowsOf t w.store.rows = [row])
    (hhome : AllHome r w.store.table row.chatJid t items) (hcarry : AllCarry r w t items)
    (pre post : List Item) (hperm : (pre ++ post).Perm items) :
    rowsOf t (runItems r w pre).store.rows =
        [((pre.map Item.update).foldl Known.apply ⟨row, secretOf w t⟩).row] ∧
      secretOf (runItems r w pre) t =
        ((pre.map Item.update).foldl Known.apply ⟨row, secretOf w t⟩).secret := by
  induction pre using List.reverseRecOn generalizing post with
  | nil => exact ⟨hrow, rfl⟩
  | append_singleton pre x ih =>
      have hperm' : (pre ++ x :: post).Perm items := by
        rwa [List.append_assoc] at hperm
      obtain ⟨hbefore, hsecret⟩ := ih (x :: post) hperm'
      obtain ⟨-, -, hchat, -⟩ := marks_fold (pre.map Item.update) ⟨row, secretOf w t⟩
      have hstep := arrive_step hbefore (fun c hc => (hhome pre post x hperm' c
        (run_table pre ▸ hc)).trans hchat.symm) (hcarry pre post x hperm')
      rw [hsecret] at hstep
      rw [runItems_append, List.map_append, List.foldl_append]
      exact ⟨hstep.row, hstep.secret⟩

/-- What is told after a run. -/
theorem toldBy_sim (hrow : rowsOf t w.store.rows = [row])
    (hhome : AllHome r w.store.table row.chatJid t items) (hcarry : AllCarry r w t items)
    {pre post : List Item} {x : Item} (hperm : (pre ++ x :: post).Perm items) :
    Tells t (toldBy r (runItems r w pre) x.arrival) ↔
      x.update.told ((pre.map Item.update).foldl Known.apply ⟨row, secretOf w t⟩).secret = true := by
  obtain ⟨hbefore, hsecret⟩ := run_sim hrow hhome hcarry pre (x :: post) hperm
  obtain ⟨-, -, hchat, -⟩ := marks_fold (pre.map Item.update) ⟨row, secretOf w t⟩
  obtain ⟨events, hevents, htold⟩ := (arrive_step hbefore (fun c hc => (hhome pre post x hperm c
    (run_table pre ▸ hc)).trans hchat.symm) (hcarry pre post x hperm)).told
  rw [← hsecret, ← htold, toldBy, hevents, List.drop_left]

variable (hrow : rowsOf t w.store.rows = [row])
  (hhome : AllHome r w.store.table row.chatJid t items) (hcarry : AllCarry r w t items)

include hrow hhome hcarry

/-- The row converges as its updates do. -/
theorem rowConverges_iff_converges :
    RowConverges r w t items ↔ Converges ⟨row, secretOf w t⟩ (items.map Item.update) := by
  constructor
  · rintro ⟨⟨last, hall, hlatest⟩, hhidden, hsilent⟩
    refine ⟨⟨last, fun order horder => ?_, hlatest⟩, ?_, ?_⟩
    · obtain ⟨items', hperm, rfl⟩ := perm_map_lift horder.symm
      have hrun := (run_sim hrow hhome hcarry items' [] (by rwa [List.append_nil])).1
      exact List.singleton_inj.mp (hrun.symm.trans (hall items' hperm))
    · intro pre post hperm hrevoke
      obtain ⟨items', hperm', hmap⟩ := perm_map_lift hperm.symm
      obtain ⟨pre', post', rfl, rfl, rfl⟩ := List.map_eq_append_iff.mp hmap
      refine hhidden pre' post' hperm' hrevoke _ ?_
      rw [(run_sim hrow hhome hcarry pre' post' hperm').1]
      exact List.mem_singleton_self _
    · intro pre post u hperm hrevoke
      obtain ⟨items', hperm', hmap⟩ := perm_map_lift hperm.symm
      obtain ⟨pre', rest, rfl, rfl, hrest⟩ := List.map_eq_append_iff.mp hmap
      obtain ⟨x, post', rfl, rfl, rfl⟩ := List.map_eq_cons_iff.mp hrest
      have hno := hsilent pre' post' x hperm' hrevoke
      rw [toldBy_sim hrow hhome hcarry hperm'] at hno
      exact Bool.eq_false_iff.mpr hno
  · rintro ⟨⟨last, hall, hlatest⟩, hhidden, hsilent⟩
    refine ⟨⟨last, fun order horder => ?_, hlatest⟩, ?_, ?_⟩
    · rw [(run_sim hrow hhome hcarry order [] (by rwa [List.append_nil])).1,
        hall _ (horder.map Item.update)]
    · intro pre post hperm hrevoke last' hlast
      rw [(run_sim hrow hhome hcarry pre post hperm).1] at hlast
      obtain rfl := List.mem_singleton.mp hlast
      refine hhidden _ (post.map Item.update) ?_ hrevoke
      rw [← List.map_append]
      exact hperm.map Item.update
    · intro pre post x hperm hrevoke
      rw [toldBy_sim hrow hhome hcarry hperm]
      refine Bool.eq_false_iff.mp (hsilent _ (post.map Item.update) _ ?_ hrevoke)
      rw [← List.map_cons, ← List.map_append]
      exact hperm.map Item.update

end Runs

/-- **The row of a message converges, and a revoke is the end of it, exactly when all that write it
    agree**, and all of them on which row it is. -/
theorem row_converges_iff (r : Receiver) (w : World) (t : Str) (items : List Item)
    (hstored : ∃ row ∈ w.store.rows, row.messageId = t) (hcarry : AllCarry r w t items) :
    RowConverges r w t items ↔ AllAgree r w t items := by
  have hrows : rowsOf t w.store.rows ≠ [] := by
    obtain ⟨row, hrow⟩ := hstored
    exact List.ne_nil_of_mem (mem_rowsOf.mpr hrow)
  constructor
  · intro h
    obtain ⟨last, hall, -⟩ := h.same
    obtain ⟨row, hrow, hhome⟩ := home_of_one hrows hcarry hall
    exact ⟨row, hrow, hhome,
      (converges_iff _ _).mp ((rowConverges_iff_converges hrow hhome hcarry).mp h)⟩
  · rintro ⟨row, hrow, hhome, hagree⟩
    exact (rowConverges_iff_converges hrow hhome hcarry).mpr ((converges_iff _ _).mpr hagree)

/-- What stands in an order is one of the items. -/
theorem mem_order {pre post : List Item} {x : Item} {items : List Item}
    (h : (pre ++ x :: post).Perm items) : x ∈ items :=
  h.mem_iff.mp (List.mem_append_right _ List.mem_cons_self)

namespace Sample

open ProtoWire

/-- The contact's message as it was delivered. -/
def hello : Row :=
  { theirs with payload := some (.obj [member "type" (.str "text".toList),
      member "text" (.str "hello".toList), member "enc_type" (.str "msg".toList)]) }

def editBytes (text : String) : Bytes :=
  encodeFields [(12, .bytes (encodeFields [(1, .bytes (keyBytes (jidOf stranger) "THEIRS")),
    (2, .num 14), (14, .bytes (textBytes text))]))]

def editControl : ProtocolMessage :=
  { key := some (messageKey (jidOf stranger) "THEIRS"), type := some 14 }

def edit (text : String) : Message :=
  { content := { protocol := some editControl }, protocolEdited := some (textMessage text) }

def updating : Receiver :=
  receiver [(editBytes "one", edit "one"), (editBytes "two", edit "two"),
    (revokeBytes (jidOf stranger) "THEIRS", revoke (jidOf stranger) "THEIRS")] []

/-- An edit of the message that was sent then. -/
def edited (sentAt : Int) (text : String) : Item where
  arrival := .stanza { command (editBytes text) with timestamp := sentAt }
  update := .edit sentAt (some text.toList) none

def revoked : Item where
  arrival := .stanza revokeOfTheirs
  update := .revoke

def first : Item := edited 1700000200 "one"

def second : Item := edited 1700000300 "two"

/-- The message in a batch of the history of this chat. -/
def backfill (chat : Str) : Item where
  arrival := .history [⟨some chat, [some
    { key := some (messageKey chat "THEIRS"), message := some (textMessage "hello")
      participant := none, pushName := none, messageTimestamp := some 1700000001 }]⟩]
  update := .history

def lidChat : Str := "271001122".toList ++ lidServer

/-- A message of which the payload says no more than its type. -/
def bare : Row := { theirs with payload := some (.obj [member "type" (.str "text".toList)]) }

end Sample

/-- **Two edits in two orders leave two texts**, a revoke leaves the text in the payload, and a batch
    of history under another name of the chat brings back what was revoked. -/
theorem updates_diverge :
    (AllCarry Sample.updating (Sample.world [Sample.hello]) "THEIRS".toList
        [Sample.first, Sample.second] ∧
      ¬RowConverges Sample.updating (Sample.world [Sample.hello]) "THEIRS".toList
        [Sample.first, Sample.second]) ∧
      (AllCarry Sample.updating (Sample.world [Sample.hello]) "THEIRS".toList [Sample.revoked] ∧
        ¬RowConverges Sample.updating (Sample.world [Sample.hello]) "THEIRS".toList
          [Sample.revoked]) ∧
      AllCarry Sample.updating (Sample.world [Sample.bare]) "THEIRS".toList
        [Sample.revoked, Sample.backfill Sample.lidChat] ∧
      ¬RowConverges Sample.updating (Sample.world [Sample.bare]) "THEIRS".toList
        [Sample.revoked, Sample.backfill Sample.lidChat] := by
  refine ⟨⟨fun pre post x hperm => ?_, fun h => ?_⟩, ⟨fun pre post x hperm => ?_, fun h => ?_⟩,
    fun pre post x hperm => ?_, fun h => ?_⟩
  · rcases List.mem_cons.mp (mem_order hperm) with rfl | hx
    · exact Carries.edit (by decide) rfl rfl
    · obtain rfl := List.mem_singleton.mp hx
      exact Carries.edit (by decide) rfl rfl
  · obtain ⟨row, hall, -⟩ := h.same
    have hforth : (rowsOf "THEIRS".toList (runItems Sample.updating (Sample.world [Sample.hello])
        [Sample.first, Sample.second]).store.rows).map (·.bodyText) = [some "two".toList] := by
      decide +kernel
    have hback : (rowsOf "THEIRS".toList (runItems Sample.updating (Sample.world [Sample.hello])
        [Sample.second, Sample.first]).store.rows).map (·.bodyText) = [some "one".toList] := by
      decide +kernel
    rw [hall _ (List.Perm.refl _)] at hforth
    rw [hall _ (List.Perm.swap _ _ _)] at hback
    exact absurd (hforth.symm.trans hback) (by decide)
  · obtain rfl := List.mem_singleton.mp (mem_order hperm)
    exact Carries.revoke (by decide) rfl rfl
  · have hhidden := h.hidden [Sample.revoked] [] (List.Perm.refl _) List.mem_cons_self
      { Sample.hello with bodyText := none, revoked := true } List.mem_cons_self
    obtain ⟨ms, hms, hbare⟩ := hhidden.payload
    cases hms
    rcases hbare (member "text" (.str "hello".toList)) (List.mem_cons_of_mem _ List.mem_cons_self)
      with hmarker | hnull
    · exact absurd hmarker (by decide : "text".toList ∉ markers.map String.toList)
    · cases hnull
  · rcases List.mem_cons.mp (mem_order hperm) with rfl | hx
    · exact Carries.revoke (by decide) rfl rfl
    · obtain rfl := List.mem_singleton.mp hx
      exact Carries.history
  · obtain ⟨row, hall, -⟩ := h.same
    have htwo : (rowsOf "THEIRS".toList (runItems Sample.updating (Sample.world [Sample.bare])
        [Sample.revoked, Sample.backfill Sample.lidChat]).store.rows).map (·.bodyText) =
          [none, some "hello".toList] := by decide +kernel
    rw [hall _ (List.Perm.refl _)] at htwo
    cases congrArg List.length htwo

/-- One edit, and a batch of history with the message in it. -/
theorem edit_converges :
    RowConverges Sample.updating (Sample.world [Sample.hello]) "THEIRS".toList
      [Sample.first, Sample.backfill (Sample.jidOf Sample.stranger)] := by
  refine (row_converges_iff Sample.updating (Sample.world [Sample.hello]) "THEIRS".toList
    [Sample.first, Sample.backfill (Sample.jidOf Sample.stranger)]
    ⟨Sample.hello, List.mem_cons_self, rfl⟩ fun pre post x hperm => ?_).mpr
    ⟨Sample.hello, rfl, fun pre post x hperm c hc => ?_, ?_⟩
  · rcases List.mem_cons.mp (mem_order hperm) with rfl | hx
    · exact Carries.edit (by decide) rfl rfl
    · obtain rfl := List.mem_singleton.mp hx
      exact Carries.history
  · rcases List.mem_cons.mp (mem_order hperm) with rfl | hx
    · cases hc
    · obtain rfl := List.mem_singleton.mp hx
      exact List.mem_singleton.mp hc
  · have hno : Update.revoke ∉ [Sample.first,
        Sample.backfill (Sample.jidOf Sample.stranger)].map Item.update := by
      intro h
      rcases List.mem_cons.mp h with h | h
      · cases h
      · cases List.mem_singleton.mp h
    refine ⟨⟨some "one".toList, ⟨?_, fun h => absurd h hno, fun h => absurd h (by decide),
      fun h => absurd h (by decide), ?_⟩, fun _ _ => ?_⟩, fun h => absurd h hno,
      fun h => absurd h hno, fun h => absurd h hno⟩
    · rintro u hu b (hread | ⟨-, s, hs, -⟩)
      · rcases List.mem_cons.mp hu with rfl | hu
        · exact hread
        · obtain rfl := List.mem_singleton.mp hu
          cases hread
      · cases hs
    · exact Or.inr (Or.inr (Or.inr ⟨_, List.mem_cons_self, rfl⟩))
    · refine ⟨1700000200, none, List.mem_cons_self, fun sentAt text sealed h => ?_⟩
      rcases List.mem_cons.mp h with h | h
      · cases h
        exact Int.le_refl _
      · cases List.mem_singleton.mp h

end Ruwa.Session.Inbound
