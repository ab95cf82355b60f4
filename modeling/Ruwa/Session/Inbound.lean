/-
  File:      Ruwa/Session/Inbound.lean
  Subject:   AN INBOUND MESSAGE (`session.rs`, `process_inbound_message`): what is done with it once
             it is decrypted, to the rows, the secrets and the keys of the session.

  Receipts, names of contacts and the media cache are left out. A message that cannot be read is
  announced by another task, after a while.

  * `restoreResentMessage` -- what the phone has sent again is filed under its own key;
  * `decodeInbound` -- a sealed edit and a vote are opened with the secret of their message;
  * `processInboundMessage` -- one message, from the mappings it teaches to the row it leaves;
  * `process_frame`, `process_old`, `process_events` -- what it leaves of the session, what it does
    to a row that was there, and what it tells; `settle_new` is the row that it adds.
-/
import Ruwa.Library.ProtoWire
import Ruwa.Session.Wrappers

namespace Ruwa.Session.Inbound

open Ruwa.Library Ruwa.Crypto

/-! ## 1. The rows -/

/-- A row of the session's messages; the payload is the value of its text, if this is JSON. -/
@[ext] structure Row where
  chatJid : Str
  messageId : Str
  senderJid : Str
  fromMe : Bool
  timestamp : Int
  msgType : String
  bodyText : Option Str
  payload : Option Json
  edited : Bool
  revoked : Bool

def Row.HasKey (row : Row) (chat messageId : Str) : Prop :=
  row.chatJid = chat ∧ row.messageId = messageId

instance (row : Row) (chat messageId : Str) : Decidable (row.HasKey chat messageId) :=
  inferInstanceAs (Decidable (_ ∧ _))

structure NewMessage where
  chatJid : Str
  messageId : Str
  senderJid : Str
  fromMe : Bool
  timestamp : Int
  columns : Columns

def NewMessage.row (m : NewMessage) : Row :=
  ⟨m.chatJid, m.messageId, m.senderJid, m.fromMe, m.timestamp, m.columns.msgType, m.columns.bodyText,
    some (.obj m.columns.payload), false, false⟩

/-- The row could not be decrypted before, and its message can be now. -/
def NewMessage.Heals (m : NewMessage) (row : Row) : Prop :=
  row.HasKey m.chatJid m.messageId ∧ row.msgType = undecryptable ∧
    m.columns.msgType ≠ undecryptable

instance (m : NewMessage) (row : Row) : Decidable (m.Heals row) :=
  inferInstanceAs (Decidable (_ ∧ _))

def NewMessage.heal (m : NewMessage) (row : Row) : Row :=
  if m.Heals row then
    { row with
      msgType := m.columns.msgType
      bodyText := m.columns.bodyText
      payload := some (.obj m.columns.payload) }
  else row

/-- `message_insert` with `ignore_conflict` -/
def messageInsert (rows : List Row) (m : NewMessage) : List Row :=
  if rows.any fun row => row.HasKey m.chatJid m.messageId then rows.map m.heal
  else rows ++ [m.row]

def Row.edit (target : Str) (newBody : Option Str) (row : Row) : Row :=
  if row.messageId = target then
    { row with bodyText := newBody.or row.bodyText, edited := true }
  else row

/-- The row of the id in any chat; whether there is one. -/
def messageMarkEdited (rows : List Row) (target : Str) (newBody : Option Str) : Bool × List Row :=
  (rows.any fun row => row.messageId = target, rows.map (Row.edit target newBody))

def Row.revoke (target : Str) (row : Row) : Row :=
  if row.messageId = target then { row with bodyText := none, revoked := true } else row

def messageMarkRevoked (rows : List Row) (target : Str) : Bool × List Row :=
  (rows.any fun row => row.messageId = target, rows.map (Row.revoke target))

/-- `apply_poll_vote`: the voter's choice in the payload of the poll. -/
def Row.tally (chat pollId voter : Str) (selected : List Str) (row : Row) : Row :=
  if row.HasKey chat pollId then
    { row with
      payload := some (Poll.mergePayload row.payload
        [(Poll.pollVotes, .obj (Poll.recount (Poll.tally row.payload) voter selected))]) }
  else row

/-- The rows with an id, as votes read them. -/
def pollRows (rows : List Row) (pollId : Str) : Poll.PollRows := fun chat =>
  (rows.find? fun row => row.HasKey chat pollId).map fun row => ⟨row.msgType, row.payload⟩

/-! ## 2. The session -/

/-- The secret of a message, with the sender it came from. -/
structure MessageSecret where
  messageId : Str
  senderJid : Str
  secret : Bytes
  deriving DecidableEq

structure Store where
  table : List LidPnRow
  rows : List Row
  secrets : List MessageSecret
  /-- The app-state keys in the order they were stored. -/
  appStateKeys : List (Bytes × Bytes)
  historySyncedAt : Option Int

/-- `INSERT OR IGNORE` -/
def messageSecretPut (secrets : List MessageSecret) (s : MessageSecret) : List MessageSecret :=
  if secrets.any fun old => old.messageId = s.messageId then secrets else secrets ++ [s]

def messageSecretGet (secrets : List MessageSecret) (messageId : Str) : Option (Str × Bytes) :=
  (secrets.find? fun s => s.messageId = messageId).map fun s => (s.senderJid, s.secret)

structure Event where
  id : Str
  chat : Str
  sender : Str
  body : Members

/-- The session: its store, the history it has begun to fetch, the messages it has restored, and
    what it has told. -/
structure World where
  store : Store
  ingests : List HistorySyncNotification
  restored : List (Str × Str)
  events : List Event

/-- A message as the phone keeps it. -/
structure WebMessageInfo where
  key : Option MessageKey
  message : Option Message
  participant : Option Str
  pushName : Option Str
  messageTimestamp : Option Nat

/-- How protobufs are read and how bytes are written out. -/
structure Wire where
  message : Bytes → Option Message
  webMessageInfo : Bytes → Option WebMessageInfo
  base64 : Bytes → Str
  percentEncode : Str → Str

/-- The message that is quoted and the ad that was tapped, as they are stored. -/
def Wire.quoted (w : Wire) (plain : Bytes) : Option Json :=
  ((w.message plain).bind quotedContextFromE2e).map QuotedContext.json

def Wire.ad (w : Wire) (plain : Bytes) : Option Json :=
  ((w.message plain).bind adContextFromE2e).map AdContext.json

/-- What does not change while a message is processed. -/
structure Receiver where
  H : Hashing
  gcm : AesGcm
  wire : Wire
  order : MostRecent
  sessionId : String
  ownPnUser : Option Str
  skipRedundantHistory : Bool
  connEstablishedAt : Int

/-- A `<message>`: its attributes, and what was decrypted of it. -/
structure Stanza where
  id : Str
  source : Str
  participant : Option Str
  recipient : Option Str := none
  senderPn : Option Str := none
  senderLid : Option Str := none
  peerRecipientPn : Option Str := none
  peerRecipientLid : Option Str := none
  participantPn : Option Str := none
  participantLid : Option Str := none
  timestamp : Int
  notify : Option Str := none
  encType : Str
  plain : Option Bytes
  now : Int

/-- Its sender: in a group the participant. -/
def Stanza.sender (s : Stanza) : Str := s.participant.getD s.source

def Stanza.pushName (s : Stanza) : Option Str := s.notify.filter fun n => n ≠ [] ∧ n ≠ ['-']

/-! ## 3. The mappings that it teaches -/

def userPart? (jid : Str) : Option UserPart :=
  if h : lidUserPart jid ≠ [] then some ⟨lidUserPart jid, h, fun _ hc => mem_lidUserPart hc⟩
  else none

/-- The LID and the number that an attribute and its counterparts give. -/
def advertised (base pnAlt lidAlt : Option Str) : Option (Str × Str) :=
  base.bind fun jid =>
    if lidServer <:+ jid then pnAlt.map fun pn => (jid, pn)
    else if pnServer <:+ jid then lidAlt.map fun lid => (lid, jid)
    else none

def Stanza.mappings (s : Stanza) : List (Str × Str) :=
  [advertised (some s.source) s.senderPn s.senderLid,
    advertised s.recipient s.peerRecipientPn s.peerRecipientLid,
    advertised s.participant s.participantPn s.participantLid].filterMap fun pair => pair

def putMapping (sessionId : String) (now : Int) (table : List LidPnRow) (pair : Str × Str) :
    List LidPnRow :=
  match userPart? pair.1, userPart? pair.2 with
  | some lid, some pn => lidPnPut table ⟨sessionId, lid, pn, now⟩
  | _, _ => table

def captureLidPnMappings (sessionId : String) (table : List LidPnRow) (s : Stanza) :
    List LidPnRow :=
  s.mappings.foldl (putMapping sessionId s.now) table

/-! ## 4. Sealed edits and votes -/

/-- The key under which a change of a message is sealed. -/
def deriveKey (H : Hashing) (secret : Bytes) (messageId origSender modSender : Str)
    (useCase : String) : U8Array 32 :=
  H.hkdf [] secret (utf8 (String.ofList messageId) ++ utf8 (String.ofList origSender) ++
    utf8 (String.ofList modSender) ++ utf8 useCase) 32

def openSealed (gcm : AesGcm) (key : U8Array 32) (iv ct : Bytes) : Option Bytes :=
  (U8Array.ofBytes? 12 iv).bind fun iv => gcm.decrypt key iv [] ct

/-- The kind of a sealed change, and the use case in its key. -/
def SecretEncType.useCase : SecretEncType → Option (String × String)
  | messageEdit => some ("edited", "Message Edit")
  | eventEdit => some ("edited", "Event Edit")
  | pollEdit => some ("poll_update", "Poll Edit")
  | pollAddOption => some ("poll_update", "Poll Edit")
  | messageSchedule => none

/-- The senders that a change may have been sealed for. -/
def MessageKey.sealers (target : MessageKey) (editor storedSender : Str) : List Str :=
  (if target.fromMe = some true then [editor] else []) ++
    ((nonempty target.remoteJid).map Poll.toNonAdJid).toList ++
    ((nonempty target.participant).map Poll.toNonAdJid).toList ++ [storedSender]

/-- What a sealed change decodes route. -/
def sealedContent (kind : String) (targetId : Str) (text : Option Str) : InboundContent :=
  if kind = "edited" then .edited (some targetId) text else .typed kind text

/-- The text in a sealed change, if it opens under the stored secret. A sender that stands twice in
    a row is tried twice here. -/
def sealedText (r : Receiver) (secrets : List MessageSecret) (target : MessageKey) (targetId : Str)
    (useCase : String) (payload iv : Bytes) (editorJid : Str) : Option Str :=
  (messageSecretGet secrets targetId).bind fun stored =>
    let editor := Poll.toNonAdJid editorJid
    ((target.sealers editor stored.1).findSome? fun origSender =>
      openSealed r.gcm (deriveKey r.H stored.2 targetId origSender editor useCase) iv payload).bind
        fun plain => (r.wire.message plain).bind fun m => (classifyE2eMessage m 0).editText

def decryptSecretEncrypted (r : Receiver) (secrets : List MessageSecret)
    (se : SecretEncryptedMessage) (editorJid : Str) : InboundContent :=
  match se.targetMessageKey with
  | none => .other
  | some target =>
      match nonempty target.id with
      | none => .other
      | some targetId =>
          match se.secretEncType.bind SecretEncType.useCase with
          | none => .other
          | some (kind, useCase) =>
              match se.encPayload, se.encIv with
              | some payload, some iv =>
                  sealedContent kind targetId
                    (sealedText r secrets target targetId useCase payload iv editorJid)
              | _, _ => sealedContent kind targetId none

/-- `decrypt_poll_vote` -/
def openPollVote (r : Receiver) (store : Store) (pu : PollUpdateMessage) (voterJid : Str)
    (chats : List Str) : InboundContent :=
  match nonempty pu.pollId with
  | none => .typed "poll_vote" none
  | some pollId =>
      .pollVote pollId (Poll.decryptPollVote r.H r.order store.table r.sessionId
        (pollRows store.rows pollId) (messageSecretGet store.secrets pollId) pu.vote voterJid chats)

def canonical (r : Receiver) (store : Store) (jid : Str) : Str :=
  canonicalUserJid store.table r.sessionId jid

def decodeInbound (r : Receiver) (store : Store) (s : Stanza) (m : Message) : InboundContent :=
  match classifyE2eMessage m 0 with
  | .other =>
      match secretEncryptedFromE2e m with
      | some se => decryptSecretEncrypted r store.secrets se s.sender
      | none => .other
  | .typed kind text =>
      if kind = "poll_vote" then
        match pollUpdateFromE2e m with
        | some pu =>
            let chatRaw := (deviceSentDestination m).getD s.source
            openPollVote r store pu s.sender [canonical r store chatRaw, Poll.toNonAdJid chatRaw]
        | none => .typed kind text
      else .typed kind text
  | content => content

/-! ## 5. What is told -/

def mediaDescriptor (r : Receiver) (chat messageId : Str) (c : Columns) : Option Json :=
  if ["image", "video", "audio", "ptt", "document", "sticker"].contains c.msgType then
    some (.obj [
      member "mimetype" ((Members.get c.payload "mimetype".toList).getD .null),
      member "ptt" (.bool (c.msgType = "ptt")),
      member "size" ((Members.get c.payload "file_length".toList).getD .null),
      member "url" (.str ("/v1/sessions/".toList ++ r.wire.percentEncode r.sessionId.toList ++
        "/messages/".toList ++ r.wire.percentEncode chat ++ '/' :: r.wire.percentEncode messageId ++
        "/media".toList))])
  else none

/-- The members of a payload that are told, where they are set. -/
def toldMembers (keys : List String) (payload : Members) : Members :=
  keys.filterMap fun key => (Members.get payload key.toList).map (member key)

/-- The labels of a template's buttons, where there are any. -/
def toldButtons (payload : Members) : Members :=
  (((Members.get payload "buttons".toList).filter fun b =>
    (b.asArray.map fun items => !items.isEmpty).getD false).map (member "buttons")).toList

def messageBody (r : Receiver) (chat messageId : Str) (c : Columns) (told : Members)
    (pushName : Option Str) (fromMe : Bool) (timestamp : Int) : Members :=
  [member "type" (.str c.msgType.toList), member "text" (jsonText c.bodyText)] ++
    ((mediaDescriptor r chat messageId c).map (member "media")).toList ++ told ++
    [member "push_name" (jsonText pushName), member "from_me" (.bool fromMe),
      member "timestamp" (.num (toString timestamp).toList)]

/-! ## 6. What the phone sends again -/

/-- The messages in the answer to a request for them. -/
def placeholderResendResponses (wire : Wire) (m : Message) : List WebMessageInfo :=
  ((m.content.protocol.bind (·.resent)).getD []).filterMap fun bytes =>
    bytes.bind wire.webMessageInfo

/-- The row of a message that was sent again, if it has a key and a content. -/
def resentMessage (r : Receiver) (table : List LidPnRow) (wmi : WebMessageInfo) :
    Option NewMessage :=
  let key := wmi.key.getD {}
  (nonempty key.id).bind fun messageId =>
    (nonempty key.remoteJid).bind fun chatRaw =>
      let fromMe := key.fromMe.getD false
      let senderRaw :=
        if fromMe then (r.ownPnUser.map fun own => own ++ pnServer).getD chatRaw
        else (nonempty (wmi.participant.or key.participant)).getD chatRaw
      let columns := e2eContentColumns r.wire.base64 "phone_resend" wmi.message
      if columns.msgType = "protocol" ∨ columns.msgType = "unknown" then none
      else some ⟨canonicalUserJid table r.sessionId chatRaw, messageId,
        canonicalUserJid table r.sessionId senderRaw, fromMe, (wmi.messageTimestamp.getD 0 : Nat),
        columns⟩

def resentEvent (r : Receiver) (pushName : Option Str) (m : NewMessage) : Event :=
  ⟨m.messageId, m.chatJid, m.senderJid,
    messageBody r m.chatJid m.messageId m.columns
      (toldMembers ["contacts", "location"] m.columns.payload) pushName m.fromMe m.timestamp⟩

def restoreResentMessage (r : Receiver) (w : World) (wmi : WebMessageInfo) : World :=
  match resentMessage r w.store.table wmi with
  | none => w
  | some m =>
      { w with
        store := { w.store with rows := messageInsert w.store.rows m }
        restored := w.restored ++ [(m.chatJid, m.messageId)]
        events := w.events ++ [resentEvent r (nonempty wmi.pushName) m] }

/-! ## 7. One message -/

/-- `should_skip_history_sync`, where the gate is on: a heavy chunk that an earlier connection has
    persisted already. -/
def shouldSkipHistorySync (r : Receiver) (store : Store) (notif : HistorySyncNotification) : Bool :=
  r.skipRedundantHistory && [some 0, some 2, some 3].contains notif.syncType &&
    0 < r.connEstablishedAt && store.historySyncedAt.any fun at_ => at_ < r.connEstablishedAt

/-- What control messages set off. -/
def consume (r : Receiver) (w : World) : Option InboundContent → World
  | some (.historySyncNotification notif) =>
      if shouldSkipHistorySync r w.store notif then w
      else { w with ingests := w.ingests ++ [notif] }
  | some (.appStateSyncKeyShare keys) =>
      { w with store := { w.store with
        appStateKeys := w.store.appStateKeys ++ keys.filterMap SharedKey.storable } }
  | _ => w

/-- The columns of an inbound message; a name, a quote and an ad are added to the payload. -/
def inboundColumns (r : Receiver) (s : Stanza) (content : Option InboundContent) : Columns :=
  let c : Columns := match content with
    | none => ⟨undecryptable, none, [member "type" (.str undecryptable.toList),
        member "enc_type" (.str s.encType)]⟩
    | some content => columns r.wire.base64 (member "enc_type" (.str s.encType)) content
  let extra := (s.pushName.map fun name => member "push_name" (.str name)).toList ++
    ((s.plain.bind r.wire.quoted).map (member "quoted")).toList ++
    ((s.plain.bind r.wire.ad).map (member "ad")).toList
  { c with payload := Members.merge c.payload extra }

def protocolOnly (msgType : String) : Bool :=
  ["history_sync_notification", "app_state_sync_key_share", "protocol"].contains msgType

/-- An edit and a revoke are applied to the message they name, whether there is a row of it. -/
def applyTarget (rows : List Row) : Option InboundContent → Bool × List Row
  | some (.edited (some target) text) => messageMarkEdited rows target text
  | some (.revoked (some target)) => messageMarkRevoked rows target
  | _ => (false, rows)

/-- The notice of an edit or a revoke that was applied. -/
def targetBody (content : Option InboundContent) (pushName : Option Str) (fromMe : Bool)
    (timestamp : Int) : Members :=
  (match content with
    | some (.edited target text) => [member "type" (.str "edited".toList),
        member "text" (jsonText text), member "edits" (jsonText target)]
    | some (.revoked target) => [member "type" (.str "revoked".toList),
        member "revokes" (jsonText target)]
    | _ => []) ++
    [member "from_me" (.bool fromMe), member "push_name" (jsonText pushName),
      member "timestamp" (.num (toString timestamp).toList)]

/-- A readable vote changes the row of its poll. -/
def tallyVote (rows : List Row) (chat voter : Str) : Option InboundContent → List Row
  | some (.pollVote pollId (some selected)) => rows.map (Row.tally chat pollId voter selected)
  | _ => rows

/-- Where a message is filed. A destination makes it our own. -/
structure Routing where
  chatJid : Str
  senderJid : Str
  fromMe : Bool
  deriving DecidableEq

def routing (r : Receiver) (store : Store) (s : Stanza) (isFromMe : Bool) (dest : Option Str) :
    Routing where
  chatJid := canonical r store (dest.getD s.source)
  senderJid := canonical r store
    (if dest.isSome then (r.ownPnUser.map fun own => own ++ pnServer).getD s.sender else s.sender)
  fromMe := isFromMe || dest.isSome

def Routing.message (route : Routing) (s : Stanza) (c : Columns) : NewMessage :=
  ⟨route.chatJid, s.id, route.senderJid, route.fromMe, s.timestamp, c⟩

/-- A message that can be read is told at once. -/
def filedEvent (r : Receiver) (s : Stanza) (c : Columns) (route : Routing) : Event :=
  let told := toldMembers ["contacts", "poll", "poll_vote", "location"] c.payload ++
    toldButtons c.payload ++ ((s.plain.bind r.wire.ad).map (member "ad")).toList
  ⟨s.id, route.chatJid, route.senderJid,
    messageBody r route.chatJid s.id c told s.pushName route.fromMe s.timestamp⟩

/-- The message is applied to the one it names, or else filed itself. -/
def settle (r : Receiver) (w : World) (s : Stanza) (content : Option InboundContent)
    (route : Routing) : World :=
  let c := inboundColumns r s content
  let (applied, rows) := applyTarget w.store.rows content
  if applied then
    { w with
      store := { w.store with rows := rows }
      events := w.events ++ [⟨s.id, route.chatJid, route.senderJid,
        targetBody content s.pushName route.fromMe s.timestamp⟩] }
  else if protocolOnly c.msgType then w
  else
    { w with
      store := { w.store with
        rows := tallyVote (messageInsert w.store.rows (route.message s c)) route.chatJid
          route.senderJid content }
      events := w.events ++ if c.msgType = undecryptable then [] else [filedEvent r s c route] }

/-- The secret that the message carries is kept under its id. -/
def recordSecret (s : Stanza) (m : Option Message) (secrets : List MessageSecret) :
    List MessageSecret :=
  match m.bind messageSecretFromE2e with
  | some secret => messageSecretPut secrets ⟨s.id, Poll.toNonAdJid s.sender, secret⟩
  | none => secrets

/-- What was decrypted, where it is a message. -/
def Stanza.message (r : Receiver) (s : Stanza) : Option Message := s.plain.bind r.wire.message

/-- What the message teaches, brings back and keeps, before it is looked at itself. -/
def prepare (r : Receiver) (w : World) (s : Stanza) : World :=
  let m := s.message r
  let learned := { w with
    store := { w.store with table := captureLidPnMappings r.sessionId w.store.table s } }
  let restored := ((m.map (placeholderResendResponses r.wire)).getD []).foldl
    (restoreResentMessage r) learned
  { restored with store := { restored.store with
    secrets := recordSecret s m restored.store.secrets } }

/-- What a message says, where it could be decrypted. -/
def inboundContent (r : Receiver) (store : Store) (s : Stanza) : Option InboundContent :=
  s.plain.map fun _ =>
    match s.message r with
    | some m => decodeInbound r store s m
    | none => .other

/-- Whether the sender is our own account, after the message has taught what it does. -/
def isFromMe (r : Receiver) (w : World) (s : Stanza) : Bool :=
  senderIsSelf r.order (captureLidPnMappings r.sessionId w.store.table s) r.sessionId r.ownPnUser
    s.sender

def processInboundMessage (r : Receiver) (w : World) (s : Stanza) : World :=
  let prepared := prepare r w s
  let content := inboundContent r prepared.store s
  let route := routing r prepared.store s (isFromMe r w s)
    ((s.message r).bind deviceSentDestination)
  settle r (consume r prepared content) s content route

/-! ## 8. What it leaves of the session -/

section Spec

variable (r : Receiver) (w : World) (s : Stanza)

/-- The answers of the phone in a message. -/
def resentItems : List WebMessageInfo :=
  ((s.message r).map (placeholderResendResponses r.wire)).getD []

/-- The table after the message has taught what it does. -/
def learnedTable : List LidPnRow := captureLidPnMappings r.sessionId w.store.table s

/-- The messages that are restored. -/
def resent : List NewMessage := (resentItems r s).filterMap (resentMessage r (learnedTable r w s))

/-- The store as the message itself finds it. -/
def learnedStore : Store :=
  { w.store with
    table := learnedTable r w s
    secrets := recordSecret s (s.message r) w.store.secrets
    rows := (resent r w s).foldl messageInsert w.store.rows }

def messageRouting : Routing :=
  routing r (learnedStore r w s) s (isFromMe r w s) ((s.message r).bind deviceSentDestination)

theorem foldl_restore (items : List WebMessageInfo) :
    (items.foldl (restoreResentMessage r) w).store = { w.store with
        rows := (items.filterMap (resentMessage r w.store.table)).foldl messageInsert w.store.rows } ∧
      (items.foldl (restoreResentMessage r) w).ingests = w.ingests ∧
      (items.foldl (restoreResentMessage r) w).restored = w.restored ++
        (items.filterMap (resentMessage r w.store.table)).map (fun m => (m.chatJid, m.messageId)) ∧
      (items.foldl (restoreResentMessage r) w).events = w.events ++
        items.filterMap fun wmi =>
          (resentMessage r w.store.table wmi).map (resentEvent r (nonempty wmi.pushName)) := by
  induction items generalizing w with
  | nil => simp
  | cons wmi items ih =>
      rw [List.foldl_cons]
      obtain ⟨hstore, hingests, hrestored, hevents⟩ := ih (restoreResentMessage r w wmi)
      rw [hstore, hingests, hrestored, hevents]
      unfold restoreResentMessage
      cases hm : resentMessage r w.store.table wmi <;> simp [hm]

theorem prepare_store : (prepare r w s).store = learnedStore r w s := by
  obtain ⟨hstore, -⟩ := foldl_restore r
    { w with store := { w.store with table := learnedTable r w s } } (resentItems r s)
  unfold prepare
  simp only
  rw [← learnedTable, ← resentItems, hstore]
  rfl

theorem prepare_ingests : (prepare r w s).ingests = w.ingests :=
  (foldl_restore r { w with store := { w.store with table := learnedTable r w s } }
    (resentItems r s)).2.1

theorem prepare_restored :
    (prepare r w s).restored = w.restored ++
      (resent r w s).map fun m => (m.chatJid, m.messageId) :=
  (foldl_restore r { w with store := { w.store with table := learnedTable r w s } }
    (resentItems r s)).2.2.1

theorem prepare_events :
    (prepare r w s).events = w.events ++ (resentItems r s).filterMap fun wmi =>
      (resentMessage r (learnedTable r w s) wmi).map (resentEvent r (nonempty wmi.pushName)) :=
  (foldl_restore r { w with store := { w.store with table := learnedTable r w s } }
    (resentItems r s)).2.2.2

end Spec

/-! ## 9. What it does to the rows -/

/-- What an edit or a revoke does to a row. -/
def Row.target : Option InboundContent → Row → Row
  | some (.edited (some target) text) => Row.edit target text
  | some (.revoked (some target)) => Row.revoke target
  | _ => id

/-- What a vote does to a row. -/
def Row.voted (chat voter : Str) : Option InboundContent → Row → Row
  | some (.pollVote pollId (some selected)) => Row.tally chat pollId voter selected
  | _ => id

theorem applyTarget_rows (rows : List Row) (content : Option InboundContent) :
    (applyTarget rows content).2 = rows.map (Row.target content) := by
  unfold applyTarget Row.target
  split <;> simp [messageMarkEdited, messageMarkRevoked]

theorem tallyVote_rows (rows : List Row) (chat voter : Str) (content : Option InboundContent) :
    tallyVote rows chat voter content = rows.map (Row.voted chat voter content) := by
  unfold tallyVote Row.voted
  split <;> simp

theorem messageInsert_old {rows : List Row} {i : Nat} {row : Row} (h : rows[i]? = some row)
    (m : NewMessage) : (messageInsert rows m)[i]? = some (m.heal row) := by
  unfold messageInsert
  split
  · rw [List.getElem?_map, h, Option.map_some]
  · next hnone =>
      have hkey : ¬row.HasKey m.chatJid m.messageId := fun hkey => hnone <| List.any_eq_true.mpr
        ⟨row, List.mem_of_getElem? h, decide_eq_true hkey⟩
      rw [List.getElem?_append_left (List.getElem?_eq_some_iff.mp h).1, h, NewMessage.heal,
        if_neg fun hheal => hkey hheal.1]

theorem messageInsert_new {rows : List Row} {i : Nat} {row' : Row} {m : NewMessage}
    (h : rows[i]? = none) (h' : (messageInsert rows m)[i]? = some row') :
    row' = m.row ∧ ∀ row ∈ rows, ¬row.HasKey m.chatJid m.messageId := by
  unfold messageInsert at h'
  split at h'
  · rw [List.getElem?_map, h] at h'
    cases h'
  · next hnone =>
      rw [List.getElem?_append_right (List.getElem?_eq_none_iff.mp h)] at h'
      refine ⟨List.mem_singleton.mp (List.mem_of_getElem? h'), fun row hrow hkey => hnone ?_⟩
      exact List.any_eq_true.mpr ⟨row, hrow, decide_eq_true hkey⟩

/-- A row after several messages: the first that heals it leaves nothing to heal. -/
def healed (ms : List NewMessage) (row : Row) : Row := ms.foldl (fun row m => m.heal row) row

theorem healed_of_readable {row : Row} (h : row.msgType ≠ undecryptable) (ms : List NewMessage) :
    healed ms row = row := by
  induction ms with
  | nil => rfl
  | cons m ms ih =>
      have hkeep : m.heal row = row := if_neg fun hheal => h hheal.2.1
      unfold healed at ih ⊢
      rw [List.foldl_cons, hkeep, ih]

theorem healed_eq (ms : List NewMessage) (row : Row) :
    healed ms row = ((ms.find? fun m => m.Heals row).map fun m => m.heal row).getD row := by
  induction ms with
  | nil => rfl
  | cons m ms ih =>
      have hfirst : healed (m :: ms) row = healed ms (m.heal row) := rfl
      by_cases hm : m.Heals row
      · have hreadable : (m.heal row).msgType ≠ undecryptable := by
          rw [NewMessage.heal, if_pos hm]
          exact hm.2.2
        rw [hfirst, healed_of_readable hreadable, List.find?_cons, decide_eq_true hm]
        rfl
      · rw [hfirst, NewMessage.heal, if_neg hm, ih, List.find?_cons, decide_eq_false hm]

theorem foldl_insert_old {rows : List Row} {i : Nat} {row : Row} (h : rows[i]? = some row)
    (ms : List NewMessage) : (ms.foldl messageInsert rows)[i]? = some (healed ms row) := by
  induction ms generalizing rows row with
  | nil => exact h
  | cons m ms ih => exact ih (messageInsert_old h m)

/-- Without a row of its key, a message is put behind the others. -/
theorem messageInsert_last {rows : List Row} {m : NewMessage}
    (h : ∀ row ∈ rows, ¬row.HasKey m.chatJid m.messageId) :
    (messageInsert rows m)[rows.length]? = some m.row := by
  have hnone : (rows.any fun row => row.HasKey m.chatJid m.messageId) = false :=
    List.any_eq_false.mpr fun row hrow => by simpa using h row hrow
  rw [messageInsert, hnone, if_neg Bool.false_ne_true, List.getElem?_append_right (Nat.le_refl _),
    Nat.sub_self]
  rfl

section Settle

variable (r : Receiver) (s : Stanza) (content : Option InboundContent) (route : Routing)

/-- The message names no message that is there, and is no mere control message. -/
def Filed (rows : List Row) : Prop :=
  (applyTarget rows content).1 = false ∧ protocolOnly (inboundColumns r s content).msgType = false

instance (rows : List Row) : Decidable (Filed r s content rows) :=
  inferInstanceAs (Decidable (_ ∧ _))

/-- What becomes of a row that was there. -/
def settledRow (rows : List Row) (row : Row) : Row :=
  if (applyTarget rows content).1 = true then row.target content
  else if Filed r s content rows then
    ((route.message s (inboundColumns r s content)).heal row).voted route.chatJid route.senderJid
      content
  else row

variable {r s content route} (w : World)

theorem settle_applied (h : (applyTarget w.store.rows content).1 = true) :
    settle r w s content route = { w with
      store := { w.store with rows := w.store.rows.map (Row.target content) }
      events := w.events ++ [⟨s.id, route.chatJid, route.senderJid,
        targetBody content s.pushName route.fromMe s.timestamp⟩] } := by
  unfold settle
  simp only [h, if_true, applyTarget_rows]

theorem settle_protocol (h : (applyTarget w.store.rows content).1 = false)
    (hprotocol : protocolOnly (inboundColumns r s content).msgType = true) :
    settle r w s content route = w := by
  unfold settle
  simp only [h, hprotocol, if_true, Bool.false_eq_true, if_false]

theorem settle_filed (h : Filed r s content w.store.rows) :
    settle r w s content route = { w with
      store := { w.store with
        rows := (messageInsert w.store.rows (route.message s (inboundColumns r s content))).map
          (Row.voted route.chatJid route.senderJid content) }
      events := w.events ++ if (inboundColumns r s content).msgType = undecryptable then []
        else [filedEvent r s (inboundColumns r s content) route] } := by
  unfold settle
  simp only [h.1, h.2, Bool.false_eq_true, if_false, tallyVote_rows]

/-- **Only the rows and what is told change.** -/
theorem settle_frame :
    ∃ rows events, settle r w s content route =
      { w with store := { w.store with rows := rows }, events := w.events ++ events } := by
  cases happlied : (applyTarget w.store.rows content).1 with
  | true => exact ⟨_, _, settle_applied w happlied⟩
  | false =>
      cases hprotocol : protocolOnly (inboundColumns r s content).msgType with
      | true => exact ⟨w.store.rows, [], by rw [settle_protocol w happlied hprotocol]; simp⟩
      | false => exact ⟨_, _, settle_filed w ⟨happlied, hprotocol⟩⟩

theorem settle_old {i : Nat} {row : Row} (h : w.store.rows[i]? = some row) :
    (settle r w s content route).store.rows[i]? =
      some (settledRow r s content route w.store.rows row) := by
  unfold settledRow
  cases happlied : (applyTarget w.store.rows content).1 with
  | true => rw [settle_applied w happlied, if_pos rfl, List.getElem?_map, h, Option.map_some]
  | false =>
      rw [if_neg Bool.false_ne_true]
      cases hprotocol : protocolOnly (inboundColumns r s content).msgType with
      | true =>
          rw [settle_protocol w happlied hprotocol, h, if_neg fun hfiled => ?_]
          exact Bool.false_ne_true (hfiled.2.symm.trans hprotocol)
      | false =>
          rw [settle_filed w ⟨happlied, hprotocol⟩, List.getElem?_map, messageInsert_old h,
            Option.map_some, if_pos (show Filed r s content w.store.rows from ⟨happlied, hprotocol⟩)]

theorem settle_new {i : Nat} {row' : Row} (h : w.store.rows[i]? = none)
    (h' : (settle r w s content route).store.rows[i]? = some row') :
    Filed r s content w.store.rows ∧
      (∀ row ∈ w.store.rows, ¬row.HasKey route.chatJid s.id) ∧
      row' = (route.message s (inboundColumns r s content)).row.voted route.chatJid route.senderJid
        content := by
  cases happlied : (applyTarget w.store.rows content).1 with
  | true =>
      rw [settle_applied w happlied, List.getElem?_map, h] at h'
      cases h'
  | false =>
      cases hprotocol : protocolOnly (inboundColumns r s content).msgType with
      | true =>
          rw [settle_protocol w happlied hprotocol, h] at h'
          cases h'
      | false =>
          rw [settle_filed w ⟨happlied, hprotocol⟩, List.getElem?_map] at h'
          obtain ⟨new, hnew, rfl⟩ := Option.map_eq_some_iff.mp h'
          obtain ⟨rfl, hnone⟩ := messageInsert_new h hnew
          exact ⟨⟨happlied, hprotocol⟩, hnone, rfl⟩

end Settle

/-! ## 10. The whole of it -/

/-- The keys that a share stores. -/
def sharedKeys : Option InboundContent → List (Bytes × Bytes)
  | some (.appStateSyncKeyShare keys) => keys.filterMap SharedKey.storable
  | _ => []

/-- The history that is begun to be fetched. -/
def begun (r : Receiver) (store : Store) : Option InboundContent → List HistorySyncNotification
  | some (.historySyncNotification notif) =>
      if shouldSkipHistorySync r store notif then [] else [notif]
  | _ => []

theorem consume_eq (r : Receiver) (w : World) (content : Option InboundContent) :
    consume r w content =
      { w with
        store := { w.store with appStateKeys := w.store.appStateKeys ++ sharedKeys content }
        ingests := w.ingests ++ begun r w.store content } := by
  unfold consume sharedKeys begun
  split
  · next notif =>
      by_cases hskip : shouldSkipHistorySync r w.store notif = true <;> simp [hskip]
  · simp
  · simp

section Whole

variable (r : Receiver) (w : World) (s : Stanza)

/-- What the message says, as the store reads it that it has been prepared for. -/
def said : Option InboundContent := inboundContent r (learnedStore r w s) s

/-- What is told of the messages that are restored. -/
def resentEvents : List Event :=
  (resentItems r s).filterMap fun wmi =>
    (resentMessage r (learnedTable r w s) wmi).map (resentEvent r (nonempty wmi.pushName))

/-- The session when the message itself comes to be filed. -/
def before : World where
  store := { learnedStore r w s with
    appStateKeys := w.store.appStateKeys ++ sharedKeys (said r w s) }
  ingests := w.ingests ++ begun r (learnedStore r w s) (said r w s)
  restored := w.restored ++ (resent r w s).map fun m => (m.chatJid, m.messageId)
  events := w.events ++ resentEvents r w s

theorem process_eq :
    processInboundMessage r w s =
      settle r (before r w s) s (said r w s) (messageRouting r w s) := by
  unfold processInboundMessage
  simp only
  rw [consume_eq, prepare_store, prepare_ingests, prepare_restored, prepare_events]
  rfl

/-- **What a message leaves of the session** besides the rows. -/
theorem process_frame :
    (processInboundMessage r w s).store.appStateKeys =
        w.store.appStateKeys ++ sharedKeys (said r w s) ∧
      (processInboundMessage r w s).ingests =
        w.ingests ++ begun r (learnedStore r w s) (said r w s) ∧
      (processInboundMessage r w s).restored =
        w.restored ++ (resent r w s).map (fun m => (m.chatJid, m.messageId)) ∧
      (processInboundMessage r w s).store.table = learnedTable r w s ∧
      (processInboundMessage r w s).store.secrets =
        recordSecret s (s.message r) w.store.secrets := by
  have hframe : ∃ rows events, settle r (before r w s) s (said r w s) (messageRouting r w s) =
      { before r w s with
        store := { (before r w s).store with rows := rows }
        events := (before r w s).events ++ events } := settle_frame _
  obtain ⟨rows, events, hsettle⟩ := hframe
  rw [process_eq, hsettle]
  exact ⟨rfl, rfl, rfl, rfl, rfl⟩

/-- **What it does to a row that was there**: the messages that are restored may heal it, and then
    the message itself does with it what it does. -/
theorem process_old {i : Nat} {row : Row} (h : w.store.rows[i]? = some row) :
    (processInboundMessage r w s).store.rows[i]? = some
      (settledRow r s (said r w s) (messageRouting r w s) (learnedStore r w s).rows
        (healed (resent r w s) row)) := by
  rw [process_eq]
  exact settle_old (before r w s) (foldl_insert_old h (resent r w s))

/-- What is told of the message itself. -/
def settledEvents (rows : List Row) : List Event :=
  if (applyTarget rows (said r w s)).1 = true then
    [⟨s.id, (messageRouting r w s).chatJid, (messageRouting r w s).senderJid,
      targetBody (said r w s) s.pushName (messageRouting r w s).fromMe s.timestamp⟩]
  else if Filed r s (said r w s) rows ∧
      (inboundColumns r s (said r w s)).msgType ≠ undecryptable then
    [filedEvent r s (inboundColumns r s (said r w s)) (messageRouting r w s)]
  else []

/-- **What is told**: the messages that are restored, and then the message itself. -/
theorem process_events :
    (processInboundMessage r w s).events =
      w.events ++ resentEvents r w s ++ settledEvents r w s (learnedStore r w s).rows := by
  rw [process_eq]
  unfold settledEvents
  cases happlied : (applyTarget (learnedStore r w s).rows (said r w s)).1 with
  | true =>
      rw [settle_applied (before r w s) happlied, if_pos rfl]
      rfl
  | false =>
      rw [if_neg Bool.false_ne_true]
      cases hprotocol : protocolOnly (inboundColumns r s (said r w s)).msgType with
      | true =>
          rw [settle_protocol (before r w s) happlied hprotocol, if_neg fun h => ?_,
            List.append_nil]
          · rfl
          · exact Bool.false_ne_true (h.1.2.symm.trans hprotocol)
      | false =>
          have hfiled : Filed r s (said r w s) (learnedStore r w s).rows := ⟨happlied, hprotocol⟩
          rw [settle_filed (before r w s) hfiled]
          by_cases hu : (inboundColumns r s (said r w s)).msgType = undecryptable
          · simp only [hu, if_true, ne_eq, not_true_eq_false, and_false, if_false]
            rfl
          · simp only [hu, hfiled, if_false, ne_eq, not_false_eq_true, and_self, if_true]
            rfl

end Whole

namespace Sample

def ownUser : Str := "5511990000001".toList

/-- A receiver that knows how these messages are encoded. -/
def receiver (messages : List (Bytes × Message)) (infos : List (Bytes × WebMessageInfo)) :
    Receiver where
  H := .ofTable [] [] []
  gcm := .ofTable []
  wire := {
    message := known (messages.map fun m => (m.1, some m.2)) none
    webMessageInfo := known (infos.map fun m => (m.1, some m.2)) none
    base64 := fun _ => []
    percentEncode := id }
  order := .byInsertion _
  sessionId := "s"
  ownPnUser := some ownUser
  skipRedundantHistory := true
  connEstablishedAt := 1700000000

def world (rows : List Row) : World where
  store := { table := [], rows := rows, secrets := [], appStateKeys := [], historySyncedAt := none }
  ingests := []
  restored := []
  events := []

def jidOf (user : String) : Str := user.toList ++ pnServer

/-- A message from a contact, with these bytes in it. -/
def stanza (id : String) (user : String) (plain : Bytes) : Stanza where
  id := id.toList
  source := jidOf user
  participant := none
  timestamp := 1700000100
  encType := "msg".toList
  plain := some plain
  now := 1700000101

open ProtoWire in
/-- `conversation` -/
def textBytes (text : String) : Bytes := encodeFields [(1, .bytes (utf8 text))]

def textMessage (text : String) : Message := { content := { conversation := some text.toList } }

open ProtoWire in
/-- The key of a message in a chat. -/
def keyBytes (chat : Str) (id : String) : Bytes :=
  encodeFields [(1, .bytes (utf8 (String.ofList chat))), (3, .bytes (utf8 id))]

def messageKey (chat : Str) (id : String) : MessageKey :=
  { remoteJid := some chat, id := some id.toList }

end Sample

end Ruwa.Session.Inbound
