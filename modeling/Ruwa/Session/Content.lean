/-
  File:      Ruwa/Session/Content.lean
  Subject:   WHAT AN INBOUND MESSAGE SAYS (`session.rs`, `classify_e2e_message`,
             `e2e_content_columns`): the decrypted message, wrapped up to four times, becomes the
             kind, the text and the payload of a row.

  * `classifyE2eMessage` -- the wrappers are taken off, then the first field that is set decides;
  * `classify_inner`, `classify_bare` -- a wrapped message is classified as the one in the wrapper,
    four wrappers deep, and any other by its own fields;
  * `columns`, `e2eContentColumns` -- the row that is stored for it.
-/
import Ruwa.Library.Bytes
import Ruwa.Library.Json
import Ruwa.Session.Poll

namespace Ruwa.Session.Inbound

open Ruwa.Library

abbrev Str := List Char

/-! ## 1. The message -/

structure MessageKey where
  remoteJid : Option Str := none
  fromMe : Option Bool := none
  id : Option Str := none
  participant : Option Str := none
  deriving DecidableEq

structure MediaMessage where
  url : Option Str := none
  directPath : Option Str := none
  mimetype : Option Str := none
  mediaKey : Option Bytes := none
  caption : Option Str := none
  fileLength : Option Nat := none
  deriving DecidableEq

structure HistorySyncNotification where
  syncType : Option Int
  directPath : Option Str := none
  mediaKey : Option Bytes := none
  inlinePayload : Option Bytes := none
  deriving DecidableEq

/-- An app-state key as the phone shares it. -/
structure SharedKey where
  keyId : Option Bytes
  keyData : Option Bytes
  deriving DecidableEq

/-- The key's id and its 32 bytes; what lacks either is passed over. -/
def SharedKey.storable (k : SharedKey) : Option (Bytes × Bytes) :=
  k.keyId.bind fun keyId => (k.keyData.filter fun b => b.length = 32).map fun b => (keyId, b)

/-- A control message, without the message it may carry. `resent` has the bytes of a placeholder's
    resend for each result of a peer-data operation. -/
structure ProtocolMessage where
  key : Option MessageKey := none
  type : Option Int := none
  historySyncNotification : Option HistorySyncNotification := none
  appStateSyncKeyShare : Option (List SharedKey) := none
  resent : Option (List (Option Bytes)) := none
  deriving DecidableEq

inductive SecretEncType where
  | eventEdit
  | messageEdit
  | messageSchedule
  | pollEdit
  | pollAddOption
  deriving DecidableEq

structure SecretEncryptedMessage where
  targetMessageKey : Option MessageKey
  secretEncType : Option SecretEncType
  encPayload : Option Bytes
  encIv : Option Bytes
  deriving DecidableEq

/-- A vote: the id of its poll, and what it opens to. -/
structure PollUpdateMessage where
  pollId : Option Str
  vote : Poll.PollUpdate

structure PollCreation where
  name : Option Str
  options : List (Option Str)
  selectableOptionsCount : Option Nat
  deriving DecidableEq

/-- The card is what is read from the vCard. -/
structure ContactMessage where
  displayName : Option Str
  card : Json

structure ContactsArray where
  displayName : Option Str
  contacts : List ContactMessage

/-- The degrees as they are printed: in full, and both to five decimals. -/
structure LocationMessage where
  latitude : Str
  longitude : Str
  fixed : Str
  name : Option Str
  address : Option Str
  isLive : Option Bool
  deriving DecidableEq

/-- The answer to a button or a list: the text that was seen, and the id of the choice. -/
structure ResponseMessage where
  text : Option Str
  id : Option Str
  deriving DecidableEq

/-- The texts and labels of a template that is written out. -/
structure TemplateMessage where
  text : Option Str
  buttons : List Str
  deriving DecidableEq

/-- What a preview of a quoted message is made of; of a picture or a video, the caption. -/
structure QuotedMessage where
  conversation : Option Str := none
  extendedText : Option (Option Str) := none
  image : Option (Option Str) := none
  video : Option (Option Str) := none
  document : Bool := false
  audio : Bool := false
  deriving DecidableEq

structure ExternalAdReply where
  sourceId : Option Str := none
  sourceUrl : Option Str := none
  sourceType : Option Str := none
  sourceApp : Option Str := none
  ctwaClid : Option Str := none
  ref : Option Str := none
  title : Option Str := none
  body : Option Str := none
  deriving DecidableEq

structure ContextInfo where
  stanzaId : Option Str := none
  participant : Option Str := none
  quotedMessage : Option QuotedMessage := none
  externalAdReply : Option ExternalAdReply := none
  entryPointConversionSource : Option Str := none
  deriving DecidableEq

/-- The fields of a message that hold no other message. A context belongs to the field that it is
    named after. -/
structure Content where
  conversation : Option Str := none
  extendedText : Option (Option Str) := none
  image : Option MediaMessage := none
  video : Option MediaMessage := none
  audio : Option (MediaMessage × Option Bool) := none
  document : Option MediaMessage := none
  sticker : Option MediaMessage := none
  protocol : Option ProtocolMessage := none
  buttonsResponse : Option ResponseMessage := none
  templateButtonReply : Option ResponseMessage := none
  listResponse : Option ResponseMessage := none
  buttonsText : Option Str := none
  interactiveText : Option Str := none
  listDescription : Option Str := none
  listTitle : Option Str := none
  reaction : Option (Option Str) := none
  pollCreation : Option PollCreation := none
  pollCreationV2 : Option PollCreation := none
  pollCreationV3 : Option PollCreation := none
  pollCreationV5 : Option PollCreation := none
  pollCreationV6 : Option PollCreation := none
  contact : Option ContactMessage := none
  contactsArray : Option ContactsArray := none
  location : Option LocationMessage := none
  liveLocation : Option LocationMessage := none
  groupInvite : Option (Option Str) := none
  template : Option TemplateMessage := none
  ptv : Option MediaMessage := none
  encReaction : Bool := false
  pollUpdate : Option PollUpdateMessage := none
  pollResultSnapshot : Bool := false
  event : Option (Option Str) := none
  album : Bool := false
  pinInChat : Bool := false
  keepInChat : Bool := false
  senderKeyDistribution : Bool := false
  secretEncrypted : Option SecretEncryptedMessage := none
  messageSecret : Option Bytes := none
  extendedTextContext : Option ContextInfo := none
  imageContext : Option ContextInfo := none
  videoContext : Option ContextInfo := none
  documentContext : Option ContextInfo := none

/-- A message. A wrapper that is set may still be empty; `protocolEdited` is the new content in an
    edit. -/
structure Message where
  content : Content := {}
  ephemeral : Option (Option Message) := none
  viewOnce : Option (Option Message) := none
  viewOnceV2 : Option (Option Message) := none
  viewOnceV2Extension : Option (Option Message) := none
  documentWithCaption : Option (Option Message) := none
  edited : Option (Option Message) := none
  deviceSent : Option (Option Str × Option Message) := none
  protocolEdited : Option Message := none

/-! ## 2. Its kind -/

inductive MediaType where
  | image
  | video
  | audio
  | ptt
  | document
  | sticker
  deriving DecidableEq

def mediaKindStr : MediaType → String
  | .image => "image"
  | .video => "video"
  | .audio => "audio"
  | .ptt => "ptt"
  | .document => "document"
  | .sticker => "sticker"

inductive ReplyKind where
  | button
  | template
  | list
  deriving DecidableEq

def ReplyKind.asStr : ReplyKind → String
  | button => "button"
  | template => "template"
  | list => "list"

inductive InboundContent where
  | text (t : Str)
  | reply (text : Str) (kind : ReplyKind) (id : Option Str)
  | media (kind : MediaType) (m : MediaMessage)
  | historySyncNotification (notif : HistorySyncNotification)
  | appStateSyncKeyShare (keys : List SharedKey)
  | typed (kind : String) (text : Option Str)
  | poll (name : Option Str) (options : List Str) (selectableCount : Nat)
  | pollVote (pollId : Str) (selected : Option (List Str))
  | contacts (displayName : Option Str) (cards : List Json)
  | location (l : LocationMessage)
  | template (text : Option Str) (buttons : List Str)
  | edited (targetId : Option Str) (text : Option Str)
  | revoked (targetId : Option Str)
  | other

def nonempty (s : Option Str) : Option Str := s.filter fun s => s ≠ []

def PollCreation.read (p : PollCreation) : InboundContent :=
  .poll p.name (p.options.filterMap id) (p.selectableOptionsCount.getD 0)

def ResponseMessage.read (kind : ReplyKind) (r : ResponseMessage) : Option InboundContent :=
  r.text.map fun text => .reply text kind r.id

/-- The fields that are looked at before the control message. -/
def Content.first (c : Content) : Option InboundContent :=
  [c.conversation.map .text,
    (c.extendedText.bind id).map .text,
    c.image.map (.media .image),
    c.video.map (.media .video),
    c.audio.map fun a =>
      .media (if a.2 = some true then .ptt else .audio) { a.1 with caption := none },
    c.document.map (.media .document),
    c.sticker.map fun s => .media .sticker { s with caption := none }].findSome? id

/-- The fields that are looked at after it. -/
def Content.rest (c : Content) : InboundContent :=
  ([c.buttonsResponse.bind (·.read .button),
    c.templateButtonReply.bind (·.read .template),
    c.listResponse.bind (·.read .list),
    c.buttonsText.map .text,
    c.interactiveText.map .text,
    (c.listDescription.or c.listTitle).map .text,
    c.reaction.map (.typed "reaction"),
    (c.pollCreation.or <| c.pollCreationV2.or <| c.pollCreationV3.or <|
      c.pollCreationV5.or c.pollCreationV6).map PollCreation.read,
    c.contact.map fun m => .contacts m.displayName [m.card],
    c.contactsArray.map fun m => .contacts m.displayName (m.contacts.map (·.card)),
    c.location.map fun l => .location
      { l with name := nonempty l.name, address := nonempty l.address,
               isLive := some (l.isLive.getD false) },
    c.liveLocation.map fun l => .location
      { l with name := nonempty l.name, address := none, isLive := some true },
    c.groupInvite.map (.typed "group_invite"),
    c.template.map fun t => .template t.text t.buttons,
    c.ptv.map (.media .video),
    if c.encReaction then some (.typed "reaction" none) else none,
    c.pollUpdate.map fun _ => .typed "poll_vote" none,
    if c.pollResultSnapshot then some (.typed "poll_result" none) else none,
    c.event.map (.typed "event"),
    if c.album then some (.typed "album" none) else none,
    if c.pinInChat then some (.typed "pin" none) else none,
    if c.keepInChat then some (.typed "keep" none) else none,
    if c.senderKeyDistribution then some (.typed "protocol" none) else none].findSome? id).getD
    .other

/-- The text that an edit puts in the place of the old one. -/
def InboundContent.editText : InboundContent → Option Str
  | text t => some t
  | reply t _ _ => some t
  | typed _ t => t
  | poll name _ _ => name
  | location l => l.name.or l.address
  | media _ m => m.caption
  | edited _ t => t
  | _ => none

/-- `protocol_message::Type::Revoke` -/
def revokeType : Int := 0

def ProtocolMessage.editTarget (pm : ProtocolMessage) : Option Str := pm.key.bind (·.id)

/-- A control message, and the new text if it is an edit. -/
def ProtocolMessage.read (pm : ProtocolMessage) (edit : Option InboundContent) : InboundContent :=
  match pm.historySyncNotification with
  | some notif => .historySyncNotification notif
  | none =>
      match pm.appStateSyncKeyShare with
      | some keys => .appStateSyncKeyShare keys
      | none =>
          match edit with
          | some content => .edited pm.editTarget content.editText
          | none =>
              if pm.type = some revokeType then .revoked pm.editTarget else .typed "protocol" none

/-- What is in no wrapper. -/
def Content.read (c : Content) (edit : Option InboundContent) : InboundContent :=
  match c.first with
  | some content => content
  | none =>
      match c.protocol with
      | some pm => pm.read edit
      | none => c.rest

/-- The first wrapper that holds a message is taken off, four times at most. -/
def classifyE2eMessage (m : Message) (depth : Nat) : InboundContent :=
  match m with
  | ⟨content, ephemeral, viewOnce, viewOnceV2, viewOnceV2Extension, documentWithCaption, edited,
      deviceSent, protocolEdited⟩ =>
    let plain := content.read <|
      match protocolEdited with
      | some m => some (classifyE2eMessage m (depth + 1))
      | none => none
    if depth < 4 then
      match ephemeral with
      | some (some m) => classifyE2eMessage m (depth + 1)
      | _ =>
      match viewOnce with
      | some (some m) => classifyE2eMessage m (depth + 1)
      | _ =>
      match viewOnceV2 with
      | some (some m) => classifyE2eMessage m (depth + 1)
      | _ =>
      match viewOnceV2Extension with
      | some (some m) => classifyE2eMessage m (depth + 1)
      | _ =>
      match documentWithCaption with
      | some (some m) => classifyE2eMessage m (depth + 1)
      | _ =>
      match edited with
      | some (some m) => classifyE2eMessage m (depth + 1)
      | _ =>
      match deviceSent with
      | some (_, some m) => classifyE2eMessage m (depth + 1)
      | _ => plain
    else plain

/-- The message in the first wrapper that is not empty. -/
def Message.inner (m : Message) : Option Message :=
  (m.ephemeral.bind id).or <| (m.viewOnce.bind id).or <| (m.viewOnceV2.bind id).or <|
    (m.viewOnceV2Extension.bind id).or <| (m.documentWithCaption.bind id).or <|
      (m.edited.bind id).or (m.deviceSent.bind (·.2))

theorem bind_id_none {x : Option (Option Message)} (h : ∀ m, x = some (some m) → False) :
    x.bind id = none := by
  rcases x with _ | _ | m
  · rfl
  · rfl
  · exact (h m rfl).elim

/-- **A wrapped message is classified as the message in it**, however it is wrapped. -/
theorem classify_inner {m inner : Message} {depth : Nat} (h : m.inner = some inner)
    (hdepth : depth < 4) : classifyE2eMessage m depth = classifyE2eMessage inner (depth + 1) := by
  unfold Message.inner at h
  obtain ⟨_, _, _, _, _, _, _, deviceSent, _⟩ := m
  simp only at h
  rw [classifyE2eMessage.eq_def]
  simp only [if_pos hdepth]
  iterate 6
    split
    · cases h
      rfl
    rename_i hnone
    rw [bind_id_none hnone, Option.none_or] at h
  split
  · cases h
    rfl
  · rename_i hnone
    rcases deviceSent with _ | ⟨dest, _ | m⟩
    · cases h
    · cases h
    · exact (hnone dest m rfl).elim

/-- A message in no wrapper, or in too many, is what its own fields say. -/
theorem classify_bare {m : Message} {depth : Nat} (h : m.inner = none ∨ 4 ≤ depth) :
    classifyE2eMessage m depth =
      m.content.read (m.protocolEdited.map fun e => classifyE2eMessage e (depth + 1)) := by
  have hedit : ∀ e : Option Message, (match e with
      | some m => some (classifyE2eMessage m (depth + 1))
      | none => none) = e.map fun e => classifyE2eMessage e (depth + 1) := fun e => by cases e <;> rfl
  obtain ⟨_, _, _, _, _, _, _, deviceSent, _⟩ := m
  rw [classifyE2eMessage.eq_def]
  simp only [hedit]
  by_cases hdepth : depth < 4
  · replace h := h.resolve_right (by omega)
    unfold Message.inner at h
    simp only at h
    rw [if_pos hdepth]
    iterate 6
      split
      · cases h
      rename_i hnone
      rw [bind_id_none hnone, Option.none_or] at h
    split
    · cases h
    · rfl
  · rw [if_neg hdepth]

/-! ## 3. What is looked for in the wrappers -/

/-- The first wrapper that is set, though it may be empty. -/
def Message.wrapped (m : Message) : Option (Option Message) :=
  m.ephemeral.or <| m.viewOnce.or <| m.viewOnceV2.or <| m.viewOnceV2Extension.or <|
    m.documentWithCaption.or <| m.edited.or (m.deviceSent.map (·.2))

def secretEncryptedWithin : Nat → Message → Option SecretEncryptedMessage
  | 0, _ => none
  | layers + 1, m =>
      match m.content.secretEncrypted with
      | some se => some se
      | none => (m.wrapped.bind id).bind (secretEncryptedWithin layers)

def secretEncryptedFromE2e (m : Message) : Option SecretEncryptedMessage :=
  secretEncryptedWithin 4 m

/-- A field at the top, or else in our own device's or in an ephemeral wrapper. -/
def Message.peek {α : Type} (m : Message) (field : Content → Option α) : Option α :=
  (field m.content).or <|
    ((m.deviceSent.bind (·.2)).bind (field ·.content)).or <|
      (m.ephemeral.bind id).bind (field ·.content)

def messageSecretFromE2e (m : Message) : Option Bytes :=
  (m.peek (·.messageSecret)).filter fun secret => secret.length = 32

def pollUpdateFromE2e (m : Message) : Option PollUpdateMessage := m.peek (·.pollUpdate)

def deviceSentDestination (m : Message) : Option Str := nonempty (m.deviceSent.bind (·.1))

/-! ## 4. The columns -/

def undecryptable : String := "undecryptable"

structure Columns where
  msgType : String
  bodyText : Option Str
  payload : Members

def member (key : String) (value : Json) : Str × Json := (key.toList, value)

def jsonText : Option Str → Json
  | some s => .str s
  | none => .null

def jsonTexts (texts : List Str) : Json := .arr (texts.map .str)

def jsonNat : Option Nat → Json
  | some n => .num (Text.decimal n)
  | none => .null

def LocationMessage.label (l : LocationMessage) : Str :=
  ((nonempty l.name).or (nonempty l.address)).getD l.fixed

/-- The columns of what a message says, with a member that tells how it came. `base64` writes out
    the key of a file. -/
def columns (base64 : Bytes → Str) (mark : Str × Json) : InboundContent → Columns
  | .text t =>
      ⟨"text", some t, [member "type" (.str "text".toList), member "text" (.str t), mark]⟩
  | .reply t kind id =>
      ⟨"text", some t, [member "type" (.str "text".toList), member "text" (.str t),
        member "reply" (.obj [member "kind" (.str kind.asStr.toList), member "id" (jsonText id)]),
        mark]⟩
  | .media kind m =>
      ⟨mediaKindStr kind, m.caption, [member "type" (.str (mediaKindStr kind).toList),
        member "url" (jsonText m.url), member "direct_path" (jsonText m.directPath),
        member "mimetype" (jsonText m.mimetype),
        member "media_key_b64" (jsonText (m.mediaKey.map base64)),
        member "caption" (jsonText m.caption), member "file_length" (jsonNat m.fileLength), mark]⟩
  | .historySyncNotification _ =>
      ⟨"history_sync_notification", none,
        [member "type" (.str "history_sync_notification".toList), mark]⟩
  | .appStateSyncKeyShare keys =>
      ⟨"app_state_sync_key_share", none, [member "type" (.str "app_state_sync_key_share".toList),
        member "stored" (jsonNat (some (keys.filterMap SharedKey.storable).length)), mark]⟩
  | .typed kind text =>
      ⟨kind, text, [member "type" (.str kind.toList), member "text" (jsonText text), mark]⟩
  | .poll name options selectable =>
      ⟨"poll", name, [member "type" (.str "poll".toList), member "text" (jsonText name),
        member "poll" (.obj [member "name" (jsonText name), member "options" (jsonTexts options),
          member "selectable_count" (jsonNat (some selectable))]), mark]⟩
  | .pollVote pollId selected =>
      let text := nonempty (selected.map fun s => ", ".toList.intercalate s)
      ⟨"poll_vote", text, [member "type" (.str "poll_vote".toList), member "text" (jsonText text),
        member "poll_vote" (.obj [member "poll_id" (.str pollId),
          member "selected_options" ((selected.map jsonTexts).getD .null)]), mark]⟩
  | .contacts displayName cards =>
      ⟨"contact", displayName, [member "type" (.str "contact".toList),
        member "text" (jsonText displayName), member "contacts" (.arr cards), mark]⟩
  | .location l =>
      ⟨"location", some l.label, [member "type" (.str "location".toList),
        member "text" (.str l.label),
        member "location" (.obj [member "latitude" (.num l.latitude),
          member "longitude" (.num l.longitude), member "name" (jsonText l.name),
          member "address" (jsonText l.address), member "live" (.bool (l.isLive.getD false))]),
        mark]⟩
  | .template text buttons =>
      ⟨"template", text, [member "type" (.str "template".toList), member "text" (jsonText text),
        member "buttons" (jsonTexts buttons), mark]⟩
  | .edited targetId text =>
      ⟨"edited", text, [member "type" (.str "edited".toList), member "text" (jsonText text),
        member "edits" (jsonText targetId), mark]⟩
  | .revoked targetId =>
      ⟨"revoked", none, [member "type" (.str "revoked".toList),
        member "revokes" (jsonText targetId), mark]⟩
  | .other => ⟨"unknown", none, [member "type" (.str "unknown".toList), mark]⟩

/-- The columns of a message that did not come in an envelope. A file always counts as one of the
    history, a vote stays unread, and control messages are unknown. -/
def e2eContentColumns (base64 : Bytes → Str) (source : String) : Option Message → Columns
  | none => columns base64 (member "source" (.str source.toList)) .other
  | some m =>
      match classifyE2eMessage m 0 with
      | .media kind file =>
          columns base64 (member "source" (.str "history_sync".toList)) (.media kind file)
      | .pollVote pollId _ =>
          { columns base64 (member "source" (.str source.toList)) (.pollVote pollId none) with
            payload := [member "type" (.str "poll_vote".toList),
              member "poll_vote" (.obj [member "poll_id" (.str pollId),
                member "selected_options" .null]), member "source" (.str source.toList)] }
      | .historySyncNotification _ =>
          columns base64 (member "source" (.str source.toList)) .other
      | .appStateSyncKeyShare _ => columns base64 (member "source" (.str source.toList)) .other
      | content => columns base64 (member "source" (.str source.toList)) content

end Ruwa.Session.Inbound
