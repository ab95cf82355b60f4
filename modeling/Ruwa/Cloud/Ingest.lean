/-
  File:      Ruwa/Cloud/Ingest.lean
  Subject:   ONE WEBHOOK BATCH into a cloud session (`session.rs`, `cloud_ingest` and the functions
             it calls): inbound messages, outbound echoes, statuses.

  What a message says is taken as `cloud_kind_payload` renders it. Contacts, chat names and chat
  windows are written and not read again here, and left out.
-/
import Ruwa.Session.Messages
import Ruwa.Library.Text

namespace Ruwa.Cloud

open Ruwa.Session Ruwa.Library.Text

/-! ## 1. Numbers and chats -/

/-- The digits of a JID or a phone number. -/
def toDigits (jidOrNumber : List Char) : List Char :=
  ((jidOrNumber.takeWhile (· ≠ '@')).takeWhile (· ≠ ':')).filter Char.isDigit

def toJid (digits : List Char) : String := String.ofList (toDigits digits) ++ "@s.whatsapp.net"

/-! ## 2. A batch -/

/-- The type, the text and the payload of a message, as they are stored. -/
structure CloudKindPayload where
  msgType : String
  bodyText : Option String
  payloadJson : String
  deriving DecidableEq

structure InboundMessage where
  wamid : String
  sender : List Char
  timestamp : Int
  content : CloudKindPayload
  deriving DecidableEq

structure StatusUpdate where
  wamid : String
  recipient : List Char
  status : String
  error : Option String
  deriving DecidableEq

structure OutboundEcho where
  wamid : String
  recipient : List Char
  timestamp : Int
  content : CloudKindPayload
  deriving DecidableEq

structure WebhookBatch where
  phoneNumberId : String
  messages : List InboundMessage
  statuses : List StatusUpdate
  outbound : List OutboundEcho
  deriving DecidableEq

/-! ## 3. A session -/

inductive SessionEvent
  | message (id chat sender : String)
  | messageSent (id chat : String)
  | messageDelivered (id chat : String)
  | messageRead (id chat : String)
  | messageFailed (id chat reason : String)
  deriving DecidableEq

structure CloudSession where
  jid : Option String
  loggedOut : Bool
  rows : List MessageRow
  events : List SessionEvent
  lastRx : Int
  deriving DecidableEq

def CloudSession.emit (s : CloudSession) (ev : SessionEvent) : CloudSession :=
  { s with events := s.events ++ [ev] }

/-- The chat of an inbound message: an opaque user id is not taken for a number. -/
def inboundChat (sender : List Char) : String :=
  let sender := trim sender
  if sender.any Char.isAlpha ∨ toDigits sender = [] then String.ofList sender ++ "@s.whatsapp.net"
  else toJid sender

def cloudIngestMessage (s : CloudSession) (m : InboundMessage) : CloudSession :=
  let chat := inboundChat m.sender
  if messageExists s.rows chat m.wamid then s
  else
    match messageInsert s.rows ⟨chat, m.wamid, chat, false, m.timestamp, m.content.msgType,
        m.content.bodyText, m.content.payloadJson, none⟩ true with
    | .error _ => s
    | .ok rows => { s with rows := rows }.emit (.message m.wamid chat chat)

/-- The row of an echo, which starts at `sent`. -/
def OutboundEcho.newMessage (e : OutboundEcho) (jid : Option String) : NewMessage :=
  ⟨toJid (trim e.recipient), e.wamid, jid.getD "self", true, e.timestamp, e.content.msgType,
    e.content.bodyText, e.content.payloadJson, some .sent⟩

def cloudIngestOutboundEcho (s : CloudSession) (e : OutboundEcho) : CloudSession :=
  if trim e.recipient = [] then s
  else if messageExists s.rows (toJid (trim e.recipient)) e.wamid then s
  else
    match messageInsert s.rows (e.newMessage s.jid) false with
    | .error _ => s
    | .ok rows =>
        ({ s with rows := rows }.emit
          (.message e.wamid (toJid (trim e.recipient)) (s.jid.getD "self"))).emit
          (.messageSent e.wamid (toJid (trim e.recipient)))

/-- The status a webhook reports: `played` counts as `read`, others are not known. -/
def StatusUpdate.reported (u : StatusUpdate) : Option MessageStatus :=
  match u.status with
  | "sent" => some .sent
  | "delivered" => some .delivered
  | "read" => some .read
  | "failed" => some .failed
  | "played" => some .read
  | _ => none

def StatusUpdate.event (u : StatusUpdate) (status : MessageStatus) : SessionEvent :=
  let chat := toJid u.recipient
  match status with
  | .sent => .messageSent u.wamid chat
  | .delivered => .messageDelivered u.wamid chat
  | .read => .messageRead u.wamid chat
  | _ => .messageFailed u.wamid chat (u.error.getD "failed")

/-- One entry of `statuses[]`: the event is sent only when a row moved. -/
def cloudIngestStatus (s : CloudSession) (u : StatusUpdate) : CloudSession :=
  match u.reported with
  | none => s
  | some status =>
      let (moved, rows) := messageAdvanceStatus s.rows u.wamid status
      if moved then { s with rows := rows }.emit (u.event status) else s

/-- A batch, once its session is found. -/
def ingestBatch (s : CloudSession) (now : Int) (batch : WebhookBatch) : CloudSession :=
  if s.loggedOut then s
  else
    let s := { s with lastRx := now }
    let s := batch.messages.foldl cloudIngestMessage s
    let s := batch.outbound.foldl cloudIngestOutboundEcho s
    batch.statuses.foldl cloudIngestStatus s

/-- The row of a message that Graph accepted, which starts at `sent`. -/
def outboundMessage (chatJid wamid senderJid : String) (content : CloudKindPayload)
    (timestamp : Int) : NewMessage :=
  ⟨chatJid, wamid, senderJid, true, timestamp, content.msgType, content.bodyText,
    content.payloadJson, some .sent⟩

def cloudRecordOutbound (s : CloudSession) (chatJid wamid senderJid : String)
    (content : CloudKindPayload) (timestamp : Int) : Except StoreError CloudSession :=
  match messageInsert s.rows (outboundMessage chatJid wamid senderJid content timestamp) false with
  | .error e => .error e
  | .ok rows => .ok ({ s with rows := rows }.emit (.messageSent wamid chatJid))

end Ruwa.Cloud
