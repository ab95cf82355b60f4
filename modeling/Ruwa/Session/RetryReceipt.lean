/-
  File:      Ruwa/Session/RetryReceipt.lean
  Subject:   WHO GETS A MESSAGE ONCE MORE (`session.rs`, `parse_inbound_retry_receipt`,
             `handle_inbound_retry_receipt`).

  A retry receipt names a message by its id, and a device by the attribute `from`. The cache of sent
  messages also knows the chat of each, but is only searched by the id; and the receipt of a group
  names the device in the attribute `participant`, which is not read.

  * `parse_some` -- what a receipt is read as;
  * `resend_device` -- a stanza that goes out is for that device, with a message of the cache;
  * `resend_possible` -- and one does go out, whatever is in the cache and whoever asks;
  * **`confidential_iff`** -- a receipt cannot make a message go to anybody else exactly when its
    device may have the message, and is the one that asked.
-/
import Ruwa.Protocol.Binary
import Ruwa.Session.Retry

namespace Ruwa.Session.Retry

open Ruwa.Library
open Ruwa.Crypto
open Ruwa.Crypto.Signal (SignalPrimitives)
open Ruwa.Session.Addresses
open Ruwa.Protocol.Binary (Node Content)

/-! ## 1. The receipt -/

/-- A direct child by its tag, and its bytes. -/
def nodeChild (parent : Node) (tag : String) : Option Node :=
  match parent.content with
  | .nodes ns => ns.find? fun c => c.tag = tag
  | _ => none

def nodeChildBytes (parent : Node) (tag : String) : Option Bytes :=
  match (nodeChild parent tag).map Node.content with
  | some (.bytes b) => some b
  | _ => none

/-- One to four bytes in big endian. -/
def beU32 (bytes : Bytes) : Option UInt32 :=
  if bytes = [] ∨ bytes.length > 4 then none else some (UInt32.ofNat (fromBE bytes))

/-- The one-time prekey is optional; what is there has to be complete. -/
def oneTimePreKey (keysNode : Node) : Option (Option UInt32 × Option (U8Array 32)) :=
  match nodeChild keysNode "key" with
  | some k => do
      let id ← beU32 (← nodeChildBytes k "id")
      let pub ← U8Array.ofBytes? 32 (← nodeChildBytes k "value")
      return (some id, some pub)
  | none => some (none, none)

def parseRetryKeysBundle (keysNode : Node) (jid : List Char) (registrationId : UInt32) :
    Option DevicePrekeyBundle := do
  let identityPub ← U8Array.ofBytes? 32 (← nodeChildBytes keysNode "identity")
  let skey ← nodeChild keysNode "skey"
  let signedPreKeyId ← beU32 (← nodeChildBytes skey "id")
  let signedPreKeyPub ← U8Array.ofBytes? 32 (← nodeChildBytes skey "value")
  let _ ← U8Array.ofBytes? 64 (← nodeChildBytes skey "signature")
  let (oneTimePreKeyId, oneTimePreKeyPub) ← oneTimePreKey keysNode
  return { jid, registrationId, identityPub, signedPreKeyId, signedPreKeyPub, oneTimePreKeyId,
           oneTimePreKeyPub }

/-- `attrs.get(..)` -/
def attr (node : Node) (key : String) : Option String := node.attrs.get? key

/-- The id of the receipt, or of its `<retry>`. -/
def receiptId (node : Node) : Option String :=
  (attr node "id").or ((nodeChild node "retry").bind fun r => attr r "id")

def parseInboundRetryReceipt (node : Node) : Option RetryRequest :=
  if node.tag ≠ "receipt" ∨ attr node "type" ≠ some "retry" then none
  else do
    let deviceJid := (← attr node "from").toList
    let retryChild := nodeChild node "retry"
    let msgId ← receiptId node
    let count := (((retryChild.bind fun r => attr r "count").bind fun c =>
      Text.parseUint (2 ^ 32) c.toList)).getD 1
    let registrationId := ((nodeChildBytes node "registration").bind beU32).getD 0
    let bundle := (nodeChild node "keys").bind fun k =>
      parseRetryKeysBundle k deviceJid registrationId
    return { msgId, deviceJid, count, bundle }

/-! ## 2. Who may have a message -/

/-- The device that sent a receipt: for a group it is the participant. -/
def asker (node : Node) : Option (List Char) :=
  (attr node "from").map fun jid =>
    if groupServer <:+ jid.toList then ((attr node "participant").getD jid).toList
    else jid.toList

section

variable (table : List LidPnRow) (sessionId : String)

/-- **Whose device may have a message**: its receiver's, a member's of its group, or our own. -/
def Entitled (members : List Char → List (List Char)) (ownJid : Option (List Char))
    (chat device : List Char) : Prop :=
  (¬groupServer <:+ chat ∧
      canonicalUserJid table sessionId device = canonicalUserJid table sessionId chat) ∨
    (groupServer <:+ chat ∧ ∃ p ∈ members chat,
      canonicalUserJid table sessionId device = canonicalUserJid table sessionId p) ∨
    ∃ own, ownJid = some own ∧
      canonicalUserJid table sessionId device = canonicalUserJid table sessionId own

variable (P : SignalPrimitives) (keys : DeviceKeys) (order : MostRecent)

/-- **No receipt gives a message away**: with this cache, whatever else the session has stored and
    counted, and whatever the server answers, a stanza that goes out has a message of the cache, for
    a device that may have it and that asked for it. -/
def Confidential (members : List Char → List (List Char)) (ownJid : Option (List Char))
    (sends : List RecentSend) (node : Node) : Prop :=
  ∀ req, parseInboundRetryReceipt node = some req → ∀ (s : State) (given : Given P),
    s.jid = ownJid → s.recentSends = sends → ∀ r,
      (handleInboundRetryReceipt P keys order table sessionId s req given).2 = some r →
      ∃ sent, s.recentSend r.msgId = some sent ∧
        Entitled table sessionId members ownJid sent.chatJid r.jid ∧ some r.jid = asker node

/-- **The condition**: the receipt is none, or of no message of the cache, or its `from` is the
    device that asked, and may have the message. -/
def Rightful (members : List Char → List (List Char)) (ownJid : Option (List Char))
    (sends : List RecentSend) (node : Node) : Prop :=
  node.tag = "receipt" → attr node "type" = some "retry" → ∀ jid id sent,
    attr node "from" = some jid → receiptId node = some id →
    sends.reverse.find? (fun r => r.msgId = id) = some sent →
    Entitled table sessionId members ownJid sent.chatJid jid.toList ∧
      asker node = some jid.toList

end

/-! ## 3. What a receipt does -/

section

variable {P : SignalPrimitives} {keys : DeviceKeys} {order : MostRecent} {table : List LidPnRow}
  {sessionId : String} {node : Node} {req : RetryRequest}

/-- **What a receipt is read as.** -/
theorem parse_some (h : parseInboundRetryReceipt node = some req) :
    node.tag = "receipt" ∧ attr node "type" = some "retry" ∧
      receiptId node = some req.msgId ∧ ∃ jid, attr node "from" = some jid ∧
        req.deviceJid = jid.toList := by
  unfold parseInboundRetryReceipt at h
  split at h
  · cases h
  · rename_i hretry
    obtain ⟨htag, htype⟩ := not_or.mp hretry
    obtain ⟨jid, hjid, h⟩ := Option.bind_eq_some_iff.mp h
    obtain ⟨id, hid, h⟩ := Option.bind_eq_some_iff.mp h
    cases h
    exact ⟨not_not.mp htag, not_not.mp htype, hid, jid, hjid, rfl⟩

/-- Nothing but the id and the device is required. -/
theorem parse_exists {jid id : String} (htag : node.tag = "receipt")
    (htype : attr node "type" = some "retry") (hjid : attr node "from" = some jid)
    (hid : receiptId node = some id) :
    ∃ req, parseInboundRetryReceipt node = some req ∧ req.msgId = id ∧
      req.deviceJid = jid.toList := by
  unfold parseInboundRetryReceipt
  rw [if_neg (not_or.mpr ⟨not_not.mpr htag, not_not.mpr htype⟩), hjid, hid]
  exact ⟨_, rfl, rfl, rfl⟩

/-- **A stanza that goes out** is for the device of the request, with a message of the cache. -/
theorem resend_device {s : State} {given : Given P} {r : Resend}
    (h : (handleInboundRetryReceipt P keys order table sessionId s req given).2 = some r) :
    r.jid = req.deviceJid ∧ r.msgId = req.msgId ∧
      ∃ sent, s.recentSend req.msgId = some sent := by
  unfold handleInboundRetryReceipt at h
  cases hsent : s.recentSend req.msgId with
  | none =>
      rw [hsent] at h
      cases h
  | some sent =>
      rw [hsent] at h
      dsimp only at h
      split at h
      · cases h
      · split at h
        · cases h
        · obtain ⟨rec, -, rfl⟩ := Option.map_eq_some_iff.mp h
          exact ⟨rfl, rfl, sent, rfl⟩

/-- A session in which nothing stands in the way. -/
def State.ofSends (ownJid : Option (List Char)) (sends : List RecentSend) : State where
  jid := ownJid
  recentSends := sends
  incomingRetries _ := 0
  recreateHistory _ := none
  store _ := none

/-- A server that has keys for every device. -/
def Given.generous (P : SignalPrimitives) (bundle : DevicePrekeyBundle) (draw : Draw) : Given P where
  now := 0
  install := draw
  fetchOne _ := some (bundle, draw)
  fetch _ := .error "timeout"
  fresh _ := draw.ratchetPriv
  pad := 1
  deviceSent _ _ := none
  apart _ _ h := nomatch h

/-- Nothing is stored: the device gets a session, from its own keys or from the server's. -/
theorem reestablish_generous (P : SignalPrimitives) (keys : DeviceKeys) (order : MostRecent)
    (table : List LidPnRow) (sessionId : String) (req : RetryRequest)
    (bundle : DevicePrekeyBundle) (draw : Draw) {s : State} (hempty : s.store = fun _ => none) :
    ∃ installed, (s.reestablish P keys order table sessionId req (.generous P bundle draw)).store =
      installSessionFromBundle P keys (fun _ => none) req.deviceJid installed draw := by
  have hnone : hasSignalSession order table sessionId s.store req.deviceJid = false := by
    rw [hempty]
    exact List.any_eq_false.mpr fun _ _ h => nomatch h
  unfold State.reestablish
  cases req.bundle with
  | some b =>
      refine ⟨b, ?_⟩
      dsimp only
      rw [hempty]
      rfl
  | none =>
      refine ⟨bundle, ?_⟩
      dsimp only
      rw [hnone]
      unfold State.shouldRecreateSession
      dsimp only
      rw [hempty]
      rfl

/-- One request more. -/
def State.bumped (s : State) (device : List Char) (msgId : String) : State :=
  { s with
    incomingRetries := Function.update s.incomingRetries (device, msgId)
      (s.incomingRetries (device, msgId) + 1) }

/-- A message of the cache that can be encrypted for the device goes out. -/
theorem handle_sent {s after : State} {given : Given P} {sent : RecentSend}
    {first : EncryptedRecipient} {rest : List EncryptedRecipient} {store : SessionStore}
    (hsent : s.recentSend req.msgId = some sent)
    (hpatient : s.incomingRetries (req.deviceJid, req.msgId) + 1 < MAX_INCOMING_RETRIES)
    (hafter : (s.bumped req.deviceJid req.msgId).reestablish P keys order table sessionId req given =
      after)
    (hencrypted :
      let padded := resendPlaintext P order table sessionId after.jid sent req.deviceJid given
      encryptPerDevice P keys order table sessionId given.fetch given.fresh after.store
        [req.deviceJid] padded padded none = (.ok (first :: rest), store)) :
    (handleInboundRetryReceipt P keys order table sessionId s req given).2 =
      some ⟨req.msgId, req.deviceJid, req.count, first.message⟩ := by
  unfold handleInboundRetryReceipt
  rw [hsent]
  dsimp only
  rw [if_neg (Nat.not_le.mpr hpatient)]
  unfold State.bumped at hafter
  rw [hafter, hencrypted]
  rfl

/-- **One goes out** for every message of the cache. -/
theorem resend_possible (P : SignalPrimitives) (keys : DeviceKeys) (order : MostRecent)
    (table : List LidPnRow) (sessionId : String) (ownJid : Option (List Char))
    {sends : List RecentSend} {sent : RecentSend}
    (hsent : sends.reverse.find? (fun r => r.msgId = req.msgId) = some sent) :
    ∃ given : Given P, ∃ r, (handleInboundRetryReceipt P keys order table sessionId
      (.ofSends ownJid sends) req given).2 = some r := by
  let zero : U8Array 32 := .replicate 32 0
  let bundle : DevicePrekeyBundle := ⟨[], 0, zero, 0, zero, none, none⟩
  let given := Given.generous P bundle ⟨zero, zero⟩
  let counted := (State.ofSends ownJid sends).bumped req.deviceJid req.msgId
  obtain ⟨installed, hstore⟩ := reestablish_generous P keys order table sessionId req bundle
    ⟨zero, zero⟩ (show counted.store = fun _ => none from rfl)
  generalize hafter : counted.reestablish P keys order table sessionId req given = after at hstore
  have halone : Alone order table sessionId (installSessionFromBundle P keys (fun _ => none)
      req.deviceJid installed ⟨zero, zero⟩) req.deviceJid :=
    (alone_installed _).mpr fun _ _ _ => rfl
  obtain ⟨m, store, -, -, hencrypted, -, -⟩ := resent_alone given.fetch given.fresh
    (resendPlaintext P order table sessionId after.jid sent req.deviceJid given) halone
  rw [← hstore] at hencrypted
  exact ⟨given, _, handle_sent hsent (show 0 + 1 < MAX_INCOMING_RETRIES by decide) hafter hencrypted⟩

/-- A message of the cache goes wherever a receipt says. -/
theorem rightful_of_confidential {members : List Char → List (List Char)}
    {ownJid : Option (List Char)} {sends : List RecentSend}
    (h : Confidential table sessionId P keys order members ownJid sends node) :
    Rightful table sessionId members ownJid sends node := by
  intro htag htype jid id sent hjid hid hsent
  obtain ⟨req, hparse, rfl, hdevice⟩ := parse_exists htag htype hjid hid
  obtain ⟨given, r, hr⟩ := resend_possible P keys order table sessionId ownJid hsent
  obtain ⟨sent', hsent', hentitled, hasker⟩ :=
    h req hparse (.ofSends ownJid sends) given rfl rfl r hr
  obtain ⟨haddressed, hid, -⟩ := resend_device hr
  rw [hid] at hsent'
  cases hsent.symm.trans hsent'
  rw [haddressed, hdevice] at hentitled hasker
  exact ⟨hentitled, hasker.symm⟩

theorem confidential_of_rightful {members : List Char → List (List Char)}
    {ownJid : Option (List Char)} {sends : List RecentSend}
    (h : Rightful table sessionId members ownJid sends node) :
    Confidential table sessionId P keys order members ownJid sends node := by
  rintro req hparse s given rfl rfl r hr
  obtain ⟨htag, htype, hid, jid, hjid, hdevice⟩ := parse_some hparse
  obtain ⟨haddressed, hmsg, sent, hsent⟩ := resend_device hr
  obtain ⟨hentitled, hasker⟩ := h htag htype jid req.msgId sent hjid hid hsent
  refine ⟨sent, by rw [hmsg, hsent], ?_, ?_⟩
  · rw [haddressed, hdevice]
    exact hentitled
  · rw [haddressed, hdevice, hasker]

end

/-- **Who gets a message once more**, for every cache and every receipt, and whatever is known of
    addresses and groups. -/
theorem confidential_iff (P : SignalPrimitives) (keys : DeviceKeys) (order : MostRecent)
    (table : List LidPnRow) (sessionId : String) (members : List Char → List (List Char))
    (ownJid : Option (List Char)) (sends : List RecentSend) (node : Node) :
    Confidential table sessionId P keys order members ownJid sends node ↔
      Rightful table sessionId members ownJid sends node :=
  ⟨rightful_of_confidential, confidential_of_rightful⟩

namespace Sample

def contact : List Char := "5511990000006@s.whatsapp.net".toList
def stranger : List Char := "5511990000007@s.whatsapp.net".toList
def group : List Char := "120363000000000001@g.us".toList

def members (chat : List Char) : List (List Char) := if chat = group then [contact] else []

/-- One message to the contact, and one to the contact's group. -/
def sends : List RecentSend :=
  [⟨"m", contact, Signal.Known.hi⟩, ⟨"g", group, Signal.Known.hi⟩]

def receipt (jid id : String) : SortedMap String String :=
  ((SortedMap.empty.insert "type" "retry").insert "from" jid).insert "id" id

/-- The stranger asks for the message to the contact. -/
def byStranger : Node := ⟨"receipt", receipt "5511990000007@s.whatsapp.net" "m", .none⟩

/-- The contact asks for the message to the group. -/
def byMember : Node :=
  ⟨"receipt", (receipt "120363000000000001@g.us" "g").insert "participant"
    "5511990000006@s.whatsapp.net", .none⟩

end Sample

/-- A stranger that names the id of a message gets it; and what a member asks for in a group is not
    sent to the member. -/
theorem stranger_served :
    ¬Confidential [] "s" Signal.Known.primitives Sample.ours (.byInsertion _) Sample.members
        (some Sample.byNumber.jid) Sample.sends Sample.byStranger ∧
      ¬Confidential [] "s" Signal.Known.primitives Sample.ours (.byInsertion _) Sample.members
        (some Sample.byNumber.jid) Sample.sends Sample.byMember := by
  constructor
  · intro h
    obtain ⟨hdirect | hgroup | ⟨own, hown, hours⟩, -⟩ :=
      rightful_of_confidential h rfl rfl _ "m" ⟨"m", Sample.contact, Signal.Known.hi⟩ rfl rfl rfl
    · exact absurd hdirect.2 (by decide)
    · exact absurd hgroup.1 (by decide)
    · cases hown
      exact absurd hours (by decide)
  · intro h
    obtain ⟨-, hasker⟩ :=
      rightful_of_confidential h rfl rfl _ "g" ⟨"g", Sample.group, Signal.Known.hi⟩ rfl rfl rfl
    exact absurd hasker (by decide)

end Ruwa.Session.Retry
