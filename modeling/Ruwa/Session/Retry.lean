/-
  File:      Ruwa/Session/Retry.lean
  Subject:   ANSWERING A RETRY RECEIPT (`session.rs`, `handle_inbound_retry_receipt`): a device that
             could not read a message sends its keys, and gets the message once more.

  A session is installed from the keys under the address of the receipt. The message is then
  encrypted like any other: the copies of the session are brought together first, and a device that
  has none left gets a session from keys that the server is asked for.

  * `encryptPerDevice_found`, `encryptPerDevice_asked` -- one device, with a session and without;
  * `resent_alone`, `resent_forked` -- the receipt's session is used, or it is one copy too many;
  * **`retry_converges`** -- the message goes out under the installed session, and one record is left
    for the device, exactly when the store holds nothing else for it that is in the way.
-/
import Ruwa.Session.Addresses
import Ruwa.Session.Padding

namespace Ruwa.Session.Retry

open Ruwa.Library
open Ruwa.Crypto
open Ruwa.Crypto.Signal (SignalPrimitives SignalError SessionState CiphertextMessage djb)
open Ruwa.Session.Addresses

/-! ## 1. Sessions from keys -/

structure DeviceKeys where
  identityPriv : U8Array 32
  identityPub : U8Array 32
  registrationId : UInt32

/-- The keys of a device, from its own receipt or from the server. -/
structure DevicePrekeyBundle where
  jid : List Char
  registrationId : UInt32
  identityPub : U8Array 32
  signedPreKeyId : UInt32
  signedPreKeyPub : U8Array 32
  oneTimePreKeyId : Option UInt32
  oneTimePreKeyPub : Option (U8Array 32)

/-- The two key pairs that are generated for a session. -/
structure Draw where
  basePriv : U8Array 32
  ratchetPriv : U8Array 32

structure EncryptedRecipient where
  jid : List Char
  message : CiphertextMessage

inductive SendError
  | corrupt
  | prekeyFetch (e : String)
  | noCurrentState (address : List Char)
  | encrypt (e : SignalError)
  | noEncryptableDevices (n : Nat)

section

variable (P : SignalPrimitives) (keys : DeviceKeys)

def sessionFromBundle (bundle : DevicePrekeyBundle) (draw : Draw) : SessionState :=
  let basePub := P.x25519.pub draw.basePriv
  { Signal.initiateAlice P
      { localIdentityPriv := keys.identityPriv
        localIdentityPub := keys.identityPub
        localBasePriv := draw.basePriv
        localBasePub := basePub
        localRatchetPriv := draw.ratchetPriv
        localRatchetPub := P.x25519.pub draw.ratchetPriv
        remoteIdentityPub := bundle.identityPub
        remoteSignedPrekeyPub := bundle.signedPreKeyPub
        remoteOneTimePrekeyPub := bundle.oneTimePreKeyPub } with
    localRegistrationId := keys.registrationId
    remoteRegistrationId := bundle.registrationId
    pendingPreKey := some ⟨bundle.oneTimePreKeyId, bundle.signedPreKeyId, basePub⟩ }

def recordFromBundle (bundle : DevicePrekeyBundle) (draw : Draw) : SessionRecord :=
  ⟨some (sessionFromBundle P keys bundle draw), []⟩

def installSessionFromBundle (store : SessionStore) (device : List Char)
    (bundle : DevicePrekeyBundle) (draw : Draw) : SessionStore :=
  saveRecord store device (recordFromBundle P keys bundle draw)

/-! ## 2. `encrypt_per_device` -/

/-- The first message of a session is a PreKey message. -/
def encryptUnder (state : SessionState) (fresh : U8Array 32) (plaintext : Bytes) :
    Except SignalError CiphertextMessage × SessionState :=
  match state.pendingPreKey with
  | some pp =>
      let (cipher, state) := Signal.encryptPreKey P state fresh plaintext keys.registrationId
        pp.baseKeyPub keys.identityPub pp.signedPreKeyId pp.preKeyId
      (cipher, { state with pendingPreKey := none })
  | none => Signal.encrypt P state fresh plaintext

/-- A hash map of records. -/
abbrev Records := List Char → Option SessionRecord

def loadRecord (store : SessionStore) (address : List Char) :
    Except SendError (Option SessionRecord) :=
  match store address with
  | none => .ok none
  | some .corrupt => .error .corrupt
  | some (.record r) => .ok (some r)

section

variable (order : MostRecent) (table : List LidPnRow) (sessionId : String)

/-- Each device with the address to encrypt under, as the copies are brought together. -/
def encryptionTargets (store : SessionStore) :
    List (List Char) → List (List Char × List Char) × SessionStore
  | [] => ([], store)
  | d :: ds =>
      let (enc, store) := encryptionAddress order table sessionId store d
      let (targets, store) := encryptionTargets store ds
      ((d, enc) :: targets, store)

theorem encryptionTargets_cons (store : SessionStore) (d : List Char) (ds : List (List Char)) :
    encryptionTargets order table sessionId store (d :: ds) =
      ((d, (encryptionAddress order table sessionId store d).1) ::
        (encryptionTargets order table sessionId
          (encryptionAddress order table sessionId store d).2 ds).1,
        (encryptionTargets order table sessionId
          (encryptionAddress order table sessionId store d).2 ds).2) := by
  rw [encryptionTargets]

/-- The sessions there are, and the addresses without one. -/
def partitionTargets (store : SessionStore) :
    List (List Char × List Char) → Except SendError (Records × List (List Char))
  | [] => .ok (fun _ => none, [])
  | (_, enc) :: targets => do
      let found ← loadRecord store enc
      let (existing, needsBundle) ← partitionTargets store targets
      match found with
      | some r =>
          if r.current.isSome then return (Function.update existing enc (some r), needsBundle)
          else return (existing, enc :: needsBundle)
      | none => return (existing, enc :: needsBundle)

def addReply (records : Records) (p : DevicePrekeyBundle × Draw) : Records :=
  Function.update records p.1.jid (some (recordFromBundle P keys p.1 p.2))

/-- Sessions from the keys that the server knows, one request for all. -/
def bootstrap (fetch : List (List Char) → Except String (List (DevicePrekeyBundle × Draw)))
    (needsBundle : List (List Char)) : Except SendError Records :=
  if needsBundle = [] then .ok fun _ => none
  else
    match fetch needsBundle with
    | .error e => .error (.prekeyFetch e)
    | .ok replies => .ok (replies.foldl (addReply P keys) fun _ => none)

/-- Encrypts for one device after the other; one without a session is skipped. -/
def encryptTargets (fresh : List Char → U8Array 32) (padded paddedOwn : Bytes)
    (ownUser : Option (List Char)) :
    List (List Char × List Char) → Records → Records → SessionStore →
      Except SendError (List EncryptedRecipient) × SessionStore
  | [], _, _, store => (.ok [], store)
  | (d, enc) :: targets, existing, bootstrapped, store =>
      let (found, existing, bootstrapped) := match existing enc with
        | some r => (some r, Function.update existing enc none, bootstrapped)
        | none => (bootstrapped enc, existing, Function.update bootstrapped enc none)
      match found with
      | none => encryptTargets fresh padded paddedOwn ownUser targets existing bootstrapped store
      | some r =>
          match r.current with
          | none => (.error (.noCurrentState enc), store)
          | some state =>
              let plaintext := if ownUser = some (lidUserPart d) then paddedOwn else padded
              match encryptUnder P keys state (fresh d) plaintext with
              | (.error e, _) => (.error (.encrypt e), store)
              | (.ok message, state) =>
                  let store := saveRecord store enc { r with current := some state }
                  match encryptTargets fresh padded paddedOwn ownUser targets existing bootstrapped
                      store with
                  | (.error e, store) => (.error e, store)
                  | (.ok out, store) => (.ok (⟨d, message⟩ :: out), store)

def encryptPerDevice (fetch : List (List Char) → Except String (List (DevicePrekeyBundle × Draw)))
    (fresh : List Char → U8Array 32) (store : SessionStore) (deviceJids : List (List Char))
    (padded paddedOwn : Bytes) (ownUser : Option (List Char)) :
    Except SendError (List EncryptedRecipient) × SessionStore :=
  let (targets, store) := encryptionTargets order table sessionId store deviceJids
  match partitionTargets store targets with
  | .error e => (.error e, store)
  | .ok (existing, needsBundle) =>
      match bootstrap P keys fetch needsBundle with
      | .error e => (.error e, store)
      | .ok bootstrapped =>
          match encryptTargets P keys fresh padded paddedOwn ownUser targets existing bootstrapped
              store with
          | (.error e, store) => (.error e, store)
          | (.ok out, store) =>
              if out = [] ∧ targets ≠ [] then (.error (.noEncryptableDevices targets.length), store)
              else (.ok out, store)

end

/-! ## 3. The handler -/

end

structure RetryRequest where
  msgId : String
  deviceJid : List Char
  count : Nat
  bundle : Option DevicePrekeyBundle

structure RecentSend where
  msgId : String
  chatJid : List Char
  innerProto : Bytes

/-- The session in memory, and its rows in the store. -/
structure State where
  jid : Option (List Char)
  recentSends : List RecentSend
  incomingRetries : List Char × String → Nat
  recreateHistory : List Char → Option Int
  store : SessionStore

/-- The stanza that goes out. -/
structure Resend where
  msgId : String
  jid : List Char
  count : Nat
  message : CiphertextMessage

/-- What the rest of the program, the server and the random generator give to one call. No base key
    is generated twice. -/
structure Given (P : SignalPrimitives) where
  now : Int
  install : Draw
  fetchOne : List Char → Option (DevicePrekeyBundle × Draw)
  fetch : List (List Char) → Except String (List (DevicePrekeyBundle × Draw))
  fresh : List Char → U8Array 32
  pad : UInt8
  deviceSent : Bytes → List Char → Option Bytes
  apart : ∀ addresses replies, fetch addresses = .ok replies → ∀ p ∈ replies,
    P.x25519.pub p.2.basePriv ≠ P.x25519.pub install.basePriv

def MAX_INCOMING_RETRIES : Nat := 10
def RECREATE_SESSION_TIMEOUT_SECS : Int := 3600

/-- Newest first. -/
def State.recentSend (s : State) (msgId : String) : Option RecentSend :=
  s.recentSends.reverse.find? fun r => r.msgId = msgId

def State.shouldRecreateSession (s : State) (device : List Char) (hasSession : Bool) (count : Nat)
    (now : Int) : Bool × State :=
  let remembered := { s with recreateHistory := Function.update s.recreateHistory device (some now) }
  if !hasSession then (true, remembered)
  else if count < 2 then (false, s)
  else
    match s.recreateHistory device with
    | some prev =>
        if now - prev < RECREATE_SESSION_TIMEOUT_SECS then (false, s) else (true, remembered)
    | none => (true, remembered)

def jidUser (jid : List Char) : List Char := jid.takeWhile fun c => c ≠ ':' && c ≠ '@'

section

variable (P : SignalPrimitives) (keys : DeviceKeys) (order : MostRecent) (table : List LidPnRow)
  (sessionId : String)

/-- From the keys of the receipt; without them a session is made again only when it is time. -/
def State.reestablish (s : State) (req : RetryRequest) (given : Given P) : State :=
  let install (s : State) (bundle : DevicePrekeyBundle) (draw : Draw) : State :=
    { s with store := installSessionFromBundle P keys s.store req.deviceJid bundle draw }
  match req.bundle with
  | some bundle => install s bundle given.install
  | none =>
      let hasSession := hasSignalSession order table sessionId s.store req.deviceJid
      let (recreate, s) := s.shouldRecreateSession req.deviceJid hasSession req.count given.now
      if recreate then
        match given.fetchOne req.deviceJid with
        | some (bundle, draw) => install s bundle draw
        | none => s
      else s

/-- A device of our own gets the message with its destination. -/
def resendPlaintext (ownJid : Option (List Char)) (sent : RecentSend) (device : List Char)
    (given : Given P) : Bytes :=
  let ownPnUser := ownJid.map jidUser
  let ownLidUser := ownPnUser.bind fun pn => (pnToLid order table sessionId pn).map (·.text)
  let devUser := lidUserPart device
  if ownPnUser = some devUser ∨ ownLidUser = some devUser then
    match given.deviceSent sent.innerProto sent.chatJid with
    | some dsm => padMessage given.pad dsm
    | none => padMessage given.pad sent.innerProto
  else padMessage given.pad sent.innerProto

def handleInboundRetryReceipt (s : State) (req : RetryRequest) (given : Given P) :
    State × Option Resend :=
  match s.recentSend req.msgId with
  | none => (s, none)
  | some sent =>
      let device := req.deviceJid
      let internal := s.incomingRetries (device, req.msgId) + 1
      let s := { s with
        incomingRetries := Function.update s.incomingRetries (device, req.msgId) internal }
      if MAX_INCOMING_RETRIES ≤ internal then (s, none)
      else
        let s := s.reestablish P keys order table sessionId req given
        let padded := resendPlaintext P order table sessionId s.jid sent device given
        match encryptPerDevice P keys order table sessionId given.fetch given.fresh s.store [device]
            padded padded none with
        | (.error _, store) => ({ s with store }, none)
        | (.ok recipients, store) =>
            ({ s with store }, recipients.head?.map fun r => ⟨req.msgId, device, req.count, r.message⟩)

end

/-! ## 4. One device -/

section One

variable {P : SignalPrimitives} {keys : DeviceKeys} {order : MostRecent} {table : List LidPnRow}
  {sessionId : String} {store store' : SessionStore} {d enc : List Char}
  {fetch : List (List Char) → Except String (List (DevicePrekeyBundle × Draw))}
  {fresh : List Char → U8Array 32} {padded : Bytes}

/-- The first message of a session from keys, which names its base key. -/
theorem encryptUnder_fromBundle (P : SignalPrimitives) (keys : DeviceKeys)
    (bundle : DevicePrekeyBundle) (draw : Draw) (fresh : U8Array 32) (plaintext : Bytes) :
    ∃ inner state, encryptUnder P keys (sessionFromBundle P keys bundle draw) fresh plaintext =
      (.ok ⟨Signal.WHISPER_VERSION :: P.preKey.encode
        ⟨some keys.registrationId, bundle.oneTimePreKeyId, some bundle.signedPreKeyId,
          some (djb (P.x25519.pub draw.basePriv)), some (djb keys.identityPub), some inner⟩,
        .preKey⟩, state) := ⟨_, _, rfl⟩

/-- **Sessions of different base keys** give different messages. -/
theorem encryptUnder_apart {bundle bundle' : DevicePrekeyBundle} {draw draw' : Draw}
    {fresh : U8Array 32} {plaintext : Bytes} {m : CiphertextMessage}
    (hapart : P.x25519.pub draw'.basePriv ≠ P.x25519.pub draw.basePriv)
    (h : (encryptUnder P keys (sessionFromBundle P keys bundle draw) fresh plaintext).1 = .ok m)
    (h' : (encryptUnder P keys (sessionFromBundle P keys bundle' draw') fresh plaintext).1 = .ok m) :
    False := by
  obtain ⟨inner, state, hmessage⟩ := encryptUnder_fromBundle P keys bundle draw fresh plaintext
  obtain ⟨inner', state', hmessage'⟩ := encryptUnder_fromBundle P keys bundle' draw' fresh plaintext
  rw [hmessage] at h
  rw [hmessage'] at h'
  have hwire := congrArg (fun m => m.serialized.tail) (Except.ok.inj (h.trans h'.symm))
  have hproto := congrArg P.preKey.decode hwire
  simp only [List.tail_cons, P.preKey.decode_encode, Option.some.injEq] at hproto
  have hbase := congrArg (fun p : Signal.PreKeySignalMessageProto => p.baseKey) hproto
  have hbytes : djb (P.x25519.pub draw.basePriv) = djb (P.x25519.pub draw'.basePriv) :=
    Option.some.inj hbase
  exact hapart (U8Array.ext (List.cons.inj hbytes).2.symm)

/-- **A device with a session** is encrypted for under it. -/
theorem encryptPerDevice_found {state state' : SessionState} {previous : List SessionState}
    {paddedOwn : Bytes} {ownUser : Option (List Char)} {m : CiphertextMessage}
    (hkey : encryptionAddress order table sessionId store d = (enc, store'))
    (hrow : store' enc = some (.record ⟨some state, previous⟩))
    (hencrypt : encryptUnder P keys state (fresh d)
      (if ownUser = some (lidUserPart d) then paddedOwn else padded) = (.ok m, state')) :
    encryptPerDevice P keys order table sessionId fetch fresh store [d] padded paddedOwn ownUser =
      (.ok [⟨d, m⟩], saveRecord store' enc ⟨some state', previous⟩) := by
  have htargets : encryptionTargets order table sessionId store [d] = ([(d, enc)], store') := by
    unfold encryptionTargets
    rw [hkey]
    rfl
  have hparts : partitionTargets store' [(d, enc)] =
      .ok (Function.update (fun _ => none) enc (some ⟨some state, previous⟩), []) := by
    unfold partitionTargets loadRecord
    rw [hrow]
    rfl
  unfold encryptPerDevice
  rw [htargets]
  dsimp only
  rw [hparts]
  dsimp only
  unfold bootstrap
  rw [if_pos rfl]
  dsimp only
  unfold encryptTargets
  rw [Function.update_self]
  dsimp only
  rw [hencrypt]
  rfl

/-- A session that a request brought is from one of its replies. -/
theorem replies_mem {replies : List (DevicePrekeyBundle × Draw)} {records : Records}
    {address : List Char} {r : SessionRecord}
    (h : replies.foldl (addReply P keys) records address = some r) :
    (∃ p ∈ replies, r = recordFromBundle P keys p.1 p.2) ∨ records address = some r := by
  induction replies generalizing records with
  | nil => exact Or.inr h
  | cons p replies ih =>
      rcases ih h with ⟨q, hq, rfl⟩ | hrest
      · exact Or.inl ⟨q, List.mem_cons_of_mem p hq, rfl⟩
      · unfold addReply at hrest
        by_cases haddress : address = p.1.jid
        · subst haddress
          rw [Function.update_self] at hrest
          cases hrest
          exact Or.inl ⟨p, List.mem_cons_self, rfl⟩
        · rw [Function.update_of_ne haddress] at hrest
          exact Or.inr hrest

/-- One address without a session needs keys, unless its row is corrupt. -/
theorem partition_missing (hnone : hasCurrent store' enc = false) :
    partitionTargets store' [(d, enc)] = .error .corrupt ∨
      partitionTargets store' [(d, enc)] = .ok (fun _ => none, [enc]) := by
  unfold partitionTargets loadRecord
  unfold hasCurrent at hnone
  cases hrow : store' enc with
  | none => exact Or.inr rfl
  | some row =>
      cases row with
      | corrupt => exact Or.inl rfl
      | record r =>
          rw [hrow] at hnone
          refine Or.inr ?_
          show (if r.current.isSome then _ else _) = _
          rw [if_neg (Bool.eq_false_iff.mp hnone)]
          rfl

/-- **A device without a session** is encrypted for under one that the server's reply gave. -/
theorem encryptPerDevice_asked {out : List EncryptedRecipient} {after : SessionStore}
    {r : EncryptedRecipient}
    (hkey : encryptionAddress order table sessionId store d = (enc, store'))
    (hnone : hasCurrent store' enc = false)
    (hsent : encryptPerDevice P keys order table sessionId fetch fresh store [d] padded padded none =
      (.ok out, after))
    (hr : out.head? = some r) :
    ∃ replies, fetch [enc] = .ok replies ∧ ∃ p ∈ replies,
      (encryptUnder P keys (sessionFromBundle P keys p.1 p.2) (fresh d) padded).1 = .ok r.message := by
  have htargets : encryptionTargets order table sessionId store [d] = ([(d, enc)], store') := by
    unfold encryptionTargets
    rw [hkey]
    rfl
  unfold encryptPerDevice at hsent
  rw [htargets] at hsent
  dsimp only at hsent
  rcases partition_missing (d := d) hnone with hparts | hparts
  · rw [hparts] at hsent
    cases hsent
  rw [hparts] at hsent
  dsimp only at hsent
  unfold bootstrap at hsent
  rw [if_neg (List.cons_ne_nil enc [])] at hsent
  cases hfetch : fetch [enc] with
  | error e =>
      rw [hfetch] at hsent
      cases hsent
  | ok replies =>
      rw [hfetch] at hsent
      refine ⟨replies, rfl, ?_⟩
      dsimp only at hsent
      unfold encryptTargets at hsent
      dsimp only at hsent
      cases hfound : replies.foldl (addReply P keys) (fun _ => none) enc with
      | none =>
          rw [hfound] at hsent
          unfold encryptTargets at hsent
          simp at hsent
      | some record =>
          rw [hfound] at hsent
          obtain ⟨p, hp, rfl⟩ : ∃ p ∈ replies, record = recordFromBundle P keys p.1 p.2 :=
            (replies_mem hfound).resolve_right nofun
          refine ⟨p, hp, ?_⟩
          obtain ⟨inner, state, hmessage⟩ :=
            encryptUnder_fromBundle P keys p.1 p.2 (fresh d) padded
          simp only [recordFromBundle, hmessage, ite_self] at hsent
          unfold encryptTargets at hsent
          simp only [List.cons_ne_nil, false_and, if_false, Prod.mk.injEq, Except.ok.injEq] at hsent
          obtain ⟨rfl, -⟩ := hsent
          cases hr
          rw [hmessage]

end One

/-! ## 5. The receipt of a device -/

section Receipt

variable (P : SignalPrimitives) (keys : DeviceKeys) (order : MostRecent) (table : List LidPnRow)
  (sessionId : String)

/-- **What the receipt is answered with**: a PreKey message under the session from its keys. No
    other device has its session changed, and the device has one record. -/
structure Converged (f : Form) (bundle : DevicePrekeyBundle) (msgId : String) (given : Given P)
    (s : State) (result : State × Option Resend) : Prop where
  resent : ∃ sent m, s.recentSend msgId = some sent ∧ result.2 = some m ∧ m.jid = f.jid ∧
    m.message.messageType = .preKey ∧
    (encryptUnder P keys (sessionFromBundle P keys bundle given.install) (given.fresh f.jid)
      (resendPlaintext P order table sessionId s.jid sent f.jid given)).1 = .ok m.message
  others : ∀ a, ¬OfDevice table sessionId f a → result.1.store a = s.store a
  single : ∃ a, (OfDevice table sessionId f a ∧ result.1.store a ≠ none) ∧
    ∀ b, OfDevice table sessionId f b ∧ result.1.store b ≠ none → b = a

/-- **The condition**: the message is still there and was not asked for too often, the device has no
    record but under the address of the receipt and the canonical one, and no session under the
    canonical one that is not the receipt's own address. -/
structure Clear (f : Form) (msgId : String) (s : State) : Prop where
  cached : (s.recentSend msgId).isSome = true
  patient : s.incomingRetries (f.jid, msgId) + 1 < MAX_INCOMING_RETRIES
  noOther : ∀ a, OfDevice table sessionId f a → a ≠ f.jid →
    a ≠ canonicalSessionAddress order table sessionId f.jid → s.store a = none
  unforked : canonicalSessionAddress order table sessionId f.jid ≠ f.jid →
    hasCurrent s.store (canonicalSessionAddress order table sessionId f.jid) = false

end Receipt

section Proof

variable {P : SignalPrimitives} {keys : DeviceKeys} {order : MostRecent} {table : List LidPnRow}
  {sessionId : String} {store : SessionStore} {d : List Char} {bundle : DevicePrekeyBundle}
  {given : Given P} {padded : Bytes}

/-- Only the address of the receipt is new. -/
theorem hasCurrent_installed {a : List Char} (draw : Draw) (hne : a ≠ d) :
    hasCurrent (installSessionFromBundle P keys store d bundle draw) a = hasCurrent store a := by
  unfold hasCurrent installSessionFromBundle saveRecord
  rw [Function.update_of_ne hne]

theorem installed_self (draw : Draw) :
    installSessionFromBundle P keys store d bundle draw d =
      some (.record (recordFromBundle P keys bundle draw)) := Function.update_self ..

/-- **The session of the receipt is used**, if it is the only copy. -/
theorem resent_alone (fetch : List (List Char) → Except String (List (DevicePrekeyBundle × Draw)))
    (fresh : List Char → U8Array 32) (padded : Bytes) {draw : Draw}
    (halone : Alone order table sessionId (installSessionFromBundle P keys store d bundle draw) d) :
    ∃ m after, (encryptUnder P keys (sessionFromBundle P keys bundle draw) (fresh d) padded).1 =
        .ok m ∧ m.messageType = .preKey ∧
      encryptPerDevice P keys order table sessionId fetch fresh
        (installSessionFromBundle P keys store d bundle draw) [d] padded padded none =
          (.ok [⟨d, m⟩], after) ∧
      after (canonicalSessionAddress order table sessionId d) ≠ none ∧
      ∀ a, a ≠ canonicalSessionAddress order table sessionId d →
        after a = if a = d then none else store a := by
  have hkey := encryptionAddress_single (installed_self draw) rfl halone
  obtain ⟨inner, state, hmessage⟩ :=
    encryptUnder_fromBundle P keys bundle draw (fresh d) padded
  generalize hcanonical : canonicalSessionAddress order table sessionId d = canonical at hkey ⊢
  by_cases hsame : canonical = d
  · subst hsame
    rw [if_pos rfl] at hkey
    refine ⟨_, _, congrArg Prod.fst hmessage, rfl,
      encryptPerDevice_found hkey (installed_self draw) hmessage, ?_, fun a ha => ?_⟩
    · unfold saveRecord
      rw [Function.update_self]
      nofun
    · unfold saveRecord installSessionFromBundle saveRecord
      rw [Function.update_of_ne ha, Function.update_of_ne ha, if_neg ha]
  · rw [if_neg hsame] at hkey
    have hmoved : deleteRecord (saveRecord (installSessionFromBundle P keys store d bundle draw)
        canonical (recordFromBundle P keys bundle draw)) d canonical =
          some (.record (recordFromBundle P keys bundle draw)) := by
      unfold deleteRecord saveRecord
      rw [Function.update_of_ne hsame, Function.update_self]
    refine ⟨_, _, congrArg Prod.fst hmessage, rfl, encryptPerDevice_found hkey hmoved hmessage, ?_,
      fun a ha => ?_⟩
    · unfold saveRecord
      rw [Function.update_self]
      nofun
    · unfold saveRecord deleteRecord
      rw [Function.update_of_ne ha]
      by_cases had : a = d
      · rw [had, Function.update_self, if_pos rfl]
      · rw [Function.update_of_ne had, if_neg had]
        unfold installSessionFromBundle saveRecord
        rw [Function.update_of_ne ha, Function.update_of_ne had]

/-- **A second copy** loses the session of the receipt: what is sent, if anything, is under another
    one. -/
theorem resent_forked
    (hforked : ¬Alone order table sessionId
      (installSessionFromBundle P keys store d bundle given.install) d)
    {out : List EncryptedRecipient} {after : SessionStore} {r : EncryptedRecipient}
    (hsent : encryptPerDevice P keys order table sessionId given.fetch given.fresh
      (installSessionFromBundle P keys store d bundle given.install) [d] padded padded none =
        (.ok out, after))
    (hr : out.head? = some r) :
    (encryptUnder P keys (sessionFromBundle P keys bundle given.install) (given.fresh d) padded).1 ≠
      .ok r.message := by
  have hhas : hasCurrent (installSessionFromBundle P keys store d bundle given.install) d = true := by
    unfold hasCurrent
    rw [installed_self]
    rfl
  obtain ⟨hkey, hnone⟩ := encryptionAddress_forked hhas hforked
  obtain ⟨replies, hfetch, p, hp, hmessage⟩ := encryptPerDevice_asked hkey hnone hsent hr
  exact fun hsame => encryptUnder_apart (given.apart _ replies hfetch p hp) hsame hmessage

/-- A receipt with keys, past the two checks. -/
theorem handle_asked (P : SignalPrimitives) (keys : DeviceKeys) (order : MostRecent)
    (table : List LidPnRow) (sessionId : String) {s : State} {msgId : String} (count : Nat)
    {sent : RecentSend} (bundle : DevicePrekeyBundle) (given : Given P)
    (hsent : s.recentSend msgId = some sent)
    (hpatient : s.incomingRetries (d, msgId) + 1 < MAX_INCOMING_RETRIES) :
    let result := handleInboundRetryReceipt P keys order table sessionId s
      ⟨msgId, d, count, some bundle⟩ given
    let padded := resendPlaintext P order table sessionId s.jid sent d given
    let encrypted := encryptPerDevice P keys order table sessionId given.fetch given.fresh
      (installSessionFromBundle P keys s.store d bundle given.install) [d] padded padded none
    result.1.store = encrypted.2 ∧
      result.2 = encrypted.1.toOption.bind fun out =>
        out.head?.map fun r => ⟨msgId, d, count, r.message⟩ := by
  intro result padded encrypted
  unfold result handleInboundRetryReceipt
  rw [hsent]
  dsimp only
  rw [if_neg (Nat.not_le.mpr hpatient)]
  unfold State.reestablish
  dsimp only
  rcases hencrypted : encrypted with ⟨out, store⟩
  unfold encrypted padded at hencrypted
  rw [hencrypted]
  cases out with
  | error e => exact ⟨rfl, rfl⟩
  | ok recipients => exact ⟨rfl, rfl⟩

/-- Without the message, or after too many requests, nothing is sent. -/
theorem handle_refused {s : State} {req : RetryRequest}
    (h : (s.recentSend req.msgId).isSome = true →
      MAX_INCOMING_RETRIES ≤ s.incomingRetries (req.deviceJid, req.msgId) + 1) :
    (handleInboundRetryReceipt P keys order table sessionId s req given).2 = none := by
  unfold handleInboundRetryReceipt
  cases hsent : s.recentSend req.msgId with
  | none => rfl
  | some sent =>
      rw [hsent] at h
      dsimp only
      rw [if_pos (h rfl)]

/-- The only copy, in terms of what was stored before. -/
theorem alone_installed (draw : Draw) :
    Alone order table sessionId (installSessionFromBundle P keys store d bundle draw) d ↔
      ∀ a ∈ candidates order table sessionId d, a ≠ d → hasCurrent store a = false := by
  unfold Alone
  constructor
  · intro halone a ha hne
    refine Bool.eq_false_iff.mpr fun hcurrent => hne (halone a ha ?_)
    rw [hasCurrent_installed draw hne]
    exact hcurrent
  · intro hclear a ha hcurrent
    by_contra hne
    rw [hasCurrent_installed draw hne, hclear a ha hne] at hcurrent
    cases hcurrent

section Form

variable {f : Form} {s : State} {msgId : String} {count : Nat}

theorem canonical_ofDevice (order : MostRecent) (hkeyed : Keyed table) (f : Form) :
    OfDevice table sessionId f (canonicalSessionAddress order table sessionId f.jid) := by
  obtain ⟨g, hg, hsame⟩ := canonical_form order hkeyed f
  exact ⟨g, hg.symm, hsame⟩

theorem clear_of_converged (hkeyed : Keyed table)
    (h : Converged P keys order table sessionId f bundle msgId given s
      (handleInboundRetryReceipt P keys order table sessionId s
        ⟨msgId, f.jid, count, some bundle⟩ given)) :
    Clear order table sessionId f msgId s := by
  obtain ⟨sent, m, hsent, hresend, -, -, hunder⟩ := h.resent
  have hpatient : s.incomingRetries (f.jid, msgId) + 1 < MAX_INCOMING_RETRIES := by
    by_contra hmany
    have hnone : (handleInboundRetryReceipt P keys order table sessionId s
        ⟨msgId, f.jid, count, some bundle⟩ given).2 = none :=
      handle_refused fun _ => Nat.not_lt.mp hmany
    cases hnone.symm.trans hresend
  obtain ⟨hstore, hout⟩ :=
    handle_asked P keys order table sessionId count bundle given hsent hpatient
  have halone : Alone order table sessionId
      (installSessionFromBundle P keys s.store f.jid bundle given.install) f.jid := by
    by_contra hforked
    rw [hout] at hresend
    rcases hencrypted : encryptPerDevice P keys order table sessionId given.fetch given.fresh
      (installSessionFromBundle P keys s.store f.jid bundle given.install) [f.jid]
      (resendPlaintext P order table sessionId s.jid sent f.jid given)
      (resendPlaintext P order table sessionId s.jid sent f.jid given) none with ⟨out, after⟩
    rw [hencrypted] at hresend
    cases out with
    | error e => cases hresend
    | ok recipients =>
        obtain ⟨r, hr, rfl⟩ := Option.map_eq_some_iff.mp hresend
        exact resent_forked hforked hencrypted hr hunder
  obtain ⟨m', after, -, -, hencrypted, hkept, hrest⟩ := resent_alone given.fetch given.fresh
    (resendPlaintext P order table sessionId s.jid sent f.jid given) halone
  rw [hencrypted] at hstore
  dsimp only at hstore
  refine ⟨Option.isSome_iff_exists.mpr ⟨sent, hsent⟩, hpatient, fun a ha hne hother => ?_,
    fun hmoved => ?_⟩
  · obtain ⟨b, -, honly⟩ := h.single
    rw [hstore] at honly
    by_contra hrow
    have hafter := hrest a hother
    rw [if_neg hne] at hafter
    have hab := honly a ⟨ha, hafter ▸ hrow⟩
    exact hother (hab.trans (honly _ ⟨canonical_ofDevice order hkeyed f, hkept⟩).symm)
  · exact (alone_installed given.install).mp halone _ (mem_candidates.mpr (Or.inr (Or.inl rfl)))
      hmoved

theorem alone_of_clear (hkeyed : Keyed table) (h : Clear order table sessionId f msgId s)
    (draw : Draw) :
    Alone order table sessionId (installSessionFromBundle P keys s.store f.jid bundle draw)
      f.jid := by
  refine (alone_installed draw).mpr fun a ha hne => ?_
  by_cases hother : a = canonicalSessionAddress order table sessionId f.jid
  · rw [hother] at hne ⊢
    exact h.unforked hne
  · unfold hasCurrent
    rw [h.noOther a (candidates_ofDevice hkeyed f ha) hne hother]

theorem converged_of_clear (hkeyed : Keyed table) (h : Clear order table sessionId f msgId s) :
    Converged P keys order table sessionId f bundle msgId given s
      (handleInboundRetryReceipt P keys order table sessionId s
        ⟨msgId, f.jid, count, some bundle⟩ given) := by
  have hcanonical : OfDevice table sessionId f
      (canonicalSessionAddress order table sessionId f.jid) := canonical_ofDevice order hkeyed f
  have hself : OfDevice table sessionId f f.jid := ofDevice_self f
  obtain ⟨sent, hsent⟩ := Option.isSome_iff_exists.mp h.cached
  obtain ⟨hstore, hout⟩ :=
    handle_asked P keys order table sessionId count bundle given hsent h.patient
  obtain ⟨m, after, hunder, htype, hencrypted, hkept, hrest⟩ := resent_alone given.fetch given.fresh
    (resendPlaintext P order table sessionId s.jid sent f.jid given)
    (alone_of_clear hkeyed h given.install)
  rw [hencrypted] at hstore hout
  dsimp only at hstore
  refine ⟨⟨sent, ⟨msgId, f.jid, count, m⟩, hsent, hout, rfl, htype, hunder⟩, fun a ha => ?_,
    ⟨_, ⟨hcanonical, ?_⟩, fun b hb => ?_⟩⟩
  · have hne : a ≠ f.jid := fun hd => ha (hd ▸ hself)
    rw [hstore, hrest a fun hc => ha (hc ▸ hcanonical), if_neg hne]
  · rw [hstore]
    exact hkept
  · rw [hstore] at hb
    by_contra hother
    have hrow := hrest b hother
    by_cases hbself : b = f.jid
    · rw [if_pos hbself] at hrow
      exact hb.2 hrow
    · rw [if_neg hbself, h.noOther b hb.1 hbself hother] at hrow
      exact hb.2 hrow

end Form

end Proof

/-- **Answering a retry receipt** that carries keys, for every store, every map that was learned and
    every form of the device's address. -/
theorem retry_converges (P : SignalPrimitives) (keys : DeviceKeys) (order : MostRecent)
    (sessionId : String) (puts : List LidPnRow) (s : State) (f : Form) (msgId : String)
    (count : Nat) (bundle : DevicePrekeyBundle) (given : Given P) :
    Converged P keys order (learned puts) sessionId f bundle msgId given s
        (handleInboundRetryReceipt P keys order (learned puts) sessionId s
          ⟨msgId, f.jid, count, some bundle⟩ given) ↔
      Clear order (learned puts) sessionId f msgId s :=
  ⟨clear_of_converged (learned_keyed puts), converged_of_clear (learned_keyed puts)⟩

namespace Sample

open Signal.Known

def number : UserPart :=
  ⟨"31612345678".toList, by decide, List.all_iff_forall_prop.mp (by decide)⟩
def lid : UserPart :=
  ⟨"64000000000003".toList, by decide, List.all_iff_forall_prop.mp (by decide)⟩

def puts : List LidPnRow := [⟨"s", lid, number, 1⟩]

/-- The primary device under its number, and under its LID with an agent and without. -/
def byNumber : Form := ⟨number, none, none, .pn⟩
def byAgent : Form := ⟨lid, some 1, none, .lid⟩
def byLid : Form := ⟨lid, none, none, .lid⟩

def ours : DeviceKeys := ⟨aliceId, aliceIdPub, 7⟩

def theirs : DevicePrekeyBundle := ⟨byNumber.jid, 9, bobIdPub, 1, bobSpkPub, some 2, some bobOpkPub⟩

/-- Another device, and what is drawn for a session with it. -/
def other : DevicePrekeyBundle :=
  ⟨"31687654321@s.whatsapp.net".toList, 5, ratchet₁Pub, 1, bobOpkPub, none, none⟩
def otherDraw : Draw := ⟨ratchet₂, ratchet₃⟩

/-- The server answers for the other device only. -/
def given : Given primitives where
  now := 0
  install := ⟨aliceBase, ratchet₁⟩
  fetchOne _ := none
  fetch addresses := if addresses = [other.jid] then .ok [(other, otherDraw)] else .error "timeout"
  fresh _ := ratchet₃
  pad := 1
  deviceSent _ _ := none
  apart addresses replies h p hp := by
    split at h
    · cases h
      rw [List.mem_singleton.mp hp]
      decide +kernel
    · cases h

/-- A message was sent, under the session that is filed under the LID. -/
def sent : State where
  jid := none
  recentSends := [⟨"m", byNumber.jid, hi⟩]
  incomingRetries _ := 0
  recreateHistory _ := none
  store := saveRecord (fun _ => none) byAgent.jid ⟨some alice, []⟩

def answer (f : Form) : State × Option Resend :=
  handleInboundRetryReceipt primitives ours (.byInsertion _) (learned puts) "s" sent
    ⟨"m", f.jid, 1, some theirs⟩ given

end Sample

/-- A receipt from the number finds the session under the LID: both are deleted, and nothing is sent
    while the server does not answer. After one from the LID without its agent there are two. -/
theorem retry_diverges :
    ((Sample.answer Sample.byNumber).2.isNone = true ∧
      ¬Converged Signal.Known.primitives Sample.ours (.byInsertion _) (learned Sample.puts) "s"
        Sample.byNumber Sample.theirs "m" Sample.given Sample.sent
        (Sample.answer Sample.byNumber)) ∧
    (((Sample.answer Sample.byLid).1.store Sample.byLid.jid).isSome = true ∧
      ((Sample.answer Sample.byLid).1.store Sample.byAgent.jid).isSome = true ∧
      ¬Converged Signal.Known.primitives Sample.ours (.byInsertion _) (learned Sample.puts) "s"
        Sample.byLid Sample.theirs "m" Sample.given Sample.sent (Sample.answer Sample.byLid)) := by
  have hnone : (Sample.answer Sample.byNumber).2.isNone = true := by decide +kernel
  have hself : ((Sample.answer Sample.byLid).1.store Sample.byLid.jid).isSome = true := by
    decide +kernel
  have hagent : ((Sample.answer Sample.byLid).1.store Sample.byAgent.jid).isSome = true := by
    decide +kernel
  refine ⟨⟨hnone, fun h => ?_⟩, hself, hagent, fun h => ?_⟩
  · obtain ⟨sent, m, -, hm, -⟩ := h.resent
    rw [hm] at hnone
    cases hnone
  · obtain ⟨a, -, honly⟩ := h.single
    have hfirst := honly Sample.byLid.jid
      ⟨ofDevice_self _, Option.isSome_iff_ne_none.mp hself⟩
    have hsecond := honly Sample.byAgent.jid
      ⟨⟨Sample.byAgent, rfl, by decide, rfl⟩, Option.isSome_iff_ne_none.mp hagent⟩
    exact absurd (hfirst.trans hsecond.symm) (by decide)

end Ruwa.Session.Retry
