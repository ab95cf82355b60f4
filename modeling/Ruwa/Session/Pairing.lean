/-
  File:      Ruwa/Session/Pairing.lean
  Subject:   PAIRING A SESSION WITH A PHONE (`session.rs`: `pair_device_qr_codes`, `pair_phone`,
             `handle_code_pair_notification`, `apply_pair_success`), by a QR code or by a code that
             is typed in.

  What a phone sends on success carries a MAC under a secret. A QR code shows the secret that its
  driver loaded when it was started; the exchange of a typed code stores another in its place. The
  verifier asks the store.

  * `Pairing` -- the device keys in the store, those of the driver, and the attempts;
  * `verifyPairSuccess`, `applyPairSuccess` -- the verifier, and what it changes;
  * `Genuine` -- a success made with a secret, for an identity key; `verify_iff`;
  * **`pairing_agrees`** -- runs in which no QR code is used that is older than the last exchange,
    and no exchange that was given up;
  * **`pairing_abandoned`** -- a phone gives up after the exchange, and the QR code is scanned; or it
    comes back.

  Logging out is left out, and what a session does after it is paired.
-/
import Ruwa.Crypto.LinkCode
import Ruwa.Library.CounterMode
import Ruwa.Library.ProtoWire
import Ruwa.Protocol.Binary
import Ruwa.Session.Driver

namespace Ruwa.Session

open Ruwa.Library
open Ruwa.Crypto
open Ruwa.Crypto.LinkCode (LinkPrimitives KeyPair CodePairRandom completeCodePair orError)
open Ruwa.Protocol.Binary (Node Content Attrs)

/-! ## 1. Messages -/

structure AdvSignedDeviceIdentityHmac where
  details : Option Bytes
  hmac : Option Bytes
  accountType : Option UInt32
  deriving DecidableEq

structure AdvSignedDeviceIdentity where
  details : Option Bytes
  accountSignatureKey : Option Bytes
  accountSignature : Option Bytes
  deviceSignature : Option Bytes
  deriving DecidableEq

/-- The fields that are read. -/
structure AdvDeviceIdentity where
  keyIndex : Option UInt32
  deviceType : Option UInt32
  deriving DecidableEq

/-- The message types on the wire, with their tags. -/
def AdvSignedDeviceIdentityHmac.codec : ProtoWire.Codec AdvSignedDeviceIdentityHmac :=
  .ofFields
    (fun m => ProtoWire.bytesField 1 m.details ++ ProtoWire.bytesField 2 m.hmac ++
      ProtoWire.numField 3 m.accountType)
    (fun fs => do
      return ⟨← ProtoWire.bytes? 1 fs, ← ProtoWire.bytes? 2 fs, ← ProtoWire.num? 3 fs⟩)
    (by
      intro m
      rw [ProtoWire.bytes?_of_last? (b := m.details) (by simp),
        ProtoWire.bytes?_of_last? (b := m.hmac) (by simp),
        ProtoWire.num?_of_last? (n := m.accountType) (by simp)]
      rfl)

def AdvSignedDeviceIdentity.codec : ProtoWire.Codec AdvSignedDeviceIdentity :=
  .ofFields
    (fun m => ProtoWire.bytesField 1 m.details ++ ProtoWire.bytesField 2 m.accountSignatureKey ++
      ProtoWire.bytesField 3 m.accountSignature ++ ProtoWire.bytesField 4 m.deviceSignature)
    (fun fs => do
      return ⟨← ProtoWire.bytes? 1 fs, ← ProtoWire.bytes? 2 fs, ← ProtoWire.bytes? 3 fs,
        ← ProtoWire.bytes? 4 fs⟩)
    (by
      intro m
      rw [ProtoWire.bytes?_of_last? (b := m.details) (by simp),
        ProtoWire.bytes?_of_last? (b := m.accountSignatureKey) (by simp),
        ProtoWire.bytes?_of_last? (b := m.accountSignature) (by simp),
        ProtoWire.bytes?_of_last? (b := m.deviceSignature) (by simp)]
      rfl)

def AdvDeviceIdentity.codec : ProtoWire.Codec AdvDeviceIdentity :=
  .ofFields
    (fun m => ProtoWire.numField 3 m.keyIndex ++ ProtoWire.numField 5 m.deviceType)
    (fun fs => do return ⟨← ProtoWire.num? 3 fs, ← ProtoWire.num? 5 fs⟩)
    (by
      intro m
      rw [ProtoWire.num?_of_last? (n := m.keyIndex) (by simp),
        ProtoWire.num?_of_last? (n := m.deviceType) (by simp)]
      rfl)

/-- What pairing takes from libraries. -/
structure PairPrimitives extends LinkPrimitives where
  xeddsa : XEdDsa
  container : ProtoWire.Codec AdvSignedDeviceIdentityHmac
  signed : ProtoWire.Codec AdvSignedDeviceIdentity
  device : ProtoWire.Codec AdvDeviceIdentity
  /-- `String::from_utf8_lossy`. -/
  lossy : Bytes → String

/-! ## 2. The state -/

/-- The columns of the device keys that are read here. -/
structure DeviceKeyRow where
  noisePub : U8Array 32
  identity : KeyPair
  advSecret : Bytes
  deriving DecidableEq

/-- The keys as a driver loaded them. The source does not keep `exchanges`, the number of code
    exchanges that had been stored then. -/
structure DeviceKeys where
  noisePub : U8Array 32
  identity : KeyPair
  advSecret : U8Array 32
  exchanges : Nat
  deriving DecidableEq

/-- A QR code, `<ref>,<noise>,<identity>,<adv secret>`, with the `exchanges` of its keys. -/
structure QrCode where
  ref : String
  noisePub : U8Array 32
  identityPub : U8Array 32
  advSecret : U8Array 32
  exchanges : Nat
  deriving DecidableEq

structure PhoneLinking where
  jid : String
  ephemeral : KeyPair
  linkingCode : String
  pairingRef : String
  rearmAttempts : Nat
  deriving DecidableEq

/-- What is known of the pairing in the session's row. -/
structure PairedRow where
  accountPb : Option Bytes
  businessName : Option String
  platform : Option String
  jid : Option String
  status : String
  updatedAt : Int
  deriving DecidableEq

inductive PairEvent
  | qr (code : QrCode)
  | pairingCode (code : String)
  | paired (jid : String)
  | syncing
  deriving DecidableEq

/-- A code exchange that was completed. -/
structure Exchange where
  advSecret : U8Array 32
  identityPub : U8Array 32
  deriving DecidableEq

/-- A session that is being paired. The source keeps neither `exchanges`, the number of exchanges
    that were stored, nor `exchange`, the one that is under way: until something is paired, another
    is begun, the socket is gone, or the phone gives up. -/
structure Pairing where
  deviceKeys : DeviceKeyRow
  row : PairedRow
  /-- The keys of the driver. -/
  keys : Option DeviceKeys
  jid : Option String
  status : SessionStatus
  updatedAt : Int
  qrCodes : List QrCode
  phoneLinking : Option PhoneLinking
  events : List PairEvent
  /-- The key bundles that went out. -/
  finished : List Bytes
  exchanges : Nat
  exchange : Option Exchange
  deriving DecidableEq

def ADV_ACCOUNT_SIG_PREFIX : Bytes := [6, 0]
def ADV_HOSTED_ACCOUNT_SIG_PREFIX : Bytes := [6, 5]
def ADV_DEVICE_SIG_PREFIX : Bytes := [6, 1]
def REARM_MAX : Nat := 6

/-- `AdvEncryptionType::Hosted`. -/
def HOSTED : UInt32 := 1

inductive PairError
  | badRequest (text : String)
  /-- A message that does not decode: what is said of it, before the decoder's own words. -/
  | undecodable (text : String)
  | database
  deriving DecidableEq

/-! ## 3. The verifier -/

def childNodes (n : Node) : Option (List Node) :=
  match n.content with
  | .nodes ns => some ns
  | _ => none

def contentBytes (n : Node) : Option Bytes :=
  match n.content with
  | .bytes b => some b
  | _ => none

def childBytes (children : List Node) (tag : String) : Option Bytes :=
  (children.find? fun c => decide (c.tag = tag)).bind contentBytes

def findChildAttr (children : List Node) (tag key : String) : Option String :=
  (children.find? fun c => decide (c.tag = tag)).bind fun c => c.attrs.get? key

def orBadRequest {α : Type} (o : Option α) (text : String) : Except PairError α :=
  match o with
  | none => .error (.badRequest text)
  | some a => .ok a

def orUndecodable {α : Type} (o : Option α) (text : String) : Except PairError α :=
  match o with
  | none => .error (.undecodable text)
  | some a => .ok a

/-- The outer envelope. -/
structure PairContainer where
  details : Bytes
  hmac : Bytes
  isHosted : Bool

/-- What is signed, and by whom. -/
structure PairIdentity where
  signed : AdvSignedDeviceIdentity
  details : Bytes
  accountSigKey : U8Array 32
  accountSig : U8Array 64
  keyIndex : UInt32
  isHosted : Bool

variable (P : PairPrimitives)

def openContainer (pairSuccess : Node) : Except PairError PairContainer := do
  let children ← orBadRequest (childNodes pairSuccess) "pair-success has no children"
  let bytes ← orBadRequest (childBytes children "device-identity")
    "pair-success missing device-identity bytes"
  let container ← orUndecodable (P.container.decode bytes) "bad device-identity HMAC container"
  let details ← orBadRequest container.details "HMAC container missing details"
  let hmac ← orBadRequest container.hmac "HMAC container missing hmac"
  return ⟨details, hmac, decide (container.accountType = some HOSTED)⟩

/-- Both lengths at once. -/
def signatureParts (key sig : Bytes) : Option (U8Array 32 × U8Array 64) :=
  (U8Array.ofBytes? 32 key).bind fun key => (U8Array.ofBytes? 64 sig).map fun sig => (key, sig)

def parseIdentity (details : Bytes) : Except PairError PairIdentity := do
  let signed ← orUndecodable (P.signed.decode details) "bad signed device-identity"
  let signedDetails ← orBadRequest signed.details "signed identity missing details"
  let key ← orBadRequest signed.accountSignatureKey
    "signed identity missing account_signature_key"
  let sig ← orBadRequest signed.accountSignature "signed identity missing account_signature"
  let parts ← orBadRequest (signatureParts key sig) "account signature key/signature wrong length"
  let device ← orUndecodable (P.device.decode signedDetails) "bad inner ADVDeviceIdentity"
  return ⟨signed, signedDetails, parts.1, parts.2, device.keyIndex.getD 0,
    decide (device.deviceType = some HOSTED)⟩

/-- The MAC of the envelope; its own flag selects the prefix. -/
def hmacHolds (advSecret : Bytes) (c : PairContainer) : Bool :=
  (P.hashing.hmac advSecret ((if c.isHosted then ADV_HOSTED_ACCOUNT_SIG_PREFIX else []) ++
    c.details)).bytes = c.hmac

def verifyWith (identityPub : U8Array 32) (m : PairIdentity) (start : Bytes) : Bool :=
  P.xeddsa.verify m.accountSigKey (start ++ m.details ++ identityPub.bytes) m.accountSig

/-- The account signature, with the prefix of the device type, and else with the other. -/
def signatureHolds (identityPub : U8Array 32) (m : PairIdentity) : Bool :=
  if m.isHosted then
    verifyWith P identityPub m ADV_HOSTED_ACCOUNT_SIG_PREFIX ||
      verifyWith P identityPub m ADV_ACCOUNT_SIG_PREFIX
  else
    verifyWith P identityPub m ADV_ACCOUNT_SIG_PREFIX ||
      verifyWith P identityPub m ADV_HOSTED_ACCOUNT_SIG_PREFIX

/-- The checks of `apply_pair_success`, in their order. -/
def verifyPairSuccess (advSecret : Bytes) (identityPub : U8Array 32) (pairSuccess : Node) :
    Except PairError PairIdentity := do
  let c ← openContainer P pairSuccess
  let _ ← orBadRequest (if hmacHolds P advSecret c then some () else none)
    "device-identity HMAC verification failed"
  let m ← parseIdentity P c.details
  let _ ← orBadRequest (if signatureHolds P identityPub m then some () else none)
    "pair-success account signature verification failed"
  return m

/-- The answer: our own signature, without the account's key. -/
def pairReply (orig : Node) (keyIndex : UInt32) (selfSigned : Bytes) : Node :=
  let identity := Node.mk "device-identity"
    (SortedMap.empty.insert "key-index" (toString keyIndex.toNat)) (.bytes selfSigned)
  let sign := Node.mk "pair-device-sign" SortedMap.empty (.nodes [identity])
  let attrs := (SortedMap.empty.insert "to" "s.whatsapp.net").insert "type" "result"
  let attrs := match orig.attrs.get? "id" with
    | some id => attrs.insert "id" id
    | none => attrs
  Node.mk "iq" attrs (.nodes [sign])

/-! ## 4. Attempts -/

/-- The four parts of each code, for the references that are text. -/
def pairDeviceQrCodes (keys : DeviceKeys) (pairDevice : Node) : List QrCode :=
  let refs := ((childNodes pairDevice).getD []).filter fun c => decide (c.tag = "ref")
  (refs.filterMap fun c => (contentBytes c).bind ofUtf8?).map fun ref =>
    ⟨ref, keys.noisePub, keys.identity.pub, keys.advSecret, keys.exchanges⟩

namespace Pairing

/-- A session before its first driver. -/
def new (deviceKeys : DeviceKeyRow) (row : PairedRow) (status : SessionStatus) : Pairing where
  deviceKeys := deviceKeys
  row := row
  keys := none
  jid := row.jid
  status := status
  updatedAt := row.updatedAt
  qrCodes := []
  phoneLinking := none
  events := []
  finished := []
  exchanges := 0
  exchange := none

/-- `load_device_keys`: a secret of the wrong length is an error. -/
def loadDeviceKeys (s : Pairing) : Option DeviceKeys :=
  (U8Array.ofBytes? 32 s.deviceKeys.advSecret).map fun advSecret =>
    ⟨s.deviceKeys.noisePub, s.deviceKeys.identity, advSecret, s.exchanges⟩

def emit (s : Pairing) (ev : PairEvent) : Pairing := { s with events := s.events ++ [ev] }

/-- Another code comes to the front. -/
def showQr (s : Pairing) : Pairing :=
  match s.qrCodes with
  | [] => s
  | code :: _ => s.emit (.qr code)

/-- The `pair-device` handler; without a code nothing happens. -/
def installQrRotation (s : Pairing) (codes : List QrCode) : Pairing :=
  if codes.isEmpty then s else { s with qrCodes := codes }.showQr

def cancelQrRotation (s : Pairing) : Pairing := { s with qrCodes := [] }

/-- `rearm_phone_pairing`, up to its answer: the reference it brings, if it brings one. -/
def rearm (s : Pairing) (ref : Option String) : Pairing :=
  match s.phoneLinking with
  | none => s
  | some l =>
      if REARM_MAX ≤ l.rearmAttempts then s
      else { s with
        phoneLinking := some { l with
          rearmAttempts := l.rearmAttempts + 1
          pairingRef := ref.getD l.pairingRef } }

/-- The texts of the notification, checked against what is being linked. -/
def codePairParts (linking : PhoneLinking) (reg : Node) : Option (Bytes × Bytes) := do
  let children ← childNodes reg
  let ref := ((childBytes children "link_code_pairing_ref").map P.lossy).getD ""
  if ref ≠ linking.pairingRef then none
  else
    let wrapped ← childBytes children "link_code_pairing_wrapped_primary_ephemeral_pub"
    let primary ← childBytes children "primary_identity_pub"
    return (wrapped, primary)

/-- `handle_code_pair_notification`: the derived secret replaces the stored one. What does not fit
    is logged. -/
def handleCodePairNotification (s : Pairing) (keys : DeviceKeys) (reg : Node) (r : CodePairRandom)
    (storeOk : Bool) : Pairing :=
  match s.phoneLinking with
  | none => s
  | some linking =>
      match codePairParts P linking reg with
      | none => s
      | some (wrapped, primary) =>
          match completeCodePair P.toLinkPrimitives linking.linkingCode linking.ephemeral.priv
              keys.identity wrapped primary r with
          | .error _ => s
          | .ok result =>
              if storeOk then
                { s with
                  deviceKeys := { s.deviceKeys with advSecret := result.advSecret.bytes }
                  finished := s.finished ++ [result.wrappedKeyBundle]
                  phoneLinking := none
                  exchanges := s.exchanges + 1
                  exchange := some ⟨result.advSecret, keys.identity.pub⟩ }
              else s

/-- The secret to verify with: that of the store, if it can be read and has the right length. -/
def verifyingSecret (s : Pairing) (keys : DeviceKeys) (loadOk : Bool) : Bytes :=
  if loadOk ∧ s.deviceKeys.advSecret.length = 32 then s.deviceKeys.advSecret
  else keys.advSecret.bytes

/-- What a success changes: `session_apply_pair_success`, the session in memory, `begin_sync`. -/
def paired (s : Pairing) (accountPb : Bytes) (businessName platform jid : Option String)
    (now : Int) : Pairing :=
  let s := { s with
    row := ⟨some accountPb, businessName, platform, jid, "connected", now⟩
    jid := jid
    updatedAt := now
    exchange := none }
  let s := match jid with
    | some jid => s.emit (.paired jid)
    | none => s
  { s with status := .syncing }.emit .syncing |>.cancelQrRotation

/-- `apply_pair_success`: its result, and the session afterwards. -/
def applyPairSuccess (s : Pairing) (keys : DeviceKeys) (orig pairSuccess : Node) (now : Int)
    (nonce : U8Array 64) (loadOk storeOk : Bool) : Except PairError Node × Pairing :=
  match verifyPairSuccess P (s.verifyingSecret keys loadOk) keys.identity.pub pairSuccess with
  | .error e => (.error e, s)
  | .ok m =>
      let message := ADV_DEVICE_SIG_PREFIX ++ m.details ++ keys.identity.pub.bytes ++
        m.accountSigKey.bytes
      let deviceSig := P.xeddsa.sign keys.identity.priv message nonce
      let signed := { m.signed with deviceSignature := some deviceSig.bytes }
      let children := (childNodes pairSuccess).getD []
      if storeOk then
        (.ok (pairReply orig m.keyIndex
            (P.signed.encode { signed with accountSignatureKey := none })),
          s.paired (P.signed.encode signed) (findChildAttr children "biz" "name")
            (findChildAttr children "platform" "name") (findChildAttr children "device" "jid") now)
      else (.error .database, s)

end Pairing

/-- What can happen while a session is paired. -/
inductive PairCall
  /-- `connect`: a driver starts, with the keys of the store. -/
  | connect
  /-- A batch of references arrives at the driver. -/
  | pairDevice (node : Node)
  | rotateQr
  /-- The pairing socket is gone; the driver goes on to the next one. -/
  | recycle
  /-- `pair_phone`, with the reference of its answer. -/
  | pairPhone (linking : PhoneLinking)
  /-- The phone gives up. The session does not hear of it. -/
  | abandon
  | rearm (ref : Option String)
  | codePair (reg : Node) (r : CodePairRandom) (storeOk : Bool)
  | pairSuccess (orig pairSuccess : Node) (now : Int) (nonce : U8Array 64) (loadOk storeOk : Bool)

namespace Pairing

/-- The driver's steps need a driver. -/
def step (s : Pairing) : PairCall → Option Pairing
  | .connect => s.loadDeviceKeys.map fun keys => { s with keys := some keys, exchange := none }
  | .pairDevice node => s.keys.map fun keys => s.installQrRotation (pairDeviceQrCodes keys node)
  | .rotateQr => some { s with qrCodes := s.qrCodes.tail }.showQr
  | .recycle => some { s.cancelQrRotation with exchange := none }
  | .pairPhone linking =>
      some ({ s with phoneLinking := some linking, exchange := none }.emit
        (.pairingCode linking.linkingCode))
  | .abandon => some { s with exchange := none }
  | .rearm ref => some (s.rearm ref)
  | .codePair reg r storeOk =>
      s.keys.map fun keys => s.handleCodePairNotification P keys reg r storeOk
  | .pairSuccess orig pairSuccess now nonce loadOk storeOk =>
      s.keys.map fun keys =>
        (s.applyPairSuccess P keys orig pairSuccess now nonce loadOk storeOk).2

end Pairing

/-! ## 5. What is promised -/

/-- **A success made with a secret, for an identity key**: the MAC is of that secret, and the
    account signature covers the key. -/
def Genuine (advSecret : Bytes) (identityPub : U8Array 32) (pairSuccess : Node) : Prop :=
  ∃ c m, openContainer P pairSuccess = .ok c ∧ hmacHolds P advSecret c = true ∧
    parseIdentity P c.details = .ok m ∧ signatureHolds P identityPub m = true

/-- The current attempts: the codes that are shown, and the exchange that is under way. -/
def Pairing.Attempt (s : Pairing) (advSecret identityPub : U8Array 32) : Prop :=
  (∃ q ∈ s.qrCodes, q.advSecret = advSecret ∧ q.identityPub = identityPub) ∨
    s.exchange = some ⟨advSecret, identityPub⟩

/-- A success comes while something is being paired; the store answers; and a code that was scanned
    is not older than the last exchange. -/
def InTime (s : Pairing) : PairCall → Prop
  | .pairSuccess _ pairSuccess _ _ loadOk storeOk =>
      loadOk = true ∧ storeOk = true ∧
        (∀ q ∈ s.qrCodes, Genuine P q.advSecret.bytes q.identityPub pairSuccess →
          q.exchanges = s.exchanges) ∧
        (s.exchange ≠ none ∨ ∃ q ∈ s.qrCodes, q.exchanges = s.exchanges)
  | _ => True

section Verifier

variable {P}

theorem orBadRequest_ok {α : Type} {o : Option α} {text : String} {a : α} :
    orBadRequest o text = .ok a ↔ o = some a := by
  cases o with
  | none => exact ⟨fun h => (nomatch h), fun h => (nomatch h)⟩
  | some b => exact ⟨fun h => congrArg some (Except.ok.inj h), fun h => congrArg _ (Option.some.inj h)⟩

/-- A check that is passed. -/
theorem check_ok {b : Bool} {text : String} {u : Unit} :
    orBadRequest (if b then some () else none) text = .ok u ↔ b = true := by
  rw [orBadRequest_ok]
  cases b <;> simp

/-- **The verifier takes what is genuine**, and nothing else. -/
theorem verify_iff {advSecret : Bytes} {identityPub : U8Array 32} {pairSuccess : Node} :
    (∃ m, verifyPairSuccess P advSecret identityPub pairSuccess = .ok m) ↔
      Genuine P advSecret identityPub pairSuccess := by
  unfold verifyPairSuccess
  constructor
  · rintro ⟨m, h⟩
    obtain ⟨c, hopen, h⟩ := Result.bind_ok.mp h
    obtain ⟨u, hmac, h⟩ := Result.bind_ok.mp h
    obtain ⟨m', hparse, h⟩ := Result.bind_ok.mp h
    obtain ⟨u', hsig, h⟩ := Result.bind_ok.mp h
    exact ⟨c, m', hopen, check_ok.mp hmac, hparse, check_ok.mp hsig⟩
  · rintro ⟨c, m, hopen, hmac, hparse, hsig⟩
    refine ⟨m, ?_⟩
    rw [Result.ok_bind hopen, Result.ok_bind (check_ok (u := ()).mpr hmac), Result.ok_bind hparse,
      Result.ok_bind (check_ok (u := ()).mpr hsig)]
    rfl

instance decidableGenuine (advSecret : Bytes) (identityPub : U8Array 32) (pairSuccess : Node) :
    Decidable (Genuine P advSecret identityPub pairSuccess) :=
  decidable_of_iff _ (Result.isOk_iff.trans verify_iff)

instance decidableAttempt (s : Pairing) (advSecret identityPub : U8Array 32) :
    Decidable (s.Attempt advSecret identityPub) :=
  inferInstanceAs (Decidable (_ ∨ _))

instance decidableInTime (s : Pairing) : (e : PairCall) → Decidable (InTime P s e)
  | .pairSuccess .. => inferInstanceAs (Decidable (_ ∧ _))
  | .connect | .pairDevice _ | .rotateQr | .recycle | .pairPhone _ | .abandon | .rearm _
  | .codePair .. => inferInstanceAs (Decidable True)

end Verifier

/-! ## 6. What a step keeps -/

/-- Keys that were loaded after `exchanges` exchanges, against what the store has after `stored`. -/
structure Loaded (row : DeviceKeyRow) (stored : Nat) (identityPub advSecret : U8Array 32)
    (exchanges : Nat) : Prop where
  identity : identityPub = row.identity.pub
  old : exchanges ≤ stored
  current : exchanges = stored → advSecret.bytes = row.advSecret

/-- What the driver, the codes and the exchange have to do with the store. -/
structure Sound (own : KeyPair) (s : Pairing) : Prop where
  identity : s.deviceKeys.identity = own
  length : s.deviceKeys.advSecret.length = 32
  keys : ∀ k, s.keys = some k → k.identity = own ∧
    Loaded s.deviceKeys s.exchanges k.identity.pub k.advSecret k.exchanges
  codes : ∀ q ∈ s.qrCodes,
    Loaded s.deviceKeys s.exchanges q.identityPub q.advSecret q.exchanges
  exchange : ∀ x, s.exchange = some x →
    x.identityPub = own.pub ∧ x.advSecret.bytes = s.deviceKeys.advSecret

section Steps

variable {P} {own : KeyPair} {s s' : Pairing}

theorem sound_new {deviceKeys : DeviceKeyRow} (hlen : deviceKeys.advSecret.length = 32)
    (row : PairedRow) (status : SessionStatus) :
    Sound deviceKeys.identity (Pairing.new deviceKeys row status) where
  identity := rfl
  length := hlen
  keys _ h := nomatch h
  codes _ h := nomatch h
  exchange _ h := nomatch h

/-- The store and the driver's keys are as they were, and nothing is attempted that was not. -/
theorem Sound.of_same (h : Sound own s) (hrow : s'.deviceKeys = s.deviceKeys)
    (hcount : s'.exchanges = s.exchanges) (hkeys : s'.keys = s.keys)
    (hcodes : ∀ q ∈ s'.qrCodes, q ∈ s.qrCodes)
    (hexchange : ∀ x, s'.exchange = some x → s.exchange = some x) : Sound own s' := by
  refine ⟨hrow ▸ h.identity, hrow ▸ h.length, ?_, ?_, ?_⟩
  · rw [hkeys, hrow, hcount]
    exact h.keys
  · rw [hrow, hcount]
    exact fun q hq => h.codes q (hcodes q hq)
  · rw [hrow]
    exact fun x hx => h.exchange x (hexchange x hx)

theorem Loaded.older {row : DeviceKeyRow} {stored : Nat} {identityPub advSecret : U8Array 32}
    {exchanges : Nat} (h : Loaded row stored identityPub advSecret exchanges) (secret : Bytes) :
    Loaded { row with advSecret := secret } (stored + 1) identityPub advSecret exchanges where
  identity := h.identity
  old := Nat.le_succ_of_le h.old
  current he := absurd h.old (Nat.not_le.mpr (he ▸ Nat.lt_succ_self stored))

/-- Another code at the front, or none. -/
theorem showQr_same (s : Pairing) :
    s.showQr.deviceKeys = s.deviceKeys ∧ s.showQr.exchanges = s.exchanges ∧
      s.showQr.keys = s.keys ∧ s.showQr.qrCodes = s.qrCodes ∧ s.showQr.exchange = s.exchange := by
  unfold Pairing.showQr
  split <;> exact ⟨rfl, rfl, rfl, rfl, rfl⟩

theorem sound_showQr (h : Sound own s) : Sound own s.showQr := by
  obtain ⟨hrow, hcount, hkeys, hcodes, hexchange⟩ := showQr_same s
  exact h.of_same hrow hcount hkeys (fun q hq => hcodes ▸ hq) fun x hx => hexchange ▸ hx

theorem sound_connect (h : Sound own s) {keys : DeviceKeys} (hload : s.loadDeviceKeys = some keys) :
    Sound own { s with keys := some keys, exchange := none } := by
  obtain ⟨advSecret, hsecret, rfl⟩ := Option.map_eq_some_iff.mp hload
  refine ⟨h.identity, h.length, ?_, h.codes, fun _ hx => (nomatch hx)⟩
  rintro _ ⟨⟩
  exact ⟨h.identity, rfl, Nat.le_refl _, fun _ => U8Array.bytes_of_ofBytes? hsecret⟩

/-- The codes of a batch are made of the keys of the driver. -/
theorem sound_pairDevice (h : Sound own s) {keys : DeviceKeys} (hkeys : s.keys = some keys)
    (node : Node) : Sound own (s.installQrRotation (pairDeviceQrCodes keys node)) := by
  unfold Pairing.installQrRotation
  split
  · exact h
  · refine sound_showQr ⟨h.identity, h.length, h.keys, ?_, h.exchange⟩
    intro q hq
    obtain ⟨ref, -, rfl⟩ := List.mem_map.mp hq
    exact (h.keys keys hkeys).2

theorem sound_rearm (h : Sound own s) (ref : Option String) : Sound own (s.rearm ref) := by
  unfold Pairing.rearm
  split
  · exact h
  · split
    · exact h
    · exact h.of_same rfl rfl rfl (fun _ hq => hq) fun _ hx => hx

/-- **An exchange makes everything older that was loaded before.** -/
theorem sound_codePair (h : Sound own s) {keys : DeviceKeys} (hkeys : s.keys = some keys)
    (reg : Node) (r : CodePairRandom) (storeOk : Bool) :
    Sound own (s.handleCodePairNotification P keys reg r storeOk) := by
  unfold Pairing.handleCodePairNotification
  split
  · exact h
  · split
    · exact h
    · split
      · exact h
      · next result _ =>
          split
          · refine ⟨h.identity, result.advSecret.length_bytes, ?_, ?_, ?_⟩
            · intro k hk
              exact ⟨(h.keys k hk).1, (h.keys k hk).2.older _⟩
            · intro q hq
              exact (h.codes q hq).older _
            · rintro _ ⟨⟩
              exact ⟨congrArg KeyPair.pub (h.keys keys hkeys).1, rfl⟩
          · exact h

theorem sound_paired (h : Sound own s) (accountPb : Bytes) (businessName platform jid : Option String)
    (now : Int) : Sound own (s.paired accountPb businessName platform jid now) := by
  have hsame : (s.paired accountPb businessName platform jid now).deviceKeys = s.deviceKeys ∧
      (s.paired accountPb businessName platform jid now).exchanges = s.exchanges ∧
      (s.paired accountPb businessName platform jid now).keys = s.keys := by
    unfold Pairing.paired
    cases jid <;> exact ⟨rfl, rfl, rfl⟩
  refine h.of_same hsame.1 hsame.2.1 hsame.2.2 (fun _ hq => (nomatch hq)) fun x hx => ?_
  unfold Pairing.paired at hx
  cases jid <;> cases hx

theorem sound_applyPairSuccess (h : Sound own s) (keys : DeviceKeys) (orig pairSuccess : Node)
    (now : Int) (nonce : U8Array 64) (loadOk storeOk : Bool) :
    Sound own (s.applyPairSuccess P keys orig pairSuccess now nonce loadOk storeOk).2 := by
  unfold Pairing.applyPairSuccess
  split
  · exact h
  · dsimp only
    split
    · exact sound_paired h _ _ _ _ _
    · exact h

theorem sound_step {e : PairCall} (h : Sound own s) (hstep : s.step P e = some s') :
    Sound own s' := by
  cases e with
  | connect =>
      obtain ⟨keys, hload, rfl⟩ := Option.map_eq_some_iff.mp hstep
      exact sound_connect h hload
  | pairDevice node =>
      obtain ⟨keys, hkeys, rfl⟩ := Option.map_eq_some_iff.mp hstep
      exact sound_pairDevice h hkeys node
  | rotateQr =>
      cases hstep
      refine sound_showQr (h.of_same rfl rfl rfl ?_ fun _ hx => hx)
      exact fun q hq => List.mem_of_mem_tail hq
  | recycle =>
      cases hstep
      exact h.of_same rfl rfl rfl (fun _ hq => (nomatch hq)) fun _ hx => (nomatch hx)
  | pairPhone linking =>
      cases hstep
      exact h.of_same rfl rfl rfl (fun _ hq => hq) fun _ hx => (nomatch hx)
  | abandon =>
      cases hstep
      exact h.of_same rfl rfl rfl (fun _ hq => hq) fun _ hx => (nomatch hx)
  | rearm ref =>
      cases hstep
      exact sound_rearm h ref
  | codePair reg r storeOk =>
      obtain ⟨keys, hkeys, rfl⟩ := Option.map_eq_some_iff.mp hstep
      exact sound_codePair h hkeys reg r storeOk
  | pairSuccess orig pairSuccess now nonce loadOk storeOk =>
      obtain ⟨keys, hkeys, rfl⟩ := Option.map_eq_some_iff.mp hstep
      exact sound_applyPairSuccess h keys orig pairSuccess now nonce loadOk storeOk

/-! ## 7. Runs -/

/-- An error changes nothing. -/
theorem applyPairSuccess_error {keys : DeviceKeys} {orig pairSuccess : Node} {now : Int}
    {nonce : U8Array 64} {loadOk storeOk : Bool} {err : PairError}
    (h : (s.applyPairSuccess P keys orig pairSuccess now nonce loadOk storeOk).1 = .error err) :
    (s.applyPairSuccess P keys orig pairSuccess now nonce loadOk storeOk).2 = s := by
  unfold Pairing.applyPairSuccess at h ⊢
  split
  · rfl
  · next m hm =>
      rw [hm] at h
      dsimp only at h ⊢
      cases storeOk with
      | true => cases h
      | false => rfl

/-- What is accepted is what verifies, while the store takes it. -/
theorem applyPairSuccess_ok {keys : DeviceKeys} {orig pairSuccess : Node} {now : Int}
    {nonce : U8Array 64} {loadOk : Bool} :
    (∃ reply, (s.applyPairSuccess P keys orig pairSuccess now nonce loadOk true).1 = .ok reply) ↔
      Genuine P (s.verifyingSecret keys loadOk) keys.identity.pub pairSuccess := by
  rw [← verify_iff]
  unfold Pairing.applyPairSuccess
  cases verifyPairSuccess P (s.verifyingSecret keys loadOk) keys.identity.pub pairSuccess with
  | error err => exact ⟨fun ⟨_, h⟩ => (nomatch h), fun ⟨_, h⟩ => (nomatch h)⟩
  | ok m => exact ⟨fun _ => ⟨m, rfl⟩, fun _ => ⟨_, rfl⟩⟩

end Steps

/-- **The verifier agrees with the attempts**, in every run in which a success comes while an exchange
    is under way or a code is shown, and no code is scanned that is older than the last exchange. -/
theorem pairing_agrees (deviceKeys : DeviceKeyRow) (hlen : deviceKeys.advSecret.length = 32)
    (row : PairedRow) (status : SessionStatus) (run : List PairCall) (s : Pairing)
    (htimes : Meets (Pairing.step P) (InTime P) (Pairing.new deviceKeys row status) run)
    (hrun : runFrom (Pairing.step P) (Pairing.new deviceKeys row status) run = some s)
    (orig pairSuccess : Node) (now : Int) (nonce : U8Array 64) (loadOk storeOk : Bool)
    (htime : InTime P s (.pairSuccess orig pairSuccess now nonce loadOk storeOk))
    (keys : DeviceKeys) (hkeys : s.keys = some keys) :
    let outcome := s.applyPairSuccess P keys orig pairSuccess now nonce loadOk storeOk
    (∀ advSecret identityPub, s.Attempt advSecret identityPub →
      Genuine P advSecret.bytes identityPub pairSuccess → ∃ reply, outcome.1 = .ok reply) ∧
    (∀ reply, outcome.1 = .ok reply → ∃ advSecret, s.Attempt advSecret deviceKeys.identity.pub ∧
      Genuine P advSecret.bytes deviceKeys.identity.pub pairSuccess) ∧
    ∀ err, outcome.1 = .error err → outcome.2 = s := by
  intro outcome
  have hsound : Sound deviceKeys.identity s :=
    run_invariant (I := Sound deviceKeys.identity) (fun _ _ _ h _ hstep => sound_step h hstep)
      (sound_new hlen row status) htimes hrun
  obtain ⟨rfl, rfl, hcodes, hcurrent⟩ := htime
  have hsecret : s.verifyingSecret keys true = s.deviceKeys.advSecret :=
    if_pos ⟨rfl, hsound.length⟩
  have hown : keys.identity.pub = deviceKeys.identity.pub :=
    congrArg KeyPair.pub (hsound.keys keys hkeys).1
  have hidentity : s.deviceKeys.identity.pub = deviceKeys.identity.pub :=
    congrArg KeyPair.pub hsound.identity
  have haccepted : (∃ reply, outcome.1 = .ok reply) ↔
      Genuine P s.deviceKeys.advSecret deviceKeys.identity.pub pairSuccess := by
    rw [← hsecret, ← hown]
    exact applyPairSuccess_ok
  refine ⟨?_, ?_, fun err => applyPairSuccess_error⟩
  · rintro advSecret identityPub (⟨q, hq, rfl, rfl⟩ | hexchange) hgenuine
    · -- The scanned code is as old as the last exchange.
      have hloaded := hsound.codes q hq
      rw [haccepted, ← hloaded.current (hcodes q hq hgenuine), ← hidentity, ← hloaded.identity]
      exact hgenuine
    · obtain ⟨hpub, hstored⟩ := hsound.exchange _ hexchange
      rw [haccepted, ← hstored, ← hpub]
      exact hgenuine
  · intro reply hreply
    have hgenuine := haccepted.mp ⟨reply, hreply⟩
    rcases hcurrent with hexchange | ⟨q, hq, hnew⟩
    · obtain ⟨x, hx⟩ := Option.ne_none_iff_exists'.mp hexchange
      obtain ⟨hpub, hstored⟩ := hsound.exchange x hx
      refine ⟨x.advSecret, .inr ?_, hstored ▸ hgenuine⟩
      rw [hx, ← hpub]
    · have hloaded := hsound.codes q hq
      refine ⟨q.advSecret, .inl ⟨q, hq, rfl, hloaded.identity.trans hidentity⟩, ?_⟩
      rw [hloaded.current hnew]
      exact hgenuine

/-! ## 8. An attempt with its real bytes

The device shows a QR code and asks for a code as well. The phone types the code, and is then put
aside; or it scans. The nonces of the signatures are zero. -/

namespace Known

/-- The private keys, clamped: the device's identity, its ephemeral key, the phone's ephemeral key,
    and the account. -/
def priv (n : Nat) : U8Array 32 := .ofNat 32 (8 * n * 2 ^ 248 + 0x40)

def identityPub : U8Array 32 :=
  .ofNat 32 0x422c8e7a6227d7bca1350b3e2bb7279f7897b87bb6854b783c60e80311ae3079
def ephemeralPub : U8Array 32 :=
  .ofNat 32 0x8d20f8c7bbfb9af3da4ef532ed44efc68ce642bc5d0c5cb1d7b91b96c74edf02
def phoneEphemeralPub : U8Array 32 :=
  .ofNat 32 0xae8b046f96cb5841c86fd8b63d3d6265b209dfa0df66bdaa42b7a9fc59779523
def accountPub : U8Array 32 :=
  .ofNat 32 0x0f524bef7e12258fd9eefcd9e468b21e543d90cc4a54b347f48cc5969febf432
def noisePub : U8Array 32 :=
  .ofNat 32 0x87558542bbbfff0f93902ffa8434b44235daa830ccffb1a6b5300b3cda701d05

def identity : KeyPair := ⟨priv 1, identityPub⟩
def storedSecret : U8Array 32 := .replicate 32 0x5A
def row : DeviceKeyRow := ⟨noisePub, identity, storedSecret.bytes⟩
def keys : DeviceKeys := ⟨noisePub, identity, storedSecret, 0⟩

/-- The shared secrets of the ephemeral keys and of the identities. -/
def ephemeralShared : U8Array 32 :=
  .ofNat 32 0x67fc534107a1b713ecc916eed6bc43ddae1159126b27945219ffe30e5e9fd04f
def identityShared : U8Array 32 :=
  .ofNat 32 0xe437c97b8d1da432672183ab2568b4726233c44f760fe033e5c3137ba42a3819

/-- The key under the code, and the two blocks of its keystream. -/
def codeKey : U8Array 32 :=
  .ofNat 32 0x53f722816410c86d5216d645032297d9f368f24ac925c8b9911b995a789b1ef0
def codeSalt : U8Array 32 := .replicate 32 7
def codeIv : U8Array 16 := .replicate 16 9
def blocks : List ((U8Array 32 × U8Array 16) × U8Array 16) :=
  [((codeKey, counterBlock codeIv 0), .ofNat 16 0xf3230661d9bfb93d1c1f5950b4919991),
    ((codeKey, counterBlock codeIv 1), .ofNat 16 0xb7535d81e7e4845260e64a64740389f0)]

/-- What the device draws, the key of its bundle, and the bundle. -/
def random : CodePairRandom := ⟨.replicate 32 1, .replicate 32 2, .replicate 12 3⟩
def bundleKey : U8Array 32 :=
  .ofNat 32 0x7754fd40aa0a9cb21037259177cad8d5cc75dbbbda9d56dc8894df55f75b4b63
def bundle : Bytes := toBE 112
  0x942054c22f13a645e024f34ece6048726179423f577dbdbe5f0cc4cd7d8c5e1510cd24ef2efd6e87c90a309b888546888e8961880761f910c3809379ef5c94929f4542f14d88373f0d8e66d7ed3c996b2d8d37697f0ec5cf6b315a42f7775537d5211962fe64946e33c41f7fac4a643c

/-- The secret of the exchange. -/
def exchangedSecret : U8Array 32 :=
  .ofNat 32 0xc7ce0c9e6caa146611e02ed66244afdeb9332856ad6775d98bac9103ba4ca506

/-- What the account signs, and both signatures. -/
def details : Bytes := AdvDeviceIdentity.codec.encode ⟨some 1, none⟩
def accountSig : U8Array 64 := .ofNat 64
  0xe87b16e62a57aab34a4b539abc1c3366844d17d9d07cc4c65068a15f068aac1d496da72cb530744c3de91edd1519c0a6a26646bffe4798e6e1c665944f70fa05
def deviceSig : U8Array 64 := .ofNat 64
  0xd3cf887825d30edd7d9ad36c211acb69cf83d551665f1204d3e71b8a6d62a0cb81f4ad013edcac1ce3aa93a0c9b1903818d8a02f1c101098dfc4a6477db9dc0d
def signed : Bytes := AdvSignedDeviceIdentity.codec.encode
  ⟨some details, some accountPub.bytes, some accountSig.bytes, none⟩

/-- The MACs under the secret of the store, and under that of the exchange. -/
def storedMac : U8Array 32 :=
  .ofNat 32 0x34dd4a94e0440484283901fd189554cf60b81056b4486c9ddc55a6db47b1e6b3
def exchangedMac : U8Array 32 :=
  .ofNat 32 0xd3463d3429c0df38689281ccdfb8ffa777db0ae33ed675afce448d53e59bc0d4

def primitives : PairPrimitives where
  hashing := .ofTable []
    [((storedSecret.bytes, signed), storedMac), ((exchangedSecret.bytes, signed), exchangedMac)]
    [((List.replicate 32 2, ephemeralShared.bytes,
        utf8 "link_code_pairing_key_bundle_encryption_key", 32), bundleKey.bytes),
      ((List.replicate 32 0, ephemeralShared.bytes ++ identityShared.bytes ++ List.replicate 32 1,
        utf8 "adv_secret", 32), exchangedSecret.bytes)]
  x25519 := .ofTable
    [(priv 1, identityPub), (priv 2, ephemeralPub), (priv 3, phoneEphemeralPub),
      (priv 4, accountPub)]
    [((ephemeralPub, phoneEphemeralPub), ephemeralShared),
      ((identityPub, accountPub), identityShared)]
  gcm := .ofTable
    [⟨(bundleKey, random.keyBundleNonce, []),
      identityPub.bytes ++ accountPub.bytes ++ random.advSecretRandom.bytes, bundle⟩]
  pbkdf2 password salt :=
    known [((utf8 "ABCD2345", codeSalt.bytes), codeKey)] (.replicate 32 0) (password, salt)
  ctr key iv text :=
    ⟨applyKeystream (fun block => known blocks (.replicate 16 0) (key, block)) iv text.bytes,
      by simp⟩
  ctr_ctr _ _ text := U8Array.ext (applyKeystream_involutive _ _ text.bytes)
  xeddsa := .ofTable [(priv 1, identityPub), (priv 4, accountPub)]
    [((accountPub, ADV_ACCOUNT_SIG_PREFIX ++ details ++ identityPub.bytes), accountSig),
      ((identityPub, ADV_DEVICE_SIG_PREFIX ++ details ++ identityPub.bytes ++ accountPub.bytes),
        deviceSig)]
  container := AdvSignedDeviceIdentityHmac.codec
  signed := AdvSignedDeviceIdentity.codec
  device := AdvDeviceIdentity.codec
  lossy bytes := (ofUtf8? bytes).getD ""

def leaf (tag : String) (bytes : Bytes) : Node := ⟨tag, SortedMap.empty, .bytes bytes⟩

def pairDevice : Node := ⟨"pair-device", SortedMap.empty, .nodes [leaf "ref" (utf8 "2@a")]⟩

def linking : PhoneLinking :=
  ⟨"15550001111@s.whatsapp.net", ⟨priv 2, ephemeralPub⟩, "ABCD2345", "2@b", 0⟩

/-- What the phone sends when the code is typed. -/
def codePair : Node := ⟨"link_code_companion_reg", SortedMap.empty, .nodes
  [leaf "link_code_pairing_ref" (utf8 "2@b"),
    leaf "link_code_pairing_wrapped_primary_ephemeral_pub"
      (LinkCode.wrapEphemeralPub primitives.toLinkPrimitives "ABCD2345" phoneEphemeralPub codeSalt
        codeIv),
    leaf "primary_identity_pub" accountPub.bytes]⟩

def success (mac : U8Array 32) : Node := ⟨"pair-success", SortedMap.empty, .nodes
  [leaf "device-identity" (AdvSignedDeviceIdentityHmac.codec.encode
      ⟨some signed, some mac.bytes, none⟩),
    ⟨"device", SortedMap.empty.insert "jid" "15550001111:1@s.whatsapp.net", .none⟩]⟩

/-- The success of a phone that has scanned the QR code, and of the one that has typed the code. -/
def scanned : Node := success storedMac
def typed : Node := success exchangedMac

def iq : Node := ⟨"iq", SortedMap.empty.insert "id" "1", .nodes [scanned]⟩

def start : Pairing := .new row ⟨none, none, none, none, "awaiting_qr", 0⟩ .awaitingQr

def code : QrCode := ⟨"2@a", noisePub, identityPub, storedSecret, 0⟩

/-- After the exchange, when the phone gives up. -/
def abandoned : Pairing :=
  { start with
    deviceKeys := { row with advSecret := exchangedSecret.bytes }
    keys := some keys
    qrCodes := [code]
    events := [.qr code, .pairingCode "ABCD2345"]
    finished := [List.replicate 32 2 ++ List.replicate 12 3 ++ bundle]
    exchanges := 1 }

end Known

open Known

/-- The QR code is scanned, and the phone pairs. -/
theorem pairing_agrees_scanned : ∃ s,
    runFrom (Pairing.step primitives) start [.connect, .pairDevice pairDevice] = some s ∧
      ∃ reply, (s.applyPairSuccess primitives keys iq scanned 5 (.replicate 64 0) true true).1 =
        .ok reply := by
  have hrun : runFrom (Pairing.step primitives) start [.connect, .pairDevice pairDevice] =
      some ({ start with
        keys := some keys
        qrCodes := [code] }.showQr) := by
    decide +kernel
  refine ⟨_, hrun, ?_⟩
  exact (pairing_agrees (P := primitives) row (by decide) _ _ _ _ (by decide +kernel) hrun iq
    scanned 5 (.replicate 64 0) true true (by decide +kernel) keys rfl).1 storedSecret identityPub
      (by decide +kernel) (by decide +kernel)

/-- The code is typed, the phone is put aside, and another scans the QR code that is still shown:
    the secret of that code is no longer that of the store. The phone that was put aside can pair
    still, though nothing is under way with its secret. -/
theorem pairing_abandoned : ∃ s,
    runFrom (Pairing.step primitives) start [.connect, .pairDevice pairDevice, .pairPhone linking,
        .codePair codePair random true, .abandon] = some s ∧
    s.Attempt storedSecret identityPub ∧
    Genuine primitives storedSecret.bytes identityPub scanned ∧
    (s.applyPairSuccess primitives keys iq scanned 5 (.replicate 64 0) true true).1 =
      .error (.badRequest "device-identity HMAC verification failed") ∧
    (∃ reply, (s.applyPairSuccess primitives keys iq typed 5 (.replicate 64 0) true true).1 =
      .ok reply) ∧
    ∀ advSecret identityPub, s.Attempt advSecret identityPub →
      ¬Genuine primitives advSecret.bytes identityPub typed := by
  have hrun : runFrom (Pairing.step primitives) start [.connect, .pairDevice pairDevice,
      .pairPhone linking, .codePair codePair random true, .abandon] = some abandoned := by
    decide +kernel
  refine ⟨abandoned, hrun, by decide +kernel, by decide +kernel,
    Result.failure_eq_some.mp (by decide +kernel), applyPairSuccess_ok.mpr (by decide +kernel), ?_⟩
  rintro advSecret identityPub (⟨q, hq, rfl, rfl⟩ | hexchange)
  · rw [List.mem_singleton.mp hq]
    decide +kernel
  · cases hexchange

end Ruwa.Session
