/-
  File:      Ruwa/Crypto/Signal.lean
  Subject:   THE DOUBLE RATCHET (`crypto.rs`, module `signal`): sessions of two devices.

  A session has a root key, one chain to send on and up to five to receive on. A message carries
  the public key its chain was started with. A receiver that does not know the key steps its root
  twice: once for the chain of the message, once for a new chain of its own. Each chain is read
  like a sender key's (`Chain.lean`): forward to the counter of a message, or from the cache.

  `decrypt` and `encrypt` are given the private key that `KeyPair::generate` would draw, whether
  or not the call comes to need one.
-/
import Ruwa.Crypto.Chain
import Ruwa.Library.ProtoWire
import Ruwa.Library.Text

namespace Ruwa.Crypto.Signal

open Ruwa.Library
open Ruwa.Library.Text
open Ruwa.Crypto

/-! ## 1. The state -/

def WHISPER_VERSION : UInt8 := 0x33
def MAC_TRUNCATION_BYTES : Nat := 8
def MAX_RECEIVER_CHAINS : Nat := 5
def MAX_SKIPPED_MESSAGE_KEYS : Nat := 2000
def DERIVED_KEY_LEN : Nat := 80

/-- The keys of one message. -/
structure MessageKeys where
  cipherKey : U8Array 32
  macKey : U8Array 32
  iv : U8Array 16
  counter : UInt32
  deriving DecidableEq

/-- What is left to receive on one chain of the peer. -/
structure ReceiverChain where
  remoteRatchetPub : U8Array 32
  chainKey : ChainKey
  skippedKeys : List MessageKeys
  deriving DecidableEq

structure PendingPreKey where
  preKeyId : Option UInt32
  signedPreKeyId : UInt32
  baseKeyPub : U8Array 32
  deriving DecidableEq

structure SessionState where
  sessionVersion : UInt32
  localIdentityPub : U8Array 32
  remoteIdentityPub : U8Array 32
  rootKey : U8Array 32
  senderChain : Option ChainKey
  senderRatchetPriv : Option (U8Array 32)
  senderRatchetPub : Option (U8Array 32)
  previousCounter : UInt32
  receiverChains : List ReceiverChain
  pendingPreKey : Option PendingPreKey
  localRegistrationId : UInt32
  remoteRegistrationId : UInt32
  deriving DecidableEq

inductive MessageType
  | whisper
  | preKey
  deriving DecidableEq

structure CiphertextMessage where
  serialized : Bytes
  messageType : MessageType
  deriving DecidableEq

inductive SignalError
  | noSenderChain
  | aesEncrypt
  | aesDecrypt
  | badMac
  | malformed (what : String)
  deriving Repr, DecidableEq

/-! ## 2. The messages -/

structure SignalMessageProto where
  ratchetKey : Option Bytes
  counter : Option UInt32
  previousCounter : Option UInt32
  ciphertext : Option Bytes
  deriving DecidableEq

/-- The message type on the wire: tags 1 to 4. -/
def SignalMessageProto.codec : ProtoWire.Codec SignalMessageProto :=
  .ofFields
    (fun m => ProtoWire.bytesField 1 m.ratchetKey ++ ProtoWire.numField 2 m.counter ++
      ProtoWire.numField 3 m.previousCounter ++ ProtoWire.bytesField 4 m.ciphertext)
    (fun fs => do
      return ⟨← ProtoWire.bytes? 1 fs, ← ProtoWire.num? 2 fs, ← ProtoWire.num? 3 fs,
        ← ProtoWire.bytes? 4 fs⟩)
    (by
      intro m
      rw [ProtoWire.bytes?_of_last? (b := m.ratchetKey) (by simp),
        ProtoWire.num?_of_last? (n := m.counter) (by simp),
        ProtoWire.num?_of_last? (n := m.previousCounter) (by simp),
        ProtoWire.bytes?_of_last? (b := m.ciphertext) (by simp)]
      rfl)

theorem SignalMessageProto.encode_ne_nil (m : SignalMessageProto) (h : m.ciphertext.isSome) :
    codec.encode m ≠ [] := by
  obtain ⟨ciphertext, hct⟩ := Option.isSome_iff_exists.mp h
  refine ProtoWire.encodeFields_ne_nil fun hnil => ?_
  have hfield := (List.append_eq_nil_iff.mp hnil).2
  rw [hct] at hfield
  cases hfield

structure PreKeySignalMessageProto where
  registrationId : Option UInt32
  preKeyId : Option UInt32
  signedPreKeyId : Option UInt32
  baseKey : Option Bytes
  identityKey : Option Bytes
  message : Option Bytes
  deriving DecidableEq

/-- The envelope on the wire, in the order of its tags. -/
def PreKeySignalMessageProto.codec : ProtoWire.Codec PreKeySignalMessageProto :=
  .ofFields
    (fun m => ProtoWire.numField 1 m.preKeyId ++ ProtoWire.bytesField 2 m.baseKey ++
      ProtoWire.bytesField 3 m.identityKey ++ ProtoWire.bytesField 4 m.message ++
      ProtoWire.numField 5 m.registrationId ++ ProtoWire.numField 6 m.signedPreKeyId)
    (fun fs => do
      return ⟨← ProtoWire.num? 5 fs, ← ProtoWire.num? 1 fs, ← ProtoWire.num? 6 fs,
        ← ProtoWire.bytes? 2 fs, ← ProtoWire.bytes? 3 fs, ← ProtoWire.bytes? 4 fs⟩)
    (by
      intro m
      rw [ProtoWire.num?_of_last? (n := m.registrationId) (by simp),
        ProtoWire.num?_of_last? (n := m.preKeyId) (by simp),
        ProtoWire.num?_of_last? (n := m.signedPreKeyId) (by simp),
        ProtoWire.bytes?_of_last? (b := m.baseKey) (by simp),
        ProtoWire.bytes?_of_last? (b := m.identityKey) (by simp),
        ProtoWire.bytes?_of_last? (b := m.message) (by simp)]
      rfl)

/-- What the module takes from libraries. A message with its ciphertext set is never empty. -/
structure SignalPrimitives where
  hashing : Hashing
  cbc : AesCbc
  x25519 : X25519
  whisper : ProtoWire.Codec SignalMessageProto
  preKey : ProtoWire.Codec PreKeySignalMessageProto
  encode_ne_nil : ∀ m, m.ciphertext.isSome → whisper.encode m ≠ []

/-! ## 3. Keys -/

section

variable (P : SignalPrimitives)

def deriveMessageKeys (chain : ChainKey) : MessageKeys :=
  let macSeed := P.hashing.hmac chain.key.bytes [0x01]
  let out := P.hashing.hkdf (List.replicate 32 0) macSeed.bytes (utf8 "WhisperMessageKeys")
    DERIVED_KEY_LEN
  ⟨out.slice 0 32 (by decide), out.slice 32 32 (by decide), out.slice 64 16 (by decide), chain.index⟩

/-- The root key of the X3DH secrets; the chain key derived with it is not used. -/
def initialKdf (dhs : List (U8Array 32)) : U8Array 32 × U8Array 32 :=
  let master := List.replicate 32 0xFF ++ dhs.flatMap U8Array.bytes
  let out := P.hashing.hkdf (List.replicate 32 0) master (utf8 "WhisperText") 64
  (out.slice 0 32 (by decide), out.slice 32 32 (by decide))

/-- The next root key, and the chain key of the chain that starts with the step. -/
def ratchetRootStep (rootKey dhSecret : U8Array 32) : U8Array 32 × U8Array 32 :=
  let out := P.hashing.hkdf rootKey.bytes dhSecret.bytes (utf8 "WhisperRatchet") 64
  (out.slice 0 32 (by decide), out.slice 32 32 (by decide))

/-- The MAC of a message, under the identities of both ends. -/
def computeMessageMac (macKey senderId receiverId : U8Array 32) (versionAndBody : Bytes) :
    U8Array 32 :=
  P.hashing.hmac macKey.bytes
    (0x05 :: senderId.bytes ++ 0x05 :: receiverId.bytes ++ versionAndBody)

/-! ## 4. Steps of the root -/

/-- The step of a receiver: the chain of `theirNewPub` goes in front, and a new sender chain with
    the private key `fresh` takes the place of the old one. -/
def dhRatchetStep (state : SessionState) (theirNewPub fresh : U8Array 32) :
    Except SignalError SessionState :=
  match state.senderRatchetPriv with
  | none => .error (.malformed "no sender ratchet to step from")
  | some sendPriv =>
      let (rootAfterRecv, recvChain) :=
        ratchetRootStep P state.rootKey (P.x25519.dh sendPriv theirNewPub)
      let (rootAfterSend, sendChain) :=
        ratchetRootStep P rootAfterRecv (P.x25519.dh fresh theirNewPub)
      .ok { state with
        previousCounter := (state.senderChain.map ChainKey.index).getD 0
        rootKey := rootAfterSend
        senderRatchetPriv := some fresh
        senderRatchetPub := some (P.x25519.pub fresh)
        senderChain := some ⟨sendChain, 0⟩
        receiverChains :=
          (⟨theirNewPub, ⟨recvChain, 0⟩, []⟩ :: state.receiverChains).take MAX_RECEIVER_CHAINS }

/-- The missing half of a step for a session that has only received so far. -/
def bobFirstSendStep (state : SessionState) (fresh : U8Array 32) :
    Except SignalError SessionState :=
  match state.receiverChains with
  | [] => .error (.malformed "no receiver chain to step from")
  | first :: _ =>
      let (newRoot, sendChain) :=
        ratchetRootStep P state.rootKey (P.x25519.dh fresh first.remoteRatchetPub)
      .ok { state with
        rootKey := newRoot
        senderRatchetPriv := some fresh
        senderRatchetPub := some (P.x25519.pub fresh)
        senderChain := some ⟨sendChain, 0⟩ }

/-! ## 5. X3DH -/

structure AliceParameters where
  localIdentityPriv : U8Array 32
  localIdentityPub : U8Array 32
  localBasePriv : U8Array 32
  localBasePub : U8Array 32
  localRatchetPriv : U8Array 32
  localRatchetPub : U8Array 32
  remoteIdentityPub : U8Array 32
  remoteSignedPrekeyPub : U8Array 32
  remoteOneTimePrekeyPub : Option (U8Array 32)

structure BobParameters where
  localIdentityPriv : U8Array 32
  localIdentityPub : U8Array 32
  localSignedPrekeyPriv : U8Array 32
  localOneTimePrekeyPriv : Option (U8Array 32)
  remoteIdentityPub : U8Array 32
  remoteBasePub : U8Array 32
  remoteRatchetPub : U8Array 32

/-- The session of the initiator. It can send, and it has no receiver chain yet. -/
def initiateAlice (p : AliceParameters) : SessionState :=
  let dh := P.x25519.dh
  let dhs := [dh p.localIdentityPriv p.remoteSignedPrekeyPub,
    dh p.localBasePriv p.remoteIdentityPub, dh p.localBasePriv p.remoteSignedPrekeyPub] ++
    (p.remoteOneTimePrekeyPub.map fun opk => dh p.localBasePriv opk).toList
  let (root, _) := initialKdf P dhs
  let (newRoot, sendChain) :=
    ratchetRootStep P root (dh p.localRatchetPriv p.remoteSignedPrekeyPub)
  { sessionVersion := 3
    localIdentityPub := p.localIdentityPub
    remoteIdentityPub := p.remoteIdentityPub
    rootKey := newRoot
    senderChain := some ⟨sendChain, 0⟩
    senderRatchetPriv := some p.localRatchetPriv
    senderRatchetPub := some p.localRatchetPub
    previousCounter := 0
    receiverChains := []
    pendingPreKey := none
    localRegistrationId := 0
    remoteRegistrationId := 0 }

/-- The session of the responder. It has the initiator's first chain, and no sender chain yet. -/
def processBob (p : BobParameters) : SessionState :=
  let dh := P.x25519.dh
  let dhs := [dh p.localSignedPrekeyPriv p.remoteIdentityPub,
    dh p.localIdentityPriv p.remoteBasePub, dh p.localSignedPrekeyPriv p.remoteBasePub] ++
    (p.localOneTimePrekeyPriv.map fun opk => dh opk p.remoteBasePub).toList
  let (root, _) := initialKdf P dhs
  let (newRoot, recvChain) :=
    ratchetRootStep P root (dh p.localSignedPrekeyPriv p.remoteRatchetPub)
  { sessionVersion := 3
    localIdentityPub := p.localIdentityPub
    remoteIdentityPub := p.remoteIdentityPub
    rootKey := newRoot
    senderChain := none
    senderRatchetPriv := none
    senderRatchetPub := none
    previousCounter := 0
    receiverChains := [⟨p.remoteRatchetPub, ⟨recvChain, 0⟩, []⟩]
    pendingPreKey := none
    localRegistrationId := 0
    remoteRegistrationId := 0 }

/-! ## 6. `SessionCipher` -/

/-- `[0x05] || pub`. -/
def djb (pub : U8Array 32) : Bytes := 0x05 :: pub.bytes

/-- A public key with its prefix, or bare. -/
def unwrapDjbPub (b : Bytes) (field : String) : Except SignalError (U8Array 32) :=
  if b.length = 33 ∧ b.head? = some 0x05 then
    match U8Array.ofBytes? 32 b.tail with
    | some pub => .ok pub
    | none => .error (.malformed field)
  else
    match U8Array.ofBytes? 32 b with
    | some pub => .ok pub
    | none => .error (.malformed field)

/-- One message on a sender chain: its wire bytes. -/
def sealMessage (localId remoteId ratchetPub : U8Array 32) (previousCounter : UInt32)
    (mks : MessageKeys) (plaintext : Bytes) : Bytes :=
  let proto : SignalMessageProto :=
    ⟨some (djb ratchetPub), some mks.counter, some previousCounter,
      some (P.cbc.encrypt mks.cipherKey mks.iv plaintext)⟩
  let serialized := WHISPER_VERSION :: P.whisper.encode proto
  let mac := computeMessageMac P mks.macKey localId remoteId serialized
  serialized ++ mac.bytes.take MAC_TRUNCATION_BYTES

def encrypt (state : SessionState) (fresh : U8Array 32) (plaintext : Bytes) :
    Except SignalError CiphertextMessage × SessionState :=
  match if state.senderChain.isNone then bobFirstSendStep P state fresh else .ok state with
  | .error e => (.error e, state)
  | .ok state =>
      match state.senderChain, state.senderRatchetPub with
      | some chain, some ratchetPub =>
          let serialized := sealMessage P state.localIdentityPub state.remoteIdentityPub ratchetPub
            state.previousCounter (deriveMessageKeys P chain) plaintext
          (.ok ⟨serialized, .whisper⟩,
            { state with senderChain := some (chain.next P.hashing) })
      | _, _ => (.error .noSenderChain, state)

/-- What `decrypt` reads off a wire before it looks at the session. -/
structure WhisperMessage where
  body : Bytes
  mac : Bytes
  ratchetPub : U8Array 32
  counter : UInt32
  ciphertext : Bytes
  deriving DecidableEq

/-- The first part of `decrypt`: the checks of the wire and of its fields. -/
def parseWire (wire : Bytes) : Except SignalError WhisperMessage :=
  if wire.length < 1 + MAC_TRUNCATION_BYTES + 1 then .error (.malformed "wire too short")
  else if wire.head? ≠ some WHISPER_VERSION then .error (.malformed "unexpected version byte")
  else
    let macOffset := wire.length - MAC_TRUNCATION_BYTES
    let body := wire.take macOffset
    match P.whisper.decode body.tail with
    | none => .error (.malformed "proto")
    | some proto =>
        match proto.ratchetKey with
        | none => .error (.malformed "missing ratchet_key")
        | some ratchetKey =>
            match unwrapDjbPub ratchetKey "ratchet_key wrong length" with
            | .error e => .error e
            | .ok ratchetPub =>
                match proto.ciphertext with
                | none => .error (.malformed "missing ciphertext")
                | some ciphertext =>
                    .ok ⟨body, wire.drop macOffset, ratchetPub, proto.counter.getD 0, ciphertext⟩

/-- Checks the MAC and decrypts, under the receiver's view of the two identities. -/
def openWith (localId remoteId : U8Array 32) (mks : MessageKeys) (m : WhisperMessage) :
    Except SignalError Bytes :=
  let expectedMac := computeMessageMac P mks.macKey remoteId localId m.body
  if expectedMac.bytes.take MAC_TRUNCATION_BYTES ≠ m.mac then .error .badMac
  else
    match P.cbc.decrypt mks.cipherKey mks.iv m.ciphertext with
    | none => .error .aesDecrypt
    | some plaintext => .ok plaintext

/-- One message on its receiver chain. A walk fills the cache before the MAC is checked; the chain
    key moves on, or the cached key goes, only after the message has opened. -/
def onChain (localId remoteId : U8Array 32) (rc : ReceiverChain) (m : WhisperMessage) :
    Except SignalError Bytes × ReceiverChain :=
  if m.counter < rc.chainKey.index then
    match takeFirst (fun k => k.counter == m.counter) rc.skippedKeys with
    | none => (.error (.malformed "counter out of range"), rc)
    | some (mks, rest) =>
        match openWith P localId remoteId mks m with
        | .error e => (.error e, rc)
        | .ok plaintext => (.ok plaintext, { rc with skippedKeys := rest })
  else if rc.skippedKeys.length + (m.counter.toNat - rc.chainKey.index.toNat) >
      MAX_SKIPPED_MESSAGE_KEYS then
    (.error (.malformed "skipped key cache would exceed limit"), rc)
  else
    let (kept, walking) := walkTo P.hashing (deriveMessageKeys P) m.counter rc.chainKey
    let rc := { rc with skippedKeys := rc.skippedKeys ++ kept }
    match openWith P localId remoteId (deriveMessageKeys P walking) m with
    | .error e => (.error e, rc)
    | .ok plaintext => (.ok plaintext, { rc with chainKey := walking.next P.hashing })

/-- The chain a message belongs to, as `position` finds it. -/
def chainIdx (chains : List ReceiverChain) (ratchetPub : U8Array 32) : Option Nat :=
  chains.findIdx? fun rc => rc.remoteRatchetPub == ratchetPub

/-- A message on the chain at `idx`, which is put back as the message leaves it. -/
def decryptAt (state : SessionState) (idx : Nat) (m : WhisperMessage) :
    Except SignalError Bytes × SessionState :=
  match state.receiverChains[idx]? with
  | none => (.error (.malformed "no such chain"), state)
  | some rc =>
      let (res, rc) := onChain P state.localIdentityPub state.remoteIdentityPub rc m
      (res, { state with receiverChains := state.receiverChains.set idx rc })

/-- A message with a ratchet key that no chain has steps the session first. -/
def decryptMessage (state : SessionState) (fresh : U8Array 32) (m : WhisperMessage) :
    Except SignalError Bytes × SessionState :=
  match chainIdx state.receiverChains m.ratchetPub with
  | some idx => decryptAt P state idx m
  | none =>
      match dhRatchetStep P state m.ratchetPub fresh with
      | .error e => (.error e, state)
      | .ok state => decryptAt P state 0 m

def decrypt (state : SessionState) (fresh : U8Array 32) (wire : Bytes) :
    Except SignalError Bytes × SessionState :=
  match parseWire P wire with
  | .error e => (.error e, state)
  | .ok m => decryptMessage P state fresh m

/-! ## 7. The first message -/

/-- Wraps a message of a new session in the envelope that tells the peer how to build its own. -/
def encryptPreKey (state : SessionState) (fresh : U8Array 32) (plaintext : Bytes)
    (registrationId : UInt32) (baseKeyPub identityKeyPub : U8Array 32) (signedPreKeyId : UInt32)
    (oneTimePreKeyId : Option UInt32) : Except SignalError CiphertextMessage × SessionState :=
  match encrypt P state fresh plaintext with
  | (.error e, state) => (.error e, state)
  | (.ok inner, state) =>
      let pkm : PreKeySignalMessageProto :=
        ⟨some registrationId, oneTimePreKeyId, some signedPreKeyId, some (djb baseKeyPub),
          some (djb identityKeyPub), some inner.serialized⟩
      (.ok ⟨WHISPER_VERSION :: P.preKey.encode pkm, .preKey⟩, state)

structure PreKeyMessageInfo where
  registrationId : UInt32
  preKeyId : Option UInt32
  signedPreKeyId : UInt32
  baseKeyPub : U8Array 32
  identityKeyPub : U8Array 32
  innerRatchetPub : U8Array 32
  innerWhisperWire : Bytes
  deriving DecidableEq

/-- The ratchet key of the message inside an envelope. -/
def innerRatchetPub (inner : Bytes) : Except SignalError (U8Array 32) := do
  if inner.length < 1 + MAC_TRUNCATION_BYTES + 1 then
    throw (.malformed "inner whisper too short")
  if inner.head? ≠ some WHISPER_VERSION then throw (.malformed "inner whisper bad version")
  let innerBodyEnd := inner.length - MAC_TRUNCATION_BYTES
  match P.whisper.decode (inner.take innerBodyEnd).tail with
  | none => throw (.malformed "inner whisper proto")
  | some proto =>
      match proto.ratchetKey with
      | none => throw (.malformed "inner whisper missing ratchet_key")
      | some ratchetKey => unwrapDjbPub ratchetKey "inner ratchet_key wrong length"

def parsePreKeyMessage (wire : Bytes) : Except SignalError PreKeyMessageInfo := do
  if wire.isEmpty then throw (.malformed "empty wire")
  if wire.head? ≠ some WHISPER_VERSION then throw (.malformed "unexpected version byte")
  match P.preKey.decode wire.tail with
  | none => throw (.malformed "PreKey proto")
  | some proto =>
      match proto.signedPreKeyId, proto.baseKey, proto.identityKey, proto.message with
      | none, _, _, _ => throw (.malformed "PreKey missing signed_pre_key_id")
      | some _, none, _, _ => throw (.malformed "PreKey missing base_key")
      | some _, some _, none, _ => throw (.malformed "PreKey missing identity_key")
      | some _, some _, some _, none => throw (.malformed "PreKey missing inner message")
      | some signedPreKeyId, some baseKey, some identityKey, some inner =>
          let baseKeyPub ← unwrapDjbPub baseKey "PreKey base_key wrong length"
          let identityKeyPub ← unwrapDjbPub identityKey "PreKey identity_key wrong length"
          let ratchetPub ← innerRatchetPub P inner
          return ⟨proto.registrationId.getD 0, proto.preKeyId, signedPreKeyId, baseKeyPub,
            identityKeyPub, ratchetPub, inner⟩

end

/-! ## 8. A session with its real bytes

Alice starts a session with a one-time prekey and says `hi`; Bob answers `yo` on a chain of his
own. The values are those of X25519, HKDF, HMAC-SHA256 and AES-256-CBC. -/

namespace Known

/-- The private keys, clamped: identities, base key, prekeys, and the ratchet keys in order. -/
def priv (n : Nat) : U8Array 32 := .ofNat 32 (8 * n * 2 ^ 248 + 0x40)

def aliceId : U8Array 32 := priv 1
def aliceBase : U8Array 32 := priv 2
def ratchet₁ : U8Array 32 := priv 3
def bobId : U8Array 32 := priv 4
def bobSpk : U8Array 32 := priv 5
def bobOpk : U8Array 32 := priv 6
def ratchet₂ : U8Array 32 := priv 7
def ratchet₃ : U8Array 32 := priv 8

def aliceIdPub : U8Array 32 :=
  .ofNat 32 0x422c8e7a6227d7bca1350b3e2bb7279f7897b87bb6854b783c60e80311ae3079
def aliceBasePub : U8Array 32 :=
  .ofNat 32 0x8d20f8c7bbfb9af3da4ef532ed44efc68ce642bc5d0c5cb1d7b91b96c74edf02
def ratchet₁Pub : U8Array 32 :=
  .ofNat 32 0xae8b046f96cb5841c86fd8b63d3d6265b209dfa0df66bdaa42b7a9fc59779523
def bobIdPub : U8Array 32 :=
  .ofNat 32 0x0f524bef7e12258fd9eefcd9e468b21e543d90cc4a54b347f48cc5969febf432
def bobSpkPub : U8Array 32 :=
  .ofNat 32 0x87558542bbbfff0f93902ffa8434b44235daa830ccffb1a6b5300b3cda701d05
def bobOpkPub : U8Array 32 :=
  .ofNat 32 0x9e59e4d87a91ea9e9d517e67f758c62fc7d922e9ca25b7c184422b70228ba328
def ratchet₂Pub : U8Array 32 :=
  .ofNat 32 0x537342d1c6a95bf00d7bb55595f0ea13201c160d392d926180e95b24c57acb0c
def ratchet₃Pub : U8Array 32 :=
  .ofNat 32 0xaf6c6be037cc0622e88a735a98f77ac06f372bad8542bc0f65c0c580b095ae4e

/-- The shared secrets: four of X3DH, and one for each ratchet step. -/
def dhIdentity : U8Array 32 :=
  .ofNat 32 0x64f5c01c4f5293a43fca4d033eedbb212aa47f159f3628bac010236895b78373
def dhBase : U8Array 32 :=
  .ofNat 32 0x976f55c1b442efa6366c776e37ffe3f83fb99f31ab06c76e7736bbcbbb85ab3f
def dhSpk : U8Array 32 :=
  .ofNat 32 0x01cad6c3a4642836f97dc22fa8e1179b9712ee78bb3c75965378440eb393665d
def dhOpk : U8Array 32 :=
  .ofNat 32 0x6774057994d8d467fd7a1185071b2eba5e876b7fc316ac12aec65af01cd95c5a
def dh₁ : U8Array 32 :=
  .ofNat 32 0x7130fa5319d7ae165a043c3ce6d256ba5b8bc564c53fe1862e5cb5d567077e4b
def dh₂ : U8Array 32 :=
  .ofNat 32 0x3e6ab476fe477b6ec629d5701be41edecc92882264da625dec5f549df513a510
def dh₃ : U8Array 32 :=
  .ofNat 32 0x4c07dcce690bfe1d099eba4806d0f50132853cb45404fa7358724ebe24129841

def x25519 : X25519 :=
  .ofTable
    [(aliceId, aliceIdPub), (aliceBase, aliceBasePub), (ratchet₁, ratchet₁Pub),
      (bobId, bobIdPub), (bobSpk, bobSpkPub), (bobOpk, bobOpkPub),
      (ratchet₂, ratchet₂Pub), (ratchet₃, ratchet₃Pub)]
    [((aliceIdPub, bobSpkPub), dhIdentity), ((aliceBasePub, bobIdPub), dhBase),
      ((aliceBasePub, bobSpkPub), dhSpk), ((aliceBasePub, bobOpkPub), dhOpk),
      ((ratchet₁Pub, bobSpkPub), dh₁), ((ratchet₂Pub, ratchet₁Pub), dh₂),
      ((ratchet₃Pub, ratchet₂Pub), dh₃)]

/-- The root keys and the chain keys they come with, and the keys after the first. -/
def root₀ : U8Array 32 :=
  .ofNat 32 0xf5f479a1225220d956f6e39a66a988b72ee047de5120e9b9c35db1212c08e9e6
def unused : U8Array 32 :=
  .ofNat 32 0x099494a7df3bf848594366f760708313fccc74d0b8560764b8e47cffb61f5e9d
def root₁ : U8Array 32 :=
  .ofNat 32 0x8e72bfde35b4f823d12bd91f9fd41d4f98dfebd782cc24b37bc4892c171f182d
def chain₁ : U8Array 32 :=
  .ofNat 32 0x053f283c40bab899be7b9be81792983c2abca557c6045823b790fa4be63ce151
def root₂ : U8Array 32 :=
  .ofNat 32 0xa45bf58742587751e7c1b76fa8ab6c6bbb94dbd394a7e451805f07bf6a66946e
def chain₂ : U8Array 32 :=
  .ofNat 32 0x856e9c3305aa86a108fece388933a9e1e05d3e956de19d660124209f4643a93d
def root₃ : U8Array 32 :=
  .ofNat 32 0x262256c531426dd0e8b8f51337467937146a1b874176492034faebb9e2d0c87d
def chain₃ : U8Array 32 :=
  .ofNat 32 0x187f7cfb455a7129ad4db401fc32f25c241c2d782bc67e6d875fb6a1ca59a315
def chain₁Next : U8Array 32 :=
  .ofNat 32 0x621b1cf754fd11445c832c51a755a5085f4c3742dccd2cccdeaf530e6d939bce
def chain₂Next : U8Array 32 :=
  .ofNat 32 0x6f2d2faa4a029a01d7b9b6a1555577271cef7b1d646789aface4f13d4a2e881d

/-- The seeds of three messages, and what is expanded from them. -/
def seed₁ : U8Array 32 :=
  .ofNat 32 0x47c650c6b152a3bde2cd53bef1681a7bf192a682188c1ebc34cab0e105987b2c
def seed₁Next : U8Array 32 :=
  .ofNat 32 0x2979c1754aa624bd2a290504468e8d74f048c9d307dbb25ccbb2aa99e8a5a1b9
def seed₂ : U8Array 32 :=
  .ofNat 32 0xcdd6dfef55cf630b05783181437e45149e7e8e0dffe5acde47f4d3e765a1bbe2
def keys₁ : Bytes :=
  toBE 32 0xd4cdf6aaaea6e8cd3bd79bedb8a7d53d9b6840ca48a9b03972c94e3e559ddfed ++
    toBE 32 0xb6828e71191a84519f73195e9d1622a7b5083474396ab258ad5b9e3ef29eefb8 ++
    toBE 16 0x9674dc7eb634ae642adef69f28f89269
def keys₁Next : Bytes :=
  toBE 32 0x8947bc57198fef5d98dfb32dfd36ed450fb027db1ca076adddbb6c0249c2d77d ++
    toBE 32 0x5616c77bcba31b16e14751de05fb69e0902be443cf641efcf02a2fc9260bce5a ++
    toBE 16 0x01b751f8ab1491c72d163ffb31049e57
def keys₂ : Bytes :=
  toBE 32 0x519616fc5c6b27b9439d51454fa4666cbcbeebb844dcf8b6c9d5a08d704dc6e3 ++
    toBE 32 0xd5205ba59a299e5db1a7e47351538b4a0792a68b2991ce01a604d1697d7a4935 ++
    toBE 16 0xd260dfdac60db8e96c60c5ccc0e9bcee

def hi : Bytes := utf8 "hi"
def yo : Bytes := utf8 "yo"
def hiCt : Bytes := toBE 16 0x3fd5543f0b78c76d49b785ec46b5b3a7
def yoCt : Bytes := toBE 16 0xd8b7b927ef900086a8949b7bccf29818

/-- A message without its MAC, and what its MAC is taken of. -/
def body (ratchetPub : U8Array 32) (counter : UInt8) (ct : Bytes) : Bytes :=
  0x33 :: 0x0A :: 33 :: 5 :: ratchetPub.bytes ++ [0x10, counter, 0x18, 0, 0x22, 16] ++ ct
def macced (sender receiver : U8Array 32) (body : Bytes) : Bytes :=
  0x05 :: sender.bytes ++ 0x05 :: receiver.bytes ++ body

def hiMac : U8Array 32 :=
  .ofNat 32 0xf62daab496270eef8255bff14fc29404d9ad574fc5a9c09cf9064d4e3c6e82c8
def yoMac : U8Array 32 :=
  .ofNat 32 0x5278504d8adb77f00d88781f71c06262c8b3bd34970fccdbd06eb200eb1647b3
def forgedMac : U8Array 32 :=
  .ofNat 32 0xe69a47904549379e4881416a57715e14f57549048144f09c0d0c7fe93ec9c9b4

/-- Alice's message, Bob's answer, and a message that is neither's: the counter is one ahead. -/
def hiBody : Bytes := body ratchet₁Pub 0 hiCt
def yoBody : Bytes := body ratchet₂Pub 0 yoCt
def forgedBody : Bytes := body ratchet₁Pub 1 (List.replicate 16 0)
def hiWire : Bytes := hiBody ++ hiMac.bytes.take 8
def yoWire : Bytes := yoBody ++ yoMac.bytes.take 8
def forgedWire : Bytes := forgedBody ++ List.replicate 8 0

def zeros : Bytes := List.replicate 32 0

def hashing : Hashing :=
  .ofTable []
    [((chain₁.bytes, [1]), seed₁), ((chain₁.bytes, [2]), chain₁Next),
      ((chain₁Next.bytes, [1]), seed₁Next), ((chain₂.bytes, [1]), seed₂),
      ((chain₂.bytes, [2]), chain₂Next),
      (((keys₁.drop 32).take 32, macced aliceIdPub bobIdPub hiBody), hiMac),
      (((keys₂.drop 32).take 32, macced bobIdPub aliceIdPub yoBody), yoMac),
      (((keys₁Next.drop 32).take 32, macced aliceIdPub bobIdPub forgedBody), forgedMac)]
    [((zeros, List.replicate 32 0xFF ++ dhIdentity.bytes ++ dhBase.bytes ++ dhSpk.bytes ++
        dhOpk.bytes, utf8 "WhisperText", 64), root₀.bytes ++ unused.bytes),
      ((root₀.bytes, dh₁.bytes, utf8 "WhisperRatchet", 64), root₁.bytes ++ chain₁.bytes),
      ((root₁.bytes, dh₂.bytes, utf8 "WhisperRatchet", 64), root₂.bytes ++ chain₂.bytes),
      ((root₂.bytes, dh₃.bytes, utf8 "WhisperRatchet", 64), root₃.bytes ++ chain₃.bytes),
      ((zeros, seed₁.bytes, utf8 "WhisperMessageKeys", 80), keys₁),
      ((zeros, seed₁Next.bytes, utf8 "WhisperMessageKeys", 80), keys₁Next),
      ((zeros, seed₂.bytes, utf8 "WhisperMessageKeys", 80), keys₂)]

def primitives : SignalPrimitives where
  hashing := hashing
  cbc := .ofTable
    [⟨(.ofNat 32 0xd4cdf6aaaea6e8cd3bd79bedb8a7d53d9b6840ca48a9b03972c94e3e559ddfed,
        .ofNat 16 0x9674dc7eb634ae642adef69f28f89269), hi, hiCt⟩,
      ⟨(.ofNat 32 0x519616fc5c6b27b9439d51454fa4666cbcbeebb844dcf8b6c9d5a08d704dc6e3,
        .ofNat 16 0xd260dfdac60db8e96c60c5ccc0e9bcee), yo, yoCt⟩]
  x25519 := x25519
  whisper := SignalMessageProto.codec
  preKey := PreKeySignalMessageProto.codec
  encode_ne_nil := SignalMessageProto.encode_ne_nil

def aliceParameters : AliceParameters :=
  ⟨aliceId, aliceIdPub, aliceBase, aliceBasePub, ratchet₁, ratchet₁Pub, bobIdPub, bobSpkPub,
    some bobOpkPub⟩

def bobParameters : BobParameters :=
  ⟨bobId, bobIdPub, bobSpk, some bobOpk, aliceIdPub, aliceBasePub, ratchet₁Pub⟩

def alice : SessionState := initiateAlice primitives aliceParameters
def bob : SessionState := processBob primitives bobParameters

end Known

example : (encrypt Known.primitives Known.alice Known.ratchet₃ Known.hi).1 =
    .ok ⟨Known.hiWire, .whisper⟩ := by decide +kernel

example : (decrypt Known.primitives Known.bob Known.ratchet₂ Known.hiWire).1 = .ok Known.hi := by
  decide +kernel

end Ruwa.Crypto.Signal
