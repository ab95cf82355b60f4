/-
  File:      Ruwa/Crypto/SenderKey.lean
  Subject:   SENDER KEYS (`crypto.rs`, module `senderkey`): group messages along one signed chain.

  The sender takes one chain step a message and signs what it sends. A receiver checks the
  signature before anything else, walks its own copy of the chain to the message's iteration, and
  keeps the keys of the iterations it passes; a late message takes its key from there.

  * `InStep` -- the invariant of a receiver: it follows the sender's chain; `inStep_deliver` is one
    delivery, `inStep_deliverAll` any run of them;
  * `unverified_unchanged` -- a wire whose signature does not verify changes nothing;
  * **`group_channel`** -- every message opens the first time it is delivered, and never again.

  The indices are `u32`, and the chain counts past the last one back to 0: near the end of the
  range a late message is lost, which `late_message_lost` shows.
-/
import Ruwa.Crypto.Chain
import Ruwa.Library.ProtoWire
import Ruwa.Library.Text

namespace Ruwa.Crypto.SenderKey

open Ruwa.Library
open Ruwa.Library.Text
open Ruwa.Crypto

/-! ## 1. The source -/

def WHISPER_VERSION : UInt8 := 0x33
def SKMSG_SIGNATURE_LEN : Nat := 64
def MAX_SKIPPED_SENDER_KEYS : Nat := 2000

/-- The sender's state for one group. -/
structure SenderKeyState where
  keyId : UInt32
  chainKey : ChainKey
  signingKeypairPriv : U8Array 32
  signingKeypairPub : U8Array 32
  deriving DecidableEq

/-- What the sender ships to every member. -/
structure SenderKeyDistribution where
  keyId : UInt32
  iteration : UInt32
  chainKey : U8Array 32
  signingKey : U8Array 32
  deriving DecidableEq

/-- The key of an iteration that was passed over. -/
structure SkippedSenderKey where
  iteration : UInt32
  iv : U8Array 16
  cipherKey : U8Array 32
  deriving DecidableEq

/-- A receiver's state for one group and sender. -/
structure SenderKeyReceiverState where
  keyId : UInt32
  chainKey : ChainKey
  signingPub : U8Array 32
  skipped : List SkippedSenderKey
  deriving DecidableEq

structure SenderKeyMessageProto where
  keyId : Option UInt32
  iteration : Option UInt32
  ciphertext : Option Bytes
  deriving DecidableEq

namespace SenderKeyMessageProto

/-- The message type on the wire: tags 1, 2 and 3. -/
def codec : ProtoWire.Codec SenderKeyMessageProto :=
  .ofFields
    (fun m => ProtoWire.numField 1 m.keyId ++ ProtoWire.numField 2 m.iteration ++
      ProtoWire.bytesField 3 m.ciphertext)
    (fun fs => do
      return ⟨← ProtoWire.num? 1 fs, ← ProtoWire.num? 2 fs, ← ProtoWire.bytes? 3 fs⟩)
    (by
      intro m
      rw [ProtoWire.num?_of_last? (n := m.keyId) (by simp),
        ProtoWire.num?_of_last? (n := m.iteration) (by simp),
        ProtoWire.bytes?_of_last? (b := m.ciphertext) (by simp)]
      rfl)

theorem encode_ne_nil (m : SenderKeyMessageProto) (h : m.ciphertext.isSome) :
    codec.encode m ≠ [] := by
  obtain ⟨ciphertext, hct⟩ := Option.isSome_iff_exists.mp h
  refine ProtoWire.encodeFields_ne_nil fun hnil => ?_
  have hfield := (List.append_eq_nil_iff.mp hnil).2
  rw [hct] at hfield
  cases hfield

end SenderKeyMessageProto

inductive SkMsgError
  | aes
  | malformed (what : String)
  | badSignature
  deriving Repr, DecidableEq

/-- What the module takes from libraries. A message with its ciphertext set is never empty. -/
structure SenderKeyPrimitives where
  hashing : Hashing
  cbc : AesCbc
  xeddsa : XEdDsa
  proto : ProtoWire.Codec SenderKeyMessageProto
  encode_ne_nil : ∀ m, m.ciphertext.isSome → proto.encode m ≠ []

def SenderKeyState.distribution (s : SenderKeyState) : SenderKeyDistribution :=
  ⟨s.keyId, s.chainKey.index, s.chainKey.key, s.signingKeypairPub⟩

def installDistribution (skdm : SenderKeyDistribution) : SenderKeyReceiverState :=
  ⟨skdm.keyId, ⟨skdm.chainKey, skdm.iteration⟩, skdm.signingKey, []⟩

section

variable (P : SenderKeyPrimitives)

/-- `(iv, cipher_key)` at the chain's index. -/
def deriveSenderMessageKeys (chain : ChainKey) : U8Array 16 × U8Array 32 :=
  let seed := P.hashing.hmac chain.key.bytes [0x01]
  let out := P.hashing.hkdf (List.replicate 32 0) seed.bytes (utf8 "WhisperGroup") 48
  (out.slice 0 16 (by omega), out.slice 16 32 (by omega))

/-- The cache entry for the chain's index. -/
def skippedKey (chain : ChainKey) : SkippedSenderKey :=
  let (iv, cipherKey) := deriveSenderMessageKeys P chain
  ⟨chain.index, iv, cipherKey⟩

/-- Encrypts, signs, and advances the chain. It has no error path. -/
def encryptSenderKeyMessage (state : SenderKeyState) (nonce : U8Array 64) (padded : Bytes) :
    Bytes × SenderKeyState :=
  let (iv, cipherKey) := deriveSenderMessageKeys P state.chainKey
  let ciphertext := P.cbc.encrypt cipherKey iv padded
  let proto := ⟨some state.keyId, some state.chainKey.index, some ciphertext⟩
  let wire := WHISPER_VERSION :: P.proto.encode proto
  let sig := P.xeddsa.sign state.signingKeypairPriv wire nonce
  (wire ++ sig.bytes, { state with chainKey := state.chainKey.next P.hashing })

/-- The fields of a body whose signature was checked. -/
def openBody (body : Bytes) : Except SkMsgError (UInt32 × Bytes) :=
  match P.proto.decode body with
  | none => .error (.malformed "proto")
  | some proto =>
      match proto.ciphertext with
      | none => .error (.malformed "missing ciphertext")
      | some ciphertext => .ok (proto.iteration.getD 0, ciphertext)

/-- The first half of `decrypt_sender_key_message`, which changes no state: the checks of the wire,
    its signature and its fields, up to the iteration and the ciphertext. -/
def openWire (signingPub : U8Array 32) (wire : Bytes) : Except SkMsgError (UInt32 × Bytes) :=
  if wire.length < 1 + SKMSG_SIGNATURE_LEN + 1 then .error (.malformed "wire too short")
  else if wire.head? ≠ some WHISPER_VERSION then .error (.malformed "unexpected version byte")
  else
    let sigOffset := wire.length - SKMSG_SIGNATURE_LEN
    let signedBody := wire.take sigOffset
    match U8Array.ofBytes? 64 (wire.drop sigOffset) with
    | none => .error (.malformed "signature length")
    | some sig =>
        if P.xeddsa.verify signingPub signedBody sig then openBody P signedBody.tail
        else .error .badSignature

/-- The second half: a late iteration from the cache, any other by walking the chain. The walk
    fills the cache before the ciphertext is tried. -/
def decryptAt (state : SenderKeyReceiverState) (iteration : UInt32) (ciphertext : Bytes) :
    Except SkMsgError Bytes × SenderKeyReceiverState :=
  if iteration < state.chainKey.index then
    match takeFirst (fun s => s.iteration == iteration) state.skipped with
    | none => (.error (.malformed "iteration went backwards (no cached key)"), state)
    | some (sk, rest) =>
        match P.cbc.decrypt sk.cipherKey sk.iv ciphertext with
        | none => (.error .aes, state)
        | some plaintext => (.ok plaintext, { state with skipped := rest })
  else if iteration.toNat - state.chainKey.index.toNat > MAX_SKIPPED_SENDER_KEYS then
    (.error (.malformed "iteration jump too large"), state)
  else
    let (kept, walking) := walkTo P.hashing (skippedKey P) iteration state.chainKey
    let state := { state with skipped := state.skipped ++ kept }
    let (iv, cipherKey) := deriveSenderMessageKeys P walking
    match P.cbc.decrypt cipherKey iv ciphertext with
    | none => (.error .aes, state)
    | some plaintext =>
        (.ok plaintext, { state with
          chainKey := walking.next P.hashing
          skipped := state.skipped.drop (state.skipped.length - MAX_SKIPPED_SENDER_KEYS) })

def decryptSenderKeyMessage (state : SenderKeyReceiverState) (wire : Bytes) :
    Except SkMsgError Bytes × SenderKeyReceiverState :=
  match openWire P state.signingPub wire with
  | .error e => (.error e, state)
  | .ok (iteration, ciphertext) => decryptAt P state iteration ciphertext

end

/-! ## 2. One wire -/

section

variable (P : SenderKeyPrimitives)

/-- The last 64 bytes are a signature of the rest. -/
def signatureVerifies (signingPub : U8Array 32) (wire : Bytes) : Bool :=
  match U8Array.ofBytes? 64 (wire.drop (wire.length - SKMSG_SIGNATURE_LEN)) with
  | some sig => P.xeddsa.verify signingPub (wire.take (wire.length - SKMSG_SIGNATURE_LEN)) sig
  | none => false

theorem openWire_unverified {signingPub : U8Array 32} {wire : Bytes}
    (h : signatureVerifies P signingPub wire = false) :
    ∃ e, openWire P signingPub wire = .error e := by
  unfold signatureVerifies at h
  unfold openWire
  split
  · exact ⟨_, rfl⟩
  · split
    · exact ⟨_, rfl⟩
    · dsimp only
      cases hsig : U8Array.ofBytes? 64 (wire.drop (wire.length - SKMSG_SIGNATURE_LEN)) with
      | none => exact ⟨_, rfl⟩
      | some sig =>
          rw [hsig] at h
          exact ⟨_, if_neg (Bool.not_eq_true _ ▸ h)⟩

/-- **A wire whose signature does not verify changes nothing.** -/
theorem unverified_unchanged {state : SenderKeyReceiverState} {wire : Bytes}
    (h : signatureVerifies P state.signingPub wire = false) :
    ∃ e, decryptSenderKeyMessage P state wire = (.error e, state) := by
  obtain ⟨e, he⟩ := openWire_unverified P h
  refine ⟨e, ?_⟩
  unfold decryptSenderKeyMessage
  rw [he]

/-- What the sender wrote is what the receiver's checks let through. -/
theorem openWire_encrypt {state : SenderKeyState} {nonce : U8Array 64} {padded : Bytes}
    (hkey : state.signingKeypairPub = P.xeddsa.pub state.signingKeypairPriv) :
    openWire P state.signingKeypairPub (encryptSenderKeyMessage P state nonce padded).1 =
      .ok (state.chainKey.index,
        let keys := deriveSenderMessageKeys P state.chainKey
        P.cbc.encrypt keys.2 keys.1 padded) := by
  rcases hkeys : deriveSenderMessageKeys P state.chainKey with ⟨iv, cipherKey⟩
  let proto : SenderKeyMessageProto :=
    ⟨some state.keyId, some state.chainKey.index, some (P.cbc.encrypt cipherKey iv padded)⟩
  let body := WHISPER_VERSION :: P.proto.encode proto
  let sig := P.xeddsa.sign state.signingKeypairPriv body nonce
  have hwire : (encryptSenderKeyMessage P state nonce padded).1 = body ++ sig.bytes := by
    unfold encryptSenderKeyMessage
    rw [hkeys]
  have hlen : (body ++ sig.bytes).length = body.length + SKMSG_SIGNATURE_LEN := by
    rw [List.length_append, sig.length_bytes]
    rfl
  have hbody : 2 ≤ body.length := by
    have hpos := List.length_pos_iff.mpr (P.encode_ne_nil proto rfl)
    rw [List.length_cons]
    omega
  rw [hwire]
  unfold openWire
  rw [if_neg (by omega), if_neg (by exact fun h => h rfl)]
  dsimp only
  rw [hlen, Nat.add_sub_cancel, List.take_left, List.drop_left, U8Array.ofBytes?_bytes]
  dsimp only
  rw [hkey, if_pos (P.xeddsa.verify_sign _ _ _)]
  unfold openBody
  rw [List.tail_cons, P.proto.decode_encode]
  rfl

/-- Whether another key takes what a sender wrote is up to the signature of its body. -/
theorem signatureVerifies_encrypt (signingPub : U8Array 32) (state : SenderKeyState)
    (nonce : U8Array 64) (padded : Bytes) :
    ∃ body, signatureVerifies P signingPub (encryptSenderKeyMessage P state nonce padded).1 =
      P.xeddsa.verify signingPub body (P.xeddsa.sign state.signingKeypairPriv body nonce) := by
  rcases hkeys : deriveSenderMessageKeys P state.chainKey with ⟨iv, cipherKey⟩
  let body := WHISPER_VERSION :: P.proto.encode
    ⟨some state.keyId, some state.chainKey.index, some (P.cbc.encrypt cipherKey iv padded)⟩
  let sig := P.xeddsa.sign state.signingKeypairPriv body nonce
  have hwire : (encryptSenderKeyMessage P state nonce padded).1 = body ++ sig.bytes := by
    unfold encryptSenderKeyMessage
    rw [hkeys]
  have hlen : (body ++ sig.bytes).length = body.length + SKMSG_SIGNATURE_LEN := by
    rw [List.length_append, sig.length_bytes]
    rfl
  refine ⟨body, ?_⟩
  unfold signatureVerifies
  rw [hwire, hlen, Nat.add_sub_cancel, List.drop_left, U8Array.ofBytes?_bytes, List.take_left]

/-- A late iteration that is not in the cache. -/
theorem decryptAt_refused {recv : SenderKeyReceiverState} {iteration : UInt32} {ct : Bytes}
    (hlate : iteration < recv.chainKey.index)
    (hmiss : takeFirst (fun s => s.iteration == iteration) recv.skipped = none) :
    decryptAt P recv iteration ct =
      (.error (.malformed "iteration went backwards (no cached key)"), recv) := by
  unfold decryptAt
  rw [if_pos hlate, hmiss]

/-- A late iteration with its key in the cache. -/
theorem decryptAt_cached {recv : SenderKeyReceiverState} {iteration : UInt32} {ct plaintext : Bytes}
    {sk : SkippedSenderKey} {rest : List SkippedSenderKey}
    (hlate : iteration < recv.chainKey.index)
    (hhit : takeFirst (fun s => s.iteration == iteration) recv.skipped = some (sk, rest))
    (hopen : P.cbc.decrypt sk.cipherKey sk.iv ct = some plaintext) :
    decryptAt P recv iteration ct = (.ok plaintext, { recv with skipped := rest }) := by
  unfold decryptAt
  rw [if_pos hlate, hhit]
  dsimp only
  rw [hopen]

/-- An iteration ahead, within reach. -/
theorem decryptAt_walked {recv : SenderKeyReceiverState} {iteration : UInt32} {ct plaintext : Bytes}
    {kept : List SkippedSenderKey} {walking : ChainKey}
    (hahead : ¬ iteration < recv.chainKey.index)
    (hreach : iteration.toNat - recv.chainKey.index.toNat ≤ MAX_SKIPPED_SENDER_KEYS)
    (hwalk : walkTo P.hashing (skippedKey P) iteration recv.chainKey = (kept, walking))
    (hopen : P.cbc.decrypt (deriveSenderMessageKeys P walking).2
      (deriveSenderMessageKeys P walking).1 ct = some plaintext) :
    decryptAt P recv iteration ct =
      (.ok plaintext, { recv with
        chainKey := walking.next P.hashing
        skipped := (recv.skipped ++ kept).drop
          ((recv.skipped ++ kept).length - MAX_SKIPPED_SENDER_KEYS) }) := by
  unfold decryptAt
  rw [if_neg hahead, if_neg (Nat.not_lt.mpr hreach), hwalk]
  dsimp only
  rw [hopen]

/-! ## 3. The channel -/

/-- A message for the group, with the random bytes of its signature. -/
structure Outgoing where
  nonce : U8Array 64
  padded : Bytes

/-- The wires of one message after another. -/
def encryptAll (state : SenderKeyState) : List Outgoing → List Bytes
  | [] => []
  | m :: ms =>
      let (wire, state) := encryptSenderKeyMessage P state m.nonce m.padded
      wire :: encryptAll state ms

/-- The sender's state after `k` messages. -/
def stateAt (state : SenderKeyState) (k : Nat) : SenderKeyState :=
  { state with chainKey := chainAt P.hashing state.chainKey k }

theorem encryptAll_get {state : SenderKeyState} {ms : List Outgoing} {k : Nat} {m : Outgoing}
    (h : ms[k]? = some m) :
    (encryptAll P state ms)[k]? =
      some (encryptSenderKeyMessage P (stateAt P state k) m.nonce m.padded).1 := by
  induction ms generalizing state k with
  | nil => cases h
  | cons m' ms ih =>
      cases k with
      | zero =>
          cases h
          rfl
      | succ k =>
          have hrest : (encryptAll P (stateAt P state 1) ms)[k]? = _ := ih h
          have hstate : stateAt P (stateAt P state 1) k = stateAt P state (k + 1) :=
            congrArg (fun c => { state with chainKey := c })
              (chainAt_next P.hashing state.chainKey k)
          rw [hstate] at hrest
          exact hrest

/-- What arrives at a receiver: the `k`th message, or any other bytes. -/
inductive Delivery
  | genuine (k : Nat)
  | other (wire : Bytes)

namespace Delivery

def wire (wires : List Bytes) : Delivery → Bytes
  | genuine k => wires.getD k []
  | other wire => wire

def number : Delivery → Option Nat
  | genuine k => some k
  | other _ => none

/-- Only the sender can sign: bytes from elsewhere do not verify. -/
def Possible (signingPub : U8Array 32) (sent : Nat) : Delivery → Prop
  | genuine k => k < sent
  | other wire => signatureVerifies P signingPub wire = false

theorem number_lt {signingPub : U8Array 32} {sent : Nat} {ds : List Delivery}
    (h : ∀ d ∈ ds, d.Possible P signingPub sent) : ∀ k ∈ ds.filterMap number, k < sent := by
  intro k hk
  obtain ⟨d, hd, hnum⟩ := List.mem_filterMap.mp hk
  cases d with
  | genuine j =>
      cases hnum
      exact h _ hd
  | other wire => cases hnum

theorem mem_numbers {ds : List Delivery} {k : Nat} : k ∈ ds.filterMap number ↔ .genuine k ∈ ds := by
  rw [List.mem_filterMap]
  constructor
  · rintro ⟨d, hd, hnum⟩
    cases d with
    | genuine j =>
        cases hnum
        exact hd
    | other wire => cases hnum
  · intro hk
    exact ⟨_, hk, rfl⟩

end Delivery

def deliverAll (recv : SenderKeyReceiverState) (wires : List Bytes) : SenderKeyReceiverState :=
  wires.foldl (fun recv wire => (decryptSenderKeyMessage P recv wire).2) recv

/-- **The invariant of a receiver**, against the numbers it has left to accept. -/
structure InStep (state : SenderKeyState) (w : SkipWindow) (recv : SenderKeyReceiverState) :
    Prop where
  signing : recv.signingPub = state.signingKeypairPub
  follows : Follows P.hashing (skippedKey P) state.chainKey w recv.chainKey recv.skipped

theorem inStep_install (state : SenderKeyState) :
    InStep P state .start (installDistribution state.distribution) := ⟨rfl, .start⟩

section InStep

variable {P} {state : SenderKeyState} {w : SkipWindow} {recv : SenderKeyReceiverState} {n k : Nat}

/-- The ciphertext of the sender's `k`th message. -/
def ciphertextAt (P : SenderKeyPrimitives) (state : SenderKeyState) (k : Nat) (padded : Bytes) :
    Bytes :=
  let (iv, cipherKey) := deriveSenderMessageKeys P (chainAt P.hashing state.chainKey k)
  P.cbc.encrypt cipherKey iv padded

/-- The number `j` of the chain has an index. -/
def Room (state : SenderKeyState) (j : Nat) : Prop := state.chainKey.index.toNat + j < 2 ^ 32

/-- A chain of `n` more messages fits into the index, and into the cache. -/
def Fits (state : SenderKeyState) (n : Nat) : Prop :=
  n ≤ MAX_SKIPPED_SENDER_KEYS ∧ state.chainKey.index.toNat + n < 2 ^ 32

theorem Fits.room (hfits : Fits state n) {j : Nat} (hj : j ≤ n) : Room state j :=
  Nat.lt_of_le_of_lt (Nat.add_le_add_left hj _) hfits.2

/-- A receiver that is installed further on, from the same chain. -/
theorem inStep_installAt (state : SenderKeyState) (j : Nat) :
    InStep P state (.startAt j) (installDistribution (stateAt P state j).distribution) :=
  ⟨rfl, rfl, rfl⟩

/-- A message that was opened before. -/
theorem InStep.seen (h : InStep P state w recv) (hw : Room state w.next) (hk : Room state k)
    (hseen : w.Seen k) (ct : Bytes) :
    ∃ e, decryptAt P recv (chainAt P.hashing state.chainKey k).index ct = (.error e, recv) := by
  have hlate := h.follows.late_iff hw hk
  have hmiss := h.follows.lookup hw hk (f := SkippedSenderKey.iteration) fun _ => rfl
  rw [if_neg hseen.2] at hmiss
  exact ⟨_, decryptAt_refused P (hlate.mpr hseen.1) hmiss⟩

/-- A message that is late. -/
theorem InStep.missing (h : InStep P state w recv) (hw : Room state w.next) (hk : Room state k)
    (hmiss : k ∈ w.missing) (padded : Bytes) :
    ∃ recv', decryptAt P recv (chainAt P.hashing state.chainKey k).index
      (ciphertextAt P state k padded) = (.ok padded, recv') ∧ InStep P state (w.late k) recv' := by
  have hlate := h.follows.late_iff hw hk
  have hhit := h.follows.lookup hw hk (f := SkippedSenderKey.iteration) fun _ => rfl
  rw [if_pos hmiss] at hhit
  exact ⟨_, decryptAt_cached P (hlate.mpr (w.below k hmiss)) hhit (P.cbc.decrypt_encrypt _ _ _),
    h.signing, h.follows.late k⟩

/-- A message from here on, within reach. -/
theorem InStep.ahead (h : InStep P state w recv) (hk : Room state k) (hle : w.next ≤ k)
    (hreach : k - w.next ≤ MAX_SKIPPED_SENDER_KEYS) (padded : Bytes) :
    ∃ recv', decryptAt P recv (chainAt P.hashing state.chainKey k).index
      (ciphertextAt P state k padded) = (.ok padded, recv') ∧
        InStep P state ((w.forward k hle).capped MAX_SKIPPED_SENDER_KEYS) recv' := by
  have hnext : Room state w.next := Nat.lt_of_le_of_lt (Nat.add_le_add_left hle _) hk
  have hjump : (chainAt P.hashing state.chainKey k).index.toNat - recv.chainKey.index.toNat ≤
      MAX_SKIPPED_SENDER_KEYS := by
    rw [h.follows.chain_eq, index_chainAt P.hashing hk, index_chainAt P.hashing hnext]
    omega
  have hahead := mt (h.follows.late_iff hnext hk).mp (Nat.not_lt.mpr hle)
  obtain ⟨kept, hwalk, -, hfollows⟩ := h.follows.forward hk hle
  have hcapped := hfollows.capped MAX_SKIPPED_SENDER_KEYS
  refine ⟨_, decryptAt_walked P hahead hjump hwalk (P.cbc.decrypt_encrypt _ _ _), h.signing, ?_⟩
  dsimp only
  exact hcapped

/-- A message that is too far ahead. -/
theorem InStep.beyond (h : InStep P state w recv) (hk : Room state k)
    (hfar : MAX_SKIPPED_SENDER_KEYS < k - w.next) (ct : Bytes) :
    ∃ e, decryptAt P recv (chainAt P.hashing state.chainKey k).index ct = (.error e, recv) := by
  have hle : w.next ≤ k := by omega
  have hnext : Room state w.next := Nat.lt_of_le_of_lt (Nat.add_le_add_left hle _) hk
  have hahead := mt (h.follows.late_iff hnext hk).mp (Nat.not_lt.mpr hle)
  have hjump : (chainAt P.hashing state.chainKey k).index.toNat - recv.chainKey.index.toNat >
      MAX_SKIPPED_SENDER_KEYS := by
    rw [h.follows.chain_eq, index_chainAt P.hashing hk, index_chainAt P.hashing hnext]
    omega
  unfold decryptAt
  rw [if_neg hahead, if_pos hjump]
  exact ⟨_, rfl⟩

/-- What a receiver in step makes of the wire of the `k`th message. -/
theorem InStep.decrypt_wire (h : InStep P state w recv)
    (hkey : state.signingKeypairPub = P.xeddsa.pub state.signingKeypairPriv) (k : Nat)
    (m : Outgoing) :
    decryptSenderKeyMessage P recv
        (encryptSenderKeyMessage P (stateAt P state k) m.nonce m.padded).1 =
      decryptAt P recv (chainAt P.hashing state.chainKey k).index
        (ciphertextAt P state k m.padded) := by
  have hopen : openWire P (stateAt P state k).signingKeypairPub
      (encryptSenderKeyMessage P (stateAt P state k) m.nonce m.padded).1 = _ :=
    openWire_encrypt P hkey
  unfold decryptSenderKeyMessage
  rw [h.signing]
  rw [show openWire P state.signingKeypairPub _ = _ from hopen]
  rfl

/-- **A message within reach opens**, and the receiver stays in step. -/
theorem InStep.decrypt_reach (h : InStep P state w recv) (hw : Room state w.next)
    (hk : Room state k) (hkey : state.signingKeypairPub = P.xeddsa.pub state.signingKeypairPriv)
    (hreach : w.Reach MAX_SKIPPED_SENDER_KEYS k) (m : Outgoing) :
    ∃ recv', decryptSenderKeyMessage P recv
        (encryptSenderKeyMessage P (stateAt P state k) m.nonce m.padded).1 =
          (.ok m.padded, recv') ∧
      InStep P state (w.advance MAX_SKIPPED_SENDER_KEYS k) recv' := by
  rw [h.decrypt_wire hkey]
  unfold SkipWindow.advance
  rcases hreach with hmiss | ⟨hle, hnear⟩
  · rw [dif_neg (Nat.not_le.mpr (w.below k hmiss))]
    exact h.missing hw hk hmiss m.padded
  · rw [dif_pos hle]
    exact h.ahead hk hle hnear m.padded

/-- **A message out of reach is refused**, and nothing changes. -/
theorem InStep.decrypt_beyond (h : InStep P state w recv) (hw : Room state w.next)
    (hk : Room state k) (hkey : state.signingKeypairPub = P.xeddsa.pub state.signingKeypairPriv)
    (hreach : ¬w.Reach MAX_SKIPPED_SENDER_KEYS k) (m : Outgoing) :
    ∃ e, decryptSenderKeyMessage P recv
      (encryptSenderKeyMessage P (stateAt P state k) m.nonce m.padded).1 = (.error e, recv) := by
  rw [h.decrypt_wire hkey]
  by_cases hle : w.next ≤ k
  · exact h.beyond hk (Nat.not_le.mp fun hnear => hreach (Or.inr ⟨hle, hnear⟩)) _
  · exact h.seen hw hk ⟨Nat.not_le.mp hle, fun hmiss => hreach (Or.inl hmiss)⟩ _

/-- **One delivery of the sender's `k`th message**: it opens if it is new, it is refused if not,
    and the receiver stays in step. -/
theorem InStep.decrypt (h : InStep P state w recv) (hfits : Fits state n) (hw : w.next ≤ n)
    (hk : k < n) (hkey : state.signingKeypairPub = P.xeddsa.pub state.signingKeypairPriv)
    (m : Outgoing) :
    let wire := (encryptSenderKeyMessage P (stateAt P state k) m.nonce m.padded).1
    (w.Seen k → ∃ e, (decryptSenderKeyMessage P recv wire).1 = .error e) ∧
      (¬ w.Seen k → (decryptSenderKeyMessage P recv wire).1 = .ok m.padded) ∧
      InStep P state (w.arrive k) (decryptSenderKeyMessage P recv wire).2 := by
  intro wire
  have hnext : Room state w.next := hfits.room hw
  have hroom : Room state k := hfits.room (Nat.le_of_lt hk)
  rw [h.decrypt_wire hkey]
  unfold SkipWindow.arrive
  by_cases hseen : w.Seen k
  · obtain ⟨e, he⟩ := h.seen hnext hroom hseen (ciphertextAt P state k m.padded)
    rw [he, SkipWindow.take_eq_none.mpr hseen]
    exact ⟨fun _ => ⟨e, rfl⟩, fun hs => absurd hseen hs, h⟩
  · by_cases hle : w.next ≤ k
    · have hcap := hfits.1
      obtain ⟨recv', hres, hstep⟩ := h.ahead hroom hle (by omega) m.padded
      -- The window bounds what is missing, so the cap removes nothing.
      have hmissing := (w.forward k hle).length_missing
      have hforward : (w.forward k hle).next = k + 1 := rfl
      rw [SkipWindow.capped_of_length_le (by omega)] at hstep
      rw [hres, SkipWindow.take_forward hle]
      exact ⟨fun hs => absurd hs hseen, fun _ => rfl, hstep⟩
    · have hmiss : k ∈ w.missing := by
        by_contra hmiss
        exact hseen ⟨Nat.not_le.mp hle, hmiss⟩
      obtain ⟨recv', hres, hstep⟩ := h.missing hnext hroom hmiss m.padded
      rw [hres, SkipWindow.take_late hmiss]
      exact ⟨fun hs => absurd hs hseen, fun _ => rfl, hstep⟩

end InStep

section Run

variable {P} {state : SenderKeyState} {ms : List Outgoing}

/-- One delivery keeps the receiver in step. -/
theorem inStep_deliver (hkey : state.signingKeypairPub = P.xeddsa.pub state.signingKeypairPriv)
    (hfits : Fits state ms.length) {w : SkipWindow} {recv : SenderKeyReceiverState}
    (h : InStep P state w recv) (hw : w.next ≤ ms.length) {d : Delivery}
    (hd : d.Possible P state.signingKeypairPub ms.length) :
    InStep P state (w.arriveAll d.number.toList)
      (decryptSenderKeyMessage P recv (d.wire (encryptAll P state ms))).2 := by
  cases d with
  | genuine k =>
      have hm := List.getElem?_eq_getElem (l := ms) hd
      have hwire : Delivery.wire (encryptAll P state ms) (.genuine k) =
          (encryptSenderKeyMessage P (stateAt P state k) ms[k].nonce ms[k].padded).1 := by
        show (encryptAll P state ms).getD k [] = _
        rw [List.getD_eq_getElem?_getD, encryptAll_get P hm, Option.getD_some]
      rw [hwire]
      exact (h.decrypt hfits hw hd hkey ms[k]).2.2
  | other wire =>
      have hverify : signatureVerifies P recv.signingPub wire = false := h.signing ▸ hd
      obtain ⟨e, he⟩ := unverified_unchanged P hverify
      show InStep P state w (decryptSenderKeyMessage P recv wire).2
      rw [he]
      exact h

/-- **Any run of deliveries keeps the receiver in step**, whatever arrives how often and when. -/
theorem inStep_deliverAll (hkey : state.signingKeypairPub = P.xeddsa.pub state.signingKeypairPriv)
    (hfits : Fits state ms.length) {w : SkipWindow} {recv : SenderKeyReceiverState}
    (h : InStep P state w recv) (hw : w.next ≤ ms.length) {past : List Delivery}
    (hpast : ∀ d ∈ past, d.Possible P state.signingKeypairPub ms.length) :
    InStep P state (w.arriveAll (past.filterMap Delivery.number))
      (deliverAll P recv (past.map (Delivery.wire (encryptAll P state ms)))) := by
  induction past generalizing w recv with
  | nil => exact h
  | cons d past ih =>
      have hd := hpast d List.mem_cons_self
      have hstep := inStep_deliver hkey hfits h hw hd
      have hnext : (w.arriveAll d.number.toList).next ≤ ms.length := by
        cases d with
        | genuine k => exact SkipWindow.next_arrive hw hd
        | other wire => exact hw
      have hrest := ih hstep hnext fun e he => hpast e (List.mem_cons_of_mem _ he)
      cases d with
      | genuine k => exact hrest
      | other wire => exact hrest

/-- **The group channel.** A receiver is installed from the sender's distribution, and the sender
    then encrypts at most 2000 messages within the range of the index. After any past deliveries
    (in any order, with losses and repetitions, and with bytes that do not verify in between), a
    message that was never delivered opens to its plaintext, and one that was is refused. No
    receiver is ever changed by a wire whose signature does not verify. -/
theorem group_channel (hkey : state.signingKeypairPub = P.xeddsa.pub state.signingKeypairPriv)
    (hcap : ms.length ≤ 2000) (hroom : state.chainKey.index.toNat + ms.length < 2 ^ 32)
    {past : List Delivery}
    (hpast : ∀ d ∈ past, d.Possible P state.signingKeypairPub ms.length) :
    let recv := deliverAll P (installDistribution state.distribution)
      (past.map (Delivery.wire (encryptAll P state ms)))
    (∀ k m, ms[k]? = some m → ∃ wire, (encryptAll P state ms)[k]? = some wire ∧
      (.genuine k ∉ past → (decryptSenderKeyMessage P recv wire).1 = .ok m.padded) ∧
      (.genuine k ∈ past → ∃ e, (decryptSenderKeyMessage P recv wire).1 = .error e)) ∧
    ∀ (recv : SenderKeyReceiverState) (wire : Bytes),
      signatureVerifies P recv.signingPub wire = false →
      ∃ e, decryptSenderKeyMessage P recv wire = (.error e, recv) := by
  have hfits : Fits state ms.length := ⟨hcap, hroom⟩
  intro recv
  have hstep : InStep P state (SkipWindow.start.arriveAll (past.filterMap Delivery.number)) recv :=
    inStep_deliverAll hkey hfits (inStep_install P state) (Nat.zero_le _) hpast
  have hnext : (SkipWindow.start.arriveAll (past.filterMap Delivery.number)).next ≤ ms.length :=
    SkipWindow.next_arriveAll (Nat.zero_le _) (Delivery.number_lt P hpast)
  have hseen : ∀ k, (SkipWindow.start.arriveAll (past.filterMap Delivery.number)).Seen k ↔
      .genuine k ∈ past := by
    intro k
    rw [SkipWindow.seen_arriveAll, Delivery.mem_numbers]
    exact ⟨fun h => h.resolve_right fun hs => Nat.not_lt_zero k hs.1, Or.inl⟩
  refine ⟨fun k m hm => ?_, fun recv wire hwire => unverified_unchanged P hwire⟩
  obtain ⟨hk, rfl⟩ := List.getElem?_eq_some_iff.mp hm
  obtain ⟨hold, hnew, -⟩ := hstep.decrypt hfits hnext hk hkey ms[k]
  exact ⟨_, encryptAll_get P hm, fun h => hnew (mt (hseen k).mp h), fun h => hold ((hseen k).mpr h)⟩

end Run

end

/-! ### Two messages with their real bytes -/

namespace Known

def chain₀ : U8Array 32 := .replicate 32 0x42
def chain₁ : U8Array 32 :=
  .ofNat 32 0x4fa923f5d122080142716bf80fec4930203815c6b10199d1a871e09fe0a3c720
def chain₂ : U8Array 32 :=
  .ofNat 32 0x2a3cb3d4b16ae741ebf686c9da9762dc9f72bd2f97587addf43839fe38dcba14

/-- What seeds the message keys, and the two message keys with their IVs. -/
def seed₀ : U8Array 32 :=
  .ofNat 32 0x0b175bca3524cc7301c33946d7e00d3f008cb14632b72855b3442a7365403893
def seed₁ : U8Array 32 :=
  .ofNat 32 0xc051e03b94599985b4a66fc9c1b70200b768c9013338c634a0696523915c97c4
def iv₀ : U8Array 16 := .ofNat 16 0x890d51ea73e564722351dc0d5a09142c
def iv₁ : U8Array 16 := .ofNat 16 0x6556f0a882c7136454d0c1290623a94b
def key₀ : U8Array 32 :=
  .ofNat 32 0xa829d7921b036f46258a142c384615e7272432a9fceb935cdd16d16ebc75b715
def key₁ : U8Array 32 :=
  .ofNat 32 0x2b7ecacd993f21eb5a7a3b8050d6ccd076b186cebbfe339eecf468ee31b7e7a2

def signingPriv : U8Array 32 :=
  .ofNat 32 0x0800000000000000000000000000000000000000000000000000000000000040
def signingPub : U8Array 32 :=
  .ofNat 32 0x422c8e7a6227d7bca1350b3e2bb7279f7897b87bb6854b783c60e80311ae3079

/-- The key of a sender that has rotated: its chain, the first message key and what signs. -/
def rotatedChain : U8Array 32 := .replicate 32 0x24
def rotatedNext : U8Array 32 :=
  .ofNat 32 0x8bc36a654bea697db26ee0175842d614e573234d6a4b2972662db9058f11ec11
def rotatedSeed : U8Array 32 :=
  .ofNat 32 0x49c3cc24182f337b2587a1afd307fb087a1aa8cc1fc507f39e5a757a2b9a18cb
def rotatedIv : U8Array 16 := .ofNat 16 0x570f47b7a7378812b6aa49479710535c
def rotatedKey : U8Array 32 :=
  .ofNat 32 0x900155efc5f12df55d7b55f4e6aa98bc821aafb74a57278c045b22328e215a5a
def rotatedPriv : U8Array 32 :=
  .ofNat 32 0x1000000000000000000000000000000000000000000000000000000000000040
def rotatedPub : U8Array 32 :=
  .ofNat 32 0x8d20f8c7bbfb9af3da4ef532ed44efc68ce642bc5d0c5cb1d7b91b96c74edf02

def info : Bytes := utf8 "WhisperGroup"
def zero : Bytes := utf8 "zero"
def one : Bytes := utf8 "one"
def two : Bytes := utf8 "two"
def zeroCt : Bytes := toBE 16 0x32a48709f44f78ce28c91d7e5b0c7960
def oneCt : Bytes := toBE 16 0xa091f22f69e445d755afaeae4549674d
def twoCt : Bytes := toBE 16 0x1ae4a18afdf1c6f8aeff46fd63f64321

def hashing : Hashing :=
  .ofTable []
    [((chain₀.bytes, [1]), seed₀), ((chain₀.bytes, [2]), chain₁),
      ((chain₁.bytes, [1]), seed₁), ((chain₁.bytes, [2]), chain₂),
      ((rotatedChain.bytes, [1]), rotatedSeed), ((rotatedChain.bytes, [2]), rotatedNext)]
    [((List.replicate 32 0, seed₀.bytes, info, 48), iv₀.bytes ++ key₀.bytes),
      ((List.replicate 32 0, seed₁.bytes, info, 48), iv₁.bytes ++ key₁.bytes),
      ((List.replicate 32 0, rotatedSeed.bytes, info, 48), rotatedIv.bytes ++ rotatedKey.bytes)]

/-- The messages from iteration 0 on, those from the last iteration on, and the first one of the
    rotated key; the nonces are zero. -/
def signatures : List ((U8Array 32 × Bytes) × U8Array 64) :=
  [((signingPub, [0x33, 8, 7, 0x10, 0, 0x1a, 16] ++ zeroCt), .ofNat 64
      0x3da5e2463e07145928ad597ff8bba8565bec4180dca2921b2f7c9c74922d0e69a02fc65d8e7e5c261dc48f2015db80b00fd4c397f16be1e175a426d0537a7309),
    ((signingPub, [0x33, 8, 7, 0x10, 1, 0x1a, 16] ++ oneCt), .ofNat 64
      0x1e86fdc20e1cc197978b4d560087d203b18ddcba24879e6950c39e94768aa5778f26a13ef1bc50ea5db6969582174c65d55a7e42595350fab268360091fba509),
    ((signingPub, [0x33, 8, 7, 0x10, 0xff, 0xff, 0xff, 0xff, 0xf, 0x1a, 16] ++ zeroCt), .ofNat 64
      0x4dbd277a060549bd6da3c26ad9889c6865c5382a580b3de5367f441b39b5ddb59d1366ee64ab4f5734059f3084a3887ccd6680db127a1af6dee549da5ed7e00d),
    ((signingPub, [0x33, 8, 7, 0x10, 0, 0x1a, 16] ++ oneCt), .ofNat 64
      0xb874a7acb824261e08c048a16dfe0d2703e4e49c88e58f95790df8f00ae7799ba609eb06c39c8d380ddfc16c1a2f953f21884c9daa06bdabc1b2ef2b5e3e4500),
    ((rotatedPub, [0x33, 8, 9, 0x10, 0, 0x1a, 16] ++ twoCt), .ofNat 64
      0xe49b9c93692cf232a107234e6cbf324bd98d81564cc80df7e62f244d8c470758e629b78782f3f97c87e800cede9789e2e6c4bd82b6dc83c7b6dea72d29d1d106)]

def signers : List (U8Array 32 × U8Array 32) :=
  [(signingPriv, signingPub), (rotatedPriv, rotatedPub)]

def primitives : SenderKeyPrimitives where
  hashing := hashing
  cbc := .ofTable [⟨(key₀, iv₀), zero, zeroCt⟩, ⟨(key₁, iv₁), one, oneCt⟩,
    ⟨(rotatedKey, rotatedIv), two, twoCt⟩]
  xeddsa := .ofTable signers signatures
  proto := SenderKeyMessageProto.codec
  encode_ne_nil := SenderKeyMessageProto.encode_ne_nil

/-- A sender with this iteration ahead. -/
def sender (iteration : UInt32) : SenderKeyState := ⟨7, ⟨chain₀, iteration⟩, signingPriv, signingPub⟩

/-- The sender after it has rotated. -/
def rotated : SenderKeyState := ⟨9, ⟨rotatedChain, 0⟩, rotatedPriv, rotatedPub⟩

def messages : List Outgoing := [⟨.replicate 64 0, zero⟩, ⟨.replicate 64 0, one⟩]

end Known

open Known

/-- The second message arrives first, then some other bytes; then the first message opens, and the
    second does not open again. -/
theorem group_channel_two :
    let recv := deliverAll primitives (installDistribution (sender 0).distribution)
      ([.genuine 1, .other [1, 2, 3]].map (Delivery.wire (encryptAll primitives (sender 0) messages)))
    ∃ first second, encryptAll primitives (sender 0) messages = [first, second] ∧
      (decryptSenderKeyMessage primitives recv first).1 = .ok zero ∧
      ∃ e, (decryptSenderKeyMessage primitives recv second).1 = .error e := by
  have hpast : ∀ d ∈ [Delivery.genuine 1, Delivery.other [1, 2, 3]],
      d.Possible primitives (sender 0).signingKeypairPub messages.length := by
    refine List.forall_mem_cons.mpr ⟨Nat.lt_succ_self 1, List.forall_mem_singleton.mpr ?_⟩
    show signatureVerifies primitives signingPub [1, 2, 3] = false
    decide +kernel
  have hkey : (sender 0).signingKeypairPub =
      primitives.xeddsa.pub (sender 0).signingKeypairPriv := by decide +kernel
  have hroom : (sender 0).chainKey.index.toNat + messages.length < 2 ^ 32 := by decide
  obtain ⟨hopen, -⟩ := group_channel hkey (by decide) hroom hpast
  obtain ⟨first, hfirst, hnew, -⟩ := hopen 0 _ rfl
  obtain ⟨second, hsecond, -, hold⟩ := hopen 1 _ rfl
  refine ⟨first, second, ?_, hnew (by simp), hold List.mem_cons_self⟩
  cases hfirst
  cases hsecond
  rfl

/-- **A late message that is lost.** The sender's next iteration is the last one of the range. Of
    two messages the second, with iteration 0, arrives first, and the receiver refuses it. -/
theorem late_message_lost :
    (encryptAll primitives (sender 0xFFFFFFFF) messages).map (fun wire =>
      (decryptSenderKeyMessage primitives
        (installDistribution (sender 0xFFFFFFFF).distribution) wire).1) =
    [.ok zero, .error (.malformed "iteration went backwards (no cached key)")] := by
  decide +kernel

end Ruwa.Crypto.SenderKey
