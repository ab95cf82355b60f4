/-
  File:      Ruwa/Crypto/SignalChain.lean
  Subject:   ONE MESSAGE, ONE CHAIN: what `decrypt` makes of what `encrypt` wrote.

  * `parseWire_sealMessage`, `parsePreKeyMessage_encryptPreKey` -- the wire carries the ratchet key
    and the counter, and opens under the keys it was sealed with;
  * `ChainInStep` -- a receiver chain against the numbers it has left to accept;
  * `ChainInStep.seen`, `.missing`, `.ahead` -- the three things that can happen to a message on
    such a chain.
-/
import Ruwa.Crypto.Signal
import Mathlib.Data.List.Forall2

namespace Ruwa.Crypto.Signal

open Ruwa.Library
open Ruwa.Library.Text
open Ruwa.Crypto

variable (P : SignalPrimitives)

/-! ## 1. The wire -/

theorem unwrapDjbPub_djb (pub : U8Array 32) (field : String) :
    unwrapDjbPub (djb pub) field = .ok pub := by
  have hlen : (djb pub).length = 33 := by
    unfold djb
    rw [List.length_cons, pub.length_bytes]
  have htail : (djb pub).tail = pub.bytes := rfl
  unfold unwrapDjbPub
  rw [if_pos ⟨hlen, rfl⟩, htail, U8Array.ofBytes?_bytes]

section Seal

variable (localId remoteId ratchetPub : U8Array 32) (previousCounter : UInt32) (mks : MessageKeys)
  (plaintext : Bytes)

/-- The fields of a sealed message. -/
def sealedProto : SignalMessageProto :=
  ⟨some (djb ratchetPub), some mks.counter, some previousCounter,
    some (P.cbc.encrypt mks.cipherKey mks.iv plaintext)⟩

/-- A sealed message without its MAC. -/
def sealedBody : Bytes :=
  WHISPER_VERSION :: P.whisper.encode (sealedProto P ratchetPub previousCounter mks plaintext)

/-- A sealed message as the receiver reads it. -/
def sealedMessage : WhisperMessage :=
  let body := sealedBody P ratchetPub previousCounter mks plaintext
  ⟨body, (computeMessageMac P mks.macKey localId remoteId body).bytes.take MAC_TRUNCATION_BYTES,
    ratchetPub, mks.counter, P.cbc.encrypt mks.cipherKey mks.iv plaintext⟩

/-- How the receiver cuts the wire up: the body, and the MAC behind it. -/
theorem cut_sealMessage :
    let m := sealedMessage P localId remoteId ratchetPub previousCounter mks plaintext
    let wire := sealMessage P localId remoteId ratchetPub previousCounter mks plaintext
    1 + MAC_TRUNCATION_BYTES + 1 ≤ wire.length ∧ wire.head? = some WHISPER_VERSION ∧
      wire.take (wire.length - MAC_TRUNCATION_BYTES) = m.body ∧
      wire.drop (wire.length - MAC_TRUNCATION_BYTES) = m.mac := by
  intro m wire
  have hwire : wire = m.body ++ m.mac := rfl
  have hmac : m.mac.length = MAC_TRUNCATION_BYTES := by
    show (List.take MAC_TRUNCATION_BYTES _).length = _
    rw [List.length_take, U8Array.length_bytes]
    rfl
  have hlen : wire.length = m.body.length + MAC_TRUNCATION_BYTES := by
    rw [hwire, List.length_append, hmac]
  have hbody : 2 ≤ m.body.length := by
    have hpos := List.length_pos_iff.mpr
      (P.encode_ne_nil (sealedProto P ratchetPub previousCounter mks plaintext) rfl)
    show 2 ≤ (WHISPER_VERSION :: P.whisper.encode _).length
    rw [List.length_cons]
    omega
  refine ⟨by omega, rfl, ?_, ?_⟩
  · rw [hlen, Nat.add_sub_cancel, hwire, List.take_left]
  · rw [hlen, Nat.add_sub_cancel, hwire, List.drop_left]

theorem decode_sealedBody :
    P.whisper.decode (sealedBody P ratchetPub previousCounter mks plaintext).tail =
      some (sealedProto P ratchetPub previousCounter mks plaintext) :=
  P.whisper.decode_encode _

/-- **What was sealed is what the receiver reads.** -/
theorem parseWire_sealMessage :
    parseWire P (sealMessage P localId remoteId ratchetPub previousCounter mks plaintext) =
      .ok (sealedMessage P localId remoteId ratchetPub previousCounter mks plaintext) := by
  obtain ⟨hlen, hhead, hbody, hmac⟩ :=
    cut_sealMessage P localId remoteId ratchetPub previousCounter mks plaintext
  unfold parseWire
  rw [if_neg (Nat.not_lt.mpr hlen), if_neg (fun h => h hhead)]
  dsimp only
  rw [hbody, hmac]
  have hdecode := decode_sealedBody P ratchetPub previousCounter mks plaintext
  unfold sealedMessage
  dsimp only
  rw [hdecode]
  unfold sealedProto
  dsimp only
  rw [unwrapDjbPub_djb]
  rfl

/-- So does the check of an envelope, which only wants the ratchet key. -/
theorem innerRatchetPub_sealMessage :
    innerRatchetPub P (sealMessage P localId remoteId ratchetPub previousCounter mks plaintext) =
      .ok ratchetPub := by
  obtain ⟨hlen, hhead, hbody, -⟩ :=
    cut_sealMessage P localId remoteId ratchetPub previousCounter mks plaintext
  unfold innerRatchetPub
  rw [if_neg (Nat.not_lt.mpr hlen), if_neg (fun h => h hhead)]
  dsimp only
  rw [hbody]
  have hdecode := decode_sealedBody P ratchetPub previousCounter mks plaintext
  unfold sealedMessage
  dsimp only
  rw [hdecode]
  exact unwrapDjbPub_djb ratchetPub _

/-- The peer opens it with the same keys. -/
theorem openWith_sealedMessage :
    openWith P remoteId localId mks
      (sealedMessage P localId remoteId ratchetPub previousCounter mks plaintext) =
      .ok plaintext := by
  unfold openWith sealedMessage
  dsimp only
  rw [if_neg (fun h => h rfl), P.cbc.decrypt_encrypt]

end Seal

/-- A session that can send seals its message and moves its sender chain on. -/
theorem encrypt_of_chain {state : SessionState} {chain : ChainKey} {ratchetPub : U8Array 32}
    (hchain : state.senderChain = some chain) (hpub : state.senderRatchetPub = some ratchetPub)
    (fresh : U8Array 32) (plaintext : Bytes) :
    encrypt P state fresh plaintext =
      (.ok ⟨sealMessage P state.localIdentityPub state.remoteIdentityPub ratchetPub
        state.previousCounter (deriveMessageKeys P chain) plaintext, .whisper⟩,
        { state with senderChain := some (chain.next P.hashing) }) := by
  unfold encrypt
  rw [hchain, if_neg (by exact Bool.false_ne_true)]
  dsimp only
  rw [hchain, hpub]

/-- **The envelope of a first message opens to what went in**: the ids, the keys, and a message
    inside that the peer's session can decrypt. -/
theorem parsePreKeyMessage_encryptPreKey {state : SessionState} {chain : ChainKey}
    {ratchetPub : U8Array 32} (hchain : state.senderChain = some chain)
    (hpub : state.senderRatchetPub = some ratchetPub) (fresh : U8Array 32) (plaintext : Bytes)
    (registrationId : UInt32) (baseKeyPub identityKeyPub : U8Array 32) (signedPreKeyId : UInt32)
    (oneTimePreKeyId : Option UInt32) :
    ∃ wire inner, encryptPreKey P state fresh plaintext registrationId baseKeyPub identityKeyPub
        signedPreKeyId oneTimePreKeyId = (.ok ⟨wire, .preKey⟩, (encrypt P state fresh plaintext).2) ∧
      (encrypt P state fresh plaintext).1 = .ok ⟨inner, .whisper⟩ ∧
      parsePreKeyMessage P wire = .ok ⟨registrationId, oneTimePreKeyId, signedPreKeyId, baseKeyPub,
        identityKeyPub, ratchetPub, inner⟩ := by
  have henc := encrypt_of_chain P hchain hpub fresh plaintext
  let inner := sealMessage P state.localIdentityPub state.remoteIdentityPub ratchetPub
    state.previousCounter (deriveMessageKeys P chain) plaintext
  let pkm : PreKeySignalMessageProto :=
    ⟨some registrationId, oneTimePreKeyId, some signedPreKeyId, some (djb baseKeyPub),
      some (djb identityKeyPub), some inner⟩
  refine ⟨WHISPER_VERSION :: P.preKey.encode pkm, inner, ?_, ?_, ?_⟩
  · unfold encryptPreKey
    rw [henc]
  · rw [henc]
  · have hdecode : P.preKey.decode (WHISPER_VERSION :: P.preKey.encode pkm).tail = some pkm :=
      P.preKey.decode_encode pkm
    unfold parsePreKeyMessage
    rw [if_neg (by exact Bool.false_ne_true), if_neg (by exact fun h => h rfl)]
    dsimp only
    rw [hdecode]
    show (do
      let baseKeyPub ← unwrapDjbPub (djb baseKeyPub) "PreKey base_key wrong length"
      let identityKeyPub ← unwrapDjbPub (djb identityKeyPub) "PreKey identity_key wrong length"
      let ratchetPub ← innerRatchetPub P inner
      return PreKeyMessageInfo.mk registrationId oneTimePreKeyId signedPreKeyId baseKeyPub
        identityKeyPub ratchetPub inner) = _
    rw [unwrapDjbPub_djb, unwrapDjbPub_djb, innerRatchetPub_sealMessage]
    rfl

/-! ## 2. One message on one chain -/

/-- The keys of the `k`th message of the chain that starts with this key. -/
def keysAt (chainKey : U8Array 32) (k : Nat) : MessageKeys :=
  deriveMessageKeys P (chainAt P.hashing ⟨chainKey, 0⟩ k)

/-- **A receiver chain, against the numbers it has left to accept.** -/
structure ChainInStep (chainKey : U8Array 32) (w : SkipWindow) (rc : ReceiverChain) : Prop where
  follows : Follows P.hashing (deriveMessageKeys P) ⟨chainKey, 0⟩ w rc.chainKey rc.skippedKeys
  fits : w.next < 2 ^ 32

theorem chainInStep_start (chainKey ratchetPub : U8Array 32) :
    ChainInStep P chainKey .start ⟨ratchetPub, ⟨chainKey, 0⟩, []⟩ := ⟨.start, by decide⟩

section Chain

variable {P} {chainKey : U8Array 32} {w : SkipWindow} {rc : ReceiverChain} {m : WhisperMessage}

theorem index_key {k : Nat} (hk : k < 2 ^ 32) :
    (chainAt P.hashing ⟨chainKey, 0⟩ k).index.toNat = k := by
  have hindex := index_chainAt P.hashing (c := ⟨chainKey, 0⟩) (n := k) (by simpa using hk)
  simpa using hindex

/-- A counter is the index of the chain key with that number. -/
theorem counter_eq_index (counter : UInt32) :
    counter = (chainAt P.hashing ⟨chainKey, 0⟩ counter.toNat).index :=
  UInt32.toNat_inj.mp (index_key counter.toNat_lt).symm

theorem ChainInStep.room (h : ChainInStep P chainKey w rc) :
    (⟨chainKey, 0⟩ : ChainKey).index.toNat + w.next < 2 ^ 32 := by
  show 0 + w.next < 2 ^ 32
  rw [Nat.zero_add]
  exact h.fits

theorem room_counter (counter : UInt32) :
    (⟨chainKey, 0⟩ : ChainKey).index.toNat + counter.toNat < 2 ^ 32 := by
  show 0 + counter.toNat < 2 ^ 32
  rw [Nat.zero_add]
  exact counter.toNat_lt

theorem ChainInStep.late_iff (h : ChainInStep P chainKey w rc) (counter : UInt32) :
    counter < rc.chainKey.index ↔ counter.toNat < w.next := by
  have hiff := h.follows.late_iff h.room (room_counter counter)
  rwa [← counter_eq_index counter] at hiff

theorem ChainInStep.index (h : ChainInStep P chainKey w rc) : rc.chainKey.index.toNat = w.next := by
  rw [h.follows.chain_eq, index_key h.fits]

theorem ChainInStep.cached (h : ChainInStep P chainKey w rc) :
    rc.skippedKeys.length = w.missing.length := by
  rw [h.follows.cache_eq, List.length_map]

theorem ChainInStep.lookup (h : ChainInStep P chainKey w rc) (counter : UInt32) :
    takeFirst (fun k => k.counter == counter) rc.skippedKeys =
      if counter.toNat ∈ w.missing then
        some (keysAt P chainKey counter.toNat,
          (w.missing.erase counter.toNat).map (keysAt P chainKey))
      else none := by
  have hlookup := h.follows.lookup h.room (room_counter counter) (f := MessageKeys.counter)
    fun _ => rfl
  rwa [← counter_eq_index counter] at hlookup

/-- **A message that was opened before is refused.** -/
theorem ChainInStep.seen (h : ChainInStep P chainKey w rc) (hseen : w.Seen m.counter.toNat)
    (localId remoteId : U8Array 32) :
    onChain P localId remoteId rc m = (.error (.malformed "counter out of range"), rc) := by
  have hmiss := h.lookup m.counter
  rw [if_neg hseen.2] at hmiss
  unfold onChain
  rw [if_pos ((h.late_iff m.counter).mpr hseen.1), hmiss]

/-- **A late message is tried with the key that was kept for it.** -/
theorem ChainInStep.missing (h : ChainInStep P chainKey w rc)
    (hmiss : m.counter.toNat ∈ w.missing) (localId remoteId : U8Array 32) :
    match openWith P localId remoteId (keysAt P chainKey m.counter.toNat) m with
    | .error e => onChain P localId remoteId rc m = (.error e, rc)
    | .ok plaintext => ∃ rc', onChain P localId remoteId rc m = (.ok plaintext, rc') ∧
        ChainInStep P chainKey (w.late m.counter.toNat) rc' ∧
        rc'.remoteRatchetPub = rc.remoteRatchetPub := by
  have hhit := h.lookup m.counter
  rw [if_pos hmiss] at hhit
  have hlate := (h.late_iff m.counter).mpr (w.below _ hmiss)
  cases hopen : openWith P localId remoteId (keysAt P chainKey m.counter.toNat) m with
  | error e =>
      show onChain P localId remoteId rc m = (.error e, rc)
      unfold onChain
      rw [if_pos hlate, hhit]
      dsimp only
      rw [hopen]
  | ok plaintext =>
      refine ⟨{ rc with skippedKeys := (w.missing.erase m.counter.toNat).map (keysAt P chainKey) },
        ?_, ⟨h.follows.late _, h.fits⟩, rfl⟩
      unfold onChain
      rw [if_pos hlate, hhit]
      dsimp only
      rw [hopen]

/-- The chain is not asked to keep more keys than it may. -/
def Reaches (rc : ReceiverChain) (counter : UInt32) : Prop :=
  rc.skippedKeys.length + (counter.toNat - rc.chainKey.index.toNat) ≤ MAX_SKIPPED_MESSAGE_KEYS

instance (rc : ReceiverChain) (counter : UInt32) : Decidable (Reaches rc counter) :=
  inferInstanceAs (Decidable (_ ≤ _))

/-- A message out of reach changes nothing. -/
theorem onChain_out_of_reach (hahead : ¬ m.counter < rc.chainKey.index)
    (hreach : ¬ Reaches rc m.counter) (localId remoteId : U8Array 32) :
    onChain P localId remoteId rc m =
      (.error (.malformed "skipped key cache would exceed limit"), rc) := by
  unfold onChain
  rw [if_neg hahead, if_pos (Nat.not_le.mp hreach)]

/-- **A message ahead is tried at the end of a walk**, and the walk stays in the cache. -/
theorem ChainInStep.ahead (h : ChainInStep P chainKey w rc) (hle : w.next ≤ m.counter.toNat)
    (hreach : Reaches rc m.counter) (localId remoteId : U8Array 32) :
    match openWith P localId remoteId (keysAt P chainKey m.counter.toNat) m with
    | .error e => ∃ kept, kept.length = m.counter.toNat - w.next ∧
        onChain P localId remoteId rc m =
          (.error e, { rc with skippedKeys := rc.skippedKeys ++ kept })
    | .ok plaintext => ∃ rc', onChain P localId remoteId rc m = (.ok plaintext, rc') ∧
        (m.counter.toNat + 1 < 2 ^ 32 →
          ChainInStep P chainKey (w.forward m.counter.toNat hle) rc') ∧
        rc'.remoteRatchetPub = rc.remoteRatchetPub := by
  have hahead := mt (h.late_iff m.counter).mp (Nat.not_lt.mpr hle)
  obtain ⟨kept, hwalk, hlen, hfollows⟩ := h.follows.forward (room_counter m.counter) hle
  rw [← counter_eq_index m.counter] at hwalk
  have hchain : onChain P localId remoteId rc m =
      match openWith P localId remoteId (keysAt P chainKey m.counter.toNat) m with
      | .error e => (.error e, { rc with skippedKeys := rc.skippedKeys ++ kept })
      | .ok plaintext => (.ok plaintext, { rc with
          skippedKeys := rc.skippedKeys ++ kept
          chainKey := (chainAt P.hashing ⟨chainKey, 0⟩ m.counter.toNat).next P.hashing }) := by
    unfold onChain
    rw [if_neg hahead, if_neg (Nat.not_lt.mpr hreach), hwalk]
    rfl
  rw [hchain]
  cases hopen : openWith P localId remoteId (keysAt P chainKey m.counter.toNat) m with
  | error e => exact ⟨kept, hlen, rfl⟩
  | ok plaintext => exact ⟨_, rfl, fun hnext => ⟨hfollows, hnext⟩, rfl⟩

end Chain

/-! ## 3. The chains of a session -/

section Lists

variable {α β : Type} {R : α → β → Prop} {as : List α} {bs : List β}

/-- Lists in step stay so when one place changes in both. -/
theorem forall₂_set (h : List.Forall₂ R as bs) (i : Nat) {a : α} {b : β} (hab : R a b) :
    List.Forall₂ R (as.set i a) (bs.set i b) := by
  induction h generalizing i with
  | nil => exact .nil
  | cons hhead htail ih =>
      cases i with
      | zero => exact .cons hab htail
      | succ i => exact .cons hhead (ih i)

/-- What stands at a place of the one has its partner at the same place of the other. -/
theorem forall₂_getElem? (h : List.Forall₂ R as bs) {i : Nat} {a : α} (ha : as[i]? = some a) :
    ∃ b, bs[i]? = some b ∧ R a b := by
  induction h generalizing i with
  | nil => cases ha
  | cons hhead htail ih =>
      cases i with
      | zero =>
          cases ha
          exact ⟨_, rfl, hhead⟩
      | succ i => exact ih ha

theorem forall₂_mem_right (h : List.Forall₂ R as bs) {b : β} (hb : b ∈ bs) :
    ∃ a ∈ as, R a b := by
  induction h with
  | nil => cases hb
  | cons hhead htail ih =>
      rcases List.mem_cons.mp hb with rfl | hb
      · exact ⟨_, List.mem_cons_self, hhead⟩
      · obtain ⟨a, ha, hab⟩ := ih hb
        exact ⟨a, List.mem_cons_of_mem _ ha, hab⟩

/-- A place of a list is a place of every longer one. -/
theorem getElem?_append_of_some {l l' : List α} {i : Nat} {a : α} (h : l[i]? = some a) :
    (l ++ l')[i]? = some a := by
  rw [List.getElem?_append_left (List.getElem?_eq_some_iff.mp h).1, h]

/-- Places of a list whose images differ, found by their images. -/
theorem index_of_nodup_map {l : List α} {f : α → β} (h : (l.map f).Nodup) {i j : Nat} {a b : α}
    (ha : l[i]? = some a) (hb : l[j]? = some b) (hf : f a = f b) : i = j := by
  obtain ⟨hi, rfl⟩ := List.getElem?_eq_some_iff.mp ha
  obtain ⟨hj, rfl⟩ := List.getElem?_eq_some_iff.mp hb
  have hi' : i < (l.map f).length := by rwa [List.length_map]
  have hj' : j < (l.map f).length := by rwa [List.length_map]
  have heq : (l.map f)[i] = (l.map f)[j] := by
    rw [List.getElem_map, List.getElem_map]
    exact hf
  exact (List.getElem_inj h).mp heq

end Lists

/-- The number of a chain, and what it has left to accept. -/
abbrev Numbered := Nat × SkipWindow

/-- A window that moves on keeps its number. -/
theorem map_fst_set {ι : Type} {ws : List (ι × SkipWindow)} {idx : Nat} {number : ι}
    {w : SkipWindow} (hw : ws[idx]? = some (number, w)) (w' : SkipWindow) :
    (ws.set idx (number, w')).map Prod.fst = ws.map Prod.fst := by
  obtain ⟨hidx, hw⟩ := List.getElem?_eq_some_iff.mp hw
  have hlt : idx < (ws.map Prod.fst).length := by rwa [List.length_map]
  have hget : (ws.map Prod.fst)[idx] = number := by rw [List.getElem_map, hw]
  rw [List.map_set]
  dsimp only
  rw [← hget, List.set_getElem_self]

/-- A message on the chain at `idx` of a session. -/
theorem decryptAt_eq {state : SessionState} {idx : Nat} {rc : ReceiverChain} {m : WhisperMessage}
    (hrc : state.receiverChains[idx]? = some rc) :
    decryptAt P state idx m =
      ((onChain P state.localIdentityPub state.remoteIdentityPub rc m).1, { state with
        receiverChains := state.receiverChains.set idx
          (onChain P state.localIdentityPub state.remoteIdentityPub rc m).2 }) := by
  unfold decryptAt
  rw [hrc]

/-- A refused message that leaves its chain alone leaves the session alone. -/
theorem decryptAt_refused {state : SessionState} {idx : Nat} {rc : ReceiverChain}
    {m : WhisperMessage} {e : SignalError} (hrc : state.receiverChains[idx]? = some rc)
    (hchain : onChain P state.localIdentityPub state.remoteIdentityPub rc m = (.error e, rc)) :
    decryptAt P state idx m = (.error e, state) := by
  obtain ⟨hidx, hrc'⟩ := List.getElem?_eq_some_iff.mp hrc
  rw [decryptAt_eq P hrc, hchain]
  dsimp only
  rw [← hrc', List.set_getElem_self]

end Ruwa.Crypto.Signal
