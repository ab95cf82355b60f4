/-
  File:      Ruwa/Session/FirstContact.lean
  Subject:   THE FIRST MESSAGES TO A DEVICE (`session.rs`, `encrypt_per_device`; `crypto.rs`,
             `PendingPreKey`, `encrypt_pre_key`), before it has answered.

  A session that was made from a bundle remembers what the peer needs to make its own, until the
  peer answers. The loop that encrypts forgets it after the first message: the second one is of the
  kind that only a peer with a session can read.

  * `encryptUnder_pending`, `encryptUnder_plain` -- the first message of a session, and the others;
  * `flight_eq` -- what a run of sends produces;
  * `first_opens`, `later_unread` -- what a peer without a session makes of the two kinds;
  * **`first_contact_iff`** -- whatever gets lost on the way, what arrives can be read, exactly when
    not more than one message is sent.
-/
import Ruwa.Crypto.SignalDelivery
import Ruwa.Session.Envelope

namespace Ruwa.Session.FirstContact

open Ruwa.Library
open Ruwa.Crypto
open Ruwa.Crypto.Signal (SignalPrimitives SessionState CiphertextMessage MessageType KeyMaterial
  StandsOn PreKeyMessageInfo)
open Ruwa.Session.Addresses
open Ruwa.Session.Retry (DevicePrekeyBundle Draw sessionFromBundle recordFromBundle encryptUnder
  encryptPerDevice EncryptedRecipient SendError addReply)
open Ruwa.Session.Prekeys (PrekeyRow)
open Ruwa.Session.Decryption (Envelope Store decryptSignalEnvelope loadPrekeyPriv storedRecord)

/-! ## 1. Both ends -/

/-- A device and its bundle, our keys, and what is drawn for the session. The bundle has the public
    halves of the keys of the device, and the device has no session with us. -/
structure Contact (P : SignalPrimitives) where
  keys : Retry.DeviceKeys
  device : List Char
  bundle : DevicePrekeyBundle
  draw : Draw
  peer : Decryption.DeviceKeys
  peerStore : Store
  ourAddr : List Char
  keys_pub : keys.identityPub = P.x25519.pub keys.identityPriv
  peer_pub : peer.identityPub = P.x25519.pub peer.identityPriv
  identity : bundle.identityPub = peer.identityPub
  signed : bundle.signedPreKeyPub = P.x25519.pub peer.signedPrekeyPriv
  oneTime : bundle.oneTimePreKeyPub =
    (loadPrekeyPriv peerStore bundle.oneTimePreKeyId).map P.x25519.pub
  unknown : storedRecord peerStore ourAddr = none

/-- A message as it is given to `encrypt_per_device`, and what the server and the random generator
    give to the call. The texts are padded. -/
structure Send where
  message : Bytes
  random : UInt8
  own : Bytes
  randomOwn : UInt8
  ownUser : Option (List Char)
  fetch : List (List Char) → Except String (List (DevicePrekeyBundle × Draw))
  fresh : List Char → U8Array 32

section

variable {P : SignalPrimitives} (c : Contact P) (order : MostRecent) (table : List LidPnRow)
  (sessionId : String)

/-- What the device is to read. -/
def text (s : Send) : Bytes := if s.ownUser = some (lidUserPart c.device) then s.own else s.message

def plaintext (s : Send) : Bytes :=
  if s.ownUser = some (lidUserPart c.device) then padMessage s.randomOwn s.own
  else padMessage s.random s.message

def encryptFor (store : SessionStore) (s : Send) :
    Except SendError (List EncryptedRecipient) × SessionStore :=
  encryptPerDevice P c.keys order table sessionId s.fetch s.fresh store [c.device]
    (padMessage s.random s.message) (padMessage s.randomOwn s.own) s.ownUser

/-- The ciphertexts of a run of sends. -/
def flight (store : SessionStore) : List Send → List CiphertextMessage
  | [] => []
  | s :: sends =>
      let (result, store) := encryptFor c order table sessionId store s
      (match result with
        | .ok out => out.map (·.message)
        | .error _ => []) ++ flight store sends

/-- The session is in the store, once, or the first send gets its bundle from the server. -/
inductive Bootstrapped (store : SessionStore) (sends : List Send) : Prop
  | stored (home : List Char) (hhome : home ∈ candidates order table sessionId c.device)
      (hrow : store home = some (.record (recordFromBundle P c.keys c.bundle c.draw)))
      (honly : OnlyAt order table sessionId store c.device home)
  | fetched (hnone : ∀ a ∈ candidates order table sessionId c.device, hasCurrent store a = false)
      (hrow : store (canonicalSessionAddress order table sessionId c.device) ≠ some .corrupt)
      (hreply : ∀ s ∈ sends.head?, ∃ replies,
        s.fetch [canonicalSessionAddress order table sessionId c.device] = .ok replies ∧
          replies.foldl (addReply P c.keys) (fun _ => none)
            (canonicalSessionAddress order table sessionId c.device) =
              some (recordFromBundle P c.keys c.bundle c.draw))

end

/-- The type of the `<enc>` of a message. -/
def encType : MessageType → String
  | .whisper => "msg"
  | .preKey => "pkmsg"

section

variable {P : SignalPrimitives} (c : Contact P)

/-- What the device makes of the messages that reach it, one after the other. Each draws a key. -/
def receive (store : Store) : List (CiphertextMessage × U8Array 32) → List (Option Bytes)
  | [] => []
  | (m, fresh) :: arrivals =>
      let (opened, store) := decryptSignalEnvelope P c.peer store
        ⟨c.ourAddr, encType m.messageType, 2, m.serialized⟩ fresh
      opened :: receive store arrivals

/-- The messages with these numbers, in this order. -/
def arrivals (sent : List CiphertextMessage) (numbers : List Nat) (fresh : U8Array 32) :
    List (CiphertextMessage × U8Array 32) :=
  (numbers.filterMap (sent[·]?)).map (·, fresh)

/-- A message that tells the peer how to build this session. -/
def Introduces (m : CiphertextMessage) : Prop :=
  m.messageType = .preKey ∧ ∃ info, Signal.parsePreKeyMessage P m.serialized = .ok info ∧
    info.baseKeyPub = P.x25519.pub c.draw.basePriv ∧
    info.preKeyId = c.bundle.oneTimePreKeyId ∧ info.signedPreKeyId = c.bundle.signedPreKeyId

/-- **First contact survives**: each message introduces the session, and whichever of them reach the
    device, in whatever order, it reads them all. -/
structure Survives (sends : List Send) (sent : List CiphertextMessage) : Prop where
  introduces : ∀ m ∈ sent, Introduces c m
  opens : ∀ (numbers : List Nat) (fresh : U8Array 32), numbers.Nodup →
    (∀ i ∈ numbers, i < sent.length) →
    receive c c.peerStore (arrivals sent numbers fresh) =
      numbers.map fun i => (sends[i]?).map (text c)

end

/-! ## 2. The messages of one session -/

section Sending

variable {P : SignalPrimitives} {c : Contact P} {order : MostRecent} {table : List LidPnRow}
  {sessionId : String} {store : SessionStore}

theorem plaintext_eq (s : Send) :
    plaintext c s = padMessage (if s.ownUser = some (lidUserPart c.device) then s.randomOwn
      else s.random) (text c s) := by
  unfold plaintext text
  split <;> rfl

/-- A session that can send, and that has forgotten how it was made. -/
structure Plain (state : SessionState) : Prop where
  chain : ∃ chain, state.senderChain = some chain
  pub : ∃ ratchetPub, state.senderRatchetPub = some ratchetPub
  forgotten : state.pendingPreKey = none

/-- **The first message** introduces the session, and the session forgets how. -/
theorem encryptUnder_pending (c : Contact P) (fresh : U8Array 32) (plaintext : Bytes) :
    ∃ wire inner state,
      encryptUnder P c.keys (sessionFromBundle P c.keys c.bundle c.draw) fresh plaintext =
        (.ok ⟨wire, .preKey⟩, state) ∧ Plain state ∧
      (Signal.encrypt P (sessionFromBundle P c.keys c.bundle c.draw) fresh plaintext).1 =
        .ok ⟨inner, .whisper⟩ ∧
      Signal.parsePreKeyMessage P wire = .ok ⟨c.keys.registrationId, c.bundle.oneTimePreKeyId,
        c.bundle.signedPreKeyId, P.x25519.pub c.draw.basePriv, c.keys.identityPub,
        P.x25519.pub c.draw.ratchetPriv, inner⟩ := by
  let start := sessionFromBundle P c.keys c.bundle c.draw
  obtain ⟨chain, hchain⟩ : ∃ chain, start.senderChain = some chain := ⟨_, rfl⟩
  have hpub : start.senderRatchetPub = some (P.x25519.pub c.draw.ratchetPriv) := rfl
  obtain ⟨wire, inner, hwire, hinner, hparse⟩ := Signal.parsePreKeyMessage_encryptPreKey P hchain
    hpub fresh plaintext c.keys.registrationId (P.x25519.pub c.draw.basePriv) c.keys.identityPub
    c.bundle.signedPreKeyId c.bundle.oneTimePreKeyId
  have hpending : start.pendingPreKey =
      some ⟨c.bundle.oneTimePreKeyId, c.bundle.signedPreKeyId, P.x25519.pub c.draw.basePriv⟩ := rfl
  refine ⟨wire, inner,
    { (Signal.encrypt P start fresh plaintext).2 with pendingPreKey := none }, ?_, ?_, hinner,
    hparse⟩
  · unfold encryptUnder
    rw [show (sessionFromBundle P c.keys c.bundle c.draw).pendingPreKey = _ from hpending]
    dsimp only
    rw [show Signal.encryptPreKey P (sessionFromBundle P c.keys c.bundle c.draw) _ _ _ _ _ _ _ = _
      from hwire]
  · rw [Signal.encrypt_of_chain P hchain hpub]
    exact ⟨⟨_, rfl⟩, ⟨_, hpub⟩, rfl⟩

/-- **Any later message** is one for a peer that has a session. -/
theorem encryptUnder_plain {state : SessionState} (h : Plain state) (keys : Retry.DeviceKeys)
    (fresh : U8Array 32) (plaintext : Bytes) :
    ∃ wire state', encryptUnder P keys state fresh plaintext = (.ok ⟨wire, .whisper⟩, state') ∧
      Plain state' := by
  obtain ⟨chain, hchain⟩ := h.chain
  obtain ⟨ratchetPub, hpub⟩ := h.pub
  have hencrypt : encryptUnder P keys state fresh plaintext =
      Signal.encrypt P state fresh plaintext := by
    unfold encryptUnder
    rw [h.forgotten]
  rw [hencrypt, Signal.encrypt_of_chain P hchain hpub]
  exact ⟨_, _, rfl, ⟨_, rfl⟩, ⟨ratchetPub, hpub⟩, h.forgotten⟩

/-- The store with the only session of the device at its canonical address. -/
structure Settled (c : Contact P) (order : MostRecent) (table : List LidPnRow) (sessionId : String)
    (store : SessionStore) (state : SessionState) : Prop where
  row : ∃ previous, store (canonicalSessionAddress order table sessionId c.device) =
    some (.record ⟨some state, previous⟩)
  only : OnlyAt order table sessionId store c.device
    (canonicalSessionAddress order table sessionId c.device)

theorem canonical_mem : canonicalSessionAddress order table sessionId c.device ∈
    candidates order table sessionId c.device := mem_candidates.mpr (Or.inr (Or.inl rfl))

theorem onlyAt_saved {r : SessionRecord} {a : List Char}
    (h : ∀ b ∈ candidates order table sessionId c.device, b ≠ a → hasCurrent store b = false) :
    OnlyAt order table sessionId (saveRecord store a r) c.device a := by
  intro b hb hcurrent
  by_contra hne
  unfold hasCurrent saveRecord at hcurrent
  rw [Function.update_of_ne hne] at hcurrent
  have hnone := h b hb hne
  unfold hasCurrent at hnone
  cases hcurrent.symm.trans hnone

theorem settled_saved {state state' : SessionState} {previous : List SessionState}
    (h : Settled c order table sessionId store state) :
    Settled c order table sessionId (saveRecord store
      (canonicalSessionAddress order table sessionId c.device) ⟨some state', previous⟩) state' where
  row := ⟨previous, Function.update_self ..⟩
  only := onlyAt_saved fun b hb hne =>
    Bool.eq_false_iff.mpr fun hcurrent => hne (h.only b hb hcurrent)

/-- Bringing the copies together moves the session to the canonical address. -/
theorem settled_moved {home : List Char} {state : SessionState} {previous : List SessionState}
    (hhome : home ∈ candidates order table sessionId c.device)
    (hrow : store home = some (.record ⟨some state, previous⟩))
    (honly : OnlyAt order table sessionId store c.device home) :
    ∃ store', encryptionAddress order table sessionId store c.device =
        (canonicalSessionAddress order table sessionId c.device, store') ∧
      Settled c order table sessionId store' state := by
  refine ⟨_, encryptionAddress_only hhome hrow rfl honly, ?_⟩
  by_cases hcanonical : canonicalSessionAddress order table sessionId c.device = home
  · rw [if_pos hcanonical]
    exact ⟨⟨previous, hcanonical ▸ hrow⟩, hcanonical ▸ honly⟩
  · rw [if_neg hcanonical]
    refine ⟨⟨previous, ?_⟩, fun b hb hcurrent => ?_⟩
    · unfold deleteRecord saveRecord
      rw [Function.update_of_ne hcanonical, Function.update_self]
    · by_contra hne
      unfold hasCurrent deleteRecord saveRecord at hcurrent
      by_cases hbhome : b = home
      · rw [hbhome, Function.update_self] at hcurrent
        cases hcurrent
      · rw [Function.update_of_ne hbhome, Function.update_of_ne hne] at hcurrent
        exact hbhome (honly b hb hcurrent)

/-- **One send** with the session in the store. -/
theorem encryptFor_settled {state state' : SessionState} {m : CiphertextMessage} {s : Send}
    {store' : SessionStore}
    (hkey : encryptionAddress order table sessionId store c.device =
      (canonicalSessionAddress order table sessionId c.device, store'))
    (h : Settled c order table sessionId store' state)
    (hencrypt : encryptUnder P c.keys state (s.fresh c.device) (plaintext c s) = (.ok m, state')) :
    ∃ after, encryptFor c order table sessionId store s = (.ok [⟨c.device, m⟩], after) ∧
      Settled c order table sessionId after state' := by
  obtain ⟨previous, hrow⟩ := h.row
  exact ⟨_, Retry.encryptPerDevice_found hkey hrow hencrypt, settled_saved h⟩

/-- **The send that asks the server** is the first of the session. -/
theorem encryptFor_fetched {s : Send} {m : CiphertextMessage} {state : SessionState}
    {replies : List (DevicePrekeyBundle × Draw)}
    (hnone : ∀ a ∈ candidates order table sessionId c.device, hasCurrent store a = false)
    (hrow : store (canonicalSessionAddress order table sessionId c.device) ≠ some .corrupt)
    (hfetch : s.fetch [canonicalSessionAddress order table sessionId c.device] = .ok replies)
    (hreply : replies.foldl (addReply P c.keys) (fun _ => none)
      (canonicalSessionAddress order table sessionId c.device) =
        some (recordFromBundle P c.keys c.bundle c.draw))
    (hencrypt : encryptUnder P c.keys (sessionFromBundle P c.keys c.bundle c.draw)
      (s.fresh c.device) (plaintext c s) = (.ok m, state)) :
    ∃ after, encryptFor c order table sessionId store s = (.ok [⟨c.device, m⟩], after) ∧
      Settled c order table sessionId after state := by
  generalize hcanonical : canonicalSessionAddress order table sessionId c.device = canonical at *
  have hmem : canonical ∈ candidates order table sessionId c.device := hcanonical ▸ canonical_mem
  have htargets : Retry.encryptionTargets order table sessionId store [c.device] =
      ([(c.device, canonical)], store) := by
    unfold Retry.encryptionTargets
    rw [encryptionAddress_none hnone, hcanonical]
    rfl
  have hparts : Retry.partitionTargets store [(c.device, canonical)] =
      .ok (fun _ => none, [canonical]) := by
    rcases Retry.partition_missing (d := c.device) (hnone canonical hmem) with hcorrupt | hparts
    · unfold Retry.partitionTargets Retry.loadRecord at hcorrupt
      cases hstored : store canonical with
      | none =>
          rw [hstored] at hcorrupt
          cases hcorrupt
      | some row =>
          cases row with
          | corrupt => exact absurd hstored hrow
          | record r =>
              have hempty := hnone canonical hmem
              unfold hasCurrent at hempty
              rw [hstored] at hcorrupt hempty
              dsimp only at hempty
              have hmissing : Retry.partitionTargets store [] = .ok (fun _ => none, []) := rfl
              simp only [hmissing, hempty, bind, Except.bind, pure, Except.pure] at hcorrupt
              cases hcorrupt
    · exact hparts
  refine ⟨saveRecord store canonical ⟨some state, []⟩, ?_, ?_⟩
  · unfold encryptFor encryptPerDevice
    rw [htargets]
    dsimp only
    rw [hparts]
    dsimp only
    unfold Retry.bootstrap
    rw [if_neg (List.cons_ne_nil canonical []), hfetch]
    dsimp only
    unfold Retry.encryptTargets
    dsimp only
    rw [hreply]
    unfold plaintext at hencrypt
    simp only [recordFromBundle, hencrypt]
    rfl
  · refine ⟨⟨[], ?_⟩, ?_⟩
    · rw [hcanonical]
      exact Function.update_self ..
    · rw [hcanonical]
      exact onlyAt_saved fun b hb _ => hnone b hb

/-- The messages after the first. -/
theorem flight_plain {state : SessionState} {sends : List Send}
    (hsettled : Settled c order table sessionId store state) (hplain : Plain state) :
    (flight c order table sessionId store sends).length = sends.length ∧
      ∀ m ∈ flight c order table sessionId store sends, m.messageType = .whisper := by
  induction sends generalizing store state with
  | nil => exact ⟨rfl, nofun⟩
  | cons s sends ih =>
      obtain ⟨wire, state', hencrypt, hplain'⟩ :=
        encryptUnder_plain hplain c.keys (s.fresh c.device) (plaintext c s)
      obtain ⟨previous, hrow⟩ := hsettled.row
      obtain ⟨store', hkey, hmoved⟩ := settled_moved canonical_mem hrow hsettled.only
      obtain ⟨after, hsent, hafter⟩ := encryptFor_settled hkey hmoved hencrypt
      obtain ⟨hlength, hall⟩ := ih hafter hplain'
      unfold flight
      rw [hsent]
      refine ⟨congrArg (· + 1) hlength, fun m hm => ?_⟩
      rcases List.mem_cons.mp hm with rfl | hm
      · rfl
      · exact hall m hm

/-- **What a run of sends produces**: a message each, and only the first introduces the session. -/
theorem flight_eq {s : Send} {sends : List Send}
    (h : Bootstrapped c order table sessionId store (s :: sends)) :
    ∃ m rest, flight c order table sessionId store (s :: sends) = m :: rest ∧
      rest.length = sends.length ∧ (∀ m' ∈ rest, m'.messageType = .whisper) ∧
      (encryptUnder P c.keys (sessionFromBundle P c.keys c.bundle c.draw) (s.fresh c.device)
        (plaintext c s)).1 = .ok m := by
  obtain ⟨wire, inner, state, hencrypt, hplain, -, -⟩ :=
    encryptUnder_pending c (s.fresh c.device) (plaintext c s)
  obtain ⟨after, hsent, hsettled⟩ : ∃ after,
      encryptFor c order table sessionId store s = (.ok [⟨c.device, ⟨wire, .preKey⟩⟩], after) ∧
        Settled c order table sessionId after state := by
    cases h with
    | stored home hhome hrow honly =>
        obtain ⟨store', hkey, hmoved⟩ := settled_moved hhome hrow honly
        exact encryptFor_settled hkey hmoved hencrypt
    | fetched hnone hrow hreply =>
        obtain ⟨replies, hfetch, hfound⟩ := hreply s rfl
        exact encryptFor_fetched hnone hrow hfetch hfound hencrypt
  obtain ⟨hlength, hall⟩ : (flight c order table sessionId after sends).length = sends.length ∧
      ∀ m ∈ flight c order table sessionId after sends, m.messageType = .whisper :=
    flight_plain hsettled hplain
  refine ⟨⟨wire, .preKey⟩, flight c order table sessionId after sends, ?_, hlength, hall, ?_⟩
  · rw [flight, hsent]
    rfl
  · rw [hencrypt]

end Sending

/-! ## 3. The device -/

section Receiving

variable {P : SignalPrimitives} (c : Contact P)

/-- The private keys of both ends. -/
def material : KeyMaterial where
  aliceIdentity := c.keys.identityPriv
  aliceBase := c.draw.basePriv
  aliceRatchet := c.draw.ratchetPriv
  bobIdentity := c.peer.identityPriv
  bobSignedPrekey := c.peer.signedPrekeyPriv
  bobOneTimePrekey := loadPrekeyPriv c.peerStore c.bundle.oneTimePreKeyId

/-- Our session is the one that both ends derive. -/
theorem session_aliceParameters :
    sessionFromBundle P c.keys c.bundle c.draw =
      { Signal.initiateAlice P ((material c).aliceParameters P) with
        localRegistrationId := c.keys.registrationId
        remoteRegistrationId := c.bundle.registrationId
        pendingPreKey := some ⟨c.bundle.oneTimePreKeyId, c.bundle.signedPreKeyId,
          P.x25519.pub c.draw.basePriv⟩ } := by
  unfold sessionFromBundle KeyMaterial.aliceParameters KeyMaterial.identity material
  rw [c.keys_pub, c.identity, c.peer_pub, c.signed, c.oneTime]

/-- **The first message opens** at a device without a session. -/
theorem first_opens {s : Send} {m : CiphertextMessage}
    (h : (encryptUnder P c.keys (sessionFromBundle P c.keys c.bundle c.draw) (s.fresh c.device)
      (plaintext c s)).1 = .ok m) (fresh : U8Array 32) :
    Introduces c m ∧ (decryptSignalEnvelope P c.peer c.peerStore
      ⟨c.ourAddr, encType m.messageType, 2, m.serialized⟩ fresh).1 = some (text c s) := by
  obtain ⟨wire, inner, state, hencrypt, -, hinner, hparse⟩ :=
    encryptUnder_pending c (s.fresh c.device) (plaintext c s)
  rw [hencrypt] at h
  cases h
  refine ⟨⟨rfl, _, hparse, rfl, rfl, rfl⟩, ?_⟩
  let info : PreKeyMessageInfo := ⟨c.keys.registrationId, c.bundle.oneTimePreKeyId,
    c.bundle.signedPreKeyId, P.x25519.pub c.draw.basePriv, c.keys.identityPub,
    P.x25519.pub c.draw.ratchetPriv, inner⟩
  let bob := Decryption.newSession P c.peer info
    (loadPrekeyPriv c.peerStore c.bundle.oneTimePreKeyId)
  -- The device derives the chain that the message was sealed on.
  have hbob : Signal.processBob P ((material c).bobParameters P info) = bob := by
    unfold bob Decryption.newSession Decryption.bobParameters KeyMaterial.bobParameters
      KeyMaterial.identity material
    rw [c.peer_pub]
  obtain ⟨e, -, hstands, -, hchains⟩ := Signal.x3dh_agree P (material c) info c.keys_pub rfl rfl
  rw [hbob] at hchains
  have hwire : inner = Signal.sealMessage P c.keys.identityPub c.peer.identityPub (e.pub P) 0
      (Signal.keysAt P e.chain 0) (plaintext c s) := by
    have hchain : (sessionFromBundle P c.keys c.bundle c.draw).senderChain = some ⟨e.chain, 0⟩ := by
      rw [session_aliceParameters]
      exact hstands.chain
    have hpub : (sessionFromBundle P c.keys c.bundle c.draw).senderRatchetPub = some (e.pub P) := by
      rw [session_aliceParameters]
      exact hstands.pub
    rw [Signal.encrypt_of_chain P hchain hpub] at hinner
    cases hinner
    rw [← c.identity]
    rfl
  have hmessage := Signal.parseWire_sealMessage P c.keys.identityPub c.peer.identityPub (e.pub P) 0
    (Signal.keysAt P e.chain 0) (plaintext c s)
  rw [← hwire] at hmessage
  have hreads : List.Forall₂ (Signal.ReadsEpoch P [e]) bob.receiverChains [(0, .start)] := by
    rw [hchains]
    exact .cons ⟨e, rfl, Signal.chainInStep_start P _ _, rfl⟩ .nil
  have hrc : bob.receiverChains[0]? = some ⟨e.pub P, ⟨e.chain, 0⟩, []⟩ := by
    rw [hchains]
    rfl
  obtain ⟨chains, hat, -⟩ := Signal.decryptAt_opens hreads hrc rfl rfl (by decide) (c := 0)
    (show Signal.sealedMessage P c.keys.identityPub c.peer.identityPub (e.pub P) 0
      (Signal.keysAt P e.chain 0) (plaintext c s) = _ from rfl) (Nat.zero_le _)
    fun hseen => Nat.not_lt_zero _ hseen.1
  have hdecrypt : Signal.decrypt P bob fresh inner =
      (.ok (plaintext c s), { bob with receiverChains := chains }) := by
    unfold Signal.decrypt
    rw [hmessage]
    dsimp only
    unfold Signal.decryptMessage Signal.chainIdx
    rw [hchains, List.findIdx?_cons, if_pos (by exact beq_self_eq_true _)]
    exact hat
  have hread : Decryption.readRecord P ⟨some bob, []⟩ fresh 2 inner =
      some (text c s, ⟨some { bob with receiverChains := chains }, []⟩) := by
    refine Decryption.readRecord_some.mpr ⟨bob, _, _, rfl, hdecrypt, ?_, rfl⟩
    rw [plaintext_eq]
    exact unpadMessage_padMessage _ _
  have hunread : Decryption.readExisting P c.peerStore c.ourAddr info fresh 2 = none := by
    unfold Decryption.readExisting
    rw [c.unknown]
  have hnew : decryptSignalEnvelope P c.peer c.peerStore
      ⟨c.ourAddr, encType .preKey, 2, wire⟩ fresh = _ :=
    Decryption.decrypt_new rfl hparse hunread hread
  rw [hnew]

/-- **Any other message** cannot be read there. -/
theorem later_unread {m : CiphertextMessage} (h : m.messageType = .whisper) (fresh : U8Array 32) :
    (decryptSignalEnvelope P c.peer c.peerStore
      ⟨c.ourAddr, encType m.messageType, 2, m.serialized⟩ fresh).1 = none := by
  unfold decryptSignalEnvelope
  rw [h, if_pos (show encType .whisper = "msg" from rfl)]
  dsimp only
  rw [c.unknown]

end Receiving

/-! ## 4. Runs of sends -/

/-- **First contact survives**, for every run of sends that starts with a session from a bundle,
    exactly when not more than one message is sent before the device answers. -/
theorem first_contact_iff {P : SignalPrimitives} (c : Contact P) (order : MostRecent)
    (table : List LidPnRow) (sessionId : String) (store : SessionStore) (sends : List Send)
    (h : Bootstrapped c order table sessionId store sends) :
    Survives c sends (flight c order table sessionId store sends) ↔ sends.length ≤ 1 := by
  cases sends with
  | nil =>
      refine ⟨fun _ => Nat.zero_le 1, fun _ => ⟨nofun, fun numbers fresh _ hbelow => ?_⟩⟩
      cases numbers with
      | nil => rfl
      | cons i numbers => exact absurd (hbelow i List.mem_cons_self) (Nat.not_lt_zero i)
  | cons s sends =>
      obtain ⟨m, rest, hflight, hlength, hrest, hfirst⟩ := flight_eq h
      rw [hflight]
      constructor
      · intro hsurvives
        cases rest with
        | nil =>
            rw [List.length_cons, ← hlength]
            exact Nat.le_refl 1
        | cons m' rest =>
            have hintroduces := hsurvives.introduces m' (by simp)
            cases hintroduces.1.symm.trans (hrest m' List.mem_cons_self)
      · intro hshort
        obtain rfl : sends = [] := List.length_eq_zero_iff.mp (Nat.le_zero.mp
          (Nat.le_of_succ_le_succ hshort))
        obtain rfl : rest = [] := List.length_eq_zero_iff.mp hlength
        refine ⟨fun m' hm => ?_, fun numbers fresh hnodup hbelow => ?_⟩
        · rw [List.mem_singleton.mp hm]
          exact (first_opens c hfirst c.draw.basePriv).1
        · have hzero : ∀ i ∈ numbers, i = 0 := fun i hi => Nat.lt_one_iff.mp (hbelow i hi)
          match numbers, hnodup, hzero with
          | [], _, _ => rfl
          | [i], _, hzero =>
              obtain rfl := hzero i List.mem_cons_self
              have hopens := (first_opens c hfirst fresh).2
              show [_] = [some (text c s)]
              exact congrArg (fun o => [o]) hopens
          | i :: j :: _, hnodup, hzero =>
              have hi := hzero i List.mem_cons_self
              have hj := hzero j (List.mem_cons_of_mem _ List.mem_cons_self)
              exact absurd (List.mem_cons_self (a := j)) (hi.trans hj.symm ▸
                (List.nodup_cons.mp hnodup).1)

namespace Sample

open Signal.Known

def bobKeys : Decryption.DeviceKeys := ⟨⟨bobId, bobIdPub, 9⟩, bobSpk⟩

def bobStore : Store := ⟨fun _ => none, [⟨⟨2, ⟨bobOpk, bobOpkPub⟩⟩, true⟩]⟩

def contact : Contact primitives where
  keys := Retry.Sample.ours
  device := Retry.Sample.theirs.jid
  bundle := Retry.Sample.theirs
  draw := ⟨aliceBase, ratchet₁⟩
  peer := bobKeys
  peerStore := bobStore
  ourAddr := "31600000041@s.whatsapp.net".toList
  keys_pub := by decide +kernel
  peer_pub := by decide +kernel
  identity := rfl
  signed := by decide +kernel
  oneTime := by decide +kernel
  unknown := rfl

/-- The server gives the bundle. -/
def hello : Send where
  message := hi
  random := 3
  own := hi
  randomOwn := 3
  ownUser := none
  fetch _ := .ok [(contact.bundle, contact.draw)]
  fresh _ := ratchet₂

theorem bootstrapped (sends : List Send) (h : ∀ s ∈ sends.head?, s = hello) :
    Bootstrapped contact (.byInsertion _) [] "s" (fun _ => none) sends := by
  refine .fetched (fun _ _ => rfl) nofun fun s hs => ?_
  rw [h s hs]
  refine ⟨_, rfl, ?_⟩
  have hcanonical : canonicalSessionAddress (.byInsertion _) [] "s" contact.device =
      contact.bundle.jid := by decide +kernel
  rw [hcanonical, List.foldl_cons, List.foldl_nil]
  unfold addReply
  rw [Function.update_self]

def sent (sends : List Send) : List CiphertextMessage :=
  flight contact (.byInsertion _) [] "s" (fun _ => none) sends

end Sample

/-- One message, and its answer. -/
theorem hello_survives : Survives Sample.contact [Sample.hello] (Sample.sent [Sample.hello]) :=
  (first_contact_iff Sample.contact (.byInsertion _) [] "s" (fun _ => none) [Sample.hello]
    (Sample.bootstrapped _ fun s hs => by cases hs; rfl)).mpr (Nat.le_refl 1)

/-- Of two messages the first is lost: the second does not introduce the session, and the device
    cannot read it. -/
theorem second_hello_unread :
    (Sample.sent [Sample.hello, Sample.hello]).map (·.messageType) = [.preKey, .whisper] ∧
    receive Sample.contact Sample.bobStore
      (arrivals (Sample.sent [Sample.hello, Sample.hello]) [1] Signal.Known.ratchet₃) = [none] ∧
    ¬Survives Sample.contact [Sample.hello, Sample.hello]
      (Sample.sent [Sample.hello, Sample.hello]) := by
  have hlost : receive Sample.contact Sample.bobStore
      (arrivals (Sample.sent [Sample.hello, Sample.hello]) [1] Signal.Known.ratchet₃) = [none] := by
    decide +kernel
  have htypes : (Sample.sent [Sample.hello, Sample.hello]).map (·.messageType) =
      [.preKey, .whisper] := by decide +kernel
  refine ⟨htypes, hlost, fun h => ?_⟩
  have hlength : (Sample.sent [Sample.hello, Sample.hello]).length = 2 := by
    rw [← List.length_map, htypes]
    rfl
  have hopens := h.opens [1] Signal.Known.ratchet₃ (List.nodup_singleton 1) fun i hi => by
    rw [List.mem_singleton.mp hi, hlength]
    decide
  cases hopens.symm.trans hlost

end Ruwa.Session.FirstContact
