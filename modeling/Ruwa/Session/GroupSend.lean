/-
  File:      Ruwa/Session/GroupSend.lean
  Subject:   SENDING TO A GROUP (`session.rs`, `send_group_message`): one message under the group's
             sender key, and the position of that key to every device.

  The state is loaded, the distribution is taken before the message moves the chain, the state is
  saved, and only then is the distribution fanned out. A load that yields nothing makes a new key;
  a save that fails is not noticed.

  Between sends the stored state may become unreadable, and the stanzas reach the devices in any
  order, with losses and repetitions, under any form of our address.

  * `Sound` -- the invariant: the stored state is ahead of everything that was written under its
    key, every stanza announces the position it was written at, every device is in step;
  * `send_sound`, `deliver_sound` -- one attempt, one delivery;
  * **`group_send_kept`** -- no position is used for two messages, the recipients of a stanza are
    told its position, and no device loses a message, in every run in which a state that was read
    is also saved and what comes without its own distribution is within reach.
-/
import Ruwa.Session.GroupReceive
import Mathlib.Data.List.Nodup

namespace Ruwa.Session.GroupSend

open Ruwa.Library
open Ruwa.Library.Text
open Ruwa.Crypto
open Ruwa.Crypto.SenderKey
open Ruwa.Session.Group (KeyRing DirectMessage Enc decryptGroupMessage)

/-! ## 1. The message with the distribution -/

/-- `SenderKeyDistributionMessage`, tags 1 and 2. -/
structure DistributionMessage where
  groupId : Option Bytes
  axolotl : Option Bytes
  deriving DecidableEq

def DistributionMessage.codec : ProtoWire.Codec DistributionMessage :=
  .ofFields
    (fun m => ProtoWire.bytesField 1 m.groupId ++ ProtoWire.bytesField 2 m.axolotl)
    (fun fs => do return ⟨← ProtoWire.bytes? 1 fs, ← ProtoWire.bytes? 2 fs⟩)
    (by
      intro m
      rw [ProtoWire.bytes?_of_last? (b := m.groupId) (by simp),
        ProtoWire.bytes?_of_last? (b := m.axolotl) (by simp)]
      rfl)

/-- `Message`, of which the field of the distribution is read: tag 2. -/
def messageCodec : ProtoWire.Codec (Option Bytes) :=
  .ofFields (ProtoWire.bytesField 2) (ProtoWire.bytes? 2)
    fun m => ProtoWire.bytes?_of_last? (by simp)

def skdmPlain (groupJid : String) (skdmWire : Bytes) : Bytes :=
  let skdm : DistributionMessage := ⟨some (utf8 groupJid), some skdmWire⟩
  messageCodec.encode (some (DistributionMessage.codec.encode skdm))

def decodeMessage (bytes : Bytes) : Option DirectMessage :=
  match messageCodec.decode bytes with
  | none => none
  | some none => some ⟨bytes, none⟩
  | some (some skdm) =>
      (DistributionMessage.codec.decode skdm).map fun m => ⟨bytes, m.axolotl⟩

theorem decodeMessage_skdmPlain (groupJid : String) (skdmWire : Bytes) :
    decodeMessage (skdmPlain groupJid skdmWire) =
      some ⟨skdmPlain groupJid skdmWire, some skdmWire⟩ := by
  unfold decodeMessage
  rw [show messageCodec.decode (skdmPlain groupJid skdmWire) = _ from messageCodec.decode_encode _]
  dsimp only
  rw [DistributionMessage.codec.decode_encode]
  rfl

/-! ## 2. The source -/

/-- What is stored for a group under `__self__`. -/
inductive Stored where
  | absent
  | unreadable
  | state (s : SenderKeyState)

/-- A run of `send_group_message`, with what the rest of the program and the random generator give
    it. `devices` is what the account of a participant resolves to; `fanOut` says whether the
    envelopes can be made, and for which devices there is one; `marked` is the status update. -/
structure Attempt (κ : Type) where
  table : List LidPnRow
  participants : Except String (List (List Char))
  devices : List Char → List (List Char)
  own : Option (List Char)
  readable : Bool
  generated : κ
  skdmPad : UInt8
  pad : UInt8
  content : Bytes
  nonce : U8Array 64
  saves : Bool
  fanOut : Except String (List Char → Bool)
  marked : Except String Unit

/-- The text under the envelope of a device. -/
structure Recipient where
  jid : List Char
  padded : Bytes

structure GroupStanza where
  recipients : List Recipient
  skmsg : Bytes

/-- What a run leaves: its result, the stored state, the state it encrypted under, the stanza it
    shipped. -/
structure Sent where
  result : Except String Unit
  stored : Stored
  used : Option SenderKeyState
  stanza : Option GroupStanza

section

variable {κ : Type} (P : SenderKeyPrimitives) (sessionId groupJid : String)

/-- The devices are listed by phone number. -/
def resolved (a : Attempt κ) (p : List Char) : List Char :=
  if lidServer <:+ p then
    match lidToPn a.table sessionId (lidUserPart p) with
    | some pn => pn.text ++ pnServer
    | none => p
  else p

def deviceJids (a : Attempt κ) : Except String (List (List Char)) := do
  let participants ← a.participants
  if participants = [] then throw s!"group {groupJid} returned no participants"
  let jids := participants.flatMap fun p => a.devices (resolved sessionId a p)
  let jids := jids.foldl (fun seen d => if seen.contains d then seen else seen ++ [d]) []
  let jids := jids.filter fun d => !(a.own = some d)
  if jids = [] then throw s!"no participant devices resolved for {groupJid}"
  return jids

/-- The stored state, or a new one. -/
def loadOrGenerate (stored : Stored) (readable : Bool) (generated : SenderKeyState) :
    SenderKeyState :=
  match readable, stored with
  | true, .state s => s
  | _, _ => generated

/-- The two texts are padded, the message moves the chain on, the state is saved, and the envelopes
    are made. -/
def sendGroupMessage (stored : Stored) (generated : SenderKeyState) (a : Attempt κ) : Sent :=
  match deviceJids sessionId groupJid a with
  | .error e => ⟨.error e, stored, none, none⟩
  | .ok jids =>
      let state := loadOrGenerate stored a.readable generated
      let skdmWire := serializeDistributionWire state.distribution
      let skdmPadded := padMessage a.skdmPad (skdmPlain groupJid skdmWire)
      let (skmsg, next) := encryptSenderKeyMessage P state a.nonce (padMessage a.pad a.content)
      let stored := if a.saves then .state next else stored
      match a.fanOut with
      | .error e => ⟨.error e, stored, some state, none⟩
      | .ok reached =>
          let recipients := (jids.filter reached).map fun jid => ⟨jid, skdmPadded⟩
          ⟨a.marked, stored, some state, some ⟨recipients, skmsg⟩⟩

end

/-- What the 1:1 layer of the recipient makes of its envelope. -/
def Recipient.message (r : Recipient) : Option DirectMessage :=
  (unpadMessageV r.padded 2).toOption.bind decodeMessage

/-- The position that the recipient is told. -/
def Recipient.distribution (r : Recipient) : Option SenderKeyDistribution :=
  r.message.bind fun m => m.distribution.bind fun axolotl => (parseDistributionWire axolotl).toOption

/-- The part of a stanza that reaches a device: its own envelope, if it has one, and the message. -/
def GroupStanza.encs (s : GroupStanza) (device : List Char) : List Enc :=
  (s.recipients.filter fun r => r.jid = device).map (fun r => .direct r.message) ++
    [.skmsg 2 s.skmsg]

/-! ## 3. Runs -/

/-- A message that was encrypted: its number, and under what. -/
structure Produced (κ : Type) where
  number : κ × Nat
  signingPub : U8Array 32
  iteration : UInt32
  padded : Bytes

/-- A stanza that was shipped, with the number of its message and the text. -/
structure Shipped (κ : Type) where
  stanza : GroupStanza
  number : κ × Nat
  text : Bytes

/-- The keys that `generate` can make: each starts at iteration 0. -/
structure Generator (P : SenderKeyPrimitives) (κ : Type) extends KeyRing P κ where
  index_zero : ∀ g, (key g).chainKey.index = 0

/-- The sender and the devices of the group. `position` is the number that the stored state has
    ahead of it. -/
structure World (κ : Type) where
  stored : Stored
  position : Option (κ × Nat)
  generated : List κ
  produced : List (Produced κ)
  shipped : List (Shipped κ)
  members : List Char → Group.World κ

def World.start {κ : Type} : World κ := ⟨.absent, none, [], [], [], fun _ => .start⟩

inductive Event (κ : Type)
  | send (a : Attempt κ)
  | spoil
  | deliver (i : Nat) (device : List Char) (participant : Form)

section

variable {P : SenderKeyPrimitives} {κ : Type} [DecidableEq κ] (sessionId groupJid : String)

/-- The number that an attempt reads from the store. -/
def World.reads (w : World κ) (a : Attempt κ) : Option (κ × Nat) :=
  if a.readable then w.position else none

/-- The number that an attempt encrypts at: that, or the first of a new key. -/
def World.number (w : World κ) (a : Attempt κ) : κ × Nat := (w.reads a).getD (a.generated, 0)

def World.send (R : Generator P κ) (w : World κ) (a : Attempt κ) : World κ :=
  let sent := sendGroupMessage P sessionId groupJid w.stored (R.key a.generated) a
  match sent.used with
  | none => w
  | some state =>
      let number := w.number a
      { w with
        stored := sent.stored
        position := if a.saves then some (number.1, number.2 + 1) else w.position
        generated := if (w.reads a).isSome then w.generated else a.generated :: w.generated
        produced := ⟨number, state.signingKeypairPub, state.chainKey.index,
          padMessage a.pad a.content⟩ :: w.produced
        shipped := w.shipped ++ (sent.stanza.map fun stanza => ⟨stanza, number, a.content⟩).toList }

/-- What a delivery is to the device. -/
def Shipped.arrival (s : Shipped κ) (device : List Char) (participant : Form) : Group.Arrival κ :=
  ⟨participant, (s.stanza.recipients.filter fun r => r.jid = device).map fun _ => s.number,
    some s.number⟩

def World.deliver (P : SenderKeyPrimitives) (w : World κ) (s : Shipped κ) (device : List Char)
    (participant : Form) : World κ :=
  let member := w.members device
  let result := decryptGroupMessage P member.keys participant.jid (s.stanza.encs device)
  { w with members :=
      Function.update w.members device (member.receive (s.arrival device participant) s.text result) }

def World.step (R : Generator P κ) (w : World κ) : Event κ → Option (World κ)
  | .send a => some (w.send sessionId groupJid R a)
  | .spoil => some { w with stored := .unreadable, position := none }
  | .deliver i device participant => (w.shipped[i]?).map fun s => w.deliver P s device participant

/-- **The condition**: a state that is read is also saved and has an index left, a key that is made
    is new, and what reaches a device without its own distribution is within reach there. -/
def Proper (w : World κ) : Event κ → Prop
  | .send a => (∀ p ∈ w.reads a, a.saves = true ∧ p.2 + 1 < 2 ^ 32) ∧
      (w.reads a = none → a.generated ∉ w.generated)
  | .spoil => True
  | .deliver i device participant => ∀ s ∈ w.shipped[i]?,
      (∀ r ∈ s.stanza.recipients, r.jid ≠ device) →
        (w.members device).Reaches (s.arrival device participant)

instance (w : World κ) : (e : Event κ) → Decidable (Proper w e)
  | .send a => inferInstanceAs (Decidable ((∀ p ∈ w.reads a, a.saves = true ∧ p.2 + 1 < 2 ^ 32) ∧
      (w.reads a = none → a.generated ∉ w.generated)))
  | .spoil => inferInstanceAs (Decidable True)
  | .deliver i device participant => inferInstanceAs (Decidable (∀ s ∈ w.shipped[i]?,
      (∀ r ∈ s.stanza.recipients, r.jid ≠ device) →
        (w.members device).Reaches (s.arrival device participant)))

/-- The recipient is told the iteration of the message that comes with it, and the key. -/
def Positioned (P : SenderKeyPrimitives) (s : GroupStanza) (r : Recipient) : Prop :=
  ∃ dist, r.distribution = some dist ∧
    ∃ ct, openWire P dist.signingKey s.skmsg = .ok (dist.iteration, ct)

/-- **What is kept** in a state: no two texts under one iteration of a key, every
    recipient at the position of its message, no message lost by a device that it was due to. -/
structure Kept (P : SenderKeyPrimitives) (w : World κ) : Prop where
  once : ∀ m ∈ w.produced, ∀ m' ∈ w.produced,
    m.signingPub = m'.signingPub → m.iteration = m'.iteration → m.padded = m'.padded
  positioned : ∀ s ∈ w.shipped, ∀ r ∈ s.stanza.recipients, Positioned P s.stanza r
  read : ∀ device, (w.members device).lost = []

end

/-! ## 4. The invariant -/

section Sound

variable {P : SenderKeyPrimitives} {κ : Type} {R : Generator P κ} {sessionId groupJid : String}

/-- The sender's state at a number. -/
abbrev Generator.at (R : Generator P κ) (p : κ × Nat) : SenderKeyState := stateAt P (R.key p.1) p.2

theorem Generator.room (R : Generator P κ) (g : κ) {k : Nat} (h : k < 2 ^ 32) : Room (R.key g) k := by
  unfold Room
  rw [R.index_zero g]
  show 0 + k < 2 ^ 32
  omega

/-- Each number of a key has an iteration of its own. -/
theorem Generator.index_at (R : Generator P κ) {p : κ × Nat} (h : p.2 < 2 ^ 32) :
    (R.at p).chainKey.index.toNat = p.2 := by
  have hindex := index_chainAt P.hashing (R.room p.1 h)
  rw [R.index_zero p.1] at hindex
  exact hindex.trans (Nat.zero_add p.2)

/-- What a key signs verifies under it. -/
theorem openWire_ok {signingPub : U8Array 32} {wire : Bytes} {r : UInt32 × Bytes}
    (h : openWire P signingPub wire = .ok r) : signatureVerifies P signingPub wire = true := by
  cases hverify : signatureVerifies P signingPub wire with
  | true => rfl
  | false =>
      obtain ⟨e, he⟩ := openWire_unverified P hverify
      cases h.symm.trans he

/-- Different keys have different signing keys. -/
theorem Generator.signingPub_inj (R : Generator P κ) {g g' : κ}
    (h : (R.key g).signingKeypairPub = (R.key g').signingKeypairPub) : g = g' := by
  by_contra hne
  let nonce : U8Array 64 := .replicate 64 0
  have hsigning : (stateAt P (R.key g) 0).signingKeypairPub =
      P.xeddsa.pub (stateAt P (R.key g) 0).signingKeypairPriv := R.signing g
  have hopen : openWire P (R.key g).signingKeypairPub
      (encryptSenderKeyMessage P (stateAt P (R.key g) 0) nonce []).1 = _ :=
    openWire_encrypt P hsigning
  have hother := R.apart g g' 0 nonce [] hne
  rw [← h, openWire_ok hopen] at hother
  cases hother

/-- A stanza as `sendGroupMessage` makes it at its number. -/
def Made (R : Generator P κ) (groupJid : String) (s : Shipped κ) : Prop :=
  s.number.2 + 1 < 2 ^ 32 ∧ ∃ skdmPad pad nonce,
    s.stanza.skmsg =
      (encryptSenderKeyMessage P (R.at s.number) nonce (padMessage pad s.text)).1 ∧
    ∀ r ∈ s.stanza.recipients, r.padded = padMessage skdmPad
      (skdmPlain groupJid (serializeDistributionWire (R.at s.number).distribution))

/-- **The invariant.** -/
structure Sound (R : Generator P κ) (groupJid : String) (w : World κ) : Prop where
  stored : ∀ s, w.stored = .state s → ∃ p, w.position = some p ∧ s = R.at p
  position : ∀ p, w.position = some p → w.stored = .state (R.at p) ∧ p.1 ∈ w.generated ∧
    ∀ m ∈ w.produced, m.number.1 = p.1 → m.number.2 < p.2
  produced : ∀ m ∈ w.produced, m.number.1 ∈ w.generated ∧ m.number.2 + 1 < 2 ^ 32 ∧
    m.signingPub = (R.key m.number.1).signingKeypairPub ∧
    m.iteration = (R.at m.number).chainKey.index
  distinct : (w.produced.map (·.number)).Nodup
  made : ∀ s ∈ w.shipped, Made R groupJid s
  members : ∀ device, Group.Sound R.toKeyRing (w.members device).keys (w.members device).windows ∧
    (w.members device).lost = []

theorem sound_start (R : Generator P κ) (groupJid : String) : Sound R groupJid .start :=
  ⟨nofun, nofun, nofun, List.nodup_nil, nofun, fun _ => ⟨Group.sound_start R.toKeyRing, rfl⟩⟩

/-- A recipient reads the position that was distributed. -/
theorem Made.message {s : Shipped κ} (h : Made R groupJid s) {r : Recipient}
    (hr : r ∈ s.stanza.recipients) :
    let skdmWire := serializeDistributionWire (R.at s.number).distribution
    r.message = some ⟨skdmPlain groupJid skdmWire, some skdmWire⟩ := by
  obtain ⟨-, skdmPad, pad, nonce, -, hpadded⟩ := h
  unfold Recipient.message unpadMessageV
  rw [if_neg (by decide), hpadded r hr, unpadMessage_padMessage]
  exact decodeMessage_skdmPlain groupJid _

theorem Made.positioned {s : Shipped κ} (h : Made R groupJid s) :
    ∀ r ∈ s.stanza.recipients, Positioned P s.stanza r := by
  intro r hr
  have hmessage := h.message hr
  obtain ⟨-, skdmPad, pad, nonce, hskmsg, -⟩ := h
  refine ⟨(R.at s.number).distribution, ?_, ?_⟩
  · unfold Recipient.distribution
    rw [hmessage]
    simp only [Option.bind_some, parse_serialize]
    rfl
  · have hsigning : (R.at s.number).signingKeypairPub =
        P.xeddsa.pub (R.at s.number).signingKeypairPriv := R.signing s.number.1
    rw [hskmsg]
    exact ⟨_, openWire_encrypt P hsigning⟩

/-- **What is sound is kept.** -/
theorem Sound.kept {w : World κ} (h : Sound R groupJid w) : Kept P w := by
  refine ⟨fun m hm m' hm' hkey hiteration => ?_, fun s hs => (h.made s hs).positioned,
    fun device => (h.members device).2⟩
  obtain ⟨-, hroom, hpub, hindex⟩ := h.produced m hm
  obtain ⟨-, hroom', hpub', hindex'⟩ := h.produced m' hm'
  have hgeneration : m.number.1 = m'.number.1 :=
    R.signingPub_inj (hpub.symm.trans (hkey.trans hpub'))
  have hnumber : m.number.2 = m'.number.2 := by
    rw [← R.index_at (Nat.lt_of_succ_lt hroom), ← R.index_at (Nat.lt_of_succ_lt hroom'), ← hindex,
      ← hindex', hiteration]
  have hsame := List.inj_on_of_nodup_map h.distinct hm hm' (Prod.ext hgeneration hnumber)
  rw [hsame]

/-! ## 5. One attempt -/

/-- What a run of `send_group_message` does once the devices are known. -/
theorem sendGroupMessage_ok (stored : Stored) (generated : SenderKeyState) {a : Attempt κ}
    {jids : List (List Char)} (hjids : deviceJids sessionId groupJid a = .ok jids) :
    let sent := sendGroupMessage P sessionId groupJid stored generated a
    let state := loadOrGenerate stored a.readable generated
    let skmsg := encryptSenderKeyMessage P state a.nonce (padMessage a.pad a.content)
    sent.used = some state ∧ sent.stored = (if a.saves then .state skmsg.2 else stored) ∧
      ∀ stanza ∈ sent.stanza, stanza.skmsg = skmsg.1 ∧ ∀ r ∈ stanza.recipients,
        r.padded = padMessage a.skdmPad
          (skdmPlain groupJid (serializeDistributionWire state.distribution)) := by
  unfold sendGroupMessage
  rw [hjids]
  dsimp only
  cases a.fanOut with
  | error e => exact ⟨rfl, rfl, nofun⟩
  | ok reached =>
      refine ⟨rfl, rfl, fun stanza hstanza => ?_⟩
      cases hstanza
      refine ⟨rfl, fun r hr => ?_⟩
      obtain ⟨jid, -, rfl⟩ := List.mem_map.mp hr
      rfl

theorem sendGroupMessage_error (stored : Stored) (generated : SenderKeyState) {a : Attempt κ}
    {e : String} (hjids : deviceJids sessionId groupJid a = .error e) :
    (sendGroupMessage P sessionId groupJid stored generated a).used = none := by
  unfold sendGroupMessage
  rw [hjids]

section Attempt

variable {w : World κ} {a : Attempt κ}

theorem World.position_of_reads {p : κ × Nat} (h : w.reads a = some p) : w.position = some p := by
  unfold World.reads at h
  split at h
  · exact h
  · cases h

/-- The state that an attempt encrypts under is the one of its number. -/
theorem Sound.load (h : Sound R groupJid w) (a : Attempt κ) :
    loadOrGenerate w.stored a.readable (R.key a.generated) = R.at (w.number a) := by
  unfold World.number World.reads
  cases a.readable with
  | false => rfl
  | true =>
      cases hposition : w.position with
      | some p =>
          rw [(h.position p hposition).1]
          rfl
      | none =>
          cases hstored : w.stored with
          | absent => rfl
          | unreadable => rfl
          | state s =>
              obtain ⟨p, hp, -⟩ := h.stored s hstored
              cases hposition.symm.trans hp

/-- The keys that were made so far. -/
theorem Sound.known (h : Sound R groupJid w) (a : Attempt κ) :
    let generated := if (w.reads a).isSome then w.generated else a.generated :: w.generated
    (w.number a).1 ∈ generated ∧ ∀ g ∈ w.generated, g ∈ generated := by
  unfold World.number
  cases hreads : w.reads a with
  | some p => exact ⟨(h.position p (World.position_of_reads hreads)).2.1, fun g hg => hg⟩
  | none => exact ⟨List.mem_cons_self, fun g hg => List.mem_cons_of_mem _ hg⟩

variable [DecidableEq κ]

/-- The number of a proper attempt was not used, and those that were are behind it. -/
theorem Sound.number_new (h : Sound R groupJid w) (hproper : Proper w (.send a)) :
    (w.number a).2 + 1 < 2 ^ 32 ∧
      ∀ m ∈ w.produced, m.number.1 = (w.number a).1 → m.number.2 < (w.number a).2 := by
  obtain ⟨hread, hnew⟩ := hproper
  unfold World.number
  cases hreads : w.reads a with
  | some p =>
      exact ⟨(hread p hreads).2, (h.position p (World.position_of_reads hreads)).2.2⟩
  | none =>
      refine ⟨?_, fun m hm hgeneration => ?_⟩
      · show 0 + 1 < 2 ^ 32
        decide
      have hused := (h.produced m hm).1
      rw [hgeneration] at hused
      exact absurd hused (hnew hreads)

/-- An attempt that does not save has made a key of its own. -/
theorem Sound.unsaved (h : Sound R groupJid w) (hproper : Proper w (.send a))
    (hsaves : a.saves = false) {p : κ × Nat} (hp : w.position = some p) :
    (w.number a).1 ≠ p.1 := by
  obtain ⟨hread, hnew⟩ := hproper
  unfold World.number
  cases hreads : w.reads a with
  | some q => exact absurd (hsaves.symm.trans (hread q hreads).1) nofun
  | none =>
      intro hsame
      have hgenerated : a.generated = p.1 := hsame
      exact hnew hreads (hgenerated ▸ (h.position p hp).2.1)

/-- **An attempt keeps the invariant.** -/
theorem send_sound (h : Sound R groupJid w) (hproper : Proper w (.send a)) :
    Sound R groupJid (w.send sessionId groupJid R a) := by
  cases hjids : deviceJids sessionId groupJid a with
  | error e =>
      unfold World.send
      dsimp only
      rw [sendGroupMessage_error w.stored _ hjids]
      exact h
  | ok jids =>
      obtain ⟨hused, hstored, hstanza⟩ := sendGroupMessage_ok (P := P) w.stored
        (R.key a.generated) hjids
      rw [h.load a] at hused hstored hstanza
      obtain ⟨hroom, hbehind⟩ := h.number_new hproper
      obtain ⟨hknown, hold⟩ := h.known a
      have hnext : (encryptSenderKeyMessage P (R.at (w.number a)) a.nonce
          (padMessage a.pad a.content)).2 = R.at ((w.number a).1, (w.number a).2 + 1) := rfl
      unfold World.send
      dsimp only
      rw [hused, hstored, hnext]
      dsimp only
      refine ⟨fun s hs => ?_, fun p hp => ?_, fun m hm => ?_, ?_, fun s hs => ?_, h.members⟩
      · cases hsaves : a.saves with
        | true =>
            rw [hsaves, if_pos rfl] at hs
            cases hs
            exact ⟨_, rfl, rfl⟩
        | false =>
            rw [hsaves, if_neg (by decide)] at hs
            exact h.stored s hs
      · cases hsaves : a.saves with
        | true =>
            rw [hsaves, if_pos rfl] at hp
            cases hp
            refine ⟨rfl, hknown, fun m hm hgeneration => ?_⟩
            rcases List.mem_cons.mp hm with rfl | hm
            · exact Nat.lt_succ_self _
            · exact Nat.lt_succ_of_lt (hbehind m hm hgeneration)
        | false =>
            rw [hsaves, if_neg (by decide)] at hp
            obtain ⟨hstate, hgenerated, hbefore⟩ := h.position p hp
            refine ⟨hstate, hold _ hgenerated, fun m hm hgeneration => ?_⟩
            rcases List.mem_cons.mp hm with rfl | hm
            · exact absurd hgeneration (h.unsaved hproper hsaves hp)
            · exact hbefore m hm hgeneration
      · rcases List.mem_cons.mp hm with rfl | hm
        · exact ⟨hknown, hroom, rfl, rfl⟩
        · obtain ⟨hgenerated, hrest⟩ := h.produced m hm
          exact ⟨hold _ hgenerated, hrest⟩
      · rw [List.map_cons]
        refine List.nodup_cons.mpr ⟨fun hmem => ?_, h.distinct⟩
        obtain ⟨m, hm, hsame⟩ := List.mem_map.mp hmem
        have hlt := hbehind m hm (congrArg Prod.fst hsame)
        rw [hsame] at hlt
        exact Nat.lt_irrefl _ hlt
      · rcases List.mem_append.mp hs with hs | hs
        · exact h.made s hs
        · obtain ⟨stanza, hstanza', rfl⟩ := Option.map_eq_some_iff.mp (Option.mem_toList.mp hs)
          obtain ⟨hskmsg, hpadded⟩ := hstanza stanza hstanza'
          exact ⟨hroom, a.skdmPad, a.pad, a.nonce, hskmsg, hpadded⟩

end Attempt

/-! ## 6. One delivery -/

section Delivery

variable {w : World κ} {s : Shipped κ}

/-- A window that the stanza itself opens is at one of its positions. -/
theorem opened_at (participant : List Char) {announced : List (κ × Nat)} (hne : announced ≠ [])
    (windows : List Char → Option (κ × SkipWindow)) :
    ∃ p ∈ announced, announced.foldl (Group.openWindow participant) windows participant =
      some (p.1, .startAt p.2) := by
  induction announced generalizing windows with
  | nil => exact absurd rfl hne
  | cons p announced ih =>
      cases announced with
      | nil => exact ⟨p, List.mem_cons_self, Function.update_self ..⟩
      | cons q rest =>
          obtain ⟨r, hr, hwindow⟩ := ih (List.cons_ne_nil q rest)
            (Group.openWindow participant windows p)
          exact ⟨r, List.mem_cons_of_mem p hr, hwindow⟩

variable [DecidableEq κ]

/-- **A message that comes with its own distribution is within reach.** -/
theorem reaches_own (member : Group.World κ) (device : List Char) (participant : Form)
    (hown : ∃ r ∈ s.stanza.recipients, r.jid = device) :
    member.Reaches (s.arrival device participant) := by
  obtain ⟨r, hr, hjid⟩ := hown
  intro p hp _
  cases hp
  have hmem : r ∈ s.stanza.recipients.filter fun r => r.jid = device :=
    List.mem_filter.mpr ⟨hr, decide_eq_true hjid⟩
  have hne : (s.arrival device participant).announced ≠ [] :=
    List.ne_nil_of_mem (List.mem_map_of_mem hmem)
  obtain ⟨p, hp, hwindow⟩ := opened_at participant.jid hne member.windows
  obtain ⟨-, -, rfl⟩ := List.mem_map.mp hp
  refine ⟨_, hwindow, Or.inr ⟨Nat.le_refl _, ?_⟩⟩
  show s.number.2 - s.number.2 ≤ MAX_SKIPPED_SENDER_KEYS
  rw [Nat.sub_self]
  exact Nat.zero_le _

/-- **A delivery keeps the invariant.** -/
theorem deliver_sound (h : Sound R groupJid w) (hs : s ∈ w.shipped) (device : List Char)
    (participant : Form)
    (hreach : (∀ r ∈ s.stanza.recipients, r.jid ≠ device) →
      (w.members device).Reaches (s.arrival device participant)) :
    Sound R groupJid (w.deliver P s device participant) := by
  obtain ⟨hroom, skdmPad, pad, nonce, hskmsg, -⟩ := h.made s hs
  -- The device sees a sender that writes this one message at every number.
  let S : Group.GroupSender P κ :=
    { R.toKeyRing with
      post := fun _ _ => ⟨nonce, padMessage pad s.text, 2, s.text,
        unpadMessage_padMessage pad s.text⟩
      envelope := fun g j => skdmPlain groupJid
        (serializeDistributionWire (stateAt P (R.key g) j).distribution) }
  have hencs : s.stanza.encs device = (s.arrival device participant).encs S := by
    unfold GroupStanza.encs Group.Arrival.encs Shipped.arrival
    rw [List.map_map, hskmsg]
    refine congrArg (· ++ _) (List.map_congr_left fun r hr => ?_)
    rw [(h.made s hs).message (List.mem_filter.mp hr).1]
    rfl
  have hrange : (s.arrival device participant).InRange S.toKeyRing := by
    refine ⟨fun p hp => ?_, fun p hp => ?_⟩
    · obtain ⟨-, -, rfl⟩ := List.mem_map.mp hp
      exact R.room _ (Nat.lt_of_succ_lt hroom)
    · cases hp
      exact R.room _ hroom
  have hreaches : (w.members device).Reaches (s.arrival device participant) := by
    by_cases hown : ∃ r ∈ s.stanza.recipients, r.jid = device
    · exact reaches_own _ device participant hown
    · exact hreach fun r hr hjid => hown ⟨r, hr, hjid⟩
  obtain ⟨hmember, hlost⟩ := h.members device
  have hkept := Group.stanza_kept (S := S) hmember hrange
  rw [← hencs] at hkept
  refine ⟨h.stored, h.position, h.produced, h.distinct, h.made, fun other => ?_⟩
  unfold World.deliver
  by_cases hother : other = device
  · subst hother
    dsimp only
    rw [Function.update_self]
    exact ⟨hkept.1, hkept.2.mpr ⟨hlost, hreaches⟩⟩
  · dsimp only
    rw [Function.update_of_ne hother]
    exact h.members other

end Delivery

/-! ## 7. Whole runs -/

variable [DecidableEq κ] in
/-- **Sending to a group**, over every run of attempts, restarts and deliveries whose steps are
    proper. -/
theorem group_send_kept {events : List (Event κ)} {w : World κ}
    (hmeets : Meets (World.step sessionId groupJid R) Proper .start events)
    (hrun : runFrom (World.step sessionId groupJid R) .start events = some w) : Kept P w := by
  have hkeep : ∀ w e w', Sound R groupJid w → Proper w e →
      World.step sessionId groupJid R w e = some w' → Sound R groupJid w' := by
    intro w e w' hsound hproper hstep
    cases e with
    | send a =>
        cases hstep
        exact send_sound hsound hproper
    | spoil =>
        cases hstep
        exact ⟨nofun, nofun, hsound.produced, hsound.distinct, hsound.made, hsound.members⟩
    | deliver i device participant =>
        obtain ⟨s, hs, rfl⟩ := Option.map_eq_some_iff.mp hstep
        exact deliver_sound hsound (List.mem_of_getElem? hs) device participant (hproper s hs)
  exact (run_invariant hkeep (sound_start R groupJid) hmeets hrun).kept

end Sound

/-! ### Three runs with their real bytes -/

namespace Sample

open SenderKey.Known (key₀ key₁ iv₀ iv₁ rotatedKey rotatedIv rotatedPub signingPub signers)
open Group.Sample (byNumber byLid ring)

def aCt : Bytes := toBE 16 0xa969e41e17144534aef203736e135cc6
def bCt : Bytes := toBE 16 0x8e2dce51b495ae1047226f5c3520f7b8
def cCt : Bytes := toBE 16 0x70a7733a1b17741368ec9c8d6bffe587
def dCt : Bytes := toBE 16 0x8595555bd0efcc11ee301db889c873b7

/-- The nonces are zero. -/
def signatures : List ((U8Array 32 × Bytes) × U8Array 64) :=
  [((signingPub, [0x33, 8, 7, 0x10, 0, 0x1a, 16] ++ aCt), .ofNat 64
      0x6a3986f5bfa670234f9dde46c1fb3e44d1f023ab99abf645cfef727c520937fbe72e9f210fd6f9b81207a7ad4113f34796ca91a51229f94e373bdabf71fb8405),
    ((signingPub, [0x33, 8, 7, 0x10, 1, 0x1a, 16] ++ bCt), .ofNat 64
      0x2c7ed0f6a1e96b54b583e13f04190ca59992cc5efdadb7def345732f7b849ae085c30c395cd8145171e0f4f2e15011fffedfda3e1528edd5a50d6491e41f960e),
    ((signingPub, [0x33, 8, 7, 0x10, 1, 0x1a, 16] ++ cCt), .ofNat 64
      0x8e2fe4d210736d439d64b0e90c6bb80c74271ecc0bdccc6f927663b7158e7eaf007007d4a99cef229565b7df9123ba572235b00eb7215d48d6264f95da779802),
    ((rotatedPub, [0x33, 8, 9, 0x10, 0, 0x1a, 16] ++ dCt), .ofNat 64
      0x4ace092de5e0905a237f9c0e189117e71e24317c73c6b31052e18e4755c64f14cc459f44ea76cf3f7c762b8acb85553438fad44a0f7505fb449b91772672e70d)]

/-- The letters are padded with one byte. -/
def primitives : SenderKeyPrimitives where
  hashing := SenderKey.Known.hashing
  cbc := .ofTable [⟨(key₀, iv₀), utf8 "a" ++ [1], aCt⟩, ⟨(key₁, iv₁), utf8 "b" ++ [1], bCt⟩,
    ⟨(key₁, iv₁), utf8 "c" ++ [1], cCt⟩, ⟨(rotatedKey, rotatedIv), utf8 "d" ++ [1], dCt⟩]
  xeddsa := .ofTable signers signatures
  proto := SenderKeyMessageProto.codec
  encode_ne_nil := SenderKeyMessageProto.encode_ne_nil

def generator : Generator primitives Bool where
  key := ring
  signing := Group.Sample.ring_pub
  apart := Group.Sample.ring_apart rfl (by decide +kernel) (by decide +kernel)
  index_zero g := by cases g <;> rfl

def account : List Char := "31612345678@s.whatsapp.net".toList
def phone : List Char := "31612345678:1@s.whatsapp.net".toList

/-- A send to the one device of the one participant. -/
def sending (content : String) (generated saves reaches : Bool) : Event Bool :=
  .send
    { table := []
      participants := .ok [account]
      devices := fun _ => [phone]
      own := none
      readable := true
      generated
      skdmPad := 1
      pad := 1
      content := utf8 content
      nonce := .replicate 64 0
      saves
      fanOut := .ok fun _ => reaches
      marked := .ok () }

def run (events : List (Event Bool)) : Option (World Bool) :=
  runFrom (World.step "s" "g@g.us" generator) .start events

/-- The second message comes without a distribution, and the third under a key of its own: the
    state that was stored can no longer be read. -/
def followed : List (Event Bool) :=
  [sending "a" false true true, sending "b" false true false, .deliver 0 phone byLid,
    .deliver 1 phone byLid, .spoil, sending "d" true true true, .deliver 2 phone byLid]

/-- The second save fails, and a third message is sent. -/
def unsaved : List (Event Bool) :=
  [sending "a" false true true, sending "b" false false true, sending "c" false true true]

/-- The second message comes from the other address. -/
def readdressed : List (Event Bool) :=
  [sending "a" false true true, sending "b" false true false, .deliver 0 phone byNumber,
    .deliver 1 phone byLid]

end Sample

/-- Two messages under one iteration of a key, and a message that a device cannot read. -/
theorem group_send_reused :
    (∃ w, Sample.run Sample.unsaved = some w ∧ ¬Kept Sample.primitives w) ∧
      ∃ w, Sample.run Sample.readdressed = some w ∧ ¬Kept Sample.primitives w := by
  have hunsaved : (Sample.run Sample.unsaved).any (fun w => decide (∃ m ∈ w.produced,
      ∃ m' ∈ w.produced, m.signingPub = m'.signingPub ∧ m.iteration = m'.iteration ∧
        m.padded ≠ m'.padded)) = true := by
    decide +kernel
  have hlost : (Sample.run Sample.readdressed).any
      (fun w => decide ((w.members Sample.phone).lost ≠ [])) = true := by
    decide +kernel
  obtain ⟨w, hw, hfound⟩ := (Option.any_eq_true _ _).mp hunsaved
  obtain ⟨m, hm, m', hm', hkey, hiteration, hne⟩ := of_decide_eq_true hfound
  obtain ⟨w', hw', hmissing⟩ := (Option.any_eq_true _ _).mp hlost
  refine ⟨⟨w, hw, fun hkept => ?_⟩, w', hw', fun hkept => ?_⟩
  · exact hne (hkept.once m hm m' hm' hkey hiteration)
  · exact of_decide_eq_true hmissing (hkept.read Sample.phone)

/-- A message without a distribution is read after one that had it, and one under a new key. -/
theorem group_send_kept_followed :
    ∃ w, Sample.run Sample.followed = some w ∧
      (w.members Sample.phone).delivered = [(true, 0), (false, 1), (false, 0)] ∧ Kept Sample.primitives w := by
  obtain ⟨w, hw, hdelivered⟩ := Option.map_eq_some_iff.mp
    (show (Sample.run Sample.followed).map (fun w => (w.members Sample.phone).delivered) =
      some [(true, 0), (false, 1), (false, 0)] by decide +kernel)
  have hmeets : Meets (World.step "s" "g@g.us" Sample.generator) Proper .start Sample.followed := by
    decide +kernel
  exact ⟨w, hw, hdelivered, group_send_kept hmeets hw⟩

end Ruwa.Session.GroupSend
