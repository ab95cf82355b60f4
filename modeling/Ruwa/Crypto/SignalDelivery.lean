/-
  File:      Ruwa/Crypto/SignalDelivery.lean
  Subject:   DELIVERY in the double ratchet: two sessions, and any order of what they send.

  The two sessions never agree on a root key: each step of a receiver moves its root twice, and the
  step of the peer that goes with it comes later. What they share is a LADDER of epochs. Epoch 0 is
  the chain Alice starts with; each further epoch is the sender chain of the party that received
  from the epoch before, and its root and chain key come from that epoch's root and one shared
  secret. One party stands on the last epoch, the other on the one before it.

  * `Ladder`, `PartyInv`, `ReadsEpoch` -- the epochs, a party on its epoch, a chain that reads one;
  * `WorldInv` -- the invariant of both parties (`Phase`) and of everything under way (`Accounted`);
    `worldInv_send`, `worldInv_deliver` are one event, `worldInv_run` any order of them;
  * **`double_ratchet_delivery`** -- every message that is delivered while its chain can still be
    read opens to its plaintext.

  The counter of a chain is a `u32`: a chain that has carried 2^32 messages starts over, and
  `message_after_wrap_lost` is a message that is lost there.
-/
import Ruwa.Crypto.SignalChain

namespace Ruwa.Crypto.Signal

open Ruwa.Library
open Ruwa.Library.Text
open Ruwa.Crypto

variable (P : SignalPrimitives)

/-! ## 1. Two parties -/

inductive Party
  | alice
  | bob
  deriving DecidableEq

def Party.other : Party → Party
  | alice => bob
  | bob => alice

/-- The private keys of both parties before the session. -/
structure KeyMaterial where
  aliceIdentity : U8Array 32
  aliceBase : U8Array 32
  aliceRatchet : U8Array 32
  bobIdentity : U8Array 32
  bobSignedPrekey : U8Array 32
  bobOneTimePrekey : Option (U8Array 32)

namespace KeyMaterial

def identity (k : KeyMaterial) : Party → U8Array 32
  | .alice => P.x25519.pub k.aliceIdentity
  | .bob => P.x25519.pub k.bobIdentity

def aliceParameters (k : KeyMaterial) : AliceParameters where
  localIdentityPriv := k.aliceIdentity
  localIdentityPub := k.identity P .alice
  localBasePriv := k.aliceBase
  localBasePub := P.x25519.pub k.aliceBase
  localRatchetPriv := k.aliceRatchet
  localRatchetPub := P.x25519.pub k.aliceRatchet
  remoteIdentityPub := k.identity P .bob
  remoteSignedPrekeyPub := P.x25519.pub k.bobSignedPrekey
  remoteOneTimePrekeyPub := k.bobOneTimePrekey.map P.x25519.pub

/-- Bob takes the keys of Alice from the envelope. -/
def bobParameters (k : KeyMaterial) (info : PreKeyMessageInfo) : BobParameters where
  localIdentityPriv := k.bobIdentity
  localIdentityPub := k.identity P .bob
  localSignedPrekeyPriv := k.bobSignedPrekey
  localOneTimePrekeyPriv := k.bobOneTimePrekey
  remoteIdentityPub := info.identityKeyPub
  remoteBasePub := info.baseKeyPub
  remoteRatchetPub := info.innerRatchetPub

end KeyMaterial

/-- A message that was sent. -/
structure Sent where
  sender : Party
  plaintext : Bytes
  wire : Bytes

/-- Both sessions, the ratchet keys each has ever had a receiver chain for, what was sent, and for
    each delivery the number of its message and what `decrypt` returned. -/
structure World where
  session : Party → SessionState
  heard : Party → List (U8Array 32)
  sent : List Sent
  opened : List (Nat × Except SignalError Bytes)

/-- What can happen next: a party sends, or a message arrives. Each draws a private key. -/
inductive Event
  | send (sender : Party) (plaintext : Bytes) (fresh : U8Array 32)
  | deliver (number : Nat) (fresh : U8Array 32)

namespace Event

def fresh : Event → U8Array 32
  | send _ _ fresh => fresh
  | deliver _ fresh => fresh

/-- The message that a send adds. -/
def said : Event → Option (Party × Bytes)
  | send sender plaintext _ => some (sender, plaintext)
  | deliver _ _ => none

def delivered : Event → Option Nat
  | send _ _ _ => none
  | deliver number _ => some number

end Event

namespace World

def setSession (w : World) (p : Party) (state : SessionState) : World :=
  { w with
    session := Function.update w.session p state
    heard := Function.update w.heard p
      (w.heard p ++ state.receiverChains.map ReceiverChain.remoteRatchetPub) }

def step (w : World) : Event → World
  | .send sender plaintext fresh =>
      match encrypt P (w.session sender) fresh plaintext with
      | (.error _, state) => w.setSession sender state
      | (.ok m, state) =>
          { w.setSession sender state with sent := w.sent ++ [⟨sender, plaintext, m.serialized⟩] }
  | .deliver number fresh =>
      match w.sent[number]? with
      | none => w
      | some m =>
          let (res, state) := decrypt P (w.session m.sender.other) fresh m.wire
          { w.setSession m.sender.other state with opened := w.opened ++ [(number, res)] }

def run (w : World) (events : List Event) : World := events.foldl (step P) w

end World

/-- Alice starts a session and wraps her first message; Bob opens the envelope and builds his. The
    message inside it is the first one under way. -/
def startWorld (k : KeyMaterial) (plaintext : Bytes) (registrationId signedPreKeyId : UInt32)
    (oneTimePreKeyId : Option UInt32) : Option World :=
  let alice := initiateAlice P (k.aliceParameters P)
  match encryptPreKey P alice k.aliceRatchet plaintext registrationId
      (P.x25519.pub k.aliceBase) (k.identity P .alice) signedPreKeyId oneTimePreKeyId with
  | (.error _, _) => none
  | (.ok pkm, alice) =>
      match parsePreKeyMessage P pkm.serialized with
      | .error _ => none
      | .ok info =>
          let bob := processBob P (k.bobParameters P info)
          some {
            session := fun
              | .alice => alice
              | .bob => bob
            heard := fun
              | .alice => alice.receiverChains.map ReceiverChain.remoteRatchetPub
              | .bob => bob.receiverChains.map ReceiverChain.remoteRatchetPub
            sent := [⟨.alice, plaintext, info.innerWhisperWire⟩]
            opened := [] }

/-- The chain of a message can be read: it is one that the receiver has, or one that it never had
    and will put in front; and the keys to keep stay within the limit. -/
def Readable (receiver : SessionState) (heard : List (U8Array 32)) (m : WhisperMessage) : Prop :=
  match chainIdx receiver.receiverChains m.ratchetPub with
  | some idx => ∀ rc, receiver.receiverChains[idx]? = some rc → Reaches rc m.counter
  | none => m.ratchetPub ∉ heard ∧ m.counter.toNat ≤ MAX_SKIPPED_MESSAGE_KEYS

/-- What an event must meet: a sender has an index left for the message after this one, and a
    message arrives once, while its chain can be read. -/
def Permitted (w : World) : Event → Prop
  | .send sender _ _ =>
      ∀ chain, (w.session sender).senderChain = some chain → chain.index.toNat + 1 < 2 ^ 32
  | .deliver number _ =>
      number ∉ w.opened.map Prod.fst ∧
        match w.sent[number]? with
        | none => False
        | some s =>
            match parseWire P s.wire with
            | .error _ => False
            | .ok m => Readable (w.session s.sender.other) (w.heard s.sender.other) m

def AllPermitted (w : World) : List Event → Prop
  | [] => True
  | e :: es => Permitted P w e ∧ AllPermitted (w.step P e) es

instance (receiver : SessionState) (heard : List (U8Array 32)) (m : WhisperMessage) :
    Decidable (Readable receiver heard m) := by
  unfold Readable
  split
  · rename_i idx _
    exact inferInstanceAs (Decidable (∀ rc ∈ receiver.receiverChains[idx]?, Reaches rc m.counter))
  · infer_instance

instance (w : World) (e : Event) : Decidable (Permitted P w e) := by
  cases e with
  | send sender _ _ =>
      exact inferInstanceAs (Decidable (∀ chain ∈ (w.session sender).senderChain,
        chain.index.toNat + 1 < 2 ^ 32))
  | deliver number _ =>
      refine @instDecidableAnd _ _ _ ?_
      split
      · infer_instance
      · split <;> infer_instance

instance decidableAllPermitted (w : World) :
    (events : List Event) → Decidable (AllPermitted P w events)
  | [] => inferInstanceAs (Decidable True)
  | e :: es =>
      have := decidableAllPermitted (w.step P e) es
      inferInstanceAs (Decidable (_ ∧ _))

/-! ## 2. The ladder -/

/-- The private key an epoch starts with, and the root and the chain key after its step. -/
structure Epoch where
  priv : U8Array 32
  root : U8Array 32
  chain : U8Array 32

/-- The epoch that a private key adds on top of `e`. -/
def Epoch.next (e : Epoch) (priv : U8Array 32) : Epoch :=
  let (root, chain) := ratchetRootStep P e.root (P.x25519.dh priv (P.x25519.pub e.priv))
  ⟨priv, root, chain⟩

def Epoch.pub (e : Epoch) : U8Array 32 := P.x25519.pub e.priv

/-- Each epoch is the next of the one before, and no two start with the same public key. -/
structure Ladder (es : List Epoch) : Prop where
  step : ∀ (i : Nat) (e e' : Epoch), es[i]? = some e → es[i + 1]? = some e' → e' = e.next P e'.priv
  pubs : (es.map (Epoch.pub P)).Nodup

/-- A party's sender half stands on an epoch, `count` messages on. -/
structure StandsOn (e : Epoch) (count : Nat) (state : SessionState) : Prop where
  root : state.rootKey = e.root
  priv : state.senderRatchetPriv = some e.priv
  pub : state.senderRatchetPub = some (e.pub P)
  chain : state.senderChain = some (chainAt P.hashing ⟨e.chain, 0⟩ count)

/-- A receiver chain reads an epoch, with a window of what it has left to accept. -/
def ReadsEpoch (es : List Epoch) (rc : ReceiverChain) (entry : Numbered) : Prop :=
  ∃ e, es[entry.1]? = some e ∧ ChainInStep P e.chain entry.2 rc ∧ rc.remoteRatchetPub = e.pub P

/-- A party that has sent: it stands on epoch `i`, and its newest receiver chain is the one before.
    No message of the epoch has a counter from `count` on. -/
structure PartyInv (es : List Epoch) (addrs : List (Nat × Nat)) (i count : Nat)
    (state : SessionState) (ws : List Numbered) : Prop where
  stands : ∃ e, es[i]? = some e ∧ StandsOn P e count state
  newest : (ws.map Prod.fst).head? = if i = 0 then none else some (i - 1)
  below : ∀ c, (i, c) ∈ addrs → c < count
  fits : count < 2 ^ 32

/-- Bob before he has sent: he has stepped to epoch 0, and reads it. -/
structure Waiting (es : List Epoch) (state : SessionState) (ws : List Numbered) : Prop where
  root : ∃ e, es[0]? = some e ∧ state.rootKey = e.root
  chain : state.senderChain = none
  pub : state.senderRatchetPub = none
  newest : (ws.map Prod.fst).head? = some 0

/-- Where the two parties stand: on the last two epochs, or Alice on the first and Bob on none. -/
inductive Phase (es : List Epoch) (addrs : List (Nat × Nat)) (session : Party → SessionState)
    (ws : Party → List Numbered) : Prop
  | waiting (count : Nat) (hlen : es.length = 1)
      (halice : PartyInv P es addrs 0 count (session .alice) (ws .alice))
      (hbob : Waiting es (session .bob) (ws .bob))
  | running (last : Party) (n count count' : Nat) (hlen : es.length = n + 2)
      (hlast : PartyInv P es addrs (n + 1) count (session last) (ws last))
      (hother : PartyInv P es addrs n count' (session last.other) (ws last.other))

/-- A message under way: sealed by its sender with the keys at its address. -/
def SentAt (k : KeyMaterial) (es : List Epoch) (s : Sent) (addr : Nat × Nat) : Prop :=
  ∃ e previousCounter, es[addr.1]? = some e ∧ addr.2 + 1 < 2 ^ 32 ∧
    s.wire = sealMessage P (k.identity P s.sender) (k.identity P s.sender.other) (e.pub P)
      previousCounter (keysAt P e.chain addr.2) s.plaintext

/-- Everything under way is accounted for. Each message has an address, its epoch and its counter;
    what a window has seen was delivered; and a message whose sender has moved on from its chain
    is on a chain that the receiver has heard of. -/
structure Accounted (k : KeyMaterial) (es : List Epoch) (addrs : List (Nat × Nat))
    (ws : Party → List Numbered) (w : World) : Prop where
  ids : ∀ p, (w.session p).localIdentityPub = k.identity P p ∧
    (w.session p).remoteIdentityPub = k.identity P p.other
  ladder : Ladder P es
  reads : ∀ p, List.Forall₂ (ReadsEpoch P es) (w.session p).receiverChains (ws p)
  heard : ∀ p, ∀ rc ∈ (w.session p).receiverChains, rc.remoteRatchetPub ∈ w.heard p
  sent : List.Forall₂ (SentAt P k es) w.sent addrs
  distinct : addrs.Nodup
  older : ∀ s ∈ w.sent, ∀ m, parseWire P s.wire = .ok m →
    (w.session s.sender).senderRatchetPub = some m.ratchetPub ∨
      m.ratchetPub ∈ w.heard s.sender.other
  seen : ∀ p, ∀ entry ∈ ws p, ∀ c, entry.2.Seen c →
    ∃ number ∈ w.opened.map Prod.fst, addrs[number]? = some (entry.1, c)
  right : ∀ o ∈ w.opened, ∃ s, w.sent[o.1]? = some s ∧ o.2 = .ok s.plaintext

/-- **The invariant of both parties** and of everything under way. -/
structure WorldInv (k : KeyMaterial) (es : List Epoch) (addrs : List (Nat × Nat))
    (ws : Party → List Numbered) (w : World) : Prop where
  accounted : Accounted P k es addrs ws w
  phase : Phase P es addrs w.session ws

/-! ## 3. A longer ladder -/

section Grow

variable {P} {k : KeyMaterial} {es : List Epoch} {addrs : List (Nat × Nat)}

theorem Ladder.epoch_of_pub (h : Ladder P es) {i j : Nat} {e e' : Epoch} (he : es[i]? = some e)
    (he' : es[j]? = some e') (hpub : e.pub P = e'.pub P) : i = j :=
  index_of_nodup_map h.pubs he he' hpub

theorem Ladder.grow (h : Ladder P es) {n : Nat} {e : Epoch} (hlen : es.length = n + 1)
    (he : es[n]? = some e) {fresh : U8Array 32} (hfresh : P.x25519.pub fresh ∉ es.map (Epoch.pub P)) :
    Ladder P (es ++ [e.next P fresh]) where
  step := by
    intro i a b ha hb
    have hi : i + 1 < (es ++ [e.next P fresh]).length := (List.getElem?_eq_some_iff.mp hb).1
    rw [List.length_append, hlen, List.length_singleton] at hi
    rw [List.getElem?_append_left (by omega)] at ha
    by_cases hold : i + 1 < es.length
    · rw [List.getElem?_append_left hold] at hb
      exact h.step i a b ha hb
    · have hin : i = n := by omega
      subst hin
      rw [← hlen, List.getElem?_concat_length] at hb
      cases hb
      cases he.symm.trans ha
      rfl
  pubs := by
    rw [List.map_append]
    refine List.Nodup.append h.pubs (List.nodup_singleton _) ?_
    intro pub hmem hmem'
    cases List.mem_singleton.mp hmem'
    exact hfresh hmem

theorem ReadsEpoch.grow {rc : ReceiverChain} {entry : Numbered} (h : ReadsEpoch P es rc entry)
    (e : Epoch) : ReadsEpoch P (es ++ [e]) rc entry := by
  obtain ⟨e', he', hrest⟩ := h
  exact ⟨e', getElem?_append_of_some he', hrest⟩

theorem SentAt.grow {s : Sent} {addr : Nat × Nat} (h : SentAt P k es s addr) (e : Epoch) :
    SentAt P k (es ++ [e]) s addr := by
  obtain ⟨e', previousCounter, he', hrest⟩ := h
  exact ⟨e', previousCounter, getElem?_append_of_some he', hrest⟩

theorem PartyInv.grow {i count : Nat} {state : SessionState} {ws : List Numbered}
    (h : PartyInv P es addrs i count state ws) (e : Epoch) :
    PartyInv P (es ++ [e]) addrs i count state ws := by
  obtain ⟨e', he', hstands⟩ := h.stands
  exact ⟨⟨e', getElem?_append_of_some he', hstands⟩, h.newest, h.below, h.fits⟩

/-- Every address lies on the ladder. -/
theorem Accounted.epoch_lt {ws : Party → List Numbered} {w : World}
    (h : Accounted P k es addrs ws w) {addr : Nat × Nat} (haddr : addr ∈ addrs) :
    addr.1 < es.length := by
  obtain ⟨s, -, e, -, he, -⟩ := forall₂_mem_right h.sent haddr
  exact (List.getElem?_eq_some_iff.mp he).1

theorem Accounted.grow {ws : Party → List Numbered} {w : World} (h : Accounted P k es addrs ws w)
    {e : Epoch} (hladder : Ladder P (es ++ [e])) : Accounted P k (es ++ [e]) addrs ws w :=
  { h with
    ladder := hladder
    reads := fun p => (h.reads p).imp fun _ _ hread => hread.grow e
    sent := h.sent.imp fun _ _ hsent => hsent.grow e }

end Grow

/-! ## 4. What an event changes -/

section Account

variable {P} {k : KeyMaterial} {es : List Epoch} {addrs : List (Nat × Nat)}
  {ws : Party → List Numbered} {w : World}

theorem Party.other_ne (p : Party) : p.other ≠ p := by cases p <;> decide

theorem Party.other_other (p : Party) : p.other.other = p := by cases p <;> rfl

/-- What holds of each party holds after one of them has changed. -/
theorem forall_update {α β : Type} {s : Party → α} {t : Party → β} {C : Party → α → β → Prop}
    (h : ∀ q, C q (s q) (t q)) {p : Party} {a : α} {b : β} (hp : C p a b) (q : Party) :
    C q (Function.update s p a q) (Function.update t p b q) := by
  by_cases hq : q = p
  · subst hq
    rw [Function.update_self, Function.update_self]
    exact hp
  · rw [Function.update_of_ne hq, Function.update_of_ne hq]
    exact h q

theorem mem_heard_setSession {p q : Party} {state : SessionState} {pub : U8Array 32}
    (h : pub ∈ w.heard q) : pub ∈ (w.setSession p state).heard q := by
  show pub ∈ Function.update w.heard p _ q
  by_cases hq : q = p
  · subst hq
    rw [Function.update_self]
    exact List.mem_append_left _ h
  · rw [Function.update_of_ne hq]
    exact h

/-- A party's session moves on. A sender chain that it leaves has been heard by the peer. -/
theorem Accounted.setSession (h : Accounted P k es addrs ws w) {p : Party} {state : SessionState}
    {entries : List Numbered}
    (hids : state.localIdentityPub = k.identity P p ∧
      state.remoteIdentityPub = k.identity P p.other)
    (hreads : List.Forall₂ (ReadsEpoch P es) state.receiverChains entries)
    (hpub : ∀ pub, (w.session p).senderRatchetPub = some pub →
      state.senderRatchetPub = some pub ∨ pub ∈ w.heard p.other)
    (hseen : ∀ entry ∈ entries, ∀ c, entry.2.Seen c →
      ∃ number ∈ w.opened.map Prod.fst, addrs[number]? = some (entry.1, c)) :
    Accounted P k es addrs (Function.update ws p entries) (w.setSession p state) where
  ids := forall_update (t := w.session) (b := state)
    (C := fun q (s : SessionState) _ => s.localIdentityPub = k.identity P q ∧
      s.remoteIdentityPub = k.identity P q.other) h.ids hids
  ladder := h.ladder
  reads := forall_update (C := fun _ (s : SessionState) es' =>
    List.Forall₂ (ReadsEpoch P es) s.receiverChains es') h.reads hreads
  heard := forall_update (C := fun _ (s : SessionState) heard =>
    ∀ rc ∈ s.receiverChains, rc.remoteRatchetPub ∈ heard) h.heard fun _ hrc =>
      List.mem_append_right _ (List.mem_map_of_mem hrc)
  sent := h.sent
  distinct := h.distinct
  older s hs m hm := by
    show (Function.update w.session p state s.sender).senderRatchetPub = _ ∨ _
    rcases h.older s hs m hm with hcurrent | hheard
    · by_cases hp : s.sender = p
      · rw [hp, Function.update_self]
        rw [hp] at hcurrent
        exact (hpub _ hcurrent).imp id mem_heard_setSession
      · rw [Function.update_of_ne hp]
        exact Or.inl hcurrent
    · exact Or.inr (mem_heard_setSession hheard)
  seen := forall_update (t := w.session) (b := state)
    (C := fun _ (es' : List Numbered) _ => ∀ entry ∈ es', ∀ c, entry.2.Seen c →
      ∃ number ∈ w.opened.map Prod.fst, addrs[number]? = some (entry.1, c)) h.seen hseen
  right := h.right

/-- A message joins what is under way, on the chain its sender stands on. -/
theorem Accounted.send (h : Accounted P k es addrs ws w) {p : Party} {e : Epoch} {i count : Nat}
    {plaintext : Bytes} {previousCounter : UInt32}
    (hpub : (w.session p).senderRatchetPub = some (e.pub P)) (he : es[i]? = some e)
    (hnew : (i, count) ∉ addrs) (hfits : count + 1 < 2 ^ 32) :
    Accounted P k es (addrs ++ [(i, count)]) ws { w with
      sent := w.sent ++ [⟨p, plaintext, sealMessage P (k.identity P p) (k.identity P p.other)
        (e.pub P) previousCounter (keysAt P e.chain count) plaintext⟩] } where
  ids := h.ids
  ladder := h.ladder
  reads := h.reads
  heard := h.heard
  sent := List.rel_append h.sent (.cons ⟨e, previousCounter, he, hfits, rfl⟩ .nil)
  distinct := h.distinct.append (List.nodup_singleton _) fun addr hmem hmem' => by
    cases List.mem_singleton.mp hmem'
    exact hnew hmem
  older s hs m hm := by
    rcases List.mem_append.mp hs with hold | hlast
    · exact h.older s hold m hm
    · cases List.mem_singleton.mp hlast
      rw [parseWire_sealMessage] at hm
      cases hm
      exact Or.inl hpub
  seen q entry hentry c hc := by
    obtain ⟨number, hnumber, haddr⟩ := h.seen q entry hentry c hc
    exact ⟨number, hnumber, getElem?_append_of_some haddr⟩
  right o ho := by
    obtain ⟨s, hs, hres⟩ := h.right o ho
    exact ⟨s, getElem?_append_of_some hs, hres⟩

/-- A delivery that returned what was sent. -/
theorem Accounted.opens (h : Accounted P k es addrs ws w) {number : Nat} {s : Sent}
    (hs : w.sent[number]? = some s) :
    Accounted P k es addrs ws { w with opened := w.opened ++ [(number, .ok s.plaintext)] } :=
  { h with
    seen := fun q entry hentry c hc => by
      obtain ⟨number', hnumber, haddr⟩ := h.seen q entry hentry c hc
      exact ⟨number', List.map_append ▸ List.mem_append_left _ hnumber, haddr⟩
    right := fun o ho => by
      rcases List.mem_append.mp ho with hold | hlast
      · exact h.right o hold
      · cases List.mem_singleton.mp hlast
        exact ⟨s, hs, rfl⟩ }

end Account

/-- What an event leaves for the next: a ladder as before or longer by the key it drew, and one
    message more, or one delivery. -/
structure After (P : SignalPrimitives) (k : KeyMaterial) (es : List Epoch) (w : World) (e : Event) :
    Prop where
  inv : ∃ es' addrs' ws', WorldInv P k es' addrs' ws' (w.step P e) ∧
    (es' = es ∨ es'.map (Epoch.pub P) = es.map (Epoch.pub P) ++ [P.x25519.pub e.fresh])
  sent : (w.step P e).sent.map (fun s => (s.sender, s.plaintext)) =
    w.sent.map (fun s => (s.sender, s.plaintext)) ++ e.said.toList
  opened : (w.step P e).opened.map Prod.fst = w.opened.map Prod.fst ++ e.delivered.toList

/-! ## 5. A send -/

section Send

variable {P} {k : KeyMaterial} {es : List Epoch} {addrs : List (Nat × Nat)}
  {ws : Party → List Numbered} {w : World}

/-- What a send does to the world, as the step has it. -/
theorem step_send {p : Party} {fresh : U8Array 32} {plaintext : Bytes} {m : CiphertextMessage}
    {state : SessionState}
    (h : encrypt P (w.session p) fresh plaintext = (.ok m, state)) :
    w.step P (.send p plaintext fresh) =
      { w.setSession p state with sent := w.sent ++ [⟨p, plaintext, m.serialized⟩] } := by
  unfold World.step
  dsimp only
  rw [h]

/-- A party on an epoch seals its message with the keys at its address, and moves on by one. -/
theorem StandsOn.encrypt {e : Epoch} {count : Nat} {state : SessionState}
    (h : StandsOn P e count state) (fresh : U8Array 32) (plaintext : Bytes) :
    ∃ state', encrypt P state fresh plaintext =
      (.ok ⟨sealMessage P state.localIdentityPub state.remoteIdentityPub (e.pub P)
        state.previousCounter (keysAt P e.chain count) plaintext, .whisper⟩, state') ∧
      StandsOn P e (count + 1) state' ∧ state'.receiverChains = state.receiverChains ∧
      state'.localIdentityPub = state.localIdentityPub ∧
      state'.remoteIdentityPub = state.remoteIdentityPub :=
  ⟨_, encrypt_of_chain P h.chain h.pub fresh plaintext, ⟨h.root, h.priv, h.pub, rfl⟩, rfl, rfl, rfl⟩

/-- The first send of a session that has only received steps, and then sends as from an epoch. -/
theorem encrypt_of_firstSend {state stepped : SessionState} {fresh : U8Array 32}
    (hnone : state.senderChain = none) (hstep : bobFirstSendStep P state fresh = .ok stepped)
    {e : Epoch} {count : Nat} (hstands : StandsOn P e count stepped) (plaintext : Bytes) :
    encrypt P state fresh plaintext = encrypt P stepped fresh plaintext := by
  unfold encrypt
  rw [hnone, hstands.chain, Option.isNone_none, Option.isNone_some, if_pos rfl,
    if_neg Bool.false_ne_true, hstep]

/-- The session after the step of `bobFirstSendStep` stands on the epoch that `fresh` adds. -/
theorem Waiting.firstSendStep {state : SessionState} {entries : List Numbered}
    (h : Waiting es state entries)
    (hreads : List.Forall₂ (ReadsEpoch P es) state.receiverChains entries) (fresh : U8Array 32) :
    ∃ e stepped, es[0]? = some e ∧ bobFirstSendStep P state fresh = .ok stepped ∧
      StandsOn P (e.next P fresh) 0 stepped ∧ stepped.receiverChains = state.receiverChains ∧
      stepped.localIdentityPub = state.localIdentityPub ∧
      stepped.remoteIdentityPub = state.remoteIdentityPub := by
  obtain ⟨e, he, hroot⟩ := h.root
  have hnewest := h.newest
  unfold bobFirstSendStep
  generalize hchains : state.receiverChains = chains at hreads
  cases hreads with
  | nil => cases hnewest
  | cons hfirst hrest =>
      obtain ⟨e', he', -, hpub⟩ := hfirst
      rw [Option.some.inj hnewest] at he'
      cases he.symm.trans he'
      refine ⟨e, _, he, rfl, ⟨?_, rfl, rfl, ?_⟩, rfl, rfl, rfl⟩
      · dsimp only
        rw [hroot, hpub]
        rfl
      · dsimp only
        rw [hroot, hpub]
        rfl

/-- The message of a party on an epoch joins what is under way. -/
theorem Accounted.sentFrom (h : Accounted P k es addrs ws w) {p : Party} {state : SessionState}
    {e : Epoch} {i count : Nat} (he : es[i]? = some e) (hstands : StandsOn P e count state)
    (hchains : state.receiverChains = (w.session p).receiverChains)
    (hlocal : state.localIdentityPub = (w.session p).localIdentityPub)
    (hremote : state.remoteIdentityPub = (w.session p).remoteIdentityPub)
    (hpub : ∀ pub, (w.session p).senderRatchetPub = some pub → pub = e.pub P)
    (hnew : (i, count) ∉ addrs) (hfits : count + 1 < 2 ^ 32) (fresh : U8Array 32)
    (plaintext : Bytes)
    (henc : Signal.encrypt P (w.session p) fresh plaintext =
      Signal.encrypt P state fresh plaintext) :
    ∃ state' wire, w.step P (.send p plaintext fresh) =
        { w.setSession p state' with sent := w.sent ++ [⟨p, plaintext, wire⟩] } ∧
      StandsOn P e (count + 1) state' ∧
      Accounted P k es (addrs ++ [(i, count)]) ws (w.step P (.send p plaintext fresh)) := by
  obtain ⟨hidl, hidr⟩ := h.ids p
  obtain ⟨state', hseal, hstands', hchains', hlocal', hremote'⟩ := hstands.encrypt fresh plaintext
  have hstep := step_send (henc.trans hseal)
  refine ⟨state', _, hstep, hstands', ?_⟩
  rw [hstep, hlocal, hremote, hidl, hidr]
  have hmoved : Accounted P k es addrs ws (w.setSession p state') := by
    have hsame : Accounted P k es addrs (Function.update ws p (ws p)) (w.setSession p state') :=
      h.setSession ⟨(hlocal'.trans hlocal).trans hidl, (hremote'.trans hremote).trans hidr⟩
        (hchains'.trans hchains ▸ h.reads p)
        (fun pub hold => Or.inl (hpub pub hold ▸ hstands'.pub)) (h.seen p)
    rwa [Function.update_eq_self] at hsame
  refine hmoved.send ?_ he hnew hfits
  show (Function.update w.session p state' p).senderRatchetPub = _
  rw [Function.update_self]
  exact hstands'.pub

theorem PartyInv.sent {i count : Nat} {state state' : SessionState} {entries : List Numbered}
    {e : Epoch} (h : PartyInv P es addrs i count state entries) (he : es[i]? = some e)
    (hstands : StandsOn P e (count + 1) state') (hfits : count + 1 < 2 ^ 32) :
    PartyInv P es (addrs ++ [(i, count)]) i (count + 1) state' entries where
  stands := ⟨e, he, hstands⟩
  newest := h.newest
  below c hc := by
    rcases List.mem_append.mp hc with hold | hnew
    · exact Nat.lt_succ_of_lt (h.below c hold)
    · cases List.mem_singleton.mp hnew
      exact Nat.lt_succ_self _
  fits := hfits

/-- The other party's epoch is another one. -/
theorem PartyInv.sentElsewhere {i j count count' : Nat} {state : SessionState}
    {entries : List Numbered} (h : PartyInv P es addrs j count' state entries) (hij : j ≠ i) :
    PartyInv P es (addrs ++ [(i, count)]) j count' state entries where
  stands := h.stands
  newest := h.newest
  below c hc := by
    rcases List.mem_append.mp hc with hold | hnew
    · exact h.below c hold
    · exact absurd (congrArg Prod.fst (List.mem_singleton.mp hnew)) hij
  fits := h.fits

/-- A party on an epoch sends; `hphase` puts it back where it stood, one message on. -/
theorem WorldInv.send_standing (h : WorldInv P k es addrs ws w) {p : Party} {i count : Nat}
    (hp : PartyInv P es addrs i count (w.session p) (ws p)) {fresh : U8Array 32}
    {plaintext : Bytes} (hperm : Permitted P w (.send p plaintext fresh))
    (hphase : ∀ state', PartyInv P es (addrs ++ [(i, count)]) i (count + 1) state' (ws p) →
      Phase P es (addrs ++ [(i, count)]) (Function.update w.session p state') ws) :
    After P k es w (.send p plaintext fresh) := by
  obtain ⟨e, he, hstands⟩ := hp.stands
  have hfits : count + 1 < 2 ^ 32 := by
    have hroom := hperm _ hstands.chain
    rwa [index_key hp.fits] at hroom
  obtain ⟨state', wire, hstep, hstands', hacc⟩ := h.accounted.sentFrom he hstands rfl rfl rfl
    (fun pub hpub => (Option.some.inj (hstands.pub.symm.trans hpub)).symm)
    (fun hmem => Nat.lt_irrefl _ (hp.below _ hmem)) hfits fresh plaintext rfl
  refine ⟨⟨es, _, ws, ⟨hacc, ?_⟩, Or.inl rfl⟩, ?_, ?_⟩
  · rw [hstep]
    exact hphase _ (hp.sent he hstands' hfits)
  · rw [hstep]
    exact List.map_append
  · rw [hstep]
    exact (List.append_nil _).symm

/-- **A send keeps the invariant.** -/
theorem worldInv_send (h : WorldInv P k es addrs ws w) {p : Party} {fresh : U8Array 32}
    {plaintext : Bytes} (hperm : Permitted P w (.send p plaintext fresh))
    (hfresh : P.x25519.pub fresh ∉ es.map (Epoch.pub P)) :
    After P k es w (.send p plaintext fresh) := by
  cases h.phase with
  | waiting count hlen halice hbob =>
      cases p with
      | alice =>
          refine h.send_standing halice hperm fun state' hstate' => ?_
          exact .waiting (count + 1) hlen hstate' hbob
      | bob =>
          -- Bob leaves the epoch he reads for one of his own.
          obtain ⟨e, stepped, he, hstep, hstands, hchains, hlocal, hremote⟩ :=
            hbob.firstSendStep (h.accounted.reads .bob) fresh
          have hgrown := h.accounted.grow (h.accounted.ladder.grow hlen he hfresh)
          have htop : (es ++ [e.next P fresh])[1]? = some (e.next P fresh) := by
            rw [← hlen, List.getElem?_concat_length]
          have hbelow : ∀ c, (1, c) ∉ addrs := fun c hc => by
            have hlt := h.accounted.epoch_lt hc
            exact absurd hlt (by rw [hlen]; exact Nat.lt_irrefl 1)
          obtain ⟨state', wire, hworld, hstands', hacc⟩ := hgrown.sentFrom htop hstands hchains
            hlocal hremote (fun pub hpub => by rw [hbob.pub] at hpub; cases hpub) (hbelow 0)
            (by decide) fresh plaintext (encrypt_of_firstSend hbob.chain hstep hstands plaintext)
          have hparty : PartyInv P (es ++ [e.next P fresh]) addrs 1 0 stepped (ws .bob) :=
            ⟨⟨_, htop, hstands⟩, hbob.newest, fun c hc => absurd hc (hbelow c), by decide⟩
          refine ⟨⟨_, _, ws, ⟨hacc, ?_⟩, Or.inr List.map_append⟩, ?_, ?_⟩
          · rw [hworld]
            refine .running .bob 0 1 count ?_ (hparty.sent htop hstands' (by decide)) ?_
            · rw [List.length_append, hlen]
              rfl
            · exact (halice.grow _).sentElsewhere (by decide)
          · rw [hworld]
            exact List.map_append
          · rw [hworld]
            exact (List.append_nil _).symm
  | running last n count count' hlen hlast hother =>
      by_cases hp : p = last
      · subst hp
        refine h.send_standing hlast hperm fun state' hstate' => ?_
        refine .running p n (count + 1) count' hlen ?_ ?_
        · rwa [Function.update_self]
        · rw [Function.update_of_ne p.other_ne]
          exact hother.sentElsewhere (Nat.ne_of_lt (Nat.lt_succ_self n))
      · have hp' : p = last.other := by
          cases p <;> cases last <;> first | rfl | exact absurd rfl hp
        subst hp'
        refine h.send_standing hother hperm fun state' hstate' => ?_
        refine .running last n count (count' + 1) hlen ?_ ?_
        · rw [Function.update_of_ne last.other_ne.symm]
          exact hlast.sentElsewhere (Nat.succ_ne_self n)
        · rwa [Function.update_self]

end Send

/-! ## 6. A delivery -/

section Deliver

variable {P} {k : KeyMaterial} {es : List Epoch} {addrs : List (Nat × Nat)}
  {ws : Party → List Numbered} {w : World}

/-- What a delivery does to the world, as the step has it. -/
theorem step_deliver {number : Nat} {s : Sent} (hs : w.sent[number]? = some s)
    {fresh : U8Array 32} {plaintext : Bytes} {state : SessionState}
    (h : decrypt P (w.session s.sender.other) fresh s.wire = (.ok plaintext, state)) :
    w.step P (.deliver number fresh) = ({ w with
      opened := w.opened ++ [(number, .ok plaintext)] } : World).setSession s.sender.other state := by
  unfold World.step
  dsimp only
  rw [hs]
  dsimp only
  rw [h]
  rfl

/-- **A message opens on a chain that reads its epoch** and has not seen its counter. -/
theorem decryptAt_opens {state : SessionState} {entries : List Numbered}
    (hreads : List.Forall₂ (ReadsEpoch P es) state.receiverChains entries) {idx i c : Nat}
    {rc : ReceiverChain} {window : SkipWindow} {e : Epoch}
    (hrc : state.receiverChains[idx]? = some rc) (hw : entries[idx]? = some (i, window))
    (he : es[i]? = some e) (hfits : c + 1 < 2 ^ 32) {ratchetPub : U8Array 32}
    {previousCounter : UInt32} {plaintext : Bytes} {m : WhisperMessage}
    (hm : m = sealedMessage P state.remoteIdentityPub state.localIdentityPub ratchetPub
      previousCounter (keysAt P e.chain c) plaintext)
    (hreach : Reaches rc m.counter) (hnew : ¬ window.Seen c) :
    ∃ chains, decryptAt P state idx m =
        (.ok plaintext, { state with receiverChains := chains }) ∧
      List.Forall₂ (ReadsEpoch P es) chains (entries.set idx (i, window.arrive c)) := by
  obtain ⟨entry, hentry, e', he', hchain, hpub⟩ := forall₂_getElem? hreads hrc
  cases hw.symm.trans hentry
  cases he.symm.trans he'
  have hcounter : m.counter.toNat = c := by
    rw [hm]
    exact index_key (Nat.lt_of_succ_lt hfits)
  have hopen : openWith P state.localIdentityPub state.remoteIdentityPub
      (keysAt P e.chain m.counter.toNat) m = .ok plaintext := by
    rw [hcounter, hm, openWith_sealedMessage]
  have hres : ∃ rc', onChain P state.localIdentityPub state.remoteIdentityPub rc m =
        (.ok plaintext, rc') ∧ ChainInStep P e.chain (window.arrive c) rc' ∧
        rc'.remoteRatchetPub = rc.remoteRatchetPub := by
    unfold SkipWindow.arrive
    by_cases hle : window.next ≤ c
    · have hahead := hchain.ahead (hcounter.symm ▸ hle) hreach state.localIdentityPub
        state.remoteIdentityPub
      rw [hopen] at hahead
      obtain ⟨rc', hok, hnext, hsame⟩ := hahead
      rw [SkipWindow.take_forward hle]
      simp only [hcounter] at hnext
      exact ⟨rc', hok, hnext hfits, hsame⟩
    · have hmiss : c ∈ window.missing := by
        by_contra hmiss
        exact hnew ⟨Nat.not_le.mp hle, hmiss⟩
      have hlate := hchain.missing (hcounter.symm ▸ hmiss) state.localIdentityPub
        state.remoteIdentityPub
      rw [hopen] at hlate
      obtain ⟨rc', hok, hnext, hsame⟩ := hlate
      rw [SkipWindow.take_late hmiss]
      rw [hcounter] at hnext
      exact ⟨rc', hok, hnext, hsame⟩
  obtain ⟨rc', hok, hnext, hsame⟩ := hres
  have hat := decryptAt_eq P (m := m) hrc
  rw [hok] at hat
  exact ⟨_, hat, forall₂_set hreads idx ⟨e, he, hnext, hsame.trans hpub⟩⟩

/-- What a message of the world looks like to its receiver. -/
theorem Accounted.message (h : Accounted P k es addrs ws w) {number : Nat} {s : Sent}
    (hs : w.sent[number]? = some s) {m : WhisperMessage} (hm : parseWire P s.wire = .ok m) :
    ∃ addr e previousCounter, addrs[number]? = some addr ∧ es[addr.1]? = some e ∧
      addr.2 + 1 < 2 ^ 32 ∧ m.ratchetPub = e.pub P ∧
      m = sealedMessage P (w.session s.sender.other).remoteIdentityPub
        (w.session s.sender.other).localIdentityPub (e.pub P) previousCounter
        (keysAt P e.chain addr.2) s.plaintext := by
  obtain ⟨addr, haddr, e, previousCounter, he, hfits, hwire⟩ := forall₂_getElem? h.sent hs
  rw [hwire, parseWire_sealMessage] at hm
  cases hm
  obtain ⟨hlocal, hremote⟩ := h.ids s.sender.other
  refine ⟨addr, e, previousCounter, haddr, he, hfits, rfl, ?_⟩
  rw [hlocal, hremote, Party.other_other]

/-- A window has not seen a message that was not delivered. -/
theorem Accounted.unseen (h : Accounted P k es addrs ws w) {p : Party} {number : Nat}
    {addr : Nat × Nat} (haddr : addrs[number]? = some addr)
    (hnew : number ∉ w.opened.map Prod.fst) {entry : Numbered} (hentry : entry ∈ ws p)
    (hnum : entry.1 = addr.1) : ¬ entry.2.Seen addr.2 := by
  intro hseen
  obtain ⟨number', hopened, haddr'⟩ := h.seen p entry hentry addr.2 hseen
  rw [hnum] at haddr'
  have hsame : number' = number := by
    refine index_of_nodup_map (f := id) ?_ haddr' haddr rfl
    rw [List.map_id]
    exact h.distinct
  exact hnew (hsame ▸ hopened)

/-- The message that arrived is accounted for. What its receiver's windows had seen stays seen. -/
theorem Accounted.delivered (h : Accounted P k es addrs ws w) {number : Nat} {s : Sent}
    {addr : Nat × Nat} (hs : w.sent[number]? = some s) (haddr : addrs[number]? = some addr)
    {fresh : U8Array 32} {state : SessionState}
    (hdec : decrypt P (w.session s.sender.other) fresh s.wire = (.ok s.plaintext, state))
    (hids : state.localIdentityPub = k.identity P s.sender.other ∧
      state.remoteIdentityPub = k.identity P s.sender.other.other)
    (hpub : ∀ pub, (w.session s.sender.other).senderRatchetPub = some pub →
      state.senderRatchetPub = some pub ∨ pub ∈ w.heard s.sender.other.other)
    {entries : List Numbered} {idx : Nat} {window : SkipWindow}
    (hw : entries[idx]? = some (addr.1, window))
    (hold : ∀ entry ∈ entries, entry.2 = .start ∨ entry ∈ ws s.sender.other)
    (hreads : List.Forall₂ (ReadsEpoch P es) state.receiverChains
      (entries.set idx (addr.1, window.arrive addr.2))) :
    Accounted P k es addrs (Function.update ws s.sender.other
      (entries.set idx (addr.1, window.arrive addr.2))) (w.step P (.deliver number fresh)) := by
  rw [step_deliver hs hdec]
  have hopened := h.opens hs
  -- What a window of the receiver has seen before the message arrived.
  have hbefore : ∀ entry ∈ entries, ∀ c, entry.2.Seen c →
      ∃ number' ∈ (w.opened ++ [(number, Except.ok s.plaintext)]).map Prod.fst,
        addrs[number']? = some (entry.1, c) := by
    intro entry hentry c hc
    rcases hold entry hentry with hstart | hentry
    · rw [hstart] at hc
      exact absurd hc.1 (Nat.not_lt_zero c)
    · exact hopened.seen _ entry hentry c hc
  refine hopened.setSession hids hreads hpub ?_
  intro entry hentry c hc
  rcases List.mem_or_eq_of_mem_set hentry with hentry | rfl
  · exact hbefore entry hentry c hc
  · rcases SkipWindow.seen_arrive.mp hc with rfl | hc
    · exact ⟨number, List.mem_map.mpr ⟨_, List.mem_append_right _ (List.mem_singleton_self _), rfl⟩,
        haddr⟩
    · exact hbefore _ (List.mem_of_getElem? hw) c hc

theorem step_delivered {number : Nat} {s : Sent} (hs : w.sent[number]? = some s)
    {fresh : U8Array 32} {plaintext : Bytes} {state : SessionState}
    (h : decrypt P (w.session s.sender.other) fresh s.wire = (.ok plaintext, state)) :
    (w.step P (.deliver number fresh)).sent.map (fun s => (s.sender, s.plaintext)) =
        w.sent.map (fun s => (s.sender, s.plaintext)) ++
          (Event.deliver number fresh).said.toList ∧
      (w.step P (.deliver number fresh)).opened.map Prod.fst =
        w.opened.map Prod.fst ++ (Event.deliver number fresh).delivered.toList := by
  rw [step_deliver hs h]
  exact ⟨(List.append_nil _).symm, List.map_append⟩

theorem PartyInv.received {i count : Nat} {state : SessionState} {entries entries' : List Numbered}
    (h : PartyInv P es addrs i count state entries)
    (hnums : entries'.map Prod.fst = entries.map Prod.fst) (chains : List ReceiverChain) :
    PartyInv P es addrs i count { state with receiverChains := chains } entries' where
  stands := by
    obtain ⟨e, he, hstands⟩ := h.stands
    exact ⟨e, he, hstands.root, hstands.priv, hstands.pub, hstands.chain⟩
  newest := hnums ▸ h.newest
  below := h.below
  fits := h.fits

/-- A message on a chain that is there leaves both parties where they stand. -/
theorem Phase.received {session : Party → SessionState} (h : Phase P es addrs session ws)
    {p : Party} {entries : List Numbered} (hnums : entries.map Prod.fst = (ws p).map Prod.fst)
    (chains : List ReceiverChain) :
    Phase P es addrs
      (Function.update session p { session p with receiverChains := chains })
      (Function.update ws p entries) := by
  have hparty : ∀ q i count, PartyInv P es addrs i count (session q) (ws q) →
      PartyInv P es addrs i count
        (Function.update session p { session p with receiverChains := chains } q)
        (Function.update ws p entries q) := by
    intro q i count hq
    by_cases hqp : q = p
    · subst hqp
      rw [Function.update_self, Function.update_self]
      exact hq.received hnums chains
    · rwa [Function.update_of_ne hqp, Function.update_of_ne hqp]
  cases h with
  | waiting count hlen halice hbob =>
      refine .waiting count hlen (hparty _ _ _ halice) ?_
      by_cases hp : Party.bob = p
      · subst hp
        rw [Function.update_self, Function.update_self]
        exact ⟨hbob.root, hbob.chain, hbob.pub, hnums ▸ hbob.newest⟩
      · rwa [Function.update_of_ne hp, Function.update_of_ne hp]
  | running last n count count' hlen hlast hother =>
      exact .running last n count count' hlen (hparty _ _ _ hlast) (hparty _ _ _ hother)

/-- A message of a chain that its receiver has. -/
theorem WorldInv.deliver_known (h : WorldInv P k es addrs ws w) {number idx : Nat} {s : Sent}
    {m : WhisperMessage} (hs : w.sent[number]? = some s) (hm : parseWire P s.wire = .ok m)
    (hnew : number ∉ w.opened.map Prod.fst)
    (hidx : chainIdx (w.session s.sender.other).receiverChains m.ratchetPub = some idx)
    (hreach : ∀ rc, (w.session s.sender.other).receiverChains[idx]? = some rc →
      Reaches rc m.counter) (fresh : U8Array 32) :
    After P k es w (.deliver number fresh) := by
  obtain ⟨addr, e, previousCounter, haddr, he, hfits, hpub, hmsg⟩ := h.accounted.message hs hm
  have hreads := h.accounted.reads s.sender.other
  obtain ⟨hlt, hfound, -⟩ := List.findIdx?_eq_some_iff_getElem.mp hidx
  have hrc := List.getElem?_eq_getElem hlt
  obtain ⟨⟨i, window⟩, hw, e', he', -, hpub'⟩ := forall₂_getElem? hreads hrc
  -- The chain reads the epoch of the message: they have the same public key.
  obtain rfl : i = addr.1 :=
    h.accounted.ladder.epoch_of_pub he' he (hpub'.symm.trans ((beq_iff_eq.mp hfound).trans hpub))
  have hunseen := h.accounted.unseen haddr hnew (List.mem_of_getElem? hw) rfl
  obtain ⟨chains, hat, hreads'⟩ :=
    decryptAt_opens hreads hrc hw he hfits hmsg (hreach _ hrc) hunseen
  have hdec : decrypt P (w.session s.sender.other) fresh s.wire =
      (.ok s.plaintext, { w.session s.sender.other with receiverChains := chains }) := by
    unfold decrypt decryptMessage
    rw [hm]
    dsimp only
    rw [hidx]
    exact hat
  obtain ⟨hsaid, hopened⟩ := step_delivered hs hdec
  have hacc := h.accounted.delivered hs haddr hdec (h.accounted.ids _) (fun _ => Or.inl) hw
    (fun _ => Or.inr) hreads'
  refine ⟨⟨es, addrs, _, ⟨hacc, ?_⟩, Or.inl rfl⟩, hsaid, hopened⟩
  rw [step_deliver hs hdec]
  exact h.phase.received (map_fst_set hw _) chains

/-- The newest chain of a party has been heard. -/
theorem Accounted.heard_newest (h : Accounted P k es addrs ws w) {p : Party} {i : Nat} {e : Epoch}
    (hnewest : ((ws p).map Prod.fst).head? = some i) (he : es[i]? = some e) :
    e.pub P ∈ w.heard p := by
  have hreads := h.reads p
  have hheard := h.heard p
  generalize (w.session p).receiverChains = chains at hreads hheard
  generalize ws p = entries at hreads hnewest
  cases hreads with
  | nil => cases hnewest
  | cons hfirst hrest =>
      obtain ⟨e', he', -, hpub⟩ := hfirst
      rw [Option.some.inj hnewest] at he'
      cases he.symm.trans he'
      exact hpub ▸ hheard _ List.mem_cons_self

/-- The party behind steps onto the epoch of the party ahead, and on to one of its own. -/
theorem StandsOn.dhRatchetStep {e : Epoch} {count : Nat} {state : SessionState}
    (h : StandsOn P e count state) (priv fresh : U8Array 32) :
    let ahead := e.next P priv
    ∃ stepped, Signal.dhRatchetStep P state (ahead.pub P) fresh = .ok stepped ∧
      StandsOn P (ahead.next P fresh) 0 stepped ∧
      stepped.receiverChains =
        (⟨ahead.pub P, ⟨ahead.chain, 0⟩, []⟩ :: state.receiverChains).take MAX_RECEIVER_CHAINS ∧
      stepped.localIdentityPub = state.localIdentityPub ∧
      stepped.remoteIdentityPub = state.remoteIdentityPub := by
  intro ahead
  have hsecret : P.x25519.dh e.priv (ahead.pub P) = P.x25519.dh priv (P.x25519.pub e.priv) :=
    P.x25519.dh_comm _ _
  unfold Signal.dhRatchetStep
  rw [h.priv, h.root]
  dsimp only
  rw [hsecret]
  exact ⟨_, rfl, ⟨rfl, rfl, rfl, rfl⟩, rfl, rfl, rfl⟩

/-- Only the party behind gets a message on a chain it has not heard of, and the message is on the
    epoch of the party ahead. -/
theorem WorldInv.unheard (h : WorldInv P k es addrs ws w) {s : Sent} {m : WhisperMessage}
    (hs : s ∈ w.sent) (hm : parseWire P s.wire = .ok m)
    (hheard : m.ratchetPub ∉ w.heard s.sender.other) :
    ∃ n count count', es.length = n + 2 ∧
      PartyInv P es addrs (n + 1) count (w.session s.sender) (ws s.sender) ∧
      PartyInv P es addrs n count' (w.session s.sender.other) (ws s.sender.other) ∧
      ∃ e, es[n + 1]? = some e ∧ m.ratchetPub = e.pub P := by
  have hcurrent := (h.accounted.older s hs m hm).resolve_right hheard
  -- A sender stands on the epoch of its message, and that one is not its peer's newest chain.
  have hstands : ∀ i count, PartyInv P es addrs i count (w.session s.sender) (ws s.sender) →
      ∃ e, es[i]? = some e ∧ m.ratchetPub = e.pub P := by
    rintro i count ⟨⟨e, he, hstands⟩, -, -, -⟩
    exact ⟨e, he, Option.some.inj (hcurrent.symm.trans hstands.pub)⟩
  have hnewest : ∀ i e, es[i]? = some e → m.ratchetPub = e.pub P →
      ((ws s.sender.other).map Prod.fst).head? ≠ some i :=
    fun i e he hpub hhead => hheard (hpub ▸ h.accounted.heard_newest hhead he)
  cases h.phase with
  | waiting count hlen halice hbob =>
      cases hsender : s.sender with
      | alice =>
          rw [hsender] at hstands hnewest
          obtain ⟨e, he, hpub⟩ := hstands 0 count halice
          exact absurd hbob.newest (hnewest 0 e he hpub)
      | bob =>
          rw [hsender, hbob.pub] at hcurrent
          cases hcurrent
  | running last n count count' hlen hlast hother =>
      by_cases hp : s.sender = last
      · rw [hp] at hstands ⊢
        exact ⟨n, count, count', hlen, hlast, hother, hstands _ _ hlast⟩
      · have hp' : s.sender = last.other := by
          revert hp
          cases s.sender <;> cases last <;> decide
        rw [hp'] at hstands hnewest
        rw [Party.other_other] at hnewest
        obtain ⟨e, he, hpub⟩ := hstands _ _ hother
        exact absurd hlast.newest (hnewest n e he hpub)

/-- A message of a chain that its receiver never had: the receiver steps, and the ladder grows. -/
theorem WorldInv.deliver_new (h : WorldInv P k es addrs ws w) {number : Nat} {s : Sent}
    {m : WhisperMessage} (hs : w.sent[number]? = some s) (hm : parseWire P s.wire = .ok m)
    (hidx : chainIdx (w.session s.sender.other).receiverChains m.ratchetPub = none)
    (hheard : m.ratchetPub ∉ w.heard s.sender.other)
    (hreach : m.counter.toNat ≤ MAX_SKIPPED_MESSAGE_KEYS) {fresh : U8Array 32}
    (hfresh : P.x25519.pub fresh ∉ es.map (Epoch.pub P)) :
    After P k es w (.deliver number fresh) := by
  obtain ⟨addr, e, previousCounter, haddr, he, hfits, hpub, hmsg⟩ := h.accounted.message hs hm
  obtain ⟨n, count, count', hlen, hsender, hreceiver, e₁, he₁, hpub₁⟩ :=
    h.unheard (List.mem_of_getElem? hs) hm hheard
  -- The message is on the last epoch, the receiver on the one before.
  have hladder := h.accounted.ladder
  have htop : addr.1 = n + 1 := hladder.epoch_of_pub he he₁ (hpub.symm.trans hpub₁)
  rw [htop] at he
  cases he.symm.trans he₁
  obtain ⟨e₀, he₀, hstands⟩ := hreceiver.stands
  obtain ⟨stepped, hratchet, hstands', hchains, hlocal, hremote⟩ :=
    hstands.dhRatchetStep e.priv fresh
  rw [← hladder.step n e₀ e he₀ he] at hratchet hstands' hchains
  have hgrown := h.accounted.grow (hladder.grow hlen he hfresh)
  have hnext : (es ++ [e.next P fresh])[n + 2]? = some (e.next P fresh) := by
    rw [← hlen, List.getElem?_concat_length]
  let entries := ((addr.1, SkipWindow.start) :: ws s.sender.other).take MAX_RECEIVER_CHAINS
  have hreads : List.Forall₂ (ReadsEpoch P (es ++ [e.next P fresh])) stepped.receiverChains
      entries := by
    rw [hchains]
    refine List.forall₂_take _ (.cons ⟨e, ?_, chainInStep_start P _ _, rfl⟩ (hgrown.reads _))
    exact htop ▸ getElem?_append_of_some he
  rw [← hlocal, ← hremote] at hmsg
  have hfirst : stepped.receiverChains[0]? = some ⟨e.pub P, ⟨e.chain, 0⟩, []⟩ := by
    rw [hchains]
    rfl
  have hw : entries[0]? = some (addr.1, SkipWindow.start) := rfl
  obtain ⟨chains, hat, hreads'⟩ := decryptAt_opens hreads hfirst hw
    (htop ▸ getElem?_append_of_some he) hfits hmsg (by simpa [Reaches] using hreach)
    fun hseen => Nat.not_lt_zero _ hseen.1
  have hdec : decrypt P (w.session s.sender.other) fresh s.wire =
      (.ok s.plaintext, { stepped with receiverChains := chains }) := by
    unfold decrypt decryptMessage
    rw [hm]
    dsimp only
    rw [hidx, hpub]
    dsimp only
    rw [hratchet]
    exact hat
  obtain ⟨hidl, hidr⟩ := h.accounted.ids s.sender.other
  have hentries : ∀ entry ∈ entries, entry.2 = .start ∨ entry ∈ ws s.sender.other := by
    intro entry hentry
    rcases List.mem_cons.mp (List.mem_of_mem_take hentry) with rfl | hold
    · exact Or.inl rfl
    · exact Or.inr hold
  have hacc := hgrown.delivered hs haddr hdec ⟨hlocal.trans hidl, hremote.trans hidr⟩
    (fun pub hold => by
      -- The receiver leaves its epoch, which is the newest chain of the sender.
      cases hstands.pub.symm.trans hold
      rw [Party.other_other]
      exact Or.inr (h.accounted.heard_newest hsender.newest he₀))
    hw hentries hreads'
  obtain ⟨hsaid, hopened⟩ := step_delivered hs hdec
  refine ⟨⟨_, addrs, _, ⟨hacc, ?_⟩, Or.inr List.map_append⟩, hsaid, hopened⟩
  rw [step_deliver hs hdec]
  refine .running s.sender.other (n + 1) 0 count ?_ ?_ ?_
  · rw [List.length_append, hlen]
    rfl
  · show PartyInv P _ addrs _ _ (Function.update w.session _ _ s.sender.other) _
    rw [Function.update_self, Function.update_self]
    refine ⟨⟨_, hnext, hstands'.root, hstands'.priv, hstands'.pub, hstands'.chain⟩, ?_, ?_,
      by decide⟩
    · rw [map_fst_set hw]
      exact congrArg some htop
    · intro c hc
      have hlt := h.accounted.epoch_lt hc
      exact absurd hlt (by rw [hlen]; exact Nat.lt_irrefl _)
  · show PartyInv P _ addrs _ _ (Function.update w.session _ _ s.sender.other.other) _
    rw [Function.update_of_ne s.sender.other.other_ne, Function.update_of_ne s.sender.other.other_ne,
      Party.other_other]
    exact hsender.grow _

theorem permitted_deliver {number : Nat} {fresh : U8Array 32} :
    Permitted P w (.deliver number fresh) ↔ number ∉ w.opened.map Prod.fst ∧
      ∃ s m, w.sent[number]? = some s ∧ parseWire P s.wire = .ok m ∧
        Readable (w.session s.sender.other) (w.heard s.sender.other) m := by
  unfold Permitted
  refine and_congr_right fun _ => ?_
  cases hs : w.sent[number]? with
  | none => simp
  | some s => cases hm : parseWire P s.wire <;> simp [hm]

/-- **A delivery keeps the invariant**, and returns what was sent. -/
theorem worldInv_deliver (h : WorldInv P k es addrs ws w) {number : Nat} {fresh : U8Array 32}
    (hperm : Permitted P w (.deliver number fresh))
    (hfresh : P.x25519.pub fresh ∉ es.map (Epoch.pub P)) :
    After P k es w (.deliver number fresh) := by
  obtain ⟨hnew, s, m, hs, hm, hreadable⟩ := permitted_deliver.mp hperm
  unfold Readable at hreadable
  cases hidx : chainIdx (w.session s.sender.other).receiverChains m.ratchetPub with
  | some idx =>
      rw [hidx] at hreadable
      exact h.deliver_known hs hm hnew hidx hreadable fresh
  | none =>
      rw [hidx] at hreadable
      exact h.deliver_new hs hm hidx hreadable.1 hreadable.2 hfresh

end Deliver

/-! ## 7. Any order of events -/

section Run

variable {P} {k : KeyMaterial} {es : List Epoch} {addrs : List (Nat × Nat)}
  {ws : Party → List Numbered} {w : World}

/-- **One event keeps the invariant.** -/
theorem worldInv_step (h : WorldInv P k es addrs ws w) {e : Event} (hperm : Permitted P w e)
    (hfresh : P.x25519.pub e.fresh ∉ es.map (Epoch.pub P)) : After P k es w e := by
  cases e with
  | send sender plaintext fresh => exact worldInv_send h hperm hfresh
  | deliver number fresh => exact worldInv_deliver h hperm hfresh

/-- **So does any order of events**, as long as each is permitted when it happens. -/
theorem worldInv_run (h : WorldInv P k es addrs ws w) {events : List Event}
    (hfresh : (es.map (Epoch.pub P) ++ events.map fun e => P.x25519.pub e.fresh).Nodup)
    (hperm : AllPermitted P w events) :
    (∃ es' addrs' ws', WorldInv P k es' addrs' ws' (w.run P events)) ∧
    (w.run P events).sent.map (fun s => (s.sender, s.plaintext)) =
      w.sent.map (fun s => (s.sender, s.plaintext)) ++ events.filterMap Event.said ∧
    (w.run P events).opened.map Prod.fst =
      w.opened.map Prod.fst ++ events.filterMap Event.delivered := by
  induction events generalizing es addrs ws w with
  | nil =>
      rw [List.filterMap_nil, List.filterMap_nil, List.append_nil, List.append_nil]
      exact ⟨⟨es, addrs, ws, h⟩, rfl, rfl⟩
  | cons e events ih =>
      have hnew : P.x25519.pub e.fresh ∉ es.map (Epoch.pub P) := fun hmem =>
        (List.nodup_append.mp hfresh).2.2 _ hmem _ List.mem_cons_self rfl
      obtain ⟨⟨es', addrs', ws', hinv, hladder⟩, hsaid, hopened⟩ := worldInv_step h hperm.1 hnew
      have hrest : (es'.map (Epoch.pub P) ++ events.map fun e => P.x25519.pub e.fresh).Nodup := by
        rcases hladder with rfl | hgrown
        · exact hfresh.sublist (List.Sublist.append_left (List.sublist_cons_self _ _) _)
        · rw [hgrown, List.append_assoc]
          exact hfresh
      obtain ⟨hinv', hsaid', hopened'⟩ := ih hinv hrest hperm.2
      have hrun : w.run P (e :: events) = (w.step P e).run P events := rfl
      rw [hrun]
      refine ⟨hinv', hsaid'.trans ?_, hopened'.trans ?_⟩
      · rw [hsaid, List.append_assoc]
        cases e <;> rfl
      · rw [hopened, List.append_assoc]
        cases e <;> rfl

variable (P)

/-- **Both ends derive one epoch**: Alice stands on it, and Bob reads it. -/
theorem x3dh_agree (k : KeyMaterial) (info : PreKeyMessageInfo)
    (hidentity : info.identityKeyPub = k.identity P .alice)
    (hbase : info.baseKeyPub = P.x25519.pub k.aliceBase)
    (hratchet : info.innerRatchetPub = P.x25519.pub k.aliceRatchet) :
    let bob := processBob P (k.bobParameters P info)
    ∃ e : Epoch, e.priv = k.aliceRatchet ∧
      StandsOn P e 0 (initiateAlice P (k.aliceParameters P)) ∧
      bob.rootKey = e.root ∧ bob.receiverChains = [⟨e.pub P, ⟨e.chain, 0⟩, []⟩] := by
  intro bob
  let dh := P.x25519.dh
  let pub := P.x25519.pub
  have hcomm : ∀ a b, dh a (pub b) = dh b (pub a) := P.x25519.dh_comm
  -- The secrets of Bob are those of Alice, each from the other end.
  have hdhs : [dh k.bobSignedPrekey info.identityKeyPub, dh k.bobIdentity info.baseKeyPub,
        dh k.bobSignedPrekey info.baseKeyPub] ++
        (k.bobOneTimePrekey.map fun opk => dh opk info.baseKeyPub).toList =
      [dh k.aliceIdentity (pub k.bobSignedPrekey), dh k.aliceBase (k.identity P .bob),
        dh k.aliceBase (pub k.bobSignedPrekey)] ++
        ((k.bobOneTimePrekey.map pub).map fun opk => dh k.aliceBase opk).toList := by
    rw [hidentity, hbase, Option.map_map]
    show [dh _ (pub _), dh _ (pub _), dh _ (pub _)] ++ (k.bobOneTimePrekey.map _).toList = _
    rw [hcomm k.bobSignedPrekey, hcomm k.bobIdentity, hcomm k.bobSignedPrekey]
    refine congrArg _ (congrArg Option.toList (Option.map_congr fun opk _ => ?_))
    exact hcomm opk k.aliceBase
  have hstep : dh k.bobSignedPrekey info.innerRatchetPub =
      dh k.aliceRatchet (pub k.bobSignedPrekey) := by
    rw [hratchet]
    exact hcomm _ _
  let root := (initialKdf P ([dh k.aliceIdentity (pub k.bobSignedPrekey),
    dh k.aliceBase (k.identity P .bob), dh k.aliceBase (pub k.bobSignedPrekey)] ++
    ((k.bobOneTimePrekey.map pub).map fun opk => dh k.aliceBase opk).toList)).1
  let stepped := ratchetRootStep P root (dh k.aliceRatchet (pub k.bobSignedPrekey))
  have hbob : bob.rootKey = stepped.1 ∧
      bob.receiverChains = [⟨info.innerRatchetPub, ⟨stepped.2, 0⟩, []⟩] := by
    have hsame : ratchetRootStep P (initialKdf P ([dh k.bobSignedPrekey info.identityKeyPub,
        dh k.bobIdentity info.baseKeyPub, dh k.bobSignedPrekey info.baseKeyPub] ++
        (k.bobOneTimePrekey.map fun opk => dh opk info.baseKeyPub).toList)).1
        (dh k.bobSignedPrekey info.innerRatchetPub) = stepped := by
      rw [hdhs, hstep]
    rw [← hsame]
    exact ⟨rfl, rfl⟩
  refine ⟨⟨k.aliceRatchet, stepped.1, stepped.2⟩, rfl, ⟨rfl, rfl, rfl, rfl⟩, hbob.1, ?_⟩
  rw [hbob.2, hratchet]
  rfl

/-- A world as it starts: Alice has sent on the epoch that Bob reads. -/
structure Started (k : KeyMaterial) (plaintext : Bytes) (e : Epoch) (w : World) : Prop where
  priv : e.priv = k.aliceRatchet
  ids : ∀ p, (w.session p).localIdentityPub = k.identity P p ∧
    (w.session p).remoteIdentityPub = k.identity P p.other
  alice : StandsOn P e 1 (w.session .alice) ∧ (w.session .alice).receiverChains = []
  bob : (w.session .bob).rootKey = e.root ∧ (w.session .bob).senderChain = none ∧
    (w.session .bob).senderRatchetPub = none ∧
    (w.session .bob).receiverChains = [⟨e.pub P, ⟨e.chain, 0⟩, []⟩]
  heard : ∀ p, w.heard p = (w.session p).receiverChains.map ReceiverChain.remoteRatchetPub
  sent : w.sent = [⟨.alice, plaintext, sealMessage P (k.identity P .alice) (k.identity P .bob)
    (e.pub P) 0 (keysAt P e.chain 0) plaintext⟩]
  opened : w.opened = []

theorem startWorld_started (k : KeyMaterial) (plaintext : Bytes)
    (registrationId signedPreKeyId : UInt32) (oneTimePreKeyId : Option UInt32) :
    ∃ w e, startWorld P k plaintext registrationId signedPreKeyId oneTimePreKeyId = some w ∧
      Started P k plaintext e w := by
  let alice := initiateAlice P (k.aliceParameters P)
  obtain ⟨wire, inner, henv, hinner, hparse⟩ := parsePreKeyMessage_encryptPreKey P
    (show alice.senderChain = _ from rfl) rfl k.aliceRatchet plaintext registrationId (P.x25519.pub k.aliceBase)
    (k.identity P .alice) signedPreKeyId oneTimePreKeyId
  let info : PreKeyMessageInfo := ⟨registrationId, oneTimePreKeyId, signedPreKeyId,
    P.x25519.pub k.aliceBase, k.identity P .alice, P.x25519.pub k.aliceRatchet, inner⟩
  let bob := processBob P (k.bobParameters P info)
  obtain ⟨e, hpriv, hstands, hroot, hchains⟩ := x3dh_agree P k info rfl rfl rfl
  obtain ⟨alice', henc, hstands', hnone, hlocal, hremote⟩ := hstands.encrypt k.aliceRatchet plaintext
  have hwire : inner = sealMessage P (k.identity P .alice) (k.identity P .bob) (e.pub P) 0
      (keysAt P e.chain 0) plaintext := by
    rw [henc] at hinner
    cases hinner
    rfl
  have hstart : startWorld P k plaintext registrationId signedPreKeyId oneTimePreKeyId = some {
      session := fun
        | .alice => alice'
        | .bob => bob
      heard := fun
        | .alice => alice'.receiverChains.map ReceiverChain.remoteRatchetPub
        | .bob => bob.receiverChains.map ReceiverChain.remoteRatchetPub
      sent := [⟨.alice, plaintext, inner⟩]
      opened := [] } := by
    rw [henc] at henv
    unfold startWorld
    dsimp only
    rw [henv]
    dsimp only
    rw [hparse]
    rfl
  refine ⟨_, e, hstart, hpriv, fun p => ?_, ⟨hstands', hnone⟩, ⟨hroot, rfl, rfl, hchains⟩,
    fun p => ?_, ?_, rfl⟩
  · cases p with
    | alice => exact ⟨hlocal, hremote⟩
    | bob => exact ⟨rfl, rfl⟩
  · cases p <;> rfl
  · rw [hwire]

variable {P}

/-- **A world starts in the invariant**, with Alice's first message under way. -/
theorem Started.worldInv {plaintext : Bytes} {e : Epoch} (h : Started P k plaintext e w) :
    ∃ ws, WorldInv P k [e] [(0, 0)] ws w := by
  obtain ⟨hroot, hchain, hpub, hchains⟩ := h.bob
  let ws : Party → List Numbered := fun
    | .alice => []
    | .bob => [(0, .start)]
  refine ⟨ws, ⟨?_, ?_⟩⟩
  · exact {
      ids := h.ids
      ladder := ⟨fun i a b ha hb => (nomatch hb), List.nodup_singleton _⟩
      reads := fun p => by
        cases p with
        | alice =>
            rw [h.alice.2]
            exact .nil
        | bob =>
            rw [hchains]
            exact .cons ⟨e, rfl, chainInStep_start P _ _, rfl⟩ .nil
      heard := fun p rc hrc => by
        rw [h.heard]
        exact List.mem_map_of_mem hrc
      sent := h.sent ▸ .cons ⟨e, 0, rfl, by decide, rfl⟩ .nil
      distinct := List.nodup_singleton _
      older := fun s hs m hm => by
        rw [h.sent] at hs
        cases List.mem_singleton.mp hs
        rw [parseWire_sealMessage] at hm
        cases hm
        exact Or.inl h.alice.1.pub
      seen := fun p entry hentry c hc => by
        cases p with
        | alice => cases hentry
        | bob =>
            cases List.mem_singleton.mp hentry
            exact absurd hc.1 (Nat.not_lt_zero c)
      right := fun o ho => by
        rw [h.opened] at ho
        cases ho }
  · refine .waiting 1 rfl ⟨⟨e, rfl, h.alice.1⟩, rfl, ?_, by decide⟩
      ⟨⟨e, rfl, hroot⟩, hchain, hpub, rfl⟩
    intro c hc
    cases List.mem_singleton.mp hc
    exact Nat.zero_lt_one

variable (P)

/-- **Every message opens.** Two sessions are built from the same keys, and their events happen in
    any order: sends, and deliveries out of order and with losses. Every delivery that is made
    while the chain of its message can be read returns what was sent, as long as no chain runs out
    of indices. -/
theorem double_ratchet_delivery (k : KeyMaterial) (plaintext : Bytes)
    (registrationId signedPreKeyId : UInt32) (oneTimePreKeyId : Option UInt32) :
    ∃ start, startWorld P k plaintext registrationId signedPreKeyId oneTimePreKeyId = some start ∧
      ∀ events : List Event,
        ((k.aliceRatchet :: events.map Event.fresh).map P.x25519.pub).Nodup →
        AllPermitted P start events →
        let w := start.run P events
        (∀ o ∈ w.opened, ∃ s, w.sent[o.1]? = some s ∧ o.2 = .ok s.plaintext) ∧
        w.sent.map (fun s => (s.sender, s.plaintext)) =
          (.alice, plaintext) :: events.filterMap Event.said ∧
        w.opened.map Prod.fst = events.filterMap Event.delivered := by
  obtain ⟨start, e, hstart, hstarted⟩ :=
    startWorld_started P k plaintext registrationId signedPreKeyId oneTimePreKeyId
  obtain ⟨ws, hinv⟩ := hstarted.worldInv
  refine ⟨start, hstart, fun events hfresh hperm => ?_⟩
  have hfresh' : ([e].map (Epoch.pub P) ++ events.map fun e => P.x25519.pub e.fresh).Nodup := by
    rw [List.map_cons, List.map_map] at hfresh
    show (P.x25519.pub e.priv :: events.map _).Nodup
    rw [hstarted.priv]
    exact hfresh
  obtain ⟨⟨es', addrs', ws', hrun⟩, hsaid, hdelivered⟩ := worldInv_run hinv hfresh' hperm
  rw [hstarted.sent] at hsaid
  rw [hstarted.opened] at hdelivered
  exact ⟨hrun.accounted.right, hsaid, hdelivered⟩

end Run

open Known

def Known.keyMaterial : KeyMaterial :=
  ⟨aliceId, aliceBase, ratchet₁, bobId, bobSpk, some bobOpk⟩

/-- Bob gets Alice's message and answers; Alice gets the answer. -/
theorem double_ratchet_delivery_hi :
    ∃ start, startWorld primitives keyMaterial hi 1 1 (some 1) = some start ∧
      let w := start.run primitives
        [.deliver 0 bobSpk, .send .bob yo ratchet₂, .deliver 1 ratchet₃]
      (∀ o ∈ w.opened, ∃ s, w.sent[o.1]? = some s ∧ o.2 = .ok s.plaintext) ∧
        w.sent.map (fun s => (s.sender, s.plaintext)) = [(.alice, hi), (.bob, yo)] ∧
        w.opened.map Prod.fst = [0, 1] := by
  obtain ⟨start, hstart, hall⟩ := double_ratchet_delivery primitives keyMaterial hi 1 1 (some 1)
  have hperm : ∀ start ∈ startWorld primitives keyMaterial hi 1 1 (some 1),
      AllPermitted primitives start
        [.deliver 0 bobSpk, .send .bob yo ratchet₂, .deliver 1 ratchet₃] := by
    decide +kernel
  exact ⟨start, hstart, hall _ (by decide +kernel) (hperm start hstart)⟩

/-! ## 8. Past the last index -/

section Wrap

variable (P : SignalPrimitives) (k : KeyMaterial) (e : Epoch) (text : Bytes)

/-- Alice has sent `n` times on her first chain, and Bob has received the first `m` in order. -/
structure OneChain (n m : Nat) (w : World) : Prop where
  ids : ∀ p, (w.session p).localIdentityPub = k.identity P p ∧
    (w.session p).remoteIdentityPub = k.identity P p.other
  stands : StandsOn P e n (w.session .alice)
  length : w.sent.length = n
  sent : ∀ i < n, ∃ previousCounter, w.sent[i]? = some ⟨.alice, text,
    sealMessage P (k.identity P .alice) (k.identity P .bob) (e.pub P) previousCounter
      (keysAt P e.chain i) text⟩
  reads : ∃ rc window, (w.session .bob).receiverChains = [rc] ∧ rc.remoteRatchetPub = e.pub P ∧
    ChainInStep P e.chain window rc ∧ window.next = m ∧ window.missing = []
  opened : w.opened = (List.range m).map fun i => (i, .ok text)

variable {P k e text} {n m : Nat} {w : World}

theorem OneChain.send (h : OneChain P k e text n m w) (fresh : U8Array 32) :
    OneChain P k e text (n + 1) m (w.step P (.send .alice text fresh)) := by
  obtain ⟨hidl, hidr⟩ := h.ids .alice
  obtain ⟨state', henc, hstands, hchains, hlocal, hremote⟩ := h.stands.encrypt fresh text
  rw [step_send henc]
  refine ⟨fun p => ?_, hstands, ?_, fun i hi => ?_, h.reads, h.opened⟩
  · cases p with
    | alice => exact ⟨hlocal.trans hidl, hremote.trans hidr⟩
    | bob => exact h.ids .bob
  · rw [List.length_append, h.length]
    rfl
  · rcases Nat.lt_succ_iff_lt_or_eq.mp hi with hold | rfl
    · obtain ⟨previousCounter, hs⟩ := h.sent i hold
      exact ⟨previousCounter, getElem?_append_of_some hs⟩
    · refine ⟨(w.session .alice).previousCounter, ?_⟩
      rw [← h.length, List.getElem?_concat_length, hidl, hidr, h.length]
      rfl

/-- What Bob sees of the message with this number. -/
theorem OneChain.message (h : OneChain P k e text n m w) {i : Nat} (hi : i < n) :
    ∃ s message previousCounter, w.sent[i]? = some s ∧ s.sender = .alice ∧
      parseWire P s.wire = .ok message ∧
      message = sealedMessage P (w.session .bob).remoteIdentityPub
        (w.session .bob).localIdentityPub (e.pub P) previousCounter (keysAt P e.chain i) text := by
  obtain ⟨previousCounter, hs⟩ := h.sent i hi
  obtain ⟨hidl, hidr⟩ := h.ids .bob
  refine ⟨_, _, previousCounter, hs, rfl, parseWire_sealMessage P _ _ _ _ _ _, ?_⟩
  rw [hidl, hidr]
  rfl

/-- The index of a chain key counts its steps, as a `u32` counts. -/
theorem index_mod (chainKey : U8Array 32) (n : Nat) :
    (chainAt P.hashing ⟨chainKey, 0⟩ n).index.toNat = n % 2 ^ 32 := by
  induction n with
  | zero => rfl
  | succ n ih =>
      show ((chainAt P.hashing ⟨chainKey, 0⟩ n).index + 1).toNat = _
      rw [UInt32.toNat_add, ih]
      exact Nat.mod_add_mod n (2 ^ 32) 1

/-- Alice's messages are on the only chain that Bob has. -/
theorem chainIdx_only {chains : List ReceiverChain} {rc : ReceiverChain} (h : chains = [rc])
    {pub : U8Array 32} (hpub : rc.remoteRatchetPub = pub) : chainIdx chains pub = some 0 := by
  unfold chainIdx
  rw [h, List.findIdx?_cons, if_pos (beq_iff_eq.mpr hpub)]

/-- Bob may read a message that has not come yet and is not ahead of his chain. -/
theorem OneChain.permitted (h : OneChain P k e text n m w) {i : Nat} (hi : i < n) (hnew : m ≤ i)
    (hreach : i % 2 ^ 32 ≤ m) (fresh : U8Array 32) : Permitted P w (.deliver i fresh) := by
  obtain ⟨s, message, previousCounter, hs, hsender, hparse, hmessage⟩ := h.message hi
  obtain ⟨rc, window, hchains, hpub, hchain, hnext, hmissing⟩ := h.reads
  have hopened : i ∉ w.opened.map Prod.fst := by
    intro hmem
    rw [h.opened, List.map_map] at hmem
    obtain ⟨j, hj, hij⟩ := List.mem_map.mp hmem
    have hlt := List.mem_range.mp hj
    have hij : j = i := hij
    omega
  refine permitted_deliver.mpr ⟨hopened, s, message, hs, hparse, ?_⟩
  have hratchet : message.ratchetPub = e.pub P := by rw [hmessage]; rfl
  have hcounter : message.counter.toNat = i % 2 ^ 32 := by rw [hmessage]; exact index_mod _ _
  unfold Readable
  rw [hsender]
  show match chainIdx (w.session .bob).receiverChains message.ratchetPub with
    | some idx => ∀ rc, (w.session .bob).receiverChains[idx]? = some rc → Reaches rc message.counter
    | none => _
  rw [hratchet, chainIdx_only hchains hpub, hchains]
  intro rc' hrc'
  cases hrc'
  unfold Reaches
  rw [hchain.cached, hmissing, hchain.index, hnext, hcounter, Nat.sub_eq_zero_of_le hreach]
  exact Nat.zero_le _

/-- What Bob makes of a message of Alice's: his chain reads it. -/
theorem OneChain.decrypt_eq (h : OneChain P k e text n m w) {s : Sent} {message : WhisperMessage}
    (hsender : s.sender = .alice) (hparse : parseWire P s.wire = .ok message)
    (hratchet : message.ratchetPub = e.pub P) (fresh : U8Array 32) :
    decrypt P (w.session s.sender.other) fresh s.wire =
      decryptAt P (w.session .bob) 0 message := by
  obtain ⟨rc, window, hchains, hpub, -⟩ := h.reads
  unfold decrypt decryptMessage
  rw [hsender, hparse]
  show (match chainIdx (w.session .bob).receiverChains message.ratchetPub with
    | some idx => _
    | none => _) = _
  rw [hratchet, chainIdx_only hchains hpub]
  rfl

/-- The message with the next number opens, and Bob moves on by one. -/
theorem OneChain.deliver (h : OneChain P k e text n m w) (hm : m < n) (hfits : m + 1 < 2 ^ 32)
    (fresh : U8Array 32) :
    OneChain P k e text n (m + 1) (w.step P (.deliver m fresh)) := by
  obtain ⟨s, message, previousCounter, hs, hsender, hparse, hmessage⟩ := h.message hm
  obtain ⟨rc, window, hchains, hpub, hchain, hnext, hmissing⟩ := h.reads
  have hreads : List.Forall₂ (ReadsEpoch P [e]) (w.session .bob).receiverChains [(0, window)] := by
    rw [hchains]
    exact .cons ⟨e, rfl, hchain, hpub⟩ .nil
  have hcounter : message.counter.toNat = m := by
    rw [hmessage]
    exact index_key (Nat.lt_of_succ_lt hfits)
  have hreach : Reaches rc message.counter := by
    unfold Reaches
    rw [hchain.cached, hmissing, hchain.index, hnext, hcounter, Nat.sub_self]
    exact Nat.zero_le _
  have hrc : (w.session .bob).receiverChains[0]? = some rc := by
    rw [hchains]
    rfl
  have hw : [((0, window) : Numbered)][0]? = some (0, window) := rfl
  obtain ⟨chains, hat, hreads'⟩ := decryptAt_opens hreads hrc hw rfl
    hfits hmessage hreach fun hseen => Nat.lt_irrefl m (hnext ▸ hseen.1)
  rw [← h.decrypt_eq hsender hparse (by rw [hmessage]; rfl) fresh] at hat
  rw [step_deliver hs hat, hsender]
  refine ⟨fun p => ?_, h.stands, h.length, h.sent, ?_, ?_⟩
  · cases p with
    | alice => exact h.ids .alice
    | bob => exact h.ids .bob
  · show ∃ rc window, chains = [rc] ∧ _
    cases hreads' with
    | cons hfirst hrest =>
        cases hrest
        obtain ⟨e', he', hchain', hpub'⟩ := hfirst
        cases he'
        refine ⟨_, _, rfl, hpub', hchain', ?_, ?_⟩
        · unfold SkipWindow.arrive
          rw [SkipWindow.take_forward (Nat.le_of_eq hnext)]
          rfl
        · unfold SkipWindow.arrive
          rw [SkipWindow.take_forward (Nat.le_of_eq hnext)]
          show window.missing ++ List.range' window.next (m - window.next) = []
          rw [hmissing, hnext, Nat.sub_self]
          rfl
  · show w.opened ++ [(m, .ok text)] = _
    rw [h.opened, List.range_succ, List.map_append]
    rfl

/-- A message that is one index past the last starts over at 0, where Bob has been. -/
theorem OneChain.wrapped (h : OneChain P k e text n m w) (hm : 0 < m) {last : Nat}
    (hlast : last = 2 ^ 32) (hn : last < n) (fresh : U8Array 32) :
    (w.step P (.deliver last fresh)).opened =
        w.opened ++ [(last, .error (.malformed "counter out of range"))] := by
  obtain ⟨s, message, previousCounter, hs, hsender, hparse, hmessage⟩ := h.message hn
  obtain ⟨rc, window, hchains, hpub, hchain, hnext, hmissing⟩ := h.reads
  have hcounter : message.counter.toNat = 0 := by
    rw [hmessage]
    exact (index_mod _ _).trans (hlast ▸ Nat.mod_self _)
  have hseen : window.Seen message.counter.toNat := by
    rw [hcounter]
    exact ⟨hnext ▸ hm, hmissing ▸ List.not_mem_nil⟩
  have hrc : (w.session .bob).receiverChains[0]? = some rc := by
    rw [hchains]
    rfl
  have hat := decryptAt_refused P hrc (hchain.seen hseen _ _)
  rw [← h.decrypt_eq hsender hparse (by rw [hmessage]; rfl) fresh] at hat
  unfold World.step
  dsimp only
  rw [hs]
  dsimp only
  rw [hat]

/-- Any number of Alice's messages, whatever private keys would be drawn. -/
def aliceSends (text : Bytes) (draw : Nat → U8Array 32) (count : Nat) : List Event :=
  (List.range count).map fun i => .send .alice text (draw i)

/-- The first messages arrive in order. -/
def inOrder (draw : Nat → U8Array 32) (count : Nat) : List Event :=
  (List.range count).map fun i => .deliver i (draw i)

theorem run_append (w : World) (es es' : List Event) :
    w.run P (es ++ es') = (w.run P es).run P es' := List.foldl_append

theorem allPermitted_append {w : World} {es es' : List Event} :
    AllPermitted P w (es ++ es') ↔ AllPermitted P w es ∧ AllPermitted P (w.run P es) es' := by
  induction es generalizing w with
  | nil => exact ⟨fun h => ⟨trivial, h⟩, fun h => h.2⟩
  | cons e es ih =>
      show Permitted P w e ∧ AllPermitted P (w.step P e) (es ++ es') ↔ _
      rw [ih]
      exact and_assoc.symm

theorem OneChain.sends (h : OneChain P k e text n m w) (draw : Nat → U8Array 32) (count : Nat) :
    OneChain P k e text (n + count) m (w.run P (aliceSends text draw count)) := by
  induction count with
  | zero => exact h
  | succ count ih =>
      unfold aliceSends World.run at ih ⊢
      rw [List.range_succ, List.map_append, List.foldl_append]
      exact ih.send (draw count)

theorem OneChain.arrivals (h : OneChain P k e text n 0 w) (draw : Nat → U8Array 32) {count : Nat}
    (hcount : count ≤ n) (hfits : count < 2 ^ 32) :
    AllPermitted P w (inOrder draw count) ∧
      OneChain P k e text n count (w.run P (inOrder draw count)) := by
  induction count with
  | zero => exact ⟨trivial, h⟩
  | succ count ih =>
      obtain ⟨hperm, hchain⟩ := ih (Nat.le_of_succ_le hcount) (Nat.lt_of_succ_lt hfits)
      have hsucc : inOrder draw (count + 1) = inOrder draw count ++ [.deliver count (draw count)] := by
        unfold inOrder
        rw [List.range_succ, List.map_append]
        rfl
      have hlast := hchain.permitted hcount (Nat.le_refl count) (Nat.mod_le _ _) (draw count)
      rw [hsucc, run_append]
      exact ⟨allPermitted_append.mpr ⟨hperm, hlast, trivial⟩,
        hchain.deliver hcount hfits (draw count)⟩

theorem Started.oneChain (h : Started P k text e w) : OneChain P k e text 1 0 w where
  ids := h.ids
  stands := h.alice.1
  length := by
    rw [h.sent]
    rfl
  sent i hi := by
    rw [Nat.lt_one_iff.mp hi, h.sent]
    exact ⟨0, rfl⟩
  reads := ⟨_, .start, h.bob.2.2.2, rfl, chainInStep_start P _ _, rfl, rfl⟩
  opened := h.opened

/-- The message that is numbered 2^32 has the counter of the first. -/
theorem OneChain.lost (h : OneChain P k e text 1 0 w) (draw : Nat → U8Array 32) {last : Nat}
    (hlast : last = 2 ^ 32) :
    let sent := w.run P (aliceSends text draw last)
    let behind := sent.run P (inOrder draw (last - 1))
    AllPermitted P sent (inOrder draw (last - 1)) ∧
      Permitted P behind (.deliver last (draw 0)) ∧
      behind.opened = (List.range (last - 1)).map (fun i => (i, .ok text)) ∧
      (behind.step P (.deliver last (draw 0))).opened = behind.opened ++
        [(last, .error (.malformed "counter out of range"))] := by
  intro sent behind
  have hsent := h.sends draw last
  have hcount : last - 1 ≤ 1 + last := by omega
  obtain ⟨hperm, hbehind⟩ := hsent.arrivals draw hcount (by omega)
  refine ⟨hperm, ?_, hbehind.opened, ?_⟩
  · refine hbehind.permitted (by omega) (by omega) ?_ (draw 0)
    rw [hlast, Nat.mod_self]
    exact Nat.zero_le _
  · exact hbehind.wrapped (by omega) hlast (by omega) (draw 0)

end Wrap

/-- **A message that is lost.** Alice sends on her first chain until the index starts over, and
    Bob gets the first 2^32 - 1 messages in order. The one that is numbered 2^32 has the counter of
    the first: Bob's chain is past it, and there is no key for it. Every delivery is permitted, and
    no event draws a key. -/
theorem message_after_wrap_lost :
    ∃ start, startWorld primitives keyMaterial hi 1 1 (some 1) = some start ∧
      ∀ draw : Nat → U8Array 32,
        let sent := start.run primitives (aliceSends hi draw (2 ^ 32))
        let behind := sent.run primitives (inOrder draw (2 ^ 32 - 1))
        AllPermitted primitives sent (inOrder draw (2 ^ 32 - 1)) ∧
          Permitted primitives behind (.deliver (2 ^ 32) (draw 0)) ∧
          behind.opened = (List.range (2 ^ 32 - 1)).map (fun i => (i, .ok hi)) ∧
          (behind.step primitives (.deliver (2 ^ 32) (draw 0))).opened = behind.opened ++
            [(2 ^ 32, .error (.malformed "counter out of range"))] := by
  obtain ⟨start, e, hstart, hstarted⟩ :=
    startWorld_started primitives keyMaterial hi 1 1 (some 1)
  exact ⟨start, hstart, fun draw => hstarted.oneChain.lost draw rfl⟩

end Ruwa.Crypto.Signal
