/-
  File:      Ruwa/Session/GroupReceive.lean
  Subject:   RECEIVING FROM A GROUP (`session.rs`, `decrypt_group_message`): a distribution in a 1:1
             envelope sets the state of its participant, a message moves it on.

  The states are stored under the participant as the stanza spells it, and a distribution replaces
  what is stored there, the keys of passed messages included. In between any mappings between phone
  numbers and LIDs are learned; the states are not moved.

  * `Sound` -- the invariant: each stored state is in step with the key that was last installed
    under that participant;
  * `installs_sound`, `message_sound` -- the two halves of a stanza;
  * **`group_kept`** -- no message is lost in a run exactly when every due message is within reach
    of the state that its participant has once the stanza's own distributions are installed.
-/
import Ruwa.Crypto.Distribution
import Ruwa.Library.Run
import Ruwa.Session.Identity
import Ruwa.Session.Padding

namespace Ruwa.Session.Group

open Ruwa.Library
open Ruwa.Crypto
open Ruwa.Crypto.SenderKey

/-! ## 1. The source -/

/-- A message from a 1:1 envelope: its bytes, and the distribution that it carries. -/
structure DirectMessage where
  bytes : Bytes
  distribution : Option Bytes

/-- An `<enc>` of a group stanza. Of a 1:1 envelope (`pkmsg`, `msg`) it is the message, if the
    envelope opens and is one. -/
inductive Enc
  | direct (plain : Option DirectMessage)
  | skmsg (version : Nat) (ct : Bytes)
  | other

/-- The rows of one session and group: the state of each `sender`. -/
abbrev SenderKeys := List Char → Option SenderKeyReceiverState

def installFrom (sender : List Char) (keys : SenderKeys) : Enc → SenderKeys
  | .direct (some ⟨_, some axolotl⟩) =>
      match parseDistributionWire axolotl with
      | .ok dist => Function.update keys sender (some (installDistribution dist))
      | .error _ => keys
  | _ => keys

/-- The group message of a stanza. -/
def Enc.skmsg? : Enc → Option (Nat × Bytes)
  | skmsg version ct => some (version, ct)
  | _ => none

/-- The plaintext of a 1:1 envelope. -/
def Enc.plain? : Enc → Option Bytes
  | direct (some plain) => some plain.bytes
  | _ => none

section

variable (P : SenderKeyPrimitives)

/-- The group message itself. The state is saved only when it opens. -/
def decryptSkmsg (keys : SenderKeys) (sender : List Char) (version : Nat) (ct : Bytes) :
    Option Bytes × SenderKeys :=
  match keys sender with
  | none => (none, keys)
  | some recv =>
      match decryptSenderKeyMessage P recv ct with
      | (.ok padded, recv) =>
          ((unpadMessageV padded version).toOption, Function.update keys sender (some recv))
      | (.error _, _) => (none, keys)

/-- The plaintext of a stanza, if any, and the states afterwards. The first group message decides;
    without one it is the last 1:1 envelope. -/
def decryptGroupMessage (keys : SenderKeys) (sender : List Char) (encs : List Enc) :
    Option Bytes × SenderKeys :=
  let keys := encs.foldl (installFrom sender) keys
  match encs.findSome? Enc.skmsg? with
  | none => ((encs.filterMap Enc.plain?).getLast?, keys)
  | some (version, ct) => decryptSkmsg P keys sender version ct

end

/-! ## 2. One sender device -/

/-- A message to the group: what is encrypted, and what a receiver is to read. -/
structure Post where
  nonce : U8Array 64
  padded : Bytes
  version : Nat
  text : Bytes
  unpads : unpadMessageV padded version = .ok text

/-- The keys of a sender device. What one of them signed does not verify under another. -/
structure KeyRing (P : SenderKeyPrimitives) (κ : Type) where
  key : κ → SenderKeyState
  signing : ∀ g, (key g).signingKeypairPub = P.xeddsa.pub (key g).signingKeypairPriv
  apart : ∀ g g' k nonce padded, g ≠ g' →
    signatureVerifies P (key g').signingKeypairPub
      (encryptSenderKeyMessage P (stateAt P (key g) k) nonce padded).1 = false

/-- A sender device: its keys, and what it writes under each of them. -/
structure GroupSender (P : SenderKeyPrimitives) (κ : Type) extends KeyRing P κ where
  post : κ → Nat → Post
  envelope : κ → Nat → Bytes

section

variable {P : SenderKeyPrimitives} {κ : Type}

/-- The wire of the message `k` under a key. -/
def GroupSender.wire (S : GroupSender P κ) (g : κ) (k : Nat) : Bytes :=
  (encryptSenderKeyMessage P (stateAt P (S.key g) k) (S.post g k).nonce (S.post g k).padded).1

/-- The envelope with the position `j` of a key. -/
def GroupSender.announcement (S : GroupSender P κ) (g : κ) (j : Nat) : Enc :=
  .direct (some ⟨S.envelope g j,
    some (serializeDistributionWire (stateAt P (S.key g) j).distribution)⟩)

/-- A stanza of the device: the form its participant has in it, the positions it announces and the
    message it carries. -/
structure Arrival (κ : Type) where
  participant : Form
  announced : List (κ × Nat)
  message : Option (κ × Nat)

def Arrival.encs (S : GroupSender P κ) (a : Arrival κ) : List Enc :=
  a.announced.map (fun p => S.announcement p.1 p.2) ++
    a.message.toList.map fun p => .skmsg (S.post p.1 p.2).version (S.wire p.1 p.2)

/-! ## 3. Runs -/

/-- What the receiver stores, and the history: the key and the window of each participant, the
    positions that were announced, the messages that were read and those that were not. -/
structure World (κ : Type) where
  table : List LidPnRow
  keys : SenderKeys
  windows : List Char → Option (κ × SkipWindow)
  announced : List (κ × Nat)
  delivered : List (κ × Nat)
  lost : List (κ × Nat)

def World.start : World κ := ⟨[], fun _ => none, fun _ => none, [], [], []⟩

/-- An announced position starts a new window for its participant. -/
def openWindow (participant : List Char) (windows : List Char → Option (κ × SkipWindow))
    (p : κ × Nat) : List Char → Option (κ × SkipWindow) :=
  Function.update windows participant (some (p.1, .startAt p.2))

/-- The windows once the stanza's own distributions are installed. -/
def World.opened (w : World κ) (a : Arrival κ) : List Char → Option (κ × SkipWindow) :=
  a.announced.foldl (openWindow a.participant.jid) w.windows

variable [DecidableEq κ]

/-- A message that was not read yet, and whose own distribution was delivered, at the latest with
    it. -/
def World.due (w : World κ) (a : Arrival κ) (p : κ × Nat) : Prop :=
  ¬w.delivered.contains p ∧
    ((w.announced ++ a.announced).any fun q => q.1 = p.1 && q.2 ≤ p.2) = true

instance (w : World κ) (a : Arrival κ) (p : κ × Nat) : Decidable (w.due a p) :=
  inferInstanceAs (Decidable (_ ∧ _))

/-- The window of the participant reaches the message. -/
def Within (windows : List Char → Option (κ × SkipWindow)) (participant : List Char)
    (p : κ × Nat) : Prop :=
  ∃ win, windows participant = some (p.1, win) ∧ win.Reach MAX_SKIPPED_SENDER_KEYS p.2

instance (windows : List Char → Option (κ × SkipWindow)) (participant : List Char) (p : κ × Nat) :
    Decidable (Within windows participant p) :=
  match h : windows participant with
  | none => .isFalse fun ⟨_, hwin, _⟩ => nomatch h.symm.trans hwin
  | some (g, win) =>
      if hreach : g = p.1 ∧ win.Reach MAX_SKIPPED_SENDER_KEYS p.2 then
        .isTrue ⟨win, hreach.1 ▸ h, hreach.2⟩
      else
        .isFalse fun ⟨win', hwin, hreach'⟩ => by
          cases h.symm.trans hwin
          exact hreach ⟨rfl, hreach'⟩

/-- The windows after the stanza's message. -/
def readWindow (windows : List Char → Option (κ × SkipWindow)) (participant : List Char)
    (p : κ × Nat) : List Char → Option (κ × SkipWindow) :=
  match windows participant with
  | none => windows
  | some (g, win) =>
      if g = p.1 ∧ win.Reach MAX_SKIPPED_SENDER_KEYS p.2 then
        Function.update windows participant (some (g, win.advance MAX_SKIPPED_SENDER_KEYS p.2))
      else windows

/-- A stanza with this text, and what came of it. -/
def World.receive (w : World κ) (a : Arrival κ) (text : Bytes)
    (result : Option Bytes × SenderKeys) : World κ :=
  let w' := { w with keys := result.2, announced := w.announced ++ a.announced }
  match a.message with
  | none => { w' with windows := w.opened a }
  | some p =>
      let w' := { w' with windows := readWindow (w.opened a) a.participant.jid p }
      if result.1 = some text then { w' with delivered := p :: w.delivered }
      else if w.due a p then { w' with lost := p :: w.lost }
      else w'

def Arrival.text (S : GroupSender P κ) (a : Arrival κ) : Bytes :=
  (a.message.map fun p => (S.post p.1 p.2).text).getD []

inductive Event (κ : Type)
  | learn (row : LidPnRow)
  | stanza (a : Arrival κ)

def World.step (S : GroupSender P κ) (w : World κ) : Event κ → Option (World κ)
  | .learn row => some { w with table := lidPnPut w.table row }
  | .stanza a =>
      some (w.receive a (a.text S) (decryptGroupMessage P w.keys a.participant.jid (a.encs S)))

/-- A due message is within reach of its participant's window. -/
def World.Reaches (w : World κ) (a : Arrival κ) : Prop :=
  ∀ p ∈ a.message, w.due a p → Within (w.opened a) a.participant.jid p

instance (w : World κ) (a : Arrival κ) : Decidable (w.Reaches a) :=
  inferInstanceAs (Decidable (∀ p ∈ a.message, w.due a p →
    Within (w.opened a) a.participant.jid p))

/-- The numbers of a stanza are in the range of the index. -/
def Arrival.InRange (R : KeyRing P κ) (a : Arrival κ) : Prop :=
  (∀ p ∈ a.announced, Room (R.key p.1) p.2) ∧ ∀ p ∈ a.message, Room (R.key p.1) (p.2 + 1)

instance (R : KeyRing P κ) (a : Arrival κ) : Decidable (a.InRange R) :=
  inferInstanceAs (Decidable ((∀ p ∈ a.announced, _ < _) ∧ ∀ p ∈ a.message, _ < _))

/-- **The condition** on a step. -/
def Proper (w : World κ) : Event κ → Prop
  | .learn _ => True
  | .stanza a => w.Reaches a

/-- The range of a step. -/
def InRange (S : GroupSender P κ) : Event κ → Prop
  | .learn _ => True
  | .stanza a => a.InRange S.toKeyRing

instance (w : World κ) : (e : Event κ) → Decidable (Proper w e)
  | .learn _ => inferInstanceAs (Decidable True)
  | .stanza a => inferInstanceAs (Decidable (w.Reaches a))

instance (S : GroupSender P κ) : (e : Event κ) → Decidable (InRange S e)
  | .learn _ => inferInstanceAs (Decidable True)
  | .stanza a => inferInstanceAs (Decidable (a.InRange S.toKeyRing))

end

/-! ## 4. The invariant -/

section Sound

variable {P : SenderKeyPrimitives} {κ : Type} {R : KeyRing P κ} {S : GroupSender P κ}
  {keys : SenderKeys} {windows : List Char → Option (κ × SkipWindow)}

/-- **The invariant** of the stored states, against the windows. -/
structure Sound (R : KeyRing P κ) (keys : SenderKeys)
    (windows : List Char → Option (κ × SkipWindow)) : Prop where
  absent : ∀ sender, windows sender = none → keys sender = none
  present : ∀ sender g win, windows sender = some (g, win) →
    ∃ recv, keys sender = some recv ∧ InStep P (R.key g) win recv ∧ Room (R.key g) win.next

theorem sound_start (R : KeyRing P κ) : Sound R (fun _ => none) (fun _ => none) :=
  ⟨fun _ _ => rfl, fun _ _ _ h => nomatch h⟩

/-- A state that is stored with its window. -/
theorem Sound.stored (h : Sound R keys windows) (sender : List Char) {g : κ} {win : SkipWindow}
    {recv : SenderKeyReceiverState} (hstep : InStep P (R.key g) win recv)
    (hroom : Room (R.key g) win.next) :
    Sound R (Function.update keys sender (some recv))
      (Function.update windows sender (some (g, win))) := by
  refine ⟨fun other hnone => ?_, fun other g' win' hsome => ?_⟩
  · by_cases hother : other = sender
    · subst hother
      rw [Function.update_self] at hnone
      cases hnone
    · rw [Function.update_of_ne hother] at hnone ⊢
      exact h.absent other hnone
  · by_cases hother : other = sender
    · subst hother
      rw [Function.update_self] at hsome ⊢
      cases hsome
      exact ⟨recv, rfl, hstep, hroom⟩
    · rw [Function.update_of_ne hother] at hsome ⊢
      exact h.present other g' win' hsome

/-- What was announced is what is installed. -/
theorem installFrom_announcement (sender : List Char) (keys : SenderKeys) (g : κ) (j : Nat) :
    installFrom sender keys (S.announcement g j) =
      Function.update keys sender
        (some (installDistribution (stateAt P (S.key g) j).distribution)) := by
  unfold GroupSender.announcement installFrom
  simp only [parse_serialize]

/-- **The distributions of a stanza**, installed one after the other. -/
theorem installs_sound (h : Sound S.toKeyRing keys windows) (sender : List Char)
    {announced : List (κ × Nat)} (hroom : ∀ p ∈ announced, Room (S.key p.1) p.2) :
    Sound S.toKeyRing
      ((announced.map fun p => S.announcement p.1 p.2).foldl (installFrom sender) keys)
      (announced.foldl (openWindow sender) windows) := by
  induction announced generalizing keys windows with
  | nil => exact h
  | cons p announced ih =>
      rw [List.map_cons, List.foldl_cons, List.foldl_cons, installFrom_announcement]
      have hnext := h.stored sender (inStep_installAt (S.key p.1) p.2) (hroom p List.mem_cons_self)
      exact ih hnext fun q hq => hroom q (List.mem_cons_of_mem p hq)

/-- The message of a stanza is read with what the stanza installs. -/
theorem decryptGroupMessage_encs (S : GroupSender P κ) (keys : SenderKeys) (a : Arrival κ) :
    let installed := (a.announced.map fun p => S.announcement p.1 p.2).foldl
      (installFrom a.participant.jid) keys
    (a.message = none →
      (decryptGroupMessage P keys a.participant.jid (a.encs S)).2 = installed) ∧
    ∀ p, a.message = some p →
      decryptGroupMessage P keys a.participant.jid (a.encs S) =
        decryptSkmsg P installed a.participant.jid (S.post p.1 p.2).version (S.wire p.1 p.2) := by
  intro installed
  have hnone : (a.announced.map fun p => S.announcement p.1 p.2).findSome? Enc.skmsg? = none := by
    refine List.findSome?_eq_none_iff.mpr fun enc henc => ?_
    obtain ⟨p, -, rfl⟩ := List.mem_map.mp henc
    rfl
  refine ⟨fun hmessage => ?_, fun p hmessage => ?_⟩
  · unfold decryptGroupMessage Arrival.encs
    rw [hmessage, List.findSome?_append, hnone]
    simp only [Option.toList_none, List.map_nil, List.append_nil, List.findSome?_nil]
    rfl
  · unfold decryptGroupMessage Arrival.encs
    rw [hmessage, List.findSome?_append, hnone, List.foldl_append]
    rfl

variable [DecidableEq κ]

theorem readWindow_within {sender : List Char} {g : κ} {win : SkipWindow} {k : Nat}
    (hwin : windows sender = some (g, win)) (hreach : win.Reach MAX_SKIPPED_SENDER_KEYS k) :
    readWindow windows sender (g, k) =
      Function.update windows sender (some (g, win.advance MAX_SKIPPED_SENDER_KEYS k)) := by
  unfold readWindow
  rw [hwin]
  exact if_pos ⟨rfl, hreach⟩

theorem readWindow_beyond {sender : List Char} {p : κ × Nat}
    (hout : ¬Within windows sender p) : readWindow windows sender p = windows := by
  unfold readWindow
  cases hwin : windows sender with
  | none => rfl
  | some stored =>
      refine if_neg fun hboth => hout ⟨stored.2, ?_, hboth.2⟩
      rw [hwin, ← hboth.1]

/-- A message that is not opened leaves the state as it is. -/
theorem decryptSkmsg_refused {sender : List Char} {recv : SenderKeyReceiverState} {wire : Bytes}
    (hrecv : keys sender = some recv) (version : Nat)
    (hrefused : ∃ e, decryptSenderKeyMessage P recv wire = (.error e, recv)) :
    decryptSkmsg P keys sender version wire = (none, keys) := by
  obtain ⟨e, he⟩ := hrefused
  unfold decryptSkmsg
  rw [hrecv]
  simp only [he]

/-- **The message of a stanza**: it is read exactly when it is within reach. -/
theorem message_sound (h : Sound S.toKeyRing keys windows) (sender : List Char) {p : κ × Nat}
    (hroom : Room (S.key p.1) (p.2 + 1)) :
    let read := decryptSkmsg P keys sender (S.post p.1 p.2).version (S.wire p.1 p.2)
    Sound S.toKeyRing read.2 (readWindow windows sender p) ∧
      (read.1 = some (S.post p.1 p.2).text ↔ Within windows sender p) := by
  obtain ⟨g, k⟩ := p
  intro read
  have hk : Room (S.key g) k := Nat.lt_of_succ_lt hroom
  -- What is out of reach is not read, and nothing changes.
  have hbeyond : ¬Within windows sender (g, k) → read = (none, keys) →
      Sound S.toKeyRing read.2 (readWindow windows sender (g, k)) ∧
        (read.1 = some (S.post g k).text ↔ Within windows sender (g, k)) := by
    intro hout hread
    rw [hread, readWindow_beyond hout]
    exact ⟨h, fun hsome => (nomatch hsome), fun hwithin => absurd hwithin hout⟩
  cases hwin : windows sender with
  | none =>
      refine hbeyond (fun ⟨win, hsome, _⟩ => absurd (hwin.symm.trans hsome) nofun) ?_
      unfold read decryptSkmsg
      rw [h.absent sender hwin]
  | some stored =>
      obtain ⟨g', win⟩ := stored
      obtain ⟨recv, hrecv, hstep, hnext⟩ := h.present sender g' win hwin
      have hwithin : Within windows sender (g, k) →
          g' = g ∧ win.Reach MAX_SKIPPED_SENDER_KEYS k := by
        rintro ⟨win', hsome, hreach⟩
        cases hwin.symm.trans hsome
        exact ⟨rfl, hreach⟩
      by_cases hg : g' = g
      · subst hg
        by_cases hreach : win.Reach MAX_SKIPPED_SENDER_KEYS k
        · obtain ⟨recv', hopen, hstep'⟩ := hstep.decrypt_reach hnext hk (S.signing g') hreach
            ⟨(S.post g' k).nonce, (S.post g' k).padded⟩
          have hread : read =
              (some (S.post g' k).text, Function.update keys sender (some recv')) := by
            unfold read decryptSkmsg GroupSender.wire
            rw [hrecv]
            simp only [hopen, (S.post g' k).unpads]
            rfl
          have hadvanced : Room (S.key g') (win.advance MAX_SKIPPED_SENDER_KEYS k).next := by
            rw [SkipWindow.next_advance]
            rcases Nat.le_total win.next (k + 1) with hle | hle
            · rwa [Nat.max_eq_right hle]
            · rwa [Nat.max_eq_left hle]
          rw [hread, readWindow_within hwin hreach]
          exact ⟨h.stored sender hstep' hadvanced, fun _ => ⟨win, hwin, hreach⟩, fun _ => rfl⟩
        · refine hbeyond (fun hin => hreach (hwithin hin).2) (decryptSkmsg_refused hrecv _ ?_)
          exact hstep.decrypt_beyond hnext hk (S.signing g') hreach
            ⟨(S.post g' k).nonce, (S.post g' k).padded⟩
      · refine hbeyond (fun hin => hg (hwithin hin).1) (decryptSkmsg_refused hrecv _ ?_)
        refine unverified_unchanged P ?_
        rw [hstep.signing]
        exact S.apart g g' k _ _ (Ne.symm hg)

/-! ## 5. A whole stanza -/

/-- **A stanza** keeps the invariant, and loses a message exactly when it is due and out of reach. -/
theorem stanza_kept {w : World κ} {a : Arrival κ} (h : Sound S.toKeyRing w.keys w.windows)
    (hrange : a.InRange S.toKeyRing) :
    let w' := w.receive a (a.text S) (decryptGroupMessage P w.keys a.participant.jid (a.encs S))
    Sound S.toKeyRing w'.keys w'.windows ∧ (w'.lost = [] ↔ w.lost = [] ∧ w.Reaches a) := by
  obtain ⟨hannounced, hnumber⟩ := hrange
  have hinstalled := installs_sound h a.participant.jid hannounced
  obtain ⟨hquiet, hcarrying⟩ := decryptGroupMessage_encs S w.keys a
  unfold World.receive World.Reaches Arrival.text
  cases hmessage : a.message with
  | none =>
      dsimp only
      rw [hquiet hmessage]
      exact ⟨hinstalled, fun hlost => ⟨hlost, nofun⟩, And.left⟩
  | some p =>
      obtain ⟨hsound, hread⟩ :=
        message_sound hinstalled a.participant.jid (hnumber p hmessage)
      dsimp only [Option.map_some, Option.getD_some]
      rw [hcarrying p hmessage]
      split
      · rename_i hplain
        refine ⟨hsound, fun hlost => ⟨hlost, fun q hq _ => ?_⟩, And.left⟩
        cases hq
        exact hread.mp hplain
      · rename_i hplain
        split
        · rename_i hdue
          refine ⟨hsound, fun hlost => (nomatch hlost), fun ⟨_, hreaches⟩ => ?_⟩
          exact absurd (hread.mpr (hreaches p rfl hdue)) hplain
        · rename_i hdue
          refine ⟨hsound, fun hlost => ⟨hlost, fun q hq hdue' => ?_⟩, And.left⟩
          cases hq
          exact absurd hdue' hdue

/-- **Receiving from a group**, over every run of stanzas and mappings with numbers in range: no due
    message is lost exactly when each was within reach where it arrived. -/
theorem group_kept {events : List (Event κ)} {w : World κ}
    (hrange : ∀ e ∈ events, InRange S e) (hrun : runFrom (World.step S) .start events = some w) :
    w.lost = [] ↔ Meets (World.step S) Proper .start events := by
  have hkeep : ∀ w e w', Sound S.toKeyRing w.keys w.windows → InRange S e →
      World.step S w e = some w' →
      Sound S.toKeyRing w'.keys w'.windows ∧ (w'.lost = [] ↔ w.lost = [] ∧ Proper w e) := by
    intro w e w' hsound hrange hstep
    cases e with
    | learn row =>
        cases hstep
        exact ⟨hsound, fun hlost => ⟨hlost, trivial⟩, And.left⟩
    | stanza a =>
        cases hstep
        exact stanza_kept hsound hrange
  have hiff := run_iff (I := fun w : World κ => Sound S.toKeyRing w.keys w.windows)
    (F := fun w => w.lost = []) hkeep (sound_start S.toKeyRing) hrange hrun
  exact hiff.trans ⟨And.right, fun hmeets => ⟨rfl, hmeets⟩⟩

end Sound

/-! ### Three runs with their real bytes -/

namespace Sample

open SenderKey.Known

/-- The first key of a device, and the one it rotates to. -/
def ring : Bool → SenderKeyState
  | false => sender 0
  | true => rotated

theorem ring_pub (g : Bool) :
    (ring g).signingKeypairPub = known signers (.replicate 32 0) (ring g).signingKeypairPriv := by
  cases g <;> decide +kernel

theorem ring_ne {g g' : Bool} (h : g ≠ g') :
    (ring g).signingKeypairPub ≠ (ring g').signingKeypairPub := by
  cases g <;> cases g' <;> first | exact absurd rfl h | decide +kernel

/-- What one of the two keys signed does not verify under the other. -/
theorem ring_apart {P : SenderKeyPrimitives} {sigs : List ((U8Array 32 × Bytes) × U8Array 64)}
    (hP : P.xeddsa = .ofTable signers sigs)
    (hrows : ∀ r ∈ sigs, ∀ r' ∈ sigs, r.1.1 ≠ r'.1.1 → r.2 ≠ r'.2)
    (htwice : ∀ r ∈ sigs, r.2.bytes.take 32 ≠ r.2.bytes.drop 32)
    (g g' : Bool) (k : Nat) (nonce : U8Array 64) (padded : Bytes) (h : g ≠ g') :
    signatureVerifies P (ring g').signingKeypairPub
      (encryptSenderKeyMessage P (stateAt P (ring g) k) nonce padded).1 = false := by
  obtain ⟨body, hbody⟩ := signatureVerifies_encrypt P (ring g').signingKeypairPub
    (stateAt P (ring g) k) nonce padded
  have hne := ring_ne h
  rw [ring_pub g] at hne
  rw [hbody, hP]
  exact XEdDsa.ofTable_apart hrows htwice hne body nonce

/-- Two messages under the first key, and one under the second. -/
def device : GroupSender primitives Bool where
  key := ring
  signing := ring_pub
  apart := ring_apart rfl (by decide +kernel) (by decide +kernel)
  post g k :=
    let padded := if g then two else if k = 0 then zero else one
    ⟨.replicate 64 0, padded, 3, padded, rfl⟩
  envelope _ _ := []

def number : UserPart :=
  ⟨"4917612345678".toList, by decide, List.all_iff_forall_prop.mp (by decide)⟩
def lid : UserPart :=
  ⟨"271828182845".toList, by decide, List.all_iff_forall_prop.mp (by decide)⟩
def byNumber : Form := ⟨number, none, none, .pn⟩
def byLid : Form := ⟨lid, none, none, .lid⟩

def learnt : Event Bool := .learn ⟨"s", lid, number, 1⟩

def announcing (participant : Form) (g : Bool) (j : Nat) (k : Option Nat) : Event Bool :=
  .stanza ⟨participant, [(g, j)], k.map fun k => (g, k)⟩

def plainly (participant : Form) (k : Nat) : Event Bool :=
  .stanza ⟨participant, [], some (false, k)⟩

/-- The second message overtakes the first; then the device rotates its key. -/
def overtaken : List (Event Bool) :=
  [announcing byLid false 0 none, learnt, plainly byLid 1, plainly byLid 0,
    announcing byLid true 0 (some 0)]

/-- The second message overtakes the first, and brings its own distribution. -/
def redistributed : List (Event Bool) :=
  [announcing byLid false 0 none, announcing byLid false 1 (some 1), plainly byLid 0]

/-- The distribution comes from the phone number and the message from the LID. -/
def readdressed : List (Event Bool) := [announcing byNumber false 0 none, learnt, plainly byLid 0]

end Sample

/-- A message is lost to a distribution that overtakes it, and one to the form of its participant. -/
theorem group_lost :
    (∃ w, runFrom (World.step Sample.device) .start Sample.redistributed = some w ∧
      w.lost = [(false, 0)]) ∧
    ∃ w, runFrom (World.step Sample.device) .start Sample.readdressed = some w ∧
      w.lost = [(false, 0)] := by
  refine ⟨Option.map_eq_some_iff.mp ?_, Option.map_eq_some_iff.mp ?_⟩
  · decide +kernel
  · decide +kernel

/-- A message that is overtaken is read all the same, and one under the key that comes after it. -/
theorem group_kept_overtaken :
    ∃ w, runFrom (World.step Sample.device) .start Sample.overtaken = some w ∧ w.lost = [] ∧
      w.delivered = [(true, 0), (false, 0), (false, 1)] := by
  obtain ⟨w, hw, hdelivered⟩ := Option.map_eq_some_iff.mp
    (show (runFrom (World.step Sample.device) .start Sample.overtaken).map (·.delivered) =
      some [(true, 0), (false, 0), (false, 1)] by decide +kernel)
  have hrange : ∀ e ∈ Sample.overtaken, InRange Sample.device e := by decide +kernel
  have hmeets : Meets (World.step Sample.device) Proper .start Sample.overtaken := by
    decide +kernel
  exact ⟨w, hw, (group_kept hrange hw).mpr hmeets, hdelivered⟩

end Ruwa.Session.Group
