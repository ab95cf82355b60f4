/-
  File:      Ruwa/Session/Consolidate.lean
  Subject:   THE TWO CHATS OF ONE CONTACT become one (`store.rs`, `consolidate_lid_chats`).

  A contact who is known by a LID first has a chat under it, and another one under the phone number
  once that is learned. When the session connects, the LID chats are folded into those of the phone
  numbers: a row whose key is free there is moved, any other is removed.

  * `consolidateLidChats` -- the statements, one pair of chats after the other;
  * `row_consolidated` -- the row of a message afterwards, in every chat;
  * `consolidate_again` -- a second run finds nothing to do;
  * **`loses_nothing_iff`** -- nothing is lost exactly when every row that stays has what the rows
    that go had.
-/
import Ruwa.Library.Rekey
import Ruwa.Session.Identity

namespace Ruwa.Session.Consolidate

open Ruwa.Library

/-! ## 1. The tables -/

/-- A row of `messages`. -/
structure Row where
  sessionId : String
  chatJid : List Char
  messageId : String
  senderJid : List Char
  fromMe : Bool
  timestamp : Int
  msgType : String
  bodyText : Option String
  payloadJson : String
  mediaPath : Option String
  status : String
  edited : Bool
  revoked : Bool
  deriving DecidableEq

/-- A row of `chats`. -/
structure Chat where
  sessionId : String
  jid : List Char
  name : Option String
  isGroup : Bool
  lastMsgTs : Option Int
  archived : Bool
  pinned : Bool
  mutedUntil : Option Int
  cloudWindowExpiresAt : Option Int
  deriving DecidableEq

/-- A chat of a session. -/
structure Place where
  sessionId : String
  jid : List Char
  deriving DecidableEq

/-- The primary keys of the two tables. An update leaves the session as it is: a row is only moved
    to a place of its own session. -/
def messageKey : Keying Row Place String where
  place r := ⟨r.sessionId, r.chatJid⟩
  name := Row.messageId
  move k r := { r with sessionId := k.sessionId, chatJid := k.jid }
  place_move _ _ := rfl
  name_move _ _ := rfl

def chatKey : Keying Chat Place Unit where
  place c := ⟨c.sessionId, c.jid⟩
  name _ := ()
  move k c := { c with sessionId := k.sessionId, jid := k.jid }
  place_move _ _ := rfl
  name_move _ _ := rfl

/-- The three tables, with the keys that the database keeps. -/
structure Store where
  messages : List Row
  chats : List Chat
  lidPnMap : List LidPnRow
  messages_keyed : messageKey.Keyed messages
  chats_keyed : chatKey.Keyed chats
  map_keyed : Keyed lidPnMap

/-! ## 2. The transaction -/

/-- The order in which a `SELECT` gives its rows. -/
structure Scan where
  order : List LidPnRow → List LidPnRow
  perm : ∀ rows, (order rows).Perm rows

def lidChat (m : LidPnRow) : Place := ⟨m.sessionId, m.lidUser.text ++ lidServer⟩
def pnChat (m : LidPnRow) : Place := ⟨m.sessionId, m.pnUser.text ++ pnServer⟩

/-- The LID still has a chat to fold. -/
def Folds (st : Store) (sessionId : String) (m : LidPnRow) : Prop :=
  m.sessionId = sessionId ∧
    ((∃ x ∈ st.messages, messageKey.place x = lidChat m) ∨
      ∃ c ∈ st.chats, chatKey.place c = lidChat m)

instance (st : Store) (sessionId : String) : DecidablePred (Folds st sessionId) :=
  fun _ => inferInstanceAs (Decidable (_ ∧ (_ ∨ _)))

/-- `pairs`: the chats to fold, and those they are folded into. -/
def foldedPairs (scan : Scan) (st : Store) (sessionId : String) : List (Place × Place) :=
  (scan.order (st.lidPnMap.filter fun m => Folds st sessionId m)).map fun m => (lidChat m, pnChat m)

/-- The four statements of one pair. -/
def Store.foldPair (st : Store) (lid pn : Place) : Store where
  messages := messageKey.clear (messageKey.rekey st.messages lid pn) lid
  chats := chatKey.clear (chatKey.rekey st.chats lid pn) lid
  lidPnMap := st.lidPnMap
  messages_keyed := Keying.keyed_fold st.messages_keyed
  chats_keyed := Keying.keyed_fold st.chats_keyed
  map_keyed := st.map_keyed

/-- The number of messages that were re-keyed, and the tables. -/
def consolidateLidChats (scan : Scan) (sessionId : String) (st : Store) : Nat × Store :=
  (foldedPairs scan st sessionId).foldl
    (fun acc p =>
      (acc.1 + (acc.2.messages.filter fun r => messageKey.Movable acc.2.messages p.1 p.2 r).length,
        acc.2.foldPair p.1 p.2))
    (0, st)

/-- The tables after it. -/
def after (scan : Scan) (sessionId : String) (st : Store) : Store :=
  (consolidateLidChats scan sessionId st).2

/-! ## 3. What must not be lost -/

def Row.Decrypted (r : Row) : Prop := r.msgType ≠ "undecryptable"

instance (r : Row) : Decidable r.Decrypted := inferInstanceAs (Decidable (_ ≠ _))

/-- What is set on a chat is set on another. -/
structure Chat.Keeps (c c' : Chat) : Prop where
  pinned : c.pinned = true → c'.pinned = true
  archived : c.archived = true → c'.archived = true
  name : c.name.isSome = true → c'.name.isSome = true

/-- A mapping of the session, and one of its two chats. -/
structure Concerns (st : Store) (sessionId : String) (m : LidPnRow) (k : Place) : Prop where
  mem : m ∈ st.lidPnMap
  session : m.sessionId = sessionId
  side : k = lidChat m ∨ k = pnChat m

/-- **Nothing is lost.** -/
structure LosesNothing (scan : Scan) (sessionId : String) (st : Store) : Prop where
  one : ∀ m r, r ∈ st.messages → Concerns st sessionId m (messageKey.place r) →
    ((after scan sessionId st).messages.filter fun r' =>
      messageKey.HasKey (pnChat m) r.messageId r').length = 1
  decrypted : ∀ m r, r ∈ st.messages → Concerns st sessionId m (messageKey.place r) →
    r.Decrypted → ∀ r' ∈ (after scan sessionId st).messages,
      messageKey.HasKey (pnChat m) r.messageId r' → r'.Decrypted
  flags : ∀ m c, c ∈ st.chats → Concerns st sessionId m (chatKey.place c) →
    ∃ c' ∈ (after scan sessionId st).chats, chatKey.place c' = pnChat m ∧ c.Keeps c'
  others : ∀ k, (∀ m, ¬Concerns st sessionId m k) →
    ((after scan sessionId st).messages.filter fun r => messageKey.place r = k) =
        st.messages.filter (fun r => messageKey.place r = k) ∧
      ((after scan sessionId st).chats.filter fun c => chatKey.place c = k) =
        st.chats.filter fun c => chatKey.place c = k
  again : consolidateLidChats scan sessionId (after scan sessionId st) = (0, after scan sessionId st)

/-- **The condition**: the row that stays, of the phone number's chat or else of the LID chat that
    is folded first, has what the others had. -/
structure Spared (scan : Scan) (sessionId : String) (st : Store) : Prop where
  messages : ∀ m r, r ∈ st.messages → Concerns st sessionId m (messageKey.place r) →
    r.Decrypted → ∀ r', messageKey.keeper st.messages (foldedPairs scan st sessionId) (pnChat m)
      r.messageId = some r' → r'.Decrypted
  chats : ∀ m c, c ∈ st.chats → Concerns st sessionId m (chatKey.place c) →
    ∀ c', chatKey.keeper st.chats (foldedPairs scan st sessionId) (pnChat m) () = some c' →
      c.Keeps c'

/-! ## 4. What a run leaves -/

section

variable {scan : Scan} {sessionId : String} {st : Store}

theorem lidChat_ne_pnChat (m m' : LidPnRow) : lidChat m ≠ pnChat m' := by
  intro h
  have hlast := congrArg (fun p : Place => p.jid.getLast?) h
  unfold lidChat pnChat at hlast
  dsimp only at hlast
  rw [List.getLast?_append, List.getLast?_append,
    show lidServer.getLast? = some 'd' by decide,
    show pnServer.getLast? = some 't' by decide] at hlast
  cases hlast

theorem mem_foldedPairs {p : Place × Place} : p ∈ foldedPairs scan st sessionId ↔
    ∃ m ∈ st.lidPnMap, Folds st sessionId m ∧ (lidChat m, pnChat m) = p := by
  unfold foldedPairs
  rw [List.mem_map]
  simp only [(scan.perm _).mem_iff, List.mem_filter, decide_eq_true_eq, and_assoc]

theorem separate_foldedPairs : Keying.Separate (foldedPairs scan st sessionId) where
  nodup := by
    unfold foldedPairs
    rw [List.map_map]
    have hfiltered := st.map_keyed.filter fun m => Folds st sessionId m
    have hdistinct : ((st.lidPnMap.filter fun m => Folds st sessionId m).map
        (Prod.fst ∘ fun m => (lidChat m, pnChat m))).Nodup := by
      refine List.pairwise_map.mpr (hfiltered.imp fun {m m'} hne hsame => hne ?_)
      have hsession : m.sessionId = m'.sessionId := congrArg Place.sessionId hsame
      have htext : m.lidUser.text ++ lidServer = m'.lidUser.text ++ lidServer :=
        congrArg Place.jid hsame
      exact ⟨hsession, UserPart.ext (List.append_cancel_right htext)⟩
    exact (((scan.perm _).map _).nodup_iff).mpr hdistinct
  apart p hp q hq := by
    obtain ⟨m, -, -, rfl⟩ := mem_foldedPairs.mp hp
    obtain ⟨m', -, -, rfl⟩ := mem_foldedPairs.mp hq
    exact lidChat_ne_pnChat m m'

/-- The loop folds each table by itself. -/
theorem after_tables :
    (after scan sessionId st).messages =
        messageKey.foldAll st.messages (foldedPairs scan st sessionId) ∧
      (after scan sessionId st).chats =
        chatKey.foldAll st.chats (foldedPairs scan st sessionId) ∧
      (after scan sessionId st).lidPnMap = st.lidPnMap := by
  have hrun : ∀ (pairs : List (Place × Place)) (acc : Nat × Store),
      let last := (pairs.foldl (fun acc p =>
        (acc.1 + (acc.2.messages.filter fun r =>
          messageKey.Movable acc.2.messages p.1 p.2 r).length, acc.2.foldPair p.1 p.2)) acc).2
      last.messages = messageKey.foldAll acc.2.messages pairs ∧
        last.chats = chatKey.foldAll acc.2.chats pairs ∧ last.lidPnMap = acc.2.lidPnMap := by
    intro pairs
    induction pairs with
    | nil => exact fun acc => ⟨rfl, rfl, rfl⟩
    | cons p pairs ih => exact fun acc => ih _
  exact hrun _ (0, st)

/-- **The row of a message afterwards**: none in a LID chat that was folded, the keeper in every
    other chat. -/
theorem row_consolidated (k : Place) (id : String) :
    messageKey.row (after scan sessionId st).messages k id =
      if k ∈ (foldedPairs scan st sessionId).map Prod.fst then none
      else messageKey.keeper st.messages (foldedPairs scan st sessionId) k id := by
  rw [after_tables.1]
  exact Keying.row_foldAll st.messages_keyed separate_foldedPairs k id

theorem chat_consolidated (k : Place) :
    chatKey.row (after scan sessionId st).chats k () =
      if k ∈ (foldedPairs scan st sessionId).map Prod.fst then none
      else chatKey.keeper st.chats (foldedPairs scan st sessionId) k () := by
  rw [after_tables.2.1]
  exact Keying.row_foldAll st.chats_keyed separate_foldedPairs k ()

theorem pnChat_not_folded (m : LidPnRow) :
    pnChat m ∉ (foldedPairs scan st sessionId).map Prod.fst := by
  intro hmem
  obtain ⟨p, hp, hfirst⟩ := List.mem_map.mp hmem
  obtain ⟨m', -, -, rfl⟩ := mem_foldedPairs.mp hp
  exact lidChat_ne_pnChat m' m hfirst

/-- The row of a phone number's chat is the keeper. -/
theorem row_pnChat (m : LidPnRow) (id : String) :
    messageKey.row (after scan sessionId st).messages (pnChat m) id =
      messageKey.keeper st.messages (foldedPairs scan st sessionId) (pnChat m) id :=
  (row_consolidated _ _).trans (if_neg (pnChat_not_folded m))

theorem chat_pnChat (m : LidPnRow) :
    chatKey.row (after scan sessionId st).chats (pnChat m) () =
      chatKey.keeper st.chats (foldedPairs scan st sessionId) (pnChat m) () :=
  (chat_consolidated _).trans (if_neg (pnChat_not_folded m))

/-- A chat with anything in it is folded, or is that of the phone number. -/
theorem side_of_concerns {m : LidPnRow} {k : Place} (h : Concerns st sessionId m k)
    (hused : (∃ x ∈ st.messages, messageKey.place x = k) ∨ ∃ c ∈ st.chats, chatKey.place c = k) :
    k = pnChat m ∨ (k, pnChat m) ∈ foldedPairs scan st sessionId := by
  rcases h.side with rfl | rfl
  · exact Or.inr (mem_foldedPairs.mpr ⟨m, h.mem, ⟨h.session, hused⟩, rfl⟩)
  · exact Or.inl rfl

theorem message_keeper (scan : Scan) {m : LidPnRow} {r : Row} (hr : r ∈ st.messages)
    (h : Concerns st sessionId m (messageKey.place r)) :
    ∃ r', messageKey.keeper st.messages (foldedPairs scan st sessionId) (pnChat m) r.messageId =
      some r' :=
  Option.isSome_iff_exists.mp
    (Keying.keeper_isSome hr (side_of_concerns h (Or.inl ⟨r, hr, rfl⟩)))

theorem chat_keeper (scan : Scan) {m : LidPnRow} {c : Chat} (hc : c ∈ st.chats)
    (h : Concerns st sessionId m (chatKey.place c)) :
    ∃ c', chatKey.keeper st.chats (foldedPairs scan st sessionId) (pnChat m) () = some c' :=
  Option.isSome_iff_exists.mp
    (Keying.keeper_isSome hc (side_of_concerns h (Or.inr ⟨c, hc, rfl⟩)))

/-- No LID chat of a mapping is left. -/
theorem lidChat_empty (scan : Scan) {m : LidPnRow} (hmem : m ∈ st.lidPnMap)
    (hsession : m.sessionId = sessionId) :
    (∀ id, messageKey.row (after scan sessionId st).messages (lidChat m) id = none) ∧
      chatKey.row (after scan sessionId st).chats (lidChat m) () = none := by
  by_cases hfolds : Folds st sessionId m
  · have hfirst : lidChat m ∈ (foldedPairs scan st sessionId).map Prod.fst :=
      List.mem_map.mpr ⟨_, mem_foldedPairs.mpr ⟨m, hmem, hfolds, rfl⟩, rfl⟩
    exact ⟨fun id => (row_consolidated _ id).trans (if_pos hfirst),
      (chat_consolidated _).trans (if_pos hfirst)⟩
  · -- There was nothing in it, and nothing is moved to a LID chat.
    have hempty := not_or.mp fun hused => hfolds ⟨hsession, hused⟩
    have hother : ∀ p ∈ foldedPairs scan st sessionId, p.2 ≠ lidChat m := by
      intro p hp
      obtain ⟨m', -, -, rfl⟩ := mem_foldedPairs.mp hp
      exact (lidChat_ne_pnChat m m').symm
    refine ⟨fun id => ?_, ?_⟩
    · rw [row_consolidated]
      split
      · rfl
      · refine Option.or_eq_none_iff.mpr ⟨?_, ?_⟩
        · exact Keying.row_eq_none.mpr fun r hr hkey => hempty.1 ⟨r, hr, hkey.1⟩
        · exact List.findSome?_eq_none_iff.mpr fun p hp => if_neg (hother p hp)
    · rw [chat_consolidated]
      split
      · rfl
      · refine Option.or_eq_none_iff.mpr ⟨?_, ?_⟩
        · exact Keying.row_eq_none.mpr fun c hc hkey => hempty.2 ⟨c, hc, hkey.1⟩
        · exact List.findSome?_eq_none_iff.mpr fun p hp => if_neg (hother p hp)

/-- **A second run finds nothing to do.** -/
theorem consolidate_again :
    consolidateLidChats scan sessionId (after scan sessionId st) =
      (0, after scan sessionId st) := by
  have hnone : ∀ m ∈ (after scan sessionId st).lidPnMap,
      ¬Folds (after scan sessionId st) sessionId m := by
    intro m hm ⟨hsession, hused⟩
    rw [after_tables.2.2] at hm
    obtain ⟨hmessages, hchats⟩ := lidChat_empty scan hm hsession
    rcases hused with ⟨x, hx, hplace⟩ | ⟨c, hc, hplace⟩
    · exact Keying.row_eq_none.mp (hmessages x.messageId) x hx ⟨hplace, rfl⟩
    · exact Keying.row_eq_none.mp hchats c hc ⟨hplace, rfl⟩
  have hpairs : foldedPairs scan (after scan sessionId st) sessionId = [] := by
    refine List.eq_nil_iff_forall_not_mem.mpr fun p hp => ?_
    obtain ⟨m, hm, hfolds, -⟩ := mem_foldedPairs.mp hp
    exact hnone m hm hfolds
  unfold consolidateLidChats
  rw [hpairs]
  rfl

/-- Chats of no mapping keep their rows. -/
theorem others_kept {k : Place} (h : ∀ m, ¬Concerns st sessionId m k) :
    ((after scan sessionId st).messages.filter fun r => messageKey.place r = k) =
        st.messages.filter (fun r => messageKey.place r = k) ∧
      ((after scan sessionId st).chats.filter fun c => chatKey.place c = k) =
        st.chats.filter fun c => chatKey.place c = k := by
  have hpairs : ∀ p ∈ foldedPairs scan st sessionId, k ≠ p.1 ∧ k ≠ p.2 := by
    intro p hp
    obtain ⟨m, hm, hfolds, rfl⟩ := mem_foldedPairs.mp hp
    exact ⟨fun hk => h m ⟨hm, hfolds.1, Or.inl hk⟩, fun hk => h m ⟨hm, hfolds.1, Or.inr hk⟩⟩
  rw [after_tables.1, after_tables.2.1]
  exact ⟨Keying.filter_foldAll hpairs, Keying.filter_foldAll hpairs⟩

/-- Each message has one row in the phone number's chat. -/
theorem one_row {m : LidPnRow} {r : Row} (hr : r ∈ st.messages)
    (h : Concerns st sessionId m (messageKey.place r)) :
    ((after scan sessionId st).messages.filter fun r' =>
      messageKey.HasKey (pnChat m) r.messageId r').length = 1 := by
  obtain ⟨r', hkeeper⟩ := message_keeper scan hr h
  rw [Keying.filter_hasKey (after scan sessionId st).messages_keyed, row_pnChat, hkeeper]
  rfl

end

/-- **What consolidation loses.** For every state of the tables and every order of the mappings,
    nothing is lost exactly when the condition holds. -/
theorem loses_nothing_iff (scan : Scan) (sessionId : String) (st : Store) :
    LosesNothing scan sessionId st ↔ Spared scan sessionId st := by
  constructor
  · intro h
    constructor
    · intro m r hr hm hdecrypted r' hkeeper
      obtain ⟨hmem, hkey⟩ := Keying.mem_of_row ((row_pnChat m r.messageId).trans hkeeper)
      exact h.decrypted m r hr hm hdecrypted r' hmem hkey
    · intro m c hc hm c' hkeeper
      obtain ⟨c'', hmem, hplace, hkeeps⟩ := h.flags m c hc hm
      have hrow := (Keying.row_eq_some (after scan sessionId st).chats_keyed).mpr
        ⟨hmem, hplace, rfl⟩
      cases (hrow.symm.trans (chat_pnChat m)).trans hkeeper
      exact hkeeps
  · intro h
    constructor
    · exact fun m r hr hm => one_row hr hm
    · intro m r hr hm hdecrypted r' hmem hkey
      have hrow := (Keying.row_eq_some (after scan sessionId st).messages_keyed).mpr ⟨hmem, hkey⟩
      exact h.messages m r hr hm hdecrypted r' ((row_pnChat m r.messageId).symm.trans hrow)
    · intro m c hc hm
      obtain ⟨c', hkeeper⟩ := chat_keeper scan hc hm
      obtain ⟨hmem, hkey⟩ := Keying.mem_of_row ((chat_pnChat m).trans hkeeper)
      exact ⟨c', hmem, hkey.1, h.chats m c hc hm c' hkeeper⟩
    · exact fun k hk => others_kept hk
    · exact consolidate_again

namespace Contact

theorem lid_ne : "64000000000001".toList ≠ [] := by decide

theorem lid_plain : ∀ c ∈ "64000000000001".toList, isUserEnd c = false :=
  List.all_iff_forall_prop.mp (by decide)

theorem pn_ne : "5511990000001".toList ≠ [] := by decide

theorem pn_plain : ∀ c ∈ "5511990000001".toList, isUserEnd c = false :=
  List.all_iff_forall_prop.mp (by decide)

def sam : LidPnRow :=
  ⟨"s1", ⟨"64000000000001".toList, lid_ne, lid_plain⟩, ⟨"5511990000001".toList, pn_ne, pn_plain⟩, 1⟩

def row (chat : Place) (msgType : String) (body : Option String) : Row :=
  ⟨chat.sessionId, chat.jid, "3EB0AA", chat.jid, false, 100, msgType, body, "\x7b\x7d", none, "received", false,
    false⟩

def chat (place : Place) (pinned : Bool) : Chat :=
  ⟨place.sessionId, place.jid, none, false, some 100, false, pinned, none, none⟩

/-- The first delivery was filed under the LID; the phone sent the message once more, and that
    could not be read. The LID chat is pinned. -/
def twoChats : Store where
  messages := [row (lidChat sam) "text" (some "hi"), row (pnChat sam) "undecryptable" none]
  chats := [chat (lidChat sam) true, chat (pnChat sam) false]
  lidPnMap := [sam]
  messages_keyed := by decide +kernel
  chats_keyed := by decide +kernel
  map_keyed := List.pairwise_singleton _ _

def asStored : Scan := ⟨id, fun _ => List.Perm.refl _⟩

end Contact

open Contact

/-- **A text and a pin are lost.** -/
theorem text_lost :
    (after asStored "s1" twoChats).messages = [row (pnChat sam) "undecryptable" none] ∧
      (after asStored "s1" twoChats).chats = [chat (pnChat sam) false] ∧
      ¬LosesNothing asStored "s1" twoChats := by
  have hmessages : (after asStored "s1" twoChats).messages =
      [row (pnChat sam) "undecryptable" none] := by
    decide +kernel
  refine ⟨hmessages, by decide +kernel, fun h => ?_⟩
  have hconcerns : Concerns twoChats "s1" sam (lidChat sam) :=
    ⟨List.mem_singleton_self sam, rfl, .inl rfl⟩
  have hleft : row (pnChat sam) "undecryptable" none ∈ (after asStored "s1" twoChats).messages :=
    hmessages ▸ List.mem_singleton_self _
  exact h.decrypted sam (row (lidChat sam) "text" (some "hi")) List.mem_cons_self hconcerns
    (by decide) _ hleft ⟨rfl, rfl⟩ rfl

end Ruwa.Session.Consolidate
