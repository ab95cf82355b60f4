/-
  File:      Ruwa/Session/Directory.lean
  Subject:   THE LISTS OF CONVERSATIONS AND OF CONTACTS (`store.rs`, `chats_list` and
             `contacts_list`).

  A contact may be known by a phone number, by a LID, or by both. A conversation is joined with the
  contact rows of either side of the LID map; the contact rows are grouped by the phone number, where
  it is known.

  * `chatsOnce_iff` -- when a conversation is listed once;
  * `chatsNamed_iff` -- when it has a name of its own account;
  * `contactsOnce_iff` -- when an account has one row;
  * **`directory_iff`** -- the three together.
-/
import Ruwa.Library.Join
import Ruwa.Session.Consolidate
import Mathlib.Data.List.Dedup
import Mathlib.Data.List.Lex
import Mathlib.Data.List.Pairwise
import Mathlib.Data.String.Basic

namespace Ruwa.Session.Directory

open Ruwa.Library Ruwa.Session.Consolidate

/-! ## 1. The tables -/

/-- A row of `contacts`. -/
structure Contact where
  sessionId : String
  jid : List Char
  firstName : Option String
  fullName : Option String
  pushName : Option String
  businessName : Option String
  deriving DecidableEq

structure Tables extends Store where
  contacts : List Contact
  contacts_keyed :
    contacts.Pairwise fun a b => ¬(a.sessionId = b.sessionId ∧ a.jid = b.jid)

/-- `LIKE '%<server>'`, which has no regard for the case of ASCII letters. -/
def LikeServer (server jid : List Char) : Prop := server <:+ jid.map Char.toLower

instance (server jid : List Char) : Decidable (LikeServer server jid) :=
  inferInstanceAs (Decidable (_ <:+ _))

variable (t : Tables) (sessionId : String)

/-! ## 2. The conversations -/

structure Conversation where
  jid : List Char
  lastMsgTs : Option Int
  deriving DecidableEq

def messageChats : List (List Char) :=
  ((t.messages.filter fun m => m.sessionId = sessionId).map (·.chatJid)).dedup

/-- `conv`: the chats with messages, and those with a row of their own. -/
def conversations : List Conversation :=
  let messages := (messageChats t sessionId).map fun jid =>
    (⟨jid, ((t.messages.filter fun m => m.sessionId = sessionId ∧ m.chatJid = jid).map
      (·.timestamp)).max?⟩ : Conversation)
  let chats := (t.chats.filter fun c =>
    c.sessionId = sessionId ∧ c.jid ∉ messageChats t sessionId).map fun c =>
      (⟨c.jid, c.lastMsgTs⟩ : Conversation)
  (messages ++ chats).dedup

/-- The position of a character, from 1; 0 if it is not there. -/
def instr (jid : List Char) (c : Char) : Nat := (jid.idxOf? c).elim 0 (· + 1)

/-- What stands before the first of `.`, `:` and `@`. Without an `@` the length is -1, for the
    characters in front of the first one: none. -/
def juser (jid : List Char) : List Char :=
  let bounded := fun n => if n = 0 then 1000000 else n
  jid.take (min (min (bounded (instr jid '.')) (bounded (instr jid ':'))) (instr jid '@') - 1)

/-- A row of the join. -/
structure Joined where
  conv : Conversation
  c : Option Chat
  ct : Option Contact
  ctl : Option Contact
  ctp : Option Contact

def contactAt (jid : Option (List Char)) (x : Contact) : Bool :=
  x.sessionId = sessionId ∧ jid = some x.jid

def joins (conv : Conversation) : List Joined :=
  (matched (fun c => c.sessionId = sessionId ∧ c.jid = conv.jid) t.chats).flatMap fun c =>
  (matched (contactAt sessionId (some conv.jid)) t.contacts).flatMap fun ct =>
  (matched (fun m => m.sessionId = sessionId ∧ m.pnUser.text = juser conv.jid)
    t.lidPnMap).flatMap fun lmp =>
  (matched (contactAt sessionId (lmp.map fun m => m.lidUser.text ++ lidServer))
    t.contacts).flatMap fun ctl =>
  (matched (fun m => m.sessionId = sessionId ∧ m.lidUser.text = juser conv.jid)
    t.lidPnMap).flatMap fun lml =>
  (matched (contactAt sessionId (lml.map fun m => m.pnUser.text ++ pnServer)) t.contacts).map fun ctp =>
    ⟨conv, c, ct, ctl, ctp⟩

/-- Where a name is from. -/
inductive Source
  | chat (row : Chat)
  | contact (row : Contact)

def chatName (c : Chat) : Option (Source × String) := c.name.map (.chat c, ·)

def contactName (c : Contact) : Option (Source × String) :=
  (c.fullName.or (c.pushName.or c.firstName)).map (.contact c, ·)

/-- The first that there is: `COALESCE`. -/
def Joined.nameFrom (j : Joined) : Option (Source × String) :=
  (j.c.bind chatName).or ((j.ct.bind contactName).or ((j.ctl.bind contactName).or
    (j.ctp.bind contactName)))

structure ChatRow where
  jid : List Char
  name : Option String
  isGroup : Bool
  lastMsgTs : Option Int
  archived : Bool
  pinned : Bool
  mutedUntil : Option Int
  cloudWindowExpiresAt : Option Int
  deriving DecidableEq

def Joined.row (j : Joined) : ChatRow where
  jid := j.conv.jid
  name := j.nameFrom.map (·.2)
  isGroup := LikeServer groupServer j.conv.jid ∨ (j.c.elim false (·.isGroup)) = true
  lastMsgTs := j.conv.lastMsgTs
  archived := j.c.elim false (·.archived)
  pinned := j.c.elim false (·.pinned)
  mutedUntil := j.c.bind (·.mutedUntil)
  cloudWindowExpiresAt := j.c.bind (·.cloudWindowExpiresAt)

/-- `ORDER BY COALESCE(last_msg_ts, 0) DESC`, equal times in any order. -/
abbrev LastFirst := HighestFirst fun r : ChatRow => r.lastMsgTs.getD 0

def joinedRows : List Joined := (conversations t sessionId).flatMap (joins t sessionId)

def chatsList (order : LastFirst) : List ChatRow :=
  order.sort ((joinedRows t sessionId).map Joined.row)

/-! ## 3. The contacts -/

/-- `replace(jid, '@lid', '')` -/
def withoutLid : List Char → List Char
  | '@' :: 'l' :: 'i' :: 'd' :: cs => withoutLid cs
  | c :: cs => c :: withoutLid cs
  | [] => []

/-- `canon`: the JID of the phone number, where the row of the LID map has one. -/
def canon (jid : List Char) : Option LidPnRow → List Char
  | some m => if LikeServer lidServer jid then m.pnUser.text ++ pnServer else jid
  | none => jid

def canonRows : List (List Char × Contact) :=
  (t.contacts.filter fun c => c.sessionId = sessionId).flatMap fun c =>
    (matched (fun m => m.sessionId = sessionId ∧ m.lidUser.text = withoutLid c.jid) t.lidPnMap).map
      fun m => (canon c.jid m, c)

/-- The rows of a `canon`, in the order of the `canon`s. -/
def contactGroups : List (List Char × List Contact) :=
  ((((canonRows t sessionId).map (·.1)).dedup).insertionSort (· ≤ ·)).map fun jid =>
    (jid, ((canonRows t sessionId).filter fun r => r.1 = jid).map (·.2))

structure ContactRow where
  jid : List Char
  fullName : Option String
  pushName : Option String
  businessName : Option String
  deriving DecidableEq

def contactsList : List ContactRow :=
  (contactGroups t sessionId).map fun g =>
    ⟨g.1, (g.2.filterMap (·.fullName)).max?, (g.2.filterMap (·.pushName)).max?,
      (g.2.filterMap (·.businessName)).max?⟩

/-! ## 4. What the lists are to be -/

/-- The session has such a chat. -/
def IsChat (jid : List Char) : Prop :=
  (∃ m ∈ t.messages, m.sessionId = sessionId ∧ m.chatJid = jid) ∨
    ∃ c ∈ t.chats, c.sessionId = sessionId ∧ c.jid = jid

/-- **Every chat is listed once.** -/
structure ChatsOnce (order : LastFirst) : Prop where
  once : ((chatsList t sessionId order).map ChatRow.jid).Nodup
  all : ∀ jid, jid ∈ (chatsList t sessionId order).map ChatRow.jid ↔ IsChat t sessionId jid

/-- The row is that of the chat, or of a contact with the same account. -/
def Source.Own (jid : List Char) : Source → Prop
  | .chat c => c ∈ t.chats ∧ c.sessionId = sessionId ∧ c.jid = jid
  | .contact c =>
      c ∈ t.contacts ∧ c.sessionId = sessionId ∧
        canonicalUserJid t.lidPnMap sessionId c.jid = canonicalUserJid t.lidPnMap sessionId jid

/-- **A name is that of the chat itself, or of its account.** -/
def ChatsNamed : Prop :=
  ∀ j ∈ joinedRows t sessionId, ∀ source name,
    j.nameFrom = some (source, name) → source.Own t sessionId j.conv.jid

/-- **Every account is listed once**, with all its rows and no others. -/
structure ContactsOnce : Prop where
  once : ((contactsList t sessionId).map fun r =>
    canonicalUserJid t.lidPnMap sessionId r.jid).Nodup
  all : ∀ account, (∃ r ∈ contactsList t sessionId,
      canonicalUserJid t.lidPnMap sessionId r.jid = account) ↔
    ∃ c ∈ t.contacts, c.sessionId = sessionId ∧
      canonicalUserJid t.lidPnMap sessionId c.jid = account
  own : ∀ g ∈ contactGroups t sessionId, ∀ c ∈ g.2,
    canonicalUserJid t.lidPnMap sessionId c.jid = canonicalUserJid t.lidPnMap sessionId g.1

/-! ## 5. Conversations that are listed once -/

/-- No two LIDs are mapped to the user of a conversation. -/
def OneLid : Prop :=
  ∀ jid, IsChat t sessionId jid → ∀ r ∈ t.lidPnMap, ∀ r' ∈ t.lidPnMap,
    r.sessionId = sessionId → r'.sessionId = sessionId →
      r.pnUser.text = juser jid → r'.pnUser.text = juser jid → r.lidUser = r'.lidUser

variable {t sessionId}

theorem map_nodup : t.lidPnMap.Nodup :=
  t.map_keyed.imp fun h heq => h ⟨congrArg LidPnRow.sessionId heq, congrArg LidPnRow.lidUser heq⟩

/-- A LID has one row. -/
theorem mapRow_unique {r r' : LidPnRow} (hr : r ∈ t.lidPnMap) (hr' : r' ∈ t.lidPnMap)
    (hsession : r.sessionId = r'.sessionId) (hlid : r.lidUser = r'.lidUser) : r = r' := by
  have : Std.Symm fun r r' : LidPnRow => ¬(r.sessionId = r'.sessionId ∧ r.lidUser = r'.lidUser) :=
    ⟨fun _ _ h hboth => h ⟨hboth.1.symm, hboth.2.symm⟩⟩
  by_contra hne
  exact t.map_keyed.forall hr hr' hne ⟨hsession, hlid⟩

theorem mem_messageChats {jid : List Char} :
    jid ∈ messageChats t sessionId ↔ ∃ m ∈ t.messages, m.sessionId = sessionId ∧ m.chatJid = jid := by
  simp [messageChats, and_assoc]

/-- Each chat is a conversation. -/
theorem mem_conversations {jid : List Char} :
    jid ∈ (conversations t sessionId).map Conversation.jid ↔ IsChat t sessionId jid := by
  have hmem : jid ∈ (conversations t sessionId).map Conversation.jid ↔
      jid ∈ messageChats t sessionId ∨
        ∃ c ∈ t.chats, (c.sessionId = sessionId ∧ c.jid ∉ messageChats t sessionId) ∧ c.jid = jid := by
    simp [conversations, or_and_right, exists_or, and_assoc]
  rw [hmem, IsChat, ← mem_messageChats]
  constructor
  · rintro (h | ⟨c, hc, ⟨hsession, -⟩, heq⟩)
    · exact .inl h
    · exact .inr ⟨c, hc, hsession, heq⟩
  · rintro (h | ⟨c, hc, hsession, heq⟩)
    · exact .inl h
    · by_cases hmsg : jid ∈ messageChats t sessionId
      · exact .inl hmsg
      · exact .inr ⟨c, hc, ⟨hsession, heq ▸ hmsg⟩, heq⟩

/-- No chat is two conversations. -/
theorem conversations_nodup : ((conversations t sessionId).map Conversation.jid).Nodup := by
  have hparts : ∀ messages chats : List Conversation,
      ((messages ++ chats).map Conversation.jid).Nodup →
        (((messages ++ chats).dedup).map Conversation.jid).Nodup := by
    intro messages chats h
    rwa [List.dedup_eq_self.mpr (List.Nodup.of_map _ h)]
  refine hparts _ _ ?_
  rw [List.map_append, List.map_map, List.map_map]
  refine List.nodup_append.mpr ⟨?_, ?_, ?_⟩
  · have hjid : (messageChats t sessionId).map (Conversation.jid ∘ fun jid =>
        (⟨jid, ((t.messages.filter fun m => m.sessionId = sessionId ∧ m.chatJid = jid).map
          (·.timestamp)).max?⟩ : Conversation)) = messageChats t sessionId := List.map_id _
    rw [hjid]
    exact List.nodup_dedup _
  · have hkeyed := t.chats_keyed.filter fun c =>
      decide (c.sessionId = sessionId ∧ c.jid ∉ messageChats t sessionId)
    refine List.pairwise_map.mpr (hkeyed.imp_of_mem fun {a b} ha hb h heq => h ?_)
    have hsa : a.sessionId = sessionId := (of_decide_eq_true (List.mem_filter.mp ha).2).1
    have hsb : b.sessionId = sessionId := (of_decide_eq_true (List.mem_filter.mp hb).2).1
    have hjid : a.jid = b.jid := heq
    exact ⟨by simp [chatKey, hsa, hsb, hjid], rfl⟩
  · rintro a ha b hb rfl
    obtain ⟨jid, hjid, rfl⟩ := List.mem_map.mp ha
    obtain ⟨c, hc, heq⟩ := List.mem_map.mp hb
    have hno := (of_decide_eq_true (List.mem_filter.mp hc).2).2
    have hsame : c.jid = jid := heq
    exact hno (hsame ▸ hjid)

def chatRow (t : Tables) (sessionId : String) (jid : List Char) : Option Chat :=
  t.chats.find? fun c => c.sessionId = sessionId ∧ c.jid = jid

def contactRow (t : Tables) (sessionId : String) (jid : Option (List Char)) : Option Contact :=
  t.contacts.find? (contactAt sessionId jid)

/-- The LIDs that are mapped to the user of a conversation. -/
def lidsOf (t : Tables) (sessionId : String) (jid : List Char) : List (Option LidPnRow) :=
  matched (fun m => m.sessionId = sessionId ∧ m.pnUser.text = juser jid) t.lidPnMap

/-- The row of the join for one of them. -/
def joinedWith (t : Tables) (sessionId : String) (conv : Conversation) (lmp : Option LidPnRow) :
    Joined where
  conv := conv
  c := chatRow t sessionId conv.jid
  ct := contactRow t sessionId (some conv.jid)
  ctl := contactRow t sessionId (lmp.map fun m => m.lidUser.text ++ lidServer)
  ctp := contactRow t sessionId
    ((lidToPn t.lidPnMap sessionId (juser conv.jid)).map fun pn => pn.text ++ pnServer)

theorem matched_contact (jid : Option (List Char)) :
    matched (contactAt sessionId jid) t.contacts = [contactRow t sessionId jid] := by
  refine matched_of_unique (t.contacts_keyed.imp fun {a b} h hboth => h ?_)
  simp only [contactAt, decide_eq_true_eq] at hboth
  obtain ⟨⟨ha, hja⟩, hb, hjb⟩ := hboth
  exact ⟨ha.trans hb.symm, Option.some.inj (hja.symm.trans hjb)⟩

theorem matched_chat (jid : List Char) :
    matched (fun c => decide (c.sessionId = sessionId ∧ c.jid = jid)) t.chats =
      [chatRow t sessionId jid] := by
  refine matched_of_unique (t.chats_keyed.imp fun {a b} h hboth => h ?_)
  simp only [decide_eq_true_eq] at hboth
  obtain ⟨⟨ha, hja⟩, hb, hjb⟩ := hboth
  exact ⟨by simp [chatKey, ha, hb, hja, hjb], rfl⟩

/-- The row of a LID in the map. -/
theorem matched_lid (user : List Char) :
    matched (fun m => decide (m.sessionId = sessionId ∧ m.lidUser.text = user)) t.lidPnMap =
      [t.lidPnMap.find? fun m => m.sessionId = sessionId ∧ m.lidUser.text = user] := by
  refine matched_of_unique (t.map_keyed.imp fun {a b} h hboth => h ?_)
  simp only [decide_eq_true_eq] at hboth
  obtain ⟨⟨ha, hla⟩, hb, hlb⟩ := hboth
  exact ⟨ha.trans hb.symm, UserPart.ext (hla.trans hlb.symm)⟩

theorem lidToPn_eq (user : List Char) :
    lidToPn t.lidPnMap sessionId user =
      (t.lidPnMap.find? fun m => m.sessionId = sessionId ∧ m.lidUser.text = user).map (·.pnUser) := by
  simp only [lidToPn, Bool.decide_and]

/-- **Four of the five joins have a key.** The rows of a conversation are those of its LIDs. -/
theorem joins_eq (conv : Conversation) :
    joins t sessionId conv =
      (lidsOf t sessionId conv.jid).map (joinedWith t sessionId conv) := by
  unfold joins
  simp only [matched_contact, matched_chat, matched_lid, List.flatMap_singleton, List.map_cons,
    List.map_nil]
  rw [List.map_eq_flatMap]
  refine congrArg (List.flatMap · _) (funext fun lmp => ?_)
  rw [joinedWith, lidToPn_eq, Option.map_map]
  rfl

theorem mem_joinedRows {j : Joined} :
    j ∈ joinedRows t sessionId ↔ ∃ conv ∈ conversations t sessionId,
      ∃ lmp ∈ lidsOf t sessionId conv.jid, j = joinedWith t sessionId conv lmp := by
  unfold joinedRows
  rw [List.mem_flatMap]
  refine exists_congr fun conv => and_congr_right fun _ => ?_
  rw [joins_eq, List.mem_map]
  exact exists_congr fun lmp => and_congr_right fun _ => eq_comm

theorem jids_of_joins (conv : Conversation) :
    (joins t sessionId conv).map (fun j => j.conv.jid) =
      List.replicate (lidsOf t sessionId conv.jid).length conv.jid := by
  have hjid : (fun j : Joined => j.conv.jid) ∘ joinedWith t sessionId conv = fun _ => conv.jid := rfl
  rw [joins_eq, List.map_map, hjid, List.map_const']

theorem chatsList_jids (order : LastFirst) :
    ((chatsList t sessionId order).map ChatRow.jid).Perm
      ((conversations t sessionId).flatMap fun conv =>
        List.replicate (lidsOf t sessionId conv.jid).length conv.jid) := by
  refine ((order.perm _).map ChatRow.jid).trans (.of_eq ?_)
  have hjid : ChatRow.jid ∘ Joined.row = fun j => j.conv.jid := rfl
  rw [List.map_map, hjid, joinedRows, List.map_flatMap]
  exact congrArg (List.flatMap · _) (funext jids_of_joins)

/-- **A chat is listed once exactly when no two LIDs are mapped to its user.** -/
theorem chatsOnce_iff (order : LastFirst) : ChatsOnce t sessionId order ↔ OneLid t sessionId := by
  have hjids := @chatsList_jids t sessionId order
  have hall : ∀ jid, jid ∈ (chatsList t sessionId order).map ChatRow.jid ↔
      IsChat t sessionId jid := by
    intro jid
    rw [hjids.mem_iff, ← mem_conversations, List.mem_flatMap, List.mem_map]
    refine exists_congr fun conv => and_congr_right fun _ => ?_
    rw [List.mem_replicate]
    exact ⟨fun h => h.2.symm, fun h => ⟨by simp [lidsOf, matched_ne_nil], h.symm⟩⟩
  have hnodup : ((chatsList t sessionId order).map ChatRow.jid).Nodup ↔
      ∀ jid, IsChat t sessionId jid → (lidsOf t sessionId jid).length ≤ 1 := by
    rw [hjids.nodup_iff, List.nodup_flatMap]
    simp only [List.nodup_replicate]
    constructor
    · rintro ⟨hone, -⟩ jid hjid
      obtain ⟨conv, hconv, rfl⟩ := List.mem_map.mp (mem_conversations.mpr hjid)
      exact hone conv hconv
    · intro h
      refine ⟨fun conv hconv => h _ (mem_conversations.mp (List.mem_map_of_mem hconv)), ?_⟩
      refine (List.pairwise_map.mp conversations_nodup).imp fun hne a ha hb => hne ?_
      exact (List.eq_of_mem_replicate ha).symm.trans (List.eq_of_mem_replicate hb)
  have honce : OneLid t sessionId ↔
      ∀ jid, IsChat t sessionId jid → (lidsOf t sessionId jid).length ≤ 1 := by
    refine forall_congr' fun jid => imp_congr_right fun _ => ?_
    rw [lidsOf, length_matched_le_one map_nodup]
    simp only [decide_eq_true_eq]
    constructor
    · intro h r hr r' hr' ⟨hs, hu⟩ ⟨hs', hu'⟩
      have hlid := h r hr r' hr' hs hs' hu hu'
      exact mapRow_unique hr hr' (hs.trans hs'.symm) hlid
    · intro h r hr r' hr' hs hs' hu hu'
      rw [h r hr r' hr' ⟨hs, hu⟩ ⟨hs', hu'⟩]
  rw [honce, ← hnodup]
  exact ⟨ChatsOnce.once, fun h => ⟨h, hall⟩⟩

/-! ## 6. Conversations with a name of their own -/

section Names

variable (t sessionId)

/-- A contact row of the JID has a name. -/
def NamedContact (jid : List Char) : Prop :=
  ∃ c ∈ t.contacts, c.sessionId = sessionId ∧ c.jid = jid ∧
    (c.fullName.isSome ∨ c.pushName.isSome ∨ c.firstName.isSome)

/-- The chat has a name, or the contact row of the same JID has. -/
def OwnName (jid : List Char) : Prop :=
  (∃ c ∈ t.chats, c.sessionId = sessionId ∧ c.jid = jid ∧ c.name.isSome) ∨
    NamedContact t sessionId jid

/-- LIDs are mapped to the user of the conversation, and all of them have a name. -/
def Bridged (jid : List Char) : Prop :=
  (∃ r ∈ t.lidPnMap, r.sessionId = sessionId ∧ r.pnUser.text = juser jid) ∧
    ∀ r ∈ t.lidPnMap, r.sessionId = sessionId → r.pnUser.text = juser jid →
      NamedContact t sessionId (r.lidUser.text ++ lidServer)

/-- **A conversation that takes its name over the LID map has the account of the phone number.** -/
def NamesOwn : Prop :=
  ∀ jid, IsChat t sessionId jid → ¬OwnName t sessionId jid →
    (∀ r ∈ t.lidPnMap, r.sessionId = sessionId → r.pnUser.text = juser jid →
      NamedContact t sessionId (r.lidUser.text ++ lidServer) →
        canonicalUserJid t.lidPnMap sessionId jid = r.pnUser.text ++ pnServer) ∧
    (¬Bridged t sessionId jid → ∀ r ∈ t.lidPnMap, r.sessionId = sessionId →
      r.lidUser.text = juser jid → NamedContact t sessionId (r.pnUser.text ++ pnServer) →
        canonicalUserJid t.lidPnMap sessionId jid = r.pnUser.text ++ pnServer)

end Names

theorem contactRow_eq_some {jid : List Char} {c : Contact} :
    contactRow t sessionId (some jid) = some c ↔
      c ∈ t.contacts ∧ c.sessionId = sessionId ∧ c.jid = jid := by
  have hmem : some c ∈ matched (contactAt sessionId (some jid)) t.contacts ↔
      c ∈ t.contacts ∧ c.sessionId = sessionId ∧ c.jid = jid := by
    rw [mem_matched_some]
    simp only [contactAt, decide_eq_true_eq, Option.some.injEq, @eq_comm _ jid]
  rw [← hmem, matched_contact, List.mem_singleton, eq_comm]

theorem chatRow_eq_some {jid : List Char} {c : Chat} :
    chatRow t sessionId jid = some c ↔ c ∈ t.chats ∧ c.sessionId = sessionId ∧ c.jid = jid := by
  have hmem : some c ∈ matched (fun c => decide (c.sessionId = sessionId ∧ c.jid = jid)) t.chats ↔
      c ∈ t.chats ∧ c.sessionId = sessionId ∧ c.jid = jid := by
    rw [mem_matched_some]
    simp only [decide_eq_true_eq]
  rw [← hmem, matched_chat, List.mem_singleton, eq_comm]

theorem contactName_isSome {c : Contact} :
    (contactName c).isSome = true ↔
      c.fullName.isSome ∨ c.pushName.isSome ∨ c.firstName.isSome := by
  simp [contactName]

/-- The name of a contact row, and where it is from. -/
theorem contactName_source {jid : List Char} {source : Source} {name : String}
    (h : (contactRow t sessionId (some jid)).bind contactName = some (source, name)) :
    ∃ c, source = .contact c ∧ c ∈ t.contacts ∧ c.sessionId = sessionId ∧ c.jid = jid := by
  obtain ⟨c, hc, hname⟩ := Option.bind_eq_some_iff.mp h
  obtain ⟨n, -, heq⟩ := Option.map_eq_some_iff.mp hname
  cases heq
  exact ⟨c, rfl, contactRow_eq_some.mp hc⟩

theorem namedContact_iff {jid : List Char} :
    NamedContact t sessionId jid ↔
      ∃ source name, (contactRow t sessionId (some jid)).bind contactName = some (source, name) := by
  constructor
  · rintro ⟨c, hc, hsession, hjid, hname⟩
    obtain ⟨⟨source, name⟩, hsome⟩ := Option.isSome_iff_exists.mp (contactName_isSome.mpr hname)
    rw [contactRow_eq_some.mpr ⟨hc, hsession, hjid⟩]
    exact ⟨source, name, hsome⟩
  · rintro ⟨source, name, h⟩
    obtain ⟨c, hc, hname⟩ := Option.bind_eq_some_iff.mp h
    obtain ⟨hmem, hsession, hjid⟩ := contactRow_eq_some.mp hc
    exact ⟨c, hmem, hsession, hjid, contactName_isSome.mp (by rw [hname]; rfl)⟩

theorem not_named {jid : List Char} (h : ¬NamedContact t sessionId jid) :
    (contactRow t sessionId (some jid)).bind contactName = none := by
  cases hname : (contactRow t sessionId (some jid)).bind contactName with
  | none => rfl
  | some found => exact absurd (namedContact_iff.mpr ⟨found.1, found.2, hname⟩) h

theorem not_ownName {jid : List Char} (h : ¬OwnName t sessionId jid) :
    (chatRow t sessionId jid).bind chatName = none := by
  cases hrow : chatRow t sessionId jid with
  | none => rfl
  | some c =>
      obtain ⟨hmem, hsession, hjid⟩ := chatRow_eq_some.mp hrow
      cases hname : c.name with
      | none => simp [chatName, hname]
      | some n => exact absurd (.inl ⟨c, hmem, hsession, hjid, by rw [hname]; rfl⟩) h

/-- A contact row is that of the account exactly when the two have one canonical JID. -/
theorem contactName_own {jid jid' : List Char} {source : Source} {name : String}
    (h : (contactRow t sessionId (some jid')).bind contactName = some (source, name)) :
    source.Own t sessionId jid ↔
      canonicalUserJid t.lidPnMap sessionId jid' = canonicalUserJid t.lidPnMap sessionId jid := by
  obtain ⟨c, rfl, hmem, hsession, rfl⟩ := contactName_source h
  exact ⟨fun h => h.2.2, fun h => ⟨hmem, hsession, h⟩⟩

/-- The canonical JID of a mapped LID is that of its phone number. -/
theorem canonicalUserJid_mapped {r : LidPnRow} (hr : r ∈ t.lidPnMap)
    (hsession : r.sessionId = sessionId) :
    canonicalUserJid t.lidPnMap sessionId (r.lidUser.text ++ lidServer) =
      r.pnUser.text ++ pnServer := by
  rw [canonicalUserJid_lid _ _ (List.suffix_append _ _), (lidUserPart_server r.lidUser.plain).2,
    ← hsession, lidToPn_of_mem t.map_keyed hr]

theorem canonicalUserJid_number (pn : UserPart) :
    canonicalUserJid t.lidPnMap sessionId (pn.text ++ pnServer) = pn.text ++ pnServer := by
  rw [canonicalUserJid_pn _ _ (List.suffix_append _ _), (lidUserPart_server pn.plain).1]

theorem mem_lidsOf_some {jid : List Char} {r : LidPnRow} :
    some r ∈ lidsOf t sessionId jid ↔
      r ∈ t.lidPnMap ∧ r.sessionId = sessionId ∧ r.pnUser.text = juser jid := by
  rw [lidsOf, mem_matched_some, decide_eq_true_eq]

/-- The row that a LID is found in. -/
theorem lidToPn_eq_some {user : List Char} {pn : UserPart} :
    lidToPn t.lidPnMap sessionId user = some pn ↔
      ∃ r ∈ t.lidPnMap, r.sessionId = sessionId ∧ r.lidUser.text = user ∧ r.pnUser = pn := by
  constructor
  · intro h
    obtain ⟨r, hr, rfl⟩ := Option.map_eq_some_iff.mp h
    have hkey := List.find?_some hr
    simp only [Bool.and_eq_true, decide_eq_true_eq] at hkey
    exact ⟨r, List.mem_of_find?_eq_some hr, hkey.1, hkey.2, rfl⟩
  · rintro ⟨r, hr, rfl, rfl, rfl⟩
    exact lidToPn_of_mem t.map_keyed hr

theorem contactRow_none : contactRow t sessionId none = none :=
  List.find?_eq_none.mpr fun c _ => by simp [contactAt]

/-- A row without a name from a LID is one of a conversation whose LIDs do not all have names. -/
theorem not_bridged {jid : List Char} {lmp : Option LidPnRow} (hlmp : lmp ∈ lidsOf t sessionId jid)
    (hunnamed : (contactRow t sessionId (lmp.map fun m => m.lidUser.text ++ lidServer)).bind
      contactName = none) : ¬Bridged t sessionId jid := by
  rintro ⟨⟨r, hr, hsession, hjid⟩, hall⟩
  cases lmp with
  | none =>
      have hno := mem_matched_none.mp hlmp r hr
      exact absurd ⟨hsession, hjid⟩ (of_decide_eq_false hno)
  | some m =>
      obtain ⟨hm, hsession, hjid⟩ := mem_lidsOf_some.mp hlmp
      obtain ⟨source, name, hname⟩ := namedContact_iff.mp (hall m hm hsession hjid)
      exact absurd (hname.symm.trans hunnamed) (by simp)

/-- Unless all LIDs of a conversation have names, a row of it has none from them. -/
theorem exists_unnamed {jid : List Char} (h : ¬Bridged t sessionId jid) :
    ∃ lmp ∈ lidsOf t sessionId jid,
      (contactRow t sessionId (lmp.map fun m => m.lidUser.text ++ lidServer)).bind contactName =
        none := by
  by_cases hexists : ∃ r ∈ t.lidPnMap, r.sessionId = sessionId ∧ r.pnUser.text = juser jid
  · have hsome : ∃ r ∈ t.lidPnMap, r.sessionId = sessionId ∧ r.pnUser.text = juser jid ∧
        ¬NamedContact t sessionId (r.lidUser.text ++ lidServer) := by
      by_contra hno
      refine h ⟨hexists, fun r hr hsession hjid => ?_⟩
      by_contra hunnamed
      exact hno ⟨r, hr, hsession, hjid, hunnamed⟩
    obtain ⟨r, hr, hsession, hjid, hunnamed⟩ := hsome
    exact ⟨some r, mem_lidsOf_some.mpr ⟨hr, hsession, hjid⟩, not_named hunnamed⟩
  · refine ⟨none, mem_matched_none.mpr fun r hr => decide_eq_false fun hmatch => ?_, ?_⟩
    · exact hexists ⟨r, hr, hmatch.1, hmatch.2⟩
    · rw [Option.map_none, contactRow_none]
      rfl

/-- **A conversation has a name of its own account exactly when one that takes it over the LID map
    has the account of the phone number.** -/
theorem chatsNamed_iff : ChatsNamed t sessionId ↔ NamesOwn t sessionId := by
  constructor
  · intro h jid hchat hown
    obtain ⟨conv, hconv, rfl⟩ := List.mem_map.mp (mem_conversations.mpr hchat)
    have hc := not_ownName hown
    have hct := not_named fun hnamed => hown (.inr hnamed)
    have hrow : ∀ lmp ∈ lidsOf t sessionId conv.jid, ∀ source name,
        ((joinedWith t sessionId conv lmp).ctl.bind contactName).or
            ((joinedWith t sessionId conv lmp).ctp.bind contactName) = some (source, name) →
          source.Own t sessionId conv.jid := by
      intro lmp hlmp source name hname
      refine h _ (mem_joinedRows.mpr ⟨conv, hconv, lmp, hlmp, rfl⟩) source name ?_
      rw [Joined.nameFrom, joinedWith, hc, hct]
      exact hname
    refine ⟨fun r hr hsession hjid hnamed => ?_, fun hbridged r hr hsession hjid hnamed => ?_⟩
    · obtain ⟨source, name, hname⟩ := namedContact_iff.mp hnamed
      have hown := hrow (some r) (mem_lidsOf_some.mpr ⟨hr, hsession, hjid⟩) source name (by
        rw [joinedWith]
        exact Option.or_eq_some_iff.mpr (.inl hname))
      rw [← (contactName_own hname).mp hown, canonicalUserJid_mapped hr hsession]
    · obtain ⟨source, name, hname⟩ := namedContact_iff.mp hnamed
      obtain ⟨lmp, hlmp, hunnamed⟩ := exists_unnamed hbridged
      have hpn := lidToPn_eq_some.mpr ⟨r, hr, hsession, hjid, rfl⟩
      have hown := hrow lmp hlmp source name (by
        rw [joinedWith, hpn]
        exact Option.or_eq_some_iff.mpr (.inr ⟨hunnamed, hname⟩))
      rw [← (contactName_own hname).mp hown, canonicalUserJid_number]
  · rintro h j hj source name hname
    obtain ⟨conv, hconv, lmp, hlmp, rfl⟩ := mem_joinedRows.mp hj
    have hchat := mem_conversations.mp (List.mem_map_of_mem (f := Conversation.jid) hconv)
    rcases Option.or_eq_some_iff.mp hname with hc | ⟨hc, hname⟩
    · obtain ⟨c, hrow, hcname⟩ := Option.bind_eq_some_iff.mp hc
      obtain ⟨n, -, heq⟩ := Option.map_eq_some_iff.mp hcname
      cases heq
      exact chatRow_eq_some.mp hrow
    rcases Option.or_eq_some_iff.mp hname with hct | ⟨hct, hname⟩
    · exact (contactName_own hct).mpr rfl
    have hown : ¬OwnName t sessionId conv.jid := by
      rintro (⟨c, hmem, hsession, hjid, hsome⟩ | hnamed)
      · have hrow := chatRow_eq_some.mpr ⟨hmem, hsession, hjid⟩
        obtain ⟨n, hn⟩ := Option.isSome_iff_exists.mp hsome
        simp [joinedWith, hrow, chatName, hn] at hc
      · obtain ⟨source, name, hsome⟩ := namedContact_iff.mp hnamed
        exact absurd (hsome.symm.trans hct) (by simp)
    obtain ⟨hlid, hpn⟩ := h conv.jid hchat hown
    rcases Option.or_eq_some_iff.mp hname with hctl | ⟨hctl, hctp⟩
    · cases lmp with
      | none => simp [joinedWith, contactRow_none] at hctl
      | some m =>
          obtain ⟨hm, hsession, hjid⟩ := mem_lidsOf_some.mp hlmp
          have hcanonical := hlid m hm hsession hjid (namedContact_iff.mpr ⟨source, name, hctl⟩)
          exact (contactName_own hctl).mpr ((canonicalUserJid_mapped hm hsession).trans hcanonical.symm)
    · cases hmap : lidToPn t.lidPnMap sessionId (juser conv.jid) with
      | none => simp [joinedWith, hmap, contactRow_none] at hctp
      | some pn =>
          obtain ⟨r, hr, hsession, hjid, rfl⟩ := lidToPn_eq_some.mp hmap
          simp only [joinedWith, hmap, Option.map_some] at hctp
          have hbridged : ¬Bridged t sessionId conv.jid := fun h => not_bridged hlmp hctl h
          have hcanonical := hpn hbridged r hr hsession hjid
            (namedContact_iff.mpr ⟨source, name, hctp⟩)
          exact (contactName_own hctp).mpr ((canonicalUserJid_number r.pnUser).trans hcanonical.symm)

/-! ## 7. Accounts that are listed once -/

/-- An `@` that no `lid` follows is kept. -/
theorem mem_withoutLid {jid u v : List Char} (hv : ¬"lid".toList <+: v) (h : jid = u ++ '@' :: v) :
    '@' ∈ withoutLid jid := by
  fun_induction withoutLid jid generalizing u with
  | case1 cs ih =>
      rcases u with _ | ⟨a, _ | ⟨b, _ | ⟨c, _ | ⟨d, u⟩⟩⟩⟩
      · cases h
        exact absurd (List.prefix_append "lid".toList cs) hv
      · simp at h
      · simp at h
      · simp at h
      · simp only [List.cons_append, List.cons.injEq] at h
        exact ih h.2.2.2.2
  | case2 c cs hno ih =>
      cases u with
      | nil =>
          cases h
          exact List.mem_cons_self
      | cons a u =>
          cases h
          exact List.mem_cons_of_mem c (ih rfl)
  | case3 => simp at h

theorem toLower_at {c : Char} (h : c.toLower = '@') : c = '@' := by
  unfold Char.toLower at h
  split at h
  · rename_i hupper
    have hval : c.val + ('a'.val - 'A'.val) = '@'.val := congrArg Char.val h
    have hnat : (c.val.toNat + 32) % 2 ^ 32 = 64 := by
      rw [← UInt32.toNat_inj, UInt32.toNat_add] at hval
      exact hval
    have hlo : 65 ≤ c.val.toNat := UInt32.le_iff_toNat_le.mp hupper.1
    have hhi : c.val.toNat ≤ 90 := UInt32.le_iff_toNat_le.mp hupper.2
    omega
  · exact h

/-- What LIKE takes for a LID and the map has, is one. -/
theorem suffix_of_like {jid : List Char} {pn : UserPart} (hlike : LikeServer lidServer jid)
    (hmap : lidToPn t.lidPnMap sessionId (withoutLid jid) = some pn) : lidServer <:+ jid := by
  obtain ⟨r, -, -, htext, -⟩ := lidToPn_eq_some.mp hmap
  obtain ⟨pre, hpre⟩ := hlike
  obtain ⟨u, v, rfl, -, hv⟩ := List.map_eq_append_iff.mp hpre.symm
  obtain ⟨a, rest, rfl, ha, hrest⟩ := List.map_eq_cons_iff.mp hv
  have hat := toLower_at ha
  subst hat
  have hlength : rest.length = 3 := by
    rw [← List.length_map (f := Char.toLower), hrest]
    rfl
  by_cases hlid : "lid".toList <+: rest
  · rw [← hlid.eq_of_length (by rw [hlength]; rfl)]
    exact List.suffix_append u lidServer
  · have hmem : '@' ∈ r.lidUser.text := htext ▸ mem_withoutLid hlid rfl
    exact absurd (r.lidUser.plain _ hmem) (by decide)

/-- The JID that a contact row is listed under. -/
def canonOf (t : Tables) (sessionId : String) (jid : List Char) : List Char :=
  canon jid (t.lidPnMap.find? fun m => m.sessionId = sessionId ∧ m.lidUser.text = withoutLid jid)

def Folded (t : Tables) (sessionId : String) (jid : List Char) (pn : UserPart) : Prop :=
  lidServer <:+ jid ∧ lidToPn t.lidPnMap sessionId (withoutLid jid) = some pn

theorem canonOf_folded {jid : List Char} {pn : UserPart} (h : Folded t sessionId jid pn) :
    canonOf t sessionId jid = pn.text ++ pnServer := by
  obtain ⟨hlid, hmap⟩ := h
  rw [lidToPn_eq] at hmap
  obtain ⟨m, hm, rfl⟩ := Option.map_eq_some_iff.mp hmap
  have hlike : LikeServer lidServer jid := by
    obtain ⟨u, rfl⟩ := hlid
    exact ⟨u.map Char.toLower, by rw [List.map_append]; rfl⟩
  rw [canonOf, hm]
  exact if_pos hlike

theorem canonOf_other {jid : List Char} (h : ¬∃ pn, Folded t sessionId jid pn) :
    canonOf t sessionId jid = jid := by
  unfold canonOf
  cases hm : t.lidPnMap.find? fun m => m.sessionId = sessionId ∧ m.lidUser.text = withoutLid jid with
  | none => rfl
  | some m =>
      have hmap : lidToPn t.lidPnMap sessionId (withoutLid jid) = some m.pnUser := by
        rw [lidToPn_eq, hm]
        rfl
      exact if_neg fun hlike => h ⟨m.pnUser, suffix_of_like hlike hmap, hmap⟩

/-- A row is listed under its own account exactly when its LID is the one that is looked up. -/
theorem canonical_canonOf {jid : List Char} :
    canonicalUserJid t.lidPnMap sessionId (canonOf t sessionId jid) =
        canonicalUserJid t.lidPnMap sessionId jid ↔
      ∀ pn, Folded t sessionId jid pn →
        lidToPn t.lidPnMap sessionId (lidUserPart jid) = some pn := by
  by_cases hfolded : ∃ pn, Folded t sessionId jid pn
  · obtain ⟨pn, hpn⟩ := hfolded
    have hone : (∀ pn', Folded t sessionId jid pn' →
        lidToPn t.lidPnMap sessionId (lidUserPart jid) = some pn') ↔
        lidToPn t.lidPnMap sessionId (lidUserPart jid) = some pn := by
      refine ⟨fun h => h pn hpn, fun h pn' hpn' => ?_⟩
      rw [h, ← hpn.2, hpn'.2]
    rw [hone, canonOf_folded hpn, canonicalUserJid_number, canonicalUserJid_lid _ _ hpn.1]
    cases hmap : lidToPn t.lidPnMap sessionId (lidUserPart jid) with
    | some pn' =>
        simp only [Option.some.injEq]
        exact ⟨fun h => (UserPart.ext (List.append_cancel_right h)).symm, fun h => h ▸ rfl⟩
    | none =>
        simp only [reduceCtorEq, iff_false]
        intro h
        have hend : lidServer <:+ pn.text ++ pnServer := h ▸ List.suffix_append _ lidServer
        exact not_suffix (List.suffix_append pn.text pnServer) (by decide) (by decide) hend
  · rw [canonOf_other hfolded]
    exact iff_of_true rfl fun pn hpn => absurd ⟨pn, hpn⟩ hfolded

/-- The row can be listed under the phone number: its JID is that, or a LID that is looked up. -/
def Foldable (t : Tables) (sessionId : String) (jid : List Char) : Prop :=
  jid = lidUserPart jid ++ pnServer ∨ ∃ pn, Folded t sessionId jid pn

/-- **No row is folded into another account, and the rows of an account can all be folded**, if it
    has more than one. -/
structure ContactsFold (t : Tables) (sessionId : String) : Prop where
  own : ∀ c ∈ t.contacts, c.sessionId = sessionId → ∀ pn, Folded t sessionId c.jid pn →
    lidToPn t.lidPnMap sessionId (lidUserPart c.jid) = some pn
  together : ∀ c ∈ t.contacts, ∀ d ∈ t.contacts, c.sessionId = sessionId → d.sessionId = sessionId →
    c.jid ≠ d.jid →
    canonicalUserJid t.lidPnMap sessionId c.jid = canonicalUserJid t.lidPnMap sessionId d.jid →
      Foldable t sessionId c.jid ∧ Foldable t sessionId d.jid

theorem canonOf_foldable {jid : List Char} (h : Foldable t sessionId jid)
    (hown : ∀ pn, Folded t sessionId jid pn →
      lidToPn t.lidPnMap sessionId (lidUserPart jid) = some pn) :
    canonOf t sessionId jid = canonicalUserJid t.lidPnMap sessionId jid := by
  by_cases hfolded : ∃ pn, Folded t sessionId jid pn
  · obtain ⟨pn, hpn⟩ := hfolded
    rw [← canonical_canonOf.mpr hown, canonOf_folded hpn, canonicalUserJid_number]
  · have hjid := h.resolve_right hfolded
    have hend : pnServer <:+ jid := hjid ▸ List.suffix_append _ pnServer
    rw [canonOf_other hfolded, canonicalUserJid_pn _ _ hend]
    exact hjid

/-- Two rows that are listed together can both be folded. -/
theorem foldable_of_canonOf {jid jid' : List Char} (hne : jid ≠ jid')
    (h : canonOf t sessionId jid = canonOf t sessionId jid') : Foldable t sessionId jid := by
  by_cases hfolded : ∃ pn, Folded t sessionId jid pn
  · exact .inr hfolded
  · rw [canonOf_other hfolded] at h
    by_cases hfolded' : ∃ pn, Folded t sessionId jid' pn
    · obtain ⟨pn, hpn⟩ := hfolded'
      rw [canonOf_folded hpn] at h
      refine .inl ?_
      rw [h, (lidUserPart_server pn.plain).1]
    · exact absurd (h.trans (canonOf_other hfolded')) hne

def canons (t : Tables) (sessionId : String) : List (List Char) :=
  (((canonRows t sessionId).map (·.1)).dedup).insertionSort (· ≤ ·)

theorem mem_canonRows {jid : List Char} {c : Contact} :
    (jid, c) ∈ canonRows t sessionId ↔
      c ∈ t.contacts ∧ c.sessionId = sessionId ∧ canonOf t sessionId c.jid = jid := by
  unfold canonRows
  simp only [matched_lid, List.map_cons, List.map_nil, List.mem_flatMap, List.mem_filter,
    decide_eq_true_eq, List.mem_singleton, Prod.mk.injEq]
  constructor
  · rintro ⟨c, ⟨hmem, hsession⟩, rfl, rfl⟩
    exact ⟨hmem, hsession, rfl⟩
  · rintro ⟨hmem, hsession, rfl⟩
    exact ⟨c, ⟨hmem, hsession⟩, rfl, rfl⟩

theorem mem_canons {jid : List Char} :
    jid ∈ canons t sessionId ↔
      ∃ c ∈ t.contacts, c.sessionId = sessionId ∧ canonOf t sessionId c.jid = jid := by
  unfold canons
  rw [(List.perm_insertionSort _ _).mem_iff, List.mem_dedup, List.mem_map]
  constructor
  · rintro ⟨⟨jid, c⟩, hmem, rfl⟩
    exact ⟨c, mem_canonRows.mp hmem⟩
  · rintro ⟨c, h⟩
    exact ⟨(jid, c), mem_canonRows.mpr h, rfl⟩

theorem canons_nodup : (canons t sessionId).Nodup :=
  (List.perm_insertionSort _ _).nodup_iff.mpr (List.nodup_dedup _)

theorem mem_contactGroups {g : List Char × List Contact} {c : Contact}
    (hg : g ∈ contactGroups t sessionId) :
    c ∈ g.2 ↔ c ∈ t.contacts ∧ c.sessionId = sessionId ∧ canonOf t sessionId c.jid = g.1 := by
  obtain ⟨jid, -, rfl⟩ := List.mem_map.mp hg
  rw [← mem_canonRows]
  simp only [List.mem_map, List.mem_filter, decide_eq_true_eq]
  constructor
  · rintro ⟨⟨jid', c⟩, ⟨hmem, rfl⟩, rfl⟩
    exact hmem
  · exact fun hmem => ⟨(jid, c), ⟨hmem, rfl⟩, rfl⟩

theorem contactsList_jids :
    (contactsList t sessionId).map ContactRow.jid = canons t sessionId := by
  unfold contactsList contactGroups
  rw [List.map_map, List.map_map]
  exact List.map_id _

/-- **An account has one row exactly when its contact rows can be folded.** -/
theorem contactsOnce_iff : ContactsOnce t sessionId ↔ ContactsFold t sessionId := by
  have hkeys : (contactsList t sessionId).map
        (fun r => canonicalUserJid t.lidPnMap sessionId r.jid) =
      (canons t sessionId).map (canonicalUserJid t.lidPnMap sessionId) := by
    rw [← contactsList_jids, List.map_map]
    rfl
  have hown : (∀ g ∈ contactGroups t sessionId, ∀ c ∈ g.2,
        canonicalUserJid t.lidPnMap sessionId c.jid =
          canonicalUserJid t.lidPnMap sessionId g.1) ↔
      ∀ c ∈ t.contacts, c.sessionId = sessionId →
        canonicalUserJid t.lidPnMap sessionId (canonOf t sessionId c.jid) =
          canonicalUserJid t.lidPnMap sessionId c.jid := by
    constructor
    · intro h c hc hsession
      have hcanon := mem_canons.mpr ⟨c, hc, hsession, rfl⟩
      have hg := List.mem_map_of_mem (f := fun jid =>
        (jid, ((canonRows t sessionId).filter fun r => r.1 = jid).map (·.2))) hcanon
      exact (h _ hg c ((mem_contactGroups hg).mpr ⟨hc, hsession, rfl⟩)).symm
    · intro h g hg c hc
      obtain ⟨hmem, hsession, hcanon⟩ := (mem_contactGroups hg).mp hc
      rw [← hcanon]
      exact (h c hmem hsession).symm
  constructor
  · intro h
    have howns := hown.mp h.own
    refine ⟨fun c hc hsession => canonical_canonOf.mp (howns c hc hsession),
      fun c hc d hd hsc hsd hne heq => ?_⟩
    have hnodup := h.once
    rw [hkeys] at hnodup
    have hsame : canonOf t sessionId c.jid = canonOf t sessionId d.jid :=
      List.inj_on_of_nodup_map hnodup (mem_canons.mpr ⟨c, hc, hsc, rfl⟩)
        (mem_canons.mpr ⟨d, hd, hsd, rfl⟩) (by rw [howns c hc hsc, howns d hd hsd, heq])
    exact ⟨foldable_of_canonOf hne hsame, foldable_of_canonOf hne.symm hsame.symm⟩
  · intro h
    have howns : ∀ c ∈ t.contacts, c.sessionId = sessionId →
        canonicalUserJid t.lidPnMap sessionId (canonOf t sessionId c.jid) =
          canonicalUserJid t.lidPnMap sessionId c.jid :=
      fun c hc hsession => canonical_canonOf.mpr (h.own c hc hsession)
    refine ⟨?_, fun account => ?_, hown.mpr howns⟩
    · rw [hkeys]
      refine canons_nodup.map_on ?_
      intro a ha b hb heq
      obtain ⟨c, hc, hsc, rfl⟩ := mem_canons.mp ha
      obtain ⟨d, hd, hsd, rfl⟩ := mem_canons.mp hb
      rw [howns c hc hsc, howns d hd hsd] at heq
      by_cases hjid : c.jid = d.jid
      · rw [hjid]
      · obtain ⟨hfc, hfd⟩ := h.together c hc d hd hsc hsd hjid heq
        rw [canonOf_foldable hfc (h.own c hc hsc), canonOf_foldable hfd (h.own d hd hsd), heq]
    · have hrows : (∃ r ∈ contactsList t sessionId,
            canonicalUserJid t.lidPnMap sessionId r.jid = account) ↔
          ∃ jid ∈ canons t sessionId, canonicalUserJid t.lidPnMap sessionId jid = account := by
        rw [← contactsList_jids]
        simp
      rw [hrows]
      constructor
      · rintro ⟨jid, hjid, rfl⟩
        obtain ⟨c, hc, hsession, rfl⟩ := mem_canons.mp hjid
        exact ⟨c, hc, hsession, (howns c hc hsession).symm⟩
      · rintro ⟨c, hc, hsession, rfl⟩
        exact ⟨_, mem_canons.mpr ⟨c, hc, hsession, rfl⟩, howns c hc hsession⟩

/-- **When the lists are in order**: which chats are listed once, which names are those of their own
    account, and which accounts are listed once. -/
theorem directory_iff (t : Tables) (sessionId : String) (order : LastFirst) :
    (ChatsOnce t sessionId order ↔ OneLid t sessionId) ∧
      (ChatsNamed t sessionId ↔ NamesOwn t sessionId) ∧
      (ContactsOnce t sessionId ↔ ContactsFold t sessionId) :=
  ⟨chatsOnce_iff order, chatsNamed_iff, contactsOnce_iff⟩

namespace Sample

theorem number_ne : "55".toList ≠ [] := by decide

theorem number_plain : ∀ c ∈ "55".toList, isUserEnd c = false :=
  List.all_iff_forall_prop.mp (by decide)

theorem firstLid_ne : "641".toList ≠ [] := by decide

theorem firstLid_plain : ∀ c ∈ "641".toList, isUserEnd c = false :=
  List.all_iff_forall_prop.mp (by decide)

theorem secondLid_ne : "642".toList ≠ [] := by decide

theorem secondLid_plain : ∀ c ∈ "642".toList, isUserEnd c = false :=
  List.all_iff_forall_prop.mp (by decide)

def pn : UserPart := ⟨"55".toList, number_ne, number_plain⟩

/-- Two LIDs of one number. -/
def lids : List LidPnRow :=
  [⟨"s", ⟨"641".toList, firstLid_ne, firstLid_plain⟩, pn, 1⟩,
    ⟨"s", ⟨"642".toList, secondLid_ne, secondLid_plain⟩, pn, 2⟩]

theorem lids_keyed : Keyed lids := by
  refine List.pairwise_pair.mpr fun h => ?_
  exact absurd h.2 (by decide +kernel)

def message (jid : String) : Row :=
  ⟨"s", jid.toList, "M", jid.toList, false, 100, "text", some "hi", "\x7b\x7d", none, "received", false, false⟩

def contact (jid : String) (name : String) : Contact := ⟨"s", jid.toList, none, none, some name, none⟩

/-- The chat of the number, a group with its digits, and a contact with a device beside it. -/
def tables : Tables where
  messages := [message "55@s.whatsapp.net", message "55@g.us"]
  chats := []
  lidPnMap := lids
  contacts := [contact "641@lid" "Sam", contact "7@s.whatsapp.net" "Eve",
    contact "7:2@s.whatsapp.net" "Eve"]
  messages_keyed := by decide +kernel
  chats_keyed := List.Pairwise.nil
  map_keyed := lids_keyed
  contacts_keyed := by decide +kernel

end Sample

/-- With two LIDs for a number its chat is there twice, and so is a group with the same digits,
    which takes the name of the contact; and a contact with a device is there beside the one
    without. -/
theorem directory_doubles :
    (chatsList Sample.tables "s" (.byInsertion _)).map (fun r => (String.ofList r.jid, r.name)) =
        [("55@s.whatsapp.net", some "Sam"), ("55@s.whatsapp.net", none),
          ("55@g.us", some "Sam"), ("55@g.us", none)] ∧
      (contactsList Sample.tables "s").map (fun r => (String.ofList r.jid, r.pushName)) =
        [("55@s.whatsapp.net", some "Sam"), ("7:2@s.whatsapp.net", some "Eve"),
          ("7@s.whatsapp.net", some "Eve")] ∧
      ¬ChatsOnce Sample.tables "s" (.byInsertion _) ∧ ¬ChatsNamed Sample.tables "s" ∧
      ¬ContactsOnce Sample.tables "s" := by
  refine ⟨by decide +kernel, by decide +kernel, fun h => ?_, fun h => ?_, fun h => ?_⟩
  · exact absurd h.once (by decide +kernel)
  · have hchat : IsChat Sample.tables "s" "55@g.us".toList :=
      .inl ⟨_, List.mem_cons_of_mem _ List.mem_cons_self, rfl, rfl⟩
    have hunnamed : ¬OwnName Sample.tables "s" "55@g.us".toList := by
      rintro (⟨c, hc, -⟩ | ⟨c, hc, -, hjid, -⟩)
      · exact absurd hc List.not_mem_nil
      · simp only [Sample.tables, List.mem_cons, List.not_mem_nil, or_false] at hc
        rcases hc with rfl | rfl | rfl
        all_goals exact absurd hjid (by decide +kernel)
    have hnamed : NamedContact Sample.tables "s" "641@lid".toList :=
      ⟨_, List.mem_cons_self, rfl, rfl, .inr (.inl rfl)⟩
    have hcanonical := (chatsNamed_iff.mp h _ hchat hunnamed).1 _ List.mem_cons_self rfl
      (by decide +kernel) hnamed
    exact absurd hcanonical (by decide +kernel)
  · exact absurd h.once (by decide +kernel)

end Ruwa.Session.Directory
