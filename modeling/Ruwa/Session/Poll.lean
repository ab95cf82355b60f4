/-
  File:      Ruwa/Session/Poll.lean
  Subject:   A VOTE IN A POLL (`session.rs`, `decrypt_poll_vote`, `apply_poll_vote`; `store.rs`,
             `message_merge_payload`): it is unsealed, its hashes become names of options, and the
             payload of the poll's row holds a map from voters to what they chose.

  A vote is applied in two calls of the store: the payload is looked up, and the map is merged back.

  * `decryptPollVote_genuine` -- a vote that one of the addresses opens is read as it was cast;
  * `tally_mergeVotes` -- the map that is merged back is the one that is read next;
  * `bare_mergePayload` -- what is merged does not depend on the votes in the payload.
-/
import Ruwa.Crypto.Primitives
import Ruwa.Library.Json
import Ruwa.Session.Identity

namespace Ruwa.Session.Poll

open Ruwa.Library Ruwa.Crypto

/-! ## 1. The rows of a poll -/

/-- The columns that votes read: the payload is the value of its text, if this is JSON. -/
structure PollRow where
  msgType : String
  payload : Option Json

/-- The rows with the poll's message id, by the chat they are stored under. -/
abbrev PollRows := List Char → Option PollRow

def undecryptable : String := "undecryptable"

/-- The resent message replaces the placeholder. -/
def heals (old new : PollRow) : Bool :=
  old.msgType = undecryptable && new.msgType ≠ undecryptable

def messageInsert (rows : PollRows) (chat : List Char) (row : PollRow) (ignoreConflict : Bool) :
    PollRows :=
  match rows chat with
  | none => Function.update rows chat (some row)
  | some old =>
      if ignoreConflict && heals old row then Function.update rows chat (some row) else rows

def mergePayload (payload : Option Json) (extra : Members) : Json :=
  match payload.getD (.obj []) with
  | .obj members => .obj (Members.merge members extra)
  | value => value

def messageMergePayload (rows : PollRows) (chat : List Char) (extra : Members) : PollRows :=
  match rows chat with
  | none => rows
  | some row =>
      Function.update rows chat (some { row with payload := some (mergePayload row.payload extra) })

/-! ## 2. The votes in the payload -/

def pollVotes : List Char := "poll_votes".toList

def tally (payload : Option Json) : Members :=
  (((payload.getD .null).get pollVotes).bind Json.asObject).getD []

/-- An empty selection withdraws the vote. -/
def recount (votes : Members) (voter : List Char) (selected : List (List Char)) : Members :=
  if selected = [] then Members.erase votes voter
  else Members.set votes voter (.arr (selected.map .str))

/-- The first half of `applyPollVote`: the map as it is stored. -/
def lookVotes (rows : PollRows) (chat : List Char) : Option Members :=
  (rows chat).map fun row => tally row.payload

/-- The second half: the map with the new vote in it. -/
def mergeVotes (rows : PollRows) (chat : List Char) (votes : Members) (voter : List Char)
    (selected : List (List Char)) : PollRows :=
  messageMergePayload rows chat [(pollVotes, .obj (recount votes voter selected))]

/-- The payload without its votes; a text that is not JSON counts as an empty object. -/
def bare (payload : Option Json) : Json :=
  match payload.getD (.obj []) with
  | .obj members => .obj (Members.erase members pollVotes)
  | value => value

theorem tally_obj (members : Members) :
    tally (some (.obj members)) = ((Members.get members pollVotes).bind Json.asObject).getD [] := rfl

theorem tally_mergeVotes (members votes : Members) (voter : List Char)
    (selected : List (List Char)) :
    tally (some (mergePayload (some (.obj members))
      [(pollVotes, .obj (recount votes voter selected))])) = recount votes voter selected := by
  have hmerge : mergePayload (some (.obj members)) [(pollVotes, .obj (recount votes voter selected))] =
      .obj (Members.set members pollVotes (.obj (recount votes voter selected))) := rfl
  rw [hmerge, tally_obj, Members.get_set]
  rfl

/-- The members of other names leave the votes alone. -/
theorem tally_mergePayload {members extra : Members} (h : ∀ m ∈ extra, pollVotes ≠ m.1) :
    tally (some (mergePayload (some (.obj members)) extra)) = tally (some (.obj members)) := by
  have hmerge : mergePayload (some (.obj members)) extra = .obj (Members.merge members extra) := rfl
  rw [hmerge, tally_obj, tally_obj, Members.get_merge h]

/-- **What is merged does not depend on the votes.** -/
theorem bare_mergePayload {payload : Option Json} {extra : Members}
    (h : ∀ m ∈ extra, pollVotes ≠ m.1) :
    bare (some (mergePayload payload extra)) = mergePayload (some (bare payload)) extra := by
  unfold bare mergePayload
  simp only [Option.getD_some]
  cases payload.getD (.obj []) with
  | obj members =>
      simp only [Json.obj.injEq]
      exact Members.erase_merge h
  | _ => rfl

theorem bare_mergeVotes (payload : Option Json) (votes : Json) :
    bare (some (mergePayload payload [(pollVotes, votes)])) = bare payload := by
  unfold bare mergePayload
  simp only [Option.getD_some]
  cases payload.getD (.obj []) with
  | obj members => exact congrArg Json.obj (Members.erase_set members pollVotes votes)
  | _ => rfl

/-! ## 3. The options -/

def pollOptions (payload : Option Json) : Option (List (List Char)) :=
  let v := payload.getD .null
  let options := ((v.get "poll".toList).bind (·.get "options".toList)).or (v.get "options".toList)
  (options.bind Json.asArray).map fun items => items.filterMap Json.asStr

/-- The chats are tried in order. -/
def pollOptionsFor (rows : PollRows) (chats : List (List Char)) : List (List Char) :=
  (chats.findSome? fun chat => (rows chat).bind fun row => pollOptions row.payload).getD []

variable (H : Hashing)

def optionHash (option : List Char) : Bytes := (H.sha256 (utf8 (String.ofList option))).bytes

/-- A hash of no known option is shown as it is. -/
def pollSelectedNames (options : List (List Char)) (hashes : List Bytes) : List (List Char) :=
  hashes.map fun h =>
    (options.find? fun option => optionHash H option = h).getD (Text.hexEncode h)

/-- **Hashes of options become their names again**, also where two options have one name. -/
theorem pollSelectedNames_choices {options choices : List (List Char)}
    (hknown : ∀ c ∈ choices, c ∈ options)
    (hapart : ∀ o ∈ options, ∀ c ∈ choices, optionHash H o = optionHash H c → o = c) :
    pollSelectedNames H options (choices.map (optionHash H)) = choices := by
  unfold pollSelectedNames
  rw [List.map_map]
  refine (List.map_congr_left fun c hc => ?_).trans (List.map_id choices)
  obtain ⟨o, ho⟩ : ∃ o, options.find? (fun option => optionHash H option = optionHash H c) = some o :=
    Option.isSome_iff_exists.mp
      (List.find?_isSome.mpr ⟨c, hknown c hc, decide_eq_true rfl⟩)
  have hsame : optionHash H o = optionHash H c := by simpa using List.find?_some ho
  simp only [Function.comp_apply, ho, Option.getD_some, id_eq]
  exact hapart o (List.mem_of_find?_eq_some ho) c hc hsame

/-! ## 4. A sealed vote -/

def toNonAdJid (jid : List Char) : List Char :=
  match Text.rsplitOnce '@' jid with
  | some (_, server) => lidUserPart jid ++ '@' :: server
  | none => lidUserPart jid

variable (order : MostRecent) (table : List LidPnRow) (sessionId : String)

/-- The addresses a peer may have sealed with. -/
def jidSealForms (jid : List Char) : List (List Char) :=
  let alt :=
    if lidServer <:+ jid then
      (lidToPn table sessionId (lidUserPart jid)).map fun pn => pn.text ++ pnServer
    else if pnServer <:+ jid then
      (pnToLid order table sessionId (lidUserPart jid)).map fun lid => lid.text ++ lidServer
    else none
  toNonAdJid jid :: alt.toList

/-- A vote as it arrives. `opens` is what its text decrypts to under the key that a secret, a
    creator and a voter give, where it authenticates: the hashes of the selected options. -/
structure PollUpdate where
  fromMe : Bool
  remoteJid : Option (List Char)
  participant : Option (List Char)
  opens : Bytes → List Char → List Char → Option (List Bytes)

def PollUpdate.creators (u : PollUpdate) (voters : List (List Char)) (storedSender : List Char) :
    List (List Char) :=
  let named := ([u.remoteJid, u.participant].filterMap id).filter fun jid => jid ≠ []
  ((if u.fromMe then voters else []) ++ named.flatMap (jidSealForms order table sessionId) ++
    jidSealForms order table sessionId storedSender).eraseDups

/-- What the vote opens to under the first voter and creator that it authenticates with. -/
def PollUpdate.unseal (u : PollUpdate) (secret : Option (List Char × Bytes))
    (voterJid : List Char) : Option (List Bytes) :=
  secret.bind fun s =>
    let voters := jidSealForms order table sessionId voterJid
    voters.findSome? fun voter =>
      (u.creators order table sessionId voters s.1).findSome? fun creator =>
        u.opens s.2 creator voter

/-- The names of the selected options, if the vote can be read. -/
def decryptPollVote (rows : PollRows) (secret : Option (List Char × Bytes)) (u : PollUpdate)
    (voterJid : List Char) (chats : List (List Char)) : Option (List (List Char)) :=
  (u.unseal order table sessionId secret voterJid).map
    (pollSelectedNames H (pollOptionsFor rows chats))

/-- The vote was cast for these options: it opens under the poll's secret with some of the
    addresses that are tried, and with none of them to anything else. -/
structure GenuineVote (u : PollUpdate) (secret : Option (List Char × Bytes)) (voterJid : List Char)
    (choices : List (List Char)) : Prop where
  opened : ∃ s ∈ secret, ∃ voter ∈ jidSealForms order table sessionId voterJid,
    ∃ creator ∈ u.creators order table sessionId
      (jidSealForms order table sessionId voterJid) s.1, (u.opens s.2 creator voter).isSome
  authentic : ∀ s ∈ secret, ∀ creator voter, ∀ hashes ∈ u.opens s.2 creator voter,
    hashes = choices.map (optionHash H)

/-- **A vote that one of the addresses opens is read as it was cast.** -/
theorem decryptPollVote_genuine {rows : PollRows} {secret : Option (List Char × Bytes)}
    {u : PollUpdate} {voterJid : List Char} {choices : List (List Char)}
    (h : GenuineVote H order table sessionId u secret voterJid choices) {chats : List (List Char)}
    (hknown : ∀ c ∈ choices, c ∈ pollOptionsFor rows chats)
    (hapart : ∀ o ∈ pollOptionsFor rows chats, ∀ c ∈ choices,
      optionHash H o = optionHash H c → o = c) :
    decryptPollVote H order table sessionId rows secret u voterJid chats = some choices := by
  obtain ⟨s, hs, voter, hvoter, creator, hcreator, hopens⟩ := h.opened
  have hunseal : u.unseal order table sessionId secret voterJid =
      some (choices.map (optionHash H)) := by
    cases hs
    unfold PollUpdate.unseal
    simp only [Option.bind_some]
    have hsome : ∃ hashes, ((jidSealForms order table sessionId voterJid).findSome? fun voter =>
        (u.creators order table sessionId (jidSealForms order table sessionId voterJid)
          s.1).findSome? fun creator => u.opens s.2 creator voter) = some hashes := by
      refine Option.isSome_iff_exists.mp (List.findSome?_isSome_iff.mpr ⟨voter, hvoter, ?_⟩)
      exact List.findSome?_isSome_iff.mpr ⟨creator, hcreator, hopens⟩
    obtain ⟨hashes, hfound⟩ := hsome
    obtain ⟨voter', -, hinner⟩ := List.exists_of_findSome?_eq_some hfound
    obtain ⟨creator', -, hopened⟩ := List.exists_of_findSome?_eq_some hinner
    rw [hfound, h.authentic s rfl creator' voter' hashes hopened]
  unfold decryptPollVote
  rw [hunseal, Option.map_some, pollSelectedNames_choices H hknown hapart]

end Ruwa.Session.Poll
