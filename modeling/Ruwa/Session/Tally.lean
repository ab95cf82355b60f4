/-
  File:      Ruwa/Session/Tally.lean
  Subject:   THE TALLY OF A POLL over every order of votes, other writers of the row, and mappings
             that are learned: the map in the payload beside the votes that were cast.

  * `Counted` -- each account has one entry, its latest vote, and none if that was empty;
  * `counted_recount`, `counted_learn` -- what one vote and one mapping do to it;
  * **`poll_tally`** -- the votes never change what the other writers left in the payload, and the
    map is right in every run in which each vote finds the poll and the map that it has read, and
    no mapping joins two voters or takes one from its entry;
  * `poll_counted_twice` -- a voter whose number is learned between two votes is counted twice.
-/
import Ruwa.Library.Run
import Ruwa.Session.Poll

namespace Ruwa.Session.Poll

open Ruwa.Library Ruwa.Crypto

/-! ## 1. What the map should hold -/

/-- A vote that was cast: by whom, for which options, and its place among all that arrived. -/
structure Ballot where
  voter : Form
  choices : List (List Char)
  arrival : Nat

/-- What is to be seen of a vote: nothing, if it is empty. -/
def shown (choices : List (List Char)) : List Json :=
  if choices = [] then [] else [.arr (choices.map .str)]

section Counting

variable (table : List LidPnRow) (sessionId : String)

/-- The entries of an account, under whichever of its addresses they stand. -/
def votesOf (votes : Members) (a : Account) : List Json :=
  (votes.filter fun e => canonicalUserJid table sessionId e.1 = a.jid).map (·.2)

/-- No vote of the same account arrived later. -/
def Latest (ballots : List Ballot) (b : Ballot) : Prop :=
  ∀ b' ∈ ballots, accountOf table sessionId b'.voter = accountOf table sessionId b.voter →
    b'.arrival ≤ b.arrival

/-- **Each account has exactly its latest vote**, and every entry is that of a voter. -/
structure Counted (votes : Members) (ballots : List Ballot) : Prop where
  exact : ∀ b ∈ ballots, Latest table sessionId ballots b →
    votesOf table sessionId votes (accountOf table sessionId b.voter) = shown b.choices
  owned : ∀ e ∈ votes, ∃ b ∈ ballots,
    canonicalUserJid table sessionId e.1 = (accountOf table sessionId b.voter).jid

theorem counted_nil : Counted table sessionId [] [] :=
  ⟨fun _ hb => (nomatch hb), fun _ he => (nomatch he)⟩

/-- The accounts that voted are the same before and after a mapping is learned, and so are the
    entries of each. -/
structure Steady (table' : List LidPnRow) (votes : Members) (ballots : List Ballot) : Prop where
  voters : ∀ b ∈ ballots, ∀ b' ∈ ballots,
    (accountOf table' sessionId b'.voter = accountOf table' sessionId b.voter ↔
      accountOf table sessionId b'.voter = accountOf table sessionId b.voter)
  entries : ∀ e ∈ votes, ∀ b ∈ ballots,
    (canonicalUserJid table' sessionId e.1 = (accountOf table' sessionId b.voter).jid ↔
      canonicalUserJid table sessionId e.1 = (accountOf table sessionId b.voter).jid)

variable {table sessionId}

theorem counted_learn {table' : List LidPnRow} {votes : Members} {ballots : List Ballot}
    (h : Counted table sessionId votes ballots)
    (hsteady : Steady table sessionId table' votes ballots) :
    Counted table' sessionId votes ballots := by
  refine ⟨fun b hb hlatest => ?_, fun e he => ?_⟩
  · have hvotes : votesOf table' sessionId votes (accountOf table' sessionId b.voter) =
        votesOf table sessionId votes (accountOf table sessionId b.voter) := by
      unfold votesOf
      rw [List.filter_congr fun e he => decide_eq_decide.mpr (hsteady.entries e he b hb)]
    rw [hvotes]
    exact h.exact b hb fun b' hb' hsame =>
      hlatest b' hb' ((hsteady.voters b hb b' hb').mpr hsame)
  · obtain ⟨b, hb, hentry⟩ := h.owned e he
    exact ⟨b, hb, (hsteady.entries e he b hb).mpr hentry⟩

/-- A vote under the only key of its account replaces the entry of this account. -/
theorem votesOf_recount {votes : Members} {key : List Char} {a : Account}
    (hkey : canonicalUserJid table sessionId key = a.jid)
    (halone : ∀ e ∈ votes, canonicalUserJid table sessionId e.1 = a.jid → e.1 = key)
    (selected : List (List Char)) (b : Account) :
    votesOf table sessionId (recount votes key selected) b =
      if a = b then shown selected else votesOf table sessionId votes b := by
  have herase : votesOf table sessionId (Members.erase votes key) b =
      if a = b then [] else votesOf table sessionId votes b := by
    unfold votesOf Members.erase
    rw [List.filter_filter]
    by_cases hab : a = b
    · subst hab
      rw [if_pos rfl, List.filter_eq_nil_iff.mpr fun e he => ?_, List.map_nil]
      intro hfound
      simp only [ne_eq, Bool.and_eq_true, decide_eq_true_eq] at hfound
      exact hfound.2 (halone e he hfound.1)
    · rw [if_neg hab]
      congr 1
      refine List.filter_congr fun e _ => ?_
      by_cases hown : canonicalUserJid table sessionId e.1 = b.jid
      · have hne : e.1 ≠ key := by
          intro heq
          rw [heq, hkey] at hown
          exact hab (Account.jid_inj.mp hown)
        simp [hown, hne]
      · simp [hown]
  unfold recount shown
  by_cases hselected : selected = []
  · rw [if_pos hselected, if_pos hselected]
    exact herase
  · rw [if_neg hselected, if_neg hselected]
    by_cases hab : a = b
    · rw [if_pos hab] at herase ⊢
      unfold votesOf at herase ⊢
      unfold Members.set
      rw [List.filter_cons_of_pos (by simpa [hab] using hkey), List.map_cons, herase]
    · rw [if_neg hab] at herase ⊢
      have hother : ¬canonicalUserJid table sessionId key = b.jid := by
        rw [hkey]
        exact fun hjid => hab (Account.jid_inj.mp hjid)
      unfold votesOf at herase ⊢
      unfold Members.set
      rw [List.filter_cons_of_neg (by simpa using hother), herase]

theorem mem_recount {votes : Members} {key : List Char} {selected : List (List Char)}
    {e : List Char × Json} (he : e ∈ recount votes key selected) : e.1 = key ∨ e ∈ votes := by
  unfold recount at he
  split at he
  · exact Or.inr (List.mem_of_mem_filter he)
  · rcases List.mem_cons.mp he with rfl | he
    · exact Or.inl rfl
    · exact Or.inr (List.mem_of_mem_filter he)

theorem counted_recount {votes : Members} {ballots : List Ballot}
    (h : Counted table sessionId votes ballots) {ballot : Ballot} {key : List Char}
    (hkey : canonicalUserJid table sessionId key = (accountOf table sessionId ballot.voter).jid)
    (halone : ∀ e ∈ votes, canonicalUserJid table sessionId e.1 =
      (accountOf table sessionId ballot.voter).jid → e.1 = key)
    (hlast : ∀ b ∈ ballots, accountOf table sessionId b.voter =
      accountOf table sessionId ballot.voter → b.arrival < ballot.arrival) :
    Counted table sessionId (recount votes key ballot.choices) (ballots ++ [ballot]) := by
  have hnew : ballot ∈ ballots ++ [ballot] := List.mem_append_right _ List.mem_cons_self
  refine ⟨fun b hb hlatest => ?_, fun e he => ?_⟩
  · rw [votesOf_recount hkey halone]
    rcases List.mem_append.mp hb with hold | hb
    · have hother : accountOf table sessionId ballot.voter ≠ accountOf table sessionId b.voter := by
        intro hsame
        have hle := hlatest ballot hnew hsame
        have hlt := hlast b hold hsame.symm
        omega
      rw [if_neg hother]
      exact h.exact b hold fun b' hb' => hlatest b' (List.mem_append_left _ hb')
    · cases List.mem_singleton.mp hb
      rw [if_pos rfl]
  · rcases mem_recount he with hsame | he
    · exact ⟨ballot, hnew, hsame ▸ hkey⟩
    · obtain ⟨b, hb, hentry⟩ := h.owned e he
      exact ⟨b, List.mem_append_left _ hb, hentry⟩

end Counting

/-! ## 2. Votes and the other writers -/

/-- A vote that is being applied: what it counts as, and the two halves of `applyPollVote`. -/
structure Counting where
  ballot : Ballot
  chat : List Char
  voter : List Char
  selected : List (List Char)
  votes : Option Members

structure PollWorld where
  table : List LidPnRow
  secret : Option (List Char × Bytes)
  rows : PollRows
  counting : List Counting
  /-- What the writers other than the votes have made of the rows. -/
  written : PollRows
  /-- The votes that are done with, counted or not. -/
  ballots : List Ballot
  arrived : Nat

/-- A vote stanza. `destination` is the conversation, if it is a copy from a device of our own. -/
structure VoteStanza where
  update : PollUpdate
  source : List Char
  participant : Form
  destination : Option (List Char)
  /-- What the voter chose; it is sealed in the update. -/
  choices : List (List Char)

def VoteStanza.chatRaw (v : VoteStanza) : List Char := v.destination.getD v.source

def VoteStanza.sender (v : VoteStanza) (own : Option UserPart) : Form :=
  if v.destination.isSome then
    match own with
    | some number => ⟨number, none, none, .pn⟩
    | none => v.participant
  else v.participant

/-- What a finished upload adds to the payload of its message. -/
structure UploadDescriptor where
  url : List Char
  directPath : List Char
  mediaKeyB64 : List Char
  mimetype : List Char
  fileLength : Nat

def UploadDescriptor.members (d : UploadDescriptor) : Members :=
  [("url".toList, .str d.url), ("direct_path".toList, .str d.directPath),
    ("media_key_b64".toList, .str d.mediaKeyB64), ("mimetype".toList, .str d.mimetype),
    ("file_length".toList, .num (Text.decimal d.fileLength))]

inductive PollEvent where
  /-- A mapping is learned. -/
  | learn (row : LidPnRow)
  /-- The secret of the poll is stored; the first one stays. -/
  | keepSecret (sender : List Char) (secret : Bytes)
  /-- The poll is stored, or its placeholder healed. -/
  | insert (chat : List Char) (row : PollRow) (ignoreConflict : Bool)
  | describe (chat : List Char) (d : UploadDescriptor)
  /-- A vote is read and the addresses it is filed under are found. -/
  | arrive (v : VoteStanza)
  /-- A vote being applied looks up the payload. -/
  | look (i : Nat)
  /-- It merges the map back. -/
  | merge (i : Nat)

variable (H : Hashing) (order : MostRecent) (sessionId : String) (own : Option UserPart)

def PollWorld.chats (w : PollWorld) (v : VoteStanza) : List (List Char) :=
  [canonicalUserJid w.table sessionId v.chatRaw, toNonAdJid v.chatRaw]

def PollWorld.arrive (w : PollWorld) (v : VoteStanza) : PollWorld :=
  let ballot : Ballot := ⟨v.sender own, v.choices, w.arrived⟩
  match decryptPollVote H order w.table sessionId w.rows w.secret v.update v.participant.jid
      (w.chats sessionId v) with
  | none => { w with ballots := w.ballots ++ [ballot], arrived := w.arrived + 1 }
  | some selected =>
      let c : Counting := {
        ballot := ballot
        chat := canonicalUserJid w.table sessionId v.chatRaw
        voter := canonicalUserJid w.table sessionId (v.sender own).jid
        selected := selected
        votes := none }
      { w with counting := w.counting ++ [c], arrived := w.arrived + 1 }

def PollWorld.step (w : PollWorld) : PollEvent → Option PollWorld
  | .learn row => some { w with table := lidPnPut w.table row }
  | .keepSecret sender secret => some { w with secret := w.secret.or (some (sender, secret)) }
  | .insert chat row ignoreConflict =>
      some { w with
        rows := messageInsert w.rows chat row ignoreConflict
        written := messageInsert w.written chat row ignoreConflict }
  | .describe chat d =>
      some { w with
        rows := messageMergePayload w.rows chat d.members
        written := messageMergePayload w.written chat d.members }
  | .arrive v => some (w.arrive H order sessionId own v)
  | .look i =>
      match w.counting[i]? with
      | none => none
      | some c =>
          match lookVotes w.rows c.chat with
          | none =>
              some { w with counting := w.counting.eraseIdx i, ballots := w.ballots ++ [c.ballot] }
          | some votes =>
              some { w with counting := w.counting.set i { c with votes := some votes } }
  | .merge i =>
      match w.counting[i]? with
      | none => none
      | some c =>
          c.votes.map fun votes =>
            { w with
              rows := mergeVotes w.rows c.chat votes c.voter c.selected
              counting := w.counting.eraseIdx i
              ballots := w.ballots ++ [c.ballot] }

/-- Before the poll is stored. -/
def PollWorld.start (table : List LidPnRow) (secret : Option (List Char × Bytes)) : PollWorld :=
  ⟨table, secret, fun _ => none, [], fun _ => none, [], 0⟩

/-! ## 3. What the votes leave alone -/

/-- A row without its votes. -/
def voteless (row : PollRow) : String × Json := (row.msgType, bare row.payload)

/-- The same rows, but for the votes. -/
def Alike (rows rows' : PollRows) : Prop :=
  ∀ chat, (rows chat).map voteless = (rows' chat).map voteless

theorem alike_update {rows rows' : PollRows} (h : Alike rows rows') (chat : List Char)
    {row row' : PollRow} (hrow : voteless row = voteless row') :
    Alike (Function.update rows chat (some row)) (Function.update rows' chat (some row')) := by
  intro other
  by_cases hchat : other = chat
  · subst hchat
    rw [Function.update_self, Function.update_self, Option.map_some, Option.map_some, hrow]
  · rw [Function.update_of_ne hchat, Function.update_of_ne hchat]
    exact h other

theorem alike_cases {rows rows' : PollRows} (h : Alike rows rows') (chat : List Char) :
    (rows chat = none ∧ rows' chat = none) ∨
      ∃ row row', rows chat = some row ∧ rows' chat = some row' ∧ voteless row = voteless row' := by
  have hchat := h chat
  cases hrow : rows chat with
  | none =>
      rw [hrow] at hchat
      exact Or.inl ⟨rfl, Option.map_eq_none_iff.mp hchat.symm⟩
  | some row =>
      rw [hrow, Option.map_some] at hchat
      obtain ⟨row', hrow', hsame⟩ := Option.map_eq_some_iff.mp hchat.symm
      exact Or.inr ⟨row, row', rfl, hrow', hsame.symm⟩

theorem alike_insert {rows rows' : PollRows} (h : Alike rows rows') (chat : List Char)
    (row : PollRow) (ignoreConflict : Bool) :
    Alike (messageInsert rows chat row ignoreConflict)
      (messageInsert rows' chat row ignoreConflict) := by
  unfold messageInsert
  rcases alike_cases h chat with ⟨hnone, hnone'⟩ | ⟨old, old', hold, hold', hsame⟩
  · rw [hnone, hnone']
    exact alike_update h chat rfl
  · have htype : old.msgType = old'.msgType := congrArg Prod.fst hsame
    have hheals : heals old row = heals old' row := by
      unfold heals
      rw [htype]
    rw [hold, hold']
    simp only [hheals]
    split
    · exact alike_update h chat rfl
    · exact h

theorem alike_merge {rows rows' : PollRows} (h : Alike rows rows') (chat : List Char)
    {extra : Members} (hextra : ∀ m ∈ extra, pollVotes ≠ m.1) :
    Alike (messageMergePayload rows chat extra) (messageMergePayload rows' chat extra) := by
  unfold messageMergePayload
  rcases alike_cases h chat with ⟨hnone, hnone'⟩ | ⟨row, row', hrow, hrow', hsame⟩
  · rw [hnone, hnone']
    exact h
  · rw [hrow, hrow']
    refine alike_update h chat ?_
    have htype : row.msgType = row'.msgType := congrArg Prod.fst hsame
    have hbare : bare row.payload = bare row'.payload := congrArg Prod.snd hsame
    unfold voteless
    simp only [htype, bare_mergePayload hextra, hbare]

theorem alike_mergeVotes {rows rows' : PollRows} (h : Alike rows rows') (chat : List Char)
    (votes : Members) (voter : List Char) (selected : List (List Char)) :
    Alike (mergeVotes rows chat votes voter selected) rows' := by
  unfold mergeVotes messageMergePayload
  cases hrow : rows chat with
  | none => exact h
  | some row =>
      intro other
      dsimp only
      by_cases hchat : other = chat
      · subst hchat
        have hsame := h other
        rw [hrow] at hsame
        rw [← hsame, Function.update_self, Option.map_some, Option.map_some]
        unfold voteless
        simp only [bare_mergeVotes]
      · rw [Function.update_of_ne hchat]
        exact h other

theorem describe_apart (d : UploadDescriptor) : ∀ m ∈ d.members, pollVotes ≠ m.1 := by
  intro m hm
  simp only [UploadDescriptor.members, List.mem_cons, List.not_mem_nil, or_false] at hm
  rcases hm with rfl | rfl | rfl | rfl | rfl
  all_goals
    dsimp only
    decide

variable {H order sessionId own}

theorem others_step {w w' : PollWorld} {e : PollEvent} (h : Alike w.rows w.written)
    (hstep : w.step H order sessionId own e = some w') : Alike w'.rows w'.written := by
  cases e with
  | learn row =>
      cases hstep
      exact h
  | keepSecret sender secret =>
      cases hstep
      exact h
  | insert chat row ignoreConflict =>
      cases hstep
      exact alike_insert h chat row ignoreConflict
  | describe chat d =>
      cases hstep
      exact alike_merge h chat (describe_apart d)
  | arrive v =>
      cases hstep
      unfold PollWorld.arrive
      split <;> exact h
  | look i =>
      simp only [PollWorld.step] at hstep
      split at hstep
      · cases hstep
      · split at hstep <;> cases hstep <;> exact h
  | merge i =>
      simp only [PollWorld.step] at hstep
      split at hstep
      · cases hstep
      · obtain ⟨votes, -, rfl⟩ := Option.map_eq_some_iff.mp hstep
        exact alike_mergeVotes h _ _ _ _

/-! ## 4. When the map is right -/

/-- A payload as the poll is stored: an object without votes. -/
def Fresh (payload : Option Json) : Prop :=
  ∃ members, payload = some (.obj members) ∧ Members.get members pollVotes = none

variable (H order sessionId own)

/-- What each step of a run is asked to meet, for the poll that is stored under the chat `home`. -/
def Proper (home : List Char) (w : PollWorld) : PollEvent → Prop
  | .learn row =>
      ∀ stored ∈ w.rows home,
        Steady w.table sessionId (lidPnPut w.table row) (tally stored.payload) w.ballots
  | .keepSecret _ _ => True
  | .insert chat row ignoreConflict =>
      chat = home → Fresh row.payload ∧
        ∀ old ∈ w.rows home, (ignoreConflict && heals old row) = true → tally old.payload = []
  | .describe _ _ => True
  | .arrive v =>
      GenuineVote H order w.table sessionId v.update w.secret v.participant.jid v.choices ∧
        (∀ c ∈ v.choices, c ∈ pollOptionsFor w.rows (w.chats sessionId v)) ∧
        (∀ o ∈ pollOptionsFor w.rows (w.chats sessionId v), ∀ c ∈ v.choices,
          optionHash H o = optionHash H c → o = c) ∧
        canonicalUserJid w.table sessionId v.chatRaw = home ∧ w.rows home ≠ none
  | .look _ => True
  | .merge i =>
      ∀ c ∈ w.counting[i]?, ∀ stored ∈ w.rows home,
        c.votes = some (tally stored.payload) ∧
        canonicalUserJid w.table sessionId c.voter =
          (accountOf w.table sessionId c.ballot.voter).jid ∧
        (∀ e ∈ tally stored.payload, canonicalUserJid w.table sessionId e.1 =
          (accountOf w.table sessionId c.ballot.voter).jid → e.1 = c.voter) ∧
        ∀ b ∈ w.ballots, accountOf w.table sessionId b.voter =
          accountOf w.table sessionId c.ballot.voter → b.arrival < c.ballot.arrival

section Kept

variable (table : List LidPnRow) (sessionId : String) (home : List Char)

/-- What such a run keeps: of the poll's row, the votes that are done with, and those that are being
    applied. -/
structure Sound (stored : Option PollRow) (ballots : List Ballot) (counting : List Counting) :
    Prop where
  counted : ∀ row ∈ stored, Counted table sessionId (tally row.payload) ballots
  object : ∀ row ∈ stored, ∃ members, row.payload = some (.obj members)
  absent : stored = none → ballots = [] ∧ counting = []
  counting : ∀ c ∈ counting, c.chat = home ∧ c.selected = c.ballot.choices

variable {table sessionId home} {stored : Option PollRow} {ballots : List Ballot}
  {counting : List Counting}

theorem tally_fresh {payload : Option Json} (h : Fresh payload) : tally payload = [] := by
  obtain ⟨members, rfl, hnone⟩ := h
  rw [tally_obj, hnone]
  rfl

theorem sound_none : Sound table sessionId home none [] [] :=
  ⟨nofun, nofun, fun _ => ⟨rfl, rfl⟩, nofun⟩

/-- A row without votes, where none were counted. -/
theorem sound_stored (h : Sound table sessionId home stored ballots counting) {row : PollRow}
    (hfresh : Fresh row.payload) (hnone : ∀ old ∈ stored, tally old.payload = []) :
    Sound table sessionId home (some row) ballots counting := by
  refine ⟨fun r hr => ?_, fun r hr => ?_, nofun, h.counting⟩
  · cases hr
    rw [tally_fresh hfresh]
    cases hstored : stored with
    | none =>
        rw [(h.absent hstored).1]
        exact counted_nil _ _
    | some old =>
        have hcounted := h.counted old hstored
        rwa [hnone old hstored] at hcounted
  · cases hr
    exact hfresh.imp fun _ hm => hm.1

theorem sound_merged (h : Sound table sessionId home stored ballots counting) {extra : Members}
    (hextra : ∀ m ∈ extra, pollVotes ≠ m.1) :
    Sound table sessionId home
      (stored.map fun row => { row with payload := some (mergePayload row.payload extra) })
      ballots counting := by
  refine ⟨fun r hr => ?_, fun r hr => ?_, fun hnone => h.absent (Option.map_eq_none_iff.mp hnone),
    h.counting⟩
  · obtain ⟨old, hold, rfl⟩ := Option.map_eq_some_iff.mp hr
    obtain ⟨members, hmembers⟩ := h.object old hold
    have hcounted := h.counted old hold
    rw [hmembers] at hcounted ⊢
    rw [tally_mergePayload hextra]
    exact hcounted
  · obtain ⟨old, hold, rfl⟩ := Option.map_eq_some_iff.mp hr
    obtain ⟨members, hmembers⟩ := h.object old hold
    exact ⟨Members.merge members extra, by rw [hmembers]; rfl⟩

/-- The vote that is merged back is counted. -/
theorem sound_counted (h : Sound table sessionId home stored ballots counting) {i : Nat}
    {c : Counting} (hc : counting[i]? = some c) {votes : Members}
    (hproper : ∀ row ∈ stored, votes = tally row.payload ∧
      canonicalUserJid table sessionId c.voter = (accountOf table sessionId c.ballot.voter).jid ∧
      (∀ e ∈ tally row.payload, canonicalUserJid table sessionId e.1 =
        (accountOf table sessionId c.ballot.voter).jid → e.1 = c.voter) ∧
      ∀ b ∈ ballots, accountOf table sessionId b.voter =
        accountOf table sessionId c.ballot.voter → b.arrival < c.ballot.arrival) :
    Sound table sessionId home
      (stored.map fun row => { row with
        payload := some (mergePayload row.payload
          [(pollVotes, .obj (recount votes c.voter c.selected))]) })
      (ballots ++ [c.ballot]) (counting.eraseIdx i) := by
  have hmem : c ∈ counting := List.mem_of_getElem? hc
  refine ⟨fun r hr => ?_, fun r hr => ?_, fun hnone => ?_,
    fun c' hc' => h.counting c' (List.mem_of_mem_eraseIdx hc')⟩
  · obtain ⟨old, hold, rfl⟩ := Option.map_eq_some_iff.mp hr
    obtain ⟨rfl, hkey, halone, hlast⟩ := hproper old hold
    obtain ⟨members, hmembers⟩ := h.object old hold
    have hcounted := counted_recount (h.counted old hold) hkey halone hlast
    rw [(h.counting c hmem).2]
    rw [hmembers] at hcounted ⊢
    rw [tally_mergeVotes]
    exact hcounted
  · obtain ⟨old, hold, rfl⟩ := Option.map_eq_some_iff.mp hr
    obtain ⟨members, hmembers⟩ := h.object old hold
    exact ⟨_, by rw [hmembers]; rfl⟩
  · have hempty := (h.absent (Option.map_eq_none_iff.mp hnone)).2
    rw [hempty] at hmem
    cases hmem

end Kept

variable {H order sessionId own} {home : List Char} {w : PollWorld}

theorem messageInsert_apply (rows : PollRows) (chat : List Char) (row : PollRow)
    (ignoreConflict : Bool) (other : List Char) :
    messageInsert rows chat row ignoreConflict other =
      if other = chat then
        match rows other with
        | none => some row
        | some old => if ignoreConflict && heals old row then some row else some old
      else rows other := by
  unfold messageInsert
  by_cases hchat : other = chat
  · subst hchat
    rw [if_pos rfl]
    cases hrow : rows other with
    | none => exact Function.update_self ..
    | some old =>
        dsimp only
        split
        · exact Function.update_self ..
        · exact hrow
  · rw [if_neg hchat]
    cases rows chat with
    | none => exact Function.update_of_ne hchat _ _
    | some old =>
        dsimp only
        split
        · exact Function.update_of_ne hchat _ _
        · rfl

theorem messageMergePayload_apply (rows : PollRows) (chat : List Char) (extra : Members)
    (other : List Char) :
    messageMergePayload rows chat extra other =
      if other = chat then
        (rows other).map fun row => { row with payload := some (mergePayload row.payload extra) }
      else rows other := by
  unfold messageMergePayload
  by_cases hchat : other = chat
  · subst hchat
    rw [if_pos rfl]
    cases hrow : rows other with
    | none => exact hrow
    | some row => exact Function.update_self ..
  · rw [if_neg hchat]
    cases rows chat with
    | none => rfl
    | some row => exact Function.update_of_ne hchat _ _

theorem sound_arrive (h : Sound w.table sessionId home (w.rows home) w.ballots w.counting)
    {v : VoteStanza} (hproper : Proper H order sessionId home w (.arrive v)) {w' : PollWorld}
    (hstep : w.arrive H order sessionId own v = w') :
    Sound w'.table sessionId home (w'.rows home) w'.ballots w'.counting := by
  obtain ⟨hgenuine, hknown, hapart, hhome, hrow⟩ := hproper
  unfold PollWorld.arrive at hstep
  rw [decryptPollVote_genuine H order w.table sessionId hgenuine hknown hapart] at hstep
  subst hstep
  refine ⟨h.counted, h.object, fun hnone => absurd hnone hrow, fun c hc => ?_⟩
  rcases List.mem_append.mp hc with hold | hnew
  · exact h.counting c hold
  · cases List.mem_singleton.mp hnew
    exact ⟨hhome, rfl⟩

theorem sound_look (h : Sound w.table sessionId home (w.rows home) w.ballots w.counting)
    {w' : PollWorld} {i : Nat} (hstep : w.step H order sessionId own (.look i) = some w') :
    Sound w'.table sessionId home (w'.rows home) w'.ballots w'.counting := by
  simp only [PollWorld.step] at hstep
  split at hstep
  · cases hstep
  · rename_i c hc
    have hmem : c ∈ w.counting := List.mem_of_getElem? hc
    have hrow : w.rows home ≠ none := by
      intro hnone
      rw [(h.absent hnone).2] at hmem
      cases hmem
    split at hstep
    · -- the row is there, so it is found
      rename_i hnone
      unfold lookVotes at hnone
      rw [(h.counting c hmem).1] at hnone
      exact absurd (Option.map_eq_none_iff.mp hnone) hrow
    · cases hstep
      refine ⟨h.counted, h.object, fun hnone => absurd hnone hrow, fun c' hc' => ?_⟩
      rcases List.mem_or_eq_of_mem_set hc' with hold | rfl
      · exact h.counting c' hold
      · exact h.counting c hmem

theorem sound_step {w' : PollWorld} {e : PollEvent}
    (h : Sound w.table sessionId home (w.rows home) w.ballots w.counting)
    (hproper : Proper H order sessionId home w e)
    (hstep : w.step H order sessionId own e = some w') :
    Sound w'.table sessionId home (w'.rows home) w'.ballots w'.counting := by
  cases e with
  | learn row =>
      cases hstep
      exact ⟨fun r hr => counted_learn (h.counted r hr) (hproper r hr), h.object, h.absent,
        h.counting⟩
  | keepSecret sender secret =>
      cases hstep
      exact h
  | insert chat row ignoreConflict =>
      cases hstep
      dsimp only
      rw [messageInsert_apply]
      split
      · rename_i hchat
        obtain ⟨hfresh, hheals⟩ := hproper hchat.symm
        split
        · rename_i hnone
          exact sound_stored h hfresh fun old hold => by rw [hnone] at hold; cases hold
        · rename_i old hold
          split
          · rename_i hheal
            exact sound_stored h hfresh fun old' hold' => hheals old' hold' (by
              rw [hold] at hold'
              cases hold'
              exact hheal)
          · exact hold ▸ h
      · exact h
  | describe chat d =>
      cases hstep
      dsimp only
      rw [messageMergePayload_apply]
      split
      · exact sound_merged h (describe_apart d)
      · exact h
  | arrive v =>
      simp only [PollWorld.step, Option.some.injEq] at hstep
      exact sound_arrive h hproper hstep
  | look i => exact sound_look h hstep
  | merge i =>
      simp only [PollWorld.step] at hstep
      split at hstep
      · cases hstep
      · rename_i c hc
        obtain ⟨votes, hvotes, rfl⟩ := Option.map_eq_some_iff.mp hstep
        have hhome : home = c.chat := (h.counting c (List.mem_of_getElem? hc)).1.symm
        dsimp only [mergeVotes]
        rw [messageMergePayload_apply, if_pos hhome]
        refine sound_counted h hc fun row hrow => ?_
        obtain ⟨hsnapshot, hrest⟩ := hproper c hc row hrow
        exact ⟨Option.some.inj (hvotes.symm.trans hsnapshot), hrest⟩

/-- **The tally**: over every run the other members of the payloads are what the other writers
    made of them; and where each step is proper, the stored poll holds the latest vote of each
    account and nothing else. -/
theorem poll_tally (home : List Char) {table : List LidPnRow}
    {secret : Option (List Char × Bytes)} {events : List PollEvent} {w : PollWorld}
    (hrun : runFrom (PollWorld.step H order sessionId own) (.start table secret) events = some w) :
    Alike w.rows w.written ∧
      (Meets (PollWorld.step H order sessionId own) (Proper H order sessionId home)
          (.start table secret) events →
        ∀ row ∈ w.rows home, Counted w.table sessionId (tally row.payload) w.ballots) := by
  refine ⟨?_, fun hmeets => ?_⟩
  · exact run_invariant (C := fun _ _ => True) (I := fun s => Alike s.rows s.written)
      (fun _ _ _ hs _ hstep => others_step hs hstep) (fun _ => rfl)
      (meets_of_forall (fun _ _ => trivial) events) hrun
  · have hsound := run_invariant
      (I := fun s => Sound s.table sessionId home (s.rows home) s.ballots s.counting)
      (fun _ _ _ hs hproper hstep => sound_step hs hproper hstep)
      sound_none hmeets hrun
    exact hsound.counted

namespace Sample

def pizza : List Char := "Pizza".toList
def sushi : List Char := "Sushi".toList

/-- The SHA-256 hashes of the two options. -/
def optionHashes : Hashing :=
  .ofTable
    [(utf8 "Pizza", ⟨[0xf1, 0x29, 0x58, 0x81, 0x6a, 0x49, 0xad, 0xfa, 0x2c, 0x6c, 0x8d, 0xe8, 0xdd,
        0x21, 0x44, 0xc1, 0x63, 0xe9, 0x2c, 0x5e, 0x37, 0x5d, 0xe9, 0x64, 0xd5, 0x33, 0x18, 0x7c,
        0x7d, 0x23, 0x6c, 0x36], by decide⟩),
      (utf8 "Sushi", ⟨[0x67, 0x0b, 0xd9, 0xce, 0xd0, 0xc6, 0xbc, 0x3f, 0xab, 0x9b, 0xcc, 0xe9, 0x71,
        0x85, 0xcd, 0xb5, 0xa6, 0xc6, 0x00, 0x8f, 0x0b, 0xb7, 0xa3, 0x3c, 0x5e, 0x43, 0x2b, 0x7f,
        0xaa, 0x0e, 0x27, 0xed], by decide⟩)]
    [] []

def group : List Char := "120363000000000001@g.us".toList

def dinner : PollRow :=
  ⟨"poll", some (.obj [("type".toList, .str "poll".toList),
    ("poll".toList, .obj [("options".toList, .arr [.str pizza, .str sushi])])])⟩

def voterLid : UserPart :=
  ⟨"64000000000002".toList, by decide, List.all_iff_forall_prop.mp (by decide)⟩
def voterNumber : UserPart :=
  ⟨"5511990000002".toList, by decide, List.all_iff_forall_prop.mp (by decide)⟩

/-- The voter seals under its LID. -/
def ballotOf (choices : List (List Char)) : VoteStanza where
  update := {
    fromMe := false
    remoteJid := none
    participant := some "5511990000001@s.whatsapp.net".toList
    opens := fun _ creator voter =>
      if creator = "5511990000001@s.whatsapp.net".toList ∧ voter = "64000000000002@lid".toList then
        some (choices.map (optionHash optionHashes))
      else none }
  source := group
  participant := ⟨voterLid, some 1, some 3, .lid⟩
  destination := none
  choices := choices

def voted : List PollEvent :=
  [.insert group dinner true, .keepSecret "5511990000001@s.whatsapp.net".toList (List.replicate 32 7),
    .arrive (ballotOf [pizza]), .look 0, .merge 0]

/-- Between the two votes the number of the voter is learned. -/
def relearned : List PollEvent :=
  voted ++ [.learn ⟨"s", voterLid, voterNumber, 1⟩, .arrive (ballotOf [sushi]), .look 0, .merge 0]

def pollStep : PollWorld → PollEvent → Option PollWorld :=
  PollWorld.step optionHashes (.byInsertion _) "s" none

end Sample

instance (table : List LidPnRow) (sessionId : String) (ballots : List Ballot) (b : Ballot) :
    Decidable (Latest table sessionId ballots b) :=
  inferInstanceAs (Decidable (∀ b' ∈ ballots, _))

/-- A voter whose number is learned between two votes is counted twice. -/
theorem poll_counted_twice :
    ∃ w row, runFrom Sample.pollStep (.start [] none) Sample.relearned = some w ∧
      w.rows Sample.group = some row ∧ ¬Counted w.table "s" (tally row.payload) w.ballots := by
  have hrun : ((runFrom Sample.pollStep (.start [] none) Sample.relearned).any fun w =>
      (w.rows Sample.group).any fun row => decide (∃ b ∈ w.ballots,
        Latest w.table "s" w.ballots b ∧
          (votesOf w.table "s" (tally row.payload) (accountOf w.table "s" b.voter)).length = 2)) =
      true := by
    decide +kernel
  obtain ⟨w, hw, hrows⟩ := (Option.any_eq_true _ _).mp hrun
  obtain ⟨row, hrow, hfound⟩ := (Option.any_eq_true _ _).mp hrows
  obtain ⟨b, hb, hlatest, hlength⟩ := of_decide_eq_true hfound
  refine ⟨w, row, hw, hrow, fun hcounted => ?_⟩
  rw [hcounted.exact b hb hlatest] at hlength
  unfold shown at hlength
  split at hlength <;> cases hlength

theorem genuine_pizza :
    GenuineVote Sample.optionHashes (.byInsertion _) [] "s" (Sample.ballotOf [Sample.pizza]).update
      (some ("5511990000001@s.whatsapp.net".toList, List.replicate 32 7))
      (Sample.ballotOf [Sample.pizza]).participant.jid [Sample.pizza] := by
  refine ⟨⟨_, rfl, "64000000000002@lid".toList, by decide +kernel,
    "5511990000001@s.whatsapp.net".toList, by decide +kernel, rfl⟩, ?_⟩
  intro s hs creator voter hashes hopens
  simp only [Sample.ballotOf] at hopens
  split at hopens
  · cases hopens
    rfl
  · cases hopens

/-- One vote, in a poll that is stored before it. -/
theorem poll_tally_voted :
    ∃ w, runFrom Sample.pollStep (.start [] none) Sample.voted = some w ∧
      ∀ row ∈ w.rows Sample.group, Counted w.table "s" (tally row.payload) w.ballots := by
  have hrun : ∃ w, runFrom Sample.pollStep (.start [] none) Sample.voted = some w := ⟨_, rfl⟩
  obtain ⟨w, hw⟩ := hrun
  refine ⟨w, hw, (poll_tally Sample.group hw).2 ?_⟩
  refine And.intro (fun _ => ⟨⟨_, rfl, by decide⟩, nofun⟩) (And.intro trivial (And.intro ?_
    (And.intro trivial (And.intro ?_ trivial))))
  · exact ⟨genuine_pizza, by decide +kernel, by decide +kernel, by decide +kernel,
      Option.some_ne_none _⟩
  · intro c hc stored hstored
    cases hc
    cases hstored
    exact ⟨rfl, by decide +kernel, by decide +kernel, by decide +kernel⟩

end Ruwa.Session.Poll
