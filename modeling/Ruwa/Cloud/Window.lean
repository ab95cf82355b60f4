/-
  File:      Ruwa/Cloud/Window.lean
  Subject:   THE CUSTOMER-SERVICE WINDOW of a cloud chat (`cloud.rs`, `parse_webhook`; `session.rs`,
             `cloud_ingest_message`; `store.rs`, `chat_set_cloud_window`).

  A customer may be answered for 24 hours, or until the time the provider reports. A change of a
  webhook holds messages and statuses of any chats; the times stand in the statuses, and one time
  is made of them for all the messages.

  * `Opening` -- what one delivered message says about the window of its chat;
  * `deliver_window` -- one message, when no other chat disturbs it;
  * **`window_of_run`** -- over any run of undisturbed changes, the window of every chat is the
    latest that its messages have opened.
-/
import Ruwa.Cloud.Chat
import Mathlib.Data.Int.Order.Basic

namespace Ruwa.Cloud

open Ruwa.Session

/-! ## 1. The source -/

def csWindowSecs : Int := 24 * 3600

/-- An entry of `statuses[]`; `expiration` is its `conversation.expiration_timestamp`. -/
structure RawStatus where
  id : Option String
  recipientId : Option (List Char)
  recipientUserId : Option (List Char)
  status : Option (List Char)
  error : Option String
  expiration : Option Int

def RawStatus.update (s : RawStatus) : Option StatusUpdate :=
  (s.id.filter fun id => id ≠ "").map fun wamid =>
    let status := (s.status.getD []).map Char.toLower
    { wamid := wamid, recipient := parseStatus s.recipientId s.recipientUserId,
      status := if status = "played".toList then "read" else String.ofList status,
      error := s.error }

/-- The `value` of a change, with its messages as they are parsed. -/
structure ChangeValue where
  phoneNumberId : String
  messages : List InboundMessage
  statuses : List RawStatus

/-- The batch of a change. -/
def ChangeValue.batch (v : ChangeValue) : WebhookBatch :=
  ⟨v.phoneNumberId, v.messages, v.statuses.filterMap RawStatus.update, []⟩

/-- The latest of all the times in the statuses. -/
def ChangeValue.windowExpiresAt (v : ChangeValue) : Option Int :=
  (v.statuses.filterMap RawStatus.expiration).max?

/-- The column `cloud_window_expires_at` of the chats that have a row. -/
abbrev ChatWindows := String → Option (Option Int)

def setChat (chats : ChatWindows) (jid : String) (window : Option Int) : ChatWindows :=
  fun other => if other = jid then some window else chats other

/-- `chat_set_name`, of which only the row itself counts here. -/
def chatSetName (chats : ChatWindows) (jid : String) : ChatWindows :=
  match chats jid with
  | none => setChat chats jid none
  | some _ => chats

/-- `MAX(excluded.cloud_window_expires_at, COALESCE(chats.cloud_window_expires_at, 0))` -/
def chatSetCloudWindow (chats : ChatWindows) (jid : String) (expiresAt : Int) : ChatWindows :=
  match chats jid with
  | none => setChat chats jid (some expiresAt)
  | some stored => setChat chats jid (some (max expiresAt (stored.getD 0)))

/-- A session and its chats. -/
structure CloudChats where
  session : CloudSession
  chats : ChatWindows

/-- `cloud_ingest_message`: a message that is stored opens the window. -/
def deliver (windowExpiresAt : Option Int) (s : CloudChats) (m : InboundMessage) : CloudChats :=
  let chat := inboundChat m.sender
  if messageExists s.session.rows chat m.wamid then s
  else
    match messageInsert s.session.rows ⟨chat, m.wamid, chat, false, m.timestamp, m.content.msgType,
        m.content.bodyText, m.content.payloadJson, none⟩ true with
    | .error _ => s
    | .ok _ =>
        { session := cloudIngestMessage s.session m,
          chats := chatSetCloudWindow (chatSetName s.chats chat) chat
            (windowExpiresAt.getD (m.timestamp + csWindowSecs)) }

/-- `cloud_ingest` of the batch of a change, which has no echoes. -/
def ingestChange (now : Int) (s : CloudChats) (v : ChangeValue) : CloudChats :=
  if s.session.loggedOut then s
  else
    let s := { s with session := { s.session with lastRx := now } }
    let s := v.messages.foldl (deliver v.windowExpiresAt) s
    { s with session := v.batch.statuses.foldl cloudIngestStatus s.session }

/-- The window of a chat. -/
def CloudChats.window (s : CloudChats) (chat : String) : Option Int := (s.chats chat).join

/-- The session is the one the batch makes of it. -/
theorem deliver_session (w : Option Int) (s : CloudChats) (m : InboundMessage) :
    (deliver w s m).session = cloudIngestMessage s.session m := by
  unfold deliver cloudIngestMessage
  dsimp only
  by_cases hstored : messageExists s.session.rows (inboundChat m.sender) m.wamid = true
  · rw [if_pos hstored, if_pos hstored]
  · rw [if_neg hstored, if_neg hstored]
    generalize messageInsert s.session.rows _ _ = inserted
    cases inserted <;> rfl

theorem deliver_all_session (w : Option Int) (s : CloudChats) (ms : List InboundMessage) :
    (ms.foldl (deliver w) s).session = ms.foldl cloudIngestMessage s.session := by
  induction ms generalizing s with
  | nil => rfl
  | cons m ms ih => rw [List.foldl_cons, ih, deliver_session, List.foldl_cons]

theorem ingestChange_session (now : Int) (s : CloudChats) (v : ChangeValue) :
    (ingestChange now s v).session = ingestBatch s.session now v.batch := by
  unfold ingestChange ingestBatch
  split
  · rfl
  · dsimp only
    rw [deliver_all_session]
    rfl

/-! ## 2. What opens a window -/

/-- The chat of the recipient of a status. -/
def RawStatus.chat (s : RawStatus) : String :=
  inboundChat (parseStatus s.recipientId s.recipientUserId)

/-- The latest time reported for the conversation of a chat. -/
def ChangeValue.reported (v : ChangeValue) (chat : String) : Option Int :=
  ((v.statuses.filter fun s => s.chat = chat).filterMap RawStatus.expiration).max?

/-- One message as it is delivered: until when it opens the window of its chat. -/
structure Opening where
  chat : String
  wamid : String
  expiry : Int

def ChangeValue.opening (v : ChangeValue) (m : InboundMessage) : Opening :=
  let chat := inboundChat m.sender
  ⟨chat, m.wamid, (v.reported chat).getD (m.timestamp + csWindowSecs)⟩

@[simp] theorem opening_chat (v : ChangeValue) (m : InboundMessage) :
    (v.opening m).chat = inboundChat m.sender := rfl

def ChangeValue.openings (v : ChangeValue) : List Opening := v.messages.map v.opening

/-- The latest time that was opened for a chat. -/
def latest (openings : List Opening) (chat : String) : Option Int :=
  ((openings.filter fun o => o.chat = chat).map Opening.expiry).max?

/-- **What is reported for another conversation is not later than what is reported for the chats of
    the messages.** -/
def ChangeValue.Undisturbed (v : ChangeValue) : Prop :=
  ∀ m ∈ v.messages, ∀ s ∈ v.statuses, ∀ e, s.expiration = some e →
    ∃ s' ∈ v.statuses, ∃ e', s'.chat = inboundChat m.sender ∧ s'.expiration = some e' ∧ e ≤ e'

/-- A message that comes again opens no longer window than before. -/
def Settled (openings : List Opening) : Prop :=
  openings.Pairwise fun o o' => o.chat = o'.chat → o.wamid = o'.wamid → o'.expiry ≤ o.expiry

theorem max?_concat (xs : List Int) (x : Int) :
    (xs ++ [x]).max? = some ((xs.max?.map (max · x)).getD x) := by
  cases xs with
  | nil => rfl
  | cons a xs =>
      rw [List.cons_append, List.max?_cons', List.max?_cons', List.foldl_append]
      rfl

theorem latest_concat (os : List Opening) (o : Opening) (chat : String) :
    latest (os ++ [o]) chat =
      if o.chat = chat then some (((latest os chat).map (max · o.expiry)).getD o.expiry)
      else latest os chat := by
  unfold latest
  rw [List.filter_append, List.map_append]
  split
  · rename_i h
    rw [List.filter_cons_of_pos (by simp [h]), List.filter_nil]
    exact max?_concat _ _
  · rename_i h
    rw [List.filter_cons_of_neg (by simp [h]), List.filter_nil, List.map_nil, List.append_nil]

/-- An undisturbed change uses for each message what is reported for its own chat. -/
theorem windowExpiresAt_undisturbed {v : ChangeValue} (h : v.Undisturbed) {m : InboundMessage}
    (hm : m ∈ v.messages) : v.windowExpiresAt = v.reported (inboundChat m.sender) := by
  unfold ChangeValue.windowExpiresAt ChangeValue.reported
  cases hmax : (v.statuses.filterMap RawStatus.expiration).max? with
  | none =>
      rw [List.max?_eq_none_iff, List.filterMap_eq_nil_iff] at hmax
      rw [eq_comm, List.max?_eq_none_iff, List.filterMap_eq_nil_iff]
      exact fun s hs => hmax s (List.mem_filter.mp hs).1
  | some e =>
      obtain ⟨hmem, hle⟩ := List.max?_eq_some_iff.mp hmax
      obtain ⟨s, hs, hse⟩ := List.mem_filterMap.mp hmem
      obtain ⟨s', hs', e', hchat, hse', hlate⟩ := h m hm s hs e hse
      have hsame : e' = e :=
        Int.le_antisymm (hle e' (List.mem_filterMap.mpr ⟨s', hs', hse'⟩)) hlate
      subst hsame
      refine (List.max?_eq_some_iff.mpr ⟨?_, fun b hb => hle b ?_⟩).symm
      · exact List.mem_filterMap.mpr ⟨s', List.mem_filter.mpr ⟨hs', decide_eq_true hchat⟩, hse'⟩
      · obtain ⟨s'', hs'', hb'⟩ := List.mem_filterMap.mp hb
        exact List.mem_filterMap.mpr ⟨s'', (List.mem_filter.mp hs'').1, hb'⟩

/-! ## 3. One message -/

/-- The rows and the windows say what was delivered. -/
structure Follows (s : CloudChats) (openings : List Opening) : Prop where
  active : s.session.loggedOut = false
  stored : ∀ chat wamid, messageExists s.session.rows chat wamid = true ↔
    ∃ o ∈ openings, o.chat = chat ∧ o.wamid = wamid
  window : ∀ chat, s.window chat = latest openings chat

theorem latest_of_mem {os : List Opening} {o : Opening} (h : o ∈ os) :
    ∃ e, latest os o.chat = some e ∧ o.expiry ≤ e := by
  have hmem : o.expiry ∈ (os.filter fun o' => o'.chat = o.chat).map Opening.expiry :=
    List.mem_map.mpr ⟨o, List.mem_filter.mpr ⟨h, decide_eq_true rfl⟩, rfl⟩
  cases hmax : latest os o.chat with
  | none => exact absurd (List.max?_eq_none_iff.mp hmax) (List.ne_nil_of_mem hmem)
  | some e => exact ⟨e, rfl, (List.max?_eq_some_iff.mp hmax).2 _ hmem⟩

theorem window_set (s : CloudChats) (session : CloudSession) (jid chat : String) (e : Int) :
    CloudChats.window ⟨session, chatSetCloudWindow (chatSetName s.chats jid) jid e⟩ chat =
      if chat = jid then some (max e ((s.window jid).getD 0)) else s.window chat := by
  unfold CloudChats.window chatSetCloudWindow chatSetName
  cases h : s.chats jid with
  | none =>
      by_cases hjid : chat = jid <;> simp [setChat, hjid]
  | some stored =>
      by_cases hjid : chat = jid <;> simp [setChat, h, hjid]

theorem messageExists_append (rows : List MessageRow) (row : MessageRow) (chat wamid : String) :
    messageExists (rows ++ [row]) chat wamid = true ↔
      messageExists rows chat wamid = true ∨ row.chatJid = chat ∧ row.messageId = wamid := by
  unfold messageExists
  rw [List.any_append, Bool.or_eq_true]
  refine or_congr Iff.rfl ?_
  simp only [List.any_cons, List.any_nil, Bool.or_false, decide_eq_true_eq]
  exact Iff.rfl

/-- The row of a message that is not there yet. -/
theorem cloudIngestMessage_new {s : CloudSession} {m : InboundMessage}
    (h : ¬messageExists s.rows (inboundChat m.sender) m.wamid = true) :
    ∃ row, row.chatJid = inboundChat m.sender ∧ row.messageId = m.wamid ∧
      messageInsert s.rows ⟨inboundChat m.sender, m.wamid, inboundChat m.sender, false, m.timestamp,
        m.content.msgType, m.content.bodyText, m.content.payloadJson, none⟩ true =
          .ok (s.rows ++ [row]) ∧
      (cloudIngestMessage s m).rows = s.rows ++ [row] ∧
      (cloudIngestMessage s m).loggedOut = s.loggedOut := by
  have hinsert : ∀ new : NewMessage, new.chatJid = inboundChat m.sender → new.messageId = m.wamid →
      messageInsert s.rows new true = .ok (s.rows ++ [new.row]) := by
    intro new hchat hid
    exact if_neg (by rw [hchat, hid]; exact h)
  refine ⟨_, rfl, rfl, hinsert _ rfl rfl, ?_, ?_⟩ <;>
    simp only [cloudIngestMessage, if_neg h, hinsert] <;> rfl

/-- **One message**: the window of its chat is the latest so far, and the others stay. -/
theorem deliver_window {s : CloudChats} {os : List Opening} (h : Follows s os) {v : ChangeValue}
    {m : InboundMessage} (hw : v.windowExpiresAt = v.reported (inboundChat m.sender))
    (hold : ∀ o ∈ os, o.chat = (v.opening m).chat → o.wamid = (v.opening m).wamid →
      (v.opening m).expiry ≤ o.expiry)
    (hpos : 0 ≤ (v.opening m).expiry) :
    Follows (deliver v.windowExpiresAt s m) (os ++ [v.opening m]) := by
  have hkeys : ∀ chat wamid, (∃ o ∈ os ++ [v.opening m], o.chat = chat ∧ o.wamid = wamid) ↔
      (∃ o ∈ os, o.chat = chat ∧ o.wamid = wamid) ∨
        inboundChat m.sender = chat ∧ m.wamid = wamid := by
    intro chat wamid
    simp [ChangeValue.opening, or_and_right, exists_or]
  unfold deliver
  dsimp only
  split
  · -- it is there already, and its window is open
    rename_i hexists
    obtain ⟨o, ho, hchat, hwamid⟩ := (h.stored _ _).mp hexists
    refine ⟨h.active, fun chat wamid => ?_, fun chat => ?_⟩
    · rw [hkeys, h.stored]
      constructor
      · exact .inl
      · rintro (hin | ⟨rfl, rfl⟩)
        · exact hin
        · exact ⟨o, ho, hchat, hwamid⟩
    · rw [latest_concat, h.window]
      split
      · rename_i hsame
        obtain ⟨e, he, hle⟩ := latest_of_mem ho
        rw [show o.chat = chat from hchat.trans hsame] at he
        have := hold o ho hchat hwamid
        rw [he, Option.map_some, Option.getD_some, max_eq_left (this.trans hle)]
      · rfl
  · rename_i hnew
    obtain ⟨row, hchat, hwamid, hinsert, hrows, hout⟩ := cloudIngestMessage_new hnew
    rw [hinsert]
    dsimp only
    refine ⟨hout.trans h.active, fun chat wamid => ?_, fun chat => ?_⟩
    · rw [hkeys, ← h.stored, hrows, messageExists_append, hchat, hwamid]
    · have hexpiry : v.windowExpiresAt.getD (m.timestamp + csWindowSecs) = (v.opening m).expiry := by
        rw [hw]
        rfl
      rw [window_set, latest_concat, opening_chat, hexpiry, h.window, h.window]
      by_cases hsame : chat = inboundChat m.sender
      · rw [if_pos hsame, if_pos hsame.symm, hsame]
        cases latest os (inboundChat m.sender) with
        | none => exact congrArg some (max_eq_left hpos)
        | some e => exact congrArg some (max_comm _ _)
      · rw [if_neg hsame, if_neg (Ne.symm hsame)]

/-! ## 4. Changes and runs -/

/-- A status stores no message and opens no window. -/
theorem cloudIngestStatus_keys (s : CloudSession) (u : StatusUpdate) :
    (cloudIngestStatus s u).loggedOut = s.loggedOut ∧
    ∀ chat wamid, messageExists (cloudIngestStatus s u).rows chat wamid =
      messageExists s.rows chat wamid := by
  unfold cloudIngestStatus
  split
  · exact ⟨rfl, fun _ _ => rfl⟩
  · rename_i status _
    dsimp only
    split
    · refine ⟨rfl, fun chat wamid => ?_⟩
      show messageExists (messageAdvanceStatus s.rows u.wamid status).2 chat wamid = _
      simp only [messageExists, messageAdvanceStatus, List.any_map]
      congr 1
      funext row
      simp only [Function.comp_apply, MessageRow.HasKey]
      split <;> rfl
    · exact ⟨rfl, fun _ _ => rfl⟩

theorem follows_statuses {s : CloudChats} {os : List Opening} (h : Follows s os)
    (us : List StatusUpdate) :
    Follows { s with session := us.foldl cloudIngestStatus s.session } os := by
  induction us generalizing s with
  | nil => exact h
  | cons u us ih =>
      obtain ⟨hout, hkeys⟩ := cloudIngestStatus_keys s.session u
      exact ih (s := { s with session := cloudIngestStatus s.session u })
        ⟨hout.trans h.active, fun chat wamid => by rw [hkeys]; exact h.stored chat wamid, h.window⟩

theorem follows_messages {v : ChangeValue} (hv : v.Undisturbed) {ms : List InboundMessage}
    (hms : ∀ m ∈ ms, m ∈ v.messages) {s : CloudChats} {os : List Opening} (h : Follows s os)
    (hsettled : Settled (os ++ ms.map v.opening)) (hpos : ∀ m ∈ ms, 0 ≤ (v.opening m).expiry) :
    Follows (ms.foldl (deliver v.windowExpiresAt) s) (os ++ ms.map v.opening) := by
  induction ms generalizing s os with
  | nil => rwa [List.map_nil, List.append_nil]
  | cons m ms ih =>
      have hold := (List.pairwise_append.mp hsettled).2.2
      have hstep := deliver_window h (windowExpiresAt_undisturbed hv (hms m List.mem_cons_self))
        (fun o ho => hold o ho _ List.mem_cons_self) (hpos m List.mem_cons_self)
      rw [List.map_cons, List.append_cons] at hsettled ⊢
      exact ih (fun m' h' => hms m' (List.mem_cons_of_mem m h')) hstep hsettled
        fun m' h' => hpos m' (List.mem_cons_of_mem m h')

/-- **A change**: what its messages open is added. -/
theorem follows_change (now : Int) {v : ChangeValue} (hv : v.Undisturbed) {s : CloudChats}
    {os : List Opening} (h : Follows s os) (hsettled : Settled (os ++ v.openings))
    (hpos : ∀ o ∈ v.openings, 0 ≤ o.expiry) : Follows (ingestChange now s v) (os ++ v.openings) := by
  unfold ingestChange
  rw [if_neg (by rw [h.active]; exact Bool.false_ne_true)]
  refine follows_statuses (follows_messages hv (fun _ hm => hm) ?_ hsettled fun m hm =>
    hpos _ (List.mem_map_of_mem hm)) _
  exact ⟨h.active, h.stored, h.window⟩

/-- A session that has seen nothing. -/
def newSession (jid : Option String) : CloudChats := ⟨⟨jid, false, [], [], 0⟩, fun _ => none⟩

/-- Changes, each with the time it comes at. -/
def ingestChanges (s : CloudChats) (changes : List (Int × ChangeValue)) : CloudChats :=
  changes.foldl (fun s (now, v) => ingestChange now s v) s

theorem follows_run {changes : List (Int × ChangeValue)}
    (hundisturbed : ∀ c ∈ changes, c.2.Undisturbed) {s : CloudChats} {os : List Opening}
    (h : Follows s os) (hsettled : Settled (os ++ changes.flatMap fun c => c.2.openings))
    (hpos : ∀ o ∈ changes.flatMap (fun c => c.2.openings), 0 ≤ o.expiry) :
    Follows (ingestChanges s changes) (os ++ changes.flatMap fun c => c.2.openings) := by
  induction changes generalizing s os with
  | nil => rwa [List.flatMap_nil, List.append_nil]
  | cons c changes ih =>
      rw [List.flatMap_cons] at hsettled hpos ⊢
      rw [← List.append_assoc] at hsettled ⊢
      refine ih (fun c' h' => hundisturbed c' (List.mem_cons_of_mem c h')) ?_ hsettled
        fun o ho => hpos o (List.mem_append_right _ ho)
      exact follows_change c.1 (hundisturbed c List.mem_cons_self) h
        (List.pairwise_append.mp hsettled).1 fun o ho => hpos o (List.mem_append_left _ ho)

/-- **The window of every chat is the latest that its own messages have opened**, in every state of
    every run of changes, in any order and with any repetition, as long as no change reports a later
    time for another conversation, a message that comes again opens no longer window, and no window
    closes before 1970. -/
theorem window_of_run (jid : Option String) (changes : List (Int × ChangeValue))
    (hundisturbed : ∀ c ∈ changes, c.2.Undisturbed)
    (hsettled : Settled (changes.flatMap fun c => c.2.openings))
    (hpos : ∀ o ∈ changes.flatMap (fun c => c.2.openings), 0 ≤ o.expiry) (chat : String) :
    (ingestChanges (newSession jid) changes).window chat =
      latest (changes.flatMap fun c => c.2.openings) chat := by
  have hnew : Follows (newSession jid) [] :=
    ⟨rfl, fun chat wamid => by simp [newSession, messageExists], fun chat => rfl⟩
  exact (follows_run hundisturbed hnew hsettled hpos).window chat

namespace Sample

def customerSays (sender wamid : String) (timestamp : Int) : InboundMessage :=
  ⟨wamid, sender.toList, timestamp, ⟨"text", some "hi", "{}"⟩⟩

def reports (recipient : String) (expiration : Int) : RawStatus :=
  ⟨some "out", some recipient.toList, none, some "read".toList, none, some expiration⟩

/-- A message from 11, with the status of a message to 22. -/
def mixed : ChangeValue := ⟨"PN", [customerSays "11" "w1" 100], [reports "22" 999999]⟩

/-- The same message, with what is reported for 11 and, earlier, for 22. -/
def own : ChangeValue := ⟨"PN", [customerSays "11" "w1" 100], [reports "22" 5, reports "11" 90000]⟩

end Sample

/-- The window that is reported for one customer is stored for another. -/
theorem window_of_other_chat :
    (ingestChanges (newSession none) [(7, Sample.mixed)]).window "11@s.whatsapp.net" =
      some 999999 ∧
    latest Sample.mixed.openings "11@s.whatsapp.net" = some 86500 := by
  decide +kernel

/-- A change that comes twice. -/
theorem window_of_own_chat :
    (ingestChanges (newSession none) [(7, Sample.own), (8, Sample.own)]).window
      "11@s.whatsapp.net" =
        latest (Sample.own.openings ++ Sample.own.openings) "11@s.whatsapp.net" ∧
    latest (Sample.own.openings ++ Sample.own.openings) "11@s.whatsapp.net" = some 90000 := by
  have hundisturbed : Sample.own.Undisturbed := by
    intro m hm s hs e he
    cases List.mem_singleton.mp hm
    refine ⟨Sample.reports "11" 90000, by simp [Sample.own], 90000, by decide +kernel, rfl, ?_⟩
    simp only [Sample.own, List.mem_cons, List.not_mem_nil, or_false] at hs
    rcases hs with rfl | rfl <;> cases he <;> decide
  refine ⟨window_of_run none [(7, Sample.own), (8, Sample.own)] ?_ ?_ ?_ _, by decide +kernel⟩
  · simpa using hundisturbed
  · exact List.pairwise_cons.mpr ⟨by decide +kernel, List.pairwise_singleton _ _⟩
  · decide +kernel

end Ruwa.Cloud
