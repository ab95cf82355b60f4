/-
  File:      Ruwa/Cloud/Chat.lean
  Subject:   WHICH CHAT a cloud contact is filed under (`cloud.rs`, the webhook parsers and
             `check_recipient`; `session.rs` and `api.rs`, the chats made of what they return).

  Four paths make a chat of what a webhook or a caller calls the contact: its messages to us, the
  statuses of our messages to it, their echoes, and our sends. A contact is called by a phone
  number, or by an opaque user id when it hides the number.

  * `usedFor_phone` -- a phone number, however it is written, has one chat on every path;
  * **`chat_identity_iff`** -- contacts have one chat each, and none in common, exactly when all are
    phone numbers.
-/
import Ruwa.Cloud.Ingest
import Mathlib.Data.Bool.AllAny
import Mathlib.Data.List.TakeWhile

namespace Ruwa.Cloud

open Ruwa.Library.Text

/-! ## 1. What the parsers return -/

/-- The fields of an entry of `contacts[]` that name the contact. -/
structure RawContact where
  waId : Option (List Char)
  userId : Option (List Char)

/-- The fields of a message that name its sender. -/
structure RawMessage where
  sender : Option (List Char)
  fromUserId : Option (List Char)

def NotBlank (s : List Char) : Bool := !(trim s).isEmpty

/-- The digits of `from`, if it is there. -/
def RawMessage.fromDigits (m : RawMessage) : List Char :=
  ((m.sender.filter NotBlank).map toDigits).getD []

def RawContact.Matches (c : RawContact) (m : RawMessage) : Bool :=
  (c.waId.map fun w => !m.fromDigits.isEmpty && toDigits w == m.fromDigits).getD false ||
    match c.userId, m.fromUserId with
    | some u, some f => NotBlank u && trim u == trim f
    | _, _ => false

/-- The contact of the sender; one that does not match counts only when it is alone. -/
def contactOf (m : RawMessage) (contacts : List RawContact) : Option RawContact :=
  (contacts.find? fun c => c.Matches m).or (if contacts.length = 1 then contacts.head? else none)

/-- The first that is not empty: the digits of `from`, those of `wa_id`, the user id. -/
def senderOf (fromDigits : List Char) (waId fromUserId : Option (List Char)) : List Char :=
  if fromDigits ≠ [] then fromDigits
  else
    match (waId.map toDigits).filter fun s => !s.isEmpty with
    | some w => w
    | none => fromUserId.getD []

def parseInboundMessage (m : RawMessage) (contacts : List RawContact) : List Char :=
  senderOf m.fromDigits ((contactOf m contacts).bind RawContact.waId)
    (m.fromUserId.or ((contactOf m contacts).bind RawContact.userId))

/-- `kapso_item_to_batch`, with the number of its conversation. -/
def kapsoInboundMessage (m : RawMessage) (phoneNumber : Option (List Char)) : List Char :=
  senderOf ((m.sender.map toDigits).getD [])
    ((phoneNumber.filter fun s => !s.isEmpty).or m.sender)
    (m.fromUserId.filter fun s => !s.isEmpty)

def parseStatus (recipientId recipientUserId : Option (List Char)) : List Char :=
  (((recipientId.map toDigits).filter fun r => !r.isEmpty).or recipientUserId).getD []

/-- The recipient of an outbound Kapso message, for its echo and for a status without an entry. -/
def kapsoRecipient (recipient : Option (List Char)) : List Char :=
  (recipient.map toDigits).getD []

/-- Before a send: the digits of a phone number, or why it is refused. -/
def checkRecipient (recipient : List Char) : Except String (List Char) :=
  let digits := toDigits (trim recipient)
  let checked :=
    if digits = [] then .error "cloud: recipient must contain a phone number" else .ok digits
  match splitOnce '@' (trim recipient) with
  | none => checked
  | some (_, server) =>
      if server = "s.whatsapp.net".toList ∨ server = "c.us".toList then checked
      else
        .error ("cloud sessions can only address phone numbers (got a @" ++ String.ofList server ++
          " id); pass an E.164 number or a <number>@s.whatsapp.net jid")

/-- `cloud_send_record`: the recipient as Graph has it, else as the caller has it. -/
def sendChat (recipient : List Char) (waId : Option (List Char)) : String :=
  toJid (waId.getD recipient)

/-! ## 2. Contacts -/

/-- A contact, by what Meta has for it. -/
inductive PartyId
  | phone (digits : List Char) (hne : digits ≠ []) (hdigits : ∀ c ∈ digits, c.isDigit = true)
  | user (id : List Char) (hletter : ∃ c ∈ id, c.isAlpha = true) (htrim : trim id = id)

def PartyId.IsPhone : PartyId → Prop
  | .phone _ _ _ => True
  | .user _ _ _ => False

/-- A text that stands for the contact: its digits with any punctuation, alone or as the user of a
    JID; or its user id. -/
def PartyId.Written : PartyId → List Char → Prop
  | .phone digits _ _, text =>
      (text.takeWhile (· ≠ '@')).filter Char.isDigit = digits ∧
        ∀ c ∈ text.takeWhile (· ≠ '@'), c.isAlpha = false ∧ c ≠ ':'
  | .user id _ _, text => text = id

/-- The chats that a contact gets. A number stands in the field for numbers, a user id in the field
    for user ids, or where there is one field only. -/
inductive UsedFor : PartyId → String → Prop
  | inbound (p : PartyId) (hp : p.IsPhone) (text : List Char) (m : RawMessage)
      (contacts : List RawContact) (h : p.Written text)
      (hm : m.sender = some text ∨
        m.sender = none ∧ ∃ c, contactOf m contacts = some c ∧ c.waId = some text) :
      UsedFor p (inboundChat (parseInboundMessage m contacts))
  | inboundUser (p : PartyId) (hp : ¬p.IsPhone) (text : List Char) (contacts : List RawContact)
      (h : p.Written text) (hcontacts : ∀ c ∈ contacts, c.waId = none) :
      UsedFor p (inboundChat (parseInboundMessage ⟨none, some text⟩ contacts))
  | kapsoInbound (p : PartyId) (hp : p.IsPhone) (text : List Char) (m : RawMessage)
      (phoneNumber : Option (List Char)) (h : p.Written text)
      (hm : m.sender = some text ∨ m.sender = none ∧ phoneNumber = some text) :
      UsedFor p (inboundChat (kapsoInboundMessage m phoneNumber))
  | kapsoInboundUser (p : PartyId) (hp : ¬p.IsPhone) (text : List Char) (h : p.Written text) :
      UsedFor p (inboundChat (kapsoInboundMessage ⟨none, some text⟩ none))
  | status (p : PartyId) (hp : p.IsPhone) (text : List Char) (userId : Option (List Char))
      (h : p.Written text) : UsedFor p (toJid (parseStatus (some text) userId))
  | statusUser (p : PartyId) (hp : ¬p.IsPhone) (text : List Char) (h : p.Written text) :
      UsedFor p (toJid (parseStatus none (some text)))
  | kapsoStatus (p : PartyId) (text : List Char) (h : p.Written text) :
      UsedFor p (toJid (kapsoRecipient (some text)))
  | echo (p : PartyId) (text : List Char) (h : p.Written text)
      (hne : trim (kapsoRecipient (some text)) ≠ []) :
      UsedFor p (toJid (trim (kapsoRecipient (some text))))
  | send (p : PartyId) (recipient : List Char) (waId : Option (List Char)) (digits : List Char)
      (h : p.Written (waId.getD recipient)) (hok : checkRecipient recipient = .ok digits) :
      UsedFor p (sendChat recipient waId)

/-! ## 3. A phone number has one chat -/

theorem isDigit_ne {c : Char} (h : c.isDigit = true) :
    c ≠ '@' ∧ c ≠ ':' ∧ c.isAlpha = false ∧ isWhitespace c = false := by
  have hrange : 48 ≤ c.toNat ∧ c.toNat ≤ 57 := by
    simpa [Char.isDigit, UInt32.le_iff_toNat_le] using h
  refine ⟨?_, ?_, ?_, ?_⟩
  · rintro rfl
    simp at h
  · rintro rfl
    simp at h
  · have halpha : c.isAlpha =
        (decide (c.val ≥ 'A'.val ∧ c.val ≤ 'Z'.val) || (c.val ≥ 'a'.val && c.val ≤ 'z'.val)) := rfl
    have hval : c.val.toNat = c.toNat := rfl
    simp [halpha, UInt32.le_iff_toNat_le]
    omega
  · simp [isWhitespace]
    omega

/-- Without a device, the digits are all those of the user. -/
theorem toDigits_of_user {text : List Char} (h : ∀ c ∈ text.takeWhile (· ≠ '@'), c ≠ ':') :
    toDigits text = (text.takeWhile (· ≠ '@')).filter Char.isDigit := by
  unfold toDigits
  rw [List.takeWhile_eq_self_iff.mpr fun c hc => by simpa using h c hc]

theorem toDigits_of_digits {digits : List Char} (h : ∀ c ∈ digits, c.isDigit = true) :
    toDigits digits = digits := by
  have huser : digits.takeWhile (· ≠ '@') = digits :=
    List.takeWhile_eq_self_iff.mpr fun c hc => by simpa using (isDigit_ne (h c hc)).1
  rw [toDigits_of_user (by rw [huser]; exact fun c hc => (isDigit_ne (h c hc)).2.1), huser]
  exact List.filter_eq_self.mpr h

theorem trim_of_digits {digits : List Char} (h : ∀ c ∈ digits, c.isDigit = true) :
    trim digits = digits :=
  trim_of_all_not fun c hc => (isDigit_ne (h c hc)).2.2.2

/-- The chat of a phone number. -/
def numberChat (digits : List Char) : String := String.ofList digits ++ "@s.whatsapp.net"

theorem numberChat_inj {s t : List Char} (h : numberChat s = numberChat t) : s = t := by
  have hlist := congrArg String.toList h
  simpa [numberChat] using hlist

variable {digits : List Char} {hne : digits ≠ []} {hdigits : ∀ c ∈ digits, c.isDigit = true}

theorem toDigits_written {text : List Char} (h : (PartyId.phone digits hne hdigits).Written text) :
    toDigits text = digits := by
  rw [toDigits_of_user fun c hc => (h.2 c hc).2]
  exact h.1

theorem toJid_written {text : List Char} (h : (PartyId.phone digits hne hdigits).Written text) :
    toJid text = numberChat digits := by
  rw [toJid, toDigits_written h]
  rfl

theorem toJid_digits (hdigits : ∀ c ∈ digits, c.isDigit = true) :
    toJid digits = numberChat digits := by
  rw [toJid, toDigits_of_digits hdigits]
  rfl

theorem inboundChat_digits (hne : digits ≠ []) (hdigits : ∀ c ∈ digits, c.isDigit = true) :
    inboundChat digits = numberChat digits := by
  have hnumber : ¬(digits.any Char.isAlpha = true ∨ toDigits digits = []) := by
    rw [toDigits_of_digits hdigits]
    refine not_or.mpr ⟨?_, hne⟩
    rw [Bool.not_eq_true, List.any_eq_false]
    intro c hc
    simp [(isDigit_ne (hdigits c hc)).2.2.1]
  unfold inboundChat
  simp only [trim_of_digits hdigits, if_neg hnumber]
  exact toJid_digits hdigits

/-- A number that is written somehow is not blank. -/
theorem notBlank_written {text : List Char} (h : (PartyId.phone digits hne hdigits).Written text) :
    NotBlank text = true := by
  obtain ⟨c, hc⟩ := List.exists_mem_of_ne_nil digits hne
  rw [← h.1] at hc
  obtain ⟨hmem, hdigit⟩ := List.mem_filter.mp hc
  have hkept := mem_trim ((List.takeWhile_sublist _).subset hmem) (isDigit_ne hdigit).2.2.2
  simp [NotBlank, List.ne_nil_of_mem hkept]

theorem senderOf_digits (hne : digits ≠ []) (waId userId : Option (List Char)) :
    senderOf digits waId userId = digits := if_pos hne

/-- Without digits of its own, a sender is called by those of its `wa_id`. -/
theorem senderOf_waId {text : List Char} (h : (PartyId.phone digits hne hdigits).Written text)
    (userId : Option (List Char)) : senderOf [] (some text) userId = digits := by
  simp [senderOf, toDigits_written h, Option.filter, hne]

/-- **A phone number, however it is written, has one chat on every path.** -/
theorem usedFor_phone {chat : String} (h : UsedFor (.phone digits hne hdigits) chat) :
    chat = numberChat digits := by
  cases h with
  | inbound _ text m contacts htext hm =>
      have hsender : parseInboundMessage m contacts = digits := by
        unfold parseInboundMessage RawMessage.fromDigits
        rcases hm with hm | ⟨hm, c, hc, hwa⟩
        · simp [hm, Option.filter, notBlank_written htext, toDigits_written htext,
            senderOf_digits hne]
        · simp [hm, hc, hwa, senderOf_waId htext]
      rw [hsender]
      exact inboundChat_digits hne hdigits
  | inboundUser hp => exact absurd trivial hp
  | kapsoInbound _ text m phoneNumber htext hm =>
      have htext' : text ≠ [] := by
        rintro rfl
        exact hne htext.1.symm
      have hsender : kapsoInboundMessage m phoneNumber = digits := by
        unfold kapsoInboundMessage
        rcases hm with hm | ⟨hm, hphone⟩
        · simp [hm, toDigits_written htext, senderOf_digits hne]
        · simp [hm, hphone, Option.filter, htext', senderOf_waId htext]
      rw [hsender]
      exact inboundChat_digits hne hdigits
  | kapsoInboundUser hp => exact absurd trivial hp
  | status _ text userId htext =>
      simp [parseStatus, toDigits_written htext, Option.filter, hne, toJid_digits hdigits]
  | statusUser hp => exact absurd trivial hp
  | kapsoStatus text htext => simp [kapsoRecipient, toDigits_written htext, toJid_digits hdigits]
  | echo text htext =>
      simp [kapsoRecipient, toDigits_written htext, trim_of_digits hdigits, toJid_digits hdigits]
  | send recipient waId digits htext => exact toJid_written htext

/-! ## 4. A user id has two -/

section User

variable {id : List Char} {hletter : ∃ c ∈ id, c.isAlpha = true} {htrim : trim id = id}

theorem inboundChat_user (hletter : ∃ c ∈ id, c.isAlpha = true) (htrim : trim id = id) :
    inboundChat id = numberChat id := by
  obtain ⟨c, hc, halpha⟩ := hletter
  have hany : id.any Char.isAlpha = true := List.any_eq_true.mpr ⟨c, hc, halpha⟩
  unfold inboundChat
  simp only [htrim, hany, true_or, if_true]
  rfl

/-- Its messages are filed under the id itself. -/
theorem usedFor_user_inbound : UsedFor (.user id hletter htrim) (numberChat id) := by
  rw [← inboundChat_user hletter htrim]
  exact .inboundUser (.user id hletter htrim) (fun h => h) id [] rfl (fun c hc => nomatch hc)

/-- The events of our messages to it are filed under its digits. -/
theorem usedFor_user_status : UsedFor (.user id hletter htrim) (numberChat (toDigits id)) :=
  .statusUser (.user id hletter htrim) (fun h => h) id rfl

theorem toDigits_user (hletter : ∃ c ∈ id, c.isAlpha = true) : toDigits id ≠ id := by
  intro heq
  obtain ⟨c, hc, halpha⟩ := hletter
  rw [← heq] at hc
  rw [(isDigit_ne (List.mem_filter.mp hc).2).2.2.1] at halpha
  cases halpha

end User

/-! ## 5. One chat each, and none in common -/

structure Coherent (parties : List PartyId) : Prop where
  one : ∀ p ∈ parties, ∃ chat, ∀ c, UsedFor p c → c = chat
  apart : ∀ p ∈ parties, ∀ q ∈ parties, ∀ c, UsedFor p c → UsedFor q c → p = q

/-- **Contacts have one chat each, and none in common, exactly when all are phone numbers.** -/
theorem chat_identity_iff (parties : List PartyId) :
    Coherent parties ↔ ∀ p ∈ parties, p.IsPhone := by
  constructor
  · intro h p hp
    cases p with
    | phone digits hne hdigits => trivial
    | user id hletter htrim =>
        obtain ⟨chat, hchat⟩ := h.one _ hp
        have hsame := (hchat _ usedFor_user_status).trans (hchat _ usedFor_user_inbound).symm
        exact absurd (numberChat_inj hsame) (toDigits_user hletter)
  · intro h
    refine ⟨?_, ?_⟩
    · intro p hp
      cases p with
      | phone digits hne hdigits => exact ⟨numberChat digits, fun c hc => usedFor_phone hc⟩
      | user id hletter htrim => exact (h _ hp).elim
    · intro p hp q hq c hpc hqc
      cases p with
      | user id hletter htrim => exact (h _ hp).elim
      | phone digits hne hdigits =>
          cases q with
          | user id hletter htrim => exact (h _ hq).elim
          | phone digits' hne' hdigits' =>
              cases numberChat_inj ((usedFor_phone hpc).symm.trans (usedFor_phone hqc))
              rfl

namespace Sample

def number : PartyId := .phone "1349".toList (by decide) (List.all_iff_forall_prop.mp (by decide))

def hidden : PartyId := .user "US.1349".toList ⟨'U', by decide, by decide⟩ (by decide +kernel)

end Sample

/-- A contact that hides its number writes in a chat of its own, and what becomes of our messages
    to it is told under the number that its id happens to hold. -/
theorem chats_of_user_id :
    UsedFor Sample.hidden "US.1349@s.whatsapp.net" ∧ UsedFor Sample.hidden "1349@s.whatsapp.net" ∧
      UsedFor Sample.number "1349@s.whatsapp.net" := by
  have hid : numberChat "US.1349".toList = "US.1349@s.whatsapp.net" := by decide +kernel
  have hdigits : numberChat (toDigits "US.1349".toList) = "1349@s.whatsapp.net" := by
    decide +kernel
  have hnumber : toJid (kapsoRecipient (some "1349".toList)) = "1349@s.whatsapp.net" := by
    decide +kernel
  refine ⟨hid ▸ usedFor_user_inbound, hdigits ▸ usedFor_user_status, hnumber ▸ ?_⟩
  exact .kapsoStatus Sample.number "1349".toList
    ⟨by decide, List.all_iff_forall_prop.mp (by decide)⟩

end Ruwa.Cloud
