/-
  File:      Ruwa/Cloud/Recipient.lean
  Subject:   WHOM A CLOUD SEND REACHES (`cloud.rs`, `check_recipient`, `base_payload`; `session.rs`,
             the chat of an inbound message).

  Graph is given the digits of what the caller has for the recipient. The check before that looks
  at the server of a JID, and whether there is a digit at all.

  * `sound_iff` -- exactly which recipients lose nothing but punctuation;
  * `answers_iff` -- exactly which senders are answered in their own chat, or not at all;
  * **`recipient_iff`** -- both.
-/
import Ruwa.Cloud.Chat

namespace Ruwa.Cloud

open Ruwa.Library Ruwa.Library.Text

/-! ## 1. The source -/

/-- The envelope of an outbound message; `addressee` is its `to`. -/
structure BasePayload where
  messagingProduct : String
  recipientType : String
  addressee : List Char
  contextMessageId : Option (List Char)
  msgType : String
  deriving DecidableEq

def basePayload (recipient : List Char) (msgType : String) (replyTo : Option (List Char)) :
    BasePayload :=
  { messagingProduct := "whatsapp", recipientType := "individual",
    addressee := toDigits recipient,
    contextMessageId := (replyTo.map trim).filter fun s => s ≠ [], msgType := msgType }

/-- A send: the recipient is checked, and addressed as the caller has it. -/
def sendTo (recipient : List Char) (msgType : String) (replyTo : Option (List Char)) :
    Except String BasePayload := do
  let _ ← checkRecipient recipient
  return basePayload recipient msgType replyTo

/-! ## 2. What a text says -/

/-- What stands in a phone number besides its digits. -/
def IsPunctuation (c : Char) : Prop := isWhitespace c = true ∨ c ∈ ['+', '-', '(', ')', '.']

/-- The user of a recipient. -/
def userPart (recipient : List Char) : List Char := (trim recipient).takeWhile (· ≠ '@')

/-- **The user says the digits, with punctuation and a device at most.** -/
def Says (user digits : List Char) : Prop :=
  ∃ number device, user = number ++ device ∧
    (∀ c ∈ number, c.isDigit = true ∨ IsPunctuation c) ∧ number.filter Char.isDigit = digits ∧
    (device = [] ∨ ∃ ds, device = ':' :: ds ∧ ∀ c ∈ ds, c.isDigit = true)

/-- Nothing but punctuation and a device is lost on the way to the digits. -/
def Sound (recipient : List Char) : Prop :=
  ∀ digits, checkRecipient recipient = .ok digits → Says (userPart recipient) digits

/-- The JID has a server that is none for phone numbers. -/
def ForeignServer (recipient : List Char) : Prop :=
  ∃ user server, trim recipient = user ++ '@' :: server ∧ '@' ∉ user ∧
    server ≠ "s.whatsapp.net".toList ∧ server ≠ "c.us".toList

/-- It has no digit before the device. -/
def NoNumber (recipient : List Char) : Prop :=
  ∀ c ∈ (userPart recipient).takeWhile (· ≠ ':'), c.isDigit = false

/-- Up to the first colon there are digits and punctuation, and behind it digits. -/
def PhoneForm (recipient : List Char) : Prop :=
  (∀ c ∈ (userPart recipient).takeWhile (· ≠ ':'), c.isDigit = true ∨ IsPunctuation c) ∧
  ∀ c ∈ ((userPart recipient).dropWhile (· ≠ ':')).tail, c.isDigit = true

theorem toDigits_trim (recipient : List Char) :
    toDigits (trim recipient) =
      ((userPart recipient).takeWhile (· ≠ ':')).filter Char.isDigit := rfl

theorem noNumber_iff {recipient : List Char} :
    NoNumber recipient ↔ toDigits (trim recipient) = [] := by
  rw [toDigits_trim, List.filter_eq_nil_iff]
  simp only [NoNumber, Bool.not_eq_true]

/-- **What the check lets through**: there is a digit, and no foreign server. -/
theorem checkRecipient_ok_iff {recipient digits : List Char} :
    checkRecipient recipient = .ok digits ↔
      digits = toDigits (trim recipient) ∧ ¬NoNumber recipient ∧ ¬ForeignServer recipient := by
  rw [noNumber_iff]
  have hchecked : (if toDigits (trim recipient) = [] then
        .error "cloud: recipient must contain a phone number"
      else .ok (toDigits (trim recipient)) : Except String (List Char)) = .ok digits ↔
      digits = toDigits (trim recipient) ∧ toDigits (trim recipient) ≠ [] := by
    split
    · rename_i h
      simp [h]
    · rename_i h
      exact ⟨fun hok => ⟨(Except.ok.inj hok).symm, h⟩, fun hok => congrArg Except.ok hok.1.symm⟩
  unfold checkRecipient
  dsimp only
  cases hsplit : splitOnce '@' (trim recipient) with
  | none =>
      have hdomestic : ¬ForeignServer recipient := by
        rintro ⟨user, server, heq, -, -⟩
        exact splitOnce_eq_none.mp hsplit (heq ▸ by simp)
      rw [hchecked]
      simp [hdomestic]
  | some found =>
      obtain ⟨user, server⟩ := found
      obtain ⟨heq, huser⟩ := splitOnce_eq_some.mp hsplit
      have hforeign : ForeignServer recipient ↔
          ¬(server = "s.whatsapp.net".toList ∨ server = "c.us".toList) := by
        rw [not_or]
        constructor
        · rintro ⟨user', server', heq', huser', hserver⟩
          have hsame := splitOnce_eq_some.mpr ⟨heq', huser'⟩
          rw [hsplit] at hsame
          cases hsame
          exact hserver
        · exact fun h => ⟨user, server, heq, huser, h⟩
      rw [hforeign, not_not]
      dsimp only
      by_cases h : server = "s.whatsapp.net".toList ∨ server = "c.us".toList
      · rw [if_pos h, hchecked]
        exact and_congr_right fun _ => (and_iff_left h).symm
      · rw [if_neg h]
        refine ⟨fun hok => ?_, fun hok => absurd hok.2.2 h⟩
        cases hok

/-- The number and the device of a user that says some digits. -/
theorem phoneForm_of_said {recipient digits : List Char} (h : Says (userPart recipient) digits) :
    PhoneForm recipient := by
  obtain ⟨number, device, heq, hnumber, -, hdevice⟩ := h
  have hcolon : ∀ c ∈ number, c ≠ ':' := by
    rintro c hc rfl
    rcases hnumber ':' hc with h | h | h
    · exact absurd h (by decide)
    · exact absurd h (by decide)
    · exact absurd h (by decide)
  have hcut : (userPart recipient).takeWhile (· ≠ ':') = number ∧
      (userPart recipient).dropWhile (· ≠ ':') = device := by
    have hall : ∀ c ∈ number, decide (c ≠ ':') = true := fun c hc => decide_eq_true (hcolon c hc)
    rw [heq, List.takeWhile_append_of_pos hall, List.dropWhile_append_of_pos hall]
    rcases hdevice with rfl | ⟨ds, rfl, -⟩ <;> simp
  rw [PhoneForm, hcut.1, hcut.2]
  refine ⟨hnumber, ?_⟩
  rcases hdevice with rfl | ⟨ds, rfl, hds⟩
  · exact fun c hc => absurd hc List.not_mem_nil
  · exact hds

theorem says_of_phoneForm {recipient : List Char} (h : PhoneForm recipient) :
    Says (userPart recipient) (toDigits (trim recipient)) := by
  refine ⟨_, _, (List.takeWhile_append_dropWhile (p := (· ≠ ':'))).symm, h.1, rfl, ?_⟩
  cases hdevice : (userPart recipient).dropWhile (· ≠ ':') with
  | nil => exact .inl rfl
  | cons c ds =>
      have hc : c = ':' := by
        have hhead := List.head?_dropWhile_not (fun c => decide (c ≠ ':')) (userPart recipient)
        rw [hdevice] at hhead
        simpa using hhead
      subst hc
      have hds := h.2
      rw [hdevice] at hds
      exact .inr ⟨ds, rfl, hds⟩

/-- **Exactly which recipients lose nothing**: those that are refused, for their server or for want
    of a digit, and those in the form of a phone number. -/
theorem sound_iff (recipient : List Char) :
    Sound recipient ↔ ForeignServer recipient ∨ NoNumber recipient ∨ PhoneForm recipient := by
  constructor
  · intro h
    by_cases hforeign : ForeignServer recipient
    · exact .inl hforeign
    by_cases hnone : NoNumber recipient
    · exact .inr (.inl hnone)
    · exact .inr (.inr (phoneForm_of_said (h _ (checkRecipient_ok_iff.mpr ⟨rfl, hnone, hforeign⟩))))
  · intro h digits hok
    obtain ⟨rfl, hnumber, hserver⟩ := checkRecipient_ok_iff.mp hok
    rcases h with h | h | h
    · exact absurd h hserver
    · exact absurd h hnumber
    · exact says_of_phoneForm h

/-! ## 3. Whom a reply reaches -/

/-- The party that sent a message: a phone number, or a user id where the number is hidden. -/
inductive Sender
  | number (digits : List Char)
  | user (id : List Char)
  deriving DecidableEq

/-- Who the first of the fields is that is not empty. -/
def partyOf (fromDigits : List Char) (waId fromUserId : Option (List Char)) : Sender :=
  if fromDigits ≠ [] then .number fromDigits
  else
    match (waId.map toDigits).filter fun s => !s.isEmpty with
    | some w => .number w
    | none => .user (fromUserId.getD [])

/-- What the message is filed with. -/
def Sender.text : Sender → List Char
  | .number digits => digits
  | .user id => id

theorem senderOf_eq (fromDigits : List Char) (waId fromUserId : Option (List Char)) :
    senderOf fromDigits waId fromUserId = (partyOf fromDigits waId fromUserId).text := by
  unfold senderOf partyOf
  split
  · rfl
  · cases (waId.map toDigits).filter fun s => !s.isEmpty <;> rfl

/-- A number is one. -/
def Sender.Genuine : Sender → Prop
  | .number digits => digits ≠ [] ∧ ∀ c ∈ digits, c.isDigit = true
  | .user _ => True

theorem toDigits_isDigit (text : List Char) : ∀ c ∈ toDigits text, c.isDigit = true :=
  fun _ hc => (List.mem_filter.mp hc).2

theorem partyOf_genuine (text : List Char) (waId fromUserId : Option (List Char)) :
    (partyOf (toDigits text) waId fromUserId).Genuine := by
  unfold partyOf
  split
  · rename_i h
    exact ⟨h, toDigits_isDigit text⟩
  · split
    · rename_i w hw
      obtain ⟨hw, hne⟩ := Option.filter_eq_some_iff.mp hw
      obtain ⟨waId, -, rfl⟩ := Option.map_eq_some_iff.mp hw
      exact ⟨by simpa using hne, toDigits_isDigit waId⟩
    · trivial

/-- **A send to the chat is refused, or it addresses the party.** -/
def Answers (chat : String) (sender : Sender) : Prop :=
  ∀ msgType replyTo payload,
    sendTo chat.toList msgType replyTo = .ok payload → sender = .number payload.addressee

/-- The party is called by its number; or its id has no digit that could be taken for one, or has an
    `@` and a letter, so that the id itself is the chat and no number. -/
def Sender.Safe : Sender → Prop
  | .number _ => True
  | .user id =>
      toDigits (trim id) = [] ∨ (∃ c ∈ trim id, c.isAlpha = true) ∧ '@' ∈ trim id

theorem sendTo_ok_iff {recipient : List Char} {msgType : String} {replyTo : Option (List Char)}
    {payload : BasePayload} :
    sendTo recipient msgType replyTo = .ok payload ↔
      ¬NoNumber recipient ∧ ¬ForeignServer recipient ∧
        payload = basePayload recipient msgType replyTo := by
  unfold sendTo
  cases h : checkRecipient recipient with
  | error e =>
      refine ⟨fun hok => ?_, fun hok => ?_⟩
      · cases hok
      · rw [checkRecipient_ok_iff.mpr ⟨rfl, hok.1, hok.2.1⟩] at h
        cases h
  | ok digits =>
      obtain ⟨-, hnumber, hserver⟩ := checkRecipient_ok_iff.mp h
      exact ⟨fun hok => ⟨hnumber, hserver, (Except.ok.inj hok).symm⟩,
        fun hok => congrArg Except.ok hok.2.2.symm⟩

/-- What is left of a text starts with no blank. -/
theorem head_trim {cs : List Char} {c : Char} (h : (trim cs).head? = some c) :
    isWhitespace c = false := by
  have hprefix : trim cs <+: cs.dropWhile isWhitespace := by
    have := List.dropWhile_suffix isWhitespace (l := (cs.dropWhile isWhitespace).reverse)
    simpa [trim] using List.reverse_prefix.mpr this
  obtain ⟨rest, hrest⟩ := hprefix
  have hhead := List.head?_dropWhile_not isWhitespace cs
  rw [← hrest, List.head?_append, h] at hhead
  exact hhead

theorem toList_numberChat (user : List Char) :
    (numberChat user).toList = user ++ "@s.whatsapp.net".toList := by
  simp [numberChat]

/-- A chat has no blanks around it. -/
theorem trim_numberChat (id : List Char) :
    trim (numberChat (trim id)).toList = (numberChat (trim id)).toList := by
  rw [toList_numberChat]
  have hfront : (trim id ++ "@s.whatsapp.net".toList).dropWhile isWhitespace =
      trim id ++ "@s.whatsapp.net".toList := by
    cases hid : trim id with
    | nil => exact List.dropWhile_cons_of_neg (by decide)
    | cons c cs =>
        refine List.dropWhile_cons_of_neg ?_
        rw [@head_trim id c (by rw [hid]; rfl)]
        exact Bool.false_ne_true
  have hback : (trim id ++ "@s.whatsapp.net".toList).reverse.dropWhile isWhitespace =
      (trim id ++ "@s.whatsapp.net".toList).reverse := by
    rw [List.reverse_append]
    exact List.dropWhile_cons_of_neg (by decide)
  rw [trim, hfront, hback, List.reverse_reverse]

theorem user_of_chat (user : List Char) :
    (user ++ "@s.whatsapp.net".toList).takeWhile (· ≠ '@') = user.takeWhile (· ≠ '@') := by
  induction user with
  | nil => rfl
  | cons c user ih =>
      by_cases hc : c = '@'
      · simp [hc]
      · simp only [List.cons_append, List.takeWhile_cons, hc, ne_eq, not_false_eq_true, decide_true,
          if_true, ih]

theorem toDigits_chat (user : List Char) :
    toDigits (numberChat user).toList = toDigits user := by
  rw [toList_numberChat, toDigits, user_of_chat]
  rfl

theorem noNumber_chat (id : List Char) :
    NoNumber (numberChat (trim id)).toList ↔ toDigits (trim id) = [] := by
  rw [noNumber_iff, trim_numberChat, toDigits_chat]

/-- The server of a chat is that of phone numbers, unless the user has an `@` itself. -/
theorem foreignServer_chat (id : List Char) :
    ForeignServer (numberChat (trim id)).toList ↔ '@' ∈ trim id := by
  unfold ForeignServer
  rw [trim_numberChat, toList_numberChat]
  constructor
  · rintro ⟨user, server, heq, huser, hserver, -⟩
    by_contra hno
    have hown : trim id ++ "@s.whatsapp.net".toList = trim id ++ '@' :: "s.whatsapp.net".toList := rfl
    have hsame := splitOnce_eq_some.mpr ⟨hown, hno⟩
    rw [splitOnce_eq_some.mpr ⟨heq, huser⟩] at hsame
    exact hserver (Prod.mk.inj (Option.some.inj hsame)).2
  · intro hmem
    cases hsplit : splitOnce '@' (trim id) with
    | none => exact absurd hmem (splitOnce_eq_none.mp hsplit)
    | some found =>
        obtain ⟨user, rest⟩ := found
        obtain ⟨heq, huser⟩ := splitOnce_eq_some.mp hsplit
        -- The server is what follows the first `@`, and has the second in it.
        have hat : '@' ∈ rest ++ "@s.whatsapp.net".toList :=
          List.mem_append_right rest (by decide)
        refine ⟨user, rest ++ "@s.whatsapp.net".toList, ?_, huser, ?_, ?_⟩
        · rw [heq, List.append_assoc, List.cons_append]
        · intro hserver
          exact absurd (hserver ▸ hat) (by decide)
        · intro hserver
          exact absurd (hserver ▸ hat) (by decide)

/-- **A send to the chat of a user**, whoever that is. -/
theorem sendTo_chat {id : List Char} {msgType : String} {replyTo : Option (List Char)}
    {payload : BasePayload} :
    sendTo (numberChat (trim id)).toList msgType replyTo = .ok payload ↔
      toDigits (trim id) ≠ [] ∧ '@' ∉ trim id ∧
        payload = basePayload (numberChat (trim id)).toList msgType replyTo := by
  rw [sendTo_ok_iff, noNumber_chat, foreignServer_chat]

/-- A user whose id itself is the chat is never addressed, so that sends there are to be refused. -/
theorem answers_opaque {id : List Char}
    (h : (trim id).any Char.isAlpha = true ∨ toDigits (trim id) = []) :
    Answers (inboundChat id) (.user id) ↔ (Sender.user id).Safe := by
  have hchat : inboundChat id = numberChat (trim id) := if_pos h
  have hrefused : Answers (inboundChat id) (.user id) ↔
      toDigits (trim id) = [] ∨ '@' ∈ trim id := by
    rw [hchat]
    constructor
    · intro hanswers
      by_contra hno
      obtain ⟨hne, hat⟩ := not_or.mp hno
      have hsame := hanswers "text" none _ (sendTo_chat.mpr ⟨hne, hat, rfl⟩)
      cases hsame
    · intro hsafe msgType replyTo payload hsend
      obtain ⟨hne, hat, -⟩ := sendTo_chat.mp hsend
      exact absurd hsafe (not_or.mpr ⟨hne, hat⟩)
  rw [hrefused, Sender.Safe]
  constructor
  · rintro (hnone | hat)
    · exact .inl hnone
    · rcases h with h | h
      · exact .inr ⟨List.any_eq_true.mp h, hat⟩
      · exact .inl h
  · rintro (hnone | ⟨-, hat⟩)
    · exact .inl hnone
    · exact .inr hat

/-- **Exactly which parties are answered in their own chat, or not at all.** -/
theorem answers_iff {sender : Sender} (h : sender.Genuine) :
    Answers (inboundChat sender.text) sender ↔ sender.Safe := by
  cases sender with
  | number digits =>
      refine ⟨fun _ => trivial, fun _ msgType replyTo payload hsend => ?_⟩
      rw [show (Sender.number digits).text = digits from rfl, inboundChat_digits h.1 h.2,
        ← trim_of_digits h.2, sendTo_chat] at hsend
      rw [hsend.2.2, basePayload]
      dsimp only
      rw [toDigits_chat, trim_of_digits h.2, toDigits_of_digits h.2]
  | user id =>
      by_cases hopaque : (trim id).any Char.isAlpha = true ∨ toDigits (trim id) = []
      · exact answers_opaque hopaque
      · -- An id of digits is taken for the number.
        have hchat : inboundChat id = numberChat (trim (toDigits (trim id))) := by
          rw [trim_of_digits (toDigits_isDigit (trim id))]
          exact if_neg hopaque
        have hdigits := toDigits_isDigit (trim id)
        have hne : toDigits (trim id) ≠ [] := (not_or.mp hopaque).2
        refine ⟨fun h => ?_, fun h => ?_⟩
        · have hat : '@' ∉ toDigits (trim id) := fun hmem => (isDigit_ne (hdigits _ hmem)).1 rfl
          have hsend : sendTo (inboundChat id).toList "text" none =
              .ok (basePayload (inboundChat id).toList "text" none) := by
            rw [hchat, sendTo_chat, trim_of_digits hdigits, toDigits_of_digits hdigits]
            exact ⟨hne, hat, rfl⟩
          have hsame := h "text" none _ hsend
          cases hsame
        · rcases h with h | ⟨⟨c, hc, halpha⟩, -⟩
          · exact absurd h hne
          · exact absurd (.inl (List.any_eq_true.mpr ⟨c, hc, halpha⟩)) hopaque

/-- Who the sender of a message is, for Meta's webhook. -/
def RawMessage.party (m : RawMessage) (contacts : List RawContact) : Sender :=
  partyOf m.fromDigits ((contactOf m contacts).bind RawContact.waId)
    (m.fromUserId.or ((contactOf m contacts).bind RawContact.userId))

/-- The same for Kapso's. -/
def RawMessage.kapsoParty (m : RawMessage) (phoneNumber : Option (List Char)) : Sender :=
  partyOf ((m.sender.map toDigits).getD []) ((phoneNumber.filter fun s => !s.isEmpty).or m.sender)
    (m.fromUserId.filter fun s => !s.isEmpty)

theorem getD_toDigits (text : Option (List Char)) :
    (text.map toDigits).getD [] = toDigits (text.getD []) := by
  cases text <;> rfl

theorem party_genuine (m : RawMessage) (contacts : List RawContact) :
    (m.party contacts).Genuine := by
  rw [RawMessage.party, RawMessage.fromDigits, getD_toDigits]
  exact partyOf_genuine _ _ _

theorem kapsoParty_genuine (m : RawMessage) (phoneNumber : Option (List Char)) :
    (m.kapsoParty phoneNumber).Genuine := by
  rw [RawMessage.kapsoParty, getD_toDigits]
  exact partyOf_genuine _ _ _

/-- **Exactly which recipients are addressed as they are written, and exactly which senders are
    answered in their own chat, or not at all.** -/
theorem recipient_iff (recipient : List Char) (m : RawMessage) (contacts : List RawContact)
    (phoneNumber : Option (List Char)) :
    (Sound recipient ↔ ForeignServer recipient ∨ NoNumber recipient ∨ PhoneForm recipient) ∧
    (Answers (inboundChat (parseInboundMessage m contacts)) (m.party contacts) ↔
      (m.party contacts).Safe) ∧
    (Answers (inboundChat (kapsoInboundMessage m phoneNumber)) (m.kapsoParty phoneNumber) ↔
      (m.kapsoParty phoneNumber).Safe) := by
  refine ⟨sound_iff recipient, ?_, ?_⟩
  · rw [parseInboundMessage, senderOf_eq]
    exact answers_iff (party_genuine m contacts)
  · rw [kapsoInboundMessage, senderOf_eq]
    exact answers_iff (kapsoParty_genuine m phoneNumber)

namespace Sample

/-- A message of a user that hides the number. -/
def fromHidden : RawMessage := ⟨none, some "US.1349".toList⟩

end Sample

/-- A letter in front of a number is dropped; and the answer to a user that hides the number goes to
    the number that its id happens to hold. -/
theorem recipient_of_user_id :
    (checkRecipient "abc123".toList = .ok "123".toList ∧ ¬Sound "abc123".toList) ∧
    inboundChat (parseInboundMessage Sample.fromHidden []) = "US.1349@s.whatsapp.net" ∧
    sendTo "US.1349@s.whatsapp.net".toList "text" none =
      .ok (basePayload "1349".toList "text" none) ∧
    Sample.fromHidden.party [] = .user "US.1349".toList ∧
    ¬Answers "US.1349@s.whatsapp.net" (Sample.fromHidden.party []) := by
  have hchecked : checkRecipient "abc123".toList = .ok "123".toList := by decide +kernel
  have hsend : sendTo "US.1349@s.whatsapp.net".toList "text" none =
      .ok (basePayload "1349".toList "text" none) := by decide +kernel
  have hparty : Sample.fromHidden.party [] = .user "US.1349".toList := by decide +kernel
  refine ⟨⟨hchecked, fun h => ?_⟩, by decide +kernel, hsend, hparty, fun h => ?_⟩
  · have hform := (phoneForm_of_said (h _ hchecked)).1 'a' (by decide +kernel)
    exact absurd hform (by unfold IsPunctuation; decide +kernel)
  · have hsame := h "text" none _ hsend
    rw [hparty] at hsame
    cases hsame

end Ruwa.Cloud
