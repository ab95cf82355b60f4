/-
  File:      Ruwa/Cloud/Attribution.lean
  Subject:   WHOSE MESSAGE IT IS (`cloud.rs`, `parse_inbound_message`).

  A webhook has the contacts of its messages in a list of their own. A message takes its name, and
  what it does not say itself, from the contact with its number or its user id; from the only
  contact there is, if none has.

  * `same_of_perm` -- the order of the list is of no account while one contact matches at most;
  * `same_of_matching` -- nor are the contacts that do not match, unless one stands alone;
  * **`attribution_of_contacts`** -- all of it.
-/
import Ruwa.Cloud.Chat

namespace Ruwa.Cloud

open Ruwa.Library.Text

/-! ## 1. The source -/

/-- An entry of `contacts[]`, with the name of its profile. -/
structure Contact extends RawContact where
  profileName : Option (List Char)

/-- A message object. `content` is all that is kept of it besides. -/
structure MessageObject (κ : Type) extends RawMessage where
  id : Option (List Char)
  timestamp : Option Int
  contextId : Option (List Char)
  content : κ

/-- What the parser makes of it; `sender` is its `from`. -/
structure Attributed (κ : Type) where
  wamid : List Char
  sender : List Char
  fromUserId : Option (List Char)
  timestamp : Int
  pushName : Option (List Char)
  waId : Option (List Char)
  contextId : Option (List Char)
  content : κ
  deriving DecidableEq

section Parser

variable {κ : Type} (now : Int) (m : MessageObject κ)

/-- The contact of the sender. -/
def MessageObject.contact (contacts : List Contact) : Option Contact :=
  (contacts.find? fun c => c.Matches m.toRawMessage).or
    (if contacts.length = 1 then contacts.head? else none)

/-- The message, with its contact. -/
def MessageObject.attribute (contact : Option Contact) : Option (Attributed κ) :=
  (m.id.filter fun s => !s.isEmpty).map fun wamid =>
    let waId := contact.bind fun c => c.waId
    let fromUserId := m.fromUserId.or (contact.bind fun c => c.userId)
    { wamid, sender := senderOf m.fromDigits waId fromUserId, fromUserId,
      timestamp := m.timestamp.getD now,
      pushName := (contact.bind Contact.profileName).filter NotBlank, waId,
      contextId := m.contextId.filter fun s => !s.isEmpty, content := m.content }

def parseInbound (contacts : List Contact) : Option (Attributed κ) :=
  m.attribute now (m.contact contacts)

/-- Its contact, without the name. -/
theorem contact_raw (contacts : List Contact) :
    (m.contact contacts).map Contact.toRawContact =
      contactOf m.toRawMessage (contacts.map Contact.toRawContact) := by
  unfold MessageObject.contact contactOf
  rw [Option.map_or, List.find?_map, List.length_map, List.head?_map, apply_ite (Option.map _)]
  rfl

/-- The sender is the one that the chat is made of. -/
theorem sender_parseInbound {contacts : List Contact} {i : Attributed κ}
    (h : parseInbound now m contacts = some i) :
    i.sender = parseInboundMessage m.toRawMessage (contacts.map Contact.toRawContact) := by
  obtain ⟨wamid, -, rfl⟩ := Option.map_eq_some_iff.mp h
  unfold parseInboundMessage
  rw [← contact_raw, Option.bind_map, Option.bind_map]
  rfl

end Parser

/-! ## 2. The identifiers of a message -/

/-- The message says a number. -/
def RawMessage.HasNumber (m : RawMessage) : Prop := m.fromDigits ≠ []

/-- It says a user id. -/
def RawMessage.HasUserId (m : RawMessage) : Prop := ∃ f, m.fromUserId = some f ∧ trim f ≠ []

def RawContact.SameNumber (c : RawContact) (m : RawMessage) : Prop :=
  ∃ w, c.waId = some w ∧ toDigits w = m.fromDigits

def RawContact.SameUserId (c : RawContact) (m : RawMessage) : Prop :=
  ∃ u f, c.userId = some u ∧ m.fromUserId = some f ∧ trim u = trim f

/-- **The contact has every identifier of the message.** -/
def RawContact.Agrees (c : RawContact) (m : RawMessage) : Prop :=
  (m.HasNumber → c.SameNumber m) ∧ (m.HasUserId → c.SameUserId m)

/-- No two contacts have a number, or a user id, in common, as these are compared. -/
def Distinct (contacts : List Contact) : Prop :=
  contacts.Pairwise fun c d =>
    (∀ w w', c.waId = some w → d.waId = some w' → toDigits w = toDigits w' → toDigits w = []) ∧
    ∀ u u', c.userId = some u → d.userId = some u' → trim u = trim u' → trim u = []

/-- **A contact matches with one identifier of the message.** -/
theorem matches_iff {c : RawContact} {m : RawMessage} :
    c.Matches m = true ↔
      m.HasNumber ∧ c.SameNumber m ∨ m.HasUserId ∧ c.SameUserId m := by
  have hnumber : (c.waId.map fun w => !m.fromDigits.isEmpty && toDigits w == m.fromDigits).getD false
      = true ↔ m.HasNumber ∧ c.SameNumber m := by
    cases hw : c.waId with
    | none => simp [RawContact.SameNumber, hw]
    | some w => simp [RawMessage.HasNumber, RawContact.SameNumber, hw]
  unfold RawContact.Matches
  rw [Bool.or_eq_true, hnumber]
  refine or_congr_right ?_
  cases hu : c.userId with
  | none => simp [RawContact.SameUserId, hu]
  | some u =>
      cases hf : m.fromUserId with
      | none => simp [RawMessage.HasUserId, hf]
      | some f =>
          simp only [NotBlank, RawMessage.HasUserId, RawContact.SameUserId, hu, hf,
            Option.some.injEq, exists_eq_left', Bool.and_eq_true, Bool.not_eq_true',
            List.isEmpty_eq_false_iff, beq_iff_eq, exists_and_left]
          exact ⟨fun h => ⟨h.2 ▸ h.1, h.2⟩, fun h => ⟨h.2 ▸ h.1, h.2⟩⟩

/-- A message that says one of the two can only be matched with that one. -/
theorem agrees_of_one {c : RawContact} {m : RawMessage} (h : ¬(m.HasNumber ∧ m.HasUserId))
    (hmatch : c.Matches m = true) : c.Agrees m := by
  rcases matches_iff.mp hmatch with ⟨hnumber, hsame⟩ | ⟨huser, hsame⟩
  · exact ⟨fun _ => hsame, fun huser => absurd ⟨hnumber, huser⟩ h⟩
  · exact ⟨fun hnumber => absurd ⟨hnumber, huser⟩ h, fun _ => hsame⟩

variable {κ : Type} {m : MessageObject κ} {contacts : List Contact}

/-- One contact at most matches. -/
def OneMatch (m : RawMessage) (contacts : List Contact) : Prop :=
  ∀ c ∈ contacts, ∀ d ∈ contacts, c.Matches m = true → d.Matches m = true → c = d

/-- Two contacts that both have an identifier of the message are one. -/
theorem same_contact (hdistinct : Distinct contacts) {c d : Contact} (hc : c ∈ contacts)
    (hd : d ∈ contacts) {m : RawMessage}
    (h : m.HasNumber ∧ c.SameNumber m ∧ d.SameNumber m ∨
      m.HasUserId ∧ c.SameUserId m ∧ d.SameUserId m) : c = d := by
  by_contra hne
  have hapart : ∀ c d : Contact,
      ((∀ w w', c.waId = some w → d.waId = some w' → toDigits w = toDigits w' → toDigits w = []) ∧
        ∀ u u', c.userId = some u → d.userId = some u' → trim u = trim u' → trim u = []) →
      (m.HasNumber ∧ c.SameNumber m ∧ d.SameNumber m ∨
        m.HasUserId ∧ c.SameUserId m ∧ d.SameUserId m) → False := by
    rintro c d ⟨hwa, huser⟩ (⟨hhas, ⟨w, hw, hsame⟩, w', hw', hsame'⟩ |
      ⟨⟨f, hf, hhas⟩, ⟨u, f', hu, hf', hsame⟩, u', f'', hu', hf'', hsame'⟩)
    · exact hhas (hsame ▸ hwa w w' hw hw' (hsame.trans hsame'.symm))
    · cases hf.symm.trans hf'
      cases hf.symm.trans hf''
      exact hhas (hsame ▸ huser u u' hu hu' (hsame.trans hsame'.symm))
  have hswap : m.HasNumber ∧ d.SameNumber m ∧ c.SameNumber m ∨
      m.HasUserId ∧ d.SameUserId m ∧ c.SameUserId m := by
    rcases h with ⟨hhas, hc, hd⟩ | ⟨hhas, hc, hd⟩
    · exact .inl ⟨hhas, hd, hc⟩
    · exact .inr ⟨hhas, hd, hc⟩
  obtain ⟨l, r, rfl⟩ := List.append_of_mem hc
  obtain ⟨-, hright, hleft⟩ := List.pairwise_append.mp hdistinct
  rcases List.mem_append.mp hd with hd | hd
  · exact hapart d c (hleft d hd c List.mem_cons_self) hswap
  · rcases List.mem_cons.mp hd with rfl | hd
    · exact hne rfl
    · exact hapart c d (List.rel_of_pairwise_cons hright hd) h

/-- **One contact at most matches**, if those that do have every identifier of the message. -/
theorem oneMatch_of_agrees {m : RawMessage} (hdistinct : Distinct contacts)
    (h : ∀ c ∈ contacts, c.Matches m = true → c.Agrees m) : OneMatch m contacts := by
  intro c hc d hd hcm hdm
  have hca := h c hc hcm
  have hda := h d hd hdm
  refine @same_contact contacts hdistinct c d hc hd m ?_
  rcases matches_iff.mp hcm with ⟨hhas, hsame⟩ | ⟨hhas, hsame⟩
  · exact .inl ⟨hhas, hsame, hda.1 hhas⟩
  · exact .inr ⟨hhas, hsame, hda.2 hhas⟩

/-! ## 3. Which contact a message takes -/

theorem match_of_found {c : Contact}
    (h : (contacts.find? fun c => c.Matches m.toRawMessage) = some c) :
    c ∈ contacts ∧ c.Matches m.toRawMessage = true :=
  ⟨List.mem_of_find?_eq_some h, by simpa using List.find?_some h⟩

/-- It matches, or it is the only one. -/
theorem contact_eq_some {c : Contact} (h : m.contact contacts = some c) :
    c ∈ contacts ∧ (c.Matches m.toRawMessage = true ∨ contacts = [c]) := by
  rcases Option.or_eq_some_iff.mp h with hfound | ⟨-, hfallback⟩
  · obtain ⟨hmem, hmatch⟩ := match_of_found hfound
    exact ⟨hmem, .inl hmatch⟩
  · split at hfallback
    · rename_i hone
      obtain ⟨d, rfl⟩ := List.length_eq_one_iff.mp hone
      cases hfallback
      exact ⟨List.mem_singleton_self _, .inr rfl⟩
    · cases hfallback

theorem contact_of_match {c : Contact} (hone : OneMatch m.toRawMessage contacts)
    (hc : c ∈ contacts) (hmatch : c.Matches m.toRawMessage = true) :
    m.contact contacts = some c := by
  have hfound : (contacts.find? fun c => c.Matches m.toRawMessage).isSome = true :=
    List.find?_isSome.mpr ⟨c, hc, hmatch⟩
  obtain ⟨d, hd⟩ := Option.isSome_iff_exists.mp hfound
  obtain ⟨hmem, hdmatch⟩ := match_of_found hd
  rw [MessageObject.contact, hd, Option.some_or, hone d hmem c hc hdmatch hmatch]

/-- **The order of the list is of no account**, while one contact matches at most. -/
theorem same_of_perm {contacts' : List Contact} (hone : OneMatch m.toRawMessage contacts)
    (h : contacts'.Perm contacts) : m.contact contacts' = m.contact contacts := by
  have hone' : OneMatch m.toRawMessage contacts' :=
    fun c hc d hd => hone c (h.subset hc) d (h.subset hd)
  by_cases hmatch : ∃ c ∈ contacts, c.Matches m.toRawMessage = true
  · obtain ⟨c, hc, hcm⟩ := hmatch
    rw [contact_of_match hone hc hcm, contact_of_match hone' (h.symm.subset hc) hcm]
  · have hnone : ∀ l : List Contact, l.Perm contacts →
        (l.find? fun c => c.Matches m.toRawMessage) = none := by
      intro l hl
      rw [List.find?_eq_none]
      exact fun c hc hcm => hmatch ⟨c, hl.subset hc, hcm⟩
    rw [MessageObject.contact, MessageObject.contact, hnone _ h, hnone _ (List.Perm.refl _),
      h.length_eq]
    split
    · rename_i hlength
      obtain ⟨d, rfl⟩ := List.length_eq_one_iff.mp hlength
      rw [List.perm_singleton.mp h]
    · rfl

/-- **The contacts that do not match are of no account**, if one does, or if none stands alone. -/
theorem same_of_matching {contacts' : List Contact}
    (h : contacts'.filter (fun c => c.Matches m.toRawMessage) =
      contacts.filter fun c => c.Matches m.toRawMessage)
    (halone : (∃ c ∈ contacts, c.Matches m.toRawMessage = true) ∨
      contacts.length ≠ 1 ∧ contacts'.length ≠ 1) :
    m.contact contacts' = m.contact contacts := by
  have hfound : (contacts'.find? fun c => c.Matches m.toRawMessage) =
      contacts.find? fun c => c.Matches m.toRawMessage := by
    rw [← List.head?_filter, ← List.head?_filter, h]
  rw [MessageObject.contact, MessageObject.contact, hfound]
  rcases halone with hmatch | ⟨hlength, hlength'⟩
  · obtain ⟨d, hd⟩ := Option.isSome_iff_exists.mp (List.find?_isSome.mpr hmatch)
    rw [hd, Option.some_or, Option.some_or]
  · rw [if_neg hlength, if_neg hlength']

/-- What a message says of its sender itself, it keeps. -/
theorem own_identifiers {now : Int} {i : Attributed κ} (h : parseInbound now m contacts = some i) :
    (m.HasNumber → i.sender = m.fromDigits) ∧
      ∀ u, m.fromUserId = some u → i.fromUserId = some u := by
  obtain ⟨wamid, -, rfl⟩ := Option.map_eq_some_iff.mp h
  refine ⟨fun hnumber => if_pos hnumber, fun u hu => ?_⟩
  dsimp only
  rw [hu, Option.some_or]

/-- **A message is attributed with what it says itself, and with one contact at most**, which
    matches it or stands alone. That contact depends neither on the order of the list nor on those
    that do not match. -/
theorem attribution_of_contacts (now : Int) (m : MessageObject κ) (contacts : List Contact) :
    (∃ contact, parseInbound now m contacts = m.attribute now contact ∧
      ∀ c, contact = some c →
        c ∈ contacts ∧ (c.Matches m.toRawMessage = true ∨ contacts = [c])) ∧
    (∀ i, parseInbound now m contacts = some i →
      (m.HasNumber → i.sender = m.fromDigits) ∧
        ∀ u, m.fromUserId = some u → i.fromUserId = some u) ∧
    (¬(m.HasNumber ∧ m.HasUserId) →
      ∀ c ∈ contacts, c.Matches m.toRawMessage = true → c.Agrees m.toRawMessage) ∧
    (Distinct contacts →
      (∀ c ∈ contacts, c.Matches m.toRawMessage = true → c.Agrees m.toRawMessage) →
        OneMatch m.toRawMessage contacts) ∧
    (OneMatch m.toRawMessage contacts →
      ∀ contacts', contacts'.Perm contacts →
        parseInbound now m contacts' = parseInbound now m contacts) ∧
    ∀ contacts' : List Contact,
      (contacts'.filter fun c => c.Matches m.toRawMessage) =
          (contacts.filter fun c => c.Matches m.toRawMessage) →
        ((∃ c ∈ contacts, c.Matches m.toRawMessage = true) ∨
          contacts.length ≠ 1 ∧ contacts'.length ≠ 1) →
        parseInbound now m contacts' = parseInbound now m contacts := by
  refine ⟨⟨_, rfl, fun c hc => contact_eq_some hc⟩, fun i hi => own_identifiers hi,
    fun h c _ hmatch => agrees_of_one h hmatch, oneMatch_of_agrees, fun hone contacts' h => ?_,
    fun contacts' h halone => ?_⟩
  · exact congrArg (m.attribute now) (same_of_perm hone h)
  · exact congrArg (m.attribute now) (same_of_matching h halone)

namespace Sample

/-- A message of 111. -/
def fromNumber : MessageObject Unit :=
  ⟨⟨some "111".toList, none⟩, some "wamid.1".toList, some 5, none, ()⟩

def bob : Contact := ⟨⟨some "222".toList, none⟩, some "Bob".toList⟩

def carol : Contact := ⟨⟨some "333".toList, none⟩, some "Carol".toList⟩

end Sample

/-- A contact with another number gives a message its name while it stands alone, and no more once
    a second stands beside it. -/
theorem attribution_to_only_contact :
    Distinct [Sample.bob, Sample.carol] ∧
    parseInbound 0 Sample.fromNumber [Sample.bob] =
      some ⟨"wamid.1".toList, "111".toList, none, 5, some "Bob".toList, some "222".toList, none, ()⟩ ∧
    ¬Sample.bob.Agrees Sample.fromNumber.toRawMessage ∧
    Sample.carol.Matches Sample.fromNumber.toRawMessage = false ∧
    parseInbound 0 Sample.fromNumber [Sample.bob, Sample.carol] =
      some ⟨"wamid.1".toList, "111".toList, none, 5, none, none, none, ()⟩ := by
  refine ⟨?_, by decide +kernel, fun h => ?_, by decide +kernel, by decide +kernel⟩
  · refine List.pairwise_pair.mpr ⟨fun w w' hw hw' heq => ?_, fun u u' hu => ?_⟩
    · cases hw
      cases hw'
      exact absurd heq (by decide +kernel)
    · cases hu
  · have hnumber : Sample.fromNumber.toRawMessage.HasNumber := by
      unfold RawMessage.HasNumber
      decide +kernel
    obtain ⟨w, hw, hsame⟩ := h.1 hnumber
    cases hw
    exact absurd hsame (by decide +kernel)

end Ruwa.Cloud
