/-
  File:      Ruwa/Session/Wrappers.lean
  Subject:   WHAT IS FOUND IN A WRAPPED MESSAGE (`session.rs`, `classify_e2e_message`,
             `secret_encrypted_from_e2e`, `message_secret_from_e2e`, `poll_update_from_e2e`,
             `quoted_context_from_e2e`, `ad_context_from_e2e`).

  A chat can wrap every message that is written in it, and our own phone wraps what it sends once
  more. Six functions look at a message, each with an idea of its own about the wrappers: one takes
  off four, two look at four layers and thus take off three, two look into two of the wrappers, and
  one into none.

  * `classify_wrapAll`, `within_wrapAll`, `peek_wrapAll` -- what each of these finds in a stack;
  * **`transparent_iff`** -- all six find in the stack what they find in the message itself exactly
    when nothing that the message has is out of the reach of the function that looks for it.
-/
import Ruwa.Session.Content

namespace Ruwa.Session.Inbound

open Ruwa.Library

/-! ## 1. Quotes and ads -/

/-- The context of the content, wherever it hangs. -/
def contextInfoOf (c : Content) : Option ContextInfo :=
  (c.extendedText.bind fun _ => c.extendedTextContext).or <|
    (c.image.bind fun _ => c.imageContext).or <|
      (c.video.bind fun _ => c.videoContext).or <| c.document.bind fun _ => c.documentContext

structure QuotedContext where
  stanzaId : Option Str
  participant : Option Str
  text : Option Str
  deriving DecidableEq

def quotedPreviewText (m : QuotedMessage) : Option Str :=
  [m.conversation,
    m.extendedText.bind id,
    m.image.map fun caption => caption.getD "[image]".toList,
    m.video.map fun caption => caption.getD "[video]".toList,
    if m.document then some "[document]".toList else none,
    if m.audio then some "[audio]".toList else none].findSome? id

def ContextInfo.quoted (ctx : ContextInfo) : Option QuotedContext :=
  if ctx.stanzaId = none ∧ ctx.quotedMessage = none then none
  else some ⟨ctx.stanzaId, ctx.participant, ctx.quotedMessage.bind quotedPreviewText⟩

/-- As it is stored. -/
def QuotedContext.json (q : QuotedContext) : Json :=
  .obj [member "stanza_id" (jsonText q.stanzaId), member "participant" (jsonText q.participant),
    member "text" (jsonText q.text)]

/-- No wrapper is looked into. -/
def quotedContextFromE2e (m : Message) : Option QuotedContext :=
  (contextInfoOf m.content).bind ContextInfo.quoted

structure AdContext where
  sourceId : Option Str
  sourceUrl : Option Str
  sourceType : Option Str
  sourceApp : Option Str
  ctwaClid : Option Str
  adRef : Option Str
  title : Option Str
  body : Option Str
  entryPoint : Option Str
  deriving DecidableEq

def AdContext.isMeaningful (a : AdContext) : Bool :=
  a.sourceId.isSome || a.ctwaClid.isSome || a.sourceUrl.isSome || a.title.isSome

def ContextInfo.ad (ctx : ContextInfo) : Option AdContext :=
  let ad := ctx.externalAdReply.getD {}
  let out : AdContext := ⟨ad.sourceId, ad.sourceUrl, ad.sourceType, ad.sourceApp, ad.ctwaClid,
    ad.ref, ad.title, ad.body, ctx.entryPointConversionSource⟩
  if out.isMeaningful then some out else none

/-- `ad_context_json` -/
def AdContext.json (a : AdContext) : Json :=
  .obj [member "source_id" (jsonText a.sourceId), member "source_url" (jsonText a.sourceUrl),
    member "source_type" (jsonText a.sourceType), member "source_app" (jsonText a.sourceApp),
    member "ctwa_clid" (jsonText a.ctwaClid), member "ref" (jsonText a.adRef),
    member "title" (jsonText a.title), member "body" (jsonText a.body),
    member "entry_point" (jsonText a.entryPoint)]

/-- The first context in four layers decides, even if there is no ad in it. -/
def adContextWithin : Nat → Message → Option AdContext
  | 0, _ => none
  | layers + 1, m =>
      match contextInfoOf m.content with
      | some ctx => ctx.ad
      | none => (m.wrapped.bind id).bind (adContextWithin layers)

def adContextFromE2e (m : Message) : Option AdContext := adContextWithin 4 m

def decodeE2eMessage (m : Message) : InboundContent := classifyE2eMessage m 0

/-! ## 2. Wrappers -/

inductive Wrapper where
  | ephemeral
  | viewOnce
  | viewOnceV2
  | viewOnceV2Extension
  | documentWithCaption
  | edited
  | deviceSent (destinationJid : Option Str)
  deriving DecidableEq

def Wrapper.wrap (m : Message) : Wrapper → Message
  | ephemeral => { ephemeral := some (some m) }
  | viewOnce => { viewOnce := some (some m) }
  | viewOnceV2 => { viewOnceV2 := some (some m) }
  | viewOnceV2Extension => { viewOnceV2Extension := some (some m) }
  | documentWithCaption => { documentWithCaption := some (some m) }
  | edited => { edited := some (some m) }
  | deviceSent destinationJid => { deviceSent := some (destinationJid, some m) }

/-- A stack of wrappers, the outermost first. -/
def wrapAll (ws : List Wrapper) (m : Message) : Message := ws.foldr (fun w m => w.wrap m) m

/-- The wrappers that a vote and a secret are looked for in. -/
def Wrapper.peeked : Wrapper → Bool
  | ephemeral => true
  | deviceSent _ => true
  | _ => false

theorem wrap_content (w : Wrapper) (m : Message) : (w.wrap m).content = {} := by
  cases w with
  | _ => rfl

theorem wrap_wrapped (w : Wrapper) (m : Message) : (w.wrap m).wrapped = some (some m) := by
  cases w with
  | _ => rfl

theorem wrap_inner (w : Wrapper) (m : Message) : (w.wrap m).inner = some m := by
  cases w with
  | _ => rfl

/-- A message in no wrapper has nothing in one either. -/
theorem inner_of_wrapped {m : Message} (h : m.wrapped = none) : m.inner = none := by
  unfold Message.wrapped at h
  unfold Message.inner
  simp only [Option.or_eq_none_iff, Option.map_eq_none_iff] at h
  obtain ⟨h₁, h₂, h₃, h₄, h₅, h₆, h₇⟩ := h
  rw [h₁, h₂, h₃, h₄, h₅, h₆, h₇]
  rfl

/-! ## 3. What is found in a stack -/

section

variable {m : Message} {ws : List Wrapper}

/-- **Classification takes the stack off**, if it is not too high. -/
theorem classify_wrapAll {depth : Nat} (h : depth + ws.length ≤ 4) :
    classifyE2eMessage (wrapAll ws m) depth = classifyE2eMessage m (depth + ws.length) := by
  induction ws generalizing depth with
  | nil => rfl
  | cons w ws ih =>
      rw [List.length_cons] at h ⊢
      calc classifyE2eMessage (wrapAll (w :: ws) m) depth
          = classifyE2eMessage (wrapAll ws m) (depth + 1) :=
            classify_inner (wrap_inner w (wrapAll ws m)) (by omega)
        _ = classifyE2eMessage m (depth + (ws.length + 1)) := by
            rw [ih (by omega), show depth + 1 + ws.length = depth + (ws.length + 1) by omega]

/-- What the first of some layers has. -/
def within {α : Type} (look : Content → Option α) : Nat → Message → Option α
  | 0, _ => none
  | layers + 1, m => (look m.content).or ((m.wrapped.bind id).bind (within look layers))

theorem secretEncryptedWithin_eq (layers : Nat) (m : Message) :
    secretEncryptedWithin layers m = within (·.secretEncrypted) layers m := by
  induction layers generalizing m with
  | zero => rfl
  | succ layers ih =>
      unfold secretEncryptedWithin within
      rw [show secretEncryptedWithin layers = within (·.secretEncrypted) layers from funext ih]
      cases m.content.secretEncrypted with
      | none => rfl
      | some se => rfl

theorem adContextWithin_eq (layers : Nat) (m : Message) :
    adContextWithin layers m = (within contextInfoOf layers m).bind ContextInfo.ad := by
  induction layers generalizing m with
  | zero => rfl
  | succ layers ih =>
      unfold adContextWithin within
      cases contextInfoOf m.content with
      | some ctx => rfl
      | none =>
          dsimp only
          rw [Option.none_or]
          cases m.wrapped.bind id with
          | none => rfl
          | some inner => exact ih inner

variable {α : Type} {look : Content → Option α}

theorem within_bare {layers : Nat} (h : m.wrapped = none) (hpos : 0 < layers) :
    within look layers m = look m.content := by
  obtain ⟨k, rfl⟩ := Nat.exists_eq_succ_of_ne_zero hpos.ne'
  rw [within, h]
  exact Option.or_none

/-- **A look into some layers** finds what is under fewer wrappers. -/
theorem within_wrapAll (hempty : look {} = none) (layers : Nat) :
    within look layers (wrapAll ws m) =
      if ws.length < layers then within look (layers - ws.length) m else none := by
  induction ws generalizing layers with
  | nil =>
      cases layers with
      | zero => rfl
      | succ k => rw [List.length_nil, if_pos k.succ_pos, Nat.sub_zero]; rfl
  | cons w ws ih =>
      cases layers with
      | zero => rw [if_neg (Nat.not_lt_zero _)]; rfl
      | succ k =>
          show within look (k + 1) (w.wrap (wrapAll ws m)) = _
          rw [within, wrap_content, hempty, wrap_wrapped, Option.none_or, List.length_cons,
            Nat.add_sub_add_right]
          simp only [Option.bind_some, id_eq, ih k, Nat.add_lt_add_iff_right]

theorem within_stack (hempty : look {} = none) (h : m.wrapped = none) (layers : Nat) :
    within look layers (wrapAll ws m) = if ws.length < layers then look m.content else none := by
  rw [within_wrapAll hempty]
  by_cases hlt : ws.length < layers
  · rw [if_pos hlt, if_pos hlt, within_bare h (by omega)]
  · rw [if_neg hlt, if_neg hlt]

/-- The stacks that a vote and a secret are found in: none, or a single wrapper of two kinds. -/
def inReach : List Wrapper → Bool
  | [] => true
  | [w] => w.peeked
  | _ => false

/-- **A look into two wrappers** finds what is in one of them. -/
theorem peek_wrapAll (hempty : look {} = none) (h : m.wrapped = none) :
    (wrapAll ws m).peek look = if inReach ws then look m.content else none := by
  unfold Message.wrapped at h
  simp only [Option.or_eq_none_iff, Option.map_eq_none_iff] at h
  obtain ⟨hephemeral, -, -, -, -, -, hdeviceSent⟩ := h
  match ws with
  | [] =>
      show m.peek look = _
      unfold Message.peek
      rw [hdeviceSent, hephemeral]
      simp [inReach]
  | [w] =>
      cases w with
      | ephemeral => simp [wrapAll, Wrapper.wrap, Message.peek, inReach, Wrapper.peeked, hempty]
      | deviceSent dest =>
          simp [wrapAll, Wrapper.wrap, Message.peek, inReach, Wrapper.peeked, hempty]
      | _ => simp [wrapAll, Wrapper.wrap, Message.peek, inReach, Wrapper.peeked, hempty]
  | w :: w' :: ws =>
      have hinner : ((wrapAll (w' :: ws) m).content : Content) = {} := wrap_content w' _
      show (w.wrap (wrapAll (w' :: ws) m)).peek look = _
      unfold Message.peek
      rw [wrap_content, hempty]
      cases w with
      | _ => simp [Wrapper.wrap, inReach, hinner, hempty]

end

/-! ## 4. All six -/

/-- The new content that a message carries as an edit. -/
def Message.newContent (m : Message) : Option Message :=
  match m.content.first with
  | some _ => none
  | none =>
      match m.content.protocol with
      | some pm =>
          if pm.historySyncNotification = none ∧ pm.appStateSyncKeyShare = none then
            m.protocolEdited
          else none
      | none => none

/-- **All six functions** find the same in one message as in another. -/
structure Transparent (wrapped m : Message) : Prop where
  content : decodeE2eMessage wrapped = decodeE2eMessage m
  secretEncrypted : secretEncryptedFromE2e wrapped = secretEncryptedFromE2e m
  messageSecret : messageSecretFromE2e wrapped = messageSecretFromE2e m
  pollUpdate : pollUpdateFromE2e wrapped = pollUpdateFromE2e m
  quotedContext : quotedContextFromE2e wrapped = quotedContextFromE2e m
  adContext : adContextFromE2e wrapped = adContextFromE2e m

/-- There is a quote. -/
def ContextInfo.quotes (ctx : ContextInfo) : Prop :=
  ctx.stanzaId ≠ none ∨ ctx.quotedMessage ≠ none

/-- There is an ad that can be named. -/
def ContextInfo.names (ctx : ContextInfo) : Prop :=
  ∃ ad, ctx.externalAdReply = some ad ∧
    (ad.sourceId ≠ none ∨ ad.ctwaClid ≠ none ∨ ad.sourceUrl ≠ none ∨ ad.title ≠ none)

/-- **The condition**: what the message has is in the reach of the function that looks for it. -/
structure WithinReach (ws : List Wrapper) (m : Message) : Prop where
  edit : ∀ e ∈ m.newContent, (classifyE2eMessage e (ws.length + 1)).editText =
    (classifyE2eMessage e 1).editText
  secretEncrypted : m.content.secretEncrypted = none ∨ ws.length < 4
  messageSecret : (∀ secret ∈ m.content.messageSecret, secret.length ≠ 32) ∨ inReach ws = true
  pollUpdate : m.content.pollUpdate = none ∨ inReach ws = true
  quote : (∀ ctx ∈ contextInfoOf m.content, ¬ctx.quotes) ∨ ws = []
  ad : (∀ ctx ∈ contextInfoOf m.content, ¬ctx.names) ∨ ws.length < 4

theorem quoted_eq_none {ctx : ContextInfo} : ctx.quoted = none ↔ ¬ctx.quotes := by
  unfold ContextInfo.quoted ContextInfo.quotes
  split
  · rename_i h
    simp [h]
  · rename_i h
    have hquotes : ctx.stanzaId ≠ none ∨ ctx.quotedMessage ≠ none :=
      Classical.not_and_iff_not_or_not.mp h
    exact ⟨fun hnone => (nomatch hnone), fun hnot => absurd hquotes hnot⟩

theorem ad_eq_none {ctx : ContextInfo} : ctx.ad = none ↔ ¬ctx.names := by
  unfold ContextInfo.ad ContextInfo.names AdContext.isMeaningful
  cases ctx.externalAdReply with
  | none => simp
  | some ad =>
      simp only [Option.getD_some, Option.some.injEq, exists_eq_left']
      cases ad.sourceId <;> cases ad.ctwaClid <;> cases ad.sourceUrl <;> cases ad.title <;> simp

/-- What is seen only under a condition. -/
theorem ite_none_iff {α : Type} {p : Prop} [Decidable p] {x : Option α} :
    (if p then x else none) = x ↔ x = none ∨ p := by
  by_cases h : p
  · simp [h]
  · simp [h, eq_comm]

section

variable {m : Message} {ws : List Wrapper}

/-- An edit is read through the content that it carries. -/
theorem read_iff {g g' : Message → InboundContent} :
    m.content.read (m.protocolEdited.map g) = m.content.read (m.protocolEdited.map g') ↔
      ∀ e ∈ m.newContent, (g e).editText = (g' e).editText := by
  unfold Content.read Message.newContent
  cases m.content.first with
  | some content => simp
  | none =>
      cases m.content.protocol with
      | none => simp
      | some pm =>
          dsimp only
          unfold ProtocolMessage.read
          cases pm.historySyncNotification with
          | some notif => simp
          | none =>
              cases pm.appStateSyncKeyShare with
              | some keys => simp
              | none =>
                  cases m.protocolEdited with
                  | none => simp
                  | some e => simp

theorem content_iff (hbare : m.wrapped = none) (hfew : ws.length ≤ 4) :
    decodeE2eMessage (wrapAll ws m) = decodeE2eMessage m ↔
      ∀ e ∈ m.newContent, (classifyE2eMessage e (ws.length + 1)).editText =
        (classifyE2eMessage e 1).editText := by
  have hinner := inner_of_wrapped hbare
  unfold decodeE2eMessage
  rw [classify_wrapAll (by omega), classify_bare (Or.inl hinner), classify_bare (Or.inl hinner),
    read_iff, Nat.zero_add]

theorem secretEncrypted_iff (hbare : m.wrapped = none) :
    secretEncryptedFromE2e (wrapAll ws m) = secretEncryptedFromE2e m ↔
      m.content.secretEncrypted = none ∨ ws.length < 4 := by
  unfold secretEncryptedFromE2e
  rw [secretEncryptedWithin_eq, secretEncryptedWithin_eq, within_stack rfl hbare,
    within_bare hbare (by decide), ite_none_iff]

theorem ad_iff (hbare : m.wrapped = none) :
    adContextFromE2e (wrapAll ws m) = adContextFromE2e m ↔
      (∀ ctx ∈ contextInfoOf m.content, ¬ctx.names) ∨ ws.length < 4 := by
  have hnone : (contextInfoOf m.content).bind ContextInfo.ad = none ↔
      ∀ ctx ∈ contextInfoOf m.content, ¬ctx.names := by
    rw [Option.bind_eq_none_iff]
    exact forall₂_congr fun ctx _ => ad_eq_none
  unfold adContextFromE2e
  rw [adContextWithin_eq, adContextWithin_eq, within_stack rfl hbare,
    within_bare hbare (by decide), ← hnone, ← ite_none_iff]
  split
  · rfl
  · rfl

theorem peek_bare {α : Type} {look : Content → Option α} (hempty : look {} = none)
    (hbare : m.wrapped = none) : m.peek look = look m.content := by
  have hnone : (wrapAll [] m).peek look = if inReach [] then look m.content else none :=
    peek_wrapAll hempty hbare
  exact hnone

theorem pollUpdate_iff (hbare : m.wrapped = none) :
    pollUpdateFromE2e (wrapAll ws m) = pollUpdateFromE2e m ↔
      m.content.pollUpdate = none ∨ inReach ws = true := by
  unfold pollUpdateFromE2e
  rw [peek_wrapAll rfl hbare, peek_bare rfl hbare, ite_none_iff]

theorem messageSecret_iff (hbare : m.wrapped = none) :
    messageSecretFromE2e (wrapAll ws m) = messageSecretFromE2e m ↔
      (∀ secret ∈ m.content.messageSecret, secret.length ≠ 32) ∨ inReach ws = true := by
  have hnone : (m.content.messageSecret.filter fun secret => secret.length = 32) = none ↔
      ∀ secret ∈ m.content.messageSecret, secret.length ≠ 32 := by
    simp [Option.filter_eq_none_iff]
  unfold messageSecretFromE2e
  rw [peek_wrapAll rfl hbare, peek_bare rfl hbare, ← hnone, ← ite_none_iff]
  split
  · rfl
  · rfl

theorem quote_iff :
    quotedContextFromE2e (wrapAll ws m) = quotedContextFromE2e m ↔
      (∀ ctx ∈ contextInfoOf m.content, ¬ctx.quotes) ∨ ws = [] := by
  have hnone : (contextInfoOf m.content).bind ContextInfo.quoted = none ↔
      ∀ ctx ∈ contextInfoOf m.content, ¬ctx.quotes := by
    rw [Option.bind_eq_none_iff]
    exact forall₂_congr fun ctx _ => quoted_eq_none
  cases ws with
  | nil => exact ⟨fun _ => Or.inr rfl, fun _ => rfl⟩
  | cons w ws =>
      have htop : quotedContextFromE2e (wrapAll (w :: ws) m) = none := by
        show (contextInfoOf (w.wrap (wrapAll ws m)).content).bind ContextInfo.quoted = none
        rw [wrap_content]
        rfl
      rw [htop, ← hnone, eq_comm]
      exact ⟨Or.inl, fun h => h.resolve_right (List.cons_ne_nil w ws)⟩

/-- **A new content in no wrapper that is no edit itself** is within reach under every stack. -/
theorem newContent_within (h : ∀ e ∈ m.newContent, e.wrapped = none ∧ e.newContent = none)
    (depth : Nat) : ∀ e ∈ m.newContent,
      (classifyE2eMessage e depth).editText = (classifyE2eMessage e 1).editText := by
  intro e he
  obtain ⟨hbare, hplain⟩ := h e he
  have hinner := inner_of_wrapped hbare
  have hsame : classifyE2eMessage e depth = classifyE2eMessage e 1 := by
    rw [classify_bare (Or.inl hinner), classify_bare (Or.inl hinner), read_iff, hplain]
    exact fun e' he' => nomatch he'
  rw [hsame]

end

/-- **Wrappers**, for every message that is none and every stack of at most four. -/
theorem transparent_iff (m : Message) (ws : List Wrapper) (hbare : m.wrapped = none)
    (hfew : ws.length ≤ 4) : Transparent (wrapAll ws m) m ↔ WithinReach ws m := by
  constructor
  · intro h
    exact ⟨(content_iff hbare hfew).mp h.content, (secretEncrypted_iff hbare).mp h.secretEncrypted,
      (messageSecret_iff hbare).mp h.messageSecret, (pollUpdate_iff hbare).mp h.pollUpdate,
      quote_iff.mp h.quotedContext, (ad_iff hbare).mp h.adContext⟩
  · intro h
    exact ⟨(content_iff hbare hfew).mpr h.edit, (secretEncrypted_iff hbare).mpr h.secretEncrypted,
      (messageSecret_iff hbare).mpr h.messageSecret, (pollUpdate_iff hbare).mpr h.pollUpdate,
      quote_iff.mpr h.quote, (ad_iff hbare).mpr h.ad⟩

namespace Sample

def greeting : Message := { content := { conversation := some "hi".toList } }

/-- A reply, a vote, a message with a secret, and an edit that is sealed with one. -/
def reply : Message :=
  { content := {
      extendedText := some (some "yes".toList)
      extendedTextContext := some { stanzaId := some "QUOTED".toList } } }

def vote : Message :=
  { content := {
      pollUpdate := some ⟨some "POLL".toList, ⟨false, none, none, fun _ _ _ => none⟩⟩ } }

def secretive : Message := { content := { messageSecret := some (List.replicate 32 7) } }

def sealedEdit : Message :=
  { content := {
      secretEncrypted := some ⟨some { id := some "TARGET".toList }, some .messageEdit, none, none⟩ } }

/-- The first message after a tap on an ad. -/
def fromAd : Message :=
  { content := {
      extendedText := some (some "hi".toList)
      extendedTextContext := some { externalAdReply := some { sourceId := some "AD".toList } } } }

/-- An edit in a chat whose messages disappear: its new content is in a wrapper too. -/
def wrappedEdit : Message :=
  { content := { protocol := some { key := some { id := some "TARGET".toList }, type := some 14 } }
    protocolEdited := some (Wrapper.ephemeral.wrap greeting) }

/-- Our own phone sends a view-once message with a caption in a chat whose messages disappear. -/
def high : List Wrapper := [.deviceSent none, .ephemeral, .viewOnce, .documentWithCaption]

end Sample

/-- **Each of the six** misses something in a stack of at most four wrappers. -/
theorem wrappers_hide :
    (¬Transparent (wrapAll [.ephemeral] Sample.reply) Sample.reply ∧
      (quotedContextFromE2e Sample.reply).isSome = true ∧
      quotedContextFromE2e (wrapAll [.ephemeral] Sample.reply) = none) ∧
    (¬Transparent (wrapAll [.deviceSent none, .ephemeral] Sample.vote) Sample.vote ∧
      (pollUpdateFromE2e Sample.vote).isSome = true ∧
      (pollUpdateFromE2e (wrapAll [.deviceSent none, .ephemeral] Sample.vote)).isNone = true) ∧
    (¬Transparent (wrapAll [.viewOnce] Sample.secretive) Sample.secretive ∧
      messageSecretFromE2e Sample.secretive = some (List.replicate 32 7) ∧
      messageSecretFromE2e (wrapAll [.viewOnce] Sample.secretive) = none) ∧
    (¬Transparent (wrapAll Sample.high Sample.sealedEdit) Sample.sealedEdit ∧
      (secretEncryptedFromE2e Sample.sealedEdit).isSome = true ∧
      secretEncryptedFromE2e (wrapAll Sample.high Sample.sealedEdit) = none) ∧
    (¬Transparent (wrapAll Sample.high Sample.fromAd) Sample.fromAd ∧
      (adContextFromE2e Sample.fromAd).isSome = true ∧
      adContextFromE2e (wrapAll Sample.high Sample.fromAd) = none) ∧
    (¬Transparent (wrapAll Sample.high Sample.wrappedEdit) Sample.wrappedEdit ∧
      (decodeE2eMessage Sample.wrappedEdit).editText = some "hi".toList ∧
      (decodeE2eMessage (wrapAll Sample.high Sample.wrappedEdit)).editText = none) := by
  have hreply : (quotedContextFromE2e Sample.reply).isSome = true ∧
      quotedContextFromE2e (wrapAll [.ephemeral] Sample.reply) = none := by decide
  have hvote : (pollUpdateFromE2e Sample.vote).isSome = true ∧
      (pollUpdateFromE2e (wrapAll [.deviceSent none, .ephemeral] Sample.vote)).isNone = true :=
    ⟨rfl, rfl⟩
  have hsecret : messageSecretFromE2e Sample.secretive = some (List.replicate 32 7) ∧
      messageSecretFromE2e (wrapAll [.viewOnce] Sample.secretive) = none := by decide
  have hedit : (secretEncryptedFromE2e Sample.sealedEdit).isSome = true ∧
      secretEncryptedFromE2e (wrapAll Sample.high Sample.sealedEdit) = none := by decide
  have had : (adContextFromE2e Sample.fromAd).isSome = true ∧
      adContextFromE2e (wrapAll Sample.high Sample.fromAd) = none := by decide
  have hnew : (decodeE2eMessage Sample.wrappedEdit).editText = some "hi".toList ∧
      (decodeE2eMessage (wrapAll Sample.high Sample.wrappedEdit)).editText = none := ⟨rfl, rfl⟩
  refine ⟨⟨fun h => ?_, hreply⟩, ⟨fun h => ?_, hvote⟩, ⟨fun h => ?_, hsecret⟩, ⟨fun h => ?_, hedit⟩,
    ⟨fun h => ?_, had⟩, fun h => ?_, hnew⟩
  · rw [← h.quotedContext, hreply.2] at hreply
    exact nomatch hreply.1
  · rw [← h.pollUpdate, Option.isNone_iff_eq_none.mp hvote.2] at hvote
    exact nomatch hvote.1
  · exact nomatch hsecret.2.symm.trans (h.messageSecret.trans hsecret.1)
  · rw [← h.secretEncrypted, hedit.2] at hedit
    exact nomatch hedit.1
  · rw [← h.adContext, had.2] at had
    exact nomatch had.1
  · rw [h.content] at hnew
    exact nomatch hnew.1.symm.trans hnew.2

/-- A text in four wrappers. -/
theorem hello_transparent : Transparent (wrapAll Sample.high Sample.greeting) Sample.greeting := by
  have hedit : Sample.greeting.newContent = none := rfl
  have hcontext : contextInfoOf Sample.greeting.content = none := rfl
  have hsecret : Sample.greeting.content.messageSecret = none := rfl
  refine (transparent_iff Sample.greeting Sample.high rfl (by decide)).mpr
    { edit := ?_, secretEncrypted := Or.inl rfl, messageSecret := Or.inl ?_,
      pollUpdate := Or.inl rfl, quote := Or.inl ?_, ad := Or.inl ?_ }
  · rw [hedit]
    exact fun e he => nomatch he
  · rw [hsecret]
    exact fun secret hs => nomatch hs
  · rw [hcontext]
    exact fun ctx hctx => nomatch hctx
  · rw [hcontext]
    exact fun ctx hctx => nomatch hctx

end Ruwa.Session.Inbound
