/-
  File:      Ruwa/Session/Edits.lean
  Subject:   WHOSE MESSAGE AN EDIT OR A REVOKE TOUCHES (`session.rs`, `process_inbound_message`;
             `store.rs`, `message_mark_edited`, `message_mark_revoked`): the row is looked for by its
             id alone, in whatever chat and of whomever.

  * `healed_fields` -- a message that is restored changes the type and the content of a row, no more;
  * `shown_applied`, `shown_filed` -- when a row shows the same before and after;
  * **`edits_frame_iff`** -- only rows of the author change exactly when every other row shows
    already what it is given;
  * `revoke_of_another` -- a message of ours is revoked from another chat.
-/
import Ruwa.Session.Authority

namespace Ruwa.Session.Inbound

open Ruwa.Library Ruwa.Crypto

/-! ## 1. What a row shows -/

/-- The text of a row and its two marks are the same. -/
def Row.SameShown (row row' : Row) : Prop :=
  row'.bodyText = row.bodyText ∧ row'.edited = row.edited ∧ row'.revoked = row.revoked

/-- The text that is left by the first message that heals the row. -/
def healedBody (ms : List NewMessage) (row : Row) : Option Str :=
  ((ms.find? fun m => m.Heals row).map fun m => m.columns.bodyText).getD row.bodyText

theorem healed_fields (ms : List NewMessage) (row : Row) :
    (healed ms row).bodyText = healedBody ms row ∧ (healed ms row).edited = row.edited ∧
      (healed ms row).revoked = row.revoked ∧ (healed ms row).messageId = row.messageId := by
  rw [healed_eq]
  unfold healedBody
  cases hfind : ms.find? fun m => m.Heals row with
  | none => exact ⟨rfl, rfl, rfl, rfl⟩
  | some m =>
      have hheals : m.Heals row := by simpa using List.find?_some hfind
      simp only [Option.map_some, Option.getD_some]
      rw [NewMessage.heal, if_pos hheals]
      exact ⟨rfl, rfl, rfl, rfl⟩

/-- A row without a message that heals it. -/
theorem healed_sameShown {ms : List NewMessage} {row : Row} :
    row.SameShown (healed ms row) ↔ healedBody ms row = row.bodyText := by
  obtain ⟨hbody, hedited, hrevoked, -⟩ := healed_fields ms row
  unfold Row.SameShown
  rw [hbody, hedited, hrevoked]
  simp

/-! ## 2. An edit or a revoke -/

inductive Change where
  | edit (text : Option Str)
  | revoke

def Change.content (target : Str) : Change → InboundContent
  | edit text => .edited (some target) text
  | revoke => .revoked (some target)

/-- The row shows what the change would leave of one with this text. -/
def Change.Done (row : Row) (body : Option Str) : Change → Prop
  | edit text => row.edited = true ∧ text.or body = row.bodyText
  | revoke => row.revoked = true ∧ row.bodyText = none

theorem applied_iff (rows : List Row) (target : Str) (change : Change) :
    (applyTarget rows (some (change.content target))).1 = true ↔
      ∃ row ∈ rows, row.messageId = target := by
  cases change <;> simp [applyTarget, Change.content, messageMarkEdited, messageMarkRevoked]

/-- It is chat content, which is filed if the message that it names is unknown. -/
theorem change_filed (r : Receiver) (s : Stanza) (target : Str) (change : Change)
    {rows : List Row} (h : ¬∃ row ∈ rows, row.messageId = target) :
    Filed r s (some (change.content target)) rows := by
  refine ⟨Bool.eq_false_iff.mpr fun happlied => h ((applied_iff rows target change).mp happlied), ?_⟩
  cases change <;> rfl

theorem shown_applied (ms : List NewMessage) (target : Str) (change : Change) (row : Row) :
    row.SameShown ((healed ms row).target (some (change.content target))) ↔
      (row.messageId = target → change.Done row (healedBody ms row)) ∧
        (row.messageId ≠ target → healedBody ms row = row.bodyText) := by
  obtain ⟨hbody, hedited, hrevoked, hid⟩ := healed_fields ms row
  by_cases htarget : row.messageId = target
  · cases change with
    | edit text =>
        have hrow : (healed ms row).target (some (Change.content target (.edit text))) =
            { healed ms row with
              bodyText := text.or (healed ms row).bodyText, edited := true } :=
          if_pos (hid.trans htarget)
        rw [hrow]
        unfold Row.SameShown Change.Done
        simp only [hbody, hrevoked, htarget, and_true, forall_const, ne_eq, not_true_eq_false,
          false_imp_iff]
        rw [and_comm, eq_comm (a := true)]
    | revoke =>
        have hrow : (healed ms row).target (some (Change.content target .revoke)) =
            { healed ms row with bodyText := none, revoked := true } :=
          if_pos (hid.trans htarget)
        rw [hrow]
        unfold Row.SameShown Change.Done
        simp only [hedited, htarget, true_and, and_true, forall_const, ne_eq, not_true_eq_false,
          false_imp_iff]
        rw [and_comm, eq_comm (a := true), eq_comm (a := none)]
  · have hrow : (healed ms row).target (some (change.content target)) = healed ms row := by
      cases change <;> exact if_neg fun heq => htarget (hid.symm.trans heq)
    rw [hrow, healed_sameShown]
    simp [htarget]

/-! ## 3. Rows of others -/

section Frame

variable (r : Receiver) (w : World) (s : Stanza) (target : Str) (change : Change)

/-- The chat of the message: where it came from, or where we have sent it ourselves. -/
def chatOf : Str :=
  if isFromMe r w s then ((s.message r).bind deviceSentDestination).getD s.source else s.source

def SameAccount (jid jid' : Str) : Prop :=
  canonicalUserJid (learnedTable r w s) r.sessionId jid =
    canonicalUserJid (learnedTable r w s) r.sessionId jid'

instance (jid jid' : Str) : Decidable (SameAccount r w s jid jid') :=
  inferInstanceAs (Decidable (_ = _))

/-- The row is the message of this id, in the chat and of the sender of the stanza. -/
structure OfAuthor (row : Row) : Prop where
  chat : SameAccount r w s row.chatJid (chatOf r w s)
  id : row.messageId = target
  side : row.fromMe = isFromMe r w s
  sender : isFromMe r w s = false → SameAccount r w s row.senderJid s.sender

/-- **Only the message of the author changes.** -/
def TouchesOnlyItsOwn : Prop :=
  ∀ (i : Nat) (row row' : Row), w.store.rows[i]? = some row →
    (processInboundMessage r w s).store.rows[i]? = some row' →
      row.SameShown row' ∨ OfAuthor r w s target row

/-- The messages that may heal a row: those that are restored, and the stanza itself where it is
    filed because no row has the id. -/
def healers : List NewMessage :=
  if (learnedStore r w s).rows.any fun row => row.messageId = target then resent r w s
  else resent r w s ++
    [(messageRouting r w s).message s (inboundColumns r s (some (change.content target)))]

/-- The row shows already what it is given. -/
structure Spared (row : Row) : Prop where
  named : row.messageId = target → change.Done row (healedBody (resent r w s) row)
  others : row.messageId ≠ target →
    healedBody (healers r w s target change) row = row.bodyText

variable {r w s target change}

theorem mem_learned {i : Nat} {row : Row} (hi : w.store.rows[i]? = some row) :
    healed (resent r w s) row ∈ (learnedStore r w s).rows :=
  List.mem_of_getElem? (foldl_insert_old hi (resent r w s))

/-- **A row shows the same before and after exactly when it is spared.** -/
theorem settled_shown (hsaid : said r w s = some (change.content target)) {i : Nat} {row : Row}
    (hi : w.store.rows[i]? = some row) :
    row.SameShown (settledRow r s (said r w s) (messageRouting r w s) (learnedStore r w s).rows
      (healed (resent r w s) row)) ↔ Spared r w s target change row := by
  have hid := (healed_fields (resent r w s) row).2.2.2
  rw [hsaid]
  by_cases hfound : ∃ row' ∈ (learnedStore r w s).rows, row'.messageId = target
  · have hany : ((learnedStore r w s).rows.any fun row => row.messageId = target) = true := by
      simpa using hfound
    have hhealers : healers r w s target change = resent r w s := if_pos hany
    rw [settledRow, if_pos ((applied_iff _ target change).mpr hfound), shown_applied]
    exact ⟨fun h => ⟨h.1, by rw [hhealers]; exact h.2⟩,
      fun h => ⟨h.named, by rw [← hhealers]; exact h.others⟩⟩
  · have hany : ¬((learnedStore r w s).rows.any fun row => row.messageId = target) = true := by
      simpa using hfound
    have hhealers : healers r w s target change = _ := if_neg hany
    have hother : row.messageId ≠ target := fun heq =>
      hfound ⟨_, mem_learned hi, hid.trans heq⟩
    have hvoted : ∀ row : Row, row.voted (messageRouting r w s).chatJid
        (messageRouting r w s).senderJid (some (change.content target)) = row := by
      intro row
      cases change <;> rfl
    rw [settledRow, if_neg (mt (applied_iff _ target change).mp hfound),
      if_pos (change_filed r s target change hfound), hvoted]
    have hlast : ((messageRouting r w s).message s (inboundColumns r s
        (some (change.content target)))).heal (healed (resent r w s) row) =
          healed (healers r w s target change) row := by
      rw [hhealers]
      unfold healed
      rw [List.foldl_append]
      rfl
    rw [hlast, healed_sameShown]
    exact ⟨fun h => ⟨fun heq => absurd heq hother, fun _ => h⟩, fun h => h.others hother⟩

variable (r w s target change)

/-- **An edit or a revoke touches only its author's message** exactly when every other row shows
    already what it is given. -/
theorem edits_frame_iff (hsaid : said r w s = some (change.content target)) :
    TouchesOnlyItsOwn r w s target ↔
      ∀ row ∈ w.store.rows, OfAuthor r w s target row ∨ Spared r w s target change row := by
  constructor
  · intro h row hrow
    obtain ⟨i, hi⟩ := List.getElem?_of_mem hrow
    rcases h i row _ hi (process_old r w s hi) with hsame | hauthor
    · exact Or.inr ((settled_shown hsaid hi).mp hsame)
    · exact Or.inl hauthor
  · intro h i row row' hi hi'
    obtain rfl := Option.some.inj ((process_old r w s hi).symm.trans hi')
    rcases h row (List.mem_of_getElem? hi) with hauthor | hspared
    · exact Or.inr hauthor
    · exact Or.inl ((settled_shown hsaid hi).mpr hspared)

end Frame

namespace Sample

open ProtoWire

/-- Our message to one contact, and a message of another. -/
def ours : Row :=
  ⟨victim, "OURS".toList, jidOf "5511990000001", true, 1700000000, "text", some "meet at 9".toList,
    some (.obj []), false, false⟩

def theirs : Row :=
  ⟨jidOf stranger, "THEIRS".toList, jidOf stranger, false, 1700000001, "text",
    some "hello".toList, some (.obj []), false, false⟩

def revokeBytes (chat : Str) (id : String) : Bytes :=
  encodeFields [(12, .bytes (encodeFields [(1, .bytes (keyBytes chat id)), (2, .num 0)]))]

def revokeControl (chat : Str) (id : String) : ProtocolMessage :=
  { key := some (messageKey chat id), type := some 0 }

def revoke (chat : Str) (id : String) : Message :=
  { content := { protocol := some (revokeControl chat id) } }

def revoking : Receiver :=
  receiver [(revokeBytes victim "OURS", revoke victim "OURS"),
    (revokeBytes (jidOf stranger) "THEIRS", revoke (jidOf stranger) "THEIRS")] []

def revokeOfOurs : Stanza := command (revokeBytes victim "OURS")

def revokeOfTheirs : Stanza := command (revokeBytes (jidOf stranger) "THEIRS")

end Sample

/-- **A message of ours is revoked from another chat.** -/
theorem revoke_of_another :
    said Sample.revoking (Sample.world [Sample.ours]) Sample.revokeOfOurs =
        some (Change.revoke.content "OURS".toList) ∧
      ¬TouchesOnlyItsOwn Sample.revoking (Sample.world [Sample.ours]) Sample.revokeOfOurs
        "OURS".toList := by
  refine ⟨rfl, fun h => ?_⟩
  have hrow : ((processInboundMessage Sample.revoking (Sample.world [Sample.ours])
      Sample.revokeOfOurs).store.rows[0]?.map (·.revoked)) = some true := by decide +kernel
  obtain ⟨row', hget, hrevoked⟩ := Option.map_eq_some_iff.mp hrow
  rcases h 0 Sample.ours row' rfl hget with hsame | hauthor
  · exact Bool.false_ne_true (hsame.2.2.symm.trans hrevoked)
  · exact absurd hauthor.side (by decide +kernel)

/-- The contact may revoke its own. -/
theorem revoke_of_theirs :
    TouchesOnlyItsOwn Sample.revoking (Sample.world [Sample.theirs]) Sample.revokeOfTheirs
      "THEIRS".toList := by
  refine (edits_frame_iff Sample.revoking (Sample.world [Sample.theirs]) Sample.revokeOfTheirs
    "THEIRS".toList .revoke rfl).mpr fun row hrow => Or.inl ?_
  obtain rfl := List.mem_singleton.mp hrow
  exact ⟨by decide +kernel, rfl, by decide +kernel, fun _ => by decide +kernel⟩

end Ruwa.Session.Inbound
