/-
  File:      Ruwa/Session/Authority.lean
  Subject:   WHAT A STRANGER'S MESSAGE MAY DO (`session.rs`, `process_inbound_message`): nothing but
             leave rows of its own sender in its own chat.

  Keys, history, messages sent again and a destination are for our own devices; that a message comes
  from one of them is computed, and then asked for nowhere.

  * `edit_eq`, `revoke_eq`, `voted_heal_eq` -- when a row is left as it was;
  * **`stranger_harmless_iff`** -- a stranger's message is harmless exactly when it holds none of
    these, and changes no row of another;
  * `stranger_commands` -- a stranger's key, resend, destination and history are accepted.
-/
import Ruwa.Session.Inbound

namespace Ruwa.Session.Inbound

open Ruwa.Library Ruwa.Crypto

/-! ## 1. Rows that stay as they were -/

theorem edit_eq {target : Str} {text : Option Str} {row : Row} :
    row.edit target text = row ↔
      (row.messageId = target → row.edited = true ∧ text.or row.bodyText = row.bodyText) := by
  unfold Row.edit
  split
  · next hid =>
      rw [Row.ext_iff]
      simp only [hid, true_and, forall_const]
      tauto
  · next hid => simp [hid]

theorem revoke_eq {target : Str} {row : Row} :
    row.revoke target = row ↔
      (row.messageId = target → row.revoked = true ∧ row.bodyText = none) := by
  unfold Row.revoke
  split
  · next hid =>
      rw [Row.ext_iff]
      simp only [hid, true_and, forall_const]
      tauto
  · next hid => simp [hid]

/-- A row that an edit or a revoke changes is one that it names. -/
theorem target_ne {content : Option InboundContent} {row : Row} (h : row.target content ≠ row) :
    (∃ target text, content = some (.edited (some target) text) ∧ row.messageId = target ∧
        ¬(row.edited = true ∧ text.or row.bodyText = row.bodyText)) ∨
      ∃ target, content = some (.revoked (some target)) ∧ row.messageId = target ∧
        ¬(row.revoked = true ∧ row.bodyText = none) := by
  revert h
  unfold Row.target
  split
  · next target text =>
      intro h
      have hchanged := mt edit_eq.mpr h
      push Not at hchanged
      exact Or.inl ⟨target, text, rfl, hchanged.1, fun hsame => hchanged.2 hsame.1 hsame.2⟩
  · next target =>
      intro h
      have hchanged := mt revoke_eq.mpr h
      push Not at hchanged
      exact Or.inr ⟨target, rfl, hchanged.1, fun hsame => hchanged.2 hsame.1 hsame.2⟩
  · exact fun h => absurd rfl h

@[simp] theorem voted_msgType (chat voter : Str) (content : Option InboundContent) (row : Row) :
    (row.voted chat voter content).msgType = row.msgType := by
  unfold Row.voted
  split
  · unfold Row.tally
    split <;> rfl
  · rfl

/-- A message that heals a row changes its type, whatever a vote does to it then. -/
theorem voted_heal_eq {m : NewMessage} {chat voter : Str} {content : Option InboundContent}
    {row : Row} : (m.heal row).voted chat voter content = row ↔
      ¬m.Heals row ∧ row.voted chat voter content = row := by
  by_cases hheals : m.Heals row
  · refine ⟨fun h => absurd (congrArg Row.msgType h) ?_, fun h => absurd hheals h.1⟩
    rw [voted_msgType, NewMessage.heal, if_pos hheals, hheals.2.1]
    exact hheals.2.2
  · rw [NewMessage.heal, if_neg hheals]
    simp [hheals]

/-- The chat, the sender and the side of a row never change. -/
theorem settledRow_key (r : Receiver) (s : Stanza) (content : Option InboundContent)
    (route : Routing) (rows : List Row) (row : Row) :
    (settledRow r s content route rows row).fromMe = row.fromMe ∧
      (settledRow r s content route rows row).chatJid = row.chatJid ∧
      (settledRow r s content route rows row).senderJid = row.senderJid ∧
      (settledRow r s content route rows row).messageId = row.messageId := by
  unfold settledRow
  split
  · unfold Row.target
    split
    · unfold Row.edit
      split <;> exact ⟨rfl, rfl, rfl, rfl⟩
    · unfold Row.revoke
      split <;> exact ⟨rfl, rfl, rfl, rfl⟩
    · exact ⟨rfl, rfl, rfl, rfl⟩
  · split
    · unfold Row.voted NewMessage.heal
      split
      · unfold Row.tally
        split <;> split <;> exact ⟨rfl, rfl, rfl, rfl⟩
      · split <;> exact ⟨rfl, rfl, rfl, rfl⟩
    · exact ⟨rfl, rfl, rfl, rfl⟩

/-! ## 2. The rows of a sender -/

/-- The row of another's message in a chat. -/
def Row.BelongsTo (row : Row) (chat sender : Str) : Prop :=
  row.fromMe = false ∧ row.chatJid = chat ∧ row.senderJid = sender

/-- A row that was inserted, or changed in its place. -/
def Touched (rows rows' : List Row) (row' : Row) : Prop :=
  ∃ i : Nat, rows'[i]? = some row' ∧ rows[i]? ≠ some row'

section Stranger

variable (r : Receiver) (w : World) (s : Stanza)

/-- The row is of the sender of the message, in the chat that it came from. -/
def OwnRow (row : Row) : Prop :=
  row.BelongsTo (canonicalUserJid (learnedTable r w s) r.sessionId s.source)
    (canonicalUserJid (learnedTable r w s) r.sessionId s.sender)

/-- No key, no history, no message restored, and no row but of the sender. -/
structure Harmless : Prop where
  keys : (processInboundMessage r w s).store.appStateKeys = w.store.appStateKeys
  ingests : (processInboundMessage r w s).ingests = w.ingests
  restored : (processInboundMessage r w s).restored = w.restored
  rows : ∀ row', Touched w.store.rows (processInboundMessage r w s).store.rows row' →
    OwnRow r w s row'

/-- The destination that the message claims to have been sent to. -/
def claimedDestination : Option Str := (s.message r).bind deviceSentDestination

/-- The message is filed: it has no destination, the row that it heals is of its sender, and so is
    the poll that it votes in. -/
structure FiledAsOwn : Prop where
  inserted : (∀ row ∈ w.store.rows, ¬row.HasKey (messageRouting r w s).chatJid s.id) →
    claimedDestination r s = none
  heals : ∀ row ∈ w.store.rows,
    ((messageRouting r w s).message s (inboundColumns r s (said r w s))).Heals row → OwnRow r w s row
  votes : ∀ row ∈ w.store.rows,
    row.voted (messageRouting r w s).chatJid (messageRouting r w s).senderJid (said r w s) = row ∨
      OwnRow r w s row

/-- The message holds nothing that is for our own devices, and names no row of another. -/
structure Unprivileged : Prop where
  resent : resent r w s = []
  keys : sharedKeys (said r w s) = []
  history : begun r (learnedStore r w s) (said r w s) = []
  edits : ∀ target text, said r w s = some (.edited (some target) text) →
    ∀ row ∈ w.store.rows, row.messageId = target →
      OwnRow r w s row ∨ row.edited = true ∧ text.or row.bodyText = row.bodyText
  revokes : ∀ target, said r w s = some (.revoked (some target)) →
    ∀ row ∈ w.store.rows, row.messageId = target →
      OwnRow r w s row ∨ row.revoked = true ∧ row.bodyText = none
  filed : Filed r s (said r w s) w.store.rows → FiledAsOwn r w s

variable {r w s}

theorem ownRow_settled {rows : List Row} {row : Row} {route : Routing}
    {content : Option InboundContent} :
    OwnRow r w s (settledRow r s content route rows row) ↔ OwnRow r w s row := by
  obtain ⟨hme, hchat, hsender, -⟩ := settledRow_key r s content route rows row
  unfold OwnRow Row.BelongsTo
  rw [hme, hchat, hsender]

theorem learnedStore_rows (h : resent r w s = []) : (learnedStore r w s).rows = w.store.rows := by
  unfold learnedStore
  rw [h]
  rfl

/-- With nothing restored, a row that was there is only settled. -/
theorem settled_of_mem (h : resent r w s = []) {row : Row} (hrow : row ∈ w.store.rows) :
    ∃ i : Nat, w.store.rows[i]? = some row ∧ (processInboundMessage r w s).store.rows[i]? = some
      (settledRow r s (said r w s) (messageRouting r w s) w.store.rows row) := by
  obtain ⟨i, hi⟩ := List.getElem?_of_mem hrow
  have hold := process_old r w s hi
  rw [h, learnedStore_rows h] at hold
  exact ⟨i, hi, hold⟩

/-- A row that a harmless message changes is of its sender. -/
theorem Harmless.own (hharm : Harmless r w s) (h : resent r w s = []) {row : Row}
    (hrow : row ∈ w.store.rows)
    (hchanged : settledRow r s (said r w s) (messageRouting r w s) w.store.rows row ≠ row) :
    OwnRow r w s row := by
  obtain ⟨i, hi, hsettled⟩ := settled_of_mem h hrow
  refine ownRow_settled.mp (hharm.rows _ ⟨i, hsettled, ?_⟩)
  rw [hi]
  exact fun heq => hchanged (Option.some.inj heq).symm

/-- The row that a stranger's message leaves is of its sender exactly if it claims no
    destination. -/
theorem ownRow_new (hstranger : isFromMe r w s = false) {c : Columns}
    {content : Option InboundContent} :
    OwnRow r w s (((messageRouting r w s).message s c).row.voted (messageRouting r w s).chatJid
      (messageRouting r w s).senderJid content) ↔ claimedDestination r s = none := by
  have hkey : ∀ row : Row, OwnRow r w s (row.voted (messageRouting r w s).chatJid
      (messageRouting r w s).senderJid content) ↔ OwnRow r w s row := by
    intro row
    unfold Row.voted
    split
    · unfold Row.tally
      split <;> exact Iff.rfl
    · exact Iff.rfl
  rw [hkey]
  unfold claimedDestination messageRouting routing Routing.message NewMessage.row OwnRow
    Row.BelongsTo
  rw [hstranger]
  cases (s.message r).bind deviceSentDestination with
  | none => exact ⟨fun _ => rfl, fun _ => ⟨rfl, rfl, rfl⟩⟩
  | some dest => exact ⟨fun h => (nomatch h.1), fun h => (nomatch h)⟩

/-! ## 3. When a stranger's message is harmless -/

theorem Harmless.unprivileged (hharm : Harmless r w s) (hstranger : isFromMe r w s = false) :
    Unprivileged r w s := by
  obtain ⟨hkeys, hingests, hrestored, -, -⟩ := process_frame r w s
  have hresent : resent r w s = [] :=
    List.map_eq_nil_iff.mp (List.append_right_eq_self.mp (hrestored.symm.trans hharm.restored))
  refine ⟨hresent, List.append_right_eq_self.mp (hkeys.symm.trans hharm.keys),
    List.append_right_eq_self.mp (hingests.symm.trans hharm.ingests), ?_, ?_, ?_⟩
  · intro target text hsaid row hrow hid
    have happlied : (applyTarget w.store.rows (said r w s)).1 = true := by
      rw [hsaid]
      exact List.any_eq_true.mpr ⟨row, hrow, decide_eq_true hid⟩
    by_cases hsame : row.edit target text = row
    · exact Or.inr (edit_eq.mp hsame hid)
    · refine Or.inl (hharm.own hresent hrow ?_)
      rw [settledRow, if_pos happlied, hsaid]
      exact hsame
  · intro target hsaid row hrow hid
    have happlied : (applyTarget w.store.rows (said r w s)).1 = true := by
      rw [hsaid]
      exact List.any_eq_true.mpr ⟨row, hrow, decide_eq_true hid⟩
    by_cases hsame : row.revoke target = row
    · exact Or.inr (revoke_eq.mp hsame hid)
    · refine Or.inl (hharm.own hresent hrow ?_)
      rw [settledRow, if_pos happlied, hsaid]
      exact hsame
  · intro hfiled
    have hsettled : ∀ row, settledRow r s (said r w s) (messageRouting r w s) w.store.rows row =
        (((messageRouting r w s).message s (inboundColumns r s (said r w s))).heal row).voted
          (messageRouting r w s).chatJid (messageRouting r w s).senderJid (said r w s) := by
      intro row
      rw [settledRow, if_neg (by rw [hfiled.1]; exact Bool.false_ne_true), if_pos hfiled]
    refine ⟨fun hnone => ?_, fun row hrow hheals => ?_, fun row hrow => ?_⟩
    · -- the row behind all others is the one that was inserted
      have hrows : (before r w s).store.rows = w.store.rows := learnedStore_rows hresent
      have hprocess : (processInboundMessage r w s).store.rows[w.store.rows.length]? = some
          (((messageRouting r w s).message s (inboundColumns r s (said r w s))).row.voted
            (messageRouting r w s).chatJid (messageRouting r w s).senderJid (said r w s)) := by
        rw [process_eq, settle_filed (before r w s) (by rw [hrows]; exact hfiled), hrows,
          List.getElem?_map, messageInsert_last hnone, Option.map_some]
      refine (ownRow_new hstranger).mp (hharm.rows _ ⟨w.store.rows.length, hprocess, ?_⟩)
      rw [List.getElem?_eq_none (Nat.le_refl _)]
      exact fun h => (nomatch h)
    · refine hharm.own hresent hrow fun hsame => ?_
      rw [hsettled] at hsame
      exact (voted_heal_eq.mp hsame).1 hheals
    · by_cases hsame : row.voted (messageRouting r w s).chatJid (messageRouting r w s).senderJid
          (said r w s) = row
      · exact Or.inl hsame
      · refine Or.inr (hharm.own hresent hrow fun heq => hsame ?_)
        rw [hsettled] at heq
        exact (voted_heal_eq.mp heq).2

/-- A row that is changed is one that the message names or heals, or the poll of its vote. -/
theorem Unprivileged.own (h : Unprivileged r w s) {row : Row} (hrow : row ∈ w.store.rows)
    (hchanged : settledRow r s (said r w s) (messageRouting r w s) w.store.rows row ≠ row) :
    OwnRow r w s row := by
  unfold settledRow at hchanged
  split at hchanged
  · rcases target_ne hchanged with ⟨target, text, hsaid, hid, hdiffers⟩ | ⟨target, hsaid, hid, hdiffers⟩
    · exact (h.edits target text hsaid row hrow hid).resolve_right hdiffers
    · exact (h.revokes target hsaid row hrow hid).resolve_right hdiffers
  · split at hchanged
    · next hfiled =>
        obtain ⟨-, hheals, hvotes⟩ := h.filed hfiled
        by_cases hheal : ((messageRouting r w s).message s
            (inboundColumns r s (said r w s))).Heals row
        · exact hheals row hrow hheal
        · exact (hvotes row hrow).resolve_left fun hsame =>
            hchanged (voted_heal_eq.mpr ⟨hheal, hsame⟩)
    · exact absurd rfl hchanged

theorem Unprivileged.harmless (h : Unprivileged r w s) (hstranger : isFromMe r w s = false) :
    Harmless r w s := by
  obtain ⟨hkeys, hingests, hrestored, -, -⟩ := process_frame r w s
  have hrows : (before r w s).store.rows = w.store.rows := learnedStore_rows h.resent
  refine ⟨by rw [hkeys, h.keys, List.append_nil], by rw [hingests, h.history, List.append_nil],
    by rw [hrestored, h.resent, List.map_nil, List.append_nil], ?_⟩
  intro row' ⟨i, hrow', hne⟩
  cases hi : w.store.rows[i]? with
  | some row =>
      have hmem := List.mem_of_getElem? hi
      have hold := process_old r w s hi
      rw [h.resent, learnedStore_rows h.resent] at hold
      obtain rfl : settledRow r s (said r w s) (messageRouting r w s) w.store.rows row = row' :=
        Option.some.inj (hold.symm.trans hrow')
      refine ownRow_settled.mpr (h.own hmem fun hsame => hne ?_)
      rw [hi, hsame]
  | none =>
      rw [process_eq] at hrow'
      obtain ⟨hfiled, hnone, rfl⟩ := settle_new (before r w s) (by rw [hrows, hi]) hrow'
      rw [hrows] at hfiled hnone
      exact (ownRow_new hstranger).mpr ((h.filed hfiled).inserted hnone)

/-- **A stranger's message is harmless exactly when it holds nothing that is for our own devices**
    and names no row of another. -/
theorem stranger_harmless_iff (r : Receiver) (w : World) (s : Stanza)
    (hstranger : isFromMe r w s = false) : Harmless r w s ↔ Unprivileged r w s :=
  ⟨fun h => h.unprivileged hstranger, fun h => h.harmless hstranger⟩

end Stranger

namespace Sample

open ProtoWire

def stranger : String := "5511990000005"

def victim : Str := jidOf "5511990000006"

/-- A key that the stranger has chosen. -/
def chosenKey : SharedKey := ⟨some [0, 1], some (List.replicate 32 0x2a)⟩

def keyShareBytes : Bytes :=
  encodeFields [(12, .bytes (encodeFields [(2, .num 6), (7, .bytes (encodeFields
    [(1, .bytes (encodeFields [(1, .bytes (encodeFields [(1, .bytes [0, 1])])),
      (2, .bytes (encodeFields [(1, .bytes (List.replicate 32 0x2a))]))]))]))]))]

def keyShare : Message :=
  { content := { protocol := some { type := some 6, appStateSyncKeyShare := some [chosenKey] } } }

/-- A message of ours to somebody else, in the stranger's words. -/
def deviceSentBytes : Bytes :=
  encodeFields [(31, .bytes (encodeFields
    [(1, .bytes (utf8 (String.ofList victim))), (2, .bytes (textBytes "hi"))]))]

def deviceSent : Message := { deviceSent := some (some victim, some (textMessage "hi")) }

def resentInfoBytes : Bytes :=
  encodeFields [(1, .bytes (keyBytes victim "FORGED")), (2, .bytes (textBytes "hi"))]

def resentInfo : WebMessageInfo where
  key := some (messageKey victim "FORGED")
  message := some (textMessage "hi")
  participant := none
  pushName := none
  messageTimestamp := none

/-- The answer to a request that was never made. -/
def resendBytes : Bytes :=
  encodeFields [(12, .bytes (encodeFields [(2, .num 17), (17, .bytes (encodeFields
    [(3, .bytes (encodeFields [(4, .bytes (encodeFields [(1, .bytes resentInfoBytes)]))]))]))]))]

def resend : Message :=
  { content := { protocol := some { type := some 17, resent := some [some resentInfoBytes] } } }

def historyBytes : Bytes :=
  encodeFields [(12, .bytes (encodeFields [(2, .num 5), (6, .bytes (encodeFields
    [(6, .num 3), (11, .bytes [0x78, 0x9c])]))]))]

def notification : HistorySyncNotification :=
  { syncType := some 3, inlinePayload := some [0x78, 0x9c] }

def historyControl : ProtocolMessage :=
  { type := some 5, historySyncNotification := some notification }

def history : Message := { content := { protocol := some historyControl } }

def commanded : Receiver :=
  receiver [(keyShareBytes, keyShare), (deviceSentBytes, deviceSent), (resendBytes, resend),
    (historyBytes, history), (textBytes "hi", textMessage "hi")] [(resentInfoBytes, resentInfo)]

def command (plain : Bytes) : Stanza := stanza "3EB0COMMAND" stranger plain

end Sample

/-- **A stranger commands as our own phone does**: its key is stored, its message goes out under our
    name, its resend is restored, and its history is fetched. -/
theorem stranger_commands :
    [Sample.keyShareBytes, Sample.deviceSentBytes, Sample.resendBytes, Sample.historyBytes].Forall
      fun plain => isFromMe Sample.commanded (Sample.world []) (Sample.command plain) = false ∧
        ¬Harmless Sample.commanded (Sample.world []) (Sample.command plain) := by
  refine List.forall_iff_forall_mem.mpr fun plain hplain => ?_
  simp only [List.mem_cons, List.not_mem_nil, or_false] at hplain
  rcases hplain with rfl | rfl | rfl | rfl
  · refine ⟨by decide +kernel, fun h => ?_⟩
    have hkeys : (processInboundMessage Sample.commanded (Sample.world [])
        (Sample.command Sample.keyShareBytes)).store.appStateKeys ≠ [] := by decide +kernel
    exact hkeys h.keys
  · refine ⟨by decide +kernel, fun h => ?_⟩
    have hrow : ((processInboundMessage Sample.commanded (Sample.world [])
        (Sample.command Sample.deviceSentBytes)).store.rows[0]?.map (·.fromMe)) = some true := by
      decide +kernel
    obtain ⟨row, hget, hme⟩ := Option.map_eq_some_iff.mp hrow
    exact Bool.false_ne_true ((h.rows row ⟨0, hget, fun hno => (nomatch hno)⟩).1.symm.trans hme)
  · refine ⟨by decide +kernel, fun h => ?_⟩
    have hrestored : (processInboundMessage Sample.commanded (Sample.world [])
        (Sample.command Sample.resendBytes)).restored ≠ [] := by decide +kernel
    exact hrestored h.restored
  · refine ⟨by decide +kernel, fun h => ?_⟩
    have hingests : (processInboundMessage Sample.commanded (Sample.world [])
        (Sample.command Sample.historyBytes)).ingests ≠ [] := by decide +kernel
    exact hingests h.ingests

/-- A stranger's greeting is harmless. -/
theorem stranger_greets :
    Harmless Sample.commanded (Sample.world []) (Sample.command (Sample.textBytes "hi")) := by
  have hsaid : said Sample.commanded (Sample.world []) (Sample.command (Sample.textBytes "hi")) =
      some (.text "hi".toList) := by rfl
  refine (stranger_harmless_iff _ _ _ (by decide +kernel)).mpr
    ⟨by rfl, by rw [hsaid]; rfl, by rw [hsaid]; rfl, ?_, ?_, ?_⟩
  · intro target text hedit
    cases hsaid.symm.trans hedit
  · intro target hrevoke
    cases hsaid.symm.trans hrevoke
  · exact fun _ => ⟨fun _ => by decide +kernel, fun row hrow => (nomatch hrow),
      fun row hrow => (nomatch hrow)⟩

end Ruwa.Session.Inbound
