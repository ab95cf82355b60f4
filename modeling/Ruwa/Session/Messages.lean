/-
  File:      Ruwa/Session/Messages.lean
  Subject:   THE TABLE OF MESSAGES (`store.rs`), as far as their delivery goes: a row for each
             message of a chat, with its status.

  * `messageInsert`, `messageExists` -- a row is inserted once for its key;
  * `messageSetStatus` -- the status as it is told, forward or not;
  * `messageAdvanceStatus` -- only forward along `sent < delivered < read < failed`, and whether
    a row moved.
-/
import Mathlib.Data.List.Basic
import Mathlib.Tactic.Common

namespace Ruwa.Session

/-- What the column `status` holds. -/
inductive MessageStatus
  | received
  | queued
  | sent
  | delivered
  | read
  | failed
  deriving DecidableEq

/-- `status_rank_sql`: everything before `sent` ranks lowest. -/
def MessageStatus.rank : MessageStatus → Nat
  | sent => 1
  | delivered => 2
  | read => 3
  | failed => 4
  | received => 0
  | queued => 0

/-- A row of one session's messages; its chat and its id are the key. -/
structure MessageRow where
  chatJid : String
  messageId : String
  senderJid : String
  fromMe : Bool
  timestamp : Int
  msgType : String
  bodyText : Option String
  payloadJson : String
  status : MessageStatus
  deriving DecidableEq

/-- A row to insert; without a status it is `received`. -/
structure NewMessage where
  chatJid : String
  messageId : String
  senderJid : String
  fromMe : Bool
  timestamp : Int
  msgType : String
  bodyText : Option String
  payloadJson : String
  status : Option MessageStatus
  deriving DecidableEq

def MessageRow.HasKey (row : MessageRow) (chatJid messageId : String) : Prop :=
  row.chatJid = chatJid ∧ row.messageId = messageId

instance (row : MessageRow) (chatJid messageId : String) : Decidable (row.HasKey chatJid messageId) :=
  inferInstanceAs (Decidable (_ ∧ _))

def NewMessage.row (m : NewMessage) : MessageRow :=
  ⟨m.chatJid, m.messageId, m.senderJid, m.fromMe, m.timestamp, m.msgType, m.bodyText, m.payloadJson,
    m.status.getD .received⟩

/-- Why a database fails: a second row with a key, or for reasons of its own. -/
inductive StoreError
  | constraint
  | unavailable
  deriving DecidableEq

/-- `INSERT INTO messages`. With `ignoreConflict` a row that is there takes the content of the new
    one if it could not be decrypted before; without, a row that is there is an error. -/
def messageInsert (rows : List MessageRow) (m : NewMessage) (ignoreConflict : Bool) :
    Except StoreError (List MessageRow) :=
  if rows.any fun row => row.HasKey m.chatJid m.messageId then
    if ignoreConflict then
      .ok (rows.map fun row =>
        if row.HasKey m.chatJid m.messageId ∧ row.msgType = "undecryptable" ∧
            m.msgType ≠ "undecryptable" then
          { row with msgType := m.msgType, bodyText := m.bodyText, payloadJson := m.payloadJson }
        else row)
    else .error .constraint
  else .ok (rows ++ [m.row])

def messageExists (rows : List MessageRow) (chatJid messageId : String) : Bool :=
  rows.any fun row => row.HasKey chatJid messageId

/-- `UPDATE messages SET status = ?`, for every chat the id occurs in. -/
def messageSetStatus (rows : List MessageRow) (messageId : String) (status : MessageStatus) :
    List MessageRow :=
  rows.map fun row => if row.messageId = messageId then { row with status := status } else row

/-- Whether `messageAdvanceStatus` moves the row. -/
def MessageRow.Advances (row : MessageRow) (messageId : String) (status : MessageStatus) : Prop :=
  row.messageId = messageId ∧ row.status.rank < status.rank

instance (row : MessageRow) (messageId : String) (status : MessageStatus) :
    Decidable (row.Advances messageId status) := inferInstanceAs (Decidable (_ ∧ _))

/-- `UPDATE ... AND rank(new) > rank(stored)`: whether a row moved, and the rows. -/
def messageAdvanceStatus (rows : List MessageRow) (messageId : String) (status : MessageStatus) :
    Bool × List MessageRow :=
  (rows.any fun row => row.Advances messageId status,
    rows.map fun row => if row.Advances messageId status then { row with status := status } else row)

/-! ## What they do to a row -/

variable {rows rows' : List MessageRow}

theorem messageInsert_false {m : NewMessage} (h : messageInsert rows m false = .ok rows') :
    (∀ row ∈ rows, ¬row.HasKey m.chatJid m.messageId) ∧ rows' = rows ++ [m.row] := by
  unfold messageInsert at h
  split at h
  · cases h
  · next hnone =>
      cases h
      refine ⟨fun row hrow hkey => hnone ?_, rfl⟩
      simp only [List.any_eq_true, decide_eq_true_eq]
      exact ⟨row, hrow, hkey⟩

theorem messageExists_false {chatJid messageId : String} :
    messageExists rows chatJid messageId = false ↔ ∀ row ∈ rows, ¬row.HasKey chatJid messageId := by
  simp [messageExists]

/-- A row with the status, if it is further. -/
def MessageRow.raise (row : MessageRow) (status : MessageStatus) : MessageRow :=
  if row.status.rank < status.rank then { row with status := status } else row

theorem MessageRow.raise_rank (row : MessageRow) (status : MessageStatus) :
    (row.raise status).status.rank = max row.status.rank status.rank := by
  unfold MessageRow.raise
  split
  · next h => exact (Nat.max_eq_right (Nat.le_of_lt h)).symm
  · next h => exact (Nat.max_eq_left (Nat.le_of_not_lt h)).symm

@[simp] theorem MessageRow.raise_chatJid (row : MessageRow) (status : MessageStatus) :
    (row.raise status).chatJid = row.chatJid := by
  unfold MessageRow.raise
  split <;> rfl

/-- The rows of one message, a row for each chat it is filed under. -/
def rowsOf (messageId : String) (rows : List MessageRow) : List MessageRow :=
  rows.filter fun row => row.messageId = messageId

theorem mem_rowsOf {messageId : String} {row : MessageRow} :
    row ∈ rowsOf messageId rows ↔ row ∈ rows ∧ row.messageId = messageId := by
  simp [rowsOf]

theorem rowsOf_append (messageId : String) (rows rows' : List MessageRow) :
    rowsOf messageId (rows ++ rows') = rowsOf messageId rows ++ rowsOf messageId rows' :=
  List.filter_append rows rows'

theorem rowsOf_advance (messageId : String) (rows : List MessageRow) (status : MessageStatus) :
    rowsOf messageId (messageAdvanceStatus rows messageId status).2 =
      (rowsOf messageId rows).map fun row => row.raise status := by
  induction rows with
  | nil => rfl
  | cons row rows ih =>
      unfold rowsOf messageAdvanceStatus at ih ⊢
      simp only [List.map_cons, List.filter_cons] at ih ⊢
      by_cases hid : row.messageId = messageId <;>
        simp only [MessageRow.Advances, MessageRow.raise, hid, true_and, false_and, if_false,
          decide_true, decide_false, if_true, List.map_cons, Bool.false_eq_true] at ih ⊢
      · split <;> simp_all
      · exact ih

theorem rowsOf_advance_ne {messageId other : String} (hne : other ≠ messageId)
    (rows : List MessageRow) (status : MessageStatus) :
    rowsOf messageId (messageAdvanceStatus rows other status).2 = rowsOf messageId rows := by
  induction rows with
  | nil => rfl
  | cons row rows ih =>
      unfold rowsOf messageAdvanceStatus at ih ⊢
      simp only [List.map_cons, List.filter_cons] at ih ⊢
      by_cases hadv : row.Advances other status
      · have hid : row.messageId ≠ messageId := fun h => hne (hadv.1 ▸ h)
        simp only [if_pos hadv, hid, decide_false, Bool.false_eq_true, if_false]
        exact ih
      · simp only [if_neg hadv]
        rw [ih]

end Ruwa.Session
