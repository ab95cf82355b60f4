/-
  File:      Ruwa/Cloud/Sessions.lean
  Subject:   THE TABLE OF SESSIONS (`store.rs`), as far as cloud sessions are found and
             authenticated by it.

  Secrets are stored sealed. A column here holds what unsealing it gives: a text, or an error.
-/
import Ruwa.Session.Messages
import Ruwa.Library.Text

namespace Ruwa.Cloud

open Ruwa.Session Ruwa.Library.Text

/-! ## 1. Answers of the API -/

inductive ApiError
  | notFound (text : String)
  | badRequest (text : String)
  | unauthorized
  | forbidden (text : String)
  | notImplemented (text : String)
  | storage (e : StoreError)
  | internal (text : String)
  deriving DecidableEq

/-- `?` on a result of the store. -/
def ofStore {α : Type} : Except StoreError α → Except ApiError α
  | .ok a => .ok a
  | .error e => .error (.storage e)

/-! ## 2. Rows -/

inductive SessionKind
  | web
  | cloud
  deriving DecidableEq

abbrev Sealed := Except StoreError String

/-- A row; the rows of a table stand in the order they were created in. -/
structure SessionRow where
  id : String
  kind : SessionKind
  apiKey : Option String
  cloudPhoneNumberId : Option String
  cloudProvider : Option String
  cloudAccessToken : Option Sealed
  cloudAppSecret : Option Sealed
  cloudWebhookSecret : Option Sealed

/-- The table at one access, which may fail. -/
abbrev Table := Except StoreError (List SessionRow)

structure CloudCredsRow where
  phoneNumberId : String
  accessToken : String
  appSecret : Option String
  provider : String
  webhookSecret : Option String
  deriving DecidableEq

/-- An empty text counts as none. -/
def nonEmpty (s : Option String) : Option String := s.filter fun s => s ≠ ""

def unsealed : Option Sealed → Except StoreError (Option String)
  | none => .ok none
  | some (.error e) => .error e
  | some (.ok s) => .ok (some s)

def cloudCredsFromCols (row : SessionRow) : Except StoreError CloudCredsRow := do
  let accessToken ← unsealed row.cloudAccessToken
  let appSecret ← unsealed row.cloudAppSecret
  let webhookSecret ← unsealed row.cloudWebhookSecret
  return {
    phoneNumberId := row.cloudPhoneNumberId.getD ""
    accessToken := accessToken.getD ""
    appSecret := nonEmpty appSecret
    provider := (nonEmpty row.cloudProvider).getD "meta"
    webhookSecret := nonEmpty webhookSecret }

/-! ## 3. Queries -/

def sessionCloudCreds (table : Table) (id : String) : Except StoreError (Option CloudCredsRow) := do
  let rows ← table
  match rows.find? fun row => decide (row.id = id ∧ row.kind = .cloud) with
  | none => return none
  | some row => return some (← cloudCredsFromCols row)

/-- The oldest cloud session with this number. -/
def cloudSessionIdByPhoneNumberId (table : Table) (pnid : String) :
    Except StoreError (Option String) := do
  let rows ← table
  return (rows.find? fun row =>
    decide (row.kind = .cloud ∧ row.cloudPhoneNumberId = some pnid)).map SessionRow.id

def sessionApiKey (table : Table) (id : String) : Except StoreError (Option String) := do
  let rows ← table
  return (rows.find? fun row => decide (row.id = id)).bind SessionRow.apiKey

inductive CloudProvider
  | metaCloud
  | kapso
  deriving DecidableEq

def CloudProvider.parse (s : String) : CloudProvider :=
  if (trim s.toList).map Char.toLower = "kapso".toList then .kapso else .metaCloud

end Ruwa.Cloud
