/-
  File:      Ruwa/Cloud/Broadcasts.lean
  Subject:   BROADCASTS BY ID (`api.rs`, the handlers below `/sessions/:id/broadcasts/:bid`;
             `session.rs`, `kapso_broadcast_ctx`; `cloud.rs`, the Kapso client).

  Eight operations take a broadcast id from the caller. Each is authorised for a session and then
  sends one request to the platform, whose broadcasts belong to many sessions.

  * `handle_ok` -- when an operation sends its request, and which;
  * **`broadcast_isolated`** -- when it stays with the broadcasts of the session's own number.
-/
import Ruwa.Cloud.Sessions
import Ruwa.Library.Result

namespace Ruwa.Cloud

open Ruwa.Session Ruwa.Library.Text Ruwa.Library.Result

/-! ## 1. The server -/

structure Site where
  apiToken : String
  readonly : Bool
  sessions : String → Option SessionKind
  table : Table
  /-- `kapso_platform`: whether the platform is configured. -/
  kapsoPlatform : Except ApiError Unit

def bearerToken (authorization : Option (List Char)) : Except ApiError (List Char) :=
  match authorization.bind (stripPrefix "Bearer ".toList) with
  | none => .error .unauthorized
  | some token => .ok token

def checkWritable (site : Site) : Except ApiError Unit :=
  if site.readonly then
    .error (.forbidden "RUWA_READONLY=1: this deployment refuses mutating requests")
  else .ok ()

/-- The admin token opens every session, a key its own. -/
def checkSessionAuth (site : Site) (authorization : Option (List Char)) (id : String) :
    Except ApiError Unit := do
  let token ← bearerToken authorization
  if token = site.apiToken.toList then return ()
  match ← ofStore (sessionApiKey site.table id) with
  | some key => if token = key.toList then return () else throw .unauthorized
  | none => throw .unauthorized

def checkSessionAuthWrite (site : Site) (authorization : Option (List Char)) (id : String) :
    Except ApiError Unit := do
  checkSessionAuth site authorization id
  checkWritable site

def getSession (site : Site) (id : String) : Except ApiError SessionKind :=
  match site.sessions id with
  | none => .error (.notFound ("session " ++ id))
  | some kind => .ok kind

def requireCloud (kind : SessionKind) : Except ApiError Unit :=
  if kind = .cloud then .ok ()
  else .error (.notImplemented "broadcasts are only available on cloud sessions")

/-- The number of the session, once the platform can be asked for it. -/
def kapsoBroadcastCtx (site : Site) (id : String) : Except ApiError String := do
  match ← ofStore (sessionCloudCreds site.table id) with
  | none => throw (.notFound ("cloud credentials for session " ++ id))
  | some row =>
      if CloudProvider.parse row.provider ≠ .kapso then
        throw (.notImplemented "broadcasts are only available on Kapso cloud sessions")
      if row.phoneNumberId = "" then
        throw (.badRequest "kapso session is still onboarding — finish the setup link first")
      site.kapsoPlatform
      return row.phoneNumberId

/-! ## 2. What is sent to the platform -/

inductive Json
  | null
  | bool (b : Bool)
  | number (text : String)
  | string (s : String)
  | array (items : List Json)
  | object (fields : List (String × Json))

inductive Method
  | get
  | post
  | delete
  | patch
  deriving DecidableEq

/-- A request below `whatsapp/broadcasts/{bid}`. -/
structure UpstreamRequest where
  method : Method
  bid : List Char
  path : String
  query : List (String × String)
  body : Option Json

def isGraphId (s : List Char) : Bool := !s.isEmpty && s.all Char.isDigit

def isKapsoId (s : List Char) : Bool :=
  isGraphId s || !s.isEmpty && s.all fun c => c.isAlphanum || c == '-' || c == '_'

/-- A character as `{:?}` prints it between quotes; those beyond ASCII are all taken as printable. -/
def debugChar (c : Char) : List Char :=
  if "\"\\".toList.contains c then "\\".toList ++ [c]
  else if c = '\t' then "\\t".toList
  else if c = '\n' then "\\n".toList
  else if c = '\r' then "\\r".toList
  else if c.toNat = 0 then "\\0".toList
  else if c.toNat < 32 ∨ c.toNat = 127 then
    "\\u\x7b".toList ++ Nat.toDigits 16 c.toNat ++ "\x7d".toList
  else [c]

/-- A text as `{:?}` prints it. -/
def debugText (s : List Char) : List Char :=
  "\"".toList ++ s.flatMap debugChar ++ "\"".toList

def broadcastId (bid : List Char) : Except ApiError (List Char) :=
  if isKapsoId (trim bid) then .ok (trim bid)
  else .error (.badRequest
    ("kapso platform: invalid broadcast id " ++ String.ofList (debugText (trim bid))))

/-! ## 3. The operations -/

/-- What one operation does beyond the checks that all share. -/
structure BroadcastOp where
  /-- Whether the deployment may refuse it as mutating. -/
  write : Bool
  /-- The check of the body in the handler. -/
  prepare : Except ApiError Unit
  method : Method
  path : String
  query : List (String × String)
  /-- The body of the request, as the client builds it. -/
  body : Except ApiError (Option Json)

def BroadcastOp.auth (op : BroadcastOp) (site : Site) (authorization : Option (List Char))
    (id : String) : Except ApiError Unit :=
  if op.write then checkSessionAuthWrite site authorization id
  else checkSessionAuth site authorization id

/-- The handler of an operation: the request it sends, or why it sends none. -/
def BroadcastOp.handle (op : BroadcastOp) (site : Site) (authorization : Option (List Char))
    (id : String) (bid : List Char) : Except ApiError UpstreamRequest := do
  op.auth site authorization id
  let kind ← getSession site id
  requireCloud kind
  op.prepare
  let _pnid ← kapsoBroadcastCtx site id
  let bid ← broadcastId bid
  let body ← op.body
  return ⟨op.method, bid, op.path, op.query, body⟩

def recipientsOf : Json → Except ApiError (List Json)
  | .array items => .ok items
  | _ => .error (.badRequest "recipients must be an array")

def extractRecipients (body : Json) : Except ApiError (List Json) := do
  let arr ← match body with
    | .array items => .ok (.array items)
    | .object fields =>
        match fields.lookup "recipients" with
        | none => throw (.badRequest "recipients array is required")
        | some value => .ok value
    | _ => throw (.badRequest "recipients must be an array")
  let items ← recipientsOf arr
  if items.length = 0 then throw (.badRequest "recipients must not be empty")
  if items.length > 1000 then throw (.badRequest "at most 1000 recipients per request")
  return items

def getBroadcast : BroadcastOp := ⟨false, .ok (), .get, "", [], .ok none⟩

def addBroadcastRecipients (body : Json) : BroadcastOp :=
  ⟨true, (extractRecipients body).map fun _ => (), .post, "/recipients", [],
    (extractRecipients body).map fun items =>
      some (.object [("whatsapp_broadcast", .object [("recipients", .array items)])])⟩

def clearBroadcastRecipients : BroadcastOp := ⟨true, .ok (), .delete, "/recipients", [], .ok none⟩

def listBroadcastRecipients (page perPage : Option UInt32) : BroadcastOp :=
  ⟨false, .ok (), .get, "/recipients",
    (page.map fun p => ("page", toString p)).toList ++
      (perPage.map fun p => ("per_page", toString p)).toList, .ok none⟩

def sendBroadcast : BroadcastOp := ⟨true, .ok (), .post, "/send", [], .ok none⟩

/-- The handler and the client both ask for the time. -/
def scheduledAtOf (scheduledAt : List Char) : Except ApiError (List Char) :=
  if trim scheduledAt = [] then .error (.badRequest "scheduled_at is required")
  else .ok (trim scheduledAt)

def scheduleBroadcast (scheduledAt : Option String) : BroadcastOp :=
  let atHandler := scheduledAtOf (scheduledAt.getD "").toList
  ⟨true, atHandler.map fun _ => (), .post, "/schedule", [],
    (atHandler.bind scheduledAtOf).map fun text =>
      some (.object [("scheduled_at", .string (String.ofList text))])⟩

def cancelBroadcast : BroadcastOp := ⟨true, .ok (), .post, "/cancel", [], .ok none⟩

def stopBroadcast : BroadcastOp :=
  ⟨true, .ok (), .patch, "", [],
    .ok (some (.object [("whatsapp_broadcast", .object [("status", .string "stopped")])]))⟩

/-! ## 4. When an operation sends its request -/

/-- Everything the code asks for before it sends the request of an operation. -/
structure Admitted (op : BroadcastOp) (site : Site) (authorization : Option (List Char))
    (id : String) (bid : List Char) : Prop where
  auth : checkSessionAuth site authorization id = .ok ()
  writable : op.write = true → site.readonly = false
  cloud : site.sessions id = some .cloud
  prepared : op.prepare = .ok ()
  context : ∃ pnid, kapsoBroadcastCtx site id = .ok pnid
  bid : isKapsoId (trim bid) = true
  body : ∃ body, op.body = .ok body

variable {op : BroadcastOp} {site : Site} {authorization : Option (List Char)} {id : String}
  {bid : List Char}

theorem checkSessionAuthWrite_ok :
    checkSessionAuthWrite site authorization id = .ok () ↔
      checkSessionAuth site authorization id = .ok () ∧ site.readonly = false := by
  unfold checkSessionAuthWrite
  rw [bind_ok]
  unfold checkWritable
  constructor
  · rintro ⟨_, hauth, hwritable⟩
    refine ⟨hauth, Bool.eq_false_iff.mpr fun hreadonly => ?_⟩
    rw [if_pos hreadonly] at hwritable
    cases hwritable
  · rintro ⟨hauth, hwritable⟩
    exact ⟨(), hauth, by simp [hwritable]⟩

/-- Of an operation that only reads, no more than the token is asked. -/
theorem auth_ok :
    op.auth site authorization id = .ok () ↔
      checkSessionAuth site authorization id = .ok () ∧
        (op.write = true → site.readonly = false) := by
  unfold BroadcastOp.auth
  cases hwrite : op.write with
  | false => simp
  | true => simp [checkSessionAuthWrite_ok]

theorem cloud_ok :
    (getSession site id >>= requireCloud) = .ok () ↔ site.sessions id = some .cloud := by
  unfold getSession requireCloud
  cases hsession : site.sessions id with
  | none => simp [bind_ok]
  | some kind => cases kind <;> simp [bind_ok]

theorem broadcastId_ok {b : List Char} :
    broadcastId bid = .ok b ↔ isKapsoId (trim bid) = true ∧ b = trim bid := by
  unfold broadcastId
  split
  · next h => simp [h, eq_comm]
  · next h => simp [h]

/-- **An operation that is admitted sends its request, for the id as it was given.** -/
theorem handle_ok {r : UpstreamRequest} :
    op.handle site authorization id bid = .ok r ↔
      Admitted op site authorization id bid ∧
        ∃ body, op.body = .ok body ∧ r = ⟨op.method, trim bid, op.path, op.query, body⟩ := by
  unfold BroadcastOp.handle
  simp only [bind_ok]
  constructor
  · rintro ⟨_, hauth, kind, hkind, _, hcloud, _, hprepared, pnid, hcontext, b, hbid, body, hbody, hr⟩
    obtain ⟨hkapso, rfl⟩ := broadcastId_ok.mp hbid
    cases hr
    obtain ⟨htoken, hwritable⟩ := auth_ok.mp hauth
    exact ⟨⟨htoken, hwritable, cloud_ok.mp (bind_ok.mpr ⟨kind, hkind, hcloud⟩), hprepared,
      ⟨pnid, hcontext⟩, hkapso, ⟨body, hbody⟩⟩, body, hbody, rfl⟩
  · rintro ⟨⟨htoken, hwritable, hcloud, hprepared, ⟨pnid, hcontext⟩, hkapso, -⟩, body, hbody, rfl⟩
    obtain ⟨kind, hkind, hcloud⟩ := bind_ok.mp (cloud_ok.mpr hcloud)
    exact ⟨(), auth_ok.mpr ⟨htoken, hwritable⟩, kind, hkind, (), hcloud, (), hprepared, pnid,
      hcontext, trim bid, broadcastId_ok.mpr ⟨hkapso, rfl⟩, body, hbody, rfl⟩

/-! ## 5. Whose broadcasts it reaches -/

/-- A broadcast at the platform: the number it was created under, and the rest of it. -/
structure Broadcast (β : Type) where
  phoneNumberId : String
  content : β

/-- The broadcasts of the platform by their ids. -/
abbrev Broadcasts (β : Type) := List Char → Option (Broadcast β)

/-- The platform, which acts on the id it is given and on no other. -/
structure Upstream (β ρ : Type) where
  act : UpstreamRequest → Broadcasts β → Broadcasts β × ρ
  act_other : ∀ r bs bid, bid ≠ r.bid → (act r bs).1 bid = bs bid
  act_reads : ∀ r bs bs', bs r.bid = bs' r.bid → (act r bs).2 = (act r bs').2

variable {β ρ : Type}

/-- The session's own number. -/
def OwnNumber (site : Site) (id pnid : String) : Prop :=
  ∃ row, sessionCloudCreds site.table id = .ok (some row) ∧ row.phoneNumberId = pnid

/-- A request that is sent is for a broadcast of the session's own number, if for any. -/
def Isolated (site : Site) (id : String) (bs : Broadcasts β) :
    Except ApiError UpstreamRequest → Prop
  | .error _ => True
  | .ok r => ∀ b, bs r.bid = some b → OwnNumber site id b.phoneNumberId

/-- A request of an isolated operation leaves foreign broadcasts as they are. -/
theorem act_foreign (U : Upstream β ρ) {bs : Broadcasts β} {r : UpstreamRequest}
    (h : Isolated site id bs (.ok r)) {bid' : List Char} {b : Broadcast β}
    (hb : bs bid' = some b) (hforeign : ¬OwnNumber site id b.phoneNumberId) :
    (U.act r bs).1 bid' = bs bid' := by
  refine U.act_other r bs bid' ?_
  rintro rfl
  exact hforeign (h b hb)

/-- What it answers does not depend on foreign broadcasts. -/
theorem act_answer (U : Upstream β ρ) {bs bs' : Broadcasts β} {r : UpstreamRequest}
    (h : Isolated site id bs (.ok r)) (h' : Isolated site id bs' (.ok r))
    (hown : ∀ bid' b, OwnNumber site id b.phoneNumberId → (bs bid' = some b ↔ bs' bid' = some b)) :
    (U.act r bs).2 = (U.act r bs').2 := by
  refine U.act_reads r bs bs' ?_
  cases hb : bs r.bid with
  | some b => exact ((hown r.bid b (h b hb)).mp hb).symm
  | none =>
      cases hb' : bs' r.bid with
      | none => rfl
      | some b' =>
          rw [(hown r.bid b' (h' b' hb')).mpr hb'] at hb
          cases hb

/-- **Tenant isolation of the broadcast operations**: what is sent is for the session's own
    broadcasts, exactly when the id is of no other; and then the others stay as they are, and the
    answer is the same whatever they are. -/
theorem broadcast_isolated (U : Upstream β ρ) (op : BroadcastOp) (site : Site)
    (authorization : Option (List Char)) (id : String) (bid : List Char) (bs : Broadcasts β) :
    (Isolated site id bs (op.handle site authorization id bid) ↔
        (Admitted op site authorization id bid →
          ∀ b, bs (trim bid) = some b → OwnNumber site id b.phoneNumberId)) ∧
      (Isolated site id bs (op.handle site authorization id bid) →
        ∀ r, op.handle site authorization id bid = .ok r →
          (∀ bid' b, bs bid' = some b → ¬OwnNumber site id b.phoneNumberId →
            (U.act r bs).1 bid' = bs bid') ∧
          ∀ bs' : Broadcasts β, Isolated site id bs' (op.handle site authorization id bid) →
            (∀ bid' b, OwnNumber site id b.phoneNumberId →
              (bs bid' = some b ↔ bs' bid' = some b)) →
            (U.act r bs).2 = (U.act r bs').2) := by
  refine ⟨⟨?_, ?_⟩, ?_⟩
  · intro h hadmitted b hb
    obtain ⟨body, hbody⟩ := hadmitted.body
    rw [handle_ok.mpr ⟨hadmitted, body, hbody, rfl⟩] at h
    exact h b hb
  · intro h
    cases hhandle : op.handle site authorization id bid with
    | error e => exact trivial
    | ok r =>
        obtain ⟨hadmitted, body, -, rfl⟩ := handle_ok.mp hhandle
        exact h hadmitted
  · intro h r hhandle
    rw [hhandle] at h ⊢
    exact ⟨fun bid' b hb hforeign => act_foreign U h hb hforeign,
      fun bs' h' hown => act_answer U h h' hown⟩

/-! ## 6. A key that reaches another tenant's broadcast -/

namespace Sample

def tenant (id key pnid : String) : SessionRow :=
  ⟨id, .cloud, some key, some pnid, some "kapso", none, none, none⟩

/-- Two tenants under one platform key. -/
def shared : Site :=
  ⟨"admin", false, fun _ => some .cloud,
    .ok [tenant "s-1" "key-1" "101", tenant "s-2" "key-2" "102"], .ok ()⟩

def theirs : Broadcasts Unit := fun bid => if bid = "b-2".toList then some ⟨"102", ()⟩ else none

/-- A broadcast of the first tenant beside that, sent or not. -/
def ours (sent : Bool) : Broadcasts Bool := fun bid =>
  if bid = "b-1".toList then some ⟨"101", sent⟩
  else if bid = "b-2".toList then some ⟨"102", false⟩
  else none

/-- A platform that sends the broadcast it is asked to send, and answers with the broadcast. -/
def platform : Upstream Bool (Option Bool) where
  act r bs :=
    if r.path = "/send" then
      (Function.update bs r.bid ((bs r.bid).map fun b => { b with content := true }), some true)
    else (bs, (bs r.bid).map (·.content))
  act_other r bs bid hbid := by
    split
    · exact Function.update_of_ne hbid _ _
    · rfl
  act_reads r bs bs' hsame := by
    split
    · rfl
    · exact congrArg (Option.map (·.content)) hsame

end Sample

/-- The first tenant sends its own broadcast, and that of the second stays as it is. -/
theorem own_broadcast_sent :
    ∃ r, sendBroadcast.handle Sample.shared (some "Bearer key-1".toList) "s-1" "b-1".toList =
        .ok r ∧
      (Sample.platform.act r (Sample.ours false)).1 "b-1".toList = some ⟨"101", true⟩ ∧
      (Sample.platform.act r (Sample.ours false)).1 "b-2".toList = some ⟨"102", false⟩ := by
  obtain ⟨hiff, hkept⟩ := broadcast_isolated Sample.platform sendBroadcast Sample.shared
    (some "Bearer key-1".toList) "s-1" "b-1".toList (Sample.ours false)
  have hisolated := hiff.mpr fun _ b hb => by
    cases hb
    exact ⟨_, rfl, rfl⟩
  refine ⟨_, rfl, rfl, ?_⟩
  refine ((hkept hisolated _ rfl).1 "b-2".toList ⟨"102", false⟩ rfl ?_).trans rfl
  rintro ⟨row, hrow, hnumber⟩
  cases hrow
  exact absurd hnumber (by decide)

/-- The first tenant sends a broadcast of the second. -/
theorem broadcast_of_another_sent :
    (∃ r, sendBroadcast.handle Sample.shared (some "Bearer key-1".toList) "s-1" "b-2".toList = .ok r ∧
      r.method = .post ∧ r.bid = "b-2".toList ∧ r.path = "/send") ∧
      ¬Isolated Sample.shared "s-1" Sample.theirs
        (sendBroadcast.handle Sample.shared (some "Bearer key-1".toList) "s-1" "b-2".toList) := by
  refine ⟨⟨_, rfl, rfl, rfl, rfl⟩, ?_⟩
  intro h
  obtain ⟨row, hrow, hnumber⟩ := h ⟨"102", ()⟩ rfl
  cases hrow
  exact absurd hnumber (by decide)

end Ruwa.Cloud
