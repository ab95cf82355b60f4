/-
  File:      Ruwa/Cloud/Webhook.lean
  Subject:   WHO MAY POST A WEBHOOK (`api.rs`, `cloud_webhook_receive` and
             `cloud_kapso_webhook_receive`; `cloud.rs`, the two signatures).

  A request names sessions by phone number, and each number is looked up twice: to choose the
  secret the body is verified under, and again when its batch is ingested. What the table holds
  at each of these moments is `Moments`, so it may change at any point between them.

  * `verifySignature_mac`, `verifyKapsoSignature_mac` -- what a signature that is accepted shows;
  * `cloudIngest_frame` -- ingesting changes the session that owns the number, and no other;
  * **`webhook_authenticated`** -- exactly when each session that is reached was authenticated, by the
    secrets it has at that moment;
  * `webhook_forged` -- three requests that get past the check.
-/
import Ruwa.Cloud.Ingest
import Ruwa.Cloud.Sessions
import Ruwa.Crypto.Primitives

namespace Ruwa.Cloud

open Ruwa.Session Ruwa.Library Ruwa.Library.Text Ruwa.Crypto

variable (H : Hashing)

/-! ## 1. Signatures -/

/-- `mac.verify_slice` of a signature in hexadecimal. -/
def verifyHexMac (secret : String) (rawBody : Bytes) (hexSig : List Char) : Bool :=
  match hexDecode (trim hexSig) with
  | none => false
  | some sig => decide (sig = (H.hmac (utf8 secret) rawBody).bytes)

def shaPrefix (header : List Char) : Option (List Char) :=
  (stripPrefix "sha256=".toList header).or (stripPrefix "SHA256=".toList header)

def verifySignature (appSecret : String) (rawBody : Bytes) (headerValue : Option (List Char)) :
    Bool :=
  match headerValue.map trim with
  | none => false
  | some header =>
      match shaPrefix header with
      | none => false
      | some hexSig => verifyHexMac H appSecret rawBody hexSig

/-- The prefix may be missing here. -/
def verifyKapsoSignature (secret : String) (rawBody : Bytes) (headerValue : Option (List Char)) :
    Bool :=
  match (headerValue.map trim).filter fun s => s ≠ [] with
  | none => false
  | some header => verifyHexMac H secret rawBody ((shaPrefix header).getD header)

variable {H}

theorem verifyHexMac_mac {secret : String} {rawBody : Bytes} {hexSig : List Char}
    (h : verifyHexMac H secret rawBody hexSig = true) :
    hexDecode (trim hexSig) = some (H.hmac (utf8 secret) rawBody).bytes := by
  unfold verifyHexMac at h
  split at h
  · cases h
  · next sig hsig => rw [hsig, of_decide_eq_true h]

theorem verifyHexMac_hexEncode (secret : String) (rawBody : Bytes) :
    verifyHexMac H secret rawBody (hexEncode (H.hmac (utf8 secret) rawBody).bytes) = true := by
  unfold verifyHexMac
  rw [trim_of_all_not fun c hc => mem_hexEncode hc, hexDecode_hexEncode]
  exact decide_eq_true rfl

/-- **A signature that is accepted spells the MAC of the body.** -/
theorem verifySignature_mac {secret : String} {rawBody : Bytes} {header : Option (List Char)}
    (h : verifySignature H secret rawBody header = true) :
    ∃ text hexSig, header = some text ∧ shaPrefix (trim text) = some hexSig ∧
      hexDecode (trim hexSig) = some (H.hmac (utf8 secret) rawBody).bytes := by
  cases header with
  | none => cases h
  | some text =>
      simp only [verifySignature, Option.map_some] at h
      split at h
      · cases h
      · next hexSig hsig => exact ⟨text, hexSig, rfl, hsig, verifyHexMac_mac h⟩

theorem verifyKapsoSignature_mac {secret : String} {rawBody : Bytes} {header : Option (List Char)}
    (h : verifyKapsoSignature H secret rawBody header = true) :
    ∃ text, header = some text ∧ hexDecode (trim ((shaPrefix (trim text)).getD (trim text))) =
      some (H.hmac (utf8 secret) rawBody).bytes := by
  unfold verifyKapsoSignature at h
  split at h
  · cases h
  · next hheader =>
      obtain ⟨hmap, -⟩ := Option.filter_eq_some_iff.mp hheader
      obtain ⟨text, rfl, rfl⟩ := Option.map_eq_some_iff.mp hmap
      exact ⟨text, rfl, verifyHexMac_mac h⟩

/-! ## 2. A request -/

inductive Endpoint
  | metaCloud
  | kapso
  deriving DecidableEq

structure Headers where
  hubSignature256 : Option (List Char)
  webhookSignature : Option (List Char)

structure Post where
  endpoint : Endpoint
  headers : Headers
  body : Bytes

def Endpoint.other : Endpoint → Endpoint
  | .metaCloud => .kapso
  | .kapso => .metaCloud

/-- The secret that bodies of this endpoint are signed under. -/
def Endpoint.secret : Endpoint → CloudCredsRow → Option String
  | .metaCloud, creds => creds.appSecret
  | .kapso, creds => creds.webhookSecret

variable (H)

def Post.verify (post : Post) (secret : String) : Bool :=
  match post.endpoint with
  | .metaCloud => verifySignature H secret post.body post.headers.hubSignature256
  | .kapso => verifyKapsoSignature H secret post.body post.headers.webhookSignature

/-- What the code finds at its accesses for one batch: the table when it looks up the number, when
    it reads the credentials and when it ingests, and the sessions it ingests into. -/
structure Moments where
  atLookup : Table
  atCreds : Table
  atIngest : Table
  sessions : String → Option CloudSession
  now : Int

/-- The check of one batch: the session it maps to, if it maps to one. -/
def checkBatch (post : Post) (allowUnsigned : Bool) (m : Moments) (batch : WebhookBatch) :
    Except ApiError (Option String) :=
  match cloudSessionIdByPhoneNumberId m.atLookup batch.phoneNumberId with
  | .error e => .error (.storage e)
  | .ok none => .ok none
  | .ok (some sid) =>
      match sessionCloudCreds m.atCreds sid with
      | .error _ => .error .unauthorized
      | .ok none => .error .unauthorized
      | .ok (some creds) =>
          match post.endpoint.secret creds with
          | some secret => if post.verify H secret then .ok (some sid) else .error .unauthorized
          | none => if allowUnsigned then .ok (some sid) else .error .unauthorized

/-- The check of every batch, in order; the first that fails refuses the request. -/
def checkBatches (post : Post) (allowUnsigned : Bool) :
    List (WebhookBatch × Moments) → Except ApiError (List (Option String))
  | [] => .ok []
  | (batch, m) :: rest =>
      match checkBatch H post allowUnsigned m batch with
      | .error e => .error e
      | .ok mapped =>
          match checkBatches post allowUnsigned rest with
          | .error e => .error e
          | .ok sids => .ok (mapped :: sids)

/-- `cloud_webhook_receive` and its twin: the batches that are handed to `cloud_ingest`. -/
def webhookReceive (parse : Endpoint → Bytes → Except ApiError (List WebhookBatch)) (post : Post)
    (allowUnsigned : Bool) (moments : Nat → Moments) :
    Except ApiError (List (WebhookBatch × Moments)) :=
  match parse post.endpoint post.body with
  | .error e => .error e
  | .ok batches =>
      let batches := batches.zipIdx.map fun (batch, i) => (batch, moments i)
      match checkBatches H post allowUnsigned batches with
      | .error e => .error e
      | .ok sids => .ok (if sids.all Option.isNone then [] else batches)

/-- What is ingested of a request; nothing of one that is refused. -/
def ingested (parse : Endpoint → Bytes → Except ApiError (List WebhookBatch)) (post : Post)
    (allowUnsigned : Bool) (moments : Nat → Moments) : List (WebhookBatch × Moments) :=
  match webhookReceive H parse post allowUnsigned moments with
  | .error _ => []
  | .ok handed => handed

def cloudWebhookReceive (parseWebhook : Bytes → Except ApiError (List WebhookBatch))
    (headers : Headers) (body : Bytes) :=
  webhookReceive H (fun _ => parseWebhook) ⟨.metaCloud, headers, body⟩

def cloudKapsoWebhookReceive (parseKapsoWebhook : Bytes → Except ApiError (List WebhookBatch))
    (headers : Headers) (body : Bytes) :=
  webhookReceive H (fun _ => parseKapsoWebhook) ⟨.kapso, headers, body⟩

/-! ## 3. Ingesting -/

/-- `cloud_ingest`: the sessions after one batch. -/
def cloudIngest (m : Moments) (batch : WebhookBatch) :
    Except ApiError (String → Option CloudSession) :=
  match cloudSessionIdByPhoneNumberId m.atIngest batch.phoneNumberId with
  | .error e => .error (.storage e)
  | .ok none => .error (.notFound ("no cloud session for phone_number_id " ++ batch.phoneNumberId))
  | .ok (some sid) =>
      match m.sessions sid with
      | none => .error (.notFound ("session " ++ sid))
      | some session => .ok fun id =>
          if id = sid then some (ingestBatch session m.now batch) else m.sessions id

/-- The batch is ingested for the session: it owns the number then, and is not logged out. -/
def Reaches (m : Moments) (batch : WebhookBatch) (sid : String) : Prop :=
  cloudSessionIdByPhoneNumberId m.atIngest batch.phoneNumberId = .ok (some sid) ∧
    ∃ session, m.sessions sid = some session ∧ session.loggedOut = false

/-- **Ingesting a batch changes the session it reaches, and no other.** -/
theorem cloudIngest_frame {m : Moments} {batch : WebhookBatch}
    {sessions' : String → Option CloudSession} (h : cloudIngest m batch = .ok sessions')
    {sid : String} (hout : ¬Reaches m batch sid) : sessions' sid = m.sessions sid := by
  unfold cloudIngest at h
  split at h
  · cases h
  · cases h
  · next owner hlookup =>
      split at h
      · cases h
      · next session hsession =>
          cases h
          by_cases hid : sid = owner
          · subst hid
            have hlogged : session.loggedOut = true := by
              by_contra hnot
              exact hout ⟨hlookup, session, hsession, Bool.eq_false_iff.mpr hnot⟩
            simp [ingestBatch, hlogged, hsession]
          · simp [hid]

/-! ## 4. Who is authenticated -/

/-- At its check, a batch of the request mapped to a session with these credentials. -/
def CheckedWith (handed : List (WebhookBatch × Moments)) (creds : CloudCredsRow) : Prop :=
  ∃ batch m sid, (batch, m) ∈ handed ∧
    cloudSessionIdByPhoneNumberId m.atLookup batch.phoneNumberId = .ok (some sid) ∧
    sessionCloudCreds m.atCreds sid = .ok (some creds)

/-- At the check, the body was verified under this secret. -/
def VerifiedUnder (post : Post) (handed : List (WebhookBatch × Moments)) (secret : String) : Prop :=
  (∃ creds, CheckedWith handed creds ∧ post.endpoint.secret creds = some secret) ∧
    post.verify H secret = true

/-- The body was verified under the secret that the session has for the endpoint when the batch is
    ingested; or it has no secret of either provider then, and unsigned bodies are allowed. -/
def Authenticated (post : Post) (allowUnsigned : Bool) (handed : List (WebhookBatch × Moments))
    (m : Moments) (sid : String) : Prop :=
  ∃ creds, sessionCloudCreds m.atIngest sid = .ok (some creds) ∧
    match post.endpoint.secret creds with
    | some secret => VerifiedUnder H post handed secret
    | none => allowUnsigned = true ∧ post.endpoint.other.secret creds = none

/-- What the session has for the endpoint when the batch is ingested is what a batch was checked with,
    or it is nothing, and unsigned bodies are allowed; and if it has nothing for the endpoint, it has
    nothing for the other provider, too. -/
def Covered (post : Post) (allowUnsigned : Bool) (handed : List (WebhookBatch × Moments))
    (m : Moments) (sid : String) : Prop :=
  ∃ creds, sessionCloudCreds m.atIngest sid = .ok (some creds) ∧
    ((∃ checked, CheckedWith handed checked ∧
        post.endpoint.secret checked = post.endpoint.secret creds) ∨
      post.endpoint.secret creds = none ∧ allowUnsigned = true) ∧
    (post.endpoint.secret creds = none → post.endpoint.other.secret creds = none)

variable {H} {post : Post} {allowUnsigned : Bool}

/-- What a batch passes with that is mapped to a session. -/
theorem checkBatch_mapped {m : Moments} {batch : WebhookBatch} {mapped : Option String}
    {sid : String} {creds : CloudCredsRow}
    (h : checkBatch H post allowUnsigned m batch = .ok mapped)
    (hlookup : cloudSessionIdByPhoneNumberId m.atLookup batch.phoneNumberId = .ok (some sid))
    (hcreds : sessionCloudCreds m.atCreds sid = .ok (some creds)) :
    match post.endpoint.secret creds with
    | some secret => post.verify H secret = true
    | none => allowUnsigned = true := by
  unfold checkBatch at h
  rw [hlookup] at h
  simp only [hcreds] at h
  cases hsecret : post.endpoint.secret creds with
  | none =>
      rw [hsecret] at h
      by_contra hnot
      simp [hnot] at h
  | some secret =>
      rw [hsecret] at h
      by_contra hnot
      simp [hnot] at h

theorem checkBatches_mem {batches : List (WebhookBatch × Moments)} {sids : List (Option String)}
    (h : checkBatches H post allowUnsigned batches = .ok sids) {batch : WebhookBatch} {m : Moments}
    (hmem : (batch, m) ∈ batches) :
    ∃ mapped, checkBatch H post allowUnsigned m batch = .ok mapped := by
  induction batches generalizing sids with
  | nil => cases hmem
  | cons first rest ih =>
      obtain ⟨firstBatch, firstMoments⟩ := first
      simp only [checkBatches] at h
      split at h
      · cases h
      · next mapped hfirst =>
          split at h
          · cases h
          · next sids' hrest =>
              rcases List.mem_cons.mp hmem with heq | htail
              · cases heq
                exact ⟨mapped, hfirst⟩
              · exact ih hrest htail

/-- What is handed on has passed the check. -/
theorem ingested_checked {parse : Endpoint → Bytes → Except ApiError (List WebhookBatch)}
    {moments : Nat → Moments} {batch : WebhookBatch} {m : Moments}
    (hmem : (batch, m) ∈ ingested H parse post allowUnsigned moments) :
    ∃ mapped, checkBatch H post allowUnsigned m batch = .ok mapped := by
  unfold ingested webhookReceive at hmem
  cases hparse : parse post.endpoint post.body with
  | error e => simp [hparse] at hmem
  | ok batches =>
      simp only [hparse] at hmem
      split at hmem
      · cases hmem
      · next handed hreceive =>
          split at hreceive
          · cases hreceive
          · next sids hcheck =>
              cases hreceive
              split at hmem
              · cases hmem
              · exact checkBatches_mem hcheck hmem

/-- What a batch of an accepted request was checked with. -/
theorem checkedWith_passed {parse : Endpoint → Bytes → Except ApiError (List WebhookBatch)}
    {moments : Nat → Moments} {creds : CloudCredsRow}
    (h : CheckedWith (ingested H parse post allowUnsigned moments) creds) :
    match post.endpoint.secret creds with
    | some secret => post.verify H secret = true
    | none => allowUnsigned = true := by
  obtain ⟨batch, m, sid, hmem, hlookup, hcreds⟩ := h
  obtain ⟨mapped, hcheck⟩ := ingested_checked hmem
  exact checkBatch_mapped hcheck hlookup hcreds

/-- **A session is authenticated if the check used the secret that it has now**, or it has none; and
    only then. -/
theorem authenticated_iff_covered {parse : Endpoint → Bytes → Except ApiError (List WebhookBatch)}
    {moments : Nat → Moments} (m : Moments) (sid : String) :
    Authenticated H post allowUnsigned (ingested H parse post allowUnsigned moments) m sid ↔
      Covered post allowUnsigned (ingested H parse post allowUnsigned moments) m sid := by
  constructor
  · rintro ⟨creds, hcreds, hauth⟩
    refine ⟨creds, hcreds, ?_⟩
    cases hsecret : post.endpoint.secret creds with
    | some secret =>
        rw [hsecret] at hauth
        obtain ⟨⟨checked, hchecked, hsame⟩, -⟩ := hauth
        exact ⟨.inl ⟨checked, hchecked, hsame⟩, fun hnone => nomatch hnone⟩
    | none =>
        rw [hsecret] at hauth
        exact ⟨.inr ⟨rfl, hauth.1⟩, fun _ => hauth.2⟩
  · rintro ⟨creds, hcreds, hused, hother⟩
    refine ⟨creds, hcreds, ?_⟩
    cases hsecret : post.endpoint.secret creds with
    | some secret =>
        rw [hsecret] at hused
        obtain ⟨checked, hchecked, hsame⟩ := hused.resolve_right fun h => nomatch h.1
        have hpassed := checkedWith_passed hchecked
        rw [hsame] at hpassed
        exact ⟨⟨checked, hchecked, hsame⟩, hpassed⟩
    | none =>
        refine ⟨?_, hother hsecret⟩
        rcases hused with ⟨checked, hchecked, hsame⟩ | ⟨-, hallowed⟩
        · have hpassed := checkedWith_passed hchecked
          rw [hsame, hsecret] at hpassed
          exact hpassed
        · exact hallowed

/-- **Webhook authentication**: only sessions that are reached change, and each of them was
    authenticated exactly when each of them was covered by the check. -/
theorem webhook_authenticated (H : Hashing)
    (parse : Endpoint → Bytes → Except ApiError (List WebhookBatch)) (post : Post)
    (allowUnsigned : Bool) (moments : Nat → Moments) :
    (∀ batch m, (batch, m) ∈ ingested H parse post allowUnsigned moments →
        ∀ sessions', cloudIngest m batch = .ok sessions' →
          ∀ sid, sessions' sid ≠ m.sessions sid → Reaches m batch sid) ∧
      ((∀ batch m, (batch, m) ∈ ingested H parse post allowUnsigned moments →
          ∀ sid, Reaches m batch sid →
            Authenticated H post allowUnsigned
              (ingested H parse post allowUnsigned moments) m sid) ↔
        ∀ batch m, (batch, m) ∈ ingested H parse post allowUnsigned moments →
          ∀ sid, Reaches m batch sid →
            Covered post allowUnsigned (ingested H parse post allowUnsigned moments) m sid) := by
  refine ⟨?_, ?_⟩
  · intro batch m _ sessions' hingest sid hchanged
    by_contra hout
    exact hchanged (cloudIngest_frame hingest hout)
  · constructor
    · intro hauth batch m hmem sid hreach
      exact (authenticated_iff_covered m sid).mp (hauth batch m hmem sid hreach)
    · intro hcovered batch m hmem sid hreach
      exact (authenticated_iff_covered m sid).mpr (hcovered batch m hmem sid hreach)

/-! ## 5. Three requests that get past the check -/

namespace Sample

def webhookRow (id : String) (appSecret webhookSecret : Option String) : SessionRow :=
  ⟨id, .cloud, none, some "106", none, none, appSecret.map .ok, webhookSecret.map .ok⟩

/-- A session of the other provider: its bodies are signed under its webhook secret. -/
def kapsoRow : SessionRow := webhookRow "k" none (some "hook")

def openRow : SessionRow := webhookRow "a" none none

def securedRow : SessionRow := webhookRow "b" (some "app") none

def session : CloudSession := ⟨none, false, [], [], 0⟩

/-- The table does not change. -/
def steady : Moments := ⟨.ok [kapsoRow], .ok [kapsoRow], .ok [kapsoRow], fun _ => some session, 7⟩

/-- The number moves from one session to another between the check and the batch. -/
def moved : Moments := ⟨.ok [openRow], .ok [openRow], .ok [securedRow], fun _ => some session, 7⟩

/-- The session gets its secret between the check and the batch. -/
def secured : Moments :=
  ⟨.ok [openRow], .ok [openRow], .ok [webhookRow "a" (some "app") none], fun _ => some session, 7⟩

def forged : WebhookBatch :=
  ⟨"106", [⟨"wamid.1", "15550001".toList, 7, ⟨"text", some "hi", ""⟩⟩], [], []⟩

/-- A body without a signature, where unsigned bodies are allowed. -/
def unsigned : Post := ⟨.metaCloud, ⟨none, none⟩, []⟩

def handed (m : Moments) : List (WebhookBatch × Moments) :=
  ingested (Hashing.ofTable [] [] []) (fun _ _ => .ok [forged]) unsigned true fun _ => m

/-- The batch is ingested, the session has a new message, and nothing vouched for it. -/
def Forged (m : Moments) (sid : String) : Prop :=
  (forged, m) ∈ handed m ∧ Reaches m forged sid ∧
    (∃ sessions', cloudIngest m forged = .ok sessions' ∧
      (sessions' sid).map (fun s => s.rows.length) = some 1 ∧
      (m.sessions sid).map (fun s => s.rows.length) = some 0) ∧
    ¬Authenticated (Hashing.ofTable [] [] []) unsigned true (handed m) m sid

theorem forged_steady : Forged steady "k" := by
  refine ⟨List.mem_singleton.mpr rfl, ⟨rfl, session, rfl, rfl⟩, ⟨_, rfl, by decide, by decide⟩, ?_⟩
  rintro ⟨creds, hcreds, hauth⟩
  cases hcreds
  cases hauth.2

/-- Without a signature no secret is verified. -/
theorem not_verified (m : Moments) (secret : String) :
    ¬VerifiedUnder (Hashing.ofTable [] [] []) unsigned (handed m) secret :=
  fun h => nomatch h.2

theorem forged_moved : Forged moved "b" := by
  refine ⟨List.mem_singleton.mpr rfl, ⟨rfl, session, rfl, rfl⟩, ⟨_, rfl, by decide, by decide⟩, ?_⟩
  rintro ⟨creds, hcreds, hauth⟩
  cases hcreds
  exact not_verified moved "app" hauth

theorem forged_secured : Forged secured "a" := by
  refine ⟨List.mem_singleton.mpr rfl, ⟨rfl, session, rfl, rfl⟩, ⟨_, rfl, by decide, by decide⟩, ?_⟩
  rintro ⟨creds, hcreds, hauth⟩
  cases hcreds
  exact not_verified secured "app" hauth

end Sample

/-- A body that nobody signed reaches a session with a secret of the other provider; one that its
    number moved to after the check; and one that got its secret then. -/
theorem webhook_forged : Sample.Forged Sample.steady "k" ∧ Sample.Forged Sample.moved "b" ∧
    Sample.Forged Sample.secured "a" :=
  ⟨Sample.forged_steady, Sample.forged_moved, Sample.forged_secured⟩

end Ruwa.Cloud
