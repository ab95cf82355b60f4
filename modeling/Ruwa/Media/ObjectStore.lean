/-
  File:      Ruwa/Media/ObjectStore.lean
  Subject:   THE OBJECT STORE FOR MEDIA (`media.rs`): `S3Config`, the SigV4 signer, `s3_put_signed` and
             `put_object`.

  Three texts name one object: the URL that is put to, the path that is signed, and the URL that is
  given back. The second is percent-encoded; the first is the endpoint with the second behind it; the
  third is the endpoint with bucket and key as they are. Texts are byte strings (UTF-8).

  * `canonicalUri_inj` -- no two objects are signed under one path;
  * `put_path_iff` -- a client puts to the path that is signed exactly when nothing of the endpoint
    stays in the path and neither bucket nor key has a part that is a dot or two;
  * `returned_iff` -- then the URL that is given back is one of the object exactly when bucket and
    key stand for themselves in a URL;
  * **`one_object_iff`** -- both together.
-/
import Ruwa.Crypto.Primitives
import Ruwa.Library.Url

namespace Ruwa.Media

open Ruwa.Library
open Ruwa.Library.Percent
open Ruwa.Library.Url
open Ruwa.Crypto (Hashing)

/-! ## 1. The configuration -/

structure S3Config where
  endpoint : Bytes
  bucket : Bytes
  region : Bytes
  accessKey : Bytes
  secretKey : Bytes
  publicBaseUrl : Option Bytes
  deriving Repr, DecidableEq

/-- `trim_end_matches('/')` -/
def trimEndSlashes (bs : Bytes) : Bytes := bs.rdropWhile fun b => b = 47

section Vars

variable (get : String → Option Bytes)

def optional (k : String) : Option Bytes := (get k).filter fun v => !v.isEmpty

def required (k : String) : Except String Bytes :=
  match optional get k with
  | some v => .ok v
  | none => .error s!"{k} is required for RUWA_MEDIA_STORE=s3"

def S3Config.fromVars : Except String (Option S3Config) :=
  if (get "RUWA_MEDIA_STORE").getD [] ≠ utf8 "s3" then .ok none
  else do
    let endpoint ← required get "RUWA_S3_ENDPOINT"
    let bucket ← required get "RUWA_S3_BUCKET"
    let accessKey ← required get "RUWA_S3_ACCESS_KEY"
    let secretKey ← required get "RUWA_S3_SECRET_KEY"
    return some { endpoint := trimEndSlashes endpoint
                  bucket
                  region := (optional get "RUWA_S3_REGION").getD (utf8 "us-east-1")
                  accessKey
                  secretKey
                  publicBaseUrl := (optional get "RUWA_S3_PUBLIC_BASE_URL").map trimEndSlashes }

end Vars

/-- The URL that is given to others. -/
def S3Config.objectUrl (cfg : S3Config) (key : Bytes) : Bytes :=
  match cfg.publicBaseUrl with
  | some base => base ++ 47 :: key
  | none => cfg.endpoint ++ 47 :: cfg.bucket ++ 47 :: key

/-! ## 2. The signer -/

section Sign

variable (H : Hashing)

def sha256Hex (data : Bytes) : Bytes := utf8 (String.ofList (Text.hexEncode (H.sha256 data).bytes))

def hmacSha256 (key msg : Bytes) : Bytes := (H.hmac key msg).bytes

structure AwsCreds where
  accessKey : Bytes
  secretKey : Bytes
  region : Bytes
  service : Bytes

/-- `v.trim()` -/
def trimValue (v : Bytes) : Bytes :=
  match ofUtf8? v with
  | some s => utf8 (String.ofList (Text.trim s.toList))
  | none => v

def joinWith (sep : UInt8) (parts : List Bytes) : Bytes := List.intercalate [sep] parts

/-- The `Authorization` header of a request. -/
def sigv4Authorization (creds : AwsCreds) (method canonicalUri canonicalQuery : Bytes)
    (headers : List (String × Bytes)) (payloadSha256Hex amzDate : Bytes) : Bytes :=
  let hs := headers.mergeSort fun a b => decide (a.1 ≤ b.1)
  let canonicalHeaders := hs.flatMap fun h => utf8 h.1 ++ 58 :: trimValue h.2 ++ [10]
  let signedHeaders := joinWith 59 (hs.map fun h => utf8 h.1)
  let canonicalRequest := joinWith 10
    [method, canonicalUri, canonicalQuery, canonicalHeaders, signedHeaders, payloadSha256Hex]
  let date := amzDate.take 8
  let scope := joinWith 47 [date, creds.region, creds.service, utf8 "aws4_request"]
  let stringToSign := joinWith 10
    [utf8 "AWS4-HMAC-SHA256", amzDate, scope, sha256Hex H canonicalRequest]
  let kDate := hmacSha256 H (utf8 "AWS4" ++ creds.secretKey) date
  let kRegion := hmacSha256 H kDate creds.region
  let kService := hmacSha256 H kRegion creds.service
  let kSigning := hmacSha256 H kService (utf8 "aws4_request")
  let signature := utf8 (String.ofList (Text.hexEncode (hmacSha256 H kSigning stringToSign)))
  utf8 "AWS4-HMAC-SHA256 Credential=" ++ creds.accessKey ++ 47 :: scope ++ utf8 ", SignedHeaders=" ++
    signedHeaders ++ utf8 ", Signature=" ++ signature

end Sign

/-! ## 3. The upload -/

def keepByte (keepSlash : Bool) (b : UInt8) : Bool := unreserved b || (keepSlash && b = 47)

def uriEncode (s : Bytes) (keepSlash : Bool) : Bytes := escape (keepByte keepSlash) s

/-- `/{bucket}/{key}` -/
def canonicalUri (bucket key : Bytes) : Bytes := 47 :: uriEncode bucket false ++ 47 :: uriEncode key true

/-- `host[:port]` -/
def hostHeader (u : Parsed) : Bytes :=
  match u.host, u.port with
  | some h, some p => h ++ 58 :: utf8 (toString p)
  | some h, none => h
  | none, _ => []

/-- The host that is signed. -/
def endpointHost (parse : Bytes → Option Parsed) (endpoint : Bytes) : Bytes :=
  match parse endpoint with
  | some u => hostHeader u
  | none => []

section Put

variable (P : Parser) (H : Hashing)

/-- The URL and the headers of a signed PUT. -/
def s3PutSigned (cfg : S3Config) (key body contentType amzDate : Bytes) :
    Bytes × List (String × Bytes) :=
  let payloadHash := sha256Hex H body
  let uri := canonicalUri cfg.bucket key
  let headers := [("host", endpointHost P.parse cfg.endpoint), ("content-type", contentType),
    ("x-amz-content-sha256", payloadHash), ("x-amz-date", amzDate)]
  let auth := sigv4Authorization H ⟨cfg.accessKey, cfg.secretKey, cfg.region, utf8 "s3"⟩ (utf8 "PUT")
    uri [] headers payloadHash amzDate
  (cfg.endpoint ++ uri, headers ++ [("authorization", auth)])

inductive MediaError
  | aes
  deriving Repr, DecidableEq

/-- The client reads the URL before it sends; what it is answered is the status. -/
def putObject (send : Parsed → List (String × Bytes) → Bytes → Option Nat) (cfg : S3Config)
    (key body contentType amzDate : Bytes) : Except MediaError Bytes :=
  let put := s3PutSigned P H cfg key body contentType amzDate
  match (P.parse put.1).bind fun u => send u put.2 body with
  | some status => if 200 ≤ status ∧ status < 300 then .ok (cfg.objectUrl key) else .error .aes
  | none => .error .aes

end Put

/-! ## 4. What is signed -/

theorem unreserved_bounds : ∀ b : UInt8, unreserved b = true →
    32 < b ∧ b ≠ 37 ∧ b ≠ 47 ∧ b ≠ 63 ∧ b ≠ 35 ∧ b ≠ 92 := forall_byte (by decide +kernel)

theorem keepByte_percent (keepSlash : Bool) : keepByte keepSlash 37 = false := by
  cases keepSlash <;> decide

theorem mem_uriEncode {s : Bytes} {keepSlash : Bool} {b : UInt8} (h : b ∈ uriEncode s keepSlash) :
    unreserved b = true ∨ b = 37 ∨ (keepSlash = true ∧ b = 47) := by
  rcases mem_escape h with ⟨hkeep, -⟩ | rfl | hplain
  · rw [keepByte, Bool.or_eq_true, Bool.and_eq_true] at hkeep
    rcases hkeep with hplain | ⟨hslash, heq⟩
    · exact .inl hplain
    · exact .inr (.inr ⟨hslash, of_decide_eq_true heq⟩)
  · exact .inr (.inl rfl)
  · exact .inl hplain

/-- The slash of a bucket is escaped. -/
theorem slash_notMem_uriEncode (s : Bytes) : 47 ∉ uriEncode s false := by
  intro h
  rcases mem_uriEncode h with hplain | heq | ⟨hslash, -⟩
  · exact (unreserved_bounds 47 hplain).2.2.1 rfl
  · exact absurd heq (by decide)
  · cases hslash

/-- Nothing that is signed means anything else in a URL. -/
theorem mem_canonicalUri {bucket key : Bytes} {b : UInt8} (h : b ∈ canonicalUri bucket key) :
    32 < b ∧ b ≠ 63 ∧ b ≠ 35 ∧ b ≠ 92 := by
  have hencoded : ∀ {s : Bytes} {keepSlash : Bool}, b ∈ uriEncode s keepSlash →
      32 < b ∧ b ≠ 63 ∧ b ≠ 35 ∧ b ≠ 92 := by
    intro s keepSlash h
    rcases mem_uriEncode h with hplain | rfl | ⟨-, rfl⟩
    · obtain ⟨hlt, -, -, h63, h35, h92⟩ := unreserved_bounds b hplain
      exact ⟨hlt, h63, h35, h92⟩
    · decide
    · decide
  rw [canonicalUri, List.cons_append, List.mem_cons, List.mem_append, List.mem_cons] at h
  rcases h with rfl | h | rfl | h
  · decide
  · exact hencoded h
  · decide
  · exact hencoded h

/-- **No two objects are signed under one path.** -/
theorem canonicalUri_inj {bucket key bucket' key' : Bytes}
    (h : canonicalUri bucket key = canonicalUri bucket' key') : bucket = bucket' ∧ key = key' := by
  obtain ⟨hbucket, hkey⟩ := divided_inj (slash_notMem_uriEncode bucket) (slash_notMem_uriEncode bucket')
    (List.cons.inj h).2
  exact ⟨escape_inj (keepByte_percent false) hbucket, escape_inj (keepByte_percent true) hkey⟩

/-! ## 5. The path that is put to -/

/-- A dot or two. -/
def isDotSegment (s : Bytes) : Bool := s = [46] || s = [46, 46]

/-- No part of the path of the object is a dot or two. -/
def NoDots (bucket key : Bytes) : Prop := ∀ s ∈ bucket :: key.splitOn 47, isDotSegment s = false

instance (bucket key : Bytes) : Decidable (NoDots bucket key) :=
  inferInstanceAs (Decidable (∀ s ∈ bucket :: key.splitOn 47, isDotSegment s = false))

/-- The endpoint is an origin, with nothing behind it or a path of which nothing stays. -/
structure Plain (P : Parser) (endpoint origin rest : Bytes) (base : Parsed) : Prop where
  text : endpoint = origin ++ rest
  isOrigin : IsOrigin P.parse P.keep origin base
  behind : rest = [] ∨ ∃ b bs, rest = b :: bs ∧ isSeparator b = true
  query : 63 ∉ rest
  fragment : 35 ∉ rest
  nothing : entered P.keep (squeeze rest) = []

def PlainEndpoint (P : Parser) (endpoint : Bytes) : Prop :=
  ∃ origin rest base, Plain P endpoint origin rest base

/-- **The parts of the path that is signed.** -/
theorem segments_uriEncode (key : Bytes) :
    segments (uriEncode key true) = (key.splitOn 47).map fun s => uriEncode s false := by
  have hpiece : ∀ b : UInt8, ∀ c ∈ uriEncode [b] false, isSeparator c = false := by
    intro b c hc
    rcases mem_uriEncode hc with hplain | rfl | ⟨hslash, -⟩
    · obtain ⟨-, -, h47, -, -, h92⟩ := unreserved_bounds c hplain
      simp [isSeparator, h47, h92]
    · decide
    · cases hslash
  induction key with
  | nil => rfl
  | cons b key ih =>
      rw [List.splitOn_cons_eq_if_modifyHead]
      by_cases hb : b = 47
      · have hcons : uriEncode (b :: key) true = b :: uriEncode key true :=
          escape_cons_pos (by rw [hb]; decide) key
        rw [hcons, if_pos (by simpa using hb), List.map_cons, ← ih]
        have happend := segments_append [] (uriEncode key true) (by rw [hb]; decide : isSeparator b = true)
        exact happend
      · have hsame : uriEncode (b :: key) true = uriEncode [b] false ++ uriEncode key true := by
          have hkeep : keepByte true b = keepByte false b := by simp [keepByte, hb]
          simp [uriEncode, escape, hkeep]
        obtain ⟨s, segs, heq⟩ := List.exists_cons_of_ne_nil (List.splitOn_ne_nil 47 key)
        rw [hsame, segments_front (hpiece b), ih, if_neg (by simpa using hb), heq, List.map_cons,
          List.modifyHead_cons, List.modifyHead_cons, List.map_cons]
        simp [uriEncode, escape]

theorem segments_canonicalUri (bucket key : Bytes) :
    segments (uriEncode bucket false ++ 47 :: uriEncode key true) =
      (bucket :: key.splitOn 47).map fun s => uriEncode s false := by
  have hbucket : segments (uriEncode bucket false) = [uriEncode bucket false] := by
    refine List.splitOnP_eq_singleton fun b hb => ?_
    have hslash : b ≠ 47 := fun h => slash_notMem_uriEncode bucket (h ▸ hb)
    rcases mem_uriEncode hb with hplain | rfl | ⟨-, rfl⟩
    · simp [isSeparator, hslash, (unreserved_bounds b hplain).2.2.2.2.2]
    · decide
    · exact absurd rfl hslash
  rw [segments_append _ _ (by decide), hbucket, segments_uriEncode]
  rfl

/-- It is written with them. -/
theorem render_canonicalUri (bucket key : Bytes) :
    render ((bucket :: key.splitOn 47).map fun s => uriEncode s false) = canonicalUri bucket key := by
  rw [← segments_canonicalUri]
  refine render_segments_of_notMem fun h => ?_
  have hmem : 92 ∈ canonicalUri bucket key := List.mem_cons_of_mem 47 h
  exact (mem_canonicalUri hmem).2.2.2 rfl

/-- A part is dots in a URL exactly when it was before it was encoded. -/
theorem isDots_uriEncode {s : Bytes} : IsDots (uriEncode s false) ↔ isDotSegment s = true := by
  constructor
  · have hread : ∀ n, dotCount (uriEncode s false) = some n → s = List.replicate n 46 := by
      intro n hn
      rw [← unescape_of_dotCount hn]
      exact (unescape_escape (keepByte_percent false) s).symm
    rintro (h | h)
    · rw [hread 1 h]
      rfl
    · rw [hread 2 h]
      rfl
  · intro h
    rcases Bool.or_eq_true_iff.mp h with h | h
    · rw [of_decide_eq_true h]
      decide
    · rw [of_decide_eq_true h]
      decide

variable {P : Parser}

/-- No slash comes in by escaping. -/
theorem slash_notMem_escape {keep : UInt8 → Bool} {s : Bytes} (h : 47 ∉ s) : 47 ∉ escape keep s := by
  intro hmem
  rcases mem_escape hmem with ⟨-, hin⟩ | heq | hplain
  · exact h hin
  · exact absurd heq (by decide)
  · exact (unreserved_bounds 47 hplain).2.2.1 rfl

/-- What is signed is not escaped again. -/
theorem escape_uriEncode (s : Bytes) : escape P.keep (uriEncode s false) = uriEncode s false := by
  refine escape_of_all fun b hb => ?_
  rcases mem_uriEncode hb with hplain | rfl | ⟨hslash, -⟩
  · exact P.keep_plain b hplain
  · exact P.keep_percent
  · cases hslash

/-- **A path behind a stack is the one that is signed exactly when** there is no stack and no part
    of it is a dot or two. -/
theorem resolve_canonicalUri_iff {front bucket key : Bytes} :
    render (resolve P.keep (entered P.keep front)
        ((bucket :: key.splitOn 47).map fun s => uriEncode s false)).reverse =
      canonicalUri bucket key ↔ entered P.keep front = [] ∧ NoDots bucket key := by
  have hparts : ∀ s ∈ (bucket :: key.splitOn 47).map (fun s => uriEncode s false), 47 ∉ s := by
    intro s hs
    obtain ⟨t, -, rfl⟩ := List.mem_map.mp hs
    exact slash_notMem_uriEncode t
  have hplain : NoDots bucket key →
      ∀ s ∈ (bucket :: key.splitOn 47).map (fun s => uriEncode s false), ¬IsDots s := by
    intro hdots s hs hdot
    obtain ⟨t, ht, rfl⟩ := List.mem_map.mp hs
    exact absurd (isDots_uriEncode.mp hdot) (by rw [hdots t ht]; exact Bool.false_ne_true)
  have hkept : ((bucket :: key.splitOn 47).map fun s => uriEncode s false).map (escape P.keep) =
      (bucket :: key.splitOn 47).map fun s => uriEncode s false := by
    rw [List.map_map]
    exact List.map_congr_left fun s _ => escape_uriEncode s
  rw [← render_canonicalUri]
  constructor
  · intro h
    have hsegs := render_inj ?_ hparts h
    · have hno : NoDots bucket key := by
        intro s hs
        by_contra hdot
        -- a part that is dots would have to stand in the path that was resolved
        have hmem : uriEncode s false ∈ (resolve P.keep (entered P.keep front)
            ((bucket :: key.splitOn 47).map fun s => uriEncode s false)).reverse := by
          rw [hsegs]
          exact List.mem_map_of_mem hs
        have hisdots := isDots_uriEncode.mpr (Bool.of_not_eq_false hdot)
        have hkeepdot := P.keep_plain 46 (by decide)
        rcases mem_resolve (List.mem_reverse.mp hmem) with hstack | hnil | ⟨t, -, hplain', heq⟩
        · obtain ⟨t, -, hplain', heq⟩ := mem_entered hstack
          rw [heq] at hisdots
          exact hplain' (isDots_escape hkeepdot hisdots)
        · rw [hnil] at hisdots
          exact absurd hisdots (by decide)
        · rw [heq] at hisdots
          exact hplain' (isDots_escape hkeepdot hisdots)
      refine ⟨?_, hno⟩
      have hlength := congrArg List.length hsegs
      rw [resolve_plain (hplain hno), hkept, List.reverse_append, List.reverse_reverse,
        List.length_append, List.length_reverse] at hlength
      have hempty : (entered P.keep front).length = 0 := by omega
      exact List.eq_nil_of_length_eq_zero hempty
    · intro s hs
      rcases mem_resolve (List.mem_reverse.mp hs) with hstack | rfl | ⟨t, ht, -, rfl⟩
      · obtain ⟨t, ht, -, rfl⟩ := mem_entered hstack
        exact slash_notMem_escape (not_mem_segment ht).1
      · exact List.not_mem_nil
      · exact slash_notMem_escape (hparts t ht)
  · rintro ⟨hnil, hno⟩
    rw [hnil, resolve_plain (hplain hno), hkept, List.append_nil, List.reverse_reverse]

/-! ## 6. The upload -/

/-- The client puts to the path that is signed, on the host that is signed. -/
structure PutsTo (P : Parser) (endpoint bucket key : Bytes) (u : Parsed) : Prop where
  read : P.parse (endpoint ++ canonicalUri bucket key) = some u
  http : u.IsHttp
  path : u.path = canonicalUri bucket key
  query : u.query = none
  fragment : u.fragment = none
  host : endpointHost P.parse endpoint = hostHeader u

theorem hostHeader_of_sameOrigin {u v : Parsed} (h : u.SameOrigin v) : hostHeader u = hostHeader v := by
  rw [hostHeader, hostHeader, h.host, h.port]

theorem isHttp_of_sameOrigin {u v : Parsed} (h : u.SameOrigin v) (hv : v.IsHttp) : u.IsHttp :=
  ⟨by rw [h.scheme]; exact hv.scheme, by rw [h.host]; exact hv.host⟩

theorem isRest_of_behind {rest : Bytes} (h : rest = [] ∨ ∃ b bs, rest = b :: bs ∧ isSeparator b = true)
    (bs : Bytes) : IsRest rest ∧ IsRest (rest ++ 47 :: bs) := by
  rcases h with rfl | ⟨b, cs, rfl, hsep⟩
  · exact ⟨.inl rfl, .inr ⟨47, bs, rfl, .inl rfl⟩⟩
  · exact ⟨.inr ⟨b, cs, rfl, .inl hsep⟩, .inr ⟨b, cs ++ 47 :: bs, rfl, .inl hsep⟩⟩

/-- What is signed is read as it stands, behind anything. -/
theorem cleaned_canonicalUri (rest bucket key : Bytes) :
    cleaned (rest ++ canonicalUri bucket key) = squeeze rest ++ canonicalUri bucket key := by
  have hsome : ∃ b ∈ canonicalUri bucket key, 32 < b := ⟨47, List.mem_cons_self, by decide⟩
  rw [cleaned_append rest hsome, cleaned_of_all fun b hb => (mem_canonicalUri hb).1]

/-- Where there is neither a query nor a fragment in front of it, the path goes on with it. -/
theorem path_canonicalUri {rest bucket key : Bytes} {u : Parsed}
    (h : u.Reads P.keep (rest ++ canonicalUri bucket key)) :
    (u.query = none ∧ u.fragment = none ↔ 63 ∉ rest ∧ 35 ∉ rest) ∧
      (63 ∉ rest → 35 ∉ rest →
        u.path = render (resolve P.keep (entered P.keep (squeeze rest))
          ((bucket :: key.splitOn 47).map fun s => uriEncode s false)).reverse) := by
  have hnot : ∀ b : UInt8, 32 < b → b = 63 ∨ b = 35 →
      (b ∉ squeeze rest ++ canonicalUri bucket key ↔ b ∉ rest) := by
    intro b hb hor
    rw [List.mem_append, mem_squeeze hb, not_or, and_iff_left_iff_imp]
    intro _ hmem
    have hother := mem_canonicalUri hmem
    exact hor.elim hother.2.1 hother.2.2.1
  obtain ⟨hnone, hpath⟩ := h.plain
  rw [cleaned_canonicalUri, hnot 63 (by decide) (.inl rfl), hnot 35 (by decide) (.inr rfl)]
    at hnone hpath
  refine ⟨hnone, fun hq hf => ?_⟩
  rw [hpath hq hf, canonicalUri, List.cons_append, pathOf_append, segments_canonicalUri]

/-- A plain endpoint is read with the host that is signed, with and without a path behind it. -/
theorem Plain.host {endpoint origin rest : Bytes} {base : Parsed} (h : Plain P endpoint origin rest base) :
    endpointHost P.parse endpoint = hostHeader base := by
  obtain ⟨hrest, -⟩ := isRest_of_behind h.behind []
  have htotal := h.isOrigin.total rest hrest ((mem_cleaned (by decide)).not.mpr h.query)
    ((mem_cleaned (by decide)).not.mpr h.fragment)
  obtain ⟨u, hu⟩ := Option.isSome_iff_exists.mp htotal
  rw [endpointHost, h.text, hu]
  exact hostHeader_of_sameOrigin (h.isOrigin.reads rest u hrest hu).1

/-- Behind a plain endpoint, the path that is put to is the one that is signed but for dots. -/
theorem Plain.path_iff {endpoint origin rest bucket key : Bytes} {base u : Parsed}
    (h : Plain P endpoint origin rest base)
    (hread : P.parse (endpoint ++ canonicalUri bucket key) = some u) :
    u.path = canonicalUri bucket key ↔ NoDots bucket key := by
  have hrest : IsRest (rest ++ canonicalUri bucket key) := (isRest_of_behind h.behind _).2
  rw [h.text, List.append_assoc] at hread
  obtain ⟨-, hpath⟩ := path_canonicalUri (h.isOrigin.reads _ u hrest hread).2
  rw [hpath h.query h.fragment, resolve_canonicalUri_iff, h.nothing]
  exact and_iff_right rfl

theorem Plain.putsTo {endpoint origin rest bucket key : Bytes} {base : Parsed}
    (h : Plain P endpoint origin rest base) (hdots : NoDots bucket key) :
    ∃ u, PutsTo P endpoint bucket key u ∧ u.SameOrigin base := by
  have hrest : IsRest (rest ++ canonicalUri bucket key) := (isRest_of_behind h.behind _).2
  have hnot : ∀ b : UInt8, 32 < b → b ∉ rest → b ∉ canonicalUri bucket key →
      b ∉ cleaned (rest ++ canonicalUri bucket key) := by
    intro b hb hno hno'
    rw [mem_cleaned hb, List.mem_append, not_or]
    exact ⟨hno, hno'⟩
  have htotal := h.isOrigin.total _ hrest
    (hnot 63 (by decide) h.query fun hmem => (mem_canonicalUri hmem).2.1 rfl)
    (hnot 35 (by decide) h.fragment fun hmem => (mem_canonicalUri hmem).2.2.1 rfl)
  obtain ⟨u, hu⟩ := Option.isSome_iff_exists.mp htotal
  obtain ⟨hsame, hreads⟩ := h.isOrigin.reads _ u hrest hu
  obtain ⟨hq, hf⟩ := (path_canonicalUri hreads).1.mpr ⟨h.query, h.fragment⟩
  have hread : P.parse (endpoint ++ canonicalUri bucket key) = some u := by
    rw [h.text, List.append_assoc]
    exact hu
  refine ⟨u, ⟨hread, isHttp_of_sameOrigin hsame h.isOrigin.http, (h.path_iff hread).mpr hdots, hq, hf,
    ?_⟩, hsame⟩
  rw [h.host, hostHeader_of_sameOrigin hsame]

/-- An origin that has some of what is signed leaves too little for the path. -/
theorem origin_of_path {origin rest endpoint bucket key : Bytes} {u : Parsed}
    (heq : endpoint ++ canonicalUri bucket key = origin ++ rest) (hrest : IsRest rest)
    (hreads : u.Reads P.keep rest) (hpath : u.path = canonicalUri bucket key) :
    ∃ behind, endpoint = origin ++ behind ∧ rest = behind ++ canonicalUri bucket key := by
  rcases List.append_eq_append_iff.mp heq with ⟨front, horigin, huri⟩ | ⟨behind, hendpoint, hsplit⟩
  · cases front with
    | nil =>
        rw [List.append_nil] at horigin
        exact ⟨[], by rw [horigin, List.append_nil], huri.symm⟩
    | cons c front =>
        exfalso
        have hmem : ∀ {b}, b ∈ rest → b ∈ canonicalUri bucket key := by
          intro b hb
          rw [huri]
          exact List.mem_append_right _ hb
        have hclean : cleaned rest = rest := cleaned_of_all fun b hb => (mem_canonicalUri (hmem hb)).1
        have hplain : u.path = pathOf P.keep rest := by
          have hall := hreads.plain.2
          rw [hclean] at hall
          exact hall (fun hb => (mem_canonicalUri (hmem hb)).2.1 rfl)
            (fun hb => (mem_canonicalUri (hmem hb)).2.2.1 rfl)
        obtain ⟨rfl, hfront⟩ := List.cons.inj huri
        cases rest with
        | nil =>
            -- the path of an origin alone is one slash
            have hlength := congrArg List.length (hplain.symm.trans hpath)
            simp [pathOf, canonicalUri] at hlength
        | cons b rest =>
            have hslash : b = 47 := by
              have hother := mem_canonicalUri (hmem List.mem_cons_self)
              rcases hrest with hnil | ⟨b', bs, hcons, hend⟩
              · exact absurd hnil (trimEnd_ne_nil ⟨b, List.mem_cons_self, hother.1⟩)
              · cases hcons
                rcases hend with hsep | h63 | h35
                · rcases Bool.or_eq_true_iff.mp hsep with h | h
                  · exact of_decide_eq_true h
                  · exact absurd (of_decide_eq_true h) hother.2.2.2
                · exact absurd h63 hother.2.1
                · exact absurd h35 hother.2.2.1
            subst hslash
            have hslashes : 92 ∉ rest := fun h =>
              (mem_canonicalUri (hmem (List.mem_cons_of_mem 47 h))).2.2.2 rfl
            have hread : (unescape (canonicalUri bucket key)).length ≤ (unescape (47 :: rest)).length := by
              have hrender := render_segments_of_notMem hslashes
              have hweight := (weight_resolve P.keep_plain P.keep_percent [] (segments rest)).1
              rw [← hpath, hplain, pathOf, length_unescape_render, weight_reverse, ← hrender,
                length_unescape_render]
              exact Nat.le_trans hweight (Nat.le_of_eq (Nat.zero_add _))
            rw [huri, List.cons_append, unescape_slash, unescape_append (by decide) (by decide),
              unescape_slash] at hread
            simp only [List.length_cons, List.length_append] at hread
            omega
  · exact ⟨behind, hendpoint, hsplit⟩

/-- **A client puts to the path that is signed exactly when** nothing of the endpoint stays in the
    path, and no part of the path is a dot or two. -/
theorem putsTo_iff {endpoint bucket key : Bytes} :
    (∃ u, PutsTo P endpoint bucket key u) ↔ PlainEndpoint P endpoint ∧ NoDots bucket key := by
  constructor
  · rintro ⟨u, h⟩
    obtain ⟨origin, rest, base, heq, hrest, horigin⟩ := P.splits h.read h.http
    have hread := h.read
    rw [heq] at hread
    have hreads := (horigin.reads rest u hrest hread).2
    obtain ⟨behind, hendpoint, rfl⟩ := origin_of_path heq hrest hreads h.path
    obtain ⟨hnone, hpath⟩ := path_canonicalUri hreads
    obtain ⟨hq, hf⟩ := hnone.mp ⟨h.query, h.fragment⟩
    have hresolve := (hpath hq hf).symm.trans h.path
    obtain ⟨hnothing, hdots⟩ := resolve_canonicalUri_iff.mp hresolve
    refine ⟨⟨origin, behind, base, hendpoint, horigin, ?_, hq, hf, hnothing⟩, hdots⟩
    rcases hrest with hnil | ⟨b, bs, hcons, hend⟩
    · exact absurd hnil (trimEnd_ne_nil ⟨47, List.mem_append_right _ List.mem_cons_self, by decide⟩)
    · cases behind with
      | nil => exact .inl rfl
      | cons c behind =>
          obtain ⟨rfl, -⟩ := List.cons.inj hcons
          rcases hend with hsep | rfl | rfl
          · exact .inr ⟨c, behind, rfl, hsep⟩
          · exact absurd List.mem_cons_self hq
          · exact absurd List.mem_cons_self hf
  · rintro ⟨⟨origin, rest, base, hplain⟩, hdots⟩
    obtain ⟨u, hu, -⟩ := hplain.putsTo hdots
    exact ⟨u, hu⟩

/-! ## 7. The URL that is given back -/

/-- The path of the URL spells the object, and nothing of it is a query or a fragment. -/
structure Addresses (u : Parsed) (bucket key : Bytes) : Prop where
  query : u.query = none
  fragment : u.fragment = none
  path : ∃ s rest, u.path = 47 :: s ++ 47 :: rest ∧ 47 ∉ s ∧ unescape s = bucket ∧ unescape rest = key

/-- Bucket and key mean themselves in a URL. -/
structure Literal (bucket key : Bytes) : Prop where
  slash : 47 ∉ bucket
  marks : ∀ b ∈ bucket ++ key, b ≠ 63 ∧ b ≠ 35 ∧ b ≠ 92
  bucketStays : squeeze bucket = bucket
  keyStays : cleaned key = key
  escapes : ¬HasEscape bucket ∧ ¬HasEscape key

/-- What a parser sees of `/{bucket}/{key}`. -/
theorem cleaned_object (rest bucket key : Bytes) :
    cleaned (rest ++ 47 :: (bucket ++ 47 :: key)) =
      squeeze rest ++ 47 :: (squeeze bucket ++ 47 :: cleaned key) := by
  have hslash : ∃ b ∈ (47 : UInt8) :: (bucket ++ 47 :: key), 32 < b :=
    ⟨47, List.mem_cons_self, by decide⟩
  have hslash' : ∃ b ∈ (47 : UInt8) :: key, 32 < b := ⟨47, List.mem_cons_self, by decide⟩
  rw [cleaned_append rest hslash, cleaned_cons (by decide), cleaned_append bucket hslash',
    cleaned_cons (by decide)]

/-- The text behind the first slash of the path. -/
theorem path_object {rest bucket key : Bytes} {u : Parsed}
    (hnothing : entered P.keep (squeeze rest) = [])
    (h : u.Reads P.keep (rest ++ 47 :: (bucket ++ 47 :: key)))
    (hq : 63 ∉ rest ++ 47 :: (bucket ++ 47 :: key)) (hf : 35 ∉ rest ++ 47 :: (bucket ++ 47 :: key)) :
    u.path = render (resolve P.keep [] (segments (squeeze bucket ++ 47 :: cleaned key))).reverse := by
  rw [h.plain.2 ((mem_cleaned (by decide)).not.mpr hq) ((mem_cleaned (by decide)).not.mpr hf),
    cleaned_object, pathOf_append, hnothing]

/-- If all of a bucket is read of the first part of a path, it has one part. -/
theorem slash_notMem_of_path {bucket s tail : Bytes} {parts : List Bytes} (hslash : 92 ∉ bucket)
    (hs : 47 ∉ s) (hread : unescape s = bucket) (hparts : parts ≠ [])
    (h : 47 :: (s ++ 47 :: tail) = render ((segments bucket ++ parts).map (escape P.keep))) :
    47 ∉ bucket := by
  obtain ⟨first, more, hfirst⟩ := List.exists_cons_of_ne_nil (segments_ne_nil bucket)
  have hnot : 47 ∉ first := (not_mem_segment (by rw [hfirst]; exact List.mem_cons_self)).1
  have hrender : first ++ render more = bucket := by
    have hall := render_segments_of_notMem hslash
    rw [hfirst, render_cons, List.cons_append] at hall
    exact (List.cons.inj hall).2
  have hdivide : s = escape P.keep first := by
    obtain ⟨bs, hbs⟩ : ∃ bs, render ((more ++ parts).map (escape P.keep)) = 47 :: bs := by
      obtain ⟨part, others, heq⟩ :=
        List.exists_cons_of_ne_nil (List.append_ne_nil_of_right_ne_nil more hparts)
      rw [heq]
      exact ⟨_, rfl⟩
    rw [hfirst, List.cons_append, List.map_cons, render_cons, hbs, List.cons_append] at h
    exact (divided_inj hs (slash_notMem_escape hnot) (List.cons.inj h).2).1
  have hlast : render more = [] := by
    have hle := length_unescape_le first
    have hlength := congrArg List.length hrender
    rw [← hread, hdivide, unescape_escape_keeping P.keep_plain P.keep_percent,
      List.length_append] at hlength
    exact List.eq_nil_of_length_eq_zero (by omega)
  rw [hlast, List.append_nil] at hrender
  rw [← hrender]
  exact hnot

theorem literal_of_addresses {rest bucket key : Bytes} {u : Parsed}
    (hnothing : entered P.keep (squeeze rest) = [])
    (h : u.Reads P.keep (rest ++ 47 :: (bucket ++ 47 :: key))) (haddr : Addresses u bucket key) :
    Literal bucket key := by
  obtain ⟨hq, hf⟩ := h.plain.1.mp ⟨haddr.query, haddr.fragment⟩
  rw [mem_cleaned (by decide)] at hq hf
  have hpath := path_object hnothing h hq hf
  obtain ⟨s, tail, hsplit, hs, hbucket, hkey⟩ := haddr.path
  -- what is read has the length of the object; so nothing of it was lost on the way
  have hlength : (unescape u.path).length = bucket.length + key.length + 2 := by
    rw [hsplit, List.cons_append, unescape_slash, unescape_append (by decide) (by decide), hbucket, hkey]
    simp only [List.length_cons, List.length_append]
    omega
  have htext : total (segments (squeeze bucket ++ 47 :: cleaned key)) =
      (squeeze bucket).length + (cleaned key).length + 2 := by
    rw [← length_render, render_segments]
    simp only [List.length_cons, List.length_map, List.length_append]
    omega
  have hweight := weight_resolve P.keep_plain P.keep_percent []
    (segments (squeeze bucket ++ 47 :: cleaned key))
  have htotal := weight_le_total (segments (squeeze bucket ++ 47 :: cleaned key))
  have hzero : weight [] = 0 := rfl
  have hbucketLength : (squeeze bucket).length ≤ bucket.length := List.length_filter_le _ _
  have hkeyLength := length_cleaned_le key
  rw [hpath, length_unescape_render, weight_reverse] at hlength
  have hbucketLength' : bucket.length ≤ (squeeze bucket).length := by omega
  have hbucketStays : squeeze bucket = bucket := List.filter_sublist.eq_of_length_le hbucketLength'
  have hkeyStays : cleaned key = key := cleaned_eq_self_iff.mpr (by omega)
  rw [hbucketStays, hkeyStays] at hpath
  have hbehind : u.path = 47 :: (s ++ 47 :: tail) := hsplit
  have hread : unescape (s ++ 47 :: tail) = bucket ++ 47 :: key := by
    rw [unescape_append (by decide) (by decide), hbucket, hkey]
  obtain ⟨hnoDots, hslashes, hescape⟩ :=
    @plain_of_read P [] (bucket ++ 47 :: key) _ (hpath.symm.trans hbehind) hread
  rw [resolve_plain hnoDots, List.append_nil, List.reverse_reverse] at hpath
  have hself := unescape_eq_self_iff.mpr hescape
  rw [unescape_append (by decide) (by decide)] at hself
  have hlengths := congrArg List.length hself
  simp only [List.length_append, List.length_cons] at hlengths
  have hbucketLe := length_unescape_le bucket
  have hkeyLe := length_unescape_le key
  have hslashBucket : 47 ∉ bucket := by
    have hboth : 47 :: (s ++ 47 :: tail) =
        render ((segments bucket ++ segments key).map (escape P.keep)) := by
      rw [← segments_append bucket key (by decide : isSeparator 47 = true), ← hpath]
      exact hsplit.symm
    exact slash_notMem_of_path (fun h => hslashes (List.mem_append_left _ h)) hs hbucket
      (segments_ne_nil key) hboth
  refine ⟨hslashBucket, ?_, hbucketStays, hkeyStays, ?_, ?_⟩
  · intro b hb
    have hmem : b ∈ bucket ++ 47 :: key := by
      rcases List.mem_append.mp hb with hb | hb
      · exact List.mem_append_left _ hb
      · exact List.mem_append_right _ (List.mem_cons_of_mem _ hb)
    refine ⟨?_, ?_, ?_⟩
    · rintro rfl
      exact hq (List.mem_append_right _ (List.mem_cons_of_mem _ hmem))
    · rintro rfl
      exact hf (List.mem_append_right _ (List.mem_cons_of_mem _ hmem))
    · rintro rfl
      exact hslashes hmem
  · exact length_unescape_eq.mp (by omega)
  · exact length_unescape_eq.mp (by omega)

/-- Nothing behind the endpoint starts a query or a fragment. -/
theorem Literal.notMem {rest bucket key : Bytes} (h : Literal bucket key) {b : UInt8}
    (hb : b = 63 ∨ b = 35) (hrest : b ∉ rest) : b ∉ rest ++ 47 :: (bucket ++ 47 :: key) := by
  intro hmem
  have hmarks : ∀ c ∈ bucket ++ key, c ≠ b := fun c hc heq => by
    have hother := h.marks c hc
    exact hb.elim (fun h => hother.1 (heq.trans h)) fun h => hother.2.1 (heq.trans h)
  simp only [List.mem_append, List.mem_cons] at hmem hmarks
  rcases hmem with hmem | rfl | hmem | rfl | hmem
  · exact hrest hmem
  · exact absurd hb (by decide)
  · exact hmarks b (.inl hmem) rfl
  · exact absurd hb (by decide)
  · exact hmarks b (.inr hmem) rfl

theorem addresses_of_literal {rest bucket key : Bytes} {u : Parsed} (hdots : NoDots bucket key)
    (hnothing : entered P.keep (squeeze rest) = []) (hq : 63 ∉ rest) (hf : 35 ∉ rest)
    (h : u.Reads P.keep (rest ++ 47 :: (bucket ++ 47 :: key))) (hliteral : Literal bucket key) :
    Addresses u bucket key := by
  have hq' := hliteral.notMem (.inl rfl) hq
  have hf' := hliteral.notMem (.inr rfl) hf
  have hnone := h.plain.1.mpr ⟨(mem_cleaned (by decide)).not.mpr hq', (mem_cleaned (by decide)).not.mpr hf'⟩
  have hpath := path_object hnothing h hq' hf'
  have hslashKey : 92 ∉ key := fun hmem =>
    (hliteral.marks 92 (List.mem_append_right _ hmem)).2.2 rfl
  have hslashBucket : 92 ∉ bucket := fun hmem =>
    (hliteral.marks 92 (List.mem_append_left _ hmem)).2.2 rfl
  have hbucket : segments bucket = [bucket] := by
    refine List.splitOnP_eq_singleton fun b hb => ?_
    have h47 : b ≠ 47 := fun heq => hliteral.slash (heq ▸ hb)
    have h92 : b ≠ 92 := fun heq => hslashBucket (heq ▸ hb)
    simp [isSeparator, h47, h92]
  have hparts : segments (bucket ++ 47 :: key) = bucket :: segments key := by
    rw [segments_append _ _ (by decide), hbucket]
    rfl
  have hplain : ∀ s ∈ segments (bucket ++ 47 :: key), ¬IsDots s := by
    intro s hs hdot
    rw [hparts] at hs
    have hescape : ¬HasEscape s := by
      rcases List.mem_cons.mp hs with rfl | hs
      · exact hliteral.escapes.1
      · exact not_hasEscape_segment hslashKey hliteral.escapes.2 hs
    have hno := hdots s (by rw [← segments_eq_splitOn hslashKey]; exact hs)
    rcases isDots_plain hdot hescape with rfl | rfl
    · cases hno
    · cases hno
  rw [hliteral.bucketStays, hliteral.keyStays, resolve_plain hplain, List.append_nil,
    List.reverse_reverse, hparts, List.map_cons, render_cons] at hpath
  have hkey : unescape (render ((segments key).map (escape P.keep))) = 47 :: key := by
    rw [unescape_render_escape P.keep_plain P.keep_percent, render_segments_of_notMem hslashKey,
      unescape_slash, unescape_eq_self_iff.mpr hliteral.escapes.2]
  obtain ⟨k, ks, hks⟩ := List.exists_cons_of_ne_nil (segments_ne_nil key)
  rw [hks, List.map_cons, render_cons, List.cons_append] at hkey hpath
  rw [unescape_slash] at hkey
  refine ⟨hnone.1, hnone.2, escape P.keep bucket, _, hpath, slash_notMem_escape hliteral.slash, ?_,
    (List.cons.inj hkey).2⟩
  rw [unescape_escape_keeping P.keep_plain P.keep_percent, unescape_eq_self_iff.mpr hliteral.escapes.1]

/-! ## 8. One object -/

/-- The URL that is put to, the path that is signed and the URL that is given back are of one
    object, and no other object is put to this URL. -/
structure OneObject (P : Parser) (H : Hashing) (cfg : S3Config) (key body contentType amzDate : Bytes) :
    Prop where
  put : ∃ u, P.parse (s3PutSigned P H cfg key body contentType amzDate).1 = some u ∧ u.IsHttp ∧
    u.path = canonicalUri cfg.bucket key ∧ u.query = none ∧ u.fragment = none ∧
    ("host", hostHeader u) ∈ (s3PutSigned P H cfg key body contentType amzDate).2
  returned : cfg.publicBaseUrl = none → ∀ send url,
    putObject P H send cfg key body contentType amzDate = .ok url →
    ∃ u w, P.parse (s3PutSigned P H cfg key body contentType amzDate).1 = some u ∧
      P.parse url = some w ∧ w.SameOrigin u ∧ Addresses w cfg.bucket key
  distinct : ∀ bucket' key', (s3PutSigned P H { cfg with bucket := bucket' } key' body contentType
    amzDate).1 = (s3PutSigned P H cfg key body contentType amzDate).1 → bucket' = cfg.bucket ∧ key' = key

variable {H : Hashing} {cfg : S3Config} {key body contentType amzDate : Bytes}

theorem put_iff :
    (∃ u, P.parse (s3PutSigned P H cfg key body contentType amzDate).1 = some u ∧ u.IsHttp ∧
      u.path = canonicalUri cfg.bucket key ∧ u.query = none ∧ u.fragment = none ∧
      ("host", hostHeader u) ∈ (s3PutSigned P H cfg key body contentType amzDate).2) ↔
      ∃ u, PutsTo P cfg.endpoint cfg.bucket key u := by
  refine exists_congr fun u => ?_
  constructor
  · rintro ⟨hread, hhttp, hpath, hq, hf, hhost⟩
    refine ⟨hread, hhttp, hpath, hq, hf, ?_⟩
    simp only [s3PutSigned, List.cons_append, List.nil_append, List.mem_cons, List.not_mem_nil,
      or_false, Prod.mk.injEq, true_and] at hhost
    rcases hhost with h | ⟨h, -⟩ | ⟨h, -⟩ | ⟨h, -⟩ | ⟨h, -⟩
    · exact h.symm
    · exact absurd h (by decide)
    · exact absurd h (by decide)
    · exact absurd h (by decide)
    · exact absurd h (by decide)
  · intro h
    refine ⟨h.read, h.http, h.path, h.query, h.fragment, ?_⟩
    rw [s3PutSigned, h.host]
    exact List.mem_cons_self

theorem putObject_ok {send : Parsed → List (String × Bytes) → Bytes → Option Nat} {url : Bytes}
    (h : putObject P H send cfg key body contentType amzDate = .ok url) : url = cfg.objectUrl key := by
  simp only [putObject] at h
  cases hsent : (P.parse (s3PutSigned P H cfg key body contentType amzDate).1).bind fun u =>
      send u (s3PutSigned P H cfg key body contentType amzDate).2 body with
  | none =>
      rw [hsent] at h
      cases h
  | some status =>
      simp only [hsent] at h
      by_cases hsuccess : 200 ≤ status ∧ status < 300
      · rw [if_pos hsuccess] at h
        exact (Except.ok.inj h).symm
      · rw [if_neg hsuccess] at h
        cases h

/-- **The three are of one object exactly when** the endpoint leaves nothing in the path, no part of
    the path is a dot or two, and, where there is no public URL, bucket and key mean themselves in a
    URL. -/
theorem one_object_iff (P : Parser) (H : Hashing) (cfg : S3Config)
    (key body contentType amzDate : Bytes) :
    OneObject P H cfg key body contentType amzDate ↔
      PlainEndpoint P cfg.endpoint ∧ NoDots cfg.bucket key ∧
        (cfg.publicBaseUrl = none → Literal cfg.bucket key) := by
  have hobject : cfg.publicBaseUrl = none → ∀ origin rest, cfg.endpoint = origin ++ rest →
      cfg.objectUrl key = origin ++ (rest ++ 47 :: (cfg.bucket ++ 47 :: key)) := by
    intro hpublic origin rest htext
    rw [S3Config.objectUrl, hpublic, htext]
    simp only [List.append_assoc, List.cons_append]
  constructor
  · rintro ⟨hput, hreturned, -⟩
    obtain ⟨⟨origin, rest, base, hplain⟩, hdots⟩ := putsTo_iff.mp (put_iff.mp hput)
    refine ⟨⟨origin, rest, base, hplain⟩, hdots, fun hpublic => ?_⟩
    obtain ⟨u, hread, -⟩ := hput
    have hok : putObject P H (fun _ _ _ => some 200) cfg key body contentType amzDate =
        .ok (cfg.objectUrl key) := by
      simp only [putObject, hread]
      rfl
    obtain ⟨-, w, -, hw, -, haddr⟩ := hreturned hpublic _ _ hok
    rw [hobject hpublic origin rest hplain.text] at hw
    have hrest := (isRest_of_behind hplain.behind (cfg.bucket ++ 47 :: key)).2
    exact literal_of_addresses hplain.nothing (hplain.isOrigin.reads _ w hrest hw).2 haddr
  · rintro ⟨⟨origin, rest, base, hplain⟩, hdots, hliteral⟩
    obtain ⟨u, hu, hsame⟩ := hplain.putsTo hdots
    refine ⟨put_iff.mpr ⟨u, hu⟩, ?_, ?_⟩
    · intro hpublic send url hok
      have hlit := hliteral hpublic
      have hrest := (isRest_of_behind hplain.behind (cfg.bucket ++ 47 :: key)).2
      have htotal := hplain.isOrigin.total _ hrest
        ((mem_cleaned (by decide)).not.mpr (hlit.notMem (.inl rfl) hplain.query))
        ((mem_cleaned (by decide)).not.mpr (hlit.notMem (.inr rfl) hplain.fragment))
      obtain ⟨w, hw⟩ := Option.isSome_iff_exists.mp htotal
      obtain ⟨hsame', hreads⟩ := hplain.isOrigin.reads _ w hrest hw
      refine ⟨u, w, hu.read, ?_, ?_, ?_⟩
      · rw [putObject_ok hok, hobject hpublic origin rest hplain.text]
        exact hw
      · exact ⟨hsame'.scheme.trans hsame.scheme.symm, hsame'.host.trans hsame.host.symm,
          hsame'.port.trans hsame.port.symm⟩
      · exact addresses_of_literal hdots hplain.nothing hplain.query hplain.fragment hreads hlit
    · intro bucket' key' heq
      exact canonicalUri_inj (List.append_cancel_left heq)

/-! ## 9. An endpoint with a path -/

namespace Known

/-- What a path keeps as it is. -/
def keep (b : UInt8) : Bool := 33 ≤ b && b ≤ 126 && b ∉ [34, 35, 60, 62, 63, 96, 123, 125]

def isLower (b : UInt8) : Bool := 97 ≤ b && b ≤ 122

/-- `http://` -/
def scheme : Bytes := [104, 116, 116, 112, 58, 47, 47]

/-- The URL of a host and what stands behind it. -/
def read (host rest : Bytes) : Parsed where
  scheme := utf8 "http"
  host := some host
  port := none
  path := pathOf keep (pathText rest)
  query := if 63 ∈ beforeFragment (cleaned rest) then
    some ((beforeFragment (cleaned rest)).dropWhile fun b => b ≠ 63).tail else none
  fragment := if 35 ∈ cleaned rest then some ((cleaned rest).dropWhile fun b => b ≠ 35).tail else none

/-- A parser for `http://` and a host of lower-case letters, and for nothing else. -/
def parse (text : Bytes) : Option Parsed :=
  let host := (text.drop 7).takeWhile isLower
  let rest := (text.drop 7).dropWhile isLower
  if text.take 7 = scheme ∧ host ≠ [] ∧ IsRest rest then some (read host rest) else none

theorem parse_origin {host rest : Bytes} (hne : host ≠ []) (hlower : ∀ b ∈ host, isLower b = true)
    (hrest : IsRest rest) : parse (scheme ++ host ++ rest) = some (read host rest) := by
  have hdrop : (scheme ++ host ++ rest).drop 7 = host ++ rest := rfl
  have htake : (scheme ++ host ++ rest).take 7 = scheme := rfl
  have hends : rest.takeWhile isLower = [] ∧ rest.dropWhile isLower = rest := by
    cases rest with
    | nil => exact ⟨rfl, rfl⟩
    | cons b rest =>
        have hb : isLower b = false := by
          rcases hrest with hnil | ⟨b', bs, hcons, hend⟩
          · have hle : b ≤ 32 := of_decide_eq_true
              (List.rdropWhile_eq_nil_iff.mp hnil b List.mem_cons_self)
            have hlt : ¬97 ≤ b := fun h => absurd (UInt8.le_trans h hle) (by decide)
            simp [isLower, hlt]
          · cases hcons
            rcases hend with hsep | rfl | rfl
            · rcases Bool.or_eq_true_iff.mp hsep with h | h
              · rw [of_decide_eq_true h]
                rfl
              · rw [of_decide_eq_true h]
                rfl
            · rfl
            · rfl
        rw [List.takeWhile_cons, List.dropWhile_cons, hb]
        exact ⟨rfl, rfl⟩
  have hhost : (host ++ rest).takeWhile isLower = host := by
    rw [List.takeWhile_append_of_pos hlower, hends.1, List.append_nil]
  have hbehind : (host ++ rest).dropWhile isLower = rest := by
    rw [List.dropWhile_append_of_pos hlower, hends.2]
  rw [parse, hdrop, htake, hhost, hbehind]
  exact if_pos ⟨rfl, hne, hrest⟩

theorem read_reads (host rest : Bytes) : (read host rest).Reads keep rest := by
  refine ⟨rfl, ?_, ?_⟩
  · by_cases h : 63 ∈ beforeFragment (cleaned rest)
    · simp [read, h]
    · simp [read, h]
  · by_cases h : 35 ∈ cleaned rest
    · simp [read, h]
    · simp [read, h]

theorem isOrigin {host : Bytes} (hne : host ≠ []) (hlower : ∀ b ∈ host, isLower b = true) :
    IsOrigin parse keep (scheme ++ host) (read host []) := by
  refine ⟨⟨.inl rfl, rfl⟩, ?_, ?_⟩
  · intro rest hrest _ _
    rw [parse_origin hne hlower hrest]
    rfl
  · intro rest u hrest hparse
    rw [parse_origin hne hlower hrest] at hparse
    cases hparse
    exact ⟨⟨rfl, rfl, rfl⟩, read_reads _ rest⟩

theorem keep_plain : ∀ b, unreserved b = true → keep b = true := forall_byte (by decide +kernel)

theorem keep_percent : keep 37 = true := by decide

theorem splits {text : Bytes} {u : Parsed} (h : parse text = some u) (_ : u.IsHttp) :
    ∃ origin rest base, text = origin ++ rest ∧ IsRest rest ∧ IsOrigin parse keep origin base := by
  simp only [parse] at h
  split at h
  · rename_i hsplit
    obtain ⟨hscheme, hne, hrest⟩ := hsplit
    cases h
    have hlower : ∀ b ∈ (text.drop 7).takeWhile isLower, isLower b = true :=
      fun b hb => List.mem_takeWhile_imp hb
    refine ⟨scheme ++ (text.drop 7).takeWhile isLower, _,
      read ((text.drop 7).takeWhile isLower) [], ?_, hrest, isOrigin hne hlower⟩
    rw [List.append_assoc, List.takeWhile_append_dropWhile, ← hscheme, List.take_append_drop]
  · cases h

def parser : Parser := ⟨parse, keep, keep_plain, keep_percent, splits⟩

def vars : String → Option Bytes
  | "RUWA_MEDIA_STORE" => some (utf8 "s3")
  | "RUWA_S3_ENDPOINT" => some (utf8 "http://minio/store/")
  | "RUWA_S3_BUCKET" => some (utf8 "media")
  | "RUWA_S3_ACCESS_KEY" => some (utf8 "id")
  | "RUWA_S3_SECRET_KEY" => some (utf8 "secret")
  | _ => none

def config : S3Config where
  endpoint := utf8 "http://minio/store"
  bucket := utf8 "media"
  region := utf8 "us-east-1"
  accessKey := utf8 "id"
  secretKey := utf8 "secret"
  publicBaseUrl := none

end Known

/-- The path of the endpoint is put to, and is not signed. -/
theorem endpoint_path_not_signed :
    ¬∀ (P : Parser) (H : Hashing) (get : String → Option Bytes) (cfg : S3Config)
      (key body contentType amzDate : Bytes), S3Config.fromVars get = .ok (some cfg) →
      OneObject P H cfg key body contentType amzDate := by
  intro h
  have hvars : S3Config.fromVars Known.vars = .ok (some Known.config) := by decide +kernel
  obtain ⟨u, hread, -, hpath, -⟩ :=
    (h Known.parser (.ofTable [] [] []) Known.vars Known.config (utf8 "a") [] [] [] hvars).put
  have hput : (Known.parser.parse (Known.config.endpoint ++
      canonicalUri Known.config.bucket (utf8 "a"))).map Parsed.path = some (utf8 "/store/media/a") := by
    decide +kernel
  have hstore : some u.path = some (utf8 "/store/media/a") :=
    (congrArg (Option.map Parsed.path) hread).symm.trans hput
  rw [hpath] at hstore
  exact absurd hstore (by decide +kernel)

end Ruwa.Media
