/-
  File:      Ruwa/Session/MediaCache.lean
  Subject:   CACHED MEDIA OF A SESSION (`api.rs`, `cache_media_and_respond`,
             `offload_outbound_media`, `get_message_media`), as files or as objects of a bucket.

  A file is named by the message id alone, an object by the chat and the id. The id is the sender's
  choice. An object is put to a URL that spells its key, and fetched by one that has the key in it as
  it is.

  * `Plain` -- ids that name one entry of a directory each, and keys that can be taken apart and
    stand for themselves in a URL;
  * **`media_isolated_iff`** -- the media of some messages stay apart, in their directory and in the
    bucket, exactly when their ids are plain.
-/
import Ruwa.Library.Path
import Ruwa.Media.ObjectStore
import Mathlib.Logic.Function.Basic

namespace Ruwa.Session

open Ruwa.Library Ruwa.Library.Path Ruwa.Library.Percent Ruwa.Library.Url
open Ruwa.Media (NoDots canonicalUri hostHeader isDotSegment s3PutSigned uriEncode unreserved_bounds)

/-! ## 1. Files and objects -/

/-- A session id is a UUID, and so the name of a directory. -/
structure SessionId where
  text : List Char
  isName : IsName text
  noSlash : '/' ∉ text
  plain : ∀ b ∈ encode text, unreserved b = true

/-- What a message is known by within its session. -/
structure MediaKey where
  chat : List Char
  msgid : List Char
  deriving DecidableEq

@[ext] theorem MediaKey.ext {m m' : MediaKey} (hchat : m.chat = m'.chat)
    (hmsgid : m.msgid = m'.msgid) : m = m' := by
  cases m
  cases m'
  cases hchat
  cases hmsgid
  rfl

def MEDIA_DIR : List Char := "data/media".toList

def cacheDir (id : SessionId) : List Char := join MEDIA_DIR id.text

def cachePath (id : SessionId) (m : MediaKey) : List Char := join (cacheDir id) m.msgid

/-- What stands behind the session in the key of an object. -/
def MediaKey.name (m : MediaKey) : Bytes := encode (m.chat ++ '/' :: m.msgid)

def objectKey (id : SessionId) (m : MediaKey) : Bytes :=
  encode (id.text ++ '/' :: (m.chat ++ '/' :: m.msgid))

def IsRemoteUrl (p : Bytes) : Prop :=
  (utf8 "http://").isPrefixOf p = true ∨ (utf8 "https://").isPrefixOf p = true

instance (p : Bytes) : Decidable (IsRemoteUrl p) := inferInstanceAs (Decidable (_ ∨ _))

/-- Where the bucket is put to. -/
def bucketUrl (cfg : Media.S3Config) : Bytes := cfg.endpoint ++ 47 :: cfg.bucket

/-- What the URLs of its objects start with. -/
def objectRoot (cfg : Media.S3Config) : Bytes := cfg.publicBaseUrl.getD (bucketUrl cfg)

/-- A bucket that is set up: one that can be put to, whose objects are served behind their root. The
    hash is the signer's. -/
structure Bucket where
  parser : Parser
  hash : Crypto.Hashing
  cfg : Media.S3Config
  endpoint : Media.PlainEndpoint parser cfg.endpoint
  allowed : ∀ b ∈ cfg.bucket, unreserved b = true
  noDots : isDotSegment cfg.bucket = false
  isPublic : ∀ url, cfg.publicBaseUrl = some url → ∃ origin rest base, IsRoot parser url origin rest base
  remote : IsRemoteUrl (objectRoot cfg)

/-- `media_store`: none keeps the media as files. -/
abbrev MediaStore := Option Bucket

/-- The files, the objects of the bucket by their keys, and the column `media_path` of the session's
    messages. -/
structure MediaState where
  files : List Name → Option Bytes
  objects : Bytes → Option Bytes
  mediaPath : MediaKey → Option Bytes

def MediaState.empty : MediaState := ⟨fun _ => none, fun _ => none, fun _ => none⟩

variable (id : SessionId) (cwd : List Name) (store : MediaStore)

/-- The service refuses a request whose path or host is not the one that is signed, and takes any
    other unless it fails. -/
def Bucket.answer (B : Bucket) (key : Bytes) (ok : Bool) (u : Parsed)
    (headers : List (String × Bytes)) (_ : Bytes) : Option Nat :=
  if u.path = canonicalUri B.cfg.bucket key ∧ ("host", hostHeader u) ∈ headers then
    if ok then some 200 else some 500
  else some 403

/-- `put_object`: the object is where the URL that is put to says; then the URL that is given back is
    the message's path. -/
def putObject (B : Bucket) (s : MediaState) (m : MediaKey) (plaintext mime amzDate : Bytes)
    (ok : Bool) : MediaState :=
  let key := objectKey id m
  match Media.putObject B.parser B.hash (B.answer key ok) B.cfg key plaintext mime amzDate with
  | .error _ => s
  | .ok url =>
      { s with
        objects :=
          match B.parser.under (bucketUrl B.cfg)
            (s3PutSigned B.parser B.hash B.cfg key plaintext mime amzDate).1 with
          | some name => Function.update s.objects name (some plaintext)
          | none => s.objects
        mediaPath := Function.update s.mediaPath m (some url) }

/-- Writes the file, and then its path is the message's; nothing if the write fails. -/
def cacheMediaAndRespond (s : MediaState) (m : MediaKey) (plaintext mime amzDate : Bytes)
    (ok : Bool) : MediaState :=
  match store with
  | some B => putObject id B s m plaintext mime amzDate ok
  | none =>
      if ok then
        match fileAt cwd (cachePath id m) with
        | none => s
        | some file =>
            { s with
              files := Function.update s.files file (some plaintext)
              mediaPath := Function.update s.mediaPath m (some (encode (cachePath id m))) }
      else s

def offloadOutboundMedia (s : MediaState) (m : MediaKey) (plaintext mime amzDate : Bytes)
    (ok : Bool) : MediaState :=
  match store with
  | none => s
  | some B => putObject id B s m plaintext mime amzDate ok

inductive MediaAnswer
  | redirect (url : Bytes)
  | bytes (b : Bytes)
  | fetch

/-- What a local path names. -/
def localFile (path : Bytes) : Option (List Name) := (ofUtf8? path).bind fun p => fileAt cwd p.toList

/-- The answer from what is cached; without it the media is fetched, and cached. -/
def getMessageMedia (s : MediaState) (m : MediaKey) : MediaAnswer :=
  match s.mediaPath m with
  | none => .fetch
  | some path =>
      if IsRemoteUrl path then .redirect path
      else
        match (localFile cwd path).bind s.files with
        | none => .fetch
        | some b => .bytes b

/-! ## 2. Runs -/

inductive MediaCall
  | cache (m : MediaKey) (plaintext mime amzDate : Bytes) (ok : Bool)
  | offload (m : MediaKey) (plaintext mime amzDate : Bytes) (ok : Bool)

def MediaCall.message : MediaCall → MediaKey
  | .cache m _ _ _ _ => m
  | .offload m _ _ _ _ => m

def MediaCall.run (s : MediaState) : MediaCall → MediaState
  | .cache m plaintext mime amzDate ok =>
      cacheMediaAndRespond id cwd store s m plaintext mime amzDate ok
  | .offload m plaintext mime amzDate ok => offloadOutboundMedia id store s m plaintext mime amzDate ok

/-- What a client gets that asks for the message: a redirect is followed to the object that the URL
    says, as the client reads it. -/
def received (s : MediaState) (m : MediaKey) : Option Bytes :=
  match getMessageMedia cwd s m with
  | .redirect url => (store.bind fun B => B.parser.under (objectRoot B.cfg) url).bind s.objects
  | .bytes b => some b
  | .fetch => none

/-- A path that can name a file, a key that is put to under the path that is signed. -/
def CanKeep (m : MediaKey) : Prop :=
  match store with
  | none => NamesFile (cachePath id m)
  | some B => NoDots B.cfg.bucket (objectKey id m)

instance (m : MediaKey) : Decidable (CanKeep id store m) :=
  match store with
  | none => inferInstanceAs (Decidable (NamesFile (cachePath id m)))
  | some B => inferInstanceAs (Decidable (NoDots B.cfg.bucket (objectKey id m)))

/-- The bytes of the message itself that a call keeps. -/
def MediaCall.keeps (m : MediaKey) : MediaCall → Option Bytes
  | .cache m' plaintext _ _ ok =>
      if m' = m ∧ ok = true ∧ CanKeep id store m then some plaintext else none
  | .offload m' plaintext _ _ ok =>
      if m' = m ∧ ok = true ∧ store.isSome = true ∧ CanKeep id store m then some plaintext else none

/-- What was kept of the message last. -/
def latest (calls : List MediaCall) (m : MediaKey) : Option Bytes :=
  calls.foldl (fun kept c => (c.keeps id store m).or kept) none

/-! ## 3. Media that stay apart -/

/-- The directory of a session's media. -/
def mediaDir (id : SessionId) : List Name := ["data".toList, "media".toList, id.text]

/-- What is promised of some messages of a session, whatever the session and the process. -/
structure Isolated (messages : List MediaKey) : Prop where
  confined : ∀ id cwd, ∀ m ∈ messages, ∀ file, fileAt cwd (cachePath id m) = some file →
    ∃ name, file = cwd ++ mediaDir id ++ [name]
  filesApart : ∀ id cwd, ∀ m ∈ messages, ∀ m' ∈ messages, m ≠ m' →
    ∀ file, fileAt cwd (cachePath id m) = some file → fileAt cwd (cachePath id m') ≠ some file
  keysApart : ∀ id, ∀ m ∈ messages, ∀ m' ∈ messages, objectKey id m = objectKey id m' → m = m'
  served : ∀ id cwd store (calls : List MediaCall), (∀ c ∈ calls, c.message ∈ messages) →
    ∀ m, received cwd store (calls.foldl (MediaCall.run id cwd store) .empty) m =
      latest id store calls m

/-- The name that the file of a message has in the directory. -/
def fileName (m : MediaKey) : Option Name := if NamesFile m.msgid then entry m.msgid else none

/-- No part between slashes is a dot or two. -/
def Dotless (text : Bytes) : Prop := ∀ s ∈ text.splitOn 47, isDotSegment s = false

instance (text : Bytes) : Decidable (Dotless text) :=
  inferInstanceAs (Decidable (∀ s ∈ text.splitOn 47, isDotSegment s = false))

/-- Ids that name an entry of a directory each, no chat that goes on into an id, and chats and ids
    that stand for themselves in a URL. -/
structure Plain (messages : List MediaKey) : Prop where
  inside : ∀ m ∈ messages, NamesFile m.msgid → (entry m.msgid).isSome = true
  distinct : ∀ m ∈ messages, ∀ m' ∈ messages, m ≠ m' →
    ∀ name, fileName m = some name → fileName m' ≠ some name
  unslashed : ∀ m ∈ messages, ∀ m' ∈ messages, ∀ part,
    m'.chat = m.chat ++ '/' :: part → m.msgid ≠ part ++ '/' :: m'.msgid
  literal : ∀ m ∈ messages, Dotless m.name → Itself m.name

/-! ## 4. The file of a message -/

variable {id cwd store}

theorem cacheDir_eq (id : SessionId) : cacheDir id = MEDIA_DIR ++ '/' :: id.text := by
  refine join_relative (by decide) (by decide) fun habs => id.noSlash ?_
  exact List.mem_of_head? habs

theorem cachePath_relative {m : MediaKey} (h : ¬IsAbsolute m.msgid) :
    cachePath id m = MEDIA_DIR ++ '/' :: id.text ++ '/' :: m.msgid := by
  have hlast : (MEDIA_DIR ++ '/' :: id.text).getLast? ≠ some '/' := by
    intro hslash
    rw [List.getLast?_append_of_ne_nil _ (List.cons_ne_nil _ _),
      List.getLast?_cons_of_ne_nil id.isName.1] at hslash
    exact id.noSlash (List.mem_of_getLast? hslash)
  unfold cachePath
  rw [cacheDir_eq]
  exact join_relative (List.append_ne_nil_of_right_ne_nil _ (List.cons_ne_nil _ _)) hlast h

theorem head_media (path : List Char) : (MEDIA_DIR ++ path).head? = some 'd' := rfl

theorem cachePath_absolute {m : MediaKey} (h : IsAbsolute m.msgid) : cachePath id m = m.msgid :=
  if_pos h

/-- The file is where the id leads from the session's directory. -/
theorem fileAt_cachePath (id : SessionId) (cwd : List Name) (m : MediaKey) :
    fileAt cwd (cachePath id m) = fileAt (cwd ++ mediaDir id) m.msgid := by
  unfold fileAt
  by_cases habs : IsAbsolute m.msgid
  · rw [cachePath_absolute habs]
    unfold follow
    rw [if_pos habs, if_pos habs]
  · have hnames : NamesFile (cachePath id m) ↔ NamesFile m.msgid := by
      rw [cachePath_relative habs]
      exact namesFile_append _ m.msgid
    have hrel : ¬IsAbsolute (cachePath id m) := by
      intro h
      rw [IsAbsolute, cachePath_relative habs, List.append_assoc, head_media] at h
      cases h
    have hfollow : follow cwd (cachePath id m) = follow (cwd ++ mediaDir id) m.msgid := by
      have hmedia : components MEDIA_DIR = ["data".toList, "media".toList] := by decide
      unfold follow
      rw [if_neg hrel, if_neg habs, cachePath_relative habs, components_append, components_append,
        components_of_not_mem id.noSlash, hmedia, List.foldl_append]
      simp only [List.cons_append, List.nil_append, List.foldl_cons, List.foldl_nil]
      rw [enter_isName (c := "data".toList) (by decide), enter_isName (c := "media".toList) (by decide),
        enter_isName id.isName]
      simp [mediaDir]
    rw [hfollow]
    simp only [hnames]

theorem fileAt_of_fileName {m : MediaKey} {name : Name} (h : fileName m = some name)
    (id : SessionId) (cwd : List Name) :
    fileAt cwd (cachePath id m) = some (cwd ++ mediaDir id ++ [name]) := by
  unfold fileName at h
  split at h
  · next hnames =>
      rw [fileAt_cachePath, fileAt, if_pos hnames, follow_of_entry h]
  · cases h

theorem localFile_encode (path : List Char) : localFile cwd (encode path) = fileAt cwd path := by
  rw [localFile, encode, ofUtf8?_utf8, Option.bind_some, String.toList_ofList]

theorem head_of_isRemoteUrl {p : Bytes} (h : IsRemoteUrl p) : p.head? = some 104 := by
  have hhead : ∀ {scheme : Bytes}, scheme.head? = some 104 → scheme.isPrefixOf p = true →
      p.head? = some 104 := by
    intro scheme hscheme hprefix
    obtain ⟨rest, rfl⟩ := List.isPrefixOf_iff_prefix.mp hprefix
    rw [List.head?_append, hscheme]
    rfl
  rcases h with h | h
  · exact hhead (by decide +kernel) h
  · exact hhead (by decide +kernel) h

/-- A path of a file starts with a slash or in the directory of all media. -/
theorem not_isRemoteUrl_cachePath (id : SessionId) (m : MediaKey) :
    ¬IsRemoteUrl (encode (cachePath id m)) := by
  intro h
  have hfirst : ∃ c cs, cachePath id m = c :: cs ∧ (encode [c]).head? ≠ some 104 ∧ encode [c] ≠ [] := by
    by_cases habs : IsAbsolute m.msgid
    · obtain ⟨cs, hcs⟩ := List.head?_eq_some_iff.mp habs
      exact ⟨'/', cs, (cachePath_absolute habs).trans hcs, by decide +kernel, by decide +kernel⟩
    · have hpath : cachePath id m = _ := cachePath_relative habs
      rw [List.append_assoc] at hpath
      exact ⟨'d', _, hpath, by decide +kernel, by decide +kernel⟩
  obtain ⟨c, cs, hpath, hhead, hne⟩ := hfirst
  have hremote := head_of_isRemoteUrl h
  rw [hpath, ← List.singleton_append, encode_append] at hremote
  obtain ⟨b, bs, hb⟩ := List.exists_cons_of_ne_nil hne
  rw [hb, List.cons_append, List.head?_cons] at hremote
  rw [hb, List.head?_cons] at hhead
  exact hhead hremote

/-! ## 5. Plain ids keep the media apart -/

variable {messages : List MediaKey}

theorem fileName_of_plain (h : Plain messages) {m : MediaKey} (hm : m ∈ messages) {file : List Name}
    (hfile : fileAt cwd (cachePath id m) = some file) :
    ∃ name, fileName m = some name ∧ file = cwd ++ mediaDir id ++ [name] := by
  have hnames : NamesFile m.msgid := by
    by_contra hnot
    rw [fileAt_cachePath, fileAt, if_neg hnot] at hfile
    cases hfile
  obtain ⟨name, hname⟩ := Option.isSome_iff_exists.mp (h.inside m hm hnames)
  have hfileName : fileName m = some name := (if_pos hnames).trans hname
  rw [fileAt_of_fileName hfileName] at hfile
  exact ⟨name, hfileName, (Option.some.inj hfile).symm⟩

theorem filesApart_of_plain (h : Plain messages) {m m' : MediaKey} (hm : m ∈ messages)
    (hm' : m' ∈ messages) (hne : m ≠ m') {file : List Name}
    (hfile : fileAt cwd (cachePath id m) = some file) :
    fileAt cwd (cachePath id m') ≠ some file := by
  intro hfile'
  obtain ⟨name, hname, rfl⟩ := fileName_of_plain h hm hfile
  obtain ⟨name', hname', hsame⟩ := fileName_of_plain h hm' hfile'
  rw [List.append_cancel_left_eq, List.singleton_inj] at hsame
  exact h.distinct m hm m' hm' hne name hname (hsame ▸ hname')

/-- Two keys are one when one chat goes on into the other's id, and only then. -/
theorem objectKey_eq_iff (id : SessionId) {m m' : MediaKey} (hne : m ≠ m') :
    objectKey id m = objectKey id m' ↔
      (∃ part, m'.chat = m.chat ++ '/' :: part ∧ m.msgid = part ++ '/' :: m'.msgid) ∨
        ∃ part, m.chat = m'.chat ++ '/' :: part ∧ m'.msgid = part ++ '/' :: m.msgid := by
  have hcut : ∀ {a b : MediaKey} {part : List Char}, a ≠ b → b.chat = a.chat ++ part →
      '/' :: a.msgid = part ++ '/' :: b.msgid →
      ∃ part, b.chat = a.chat ++ '/' :: part ∧ a.msgid = part ++ '/' :: b.msgid := by
    intro a b part hab hchat hid
    cases part with
    | nil =>
        rw [List.append_nil] at hchat
        exact absurd (MediaKey.ext_iff.mpr ⟨hchat.symm, (List.cons.inj hid).2⟩) hab
    | cons c part =>
        obtain ⟨rfl, htail⟩ := List.cons.inj hid
        exact ⟨part, hchat, htail⟩
  have htext : objectKey id m = objectKey id m' ↔
      m.chat ++ '/' :: m.msgid = m'.chat ++ '/' :: m'.msgid := by
    refine ⟨fun h => ?_, fun h => by rw [objectKey, h, objectKey]⟩
    have hsame := encode_inj h
    rw [List.append_cancel_left_eq] at hsame
    exact (List.cons.inj hsame).2
  rw [htext, List.append_eq_append_iff]
  constructor
  · rintro (⟨part, hchat, hid⟩ | ⟨part, hchat, hid⟩)
    · exact .inl (hcut hne hchat hid)
    · exact .inr (hcut hne.symm hchat hid)
  · rintro (⟨part, hchat, hid⟩ | ⟨part, hchat, hid⟩)
    · exact .inl ⟨'/' :: part, hchat, by rw [hid]; rfl⟩
    · exact .inr ⟨'/' :: part, hchat, by rw [hid]; rfl⟩

theorem keysApart_of_plain (h : Plain messages) {m m' : MediaKey} (hm : m ∈ messages)
    (hm' : m' ∈ messages) (hkey : objectKey id m = objectKey id m') : m = m' := by
  by_contra hne
  rcases (objectKey_eq_iff id hne).mp hkey with ⟨part, hchat, hid⟩ | ⟨part, hchat, hid⟩
  · exact h.unslashed m hm m' hm' part hchat hid
  · exact h.unslashed m' hm' m hm part hchat hid

/-! ## 6. The key of an object, in a URL -/

theorem objectKey_split (id : SessionId) (m : MediaKey) :
    objectKey id m = encode id.text ++ 47 :: m.name := by
  have hslash : encode ['/'] = [47] := by decide +kernel
  rw [objectKey, ← List.singleton_append (l := m.chat ++ '/' :: m.msgid), encode_append, encode_append,
    hslash]
  rfl

theorem notMem_id (id : SessionId) {b : UInt8} (h : unreserved b = false) : b ∉ encode id.text :=
  fun hmem => absurd (id.plain b hmem) (by rw [h]; exact Bool.false_ne_true)

theorem splitOn_objectKey (id : SessionId) (m : MediaKey) :
    (objectKey id m).splitOn 47 = encode id.text :: m.name.splitOn 47 := by
  have hid : (encode id.text).splitOn 47 = [encode id.text] :=
    List.splitOnP_eq_singleton fun b hb => by
      rw [beq_eq_false_iff_ne]
      rintro rfl
      exact notMem_id id (by decide) hb
  rw [objectKey_split]
  exact (List.splitOnP_append_cons _ _ (by decide)).trans (by rw [← List.splitOn, hid]; rfl)

theorem noDots_id (id : SessionId) : isDotSegment (encode id.text) = false := by
  have hone : ∀ cs : List Char, id.text ≠ cs → encode id.text ≠ encode cs := fun cs hne h =>
    hne (encode_inj h)
  have hdot : encode ['.'] = [46] := by decide +kernel
  have hdots : encode ['.', '.'] = [46, 46] := by decide +kernel
  have hsingle := hone _ id.isName.2.1
  have hdouble := hone _ id.isName.2.2
  rw [hdot] at hsingle
  rw [hdots] at hdouble
  simp only [isDotSegment, hsingle, hdouble, decide_false, Bool.or_self]

/-- The dots of a key are those of its chat and its id. -/
theorem noDots_objectKey (B : Bucket) (id : SessionId) (m : MediaKey) :
    NoDots B.cfg.bucket (objectKey id m) ↔ Dotless m.name := by
  unfold NoDots
  rw [splitOn_objectKey, List.forall_mem_cons, List.forall_mem_cons]
  exact (and_iff_right B.noDots).trans (and_iff_right (noDots_id id))

/-- A key stands for itself when its chat and its id do. -/
theorem itself_objectKey (id : SessionId) (m : MediaKey) : Itself (objectKey id m) ↔ Itself m.name := by
  have hbounds : ∀ b ∈ encode id.text, 32 < b := fun b hb => (unreserved_bounds b (id.plain b hb)).1
  have hstays : cleaned (objectKey id m) = encode id.text ++ 47 :: cleaned m.name := by
    rw [objectKey_split, cleaned_append _ ⟨47, List.mem_cons_self, by decide⟩,
      cleaned_cons (by decide), squeeze_of_all hbounds]
  have hread : unescape (objectKey id m) = encode id.text ++ 47 :: unescape m.name := by
    have hid : ¬HasEscape (encode id.text) := by
      rintro ⟨rest, hsuffix, hat⟩
      obtain ⟨c, hc⟩ := Option.isSome_iff_exists.mp hat
      obtain ⟨a, b, rest', rfl, -, -⟩ := escapedAt_eq_some hc
      exact notMem_id id (by decide) (hsuffix.mem List.mem_cons_self)
    rw [objectKey_split, unescape_append (by decide) (by decide), unescape_eq_self_iff.mpr hid]
  constructor
  · intro h
    refine ⟨fun b hb => h.marks b ?_, ?_, ?_⟩
    · rw [objectKey_split]
      exact List.mem_append_right _ (List.mem_cons_of_mem _ hb)
    · have hsame := hstays.symm.trans (h.stays.trans (objectKey_split id m))
      exact (List.cons.inj (List.append_cancel_left hsame)).2
    · have hsame := hread.symm.trans ((unescape_eq_self_iff.mpr h.escapes).trans (objectKey_split id m))
      exact unescape_eq_self_iff.mp (List.cons.inj (List.append_cancel_left hsame)).2
  · intro h
    refine ⟨fun b hb => ?_, ?_, ?_⟩
    · rw [objectKey_split] at hb
      rcases List.mem_append.mp hb with hb | hb
      · obtain ⟨-, -, -, h63, h35, h92⟩ := unreserved_bounds b (id.plain b hb)
        exact ⟨h63, h35, h92⟩
      · rcases List.mem_cons.mp hb with rfl | hb
        · decide
        · exact h.marks b hb
    · rw [hstays, h.stays, objectKey_split]
    · rw [← unescape_eq_self_iff, hread, unescape_eq_self_iff.mpr h.escapes, objectKey_split]

/-- The bucket is a root. -/
theorem isRoot_bucketUrl (B : Bucket) :
    ∃ origin rest base, IsRoot B.parser (bucketUrl B.cfg) origin rest base := by
  obtain ⟨origin, rest, base, h⟩ := B.endpoint
  have hnot : ∀ b : UInt8, b ≠ 47 → unreserved b = false → b ∉ rest → b ∉ rest ++ 47 :: B.cfg.bucket := by
    intro b hslash hb hno hmem
    rcases List.mem_append.mp hmem with hmem | hmem
    · exact hno hmem
    · rcases List.mem_cons.mp hmem with heq | hmem
      · exact hslash heq
      · exact absurd (B.allowed b hmem) (by rw [hb]; exact Bool.false_ne_true)
  refine ⟨origin, rest ++ 47 :: B.cfg.bucket, base, ?_, h.isOrigin, ?_,
    hnot 63 (by decide) (by decide) h.query, hnot 35 (by decide) (by decide) h.fragment⟩
  · rw [bucketUrl, h.text, List.append_assoc]
  · rcases h.behind with rfl | ⟨b, bs, rfl, hsep⟩
    · exact .inr ⟨47, B.cfg.bucket, rfl, by decide⟩
    · exact .inr ⟨b, bs ++ 47 :: B.cfg.bucket, rfl, hsep⟩

theorem isRoot_objectRoot (B : Bucket) :
    ∃ origin rest base, IsRoot B.parser (objectRoot B.cfg) origin rest base := by
  unfold objectRoot
  cases hpublic : B.cfg.publicBaseUrl with
  | none => exact isRoot_bucketUrl B
  | some url => exact B.isPublic url hpublic

theorem objectUrl_eq (B : Bucket) (key : Bytes) :
    B.cfg.objectUrl key = objectRoot B.cfg ++ 47 :: key := by
  unfold Media.S3Config.objectUrl objectRoot
  cases B.cfg.publicBaseUrl with
  | none => rfl
  | some url => rfl

/-- **The URL that is given back leads to the object exactly when** the chat and the id stand for
    themselves. -/
theorem under_objectUrl_iff (B : Bucket) (id : SessionId) {m : MediaKey} (hdots : Dotless m.name) :
    B.parser.under (objectRoot B.cfg) (B.cfg.objectUrl (objectKey id m)) = some (objectKey id m) ↔
      Itself m.name := by
  obtain ⟨origin, rest, base, hroot⟩ := isRoot_objectRoot B
  rw [objectUrl_eq, under_eq_self_iff hroot, itself_objectKey]
  refine and_iff_left_of_imp fun h => ?_
  have hself := (itself_objectKey id m).mpr h
  rw [segments_dots_iff (fun hmem => (hself.marks 92 hmem).2.2 rfl) hself.escapes]
  intro s hs
  have hs' := (noDots_objectKey B id m).mpr hdots s (List.mem_cons_of_mem _ hs)
  simpa [isDotSegment] using hs'

/-- The URL that is put to leads to the object. -/
theorem under_put (B : Bucket) {key : Bytes} (hdots : NoDots B.cfg.bucket key) :
    B.parser.under (bucketUrl B.cfg) (B.cfg.endpoint ++ canonicalUri B.cfg.bucket key) = some key := by
  obtain ⟨origin, rest, base, hroot⟩ := isRoot_bucketUrl B
  have hbucket : uriEncode B.cfg.bucket false = B.cfg.bucket :=
    escape_of_all fun b hb => by rw [Media.keepByte, B.allowed b hb]; rfl
  have hurl : B.cfg.endpoint ++ canonicalUri B.cfg.bucket key =
      bucketUrl B.cfg ++ 47 :: uriEncode key true := by
    rw [canonicalUri, hbucket, bucketUrl, List.append_assoc, List.cons_append]
  have hmem : ∀ b ∈ uriEncode key true, 32 < b ∧ b ≠ 63 ∧ b ≠ 35 ∧ b ≠ 92 := fun b hb =>
    @Media.mem_canonicalUri B.cfg.bucket key b
      (List.mem_append_right (47 :: uriEncode B.cfg.bucket false) (List.mem_cons_of_mem 47 hb))
  have hparts : ∀ s ∈ segments (uriEncode key true), ¬IsDots s := by
    intro s hs hdot
    rw [Media.segments_uriEncode] at hs
    obtain ⟨t, ht, rfl⟩ := List.mem_map.mp hs
    have hno := hdots t (List.mem_cons_of_mem _ ht)
    rw [Media.isDots_uriEncode.mp hdot] at hno
    cases hno
  have hall : pathText (uriEncode key true) = uriEncode key true :=
    pathText_eq_self_iff.mpr ⟨cleaned_of_all fun b hb => (hmem b hb).1,
      fun hb => (hmem 63 hb).2.1 rfl, fun hb => (hmem 35 hb).2.2.1 rfl⟩
  rw [hurl, under_of_plain hroot hall hparts fun hb => (hmem 92 hb).2.2.2 rfl, uriEncode,
    unescape_escape (Media.keepByte_percent true)]

/-- The object, and the URL that is given back. -/
def stored (B : Bucket) (id : SessionId) (s : MediaState) (m : MediaKey) (plaintext : Bytes) :
    MediaState :=
  { s with
    objects := Function.update s.objects (objectKey id m) (some plaintext)
    mediaPath := Function.update s.mediaPath m (some (B.cfg.objectUrl (objectKey id m))) }

/-- **An upload keeps the object under its key**, if no part of the key is dots and the service does
    not fail; else it keeps nothing. -/
theorem putObject_eq (B : Bucket) (s : MediaState) (m : MediaKey) (plaintext mime amzDate : Bytes)
    (ok : Bool) : putObject id B s m plaintext mime amzDate ok =
      if ok = true ∧ Dotless m.name then stored B id s m plaintext else s := by
  obtain ⟨origin, rest, base, hplain⟩ := B.endpoint
  unfold putObject
  by_cases hdots : Dotless m.name
  · have hnoDots := (noDots_objectKey B id m).mpr hdots
    obtain ⟨u, hu, -⟩ := hplain.putsTo hnoDots
    have hhost : ("host", hostHeader u) ∈
        (s3PutSigned B.parser B.hash B.cfg (objectKey id m) plaintext mime amzDate).2 := by
      rw [s3PutSigned, hu.host]
      exact List.mem_cons_self
    have hread : B.parser.parse
        (s3PutSigned B.parser B.hash B.cfg (objectKey id m) plaintext mime amzDate).1 = some u := hu.read
    have hname : B.parser.under (bucketUrl B.cfg)
        (s3PutSigned B.parser B.hash B.cfg (objectKey id m) plaintext mime amzDate).1 =
          some (objectKey id m) := under_put B hnoDots
    cases ok with
    | true =>
        have hput : Media.putObject B.parser B.hash (B.answer (objectKey id m) true) B.cfg (objectKey id m)
            plaintext mime amzDate = .ok (B.cfg.objectUrl (objectKey id m)) := by
          simp only [Media.putObject, hread, Option.bind_some, Bucket.answer]
          rw [if_pos ⟨hu.path, hhost⟩]
          rfl
        simp only [hput, hname]
        rw [if_pos ⟨trivial, hdots⟩]
        rfl
    | false =>
        have hput : Media.putObject B.parser B.hash (B.answer (objectKey id m) false) B.cfg
            (objectKey id m) plaintext mime amzDate = .error .aes := by
          simp only [Media.putObject, hread, Option.bind_some, Bucket.answer]
          rw [if_pos ⟨hu.path, hhost⟩]
          rfl
        simp only [hput]
        rw [if_neg (fun h => Bool.false_ne_true h.1)]
  · have hput : Media.putObject B.parser B.hash (B.answer (objectKey id m) ok) B.cfg (objectKey id m)
        plaintext mime amzDate = .error .aes := by
      simp only [Media.putObject]
      cases hread : B.parser.parse
          (s3PutSigned B.parser B.hash B.cfg (objectKey id m) plaintext mime amzDate).1 with
      | none => rfl
      | some u =>
          simp only [Option.bind_some, Bucket.answer]
          rw [if_neg]
          · rfl
          · rintro ⟨hpath, -⟩
            exact hdots ((noDots_objectKey B id m).mp ((hplain.path_iff hread).mp hpath))
    simp only [hput]
    rw [if_neg fun h => hdots h.2]

/-! ## 7. What is served -/

/-- What the path of a message is, once it has one. -/
def location (id : SessionId) (store : MediaStore) (m : MediaKey) : Bytes :=
  match store with
  | none => encode (cachePath id m)
  | some B => B.cfg.objectUrl (objectKey id m)

/-- What is there. -/
def held (id : SessionId) (cwd : List Name) (store : MediaStore) (s : MediaState) (m : MediaKey) :
    Option Bytes :=
  match store with
  | none => (fileAt cwd (cachePath id m)).bind s.files
  | some _ => s.objects (objectKey id m)

theorem canKeep_some (B : Bucket) (m : MediaKey) : CanKeep id (some B) m ↔ Dotless m.name :=
  noDots_objectKey B id m

theorem isRemoteUrl_objectUrl (B : Bucket) (key : Bytes) : IsRemoteUrl (B.cfg.objectUrl key) := by
  have hprefix : ∀ {scheme : Bytes}, scheme.isPrefixOf (objectRoot B.cfg) = true →
      scheme.isPrefixOf (B.cfg.objectUrl key) = true := by
    intro scheme h
    rw [List.isPrefixOf_iff_prefix] at h ⊢
    rw [objectUrl_eq]
    exact h.trans (List.prefix_append _ _)
  exact B.remote.imp hprefix hprefix

/-- A message that has its path is served from the object that the URL leads to. -/
theorem received_redirect {B : Bucket} {s : MediaState} {m : MediaKey}
    (h : s.mediaPath m = some (location id (some B) m)) :
    received cwd (some B) s m =
      (B.parser.under (objectRoot B.cfg) (B.cfg.objectUrl (objectKey id m))).bind s.objects := by
  have hpath : s.mediaPath m = some (B.cfg.objectUrl (objectKey id m)) := h
  unfold received getMessageMedia
  rw [hpath]
  simp only [if_pos (isRemoteUrl_objectUrl B _), Option.bind_some]

theorem received_of_location {s : MediaState} {m : MediaKey}
    (hliteral : Dotless m.name → Itself m.name) (hcan : CanKeep id store m)
    (h : s.mediaPath m = some (location id store m)) :
    received cwd store s m = held id cwd store s m := by
  cases store with
  | none =>
      have hpath : s.mediaPath m = some (encode (cachePath id m)) := h
      unfold received getMessageMedia
      rw [hpath]
      simp only [if_neg (not_isRemoteUrl_cachePath id m), localFile_encode, held]
      cases (fileAt cwd (cachePath id m)).bind s.files with
      | none => rfl
      | some b => rfl
  | some B =>
      have hdots := (canKeep_some B m).mp hcan
      rw [received_redirect h, (under_objectUrl_iff B id hdots).mpr (hliteral hdots)]
      rfl

/-- **All that a call can do**: nothing, or it keeps the bytes of its message. -/
inductive MediaCall.Effect (id : SessionId) (cwd : List Name) (store : MediaStore)
    (s : MediaState) (c : MediaCall) (s' : MediaState) : Prop
  | nothing (hsame : s' = s) (hkeeps : ∀ m, c.keeps id store m = none)
  | kept (b : Bytes)
      (hkeeps : ∀ m, c.keeps id store m = if c.message = m then some b else none)
      (hcan : CanKeep id store c.message)
      (hpath : s'.mediaPath =
        Function.update s.mediaPath c.message (some (location id store c.message)))
      (hheld : held id cwd store s' c.message = some b)
      (hothers : ∀ m, (∀ file, fileAt cwd (cachePath id m) = some file →
          fileAt cwd (cachePath id c.message) ≠ some file) →
        objectKey id m ≠ objectKey id c.message → held id cwd store s' m = held id cwd store s m)

/-- What an upload does is what is kept of its message. -/
theorem putObject_effect (B : Bucket) (s : MediaState) (c : MediaCall) (plaintext : Bytes)
    {mime amzDate : Bytes} {ok : Bool}
    (hkeeps : ∀ m, c.keeps id (some B) m =
      if c.message = m ∧ ok = true ∧ CanKeep id (some B) m then some plaintext else none) :
    c.Effect id cwd (some B) s (putObject id B s c.message plaintext mime amzDate ok) := by
  rw [putObject_eq]
  split
  · rename_i hput
    have hcan : CanKeep id (some B) c.message := (canKeep_some B c.message).mpr hput.2
    refine .kept plaintext (fun m => ?_) hcan rfl (Function.update_self _ _ _) ?_
    · rw [hkeeps]
      by_cases hm : c.message = m
      · subst hm
        rw [if_pos ⟨rfl, hput.1, hcan⟩, if_pos rfl]
      · rw [if_neg fun h => hm h.1, if_neg hm]
    · intro m _ hkey
      exact Function.update_of_ne hkey _ _
  · rename_i hput
    refine .nothing rfl fun m => ?_
    rw [hkeeps, if_neg]
    rintro ⟨rfl, hok, hcan⟩
    exact hput ⟨hok, (canKeep_some B _).mp hcan⟩

theorem run_effect (s : MediaState) (c : MediaCall) :
    c.Effect id cwd store s (c.run id cwd store s) := by
  cases c with
  | cache m plaintext mime amzDate ok =>
      simp only [MediaCall.run, cacheMediaAndRespond]
      cases store with
      | some B => exact putObject_effect B s (.cache m plaintext mime amzDate ok) plaintext fun m' => rfl
      | none =>
          simp only
          cases ok with
          | false => exact .nothing rfl fun m' => by simp [MediaCall.keeps]
          | true =>
              cases hfile : fileAt cwd (cachePath id m) with
              | none =>
                  have hnot : ¬NamesFile (cachePath id m) := by
                    intro hnames
                    rw [fileAt, if_pos hnames] at hfile
                    cases hfile
                  refine .nothing (by simp) fun m' => ?_
                  by_cases hm : m = m'
                  · subst hm
                    simp [MediaCall.keeps, CanKeep, hnot]
                  · simp [MediaCall.keeps, hm]
              | some file =>
                  have hnames : NamesFile (cachePath id m) := by
                    by_contra hnot
                    rw [fileAt, if_neg hnot] at hfile
                    cases hfile
                  simp only [if_true]
                  refine .kept plaintext (fun m' => ?_) hnames rfl ?_ ?_
                  · by_cases hm : m = m'
                    · subst hm
                      simp [MediaCall.keeps, MediaCall.message, CanKeep, hnames]
                    · simp [MediaCall.keeps, MediaCall.message, hm]
                  · simp [held, MediaCall.message, hfile]
                  · intro m' hfiles _
                    unfold held
                    simp only [MediaCall.message] at hfiles
                    cases hfile' : fileAt cwd (cachePath id m') with
                    | none => rfl
                    | some file' =>
                        have hne : file' ≠ file := fun heq => hfiles file' hfile' (heq ▸ hfile)
                        exact Function.update_of_ne hne _ _
  | offload m plaintext mime amzDate ok =>
      simp only [MediaCall.run, offloadOutboundMedia]
      cases store with
      | none => exact .nothing rfl fun m' => by simp [MediaCall.keeps]
      | some B =>
          exact putObject_effect B s (.offload m plaintext mime amzDate ok) plaintext
            fun m' => if_congr (by simp [MediaCall.message]) rfl rfl

/-- A message is known by what was kept of it last. -/
def Knows (id : SessionId) (cwd : List Name) (store : MediaStore) (messages : List MediaKey)
    (s : MediaState) (kept : MediaKey → Option Bytes) : Prop :=
  ∀ m, (s.mediaPath m = none ∧ kept m = none) ∨
    (m ∈ messages ∧ CanKeep id store m ∧ s.mediaPath m = some (location id store m) ∧
      held id cwd store s m = kept m)

theorem knows_run (h : Plain messages) {s : MediaState} {kept : MediaKey → Option Bytes}
    (hknows : Knows id cwd store messages s kept) {c : MediaCall} (hc : c.message ∈ messages) :
    Knows id cwd store messages (c.run id cwd store s)
      fun m => (c.keeps id store m).or (kept m) := by
  have heffect : c.Effect id cwd store s (c.run id cwd store s) := run_effect s c
  cases heffect with
  | nothing hsame hkeeps =>
      rw [hsame]
      intro m
      simp only [hkeeps, Option.none_or]
      exact hknows m
  | kept b hkeeps hcan hpath hheld hothers =>
      intro m
      simp only [hkeeps, hpath]
      by_cases hm : c.message = m
      · subst hm
        refine .inr ⟨hc, hcan, Function.update_self _ _ _, ?_⟩
        rw [if_pos rfl, hheld]
        rfl
      · rw [if_neg hm, Option.none_or, Function.update_of_ne (Ne.symm hm)]
        refine (hknows m).imp_right fun ⟨hmem, hkeep, hloc, hbytes⟩ => ⟨hmem, hkeep, hloc, ?_⟩
        rw [← hbytes]
        refine hothers m (fun file hfile => ?_) fun hkey => hm (keysApart_of_plain h hc hmem hkey.symm)
        exact filesApart_of_plain h hmem hc (Ne.symm hm) hfile

theorem knows_calls (h : Plain messages) {s : MediaState} {kept : MediaKey → Option Bytes}
    (hknows : Knows id cwd store messages s kept) {calls : List MediaCall}
    (hcalls : ∀ c ∈ calls, c.message ∈ messages) :
    Knows id cwd store messages (calls.foldl (MediaCall.run id cwd store) s) fun m =>
      calls.foldl (fun k c => (c.keeps id store m).or k) (kept m) := by
  induction calls generalizing s kept with
  | nil => exact hknows
  | cons c calls ih =>
      exact ih (knows_run h hknows (hcalls c List.mem_cons_self)) fun c' hc' =>
        hcalls c' (List.mem_cons_of_mem c hc')

theorem served_of_plain (h : Plain messages) {calls : List MediaCall}
    (hcalls : ∀ c ∈ calls, c.message ∈ messages) (m : MediaKey) :
    received cwd store (calls.foldl (MediaCall.run id cwd store) .empty) m =
      latest id store calls m := by
  have hstart : Knows id cwd store messages .empty fun _ => none := fun _ => .inl ⟨rfl, rfl⟩
  unfold latest
  rcases knows_calls h hstart hcalls m with ⟨hpath, hkept⟩ | ⟨hmem, hcan, hpath, hheld⟩
  · rw [received, getMessageMedia, hpath]
    exact hkept.symm
  · rw [received_of_location (h.literal m hmem) hcan hpath]
    exact hheld

/-! ## 8. Exactly the plain ids -/

namespace Sample

/-- Two sessions. -/
def sessionA : SessionId := ⟨['a'], by decide, by decide, by decide +kernel⟩

def sessionB : SessionId := ⟨['b'], by decide, by decide, by decide +kernel⟩

def config : Media.S3Config where
  endpoint := utf8 "http://minio"
  bucket := utf8 "media"
  region := utf8 "us-east-1"
  accessKey := utf8 "id"
  secretKey := utf8 "secret"
  publicBaseUrl := none

/-- A bucket at the origin of its endpoint. -/
def bucket : Bucket where
  parser := Media.Known.parser
  hash := .ofTable [] [] []
  cfg := config
  endpoint := by
    have hlower : ∀ b ∈ utf8 "minio", Media.Known.isLower b = true := by decide +kernel
    have horigin : config.endpoint = Media.Known.scheme ++ utf8 "minio" := by decide +kernel
    exact ⟨_, [], _, horigin.trans (List.append_nil _).symm,
      Media.Known.isOrigin (by decide +kernel) hlower, .inl rfl, List.not_mem_nil, List.not_mem_nil, rfl⟩
  allowed := by decide +kernel
  noDots := by decide +kernel
  isPublic := fun _ h => nomatch h
  remote := by decide +kernel

def alice : MediaKey := ⟨"alice@s.whatsapp.net".toList, "3EB0".toList⟩

/-- The same id in another chat. -/
def bob : MediaKey := ⟨"bob@s.whatsapp.net".toList, "3EB0".toList⟩

/-- An id that leads out of the directory. -/
def climber : MediaKey := ⟨"bob@s.whatsapp.net".toList, "../../ruwa.db".toList⟩

/-- The id of another message of the chat, with a fragment. -/
def marked : MediaKey := ⟨"alice@s.whatsapp.net".toList, "3EB0#x".toList⟩

end Sample

theorem inside_of_isolated (h : Isolated messages) {m : MediaKey} (hm : m ∈ messages)
    (hnames : NamesFile m.msgid) : (entry m.msgid).isSome = true := by
  refine (direct_iff ["data".toList, "media".toList]
    (P := fun n => ∃ id : SessionId, id.text = n) ⟨Sample.sessionA, rfl⟩ ⟨Sample.sessionB, rfl⟩
    (by decide)).mp ?_
  rintro n ⟨id, rfl⟩
  have hfile := fileAt_cachePath id [] m
  have hthere : fileAt ([] ++ mediaDir id) m.msgid = some (follow (mediaDir id) m.msgid) :=
    if_pos hnames
  rw [hthere] at hfile
  exact h.confined id [] m hm _ hfile

/-- The object of a message is served to whoever asks for it; so its URL leads to it. -/
theorem literal_of_isolated (h : Isolated messages) {m : MediaKey} (hm : m ∈ messages)
    (hdots : Dotless m.name) : Itself m.name := by
  have hone : ∀ c ∈ [MediaCall.cache m [1] [] [] true], c.message ∈ messages := by
    intro c hc
    cases List.mem_singleton.mp hc
    exact hm
  have hserved := h.served Sample.sessionA [] (some Sample.bucket) _ hone m
  have hrun : [MediaCall.cache m [1] [] [] true].foldl (MediaCall.run Sample.sessionA []
      (some Sample.bucket)) .empty = stored Sample.bucket Sample.sessionA .empty m [1] :=
    (putObject_eq Sample.bucket .empty m [1] [] [] true).trans (if_pos ⟨rfl, hdots⟩)
  have hlatest : latest Sample.sessionA (some Sample.bucket) [.cache m [1] [] [] true] m = some [1] :=
    congrArg (fun kept => kept.or none)
      (if_pos ⟨rfl, rfl, (canKeep_some Sample.bucket m).mpr hdots⟩ :
        MediaCall.keeps Sample.sessionA (some Sample.bucket) m (.cache m [1] [] [] true) = some [1])
  rw [hrun, hlatest, received_redirect (Function.update_self _ _ _)] at hserved
  obtain ⟨name, hname, hobject⟩ := Option.bind_eq_some_iff.mp hserved
  have hkey : name = objectKey Sample.sessionA m := by
    by_contra hne
    have hnone : (stored Sample.bucket Sample.sessionA .empty m [1]).objects name = none :=
      Function.update_of_ne hne _ _
    rw [hnone] at hobject
    cases hobject
  rw [hkey] at hname
  exact (under_objectUrl_iff Sample.bucket Sample.sessionA hdots).mp hname

/-- **The media of some messages stay apart, in every session and both stores, exactly when their
    ids are plain.** -/
theorem media_isolated_iff (messages : List MediaKey) : Isolated messages ↔ Plain messages := by
  constructor
  · intro h
    refine ⟨fun m hm hnames => inside_of_isolated h hm hnames, ?_, ?_,
      fun m hm hdots => literal_of_isolated h hm hdots⟩
    · intro m hm m' hm' hne name hname hname'
      exact h.filesApart Sample.sessionA [] m hm m' hm' hne _ (fileAt_of_fileName hname _ _)
        (fileAt_of_fileName hname' _ _)
    · intro m hm m' hm' part hchat hid
      have hne : m ≠ m' := by
        rintro rfl
        exact List.cons_ne_nil _ _ (List.self_eq_append_right.mp hchat)
      exact hne (h.keysApart Sample.sessionA m hm m' hm'
        ((objectKey_eq_iff _ hne).mpr (.inl ⟨part, hchat, hid⟩)))
  · intro h
    refine ⟨?_, ?_, ?_, ?_⟩
    · intro id cwd m hm file hfile
      obtain ⟨name, -, rfl⟩ := fileName_of_plain h hm hfile
      exact ⟨name, rfl⟩
    · intro id cwd m hm m' hm' hne file hfile
      exact filesApart_of_plain h hm hm' hne hfile
    · intro id m hm m' hm' hkey
      exact keysApart_of_plain h hm hm' hkey
    · intro id cwd store calls hcalls m
      exact served_of_plain h hcalls m

/-- Bob's media are served for Alice's message of the same id, and an id of his choice names a file
    that is not in the directory. In a bucket, what another of her messages is served is this one's. -/
theorem media_shared :
    received [] none ([.cache Sample.alice [1] [] [] true, .cache Sample.bob [2] [] [] true].foldl
        (MediaCall.run Sample.sessionA [] none) .empty) Sample.alice = some [2] ∧
      fileAt [] (cachePath Sample.sessionA Sample.climber) =
        some ["data".toList, "ruwa.db".toList] ∧
      received [] (some Sample.bucket)
        ([.cache Sample.alice [1] [] [] true, .cache Sample.marked [2] [] [] true].foldl
          (MediaCall.run Sample.sessionA [] (some Sample.bucket)) .empty) Sample.marked = some [1] := by
  decide +kernel

end Ruwa.Session
