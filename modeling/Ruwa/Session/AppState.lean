/-
  File:      Ruwa/Session/AppState.lean
  Subject:   THE APP STATE OF AN ACCOUNT (`session.rs`, `ship_app_state_fetches`,
             `handle_app_state_sync_iq`, `decode_authenticated_app_state_patch`,
             `decode_app_state_snapshot`; `store.rs`, `app_state_*`).

  The state of an account (contact names, pins, mutes) is a few collections that the server keeps
  as a snapshot and numbered patches. A companion remembers how far it is in each collection, with
  a hash of what it has read, and asks for what comes after. The records are encrypted with keys
  that the phone shares; a record whose key is not held is skipped and the key asked for.

  The record loops of a patch and of a snapshot are one here: they differ in what they do about a
  record without a readable value, and in where the hash starts.

  * **`readMutations_spec`** -- what the record loop does, by what each record reads as;
  * `handleWork_mainKeys`, `cursorOf_writeCursor_ne` -- what a snapshot or patch leaves alone.
-/
import Ruwa.Crypto.Primitives
import Ruwa.Library.Json
import Ruwa.Library.Text
import Ruwa.Protocol.Binary

namespace Ruwa.Session.AppState

open Ruwa.Library
open Ruwa.Crypto
open Ruwa.Protocol.Binary (Node Content Attrs)

/-! ## 1. Messages -/

/-- An encrypted record: its index, its value and the id of its key, as far as they are there. -/
structure SyncdRecord where
  index : Option Bytes
  value : Option Bytes
  keyId : Option Bytes

structure SyncdMutation where
  operation : Option Int32
  record : Option SyncdRecord

/-- The patch's own version is not among what is decoded. -/
structure SyncdPatch where
  mutations : List SyncdMutation
  snapshotMac : Option Bytes
  patchMac : Option Bytes
  keyId : Option Bytes

structure SyncdSnapshot where
  version : Option Nat
  records : List SyncdRecord
  keyId : Option Bytes

structure ContactAction where
  fullName : Option (List Char)
  firstName : Option (List Char)

structure MuteAction where
  muted : Option Bool
  muteEndTimestamp : Option Int

/-- The actions that are mirrored. -/
structure SyncActionValue where
  contactAction : Option ContactAction
  muteAction : Option MuteAction
  pinAction : Option (Option Bool)
  archiveChatAction : Option (Option Bool)
  nctSaltSyncAction : Option (Option Bytes)

structure SyncActionData where
  index : Option Bytes
  value : Option SyncActionValue

structure ExternalBlobReference where
  mediaKey : Option Bytes
  directPath : Option (List Char)

/-- The decoders of the libraries. `json` is for UTF-8. -/
structure Wire where
  patch : Bytes → Option SyncdPatch
  snapshot : Bytes → Option SyncdSnapshot
  action : Bytes → Option SyncActionData
  blobRef : Bytes → Option ExternalBlobReference
  json : Bytes → Option Json

structure Primitives where
  hashing : Hashing
  cbc : AesCbc

inductive AppStateMutation where
  | contactUpsert (jid : List Char) (fullName pushName : Option (List Char))
  | chatPin (jid : List Char) (pinned : Bool)
  | chatArchive (jid : List Char) (archived : Bool)
  | chatMute (jid : List Char) (until' : Option Int)
  | nctSalt (salt : Bytes)
  deriving DecidableEq

/-! ## 2. The running hash -/

/-- Two bytes a number, the low one first. -/
def combine (f : UInt16 → UInt16 → UInt16) : Bytes → Bytes → Bytes
  | a₀ :: a₁ :: as, b₀ :: b₁ :: bs =>
      let s := f (a₀.toUInt16 ||| a₁.toUInt16 <<< 8) (b₀.toUInt16 ||| b₁.toUInt16 <<< 8)
      s.toUInt8 :: (s >>> 8).toUInt8 :: combine f as bs
  | _, _ => []

theorem length_combine (f : UInt16 → UInt16 → UInt16) {k : Nat} {as bs : Bytes}
    (ha : as.length = 2 * k) (hb : bs.length = 2 * k) : (combine f as bs).length = 2 * k := by
  induction k generalizing as bs with
  | zero =>
      cases List.length_eq_zero_iff.mp ha
      rfl
  | succ k ih =>
      match as, bs, ha, hb with
      | a₀ :: a₁ :: as, b₀ :: b₁ :: bs, ha, hb =>
          simp only [List.length_cons] at ha hb
          rw [combine, List.length_cons, List.length_cons, ih (by omega) (by omega)]
          omega

abbrev LtHash := U8Array 128

def LtHash.zero : LtHash := U8Array.replicate 128 0

def LtHash.add (h other : LtHash) : LtHash :=
  ⟨combine (· + ·) h.bytes other.bytes,
    length_combine _ (k := 64) h.length_bytes other.length_bytes⟩

def LtHash.sub (h other : LtHash) : LtHash :=
  ⟨combine (· - ·) h.bytes other.bytes,
    length_combine _ (k := 64) h.length_bytes other.length_bytes⟩

/-! ## 3. The store -/

/-- How far a collection is, and the hash of what has been read. -/
structure Cursor where
  version : Nat
  hash : LtHash
  deriving DecidableEq

/-- The table of cursors as the writes to it, and the mirror as the writes to it, both with the
    newest first. -/
structure AppStore where
  versions : List (String × Cursor)
  mainKeys : Bytes → Option Bytes
  mirror : List AppStateMutation

/-- Without a row a collection has never been synced. -/
def cursorOf (store : AppStore) (name : String) : Cursor :=
  ((store.versions.find? fun w => w.1 = name).map (·.2)).getD ⟨0, LtHash.zero⟩

def appStateVersionSet (store : AppStore) (name : String) (version : Nat) (hash : LtHash) :
    AppStore :=
  { store with versions := (name, ⟨version, hash⟩) :: store.versions }

def appStateVersionBump (store : AppStore) (name : String) (hash : LtHash) : AppStore :=
  appStateVersionSet store name ((cursorOf store name).version + 1) hash

theorem cursorOf_set (store : AppStore) (name : String) (version : Nat) (hash : LtHash) :
    cursorOf (appStateVersionSet store name version hash) name = ⟨version, hash⟩ := by
  simp [cursorOf, appStateVersionSet]

theorem cursorOf_set_ne (store : AppStore) {name other : String} (version : Nat) (hash : LtHash)
    (h : name ≠ other) :
    cursorOf (appStateVersionSet store name version hash) other = cursorOf store other := by
  simp [cursorOf, appStateVersionSet, h]

def childless (tag : String) (attrs : Attrs) : Node := ⟨tag, attrs, .none⟩

def buildAppStateFetchIq (iqId name : String) (version : Nat) (wantSnapshot : Bool) : Node :=
  let named := (SortedMap.empty.insert "name" name).insert "return_snapshot"
    (if wantSnapshot then "true" else "false")
  let attrs := if wantSnapshot then named
    else named.insert "version" (String.ofList (Text.decimal version))
  let iqAttrs := (((SortedMap.empty.insert "id" iqId).insert "xmlns" "w:sync:app:state").insert
    "type" "set").insert "to" "s.whatsapp.net"
  ⟨"iq", iqAttrs, .nodes [⟨"sync", SortedMap.empty, .nodes [childless "collection" attrs]⟩]⟩

/-- The request for what comes after the cursor. -/
def fetchRequest (store : AppStore) (iqId name : String) : Node :=
  let version := (cursorOf store name).version
  buildAppStateFetchIq iqId name version (version == 0)

/-! ## 4. Records -/

section

variable (W : Wire) (P : Primitives)

/-- A stored key of another length is an error. -/
def loadAppStateMainKey (keys : Bytes → Option Bytes) (keyId : Bytes) :
    Except Unit (Option (U8Array 32)) :=
  match keys keyId with
  | none => .ok none
  | some b =>
      match U8Array.ofBytes? 32 b with
      | some mk => .ok (some mk)
      | none => .error ()

/-- The second of the five parts of the expansion. -/
def mutationCipherKey (mainKey : U8Array 32) : U8Array 32 :=
  (P.hashing.hkdf (List.replicate 32 0) mainKey.bytes (utf8 "WhatsApp Mutation Keys") 160).slice
    32 32 (by decide)

def expandValueMacToLthashInput (valueMac : U8Array 32) : LtHash :=
  P.hashing.hkdf (List.replicate 32 0) valueMac.bytes (utf8 "WhatsApp Patch LTHash") 128

/-- The second element of the index, if it is a text. -/
def parseAppstateIndexJid (index : Option Bytes) : List Char :=
  ((((index.bind W.json).bind Json.asArray).bind fun items => items[1]?).bind Json.asStr).getD []

def mutationsOf (index : Option Bytes) (value : SyncActionValue) : List AppStateMutation :=
  let jid := parseAppstateIndexJid W index
  (value.contactAction.map fun ca => .contactUpsert jid ca.fullName ca.firstName).toList ++
  (value.pinAction.map fun pa => .chatPin jid (pa.getD false)).toList ++
  (value.archiveChatAction.map fun aa => .chatArchive jid (aa.getD false)).toList ++
  (value.muteAction.map fun ma =>
    .chatMute jid (if ma.muted.getD false then ma.muteEndTimestamp else none)).toList ++
  (value.nctSaltSyncAction.bind fun ns =>
    (ns.filter fun salt => salt ≠ []).map AppStateMutation.nctSalt).toList

/-- What becomes of a record. -/
inductive Reading where
  | noRecord
  | noKeyId
  | noKey (keyId : Bytes)
  | badKey
  | noBlob
  | undecryptable
  | undecodable
  | noValue
  | read (mutations : List AppStateMutation) (valueMac : U8Array 32)

/-- The value is an IV, the ciphertext and a MAC of 32 bytes, which is compared for the log only. -/
def openValue (mainKey : U8Array 32) (blob : Bytes) (h : 16 + 32 ≤ blob.length) : Reading :=
  let iv : U8Array 16 := ⟨blob.take 16, by rw [List.length_take]; omega⟩
  let mac : U8Array 32 := ⟨blob.drop (blob.length - 32), by rw [List.length_drop]; omega⟩
  let ct := (blob.take (blob.length - 32)).drop 16
  match P.cbc.decrypt (mutationCipherKey P mainKey) iv ct with
  | none => .undecryptable
  | some b =>
      match W.action b with
      | none => .undecodable
      | some action =>
          match action.value with
          | none => .noValue
          | some value => .read (mutationsOf W action.index value) mac

/-- The key of the record itself, or that of the whole message. -/
def readRecord (keys : Bytes → Option Bytes) (fallback : Option Bytes) (record : SyncdRecord) :
    Reading :=
  match record.keyId.or fallback with
  | none => .noKeyId
  | some keyId =>
      match loadAppStateMainKey keys keyId with
      | .error _ => .badKey
      | .ok none => .noKey keyId
      | .ok (some mainKey) =>
          match record.value with
          | none => .noBlob
          | some blob =>
              if h : 16 + 32 ≤ blob.length then openValue W P mainKey blob h else .noBlob

/-- A snapshot or patch is refused over such a record; over one without a readable value only a
    patch is. -/
def Reading.fatal (strict : Bool) : Reading → Bool
  | .noRecord => true
  | .badKey => true
  | .noBlob => strict
  | _ => false

/-- What the record loop has collected. -/
structure Reads where
  missing : List Bytes
  out : List AppStateMutation
  valueMacs : List (UInt8 × U8Array 32)

def Reads.empty : Reads := ⟨[], [], []⟩

def operationByte (m : SyncdMutation) : UInt8 := (m.operation.getD 0).toUInt32.toUInt8

def Reads.after (acc : Reads) (m : SyncdMutation) : Reading → Reads
  | .noKey keyId => { acc with missing := acc.missing ++ [keyId] }
  | .read mutations mac =>
      { acc with
        out := acc.out ++ mutations, valueMacs := acc.valueMacs ++ [(operationByte m, mac)] }
  | _ => acc

/-- A record of a patch can be missing altogether. -/
def readMutation (keys : Bytes → Option Bytes) (fallback : Option Bytes) (m : SyncdMutation) :
    Reading :=
  match m.record with
  | none => .noRecord
  | some record => readRecord W P keys fallback record

/-- The records in order, up to one that is fatal. -/
def readMutations (strict : Bool) (keys : Bytes → Option Bytes) (fallback : Option Bytes) :
    Reads → List SyncdMutation → Reads × Bool
  | acc, [] => (acc, true)
  | acc, m :: ms =>
      let reading := readMutation W P keys fallback m
      if reading.fatal strict then (acc, false)
      else readMutations strict keys fallback (acc.after m reading) ms

/-- One value MAC: set adds and remove subtracts. -/
def hashMac (h : LtHash) (mac : UInt8 × U8Array 32) : LtHash :=
  if mac.1 = 1 then h.sub (expandValueMacToLthashInput P mac.2)
  else h.add (expandValueMacToLthashInput P mac.2)

def hashFrom (h : LtHash) (macs : List (UInt8 × U8Array 32)) : LtHash := macs.foldl (hashMac P) h

/-! ## 5. Snapshots and patches -/

/-- A download and whether the tables of the mirror take a write. -/
structure Given where
  fetch : List Char → Option Bytes
  takes : AppStateMutation → Bool

/-- `media::decrypt` for the app state: ciphertext and ten bytes of MAC. -/
def mediaDecrypt (blob : Bytes) (mediaKey : U8Array 32) : Option Bytes :=
  if blob.length < 10 then none
  else
    let ct := blob.take (blob.length - 10)
    let out := P.hashing.hkdf (List.replicate 32 0) mediaKey.bytes (utf8 "WhatsApp App State Keys") 112
    let iv := out.slice 0 16 (by decide)
    if (P.hashing.hmac (out.slice 48 32 (by decide)).bytes (iv.bytes ++ ct)).bytes.take 10 ≠
        blob.drop (blob.length - 10) then none
    else P.cbc.decrypt (out.slice 16 32 (by decide)) iv ct

/-- The content of a `<snapshot>` or of a `<patch>`, if it is bytes. -/
inductive Work where
  | snapshot (content : Option Bytes)
  | patch (content : Option Bytes)

def bytesOf (n : Node) : Option Bytes :=
  match n.content with
  | .bytes b => some b
  | _ => none

/-- What a collection brings, in order. -/
def workOf (children : List Node) : List Work :=
  children.flatMap fun child =>
    if child.tag = "snapshot" then [.snapshot (bytesOf child)]
    else if child.tag = "patches" then
      match child.content with
      | .nodes ns => (ns.filter fun p => p.tag = "patch").map fun p => .patch (bytesOf p)
      | _ => []
    else []

/-- The blob that a reference leads to. -/
def downloadSnapshot (given : Given) (content : Bytes) : Option Bytes := do
  let ext ← W.blobRef content
  let directPath ← ext.directPath
  let mk ← ext.mediaKey
  let mediaKey ← U8Array.ofBytes? 32 mk
  let blob ← given.fetch directPath
  mediaDecrypt P blob mediaKey

/-- A snapshot or patch that could be decoded. A snapshot has a version; all its records set. -/
structure Opened where
  version : Option Nat
  mutations : List SyncdMutation
  keyId : Option Bytes

def openWork (given : Given) : Work → Option Opened
  | .snapshot content => do
      let blob ← downloadSnapshot W P given (← content)
      let snap ← W.snapshot blob
      return ⟨some (snap.version.getD 0), snap.records.map fun r => ⟨none, some r⟩, snap.keyId⟩
  | .patch content => do
      let patch ← W.patch (← content)
      return ⟨none, patch.mutations, patch.keyId⟩

/-- A patch is strict about its values. -/
def Opened.strict (o : Opened) : Bool := o.version.isNone

def Opened.reads (keys : Bytes → Option Bytes) (o : Opened) : Reads × Bool :=
  readMutations W P o.strict keys o.keyId Reads.empty o.mutations

/-- What is to be written to the cursor. -/
inductive Write where
  | bump (hash : LtHash)
  | set (version : Nat) (hash : LtHash)

/-- What is to be written when the records have been read. -/
structure Pending where
  mutations : List AppStateMutation
  write : Option Write

/-- The hash of a patch goes on from that of the collection, that of a snapshot starts anew. The
    cursor is not moved by a snapshot whose keys are not all there. -/
def decodeWork (keys : Bytes → Option Bytes) (hash : LtHash) (o : Opened) :
    List Bytes × Option Pending :=
  let reads := o.reads W P keys
  if reads.2 then
    match o.version with
    | none => (reads.1.missing, some ⟨reads.1.out, some (.bump (hashFrom P hash reads.1.valueMacs))⟩)
    | some version =>
        (reads.1.missing, some ⟨reads.1.out,
          if reads.1.missing = [] then
            some (.set version (hashFrom P LtHash.zero reads.1.valueMacs))
          else none⟩)
  else (reads.1.missing, none)

/-- What has been read is applied; an error of a table is passed over. -/
def applyMutations (given : Given) (store : AppStore) (mutations : List AppStateMutation) :
    AppStore :=
  { store with mirror := (mutations.filter given.takes).reverse ++ store.mirror }

def writeCursor (store : AppStore) (name : String) : Option Write → AppStore
  | none => store
  | some (.bump hash) => appStateVersionBump store name hash
  | some (.set version hash) => appStateVersionSet store name version hash

def finish (given : Given) (store : AppStore) (name : String) (p : Pending) : AppStore :=
  applyMutations given (writeCursor store name p.write) p.mutations

/-! ## 6. A reply -/

/-- The store, the missing keys so far, and the collections that were marked synced. -/
structure Walk where
  store : AppStore
  missing : List Bytes
  marked : List String

def handleWork (given : Given) (name : String) (w : Walk) (work : Work) : Walk :=
  match openWork W P given work with
  | none => w
  | some o =>
      let decoded := decodeWork W P w.store.mainKeys (cursorOf w.store name).hash o
      { w with
        store := decoded.2.elim w.store (finish given w.store name)
        missing := w.missing ++ decoded.1 }

def collectionName (c : Node) : String := (c.attrs.get? "name").getD ""

def handleCollection (given : Given) (w : Walk) (c : Node) : Walk :=
  let name := collectionName c
  match c.content with
  | .nodes children =>
      let w' := (workOf children).foldl (handleWork W P given name) w
      if w'.missing.length = w.missing.length then { w' with marked := w'.marked ++ [name] } else w'
  | _ => { w with marked := w.marked ++ [name] }

def collectionsOf (sync : Node) : List Node :=
  match sync.content with
  | .nodes ns => ns.filter fun c => c.tag = "collection"
  | _ => []

/-- The ids that have not been asked for, and all that have been afterwards. -/
def takeUnrequested (seen : List Bytes) : List Bytes → List Bytes × List Bytes
  | [] => ([], seen)
  | keyId :: ids =>
      if seen.contains keyId then takeUnrequested seen ids
      else
        let rest := takeUnrequested (keyId :: seen) ids
        (keyId :: rest.1, rest.2)

/-- The store after a reply, the collections it marks, the keys to request and all requested. -/
def handleAppStateSyncIq (given : Given) (store : AppStore) (requested : List Bytes) (sync : Node) :
    AppStore × List String × List Bytes × List Bytes :=
  let w := (collectionsOf sync).foldl (handleCollection W P given) ⟨store, [], []⟩
  (w.store, w.marked, takeUnrequested requested w.missing)

end

/-! ## 7. The record loop -/

section Loop

variable (W : Wire) (P : Primitives) (strict : Bool) (keys : Bytes → Option Bytes)
  (fallback : Option Bytes)

/-- The records before the first one that is fatal. -/
def reached (ms : List SyncdMutation) : List SyncdMutation :=
  ms.takeWhile fun m => !(readMutation W P keys fallback m).fatal strict

def Reading.lacking : Reading → List Bytes
  | .noKey keyId => [keyId]
  | _ => []

def Reading.out : Reading → List AppStateMutation
  | .read mutations _ => mutations
  | _ => []

def Reading.valueMacs (m : SyncdMutation) : Reading → List (UInt8 × U8Array 32)
  | .read _ mac => [(operationByte m, mac)]
  | _ => []

theorem Reads.after_eq (acc : Reads) (m : SyncdMutation) (r : Reading) :
    acc.after m r =
      ⟨acc.missing ++ r.lacking, acc.out ++ r.out, acc.valueMacs ++ r.valueMacs m⟩ := by
  cases r with
  | noKey keyId => simp [Reads.after, Reading.lacking, Reading.out, Reading.valueMacs]
  | read mutations mac => simp [Reads.after, Reading.lacking, Reading.out, Reading.valueMacs]
  | noRecord => simp [Reads.after, Reading.lacking, Reading.out, Reading.valueMacs]
  | noKeyId => simp [Reads.after, Reading.lacking, Reading.out, Reading.valueMacs]
  | badKey => simp [Reads.after, Reading.lacking, Reading.out, Reading.valueMacs]
  | noBlob => simp [Reads.after, Reading.lacking, Reading.out, Reading.valueMacs]
  | undecryptable => simp [Reads.after, Reading.lacking, Reading.out, Reading.valueMacs]
  | undecodable => simp [Reads.after, Reading.lacking, Reading.out, Reading.valueMacs]
  | noValue => simp [Reads.after, Reading.lacking, Reading.out, Reading.valueMacs]

/-- **The record loop** collects what the records before a fatal one read as; without a fatal one
    the snapshot or patch is accepted. -/
theorem readMutations_spec (acc : Reads) (ms : List SyncdMutation) :
    readMutations W P strict keys fallback acc ms =
      (⟨acc.missing ++ (reached W P strict keys fallback ms).flatMap fun m =>
            (readMutation W P keys fallback m).lacking,
          acc.out ++ (reached W P strict keys fallback ms).flatMap fun m =>
            (readMutation W P keys fallback m).out,
          acc.valueMacs ++ (reached W P strict keys fallback ms).flatMap fun m =>
            (readMutation W P keys fallback m).valueMacs m⟩,
        ms.all fun m => !(readMutation W P keys fallback m).fatal strict) := by
  induction ms generalizing acc with
  | nil => simp [readMutations, reached]
  | cons m ms ih =>
      unfold readMutations reached
      dsimp only
      rw [List.takeWhile_cons, List.all_cons]
      cases hfatal : (readMutation W P keys fallback m).fatal strict with
      | true => simp
      | false =>
          rw [if_neg Bool.false_ne_true, ih, Reads.after_eq]
          simp [reached, List.append_assoc]

end Loop

section Frame

variable {W : Wire} {P : Primitives} {given : Given}

theorem writeCursor_mainKeys (store : AppStore) (name : String) (w : Option Write) :
    (writeCursor store name w).mainKeys = store.mainKeys := by
  cases w with
  | none => rfl
  | some w =>
      cases w with
      | bump hash => rfl
      | set version hash => rfl

/-- The keys stay as they are. -/
theorem handleWork_mainKeys (name : String) (w : Walk) (work : Work) :
    (handleWork W P given name w work).store.mainKeys = w.store.mainKeys := by
  unfold handleWork
  cases openWork W P given work with
  | none => rfl
  | some o =>
      dsimp only
      cases (decodeWork W P w.store.mainKeys (cursorOf w.store name).hash o).2 with
      | none => rfl
      | some p => exact writeCursor_mainKeys w.store name p.write

/-- Another collection's cursor stays where it is. -/
theorem cursorOf_writeCursor_ne (store : AppStore) {name other : String} (h : name ≠ other)
    (w : Option Write) : cursorOf (writeCursor store name w) other = cursorOf store other := by
  cases w with
  | none => rfl
  | some w =>
      cases w with
      | bump hash => exact cursorOf_set_ne store _ hash h
      | set version hash => exact cursorOf_set_ne store version hash h

end Frame

end Ruwa.Session.AppState
