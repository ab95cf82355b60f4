/-
  File:      Ruwa/Session/AppStateMac.lean
  Subject:   THE MACS OF A PATCH (`session.rs`, `decode_authenticated_app_state_patch`,
             `compute_app_state_value_mac`).

  Each value has a MAC of its own, and the patch one for the hash that results and one for itself.
  They are computed and compared, but what comes of it is a line in the log: a device that refused
  would never finish its sync. A patch is refused over what cannot be read at all.

  * `handleWork_patch` -- this is the function that a reply is handled with;
  * `acceptable_iff` -- what a mutation must have;
  * **`patch_best_effort`** -- what is accepted, what is written, what is logged, and that no MAC
    decides anything; `forged_accepted` is a run in which that is the attacker's.
-/
import Ruwa.Session.AppStateHash

namespace Ruwa.Session.AppState

open Ruwa.Library
open Ruwa.Crypto

/-! ## 1. The MACs -/

structure ExpandedAppStateKeys where
  mutationMacKey : U8Array 32
  mutationCipherKey : U8Array 32
  valueMacKey : U8Array 32
  snapshotMacKey : U8Array 32
  patchMacKey : U8Array 32

/-- What the MACs need besides: HMAC-SHA512, and which key a hash map of keys gives first. -/
structure MacPrimitives where
  hmac512 : Bytes → Bytes → U8Array 64
  firstKey : List Bytes → Option Bytes

inductive AppStateError where
  | undecodable
  | badRequest (text : String)
  | internal (text : String)

/-- A MAC that is not right, in the log. -/
inductive Mismatch where
  | value (op : UInt8)
  | snapshot
  | patch
  deriving DecidableEq

structure PatchOutcome where
  result : Except AppStateError (List AppStateMutation)
  store : AppStore
  missing : List Bytes
  log : List Mismatch

/-- What the loop compares for a record. -/
structure Compared where
  mainKey : U8Array 32
  keyId : Bytes
  op : UInt8
  data : Bytes
  received : Bytes

section

variable (W : Wire) (P : Primitives) (M : MacPrimitives)

theorem cipherKey_fits : 32 + 32 ≤ 160 := by decide

theorem valueMac_fits : 0 + 32 ≤ 64 := by decide

def expandAppStateKeys (mainKey : U8Array 32) : ExpandedAppStateKeys :=
  let out := P.hashing.hkdf (List.replicate 32 0) mainKey.bytes (utf8 "WhatsApp Mutation Keys") 160
  { mutationMacKey := out.slice 0 32 (by decide)
    mutationCipherKey := out.slice 32 32 cipherKey_fits
    valueMacKey := out.slice 64 32 (by decide)
    snapshotMacKey := out.slice 96 32 (by decide)
    patchMacKey := out.slice 128 32 (by decide) }

/-- The key that the records are decrypted with. -/
theorem expand_cipher (mainKey : U8Array 32) :
    (expandAppStateKeys P mainKey).mutationCipherKey = mutationCipherKey P mainKey := rfl

def computeAppStateValueMac (valueMacKey : U8Array 32) (operation : UInt8) (keyId data : Bytes) :
    U8Array 32 :=
  (M.hmac512 valueMacKey.bytes
    ((operation + 1) :: (keyId ++ data ++ toBE 8 (keyId.length + 1)))).slice 0 32 valueMac_fits

/-- The key of a record, if it has one that is held. -/
def recordKey (keys : Bytes → Option Bytes) (fallback : Option Bytes) (m : SyncdMutation) :
    Option (Bytes × U8Array 32) := do
  let record ← m.record
  let keyId ← record.keyId.or fallback
  match loadAppStateMainKey keys keyId with
  | .ok (some mainKey) => some (keyId, mainKey)
  | _ => none

def compared (keys : Bytes → Option Bytes) (fallback : Option Bytes) (m : SyncdMutation) :
    Option Compared := do
  let (keyId, mainKey) ← recordKey keys fallback m
  let blob ← m.record.bind SyncdRecord.value
  if 16 + 32 ≤ blob.length then
    some ⟨mainKey, keyId, operationByte m, blob.take (blob.length - 32),
      blob.drop (blob.length - 32)⟩
  else none

def Compared.right (c : Compared) : Bool :=
  (computeAppStateValueMac M (expandAppStateKeys P c.mainKey).valueMacKey c.op c.keyId
    c.data).bytes = c.received

def valueMismatch (keys : Bytes → Option Bytes) (fallback : Option Bytes) (m : SyncdMutation) :
    List Mismatch :=
  match compared keys fallback m with
  | some c => if c.right P M then [] else [.value c.op]
  | none => []

/-- The key of the two other MACs: that of the patch, or else one of the records', if it was loaded
    for a record. -/
def collectionKey (keys : Bytes → Option Bytes) (patch : SyncdPatch) :
    Option (Bytes × U8Array 32) := do
  let cache := patch.mutations.filterMap (recordKey keys patch.keyId)
  let keyId ← patch.keyId.or (M.firstKey (cache.map Prod.fst))
  cache.find? fun row => row.1 = keyId

/-- Whether a MAC that came along, if one did, is the one that is wanted. -/
def macRight (computed : U8Array 32) : Option Bytes → Bool
  | some received => computed.bytes = received
  | none => true

def snapshotRight (key : Bytes × U8Array 32) (patch : SyncdPatch) (hash : LtHash) : Bool :=
  macRight (P.hashing.hmac (expandAppStateKeys P key.2).snapshotMacKey.bytes (hash.bytes ++ key.1))
    patch.snapshotMac

def patchRight (key : Bytes × U8Array 32) (patch : SyncdPatch) : Bool :=
  macRight (P.hashing.hmac (expandAppStateKeys P key.2).patchMacKey.bytes
    (patch.snapshotMac.getD [] ++ key.1)) patch.patchMac

def collectionMismatch (keys : Bytes → Option Bytes) (patch : SyncdPatch) (hash : LtHash) :
    List Mismatch :=
  match collectionKey M keys patch with
  | some key =>
      (if snapshotRight P key patch hash then [] else [.snapshot]) ++
        if patchRight P key patch then [] else [.patch]
  | none => []

/-! ## 2. The function -/

/-- The error over a record that a patch is refused for. -/
def fatalError (keys : Bytes → Option Bytes) (fallback : Option Bytes) (m : SyncdMutation) :
    AppStateError :=
  match m.record with
  | none => .badRequest "mutation missing record"
  | some record =>
      match (record.keyId.or fallback).map (loadAppStateMainKey keys) with
      | some (.error _) => .internal "stored app-state key has wrong length"
      | _ =>
          match record.value with
          | none => .badRequest "mutation missing value blob"
          | some _ => .badRequest "value blob too short for iv+mac"

def decodeAuthenticatedAppStatePatch (store : AppStore) (name : String) (patchBytes : Bytes) :
    PatchOutcome :=
  match W.patch patchBytes with
  | none => ⟨.error .undecodable, store, [], []⟩
  | some patch =>
      let keys := store.mainKeys
      let reads := (readMutations W P true keys patch.keyId Reads.empty patch.mutations).1
      let log := (reached W P true keys patch.keyId patch.mutations).flatMap
        (valueMismatch P M keys patch.keyId)
      match patch.mutations.find? fun m => (readMutation W P keys patch.keyId m).fatal true with
      | some m => ⟨.error (fatalError keys patch.keyId m), store, reads.missing, log⟩
      | none =>
          let hash := hashFrom P (cursorOf store name).hash reads.valueMacs
          ⟨.ok reads.out, appStateVersionBump store name hash, reads.missing,
            log ++ collectionMismatch P M keys patch hash⟩

end

section

variable {W : Wire} {P : Primitives}

theorem accepted_eq_find (strict : Bool) (keys : Bytes → Option Bytes) (fallback : Option Bytes)
    (acc : Reads) (ms : List SyncdMutation) :
    (readMutations W P strict keys fallback acc ms).2 =
      (ms.find? fun m => (readMutation W P keys fallback m).fatal strict).isNone := by
  rw [readMutations_spec, Bool.eq_iff_iff]
  simp [List.find?_eq_none]

/-- **A patch of a reply is handled by this function.** -/
theorem handleWork_patch (M : MacPrimitives) (given : Given) (name : String) (w : Walk)
    (patchBytes : Bytes) :
    let outcome := decodeAuthenticatedAppStatePatch W P M w.store name patchBytes
    handleWork W P given name w (.patch (some patchBytes)) =
      { w with
        store := match outcome.result with
          | .ok mutations => applyMutations given outcome.store mutations
          | .error _ => outcome.store
        missing := w.missing ++ outcome.missing } := by
  intro outcome
  unfold outcome decodeAuthenticatedAppStatePatch handleWork openWork
  cases hpatch : W.patch patchBytes with
  | none =>
      simp [hpatch]
  | some patch =>
      simp only [hpatch, Option.bind_eq_bind, Option.bind_some, Option.pure_def]
      have haccepted := accepted_eq_find (W := W) (P := P) true w.store.mainKeys patch.keyId
        Reads.empty patch.mutations
      unfold decodeWork Opened.reads Opened.strict
      dsimp only [Option.isNone_none]
      rw [haccepted]
      cases patch.mutations.find? fun m =>
        (readMutation W P w.store.mainKeys patch.keyId m).fatal true with
      | none => rfl
      | some m => rfl

/-! ## 3. What decides -/

/-- **What a mutation must have**: a record, and where it names a key that is stored, a key of the
    right length and a value that is long enough. -/
def Acceptable (keys : Bytes → Option Bytes) (fallback : Option Bytes) (m : SyncdMutation) : Prop :=
  ∃ record, m.record = some record ∧ ∀ keyId ∈ record.keyId.or fallback, ∀ key ∈ keys keyId,
    key.length = 32 ∧ ∃ blob ∈ record.value, 16 + 32 ≤ blob.length

theorem openValue_fatal {mainKey : U8Array 32} {blob : Bytes} (h : 16 + 32 ≤ blob.length)
    (strict : Bool) : (openValue W P mainKey blob h).fatal strict = false := by
  unfold openValue
  dsimp only
  split
  · rfl
  · split
    · rfl
    · split
      · rfl
      · rfl

theorem acceptable_iff {keys : Bytes → Option Bytes} {fallback : Option Bytes} {m : SyncdMutation} :
    (readMutation W P keys fallback m).fatal true = false ↔ Acceptable keys fallback m := by
  unfold readMutation Acceptable
  cases hrecord : m.record with
  | none => simp [Reading.fatal]
  | some record =>
      simp only [Option.some.injEq, exists_eq_left']
      unfold readRecord loadAppStateMainKey
      cases hkeyId : record.keyId.or fallback with
      | none => simp [Reading.fatal]
      | some keyId =>
          simp only [Option.mem_def, Option.some.injEq, forall_eq']
          cases hkey : keys keyId with
          | none => simp [Reading.fatal]
          | some key =>
              simp only [Option.some.injEq, forall_eq']
              by_cases hlen : key.length = 32
              · rw [show U8Array.ofBytes? 32 key = some ⟨key, hlen⟩ from dif_pos hlen]
                dsimp only
                cases hvalue : record.value with
                | none => simp [Reading.fatal]
                | some blob =>
                    by_cases hblob : 16 + 32 ≤ blob.length
                    · dsimp only
                      rw [dif_pos hblob]
                      exact ⟨fun _ => ⟨hlen, blob, rfl, hblob⟩, fun _ => openValue_fatal hblob true⟩
                    · dsimp only
                      rw [dif_neg hblob]
                      refine ⟨fun h => Bool.noConfusion h, ?_⟩
                      rintro ⟨-, blob', hblob', hlong⟩
                      cases hblob'
                      exact absurd hlong hblob
              · rw [show U8Array.ofBytes? 32 key = none from dif_neg hlen]
                exact ⟨fun h => Bool.noConfusion h, fun h => absurd h.1 hlen⟩

/-- **All MACs are right**: that of each value that comes to be compared, and with a key that was
    loaded those of the patch, for the hash that results. -/
structure Verified (P : Primitives) (M : MacPrimitives) (keys : Bytes → Option Bytes)
    (patch : SyncdPatch) (hash : LtHash) : Prop where
  values : ∀ m ∈ patch.mutations, ∀ c ∈ compared keys patch.keyId m, c.right P M = true
  collection : ∀ key ∈ collectionKey M keys patch,
    snapshotRight P key patch hash = true ∧ patchRight P key patch = true

/-- The hash after a patch: that of before, and the value MACs of the records that can be read. -/
def hashAfter (W : Wire) (P : Primitives) (store : AppStore) (name : String) (patch : SyncdPatch) :
    LtHash :=
  hashFrom P (cursorOf store name).hash (patch.mutations.flatMap fun m =>
    (readMutation W P store.mainKeys patch.keyId m).valueMacs m)

/-- **Best effort**: what can be read is taken, an error leaves everything as it is, and MACs are for
    the log, which names none exactly if they are all right. -/
structure BestEffort (W : Wire) (P : Primitives) (M : MacPrimitives) (store : AppStore)
    (name : String) (patchBytes : Bytes) (outcome : PatchOutcome) : Prop where
  accepted : (∃ mutations, outcome.result = .ok mutations) ↔
    ∃ patch, W.patch patchBytes = some patch ∧
      ∀ m ∈ patch.mutations, Acceptable store.mainKeys patch.keyId m
  ok : ∀ mutations patch, outcome.result = .ok mutations → W.patch patchBytes = some patch →
    mutations = (patch.mutations.flatMap fun m =>
        (readMutation W P store.mainKeys patch.keyId m).out) ∧
      outcome.store = appStateVersionBump store name (hashAfter W P store name patch) ∧
      (outcome.log = [] ↔ Verified P M store.mainKeys patch (hashAfter W P store name patch))
  error : ∀ e, outcome.result = .error e → outcome.store = store
  blind : ∀ hmac M',
    let other := decodeAuthenticatedAppStatePatch W
      { P with hashing := { P.hashing with hmac } } M' store name patchBytes
    other.result = outcome.result ∧ other.store = outcome.store ∧ other.missing = outcome.missing

/-- What the documentation of the function says: a patch is accepted only if its MACs are right, and
    otherwise refused without a trace. -/
def Authenticates (W : Wire) (P : Primitives) (M : MacPrimitives) (store : AppStore) (name : String)
    (patchBytes : Bytes) (outcome : PatchOutcome) : Prop :=
  ∀ patch, W.patch patchBytes = some patch →
    let verified := Verified P M store.mainKeys patch (hashAfter W P store name patch)
    ((∃ mutations, outcome.result = .ok mutations) → verified) ∧
      (¬verified → (∃ e, outcome.result = .error e) ∧
        cursorOf outcome.store name = cursorOf store name)

theorem valueMismatch_nil {P : Primitives} {M : MacPrimitives} {keys : Bytes → Option Bytes}
    {fallback : Option Bytes} {m : SyncdMutation} :
    valueMismatch P M keys fallback m = [] ↔
      ∀ c ∈ compared keys fallback m, c.right P M = true := by
  unfold valueMismatch
  cases compared keys fallback m with
  | none => simp
  | some c => simp

theorem collectionMismatch_nil {P : Primitives} {M : MacPrimitives} {keys : Bytes → Option Bytes}
    {patch : SyncdPatch} {hash : LtHash} :
    collectionMismatch P M keys patch hash = [] ↔
      ∀ key ∈ collectionKey M keys patch,
        snapshotRight P key patch hash = true ∧ patchRight P key patch = true := by
  unfold collectionMismatch
  cases collectionKey M keys patch with
  | none => simp
  | some key => simp

variable {M : MacPrimitives} {store : AppStore} {name : String} {patchBytes : Bytes}
  {patch : SyncdPatch}

variable (name) in
/-- A patch that is refused. -/
theorem decode_refused (hpatch : W.patch patchBytes = some patch)
    (h : ¬∀ m ∈ patch.mutations, Acceptable store.mainKeys patch.keyId m) :
    ∃ e missing log, decodeAuthenticatedAppStatePatch W P M store name patchBytes =
      ⟨.error e, store, missing, log⟩ := by
  unfold decodeAuthenticatedAppStatePatch
  rw [hpatch]
  dsimp only
  cases hfind : patch.mutations.find? fun m =>
      (readMutation W P store.mainKeys patch.keyId m).fatal true with
  | none =>
      refine absurd (fun m hm => (acceptable_iff (W := W) (P := P)).mp ?_) h
      exact Bool.eq_false_iff.mpr (List.find?_eq_none.mp hfind m hm)
  | some m => exact ⟨_, _, _, rfl⟩

variable (name) in
/-- One that is accepted. -/
theorem decode_accepted (hpatch : W.patch patchBytes = some patch)
    (h : ∀ m ∈ patch.mutations, Acceptable store.mainKeys patch.keyId m) :
    ∃ missing, decodeAuthenticatedAppStatePatch W P M store name patchBytes =
      ⟨.ok (patch.mutations.flatMap fun m => (readMutation W P store.mainKeys patch.keyId m).out),
        appStateVersionBump store name (hashAfter W P store name patch), missing,
        patch.mutations.flatMap (valueMismatch P M store.mainKeys patch.keyId) ++
          collectionMismatch P M store.mainKeys patch (hashAfter W P store name patch)⟩ := by
  have hfatal : ∀ m ∈ patch.mutations,
      (readMutation W P store.mainKeys patch.keyId m).fatal true = false :=
    fun m hm => acceptable_iff.mpr (h m hm)
  have hfind : (patch.mutations.find? fun m =>
      (readMutation W P store.mainKeys patch.keyId m).fatal true) = none :=
    List.find?_eq_none.mpr fun m hm => Bool.eq_false_iff.mp (hfatal m hm)
  unfold decodeAuthenticatedAppStatePatch
  rw [hpatch]
  dsimp only
  rw [hfind, readMutations_spec, reached_eq_self hfatal]
  exact ⟨_, rfl⟩

/-- Reading a record takes no MAC. -/
theorem readMutations_blind (hmac : Bytes → Bytes → U8Array 32) :
    readMutations W { P with hashing := { P.hashing with hmac } } = readMutations W P := by
  funext strict keys fallback acc ms
  rw [readMutations_spec, readMutations_spec]
  rfl

/-- **The MACs decide nothing.** -/
theorem decode_blind (hmac : Bytes → Bytes → U8Array 32) (M' : MacPrimitives) :
    let outcome := decodeAuthenticatedAppStatePatch W P M store name patchBytes
    let other := decodeAuthenticatedAppStatePatch W
      { P with hashing := { P.hashing with hmac } } M' store name patchBytes
    other.result = outcome.result ∧ other.store = outcome.store ∧
      other.missing = outcome.missing := by
  have hread : readMutation W { P with hashing := { P.hashing with hmac } } = readMutation W P := rfl
  intro outcome other
  unfold outcome other decodeAuthenticatedAppStatePatch
  rw [hread, readMutations_blind]
  cases W.patch patchBytes with
  | none => exact ⟨rfl, rfl, rfl⟩
  | some patch =>
      dsimp only
      cases patch.mutations.find? fun m =>
          (readMutation W P store.mainKeys patch.keyId m).fatal true with
      | none => exact ⟨rfl, rfl, rfl⟩
      | some m => exact ⟨rfl, rfl, rfl⟩

/-- The log of a patch that is accepted. -/
theorem log_nil_iff {hash : LtHash} :
    patch.mutations.flatMap (valueMismatch P M store.mainKeys patch.keyId) ++
        collectionMismatch P M store.mainKeys patch hash = [] ↔
      Verified P M store.mainKeys patch hash := by
  rw [List.append_eq_nil_iff, List.flatMap_eq_nil_iff, collectionMismatch_nil]
  simp only [valueMismatch_nil]
  exact ⟨fun h => ⟨h.1, h.2⟩, fun h => ⟨h.values, h.collection⟩⟩

/-- What was accepted and logged is not verified. -/
theorem not_authenticates (hpatch : W.patch patchBytes = some patch)
    (hlog : (decodeAuthenticatedAppStatePatch W P M store name patchBytes).log ≠ [])
    (hok : (decodeAuthenticatedAppStatePatch W P M store name patchBytes).result.toOption ≠ none) :
    ¬Authenticates W P M store name patchBytes
      (decodeAuthenticatedAppStatePatch W P M store name patchBytes) := by
  intro hauthentic
  by_cases h : ∀ m ∈ patch.mutations, Acceptable store.mainKeys patch.keyId m
  · obtain ⟨missing, haccepted⟩ := decode_accepted (P := P) (M := M) name hpatch h
    rw [haccepted] at hlog hauthentic
    exact hlog (log_nil_iff.mpr ((hauthentic patch hpatch).1 ⟨_, rfl⟩))
  · obtain ⟨e, missing, log, herror⟩ := decode_refused (P := P) (M := M) name hpatch h
    rw [herror] at hok
    exact hok rfl

end

/-- **What a patch needs, and what its MACs are for**, for every store, every patch and every key. -/
theorem patch_best_effort (W : Wire) (P : Primitives) (M : MacPrimitives) (store : AppStore)
    (name : String) (patchBytes : Bytes) :
    BestEffort W P M store name patchBytes
      (decodeAuthenticatedAppStatePatch W P M store name patchBytes) := by
  cases hpatch : W.patch patchBytes with
  | none =>
      have hnone : decodeAuthenticatedAppStatePatch W P M store name patchBytes =
          ⟨.error .undecodable, store, [], []⟩ := by
        unfold decodeAuthenticatedAppStatePatch
        rw [hpatch]
      refine ⟨⟨?_, ?_⟩, ?_, fun e _ => by rw [hnone], fun hmac M' => decode_blind hmac M'⟩
      · rintro ⟨mutations, hok⟩
        rw [hnone] at hok
        cases hok
      · rintro ⟨patch, hsome, -⟩
        cases hpatch.symm.trans hsome
      · intro mutations patch _ hsome
        cases hpatch.symm.trans hsome
  | some patch =>
      by_cases h : ∀ m ∈ patch.mutations, Acceptable store.mainKeys patch.keyId m
      · obtain ⟨missing, hok⟩ := decode_accepted (P := P) (M := M) name hpatch h
        refine ⟨⟨fun _ => ⟨patch, hpatch, h⟩, fun _ => ⟨_, by rw [hok]⟩⟩, ?_, ?_,
          fun hmac M' => decode_blind hmac M'⟩
        · intro mutations patch' hresult hpatch'
          cases hpatch.symm.trans hpatch'
          rw [hok] at hresult ⊢
          exact ⟨(Except.ok.inj hresult).symm, rfl, log_nil_iff⟩
        · intro e hresult
          rw [hok] at hresult
          cases hresult
      · obtain ⟨e, missing, log, herror⟩ :=
          decode_refused (P := P) (M := M) name hpatch h
        refine ⟨⟨?_, ?_⟩, ?_, fun e _ => by rw [herror], fun hmac M' => decode_blind hmac M'⟩
        · rintro ⟨mutations, hok⟩
          rw [herror] at hok
          cases hok
        · rintro ⟨patch', hpatch', hall⟩
          cases hpatch.symm.trans hpatch'
          exact absurd hall h
        · intro mutations patch' hok
          rw [herror] at hok
          cases hok

/-! ## 4. A forgery -/

namespace Sample

/-- The pin with a MAC that nobody computed. -/
def forged : SealedValue where
  iv := pinned.iv
  ct := pinned.ct
  mac := .replicate 32 0xff
  expansion := words [
    0xbdc8a635a65b698ef2e0ced322382dac7926e2f5b7931580061db1571a1498bc,
    0x70c231a0d7496091b449d7b515beabf99196e4e85c0c1547436e022d6fc1014a,
    0xc89c16e12debcbdfc6ccbf47dc82f7166af54acf02ab0d263f4a75bbfd186d8d,
    0x88f58e8bfacb30debcf7efd52be54dd04b2d0708e339a4959b009197b59f1e40]

/-- The pin as it was sent, in a patch with a snapshot MAC that nobody computed. -/
def unvouchedBytes : Bytes :=
  patchBytes 0 chatIndex pinned ++ [0x22, 0x20] ++ List.replicate 32 0 ++ [0x32, 8, 0x0a, 6] ++
    mainKeyId

def unvouched : SyncdPatch :=
  { patchOf 0 chatIndex pinned with
    snapshotMac := some (List.replicate 32 0), keyId := some mainKeyId }

def forgedWire : Wire :=
  { pinWire with
    patch := known [
      (patchBytes 0 chatIndex forged, some (patchOf 0 chatIndex forged)),
      (unvouchedBytes, some unvouched)] none }

/-- The MACs that the program wants. -/
def rightMacs : MacPrimitives where
  hmac512 key message := known [
    (((expanded.drop 64).take 32,
        1 :: (mainKeyId ++ (pinned.iv.bytes ++ pinned.ct) ++ [0, 0, 0, 0, 0, 0, 0, 7])),
      U8Array.ofNat 64
        0x2573cd60a9ef01fdbefd3994bb19a3da098585501808ece5b0c4c86d7921c3aef69f6bc407b149bee8125fc3542fa49809f6a822d15c97077981f050b993a5ac)]
    (U8Array.replicate 64 0) (key, message)
  firstKey := List.head?

def forgedPrimitives : Primitives where
  hashing := .ofTable []
    [(((expanded.drop 96).take 32, pinned.expansion ++ mainKeyId), .ofNat 32
      0x2e010a204d565c112c1afb30137590013e8aab684d25a33d6651285b2465a1b8)]
    (((List.replicate 32 0, mainKey.bytes, utf8 "WhatsApp Mutation Keys", 160), expanded) ::
      [pinned, forged].map fun v =>
        ((List.replicate 32 0, v.mac.bytes, utf8 "WhatsApp Patch LTHash", 128), v.expansion))
  cbc := pinPrimitives.cbc

def keyed : AppStore := ⟨[], mainKeys, []⟩

def decoded (patchBytes : Bytes) : PatchOutcome :=
  decodeAuthenticatedAppStatePatch forgedWire forgedPrimitives rightMacs keyed "regular_low"
    patchBytes

/-- The chat is pinned, although a MAC is wrong. -/
def Forgery (bytes : Bytes) (mismatch : Mismatch) : Prop :=
  (decoded bytes).result.toOption = some [.chatPin chat true] ∧ (decoded bytes).log = [mismatch] ∧
    ¬Authenticates forgedWire forgedPrimitives rightMacs keyed "regular_low" bytes (decoded bytes)

theorem forgery {bytes : Bytes} {mismatch : Mismatch} {p : SyncdPatch}
    (hpatch : forgedWire.patch bytes = some p)
    (hrun : (decoded bytes).result.toOption = some [.chatPin chat true] ∧
      (decoded bytes).log = [mismatch]) : Forgery bytes mismatch := by
  obtain ⟨hresult, hlog⟩ := hrun
  refine ⟨hresult, hlog, not_authenticates hpatch ?_ ?_⟩
  · exact fun h => nomatch hlog.symm.trans h
  · exact fun h => nomatch hresult.symm.trans h

end Sample

/-- **A forged value and a patch that nobody vouches for** pin the chat like any other; only the log
    tells them apart. -/
theorem forged_accepted :
    Sample.Forgery (Sample.patchBytes 0 Sample.chatIndex Sample.forged) (.value 0) ∧
      Sample.Forgery Sample.unvouchedBytes .snapshot := by
  have hforged : Sample.forgedWire.patch (Sample.patchBytes 0 Sample.chatIndex Sample.forged) =
      some (Sample.patchOf 0 Sample.chatIndex Sample.forged) := by decide +kernel
  have hunvouched : Sample.forgedWire.patch Sample.unvouchedBytes = some Sample.unvouched := by
    decide +kernel
  exact ⟨Sample.forgery hforged (by decide +kernel), Sample.forgery hunvouched (by decide +kernel)⟩

end Ruwa.Session.AppState
