/-
  File:      Ruwa/Session/Prekeys.lean
  Subject:   ONE-TIME PREKEYS (`session.rs`, `upload_pending_prekeys`, `replenish_prekeys`,
             `build_retry_keys_node`, `consume_prekey`; `store.rs`, `prekeys_*`).

  A prekey is generated under the next id, waits in the table, is uploaded with others or handed to
  one device in a retry receipt, and is deleted when a message that refers to it has been accepted.
  The next id is above the ids in the table, from which consumption deletes; a prekey that was
  handed out in a receipt waits for the upload like the others.

  * `offered_upload`, `offered_retry` -- what the nodes carry is what the log says is handed out;
  * `uploaded_of_waiting` -- what an upload hands out does not wait any more;
  * `le_prekeyMaxId`, `prekeyMaxId_lt` -- the ids that are assigned are above those in the table;
  * `kept_step` -- what a step may hand out and assign, exactly;
  * **`handed_once`** -- a run hands out each prekey once, under an id of its own that fits its three
    bytes, if no prekey of a receipt waits when something is uploaded and the highest id that was
    handed out is in the table when ids are assigned.
-/
import Ruwa.Library.Run
import Ruwa.Library.Bytes
import Ruwa.Protocol.Binary
import Mathlib.Data.List.OfFn
import Mathlib.Data.List.Sort

namespace Ruwa.Session.Prekeys

open Ruwa.Library
open Ruwa.Protocol.Binary (Node Content)

/-! ## 1. The table -/

structure KeyPair where
  priv : U8Array 32
  pub : U8Array 32
  deriving DecidableEq

structure PreKey where
  keyId : UInt32
  keypair : KeyPair
  deriving DecidableEq

/-- A row of one login; its key is the id. -/
structure PrekeyRow extends PreKey where
  uploaded : Bool
  deriving DecidableEq

/-- Up to `limit` rows that wait, by ascending id. -/
def prekeysPendingUpload (rows : List PrekeyRow) (limit : Nat) : List PrekeyRow :=
  ((rows.filter fun r => !r.uploaded).insertionSort
    fun r r' => r.keyId.toNat ≤ r'.keyId.toNat).take limit

def prekeysMarkUploaded (rows : List PrekeyRow) (upTo : UInt32) : List PrekeyRow :=
  rows.map fun r => if r.keyId.toNat ≤ upTo.toNat then { r with uploaded := true } else r

/-- `COALESCE(MAX(key_id), 0)`. -/
def prekeyMaxId (rows : List PrekeyRow) : UInt32 :=
  UInt32.ofNat (rows.foldr (fun r m => max r.keyId.toNat m) 0)

/-- All of the batch, or nothing if an id is taken. -/
def prekeysInsertBatch (rows : List PrekeyRow) : List PreKey → Option (List PrekeyRow)
  | [] => some rows
  | p :: batch =>
      if rows.any fun r => r.keyId = p.keyId then none
      else prekeysInsertBatch (rows ++ [⟨p, false⟩]) batch

def prekeyLoadPrivate (rows : List PrekeyRow) (keyId : UInt32) : Option (U8Array 32) :=
  (rows.find? fun r => r.keyId = keyId).map (·.keypair.priv)

def prekeyDelete (rows : List PrekeyRow) (keyId : UInt32) : List PrekeyRow :=
  rows.filter fun r => r.keyId ≠ keyId

/-! ## 2. The source -/

def WANTED_PREKEY_COUNT : Nat := 50
def INITIAL_PREKEY_COUNT : Nat := 30

/-- The ids from `startId` on, which wrap like the addition of the source. -/
def generateBatch (startId : UInt32) {count : Nat} (fresh : Fin count → KeyPair) : List PreKey :=
  List.ofFn fun i => ⟨startId + UInt32.ofNat i, fresh i⟩

structure SignedPrekey where
  keyId : UInt32
  pub : U8Array 32
  signature : U8Array 64

structure DeviceKeys where
  registrationId : UInt32
  identityPub : U8Array 32
  signedPrekey : SignedPrekey

/-- The three low bytes. -/
def idBytes (keyId : UInt32) : Bytes := (toBE 4 keyId.toNat).drop 1

def leaf (tag : String) (b : Bytes) : Node := ⟨tag, SortedMap.empty, .bytes b⟩

def branch (tag : String) (ns : List Node) : Node := ⟨tag, SortedMap.empty, .nodes ns⟩

def keyNode (p : PreKey) : Node :=
  branch "key" [leaf "id" (idBytes p.keyId), leaf "value" p.keypair.pub.bytes]

def skeyNode (k : SignedPrekey) : Node :=
  branch "skey" [leaf "id" (idBytes k.keyId), leaf "value" k.pub.bytes,
    leaf "signature" k.signature.bytes]

def uploadAttrs (iqId : String) : SortedMap String String :=
  (((SortedMap.empty.insert "id" iqId).insert "xmlns" "encrypt").insert "type" "set").insert "to"
    "s.whatsapp.net"

/-- The rows after the upload, the request if there is something to upload, and for how many. -/
def uploadPendingPrekeys (iqId : String) (keys : DeviceKeys) (rows : List PrekeyRow) :
    List PrekeyRow × Option Node × Nat :=
  let prekeyRows := prekeysPendingUpload rows 50
  match prekeyRows.getLast? with
  | none => (rows, none, 0)
  | some last =>
      (prekeysMarkUploaded rows last.keyId,
        some ⟨"iq", uploadAttrs iqId, .nodes [
          leaf "registration" (toBE 4 keys.registrationId.toNat),
          leaf "type" [0x05],
          leaf "identity" keys.identityPub.bytes,
          branch "list" (prekeyRows.map fun r => keyNode r.toPreKey),
          skeyNode keys.signedPrekey]⟩,
        prekeyRows.length)

/-- A batch that cannot be inserted is dropped; what waits is uploaded anyway. -/
def replenishPrekeys (iqId : String) (keys : DeviceKeys)
    (fresh : Fin WANTED_PREKEY_COUNT → KeyPair) (rows : List PrekeyRow) :
    List PrekeyRow × Option Node × Nat :=
  let newKeys := generateBatch (prekeyMaxId rows + 1) fresh
  uploadPendingPrekeys iqId keys ((prekeysInsertBatch rows newKeys).getD rows)

/-- `saturating_add(1)`. -/
def nextId (rows : List PrekeyRow) : UInt32 :=
  if prekeyMaxId rows = UInt32.ofNat (2 ^ 32 - 1) then prekeyMaxId rows else prekeyMaxId rows + 1

/-- The prekey of a retry receipt waits for the upload as well. -/
def buildRetryKeysNode (accountPb : Option Bytes) (keys : DeviceKeys) (fresh : KeyPair)
    (rows : List PrekeyRow) : List PrekeyRow × Option Node :=
  match accountPb with
  | none => (rows, none)
  | some pb =>
      let pk : PreKey := ⟨nextId rows, fresh⟩
      match prekeysInsertBatch rows [pk] with
      | none => (rows, none)
      | some rows' =>
          (rows', some (branch "keys" [
            leaf "type" [0x05],
            leaf "identity" keys.identityPub.bytes,
            keyNode pk,
            skeyNode keys.signedPrekey,
            leaf "device-identity" pb]))

/-! ## 3. What the nodes carry -/

/-- The id and the value of a `<key>`. -/
def keyOf (n : Node) : Option (Bytes × Bytes) :=
  if n.tag = "key" then
    match n.content with
    | .nodes [i, v] =>
        match i.content, v.content with
        | .bytes i, .bytes v => some (i, v)
        | _, _ => none
    | _ => none
  else none

/-- The one-time prekeys of a request or of the keys of a receipt. -/
def offered (n : Node) : List (Bytes × Bytes) :=
  match n.content with
  | .nodes ns =>
      ns.flatMap fun c =>
        match c.tag, c.content with
        | "list", .nodes ks => ks.filterMap keyOf
        | _, _ => (keyOf c).toList
  | _ => []

theorem keyOf_keyNode (p : PreKey) :
    keyOf (keyNode p) = some (idBytes p.keyId, p.keypair.pub.bytes) := rfl

theorem filterMap_keyOf (batch : List PrekeyRow) :
    (batch.map fun r => keyNode r.toPreKey).filterMap keyOf =
      batch.map fun r => (idBytes r.keyId, r.keypair.pub.bytes) := by
  induction batch with
  | nil => rfl
  | cons r batch ih => rw [List.map_cons, List.filterMap_cons, keyOf_keyNode, ih, List.map_cons]

/-- **The upload offers the rows that wait.** -/
theorem offered_upload (iqId : String) (keys : DeviceKeys) (rows : List PrekeyRow) :
    ((uploadPendingPrekeys iqId keys rows).2.1.map offered).getD [] =
      (prekeysPendingUpload rows 50).map fun r => (idBytes r.keyId, r.keypair.pub.bytes) := by
  unfold uploadPendingPrekeys
  dsimp only
  cases hlast : (prekeysPendingUpload rows 50).getLast? with
  | none =>
      rw [List.getLast?_eq_none_iff.mp hlast]
      rfl
  | some last =>
      rw [← filterMap_keyOf]
      show [] ++ ([] ++ ([] ++ ((((prekeysPendingUpload rows 50).map fun r =>
        keyNode r.toPreKey).filterMap keyOf) ++ ([] ++ [])))) = _
      simp only [List.nil_append, List.append_nil]

/-- **The receipt offers the prekey it was made with**, if it has keys. -/
theorem offered_retry {accountPb : Option Bytes} {keys : DeviceKeys} {fresh : KeyPair}
    {rows : List PrekeyRow} {n : Node}
    (h : (buildRetryKeysNode accountPb keys fresh rows).2 = some n) :
    offered n = [(idBytes (nextId rows), fresh.pub.bytes)] := by
  unfold buildRetryKeysNode at h
  cases accountPb with
  | none => cases h
  | some pb =>
      dsimp only at h
      split at h
      · cases h
      · cases h
        rfl

/-- **Three bytes carry the ids below 2^24**, and no others. -/
theorem fromBE_idBytes (keyId : UInt32) :
    fromBE (idBytes keyId) = keyId.toNat ↔ keyId.toNat < 2 ^ 24 := by
  have hid : idBytes keyId = toBE 3 keyId.toNat := by
    unfold idBytes
    rw [← toBE_append 1 3 keyId.toNat]
    rfl
  rw [hid, ← toBE_mod, fromBE_toBE 3 _ (Nat.mod_lt _ (by decide))]
  refine ⟨fun h => ?_, fun h => Nat.mod_eq_of_lt h⟩
  rw [← h]
  exact Nat.mod_lt _ (by decide)

/-! ## 4. The history of a login -/

/-- A prekey gets its id; it is handed out, in an upload or in a receipt; a message that refers to it
    has been accepted. -/
inductive Entry where
  | assigned (p : PreKey)
  | handed (receipt : Bool) (p : PreKey)
  | accepted (p : PreKey)
  deriving DecidableEq

/-- The table and what has happened, the newest first. -/
structure State where
  rows : List PrekeyRow
  log : List Entry

/-- Every handing out, in uploads and in receipts. -/
def handed (log : List Entry) : List PreKey :=
  log.filterMap fun
    | .handed _ p => some p
    | _ => none

/-- The prekeys of receipts. -/
def given (log : List Entry) : List PreKey :=
  log.filterMap fun
    | .handed true p => some p
    | _ => none

def accepted (log : List Entry) : List PreKey :=
  log.filterMap fun
    | .accepted p => some p
    | _ => none

/-- Of the prekeys handed out before, none with this id has another keypair. -/
def Unassigned (log : List Entry) (p : PreKey) : Prop :=
  ∀ q ∈ handed log, q.keyId = p.keyId → q.keypair = p.keypair

/-- An id, once handed out, is not assigned to another keypair later. -/
def NeverReassigned : List Entry → Prop
  | [] => True
  | .assigned p :: log => Unassigned log p ∧ NeverReassigned log
  | .handed _ _ :: log => NeverReassigned log
  | .accepted _ :: log => NeverReassigned log

inductive Op where
  | upload (iqId : String) (keys : DeviceKeys)
  | replenish (iqId : String) (keys : DeviceKeys) (fresh : Fin WANTED_PREKEY_COUNT → KeyPair)
  | retryKeys (accountPb : Option Bytes) (keys : DeviceKeys) (fresh : KeyPair)
  | accept (keyId : UInt32)

/-- The batch has been inserted into the table. -/
def State.assign (s : State) (rows : List PrekeyRow) (batch : List PreKey) : State :=
  ⟨rows, batch.map .assigned ++ s.log⟩

/-- The batch has been handed out. -/
def State.hand (s : State) (rows : List PrekeyRow) (receipt : Bool) (batch : List PreKey) : State :=
  ⟨rows, batch.map (.handed receipt) ++ s.log⟩

def waiting (rows : List PrekeyRow) : List PreKey :=
  (prekeysPendingUpload rows 50).map (·.toPreKey)

def State.uploaded (s : State) (iqId : String) (keys : DeviceKeys) : State :=
  s.hand (uploadPendingPrekeys iqId keys s.rows).1 false (waiting s.rows)

def newKeys (rows : List PrekeyRow) (fresh : Fin WANTED_PREKEY_COUNT → KeyPair) : List PreKey :=
  generateBatch (prekeyMaxId rows + 1) fresh

/-- The state after the insertion of a refill, if it succeeds. -/
def State.refilled (s : State) (fresh : Fin WANTED_PREKEY_COUNT → KeyPair) : State :=
  match prekeysInsertBatch s.rows (newKeys s.rows fresh) with
  | some rows => s.assign rows (newKeys s.rows fresh)
  | none => s

def step (s : State) : Op → Option State
  | .upload iqId keys => some (s.uploaded iqId keys)
  | .replenish iqId keys fresh => some ((s.refilled fresh).uploaded iqId keys)
  | .retryKeys accountPb keys fresh =>
      let made := buildRetryKeysNode accountPb keys fresh s.rows
      let pk : PreKey := ⟨nextId s.rows, fresh⟩
      match made.2 with
      | some _ => some ((s.assign made.1 [pk]).hand made.1 true [pk])
      | none => some s
  | .accept keyId =>
      some ⟨prekeyDelete s.rows keyId,
        ((s.rows.filter fun r => r.keyId = keyId).map fun r => .accepted r.toPreKey) ++ s.log⟩

/-- The first batch is in the table. -/
def start (fresh : Fin INITIAL_PREKEY_COUNT → KeyPair) : State :=
  ⟨(generateBatch 1 fresh).map fun p => ⟨p, false⟩, (generateBatch 1 fresh).map .assigned⟩

/-- The table after a refill is that of `replenish_prekeys` before its upload. -/
theorem refilled_rows (s : State) (iqId : String) (keys : DeviceKeys)
    (fresh : Fin WANTED_PREKEY_COUNT → KeyPair) :
    ((s.refilled fresh).uploaded iqId keys).rows = (replenishPrekeys iqId keys fresh s.rows).1 := by
  unfold State.refilled State.uploaded replenishPrekeys
  dsimp only
  change (uploadPendingPrekeys _ _ _).1 = _
  unfold newKeys
  cases prekeysInsertBatch s.rows (generateBatch (prekeyMaxId s.rows + 1) fresh) with
  | none => rfl
  | some rows => rfl

/-! ## 5. What a login is promised -/

/-- Each prekey is handed out once; an id is not assigned to another keypair afterwards; the bytes
    that carry an id lead back to it; until it is accepted a prekey that was handed out is found. -/
structure Kept (s : State) : Prop where
  once : (handed s.log).Nodup
  stable : NeverReassigned s.log
  fits : ∀ p ∈ handed s.log, fromBE (idBytes p.keyId) = p.keyId.toNat
  loadable : ∀ p ∈ handed s.log, p ∉ accepted s.log →
    prekeyLoadPrivate s.rows p.keyId = some p.keypair.priv

/-- A batch can be handed out: none of it has been, and its ids fit. -/
def Unhanded (log : List Entry) (batch : List PreKey) : Prop :=
  ∀ p ∈ batch, p ∉ handed log ∧ p.keyId.toNat < 2 ^ 24

/-- What a step must not do: give out an id again, or hand out what has been handed out. -/
def Harmless (s : State) : Op → Prop
  | .upload _ _ => Unhanded s.log (waiting s.rows)
  | .replenish _ _ fresh =>
      (∀ rows, prekeysInsertBatch s.rows (newKeys s.rows fresh) = some rows →
        ∀ p ∈ newKeys s.rows fresh, Unassigned s.log p) ∧
      Unhanded s.log (waiting (s.refilled fresh).rows)
  | .retryKeys accountPb keys fresh =>
      (buildRetryKeysNode accountPb keys fresh s.rows).2.isSome = true →
        Unassigned s.log ⟨nextId s.rows, fresh⟩ ∧ Unhanded s.log [⟨nextId s.rows, fresh⟩]
  | .accept _ => True

/-- The prekeys in the table. -/
def preKeys (rows : List PrekeyRow) : List PreKey := rows.map (·.toPreKey)

/-- The ids are a key, and what was handed out is in the table or accepted. -/
structure Tabled (s : State) : Prop where
  keyed : ((preKeys s.rows).map (·.keyId)).Nodup
  present : ∀ p ∈ handed s.log, p ∉ accepted s.log → p ∈ preKeys s.rows

section Log

variable {log : List Entry} {batch : List PreKey}

theorem handed_map_assigned : handed (batch.map .assigned ++ log) = handed log := by
  unfold handed
  rw [List.filterMap_append, List.filterMap_map]
  simp

theorem handed_map_handed (receipt : Bool) :
    handed (batch.map (.handed receipt) ++ log) = batch ++ handed log := by
  unfold handed
  rw [List.filterMap_append, List.filterMap_map]
  simp

theorem handed_map_accepted : handed (batch.map .accepted ++ log) = handed log := by
  unfold handed
  rw [List.filterMap_append, List.filterMap_map]
  simp

theorem accepted_map_assigned : accepted (batch.map .assigned ++ log) = accepted log := by
  unfold accepted
  rw [List.filterMap_append, List.filterMap_map]
  simp

theorem accepted_map_handed (receipt : Bool) :
    accepted (batch.map (.handed receipt) ++ log) = accepted log := by
  unfold accepted
  rw [List.filterMap_append, List.filterMap_map]
  simp

theorem accepted_map_accepted : accepted (batch.map .accepted ++ log) = batch ++ accepted log := by
  unfold accepted
  rw [List.filterMap_append, List.filterMap_map]
  simp

theorem neverReassigned_assigned :
    NeverReassigned (batch.map .assigned ++ log) ↔
      (∀ p ∈ batch, Unassigned log p) ∧ NeverReassigned log := by
  induction batch with
  | nil => simp
  | cons p batch ih =>
      have hsame : Unassigned (batch.map .assigned ++ log) p ↔ Unassigned log p := by
        unfold Unassigned
        rw [handed_map_assigned]
      rw [List.map_cons, List.cons_append, NeverReassigned, hsame, ih, List.forall_mem_cons,
        and_assoc]

theorem neverReassigned_handed (receipt : Bool) :
    NeverReassigned (batch.map (.handed receipt) ++ log) ↔ NeverReassigned log := by
  induction batch with
  | nil => rfl
  | cons p batch ih => exact ih

theorem neverReassigned_accepted :
    NeverReassigned (batch.map .accepted ++ log) ↔ NeverReassigned log := by
  induction batch with
  | nil => rfl
  | cons p batch ih => exact ih

theorem given_append (log log' : List Entry) : given (log ++ log') = given log ++ given log' :=
  List.filterMap_append

end Log

/-! ## 6. The table through the steps -/

section Table

variable {rows rows' : List PrekeyRow} {batch : List PreKey}

/-- **What is in the table is found by its id.** -/
theorem load_of_mem (hkeyed : ((preKeys rows).map (·.keyId)).Nodup) {p : PreKey}
    (hp : p ∈ preKeys rows) : prekeyLoadPrivate rows p.keyId = some p.keypair.priv := by
  induction rows with
  | nil => cases hp
  | cons r rows ih =>
      obtain ⟨hfresh, hrest⟩ := List.nodup_cons.mp hkeyed
      unfold prekeyLoadPrivate
      rw [List.find?_cons]
      rcases List.mem_cons.mp hp with rfl | hp
      · rw [decide_eq_true (rfl : r.keyId = r.keyId)]
        rfl
      · have hne : ¬r.keyId = p.keyId := by
          intro he
          have hmem : p.keyId ∈ (preKeys rows).map (·.keyId) := List.mem_map_of_mem hp
          rw [← he] at hmem
          exact hfresh hmem
        rw [decide_eq_false hne]
        exact ih hrest hp

theorem preKeys_marked (upTo : UInt32) :
    preKeys (prekeysMarkUploaded rows upTo) = preKeys rows := by
  unfold preKeys prekeysMarkUploaded
  rw [List.map_map]
  refine List.map_congr_left fun r _ => ?_
  show (if r.keyId.toNat ≤ upTo.toNat then { r with uploaded := true } else r).toPreKey = r.toPreKey
  split <;> rfl

theorem preKeys_upload (iqId : String) (keys : DeviceKeys) :
    preKeys (uploadPendingPrekeys iqId keys rows).1 = preKeys rows := by
  unfold uploadPendingPrekeys
  dsimp only
  split
  · rfl
  · exact preKeys_marked _

/-- A row that waits is in the table. -/
theorem waiting_mem {p : PreKey} (hp : p ∈ waiting rows) : p ∈ preKeys rows := by
  obtain ⟨r, hr, rfl⟩ := List.mem_map.mp hp
  have hsorted := List.mem_of_mem_take hr
  rw [List.mem_insertionSort] at hsorted
  exact List.mem_map_of_mem (List.mem_of_mem_filter hsorted)

theorem waiting_nodup (hkeyed : ((preKeys rows).map (·.keyId)).Nodup) : (waiting rows).Nodup := by
  have hall : (preKeys rows).Nodup := List.Nodup.of_map _ hkeyed
  have hwait : ((rows.filter fun r => !r.uploaded).map (·.toPreKey)).Nodup :=
    hall.sublist (List.filter_sublist.map _)
  have hsorted : (((rows.filter fun r => !r.uploaded).insertionSort
      fun r r' => r.keyId.toNat ≤ r'.keyId.toNat).map (·.toPreKey)).Nodup :=
    ((List.perm_insertionSort _ _).map _).nodup_iff.mpr hwait
  exact hsorted.sublist ((List.take_sublist _ _).map _)

/-- **An insertion** adds the batch, and only under ids that are free. -/
theorem insertBatch_some (hkeyed : ((preKeys rows).map (·.keyId)).Nodup)
    (h : prekeysInsertBatch rows batch = some rows') :
    preKeys rows' = preKeys rows ++ batch ∧ ((preKeys rows').map (·.keyId)).Nodup := by
  induction batch generalizing rows with
  | nil =>
      cases h
      exact ⟨(List.append_nil _).symm, hkeyed⟩
  | cons p batch ih =>
      unfold prekeysInsertBatch at h
      split at h
      · cases h
      · rename_i hfree
        have hadded : preKeys (rows ++ [⟨p, false⟩]) = preKeys rows ++ [p] := List.map_append
        have hkeyed' : ((preKeys (rows ++ [⟨p, false⟩])).map (·.keyId)).Nodup := by
          rw [hadded, List.map_append, List.nodup_append]
          refine ⟨hkeyed, List.nodup_singleton _, ?_⟩
          intro k hk k' hk' he
          obtain ⟨q, hq, rfl⟩ := List.mem_map.mp hk
          obtain ⟨r, hr, rfl⟩ := List.mem_map.mp hq
          rw [List.map_singleton, List.mem_singleton] at hk'
          exact hfree (List.any_eq_true.mpr ⟨r, hr, decide_eq_true (he.trans hk')⟩)
        obtain ⟨hrows, hnodup⟩ := ih hkeyed' h
        rw [hadded, List.append_assoc] at hrows
        exact ⟨hrows, hnodup⟩

end Table

section Steps

variable {s : State} {rows : List PrekeyRow} {batch : List PreKey}

/-- In a table with its prekeys, only three of the promises can break. -/
theorem kept_iff (h : Tabled s) :
    Kept s ↔ (handed s.log).Nodup ∧ NeverReassigned s.log ∧
      ∀ p ∈ handed s.log, p.keyId.toNat < 2 ^ 24 := by
  constructor
  · intro hkept
    exact ⟨hkept.once, hkept.stable, fun p hp => (fromBE_idBytes p.keyId).mp (hkept.fits p hp)⟩
  · rintro ⟨honce, hstable, hfits⟩
    exact ⟨honce, hstable, fun p hp => (fromBE_idBytes p.keyId).mpr (hfits p hp),
      fun p hp hfree => load_of_mem h.keyed (h.present p hp hfree)⟩

theorem tabled_assign (h : Tabled s) (hrows : prekeysInsertBatch s.rows batch = some rows) :
    Tabled (s.assign rows batch) := by
  obtain ⟨hadded, hkeyed⟩ := insertBatch_some h.keyed hrows
  refine ⟨hkeyed, fun p hp hfree => ?_⟩
  change p ∈ handed (batch.map .assigned ++ s.log) at hp
  change p ∉ accepted (batch.map .assigned ++ s.log) at hfree
  rw [handed_map_assigned] at hp
  rw [accepted_map_assigned] at hfree
  show p ∈ preKeys rows
  rw [hadded]
  exact List.mem_append_left _ (h.present p hp hfree)

theorem tabled_hand (h : Tabled s) (hsame : preKeys rows = preKeys s.rows) {receipt : Bool}
    (hbatch : ∀ p ∈ batch, p ∈ preKeys s.rows) : Tabled (s.hand rows receipt batch) := by
  refine ⟨?_, fun p hp hfree => ?_⟩
  · show ((preKeys rows).map (·.keyId)).Nodup
    rw [hsame]
    exact h.keyed
  · change p ∈ handed (batch.map (.handed receipt) ++ s.log) at hp
    change p ∉ accepted (batch.map (.handed receipt) ++ s.log) at hfree
    rw [handed_map_handed] at hp
    rw [accepted_map_handed] at hfree
    show p ∈ preKeys rows
    rw [hsame]
    rcases List.mem_append.mp hp with hp | hp
    · exact hbatch p hp
    · exact h.present p hp hfree

/-- **Assigning ids** breaks a promise exactly if one of them is given out again. -/
theorem kept_assign (h : Tabled s) (h' : Tabled (s.assign rows batch)) :
    Kept (s.assign rows batch) ↔ Kept s ∧ ∀ p ∈ batch, Unassigned s.log p := by
  rw [kept_iff h, kept_iff h']
  show (handed (batch.map .assigned ++ s.log)).Nodup ∧
    NeverReassigned (batch.map .assigned ++ s.log) ∧
    (∀ p ∈ handed (batch.map .assigned ++ s.log), p.keyId.toNat < 2 ^ 24) ↔ _
  rw [handed_map_assigned, neverReassigned_assigned]
  tauto

/-- **Handing out a batch** breaks one exactly if it has been handed out or does not fit. -/
theorem kept_hand {receipt : Bool} (h : Tabled s) (h' : Tabled (s.hand rows receipt batch))
    (hnodup : batch.Nodup) :
    Kept (s.hand rows receipt batch) ↔ Kept s ∧ Unhanded s.log batch := by
  rw [kept_iff h, kept_iff h']
  show (handed (batch.map (.handed receipt) ++ s.log)).Nodup ∧
    NeverReassigned (batch.map (.handed receipt) ++ s.log) ∧
    (∀ p ∈ handed (batch.map (.handed receipt) ++ s.log), p.keyId.toNat < 2 ^ 24) ↔ _
  rw [handed_map_handed, neverReassigned_handed, List.nodup_append']
  simp only [List.mem_append, or_imp, forall_and]
  unfold Unhanded
  simp only [forall_and]
  constructor
  · rintro ⟨⟨-, honce, hdisjoint⟩, hstable, hfits, hold⟩
    exact ⟨⟨honce, hstable, hold⟩, fun p hp hold' => hdisjoint hp hold', hfits⟩
  · rintro ⟨⟨honce, hstable, hold⟩, hnew, hfits⟩
    exact ⟨⟨hnodup, honce, fun p hp hold' => hnew p hp hold'⟩, hstable, hfits, hold⟩

theorem kept_upload (h : Tabled s) (iqId : String) (keys : DeviceKeys) :
    Tabled (s.uploaded iqId keys) ∧
      (Kept (s.uploaded iqId keys) ↔ Kept s ∧ Unhanded s.log (waiting s.rows)) := by
  have h' : Tabled (s.uploaded iqId keys) :=
    tabled_hand h (preKeys_upload iqId keys) fun p hp => waiting_mem hp
  exact ⟨h', kept_hand h h' (waiting_nodup h.keyed)⟩

theorem kept_refill (h : Tabled s) (fresh : Fin WANTED_PREKEY_COUNT → KeyPair) :
    Tabled (s.refilled fresh) ∧
      (Kept (s.refilled fresh) ↔ Kept s ∧
        ∀ rows, prekeysInsertBatch s.rows (newKeys s.rows fresh) = some rows →
          ∀ p ∈ newKeys s.rows fresh, Unassigned s.log p) := by
  unfold State.refilled
  cases hinsert : prekeysInsertBatch s.rows (newKeys s.rows fresh) with
  | none => exact ⟨h, fun hkept => ⟨hkept, fun rows hrows => nomatch hrows⟩, fun hkept => hkept.1⟩
  | some rows =>
      have h' := tabled_assign h hinsert
      refine ⟨h', (kept_assign h h').trans (and_congr_right fun _ => ?_)⟩
      exact ⟨fun hnew _ _ => hnew, fun hnew => hnew rows rfl⟩

/-- A refill hands out nothing by itself. -/
theorem unhanded_refilled (fresh : Fin WANTED_PREKEY_COUNT → KeyPair) (batch : List PreKey) :
    Unhanded (s.refilled fresh).log batch ↔ Unhanded s.log batch := by
  unfold Unhanded
  have hsame : handed (s.refilled fresh).log = handed s.log := by
    unfold State.refilled
    split
    · exact handed_map_assigned
    · rfl
  rw [hsame]

/-- **A consumed prekey** is one that was accepted. -/
theorem kept_accept (h : Tabled s) (keyId : UInt32) {s' : State}
    (hstep : step s (.accept keyId) = some s') : Tabled s' ∧ (Kept s' ↔ Kept s) := by
  cases hstep
  have hlog : ((s.rows.filter fun r => r.keyId = keyId).map fun r =>
      Entry.accepted r.toPreKey) ++ s.log =
      (((s.rows.filter fun r => r.keyId = keyId).map (·.toPreKey)).map .accepted) ++ s.log := by
    rw [List.map_map]
    rfl
  rw [hlog]
  have h' : Tabled ⟨prekeyDelete s.rows keyId,
      (((s.rows.filter fun r => r.keyId = keyId).map (·.toPreKey)).map .accepted) ++ s.log⟩ := by
    refine ⟨h.keyed.sublist ((List.filter_sublist.map _).map _), fun p hp hfree => ?_⟩
    change p ∈ handed (_ ++ s.log) at hp
    change p ∉ accepted (_ ++ s.log) at hfree
    rw [handed_map_accepted] at hp
    rw [accepted_map_accepted, List.mem_append, not_or] at hfree
    obtain ⟨r, hr, rfl⟩ := List.mem_map.mp (h.present p hp hfree.2)
    have hother : r.keyId ≠ keyId := fun he => hfree.1
      (List.mem_map_of_mem (List.mem_filter.mpr ⟨hr, decide_eq_true he⟩))
    exact List.mem_map_of_mem (List.mem_filter.mpr ⟨hr, decide_eq_true hother⟩)
  refine ⟨h', ?_⟩
  rw [kept_iff h, kept_iff h']
  dsimp only
  rw [handed_map_accepted, neverReassigned_accepted]

theorem retry_inserted {accountPb : Option Bytes} {keys : DeviceKeys} {fresh : KeyPair} {n : Node}
    (h : (buildRetryKeysNode accountPb keys fresh rows).2 = some n) :
    prekeysInsertBatch rows [⟨nextId rows, fresh⟩] =
      some (buildRetryKeysNode accountPb keys fresh rows).1 := by
  unfold buildRetryKeysNode at h ⊢
  cases accountPb with
  | none => cases h
  | some pb =>
      dsimp only at h ⊢
      cases hinsert : prekeysInsertBatch rows [⟨nextId rows, fresh⟩] with
      | none =>
          rw [hinsert] at h
          cases h
      | some rows' => rfl

theorem kept_retry (h : Tabled s) (accountPb : Option Bytes) (keys : DeviceKeys) (fresh : KeyPair)
    {s' : State} (hstep : step s (.retryKeys accountPb keys fresh) = some s') :
    Tabled s' ∧ (Kept s' ↔ Kept s ∧ Harmless s (.retryKeys accountPb keys fresh)) := by
  unfold step Harmless at *
  dsimp only at hstep ⊢
  cases hmade : (buildRetryKeysNode accountPb keys fresh s.rows).2 with
  | none =>
      rw [hmade] at hstep
      cases hstep
      exact ⟨h, fun hkept => ⟨hkept, fun hsome => nomatch hsome⟩, fun hkept => hkept.1⟩
  | some n =>
      rw [hmade] at hstep
      cases hstep
      have hinsert := retry_inserted hmade
      generalize (buildRetryKeysNode accountPb keys fresh s.rows).1 = rows at *
      have hassign := tabled_assign h hinsert
      have hadded := (insertBatch_some h.keyed hinsert).1
      have hhand : Tabled ((s.assign rows [⟨nextId s.rows, fresh⟩]).hand rows true
          [⟨nextId s.rows, fresh⟩]) := by
        refine tabled_hand hassign rfl fun p hp => ?_
        show p ∈ preKeys rows
        rw [hadded]
        exact List.mem_append_right _ hp
      refine ⟨hhand, ?_⟩
      rw [kept_hand hassign hhand (List.nodup_singleton _), kept_assign h hassign]
      have hlog : Unhanded (s.assign rows [⟨nextId s.rows, fresh⟩]).log [⟨nextId s.rows, fresh⟩] ↔
          Unhanded s.log [⟨nextId s.rows, fresh⟩] := by
        unfold Unhanded
        rw [show handed (s.assign rows [⟨nextId s.rows, fresh⟩]).log = handed s.log from
          handed_map_assigned]
      rw [hlog, List.forall_mem_singleton, and_assoc]
      exact ⟨fun hkept => ⟨hkept.1, fun _ => hkept.2⟩, fun hkept => ⟨hkept.1, hkept.2 rfl⟩⟩

/-- **One step** keeps the table, and the promises exactly when it is harmless. -/
theorem kept_step (s : State) (op : Op) (s' : State) (h : Tabled s) (hstep : step s op = some s') :
    Tabled s' ∧ (Kept s' ↔ Kept s ∧ Harmless s op) := by
  cases op with
  | upload iqId keys =>
      cases hstep
      exact kept_upload h iqId keys
  | replenish iqId keys fresh =>
      cases hstep
      obtain ⟨hrefilled, hrefill⟩ := kept_refill h fresh
      obtain ⟨huploaded, hupload⟩ := kept_upload hrefilled iqId keys
      refine ⟨huploaded, ?_⟩
      rw [hupload, hrefill, unhanded_refilled, and_assoc]
      rfl
  | retryKeys accountPb keys fresh => exact kept_retry h accountPb keys fresh hstep
  | accept keyId =>
      obtain ⟨htabled, hkept⟩ := kept_accept h keyId hstep
      exact ⟨htabled, hkept.trans ⟨fun h => ⟨h, trivial⟩, fun h => h.1⟩⟩

end Steps

/-! ## 7. What waits, and what the next id is -/

/-- Of the rows that wait, an upload takes those with the lowest ids. -/
theorem pending_sorted (rows : List PrekeyRow) (limit : Nat) :
    (prekeysPendingUpload rows limit).Pairwise fun r r' => r.keyId.toNat ≤ r'.keyId.toNat := by
  have hsorted := List.pairwise_insertionSort (fun n n' : Nat => n ≤ n')
    ((rows.filter fun r => !r.uploaded).map fun r => r.keyId.toNat)
  rw [← List.map_insertionSort (fun r r' : PrekeyRow => r.keyId.toNat ≤ r'.keyId.toNat)
    (fun n n' : Nat => n ≤ n') (fun r => r.keyId.toNat) _ fun _ _ _ _ => Iff.rfl,
    List.pairwise_map] at hsorted
  exact hsorted.sublist (List.take_sublist _ _)

/-- **What an upload hands out does not wait any more.** -/
theorem uploaded_of_waiting {iqId : String} {keys : DeviceKeys} {rows : List PrekeyRow}
    {r : PrekeyRow} (hr : r ∈ (uploadPendingPrekeys iqId keys rows).1)
    (hwaits : r.toPreKey ∈ waiting rows) : r.uploaded = true := by
  obtain ⟨r₁, hr₁, hsame⟩ := List.mem_map.mp hwaits
  unfold uploadPendingPrekeys at hr
  dsimp only at hr
  cases hlast : (prekeysPendingUpload rows 50).getLast? with
  | none =>
      rw [List.getLast?_eq_none_iff.mp hlast] at hr₁
      cases hr₁
  | some last =>
      rw [hlast] at hr
      obtain ⟨front, hfront⟩ := List.getLast?_eq_some_iff.mp hlast
      have hle : r.keyId.toNat ≤ last.keyId.toNat := by
        have hsorted := pending_sorted rows 50
        rw [hfront] at hsorted hr₁
        have hid : r₁.keyId = r.keyId := congrArg PreKey.keyId hsame
        rw [← hid]
        rcases List.mem_append.mp hr₁ with hr₁ | hr₁
        · exact (List.pairwise_append.mp hsorted).2.2 r₁ hr₁ last List.mem_cons_self
        · rw [List.mem_singleton.mp hr₁]
      obtain ⟨r₀, -, rfl⟩ := List.mem_map.mp hr
      split
      · rfl
      · rename_i hgt
        rw [if_neg hgt] at hle
        exact absurd hle hgt

/-- A row that waits after an upload waited before. -/
theorem waited_before {iqId : String} {keys : DeviceKeys} {rows : List PrekeyRow} {r : PrekeyRow}
    (hr : r ∈ (uploadPendingPrekeys iqId keys rows).1) (hwaits : r.uploaded = false) : r ∈ rows := by
  unfold uploadPendingPrekeys at hr
  dsimp only at hr
  split at hr
  · exact hr
  · obtain ⟨r₀, hr₀, rfl⟩ := List.mem_map.mp hr
    split at hwaits
    · cases hwaits
    · rename_i hgt
      rwa [if_neg hgt]

/-- No id of the table is above the highest. -/
theorem le_prekeyMaxId {rows : List PrekeyRow} {r : PrekeyRow} (hr : r ∈ rows) :
    r.keyId.toNat ≤ (prekeyMaxId rows).toNat := by
  have hbound : ∀ rows : List PrekeyRow,
      rows.foldr (fun r m => max r.keyId.toNat m) 0 < 2 ^ 32 := by
    intro rows
    induction rows with
    | nil => decide
    | cons r rows ih => exact Nat.max_lt.mpr ⟨r.keyId.toNat_lt, ih⟩
  have hmax : r.keyId.toNat ≤ rows.foldr (fun r m => max r.keyId.toNat m) 0 := by
    induction rows with
    | nil => cases hr
    | cons r' rows ih =>
        rw [List.foldr_cons]
        rcases List.mem_cons.mp hr with rfl | hr
        · exact Nat.le_max_left _ _
        · exact Nat.le_trans (ih hr) (Nat.le_max_right _ _)
  unfold prekeyMaxId
  rwa [UInt32.toNat_ofNat', Nat.mod_eq_of_lt (hbound rows)]

/-- If all ids of the table have room above them, the highest has. -/
theorem prekeyMaxId_room {rows : List PrekeyRow} {count : Nat} (hcount : count < 2 ^ 24)
    (h : ∀ r ∈ rows, r.keyId.toNat + count < 2 ^ 24) :
    (prekeyMaxId rows).toNat + count < 2 ^ 24 := by
  have hmax : rows.foldr (fun r m => max r.keyId.toNat m) 0 + count < 2 ^ 24 := by
    induction rows with
    | nil =>
        rw [List.foldr_nil]
        omega
    | cons r rows ih =>
        have hr := h r List.mem_cons_self
        have hrest := ih fun r' hr' => h r' (List.mem_cons_of_mem r hr')
        rw [List.foldr_cons]
        omega
  unfold prekeyMaxId
  rw [UInt32.toNat_ofNat']
  exact Nat.lt_of_le_of_lt (Nat.add_le_add_right (Nat.mod_le _ _) count) hmax

/-- **The ids of a refill are above all of the table**, as long as they do not wrap. -/
theorem prekeyMaxId_lt {rows : List PrekeyRow} {fresh : Fin WANTED_PREKEY_COUNT → KeyPair}
    (hroom : (prekeyMaxId rows).toNat + WANTED_PREKEY_COUNT < 2 ^ 24) {p : PreKey}
    (hp : p ∈ newKeys rows fresh) :
    (prekeyMaxId rows).toNat < p.keyId.toNat ∧ p.keyId.toNat < 2 ^ 24 := by
  obtain ⟨i, rfl⟩ := List.mem_ofFn.mp hp
  have hi := i.isLt
  have hnat : (prekeyMaxId rows + 1 + UInt32.ofNat i).toNat = (prekeyMaxId rows).toNat + 1 + i := by
    rw [UInt32.toNat_add, UInt32.toNat_add, UInt32.toNat_ofNat', UInt32.toNat_one]
    omega
  dsimp only
  omega

/-- The id of a receipt is the one above the highest. -/
theorem toNat_nextId {rows : List PrekeyRow} (hroom : (prekeyMaxId rows).toNat + 1 < 2 ^ 24) :
    (nextId rows).toNat = (prekeyMaxId rows).toNat + 1 := by
  unfold nextId
  rw [if_neg]
  · rw [UInt32.toNat_add, UInt32.toNat_one]
    omega
  · intro hlast
    rw [hlast] at hroom
    exact absurd hroom (by decide)

theorem insertBatch_rows {rows rows' : List PrekeyRow} {batch : List PreKey}
    (h : prekeysInsertBatch rows batch = some rows') : rows' = rows ++ batch.map (⟨·, false⟩) := by
  induction batch generalizing rows with
  | nil =>
      cases h
      exact (List.append_nil _).symm
  | cons p batch ih =>
      unfold prekeysInsertBatch at h
      split at h
      · cases h
      · rw [ih h, List.append_assoc]
        rfl

/-! ## 8. The condition -/

/-- The highest id that was handed out, or a higher one, is in the table. -/
def HighestStays (s : State) : Prop :=
  ∀ p ∈ handed s.log, ∃ r ∈ s.rows, p.keyId.toNat ≤ r.keyId.toNat

/-- Above all ids of the table there are so many that fit three bytes. -/
def Room (s : State) (count : Nat) : Prop := ∀ r ∈ s.rows, r.keyId.toNat + count < 2 ^ 24

/-- No prekey of a receipt is among the rows that an upload takes. -/
def NoneGiven (s : State) : Prop := ∀ r ∈ prekeysPendingUpload s.rows 50, r.toPreKey ∉ given s.log

/-- **The condition on a step.** -/
def Proper (s : State) : Op → Prop
  | .upload _ _ => NoneGiven s
  | .replenish _ _ fresh =>
      HighestStays s ∧ Room s WANTED_PREKEY_COUNT ∧ NoneGiven (s.refilled fresh)
  | .retryKeys accountPb _ _ =>
      accountPb.isSome = true → HighestStays s ∧ Room s 1
  | .accept _ => True

instance (s : State) : Decidable (HighestStays s) :=
  inferInstanceAs (Decidable (∀ p ∈ handed s.log, ∃ r ∈ s.rows, p.keyId.toNat ≤ r.keyId.toNat))

instance (s : State) (count : Nat) : Decidable (Room s count) :=
  inferInstanceAs (Decidable (∀ r ∈ s.rows, r.keyId.toNat + count < 2 ^ 24))

instance (s : State) : Decidable (NoneGiven s) :=
  inferInstanceAs (Decidable (∀ r ∈ prekeysPendingUpload s.rows 50, r.toPreKey ∉ given s.log))

instance decidableProper (s : State) : (op : Op) → Decidable (Proper s op)
  | .upload _ _ => inferInstanceAs (Decidable (NoneGiven s))
  | .replenish _ _ _ => inferInstanceAs (Decidable (_ ∧ _ ∧ _))
  | .retryKeys _ _ _ => inferInstanceAs (Decidable (_ → _ ∧ _))
  | .accept _ => inferInstanceAs (Decidable True)

/-- Of what was handed out, only the prekeys of receipts wait; and the ids of the table fit. -/
structure Ordered (s : State) : Prop where
  waits : ∀ r ∈ s.rows, r.uploaded = false → r.toPreKey ∈ handed s.log → r.toPreKey ∈ given s.log
  small : ∀ r ∈ s.rows, r.keyId.toNat < 2 ^ 24

section Ordered

variable {s : State} {rows : List PrekeyRow} {batch : List PreKey}

/-- What waits and was in no receipt has not been handed out. -/
theorem Ordered.unhanded (h : Ordered s) (hnone : NoneGiven s) : Unhanded s.log (waiting s.rows) := by
  intro p hp
  obtain ⟨r, hr, rfl⟩ := List.mem_map.mp hp
  have hfiltered : r ∈ s.rows.filter fun r => !r.uploaded := by
    have hsorted := List.mem_of_mem_take hr
    rwa [List.mem_insertionSort] at hsorted
  obtain ⟨hrow, hwaits⟩ := List.mem_filter.mp hfiltered
  exact ⟨fun hhanded => hnone r hr (h.waits r hrow (by simpa using hwaits) hhanded), h.small r hrow⟩

/-- An id above the table is none that was handed out. -/
theorem HighestStays.unassigned (h : HighestStays s) {p : PreKey}
    (hp : (prekeyMaxId s.rows).toNat < p.keyId.toNat) : Unassigned s.log p ∧ p ∉ handed s.log := by
  have hne : ∀ q ∈ handed s.log, q.keyId ≠ p.keyId := by
    intro q hq heq
    obtain ⟨r, hr, hle⟩ := h q hq
    have hmax := le_prekeyMaxId hr
    rw [heq] at hle
    omega
  exact ⟨fun q hq heq => absurd heq (hne q hq), fun hhanded => hne p hhanded rfl⟩

/-- **The batch of an insertion** waits, and has not been handed out. -/
theorem ordered_assign (h : Ordered s) (hrows : prekeysInsertBatch s.rows batch = some rows)
    (hbatch : ∀ p ∈ batch, p ∉ handed s.log ∧ p.keyId.toNat < 2 ^ 24) :
    Ordered (s.assign rows batch) := by
  have hgiven : given (s.assign rows batch).log = given s.log := by
    show given (batch.map .assigned ++ s.log) = given s.log
    rw [given_append]
    unfold given
    rw [List.filterMap_map]
    simp
  have hhanded : handed (s.assign rows batch).log = handed s.log := handed_map_assigned
  cases insertBatch_rows hrows
  refine ⟨fun r hr hwaits hold => ?_, fun r hr => ?_⟩
  · rw [hhanded] at hold
    rw [hgiven]
    rcases List.mem_append.mp hr with hr | hr
    · exact h.waits r hr hwaits hold
    · obtain ⟨p, hp, rfl⟩ := List.mem_map.mp hr
      exact absurd hold (hbatch p hp).1
  · rcases List.mem_append.mp hr with hr | hr
    · exact h.small r hr
    · obtain ⟨p, hp, rfl⟩ := List.mem_map.mp hr
      exact (hbatch p hp).2

theorem ordered_upload (h : Ordered s) (iqId : String) (keys : DeviceKeys) :
    Ordered (s.uploaded iqId keys) := by
  have hhanded : handed (s.uploaded iqId keys).log = waiting s.rows ++ handed s.log :=
    handed_map_handed false
  have hgiven : given (s.uploaded iqId keys).log = given s.log := by
    show given ((waiting s.rows).map (.handed false) ++ s.log) = given s.log
    rw [given_append]
    unfold given
    rw [List.filterMap_map]
    simp
  refine ⟨fun r hr hwaits hold => ?_, fun r hr => ?_⟩
  · have hbefore := waited_before hr hwaits
    rw [hhanded] at hold
    rw [hgiven]
    rcases List.mem_append.mp hold with hnow | hold
    · rw [uploaded_of_waiting hr hnow] at hwaits
      cases hwaits
    · exact h.waits r hbefore hwaits hold
  · have hmem : r.toPreKey ∈ preKeys s.rows := by
      rw [← (preKeys_upload iqId keys : _ = preKeys s.rows)]
      exact List.mem_map_of_mem hr
    obtain ⟨r₀, hr₀, heq⟩ := List.mem_map.mp hmem
    rw [show r.keyId = r₀.keyId from (congrArg PreKey.keyId heq).symm]
    exact h.small r₀ hr₀

theorem ordered_refill (h : Ordered s) {fresh : Fin WANTED_PREKEY_COUNT → KeyPair}
    (hstays : HighestStays s) (hroom : Room s WANTED_PREKEY_COUNT) :
    Ordered (s.refilled fresh) := by
  unfold State.refilled
  cases hinsert : prekeysInsertBatch s.rows (newKeys s.rows fresh) with
  | none => exact h
  | some rows =>
      refine ordered_assign h hinsert fun p hp => ?_
      obtain ⟨habove, hsmall⟩ := prekeyMaxId_lt (prekeyMaxId_room (by decide) hroom) hp
      exact ⟨(hstays.unassigned habove).2, hsmall⟩

/-- **A step that meets the condition is harmless.** -/
theorem harmless_of_proper (h : Ordered s) {op : Op} (hproper : Proper s op) : Harmless s op := by
  cases op with
  | upload iqId keys => exact h.unhanded hproper
  | replenish iqId keys fresh =>
      obtain ⟨hstays, hroom, hnone⟩ := hproper
      refine ⟨fun rows hrows p hp => ?_, ?_⟩
      · exact (hstays.unassigned (prekeyMaxId_lt (prekeyMaxId_room (by decide) hroom) hp).1).1
      · exact (unhanded_refilled fresh _).mp ((ordered_refill h hstays hroom).unhanded hnone)
  | retryKeys accountPb keys fresh =>
      intro hmade
      obtain ⟨hstays, hroom⟩ := hproper (by
        cases accountPb with
        | none => cases hmade
        | some pb => rfl)
      have hmax := prekeyMaxId_room (by decide) hroom
      have hid := toNat_nextId hmax
      obtain ⟨hnew, hunhanded⟩ := hstays.unassigned (p := ⟨nextId s.rows, fresh⟩) (by
        dsimp only
        omega)
      refine ⟨hnew, List.forall_mem_singleton.mpr ⟨hunhanded, ?_⟩⟩
      dsimp only
      omega
  | accept keyId => trivial

/-- **One step.** -/
theorem ordered_step {op : Op} {s' : State} (h : Ordered s) (hproper : Proper s op)
    (hstep : step s op = some s') : Ordered s' := by
  cases op with
  | upload iqId keys =>
      cases hstep
      exact ordered_upload h iqId keys
  | replenish iqId keys fresh =>
      cases hstep
      exact ordered_upload (ordered_refill h hproper.1 hproper.2.1) iqId keys
  | retryKeys accountPb keys fresh =>
      unfold step at hstep
      dsimp only at hstep
      cases hmade : (buildRetryKeysNode accountPb keys fresh s.rows).2 with
      | none =>
          rw [hmade] at hstep
          cases hstep
          exact h
      | some n =>
          rw [hmade] at hstep
          cases hstep
          have hbatch := (harmless_of_proper h hproper (by rw [hmade]; rfl)).2
          have hassigned := ordered_assign h (retry_inserted hmade) hbatch
          have hhanded : ∀ rows' : List PrekeyRow, handed ((s.assign rows'
              [⟨nextId s.rows, fresh⟩]).hand rows' true [⟨nextId s.rows, fresh⟩]).log =
                ⟨nextId s.rows, fresh⟩ :: handed (s.assign rows' [⟨nextId s.rows, fresh⟩]).log :=
            fun _ => rfl
          refine ⟨fun r hr hwaits hold => ?_, hassigned.small⟩
          rw [hhanded] at hold
          rcases List.mem_cons.mp hold with heq | hold
          · rw [heq]
            exact List.mem_cons_self
          · exact List.mem_cons_of_mem _ (hassigned.waits r hr hwaits hold)
  | accept keyId =>
      cases hstep
      have hlog : ((s.rows.filter fun r => r.keyId = keyId).map fun r =>
          Entry.accepted r.toPreKey) =
          ((s.rows.filter fun r => r.keyId = keyId).map (·.toPreKey)).map .accepted := by
        rw [List.map_map]
        rfl
      refine ⟨fun r hr hwaits hold => ?_, fun r hr => h.small r (List.mem_of_mem_filter hr)⟩
      dsimp only at hold ⊢
      rw [hlog, handed_map_accepted] at hold
      rw [given_append]
      exact List.mem_append_right _ (h.waits r (List.mem_of_mem_filter hr) hwaits hold)

end Ordered

/-! ## 9. Runs of a login -/

theorem start_tabled (fresh : Fin INITIAL_PREKEY_COUNT → KeyPair) : Tabled (start fresh) := by
  have hrows : preKeys (start fresh).rows = generateBatch 1 fresh := by
    show ((generateBatch 1 fresh).map fun p => (⟨p, false⟩ : PrekeyRow)).map (·.toPreKey) = _
    rw [List.map_map]
    exact List.map_id _
  have hhanded : handed (start fresh).log = [] := by
    show handed ((generateBatch 1 fresh).map .assigned) = []
    rw [← List.append_nil ((generateBatch 1 fresh).map Entry.assigned), handed_map_assigned]
    rfl
  have hids : (generateBatch 1 fresh).map (·.keyId) =
      List.ofFn fun i : Fin INITIAL_PREKEY_COUNT => 1 + UInt32.ofNat i :=
    List.map_ofFn
  refine ⟨?_, fun p hp => ?_⟩
  · rw [hrows, hids]
    decide
  · rw [hhanded] at hp
    cases hp

theorem start_kept (fresh : Fin INITIAL_PREKEY_COUNT → KeyPair) : Kept (start fresh) := by
  have hlog : (start fresh).log = (generateBatch 1 fresh).map .assigned ++ [] :=
    (List.append_nil _).symm
  rw [kept_iff (start_tabled fresh), hlog, handed_map_assigned, neverReassigned_assigned]
  refine ⟨List.nodup_nil, ⟨fun p _ q hq => ?_, trivial⟩, fun p hp => ?_⟩
  · cases hq
  · cases hp

theorem start_ordered (fresh : Fin INITIAL_PREKEY_COUNT → KeyPair) : Ordered (start fresh) := by
  refine ⟨fun r _ _ hold => ?_, fun r hr => ?_⟩
  · have hnone : handed (start fresh).log = [] := by
      show handed ((generateBatch 1 fresh).map .assigned) = []
      rw [← List.append_nil ((generateBatch 1 fresh).map Entry.assigned), handed_map_assigned]
      rfl
    rw [hnone] at hold
    cases hold
  · obtain ⟨p, hp, rfl⟩ := List.mem_map.mp hr
    obtain ⟨i, rfl⟩ := List.mem_ofFn.mp hp
    have hall : ∀ i : Fin INITIAL_PREKEY_COUNT, (1 + UInt32.ofNat i).toNat < 2 ^ 24 := by decide
    exact hall i

/-- **One-time prekeys are one-time, in every state of a run whose steps all meet the condition.** -/
theorem handed_once (fresh : Fin INITIAL_PREKEY_COUNT → KeyPair) (ops : List Op) (s : State)
    (hmeets : Meets step Proper (start fresh) ops) (hrun : runFrom step (start fresh) ops = some s) :
    Kept s := by
  have hinv := run_invariant (I := fun s => Tabled s ∧ Ordered s ∧ Kept s) (C := Proper)
    (fun s op s' ⟨htabled, hordered, hkept⟩ hproper hstep => by
      obtain ⟨htabled', hiff⟩ := kept_step s op s' htabled hstep
      exact ⟨htabled', ordered_step hordered hproper hstep,
        hiff.mpr ⟨hkept, harmless_of_proper hordered hproper⟩⟩)
    ⟨start_tabled fresh, start_ordered fresh, start_kept fresh⟩ hmeets hrun
  exact hinv.2.2

namespace Sample

def pair (n : Nat) : KeyPair := ⟨.ofNat 32 n, .ofNat 32 (1000 + n)⟩

def keys : DeviceKeys := ⟨7, .ofNat 32 1, ⟨1, .ofNat 32 2, .ofNat 64 3⟩⟩

def first : State := start fun i => pair i

end Sample

/-- An upload on connecting, a receipt, and a message that uses up a prekey of the upload. -/
theorem upload_then_accept :
    ∃ s, runFrom step Sample.first [.upload "1" Sample.keys,
      .retryKeys (some [1]) Sample.keys (Sample.pair 40), .accept 4] = some s ∧ Kept s := by
  have hsome : (runFrom step Sample.first [.upload "1" Sample.keys,
      .retryKeys (some [1]) Sample.keys (Sample.pair 40), .accept 4]).isSome = true := by
    decide +kernel
  obtain ⟨s, hrun⟩ := Option.isSome_iff_exists.mp hsome
  exact ⟨s, hrun, handed_once _ _ s (by decide +kernel) hrun⟩

/-- The prekey of a receipt is uploaded for others; and when the last prekey has been used up the
    next receipt gives its id to another. -/
theorem prekey_handed_twice :
    (∃ s, runFrom step Sample.first [.upload "1" Sample.keys,
      .retryKeys (some [1]) Sample.keys (Sample.pair 40), .upload "2" Sample.keys] = some s ∧
      ¬(handed s.log).Nodup ∧ ¬Kept s) ∧
    (∃ s, runFrom step Sample.first [.upload "1" Sample.keys, .accept 30,
      .retryKeys (some [1]) Sample.keys (Sample.pair 40)] = some s ∧
      (∃ p ∈ handed s.log, ∃ q ∈ handed s.log, p.keyId = q.keyId ∧ p.keypair ≠ q.keypair) ∧
      ¬Kept s) := by
  refine ⟨⟨_, rfl, ?_, fun h => absurd h.once ?_⟩, ⟨_, rfl, ?_, fun h => ?_⟩⟩
  · decide +kernel
  · decide +kernel
  · exact ⟨⟨30, Sample.pair 40⟩, by decide +kernel, ⟨30, Sample.pair 29⟩, by decide +kernel, rfl,
      by decide +kernel⟩
  · exact absurd (h.stable.1 ⟨30, Sample.pair 29⟩ (by decide +kernel) rfl) (by decide +kernel)

end Ruwa.Session.Prekeys
