/-
  File:      Ruwa/Session/AppStateHash.lean
  Subject:   THE HASH OF A COLLECTION (`session.rs`, `LtHash`, the bookkeeping of
             `decode_authenticated_app_state_patch` and `decode_app_state_snapshot`).

  The hash that is stored for a collection is meant to be the sum of what its records expand to,
  number by number, and thus to depend on nothing else. It is kept up to date without a look at the
  records: what a patch sets is added, and a removal subtracts its own value MAC.

  * `lanes_add`, `lanes_sub`, `lanes_injective` -- the hash as 64 numbers of 16 bits;
  * `hash_opened` -- what a snapshot or patch makes of it;
  * **`hash_is_sum`** -- it is the sum over the records in every state of a run, if each record can
    be read, none is set over another one, and each removal carries the MAC of what it removes.
-/
import Mathlib.Data.List.GetD
import Mathlib.Data.UInt
import Ruwa.Library.Run
import Ruwa.Library.SetHash
import Ruwa.Session.SyncLoss

namespace Ruwa.Session.AppState

open Ruwa.Library
open Ruwa.Crypto

/-! ## 1. Numbers of 16 bits -/

def lanesOf : Bytes → List UInt16
  | a₀ :: a₁ :: as => (a₀.toUInt16 ||| a₁.toUInt16 <<< 8) :: lanesOf as
  | _ => []

/-- The 64 numbers of a hash. -/
def LtHash.lanes (h : LtHash) : Fin 64 → UInt16 := fun i => (lanesOf h.bytes).getD i 0

theorem lane_toNat (a₀ a₁ : UInt8) :
    (a₀.toUInt16 ||| a₁.toUInt16 <<< 8).toNat = a₁.toNat * 256 + a₀.toNat := by
  rw [UInt16.toNat_or, UInt16.toNat_shiftLeft, Nat.or_comm]
  have h₁ := a₁.toNat_lt
  have hshift : a₁.toUInt16.toNat <<< (UInt16.toNat 8 % 16) % 2 ^ 16 = a₁.toNat <<< 8 := by
    rw [UInt8.toNat_toUInt16]
    refine Nat.mod_eq_of_lt ?_
    rw [show UInt16.toNat 8 % 16 = 8 from rfl, Nat.shiftLeft_eq]
    omega
  rw [hshift, UInt8.toNat_toUInt16, shiftLeft_or_byte]

theorem lane_inj {a₀ a₁ b₀ b₁ : UInt8}
    (h : a₀.toUInt16 ||| a₁.toUInt16 <<< 8 = b₀.toUInt16 ||| b₁.toUInt16 <<< 8) :
    a₀ = b₀ ∧ a₁ = b₁ := by
  have hnat := congrArg UInt16.toNat h
  rw [lane_toNat, lane_toNat] at hnat
  have ha := a₀.toNat_lt
  have hb := b₀.toNat_lt
  exact ⟨UInt8.toNat_inj.mp (by omega), UInt8.toNat_inj.mp (by omega)⟩

/-- A number is taken apart into its two bytes and put together again. -/
theorem lane_split (s : UInt16) :
    s.toUInt8.toUInt16 ||| (s >>> 8).toUInt8.toUInt16 <<< 8 = s := by
  refine UInt16.toNat_inj.mp ?_
  have hs := s.toNat_lt
  have hhigh : (s >>> 8).toUInt8.toNat = s.toNat / 256 := by
    rw [UInt16.toNat_toUInt8, UInt16.toNat_shiftRight, show UInt16.toNat 8 % 16 = 8 from rfl,
      Nat.shiftRight_eq_div_pow]
    omega
  rw [lane_toNat, hhigh, UInt16.toNat_toUInt8]
  omega

theorem lanesOf_combine (f : UInt16 → UInt16 → UInt16) (as bs : Bytes) :
    lanesOf (combine f as bs) = List.zipWith f (lanesOf as) (lanesOf bs) := by
  fun_induction combine f as bs with
  | case1 a₀ a₁ as b₀ b₁ bs s ih =>
      simp only [lanesOf, List.zipWith_cons_cons, ih, lane_split]
      rfl
  | case2 as bs hshort =>
      match as, bs with
      | [], _ => rfl
      | [_], _ => rfl
      | _ :: _ :: _, [] => simp [lanesOf]
      | _ :: _ :: _, [_] => simp [lanesOf]
      | a₀ :: a₁ :: as, b₀ :: b₁ :: bs => exact absurd rfl (hshort a₀ a₁ as b₀ b₁ bs rfl)

theorem length_lanesOf {k : Nat} {as : Bytes} (h : as.length = 2 * k) :
    (lanesOf as).length = k := by
  induction k generalizing as with
  | zero =>
      cases List.length_eq_zero_iff.mp h
      rfl
  | succ k ih =>
      match as, h with
      | a₀ :: a₁ :: as, h =>
          rw [lanesOf, List.length_cons, ih]
          simp only [List.length_cons] at h
          omega

theorem lanesOf_injective {k : Nat} {as bs : Bytes} (ha : as.length = 2 * k)
    (hb : bs.length = 2 * k) (h : lanesOf as = lanesOf bs) : as = bs := by
  induction k generalizing as bs with
  | zero => rw [List.length_eq_zero_iff.mp ha, List.length_eq_zero_iff.mp hb]
  | succ k ih =>
      match as, bs, ha, hb with
      | a₀ :: a₁ :: as, b₀ :: b₁ :: bs, ha, hb =>
          obtain ⟨hlane, hrest⟩ := List.cons.inj h
          obtain ⟨rfl, rfl⟩ := lane_inj hlane
          simp only [List.length_cons] at ha hb
          rw [ih (by omega) (by omega) hrest]

theorem lanes_combine (f : UInt16 → UInt16 → UInt16) (h other : LtHash) (i : Fin 64) :
    (lanesOf (combine f h.bytes other.bytes)).getD i 0 = f (h.lanes i) (other.lanes i) := by
  have hlen : i.val < (lanesOf h.bytes).length := by
    rw [length_lanesOf h.length_bytes (k := 64)]
    exact i.isLt
  have hlen' : i.val < (lanesOf other.bytes).length := by
    rw [length_lanesOf other.length_bytes (k := 64)]
    exact i.isLt
  unfold LtHash.lanes
  rw [lanesOf_combine, List.getD_eq_getElem _ _ (by rw [List.length_zipWith]; omega),
    List.getElem_zipWith, List.getD_eq_getElem _ _ hlen, List.getD_eq_getElem _ _ hlen']

theorem lanes_add (h other : LtHash) : (h.add other).lanes = h.lanes + other.lanes :=
  funext fun i => lanes_combine (· + ·) h other i

theorem lanes_sub (h other : LtHash) : (h.sub other).lanes = h.lanes - other.lanes :=
  funext fun i => lanes_combine (· - ·) h other i

theorem lanes_zero : LtHash.zero.lanes = 0 := by
  funext i
  revert i
  decide +kernel

/-- **A hash is its numbers.** -/
theorem lanes_injective {h h' : LtHash} (heq : h.lanes = h'.lanes) : h = h' := by
  refine U8Array.ext (lanesOf_injective (k := 64) h.length_bytes h'.length_bytes ?_)
  refine List.ext_getElem ?_ fun i hi hi' => ?_
  · rw [length_lanesOf h.length_bytes (k := 64), length_lanesOf h'.length_bytes (k := 64)]
  · have hlane := congrFun heq ⟨i, length_lanesOf h.length_bytes (k := 64) ▸ hi⟩
    unfold LtHash.lanes at hlane
    rwa [List.getD_eq_getElem _ _ hi, List.getD_eq_getElem _ _ hi'] at hlane

/-! ## 2. Records -/

theorem length_end {blob : Bytes} (h : 16 + 32 ≤ blob.length) :
    (blob.drop (blob.length - 32)).length = 32 := by
  rw [List.length_drop]
  omega

/-- The MAC at the end of a value. -/
def valueMacOf (blob : Bytes) : Option (U8Array 32) :=
  if h : 16 + 32 ≤ blob.length then
    some ⟨blob.drop (blob.length - 32), length_end h⟩
  else none

/-- What a mutation does to its collection, if its record has a value. -/
def SyncdMutation.edit (m : SyncdMutation) : Option (Edit Bytes (U8Array 32)) := do
  let record ← m.record
  let mac ← valueMacOf (← record.value)
  let index := record.index.getD []
  return if operationByte m = 1 then .remove index mac else .set index mac

def Opened.edits (o : Opened) : List (Edit Bytes (U8Array 32)) :=
  o.mutations.filterMap SyncdMutation.edit

/-- The value MACs of a collection by the index of their records. -/
abbrev SyncdRecords : Type := Collection Bytes (U8Array 32)

/-- A snapshot replaces the collection. -/
def Opened.base (o : Opened) (s : SyncdRecords) : SyncdRecords := if o.strict then s else ∅

section

variable (W : Wire) (P : Primitives)

def expansion (mac : U8Array 32) : Fin 64 → UInt16 := (expandValueMacToLthashInput P mac).lanes

/-- **The hash is the one whose numbers are the sums** of those of the records. -/
def IsLaneSum (h : LtHash) (s : SyncdRecords) : Prop :=
  ∀ h' : LtHash, h'.lanes = total (expansion P) s ↔ h' = h

/-- The record can be read with a key that is held. -/
def Readable (keys : Bytes → Option Bytes) (fallback : Option Bytes) (m : SyncdMutation) : Prop :=
  ∃ mutations mac, readMutation W P keys fallback m = .read mutations mac

/-- **The condition**: every record with a value can be read; none is set while one is there under
    its index, and each removal carries the MAC of the record that is there, as far as the hash can
    tell two MACs apart. -/
structure Opened.Regular (keys : Bytes → Option Bytes) (s : SyncdRecords) (o : Opened) : Prop where
  readable : ∀ m ∈ o.mutations, m.edit ≠ none → Readable W P keys o.keyId m
  balanced : BalancedAll (expansion P) (o.base s) o.edits

end

theorem isLaneSum_iff {P : Primitives} {h : LtHash} {s : SyncdRecords} :
    IsLaneSum P h s ↔ h.lanes = total (expansion P) s := by
  constructor
  · exact fun hsum => (hsum h).mpr rfl
  · exact fun hsum h' =>
      ⟨fun hother => lanes_injective (hother.trans hsum.symm), fun heq => heq ▸ hsum⟩

/-! ## 3. A snapshot or a patch -/

section

variable {W : Wire} {P : Primitives} {keys : Bytes → Option Bytes} {fallback : Option Bytes}

/-- What a value MAC adds to each number. -/
def contribution (P : Primitives) (mac : UInt8 × U8Array 32) : Fin 64 → UInt16 :=
  if mac.1 = 1 then -expansion P mac.2 else expansion P mac.2

theorem lanes_hashMac (h : LtHash) (mac : UInt8 × U8Array 32) :
    (hashMac P h mac).lanes = h.lanes + contribution P mac := by
  unfold hashMac contribution expansion
  split
  · rw [lanes_sub, sub_eq_add_neg]
  · rw [lanes_add]

theorem lanes_hashFrom (h : LtHash) (macs : List (UInt8 × U8Array 32)) :
    (hashFrom P h macs).lanes = h.lanes + (macs.map (contribution P)).sum := by
  induction macs generalizing h with
  | nil => rw [List.map_nil, List.sum_nil, add_zero]; rfl
  | cons mac macs ih =>
      calc (hashFrom P h (mac :: macs)).lanes
          = (hashMac P h mac).lanes + (macs.map (contribution P)).sum := ih _
        _ = h.lanes + ((mac :: macs).map (contribution P)).sum := by
            rw [lanes_hashMac, List.map_cons, List.sum_cons, add_assoc]

theorem openValue_mac {mainKey : U8Array 32} {blob : Bytes} (hlen : 16 + 32 ≤ blob.length)
    {mutations : List AppStateMutation} {mac : U8Array 32}
    (h : openValue W P mainKey blob hlen = .read mutations mac) : valueMacOf blob = some mac := by
  unfold openValue at h
  dsimp only at h
  unfold valueMacOf
  rw [dif_pos hlen]
  split at h
  · cases h
  · split at h
    · cases h
    · split at h
      · cases h
      · cases h
        rfl

/-- **A record that is read** has a value, and the MAC at its end is what is hashed. -/
theorem edit_of_read {m : SyncdMutation} {mutations : List AppStateMutation} {mac : U8Array 32}
    (h : readMutation W P keys fallback m = .read mutations mac) :
    ∃ e, m.edit = some e ∧ e.delta (expansion P) = contribution P (operationByte m, mac) := by
  unfold readMutation at h
  cases hrecord : m.record with
  | none =>
      rw [hrecord] at h
      cases h
  | some record =>
      rw [hrecord] at h
      dsimp only at h
      unfold readRecord at h
      split at h
      · cases h
      · split at h
        · cases h
        · cases h
        · split at h
          · cases h
          · rename_i blob hblob
            split at h
            · rename_i hlen
              refine ⟨if operationByte m = 1 then .remove (record.index.getD []) mac
                else .set (record.index.getD []) mac, ?_, ?_⟩
              · unfold SyncdMutation.edit
                rw [hrecord, Option.bind_eq_bind, Option.bind_some, hblob, Option.bind_eq_bind,
                  Option.bind_some, openValue_mac hlen h]
                rfl
              · unfold contribution
                split
                · rfl
                · rfl
            · cases h

/-- What a mutation is hashed as, if it is read whenever it has a value. -/
theorem contribution_mutation {m : SyncdMutation}
    (h : m.edit ≠ none → Readable W P keys fallback m) :
    ((readMutation W P keys fallback m).valueMacs m).map (contribution P) =
      (m.edit.map (Edit.delta (expansion P))).toList := by
  by_cases hread : Readable W P keys fallback m
  · obtain ⟨mutations, mac, hread⟩ := hread
    obtain ⟨e, he, hdelta⟩ := edit_of_read hread
    rw [hread, he, Option.map_some, Option.toList_some, hdelta]
    rfl
  · have hnone : m.edit = none := by
      by_contra hedit
      exact hread (h hedit)
    have hmacs : (readMutation W P keys fallback m).valueMacs m = [] := by
      cases hreading : readMutation W P keys fallback m with
      | read mutations mac => exact absurd ⟨mutations, mac, hreading⟩ hread
      | _ => rfl
    rw [hmacs, hnone]
    rfl

theorem contribution_mutations {ms : List SyncdMutation}
    (h : ∀ m ∈ ms, m.edit ≠ none → Readable W P keys fallback m) :
    (ms.flatMap fun m => (readMutation W P keys fallback m).valueMacs m).map (contribution P) =
      (ms.filterMap SyncdMutation.edit).map (Edit.delta (expansion P)) := by
  induction ms with
  | nil => rfl
  | cons m ms ih =>
      rw [List.flatMap_cons, List.map_append,
        contribution_mutation (h m List.mem_cons_self),
        ih fun m' hm' => h m' (List.mem_cons_of_mem m hm')]
      cases hedit : m.edit with
      | none => rw [List.filterMap_cons_none hedit]; rfl
      | some e => rw [List.filterMap_cons_some hedit]; rfl

def Write.hash : Write → LtHash
  | .bump hash => hash
  | .set _ hash => hash

/-- **What a snapshot or patch makes of the hash.** -/
theorem hash_opened {given : Given} {x : Work} {o : Opened} {s : SyncdRecords} {h : LtHash}
    (ho : openWork W P given x = some o) (htaken : Taken W P given keys x)
    (hregular : o.Regular W P keys s) (hbefore : IsLaneSum P h s) :
    ∃ out w, (decodeWork W P keys h o).2 = some ⟨out, some w⟩ ∧
      IsLaneSum P w.hash (applyAll o.edits (o.base s)) := by
  obtain ⟨o', ho', hfatal, hlacking⟩ := htaken
  cases ho.symm.trans ho'
  have haccepted : (o.reads W P keys).2 = true := reads_accepted.mpr hfatal
  have hmacs : (o.reads W P keys).1.valueMacs.map (contribution P) =
      o.edits.map (Edit.delta (expansion P)) := by
    rw [reads_eq, reached_eq_self hfatal]
    exact contribution_mutations hregular.readable
  have hsum := total_applyAll (expansion P) hregular.balanced
  unfold decodeWork
  dsimp only
  rw [if_pos haccepted]
  cases hversion : o.version with
  | none =>
      have hbase : o.base s = s := by
        unfold Opened.base Opened.strict
        rw [hversion]
        rfl
      refine ⟨_, _, rfl, isLaneSum_iff.mpr ?_⟩
      rw [hsum, hbase, ← isLaneSum_iff.mp hbefore, ← hmacs]
      exact lanes_hashFrom h _
  | some version =>
      have hbase : o.base s = ∅ := by
        unfold Opened.base Opened.strict
        rw [hversion]
        rfl
      have hmissing : (o.reads W P keys).1.missing = [] := by
        refine reads_missing_nil.mpr ?_
        rw [reached_eq_self hfatal]
        exact hlacking.resolve_left fun hnone => nomatch hversion.symm.trans hnone
      dsimp only
      rw [if_pos hmissing]
      refine ⟨_, _, rfl, isLaneSum_iff.mpr ?_⟩
      rw [hsum, hbase, total_empty, ← lanes_zero, ← hmacs]
      exact lanes_hashFrom LtHash.zero _

/-! ## 4. Runs -/

/-- The store of the program, and the records that are in each collection. -/
structure Replica where
  walk : Walk
  records : String → SyncdRecords

/-- A snapshot or a patch arrives for a collection, or the keys change. -/
inductive Feed where
  | work (given : Given) (name : String) (x : Work)
  | keys (mainKeys : Bytes → Option Bytes)

end

section

variable (W : Wire) (P : Primitives)

/-- The records change with the cursor. -/
def Replica.recordsAfter (r : Replica) (given : Given) (name : String) (x : Work) :
    String → SyncdRecords :=
  match openWork W P given x with
  | some o =>
      let decoded := decodeWork W P r.walk.store.mainKeys (cursorOf r.walk.store name).hash o
      if (decoded.2.bind Pending.write).isSome then
        Function.update r.records name (applyAll o.edits (o.base (r.records name)))
      else r.records
  | none => r.records

def feed (r : Replica) : Feed → Option Replica
  | .work given name x =>
      some ⟨handleWork W P given name r.walk x, r.recordsAfter W P given name x⟩
  | .keys mainKeys =>
      some { r with walk := { r.walk with store := { r.walk.store with mainKeys } } }

/-- Before anything was synced. -/
def Replica.blank (mainKeys : Bytes → Option Bytes) (mirror : List AppStateMutation) : Replica :=
  ⟨⟨⟨[], mainKeys, mirror⟩, [], []⟩, fun _ => ∅⟩

/-- What is taken is regular over what is there. -/
def Accountable (r : Replica) : Feed → Prop
  | .work given name x => ∀ o, openWork W P given x = some o →
      Taken W P given r.walk.store.mainKeys x →
        o.Regular W P r.walk.store.mainKeys (r.records name)
  | .keys _ => True

/-- **The hash of every collection is the sum over its records.** -/
def Summed (r : Replica) : Prop :=
  ∀ name, IsLaneSum P (cursorOf r.walk.store name).hash (r.records name)

end

section

variable {W : Wire} {P : Primitives} {given : Given} {name : String} {x : Work} {r r' : Replica}

theorem blank_summed (P : Primitives) (mainKeys : Bytes → Option Bytes)
    (mirror : List AppStateMutation) : Summed P (.blank mainKeys mirror) :=
  fun _ => isLaneSum_iff.mpr lanes_zero

theorem cursorOf_versions {store store' : AppStore} (h : store.versions = store'.versions)
    (name : String) : cursorOf store name = cursorOf store' name := by
  unfold cursorOf
  rw [h]

theorem cursorOf_written (store : AppStore) (name : String) (w : Write) :
    (cursorOf (writeCursor store name (some w)) name).hash = w.hash := by
  cases w with
  | bump hash => exact congrArg Cursor.hash (cursorOf_set store name _ hash)
  | set version hash => exact congrArg Cursor.hash (cursorOf_set store name version hash)

/-- A snapshot or patch that is taken. -/
theorem work_summed (hsummed : Summed P r) (htaken : Taken W P given r.walk.store.mainKeys x)
    (haccountable : Accountable W P r (.work given name x)) :
    Summed P ⟨handleWork W P given name r.walk x, r.recordsAfter W P given name x⟩ := by
  obtain ⟨o, ho, -⟩ := id htaken
  obtain ⟨out, w, hdecoded, hsum⟩ :=
    hash_opened ho htaken (haccountable o ho htaken) (hsummed name)
  have hrecords : r.recordsAfter W P given name x =
      Function.update r.records name (applyAll o.edits (o.base (r.records name))) := by
    unfold Replica.recordsAfter
    rw [ho]
    dsimp only
    rw [hdecoded]
    rfl
  have hstore : (handleWork W P given name r.walk x).store =
      finish given r.walk.store name ⟨out, some w⟩ := by
    unfold handleWork
    rw [ho]
    dsimp only
    rw [hdecoded]
    rfl
  intro other
  dsimp only
  rw [hstore, hrecords, cursorOf_versions (finish_versions r.walk.store name ⟨out, some w⟩)]
  by_cases hsame : other = name
  · rw [hsame, cursorOf_written, Function.update_self]
    exact hsum
  · rw [cursorOf_writeCursor_ne r.walk.store (Ne.symm hsame), Function.update_of_ne hsame]
    exact hsummed other

variable (name) in
/-- One that is not. -/
theorem work_left (htaken : ¬Taken W P given r.walk.store.mainKeys x) :
    (handleWork W P given name r.walk x).store.versions = r.walk.store.versions ∧
      r.recordsAfter W P given name x = r.records := by
  refine ⟨handleWork_left name htaken, ?_⟩
  unfold Replica.recordsAfter
  cases ho : openWork W P given x with
  | none => rfl
  | some o =>
      dsimp only
      rw [if_neg fun hwrite => htaken ((decodeWork_write _ ho).mp hwrite)]

theorem feed_mainKeys (h : feed W P r (.work given name x) = some r') :
    r'.walk.store.mainKeys = r.walk.store.mainKeys := by
  cases h
  exact handleWork_mainKeys name r.walk x

/-- **One step keeps the sums.** -/
theorem feed_summed {e : Feed} (hsummed : Summed P r) (haccountable : Accountable W P r e)
    (h : feed W P r e = some r') : Summed P r' := by
  cases e with
  | keys mainKeys =>
      cases h
      exact hsummed
  | work given name x =>
      cases h
      by_cases htaken : Taken W P given r.walk.store.mainKeys x
      · exact work_summed hsummed htaken haccountable
      · obtain ⟨hversions, hrecords⟩ := work_left name htaken
        intro other
        dsimp only
        rw [hrecords, cursorOf_versions hversions]
        exact hsummed other

end

/-- **The hash of every collection in every run**: snapshots and patches in any order, for any
    collections, with any changes of the keys in between. -/
theorem hash_is_sum (W : Wire) (P : Primitives) (mainKeys : Bytes → Option Bytes)
    (mirror : List AppStateMutation) (feeds : List Feed) (r : Replica)
    (haccountable : Meets (feed W P) (Accountable W P) (.blank mainKeys mirror) feeds)
    (hrun : runFrom (feed W P) (.blank mainKeys mirror) feeds = some r) : Summed P r :=
  run_invariant (I := Summed P) (fun _ _ _ hsummed hcond hstep => feed_summed hsummed hcond hstep)
    (blank_summed P mainKeys mirror) haccountable hrun

/-! ## 5. One pin, twice -/

deriving instance DecidableEq for SyncdRecord, SyncdMutation, SyncdPatch, Opened
deriving instance DecidableEq for Edit

namespace Sample

def words (ws : List Nat) : Bytes := ws.flatMap (toBE 32)

/-- The key of the records, and what it expands to. -/
def mainKey : U8Array 32 := .replicate 32 0x11
def mainKeyId : Bytes := [0, 0, 0, 0, 0x11, 0x22]
def expanded : Bytes := words [
  0xfd3ff8776dcfcdf2ca9a4ae066ec76751e870e454badae31ea4dcca973cf44ad,
  0xe836fed93c6798e68e7622078a290b6012e07f46efc0a41e9289cb36b325e8d3,
  0x4c28e6219e3d444fd3fbac3307d92ad93bde66affb192acee117e52712bc49bb,
  0x30bf5946df33f212d04a29f2d89a8884f561c934f693b8e83eeeeb82be9d37f4,
  0x4b69fd1503b223f98a2fec0c68f4e9ad4f83a1797a4ec263932b9dd092de83a2]

def mainKeys (keyId : Bytes) : Option Bytes :=
  if keyId = mainKeyId then some mainKey.bytes else none

/-- A value, with what its MAC expands to. -/
structure SealedValue where
  iv : U8Array 16
  ct : Bytes
  mac : U8Array 32
  expansion : Bytes

def SealedValue.blob (v : SealedValue) : Bytes := v.iv.bytes ++ v.ct ++ v.mac.bytes

/-- A chat is pinned, and unpinned; the pin is removed; another chat is pinned. -/
def pinned : SealedValue where
  iv := .replicate 16 1
  ct := words [
    0x6e4d396b2351681fdf962e3568037cd310d5dba46dc1eaea123738c69b20a044,
    0x0257bad0d66ec9228c7ed921e8002ccf14447aea60ed785f5710dcb5bd21dd33]
  mac := .ofNat 32
    0x2573cd60a9ef01fdbefd3994bb19a3da098585501808ece5b0c4c86d7921c3ae
  expansion := words [
    0xba408fb0034f1d4a6f5fbd5fd51659841db558c36fab3791443435060c7bf7f7,
    0x6a87a1dff9c1929988999e8ce3f1a2dc1c847889d796882ad6e4749e87d9baa9,
    0x994b576ae9cc53d46804382a56e0b2e636d8f16464ff832c8cf680c4398e2839,
    0xb0e64c4543a9cd56a1772624c8f43d89752e9e8628b52ae9856f2170a6cbab40]

def unpinned : SealedValue where
  iv := .replicate 16 2
  ct := words [
    0xbd1aa629cbd739e70f81026fa541a0a3cb3976563d3d11d4f5aa62d2c0d5e22c,
    0x0286e573ccc9bcf48a913c53effedf7dde7bb280d661254411622fd35cb2260d]
  mac := .ofNat 32
    0xd142f4b698fa26c064a536840d5dacaaf0e64534782bf843c2d53570f71579c6
  expansion := words [
    0x6eab1c4b94fb5fc6b44011b692ac78d8f0a4c56171ccd80338ca9acb1430e84c,
    0x04a2910caca78349541b84b80ac8058800a3afae6c61600addbb4b0b6f8fcb23,
    0xfebae6afe7dc6729dd989be75480e53a2abdd10e7513d1d159c1f9818a0dcca6,
    0x31dbe7b5b349d67fd0e305210d303b006ef3f3efd15f212a863f3f379df1fd8a]

def pinRemoved : SealedValue where
  iv := .replicate 16 3
  ct := words [
    0x1c31f68a831b051eefcc95570d8314095340bd509f71a8dd08cc4ff1fc25ea5b,
    0x75a3d64e6c4a58290264e79d877629018a46b8e6184141ed34fc135edb7aa33c]
  mac := .ofNat 32
    0x0a5a61e9457402aa09a11eb14bdcdeb74538bb6b2b20c99b30f65d50307457c0
  expansion := words [
    0x6b0df69576e3e85772e7c98398c6c933f79475305fe10a4e202786e2862605b2,
    0x7177002197e46f8bcfebd3f70255af9f583be7ba0278e24078d5f0b44f5dbd2b,
    0xf1416a3535547dccd81f68d7257d7fcb94c9f3fbac5f5304ac6459b08b31edf1,
    0x2c3d7cd05359ab6806ba2286c75b5605e2b59ce850794d0847e5e94b036fed05]

def otherPinned : SealedValue where
  iv := .replicate 16 4
  ct := words [
    0xba6cde4aa08b42294ef45d2a0fa52fef81537262e87c8e8e6cdf71acdabe0990,
    0x9ac1ad4962979048e4177942b5bc0e4918571bfff27b55381c1c93f1ba6b323a]
  mac := .ofNat 32
    0xce58ceddb88d3fe3dfa4c2822850a8ad6a4c0535886f3d36292c77e67a84c129
  expansion := words [
    0xbf96d3c3ee14a86774fb0e49d57174206e76146646e1ba0ff9d64b1d7442f5a1,
    0x2aaaffdbd6e0bb5929163513e5199aebe8579baec081aa89c212050296a321b2,
    0xf390b2ae7e1650b65a2e96b35aae12a025f87f82998132caad2cef1175f2753f,
    0xb4fd4a61c47b55ef3e509b79fc20b22d28398fda645ef6b76563cdee126710a8]

def chat : List Char := "5511990000006@s.whatsapp.net".toList
def otherChat : List Char := "5511990000007@s.whatsapp.net".toList

/-- `["pin_v1",chat]`, and the index of a record, which is its MAC. -/
def indexOf (jid : List Char) : Bytes :=
  utf8 "[\"pin_v1\",\"" ++ utf8 (String.ofList jid) ++ utf8 "\"]"
def chatIndex : Bytes := words [
  0x306d3f70b2f9ab7f8a0eab45269745f49bcea6b71b67712767a0bb468800c6a6]
def otherIndex : Bytes := words [
  0x49025dcb9eb5254789633b2d4fb8cc450fbaa49e65d96cb49de5c7cf949047e5]

/-- The action in the value. -/
def pinBytes (jid : List Char) (flag : UInt8) : Bytes :=
  [0x0a, 0x29] ++ indexOf jid ++ [0x12, 4, 0x2a, 2, 8, flag]

def pinAction (jid : List Char) (flag : Bool) : SyncActionData :=
  ⟨some (indexOf jid), some ⟨none, none, some (some flag), none, none⟩⟩

/-- A patch with one mutation. -/
def patchBytes (op : UInt8) (index : Bytes) (v : SealedValue) : Bytes :=
  [0x12, 0xa7, 1, 8, op, 0x12, 0xa2, 1, 0x0a, 0x22, 0x0a, 0x20] ++ index ++
    [0x12, 0x72, 0x0a, 0x70] ++ v.blob ++ [0x1a, 8, 0x0a, 6] ++ mainKeyId

def patchOf (op : Int32) (index : Bytes) (v : SealedValue) : SyncdPatch :=
  ⟨[⟨some op, some ⟨some index, some v.blob, some mainKeyId⟩⟩], none, none, none⟩

def pinWire : Wire where
  patch := known [
    (patchBytes 0 chatIndex pinned, some (patchOf 0 chatIndex pinned)),
    (patchBytes 0 chatIndex unpinned, some (patchOf 0 chatIndex unpinned)),
    (patchBytes 1 chatIndex pinRemoved, some (patchOf 1 chatIndex pinRemoved)),
    (patchBytes 0 otherIndex otherPinned, some (patchOf 0 otherIndex otherPinned))] none
  snapshot _ := none
  action := known [
    (pinBytes chat 1, some (pinAction chat true)),
    (pinBytes chat 0, some (pinAction chat false)),
    (pinBytes otherChat 1, some (pinAction otherChat true))] none
  blobRef _ := none
  json := known ([chat, otherChat].map fun jid =>
    (indexOf jid, some (.arr [.str "pin_v1".toList, .str jid]))) none

def cipherKey : U8Array 32 := ⟨(expanded.drop 32).take 32, by decide⟩

def pinPrimitives : Primitives where
  hashing := .ofTable [] []
    (((List.replicate 32 0, mainKey.bytes, utf8 "WhatsApp Mutation Keys", 160), expanded) ::
      [pinned, unpinned, pinRemoved, otherPinned].map fun v =>
        ((List.replicate 32 0, v.mac.bytes, utf8 "WhatsApp Patch LTHash", 128), v.expansion))
  cbc := .ofTable [
    ⟨(cipherKey, pinned.iv), pinBytes chat 1, pinned.ct⟩,
    ⟨(cipherKey, unpinned.iv), pinBytes chat 0, unpinned.ct⟩,
    ⟨(cipherKey, pinRemoved.iv), pinBytes chat 1, pinRemoved.ct⟩,
    ⟨(cipherKey, otherPinned.iv), pinBytes otherChat 1, otherPinned.ct⟩]

def patchFeed (op : UInt8) (index : Bytes) (v : SealedValue) : Feed :=
  .work given "regular_low" (.patch (some (patchBytes op index v)))

def fed (feeds : List Feed) : Option Replica :=
  runFrom (feed pinWire pinPrimitives) (.blank mainKeys []) feeds

def opened (op : Int32) (index : Bytes) (v : SealedValue) : Opened :=
  ⟨none, (patchOf op index v).mutations, none⟩

def overwritten : List Feed := [patchFeed 0 chatIndex pinned, patchFeed 0 chatIndex unpinned]
def removed : List Feed := [patchFeed 0 chatIndex pinned, patchFeed 1 chatIndex pinRemoved]
def apart : List Feed := [patchFeed 0 chatIndex pinned, patchFeed 0 otherIndex otherPinned]

/-- The first number of the hash, and what it is meant to be. -/
def firstLanes (feeds : List Feed) : Option (UInt16 × UInt16) :=
  (fed feeds).map fun r =>
    ((cursorOf r.walk.store "regular_low").hash.lanes 0,
      total (expansion pinPrimitives) (r.records "regular_low") 0)

theorem not_summed {feeds : List Feed} {a b : UInt16} (h : firstLanes feeds = some (a, b))
    (hne : a ≠ b) : ∃ r, fed feeds = some r ∧ ¬Summed pinPrimitives r := by
  obtain ⟨r, hr, hlanes⟩ := Option.map_eq_some_iff.mp h
  refine ⟨r, hr, fun hsummed => hne ?_⟩
  have hsum := congrFun (isLaneSum_iff.mp (hsummed "regular_low")) 0
  rw [(Prod.mk.inj hlanes).1, (Prod.mk.inj hlanes).2] at hsum
  exact hsum

def isRead : Reading → Bool
  | .read _ _ => true
  | _ => false

theorem readable_of_isRead {m : SyncdMutation}
    (h : isRead (readMutation pinWire pinPrimitives mainKeys none m) = true) :
    Readable pinWire pinPrimitives mainKeys none m := by
  cases hread : readMutation pinWire pinPrimitives mainKeys none m with
  | read mutations mac => exact ⟨mutations, mac, hread⟩
  | _ =>
      rw [hread] at h
      cases h

theorem accountable {r : Replica} {index : Bytes} {v : SealedValue}
    (hopen : openWork pinWire pinPrimitives given (.patch (some (patchBytes 0 index v))) =
      some (opened 0 index v))
    (hread : isRead (readMutation pinWire pinPrimitives mainKeys none
      ⟨some 0, some ⟨some index, some v.blob, some mainKeyId⟩⟩) = true)
    (hkeys : r.walk.store.mainKeys = mainKeys)
    (hedits : (opened 0 index v).edits = [.set index v.mac])
    (habsent : (r.records "regular_low").lookup index = none) :
    Accountable pinWire pinPrimitives r (patchFeed 0 index v) := by
  intro o ho _
  cases hopen.symm.trans ho
  rw [hkeys]
  refine ⟨fun m hm _ => ?_, ?_⟩
  · obtain rfl := List.mem_singleton.mp hm
    exact readable_of_isRead hread
  · rw [hedits]
    refine ⟨?_, trivial⟩
    show Library.held (expansion pinPrimitives) (r.records "regular_low") index = 0
    unfold Library.held
    rw [habsent]
    rfl

end Sample

/-- A record that is set again counts twice, and one that is removed leaves a rest. -/
theorem overwrite_leaves_rest :
    (∃ r, Sample.fed Sample.overwritten = some r ∧ ¬Summed Sample.pinPrimitives r) ∧
      ∃ r, Sample.fed Sample.removed = some r ∧ ¬Summed Sample.pinPrimitives r :=
  ⟨Sample.not_summed (a := 60456) (b := 43886) (by decide +kernel) (by decide),
    Sample.not_summed (a := 13135) (b := 0) (by decide +kernel) (by decide)⟩

/-- Two records under different indices. -/
theorem apart_summed :
    ∃ r, Sample.fed Sample.apart = some r ∧ Summed Sample.pinPrimitives r := by
  obtain ⟨r₁, hfirst⟩ : ∃ r₁, feed Sample.pinWire Sample.pinPrimitives
    (.blank Sample.mainKeys []) (Sample.patchFeed 0 Sample.chatIndex Sample.pinned) = some r₁ :=
      ⟨_, rfl⟩
  obtain ⟨r₂, hsecond⟩ : ∃ r₂, feed Sample.pinWire Sample.pinPrimitives r₁
    (Sample.patchFeed 0 Sample.otherIndex Sample.otherPinned) = some r₂ := ⟨_, rfl⟩
  have hrun : Sample.fed Sample.apart = some r₂ := by
    simp only [Sample.fed, Sample.apart, runFrom, hfirst, hsecond]
  have hkeys : r₁.walk.store.mainKeys = Sample.mainKeys := feed_mainKeys hfirst
  have habsent : (feed Sample.pinWire Sample.pinPrimitives
      (.blank Sample.mainKeys []) (Sample.patchFeed 0 Sample.chatIndex Sample.pinned)).map
        (fun r => (r.records "regular_low").lookup Sample.otherIndex) = some none := by
    decide +kernel
  rw [hfirst] at habsent
  refine ⟨r₂, hrun, hash_is_sum Sample.pinWire Sample.pinPrimitives Sample.mainKeys []
    Sample.apart r₂ ⟨?_, ?_⟩ hrun⟩
  · exact Sample.accountable (by decide +kernel) (by decide +kernel) rfl (by decide +kernel) rfl
  · rw [hfirst]
    exact ⟨Sample.accountable (by decide +kernel) (by decide +kernel) hkeys (by decide +kernel)
      (Option.some.inj habsent), by rw [hsecond]; trivial⟩

end Ruwa.Session.AppState
