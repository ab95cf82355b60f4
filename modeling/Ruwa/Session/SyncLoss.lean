/-
  File:      Ruwa/Session/SyncLoss.lean
  Subject:   WHEN A REPLY OF THE APP STATE LOSES NOTHING (`session.rs`,
             `handle_app_state_sync_iq`).

  The cursor of a collection says what need not be asked for again, and a marked collection counts
  as synced. A snapshot with a missing key holds the cursor back; nothing else does. A patch moves
  the cursor when its form is in order, whatever could be read of it, and a patch after one that was
  refused moves it by one as well. A collection is marked when no key is missing, whether its
  snapshot could be downloaded or more patches were announced or not.

  * `handleWork_taken`, `handleWork_left` -- what one snapshot or patch writes;
  * `whole_mirrored` -- what was read in full is in the mirror;
  * `handle_store`, `handle_marked` -- a reply: its snapshots and patches one after the other, and
    the collections it marks;
  * **`reply_lossless_iff`** -- it loses nothing of a collection exactly when nothing of it is taken
    from the first snapshot or patch on that is not readable in full, and if no key is missing all
    are and no more are announced. A reply may have several `<collection>` nodes of one name.
-/
import Ruwa.Session.AppState

namespace Ruwa.Session.AppState

open Ruwa.Library
open Ruwa.Crypto
open Ruwa.Protocol.Binary (Node Content Attrs)

/-! ## 1. What a snapshot or patch is -/

section Work

variable (W : Wire) (P : Primitives) (given : Given) (keys : Bytes → Option Bytes)

/-- It can be opened, every record of it can be read, and the tables take what they say. -/
def Whole (x : Work) : Prop :=
  ∃ o, openWork W P given x = some o ∧ ∀ m ∈ o.mutations, ∃ out mac,
    readMutation W P keys o.keyId m = .read out mac ∧ ∀ a ∈ out, given.takes a = true

/-- It can be opened, no record is fatal, and as a snapshot it lacks no key. -/
def Taken (x : Work) : Prop :=
  ∃ o, openWork W P given x = some o ∧
    (∀ m ∈ o.mutations, (readMutation W P keys o.keyId m).fatal o.strict = false) ∧
    (o.version = none ∨ ∀ m ∈ o.mutations, (readMutation W P keys o.keyId m).lacking = [])

/-- Before a fatal record there is one whose key is not held. -/
def Lacks (x : Work) : Prop :=
  ∃ o, openWork W P given x = some o ∧ ∃ m ∈ reached W P o.strict keys o.keyId o.mutations,
    (readMutation W P keys o.keyId m).lacking ≠ []

/-- What the records say is in the mirror. -/
def Mirrored (store : AppStore) (x : Work) : Prop :=
  ∀ o, openWork W P given x = some o → ∀ m ∈ o.mutations,
    ∀ a ∈ (readMutation W P keys o.keyId m).out, a ∈ store.mirror

end Work

def workIn (c : Node) : List Work :=
  match c.content with
  | .nodes children => workOf children
  | _ => []

/-- The snapshots and patches of a reply in order, each with its collection. -/
def workOfReply (sync : Node) : List (String × Work) :=
  (collectionsOf sync).flatMap fun c => (workIn c).map fun x => (collectionName c, x)

/-- The server has more patches of a collection than it sent. -/
def hasMore (sync : Node) (name : String) : Bool :=
  (collectionsOf sync).any fun c =>
    collectionName c == name && c.attrs.get? "has_more_patches" == some "true"

/-- What has been written to the cursor of a collection, newest first. -/
def AppStore.writes (store : AppStore) (name : String) : List (String × Cursor) :=
  store.versions.filter fun v => v.1 = name

theorem cursorOf_writes {store store' : AppStore} {name : String}
    (h : store.writes name = store'.writes name) : cursorOf store name = cursorOf store' name := by
  unfold cursorOf
  rw [← List.head?_filter, ← List.head?_filter]
  exact congrArg (fun l => ((l.head?).map (·.2)).getD ⟨0, LtHash.zero⟩) h

/-! ## 2. What one of them writes -/

section Step

variable {W : Wire} {P : Primitives} {given : Given} {keys : Bytes → Option Bytes} {x : Work}

theorem reached_eq_self {strict : Bool} {fallback : Option Bytes} {ms : List SyncdMutation}
    (h : ∀ m ∈ ms, (readMutation W P keys fallback m).fatal strict = false) :
    reached W P strict keys fallback ms = ms := by
  unfold reached
  rw [List.takeWhile_eq_self_iff]
  intro m hm
  rw [h m hm]
  rfl

theorem read_not_fatal {r : Reading} {out : List AppStateMutation} {mac : U8Array 32}
    (h : r = .read out mac) (strict : Bool) : r.fatal strict = false ∧ r.lacking = [] := by
  subst h
  exact ⟨rfl, rfl⟩

/-- What is read in full is taken, and lacks nothing. -/
theorem Whole.taken (h : Whole W P given keys x) : Taken W P given keys x := by
  obtain ⟨o, ho, hread⟩ := h
  refine ⟨o, ho, fun m hm => ?_, Or.inr fun m hm => ?_⟩
  · obtain ⟨out, mac, hm', -⟩ := hread m hm
    exact (read_not_fatal hm' o.strict).1
  · obtain ⟨out, mac, hm', -⟩ := hread m hm
    exact (read_not_fatal hm' o.strict).2

/-- The record loop of an opened snapshot or patch. -/
theorem reads_eq (o : Opened) :
    o.reads W P keys =
      (⟨(reached W P o.strict keys o.keyId o.mutations).flatMap fun m =>
            (readMutation W P keys o.keyId m).lacking,
          (reached W P o.strict keys o.keyId o.mutations).flatMap fun m =>
            (readMutation W P keys o.keyId m).out,
          (reached W P o.strict keys o.keyId o.mutations).flatMap fun m =>
            (readMutation W P keys o.keyId m).valueMacs m⟩,
        o.mutations.all fun m => !(readMutation W P keys o.keyId m).fatal o.strict) := by
  unfold Opened.reads
  rw [readMutations_spec]
  rfl

theorem reads_accepted {o : Opened} :
    (o.reads W P keys).2 = true ↔
      ∀ m ∈ o.mutations, (readMutation W P keys o.keyId m).fatal o.strict = false := by
  rw [reads_eq, List.all_eq_true]
  simp only [Bool.not_eq_true']

theorem reads_missing_nil {o : Opened} :
    (o.reads W P keys).1.missing = [] ↔
      ∀ m ∈ reached W P o.strict keys o.keyId o.mutations,
        (readMutation W P keys o.keyId m).lacking = [] := by
  rw [reads_eq]
  exact List.flatMap_eq_nil_iff

/-- It is written when it is taken. -/
theorem decodeWork_write {o : Opened} (hash : LtHash) (ho : openWork W P given x = some o) :
    ((decodeWork W P keys hash o).2.bind Pending.write).isSome = true ↔
      Taken W P given keys x := by
  have htaken : Taken W P given keys x ↔
      (∀ m ∈ o.mutations, (readMutation W P keys o.keyId m).fatal o.strict = false) ∧
        (o.version = none ∨ ∀ m ∈ o.mutations, (readMutation W P keys o.keyId m).lacking = []) := by
    refine ⟨?_, fun h => ⟨o, ho, h⟩⟩
    rintro ⟨o', ho', h⟩
    rw [ho] at ho'
    cases ho'
    exact h
  rw [htaken, ← reads_accepted]
  unfold decodeWork
  dsimp only
  by_cases haccepted : (o.reads W P keys).2 = true
  · rw [if_pos haccepted]
    have hmissing : (o.reads W P keys).1.missing = [] ↔
        ∀ m ∈ o.mutations, (readMutation W P keys o.keyId m).lacking = [] := by
      rw [reads_missing_nil, reached_eq_self (reads_accepted.mp haccepted)]
    cases hversion : o.version with
    | none => exact ⟨fun _ => ⟨haccepted, Or.inl rfl⟩, fun _ => rfl⟩
    | some version =>
        simp only [Option.bind_some, reduceCtorEq, false_or]
        rw [← hmissing]
        by_cases hnone : (o.reads W P keys).1.missing = []
        · rw [if_pos hnone]
          exact ⟨fun _ => ⟨haccepted, hnone⟩, fun _ => rfl⟩
        · rw [if_neg hnone]
          exact ⟨fun h => (nomatch h), fun h => absurd h.2 hnone⟩
  · rw [if_neg haccepted]
    exact ⟨fun h => (nomatch h), fun h => absurd h.1 haccepted⟩

theorem finish_versions (store : AppStore) (name : String) (p : Pending) :
    (finish given store name p).versions = (writeCursor store name p.write).versions := rfl

theorem writeCursor_versions (store : AppStore) (name : String) {w : Option Write}
    (h : w.isSome = true) :
    ∃ cursor, (writeCursor store name w).versions = (name, cursor) :: store.versions := by
  cases w with
  | none => cases h
  | some w =>
      cases w with
      | bump hash => exact ⟨_, rfl⟩
      | set version hash => exact ⟨_, rfl⟩

variable (name : String) {w : Walk}

/-- **What is taken writes the cursor.** -/
theorem handleWork_taken (h : Taken W P given w.store.mainKeys x) :
    ∃ cursor, (handleWork W P given name w x).store.versions =
      (name, cursor) :: w.store.versions := by
  obtain ⟨o, ho, -⟩ := id h
  have hwrite := (decodeWork_write (cursorOf w.store name).hash ho).mpr h
  unfold handleWork
  rw [ho]
  dsimp only
  cases hpending : (decodeWork W P w.store.mainKeys (cursorOf w.store name).hash o).2 with
  | none =>
      rw [hpending] at hwrite
      cases hwrite
  | some p =>
      rw [hpending] at hwrite
      exact writeCursor_versions w.store name hwrite

/-- **What is not leaves the cursor.** -/
theorem handleWork_left (h : ¬Taken W P given w.store.mainKeys x) :
    (handleWork W P given name w x).store.versions = w.store.versions := by
  unfold handleWork
  cases ho : openWork W P given x with
  | none => rfl
  | some o =>
      dsimp only
      have hwrite := mt (decodeWork_write (cursorOf w.store name).hash ho).mp h
      cases hpending : (decodeWork W P w.store.mainKeys (cursorOf w.store name).hash o).2 with
      | none => rfl
      | some p =>
          rw [hpending] at hwrite
          cases hp : p.write with
          | none =>
              show (writeCursor w.store name p.write).versions = w.store.versions
              rw [hp]
              rfl
          | some write =>
              refine absurd ?_ hwrite
              rw [Option.bind_some, hp]
              rfl

theorem writeCursor_mirror (store : AppStore) (w : Option Write) :
    (writeCursor store name w).mirror = store.mirror := by
  cases w with
  | none => rfl
  | some w =>
      cases w with
      | bump hash => rfl
      | set version hash => rfl

/-- The mirror is only added to. -/
theorem handleWork_mirror :
    w.store.mirror <:+ (handleWork W P given name w x).store.mirror := by
  unfold handleWork
  cases openWork W P given x with
  | none => exact List.suffix_rfl
  | some o =>
      dsimp only
      cases (decodeWork W P w.store.mainKeys (cursorOf w.store name).hash o).2 with
      | none => exact List.suffix_rfl
      | some p =>
          show w.store.mirror <:+ (p.mutations.filter given.takes).reverse ++
            (writeCursor w.store name p.write).mirror
          rw [writeCursor_mirror]
          exact List.suffix_append _ _

/-- **What is read in full is applied.** -/
theorem whole_mirrored (h : Whole W P given w.store.mainKeys x) :
    Mirrored W P given w.store.mainKeys (handleWork W P given name w x).store x := by
  obtain ⟨o, ho, hread⟩ := h
  intro o' ho' m hm a ha
  rw [ho] at ho'
  cases ho'
  have hfatal : ∀ m ∈ o.mutations,
      (readMutation W P w.store.mainKeys o.keyId m).fatal o.strict = false := by
    intro m hm
    obtain ⟨out, mac, hm', -⟩ := hread m hm
    exact (read_not_fatal hm' o.strict).1
  have hout : (o.reads W P w.store.mainKeys).1.out =
      o.mutations.flatMap fun m => (readMutation W P w.store.mainKeys o.keyId m).out := by
    rw [reads_eq, reached_eq_self hfatal]
  have hmem : a ∈ (o.reads W P w.store.mainKeys).1.out := by
    rw [hout]
    exact List.mem_flatMap.mpr ⟨m, hm, ha⟩
  have htakes : given.takes a = true := by
    obtain ⟨out, mac, hm', htakes⟩ := hread m hm
    rw [hm'] at ha
    exact htakes a ha
  have hpending : ∃ write, (decodeWork W P w.store.mainKeys (cursorOf w.store name).hash o).2 =
      some ⟨(o.reads W P w.store.mainKeys).1.out, write⟩ := by
    unfold decodeWork
    dsimp only
    rw [if_pos (reads_accepted.mpr hfatal)]
    cases o.version with
    | none => exact ⟨_, rfl⟩
    | some version => exact ⟨_, rfl⟩
  obtain ⟨write, hpending⟩ := hpending
  unfold handleWork
  rw [ho]
  dsimp only
  rw [hpending]
  exact List.mem_append_left _ (List.mem_reverse.mpr (List.mem_filter.mpr ⟨hmem, htakes⟩))

variable (W P given x w) in
/-- The keys that are missing are collected. -/
theorem handleWork_missing :
    ∃ ids, (handleWork W P given name w x).missing = w.missing ++ ids ∧
      (ids = [] ↔ ¬Lacks W P given w.store.mainKeys x) := by
  unfold handleWork
  cases ho : openWork W P given x with
  | none =>
      refine ⟨[], (List.append_nil _).symm, fun _ => ?_, fun _ => rfl⟩
      rintro ⟨o, ho', -⟩
      rw [ho] at ho'
      cases ho'
  | some o =>
      have hids : (decodeWork W P w.store.mainKeys (cursorOf w.store name).hash o).1 =
          (o.reads W P w.store.mainKeys).1.missing := by
        unfold decodeWork
        dsimp only
        split
        · split
          · rfl
          · rfl
        · rfl
      refine ⟨_, rfl, ?_⟩
      rw [hids, reads_missing_nil]
      constructor
      · rintro hnone ⟨o', ho', m, hm, hlacking⟩
        rw [ho] at ho'
        cases ho'
        exact hlacking (hnone m hm)
      · intro hlacks m hm
        by_contra hlacking
        exact hlacks ⟨o, ho, m, hm, hlacking⟩

end Step

/-! ## 3. One after the other -/

section Works

variable (W : Wire) (P : Primitives) (given : Given)

/-- The store after one snapshot or patch. -/
def handled (store : AppStore) (p : String × Work) : AppStore :=
  (handleWork W P given p.1 ⟨store, [], []⟩ p.2).store

def handledAll (store : AppStore) (ps : List (String × Work)) : AppStore :=
  ps.foldl (handled W P given) store

variable {W P given}

theorem handleWork_store (name : String) (w : Walk) (x : Work) :
    (handleWork W P given name w x).store = handled W P given w.store (name, x) := by
  unfold handled handleWork
  cases openWork W P given x with
  | none => rfl
  | some o => rfl

theorem handled_mainKeys (store : AppStore) (p : String × Work) :
    (handled W P given store p).mainKeys = store.mainKeys :=
  handleWork_mainKeys p.1 ⟨store, [], []⟩ p.2

theorem handledAll_mainKeys (store : AppStore) (ps : List (String × Work)) :
    (handledAll W P given store ps).mainKeys = store.mainKeys := by
  induction ps generalizing store with
  | nil => rfl
  | cons p ps ih => exact (ih _).trans (handled_mainKeys store p)

theorem handledAll_append (store : AppStore) (ps qs : List (String × Work)) :
    handledAll W P given store (ps ++ qs) =
      handledAll W P given (handledAll W P given store ps) qs :=
  List.foldl_append

theorem handledAll_mirror (store : AppStore) (ps : List (String × Work)) :
    store.mirror <:+ (handledAll W P given store ps).mirror := by
  induction ps generalizing store with
  | nil => exact List.suffix_rfl
  | cons p ps ih =>
      have hone : store.mirror <:+ (handled W P given store p).mirror :=
        handleWork_mirror p.1 (w := ⟨store, [], []⟩)
      exact hone.trans (ih _)

variable (W P given) in
/-- The cursor of a collection is written by what is taken for it. -/
theorem handled_writes (store : AppStore) (p : String × Work) (name : String) :
    ∃ new, (handled W P given store p).writes name = new ++ store.writes name ∧
      (new = [] ↔ ¬(p.1 = name ∧ Taken W P given store.mainKeys p.2)) := by
  unfold AppStore.writes
  by_cases htaken : Taken W P given store.mainKeys p.2
  · obtain ⟨cursor, hwrite⟩ := handleWork_taken p.1 (w := ⟨store, [], []⟩) htaken
    unfold handled
    rw [hwrite]
    by_cases hname : p.1 = name
    · refine ⟨[(p.1, cursor)], List.filter_cons_of_pos (decide_eq_true hname), fun h => ?_,
        fun h => absurd ⟨hname, htaken⟩ h⟩
      cases h
    · exact ⟨[], List.filter_cons_of_neg (by simpa using hname), fun _ h => hname h.1, fun _ => rfl⟩
  · unfold handled
    rw [handleWork_left p.1 (w := ⟨store, [], []⟩) htaken]
    exact ⟨[], rfl, fun _ h => htaken h.2, fun _ => rfl⟩

variable (W P given) in
theorem handledAll_writes (store : AppStore) (ps : List (String × Work)) (name : String) :
    ∃ new, (handledAll W P given store ps).writes name = new ++ store.writes name ∧
      (new = [] ↔ ∀ y, (name, y) ∈ ps → ¬Taken W P given store.mainKeys y) := by
  induction ps generalizing store with
  | nil => exact ⟨[], rfl, fun _ y hy => (nomatch hy), fun _ => rfl⟩
  | cons p ps ih =>
      obtain ⟨first, hfirst, hnone⟩ := handled_writes W P given store p name
      obtain ⟨rest, hrest, hempty⟩ := ih (handled W P given store p)
      rw [handled_mainKeys] at hempty
      refine ⟨rest ++ first, ?_, ?_⟩
      · rw [List.append_assoc, ← hfirst]
        exact hrest
      · rw [List.append_eq_nil_iff, hempty, hnone]
        constructor
        · rintro ⟨hps, hp⟩ y hy htaken
          rcases List.mem_cons.mp hy with rfl | hmem
          · exact hp ⟨rfl, htaken⟩
          · exact hps y hmem htaken
        · intro hall
          refine ⟨fun y hy => hall y (List.mem_cons_of_mem _ hy), fun ⟨hname, htaken⟩ => ?_⟩
          exact hall p.2 (hname ▸ List.mem_cons_self) htaken

/-- From a place on the cursor is written exactly if something is taken there. -/
theorem handledAll_writes_eq {store : AppStore} {pre post : List (String × Work)} {name : String} :
    (handledAll W P given store (pre ++ post)).writes name =
        (handledAll W P given store pre).writes name ↔
      ∀ y, (name, y) ∈ post → ¬Taken W P given store.mainKeys y := by
  obtain ⟨new, hwrites, hempty⟩ :=
    handledAll_writes W P given (handledAll W P given store pre) post name
  rw [handledAll_mainKeys] at hempty
  rw [← hempty, handledAll_append, hwrites]
  refine ⟨fun h => ?_, fun h => ?_⟩
  · have hlen := congrArg List.length h
    rw [List.length_append] at hlen
    exact List.length_eq_zero_iff.mp (by omega)
  · rw [h]
    rfl

/-- What was read in full stays in the mirror. -/
theorem handledAll_mirrored {store : AppStore} {pre post : List (String × Work)} {name : String}
    {x : Work} (h : Whole W P given store.mainKeys x) :
    Mirrored W P given store.mainKeys
      (handledAll W P given store (pre ++ (name, x) :: post)) x := by
  have hkeys : (handledAll W P given store pre).mainKeys = store.mainKeys :=
    handledAll_mainKeys store pre
  have happlied : Mirrored W P given store.mainKeys
      (handled W P given (handledAll W P given store pre) (name, x)) x := by
    have hmirrored := whole_mirrored name (w := ⟨handledAll W P given store pre, [], []⟩)
      (hkeys.symm ▸ h)
    rwa [hkeys] at hmirrored
  rw [handledAll_append]
  intro o ho m hm a ha
  exact (handledAll_mirror _ post).subset (happlied o ho m hm a ha)

end Works

/-! ## 4. A reply -/

section Reply

variable {W : Wire} {P : Primitives} {given : Given}

theorem foldl_store (name : String) (xs : List Work) (w : Walk) :
    (xs.foldl (handleWork W P given name) w).store =
      handledAll W P given w.store (xs.map fun x => (name, x)) := by
  induction xs generalizing w with
  | nil => rfl
  | cons x xs ih =>
      rw [List.foldl_cons, ih, handleWork_store]
      rfl

theorem foldl_missing (name : String) (xs : List Work) (w : Walk) :
    ∃ ids, (xs.foldl (handleWork W P given name) w).missing = w.missing ++ ids ∧
      (ids = [] ↔ ∀ y ∈ xs, ¬Lacks W P given w.store.mainKeys y) := by
  induction xs generalizing w with
  | nil => exact ⟨[], (List.append_nil _).symm, fun _ y hy => (nomatch hy), fun _ => rfl⟩
  | cons x xs ih =>
      obtain ⟨first, hfirst, hnone⟩ := handleWork_missing W P given x name w
      obtain ⟨rest, hrest, hempty⟩ := ih (handleWork W P given name w x)
      rw [handleWork_mainKeys] at hempty
      refine ⟨first ++ rest, ?_, ?_⟩
      · rw [List.foldl_cons, hrest, hfirst, List.append_assoc]
      · rw [List.append_eq_nil_iff, hnone, hempty, List.forall_mem_cons]

theorem foldl_marked (name : String) (xs : List Work) (w : Walk) :
    (xs.foldl (handleWork W P given name) w).marked = w.marked := by
  induction xs generalizing w with
  | nil => rfl
  | cons x xs ih =>
      rw [List.foldl_cons, ih]
      unfold handleWork
      cases openWork W P given x with
      | none => rfl
      | some o => rfl

theorem handleCollection_store (w : Walk) (c : Node) :
    (handleCollection W P given w c).store =
      handledAll W P given w.store ((workIn c).map fun x => (collectionName c, x)) := by
  unfold handleCollection workIn
  cases c.content with
  | nodes children =>
      dsimp only
      rw [← foldl_store]
      split
      · rfl
      · rfl
  | bytes b => rfl
  | none => rfl

/-- **A collection is marked when nothing in a node of it lacks a key.** -/
theorem handleCollection_marked (w : Walk) (c : Node) (name : String) :
    name ∈ (handleCollection W P given w c).marked ↔
      name ∈ w.marked ∨
        (collectionName c = name ∧ ∀ x ∈ workIn c, ¬Lacks W P given w.store.mainKeys x) := by
  have hadded : name ∈ w.marked ++ [collectionName c] ↔
      name ∈ w.marked ∨ collectionName c = name := by
    rw [List.mem_append, List.mem_singleton, eq_comm]
  unfold handleCollection workIn
  cases c.content with
  | nodes children =>
      dsimp only
      obtain ⟨ids, hids, hempty⟩ := foldl_missing (collectionName c) (workOf children) w
      rw [← hempty, hids, List.length_append]
      by_cases hnone : ids = []
      · subst hnone
        rw [if_pos (show w.missing.length + ([] : List Bytes).length = w.missing.length from rfl)]
        dsimp only
        rw [foldl_marked, hadded, and_iff_left rfl]
      · have hpos := List.length_pos_iff.mpr hnone
        rw [if_neg (by omega), foldl_marked]
        exact ⟨.inl, fun h => h.resolve_right fun hall => hnone hall.2⟩
  | bytes b => exact hadded.trans (or_congr_right (and_iff_left fun x hx => (nomatch hx)).symm)
  | none => exact hadded.trans (or_congr_right (and_iff_left fun x hx => (nomatch hx)).symm)

/-- The reply is handled collection by collection. -/
theorem foldl_handleCollection (cs : List Node) (w : Walk) :
    (cs.foldl (handleCollection W P given) w).store =
        handledAll W P given w.store
          (cs.flatMap fun c => (workIn c).map fun x => (collectionName c, x)) ∧
      ∀ name, name ∈ (cs.foldl (handleCollection W P given) w).marked ↔
        name ∈ w.marked ∨ ∃ c ∈ cs, collectionName c = name ∧
          ∀ x ∈ workIn c, ¬Lacks W P given w.store.mainKeys x := by
  induction cs generalizing w with
  | nil => exact ⟨rfl, fun name => ⟨.inl, fun h => h.resolve_right fun ⟨c, hc, _⟩ => nomatch hc⟩⟩
  | cons c cs ih =>
      obtain ⟨hstore, hmarked⟩ := ih (handleCollection W P given w c)
      have hkeys : (handleCollection W P given w c).store.mainKeys = w.store.mainKeys := by
        rw [handleCollection_store]
        exact handledAll_mainKeys _ _
      rw [hkeys] at hmarked
      refine ⟨?_, fun name => ?_⟩
      · rw [List.foldl_cons, hstore, handleCollection_store, List.flatMap_cons, handledAll_append]
      · rw [List.foldl_cons, hmarked, handleCollection_marked, or_assoc, List.exists_mem_cons_iff]

variable (W P given)

/-- **The store after a reply.** -/
theorem handle_store (store : AppStore) (requested : List Bytes) (sync : Node) :
    (handleAppStateSyncIq W P given store requested sync).1 =
      handledAll W P given store (workOfReply sync) :=
  (foldl_handleCollection (collectionsOf sync) ⟨store, [], []⟩).1

/-- **The collections that a reply marks.** -/
theorem handle_marked (store : AppStore) (requested : List Bytes) (sync : Node) (name : String) :
    name ∈ (handleAppStateSyncIq W P given store requested sync).2.1 ↔
      ∃ c ∈ collectionsOf sync, collectionName c = name ∧
        ∀ x ∈ workIn c, ¬Lacks W P given store.mainKeys x := by
  refine ((foldl_handleCollection (collectionsOf sync) ⟨store, [], []⟩).2 name).trans ?_
  exact ⟨fun h => h.resolve_left List.not_mem_nil, .inr⟩

/-! ## 5. Nothing is lost -/

/-- **Nothing of a collection is lost**: the cursor is written over a snapshot or patch only if it
    was read in full and applied; the collection is marked only if all of them were and the server
    has no more; and what was not read in full is asked for again as before. -/
structure NothingLost (store : AppStore) (requested : List Bytes) (sync : Node) (name : String) :
    Prop where
  moved : ∀ pre x post, workOfReply sync = pre ++ (name, x) :: post →
    (handleAppStateSyncIq W P given store requested sync).1.writes name ≠
      (handledAll W P given store pre).writes name →
    Whole W P given store.mainKeys x ∧
      Mirrored W P given store.mainKeys (handleAppStateSyncIq W P given store requested sync).1 x
  marked : name ∈ (handleAppStateSyncIq W P given store requested sync).2.1 →
    (∀ x, (name, x) ∈ workOfReply sync → Whole W P given store.mainKeys x) ∧
      hasMore sync name = false
  again : ∀ pre x post, workOfReply sync = pre ++ (name, x) :: post →
    ¬Whole W P given store.mainKeys x → ∀ iqId,
    fetchRequest (handleAppStateSyncIq W P given store requested sync).1 iqId name =
      fetchRequest (handledAll W P given store pre) iqId name

/-- From the first snapshot or patch on that cannot be read in full nothing is taken; and if no key
    is missing all can be, and the server has no more. -/
structure Lossless (keys : Bytes → Option Bytes) (sync : Node) (name : String) : Prop where
  stops : ∀ pre x post, workOfReply sync = pre ++ (name, x) :: post → ¬Whole W P given keys x →
    ∀ y, (name, y) ∈ (name, x) :: post → ¬Taken W P given keys y
  complete : (∃ c ∈ collectionsOf sync, collectionName c = name ∧
      ∀ x ∈ workIn c, ¬Lacks W P given keys x) →
    (∀ x, (name, x) ∈ workOfReply sync → Whole W P given keys x) ∧ hasMore sync name = false

/-- **A reply loses nothing of a collection** exactly when it is lossless there under the keys that
    are held. -/
theorem reply_lossless_iff (store : AppStore) (requested : List Bytes) (sync : Node)
    (name : String) :
    NothingLost W P given store requested sync name ↔
      Lossless W P given store.mainKeys sync name := by
  have hwrites : ∀ pre x post, workOfReply sync = pre ++ (name, x) :: post →
      ((handleAppStateSyncIq W P given store requested sync).1.writes name =
          (handledAll W P given store pre).writes name ↔
        ∀ y, (name, y) ∈ (name, x) :: post → ¬Taken W P given store.mainKeys y) := by
    intro pre x post hwork
    rw [handle_store, hwork]
    exact handledAll_writes_eq
  constructor
  · intro h
    refine ⟨fun pre x post hwork hwhole => ?_, fun hlacks => ?_⟩
    · refine (hwrites pre x post hwork).mp ?_
      by_contra hmoved
      exact hwhole (h.moved pre x post hwork hmoved).1
    · exact h.marked ((handle_marked W P given store requested sync name).mpr hlacks)
  · intro h
    refine ⟨fun pre x post hwork hmoved => ?_, fun hmarked => ?_, ?_⟩
    · have hwhole : Whole W P given store.mainKeys x := by
        by_contra hwhole
        exact hmoved ((hwrites pre x post hwork).mpr (h.stops pre x post hwork hwhole))
      refine ⟨hwhole, ?_⟩
      rw [handle_store, hwork]
      exact handledAll_mirrored hwhole
    · exact h.complete ((handle_marked W P given store requested sync name).mp hmarked)
    · intro pre x post hwork hwhole iqId
      have hsame := (hwrites pre x post hwork).mpr (h.stops pre x post hwork hwhole)
      unfold fetchRequest
      rw [cursorOf_writes hsame]

end Reply

namespace Sample

/-- A patch with one record, under a key that is not held. -/
def keyless : Bytes := [0x12, 0x0b, 0x12, 9, 0x12, 2, 0x0a, 0, 0x1a, 3, 0x0a, 1, 7]

def wire : Wire where
  patch b :=
    if b = keyless then some ⟨[⟨none, some ⟨none, some [], some [7]⟩⟩], none, none, none⟩ else none
  snapshot _ := none
  action _ := none
  blobRef _ := none
  json _ := none

def primitives : Primitives := ⟨.ofTable [] [] [], .ofTable []⟩

def given : Given := ⟨fun _ => none, fun _ => true⟩

def store : AppStore := ⟨[], fun _ => none, []⟩

def attrs : Attrs := SortedMap.empty.insert "name" "regular"

def patchNode (b : Bytes) : Node := ⟨"patch", SortedMap.empty, .bytes b⟩

def collection (attrs : Attrs) (patches : List Bytes) : Node :=
  ⟨"collection", attrs,
    .nodes [⟨"patches", SortedMap.empty, .nodes (patches.map patchNode)⟩]⟩

/-- A patch that cannot be read, one that cannot be decoded (its tag is 0), and more to come. -/
def unread : Node := collection attrs [keyless]
def undecoded : Node := collection attrs [[2]]
def more : Node := collection (attrs.insert "has_more_patches" "true") []

def syncOf (c : Node) : Node := ⟨"sync", SortedMap.empty, .nodes [c]⟩

def answered (c : Node) : AppStore × List String × List Bytes × List Bytes :=
  handleAppStateSyncIq wire primitives given store [] (syncOf c)

theorem not_whole (keys : Bytes → Option Bytes) (hkeys : keys [7] = none) (b : Bytes) :
    ¬Whole wire primitives given keys (.patch (some b)) := by
  rintro ⟨o, ho, hread⟩
  change (if b = keyless then
      some (⟨[⟨none, some ⟨none, some [], some [7]⟩⟩], none, none, none⟩ : SyncdPatch) else none).bind
    (fun patch => some (⟨none, patch.mutations, patch.keyId⟩ : Opened)) = some o at ho
  split at ho
  · cases ho
    obtain ⟨out, mac, hm, -⟩ := hread _ List.mem_cons_self
    have hnone : readMutation wire primitives keys none ⟨none, some ⟨none, some [], some [7]⟩⟩ =
        .noKey [7] := by
      simp [readMutation, readRecord, loadAppStateMainKey, hkeys]
    rw [hnone] at hm
    cases hm
  · cases ho

end Sample

/-- The cursor moves over a patch that cannot be read; a collection is marked whose patch cannot be
    decoded, and one of which the server has more. -/
theorem reply_loses :
    ((Sample.answered Sample.unread).1.versions.length = 1 ∧
      ¬NothingLost Sample.wire Sample.primitives Sample.given Sample.store []
        (Sample.syncOf Sample.unread) "regular") ∧
    ((Sample.answered Sample.undecoded).2.1 = ["regular"] ∧
      ¬NothingLost Sample.wire Sample.primitives Sample.given Sample.store []
        (Sample.syncOf Sample.undecoded) "regular") ∧
    ((Sample.answered Sample.more).2.1 = ["regular"] ∧
      ¬NothingLost Sample.wire Sample.primitives Sample.given Sample.store []
        (Sample.syncOf Sample.more) "regular") := by
  refine ⟨⟨by decide +kernel, fun h => ?_⟩, ⟨by decide +kernel, fun h => ?_⟩,
    ⟨by decide +kernel, fun h => ?_⟩⟩
  · exact Sample.not_whole _ rfl Sample.keyless
      (h.moved [] (.patch (some Sample.keyless)) [] rfl (by decide +kernel)).1
  · exact Sample.not_whole _ rfl [2] ((h.marked (by decide +kernel)).1 _ List.mem_cons_self)
  · exact absurd (h.marked (by decide +kernel)).2 (by decide +kernel)

end Ruwa.Session.AppState
