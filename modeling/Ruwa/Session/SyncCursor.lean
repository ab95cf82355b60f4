/-
  File:      Ruwa/Session/SyncCursor.lean
  Subject:   THE CURSOR OF A COLLECTION UNDER OVERLAPPING REPLIES (`session.rs`,
             `handle_app_state_sync_iq` in tasks of its own; `store.rs`, `app_state_version_bump`).

  A fetch is shipped on every login and every key share, and each reply is handled by a task of its
  own. A task reads the hash of a collection, goes through the records of a patch, looking up a key
  where it needs one, and writes the next version and the new hash; between these other tasks go on.
  The version that a patch has on the server is in its bytes and is not read: the cursor is moved by
  one for every patch that is taken.

  * `Law` -- what the cursor says against the history of what was incorporated;
  * `law_patch`, `law_snapshot` -- when it survives one write;
  * `work_alone` -- a snapshot or patch with nothing in between: the task does what `handleWork`
    does, and on the patch after the cursor each step of it is proper;
  * **`cursor_lawful_iff`** -- it holds in all states of a run exactly when every write continues
    what is stored.
-/
import Ruwa.Library.Run
import Ruwa.Session.AppStateHash

namespace Ruwa.Session.AppState

open Ruwa.Library
open Ruwa.Crypto
open Ruwa.Protocol.Binary (Node Content Attrs)

/-! ## 1. What has been incorporated -/

/-- A snapshot or patch with its version on the server and the value MACs read from it. -/
inductive Incorporated where
  | snapshot (version : Nat) (valueMacs : List (UInt8 × U8Array 32))
  | patch (version : Nat) (valueMacs : List (UInt8 × U8Array 32))
  deriving DecidableEq

/-- The newest version incorporated. Histories have the newest entry first. -/
def newest : List Incorporated → Nat
  | [] => 0
  | .snapshot version _ :: log => max version (newest log)
  | .patch version _ :: log => max version (newest log)

/-- How often the patch with this version was incorporated, by itself or as part of a snapshot that
    goes further than what was there. -/
def times (u : Nat) : List Incorporated → Nat
  | [] => 0
  | .snapshot version _ :: log =>
      (if newest log < u ∧ u ≤ version then 1 else 0) + times u log
  | .patch version _ :: log => (if version = u then 1 else 0) + times u log

section

variable (P : Primitives)

/-- The hash of what was incorporated. -/
def hashOf : List Incorporated → LtHash
  | [] => LtHash.zero
  | .snapshot _ valueMacs :: _ => hashFrom P LtHash.zero valueMacs
  | .patch _ valueMacs :: log => hashFrom P (hashOf log) valueMacs

/-- What had been incorporated before changed neither version nor hash. A patch always does. -/
def Still : List Incorporated → Prop
  | [] => True
  | .snapshot version valueMacs :: log =>
      (version ≤ newest log → hashFrom P LtHash.zero valueMacs = hashOf P log) ∧ Still log
  | .patch version _ :: log => newest log < version ∧ Still log

/-- **The law of the cursor**: its version is the newest one incorporated, each patch up to it was
    incorporated once, its hash is that of what was incorporated, and what came again changed
    nothing. -/
structure Law (cursor : Cursor) (log : List Incorporated) : Prop where
  version : cursor.version = newest log
  once : ∀ u, 0 < u → u ≤ newest log → times u log = 1
  hash : cursor.hash = hashOf P log
  still : Still P log

end

theorem times_above {u : Nat} {log : List Incorporated} (h : newest log < u) : times u log = 0 := by
  induction log with
  | nil => rfl
  | cons entry log ih =>
      cases entry with
      | snapshot version valueMacs =>
          obtain ⟨hversion, hlog⟩ := max_lt_iff.mp (show max version (newest log) < u from h)
          show (if newest log < u ∧ u ≤ version then 1 else 0) + times u log = 0
          rw [if_neg (by omega), ih hlog]
      | patch version valueMacs =>
          obtain ⟨hversion, hlog⟩ := max_lt_iff.mp (show max version (newest log) < u from h)
          show (if version = u then 1 else 0) + times u log = 0
          rw [if_neg (by omega), ih hlog]

section Laws

variable {P : Primitives} {cursor : Cursor} {log : List Incorporated}

/-- **A patch** keeps the law exactly if it is the next one and its hash goes on from the stored
    one. -/
theorem law_patch (h : Law P cursor log) (version : Nat) (valueMacs : List (UInt8 × U8Array 32))
    (hash : LtHash) :
    Law P ⟨cursor.version + 1, hash⟩ (.patch version valueMacs :: log) ↔
      version = cursor.version + 1 ∧ hash = hashFrom P cursor.hash valueMacs := by
  have hnewest := h.version
  constructor
  · intro h'
    have hversion : cursor.version + 1 = max version (newest log) := h'.version
    refine ⟨by omega, ?_⟩
    rw [h.hash]
    exact h'.hash
  · rintro ⟨rfl, rfl⟩
    have hmax : newest (.patch (cursor.version + 1) valueMacs :: log) = cursor.version + 1 := by
      show max (cursor.version + 1) (newest log) = cursor.version + 1
      omega
    refine ⟨hmax.symm, fun u hpos hu => ?_, ?_, ⟨by omega, h.still⟩⟩
    · rw [hmax] at hu
      show (if cursor.version + 1 = u then 1 else 0) + times u log = 1
      by_cases hnext : cursor.version + 1 = u
      · rw [if_pos hnext, times_above (by omega)]
      · rw [if_neg hnext, h.once u hpos (by omega)]
    · show hashFrom P cursor.hash valueMacs = hashFrom P (hashOf P log) valueMacs
      rw [h.hash]

/-- **A snapshot** keeps it exactly if it goes further, or is what is stored. -/
theorem law_snapshot (h : Law P cursor log) (version : Nat)
    (valueMacs : List (UInt8 × U8Array 32)) :
    Law P ⟨version, hashFrom P LtHash.zero valueMacs⟩ (.snapshot version valueMacs :: log) ↔
      cursor.version < version ∨ cursor = ⟨version, hashFrom P LtHash.zero valueMacs⟩ := by
  have hnewest := h.version
  constructor
  · intro h'
    have hversion : version = max version (newest log) := h'.version
    by_cases hfurther : cursor.version < version
    · exact Or.inl hfurther
    · have hsame : cursor.version = version := by omega
      have hhash := h'.still.1 (by omega)
      rw [← h.hash] at hhash
      right
      rw [hhash, ← hsame]
  · intro hcase
    have hle : newest log ≤ version := by
      rcases hcase with hfurther | hsame
      · omega
      · have := congrArg Cursor.version hsame
        dsimp only at this
        omega
    have hmax : newest (.snapshot version valueMacs :: log) = version := max_eq_left hle
    refine ⟨hmax.symm, fun u hpos hu => ?_, rfl, ⟨fun hold => ?_, h.still⟩⟩
    · rw [hmax] at hu
      show (if newest log < u ∧ u ≤ version then 1 else 0) + times u log = 1
      by_cases hnew : newest log < u
      · rw [if_pos ⟨hnew, hu⟩, times_above hnew]
      · rw [if_neg (fun hboth => hnew hboth.1), h.once u hpos (by omega)]
    · rcases hcase with hfurther | hsame
      · omega
      · rw [← h.hash, hsame]

end Laws

/-! ## 2. Tasks -/

/-- A snapshot or patch in work: the hash it goes on from, the keys that were found on the way, what
    has been read of its records and what is left of them. -/
structure Reader where
  name : String
  work : Work
  opened : Opened
  hash : LtHash
  keyCache : Bytes → Option Bytes
  reads : Reads
  rest : List SyncdMutation

/-- A reply in work. -/
structure Task where
  given : Given
  todo : List (String × Work)
  reading : Option Reader

/-- The store, the tasks, and the history of each collection. -/
structure System where
  store : AppStore
  tasks : List Task
  log : String → List Incorporated

inductive Event where
  | reply (given : Given) (sync : Node)
  | advance (task : Nat)
  | keyShare (keyId mainKey : Bytes)

def System.reader (s : System) (i : Nat) : Option Reader := s.tasks[i]?.bind Task.reading

/-- A key that was found for an earlier record is not looked up again. -/
def Reader.keys (r : Reader) (stored : Bytes → Option Bytes) (keyId : Bytes) : Option Bytes :=
  (r.keyCache keyId).or (stored keyId)

def Reader.keyIdOf (r : Reader) (m : SyncdMutation) : Option Bytes :=
  m.record.bind fun record => record.keyId.or r.opened.keyId

def Work.content : Work → Bytes
  | .snapshot content => content.getD []
  | .patch content => content.getD []

section

variable (W : Wire) (P : Primitives) (serverVersion : Bytes → Nat)

/-- What can be decoded is begun with the hash as it is stored. -/
def beginWork (given : Given) (store : AppStore) (name : String) (x : Work) : Option Reader :=
  (openWork W P given x).map fun o =>
    ⟨name, x, o, (cursorOf store name).hash, fun _ => none, Reads.empty, o.mutations⟩

/-- One record, with the keys as they are stored by now. A fatal one ends the work. -/
def Reader.next (r : Reader) (stored : Bytes → Option Bytes) (m : SyncdMutation)
    (ms : List SyncdMutation) : Option Reader :=
  let reading := readMutation W P (r.keys stored) r.opened.keyId m
  if reading.fatal r.opened.strict then none
  else
    some { r with
      keyCache := fun keyId =>
        if r.keyIdOf m = some keyId then r.keys stored keyId else r.keyCache keyId
      reads := r.reads.after m reading
      rest := ms }

/-- What is to be written after the last record. -/
def Reader.pending (r : Reader) : Pending :=
  match r.opened.version with
  | none => ⟨r.reads.out, some (.bump (hashFrom P r.hash r.reads.valueMacs))⟩
  | some version =>
      ⟨r.reads.out,
        if r.reads.missing = [] then
          some (.set version (hashFrom P LtHash.zero r.reads.valueMacs))
        else none⟩

/-- The version of a snapshot is decoded; that of a patch is only in its bytes. -/
def Reader.entry (r : Reader) : Incorporated :=
  match r.opened.version with
  | some version => .snapshot version r.reads.valueMacs
  | none => .patch (serverVersion r.work.content) r.reads.valueMacs

def System.written (s : System) (given : Given) (r : Reader) : System :=
  { s with
    store := finish given s.store r.name (r.pending P)
    log := if (r.pending P).write.isSome then
        Function.update s.log r.name (r.entry serverVersion :: s.log r.name) else s.log }

def step (s : System) : Event → Option System
  | .reply given sync => some { s with tasks := s.tasks ++ [⟨given, workOfReply sync, none⟩] }
  | .keyShare keyId mainKey =>
      some { s with
        store := { s.store with mainKeys := Function.update s.store.mainKeys keyId (some mainKey) } }
  | .advance i =>
      match s.tasks[i]? with
      | none => none
      | some task =>
          match task.reading, task.todo with
          | some r, _ =>
              match r.rest with
              | m :: ms =>
                  some { s with
                    tasks := s.tasks.set i
                      { task with reading := r.next W P s.store.mainKeys m ms } }
              | [] =>
                  some { s.written P serverVersion task.given r with
                    tasks := s.tasks.set i { task with reading := none } }
          | none, (name, x) :: todo =>
              some { s with
                tasks := s.tasks.set i
                  { task with todo := todo, reading := beginWork W P task.given s.store name x } }
          | none, [] => none

/-- The law holds for every collection. -/
def Lawful (s : System) : Prop := ∀ name, Law P (cursorOf s.store name) (s.log name)

/-- What a write must be: the patch after the stored version, with a hash that goes on from the
    stored one; or a snapshot that goes further, or is what is stored. -/
def Continues (cursor : Cursor) (entry : Incorporated) : Option Write → Prop
  | none => True
  | some (.bump hash) =>
      match entry with
      | .patch version valueMacs =>
          version = cursor.version + 1 ∧ hash = hashFrom P cursor.hash valueMacs
      | .snapshot _ _ => False
  | some (.set version hash) => cursor.version < version ∨ cursor = ⟨version, hash⟩

instance (cursor : Cursor) (entry : Incorporated) :
    (w : Option Write) → Decidable (Continues P cursor entry w)
  | none => inferInstanceAs (Decidable True)
  | some (.bump hash) =>
      match entry with
      | .patch version valueMacs =>
          inferInstanceAs
            (Decidable (version = cursor.version + 1 ∧ hash = hashFrom P cursor.hash valueMacs))
      | .snapshot _ _ => inferInstanceAs (Decidable False)
  | some (.set version hash) =>
      inferInstanceAs (Decidable (cursor.version < version ∨ cursor = ⟨version, hash⟩))

/-- The write that a step is, if it is one, continues its collection. -/
def ProperStep (s : System) : Event → Prop
  | .advance i =>
      ∀ r ∈ s.reader i, r.rest = [] →
        Continues P (cursorOf s.store r.name) (r.entry serverVersion) (r.pending P).write
  | _ => True

instance (s : System) : (e : Event) → Decidable (ProperStep P serverVersion s e)
  | .advance i =>
      inferInstanceAs (Decidable (∀ r ∈ s.reader i, r.rest = [] →
        Continues P (cursorOf s.store r.name) (r.entry serverVersion) (r.pending P).write))
  | .reply _ _ => inferInstanceAs (Decidable True)
  | .keyShare _ _ => inferInstanceAs (Decidable True)

/-- What a task has read is of one piece. -/
def Fits (entry : Incorporated) : Option Write → Prop
  | none => True
  | some (.bump _) => ∃ version valueMacs, entry = .patch version valueMacs
  | some (.set version hash) =>
      ∃ valueMacs, entry = .snapshot version valueMacs ∧ hash = hashFrom P LtHash.zero valueMacs

/-- The patch that the task is at is the one after the cursor, and goes on from the stored hash. -/
def Fresh (s : System) (i : Nat) : Prop :=
  ∀ r ∈ s.reader i, r.opened.version = none ∧ r.hash = (cursorOf s.store r.name).hash ∧
    serverVersion r.work.content = (cursorOf s.store r.name).version + 1

end

/-! ## 3. One step -/

section Steps

variable {W : Wire} {P : Primitives} {serverVersion : Bytes → Nat} {s s' : System} {i : Nat}

theorem reader_of_task {task : Task} (h : s.tasks[i]? = some task) : s.reader i = task.reading := by
  unfold System.reader
  rw [h]
  rfl

theorem reader_set {task : Task} (h : s.tasks[i]? = some task) (task' : Task) (store : AppStore)
    (log : String → List Incorporated) :
    System.reader ⟨store, s.tasks.set i task', log⟩ i = task'.reading :=
  reader_of_task (List.getElem?_set_self (List.getElem?_eq_some_iff.mp h).1)

/-- **What is to be written is of one piece.** -/
theorem reader_fits (r : Reader) : Fits P (r.entry serverVersion) (r.pending P).write := by
  unfold Reader.entry Reader.pending
  cases r.opened.version with
  | none => exact ⟨_, _, rfl⟩
  | some version =>
      dsimp only
      split
      · exact ⟨_, rfl, rfl⟩
      · trivial

/-- The mirror has no part in a cursor. -/
theorem cursorOf_finish (given : Given) (store : AppStore) (name other : String) (p : Pending) :
    cursorOf (finish given store name p) other =
      cursorOf (writeCursor store name p.write) other := rfl

/-- **What a step of a task is**: the begin of a work, a record, or the write after the last one. -/
theorem advance_cases (h : step W P serverVersion s (.advance i) = some s') :
    ∃ task, s.tasks[i]? = some task ∧
      ((∃ name x todo, task.reading = none ∧ task.todo = (name, x) :: todo ∧
          s' = { s with
            tasks := s.tasks.set i
              { task with todo := todo, reading := beginWork W P task.given s.store name x } }) ∨
        (∃ r m ms, task.reading = some r ∧ r.rest = m :: ms ∧
          s' = { s with
            tasks := s.tasks.set i
              { task with reading := r.next W P s.store.mainKeys m ms } }) ∨
        ∃ r, task.reading = some r ∧ r.rest = [] ∧
          s' = { s.written P serverVersion task.given r with
            tasks := s.tasks.set i { task with reading := none } }) := by
  unfold step at h
  dsimp only at h
  cases htask : s.tasks[i]? with
  | none =>
      rw [htask] at h
      cases h
  | some task =>
      rw [htask] at h
      dsimp only at h
      refine ⟨task, rfl, ?_⟩
      cases hreading : task.reading with
      | some r =>
          rw [hreading] at h
          dsimp only at h
          cases hrest : r.rest with
          | cons m ms =>
              rw [hrest] at h
              cases h
              exact .inr (.inl ⟨r, m, ms, rfl, hrest, rfl⟩)
          | nil =>
              rw [hrest] at h
              cases h
              exact .inr (.inr ⟨r, rfl, hrest, rfl⟩)
      | none =>
          rw [hreading] at h
          cases htodo : task.todo with
          | nil =>
              rw [htodo] at h
              cases h
          | cons item todo =>
              rw [htodo] at h
              cases h
              exact .inl ⟨item.1, item.2, todo, rfl, rfl, rfl⟩

/-- A write where nothing else happens to the history. -/
theorem lawful_written (h : Lawful P s) (given : Given) (r : Reader) :
    Lawful P (s.written P serverVersion given r) ↔
      Continues P (cursorOf s.store r.name) (r.entry serverVersion) (r.pending P).write := by
  have hothers : ∀ name, r.name ≠ name →
      Law P (cursorOf (s.written P serverVersion given r).store name)
        ((s.written P serverVersion given r).log name) := by
    intro name hne
    show Law P (cursorOf (finish given s.store r.name (r.pending P)) name) _
    rw [cursorOf_finish, cursorOf_writeCursor_ne _ hne]
    have hlog : (s.written P serverVersion given r).log name = s.log name := by
      unfold System.written
      dsimp only
      split
      · exact Function.update_of_ne (Ne.symm hne) _ _
      · rfl
    rw [hlog]
    exact h name
  have hself : Lawful P (s.written P serverVersion given r) ↔
      Law P (cursorOf (writeCursor s.store r.name (r.pending P).write) r.name)
        ((s.written P serverVersion given r).log r.name) := by
    refine ⟨fun hall => hall r.name, fun hone name => ?_⟩
    by_cases hname : r.name = name
    · subst hname
      exact hone
    · exact hothers name hname
  rw [hself]
  have hfits : Fits P (r.entry serverVersion) (r.pending P).write := reader_fits r
  unfold System.written
  dsimp only
  cases hwrite : (r.pending P).write with
  | none => exact ⟨fun _ => trivial, fun _ => h r.name⟩
  | some write =>
      rw [hwrite] at hfits
      rw [if_pos (show (some write).isSome = true from rfl), Function.update_self]
      cases write with
      | bump hash =>
          obtain ⟨version, valueMacs, hentry⟩ := hfits
          rw [hentry]
          unfold writeCursor appStateVersionBump
          rw [cursorOf_set]
          exact law_patch (h r.name) version valueMacs hash
      | set version hash =>
          obtain ⟨valueMacs, hentry, rfl⟩ := hfits
          rw [hentry]
          unfold writeCursor
          dsimp only
          rw [cursorOf_set]
          exact law_snapshot (h r.name) version valueMacs

/-- **One step** leads to a lawful state exactly when it is proper. -/
theorem lawful_step (s : System) (e : Event) (s' : System) (h : Lawful P s)
    (hstep : step W P serverVersion s e = some s') :
    Lawful P s' ↔ ProperStep P serverVersion s e := by
  cases e with
  | reply given sync =>
      cases hstep
      exact ⟨fun _ => trivial, fun _ => h⟩
  | keyShare keyId mainKey =>
      cases hstep
      exact ⟨fun _ => trivial, fun _ => h⟩
  | advance i =>
      obtain ⟨task, htask, hcase⟩ := advance_cases hstep
      show Lawful P s' ↔ ∀ r ∈ s.reader i, r.rest = [] →
        Continues P (cursorOf s.store r.name) (r.entry serverVersion) (r.pending P).write
      rw [reader_of_task htask]
      rcases hcase with ⟨name, x, todo, hidle, -, rfl⟩ | ⟨r, m, ms, hr, hrest, rfl⟩ |
        ⟨r, hr, hrest, rfl⟩
      · rw [hidle]
        exact ⟨fun _ r hnone => (nomatch hnone), fun _ => h⟩
      · rw [hr]
        refine ⟨fun _ r' hr' hdone => ?_, fun _ => h⟩
        cases hr'
        rw [hrest] at hdone
        cases hdone
      · rw [hr]
        refine Iff.trans (lawful_written h task.given r) ⟨fun hcontinues r' hr' _ => ?_, fun hall => ?_⟩
        · cases hr'
          exact hcontinues
        · exact hall r rfl hrest

/-! ## 4. A task with nothing in between -/

/-- The write of a fresh patch is proper. -/
theorem fresh_proper (h : Fresh serverVersion s i) : ProperStep P serverVersion s (.advance i) := by
  intro r hr hdone
  obtain ⟨hversion, hhash, hnext⟩ := h r hr
  unfold Reader.entry Reader.pending
  rw [hversion, hhash]
  exact ⟨hnext, rfl⟩

/-- A fatal record ends the work. -/
theorem next_fatal {r : Reader} {stored : Bytes → Option Bytes} {m : SyncdMutation}
    {ms : List SyncdMutation}
    (h : (readMutation W P (r.keys stored) r.opened.keyId m).fatal r.opened.strict = true) :
    r.next W P stored m ms = none := if_pos h

/-- Any other leaves what was made of it. -/
theorem next_read {r : Reader} {stored : Bytes → Option Bytes} {m : SyncdMutation}
    (ms : List SyncdMutation)
    (h : ¬(readMutation W P (r.keys stored) r.opened.keyId m).fatal r.opened.strict = true) :
    ∃ found, r.next W P stored m ms = some { r with
      keyCache := found
      reads := r.reads.after m (readMutation W P (r.keys stored) r.opened.keyId m)
      rest := ms } := ⟨_, if_neg h⟩

theorem next_some {r r' : Reader} {stored : Bytes → Option Bytes} {m : SyncdMutation}
    {ms : List SyncdMutation} (h : r.next W P stored m ms = some r') :
    r'.name = r.name ∧ r'.work = r.work ∧ r'.opened = r.opened ∧ r'.hash = r.hash := by
  unfold Reader.next at h
  dsimp only at h
  split at h
  · cases h
  · cases h
    exact ⟨rfl, rfl, rfl, rfl⟩

/-- The records leave it fresh. -/
theorem fresh_next {task : Task} {r : Reader} {m : SyncdMutation} {ms : List SyncdMutation}
    (htask : s.tasks[i]? = some task) (hr : task.reading = some r) (h : Fresh serverVersion s i) :
    Fresh serverVersion { s with
      tasks := s.tasks.set i { task with reading := r.next W P s.store.mainKeys m ms } } i := by
  intro r' hr'
  rw [reader_set htask] at hr'
  obtain ⟨hname, hwork, hopened, hhash⟩ := next_some hr'
  rw [hname, hwork, hopened, hhash]
  exact h r ((reader_of_task htask).trans hr)

/-- It begins fresh where its version is the next one. -/
theorem fresh_begin {task : Task} {name : String} {b : Bytes} {todo : List (String × Work)}
    (htask : s.tasks[i]? = some task)
    (hnext : serverVersion b = (cursorOf s.store name).version + 1) :
    Fresh serverVersion { s with
      tasks := s.tasks.set i
        { task with
          todo := todo
          reading := beginWork W P task.given s.store name (.patch (some b)) } } i := by
  intro r hr
  rw [reader_set htask] at hr
  obtain ⟨o, ho, rfl⟩ := Option.map_eq_some_iff.mp hr
  obtain ⟨patch, -, hopened⟩ := Option.bind_eq_some_iff.mp ho
  cases hopened
  exact ⟨rfl, rfl, hnext⟩

/-- Keys that are all stored as they were found. -/
def Reader.Unaltered (r : Reader) (stored : Bytes → Option Bytes) : Prop :=
  ∀ keyId, r.keys stored keyId = stored keyId

theorem next_unaltered {r r' : Reader} {stored : Bytes → Option Bytes} {m : SyncdMutation}
    {ms : List SyncdMutation} (h : r.Unaltered stored) (hnext : r.next W P stored m ms = some r') :
    r'.Unaltered stored := by
  unfold Reader.next at hnext
  dsimp only at hnext
  split at hnext
  · cases hnext
  · cases hnext
    intro keyId
    show (if r.keyIdOf m = some keyId then r.keys stored keyId else r.keyCache keyId).or
      (stored keyId) = stored keyId
    split
    · rw [h keyId, Option.or_self]
    · exact h keyId

variable (W P serverVersion) in
/-- **The rest of a work, alone**: the records up to a fatal one, and then the write. -/
theorem records_alone {s : System} {task : Task} {r : Reader} (htask : s.tasks[i]? = some task)
    (hr : task.reading = some r) (hkeys : r.Unaltered s.store.mainKeys) :
    ∃ n s', runFrom (step W P serverVersion) s (List.replicate n (.advance i)) = some s' ∧
      s'.tasks[i]? = some { task with reading := none } ∧
      (s'.store =
        let read := readMutations W P r.opened.strict s.store.mainKeys r.opened.keyId r.reads r.rest
        if read.2 then finish task.given s.store r.name ({ r with reads := read.1 }.pending P)
        else s.store) ∧
      (Fresh serverVersion s i →
        Meets (step W P serverVersion) (ProperStep P serverVersion) s
          (List.replicate n (.advance i))) := by
  induction hrest : r.rest generalizing s task r with
  | nil =>
      have hstep : step W P serverVersion s (.advance i) =
          some { s.written P serverVersion task.given r with
            tasks := s.tasks.set i { task with reading := none } } := by
        simp only [step, htask, hr, hrest]
      refine ⟨1, _, by rw [List.replicate_one, runFrom, hstep]; rfl,
        List.getElem?_set_self (List.getElem?_eq_some_iff.mp htask).1, rfl, fun hfresh => ?_⟩
      refine ⟨fresh_proper hfresh, ?_⟩
      rw [hstep]
      trivial
  | cons m ms ih =>
      have hstep : step W P serverVersion s (.advance i) =
          some { s with
            tasks := s.tasks.set i
              { task with reading := r.next W P s.store.mainKeys m ms } } := by
        simp only [step, htask, hr, hrest]
      have hget := List.getElem?_set_self (List.getElem?_eq_some_iff.mp htask).1
        (a := { task with reading := r.next W P s.store.mainKeys m ms })
      have hsame : r.keys s.store.mainKeys = s.store.mainKeys := funext hkeys
      by_cases hfatal : (readMutation W P s.store.mainKeys r.opened.keyId m).fatal
          r.opened.strict = true
      · have hnext : r.next W P s.store.mainKeys m ms = none := next_fatal (by rw [hsame]; exact hfatal)
        rw [hnext] at hget hstep
        refine ⟨1, _, by rw [List.replicate_one, runFrom, hstep]; rfl, hget, ?_, fun hfresh => ?_⟩
        · simp only [readMutations, hfatal, if_true, Bool.false_eq_true, if_false]
        · refine ⟨fresh_proper hfresh, ?_⟩
          rw [hstep]
          trivial
      · obtain ⟨found, hnext⟩ := next_read ms (by rw [hsame]; exact hfatal)
        have hunaltered := next_unaltered hkeys hnext
        rw [hnext] at hget hstep
        rw [hsame] at hget hstep hnext hunaltered
        obtain ⟨n, s', hrun, hidle, hstore, hmeets⟩ :=
          ih (s := { s with tasks := s.tasks.set i { task with reading := some _ } }) hget rfl
            hunaltered rfl
        refine ⟨n + 1, s', ?_, hidle, ?_, fun hfresh => ?_⟩
        · rw [List.replicate_succ, runFrom, hstep]
          exact hrun
        · rw [hstore]
          dsimp only [readMutations]
          rw [if_neg hfatal]
          rfl
        · refine ⟨fresh_proper hfresh, ?_⟩
          rw [hstep]
          refine hmeets ?_
          rw [← hnext]
          exact fresh_next htask hr hfresh

/-- **A snapshot or patch, alone**: the task does to the store what `handleWork` does, and each step
    is proper where the version of the patch is the next one. -/
theorem work_alone {task : Task} {name : String} {x : Work} {todo : List (String × Work)}
    {w : Walk} (htask : s.tasks[i]? = some task) (hidle : task.reading = none)
    (htodo : task.todo = (name, x) :: todo) (hw : w.store = s.store) :
    ∃ n s', runFrom (step W P serverVersion) s (List.replicate n (.advance i)) = some s' ∧
      s'.tasks[i]? = some { task with todo := todo } ∧
      s'.store = (handleWork W P task.given name w x).store ∧
      (∀ b, x = .patch (some b) → serverVersion b = (cursorOf s.store name).version + 1 →
        Meets (step W P serverVersion) (ProperStep P serverVersion) s
          (List.replicate n (.advance i))) := by
  have hstep : step W P serverVersion s (.advance i) =
      some { s with
        tasks := s.tasks.set i
          { task with todo := todo, reading := beginWork W P task.given s.store name x } } := by
    simp only [step, htask, hidle, htodo]
  have hget := List.getElem?_set_self (List.getElem?_eq_some_iff.mp htask).1
    (a := { task with todo := todo, reading := beginWork W P task.given s.store name x })
  have hproper : ProperStep P serverVersion s (.advance i) := by
    intro r hr
    rw [reader_of_task htask, hidle] at hr
    cases hr
  cases hopen : openWork W P task.given x with
  | none =>
      have hbegin : beginWork W P task.given s.store name x = none := by
        unfold beginWork
        rw [hopen]
        rfl
      rw [hbegin, ← hidle] at hget hstep
      refine ⟨1, _, by rw [List.replicate_one, runFrom, hstep]; rfl, hget, ?_, fun b hb hnext => ?_⟩
      · unfold handleWork
        rw [hopen]
        exact hw.symm
      · refine ⟨hproper, ?_⟩
        rw [hstep]
        trivial
  | some o =>
      have hbegin : beginWork W P task.given s.store name x =
          some ⟨name, x, o, (cursorOf s.store name).hash, fun _ => none, Reads.empty,
            o.mutations⟩ := by
        unfold beginWork
        rw [hopen]
        rfl
      obtain ⟨n, s', hrun, hdone, hstore, hmeets⟩ :=
        records_alone W P serverVersion
          (s := { s with
            tasks := s.tasks.set i
              { task with todo := todo, reading := beginWork W P task.given s.store name x } })
          hget hbegin (fun keyId => rfl)
      refine ⟨n + 1, s', ?_, ?_, ?_, fun b hb hnext => ⟨hproper, ?_⟩⟩
      · rw [List.replicate_succ, runFrom, hstep]
        exact hrun
      · rw [hdone, hidle]
      · rw [hstore]
        unfold handleWork
        rw [hopen, hw]
        dsimp only
        unfold decodeWork Opened.reads Reader.pending
        dsimp only
        split
        · cases o.version with
          | none => rfl
          | some version => rfl
        · rfl
      · rw [hstep]
        subst hb
        exact hmeets (fresh_begin htask hnext)

end Steps

/-! ## 5. Runs -/

section Runs

variable (W : Wire) (P : Primitives) (serverVersion : Bytes → Nat)

/-- A login that has not synced yet. -/
def unsynced (mainKeys : Bytes → Option Bytes) (mirror : List AppStateMutation) : System :=
  ⟨⟨[], mainKeys, mirror⟩, [], fun _ => []⟩

theorem unsynced_lawful (mainKeys : Bytes → Option Bytes) (mirror : List AppStateMutation) :
    Lawful P (unsynced mainKeys mirror) := by
  intro name
  exact ⟨rfl, fun u hpos hu => absurd hu (Nat.not_le.mpr hpos), rfl, trivial⟩

/-- **The law holds in every state of a run, for every collection, exactly when every write of the
    run continues what is stored.** -/
theorem cursor_lawful_iff (mainKeys : Bytes → Option Bytes) (mirror : List AppStateMutation)
    (events : List Event) (s : System)
    (hrun : runFrom (step W P serverVersion) (unsynced mainKeys mirror) events = some s) :
    (∀ pre post mid, events = pre ++ post →
        runFrom (step W P serverVersion) (unsynced mainKeys mirror) pre = some mid →
        Lawful P mid) ↔
      Meets (step W P serverVersion) (ProperStep P serverVersion) (unsynced mainKeys mirror)
        events :=
  run_states_iff (I := fun _ => True) (F := Lawful P) (fun _ _ _ _ _ => trivial)
    (fun s e s' _ h hstep => lawful_step s e s' h hstep) trivial
    (unsynced_lawful P mainKeys mirror) hrun

end Runs

namespace Sample

/-- A patch with its version before it, and where the version is. -/
def versioned (version : UInt8) (patch : Bytes) : Bytes := [0x0a, 2, 8, version] ++ patch

def versionOf (b : Bytes) : Nat := (b.getD 3 0).toNat

def firstPin : Bytes := versioned 1 (patchBytes 0 chatIndex pinned)
def secondPin : Bytes := versioned 2 (patchBytes 0 otherIndex otherPinned)

def versionedWire : Wire :=
  { pinWire with
    patch := known [
      (firstPin, some (patchOf 0 chatIndex pinned)),
      (secondPin, some (patchOf 0 otherIndex otherPinned))] none }

def reply (patches : List Bytes) : Event :=
  .reply given (syncOf (collection attrs patches))

def ran (events : List Event) : Option System :=
  runFrom (step versionedWire pinPrimitives versionOf) (unsynced mainKeys []) events

/-- Two patches that follow each other, with one record each. -/
def inOrder : List Event := reply [firstPin, secondPin] :: List.replicate 6 (.advance 0)

/-- The reply to a second fetch that went out before the first was answered. -/
def again : List Event :=
  [reply [firstPin], reply [firstPin]] ++
    (List.replicate 3 (.advance 0) ++ List.replicate 3 (.advance 1))

end Sample

/-- A reply by itself, with the patches after the cursor in order. -/
theorem inOrder_lawful :
    ∃ s, Sample.ran Sample.inOrder = some s ∧ (cursorOf s.store "regular").version = 2 ∧
      Lawful Sample.pinPrimitives s := by
  have hversion : (Sample.ran Sample.inOrder).map
      (fun s => (cursorOf s.store "regular").version) = some 2 := by
    decide +kernel
  obtain ⟨s, hrun, hcursor⟩ := Option.map_eq_some_iff.mp hversion
  refine ⟨s, hrun, hcursor, ?_⟩
  exact (cursor_lawful_iff Sample.versionedWire Sample.pinPrimitives Sample.versionOf
    Sample.mainKeys [] Sample.inOrder s hrun).mpr (by decide +kernel) Sample.inOrder [] s
      (List.append_nil _).symm hrun

/-- A patch that comes twice is incorporated twice, and the cursor is past a patch that the server
    has not sent. -/
theorem patch_twice :
    ∃ s, Sample.ran Sample.again = some s ∧ (cursorOf s.store "regular").version = 2 ∧
      newest (s.log "regular") = 1 ∧ times 1 (s.log "regular") = 2 ∧
      ¬Lawful Sample.pinPrimitives s := by
  have hcounts : (Sample.ran Sample.again).map (fun s =>
      ((cursorOf s.store "regular").version, newest (s.log "regular"),
        times 1 (s.log "regular"))) = some (2, 1, 2) := by
    decide +kernel
  obtain ⟨s, hrun, hcounts⟩ := Option.map_eq_some_iff.mp hcounts
  obtain ⟨hversion, hrest⟩ := Prod.mk.inj hcounts
  obtain ⟨hnewest, htimes⟩ := Prod.mk.inj hrest
  refine ⟨s, hrun, hversion, hnewest, htimes, fun h => ?_⟩
  have hlaw := (h "regular").version
  omega

end Ruwa.Session.AppState
