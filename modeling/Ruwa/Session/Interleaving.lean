/-
  File:      Ruwa/Session/Interleaving.lean
  Subject:   TASKS THAT SHARE THE SESSIONS OF A LOGIN (`session.rs`, `encrypt_per_device`,
             `decrypt_signal_envelope`): each loads, and saves later.

  A call of `encrypt_per_device` loads every session first. It may then wait for the server's keys,
  and encrypts and saves one device after the other. A decryption loads one session and saves it.
  Nothing compares what is saved over with what was loaded.

  * `step` -- the events of all tasks; `decrypt_eq` and `turns_eq` -- a task that is left alone does
    what the functions do;
  * `Safe` -- no position of a sender chain is used twice, and no save drops what could be received;
  * `Undisturbed` -- the save of a step finds the row that its task loaded, its keys are new, no
    counter is at its end, and no session that has received is given up for another;
  * `inv_turn`, `inv_write` -- the saves that keep the invariant, `inv_step` all steps;
  * **`undisturbed_safe`** -- a run whose steps are all undisturbed is safe in every state.
-/
import Ruwa.Crypto.SignalPosition
import Ruwa.Library.Run
import Ruwa.Library.Tickets
import Ruwa.Session.FanOut
import Ruwa.Session.Replay

namespace Ruwa.Session.Interleaving

open Ruwa.Library
open Ruwa.Crypto
open Ruwa.Protocol.Binary (Node)
open Ruwa.Crypto.Signal (SignalPrimitives SessionState CiphertextMessage PreKeyMessageInfo position
  wirePosition Keeps)
open Ruwa.Session.Addresses
open Ruwa.Session.Retry (Records EncryptedRecipient partitionTargets bootstrap encryptionTargets
  encryptUnder)
open Ruwa.Session.Carry
open Ruwa.Session.Decryption
open Ruwa.Session.FanOut (Sending Saved encryptOne encryptTargetsSaving saveAll)

/-! ## 1. What is saved -/

/-- Why a record was saved: a message was sent, or read by the stored session, or read by a session
    of its own that takes the place of the stored one. -/
inductive Cause
  | sent
  | read (wire : Bytes)
  | renewed (info : PreKeyMessageInfo)

/-- The message that the stored session has read. -/
def Cause.wire : Cause → Option Bytes
  | .read wire => some wire
  | _ => none

/-- A save: the session that was there, and the one that is there now. -/
structure Save where
  before : Option SessionState
  after : Option SessionState
  cause : Cause

section

variable (P : SignalPrimitives) (keys : Decryption.DeviceKeys)

/-- What a save must leave: all that could be received, but for what its own message used. -/
def Save.Kept : Save → Prop
  | ⟨before, after, .read wire⟩ => ∀ s, before = some s → ∃ s', after = some s' ∧
      ∀ pos, wirePosition P wire = some pos → Keeps s s' pos
  | ⟨before, after, _⟩ => ∀ s, before = some s → ∃ s', after = some s' ∧
      ∀ rc ∈ s.receiverChains, rc ∈ s'.receiverChains

/-- `decrypt_signal_envelope` up to the save. -/
def readEnvelope (store : Store) (env : Envelope) (fresh : U8Array 32) :
    Option (Bytes × SessionRecord × Cause) :=
  if env.encType = "msg" then
    (storedRecord store env.decryptAddr).bind fun r =>
      (readRecord P r fresh env.encVersion env.ciphertext).map fun (p, r) =>
        (p, r, .read env.ciphertext)
  else if env.encType = "pkmsg" then
    match Signal.parsePreKeyMessage P env.ciphertext with
    | .error _ => none
    | .ok info =>
        match readExisting P store env.decryptAddr info fresh env.encVersion with
        | some (p, r) => some (p, r, .read info.innerWhisperWire)
        | none =>
            let state := newSession P keys info (loadPrekeyPriv store info.preKeyId)
            (readRecord P ⟨some state, []⟩ fresh env.encVersion info.innerWhisperWire).map
              fun (p, r) => (p, r, .renewed info)
  else none

/-- The save, with the one-time prekey that was used when the store was loaded. -/
def writeBack (store loaded : Store) (address : List Char) (r : SessionRecord) : Cause → Store
  | .renewed info =>
      let store' := store.save address r
      match Replay.usedPrekey loaded info with
      | some id => { store' with prekeys := Prekeys.prekeyDelete store'.prekeys id }
      | none => store'
  | _ => store.save address r

/-! ## 2. Tasks -/

/-- How far a task has come: it has loaded, it has the server's keys too, it has loaded the store
    that a message is read with, or it is over. -/
inductive Task
  | waiting (s : Sending) (targets : List (List Char × List Char)) (existing : Records)
      (needsBundle : List (List Char))
  | looping (s : Sending) (targets : List (List Char × List Char))
      (existing bootstrapped : Records)
  | opened (env : Envelope) (fresh : U8Array 32) (loaded : Store)
  | over

/-- The store, the tasks, and what was done: the messages with the tasks that made them, the tasks
    that returned theirs, the saves, and the ratchet keys that sessions came to send with. -/
structure World where
  store : Store
  tasks : List Task
  made : List (Nat × CiphertextMessage)
  returned : List Nat
  saves : List Save
  used : List (U8Array 32)

inductive Event
  | load (order : MostRecent) (table : List LidPnRow) (sessionId : String) (s : Sending)
      (devices : List (List Char))
  | reply (i : Nat)
  | turn (i : Nat)
  | present (env : Envelope) (fresh : U8Array 32)
  | write (i : Nat)

def World.put (w : World) (i : Nat) (t : Task) : World := { w with tasks := w.tasks.set i t }

/-- A record takes the place of what is stored at its address. -/
def World.save (w : World) (address : List Char) (r : SessionRecord) (cause : Cause) : World :=
  { w with
    store := w.store.save address r
    saves := ⟨sessionAt w.store.sessions address, r.current, cause⟩ :: w.saves
    used := ((r.current.bind SessionState.standing).map Prod.fst).toList ++ w.used }

/-- One device of a call, or its end. -/
def stepTurn (w : World) (i : Nat) (s : Sending) (existing bootstrapped : Records) :
    List (List Char × List Char) → World
  | [] => { w.put i .over with returned := i :: w.returned }
  | (d, enc) :: targets =>
      let (found, existing, bootstrapped) := takeRecord existing bootstrapped enc
      match found with
      | none => w.put i (.looping s targets existing bootstrapped)
      | some r =>
          match encryptOne P keys.toDeviceKeys s d enc r with
          | .error _ => w.put i .over
          | .ok (recipient, saved) =>
              let w' := (w.put i (.looping s targets existing bootstrapped)).save saved.1 saved.2
                .sent
              { w' with made := w'.made ++ [(i, recipient.message)] }

def step (w : World) : Event → Option World
  | .load order table sessionId s devices =>
      let (targets, sessions) :=
        encryptionTargets order table sessionId w.store.sessions devices
      let task := match partitionTargets sessions targets with
        | .error _ => Task.over
        | .ok (existing, needsBundle) => .waiting s targets existing needsBundle
      some { w with store := { w.store with sessions }, tasks := w.tasks ++ [task] }
  | .reply i =>
      match w.tasks[i]? with
      | some (.waiting s targets existing needsBundle) =>
          match bootstrap P keys.toDeviceKeys s.fetch needsBundle with
          | .error _ => some (w.put i .over)
          | .ok bootstrapped => some (w.put i (.looping s targets existing bootstrapped))
      | _ => none
  | .turn i =>
      match w.tasks[i]? with
      | some (.looping s targets existing bootstrapped) =>
          some (stepTurn P keys w i s existing bootstrapped targets)
      | _ => none
  | .present env fresh => some { w with tasks := w.tasks ++ [.opened env fresh w.store] }
  | .write i =>
      match w.tasks[i]? with
      | some (.opened env fresh loaded) =>
          match readEnvelope P keys loaded env fresh with
          | none => some (w.put i .over)
          | some (_, r, cause) =>
              let w' := (w.put i .over).save env.decryptAddr r cause
              some { w' with store := writeBack w.store loaded env.decryptAddr r cause }
      | _ => none

/-- A new login has no sessions. -/
def start (prekeys : List Prekeys.PrekeyRow) : World :=
  ⟨⟨fun _ => none, prekeys⟩, [], [], [], [], []⟩

/-! ## 3. What is promised -/

/-- The messages that left: a call that fails returns none. -/
def World.emitted (w : World) : List CiphertextMessage :=
  (w.made.filter fun m => m.1 ∈ w.returned).map Prod.snd

/-- **No two messages that left carry one ratchet key and counter**, and every save left what could
    be received. -/
structure Safe (w : World) : Prop where
  apart : (w.emitted.map (position P)).Nodup
  kept : ∀ save ∈ w.saves, save.Kept P

/-- **The save of a step finds what its task loaded**: the very record, or still no session at the
    address of one that the server's keys were asked for. -/
def Current (w : World) : Event → Prop
  | .turn i =>
      match w.tasks[i]? with
      | some (.looping s ((d, enc) :: _) existing bootstrapped) =>
          ∀ r ∈ (takeRecord existing bootstrapped enc).1,
            (encryptOne P keys.toDeviceKeys s d enc r).isOk = true →
              w.store.sessions enc = some (.record r) ∨
                (existing enc = none ∧ hasCurrent w.store.sessions enc = false)
      | _ => True
  | .write i =>
      match w.tasks[i]? with
      | some (.opened env fresh loaded) =>
          (readEnvelope P keys loaded env fresh).isSome = true →
            w.store.sessions env.decryptAddr = loaded.sessions env.decryptAddr
      | _ => True
  | _ => True

/-- **No ratchet key is generated twice**: those of a step are none that a session came to send
    with. -/
def NewKeys (w : World) : Event → Prop
  | .turn i =>
      match w.tasks[i]? with
      | some (.looping s ((d, enc) :: _) _ bootstrapped) =>
          P.x25519.pub (s.fresh d) ∉ w.used ∧
            ∀ r ∈ bootstrapped enc, ∀ state ∈ r.current, ∀ ratchetPub ∈ state.senderRatchetPub,
              ratchetPub ∉ w.used
      | _ => True
  | .write i =>
      match w.tasks[i]? with
      | some (.opened _ fresh _) => P.x25519.pub fresh ∉ w.used
      | _ => True
  | _ => True

/-- **No counter is at its end.** -/
def Room (w : World) : Event → Prop
  | .turn i =>
      match w.tasks[i]? with
      | some (.looping _ ((_, enc) :: _) existing bootstrapped) =>
          ∀ r ∈ (takeRecord existing bootstrapped enc).1, ∀ state ∈ r.current,
            ∀ pos ∈ state.standing, pos.2 + 1 < 2 ^ 32
      | _ => True
  | .write i =>
      match w.tasks[i]? with
      | some (.opened env fresh loaded) =>
          ∀ x ∈ readEnvelope P keys loaded env fresh, ∀ wire ∈ x.2.2.wire,
            ∀ pos ∈ wirePosition P wire, pos.2 + 1 < 2 ^ 32
      | _ => True
  | _ => True

/-- **No session that has received is given up**: a message that the stored session does not read
    finds none at its address, or one that has received nothing. -/
def Stays (w : World) : Event → Prop
  | .write i =>
      match w.tasks[i]? with
      | some (.opened env fresh loaded) =>
          (∃ x ∈ readEnvelope P keys loaded env fresh, x.2.2.wire = none) →
            ∀ s ∈ sessionAt w.store.sessions env.decryptAddr, s.receiverChains = []
      | _ => True
  | _ => True

/-- **The condition.** -/
structure Undisturbed (w : World) (e : Event) : Prop where
  current : Current P keys w e
  newKeys : NewKeys P w e
  room : Room P keys w e
  stays : Stays P keys w e

deriving instance DecidableEq for SessionRecord, Row

instance decidableCurrent (w : World) (e : Event) : Decidable (Current P keys w e) := by
  unfold Current
  split
  · split <;> infer_instance
  · split <;> infer_instance
  · infer_instance

section

local instance keyLawfulBEq : LawfulBEq (U8Array 32) := inferInstance

instance decidableNewKeys (w : World) (e : Event) : Decidable (NewKeys P w e) := by
  unfold NewKeys
  split
  · split <;> infer_instance
  · split <;> infer_instance
  · infer_instance

end

instance decidableRoom (w : World) (e : Event) : Decidable (Room P keys w e) := by
  unfold Room
  split
  · split <;> infer_instance
  · split <;> infer_instance
  · infer_instance

instance decidableStays (w : World) (e : Event) : Decidable (Stays P keys w e) := by
  unfold Stays
  split
  · split <;> infer_instance
  · infer_instance

instance decidableUndisturbed (w : World) (e : Event) : Decidable (Undisturbed P keys w e) :=
  decidable_of_iff (Current P keys w e ∧ NewKeys P w e ∧ Room P keys w e ∧ Stays P keys w e)
    ⟨fun h => ⟨h.1, h.2.1, h.2.2.1, h.2.2.2⟩, fun h => ⟨h.current, h.newKeys, h.room, h.stays⟩⟩

end

/-! ## 4. The parts -/

section Parts

variable {P : SignalPrimitives} {keys : Decryption.DeviceKeys} {store loaded : Store}
  {env : Envelope} {fresh : U8Array 32}

/-- **A decryption that is not disturbed** is the function. -/
theorem decrypt_eq :
    decryptSignalEnvelope P keys store env fresh =
      (readEnvelope P keys store env fresh).elim (none, store) fun x =>
        (some x.1, writeBack store store env.decryptAddr x.2.1 x.2.2) := by
  unfold decryptSignalEnvelope readEnvelope
  by_cases hmsg : env.encType = "msg"
  · rw [if_pos hmsg, if_pos hmsg]
    cases storedRecord store env.decryptAddr with
    | none => rfl
    | some r =>
        dsimp only [Option.bind_some]
        cases readRecord P r fresh env.encVersion env.ciphertext with
        | none => rfl
        | some x => rfl
  · rw [if_neg hmsg, if_neg hmsg]
    by_cases hpkmsg : env.encType = "pkmsg"
    · rw [if_pos hpkmsg, if_pos hpkmsg]
      cases Signal.parsePreKeyMessage P env.ciphertext with
      | error e => rfl
      | ok info =>
          dsimp only
          cases readExisting P store env.decryptAddr info fresh env.encVersion with
          | some x => rfl
          | none =>
              dsimp only
              cases readRecord P
                ⟨some (newSession P keys info (loadPrekeyPriv store info.preKeyId)), []⟩ fresh
                env.encVersion info.innerWhisperWire with
              | none => rfl
              | some x =>
                  dsimp only [Option.map_some, Option.elim_some]
                  refine congrArg _ ?_
                  unfold replaceRecord writeBack Replay.usedPrekey
                  dsimp only
                  generalize loadPrekeyPriv store info.preKeyId = opk
                  cases info.preKeyId with
                  | none => rw [ite_self]
                  | some id =>
                      dsimp only
                      by_cases hopk : opk.isSome = true
                      · rw [if_pos hopk, if_pos hopk]
                      · rw [if_neg hopk, if_neg hopk]
    · rw [if_neg hpkmsg, if_neg hpkmsg]
      rfl

theorem step_turn {w : World} {i : Nat} {s : Sending} {targets : List (List Char × List Char)}
    {existing bootstrapped : Records}
    (htask : w.tasks[i]? = some (.looping s targets existing bootstrapped)) :
    step P keys w (.turn i) = some (stepTurn P keys w i s existing bootstrapped targets) := by
  unfold step
  dsimp only
  rw [htask]

/-- **The turns of a call that is not disturbed** are the loop. -/
theorem turns_eq (P : SignalPrimitives) (keys : Decryption.DeviceKeys) {i : Nat} {s : Sending}
    (targets : List (List Char × List Char)) (existing bootstrapped : Records) {w : World}
    (htask : w.tasks[i]? = some (.looping s targets existing bootstrapped)) :
    let result := encryptTargetsSaving P keys.toDeviceKeys s targets existing bootstrapped
    ∃ n w', runFrom (step P keys) w (List.replicate n (.turn i)) = some w' ∧
      w'.store = { w.store with sessions := saveAll w.store.sessions result.2 } ∧
      ∀ out, result.1 = .ok out →
        w'.made = w.made ++ out.map (fun recipient => (i, recipient.message)) ∧
          w'.returned = i :: w.returned := by
  have hlt : i < w.tasks.length := (List.getElem?_eq_some_iff.mp htask).1
  induction targets generalizing existing bootstrapped w with
  | nil =>
      refine ⟨1, stepTurn P keys w i s existing bootstrapped [], ?_, rfl, fun out hout => ?_⟩
      · rw [List.replicate_one]
        unfold runFrom
        rw [step_turn htask]
        rfl
      · cases hout
        exact ⟨(List.append_nil _).symm, rfl⟩
  | cons target targets ih =>
      obtain ⟨d, enc⟩ := target
      have hstep : step P keys w (.turn i) = _ := step_turn htask
      have hset : ∀ t, (w.put i t).tasks[i]? = some t := fun t => List.getElem?_set_self hlt
      have hlength : ∀ t, i < (w.put i t).tasks.length := fun t => by
        unfold World.put
        rwa [List.length_set]
      intro result
      unfold result encryptTargetsSaving
      unfold stepTurn at hstep
      dsimp only at hstep ⊢
      generalize takeRecord existing bootstrapped enc = parts at hstep ⊢
      obtain ⟨_ | r, existing', bootstrapped'⟩ := parts
      · obtain ⟨n, w', hrun, hstore, hmade⟩ := ih existing' bootstrapped' (hset _) (hlength _)
        refine ⟨n + 1, w', ?_, hstore, hmade⟩
        rw [List.replicate_succ]
        unfold runFrom
        rw [hstep]
        exact hrun
      · dsimp only at hstep ⊢
        cases hone : encryptOne P keys.toDeviceKeys s d enc r with
        | error e =>
            rw [hone] at hstep
            refine ⟨1, w.put i .over, ?_, rfl, fun out hout => ?_⟩
            · rw [List.replicate_one]
              unfold runFrom
              rw [hstep]
              rfl
            · cases hout
        | ok p =>
            obtain ⟨recipient, saved⟩ := p
            rw [hone] at hstep
            dsimp only at hstep ⊢
            obtain ⟨n, w', hrun, hstore, hmade⟩ := ih existing' bootstrapped'
              (w := { (w.put i (.looping s targets existing' bootstrapped')).save saved.1 saved.2
                  .sent with made := w.made ++ [(i, recipient.message)] }) (hset _) (hlength _)
            refine ⟨n + 1, w', ?_, hstore, fun out hout => ?_⟩
            · rw [List.replicate_succ]
              unfold runFrom
              rw [hstep]
              exact hrun
            · dsimp only at hmade hout
              cases hrest : (encryptTargetsSaving P keys.toDeviceKeys s targets existing'
                bootstrapped').1 with
              | error e =>
                  rw [hrest] at hout
                  cases hout
              | ok rest =>
                  rw [hrest] at hout
                  cases hout
                  obtain ⟨hmade', hreturned⟩ := hmade rest hrest
                  refine ⟨?_, hreturned⟩
                  rw [hmade', List.append_assoc]
                  rfl

/-- What was read: by the stored session, or by one of its own where that could not. -/
theorem readEnvelope_some {p : Bytes} {r : SessionRecord} {cause : Cause}
    (h : readEnvelope P keys loaded env fresh = some (p, r, cause)) :
    (∃ r₀ wire, storedRecord loaded env.decryptAddr = some r₀ ∧
        readRecord P r₀ fresh env.encVersion wire = some (p, r) ∧ cause = .read wire) ∨
      ∃ info opk, readExisting P loaded env.decryptAddr info fresh env.encVersion = none ∧
        readRecord P ⟨some (newSession P keys info opk), []⟩ fresh env.encVersion
          info.innerWhisperWire = some (p, r) ∧ cause = .renewed info := by
  unfold readEnvelope at h
  split at h
  · obtain ⟨r₀, hstored, h⟩ := Option.bind_eq_some_iff.mp h
    obtain ⟨⟨p', r'⟩, hread, heq⟩ := Option.map_eq_some_iff.mp h
    cases heq
    exact Or.inl ⟨r₀, _, hstored, hread, rfl⟩
  · split at h
    · split at h
      · cases h
      · rename_i info hparse
        cases hexisting : readExisting P loaded env.decryptAddr info fresh env.encVersion with
        | some x =>
            rw [hexisting] at h
            cases h
            unfold readExisting at hexisting
            cases hstored : storedRecord loaded env.decryptAddr with
            | none =>
                rw [hstored] at hexisting
                cases hexisting
            | some r₀ =>
                rw [hstored] at hexisting
                dsimp only at hexisting
                split at hexisting
                · exact Or.inl ⟨r₀, _, rfl, hexisting, rfl⟩
                · cases hexisting
        | none =>
            rw [hexisting] at h
            obtain ⟨⟨p', r'⟩, hread, heq⟩ := Option.map_eq_some_iff.mp h
            cases heq
            exact Or.inr ⟨info, _, hexisting, hread, rfl⟩
    · cases h

theorem writeBack_sessions (store loaded : Store) (address : List Char) (r : SessionRecord)
    (cause : Cause) :
    (writeBack store loaded address r cause).sessions = saveRecord store.sessions address r := by
  cases cause with
  | sent => rfl
  | read wire => rfl
  | renewed info =>
      unfold writeBack
      dsimp only
      split <;> rfl

/-- **A message under a session** has the position where the session stands, which moves on. -/
theorem encryptUnder_standing {keys : Retry.DeviceKeys} {state state' : SessionState}
    {plaintext : Bytes} {m : CiphertextMessage}
    (h : encryptUnder P keys state fresh plaintext = (.ok m, state'))
    (hroom : ∀ k i, state.standing = some (k, i) → i + 1 < 2 ^ 32) :
    ∃ k i, position P m = some (k, i) ∧ state'.standing = some (k, i + 1) ∧
      (state.standing = some (k, i) ∨
        state.standing = none ∧ k = P.x25519.pub fresh ∧ i = 0) := by
  unfold encryptUnder at h
  cases hpending : state.pendingPreKey with
  | none =>
      rw [hpending] at h
      obtain ⟨k, i, hposition, htype, hstands, hfrom⟩ := Signal.encrypt_standing h hroom
      refine ⟨k, i, ?_, hstands, hfrom⟩
      unfold position
      rw [htype]
      exact hposition
  | some pp =>
      rw [hpending] at h
      dsimp only at h
      rcases hencrypt : Signal.encryptPreKey P state fresh plaintext keys.registrationId
        pp.baseKeyPub keys.identityPub pp.signedPreKeyId pp.preKeyId with ⟨res, state''⟩
      rw [hencrypt] at h
      cases h
      obtain ⟨inner, hinner, hsame⟩ := Signal.encryptPreKey_inner hencrypt
      obtain ⟨k, i, hposition, -, hstands, hfrom⟩ := Signal.encrypt_standing hinner hroom
      exact ⟨k, i, hsame.trans hposition, hstands, hfrom⟩

end Parts

/-! ## 5. The invariant -/

/-- Where the session of an address stands. -/
def World.stands (w : World) (a : List Char) : Option (U8Array 32 × Nat) :=
  (sessionAt w.store.sessions a).bind SessionState.standing

def World.ledger (w : World) (given : List (U8Array 32 × Nat)) : Ledger (U8Array 32) (List Char) :=
  ⟨w.stands, given, w.used⟩

/-- The positions of the messages are tickets, which the sessions give out. -/
structure Inv (P : SignalPrimitives) (w : World) : Prop where
  tickets : ∃ given, w.made.map (fun m => position P m.2) = given.map some ∧ (w.ledger given).Sound
  kept : ∀ save ∈ w.saves, save.Kept P

section Invariant

variable {P : SignalPrimitives} {keys : Decryption.DeviceKeys} {w : World} {a : List Char}
  {r : SessionRecord}

theorem stands_save (cause : Cause) (b : List Char) :
    (w.save a r cause).stands b =
      if b = a then r.current.bind SessionState.standing else w.stands b := by
  unfold World.stands World.save Store.save saveRecord
  dsimp only
  rw [sessionAt_update]
  split <;> rfl

/-- It is about the store and what was done, and not about the tasks. -/
theorem inv_tasks (h : Inv P w) (tasks : List Task) (returned : List Nat) :
    Inv P { w with tasks := tasks, returned := returned } :=
  ⟨h.tickets, h.kept⟩

/-- Sessions that are moved. -/
theorem inv_load (h : Inv P w) {sessions : SessionStore}
    (hrelocates : Relocates w.store.sessions sessions) :
    Inv P { w with store := { w.store with sessions } } where
  tickets := by
    obtain ⟨given, hmade, hsound⟩ := h.tickets
    obtain ⟨source, hsource⟩ := hrelocates
    refine ⟨given, hmade, sound_moved hsound source (fun b x hb => ?_) fun b b' hb hb' => ?_⟩
    · obtain ⟨s, hs, hx⟩ := Option.bind_eq_some_iff.mp hb
      exact Option.bind_eq_some_iff.mpr ⟨s, hsource.comes b s hs, hx⟩
    · exact hsource.apart b b' (Option.isSome_of_isSome_bind hb) (Option.isSome_of_isSome_bind hb')
  kept := h.kept

/-- **A message is sent** under the session that is stored, or under a new one. -/
theorem inv_sent (h : Inv P w) {state state' : SessionState} {k : U8Array 32} {n : Nat}
    {m : CiphertextMessage} (i : Nat) (hposition : position P m = some (k, n))
    (hstands : state'.standing = some (k, n + 1)) (hfrom : w.stands a = some (k, n) ∨ k ∉ w.used)
    (hbefore : ∀ s, sessionAt w.store.sessions a = some s → s = state)
    (hsame : SameReceiving state state') (hcurrent : r.current = some state') :
    Inv P { w.save a r .sent with made := w.made ++ [(i, m)] } where
  tickets := by
    obtain ⟨given, hmade, hsound⟩ := h.tickets
    have hbind : r.current.bind SessionState.standing = some (k, n + 1) := by
      rw [hcurrent, Option.bind_some, hstands]
    have hself : (w.save a r .sent).stands a = some (k, n + 1) := by
      rw [stands_save, if_pos rfl, hbind]
    have hothers : ∀ b, b ≠ a → (w.save a r .sent).stands b = w.stands b := fun b hb => by
      rw [stands_save, if_neg hb]
    have hused : (w.save a r .sent).used = k :: w.used := by
      unfold World.save
      rw [hbind]
      rfl
    refine ⟨given ++ [(k, n)], ?_, ?_⟩
    · rw [List.map_append, List.map_append, hmade, List.map_singleton, List.map_singleton,
        hposition]
    · unfold World.ledger
      dsimp only
      rw [hused]
      rcases hfrom with hold | hnew
      · exact sound_learn (sound_given hsound hold hself hothers) [k]
      · exact sound_first hsound hnew hself hothers
  kept save hsave := by
    rcases List.mem_cons.mp hsave with rfl | hold
    · intro s hs
      refine ⟨state', hcurrent, fun rc hrc => ?_⟩
      rw [hsame.chains, ← hbefore s hs]
      exact hrc
    · exact h.kept save hold

/-- **A session that has read a message is saved**: it stands where it stood, or with a new key. -/
theorem inv_read (h : Inv P w) {cause : Cause} {store : Store}
    (hstore : store.sessions = saveRecord w.store.sessions a r)
    (hstands : ∀ x, r.current.bind SessionState.standing = some x →
      w.stands a = some x ∨ x.1 ∉ w.used)
    (hkept : Save.Kept P ⟨sessionAt w.store.sessions a, r.current, cause⟩) :
    Inv P { w.save a r cause with store := store } where
  tickets := by
    obtain ⟨given, hmade, hsound⟩ := h.tickets
    have hsaved : ∀ b, World.stands { w.save a r cause with store := store } b =
        (w.save a r cause).stands b := fun b => by
      unfold World.stands
      dsimp only
      rw [hstore]
      rfl
    have hself : World.stands { w.save a r cause with store := store } a =
        r.current.bind SessionState.standing := by
      rw [hsaved, stands_save, if_pos rfl]
    have hplaced : Ledger.Sound ⟨World.stands { w.save a r cause with store := store }, given, _⟩ :=
      sound_placed hsound a (fun x hx => hstands x (hself ▸ hx)) fun b hb => by
        rw [hsaved, stands_save, if_neg hb]
        rfl
    rw [hself] at hplaced
    exact ⟨given, hmade, hplaced⟩
  kept save hsave := by
    rcases List.mem_cons.mp hsave with rfl | hold
    · exact hkept
    · exact h.kept save hold

theorem sessionAt_of_row {store : SessionStore} {s : SessionState}
    (hrow : store a = some (.record r)) (hs : r.current = some s) : sessionAt store a = some s := by
  unfold sessionAt rowSession
  rw [hrow]
  exact hs

theorem sessionAt_of_missing {store : SessionStore} (h : hasCurrent store a = false) :
    sessionAt store a = none := by
  unfold hasCurrent at h
  unfold sessionAt rowSession
  cases hrow : store a with
  | none => rfl
  | some row =>
      rw [hrow] at h
      cases row with
      | corrupt => rfl
      | record r => exact Option.isSome_eq_false_iff.mp h |> Option.isNone_iff_eq_none.mp

theorem ratchetPub_of_standing {s : SessionState} {k : U8Array 32} {n : Nat}
    (h : s.standing = some (k, n)) : s.senderRatchetPub = some k := by
  unfold SessionState.standing at h
  split at h
  · next hpub =>
      cases h
      exact hpub
  · cases h

/-- The record comes from one of the maps, if there is none in the other. -/
theorem takeRecord_found {existing bootstrapped : Records} {enc : List Char}
    (h : (takeRecord existing bootstrapped enc).1 = some r) (hmissing : existing enc = none) :
    bootstrapped enc = some r := by
  unfold takeRecord at h
  rw [hmissing] at h
  exact h

/-! ## 6. The steps -/

/-- **One device of a call.** -/
theorem inv_turn (h : Inv P w) {i : Nat} {s : Sending} {targets : List (List Char × List Char)}
    {existing bootstrapped : Records}
    (htask : w.tasks[i]? = some (.looping s targets existing bootstrapped))
    (hundisturbed : Undisturbed P keys w (.turn i)) :
    Inv P (stepTurn P keys w i s existing bootstrapped targets) := by
  obtain ⟨hcurrent, hkeys, hroom, -⟩ := hundisturbed
  cases targets with
  | nil => exact inv_tasks h _ _
  | cons target targets =>
      obtain ⟨d, enc⟩ := target
      unfold Current at hcurrent
      unfold NewKeys at hkeys
      unfold Room at hroom
      dsimp only at hcurrent hkeys hroom
      rw [htask] at hcurrent hkeys hroom
      dsimp only at hcurrent hkeys hroom
      have hfound : ∀ r, (takeRecord existing bootstrapped enc).1 = some r → existing enc = none →
          bootstrapped enc = some r := fun r => takeRecord_found
      unfold stepTurn
      dsimp only
      generalize takeRecord existing bootstrapped enc = parts at hcurrent hroom hfound ⊢
      obtain ⟨_ | r, existing', bootstrapped'⟩ := parts
      · exact inv_tasks h _ _
      · dsimp only at hcurrent hroom hfound ⊢
        cases hone : encryptOne P keys.toDeviceKeys s d enc r with
        | error e => exact inv_tasks h _ _
        | ok p =>
            obtain ⟨recipient, saved⟩ := p
            obtain ⟨state, state', hstate, -, hunder, rfl⟩ := FanOut.encryptOne_ok hone
            have hgiven := hcurrent r rfl (by rw [hone]; rfl)
            obtain ⟨k, n, hposition, hstands, hfrom⟩ :=
              encryptUnder_standing hunder fun k n hk => hroom r rfl state hstate (k, n) hk
            have hsame : SameReceiving state state' := by
              have hunder' := encryptUnder_receiving P keys.toDeviceKeys state (s.fresh d)
                (s.plaintext d)
              rwa [hunder] at hunder'
            refine inv_sent (inv_tasks h (w.tasks.set i _) w.returned) i hposition hstands ?_ ?_
              hsame rfl
            · rcases hfrom with hold | ⟨-, hk, -⟩
              · rcases hgiven with hrow | ⟨hmissing, -⟩
                · refine Or.inl ?_
                  unfold World.stands
                  dsimp only
                  rw [sessionAt_of_row hrow hstate, Option.bind_some, hold]
                · exact Or.inr (hkeys.2 r (hfound r rfl hmissing) state hstate k
                    (ratchetPub_of_standing hold))
              · exact Or.inr (hk ▸ hkeys.1)
            · intro s₀ hs₀
              rcases hgiven with hrow | ⟨-, hnone⟩
              · exact Option.some.inj (hs₀.symm.trans (sessionAt_of_row hrow hstate))
              · cases hs₀.symm.trans (sessionAt_of_missing hnone)

/-- **A decryption that saves.** -/
theorem inv_write (h : Inv P w) {i : Nat} {env : Envelope} {fresh : U8Array 32} {loaded : Store}
    (htask : w.tasks[i]? = some (.opened env fresh loaded))
    (hundisturbed : Undisturbed P keys w (.write i)) {p : Bytes} {cause : Cause}
    (hread : readEnvelope P keys loaded env fresh = some (p, r, cause)) :
    Inv P { w.save env.decryptAddr r cause with
      store := writeBack w.store loaded env.decryptAddr r cause } := by
  obtain ⟨hcurrent, hkeys, hroom, hstays⟩ := hundisturbed
  unfold Current at hcurrent
  unfold NewKeys at hkeys
  unfold Room at hroom
  unfold Stays at hstays
  dsimp only at hcurrent hkeys hroom hstays
  rw [htask] at hcurrent hkeys hroom hstays
  dsimp only at hcurrent hkeys hroom hstays
  have hrow : w.store.sessions env.decryptAddr = loaded.sessions env.decryptAddr :=
    hcurrent (by rw [hread]; rfl)
  refine inv_read h (writeBack_sessions ..) ?_ ?_
  · -- The sender is as it was, or has the new key.
    intro x hx
    rcases readEnvelope_some hread with
        ⟨r₀, wire, hstored, hopened, -⟩ | ⟨info, opk, -, hopened, -⟩ <;>
      obtain ⟨state, padded, state', hstate, hdecrypt, -, rfl⟩ := readRecord_some.mp hopened
    · rcases Signal.decrypt_standing hdecrypt with hsame | hnew
      · refine Or.inl ?_
        unfold World.stands
        rw [sessionAt_of_row (hrow.trans (storedRecord_some.mp hstored)) hstate, Option.bind_some,
          ← hsame]
        exact hx
      · cases hnew.symm.trans hx
        exact Or.inr hkeys
    · cases hstate
      rcases Signal.decrypt_standing hdecrypt with hsame | hnew
      · cases hsame.symm.trans hx
      · cases hnew.symm.trans hx
        exact Or.inr hkeys
  · rcases readEnvelope_some hread with ⟨r₀, wire, hstored, hopened, hcause⟩ |
      ⟨info, opk, -, hopened, hcause⟩ <;> subst hcause <;>
      obtain ⟨state, padded, state', hstate, hdecrypt, -, rfl⟩ := readRecord_some.mp hopened
    · intro s hs
      obtain rfl : state = s := Option.some.inj
        ((sessionAt_of_row (hrow.trans (storedRecord_some.mp hstored)) hstate).symm.trans hs)
      exact ⟨state', rfl, fun pos hpos => Signal.decrypt_keeps hdecrypt hpos
        (hroom _ hread wire rfl pos hpos)⟩
    · intro s hs
      have hnone := hstays ⟨_, hread, rfl⟩ s hs
      exact ⟨state', rfl, fun rc hrc => absurd (hnone ▸ hrc) List.not_mem_nil⟩

/-- **Every step that is not disturbed keeps the invariant.** -/
theorem inv_step {w' : World} {e : Event} (h : Inv P w) (hundisturbed : Undisturbed P keys w e)
    (hstep : step P keys w e = some w') : Inv P w' := by
  cases e with
  | load order table sessionId s devices =>
      cases hstep
      exact inv_tasks (inv_load h (encryptionTargets_relocates devices)) _ _
  | reply i =>
      unfold step at hstep
      dsimp only at hstep
      split at hstep
      · split at hstep <;>
          (cases hstep
           exact inv_tasks h _ _)
      · cases hstep
  | turn i =>
      unfold step at hstep
      dsimp only at hstep
      split at hstep
      · next htask =>
          cases hstep
          exact inv_turn h htask hundisturbed
      · cases hstep
  | present env fresh =>
      cases hstep
      exact inv_tasks h _ _
  | write i =>
      unfold step at hstep
      dsimp only at hstep
      split at hstep
      · next htask =>
          split at hstep
          · cases hstep
            exact inv_tasks h _ _
          · next hread =>
              cases hstep
              exact inv_tasks (inv_write h htask hundisturbed hread) (w.tasks.set i .over)
                w.returned
      · cases hstep

theorem inv_start (prekeys : List Prekeys.PrekeyRow) : Inv P (start prekeys) where
  tickets := by
    have hnone : ∀ a x, (start prekeys).stands a ≠ some x := by
      intro a x h
      cases h
    refine ⟨[], rfl, ?_, ?_, ?_, ?_, List.nodup_nil⟩
    · intro a b k i j ha
      exact absurd ha (hnone a _)
    · intro a k i j ha
      exact absurd ha (hnone a _)
    · intro a k i ha
      exact absurd ha (hnone a _)
    · intro k i hgiven
      cases hgiven
  kept save hsave := by cases hsave

/-- Nobody has the ticket of another. -/
theorem safe_of_inv (h : Inv P w) : Safe P w where
  apart := by
    obtain ⟨given, hmade, hsound⟩ := h.tickets
    have hnodup : (w.made.map fun m => position P m.2).Nodup := by
      rw [hmade]
      exact hsound.distinct.map (Option.some_injective _)
    unfold World.emitted
    rw [List.map_map]
    exact hnodup.sublist (List.filter_sublist.map _)
  kept := h.kept

end Invariant

/-- **A run whose steps are all undisturbed is safe in every state**, for all tasks and every order
    of their steps. -/
theorem undisturbed_safe (P : SignalPrimitives) (keys : Decryption.DeviceKeys)
    (prekeys : List Prekeys.PrekeyRow) {events : List Event} {w : World}
    (hmeets : Meets (step P keys) (Undisturbed P keys) (start prekeys) events)
    (hrun : runFrom (step P keys) (start prekeys) events = some w) : Safe P w :=
  safe_of_inv (run_invariant (fun _ _ _ hI hC hstep => inv_step hI hC hstep) (inv_start prekeys)
    hmeets hrun)

namespace Sample

open Signal.Known
open Retry.Sample (ours byLid)
open FanOut.Sample (reply companion)

def keys : Decryption.DeviceKeys := ⟨ours, bobSpk⟩

/-- A text for devices whose keys are in `answer`. -/
def texting (answer : Node) : Sending where
  padded := hi
  paddedOwn := hi
  ownUser := none
  ask _ := .ok answer
  draw _ := ⟨aliceBase, ratchet₁⟩
  fresh _ := ratchet₃
  refuses _ _ := false

def call (answer : Node) (devices : List (List Char)) : Event :=
  .load (.byInsertion _) [] "s" (texting answer) devices

def unknown : Node := .mk "iq" .empty .none

/-- Two texts to one device, one after the other. -/
def texts : List Event :=
  [call (reply "64000000000003@lid") [byLid.jid], .reply 0, .turn 0, .turn 0,
    call unknown [byLid.jid], .reply 1, .turn 1, .turn 1]

/-- The second has another device to ask the server for, and meanwhile there is a third. -/
def race : List Event :=
  [call (reply "64000000000003@lid") [byLid.jid], .reply 0, .turn 0, .turn 0,
    call unknown [byLid.jid, companion], call unknown [byLid.jid], .reply 2, .turn 2, .turn 2,
    .reply 1, .turn 1, .turn 1, .turn 1]

def after (events : List Event) : Option World :=
  runFrom (step primitives keys) (start []) events

/-- A first message without a one-time prekey, the next one, and the first once more, each read
    before another comes. -/
def again : List Event :=
  [.present Replay.Sample.bare ratchet₂, .write 0, .present Replay.Sample.next ratchet₂, .write 1,
    .present Replay.Sample.bare ratchet₂, .write 2]

/-- The save gives up a chain of the session that was there. -/
def givesUp : Save → Bool
  | ⟨some s, some s', .renewed _⟩ => s.receiverChains.any fun rc => !decide (rc ∈ s'.receiverChains)
  | _ => false

end Sample

theorem not_kept_of_givesUp {P : SignalPrimitives} {save : Save} (h : Sample.givesUp save = true) :
    ¬save.Kept P := by
  intro hkept
  unfold Sample.givesUp at h
  split at h
  · next s s' info =>
      obtain ⟨s₁, hafter, hchains⟩ := hkept s rfl
      cases hafter
      obtain ⟨rc, hrc, hnot⟩ := List.any_eq_true.mp h
      rw [decide_eq_true (hchains rc hrc)] at hnot
      cases hnot
  · cases h

/-- A second text goes out under the next counter. -/
theorem texts_safe :
    ∃ w, Sample.after Sample.texts = some w ∧ w.emitted.length = 2 ∧
      Safe Signal.Known.primitives w := by
  have htwo : (Sample.after Sample.texts).any (fun w => w.emitted.length == 2) = true := by
    decide +kernel
  obtain ⟨w, hrun, hlength⟩ := (Option.any_eq_true _ _).mp htwo
  exact ⟨w, hrun, eq_of_beq hlength, undisturbed_safe Signal.Known.primitives Sample.keys []
    (by decide +kernel) hrun⟩

/-- A call that waits for keys sends under the counter that was used meanwhile. And a first message
    that comes again takes back what was received after it. -/
theorem counter_used_twice :
    (∃ w, runFrom (step Signal.Known.primitives Sample.keys) (start []) Sample.race = some w ∧
      ¬Safe Signal.Known.primitives w) ∧
    ∃ w, runFrom (step Replay.Sample.primitives Replay.Sample.keys) (start Replay.Sample.prekeys)
      Sample.again = some w ∧ ¬Safe Replay.Sample.primitives w := by
  have hgivenUp : (runFrom (step Replay.Sample.primitives Replay.Sample.keys)
      (start Replay.Sample.prekeys) Sample.again).any (fun w => w.saves.any Sample.givesUp) = true := by
    decide +kernel
  have htwice : (Sample.after Sample.race).any
      (fun w => !decide (w.emitted.map (position Signal.Known.primitives)).Nodup) = true := by
    decide +kernel
  constructor
  · obtain ⟨w, hrun, hdup⟩ := (Option.any_eq_true _ _).mp htwice
    refine ⟨w, hrun, fun hsafe => ?_⟩
    rw [decide_eq_true hsafe.apart] at hdup
    cases hdup
  · obtain ⟨w, hrun, hany⟩ := (Option.any_eq_true _ _).mp hgivenUp
    obtain ⟨save, hsave, hup⟩ := List.any_eq_true.mp hany
    exact ⟨w, hrun, fun hsafe => not_kept_of_givesUp hup (hsafe.kept save hsave)⟩

end Ruwa.Session.Interleaving
