/-
  File:      Ruwa/Session/Envelope.lean
  Subject:   OPENING A 1:1 ENVELOPE (`session.rs`, `decrypt_signal_envelope`, `load_prekey_priv`,
             `consume_prekey`): a `msg` under the stored session, a `pkmsg` under the stored session
             or one of its own.

  A session is written back only when its message has opened and its padding is right. A `pkmsg`
  that the stored session cannot read is read under a new session from its own keys, with the
  one-time prekey that it names if there is a row for it; the new session takes the place of the
  record, and the row goes.

  * `readRecord_some` -- a record that has read a message, and the record that is written back;
  * `decrypt_none` -- a refused envelope leaves the store as it was;
  * **`decrypt_some`** -- an accepted one was read by the stored session, or by a new one.
-/
import Ruwa.Session.Prekeys
import Ruwa.Session.Retry

namespace Ruwa.Session.Decryption

open Ruwa.Library
open Ruwa.Crypto
open Ruwa.Crypto.Signal (SignalPrimitives SessionState PreKeyMessageInfo)
open Ruwa.Session.Addresses (SessionRecord SessionStore saveRecord)
open Ruwa.Session.Prekeys (PrekeyRow prekeyLoadPrivate prekeyDelete)

/-! ## 1. The source -/

/-- The keys of a login, with the private half of its signed prekey. -/
structure DeviceKeys extends Retry.DeviceKeys where
  signedPrekeyPriv : U8Array 32

/-- What the store holds of a login: its sessions, and its one-time prekeys. -/
structure Store where
  sessions : SessionStore
  prekeys : List PrekeyRow

def Store.save (store : Store) (address : List Char) (r : SessionRecord) : Store :=
  { store with sessions := saveRecord store.sessions address r }

structure Envelope where
  decryptAddr : List Char
  encType : String
  encVersion : Nat
  ciphertext : Bytes
  deriving DecidableEq

/-- The record of an address; a row that does not read back counts as none. -/
def storedRecord (store : Store) (address : List Char) : Option SessionRecord :=
  match Retry.loadRecord store.sessions address with
  | .ok found => found
  | .error _ => none

def loadPrekeyPriv (store : Store) (id : Option UInt32) : Option (U8Array 32) :=
  id.bind (prekeyLoadPrivate store.prekeys)

section

variable (P : SignalPrimitives) (keys : DeviceKeys)

/-- What the current session of a record makes of a message, and the record to write back. -/
def readRecord (r : SessionRecord) (fresh : U8Array 32) (encVersion : Nat) (wire : Bytes) :
    Option (Bytes × SessionRecord) :=
  match r.current with
  | none => none
  | some state =>
      match Signal.decrypt P state fresh wire with
      | (.error _, _) => none
      | (.ok padded, state) =>
          match unpadMessageV padded encVersion with
          | .error _ => none
          | .ok p => some (p, { r with current := some state })

def bobParameters (info : PreKeyMessageInfo) (opkPriv : Option (U8Array 32)) :
    Signal.BobParameters where
  localIdentityPriv := keys.identityPriv
  localIdentityPub := keys.identityPub
  localSignedPrekeyPriv := keys.signedPrekeyPriv
  localOneTimePrekeyPriv := opkPriv
  remoteIdentityPub := info.identityKeyPub
  remoteBasePub := info.baseKeyPub
  remoteRatchetPub := info.innerRatchetPub

/-- The session that an envelope asks for. -/
def newSession (info : PreKeyMessageInfo) (opkPriv : Option (U8Array 32)) : SessionState :=
  Signal.processBob P (bobParameters keys info opkPriv)

/-- The stored session, if it is one with the identity of the envelope. -/
def readExisting (store : Store) (address : List Char) (info : PreKeyMessageInfo)
    (fresh : U8Array 32) (encVersion : Nat) : Option (Bytes × SessionRecord) :=
  match storedRecord store address with
  | none => none
  | some r =>
      if r.current.map SessionState.remoteIdentityPub = some info.identityKeyPub then
        readRecord P r fresh encVersion info.innerWhisperWire
      else none

/-- The new record takes the place of the old one; the prekey is used once. -/
def replaceRecord (store : Store) (address : List Char) (info : PreKeyMessageInfo)
    (r : SessionRecord) : Store :=
  let store' := store.save address r
  match info.preKeyId with
  | none => store'
  | some id =>
      if (loadPrekeyPriv store info.preKeyId).isSome then
        { store' with prekeys := prekeyDelete store'.prekeys id }
      else store'

def decryptSignalEnvelope (store : Store) (env : Envelope) (fresh : U8Array 32) :
    Option Bytes × Store :=
  if env.encType = "msg" then
    match storedRecord store env.decryptAddr with
    | none => (none, store)
    | some r =>
        match readRecord P r fresh env.encVersion env.ciphertext with
        | none => (none, store)
        | some (p, r) => (some p, store.save env.decryptAddr r)
  else if env.encType = "pkmsg" then
    match Signal.parsePreKeyMessage P env.ciphertext with
    | .error _ => (none, store)
    | .ok info =>
        match readExisting P store env.decryptAddr info fresh env.encVersion with
        | some (p, r) => (some p, store.save env.decryptAddr r)
        | none =>
            let state := newSession P keys info (loadPrekeyPriv store info.preKeyId)
            match readRecord P ⟨some state, []⟩ fresh env.encVersion info.innerWhisperWire with
            | none => (none, store)
            | some (p, r) => (some p, replaceRecord store env.decryptAddr info r)
  else (none, store)

end

/-! ## 2. What it does -/

section Spec

variable {P : SignalPrimitives} {keys : DeviceKeys} {store store' : Store} {env : Envelope}
  {fresh : U8Array 32} {p : Bytes}

theorem storedRecord_some {address : List Char} {r : SessionRecord} :
    storedRecord store address = some r ↔ store.sessions address = some (.record r) := by
  unfold storedRecord Retry.loadRecord
  cases store.sessions address with
  | none => exact ⟨nofun, nofun⟩
  | some row =>
      cases row with
      | corrupt => exact ⟨nofun, nofun⟩
      | record r' => exact ⟨fun h => by cases h; rfl, fun h => by cases h; rfl⟩

/-- **A record that has read a message**: only its current session is another. -/
theorem readRecord_some {r r' : SessionRecord} {encVersion : Nat} {wire : Bytes} :
    readRecord P r fresh encVersion wire = some (p, r') ↔
      ∃ state padded state', r.current = some state ∧
        Signal.decrypt P state fresh wire = (.ok padded, state') ∧
        unpadMessageV padded encVersion = .ok p ∧ r' = { r with current := some state' } := by
  unfold readRecord
  constructor
  · intro h
    cases hcurrent : r.current with
    | none =>
        rw [hcurrent] at h
        cases h
    | some state =>
        rw [hcurrent] at h
        dsimp only at h
        rcases hdecrypt : Signal.decrypt P state fresh wire with ⟨_ | padded, state'⟩
        · rw [hdecrypt] at h
          cases h
        · rw [hdecrypt] at h
          dsimp only at h
          cases hunpad : unpadMessageV padded encVersion with
          | error e =>
              rw [hunpad] at h
              cases h
          | ok q =>
              rw [hunpad] at h
              cases h
              exact ⟨state, padded, state', rfl, hdecrypt, hunpad, rfl⟩
  · rintro ⟨state, padded, state', hcurrent, hdecrypt, hunpad, rfl⟩
    rw [hcurrent]
    dsimp only
    rw [hdecrypt]
    dsimp only
    rw [hunpad]

/-- The envelope was read by the session that was stored, which is written back. -/
structure Continued (P : SignalPrimitives) (store : Store) (env : Envelope) (fresh : U8Array 32)
    (p : Bytes) (store' : Store) : Prop where
  read : ∃ r r' wire, storedRecord store env.decryptAddr = some r ∧
    readRecord P r fresh env.encVersion wire = some (p, r') ∧
    store' = store.save env.decryptAddr r' ∧
    ((env.encType = "msg" ∧ wire = env.ciphertext) ∨
      (env.encType = "pkmsg" ∧ ∃ info, Signal.parsePreKeyMessage P env.ciphertext = .ok info ∧
        wire = info.innerWhisperWire ∧
        readExisting P store env.decryptAddr info fresh env.encVersion = some (p, r')))

/-- The envelope was read by a session from its own keys, which is stored. -/
structure Replaced (P : SignalPrimitives) (keys : DeviceKeys) (store : Store) (env : Envelope)
    (fresh : U8Array 32) (info : PreKeyMessageInfo) (p : Bytes) (store' : Store) : Prop where
  encType : env.encType = "pkmsg"
  parsed : Signal.parsePreKeyMessage P env.ciphertext = .ok info
  unread : readExisting P store env.decryptAddr info fresh env.encVersion = none
  read : ∃ r, readRecord P ⟨some (newSession P keys info (loadPrekeyPriv store info.preKeyId)), []⟩
      fresh env.encVersion info.innerWhisperWire = some (p, r) ∧
    store' = replaceRecord store env.decryptAddr info r

theorem prekeyLoadPrivate_delete (rows : List PrekeyRow) (id id' : UInt32) :
    prekeyLoadPrivate (prekeyDelete rows id) id' =
      if id' = id then none else prekeyLoadPrivate rows id' := by
  unfold prekeyLoadPrivate prekeyDelete
  by_cases h : id' = id
  · subst h
    rw [if_pos rfl]
    have hnone : (rows.filter fun r => decide (r.keyId ≠ id')).find? (fun r => r.keyId = id') =
        none :=
      List.find?_eq_none.mpr fun r hr => by simpa using (List.mem_filter.mp hr).2
    rw [hnone]
    rfl
  · rw [if_neg h]
    refine congrArg (Option.map _) ?_
    rw [List.find?_filter]
    refine congrArg (List.find? · rows) (funext fun r => decide_eq_decide.mpr ?_)
    rw [decide_eq_true_iff, decide_eq_true_iff]
    exact ⟨fun hr => hr.2, fun hr => ⟨fun heq => h (hr.symm.trans heq), hr⟩⟩

theorem replaceRecord_sessions (store : Store) (address : List Char) (info : PreKeyMessageInfo)
    (r : SessionRecord) :
    (replaceRecord store address info r).sessions = saveRecord store.sessions address r := by
  unfold replaceRecord
  dsimp only
  split
  · rfl
  · split <;> rfl

/-- No prekey comes back, and the one of the envelope is gone. -/
theorem replaceRecord_prekeys (store : Store) (address : List Char) (info : PreKeyMessageInfo)
    (r : SessionRecord) (id : UInt32)
    (h : prekeyLoadPrivate store.prekeys id = none ∨ info.preKeyId = some id) :
    prekeyLoadPrivate (replaceRecord store address info r).prekeys id = none := by
  unfold replaceRecord
  dsimp only
  cases hid : info.preKeyId with
  | none => exact h.resolve_right fun hsome => nomatch hid.symm.trans hsome
  | some id' =>
      dsimp only
      rcases h with hnone | hsame
      · split
        · show prekeyLoadPrivate (prekeyDelete store.prekeys id') id = none
          rw [prekeyLoadPrivate_delete, hnone, ite_self]
        · exact hnone
      · obtain rfl : id' = id := Option.some.inj (hid.symm.trans hsame)
        split
        · show prekeyLoadPrivate (prekeyDelete store.prekeys id') id' = none
          rw [prekeyLoadPrivate_delete, if_pos rfl]
        · rename_i hfree
          exact Option.not_isSome_iff_eq_none.mp hfree

/-- **A refused envelope leaves the store as it was.** -/
theorem decrypt_none (h : (decryptSignalEnvelope P keys store env fresh).1 = none) :
    decryptSignalEnvelope P keys store env fresh = (none, store) := by
  unfold decryptSignalEnvelope at h ⊢
  split at h
  · rename_i hmsg
    rw [if_pos hmsg]
    cases hstored : storedRecord store env.decryptAddr with
    | none => rfl
    | some r =>
        rw [hstored] at h
        dsimp only at h ⊢
        rcases hread : readRecord P r fresh env.encVersion env.ciphertext with _ | ⟨p, r'⟩
        · rfl
        · rw [hread] at h
          cases h
  · rename_i hmsg
    rw [if_neg hmsg]
    split at h
    · rename_i hpkmsg
      rw [if_pos hpkmsg]
      cases hparse : Signal.parsePreKeyMessage P env.ciphertext with
      | error e => rfl
      | ok info =>
          rw [hparse] at h
          dsimp only at h ⊢
          rcases hexisting : readExisting P store env.decryptAddr info fresh env.encVersion
            with _ | ⟨p, r⟩
          · rw [hexisting] at h
            dsimp only at h ⊢
            rcases hread : readRecord P
              ⟨some (newSession P keys info (loadPrekeyPriv store info.preKeyId)), []⟩ fresh
              env.encVersion info.innerWhisperWire with _ | ⟨p, r⟩
            · rfl
            · rw [hread] at h
              cases h
          · rw [hexisting] at h
            cases h
    · rename_i hpkmsg
      rw [if_neg hpkmsg]

/-- **An accepted envelope** was read by the stored session or by a new one. -/
theorem decrypt_some (h : decryptSignalEnvelope P keys store env fresh = (some p, store')) :
    Continued P store env fresh p store' ∨
      ∃ info, Replaced P keys store env fresh info p store' := by
  unfold decryptSignalEnvelope at h
  split at h
  · rename_i hmsg
    cases hstored : storedRecord store env.decryptAddr with
    | none =>
        rw [hstored] at h
        cases h
    | some r =>
        rw [hstored] at h
        dsimp only at h
        rcases hread : readRecord P r fresh env.encVersion env.ciphertext with _ | ⟨q, r'⟩
        · rw [hread] at h
          cases h
        · rw [hread] at h
          cases h
          exact Or.inl ⟨r, r', _, hstored, hread, rfl, Or.inl ⟨hmsg, rfl⟩⟩
  · split at h
    · rename_i hpkmsg
      cases hparse : Signal.parsePreKeyMessage P env.ciphertext with
      | error e =>
          rw [hparse] at h
          cases h
      | ok info =>
          rw [hparse] at h
          dsimp only at h
          rcases hexisting : readExisting P store env.decryptAddr info fresh env.encVersion
            with _ | ⟨q, r'⟩
          · rw [hexisting] at h
            dsimp only at h
            rcases hread : readRecord P
              ⟨some (newSession P keys info (loadPrekeyPriv store info.preKeyId)), []⟩ fresh
              env.encVersion info.innerWhisperWire with _ | ⟨q, r'⟩
            · rw [hread] at h
              cases h
            · rw [hread] at h
              cases h
              exact Or.inr ⟨info, hpkmsg, hparse, hexisting, r', hread, rfl⟩
          · rw [hexisting] at h
            cases h
            have hread := hexisting
            unfold readExisting at hexisting
            cases hstored : storedRecord store env.decryptAddr with
            | none =>
                rw [hstored] at hexisting
                cases hexisting
            | some r =>
                rw [hstored] at hexisting
                dsimp only at hexisting
                split at hexisting
                · exact Or.inl ⟨r, r', _, hstored, hexisting, rfl,
                    Or.inr ⟨hpkmsg, info, hparse, rfl, hread⟩⟩
                · cases hexisting
    · cases h

/-- A `pkmsg` that is not read by the stored session, and by its own. -/
theorem decrypt_new {info : PreKeyMessageInfo} {r : SessionRecord} (htype : env.encType = "pkmsg")
    (hparse : Signal.parsePreKeyMessage P env.ciphertext = .ok info)
    (hunread : readExisting P store env.decryptAddr info fresh env.encVersion = none)
    (hread : readRecord P ⟨some (newSession P keys info (loadPrekeyPriv store info.preKeyId)), []⟩
      fresh env.encVersion info.innerWhisperWire = some (p, r)) :
    decryptSignalEnvelope P keys store env fresh =
      (some p, replaceRecord store env.decryptAddr info r) := by
  unfold decryptSignalEnvelope
  rw [if_neg (by rw [htype]; decide), if_pos htype, hparse]
  dsimp only
  rw [hunread]
  dsimp only
  rw [hread]

/-- A `pkmsg` that its own session reads is accepted, whatever is stored. -/
theorem decrypt_accepts {info : PreKeyMessageInfo} (htype : env.encType = "pkmsg")
    (hparse : Signal.parsePreKeyMessage P env.ciphertext = .ok info)
    (hread : (readRecord P ⟨some (newSession P keys info (loadPrekeyPriv store info.preKeyId)), []⟩
      fresh env.encVersion info.innerWhisperWire).isSome = true) :
    (decryptSignalEnvelope P keys store env fresh).1.isSome = true := by
  obtain ⟨⟨p, r⟩, hread⟩ := Option.isSome_iff_exists.mp hread
  cases hexisting : readExisting P store env.decryptAddr info fresh env.encVersion with
  | none =>
      rw [decrypt_new htype hparse hexisting hread]
      rfl
  | some found =>
      unfold decryptSignalEnvelope
      rw [if_neg (by rw [htype]; decide), if_pos htype, hparse]
      dsimp only
      rw [hexisting]
      rfl

end Spec

end Ruwa.Session.Decryption
