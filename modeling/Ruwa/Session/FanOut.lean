/-
  File:      Ruwa/Session/FanOut.lean
  Subject:   ONE COPY FOR EVERY DEVICE (`session.rs`, `encrypt_per_device`,
             `parse_prekey_fetch_response`).

  A device with a session is encrypted for under it. For the others the server is asked for keys,
  all at once, and a session is made from each bundle. Both kinds are kept under the text of an
  address and used up by the loop, which saves each session as soon as it has moved on.

  * `encryptPerDeviceSaving` -- the call, with the records that it saved;
    `encryptPerDevice_saving` -- it is `encryptPerDevice` where no save fails;
  * `loop_eq` -- the loop serves the devices in turn from the sessions of their addresses;
  * `one_turn_iff` -- a device is served once exactly when one address of it has sessions, and
    either one of them or one JID;
  * **`complete_iff`** -- every device that can be reached gets one message, and an error leaves no
    session moved on, exactly when the bundles are named like the addresses and no session but the
    first is out of order.
-/
import Ruwa.Library.Turns
import Ruwa.Session.Carry
import Ruwa.Session.RetryReceipt

namespace Ruwa.Session.FanOut

open Ruwa.Library
open Ruwa.Crypto
open Ruwa.Crypto.Signal (SignalPrimitives SignalError SessionState CiphertextMessage)
open Ruwa.Session.Addresses
open Ruwa.Session.Retry
open Ruwa.Session.Carry
open Ruwa.Protocol.Binary (Node Content)

/-! ## 1. The reply -/

/-- Left out unless it is complete. -/
def fetchedOneTimeKey (keysParent : Node) : Option UInt32 × Option (U8Array 32) :=
  match nodeChild keysParent "key" with
  | some opk =>
      match (nodeChildBytes opk "id").bind beU32,
          (nodeChildBytes opk "value").bind (U8Array.ofBytes? 32) with
      | some id, some pub => (some id, some pub)
      | _, _ => (none, none)
  | none => (none, none)

/-- The bundle of a `<user>`; its keys may be wrapped in `<keys>`. -/
def userBundle (user : Node) : Option DevicePrekeyBundle :=
  if (nodeChild user "error").isSome then none
  else do
    let jid ← attr user "jid"
    let registration ← U8Array.ofBytes? 4 (← nodeChildBytes user "registration")
    let keysParent := (nodeChild user "keys").getD user
    let identityPub ← U8Array.ofBytes? 32 (← nodeChildBytes keysParent "identity")
    let skey ← nodeChild keysParent "skey"
    let signedPreKeyId ← beU32 (← nodeChildBytes skey "id")
    let signedPreKeyPub ← U8Array.ofBytes? 32 (← nodeChildBytes skey "value")
    let _ ← U8Array.ofBytes? 64 (← nodeChildBytes skey "signature")
    let (oneTimePreKeyId, oneTimePreKeyPub) := fetchedOneTimeKey keysParent
    return { jid := jid.toList
             registrationId := UInt32.ofNat (fromBE registration.bytes)
             identityPub, signedPreKeyId, signedPreKeyPub, oneTimePreKeyId, oneTimePreKeyPub }

def parsePrekeyFetchResponse (iq : Node) : List DevicePrekeyBundle :=
  match (nodeChild iq "list").map Node.content with
  | some (.nodes users) => (users.filter fun c => c.tag = "user").filterMap userBundle
  | _ => []

/-! ## 2. The call -/

inductive Failure
  | send (e : SendError)
  | save (address : List Char)

/-- What the caller, the server, the random generator and the disk give to one call. -/
structure Sending where
  padded : Bytes
  paddedOwn : Bytes
  ownUser : Option (List Char)
  ask : List (List Char) → Except String Node
  draw : Nat → Draw
  fresh : List Char → U8Array 32
  refuses : List Char → SessionRecord → Bool

/-- Our own other devices get a copy of their own. -/
def Sending.plaintext (s : Sending) (d : List Char) : Bytes :=
  if s.ownUser = some (lidUserPart d) then s.paddedOwn else s.padded

/-- The bundles of the reply, each with the keys that are generated for it. -/
def Sending.fetch (s : Sending) (addresses : List (List Char)) :
    Except String (List (DevicePrekeyBundle × Draw)) :=
  (s.ask addresses).map fun reply =>
    (parsePrekeyFetchResponse reply).mapIdx fun i bundle => (bundle, s.draw i)

/-- A record that was saved, under its address. -/
abbrev Saved := List Char × SessionRecord

section

variable (P : SignalPrimitives) (keys : Retry.DeviceKeys) (s : Sending)

/-- The message for one device, and its session that moved on. -/
def encryptOne (d enc : List Char) (r : SessionRecord) :
    Except Failure (EncryptedRecipient × Saved) :=
  match r.current with
  | none => .error (.send (.noCurrentState enc))
  | some state =>
      match encryptUnder P keys state (s.fresh d) (s.plaintext d) with
      | (.error e, _) => .error (.send (.encrypt e))
      | (.ok message, state) =>
          let record := { r with current := some state }
          if s.refuses enc record then .error (.save enc) else .ok (⟨d, message⟩, enc, record)

/-- The loop; a device without a session is skipped. -/
def encryptTargetsSaving : List (List Char × List Char) → Records → Records →
    Except Failure (List EncryptedRecipient) × List Saved
  | [], _, _ => (.ok [], [])
  | (d, enc) :: targets, existing, bootstrapped =>
      let (found, existing, bootstrapped) := takeRecord existing bootstrapped enc
      match found with
      | none => encryptTargetsSaving targets existing bootstrapped
      | some r =>
          match encryptOne P keys s d enc r with
          | .error e => (.error e, [])
          | .ok (recipient, record) =>
              let (rest, saved) := encryptTargetsSaving targets existing bootstrapped
              (rest.map (recipient :: ·), record :: saved)

/-- Nobody to encrypt for is an error, unless nobody was listed. -/
def orNobody (listed : Nat) : Except Failure (List EncryptedRecipient) × List Saved →
    Except Failure (List EncryptedRecipient) × List Saved
  | (.ok out, saved) =>
      if out = [] ∧ listed ≠ 0 then (.error (.send (.noEncryptableDevices listed)), saved)
      else (.ok out, saved)
  | (.error e, saved) => (.error e, saved)

variable (order : MostRecent) (table : List LidPnRow) (sessionId : String)

/-- `encrypt_per_device`, with what it saved. -/
def encryptPerDeviceSaving (store : SessionStore) (deviceJids : List (List Char)) :
    Except Failure (List EncryptedRecipient) × List Saved :=
  let (targets, store) := encryptionTargets order table sessionId store deviceJids
  match partitionTargets store targets with
  | .error e => (.error (.send e), [])
  | .ok (existing, needsBundle) =>
      match bootstrap P keys s.fetch needsBundle with
      | .error e => (.error (.send e), [])
      | .ok bootstrapped =>
          orNobody targets.length (encryptTargetsSaving P keys s targets existing bootstrapped)

end

/-! ## 3. What the call is for -/

/-- A device by its user, its number and its server. -/
structure Device where
  user : List Char
  number : Nat ⊕ List Char
  server : List Char
  deriving DecidableEq

/-- The agent is no part of it, and the primary device may or may not have its number. -/
def deviceOf (jid : List Char) : Device where
  user := lidUserPart jid
  number :=
    match jidDeviceToken jid with
    | none => .inl 0
    | some token =>
        match Text.parseUint (2 ^ 32) token with
        | some n => .inl n
        | none => .inr token
  server :=
    match Text.rsplitOnce '@' jid with
    | some (_, server) => server
    | none => []

section

variable (order : MostRecent) (table : List LidPnRow) (sessionId : String)

/-- The device that a JID of the list stands for: that of its session. -/
def deviceAt (d : List Char) : Device := deviceOf (canonicalSessionAddress order table sessionId d)

variable (store : SessionStore) (devices : List (List Char))

/-- The store when the copies of every session have been brought together. -/
def gathered : SessionStore := (encryptionTargets order table sessionId store devices).2

/-- The session that an address can be encrypted under. -/
def established (store : SessionStore) (address : List Char) : Option SessionRecord :=
  match store address with
  | some (.record r) => if r.current.isSome then some r else none
  | _ => none

/-- The addresses that keys are asked for. -/
def missing : List (List Char) :=
  (devices.map (canonicalSessionAddress order table sessionId)).filter fun a =>
    !hasCurrent (gathered order table sessionId store devices) a

variable (P : SignalPrimitives) (keys : Retry.DeviceKeys) (s : Sending)

/-- What the server is asked and answers, if there is something to ask. -/
def answer : Except String (List (DevicePrekeyBundle × Draw)) :=
  if missing order table sessionId store devices = [] then .ok []
  else s.fetch (missing order table sessionId store devices)

/-- The bundles that can be used. -/
def given : List (DevicePrekeyBundle × Draw) :=
  (answer order table sessionId store devices s).toOption.getD []

/-- **Whom a message is due**: a device of the list that has a session, or that there is a bundle
    for, however its JID is written. -/
def Due (t : Device) : Prop :=
  ∃ d ∈ devices, deviceAt order table sessionId d = t ∧
    (hasCurrent (gathered order table sessionId store devices)
        (canonicalSessionAddress order table sessionId d) = true ∨
      ∃ p ∈ given order table sessionId store devices s, deviceOf p.1.jid = t)

/-- A session of the device at an address: the one there is, or one from its own bundle. -/
def Own (address : List Char) (r : SessionRecord) : Prop :=
  established (gathered order table sessionId store devices) address = some r ∨
    ∃ p ∈ given order table sessionId store devices s,
      deviceOf p.1.jid = deviceOf address ∧ r = recordFromBundle P keys p.1 p.2

/-- **What the call promises**: one message for every device that it is due, not two for a JID, and
    each under a session of its device; and nothing that is left behind by an error. -/
structure Complete
    (result : Except Failure (List EncryptedRecipient) × List Saved) : Prop where
  once : ∀ out, result.1 = .ok out → ∀ t, Due order table sessionId store devices s t →
    out.countP (fun r => deviceAt order table sessionId r.jid = t) = 1
  single : ∀ out, result.1 = .ok out → ∀ d, out.countP (fun r => r.jid = d) ≤ 1
  own : ∀ out, result.1 = .ok out → ∀ r ∈ out, r.jid ∈ devices ∧ ∃ record state,
    Own order table sessionId store devices P keys s
        (canonicalSessionAddress order table sessionId r.jid) record ∧
      record.current = some state ∧
      (encryptUnder P keys state (s.fresh r.jid) (s.plaintext r.jid)).1 = .ok r.message
  nobody : ∀ n, result.1 = .error (.send (.noEncryptableDevices n)) →
    ∀ t, ¬Due order table sessionId store devices s t
  unsent : ∀ e, result.1 = .error e → result.2 = []

/-! ## 4. The condition -/

/-- What two maps hold for an address. -/
def pile (existing bootstrapped : Records) (address : List Char) : List SessionRecord :=
  (existing address).toList ++ (bootstrapped address).toList

/-- The session from the last bundle that is named by the very address. -/
def lastGiven (address : List Char) : Option SessionRecord :=
  ((given order table sessionId store devices s).reverse.find? fun p => p.1.jid = address).map
    fun p => recordFromBundle P keys p.1 p.2

/-- The sessions for an address, in the order in which they are used. -/
def sessions (address : List Char) : List SessionRecord :=
  pile (established (gathered order table sessionId store devices))
    (lastGiven order table sessionId store devices P keys s) address

/-- A device with the address and the session that it is served from. -/
abbrev Turn := List Char × List Char × SessionRecord

def serve (turn : Turn) : Except Failure (EncryptedRecipient × Saved) :=
  encryptOne P keys s turn.1 turn.2.1 turn.2.2

/-- Who uses which session: the JIDs of the list in turn. -/
def turns : List Turn :=
  dispense (devices.map fun d => (d, canonicalSessionAddress order table sessionId d))
    (sessions order table sessionId store devices P keys s)

/-- Neither a chain to send on, nor one that it could be made from. -/
def Stuck (state : SessionState) : Prop :=
  (state.senderChain = none ∧ state.receiverChains = []) ∨
    (state.senderChain ≠ none ∧ state.senderRatchetPub = none)

/-- A session that cannot be used, or not be saved. -/
def Fails (turn : Turn) : Prop :=
  ∃ state, turn.2.2.current = some state ∧
    (Stuck state ∨ s.refuses turn.2.1
      { turn.2.2 with
        current := some (encryptUnder P keys state (s.fresh turn.1) (s.plaintext turn.1)).2 } =
      true)

/-- The loop is reached. -/
def Reached : Prop :=
  (∀ d ∈ devices, gathered order table sessionId store devices
      (canonicalSessionAddress order table sessionId d) ≠ some .corrupt) ∧
    ∃ replies, answer order table sessionId store devices s = .ok replies

/-- One address of the device has sessions, and one of them is used. -/
structure ServedAt (t : Device) (d : List Char) : Prop where
  listed : d ∈ devices
  device : deviceAt order table sessionId d = t
  reachable : sessions order table sessionId store devices P keys s
    (canonicalSessionAddress order table sessionId d) ≠ []
  only : ∀ d' ∈ devices, deviceAt order table sessionId d' = t →
    sessions order table sessionId store devices P keys s
      (canonicalSessionAddress order table sessionId d') ≠ [] →
    canonicalSessionAddress order table sessionId d' =
      canonicalSessionAddress order table sessionId d
  once : (sessions order table sessionId store devices P keys s
      (canonicalSessionAddress order table sessionId d)).length = 1 ∨
    devices.countP (fun d' => canonicalSessionAddress order table sessionId d' =
      canonicalSessionAddress order table sessionId d) = 1

/-- **The condition**, for a call that reaches the loop: if a session fails, already the first one
    does; and if none does, every device that a message is due is served at one address. -/
structure Orderly : Prop where
  first : (∃ turn ∈ turns order table sessionId store devices P keys s, Fails P keys s turn) →
    ∃ turn, (turns order table sessionId store devices P keys s).head? = some turn ∧
      Fails P keys s turn
  served : (∀ turn ∈ turns order table sessionId store devices P keys s, ¬Fails P keys s turn) →
    ∀ t, Due order table sessionId store devices s t →
      ∃ d, ServedAt order table sessionId store devices P keys s t d

end

/-! ## 5. The parts of the call -/

section Parts

variable {P : SignalPrimitives} {keys : Retry.DeviceKeys} {s : Sending} {order : MostRecent}
  {table : List LidPnRow} {sessionId : String} {store : SessionStore} {devices : List (List Char)}
  {a : List Char} {r : SessionRecord}

theorem encryptionAddress_fst (order : MostRecent) (table : List LidPnRow) (sessionId : String)
    (store : SessionStore) (d : List Char) :
    (encryptionAddress order table sessionId store d).1 =
      canonicalSessionAddress order table sessionId d := by
  unfold encryptionAddress
  dsimp only
  split
  · rfl
  · split
    · rfl
    · cases (withSession order table sessionId store d).head? with
      | none => rfl
      | some src =>
          dsimp only
          split <;> rfl

theorem encryptionTargets_fst (order : MostRecent) (table : List LidPnRow) (sessionId : String)
    (store : SessionStore) (devices : List (List Char)) :
    (encryptionTargets order table sessionId store devices).1 =
      devices.map fun d => (d, canonicalSessionAddress order table sessionId d) := by
  induction devices generalizing store with
  | nil => rfl
  | cons d ds ih =>
      rw [encryptionTargets_cons, encryptionAddress_fst, ih]
      rfl

theorem established_isSome : (established store a).isSome = hasCurrent store a := by
  unfold established hasCurrent
  cases store a with
  | none => rfl
  | some row =>
      cases row with
      | corrupt => rfl
      | record r =>
          dsimp only
          cases r.current <;> rfl

theorem established_current (h : established store a = some r) : r.current.isSome = true := by
  unfold established at h
  split at h
  · split at h
    · cases h
      assumption
    · cases h
  · cases h

/-- The records that were loaded for some addresses. -/
def known (store : SessionStore) : List (List Char) → Records
  | [] => fun _ => none
  | a :: addresses => Function.update (known store addresses) a (established store a)

theorem known_of_mem {addresses : List (List Char)} (h : a ∈ addresses) :
    known store addresses a = established store a := by
  induction addresses with
  | nil => cases h
  | cons b addresses ih =>
      rw [known]
      by_cases hab : a = b
      · rw [hab, Function.update_self]
      · rw [Function.update_of_ne hab]
        exact ih ((List.mem_cons.mp h).resolve_left hab)

/-- Without a session nothing is added. -/
theorem known_cons_none (addresses : List (List Char)) (h : established store a = none) :
    known store (a :: addresses) = known store addresses := by
  refine (congrArg _ h).trans (Function.update_eq_self_iff.mpr ?_)
  induction addresses with
  | nil => rfl
  | cons b addresses ih =>
      rw [known]
      by_cases hab : a = b
      · rw [← hab, Function.update_self, h]
      · rw [Function.update_of_ne hab]
        exact ih

/-- **The partition**, where every row can be read. -/
theorem partitionTargets_eq {targets : List (List Char × List Char)}
    (h : ∀ t ∈ targets, store t.2 ≠ some .corrupt) :
    partitionTargets store targets = .ok (known store (targets.map Prod.snd),
      (targets.map Prod.snd).filter fun a => !hasCurrent store a) := by
  induction targets with
  | nil => rfl
  | cons target targets ih =>
      obtain ⟨d, enc⟩ := target
      have hrest := ih fun t ht => h t (List.mem_cons_of_mem _ ht)
      have hself := h (d, enc) List.mem_cons_self
      rw [List.map_cons, partitionTargets, hrest]
      unfold loadRecord
      cases hrow : store enc with
      | none =>
          have hnone : established store enc = none := by
            unfold established
            rw [hrow]
          rw [known_cons_none _ hnone, List.filter_cons_of_pos (by
            rw [← established_isSome, hnone]
            rfl)]
          rfl
      | some row =>
          cases row with
          | corrupt => exact absurd hrow hself
          | record r =>
              have hfound : established store enc = if r.current.isSome then some r else none := by
                unfold established
                rw [hrow]
              by_cases hcurrent : r.current.isSome = true
              · rw [if_pos hcurrent] at hfound
                rw [known, hfound, List.filter_cons_of_neg (by
                  rw [← established_isSome, hfound]
                  simp)]
                show (if r.current.isSome = true then _ else _) = _
                rw [if_pos hcurrent]
                rfl
              · rw [if_neg hcurrent] at hfound
                rw [known_cons_none _ hfound, List.filter_cons_of_pos (by
                  rw [← established_isSome, hfound]
                  rfl)]
                show (if r.current.isSome = true then _ else _) = _
                rw [if_neg hcurrent]
                rfl

/-- A row that cannot be read ends the call. -/
theorem partitionTargets_corrupt {targets : List (List Char × List Char)}
    (h : ∃ t ∈ targets, store t.2 = some .corrupt) :
    partitionTargets store targets = .error .corrupt := by
  induction targets with
  | nil =>
      obtain ⟨t, ht, -⟩ := h
      cases ht
  | cons target targets ih =>
      obtain ⟨d, enc⟩ := target
      rw [partitionTargets]
      by_cases hself : store enc = some .corrupt
      · unfold loadRecord
        rw [hself]
        rfl
      · have hrest : ∃ t ∈ targets, store t.2 = some .corrupt := by
          obtain ⟨t, ht, hcorrupt⟩ := h
          rcases List.mem_cons.mp ht with rfl | ht
          · exact absurd hcorrupt hself
          · exact ⟨t, ht, hcorrupt⟩
        rw [ih hrest]
        unfold loadRecord
        cases hrow : store enc with
        | none => rfl
        | some row =>
            cases row with
            | corrupt => exact absurd hrow hself
            | record r => rfl

/-- The last bundle of a name counts. -/
theorem foldl_addReply (replies : List (DevicePrekeyBundle × Draw)) (a : List Char) :
    replies.foldl (addReply P keys) (fun _ => none) a =
      (replies.reverse.find? fun p => p.1.jid = a).map fun p =>
        recordFromBundle P keys p.1 p.2 := by
  induction replies using List.reverseRecOn with
  | nil => rfl
  | append_singleton replies p ih =>
      rw [List.foldl_append, List.foldl_cons, List.foldl_nil, List.reverse_append,
        List.reverse_singleton, List.singleton_append, addReply]
      by_cases h : p.1.jid = a
      · rw [← h, Function.update_self, List.find?_cons_of_pos (by simp)]
        rfl
      · rw [Function.update_of_ne (Ne.symm h), List.find?_cons_of_neg (by simpa using h), ih]

theorem takeRecord_pile (existing bootstrapped : Records) (enc : List Char) :
    let parts := takeRecord existing bootstrapped enc
    (parts.1 = none ∧ pile existing bootstrapped enc = [] ∧
        pile parts.2.1 parts.2.2 = pile existing bootstrapped) ∨
      ∃ r rest, parts.1 = some r ∧ pile existing bootstrapped enc = r :: rest ∧
        pile parts.2.1 parts.2.2 = Function.update (pile existing bootstrapped) enc rest := by
  intro parts
  unfold parts takeRecord
  cases hexisting : existing enc with
  | some r =>
      refine Or.inr ⟨r, (bootstrapped enc).toList, rfl, by rw [pile, hexisting]; rfl, ?_⟩
      funext b
      unfold pile
      dsimp only
      by_cases hb : b = enc
      · rw [hb, Function.update_self, Function.update_self]
        rfl
      · rw [Function.update_of_ne hb, Function.update_of_ne hb]
  | none =>
      have hrest : ∀ b, b ≠ enc →
          pile existing (Function.update bootstrapped enc none) b = pile existing bootstrapped b := by
        intro b hb
        unfold pile
        rw [Function.update_of_ne hb]
      have hself : pile existing (Function.update bootstrapped enc none) enc = [] := by
        unfold pile
        rw [hexisting, Function.update_self]
        rfl
      cases hboot : bootstrapped enc with
      | some r =>
          refine Or.inr ⟨r, [], rfl, by rw [pile, hexisting, hboot]; rfl, ?_⟩
          funext b
          by_cases hb : b = enc
          · rw [hb, Function.update_self]
            exact hself
          · rw [Function.update_of_ne hb]
            exact hrest b hb
      | none =>
          have hempty : pile existing bootstrapped enc = [] := by rw [pile, hexisting, hboot]; rfl
          refine Or.inl ⟨rfl, hempty, ?_⟩
          funext b
          by_cases hb : b = enc
          · rw [hb, hempty]
            exact hself
          · exact hrest b hb

/-- **The loop** serves the devices in turn. -/
theorem loop_eq (targets : List (List Char × List Char)) (existing bootstrapped : Records) :
    encryptTargetsSaving P keys s targets existing bootstrapped =
      runTurns (serve P keys s) (dispense targets (pile existing bootstrapped)) := by
  induction targets generalizing existing bootstrapped with
  | nil => rfl
  | cons target targets ih =>
      obtain ⟨d, enc⟩ := target
      rw [encryptTargetsSaving]
      rcases takeRecord_pile existing bootstrapped enc with
        ⟨hfound, hempty, hpile⟩ | ⟨r, rest, hfound, hserved, hpile⟩
      · rw [dispense_empty hempty, ← hpile, ← ih]
        generalize takeRecord existing bootstrapped enc = parts at hfound
        obtain ⟨found, existing', bootstrapped'⟩ := parts
        cases hfound
        rfl
      · rw [dispense_served hserved, ← hpile]
        generalize takeRecord existing bootstrapped enc = parts at hfound
        obtain ⟨found, existing', bootstrapped'⟩ := parts
        cases hfound
        dsimp only
        cases hone : encryptOne P keys s d enc r with
        | error e => rw [runTurns_fails (show serve P keys s (d, enc, r) = .error e from hone)]
        | ok p =>
            rw [runTurns_goes (show serve P keys s (d, enc, r) = .ok p from hone), ← ih]

end Parts

/-! ## 6. One device -/

section One

variable (P : SignalPrimitives) (keys : Retry.DeviceKeys) {s : Sending}

/-- **When a session cannot encrypt**: it has nothing to send on. -/
theorem encrypt_fails_iff (state : SessionState) (fresh : U8Array 32) (plaintext : Bytes) :
    (∃ e, (Signal.encrypt P state fresh plaintext).1 = .error e) ↔ Stuck state := by
  unfold Signal.encrypt Stuck
  cases hchain : state.senderChain with
  | none =>
      simp only [Option.isNone_none, if_true]
      unfold Signal.bobFirstSendStep
      cases hchains : state.receiverChains with
      | nil => simp
      | cons first rest => simp
  | some chain =>
      cases hpub : state.senderRatchetPub with
      | none => simp [hchain, hpub]
      | some pub => simp [hchain, hpub]

theorem encryptUnder_fails_iff (state : SessionState) (fresh : U8Array 32) (plaintext : Bytes) :
    (∃ e, (encryptUnder P keys state fresh plaintext).1 = .error e) ↔ Stuck state := by
  rw [← encrypt_fails_iff P state fresh plaintext]
  unfold encryptUnder
  cases state.pendingPreKey with
  | none => rfl
  | some pp =>
      dsimp only
      unfold Signal.encryptPreKey
      rcases Signal.encrypt P state fresh plaintext with ⟨_ | m, state'⟩
      · rfl
      · simp

variable {P} {keys}

/-- A turn that fails. -/
theorem serve_fails_iff {turn : Turn} (h : turn.2.2.current.isSome = true) :
    (∃ e, serve P keys s turn = .error e) ↔ Fails P keys s turn := by
  obtain ⟨d, enc, r⟩ := turn
  obtain ⟨state, hstate⟩ := Option.isSome_iff_exists.mp h
  have hstuck := encryptUnder_fails_iff P keys state (s.fresh d) (s.plaintext d)
  have hfails : Fails P keys s (d, enc, r) ↔ Stuck state ∨ s.refuses enc { r with
      current := some (encryptUnder P keys state (s.fresh d) (s.plaintext d)).2 } = true := by
    refine ⟨fun ⟨state', hstate', h⟩ => ?_, fun h => ⟨state, hstate, h⟩⟩
    cases hstate.symm.trans hstate'
    exact h
  rw [hfails]
  unfold serve encryptOne
  dsimp only at hstate ⊢
  rw [hstate]
  dsimp only
  generalize encryptUnder P keys state (s.fresh d) (s.plaintext d) = encrypted at hstuck ⊢
  obtain ⟨e | m, state'⟩ := encrypted
  · exact ⟨fun _ => Or.inl (hstuck.mp ⟨e, rfl⟩), fun _ => ⟨_, rfl⟩⟩
  · have hgoes : ¬Stuck state := fun h => by
      obtain ⟨e, he⟩ := hstuck.mpr h
      cases he
    dsimp only
    by_cases hrefuses : s.refuses enc { r with current := some state' } = true
    · rw [if_pos hrefuses]
      exact ⟨fun _ => Or.inr hrefuses, fun _ => ⟨_, rfl⟩⟩
    · rw [if_neg hrefuses]
      exact ⟨fun ⟨_, he⟩ => (nomatch he), fun h => absurd (h.resolve_left hgoes) hrefuses⟩

/-- **What one turn makes**: a message, and the record with the session that moved on. -/
theorem encryptOne_ok {d enc : List Char} {r : SessionRecord} {recipient : EncryptedRecipient}
    {saved : Saved} (h : encryptOne P keys s d enc r = .ok (recipient, saved)) :
    ∃ state state', r.current = some state ∧ recipient.jid = d ∧
      encryptUnder P keys state (s.fresh d) (s.plaintext d) = (.ok recipient.message, state') ∧
      saved = (enc, { r with current := some state' }) := by
  unfold encryptOne at h
  cases hstate : r.current with
  | none =>
      rw [hstate] at h
      cases h
  | some state =>
      rw [hstate] at h
      dsimp only at h
      rcases hunder : encryptUnder P keys state (s.fresh d) (s.plaintext d) with ⟨e | m, state'⟩
      · rw [hunder] at h
        cases h
      · rw [hunder] at h
        dsimp only at h
        split at h
        · cases h
        · cases h
          exact ⟨state, state', rfl, rfl, hunder, rfl⟩

theorem serve_ok {turn : Turn} {recipient : EncryptedRecipient} {saved : Saved}
    (h : serve P keys s turn = .ok (recipient, saved)) :
    recipient.jid = turn.1 ∧ ∃ state, turn.2.2.current = some state ∧
      (encryptUnder P keys state (s.fresh turn.1) (s.plaintext turn.1)).1 =
        .ok recipient.message := by
  obtain ⟨state, state', hstate, hjid, hunder, -⟩ := encryptOne_ok h
  exact ⟨hjid, state, hstate, congrArg Prod.fst hunder⟩

/-- A turn never says that there is nobody. -/
theorem serve_error {turn : Turn} {n : Nat} :
    serve P keys s turn ≠ .error (.send (.noEncryptableDevices n)) := by
  obtain ⟨d, enc, r⟩ := turn
  intro h
  unfold serve encryptOne at h
  dsimp only at h
  split at h
  · cases h
  · split at h
    · cases h
    · split at h <;> cases h

end One

/-! ## 7. The call without failing saves -/

section Refines

variable {P : SignalPrimitives} {keys : Retry.DeviceKeys} {s : Sending} {order : MostRecent}
  {table : List LidPnRow} {sessionId : String} {store : SessionStore} {devices : List (List Char)}

def saveAll (store : SessionStore) (saved : List Saved) : SessionStore :=
  saved.foldl (fun store p => saveRecord store p.1 p.2) store

theorem encryptTargets_saving (P : SignalPrimitives) (keys : Retry.DeviceKeys)
    (hdisk : ∀ a r, s.refuses a r = false) (targets : List (List Char × List Char)) (existing bootstrapped : Records)
    (store : SessionStore) :
    let result := encryptTargetsSaving P keys s targets existing bootstrapped
    let after := encryptTargets P keys s.fresh s.padded s.paddedOwn s.ownUser targets existing
      bootstrapped store
    after.1.mapError .send = result.1 ∧ after.2 = saveAll store result.2 := by
  induction targets generalizing existing bootstrapped store with
  | nil => exact ⟨rfl, rfl⟩
  | cons target targets ih =>
      obtain ⟨d, enc⟩ := target
      intro result after
      have hafter : after = _ := encryptTargets_cons d enc targets existing bootstrapped store
      have hresult : result = _ := encryptTargetsSaving.eq_def ..
      rw [hafter, hresult]
      dsimp only
      generalize takeRecord existing bootstrapped enc = parts
      obtain ⟨_ | r, existing', bootstrapped'⟩ := parts
      · exact ih existing' bootstrapped' store
      · unfold turnWith encryptOne Sending.plaintext
        dsimp only
        cases hcurrent : r.current with
        | none => exact ⟨rfl, rfl⟩
        | some state =>
            dsimp only
            generalize encryptUnder P keys state (s.fresh d)
              (if s.ownUser = some (lidUserPart d) then s.paddedOwn else s.padded) = encrypted
            obtain ⟨e | m, state'⟩ := encrypted
            · exact ⟨rfl, rfl⟩
            · dsimp only
              rw [if_neg (Bool.eq_false_iff.mp (hdisk enc _))]
              have hrest := ih existing' bootstrapped'
                (saveRecord store enc { r with current := some state' })
              dsimp only at hrest ⊢
              generalize encryptTargetsSaving P keys s targets existing' bootstrapped' = rest at hrest ⊢
              generalize encryptTargets P keys s.fresh s.padded s.paddedOwn s.ownUser targets
                existing' bootstrapped' (saveRecord store enc { r with current := some state' }) =
                  restAfter at hrest ⊢
              obtain ⟨hresult, hsaved⟩ := hrest
              obtain ⟨e | out, store'⟩ := restAfter
              · exact ⟨hresult ▸ rfl, hsaved⟩
              · exact ⟨hresult ▸ rfl, hsaved⟩

/-- **Where no save fails** the call is `encryptPerDevice`, and its records are the store's. -/
theorem encryptPerDevice_saving (hdisk : ∀ a r, s.refuses a r = false) (store : SessionStore)
    (devices : List (List Char)) :
    let result := encryptPerDeviceSaving P keys s order table sessionId store devices
    let after := encryptPerDevice P keys order table sessionId s.fetch s.fresh store devices s.padded
      s.paddedOwn s.ownUser
    after.1.mapError .send = result.1 ∧
      after.2 = saveAll (gathered order table sessionId store devices) result.2 := by
  intro result after
  unfold result after encryptPerDeviceSaving encryptPerDevice gathered
  generalize encryptionTargets order table sessionId store devices = gathering
  obtain ⟨targets, store'⟩ := gathering
  dsimp only
  cases partitionTargets store' targets with
  | error e => exact ⟨rfl, rfl⟩
  | ok parts =>
      obtain ⟨existing, needsBundle⟩ := parts
      dsimp only
      cases bootstrap P keys s.fetch needsBundle with
      | error e => exact ⟨rfl, rfl⟩
      | ok bootstrapped =>
          obtain ⟨hresult, hsaved⟩ :=
            encryptTargets_saving P keys hdisk targets existing bootstrapped store'
          dsimp only
          generalize encryptTargetsSaving P keys s targets existing bootstrapped = loop at *
          generalize encryptTargets P keys s.fresh s.padded s.paddedOwn s.ownUser targets existing
            bootstrapped store' = loopAfter at *
          obtain ⟨loop, saved⟩ := loop
          obtain ⟨e | out, store''⟩ := loopAfter
          · cases hresult
            exact ⟨rfl, hsaved⟩
          · cases hresult
            unfold orNobody
            dsimp only
            by_cases hout : out = [] ∧ targets ≠ []
            · rw [if_pos hout, if_pos ⟨hout.1, mt List.length_eq_zero_iff.mp hout.2⟩]
              exact ⟨rfl, hsaved⟩
            · rw [if_neg hout, if_neg fun h => hout ⟨h.1, mt List.length_eq_zero_iff.mpr h.2⟩]
              exact ⟨rfl, hsaved⟩

end Refines

/-! ## 8. Who is served -/

section Served

variable {P : SignalPrimitives} {keys : Retry.DeviceKeys} {s : Sending} {order : MostRecent}
  {table : List LidPnRow} {sessionId : String} {store : SessionStore} {devices : List (List Char)}
  {a d : List Char} {r : SessionRecord} {t : Device} {turn : Turn}

/-- A session from the server is one of a bundle with the address for its name. -/
theorem lastGiven_some (h : lastGiven order table sessionId store devices P keys s a = some r) :
    ∃ p ∈ given order table sessionId store devices s, p.1.jid = a ∧
      r = recordFromBundle P keys p.1 p.2 := by
  obtain ⟨p, hp, hr⟩ := Option.map_eq_some_iff.mp h
  have hname : p.1.jid = a := by simpa using List.find?_some hp
  exact ⟨p, List.mem_reverse.mp (List.mem_of_find?_eq_some hp), hname, hr.symm⟩

theorem mem_sessions (h : r ∈ sessions order table sessionId store devices P keys s a) :
    established (gathered order table sessionId store devices) a = some r ∨
      lastGiven order table sessionId store devices P keys s a = some r := by
  rcases List.mem_append.mp h with h | h
  · exact Or.inl (Option.mem_toList.mp h)
  · exact Or.inr (Option.mem_toList.mp h)

theorem sessions_current (h : r ∈ sessions order table sessionId store devices P keys s a) :
    r.current.isSome = true := by
  rcases mem_sessions h with hold | hnew
  · exact established_current hold
  · obtain ⟨p, -, -, rfl⟩ := lastGiven_some hnew
    rfl

/-- **Every session is the device's own.** -/
theorem sessions_own (h : r ∈ sessions order table sessionId store devices P keys s a) :
    Own order table sessionId store devices P keys s a r := by
  rcases mem_sessions h with hold | hnew
  · exact Or.inl hold
  · obtain ⟨p, hp, hname, hr⟩ := lastGiven_some hnew
    exact Or.inr ⟨p, hp, congrArg deviceOf hname, hr⟩

/-- A device that there is a session for is one that a message is due. -/
theorem sessions_due (hd : d ∈ devices)
    (h : r ∈ sessions order table sessionId store devices P keys s
      (canonicalSessionAddress order table sessionId d)) :
    Due order table sessionId store devices s (deviceAt order table sessionId d) := by
  refine ⟨d, hd, rfl, ?_⟩
  rcases mem_sessions h with hold | hnew
  · rw [← established_isSome, hold]
    exact Or.inl rfl
  · obtain ⟨p, hp, hname, -⟩ := lastGiven_some hnew
    exact Or.inr ⟨p, hp, congrArg deviceOf hname⟩

theorem mem_turns (h : turn ∈ turns order table sessionId store devices P keys s) :
    turn.1 ∈ devices ∧ turn.2.1 = canonicalSessionAddress order table sessionId turn.1 ∧
      turn.2.2 ∈ sessions order table sessionId store devices P keys s turn.2.1 := by
  obtain ⟨hask, hsession⟩ := mem_dispense h
  obtain ⟨d, hd, heq⟩ := List.mem_map.mp hask
  have hfirst : d = turn.1 := congrArg Prod.fst heq
  have hsecond : canonicalSessionAddress order table sessionId d = turn.2.1 :=
    congrArg Prod.snd heq
  rw [hfirst] at hd hsecond
  exact ⟨hd, hsecond.symm, hsession⟩

/-- Whoever has a turn is due a message. -/
theorem turns_due (h : turn ∈ turns order table sessionId store devices P keys s) :
    Due order table sessionId store devices s (deviceAt order table sessionId turn.1) := by
  obtain ⟨hd, haddress, hsession⟩ := mem_turns h
  exact sessions_due hd (haddress ▸ hsession)

theorem exists_turn (hd : d ∈ devices)
    (h : sessions order table sessionId store devices P keys s
      (canonicalSessionAddress order table sessionId d) ≠ []) :
    ∃ turn ∈ turns order table sessionId store devices P keys s,
      turn.2.1 = canonicalSessionAddress order table sessionId d :=
  exists_dispensed (List.mem_map.mpr ⟨d, hd, rfl⟩) h

/-- The turns of an address: one for each of its JIDs, as far as there are sessions. -/
theorem countP_address (a : List Char) :
    (turns order table sessionId store devices P keys s).countP (fun turn => turn.2.1 = a) =
      min (devices.countP fun d => canonicalSessionAddress order table sessionId d = a)
        (sessions order table sessionId store devices P keys s a).length := by
  rw [List.countP_eq_length_filter, turns, length_dispense_at, ← List.countP_eq_length_filter,
    List.countP_map]
  rfl

/-- **A device has one turn** exactly when it is served at one address. -/
theorem one_turn_iff (t : Device) :
    (turns order table sessionId store devices P keys s).countP
        (fun turn => deviceAt order table sessionId turn.1 = t) = 1 ↔
      ∃ d, ServedAt order table sessionId store devices P keys s t d := by
  constructor
  · intro hone
    obtain ⟨turn, hturn⟩ := List.length_eq_one_iff.mp (List.countP_eq_length_filter.symm.trans hone)
    have hself : turn ∈ [turn] := List.mem_singleton.mpr rfl
    rw [← hturn] at hself
    obtain ⟨hmem, hdevice⟩ := List.mem_filter.mp hself
    have hdevice : deviceAt order table sessionId turn.1 = t := of_decide_eq_true hdevice
    obtain ⟨hd, haddress, hsession⟩ := mem_turns hmem
    rw [haddress] at hsession
    refine ⟨turn.1, hd, hdevice, List.ne_nil_of_mem hsession, fun d' hd' hdevice' hsome => ?_, ?_⟩
    · -- the other address would have a turn as well
      obtain ⟨turn', hmem', haddress'⟩ := exists_turn hd' hsome
      obtain ⟨-, hcanonical', -⟩ := mem_turns hmem'
      have hsame : deviceAt order table sessionId turn'.1 = t := by
        rw [← hdevice']
        unfold deviceAt
        rw [← hcanonical', haddress']
      have hfound : turn' ∈ (turns order table sessionId store devices P keys s).filter
          fun turn => deviceAt order table sessionId turn.1 = t :=
        List.mem_filter.mpr ⟨hmem', decide_eq_true hsame⟩
      rw [hturn, List.mem_singleton] at hfound
      rw [← haddress', ← haddress, hfound]
    · have hle : (turns order table sessionId store devices P keys s).countP
          (fun x => x.2.1 = canonicalSessionAddress order table sessionId turn.1) ≤
          (turns order table sessionId store devices P keys s).countP
            fun x => deviceAt order table sessionId x.1 = t := by
        refine List.countP_mono_left fun x hx hat => ?_
        obtain ⟨-, hcanonical, -⟩ := mem_turns hx
        refine decide_eq_true ?_
        rw [← hdevice]
        unfold deviceAt
        rw [← hcanonical, of_decide_eq_true hat]
      rw [countP_address, hone] at hle
      have hsessions := List.length_pos_of_mem hsession
      have hlisted : 0 < devices.countP fun d => canonicalSessionAddress order table sessionId d =
          canonicalSessionAddress order table sessionId turn.1 :=
        List.countP_pos_iff.mpr ⟨turn.1, hd, by simp⟩
      omega
  · intro ⟨d, h⟩
    have hsame : (turns order table sessionId store devices P keys s).countP
        (fun turn => deviceAt order table sessionId turn.1 = t) =
        (turns order table sessionId store devices P keys s).countP
          fun turn => turn.2.1 = canonicalSessionAddress order table sessionId d := by
      refine List.countP_congr fun turn hturn => ?_
      obtain ⟨hd, haddress, hsession⟩ := mem_turns hturn
      rw [decide_eq_true_eq, decide_eq_true_eq, haddress]
      constructor
      · intro hdevice
        exact h.only turn.1 hd hdevice (haddress ▸ List.ne_nil_of_mem hsession)
      · intro heq
        rw [← h.device]
        unfold deviceAt
        rw [heq]
    rw [hsame, countP_address]
    have hsessions := List.length_pos_of_ne_nil h.reachable
    have hlisted : 0 < devices.countP fun d' => canonicalSessionAddress order table sessionId d' =
        canonicalSessionAddress order table sessionId d :=
      List.countP_pos_iff.mpr ⟨d, h.listed, by simp⟩
    rcases h.once with hone | hone
    · omega
    · omega

end Served

/-! ## 9. The whole call -/

section Whole

variable {P : SignalPrimitives} {keys : Retry.DeviceKeys} {s : Sending} {order : MostRecent}
  {table : List LidPnRow} {sessionId : String} {store : SessionStore} {devices : List (List Char)}

/-- The devices with their addresses, and the store that is left. -/
theorem encryptionTargets_eq (order : MostRecent) (table : List LidPnRow) (sessionId : String)
    (store : SessionStore) (devices : List (List Char)) :
    encryptionTargets order table sessionId store devices =
      (devices.map fun d => (d, canonicalSessionAddress order table sessionId d),
        gathered order table sessionId store devices) :=
  Prod.ext (encryptionTargets_fst order table sessionId store devices) rfl

theorem partition_readable
    (h : ∀ d ∈ devices, gathered order table sessionId store devices
      (canonicalSessionAddress order table sessionId d) ≠ some .corrupt) :
    partitionTargets (gathered order table sessionId store devices)
        (devices.map fun d => (d, canonicalSessionAddress order table sessionId d)) =
      .ok (known (gathered order table sessionId store devices)
          (devices.map (canonicalSessionAddress order table sessionId)),
        missing order table sessionId store devices) := by
  have haddresses : (devices.map fun d => (d, canonicalSessionAddress order table sessionId d)).map
      Prod.snd = devices.map (canonicalSessionAddress order table sessionId) := List.map_map
  rw [partitionTargets_eq, haddresses]
  · rfl
  · intro t ht
    obtain ⟨d, hd, rfl⟩ := List.mem_map.mp ht
    exact h d hd

/-- The sessions of the answer, if there is one. -/
theorem bootstrap_answer :
    bootstrap P keys s.fetch (missing order table sessionId store devices) =
      ((answer order table sessionId store devices s).map fun replies =>
        replies.foldl (addReply P keys) fun _ => none).mapError .prekeyFetch := by
  unfold bootstrap answer
  by_cases hnone : missing order table sessionId store devices = []
  · rw [if_pos hnone, if_pos hnone]
    rfl
  · rw [if_neg hnone, if_neg hnone]
    cases s.fetch (missing order table sessionId store devices) with
    | error e => rfl
    | ok replies => rfl

/-- **A call that reaches the loop** lets the devices have their turns. -/
theorem saving_reached (P : SignalPrimitives) (keys : Retry.DeviceKeys)
    (h : Reached order table sessionId store devices s) :
    encryptPerDeviceSaving P keys s order table sessionId store devices =
      orNobody devices.length (runTurns (serve P keys s)
        (turns order table sessionId store devices P keys s)) := by
  obtain ⟨hreadable, replies, hanswer⟩ := h
  have hgiven : given order table sessionId store devices s = replies := by
    unfold given
    rw [hanswer]
    rfl
  have hboot : bootstrap P keys s.fetch (missing order table sessionId store devices) =
      .ok (replies.foldl (addReply P keys) fun _ => none) := by
    rw [bootstrap_answer, hanswer]
    rfl
  rw [encryptPerDeviceSaving, encryptionTargets_eq]
  dsimp only
  rw [partition_readable hreadable]
  dsimp only
  rw [hboot]
  dsimp only
  rw [List.length_map, loop_eq, turns]
  refine congrArg _ (congrArg _ (dispense_congr fun ask hask => ?_))
  obtain ⟨d, hd, rfl⟩ := List.mem_map.mp hask
  unfold sessions pile lastGiven
  rw [known_of_mem (List.mem_map_of_mem hd), hgiven, foldl_addReply]

/-- A call that does not stops before anything is saved. -/
theorem saving_unreached (P : SignalPrimitives) (keys : Retry.DeviceKeys)
    (h : ¬Reached order table sessionId store devices s) :
    ∃ e, encryptPerDeviceSaving P keys s order table sessionId store devices =
        (.error (.send e), []) ∧
      ∀ n, e ≠ .noEncryptableDevices n := by
  rw [encryptPerDeviceSaving, encryptionTargets_eq]
  dsimp only
  by_cases hreadable : ∀ d ∈ devices, gathered order table sessionId store devices
      (canonicalSessionAddress order table sessionId d) ≠ some .corrupt
  · rw [partition_readable hreadable]
    dsimp only
    rw [bootstrap_answer]
    cases hanswer : answer order table sessionId store devices s with
    | error e => exact ⟨.prekeyFetch e, rfl, fun n hn => (nomatch hn)⟩
    | ok replies => exact absurd ⟨hreadable, replies, hanswer⟩ h
  · have hcorrupt : ∃ t ∈ devices.map fun d =>
        (d, canonicalSessionAddress order table sessionId d),
        gathered order table sessionId store devices t.2 = some .corrupt := by
      simp only [not_forall, not_not] at hreadable
      obtain ⟨d, hd, hrow⟩ := hreadable
      exact ⟨_, List.mem_map.mpr ⟨d, hd, rfl⟩, hrow⟩
    rw [partitionTargets_corrupt hcorrupt]
    exact ⟨.corrupt, rfl, fun n hn => (nomatch hn)⟩

/-- The messages are for the JIDs of the turns. -/
theorem jids_of_run {ts : List Turn} {out : List EncryptedRecipient}
    (h : (runTurns (serve P keys s) ts).1 = .ok out) :
    out.map (fun r => r.jid) = ts.map fun turn => turn.1 := by
  have hturns := runTurns_ok h
  clear h
  induction hturns with
  | nil => rfl
  | cons hturn _ ih =>
      obtain ⟨note, hturn⟩ := hturn
      rw [List.map_cons, List.map_cons, ih, (serve_ok hturn).1]

theorem countP_jids {ts : List Turn} {out : List EncryptedRecipient}
    (h : (runTurns (serve P keys s) ts).1 = .ok out) (p : List Char → Bool) :
    out.countP (p ∘ fun r => r.jid) = ts.countP (p ∘ fun turn => turn.1) := by
  rw [← List.countP_map, ← List.countP_map, jids_of_run h]

/-- **One message for every device** comes to one turn for every device. -/
theorem once_iff {out : List EncryptedRecipient}
    (h : (runTurns (serve P keys s) (turns order table sessionId store devices P keys s)).1 =
      .ok out) (t : Device) :
    out.countP (fun r => deviceAt order table sessionId r.jid = t) = 1 ↔
      ∃ d, ServedAt order table sessionId store devices P keys s t d := by
  rw [← one_turn_iff t]
  exact iff_of_eq (congrArg (fun n => n = 1)
    (countP_jids h fun d => decide (deviceAt order table sessionId d = t)))

/-- Two messages for one JID would be two for its device. -/
theorem single_of_once {out : List EncryptedRecipient}
    (h : (runTurns (serve P keys s) (turns order table sessionId store devices P keys s)).1 =
      .ok out)
    (honce : ∀ t, Due order table sessionId store devices s t →
      out.countP (fun r => deviceAt order table sessionId r.jid = t) = 1) (d : List Char) :
    out.countP (fun r => r.jid = d) ≤ 1 := by
  by_cases hnone : out.countP (fun r => r.jid = d) = 0
  · omega
  · obtain ⟨r, hr, hjid⟩ := List.countP_pos_iff.mp (Nat.pos_of_ne_zero hnone)
    have hjid : r.jid = d := of_decide_eq_true hjid
    have hmem : r.jid ∈ out.map fun r => r.jid := List.mem_map_of_mem hr
    rw [jids_of_run h] at hmem
    obtain ⟨turn, hturn, hwire⟩ := List.mem_map.mp hmem
    have hdue := turns_due hturn
    rw [hwire, hjid] at hdue
    calc out.countP (fun r => r.jid = d)
        ≤ out.countP fun r => deviceAt order table sessionId r.jid =
            deviceAt order table sessionId d :=
          List.countP_mono_left fun r _ hd => decide_eq_true (by rw [of_decide_eq_true hd])
      _ = 1 := honce _ hdue
      _ ≤ 1 := Nat.le_refl 1

/-- **Each message is under a session of its device.** -/
theorem own_of_run {out : List EncryptedRecipient}
    (h : (runTurns (serve P keys s) (turns order table sessionId store devices P keys s)).1 =
      .ok out) {r : EncryptedRecipient} (hr : r ∈ out) :
    r.jid ∈ devices ∧ ∃ record state,
      Own order table sessionId store devices P keys s
          (canonicalSessionAddress order table sessionId r.jid) record ∧
        record.current = some state ∧
        (encryptUnder P keys state (s.fresh r.jid) (s.plaintext r.jid)).1 = .ok r.message := by
  obtain ⟨turn, hturn, note, hserved⟩ := Signal.forall₂_mem_right (runTurns_ok h) hr
  obtain ⟨hd, haddress, hsession⟩ := mem_turns hturn
  obtain ⟨hjid, state, hstate, hmessage⟩ := serve_ok hserved
  rw [hjid]
  exact ⟨hd, turn.2.2, state, haddress ▸ sessions_own hsession, hstate, hmessage⟩

/-- In a run that comes to its end no session fails. -/
theorem none_fails {out : List EncryptedRecipient}
    (h : (runTurns (serve P keys s) (turns order table sessionId store devices P keys s)).1 =
      .ok out) :
    ∀ turn ∈ turns order table sessionId store devices P keys s, ¬Fails P keys s turn := by
  intro turn hturn hfails
  obtain ⟨p, hok⟩ := runTurns_all h hturn
  obtain ⟨e, herror⟩ := (serve_fails_iff (sessions_current (mem_turns hturn).2.2)).mpr hfails
  cases hok.symm.trans herror

/-- In one that does not some session does. -/
theorem some_fails {e : Failure}
    (h : (runTurns (serve P keys s) (turns order table sessionId store devices P keys s)).1 =
      .error e) :
    ∃ turn ∈ turns order table sessionId store devices P keys s, Fails P keys s turn := by
  obtain ⟨turn, hturn, herror⟩ := runTurns_error h
  exact ⟨turn, hturn, (serve_fails_iff (sessions_current (mem_turns hturn).2.2)).mp ⟨e, herror⟩⟩

/-- **Nothing is left behind by an error** exactly when the first session fails. -/
theorem unsent_iff {e : Failure}
    (h : (runTurns (serve P keys s) (turns order table sessionId store devices P keys s)).1 =
      .error e) :
    (runTurns (serve P keys s) (turns order table sessionId store devices P keys s)).2 = [] ↔
      ∃ turn, (turns order table sessionId store devices P keys s).head? = some turn ∧
        Fails P keys s turn := by
  rw [runTurns_notes]
  constructor
  · intro hfirst
    obtain ⟨turn, hturn, -⟩ := some_fails h
    obtain ⟨first, hhead⟩ := Option.isSome_iff_exists.mp
      (List.isSome_head?.mpr (List.ne_nil_of_mem hturn))
    exact ⟨first, hhead, (serve_fails_iff (sessions_current
      (mem_turns (List.mem_of_mem_head? hhead)).2.2)).mp (hfirst first hhead)⟩
  · intro ⟨first, hhead, hfails⟩ turn hturn
    cases hhead.symm.trans hturn
    exact (serve_fails_iff (sessions_current (mem_turns (List.mem_of_mem_head? hhead)).2.2)).mpr
      hfails

theorem turns_nil_of_run
    (h : (runTurns (serve P keys s) (turns order table sessionId store devices P keys s)).1 =
      .ok []) : turns order table sessionId store devices P keys s = [] :=
  List.map_eq_nil_iff.mp (jids_of_run h).symm

theorem orderly_of_complete
    (h : Complete order table sessionId store devices P keys s
      (encryptPerDeviceSaving P keys s order table sessionId store devices))
    (hreached : Reached order table sessionId store devices s) :
    Orderly order table sessionId store devices P keys s := by
  rw [saving_reached P keys hreached] at h
  rcases hrun : runTurns (serve P keys s) (turns order table sessionId store devices P keys s) with
    ⟨e | out, saved⟩
  · rw [hrun] at h
    have hnotes := h.unsent e rfl
    have hfirst := (unsent_iff (congrArg Prod.fst hrun)).mp ((congrArg Prod.snd hrun).trans hnotes)
    obtain ⟨turn, hturn, hfails⟩ := some_fails (congrArg Prod.fst hrun)
    exact ⟨fun _ => hfirst, fun hnone => absurd hfails (hnone turn hturn)⟩
  · have hok := congrArg Prod.fst hrun
    refine ⟨fun ⟨turn, hturn, hfails⟩ => absurd hfails (none_fails hok turn hturn),
      fun _ t hdue => ?_⟩
    rw [hrun] at h
    unfold orNobody at h
    dsimp only at h
    by_cases hnobody : out = [] ∧ devices.length ≠ 0
    · rw [if_pos hnobody] at h
      exact absurd hdue (h.nobody _ rfl t)
    · rw [if_neg hnobody] at h
      exact (once_iff hok t).mp (h.once out rfl t hdue)

theorem complete_of_orderly
    (horderly : Reached order table sessionId store devices s →
      Orderly order table sessionId store devices P keys s) :
    Complete order table sessionId store devices P keys s
      (encryptPerDeviceSaving P keys s order table sessionId store devices) := by
  by_cases hreached : Reached order table sessionId store devices s
  · have h := horderly hreached
    rw [saving_reached P keys hreached]
    rcases hrun : runTurns (serve P keys s)
      (turns order table sessionId store devices P keys s) with ⟨e | out, saved⟩
    · have herror := congrArg Prod.fst hrun
      have hnotes := (unsent_iff herror).mpr (h.first (some_fails herror))
      rw [hrun] at hnotes
      obtain ⟨turn, -, hturn⟩ := runTurns_error herror
      exact ⟨nofun, nofun, nofun, fun n hn => by
        cases hn
        exact absurd hturn serve_error, fun _ _ => hnotes⟩
    · have hok := congrArg Prod.fst hrun
      have hserved := h.served (none_fails hok)
      unfold orNobody
      dsimp only
      by_cases hnobody : out = [] ∧ devices.length ≠ 0
      · rw [if_pos hnobody]
        obtain ⟨rfl, -⟩ := hnobody
        have hnil := turns_nil_of_run hok
        refine ⟨nofun, nofun, nofun, fun n _ t hdue => ?_, fun _ _ => ?_⟩
        · obtain ⟨d, hd⟩ := hserved t hdue
          obtain ⟨turn, hturn, -⟩ := exists_turn hd.listed hd.reachable
          rw [hnil] at hturn
          cases hturn
        · rw [hnil] at hrun
          cases hrun
          rfl
      · rw [if_neg hnobody]
        have honce : ∀ t, Due order table sessionId store devices s t →
            out.countP (fun r => deviceAt order table sessionId r.jid = t) = 1 :=
          fun t hdue => (once_iff hok t).mpr (hserved t hdue)
        refine ⟨fun out' hout => ?_, fun out' hout => ?_, fun out' hout => ?_, nofun, nofun⟩
        · cases hout
          exact honce
        · cases hout
          exact single_of_once hok honce
        · cases hout
          exact fun r hr => own_of_run hok hr
  · obtain ⟨e, hresult, hsome⟩ := saving_unreached P keys hreached
    rw [hresult]
    refine ⟨nofun, nofun, nofun, fun n hn => ?_, fun _ _ => rfl⟩
    cases hn
    exact absurd rfl (hsome n)

end Whole

/-- **One copy for every device**, for every list of JIDs, every store, every answer of the server
    and whatever saves fail. -/
theorem complete_iff (P : SignalPrimitives) (keys : Retry.DeviceKeys) (order : MostRecent)
    (table : List LidPnRow) (sessionId : String) (s : Sending) (store : SessionStore)
    (devices : List (List Char)) :
    Complete order table sessionId store devices P keys s
        (encryptPerDeviceSaving P keys s order table sessionId store devices) ↔
      (Reached order table sessionId store devices s →
        Orderly order table sessionId store devices P keys s) :=
  ⟨orderly_of_complete, complete_of_orderly⟩

namespace Sample

open Signal.Known
open Retry.Sample

def leaf (tag : String) (b : Bytes) : Node := .mk tag .empty (.bytes b)

/-- The keys of the primary device, under a JID. -/
def reply (jid : String) : Node :=
  .mk "iq" .empty (.nodes [.mk "list" .empty (.nodes [.mk "user" (SortedMap.empty.insert "jid" jid)
    (.nodes [leaf "registration" [0, 0, 0, 9], leaf "identity" bobIdPub.bytes,
      .mk "skey" .empty (.nodes [leaf "id" [0, 0, 1], leaf "value" bobSpkPub.bytes,
        leaf "signature" (List.replicate 64 0)])])])])

def companion : List Char := "64000000000003.1:5@lid".toList

/-- The server names the device without its agent; nothing can be saved for the companion. -/
def sending : Sending where
  padded := hi
  paddedOwn := hi
  ownUser := none
  ask _ := .ok (reply "64000000000003@lid")
  draw _ := ⟨aliceBase, ratchet₁⟩
  fresh _ := ratchet₃
  refuses a _ := a = companion

/-- Sessions for the primary device and for the companion. -/
def store : SessionStore :=
  saveRecord (saveRecord (fun _ => none) byAgent.jid ⟨some alice, []⟩) companion ⟨some alice, []⟩

/-- A call for one device without a session, and one for two with one. -/
def alone : Except Failure (List EncryptedRecipient) × List Saved :=
  encryptPerDeviceSaving primitives ours sending (.byInsertion _) [] "s" (fun _ => none)
    [byAgent.jid]
def both : Except Failure (List EncryptedRecipient) × List Saved :=
  encryptPerDeviceSaving primitives ours sending (.byInsertion _) [] "s" store
    [byAgent.jid, companion]

end Sample

/-- The keys of a device are not used if its JID is written another way; and a session that moved on
    is saved, though its message is thrown away with the one that comes after it. -/
theorem keys_passed_over :
    ¬Complete (.byInsertion _) [] "s" (fun _ => none) [Retry.Sample.byAgent.jid]
        Signal.Known.primitives Retry.Sample.ours Sample.sending Sample.alone ∧
      ¬Complete (.byInsertion _) [] "s" Sample.store [Retry.Sample.byAgent.jid, Sample.companion]
        Signal.Known.primitives Retry.Sample.ours Sample.sending Sample.both := by
  constructor
  · intro h
    have herror : Sample.alone.1 = .error (.send (.noEncryptableDevices 1)) := by rfl
    have hgiven : (given (.byInsertion _) [] "s" (fun _ => none) [Retry.Sample.byAgent.jid]
        Sample.sending).any (fun p => deviceOf p.1.jid = deviceOf Retry.Sample.byAgent.jid) =
          true := by decide +kernel
    obtain ⟨p, hp, hdevice⟩ := List.any_eq_true.mp hgiven
    exact h.nobody 1 herror (deviceOf Retry.Sample.byAgent.jid)
      ⟨_, List.mem_cons_self, rfl, Or.inr ⟨p, hp, of_decide_eq_true hdevice⟩⟩
  · intro h
    have herror : Sample.both.1.isOk = false := by decide +kernel
    have hsaved : Sample.both.2.isEmpty = false := by decide +kernel
    cases hboth : Sample.both.1 with
    | ok out =>
        rw [hboth] at herror
        cases herror
    | error e =>
        rw [h.unsent e hboth] at hsaved
        cases hsaved

end Ruwa.Session.FanOut
