/-
  File:      Ruwa/Session/Replay.lean
  Subject:   AN ENVELOPE THAT COMES AGAIN (`session.rs`, `decrypt_signal_envelope`,
             `consume_prekey`), after any run of envelopes and sends.

  A message of the stored session was opened with a key that the session no longer has. A `pkmsg`
  can be read without the stored session, though, under a session from its own keys: what stands
  against that is the one-time prekey, which is part of the keys and gone. An envelope without one
  gets the same session again, and that takes the place of the session that was stored.

  * `Inv` -- each receiver chain of the store is in step with a window of what it has left to open,
    and what the accepted envelopes took is gone from all windows;
  * `inv_continued`, `inv_replaced`, `inv_send` -- the steps that keep it, `inv_step` all of them;
  * `safe_of_inv`, `proper_of_safe` -- the two directions for one state;
  * **`replay_safe_iff`** -- in every state of a run no accepted envelope is accepted again, exactly
    when each new session of the run is from an envelope that names a stored one-time prekey.
-/
import Ruwa.Crypto.SignalWindow
import Ruwa.Library.Run
import Ruwa.Session.Carry
import Ruwa.Session.Envelope

namespace Ruwa.Session.Replay

open Ruwa.Library
open Ruwa.Crypto
open Ruwa.Crypto.Signal (SignalPrimitives SessionState ReceiverChain WhisperMessage
  PreKeyMessageInfo MAX_SKIPPED_MESSAGE_KEYS Takes OpensOn keysAt)
open Ruwa.Session.Addresses (SessionStore SessionRecord saveRecord)
open Ruwa.Session.Carry (sessionAt Carries SameReceiving)
open Ruwa.Session.Decryption
open Ruwa.Session.Prekeys (PrekeyRow prekeyLoadPrivate prekeyDelete)
open Ruwa.Session.Retry (DevicePrekeyBundle Draw encryptPerDevice)

/-! ## 1. Runs of a login -/

/-- A call of `encrypt_per_device`, with what the rest of the program gives to it. -/
structure Call where
  order : MostRecent
  table : List LidPnRow
  sessionId : String
  fetch : List (List Char) → Except String (List (DevicePrekeyBundle × Draw))
  fresh : List Char → U8Array 32
  deviceJids : List (List Char)
  padded : Bytes
  paddedOwn : Bytes
  ownUser : Option (List Char)

inductive Event
  | present (env : Envelope) (fresh : U8Array 32)
  | send (call : Call)

/-- What a receiver chain was derived from: the keys of an envelope and the one-time prekey with
    this id, or the root and the sender key of a session at its ratchet step with this number. -/
inductive Derivation
  | x3dh (identity base ratchet : U8Array 32) (opk : Option UInt32)
  | step (number : Nat)
  deriving DecidableEq

structure Chain where
  derivation : Derivation
  localId : U8Array 32
  remoteId : U8Array 32
  key : U8Array 32
  deriving DecidableEq

/-- The store of a login, the envelopes that it accepted, and the receiver chains that it has ever
    stored. -/
structure World where
  store : Store
  accepted : List Envelope
  made : List Chain

section

variable (P : SignalPrimitives) (keys : Decryption.DeviceKeys)

/-- The message of an envelope. -/
def wireOf (env : Envelope) : Option Bytes :=
  if env.encType = "msg" then some env.ciphertext
  else if env.encType = "pkmsg" then
    match Signal.parsePreKeyMessage P env.ciphertext with
    | .error _ => none
    | .ok info => some info.innerWhisperWire
  else none

/-- The chain that the stored session adds for a message, if it steps. -/
def storedChains (number : Nat) (store : Store) (env : Envelope) (fresh : U8Array 32) :
    List Chain :=
  match sessionAt store.sessions env.decryptAddr, wireOf P env with
  | some s, some wire => (Signal.createdBy P s (.decrypt fresh wire)).map fun key =>
      ⟨.step number, s.localIdentityPub, s.remoteIdentityPub, key⟩
  | _, _ => []

/-- The id of the one-time prekey that is used, if there is a row for it. -/
def usedPrekey (store : Store) (info : PreKeyMessageInfo) : Option UInt32 :=
  if (loadPrekeyPriv store info.preKeyId).isSome then info.preKeyId else none

/-- The chain of a session from the envelope's own keys. -/
def newChains (store : Store) (info : PreKeyMessageInfo) : List Chain :=
  (newSession P keys info (loadPrekeyPriv store info.preKeyId)).receiverChains.map fun rc =>
    ⟨.x3dh info.identityKeyPub info.baseKeyPub info.innerRatchetPub (usedPrekey store info),
      keys.identityPub, info.identityKeyPub, rc.chainKey.key⟩

def ownChains (store : Store) (env : Envelope) : List Chain :=
  if env.encType = "pkmsg" then
    match Signal.parsePreKeyMessage P env.ciphertext with
    | .error _ => []
    | .ok info => newChains P keys store info
  else []

/-- The chains besides the stored ones that an envelope is tried on. -/
def tried (w : World) (env : Envelope) (fresh : U8Array 32) : List Chain :=
  storedChains P w.made.length w.store env fresh ++ ownChains P keys w.store env

/-- The stored session does not read the envelope, a session of its own does. -/
def Renews (store : Store) (env : Envelope) (fresh : U8Array 32) (info : PreKeyMessageInfo) :
    Prop :=
  env.encType = "pkmsg" ∧ Signal.parsePreKeyMessage P env.ciphertext = .ok info ∧
    readExisting P store env.decryptAddr info fresh env.encVersion = none ∧
    (readRecord P ⟨some (newSession P keys info (loadPrekeyPriv store info.preKeyId)), []⟩ fresh
      env.encVersion info.innerWhisperWire).isSome = true

/-- The chains that an accepted envelope adds. -/
def madeBy (w : World) (env : Envelope) (fresh : U8Array 32) : List Chain :=
  if env.encType = "pkmsg" then
    match Signal.parsePreKeyMessage P env.ciphertext with
    | .error _ => []
    | .ok info =>
        match readExisting P w.store env.decryptAddr info fresh env.encVersion with
        | some _ => storedChains P w.made.length w.store env fresh
        | none => newChains P keys w.store info
  else storedChains P w.made.length w.store env fresh

def step (w : World) : Event → Option World
  | .present env fresh =>
      match decryptSignalEnvelope P keys w.store env fresh with
      | (none, store) => some { w with store }
      | (some _, store) => some ⟨store, env :: w.accepted, w.made ++ madeBy P keys w env fresh⟩
  | .send c => some { w with store := { w.store with
      sessions := (encryptPerDevice P keys.toDeviceKeys c.order c.table c.sessionId c.fetch c.fresh
        w.store.sessions c.deviceJids c.padded c.paddedOwn c.ownUser).2 } }

/-- A new login has no sessions. -/
def start (prekeys : List PrekeyRow) : World := ⟨⟨fun _ => none, prekeys⟩, [], []⟩

/-- **No envelope that was accepted is accepted again**, and the store stays as it is. -/
def Safe (w : World) : Prop :=
  ∀ env ∈ w.accepted, ∀ fresh, decryptSignalEnvelope P keys w.store env fresh = (none, w.store)

/-- **The condition**: an envelope that gets a session of its own names a stored prekey. -/
def Proper (w : World) : Event → Prop
  | .present env fresh => ∀ info, Renews P keys w.store env fresh info →
      (loadPrekeyPriv w.store info.preKeyId).isSome = true
  | .send _ => True

/-- The MAC of a message verifies with the key at this position of a chain. -/
def Verifies (c : Chain) (j : Nat) (m : WhisperMessage) : Prop :=
  (Signal.computeMessageMac P (keysAt P c.key j).macKey c.remoteId c.localId m.body).bytes.take
    Signal.MAC_TRUNCATION_BYTES = m.mac

/-- No chain of the run is further than this: a message moves it on by the limit at most. -/
def World.far (w : World) : Nat := (MAX_SKIPPED_MESSAGE_KEYS + 1) * w.accepted.length

/-- What ideal primitives promise about the messages that were accepted. Of the chains that were
    stored, and the ones that it would be tried on now, the MAC of such a message verifies on those
    of one derivation only, and at one position. -/
def Ideal (w : World) : Prop :=
  ∀ env ∈ w.accepted, ∀ fresh wire m, wireOf P env = some wire →
    Signal.parseWire P wire = .ok m →
    ∀ a ∈ w.made ++ tried P keys w env fresh, ∀ b ∈ w.made ++ tried P keys w env fresh,
    ∀ i j, i ≤ w.far + MAX_SKIPPED_MESSAGE_KEYS → j ≤ w.far + MAX_SKIPPED_MESSAGE_KEYS →
      Verifies P a i m → Verifies P b j m → a.derivation = b.derivation ∧ i = j

end

/-! ## 2. The invariant -/

/-- What a chain has left to open, under what it was derived from. -/
abbrev Window := Derivation × SkipWindow

/-- A receiver chain of a session is one of the chains that were made, with this window left. -/
def Reads (P : SignalPrimitives) (made : List Chain) (far : Nat) (s : SessionState)
    (rc : ReceiverChain) (e : Window) : Prop :=
  ∃ c ∈ made, c.derivation = e.1 ∧ c.localId = s.localIdentityPub ∧
    c.remoteId = s.remoteIdentityPub ∧ Signal.Stands P c.key e.2 rc ∧ e.2.next ≤ far

/-- An accepted envelope took a position, which no window has left. -/
def Spent (P : SignalPrimitives) (w : World) (ws : List Char → List Window) (env : Envelope) :
    Prop :=
  ∃ wire m, wireOf P env = some wire ∧ Signal.parseWire P wire = .ok m ∧
    ∃ c ∈ w.made, ∃ j ≤ w.far + MAX_SKIPPED_MESSAGE_KEYS, Verifies P c j m ∧
      ∀ a, ∀ e ∈ ws a, e.1 = c.derivation → e.2.Seen j

/-- **The invariant of a login.** -/
structure Inv (P : SignalPrimitives) (w : World) (ws : List Char → List Window) : Prop where
  aligned : ∀ a s, sessionAt w.store.sessions a = some s →
    List.Forall₂ (Reads P w.made w.far s) s.receiverChains (ws a)
  absent : ∀ a, sessionAt w.store.sessions a = none → ws a = []
  distinct : ∀ a, ((ws a).map Prod.fst).Nodup
  apart : ∀ a b e e', e ∈ ws a → e' ∈ ws b → e.1 = e'.1 → a = b
  steps : ∀ c ∈ w.made, ∀ n, c.derivation = .step n → n < w.made.length
  used : ∀ c ∈ w.made, ∀ i b r opk, c.derivation = .x3dh i b r opk →
    ∃ id, opk = some id ∧ prekeyLoadPrivate w.store.prekeys id = none
  spent : ∀ env ∈ w.accepted, Spent P w ws env

section Parts

variable {P : SignalPrimitives} {made made' : List Chain} {far far' : Nat} {s s' : SessionState}

theorem Reads.mono {rc : ReceiverChain} {e : Window} (h : Reads P made far s rc e)
    (hmade : ∀ c ∈ made, c ∈ made') (hfar : far ≤ far')
    (hlocal : s'.localIdentityPub = s.localIdentityPub)
    (hremote : s'.remoteIdentityPub = s.remoteIdentityPub) : Reads P made' far' s' rc e := by
  obtain ⟨c, hc, hderivation, hlocal', hremote', hstands, hnext⟩ := h
  exact ⟨c, hmade c hc, hderivation, hlocal'.trans hlocal.symm, hremote'.trans hremote.symm,
    hstands, Nat.le_trans hnext hfar⟩

/-- A window is under the derivation of a chain that was made. -/
theorem derivation_made {rcs : List ReceiverChain} {entries : List Window}
    (h : List.Forall₂ (Reads P made far s) rcs entries) {e : Window} (he : e ∈ entries) :
    ∃ c ∈ made, c.derivation = e.1 := by
  obtain ⟨rc, -, c, hc, hderivation, -⟩ := Signal.forall₂_mem_right h he
  exact ⟨c, hc, hderivation⟩

theorem verifies_of_opens {c : Chain} {j : Nat} {m : WhisperMessage}
    (h : (Signal.openWith P c.localId c.remoteId (keysAt P c.key j) m).isOk = true) :
    Verifies P c j m := by
  unfold Signal.openWith at h
  dsimp only at h
  split at h
  · cases h
  · rename_i hmac
    exact not_not.mp hmac

/-- **A message that opens** verifies at a position that its window had left, and takes it. -/
theorem opens_reads {entries : List Window} {m : WhisperMessage} {plaintext : Bytes} {idx : Nat}
    (h : List.Forall₂ (Reads P made far s) s.receiverChains entries)
    (hopens : OpensOn P s m plaintext idx s') :
    ∃ c ∈ made, ∃ w w' j, entries[idx]? = some (c.derivation, w) ∧ Takes w j w' ∧
      w.next ≤ far ∧ Verifies P c j m ∧
      List.Forall₂ (Reads P made (far + (MAX_SKIPPED_MESSAGE_KEYS + 1)) s') s'.receiverChains
        (entries.set idx (c.derivation, w')) := by
  obtain ⟨rc, rc', hrc, hchain, rfl⟩ := hopens.chain
  obtain ⟨⟨d, w⟩, hw, c, hc, rfl, hlocal, hremote, hstands, hnext⟩ :=
    Signal.forall₂_getElem? h hrc
  obtain ⟨j, w', htakes, hstands', hopen⟩ := Signal.onChain_ok hstands hchain
  rw [← hlocal, ← hremote] at hopen
  refine ⟨c, hc, w, w', j, hw, htakes, hnext, verifies_of_opens hopen, ?_⟩
  refine Signal.forall₂_set ?_ idx ⟨c, hc, rfl, hlocal, hremote, hstands', ?_⟩
  · exact h.imp fun _ _ hreads => hreads.mono (fun _ hc => hc) (Nat.le_add_right _ _) rfl rfl
  · exact Nat.le_trans htakes.next (Nat.add_le_add_right hnext _)

end Parts

/-! ## 3. One accepted envelope -/

section Accept

variable {P : SignalPrimitives} {w : World} {ws : List Char → List Window} {env : Envelope}

/-- What the windows of one address are after an envelope: new ones, and old ones that have seen no
    less; one of them has taken the position of the message, and had not before. -/
structure Took (P : SignalPrimitives) (w : World) (old entries : List Window) (new : List Chain)
    (wire : Bytes) (m : WhisperMessage) : Prop where
  distinct : (entries.map Prod.fst).Nodup
  later : ∀ e ∈ entries, (∀ c ∈ w.made, c.derivation ≠ e.1) ∨
    ∃ e₀ ∈ old, e₀.1 = e.1 ∧ ∀ i, e₀.2.Seen i → e.2.Seen i
  parsed : Signal.parseWire P wire = .ok m
  spent : ∃ e ∈ entries, ∃ c ∈ w.made ++ new, c.derivation = e.1 ∧
    ∃ j ≤ w.far + MAX_SKIPPED_MESSAGE_KEYS, Verifies P c j m ∧ e.2.Seen j ∧
      ((∃ c₀ ∈ w.made, c₀.derivation = e.1) → ∃ e₀ ∈ old, e₀.1 = e.1 ∧ ¬e₀.2.Seen j)

theorem far_accept (w : World) (store : Store) (env : Envelope) (made : List Chain) :
    (⟨store, env :: w.accepted, made⟩ : World).far = w.far + (MAX_SKIPPED_MESSAGE_KEYS + 1) :=
  Nat.mul_succ _ _

/-- **An accepted envelope keeps the invariant**, if it has taken its position. -/
theorem Inv.accept (h : Inv P w ws) {store' : Store} {s' : SessionState} {entries : List Window}
    {new : List Chain} {wire : Bytes} {m : WhisperMessage} (hwire : wireOf P env = some wire)
    (htook : Took P w (ws env.decryptAddr) entries new wire m)
    (hat : sessionAt store'.sessions env.decryptAddr = some s')
    (hother : ∀ a, a ≠ env.decryptAddr →
      sessionAt store'.sessions a = sessionAt w.store.sessions a)
    (haligned : List.Forall₂
      (Reads P (w.made ++ new) (w.far + (MAX_SKIPPED_MESSAGE_KEYS + 1)) s')
      s'.receiverChains entries)
    (hsteps : ∀ c ∈ new, ∀ n, c.derivation = .step n → n < (w.made ++ new).length)
    (hused : ∀ c ∈ new, ∀ i b r opk, c.derivation = .x3dh i b r opk →
      ∃ id, opk = some id ∧ prekeyLoadPrivate store'.prekeys id = none)
    (hprekeys : ∀ id, prekeyLoadPrivate w.store.prekeys id = none →
      prekeyLoadPrivate store'.prekeys id = none) :
    Inv P ⟨store', env :: w.accepted, w.made ++ new⟩
      (Function.update ws env.decryptAddr entries) := by
  generalize hws' : Function.update ws env.decryptAddr entries = ws'
  have hself : ws' env.decryptAddr = entries := by rw [← hws', Function.update_self]
  have hrest : ∀ a, a ≠ env.decryptAddr → ws' a = ws a := fun a ha => by
    rw [← hws', Function.update_of_ne ha]
  -- A window elsewhere is under another derivation.
  have hapart : ∀ b e e', b ≠ env.decryptAddr → e ∈ entries → e' ∈ ws b → e.1 ≠ e'.1 := by
    intro b e e' hb he he' heq
    rcases htook.later e he with hnew | ⟨e₀, he₀, htag, -⟩
    · cases hs : sessionAt w.store.sessions b with
      | none =>
          rw [h.absent b hs] at he'
          cases he'
      | some s =>
          obtain ⟨c, hc, hderivation⟩ := derivation_made (h.aligned b s hs) he'
          exact hnew c hc (hderivation.trans heq.symm)
    · exact hb (h.apart b env.decryptAddr e' e₀ he' he₀ (heq.symm.trans htag.symm))
  refine ⟨?_, ?_, ?_, ?_, ?_, ?_, ?_⟩
  · intro a s hs
    by_cases ha : a = env.decryptAddr
    · subst ha
      cases hat.symm.trans hs
      rw [hself, far_accept]
      exact haligned
    · rw [hrest a ha, far_accept]
      exact (h.aligned a s ((hother a ha).symm.trans hs)).imp fun _ _ hreads =>
        hreads.mono (fun c hc => List.mem_append_left _ hc) (Nat.le_add_right _ _) rfl rfl
  · intro a hs
    by_cases ha : a = env.decryptAddr
    · subst ha
      cases hat.symm.trans hs
    · rw [hrest a ha]
      exact h.absent a ((hother a ha).symm.trans hs)
  · intro a
    by_cases ha : a = env.decryptAddr
    · subst ha
      rw [hself]
      exact htook.distinct
    · rw [hrest a ha]
      exact h.distinct a
  · intro a b e e' he he' heq
    by_cases ha : a = env.decryptAddr <;> by_cases hb : b = env.decryptAddr
    · rw [ha, hb]
    · rw [ha, hself] at he
      rw [hrest b hb] at he'
      exact absurd heq (hapart b e e' hb he he')
    · rw [hrest a ha] at he
      rw [hb, hself] at he'
      exact absurd heq.symm (hapart a e' e ha he' he)
    · rw [hrest a ha] at he
      rw [hrest b hb] at he'
      exact h.apart a b e e' he he' heq
  · intro c hc n hn
    rcases List.mem_append.mp hc with hc | hc
    · exact Nat.lt_of_lt_of_le (h.steps c hc n hn) (by rw [List.length_append]; omega)
    · exact hsteps c hc n hn
  · intro c hc i b r opk hx
    rcases List.mem_append.mp hc with hc | hc
    · obtain ⟨id, hid, hnone⟩ := h.used c hc i b r opk hx
      exact ⟨id, hid, hprekeys id hnone⟩
    · exact hused c hc i b r opk hx
  · intro env' henv
    rcases List.mem_cons.mp henv with rfl | henv
    · obtain ⟨e, he, c, hc, htag, j, hj, hverifies, hseen, -⟩ := htook.spent
      refine ⟨wire, m, hwire, htook.parsed, c, hc, j, ?_, hverifies, fun a e' he' heq => ?_⟩
      · rw [far_accept]
        omega
      · by_cases ha : a = env'.decryptAddr
        · rw [ha, hself] at he'
          obtain rfl : e' = e :=
            List.inj_on_of_nodup_map htook.distinct he' he (heq.trans htag)
          exact hseen
        · rw [hrest a ha] at he'
          exact absurd (htag.symm.trans heq.symm) (hapart a e e' ha he he')
    · obtain ⟨wire', m', hwire', hparse', c, hc, j, hj, hverifies, hseen⟩ := h.spent env' henv
      refine ⟨wire', m', hwire', hparse', c, List.mem_append_left _ hc, j, ?_, hverifies,
        fun a e' he' heq => ?_⟩
      · rw [far_accept]
        omega
      · by_cases ha : a = env.decryptAddr
        · rw [ha, hself] at he'
          rcases htook.later e' he' with hnew | ⟨e₀, he₀, htag, hkept⟩
          · exact absurd heq.symm (hnew c hc)
          · exact hkept j (hseen env.decryptAddr e₀ he₀ (htag.trans heq))
        · rw [hrest a ha] at he'
          exact hseen a e' he' heq

/-- A message that opens on one of the chains takes its position. -/
theorem took_of_opens {s s' : SessionState} (old : List Window) {entries : List Window}
    {new : List Chain} {wire plaintext : Bytes} {m : WhisperMessage} {idx : Nat}
    (haligned : List.Forall₂ (Reads P (w.made ++ new) w.far s) s.receiverChains entries)
    (hdistinct : (entries.map Prod.fst).Nodup)
    (hlater : ∀ e ∈ entries, (∀ c ∈ w.made, c.derivation ≠ e.1) ∨ e ∈ old)
    (hparse : Signal.parseWire P wire = .ok m) (hopens : OpensOn P s m plaintext idx s') :
    ∃ entries', Took P w old entries' new wire m ∧
      List.Forall₂ (Reads P (w.made ++ new) (w.far + (MAX_SKIPPED_MESSAGE_KEYS + 1)) s')
        s'.receiverChains entries' := by
  obtain ⟨c, hc, before, after, j, hentry, htakes, hnext, hverifies, haligned'⟩ :=
    opens_reads haligned hopens
  obtain ⟨hidx, -⟩ := List.getElem?_eq_some_iff.mp hentry
  refine ⟨_, ⟨?_, fun e he => ?_, hparse, ?_⟩, haligned'⟩
  · rw [Signal.map_fst_set hentry]
    exact hdistinct
  · rcases List.mem_or_eq_of_mem_set he with hsame | rfl
    · exact (hlater e hsame).imp_right fun hold => ⟨e, hold, rfl, fun _ hi => hi⟩
    · refine (hlater _ (List.mem_of_getElem? hentry)).imp_right fun hold => ?_
      exact ⟨_, hold, rfl, fun i hi => (htakes.seen i).mpr (Or.inr hi)⟩
  · refine ⟨_, List.mem_set hidx _, c, hc, rfl, j, Nat.le_trans htakes.near
      (Nat.add_le_add_right hnext _), hverifies, (htakes.seen j).mpr (Or.inl rfl), ?_⟩
    rintro ⟨c₀, hc₀, htag⟩
    rcases hlater _ (List.mem_of_getElem? hentry) with hnew | hold
    · exact absurd htag (hnew c₀ hc₀)
    · exact ⟨_, hold, rfl, htakes.unseen⟩

/-- **What an accepted envelope took cannot be taken again.** -/
theorem Inv.not_took (h : Inv P w ws) {keys : Decryption.DeviceKeys} (hideal : Ideal P keys w)
    (henv : env ∈ w.accepted) (fresh : U8Array 32) {entries : List Window} {new : List Chain}
    {wire : Bytes} {m : WhisperMessage} (hwire : wireOf P env = some wire)
    (hnew : ∀ c ∈ new, c ∈ tried P keys w env fresh) :
    ¬Took P w (ws env.decryptAddr) entries new wire m := by
  intro htook
  obtain ⟨wire', m', hwire', hparse, c₀, hc₀, j₀, hj₀, hverifies₀, hseen⟩ := h.spent env henv
  cases hwire.symm.trans hwire'
  cases htook.parsed.symm.trans hparse
  obtain ⟨e, he, c, hc, htag, j, hj, hverifies, -, hunseen⟩ := htook.spent
  have hc : c ∈ w.made ++ tried P keys w env fresh :=
    List.mem_append.mpr ((List.mem_append.mp hc).imp_right (hnew c))
  obtain ⟨hsame, rfl⟩ := hideal env henv fresh wire m hwire hparse c₀
    (List.mem_append_left _ hc₀) c hc j₀ j hj₀ hj hverifies₀ hverifies
  obtain ⟨e₀, he₀, htag₀, hfree⟩ := hunseen ⟨c₀, hc₀, hsame.trans htag⟩
  exact hfree (hseen env.decryptAddr e₀ he₀ (htag₀.trans (htag.symm.trans hsame.symm)))

/-- No chain has the number of the next step. -/
theorem Inv.step_new (h : Inv P w ws) : ∀ c ∈ w.made, c.derivation ≠ .step w.made.length :=
  fun c hc heq => Nat.lt_irrefl _ (h.steps c hc _ heq)

/-- **A message of the stored session**, with the chain that it adds. -/
theorem Inv.opened (h : Inv P w ws) {s s' : SessionState} {fresh : U8Array 32}
    {wire plaintext : Bytes}
    (hs : sessionAt w.store.sessions env.decryptAddr = some s)
    (hwire : wireOf P env = some wire)
    (hdecrypt : Signal.decrypt P s fresh wire = (.ok plaintext, s')) :
    ∃ m entries, Took P w (ws env.decryptAddr) entries
        (storedChains P w.made.length w.store env fresh) wire m ∧
      List.Forall₂ (Reads P (w.made ++ storedChains P w.made.length w.store env fresh)
        (w.far + (MAX_SKIPPED_MESSAGE_KEYS + 1)) s') s'.receiverChains entries ∧
      ∀ c ∈ storedChains P w.made.length w.store env fresh, c.derivation = .step w.made.length := by
  obtain ⟨m, hparse, hopens⟩ := Signal.decrypt_ok hdecrypt
  have hchains : storedChains P w.made.length w.store env fresh =
      (Signal.createdBy P s (.decrypt fresh wire)).map fun key =>
        ⟨.step w.made.length, s.localIdentityPub, s.remoteIdentityPub, key⟩ := by
    unfold storedChains
    rw [hs, hwire]
  have hstep : ∀ c ∈ storedChains P w.made.length w.store env fresh,
      c.derivation = .step w.made.length := by
    intro c hc
    rw [hchains] at hc
    obtain ⟨key, -, rfl⟩ := List.mem_map.mp hc
    rfl
  rcases hopens with ⟨idx, -, hon⟩ | ⟨hnone, key, stepped, hstepped, hon⟩
  · have haligned : List.Forall₂ (Reads P (w.made ++ storedChains P w.made.length w.store env fresh)
        w.far s) s.receiverChains (ws env.decryptAddr) := (h.aligned _ s hs).imp fun _ _ hreads =>
      hreads.mono (fun c hc => List.mem_append_left _ hc) (Nat.le_refl _) rfl rfl
    obtain ⟨entries, htook, haligned'⟩ := took_of_opens _ haligned (h.distinct _)
      (fun e he => Or.inr he) hparse hon
    exact ⟨m, entries, htook, haligned', hstep⟩
  · -- The session steps: the new chain goes in front, and the oldest may go.
    rw [hstepped.created hparse hnone] at hchains
    rw [hchains] at hstep ⊢
    let new : Chain := ⟨.step w.made.length, s.localIdentityPub, s.remoteIdentityPub, key⟩
    let front : Window := (.step w.made.length, .start)
    have hold : List.Forall₂ (Reads P (w.made ++ [new]) w.far stepped) s.receiverChains
        (ws env.decryptAddr) := (h.aligned _ s hs).imp fun _ _ hreads =>
      hreads.mono (fun c hc => List.mem_append_left _ hc) (Nat.le_refl _) hstepped.localId
        hstepped.remoteId
    have haligned : List.Forall₂ (Reads P (w.made ++ [new]) w.far stepped) stepped.receiverChains
        ((front :: ws env.decryptAddr).take Signal.MAX_RECEIVER_CHAINS) := by
      rw [hstepped.chains]
      refine List.forall₂_take _ (.cons ?_ hold)
      exact ⟨new, List.mem_append_right _ (List.mem_singleton_self new), rfl,
        hstepped.localId.symm, hstepped.remoteId.symm, .start, Nat.zero_le _⟩
    have hfront : Derivation.step w.made.length ∉ (ws env.decryptAddr).map Prod.fst := by
      intro hmem
      obtain ⟨e, he, heq⟩ := List.mem_map.mp hmem
      obtain ⟨c, hc, hderivation⟩ := derivation_made (h.aligned _ s hs) he
      exact h.step_new c hc (hderivation.trans heq)
    obtain ⟨entries, htook, haligned'⟩ := took_of_opens (ws env.decryptAddr) haligned
      (((List.nodup_cons.mpr ⟨hfront, h.distinct _⟩ :
        ((front :: ws env.decryptAddr).map Prod.fst).Nodup)).sublist
          ((List.take_sublist _ _).map _))
      (fun e he => by
        rcases List.mem_cons.mp (List.mem_of_mem_take he) with rfl | hmem
        · exact Or.inl h.step_new
        · exact Or.inr hmem) hparse hon
    exact ⟨m, entries, htook, haligned', hstep⟩

end Accept

/-! ## 4. One step -/

section Step

variable {P : SignalPrimitives} {keys : Decryption.DeviceKeys} {w : World}
  {ws : List Char → List Window} {env : Envelope} {fresh : U8Array 32} {p : Bytes} {store' : Store}

theorem sessionAt_stored {r : SessionRecord} (h : storedRecord w.store env.decryptAddr = some r) :
    sessionAt w.store.sessions env.decryptAddr = r.current := by
  unfold sessionAt
  rw [storedRecord_some.mp h]
  rfl

theorem sessionAt_saved (sessions : SessionStore) (address a : List Char) (r : SessionRecord) :
    sessionAt (saveRecord sessions address r) a =
      if a = address then r.current else sessionAt sessions a := by
  unfold saveRecord
  rw [Carry.sessionAt_update]
  rfl

/-- What an envelope that the stored session reads comes down to. -/
theorem continued_session (keys : Decryption.DeviceKeys)
    (h : Continued P w.store env fresh p store') :
    ∃ s s' padded wire r, sessionAt w.store.sessions env.decryptAddr = some s ∧
      wireOf P env = some wire ∧ Signal.decrypt P s fresh wire = (.ok padded, s') ∧
      store' = w.store.save env.decryptAddr r ∧ r.current = some s' ∧
      madeBy P keys w env fresh = storedChains P w.made.length w.store env fresh := by
  obtain ⟨r, r', wire, hstored, hread, hstore, htype⟩ := h.read
  obtain ⟨s, padded, s', hcurrent, hdecrypt, -, rfl⟩ := readRecord_some.mp hread
  refine ⟨s, s', padded, wire, _, (sessionAt_stored hstored).trans hcurrent, ?_, hdecrypt, hstore,
    rfl, ?_⟩
  · unfold wireOf
    rcases htype with ⟨hmsg, rfl⟩ | ⟨hpkmsg, info, hparse, rfl, -⟩
    · rw [if_pos hmsg]
    · rw [if_neg (by rw [hpkmsg]; decide), if_pos hpkmsg, hparse]
  · unfold madeBy
    rcases htype with ⟨hmsg, -⟩ | ⟨hpkmsg, info, hparse, -, hexisting⟩
    · rw [if_neg (by rw [hmsg]; decide)]
    · rw [if_pos hpkmsg, hparse]
      dsimp only
      rw [hexisting]

/-- **A message of the stored session** keeps the invariant. -/
theorem inv_continued (h : Inv P w ws) (hcontinued : Continued P w.store env fresh p store') :
    ∃ ws', Inv P ⟨store', env :: w.accepted, w.made ++ madeBy P keys w env fresh⟩ ws' := by
  obtain ⟨s, s', padded, wire, r, hs, hwire, hdecrypt, rfl, hcurrent, hmade⟩ :=
    continued_session keys hcontinued
  obtain ⟨m, entries, htook, haligned, hstep⟩ := h.opened hs hwire hdecrypt
  rw [hmade]
  refine ⟨_, h.accept hwire htook ?_ (fun a ha => ?_) haligned ?_ ?_ fun _ hnone => hnone⟩
  · exact (sessionAt_saved _ _ _ _).trans (by rw [if_pos rfl, hcurrent])
  · exact (sessionAt_saved _ _ _ _).trans (if_neg ha)
  · intro c hc n hn
    cases (hstep c hc).symm.trans hn
    rw [List.length_append]
    exact Nat.lt_add_of_pos_right (List.length_pos_of_mem hc)
  · intro c hc i b x opk hx
    cases (hstep c hc).symm.trans hx

theorem usedPrekey_some {info : PreKeyMessageInfo} {id : UInt32}
    (h : usedPrekey w.store info = some id) :
    info.preKeyId = some id ∧ prekeyLoadPrivate w.store.prekeys id ≠ none := by
  unfold usedPrekey at h
  split at h
  · rename_i hstored
    unfold loadPrekeyPriv at hstored
    rw [h, Option.bind_some] at hstored
    exact ⟨h, Option.isSome_iff_ne_none.mp hstored⟩
  · cases h

/-- **A message of a new session**, which has one chain, under a derivation that no chain had. -/
theorem Inv.renewed {info : PreKeyMessageInfo} (h : Inv P w ws)
    (hreplaced : Replaced P keys w.store env fresh info p store') :
    ∃ r s' m entries, store' = replaceRecord w.store env.decryptAddr info r ∧
      r.current = some s' ∧ wireOf P env = some info.innerWhisperWire ∧
      madeBy P keys w env fresh = newChains P keys w.store info ∧
      ownChains P keys w.store env = newChains P keys w.store info ∧
      Took P w (ws env.decryptAddr) entries (newChains P keys w.store info)
        info.innerWhisperWire m ∧
      List.Forall₂ (Reads P (w.made ++ newChains P keys w.store info)
        (w.far + (MAX_SKIPPED_MESSAGE_KEYS + 1)) s') s'.receiverChains entries ∧
      ∀ c ∈ newChains P keys w.store info, c.derivation = .x3dh info.identityKeyPub
        info.baseKeyPub info.innerRatchetPub (usedPrekey w.store info) := by
  obtain ⟨htype, hparse, hunread, r, hread, rfl⟩ := hreplaced
  obtain ⟨s, padded, s', hcurrent, hdecrypt, -, rfl⟩ := readRecord_some.mp hread
  cases hcurrent
  obtain ⟨key, hchains, hlocal, hremote⟩ := Signal.processBob_chain P
    (bobParameters keys info (loadPrekeyPriv w.store info.preKeyId))
  let tag : Derivation :=
    .x3dh info.identityKeyPub info.baseKeyPub info.innerRatchetPub (usedPrekey w.store info)
  let new : Chain := ⟨tag, keys.identityPub, info.identityKeyPub, key⟩
  have hnew : newChains P keys w.store info = [new] := by
    unfold newChains newSession
    rw [hchains]
    rfl
  have htag : ∀ c ∈ w.made, c.derivation ≠ tag := by
    intro c hc heq
    obtain ⟨id, hid, hnone⟩ := h.used c hc _ _ _ _ heq
    exact (usedPrekey_some hid).2 hnone
  obtain ⟨m, hm, hopens⟩ := Signal.processBob_decrypt hdecrypt
    fun m hm => Signal.ratchetPub_of_parse hparse hm
  have haligned : List.Forall₂ (Reads P (w.made ++ [new]) w.far
      (newSession P keys info (loadPrekeyPriv w.store info.preKeyId)))
      (newSession P keys info (loadPrekeyPriv w.store info.preKeyId)).receiverChains
      [(tag, .start)] := by
    unfold newSession
    rw [hchains]
    exact .cons ⟨new, List.mem_append_right _ (List.mem_singleton_self new), rfl, hlocal.symm,
      hremote.symm, .start, Nat.zero_le _⟩ .nil
  obtain ⟨entries, htook, haligned'⟩ := took_of_opens (ws env.decryptAddr) haligned
    (List.nodup_singleton _) (fun e he => Or.inl (by
      rw [List.mem_singleton.mp he]
      exact htag)) hm hopens
  refine ⟨_, s', m, entries, rfl, rfl, ?_, ?_, ?_, hnew ▸ htook, hnew ▸ haligned', ?_⟩
  · unfold wireOf
    rw [if_neg (by rw [htype]; decide), if_pos htype, hparse]
  · unfold madeBy
    rw [if_pos htype, hparse]
    dsimp only
    rw [hunread]
  · unfold ownChains
    rw [if_pos htype, hparse]
  · intro c hc
    rw [hnew] at hc
    cases List.mem_singleton.mp hc
    rfl

/-- **A new session** keeps the invariant, if its envelope names a stored prekey. -/
theorem inv_replaced {info : PreKeyMessageInfo} (h : Inv P w ws)
    (hreplaced : Replaced P keys w.store env fresh info p store')
    (hprekey : (loadPrekeyPriv w.store info.preKeyId).isSome = true) :
    ∃ ws', Inv P ⟨store', env :: w.accepted, w.made ++ madeBy P keys w env fresh⟩ ws' := by
  obtain ⟨r, s', m, entries, rfl, hcurrent, hwire, hmade, -, htook, haligned, htag⟩ :=
    h.renewed hreplaced
  obtain ⟨id, hid⟩ : ∃ id, info.preKeyId = some id := by
    cases hnone : info.preKeyId with
    | none =>
        rw [hnone] at hprekey
        cases hprekey
    | some id => exact ⟨id, rfl⟩
  rw [hmade]
  refine ⟨_, h.accept hwire htook ?_ (fun a ha => ?_) haligned (fun c hc n hn => ?_)
    (fun c hc i b x opk hx => ?_) fun id' hnone => replaceRecord_prekeys _ _ _ _ _ (Or.inl hnone)⟩
  · rw [replaceRecord_sessions, sessionAt_saved, if_pos rfl, hcurrent]
  · rw [replaceRecord_sessions, sessionAt_saved, if_neg ha]
  · cases (htag c hc).symm.trans hn
  · cases (htag c hc).symm.trans hx
    refine ⟨id, ?_, replaceRecord_prekeys _ _ _ _ _ (Or.inr hid)⟩
    unfold usedPrekey
    rw [if_pos hprekey, hid]

/-- The windows of a store whose sessions come from these addresses. -/
def carried (source : List Char → List Char) (ws : List Char → List Window)
    (sessions : SessionStore) (a : List Char) : List Window :=
  match sessionAt sessions a with
  | none => []
  | some s => if s.receiverChains = [] then [] else ws (source a)

theorem mem_carried {source : List Char → List Char} {sessions : SessionStore} {a : List Char}
    {e : Window} (he : e ∈ carried source ws sessions a) :
    e ∈ ws (source a) ∧ ∃ s, sessionAt sessions a = some s ∧ s.receiverChains ≠ [] := by
  unfold carried at he
  cases hs : sessionAt sessions a with
  | none =>
      rw [hs] at he
      cases he
  | some s =>
      rw [hs] at he
      dsimp only at he
      by_cases hnil : s.receiverChains = []
      · rw [if_pos hnil] at he
        cases he
      · rw [if_neg hnil] at he
        exact ⟨he, s, rfl, hnil⟩

/-- **A send** keeps the invariant: the windows go with their sessions. -/
theorem inv_send (h : Inv P w ws) {sessions : SessionStore}
    (hcarries : Carries w.store.sessions sessions) :
    ∃ ws', Inv P { w with store := { w.store with sessions } } ws' := by
  obtain ⟨source, hfrom⟩ := hcarries
  refine ⟨carried source ws sessions, ?_, ?_, ?_, ?_, h.steps, h.used, ?_⟩
  · intro a s' hs'
    unfold carried
    rw [hs']
    dsimp only
    by_cases hnil : s'.receiverChains = []
    · rw [if_pos hnil, hnil]
      exact .nil
    · rw [if_neg hnil]
      obtain ⟨s, hs, hsame, -⟩ := hfrom.source hs' hnil
      rw [hsame.chains]
      exact (h.aligned _ s hs).imp fun _ _ hreads =>
        hreads.mono (fun _ hc => hc) (Nat.le_refl _) hsame.localId hsame.remoteId
  · intro a hs'
    unfold carried
    rw [hs']
  · intro a
    unfold carried
    cases sessionAt sessions a with
    | none => exact List.nodup_nil
    | some s =>
        dsimp only
        split
        · exact List.nodup_nil
        · exact h.distinct _
  · intro a b e e' he he' heq
    obtain ⟨he, s, hs, hnil⟩ := mem_carried he
    obtain ⟨he', s', hs', hnil'⟩ := mem_carried he'
    exact hfrom.apart a b s s' hs hs' hnil hnil' (h.apart _ _ e e' he he' heq)
  · intro env henv
    obtain ⟨wire, m, hwire, hparse, c, hc, j, hj, hverifies, hseen⟩ := h.spent env henv
    exact ⟨wire, m, hwire, hparse, c, hc, j, hj, hverifies,
      fun a e he heq => hseen _ e (mem_carried he).1 heq⟩

theorem renews_of_replaced {info : PreKeyMessageInfo}
    (h : Replaced P keys w.store env fresh info p store') :
    Renews P keys w.store env fresh info := by
  obtain ⟨r, hread, -⟩ := h.read
  exact ⟨h.encType, h.parsed, h.unread, by rw [hread]; rfl⟩

theorem step_refused {store : Store}
    (h : decryptSignalEnvelope P keys w.store env fresh = (none, store)) :
    step P keys w (.present env fresh) = some w := by
  have hsame := decrypt_none (congrArg Prod.fst h)
  unfold step
  dsimp only
  rw [hsame]

theorem step_accepted (h : decryptSignalEnvelope P keys w.store env fresh = (some p, store')) :
    step P keys w (.present env fresh) =
      some ⟨store', env :: w.accepted, w.made ++ madeBy P keys w env fresh⟩ := by
  unfold step
  dsimp only
  rw [h]

/-- **Every step that meets the condition** keeps the invariant. -/
theorem inv_step {e : Event} {w' : World} (h : Inv P w ws) (hproper : Proper P keys w e)
    (hstep : step P keys w e = some w') : ∃ ws', Inv P w' ws' := by
  cases e with
  | present env fresh =>
      rcases hdecrypt : decryptSignalEnvelope P keys w.store env fresh with ⟨_ | p, store'⟩
      · cases (step_refused hdecrypt).symm.trans hstep
        exact ⟨ws, h⟩
      · cases (step_accepted hdecrypt).symm.trans hstep
        rcases decrypt_some hdecrypt with hcontinued | ⟨info, hreplaced⟩
        · exact inv_continued h hcontinued
        · exact inv_replaced h hreplaced (hproper info (renews_of_replaced hreplaced))
  | send c =>
      cases hstep
      exact inv_send h (Carry.encryptPerDevice_carries ..)

theorem inv_start (prekeys : List PrekeyRow) : Inv P (start prekeys) fun _ => [] where
  aligned _ _ hs := nomatch hs
  absent _ _ := rfl
  distinct _ := List.nodup_nil
  apart _ _ _ _ he := nomatch he
  steps _ hc := nomatch hc
  used _ hc := nomatch hc
  spent _ henv := nomatch henv

/-- **A state of the invariant is safe**, if the primitives are ideal there. -/
theorem safe_of_inv (h : Inv P w ws) (hideal : Ideal P keys w) : Safe P keys w := by
  intro env henv fresh
  rcases hdecrypt : decryptSignalEnvelope P keys w.store env fresh with ⟨_ | p, store'⟩
  · rw [← hdecrypt]
    exact decrypt_none (congrArg Prod.fst hdecrypt)
  · exfalso
    rcases decrypt_some hdecrypt with hcontinued | ⟨info, hreplaced⟩
    · obtain ⟨s, s', padded, wire, r, hs, hwire, hopen, -, -, -⟩ :=
        continued_session keys hcontinued
      obtain ⟨m, entries, htook, -, -⟩ := h.opened hs hwire hopen
      exact h.not_took hideal henv fresh hwire (fun c hc => List.mem_append_left _ hc) htook
    · obtain ⟨r, s', m, entries, -, -, hwire, -, hown, htook, -, -⟩ := h.renewed hreplaced
      refine h.not_took hideal henv fresh hwire (fun c hc => ?_) htook
      exact List.mem_append_right _ (hown ▸ hc)

/-- **A step to a safe state meets the condition**: what a new session without a prekey has read,
    the same session reads again. -/
theorem proper_of_safe {e : Event} {w' : World} (hstep : step P keys w e = some w')
    (hsafe : Safe P keys w') : Proper P keys w e := by
  cases e with
  | send c => exact trivial
  | present env fresh =>
      rintro info ⟨htype, hparse, hunread, hread⟩
      by_contra hnone
      rw [Option.not_isSome_iff_eq_none] at hnone
      obtain ⟨⟨p, r⟩, hr⟩ := Option.isSome_iff_exists.mp hread
      cases (step_accepted (decrypt_new htype hparse hunread hr)).symm.trans hstep
      have hrefused := hsafe env List.mem_cons_self fresh
      -- The prekey that was not there has not come.
      have hgone : loadPrekeyPriv (replaceRecord w.store env.decryptAddr info r) info.preKeyId =
          none := by
        cases hid : info.preKeyId with
        | none => rfl
        | some id => exact replaceRecord_prekeys _ _ _ _ _ (Or.inr hid)
      have haccepted : (decryptSignalEnvelope P keys (replaceRecord w.store env.decryptAddr info r)
          env fresh).1.isSome = true :=
        decrypt_accepts htype hparse (by rw [hgone, ← hnone]; exact hread)
      rw [hrefused] at haccepted
      cases haccepted

/-- There is always a next state. -/
theorem step_total (P : SignalPrimitives) (keys : Decryption.DeviceKeys) (w : World) (e : Event) :
    ∃ w', step P keys w e = some w' := by
  cases e with
  | present env fresh =>
      rcases hdecrypt : decryptSignalEnvelope P keys w.store env fresh with ⟨_ | p, store'⟩
      · exact ⟨_, step_refused hdecrypt⟩
      · exact ⟨_, step_accepted hdecrypt⟩
  | send c => exact ⟨_, rfl⟩

theorem exists_run (P : SignalPrimitives) (keys : Decryption.DeviceKeys) (w : World)
    (events : List Event) : ∃ w', runFrom (step P keys) w events = some w' := by
  induction events generalizing w with
  | nil => exact ⟨w, rfl⟩
  | cons e events ih =>
      obtain ⟨mid, hmid⟩ := step_total P keys w e
      obtain ⟨w', hrest⟩ := ih mid
      refine ⟨w', ?_⟩
      rw [runFrom, hmid]
      exact hrest

end Step

/-! ## 5. Runs -/

/-- **No accepted envelope is accepted again**, in any state of a run, exactly when each session of
    its own that an envelope got was with a stored prekey. -/
theorem replay_safe_iff (P : SignalPrimitives) (keys : Decryption.DeviceKeys)
    (prekeys : List PrekeyRow) (events : List Event)
    (hideal : ∀ pre post w, events = pre ++ post →
      runFrom (step P keys) (start prekeys) pre = some w → Ideal P keys w) :
    (∀ pre post w, events = pre ++ post →
      runFrom (step P keys) (start prekeys) pre = some w → Safe P keys w) ↔
    Meets (step P keys) (Proper P keys) (start prekeys) events := by
  constructor
  · intro hsafe
    obtain ⟨last, hrun⟩ := exists_run P keys (start prekeys) events
    exact meets_of_states (fun _ _ _ hstep => proper_of_safe hstep) hrun hsafe
  · intro hmeets pre post w hsplit hrun
    obtain ⟨hpre, -⟩ := meets_append (hsplit ▸ hmeets) hrun
    obtain ⟨ws, hinv⟩ := run_invariant (I := fun w => ∃ ws, Inv P w ws)
      (fun w e w' ⟨_, hI⟩ hproper hstep => inv_step hI hproper hstep) ⟨_, inv_start prekeys⟩ hpre
      hrun
    exact safe_of_inv hinv (hideal pre post w hsplit hrun)

namespace Sample

open Signal.Known

/-- X3DH without a one-time prekey, and two messages on the chain that comes out of it. -/
def bareRoot : U8Array 32 :=
  .ofNat 32 0xceee79937536a52f3e7a84dfe81a2e7526443c51af4c58b9f0cfceb846ae2707
def bareUnused : U8Array 32 :=
  .ofNat 32 0xdc8e93e4a356cc91fe59d72cc4f289304f970ed30786e1d37a31b70f18d780bf
def bareRoot₁ : U8Array 32 :=
  .ofNat 32 0xfcfc973fcebda1e7343206cf3de094f65fda62abb67dac3def8e4bc3d240b25d
def bareChain : U8Array 32 :=
  .ofNat 32 0xdf2892c30d943eeaba181582125618b54c85253a94d95078f4e4d1aaba8f5b6a
def bareNext : U8Array 32 :=
  .ofNat 32 0x4f0dcecb49e91547d7ee4f6c1de4a1a17b22d753e5e6c6fc93dab82359afc45e
def bareSeed : U8Array 32 :=
  .ofNat 32 0x48e6772f7b4ce4018fcfe03c9d0edb2ccc727c6e518c38920fa90b9156b37d28
def bareSeedNext : U8Array 32 :=
  .ofNat 32 0xdeab5cf2d91db8c9cd9246c4b0458053826c6420d92b4564289dd48f39c7eb74
def bareKeys : Bytes :=
  toBE 32 0x1226a1def90d7891f9659f3274ea8c560ea4496924c8fcad0de629d9ab73e1b8 ++
    toBE 32 0xd179057f255a9535ebefd790c6508f4a74416a11082dbdf24ed54677e88680cd ++
    toBE 16 0x668be20d5c25d7a8c35d5be89bf8390c
def bareKeysNext : Bytes :=
  toBE 32 0x4115665898ba39a54ca0480b791486a48958a52591df244a7b4c03a2209feb92 ++
    toBE 32 0x9fc1d23c3b123b65542bf1c448c653ecdc52ead3e030005ca4da2d11cb653238 ++
    toBE 16 0x902660996a9538b259f7cfd60e54d492

def bareBody : Bytes := body ratchet₁Pub 0 (toBE 16 0xa62c8d9fbffd02b7ae55212af5938eee)
def bareBodyNext : Bytes := body ratchet₁Pub 1 (toBE 16 0x4e43f719c3e9a89f45fc781e022fdd8f)
def bareMac : U8Array 32 :=
  .ofNat 32 0xba0c925d8835b8f5f48aeaf37b6d9164b64f159c141dad0048bfd15f09a0ec82
def bareMacNext : U8Array 32 :=
  .ofNat 32 0x5c465f572798a2b0efabfbd3d2b664a9839eb863dd6fc801fc78dfd7a6e85a46

def hashing : Hashing where
  sha256 := Signal.Known.hashing.sha256
  hmac key message :=
    known [((bareChain.bytes, [1]), bareSeed), ((bareChain.bytes, [2]), bareNext),
      ((bareNext.bytes, [1]), bareSeedNext),
      (((bareKeys.drop 32).take 32, macced aliceIdPub bobIdPub bareBody), bareMac),
      (((bareKeysNext.drop 32).take 32, macced aliceIdPub bobIdPub bareBodyNext), bareMacNext)]
      (Signal.Known.hashing.hmac key message) (key, message)
  hkdf salt ikm info len :=
    ((U8Array.ofBytes? len (known
      [((zeros, List.replicate 32 0xFF ++ dhIdentity.bytes ++ dhBase.bytes ++ dhSpk.bytes,
          utf8 "WhisperText", 64), bareRoot.bytes ++ bareUnused.bytes),
        ((bareRoot.bytes, dh₁.bytes, utf8 "WhisperRatchet", 64),
          bareRoot₁.bytes ++ bareChain.bytes),
        ((zeros, bareSeed.bytes, utf8 "WhisperMessageKeys", 80), bareKeys),
        ((zeros, bareSeedNext.bytes, utf8 "WhisperMessageKeys", 80), bareKeysNext)]
      (Signal.Known.hashing.hkdf salt ikm info len).bytes (salt, ikm, info, len))).getD
        (U8Array.replicate len 0))

def primitives : SignalPrimitives where
  hashing := hashing
  cbc := .ofTable
    [⟨(.ofNat 32 0xd4cdf6aaaea6e8cd3bd79bedb8a7d53d9b6840ca48a9b03972c94e3e559ddfed,
        .ofNat 16 0x9674dc7eb634ae642adef69f28f89269), hi, hiCt⟩,
      ⟨(.ofNat 32 0x1226a1def90d7891f9659f3274ea8c560ea4496924c8fcad0de629d9ab73e1b8,
        .ofNat 16 0x668be20d5c25d7a8c35d5be89bf8390c), hi ++ [1],
        toBE 16 0xa62c8d9fbffd02b7ae55212af5938eee⟩,
      ⟨(.ofNat 32 0x4115665898ba39a54ca0480b791486a48958a52591df244a7b4c03a2209feb92,
        .ofNat 16 0x902660996a9538b259f7cfd60e54d492), yo ++ [1],
        toBE 16 0x4e43f719c3e9a89f45fc781e022fdd8f⟩]
  x25519 := x25519
  whisper := Signal.SignalMessageProto.codec
  preKey := Signal.PreKeySignalMessageProto.codec
  encode_ne_nil := Signal.SignalMessageProto.encode_ne_nil

def keys : Decryption.DeviceKeys := ⟨⟨bobId, bobIdPub, 9⟩, bobSpk⟩

def prekeys : List PrekeyRow := [⟨⟨2, ⟨bobOpk, bobOpkPub⟩⟩, true⟩]

def sender : List Char := "31600000041@s.whatsapp.net".toList

/-- A first message, with the one-time prekey that it names. -/
def first (opk : Option UInt32) (inner : Bytes) (encVersion : Nat) : Envelope where
  decryptAddr := sender
  encType := "pkmsg"
  encVersion := encVersion
  ciphertext := Signal.WHISPER_VERSION :: Signal.PreKeySignalMessageProto.codec.encode
    ⟨some 7, opk, some 1, some (Signal.djb aliceBasePub), some (Signal.djb aliceIdPub), some inner⟩

def withPrekey : Envelope := first (some 2) hiWire 3
def bare : Envelope := first none (bareBody ++ bareMac.bytes.take 8) 2
def next : Envelope := ⟨sender, "msg", 2, bareBodyNext ++ bareMacNext.bytes.take 8⟩

def after (envelopes : List Envelope) : Option World :=
  runFrom (step primitives keys) (start prekeys) (envelopes.map (.present · ratchet₂))

/-- How far the receiver chain of the sender is. -/
def position (store : Store) : Option UInt32 :=
  (sessionAt store.sessions sender).bind fun s => s.receiverChains.head?.map (·.chainKey.index)

/-- The first message without a prekey, once more. -/
def again (w : World) : Option Bytes × Store :=
  decryptSignalEnvelope primitives keys w.store bare ratchet₂

/-- The chain that the message with the prekey is on, and the one without it. -/
def opened : Chain :=
  ⟨.x3dh aliceIdPub aliceBasePub ratchet₁Pub (some 2), bobIdPub, aliceIdPub, chain₁⟩
def unopened : Chain :=
  ⟨.x3dh aliceIdPub aliceBasePub ratchet₁Pub none, bobIdPub, aliceIdPub, bareChain⟩

def hiMessage : WhisperMessage := ⟨hiBody, hiMac.bytes.take 8, ratchet₁Pub, 0, hiCt⟩

/-- The MAC of the message, with what a chain key gives. -/
def checks (c : Chain) (key : U8Array 32) : Bool :=
  (Signal.computeMessageMac primitives (Signal.deriveMessageKeys primitives ⟨key, 0⟩).macKey
    c.remoteId c.localId hiBody).bytes.take 8 = hiMac.bytes.take 8

/-- It verifies on its own chain only, and at the first position. -/
theorem hi_verifies {c : Chain} (hc : c ∈ [opened, unopened]) {i : Nat}
    (h : Verifies primitives c i hiMessage) : c = opened ∧ i = 0 := by
  have hchecks : checks c (chainAt hashing ⟨c.key, 0⟩ i).key = true := decide_eq_true h
  have hfirst : ∀ c ∈ [opened, unopened], checks c c.key = true → c = opened := by decide +kernel
  have hsecond : ∀ c ∈ [opened, unopened],
      ¬checks c (hashing.hmac c.key.bytes [2]) = true := by decide +kernel
  have hothers : ∀ c ∈ [opened, unopened],
      ¬checks c (U8Array.replicate 32 0) = true := by decide +kernel
  -- The table knows no key after the second.
  have hunknown : ∀ n, (chainAt hashing ⟨c.key, 0⟩ (n + 2)).key = U8Array.replicate 32 0 := by
    intro n
    induction n with
    | zero =>
        have hthird : ∀ c ∈ [opened, unopened],
            hashing.hmac (hashing.hmac c.key.bytes [2]).bytes [2] = U8Array.replicate 32 0 := by
          decide +kernel
        exact hthird c hc
    | succ n ih =>
        rw [chainAt_succ]
        unfold ChainKey.next
        dsimp only
        rw [ih]
        decide +kernel
  rcases i with _ | _ | n
  · exact ⟨hfirst c hc hchecks, rfl⟩
  · exact absurd hchecks (hsecond c hc)
  · rw [hunknown] at hchecks
    exact absurd hchecks (hothers c hc)

/-- The store after the message with the prekey. -/
def stored : Store :=
  (decryptSignalEnvelope primitives keys (start prekeys).store withPrekey ratchet₂).2

/-- What the message gives, now and when it comes again. -/
theorem opens_once :
    (decryptSignalEnvelope primitives keys (start prekeys).store withPrekey ratchet₂).1 = some hi ∧
    madeBy primitives keys (start prekeys) withPrekey ratchet₂ = [opened] ∧
    ownChains primitives keys stored withPrekey = [unopened] ∧
    (∀ s ∈ sessionAt stored.sessions sender,
      Signal.chainIdx s.receiverChains ratchet₁Pub = some 0) ∧
    wireOf primitives withPrekey = some hiWire ∧
    Signal.parseWire primitives hiWire = .ok hiMessage := by
  decide +kernel

theorem step_first : step primitives keys (start prekeys) (.present withPrekey ratchet₂) =
    some ⟨stored, [withPrekey], [opened]⟩ := by
  obtain ⟨hreply, hmade, -⟩ := opens_once
  have hopens : decryptSignalEnvelope primitives keys (start prekeys).store withPrekey ratchet₂ =
      (some hi, stored) := by
    unfold stored
    rw [← hreply]
  rw [step_accepted hopens, hmade]
  rfl

theorem tried_again {w : World} (hstore : w.store = stored) (fresh : U8Array 32) :
    tried primitives keys w withPrekey fresh = [unopened] := by
  obtain ⟨-, -, hown, hknown, hwire, hparse⟩ := opens_once
  unfold tried storedChains
  rw [hstore, hown, hwire]
  cases hs : sessionAt stored.sessions withPrekey.decryptAddr with
  | none => rfl
  | some s =>
      dsimp only
      unfold Signal.createdBy
      dsimp only
      rw [hparse]
      dsimp only
      rw [show hiMessage.ratchetPub = ratchet₁Pub from rfl, hknown s hs]
      rfl

theorem ideal_after {w : World} (hstore : w.store = stored) (haccepted : w.accepted = [withPrekey])
    (hmade : w.made = [opened]) : Ideal primitives keys w := by
  obtain ⟨-, -, -, -, hwire, hparse⟩ := opens_once
  intro env henv fresh wire m hw hm a ha b hb i j _ _ hi hj
  rw [haccepted] at henv
  obtain rfl := List.mem_singleton.mp henv
  cases hwire.symm.trans hw
  cases hparse.symm.trans hm
  rw [hmade, tried_again hstore] at ha hb
  obtain ⟨rfl, rfl⟩ := hi_verifies ha hi
  obtain ⟨rfl, rfl⟩ := hi_verifies hb hj
  exact ⟨rfl, rfl⟩

theorem ideal {pre post : List Event} {w : World}
    (hsplit : [.present withPrekey ratchet₂] = pre ++ post)
    (hrun : runFrom (step primitives keys) (start prekeys) pre = some w) :
    Ideal primitives keys w := by
  cases pre with
  | nil =>
      cases hrun
      exact nofun
  | cons e pre =>
      obtain ⟨rfl, hnil⟩ := List.cons.inj hsplit
      obtain ⟨rfl, rfl⟩ := List.append_eq_nil_iff.mp hnil.symm
      obtain ⟨mid, hstep, hrest⟩ := runFrom_cons hrun
      cases hrest
      have hw := Option.some.inj (step_first.symm.trans hstep)
      exact ideal_after (by rw [← hw]) (by rw [← hw]) (by rw [← hw])

end Sample

/-- A message with a one-time prekey is read once. -/
theorem prekey_read_once :
    ∃ w, runFrom (step Sample.primitives Sample.keys) (start Sample.prekeys)
      [Event.present Sample.withPrekey Signal.Known.ratchet₂] = some w ∧
      Safe Sample.primitives Sample.keys w := by
  obtain ⟨w, hrun⟩ := exists_run Sample.primitives Sample.keys (start Sample.prekeys)
    [.present Sample.withPrekey Signal.Known.ratchet₂]
  refine ⟨w, hrun, (replay_safe_iff Sample.primitives Sample.keys Sample.prekeys
    [.present Sample.withPrekey Signal.Known.ratchet₂]
    fun _ _ _ hsplit hrun => Sample.ideal hsplit hrun).mpr ?_ _ [] w (List.append_nil _).symm hrun⟩
  refine ⟨fun info hrenews => ?_, ?_⟩
  · have hparse : ∀ info ∈ (Signal.parsePreKeyMessage Sample.primitives
        Sample.withPrekey.ciphertext).toOption,
        (loadPrekeyPriv (start Sample.prekeys).store info.preKeyId).isSome = true := by
      decide +kernel
    exact hparse info (by rw [hrenews.2.1]; rfl)
  · rw [Sample.step_first]
    exact trivial

/-- Without a one-time prekey the first message is accepted after the second, and takes the session
    back to where it was before that. -/
theorem bare_comes_again :
    ∃ w, Sample.after [Sample.bare, Sample.next] = some w ∧ Sample.bare ∈ w.accepted ∧
      Sample.position w.store = some 2 ∧ (Sample.again w).1 = some Signal.Known.hi ∧
      Sample.position (Sample.again w).2 = some 1 ∧ ¬Safe Sample.primitives Sample.keys w := by
  have hrun : ((Sample.after [Sample.bare, Sample.next]).map fun w =>
      (w.accepted, Sample.position w.store, (Sample.again w).1,
        Sample.position (Sample.again w).2)) =
          some ([Sample.next, Sample.bare], some 2, some Signal.Known.hi, some 1) := by
    decide +kernel
  obtain ⟨w, hw, hvalues⟩ := Option.map_eq_some_iff.mp hrun
  simp only [Prod.mk.injEq] at hvalues
  obtain ⟨haccepted, hbefore, hreply, hafter⟩ := hvalues
  have hmem : Sample.bare ∈ w.accepted := by
    rw [haccepted]
    exact List.mem_cons_of_mem _ List.mem_cons_self
  refine ⟨w, hw, hmem, hbefore, hreply, hafter, fun hsafe => ?_⟩
  have hrefused := hsafe Sample.bare hmem Signal.Known.ratchet₂
  unfold Sample.again at hreply
  rw [hrefused] at hreply
  cases hreply

end Ruwa.Session.Replay
