/-
  File:      Ruwa/Session/Carry.lean
  Subject:   WHAT SENDING LEAVES OF THE RECEIVING SIDE (`session.rs`, `encrypt_per_device`,
             `encryption_address`).

  A call of `encrypt_per_device` may move a session to another address, delete copies of one, add
  new ones and move sender chains on. It never touches what a session can still receive.

  * `Carries` -- each session of a later store receives nothing yet, or what one session of the
    earlier store received, and no two the same; `Carries.trans`;
  * `Relocates` -- each session of a later store is one of the earlier store, and no two the same;
  * `carries_save`, `carries_new`, `relocates_deletes`, `relocates_move` -- the writes that do so;
  * **`encryptPerDevice_carries`** -- a whole call does, for any list of devices.
-/
import Ruwa.Crypto.SignalReplay
import Ruwa.Session.Retry

namespace Ruwa.Session.Carry

open Ruwa.Library
open Ruwa.Crypto
open Ruwa.Crypto.Signal (SignalPrimitives SessionState)
open Ruwa.Session.Addresses
open Ruwa.Session.Retry

/-! ## 1. Two stores -/

def rowSession : Option Row → Option SessionState
  | some (.record r) => r.current
  | _ => none

/-- The session that an address encrypts and decrypts with. -/
def sessionAt (store : SessionStore) (address : List Char) : Option SessionState :=
  rowSession (store address)

/-- Both can open the same messages. -/
structure SameReceiving (s s' : SessionState) : Prop where
  chains : s'.receiverChains = s.receiverChains
  localId : s'.localIdentityPub = s.localIdentityPub
  remoteId : s'.remoteIdentityPub = s.remoteIdentityPub

theorem SameReceiving.refl (s : SessionState) : SameReceiving s s := ⟨rfl, rfl, rfl⟩

theorem SameReceiving.trans {s s' s'' : SessionState} (h : SameReceiving s s')
    (h' : SameReceiving s' s'') : SameReceiving s s'' :=
  ⟨h'.chains.trans h.chains, h'.localId.trans h.localId, h'.remoteId.trans h.remoteId⟩

/-- Each session that receives comes from one of the earlier store, at an address of its own. -/
structure CarriesFrom (source : List Char → List Char) (store store' : SessionStore) : Prop where
  comes : ∀ a s', sessionAt store' a = some s' → s'.receiverChains = [] ∨
    ∃ s, sessionAt store (source a) = some s ∧ SameReceiving s s'
  apart : ∀ a b s s', sessionAt store' a = some s → sessionAt store' b = some s' →
    s.receiverChains ≠ [] → s'.receiverChains ≠ [] → source a = source b → a = b

def Carries (store store' : SessionStore) : Prop := ∃ source, CarriesFrom source store store'

theorem Carries.refl (store : SessionStore) : Carries store store :=
  ⟨id, fun _ s h => Or.inr ⟨s, h, .refl s⟩, fun _ _ _ _ _ _ _ _ h => h⟩

/-- A session that receives has its source. -/
theorem CarriesFrom.source {source : List Char → List Char} {store store' : SessionStore}
    (h : CarriesFrom source store store') {a : List Char} {s' : SessionState}
    (ha : sessionAt store' a = some s') (hreceives : s'.receiverChains ≠ []) :
    ∃ s, sessionAt store (source a) = some s ∧ SameReceiving s s' ∧ s.receiverChains ≠ [] := by
  rcases h.comes a s' ha with hnil | ⟨s, hs, hsame⟩
  · exact absurd hnil hreceives
  · exact ⟨s, hs, hsame, hsame.chains ▸ hreceives⟩

theorem Carries.trans {store store' store'' : SessionStore} (h : Carries store store')
    (h' : Carries store' store'') : Carries store store'' := by
  obtain ⟨source, hfrom⟩ := h
  obtain ⟨source', hfrom'⟩ := h'
  refine ⟨source ∘ source', fun a s'' ha => ?_, fun a b s s' ha hb hs hs' heq => ?_⟩
  · rcases hfrom'.comes a s'' ha with hnil | ⟨s', hs', hsame'⟩
    · exact Or.inl hnil
    · rcases hfrom.comes _ s' hs' with hnil | ⟨s, hs, hsame⟩
      · exact Or.inl (hsame'.chains.trans hnil)
      · exact Or.inr ⟨s, hs, hsame.trans hsame'⟩
  · obtain ⟨t, ht, -, hreceives⟩ := hfrom'.source ha hs
    obtain ⟨t', ht', -, hreceives'⟩ := hfrom'.source hb hs'
    exact hfrom'.apart a b s s' ha hb hs hs' (hfrom.apart _ _ t t' ht ht' hreceives hreceives' heq)

/-- Each session is one of the earlier store, at an address of its own. -/
structure RelocatesFrom (source : List Char → List Char) (store store' : SessionStore) : Prop where
  comes : ∀ a s, sessionAt store' a = some s → sessionAt store (source a) = some s
  apart : ∀ a b, (sessionAt store' a).isSome → (sessionAt store' b).isSome → source a = source b →
    a = b

def Relocates (store store' : SessionStore) : Prop := ∃ source, RelocatesFrom source store store'

theorem Relocates.refl (store : SessionStore) : Relocates store store :=
  ⟨id, fun _ _ h => h, fun _ _ _ _ h => h⟩

theorem Relocates.trans {store store' store'' : SessionStore} (h : Relocates store store')
    (h' : Relocates store' store'') : Relocates store store'' := by
  obtain ⟨source, hfrom⟩ := h
  obtain ⟨source', hfrom'⟩ := h'
  refine ⟨source ∘ source', fun a s ha => hfrom.comes _ s (hfrom'.comes a s ha),
    fun a b ha hb heq => ?_⟩
  obtain ⟨s, hs⟩ := Option.isSome_iff_exists.mp ha
  obtain ⟨t, ht⟩ := Option.isSome_iff_exists.mp hb
  exact hfrom'.apart a b ha hb (hfrom.apart _ _
    (Option.isSome_of_eq_some (hfrom'.comes a s hs))
    (Option.isSome_of_eq_some (hfrom'.comes b t ht)) heq)

/-- Sessions that are moved or taken away carry. -/
theorem Relocates.carries {store store' : SessionStore} (h : Relocates store store') :
    Carries store store' := by
  obtain ⟨source, hfrom⟩ := h
  exact ⟨source, fun a s ha => .inr ⟨s, hfrom.comes a s ha, .refl s⟩,
    fun a b s s' ha hb _ _ heq => hfrom.apart a b (Option.isSome_of_eq_some ha)
      (Option.isSome_of_eq_some hb) heq⟩

/-! ## 2. Single writes -/

section Writes

variable {store : SessionStore} {a : List Char}

theorem sessionAt_update (row : Option Row) (b : List Char) :
    sessionAt (Function.update store a row) b =
      if b = a then rowSession row else sessionAt store b := by
  unfold sessionAt
  by_cases hba : b = a
  · rw [hba, Function.update_self, if_pos rfl]
  · rw [Function.update_of_ne hba, if_neg hba]

/-- A write to one row carries, if what it writes receives no more than what was there. -/
theorem carries_update (row : Option Row)
    (h : ∀ s', rowSession row = some s' → s'.receiverChains = [] ∨
      ∃ s, sessionAt store a = some s ∧ SameReceiving s s') :
    Carries store (Function.update store a row) := by
  refine ⟨id, fun b s' hb => ?_, fun _ _ _ _ _ _ _ _ heq => heq⟩
  rw [sessionAt_update] at hb
  by_cases hba : b = a
  · rw [if_pos hba] at hb
    rw [hba]
    exact h s' hb
  · rw [if_neg hba] at hb
    exact Or.inr ⟨s', hb, .refl s'⟩

theorem relocates_delete : Relocates store (deleteRecord store a) := by
  refine ⟨id, fun b s hb => ?_, fun _ _ _ _ heq => heq⟩
  unfold deleteRecord at hb
  rw [sessionAt_update] at hb
  split at hb
  · cases hb
  · exact hb

theorem relocates_deletes (as : List (List Char)) :
    Relocates store (as.foldl deleteRecord store) := by
  induction as generalizing store with
  | nil => exact .refl store
  | cons a as ih => exact relocates_delete.trans ih

/-- The session of the row moved its sender chain on. -/
theorem carries_save {s s' : SessionState} {previous : List SessionState}
    (hs : sessionAt store a = some s) (hsame : SameReceiving s s') :
    Carries store (saveRecord store a ⟨some s', previous⟩) :=
  carries_update _ fun t ht => by
    cases ht
    exact Or.inr ⟨s, hs, hsame⟩

/-- A session that receives nothing yet. -/
theorem carries_new {s' : SessionState} {previous : List SessionState}
    (hnew : s'.receiverChains = []) : Carries store (saveRecord store a ⟨some s', previous⟩) :=
  carries_update _ fun t ht => by
    cases ht
    exact Or.inl hnew

/-- A record that is moved to another address. -/
theorem relocates_move {b : List Char} {r : SessionRecord} (hrow : store a = some (.record r)) :
    Relocates store (deleteRecord (saveRecord store b r) a) := by
  have hat : ∀ x, sessionAt (deleteRecord (saveRecord store b r) a) x =
      if x = a then none else if x = b then r.current else sessionAt store x := by
    intro x
    unfold deleteRecord saveRecord
    rw [sessionAt_update, sessionAt_update]
    rfl
  have hsource : sessionAt store a = r.current := by
    unfold sessionAt
    rw [hrow]
    rfl
  refine ⟨fun x => if x = b then a else x, fun x s hx => ?_, fun x y hx hy heq => ?_⟩
  · rw [hat] at hx
    by_cases hxa : x = a
    · rw [if_pos hxa] at hx
      cases hx
    · rw [if_neg hxa] at hx
      by_cases hxb : x = b
      · rw [if_pos hxb] at hx
        rw [if_pos hxb]
        exact hsource.trans hx
      · rw [if_neg hxb] at hx
        rw [if_neg hxb]
        exact hx
  · rw [hat] at hx hy
    have hxa : x ≠ a := fun hxa => by rw [if_pos hxa] at hx; cases hx
    have hya : y ≠ a := fun hya => by rw [if_pos hya] at hy; cases hy
    by_cases hxb : x = b <;> by_cases hyb : y = b
    · rw [hxb, hyb]
    · rw [if_pos hxb, if_neg hyb] at heq
      exact absurd heq.symm hya
    · rw [if_neg hxb, if_pos hyb] at heq
      exact absurd heq hxa
    · rwa [if_neg hxb, if_neg hyb] at heq

end Writes

/-! ## 3. The call -/

section Call

variable {P : SignalPrimitives} {keys : Retry.DeviceKeys} {order : MostRecent}
  {table : List LidPnRow} {sessionId : String} {store : SessionStore}

/-- Bringing the copies of a session together. -/
theorem encryptionAddress_relocates (d : List Char) :
    Relocates store (encryptionAddress order table sessionId store d).2 := by
  unfold encryptionAddress
  dsimp only
  split
  · exact relocates_deletes _
  · split
    · exact .refl store
    · cases hhead : (withSession order table sessionId store d).head? with
      | none => exact .refl store
      | some src =>
          dsimp only
          split
          · rename_i r hrow
            exact relocates_move hrow
          · exact .refl store

theorem encryptionTargets_relocates (devices : List (List Char)) :
    Relocates store (encryptionTargets order table sessionId store devices).2 := by
  induction devices generalizing store with
  | nil => exact .refl store
  | cons d ds ih =>
      rw [encryptionTargets_cons]
      exact (encryptionAddress_relocates d).trans ih

theorem encryptUnder_receiving (P : SignalPrimitives) (keys : Retry.DeviceKeys)
    (state : SessionState) (fresh : U8Array 32) (plaintext : Bytes) :
    SameReceiving state (encryptUnder P keys state fresh plaintext).2 := by
  obtain ⟨hchains, hlocal, hremote⟩ := Signal.encrypt_receiving (P := P) state fresh plaintext
  unfold encryptUnder
  cases state.pendingPreKey with
  | none => exact ⟨hchains, hlocal, hremote⟩
  | some pp =>
      dsimp only
      unfold Signal.encryptPreKey
      rcases hencrypt : Signal.encrypt P state fresh plaintext with ⟨_ | inner, state'⟩ <;>
        (rw [hencrypt] at hchains hlocal hremote; exact ⟨hchains, hlocal, hremote⟩)

/-- The records that were loaded are those of the store. -/
theorem partitionTargets_loaded {targets : List (List Char × List Char)} {existing : Records}
    {needsBundle : List (List Char)}
    (h : partitionTargets store targets = .ok (existing, needsBundle)) {a : List Char}
    {r : SessionRecord} (ha : existing a = some r) : store a = some (.record r) := by
  induction targets generalizing existing needsBundle with
  | nil =>
      cases h
      cases ha
  | cons target targets ih =>
      unfold partitionTargets at h
      cases hload : loadRecord store target.2 with
      | error e =>
          rw [hload] at h
          cases h
      | ok found =>
          rw [hload] at h
          cases hrest : partitionTargets store targets with
          | error e =>
              rw [hrest] at h
              cases h
          | ok parts =>
              obtain ⟨existing', needsBundle'⟩ := parts
              rw [hrest] at h
              cases found with
              | none =>
                  cases h
                  exact ih hrest ha
              | some r' =>
                  simp only [bind, Except.bind, pure, Except.pure] at h
                  split at h
                  · cases h
                    by_cases hat : a = target.2
                    · rw [hat, Function.update_self] at ha
                      cases ha
                      rw [hat]
                      unfold loadRecord at hload
                      cases hrow : store target.2 with
                      | none =>
                          rw [hrow] at hload
                          cases hload
                      | some row =>
                          rw [hrow] at hload
                          cases row with
                          | corrupt => cases hload
                          | record r'' =>
                              cases hload
                              rfl
                    · rw [Function.update_of_ne hat] at ha
                      exact ih hrest ha
                  · cases h
                    exact ih hrest ha

/-- The sessions of the server's bundles receive nothing yet. -/
theorem bootstrap_new {fetch : List (List Char) → Except String (List (DevicePrekeyBundle × Draw))}
    {needsBundle : List (List Char)} {records : Records}
    (h : bootstrap P keys fetch needsBundle = .ok records) {a : List Char} {r : SessionRecord}
    (ha : records a = some r) : ∃ bundle draw, r = recordFromBundle P keys bundle draw := by
  unfold bootstrap at h
  split at h
  · cases h
    cases ha
  · split at h
    · cases h
    · cases h
      obtain ⟨p, -, rfl⟩ := (replies_mem ha).resolve_right nofun
      exact ⟨p.1, p.2, rfl⟩

/-- The record for an address, and the maps without it. -/
def takeRecord (existing bootstrapped : Records) (enc : List Char) :
    Option SessionRecord × Records × Records :=
  match existing enc with
  | some r => (some r, Function.update existing enc none, bootstrapped)
  | none => (bootstrapped enc, existing, Function.update bootstrapped enc none)

/-- What the loop does with the record for a device, and then with the other devices. -/
def turnWith (P : SignalPrimitives) (keys : Retry.DeviceKeys) (fresh : U8Array 32)
    (plaintext : Bytes) (d enc : List Char)
    (rest : SessionStore → Except SendError (List EncryptedRecipient) × SessionStore)
    (store : SessionStore) :
    Option SessionRecord → Except SendError (List EncryptedRecipient) × SessionStore
  | none => rest store
  | some r =>
      match r.current with
      | none => (.error (.noCurrentState enc), store)
      | some state =>
          match encryptUnder P keys state fresh plaintext with
          | (.error e, _) => (.error (.encrypt e), store)
          | (.ok message, state) =>
              match rest (saveRecord store enc { r with current := some state }) with
              | (.error e, store) => (.error e, store)
              | (.ok out, store) => (.ok (⟨d, message⟩ :: out), store)

theorem encryptTargets_cons {fresh : List Char → U8Array 32} {padded paddedOwn : Bytes}
    {ownUser : Option (List Char)} (d enc : List Char) (targets : List (List Char × List Char))
    (existing bootstrapped : Records) (store : SessionStore) :
    encryptTargets P keys fresh padded paddedOwn ownUser ((d, enc) :: targets) existing bootstrapped
        store =
      turnWith P keys (fresh d) (if ownUser = some (lidUserPart d) then paddedOwn else padded) d enc
        (encryptTargets P keys fresh padded paddedOwn ownUser targets
          (takeRecord existing bootstrapped enc).2.1 (takeRecord existing bootstrapped enc).2.2) store
        (takeRecord existing bootstrapped enc).1 :=
  (encryptTargets.eq_def ..).trans rfl

/-- **One turn of the loop**, and where it leads. -/
theorem encryptTargets_turn {fresh : List Char → U8Array 32} {padded paddedOwn : Bytes}
    {ownUser : Option (List Char)} (d enc : List Char) (targets : List (List Char × List Char))
    (existing bootstrapped : Records) (store : SessionStore) :
    let parts := takeRecord existing bootstrapped enc
    let after := encryptTargets P keys fresh padded paddedOwn ownUser ((d, enc) :: targets) existing
      bootstrapped store
    let rest := encryptTargets P keys fresh padded paddedOwn ownUser targets parts.2.1 parts.2.2
    after.2 = store ∨ (parts.1 = none ∧ after = rest store) ∨
      ∃ r state m state', parts.1 = some r ∧ r.current = some state ∧
        encryptUnder P keys state (fresh d)
          (if ownUser = some (lidUserPart d) then paddedOwn else padded) = (.ok m, state') ∧
        after.2 = (rest (saveRecord store enc { r with current := some state' })).2 := by
  intro parts after rest
  have hafter : after = turnWith P keys (fresh d)
      (if ownUser = some (lidUserPart d) then paddedOwn else padded) d enc rest store parts.1 :=
    encryptTargets_cons d enc targets existing bootstrapped store
  rw [hafter]
  cases hfound : parts.1 with
  | none => exact Or.inr (Or.inl ⟨rfl, rfl⟩)
  | some r =>
      unfold turnWith
      cases hcurrent : r.current with
      | none => exact Or.inl (by simp only [hcurrent])
      | some state =>
          simp only [hcurrent]
          rcases hencrypt : encryptUnder P keys state (fresh d)
            (if ownUser = some (lidUserPart d) then paddedOwn else padded) with ⟨_ | m, state'⟩
          · exact Or.inl rfl
          · refine Or.inr (Or.inr ⟨r, state, m, state', rfl, hcurrent, hencrypt, ?_⟩)
            dsimp only
            rcases rest (saveRecord store enc { r with current := some state' }) with
              ⟨_ | out, store'⟩ <;> rfl

/-- The record comes from one of the maps, and what is left of them is as good as before. -/
theorem takeRecord_parts {existing bootstrapped : Records} (enc : List Char)
    (hexisting : ∀ a r, existing a = some r → store a = some (.record r))
    (hbootstrapped : ∀ a r, bootstrapped a = some r →
      ∃ bundle draw, r = recordFromBundle P keys bundle draw) :
    let parts := takeRecord existing bootstrapped enc
    (∀ r, parts.1 = some r → store enc = some (.record r) ∨
      ∃ bundle draw, r = recordFromBundle P keys bundle draw) ∧
    (∀ a r, parts.2.1 a = some r → a ≠ enc ∧ store a = some (.record r)) ∧
    ∀ a r, parts.2.2 a = some r → ∃ bundle draw, r = recordFromBundle P keys bundle draw := by
  intro parts
  have hrest : ∀ (records : Records) a r, Function.update records enc none a = some r →
      a ≠ enc ∧ records a = some r := by
    intro records a r ha
    by_cases hat : a = enc
    · rw [hat, Function.update_self] at ha
      cases ha
    · rw [Function.update_of_ne hat] at ha
      exact ⟨hat, ha⟩
  unfold parts takeRecord
  cases hfound : existing enc with
  | some r =>
      refine ⟨fun r' hr => ?_, fun a r' ha => ?_, hbootstrapped⟩
      · cases hr
        exact Or.inl (hexisting enc r hfound)
      · obtain ⟨hne, hexists⟩ := hrest existing a r' ha
        exact ⟨hne, hexisting a r' hexists⟩
  | none =>
      refine ⟨fun r hr => Or.inr (hbootstrapped enc r hr), fun a r ha => ?_, fun a r ha => ?_⟩
      · refine ⟨fun hat => ?_, hexisting a r ha⟩
        cases hfound.symm.trans (hat ▸ ha)
      · exact hbootstrapped a r (hrest bootstrapped a r ha).2

/-- **The loop**, from records that are still those of the store. -/
theorem encryptTargets_carries {fresh : List Char → U8Array 32} {padded paddedOwn : Bytes}
    {ownUser : Option (List Char)} {targets : List (List Char × List Char)}
    {existing bootstrapped : Records}
    (hexisting : ∀ a r, existing a = some r → store a = some (.record r))
    (hbootstrapped : ∀ a r, bootstrapped a = some r →
      ∃ bundle draw, r = recordFromBundle P keys bundle draw) :
    Carries store (encryptTargets P keys fresh padded paddedOwn ownUser targets existing
      bootstrapped store).2 := by
  induction targets generalizing existing bootstrapped store with
  | nil => exact .refl store
  | cons target targets ih =>
      obtain ⟨d, enc⟩ := target
      obtain ⟨hfound, hleft, hnew⟩ := takeRecord_parts enc hexisting hbootstrapped
      rcases encryptTargets_turn d enc targets existing bootstrapped store with
        hstop | ⟨-, hskip⟩ | ⟨r, state, m, state', hr, hcurrent, hencrypt, hafter⟩
      · rw [hstop]
        exact .refl store
      · rw [hskip]
        exact ih (fun a r ha => (hleft a r ha).2) hnew
      · have hsame : SameReceiving state state' := by
          have hunder := encryptUnder_receiving P keys state (fresh d)
            (if ownUser = some (lidUserPart d) then paddedOwn else padded)
          rwa [hencrypt] at hunder
        rw [hafter]
        refine .trans ?_ (ih (fun a r' ha => ?_) hnew)
        · rcases hfound r hr with hstored | ⟨bundle, draw, rfl⟩
          · refine carries_save ?_ hsame
            unfold sessionAt rowSession
            rw [hstored]
            exact hcurrent
          · cases hcurrent
            exact carries_new (hsame.chains.trans rfl)
        · obtain ⟨hne, hrow⟩ := hleft a r' ha
          unfold saveRecord
          rw [Function.update_of_ne hne]
          exact hrow

/-- **A whole call** carries, for any devices, texts and answers of the server. -/
theorem encryptPerDevice_carries (P : SignalPrimitives) (keys : Retry.DeviceKeys)
    (order : MostRecent) (table : List LidPnRow) (sessionId : String)
    (fetch : List (List Char) → Except String (List (DevicePrekeyBundle × Draw)))
    (fresh : List Char → U8Array 32) (store : SessionStore) (deviceJids : List (List Char))
    (padded paddedOwn : Bytes) (ownUser : Option (List Char)) :
    Carries store (encryptPerDevice P keys order table sessionId fetch fresh store deviceJids padded
      paddedOwn ownUser).2 := by
  have htargets : Carries store (encryptionTargets order table sessionId store deviceJids).2 :=
    (encryptionTargets_relocates deviceJids).carries
  unfold encryptPerDevice
  generalize encryptionTargets order table sessionId store deviceJids = gathering at *
  obtain ⟨targets, gathered⟩ := gathering
  dsimp only at htargets ⊢
  cases hparts : partitionTargets gathered targets with
  | error e => exact htargets
  | ok parts =>
      obtain ⟨existing, needsBundle⟩ := parts
      dsimp only
      cases hboot : bootstrap P keys fetch needsBundle with
      | error e => exact htargets
      | ok bootstrapped =>
          dsimp only
          have hloop : Carries gathered (encryptTargets P keys fresh padded paddedOwn ownUser
              targets existing bootstrapped gathered).2 :=
            encryptTargets_carries (fun _ _ ha => partitionTargets_loaded hparts ha)
              fun _ _ ha => bootstrap_new hboot ha
          generalize encryptTargets P keys fresh padded paddedOwn ownUser targets existing
            bootstrapped gathered = result at *
          obtain ⟨_ | out, after⟩ := result
          · exact htargets.trans hloop
          · dsimp only
            split
            · exact htargets.trans hloop
            · exact htargets.trans hloop

end Call

end Ruwa.Session.Carry
