/-
  File:      Ruwa/Crypto/SignalWindow.lean
  Subject:   WHAT A MESSAGE THAT OPENS DOES TO A SESSION, by the positions of its chains.

  The counter of a message is a `u32`, and a chain may be longer than that. What a receiver chain
  can still open are positions of the chain: those ahead of it, and those behind it that were
  passed. A message that opens does so with the key of such a position, and takes it away, whatever
  its counter says.

  * `onChain_ok` -- a message on the chain it belongs to;
  * **`decrypt_ok`** -- a message that a session opens: on a chain that is there, or on a new one;
  * `processBob_chain` -- the one chain of a session from an envelope; `processBob_decrypt`, a
    message that it opens, where `ratchetPub_of_parse` is the key inside of an envelope.
-/
import Ruwa.Crypto.SignalReplay

namespace Ruwa.Crypto.Signal

open Ruwa.Library
open Ruwa.Crypto

section Window

variable {P : SignalPrimitives} {localId remoteId chainKey : U8Array 32} {w : SkipWindow}
  {rc rc' : ReceiverChain} {m : WhisperMessage} {plaintext : Bytes}

/-- A receiver chain, against the positions it has left to open. -/
abbrev Stands (P : SignalPrimitives) (chainKey : U8Array 32) (w : SkipWindow)
    (rc : ReceiverChain) : Prop :=
  Follows P.hashing (deriveMessageKeys P) ⟨chainKey, 0⟩ w rc.chainKey rc.skippedKeys

/-- A position was taken: it was there to take, near the end of the window, and is gone. -/
structure Takes (w : SkipWindow) (j : Nat) (w' : SkipWindow) : Prop where
  unseen : ¬w.Seen j
  seen : ∀ i, w'.Seen i ↔ i = j ∨ w.Seen i
  near : j ≤ w.next + MAX_SKIPPED_MESSAGE_KEYS
  next : w'.next ≤ w.next + (MAX_SKIPPED_MESSAGE_KEYS + 1)

/-- **A message that opens on its chain** takes a position of it. -/
theorem onChain_ok (h : Stands P chainKey w rc)
    (hok : onChain P localId remoteId rc m = (.ok plaintext, rc')) :
    ∃ j w', Takes w j w' ∧ Stands P chainKey w' rc' ∧
      (openWith P localId remoteId (keysAt P chainKey j) m).isOk = true := by
  unfold onChain at hok
  split at hok
  · -- A late one: a key from the cache.
    cases hfound : takeFirst (fun k => k.counter == m.counter) rc.skippedKeys with
    | none =>
        rw [hfound] at hok
        cases hok
    | some found =>
        obtain ⟨mks, rest⟩ := found
        rw [hfound] at hok
        dsimp only at hok
        rw [h.cache_eq] at hfound
        obtain ⟨j, hj, rfl, -, rfl⟩ := takeFirst_map_some hfound
        have hbelow := w.below j hj
        cases hopen : openWith P localId remoteId
            (deriveMessageKeys P (chainAt P.hashing ⟨chainKey, 0⟩ j)) m with
        | error e =>
            rw [hopen] at hok
            cases hok
        | ok text =>
            rw [hopen] at hok
            cases hok
            refine ⟨j, w.late j, ⟨fun hseen => hseen.2 hj, fun i => SkipWindow.seen_late hj, ?_,
              Nat.le_add_right _ _⟩, h.late j, ?_⟩
            · omega
            · unfold keysAt
              rw [hopen]
              rfl
  · rename_i hahead
    split at hok
    · cases hok
    · rename_i hreach
      -- One ahead: the key at the end of a walk.
      obtain ⟨kept, hwalk, hnext⟩ := h.walk hahead
      rw [hwalk] at hok
      dsimp only at hok
      generalize hgap : m.counter.toNat - rc.chainKey.index.toNat = gap at *
      have hlimit : gap ≤ MAX_SKIPPED_MESSAGE_KEYS := by omega
      cases hopen : openWith P localId remoteId
          (deriveMessageKeys P (chainAt P.hashing ⟨chainKey, 0⟩ (w.next + gap))) m with
      | error e =>
          rw [hopen] at hok
          cases hok
      | ok text =>
          rw [hopen] at hok
          cases hok
          refine ⟨w.next + gap, w.forward (w.next + gap) (Nat.le_add_right _ _), ⟨?_, ?_, ?_, ?_⟩,
            hnext, ?_⟩
          · exact fun hseen => Nat.not_lt.mpr (Nat.le_add_right _ _) hseen.1
          · exact fun i => SkipWindow.seen_forward _
          · omega
          · show w.next + gap + 1 ≤ _
            omega
          · unfold keysAt
            rw [hopen]
            rfl

/-- The chain and the state after the step of a message that no chain is there for. -/
structure Stepped (P : SignalPrimitives) (state : SessionState) (fresh : U8Array 32)
    (m : WhisperMessage) (key : U8Array 32) (stepped : SessionState) : Prop where
  step : dhRatchetStep P state m.ratchetPub fresh = .ok stepped
  chains : stepped.receiverChains =
    (⟨m.ratchetPub, ⟨key, 0⟩, []⟩ :: state.receiverChains).take MAX_RECEIVER_CHAINS
  localId : stepped.localIdentityPub = state.localIdentityPub
  remoteId : stepped.remoteIdentityPub = state.remoteIdentityPub

theorem stepped_of_step {state stepped : SessionState} {fresh : U8Array 32}
    (hstep : dhRatchetStep P state m.ratchetPub fresh = .ok stepped) :
    ∃ key, Stepped P state fresh m key stepped := by
  have hsame := hstep
  unfold dhRatchetStep at hstep
  split at hstep
  · cases hstep
  · cases hstep
    exact ⟨_, hsame, rfl, rfl, rfl⟩

/-- What a session does when a message opens on one of its chains. -/
structure OpensOn (P : SignalPrimitives) (state : SessionState) (m : WhisperMessage)
    (plaintext : Bytes) (idx : Nat) (state' : SessionState) : Prop where
  chain : ∃ rc rc', state.receiverChains[idx]? = some rc ∧
    onChain P state.localIdentityPub state.remoteIdentityPub rc m = (.ok plaintext, rc') ∧
    state' = { state with receiverChains := state.receiverChains.set idx rc' }

theorem decryptAt_ok {state state' : SessionState} {idx : Nat}
    (h : decryptAt P state idx m = (.ok plaintext, state')) :
    OpensOn P state m plaintext idx state' := by
  cases hrc : state.receiverChains[idx]? with
  | none =>
      unfold decryptAt at h
      rw [hrc] at h
      cases h
  | some rc =>
      rw [decryptAt_eq P hrc] at h
      obtain ⟨hres, hstate⟩ := Prod.mk.inj h
      exact ⟨rc, _, hrc, Prod.ext hres rfl, hstate.symm⟩

/-- **A message that a session opens**: on a chain that it has, or on the one it gets. -/
theorem decrypt_ok {state state' : SessionState} {fresh : U8Array 32} {wire : Bytes}
    (h : decrypt P state fresh wire = (.ok plaintext, state')) :
    ∃ m, parseWire P wire = .ok m ∧
      ((∃ idx, chainIdx state.receiverChains m.ratchetPub = some idx ∧
          OpensOn P state m plaintext idx state') ∨
        (chainIdx state.receiverChains m.ratchetPub = none ∧ ∃ key stepped,
          Stepped P state fresh m key stepped ∧ OpensOn P stepped m plaintext 0 state')) := by
  unfold decrypt at h
  cases hparse : parseWire P wire with
  | error e =>
      rw [hparse] at h
      cases h
  | ok m =>
      rw [hparse] at h
      dsimp only at h
      refine ⟨m, rfl, ?_⟩
      unfold decryptMessage at h
      cases hidx : chainIdx state.receiverChains m.ratchetPub with
      | some idx =>
          rw [hidx] at h
          exact Or.inl ⟨idx, rfl, decryptAt_ok h⟩
      | none =>
          rw [hidx] at h
          dsimp only at h
          cases hstep : dhRatchetStep P state m.ratchetPub fresh with
          | error e =>
              rw [hstep] at h
              cases h
          | ok stepped =>
              rw [hstep] at h
              obtain ⟨key, hstepped⟩ := stepped_of_step hstep
              exact Or.inr ⟨rfl, key, stepped, hstepped, decryptAt_ok h⟩

/-- The chain that a step adds is the one that the session is said to create. -/
theorem Stepped.created {state stepped : SessionState} {fresh : U8Array 32} {wire : Bytes}
    {key : U8Array 32} (h : Stepped P state fresh m key stepped)
    (hparse : parseWire P wire = .ok m) (hidx : chainIdx state.receiverChains m.ratchetPub = none) :
    createdBy P state (.decrypt fresh wire) = [key] := by
  simp only [createdBy, hparse, hidx, h.step, h.chains]
  rfl

/-- The name of the field is only for the error. -/
theorem unwrapDjbPub_ok {b : Bytes} {field : String} {pub : U8Array 32}
    (h : unwrapDjbPub b field = .ok pub) (field' : String) : unwrapDjbPub b field' = .ok pub := by
  unfold unwrapDjbPub at h ⊢
  split at h
  · rename_i hprefixed
    rw [if_pos hprefixed]
    cases hbytes : U8Array.ofBytes? 32 b.tail with
    | none =>
        rw [hbytes] at h
        cases h
    | some pub' =>
        rw [hbytes] at h
        exact h
  · rename_i hbare
    rw [if_neg hbare]
    cases hbytes : U8Array.ofBytes? 32 b with
    | none =>
        rw [hbytes] at h
        cases h
    | some pub' =>
        rw [hbytes] at h
        exact h

/-- A message that can be read names its ratchet key. -/
theorem innerRatchetPub_of_parseWire {wire : Bytes} (h : parseWire P wire = .ok m) :
    innerRatchetPub P wire = .ok m.ratchetPub := by
  unfold parseWire at h
  split at h
  · cases h
  · rename_i hlength
    split at h
    · cases h
    · rename_i hversion
      dsimp only at h
      unfold innerRatchetPub
      rw [if_neg hlength, if_neg hversion]
      dsimp only
      cases hdecode : P.whisper.decode (wire.take (wire.length - MAC_TRUNCATION_BYTES)).tail with
      | none =>
          rw [hdecode] at h
          cases h
      | some proto =>
          rw [hdecode] at h
          dsimp only at h
          cases hkey : proto.ratchetKey with
          | none =>
              rw [hkey] at h
              cases h
          | some ratchetKey =>
              rw [hkey] at h
              dsimp only at h
              simp only [hkey]
              cases hpub : unwrapDjbPub ratchetKey "ratchet_key wrong length" with
              | error e =>
                  rw [hpub] at h
                  cases h
              | ok pub =>
                  rw [hpub] at h
                  dsimp only at h
                  cases hciphertext : proto.ciphertext with
                  | none =>
                      rw [hciphertext] at h
                      cases h
                  | some ciphertext =>
                      rw [hciphertext] at h
                      cases h
                      exact unwrapDjbPub_ok hpub _

/-- So does the envelope that was read around it. -/
theorem innerRatchetPub_of_parse {wire : Bytes} {info : PreKeyMessageInfo}
    (h : parsePreKeyMessage P wire = .ok info) :
    innerRatchetPub P info.innerWhisperWire = .ok info.innerRatchetPub := by
  unfold parsePreKeyMessage at h
  simp only [bind, Except.bind, pure, Except.pure] at h
  split at h
  · cases h
  · split at h
    · cases h
    · split at h
      · cases h
      · rename_i proto hproto
        split at h
        · cases h
        · cases h
        · cases h
        · cases h
        · rename_i signedPreKeyId baseKey identityKey inner _ _ _ _
          cases hbase : unwrapDjbPub baseKey "PreKey base_key wrong length" with
          | error e =>
              rw [hbase] at h
              cases h
          | ok basePub =>
              cases hidentity : unwrapDjbPub identityKey "PreKey identity_key wrong length" with
              | error e =>
                  rw [hbase, hidentity] at h
                  cases h
              | ok identityPub =>
                  cases hratchet : innerRatchetPub P inner with
                  | error e =>
                      rw [hbase, hidentity, hratchet] at h
                      cases h
                  | ok ratchetPub =>
                      rw [hbase, hidentity, hratchet] at h
                      cases h
                      exact hratchet

/-- **The two readings agree** on the ratchet key. -/
theorem ratchetPub_of_parse {wire : Bytes} {info : PreKeyMessageInfo}
    (h : parsePreKeyMessage P wire = .ok info) (hm : parseWire P info.innerWhisperWire = .ok m) :
    m.ratchetPub = info.innerRatchetPub :=
  Except.ok.inj ((innerRatchetPub_of_parseWire hm).symm.trans (innerRatchetPub_of_parse h))

/-- A session from an envelope has one chain, and its first key. -/
theorem processBob_chain (P : SignalPrimitives) (p : BobParameters) :
    ∃ key, (processBob P p).receiverChains = [⟨p.remoteRatchetPub, ⟨key, 0⟩, []⟩] ∧
      (processBob P p).localIdentityPub = p.localIdentityPub ∧
      (processBob P p).remoteIdentityPub = p.remoteIdentityPub := ⟨_, rfl, rfl, rfl⟩

/-- A message with the ratchet key of the envelope is read on that chain. -/
theorem processBob_decrypt {p : BobParameters} {state' : SessionState} {fresh : U8Array 32}
    {wire : Bytes} (h : decrypt P (processBob P p) fresh wire = (.ok plaintext, state'))
    (hratchet : ∀ m, parseWire P wire = .ok m → m.ratchetPub = p.remoteRatchetPub) :
    ∃ m, parseWire P wire = .ok m ∧ OpensOn P (processBob P p) m plaintext 0 state' := by
  obtain ⟨m, hparse, hopens⟩ := decrypt_ok h
  obtain ⟨key, hchains, -, -⟩ := processBob_chain P p
  have hidx : chainIdx (processBob P p).receiverChains m.ratchetPub = some 0 := by
    unfold chainIdx
    rw [hchains, List.findIdx?_cons, if_pos (by rw [hratchet m hparse]; exact beq_self_eq_true _)]
  rcases hopens with ⟨idx, hfound, hon⟩ | ⟨hnone, -⟩
  · cases hidx.symm.trans hfound
    exact ⟨m, hparse, hon⟩
  · cases hidx.symm.trans hnone

end Window

end Ruwa.Crypto.Signal
