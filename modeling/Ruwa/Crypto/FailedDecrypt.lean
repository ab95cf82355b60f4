/-
  File:      Ruwa/Crypto/FailedDecrypt.lean
  Subject:   WHAT A MESSAGE THAT DOES NOT OPEN LEAVES BEHIND (`crypto.rs`, `SessionCipher::decrypt`,
             `decrypt_sender_key_message`).

  Both walk a chain up to the message before they can tell whether it opens, and the keys they pass
  go to a cache that is not taken back. A session does so on purpose: the keys are those of real
  positions. It may be left with more than a cache, though, if the message came with a new ratchet
  key: what that leaves is not said here. The cache of a group receiver has no place for such keys.

  * **`failed_decrypt`** -- a message of a known chain that fails: its cache has the keys of the
    positions before it, if it was at or ahead of its chain and did not open, and else nothing has
    changed;
  * `sound_step` -- one wire keeps a receiver's cache sound, exactly when its walk is not in vain
    and its iteration is not the last of all;
  * **`group_atomic_iff`** -- a failure leaves a receiver as it was, and every state that it reaches
    has a sound cache, exactly when this holds of its wires.
-/
import Ruwa.Crypto.SenderKey
import Ruwa.Crypto.SignalReplay
import Ruwa.Library.Run

namespace Ruwa.Crypto

open Ruwa.Library

/-! ## 1. A session -/

namespace Signal

section

variable {P : SignalPrimitives} {localId remoteId : U8Array 32} {rc rc' : ReceiverChain}
  {m : WhisperMessage} {e : SignalError}

/-- The keys of the positions of a chain from where it stands up to a counter. -/
def passedKeys (P : SignalPrimitives) (rc : ReceiverChain) (counter : UInt32) : List MessageKeys :=
  (List.range (counter.toNat - rc.chainKey.index.toNat)).map fun j =>
    deriveMessageKeys P (chainAt P.hashing rc.chainKey j)

/-- The walk to a counter derives them. -/
theorem walkTo_passedKeys {counter : UInt32} (h : ¬counter < rc.chainKey.index) :
    (walkTo P.hashing (deriveMessageKeys P) counter rc.chainKey).1 = passedKeys P rc counter := by
  rw [UInt32.lt_iff_toNat_lt, Nat.not_lt] at h
  have htarget : counter.toNat =
      rc.chainKey.index.toNat + (counter.toNat - rc.chainKey.index.toNat) := by omega
  have hwalk := walkTo_chainAt P.hashing (deriveMessageKeys P) (Nat.zero_le _) htarget
  rw [show chainAt P.hashing rc.chainKey 0 = rc.chainKey from rfl] at hwalk
  rw [hwalk]
  unfold passedKeys
  rw [List.range_eq_range', Nat.sub_zero]

/-- The chain of a message that failed, with the keys of the positions before it. -/
def ReceiverChain.passed (P : SignalPrimitives) (rc : ReceiverChain) (counter : UInt32) :
    ReceiverChain :=
  { rc with skippedKeys := rc.skippedKeys ++ passedKeys P rc counter }

theorem openWith_error {mks : MessageKeys} (h : openWith P localId remoteId mks m = .error e) :
    e = .badMac ∨ e = .aesDecrypt := by
  unfold openWith at h
  dsimp only at h
  split at h
  · cases h
    exact Or.inl rfl
  · split at h
    · cases h
      exact Or.inr rfl
    · cases h

/-- **A message that fails on its chain**: at or ahead of it and with a bad MAC or bad padding, it
    leaves the keys of the positions before it; else nothing. -/
theorem onChain_error (h : onChain P localId remoteId rc m = (.error e, rc')) :
    ((¬m.counter < rc.chainKey.index ∧ (e = .badMac ∨ e = .aesDecrypt)) →
      rc' = rc.passed P m.counter ∧ rc'.skippedKeys.length ≤ MAX_SKIPPED_MESSAGE_KEYS) ∧
    (¬(¬m.counter < rc.chainKey.index ∧ (e = .badMac ∨ e = .aesDecrypt)) → rc' = rc) := by
  unfold onChain at h
  split at h
  · -- A late one: the cache loses nothing.
    rename_i hlate
    have hsame : rc' = rc := by
      split at h
      · cases h
        rfl
      · split at h
        · cases h
          rfl
        · cases h
    exact ⟨fun hahead => absurd hlate hahead.1, fun _ => hsame⟩
  · rename_i hahead
    split at h
    · -- Beyond the limit it is malformed.
      cases h
      exact ⟨fun hfails => (hfails.2.elim nofun nofun), fun _ => rfl⟩
    · rename_i hreach
      have hkept := walkTo_passedKeys (P := P) hahead
      rcases hwalk : walkTo P.hashing (deriveMessageKeys P) m.counter rc.chainKey
        with ⟨kept, walking⟩
      rw [hwalk] at h hkept
      dsimp only at h hkept
      split at h
      · rename_i hopen
        cases h
        refine ⟨fun _ => ⟨?_, ?_⟩, fun hother => absurd ⟨hahead, openWith_error hopen⟩ hother⟩
        · unfold ReceiverChain.passed
          rw [hkept]
        · dsimp only
          rw [hkept, List.length_append]
          unfold passedKeys
          rw [List.length_map, List.length_range]
          exact Nat.not_lt.mp hreach
      · cases h

end

/-- The message of a wire and its chain, if it is at or ahead of that. -/
def reached (P : SignalPrimitives) (state : SessionState) (wire : Bytes) :
    Option (WhisperMessage × Nat × ReceiverChain) :=
  match parseWire P wire with
  | .error _ => none
  | .ok m =>
      match chainIdx state.receiverChains m.ratchetPub with
      | none => none
      | some idx =>
          match state.receiverChains[idx]? with
          | none => none
          | some rc => if m.counter < rc.chainKey.index then none else some (m, idx, rc)

/-- **A message of a known chain that fails.** Whatever state a session is in, let a wire be refused
    that is not the first of a new chain. After a bad MAC or bad padding of a message at or ahead of
    its chain, the chain has cached the keys of the positions before it, no more than the limit, and
    the rest is as it was. After anything else everything is as it was. -/
theorem failed_decrypt (P : SignalPrimitives) (state : SessionState) (fresh : U8Array 32)
    (wire : Bytes) (e : SignalError) (h : (decrypt P state fresh wire).1 = .error e)
    (hknown : ∀ m, parseWire P wire = .ok m →
      (chainIdx state.receiverChains m.ratchetPub).isSome = true ∨ state.senderRatchetPriv = none) :
    (∀ m idx rc, reached P state wire = some (m, idx, rc) → e = .badMac ∨ e = .aesDecrypt →
      (rc.passed P m.counter).skippedKeys.length ≤ MAX_SKIPPED_MESSAGE_KEYS ∧
        (decrypt P state fresh wire).2 = { state with
          receiverChains := state.receiverChains.set idx (rc.passed P m.counter) }) ∧
    (reached P state wire = none ∨ ¬(e = .badMac ∨ e = .aesDecrypt) →
      (decrypt P state fresh wire).2 = state) := by
  unfold reached
  unfold decrypt at h ⊢
  cases hparse : parseWire P wire with
  | error e' => exact ⟨nofun, fun _ => rfl⟩
  | ok m =>
      rw [hparse] at h
      dsimp only at h ⊢
      unfold decryptMessage at h ⊢
      cases hidx : chainIdx state.receiverChains m.ratchetPub with
      | none =>
          -- A new ratchet key: the session cannot step, or the wire is none of these.
          rcases hknown m hparse with hsome | hnone
          · rw [hidx] at hsome
            cases hsome
          · refine ⟨nofun, fun _ => ?_⟩
            unfold dhRatchetStep
            rw [hnone]
      | some idx =>
          rw [hidx] at h
          dsimp only at h ⊢
          unfold decryptAt at h ⊢
          cases hrc : state.receiverChains[idx]? with
          | none => exact ⟨nofun, fun _ => rfl⟩
          | some rc =>
              rw [hrc] at h
              dsimp only at h ⊢
              rcases hchain : onChain P state.localIdentityPub state.remoteIdentityPub rc m
                with ⟨_ | p, rc'⟩
              · rw [hchain] at h
                cases h
                dsimp only
                obtain ⟨hpassed, hsame⟩ := onChain_error hchain
                constructor
                · intro m' idx' rc₀ hreached hfails
                  split at hreached
                  · cases hreached
                  · rename_i hahead
                    cases hreached
                    obtain ⟨rfl, hlimit⟩ := hpassed ⟨hahead, hfails⟩
                    exact ⟨hlimit, rfl⟩
                · intro hother
                  have hunchanged : rc' = rc := by
                    refine hsame fun ⟨hahead, hfails⟩ => ?_
                    rw [if_neg hahead] at hother
                    exact hother.elim nofun fun hno => hno hfails
                  obtain ⟨hlt, rfl⟩ := List.getElem?_eq_some_iff.mp hrc
                  rw [hunchanged, List.set_getElem_self hlt]
              · rw [hchain] at h
                cases h

open Known

/-- The forged message has a bad MAC, and is ahead of its chain. -/
theorem failed_forgery : ∃ m idx rc, reached primitives bob forgedWire = some (m, idx, rc) ∧
    (decrypt primitives bob ratchet₂ forgedWire).2 = { bob with
      receiverChains := bob.receiverChains.set idx (rc.passed primitives m.counter) } := by
  obtain ⟨⟨m, idx, rc⟩, hreached⟩ := Option.isSome_iff_exists.mp
    (show (reached primitives bob forgedWire).isSome = true by decide +kernel)
  have hpassed := (failed_decrypt primitives bob ratchet₂ forgedWire .badMac (by decide +kernel)
    fun _ _ => Or.inr rfl).1 m idx rc hreached (Or.inl rfl)
  exact ⟨m, idx, rc, hreached, hpassed.2⟩

/-- The key of the position before it is in the cache then. -/
theorem forgery_cached :
    (decrypt primitives bob ratchet₂ forgedWire).1 = .error .badMac ∧
      (decrypt primitives bob ratchet₂ forgedWire).2 ≠ bob := by
  decide +kernel

end Signal

/-! ## 2. A group receiver -/

namespace SenderKey

section

variable (P : SenderKeyPrimitives)

/-- The message keys of an iteration that is not behind the chain. -/
def keysOf (recv : SenderKeyReceiverState) (iteration : UInt32) : U8Array 16 × U8Array 32 :=
  deriveSenderMessageKeys P (walkTo P.hashing (skippedKey P) iteration recv.chainKey).2

/-- The iteration of a wire whose signature and fields are right, if it is within reach of the
    chain, and whether its ciphertext opens with the keys of that iteration. -/
def ahead (recv : SenderKeyReceiverState) (wire : Bytes) : Option (UInt32 × Bool) :=
  match openWire P recv.signingPub wire with
  | .error _ => none
  | .ok (iteration, ciphertext) =>
      if iteration < recv.chainKey.index ∨
          iteration.toNat - recv.chainKey.index.toNat > MAX_SKIPPED_SENDER_KEYS then none
      else
        let keys := keysOf P recv iteration
        some (iteration, (P.cbc.decrypt keys.2 keys.1 ciphertext).isSome)

/-- The wire passes over iterations, and its ciphertext does not open. -/
def InVain (recv : SenderKeyReceiverState) (wire : Bytes) : Prop :=
  ∃ iteration, ahead P recv wire = some (iteration, false) ∧ recv.chainKey.index < iteration

/-- The wire opens with the last iteration of all, and the cache has keys of others then. -/
def Outruns (recv : SenderKeyReceiverState) (wire : Bytes) : Prop :=
  ahead P recv wire = some (0xFFFFFFFF, true) ∧
    (recv.skipped ≠ [] ∨ recv.chainKey.index < 0xFFFFFFFF)

/-- **The condition on a wire.** -/
def Clean (recv : SenderKeyReceiverState) (wire : Bytes) : Prop :=
  ¬InVain P recv wire ∧ ¬Outruns P recv wire

/-- **A sound cache.** -/
structure Sound (recv : SenderKeyReceiverState) : Prop where
  distinct : (recv.skipped.map SkippedSenderKey.iteration).Nodup
  below : ∀ s ∈ recv.skipped, s.iteration < recv.chainKey.index
  bounded : recv.skipped.length ≤ MAX_SKIPPED_SENDER_KEYS

def step (recv : SenderKeyReceiverState) (wire : Bytes) : Option SenderKeyReceiverState :=
  some (decryptSenderKeyMessage P recv wire).2

end

section

variable {P : SenderKeyPrimitives} {recv : SenderKeyReceiverState} {wire : Bytes}

/-- A wire that does not get to a walk: it is refused, or it takes its key from the cache. -/
theorem decrypt_behind (h : ahead P recv wire = none) :
    (∃ e, decryptSenderKeyMessage P recv wire = (.error e, recv)) ∨
      ∃ p rest, rest.Sublist recv.skipped ∧
        decryptSenderKeyMessage P recv wire = (.ok p, { recv with skipped := rest }) := by
  unfold ahead at h
  unfold decryptSenderKeyMessage
  cases hopen : openWire P recv.signingPub wire with
  | error e => exact Or.inl ⟨e, rfl⟩
  | ok fields =>
      obtain ⟨iteration, ciphertext⟩ := fields
      rw [hopen] at h
      dsimp only at h ⊢
      unfold decryptAt
      by_cases hlate : iteration < recv.chainKey.index
      · rw [if_pos hlate]
        cases hfound : takeFirst (fun s => s.iteration == iteration) recv.skipped with
        | none => exact Or.inl ⟨_, rfl⟩
        | some found =>
            obtain ⟨sk, rest⟩ := found
            dsimp only
            cases P.cbc.decrypt sk.cipherKey sk.iv ciphertext with
            | none => exact Or.inl ⟨_, rfl⟩
            | some p => exact Or.inr ⟨p, rest, takeFirst_sublist hfound, rfl⟩
      · rw [if_neg hlate]
        by_cases hfar : iteration.toNat - recv.chainKey.index.toNat > MAX_SKIPPED_SENDER_KEYS
        · rw [if_pos hfar]
          exact Or.inl ⟨_, rfl⟩
        · rw [if_neg (not_or.mpr ⟨hlate, hfar⟩)] at h
          cases h

/-- The keys of the iterations up to one that is not behind the chain. -/
theorem walkTo_iterations {iteration : UInt32} (h : ¬iteration < recv.chainKey.index) :
    let walk := walkTo P.hashing (skippedKey P) iteration recv.chainKey
    walk.2.index = iteration ∧
      walk.1.map (fun s => s.iteration.toNat) =
        List.range' recv.chainKey.index.toNat (iteration.toNat - recv.chainKey.index.toNat) := by
  rw [UInt32.lt_iff_toNat_lt, Nat.not_lt] at h
  have hbound := iteration.toNat_lt
  have htarget : iteration.toNat =
      recv.chainKey.index.toNat + (iteration.toNat - recv.chainKey.index.toNat) := by omega
  have hwalk := walkTo_chainAt P.hashing (skippedKey P) (Nat.zero_le _) htarget
  rw [show chainAt P.hashing recv.chainKey 0 = recv.chainKey from rfl] at hwalk
  rw [hwalk]
  refine ⟨?_, ?_⟩
  · rw [← UInt32.toNat_inj, index_chainAt P.hashing (by omega)]
    omega
  · rw [List.map_map, Nat.sub_zero, ← List.range_eq_range', List.range'_eq_map_range]
    refine List.map_congr_left fun j hj => ?_
    have hj := List.mem_range.mp hj
    show (chainAt P.hashing recv.chainKey j).index.toNat = recv.chainKey.index.toNat + j
    exact index_chainAt P.hashing (by omega)

/-- A wire that walks, and opens or does not. -/
theorem decrypt_ahead {iteration : UInt32} {opens : Bool}
    (h : ahead P recv wire = some (iteration, opens)) :
    let walk := walkTo P.hashing (skippedKey P) iteration recv.chainKey
    ¬iteration < recv.chainKey.index ∧
      (opens = false → decryptSenderKeyMessage P recv wire =
        (.error .aes, { recv with skipped := recv.skipped ++ walk.1 })) ∧
      (opens = true → ∃ p, decryptSenderKeyMessage P recv wire = (.ok p, { recv with
        chainKey := walk.2.next P.hashing
        skipped := (recv.skipped ++ walk.1).drop
          ((recv.skipped ++ walk.1).length - MAX_SKIPPED_SENDER_KEYS) })) := by
  intro walk
  unfold ahead at h
  unfold decryptSenderKeyMessage
  cases hopen : openWire P recv.signingPub wire with
  | error e =>
      rw [hopen] at h
      cases h
  | ok fields =>
      obtain ⟨iteration', ciphertext⟩ := fields
      rw [hopen] at h
      dsimp only at h ⊢
      by_cases hout : iteration' < recv.chainKey.index ∨
          iteration'.toNat - recv.chainKey.index.toNat > MAX_SKIPPED_SENDER_KEYS
      · rw [if_pos hout] at h
        cases h
      · rw [if_neg hout] at h
        obtain ⟨hlate, hfar⟩ := not_or.mp hout
        cases h
        unfold decryptAt keysOf
        rw [if_neg hlate, if_neg hfar]
        rcases hwalk : walkTo P.hashing (skippedKey P) iteration recv.chainKey with ⟨kept, walking⟩
        have hkept : walk = (kept, walking) := hwalk
        rw [hkept]
        dsimp only
        cases hplain : P.cbc.decrypt (deriveSenderMessageKeys P walking).2
            (deriveSenderMessageKeys P walking).1 ciphertext with
        | none => exact ⟨hlate, fun _ => rfl, nofun⟩
        | some p => exact ⟨hlate, nofun, fun _ => ⟨p, rfl⟩⟩

/-- **A failure leaves a receiver as it was**, exactly when its walk was not in vain. -/
theorem failed_unchanged_iff {e : SkMsgError}
    (h : (decryptSenderKeyMessage P recv wire).1 = .error e) :
    (decryptSenderKeyMessage P recv wire).2 = recv ↔ ¬InVain P recv wire := by
  cases hahead : ahead P recv wire with
  | none =>
      have hvain : ¬InVain P recv wire := fun ⟨_, hsome, _⟩ => nomatch hahead.symm.trans hsome
      rcases decrypt_behind hahead with ⟨e', herror⟩ | ⟨p, rest, -, hok⟩
      · rw [herror]
        exact iff_of_true rfl hvain
      · rw [hok] at h
        cases h
  | some found =>
      obtain ⟨iteration, opens⟩ := found
      obtain ⟨hlate, hfails, hopens⟩ := decrypt_ahead hahead
      obtain ⟨-, hkept⟩ := walkTo_iterations (P := P) hlate
      cases opens with
      | true =>
          obtain ⟨p, hok⟩ := hopens rfl
          rw [hok] at h
          cases h
      | false =>
          have hvain : InVain P recv wire ↔ recv.chainKey.index < iteration :=
            ⟨fun ⟨_, hsome, hlt⟩ => by cases hahead.symm.trans hsome; exact hlt,
              fun hlt => ⟨iteration, hahead, hlt⟩⟩
          rw [hfails rfl, hvain]
          have hlength := congrArg List.length hkept
          rw [List.length_map, List.length_range'] at hlength
          rw [UInt32.lt_iff_toNat_lt]
          constructor
          · intro hsame
            have hnil := congrArg SenderKeyReceiverState.skipped hsame
            rw [List.append_right_eq_self] at hnil
            rw [hnil, List.length_nil] at hlength
            omega
          · intro hlt
            have hnil : (walkTo P.hashing (skippedKey P) iteration recv.chainKey).1 = [] :=
              List.length_eq_zero_iff.mp (by omega)
            rw [hnil, List.append_nil]

/-- The keys of a walk come after those of a sound cache. -/
theorem Sound.walk (h : Sound recv) {iteration : UInt32}
    (hlate : ¬iteration < recv.chainKey.index) :
    let walk := walkTo P.hashing (skippedKey P) iteration recv.chainKey
    ((recv.skipped ++ walk.1).map SkippedSenderKey.iteration).Nodup ∧
      ∀ s ∈ recv.skipped ++ walk.1, s.iteration < iteration := by
  intro walk
  obtain ⟨-, hkept⟩ := walkTo_iterations (P := P) hlate
  have hbetween : ∀ s ∈ walk.1, recv.chainKey.index.toNat ≤ s.iteration.toNat ∧
      s.iteration.toNat < iteration.toNat := by
    intro s hs
    have hmem := List.mem_map_of_mem (f := fun s => s.iteration.toNat) hs
    rw [hkept, List.mem_range'_1] at hmem
    omega
  rw [UInt32.lt_iff_toNat_lt] at hlate
  refine ⟨?_, fun s hs => ?_⟩
  · rw [List.map_append]
    refine List.nodup_append.mpr ⟨h.distinct, ?_, fun i hi j hj hij => ?_⟩
    · refine List.Nodup.of_map UInt32.toNat ?_
      rw [List.map_map]
      exact hkept ▸ List.nodup_range'
    · obtain ⟨s, hs, rfl⟩ := List.mem_map.mp hi
      obtain ⟨s', hs', rfl⟩ := List.mem_map.mp hj
      have hbelow := UInt32.lt_iff_toNat_lt.mp (h.below s hs)
      have habove := (hbetween s' hs').1
      rw [hij] at hbelow
      omega
  · rw [UInt32.lt_iff_toNat_lt]
    rcases List.mem_append.mp hs with hs | hs
    · have hbelow := UInt32.lt_iff_toNat_lt.mp (h.below s hs)
      omega
    · exact (hbetween s hs).2

/-- A cache that has been emptied in part is as sound as it was. -/
theorem Sound.sublist (h : Sound recv) {rest : List SkippedSenderKey}
    (hrest : rest.Sublist recv.skipped) : Sound { recv with skipped := rest } where
  distinct := h.distinct.sublist (hrest.map _)
  below s hs := h.below s (hrest.subset hs)
  bounded := Nat.le_trans hrest.length_le h.bounded

/-- Nothing is walked over only where the chain stands at the iteration. -/
theorem walkTo_eq_nil {iteration : UInt32} (hlate : ¬iteration < recv.chainKey.index) :
    (walkTo P.hashing (skippedKey P) iteration recv.chainKey).1 = [] ↔
      ¬recv.chainKey.index < iteration := by
  obtain ⟨-, hkept⟩ := walkTo_iterations (P := P) hlate
  have hlength := congrArg List.length hkept
  rw [List.length_map, List.length_range'] at hlength
  rw [← List.length_eq_zero_iff, hlength, UInt32.lt_iff_toNat_lt]
  omega

/-- A walk in vain leaves a key that is not behind the chain. -/
theorem sound_vain (h : Sound recv) {iteration : UInt32}
    (hlate : ¬iteration < recv.chainKey.index) :
    Sound { recv with
      skipped := recv.skipped ++ (walkTo P.hashing (skippedKey P) iteration recv.chainKey).1 } ↔
    ¬recv.chainKey.index < iteration := by
  rw [← walkTo_eq_nil (P := P) hlate]
  refine ⟨fun hsound => ?_, fun hnil => by rw [hnil, List.append_nil]; exact h⟩
  obtain ⟨-, hkept⟩ := walkTo_iterations (P := P) hlate
  rcases hwalk : (walkTo P.hashing (skippedKey P) iteration recv.chainKey).1 with _ | ⟨s, rest⟩
  · rfl
  · exfalso
    rw [hwalk] at hsound hkept
    have hbelow := UInt32.lt_iff_toNat_lt.mp (hsound.below s
      (List.mem_append_right _ List.mem_cons_self))
    have hmem := List.mem_map_of_mem (f := fun s => s.iteration.toNat)
      (List.mem_cons_self (a := s) (l := rest))
    rw [hkept, List.mem_range'_1] at hmem
    exact Nat.not_lt.mpr hmem.1 hbelow

/-- The iteration after one that is not the last. -/
theorem toNat_succ {i : UInt32} (h : i ≠ 0xFFFFFFFF) : (i + 1).toNat = i.toNat + 1 := by
  have hbound := i.toNat_lt
  have hroom : i.toNat ≠ 4294967295 := fun heq =>
    h (UInt32.toNat_inj.mp (heq.trans (by decide)))
  rw [UInt32.toNat_add, UInt32.toNat_one]
  exact Nat.mod_eq_of_lt (by omega)

/-- A walk that opens commits the chain behind its iteration. -/
theorem sound_opened (h : Sound recv) {iteration : UInt32}
    (hlate : ¬iteration < recv.chainKey.index) :
    let walk := walkTo P.hashing (skippedKey P) iteration recv.chainKey
    Sound { recv with
      chainKey := walk.2.next P.hashing
      skipped := (recv.skipped ++ walk.1).drop
        ((recv.skipped ++ walk.1).length - MAX_SKIPPED_SENDER_KEYS) } ↔
    ¬(iteration = 0xFFFFFFFF ∧ (recv.skipped ≠ [] ∨ recv.chainKey.index < iteration)) := by
  intro walk
  obtain ⟨hindex, -⟩ := walkTo_iterations (P := P) hlate
  obtain ⟨hdistinct, hbelow⟩ := h.walk (P := P) hlate
  have hnext : (walk.2.next P.hashing).index = iteration + 1 := congrArg (· + 1) hindex
  by_cases hlast : iteration = 0xFFFFFFFF
  · -- The chain starts over, and nothing is behind it.
    have hzero : (walk.2.next P.hashing).index = 0 := by
      rw [hnext, hlast]
      rfl
    have hempty : recv.skipped ++ walk.1 = [] ↔
        ¬(recv.skipped ≠ [] ∨ recv.chainKey.index < iteration) := by
      rw [List.append_eq_nil_iff, walkTo_eq_nil hlate, not_or, not_not]
    rw [not_and, ← hempty]
    refine ⟨fun hsound _ => ?_, fun hnil => ?_⟩
    · rcases hall : recv.skipped ++ walk.1 with _ | ⟨s, rest⟩
      · rfl
      · exfalso
        have hlength : 0 < ((recv.skipped ++ walk.1).drop
            ((recv.skipped ++ walk.1).length - MAX_SKIPPED_SENDER_KEYS)).length := by
          rw [List.length_drop, hall, List.length_cons]
          have hcap : 0 < MAX_SKIPPED_SENDER_KEYS := by decide
          omega
        obtain ⟨s, hs⟩ := List.exists_mem_of_length_pos hlength
        have hbehind := hsound.below
        dsimp only at hbehind
        have hs := hbehind s hs
        rw [hzero] at hs
        exact UInt32.not_lt_zero hs
    · rw [hnil hlast, List.drop_nil]
      exact ⟨List.nodup_nil, nofun, Nat.zero_le _⟩
  · refine iff_of_true ?_ fun hboth => hlast hboth.1
    constructor
    · dsimp only
      exact hdistinct.sublist ((List.drop_sublist _ _).map _)
    · dsimp only
      intro s hs
      have hs := UInt32.lt_iff_toNat_lt.mp (hbelow s (List.mem_of_mem_drop hs))
      rw [hnext, UInt32.lt_iff_toNat_lt, toNat_succ hlast]
      exact Nat.lt_succ_of_lt hs
    · dsimp only
      rw [List.length_drop]
      omega

/-- **One wire keeps the cache sound**, exactly when it meets the condition. -/
theorem sound_step (h : Sound recv) :
    Sound (decryptSenderKeyMessage P recv wire).2 ↔ Clean P recv wire := by
  unfold Clean InVain Outruns
  cases hahead : ahead P recv wire with
  | none =>
      refine iff_of_true ?_ ⟨?_, fun hout => nomatch hout.1⟩
      case refine_2 =>
        rintro ⟨_, hsome, -⟩
        cases hsome
      rcases decrypt_behind hahead with ⟨e, herror⟩ | ⟨p, rest, hrest, hok⟩
      · rw [herror]
        exact h
      · rw [hok]
        exact h.sublist hrest
  | some found =>
      obtain ⟨iteration, opens⟩ := found
      obtain ⟨hlate, hfails, hopens⟩ := decrypt_ahead hahead
      cases opens with
      | false =>
          rw [hfails rfl, sound_vain h hlate]
          refine ⟨fun hnot => ⟨fun ⟨_, hsome, hlt⟩ => ?_, fun hout => nomatch hout.1⟩,
            fun hclean hlt => hclean.1 ⟨iteration, rfl, hlt⟩⟩
          cases hsome
          exact hnot hlt
      | true =>
          obtain ⟨p, hok⟩ := hopens rfl
          have hiff := sound_opened (P := P) h hlate
          dsimp only at hiff
          rw [hok, hiff]
          constructor
          · intro hnot
            refine ⟨?_, ?_⟩
            · rintro ⟨_, hsome, -⟩
              cases hsome
            · rintro ⟨hsome, hleft⟩
              cases hsome
              exact hnot ⟨rfl, hleft⟩
          · rintro ⟨-, hin⟩ ⟨hlast, hleft⟩
            rw [hlast] at hin hleft
            exact hin ⟨rfl, hleft⟩

theorem sound_install (skdm : SenderKeyDistribution) : Sound (installDistribution skdm) :=
  ⟨List.nodup_nil, nofun, Nat.zero_le _⟩

end

/-- **Group decryption is atomic** in a failure, and keeps its cache sound through any run of wires
    from a distribution on, exactly when no walk of it is in vain and none outruns the index. -/
theorem group_atomic_iff (P : SenderKeyPrimitives) :
    (∀ recv wire e, (decryptSenderKeyMessage P recv wire).1 = .error e →
      ((decryptSenderKeyMessage P recv wire).2 = recv ↔ ¬InVain P recv wire)) ∧
    ∀ skdm wires,
      (∀ pre post recv, wires = pre ++ post →
        runFrom (step P) (installDistribution skdm) pre = some recv → Sound recv) ↔
      Meets (step P) (Clean P) (installDistribution skdm) wires := by
  refine ⟨fun recv wire e h => failed_unchanged_iff h, fun skdm wires => ?_⟩
  have hrun : ∀ wires : List Bytes, ∀ recv, ∃ last, runFrom (step P) recv wires = some last := by
    intro wires
    induction wires with
    | nil => exact fun recv => ⟨recv, rfl⟩
    | cons wire wires ih => exact fun recv => ih _
  obtain ⟨last, hlast⟩ := hrun wires (installDistribution skdm)
  refine run_states_iff (I := fun _ => True) (fun _ _ _ _ _ => trivial)
    (fun recv wire recv' _ hsound hstep => ?_) trivial (sound_install skdm) hlast
  cases hstep
  exact sound_step hsound

namespace Known

/-- A message of the sender with iteration 1 that holds a block of zeros, with its signature. -/
def blankBody : Bytes := [0x33, 8, 7, 0x10, 1, 0x1a, 16] ++ List.replicate 16 0
def blankSig : U8Array 64 :=
  .ofNat 64 0xce45c4cc94f013445c86a6291b734f6f306448aa29542e8f0cbb1dcd436217de05b9512e24042d0e124d76c376d3b8236255913c628a89995320d136e255980a

def blankPrimitives : SenderKeyPrimitives where
  hashing := hashing
  cbc := .ofTable [⟨(key₀, iv₀), zero, zeroCt⟩]
  xeddsa := .ofTable [(signingPriv, signingPub)] [((signingPub, blankBody), blankSig)]
  proto := SenderKeyMessageProto.codec
  encode_ne_nil := SenderKeyMessageProto.encode_ne_nil

/-- What a receiver has after the message has come this many times. -/
def afterBlanks (n : Nat) : SenderKeyReceiverState :=
  (List.replicate n (blankBody ++ blankSig.bytes)).foldl
    (fun recv wire => (decryptSenderKeyMessage blankPrimitives recv wire).2)
    (installDistribution (sender 0).distribution)

end Known

open Known

/-- **A block that does not open is retried.** The message is refused both times, the chain stands
    where it stood, and the key of iteration 0 is in the cache twice. -/
theorem blank_cached_twice :
    (∀ n ∈ [0, 1], (decryptSenderKeyMessage blankPrimitives (afterBlanks n)
      (blankBody ++ blankSig.bytes)).1 = .error .aes) ∧
    (afterBlanks 2).chainKey.index = 0 ∧
    (afterBlanks 2).skipped.map SkippedSenderKey.iteration = [0, 0] := by
  decide +kernel

end SenderKey

end Ruwa.Crypto
