/-
  File:      Ruwa/Crypto/SignalPosition.lean
  Subject:   WHERE A SESSION STANDS (`crypto.rs`, `SessionCipher`): the ratchet key and the counter of
             the message that it sends next, and what it can still receive.

  * `position` -- the ratchet key and the counter that a ciphertext carries;
  * `encrypt_standing` -- an encryption carries the position where its session stands, which moves on;
  * `decrypt_standing` -- a decryption leaves it there, or begins a chain with a key of its own;
  * **`decrypt_keeps`** -- a decryption keeps what the session can receive, but for the key that it
    used and the oldest chain if there are too many.
-/
import Ruwa.Crypto.SignalWindow

namespace Ruwa.Crypto.Signal

open Ruwa.Library

/-! ## 1. Positions -/

/-- The ratchet key and the counter of the next message, if the session can send. -/
def SessionState.standing (s : SessionState) : Option (U8Array 32 × Nat) :=
  match s.senderChain, s.senderRatchetPub with
  | some chain, some ratchetPub => some (ratchetPub, chain.index.toNat)
  | _, _ => none

section

variable (P : SignalPrimitives)

def wirePosition (wire : Bytes) : Option (U8Array 32 × Nat) :=
  match parseWire P wire with
  | .ok m => some (m.ratchetPub, m.counter.toNat)
  | .error _ => none

/-- What a ciphertext carries; in a PreKey message it is carried by the message inside. -/
def position (m : CiphertextMessage) : Option (U8Array 32 × Nat) :=
  match m.messageType with
  | .whisper => wirePosition P m.serialized
  | .preKey =>
      match parsePreKeyMessage P m.serialized with
      | .ok info => wirePosition P info.innerWhisperWire
      | .error _ => none

variable {P} {s s' : SessionState} {fresh : U8Array 32} {plaintext wire : Bytes}
  {m : CiphertextMessage}

/-! ## 2. Sending -/

theorem firstSend_ok {s₀ : SessionState} (h : bobFirstSendStep P s fresh = .ok s₀) :
    ∃ key, s₀.senderChain = some ⟨key, 0⟩ ∧ s₀.senderRatchetPub = some (P.x25519.pub fresh) := by
  unfold bobFirstSendStep at h
  split at h
  · cases h
  · cases h
    exact ⟨_, rfl, rfl⟩

/-- A session encrypts as it is, or after its first step as a sender. -/
theorem encrypt_ok (h : encrypt P s fresh plaintext = (.ok m, s')) :
    ∃ s₀ chain ratchetPub, encrypt P s₀ fresh plaintext = (.ok m, s') ∧
      s₀.senderChain = some chain ∧ s₀.senderRatchetPub = some ratchetPub ∧
      (s₀ = s ∨ s.senderChain = none ∧ ratchetPub = P.x25519.pub fresh ∧ chain.index = 0) := by
  cases hchain : s.senderChain with
  | some chain =>
      cases hpub : s.senderRatchetPub with
      | some ratchetPub => exact ⟨s, chain, ratchetPub, h, hchain, hpub, .inl rfl⟩
      | none =>
          unfold encrypt at h
          rw [hchain, Option.isNone_some, if_neg Bool.false_ne_true] at h
          dsimp only at h
          rw [hchain, hpub] at h
          cases h
  | none =>
      unfold encrypt at h
      rw [hchain, Option.isNone_none, if_pos rfl] at h
      cases hstep : bobFirstSendStep P s fresh with
      | error e =>
          rw [hstep] at h
          cases h
      | ok s₀ =>
          obtain ⟨key, hchain₀, hpub₀⟩ := firstSend_ok hstep
          rw [hstep] at h
          refine ⟨s₀, ⟨key, 0⟩, _, ?_, hchain₀, hpub₀, .inr ⟨rfl, rfl, rfl⟩⟩
          unfold encrypt
          rw [hchain₀, Option.isNone_some, if_neg Bool.false_ne_true]
          dsimp only at h ⊢
          rw [hchain₀] at h ⊢
          exact h

/-- **An encryption carries the position where its session stands**, which moves on by one. -/
theorem encrypt_standing (h : encrypt P s fresh plaintext = (.ok m, s'))
    (hroom : ∀ ratchetPub i, s.standing = some (ratchetPub, i) → i + 1 < 2 ^ 32) :
    ∃ ratchetPub i, wirePosition P m.serialized = some (ratchetPub, i) ∧
      m.messageType = .whisper ∧ s'.standing = some (ratchetPub, i + 1) ∧
      (s.standing = some (ratchetPub, i) ∨
        s.standing = none ∧ ratchetPub = P.x25519.pub fresh ∧ i = 0) := by
  obtain ⟨s₀, chain, ratchetPub, hencrypt, hchain, hpub, hwhich⟩ := encrypt_ok h
  rw [encrypt_of_chain P hchain hpub] at hencrypt
  cases hencrypt
  have hlast : chain.index.toNat + 1 < 2 ^ 32 := by
    rcases hwhich with rfl | ⟨-, -, hzero⟩
    · refine hroom ratchetPub _ ?_
      unfold SessionState.standing
      rw [hchain, hpub]
    · rw [hzero]
      decide
  refine ⟨ratchetPub, chain.index.toNat, ?_, rfl, ?_, ?_⟩
  · unfold wirePosition
    rw [parseWire_sealMessage]
    rfl
  · unfold SessionState.standing
    dsimp only
    rw [hpub]
    dsimp only
    rw [index_next P.hashing hlast]
  · rcases hwhich with rfl | ⟨hnone, hfresh, hzero⟩
    · left
      unfold SessionState.standing
      rw [hchain, hpub]
    · right
      refine ⟨?_, hfresh, by rw [hzero]; rfl⟩
      unfold SessionState.standing
      rw [hnone]

/-- A PreKey message carries what is carried by the message inside. -/
theorem encryptPreKey_inner {registrationId signedPreKeyId : UInt32}
    {baseKeyPub identityKeyPub : U8Array 32} {oneTimePreKeyId : Option UInt32}
    (h : encryptPreKey P s fresh plaintext registrationId baseKeyPub identityKeyPub signedPreKeyId
      oneTimePreKeyId = (.ok m, s')) :
    ∃ inner, encrypt P s fresh plaintext = (.ok inner, s') ∧
      position P m = wirePosition P inner.serialized := by
  rcases hencrypt : encrypt P s fresh plaintext with ⟨_ | inner, s''⟩
  · unfold encryptPreKey at h
    rw [hencrypt] at h
    cases h
  · obtain ⟨s₀, chain, ratchetPub, hencrypt₀, hchain, hpub, -⟩ := encrypt_ok hencrypt
    obtain ⟨wire, inner', hpre, hinner, hparse⟩ := parsePreKeyMessage_encryptPreKey P hchain hpub
      fresh plaintext registrationId baseKeyPub identityKeyPub signedPreKeyId oneTimePreKeyId
    have hsame : encryptPreKey P s fresh plaintext registrationId baseKeyPub identityKeyPub
        signedPreKeyId oneTimePreKeyId = encryptPreKey P s₀ fresh plaintext registrationId baseKeyPub
          identityKeyPub signedPreKeyId oneTimePreKeyId := by
      unfold encryptPreKey
      rw [hencrypt, hencrypt₀]
    rw [hencrypt₀] at hpre hinner
    cases hinner
    rw [hsame, hpre] at h
    cases h
    refine ⟨_, rfl, ?_⟩
    unfold position
    dsimp only
    rw [hparse]

/-! ## 3. Receiving -/

theorem standing_receiverChains (s : SessionState) (chains : List ReceiverChain) :
    { s with receiverChains := chains }.standing = s.standing := rfl

/-- A ratchet step begins a chain with the new key. -/
theorem standing_stepped {m : WhisperMessage}
    (h : dhRatchetStep P s m.ratchetPub fresh = .ok s') :
    s'.standing = some (P.x25519.pub fresh, 0) := by
  unfold dhRatchetStep at h
  split at h
  · cases h
  · cases h
    rfl

/-- **A decryption leaves the sender where it stands**, or begins a chain with its own key. -/
theorem decrypt_standing {p : Bytes} (h : decrypt P s fresh wire = (.ok p, s')) :
    s'.standing = s.standing ∨ s'.standing = some (P.x25519.pub fresh, 0) := by
  obtain ⟨m, -, ⟨idx, -, hopens⟩ | ⟨-, key, stepped, hstepped, hopens⟩⟩ := decrypt_ok h
  · obtain ⟨rc, rc', -, -, rfl⟩ := hopens.chain
    exact .inl (standing_receiverChains s _)
  · obtain ⟨rc, rc', -, -, rfl⟩ := hopens.chain
    rw [standing_receiverChains]
    exact .inr (standing_stepped hstepped.step)

/-- What `rc'` has left to receive is what `rc` has, but for what is behind it, and but for the key
    of a counter that was used. -/
structure Onward (used : Option Nat) (rc rc' : ReceiverChain) : Prop where
  pub : rc'.remoteRatchetPub = rc.remoteRatchetPub
  index : rc.chainKey.index ≤ rc'.chainKey.index
  skipped : ∀ k ∈ rc.skippedKeys, k ∈ rc'.skippedKeys ∨ used = some k.counter.toNat

theorem Onward.refl (used : Option Nat) (rc : ReceiverChain) : Onward used rc rc :=
  ⟨rfl, UInt32.le_refl _, fun _ hk => .inl hk⟩

section

local instance pubLawfulBEq : LawfulBEq (U8Array 32) := inferInstance

/-- The chains that a message at this position leaves: all, or all but the oldest if it is the first
    of another one, and there are as many as are kept. -/
def SessionState.lasting (s : SessionState) (ratchetPub : U8Array 32) : List ReceiverChain :=
  if ratchetPub ∈ s.receiverChains.map (·.remoteRatchetPub) then s.receiverChains
  else s.receiverChains.take (MAX_RECEIVER_CHAINS - 1)

end

/-- **Nothing that can be received is lost** to a message that was read at this position. -/
def Keeps (s s' : SessionState) (read : U8Array 32 × Nat) : Prop :=
  ∀ rc ∈ s.lasting read.1, ∃ rc' ∈ s'.receiverChains,
    Onward (if rc.remoteRatchetPub = read.1 then some read.2 else none) rc rc'

/-- A message that opens on a chain moves it on. -/
theorem onChain_onward {localId remoteId : U8Array 32} {rc rc' : ReceiverChain}
    {m : WhisperMessage} {p : Bytes} (h : onChain P localId remoteId rc m = (.ok p, rc'))
    (hlast : m.counter.toNat + 1 < 2 ^ 32) : Onward (some m.counter.toNat) rc rc' := by
  unfold onChain at h
  split at h
  · -- A late one: only its own key is taken from the cache.
    cases htake : takeFirst (fun k => k.counter == m.counter) rc.skippedKeys with
    | none =>
        rw [htake] at h
        cases h
    | some found =>
        obtain ⟨mks, rest⟩ := found
        obtain ⟨hcounter, hmem⟩ := mem_of_takeFirst htake
        rw [htake] at h
        dsimp only at h
        split at h
        · cases h
        · cases h
          refine ⟨rfl, UInt32.le_refl _, fun k hk => (hmem k hk).symm.imp_right fun heq => ?_⟩
          rw [heq, eq_of_beq hcounter]
  · next hahead =>
      split at h
      · cases h
      · rw [UInt32.lt_iff_toNat_lt, Nat.not_lt] at hahead
        have htarget : m.counter.toNat = rc.chainKey.index.toNat +
            (m.counter.toNat - rc.chainKey.index.toNat) := by omega
        have hwalk := walkTo_chainAt P.hashing (deriveMessageKeys P) (Nat.zero_le _) htarget
        rw [show chainAt P.hashing rc.chainKey 0 = rc.chainKey from rfl] at hwalk
        rw [hwalk] at h
        dsimp only at h
        split at h
        · cases h
        · cases h
          refine ⟨rfl, ?_, fun k hk => .inl (List.mem_append_left _ hk)⟩
          have hindex := index_chainAt P.hashing (c := rc.chainKey)
            (n := m.counter.toNat - rc.chainKey.index.toNat) (by omega)
          rw [UInt32.le_iff_toNat_le]
          dsimp only
          rw [index_next P.hashing (by omega), hindex]
          omega

/-- On a chain that is there. -/
theorem keeps_known {idx : Nat} {m : WhisperMessage} {p : Bytes}
    (hidx : chainIdx s.receiverChains m.ratchetPub = some idx) (h : OpensOn P s m p idx s')
    (hlast : m.counter.toNat + 1 < 2 ^ 32) : Keeps s s' (m.ratchetPub, m.counter.toNat) := by
  obtain ⟨rc₀, rc₀', hrc, hopens, rfl⟩ := h.chain
  obtain ⟨hlt, hpub, -⟩ := List.findIdx?_eq_some_iff_getElem.mp hidx
  obtain ⟨_, hget⟩ := List.getElem?_eq_some_iff.mp hrc
  have hpub₀ : rc₀.remoteRatchetPub = m.ratchetPub := hget ▸ eq_of_beq hpub
  intro rc hmem
  have hlasting : s.lasting m.ratchetPub = s.receiverChains :=
    if_pos (List.mem_map.mpr ⟨rc₀, List.mem_of_getElem? hrc, hpub₀⟩)
  rw [hlasting] at hmem
  obtain ⟨j, hj⟩ := List.getElem?_of_mem hmem
  by_cases hij : idx = j
  · subst hij
    obtain rfl : rc₀ = rc := Option.some.inj (hrc.symm.trans hj)
    refine ⟨rc₀', List.mem_set hlt rc₀', ?_⟩
    rw [if_pos hpub₀]
    exact onChain_onward hopens hlast
  · refine ⟨rc, List.mem_of_getElem? (i := j) ?_, .refl _ _⟩
    rw [List.getElem?_set_ne hij]
    exact hj

/-- On a new chain, which goes in front of the others. -/
theorem keeps_new {stepped : SessionState} {m : WhisperMessage} {p : Bytes} {key : U8Array 32}
    (hidx : chainIdx s.receiverChains m.ratchetPub = none)
    (hstepped : Stepped P s fresh m key stepped) (h : OpensOn P stepped m p 0 s') :
    Keeps s s' (m.ratchetPub, m.counter.toNat) := by
  obtain ⟨-, rc₀', -, -, rfl⟩ := h.chain
  have hnone : m.ratchetPub ∉ s.receiverChains.map (·.remoteRatchetPub) := by
    intro hmem
    obtain ⟨rc, hrc, hpub⟩ := List.mem_map.mp hmem
    exact absurd (beq_iff_eq.mpr hpub)
      (Bool.eq_false_iff.mp (List.findIdx?_eq_none_iff.mp hidx rc hrc))
  have hlasting : s.lasting m.ratchetPub = s.receiverChains.take (MAX_RECEIVER_CHAINS - 1) :=
    if_neg hnone
  intro rc hmem
  rw [hlasting] at hmem
  refine ⟨rc, ?_, .refl _ _⟩
  rw [hstepped.chains]
  exact List.mem_cons_of_mem _ hmem

/-- **A decryption keeps what its session can receive.** -/
theorem decrypt_keeps {p : Bytes} (h : decrypt P s fresh wire = (.ok p, s'))
    {read : U8Array 32 × Nat} (hread : wirePosition P wire = some read)
    (hlast : read.2 + 1 < 2 ^ 32) : Keeps s s' read := by
  obtain ⟨m, hparse, hwhich⟩ := decrypt_ok h
  unfold wirePosition at hread
  rw [hparse] at hread
  cases hread
  rcases hwhich with ⟨idx, hidx, hopens⟩ | ⟨hidx, key, stepped, hstepped, hopens⟩
  · exact keeps_known hidx hopens hlast
  · exact keeps_new hidx hstepped hopens

end

end Ruwa.Crypto.Signal
