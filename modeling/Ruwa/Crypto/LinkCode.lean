/-
  File:      Ruwa/Crypto/LinkCode.lean
  Subject:   PAIRING BY A CODE (`crypto.rs`, module `linking`): how two devices come to one secret.

  The code is a password. Each side sends an ephemeral public key under it; the companion then
  sends the primary device, under the secret of the two ephemeral keys, the randomness that goes
  into the secret of the pairing.

  * `wrapEphemeralPub`, `unwrapEphemeralPub`, `completeCodePair` -- the source; random bytes are
    parameters;
  * **`completeCodePair_agrees`** -- whoever has the private keys of the primary device opens the
    bundle, and comes to the same secret.
-/
import Ruwa.Crypto.Primitives
import Ruwa.Library.Text
import Ruwa.Library.Result

namespace Ruwa.Crypto.LinkCode

open Ruwa.Library
open Ruwa.Library.Text
open Ruwa.Crypto

/-! ## 1. The source -/

structure LinkPrimitives where
  hashing : Hashing
  x25519 : X25519
  gcm : AesGcm
  /-- PBKDF2-HMAC-SHA256 with 131072 rounds: password, salt. -/
  pbkdf2 : Bytes → Bytes → U8Array 32
  /-- AES-256 in counter mode on 32 bytes: key, IV, text. -/
  ctr : U8Array 32 → U8Array 16 → U8Array 32 → U8Array 32
  ctr_ctr : ∀ key iv text, ctr key iv (ctr key iv text) = text

structure KeyPair where
  priv : U8Array 32
  pub : U8Array 32
  deriving DecidableEq

structure CodePairResult where
  wrappedKeyBundle : Bytes
  advSecret : U8Array 32
  deriving DecidableEq

/-- What `complete_code_pair` draws. -/
structure CodePairRandom where
  advSecretRandom : U8Array 32
  keyBundleSalt : U8Array 32
  keyBundleNonce : U8Array 12
  deriving DecidableEq

variable (P : LinkPrimitives)

def linkCodeKey (linkingCode : String) (salt : U8Array 32) : U8Array 32 :=
  P.pbkdf2 (utf8 linkingCode) salt.bytes

/-- `salt || iv || ciphertext`. -/
def wrapEphemeralPub (linkingCode : String) (pub salt : U8Array 32) (iv : U8Array 16) : Bytes :=
  salt.bytes ++ iv.bytes ++ (P.ctr (linkCodeKey P linkingCode salt) iv pub).bytes

def unwrapEphemeralPub (linkingCode : String) (wrapped : Bytes) : Except String (U8Array 32) :=
  match U8Array.ofBytes? 80 (wrapped.take 80) with
  | none => .error "wrapped ephemeral pub too short"
  | some w =>
      let salt := w.slice 0 32 (Nat.le_of_ble_eq_true rfl)
      let iv := w.slice 32 16 (Nat.le_of_ble_eq_true rfl)
      .ok (P.ctr (linkCodeKey P linkingCode salt) iv (w.slice 48 32 (Nat.le_of_ble_eq_true rfl)))

/-- The key of the bundle, from the secret of the two ephemeral keys. -/
def bundleKey (salt ephemeralShared : U8Array 32) : U8Array 32 :=
  P.hashing.hkdf salt.bytes ephemeralShared.bytes
    (utf8 "link_code_pairing_key_bundle_encryption_key") 32

/-- The secret of the pairing, from both shared secrets and the companion's randomness. -/
def deriveAdvSecret (ephemeralShared identityShared random : U8Array 32) : U8Array 32 :=
  P.hashing.hkdf (List.replicate 32 0)
    (ephemeralShared.bytes ++ identityShared.bytes ++ random.bytes) (utf8 "adv_secret") 32

/-- A value, or the error that the source names. -/
def orError {α : Type} (o : Option α) (text : String) : Except String α :=
  match o with
  | none => .error text
  | some a => .ok a

def completeCodePair (linkingCode : String) (ourEphPriv : U8Array 32) (ourIdentity : KeyPair)
    (wrappedPrimaryEphPub primaryIdentityPub : Bytes) (r : CodePairRandom) :
    Except String CodePairResult := do
  let primaryId ← orError (U8Array.ofBytes? 32 primaryIdentityPub)
    "primary identity pub must be 32 bytes"
  let primaryEphPub ← unwrapEphemeralPub P linkingCode wrappedPrimaryEphPub
  let ephemeralShared := P.x25519.dh ourEphPriv primaryEphPub
  let plaintext := ourIdentity.pub.bytes ++ primaryId.bytes ++ r.advSecretRandom.bytes
  let ct ← orError
    (P.gcm.encrypt (bundleKey P r.keyBundleSalt ephemeralShared) r.keyBundleNonce [] plaintext)
    "key bundle encrypt failed"
  let identityShared := P.x25519.dh ourIdentity.priv primaryId
  return ⟨r.keyBundleSalt.bytes ++ r.keyBundleNonce.bytes ++ ct,
    deriveAdvSecret P ephemeralShared identityShared r.advSecretRandom⟩

/-! ## 2. Agreement -/

theorem orError_ok {α : Type} {o : Option α} {text : String} {a : α} :
    orError o text = .ok a ↔ o = some a := by
  cases o with
  | none => exact ⟨fun h => (nomatch h), fun h => (nomatch h)⟩
  | some b => exact ⟨fun h => congrArg some (Except.ok.inj h), fun h => congrArg _ (Option.some.inj h)⟩

/-- **Who knows the code gets the ephemeral key.** -/
theorem unwrap_wrap (linkingCode : String) (pub salt : U8Array 32) (iv : U8Array 16) :
    unwrapEphemeralPub P linkingCode (wrapEphemeralPub P linkingCode pub salt iv) = .ok pub := by
  have hlen : (wrapEphemeralPub P linkingCode pub salt iv).length = 80 := by
    simp [wrapEphemeralPub]
  obtain ⟨w, hw⟩ : ∃ w : U8Array 80, w.bytes = wrapEphemeralPub P linkingCode pub salt iv :=
    ⟨⟨_, hlen⟩, rfl⟩
  have hread : U8Array.ofBytes? 80 ((wrapEphemeralPub P linkingCode pub salt iv).take 80) =
      some w := by
    rw [List.take_of_length_le (Nat.le_of_eq hlen), ← hw, U8Array.ofBytes?_bytes]
  have hsalt (h : 0 + 32 ≤ 80) : w.slice 0 32 h = salt := by
    ext1
    show (w.bytes.drop 0).take 32 = _
    simp [hw, wrapEphemeralPub]
  have hiv (h : 32 + 16 ≤ 80) : w.slice 32 16 h = iv := by
    ext1
    show (w.bytes.drop 32).take 16 = _
    simp [hw, wrapEphemeralPub]
  have hct (h : 48 + 32 ≤ 80) :
      w.slice 48 32 h = P.ctr (linkCodeKey P linkingCode salt) iv pub := by
    ext1
    show (w.bytes.drop 48).take 32 = _
    rw [hw, wrapEphemeralPub, List.drop_left' (by simp), List.take_of_length_le (by simp)]
  unfold unwrapEphemeralPub
  rw [hread]
  dsimp only
  rw [hsalt, hiv, hct, P.ctr_ctr]

/-- **The primary device comes to the same secret.** It has sent its ephemeral key under the code;
    the bundle opens for it, and what it holds is all that is missing. -/
theorem completeCodePair_agrees (linkingCode : String) (ourEph primaryEph primaryId : U8Array 32)
    (ourIdentity : KeyPair) (hidentity : ourIdentity.pub = P.x25519.pub ourIdentity.priv)
    (salt : U8Array 32) (iv : U8Array 16) (r : CodePairRandom) (result : CodePairResult)
    (h : completeCodePair P linkingCode ourEph ourIdentity
      (wrapEphemeralPub P linkingCode (P.x25519.pub primaryEph) salt iv)
      (P.x25519.pub primaryId).bytes r = .ok result) :
    ∃ ct, result.wrappedKeyBundle = r.keyBundleSalt.bytes ++ r.keyBundleNonce.bytes ++ ct ∧
      P.gcm.decrypt
          (bundleKey P r.keyBundleSalt (P.x25519.dh primaryEph (P.x25519.pub ourEph)))
          r.keyBundleNonce [] ct =
        some (ourIdentity.pub.bytes ++ (P.x25519.pub primaryId).bytes ++ r.advSecretRandom.bytes) ∧
      result.advSecret =
        deriveAdvSecret P (P.x25519.dh primaryEph (P.x25519.pub ourEph))
          (P.x25519.dh primaryId ourIdentity.pub) r.advSecretRandom := by
  unfold completeCodePair at h
  obtain ⟨primaryPub, hpub, h⟩ := Result.bind_ok.mp h
  obtain ⟨primaryEphPub, heph, h⟩ := Result.bind_ok.mp h
  obtain ⟨ct, hct, h⟩ := Result.bind_ok.mp h
  rw [orError_ok, U8Array.ofBytes?_bytes, Option.some.injEq] at hpub
  rw [unwrap_wrap, Except.ok.injEq] at heph
  rw [orError_ok] at hct
  subst hpub heph
  cases h
  rw [P.x25519.dh_comm primaryEph ourEph, hidentity, P.x25519.dh_comm primaryId]
  exact ⟨ct, rfl, hidentity ▸ P.gcm.decrypt_encrypt hct, rfl⟩

end Ruwa.Crypto.LinkCode
