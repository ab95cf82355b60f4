/-
  File:      Ruwa/Crypto/Primitives.lean
  Subject:   THE PRIMITIVES the program takes from libraries, each with what the program relies on.

  Hash functions, AES modes, X25519: none of them is in the repository. Each is a parameter, and
  the one law the code depends on is a field: decryption undoes encryption, two parties compute
  the same shared secret. A model that uses a primitive asks for that structure and no other.

  Each structure has an `ofTable`: the primitive as far as a finite table of known answers knows
  it, with its law still true everywhere. The concrete runs of the development are computed on
  such tables.
-/
import Ruwa.Library.Bytes

namespace Ruwa.Crypto

open Ruwa.Library

/-! ## 1. The primitives -/

/-- SHA-256 and what is built from it. -/
structure Hashing where
  sha256 : Bytes → U8Array 32
  /-- HMAC-SHA256: key, message. -/
  hmac : Bytes → Bytes → U8Array 32
  /-- HKDF-SHA256: salt, input key material, info, output length. -/
  hkdf : Bytes → Bytes → Bytes → (len : Nat) → U8Array len

/-- AES-256-GCM: key, IV, associated data, text. Encryption refuses over-long texts. -/
structure AesGcm where
  encrypt : U8Array 32 → U8Array 12 → Bytes → Bytes → Option Bytes
  decrypt : U8Array 32 → U8Array 12 → Bytes → Bytes → Option Bytes
  decrypt_encrypt : ∀ {key iv aad text ct}, encrypt key iv aad text = some ct →
    decrypt key iv aad ct = some text

/-- AES-256-CBC with PKCS#7 padding: key, IV, text. -/
structure AesCbc where
  encrypt : U8Array 32 → U8Array 16 → Bytes → Bytes
  decrypt : U8Array 32 → U8Array 16 → Bytes → Option Bytes
  decrypt_encrypt : ∀ key iv text, decrypt key iv (encrypt key iv text) = some text

/-- X25519: the public key of a private one, and the shared secret. -/
structure X25519 where
  pub : U8Array 32 → U8Array 32
  dh : U8Array 32 → U8Array 32 → U8Array 32
  dh_comm : ∀ a b, dh a (pub b) = dh b (pub a)

/-- XEdDSA: the public key of a private one, signatures over a message with 64 random bytes. -/
structure XEdDsa where
  pub : U8Array 32 → U8Array 32
  sign : (priv : U8Array 32) → (message : Bytes) → (nonce : U8Array 64) → U8Array 64
  verify : (pub : U8Array 32) → (message : Bytes) → (sig : U8Array 64) → Bool
  verify_sign : ∀ priv message nonce, verify (pub priv) message (sign priv message nonce) = true

/-! ## 2. Known answers -/

/-- The value of the first row with this key. -/
def known {α β : Type} [DecidableEq α] (rows : List (α × β)) (unknown : β) (a : α) : β :=
  ((rows.find? fun r => decide (r.1 = a)).map Prod.snd).getD unknown

def Hashing.ofTable (sha256 : List (Bytes × U8Array 32))
    (hmac : List ((Bytes × Bytes) × U8Array 32))
    (hkdf : List ((Bytes × Bytes × Bytes × Nat) × Bytes)) : Hashing where
  sha256 := known sha256 (U8Array.replicate 32 0)
  hmac key message := known hmac (U8Array.replicate 32 0) (key, message)
  hkdf salt ikm info len :=
    ((U8Array.ofBytes? len (known hkdf [] (salt, ikm, info, len))).getD (U8Array.replicate len 0))

section Cipher

variable {γ : Type} [DecidableEq γ]

/-- A row of a cipher's table: what it depends on besides the text, a text and its ciphertext. -/
structure CipherRow (γ : Type) where
  context : γ
  text : Bytes
  ct : Bytes

def openRow (rows : List (CipherRow γ)) (context : γ) (ct : Bytes) : Option Bytes :=
  (rows.find? fun r => decide (r.context = context ∧ r.ct = ct)).map CipherRow.text

/-- The ciphertext of a text, where the table also knows how to open it. -/
def sealRow (rows : List (CipherRow γ)) (context : γ) (text : Bytes) : Option Bytes :=
  ((rows.find? fun r => decide (r.context = context ∧ r.text = text)).map CipherRow.ct).filter
    fun ct => decide (openRow rows context ct = some text)

theorem openRow_sealRow {rows : List (CipherRow γ)} {context : γ} {text ct : Bytes}
    (h : sealRow rows context text = some ct) : openRow rows context ct = some text :=
  of_decide_eq_true (Option.filter_eq_some_iff.mp h).2

end Cipher

def AesGcm.ofTable (rows : List (CipherRow (U8Array 32 × U8Array 12 × Bytes))) : AesGcm where
  encrypt key iv aad := sealRow rows (key, iv, aad)
  decrypt key iv aad := openRow rows (key, iv, aad)
  decrypt_encrypt := openRow_sealRow

/-- A text the table does not know, behind a mark that gives it an odd length. -/
def markUnknown (text : Bytes) : Bytes :=
  if text.length % 2 = 0 then 1 :: text else 2 :: 2 :: text

def unmarkUnknown : Bytes → Option Bytes
  | 1 :: text => some text
  | 2 :: 2 :: text => some text
  | _ => none

theorem unmark_markUnknown (text : Bytes) :
    (markUnknown text).length % 2 = 1 ∧ unmarkUnknown (markUnknown text) = some text := by
  unfold markUnknown
  split
  · exact ⟨by rw [List.length_cons]; omega, rfl⟩
  · exact ⟨by rw [List.length_cons, List.length_cons]; omega, rfl⟩

/-- Ciphertexts of an odd length, which AES-CBC does not have, stand for the unknown texts. -/
def AesCbc.ofTable (rows : List (CipherRow (U8Array 32 × U8Array 16))) : AesCbc where
  encrypt key iv text :=
    ((sealRow rows (key, iv) text).filter fun ct => decide (ct.length % 2 = 0)).getD
      (markUnknown text)
  decrypt key iv ct :=
    if ct.length % 2 = 0 then openRow rows (key, iv) ct else unmarkUnknown ct
  decrypt_encrypt key iv text := by
    cases h : (sealRow rows (key, iv) text).filter fun ct => decide (ct.length % 2 = 0) with
    | none =>
        obtain ⟨hodd, hunmark⟩ := unmark_markUnknown text
        rw [Option.getD_none, if_neg (by omega), hunmark]
    | some ct =>
        obtain ⟨hseal, heven⟩ := Option.filter_eq_some_iff.mp h
        rw [Option.getD_some, if_pos (of_decide_eq_true heven), openRow_sealRow hseal]

/-- The shared secret of two public keys, whichever of them comes first. -/
def sharedSecret (rows : List ((U8Array 32 × U8Array 32) × U8Array 32)) (p q : U8Array 32) :
    U8Array 32 :=
  ((rows.find? fun r => decide (r.1 = (p, q) ∨ r.1 = (q, p))).map Prod.snd).getD
    (U8Array.replicate 32 0)

theorem sharedSecret_comm (rows : List ((U8Array 32 × U8Array 32) × U8Array 32))
    (p q : U8Array 32) : sharedSecret rows p q = sharedSecret rows q p := by
  unfold sharedSecret
  simp only [or_comm]

def X25519.ofTable (pubs : List (U8Array 32 × U8Array 32))
    (secrets : List ((U8Array 32 × U8Array 32) × U8Array 32)) : X25519 where
  pub := known pubs (U8Array.replicate 32 0)
  dh priv := sharedSecret secrets (known pubs (U8Array.replicate 32 0) priv)
  dh_comm _ _ := sharedSecret_comm secrets _ _

def doubled (pub : U8Array 32) : U8Array 64 :=
  ⟨pub.bytes ++ pub.bytes, by rw [List.length_append, pub.length_bytes]⟩

/-- Each public key signs a message in one way; what is not in the table, with itself twice. -/
def XEdDsa.ofTable (pubs : List (U8Array 32 × U8Array 32))
    (sigs : List ((U8Array 32 × Bytes) × U8Array 64)) : XEdDsa where
  pub := known pubs (U8Array.replicate 32 0)
  sign priv message _ :=
    let pub := known pubs (U8Array.replicate 32 0) priv
    known sigs (doubled pub) (pub, message)
  verify pub message sig := decide (sig = known sigs (doubled pub) (pub, message))
  verify_sign _ _ _ := decide_eq_true rfl

theorem known_cases {α β : Type} [DecidableEq α] (rows : List (α × β)) (unknown : β) (a : α) :
    (∃ r ∈ rows, r.1 = a ∧ known rows unknown a = r.2) ∨ known rows unknown a = unknown := by
  unfold known
  cases hfind : rows.find? fun r => decide (r.1 = a) with
  | none => exact .inr rfl
  | some r =>
      have hkey : decide (r.1 = a) = true :=
        List.find?_some (p := fun r : α × β => decide (r.1 = a)) hfind
      exact .inl ⟨r, List.mem_of_find?_eq_some hfind, of_decide_eq_true hkey, rfl⟩

theorem doubled_inj {pub pub' : U8Array 32} (h : doubled pub = doubled pub') : pub = pub' := by
  have hbytes : pub.bytes ++ pub.bytes = pub'.bytes ++ pub'.bytes := congrArg U8Array.bytes h
  exact U8Array.ext (List.append_inj_left hbytes (by rw [pub.length_bytes, pub'.length_bytes]))

/-- **What one key of the table signs does not verify under another**, if no two of its keys share
    a signature. -/
theorem XEdDsa.ofTable_apart {pubs : List (U8Array 32 × U8Array 32)}
    {sigs : List ((U8Array 32 × Bytes) × U8Array 64)} {priv pub' : U8Array 32}
    (hrows : ∀ r ∈ sigs, ∀ r' ∈ sigs, r.1.1 ≠ r'.1.1 → r.2 ≠ r'.2)
    (htwice : ∀ r ∈ sigs, r.2.bytes.take 32 ≠ r.2.bytes.drop 32)
    (hne : (ofTable pubs sigs).pub priv ≠ pub') (message : Bytes) (nonce : U8Array 64) :
    (ofTable pubs sigs).verify pub' message ((ofTable pubs sigs).sign priv message nonce) =
      false := by
  have hdoubled : ∀ r ∈ sigs, ∀ pub, r.2 ≠ doubled pub := by
    intro r hr pub hsame
    have hlen := pub.length_bytes
    refine htwice r hr ?_
    rw [hsame]
    show (pub.bytes ++ pub.bytes).take 32 = (pub.bytes ++ pub.bytes).drop 32
    rw [List.take_left' hlen, List.drop_left' hlen]
  have hsigned : ∀ pub pub' : U8Array 32, pub ≠ pub' →
      known sigs (doubled pub) (pub, message) ≠ known sigs (doubled pub') (pub', message) := by
    intro pub pub' hne hsame
    rcases known_cases sigs (doubled pub) (pub, message) with ⟨r, hr, hkey, hsig⟩ | hsig <;>
      rcases known_cases sigs (doubled pub') (pub', message) with ⟨r', hr', hkey', hsig'⟩ | hsig'
    · refine hrows r hr r' hr' ?_ (hsig.symm.trans (hsame.trans hsig'))
      rw [hkey, hkey']
      exact hne
    · exact hdoubled r hr pub' (hsig.symm.trans (hsame.trans hsig'))
    · exact hdoubled r' hr' pub (hsig'.symm.trans (hsame.symm.trans hsig))
    · exact hne (doubled_inj (hsig.symm.trans (hsame.trans hsig')))
  exact decide_eq_false (hsigned _ pub' hne)

end Ruwa.Crypto
