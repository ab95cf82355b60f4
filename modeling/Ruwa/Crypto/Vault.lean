/-
  File:      Ruwa/Crypto/Vault.lean
  Subject:   KEYS AT REST (`crypto.rs`, module `vault`): secret columns sealed with AES-256-GCM under
             a key of the environment, and left as they are where there is none.

  Sealed and plain rows stand in one column. A blob is taken for a sealed one if it is long enough
  and starts with `OQV1`; a plain one that does so is not told apart.

  * `vaultOpen_sealWith` -- a sealed blob opens under its key, whatever it holds;
  * `openWith_ne_plain` -- no blob opens to itself: what is opened is shorter;
  * **`vault_transparent_iff`** -- a row survives every configuration exactly when it does not look sealed.
-/
import Ruwa.Crypto.Primitives
import Ruwa.Library.Text

namespace Ruwa.Crypto

open Ruwa.Library

/-- The longest text that AES-GCM takes. -/
def P_MAX : Nat := 2 ^ 36

/-- The crate behind the vault: 16 bytes of tag behind the ciphertext, and a limit for texts. -/
structure Aes256Gcm extends AesGcm where
  encrypt_isSome : ∀ key iv text, (encrypt key iv [] text).isSome ↔ text.length ≤ P_MAX
  decrypt_length : ∀ {key iv ct text}, decrypt key iv [] ct = some text →
    ct.length = text.length + 16

namespace Vault

/-- `OQV1` -/
def MAGIC : Bytes := [0x4F, 0x51, 0x56, 0x31]

/-! ## 1. The vault -/

/-- The key of `RUWA_DB_ENCRYPTION_KEY`, if there is a valid one. -/
def key (base64 : Bytes → Option Bytes) (env : Option String) : Option (U8Array 32) := do
  let raw ← env
  let bytes ← base64 (utf8 (String.ofList (Text.trim raw.toList)))
  U8Array.ofBytes? 32 bytes

variable (G : Aes256Gcm)

/-- `none` is the panic of `expect`. -/
def sealWith (k : U8Array 32) (nonce : U8Array 12) (plaintext : Bytes) : Option Bytes :=
  (G.encrypt k nonce [] plaintext).map fun ct => MAGIC ++ nonce.bytes ++ ct

/-- `seal`, with the nonce that it draws. -/
def vaultSeal (key : Option (U8Array 32)) (nonce : U8Array 12) (plaintext : Bytes) : Option Bytes :=
  match key with
  | some k => sealWith G k nonce plaintext
  | none => some plaintext

def openWith (k : U8Array 32) (data : Bytes) : Except String Bytes :=
  match (U8Array.ofBytes? 12 ((data.drop MAGIC.length).take 12)).bind fun iv =>
      G.decrypt k iv [] (data.drop (MAGIC.length + 12)) with
  | some text => .ok text
  | none => .error "at-rest decrypt failed (wrong key or corrupt blob)"

/-- Long enough for a sealed blob, and starting like one. -/
def Tagged (data : Bytes) : Prop := MAGIC.length + 12 ≤ data.length ∧ data.take MAGIC.length = MAGIC

instance (data : Bytes) : Decidable (Tagged data) := inferInstanceAs (Decidable (_ ∧ _))

/-- `open` -/
def vaultOpen (key : Option (U8Array 32)) (data : Bytes) : Except String Bytes :=
  if data.length < MAGIC.length + 12 ∨ data.take MAGIC.length ≠ MAGIC then .ok data
  else
    match key with
    | none => .error "data is sealed but RUWA_DB_ENCRYPTION_KEY is not set"
    | some k => openWith G k data

/-! ## 2. What is opened -/

variable {G}

theorem vaultOpen_of_not_tagged {key : Option (U8Array 32)} {data : Bytes} (h : ¬Tagged data) :
    vaultOpen G key data = .ok data := by
  refine if_pos ?_
  by_contra hno
  obtain ⟨hlen, hmagic⟩ := not_or.mp hno
  exact h ⟨Nat.le_of_not_lt hlen, not_not.mp hmagic⟩

theorem vaultOpen_of_tagged {data : Bytes} (h : Tagged data) :
    vaultOpen G none data = .error "data is sealed but RUWA_DB_ENCRYPTION_KEY is not set" ∧
      ∀ k, vaultOpen G (some k) data = openWith G k data := by
  have hno : ¬(data.length < MAGIC.length + 12 ∨ data.take MAGIC.length ≠ MAGIC) :=
    not_or.mpr ⟨Nat.not_lt.mpr h.1, not_not.mpr h.2⟩
  exact ⟨if_neg hno, fun k => if_neg hno⟩

theorem sealed_tagged (nonce : U8Array 12) (ct : Bytes) : Tagged (MAGIC ++ nonce.bytes ++ ct) := by
  refine ⟨?_, ?_⟩
  · rw [List.length_append, List.length_append, nonce.length_bytes]
    exact Nat.le_add_right _ _
  · rw [List.append_assoc, List.take_left]

/-- **A sealed blob opens under its key**, whatever it holds. -/
theorem vaultOpen_sealWith {k : U8Array 32} {nonce : U8Array 12} {plaintext blob : Bytes}
    (h : sealWith G k nonce plaintext = some blob) :
    vaultOpen G (some k) blob = .ok plaintext := by
  obtain ⟨ct, hct, rfl⟩ := Option.map_eq_some_iff.mp h
  have hnonce : ((MAGIC ++ nonce.bytes ++ ct).drop MAGIC.length).take 12 = nonce.bytes := by
    rw [List.append_assoc, List.drop_left, List.take_left' nonce.length_bytes]
  have hrest : (MAGIC ++ nonce.bytes ++ ct).drop (MAGIC.length + 12) = ct := by
    refine List.drop_left' ?_
    rw [List.length_append, nonce.length_bytes]
  rw [(vaultOpen_of_tagged (sealed_tagged nonce ct)).2, openWith, hnonce, hrest,
    U8Array.ofBytes?_bytes, Option.bind_some, G.decrypt_encrypt hct]

/-- **No blob opens to itself**: the nonce, the mark and the tag of the cipher are gone. -/
theorem openWith_ne_plain (k : U8Array 32) (data : Bytes) : openWith G k data ≠ .ok data := by
  intro h
  unfold openWith at h
  cases hopen : (U8Array.ofBytes? 12 ((data.drop MAGIC.length).take 12)).bind fun iv =>
      G.decrypt k iv [] (data.drop (MAGIC.length + 12)) with
  | none =>
      rw [hopen] at h
      cases h
  | some text =>
      rw [hopen] at h
      cases h
      obtain ⟨iv, -, hdecrypt⟩ := Option.bind_eq_some_iff.mp hopen
      have hlen := G.decrypt_length hdecrypt
      rw [List.length_drop] at hlen
      omega

/-! ## 3. Configurations -/

variable (G)

/-- A row written under one configuration is read under another one. -/
def Survives (written read : Option (U8Array 32)) (nonce : U8Array 12) (p : Bytes) : Prop :=
  ∃ blob, vaultSeal G written nonce p = some blob ∧ vaultOpen G read blob = .ok p

/-- Under no key, under a key, and under a key that came later. -/
structure Transparent (k : U8Array 32) (nonce : U8Array 12) (p : Bytes) : Prop where
  without : Survives G none none nonce p
  keyed : Survives G (some k) (some k) nonce p
  later : Survives G none (some k) nonce p

variable {G}

theorem survives_without_iff {nonce : U8Array 12} {p : Bytes} :
    Survives G none none nonce p ↔ ¬Tagged p := by
  refine ⟨?_, fun h => ⟨p, rfl, vaultOpen_of_not_tagged h⟩⟩
  rintro ⟨blob, hseal, hopen⟩ htag
  cases hseal
  rw [(vaultOpen_of_tagged htag).1] at hopen
  cases hopen

theorem survives_keyed_iff {k : U8Array 32} {nonce : U8Array 12} {p : Bytes} :
    Survives G (some k) (some k) nonce p ↔ p.length ≤ P_MAX := by
  rw [← G.encrypt_isSome k nonce p]
  constructor
  · rintro ⟨blob, hseal, -⟩
    obtain ⟨ct, hct, -⟩ := Option.map_eq_some_iff.mp hseal
    exact Option.isSome_iff_exists.mpr ⟨ct, hct⟩
  · intro h
    obtain ⟨ct, hct⟩ := Option.isSome_iff_exists.mp h
    have hseal : sealWith G k nonce p = some (MAGIC ++ nonce.bytes ++ ct) :=
      Option.map_eq_some_iff.mpr ⟨ct, hct, rfl⟩
    exact ⟨_, hseal, vaultOpen_sealWith hseal⟩

theorem survives_later_iff {k : U8Array 32} {nonce : U8Array 12} {p : Bytes} :
    Survives G none (some k) nonce p ↔ ¬Tagged p := by
  refine ⟨?_, fun h => ⟨p, rfl, vaultOpen_of_not_tagged h⟩⟩
  rintro ⟨blob, hseal, hopen⟩ htag
  cases hseal
  rw [(vaultOpen_of_tagged htag).2] at hopen
  exact openWith_ne_plain k p hopen

/-- **A row survives every configuration exactly when** it does not look sealed, and the cipher
    takes it. -/
theorem vault_transparent_iff (G : Aes256Gcm) (k : U8Array 32) (nonce : U8Array 12) (p : Bytes) :
    Transparent G k nonce p ↔ ¬Tagged p ∧ p.length ≤ P_MAX := by
  constructor
  · rintro ⟨hwithout, hkeyed, -⟩
    exact ⟨survives_without_iff.mp hwithout, survives_keyed_iff.mp hkeyed⟩
  · rintro ⟨htag, hlen⟩
    exact ⟨survives_without_iff.mpr htag, survives_keyed_iff.mpr hlen, survives_later_iff.mpr htag⟩

/-! ## 4. A row that looks sealed -/

namespace Known

/-- A cipher that leaves the text alone, with a tag of zeros. -/
def plainEncrypt (text : Bytes) : Option Bytes :=
  if text.length ≤ P_MAX then some (text ++ List.replicate 16 0) else none

def plainDecrypt (ct : Bytes) : Option Bytes :=
  if 16 ≤ ct.length ∧ ct.drop (ct.length - 16) = List.replicate 16 0
    then some (ct.take (ct.length - 16)) else none

theorem plainDecrypt_encrypt {text ct : Bytes} (h : plainEncrypt text = some ct) :
    plainDecrypt ct = some text := by
  unfold plainEncrypt at h
  split at h
  · cases h
    simp [plainDecrypt]
  · cases h

theorem plainEncrypt_isSome (text : Bytes) : (plainEncrypt text).isSome ↔ text.length ≤ P_MAX := by
  unfold plainEncrypt
  split <;> simp [*]

theorem plainDecrypt_length {ct text : Bytes} (h : plainDecrypt ct = some text) :
    ct.length = text.length + 16 := by
  unfold plainDecrypt at h
  split at h
  · rename_i hlen
    cases h
    rw [List.length_take]
    omega
  · cases h

def plainGcm : Aes256Gcm where
  encrypt _ _ _ := plainEncrypt
  decrypt _ _ _ := plainDecrypt
  decrypt_encrypt := plainDecrypt_encrypt
  encrypt_isSome _ _ := plainEncrypt_isSome
  decrypt_length := plainDecrypt_length

/-- `OQV1` and twelve bytes. -/
def row : Bytes := MAGIC ++ List.replicate 12 0

end Known

/-- Written and read without a key, it is refused. -/
theorem row_looks_sealed :
    ¬∀ (G : Aes256Gcm) (k : U8Array 32) (nonce : U8Array 12) (p : Bytes), p.length ≤ P_MAX →
      Transparent G k nonce p := by
  intro h
  obtain ⟨blob, hseal, hopen⟩ := (h Known.plainGcm (U8Array.replicate 32 7)
    (U8Array.replicate 12 0) Known.row (by decide)).without
  cases hseal
  rw [(vaultOpen_of_tagged (by decide : Tagged Known.row)).1] at hopen
  cases hopen

end Vault

end Ruwa.Crypto
