/-
  File:      Ruwa/Protocol/Noise.lean
  Subject:   THE NOISE LAYER (`protocol.rs`, module `noise`, and `encrypt_node` / `decrypt_node`):
             a running hash, a key that is replaced as secrets arrive, and a counter for the IV.

  Both ends run the same operations on their own state. Three things keep them together, and none
  of them is checked on the wire: the hash absorbs the CIPHERTEXT on both sides, it is the
  associated data of the next message, and the counter starts over with every key.

  * `HandshakeRun.InStep` -- the invariant of a handshake: the two states are equal, everything
    that was sent was received, and the seals are in order of (key number, counter);
    `inStep_step` is one operation, `inStep_run` a script;
  * `nodes_in_order` -- after `finish`, whatever nodes one side encrypts come out in order;
  * **`noise_in_lockstep`** -- both together with the IVs: no key seals twice under one IV.

  Nodes come out as they went in when they are `Canonical`; `zero_node_not_recovered` is a node
  that is not, and that the receiver refuses.
-/
import Ruwa.Crypto.Primitives
import Ruwa.Protocol.BinaryRoundTrip

namespace Ruwa.Protocol.Noise

open Ruwa.Library
open Ruwa.Crypto
open Ruwa.Protocol.Binary

/-! ## 1. The source -/

inductive NoiseError
  | aead
  deriving Repr, DecidableEq

/-- The counter as the last four bytes of the IV. -/
def counterIv (counter : UInt32) : U8Array 12 :=
  ⟨List.replicate 8 0 ++ toBE 4 counter.toNat, by simp⟩

/-- `counter.checked_add(1)`; `none` is the panic on overflow. -/
def checkedSucc (counter : UInt32) : Option UInt32 :=
  if counter.toNat + 1 < 2 ^ 32 then some (counter + 1) else none

def extractAndExpand (H : Hashing) (salt : U8Array 32) (ikm : Bytes) : U8Array 32 × U8Array 32 :=
  let out := H.hkdf salt.bytes ikm [] 64
  (out.slice 0 32 (Nat.le_of_ble_eq_true rfl), out.slice 32 32 (Nat.le_of_ble_eq_true rfl))

/-- The handshake state; `key` is the key of its cipher. -/
structure NoiseHandshake where
  hash : U8Array 32
  salt : U8Array 32
  key : U8Array 32
  counter : UInt32
  deriving DecidableEq

/-- The AEAD after the handshake. -/
structure NoiseCipher where
  key : U8Array 32
  counter : UInt32
  deriving DecidableEq

namespace NoiseHandshake

section

variable (H : Hashing) (G : AesGcm)

/-- `hash := SHA256(hash || data)`. -/
def authenticate (n : NoiseHandshake) (data : Bytes) : NoiseHandshake :=
  { n with hash := H.sha256 (n.hash.bytes ++ data) }

/-- A pattern of 32 bytes is the first hash itself, any other is hashed. -/
def start (pattern header : Bytes) : NoiseHandshake :=
  let hash := if h : pattern.length = 32 then ⟨pattern, h⟩ else H.sha256 pattern
  authenticate H ⟨hash, hash, hash, 0⟩ header

/-- AES-GCM under the counter IV with the hash as associated data; the ciphertext is then mixed
    into the hash. A failed encryption has used its counter up; `none` is the counter panic. -/
def encrypt (n : NoiseHandshake) (plaintext : Bytes) :
    Option (Except NoiseError Bytes × NoiseHandshake) := do
  let iv := counterIv n.counter
  let counter ← checkedSucc n.counter
  let n := { n with counter := counter }
  match G.encrypt n.key iv n.hash.bytes plaintext with
  | none => return (.error .aead, n)
  | some ct => return (.ok ct, authenticate H n ct)

/-- The inverse; it mixes in the ciphertext as well. -/
def decrypt (n : NoiseHandshake) (ciphertext : Bytes) :
    Option (Except NoiseError Bytes × NoiseHandshake) := do
  let iv := counterIv n.counter
  let counter ← checkedSucc n.counter
  let n := { n with counter := counter }
  match G.decrypt n.key iv n.hash.bytes ciphertext with
  | none => return (.error .aead, n)
  | some pt => return (.ok pt, authenticate H n ciphertext)

/-- `HKDF(salt, data)` gives the new salt and the new key; the counter starts over. -/
def mixIntoKey (n : NoiseHandshake) (data : Bytes) : NoiseHandshake :=
  let (write, read) := extractAndExpand H n.salt data
  { n with salt := write, key := read, counter := 0 }

/-- `secret = X25519(priv, pub)`, mixed into the key. -/
def mixSharedSecretIntoKey (X : X25519) (n : NoiseHandshake) (priv pub : U8Array 32) :
    NoiseHandshake :=
  mixIntoKey H n (X.dh priv pub).bytes

/-- The two ciphers of the established connection. -/
def finish (n : NoiseHandshake) : NoiseCipher × NoiseCipher :=
  let (write, read) := extractAndExpand H n.salt []
  (⟨write, 0⟩, ⟨read, 0⟩)

end

end NoiseHandshake

namespace NoiseCipher

variable (G : AesGcm)

def encrypt (c : NoiseCipher) (plaintext : Bytes) :
    Option (Except NoiseError Bytes × NoiseCipher) := do
  let iv := counterIv c.counter
  let counter ← checkedSucc c.counter
  let c := { c with counter := counter }
  match G.encrypt c.key iv [] plaintext with
  | none => return (.error .aead, c)
  | some ct => return (.ok ct, c)

def decrypt (c : NoiseCipher) (ciphertext : Bytes) :
    Option (Except NoiseError Bytes × NoiseCipher) := do
  let iv := counterIv c.counter
  let counter ← checkedSucc c.counter
  let c := { c with counter := counter }
  match G.decrypt c.key iv [] ciphertext with
  | none => return (.error .aead, c)
  | some pt => return (.ok pt, c)

end NoiseCipher

inductive NodeError
  | noise (e : NoiseError)
  | encode (e : EncodeError)
  | decode (e : DecodeError)
  deriving Repr, DecidableEq

/-- Packs a node and encrypts it. A node that does not encode leaves the cipher alone. -/
def encryptNode (G : AesGcm) (c : NoiseCipher) (node : Node) :
    Option (Except NodeError Bytes × NoiseCipher) :=
  match pack node with
  | .error e => some (.error (.encode e), c)
  | .ok payload => do
      match ← c.encrypt G payload with
      | (.error e, c) => return (.error (.noise e), c)
      | (.ok ct, c) => return (.ok ct, c)

/-- Decrypts one frame and unpacks the node. -/
def decryptNode (G : AesGcm) (inflate : Bytes → Option Bytes) (c : NoiseCipher)
    (ciphertext : Bytes) : Option (Except NodeError Node × NoiseCipher) := do
  match ← c.decrypt G ciphertext with
  | (.error e, c) => return (.error (.noise e), c)
  | (.ok pt, c) =>
      match unmarshal inflate pt with
      | .error e => return (.error (.decode e), c)
      | .ok node => return (.ok node, c)

/-! ## 2. One operation -/

theorem checkedSucc_some {c c' : UInt32} (h : checkedSucc c = some c') :
    c'.toNat = c.toNat + 1 := by
  unfold checkedSucc at h
  split at h
  · rename_i hlt
    cases h
    rw [UInt32.toNat_add]
    exact Nat.mod_eq_of_lt hlt
  · cases h

theorem counterIv_inj {c c' : UInt32} (h : counterIv c = counterIv c') : c = c' := by
  have hbytes : List.replicate 8 0 ++ toBE 4 c.toNat = List.replicate 8 0 ++ toBE 4 c'.toNat :=
    congrArg U8Array.bytes h
  exact UInt32.toNat_inj.mp (toBE_inj c.toNat_lt c'.toNat_lt (List.append_cancel_left hbytes))

section

variable (H : Hashing) (G : AesGcm)

/-- **What one side encrypts, the same state decrypts**, and it moves on to the same state. -/
theorem NoiseHandshake.decrypt_encrypt {n n' : NoiseHandshake} {m ct : Bytes}
    (h : n.encrypt H G m = some (.ok ct, n')) :
    n.decrypt H G ct = some (.ok m, n') ∧ n'.key = n.key ∧
      n'.counter.toNat = n.counter.toNat + 1 := by
  unfold NoiseHandshake.encrypt at h
  unfold NoiseHandshake.decrypt
  cases hc : checkedSucc n.counter with
  | none =>
      rw [hc] at h
      cases h
  | some c =>
      rw [hc] at h
      simp only [Option.bind_eq_bind, Option.bind_some] at h ⊢
      cases he : G.encrypt n.key (counterIv n.counter) n.hash.bytes m with
      | none =>
          rw [he] at h
          cases h
      | some ct' =>
          rw [he] at h
          cases h
          rw [G.decrypt_encrypt he]
          exact ⟨rfl, rfl, checkedSucc_some hc⟩

theorem NoiseCipher.decrypt_encrypt {c c' : NoiseCipher} {m ct : Bytes}
    (h : c.encrypt G m = some (.ok ct, c')) :
    c.decrypt G ct = some (.ok m, c') ∧ c'.key = c.key ∧
      c'.counter.toNat = c.counter.toNat + 1 := by
  unfold NoiseCipher.encrypt at h
  unfold NoiseCipher.decrypt
  cases hc : checkedSucc c.counter with
  | none =>
      rw [hc] at h
      cases h
  | some k =>
      rw [hc] at h
      simp only [Option.bind_eq_bind, Option.bind_some] at h ⊢
      cases he : G.encrypt c.key (counterIv c.counter) [] m with
      | none =>
          rw [he] at h
          cases h
      | some ct' =>
          rw [he] at h
          cases h
          rw [G.decrypt_encrypt he]
          exact ⟨rfl, rfl, checkedSucc_some hc⟩

end

/-! ## 3. A handshake -/

/-- One encryption: the number of the key, the key, and the counter in the IV. -/
structure Seal where
  epoch : Nat
  key : U8Array 32
  counter : UInt32

namespace Seal

def iv (s : Seal) : U8Array 12 := counterIv s.counter

/-- `s` has an earlier key than `t`, or the same key and a smaller counter. -/
def Before (s t : Seal) : Prop :=
  s.epoch < t.epoch ∨ s.epoch = t.epoch ∧ s.counter.toNat < t.counter.toNat

theorem Before.trans {s t u : Seal} (h : s.Before t) (h' : t.Before u) : s.Before u := by
  unfold Before at *
  omega

/-- Seals in order never share a key number and an IV. -/
theorem nodup_of_before {seals : List Seal} (h : seals.Pairwise Before) :
    (seals.map fun s => (s.epoch, s.iv)).Nodup := by
  rw [List.nodup_iff_pairwise_ne, List.pairwise_map]
  refine h.imp fun {s t} hst heq => ?_
  obtain ⟨hepoch, hiv⟩ := Prod.mk.inj heq
  have hcounter := congrArg UInt32.toNat (counterIv_inj hiv)
  rcases hst with hlt | ⟨-, hlt⟩
  · omega
  · omega

/-- With distinct keys, they never share a KEY and an IV. -/
theorem nodup_of_keys {seals : List Seal} {keys : List (U8Array 32)} (h : seals.Pairwise Before)
    (hkeys : ∀ s ∈ seals, keys[s.epoch]? = some s.key) (hdistinct : keys.Nodup) :
    (seals.map fun s => (s.key, s.iv)).Nodup := by
  have hnum := nodup_of_before h
  rw [List.nodup_iff_pairwise_ne, List.pairwise_map] at hnum ⊢
  refine hnum.imp_of_mem fun {s t} hs ht hne heq => hne ?_
  obtain ⟨hkey, hiv⟩ := Prod.mk.inj heq
  obtain ⟨hls, hks⟩ := List.getElem?_eq_some_iff.mp (hkeys s hs)
  obtain ⟨hlt, hkt⟩ := List.getElem?_eq_some_iff.mp (hkeys t ht)
  have hepoch : s.epoch = t.epoch :=
    (List.getElem_inj hdistinct).mp (hks.trans (hkey.trans hkt.symm))
  rw [hepoch, hiv]

end Seal

/-- One operation on both ends. `mixSharedSecret` gives each end its own private key and the other
    end's public one; `send` encrypts at one end and decrypts the ciphertext at the other. -/
inductive ScriptStep
  | authenticate (data : Bytes)
  | mixIntoKey (data : Bytes)
  | mixSharedSecret (alicePriv bobPriv : U8Array 32)
  | send (fromAlice : Bool) (plaintext : Bytes)

/-- The two ends of a handshake, the keys they have left behind, every encryption so far, and for
    each text that was sent what the other end's `decrypt` returned. -/
structure HandshakeRun where
  alice : NoiseHandshake
  bob : NoiseHandshake
  oldKeys : List (U8Array 32)
  seals : List Seal
  received : List (Bytes × Option (Except NoiseError Bytes))

namespace HandshakeRun

def start (H : Hashing) (pattern header : Bytes) : HandshakeRun :=
  ⟨.start H pattern header, .start H pattern header, [], [], []⟩

section

variable (H : Hashing) (X : X25519) (G : AesGcm)

/-- One operation. A script ends (`none`) where an encryption returns no ciphertext. -/
def step (r : HandshakeRun) : ScriptStep → Option HandshakeRun
  | .authenticate data =>
      some { r with alice := r.alice.authenticate H data, bob := r.bob.authenticate H data }
  | .mixIntoKey data =>
      some { r with
        alice := r.alice.mixIntoKey H data
        bob := r.bob.mixIntoKey H data
        oldKeys := r.oldKeys ++ [r.alice.key] }
  | .mixSharedSecret alicePriv bobPriv =>
      some { r with
        alice := r.alice.mixSharedSecretIntoKey H X alicePriv (X.pub bobPriv)
        bob := r.bob.mixSharedSecretIntoKey H X bobPriv (X.pub alicePriv)
        oldKeys := r.oldKeys ++ [r.alice.key] }
  | .send fromAlice plaintext =>
      let sender := if fromAlice then r.alice else r.bob
      let receiver := if fromAlice then r.bob else r.alice
      match sender.encrypt H G plaintext with
      | some (.ok ct, sender') =>
          let opened := receiver.decrypt H G ct
          let receiver' := (opened.map Prod.snd).getD receiver
          some { r with
            alice := if fromAlice then sender' else receiver'
            bob := if fromAlice then receiver' else sender'
            seals := r.seals ++ [⟨r.oldKeys.length, sender.key, sender.counter⟩]
            received := r.received ++ [(plaintext, opened.map Prod.fst)] }
      | _ => none

def run (r : HandshakeRun) : List ScriptStep → Option HandshakeRun
  | [] => some r
  | s :: ss => (r.step H X G s).bind fun r => r.run ss

/-- **The invariant of a handshake.** -/
structure InStep (r : HandshakeRun) : Prop where
  equal : r.bob = r.alice
  received : ∀ e ∈ r.received, e.2 = some (.ok e.1)
  ordered : r.seals.Pairwise Seal.Before
  below : ∀ s ∈ r.seals, s.Before ⟨r.oldKeys.length, r.alice.key, r.alice.counter⟩
  keyed : ∀ s ∈ r.seals, (r.oldKeys ++ [r.alice.key])[s.epoch]? = some s.key

theorem inStep_start (pattern header : Bytes) : (start H pattern header).InStep where
  equal := rfl
  received _ h := nomatch h
  ordered := List.Pairwise.nil
  below _ h := nomatch h
  keyed _ h := nomatch h

/-- The seals so far, against the state after a key was left behind. -/
theorem InStep.rekey {r : HandshakeRun} (h : r.InStep) {s : Seal} (hs : s ∈ r.seals)
    (key : U8Array 32) (counter : UInt32) :
    s.Before ⟨(r.oldKeys ++ [r.alice.key]).length, key, counter⟩ ∧
      ((r.oldKeys ++ [r.alice.key]) ++ [key])[s.epoch]? = some s.key := by
  have hkey := h.keyed s hs
  obtain ⟨hlt, -⟩ := List.getElem?_eq_some_iff.mp hkey
  exact ⟨Or.inl hlt, by rw [List.getElem?_append_left hlt, hkey]⟩

/-- **One operation keeps the two ends in step.** -/
theorem inStep_step {r r' : HandshakeRun} {s : ScriptStep} (h : r.InStep)
    (hstep : r.step H X G s = some r') : r'.InStep := by
  cases s with
  | authenticate data =>
      cases hstep
      refine ⟨?_, h.received, h.ordered, h.below, h.keyed⟩
      show r.bob.authenticate H data = r.alice.authenticate H data
      rw [h.equal]
  | mixIntoKey data =>
      cases hstep
      refine ⟨?_, h.received, h.ordered, fun _ hs => (h.rekey hs _ 0).1,
        fun _ hs => (h.rekey hs _ 0).2⟩
      show r.bob.mixIntoKey H data = r.alice.mixIntoKey H data
      rw [h.equal]
  | mixSharedSecret alicePriv bobPriv =>
      cases hstep
      refine ⟨?_, h.received, h.ordered, fun _ hs => (h.rekey hs _ 0).1,
        fun _ hs => (h.rekey hs _ 0).2⟩
      show r.bob.mixIntoKey H (X.dh bobPriv (X.pub alicePriv)).bytes =
        r.alice.mixIntoKey H (X.dh alicePriv (X.pub bobPriv)).bytes
      rw [h.equal, X.dh_comm]
  | send fromAlice plaintext =>
      unfold step at hstep
      -- Both ends are in the same state, so it does not matter which of them sends.
      have hsender : (if fromAlice then r.alice else r.bob) = r.alice := by
        rw [h.equal, ite_self]
      have hreceiver : (if fromAlice then r.bob else r.alice) = r.alice := by
        rw [h.equal, ite_self]
      dsimp only at hstep
      rw [hsender, hreceiver] at hstep
      split at hstep
      · rename_i ct sender' henc
        obtain ⟨hdec, hkey, hcounter⟩ := NoiseHandshake.decrypt_encrypt H G henc
        have hends : r' = { r with
            alice := sender'
            bob := sender'
            seals := r.seals ++ [⟨r.oldKeys.length, r.alice.key, r.alice.counter⟩]
            received := r.received ++ [(plaintext, some (.ok plaintext))] } := by
          rw [hdec] at hstep
          cases hstep
          cases fromAlice <;> rfl
        subst hends
        have hafter : Seal.Before ⟨r.oldKeys.length, r.alice.key, r.alice.counter⟩
            ⟨r.oldKeys.length, sender'.key, sender'.counter⟩ :=
          Or.inr ⟨rfl, hcounter ▸ Nat.lt_succ_self _⟩
        refine ⟨rfl, ?_, ?_, ?_, ?_⟩
        · intro e he
          rcases List.mem_append.mp he with hold | hnew
          · exact h.received e hold
          · cases List.mem_singleton.mp hnew
            rfl
        · refine List.pairwise_append.mpr ⟨h.ordered, List.pairwise_singleton _ _, ?_⟩
          intro s hs t ht
          cases List.mem_singleton.mp ht
          exact h.below s hs
        · intro s hs
          rcases List.mem_append.mp hs with hold | hnew
          · exact (h.below s hold).trans hafter
          · cases List.mem_singleton.mp hnew
            exact hafter
        · intro s hs
          show (r.oldKeys ++ [sender'.key])[s.epoch]? = some s.key
          rw [hkey]
          rcases List.mem_append.mp hs with hold | hnew
          · exact h.keyed s hold
          · cases List.mem_singleton.mp hnew
            exact List.getElem?_concat_length
      · cases hstep

/-- **A whole script keeps the two ends in step.** -/
theorem inStep_run {r r' : HandshakeRun} {script : List ScriptStep} (h : r.InStep)
    (hrun : r.run H X G script = some r') : r'.InStep := by
  induction script generalizing r with
  | nil =>
      cases hrun
      exact h
  | cons s script ih =>
      obtain ⟨mid, hstep, hrest⟩ := Option.bind_eq_some_iff.mp hrun
      exact ih (inStep_step H X G h hstep) hrest

/-- The text of an operation that sends one. -/
def sentText : ScriptStep → Option Bytes
  | .send _ plaintext => some plaintext
  | _ => none

theorem received_step {r r' : HandshakeRun} {s : ScriptStep} (hstep : r.step H X G s = some r') :
    r'.received.map Prod.fst = r.received.map Prod.fst ++ (sentText s).toList := by
  cases s with
  | send fromAlice plaintext =>
      unfold step at hstep
      dsimp only at hstep
      split at hstep
      · cases hstep
        rw [List.map_append]
        rfl
      · cases hstep
  | _ =>
      cases hstep
      exact (List.append_nil _).symm

/-- Every text of the script has an entry in `received`, in order. -/
theorem received_run {r r' : HandshakeRun} {script : List ScriptStep}
    (hrun : r.run H X G script = some r') :
    r'.received.map Prod.fst = r.received.map Prod.fst ++ script.filterMap sentText := by
  induction script generalizing r with
  | nil =>
      cases hrun
      exact (List.append_nil _).symm
  | cons s script ih =>
      obtain ⟨mid, hstep, hrest⟩ := Option.bind_eq_some_iff.mp hrun
      rw [ih hrest, received_step H X G hstep, List.append_assoc]
      cases s <;> rfl

end

end HandshakeRun

/-! ## 4. Nodes on the established connection -/

/-- A node that was encrypted, its ciphertext, and the counter in the IV. -/
structure Shipment where
  node : Node
  wire : Bytes
  counter : UInt32

/-- The seal of a shipment under the key with this number. -/
def Shipment.toSeal (epoch : Nat) (key : U8Array 32) (s : Shipment) : Seal :=
  ⟨epoch, key, s.counter⟩

section

variable (G : AesGcm) (inflate : Bytes → Option Bytes)

/-- `encrypt_node` on one node after the other. A node that does not encode sends nothing; the
    connection ends (`none`) where the AEAD or the counter does not let a node through. -/
def shipNodes (c : NoiseCipher) : List Node → Option (List Shipment × NoiseCipher)
  | [] => some ([], c)
  | n :: ns =>
      match encryptNode G c n with
      | some (.ok ct, c') =>
          (shipNodes c' ns).map fun (ships, last) => (⟨n, ct, c.counter⟩ :: ships, last)
      | some (.error (.encode _), c') => shipNodes c' ns
      | _ => none

/-- `decrypt_node` on one frame after the other. -/
def openNodes (c : NoiseCipher) : List Bytes → Option (List (Except NodeError Node) × NoiseCipher)
  | [] => some ([], c)
  | w :: ws => do
      let (node, c) ← decryptNode G inflate c w
      let (nodes, c) ← openNodes c ws
      return (node :: nodes, c)

theorem encryptNode_ok {c c' : NoiseCipher} {n : Node} {ct : Bytes}
    (h : encryptNode G c n = some (.ok ct, c')) :
    ∃ p, pack n = .ok p ∧ c.encrypt G p = some (.ok ct, c') := by
  unfold encryptNode at h
  cases hp : pack n with
  | error e =>
      rw [hp] at h
      cases h
  | ok p =>
      rw [hp] at h
      refine ⟨p, rfl, ?_⟩
      obtain ⟨⟨res, c₁⟩, henc, hres⟩ := Option.bind_eq_some_iff.mp h
      cases res with
      | error e => cases hres
      | ok ct' =>
          cases hres
          exact henc

/-- A node that does not encode leaves the cipher alone. -/
theorem encryptNode_encode {c c' : NoiseCipher} {n : Node} {e : EncodeError}
    (h : encryptNode G c n = some (.error (.encode e), c')) : pack n = .error e ∧ c' = c := by
  unfold encryptNode at h
  cases hp : pack n with
  | error e' =>
      rw [hp] at h
      cases h
      exact ⟨rfl, rfl⟩
  | ok p =>
      rw [hp] at h
      obtain ⟨⟨res, c₁⟩, -, hres⟩ := Option.bind_eq_some_iff.mp h
      cases res with
      | error e => cases hres
      | ok ct' => cases hres

/-- One node: the same cipher at the other end gives it back, and both move on to the same. -/
theorem decryptNode_encryptNode {c c' : NoiseCipher} {n : Node} {ct : Bytes} (hn : Canonical n)
    (h : encryptNode G c n = some (.ok ct, c')) :
    decryptNode G inflate c ct = some (.ok n, c') ∧ c'.key = c.key ∧
      c'.counter.toNat = c.counter.toNat + 1 := by
  obtain ⟨p, hp, henc⟩ := encryptNode_ok G h
  obtain ⟨hdec, hkey, hcounter⟩ := NoiseCipher.decrypt_encrypt G henc
  refine ⟨?_, hkey, hcounter⟩
  unfold decryptNode
  rw [hdec]
  simp only [Option.bind_eq_bind, Option.bind_some, unmarshal_pack hn hp]
  rfl

/-- **What is shipped is opened in order**, and the counters of the IVs only grow. -/
theorem nodes_in_order {ns : List Node} (hns : ∀ n ∈ ns, Canonical n) {c c' : NoiseCipher}
    {ships : List Shipment} (h : shipNodes G c ns = some (ships, c')) :
    ships.map Shipment.node = ns.filter (fun n => (pack n).isOk) ∧
      openNodes G inflate c (ships.map Shipment.wire) =
        some (ships.map (fun s => .ok s.node), c') ∧
      (∀ s ∈ ships, c.counter.toNat ≤ s.counter.toNat) ∧
      ships.Pairwise fun s t => s.counter.toNat < t.counter.toNat := by
  induction ns generalizing c ships with
  | nil =>
      cases h
      exact ⟨rfl, rfl, fun _ hs => (nomatch hs), List.Pairwise.nil⟩
  | cons n ns ih =>
      have hns' : ∀ n ∈ ns, Canonical n := fun m hm => hns m (List.mem_cons_of_mem _ hm)
      unfold shipNodes at h
      split at h
      · rename_i ct mid henc
        obtain ⟨⟨rest, last⟩, hrest, heq⟩ := Option.map_eq_some_iff.mp h
        cases heq
        obtain ⟨hnodes, hopen, hlow, hgrow⟩ := ih hns' hrest
        obtain ⟨hdec, hkey, hcounter⟩ :=
          decryptNode_encryptNode G inflate (hns n List.mem_cons_self) henc
        obtain ⟨p, hp, -⟩ := encryptNode_ok G henc
        refine ⟨?_, ?_, ?_, ?_⟩
        · rw [List.map_cons, hnodes, List.filter_cons_of_pos (by rw [hp]; rfl)]
        · rw [List.map_cons, openNodes, hdec]
          show (openNodes G inflate mid (rest.map Shipment.wire)).bind _ = _
          rw [hopen]
          rfl
        · intro s hs
          rcases List.mem_cons.mp hs with rfl | hs
          · exact Nat.le_refl _
          · have := hlow s hs
            omega
        · refine List.pairwise_cons.mpr ⟨fun s hs => ?_, hgrow⟩
          have := hlow s hs
          show c.counter.toNat < s.counter.toNat
          omega
      · rename_i e mid henc
        obtain ⟨hp, rfl⟩ := encryptNode_encode G henc
        obtain ⟨hnodes, hrest⟩ := ih hns' h
        rw [List.filter_cons_of_neg (by rw [hp]; exact Bool.false_ne_true)]
        exact ⟨hnodes, hrest⟩
      · cases h

end

/-! ## 5. From the first hash to the last node -/

section

variable (H : Hashing) (X : X25519) (G : AesGcm)

/-- Every encryption of a connection: the handshake's, then Alice's nodes under the first cipher
    of `finish` and Bob's under the second. -/
def allSeals (r : HandshakeRun) (up down : List Shipment) : List Seal :=
  r.seals ++ (up.map (Shipment.toSeal (r.oldKeys.length + 1) (r.alice.finish H).1.key) ++
    down.map (Shipment.toSeal (r.oldKeys.length + 2) (r.bob.finish H).2.key))

/-- Every key of a connection, in the order of their numbers. -/
def allKeys (r : HandshakeRun) : List (U8Array 32) :=
  r.oldKeys ++ [r.alice.key, (r.alice.finish H).1.key, (r.bob.finish H).2.key]

theorem shipments_before {ships : List Shipment} (epoch : Nat) (key : U8Array 32)
    (h : ships.Pairwise fun s t => s.counter.toNat < t.counter.toNat) :
    (ships.map (Shipment.toSeal epoch key)).Pairwise Seal.Before :=
  List.pairwise_map.mpr (h.imp fun hst => Or.inr ⟨rfl, hst⟩)

/-- The seals of a connection are in order, and each has the key with its number. -/
theorem allSeals_ordered {r : HandshakeRun} (hr : r.InStep) {up down : List Shipment}
    (hup : up.Pairwise fun s t => s.counter.toNat < t.counter.toNat)
    (hdown : down.Pairwise fun s t => s.counter.toNat < t.counter.toNat) :
    (allSeals H r up down).Pairwise Seal.Before ∧
      ∀ s ∈ allSeals H r up down, (allKeys H r)[s.epoch]? = some s.key := by
  have hearly : ∀ s ∈ r.seals, s.epoch < r.oldKeys.length + 1 := by
    intro s hs
    rcases hr.below s hs with hlt | ⟨heq, -⟩
    · exact Nat.lt_succ_of_lt hlt
    · exact heq ▸ Nat.lt_succ_self _
  have hmap : ∀ {ships : List Shipment} {epoch key}, ∀ t ∈ ships.map (Shipment.toSeal epoch key),
      t.epoch = epoch ∧ t.key = key := by
    intro ships epoch key t ht
    obtain ⟨s, -, rfl⟩ := List.mem_map.mp ht
    exact ⟨rfl, rfl⟩
  refine ⟨?_, ?_⟩
  · refine List.pairwise_append.mpr ⟨hr.ordered, List.pairwise_append.mpr
      ⟨shipments_before _ _ hup, shipments_before _ _ hdown, ?_⟩, ?_⟩
    · intro s hs t ht
      refine Or.inl ?_
      rw [(hmap s hs).1, (hmap t ht).1]
      exact Nat.lt_succ_self _
    · intro s hs t ht
      have hlt := hearly s hs
      rcases List.mem_append.mp ht with ht | ht
      · exact Or.inl ((hmap t ht).1 ▸ hlt)
      · exact Or.inl ((hmap t ht).1 ▸ Nat.lt_succ_of_lt hlt)
  · intro s hs
    have hsplit : allKeys H r = (r.oldKeys ++ [r.alice.key]) ++
        [(r.alice.finish H).1.key, (r.bob.finish H).2.key] := by
      rw [List.append_assoc]
      rfl
    have hlen : (r.oldKeys ++ [r.alice.key]).length = r.oldKeys.length + 1 := by simp
    rw [hsplit]
    rcases List.mem_append.mp hs with hs | hs
    · rw [List.getElem?_append_left (by rw [hlen]; exact hearly s hs)]
      exact hr.keyed s hs
    · rcases List.mem_append.mp hs with hs | hs
      · rw [(hmap s hs).1, (hmap s hs).2, List.getElem?_append_right (by omega), hlen]
        simp
      · rw [(hmap s hs).1, (hmap s hs).2, List.getElem?_append_right (by omega), hlen]
        simp

/-- **Noise in lockstep.** Two handshake states start alike and run one script. Then every text
    that was sent was received, and the two states are equal. After `finish`, the canonical nodes
    that either side encrypts are what the other side's matching cipher returns, in order. Over
    the whole connection no key number seals twice under one IV, and neither does any key as long
    as the keys that were derived are distinct. -/
theorem noise_in_lockstep {pattern header : Bytes} {script : List ScriptStep} {r : HandshakeRun}
    (hrun : (HandshakeRun.start H pattern header).run H X G script = some r)
    {upNodes downNodes : List Node} (hupNodes : ∀ n ∈ upNodes, Canonical n)
    (hdownNodes : ∀ n ∈ downNodes, Canonical n) {up down : List Shipment}
    {upLast downLast : NoiseCipher}
    (hup : shipNodes G (r.alice.finish H).1 upNodes = some (up, upLast))
    (hdown : shipNodes G (r.bob.finish H).2 downNodes = some (down, downLast))
    (inflate : Bytes → Option Bytes) :
    r.received = (script.filterMap HandshakeRun.sentText).map (fun m => (m, some (.ok m))) ∧
    r.bob = r.alice ∧
    up.map Shipment.node = upNodes.filter (fun n => (pack n).isOk) ∧
    openNodes G inflate (r.bob.finish H).1 (up.map Shipment.wire) =
      some (up.map (fun s => .ok s.node), upLast) ∧
    down.map Shipment.node = downNodes.filter (fun n => (pack n).isOk) ∧
    openNodes G inflate (r.alice.finish H).2 (down.map Shipment.wire) =
      some (down.map (fun s => .ok s.node), downLast) ∧
    ((allSeals H r up down).map fun s => (s.epoch, s.iv)).Nodup ∧
    ((allKeys H r).Nodup → ((allSeals H r up down).map fun s => (s.key, s.iv)).Nodup) := by
  have hr := HandshakeRun.inStep_run H X G (HandshakeRun.inStep_start H pattern header) hrun
  have hsent := HandshakeRun.received_run H X G hrun
  obtain ⟨hupSent, hupOpen, -, hupGrow⟩ := nodes_in_order G inflate hupNodes hup
  obtain ⟨hdownSent, hdownOpen, -, hdownGrow⟩ := nodes_in_order G inflate hdownNodes hdown
  obtain ⟨hordered, hkeyed⟩ := allSeals_ordered H hr hupGrow hdownGrow
  refine ⟨?_, hr.equal, hupSent, ?_, hdownSent, ?_, Seal.nodup_of_before hordered,
    Seal.nodup_of_keys hordered hkeyed⟩
  · have hall : r.received = (r.received.map Prod.fst).map (fun m => (m, some (.ok m))) := by
      rw [List.map_map]
      refine (List.map_id _).symm.trans (List.map_congr_left fun e he => ?_)
      exact Prod.ext rfl (hr.received e he)
    rw [hall, hsent]
    rfl
  · rw [hr.equal]
    exact hupOpen
  · rw [← hr.equal]
    exact hdownOpen

end

/-! ### A connection with its real bytes

A script with one text each way and a shared secret in between, then one node each way. The values
are those of SHA-256, HKDF, X25519 and AES-256-GCM. -/

namespace Known

/-- `Noise_XX_25519_AESGCM_SHA256`, padded to 32 bytes, and the hashes that follow it. -/
def pattern : U8Array 32 :=
  .ofNat 32 0x4e6f6973655f58585f32353531395f41455347434d5f53484132353600000000
def hash₁ : U8Array 32 :=
  .ofNat 32 0xffff0c9267310966f1311170c04b38c79504285bf5edf763e5c946492a50a755
def hash₂ : U8Array 32 :=
  .ofNat 32 0x4c42e5c46bd710234951215deab6923bcff84202c988dfa49a7a29ef4e2d2269
def hash₃ : U8Array 32 :=
  .ofNat 32 0x8038d7634dfd78c0dcfcae5179b8420fae80a402006578852946e1fb17a0d290
def hash₄ : U8Array 32 :=
  .ofNat 32 0xb9cc583380cba51e69bf4af914e2a7a3a952c34d6fcfd63b3e0d41ef2cb4997b

def alicePriv : U8Array 32 := .ofNat 32 5
def bobPriv : U8Array 32 := .ofNat 32 6
def alicePub : U8Array 32 :=
  .ofNat 32 0x3d27bed699d19ab47dd74cf24d52fa9e024e1572cfbbc0815be863148d3e761c
def bobPub : U8Array 32 :=
  .ofNat 32 0xc6aec220381059cfd69e899f366eb419056952cf7022eb32d60ea88250722710
def secret : U8Array 32 :=
  .ofNat 32 0x66edc0cfc25d7f5f53c5bd0535d6e2e1fbab0e5a1d51b63933182889af30d651

/-- The salt and the key after the shared secret, and the two keys of the connection. -/
def salt : U8Array 32 :=
  .ofNat 32 0x14666b9e2cfac5634a18eaa6eb8b5c4f5b8f58117b6a88f92740297082f87d85
def key : U8Array 32 :=
  .ofNat 32 0x33a3780a65b630a13c8cf61be6d56b7367129c701724c7afcb85489b1d6a1820
def write : U8Array 32 :=
  .ofNat 32 0x724c255a0d7385ea15286aea312bbc3d03b77abb643ee8aee682246892c05a2b
def read : U8Array 32 :=
  .ofNat 32 0x1aa9f1eb5d95ec1db83266502ca8ed01310c63c6332a7a678188f61b35d61b5e

def helloCt : Bytes := toBE 17 0x23e170f09a79b8d81bf0db68662c96c270
def replyCt : Bytes := toBE 17 0x53dc31686955881d2cac0caf100fa96cc1

def hashing : Hashing :=
  .ofTable
    [(pattern.bytes ++ [0x57, 0x41, 6, 3], hash₁), (hash₁.bytes ++ [9], hash₂),
      (hash₂.bytes ++ helloCt, hash₃), (hash₃.bytes ++ replyCt, hash₄)]
    []
    [((pattern.bytes, secret.bytes, [], 64), salt.bytes ++ key.bytes),
      ((salt.bytes, [], [], 64), write.bytes ++ read.bytes)]

def x25519 : X25519 :=
  .ofTable [(alicePriv, alicePub), (bobPriv, bobPub)] [((alicePub, bobPub), secret)]

def aesGcm : AesGcm :=
  .ofTable
    [⟨(pattern, counterIv 0, hash₂.bytes), [1], helloCt⟩,
      ⟨(key, counterIv 0, hash₃.bytes), [2], replyCt⟩,
      ⟨(write, counterIv 0, []), [0, 248, 1, 86],
        toBE 20 0xe1471313e119f3268be465e83567f67e0aca20e5⟩,
      ⟨(read, counterIv 0, []), [0, 248, 1, 25],
        toBE 20 0x97dd7bad6ae0bcaae8c03330be217afbbeb31642⟩,
      ⟨(write, counterIv 0, []), [0, 248, 0],
        toBE 19 0xe1471233c60e881a0e5d3c3c4c59a110538d75⟩]

def script : List ScriptStep :=
  [.authenticate [9], .send true [1], .mixSharedSecret alicePriv bobPriv, .send false [2]]

def connection : Option HandshakeRun :=
  (HandshakeRun.start hashing pattern.bytes [0x57, 0x41, 6, 3]).run hashing x25519 aesGcm script

end Known

open Known

theorem finish_known : connection.map (fun r => (r.alice.finish hashing, r.bob.finish hashing)) =
    some ((⟨write, 0⟩, ⟨read, 0⟩), (⟨write, 0⟩, ⟨read, 0⟩)) := by decide +kernel

/-- Two texts of a handshake and two nodes, all received, and four seals that differ. -/
theorem noise_in_lockstep_known :
    ∃ r up down upLast downLast, connection = some r ∧
      up.map Shipment.node = [Node.new "ping"] ∧ down.map Shipment.node = [Node.new "iq"] ∧
      r.received = [([1], some (.ok [1])), ([2], some (.ok [2]))] ∧
      openNodes aesGcm (fun _ => none) ⟨write, 0⟩ (up.map Shipment.wire) =
        some (up.map (fun s => .ok s.node), upLast) ∧
      openNodes aesGcm (fun _ => none) ⟨read, 0⟩ (down.map Shipment.wire) =
        some (down.map (fun s => .ok s.node), downLast) ∧
      ((allSeals hashing r up down).map fun s => (s.key, s.iv)).Nodup := by
  have hfinish := finish_known
  obtain ⟨r, hr, hends⟩ := Option.map_eq_some_iff.mp hfinish
  obtain ⟨halice, hbob⟩ := Prod.mk.inj hends
  have hkeys : connection.all fun r => decide (allKeys hashing r).Nodup := by decide +kernel
  have hup : (shipNodes aesGcm ⟨write, 0⟩ [Node.new "ping"]).isSome := by decide +kernel
  have hdown : (shipNodes aesGcm ⟨read, 0⟩ [Node.new "iq"]).isSome := by decide +kernel
  obtain ⟨⟨up, upLast⟩, hup⟩ := Option.isSome_iff_exists.mp hup
  obtain ⟨⟨down, downLast⟩, hdown⟩ := Option.isSome_iff_exists.mp hdown
  have hping : ∀ n ∈ [Node.new "ping"], Canonical n :=
    List.forall_mem_singleton.mpr (canonical_new (by decide) (by decide))
  have hiq : ∀ n ∈ [Node.new "iq"], Canonical n :=
    List.forall_mem_singleton.mpr (canonical_new (by decide) (by decide))
  rw [hr] at hkeys
  obtain ⟨hreceived, -, hupSent, hupOpen, hdownSent, hdownOpen, -, hfresh⟩ :=
    noise_in_lockstep hashing x25519 aesGcm hr hping hiq (by rw [halice]; exact hup)
      (by rw [hbob]; exact hdown) fun _ => none
  rw [hbob] at hupOpen
  rw [halice] at hdownOpen
  exact ⟨r, up, down, upLast, downLast, hr,
    hupSent.trans (List.filter_cons_of_pos (by decide +kernel)),
    hdownSent.trans (List.filter_cons_of_pos (by decide +kernel)),
    hreceived, hupOpen, hdownOpen, hfresh (of_decide_eq_true hkeys)⟩

/-- **A node that is not recovered.** The encoder writes the tag `0` as an empty list and no
    attributes, and the decoder expects more. -/
theorem zero_node_not_recovered :
    ∃ r ct c, connection = some r ∧
      encryptNode aesGcm (r.alice.finish hashing).1 (Node.new "0") = some (.ok ct, c) ∧
      decryptNode aesGcm (fun _ => none) (r.bob.finish hashing).1 ct =
        some (.error (.decode (.eof 2 1)), c) := by
  have hfinish := finish_known
  obtain ⟨r, hr, hends⟩ := Option.map_eq_some_iff.mp hfinish
  obtain ⟨halice, hbob⟩ := Prod.mk.inj hends
  have hpack : pack (Node.new "0") = .ok [0, 248, 0] := by decide +kernel
  have henc : (NoiseCipher.encrypt aesGcm ⟨write, 0⟩ [0, 248, 0]).isSome ∧
      (NoiseCipher.encrypt aesGcm ⟨write, 0⟩ [0, 248, 0]).all fun p => p.1.isOk := by
    decide +kernel
  obtain ⟨⟨res, c⟩, hsome⟩ := Option.isSome_iff_exists.mp henc.1
  have hok := henc.2
  rw [hsome] at hok
  obtain ⟨ct, rfl⟩ : ∃ ct, res = .ok ct := by
    cases res with
    | error e => cases hok
    | ok ct => exact ⟨ct, rfl⟩
  refine ⟨r, ct, c, hr, ?_, ?_⟩
  · rw [halice]
    unfold encryptNode
    rw [hpack]
    simp only [Option.bind_eq_bind, hsome, Option.bind_some]
    rfl
  · rw [hbob]
    unfold decryptNode
    rw [(NoiseCipher.decrypt_encrypt aesGcm hsome).1]
    rfl

end Ruwa.Protocol.Noise
