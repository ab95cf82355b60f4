/-
  File:      Ruwa/Crypto/Distribution.lean
  Subject:   DISTRIBUTING A SENDER KEY (`crypto.rs`, `serialize_distribution_wire`,
             `parse_distribution_wire`): the chain position of a sender on the wire.

  * **`parse_serialize`** -- a distribution that was sent is the one that is received.
-/
import Ruwa.Crypto.SenderKey

namespace Ruwa.Crypto.SenderKey

open Ruwa.Library

structure SenderKeyDistributionProto where
  id : Option UInt32
  iteration : Option UInt32
  chainKey : Option Bytes
  signingKey : Option Bytes
  deriving DecidableEq

/-- The message type on the wire: tags 1 to 4. -/
def SenderKeyDistributionProto.codec : ProtoWire.Codec SenderKeyDistributionProto :=
  .ofFields
    (fun m => ProtoWire.numField 1 m.id ++ ProtoWire.numField 2 m.iteration ++
      ProtoWire.bytesField 3 m.chainKey ++ ProtoWire.bytesField 4 m.signingKey)
    (fun fs => do
      return ⟨← ProtoWire.num? 1 fs, ← ProtoWire.num? 2 fs, ← ProtoWire.bytes? 3 fs,
        ← ProtoWire.bytes? 4 fs⟩)
    (by
      intro m
      rw [ProtoWire.num?_of_last? (n := m.id) (by simp),
        ProtoWire.num?_of_last? (n := m.iteration) (by simp),
        ProtoWire.bytes?_of_last? (b := m.chainKey) (by simp),
        ProtoWire.bytes?_of_last? (b := m.signingKey) (by simp)]
      rfl)

/-- What marks a public key of the curve. -/
def DJB_TYPE : UInt8 := 0x05

def serializeDistributionWire (dist : SenderKeyDistribution) : Bytes :=
  WHISPER_VERSION :: SenderKeyDistributionProto.codec.encode
    ⟨some dist.keyId, some dist.iteration, some dist.chainKey.bytes,
      some (DJB_TYPE :: dist.signingKey.bytes)⟩

/-- A bare key is taken as well. -/
def signingKey? (sk : Bytes) : Option (U8Array 32) :=
  if sk.length = 33 ∧ sk.head? = some DJB_TYPE then U8Array.ofBytes? 32 sk.tail
  else U8Array.ofBytes? 32 sk

def parseDistributionWire (wire : Bytes) : Except SkMsgError SenderKeyDistribution := do
  if wire = [] then throw (.malformed "empty SKDM wire")
  let some proto := SenderKeyDistributionProto.codec.decode wire.tail
    | throw (.malformed "SKDM proto")
  let some chain := proto.chainKey | throw (.malformed "SKDM chainKey")
  let some chainKey := U8Array.ofBytes? 32 chain | throw (.malformed "SKDM chainKey length")
  let some sk := proto.signingKey | throw (.malformed "SKDM signingKey")
  let some signingKey := signingKey? sk | throw (.malformed "SKDM signingKey length")
  return ⟨proto.id.getD 0, proto.iteration.getD 0, chainKey, signingKey⟩

theorem signingKey?_marked (key : U8Array 32) :
    signingKey? (DJB_TYPE :: key.bytes) = some key := by
  unfold signingKey?
  rw [if_pos ⟨by rw [List.length_cons, key.length_bytes], rfl⟩, List.tail_cons,
    U8Array.ofBytes?_bytes]

/-- **A distribution that was sent is the one that is received.** -/
theorem parse_serialize (dist : SenderKeyDistribution) :
    parseDistributionWire (serializeDistributionWire dist) = .ok dist := by
  unfold parseDistributionWire serializeDistributionWire
  rw [if_neg (by simp), List.tail_cons, SenderKeyDistributionProto.codec.decode_encode]
  simp only [U8Array.ofBytes?_bytes, signingKey?_marked]
  rfl

end Ruwa.Crypto.SenderKey
