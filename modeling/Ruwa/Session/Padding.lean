/-
  File:      Ruwa/Session/Padding.lean
  Subject:   THE PADDING OF A PLAINTEXT (`session.rs`, `pad_message`, `unpad_message`,
             `unpad_message_v`): one to fifteen copies of their own number.

  * **`unpadMessage_padMessage`** -- what was padded is what remains.
-/
import Ruwa.Library.Bytes

namespace Ruwa.Session

open Ruwa.Library

/-- The last byte says how many to strip. -/
def unpadMessage (padded : Bytes) : Except String Bytes :=
  match padded.getLast? with
  | none => .error "empty plaintext"
  | some last =>
      let pad := last.toNat
      if pad = 0 ∨ padded.length < pad then .error "invalid pad byte"
      else .ok (padded.take (padded.length - pad))

/-- From version 3 on there is no padding. -/
def unpadMessageV (padded : Bytes) (encVersion : Nat) : Except String Bytes :=
  if 3 ≤ encVersion then .ok padded else unpadMessage padded

/-- The random byte says how many to append. -/
def padMessage (random : UInt8) (plaintext : Bytes) : Bytes :=
  let pad := random &&& 0x0f
  let pad := if pad = 0 then 0x0f else pad
  plaintext ++ List.replicate pad.toNat pad

/-- What was padded is what remains. -/
theorem unpadMessage_padMessage (random : UInt8) (plaintext : Bytes) :
    unpadMessage (padMessage random plaintext) = .ok plaintext := by
  obtain ⟨pad, hpad, hpos⟩ : ∃ pad : UInt8,
      padMessage random plaintext = plaintext ++ List.replicate pad.toNat pad ∧ pad ≠ 0 := by
    refine ⟨_, rfl, ?_⟩
    split
    · decide
    · assumption
  have hne : pad.toNat ≠ 0 := fun h => hpos (UInt8.toNat_inj.mp h)
  have hlast : (padMessage random plaintext).getLast? = some pad := by
    rw [hpad, List.getLast?_append, List.getLast?_replicate, if_neg hne]
    rfl
  have hlength : (padMessage random plaintext).length = plaintext.length + pad.toNat := by
    rw [hpad, List.length_append, List.length_replicate]
  unfold unpadMessage
  rw [hlast]
  dsimp only
  rw [if_neg (by omega), hlength, Nat.add_sub_cancel, hpad, List.take_left]

end Ruwa.Session
