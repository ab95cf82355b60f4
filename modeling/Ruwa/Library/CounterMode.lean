/-
  File:      Ruwa/Library/CounterMode.lean
  Subject:   COUNTER MODE over an arbitrary block function, and IVs built by XOR.

  A counter-mode cipher XORs the text with the blocks `E(iv), E(iv + 1), E(iv + 2), …`. Two facts
  are used, and neither needs anything of the block function `E`:

  * `applyKeystream_involutive` -- the same call decrypts what it encrypted;
  * `xorInto_inj` -- a field that is XORed into an IV at a fixed place can be read back from it,
    so two IVs built from the same ground are equal only if the fields are.
-/
import Ruwa.Library.Bytes
import Mathlib.Algebra.Group.Nat.Defs
import Mathlib.Tactic.Common

namespace Ruwa.Library

/-! ## 1. The keystream -/

section Keystream

variable (block : U8Array 16 → U8Array 16)

/-- The counter block `i` blocks after `iv`: a 128-bit big-endian counter that wraps. -/
def counterBlock (iv : U8Array 16) (i : Nat) : U8Array 16 :=
  ⟨toBE 16 (fromBE iv.bytes + i), length_toBE 16 _⟩

/-- Byte `j` of the keystream. -/
def keystreamByte (iv : U8Array 16) (j : Nat) : UInt8 :=
  (block (counterBlock iv (j / 16))).bytes.getD (j % 16) 0

/-- The text XORed with the keystream. -/
def applyKeystream (iv : U8Array 16) (text : Bytes) : Bytes :=
  text.mapIdx fun j b => b ^^^ keystreamByte block iv j

@[simp] theorem length_applyKeystream (iv : U8Array 16) (text : Bytes) :
    (applyKeystream block iv text).length = text.length := by
  simp [applyKeystream]

/-- **Decrypting is encrypting once more.** -/
theorem applyKeystream_involutive (iv : U8Array 16) (text : Bytes) :
    applyKeystream block iv (applyKeystream block iv text) = text := by
  apply List.ext_getElem
  · rw [length_applyKeystream, length_applyKeystream]
  · intro j h₁ h₂
    simp only [applyKeystream, List.getElem_mapIdx]
    rw [UInt8.xor_assoc, UInt8.xor_self, UInt8.xor_zero]

end Keystream

/-! ## 2. Fields XORed into an IV -/

/-- `iv[off + i] ^= field[i]` for every byte of `field`. -/
def xorInto (iv : Bytes) (off : Nat) (field : Bytes) : Bytes :=
  iv.take off ++ List.zipWith (· ^^^ ·) (iv.drop off) field ++ iv.drop (off + field.length)

theorem length_xorInto {iv field : Bytes} {off : Nat} (h : off + field.length ≤ iv.length) :
    (xorInto iv off field).length = iv.length := by
  simp only [xorInto, List.length_append, List.length_take, List.length_zipWith, List.length_drop]
  omega

theorem zipWith_xor_inj {base a b : Bytes} (ha : a.length ≤ base.length)
    (hlen : a.length = b.length)
    (h : List.zipWith (· ^^^ ·) base a = List.zipWith (· ^^^ ·) base b) : a = b := by
  apply List.ext_getElem hlen
  intro i h₁ h₂
  have hi : i < base.length := Nat.lt_of_lt_of_le h₁ ha
  have hx : base[i] ^^^ a[i] = base[i] ^^^ b[i] := by
    have := congrArg (·[i]?) h
    simpa [List.getElem?_zipWith, hi, h₁, h₂] using this
  exact UInt8.xor_right_inj base[i] |>.mp hx

/-- **A field XORed in at a fixed place is determined by the result.** -/
theorem xorInto_inj {iv a b : Bytes} {off : Nat} (ha : off + a.length ≤ iv.length)
    (hlen : a.length = b.length) (h : xorInto iv off a = xorInto iv off b) : a = b := by
  have hz : List.zipWith (· ^^^ ·) (iv.drop off) a = List.zipWith (· ^^^ ·) (iv.drop off) b := by
    unfold xorInto at h
    rw [List.append_assoc, List.append_assoc, hlen] at h
    exact List.append_cancel_right (List.append_cancel_left h)
  exact zipWith_xor_inj (by rw [List.length_drop]; omega) hlen hz

/-- What is XORed in, on a byte string cut at the two ends of the field. -/
theorem xorInto_cut (p r : Bytes) {q field : Bytes} (h : q.length = field.length) :
    xorInto (p ++ (q ++ r)) p.length field = p ++ (List.zipWith (· ^^^ ·) q field ++ r) := by
  have hz : List.zipWith (· ^^^ ·) (q ++ r) field = List.zipWith (· ^^^ ·) q field := by
    have happ : List.zipWith (· ^^^ ·) (q ++ r) (field ++ []) =
        List.zipWith (· ^^^ ·) q field ++ List.zipWith (· ^^^ ·) r [] := List.zipWith_append h
    simpa using happ
  have hd : (p ++ (q ++ r)).drop (p.length + field.length) = r := by
    rw [← List.drop_drop, List.drop_left, ← h, List.drop_left]
  rw [xorInto, List.take_left, List.drop_left, hz, hd, List.append_assoc]

/-- **Two fields side by side are one field.** -/
theorem xorInto_xorInto {iv a b : Bytes} {off : Nat} (h : off + a.length + b.length ≤ iv.length) :
    xorInto (xorInto iv off a) (off + a.length) b = xorInto iv off (a ++ b) := by
  obtain ⟨p, q₁, q₂, r, rfl, hp, h₁, h₂⟩ : ∃ p q₁ q₂ r, iv = p ++ (q₁ ++ (q₂ ++ r)) ∧
      p.length = off ∧ q₁.length = a.length ∧ q₂.length = b.length := by
    refine ⟨iv.take off, (iv.drop off).take a.length, ((iv.drop off).drop a.length).take b.length,
      ((iv.drop off).drop a.length).drop b.length, ?_, ?_, ?_, ?_⟩
    · simp only [List.take_append_drop]
    all_goals
      simp only [List.length_take, List.length_drop]
      omega
  subst hp
  have hz : (List.zipWith (· ^^^ ·) q₁ a).length = a.length := by simp [h₁]
  rw [xorInto_cut p (q₂ ++ r) h₁, ← List.append_assoc p]
  have hlen : p.length + a.length = (p ++ List.zipWith (· ^^^ ·) q₁ a).length := by
    rw [List.length_append, hz]
  rw [hlen, xorInto_cut _ r h₂, ← List.append_assoc q₁,
    xorInto_cut p r (by simp [h₁, h₂]), List.zipWith_append h₁]
  simp only [List.append_assoc]

end Ruwa.Library
