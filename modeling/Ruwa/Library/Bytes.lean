/-
  File:      Ruwa/Library/Bytes.lean
  Subject:   BYTE STRINGS: big-endian integers and fixed-size arrays.

  Everything the program puts on a wire is a list of bytes, and nearly every header field in it
  is a big-endian integer of a fixed width. One fact about these carries the round trips:
  `fromBE_toBE`, reading back what was written gives the number, as long as it fits.

  `U8Array n` is a byte string of exactly `n` bytes. Keys, chain keys, hashes and IVs are of this
  type, so a key of the wrong length cannot be built and no later lemma asks for a length.
-/
import Mathlib.Algebra.Group.Nat.Defs
import Mathlib.Data.List.Basic
import Mathlib.Tactic.Common

namespace Ruwa.Library

/-- A byte string. -/
abbrev Bytes := List UInt8

/-- What holds of the 256 bytes holds of every byte. -/
theorem forall_byte {p : UInt8 → Prop} (h : ∀ n < 256, p (UInt8.ofNat n)) (b : UInt8) : p b := by
  have hb := h b.toNat b.toNat_lt
  rwa [UInt8.ofNat_toNat] at hb

/-! ## 1. Big-endian integers -/

/-- The `k` low bytes of `n`, most significant first. -/
def toBE : Nat → Nat → Bytes
  | 0, _ => []
  | k + 1, n => toBE k (n / 256) ++ [UInt8.ofNat n]

/-- The number a byte string spells, most significant byte first. -/
def fromBE (bs : Bytes) : Nat := bs.foldl (fun n b => n * 256 + b.toNat) 0

@[simp] theorem fromBE_nil : fromBE [] = 0 := rfl

theorem fromBE_concat (bs : Bytes) (b : UInt8) : fromBE (bs ++ [b]) = fromBE bs * 256 + b.toNat := by
  simp [fromBE]

@[simp] theorem length_toBE (k n : Nat) : (toBE k n).length = k := by
  induction k generalizing n with
  | zero => rfl
  | succ k ih => simp [toBE, ih]

/-- **What was written is read back**, as long as the number fits the width. -/
theorem fromBE_toBE (k n : Nat) (h : n < 256 ^ k) : fromBE (toBE k n) = n := by
  induction k generalizing n with
  | zero =>
      have : n = 0 := by simpa using h
      simp [toBE, this]
  | succ k ih =>
      have hq : n / 256 < 256 ^ k := by
        rw [Nat.pow_succ] at h
        omega
      rw [toBE, fromBE_concat, ih _ hq, UInt8.toNat_ofNat']
      omega

theorem toBE_inj {k m n : Nat} (hm : m < 256 ^ k) (hn : n < 256 ^ k) (h : toBE k m = toBE k n) :
    m = n := by
  rw [← fromBE_toBE k m hm, h, fromBE_toBE k n hn]

/-- Only the low bytes of a number are written. -/
theorem toBE_mod (k n : Nat) : toBE k (n % 256 ^ k) = toBE k n := by
  induction k generalizing n with
  | zero => rfl
  | succ k ih =>
      have hq : n % 256 ^ (k + 1) / 256 = n / 256 % 256 ^ k := by
        rw [Nat.pow_succ, Nat.mul_comm, Nat.mod_mul_right_div_self]
      have hr : UInt8.ofNat (n % 256 ^ (k + 1)) = UInt8.ofNat n := by
        apply UInt8.toNat_inj.mp
        rw [UInt8.toNat_ofNat', UInt8.toNat_ofNat', Nat.pow_succ]
        exact Nat.mod_mul_left_mod n (256 ^ k) 256
      rw [toBE, hq, ih, hr, toBE]

/-- Writing the high bytes and then the low bytes. -/
theorem toBE_append (j k n : Nat) : toBE j (n / 256 ^ k) ++ toBE k n = toBE (j + k) n := by
  induction k generalizing n with
  | zero => simp [toBE]
  | succ k ih =>
      have hd : n / 256 ^ (k + 1) = n / 256 / 256 ^ k := by
        rw [Nat.div_div_eq_div_mul, Nat.pow_succ, Nat.mul_comm]
      rw [hd, toBE, ← List.append_assoc, ih (n / 256), ← Nat.add_assoc, toBE]

/-- Shifting a byte in from the right, as the program's readers spell it. -/
theorem shiftLeft_or_byte (n : Nat) (b : UInt8) : n <<< 8 ||| b.toNat = n * 256 + b.toNat := by
  rw [← Nat.shiftLeft_add_eq_or_of_lt b.toNat_lt, Nat.shiftLeft_eq]

/-- Three bytes put together by shifts. -/
theorem shift_or_three (b₀ b₁ b₂ : UInt8) :
    b₀.toNat <<< 16 ||| b₁.toNat <<< 8 ||| b₂.toNat = fromBE [b₀, b₁, b₂] := by
  have h₁ : b₁.toNat <<< 8 ||| b₂.toNat = b₁.toNat * 256 + b₂.toNat := shiftLeft_or_byte _ _
  have hlt : b₁.toNat * 256 + b₂.toNat < 2 ^ 16 := by
    have := b₁.toNat_lt
    have := b₂.toNat_lt
    omega
  show _ = ((0 * 256 + b₀.toNat) * 256 + b₁.toNat) * 256 + b₂.toNat
  rw [Nat.or_assoc, h₁, ← Nat.shiftLeft_add_eq_or_of_lt hlt, Nat.shiftLeft_eq]
  omega

/-! ## 2. Byte arrays of a fixed size -/

/-- `[u8; n]`: a byte string of exactly `n` bytes. -/
def U8Array (n : Nat) := { bs : Bytes // bs.length = n }

namespace U8Array

variable {n : Nat}

instance : DecidableEq (U8Array n) := inferInstanceAs (DecidableEq { bs : Bytes // bs.length = n })

/-- The bytes of an array. -/
def bytes (a : U8Array n) : Bytes := a.1

@[simp] theorem length_bytes (a : U8Array n) : a.bytes.length = n := a.2

@[ext] theorem ext {a b : U8Array n} (h : a.bytes = b.bytes) : a = b := Subtype.ext h

/-- `[b; n]`. -/
def replicate (n : Nat) (b : UInt8) : U8Array n := ⟨List.replicate n b, List.length_replicate⟩

/-- `a[off .. off + len]`, for a slice that lies inside the array. -/
def slice (a : U8Array n) (off len : Nat) (h : off + len ≤ n) : U8Array len :=
  ⟨(a.bytes.drop off).take len, by
    rw [List.length_take, List.length_drop, length_bytes]
    omega⟩

/-- The array that spells `k` in big endian. -/
def ofNat (n k : Nat) : U8Array n := ⟨toBE n k, length_toBE n k⟩

/-- A byte string of the right length as an array (`<[u8; n]>::try_from`). -/
def ofBytes? (n : Nat) (bs : Bytes) : Option (U8Array n) :=
  if h : bs.length = n then some ⟨bs, h⟩ else none

@[simp] theorem ofBytes?_bytes (a : U8Array n) : ofBytes? n a.bytes = some a := by
  unfold ofBytes?
  rw [dif_pos a.length_bytes]
  rfl

theorem bytes_of_ofBytes? {bs : Bytes} {a : U8Array n} (h : ofBytes? n bs = some a) :
    a.bytes = bs := by
  unfold ofBytes? at h
  split at h
  · cases h
    rfl
  · cases h

end U8Array

end Ruwa.Library
