/-
  File:      Ruwa/Library/ProtoWire.lean
  Subject:   THE PROTOCOL BUFFERS WIRE FORMAT, for messages of optional `uint32` and `bytes` fields.

  A message is a sequence of fields, each a tag with a wire type and then the value: a number in
  groups of seven bits, low group first, or a length and that many bytes.

  * `readVarint_varint`, `readField_encodeField` -- one number, one field, in front of any suffix;
  * **`decodeFields_encodeFields`** -- a whole message.

  `Codec` is what a program uses of a generated message type; `Codec.ofFields` is the one that the
  wire format gives.
-/
import Ruwa.Library.Bytes

namespace Ruwa.Library.ProtoWire

/-! ## 1. Numbers -/

/-- The groups of a number, all but the last with the high bit set. `fuel` is never used up:
    `varint` gives it as many groups as the number has units. -/
def varintGroups : (fuel : Nat) → Nat → Bytes
  | 0, n => [UInt8.ofNat n]
  | fuel + 1, n =>
      if n < 128 then [UInt8.ofNat n]
      else UInt8.ofNat (n % 128 + 128) :: varintGroups fuel (n / 128)

def varint (n : Nat) : Bytes := varintGroups n n

def readVarint : Bytes → Option (Nat × Bytes)
  | [] => none
  | b :: bs =>
      if b.toNat < 128 then some (b.toNat, bs)
      else (readVarint bs).map fun (n, rest) => (n * 128 + (b.toNat - 128), rest)

theorem readVarint_groups {fuel n : Nat} (h : n ≤ fuel) (s : Bytes) :
    readVarint (varintGroups fuel n ++ s) = some (n, s) := by
  induction fuel generalizing n with
  | zero =>
      cases Nat.le_zero.mp h
      rfl
  | succ fuel ih =>
      rw [varintGroups]
      by_cases hn : n < 128
      · have hb : (UInt8.ofNat n).toNat = n := by
          rw [UInt8.toNat_ofNat']
          omega
        rw [if_pos hn, List.singleton_append, readVarint, hb, if_pos hn]
      · have hb : (UInt8.ofNat (n % 128 + 128)).toNat = n % 128 + 128 := by
          rw [UInt8.toNat_ofNat']
          omega
        rw [if_neg hn, List.cons_append, readVarint, hb, if_neg (by omega), ih (by omega)]
        have hsum : n / 128 * 128 + (n % 128 + 128 - 128) = n := by omega
        rw [Option.map_some]
        exact congrArg (fun k => some (k, s)) hsum

theorem readVarint_varint (n : Nat) (s : Bytes) : readVarint (varint n ++ s) = some (n, s) :=
  readVarint_groups (Nat.le_refl n) s

/-! ## 2. Fields -/

inductive Value
  | num (n : UInt32)
  | bytes (b : Bytes)
  deriving DecidableEq

/-- A tag and a value. -/
abbrev Field := Nat × Value

def encodeField : Field → Bytes
  | (tag, .num n) => varint (tag * 8) ++ varint n.toNat
  | (tag, .bytes b) => varint (tag * 8 + 2) ++ (varint b.length ++ b)

def readField (bs : Bytes) : Option (Field × Bytes) := do
  let (key, bs) ← readVarint bs
  if key % 8 = 0 then
    let (n, bs) ← readVarint bs
    return ((key / 8, .num (UInt32.ofNat n)), bs)
  else if key % 8 = 2 then
    let (len, bs) ← readVarint bs
    if bs.length < len then none
    else return ((key / 8, .bytes (bs.take len)), bs.drop len)
  else none

theorem readField_encodeField (f : Field) (s : Bytes) :
    readField (encodeField f ++ s) = some (f, s) := by
  obtain ⟨tag, v⟩ := f
  cases v with
  | num n =>
      unfold readField encodeField
      simp only [List.append_assoc, readVarint_varint, Option.bind_eq_bind, Option.bind_some]
      rw [if_pos (Nat.mul_mod_left tag 8), Nat.mul_div_cancel tag (by decide), UInt32.ofNat_toNat]
      rfl
  | bytes b =>
      have hkey : (tag * 8 + 2) % 8 = 2 := by omega
      have htag : (tag * 8 + 2) / 8 = tag := by omega
      unfold readField encodeField
      simp only [List.append_assoc, readVarint_varint, Option.bind_eq_bind, Option.bind_some]
      rw [if_neg (by omega), if_pos hkey, if_neg (by rw [List.length_append]; omega), htag,
        List.take_left, List.drop_left]
      rfl

theorem encodeField_ne_nil (f : Field) : encodeField f ≠ [] := by
  intro h
  have hread := readField_encodeField f []
  rw [h] at hread
  cases hread

/-! ## 3. Messages -/

def encodeFields : List Field → Bytes
  | [] => []
  | f :: fs => encodeField f ++ encodeFields fs

/-- Reads fields to the end of the input; every field takes a byte at least. -/
def readFields : (fuel : Nat) → Bytes → Option (List Field)
  | _, [] => some []
  | 0, _ :: _ => none
  | fuel + 1, b :: bs => do
      let (f, rest) ← readField (b :: bs)
      return f :: (← readFields fuel rest)

def decodeFields (bs : Bytes) : Option (List Field) := readFields bs.length bs

theorem readFields_encodeFields {fs : List Field} {fuel : Nat}
    (h : (encodeFields fs).length ≤ fuel) : readFields fuel (encodeFields fs) = some fs := by
  induction fs generalizing fuel with
  | nil => cases fuel <;> rfl
  | cons f fs ih =>
      rw [encodeFields, List.length_append] at h
      have hpos := List.length_pos_iff.mpr (encodeField_ne_nil f)
      obtain ⟨fuel, rfl⟩ : ∃ k, fuel = k + 1 := ⟨fuel - 1, by omega⟩
      have hread := readField_encodeField f (encodeFields fs)
      rw [encodeFields]
      cases hbytes : encodeField f ++ encodeFields fs with
      | nil =>
          rw [hbytes] at hread
          cases hread
      | cons b bs =>
          rw [hbytes] at hread
          rw [readFields, hread]
          show (readFields fuel (encodeFields fs)).bind (fun l => some (f :: l)) = _
          rw [ih (by omega)]
          rfl

/-- **A message reads back as the fields it was written from.** -/
theorem decodeFields_encodeFields (fs : List Field) : decodeFields (encodeFields fs) = some fs :=
  readFields_encodeFields (Nat.le_refl _)

/-- A field that is set takes up room. -/
theorem encodeFields_ne_nil {fs : List Field} (h : fs ≠ []) : encodeFields fs ≠ [] := by
  cases fs with
  | nil => exact absurd rfl h
  | cons f fs => exact List.append_ne_nil_of_left_ne_nil (encodeField_ne_nil f) _

/-- The last field with this tag; a later field of a message replaces an earlier one. -/
def last? (tag : Nat) (fs : List Field) : Option Value :=
  ((fs.filter fun f => f.1 == tag).map Prod.snd).getLast?

/-- An optional `uint32` field; bytes under its tag are an error. -/
def num? (tag : Nat) (fs : List Field) : Option (Option UInt32) :=
  match last? tag fs with
  | none => some none
  | some (.num n) => some (some n)
  | some (.bytes _) => none

/-- An optional `bytes` field; a number under its tag is an error. -/
def bytes? (tag : Nat) (fs : List Field) : Option (Option Bytes) :=
  match last? tag fs with
  | none => some none
  | some (.bytes b) => some (some b)
  | some (.num _) => none

/-- The fields of a message with an optional number and with optional bytes. -/
def numField (tag : Nat) (n : Option UInt32) : List Field := (n.map fun n => (tag, .num n)).toList
def bytesField (tag : Nat) (b : Option Bytes) : List Field :=
  (b.map fun b => (tag, .bytes b)).toList

@[simp] theorem last?_append (tag : Nat) (fs gs : List Field) :
    last? tag (fs ++ gs) = (last? tag gs).or (last? tag fs) := by
  unfold last?
  rw [List.filter_append, List.map_append, List.getLast?_append]

@[simp] theorem last?_numField (tag t : Nat) (n : Option UInt32) :
    last? tag (numField t n) = if t = tag then n.map .num else none := by
  cases n <;> simp [last?, numField, List.filter_cons]
  split <;> rfl

@[simp] theorem last?_bytesField (tag t : Nat) (b : Option Bytes) :
    last? tag (bytesField t b) = if t = tag then b.map .bytes else none := by
  cases b <;> simp [last?, bytesField, List.filter_cons]
  split <;> rfl

theorem num?_of_last? {tag : Nat} {fs : List Field} {n : Option UInt32}
    (h : last? tag fs = n.map .num) : num? tag fs = some n := by
  unfold num?
  rw [h]
  cases n <;> rfl

theorem bytes?_of_last? {tag : Nat} {fs : List Field} {b : Option Bytes}
    (h : last? tag fs = b.map .bytes) : bytes? tag fs = some b := by
  unfold bytes?
  rw [h]
  cases b <;> rfl

/-! ## 4. Message types -/

/-- The codec of a message type: `decode` undoes `encode`. -/
structure Codec (M : Type) where
  encode : M → Bytes
  decode : Bytes → Option M
  decode_encode : ∀ m, decode (encode m) = some m

/-- The codec of a type that is built from its fields. -/
def Codec.ofFields {M : Type} (fields : M → List Field) (build : List Field → Option M)
    (h : ∀ m, build (fields m) = some m) : Codec M where
  encode m := encodeFields (fields m)
  decode bs := (decodeFields bs).bind build
  decode_encode m := by rw [decodeFields_encodeFields, Option.bind_some, h]

end Ruwa.Library.ProtoWire
