/-
  File:      Ruwa/Crypto/Xeddsa.lean
  Subject:   SIGNATURES WITH A CURVE25519 KEY (`crypto.rs`, `identity::xeddsa_sign`,
             `xeddsa_verify`).

  A public key is the `u` of a Montgomery point, which two opposite Edwards points have. The signer
  takes the one whose sign bit is 0, and the key or its negative with it; the verifier takes the
  sign bit from the top bit of the signature, which the scalar there leaves 0.

  `curve25519_dalek` and `sha2` are not in the repository: `Curve25519` is what the two functions
  call of them, with the laws of the curve that they rely on.

  * `clamp_bounds` -- the scalar of a key is a multiple of 8 between 2^254 and 2^255;
  * `neg_publicPoint_ne` -- so the point of a key is not its own negative;
  * `toEdwards_publicKey` -- with sign 0 the verifier recovers the point that the signer used;
  * **`xeddsa_complete`** -- what is signed verifies, for every key, message and nonce;
  * `Curve25519.xeddsa` -- the scheme, as the rest of the program uses it.
-/
import Ruwa.Crypto.Primitives
import Ruwa.Library.Scalars
import Mathlib.Logic.Equiv.Basic

namespace Ruwa.Crypto

open Ruwa.Library

/-! ## 1. What the curve library provides -/

namespace Curve25519

/-- The order of the base point. -/
def L : Nat := 2 ^ 252 + 27742317777372353535851937790883648493

instance : NeZero L := ⟨by decide⟩

abbrev Scalar := Fin L

/-- The last byte of 32, and its highest bit: the sign of an encoded point. -/
def topByte (a : U8Array 32) : UInt8 := a.bytes.getD 31 0
def signBit (a : U8Array 32) : UInt8 := topByte a >>> 7

def fromBytesModOrder (a : U8Array 32) : Scalar := Fin.ofNat L (fromLE a.bytes)
def fromBytesModOrderWide (a : U8Array 64) : Scalar := Fin.ofNat L (fromLE a.bytes)

def fromCanonicalBytes (a : U8Array 32) : Option Scalar :=
  if h : fromLE a.bytes < L then some ⟨fromLE a.bytes, h⟩ else none

def toBytes (s : Scalar) : U8Array 32 := .ofNatLE 32 s.val

end Curve25519

open Curve25519 in
/-- The Edwards points with their two encodings, and SHA-512. -/
structure Curve25519 where
  Point : Type
  [group : AddCommGroup Point]
  [decEq : DecidableEq Point]
  basepoint : Point
  addOrderOf_basepoint : addOrderOf basepoint = L
  compress : Point → U8Array 32
  decompress : U8Array 32 → Option Point
  decompress_compress : ∀ p, decompress (compress p) = some p
  /-- Opposite points differ in the sign. -/
  signBit_neg : ∀ p, -p ≠ p → signBit (compress (-p)) ≠ signBit (compress p)
  toMontgomery : Point → U8Array 32
  /-- The point with this `u` and this sign. -/
  toEdwards : U8Array 32 → UInt8 → Option Point
  /-- Two opposite points have a `u`, and no others. -/
  toEdwards_toMontgomery : ∀ p sign, -p ≠ p → sign ≤ 1 → ∃ q,
    toEdwards (toMontgomery p) sign = some q ∧ (q = p ∨ q = -p) ∧ signBit (compress q) = sign
  sha512 : Bytes → U8Array 64

attribute [instance] Curve25519.group Curve25519.decEq

namespace Curve25519

/-! ## 2. The scheme -/

def clamp (a : U8Array 32) : U8Array 32 :=
  ((a.modify 0 (· &&& 0xF8)).modify 31 (· &&& 0x7F)).modify 31 (· ||| 0x40)

theorem head_fits : 0 + 32 ≤ 64 := by decide

theorem tail_fits : 32 + 32 ≤ 64 := by decide

/-- `sig[..32]` and `sig[32..]`. -/
def sigHead (sig : U8Array 64) : U8Array 32 := sig.slice 0 32 head_fits
def sigTail (sig : U8Array 64) : U8Array 32 := sig.slice 32 32 tail_fits

variable (C : Curve25519)

/-- `ED25519_BASEPOINT_TABLE * &s`. -/
def mulBase (s : Scalar) : C.Point := s.val • C.basepoint

/-- The public key of a private one, as `x25519_dalek` computes it. -/
def publicKey (priv : U8Array 32) : U8Array 32 :=
  C.toMontgomery (fromLE (clamp priv).bytes • C.basepoint)

/-- Steps 2 to 5: a nonce, its point, and the scalar of the signature. -/
def signWith (aScalar : Scalar) (bigABytes : U8Array 32) (message : Bytes) (z : U8Array 64) :
    U8Array 64 :=
  let r := fromBytesModOrderWide (C.sha512
    ([0xFE] ++ List.replicate 31 0xFF ++ (toBytes aScalar).bytes ++ message ++ z.bytes))
  let bigRBytes := C.compress (C.mulBase r)
  let hram := fromBytesModOrderWide (C.sha512 (bigRBytes.bytes ++ bigABytes.bytes ++ message))
  let s := r + hram * aScalar
  ⟨bigRBytes.bytes ++ (toBytes s).bytes, by
    rw [List.length_append, U8Array.length_bytes, U8Array.length_bytes]⟩

def xeddsaSign (currPriv : U8Array 32) (message : Bytes) (z : U8Array 64) : U8Array 64 :=
  let k := fromBytesModOrder (clamp currPriv)
  let aCompressed := C.compress (C.mulBase k)
  let signBitSet := topByte aCompressed &&& 0x80 != 0
  let aScalar := if signBitSet then -k else k
  let bigABytes := if signBitSet then C.compress (C.mulBase aScalar) else aCompressed
  C.signWith aScalar bigABytes message z

def xeddsaVerify (curvePub : U8Array 32) (message : Bytes) (sig : U8Array 64) : Bool :=
  let rBytes := sigHead sig
  let sign := topByte (sigTail sig) >>> 7
  let sBytes := (sigTail sig).modify 31 (· &&& 0x7F)
  match C.toEdwards curvePub sign with
  | none => false
  | some bigA =>
      let bigABytes := C.compress bigA
      match C.decompress rBytes with
      | none => false
      | some bigR =>
          match fromCanonicalBytes sBytes with
          | none => false
          | some s =>
              let hram := fromBytesModOrderWide
                (C.sha512 (rBytes.bytes ++ bigABytes.bytes ++ message))
              decide (C.mulBase s = bigR + hram.val • bigA)

end Curve25519

namespace Curve25519

variable {C : Curve25519}

/-! ## 3. The point of a key -/

/-- **The scalar of a key**, after the clamp. -/
theorem clamp_bounds (a : U8Array 32) :
    8 ∣ fromLE (clamp a).bytes ∧ 2 ^ 254 ≤ fromLE (clamp a).bytes ∧
      fromLE (clamp a).bytes < 2 ^ 255 := by
  have hlow : ∀ b : UInt8, 8 ∣ (b &&& 0xF8).toNat := forall_byte (by decide +kernel)
  have hhigh : ∀ b : UInt8, 64 ≤ (b &&& 0x7F ||| 0x40).toNat ∧
      (b &&& 0x7F ||| 0x40).toNat < 128 := forall_byte (by decide +kernel)
  obtain ⟨lo, mid, hi, hmid, hbytes⟩ : ∃ lo mid hi, mid.length = 30 ∧
      a.bytes = lo :: (mid ++ [hi]) := by
    obtain ⟨lo, rest, hrest⟩ := List.exists_cons_of_length_eq_add_one a.length_bytes
    have hlength := a.length_bytes
    rw [hrest, List.length_cons] at hlength
    have hne : rest ≠ [] := fun h => by
      rw [h] at hlength
      cases hlength
    refine ⟨lo, rest.dropLast, rest.getLast hne, ?_, ?_⟩
    · rw [List.length_dropLast]
      omega
    · rw [hrest, List.dropLast_append_getLast]
  have hclamp : (clamp a).bytes = (lo &&& 0xF8) :: (mid ++ [hi &&& 0x7F ||| 0x40]) := by
    show ((a.bytes.modify 0 (· &&& 0xF8)).modify 31 (· &&& 0x7F)).modify 31 (· ||| 0x40) = _
    have hlast : ∀ b f, (mid ++ [b]).modify 30 f = mid ++ [f b] :=
      fun b f => hmid ▸ modify_concat mid b f
    rw [hbytes, List.modify_zero_cons, List.modify_succ_cons, hlast, List.modify_succ_cons, hlast]
  rw [hclamp]
  obtain ⟨hdvd, hge, hlt⟩ := fromLE_ends mid (hi &&& 0x7F ||| 0x40) (by decide : 8 ∣ 256) (hlow lo)
  rw [hmid] at hge hlt
  obtain ⟨hmin, hmax⟩ := hhigh hi
  refine ⟨hdvd, ?_, ?_⟩
  · omega
  · omega

theorem order_smul : L • C.basepoint = 0 := by
  rw [← C.addOrderOf_basepoint]
  exact addOrderOf_nsmul_eq_zero _

/-- The point of a private key. -/
def publicPoint (C : Curve25519) (priv : U8Array 32) : C.Point :=
  C.mulBase (fromBytesModOrder (clamp priv))

theorem publicKey_eq (priv : U8Array 32) :
    C.publicKey priv = C.toMontgomery (C.publicPoint priv) :=
  congrArg C.toMontgomery (nsmul_ofNat order_smul _).symm

/-- **No key has a point that is its own negative.** -/
theorem neg_publicPoint_ne (priv : U8Array 32) : -C.publicPoint priv ≠ C.publicPoint priv := by
  intro hsame
  obtain ⟨⟨m, hm⟩, hmin, hmax⟩ := clamp_bounds priv
  have htwice : (2 * fromLE (clamp priv).bytes) • C.basepoint = 0 := by
    have hpoint : C.publicPoint priv = fromLE (clamp priv).bytes • C.basepoint :=
      nsmul_ofNat order_smul _
    rw [mul_nsmul', ← hpoint, two_nsmul]
    exact neg_eq_iff_add_eq_zero.mp hsame
  have hdvd : L ∣ 16 * m := by
    rw [← C.addOrderOf_basepoint, addOrderOf_dvd_iff_nsmul_eq_zero, ← htwice, hm]
    congr 1
    ring
  have hcoprime : Nat.Coprime L 16 := by decide
  have hlarge : 2 ^ 252 < L := by decide
  have hle := Nat.le_of_dvd (by omega) (hcoprime.dvd_of_dvd_mul_left hdvd)
  omega

/-! ## 4. The point of a signer -/

/-- The scalar that the signer signs with. -/
def signingScalar (C : Curve25519) (priv : U8Array 32) : Scalar :=
  if topByte (C.compress (C.publicPoint priv)) &&& 0x80 != 0 then
    -fromBytesModOrder (clamp priv)
  else fromBytesModOrder (clamp priv)

theorem xeddsaSign_eq (priv : U8Array 32) (message : Bytes) (z : U8Array 64) :
    C.xeddsaSign priv message z =
      C.signWith (C.signingScalar priv) (C.compress (C.mulBase (C.signingScalar priv))) message z := by
  have hpoint : C.compress (C.mulBase (C.signingScalar priv)) =
      if topByte (C.compress (C.publicPoint priv)) &&& 0x80 != 0 then
        C.compress (C.mulBase (C.signingScalar priv))
      else C.compress (C.publicPoint priv) := by
    unfold signingScalar
    split
    · rfl
    · rfl
  rw [hpoint]
  rfl

/-- What the signer tests, and what the verifier reads. -/
theorem signBit_cases : ∀ b : UInt8, ((b &&& 0x80 != 0) = true → b >>> 7 = 1) ∧
    ((b &&& 0x80 != 0) = false → b >>> 7 = 0) ∧ (b >>> 7 = 0 ∨ b >>> 7 = 1) :=
  forall_byte (by decide +kernel)

/-- **The signer's point**: that of the key or its negative, with the sign 0. -/
theorem signer_cases (priv : U8Array 32) :
    (C.mulBase (C.signingScalar priv) = C.publicPoint priv ∨
      C.mulBase (C.signingScalar priv) = -C.publicPoint priv) ∧
    signBit (C.compress (C.mulBase (C.signingScalar priv))) = 0 := by
  obtain ⟨hset, hclear, -⟩ := signBit_cases (topByte (C.compress (C.publicPoint priv)))
  cases hsign : topByte (C.compress (C.publicPoint priv)) &&& 0x80 != 0 with
  | true =>
      have hneg : C.mulBase (C.signingScalar priv) = -C.publicPoint priv := by
        unfold signingScalar
        rw [if_pos hsign]
        exact nsmul_neg order_smul _
      refine ⟨Or.inr hneg, ?_⟩
      rw [hneg]
      have hdiffer := C.signBit_neg _ (neg_publicPoint_ne priv)
      have hone : signBit (C.compress (C.publicPoint priv)) = 1 := hset hsign
      rw [hone] at hdiffer
      exact (signBit_cases (topByte (C.compress (-C.publicPoint priv)))).2.2.resolve_right hdiffer
  | false =>
      have hsame : C.mulBase (C.signingScalar priv) = C.publicPoint priv := by
        unfold signingScalar
        rw [if_neg (by rw [hsign]; exact Bool.false_ne_true)]
        rfl
      refine ⟨Or.inl hsame, ?_⟩
      rw [hsame]
      exact hclear hsign

/-- **The verifier recovers it** from the public key, with the sign 0. -/
theorem toEdwards_publicKey (priv : U8Array 32) :
    C.toEdwards (C.publicKey priv) 0 = some (C.mulBase (C.signingScalar priv)) := by
  have hne := neg_publicPoint_ne (C := C) priv
  obtain ⟨q, hq, hcase, hsign⟩ := C.toEdwards_toMontgomery _ 0 hne (by decide)
  obtain ⟨hsigner, hzero⟩ := signer_cases (C := C) priv
  rw [publicKey_eq, hq]
  have hdiffer := C.signBit_neg _ hne
  -- Of the two points only one has the sign 0.
  rcases hcase with rfl | rfl <;> rcases hsigner with hs | hs <;> rw [hs] at hzero ⊢
  · exact absurd (hzero.trans hsign.symm) hdiffer
  · exact absurd (hsign.trans hzero.symm) hdiffer

/-! ## 5. A signature -/

/-- A scalar has no top bit. -/
theorem topByte_toBytes (s : Scalar) : topByte (toBytes s) < 0x20 := by
  have htop : topByte (toBytes s) = UInt8.ofNat (s.val / 256 ^ 31) := by
    unfold topByte
    rw [List.getD_eq_getElem?_getD]
    show ((toLE 32 s.val)[31]?).getD 0 = _
    rw [getElem?_toLE (by decide)]
    rfl
  have hlarge : L < 2 ^ 253 := by decide
  have hs := s.isLt
  rw [htop, UInt8.lt_iff_toNat_lt, UInt8.toNat_ofNat']
  have hdiv : s.val / 256 ^ 31 < 32 := Nat.div_lt_of_lt_mul (Nat.lt_trans hs hlarge)
  show s.val / 256 ^ 31 % 256 < 32
  exact Nat.lt_of_le_of_lt (Nat.mod_le _ _) hdiv

/-- The verifier reads the scalar of a signature. -/
theorem fromCanonicalBytes_toBytes (s : Scalar) :
    fromCanonicalBytes ((toBytes s).modify 31 (· &&& 0x7F)) = some s := by
  have hmask : ∀ b : UInt8, b < 0x20 → b &&& 0x7F = b := forall_byte (by decide +kernel)
  have hsame : (toBytes s).modify 31 (· &&& 0x7F) = toBytes s := by
    refine U8Array.ext (modify_eq_self fun b hb => hmask b ?_)
    have htop : topByte (toBytes s) = b := by
      unfold topByte
      rw [List.getD_eq_getElem?_getD, hb, Option.getD_some]
    exact htop ▸ topByte_toBytes s
  have hlarge : L < 256 ^ 32 := by decide
  have hvalue : fromLE (toBytes s).bytes = s.val := fromLE_toLE (Nat.lt_trans s.isLt hlarge)
  unfold fromCanonicalBytes
  rw [hsame, dif_pos (hvalue ▸ s.isLt)]
  exact congrArg some (Fin.ext hvalue)

theorem sigHead_append (r s : U8Array 32) (h : (r.bytes ++ s.bytes).length = 64) :
    sigHead ⟨r.bytes ++ s.bytes, h⟩ = r := by
  apply U8Array.ext
  show ((r.bytes ++ s.bytes).drop 0).take 32 = r.bytes
  rw [List.drop_zero, List.take_left' r.length_bytes]

theorem sigTail_append (r s : U8Array 32) (h : (r.bytes ++ s.bytes).length = 64) :
    sigTail ⟨r.bytes ++ s.bytes, h⟩ = s := by
  apply U8Array.ext
  show ((r.bytes ++ s.bytes).drop 32).take 32 = s.bytes
  rw [List.drop_left' r.length_bytes, List.take_of_length_le (Nat.le_of_eq s.length_bytes)]

end Curve25519

namespace Curve25519

/-! ## 6. Known answers -/

/-- The multiples of the base point, by their scalars. -/
def Multiple := Fin L

namespace Multiple

def scalar (p : Multiple) : Nat := Fin.val p

def ofNat (k : Nat) : Multiple := Fin.ofNat L k

instance : DecidableEq Multiple := inferInstanceAs (DecidableEq (Fin L))

/-- A multiple is computed, and not added up. -/
instance : AddCommGroup Multiple where
  __ := Fin.addCommGroup L
  nsmul k p := ofNat (k * p.scalar)
  nsmul_zero p := by
    show ofNat (0 * p.scalar) = _
    rw [Nat.zero_mul]
    rfl
  nsmul_succ k p := by
    refine Fin.ext ?_
    show ((k + 1) * p.scalar) % L = ((k * p.scalar) % L + p.scalar) % L
    rw [Nat.mod_add_mod, Nat.add_mul, Nat.one_mul]

theorem scalar_lt (p : Multiple) : p.scalar < L := Fin.isLt p

theorem scalar_inj {p q : Multiple} (h : p.scalar = q.scalar) : p = q := Fin.ext h

theorem scalar_neg (p : Multiple) : (-p).scalar = if p.scalar = 0 then 0 else L - p.scalar := by
  have hp := p.scalar_lt
  have hval : (-p).scalar = (L - p.scalar) % L := rfl
  rw [hval]
  split
  · rename_i hzero
    rw [hzero, Nat.sub_zero, Nat.mod_self]
  · exact Nat.mod_eq_of_lt (by omega)

theorem ofNat_scalar (p : Multiple) : ofNat p.scalar = p :=
  Fin.ext (Nat.mod_eq_of_lt (Fin.isLt p))

theorem addOrderOf_one : addOrderOf (ofNat 1) = L := by
  apply Nat.dvd_antisymm
  · rw [addOrderOf_dvd_iff_nsmul_eq_zero]
    rfl
  · have h := addOrderOf_nsmul_eq_zero (ofNat 1)
    have hval : addOrderOf (ofNat 1) * 1 % L = 0 := congrArg scalar h
    rw [Nat.mul_one] at hval
    exact Nat.dvd_of_mod_eq_zero hval

/-- The number that opposite multiples share. -/
def half (p : Multiple) : Fin (2 ^ 255) :=
  ⟨min p.scalar (L - p.scalar), Nat.lt_of_le_of_lt (Nat.min_le_left _ _)
    (Nat.lt_trans p.scalar_lt (by decide))⟩

/-- Of two opposite multiples, the larger one. -/
def upper (p : Multiple) : Bool := decide (L - p.scalar < p.scalar)

theorem half_neg (p : Multiple) : (-p).half = p.half := by
  have hp := p.scalar_lt
  apply Fin.ext
  show min (-p).scalar (L - (-p).scalar) = min p.scalar (L - p.scalar)
  rw [scalar_neg]
  split
  · omega
  · omega

theorem upper_neg {p : Multiple} (h : -p ≠ p) : (-p).upper = !p.upper := by
  have hp := p.scalar_lt
  have hodd : L % 2 = 1 := by decide
  have hne : (-p).scalar ≠ p.scalar := fun he => h (scalar_inj he)
  unfold upper
  rw [scalar_neg] at hne ⊢
  split at hne
  · omega
  · rename_i hpos
    rw [if_neg hpos, ← decide_not, decide_eq_decide]
    omega

end Multiple

section Table

variable (ys us : Equiv.Perm (Fin (2 ^ 255))) (negative : Fin (2 ^ 255) → Bool)

/-- The sign of a multiple: that of the smaller one of two is in the table. -/
def tableSign (p : Multiple) : Bool := p.upper != negative p.half

/-- Its `y` in the table, and its sign. -/
def tableCompress (p : Multiple) : U8Array 32 :=
  .ofNatLE 32 ((ys p.half).val + 2 ^ 255 * (tableSign negative p).toNat)

def tableMontgomery (p : Multiple) : U8Array 32 := .ofNatLE 32 (us p.half).val

/-- A multiple and its opposite. -/
def opposites (half : Fin (2 ^ 255)) : List Multiple := [.ofNat half.val, -.ofNat half.val]

/-- The number without the highest bit. -/
def low255 (b : U8Array 32) : Fin (2 ^ 255) := Fin.ofNat _ (fromLE b.bytes)

variable {ys us negative}

theorem opposites_half (p : Multiple) :
    opposites p.half = [p, -p] ∨ opposites p.half = [-p, p] := by
  have hp := p.scalar_lt
  by_cases hle : p.scalar ≤ L - p.scalar
  · left
    have hhalf : p.half.val = p.scalar := Nat.min_eq_left hle
    unfold opposites
    rw [hhalf, Multiple.ofNat_scalar]
  · right
    have hneg : Multiple.ofNat p.half.val = -p := by
      refine Multiple.scalar_inj ?_
      have hhalf : p.half.val = L - p.scalar := Nat.min_eq_right (by omega)
      rw [Multiple.scalar_neg, if_neg (by omega), hhalf]
      exact Nat.mod_eq_of_lt (by omega)
    unfold opposites
    rw [hneg, neg_neg]

/-- The one of the two that a test singles out. -/
theorem find_opposite {p : Multiple} {good : Multiple → Bool} (hp : good p = true)
    (hneg : -p ≠ p → good (-p) = false) : (opposites p.half).find? good = some p := by
  rcases opposites_half p with hpair | hpair
  · rw [hpair, List.find?_cons_of_pos hp]
  · rw [hpair]
    by_cases hne : -p = p
    · rw [hne, List.find?_cons_of_pos hp]
    · rw [List.find?_cons_of_neg (by rw [hneg hne]; exact Bool.false_ne_true),
        List.find?_cons_of_pos hp]

theorem tableValue_lt (p : Multiple) :
    (ys p.half).val + 2 ^ 255 * (tableSign negative p).toNat < 256 ^ 32 := by
  have hy := (ys p.half).isLt
  have hsign := Bool.toNat_le (tableSign negative p)
  omega

theorem low255_compress (p : Multiple) : low255 (tableCompress ys negative p) = ys p.half := by
  have hy := (ys p.half).isLt
  apply Fin.ext
  show fromLE (toLE 32 _) % 2 ^ 255 = (ys p.half).val
  rw [fromLE_toLE (tableValue_lt p), Nat.add_mul_mod_self_left, Nat.mod_eq_of_lt hy]

theorem low255_montgomery (p : Multiple) : low255 (tableMontgomery us p) = us p.half := by
  have hu := (us p.half).isLt
  apply Fin.ext
  show fromLE (toLE 32 _) % 2 ^ 255 = (us p.half).val
  rw [fromLE_toLE (by omega), Nat.mod_eq_of_lt hu]

theorem signBit_compress (p : Multiple) :
    signBit (tableCompress ys negative p) = if tableSign negative p then 1 else 0 := by
  have hy := (ys p.half).isLt
  have htop : topByte (tableCompress ys negative p) =
      UInt8.ofNat (((ys p.half).val + 2 ^ 255 * (tableSign negative p).toNat) / 256 ^ 31) := by
    unfold topByte
    rw [List.getD_eq_getElem?_getD]
    show ((toLE 32 _)[31]?).getD 0 = _
    rw [getElem?_toLE (by decide)]
    rfl
  unfold signBit
  rw [htop]
  have hlow : (ys p.half).val / 256 ^ 31 < 128 := Nat.div_lt_of_lt_mul (by omega)
  cases tableSign negative p with
  | false =>
      rw [Bool.toNat_false, Nat.mul_zero, Nat.add_zero]
      have hall : ∀ n < 128, UInt8.ofNat n >>> 7 = 0 := by decide +kernel
      exact hall _ hlow
  | true =>
      have hsum : ((ys p.half).val + 2 ^ 255 * true.toNat) / 256 ^ 31 =
          (ys p.half).val / 256 ^ 31 + 128 := by
        rw [Bool.toNat_true]
        omega
      rw [hsum]
      have hall : ∀ n < 128, UInt8.ofNat (n + 128) >>> 7 = 1 := by decide +kernel
      exact hall _ hlow

theorem tableSign_neg {p : Multiple} (h : -p ≠ p) :
    tableSign negative (-p) = !tableSign negative p := by
  unfold tableSign
  rw [Multiple.half_neg, Multiple.upper_neg h]
  cases p.upper <;> cases negative p.half <;> rfl

theorem signBit_compress_neg {p : Multiple} (h : -p ≠ p) :
    signBit (tableCompress ys negative (-p)) ≠ signBit (tableCompress ys negative p) := by
  rw [signBit_compress, signBit_compress, tableSign_neg h]
  cases tableSign negative p <;> decide

end Table

/-- The curve as far as a table knows it: the two coordinates, and the signs, of multiples of the
    base point. -/
def ofTable (ys us : Equiv.Perm (Fin (2 ^ 255))) (negative : Fin (2 ^ 255) → Bool)
    (sha512 : List (Bytes × U8Array 64)) : Curve25519 where
  Point := Multiple
  basepoint := .ofNat 1
  addOrderOf_basepoint := Multiple.addOrderOf_one
  compress := tableCompress ys negative
  decompress b := (opposites (ys.symm (low255 b))).find? fun p =>
    decide (tableCompress ys negative p = b)
  decompress_compress p := by
    rw [low255_compress, Equiv.symm_apply_apply]
    exact find_opposite (decide_eq_true rfl) fun hne =>
      decide_eq_false fun hsame => signBit_compress_neg hne (congrArg signBit hsame)
  signBit_neg _ := signBit_compress_neg
  toMontgomery := tableMontgomery us
  toEdwards b sign := (opposites (us.symm (low255 b))).find? fun p =>
    decide (signBit (tableCompress ys negative p) = sign)
  toEdwards_toMontgomery p sign hne hsign := by
    rw [low255_montgomery, Equiv.symm_apply_apply]
    by_cases hp : signBit (tableCompress ys negative p) = sign
    · refine ⟨p, find_opposite (decide_eq_true hp) fun _ => decide_eq_false fun hneg => ?_,
        Or.inl rfl, hp⟩
      exact signBit_compress_neg hne (hneg.trans hp.symm)
    · have hneg : signBit (tableCompress ys negative (-p)) = sign := by
        rw [signBit_compress] at hp ⊢
        rw [tableSign_neg hne]
        have hall : ∀ s : UInt8, s ≤ 1 → s = 0 ∨ s = 1 := forall_byte (by decide +kernel)
        rcases hall sign hsign with rfl | rfl <;> cases hsig : tableSign negative p <;>
          rw [hsig] at hp <;> first | rfl | exact absurd rfl hp
      refine ⟨-p, ?_, Or.inr rfl, hneg⟩
      rw [← Multiple.half_neg]
      refine find_opposite (decide_eq_true hneg) fun _ => decide_eq_false ?_
      rwa [neg_neg]
  sha512 := known sha512 (.replicate 64 0)

/-! ## 7. Two keys -/

namespace Known

/-- The smaller multiple of each point, with its `y` or its `u`. -/
def ys : Equiv.Perm (Fin (2 ^ 255)) :=
  Equiv.swap 110969271109489414143407751163534593964
    0x57012940cdfe82e1a49d2a5f359867459867a0abd8ae153a39a6cd1cfd7d87c9 *
  Equiv.swap 3063770651436713049071648510362918063530246642681003728921417977016550971843
    0x29da5c75bd81706a5760206432564456675281adfcc553c1b8df1fdbebe971df *
  Equiv.swap 110969271109489414143407751163534593956
    0x16bd91d578fd465430b69c484c5a386cba84d5c80c22881848dab539c78c5933 *
  Equiv.swap 3541352929407220246584602213626085674478403392462856157585331593099249320541
    0x13ba63bc94ea1afa22181ea7196b44fe27694beb56b0d900557dfdbd63e55ed4

def us : Equiv.Perm (Fin (2 ^ 255)) :=
  Equiv.swap 110969271109489414143407751163534593964
    0x7930ae1103e8603c784b85b67bb897789f27b72b3e0b35a1bcd727627a8e2c42 *
  Equiv.swap 110969271109489414143407751163534593956
    0x2df4ec7961bb9d7b15c0c5dbc42e68cc6ef44ed32f54edaf39afbbbc7f8208d

/-- Those whose sign is 1. -/
def negative (half : Fin (2 ^ 255)) : Bool :=
  decide (half = 110969271109489414143407751163534593964 ∨
    half = 3063770651436713049071648510362918063530246642681003728921417977016550971843)

/-- The point of one private key has the sign 0, that of the other the sign 1. -/
def plainPriv : U8Array 32 :=
  .ofNat 32 0x0800000000000000000000000000000000000000000000000000000000000040
def signedPriv : U8Array 32 :=
  .ofNat 32 0x1000000000000000000000000000000000000000000000000000000000000040

def hi : Bytes := [0x68, 0x69]
def noncePrefix : Bytes := [0xFE] ++ List.replicate 31 0xFF

def digests : List (Bytes × U8Array 64) :=
  [(noncePrefix ++
      toLE 32 7237005577332262213973186563042994240746147088270418191858543187121919657025 ++
      hi ++ List.replicate 64 0, .ofNat 64
      0x8a1d6a45b2d6be3bc4fbef7065a4af06aed791e65b1bcad453ce698312ee81f11bb4ec1fbb58530551e4c96dcbad71f716ab51c6226c3dbe774d9dff7d6fe77f),
    (toBE 32 0xdf71e9ebdb1fdfb8c153c5fcad81526756445632642060576a7081bd755cda29 ++
      toBE 32 0xc9877dfd1ccda6393a15aed8aba06798456798355f2a9da4e182fecd40290157 ++
      hi, .ofNat 64
      0x061811a0bf4b02cc367573a0947fc1d2abbe5a0a09b4196ee48da291cebfcdb0abc007406767815316cbadff645a075d439e4d54f2f894433e118c3f91e0c873),
    (noncePrefix ++ toLE 32 110969271109489414143407751163534593956 ++
      hi ++ List.replicate 64 0, .ofNat 64
      0x51c066414e6935770b9fd8bc7a057b86a154d707364f5f2a1fb3e5cd374e053f302284d75bc85c700cdd35f28771ce10430141ded832429917342f1a6097511a),
    (toBE 32 0xd45ee563bdfd7d5500d9b056eb4b6927fe446b19a71e1822fa1aea94bc63ba13 ++
      toBE 32 0x33598cc739b5da481888220cc8d584ba6c385a4c489cb6305446fd78d591bd16 ++
      hi, .ofNat 64
      0x811dfdb278186edc8960c41e177265337814916db2b2230cbcae6473c317935a0875f79b16c0e636d48112494327759ae64bec80cf954b63449e15b564ecf5a3)]

def curve : Curve25519 := .ofTable ys us negative digests

end Known

end Curve25519

open Curve25519

/-- **What is signed verifies**, for every private key, message and nonce: the top bit of the
    signature is 0, and with it the verifier has the point that the signer used. -/
theorem xeddsa_complete (C : Curve25519) (priv : U8Array 32) (message : Bytes) (z : U8Array 64) :
    C.xeddsaVerify (C.publicKey priv) message (C.xeddsaSign priv message z) = true ∧
      signBit (sigTail (C.xeddsaSign priv message z)) = 0 ∧
      C.toEdwards (C.publicKey priv) 0 = some (C.mulBase (C.signingScalar priv)) ∧
      signBit (C.compress (C.mulBase (C.signingScalar priv))) = 0 := by
  have hshift : ∀ b : UInt8, b < 0x20 → b >>> 7 = 0 := forall_byte (by decide +kernel)
  let aScalar := C.signingScalar priv
  let bigABytes := C.compress (C.mulBase aScalar)
  let r := fromBytesModOrderWide (C.sha512
    ([0xFE] ++ List.replicate 31 0xFF ++ (toBytes aScalar).bytes ++ message ++ z.bytes))
  let bigRBytes := C.compress (C.mulBase r)
  let hram := fromBytesModOrderWide (C.sha512 (bigRBytes.bytes ++ bigABytes.bytes ++ message))
  have hhead : sigHead (C.xeddsaSign priv message z) = bigRBytes := by
    rw [xeddsaSign_eq]
    exact sigHead_append _ _ _
  have htail : sigTail (C.xeddsaSign priv message z) = toBytes (r + hram * aScalar) := by
    rw [xeddsaSign_eq]
    exact sigTail_append _ _ _
  have htop : topByte (toBytes (r + hram * aScalar)) >>> 7 = 0 := hshift _ (topByte_toBytes _)
  refine ⟨?_, ?_, toEdwards_publicKey priv, (signer_cases priv).2⟩
  · have hequation : C.mulBase (r + hram * aScalar) =
        C.mulBase r + hram.val • C.mulBase aScalar := by
      unfold mulBase
      rw [nsmul_add order_smul, nsmul_mul order_smul]
    unfold xeddsaVerify
    dsimp only
    rw [hhead, htail, htop, toEdwards_publicKey, C.decompress_compress,
      fromCanonicalBytes_toBytes]
    exact decide_eq_true hequation
  · unfold signBit
    rw [htail, htop]

open Curve25519.Known in
/-- **Keys of either sign**: their public keys, and what they sign. -/
theorem xeddsa_two_keys :
    (curve.publicKey plainPriv =
        .ofNat 32 0x422c8e7a6227d7bca1350b3e2bb7279f7897b87bb6854b783c60e80311ae3079 ∧
      curve.xeddsaSign plainPriv hi (.replicate 64 0) = .ofNat 64
        0xdf71e9ebdb1fdfb8c153c5fcad81526756445632642060576a7081bd755cda29259e8565a3f56c6994faed1cc0b6b7e34867d6407be46526e8c305403ab90f03 ∧
      curve.publicKey signedPriv =
        .ofNat 32 0x8d20f8c7bbfb9af3da4ef532ed44efc68ce642bc5d0c5cb1d7b91b96c74edf02 ∧
      curve.xeddsaSign signedPriv hi (.replicate 64 0) = .ofNat 64
        0xd45ee563bdfd7d5500d9b056eb4b6927fe446b19a71e1822fa1aea94bc63ba13c6f5f5347b2f2992eec9136f4daebec9f75e82e7967cab66f8e713444ad02909) ∧
    ∀ priv ∈ [plainPriv, signedPriv],
      curve.xeddsaVerify (curve.publicKey priv) hi
        (curve.xeddsaSign priv hi (.replicate 64 0)) = true :=
  ⟨by decide +kernel, fun priv _ => (xeddsa_complete curve priv _ _).1⟩

/-- The scheme, as the rest of the program uses it. -/
def Curve25519.xeddsa (C : Curve25519) : XEdDsa where
  pub := C.publicKey
  sign := C.xeddsaSign
  verify := C.xeddsaVerify
  verify_sign priv message nonce := (xeddsa_complete C priv message nonce).1

end Ruwa.Crypto
