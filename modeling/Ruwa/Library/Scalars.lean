/-
  File:      Ruwa/Library/Scalars.lean
  Subject:   LITTLE-ENDIAN NUMBERS, AND SCALARS that act on a point of finite order.

  Signature schemes write their numbers with the least significant byte first, and count multiples
  of a base point modulo its order.

  * `fromLE_toLE` -- reading back what was written gives the number, as long as it fits;
  * `fromLE_ends` -- a number by its lowest and its highest byte;
  * `nsmul_add`, `nsmul_mul`, `nsmul_neg` -- what is done modulo the order is done to the
    multiples.
-/
import Ruwa.Library.Bytes
import Mathlib.Algebra.Group.Fin.Basic
import Mathlib.GroupTheory.OrderOfElement
import Mathlib.Tactic.Ring

namespace Ruwa.Library

/-! ## 1. Little-endian integers -/

/-- The number a byte string spells, least significant byte first. -/
def fromLE : Bytes → Nat
  | [] => 0
  | b :: bs => b.toNat + 256 * fromLE bs

/-- The `k` low bytes of `n`, least significant first. -/
def toLE : Nat → Nat → Bytes
  | 0, _ => []
  | k + 1, n => UInt8.ofNat n :: toLE k (n / 256)

@[simp] theorem length_toLE (k n : Nat) : (toLE k n).length = k := by
  induction k generalizing n with
  | zero => rfl
  | succ k ih => rw [toLE, List.length_cons, ih]

theorem fromLE_append (bs bs' : Bytes) :
    fromLE (bs ++ bs') = fromLE bs + 256 ^ bs.length * fromLE bs' := by
  induction bs with
  | nil => simp [fromLE]
  | cons b bs ih =>
      rw [List.cons_append, fromLE, fromLE, ih, List.length_cons, Nat.pow_succ]
      ring

theorem fromLE_lt (bs : Bytes) : fromLE bs < 256 ^ bs.length := by
  induction bs with
  | nil => exact Nat.one_pos
  | cons b bs ih =>
      have hb := b.toNat_lt
      rw [fromLE, List.length_cons, Nat.pow_succ]
      omega

/-- **What was written is read back**, as long as the number fits the width. -/
theorem fromLE_toLE {k n : Nat} (h : n < 256 ^ k) : fromLE (toLE k n) = n := by
  induction k generalizing n with
  | zero =>
      rw [Nat.pow_zero, Nat.lt_one_iff] at h
      rw [h]
      rfl
  | succ k ih =>
      rw [Nat.pow_succ] at h
      rw [toLE, fromLE, ih (by omega), UInt8.toNat_ofNat']
      omega

/-- A byte of what was written. -/
theorem getElem?_toLE {k i : Nat} (h : i < k) (n : Nat) :
    (toLE k n)[i]? = some (UInt8.ofNat (n / 256 ^ i)) := by
  induction k generalizing i n with
  | zero => exact absurd h (Nat.not_lt_zero i)
  | succ k ih =>
      cases i with
      | zero => rw [toLE, List.getElem?_cons_zero, Nat.pow_zero, Nat.div_one]
      | succ i =>
          rw [toLE, List.getElem?_cons_succ, ih (Nat.lt_of_succ_lt_succ h), Nat.div_div_eq_div_mul,
            Nat.pow_succ, Nat.mul_comm]

/-- **A number by its ends**: a multiple of `m`, like its lowest byte, and between two powers, like
    its highest. -/
theorem fromLE_ends (mid : Bytes) (hi : UInt8) {lo : UInt8} {m : Nat} (hm : m ∣ 256)
    (hlo : m ∣ lo.toNat) :
    m ∣ fromLE (lo :: (mid ++ [hi])) ∧
      256 ^ (mid.length + 1) * hi.toNat ≤ fromLE (lo :: (mid ++ [hi])) ∧
      fromLE (lo :: (mid ++ [hi])) < 256 ^ (mid.length + 1) * (hi.toNat + 1) := by
  have hmid := fromLE_lt mid
  have hlt := lo.toNat_lt
  have hvalue : fromLE (lo :: (mid ++ [hi])) =
      lo.toNat + 256 * fromLE mid + 256 ^ (mid.length + 1) * hi.toNat := by
    rw [fromLE, fromLE_append, Nat.pow_succ]
    simp only [fromLE]
    ring
  have hbelow : lo.toNat + 256 * fromLE mid < 256 ^ (mid.length + 1) := by
    rw [Nat.pow_succ]
    omega
  refine ⟨?_, ?_, ?_⟩
  · rw [hvalue, Nat.pow_succ]
    refine dvd_add (dvd_add hlo (hm.mul_right _)) ?_
    exact (hm.mul_left _).mul_right _
  · rw [hvalue]
    exact Nat.le_add_left _ _
  · rw [hvalue, Nat.mul_add, Nat.mul_one, Nat.add_comm]
    exact Nat.add_lt_add_left hbelow _

/-- The last byte changed. -/
theorem modify_concat (bs : Bytes) (b : UInt8) (f : UInt8 → UInt8) :
    (bs ++ [b]).modify bs.length f = bs ++ [f b] := by
  induction bs with
  | nil => rfl
  | cons c bs ih => rw [List.cons_append, List.length_cons, List.modify_succ_cons, ih]; rfl

/-- A byte that the change leaves as it is. -/
theorem modify_eq_self {bs : Bytes} {i : Nat} {f : UInt8 → UInt8}
    (h : ∀ b, bs[i]? = some b → f b = b) : bs.modify i f = bs := by
  apply List.ext_getElem?
  intro j
  rw [List.getElem?_modify]
  by_cases hij : i = j
  · subst hij
    cases hb : bs[i]? with
    | none => rfl
    | some b =>
        show some (if i = i then f b else b) = some b
        rw [if_pos rfl, h b hb]
  · cases hb : bs[j]? with
    | none => rfl
    | some b =>
        show some (if i = j then f b else b) = some b
        rw [if_neg hij]

namespace U8Array

variable {n : Nat}

/-- One byte of an array changed. -/
def modify (a : U8Array n) (i : Nat) (f : UInt8 → UInt8) : U8Array n :=
  ⟨a.bytes.modify i f, by rw [List.length_modify, length_bytes]⟩

/-- The array that spells `k` in little endian. -/
def ofNatLE (n k : Nat) : U8Array n := ⟨toLE n k, length_toLE n k⟩

end U8Array

/-! ## 2. Multiples of a point -/

section Order

variable {G : Type} [AddCommGroup G] {p : G} {n : Nat}

/-- Multiples are counted modulo the order. -/
theorem nsmul_mod (h : n • p = 0) (k : Nat) : (k % n) • p = k • p := by
  conv_rhs => rw [← Nat.mod_add_div k n, add_nsmul, mul_nsmul, h, nsmul_zero, add_zero]

theorem nsmul_add (h : n • p = 0) (a b : Fin n) : (a + b).val • p = a.val • p + b.val • p := by
  rw [Fin.val_add, nsmul_mod h, add_nsmul]

theorem nsmul_mul (h : n • p = 0) (a b : Fin n) : (a * b).val • p = a.val • b.val • p := by
  rw [Fin.val_mul, nsmul_mod h, mul_comm, mul_nsmul]

variable [NeZero n]

theorem nsmul_ofNat (h : n • p = 0) (k : Nat) : (Fin.ofNat n k).val • p = k • p :=
  nsmul_mod h k

theorem nsmul_neg (h : n • p = 0) (a : Fin n) : (-a).val • p = -(a.val • p) := by
  rw [eq_neg_iff_add_eq_zero, ← nsmul_add h, neg_add_cancel, Fin.val_zero, zero_nsmul]

end Order

end Ruwa.Library
