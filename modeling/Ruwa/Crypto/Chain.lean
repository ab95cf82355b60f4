/-
  File:      Ruwa/Crypto/Chain.lean
  Subject:   CHAIN KEYS (`crypto.rs`, `ChainKey`): a key that replaces itself, one message a step.

  `HMAC(key, 0x02)` is the next key, and the index counts the steps in a `u32`. Both ratchets of
  the program are built on it: the sender takes one step a message, and the receiver walks forward
  to the index a message carries and keeps what it derives on the way.

  * `chainAt` -- the chain from its first key; `index_chainAt` -- its indices, while they fit;
  * `walkTo_index` -- the receiver's loop ends, and at the index it was sent to;
  * `walkTo_chainAt` -- along one chain it derives exactly the keys in between;
  * `Follows` -- a receiver's chain and cache, against the numbers it has left to accept: what it
    finds in the cache (`lookup`) and what a walk adds to it (`forward`).
-/
import Ruwa.Crypto.Primitives
import Ruwa.Library.SkipWindow
import Mathlib.Data.List.Range

namespace Ruwa.Crypto

open Ruwa.Library

/-! ## 1. The source -/

structure ChainKey where
  key : U8Array 32
  index : UInt32
  deriving DecidableEq

section

variable (H : Hashing)

/-- The next chain key. The index wraps around, as a `u32` does in a release build. -/
def ChainKey.next (c : ChainKey) : ChainKey := ⟨H.hmac c.key.bytes [0x02], c.index + 1⟩

section Walk

variable {σ : Type} (derive : ChainKey → σ)

/-- `while walking.index < target { keep(derive(walking)); walking = walking.next() }`, for at most
    `fuel` turns: what was kept, and where the walk ended. -/
def walk (target : UInt32) : (fuel : Nat) → ChainKey → List σ × ChainKey
  | 0, c => ([], c)
  | fuel + 1, c =>
      if c.index < target then
        let (kept, last) := walk target fuel (c.next H)
        (derive c :: kept, last)
      else ([], c)

/-- The loop. Each turn adds one to an index below `target`, so this fuel is enough:
    `walkTo_index`. -/
def walkTo (target : UInt32) (c : ChainKey) : List σ × ChainKey :=
  walk H derive target (target.toNat - c.index.toNat) c

end Walk

/-! ## 2. Along one chain -/

/-- The chain key `n` steps further. -/
def chainAt (c : ChainKey) : Nat → ChainKey
  | 0 => c
  | n + 1 => (chainAt c n).next H

theorem chainAt_succ (c : ChainKey) (n : Nat) : chainAt H c (n + 1) = (chainAt H c n).next H := rfl

theorem chainAt_next (c : ChainKey) (n : Nat) : chainAt H (c.next H) n = chainAt H c (n + 1) := by
  induction n with
  | zero => rfl
  | succ n ih => rw [chainAt_succ, ih, ← chainAt_succ]

theorem chainAt_add (c : ChainKey) (m n : Nat) :
    chainAt H (chainAt H c m) n = chainAt H c (m + n) := by
  induction n with
  | zero => rfl
  | succ n ih =>
      rw [chainAt_succ, ih]
      rfl

theorem index_next {c : ChainKey} (h : c.index.toNat + 1 < 2 ^ 32) :
    (c.next H).index.toNat = c.index.toNat + 1 := by
  show (c.index + 1).toNat = c.index.toNat + 1
  rw [UInt32.toNat_add]
  exact Nat.mod_eq_of_lt h

/-- The indices of a chain, as long as they fit. -/
theorem index_chainAt {c : ChainKey} {n : Nat} (h : c.index.toNat + n < 2 ^ 32) :
    (chainAt H c n).index.toNat = c.index.toNat + n := by
  induction n with
  | zero => rfl
  | succ n ih =>
      have hn := ih (by omega)
      rw [chainAt_succ, index_next H (by omega), hn]
      omega

section Walk

variable {σ : Type} (derive : ChainKey → σ)

/-- **Along a chain the walk derives the keys from here to its target**, and stops there. -/
theorem walkTo_chainAt {c : ChainKey} {n m : Nat} {target : UInt32} (hnm : n ≤ m)
    (htarget : target.toNat = c.index.toNat + m) :
    walkTo H derive target (chainAt H c n) =
      ((List.range' n (m - n)).map (fun j => derive (chainAt H c j)), chainAt H c m) := by
  have hbound := target.toNat_lt
  unfold walkTo
  rw [index_chainAt H (by omega)]
  obtain ⟨fuel, rfl⟩ := Nat.exists_eq_add_of_le hnm
  have hturns : target.toNat - (c.index.toNat + n) = fuel := by omega
  rw [hturns, Nat.add_sub_cancel_left]
  clear hturns
  induction fuel generalizing n with
  | zero => rfl
  | succ fuel ih =>
      have hlt : (chainAt H c n).index < target := by
        rw [UInt32.lt_iff_toNat_lt, index_chainAt H (by omega)]
        omega
      have hrest := ih (n := n + 1) (by omega) (by omega)
      rw [walk, if_pos hlt, ← chainAt_succ, hrest, List.range'_succ, List.map_cons,
        Nat.add_right_comm]
      rfl

end Walk

/-! ## 3. A receiver on a chain -/

section Follows

variable {σ : Type}

/-- A receiver that has the window `w` left of the chain from `c` on: its own chain key stands at
    the next number, and its cache holds what is derived for the missing ones. -/
structure Follows (derive : ChainKey → σ) (c : ChainKey) (w : SkipWindow) (chain : ChainKey)
    (cache : List σ) : Prop where
  chain_eq : chain = chainAt H c w.next
  cache_eq : cache = w.missing.map fun j => derive (chainAt H c j)

variable {H} {derive : ChainKey → σ} {c chain : ChainKey} {w : SkipWindow} {cache : List σ} {k : Nat}

theorem Follows.start : Follows H derive c .start c [] := ⟨rfl, rfl⟩

/-- A number is late by index exactly when the receiver has passed it. -/
theorem Follows.late_iff (h : Follows H derive c w chain cache)
    (hw : c.index.toNat + w.next < 2 ^ 32) (hk : c.index.toNat + k < 2 ^ 32) :
    (chainAt H c k).index < chain.index ↔ k < w.next := by
  rw [h.chain_eq, UInt32.lt_iff_toNat_lt, index_chainAt H hk, index_chainAt H hw]
  omega

/-- Looking an index up in the cache is looking its number up among the missing ones. -/
theorem Follows.lookup (h : Follows H derive c w chain cache)
    (hw : c.index.toNat + w.next < 2 ^ 32) (hk : c.index.toNat + k < 2 ^ 32) {f : σ → UInt32}
    (hf : ∀ c, f (derive c) = c.index) :
    takeFirst (fun s => f s == (chainAt H c k).index) cache =
      if k ∈ w.missing then
        some (derive (chainAt H c k), (w.missing.erase k).map fun j => derive (chainAt H c j))
      else none := by
  rw [h.cache_eq]
  refine takeFirst_map fun j hj => ?_
  have hjn := w.below j hj
  rw [hf, beq_iff_eq, ← UInt32.toNat_inj, index_chainAt H (by omega), index_chainAt H hk]
  omega

/-- A late number leaves the cache. -/
theorem Follows.late (h : Follows H derive c w chain cache) (k : Nat) :
    Follows H derive c (w.late k) chain
      ((w.missing.erase k).map fun j => derive (chainAt H c j)) := ⟨h.chain_eq, rfl⟩

/-- The cache drops what the window drops. -/
theorem Follows.capped (h : Follows H derive c w chain cache) (n : Nat) :
    Follows H derive c (w.capped n) chain (cache.drop (cache.length - n)) := by
  refine ⟨h.chain_eq, ?_⟩
  rw [h.cache_eq, List.length_map, ← List.map_drop]
  rfl

/-- A walk to a number ahead fills the cache with what lies between. -/
theorem Follows.forward (h : Follows H derive c w chain cache)
    (hk : c.index.toNat + k < 2 ^ 32) (hle : w.next ≤ k) :
    ∃ kept, walkTo H derive (chainAt H c k).index chain = (kept, chainAt H c k) ∧
      kept.length = k - w.next ∧
      Follows H derive c (w.forward k hle) ((chainAt H c k).next H) (cache ++ kept) := by
  refine ⟨(List.range' w.next (k - w.next)).map fun j => derive (chainAt H c j), ?_, ?_, rfl, ?_⟩
  · rw [h.chain_eq]
    exact walkTo_chainAt H derive hle (index_chainAt H hk)
  · rw [List.length_map, List.length_range']
  · rw [h.cache_eq, ← List.map_append]
    rfl

/-- The same from where the chain stands, whatever its index counts. -/
theorem Follows.walk (h : Follows H derive c w chain cache) {target : UInt32}
    (hahead : ¬target < chain.index) :
    ∃ kept, walkTo H derive target chain =
        (kept, chainAt H c (w.next + (target.toNat - chain.index.toNat))) ∧
      Follows H derive c
        (w.forward (w.next + (target.toNat - chain.index.toNat)) (Nat.le_add_right _ _))
        ((chainAt H c (w.next + (target.toNat - chain.index.toNat))).next H) (cache ++ kept) := by
  rw [UInt32.lt_iff_toNat_lt, Nat.not_lt] at hahead
  generalize hgap : target.toNat - chain.index.toNat = gap
  have hwalk : walkTo H derive target chain = ((List.range' 0 gap).map fun j =>
      derive (chainAt H chain j), chainAt H chain gap) :=
    walkTo_chainAt H derive (Nat.zero_le gap) (by omega)
  have hkept : (List.range' 0 gap).map (fun j => derive (chainAt H chain j)) =
      (List.range' w.next gap).map fun j => derive (chainAt H c j) := by
    rw [show List.range' w.next gap = (List.range' 0 gap).map (w.next + ·) by
      rw [List.map_add_range', Nat.add_zero], List.map_map]
    refine List.map_congr_left fun j _ => ?_
    rw [h.chain_eq, chainAt_add]
    rfl
  refine ⟨(List.range' w.next gap).map fun j => derive (chainAt H c j), ?_, rfl, ?_⟩
  · rw [hwalk, hkept, h.chain_eq, chainAt_add]
  · rw [h.cache_eq, ← List.map_append]
    show _ = (w.missing ++ List.range' w.next (w.next + gap - w.next)).map _
    rw [Nat.add_sub_cancel_left]

end Follows

end

end Ruwa.Crypto
