/-
  File:      Ruwa/Library/Reader.lean
  Subject:   READERS that walk a byte string with a cursor.

  A hand-written decoder keeps the whole input and a position; it never copies what is left. Its
  correctness is nevertheless a statement about consecutive pieces of the input, and this file
  makes the step once:

  * `Reads r bs a` -- wherever the cursor stands, if the next bytes are `bs` then `r` returns `a`
    and stops right behind them, whatever came before and whatever follows;
  * `Reads.bind` -- two readers in a row read the concatenation; `Reads.many_cons` -- so does a
    counted loop, item by item.

  With these rules a round trip follows the writer: one rule for each thing written. The error a
  reader raises at the end of the input is a parameter: it may quote the position.
-/
import Ruwa.Library.Bytes

namespace Ruwa.Library

/-- An input and the position of the next byte. -/
structure Cursor where
  data : Bytes
  pos : Nat
  deriving Repr, DecidableEq

/-- A computation that reads from a cursor and may fail. -/
abbrev Reader (ε α : Type) := StateT Cursor (Except ε) α

namespace Reader

variable {ε α β : Type}

/-! ## 1. Basic readers -/

/-- Fails unless `n` more bytes are there. -/
def need (eof : Nat → Nat → ε) (n : Nat) : Reader ε Unit := fun c =>
  if c.pos + n > c.data.length then .error (eof c.pos n) else .ok ((), c)

/-- The next `n` bytes. -/
def readRaw (eof : Nat → Nat → ε) (n : Nat) : Reader ε Bytes := do
  need eof n
  let c ← get
  set { c with pos := c.pos + n }
  return (c.data.drop c.pos).take n

/-- The next byte. -/
def readByte (eof : Nat → Nat → ε) : Reader ε UInt8 := do
  need eof 1
  let c ← get
  set { c with pos := c.pos + 1 }
  return c.data.getD c.pos 0

/-- The next `n` bytes as a big-endian integer. -/
def readIntBe (eof : Nat → Nat → ε) (n : Nat) : Reader ε Nat := do
  let bs ← readRaw eof n
  return bs.foldl (fun v b => v <<< 8 ||| b.toNat) 0

/-- Raises an error that may quote the position. -/
def fail (e : Nat → ε) : Reader ε α := fun c => .error (e c.pos)

/-- The same reader `n` times. -/
def many (r : Reader ε α) : Nat → Reader ε (List α)
  | 0 => pure []
  | n + 1 => do
      let a ← r
      let as ← many r n
      return a :: as

/-! ## 2. What a reader reads -/

/-- **`r` reads `bs` as `a`**, in front of anything and behind anything. -/
def Reads (r : Reader ε α) (bs : Bytes) (a : α) : Prop :=
  ∀ before after : Bytes, r.run ⟨before ++ (bs ++ after), before.length⟩ =
    .ok (a, ⟨before ++ (bs ++ after), before.length + bs.length⟩)

theorem Reads.pure (a : α) : Reads (pure a : Reader ε α) [] a := fun _ _ => rfl

/-- Two readers in a row read the concatenation. -/
theorem Reads.bind {r : Reader ε α} {f : α → Reader ε β} {bs bs' : Bytes} {a : α} {b : β}
    (hr : Reads r bs a) (hf : Reads (f a) bs' b) : Reads (r >>= f) (bs ++ bs') b := by
  intro before after
  have h₁ := hr before (bs' ++ after)
  have h₂ := hf (before ++ bs) after
  rw [List.length_append, List.append_assoc] at h₂
  rw [List.append_assoc, StateT.run_bind, h₁]
  show (f a).run ⟨before ++ (bs ++ (bs' ++ after)), before.length + bs.length⟩ = _
  rw [h₂, List.length_append, Nat.add_assoc]

/-- A last step that reads nothing more. -/
theorem Reads.last {r : Reader ε α} {f : α → Reader ε β} {bs : Bytes} {a : α} {b : β}
    (hr : Reads r bs a) (hf : Reads (f a) [] b) : Reads (r >>= f) bs b := by
  have h := hr.bind hf
  rw [List.append_nil] at h
  exact h

/-- A last step that only computes a value from what was read. -/
theorem Reads.map {r : Reader ε α} {bs : Bytes} {a : α} {b : β} {f : α → β} (hr : Reads r bs a)
    (hf : f a = b) : Reads (do let x ← r; return f x) bs b := by
  subst hf
  exact hr.last (Reads.pure (f a))

theorem reads_need (eof : Nat → Nat → ε) {bs : Bytes} {n : Nat} (hn : bs.length = n)
    (before after : Bytes) :
    (need eof n).run ⟨before ++ (bs ++ after), before.length⟩ =
      .ok ((), ⟨before ++ (bs ++ after), before.length⟩) := by
  show (if before.length + n > (before ++ (bs ++ after)).length then _ else _) = _
  rw [if_neg]
  simp only [List.length_append]
  omega

theorem reads_raw (eof : Nat → Nat → ε) {bs : Bytes} {n : Nat} (hn : bs.length = n) :
    Reads (readRaw eof n) bs bs := by
  intro before after
  unfold readRaw
  rw [StateT.run_bind, reads_need eof hn]
  show Except.ok (((before ++ (bs ++ after)).drop before.length).take n,
    (⟨before ++ (bs ++ after), before.length + n⟩ : Cursor)) = _
  rw [List.drop_left, ← hn, List.take_left]

theorem reads_byte (eof : Nat → Nat → ε) (b : UInt8) : Reads (readByte eof) [b] b := by
  intro before after
  have hneed : (need eof 1).run ⟨before ++ ([b] ++ after), before.length⟩ = _ :=
    reads_need eof rfl before after
  unfold readByte
  rw [StateT.run_bind, hneed]
  show Except.ok ((before ++ ([b] ++ after)).getD before.length 0,
    (⟨before ++ ([b] ++ after), before.length + 1⟩ : Cursor)) = _
  simp [List.getD_eq_getElem?_getD]

theorem foldl_shift_eq_fromBE (bs : Bytes) :
    bs.foldl (fun v b => v <<< 8 ||| b.toNat) 0 = fromBE bs := by
  simp only [shiftLeft_or_byte, fromBE]

theorem reads_intBe (eof : Nat → Nat → ε) {n k : Nat} (h : k < 256 ^ n) :
    Reads (readIntBe eof n) (toBE n k) k := by
  have hvalue : (toBE n k).foldl (fun v b => v <<< 8 ||| b.toNat) 0 = k := by
    rw [foldl_shift_eq_fromBE, fromBE_toBE n k h]
  exact (reads_raw eof (length_toBE n k)).map hvalue

theorem Reads.many_nil (r : Reader ε α) : Reads (many r 0) [] [] := Reads.pure []

/-- One more round of a counted loop. -/
theorem Reads.many_cons {r : Reader ε α} {bs bs' : Bytes} {a : α} {as : List α} {n : Nat}
    (hr : Reads r bs a) (hrs : Reads (many r n) bs' as) :
    Reads (many r (n + 1)) (bs ++ bs') (a :: as) :=
  hr.bind (hrs.map rfl)

/-- A reader that reads a whole input stops at its end. -/
theorem Reads.run_start {r : Reader ε α} {bs : Bytes} {a : α} (h : Reads r bs a) (after : Bytes) :
    r.run ⟨bs ++ after, 0⟩ = .ok (a, ⟨bs ++ after, bs.length⟩) := by
  have h' := h [] after
  rw [List.nil_append, List.length_nil, Nat.zero_add] at h'
  exact h'

end Reader

end Ruwa.Library
