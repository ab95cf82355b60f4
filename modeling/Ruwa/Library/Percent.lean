/-
  File:      Ruwa/Library/Percent.lean
  Subject:   PERCENT-ENCODING of byte strings: `%` and two hexadecimal digits for a byte.

  What is escaped depends on who does it; the bytes that are never escaped are the same for all.

  * `unescape_escape` -- a text that escapes its `%` is read back, whatever else it keeps;
  * `unescape_escape_keeping` -- one that keeps its `%` is read as it stands;
  * **`unescape_eq_self_iff`** -- a text reads as itself exactly when nothing in it is an escape.
-/
import Ruwa.Library.Bytes

namespace Ruwa.Library.Percent

/-! ## 1. Both directions -/

/-- A letter, a digit, or one of `-._~`. -/
def unreserved (b : UInt8) : Bool :=
  (65 ≤ b ∧ b ≤ 90) ∨ (97 ≤ b ∧ b ≤ 122) ∨ (48 ≤ b ∧ b ≤ 57) ∨ b ∈ [45, 46, 95, 126]

def hexValue? (b : UInt8) : Option UInt8 :=
  if 48 ≤ b ∧ b ≤ 57 then some (b - 48)
  else if 65 ≤ b ∧ b ≤ 70 then some (b - 55)
  else if 97 ≤ b ∧ b ≤ 102 then some (b - 87)
  else none

def hexUpper (n : UInt8) : UInt8 := if n < 10 then 48 + n else 55 + n

/-- `%XX` -/
def escapeByte (b : UInt8) : Bytes := [37, hexUpper (b / 16), hexUpper (b % 16)]

def escape (keep : UInt8 → Bool) (bs : Bytes) : Bytes :=
  bs.flatMap fun b => if keep b then [b] else escapeByte b

/-- The byte of the escape that the text starts with. -/
def escapedAt : Bytes → Option UInt8
  | 37 :: a :: b :: _ => do
      let h ← hexValue? a
      let l ← hexValue? b
      return 16 * h + l
  | _ => none

/-- The number is that of the bytes that belong to an escape before them. -/
def unescapeFrom : Nat → Bytes → Bytes
  | _, [] => []
  | n + 1, _ :: bs => unescapeFrom n bs
  | 0, b :: bs =>
      match escapedAt (b :: bs) with
      | some c => c :: unescapeFrom 2 bs
      | none => b :: unescapeFrom 0 bs

/-- What is no escape stands for itself. -/
def unescape (bs : Bytes) : Bytes := unescapeFrom 0 bs

def HasEscape (bs : Bytes) : Prop := ∃ rest, rest <:+ bs ∧ (escapedAt rest).isSome

/-! ## 2. Reading an escape -/

@[simp] theorem unescape_nil : unescape [] = [] := rfl

theorem unescape_of_none {b : UInt8} {bs : Bytes} (h : escapedAt (b :: bs) = none) :
    unescape (b :: bs) = b :: unescape bs := by
  rw [unescape, unescapeFrom, h]
  rfl

theorem unescape_of_some {a b c d : UInt8} {bs : Bytes} (h : escapedAt (a :: b :: c :: bs) = some d) :
    unescape (a :: b :: c :: bs) = d :: unescape bs := by
  rw [unescape, unescapeFrom, h]
  rfl

theorem escapedAt_of_ne {b : UInt8} {bs : Bytes} (h : b ≠ 37) : escapedAt (b :: bs) = none := by
  unfold escapedAt
  split
  · rename_i heq
    exact absurd (List.cons.inj heq).1 h
  · rfl

/-- An escape is `%` and two digits. -/
theorem escapedAt_eq_some {bs : Bytes} {c : UInt8} (h : escapedAt bs = some c) :
    ∃ a b rest, bs = 37 :: a :: b :: rest ∧ (hexValue? a).isSome ∧ (hexValue? b).isSome := by
  unfold escapedAt at h
  split at h
  · rename_i a b rest
    cases ha : hexValue? a with
    | none => simp [ha] at h
    | some x =>
        cases hb : hexValue? b with
        | none => simp [ha, hb] at h
        | some y => exact ⟨a, b, rest, rfl, by rw [ha]; rfl, by rw [hb]; rfl⟩
  · cases h

/-- Two texts with the same two bytes behind the `%`. -/
theorem escapedAt_congr (a b : UInt8) (bs bs' : Bytes) :
    escapedAt (37 :: a :: b :: bs) = escapedAt (37 :: a :: b :: bs') := rfl

theorem hexValue_hexUpper : ∀ b : UInt8,
    hexValue? (hexUpper (b / 16)) = some (b / 16) ∧ hexValue? (hexUpper (b % 16)) = some (b % 16) ∧
      16 * (b / 16) + b % 16 = b :=
  forall_byte (by decide +kernel)

/-- **An escaped byte is read back.** -/
theorem unescape_escapeByte (b : UInt8) (bs : Bytes) :
    unescape (escapeByte b ++ bs) = b :: unescape bs := by
  obtain ⟨hhi, hlo, hjoin⟩ := hexValue_hexUpper b
  refine unescape_of_some ?_
  simp only [escapedAt, hhi, hlo, hjoin, Option.bind_eq_bind, Option.bind_some, Option.pure_def]

/-- A hexadecimal digit is never escaped. -/
theorem unreserved_of_hex : ∀ b : UInt8, (hexValue? b).isSome → unreserved b = true :=
  forall_byte (by decide +kernel)

/-! ## 3. What is read of an escaped text -/

variable {keep : UInt8 → Bool}

theorem escape_cons_pos {b : UInt8} (h : keep b = true) (bs : Bytes) :
    escape keep (b :: bs) = b :: escape keep bs := by
  simp [escape, h]

theorem escape_cons_neg {b : UInt8} (h : keep b = false) (bs : Bytes) :
    escape keep (b :: bs) = escapeByte b ++ escape keep bs := by
  simp [escape, h]

/-- **A text that escapes its `%` is read back.** -/
theorem unescape_escape (h : keep 37 = false) (bs : Bytes) : unescape (escape keep bs) = bs := by
  induction bs with
  | nil => rfl
  | cons b bs ih =>
      cases hb : keep b with
      | false => rw [escape_cons_neg hb, unescape_escapeByte, ih]
      | true =>
          have hne : b ≠ 37 := by
            rintro rfl
            rw [h] at hb
            cases hb
          rw [escape_cons_pos hb, unescape_of_none (escapedAt_of_ne hne), ih]

theorem escape_inj (h : keep 37 = false) {bs bs' : Bytes}
    (heq : escape keep bs = escape keep bs') : bs = bs' := by
  rw [← unescape_escape h bs, heq, unescape_escape h]

theorem escape_of_all {bs : Bytes} (h : ∀ b ∈ bs, keep b = true) : escape keep bs = bs := by
  induction bs with
  | nil => rfl
  | cons b bs ih =>
      rw [escape_cons_pos (h b List.mem_cons_self), ih fun c hc => h c (List.mem_cons_of_mem b hc)]

/-- What an escaped text consists of. -/
theorem mem_escape {bs : Bytes} {b : UInt8} (h : b ∈ escape keep bs) :
    (keep b = true ∧ b ∈ bs) ∨ b = 37 ∨ unreserved b = true := by
  have hhex : ∀ c : UInt8, unreserved (hexUpper (c / 16)) = true ∧ unreserved (hexUpper (c % 16)) = true :=
    forall_byte (by decide +kernel)
  obtain ⟨c, hin, hc⟩ := List.mem_flatMap.mp h
  split at hc
  · cases List.mem_singleton.mp hc
    exact .inl ⟨‹_›, hin⟩
  · simp only [escapeByte, List.mem_cons, List.not_mem_nil, or_false] at hc
    rcases hc with rfl | rfl | rfl
    · exact .inr (.inl rfl)
    · exact .inr (.inr (hhex c).1)
    · exact .inr (.inr (hhex c).2)

/-- A text that keeps its `%` has its escapes where they were. -/
theorem escapedAt_escape (hplain : ∀ b, unreserved b = true → keep b = true) (bs : Bytes) :
    escapedAt (37 :: escape keep bs) = escapedAt (37 :: bs) := by
  -- A digit is kept; in the place of any other byte stands that byte or a `%`.
  have hhead : ∀ (b : UInt8) (bs : Bytes), (hexValue? b).isSome = false →
      ∃ c cs, escape keep (b :: bs) = c :: cs ∧ (hexValue? c).isSome = false := by
    intro b bs hb
    cases hk : keep b with
    | true => exact ⟨b, _, escape_cons_pos hk bs, hb⟩
    | false => exact ⟨37, _, escape_cons_neg hk bs, rfl⟩
  have hfirst : ∀ (c : UInt8) (cs : Bytes), (hexValue? c).isSome = false →
      escapedAt (37 :: c :: cs) = none := by
    intro c cs hc
    cases hat : escapedAt (37 :: c :: cs) with
    | none => rfl
    | some d =>
        obtain ⟨a, b, rest, heq, ha, -⟩ := escapedAt_eq_some hat
        cases heq
        rw [hc] at ha
        cases ha
  have hsecond : ∀ (a c : UInt8) (cs : Bytes), (hexValue? c).isSome = false →
      escapedAt (37 :: a :: c :: cs) = none := by
    intro a c cs hc
    cases hat : escapedAt (37 :: a :: c :: cs) with
    | none => rfl
    | some d =>
        obtain ⟨a, b, rest, heq, -, hb⟩ := escapedAt_eq_some hat
        cases heq
        rw [hc] at hb
        cases hb
  cases bs with
  | nil => rfl
  | cons a bs =>
      cases ha : (hexValue? a).isSome with
      | false =>
          obtain ⟨c, cs, heq, hc⟩ := hhead a bs ha
          rw [heq, hfirst c cs hc, hfirst a bs ha]
      | true =>
          rw [escape_cons_pos (hplain a (unreserved_of_hex a ha))]
          cases bs with
          | nil => rfl
          | cons b bs =>
              cases hb : (hexValue? b).isSome with
              | false =>
                  obtain ⟨c, cs, heq, hc⟩ := hhead b bs hb
                  rw [heq, hsecond a c cs hc, hsecond a b bs hb]
              | true =>
                  rw [escape_cons_pos (hplain b (unreserved_of_hex b hb))]
                  exact escapedAt_congr a b _ _

/-- **A text that keeps its `%` is read as it stands.** -/
theorem unescape_escape_keeping (hplain : ∀ b, unreserved b = true → keep b = true)
    (h : keep 37 = true) (bs : Bytes) : unescape (escape keep bs) = unescape bs := by
  induction hn : bs.length using Nat.strongRecOn generalizing bs with
  | ind n ih =>
    cases bs with
    | nil => rfl
    | cons b bs =>
        have hrest : unescape (escape keep bs) = unescape bs :=
          ih bs.length (by rw [← hn]; exact Nat.lt_succ_self _) bs rfl
        by_cases hb : b = 37
        · subst hb
          rw [escape_cons_pos h]
          cases hat : escapedAt (37 :: bs) with
          | none =>
              rw [unescape_of_none hat, unescape_of_none ((escapedAt_escape hplain bs).trans hat),
                hrest]
          | some c =>
              obtain ⟨x, y, rest, heq, hx, hy⟩ := escapedAt_eq_some hat
              cases heq
              have hx' := hplain x (unreserved_of_hex x hx)
              have hy' := hplain y (unreserved_of_hex y hy)
              rw [escape_cons_pos hx', escape_cons_pos hy', unescape_of_some hat,
                unescape_of_some ((escapedAt_congr x y _ _).trans hat)]
              rw [ih rest.length (by rw [← hn]; simp; omega) rest rfl]
        · rw [unescape_of_none (escapedAt_of_ne hb)]
          cases hk : keep b with
          | true => rw [escape_cons_pos hk, unescape_of_none (escapedAt_of_ne hb), hrest]
          | false => rw [escape_cons_neg hk, unescape_escapeByte, hrest]

/-! ## 4. Texts without an escape -/

theorem length_unescapeFrom (n : Nat) (bs : Bytes) :
    (unescapeFrom n bs).length ≤ bs.length - n := by
  induction bs generalizing n with
  | nil => simp [unescapeFrom]
  | cons b bs ih =>
      cases n with
      | succ n =>
          rw [unescapeFrom, List.length_cons]
          exact Nat.le_trans (ih n) (by omega)
      | zero =>
          rw [unescapeFrom]
          cases hat : escapedAt (b :: bs) with
          | none =>
              have hrest := ih 0
              simp only [List.length_cons]
              omega
          | some c =>
              have hrest := ih 2
              simp only [List.length_cons]
              omega

theorem length_unescape_le (bs : Bytes) : (unescape bs).length ≤ bs.length :=
  length_unescapeFrom 0 bs

theorem hasEscape_cons {b : UInt8} {bs : Bytes} :
    HasEscape (b :: bs) ↔ (escapedAt (b :: bs)).isSome ∨ HasEscape bs := by
  unfold HasEscape
  constructor
  · rintro ⟨rest, hrest, hat⟩
    rcases List.suffix_cons_iff.mp hrest with rfl | hrest
    · exact .inl hat
    · exact .inr ⟨rest, hrest, hat⟩
  · rintro (hat | ⟨rest, hrest, hat⟩)
    · exact ⟨_, List.suffix_refl _, hat⟩
    · exact ⟨rest, hrest.trans (List.suffix_cons b bs), hat⟩

/-- A text with an escape gets shorter. -/
theorem length_unescape_eq {bs : Bytes} : (unescape bs).length = bs.length ↔ ¬HasEscape bs := by
  induction bs with
  | nil => simp [HasEscape, escapedAt]
  | cons b bs ih =>
      rw [hasEscape_cons]
      cases hat : escapedAt (b :: bs) with
      | none =>
          rw [unescape_of_none hat, List.length_cons, List.length_cons, Nat.add_right_cancel_iff, ih]
          simp
      | some c =>
          have hle : (unescape (b :: bs)).length < (b :: bs).length := by
            have hrest := length_unescapeFrom 2 bs
            obtain ⟨x, y, rest, heq, -, -⟩ := escapedAt_eq_some hat
            cases heq
            rw [unescape, unescapeFrom, hat]
            simp only [List.length_cons] at hrest ⊢
            omega
          exact iff_of_false (Nat.ne_of_lt hle) fun h => h (.inl rfl)

/-- **A text reads as itself exactly when nothing in it is an escape.** -/
theorem unescape_eq_self_iff {bs : Bytes} : unescape bs = bs ↔ ¬HasEscape bs := by
  refine ⟨fun h => length_unescape_eq.mp (congrArg List.length h), fun h => ?_⟩
  induction bs with
  | nil => rfl
  | cons b bs ih =>
      obtain ⟨hat, hrest⟩ := not_or.mp (mt hasEscape_cons.mpr h)
      rw [unescape_of_none (Option.not_isSome_iff_eq_none.mp hat), ih hrest]

/-- A byte that no escape can hold divides the text. -/
theorem unescape_append {sep : UInt8} (hsep : sep ≠ 37) (hhex : hexValue? sep = none)
    (left right : Bytes) :
    unescape (left ++ sep :: right) = unescape left ++ sep :: unescape right := by
  have hat : ∀ left : Bytes, escapedAt (left ++ sep :: right) = escapedAt left := by
    intro left
    cases hsplit : escapedAt (left ++ sep :: right) with
    | none =>
        cases hleft : escapedAt left with
        | none => rfl
        | some c =>
            obtain ⟨a, b, rest, rfl, -, -⟩ := escapedAt_eq_some hleft
            exact hsplit.symm.trans hleft
    | some c =>
        obtain ⟨a, b, rest, heq, ha, hb⟩ := escapedAt_eq_some hsplit
        rcases left with _ | ⟨x, _ | ⟨y, _ | ⟨z, left⟩⟩⟩
        · cases heq
          exact absurd rfl hsep
        · cases heq
          rw [hhex] at ha
          cases ha
        · cases heq
          rw [hhex] at hb
          cases hb
        · cases heq
          exact hsplit.symm
  have hrun : ∀ (left : Bytes) (n : Nat), n ≤ left.length →
      unescapeFrom n (left ++ sep :: right) = unescapeFrom n left ++ sep :: unescape right := by
    intro left
    induction left with
    | nil =>
        intro n hn
        cases Nat.le_zero.mp hn
        exact unescape_of_none (escapedAt_of_ne hsep)
    | cons b left ih =>
        intro n hn
        cases n with
        | succ n => exact ih n (Nat.le_of_succ_le_succ hn)
        | zero =>
            rw [List.cons_append, unescapeFrom, unescapeFrom, ← List.cons_append, hat]
            cases hleft : escapedAt (b :: left) with
            | none => exact congrArg (b :: ·) (ih 0 (Nat.zero_le _))
            | some c =>
                obtain ⟨x, y, rest, heq, -, -⟩ := escapedAt_eq_some hleft
                cases heq
                exact congrArg (c :: ·) (ih 2 (by simp))
  exact hrun left 0 (Nat.zero_le _)

end Ruwa.Library.Percent
