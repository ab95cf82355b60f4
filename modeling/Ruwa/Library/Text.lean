/-
  File:      Ruwa/Library/Text.lean
  Subject:   TEXT as the standard library of the source handles it: UTF-8, splitting at a separator,
             decimal bytes, white space, hexadecimal.

  * `ofUtf8?_utf8` -- decoding the encoding of a string gives the string;
  * `splitOnce`, `rsplitOnce` -- the first and the last occurrence of a separator, each determined
    by one equation (`splitOnce_eq_some`, `rsplitOnce_eq_some`);
  * `parseU8_decimal` -- a byte printed in decimal is parsed back;
  * `hexDecode_hexEncode` -- bytes printed in hexadecimal are parsed back.
-/
import Ruwa.Library.Bytes
import Mathlib.Data.List.Basic
import Mathlib.Data.List.TakeWhile

namespace Ruwa.Library

/-! ## 1. UTF-8 -/

/-- The UTF-8 bytes of a string. -/
def utf8 (s : String) : Bytes := s.toByteArray.data.toList

/-- The string a byte string encodes, when it is valid UTF-8. -/
def ofUtf8? (bs : Bytes) : Option String := String.fromUTF8? ⟨bs.toArray⟩

@[simp] theorem ofUtf8?_utf8 (s : String) : ofUtf8? (utf8 s) = some s := by
  unfold ofUtf8? utf8 String.fromUTF8?
  rw [Array.toArray_toList, dif_pos s.isValidUTF8]
  rfl

/-- A character of one byte is that byte. -/
theorem utf8_ofList_ascii {cs : List Char} (h : ∀ c ∈ cs, c.toNat < 128) :
    utf8 (String.ofList cs) = cs.map fun c => UInt8.ofNat c.toNat := by
  unfold utf8
  rw [String.toByteArray_ofList]
  induction cs with
  | nil => rfl
  | cons c cs ih =>
      have hsize : c.utf8Size = 1 := by
        rw [Char.utf8Size_eq_one_iff]
        exact UInt32.le_iff_toNat_le.mpr (Nat.le_of_lt_succ (h c List.mem_cons_self))
      have hbytes : String.utf8EncodeChar c = [UInt8.ofNat c.toNat] :=
        String.utf8EncodeChar_eq_singleton hsize
      have hrest := ih fun c' hc' => h c' (List.mem_cons_of_mem c hc')
      rw [List.utf8Encode_cons]
      simp [List.utf8Encode_singleton, hbytes, hrest]

/-- The bytes of a text. -/
def encode (cs : List Char) : Bytes := utf8 (String.ofList cs)

theorem encode_append (left right : List Char) : encode (left ++ right) = encode left ++ encode right := by
  unfold encode utf8
  simp only [String.toByteArray_ofList, List.utf8Encode_append, ByteArray.data_append,
    Array.toList_append]

theorem encode_inj {left right : List Char} (h : encode left = encode right) : left = right := by
  have hsame := congrArg ofUtf8? h
  rw [encode, encode, ofUtf8?_utf8, ofUtf8?_utf8, Option.some.injEq] at hsame
  exact String.ofList_injective hsame

/-! ## 2. Splitting at a separator -/

namespace Text

variable {sep : Char}

/-- What stands before and behind the FIRST `sep`. -/
def splitOnce (sep : Char) : List Char → Option (List Char × List Char)
  | [] => none
  | c :: cs =>
      if c = sep then some ([], cs)
      else (splitOnce sep cs).map fun (l, r) => (c :: l, r)

/-- What stands before and behind the LAST `sep`. -/
def rsplitOnce (sep : Char) : List Char → Option (List Char × List Char)
  | [] => none
  | c :: cs =>
      match rsplitOnce sep cs with
      | some (l, r) => some (c :: l, r)
      | none => if c = sep then some ([], cs) else none

theorem splitOnce_eq_none {cs : List Char} : splitOnce sep cs = none ↔ sep ∉ cs := by
  induction cs with
  | nil => simp [splitOnce]
  | cons c cs ih =>
      by_cases hc : c = sep
      · simp [splitOnce, hc]
      · simp only [splitOnce, if_neg hc, Option.map_eq_none_iff, ih, List.mem_cons, not_or]
        exact ⟨fun h => ⟨fun he => hc he.symm, h⟩, fun h => h.2⟩

/-- **The first separator**: nothing before it is one. -/
theorem splitOnce_eq_some {cs l r : List Char} :
    splitOnce sep cs = some (l, r) ↔ cs = l ++ sep :: r ∧ sep ∉ l := by
  induction cs generalizing l with
  | nil => simp [splitOnce]
  | cons c cs ih =>
      by_cases hc : c = sep
      · subst hc
        simp only [splitOnce, if_true, Option.some.injEq, Prod.mk.injEq]
        constructor
        · rintro ⟨rfl, rfl⟩
          simp
        · rintro ⟨he, hl⟩
          cases l with
          | nil => exact ⟨rfl, (List.cons.inj he).2⟩
          | cons a l => exact absurd (by rw [(List.cons.inj he).1]; exact List.mem_cons_self) hl
      · simp only [splitOnce, if_neg hc, Option.map_eq_some_iff, Prod.exists, Prod.mk.injEq]
        constructor
        · rintro ⟨l', r', hs, rfl, rfl⟩
          obtain ⟨rfl, hl⟩ := ih.mp hs
          refine ⟨rfl, fun hm => ?_⟩
          rcases List.mem_cons.mp hm with h | h
          · exact hc h.symm
          · exact hl h
        · rintro ⟨he, hl⟩
          cases l with
          | nil => exact absurd (List.cons.inj he).1 hc
          | cons a l =>
              obtain ⟨rfl, rfl⟩ := List.cons.inj he
              exact ⟨l, r, ih.mpr ⟨rfl, fun h => hl (List.mem_cons_of_mem _ h)⟩, rfl, rfl⟩

theorem rsplitOnce_eq_none {cs : List Char} : rsplitOnce sep cs = none ↔ sep ∉ cs := by
  induction cs with
  | nil => simp [rsplitOnce]
  | cons c cs ih =>
      rcases hs : rsplitOnce sep cs with _ | ⟨l, r⟩
      · have hcs := ih.mp hs
        by_cases hc : c = sep
        · simp [rsplitOnce, hs, hc]
        · simp only [rsplitOnce, hs, if_neg hc, List.mem_cons, not_or, true_iff]
          exact ⟨fun he => hc he.symm, hcs⟩
      · have hcs : sep ∈ cs := by
          by_contra hn
          rw [ih.mpr hn] at hs
          cases hs
        simp [rsplitOnce, hs, hcs]

/-- **The last separator**: nothing behind it is one. -/
theorem rsplitOnce_eq_some {cs l r : List Char} :
    rsplitOnce sep cs = some (l, r) ↔ cs = l ++ sep :: r ∧ sep ∉ r := by
  induction cs generalizing l r with
  | nil => simp [rsplitOnce]
  | cons c cs ih =>
      rcases hs : rsplitOnce sep cs with _ | ⟨l', r'⟩
      · -- no separator further right, so this one is the last or there is none
        have hcs := rsplitOnce_eq_none.mp hs
        simp only [rsplitOnce, hs]
        constructor
        · intro h
          split at h
          · rename_i hc
            obtain ⟨rfl, rfl⟩ := Prod.mk.inj (Option.some.inj h)
            exact ⟨by rw [hc]; rfl, hcs⟩
          · cases h
        · rintro ⟨he, hr⟩
          cases l with
          | nil =>
              obtain ⟨rfl, rfl⟩ := List.cons.inj he
              rw [if_pos rfl]
          | cons a l =>
              obtain ⟨rfl, rfl⟩ := List.cons.inj he
              exact absurd (List.mem_append_right l List.mem_cons_self) hcs
      · obtain ⟨hcs, hr'⟩ := ih.mp hs
        simp only [rsplitOnce, hs, Option.some.injEq, Prod.mk.injEq]
        constructor
        · rintro ⟨rfl, rfl⟩
          exact ⟨by rw [hcs]; rfl, hr'⟩
        · rintro ⟨he, hr⟩
          cases l with
          | nil =>
              obtain ⟨rfl, rfl⟩ := List.cons.inj he
              exact absurd (by rw [hcs]; exact List.mem_append_right l' List.mem_cons_self) hr
          | cons a l =>
              obtain ⟨rfl, he'⟩ := List.cons.inj he
              have hsame := ih.mpr ⟨he', hr⟩
              rw [hs] at hsame
              obtain ⟨rfl, rfl⟩ := Prod.mk.inj (Option.some.inj hsame)
              exact ⟨rfl, rfl⟩

/-! ## 3. Bytes in decimal -/

/-- A number in decimal digits. -/
def decimal (n : Nat) : List Char := Nat.toDigits 10 n

/-- The value of one decimal digit. -/
def digit? (c : Char) : Option Nat :=
  if '0' ≤ c ∧ c ≤ '9' then some (c.toNat - '0'.toNat) else none

/-- The value of a string of decimal digits, most significant first. -/
def digits? : List Char → Option Nat :=
  List.foldl (fun acc c => do
    let n ← acc
    let d ← digit? c
    return n * 10 + d) (some 0)

/-- `str::parse::<u8>`: an optional plus sign, at least one digit, at most 255. -/
def parseU8 (cs : List Char) : Option UInt8 :=
  let body := match cs with
    | '+' :: rest => if rest = [] then cs else rest
    | _ => cs
  if body = [] then none
  else
    match digits? body with
    | some n => if n < 256 then some (UInt8.ofNat n) else none
    | none => none

/-- The same for the wider types: at least one digit, below the limit. -/
def parseUint (limit : Nat) (cs : List Char) : Option Nat :=
  let body := match cs with
    | '+' :: rest => if rest = [] then cs else rest
    | _ => cs
  if body = [] then none
  else (digits? body).filter fun n => decide (n < limit)

/-- **A byte printed in decimal is parsed back.** -/
theorem parseU8_decimal (n : UInt8) : parseU8 (decimal n.toNat) = some n := by
  have hall : (List.range 256).all (fun v => parseU8 (decimal v) == some (UInt8.ofNat v)) = true := by
    decide +kernel
  have hn := List.all_eq_true.mp hall _ (List.mem_range.mpr n.toNat_lt)
  rw [beq_iff_eq.mp hn, UInt8.ofNat_toNat]

/-- Only digits are printed. -/
theorem mem_decimal {n : Nat} {c : Char} (hc : c ∈ decimal n) : c.isDigit = true :=
  Nat.isDigit_of_mem_toDigits (by decide) (by decide) hc

theorem digit?_of_isDigit {c : Char} (h : c.isDigit = true) :
    digit? c = some (c.toNat - '0'.toNat) := by
  unfold Char.isDigit at h
  rw [Bool.and_eq_true, decide_eq_true_eq, decide_eq_true_eq] at h
  exact if_pos h

/-- **A number printed in decimal is read back.** -/
theorem digits?_decimal (n : Nat) : digits? (decimal n) = some n := by
  have hfold : ∀ (cs : List Char) (acc : Nat), (∀ c ∈ cs, c.isDigit = true) →
      cs.foldl (fun acc c => do
        let n ← acc
        let d ← digit? c
        return n * 10 + d) (some acc) = some (Nat.ofDigitChars 10 cs acc) := by
    intro cs
    induction cs with
    | nil => exact fun acc _ => rfl
    | cons c cs ih =>
        intro acc h
        rw [List.foldl_cons, digit?_of_isDigit (h c List.mem_cons_self), Nat.ofDigitChars_cons,
          Nat.mul_comm]
        exact ih _ fun c' hc' => h c' (List.mem_cons_of_mem c hc')
  exact (hfold _ 0 fun c hc => mem_decimal hc).trans
    (congrArg some Nat.ofDigitChars_ten_toDigits)

/-! ## 4. White space -/

/-- The property White_Space of Unicode. -/
def isWhitespace (c : Char) : Bool :=
  let n := c.toNat
  (9 ≤ n && n ≤ 13) || n == 0x20 || n == 0x85 || n == 0xA0 || n == 0x1680 ||
    (0x2000 ≤ n && n ≤ 0x200A) || n == 0x2028 || n == 0x2029 || n == 0x202F || n == 0x205F ||
    n == 0x3000

def trim (cs : List Char) : List Char :=
  ((cs.dropWhile isWhitespace).reverse.dropWhile isWhitespace).reverse

theorem dropWhile_of_all_not {p : Char → Bool} {cs : List Char} (h : ∀ c ∈ cs, p c = false) :
    cs.dropWhile p = cs := by
  cases cs with
  | nil => rfl
  | cons c cs => exact List.dropWhile_cons_of_neg (by simp [h c List.mem_cons_self])

/-- A text without white space is not shortened. -/
theorem trim_of_all_not {cs : List Char} (h : ∀ c ∈ cs, isWhitespace c = false) : trim cs = cs := by
  unfold trim
  rw [dropWhile_of_all_not h, dropWhile_of_all_not fun c hc => h c (List.mem_reverse.mp hc),
    List.reverse_reverse]

theorem mem_dropWhile {p : Char → Bool} {cs : List Char} {c : Char} (hc : c ∈ cs)
    (hp : p c = false) : c ∈ cs.dropWhile p := by
  rw [← List.takeWhile_append_dropWhile (p := p) (l := cs)] at hc
  rcases List.mem_append.mp hc with h | h
  · rw [List.mem_takeWhile_imp h] at hp
    cases hp
  · exact h

/-- Only white space is cut off. -/
theorem mem_trim {cs : List Char} {c : Char} (hc : c ∈ cs) (hblank : isWhitespace c = false) :
    c ∈ trim cs := by
  unfold trim
  rw [List.mem_reverse]
  exact mem_dropWhile (List.mem_reverse.mpr (mem_dropWhile hc hblank)) hblank

/-- The rest of a text behind a mark, if it starts with it. -/
def stripPrefix (mark cs : List Char) : Option (List Char) :=
  if mark.isPrefixOf cs then some (cs.drop mark.length) else none

/-! ## 5. Bytes in hexadecimal -/

def hexDigit? (c : Char) : Option Nat :=
  if '0' ≤ c ∧ c ≤ '9' then some (c.toNat - '0'.toNat)
  else if 'a' ≤ c ∧ c ≤ 'f' then some (c.toNat - 'a'.toNat + 10)
  else if 'A' ≤ c ∧ c ≤ 'F' then some (c.toNat - 'A'.toNat + 10)
  else none

/-- Two digits a byte, of either case. -/
def hexDecode : List Char → Option Bytes
  | [] => some []
  | [_] => none
  | hi :: lo :: cs => do
      let h ← hexDigit? hi
      let l ← hexDigit? lo
      let bs ← hexDecode cs
      return UInt8.ofNat (16 * h + l) :: bs

def hexByte (b : UInt8) : List Char := [Nat.digitChar (b.toNat / 16), Nat.digitChar (b.toNat % 16)]

def hexEncode (bs : Bytes) : List Char := bs.flatMap hexByte

/-- **Bytes printed in hexadecimal are parsed back.** -/
theorem hexDecode_hexEncode (bs : Bytes) : hexDecode (hexEncode bs) = some bs := by
  induction bs with
  | nil => rfl
  | cons b bs ih =>
      have hall : (List.range 16).all (fun v => hexDigit? (Nat.digitChar v) == some v) = true := by
        decide +kernel
      have hdigit : ∀ v < 16, hexDigit? (Nat.digitChar v) = some v := fun v hv =>
        beq_iff_eq.mp (List.all_eq_true.mp hall v (List.mem_range.mpr hv))
      have hb := b.toNat_lt
      have hjoin : 16 * (b.toNat / 16) + b.toNat % 16 = b.toNat := Nat.div_add_mod _ _
      simp only [hexEncode, List.flatMap_cons, hexByte, List.cons_append, List.nil_append, hexDecode]
      rw [hdigit _ (by omega), hdigit _ (Nat.mod_lt _ (by omega))]
      simp only [Option.bind_eq_bind, Option.bind_some]
      rw [show hexDecode (bs.flatMap hexByte) = some bs from ih, hjoin]
      simp

/-- What is printed has no white space. -/
theorem mem_hexEncode {bs : Bytes} {c : Char} (hc : c ∈ hexEncode bs) : isWhitespace c = false := by
  have hall : (List.range 16).all (fun v => !isWhitespace (Nat.digitChar v)) = true := by
    decide +kernel
  have hdigit : ∀ v < 16, isWhitespace (Nat.digitChar v) = false := fun v hv => by
    simpa using List.all_eq_true.mp hall v (List.mem_range.mpr hv)
  obtain ⟨b, -, hmem⟩ := List.mem_flatMap.mp hc
  have hb := b.toNat_lt
  simp only [hexByte, List.mem_cons, List.not_mem_nil, or_false] at hmem
  rcases hmem with rfl | rfl
  · exact hdigit _ (by omega)
  · exact hdigit _ (Nat.mod_lt _ (by omega))

end Text

end Ruwa.Library
