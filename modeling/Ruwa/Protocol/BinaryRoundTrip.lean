/-
  File:      Ruwa/Protocol/BinaryRoundTrip.lean
  Subject:   THE ROUND TRIP OF THE NODE CODEC: what `encode` writes, `decode` reads back, and it
             stops exactly where the encoding ends.

  The proof goes layer by layer, as the writer does; each layer says `Reads reader bytes value`
  (`Library/Reader.lean`) for the bytes the writer of that layer produced:

  * strings -- dictionary tokens, packed characters, raw bytes (`reads_writeString`);
  * attribute values -- on top of strings, the two JID tokens (`reads_writeAttrValue`);
  * attributes and children -- the two loops;
  * **`reads_writeNode`** -- nodes, by induction on `Canonical`, for every fuel that is at least
    the number of bytes written.

  `Canonical` says which trees the format can carry: an empty attribute value is dropped by the
  encoder, a tag "0" is an empty list, and an AD-JID is rebuilt from three fields.
-/
import Ruwa.Library.Result
import Ruwa.Protocol.Binary

namespace Ruwa.Protocol.Binary

open Ruwa.Library
open Ruwa.Library.Reader

/-! ## 1. Token lookup -/

theorem mem_of_lookupLast {α : Type} {entries : List (String × α)} {key : String} {a : α}
    (h : lookupLast entries key = some a) : (key, a) ∈ entries := by
  unfold lookupLast at h
  obtain ⟨⟨k, v⟩, hfind, rfl⟩ := Option.map_eq_some_iff.mp h
  have hmem := List.mem_of_find?_eq_some hfind
  have hfound := List.find?_some hfind
  have hkey : k = key := eq_of_beq hfound
  subst hkey
  exact List.mem_reverse.mp hmem

/-- A single-byte index is not 0, lies inside the dictionary and names the token. -/
theorem singleByteIndex_some {s : String} {idx : UInt8} (h : singleByteIndex s = some idx) :
    1 ≤ idx.toNat ∧ idx.toNat < 236 ∧ SINGLE_BYTE_TOKENS.getD idx.toNat "" = s := by
  have hmem := mem_of_lookupLast h
  obtain ⟨⟨t, i⟩, hfil, he⟩ := List.mem_map.mp hmem
  obtain ⟨rfl, rfl⟩ := Prod.mk.inj he
  obtain ⟨hzip, hne⟩ := List.mem_filter.mp hfil
  have hget : SINGLE_BYTE_TOKENS[i]? = some t := List.mem_zipIdx_iff_getElem?.mp hzip
  have hlt : i < 236 := length_SINGLE_BYTE_TOKENS ▸ (List.getElem?_eq_some_iff.mp hget).1
  have hi : (UInt8.ofNat i).toNat = i := by
    rw [UInt8.toNat_ofNat']
    omega
  have hpos : i ≠ 0 := by
    rintro rfl
    cases hget
    exact absurd hne (by decide)
  rw [hi]
  refine ⟨by omega, hlt, ?_⟩
  rw [List.getD_eq_getElem?_getD, hget]
  rfl

/-- A double-byte index names the token. -/
theorem doubleByteIndex_some {s : String} {di idx : UInt8}
    (h : doubleByteIndex s = some (di, idx)) :
    di.toNat < 4 ∧ doubleByteToken di.toNat idx.toNat = some s := by
  have hmem := mem_of_lookupLast h
  obtain ⟨⟨dict, d⟩, hdict, hin⟩ := List.mem_flatMap.mp hmem
  obtain ⟨⟨t, i⟩, hzip, he⟩ := List.mem_map.mp hin
  obtain ⟨rfl, hpair⟩ := Prod.mk.inj he
  obtain ⟨rfl, rfl⟩ := Prod.mk.inj hpair
  have hgetd : DOUBLE_BYTE_TOKENS[d]? = some dict := List.mem_zipIdx_iff_getElem?.mp hdict
  have hget : dict[i]? = some t := List.mem_zipIdx_iff_getElem?.mp hzip
  have hd : d < 4 := length_DOUBLE_BYTE_TOKENS ▸ (List.getElem?_eq_some_iff.mp hgetd).1
  have hi : i < 256 := by
    rw [← length_dictionary dict (List.mem_of_getElem? hgetd)]
    exact (List.getElem?_eq_some_iff.mp hget).1
  have hd' : (UInt8.ofNat d).toNat = d := by
    rw [UInt8.toNat_ofNat']
    omega
  have hi' : (UInt8.ofNat i).toNat = i := by
    rw [UInt8.toNat_ofNat']
    omega
  rw [hd', hi']
  refine ⟨hd, ?_⟩
  show DOUBLE_BYTE_TOKENS[d]?.bind (·[i]?) = some t
  rw [hgetd]
  exact hget

/-! ## 2. Lengths -/

theorem reads_byte (b : UInt8) : Reads readByte [b] b := Reader.reads_byte _ b

/-- A list header is a tag and what `read_list_size` needs behind it. -/
theorem writeListStart_ok {size : Nat} {bs : Bytes} (h : writeListStart size = .ok bs) :
    ∃ tag rest, bs = tag :: rest ∧ Reads (readListSize tag) rest size ∧
      (0 < size → (tag = LIST_8 ∨ tag = LIST_16) ∧ 1 ≤ rest.length) := by
  unfold writeListStart at h
  split at h
  · rename_i h0
    cases h
    exact ⟨LIST_EMPTY, [], rfl, h0 ▸ Reads.pure 0, fun hpos => absurd h0 (Nat.ne_of_gt hpos)⟩
  · split at h
    · rename_i hlt
      cases h
      have hbytes : [UInt8.ofNat size] = toBE 1 size := rfl
      refine ⟨LIST_8, _, rfl, ?_, fun _ => ⟨Or.inl rfl, Nat.le_refl 1⟩⟩
      rw [hbytes]
      exact reads_intBe _ hlt
    · split at h
      · rename_i hlt
        cases h
        have hbytes : [UInt8.ofNat (size >>> 8), UInt8.ofNat size] = toBE 2 size := by
          simp [toBE, Nat.shiftRight_eq_div_pow]
        refine ⟨LIST_16, _, rfl, ?_, fun _ => ⟨Or.inr rfl, Nat.le_succ 1⟩⟩
        rw [hbytes]
        exact reads_intBe _ hlt
      · cases h

theorem reads_int20 {n : Nat} (h : n < 1 <<< 20) :
    Reads readInt20 [UInt8.ofNat (n >>> 16 &&& 0x0F), UInt8.ofNat (n >>> 8), UInt8.ofNat n] n := by
  have hlt : n < 2 ^ 20 := h
  have hhi : n >>> 16 &&& 0x0F = n / 256 / 256 := by
    have hmask : n >>> 16 &&& 0x0F = n >>> 16 % 2 ^ 4 := Nat.and_two_pow_sub_one_eq_mod _ 4
    rw [hmask, Nat.shiftRight_eq_div_pow]
    omega
  have hbytes : [UInt8.ofNat (n >>> 16 &&& 0x0F), UInt8.ofNat (n >>> 8), UInt8.ofNat n] =
      toBE 3 n := by
    rw [hhi]
    simp [toBE, Nat.shiftRight_eq_div_pow]
  have hmasked : (UInt8.ofNat (n >>> 16 &&& 0x0F)).toNat &&& 0x0F =
      (UInt8.ofNat (n >>> 16 &&& 0x0F)).toNat := by
    have hmask : (UInt8.ofNat (n >>> 16 &&& 0x0F)).toNat &&& 0x0F =
        (UInt8.ofNat (n >>> 16 &&& 0x0F)).toNat % 2 ^ 4 := Nat.and_two_pow_sub_one_eq_mod _ 4
    rw [hmask, hhi, UInt8.toNat_ofNat']
    omega
  have hvalue : ((UInt8.ofNat (n >>> 16 &&& 0x0F)).toNat &&& 0x0F) <<< 16 |||
      (UInt8.ofNat (n >>> 8)).toNat <<< 8 ||| (UInt8.ofNat n).toNat = n := by
    rw [hmasked, shift_or_three, hbytes]
    exact fromBE_toBE 3 n (by omega)
  have hraw : Reads (Reader.readRaw DecodeError.eof 3)
      [UInt8.ofNat (n >>> 16 &&& 0x0F), UInt8.ofNat (n >>> 8), UInt8.ofNat n] _ := reads_raw _ rfl
  exact hraw.map hvalue

section Values

variable {readNode : Decoder Node} {readStr : Decoder DecodedValue}

/-- A value is its first byte and what follows it. -/
theorem reads_tagged {asString : Bool} {tag : UInt8} {rest : Bytes} {v : DecodedValue}
    (h : Reads (readTagged readNode readStr asString tag) rest v) :
    Reads (readValueWith readNode readStr asString) (tag :: rest) v :=
  (reads_byte tag).bind h

/-- Every value takes at least one byte: at the end of the input there is nothing to read. -/
theorem ne_nil_of_reads {asString : Bool} {bs : Bytes} {v : DecodedValue}
    (h : Reads (readValueWith readNode readStr asString) bs v) : bs ≠ [] := by
  rintro rfl
  have hrun := h [] []
  cases hrun

/-- A length header in front of that many bytes. -/
theorem reads_byteLength {asString : Bool} {raw hdr : Bytes} {v : DecodedValue}
    (h : writeByteLength raw.length = .ok hdr)
    (hraw : Reads (readBytesOrString raw.length asString) raw v) :
    Reads (readValueWith readNode readStr asString) (hdr ++ raw) v := by
  unfold writeByteLength at h
  split at h
  · rename_i hlt
    cases h
    have hlen : Reads (readIntBe 1) [UInt8.ofNat raw.length] raw.length := reads_intBe _ hlt
    exact reads_tagged (hlen.bind hraw)
  · split at h
    · rename_i hlt
      cases h
      exact reads_tagged ((reads_int20 hlt).bind hraw)
    · split at h
      · rename_i hlt
        cases h
        have hlen : Reads (readIntBe 4) (toBE 4 raw.length) raw.length :=
          reads_intBe _ (by omega)
        exact reads_tagged (hlen.bind hraw)
      · cases h

theorem reads_str (s : String) : Reads (readBytesOrString (utf8 s).length true) (utf8 s) (.str s) := by
  have hraw : Reads (readRaw (utf8 s).length) (utf8 s) (utf8 s) := reads_raw _ rfl
  refine hraw.last ?_
  rw [if_pos rfl, ofUtf8?_utf8]
  exact Reads.pure _

theorem reads_bytes (b : Bytes) : Reads (readBytesOrString b.length false) b (.bytes b) := by
  have hraw : Reads (readRaw b.length) b b := reads_raw _ rfl
  exact hraw.last (Reads.pure _)

end Values

/-! ## 3. Packed characters -/

/-- A character that goes into four bits and comes out again. -/
def Packs (ty : UInt8) (pack : UInt8 → UInt8) (c : UInt8) : Prop :=
  pack c < 16 ∧ unpackByte ty (pack c) = .ok c

theorem packs_nibble {c : UInt8} (h : (isAsciiDigit c || c == 0x2D || c == 0x2E) = true) :
    Packs NIBBLE_8 packNibble c := by
  have hall : ∀ v : BitVec 8,
      (isAsciiDigit (.ofBitVec v) || UInt8.ofBitVec v == 0x2D || UInt8.ofBitVec v == 0x2E) = true →
      packNibble (.ofBitVec v) < 16 ∧
        unpackByte NIBBLE_8 (packNibble (.ofBitVec v)) = .ok (.ofBitVec v) := by decide
  exact hall c.toBitVec h

theorem packs_hex {c : UInt8} (h : (isAsciiDigit c || (0x41 ≤ c && c ≤ 0x46)) = true) :
    Packs HEX_8 packHex c := by
  have hall : ∀ v : BitVec 8, (isAsciiDigit (.ofBitVec v) ||
        (0x41 ≤ UInt8.ofBitVec v && UInt8.ofBitVec v ≤ 0x46)) = true →
      packHex (.ofBitVec v) < 16 ∧
        unpackByte HEX_8 (packHex (.ofBitVec v)) = .ok (.ofBitVec v) := by decide
  exact hall c.toBitVec h

/-- The two halves of a byte. -/
theorem halves {hi lo : UInt8} (hhi : hi < 16) (hlo : lo < 16) :
    (hi <<< 4 ||| lo) >>> 4 = hi ∧ (hi <<< 4 ||| lo) &&& 0x0F = lo := by
  have hh : hi.toNat < 16 := hhi
  have hl : lo.toNat < 16 := hlo
  have hor : (hi <<< 4 ||| lo).toNat = hi.toNat * 16 + lo.toNat := by
    have hadd := Nat.shiftLeft_add_eq_or_of_lt (i := 4) hl hi.toNat
    rw [UInt8.toNat_or, UInt8.toNat_shiftLeft]
    show hi.toNat <<< 4 % 2 ^ 8 ||| lo.toNat = _
    rw [Nat.mod_eq_of_lt (by rw [Nat.shiftLeft_eq]; omega), ← hadd, Nat.shiftLeft_eq]
  constructor
  · apply UInt8.toNat_inj.mp
    rw [UInt8.toNat_shiftRight, hor]
    show (hi.toNat * 16 + lo.toNat) >>> 4 = _
    rw [Nat.shiftRight_eq_div_pow]
    omega
  · apply UInt8.toNat_inj.mp
    rw [UInt8.toNat_and, hor]
    have hmask : (hi.toNat * 16 + lo.toNat) &&& (0x0F : UInt8).toNat =
        (hi.toNat * 16 + lo.toNat) % 2 ^ 4 := Nat.and_two_pow_sub_one_eq_mod _ 4
    rw [hmask]
    omega

theorem reads_lift {α : Type} (a : α) :
    Reads (liftM (Except.ok a : Except DecodeError α) : Decoder α) [] a := fun _ _ => rfl

theorem reads_packedPair {ty hi lo a b : UInt8} (hhi : hi < 16) (hlo : lo < 16)
    (ha : unpackByte ty hi = .ok a) (hb : unpackByte ty lo = .ok b) :
    Reads (readPackedPair ty) [hi <<< 4 ||| lo] (a, b) := by
  obtain ⟨hupper, hlower⟩ := halves hhi hlo
  refine (reads_byte _).last ?_
  rw [hupper, hlower, ha, hb]
  exact (reads_lift a).last ((reads_lift b).last (Reads.pure _))

/-- The packed bytes give the characters back, with one padding character behind an odd number. -/
theorem reads_packPairs {ty : UInt8} {pack : UInt8 → UInt8} {pad : UInt8} (hpad : pack 0 < 16)
    (hpad' : unpackByte ty (pack 0) = .ok pad) (bytes : Bytes)
    (h : ∀ c ∈ bytes, Packs ty pack c) :
    ∃ pairs : List (UInt8 × UInt8),
      Reads (many (readPackedPair ty) ((bytes.length + 1) / 2)) (packPairs pack bytes) pairs ∧
      (pairs.flatMap fun p => [p.1, p.2]) =
        bytes ++ if bytes.length % 2 = 1 then [pad] else [] := by
  induction bytes using packPairs.induct with
  | case1 a b rest ih =>
      obtain ⟨pairs, hread, hflat⟩ := ih fun c hc => h c (by simp [hc])
      obtain ⟨ha, ha'⟩ := h a (by simp)
      obtain ⟨hb, hb'⟩ := h b (by simp)
      have hcount : ((a :: b :: rest).length + 1) / 2 = (rest.length + 1) / 2 + 1 := by
        simp only [List.length_cons]
        omega
      have hodd : (a :: b :: rest).length % 2 = rest.length % 2 := by
        simp only [List.length_cons]
        omega
      refine ⟨(a, b) :: pairs, ?_, ?_⟩
      · rw [hcount]
        exact Reads.many_cons (reads_packedPair ha hb ha' hb') hread
      · rw [hodd, List.flatMap_cons, hflat]
        rfl
  | case2 a =>
      obtain ⟨ha, ha'⟩ := h a (by simp)
      have hcount : ([a].length + 1) / 2 = 0 + 1 := by simp
      refine ⟨[(a, pad)], ?_, rfl⟩
      rw [hcount]
      exact Reads.many_cons (reads_packedPair ha hpad ha' hpad') (Reads.many_nil _)
  | case3 => exact ⟨[], Reads.many_nil _, rfl⟩

/-- The header byte holds the number of packed bytes and whether the last character is padding. -/
theorem packed_header {n : Nat} (h : n ≤ PACKED_MAX) :
    let halfLen := UInt8.ofNat ((n + 1) / 2)
    let header := if n % 2 = 1 then halfLen ||| 0x80 else halfLen
    (header &&& 0x7F).toNat = (n + 1) / 2 ∧ (header &&& 0x80 ≠ 0 ↔ n % 2 = 1) := by
  have hall : ∀ m : Fin 65, ((UInt8.ofNat m.val ||| 0x80) &&& 0x7F).toNat = m.val ∧
      (UInt8.ofNat m.val &&& 0x7F).toNat = m.val ∧ (UInt8.ofNat m.val ||| 0x80) &&& 0x80 ≠ 0 ∧
      UInt8.ofNat m.val &&& 0x80 = 0 := by decide
  have hm : (n + 1) / 2 < 65 := by
    unfold PACKED_MAX at h
    omega
  obtain ⟨h₁, h₂, h₃, h₄⟩ := hall ⟨(n + 1) / 2, hm⟩
  by_cases hodd : n % 2 = 1
  · simp only [hodd, if_true]
    exact ⟨h₁, fun _ => trivial, fun _ => h₃⟩
  · simp only [hodd, if_false]
    exact ⟨h₂, fun hne => absurd h₄ hne, False.elim⟩

/-- The padding character, and only it, is popped. -/
theorem drop_padding {p : Prop} [Decidable p] {bytes : Bytes} {pad : UInt8}
    (hp : p ↔ bytes.length % 2 = 1) :
    (if p ∧ (bytes ++ if bytes.length % 2 = 1 then [pad] else []) ≠ [] then
      (bytes ++ if bytes.length % 2 = 1 then [pad] else []).dropLast
    else bytes ++ if bytes.length % 2 = 1 then [pad] else []) = bytes := by
  by_cases hodd : bytes.length % 2 = 1
  · rw [if_pos hodd, if_pos ⟨hp.mpr hodd, by simp⟩, List.dropLast_concat]
  · rw [if_neg hodd, if_neg (fun h => hodd (hp.mp h.1)), List.append_nil]

theorem reads_packed {ty : UInt8} {pad : UInt8} {s : String} {bs : Bytes}
    (hpad : (if ty = NIBBLE_8 then packNibble else packHex) 0 < 16)
    (hpad' : unpackByte ty ((if ty = NIBBLE_8 then packNibble else packHex) 0) = .ok pad)
    (hall : ∀ c ∈ utf8 s, Packs ty (if ty = NIBBLE_8 then packNibble else packHex) c)
    (h : writePacked s ty = .ok bs) : ∃ rest, bs = ty :: rest ∧ Reads (readPacked ty) rest s := by
  unfold writePacked at h
  dsimp only at h
  split at h
  · cases h
  · rename_i hlen
    cases h
    refine ⟨_, rfl, ?_⟩
    obtain ⟨pairs, hread, hflat⟩ := reads_packPairs hpad hpad' (utf8 s) hall
    obtain ⟨hcount, hodd⟩ := packed_header (Nat.not_lt.mp hlen)
    refine (reads_byte _).bind ?_
    rw [hcount]
    refine hread.last ?_
    dsimp only
    rw [hflat, drop_padding hodd, ofUtf8?_utf8]
    exact Reads.pure _

/-! ## 4. Strings -/

theorem mem_utf8_nibble {s : String} (h : validateNibble s = true) :
    ∀ c ∈ utf8 s, Packs NIBBLE_8 packNibble c := by
  unfold validateNibble at h
  dsimp only at h
  split at h
  · cases h
  · exact fun c hc => packs_nibble (List.all_eq_true.mp h c hc)

theorem mem_utf8_hex {s : String} (h : validateHex s = true) :
    ∀ c ∈ utf8 s, Packs HEX_8 packHex c := by
  unfold validateHex at h
  dsimp only at h
  split at h
  · cases h
  · exact fun c hc => packs_hex (List.all_eq_true.mp h c hc)

section Values

variable {readNode : Decoder Node} {readStr : Decoder DecodedValue}

/-- A byte between the empty list and the dictionaries is a single-byte token. -/
theorem readTagged_token {asString : Bool} {tag : UInt8} (hpos : 1 ≤ tag.toNat)
    (hlt : tag.toNat < 236) :
    readTagged readNode readStr asString tag =
      pure (.str (SINGLE_BYTE_TOKENS.getD tag.toNat "")) := by
  have hne : ∀ c : UInt8, 236 ≤ c.toNat → tag ≠ c := by
    intro c hc he
    rw [he] at hlt
    omega
  have hzero : tag ≠ LIST_EMPTY := by
    intro he
    rw [he] at hpos
    exact absurd hpos (by decide)
  have hdict : ¬ (DICT_0 ≤ tag ∧ tag ≤ DICT_3) := by
    intro hd
    have hge : (236 : Nat) ≤ tag.toNat := hd.1
    omega
  have hin : 1 ≤ tag ∧ tag.toNat < SINGLE_BYTE_TOKENS.length :=
    ⟨hpos, length_SINGLE_BYTE_TOKENS ▸ hlt⟩
  unfold readTagged
  rw [if_neg hzero, if_neg (not_or.mpr ⟨hne _ (by decide), hne _ (by decide)⟩),
    if_neg (hne _ (by decide)), if_neg (hne _ (by decide)), if_neg (hne _ (by decide)),
    if_neg hdict, if_neg (hne _ (by decide)), if_neg (hne _ (by decide)),
    if_neg (hne _ (by decide)), if_neg (hne _ (by decide)),
    if_neg (not_or.mpr ⟨hne _ (by decide), hne _ (by decide)⟩), if_pos hin]

/-- A dictionary byte and an index are a double-byte token. -/
theorem readTagged_double {asString : Bool} {di idx : UInt8} {s : String} (hdi : di.toNat < 4)
    (h : doubleByteToken di.toNat idx.toNat = some s) :
    Reads (readTagged readNode readStr asString (DICT_0 + di)) [idx] (.str s) := by
  have hcases : di = 0 ∨ di = 1 ∨ di = 2 ∨ di = 3 := by
    simp only [← UInt8.toNat_inj]
    have : (0 : UInt8).toNat = 0 := rfl
    have : (1 : UInt8).toNat = 1 := rfl
    have : (2 : UInt8).toNat = 2 := rfl
    have : (3 : UInt8).toNat = 3 := rfl
    omega
  -- None of the tags before the dictionaries is one of the four.
  obtain ⟨hempty, hlist, h8, h20, h32, hdict, hindex⟩ :
      DICT_0 + di ≠ LIST_EMPTY ∧ ¬ (DICT_0 + di = LIST_8 ∨ DICT_0 + di = LIST_16) ∧
        DICT_0 + di ≠ BINARY_8 ∧ DICT_0 + di ≠ BINARY_20 ∧ DICT_0 + di ≠ BINARY_32 ∧
        (DICT_0 ≤ DICT_0 + di ∧ DICT_0 + di ≤ DICT_3) ∧ DICT_0 + di - DICT_0 = di := by
    rcases hcases with rfl | rfl | rfl | rfl <;> decide
  unfold readTagged
  rw [if_neg hempty, if_neg hlist, if_neg h8, if_neg h20, if_neg h32, if_pos hdict]
  refine (reads_byte idx).last ?_
  rw [hindex, h]
  exact Reads.pure _

/-- **Strings**: whatever form was chosen, the string is read back. -/
theorem reads_writeString {s : String} {bs : Bytes} (h : writeString s = .ok bs) :
    Reads (readValueWith readNode readStr true) bs (.str s) := by
  unfold writeString at h
  split at h
  · rename_i idx hidx
    cases h
    obtain ⟨hpos, hlt, htok⟩ := singleByteIndex_some hidx
    refine reads_tagged ?_
    rw [readTagged_token hpos hlt, htok]
    exact Reads.pure _
  · split at h
    · rename_i di idx hidx
      cases h
      obtain ⟨hdi, htok⟩ := doubleByteIndex_some hidx
      exact reads_tagged (readTagged_double hdi htok)
    · split at h
      · rename_i hvalid
        have hpad : unpackByte NIBBLE_8 (packNibble 0) = .ok 0 := by decide
        obtain ⟨rest, rfl, hread⟩ := reads_packed (by decide) hpad (mem_utf8_nibble hvalid) h
        exact reads_tagged (hread.map rfl)
      · split at h
        · rename_i hvalid
          have hpad : unpackByte HEX_8 (packHex 0) = .ok 0x46 := by decide
          obtain ⟨rest, rfl, hread⟩ := reads_packed (by decide) hpad (mem_utf8_hex hvalid) h
          exact reads_tagged (hread.map rfl)
        · unfold writeBytes at h
          obtain ⟨hdr, hhdr, hbs⟩ := Result.bind_ok.mp h
          cases hbs
          exact reads_byteLength hhdr (reads_str s)

end Values

/-! ## 5. Attribute values -/

theorem attrShape_server {v server : String} (h : attrShape v = .server server) :
    v = "@" ++ server := by
  unfold attrShape at h
  split at h
  · cases h
  · rename_i left serverChars hsplit
    obtain ⟨hv, -⟩ := Text.rsplitOnce_eq_some.mp hsplit
    dsimp only at h
    split at h
    · rename_i hempty
      cases h
      apply String.toList_inj.mp
      simp [hv, hempty.1]
    · split at h
      · split at h
        · cases h
        · split at h <;> cases h
      · cases h

theorem attrShape_pair {v user server : String} (h : attrShape v = .pair user server) :
    v = user ++ "@" ++ server := by
  unfold attrShape at h
  split at h
  · cases h
  · rename_i left serverChars hsplit
    obtain ⟨hv, -⟩ := Text.rsplitOnce_eq_some.mp hsplit
    dsimp only at h
    split at h
    · cases h
    · split at h
      · split at h
        · cases h
          apply String.toList_inj.mp
          simp [hv]
        · split at h <;> cases h
      · cases h

/-- `user[.agent][:device]`, the part of an AD-JID in front of the `@`. -/
def adJidLeft (user : List Char) (agent device : UInt8) : List Char :=
  user ++ (if agent = 0 then [] else '.' :: Text.decimal agent.toNat) ++
    if device = 0 then [] else ':' :: Text.decimal device.toNat

/-- The server an agent byte stands for. -/
def agentServer (agent : UInt8) : String :=
  if agent = 0 then "s.whatsapp.net" else if agent = 1 then "lid" else "hosted"

theorem toList_formatAdJid (user : String) (agent device : UInt8) :
    (formatAdJid user agent device).toList =
      adJidLeft user.toList agent device ++ '@' :: (agentServer agent).toList := by
  unfold formatAdJid adJidLeft agentServer
  rw [String.toList_ofList]

theorem not_mem_decimal {n : UInt8} {c : Char} (hc : c.isDigit = false) :
    c ∉ Text.decimal n.toNat := by
  intro hmem
  rw [Text.mem_decimal hmem] at hc
  cases hc

/-- A separator that the user does not contain stands in the left part only where it was put. -/
theorem not_mem_adJidLeft {user : List Char} {agent device : UInt8} {c : Char}
    (hc : c.isDigit = false) (hu : c ∉ user) (hdot : c = '.' → agent = 0)
    (hcolon : c = ':' → device = 0) : c ∉ adJidLeft user agent device := by
  unfold adJidLeft
  intro hmem
  rcases List.mem_append.mp hmem with hmem | hmem
  · rcases List.mem_append.mp hmem with hmem | hmem
    · exact hu hmem
    · split at hmem
      · cases hmem
      · rename_i hagent
        rcases List.mem_cons.mp hmem with he | hd
        · exact hagent (hdot he)
        · exact not_mem_decimal hc hd
  · split at hmem
    · cases hmem
    · rename_i hdevice
      rcases List.mem_cons.mp hmem with he | hd
      · exact hdevice (hcolon he)
      · exact not_mem_decimal hc hd

/-- The left part up to the device. -/
def adJidHead (user : List Char) (agent : UInt8) : List Char :=
  user ++ if agent = 0 then [] else '.' :: Text.decimal agent.toNat

/-- The device is what stands behind the last colon, and 0 without one. -/
theorem headDevice_of_none {left : List Char} (h : ':' ∉ left) :
    headDevice left = (left, some 0) := by
  unfold headDevice
  rw [Text.rsplitOnce_eq_none.mpr h]

theorem headDevice_of_some {head digits : List Char} (h : ':' ∉ digits) :
    headDevice (head ++ ':' :: digits) = (head, Text.parseU8 digits) := by
  unfold headDevice
  rw [Text.rsplitOnce_eq_some.mpr ⟨rfl, h⟩]

/-- The agent is what stands behind the first dot. -/
theorem userDotAgent_of_none {user : List Char} (h : '.' ∉ user) :
    userDotAgent user = (user, none) := by
  unfold userDotAgent
  rw [Text.splitOnce_eq_none.mpr h]

theorem userDotAgent_of_some {user digits : List Char} (h : '.' ∉ user) :
    userDotAgent (user ++ '.' :: digits) = (user, Text.parseU8 digits) := by
  unfold userDotAgent
  rw [Text.splitOnce_eq_some.mpr ⟨rfl, h⟩]

theorem headDevice_left {user : List Char} {agent device : UInt8} (hcolon : ':' ∉ user) :
    headDevice (adJidLeft user agent device) = (adJidHead user agent, some device) := by
  by_cases hd : device = 0
  · have hleft : ':' ∉ adJidLeft user agent device :=
      not_mem_adJidLeft (by decide) hcolon (fun h => absurd h (by decide)) fun _ => hd
    rw [headDevice_of_none hleft, hd, adJidLeft, if_pos rfl, List.append_nil, adJidHead]
  · have hsplit : adJidLeft user agent device =
        adJidHead user agent ++ ':' :: Text.decimal device.toNat := by
      rw [adJidLeft, if_neg hd, adJidHead]
    rw [hsplit, headDevice_of_some (not_mem_decimal (by decide)), Text.parseU8_decimal]

theorem userDotAgent_head {user : List Char} {agent : UInt8} (hdot : '.' ∉ user) :
    userDotAgent (adJidHead user agent) = (user, if agent = 0 then none else some agent) := by
  unfold adJidHead
  by_cases ha : agent = 0
  · rw [if_pos ha, if_pos ha, List.append_nil, userDotAgent_of_none hdot]
  · rw [if_neg ha, if_neg ha, userDotAgent_of_some hdot, Text.parseU8_decimal]

/-- The agent byte comes back: from the string when it stands there, else from the server. -/
theorem agent_back (agent : UInt8) :
    ∃ a, serverAgent (agentServer agent) (if agent = 0 then none else some agent) = some a ∧
      (if agent = 0 then none else some agent).getD a = agent := by
  by_cases h0 : agent = 0
  · subst h0
    exact ⟨0, by decide, rfl⟩
  · by_cases h1 : agent = 1
    · subst h1
      exact ⟨1, by decide, rfl⟩
    · have hserver : agentServer agent = "hosted" := by
        rw [agentServer, if_neg h0, if_neg h1]
      refine ⟨agent, ?_, ?_⟩
      · rw [hserver, if_neg h0]
        rfl
      · rw [if_neg h0]
        rfl

theorem adJidParts_left {user : List Char} {agent device : UInt8} (hu : user ≠ [])
    (hcolon : ':' ∉ user) (hdot : '.' ∉ user) (hne : (agent, device) ≠ (0, 0)) :
    adJidParts (adJidLeft user agent device) (agentServer agent) =
      some (agent, device, String.ofList user) := by
  have hpos : device > 0 ∨ agent > 0 := by
    by_cases ha : agent = 0
    · refine Or.inl (UInt8.pos_iff_ne_zero.mpr fun hd => hne ?_)
      rw [ha, hd]
    · exact Or.inr (UInt8.pos_iff_ne_zero.mpr ha)
  obtain ⟨a, hserver, hagent⟩ := agent_back agent
  unfold adJidParts
  rw [headDevice_left hcolon]
  dsimp only
  rw [userDotAgent_head hdot]
  dsimp only
  rw [hserver]
  dsimp only
  rw [hagent, if_pos ⟨hu, hpos⟩]

/-- A user that can be read back from an AD-JID. -/
def PlainUser (user : String) : Prop :=
  user ≠ "" ∧ '@' ∉ user.toList ∧ ':' ∉ user.toList ∧ '.' ∉ user.toList

/-- **A canonical AD-JID is classified as one**, with the fields it was formatted from. -/
theorem attrShape_formatAdJid {user : String} {agent device : UInt8} (hu : PlainUser user)
    (hne : (agent, device) ≠ (0, 0)) :
    attrShape (formatAdJid user agent device) = .adJid agent device user := by
  obtain ⟨hempty, hat, hcolon, hdot⟩ := hu
  have hchars : user.toList ≠ [] := fun h => hempty (String.toList_inj.mp h)
  have hserver : '@' ∉ (agentServer agent).toList := by
    unfold agentServer
    split
    · decide
    · split
      · decide
      · decide
  have hsplit : Text.rsplitOnce '@' (formatAdJid user agent device).toList =
      some (adJidLeft user.toList agent device, (agentServer agent).toList) :=
    Text.rsplitOnce_eq_some.mpr ⟨toList_formatAdJid user agent device, hserver⟩
  have hleft : adJidLeft user.toList agent device ≠ [] := by
    unfold adJidLeft
    simp [hchars]
  have hnoat : '@' ∉ adJidLeft user.toList agent device :=
    not_mem_adJidLeft (by decide) hat (fun h => absurd h (by decide))
      (fun h => absurd h (by decide))
  have hmarked : ':' ∈ adJidLeft user.toList agent device ∨
      '.' ∈ adJidLeft user.toList agent device := by
    unfold adJidLeft
    by_cases ha : agent = 0
    · have hd : device ≠ 0 := fun hd => hne (by rw [ha, hd])
      exact Or.inl (by simp [hd])
    · exact Or.inr (by simp [ha])
  unfold attrShape
  rw [hsplit]
  dsimp only
  rw [String.ofList_toList, if_neg (fun h => hleft h.1), if_pos ⟨hleft, hnoat⟩,
    if_neg (fun h => hmarked.elim h.2.1 h.2.2), adJidParts_left hchars hcolon hdot hne,
    String.ofList_toList]

/-- The attribute values the format can carry: not an AD-JID, or one in canonical form. -/
def AttrOk (v : String) : Prop :=
  (∀ agent device user, attrShape v ≠ .adJid agent device user) ∨
  ∃ user agent device, v = formatAdJid user agent device ∧ PlainUser user ∧
    (agent, device) ≠ (0, 0)

/-- An AD-JID that is written is the one its fields are formatted to. -/
theorem formatAdJid_of_shape {v user : String} {agent device : UInt8} (hv : AttrOk v)
    (h : attrShape v = .adJid agent device user) : formatAdJid user agent device = v := by
  rcases hv with hno | ⟨user', agent', device', rfl, hu, hne⟩
  · exact absurd h (hno agent device user)
  · rw [attrShape_formatAdJid hu hne] at h
    cases h
    rfl

section Values

variable {readNode : Decoder Node} {readStr : Decoder DecodedValue}

/-- The nested `read_value(true)` reads strings, and the empty list as nothing. -/
structure ReadsStrings (readStr : Decoder DecodedValue) : Prop where
  str : ∀ {s bs}, writeString s = .ok bs → Reads readStr bs (.str s)
  none : Reads readStr [LIST_EMPTY] .none

theorem reads_jidPair {user server : String} {bu bs : Bytes} (hr : ReadsStrings readStr)
    (hu : writeString user = .ok bu) (hs : writeString server = .ok bs) :
    Reads (readJidPair readStr) (bu ++ bs) (user ++ "@" ++ server) :=
  (hr.str hu).bind ((hr.str hs).last (Reads.pure _))

theorem reads_serverJid {server : String} {bs : Bytes} (hr : ReadsStrings readStr)
    (hs : writeString server = .ok bs) :
    Reads (readJidPair readStr) ([LIST_EMPTY] ++ bs) ("@" ++ server) :=
  hr.none.bind ((hr.str hs).last (Reads.pure _))

theorem reads_adJid {user : String} {agent device : UInt8} {bu : Bytes}
    (hr : ReadsStrings readStr) (hu : writeString user = .ok bu) :
    Reads (readAdJid readStr) (agent :: device :: bu) (formatAdJid user agent device) :=
  (reads_byte agent).bind ((reads_byte device).bind ((hr.str hu).last (Reads.pure _)))

/-- **Attribute values**: whichever token was chosen, the string is read back. -/
theorem reads_writeAttrValue {v : String} {bs : Bytes} (hr : ReadsStrings readStr) (hv : AttrOk v)
    (h : writeAttrValue v = .ok bs) :
    Reads (readValueWith readNode readStr true) bs (.str v) := by
  unfold writeAttrValue at h
  split at h
  · rename_i server hshape
    obtain ⟨b, hb, hbs⟩ := Result.bind_ok.mp h
    cases hbs
    rw [attrShape_server hshape]
    exact reads_tagged ((reads_serverJid hr hb).map rfl)
  · rename_i user server hshape
    obtain ⟨bu, hbu, h⟩ := Result.bind_ok.mp h
    obtain ⟨b, hb, hbs⟩ := Result.bind_ok.mp h
    cases hbs
    rw [attrShape_pair hshape, List.append_assoc]
    exact reads_tagged ((reads_jidPair hr hbu hb).map rfl)
  · rename_i agent device user hshape
    obtain ⟨b, hb, hbs⟩ := Result.bind_ok.mp h
    cases hbs
    rw [← formatAdJid_of_shape hv hshape]
    exact reads_tagged ((reads_adJid hr hb).map rfl)
  · exact reads_writeString h

end Values

/-- Two levels of fuel are enough for a string, and three for an attribute value. -/
theorem readsStrings_fuel (fuel : Nat) : ReadsStrings (readValue (fuel + 1) true) where
  str h := reads_writeString h
  none := reads_tagged (Reads.pure _)

/-- A string takes at least one byte. -/
theorem length_writeString {s : String} {bs : Bytes} (h : writeString s = .ok bs) :
    1 ≤ bs.length :=
  List.length_pos_iff.mpr (ne_nil_of_reads ((readsStrings_fuel 0).str h))

/-! ## 6. Attributes -/

/-- The attribute loop rebuilds the map, entry by entry. -/
theorem reads_writeAttrs {fuel : Nat} {es : List (String × String)} {attrs : Attrs} {bs : Bytes}
    (hes : ∀ e ∈ es, e.2 ≠ "" ∧ AttrOk e.2) (h : writeAttrs es = .ok bs) :
    Reads (readAttrs (readValue (fuel + 2) true) es.length attrs) bs (attrs.insertAll es) := by
  induction es generalizing attrs bs with
  | nil =>
      cases h
      exact Reads.pure _
  | cons e es ih =>
      obtain ⟨k, v⟩ := e
      obtain ⟨hne, hok⟩ := hes (k, v) List.mem_cons_self
      have hfalse : v.isEmpty = false := by
        cases hv : v.isEmpty
        · rfl
        · exact absurd (String.isEmpty_iff.mp hv) hne
      unfold writeAttrs at h
      rw [hfalse, if_neg Bool.false_ne_true] at h
      obtain ⟨bk, hk, h⟩ := Result.bind_ok.mp h
      obtain ⟨bv, hv, h⟩ := Result.bind_ok.mp h
      obtain ⟨brest, hrest, hbs⟩ := Result.bind_ok.mp h
      cases hbs
      have hkey : Reads (readValue (fuel + 2) true) bk (.str k) := reads_writeString hk
      have hval : Reads (readValue (fuel + 2) true) bv (.str v) :=
        reads_writeAttrValue (readsStrings_fuel fuel) hok hv
      rw [List.append_assoc]
      exact hkey.bind (hval.bind
        (ih (fun x hx => hes x (List.mem_cons_of_mem _ hx)) hrest))

/-! ## 7. Nodes -/

/-- The trees the format can carry. -/
inductive Canonical : Node → Prop
  | mk {tag : String} {attrs : Attrs} {content : Content Node}
      (tag_ne : tag ≠ "") (tag_zero : tag ≠ "0")
      (values : ∀ e ∈ attrs.entries, e.2 ≠ "" ∧ AttrOk e.2)
      (children_ne : ∀ ns, content = .nodes ns → ns ≠ [])
      (children : ∀ ns, content = .nodes ns → ∀ n ∈ ns, Canonical n) :
      Canonical ⟨tag, attrs, content⟩

/-- No attribute is dropped, so the header counts all of them. -/
theorem listSize_eq {attrs : Attrs} {content : Content Node}
    (h : ∀ e ∈ attrs.entries, e.2 ≠ "" ∧ AttrOk e.2) :
    listSize attrs content = 2 * attrs.entries.length + 1 + (hasContent content).toNat := by
  have hall : attrs.entries.filter (fun e => !e.2.isEmpty) = attrs.entries := by
    refine List.filter_eq_self.mpr fun e he => ?_
    have hne := (h e he).1
    cases hv : e.2.isEmpty
    · rfl
    · exact absurd (String.isEmpty_iff.mp hv) hne
  rw [listSize, hall]

/-- What the decoder makes of the header: the number of attributes, and whether content follows. -/
theorem listSize_read (k : Nat) (c : Bool) :
    (2 * k + 1 + c.toNat - 1) >>> 1 = k ∧ ((2 * k + 1 + c.toNat) % 2 = 1 ↔ c = false) := by
  rw [Nat.shiftRight_eq_div_pow]
  cases c
  · simp only [Bool.toNat_false, iff_true]
    omega
  · simp only [Bool.toNat_true, Bool.true_eq_false, iff_false]
    omega

theorem readTagged_list {readNode : Decoder Node} {readStr : Decoder DecodedValue}
    {asString : Bool} {tag : UInt8} (h : tag = LIST_8 ∨ tag = LIST_16) :
    readTagged readNode readStr asString tag = (do
      let size ← readListSize tag
      let nodes ← Reader.many readNode size
      return .nodes nodes) := by
  rcases h with rfl | rfl
  · rfl
  · rfl

/-- What is claimed of a node: it is read back with any fuel that covers its bytes. -/
def RoundTrips (n : Node) : Prop :=
  ∀ bs, writeNode n = .ok bs → ∀ fuel, bs.length ≤ fuel → Reads (readNodeInner fuel) bs n

theorem reads_writeNodes {ns : List Node} (hns : ∀ n ∈ ns, RoundTrips n) {bs : Bytes}
    (h : writeNodes ns = .ok bs) {fuel : Nat} (hfuel : bs.length ≤ fuel) :
    Reads (many (readNodeInner fuel) ns.length) bs ns := by
  induction ns generalizing bs with
  | nil =>
      cases h
      exact Reads.many_nil _
  | cons n ns ih =>
      unfold writeNodes at h
      obtain ⟨b, hb, h⟩ := Result.bind_ok.mp h
      obtain ⟨brest, hrest, hbs⟩ := Result.bind_ok.mp h
      cases hbs
      rw [List.length_append] at hfuel
      exact Reads.many_cons (hns n List.mem_cons_self b hb fuel (by omega))
        (ih (fun m hm => hns m (List.mem_cons_of_mem n hm)) hrest (by omega))

/-- The value the content is decoded to. -/
def contentValue : Content Node → DecodedValue
  | .none => .none
  | .bytes b => .bytes b
  | .nodes ns => .nodes ns

/-- Content is read back as a value; the children with the fuel that is left. -/
theorem reads_writeContent {content : Content Node} (hc : hasContent content = true)
    (hne : ∀ ns, content = .nodes ns → ns ≠ [])
    (hns : ∀ ns, content = .nodes ns → ∀ n ∈ ns, RoundTrips n) {bs : Bytes}
    (h : writeContent content = .ok bs) {fuel : Nat} (hfuel : bs.length ≤ fuel) :
    Reads (readValue (fuel + 1) false) bs (contentValue content) := by
  cases content with
  | none => cases hc
  | bytes b =>
      unfold writeContent writeBytes at h
      obtain ⟨hdr, hhdr, hbs⟩ := Result.bind_ok.mp h
      cases hbs
      exact reads_byteLength hhdr (reads_bytes b)
  | nodes ns =>
      unfold writeContent at h
      obtain ⟨hdr, hhdr, h⟩ := Result.bind_ok.mp h
      obtain ⟨b, hb, hbs⟩ := Result.bind_ok.mp h
      cases hbs
      obtain ⟨tag, rest, rfl, hsize, hpos⟩ := writeListStart_ok hhdr
      obtain ⟨htag, -⟩ := hpos (List.length_pos_iff.mpr (hne ns rfl))
      have hb' : b.length ≤ fuel := by
        simp only [List.length_append] at hfuel
        omega
      refine reads_tagged ?_
      rw [readTagged_list htag]
      exact hsize.bind ((reads_writeNodes (hns ns rfl) hb hb').map rfl)

/-- **Nodes**, by induction on the tree: the header, the tag, the attributes and the content are
    read back one after the other, and the reader stops at the end of the encoding. -/
theorem reads_writeNode {n : Node} (hn : Canonical n) : RoundTrips n := by
  induction hn with
  | @mk tag attrs content htag hzero hvalues hne _ ih =>
      intro bs h fuel hfuel
      unfold writeNode at h
      rw [if_neg hzero] at h
      obtain ⟨bh, hbh, h⟩ := Result.bind_ok.mp h
      obtain ⟨bt, hbt, h⟩ := Result.bind_ok.mp h
      obtain ⟨ba, hba, h⟩ := Result.bind_ok.mp h
      obtain ⟨bc, hbc, hbs⟩ := Result.bind_ok.mp h
      cases hbs
      rw [listSize_eq hvalues] at hbh
      obtain ⟨tagByte, rest, rfl, hsize, hpos⟩ := writeListStart_ok hbh
      have hrest : 1 ≤ rest.length := (hpos (by omega)).2
      have hstr := length_writeString hbt
      simp only [List.length_append, List.length_cons] at hfuel
      -- the header and the tag alone take three bytes
      obtain ⟨f, rfl⟩ : ∃ f, fuel = f + 3 := ⟨fuel - 3, by omega⟩
      obtain ⟨hcount, hodd⟩ := listSize_read attrs.entries.length (hasContent content)
      have hattrs : Reads (readAttrs (readValue (f + 2) true)
          ((2 * attrs.entries.length + 1 + (hasContent content).toNat - 1) >>> 1)
          SortedMap.empty) ba attrs := by
        have hread : Reads (readAttrs (readValue (f + 2) true) attrs.entries.length
            SortedMap.empty) ba (SortedMap.empty.insertAll attrs.entries) :=
          reads_writeAttrs hvalues hba
        rw [SortedMap.insertAll_entries] at hread
        rw [hcount]
        exact hread
      have hstart : ¬ (2 * attrs.entries.length + 1 + (hasContent content).toNat = 0 ∨
          tag.isEmpty = true) := by
        rintro (h0 | hempty)
        · omega
        · exact htag (String.isEmpty_iff.mp hempty)
      show Reads (readNodeWith (readValue (f + 2))) _ _
      rw [List.append_assoc, List.append_assoc]
      refine (reads_byte tagByte).bind (hsize.bind (Reads.bind (reads_writeString hbt) ?_))
      dsimp only
      rw [if_neg hstart]
      refine hattrs.bind ?_
      cases hc : hasContent content with
      | false =>
          rw [hc] at hodd
          rw [if_pos (hodd.mpr rfl)]
          cases content with
          | none =>
              cases hbc
              exact Reads.pure _
          | bytes b => cases hc
          | nodes ns => cases hc
      | true =>
          have hleft : bc.length ≤ f + 1 := by omega
          have hcontent := reads_writeContent hc hne ih hbc hleft
          rw [hc] at hodd
          rw [if_neg (fun h1 => Bool.noConfusion (hodd.mp h1))]
          refine hcontent.last ?_
          cases content with
          | none => cases hc
          | bytes b => exact Reads.pure _
          | nodes ns => exact Reads.pure _

/-! ## 8. The codec -/

/-- In front of any suffix the decoder returns the tree and stops right behind its bytes. -/
theorem readNodeRequired_append {n : Node} (hn : Canonical n) {b : Bytes} (hb : writeNode n = .ok b)
    (s : Bytes) : readNodeRequired (b ++ s) = .ok (n, ⟨b ++ s, b.length⟩) := by
  have hfuel : b.length ≤ (b ++ s).length := by
    rw [List.length_append]
    omega
  exact (reads_writeNode hn b hb _ hfuel).run_start s

theorem unmarshal_pack {n : Node} (hn : Canonical n) {p : Bytes} (hp : pack n = .ok p)
    (inflate : Bytes → Option Bytes) : unmarshal inflate p = .ok n := by
  obtain ⟨b, hb, heq⟩ := Result.bind_ok.mp hp
  cases heq
  have hread := readNodeRequired_append hn hb []
  rw [List.append_nil] at hread
  show decode b = .ok n
  unfold decode
  rw [hread]
  rfl

/-- **The binary node codec round-trips.** If a canonical tree encodes to `b`, then in front of
    any suffix the decoder returns exactly the tree and stops at position `|b|`; and unpacking the
    packed tree gives the tree. -/
theorem decode_encode {n : Node} (hn : Canonical n) {b : Bytes} (hb : encode n = .ok b)
    (inflate : Bytes → Option Bytes) :
    (∀ s, readNodeRequired (b ++ s) = .ok (n, ⟨b ++ s, b.length⟩)) ∧
    ∃ p, pack n = .ok p ∧ unmarshal inflate p = .ok n := by
  have hb' : writeNode n = .ok b := hb
  have hp : pack n = .ok (0 :: b) := by
    unfold pack
    rw [Result.ok_bind hb']
    rfl
  exact ⟨readNodeRequired_append hn hb', 0 :: b, hp, unmarshal_pack hn hp inflate⟩

/-- An `iq` to one device of an account, with one child. -/
def devicePing : Node :=
  ⟨"iq", SortedMap.empty.insert "to" "1961:56@s.whatsapp.net",
    .nodes [Node.new "ping"]⟩

theorem canonical_new {tag : String} (h : tag ≠ "") (h0 : tag ≠ "0") : Canonical (Node.new tag) :=
  .mk h h0 (fun _ he => nomatch he) (fun _ h => nomatch h) (fun _ h => nomatch h)

theorem canonical_devicePing : Canonical devicePing := by
  refine .mk (by decide) (by decide) (fun e he => ?_) (fun ns h => ?_) (fun ns h n hn => ?_)
  · have he' : e = ("to", "1961:56@s.whatsapp.net") := List.mem_singleton.mp he
    subst he'
    refine ⟨by decide, Or.inr ⟨"1961", 0, 56, by decide +kernel, ?_, by decide⟩⟩
    exact ⟨by decide, by decide, by decide, by decide⟩
  · cases h
    exact List.cons_ne_nil _ _
  · cases h
    have hn' : n = Node.new "ping" := List.mem_singleton.mp hn
    subst hn'
    exact canonical_new (by decide) (by decide)

theorem decode_encode_devicePing :
    readNodeRequired ([248, 4, 25, 17, 247, 0, 56, 239, 255, 248, 1, 248, 1, 86] ++ [9, 9]) =
      .ok (devicePing, ⟨[248, 4, 25, 17, 247, 0, 56, 239, 255, 248, 1, 248, 1, 86, 9, 9], 14⟩) :=
  (decode_encode canonical_devicePing (by decide +kernel) fun _ => none).1 [9, 9]

end Ruwa.Protocol.Binary
