/-
  File:      Ruwa/Media/Ogg.lean
  Subject:   THE LENGTH OF A VOICE NOTE (`media.rs`): `ogg_opus_duration_secs`, a walk over the page
             headers of an Ogg stream.

  A page is a header, a table of segment lengths and a body of the sum of these lengths. The walk
  reads the headers and jumps over the bodies, wherever that takes it, and it remembers the granule
  position of every header that it has read in full. So it neither notices a body that breaks off
  nor the granule position of a page on which no packet ends.

  * `exists_pages` -- every byte string is pages and then something that does not start with one;
  * `pages_unique` -- there is only one way to read it so;
  * `oggOpusDurationSecs_eq` -- what the walk returns, in these terms;
  * **`duration_promised_iff`** -- when that is what the documentation promises.
-/
import Ruwa.Library.Checked
import Ruwa.Library.Result
import Ruwa.Library.Scalars

namespace Ruwa.Media

open Ruwa.Library
open Ruwa.Library.Checked

/-! ## 1. The walk -/

/-- The rounds were not enough. -/
inductive Unfinished
  | unfinished
  deriving Repr, DecidableEq

def OPUS_RATE : Nat := 48000

/-- `OggS` -/
def capture : Bytes := [79, 103, 103, 83]

/-- `data[pos + lo..pos + hi]` -/
def field (data : Bytes) (pos lo hi : Nat) : Except (Stop Unfinished) Bytes := do
  let start ← add (.words64 1) pos lo
  let stop ← add (.words64 1) pos hi
  slice data start stop

/-- One round: where the next page starts, and the granule position of this one. -/
def readPage (data : Bytes) (pos : Nat) : Except (Stop Unfinished) (Option (Nat × Nat)) := do
  let fixed ← add (.words64 1) pos 27
  if data.length < fixed then return none
  else
    let mark ← field data pos 0 4
    if mark ≠ capture then return none
    else
      let granulePosition ← field data pos 6 14
      let pageSegments ← index data (← add (.words64 1) pos 26)
      let headerLen := 27 + pageSegments.toNat
      let body ← add (.words64 1) pos headerLen
      if data.length < body then return none
      else
        let segments ← field data pos 27 headerLen
        let next ← add (.words64 1) pos (headerLen + (segments.map UInt8.toNat).sum)
        return some (next, fromLE granulePosition)

/-- The granule position of the last header, after so many rounds. -/
def walk (data : Bytes) : Nat → Nat → Option Nat → Except (Stop Unfinished) (Option Nat)
  | 0, _, _ => .error (.err .unfinished)
  | rounds + 1, pos, lastGranule => do
      match ← readPage data pos with
      | none => return lastGranule
      | some (next, granulePosition) => walk data rounds next (some granulePosition)

/-- `(g / 48000).round() as u32`, which stays at the largest number for what is above it. On floating
    point numbers it is the same: below `2 ^ 53` the quotient is nearer to what it is than to the
    next half, and above the result is the largest number. -/
def seconds (g : Nat) : UInt32 := UInt32.ofNat (min ((g + OPUS_RATE / 2) / OPUS_RATE) (2 ^ 32 - 1))

def oggOpusDurationSecs (rounds : Nat) (data : Bytes) : Except (Stop Unfinished) (Option UInt32) := do
  return (← walk data rounds 0 none).map seconds

/-! ## 2. Pages -/

/-- No packet ends on this page. -/
def NO_PACKET : Nat := 2 ^ 64 - 1

/-- The version and the type of a page, its granule position, its serial number, sequence number and
    checksum, and the lengths of its segments. -/
@[ext] structure PageHeader where
  flags : U8Array 2
  granulePosition : U8Array 8
  ids : U8Array 12
  segments : Bytes
  segments_le : segments.length ≤ 255

namespace PageHeader

def encode (h : PageHeader) : Bytes :=
  capture ++ (h.flags.bytes ++ (h.granulePosition.bytes ++ (h.ids.bytes ++
    (UInt8.ofNat h.segments.length :: h.segments))))

def granule (h : PageHeader) : Nat := fromLE h.granulePosition.bytes

def bodyLength (h : PageHeader) : Nat := (h.segments.map UInt8.toNat).sum

end PageHeader

/-- A complete page. -/
@[ext] structure Page extends PageHeader where
  body : Bytes
  length_body : body.length = toPageHeader.bodyLength

def Page.encode (p : Page) : Bytes := p.toPageHeader.encode ++ p.body

def stream (pages : List Page) : Bytes := pages.flatMap Page.encode

/-! ## 3. One header -/

variable {data pre rest : Bytes}

/-- The number of segments is the byte that says it. -/
theorem PageHeader.toNat_count (h : PageHeader) :
    (UInt8.ofNat h.segments.length).toNat = h.segments.length := by
  rw [UInt8.toNat_ofNat']
  exact Nat.mod_eq_of_lt (Nat.lt_succ_of_le h.segments_le)

theorem PageHeader.length_encode (h : PageHeader) : h.encode.length = 27 + h.segments.length := by
  simp only [PageHeader.encode, capture, List.length_append, U8Array.length_bytes, List.length_cons,
    List.length_nil]
  omega

theorem sum_toNat_le (bs : Bytes) : (bs.map UInt8.toNat).sum ≤ 255 * bs.length := by
  induction bs with
  | nil => exact Nat.zero_le _
  | cons b bs ih =>
      have := b.toNat_lt
      simp only [List.map_cons, List.sum_cons, List.length_cons]
      omega

/-- A body has at most 255 segments of 255 bytes. -/
theorem PageHeader.bodyLength_le (h : PageHeader) : h.bodyLength ≤ 255 * 255 :=
  Nat.le_trans (sum_toNat_le h.segments) (Nat.mul_le_mul_left 255 h.segments_le)

theorem add_word {a b : Nat} (h : a + b < 2 ^ 64) :
    (add (.words64 1) a b : Except (Stop Unfinished) Nat) = .ok (a + b) :=
  add_ok (decide_eq_true h)

/-- A slice that the data is written with. -/
theorem field_ok {a b c : Bytes} {lo hi : Nat} (hlo : a.length = lo) (hhi : lo + b.length = hi)
    (hlen : pre.length + hi < 2 ^ 64) :
    field (pre ++ (a ++ (b ++ c))) pre.length lo hi = .ok b := by
  subst hlo hhi
  have hslice := @slice_ok Unfinished _ (pre ++ (a ++ (b ++ c))) (pre.length + a.length)
    (pre.length + (a.length + b.length)) (by omega) (by simp only [List.length_append]; omega)
  have hcut : ((pre ++ (a ++ (b ++ c))).take (pre.length + (a.length + b.length))).drop
      (pre.length + a.length) = b := by
    have hsplit : pre ++ (a ++ (b ++ c)) = pre ++ a ++ b ++ c := by simp
    rw [hsplit, List.take_left' (by simp), List.drop_left' (by simp)]
  rw [hcut] at hslice
  rw [field, add_word (by omega), add_word hlen]
  exact hslice

/-- **A round, on anything that is long enough for the fixed part of a header.** -/
theorem readPage_eq (pre : Bytes) (mark : U8Array 4) (flags : U8Array 2) (granule : U8Array 8) (ids : U8Array 12)
    (count : UInt8) (tail : Bytes)
    (hdata : data = pre ++ (mark.bytes ++ (flags.bytes ++ (granule.bytes ++ (ids.bytes ++
      count :: tail)))))
    (hlen : data.length ≤ isizeMax) :
    readPage data pre.length = .ok
      (if mark.bytes = capture ∧ count.toNat ≤ tail.length then
        some (pre.length + (27 + count.toNat + ((tail.take count.toNat).map UInt8.toNat).sum),
          fromLE granule.bytes)
      else none) := by
  have hsize : data.length = pre.length + 27 + tail.length := by
    rw [hdata]
    simp only [List.length_append, U8Array.length_bytes, List.length_cons]
    omega
  have hcount := count.toNat_lt
  have hmax : isizeMax = 2 ^ 63 - 1 := rfl
  have hmark : field data pre.length 0 4 = .ok mark.bytes := by
    rw [hdata]
    exact field_ok (a := []) rfl (by simp) (by omega)
  have hgranule : field data pre.length 6 14 = .ok granule.bytes := by
    rw [hdata, ← List.append_assoc mark.bytes]
    exact field_ok (by simp) (by simp) (by omega)
  have hindex : (index data (pre.length + 26) : Except (Stop Unfinished) UInt8) = .ok count := by
    have hsplit : data = (pre ++ (mark.bytes ++ (flags.bytes ++ (granule.bytes ++ ids.bytes)))) ++
        count :: tail := by
      rw [hdata]
      simp
    have hpos : pre.length + 26 =
        (pre ++ (mark.bytes ++ (flags.bytes ++ (granule.bytes ++ ids.bytes)))).length := by simp
    rw [hsplit, hpos]
    exact index_append _ count tail
  rw [readPage, Result.ok_bind (add_word (by omega)), if_neg (by omega), Result.ok_bind hmark]
  by_cases hcapture : mark.bytes = capture
  · rw [if_neg (not_not.mpr hcapture), Result.ok_bind hgranule, Result.ok_bind (add_word (by omega)),
      Result.ok_bind hindex, Result.ok_bind (add_word (by omega))]
    by_cases htable : count.toNat ≤ tail.length
    · have hsegments : field data pre.length 27 (27 + count.toNat) = .ok (tail.take count.toNat) := by
        have hsplit : data = pre ++ ((mark.bytes ++ (flags.bytes ++ (granule.bytes ++ (ids.bytes ++
            [count])))) ++ (tail.take count.toNat ++ tail.drop count.toNat)) := by
          rw [hdata, List.take_append_drop]
          simp
        rw [hsplit]
        exact field_ok (by simp) (by rw [List.length_take, Nat.min_eq_left htable]) (by omega)
      have hbody : ((tail.take count.toNat).map UInt8.toNat).sum ≤ 255 * 255 := by
        refine Nat.le_trans (sum_toNat_le _) (Nat.mul_le_mul_left 255 ?_)
        rw [List.length_take]
        omega
      rw [if_neg (by omega), Result.ok_bind hsegments, Result.ok_bind (add_word (by omega)),
        if_pos ⟨hcapture, htable⟩]
      rfl
    · rw [if_pos (by omega), if_neg fun h => htable h.2]
      rfl
  · rw [if_pos hcapture, if_neg fun h => hcapture h.1]
    rfl

theorem readPage_past {pos : Nat} (h : data.length < pos + 27) (hpos : pos + 27 < 2 ^ 64) :
    readPage data pos = .ok none := by
  rw [readPage, Result.ok_bind (add_word hpos), if_pos h]
  rfl

/-- Of a header, the next page is behind its body, wherever that is. -/
theorem readPage_header (pre rest : Bytes) (h : PageHeader) (hdata : data = pre ++ (h.encode ++ rest))
    (hlen : data.length ≤ isizeMax) :
    readPage data pre.length =
      .ok (some (pre.length + (h.encode.length + h.bodyLength), h.granule)) := by
  have hround := readPage_eq pre ⟨capture, rfl⟩ h.flags h.granulePosition h.ids
    (UInt8.ofNat h.segments.length) (h.segments ++ rest)
    (by rw [hdata, PageHeader.encode]; simp only [List.append_assoc, List.cons_append]; rfl) hlen
  rw [h.toNat_count, if_pos ⟨rfl, by simp⟩, List.take_left] at hround
  rw [hround, h.length_encode]
  rfl

theorem exists_take {n : Nat} {bs : Bytes} (h : n ≤ bs.length) :
    ∃ (a : U8Array n) (rest : Bytes), bs = a.bytes ++ rest :=
  ⟨⟨bs.take n, List.length_take_of_le h⟩, bs.drop n, (List.take_append_drop n bs).symm⟩

/-- What is long enough for the fixed part of a header. -/
theorem exists_fixed {bs : Bytes} (h : 27 ≤ bs.length) :
    ∃ (mark : U8Array 4) (flags : U8Array 2) (granule : U8Array 8) (ids : U8Array 12)
      (count : UInt8) (tail : Bytes),
      bs = mark.bytes ++ (flags.bytes ++ (granule.bytes ++ (ids.bytes ++ count :: tail))) := by
  obtain ⟨mark, bs₁, rfl⟩ := exists_take (n := 4) (Nat.le_trans (by decide) h)
  rw [List.length_append, mark.length_bytes] at h
  obtain ⟨flags, bs₂, rfl⟩ : ∃ (a : U8Array 2) (rest : Bytes), bs₁ = a.bytes ++ rest :=
    exists_take (by omega)
  rw [List.length_append, flags.length_bytes] at h
  obtain ⟨granule, bs₃, rfl⟩ : ∃ (a : U8Array 8) (rest : Bytes), bs₂ = a.bytes ++ rest :=
    exists_take (by omega)
  rw [List.length_append, granule.length_bytes] at h
  obtain ⟨ids, bs₄, rfl⟩ : ∃ (a : U8Array 12) (rest : Bytes), bs₃ = a.bytes ++ rest :=
    exists_take (by omega)
  rw [List.length_append, ids.length_bytes] at h
  obtain ⟨count, tail, rfl⟩ := List.exists_cons_of_length_pos (l := bs₄) (by omega)
  exact ⟨mark, flags, granule, ids, count, tail, rfl⟩

/-- Where there is no header, the walk ends. -/
theorem readPage_none (hdata : data = pre ++ rest) (hlen : data.length ≤ isizeMax)
    (hno : ¬∃ h : PageHeader, h.encode <+: rest) : readPage data pre.length = .ok none := by
  have hmax : isizeMax = 2 ^ 63 - 1 := rfl
  have hsize : data.length = pre.length + rest.length := by rw [hdata, List.length_append]
  by_cases hshort : rest.length < 27
  · exact readPage_past (by omega) (by omega)
  · obtain ⟨mark, flags, granule, ids, count, tail, hrest⟩ := exists_fixed (Nat.le_of_not_lt hshort)
    rw [readPage_eq pre mark flags granule ids count tail (by rw [hdata, hrest]) hlen, if_neg]
    rintro ⟨hcapture, htable⟩
    have hcount := count.toNat_lt
    have hlength : (tail.take count.toNat).length = count.toNat := List.length_take_of_le htable
    refine hno ⟨⟨flags, granule, ids, tail.take count.toNat, by omega⟩, tail.drop count.toNat, ?_⟩
    have hencode : UInt8.ofNat (tail.take count.toNat).length = count := by
      rw [hlength, UInt8.ofNat_toNat]
    simp only [PageHeader.encode, hrest, hcapture, hencode, List.append_assoc, List.cons_append,
      List.take_append_drop]

/-! ## 4. One way to read it -/

theorem PageHeader.encode_inj {h h' : PageHeader} {a b : Bytes}
    (heq : h.encode ++ a = h'.encode ++ b) : h = h' ∧ a = b := by
  simp only [PageHeader.encode, List.append_assoc, List.cons_append] at heq
  obtain ⟨-, heq⟩ := List.append_inj heq rfl
  obtain ⟨hflags, heq⟩ := List.append_inj heq (by simp)
  obtain ⟨hgranule, heq⟩ := List.append_inj heq (by simp)
  obtain ⟨hids, heq⟩ := List.append_inj heq (by simp)
  obtain ⟨hcount, heq⟩ := List.cons.inj heq
  have hlength : h.segments.length = h'.segments.length := by
    rw [← h.toNat_count, hcount, h'.toNat_count]
  obtain ⟨hsegments, hrest⟩ := List.append_inj heq hlength
  exact ⟨PageHeader.ext (U8Array.ext hflags) (U8Array.ext hgranule) (U8Array.ext hids) hsegments, hrest⟩

theorem Page.encode_inj {p p' : Page} {a b : Bytes} (heq : p.encode ++ a = p'.encode ++ b) :
    p = p' ∧ a = b := by
  rw [Page.encode, Page.encode, List.append_assoc, List.append_assoc] at heq
  obtain ⟨hheader, heq⟩ := PageHeader.encode_inj heq
  obtain ⟨header, body, hbody⟩ := p
  obtain ⟨header', body', hbody'⟩ := p'
  cases hheader
  obtain ⟨rfl, hrest⟩ := List.append_inj heq (hbody.trans hbody'.symm)
  exact ⟨rfl, hrest⟩

/-- It does not start with a complete page. -/
def Pageless (rest : Bytes) : Prop := ¬∃ p : Page, p.encode <+: rest

theorem stream_cons (p : Page) (pages : List Page) : stream (p :: pages) = p.encode ++ stream pages :=
  rfl

theorem Page.length_encode (p : Page) : 27 ≤ p.encode.length := by
  rw [Page.encode, List.length_append, PageHeader.length_encode]
  omega

theorem pageless_nil : Pageless [] := by
  rintro ⟨p, hp⟩
  have hpos := p.length_encode
  rw [List.prefix_nil.mp hp] at hpos
  cases hpos

/-- **Pages, and then something that does not start with one.** -/
theorem exists_pages (data : Bytes) : ∃ pages rest, data = stream pages ++ rest ∧ Pageless rest := by
  induction hn : data.length using Nat.strongRecOn generalizing data with
  | ind n ih =>
    by_cases hpage : Pageless data
    · exact ⟨[], data, rfl, hpage⟩
    · obtain ⟨p, rest, rfl⟩ := not_not.mp hpage
      have hpos := p.length_encode
      rw [List.length_append] at hn
      obtain ⟨pages, rest', rfl, hrest⟩ := ih rest.length (by omega) rest rfl
      exact ⟨p :: pages, rest', by rw [stream_cons, List.append_assoc], hrest⟩

/-- **There is one way to read it so.** -/
theorem pages_unique {pages pages' : List Page} {rest rest' : Bytes} (hrest : Pageless rest)
    (hrest' : Pageless rest') (h : stream pages ++ rest = stream pages' ++ rest') :
    pages = pages' ∧ rest = rest' := by
  induction pages generalizing pages' with
  | nil =>
      cases pages' with
      | nil => exact ⟨rfl, h⟩
      | cons p pages' =>
          refine absurd ⟨p, stream pages' ++ rest', ?_⟩ hrest
          rw [← List.append_assoc, ← stream_cons]
          exact h.symm
  | cons p pages ih =>
      cases pages' with
      | nil =>
          refine absurd ⟨p, stream pages ++ rest, ?_⟩ hrest'
          rw [← List.append_assoc, ← stream_cons]
          exact h
      | cons p' pages' =>
          rw [stream_cons, stream_cons, List.append_assoc, List.append_assoc] at h
          obtain ⟨rfl, htail⟩ := Page.encode_inj h
          obtain ⟨rfl, rfl⟩ := ih htail
          exact ⟨rfl, rfl⟩

/-! ## 5. The whole walk -/

theorem walk_next {pos next granule : Nat} (h : readPage data pos = .ok (some (next, granule)))
    (rounds : Nat) (last : Option Nat) :
    walk data (rounds + 1) pos last = walk data rounds next (some granule) := by
  rw [walk, Result.ok_bind h]

theorem walk_end {pos : Nat} (h : readPage data pos = .ok none) (rounds : Nat) (last : Option Nat) :
    walk data (rounds + 1) pos last = .ok last := by
  rw [walk, Result.ok_bind h]
  rfl

/-- The walk over complete pages. -/
theorem walk_pages (pre : Bytes) (pages : List Page) (hdata : data = pre ++ (stream pages ++ rest))
    (hlen : data.length ≤ isizeMax) (rounds : Nat) (last : Option Nat) :
    walk data (pages.length + rounds) pre.length last =
      walk data rounds (pre.length + (stream pages).length)
        ((pages.getLast?.map fun p => p.granule).or last) := by
  induction pages generalizing pre last with
  | nil =>
      rw [List.length_nil, Nat.zero_add]
      rfl
  | cons p pages ih =>
      have hround := readPage_header pre (p.body ++ (stream pages ++ rest)) p.toPageHeader
        (by rw [hdata, stream_cons, Page.encode]; simp only [List.append_assoc]) hlen
      have hnext : pre.length + (p.toPageHeader.encode.length + p.bodyLength) =
          (pre ++ p.encode).length := by
        rw [List.length_append, Page.encode, List.length_append, p.length_body]
      have hrest := ih (pre ++ p.encode)
        (by rw [hdata, stream_cons]; simp only [List.append_assoc]) (some p.granule)
      have hlast : ((pages.getLast?.map fun p => p.granule).or (some p.granule)) =
          (((p :: pages).getLast?.map fun p => p.granule).or last) := by
        rw [List.getLast?_cons]
        cases pages.getLast? <;> rfl
      rw [List.length_cons, Nat.add_right_comm, walk_next hround, hnext, hrest, hlast, stream_cons, List.length_append, List.length_append, Nat.add_assoc]

/-- Every page takes a round, and 27 bytes at least. -/
theorem length_stream (pages : List Page) : 27 * pages.length ≤ (stream pages).length := by
  induction pages with
  | nil => exact Nat.zero_le _
  | cons p pages ih =>
      have hp := p.length_encode
      rw [stream_cons, List.length_append, List.length_cons]
      omega

/-- **What the walk returns**: the granule position of a header that its body does not follow, if
    there is one behind the pages, and else that of the last page. -/
theorem oggOpusDurationSecs_eq {pages : List Page} (hdata : data = stream pages ++ rest)
    (hlen : data.length ≤ isizeMax) {rounds : Nat} (hrounds : data.length < rounds) :
    (∀ h : PageHeader, h.encode <+: rest → Pageless rest →
      oggOpusDurationSecs rounds data = .ok (some (seconds h.granule))) ∧
    ((¬∃ h : PageHeader, h.encode <+: rest) →
      oggOpusDurationSecs rounds data = .ok (pages.getLast?.map fun p => seconds p.granule)) := by
  have hmax : isizeMax = 2 ^ 63 - 1 := rfl
  have hpages := length_stream pages
  have hsize : data.length = (stream pages).length + rest.length := by
    rw [hdata, List.length_append]
  refine ⟨?_, ?_⟩
  · rintro h ⟨tail, rfl⟩ hpageless
    rw [List.length_append, h.length_encode] at hsize
    obtain ⟨more, rfl⟩ : ∃ more, rounds = pages.length + (more + 1 + 1) :=
      ⟨rounds - pages.length - 2, by omega⟩
    -- the body is not all there, so the next round is past the end
    have hshort : tail.length < h.bodyLength := by
      refine Nat.lt_of_not_le fun hle => hpageless ⟨⟨h, tail.take h.bodyLength, ?_⟩, ?_⟩
      · exact List.length_take_of_le hle
      · refine ⟨tail.drop h.bodyLength, ?_⟩
        rw [Page.encode, List.append_assoc, List.take_append_drop]
    have hbody := h.bodyLength_le
    have hround := readPage_header (stream pages) tail h hdata hlen
    have hpast : readPage data ((stream pages).length + (h.encode.length + h.bodyLength)) = .ok none :=
      readPage_past (by rw [h.length_encode]; omega) (by rw [h.length_encode]; omega)
    have hzero : 0 = ([] : Bytes).length := rfl
    rw [oggOpusDurationSecs, hzero,
      walk_pages [] pages hdata hlen, List.length_nil, Nat.zero_add,
      walk_next hround, walk_end hpast]
    rfl
  · intro hno
    obtain ⟨more, rfl⟩ : ∃ more, rounds = pages.length + (more + 1) :=
      ⟨rounds - pages.length - 1, by omega⟩
    have hzero : 0 = ([] : Bytes).length := rfl
    rw [oggOpusDurationSecs, hzero,
      walk_pages [] pages hdata hlen, List.length_nil, Nat.zero_add,
      walk_end (readPage_none hdata hlen hno)]
    cases pages.getLast? <;> rfl

/-! ## 6. What is promised -/

/-- The last granule position of a page on which a packet ends. -/
def lastPacket (pages : List Page) : Option Nat :=
  ((pages.map fun p => p.granule).filter fun g => decide (g ≠ NO_PACKET)).getLast?

/-- The seconds of that position for a stream, and nothing for what is none. -/
structure Promised (data : Bytes) (r : Option UInt32) : Prop where
  pages : ∀ pages, data = stream pages → (lastPacket pages = none → r = none) ∧
    ∀ g, lastPacket pages = some g → g < 2 ^ 47 → r = some (seconds g)
  other : (¬∃ pages, data = stream pages) → r = none

/-- A stream does not end with a page on which no packet ends, unless the last position before it is
    not a time; and what is no stream does not start with a header. -/
structure ReadsWell (data : Bytes) : Prop where
  pages : ∀ pages, data = stream pages → ∀ p, pages.getLast? = some p → p.granule = NO_PACKET →
    ∃ g, lastPacket pages = some g ∧ 2 ^ 47 ≤ g
  other : (¬∃ pages, data = stream pages) → ¬∃ h : PageHeader, h.encode <+: data

theorem lastPacket_of_last {pages : List Page} {p : Page} (h : pages.getLast? = some p)
    (hp : p.granule ≠ NO_PACKET) : lastPacket pages = some p.granule := by
  obtain ⟨front, rfl⟩ := List.getLast?_eq_some_iff.mp h
  rw [lastPacket, List.map_append, List.filter_append, List.map_singleton,
    List.filter_cons_of_pos (by simpa using hp), List.filter_nil, List.getLast?_append]
  rfl

/-- A position that is a time has other seconds than the mark for no packet. -/
theorem seconds_ne {g : Nat} (h : g < 2 ^ 47) : seconds g ≠ seconds NO_PACKET := by
  intro heq
  have hvalue := congrArg UInt32.toNat heq
  have hmark : (seconds NO_PACKET).toNat = 2 ^ 32 - 1 := by decide
  have hsmall : min ((g + OPUS_RATE / 2) / OPUS_RATE) (2 ^ 32 - 1) < 2 ^ 32 - 1 := by
    unfold OPUS_RATE
    omega
  rw [hmark, seconds, UInt32.toNat_ofNat', Nat.mod_eq_of_lt (by omega)] at hvalue
  exact absurd hvalue (Nat.ne_of_lt hsmall)

/-- For a stream, and the seconds of its last page. -/
theorem promised_stream_iff {pages : List Page} (hdata : data = stream pages) :
    Promised data (pages.getLast?.map fun p => seconds p.granule) ↔ ReadsWell data := by
  have hsame : ∀ pages', data = stream pages' → pages' = pages := by
    intro pages' hdata'
    refine (pages_unique pageless_nil pageless_nil ?_).1
    rw [List.append_nil, List.append_nil, ← hdata', hdata]
  have hstream : ∃ pages, data = stream pages := ⟨pages, hdata⟩
  constructor
  · rintro ⟨hpages, -⟩
    refine ⟨?_, fun hno => absurd hstream hno⟩
    intro pages' hdata' p hlast hp
    cases hsame pages' hdata'
    obtain ⟨hnone, hsome⟩ := hpages pages hdata
    rw [hlast, Option.map_some] at hnone hsome
    cases hpacket : lastPacket pages with
    | none => cases hnone hpacket
    | some g =>
        refine ⟨g, rfl, Nat.le_of_not_lt fun hlt => seconds_ne hlt ?_⟩
        rw [← Option.some.inj (hsome g hpacket hlt), hp]
  · rintro ⟨hpages, -⟩
    refine ⟨?_, fun hno => absurd hstream hno⟩
    intro pages' hdata'
    cases hsame pages' hdata'
    cases hlast : pages.getLast? with
    | none =>
        rw [List.getLast?_eq_none_iff.mp hlast]
        refine ⟨fun _ => rfl, fun g hg => ?_⟩
        cases hg
    | some p =>
        by_cases hp : p.granule = NO_PACKET
        · obtain ⟨g, hg, hlarge⟩ := hpages pages hdata p hlast hp
          rw [hg]
          refine ⟨fun hnone => absurd hnone (Option.some_ne_none g), fun g' hg' hlt => ?_⟩
          cases hg'
          exact absurd hlt (Nat.not_lt.mpr hlarge)
        · rw [lastPacket_of_last hlast hp]
          refine ⟨fun hnone => absurd hnone (Option.some_ne_none p.granule), fun g' hg' _ => ?_⟩
          cases hg'
          rfl

theorem no_header_nil : ¬∃ h : PageHeader, h.encode <+: [] := by
  rintro ⟨h, hprefix⟩
  have hlen := h.length_encode
  rw [List.prefix_nil.mp hprefix, List.length_nil] at hlen
  omega

/-- Where a header stands at the front: that of the first page, or one behind no page. -/
theorem header_prefix_iff {pages : List Page} :
    (∃ h : PageHeader, h.encode <+: stream pages ++ rest) ↔
      pages ≠ [] ∨ ∃ h : PageHeader, h.encode <+: rest := by
  cases pages with
  | nil => simp [stream]
  | cons p pages =>
      refine iff_of_true ⟨p.toPageHeader, p.body ++ (stream pages ++ rest), ?_⟩ (.inl (by simp))
      rw [stream_cons, Page.encode]
      simp only [List.append_assoc]

/-- For what is no stream, and a result that is there if a header is. -/
theorem promised_other_iff {r : Option UInt32} (hno : ¬∃ pages, data = stream pages)
    (hr : r = none ↔ ¬∃ h : PageHeader, h.encode <+: data) : Promised data r ↔ ReadsWell data := by
  constructor
  · exact fun h => ⟨fun pages hdata => absurd ⟨pages, hdata⟩ hno, fun _ => hr.mp (h.other hno)⟩
  · exact fun h => ⟨fun pages hdata => absurd ⟨pages, hdata⟩ hno, fun _ => hr.mpr (h.other hno)⟩

/-- **The walk ends in time, stays within the data, and returns what is promised exactly when** a
    stream does not end with a page on which no packet ends, and what is no stream does not start
    with a page header. -/
theorem duration_promised_iff (data : Bytes) (h : data.length ≤ isizeMax) :
    ∃ r, (∀ rounds, data.length < rounds → oggOpusDurationSecs rounds data = .ok r) ∧
      (Promised data r ↔ ReadsWell data) := by
  obtain ⟨pages, rest, hdata, hrest⟩ := exists_pages data
  by_cases hnil : rest = []
  · subst hnil
    refine ⟨_, fun rounds hrounds => (oggOpusDurationSecs_eq hdata h hrounds).2 no_header_nil, ?_⟩
    exact promised_stream_iff (hdata.trans (List.append_nil _))
  · have hother : ¬∃ pages, data = stream pages := by
      rintro ⟨pages', hdata'⟩
      have hsplit : stream pages' ++ [] = stream pages ++ rest := by
        rw [List.append_nil, ← hdata', hdata]
      exact hnil (pages_unique pageless_nil hrest hsplit).2.symm
    by_cases hheader : ∃ h : PageHeader, h.encode <+: rest
    · obtain ⟨header, hprefix⟩ := hheader
      refine ⟨_, fun rounds hrounds =>
        (oggOpusDurationSecs_eq hdata h hrounds).1 header hprefix hrest, ?_⟩
      refine promised_other_iff hother (iff_of_false (by simp) (not_not.mpr ?_))
      rw [hdata]
      exact header_prefix_iff.mpr (.inr ⟨header, hprefix⟩)
    · refine ⟨_, fun rounds hrounds => (oggOpusDurationSecs_eq hdata h hrounds).2 hheader, ?_⟩
      refine promised_other_iff hother ?_
      rw [hdata, header_prefix_iff, Option.map_eq_none_iff, List.getLast?_eq_none_iff]
      simp [hheader]

/-! ## 7. Two streams -/

namespace Known

/-- A page without a body. -/
def page (granule : Nat) : Page where
  flags := U8Array.replicate 2 0
  granulePosition := ⟨toLE 8 granule, length_toLE 8 granule⟩
  ids := U8Array.replicate 12 0
  segments := []
  segments_le := Nat.zero_le _
  body := []
  length_body := rfl

/-- Three seconds. -/
def short : List Page := [page 144000]

/-- Three seconds, and a page on which no packet ends. -/
def openEnded : List Page := [page 144000, page NO_PACKET]

end Known

/-- The three seconds are read. -/
theorem short_note_promised : Promised (stream Known.short) (some 3) := by
  obtain ⟨r, hrun, hiff⟩ := duration_promised_iff (stream Known.short) (by decide)
  have hread : oggOpusDurationSecs 30 (stream Known.short) = .ok (some 3) := by decide +kernel
  cases (hrun 30 (by decide)).symm.trans hread
  refine hiff.mpr ⟨?_, fun hno => absurd ⟨_, rfl⟩ hno⟩
  intro pages hpages p hlast hp
  have hsame : stream pages ++ [] = stream Known.short ++ [] := by
    rw [List.append_nil, List.append_nil, hpages]
  cases (pages_unique pageless_nil pageless_nil hsame).1
  cases hlast
  exact absurd hp (by decide)

/-- With a last page on which no packet ends, they are the largest number. -/
theorem open_ended_note_wrong :
    ¬∀ (data : Bytes) (r : Option UInt32), data.length ≤ isizeMax →
      (∀ rounds, data.length < rounds → oggOpusDurationSecs rounds data = .ok r) →
      Promised data r := by
  intro h
  have hlen : (stream Known.openEnded).length ≤ isizeMax := by decide
  have hread : ∀ rounds, (stream Known.openEnded).length < rounds →
      oggOpusDurationSecs rounds (stream Known.openEnded) = .ok (some (seconds NO_PACKET)) :=
    fun rounds hrounds =>
      (oggOpusDurationSecs_eq (List.append_nil _).symm hlen hrounds).2 no_header_nil
  have hseconds := ((h _ _ hlen hread).pages Known.openEnded rfl).2 144000 (by decide) (by decide)
  exact absurd hseconds (by decide)

end Ruwa.Media
