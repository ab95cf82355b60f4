/-
  File:      Ruwa/Egress/Replies.lean
  Subject:   REPLIES FROM A STREAM (`egress.rs`, `read_one_reply`): what a connection that cuts its
             bytes anywhere gives.

  * `encodeCommand_spelled` -- a command is an array of bulk strings;
  * `parseReply_spelled_iff`, `parseReply_short_iff` -- the parser on a reply and on a part of one;
  * `readReplies_stream_iff` -- the calls give the replies, by induction on the reads;
  * **`resp_codec_iff`** -- all of this, on a machine with 64-bit words.

  A reply is one that can be spelled without bounds. A machine does the same with it or it panics
  (`parseReply_agrees`), and it panics at an array it cannot reserve room for.
-/
import Ruwa.Egress.RespSafety

namespace Ruwa.Egress

open Ruwa.Library Ruwa.Library.Checked

/-! ## 1. The source -/

/-- What one `read` of the stream gives. No bytes are the end of the stream. -/
inductive Read
  | bytes (chunk : Bytes)
  | failed (text : String)

/-- How a call of `read_one_reply` ends, with what is left in the buffer and on the stream. -/
inductive ReadOutcome
  | reply (v : RespValue) (buf : Bytes) (reads : List Read)
  | transport (text : String)
  | panicked (p : Panic)
  /-- It waits for a read that does not come. -/
  | waits

/-- Reads until the buffer has a whole reply at its front. -/
def readOneReply (m : Memory) (buf : Bytes) (reads : List Read) : ReadOutcome :=
  match parseReply m buf with
  | .ok (v, consumed) => .reply v (buf.drop consumed) reads
  | .error (.panic p) => .panicked p
  | .error (.err (.protocol text)) => .transport text
  | .error (.err .incomplete) =>
      match reads with
      | [] => .waits
      | .failed text :: _ => .transport text
      | .bytes chunk :: reads =>
          if chunk = [] then .transport "redis closed the connection"
          else readOneReply m (buf ++ chunk) reads

/-- One call after the other, until one of them gives no reply. -/
def readReplies (m : Memory) : Nat → Bytes → List Read → Option (List RespValue × Bytes × List Read)
  | 0, buf, reads => some ([], buf, reads)
  | calls + 1, buf, reads =>
      match readOneReply m buf reads with
      | .reply v buf reads =>
          (readReplies m calls buf reads).map fun (vs, left) => (v :: vs, left)
      | _ => none

/-! ## 2. Commands -/

theorem digit_range {c : Char} (h : c.isDigit = true) : 48 ≤ c.toNat ∧ c.toNat ≤ 57 := by
  unfold Char.isDigit at h
  rw [Bool.and_eq_true, decide_eq_true_eq, decide_eq_true_eq] at h
  exact ⟨UInt32.le_iff_toNat_le.mp h.1, UInt32.le_iff_toNat_le.mp h.2⟩

theorem not_blank_of_isDigit {c : Char} (h : c.isDigit = true) : Text.isWhitespace c = false := by
  obtain ⟨hlo, hhi⟩ := digit_range h
  simp [Text.isWhitespace]
  omega

/-- The decimal digits of a number, as bytes. -/
theorem utf8_decimal (n : Nat) :
    utf8 (String.ofList (Text.decimal n)) =
      (Text.decimal n).map fun c => UInt8.ofNat c.toNat :=
  utf8_ofList_ascii fun _ hc => Nat.lt_of_le_of_lt (digit_range (Text.mem_decimal hc)).2 (by decide)

/-- A mark and a number, as a command has them. -/
theorem utf8_count {mark : Char} (hmark : mark.toNat < 128) (n : Nat) :
    utf8 (String.ofList (mark :: Text.decimal n)) ++ crlf =
      header (UInt8.ofNat mark.toNat) (utf8 (String.ofList (Text.decimal n))) := by
  rw [utf8_decimal, utf8_ofList_ascii]
  · rfl
  · intro c hc
    rcases List.mem_cons.mp hc with rfl | hc
    · exact hmark
    · exact Nat.lt_of_le_of_lt (digit_range (Text.mem_decimal hc)).2 (by decide)

theorem parseI64_digits {cs : List Char} {n : Nat} (hne : cs ≠ [])
    (h : ∀ c ∈ cs, c.isDigit = true) (hn : Text.digits? cs = some n) (hlt : n < 2 ^ 63) :
    parseI64 cs = some (n : Int) := by
  unfold parseI64
  split
  · exact absurd (h '-' List.mem_cons_self) (by decide)
  · exact absurd (h '+' List.mem_cons_self) (by decide)
  · dsimp only
    rw [if_neg hne, hn, Option.filter_some, if_pos (decide_eq_true hlt)]
    rfl

/-- **A number that was written in decimal is read back.** -/
theorem lineInt_decimal {n : Nat} (h : n < 2 ^ 63) :
    lineInt (utf8 (String.ofList (Text.decimal n))) = some (n : Int) := by
  have hblank : ∀ c ∈ Text.decimal n, Text.isWhitespace c = false :=
    fun c hc => not_blank_of_isDigit (Text.mem_decimal hc)
  unfold lineInt
  rw [ofUtf8?_utf8, Option.bind_some, String.toList_ofList, Text.trim_of_all_not hblank]
  exact parseI64_digits Nat.toDigits_ne_nil (fun c hc => Text.mem_decimal hc)
    (Text.digits?_decimal n) h

theorem isLine_decimal (n : Nat) : IsLine (utf8 (String.ofList (Text.decimal n))) := by
  intro hin
  have hmem : (13 : UInt8) ∈ utf8 (String.ofList (Text.decimal n)) :=
    hin.subset List.mem_cons_self
  rw [utf8_decimal] at hmem
  obtain ⟨c, hc, h⟩ := List.mem_map.mp hmem
  obtain ⟨hlo, hhi⟩ := digit_range (Text.mem_decimal hc)
  have := congrArg UInt8.toNat h
  rw [UInt8.toNat_ofNat'] at this
  simp at this
  omega

/-- An argument is shorter than the command. -/
theorem length_lt_of_mem {args : List Bytes} {a : Bytes} (h : a ∈ args) :
    a.length < (encodeCommand args).length := by
  obtain ⟨before, behind, rfl⟩ := List.append_of_mem h
  simp only [encodeCommand, List.flatMap_append, List.flatMap_cons, List.length_append, crlf,
    List.length_cons]
  omega

/-- There are fewer arguments than bytes. -/
theorem length_lt_of_command {args : List Bytes} (h : (encodeCommand args).length < 2 ^ 63) :
    args.length < 2 ^ 63 := by
  have hle : args.length ≤ (args.flatMap fun a =>
      utf8 (String.ofList ('$' :: Text.decimal a.length)) ++ crlf ++ (a ++ crlf)).length := by
    clear h
    induction args with
    | nil => exact Nat.le_refl 0
    | cons a args ih =>
        rw [List.flatMap_cons, List.length_append, List.length_cons, Nat.add_comm]
        refine Nat.add_le_add ?_ ih
        simp only [List.length_append, crlf, List.length_cons]
        omega
  rw [encodeCommand, List.length_append] at h
  omega

theorem bulks_spelled {m : Memory} {args : List Bytes} (h : ∀ a ∈ args, a.length < 2 ^ 63) :
    Spells m (args.flatMap fun a =>
      utf8 (String.ofList ('$' :: Text.decimal a.length)) ++ crlf ++ (a ++ crlf))
      (args.map fun a => .bulk (some a)) := by
  induction args with
  | nil => exact .nil
  | cons a args ih =>
      have hrest := ih fun a' ha' => h a' (List.mem_cons_of_mem a ha')
      rw [List.flatMap_cons, utf8_count (by decide), List.append_assoc]
      exact .bulk (isLine_decimal _) (lineInt_decimal (h a List.mem_cons_self)) rfl hrest

/-- **A command is the spelling of the array of its arguments**, when it fits into a buffer. -/
theorem encodeCommand_spelled {m : Memory} {args : List Bytes}
    (h : (encodeCommand args).length < 2 ^ 63) (hvec : m.vec args.length = true) :
    Spells m (encodeCommand args) [.array (some (args.map fun a => .bulk (some a)))] := by
  have hbulks := bulks_spelled (m := m) fun a ha => Nat.lt_trans (length_lt_of_mem ha) h
  have hcount := length_lt_of_command h
  unfold encodeCommand
  rw [utf8_count (by decide)]
  have hone := Spells.array (m := m) (isLine_decimal args.length)
    (by rw [List.length_map]; exact lineInt_decimal hcount) (by rw [List.length_map]; exact hvec)
    hbulks .nil
  rwa [List.append_nil] at hone

/-! ## 3. Machines -/

section

variable (m : Memory)

theorem respLine_agrees (buf : Bytes) (pos : Nat) :
    Agrees (respLine m buf pos) (respLine .unbounded buf pos) := by
  unfold respLine
  split
  · exact .refl _
  · refine (Agrees.refl _).bind fun rest => ?_
    split
    · refine (Agrees.refl _).bind fun line => ?_
      exact (agrees_add m _ _).bind fun stop => (agrees_add m _ _).bind fun next => .refl _
    · exact .refl _

theorem readItems_agrees {parse parse' : Nat → Except (Stop RespError) (RespValue × Nat)}
    (h : ∀ p, Agrees (parse p) (parse' p)) (n p : Nat) :
    Agrees (readItems parse n p) (readItems parse' n p) := by
  induction n generalizing p with
  | zero => exact .refl _
  | succ n ih => exact (h p).bind fun found => (ih found.2).bind fun rest => .refl _

theorem respBody_agrees {parse parse' : Nat → Except (Stop RespError) (RespValue × Nat)}
    (h : ∀ p, Agrees (parse p) (parse' p)) (buf : Bytes) (kind : UInt8) (line : Bytes)
    (next : Nat) :
    Agrees (respBody m buf parse kind line next)
      (respBody .unbounded buf parse' kind line next) := by
  unfold respBody
  split
  · exact .refl _
  · exact .refl _
  · exact .refl _
  · refine (Agrees.refl _).bind fun len => ?_
    split
    · exact .refl _
    · exact (agrees_add m _ _).bind fun stop => (agrees_add m _ _).bind fun behind => .refl _
  · refine (Agrees.refl _).bind fun count => ?_
    split
    · exact .refl _
    · exact (agrees_withCapacity m _).bind fun _ =>
        (readItems_agrees h _ _).bind fun found => .refl _
  · exact .refl _

theorem respParseAt_agrees (buf : Bytes) (fuel pos : Nat) :
    Agrees (respParseAt m buf fuel pos) (respParseAt .unbounded buf fuel pos) := by
  induction fuel generalizing pos with
  | zero => exact .refl _
  | succ fuel ih =>
      rw [respParseAt, respParseAt]
      split
      · exact .refl _
      · refine (Agrees.refl _).bind fun kind => (agrees_add m _ _).bind fun after => ?_
        exact (respLine_agrees m buf after).bind fun found => respBody_agrees m ih buf kind _ _

/-- **A machine parses what can be parsed without bounds, or it panics.** -/
theorem parseReply_agrees (buf : Bytes) :
    Agrees (parseReply m buf) (parseReply .unbounded buf) :=
  respParseAt_agrees m buf _ 0

end

/-! ## 4. One parse -/

section

variable {m : Memory}

theorem readItems_one {parse : Nat → Except (Stop RespError) (RespValue × Nat)} {p : Nat} :
    readItems parse 1 p = (parse p >>= fun (v, q) => .ok ([v], q)) := rfl

/-- **A reply at the front of the buffer is parsed**, and takes what it has. -/
theorem parseReply_spelled {bs : Bytes} {v : RespValue} (h : Spells m bs [v]) (suf : Bytes)
    (hm : m.usize (bs ++ suf).length = true) :
    parseReply m (bs ++ suf) = .ok (v, bs.length) := by
  have hfuel : bs.length ≤ (bs ++ suf).length := by
    rw [List.length_append]
    exact Nat.le_add_right _ _
  have hread := readItems_spelled h hm [] suf rfl hfuel
  obtain ⟨⟨v', q⟩, hv, hread⟩ := Result.bind_ok.mp (readItems_one.symm.trans hread)
  cases hread
  exact hv

/-- Exactly if the machine has room for its arrays. -/
theorem parseReply_spelled_iff {bs : Bytes} {v : RespValue} (suf : Bytes)
    (hm : m.usize (bs ++ suf).length = true) :
    parseReply m (bs ++ suf) = .ok (v, bs.length) ↔ Spells m bs [v] := by
  refine ⟨fun h => ?_, fun h => parseReply_spelled h suf hm⟩
  obtain ⟨pre, bs', suf', heq, hpre, hlen, hspells⟩ := stands_of_respParseAt hm (Nat.zero_le _) h
  cases List.eq_nil_of_length_eq_zero hpre.symm
  rw [List.nil_append] at heq hlen
  obtain ⟨rfl, -⟩ := List.append_inj heq hlen
  exact hspells

/-- **A part of a reply is incomplete.** -/
theorem parseReply_short {bs cut : Bytes} {v : RespValue} (h : Spells m bs [v]) (hcut : cut <+: bs)
    (hlt : cut.length < bs.length) (hm : m.usize bs.length = true) :
    parseReply m cut = .error (.err .incomplete) := by
  have hread := readItems_short h (m.usize_mono (Nat.le_of_lt hlt) hm) [] cut rfl hcut hlt hm
    (Nat.le_refl _)
  have hone := readItems_one.symm.trans hread
  unfold parseReply
  cases hv : respParseAt m cut cut.length 0 with
  | error stop =>
      rw [List.length_nil, hv] at hone
      exact congrArg Except.error (Except.error.inj hone)
  | ok found =>
      rw [List.length_nil, hv] at hone
      cases hone

/-- Exactly if it does not reach a header that announces too much. -/
theorem parseReply_short_iff {bs cut : Bytes} {v : RespValue} (h : Spells .unbounded bs [v])
    (hcut : cut <+: bs) (hlt : cut.length < bs.length) (hm : m.usize cut.length = true) :
    parseReply m cut = .error (.err .incomplete) ↔ ∀ p, Reaches m cut p → ¬Oversized m cut p := by
  have hpanics := panics_iff hm
  constructor
  · intro hshort p hreach hover
    have hpanic := hpanics.mpr ⟨p, hreach, hover⟩
    rw [hshort] at hpanic
    exact not_panics_err _ hpanic
  · intro hmodest
    rcases parseReply_agrees m cut with hpanic | hsame
    · obtain ⟨p, hreach, hover⟩ := hpanics.mp hpanic
      exact absurd hover (hmodest p hreach)
    · exact hsame.trans (parseReply_short h hcut hlt rfl)

/-- **A command is parsed exactly if** the machine has room for its arguments. -/
theorem parseReply_encodeCommand_iff {args : List Bytes} {suf : Bytes}
    (h : (encodeCommand args).length < 2 ^ 63)
    (hm : m.usize (encodeCommand args ++ suf).length = true) :
    parseReply m (encodeCommand args ++ suf) =
        .ok (.array (some (args.map fun a => .bulk (some a))), (encodeCommand args).length) ↔
      m.vec args.length = true := by
  refine ⟨fun hparse => ?_, fun hvec => parseReply_spelled (encodeCommand_spelled h hvec) suf hm⟩
  by_contra hvec
  have hbuf : encodeCommand args ++ suf = [] ++ (header 42 (utf8 (String.ofList
      (Text.decimal args.length))) ++ (args.flatMap (fun a =>
        utf8 (String.ofList ('$' :: Text.decimal a.length)) ++ crlf ++ (a ++ crlf)) ++ suf)) := by
    rw [encodeCommand, utf8_count (by decide), List.nil_append, List.append_assoc]
    rfl
  obtain ⟨fuel, hfuel⟩ : ∃ k, (encodeCommand args ++ suf).length = k + 1 :=
    ⟨(encodeCommand args ++ suf).length - 1, by rw [hbuf]; simp [header]⟩
  have hpanic := respParseAt_capacity fuel (isLine_decimal _)
    (lineInt_decimal (length_lt_of_command h)) (Bool.eq_false_iff.mpr hvec) hbuf hm
  rw [parseReply, hfuel] at hparse
  cases hpanic.symm.trans hparse

/-! ## 5. Call after call -/

theorem readOneReply_ok {buf : Bytes} {v : RespValue} {consumed : Nat}
    (h : parseReply m buf = .ok (v, consumed)) (reads : List Read) :
    readOneReply m buf reads = .reply v (buf.drop consumed) reads := by
  unfold readOneReply
  rw [h]

theorem readOneReply_panics {buf : Bytes} (h : Panics (parseReply m buf)) (reads : List Read) :
    ∃ p, readOneReply m buf reads = .panicked p := by
  obtain ⟨p, hp⟩ := h
  refine ⟨p, ?_⟩
  unfold readOneReply
  rw [hp]

theorem readOneReply_incomplete {buf chunk : Bytes}
    (h : parseReply m buf = .error (.err .incomplete)) (hchunk : chunk ≠ []) (reads : List Read) :
    readOneReply m buf (.bytes chunk :: reads) = readOneReply m (buf ++ chunk) reads := by
  rw [readOneReply.eq_def, h]
  exact if_neg hchunk

/-- `let mut tmp = [0u8; 1024]` -/
def readMax : Nat := 1024

/-- A read that gives something, as much of it as there is room for. -/
def IsRead (chunk : Bytes) : Prop := chunk ≠ [] ∧ chunk.length ≤ readMax

instance (chunk : Bytes) : Decidable (IsRead chunk) := inferInstanceAs (Decidable (_ ∧ _))

/-- What a stream has behind a buffer, against a reply at its front: the reply is not all there, or
    the buffer goes on behind it. -/
theorem stream_cases {bs buf behind tail : Bytes} (h : buf ++ behind = bs ++ tail) :
    (buf.length < bs.length ∧ buf <+: bs) ∨ ∃ buf', buf = bs ++ buf' ∧ buf' ++ behind = tail := by
  by_cases hlt : buf.length < bs.length
  · exact .inl ⟨hlt, List.prefix_of_prefix_length_le (List.prefix_append buf _)
      (h ▸ List.prefix_append bs tail) (Nat.le_of_lt hlt)⟩
  · obtain ⟨buf', rfl⟩ : bs <+: buf := List.prefix_of_prefix_length_le
      (h ▸ List.prefix_append bs tail) (List.prefix_append buf _) (Nat.le_of_not_lt hlt)
    rw [List.append_assoc] at h
    exact .inr ⟨buf', rfl, List.append_cancel_left h⟩

variable {bs : Bytes} {v : RespValue} (hroom : m.usize (bs.length + readMax) = true)

include hroom

/-- Room for a reply and a read is room for the buffer that a call goes on with. -/
theorem usize_of_short {buf chunk : Bytes} (hlt : buf.length < bs.length) (hchunk : IsRead chunk) :
    m.usize (buf ++ chunk).length = true := by
  have hmax := hchunk.2
  refine m.usize_mono ?_ hroom
  rw [List.length_append]
  omega

/-- **One call**: what it reads is the reply at the front of the stream, and nothing is lost. -/
theorem readOneReply_stream (h : Spells m bs [v]) {reads : List Bytes}
    (hreads : ∀ c ∈ reads, IsRead c) {buf tail : Bytes} (hbuf : m.usize buf.length = true)
    (hstream : buf ++ reads.flatten = bs ++ tail) :
    ∃ buf' : Bytes, ∃ reads' : List Bytes, (∀ c ∈ reads', IsRead c) ∧
      m.usize buf'.length = true ∧ buf' ++ reads'.flatten = tail ∧
      readOneReply m buf (reads.map .bytes) = .reply v buf' (reads'.map .bytes) := by
  induction reads generalizing buf with
  | nil =>
      rw [List.flatten_nil, List.append_nil] at hstream
      subst hstream
      refine ⟨tail, [], hreads, ?_, List.append_nil tail, ?_⟩
      · exact m.usize_mono (by rw [List.length_append]; exact Nat.le_add_left _ _) hbuf
      · rw [readOneReply_ok (parseReply_spelled h tail hbuf), List.drop_left]
  | cons chunk reads ih =>
      have hchunk := hreads chunk List.mem_cons_self
      rcases stream_cases hstream with ⟨hlt, hcut⟩ | ⟨buf', rfl, htail⟩
      · have hbs := m.usize_mono (Nat.le_add_right _ readMax) hroom
        rw [List.map_cons, readOneReply_incomplete (parseReply_short h hcut hlt hbs) hchunk.1]
        refine ih (fun c hc => hreads c (List.mem_cons_of_mem chunk hc))
          (usize_of_short hroom hlt hchunk) ?_
        rw [List.append_assoc, ← hstream, List.flatten_cons]
      · refine ⟨buf', chunk :: reads, hreads, ?_, htail, ?_⟩
        · exact m.usize_mono (by rw [List.length_append]; exact Nat.le_add_left _ _) hbuf
        · rw [readOneReply_ok (parseReply_spelled h buf' hbuf), List.drop_left]

/-- **Or it panics**, when the reply has an array that the machine has no room for: at the latest
    when all of the reply is there. -/
theorem readOneReply_oversized (h : Spells .unbounded bs [v]) (hover : ¬Spells m bs [v])
    {reads : List Bytes} (hreads : ∀ c ∈ reads, IsRead c) {buf tail : Bytes}
    (hbuf : m.usize buf.length = true) (hstream : buf ++ reads.flatten = bs ++ tail) :
    ∃ p, readOneReply m buf (reads.map .bytes) = .panicked p := by
  have hwhole : ∀ buf', m.usize (bs ++ buf').length = true → Panics (parseReply m (bs ++ buf')) := by
    intro buf' hbuf'
    rcases parseReply_agrees m (bs ++ buf') with hpanic | hsame
    · exact hpanic
    · exact absurd ((parseReply_spelled_iff buf' hbuf').mp
        (hsame.trans (parseReply_spelled h buf' rfl))) hover
  induction reads generalizing buf with
  | nil =>
      rw [List.flatten_nil, List.append_nil] at hstream
      subst hstream
      exact readOneReply_panics (hwhole tail hbuf) _
  | cons chunk reads ih =>
      have hchunk := hreads chunk List.mem_cons_self
      rcases stream_cases hstream with ⟨hlt, hcut⟩ | ⟨buf', rfl, -⟩
      · rcases parseReply_agrees m buf with hpanic | hsame
        · exact readOneReply_panics hpanic _
        · rw [List.map_cons, readOneReply_incomplete
            (hsame.trans (parseReply_short h hcut hlt rfl)) hchunk.1]
          refine ih (fun c hc => hreads c (List.mem_cons_of_mem chunk hc))
            (usize_of_short hroom hlt hchunk) ?_
          rw [List.append_assoc, ← hstream, List.flatten_cons]
      · exact readOneReply_panics (hwhole buf' hbuf) _

omit hroom

/-- **Successive calls give the replies in order**, however the bytes are cut into reads, exactly if
    the machine has room for the arrays of all of them. -/
theorem readReplies_stream_iff {replies : List (Bytes × RespValue)}
    (h : ∀ r ∈ replies, Spells .unbounded r.1 [r.2] ∧ m.usize (r.1.length + readMax) = true)
    {reads : List Bytes} (hreads : ∀ c ∈ reads, IsRead c) {buf tail : Bytes}
    (hbuf : m.usize buf.length = true)
    (hstream : buf ++ reads.flatten = replies.flatMap (·.1) ++ tail) :
    (∃ buf' : Bytes, ∃ reads' : List Bytes, buf' ++ reads'.flatten = tail ∧
      readReplies m replies.length buf (reads.map .bytes) =
        some (replies.map (·.2), buf', reads'.map .bytes)) ↔
      ∀ r ∈ replies, Spells m r.1 [r.2] := by
  induction replies generalizing buf reads with
  | nil => exact ⟨fun _ r hr => (nomatch hr), fun _ => ⟨buf, reads, hstream, rfl⟩⟩
  | cons r replies ih =>
      obtain ⟨hspells, hroom⟩ := h r List.mem_cons_self
      rw [List.flatMap_cons, List.append_assoc] at hstream
      rw [List.forall_mem_cons]
      by_cases hfits : Spells m r.1 [r.2]
      · obtain ⟨buf₁, reads₁, hreads₁, hbuf₁, hstream₁, hone⟩ :=
          readOneReply_stream hroom hfits hreads hbuf hstream
        have hrest := ih (fun r' hr' => h r' (List.mem_cons_of_mem r hr')) hreads₁ hbuf₁ hstream₁
        rw [and_iff_right hfits, ← hrest]
        refine exists_congr fun buf' => exists_congr fun reads' => and_congr_right fun _ => ?_
        rw [List.length_cons, readReplies, hone, List.map_cons]
        simp only [Option.map_eq_some_iff, Prod.mk.injEq, List.cons.injEq, true_and]
        constructor
        · rintro ⟨⟨vs, left⟩, hread, rfl, rfl⟩
          exact hread
        · exact fun hread => ⟨_, hread, rfl, rfl⟩
      · refine iff_of_false ?_ fun hall => hfits hall.1
        rintro ⟨buf', reads', -, hread⟩
        obtain ⟨p, hp⟩ := readOneReply_oversized hroom hspells hfits hreads hbuf hstream
        rw [List.length_cons, readReplies, hp] at hread
        cases hread

end

/-! ## 6. The codec -/

/-- **The codec, on a machine with 64-bit words**, for values of `size` bytes. A command in front of
    anything is parsed as the array of its arguments exactly if there is room for them. A part of a
    reply is incomplete exactly if it does not reach a header that announces too much. Successive
    calls give the replies of a stream in order, however it is cut into reads, exactly if there is
    room for every array in them. -/
theorem resp_codec_iff (size : Nat) :
    (∀ (args : List Bytes) (suf : Bytes), (encodeCommand args ++ suf).length ≤ isizeMax →
      (parseReply (.words64 size) (encodeCommand args ++ suf) =
          .ok (.array (some (args.map fun a => .bulk (some a))), (encodeCommand args).length) ↔
        args.length * size ≤ isizeMax)) ∧
    (∀ (bs cut : Bytes) (v : RespValue), Spells .unbounded bs [v] → bs.length ≤ isizeMax →
      cut <+: bs → cut ≠ bs →
      (parseReply (.words64 size) cut = .error (.err .incomplete) ↔
        ∀ p, Reaches (.words64 size) cut p → ¬Oversized (.words64 size) cut p)) ∧
    ∀ (replies : List (Bytes × RespValue)) (reads : List Bytes) (tail : Bytes),
      (∀ r ∈ replies, Spells .unbounded r.1 [r.2] ∧ r.1.length ≤ isizeMax) →
      (∀ c ∈ reads, IsRead c) → reads.flatten = replies.flatMap (·.1) ++ tail →
      ((∃ buf : Bytes, ∃ left : List Bytes, buf ++ left.flatten = tail ∧
        readReplies (.words64 size) replies.length [] (reads.map .bytes) =
          some (replies.map (·.2), buf, left.map .bytes)) ↔
        ∀ r ∈ replies, Spells (.words64 size) r.1 [r.2]) := by
  have hindex : ∀ {n : Nat}, n < 2 ^ 64 → (Memory.words64 size).usize n = true := decide_eq_true
  have hword : ∀ {n : Nat}, n ≤ isizeMax → (Memory.words64 size).usize n = true :=
    fun h => hindex (Nat.lt_of_le_of_lt h (by decide))
  refine ⟨fun args suf h => ?_, fun bs cut v h hbs hcut hne => ?_, fun replies reads tail h hreads
    hstream => ?_⟩
  · have hcommand : (encodeCommand args).length < 2 ^ 63 := by
      rw [List.length_append] at h
      exact Nat.lt_of_le_of_lt (Nat.le_trans (Nat.le_add_right _ _) h) (by decide)
    rw [parseReply_encodeCommand_iff hcommand (hword h)]
    exact decide_eq_true_iff
  · have hlt : cut.length < bs.length :=
      Nat.lt_of_le_of_ne hcut.length_le fun hlen => hne (hcut.eq_of_length hlen)
    exact parseReply_short_iff h hcut hlt (hword (Nat.le_trans (Nat.le_of_lt hlt) hbs))
  · have hroom : ∀ r ∈ replies, (Memory.words64 size).usize (r.1.length + readMax) = true := by
      intro r hr
      have hle := (h r hr).2
      refine hindex ?_
      unfold isizeMax at hle
      unfold readMax
      omega
    exact readReplies_stream_iff (fun r hr => ⟨(h r hr).1, hroom r hr⟩) hreads
      (hword (Nat.zero_le _)) hstream

namespace Sample

theorem ok_spelled (m : Memory) : Spells m (utf8 "+OK\r\n") [.simple "OK"] :=
  @Spells.line m 43 (utf8 "OK") _ _ _ (crlfAt_eq_none.mp rfl) (.simple _) .nil

theorem seven_spelled (m : Memory) : Spells m (utf8 ":7\r\n") [.int 7] :=
  @Spells.line m 58 (utf8 "7") _ _ _ (crlfAt_eq_none.mp rfl) (.int rfl) .nil

/-- Two replies, and the first byte of another. -/
def replies : List (Bytes × RespValue) :=
  [(utf8 "+OK\r\n", .simple "OK"), (utf8 ":7\r\n", .int 7)]

theorem replies_spelled (m : Memory) : ∀ r ∈ replies, Spells m r.1 [r.2] := by
  intro r hr
  rcases List.mem_cons.mp hr with rfl | hr
  · exact ok_spelled m
  · cases List.mem_singleton.mp hr
    exact seven_spelled m

def reads : List Bytes := [utf8 "+O", utf8 "K\r", utf8 "\n:7\r\n*"]

/-- The first line of an array of 2^60 values, and all of it. -/
def announced : Bytes := utf8 "*1152921504606846976\r\n"

def array : Bytes := announced ++ (List.replicate (2 ^ 60) (utf8 "+OK\r\n")).flatten

theorem array_spelled :
    Spells .unbounded array [.array (some (List.replicate (2 ^ 60) (.simple "OK")))] := by
  have hrepeat : ∀ n, Spells .unbounded (List.replicate n (utf8 "+OK\r\n")).flatten
      (List.replicate n (.simple "OK")) := by
    intro n
    induction n with
    | zero => exact .nil
    | succ n ih =>
        rw [List.replicate_succ, List.replicate_succ, List.flatten_cons]
        exact (ok_spelled .unbounded).append ih
  have hint : lineInt (utf8 "1152921504606846976") =
      some ((List.replicate (2 ^ 60) (RespValue.simple "OK")).length : Int) := by
    rw [List.length_replicate]
    decide +kernel
  have hone := @Spells.array .unbounded (utf8 "1152921504606846976") _ [] _ []
    (crlfAt_eq_none.mp (by decide +kernel)) hint rfl (hrepeat (2 ^ 60)) .nil
  rwa [List.append_nil] at hone

end Sample

/-- The first line of a reply that is well formed. -/
theorem resp_prefix_panics :
    Spells .unbounded Sample.array [.array (some (List.replicate (2 ^ 60) (.simple "OK")))] ∧
      Sample.array.length ≤ isizeMax ∧ Sample.announced <+: Sample.array ∧
      Sample.announced ≠ Sample.array ∧
      parseReply (.words64 24) Sample.announced = .error (.panic .capacity) := by
  have hlength : Sample.array.length = Sample.announced.length + 2 ^ 60 * 5 := by
    have hok : (utf8 "+OK\r\n").length = 5 := by decide +kernel
    rw [Sample.array, List.length_append, List.length_flatten, List.map_replicate,
      List.sum_replicate_nat, hok]
  have hannounced : Sample.announced.length = 22 := by decide +kernel
  refine ⟨Sample.array_spelled, ?_, List.prefix_append _ _, fun h => ?_, rfl⟩
  · rw [hlength, hannounced]
    decide
  · have hsame := congrArg List.length h
    rw [hlength] at hsame
    omega

/-- A command with an end of a line in an argument, half of a reply, and three reads for two. -/
theorem resp_codec_cut :
    parseReply (.words64 24) (encodeCommand [utf8 "GET", utf8 "a\r\n"] ++ [42]) =
      .ok (.array (some [.bulk (some (utf8 "GET")), .bulk (some (utf8 "a\r\n"))]),
        (encodeCommand [utf8 "GET", utf8 "a\r\n"]).length) ∧
    (∀ p, Reaches (.words64 24) (utf8 "+OK\r") p → ¬Oversized (.words64 24) (utf8 "+OK\r") p) ∧
    (∃ buf : Bytes, ∃ left : List Bytes, buf ++ left.flatten = utf8 "*" ∧
      readReplies (.words64 24) 2 [] (Sample.reads.map .bytes) =
        some ([.simple "OK", .int 7], buf, left.map .bytes)) := by
  refine ⟨((resp_codec_iff 24).1 _ [42] (by decide +kernel)).mpr (by decide), ?_,
    ((resp_codec_iff 24).2.2 Sample.replies Sample.reads (utf8 "*") (fun r hr => ?_)
      (by decide +kernel) (by decide +kernel)).mpr (Sample.replies_spelled _)⟩
  · exact ((resp_codec_iff 24).2.1 _ _ _ (Sample.ok_spelled _) (by decide +kernel)
      (by decide +kernel) (by decide +kernel)).mp rfl
  · refine ⟨Sample.replies_spelled _ r hr, ?_⟩
    rcases List.mem_cons.mp hr with rfl | hr
    · decide +kernel
    · cases List.mem_singleton.mp hr
      decide +kernel

end Ruwa.Egress
