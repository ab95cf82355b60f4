/-
  File:      Ruwa/Egress/Resp.lean
  Subject:   RESP, THE WIRE FORMAT OF REDIS (`egress.rs`): commands, replies and the parser.

  A reply starts with a type byte and a line. A bulk string has its bytes behind the line, an array
  its values; how many of them, the line says.

  * `encodeCommand`, `parseReply` -- the two directions, the second as it runs on a machine;
  * `crlfAt_append`, `crlfAt_eq_some` -- the first end of a line;
  * `respLine_line`, `respLine_short` -- a line that is there, and one that has no end yet.
-/
import Ruwa.Library.Checked
import Ruwa.Library.Find
import Ruwa.Library.Result
import Ruwa.Library.Text

namespace Ruwa.Egress

open Ruwa.Library Ruwa.Library.Checked

/-! ## 1. The source -/

/-- A reply. -/
inductive RespValue
  | simple (text : String)
  | error (text : String)
  | int (n : Int)
  | bulk (bytes : Option Bytes)
  | array (items : Option (List RespValue))
  deriving Repr

inductive RespError
  /-- The buffer holds a partial reply. -/
  | incomplete
  /-- Malformed RESP. -/
  | protocol (text : String)
  deriving Repr, DecidableEq

def crlf : Bytes := [13, 10]

/-- `*N\r\n$len\r\n<arg>\r\n…` -/
def encodeCommand (args : List Bytes) : Bytes :=
  utf8 (String.ofList ('*' :: Text.decimal args.length)) ++ crlf ++
    args.flatMap fun a =>
      utf8 (String.ofList ('$' :: Text.decimal a.length)) ++ crlf ++ (a ++ crlf)

/-- `windows(2).position(|w| w == b"\r\n")` -/
def crlfAt (bs : Bytes) : Option Nat := find crlf bs

/-- The line that starts at `pos`, and the index behind its end. -/
def respLine (m : Memory) (buf : Bytes) (pos : Nat) : Except (Stop RespError) (Bytes × Nat) :=
  if pos > buf.length then .error (.err .incomplete)
  else do
    let rest ← slice buf pos buf.length
    match crlfAt rest with
    | some i =>
        let line ← slice rest 0 i
        let stop ← add m pos i
        let next ← add m stop 2
        return (line, next)
    | none => .error (.err .incomplete)

/-- `str::parse::<i64>`: an optional sign and at least one digit. -/
def parseI64 (cs : List Char) : Option Int :=
  let value : List Char → Option Nat := fun digits =>
    if digits = [] then none else Text.digits? digits
  match cs with
  | '-' :: digits => ((value digits).filter fun n => decide (n ≤ 2 ^ 63)).map fun n => -(n : Int)
  | '+' :: digits => ((value digits).filter fun n => decide (n < 2 ^ 63)).map Int.ofNat
  | digits => ((value digits).filter fun n => decide (n < 2 ^ 63)).map Int.ofNat

/-- The integer of a line. -/
def lineInt (line : Bytes) : Option Int :=
  (ofUtf8? line).bind fun s => parseI64 (Text.trim s.toList)

def respInt (line : Bytes) : Except (Stop RespError) Int :=
  match lineInt line with
  | some n => .ok n
  | none => .error (.err (.protocol s!"bad integer: {line.map UInt8.toNat}"))

/-- How a character of more than one byte goes on: how many bytes follow the first, and the range of
    the one right behind it. -/
def continuation (b : UInt8) : Option (Nat × UInt8 × UInt8) :=
  if 0xC2 ≤ b ∧ b ≤ 0xDF then some (1, 0x80, 0xBF)
  else if b = 0xE0 then some (2, 0xA0, 0xBF)
  else if b = 0xED then some (2, 0x80, 0x9F)
  else if 0xE1 ≤ b ∧ b ≤ 0xEF then some (2, 0x80, 0xBF)
  else if b = 0xF0 then some (3, 0x90, 0xBF)
  else if 0xF1 ≤ b ∧ b ≤ 0xF3 then some (3, 0x80, 0xBF)
  else if b = 0xF4 then some (3, 0x80, 0x8F)
  else none

/-- The characters of a byte string, with U+FFFD for what is none. A character that breaks off is
    one U+FFFD, and the byte that breaks it is looked at again. `begun` is the character that is
    being read: its value so far, the bytes that are missing and the range of the next. -/
def lossyChars : Option (Nat × Nat × UInt8 × UInt8) → Bytes → List Char
  | none, [] => []
  | some _, [] => ['\uFFFD']
  | begun, b :: rest =>
      match begun with
      | some (value, missing, lo, hi) =>
          if lo ≤ b ∧ b ≤ hi then
            let value := value * 64 + (b.toNat - 0x80)
            if missing = 1 then Char.ofNat value :: lossyChars none rest
            else lossyChars (some (value, missing - 1, 0x80, 0xBF)) rest
          else '\uFFFD' :: start b rest
      | none => start b rest
where
  /-- The first byte of a character. -/
  start (b : UInt8) (rest : Bytes) : List Char :=
    if b < 0x80 then Char.ofNat b.toNat :: lossyChars none rest
    else match continuation b with
      | some (missing, lo, hi) =>
          lossyChars (some (b.toNat % 2 ^ (6 - missing), missing, lo, hi)) rest
      | none => '\uFFFD' :: lossyChars none rest

/-- `String::from_utf8_lossy` -/
def fromUtf8Lossy (bs : Bytes) : String :=
  match ofUtf8? bs with
  | some s => s
  | none => String.ofList (lossyChars none bs)

/-- The loop over the values of an array. -/
def readItems (parse : Nat → Except (Stop RespError) (RespValue × Nat)) :
    Nat → Nat → Except (Stop RespError) (List RespValue × Nat)
  | 0, p => .ok ([], p)
  | count + 1, p => do
      let (v, np) ← parse p
      let (items, stop) ← readItems parse count np
      return (v :: items, stop)

/-- The value whose type byte is `kind` and whose line is `line`; what else it has starts at `next`.
    The two bytes behind a bulk string are not looked at. -/
def respBody (m : Memory) (buf : Bytes)
    (parse : Nat → Except (Stop RespError) (RespValue × Nat)) (kind : UInt8) (line : Bytes)
    (next : Nat) : Except (Stop RespError) (RespValue × Nat) :=
  match kind with
  | 43 => .ok (.simple (fromUtf8Lossy line), next)      -- `+`
  | 45 => .ok (.error (fromUtf8Lossy line), next)       -- `-`
  | 58 => do                                            -- `:`
      let n ← respInt line
      return (.int n, next)
  | 36 => do                                            -- `$`
      let len ← respInt line
      if len < 0 then return (.bulk none, next)
      else
        let stop ← add m next len.toNat
        let behind ← add m stop 2
        if behind > buf.length then .error (.err .incomplete)
        else
          let bytes ← slice buf next stop
          return (.bulk (some bytes), behind)
  | 42 => do                                            -- `*`
      let count ← respInt line
      if count < 0 then return (.array none, next)
      else
        withCapacity m count.toNat
        let (items, p) ← readItems parse count.toNat next
        return (.array (some items), p)
  | other =>
      let digits := String.ofList (Nat.toDigits 16 other.toNat)
      .error (.err (.protocol s!"unknown RESP type byte: 0x{digits}"))

/-- The value at `pos`, and the index behind it. One unit of `fuel` is spent for each level of
    nesting. -/
def respParseAt (m : Memory) (buf : Bytes) :
    Nat → Nat → Except (Stop RespError) (RespValue × Nat)
  | 0, _ => .error (.err .incomplete)
  | fuel + 1, pos =>
      if pos ≥ buf.length then .error (.err .incomplete)
      else do
        let kind ← index buf pos
        let after ← add m pos 1
        let (line, next) ← respLine m buf after
        respBody m buf (respParseAt m buf fuel) kind line next

/-- The reply at the front, and the number of bytes it takes. -/
def parseReply (m : Memory) (buf : Bytes) : Except (Stop RespError) (RespValue × Nat) :=
  respParseAt m buf buf.length 0

/-! ## 2. Lines -/

/-- It holds no end of a line. -/
def IsLine (line : Bytes) : Prop := ¬crlf <:+: line

theorem crlf_marked : Marked 13 crlf := ⟨[10], rfl, by decide⟩

theorem crlfAt_eq_none {bs : Bytes} : crlfAt bs = none ↔ IsLine bs := find_eq_none

/-- **The first end of a line**: none before it. -/
theorem crlfAt_append {line : Bytes} (h : IsLine line) (rest : Bytes) :
    crlfAt (line ++ crlf ++ rest) = some line.length := find_append crlf_marked h rest

theorem crlfAt_eq_some {bs : Bytes} {i : Nat} (h : crlfAt bs = some i) :
    ∃ line rest, bs = line ++ crlf ++ rest ∧ IsLine line ∧ line.length = i := by
  obtain ⟨line, rest, heq, hlen, hline⟩ := find_eq_some crlf_marked.ne_nil h
  exact ⟨line, rest, heq, hline, hlen⟩

section

variable {m : Memory}

/-- In a buffer that an index can go through, no step of it panics. -/
theorem respLine_eq {buf : Bytes} (hm : m.usize buf.length = true) {pos : Nat}
    (hpos : pos ≤ buf.length) :
    respLine m buf pos = match crlfAt (buf.drop pos) with
      | some i => .ok ((buf.drop pos).take i, pos + i + 2)
      | none => .error (.err .incomplete) := by
  unfold respLine
  rw [if_neg (Nat.not_lt.mpr hpos), Result.ok_bind (slice_ok hpos (Nat.le_refl _)),
    List.take_length]
  cases hi : crlfAt (buf.drop pos) with
  | none => rfl
  | some i =>
      obtain ⟨line, rest, heq, -, rfl⟩ := crlfAt_eq_some hi
      have hlen := congrArg List.length heq
      simp only [List.length_drop, List.length_append, crlf, List.length_cons,
        List.length_nil] at hlen
      have hline : line.length ≤ (buf.drop pos).length := by
        rw [List.length_drop]
        omega
      dsimp only
      rw [Result.ok_bind (slice_ok (Nat.zero_le _) hline),
        Result.ok_bind (add_ok (m.usize_mono (by omega) hm)),
        Result.ok_bind (add_ok (m.usize_mono (by omega) hm)), List.drop_zero]
      rfl

/-- A line that is there. -/
theorem respLine_line (pre : Bytes) {line : Bytes} (h : IsLine line) (suf : Bytes)
    (hm : m.usize (pre ++ (line ++ crlf ++ suf)).length = true) :
    respLine m (pre ++ (line ++ crlf ++ suf)) pre.length =
      .ok (line, (pre ++ (line ++ crlf)).length) := by
  rw [respLine_eq hm (by simp), List.drop_left, crlfAt_append h]
  simp [crlf, Nat.add_assoc]

/-- A line that has no end yet. -/
theorem respLine_short (pre : Bytes) {rest : Bytes} (h : IsLine rest)
    (hm : m.usize (pre ++ rest).length = true) :
    respLine m (pre ++ rest) pre.length = .error (.err .incomplete) := by
  rw [respLine_eq hm (by simp), List.drop_left, crlfAt_eq_none.mpr h]

/-- The beginning of a line has no end in it either. -/
theorem isLine_of_prefix {line cut : Bytes} (h : IsLine line) (hcut : cut <+: line ++ crlf)
    (hlt : cut.length < (line ++ crlf).length) : IsLine cut := by
  intro hin
  obtain ⟨k, hk⟩ := Option.ne_none_iff_exists'.mp fun hnone => crlfAt_eq_none.mp hnone hin
  obtain ⟨line', rest, rfl, hline', rfl⟩ := crlfAt_eq_some hk
  obtain ⟨more, hmore⟩ := hcut
  have hfirst := crlfAt_append h []
  rw [List.append_nil, ← hmore, List.append_assoc, crlfAt_append hline'] at hfirst
  have hsame := Option.some.inj hfirst
  simp only [List.length_append] at hlt
  omega

end

end Ruwa.Egress
