/-
  File:      Ruwa/Egress/RespSafety.lean
  Subject:   THE RESP PARSER ON BYTES IT CANNOT TRUST.

  Every length and count of a reply is a number the server has written. The parser adds it to an
  index and reserves room for it before it has seen what it announces.

  * `respParseAt_fuel` -- the nesting ends with the buffer: the parser terminates;
  * `Reaches` -- the places where the parser starts to read a value;
  * `panics_iff` -- it panics exactly if it reaches a header that announces too much;
  * **`parse_reply_safe_iff`** -- and in no other case does anything go wrong.
-/
import Ruwa.Egress.RespGrammar

namespace Ruwa.Egress

open Ruwa.Library Ruwa.Library.Checked

section

variable {m : Memory} {buf : Bytes}

/-! ## 1. Termination -/

theorem readItems_congr {parse parse' : Nat → Except (Stop RespError) (RespValue × Nat)}
    {p : Nat} (hle : ∀ q v r, p ≤ q → parse q = .ok (v, r) → p ≤ r)
    (heq : ∀ q, p ≤ q → parse q = parse' q) (n : Nat) {q : Nat} (hq : p ≤ q) :
    readItems parse n q = readItems parse' n q := by
  induction n generalizing q with
  | zero => rfl
  | succ n ih =>
      rw [readItems, readItems, ← heq q hq]
      cases hv : parse q with
      | error stop => rfl
      | ok found =>
          obtain ⟨v, r⟩ := found
          show (readItems parse n r >>= _) = (readItems parse' n r >>= _)
          rw [ih (hle q v r hq hv)]

/-- A header takes the parser on. -/
theorem next_of_respLine (hm : m.usize buf.length = true) {pos next : Nat} {line : Bytes}
    (hpos : pos ≤ buf.length) (h : respLine m buf pos = .ok (line, next)) : pos < next := by
  rw [respLine_eq hm hpos] at h
  cases hi : crlfAt (buf.drop pos) with
  | none =>
      rw [hi] at h
      cases h
  | some i =>
      rw [hi] at h
      cases h
      omega

theorem respBody_congr {parse parse' : Nat → Except (Stop RespError) (RespValue × Nat)}
    {next : Nat} (h : ∀ n, readItems parse n next = readItems parse' n next) (kind : UInt8)
    (line : Bytes) : respBody m buf parse kind line next = respBody m buf parse' kind line next := by
  unfold respBody
  simp only [h]

theorem le_of_respParseAt (hm : m.usize buf.length = true) {fuel p q : Nat} {v : RespValue}
    (h : respParseAt m buf fuel p = .ok (v, q)) : p ≤ q ∧ q ≤ buf.length := by
  by_cases hp : p ≤ buf.length
  · exact (stands_of_respParseAt hm hp h).le
  · cases fuel with
    | zero => cases h
    | succ fuel =>
        rw [respParseAt, if_pos (Nat.le_of_not_le hp)] at h
        cases h

/-- **Fuel for what is left of the buffer is enough**, and more of it changes nothing. -/
theorem respParseAt_fuel (hm : m.usize buf.length = true) {fuel fuel' p : Nat}
    (h : buf.length ≤ fuel + p) (h' : buf.length ≤ fuel' + p) :
    respParseAt m buf fuel p = respParseAt m buf fuel' p := by
  induction fuel generalizing fuel' p with
  | zero =>
      cases fuel' with
      | zero => rfl
      | succ fuel' => rw [respParseAt, respParseAt, if_pos (by omega)]
  | succ fuel ih =>
      by_cases hp : p ≥ buf.length
      · cases fuel' with
        | zero => rw [respParseAt, respParseAt, if_pos hp]
        | succ fuel' => rw [respParseAt, respParseAt, if_pos hp, if_pos hp]
      · obtain ⟨fuel', rfl⟩ : ∃ k, fuel' = k + 1 := ⟨fuel' - 1, by omega⟩
        have hafter : (add m p 1 : Except (Stop RespError) Nat) = .ok (p + 1) :=
          add_ok (m.usize_mono (by omega) hm)
        rw [respParseAt, respParseAt, if_neg hp, if_neg hp]
        refine congrArg _ (funext fun kind => ?_)
        rw [Result.ok_bind hafter, Result.ok_bind hafter]
        cases hline : respLine m buf (p + 1) with
        | error stop => rfl
        | ok found =>
            obtain ⟨line, next⟩ := found
            have hnext := next_of_respLine hm (by omega) hline
            -- the values of an array stand behind its header, where less fuel is enough
            exact respBody_congr (fun n => readItems_congr
              (fun q v r hq hv => Nat.le_trans hq (le_of_respParseAt hm hv).1)
              (fun q hq => ih (by omega) (by omega)) n (Nat.le_refl next)) kind line

/-! ## 2. What the parser reaches -/

/-- At `p` stands a header. -/
def HeaderAt (buf : Bytes) (p : Nat) (kind : UInt8) (line : Bytes) : Prop :=
  IsLine line ∧ ∃ pre suf, buf = pre ++ (header kind line ++ suf) ∧ p = pre.length

/-- The places where a value is to be read: the front, and in an array every place behind fewer
    values than it announces. -/
inductive Reaches (m : Memory) (buf : Bytes) : Nat → Prop
  | start : Reaches m buf 0
  | item {p q count : Nat} {line : Bytes} {items : List RespValue} :
      Reaches m buf p → HeaderAt buf p 42 line → lineInt line = some (count : Int) →
      Stands m buf (p + (header 42 line).length) items q → items.length < count → Reaches m buf q

/-- The header at `p` announces more than the machine can hold, or a string that ends where no
    index goes. -/
def Oversized (m : Memory) (buf : Bytes) (p : Nat) : Prop :=
  ∃ line, ∃ n : Nat, lineInt line = some (n : Int) ∧
    (HeaderAt buf p 42 line ∧ m.vec n = false ∨
      HeaderAt buf p 36 line ∧ m.usize (p + (header 36 line).length + n + 2) = false)

/-- The loop stops at a value behind those it has read. -/
theorem readItems_panics {parse : Nat → Except (Stop RespError) (RespValue × Nat)} {n p : Nat}
    (h : Panics (readItems parse n p)) :
    ∃ k vs q, k < n ∧ readItems parse k p = .ok (vs, q) ∧ Panics (parse q) := by
  induction n generalizing p with
  | zero => exact absurd h (not_panics_ok _)
  | succ n ih =>
      rw [readItems] at h
      rcases panics_bind.mp h with hfirst | ⟨⟨v, np⟩, hv, hrest⟩
      · exact ⟨0, [], p, Nat.succ_pos n, rfl, hfirst⟩
      · rcases panics_bind.mp hrest with hrest | ⟨⟨items, stop⟩, -, hlast⟩
        · obtain ⟨k, vs, q, hk, hread, hq⟩ := ih hrest
          exact ⟨k + 1, v :: vs, q, Nat.succ_lt_succ hk, readItems_succ hv hread, hq⟩
        · exact absurd hlast (not_panics_ok _)

theorem readItems_panics_of {parse : Nat → Except (Stop RespError) (RespValue × Nat)}
    {k n p q : Nat} {vs : List RespValue} (hk : k < n) (hread : readItems parse k p = .ok (vs, q))
    (h : Panics (parse q)) : Panics (readItems parse n p) := by
  induction k generalizing n p vs with
  | zero =>
      cases hread
      obtain ⟨n, rfl⟩ := Nat.exists_eq_succ_of_ne_zero (Nat.ne_of_gt hk)
      rw [readItems]
      exact panics_bind.mpr (.inl h)
  | succ k ih =>
      obtain ⟨n, rfl⟩ := Nat.exists_eq_succ_of_ne_zero (Nat.ne_of_gt (Nat.lt_of_le_of_lt
        (Nat.zero_le _) hk))
      obtain ⟨⟨v, np⟩, hv, hread⟩ := Result.bind_ok.mp hread
      obtain ⟨⟨items, stop⟩, hitems, hread⟩ := Result.bind_ok.mp hread
      cases hread
      rw [readItems]
      exact panics_bind.mpr (.inr ⟨(v, np), hv,
        panics_bind.mpr (.inl (ih (Nat.lt_of_succ_lt_succ hk) hitems))⟩)

/-- **A panic comes from an announcement** that the parser reaches. -/
theorem oversized_of_panics (hm : m.usize buf.length = true) {fuel p : Nat} (hp : p ≤ buf.length)
    (hreach : Reaches m buf p) (h : Panics (respParseAt m buf fuel p)) :
    ∃ q, Reaches m buf q ∧ Oversized m buf q := by
  induction fuel generalizing p with
  | zero => exact absurd h (not_panics_err _)
  | succ fuel ih =>
      obtain ⟨pre, rest, rfl, rfl⟩ : ∃ pre rest, buf = pre ++ rest ∧ p = pre.length :=
        ⟨buf.take p, buf.drop p, (List.take_append_drop p buf).symm,
          (List.length_take_of_le hp).symm⟩
      rcases respParseAt_cases pre rest fuel hm with
        ⟨e, he⟩ | ⟨kind, line, suf, rfl, hline, ⟨v', hvalue⟩ | ⟨n, rfl | rfl, hint⟩⟩
      · rw [he] at h
        exact absurd h (not_panics_err e)
      · rw [respParseAt_line fuel hline hvalue rfl hm] at h
        exact absurd h (not_panics_ok _)
      · cases hfits : m.usize ((pre ++ header 36 line).length + n + 2) with
        | false =>
            rw [List.length_append] at hfits
            exact ⟨pre.length, hreach, line, n, hint, .inr ⟨⟨hline, pre, suf, rfl, rfl⟩, hfits⟩⟩
        | true =>
            rw [respParseAt_bulk fuel hline hint rfl hm hfits] at h
            split at h
            · exact absurd h (not_panics_err _)
            · exact absurd h (not_panics_ok _)
      · have hheader : HeaderAt (pre ++ (header 42 line ++ suf)) pre.length 42 line :=
          ⟨hline, pre, suf, rfl, rfl⟩
        cases hvec : m.vec n with
        | false => exact ⟨pre.length, hreach, line, n, hint, .inl ⟨hheader, hvec⟩⟩
        | true =>
            rw [respParseAt_array fuel hline hint hvec rfl hm] at h
            rcases panics_bind.mp h with hitems | ⟨found, -, hlast⟩
            · obtain ⟨k, vs, q, hk, hread, hq⟩ := readItems_panics hitems
              obtain ⟨rfl, hstands⟩ := stands_of_readItems
                (fun _ _ _ hp hv => stands_of_respParseAt hm hp hv)
                (by simp only [List.length_append]; omega) hread
              refine ih hstands.le.2 (.item hreach hheader hint ?_ hk) hq
              rwa [← List.length_append]
            · exact absurd hlast (not_panics_ok _)

theorem panics_of_oversized (hm : m.usize buf.length = true) {p : Nat}
    (h : Oversized m buf p) (fuel : Nat) : Panics (respParseAt m buf (fuel + 1) p) := by
  obtain ⟨line, n, hint, ⟨⟨hline, pre, suf, hbuf, rfl⟩, hvec⟩ |
    ⟨⟨hline, pre, suf, hbuf, rfl⟩, hfits⟩⟩ := h
  · exact ⟨.capacity, respParseAt_capacity fuel hline hint hvec hbuf hm⟩
  · rw [← List.length_append] at hfits
    exact ⟨.overflow, respParseAt_overflow fuel hline hint hbuf hm hfits⟩

/-- **A panic at a place that is reached is a panic of the parser.** -/
theorem panics_of_reaches (hm : m.usize buf.length = true) {p : Nat} (hreach : Reaches m buf p)
    (h : ∀ fuel, buf.length ≤ fuel + p → Panics (respParseAt m buf fuel p)) :
    Panics (parseReply m buf) := by
  induction hreach with
  | start => exact h buf.length (Nat.le_refl _)
  | @item p q count line items _ hheader hint hstands hlt ih =>
      obtain ⟨hline, pre, suf, hbuf, rfl⟩ := hheader
      refine ih fun fuel hfuel => ?_
      have hroom : pre.length < buf.length := by
        rw [hbuf]
        simp [header]
      obtain ⟨fuel, rfl⟩ : ∃ k, fuel = k + 1 := ⟨fuel - 1, by omega⟩
      cases hvec : m.vec count with
      | false => exact ⟨.capacity, respParseAt_capacity fuel hline hint hvec hbuf hm⟩
      | true =>
          rw [respParseAt_array fuel hline hint hvec hbuf hm]
          have hheader : pre.length < (pre ++ header 42 line).length := by simp [header]
          obtain ⟨pre', body, suf', hbuf', hpre, rfl, hbody⟩ := hstands
          rw [← List.length_append] at hpre
          have hlen := congrArg List.length hbuf'
          simp only [List.length_append] at hlen hheader hpre h
          rw [List.length_append, hpre]
          exact panics_bind.mpr (.inl (readItems_panics_of hlt
            (readItems_spelled hbody hm pre' suf' hbuf' (by omega))
            (List.length_append ▸ h fuel (by omega))))

theorem panics_iff (hm : m.usize buf.length = true) :
    Panics (parseReply m buf) ↔ ∃ p, Reaches m buf p ∧ Oversized m buf p := by
  constructor
  · exact oversized_of_panics hm (Nat.zero_le _) .start
  · rintro ⟨p, hreach, hover⟩
    have hroom : p < buf.length := by
      obtain ⟨line, n, -, ⟨⟨-, pre, suf, rfl, rfl⟩, -⟩ | ⟨⟨-, pre, suf, rfl, rfl⟩, -⟩⟩ := hover <;>
        simp [header]
    refine panics_of_reaches hm hreach fun fuel hfuel => ?_
    obtain ⟨fuel, rfl⟩ : ∃ k, fuel = k + 1 := ⟨fuel - 1, by omega⟩
    exact panics_of_oversized hm hover fuel

/-! ## 3. Safety -/

/-- The result is a value that lies in the buffer, or an error; it is no panic. -/
def Safe (m : Memory) (buf : Bytes) : Prop :=
  match parseReply m buf with
  | .ok (_, consumed) => consumed ≤ buf.length
  | .error (.err _) => True
  | .error (.panic _) => False

theorem safe_iff_not_panics (hm : m.usize buf.length = true) :
    Safe m buf ↔ ¬Panics (parseReply m buf) := by
  unfold Safe
  cases h : parseReply m buf with
  | ok found =>
      exact ⟨fun _ => not_panics_ok found,
        fun _ => (le_of_respParseAt hm (show respParseAt m buf _ 0 = .ok (found.1, found.2) from h)).2⟩
  | error stop =>
      cases stop with
      | panic p => exact ⟨False.elim, fun hno => hno ⟨p, rfl⟩⟩
      | err e => exact ⟨fun _ => not_panics_err e, fun _ => trivial⟩

end

/-- **The parser terminates on every buffer. It returns a value that lies in the buffer, that more
    is needed, or a protocol error** exactly if it does not reach a header that announces an array
    of more than `isize::MAX` bytes or a string that ends behind the last index. -/
theorem parse_reply_safe_iff (size : Nat) (buf : Bytes) (h : buf.length ≤ isizeMax) :
    (∀ fuel, buf.length ≤ fuel → respParseAt (.words64 size) buf fuel 0 =
      parseReply (.words64 size) buf) ∧
    (Safe (.words64 size) buf ↔
      ∀ p, Reaches (.words64 size) buf p → ¬Oversized (.words64 size) buf p) := by
  have hm : (Memory.words64 size).usize buf.length = true :=
    decide_eq_true (Nat.lt_of_le_of_lt h (by decide))
  refine ⟨fun fuel hfuel => respParseAt_fuel hm hfuel (Nat.le_refl _), ?_⟩
  rw [safe_iff_not_panics hm, panics_iff hm]
  simp only [not_exists, not_and]

/-- An array of `i64::MAX` values of 24 bytes. -/
theorem parse_reply_capacity :
    parseReply (.words64 24) (utf8 "*9223372036854775807\r\n") = .error (.panic .capacity) ∧
    ¬Safe (.words64 24) (utf8 "*9223372036854775807\r\n") := by
  have hpanic : parseReply (.words64 24) (utf8 "*9223372036854775807\r\n") =
      .error (.panic .capacity) := rfl
  refine ⟨hpanic, fun hsafe => ?_⟩
  unfold Safe at hsafe
  rw [hpanic] at hsafe
  exact hsafe

/-- An array of two values, all of it there. -/
theorem parse_reply_modest :
    Safe (.words64 24) (utf8 "*2\r\n$2\r\nok\r\n:7\r\n") ∧
    ∀ p, Reaches (.words64 24) (utf8 "*2\r\n$2\r\nok\r\n:7\r\n") p →
      ¬Oversized (.words64 24) (utf8 "*2\r\n$2\r\nok\r\n:7\r\n") p := by
  have hparse : parseReply (.words64 24) (utf8 "*2\r\n$2\r\nok\r\n:7\r\n") =
      .ok (.array (some [.bulk (some (utf8 "ok")), .int 7]), 16) := rfl
  have hsafe : Safe (.words64 24) (utf8 "*2\r\n$2\r\nok\r\n:7\r\n") := by
    unfold Safe
    rw [hparse]
    decide +kernel
  exact ⟨hsafe, (parse_reply_safe_iff 24 _ (by decide +kernel)).2.mp hsafe⟩

end Ruwa.Egress
