/-
  File:      Ruwa/Egress/RespGrammar.lean
  Subject:   THE REPLIES THE RESP PARSER READS: a grammar for them, and the parser against it.

  * `Spells` -- the grammar: the bytes of a sequence of replies;
  * **`readItems_spelled`** -- replies are read, whatever comes behind them;
  * **`readItems_short`** -- a proper beginning of replies is incomplete, at any depth of nesting;
  * **`stands_of_respParseAt`** -- what the parser takes is the spelling of its value.

  All three are inductions: the first two on the grammar, the last on the nesting.
-/
import Ruwa.Egress.Resp
import Ruwa.Library.Framing

namespace Ruwa.Egress

open Ruwa.Library Ruwa.Library.Checked

/-! ## 1. The grammar -/

/-- A reply that ends with its line. -/
inductive LineValue : UInt8 → Bytes → RespValue → Prop
  | simple (line : Bytes) : LineValue 43 line (.simple (fromUtf8Lossy line))
  | error (line : Bytes) : LineValue 45 line (.error (fromUtf8Lossy line))
  | int {line : Bytes} {n : Int} : lineInt line = some n → LineValue 58 line (.int n)
  | nullBulk {line : Bytes} {n : Int} : lineInt line = some n → n < 0 →
      LineValue 36 line (.bulk none)
  | nullArray {line : Bytes} {n : Int} : lineInt line = some n → n < 0 →
      LineValue 42 line (.array none)

/-- A type byte and its line. -/
def header (kind : UInt8) (line : Bytes) : Bytes := kind :: (line ++ crlf)

@[simp] theorem length_header (kind : UInt8) (line : Bytes) :
    (header kind line).length = line.length + 3 := by
  simp [header, crlf]

/-- Fuel for a header and more is fuel for one level, and for the rest below it. -/
theorem fuel_of_header {kind : UInt8} {line : Bytes} {rest fuel : Nat}
    (h : (header kind line).length + rest ≤ fuel) : ∃ n, fuel = n + 1 ∧ rest ≤ n := by
  rw [length_header] at h
  exact ⟨fuel - 1, by omega, by omega⟩

/-- The bytes are those of the replies, one behind the other; an array fits into the memory. -/
inductive Spells (m : Memory) : Bytes → List RespValue → Prop
  | nil : Spells m [] []
  | line {kind : UInt8} {line : Bytes} {v : RespValue} {bs : Bytes} {vs : List RespValue} :
      IsLine line → LineValue kind line v → Spells m bs vs →
      Spells m (header kind line ++ bs) (v :: vs)
  | bulk {line bytes trailer bs : Bytes} {vs : List RespValue} :
      IsLine line → lineInt line = some (bytes.length : Int) → trailer.length = 2 → Spells m bs vs →
      Spells m (header 36 line ++ (bytes ++ trailer ++ bs)) (.bulk (some bytes) :: vs)
  | array {line body bs : Bytes} {items vs : List RespValue} :
      IsLine line → lineInt line = some (items.length : Int) → m.vec items.length = true →
      Spells m body items → Spells m bs vs →
      Spells m (header 42 line ++ (body ++ bs)) (.array (some items) :: vs)

namespace Spells

variable {m : Memory} {bs bs' : Bytes} {vs vs' : List RespValue}

theorem append (h : Spells m bs vs) (h' : Spells m bs' vs') : Spells m (bs ++ bs') (vs ++ vs') := by
  induction h with
  | nil => exact h'
  | line hline hvalue _ ih =>
      rw [List.append_assoc]
      exact .line hline hvalue ih
  | bulk hline hint htrailer _ ih =>
      rw [List.append_assoc, List.append_assoc]
      exact .bulk hline hint htrailer ih
  | array hline hint hvec hbody _ _ ih =>
      rw [List.append_assoc, List.append_assoc]
      exact .array hline hint hvec hbody ih

/-- Every reply takes at least a type byte and the end of its line. -/
theorem length_le (h : Spells m bs vs) : 3 * vs.length ≤ bs.length := by
  induction h with
  | nil => exact Nat.le_refl 0
  | line _ _ _ ih | bulk _ _ _ _ ih =>
      simp only [length_header, List.length_append, List.length_cons]
      omega
  | array _ _ _ _ _ _ ih =>
      simp only [length_header, List.length_append, List.length_cons]
      omega

end Spells

/-! ## 2. The parser on the grammar -/

section

variable {m : Memory}

theorem respInt_ok {line : Bytes} {n : Int} (h : lineInt line = some n) : respInt line = .ok n := by
  unfold respInt
  rw [h]

/-- One level of the parser, at a place where something stands. -/
theorem respParseAt_cons (pre : Bytes) (kind : UInt8) (rest : Bytes) (fuel : Nat)
    (hm : m.usize (pre ++ kind :: rest).length = true) :
    respParseAt m (pre ++ kind :: rest) (fuel + 1) pre.length =
      (respLine m (pre ++ [kind] ++ rest) (pre ++ [kind]).length >>= fun (line, next) =>
        respBody m (pre ++ kind :: rest) (respParseAt m (pre ++ kind :: rest) fuel) kind line
          next) := by
  have hpos : ¬pre.length ≥ (pre ++ kind :: rest).length := by simp
  rw [respParseAt, if_neg hpos, Result.ok_bind (index_append pre kind rest),
    Result.ok_bind (add_ok (m.usize_mono (by simp) hm))]
  simp only [List.append_assoc, List.singleton_append, List.length_append, List.length_singleton]

/-- The header is there: the rest of the value is read behind it. -/
theorem respParseAt_header (pre : Bytes) (kind : UInt8) {line : Bytes} (h : IsLine line)
    (suf : Bytes) (fuel : Nat) (hm : m.usize (pre ++ (header kind line ++ suf)).length = true) :
    respParseAt m (pre ++ (header kind line ++ suf)) (fuel + 1) pre.length =
      respBody m (pre ++ (header kind line ++ suf))
        (respParseAt m (pre ++ (header kind line ++ suf)) fuel) kind line
        (pre ++ header kind line).length := by
  have hbuf : pre ++ [kind] ++ (line ++ crlf ++ suf) = pre ++ (header kind line ++ suf) := by
    simp [header]
  have hline := respLine_line (m := m) (pre ++ [kind]) h suf (by rwa [hbuf])
  have hnext : (pre ++ [kind] ++ (line ++ crlf)).length = (pre ++ header kind line).length := by
    simp [header]
  rw [hnext] at hline
  exact (respParseAt_cons pre kind (line ++ crlf ++ suf) fuel hm).trans (Result.ok_bind hline _)

/-- The header is not there yet. -/
theorem respParseAt_short (pre : Bytes) {kind : UInt8} {line cut : Bytes} (h : IsLine line)
    (hcut : cut <+: header kind line) (hlt : cut.length < (header kind line).length) (fuel : Nat)
    (hm : m.usize (pre ++ cut).length = true) :
    respParseAt m (pre ++ cut) fuel pre.length = .error (.err .incomplete) := by
  cases fuel with
  | zero => rfl
  | succ fuel =>
      cases cut with
      | nil =>
          rw [respParseAt, if_pos (by simp)]
      | cons kind' cut =>
          obtain ⟨rfl, hcut'⟩ := List.cons_prefix_cons.mp hcut
          have hshort : IsLine cut := isLine_of_prefix h hcut' (Nat.lt_of_succ_lt_succ hlt)
          rw [respParseAt_cons pre kind' cut fuel hm, respLine_short _ hshort (by simpa using hm)]
          rfl

/-- A bulk string: it is there with what ends it, or the buffer ends before. -/
theorem respParseAt_bulk {buf pre line rest : Bytes} {len : Nat} (fuel : Nat) (hline : IsLine line)
    (hint : lineInt line = some (len : Int)) (hbuf : buf = pre ++ (header 36 line ++ rest))
    (hm : m.usize buf.length = true)
    (hfits : m.usize ((pre ++ header 36 line).length + len + 2) = true) :
    respParseAt m buf (fuel + 1) pre.length =
      if len + 2 > rest.length then .error (.err .incomplete)
      else .ok (.bulk (some (rest.take len)), (pre ++ header 36 line).length + len + 2) := by
  subst hbuf
  rw [respParseAt_header pre 36 hline rest fuel hm]
  refine (Result.ok_bind (respInt_ok hint) _).trans ?_
  rw [if_neg (Int.not_lt.mpr (Int.natCast_nonneg len)), Int.toNat_natCast,
    Result.ok_bind (add_ok (m.usize_mono (Nat.le_add_right _ 2) hfits)),
    Result.ok_bind (add_ok hfits)]
  by_cases hroom : len + 2 > rest.length
  · rw [if_pos hroom, if_pos (by simp only [List.length_append]; omega)]
  · have hend : (pre ++ header 36 line).length + len ≤
        (pre ++ (header 36 line ++ rest)).length := by
      simp only [List.length_append]
      omega
    rw [if_neg hroom, if_neg (by simp only [List.length_append]; omega),
      Result.ok_bind (slice_ok (Nat.le_add_right _ len) hend), List.drop_take,
      Nat.add_sub_cancel_left, ← List.append_assoc, List.drop_left]
    rfl

/-- The end of a bulk string that no index can be. -/
theorem respParseAt_overflow {buf pre line rest : Bytes} {len : Nat} (fuel : Nat)
    (hline : IsLine line) (hint : lineInt line = some (len : Int))
    (hbuf : buf = pre ++ (header 36 line ++ rest)) (hm : m.usize buf.length = true)
    (hfits : m.usize ((pre ++ header 36 line).length + len + 2) = false) :
    respParseAt m buf (fuel + 1) pre.length = .error (.panic .overflow) := by
  subst hbuf
  rw [respParseAt_header pre 36 hline rest fuel hm]
  refine (Result.ok_bind (respInt_ok hint) _).trans ?_
  rw [if_neg (Int.not_lt.mpr (Int.natCast_nonneg len)), Int.toNat_natCast]
  unfold add
  split
  · refine (Result.ok_bind rfl _).trans ?_
    rw [if_neg (by rw [hfits]; exact Bool.false_ne_true)]
    rfl
  · rfl

/-- An array: what the loop over its values gives. -/
theorem respParseAt_array {buf pre line rest : Bytes} {count : Nat} (fuel : Nat)
    (hline : IsLine line)
    (hint : lineInt line = some (count : Int)) (hvec : m.vec count = true)
    (hbuf : buf = pre ++ (header 42 line ++ rest)) (hm : m.usize buf.length = true) :
    respParseAt m buf (fuel + 1) pre.length =
      (readItems (respParseAt m buf fuel) count (pre ++ header 42 line).length >>=
        fun (items, p) => .ok (.array (some items), p)) := by
  subst hbuf
  rw [respParseAt_header pre 42 hline rest fuel hm]
  refine (Result.ok_bind (respInt_ok hint) _).trans ?_
  rw [if_neg (Int.not_lt.mpr (Int.natCast_nonneg count)), Int.toNat_natCast,
    Result.ok_bind (withCapacity_ok hvec)]
  rfl

/-- An array for which there is no room. -/
theorem respParseAt_capacity {buf pre line rest : Bytes} {count : Nat} (fuel : Nat)
    (hline : IsLine line) (hint : lineInt line = some (count : Int)) (hvec : m.vec count = false)
    (hbuf : buf = pre ++ (header 42 line ++ rest)) (hm : m.usize buf.length = true) :
    respParseAt m buf (fuel + 1) pre.length = .error (.panic .capacity) := by
  subst hbuf
  rw [respParseAt_header pre 42 hline rest fuel hm]
  refine (Result.ok_bind (respInt_ok hint) _).trans ?_
  rw [if_neg (Int.not_lt.mpr (Int.natCast_nonneg count)), Int.toNat_natCast]
  unfold withCapacity
  rw [if_neg (by simp [hvec])]
  rfl

/-- A reply that is its line. -/
theorem respParseAt_line {buf pre line rest : Bytes} {kind : UInt8} {v : RespValue} (fuel : Nat)
    (hline : IsLine line) (hvalue : LineValue kind line v)
    (hbuf : buf = pre ++ (header kind line ++ rest)) (hm : m.usize buf.length = true) :
    respParseAt m buf (fuel + 1) pre.length = .ok (v, (pre ++ header kind line).length) := by
  subst hbuf
  rw [respParseAt_header pre kind hline rest fuel hm]
  cases hvalue with
  | simple | error => rfl
  | int hint => exact Result.ok_bind (respInt_ok hint) _
  | nullBulk hint hneg | nullArray hint hneg =>
      refine (Result.ok_bind (respInt_ok hint) _).trans ?_
      rw [if_pos hneg]
      rfl

theorem readItems_succ {parse : Nat → Except (Stop RespError) (RespValue × Nat)} {p q r n : Nat}
    {v : RespValue} {vs : List RespValue} (h : parse p = .ok (v, q))
    (h' : readItems parse n q = .ok (vs, r)) : readItems parse (n + 1) p = .ok (v :: vs, r) := by
  rw [readItems, Result.ok_bind h]
  dsimp only
  rw [Result.ok_bind h']
  rfl

/-- **Replies are read**, whatever comes behind them. -/
theorem readItems_spelled {bs : Bytes} {vs : List RespValue} (h : Spells m bs vs) {buf : Bytes}
    (hm : m.usize buf.length = true) (pre suf : Bytes) (hbuf : buf = pre ++ (bs ++ suf))
    {fuel : Nat} (hfuel : bs.length ≤ fuel) :
    readItems (respParseAt m buf fuel) vs.length pre.length = .ok (vs, (pre ++ bs).length) := by
  induction h generalizing pre suf fuel with
  | nil =>
      rw [List.append_nil]
      rfl
  | @line kind line v bs vs hline hvalue _ ih =>
      rw [List.append_assoc] at hbuf
      rw [List.length_append] at hfuel
      obtain ⟨fuel, rfl, hleft⟩ := fuel_of_header hfuel
      rw [← List.append_assoc]
      refine readItems_succ (respParseAt_line fuel hline hvalue hbuf hm) (ih _ suf ?_ (by omega))
      rw [hbuf, List.append_assoc]
  | @bulk line bytes trailer bs vs hline hint htrailer _ ih =>
      simp only [List.append_assoc] at hbuf
      rw [List.length_append] at hfuel
      obtain ⟨fuel, rfl, hleft⟩ := fuel_of_header hfuel
      simp only [List.length_append] at hleft
      have hroom : ¬bytes.length + 2 > (bytes ++ (trailer ++ (bs ++ suf))).length := by
        simp only [List.length_append]
        omega
      have hend : (pre ++ header 36 line).length + bytes.length + 2 =
          (pre ++ header 36 line ++ (bytes ++ trailer)).length := by
        simp only [List.length_append]
        omega
      have hvalue := respParseAt_bulk fuel hline hint hbuf hm
        (m.usize_mono (by rw [hbuf]; simp only [List.length_append]; omega) hm)
      rw [if_neg hroom, List.take_left, hend] at hvalue
      rw [← List.append_assoc, ← List.append_assoc]
      refine readItems_succ hvalue (ih _ suf ?_ (by omega))
      simp only [hbuf, List.append_assoc]
  | @array line body bs items vs hline hint hvec hbody _ ihBody ih =>
      simp only [List.append_assoc] at hbuf
      rw [List.length_append] at hfuel
      obtain ⟨fuel, rfl, hleft⟩ := fuel_of_header hfuel
      simp only [List.length_append] at hleft
      have hvalue := respParseAt_array fuel hline hint hvec hbuf hm
      rw [ihBody (pre ++ header 42 line) (bs ++ suf) (by rw [hbuf, List.append_assoc])
        (by omega)] at hvalue
      rw [← List.append_assoc, ← List.append_assoc]
      refine readItems_succ hvalue (ih (pre ++ header 42 line ++ body) suf ?_ (by omega))
      simp only [hbuf, List.append_assoc]

theorem readItems_error {parse : Nat → Except (Stop RespError) (RespValue × Nat)} {p n : Nat}
    {stop : Stop RespError} (h : parse p = .error stop) :
    readItems parse (n + 1) p = .error stop := by
  rw [readItems, h]
  rfl

theorem readItems_later {parse : Nat → Except (Stop RespError) (RespValue × Nat)} {p q n : Nat}
    {v : RespValue} {stop : Stop RespError} (h : parse p = .ok (v, q))
    (h' : readItems parse n q = .error stop) : readItems parse (n + 1) p = .error stop := by
  rw [readItems, Result.ok_bind h]
  dsimp only
  rw [h']
  rfl

/-- **A proper beginning of replies is incomplete.** -/
theorem readItems_short {bs : Bytes} {vs : List RespValue} (h : Spells m bs vs) {buf : Bytes}
    (hm : m.usize buf.length = true) (pre cut : Bytes) (hbuf : buf = pre ++ cut) (hcut : cut <+: bs)
    (hlt : cut.length < bs.length) (hfits : m.usize (pre ++ bs).length = true) {fuel : Nat}
    (hfuel : cut.length ≤ fuel) :
    readItems (respParseAt m buf fuel) vs.length pre.length = .error (.err .incomplete) := by
  induction h generalizing pre cut fuel with
  | nil => exact absurd hlt (Nat.not_lt_zero _)
  | @line kind line v bs vs hline hvalue _ ih =>
      rcases prefix_append_cases hcut with ⟨hhead, hshort⟩ | ⟨cut, rfl, hcut'⟩
      · apply readItems_error
        rw [hbuf] at hm ⊢
        exact respParseAt_short pre hline hhead hshort fuel hm
      · rw [List.length_append] at hfuel
        obtain ⟨fuel, rfl, hleft⟩ := fuel_of_header hfuel
        simp only [List.length_append] at hlt
        refine readItems_later (respParseAt_line fuel hline hvalue hbuf hm) ?_
        refine ih (pre ++ header kind line) cut ?_ hcut' (by omega) ?_ (by omega)
        · rw [hbuf, List.append_assoc]
        · rwa [List.append_assoc]
  | @bulk line bytes trailer bs vs hline hint htrailer _ ih =>
      rcases prefix_append_cases hcut with ⟨hhead, hshort⟩ | ⟨cut, rfl, hcut'⟩
      · apply readItems_error
        rw [hbuf] at hm ⊢
        exact respParseAt_short pre hline hhead hshort fuel hm
      · rw [List.length_append] at hfuel
        obtain ⟨fuel, rfl, hleft⟩ := fuel_of_header hfuel
        simp only [List.length_append] at hlt
        have hvalue := respParseAt_bulk fuel hline hint hbuf hm
          (m.usize_mono (by simp only [List.length_append]; omega) hfits)
        by_cases hroom : bytes.length + 2 > cut.length
        · rw [if_pos hroom] at hvalue
          exact readItems_error hvalue
        · -- the string is there, so what is missing is behind it
          rw [if_neg hroom] at hvalue
          rcases prefix_append_cases hcut' with ⟨-, hshort⟩ | ⟨cut, rfl, hcut''⟩
          · rw [List.length_append] at hshort
            omega
          · refine readItems_later hvalue ?_
            have hend : (pre ++ header 36 line).length + bytes.length + 2 =
                (pre ++ header 36 line ++ (bytes ++ trailer)).length := by
              simp only [List.length_append]
              omega
            rw [hend]
            simp only [List.length_append] at hleft hlt
            refine ih _ cut ?_ hcut'' (by omega) ?_ (by omega)
            · simp only [hbuf, List.append_assoc]
            · simpa only [List.append_assoc] using hfits
  | @array line body bs items vs hline hint hvec hbody _ ihBody ih =>
      rcases prefix_append_cases hcut with ⟨hhead, hshort⟩ | ⟨cut, rfl, hcut'⟩
      · apply readItems_error
        rw [hbuf] at hm ⊢
        exact respParseAt_short pre hline hhead hshort fuel hm
      · rw [List.length_append] at hfuel
        obtain ⟨fuel, rfl, hleft⟩ := fuel_of_header hfuel
        simp only [List.length_append] at hlt
        have hvalue := respParseAt_array fuel hline hint hvec hbuf hm
        have hbuf' : buf = pre ++ header 42 line ++ cut := by rw [hbuf, List.append_assoc]
        rcases prefix_append_cases hcut' with ⟨hbegun, hshort⟩ | ⟨cut, rfl, hcut''⟩
        · -- the buffer ends among the values of the array
          rw [ihBody _ cut hbuf' hbegun hshort
            (m.usize_mono (by simp only [List.length_append]; omega) hfits) hleft] at hvalue
          exact readItems_error hvalue
        · simp only [List.length_append] at hleft hlt
          rw [readItems_spelled hbody hm _ cut hbuf' (by omega)] at hvalue
          refine readItems_later hvalue (ih _ cut ?_ hcut'' (by omega) ?_ (by omega))
          · simp only [hbuf, List.append_assoc]
          · simpa only [List.append_assoc] using hfits

/-! ## 3. What the parser takes is spelled -/

theorem respInt_error {α : Type} {line : Bytes} (h : lineInt line = none)
    (f : Int → Except (Stop RespError) α) : ∃ e, (respInt line >>= f) = .error (.err e) := by
  unfold respInt
  rw [h]
  exact ⟨_, rfl⟩

theorem respBody_cases (buf : Bytes) (parse : Nat → Except (Stop RespError) (RespValue × Nat))
    (kind : UInt8) (line : Bytes) (next : Nat) :
    (∃ e, respBody m buf parse kind line next = .error (.err e)) ∨
    (∃ v, LineValue kind line v) ∨
    ∃ n : Nat, (kind = 36 ∨ kind = 42) ∧ lineInt line = some (n : Int) := by
  unfold respBody
  split
  · exact .inr (.inl ⟨_, .simple line⟩)
  · exact .inr (.inl ⟨_, .error line⟩)
  · cases hint : lineInt line with
    | none => exact .inl (respInt_error hint _)
    | some n => exact .inr (.inl ⟨_, .int hint⟩)
  · cases hint : lineInt line with
    | none => exact .inl (respInt_error hint _)
    | some n =>
        rcases Int.lt_or_le n 0 with hneg | hge
        · exact .inr (.inl ⟨_, .nullBulk hint hneg⟩)
        · exact .inr (.inr ⟨n.toNat, .inl rfl, by rw [Int.toNat_of_nonneg hge]⟩)
  · cases hint : lineInt line with
    | none => exact .inl (respInt_error hint _)
    | some n =>
        rcases Int.lt_or_le n 0 with hneg | hge
        · exact .inr (.inl ⟨_, .nullArray hint hneg⟩)
        · exact .inr (.inr ⟨n.toNat, .inr rfl, by rw [Int.toNat_of_nonneg hge]⟩)
  · exact .inl ⟨_, rfl⟩

/-- **One level of the parser, by what stands there**: nothing it can use, a reply that is its line,
    or the header of a bulk string or an array. -/
theorem respParseAt_cases (pre rest : Bytes) (fuel : Nat)
    (hm : m.usize (pre ++ rest).length = true) :
    (∃ e, respParseAt m (pre ++ rest) (fuel + 1) pre.length = .error (.err e)) ∨
    ∃ kind line suf, rest = header kind line ++ suf ∧ IsLine line ∧
      ((∃ v, LineValue kind line v) ∨
        ∃ n : Nat, (kind = 36 ∨ kind = 42) ∧ lineInt line = some (n : Int)) := by
  cases rest with
  | nil => exact .inl ⟨.incomplete, by rw [respParseAt, if_pos (by simp)]⟩
  | cons kind rest =>
      cases hline : crlfAt rest with
      | none =>
          have hshort := respLine_short (pre ++ [kind]) (crlfAt_eq_none.mp hline)
            (by simpa using hm)
          refine .inl ⟨.incomplete, ?_⟩
          rw [respParseAt_cons pre kind rest fuel hm, hshort]
          rfl
      | some i =>
          obtain ⟨line, suf, rfl, hisLine, -⟩ := crlfAt_eq_some hline
          have hstep := respParseAt_header pre kind hisLine suf fuel hm
          rcases respBody_cases (pre ++ (header kind line ++ suf))
            (respParseAt m (pre ++ (header kind line ++ suf)) fuel) kind line
            (pre ++ header kind line).length with ⟨e, he⟩ | hvalue
          · exact .inl ⟨e, hstep.trans he⟩
          · exact .inr ⟨kind, line, suf, rfl, hisLine, hvalue⟩

/-- The values that stand from one place to another. -/
def Stands (m : Memory) (buf : Bytes) (pos : Nat) (vs : List RespValue) (next : Nat) : Prop :=
  ∃ pre bs suf, buf = pre ++ (bs ++ suf) ∧ pos = pre.length ∧ next = (pre ++ bs).length ∧
    Spells m bs vs

theorem Stands.le {buf : Bytes} {p q : Nat} {vs : List RespValue} (h : Stands m buf p vs q) :
    p ≤ q ∧ q ≤ buf.length := by
  obtain ⟨pre, bs, suf, rfl, rfl, rfl, -⟩ := h
  simp only [List.length_append]
  omega

theorem Stands.trans {buf : Bytes} {p q r : Nat} {vs vs' : List RespValue}
    (h : Stands m buf p vs q) (h' : Stands m buf q vs' r) : Stands m buf p (vs ++ vs') r := by
  obtain ⟨pre, bs, suf, rfl, rfl, rfl, hspells⟩ := h
  obtain ⟨pre', bs', suf', heq, hq, rfl, hspells'⟩ := h'
  rw [← List.append_assoc] at heq
  obtain ⟨rfl, rfl⟩ := List.append_inj heq hq
  exact ⟨pre, bs ++ bs', suf', by simp only [List.append_assoc], rfl,
    by rw [List.append_assoc], hspells.append hspells'⟩

theorem stands_of_readItems {buf : Bytes}
    {parse : Nat → Except (Stop RespError) (RespValue × Nat)}
    (hparse : ∀ p v q, p ≤ buf.length → parse p = .ok (v, q) → Stands m buf p [v] q) {n p q : Nat}
    {vs : List RespValue} (hp : p ≤ buf.length) (h : readItems parse n p = .ok (vs, q)) :
    vs.length = n ∧ Stands m buf p vs q := by
  induction n generalizing p vs with
  | zero =>
      cases h
      refine ⟨rfl, buf.take q, [], buf.drop q, ?_, ?_, ?_, .nil⟩
      · exact (List.take_append_drop q buf).symm
      · exact (List.length_take_of_le hp).symm
      · rw [List.append_nil, List.length_take_of_le hp]
  | succ n ih =>
      obtain ⟨⟨v, np⟩, hv, h⟩ := Result.bind_ok.mp h
      obtain ⟨⟨items, stop⟩, hitems, h⟩ := Result.bind_ok.mp h
      cases h
      have hstands := hparse p v np hp hv
      obtain ⟨hlen, hrest⟩ := ih hstands.le.2 hitems
      exact ⟨congrArg (· + 1) hlen, hstands.trans hrest⟩

/-- **What the parser takes is the spelling of its value.** -/
theorem stands_of_respParseAt {buf : Bytes} (hm : m.usize buf.length = true) {fuel p q : Nat}
    {v : RespValue} (hp : p ≤ buf.length) (h : respParseAt m buf fuel p = .ok (v, q)) :
    Stands m buf p [v] q := by
  induction fuel generalizing p q v with
  | zero => cases h
  | succ fuel ih =>
      obtain ⟨pre, rest, rfl, rfl⟩ : ∃ pre rest, buf = pre ++ rest ∧ p = pre.length :=
        ⟨buf.take p, buf.drop p, (List.take_append_drop p buf).symm,
          (List.length_take_of_le hp).symm⟩
      rcases respParseAt_cases pre rest fuel hm with
        ⟨e, he⟩ | ⟨kind, line, suf, rfl, hline, ⟨v', hvalue⟩ | ⟨n, rfl | rfl, hint⟩⟩
      · rw [he] at h
        cases h
      · rw [respParseAt_line fuel hline hvalue rfl hm] at h
        cases h
        refine ⟨pre, header kind line, suf, rfl, rfl, rfl, ?_⟩
        simpa using Spells.line hline hvalue .nil
      · cases hfits : m.usize ((pre ++ header 36 line).length + n + 2) with
        | false =>
            rw [respParseAt_overflow fuel hline hint rfl hm hfits] at h
            cases h
        | true =>
            rw [respParseAt_bulk fuel hline hint rfl hm hfits] at h
            split at h
            · cases h
            · rename_i hroom
              cases h
              have hlen : (suf.take n).length = n := List.length_take_of_le (by omega)
              have htrailer : ((suf.drop n).take 2).length = 2 :=
                List.length_take_of_le (by rw [List.length_drop]; omega)
              have hsuf : suf = suf.take n ++ (suf.drop n).take 2 ++ (suf.drop n).drop 2 := by
                rw [List.append_assoc, List.take_append_drop, List.take_append_drop]
              refine ⟨pre, header 36 line ++ (suf.take n ++ (suf.drop n).take 2),
                (suf.drop n).drop 2, ?_, rfl, ?_, ?_⟩
              · rw [List.append_assoc, ← hsuf]
              · simp only [List.length_append, hlen, htrailer]
                omega
              · have hone := Spells.bulk hline (by rw [hlen]; exact hint) htrailer (.nil (m := m))
                rwa [List.append_nil] at hone
      · cases hvec : m.vec n with
        | false =>
            rw [respParseAt_capacity fuel hline hint hvec rfl hm] at h
            cases h
        | true =>
            rw [respParseAt_array fuel hline hint hvec rfl hm] at h
            obtain ⟨⟨items, stop⟩, hitems, h⟩ := Result.bind_ok.mp h
            cases h
            obtain ⟨hlen, hstands⟩ := stands_of_readItems (fun _ _ _ => ih)
              (by simp only [List.length_append]; omega) hitems
            obtain ⟨pre', body, suf', heq, hpre, rfl, hbody⟩ := hstands
            rw [← List.append_assoc] at heq
            obtain ⟨rfl, rfl⟩ := List.append_inj heq hpre
            refine ⟨pre, header 42 line ++ body, suf', by simp only [List.append_assoc], rfl,
              by rw [List.append_assoc], ?_⟩
            subst hlen
            have hone := Spells.array hline hint hvec hbody (.nil (m := m))
            rwa [List.append_nil] at hone

end

end Ruwa.Egress
