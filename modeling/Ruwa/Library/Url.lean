/-
  File:      Ruwa/Library/Url.lean
  Subject:   HTTP URLS, as a parser makes them of a text: an origin, and a path behind it.

  Both slashes divide the path into segments. A segment of one or two dots, also where they are
  escaped, names no entry; every other one is escaped as it stands.

  * `pathOf_append` -- what stands in front of a path is a stack that the path goes on with;
  * `resolve_plain` -- segments without dots are put on the stack one by one;
  * **`weight_resolve`** -- dots make a path shorter;
  * `Parser` -- what is asked of a parser;
  * **`under_eq_self_iff`** -- which texts are read as themselves behind a root.
-/
import Ruwa.Library.Percent
import Ruwa.Library.Text
import Mathlib.Algebra.BigOperators.Group.List.Basic
import Mathlib.Algebra.GroupWithZero.Nat
import Mathlib.Data.List.DropRight

namespace Ruwa.Library.Url

open Percent

/-! ## 1. Segments -/

/-- `/` and `\` -/
def isSeparator (b : UInt8) : Bool := b = 47 || b = 92

def segments (bs : Bytes) : List Bytes := bs.splitOnP isSeparator

/-- The dots that a segment consists of, also as `%2e`. -/
def dotCount : Bytes → Option Nat
  | [] => some 0
  | 46 :: bs => (dotCount bs).map (· + 1)
  | 37 :: 50 :: 69 :: bs => (dotCount bs).map (· + 1)
  | 37 :: 50 :: 101 :: bs => (dotCount bs).map (· + 1)
  | _ => none

/-- The segment names the directory it is in, or the one above. -/
def IsDots (s : Bytes) : Prop := dotCount s = some 1 ∨ dotCount s = some 2

instance (s : Bytes) : Decidable (IsDots s) := inferInstanceAs (Decidable (_ ∨ _))

section Resolve

variable (keep : UInt8 → Bool)

/-- A segment that another one follows, on a stack of those before. -/
def enterSegment (stack : List Bytes) (s : Bytes) : List Bytes :=
  if dotCount s = some 2 then stack.tail
  else if dotCount s = some 1 then stack
  else escape keep s :: stack

/-- Behind the last one there is always an entry, if only an empty one. -/
def lastSegment (stack : List Bytes) (s : Bytes) : List Bytes :=
  if dotCount s = some 2 then [] :: stack.tail
  else if dotCount s = some 1 then [] :: stack
  else escape keep s :: stack

def resolve : List Bytes → List Bytes → List Bytes
  | stack, [] => stack
  | stack, [s] => lastSegment keep stack s
  | stack, s :: t :: rest => resolve (enterSegment keep stack s) (t :: rest)

def render (segs : List Bytes) : Bytes := segs.flatMap fun s => 47 :: s

/-- The path that is written behind the host. -/
def pathOf : Bytes → Bytes
  | [] => [47]
  | _ :: bs => render (resolve keep [] (segments bs)).reverse

/-- The stack that a text leaves in front of a path. -/
def entered : Bytes → List Bytes
  | [] => []
  | _ :: bs => (segments bs).foldl (enterSegment keep) []

end Resolve

/-! ## 2. The stack -/

variable {keep : UInt8 → Bool}

theorem segments_ne_nil (bs : Bytes) : segments bs ≠ [] := List.splitOnP_ne_nil isSeparator bs

theorem segments_append (left right : Bytes) {sep : UInt8} (h : isSeparator sep = true) :
    segments (left ++ sep :: right) = segments left ++ segments right :=
  List.splitOnP_append_cons left right h

/-- Bytes that do not divide belong to the first segment. -/
theorem segments_front {front : Bytes} (h : ∀ b ∈ front, isSeparator b = false) (bs : Bytes) :
    segments (front ++ bs) = (segments bs).modifyHead (front ++ ·) := by
  obtain ⟨s, segs, heq⟩ := List.exists_cons_of_ne_nil (segments_ne_nil bs)
  induction front with
  | nil => rw [List.nil_append, heq, List.modifyHead_cons, List.nil_append]
  | cons b front ih =>
      have hrest := ih fun c hc => h c (List.mem_cons_of_mem b hc)
      unfold segments at *
      rw [List.cons_append, List.splitOnP_cons_eq_if_modifyHead, if_neg, hrest, heq]
      · rfl
      · rw [h b List.mem_cons_self]
        exact Bool.false_ne_true

theorem resolve_append (stack left : List Bytes) {right : List Bytes} (h : right ≠ []) :
    resolve keep stack (left ++ right) = resolve keep (left.foldl (enterSegment keep) stack) right := by
  induction left generalizing stack with
  | nil => rfl
  | cons s left ih =>
      obtain ⟨t, rest, heq⟩ := List.exists_cons_of_ne_nil (List.append_ne_nil_of_right_ne_nil left h)
      rw [List.cons_append, heq, resolve, ← heq, ih]
      rfl

/-- **A path goes on with the stack of what stands in front of it.** -/
theorem pathOf_append (front path : Bytes) :
    pathOf keep (front ++ 47 :: path) =
      render (resolve keep (entered keep front) (segments path)).reverse := by
  cases front with
  | nil => rfl
  | cons c rest =>
      rw [List.cons_append, pathOf, segments_append rest path (by decide),
        resolve_append [] _ (segments_ne_nil path)]
      rfl

/-- **Segments without dots are put on the stack one by one.** -/
theorem resolve_plain {stack segs : List Bytes} (h : ∀ s ∈ segs, ¬IsDots s) :
    resolve keep stack segs = (segs.map (escape keep)).reverse ++ stack := by
  have hone : ∀ (stack : List Bytes) (s : Bytes), ¬IsDots s →
      enterSegment keep stack s = escape keep s :: stack ∧
        lastSegment keep stack s = escape keep s :: stack := by
    intro stack s hs
    obtain ⟨hsingle, hdouble⟩ := not_or.mp hs
    refine ⟨?_, ?_⟩
    · rw [enterSegment, if_neg hdouble, if_neg hsingle]
    · rw [lastSegment, if_neg hdouble, if_neg hsingle]
  induction segs generalizing stack with
  | nil => rfl
  | cons s segs ih =>
      have hs := hone stack s (h s List.mem_cons_self)
      cases segs with
      | nil => exact hs.2
      | cons t rest =>
          rw [resolve, hs.1, ih fun s hs => h s (List.mem_cons_of_mem _ hs)]
          simp

/-! ## 3. Dots -/

theorem escape_eq_nil {s : Bytes} (h : escape keep s = []) : s = [] := by
  cases s with
  | nil => rfl
  | cons b s =>
      cases hb : keep b with
      | true => rw [escape_cons_pos hb] at h; cases h
      | false => rw [escape_cons_neg hb] at h; cases h

/-- A byte of an escaped text that is no `%` stood there before. -/
theorem escape_eq_cons {s bs : Bytes} {b : UInt8} (hb : b ≠ 37) (h : escape keep s = b :: bs) :
    ∃ s', s = b :: s' ∧ escape keep s' = bs := by
  cases s with
  | nil => cases h
  | cons c s =>
      cases hc : keep c with
      | true =>
          rw [escape_cons_pos hc] at h
          cases h
          exact ⟨s, rfl, rfl⟩
      | false =>
          rw [escape_cons_neg hc] at h
          cases h
          exact absurd rfl hb

/-- No escape that is made spells a dot: the dot is kept. -/
theorem escape_eq_dot {s bs : Bytes} {e : UInt8} (hdot : keep 46 = true) (he : e = 69 ∨ e = 101)
    (h : escape keep s = 37 :: 50 :: e :: bs) :
    ∃ s', s = 37 :: 50 :: e :: s' ∧ escape keep s' = bs := by
  have hbyte : ∀ c : UInt8, hexUpper (c / 16) = 50 → hexUpper (c % 16) = 69 ∨ hexUpper (c % 16) = 101 →
      c = 46 := forall_byte (by decide +kernel)
  cases s with
  | nil => cases h
  | cons c s =>
      cases hc : keep c with
      | true =>
          rw [escape_cons_pos hc] at h
          obtain ⟨rfl, h₀⟩ := List.cons.inj h
          have hne : e ≠ 37 := by rcases he with rfl | rfl <;> decide
          obtain ⟨s₁, rfl, h₁⟩ := escape_eq_cons (by decide) h₀
          obtain ⟨s₂, rfl, h₂⟩ := escape_eq_cons hne h₁
          exact ⟨s₂, rfl, h₂⟩
      | false =>
          rw [escape_cons_neg hc] at h
          simp only [escapeByte, List.cons_append, List.nil_append, List.cons.injEq, true_and] at h
          obtain ⟨hhi, hlo, -⟩ := h
          rw [hbyte c hhi (by rwa [hlo])] at hc
          rw [hdot] at hc
          cases hc

/-- **A text that consists of dots when it is escaped did so before.** -/
theorem dotCount_escape (hdot : keep 46 = true) {s : Bytes} {n : Nat}
    (h : dotCount (escape keep s) = some n) : dotCount s = some n := by
  have hall : ∀ (bs : Bytes) (n : Nat), dotCount bs = some n →
      ∀ s, escape keep s = bs → dotCount s = some n := by
    intro bs
    fun_induction dotCount bs with
    | case1 =>
        intro n hn s hs
        rw [escape_eq_nil hs]
        exact hn
    | case2 bs ih =>
        intro n hn s hs
        obtain ⟨s', rfl, hs'⟩ := escape_eq_cons (by decide) hs
        obtain ⟨m, hm, rfl⟩ := Option.map_eq_some_iff.mp hn
        rw [dotCount, ih m hm s' hs']
        rfl
    | case3 bs ih =>
        intro n hn s hs
        obtain ⟨s', rfl, hs'⟩ := escape_eq_dot hdot (.inl rfl) hs
        obtain ⟨m, hm, rfl⟩ := Option.map_eq_some_iff.mp hn
        rw [dotCount, ih m hm s' hs']
        rfl
    | case4 bs ih =>
        intro n hn s hs
        obtain ⟨s', rfl, hs'⟩ := escape_eq_dot hdot (.inr rfl) hs
        obtain ⟨m, hm, rfl⟩ := Option.map_eq_some_iff.mp hn
        rw [dotCount, ih m hm s' hs']
        rfl
    | case5 bs => exact fun n hn => nomatch hn
  exact hall _ n h s rfl

theorem isDots_escape (hdot : keep 46 = true) {s : Bytes} (h : IsDots (escape keep s)) : IsDots s := by
  rcases h with h | h
  · exact .inl (dotCount_escape hdot h)
  · exact .inr (dotCount_escape hdot h)

/-- What stands on the stack: what stood there before, empty entries, and segments that are no
    dots. -/
theorem mem_resolve {stack segs : List Bytes} {s : Bytes} (h : s ∈ resolve keep stack segs) :
    s ∈ stack ∨ s = [] ∨ ∃ t ∈ segs, ¬IsDots t ∧ s = escape keep t := by
  induction segs generalizing stack with
  | nil => exact .inl h
  | cons t segs ih =>
      have hpush : ¬dotCount t = some 2 → ¬dotCount t = some 1 → s ∈ escape keep t :: stack →
          s ∈ stack ∨ s = [] ∨ ∃ t' ∈ t :: segs, ¬IsDots t' ∧ s = escape keep t' := by
        intro hdouble hsingle hmem
        rcases List.mem_cons.mp hmem with rfl | hmem
        · exact .inr (.inr ⟨t, List.mem_cons_self, fun hdots => hdots.elim hsingle hdouble, rfl⟩)
        · exact .inl hmem
      cases segs with
      | nil =>
          rw [resolve, lastSegment] at h
          split at h
          · rcases List.mem_cons.mp h with rfl | h
            · exact .inr (.inl rfl)
            · exact .inl (List.mem_of_mem_tail h)
          · split at h
            · rcases List.mem_cons.mp h with rfl | h
              · exact .inr (.inl rfl)
              · exact .inl h
            · exact hpush ‹_› ‹_› h
      | cons u rest =>
          rw [resolve] at h
          rcases ih h with hmem | hnil | ⟨t', ht', hdots, heq⟩
          · rw [enterSegment] at hmem
            split at hmem
            · exact .inl (List.mem_of_mem_tail hmem)
            · split at hmem
              · exact .inl hmem
              · exact hpush ‹_› ‹_› hmem
          · exact .inr (.inl hnil)
          · exact .inr (.inr ⟨t', List.mem_cons_of_mem t ht', hdots, heq⟩)

/-- What a text leaves on the stack in front of a path: segments that are no dots. -/
theorem mem_entered {front s : Bytes} (h : s ∈ entered keep front) :
    ∃ t ∈ segments front.tail, ¬IsDots t ∧ s = escape keep t := by
  have hfold : ∀ (segs stack : List Bytes), s ∈ segs.foldl (enterSegment keep) stack →
      s ∈ stack ∨ ∃ t ∈ segs, ¬IsDots t ∧ s = escape keep t := by
    intro segs
    induction segs with
    | nil => exact fun stack h => .inl h
    | cons t segs ih =>
        intro stack h
        rcases ih _ h with hmem | ⟨t', ht', hdots, heq⟩
        · rw [enterSegment] at hmem
          split at hmem
          · exact .inl (List.mem_of_mem_tail hmem)
          · split at hmem
            · exact .inl hmem
            · rename_i hdouble hsingle
              rcases List.mem_cons.mp hmem with rfl | hmem
              · exact .inr ⟨t, List.mem_cons_self, fun hdots => hdots.elim hsingle hdouble, rfl⟩
              · exact .inl hmem
        · exact .inr ⟨t', List.mem_cons_of_mem t ht', hdots, heq⟩
  cases front with
  | nil => cases h
  | cons c rest =>
      rcases hfold _ _ h with hmem | hmem
      · cases hmem
      · exact hmem

/-! ## 4. What a path loses -/

/-- The bytes of the segments, each with its slash, as they are read. -/
def weight (stack : List Bytes) : Nat := (stack.map fun s => 1 + (unescape s).length).sum

/-- The bytes of the text. -/
def total (segs : List Bytes) : Nat := (segs.map fun s => 1 + s.length).sum

theorem weight_cons (s : Bytes) (stack : List Bytes) :
    weight (s :: stack) = 1 + (unescape s).length + weight stack := rfl

theorem total_cons (s : Bytes) (segs : List Bytes) : total (s :: segs) = 1 + s.length + total segs := rfl

/-- **What is read is no longer than the text, and shorter if there is an escape in it.** -/
theorem weight_le_total (segs : List Bytes) :
    weight segs ≤ total segs ∧ ((∃ s ∈ segs, HasEscape s) → weight segs < total segs) := by
  induction segs with
  | nil =>
      refine ⟨Nat.le_refl _, ?_⟩
      rintro ⟨s, hs, -⟩
      cases hs
  | cons s segs ih =>
      have hle := length_unescape_le s
      rw [weight_cons, total_cons]
      refine ⟨by omega, ?_⟩
      rintro ⟨t, ht, hescape⟩
      rcases List.mem_cons.mp ht with rfl | ht
      · have hne : (unescape t).length ≠ t.length := fun heq => length_unescape_eq.mp heq hescape
        omega
      · have := ih.2 ⟨t, ht, hescape⟩
        omega

theorem weight_tail_le (stack : List Bytes) : weight stack.tail ≤ weight stack := by
  cases stack with
  | nil => exact Nat.le_refl _
  | cons s stack => exact Nat.le_add_left _ _

/-- Dots are read as dots. -/
theorem unescape_of_dotCount {s : Bytes} {n : Nat} (h : dotCount s = some n) :
    unescape s = List.replicate n 46 := by
  fun_induction dotCount s generalizing n with
  | case1 =>
      cases h
      rfl
  | case2 bs ih =>
      obtain ⟨m, hm, rfl⟩ := Option.map_eq_some_iff.mp h
      rw [unescape_of_none (escapedAt_of_ne (by decide)), ih hm]
      rfl
  | case3 bs ih =>
      obtain ⟨m, hm, rfl⟩ := Option.map_eq_some_iff.mp h
      rw [unescape_of_some (d := 46) rfl, ih hm]
      rfl
  | case4 bs ih =>
      obtain ⟨m, hm, rfl⟩ := Option.map_eq_some_iff.mp h
      rw [unescape_of_some (d := 46) rfl, ih hm]
      rfl
  | case5 bs => cases h

theorem length_unescape_dots {s : Bytes} (h : IsDots s) : 0 < (unescape s).length := by
  rcases h with h | h
  all_goals
    rw [unescape_of_dotCount h]
    exact Nat.succ_pos _

section Weight

variable (hplain : ∀ b, unreserved b = true → keep b = true) (hpercent : keep 37 = true)

include hplain hpercent

theorem weight_push (stack : List Bytes) (s : Bytes) :
    weight (escape keep s :: stack) = weight stack + (1 + (unescape s).length) := by
  rw [weight_cons, unescape_escape_keeping hplain hpercent, Nat.add_comm]

theorem weight_enterSegment (stack : List Bytes) (s : Bytes) :
    weight (enterSegment keep stack s) ≤ weight stack + (1 + (unescape s).length) ∧
      (IsDots s → weight (enterSegment keep stack s) < weight stack + (1 + (unescape s).length)) := by
  have htail := weight_tail_le stack
  have hpush := weight_push hplain hpercent stack s
  unfold enterSegment
  split
  · exact ⟨by omega, fun _ => by omega⟩
  · split
    · exact ⟨by omega, fun _ => by omega⟩
    · rename_i hdouble hsingle
      exact ⟨by omega, fun hdots => (hdots.elim hsingle hdouble).elim⟩

theorem weight_lastSegment (stack : List Bytes) (s : Bytes) :
    weight (lastSegment keep stack s) ≤ weight stack + (1 + (unescape s).length) ∧
      (IsDots s → weight (lastSegment keep stack s) < weight stack + (1 + (unescape s).length)) := by
  have htail := weight_tail_le stack
  have hpush := weight_push hplain hpercent stack s
  have hnil : ∀ stack : List Bytes, weight ([] :: stack) = 1 + weight stack := fun stack => rfl
  unfold lastSegment
  split
  · rename_i hdouble
    have hpos := length_unescape_dots (.inr hdouble)
    rw [hnil]
    exact ⟨by omega, fun _ => by omega⟩
  · split
    · rename_i hsingle
      have hpos := length_unescape_dots (.inl hsingle)
      rw [hnil]
      exact ⟨by omega, fun _ => by omega⟩
    · rename_i hdouble hsingle
      exact ⟨by omega, fun hdots => (hdots.elim hsingle hdouble).elim⟩

/-- **A path is no longer than its text, and shorter if there are dots in it.** -/
theorem weight_resolve (stack segs : List Bytes) :
    weight (resolve keep stack segs) ≤ weight stack + weight segs ∧
      ((∃ s ∈ segs, IsDots s) →
        weight (resolve keep stack segs) < weight stack + weight segs) := by
  induction segs generalizing stack with
  | nil =>
      refine ⟨Nat.le_add_right _ _, ?_⟩
      rintro ⟨s, hs, -⟩
      cases hs
  | cons s segs ih =>
      cases segs with
      | nil =>
          have hlast := weight_lastSegment hplain hpercent stack s
          have hweight : weight [s] = 1 + (unescape s).length := rfl
          rw [resolve, hweight]
          refine ⟨hlast.1, ?_⟩
          rintro ⟨s', hs', hdots⟩
          cases List.mem_singleton.mp hs'
          exact hlast.2 hdots
      | cons t rest =>
          have henter := weight_enterSegment hplain hpercent stack s
          have hrest := ih (enterSegment keep stack s)
          rw [resolve, weight_cons s]
          refine ⟨by omega, ?_⟩
          rintro ⟨s', hs', hdots⟩
          rcases List.mem_cons.mp hs' with rfl | hs'
          · have := henter.2 hdots
            omega
          · have := hrest.2 ⟨s', hs', hdots⟩
            omega

end Weight

/-! ## 5. The text of a path -/

theorem length_render (segs : List Bytes) : (render segs).length = total segs := by
  induction segs with
  | nil => rfl
  | cons s segs ih =>
      rw [total_cons, ← ih, render, List.flatMap_cons, List.length_append, List.length_cons, render]
      omega

theorem render_cons (s : Bytes) (segs : List Bytes) : render (s :: segs) = 47 :: s ++ render segs := rfl

theorem unescape_slash (bs : Bytes) : unescape (47 :: bs) = 47 :: unescape bs :=
  unescape_of_none (escapedAt_of_ne (by decide))

/-- **What is read of a path is what is read of its segments.** -/
theorem unescape_render (segs : List Bytes) : unescape (render segs) = render (segs.map unescape) := by
  induction segs with
  | nil => rfl
  | cons s segs ih =>
      rw [render_cons, List.cons_append, unescape_slash, List.map_cons, render_cons, List.cons_append]
      refine congrArg (47 :: ·) ?_
      cases segs with
      | nil => simp [render]
      | cons t segs =>
          rw [render_cons, List.cons_append] at ih ⊢
          rw [unescape_append (by decide) (by decide)]
          rw [unescape_slash] at ih
          rw [ih]

/-- A path is read like the text that was escaped for it. -/
theorem unescape_render_escape (hplain : ∀ b, unreserved b = true → keep b = true)
    (hpercent : keep 37 = true) (segs : List Bytes) :
    unescape (render (segs.map (escape keep))) = unescape (render segs) := by
  rw [unescape_render, unescape_render, List.map_map]
  refine congrArg render (List.map_congr_left fun s _ => ?_)
  exact unescape_escape_keeping hplain hpercent s

/-- **The weight of segments** is what is read of their path. -/
theorem length_unescape_render (segs : List Bytes) : (unescape (render segs)).length = weight segs := by
  rw [unescape_render, length_render, total, weight, List.map_map]
  rfl

theorem weight_reverse (segs : List Bytes) : weight segs.reverse = weight segs := by
  rw [weight, weight, List.map_reverse, List.sum_reverse]

/-- What stands in front of the first separator, if there is one, and what follows. -/
theorem cut_inj {sep : UInt8} {a b as bs : Bytes} (ha : sep ∉ a) (hb : sep ∉ b)
    (has : as = [] ∨ ∃ cs, as = sep :: cs) (hbs : bs = [] ∨ ∃ cs, bs = sep :: cs)
    (h : a ++ as = b ++ bs) : a = b ∧ as = bs := by
  induction a generalizing b with
  | nil =>
      cases b with
      | nil => exact ⟨rfl, h⟩
      | cons c b =>
          rcases has with rfl | ⟨cs, rfl⟩
          · cases h
          · cases h
            exact absurd List.mem_cons_self hb
  | cons c a ih =>
      cases b with
      | nil =>
          rcases hbs with rfl | ⟨cs, rfl⟩
          · cases h
          · cases h
            exact absurd List.mem_cons_self ha
      | cons d b =>
          obtain ⟨rfl, hrest⟩ := List.cons.inj h
          obtain ⟨rfl, rfl⟩ := ih (fun hc => ha (List.mem_cons_of_mem _ hc))
            (fun hc => hb (List.mem_cons_of_mem _ hc)) hrest
          exact ⟨rfl, rfl⟩

/-- A byte divides two texts in one place. -/
theorem divided_inj {sep : UInt8} {a b as bs : Bytes} (ha : sep ∉ a) (hb : sep ∉ b)
    (h : a ++ sep :: as = b ++ sep :: bs) : a = b ∧ as = bs := by
  obtain ⟨hab, hasbs⟩ := cut_inj ha hb (.inr ⟨as, rfl⟩) (.inr ⟨bs, rfl⟩) h
  exact ⟨hab, (List.cons.inj hasbs).2⟩

theorem render_head (segs : List Bytes) : render segs = [] ∨ ∃ bs, render segs = 47 :: bs := by
  cases segs with
  | nil => exact .inl rfl
  | cons s segs => exact .inr ⟨_, rfl⟩

/-- The segments are those that the path is written with. -/
theorem render_inj {left right : List Bytes} (hl : ∀ s ∈ left, 47 ∉ s) (hr : ∀ s ∈ right, 47 ∉ s)
    (h : render left = render right) : left = right := by
  induction left generalizing right with
  | nil =>
      cases right with
      | nil => rfl
      | cons t right => cases h
  | cons s left ih =>
      cases right with
      | nil => cases h
      | cons t right =>
          obtain ⟨hst, hrest⟩ := cut_inj (hl s List.mem_cons_self) (hr t List.mem_cons_self)
            (render_head left) (render_head right) (List.cons.inj h).2
          rw [hst, ih (fun s hs => hl s (List.mem_cons_of_mem _ hs))
            (fun s hs => hr s (List.mem_cons_of_mem _ hs)) hrest]

/-- **The segments, each with its slash, are the text** with every backslash turned. -/
theorem render_segments (bs : Bytes) :
    render (segments bs) = 47 :: bs.map fun b => if b = 92 then 47 else b := by
  induction bs with
  | nil => rfl
  | cons b bs ih =>
      unfold segments at *
      rw [List.splitOnP_cons_eq_if_modifyHead]
      split
      · rename_i hsep
        have hslash : (if b = 92 then 47 else b) = 47 := by
          rcases Bool.or_eq_true_iff.mp hsep with h | h
          · rw [of_decide_eq_true h]
            rfl
          · rw [if_pos (of_decide_eq_true h)]
        rw [render_cons, ih, List.map_cons, hslash]
        rfl
      · rename_i hsep
        have hself : (if b = 92 then 47 else b) = b :=
          if_neg fun h => hsep (Bool.or_eq_true_iff.mpr (.inr (decide_eq_true h)))
        obtain ⟨s, segs, heq⟩ := List.exists_cons_of_ne_nil (List.splitOnP_ne_nil isSeparator bs)
        rw [heq] at ih ⊢
        rw [List.modifyHead_cons, render_cons, List.map_cons, hself]
        rw [render_cons] at ih
        exact congrArg (47 :: b :: ·) (List.cons.inj ih).2

theorem map_backslash_eq_iff {bs : Bytes} :
    (bs.map fun b => if b = 92 then 47 else b) = bs ↔ 92 ∉ bs := by
  induction bs with
  | nil => simp
  | cons b bs ih =>
      rw [List.map_cons, List.cons.injEq, ih, List.mem_cons, not_or]
      by_cases hb : b = 92
      · subst hb
        simp
      · simp [hb, Ne.symm hb]

theorem render_segments_of_notMem {bs : Bytes} (h : 92 ∉ bs) : render (segments bs) = 47 :: bs := by
  rw [render_segments, map_backslash_eq_iff.mpr h]

theorem segments_eq_splitOn {bs : Bytes} (h : 92 ∉ bs) : segments bs = bs.splitOn 47 := by
  induction bs with
  | nil => rfl
  | cons b bs ih =>
      obtain ⟨hb, hbs⟩ := not_or.mp (mt List.mem_cons.mpr h)
      have hsep : isSeparator b = (b == 47) := by
        simp only [isSeparator, Ne.symm hb, decide_false, Bool.or_false]
        rfl
      have hrest := ih hbs
      unfold segments at *
      rw [List.splitOnP_cons_eq_if_modifyHead, List.splitOn_cons_eq_if_modifyHead, hsep, hrest]

/-- No escape is in a part of a text in which there is none. -/
theorem not_hasEscape_segment {bs s : Bytes} (hslash : 92 ∉ bs) (h : ¬HasEscape bs)
    (hs : s ∈ segments bs) : ¬HasEscape s := by
  intro hescape
  have hlt := (weight_le_total (segments bs)).2 ⟨s, hs, hescape⟩
  rw [← length_unescape_render, ← length_render, render_segments_of_notMem hslash, unescape_slash,
    unescape_eq_self_iff.mpr h] at hlt
  exact absurd hlt (Nat.lt_irrefl _)

/-- Dots without an escape are dots. -/
theorem isDots_plain {s : Bytes} (h : IsDots s) (hplain : ¬HasEscape s) : s = [46] ∨ s = [46, 46] := by
  have hself := unescape_eq_self_iff.mpr hplain
  rcases h with h | h
  · exact .inl (hself.symm.trans (unescape_of_dotCount h))
  · exact .inr (hself.symm.trans (unescape_of_dotCount h))

theorem not_mem_segment {bs s : Bytes} (h : s ∈ segments bs) : 47 ∉ s ∧ 92 ∉ s := by
  induction bs generalizing s with
  | nil =>
      cases List.mem_singleton.mp h
      exact ⟨List.not_mem_nil, List.not_mem_nil⟩
  | cons b bs ih =>
      unfold segments at *
      rw [List.splitOnP_cons_eq_if_modifyHead] at h
      split at h
      · rcases List.mem_cons.mp h with rfl | h
        · exact ⟨List.not_mem_nil, List.not_mem_nil⟩
        · exact ih h
      · rename_i hsep
        obtain ⟨t, segs, heq⟩ := List.exists_cons_of_ne_nil (List.splitOnP_ne_nil isSeparator bs)
        rw [heq, List.modifyHead_cons] at h
        rcases List.mem_cons.mp h with rfl | h
        · have ht := ih (s := t) (by rw [heq]; exact List.mem_cons_self)
          simp only [isSeparator, Bool.or_eq_true, decide_eq_true_eq, not_or] at hsep
          simp only [List.mem_cons, not_or]
          exact ⟨⟨Ne.symm hsep.1, ht.1⟩, Ne.symm hsep.2, ht.2⟩
        · exact ih (by rw [heq]; exact List.mem_cons_of_mem _ h)

/-! ## 6. Reading a text -/

/-- Without the blanks and control bytes at its end. -/
def trimEnd (bs : Bytes) : Bytes := bs.rdropWhile fun b => b ≤ 32

/-- Tabs and line breaks are taken out wherever they are. -/
def isTabOrNewline (b : UInt8) : Bool := b = 9 || b = 10 || b = 13

def squeeze (bs : Bytes) : Bytes := bs.filter fun b => !isTabOrNewline b

def cleaned (rest : Bytes) : Bytes := squeeze (trimEnd rest)

/-- What stands in front of `#`. -/
def beforeFragment (bs : Bytes) : Bytes := bs.takeWhile fun b => b ≠ 35

/-- What stands in front of `?` and `#`. -/
def pathText (rest : Bytes) : Bytes := (beforeFragment (cleaned rest)).takeWhile fun b => b ≠ 63

/-- What may stand behind an origin: nothing but blanks, or something that ends it. -/
def IsRest (rest : Bytes) : Prop :=
  trimEnd rest = [] ∨ ∃ b bs, rest = b :: bs ∧ (isSeparator b = true ∨ b = 63 ∨ b = 35)

instance (rest : Bytes) : Decidable (IsRest rest) :=
  decidable_of_iff (trimEnd rest = [] ∨
      (rest.head?.any fun b => isSeparator b || b = 63 || b = 35) = true) <| by
    cases rest <;> simp [IsRest, or_assoc]

structure Parsed where
  scheme : Bytes
  host : Option Bytes
  /-- If it is not the one of the scheme. -/
  port : Option Nat
  path : Bytes
  query : Option Bytes
  fragment : Option Bytes
  deriving Repr, DecidableEq

namespace Parsed

/-- `http` or `https`, and a host. -/
structure IsHttp (u : Parsed) : Prop where
  scheme : u.scheme = utf8 "http" ∨ u.scheme = utf8 "https"
  host : u.host.isSome

/-- The same server. -/
structure SameOrigin (u v : Parsed) : Prop where
  scheme : u.scheme = v.scheme
  host : u.host = v.host
  port : u.port = v.port

/-- What a text behind an origin is read as. -/
structure Reads (keep : UInt8 → Bool) (u : Parsed) (rest : Bytes) : Prop where
  path : u.path = pathOf keep (pathText rest)
  query : u.query = none ↔ 63 ∉ beforeFragment (cleaned rest)
  fragment : u.fragment = none ↔ 35 ∉ cleaned rest

end Parsed

/-- The text is an origin: what stands behind it is read as a path, a query and a fragment, and
    nothing is wrong with a path. -/
structure IsOrigin (parse : Bytes → Option Parsed) (keep : UInt8 → Bool) (origin : Bytes)
    (base : Parsed) : Prop where
  http : base.IsHttp
  total : ∀ rest, IsRest rest → 63 ∉ cleaned rest → 35 ∉ cleaned rest →
    (parse (origin ++ rest)).isSome
  reads : ∀ rest u, IsRest rest → parse (origin ++ rest) = some u →
    u.SameOrigin base ∧ u.Reads keep rest

/-- A parser. `keep` are the bytes that a path keeps as they are. -/
structure Parser where
  parse : Bytes → Option Parsed
  keep : UInt8 → Bool
  keep_plain : ∀ b, unreserved b = true → keep b = true
  keep_percent : keep 37 = true
  splits : ∀ {text u}, parse text = some u → u.IsHttp →
    ∃ origin rest base, text = origin ++ rest ∧ IsRest rest ∧ IsOrigin parse keep origin base

/-! ## 7. What is taken out -/

theorem trimEnd_head (bs : Bytes) : trimEnd bs <+: bs := List.rdropWhile_prefix _ bs

theorem trimEnd_ne_nil {bs : Bytes} (h : ∃ b ∈ bs, 32 < b) : trimEnd bs ≠ [] := by
  obtain ⟨b, hb, hlt⟩ := h
  rw [trimEnd, Ne, List.rdropWhile_eq_nil_iff]
  exact fun hall => absurd (of_decide_eq_true (hall b hb)) (UInt8.not_le.mpr hlt)

theorem trimEnd_append (left right : Bytes) :
    trimEnd (left ++ right) = if trimEnd right = [] then trimEnd left else left ++ trimEnd right := by
  simp only [trimEnd, List.rdropWhile, List.reverse_append, List.dropWhile_append,
    List.reverse_eq_nil_iff, List.isEmpty_iff]
  split
  · rfl
  · rw [List.reverse_append, List.reverse_reverse]

theorem trimEnd_cons {b : UInt8} (h : 32 < b) (bs : Bytes) : trimEnd (b :: bs) = b :: trimEnd bs := by
  have hone : trimEnd [b] = [b] := by
    rw [trimEnd, List.rdropWhile_singleton, if_neg (by simpa using h)]
  rw [← List.singleton_append, trimEnd_append, hone]
  split
  · rename_i hnil
    rw [hnil]
  · rfl

/-- A text whose last byte is no blank. -/
theorem trimEnd_of_all {bs : Bytes} (h : ∀ b ∈ bs, 32 < b) : trimEnd bs = bs := by
  rw [trimEnd, List.rdropWhile_eq_self_iff]
  intro hne hlast
  exact absurd (of_decide_eq_true hlast) (UInt8.not_le.mpr (h _ (List.getLast_mem hne)))

theorem squeeze_append (left right : Bytes) : squeeze (left ++ right) = squeeze left ++ squeeze right :=
  List.filter_append ..

theorem squeeze_of_all {bs : Bytes} (h : ∀ b ∈ bs, 32 < b) : squeeze bs = bs := by
  rw [squeeze, List.filter_eq_self]
  intro b hb
  have hne : ∀ c : UInt8, c ≤ 32 → b ≠ c := fun c hc heq =>
    absurd (heq ▸ hc) (UInt8.not_le.mpr (h b hb))
  simp [isTabOrNewline, hne 9 (by decide), hne 10 (by decide), hne 13 (by decide)]

/-- A byte that is no tab and no line break stays. -/
theorem mem_squeeze {bs : Bytes} {b : UInt8} (h : 32 < b) : b ∈ squeeze bs ↔ b ∈ bs := by
  have hstay : squeeze [b] = [b] := squeeze_of_all (by simpa using h)
  have hkeep : (!isTabOrNewline b) = true := by
    simpa [squeeze] using hstay
  simp [squeeze, List.mem_filter, hkeep]

theorem mem_trimEnd {bs : Bytes} {b : UInt8} (h : 32 < b) : b ∈ trimEnd bs ↔ b ∈ bs := by
  refine ⟨fun hb => (trimEnd_head bs).mem hb, fun hb => ?_⟩
  have hsplit : trimEnd bs ++ bs.rtakeWhile (fun b => decide (b ≤ 32)) = bs :=
    List.rdropWhile_append_rtakeWhile
  rw [← hsplit] at hb
  rcases List.mem_append.mp hb with hb | hb
  · exact hb
  · have hle : decide (b ≤ 32) = true := by simpa using List.mem_rtakeWhile_imp hb
    exact absurd (of_decide_eq_true hle) (UInt8.not_le.mpr h)

/-- What stands behind a front: a text with a byte that is no blank. -/
theorem cleaned_append (front : Bytes) {text : Bytes} (h : ∃ b ∈ text, 32 < b) :
    cleaned (front ++ text) = squeeze front ++ cleaned text := by
  rw [cleaned, trimEnd_append, if_neg (trimEnd_ne_nil h), squeeze_append, cleaned]

theorem cleaned_cons {b : UInt8} (h : 32 < b) (bs : Bytes) : cleaned (b :: bs) = b :: cleaned bs := by
  have hone : squeeze [b] = [b] := squeeze_of_all (by simpa using h)
  rw [cleaned, trimEnd_cons h, ← List.singleton_append, squeeze_append, hone]
  rfl

theorem cleaned_of_all {bs : Bytes} (h : ∀ b ∈ bs, 32 < b) : cleaned bs = bs := by
  rw [cleaned, trimEnd_of_all h, squeeze_of_all h]

/-- Nothing is lost exactly when nothing gets shorter. -/
theorem cleaned_eq_self_iff {bs : Bytes} : cleaned bs = bs ↔ bs.length ≤ (cleaned bs).length := by
  refine ⟨fun h => by rw [h], fun h => ?_⟩
  have htrim : (trimEnd bs).length ≤ bs.length := (trimEnd_head bs).length_le
  have hsqueeze : (cleaned bs).length ≤ (trimEnd bs).length := List.length_filter_le _ _
  have hsame : trimEnd bs = bs := (trimEnd_head bs).eq_of_length (by omega)
  rw [cleaned, hsame]
  rw [cleaned, hsame] at h
  exact List.filter_sublist.eq_of_length_le h

theorem length_cleaned_le (bs : Bytes) : (cleaned bs).length ≤ bs.length :=
  Nat.le_trans (List.length_filter_le _ _) (trimEnd_head bs).length_le

theorem mem_cleaned {bs : Bytes} {b : UInt8} (h : 32 < b) : b ∈ cleaned bs ↔ b ∈ bs :=
  (mem_squeeze h).trans (mem_trimEnd h)

/-- **Without a query and a fragment, all of the text is path.** -/
theorem Parsed.Reads.plain {u : Parsed} {rest : Bytes} (h : u.Reads keep rest) :
    (u.query = none ∧ u.fragment = none ↔ 63 ∉ cleaned rest ∧ 35 ∉ cleaned rest) ∧
      (63 ∉ cleaned rest → 35 ∉ cleaned rest → u.path = pathOf keep (cleaned rest)) := by
  have hbefore : 35 ∉ cleaned rest → beforeFragment (cleaned rest) = cleaned rest := by
    intro hf
    rw [beforeFragment, List.takeWhile_eq_self_iff]
    exact fun b hb => decide_eq_true fun heq => hf (heq ▸ hb)
  refine ⟨?_, ?_⟩
  · rw [h.query, h.fragment]
    refine ⟨fun ⟨hq, hf⟩ => ⟨by rwa [hbefore hf] at hq, hf⟩,
      fun ⟨hq, hf⟩ => ⟨by rwa [hbefore hf], hf⟩⟩
  · intro hq hf
    rw [h.path, pathText, hbefore hf]
    refine congrArg _ (List.takeWhile_eq_self_iff.mpr ?_)
    exact fun b hb => decide_eq_true fun heq => hq (heq ▸ hb)

/-! ## 8. What is read behind a root -/

instance (u v : Parsed) : Decidable (u.SameOrigin v) :=
  decidable_of_iff (u.scheme = v.scheme ∧ u.host = v.host ∧ u.port = v.port)
    ⟨fun h => ⟨h.1, h.2.1, h.2.2⟩, fun h => ⟨h.scheme, h.host, h.port⟩⟩

/-- What the path of a URL says behind the one of the root. -/
def Parsed.under (root u : Parsed) : Option Bytes :=
  if u.SameOrigin root ∧ root.path.isPrefixOf u.path = true then
    some (unescape (u.path.drop root.path.length))
  else none

/-- The same of a URL that is written behind a root and a slash. -/
def Parser.under (P : Parser) (root url : Bytes) : Option Bytes := do
  let r ← P.parse (root ++ [47])
  let u ← P.parse url
  r.under u

/-- An origin, and behind it nothing or a path. -/
structure IsRoot (P : Parser) (root origin rest : Bytes) (base : Parsed) : Prop where
  text : root = origin ++ rest
  isOrigin : IsOrigin P.parse P.keep origin base
  behind : rest = [] ∨ ∃ b bs, rest = b :: bs ∧ isSeparator b = true
  query : 63 ∉ rest
  fragment : 35 ∉ rest

/-- A text that stands for itself in a path, but for its parts that are dots. -/
structure Itself (text : Bytes) : Prop where
  marks : ∀ b ∈ text, b ≠ 63 ∧ b ≠ 35 ∧ b ≠ 92
  stays : cleaned text = text
  escapes : ¬HasEscape text

section Under

variable {P : Parser} {stack : List Bytes} {text x : Bytes}

/-- What is read behind a stack that is still there is all that the segments weigh. -/
theorem weight_of_read {segs : List Bytes}
    (h : render (resolve P.keep stack segs).reverse = render stack.reverse ++ 47 :: x) :
    weight (resolve P.keep stack segs) = weight stack + 1 + (unescape x).length := by
  have hlength := congrArg (fun path => (unescape path).length) h
  simp only [unescape_append (by decide : (47 : UInt8) ≠ 37) (by decide), length_unescape_render,
    weight_reverse, List.length_append, List.length_cons] at hlength
  omega

/-- **A text that is read as itself** has no dots, no backslash and no escape. -/
theorem plain_of_read
    (h : render (resolve P.keep stack (segments text)).reverse = render stack.reverse ++ 47 :: x)
    (hx : unescape x = text) : (∀ s ∈ segments text, ¬IsDots s) ∧ 92 ∉ text ∧ ¬HasEscape text := by
  have hweight := weight_of_read h
  have hresolve := weight_resolve P.keep_plain P.keep_percent stack (segments text)
  have htotal := weight_le_total (segments text)
  have htext : total (segments text) = text.length + 1 := by
    rw [← length_render, render_segments, List.length_cons, List.length_map]
  rw [hx] at hweight
  have hdots : ∀ s ∈ segments text, ¬IsDots s := by
    intro s hs hdot
    have := hresolve.2 ⟨s, hs, hdot⟩
    omega
  refine ⟨hdots, ?_⟩
  rw [resolve_plain hdots, List.reverse_append, List.reverse_reverse, render, List.flatMap_append,
    ← render, ← render, List.append_cancel_left_eq] at h
  -- it is the text itself that is read, so there is no backslash and no escape in it
  have hread : text = unescape (text.map fun b => if b = 92 then 47 else b) := by
    have hslash := congrArg unescape h
    rw [unescape_render_escape P.keep_plain P.keep_percent, render_segments, unescape_slash,
      unescape_slash, hx] at hslash
    exact (List.cons.inj hslash).2.symm
  have hself : unescape (text.map fun b => if b = 92 then 47 else b) =
      text.map fun b => if b = 92 then 47 else b := by
    refine unescape_eq_self_iff.mpr (length_unescape_eq.mp ?_)
    rw [← hread, List.length_map]
  have hslashes : 92 ∉ text := map_backslash_eq_iff.mp (hread.trans hself).symm
  rw [map_backslash_eq_iff.mpr hslashes] at hself
  exact ⟨hslashes, unescape_eq_self_iff.mp hself⟩

theorem pathText_starts (text : Bytes) : pathText text <+: cleaned text :=
  (List.takeWhile_prefix _).trans (List.takeWhile_prefix _)

/-- All of a text is path when it is as long as its path. -/
theorem pathText_eq_self_iff : pathText text = text ↔
    cleaned text = text ∧ 63 ∉ text ∧ 35 ∉ text := by
  constructor
  · intro h
    have hle := (pathText_starts text).length_le
    rw [h] at hle
    have hstays := cleaned_eq_self_iff.mpr hle
    have hfragment : beforeFragment text = text := by
      refine (List.takeWhile_prefix _).eq_of_length_le ?_
      have hquery := (List.takeWhile_prefix (fun b => decide (b ≠ 63))
        (l := beforeFragment (cleaned text))).length_le
      rw [pathText, hstays] at h
      rw [hstays, h] at hquery
      exact hquery
    rw [pathText, hstays, hfragment] at h
    refine ⟨hstays, fun hmem => ?_, fun hmem => ?_⟩
    · exact absurd rfl (of_decide_eq_true (List.takeWhile_eq_self_iff.mp h 63 hmem))
    · exact absurd rfl (of_decide_eq_true (List.takeWhile_eq_self_iff.mp hfragment 35 hmem))
  · rintro ⟨hstays, hq, hf⟩
    have hfragment : beforeFragment text = text :=
      List.takeWhile_eq_self_iff.mpr fun b hb => decide_eq_true fun heq => hf (heq ▸ hb)
    rw [pathText, hstays, hfragment]
    exact List.takeWhile_eq_self_iff.mpr fun b hb => decide_eq_true fun heq => hq (heq ▸ hb)

/-- Behind a path without a query and a fragment, a text goes on with its own path. -/
theorem pathText_append {rest : Bytes} (hq : 63 ∉ rest) (hf : 35 ∉ rest) (text : Bytes) :
    pathText (rest ++ 47 :: text) = squeeze rest ++ 47 :: pathText text := by
  have hnot : ∀ c : UInt8, 32 < c → c ∉ rest → ∀ b ∈ squeeze rest ++ [47], decide (b ≠ c) = true ∨ c = 47 := by
    intro c hc hno b hb
    by_cases h47 : c = 47
    · exact .inr h47
    · refine .inl (decide_eq_true ?_)
      rintro rfl
      rcases List.mem_append.mp hb with hb | hb
      · exact hno ((mem_squeeze hc).mp hb)
      · exact h47 (List.mem_singleton.mp hb)
  have hcut : ∀ (c : UInt8) (bs : Bytes), 32 < c → c ≠ 47 → c ∉ rest →
      (squeeze rest ++ 47 :: bs).takeWhile (fun b => decide (b ≠ c)) =
        squeeze rest ++ 47 :: bs.takeWhile fun b => decide (b ≠ c) := by
    intro c bs hc h47 hno
    rw [List.append_cons, List.takeWhile_append_of_pos fun b hb => (hnot c hc hno b hb).resolve_right h47,
      ← List.append_cons]
  have hslash : ∃ b ∈ (47 : UInt8) :: text, 32 < b := ⟨47, List.mem_cons_self, by decide⟩
  rw [pathText, cleaned_append rest hslash, cleaned_cons (by decide), beforeFragment,
    hcut 35 _ (by decide) (by decide) hf, hcut 63 _ (by decide) (by decide) hq]
  rfl

variable {root origin rest : Bytes} {base : Parsed}

/-- A URL behind a root is read as the stack of the root and the segments of the text. -/
theorem IsRoot.path (h : IsRoot P root origin rest base) {u : Parsed}
    (hread : P.parse (root ++ 47 :: text) = some u) :
    u.SameOrigin base ∧ u.path =
      render (resolve P.keep (entered P.keep (squeeze rest)) (segments (pathText text))).reverse := by
  have hrest : IsRest (rest ++ 47 :: text) := by
    rcases h.behind with rfl | ⟨b, bs, rfl, hsep⟩
    · exact .inr ⟨47, text, rfl, .inl rfl⟩
    · exact .inr ⟨b, bs ++ 47 :: text, rfl, .inl hsep⟩
  rw [h.text, List.append_assoc] at hread
  obtain ⟨hsame, hreads⟩ := h.isOrigin.reads _ u hrest hread
  refine ⟨hsame, ?_⟩
  rw [hreads.path, pathText_append h.query h.fragment, pathOf_append]

theorem IsRoot.total (h : IsRoot P root origin rest base) (hq : 63 ∉ text) (hf : 35 ∉ text) :
    ∃ u, P.parse (root ++ 47 :: text) = some u := by
  have hrest : IsRest (rest ++ 47 :: text) := by
    rcases h.behind with rfl | ⟨b, bs, rfl, hsep⟩
    · exact .inr ⟨47, text, rfl, .inl rfl⟩
    · exact .inr ⟨b, bs ++ 47 :: text, rfl, .inl hsep⟩
  have hnot : ∀ c : UInt8, 32 < c → c ≠ 47 → c ∉ rest → c ∉ text → c ∉ cleaned (rest ++ 47 :: text) := by
    intro c hc h47 hno hno' hmem
    rcases List.mem_append.mp ((mem_cleaned hc).mp hmem) with hmem | hmem
    · exact hno hmem
    · rcases List.mem_cons.mp hmem with heq | hmem
      · exact h47 heq
      · exact hno' hmem
  rw [h.text, List.append_assoc]
  exact Option.isSome_iff_exists.mp (h.isOrigin.total _ hrest
    (hnot 63 (by decide) (by decide) h.query hq) (hnot 35 (by decide) (by decide) h.fragment hf))

/-- The root itself: its stack, and a slash. -/
theorem IsRoot.read (h : IsRoot P root origin rest base) :
    ∃ r, P.parse (root ++ [47]) = some r ∧ r.SameOrigin base ∧
      r.path = render (entered P.keep (squeeze rest)).reverse ++ [47] := by
  obtain ⟨r, hr⟩ := h.total (List.not_mem_nil : (63 : UInt8) ∉ []) List.not_mem_nil
  obtain ⟨hsame, hpath⟩ := h.path hr
  refine ⟨r, hr, hsame, ?_⟩
  have hone : resolve P.keep (entered P.keep (squeeze rest)) (segments (pathText [])) =
      [] :: entered P.keep (squeeze rest) := rfl
  rw [hpath, hone, List.reverse_cons, render, List.flatMap_append]
  rfl

/-- A text that is all path, without dots and backslashes, is read behind a root. -/
theorem under_of_plain (h : IsRoot P root origin rest base) (hall : pathText text = text)
    (hdots : ∀ s ∈ segments text, ¬IsDots s) (hslash : 92 ∉ text) :
    P.under root (root ++ 47 :: text) = some (unescape text) := by
  obtain ⟨r, hr, hrsame, hrpath⟩ := h.read
  obtain ⟨-, hq, hf⟩ := pathText_eq_self_iff.mp hall
  obtain ⟨u, hu⟩ := h.total hq hf
  obtain ⟨hsame, hpath⟩ := h.path hu
  rw [hall, resolve_plain hdots, List.reverse_append, List.reverse_reverse, render,
    List.flatMap_append, ← render, ← render] at hpath
  obtain ⟨x, hx⟩ : ∃ x, render ((segments text).map (escape P.keep)) = 47 :: x := by
    obtain ⟨s, segs, hsegs⟩ := List.exists_cons_of_ne_nil (segments_ne_nil text)
    rw [hsegs]
    exact ⟨_, rfl⟩
  have hread : unescape x = unescape text := by
    have hboth := unescape_render_escape P.keep_plain P.keep_percent (segments text)
    rw [hx, render_segments_of_notMem hslash, unescape_slash, unescape_slash] at hboth
    exact (List.cons.inj hboth).2
  rw [hx, List.append_cons, ← hrpath] at hpath
  rw [Parser.under, hr, hu]
  simp only [Option.bind_eq_bind, Option.bind_some, Parsed.under]
  rw [if_pos, hpath, List.drop_left, hread]
  refine ⟨⟨hsame.scheme.trans hrsame.scheme.symm, hsame.host.trans hrsame.host.symm,
    hsame.port.trans hrsame.port.symm⟩, List.isPrefixOf_iff_prefix.mpr ?_⟩
  rw [hpath]
  exact List.prefix_append _ _

/-- **What is read behind a root is the text itself exactly when** it stands for itself and none of
    its parts is dots. -/
theorem under_eq_self_iff (h : IsRoot P root origin rest base) :
    P.under root (root ++ 47 :: text) = some text ↔
      Itself text ∧ ∀ s ∈ segments text, ¬IsDots s := by
  constructor
  · intro hunder
    obtain ⟨r, hr, -, hrpath⟩ := h.read
    rw [Parser.under, hr] at hunder
    cases hu : P.parse (root ++ 47 :: text) with
    | none =>
        rw [hu] at hunder
        cases hunder
    | some u =>
        rw [hu] at hunder
        simp only [Option.bind_eq_bind, Option.bind_some, Parsed.under, Option.ite_none_right_eq_some,
          Option.some.injEq] at hunder
        obtain ⟨⟨-, hprefix⟩, hread⟩ := hunder
        obtain ⟨x, hx⟩ := List.isPrefixOf_iff_prefix.mp hprefix
        obtain ⟨-, hpath⟩ := h.path hu
        rw [← hx, List.drop_left] at hread
        rw [← hx, hrpath, ← List.append_cons] at hpath
        have hweight := weight_of_read hpath.symm
        have hle := (weight_resolve P.keep_plain P.keep_percent (entered P.keep (squeeze rest))
          (segments (pathText text))).1
        have htotal := (weight_le_total (segments (pathText text))).1
        have hlength : total (segments (pathText text)) = (pathText text).length + 1 := by
          rw [← length_render, render_segments, List.length_cons, List.length_map]
        rw [hread] at hweight
        have hall : pathText text = text := by
          have hcleaned := length_cleaned_le text
          have hprefix' := pathText_starts text
          have hstays : cleaned text = text := by
            have := hprefix'.length_le
            exact cleaned_eq_self_iff.mpr (by omega)
          rw [hstays] at hprefix'
          exact hprefix'.eq_of_length_le (by omega)
        rw [hall] at hpath
        obtain ⟨hdots, hslash, hescape⟩ := plain_of_read hpath.symm hread
        obtain ⟨hstays, hq, hf⟩ := pathText_eq_self_iff.mp hall
        refine ⟨⟨fun b hb => ⟨?_, ?_, ?_⟩, hstays, hescape⟩, hdots⟩
        · rintro rfl
          exact hq hb
        · rintro rfl
          exact hf hb
        · rintro rfl
          exact hslash hb
  · rintro ⟨hself, hdots⟩
    have hq : 63 ∉ text := fun hmem => (hself.marks 63 hmem).1 rfl
    have hf : 35 ∉ text := fun hmem => (hself.marks 35 hmem).2.1 rfl
    have hslash : 92 ∉ text := fun hmem => (hself.marks 92 hmem).2.2 rfl
    rw [under_of_plain h (pathText_eq_self_iff.mpr ⟨hself.stays, hq, hf⟩) hdots hslash,
      unescape_eq_self_iff.mpr hself.escapes]

/-- A text without an escape and a backslash has dots for a part exactly when one part is a dot or
    two. -/
theorem segments_dots_iff (hslash : 92 ∉ text) (hescape : ¬HasEscape text) :
    (∀ s ∈ segments text, ¬IsDots s) ↔ ∀ s ∈ text.splitOn 47, s ≠ [46] ∧ s ≠ [46, 46] := by
  rw [segments_eq_splitOn hslash]
  refine forall₂_congr fun s hs => ?_
  rw [← not_or, not_iff_not]
  refine ⟨fun h => isDots_plain h (not_hasEscape_segment hslash hescape ?_), ?_⟩
  · rw [segments_eq_splitOn hslash]
    exact hs
  · rintro (rfl | rfl)
    · exact .inl rfl
    · exact .inr rfl

end Under

end Ruwa.Library.Url
