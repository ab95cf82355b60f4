/-
  File:      Ruwa/Egress/Reasoning.lean
  Subject:   TAKING THE REASONING OUT OF A REPLY (`egress.rs`, `strip_reasoning_blocks`).

  The four tags are taken one after the other. What a pass takes out closes up, and the pass looks
  at the text from the front again.

  * `Reads` -- what the documentation says of one tag: a block is removed, an opener without an end
    takes what follows it, a closer without a beginning what precedes it;
  * `reads_iff` -- a pass leaves none of its tags exactly if the text can be read so;
  * `Tidy` -- every pass can read its text so, and puts no earlier tag together;
  * **`strip_reasoning_blocks_tidy`** -- of a tidy reply no tag is left.
-/
import Ruwa.Library.Find

namespace Ruwa.Egress

open Ruwa.Library

/-! ## 1. The source -/

def reasoningTags : List (List Char) :=
  ["think".toList, "thinking".toList, "reasoning".toList, "thought".toList]

def opener (tag : List Char) : List Char := '<' :: (tag ++ ['>'])

def closer (tag : List Char) : List Char := '<' :: '/' :: (tag ++ ['>'])

/-- `to_ascii_lowercase` -/
def toAsciiLowercase (out : List Char) : List Char := out.map Char.toLower

/-- The rounds of the loop. Every round but the last takes something out, so a round for each
    character is enough. -/
def stripTag (tag : List Char) : Nat → List Char → List Char
  | 0, out => out
  | rounds + 1, out =>
      let lower := toAsciiLowercase out
      match find (opener tag) lower, find (closer tag) lower with
      | some o, some c =>
          if c > o then stripTag tag rounds (out.take o ++ out.drop (c + (closer tag).length))
          else out.take o
      | some o, none => out.take o
      | none, some c => stripTag tag rounds (out.drop (c + (closer tag).length))
      | none, none => out

/-- The loop for one tag. -/
def pass (tag out : List Char) : List Char := stripTag tag out.length out

/-- The loop over the tags. -/
def passes (tags : List (List Char)) (out : List Char) : List Char :=
  tags.foldl (fun out tag => pass tag out) out

def stripReasoningBlocks (raw : List Char) : List Char := passes reasoningTags raw

/-! ## 2. Tags in a text -/

/-- No opening and no closing tag, in any letter case. -/
def Free (tag text : List Char) : Prop :=
  ¬opener tag <:+: toAsciiLowercase text ∧ ¬closer tag <:+: toAsciiLowercase text

/-- A name that can stand in a tag. -/
def TagName (tag : List Char) : Prop := '<' ∉ tag ∧ '/' ∉ tag

section

variable {tag : List Char}

theorem opener_marked (h : TagName tag) : Marked '<' (opener tag) :=
  ⟨tag ++ ['>'], rfl, by simp [h.1]⟩

theorem closer_marked (h : TagName tag) : Marked '<' (closer tag) :=
  ⟨'/' :: (tag ++ ['>']), rfl, by simp [h.1]⟩

@[simp] theorem length_opener : (opener tag).length = tag.length + 2 := by simp [opener]

@[simp] theorem length_closer : (closer tag).length = tag.length + 3 := by simp [closer]

theorem lower_append (a b : List Char) :
    toAsciiLowercase (a ++ b) = toAsciiLowercase a ++ toAsciiLowercase b := List.map_append

@[simp] theorem length_lower (a : List Char) : (toAsciiLowercase a).length = a.length :=
  List.length_map _

/-- No opener is a closer. -/
theorem opener_not_closer (h : TagName tag) (r r' : List Char) :
    opener tag ++ r ≠ closer tag ++ r' := by
  intro heq
  have hnext := (List.cons.inj heq).2
  cases tag with
  | nil => exact absurd (List.cons.inj hnext).1 (by decide)
  | cons t tag => exact h.2 ((List.cons.inj hnext).1 ▸ List.mem_cons_self)

/-- An opener adds no closer, and a closer no opener. -/
theorem no_closer_around (h : TagName tag) {l r : List Char} (hl : ¬closer tag <:+: l)
    (hr : ¬closer tag <:+: r) : ¬closer tag <:+: l ++ (opener tag ++ r) := by
  intro hin
  rcases (closer_marked h).infix_append_iff.mp hin with hin | hin
  · exact hl hin
  · rcases List.infix_cons_iff.mp hin with ⟨r', hp⟩ | hin
    · exact opener_not_closer h r r' hp.symm
    · exact hr ((closer_marked h).infix_of_append (by simp [h.1]) hin)

theorem no_opener_around (h : TagName tag) {l r : List Char} (hl : ¬opener tag <:+: l)
    (hr : ¬opener tag <:+: r) : ¬opener tag <:+: l ++ (closer tag ++ r) := by
  intro hin
  rcases (opener_marked h).infix_append_iff.mp hin with hin | hin
  · exact hl hin
  · rcases List.infix_cons_iff.mp hin with ⟨r', hp⟩ | hin
    · exact opener_not_closer h r' r hp
    · have hbody : '<' ∉ '/' :: (tag ++ ['>']) := by simp [h.1]
      exact hr ((opener_marked h).infix_of_append hbody hin)

/-! ## 3. What a pass makes of a text -/

/-- **What the text says without the thoughts in this tag**: a block is removed, and the text closes
    up; an opener without an end cuts off the rest; a closer without any opener, what is before
    it. -/
inductive Reads (tag : List Char) : List Char → List Char → Prop
  | plain {text : List Char} : Free tag text → Reads tag text text
  | block {a o m c b y : List Char} :
      toAsciiLowercase o = opener tag → toAsciiLowercase c = closer tag → Free tag a →
      ¬closer tag <:+: toAsciiLowercase m → Reads tag (a ++ b) y →
      Reads tag (a ++ o ++ (m ++ c ++ b)) y
  | unclosed {a o b : List Char} :
      toAsciiLowercase o = opener tag → Free tag a → ¬closer tag <:+: toAsciiLowercase b →
      Reads tag (a ++ o ++ b) a
  | stray {a c b y : List Char} :
      toAsciiLowercase c = closer tag → Free tag a → ¬opener tag <:+: toAsciiLowercase b →
      Reads tag b y → Reads tag (a ++ c ++ b) y

theorem Reads.free {x y : List Char} (h : Reads tag x y) : Free tag y := by
  induction h with
  | plain hfree => exact hfree
  | block _ _ _ _ _ ih => exact ih
  | unclosed _ hfree _ => exact hfree
  | stray _ _ _ _ ih => exact ih

theorem stripTag_free {x : List Char} (h : Free tag x) (rounds : Nat) :
    stripTag tag rounds x = x := by
  cases rounds with
  | zero => rfl
  | succ rounds =>
      unfold stripTag
      dsimp only
      rw [find_eq_none.mpr h.1, find_eq_none.mpr h.2]

theorem length_of_lower {o pat : List Char} (h : toAsciiLowercase o = pat) :
    o.length = pat.length := by
  rw [← h, length_lower]

theorem drop_behind {l c b : List Char} {k : Nat} (h : c.length = k) :
    (l ++ c ++ b).drop (l.length + k) = b := by
  rw [← h, ← List.length_append, List.drop_left]

section

variable {a o m c b : List Char} (ht : TagName tag) (ho : toAsciiLowercase o = opener tag)
  (hc : toAsciiLowercase c = closer tag) (ha : Free tag a) (rounds : Nat)
include ht ha

include ho hc in
/-- A round that removes a block. -/
theorem stripTag_block (hm : ¬closer tag <:+: toAsciiLowercase m) :
    stripTag tag (rounds + 1) (a ++ o ++ (m ++ c ++ b)) = stripTag tag rounds (a ++ b) := by
  have hopen : find (opener tag) (toAsciiLowercase (a ++ o ++ (m ++ c ++ b))) =
      some a.length := by
    simp only [lower_append, ho]
    rw [find_append (opener_marked ht) ha.1, length_lower]
  have hclose : find (closer tag) (toAsciiLowercase (a ++ o ++ (m ++ c ++ b))) =
      some (a ++ o ++ m).length := by
    have hno := no_closer_around ht ha.2 hm
    simp only [lower_append, ho, hc]
    rw [← List.append_assoc, ← List.append_assoc, List.append_assoc _ (opener tag),
      find_append (closer_marked ht) hno]
    simp only [List.length_append, length_lower, length_of_lower ho, Nat.add_assoc]
  have hlater : (a ++ o ++ m).length > a.length := by
    have := length_of_lower ho
    simp only [List.length_append, length_opener] at this ⊢
    omega
  have htake : (a ++ o ++ (m ++ c ++ b)).take a.length = a := by
    rw [List.append_assoc, List.take_left]
  have hdrop : (a ++ o ++ (m ++ c ++ b)).drop ((a ++ o ++ m).length + (closer tag).length) = b := by
    rw [← List.append_assoc, ← List.append_assoc]
    exact drop_behind (length_of_lower hc)
  rw [stripTag, hopen, hclose]
  dsimp only
  rw [if_pos hlater, htake, hdrop]

include ho in
/-- A round that cuts off an unclosed thought. -/
theorem stripTag_unclosed (hb : ¬closer tag <:+: toAsciiLowercase b) :
    stripTag tag (rounds + 1) (a ++ o ++ b) = a := by
  have hopen : find (opener tag) (toAsciiLowercase (a ++ o ++ b)) = some a.length := by
    simp only [lower_append, ho]
    rw [find_append (opener_marked ht) ha.1, length_lower]
  have hclose : find (closer tag) (toAsciiLowercase (a ++ o ++ b)) = none := by
    rw [find_eq_none]
    simp only [lower_append, ho, List.append_assoc]
    exact no_closer_around ht ha.2 hb
  rw [stripTag, hopen, hclose]
  dsimp only
  rw [List.append_assoc, List.take_left]

include hc in
/-- A round that takes away what is before a stray closer. -/
theorem stripTag_stray (hb : ¬opener tag <:+: toAsciiLowercase b) :
    stripTag tag (rounds + 1) (a ++ c ++ b) = stripTag tag rounds b := by
  have hopen : find (opener tag) (toAsciiLowercase (a ++ c ++ b)) = none := by
    rw [find_eq_none]
    simp only [lower_append, hc, List.append_assoc]
    exact no_opener_around ht ha.1 hb
  have hclose : find (closer tag) (toAsciiLowercase (a ++ c ++ b)) = some a.length := by
    simp only [lower_append, hc]
    rw [find_append (closer_marked ht) ha.2, length_lower]
  rw [stripTag, hopen, hclose]
  dsimp only
  rw [drop_behind (length_of_lower hc)]

include ho hc in
/-- A round that takes the first opener for an unclosed one, although a closer stands before it. -/
theorem stripTag_leaves (hm : ¬opener tag <:+: toAsciiLowercase m) :
    stripTag tag (rounds + 1) (a ++ c ++ (m ++ o ++ b)) = a ++ c ++ m := by
  have hopen : find (opener tag) (toAsciiLowercase (a ++ c ++ (m ++ o ++ b))) =
      some (a ++ c ++ m).length := by
    have hno := no_opener_around ht ha.1 hm
    simp only [lower_append, ho, hc]
    rw [← List.append_assoc, ← List.append_assoc, List.append_assoc _ (closer tag),
      find_append (opener_marked ht) hno]
    simp only [List.length_append, length_lower, length_of_lower hc, Nat.add_assoc]
  have hclose : find (closer tag) (toAsciiLowercase (a ++ c ++ (m ++ o ++ b))) =
      some a.length := by
    simp only [lower_append, hc]
    rw [find_append (closer_marked ht) ha.2, length_lower]
  have hbefore : ¬a.length > (a ++ c ++ m).length := by
    simp only [List.length_append]
    omega
  rw [stripTag, hopen, hclose]
  dsimp only
  rw [if_neg hbefore, ← List.append_assoc, ← List.append_assoc, List.append_assoc (a ++ c ++ m),
    List.take_left]

end

/-- **Where the documentation says what is meant, the pass does it.** -/
theorem stripTag_reads (ht : TagName tag) {x y : List Char} (h : Reads tag x y) {rounds : Nat}
    (hrounds : x.length ≤ rounds) : stripTag tag rounds x = y := by
  induction h generalizing rounds with
  | plain hfree => exact stripTag_free hfree rounds
  | block ho hc ha hm _ ih =>
      have := length_of_lower ho
      simp only [List.length_append, length_opener] at this hrounds
      obtain ⟨rounds, rfl⟩ : ∃ k, rounds = k + 1 := ⟨rounds - 1, by omega⟩
      rw [stripTag_block ht ho hc ha rounds hm]
      exact ih (by simp only [List.length_append]; omega)
  | unclosed ho ha hb =>
      have := length_of_lower ho
      simp only [List.length_append, length_opener] at this hrounds
      obtain ⟨rounds, rfl⟩ : ∃ k, rounds = k + 1 := ⟨rounds - 1, by omega⟩
      exact stripTag_unclosed ht ho ha rounds hb
  | stray hc ha hb _ ih =>
      have := length_of_lower hc
      simp only [List.length_append, length_closer] at this hrounds
      obtain ⟨rounds, rfl⟩ : ∃ k, rounds = k + 1 := ⟨rounds - 1, by omega⟩
      rw [stripTag_stray ht hc ha rounds hb]
      exact ih (by omega)

/-! ## 4. Every text a pass can meet -/

/-- A pattern that a text has in some letter case. -/
theorem exists_split {pat x : List Char} {i : Nat} (hne : pat ≠ [])
    (h : find pat (toAsciiLowercase x) = some i) :
    ∃ a w b, x = a ++ w ++ b ∧ toAsciiLowercase w = pat ∧ a.length = i ∧
      ¬pat <:+: toAsciiLowercase a := by
  obtain ⟨l, r, heq, hlen, hl⟩ := find_eq_some hne h
  obtain ⟨aw, b, rfl, haw, -⟩ := List.map_eq_append_iff.mp heq
  obtain ⟨a, w, rfl, rfl, hw⟩ := List.map_eq_append_iff.mp haw
  exact ⟨a, w, b, rfl, hw, by rw [← hlen, List.length_map], hl⟩

/-- Of two tags in a text the later stands behind the whole of the earlier. -/
theorem split_behind {pat pat' a w b a' w' b' : List Char} (h : Marked '<' pat)
    (h' : Marked '<' pat') (hw : toAsciiLowercase w = pat) (hw' : toAsciiLowercase w' = pat')
    (heq : a ++ w ++ b = a' ++ w' ++ b') (hlt : a.length < a'.length) :
    ∃ m, a' = a ++ w ++ m ∧ b = m ++ w' ++ b' := by
  have hlower := congrArg toAsciiLowercase heq
  simp only [lower_append, hw, hw'] at hlower
  obtain ⟨l, hl, -⟩ := h.behind h' hlower (by simpa using hlt)
  have hle : (a ++ w).length ≤ a'.length := by
    have hlen := congrArg List.length hl
    simp only [List.length_append, length_lower] at hlen ⊢
    rw [hlen, length_of_lower hw]
    exact Nat.le_add_right _ _
  obtain ⟨m, rfl⟩ : a ++ w <+: a' := by
    refine List.prefix_of_prefix_length_le (List.prefix_append _ b) ?_ hle
    rw [heq, List.append_assoc]
    exact List.prefix_append _ _
  refine ⟨m, rfl, ?_⟩
  rw [List.append_assoc (a ++ w), List.append_assoc (a ++ w)] at heq
  exact List.append_cancel_left heq

theorem no_tag_before {pat a w m : List Char} (h : ¬pat <:+: toAsciiLowercase (a ++ w ++ m)) :
    ¬pat <:+: toAsciiLowercase a ∧ ¬pat <:+: toAsciiLowercase m := by
  rw [lower_append, lower_append] at h
  refine ⟨fun ha => h (ha.trans ?_), fun hm => h (hm.trans (List.suffix_append _ _).isInfix)⟩
  rw [List.append_assoc]
  exact (List.prefix_append _ _).isInfix

/-- **What a round meets**: a free text, one of the three thoughts the documentation speaks of, or a
    closer with an opener behind it. -/
theorem stripTag_cases (ht : TagName tag) (x : List Char) :
    Free tag x ∨
    (∃ a o m c b, x = a ++ o ++ (m ++ c ++ b) ∧ toAsciiLowercase o = opener tag ∧
      toAsciiLowercase c = closer tag ∧ Free tag a ∧ ¬closer tag <:+: toAsciiLowercase m) ∨
    (∃ a o b, x = a ++ o ++ b ∧ toAsciiLowercase o = opener tag ∧ Free tag a ∧
      ¬closer tag <:+: toAsciiLowercase b) ∨
    (∃ a c b, x = a ++ c ++ b ∧ toAsciiLowercase c = closer tag ∧ Free tag a ∧
      ¬opener tag <:+: toAsciiLowercase b) ∨
    ∃ a c m o b, x = a ++ c ++ (m ++ o ++ b) ∧ toAsciiLowercase c = closer tag ∧
      toAsciiLowercase o = opener tag ∧ Free tag a ∧ ¬opener tag <:+: toAsciiLowercase m := by
  cases hopen : find (opener tag) (toAsciiLowercase x) with
  | none =>
      have hno := find_eq_none.mp hopen
      cases hclose : find (closer tag) (toAsciiLowercase x) with
      | none => exact .inl ⟨hno, find_eq_none.mp hclose⟩
      | some k =>
          obtain ⟨a, c, b, rfl, hc, -, ha⟩ := exists_split (closer_marked ht).ne_nil hclose
          obtain ⟨hoa, hob⟩ := no_tag_before hno
          exact .inr (.inr (.inr (.inl ⟨a, c, b, rfl, hc, ⟨hoa, ha⟩, hob⟩)))
  | some i =>
      obtain ⟨a, o, b, rfl, ho, -, ha⟩ := exists_split (opener_marked ht).ne_nil hopen
      cases hclose : find (closer tag) (toAsciiLowercase (a ++ o ++ b)) with
      | none =>
          obtain ⟨hca, hcb⟩ := no_tag_before (find_eq_none.mp hclose)
          exact .inr (.inr (.inl ⟨a, o, b, rfl, ho, ⟨ha, hca⟩, hcb⟩))
      | some k =>
          obtain ⟨a', c, b', heq, hc, -, ha'⟩ := exists_split (closer_marked ht).ne_nil hclose
          rcases Nat.lt_trichotomy a.length a'.length with hlt | hsame | hlt
          · obtain ⟨m, rfl, rfl⟩ :=
              split_behind (opener_marked ht) (closer_marked ht) ho hc heq hlt
            obtain ⟨hca, hcm⟩ := no_tag_before ha'
            exact .inr (.inl ⟨a, o, m, c, b', rfl, ho, hc, ⟨ha, hca⟩, hcm⟩)
          · -- no text is an opener and a closer
            rw [List.append_assoc, List.append_assoc] at heq
            obtain ⟨-, hrest⟩ := List.append_inj heq hsame
            have hlower := congrArg toAsciiLowercase hrest
            rw [lower_append, lower_append, ho, hc] at hlower
            exact absurd hlower (opener_not_closer ht _ _)
          · obtain ⟨m, rfl, rfl⟩ :=
              split_behind (closer_marked ht) (opener_marked ht) hc ho heq.symm hlt
            obtain ⟨hoa, hom⟩ := no_tag_before ha
            exact .inr (.inr (.inr (.inr ⟨a', c, m, o, b, heq, hc, ho, ⟨hoa, ha'⟩, hom⟩)))

/-- **Every text is read, or a tag is left in it**; in either case a round for each character is
    enough. -/
theorem reads_or_leaves (ht : TagName tag) (x : List Char) :
    (∃ y, Reads tag x y) ∨
    ∃ z, (∀ rounds, x.length ≤ rounds → stripTag tag rounds x = z) ∧ ¬Free tag z ∧
      z.length < x.length := by
  induction hlen : x.length using Nat.strong_induction_on generalizing x with
  | _ n ih =>
      subst hlen
      rcases stripTag_cases ht x with hfree | ⟨a, o, m, c, b, rfl, ho, hc, ha, hm⟩ |
        ⟨a, o, b, rfl, ho, ha, hb⟩ | ⟨a, c, b, rfl, hc, ha, hb⟩ |
        ⟨a, c, m, o, b, rfl, hc, ho, ha, hm⟩
      · exact .inl ⟨x, .plain hfree⟩
      · have hshort : (a ++ b).length < (a ++ o ++ (m ++ c ++ b)).length := by
          have := length_of_lower ho
          simp only [List.length_append, length_opener] at this ⊢
          omega
        rcases ih _ hshort (a ++ b) rfl with ⟨y, hy⟩ | ⟨z, hz, hleft, hlt⟩
        · exact .inl ⟨y, .block ho hc ha hm hy⟩
        · refine .inr ⟨z, fun rounds hrounds => ?_, hleft, Nat.lt_trans hlt hshort⟩
          obtain ⟨rounds, rfl⟩ : ∃ k, rounds = k + 1 := ⟨rounds - 1, by omega⟩
          rw [stripTag_block ht ho hc ha rounds hm]
          exact hz rounds (by omega)
      · exact .inl ⟨a, .unclosed ho ha hb⟩
      · have hshort : b.length < (a ++ c ++ b).length := by
          have := length_of_lower hc
          simp only [List.length_append, length_closer] at this ⊢
          omega
        rcases ih _ hshort b rfl with ⟨y, hy⟩ | ⟨z, hz, hleft, hlt⟩
        · exact .inl ⟨y, .stray hc ha hb hy⟩
        · refine .inr ⟨z, fun rounds hrounds => ?_, hleft, Nat.lt_trans hlt hshort⟩
          obtain ⟨rounds, rfl⟩ : ∃ k, rounds = k + 1 := ⟨rounds - 1, by omega⟩
          rw [stripTag_stray ht hc ha rounds hb]
          exact hz rounds (by omega)
      · have hopener := length_of_lower ho
        rw [length_opener] at hopener
        refine .inr ⟨a ++ c ++ m, fun rounds hrounds => ?_, fun hfree => ?_, ?_⟩
        · simp only [List.length_append] at hrounds
          obtain ⟨rounds, rfl⟩ : ∃ k, rounds = k + 1 := ⟨rounds - 1, by omega⟩
          exact stripTag_leaves ht ho hc ha rounds hm
        · refine hfree.2 ?_
          rw [lower_append, lower_append, hc]
          exact ⟨_, _, rfl⟩
        · simp only [List.length_append]
          omega

theorem stripTag_enough (ht : TagName tag) (x : List Char) {rounds : Nat}
    (h : x.length ≤ rounds) : stripTag tag rounds x = pass tag x := by
  rcases reads_or_leaves ht x with ⟨y, hy⟩ | ⟨z, hz, -, -⟩
  · exact (stripTag_reads ht hy h).trans (stripTag_reads ht hy (Nat.le_refl _)).symm
  · exact (hz rounds h).trans (hz _ (Nat.le_refl _)).symm

/-- **A pass leaves none of its tags exactly if the text can be read.** -/
theorem reads_iff (ht : TagName tag) {x y : List Char} :
    Reads tag x y ↔ pass tag x = y ∧ Free tag y := by
  constructor
  · exact fun h => ⟨stripTag_reads ht h (Nat.le_refl _), h.free⟩
  · rintro ⟨rfl, hfree⟩
    rcases reads_or_leaves ht x with ⟨y, hy⟩ | ⟨z, hz, hleft, -⟩
    · have hsame : pass tag x = y := stripTag_reads ht hy (Nat.le_refl _)
      rwa [hsame]
    · have hsame : pass tag x = z := hz _ (Nat.le_refl _)
      exact absurd (hsame ▸ hfree) hleft

/-- A pass leaves alone what has no such tag, and nothing else. -/
theorem pass_eq_self_iff (ht : TagName tag) {x : List Char} : pass tag x = x ↔ Free tag x := by
  constructor
  · intro h
    rcases reads_or_leaves ht x with ⟨y, hy⟩ | ⟨z, hz, -, hlt⟩
    · obtain ⟨hsame, hfree⟩ := (reads_iff ht).mp hy
      rw [h] at hsame
      exact hsame ▸ hfree
    · have hsame : pass tag x = z := hz _ (Nat.le_refl _)
      rw [← hsame, h] at hlt
      exact absurd hlt (Nat.lt_irrefl _)
  · exact fun h => stripTag_free h _

/-- What is left is left in order. -/
theorem stripTag_sublist (rounds : Nat) (x : List Char) : (stripTag tag rounds x).Sublist x := by
  induction rounds generalizing x with
  | zero => exact List.Sublist.refl x
  | succ rounds ih =>
      rw [stripTag]
      split
      · split
        · rename_i o c _ _ hlt
          refine (ih _).trans ?_
          have hdrop : (x.drop (c + (closer tag).length)).Sublist (x.drop o) := by
            rw [show c + (closer tag).length = o + (c + (closer tag).length - o) by omega,
              ← List.drop_drop]
            exact List.drop_sublist _ _
          simpa only [List.take_append_drop] using (List.Sublist.refl (x.take o)).append hdrop
        · exact List.take_sublist _ x
      · exact List.take_sublist _ x
      · exact (ih _).trans (List.drop_sublist _ x)
      · exact List.Sublist.refl x

theorem pass_sublist (x : List Char) : (pass tag x).Sublist x := stripTag_sublist _ x

end

/-! ## 5. Pass after pass -/

/-- Every pass can read its text, and what it leaves has none of the earlier tags. -/
inductive ReadsAll : List (List Char) → List (List Char) → List Char → List Char → Prop
  | done {earlier : List (List Char)} {x : List Char} : ReadsAll earlier [] x x
  | pass {earlier later : List (List Char)} {tag x y z : List Char} :
      Reads tag x y → (∀ t ∈ earlier, Free t y) → ReadsAll (tag :: earlier) later y z →
      ReadsAll earlier (tag :: later) x z

/-- **In none of the passes does a closer stand before an opener once the blocks are removed, and no
    pass puts an earlier tag together.** -/
def Tidy (raw : List Char) : Prop := ∃ text, ReadsAll [] reasoningTags raw text

/-- Free of all the tags. -/
def Clean (text : List Char) : Prop := ∀ tag ∈ reasoningTags, Free tag text

theorem tagName_of_mem : ∀ tag ∈ reasoningTags, TagName tag := by
  have hall : reasoningTags.all (fun tag => !tag.contains '<' && !tag.contains '/') = true := by
    decide
  intro tag htag
  simpa [TagName] using List.all_eq_true.mp hall tag htag

theorem passes_sublist (tags : List (List Char)) (x : List Char) :
    (passes tags x).Sublist x := by
  induction tags generalizing x with
  | nil => exact List.Sublist.refl x
  | cons tag tags ih => exact (ih (pass tag x)).trans (pass_sublist x)

/-- The passes leave alone what has none of their tags, and nothing else. -/
theorem passes_eq_self_iff {tags : List (List Char)} (htags : ∀ tag ∈ tags, TagName tag)
    {x : List Char} : passes tags x = x ↔ ∀ tag ∈ tags, Free tag x := by
  induction tags generalizing x with
  | nil => exact ⟨fun _ => fun _ h => absurd h List.not_mem_nil, fun _ => rfl⟩
  | cons tag tags ih =>
      have ht := htags tag List.mem_cons_self
      have hrest := ih (fun t h => htags t (List.mem_cons_of_mem tag h)) (x := x)
      constructor
      · intro h
        -- nothing gets longer, so the first pass has left the text alone too
        have hpass : pass tag x = x := by
          refine (pass_sublist x).eq_of_length (Nat.le_antisymm (pass_sublist x).length_le ?_)
          have hle := (passes_sublist tags (pass tag x)).length_le
          rw [show passes tags (pass tag x) = x from h] at hle
          exact hle
        have h' : passes tags x = x := by
          have := h
          rwa [passes, List.foldl_cons, hpass] at this
        exact List.forall_mem_cons.mpr ⟨(pass_eq_self_iff ht).mp hpass, hrest.mp h'⟩
      · intro h
        obtain ⟨hfree, hfrees⟩ := List.forall_mem_cons.mp h
        rw [passes, List.foldl_cons, (pass_eq_self_iff ht).mpr hfree]
        exact hrest.mpr hfrees

theorem mem_taken {earlier later : List (List Char)} {t tag : List Char} :
    t ∈ tag :: earlier ∨ t ∈ later ↔ t ∈ earlier ∨ t ∈ tag :: later := by
  simp only [List.mem_cons]
  exact ⟨fun h => by tauto, fun h => by tauto⟩

/-- **A text that every pass can read ends without a tag.** -/
theorem free_of_readsAll {earlier tags : List (List Char)} {x z : List Char}
    (htags : ∀ tag ∈ tags, TagName tag) (h : ReadsAll earlier tags x z)
    (hfree : ∀ t ∈ earlier, Free t x) :
    passes tags x = z ∧ ∀ t, t ∈ earlier ∨ t ∈ tags → Free t z := by
  induction h with
  | done => exact ⟨rfl, fun t ht => ht.elim (hfree t) fun h => absurd h List.not_mem_nil⟩
  | @pass earlier later tag x y z hreads hearlier _ ih =>
      obtain ⟨hpass, hy⟩ := (reads_iff (htags tag List.mem_cons_self)).mp hreads
      obtain ⟨hz, hall⟩ := ih (fun t h => htags t (List.mem_cons_of_mem tag h))
        (List.forall_mem_cons.mpr ⟨hy, hearlier⟩)
      refine ⟨?_, fun t ht => hall t (mem_taken.mpr ht)⟩
      rwa [passes, List.foldl_cons, hpass]

/-- **Exactly then does every pass leave none of the tags taken so far.** -/
theorem readsAll_iff {earlier tags : List (List Char)} {x : List Char}
    (htags : ∀ tag ∈ tags, TagName tag) (hfree : ∀ t ∈ earlier, Free t x) :
    (∃ z, ReadsAll earlier tags x z) ↔
      ∀ taken later, tags = taken ++ later → ∀ t, t ∈ earlier ∨ t ∈ taken →
        Free t (passes taken x) := by
  induction tags generalizing earlier x with
  | nil =>
      refine ⟨fun _ taken later heq t ht => ?_, fun _ => ⟨x, .done⟩⟩
      obtain rfl := (List.append_eq_nil_iff.mp heq.symm).1
      exact ht.elim (hfree t) fun h => absurd h List.not_mem_nil
  | cons tag tags ih =>
      have htag := htags tag List.mem_cons_self
      have htags' : ∀ t ∈ tags, TagName t := fun t h => htags t (List.mem_cons_of_mem tag h)
      constructor
      · rintro ⟨z, hz⟩ taken later heq t ht
        cases hz with
        | @pass _ _ _ _ y _ hreads hearlier hrest =>
            obtain ⟨hpass, hy⟩ := (reads_iff htag).mp hreads
            cases taken with
            | nil => exact ht.elim (hfree t) fun h => absurd h List.not_mem_nil
            | cons t' taken =>
                obtain ⟨rfl, rfl⟩ := List.cons.inj heq
                have hnext := (ih htags' (List.forall_mem_cons.mpr ⟨hy, hearlier⟩)).mp ⟨z, hrest⟩
                  taken later rfl t (mem_taken.mpr ht)
                rwa [passes, List.foldl_cons, hpass]
      · intro h
        have hfirst := h [tag] tags rfl
        have hy : Free tag (pass tag x) := hfirst tag (.inr List.mem_cons_self)
        have hearlier : ∀ t ∈ earlier, Free t (pass tag x) := fun t ht => hfirst t (.inl ht)
        obtain ⟨z, hz⟩ := (ih htags' (List.forall_mem_cons.mpr ⟨hy, hearlier⟩)).mpr
          fun taken later heq t ht =>
            h (tag :: taken) later (by rw [heq]; rfl) t (mem_taken.mp ht)
        exact ⟨z, .pass ((reads_iff htag).mpr ⟨rfl, hy⟩) hearlier hz⟩

/-! ## 6. The reply -/

/-- **What is left is a part of the reply, in order; a reply without a tag stays as it is; and the
    loops end. When the reply is tidy no tag is left, and stripping again changes nothing.** It is
    tidy exactly if every pass leaves none of the tags taken so far. -/
theorem strip_reasoning_blocks_tidy (raw : List Char) :
    (stripReasoningBlocks raw).Sublist raw ∧
    (Clean raw → stripReasoningBlocks raw = raw) ∧
    (∀ tag ∈ reasoningTags, ∀ (out : List Char) (rounds : Nat), out.length ≤ rounds →
      stripTag tag rounds out = pass tag out) ∧
    (stripReasoningBlocks (stripReasoningBlocks raw) = stripReasoningBlocks raw ↔
      Clean (stripReasoningBlocks raw)) ∧
    (Tidy raw → Clean (stripReasoningBlocks raw)) ∧
    (Tidy raw ↔ ∀ taken later, reasoningTags = taken ++ later → ∀ tag ∈ taken,
      Free tag (passes taken raw)) := by
  refine ⟨passes_sublist _ raw, (passes_eq_self_iff tagName_of_mem).mpr,
    fun tag htag out rounds h => stripTag_enough (tagName_of_mem tag htag) out h,
    passes_eq_self_iff tagName_of_mem, ?_, ?_⟩
  · rintro ⟨text, h⟩ tag htag
    obtain ⟨hstrip, hfree⟩ := free_of_readsAll tagName_of_mem h
      fun _ h => absurd h List.not_mem_nil
    rw [stripReasoningBlocks, hstrip]
    exact hfree tag (.inr htag)
  · have h := @readsAll_iff [] reasoningTags raw tagName_of_mem
      fun _ h => absurd h List.not_mem_nil
    unfold Tidy
    simpa only [List.not_mem_nil, false_or] using h

/-- A closer in front of a block is left; and two halves of a tag close up around a block of
    another. -/
theorem strip_reasoning_blocks_leaks :
    stripReasoningBlocks "abc</think>def<think>x</think>".toList = "abc</think>def".toList ∧
    stripReasoningBlocks "<thi<reasoning></reasoning>nk>".toList = "<think>".toList ∧
    ¬Clean (stripReasoningBlocks "abc</think>def<think>x</think>".toList) ∧
    stripReasoningBlocks (stripReasoningBlocks "abc</think>def<think>x</think>".toList) ≠
      stripReasoningBlocks "abc</think>def<think>x</think>".toList := by
  have hagain : stripReasoningBlocks
        (stripReasoningBlocks "abc</think>def<think>x</think>".toList) ≠
      stripReasoningBlocks "abc</think>def<think>x</think>".toList := by decide +kernel
  exact ⟨by decide +kernel, by decide +kernel,
    fun hclean => hagain ((passes_eq_self_iff tagName_of_mem).mpr hclean), hagain⟩

/-- A block, with a tag in another letter case. -/
theorem strip_reasoning_blocks_block :
    Tidy "Hi <Think>hm</think>there".toList ∧
    Clean (stripReasoningBlocks "Hi <Think>hm</think>there".toList) := by
  have hfree : ∀ tag ∈ reasoningTags, Free tag "Hi there".toList := by
    simp only [reasoningTags, List.forall_mem_cons]
    refine ⟨?_, ?_, ?_, ?_, fun _ h => absurd h List.not_mem_nil⟩ <;>
      exact ⟨find_eq_none.mp (by decide +kernel), find_eq_none.mp (by decide +kernel)⟩
  have hbefore : Free "think".toList "Hi ".toList :=
    ⟨find_eq_none.mp (by decide +kernel), find_eq_none.mp (by decide +kernel)⟩
  have hreads : Reads "think".toList "Hi <Think>hm</think>there".toList "Hi there".toList :=
    @Reads.block _ "Hi ".toList "<Think>".toList "hm".toList "</think>".toList "there".toList _
      (by decide +kernel) (by decide +kernel) hbefore (find_eq_none.mp (by decide +kernel))
      (.plain (hfree _ List.mem_cons_self))
  have hearlier : ∀ tags, tags ⊆ reasoningTags → ∀ t ∈ tags, Free t "Hi there".toList :=
    fun tags hsub t ht => hfree t (hsub ht)
  have htidy : Tidy "Hi <Think>hm</think>there".toList := by
    refine ⟨"Hi there".toList, .pass hreads (fun _ h => absurd h List.not_mem_nil)
      (.pass (.plain ?_) ?_ (.pass (.plain ?_) ?_ (.pass (.plain ?_) ?_ .done)))⟩
    · exact hfree _ (by decide)
    · exact hearlier _ (by decide)
    · exact hfree _ (by decide)
    · exact hearlier _ (by decide)
    · exact hfree _ (by decide)
    · exact hearlier _ (by decide)
  exact ⟨htidy, (strip_reasoning_blocks_tidy _).2.2.2.2.1 htidy⟩

/-- What one pass leaves, a later one may take. -/
example : stripReasoningBlocks "<thinking></think></thinking><think>".toList = [] := by
  decide +kernel

end Ruwa.Egress
