/-
  File:      Ruwa/Session/Updates.lean
  Subject:   ONE ROW AND ALL THAT IS DONE TO IT: edits, revokes, deliveries of its message, resends
             and batches of history, in every order.

  An edit or a revoke overwrites; a delivery changes the row once, if it could not be decrypted
  before; a sealed edit is read with the secret that is stored by then.

  * `secret_fold`, `kind_fold`, `marks_fold` -- what a sequence leaves, in closed form;
  * `body_fold` -- the text, if whoever writes it writes the same;
  * **`same_row_iff`** -- every order leaves the same row exactly when all writers agree;
  * **`converges_iff`** -- one row, with the latest text or hidden for good, exactly when moreover
    this is the text that all agree on and nothing brings back what was revoked.
-/
import Mathlib.Data.List.Induction
import Mathlib.Data.List.Perm.Basic
import Ruwa.Session.Inbound

namespace Ruwa.Session.Inbound

open Ruwa.Library

/-! ## 1. Orders of a list -/

theorem perm_first {α : Type} {a : α} {l : List α} (h : a ∈ l) :
    ∃ rest, (a :: rest).Perm l := by
  obtain ⟨before, after, rfl⟩ := List.append_of_mem h
  exact ⟨before ++ after, List.perm_middle.symm⟩

theorem perm_last {α : Type} {a : α} {l : List α} (h : a ∈ l) :
    ∃ rest, (rest ++ [a]).Perm l := by
  obtain ⟨rest, hrest⟩ := perm_first h
  exact ⟨rest, (List.perm_append_singleton a rest).trans hrest⟩

/-- One element first and another last. -/
theorem perm_ends {α : Type} {a b : α} {l : List α} (ha : a ∈ l) (hb : b ∈ l) (hne : a ≠ b) :
    ∃ rest, (a :: (rest ++ [b])).Perm l := by
  obtain ⟨others, hothers⟩ := perm_first ha
  have hmem : b ∈ others :=
    (List.mem_cons.mp (hothers.mem_iff.mpr hb)).resolve_left fun h => hne h.symm
  obtain ⟨rest, hrest⟩ := perm_last hmem
  exact ⟨rest, (hrest.cons a).trans hothers⟩

/-- An order of what a list is mapped to comes from an order of the list. -/
theorem perm_map_lift {α β : Type} {f : α → β} {l : List β} {items : List α}
    (h : (items.map f).Perm l) : ∃ order : List α, order.Perm items ∧ order.map f = l := by
  generalize hm : items.map f = m at h
  induction h generalizing items with
  | nil => exact ⟨items, List.Perm.refl items, hm⟩
  | cons x _ ih =>
      obtain ⟨a, rest, rfl, rfl, hrest⟩ := List.map_eq_cons_iff.mp hm
      obtain ⟨order, hperm, hmap⟩ := ih hrest
      exact ⟨a :: order, hperm.cons a, by rw [List.map_cons, hmap]⟩
  | swap x y l =>
      obtain ⟨a, rest, rfl, rfl, hrest⟩ := List.map_eq_cons_iff.mp hm
      obtain ⟨b, rest', rfl, rfl, hrest'⟩ := List.map_eq_cons_iff.mp hrest
      exact ⟨b :: a :: rest', List.Perm.swap a b rest', by rw [List.map_cons, List.map_cons, hrest']⟩
  | trans _ _ ih₁ ih₂ =>
      obtain ⟨order₁, hperm₁, hmap₁⟩ := ih₁ hm
      obtain ⟨order₂, hperm₂, hmap₂⟩ := ih₂ hmap₁
      exact ⟨order₂, hperm₂.trans hperm₁, hmap₂⟩

/-! ## 2. What is done to a row -/

/-- The sender that a secret came from, and the secret. -/
abbrev Secret := Str × Bytes

/-- A row, and the secret that is stored for its message. -/
structure Known where
  row : Row
  secret : Option Secret

/-- An edit is plain, or sealed and opens under some secrets. A content is that of the message
    itself, with the secret that it brings, and whether it is told with something in it. -/
inductive Update where
  | edit (sentAt : Int) (text : Option Str) (sealed : Option (Secret → Bool))
  | revoke
  | content (c : Columns) (secret : Option Secret) (tells : Bool)
  | history

/-- The text of an edit, as far as it can be read. -/
def Update.read (stored : Option Secret) : Update → Option Str
  | edit _ text none => text
  | edit _ text (some opens) => if stored.any opens then text else none
  | _ => none

/-- A row that could not be decrypted takes the columns of one that can be. -/
def Row.take (c : Columns) (row : Row) : Row :=
  if row.msgType = undecryptable ∧ c.msgType ≠ undecryptable then
    { row with msgType := c.msgType, bodyText := c.bodyText, payload := some (.obj c.payload) }
  else row

def Known.apply (k : Known) : Update → Known
  | .edit sentAt text sealed =>
      { k with row := { k.row with
        bodyText := ((Update.edit sentAt text sealed).read k.secret).or k.row.bodyText
        edited := true } }
  | .revoke => { k with row := { k.row with bodyText := none, revoked := true } }
  | .content c secret _ => ⟨k.row.take c, k.secret.or secret⟩
  | .history => k

/-- Whether something of the message is told. -/
def Update.told (stored : Option Secret) : Update → Bool
  | .content _ _ tells => tells
  | u => (u.read stored).isSome

def Update.isEdit : Update → Bool
  | edit .. => true
  | _ => false

def Update.isRevoke : Update → Bool
  | revoke => true
  | _ => false

/-- The contents that can be read. -/
def readable : Update → Option Columns
  | .content c _ _ => if c.msgType = undecryptable then none else some c
  | _ => none

def readables (us : List Update) : List Columns := us.filterMap readable

def Update.carries : Update → Option Secret
  | .content _ secret _ => secret
  | _ => none

def carried (us : List Update) : List Secret := us.filterMap Update.carries

/-! ## 3. What a sequence leaves -/

theorem take_msgType_ne {c : Columns} {row : Row} (h : row.msgType ≠ undecryptable) :
    row.take c = row := if_neg fun hh => h hh.1

theorem secret_fold (us : List Update) (k : Known) :
    (us.foldl Known.apply k).secret = k.secret.or (carried us).head? := by
  induction us generalizing k with
  | nil => simp [carried]
  | cons u us ih =>
      rw [List.foldl_cons, ih]
      cases u with
      | content c secret tells =>
          have hcarried : (carried (.content c secret tells :: us)).head? =
              secret.or (carried us).head? := by
            cases secret <;> rfl
          rw [hcarried, ← Option.or_assoc]
          rfl
      | _ => rfl

/-- The type and the payload. -/
def Row.kind (row : Row) : String × Option Json := (row.msgType, row.payload)

def Columns.kind (c : Columns) : String × Option Json := (c.msgType, some (.obj c.payload))

/-- The first content that can be read gives an undecryptable row its type and payload. -/
theorem kind_fold (us : List Update) (k : Known) :
    (us.foldl Known.apply k).row.kind =
      if k.row.msgType = undecryptable then
        ((readables us).head?.map Columns.kind).getD k.row.kind
      else k.row.kind := by
  induction us generalizing k with
  | nil => simp [readables]
  | cons u us ih =>
      rw [List.foldl_cons, ih]
      cases u with
      | content c secret tells =>
          by_cases hrow : k.row.msgType = undecryptable
          · by_cases hc : c.msgType = undecryptable
            · have hkeep : (k.apply (.content c secret tells)).row = k.row :=
                if_neg fun h => h.2 hc
              simp [hkeep, readables, readable, hc]
            · have htake : (k.apply (.content c secret tells)).row =
                  { k.row with
                    msgType := c.msgType, bodyText := c.bodyText,
                    payload := some (.obj c.payload) } := if_pos ⟨hrow, hc⟩
              rw [htake]
              simp [hrow, hc, readables, readable, Row.kind, Columns.kind]
          · have hkeep : (k.apply (.content c secret tells)).row = k.row := take_msgType_ne hrow
            simp [hkeep, hrow]
      | _ => rfl

/-- The marks, and all that never changes. -/
theorem marks_fold (us : List Update) (k : Known) :
    (us.foldl Known.apply k).row.edited = (k.row.edited || us.any Update.isEdit) ∧
      (us.foldl Known.apply k).row.revoked = (k.row.revoked || us.any Update.isRevoke) ∧
      (us.foldl Known.apply k).row.chatJid = k.row.chatJid ∧
      (us.foldl Known.apply k).row.messageId = k.row.messageId ∧
      (us.foldl Known.apply k).row.senderJid = k.row.senderJid ∧
      (us.foldl Known.apply k).row.fromMe = k.row.fromMe ∧
      (us.foldl Known.apply k).row.timestamp = k.row.timestamp := by
  induction us generalizing k with
  | nil => simp
  | cons u us ih =>
      rw [List.foldl_cons]
      obtain ⟨hedited, hrevoked, hrest⟩ := ih (k.apply u)
      rw [hedited, hrevoked]
      cases u with
      | content c secret tells =>
          have htake : ∀ row : Row, (row.take c).edited = row.edited ∧
              (row.take c).revoked = row.revoked ∧ (row.take c).chatJid = row.chatJid ∧
              (row.take c).messageId = row.messageId ∧ (row.take c).senderJid = row.senderJid ∧
              (row.take c).fromMe = row.fromMe ∧ (row.take c).timestamp = row.timestamp := by
            intro row
            unfold Row.take
            split <;> exact ⟨rfl, rfl, rfl, rfl, rfl, rfl, rfl⟩
          obtain ⟨h1, h2, h3, h4, h5, h6, h7⟩ := htake k.row
          obtain ⟨g3, g4, g5, g6, g7⟩ := hrest
          exact ⟨by simp [Known.apply, h1, Update.isEdit], by simp [Known.apply, h2, Update.isRevoke],
            g3.trans h3, g4.trans h4, g5.trans h5, g6.trans h6, g7.trans h7⟩
      | edit _ _ _ => exact ⟨by simp [Known.apply, Update.isEdit], by simp [Known.apply, Update.isRevoke],
          hrest⟩
      | revoke => exact ⟨by simp [Known.apply, Update.isEdit], by simp [Known.apply, Update.isRevoke],
          hrest⟩
      | history => exact ⟨by simp [Known.apply, Update.isEdit], by simp [Known.apply, Update.isRevoke],
          hrest⟩

/-! ## 4. Writers that agree -/

/-- The text of an edit that some order lets be read. -/
def Update.MayRead (k : Known) (us : List Update) (u : Update) (b : Str) : Prop :=
  u.read k.secret = some b ∨ k.secret = none ∧ ∃ s ∈ carried us, u.read (some s) = some b

/-- Something writes the text whatever the order. -/
def Writes (k : Known) (us : List Update) : Prop :=
  Update.revoke ∈ us ∨ (k.row.msgType = undecryptable ∧ readables us ≠ []) ∨
    ∃ u ∈ us, (u.read k.secret).isSome

/-- Whoever may write the text writes this one. -/
structure Agreed (k : Known) (us : List Update) (left : Option Str) : Prop where
  edits : ∀ u ∈ us, ∀ b, u.MayRead k us b → left = some b
  revokes : Update.revoke ∈ us → left = none
  contents : k.row.msgType = undecryptable → ∀ c ∈ readables us, c.bodyText = left
  kinds : k.row.msgType = undecryptable →
    ∀ c ∈ readables us, ∀ c' ∈ readables us, c.kind = c'.kind
  written : k.row.bodyText = left ∨ Writes k us

theorem read_mono {u : Update} {stored : Option Secret} {b : Str} (h : u.read stored = some b)
    (more : Option Secret) : u.read (stored.or more) = some b := by
  cases stored with
  | some s => exact h
  | none =>
      cases u with
      | edit sentAt text sealed =>
          cases sealed with
          | none => exact h
          | some opens => cases h
      | _ => cases h

/-- What can be read after some of the updates may be read. -/
theorem mayRead_fold {k : Known} {us pre : List Update} (hpre : ∀ u ∈ pre, u ∈ us) {u : Update}
    {b : Str} (h : u.read (pre.foldl Known.apply k).secret = some b) : u.MayRead k us b := by
  rw [secret_fold] at h
  unfold Update.MayRead
  cases hk : k.secret with
  | some p =>
      rw [hk] at h
      exact Or.inl h
  | none =>
      rw [hk, Option.none_or] at h
      cases hhead : (carried pre).head? with
      | none =>
          rw [hhead] at h
          exact Or.inl h
      | some s =>
          rw [hhead] at h
          obtain ⟨d, hd, hs⟩ := List.mem_filterMap.mp (List.mem_of_mem_head? hhead)
          exact Or.inr ⟨rfl, s, List.mem_filterMap.mpr ⟨d, hpre d hd, hs⟩, h⟩

theorem mem_readables {us : List Update} {c : Columns} :
    c ∈ readables us ↔
      c.msgType ≠ undecryptable ∧ ∃ secret tells, Update.content c secret tells ∈ us := by
  unfold readables
  rw [List.mem_filterMap]
  constructor
  · rintro ⟨u, hu, hc⟩
    cases u with
    | content c' secret tells =>
        by_cases hne : c'.msgType = undecryptable
        · simp [readable, hne] at hc
        · obtain rfl : c' = c := by simpa [readable, hne] using hc
          exact ⟨hne, secret, tells, hu⟩
    | _ => cases hc
  · rintro ⟨hne, secret, tells, hu⟩
    exact ⟨_, hu, if_neg hne⟩

/-- After some of the updates the row is undecryptable if it was and none of them can be read. -/
theorem undecryptable_fold {k : Known} {pre : List Update} :
    (pre.foldl Known.apply k).row.msgType = undecryptable ↔
      k.row.msgType = undecryptable ∧ readables pre = [] := by
  have hkind : (pre.foldl Known.apply k).row.msgType = ((pre.foldl Known.apply k).row.kind).1 := rfl
  rw [hkind, kind_fold]
  split
  · next hu =>
      cases hr : readables pre with
      | nil => simp [Row.kind, hu]
      | cons c cs =>
          have hne := (mem_readables.mp (hr ▸ List.mem_cons_self : c ∈ readables pre)).1
          simp [Columns.kind, hu, hne]
  · next hu => exact ⟨fun h => absurd h hu, fun h => absurd h.1 hu⟩

theorem writes_append {k : Known} {pre : List Update} {u : Update} (h : Writes k (pre ++ [u])) :
    Writes k pre ∨ u = .revoke ∨
      (k.row.msgType = undecryptable ∧ (readable u).isSome) ∨ (u.read k.secret).isSome := by
  rcases h with hrevoke | ⟨hu, hreadable⟩ | ⟨x, hx, hread⟩
  · rcases List.mem_append.mp hrevoke with hpre | hlast
    · exact Or.inl (Or.inl hpre)
    · exact Or.inr (Or.inl (List.mem_singleton.mp hlast).symm)
  · by_cases hpre : readables pre = []
    · refine Or.inr (Or.inr (Or.inl ⟨hu, ?_⟩))
      unfold readables at hreadable hpre
      rw [List.filterMap_append, hpre, List.nil_append] at hreadable
      cases hlast : readable u with
      | none => exact absurd (by rw [List.filterMap_cons_none hlast, List.filterMap_nil]) hreadable
      | some c => rfl
    · exact Or.inl (Or.inr (Or.inl ⟨hu, hpre⟩))
  · rcases List.mem_append.mp hx with hpre | hlast
    · exact Or.inl (Or.inr (Or.inr ⟨x, hpre, hread⟩))
    · obtain rfl := List.mem_singleton.mp hlast
      exact Or.inr (Or.inr (Or.inr hread))

/-- **The text after some of the updates**: what all of them write, or what was there. -/
theorem body_fold {k : Known} {us : List Update} {left : Option Str} (h : Agreed k us left)
    (pre : List Update) (hpre : ∀ u ∈ pre, u ∈ us) :
    (pre.foldl Known.apply k).row.bodyText = left ∨
      (pre.foldl Known.apply k).row.bodyText = k.row.bodyText ∧ ¬Writes k pre := by
  induction pre using List.reverseRecOn with
  | nil => exact Or.inr ⟨rfl, fun hw => by simp [Writes, readables] at hw⟩
  | append_singleton pre u ih =>
      have hpre' : ∀ x ∈ pre, x ∈ us := fun x hx => hpre x (List.mem_append_left _ hx)
      have hu : u ∈ us := hpre u (List.mem_append_right _ List.mem_cons_self)
      have hstep : (pre ++ [u]).foldl Known.apply k = (pre.foldl Known.apply k).apply u := by
        rw [List.foldl_append]
        rfl
      rw [hstep]
      cases u with
      | edit sentAt text sealed =>
          have hbody : ((pre.foldl Known.apply k).apply (.edit sentAt text sealed)).row.bodyText =
              ((Update.edit sentAt text sealed).read (pre.foldl Known.apply k).secret).or
                (pre.foldl Known.apply k).row.bodyText := rfl
          rw [hbody]
          cases hread : (Update.edit sentAt text sealed).read (pre.foldl Known.apply k).secret with
          | some b => exact Or.inl (h.edits _ hu b (mayRead_fold hpre' hread)).symm
          | none =>
              rw [Option.none_or]
              refine (ih hpre').imp_right fun ⟨hkeep, hno⟩ => ⟨hkeep, fun hw => ?_⟩
              rcases writes_append hw with hpre'' | heq | ⟨-, hc⟩ | hsome
              · exact hno hpre''
              · cases heq
              · cases hc
              · obtain ⟨b, hb⟩ := Option.isSome_iff_exists.mp hsome
                rw [secret_fold, read_mono hb] at hread
                cases hread
      | revoke => exact Or.inl (h.revokes hu).symm
      | content c secret tells =>
          by_cases htakes : (pre.foldl Known.apply k).row.msgType = undecryptable ∧
              c.msgType ≠ undecryptable
          · refine Or.inl ?_
            have hbody : ((pre.foldl Known.apply k).apply (.content c secret tells)).row.bodyText =
                c.bodyText := congrArg Row.bodyText (if_pos htakes)
            rw [hbody]
            exact h.contents (undecryptable_fold.mp htakes.1).1 c
              (mem_readables.mpr ⟨htakes.2, secret, tells, hu⟩)
          · have hbody : ((pre.foldl Known.apply k).apply (.content c secret tells)).row.bodyText =
                (pre.foldl Known.apply k).row.bodyText := congrArg Row.bodyText (if_neg htakes)
            rw [hbody]
            refine (ih hpre').imp_right fun ⟨hkeep, hno⟩ => ⟨hkeep, fun hw => ?_⟩
            rcases writes_append hw with hpre'' | heq | ⟨hrow, hc⟩ | hsome
            · exact hno hpre''
            · cases heq
            · -- the row was undecryptable and no longer is, so that a content has written it
              have hreadable : c.msgType ≠ undecryptable := fun hc' => by simp [readable, hc'] at hc
              refine hno (Or.inr (Or.inl ⟨hrow, fun hnone => htakes ⟨?_, hreadable⟩⟩))
              exact undecryptable_fold.mpr ⟨hrow, hnone⟩
            · cases hsome
      | history =>
          refine (ih hpre').imp_right fun ⟨hkeep, hno⟩ => ⟨hkeep, fun hw => ?_⟩
          rcases writes_append hw with hpre'' | heq | ⟨-, hc⟩ | hsome
          · exact hno hpre''
          · cases heq
          · cases hc
          · cases hsome

/-! ## 5. One row in every order -/

section Orders

variable {k : Known} {us order : List Update} {left : Option Str}

theorem writes_perm (hperm : order.Perm us) (h : Writes k us) : Writes k order := by
  rcases h with hrevoke | ⟨hu, hreadable⟩ | ⟨u, hu, hread⟩
  · exact Or.inl (hperm.mem_iff.mpr hrevoke)
  · obtain ⟨c, hc⟩ := List.exists_mem_of_ne_nil _ hreadable
    exact Or.inr (Or.inl ⟨hu, List.ne_nil_of_mem ((hperm.filterMap readable).mem_iff.mpr hc)⟩)
  · exact Or.inr (Or.inr ⟨u, hperm.mem_iff.mpr hu, hread⟩)

theorem Agreed.body (h : Agreed k us left) (hperm : order.Perm us) :
    (order.foldl Known.apply k).row.bodyText = left := by
  rcases body_fold h order fun u hu => hperm.mem_iff.mp hu with hleft | ⟨hkeep, hno⟩
  · exact hleft
  · rcases h.written with hrow | hwrites
    · exact hkeep.trans hrow
    · exact absurd (writes_perm hperm hwrites) hno

theorem Agreed.kind (h : Agreed k us left) (hperm : order.Perm us) :
    (order.foldl Known.apply k).row.kind = (us.foldl Known.apply k).row.kind := by
  rw [kind_fold, kind_fold]
  split
  · next hu =>
      have hmem : ∀ c, c ∈ readables order ↔ c ∈ readables us := fun c =>
        (hperm.filterMap readable).mem_iff
      cases horder : (readables order).head? with
      | none =>
          have hnil : readables us = [] := List.eq_nil_iff_forall_not_mem.mpr fun c hc => by
            have hc' := (hmem c).mpr hc
            rw [List.head?_eq_none_iff.mp horder] at hc'
            cases hc'
          rw [hnil]
          rfl
      | some c =>
          have hc := (hmem c).mp (List.mem_of_mem_head? horder)
          cases hus : (readables us).head? with
          | none =>
              rw [List.head?_eq_none_iff.mp hus] at hc
              cases hc
          | some c' => exact h.kinds hu c hc c' (List.mem_of_mem_head? hus)
  · rfl

/-- With writers that agree, two orders leave the same row. -/
theorem Agreed.same (h : Agreed k us left) (hperm : order.Perm us) :
    (order.foldl Known.apply k).row = (us.foldl Known.apply k).row := by
  obtain ⟨hedited, hrevoked, hchat, hid, hsender, hme, htime⟩ := marks_fold order k
  obtain ⟨hedited', hrevoked', hchat', hid', hsender', hme', htime'⟩ := marks_fold us k
  have hkind := h.kind hperm
  have hany : ∀ p : Update → Bool, order.any p = us.any p := fun p => by
    rw [Bool.eq_iff_iff, List.any_eq_true, List.any_eq_true]
    simp only [hperm.mem_iff]
  refine Row.ext (hchat.trans hchat'.symm) (hid.trans hid'.symm) (hsender.trans hsender'.symm)
    (hme.trans hme'.symm) (htime.trans htime'.symm) (congrArg Prod.fst hkind)
    ((h.body hperm).trans (h.body (List.Perm.refl us)).symm) (congrArg Prod.snd hkind) ?_ ?_
  · rw [hedited, hedited', hany]
  · rw [hrevoked, hrevoked', hany]

/-- An edit at the end writes what it is read as. -/
theorem fold_last_edit {pre : List Update} {u : Update} {b : Str}
    (h : u.read (pre.foldl Known.apply k).secret = some b) :
    ((pre ++ [u]).foldl Known.apply k).row.bodyText = some b := by
  rw [List.foldl_append]
  cases u with
  | edit sentAt text sealed =>
      change ((Update.edit sentAt text sealed).read _).or _ = _
      rw [h, Option.some_or]
  | _ => cases h

/-- Contents leave a row alone that can be read. -/
theorem fold_contents {cs : List Update} (hcs : ∀ u ∈ cs, (readable u).isSome)
    (hrow : k.row.msgType ≠ undecryptable) : (cs.foldl Known.apply k).row = k.row := by
  induction cs generalizing k with
  | nil => rfl
  | cons u cs ih =>
      have hkeep : (k.apply u).row = k.row := by
        cases u with
        | content c secret tells => exact take_msgType_ne hrow
        | _ => exact absurd (hcs _ List.mem_cons_self) Bool.false_ne_true
      rw [List.foldl_cons, ih (fun x hx => hcs x (List.mem_cons_of_mem u hx)) (by rwa [hkeep]), hkeep]

/-- A content that can be read, before all others of its kind, gives an undecryptable row its text
    and its kind. -/
theorem fold_heals {c : Columns} (hrow : k.row.msgType = undecryptable) (hc : c ∈ readables us) :
    ∃ order : List Update, order.Perm us ∧ (order.foldl Known.apply k).row.bodyText = c.bodyText ∧
      (order.foldl Known.apply k).row.kind = c.kind := by
  obtain ⟨hne, secret, tells, hmem⟩ := mem_readables.mp hc
  have hfirst : Update.content c secret tells ∈ us.filter fun u => (readable u).isSome :=
    List.mem_filter.mpr ⟨hmem, by simp [readable, hne]⟩
  obtain ⟨rest, hrest⟩ := perm_first hfirst
  have hothers : readables (us.filter fun u => !(readable u).isSome) = [] := by
    refine List.eq_nil_iff_forall_not_mem.mpr fun c' hc' => ?_
    obtain ⟨u, hu, hread⟩ := List.mem_filterMap.mp hc'
    have hnone := (List.mem_filter.mp hu).2
    rw [hread] at hnone
    cases hnone
  have hbefore := undecryptable_fold.mpr ⟨hrow, hothers⟩
  refine ⟨us.filter (fun u => !(readable u).isSome) ++ .content c secret tells :: rest, ?_, ?_⟩
  · have hsplit := List.filter_append_perm (fun u => (readable u).isSome) us
    exact (List.perm_append_comm.trans (hrest.append_right _)).trans hsplit
  · rw [List.foldl_append, List.foldl_cons]
    generalize (us.filter fun u => !(readable u).isSome).foldl Known.apply k = k' at hbefore
    have htake : (k'.apply (.content c secret tells)).row =
        { k'.row with
          msgType := c.msgType, bodyText := c.bodyText, payload := some (.obj c.payload) } :=
      if_pos ⟨hbefore, hne⟩
    rw [fold_contents (fun u hu => ?_) (by rw [htake]; exact hne), htake]
    · exact ⟨rfl, rfl⟩
    · exact (List.mem_filter.mp (hrest.mem_iff.mp (List.mem_cons_of_mem _ hu))).2

/-- Edits that cannot be read leave the text alone. -/
theorem fold_unread {es : List Update} (hes : ∀ u ∈ es, u.isEdit = true ∧ u.read k.secret = none) :
    (es.foldl Known.apply k).row.bodyText = k.row.bodyText := by
  induction es generalizing k with
  | nil => rfl
  | cons u es ih =>
      obtain ⟨hedit, hread⟩ := hes u List.mem_cons_self
      have hrest : ∀ x ∈ es, x.isEdit = true ∧ x.read k.secret = none := fun x hx =>
        hes x (List.mem_cons_of_mem u hx)
      cases u with
      | edit sentAt text sealed =>
          have hbody : (k.apply (.edit sentAt text sealed)).row.bodyText = k.row.bodyText := by
            change ((Update.edit sentAt text sealed).read k.secret).or _ = _
            rw [hread, Option.none_or]
          rw [List.foldl_cons, ih (k := k.apply (.edit sentAt text sealed)) hrest, hbody]
      | _ => cases hedit

/-- What is neither an edit nor a revoke leaves the text alone, if it does not heal the row. -/
theorem fold_others {os : List Update} (hos : ∀ u ∈ os, u.isEdit = false ∧ u ≠ .revoke)
    (hrow : k.row.msgType = undecryptable → readables os = []) :
    (os.foldl Known.apply k).row.bodyText = k.row.bodyText := by
  induction os generalizing k with
  | nil => rfl
  | cons u os ih =>
      obtain ⟨hedit, hrevoke⟩ := hos u List.mem_cons_self
      have hrest : ∀ x ∈ os, x.isEdit = false ∧ x ≠ .revoke := fun x hx =>
        hos x (List.mem_cons_of_mem u hx)
      rw [List.foldl_cons]
      cases u with
      | edit sentAt text sealed => cases hedit
      | revoke => exact absurd rfl hrevoke
      | history => exact ih hrest hrow
      | content c secret tells =>
          have hkeep : (k.apply (.content c secret tells)).row = k.row := by
            refine if_neg fun ⟨hu, hne⟩ => ?_
            have hmem : c ∈ readables (.content c secret tells :: os) :=
              mem_readables.mpr ⟨hne, secret, tells, List.mem_cons_self⟩
            rw [hrow hu] at hmem
            cases hmem
          rw [ih hrest fun hu => ?_, hkeep]
          rw [hkeep] at hu
          refine List.eq_nil_iff_forall_not_mem.mpr fun c' hc' => ?_
          obtain ⟨hne, secret', tells', hin⟩ := mem_readables.mp hc'
          have hmem : c' ∈ readables (.content c secret tells :: os) :=
            mem_readables.mpr ⟨hne, secret', tells', List.mem_cons_of_mem _ hin⟩
          rw [hrow hu] at hmem
          cases hmem

/-- If nothing writes the text whatever the order, it stays in the order that has the edits
    first. -/
theorem fold_quiet (hno : ¬Writes k us) :
    ∃ order : List Update, order.Perm us ∧
      (order.foldl Known.apply k).row.bodyText = k.row.bodyText := by
  refine ⟨_, List.filter_append_perm Update.isEdit us, ?_⟩
  have hedits : ∀ u ∈ us.filter Update.isEdit, u.isEdit = true ∧ u.read k.secret = none := by
    intro u hu
    obtain ⟨hmem, hedit⟩ := List.mem_filter.mp hu
    refine ⟨hedit, Option.not_isSome_iff_eq_none.mp fun hsome => hno ?_⟩
    exact Or.inr (Or.inr ⟨u, hmem, hsome⟩)
  have hnone : readables (us.filter Update.isEdit) = [] := by
    refine List.eq_nil_iff_forall_not_mem.mpr fun c hc => ?_
    obtain ⟨-, secret, tells, hin⟩ := mem_readables.mp hc
    cases (List.mem_filter.mp hin).2
  rw [List.foldl_append, fold_others, fold_unread hedits]
  · intro u hu
    obtain ⟨hmem, hedit⟩ := List.mem_filter.mp hu
    exact ⟨by simpa using hedit, fun heq => hno (Or.inl (heq ▸ hmem))⟩
  · intro hu
    refine List.eq_nil_iff_forall_not_mem.mpr fun c hc => hno (Or.inr (Or.inl ?_))
    obtain ⟨hne, secret, tells, hin⟩ := mem_readables.mp hc
    exact ⟨(undecryptable_fold.mp hu).1, List.ne_nil_of_mem
      (mem_readables.mpr ⟨hne, secret, tells, (List.mem_filter.mp hin).1⟩)⟩

/-- **Every order leaves the same row exactly when all writers agree.** -/
theorem same_row_iff (k : Known) (us : List Update) (left : Option Str) :
    (∃ row : Row, row.bodyText = left ∧
        ∀ order : List Update, order.Perm us → (order.foldl Known.apply k).row = row) ↔
      Agreed k us left := by
  constructor
  · rintro ⟨row, rfl, hall⟩
    refine ⟨?_, ?_, ?_, ?_, ?_⟩
    · rintro u hu b (hread | ⟨hnone, s, hs, hread⟩)
      · obtain ⟨rest, hperm⟩ := perm_last hu
        rw [← hall _ hperm, fold_last_edit (by rw [secret_fold]; exact read_mono hread _)]
      · obtain ⟨d, hd, hds⟩ := List.mem_filterMap.mp hs
        have hne : d ≠ u := by
          rintro rfl
          cases d with
          | content c secret tells => cases hread
          | _ => cases hds
        obtain ⟨rest, hperm⟩ := perm_ends hd hu hne
        rw [← hall _ hperm, ← List.cons_append, fold_last_edit]
        have hhead : (carried (d :: rest)).head? = some s := by
          unfold carried
          rw [List.filterMap_cons_some hds]
          rfl
        rw [secret_fold, hnone, Option.none_or, hhead]
        exact hread
    · intro hrevoke
      obtain ⟨rest, hperm⟩ := perm_last hrevoke
      rw [← hall _ hperm, List.foldl_append]
      rfl
    · intro hu c hc
      obtain ⟨order, hperm, hbody, -⟩ := fold_heals hu hc
      rw [← hbody, hall order hperm]
    · intro hu c hc c' hc'
      obtain ⟨order, hperm, -, hkind⟩ := fold_heals hu hc
      obtain ⟨order', hperm', -, hkind'⟩ := fold_heals hu hc'
      rw [← hkind, ← hkind', hall order hperm, hall order' hperm']
    · by_cases hwrites : Writes k us
      · exact Or.inr hwrites
      · obtain ⟨order, hperm, hbody⟩ := fold_quiet hwrites
        exact Or.inl (hbody.symm.trans (by rw [hall order hperm]))
  · intro h
    exact ⟨(us.foldl Known.apply k).row, h.body (List.Perm.refl us), fun order hperm => h.same hperm⟩

end Orders

/-! ## 6. Content that stays hidden -/

/-- The members that say nothing of what is in a message. -/
def markers : List String :=
  ["type", "enc_type", "source", "push_name", "from_me", "timestamp", "edits", "revokes"]

def Bare (ms : Members) : Prop := ∀ m ∈ ms, m.1 ∈ markers.map String.toList ∨ m.2 = .null

def BarePayload (payload : Option Json) : Prop := ∃ ms, payload = some (.obj ms) ∧ Bare ms

/-- The row of a message that was revoked, with nothing of it left. -/
structure Row.Hidden (row : Row) : Prop where
  revoked : row.revoked = true
  bodyText : row.bodyText = none
  payload : BarePayload row.payload

/-- The text of an edit that was sent last. -/
def LatestText (us : List Update) (body : Option Str) : Prop :=
  ∃ sentAt sealed, Update.edit sentAt body sealed ∈ us ∧
    ∀ sentAt' text' sealed', Update.edit sentAt' text' sealed' ∈ us → sentAt' ≤ sentAt

/-- **What all orders should leave**: one row, with the text of the latest edit, or with nothing
    once it is revoked, and then nothing told. -/
structure Converges (k : Known) (us : List Update) : Prop where
  same : ∃ row : Row,
    (∀ order : List Update, order.Perm us → (order.foldl Known.apply k).row = row) ∧
      (Update.revoke ∉ us → (∃ u ∈ us, u.isEdit = true) → LatestText us row.bodyText)
  hidden : ∀ pre post : List Update, (pre ++ post).Perm us → Update.revoke ∈ pre →
    (pre.foldl Known.apply k).row.Hidden
  silent : ∀ (pre post : List Update) (u : Update), (pre ++ u :: post).Perm us →
    Update.revoke ∈ pre → u.told (pre.foldl Known.apply k).secret = false

/-- **All writers agree**, on the text of the latest edit if there are edits; and where there is a
    revoke, neither the payload nor a content holds anything. -/
structure Agreeable (k : Known) (us : List Update) : Prop where
  agreed : ∃ left, Agreed k us left ∧
    (Update.revoke ∉ us → (∃ u ∈ us, u.isEdit = true) → LatestText us left)
  payload : Update.revoke ∈ us → BarePayload k.row.payload
  heals : Update.revoke ∈ us → k.row.msgType = undecryptable → ∀ c ∈ readables us, Bare c.payload
  tells : Update.revoke ∈ us → ∀ c secret tells, Update.content c secret tells ∈ us → tells = false

theorem Converges.agreeable {k : Known} {us : List Update} (h : Converges k us) :
    Agreeable k us := by
  obtain ⟨row, hall, hlatest⟩ := h.same
  refine ⟨⟨row.bodyText, (same_row_iff k us row.bodyText).mp ⟨row, rfl, hall⟩, hlatest⟩, ?_, ?_, ?_⟩
  · intro hrevoke
    obtain ⟨rest, hperm⟩ := perm_first hrevoke
    exact (h.hidden [.revoke] rest hperm List.mem_cons_self).payload
  · intro hrevoke hu c hc
    obtain ⟨hne, secret, tells, hmem⟩ := mem_readables.mp hc
    obtain ⟨others, hothers⟩ := perm_first hrevoke
    have hin : Update.content c secret tells ∈ others :=
      (List.mem_cons.mp (hothers.mem_iff.mpr hmem)).resolve_left fun heq => by cases heq
    obtain ⟨rest, hrest⟩ := perm_first hin
    obtain ⟨ms, hms, hbare⟩ := (h.hidden [.revoke, .content c secret tells] rest
      ((hrest.cons Update.revoke).trans hothers) List.mem_cons_self).payload
    have htake : ([.revoke, .content c secret tells].foldl Known.apply k).row.payload =
        some (.obj c.payload) := congrArg Row.payload (if_pos ⟨hu, hne⟩)
    rw [htake] at hms
    cases hms
    exact hbare
  · intro hrevoke c secret tells hmem
    obtain ⟨others, hothers⟩ := perm_first hrevoke
    have hin : Update.content c secret tells ∈ others :=
      (List.mem_cons.mp (hothers.mem_iff.mpr hmem)).resolve_left fun heq => by cases heq
    obtain ⟨rest, hrest⟩ := perm_first hin
    exact h.silent [.revoke] rest (.content c secret tells)
      ((hrest.cons Update.revoke).trans hothers) List.mem_cons_self

theorem Agreeable.converges {k : Known} {us : List Update} (h : Agreeable k us) :
    Converges k us := by
  obtain ⟨left, hagreed, hlatest⟩ := h.agreed
  obtain ⟨row, hbody, hall⟩ := (same_row_iff k us left).mpr hagreed
  refine ⟨⟨row, hall, by rwa [hbody]⟩, ?_, ?_⟩
  · intro pre post hperm hrevoke
    have hpre : ∀ u ∈ pre, u ∈ us := fun u hu => hperm.mem_iff.mp (List.mem_append_left _ hu)
    have hin := hpre _ hrevoke
    refine ⟨?_, ?_, ?_⟩
    · rw [(marks_fold pre k).2.1]
      exact Bool.or_eq_true_iff.mpr (Or.inr (List.any_eq_true.mpr ⟨_, hrevoke, rfl⟩))
    · rcases body_fold hagreed pre hpre with hleft | ⟨-, hno⟩
      · exact hleft.trans (hagreed.revokes hin)
      · exact absurd (Or.inl hrevoke) hno
    · have hpayload : (pre.foldl Known.apply k).row.payload =
          ((pre.foldl Known.apply k).row.kind).2 := rfl
      rw [hpayload, kind_fold]
      split
      · next hu =>
          cases hhead : (readables pre).head? with
          | none => exact h.payload hin
          | some c =>
              obtain ⟨hne, secret, tells, hmem⟩ := mem_readables.mp (List.mem_of_mem_head? hhead)
              exact ⟨c.payload, rfl, h.heals hin hu c
                (mem_readables.mpr ⟨hne, secret, tells, hpre _ hmem⟩)⟩
      · exact h.payload hin
  · intro pre post u hperm hrevoke
    have hpre : ∀ x ∈ pre, x ∈ us := fun x hx => hperm.mem_iff.mp (List.mem_append_left _ hx)
    have hu : u ∈ us := hperm.mem_iff.mp (List.mem_append_right _ List.mem_cons_self)
    have hin := hpre _ hrevoke
    cases u with
    | content c secret tells => exact h.tells hin c secret tells hu
    | edit sentAt text sealed =>
        refine Option.isSome_eq_false_iff.mpr (Option.isNone_iff_eq_none.mpr ?_)
        cases hread : (Update.edit sentAt text sealed).read (pre.foldl Known.apply k).secret with
        | none => rfl
        | some b =>
            have hleft := hagreed.edits _ hu b (mayRead_fold hpre hread)
            rw [hagreed.revokes hin] at hleft
            cases hleft
    | revoke => rfl
    | history => rfl

/-- **The row converges exactly when all writers agree** and nothing brings back what a revoke has
    hidden. -/
theorem converges_iff (k : Known) (us : List Update) : Converges k us ↔ Agreeable k us :=
  ⟨Converges.agreeable, Agreeable.converges⟩

end Ruwa.Session.Inbound
