/-
  File:      Ruwa/Session/Resolve.lean
  Subject:   ONE SESSION FOR A DEVICE, WHICHEVER WAY IT IS ADDRESSED (`session.rs`,
             `resolve_session_address` beside `canonical_session_address` and
             `encryption_address`).

  A message in and a message out can name the same device differently. Both lookups bring the
  session to the canonical address, so that the device has one. Only a phone number is translated:
  an address on the LID side is canonical as it stands, with whatever agent it has.

  * `resolve_sole`, `encrypt_sole` -- a lookup of a device with one row leaves it with one row, at
    the address it returns;
  * `kept_run` -- the rows of a device are one register for the forms that meet in one address;
  * **`oneSession_iff`** -- and the forms that do: a single one, or the phone number and the LID
    with agent 1 if the map leads from the one to the other.
-/
import Ruwa.Library.Run
import Ruwa.Session.Addresses

namespace Ruwa.Session.Addresses

open Ruwa.Library
open Ruwa.Crypto

/-! ## 1. The source -/

/-- The record of a row that reads back. -/
def loads (store : SessionStore) (address : List Char) : Option SessionRecord :=
  match store address with
  | some (.record r) => some r
  | _ => none

section

variable (order : MostRecent) (table : List LidPnRow) (sessionId : String)

/-- The address to decrypt under, and the store with the copies brought together. -/
def resolveSessionAddress (store : SessionStore) (addr : List Char) : List Char × SessionStore :=
  let canonical := canonicalSessionAddress order table sessionId addr
  let aliases := (candidates order table sessionId addr).filter (· ≠ canonical)
  match loads store canonical with
  | some _ =>
      (canonical, aliases.foldl
        (fun store a => if (loads store a).isSome then deleteRecord store a else store) store)
  | none =>
      match aliases.findSome? fun a => (loads store a).map fun r => (a, r) with
      | some (a, r) => (canonical, deleteRecord (saveRecord store canonical r) a)
      | none => (canonical, store)

end

/-! ## 2. A device and its forms -/

/-- A LID and its phone number, and the number of a device of theirs. -/
structure Device where
  pn : UserPart
  lid : UserPart
  number : Nat

/-- The ways a device is addressed: `pn@s.whatsapp.net`, `lid.1@lid`, `lid@lid` and `lid.0@lid`. -/
inductive Addressing where
  | pn
  | hosted
  | bare
  | agentZero
  deriving DecidableEq

/-- The device with the given form; only a companion's number is written. -/
def Device.form (D : Device) : Addressing → Form
  | .pn => ⟨D.pn, none, if D.number = 0 then none else some D.number, .pn⟩
  | .hosted => ⟨D.lid, some 1, if D.number = 0 then none else some D.number, .lid⟩
  | .bare => ⟨D.lid, none, if D.number = 0 then none else some D.number, .lid⟩
  | .agentZero => ⟨D.lid, some 0, if D.number = 0 then none else some D.number, .lid⟩

/-- The address in that form. -/
def Device.address (D : Device) (a : Addressing) : List Char := (D.form a).jid

theorem Device.deviceNumber_form (D : Device) (a : Addressing) :
    deviceNumber (D.form a) = D.number := by
  have hnumber : (if D.number = 0 then none else some D.number).getD 0 = D.number := by
    by_cases h : D.number = 0
    · rw [if_pos h, h]
      rfl
    · rw [if_neg h]
      rfl
  cases a with
  | pn => exact hnumber
  | hosted => exact hnumber
  | bare => exact hnumber
  | agentZero => exact hnumber

/-- The alternates carry the device as the forms do. -/
theorem Device.onto_form (D : Device) (a : Addressing) (user : UserPart) (agent : Option Nat)
    (server : Server) :
    onto (D.form a) user agent server =
      ⟨user, agent, if D.number = 0 then none else some D.number, server⟩ := by
  unfold onto
  rw [D.deviceNumber_form]
  by_cases h : D.number = 0
  · rw [if_pos h, if_pos h]
  · cases a <;> simp only [Device.form, if_neg h]

section Device

variable {order : MostRecent} {table : List LidPnRow} {sessionId : String} {D : Device}

/-- An address of the device, in any form. -/
def OwnAddress (table : List LidPnRow) (sessionId : String) (D : Device) (address : List Char) :
    Prop :=
  OfDevice table sessionId (D.form .pn) address

theorem form_sameDevice (hpair : lidToPn table sessionId D.lid.text = some D.pn) (a : Addressing) :
    SameDevice table sessionId (D.form a) (D.form .pn) := by
  refine ⟨?_, by rw [D.deviceNumber_form, D.deviceNumber_form]⟩
  cases a with
  | pn => rfl
  | hosted => simp only [accountOf, Device.form, hpair]
  | bare => simp only [accountOf, Device.form, hpair]
  | agentZero => simp only [accountOf, Device.form, hpair]

theorem address_own (hpair : lidToPn table sessionId D.lid.text = some D.pn) (a : Addressing) :
    OwnAddress table sessionId D (D.address a) :=
  ⟨D.form a, rfl, form_sameDevice hpair a⟩

theorem candidates_own (hkeyed : Keyed table)
    (hpair : lidToPn table sessionId D.lid.text = some D.pn) (a : Addressing)
    {address : List Char} (h : address ∈ candidates order table sessionId (D.address a)) :
    OwnAddress table sessionId D address :=
  (candidates_ofDevice hkeyed (D.form a) h).trans (form_sameDevice hpair a)

theorem canonical_own (hkeyed : Keyed table)
    (hpair : lidToPn table sessionId D.lid.text = some D.pn) (a : Addressing) :
    OwnAddress table sessionId D (canonicalSessionAddress order table sessionId (D.address a)) :=
  candidates_own hkeyed hpair a (mem_candidates.mpr (Or.inr (Or.inl rfl)))

/-! ## 3. The canonical address of each form -/

/-- On the LID side an address is canonical as it stands. -/
theorem canonical_lid {f : Form} (hserver : f.server = .lid) :
    canonicalSessionAddress order table sessionId f.jid = f.jid := by
  have hend := f.server_suffix
  rw [hserver] at hend
  have hother : ¬pnServer <:+ f.jid :=
    fun hpn => not_suffix hpn (by decide) (by decide) hend
  unfold canonicalSessionAddress
  rw [if_neg hother]

/-- A phone number is translated if the map leads from it. -/
theorem canonical_pn {f : Form} (hserver : f.server = .pn) :
    canonicalSessionAddress order table sessionId f.jid =
      match pnToLid order table sessionId f.user.text with
      | some lid => (onto f lid (some 1) .lid).jid
      | none => f.jid := by
  have hend := f.server_suffix
  rw [hserver] at hend
  unfold canonicalSessionAddress
  rw [if_pos (show pnServer <:+ f.jid from hend), alternates_form, hserver]
  dsimp only
  cases pnToLid order table sessionId f.user.text with
  | none => rfl
  | some lid => rfl

/-- Two agents of one LID are two addresses. -/
theorem lidForm_inj {lid lid' : UserPart} {agent agent' device : Option Nat}
    (h : (⟨lid, agent, device, .lid⟩ : Form).jid = (⟨lid', agent', device, .lid⟩ : Form).jid) :
    lid = lid' ∧ suffixed '.' agent = suffixed '.' agent' := by
  have huser := congrArg lidUserPart h
  rw [Form.lidUserPart_jid, Form.lidUserPart_jid] at huser
  have hlid : lid = lid' := UserPart.ext huser
  subst hlid
  refine ⟨rfl, ?_⟩
  unfold Form.jid at h
  simp only [← List.append_assoc] at h
  exact List.append_cancel_left (List.append_cancel_right (List.append_cancel_right h))

theorem server_ne {f g : Form} (hf : f.server = .pn) (hg : g.server = .lid) : f.jid ≠ g.jid := by
  intro h
  have hfend := f.server_suffix
  have hgend := g.server_suffix
  rw [hf] at hfend
  rw [hg, ← h] at hgend
  exact not_suffix hfend (by decide) (by decide) hgend

end Device

/-! ## 4. A lookup of a device with one row -/

/-- Of all addresses in `own`, only `x` has a row: that of the record in `cell`. -/
def Sole (own : List Char → Prop) (store : SessionStore) (x : List Char)
    (cell : Option SessionRecord) : Prop :=
  ∀ y, own y → store y = if y = x then cell.map Row.record else none

section Sole

variable {order : MostRecent} {table : List LidPnRow} {sessionId : String} {store : SessionStore}
  {own : List Char → Prop} {x d : List Char} {cell : Option SessionRecord}

theorem Sole.loads_self (h : Sole own store x cell) (hx : own x) : loads store x = cell := by
  unfold loads
  rw [h x hx, if_pos rfl]
  cases cell with
  | none => rfl
  | some r => rfl

theorem Sole.loads_other (h : Sole own store x cell) {y : List Char} (hy : own y) (hne : y ≠ x) :
    loads store y = none := by
  unfold loads
  rw [h y hy, if_neg hne]

/-- Nothing is established but what the cell holds. -/
theorem Sole.hasCurrent_self (h : Sole own store x cell) (hx : own x) :
    hasCurrent store x = cell.any fun r => r.current.isSome := by
  unfold hasCurrent
  rw [h x hx, if_pos rfl]
  cases cell with
  | none => rfl
  | some r => rfl

theorem Sole.hasCurrent_other (h : Sole own store x cell) {y : List Char} (hy : own y)
    (hne : y ≠ x) : hasCurrent store y = false := by
  unfold hasCurrent
  rw [h y hy, if_neg hne]

/-- Without a record it does not matter where it would be. -/
theorem Sole.empty (h : Sole own store x none) (y : List Char) : Sole own store y none := by
  intro z hz
  have hrow := h z hz
  rw [Option.map_none, ite_self] at hrow ⊢
  exact hrow

/-- The row at another address. -/
theorem Sole.moved {r : SessionRecord} (h : Sole own store x (some r)) {y : List Char}
    (hne : x ≠ y) : Sole own (deleteRecord (saveRecord store y r) x) y (some r) := by
  intro z hz
  unfold deleteRecord saveRecord
  by_cases hzx : z = x
  · subst hzx
    rw [Function.update_self, if_neg hne]
  · rw [Function.update_of_ne hzx]
    by_cases hzy : z = y
    · subst hzy
      rw [Function.update_self, if_pos rfl]
      rfl
    · rw [Function.update_of_ne hzy, h z hz, if_neg hzx, if_neg hzy]

/-- A row saved over the one there is. -/
theorem Sole.saved (h : Sole own store x cell) (r : SessionRecord) :
    Sole own (saveRecord store x r) x (some r) := by
  intro z hz
  unfold saveRecord
  by_cases hzx : z = x
  · subst hzx
    rw [Function.update_self, if_pos rfl]
    rfl
  · rw [Function.update_of_ne hzx, h z hz, if_neg hzx, if_neg hzx]

/-- Aliases without a row are passed over. -/
theorem foldl_unloaded {aliases : List (List Char)} (h : ∀ a ∈ aliases, loads store a = none) :
    aliases.foldl (fun store a => if (loads store a).isSome then deleteRecord store a else store)
      store = store := by
  induction aliases with
  | nil => rfl
  | cons a aliases ih =>
      rw [List.foldl_cons, h a List.mem_cons_self]
      exact ih fun b hb => h b (List.mem_cons_of_mem a hb)

variable (order) in
/-- **The row of a device is found and brought to the canonical address**, to decrypt. -/
theorem resolve_sole (h : Sole own store x cell)
    (hown : ∀ a ∈ candidates order table sessionId d, own a)
    (hx : x ∈ candidates order table sessionId d) :
    (resolveSessionAddress order table sessionId store d).1 =
        canonicalSessionAddress order table sessionId d ∧
      Sole own (resolveSessionAddress order table sessionId store d).2
        (canonicalSessionAddress order table sessionId d) cell := by
  have hcanonical := hown _ (mem_candidates.mpr (Or.inr (Or.inl rfl)))
  unfold resolveSessionAddress
  dsimp only
  generalize hA : canonicalSessionAddress order table sessionId d = A at *
  cases hcell : cell with
  | none =>
      subst hcell
      have hnone : ∀ a ∈ candidates order table sessionId d, loads store a = none := by
        intro a ha
        exact (h.empty a).loads_self (hown a ha)
      have hA' : loads store A = none := (h.empty A).loads_self hcanonical
      rw [hA', List.findSome?_eq_none_iff.mpr fun a ha => by
        rw [hnone a (List.mem_of_mem_filter ha)]
        rfl]
      exact ⟨rfl, h.empty A⟩
  | some r =>
      subst hcell
      by_cases hxA : x = A
      · subst hxA
        rw [h.loads_self hcanonical]
        dsimp only
        rw [foldl_unloaded fun a ha => h.loads_other (hown a (List.mem_of_mem_filter ha))
          (by simpa using (List.mem_filter.mp ha).2)]
        exact ⟨rfl, h⟩
      · rw [h.loads_other hcanonical (Ne.symm hxA)]
        dsimp only
        have hload : loads store x = some r := h.loads_self (hown x hx)
        cases hfound : ((candidates order table sessionId d).filter (· ≠ A)).findSome?
            fun a => (loads store a).map fun r => (a, r) with
        | none =>
            have hmem : x ∈ (candidates order table sessionId d).filter (· ≠ A) :=
              List.mem_filter.mpr ⟨hx, decide_eq_true hxA⟩
            have hskip := List.findSome?_eq_none_iff.mp hfound x hmem
            rw [hload] at hskip
            cases hskip
        | some found =>
            obtain ⟨a, ha, hrow⟩ := List.exists_of_findSome?_eq_some hfound
            obtain ⟨r', hr', rfl⟩ := Option.map_eq_some_iff.mp hrow
            have hax : a = x := by
              by_contra hne
              rw [h.loads_other (hown a (List.mem_of_mem_filter ha)) hne] at hr'
              cases hr'
            subst hax
            rw [hload] at hr'
            cases hr'
            exact ⟨rfl, h.moved hxA⟩

/-- Copies to encrypt with: the one row, if it is established. -/
theorem mem_withSession_sole (h : Sole own store x cell)
    (hown : ∀ a ∈ candidates order table sessionId d, own a) {a : List Char}
    (ha : a ∈ withSession order table sessionId store d) : a = x := by
  obtain ⟨hcandidate, hcurrent⟩ := mem_withSession.mp ha
  by_contra hne
  rw [h.hasCurrent_other (hown a hcandidate) hne] at hcurrent
  cases hcurrent

theorem withSession_length (h : Sole own store x cell)
    (hown : ∀ a ∈ candidates order table sessionId d, own a) :
    ¬1 < (withSession order table sessionId store d).length := by
  have hnodup : (withSession order table sessionId store d).Nodup := (List.nodup_dedup _).filter _
  have hsub : withSession order table sessionId store d ⊆ [x] := fun a ha =>
    List.mem_singleton.mpr (mem_withSession_sole h hown ha)
  exact Nat.not_lt.mpr (hnodup.subperm hsub).length_le

variable (order) in
/-- **And to encrypt**, if it can be encrypted with or is there already. -/
theorem encrypt_sole (h : Sole own store x cell)
    (hown : ∀ a ∈ candidates order table sessionId d, own a)
    (hx : x ∈ candidates order table sessionId d)
    (hready : x = canonicalSessionAddress order table sessionId d ∨
      ∀ r, cell = some r → r.current.isSome = true) :
    (encryptionAddress order table sessionId store d).1 =
        canonicalSessionAddress order table sessionId d ∧
      Sole own (encryptionAddress order table sessionId store d).2
        (canonicalSessionAddress order table sessionId d) cell := by
  have hshort := withSession_length h hown
  have honly := fun a => mem_withSession_sole (a := a) h hown
  have hcopies : ∀ a, a ∈ withSession order table sessionId store d ↔
      a ∈ candidates order table sessionId d ∧ hasCurrent store a = true :=
    fun a => mem_withSession
  unfold encryptionAddress
  dsimp only
  generalize canonicalSessionAddress order table sessionId d = A at *
  generalize withSession order table sessionId store d = copies at *
  rw [if_neg hshort]
  by_cases hhere : copies.contains A = true
  · rw [if_pos hhere]
    have hAx : A = x := honly A (List.contains_iff_mem.mp hhere)
    exact ⟨rfl, hAx ▸ h⟩
  · rw [if_neg hhere]
    cases hhead : copies.head? with
    | none =>
        refine ⟨rfl, ?_⟩
        rcases hready with rfl | hready
        · exact h
        · cases cell with
          | none => exact h.empty A
          | some r =>
              have hcurrent : hasCurrent store x = true := by
                rw [h.hasCurrent_self (hown x hx)]
                exact hready r rfl
              have hmem : x ∈ copies := (hcopies x).mpr ⟨hx, hcurrent⟩
              rw [List.head?_eq_none_iff.mp hhead] at hmem
              cases hmem
    | some src =>
        have hmem := List.mem_of_mem_head? hhead
        have hsrc : src = x := honly src hmem
        subst hsrc
        have hne : src ≠ A := fun he => hhere (List.contains_iff_mem.mpr (he ▸ hmem))
        have hrow := h src (hown src hx)
        rw [if_pos rfl] at hrow
        cases cell with
        | none =>
            have hcurrent := ((hcopies src).mp hmem).2
            rw [h.hasCurrent_self (hown src hx)] at hcurrent
            cases hcurrent
        | some r =>
            dsimp only
            rw [hrow]
            exact ⟨rfl, h.moved hne⟩

end Sole

/-! ## 5. The forms that meet -/

section Meeting

variable {order : MostRecent} {table : List LidPnRow} {sessionId : String} {D : Device}

/-- The forms in use have one canonical address, and each is looked for through each. -/
structure Meet (order : MostRecent) (table : List LidPnRow) (sessionId : String) (D : Device)
    (F : Addressing → Prop) (canonical : List Char) : Prop where
  canonical_eq : ∀ a, F a → canonicalSessionAddress order table sessionId (D.address a) = canonical
  reached : ∀ a b, F a → F b → D.address b ∈ candidates order table sessionId (D.address a)

/-- A single form meets itself. -/
theorem meet_single {F : Addressing → Prop} (hsingle : ∀ a b, F a → F b → a = b) {a : Addressing}
    (ha : F a) :
    Meet order table sessionId D F
      (canonicalSessionAddress order table sessionId (D.address a)) where
  canonical_eq := fun b hb => by rw [hsingle b a hb ha]
  reached := fun b c hb hc => by
    rw [hsingle c b hc hb]
    exact mem_candidates.mpr (Or.inl rfl)

theorem canonical_hosted :
    canonicalSessionAddress order table sessionId (D.address .hosted) = D.address .hosted :=
  canonical_lid rfl

theorem canonical_pn_address :
    canonicalSessionAddress order table sessionId (D.address .pn) =
      match pnToLid order table sessionId D.pn.text with
      | some lid => (onto (D.form .pn) lid (some 1) .lid).jid
      | none => D.address .pn :=
  canonical_pn (f := D.form .pn) rfl

/-- The phone number is translated to the form with agent 1. -/
theorem canonical_pn_hosted (hcurrent : pnToLid order table sessionId D.pn.text = some D.lid) :
    canonicalSessionAddress order table sessionId (D.address .pn) = D.address .hosted := by
  rw [canonical_pn_address, hcurrent]
  dsimp only
  rw [D.onto_form]
  rfl

theorem alternates_hosted (hpair : lidToPn table sessionId D.lid.text = some D.pn) :
    D.address .pn ∈ lidPnAlternates order table sessionId (D.address .hosted) := by
  unfold Device.address
  rw [alternates_form]
  show (D.form .pn).jid ∈
    (lidToPn table sessionId D.lid.text).toList.map fun pn =>
      (onto (D.form .hosted) pn none .pn).jid
  rw [hpair]
  exact List.mem_singleton.mpr (congrArg Form.jid (D.onto_form .hosted D.pn none .pn).symm)

/-- **The phone number and the LID with agent 1 meet** if the map leads both ways. -/
theorem meet_current {F : Addressing → Prop}
    (hpair : lidToPn table sessionId D.lid.text = some D.pn)
    (hcurrent : pnToLid order table sessionId D.pn.text = some D.lid)
    (hF : ∀ a, F a → a = .pn ∨ a = .hosted) :
    Meet order table sessionId D F (D.address .hosted) where
  canonical_eq := by
    intro a ha
    rcases hF a ha with rfl | rfl
    · exact canonical_pn_hosted hcurrent
    · exact canonical_hosted
  reached := by
    have hback : ∀ a, canonicalSessionAddress order table sessionId (D.address a) =
        D.address .hosted → D.address .pn ∈ candidates order table sessionId (D.address a) ∧
          D.address .hosted ∈ candidates order table sessionId (D.address a) := by
      intro a ha
      refine ⟨mem_candidates.mpr (Or.inr (Or.inr (Or.inr ?_))),
        mem_candidates.mpr (Or.inr (Or.inl ha.symm))⟩
      rw [ha]
      exact alternates_hosted hpair
    intro a b ha hb
    have hcanonical : canonicalSessionAddress order table sessionId (D.address a) =
        D.address .hosted := by
      rcases hF a ha with rfl | rfl
      · exact canonical_pn_hosted hcurrent
      · exact canonical_hosted
    rcases hF b hb with rfl | rfl
    · exact (hback a hcanonical).1
    · exact (hback a hcanonical).2

/-- Two forms on the LID side have two canonical addresses. -/
theorem lid_canonical_inj {a b : Addressing} (ha : a ≠ .pn) (hb : b ≠ .pn)
    (h : canonicalSessionAddress order table sessionId (D.address a) =
      canonicalSessionAddress order table sessionId (D.address b)) : a = b := by
  have hlid : ∀ c : Addressing, c ≠ .pn →
      canonicalSessionAddress order table sessionId (D.address c) = D.address c := by
    intro c hc
    cases c with
    | pn => exact absurd rfl hc
    | hosted => exact canonical_lid rfl
    | bare => exact canonical_lid rfl
    | agentZero => exact canonical_lid rfl
  rw [hlid a ha, hlid b hb] at h
  cases a with
  | pn => exact absurd rfl ha
  | hosted =>
      cases b with
      | pn => exact absurd rfl hb
      | hosted => rfl
      | bare => exact absurd (lidForm_inj h).2 (by decide)
      | agentZero => exact absurd (lidForm_inj h).2 (by decide)
  | bare =>
      cases b with
      | pn => exact absurd rfl hb
      | hosted => exact absurd (lidForm_inj h).2 (by decide)
      | bare => rfl
      | agentZero => exact absurd (lidForm_inj h).2 (by decide)
  | agentZero =>
      cases b with
      | pn => exact absurd rfl hb
      | hosted => exact absurd (lidForm_inj h).2 (by decide)
      | bare => exact absurd (lidForm_inj h).2 (by decide)
      | agentZero => rfl

/-- The phone number shares its canonical address with the form with agent 1 at most, and only if
    it is translated to this LID. -/
theorem pn_canonical_inj {a : Addressing} (ha : a ≠ .pn)
    (h : canonicalSessionAddress order table sessionId (D.address .pn) =
      canonicalSessionAddress order table sessionId (D.address a)) :
    a = .hosted ∧ pnToLid order table sessionId D.pn.text = some D.lid := by
  have hserver : (D.form a).server = .lid := by
    cases a with
    | pn => exact absurd rfl ha
    | hosted => rfl
    | bare => rfl
    | agentZero => rfl
  have hstands : canonicalSessionAddress order table sessionId (D.address a) = D.address a :=
    canonical_lid hserver
  rw [hstands, canonical_pn_address] at h
  cases hlid : pnToLid order table sessionId D.pn.text with
  | none =>
      rw [hlid] at h
      exact absurd h (server_ne rfl hserver)
  | some lid =>
      rw [hlid] at h
      dsimp only at h
      rw [D.onto_form] at h
      cases a with
      | pn => exact absurd rfl ha
      | hosted =>
          rw [(lidForm_inj h).1]
          exact ⟨rfl, rfl⟩
      | bare => exact absurd (lidForm_inj h).2 (by decide)
      | agentZero => exact absurd (lidForm_inj h).2 (by decide)

/-- **Which forms have one canonical address.** -/
theorem canonical_eq_forms {F : Addressing → Prop}
    (h : ∀ a b, F a → F b → canonicalSessionAddress order table sessionId (D.address a) =
      canonicalSessionAddress order table sessionId (D.address b)) :
    (∀ a b, F a → F b → a = b) ∨
      (pnToLid order table sessionId D.pn.text = some D.lid ∧
        ∀ a, F a → a = .pn ∨ a = .hosted) := by
  by_cases hpn : F .pn
  · by_cases hother : ∃ a, F a ∧ a ≠ .pn
    · obtain ⟨a, ha, hne⟩ := hother
      right
      refine ⟨(pn_canonical_inj hne (h _ _ hpn ha)).2, fun b hb => ?_⟩
      by_cases hb' : b = .pn
      · exact Or.inl hb'
      · exact Or.inr (pn_canonical_inj hb' (h _ _ hpn hb)).1
    · left
      have honly : ∀ a, F a → a = .pn := fun a ha => by
        by_contra hne
        exact hother ⟨a, ha, hne⟩
      intro a b ha hb
      rw [honly a ha, honly b hb]
  · left
    have hlid : ∀ a, F a → a ≠ .pn := fun a ha he => hpn (he ▸ ha)
    exact fun a b ha hb => lid_canonical_inj (hlid a ha) (hlid b hb) (h a b ha hb)

end Meeting

/-! ## 6. Runs -/

/-- The store, the addresses that lookups returned, and the record saved last. -/
structure Filed where
  store : SessionStore
  returned : List (List Char)
  last : Option SessionRecord

/-- A lookup for a message in or out; a save at an address that a lookup returned. -/
inductive Op where
  | resolve (a : Addressing)
  | encrypt (a : Addressing)
  | save (address : List Char) (r : SessionRecord)

/-- A lookup uses a form of `F`. -/
def Op.Within (F : Addressing → Prop) : Op → Prop
  | .resolve a => F a
  | .encrypt a => F a
  | .save _ _ => True

section Runs

variable (order : MostRecent) (table : List LidPnRow) (sessionId : String) (D : Device)

def lookedUp (s : Filed) (found : List Char × SessionStore) : Filed :=
  { s with store := found.2, returned := found.1 :: s.returned }

/-- Only a save at a returned address happens. -/
def fileStep (s : Filed) : Op → Option Filed
  | .resolve a =>
      some (lookedUp s (resolveSessionAddress order table sessionId s.store (D.address a)))
  | .encrypt a => some (lookedUp s (encryptionAddress order table sessionId s.store (D.address a)))
  | .save address r =>
      if s.returned.contains address then
        some { s with store := saveRecord s.store address r, last := some r }
      else none

/-- A run starts with no session, or with an established one under one of the forms in use. -/
def Starts (F : Addressing → Prop) (s : Filed) : Prop :=
  s.returned = [] ∧ (∃ a, F a ∧ Sole (OwnAddress table sessionId D) s.store (D.address a) s.last) ∧
    ∀ r, s.last = some r → r.current.isSome = true

/-- What a lookup leads to. -/
def found (lookup : List Char × SessionStore) : Option SessionRecord := loads lookup.2 lookup.1

/-- One session: no two established copies, the record saved last is still there, and every form
    in use finds it. -/
structure OneSession (F : Addressing → Prop) (s : Filed) : Prop where
  single : ∀ x y, OwnAddress table sessionId D x → OwnAddress table sessionId D y →
    hasCurrent s.store x = true → hasCurrent s.store y = true → x = y
  kept : ∀ r, s.last = some r → ∃ x, OwnAddress table sessionId D x ∧ loads s.store x = some r
  found : ∀ a, F a →
    found (resolveSessionAddress order table sessionId s.store (D.address a)) = s.last ∧
      found (encryptionAddress order table sessionId s.store (D.address a)) = s.last

/-- The forms in use have one canonical address, and every run with them has one session. -/
def OneSessionRuns (F : Addressing → Prop) : Prop :=
  (∀ a b, F a → F b → canonicalSessionAddress order table sessionId (D.address a) =
    canonicalSessionAddress order table sessionId (D.address b)) ∧
  ∀ start ops s, Starts table sessionId D F start → (∀ op ∈ ops, op.Within F) →
    runFrom (fileStep order table sessionId D) start ops = some s →
    OneSession order table sessionId D F s

end Runs

section RunLemmas

variable {order : MostRecent} {table : List LidPnRow} {sessionId : String} {D : Device}
  {F : Addressing → Prop} {canonical : List Char}

/-- The device has one row at most: where a lookup found one, at the canonical address. -/
structure Register (table : List LidPnRow) (sessionId : String) (D : Device)
    (F : Addressing → Prop) (canonical : List Char) (s : Filed) : Prop where
  row : ∃ x, Sole (OwnAddress table sessionId D) s.store x s.last ∧
    (x = canonical ∨
      (s.returned = [] ∧ (∃ a, F a ∧ x = D.address a) ∧
        ∀ r, s.last = some r → r.current.isSome = true))
  returned : ∀ x ∈ s.returned, x = canonical

theorem register_start {s : Filed} (h : Starts table sessionId D F s) :
    Register table sessionId D F canonical s := by
  obtain ⟨hreturned, ⟨a, ha, hsole⟩, hcurrent⟩ := h
  refine ⟨⟨D.address a, hsole, Or.inr ⟨hreturned, ⟨a, ha, rfl⟩, hcurrent⟩⟩, fun x hx => ?_⟩
  rw [hreturned] at hx
  cases hx

/-- A lookup keeps the register. -/
theorem register_lookedUp {s : Filed} (h : Register table sessionId D F canonical s)
    {found : List Char × SessionStore} (hfound : found.1 = canonical)
    (hsole : Sole (OwnAddress table sessionId D) found.2 canonical s.last) :
    Register table sessionId D F canonical (lookedUp s found) := by
  refine ⟨⟨canonical, hsole, Or.inl rfl⟩, fun x hx => ?_⟩
  rcases List.mem_cons.mp hx with rfl | hx
  · exact hfound
  · exact h.returned x hx

variable (hkeyed : Keyed table) (hpair : lidToPn table sessionId D.lid.text = some D.pn)
  (hmeet : Meet order table sessionId D F canonical)

include hkeyed hpair hmeet

/-- **A lookup through any form in use** returns the canonical address and leaves the one row there. -/
theorem register_lookup {s : Filed} (h : Register table sessionId D F canonical s) {a : Addressing}
    (ha : F a) :
    ((resolveSessionAddress order table sessionId s.store (D.address a)).1 = canonical ∧
      Sole (OwnAddress table sessionId D)
        (resolveSessionAddress order table sessionId s.store (D.address a)).2 canonical s.last) ∧
    ((encryptionAddress order table sessionId s.store (D.address a)).1 = canonical ∧
      Sole (OwnAddress table sessionId D)
        (encryptionAddress order table sessionId s.store (D.address a)).2 canonical s.last) := by
  obtain ⟨x, hsole, hx⟩ := h.row
  have hown : ∀ y ∈ candidates order table sessionId (D.address a),
      OwnAddress table sessionId D y := fun y hy => candidates_own hkeyed hpair a hy
  have hcanonical := hmeet.canonical_eq a ha
  have hmem : x ∈ candidates order table sessionId (D.address a) := by
    rcases hx with rfl | ⟨-, ⟨b, hb, rfl⟩, -⟩
    · exact mem_candidates.mpr (Or.inr (Or.inl hcanonical.symm))
    · exact hmeet.reached a b ha hb
  have hready : x = canonicalSessionAddress order table sessionId (D.address a) ∨
      ∀ r, s.last = some r → r.current.isSome = true := by
    rcases hx with rfl | ⟨-, -, hcurrent⟩
    · exact Or.inl hcanonical.symm
    · exact Or.inr hcurrent
  have hresolve := resolve_sole order hsole hown hmem
  have hencrypt := encrypt_sole order hsole hown hmem hready
  rw [hcanonical] at hresolve hencrypt
  exact ⟨hresolve, hencrypt⟩

theorem register_step (s : Filed) (op : Op) (s' : Filed)
    (h : Register table sessionId D F canonical s) (hop : op.Within F)
    (hstep : fileStep order table sessionId D s op = some s') :
    Register table sessionId D F canonical s' := by
  cases op with
  | resolve a =>
      rw [← Option.some.inj hstep]
      obtain ⟨⟨hfound, hsole⟩, -⟩ := register_lookup hkeyed hpair hmeet h hop
      exact register_lookedUp h hfound hsole
  | encrypt a =>
      rw [← Option.some.inj hstep]
      obtain ⟨-, hfound, hsole⟩ := register_lookup hkeyed hpair hmeet h hop
      exact register_lookedUp h hfound hsole
  | save address r =>
      change (if s.returned.contains address then
        some { s with store := saveRecord s.store address r, last := some r } else none) =
          some s' at hstep
      split at hstep
      · rename_i hreturned
        cases hstep
        have hmem : address ∈ s.returned := List.contains_iff_mem.mp hreturned
        have haddress : address = canonical := h.returned address hmem
        subst haddress
        obtain ⟨x, hsole, rfl | ⟨hempty, -⟩⟩ := h.row
        · exact ⟨⟨_, hsole.saved r, Or.inl rfl⟩, h.returned⟩
        · rw [hempty] at hmem
          cases hmem
      · cases hstep

/-- **The rows of the device are one register.** -/
theorem oneSession_register {s : Filed} (hcanonical : OwnAddress table sessionId D canonical)
    (h : Register table sessionId D F canonical s) : OneSession order table sessionId D F s where
  single := by
    obtain ⟨x, hsole, -⟩ := h.row
    have honly : ∀ y, OwnAddress table sessionId D y → hasCurrent s.store y = true → y = x := by
      intro y hy hcurrent
      by_contra hne
      rw [hsole.hasCurrent_other hy hne] at hcurrent
      cases hcurrent
    intro y z hy hz hycurrent hzcurrent
    rw [honly y hy hycurrent, honly z hz hzcurrent]
  kept := by
    intro r hr
    obtain ⟨x, hsole, hx⟩ := h.row
    have hown : OwnAddress table sessionId D x := by
      rcases hx with rfl | ⟨-, ⟨a, -, rfl⟩, -⟩
      · exact hcanonical
      · exact address_own hpair a
    exact ⟨x, hown, (hsole.loads_self hown).trans hr⟩
  found := by
    intro a ha
    obtain ⟨⟨hresolve, hresolved⟩, hencrypt, hencrypted⟩ :=
      register_lookup hkeyed hpair hmeet h ha
    unfold found
    rw [hresolve, hencrypt]
    exact ⟨hresolved.loads_self hcanonical, hencrypted.loads_self hcanonical⟩

/-- **Every run with forms that meet has one session.** -/
theorem kept_run {start s : Filed} {ops : List Op} {a : Addressing} (ha : F a)
    (hstart : Starts table sessionId D F start) (hops : ∀ op ∈ ops, op.Within F)
    (hrun : runFrom (fileStep order table sessionId D) start ops = some s) :
    OneSession order table sessionId D F s := by
  have hcanonical : OwnAddress table sessionId D canonical :=
    hmeet.canonical_eq a ha ▸ canonical_own hkeyed hpair a
  have hwithin : Meets (fileStep order table sessionId D) (fun _ op => True ∧ op.Within F) start
      ops :=
    meets_and (meets_of_forall (fun _ _ => trivial) ops) hops
  have hregister := run_invariant
    (fun s op s' h hop hstep => register_step hkeyed hpair hmeet s op s' h hop.2 hstep)
    (register_start hstart) hwithin hrun
  exact oneSession_register hkeyed hpair hmeet hcanonical hregister

end RunLemmas

/-! ## 7. The forms that keep one session -/

/-- **One session for every run with the forms of `F`**: exactly when there is but one of them, or
    they are the phone number and the LID with agent 1 and the map leads from the one to the
    other. -/
theorem oneSession_iff (order : MostRecent) (puts : List LidPnRow) (row : LidPnRow)
    (hrow : row ∈ learned puts) (number : Nat) (F : Addressing → Prop) :
    OneSessionRuns order (learned puts) row.sessionId ⟨row.pnUser, row.lidUser, number⟩ F ↔
      (∀ a b, F a → F b → a = b) ∨
        (pnToLid order (learned puts) row.sessionId row.pnUser.text = some row.lidUser ∧
          ∀ a, F a → a = .pn ∨ a = .hosted) := by
  have hkeyed := learned_keyed puts
  have hpair := lidToPn_of_mem hkeyed hrow
  refine ⟨fun h => canonical_eq_forms h.1, fun h => ?_⟩
  have hmeet : ∀ a, F a → ∃ canonical, Meet order (learned puts) row.sessionId
      ⟨row.pnUser, row.lidUser, number⟩ F canonical := by
    intro a ha
    rcases h with hsingle | ⟨hcurrent, hF⟩
    · exact ⟨_, meet_single hsingle ha⟩
    · exact ⟨_, meet_current hpair hcurrent hF⟩
  refine ⟨fun a b ha hb => ?_, fun start ops s hstart hops hrun => ?_⟩
  · obtain ⟨canonical, hmeets⟩ := hmeet a ha
    rw [hmeets.canonical_eq a ha, hmeets.canonical_eq b hb]
  · obtain ⟨a, ha, -⟩ := hstart.2.1
    obtain ⟨canonical, hmeets⟩ := hmeet a ha
    exact kept_run hkeyed hpair hmeets ha hstart hops hrun

namespace Sample

def number : UserPart :=
  ⟨"447911123456".toList, by decide, List.all_iff_forall_prop.mp (by decide)⟩
def lid : UserPart :=
  ⟨"64000000000004".toList, by decide, List.all_iff_forall_prop.mp (by decide)⟩

def row : LidPnRow := ⟨"s", lid, number, 1⟩

/-- Their companion with the number 3. -/
def device : Device := ⟨number, lid, 3⟩

def established : SessionRecord :=
  ⟨some ⟨3, .ofNat 32 1, .ofNat 32 2, .ofNat 32 3, none, none, none, 0, [], none, 7, 9⟩, []⟩

/-- No session yet. -/
def unfiled : Filed := ⟨fun _ => none, [], none⟩

def filed (ops : List Op) : Option Filed :=
  runFrom (fileStep (.byInsertion _) (learned [row]) "s" device) unfiled ops

/-- A session is set up with the LID as it stands. -/
def once : List Op := [.encrypt .bare, .save (device.address .bare) established]

/-- And another one, with agent 1. -/
def twice : List Op := once ++ [.resolve .hosted, .save (device.address .hosted) established]

end Sample

/-- The number and the LID with agent 1, in both directions. -/
theorem oneSession_current :
    OneSessionRuns (.byInsertion _) (learned [Sample.row]) "s" Sample.device
      (fun a => a = .pn ∨ a = .hosted) :=
  (oneSession_iff (.byInsertion _) [Sample.row] Sample.row List.mem_cons_self 3 _).mpr
    (Or.inr ⟨by decide +kernel, fun _ h => h⟩)

/-- A session filed under the LID without its agent is not found with agent 1; a second one is set
    up, and the next message to the number deletes both. -/
theorem sessions_fork :
    ¬OneSessionRuns (.byInsertion _) (learned [Sample.row]) "s" Sample.device (fun _ => True) ∧
      ((Sample.filed Sample.once).any fun s =>
        (loads s.store (Sample.device.address .bare)).isSome &&
        (found (resolveSessionAddress (.byInsertion _) (learned [Sample.row]) "s" s.store
          (Sample.device.address .hosted))).isNone) = true ∧
      ((Sample.filed Sample.twice).any fun s =>
        hasCurrent s.store (Sample.device.address .bare) &&
        hasCurrent s.store (Sample.device.address .hosted)) = true ∧
      ((Sample.filed (Sample.twice ++ [.encrypt .pn])).any fun s =>
        !hasCurrent s.store (Sample.device.address .bare) &&
        !hasCurrent s.store (Sample.device.address .hosted)) = true := by
  refine ⟨fun h => ?_, by decide +kernel, by decide +kernel, by decide +kernel⟩
  have heq := h.1 .bare .hosted trivial trivial
  revert heq
  decide +kernel

end Ruwa.Session.Addresses
