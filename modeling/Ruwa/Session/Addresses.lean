/-
  File:      Ruwa/Session/Addresses.lean
  Subject:   WHERE A SIGNAL SESSION IS FILED (`session.rs`, `lid_pn_alternates`,
             `canonical_session_address`, `encryption_address`): one device, many addresses.

  A session is stored under the address of its device. The same device has an address with its phone
  number and others with its LID, with an agent or without. Before a send the copies under the
  addresses that the map leads to are brought together: one copy is moved to the canonical address,
  several are all deleted.

  * `alternates_form`, `canonical_form` -- what the map leads to, as addresses of the device;
  * `candidates_ofDevice` -- no other device's address is among them;
  * `encryptionAddress_single`, `encryptionAddress_forked` -- the two outcomes for a device that has
    a session under the address itself.
-/
import Ruwa.Crypto.Signal
import Ruwa.Session.Identity
import Mathlib.Data.Char
import Mathlib.Data.List.Dedup
import Mathlib.Data.List.Lex
import Mathlib.Data.List.Sort

namespace Ruwa.Session.Addresses

open Ruwa.Library
open Ruwa.Crypto

/-! ## 1. The store -/

structure SessionRecord where
  current : Option Signal.SessionState
  previous : List Signal.SessionState

/-- A stored row; one that does not read back as a record is corrupt. -/
inductive Row where
  | corrupt
  | record (r : SessionRecord)

/-- The rows of one login. -/
abbrev SessionStore := List Char → Option Row

/-- The record has a session to encrypt with. -/
def hasCurrent (store : SessionStore) (address : List Char) : Bool :=
  match store address with
  | some (.record r) => r.current.isSome
  | _ => false

def saveRecord (store : SessionStore) (address : List Char) (r : SessionRecord) : SessionStore :=
  Function.update store address (some (.record r))

def deleteRecord (store : SessionStore) (address : List Char) : SessionStore :=
  Function.update store address none

/-! ## 2. The source -/

/-- What follows the colon, before the server. -/
def jidDeviceToken (jid : List Char) : Option (List Char) :=
  match (jid.takeWhile (· ≠ '@')).dropWhile (· ≠ ':') with
  | [] => none
  | _ :: token => some token

section

variable (order : MostRecent) (table : List LidPnRow) (sessionId : String)

/-- The addresses of the other kind. The primary device has no device token there. -/
def lidPnAlternates (addr : List Char) : List (List Char) :=
  let user := lidUserPart addr
  let device := match jidDeviceToken addr with
    | none => []
    | some token => if token = ['0'] then [] else ':' :: token
  if lidServer <:+ addr then
    match lidToPn table sessionId user with
    | some pn => [pn.text ++ device ++ pnServer]
    | none => []
  else if pnServer <:+ addr then
    match pnToLid order table sessionId user with
    | some lid =>
        [lid.text ++ ['.', '1'] ++ device ++ lidServer, lid.text ++ device ++ lidServer] ++
          if device = [] then [lid.text ++ ['.', '0'] ++ lidServer] else []
    | none => []
  else []

/-- The LID address when it is known. -/
def canonicalSessionAddress (addr : List Char) : List Char :=
  if pnServer <:+ addr then (lidPnAlternates order table sessionId addr).head?.getD addr else addr

/-- Every address that the session of `d` is looked for under. -/
def candidates (d : List Char) : List (List Char) :=
  let canonical := canonicalSessionAddress order table sessionId d
  (([d, canonical] ++ lidPnAlternates order table sessionId d ++
    lidPnAlternates order table sessionId canonical).insertionSort (· ≤ ·)).dedup

def hasSignalSession (store : SessionStore) (d : List Char) : Bool :=
  (candidates order table sessionId d).any (hasCurrent store)

/-- The copies that can be encrypted with. -/
def withSession (store : SessionStore) (d : List Char) : List (List Char) :=
  (candidates order table sessionId d).filter (hasCurrent store)

/-- The address to encrypt under, and the store with the copies brought together. -/
def encryptionAddress (store : SessionStore) (d : List Char) : List Char × SessionStore :=
  let canonical := canonicalSessionAddress order table sessionId d
  let copies := withSession order table sessionId store d
  if 1 < copies.length then (canonical, copies.foldl deleteRecord store)
  else if copies.contains canonical then (canonical, store)
  else
    match copies.head? with
    | none => (canonical, store)
    | some src =>
        match store src with
        | some (.record r) => (canonical, deleteRecord (saveRecord store canonical r) src)
        | _ => (canonical, store)

end

/-! ## 3. The addresses of a device -/

theorem isDigit_ne {c : Char} (h : c.isDigit = true) : c ≠ '@' ∧ c ≠ ':' :=
  ⟨fun hc => absurd (hc ▸ h) (by decide), fun hc => absurd (hc ▸ h) (by decide)⟩

theorem decimal_eq_zero {n : Nat} : Text.decimal n = ['0'] ↔ n = 0 := by
  refine ⟨fun h => ?_, fun h => h ▸ rfl⟩
  have hn : Nat.ofDigitChars 10 (Text.decimal n) 0 = n := Nat.ofDigitChars_ten_toDigits
  rw [h] at hn
  exact hn.symm

theorem mem_suffixed {mark : Char} {n : Option Nat} {c : Char} (hc : c ∈ suffixed mark n) :
    c = mark ∨ c.isDigit = true := by
  cases n with
  | none => cases hc
  | some n =>
      rcases List.mem_cons.mp hc with rfl | hc
      · exact Or.inl rfl
      · exact Or.inr (Nat.isDigit_of_mem_toDigits (by decide) (by decide) hc)

/-- Nothing before the device token looks like its start or its end. -/
theorem userAgent_ne (f : Form) :
    ∀ c ∈ f.user.text ++ suffixed '.' f.agent, c ≠ '@' ∧ c ≠ ':' := by
  intro c hc
  rcases List.mem_append.mp hc with hc | hc
  · have hplain := f.user.plain c hc
    exact ⟨fun h => absurd (h ▸ hplain) (by decide), fun h => absurd (h ▸ hplain) (by decide)⟩
  · rcases mem_suffixed hc with rfl | hdigit
    · decide
    · exact isDigit_ne hdigit

/-- The token of a form is its device. -/
theorem jidDeviceToken_jid (f : Form) : jidDeviceToken f.jid = f.device.map Text.decimal := by
  obtain ⟨rest, hserver⟩ : ∃ rest, f.server.text = '@' :: rest := by
    cases f.server with
    | pn => exact ⟨_, rfl⟩
    | lid => exact ⟨_, rfl⟩
  have hjid : f.jid =
      ((f.user.text ++ suffixed '.' f.agent) ++ suffixed ':' f.device) ++ '@' :: rest := by
    unfold Form.jid
    rw [hserver]
    simp only [List.append_assoc]
  have hhead : f.jid.takeWhile (· ≠ '@') =
      (f.user.text ++ suffixed '.' f.agent) ++ suffixed ':' f.device := by
    rw [hjid, List.takeWhile_append_of_pos, List.takeWhile_cons_of_neg (by decide),
      List.append_nil]
    intro c hc
    rcases List.mem_append.mp hc with hc | hc
    · exact decide_eq_true (userAgent_ne f c hc).1
    · rcases mem_suffixed hc with rfl | hdigit
      · decide
      · exact decide_eq_true (isDigit_ne hdigit).1
  unfold jidDeviceToken
  rw [hhead, List.dropWhile_append_of_pos fun c hc => decide_eq_true (userAgent_ne f c hc).2]
  cases f.device with
  | none => rfl
  | some n => rfl

/-- The number of a device; the primary one has 0. -/
def deviceNumber (f : Form) : Nat := f.device.getD 0

/-- The same device under another user, agent and server. -/
def onto (f : Form) (user : UserPart) (agent : Option Nat) (server : Server) : Form :=
  ⟨user, agent, if deviceNumber f = 0 then none else f.device, server⟩

theorem deviceNumber_onto (f : Form) (user : UserPart) (agent : Option Nat) (server : Server) :
    deviceNumber (onto f user agent server) = deviceNumber f := by
  unfold onto
  by_cases h : deviceNumber f = 0
  · rw [if_pos h]
    exact h.symm
  · rw [if_neg h]
    rfl

/-- The device token of the other addresses, with its mark. -/
def ontoToken (f : Form) : List Char := suffixed ':' (if deviceNumber f = 0 then none else f.device)

theorem jid_onto (f : Form) (user : UserPart) (agent : Option Nat) (server : Server) :
    (onto f user agent server).jid =
      user.text ++ suffixed '.' agent ++ ontoToken f ++ server.text := by
  unfold Form.jid onto ontoToken
  simp only [List.append_assoc]

/-- Only the primary device has none. -/
theorem ontoToken_eq_nil {f : Form} : ontoToken f = [] ↔ deviceNumber f = 0 := by
  unfold ontoToken
  by_cases h : deviceNumber f = 0
  · rw [if_pos h]
    exact ⟨fun _ => h, fun _ => rfl⟩
  · rw [if_neg h]
    cases hdevice : f.device with
    | none =>
        unfold deviceNumber at h
        rw [hdevice] at h
        exact absurd rfl h
    | some n => exact ⟨fun hnil => (nomatch hnil), fun hzero => absurd hzero h⟩

/-- The part of an alternate that names the device. -/
theorem device_onto (f : Form) :
    (match jidDeviceToken f.jid with
      | none => []
      | some token => if token = ['0'] then [] else ':' :: token) =
      ontoToken f := by
  rw [jidDeviceToken_jid]
  unfold ontoToken deviceNumber
  cases hdevice : f.device with
  | none => rfl
  | some n =>
      by_cases hn : n = 0
      · subst hn
        rfl
      · have htoken : ¬Text.decimal n = ['0'] := mt decimal_eq_zero.mp hn
        simp only [Option.map_some, if_neg htoken, Option.getD_some, if_neg hn]
        rfl

section Forms

variable {order : MostRecent} {table : List LidPnRow} {sessionId : String}

/-- **The alternates of a form** are forms of the same device. -/
theorem alternates_form (f : Form) :
    lidPnAlternates order table sessionId f.jid =
      match f.server with
      | .lid => (lidToPn table sessionId f.user.text).toList.map fun pn => (onto f pn none .pn).jid
      | .pn => (pnToLid order table sessionId f.user.text).toList.flatMap fun lid =>
          ([onto f lid (some 1) .lid, onto f lid none .lid] ++
            if deviceNumber f = 0 then [onto f lid (some 0) .lid] else []).map Form.jid := by
  have hend := f.server_suffix
  unfold lidPnAlternates
  rw [f.lidUserPart_jid, device_onto f]
  dsimp only
  cases hserver : f.server with
  | lid =>
      have hlid : lidServer <:+ f.jid := by
        rw [hserver] at hend
        exact hend
      rw [if_pos hlid]
      cases lidToPn table sessionId f.user.text with
      | none => rfl
      | some pn =>
          show [pn.text ++ ontoToken f ++ pnServer] = [(onto f pn none .pn).jid]
          rw [jid_onto]
          simp only [suffixed, List.append_nil]
          rfl
  | pn =>
      have hpn : pnServer <:+ f.jid := by
        rw [hserver] at hend
        exact hend
      rw [if_neg (not_suffix hpn (by decide) (by decide)), if_pos hpn]
      cases pnToLid order table sessionId f.user.text with
      | none => rfl
      | some lid =>
          simp only [ontoToken_eq_nil, Option.toList_some, List.flatMap_cons, List.flatMap_nil,
            List.append_nil]
          by_cases hzero : deviceNumber f = 0
          · have hnil := ontoToken_eq_nil.mpr hzero
            simp only [if_pos hzero, List.cons_append, List.nil_append, List.map_cons,
              List.map_nil, jid_onto, hnil, suffixed, List.append_nil]
            rfl
          · simp only [if_neg hzero, List.append_nil, List.map_cons, List.map_nil, jid_onto,
              suffixed]
            rfl

/-- Two forms of one device: one account, one number. -/
def SameDevice (table : List LidPnRow) (sessionId : String) (f g : Form) : Prop :=
  accountOf table sessionId f = accountOf table sessionId g ∧ deviceNumber f = deviceNumber g

theorem SameDevice.trans {f g h : Form} (hfg : SameDevice table sessionId f g)
    (hgh : SameDevice table sessionId g h) : SameDevice table sessionId f h :=
  ⟨hfg.1.trans hgh.1, hfg.2.trans hgh.2⟩

/-- An address of the device of `f`, in any form. -/
def OfDevice (table : List LidPnRow) (sessionId : String) (f : Form) (address : List Char) : Prop :=
  ∃ g : Form, g.jid = address ∧ SameDevice table sessionId g f

theorem ofDevice_self (f : Form) : OfDevice table sessionId f f.jid := ⟨f, rfl, rfl, rfl⟩

theorem OfDevice.trans {f g : Form} {address : List Char} (h : OfDevice table sessionId g address)
    (hg : SameDevice table sessionId g f) : OfDevice table sessionId f address := by
  obtain ⟨k, hjid, hk⟩ := h
  exact ⟨k, hjid, hk.trans hg⟩

/-- A phone number leads to a LID that leads back to it. -/
theorem pnToLid_back {pn lid : UserPart} (hkeyed : Keyed table)
    (h : pnToLid order table sessionId pn.text = some lid) :
    lidToPn table sessionId lid.text = some pn := by
  obtain ⟨r, hr, rfl, hpn, rfl⟩ := pnToLid_mem h
  rw [lidToPn_of_mem hkeyed hr, UserPart.ext hpn]

theorem sameDevice_lid {f : Form} {lid : UserPart} (hkeyed : Keyed table) (hserver : f.server = .pn)
    (h : pnToLid order table sessionId f.user.text = some lid) (agent : Option Nat) :
    SameDevice table sessionId (onto f lid agent .lid) f := by
  refine ⟨?_, deviceNumber_onto f lid agent .lid⟩
  unfold accountOf
  rw [hserver]
  simp only [onto, pnToLid_back hkeyed h]

theorem sameDevice_pn {f : Form} {pn : UserPart} (hserver : f.server = .lid)
    (h : lidToPn table sessionId f.user.text = some pn) (agent : Option Nat) :
    SameDevice table sessionId (onto f pn agent .pn) f := by
  refine ⟨?_, deviceNumber_onto f pn agent .pn⟩
  unfold accountOf
  rw [hserver]
  simp only [onto, h]

/-- **An alternate is an address of the device.** -/
theorem alternates_ofDevice (hkeyed : Keyed table) (f : Form) {address : List Char}
    (h : address ∈ lidPnAlternates order table sessionId f.jid) :
    OfDevice table sessionId f address := by
  rw [alternates_form] at h
  cases hserver : f.server with
  | lid =>
      rw [hserver] at h
      obtain ⟨pn, hpn, rfl⟩ := List.mem_map.mp h
      exact ⟨_, rfl, sameDevice_pn hserver (Option.mem_toList.mp hpn) none⟩
  | pn =>
      rw [hserver] at h
      obtain ⟨lid, hlid, hmem⟩ := List.mem_flatMap.mp h
      obtain ⟨g, hg, rfl⟩ := List.mem_map.mp hmem
      have hsame := sameDevice_lid hkeyed hserver (Option.mem_toList.mp hlid)
      rcases List.mem_append.mp hg with hg | hg
      · simp only [List.mem_cons, List.not_mem_nil, or_false] at hg
        rcases hg with rfl | rfl
        · exact ⟨_, rfl, hsame (some 1)⟩
        · exact ⟨_, rfl, hsame none⟩
      · split at hg
        · rw [List.mem_singleton.mp hg]
          exact ⟨_, rfl, hsame (some 0)⟩
        · cases hg

/-- **The canonical address of a form** is one of the device as well. -/
theorem canonical_form (order : MostRecent) (hkeyed : Keyed table) (f : Form) :
    ∃ g : Form, canonicalSessionAddress order table sessionId f.jid = g.jid ∧
      SameDevice table sessionId g f := by
  unfold canonicalSessionAddress
  split
  · cases hhead : (lidPnAlternates order table sessionId f.jid).head? with
    | none => exact ⟨f, rfl, rfl, rfl⟩
    | some address =>
        obtain ⟨g, hjid, hsame⟩ := alternates_ofDevice hkeyed f (List.mem_of_mem_head? hhead)
        exact ⟨g, hjid.symm, hsame⟩
  · exact ⟨f, rfl, rfl, rfl⟩

theorem mem_candidates {d address : List Char} :
    address ∈ candidates order table sessionId d ↔
      address = d ∨ address = canonicalSessionAddress order table sessionId d ∨
        address ∈ lidPnAlternates order table sessionId d ∨
        address ∈ lidPnAlternates order table sessionId
          (canonicalSessionAddress order table sessionId d) := by
  unfold candidates
  simp only [List.mem_dedup, List.mem_insertionSort, List.mem_append, List.mem_cons,
    List.not_mem_nil, or_false, or_assoc]

/-- **Only addresses of the device are looked at.** -/
theorem candidates_ofDevice (hkeyed : Keyed table) (f : Form) {address : List Char}
    (h : address ∈ candidates order table sessionId f.jid) :
    OfDevice table sessionId f address := by
  obtain ⟨g, hg, hsame⟩ := canonical_form order hkeyed f
  rcases mem_candidates.mp h with rfl | rfl | h | h
  · exact ofDevice_self f
  · exact ⟨g, hg.symm, hsame⟩
  · exact alternates_ofDevice hkeyed f h
  · rw [hg] at h
    exact (alternates_ofDevice hkeyed g h).trans hsame

end Forms

/-! ## 4. The address to encrypt under -/

section Encryption

variable {order : MostRecent} {table : List LidPnRow} {sessionId : String} {store : SessionStore}
  {d : List Char}

/-- The device has a session under the address itself, and under no other candidate. -/
def Alone (order : MostRecent) (table : List LidPnRow) (sessionId : String) (store : SessionStore)
    (d : List Char) : Prop :=
  ∀ a ∈ candidates order table sessionId d, hasCurrent store a = true → a = d

theorem mem_withSession {a : List Char} :
    a ∈ withSession order table sessionId store d ↔
      a ∈ candidates order table sessionId d ∧ hasCurrent store a = true := List.mem_filter

theorem self_mem_withSession (hhas : hasCurrent store d = true) :
    d ∈ withSession order table sessionId store d :=
  mem_withSession.mpr ⟨mem_candidates.mpr (Or.inl rfl), hhas⟩

/-- One session among the candidates. -/
def OnlyAt (order : MostRecent) (table : List LidPnRow) (sessionId : String) (store : SessionStore)
    (d home : List Char) : Prop :=
  ∀ a ∈ candidates order table sessionId d, hasCurrent store a = true → a = home

theorem withSession_only {home : List Char} (hhome : home ∈ candidates order table sessionId d)
    (hhas : hasCurrent store home = true) (honly : OnlyAt order table sessionId store d home) :
    withSession order table sessionId store d = [home] := by
  have hnodup : (withSession order table sessionId store d).Nodup := (List.nodup_dedup _).filter _
  have hmem : ∀ a, a ∈ withSession order table sessionId store d ↔ a ∈ [home] := by
    intro a
    rw [List.mem_singleton]
    constructor
    · intro ha
      obtain ⟨hcandidate, hcurrent⟩ := mem_withSession.mp ha
      exact honly a hcandidate hcurrent
    · intro ha
      rw [ha]
      exact mem_withSession.mpr ⟨hhome, hhas⟩
  exact List.perm_singleton.mp
    ((List.perm_ext_iff_of_nodup hnodup (List.nodup_singleton home)).mpr hmem)

theorem withSession_forked (hhas : hasCurrent store d = true)
    (hforked : ¬Alone order table sessionId store d) :
    1 < (withSession order table sessionId store d).length := by
  by_contra hshort
  refine hforked fun a ha hcurrent => ?_
  have hd : d ∈ withSession order table sessionId store d := self_mem_withSession hhas
  have ha := mem_withSession.mpr ⟨ha, hcurrent⟩
  obtain ⟨b, hb⟩ := List.length_eq_one_iff.mp
    (Nat.le_antisymm (Nat.not_lt.mp hshort) (List.length_pos_of_mem hd))
  rw [hb, List.mem_singleton] at hd ha
  exact ha.trans hd.symm

theorem hasCurrent_of_row {a : List Char} {r : SessionRecord} (hrow : store a = some (.record r))
    (hcurrent : r.current.isSome = true) : hasCurrent store a = true := by
  unfold hasCurrent
  rw [hrow]
  exact hcurrent

/-- **One copy** is moved to the canonical address. -/
theorem encryptionAddress_only {home : List Char} {r : SessionRecord}
    (hhome : home ∈ candidates order table sessionId d) (hrow : store home = some (.record r))
    (hcurrent : r.current.isSome = true) (honly : OnlyAt order table sessionId store d home) :
    encryptionAddress order table sessionId store d =
      (canonicalSessionAddress order table sessionId d,
        if canonicalSessionAddress order table sessionId d = home then store
        else deleteRecord (saveRecord store (canonicalSessionAddress order table sessionId d) r)
          home) := by
  unfold encryptionAddress
  rw [withSession_only hhome (hasCurrent_of_row hrow hcurrent) honly]
  dsimp only
  rw [if_neg (show ¬1 < [home].length from Nat.lt_irrefl 1)]
  by_cases hcanonical : canonicalSessionAddress order table sessionId d = home
  · rw [hcanonical, if_pos (by simp), if_pos rfl]
  · rw [if_neg (by simpa using hcanonical), if_neg hcanonical]
    simp only [List.head?_cons, hrow]

/-- The copy under the address itself. -/
theorem encryptionAddress_single {r : SessionRecord} (hrow : store d = some (.record r))
    (hcurrent : r.current.isSome = true) (halone : Alone order table sessionId store d) :
    encryptionAddress order table sessionId store d =
      (canonicalSessionAddress order table sessionId d,
        if canonicalSessionAddress order table sessionId d = d then store
        else deleteRecord (saveRecord store (canonicalSessionAddress order table sessionId d) r) d) :=
  encryptionAddress_only (mem_candidates.mpr (Or.inl rfl)) hrow hcurrent halone

/-- Without a copy nothing is moved. -/
theorem encryptionAddress_none
    (hnone : ∀ a ∈ candidates order table sessionId d, hasCurrent store a = false) :
    encryptionAddress order table sessionId store d =
      (canonicalSessionAddress order table sessionId d, store) := by
  have hcopies : withSession order table sessionId store d = [] :=
    List.filter_eq_nil_iff.mpr fun a ha => Bool.eq_false_iff.mp (hnone a ha)
  unfold encryptionAddress
  rw [hcopies]
  rfl

theorem foldl_deleteRecord (as : List (List Char)) (store : SessionStore) (a : List Char) :
    as.foldl deleteRecord store a = if a ∈ as then none else store a := by
  induction as generalizing store with
  | nil => rfl
  | cons b as ih =>
      rw [List.foldl_cons, ih]
      unfold deleteRecord
      by_cases hab : a = b
      · subst hab
        simp
      · simp [hab]

/-- **Several copies** are all deleted. -/
theorem encryptionAddress_forked (hhas : hasCurrent store d = true)
    (hforked : ¬Alone order table sessionId store d) :
    let canonical := canonicalSessionAddress order table sessionId d
    let store' := (withSession order table sessionId store d).foldl deleteRecord store
    encryptionAddress order table sessionId store d = (canonical, store') ∧
      hasCurrent store' canonical = false := by
  intro canonical store'
  refine ⟨?_, ?_⟩
  · unfold encryptionAddress
    rw [if_pos (withSession_forked hhas hforked)]
  · have hrow : store' canonical = if canonical ∈ withSession order table sessionId store d then none
        else store canonical := foldl_deleteRecord _ _ _
    by_cases hmem : canonical ∈ withSession order table sessionId store d
    · unfold hasCurrent
      rw [hrow, if_pos hmem]
    · unfold hasCurrent
      rw [hrow, if_neg hmem]
      refine Bool.eq_false_iff.mpr fun hcurrent => hmem (mem_withSession.mpr ⟨?_, hcurrent⟩)
      exact mem_candidates.mpr (Or.inr (Or.inl rfl))

end Encryption

end Ruwa.Session.Addresses
