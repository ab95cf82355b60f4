/-
  File:      Ruwa/Session/Identity.lean
  Subject:   ONE ACCOUNT, TWO ADDRESSES: a phone number and a LID (`store.rs`, `lid_pn_map`), the
             address every chat is filed under and the test for our own account (`session.rs`,
             `canonical_user_jid`, `sender_is_self`).

  * `canonicalUserJid_form` -- the canonical address is that of the account;
  * `senderIsSelf_iff` -- the test compares digits and does not look at the server;
  * **`identity_iff`** -- there is one canonical address for each account, and the test is right for
    exactly the senders whose digits are ours on neither or both of the servers.
-/
import Ruwa.Library.Paging
import Ruwa.Library.Text
import Mathlib.Data.Bool.AllAny

namespace Ruwa.Session

open Ruwa.Library

/-! ## 1. Addresses -/

def isUserEnd (c : Char) : Bool := c = '.' || c = ':' || c = '@'

/-- What stands before the agent, the device and the server. -/
def lidUserPart (jid : List Char) : List Char := jid.takeWhile fun c => !isUserEnd c

/-- The user of an address: its digits. -/
@[ext] structure UserPart where
  text : List Char
  nonempty : text ≠ []
  plain : ∀ c ∈ text, isUserEnd c = false
  deriving DecidableEq

def pnServer : List Char := "@s.whatsapp.net".toList
def lidServer : List Char := "@lid".toList
def groupServer : List Char := "@g.us".toList
def broadcastServer : List Char := "@broadcast".toList
def newsletterServer : List Char := "@newsletter".toList

theorem lidUserPart_append {user rest : List Char} {c : Char}
    (huser : ∀ a ∈ user, isUserEnd a = false) (hc : isUserEnd c = true) :
    lidUserPart (user ++ c :: rest) = user := by
  unfold lidUserPart
  rw [List.takeWhile_append_of_pos fun a ha => by rw [huser a ha]; rfl,
    List.takeWhile_cons_of_neg (by rw [hc]; decide), List.append_nil]

/-- Nothing of the user part ends it. -/
theorem mem_lidUserPart {jid : List Char} {c : Char} (hc : c ∈ lidUserPart jid) :
    isUserEnd c = false := by
  simpa using List.mem_takeWhile_imp hc

/-! ## 2. The table -/

/-- A row of the table, which holds the mappings of all sessions. -/
structure LidPnRow where
  sessionId : String
  lidUser : UserPart
  pnUser : UserPart
  updatedAt : Int
  deriving DecidableEq

/-- `INSERT OR REPLACE`: the key is the session and the LID. -/
def lidPnPut (table : List LidPnRow) (row : LidPnRow) : List LidPnRow :=
  row :: table.filter fun r => !(r.sessionId = row.sessionId && r.lidUser = row.lidUser)

def lidToPn (table : List LidPnRow) (sessionId : String) (lidUser : List Char) : Option UserPart :=
  (table.find? fun r => r.sessionId = sessionId && r.lidUser.text = lidUser).map (·.pnUser)

/-- `ORDER BY updated_at DESC`, equal times in any order. -/
abbrev MostRecent := HighestFirst LidPnRow.updatedAt

def pnToLid (order : MostRecent) (table : List LidPnRow) (sessionId : String)
    (pnUser : List Char) : Option UserPart :=
  (order.sort (table.filter fun r => r.sessionId = sessionId && r.pnUser.text = pnUser)).head?.map
    (·.lidUser)

/-- The table after a sequence of mappings. -/
def learned (puts : List LidPnRow) : List LidPnRow := puts.foldl lidPnPut []

/-- One row for a LID. -/
def Keyed (table : List LidPnRow) : Prop :=
  table.Pairwise fun r r' => ¬(r.sessionId = r'.sessionId ∧ r.lidUser = r'.lidUser)

theorem lidPnPut_keyed {table : List LidPnRow} (h : Keyed table) (row : LidPnRow) :
    Keyed (lidPnPut table row) := by
  refine List.pairwise_cons.mpr ⟨fun r hr => ?_, h.filter _⟩
  have hother := (List.mem_filter.mp hr).2
  intro ⟨hsession, hlid⟩
  simp [hsession, hlid] at hother

theorem learned_keyed (puts : List LidPnRow) : Keyed (learned puts) := by
  have hrun : ∀ (puts : List LidPnRow) (table : List LidPnRow), Keyed table →
      Keyed (puts.foldl lidPnPut table) := by
    intro puts
    induction puts with
    | nil => exact fun table h => h
    | cons row puts ih => exact fun table h => ih _ (lidPnPut_keyed h row)
  exact hrun puts [] List.Pairwise.nil

/-- The row of a LID is the one that is found. -/
theorem lidToPn_of_mem {table : List LidPnRow} (h : Keyed table) {r : LidPnRow} (hr : r ∈ table) :
    lidToPn table r.sessionId r.lidUser.text = some r.pnUser := by
  induction table with
  | nil => cases hr
  | cons a table ih =>
      obtain ⟨hfirst, hrest⟩ := List.pairwise_cons.mp h
      rcases List.mem_cons.mp hr with rfl | hr
      · simp [lidToPn]
      · have hne : ¬(a.sessionId = r.sessionId ∧ a.lidUser.text = r.lidUser.text) := by
          intro ⟨hsession, htext⟩
          exact hfirst r hr ⟨hsession, UserPart.ext htext⟩
        have hskip : lidToPn (a :: table) r.sessionId r.lidUser.text =
            lidToPn table r.sessionId r.lidUser.text := by
          unfold lidToPn
          rw [List.find?_cons_of_neg (by simpa using hne)]
        rw [hskip]
        exact ih hrest hr

theorem pnToLid_mem {order : MostRecent} {table : List LidPnRow} {sessionId : String}
    {pnUser : List Char} {lid : UserPart} (h : pnToLid order table sessionId pnUser = some lid) :
    ∃ r ∈ table, r.sessionId = sessionId ∧ r.pnUser.text = pnUser ∧ r.lidUser = lid := by
  obtain ⟨r, hr, rfl⟩ := Option.map_eq_some_iff.mp h
  have hmem := (order.perm _).mem_iff.mp (List.mem_of_mem_head? hr)
  obtain ⟨hin, hrow⟩ := List.mem_filter.mp hmem
  simp only [Bool.and_eq_true, decide_eq_true_eq] at hrow
  exact ⟨r, hin, hrow.1, hrow.2, rfl⟩

/-! ## 3. The canonical address -/

def canonicalUserJid (table : List LidPnRow) (sessionId : String) (jid : List Char) : List Char :=
  if jid = [] ∨ groupServer <:+ jid ∨ broadcastServer <:+ jid ∨ newsletterServer <:+ jid then jid
  else if lidServer <:+ jid then
    match lidToPn table sessionId (lidUserPart jid) with
    | some pn => pn.text ++ pnServer
    | none => lidUserPart jid ++ lidServer
  else if pnServer <:+ jid then lidUserPart jid ++ pnServer
  else jid

/-- No server of the five ends another. -/
theorem not_suffix {jid server other : List Char} (h : server <:+ jid) (hl : ¬server <:+ other)
    (hr : ¬other <:+ server) : ¬other <:+ jid := by
  intro hother
  rcases List.suffix_or_suffix_of_suffix h hother with hs | hs
  · exact hl hs
  · exact hr hs

/-- An address of a user is none of the others. -/
theorem user_server {jid server : List Char} (h : server <:+ jid)
    (huser : server = lidServer ∨ server = pnServer) :
    ¬(jid = [] ∨ groupServer <:+ jid ∨ broadcastServer <:+ jid ∨ newsletterServer <:+ jid) := by
  intro hother
  rcases huser with rfl | rfl
  all_goals
    rcases hother with rfl | hg | hb | hn
    · exact absurd h (by decide)
    · exact not_suffix h (by decide) (by decide) hg
    · exact not_suffix h (by decide) (by decide) hb
    · exact not_suffix h (by decide) (by decide) hn

theorem canonicalUserJid_lid (table : List LidPnRow) (sessionId : String) {jid : List Char}
    (h : lidServer <:+ jid) :
    canonicalUserJid table sessionId jid =
      match lidToPn table sessionId (lidUserPart jid) with
      | some pn => pn.text ++ pnServer
      | none => lidUserPart jid ++ lidServer := by
  unfold canonicalUserJid
  rw [if_neg (user_server h (Or.inl rfl)), if_pos h]

theorem canonicalUserJid_pn (table : List LidPnRow) (sessionId : String) {jid : List Char}
    (h : pnServer <:+ jid) :
    canonicalUserJid table sessionId jid = lidUserPart jid ++ pnServer := by
  unfold canonicalUserJid
  rw [if_neg (user_server h (Or.inr rfl)), if_neg (not_suffix h (by decide) (by decide)), if_pos h]

/-- The user part of a user with a server is the user. -/
theorem lidUserPart_server {user : List Char} (huser : ∀ c ∈ user, isUserEnd c = false) :
    lidUserPart (user ++ pnServer) = user ∧ lidUserPart (user ++ lidServer) = user :=
  ⟨lidUserPart_append (c := '@') huser (by decide), lidUserPart_append (c := '@') huser (by decide)⟩

/-- **A canonical address is its own.** -/
theorem canonicalUserJid_idem (table : List LidPnRow) (sessionId : String) (jid : List Char) :
    canonicalUserJid table sessionId (canonicalUserJid table sessionId jid) =
      canonicalUserJid table sessionId jid := by
  have hpn : ∀ user : List Char, (∀ c ∈ user, isUserEnd c = false) →
      canonicalUserJid table sessionId (user ++ pnServer) = user ++ pnServer := by
    intro user huser
    rw [canonicalUserJid_pn table sessionId (List.suffix_append user pnServer),
      (lidUserPart_server huser).1]
  by_cases hlid : lidServer <:+ jid
  · rw [canonicalUserJid_lid table sessionId hlid]
    cases hmap : lidToPn table sessionId (lidUserPart jid) with
    | some pn => exact hpn pn.text pn.plain
    | none =>
        have huser : lidUserPart (lidUserPart jid ++ lidServer) = lidUserPart jid :=
          (lidUserPart_server fun c hc => mem_lidUserPart hc).2
        simp only
        rw [canonicalUserJid_lid table sessionId (List.suffix_append _ lidServer), huser, hmap]
  by_cases hserver : pnServer <:+ jid
  · rw [canonicalUserJid_pn table sessionId hserver]
    exact hpn _ fun c hc => mem_lidUserPart hc
  · have hself : canonicalUserJid table sessionId jid = jid := by
      unfold canonicalUserJid
      rw [if_neg hlid, if_neg hserver, ite_self]
    rw [hself, hself]

/-! ## 4. Every form of an account -/

inductive Server where
  | pn
  | lid
  deriving DecidableEq

def Server.text : Server → List Char
  | .pn => pnServer
  | .lid => lidServer

/-- `user[.agent][:device]@server` -/
structure Form where
  user : UserPart
  agent : Option Nat
  device : Option Nat
  server : Server
  deriving DecidableEq

def suffixed (mark : Char) : Option Nat → List Char
  | none => []
  | some n => mark :: Text.decimal n

def Form.jid (f : Form) : List Char :=
  f.user.text ++ (suffixed '.' f.agent ++ suffixed ':' f.device ++ f.server.text)

/-- Whom an address stands for: a number together with the LIDs that are mapped to it, or a LID
    alone. -/
inductive Account where
  | number (pn : UserPart)
  | lone (lid : UserPart)
  deriving DecidableEq

def Account.jid : Account → List Char
  | number pn => pn.text ++ pnServer
  | lone lid => lid.text ++ lidServer

def accountOf (table : List LidPnRow) (sessionId : String) (f : Form) : Account :=
  match f.server with
  | .pn => .number f.user
  | .lid =>
      match lidToPn table sessionId f.user.text with
      | some pn => .number pn
      | none => .lone f.user

theorem Form.lidUserPart_jid (f : Form) : lidUserPart f.jid = f.user.text := by
  obtain ⟨c, rest, hrest, hc⟩ : ∃ c rest,
      suffixed '.' f.agent ++ suffixed ':' f.device ++ f.server.text = c :: rest ∧
        isUserEnd c = true := by
    cases f.agent with
    | some n => exact ⟨'.', _, rfl, by decide⟩
    | none =>
        cases f.device with
        | some n => exact ⟨':', _, rfl, by decide⟩
        | none =>
            cases f.server with
            | pn => exact ⟨'@', _, rfl, by decide⟩
            | lid => exact ⟨'@', _, rfl, by decide⟩
  unfold Form.jid
  rw [hrest]
  exact lidUserPart_append f.user.plain hc

theorem Form.server_suffix (f : Form) : f.server.text <:+ f.jid :=
  (List.suffix_append _ f.server.text).trans (List.suffix_append f.user.text _)

theorem Account.jid_inj {a b : Account} : a.jid = b.jid ↔ a = b := by
  refine ⟨fun h => ?_, fun h => h ▸ rfl⟩
  have hcut := congrArg lidUserPart h
  cases a with
  | number p =>
      cases b with
      | number q =>
          simp only [Account.jid, (lidUserPart_server p.plain).1,
            (lidUserPart_server q.plain).1] at hcut
          rw [UserPart.ext hcut]
      | lone q =>
          have hsame : p.text ++ pnServer = q.text ++ lidServer := h
          have hend : pnServer <:+ q.text ++ lidServer := hsame ▸ List.suffix_append p.text pnServer
          exact absurd hend
            (not_suffix (List.suffix_append q.text lidServer) (by decide) (by decide))
  | lone p =>
      cases b with
      | number q =>
          have hsame : p.text ++ lidServer = q.text ++ pnServer := h
          have hend : pnServer <:+ p.text ++ lidServer := hsame ▸ List.suffix_append q.text pnServer
          exact absurd hend
            (not_suffix (List.suffix_append p.text lidServer) (by decide) (by decide))
      | lone q =>
          simp only [Account.jid, (lidUserPart_server p.plain).2,
            (lidUserPart_server q.plain).2] at hcut
          rw [UserPart.ext hcut]

/-- **The canonical address is that of the account.** -/
theorem canonicalUserJid_form (table : List LidPnRow) (sessionId : String) (f : Form) :
    canonicalUserJid table sessionId f.jid = (accountOf table sessionId f).jid := by
  have hend := f.server_suffix
  unfold accountOf
  cases hserver : f.server with
  | pn =>
      rw [hserver] at hend
      rw [canonicalUserJid_pn table sessionId hend, f.lidUserPart_jid]
      rfl
  | lid =>
      rw [hserver] at hend
      rw [canonicalUserJid_lid table sessionId hend, f.lidUserPart_jid]
      cases lidToPn table sessionId f.user.text <;> rfl

/-! ## 5. Our own account -/

def senderIsSelf (order : MostRecent) (table : List LidPnRow) (sessionId : String)
    (ownPnUser : Option (List Char)) (sender : List Char) : Bool :=
  match ownPnUser with
  | none => false
  | some [] => false
  | some own =>
      lidUserPart sender = own ||
        (pnToLid order table sessionId own).any (fun lid => lidUserPart sender = lid.text) ||
        (lidToPn table sessionId (lidUserPart sender)).any fun pn => pn.text = own

/-- The digits are compared, not the server. -/
theorem senderIsSelf_iff (order : MostRecent) {table : List LidPnRow} (h : Keyed table)
    (sessionId : String) (own : UserPart) (f : Form) :
    senderIsSelf order table sessionId (some own.text) f.jid = true ↔
      f.user = own ∨ lidToPn table sessionId f.user.text = some own := by
  have hsome : senderIsSelf order table sessionId (some own.text) f.jid =
      (f.user.text = own.text ||
        (pnToLid order table sessionId own.text).any (fun lid => f.user.text = lid.text) ||
        (lidToPn table sessionId f.user.text).any fun pn => pn.text = own.text) := by
    rw [← f.lidUserPart_jid]
    unfold senderIsSelf
    split
    · rename_i hnone
      cases hnone
    · rename_i hempty
      exact absurd (Option.some.inj hempty) own.nonempty
    · rename_i own' _ hown
      cases hown
      rfl
  rw [hsome]
  simp only [Bool.or_eq_true, decide_eq_true_eq, Option.any_eq_true]
  constructor
  · rintro ((hown | ⟨lid, hlid, htext⟩) | ⟨pn, hpn, htext⟩)
    · exact Or.inl (UserPart.ext hown)
    · -- the most recent LID of our number is mapped to it
      obtain ⟨r, hr, hsession, hpn, rfl⟩ := pnToLid_mem hlid
      refine Or.inr ?_
      rw [htext, ← hsession, lidToPn_of_mem h hr, UserPart.ext hpn]
    · exact Or.inr (by rw [hpn, UserPart.ext htext])
  · rintro (hown | hmapped)
    · exact Or.inl (Or.inl (congrArg UserPart.text hown))
    · exact Or.inr ⟨own, hmapped, rfl⟩

/-- The digits of a sender are ours on one of the servers, and the sender is not. -/
def MistakenForOwn (table : List LidPnRow) (sessionId : String) (own : UserPart) (f : Form) :
    Prop :=
  match f.server with
  | .pn => f.user ≠ own ∧ lidToPn table sessionId f.user.text = some own
  | .lid => f.user = own ∧ lidToPn table sessionId f.user.text ≠ some own

/-- **One canonical address for each account**; and a sender is taken for ourselves exactly when it
    is one of our own addresses, unless its digits are mistaken for ours. -/
theorem identity_iff (order : MostRecent) (puts : List LidPnRow) (sessionId : String)
    (own : UserPart) :
    (∀ jid, canonicalUserJid (learned puts) sessionId
        (canonicalUserJid (learned puts) sessionId jid) =
          canonicalUserJid (learned puts) sessionId jid) ∧
      (∀ f g : Form, canonicalUserJid (learned puts) sessionId f.jid =
          canonicalUserJid (learned puts) sessionId g.jid ↔
        accountOf (learned puts) sessionId f = accountOf (learned puts) sessionId g) ∧
      ∀ f : Form,
        (senderIsSelf order (learned puts) sessionId (some own.text) f.jid = true ↔
          accountOf (learned puts) sessionId f = .number own) ↔
        ¬MistakenForOwn (learned puts) sessionId own f := by
  refine ⟨canonicalUserJid_idem _ _, fun f g => ?_, fun f => ?_⟩
  · rw [canonicalUserJid_form, canonicalUserJid_form, Account.jid_inj]
  · rw [senderIsSelf_iff order (learned_keyed puts)]
    unfold accountOf MistakenForOwn
    cases f.server with
    | pn =>
        simp only [Account.number.injEq]
        tauto
    | lid =>
        cases hmap : lidToPn (learned puts) sessionId f.user.text with
        | none => simp
        | some pn =>
            simp only [Account.number.injEq, ne_eq, Option.some.injEq]
            tauto

namespace Sample

def ownNumber : UserPart :=
  ⟨"5511990000001".toList, by decide, List.all_iff_forall_prop.mp (by decide)⟩
def ownLid : UserPart :=
  ⟨"64000000000001".toList, by decide, List.all_iff_forall_prop.mp (by decide)⟩

/-- Our own LID is known. -/
def puts : List LidPnRow := [⟨"s", ownLid, ownNumber, 1⟩]

/-- A stranger's LID with the digits of our number. -/
def stranger : Form := ⟨ownNumber, some 1, some 3, .lid⟩

end Sample

/-- A stranger is taken for ourselves. -/
theorem stranger_is_self :
    senderIsSelf (.byInsertion _) (learned Sample.puts) "s" (some Sample.ownNumber.text)
        Sample.stranger.jid = true ∧
      accountOf (learned Sample.puts) "s" Sample.stranger ≠ .number Sample.ownNumber := by
  decide +kernel

end Ruwa.Session
