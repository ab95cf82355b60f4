/-
  File:      Ruwa/Session/Accounts.lean
  Subject:   THE ACCOUNT BEHIND THE OUTBOUND QUEUE: one session, paired with one number after
             another.

  A logout takes the JID away and nothing of what waits to be sent. The table is read by the id of
  the session, whoever it has logged in as since.

  * `OneAccount` -- what is asked of the steps;
  * **`account_boundary`** -- runs in which a login finds nothing of another account;
  * **`account_crossed`** -- a message of the account that was logged out.
-/
import Ruwa.Session.Outbound

namespace Ruwa.Session

open Ruwa.Library

/-! ## 1. What is asked -/

/-- The operation may go out on a connection with this login. One that was enqueued while nobody was
    paired may go anywhere, and a connection that is not logged in takes anything. -/
def Queued.Suits (q : Queued) (login : Option Nat) : Prop :=
  q.msgId? ≠ none → ∀ a ∈ q.account, ∀ b ∈ login, a = b

instance (q : Queued) (login : Option Nat) : Decidable (q.Suits login) :=
  inferInstanceAs (Decidable (_ → _))

/-- The operation suits every login of the connection whose pump receives what is sent now. -/
def Outbound.Takes (s : Outbound) (q : Queued) : Prop :=
  ∀ p ∈ s.web.pumps, p.1 = s.web.sendTx → ∀ l ∈ s.logins, l.1 = p.2 → q.Suits l.2

instance (s : Outbound) (q : Queued) : Decidable (s.Takes q) :=
  inferInstanceAs (Decidable (∀ p ∈ s.web.pumps, _))

/-- What a call sends suits the connection that has the receiver. A connection that takes the
    receiver finds nothing in the channel, and nothing in the table, that does not suit it; a media
    operation counts when it is sent again, for its file may be gone. If the channel has changed by
    then, any operation does. -/
def OneAccount (s : Outbound) : OutboundCall → Prop
  | .sendPending place => ∀ q ∈ s.pending[place]?, s.Takes q
  | .handshakeDone id => ∀ l ∈ s.payloads, l.1 = id → ∀ ch ∈ s.web.sendRx,
      ∀ e ∈ s.web.queued, e.1 = ch → e.2.Suits l.2
  | .drainOutboundQueue p drainOk => drainOk = true → ∀ l ∈ s.logins, l.1 = p.2 →
      ∀ row ∈ s.ships.queue, row.op.op.filePath? = none → row.op.Suits l.2
  | .redrive p files deleteOk => ∀ q ∈ s.entering (.redrive p files deleteOk),
      q.op.filePath? ≠ none ∨ p.1 ≠ s.web.sendTx → s.Takes q
  | _ => True

instance decidableOneAccount (s : Outbound) : (e : OutboundCall) → Decidable (OneAccount s e)
  | .sendPending place => inferInstanceAs (Decidable (∀ q ∈ s.pending[place]?, s.Takes q))
  | .handshakeDone id => inferInstanceAs (Decidable (∀ l ∈ s.payloads, l.1 = id →
      ∀ ch ∈ s.web.sendRx, ∀ e ∈ s.web.queued, e.1 = ch → e.2.Suits l.2))
  | .drainOutboundQueue p drainOk => inferInstanceAs (Decidable (drainOk = true →
      ∀ l ∈ s.logins, l.1 = p.2 → ∀ row ∈ s.ships.queue, row.op.op.filePath? = none →
        row.op.Suits l.2))
  | .redrive p files deleteOk => inferInstanceAs (Decidable
      (∀ q ∈ s.entering (.redrive p files deleteOk),
        q.op.filePath? ≠ none ∨ p.1 ≠ s.web.sendTx → s.Takes q))
  | .enqueueSendPersistent .. | .enqueueSend _ | .payload _ | .pump .. | .pairSuccess .. | .logout ..
  | .shipping _ | .session _ => inferInstanceAs (Decidable True)

/-! ## 2. What a step keeps -/

/-- Every operation on a lane suits the logins of its connection, and so does what the connection has
    read of the table. -/
structure Separate (s : Outbound) : Prop where
  sound : s.web.lanes.Sound
  reading : Reading s
  logins_lt : ∀ l ∈ s.logins, l.1 < s.web.nextConn
  suits : ∀ p ∈ s.web.pumps, ∀ q ∈ s.web.lanes.lane p, ∀ l ∈ s.logins, l.1 = p.2 → q.Suits l.2
  rows : ∀ e ∈ s.redriving, e.2.op.filePath? = none → ∀ l ∈ s.logins, l.1 = e.1 → e.2.Suits l.2

section Steps

variable {s s' : Outbound} {e : OutboundCall}

theorem separate_new (status : SessionStatus) (messages : List MessageRow) :
    Separate (Outbound.new status messages) where
  sound := sound_start 0
  reading := reading_new status messages
  logins_lt _ hl := nomatch hl
  suits _ hp := nomatch hp
  rows _ he := nomatch he

/-- A login is new, and of the connection that opens. -/
theorem logins_step (hstep : s.step e = some s') :
    s'.logins = s.logins ∨ ∃ id login, e = .handshakeDone id ∧ (id, login) ∈ s.payloads ∧
      s'.web.nextConn = s.web.nextConn + 1 ∧ s'.logins = s.logins ++ [(s.web.nextConn, login)] := by
  cases adds_step hstep with
  | nothing _ _ _ _ hlogins => exact .inl hlogins
  | operation _ _ _ _ _ hlogins => exact .inl hlogins
  | ack _ _ _ _ _ _ _ _ hlogins => exact .inl hlogins
  | drop _ _ _ _ _ _ _ _ _ hlogins => exact .inl hlogins
  | login id login he hpayload hconn _ _ _ hlogins =>
      exact .inr ⟨id, login, he, hpayload, hconn, hlogins⟩

theorem logins_lt_step (h : Separate s) (hstep : s.step e = some s') :
    ∀ l ∈ s'.logins, l.1 < s'.web.nextConn := by
  have hold (l : Nat × Option Nat) (hl : l ∈ s.logins) : l.1 < s'.web.nextConn :=
    Nat.lt_of_lt_of_le (h.logins_lt l hl) (lanes_grow hstep).2.1
  intro l hl
  rcases logins_step hstep with hsame | ⟨_, login, _, _, hconn, hmore⟩
  · exact hold l (hsame ▸ hl)
  · rw [hmore] at hl
    rcases List.mem_append.mp hl with hl | hnew
    · exact hold l hl
    · rw [List.mem_singleton.mp hnew, hconn]
      exact Nat.lt_succ_self _

/-- A connection that is there has logged in already. -/
theorem login_before (hstep : s.step e = some s') {conn : Nat} (hconn : conn < s.web.nextConn)
    {l : Nat × Option Nat} (hl : l ∈ s'.logins) (he : l.1 = conn) : l ∈ s.logins := by
  rcases logins_step hstep with hsame | ⟨_, login, _, _, _, hmore⟩
  · rwa [hsame] at hl
  · rw [hmore] at hl
    rcases List.mem_append.mp hl with hold | hnew
    · exact hold
    · rw [List.mem_singleton.mp hnew] at he
      exact absurd he (Nat.ne_of_gt hconn)

/-- What comes into the channel suits whoever receives from it. -/
theorem entering_takes (h : Separate s) (hone : OneAccount s e) (hstep : s.step e = some s')
    {q : Queued} (hq : s.entering e = some q) : s.Takes q := by
  have hfree (hnone : q.msgId? = none) : s.Takes q :=
    fun _ _ _ _ _ _ hid => absurd hnone hid
  cases e with
  | enqueueSendPersistent op now storeOk =>
      simp only [Outbound.entering] at hq
      split at hq <;> cases hq
      next hop => exact hfree hop
  | enqueueSend op =>
      simp only [Outbound.step] at hstep
      split at hstep <;> cases hstep
      cases hq
      next hop => exact hfree hop
  | sendPending place => exact hone q hq
  | redrive p files deleteOk =>
      by_cases hcounts : q.op.filePath? ≠ none ∨ p.1 ≠ s.web.sendTx
      · exact hone q hq hcounts
      · -- It suited its own connection when the table was read.
        obtain ⟨hpath, hhome⟩ := not_or.mp hcounts
        obtain ⟨⟨d, hd, rfl⟩, q', rest, htake, ⟨-, hnone, -⟩ | ⟨henters, -⟩⟩ := redrive_cases hstep
        · rw [hnone] at hq
          cases hq
        · obtain rfl : q' = q := Option.some.inj (henters.symm.trans hq)
          intro p hp htx l hl hconn
          have hsame : p = d.pump := by
            by_contra hne
            exact (h.sound.distinct hp (h.reading.pumped d hd) hne).1 (htx.trans (not_not.mp hhome).symm)
          subst hsame
          exact h.rows _ (mem_takeQueued htake).1 (not_not.mp hpath) l hl hconn
  | handshakeDone | drainOutboundQueue | payload | pump | pairSuccess | logout | shipping | session =>
      cases hq

/-- **Nothing comes onto the lane of another account.** -/
theorem suits_step (h : Separate s) (hone : OneAccount s e) (hstep : s.step e = some s') :
    ∀ p ∈ s'.web.pumps, ∀ q ∈ s'.web.lanes.lane p, ∀ l ∈ s'.logins, l.1 = p.2 →
      q.Suits l.2 := by
  have hbefore {p : Nat × Nat} (hp : p ∈ s.web.pumps) {l : Nat × Option Nat}
      (hl : l ∈ s'.logins) (hconn : l.1 = p.2) : l ∈ s.logins :=
    login_before hstep (h.sound.pumps_lt p hp).2 hl hconn
  refine lane_invariant
    (Q := fun p l => ∀ q ∈ l, ∀ login ∈ s'.logins, login.1 = p.2 → q.Suits login.2)
    h.sound ?_ ?_ ?_ hstep fun p hp q hq l hl hconn => h.suits p hp q hq l (hbefore hp hl hconn) hconn
  · exact fun _ l l' hsub hl q hq => hl q (hsub.subset hq)
  · intro q₀ hq₀ p hp htx hlane q hq l hl hconn
    rcases List.mem_append.mp hq with hold | hnew
    · exact hlane q hold l hl hconn
    · rw [List.mem_singleton.mp hnew]
      exact entering_takes h hone hstep hq₀ p hp htx l (hbefore hp hl hconn) hconn
  · rintro id rfl ch hch q hq l hl hconn
    obtain ⟨web, login, -, hpayload, rfl⟩ := handshakeDone_cases hstep
    rcases List.mem_append.mp hl with hold | hnew
    · exact absurd hconn (Nat.ne_of_lt (h.logins_lt l hold))
    · rw [List.mem_singleton.mp hnew]
      exact hone (id, login) hpayload rfl ch hch (ch, q) (mem_along.mp hq) rfl

/-- Nor is it read of the table. -/
theorem rows_step (h : Separate s) (hone : OneAccount s e) (hstep : s.step e = some s') :
    ∀ x ∈ s'.redriving, x.2.op.filePath? = none → ∀ l ∈ s'.logins, l.1 = x.1 → x.2.Suits l.2 := by
  have hold {x : Nat × Queued} (hx : x ∈ s.redriving) (hpath : x.2.op.filePath? = none)
      {l : Nat × Option Nat} (hl : l ∈ s'.logins) (hconn : l.1 = x.1) : x.2.Suits l.2 :=
    h.rows x hx hpath l (login_before hstep (h.reading.redriving_lt x hx) hl hconn) hconn
  intro x hx hpath l hl hconn
  cases rereads_step hstep with
  | same _ _ hredriving => exact hold (hredriving ▸ hx) hpath hl hconn
  | drains p drainOk he hdrain _ _ hredriving =>
      subst he
      obtain ⟨d, hd, rfl, -⟩ := hdrain
      rw [hredriving] at hx
      rcases List.mem_append.mp hx with hx | hnew
      · exact hold hx hpath hl hconn
      · obtain ⟨q, hq, rfl⟩ := List.mem_map.mp hnew
        obtain ⟨⟨row, hrow, rfl⟩, hdrain⟩ := mem_drained hq
        have hconn_lt := (h.sound.pumps_lt _ (h.reading.pumped d hd)).2
        exact hone hdrain l (login_before hstep hconn_lt hl hconn) hconn row hrow hpath
  | through p files deleteOk q before after _ _ _ hbefore _ hredriving =>
      refine hold ?_ hpath hl hconn
      rw [hbefore]
      rw [hredriving] at hx
      exact (List.mem_append.mp hx).elim (List.mem_append_left _)
        fun hx => List.mem_append_right _ (List.mem_cons_of_mem _ hx)

theorem separate_step (h : Separate s) (hone : OneAccount s e) (hstep : s.step e = some s') :
    Separate s' where
  sound := lanes_sound_step h.sound hstep
  reading := reading_step h.sound h.reading hstep
  logins_lt := logins_lt_step h hstep
  suits := suits_step h hone hstep
  rows := rows_step h hone hstep

end Steps

/-! ## 3. Runs -/

/-- **No operation crosses to another account**, in every run in which a connection that logs in
    finds nothing of another account, and nothing is enqueued behind its back. -/
theorem account_boundary (status : SessionStatus) (messages : List MessageRow)
    (run : List OutboundCall) (s : Outbound)
    (hone : Meets Outbound.step OneAccount (Outbound.new status messages) run)
    (hrun : runFrom Outbound.step (Outbound.new status messages) run = some s) :
    ∀ e ∈ s.web.shipped, e.2.msgId? ≠ none → ∀ paired login, e.2.account = some paired →
      (e.1, some login) ∈ s.logins → paired = login := by
  have hseparate : Separate s :=
    run_invariant (I := Separate) (fun _ _ _ h hone hstep => separate_step h hone hstep)
      (separate_new status messages) hone hrun
  intro e he hid paired login hpaired hlogin
  obtain ⟨p, hp, hconn, hlane⟩ := hseparate.sound.mem_lane he
  exact hseparate.suits p hp e.2 hlane _ hlogin hconn.symm hid paired hpaired login rfl

namespace Sample

/-- A handshake, and the drain of its connection: with the row of an operation, or with none. -/
def handshake (id conn : Nat) (row : Bool) : List OutboundCall :=
  [.payload id, .handshakeDone id, .drainOutboundQueue (conn, conn) true] ++
    if row then [.redrive (conn, conn) [] true] else []

/-- A driver that starts, pairs on its first connection, and logs in on the next one. -/
def paired (id conn : Nat) (jid : String) (row : Bool) : List OutboundCall :=
  [.session (.connect true), .session (.driver id (.start true))] ++ handshake id conn row ++
    [.pairSuccess id (some jid) false, .session (.driver id (.frame .restart false)),
      .session (.driver id .lost)] ++ handshake id (conn + 1) row

def firstNumber : List OutboundCall :=
  paired 0 0 "15550001111:1@s.whatsapp.net" false ++
    [.enqueueSendPersistent (.text "c" "a" "hi" 0) 0 true, .sendPending 0]

/-- The connection is lost, and the same account logs in again. -/
def sameNumber : List OutboundCall :=
  firstNumber ++ [.session (.driver 0 .lost), .session (.driver 0 .backoffOver)] ++
    handshake 0 2 true ++ [.pump (2, 2) (some ("c", true))]

/-- A logout, and a pairing with another number. -/
def otherNumber (fresh : Bool) : List OutboundCall :=
  firstNumber ++ [.logout fresh true, .session (.driver 0 .logoutHeard),
    .session (.driver 0 .left), .session (.driver 0 .finish)] ++
      paired 1 2 "15550002222:1@s.whatsapp.net" true ++ [.pump (3, 3) (some ("c", true))]

/-- The logins, and what was shipped on which connection, with the account it is of. -/
def sent (s : Outbound) : List (Nat × Option Nat) × List (Nat × Option String × Option Nat) :=
  (s.logins, s.web.shipped.map fun e => (e.1, e.2.msgId?, e.2.account))

end Sample

theorem account_boundary_same : ∃ s,
    runFrom Outbound.step (Outbound.new .pending []) Sample.sameNumber = some s ∧
      s.logins = [(0, none), (1, some 15550001111), (2, some 15550001111)] ∧
      s.web.shipped.map (fun e => (e.1, e.2.account)) = [(2, some 15550001111)] ∧
      ∀ e ∈ s.web.shipped, e.2.msgId? ≠ none → ∀ paired login, e.2.account = some paired →
        (e.1, some login) ∈ s.logins → paired = login := by
  have hrun : ∃ s, runFrom Outbound.step (Outbound.new .pending []) Sample.sameNumber = some s :=
    ⟨_, rfl⟩
  obtain ⟨s, hrun⟩ := hrun
  have hkept := account_boundary .pending [] Sample.sameNumber s (by decide) hrun
  cases hrun
  exact ⟨_, rfl, rfl, rfl, hkept⟩

/-- **What the first account left behind goes out as the second**, whether or not the logout was
    `fresh`. -/
theorem account_crossed :
    (runFrom Outbound.step (Outbound.new .pending []) (Sample.otherNumber false)).map Sample.sent =
        some ([(0, none), (1, some 15550001111), (2, none), (3, some 15550002222)],
          [(3, some "a", some 15550001111)]) ∧
    (runFrom Outbound.step (Outbound.new .pending []) (Sample.otherNumber true)).map Sample.sent =
        some ([(0, none), (1, some 15550001111), (2, none), (3, some 15550002222)],
          [(3, some "a", some 15550001111)]) := by
  constructor <;> decide +kernel

end Ruwa.Session
