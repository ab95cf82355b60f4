/-
  File:      Ruwa/Session/SendPath.lean
  Subject:   ONE DRIVER, and the way from `enqueue_send` to its socket.

  The receiver of the send queue is either with the session or with one pump, and that pump writes
  to the connection whose `run_connection` took it. This holds until a driver is cut in between.

  * `Wiring` -- the fields this depends on; `driverStep_effect` -- what a driver does to them;
  * **`send_path_kept`** -- runs in which no driver is cut while it holds a connection;
  * **`send_path_broken`** -- a second `connect` while the QR code is shown.
-/
import Ruwa.Session.Driver
import Mathlib.Data.List.Nodup

namespace Ruwa.Session

open Ruwa.Library

variable {α : Type}

/-! ## 1. The wiring of a session -/

/-- The driver in the handle, and who receives from the send queue. -/
structure Wiring where
  handle : Option Nat
  nextDriver : Nat
  sendTx : Nat
  sendRx : Option Nat
  nextChannel : Nat
  pumps : List (Nat × Nat)

def Web.wiring (s : Web α) : Wiring :=
  ⟨s.handle, s.nextDriver, s.sendTx, s.sendRx, s.nextChannel, s.pumps⟩

def Wiring.reset (w : Wiring) : Wiring :=
  { w with sendTx := w.nextChannel, sendRx := some w.nextChannel, nextChannel := w.nextChannel + 1 }

/-- The receiver goes from the session to a pump of the connection. -/
def Wiring.take (w : Wiring) (conn : Nat) : Wiring :=
  match w.sendRx with
  | none => w
  | some ch => { w with sendRx := none, pumps := w.pumps ++ [(ch, conn)] }

/-- What a driver does from one await to the next, as far as the wiring goes. -/
inductive Effect (s : Web α) (d : Driver) (s' : Web α) : Prop
  | kept (pos : Await) (hlive : d.pos ≠ .exited) (hconn : pos.conn = d.pos.conn)
      (hdrivers : s'.drivers = (s.moveTo d.id pos).drivers) (hwiring : s'.wiring = s.wiring)
  | released (pos : Await) (hlive : d.pos ≠ .exited) (hconn : pos.conn = none)
      (hdrivers : s'.drivers = (s.moveTo d.id pos).drivers)
      (hwiring : s'.wiring = s.wiring.reset)
  | took (conn : Nat) (hlive : d.pos ≠ .exited) (hbefore : d.pos.conn = none)
      (hdrivers : s'.drivers = (s.moveTo d.id (.selecting conn)).drivers)
      (hwiring : s'.wiring = s.wiring.take conn)
  | finished (hpos : d.pos = .exited)
      (hdrivers : s'.drivers = s.drivers.filter fun d' => d'.id ≠ d.id)
      (hwiring : s'.wiring = s.wiring)

theorem mem_moveTo {s : Web α} {id : Nat} {pos : Await} {d' : Driver} :
    d' ∈ (s.moveTo id pos).drivers ↔
      (∃ d ∈ s.drivers, d.id = id) ∧ d' = ⟨id, pos, false, false⟩ ∨ d' ∈ s.drivers ∧ d'.id ≠ id := by
  simp only [Web.moveTo, List.mem_map]
  constructor
  · rintro ⟨d, hd, rfl⟩
    by_cases hid : d.id = id
    · rw [if_pos hid]
      exact .inl ⟨⟨d, hd, hid⟩, rfl⟩
    · rw [if_neg hid]
      exact .inr ⟨hd, hid⟩
  · rintro (⟨⟨d, hd, hid⟩, rfl⟩ | ⟨hd, hid⟩)
    · exact ⟨d, hd, if_pos hid⟩
    · exact ⟨d', hd, if_neg hid⟩

/-- However a failed connection ends, the queue is reset and the driver holds none. -/
theorem failed_effect (s : Web α) (id : Nat) :
    ∃ pos, pos.conn = none ∧ (s.failed id).drivers = (s.moveTo id pos).drivers ∧
      (s.failed id).wiring = s.wiring.reset := by
  unfold Web.failed
  dsimp only
  split
  · split
    · exact ⟨.exited, rfl, rfl, rfl⟩
    · exact ⟨.exited, rfl, rfl, rfl⟩
  · split
    · exact ⟨.exited, rfl, rfl, rfl⟩
    · split
      · exact ⟨.dialing, rfl, rfl, rfl⟩
      · exact ⟨.backoff, rfl, rfl, rfl⟩

theorem wiring_foldl_enqueueSend (s : Web α) (ops : List α) :
    (ops.foldl Web.enqueueSend s).wiring = s.wiring ∧
      (ops.foldl Web.enqueueSend s).drivers = s.drivers := by
  induction ops generalizing s with
  | nil => exact ⟨rfl, rfl⟩
  | cons op ops ih => exact ih (s.enqueueSend op)

theorem handshakeDone_effect (s : Web α) (id : Nat) (drained : List α) :
    (s.handshakeDone id drained).drivers = (s.moveTo id (.selecting s.nextConn)).drivers ∧
      (s.handshakeDone id drained).wiring = s.wiring.take s.nextConn := by
  unfold Web.handshakeDone Wiring.take
  cases hrx : s.sendRx with
  | none => simp [Web.moveTo, Web.wiring, Web.setStatus, Web.emit, hrx]
  | some ch =>
      have hfold := wiring_foldl_enqueueSend
        { ({ s with nextConn := s.nextConn + 1 }.setStatus .awaitingQr).emit .connecting with
          iqClient := some s.nextConn, sendRx := none } drained
      obtain ⟨hwiring, hdrivers⟩ := hfold
      simp only [Web.wiring, Wiring.mk.injEq] at hwiring
      obtain ⟨h₁, h₂, h₃, h₄, h₅, h₆⟩ := hwiring
      simp_all [Web.moveTo, Web.wiring, Web.setStatus, Web.emit]

theorem wiring_processInboundNode (s : Web α) (conn : Nat) (f : Frame) :
    (s.processInboundNode conn f).wiring = s.wiring ∧
      (s.processInboundNode conn f).drivers = s.drivers := by
  cases f <;> exact ⟨rfl, rfl⟩

/-- A failed connection ends in `released`, wherever it failed. -/
theorem Effect.failed {s : Web α} {d : Driver} (hlive : d.pos ≠ .exited) :
    Effect s d (s.failed d.id) := by
  obtain ⟨pos, hconn, hdrivers, hwiring⟩ := failed_effect s d.id
  exact .released pos hlive hconn hdrivers hwiring

theorem driverStep_effect {s s' : Web α} {d : Driver} {e : DriverStep α}
    (h : s.driverStep d e = some s') : Effect s d s' := by
  cases driverStep_cases h with
  | started hpos => exact .kept .dialing (by simp [hpos]) (by simp [hpos, Await.conn]) rfl rfl
  | proxyFailed hpos => exact .kept .exited (by simp [hpos]) (by simp [hpos, Await.conn]) rfl rfl
  | dialFailed hpos => exact .failed (by simp [hpos])
  | handshakeDone drained hpos =>
      obtain ⟨hdrivers, hwiring⟩ := handshakeDone_effect s d.id drained
      exact .took s.nextConn (by simp [hpos]) (by simp [hpos, Await.conn]) hdrivers hwiring
  | frame f reply c hpos =>
      obtain ⟨hwiring, hdrivers⟩ := wiring_processInboundNode s c f
      refine .kept (if reply then .writing c else .selecting c) (by simp [hpos]) ?_ ?_ hwiring
      · rw [hpos]
        cases reply <;> rfl
      · simp only [Web.moveTo, hdrivers]
  | outgoing c hpos => exact .kept (.writing c) (by simp [hpos]) (by simp [hpos, Await.conn]) rfl rfl
  | written c hpos => exact .kept (.selecting c) (by simp [hpos]) (by simp [hpos, Await.conn]) rfl rfl
  | lost c hpos =>
      refine .failed ?_
      rcases hpos with hpos | hpos <;> simp [hpos]
  | reconnectHeard c hpos => exact .kept (.closing c) (by simp [hpos]) (by simp [hpos, Await.conn]) rfl rfl
  | closed c hpos => exact .failed (by simp [hpos])
  | woken c hpos => exact .kept (.leaving c) (by simp [hpos]) (by simp [hpos, Await.conn]) rfl rfl
  | wokenIdle hpos => exact .kept .exited (by simp [hpos]) (by simp [hpos, Await.conn]) rfl rfl
  | left c hpos => exact .released .exited (by simp [hpos]) rfl rfl rfl
  | renewed c hpos => exact .kept (.selecting c) (by simp [hpos]) (by simp [hpos, Await.conn]) rfl rfl
  | leaseLost c hpos => exact .released .exited (by simp [hpos]) rfl rfl rfl
  | backoffOver hpos => exact .kept .dialing (by simp [hpos]) (by simp [hpos, Await.conn]) rfl rfl
  | finish hpos => exact .finished hpos (by simp) rfl

/-! ## 2. The invariant -/

/-- At most one driver has not returned, the one in the handle. -/
structure OneDriver (s : Web α) : Prop where
  handled : ∀ d ∈ s.drivers, d.pos ≠ .exited → s.handle = some d.id
  fresh : ∀ d ∈ s.drivers, d.id < s.nextDriver
  distinct : (s.drivers.map Driver.id).Nodup

/-- Whoever holds the connection `conn` has the one pump that receives from the send queue. -/
def Wiring.Feeds (w : Wiring) (conn : Nat) : Prop :=
  w.sendRx = none ∧ (w.sendTx, conn) ∈ w.pumps ∧ ∀ p ∈ w.pumps, p.1 = w.sendTx → p.2 = conn

/-- The receiver is with the session. -/
def Wiring.Home (w : Wiring) : Prop := w.sendRx = some w.sendTx ∧ ∀ p ∈ w.pumps, p.1 ≠ w.sendTx

/-- The receiver is with the driver that holds a connection, or at home if none does. -/
structure Wired (s : Web α) : Prop where
  feeds : ∀ d ∈ s.drivers, ∀ c, d.pos.conn = some c → s.wiring.Feeds c
  home : (∀ d ∈ s.drivers, d.pos.conn = none) → s.wiring.Home
  sendTx_lt : s.sendTx < s.nextChannel
  pumps_lt : ∀ p ∈ s.pumps, p.1 < s.nextChannel

/-- **One live driver with a working send path.** -/
def SendPath (s : Web α) : Prop :=
  ∀ d ∈ s.drivers, ∀ c, d.pos.conn = some c →
    (∀ d' ∈ s.drivers, d'.pos ≠ .exited → d' = d) ∧ s.wiring.Feeds c

theorem conn_live {pos : Await} {c : Nat} (h : pos.conn = some c) : pos ≠ .exited := by
  rintro rfl
  cases h

theorem OneDriver.eq {s : Web α} (h : OneDriver s) {d d' : Driver} (hd : d ∈ s.drivers)
    (hd' : d' ∈ s.drivers) (hid : d.id = d'.id) : d = d' :=
  List.inj_on_of_nodup_map h.distinct hd hd' hid

theorem sendPath_of {s : Web α} (h : OneDriver s) (hwired : Wired s) : SendPath s := by
  intro d hd c hc
  refine ⟨?_, hwired.feeds d hd c hc⟩
  intro d' hd' hlive
  have hhandle := h.handled d' hd' hlive
  rw [h.handled d hd (conn_live hc), Option.some.injEq] at hhandle
  exact h.eq hd' hd hhandle.symm

/-! ## 3. What a driver's step keeps -/

theorem map_id_moveTo (s : Web α) (id : Nat) (pos : Await) :
    (s.moveTo id pos).drivers.map Driver.id = s.drivers.map Driver.id := by
  unfold Web.moveTo
  rw [List.map_map]
  refine List.map_congr_left fun d _ => ?_
  by_cases hid : d.id = id
  · simp [hid]
  · simp [hid]

theorem oneDriver_moved {s s' : Web α} {id : Nat} {pos : Await} (h : OneDriver s)
    (hhandle : s.handle = some id) (hdrivers : s'.drivers = (s.moveTo id pos).drivers)
    (hwiring : s'.handle = s.handle ∧ s'.nextDriver = s.nextDriver) : OneDriver s' := by
  refine ⟨?_, ?_, ?_⟩
  · intro d' hd' hlive
    rw [hdrivers] at hd'
    rcases mem_moveTo.mp hd' with ⟨-, rfl⟩ | ⟨hold, -⟩
    · rw [hwiring.1, hhandle]
    · rw [hwiring.1]
      exact h.handled d' hold hlive
  · intro d' hd'
    rw [hdrivers] at hd'
    rw [hwiring.2]
    rcases mem_moveTo.mp hd' with ⟨⟨d, hd, hid⟩, rfl⟩ | ⟨hold, -⟩
    · exact hid ▸ h.fresh d hd
    · exact h.fresh d' hold
  · rw [hdrivers, map_id_moveTo]
    exact h.distinct

theorem oneDriver_effect {s s' : Web α} {d : Driver} (h : OneDriver s) (hd : d ∈ s.drivers)
    (heffect : Effect s d s') : OneDriver s' := by
  cases heffect with
  | kept pos hlive _ hdrivers hwiring =>
      simp only [Web.wiring, Wiring.mk.injEq] at hwiring
      exact oneDriver_moved h (h.handled d hd hlive) hdrivers ⟨hwiring.1, hwiring.2.1⟩
  | released pos hlive _ hdrivers hwiring =>
      simp only [Web.wiring, Wiring.reset, Wiring.mk.injEq] at hwiring
      exact oneDriver_moved h (h.handled d hd hlive) hdrivers ⟨hwiring.1, hwiring.2.1⟩
  | took conn hlive _ hdrivers hwiring =>
      have hsame : s'.handle = s.handle ∧ s'.nextDriver = s.nextDriver := by
        unfold Wiring.take at hwiring
        split at hwiring <;> simp only [Web.wiring, Wiring.mk.injEq] at hwiring <;>
          exact ⟨hwiring.1, hwiring.2.1⟩
      exact oneDriver_moved h (h.handled d hd hlive) hdrivers hsame
  | finished _ hdrivers hwiring =>
      simp only [Web.wiring, Wiring.mk.injEq] at hwiring
      have hsub : ∀ d' ∈ s'.drivers, d' ∈ s.drivers := by
        intro d' hd'
        rw [hdrivers] at hd'
        exact List.mem_of_mem_filter hd'
      refine ⟨?_, ?_, ?_⟩
      · intro d' hd' hlive
        rw [hwiring.1]
        exact h.handled d' (hsub d' hd') hlive
      · intro d' hd'
        rw [hwiring.2.1]
        exact h.fresh d' (hsub d' hd')
      · rw [hdrivers]
        exact h.distinct.sublist (List.filter_sublist.map Driver.id)

/-- Where none but the driver at work can hold a connection, the others do not. -/
theorem others_idle {s : Web α} (h : OneDriver s) {d d' : Driver} (hd : d ∈ s.drivers)
    (hlive : d.pos ≠ .exited) (hd' : d' ∈ s.drivers) (hid : d'.id ≠ d.id) :
    d'.pos.conn = none := by
  cases hconn : d'.pos.conn with
  | none => rfl
  | some c =>
      have hhandle := h.handled d' hd' (conn_live hconn)
      rw [h.handled d hd hlive, Option.some.injEq] at hhandle
      exact absurd hhandle.symm hid

/-- The same wiring, and the same connections held. -/
theorem wired_same {s s' : Web α} (h : Wired s) (hwiring : s'.wiring = s.wiring)
    (hheld : ∀ d' ∈ s'.drivers, ∀ c, d'.pos.conn = some c → ∃ d ∈ s.drivers, d.pos.conn = some c)
    (hkept : ∀ d ∈ s.drivers, ∀ c, d.pos.conn = some c → ∃ d' ∈ s'.drivers, d'.pos.conn = some c) :
    Wired s' := by
  have hsame := hwiring
  simp only [Web.wiring, Wiring.mk.injEq] at hsame
  obtain ⟨-, -, htx, -, hnext, hpumps⟩ := hsame
  refine ⟨?_, ?_, by rw [htx, hnext]; exact h.sendTx_lt, by rw [hpumps, hnext]; exact h.pumps_lt⟩
  · intro d' hd' c hc
    obtain ⟨d, hd, hconn⟩ := hheld d' hd' c hc
    rw [hwiring]
    exact h.feeds d hd c hconn
  · intro hnone
    rw [hwiring]
    refine h.home fun d hd => ?_
    cases hc : d.pos.conn with
    | none => rfl
    | some c =>
        obtain ⟨d', hd', hconn⟩ := hkept d hd c hc
        exact absurd ((hnone d' hd').symm.trans hconn) nofun

/-- The driver that held the connection lets go of it. -/
theorem wired_released {s s' : Web α} {d : Driver} {pos : Await} (hone : OneDriver s) (h : Wired s)
    (hd : d ∈ s.drivers) (hlive : d.pos ≠ .exited) (hconn : pos.conn = none)
    (hdrivers : s'.drivers = (s.moveTo d.id pos).drivers) (hwiring : s'.wiring = s.wiring.reset) :
    Wired s' := by
  have hsame := hwiring
  simp only [Web.wiring, Wiring.reset, Wiring.mk.injEq] at hsame
  obtain ⟨-, -, htx, -, hnext, hpumps⟩ := hsame
  refine ⟨?_, ?_, by rw [htx, hnext]; exact Nat.lt_succ_self _, ?_⟩
  · intro d' hd' c hc
    rw [hdrivers] at hd'
    rcases mem_moveTo.mp hd' with ⟨-, rfl⟩ | ⟨hold, hid⟩
    · rw [hconn] at hc
      cases hc
    · rw [others_idle hone hd hlive hold hid] at hc
      cases hc
  · intro _
    rw [hwiring]
    refine ⟨rfl, ?_⟩
    intro p hp
    exact Nat.ne_of_lt (h.pumps_lt p hp)
  · intro p hp
    rw [hpumps] at hp
    rw [hnext]
    exact Nat.lt_succ_of_lt (h.pumps_lt p hp)

/-- A driver takes the receiver for its new connection. -/
theorem wired_took {s s' : Web α} {d : Driver} {conn : Nat} (hone : OneDriver s) (h : Wired s)
    (hd : d ∈ s.drivers) (hlive : d.pos ≠ .exited) (hbefore : d.pos.conn = none)
    (hdrivers : s'.drivers = (s.moveTo d.id (.selecting conn)).drivers)
    (hwiring : s'.wiring = s.wiring.take conn) : Wired s' := by
  -- nobody held a connection, so the receiver was at home
  have hidle : ∀ d' ∈ s.drivers, d'.pos.conn = none := by
    intro d' hd'
    by_cases hid : d'.id = d.id
    · rw [hone.eq hd' hd hid]
      exact hbefore
    · exact others_idle hone hd hlive hd' hid
  obtain ⟨hrx, hfar⟩ := h.home hidle
  unfold Wiring.take at hwiring
  rw [hrx] at hwiring
  have hsame := hwiring
  simp only [Web.wiring, Wiring.mk.injEq] at hsame
  obtain ⟨-, -, htx, -, hnext, hpumps⟩ := hsame
  refine ⟨?_, ?_, by rw [htx, hnext]; exact h.sendTx_lt, ?_⟩
  · intro d' hd' c hc
    rw [hdrivers] at hd'
    rcases mem_moveTo.mp hd' with ⟨-, rfl⟩ | ⟨hold, -⟩
    · cases hc
      rw [hwiring]
      refine ⟨rfl, List.mem_append_right _ (List.mem_singleton.mpr rfl), ?_⟩
      intro p hp hp1
      rcases List.mem_append.mp hp with hold | hnew
      · exact absurd hp1 (hfar p hold)
      · rw [List.mem_singleton.mp hnew]
    · rw [hidle d' hold] at hc
      cases hc
  · intro hnone
    have hself := hnone ⟨d.id, .selecting conn, false, false⟩
      (by rw [hdrivers]; exact mem_moveTo.mpr (.inl ⟨⟨d, hd, rfl⟩, rfl⟩))
    cases hself
  · intro p hp
    rw [hpumps] at hp
    rw [hnext]
    rcases List.mem_append.mp hp with hold | hnew
    · exact h.pumps_lt p hold
    · rw [List.mem_singleton.mp hnew]
      exact h.sendTx_lt

theorem wired_effect {s s' : Web α} {d : Driver} (hone : OneDriver s) (h : Wired s)
    (hd : d ∈ s.drivers) (heffect : Effect s d s') : Wired s' := by
  cases heffect with
  | kept pos _ hconn hdrivers hwiring =>
      refine wired_same h hwiring (fun d' hd' c hc => ?_) fun d' hd' c hc => ?_
      · rw [hdrivers] at hd'
        rcases mem_moveTo.mp hd' with ⟨-, rfl⟩ | ⟨hold, -⟩
        · exact ⟨d, hd, hconn.symm.trans hc⟩
        · exact ⟨d', hold, hc⟩
      · rw [hdrivers]
        by_cases hid : d'.id = d.id
        · rw [hone.eq hd' hd hid] at hc
          exact ⟨_, mem_moveTo.mpr (.inl ⟨⟨d, hd, rfl⟩, rfl⟩), hconn.trans hc⟩
        · exact ⟨d', mem_moveTo.mpr (.inr ⟨hd', hid⟩), hc⟩
  | released pos hlive hconn hdrivers hwiring =>
      exact wired_released hone h hd hlive hconn hdrivers hwiring
  | took conn hlive hbefore hdrivers hwiring =>
      exact wired_took hone h hd hlive hbefore hdrivers hwiring
  | finished hpos hdrivers hwiring =>
      refine wired_same h hwiring (fun d' hd' c hc => ?_) fun d' hd' c hc => ?_
      · rw [hdrivers] at hd'
        exact ⟨d', List.mem_of_mem_filter hd', hc⟩
      · have hid : d'.id ≠ d.id := by
          intro hid
          rw [hone.eq hd' hd hid, hpos] at hc
          cases hc
        rw [hdrivers]
        exact ⟨d', List.mem_filter.mpr ⟨hd', by simpa using hid⟩, hc⟩

/-! ## 4. What a call keeps -/

/-- The same wiring, and the same drivers at the same awaits. -/
structure Alike (s s' : Web α) : Prop where
  wiring : s'.wiring = s.wiring
  drivers : s'.drivers.map (fun d => (d.id, d.pos)) = s.drivers.map fun d => (d.id, d.pos)

theorem Alike.mem {s s' : Web α} (h : Alike s s') {d' : Driver} (hd' : d' ∈ s'.drivers) :
    ∃ d ∈ s.drivers, d.id = d'.id ∧ d.pos = d'.pos := by
  have hmem : (d'.id, d'.pos) ∈ s.drivers.map fun d => (d.id, d.pos) := by
    rw [← h.drivers]
    exact List.mem_map_of_mem hd'
  obtain ⟨d, hd, heq⟩ := List.mem_map.mp hmem
  exact ⟨d, hd, (Prod.mk.inj heq).1, (Prod.mk.inj heq).2⟩

theorem Alike.symm {s s' : Web α} (h : Alike s s') : Alike s' s := ⟨h.wiring.symm, h.drivers.symm⟩

theorem oneDriver_alike {s s' : Web α} (halike : Alike s s') (h : OneDriver s) : OneDriver s' := by
  have hsame := halike.wiring
  simp only [Web.wiring, Wiring.mk.injEq] at hsame
  refine ⟨?_, ?_, ?_⟩
  · intro d' hd' hlive
    obtain ⟨d, hd, hid, hpos⟩ := halike.mem hd'
    rw [hsame.1, ← hid]
    exact h.handled d hd (hpos ▸ hlive)
  · intro d' hd'
    obtain ⟨d, hd, hid, -⟩ := halike.mem hd'
    rw [hsame.2.1, ← hid]
    exact h.fresh d hd
  · have hids : s'.drivers.map Driver.id = s.drivers.map Driver.id := by
      have hpairs := congrArg (List.map Prod.fst) halike.drivers
      rwa [List.map_map, List.map_map] at hpairs
    rw [hids]
    exact h.distinct

theorem wired_alike {s s' : Web α} (halike : Alike s s') (h : Wired s) : Wired s' := by
  refine wired_same h halike.wiring (fun d' hd' c hc => ?_) fun d hd c hc => ?_
  · obtain ⟨d, hd, -, hpos⟩ := halike.mem hd'
    exact ⟨d, hd, hpos ▸ hc⟩
  · obtain ⟨d', hd', -, hpos⟩ := halike.symm.mem hd
    exact ⟨d', hd', hpos ▸ hc⟩

/-- No driver holds a connection. -/
def Idle (s : Web α) : Prop := ∀ d ∈ s.drivers, d.pos.conn = none

instance (s : Web α) : Decidable (Idle s) := inferInstanceAs (Decidable (∀ d ∈ s.drivers, _))

theorem idle_alike {s s' : Web α} (halike : Alike s s') (h : Idle s) : Idle s' := by
  intro d' hd'
  obtain ⟨d, hd, -, hpos⟩ := halike.mem hd'
  exact hpos ▸ h d hd

/-- A driver that is cut has not returned. -/
theorem mem_abortHandle {s : Web α} {d : Driver} :
    d ∈ s.abortHandle.drivers ↔ d ∈ s.drivers ∧ (s.handle ≠ some d.id ∨ d.pos = .exited) := by
  simp [Web.abortHandle]

theorem abortHandle_exited {s : Web α} (h : OneDriver s) {d : Driver}
    (hd : d ∈ s.abortHandle.drivers) : d ∈ s.drivers ∧ d.pos = .exited := by
  obtain ⟨hmem, hor⟩ := mem_abortHandle.mp hd
  refine ⟨hmem, ?_⟩
  by_contra hlive
  rcases hor with hne | hpos
  · exact hne (h.handled d hmem hlive)
  · exact hlive hpos

theorem oneDriver_abortTask {s : Web α} (h : OneDriver s) : OneDriver s.abortTask := by
  refine ⟨?_, ?_, h.distinct.sublist (List.filter_sublist.map Driver.id)⟩
  · intro d hd hlive
    exact absurd (abortHandle_exited h hd).2 hlive
  · intro d hd
    exact h.fresh d (abortHandle_exited h hd).1

theorem wired_abortTask {s : Web α} (hone : OneDriver s) (h : Wired s) (hidle : Idle s) :
    Wired s.abortTask ∧ Idle s.abortTask := by
  have hidle' : Idle s.abortTask := fun d hd => by rw [(abortHandle_exited hone hd).2]; rfl
  refine ⟨⟨?_, fun _ => h.home hidle, h.sendTx_lt, h.pumps_lt⟩, hidle'⟩
  intro d hd c hc
  rw [hidle' d hd] at hc
  cases hc

theorem oneDriver_spawn {s : Web α} (h : OneDriver s) : OneDriver s.spawnDriver := by
  refine ⟨?_, ?_, ?_⟩
  · intro d hd hlive
    rcases List.mem_append.mp hd with hold | hnew
    · exact absurd (abortHandle_exited h hold).2 hlive
    · rw [List.mem_singleton.mp hnew]
      rfl
  · intro d hd
    rcases List.mem_append.mp hd with hold | hnew
    · exact Nat.lt_succ_of_lt (h.fresh d (abortHandle_exited h hold).1)
    · rw [List.mem_singleton.mp hnew]
      exact Nat.lt_succ_self s.nextDriver
  · simp only [Web.spawnDriver, List.map_append, List.map_cons, List.map_nil]
    refine (h.distinct.sublist (List.filter_sublist.map Driver.id)).append
      (List.nodup_singleton _) ?_
    intro id hold hnew
    obtain ⟨d, hd, rfl⟩ := List.mem_map.mp hold
    exact Nat.ne_of_lt (h.fresh d (abortHandle_exited h hd).1) (List.mem_singleton.mp hnew)

theorem wired_spawn {s : Web α} (hone : OneDriver s) (h : Wired s) (hidle : Idle s) :
    Wired s.spawnDriver := by
  have hidle' : Idle s.spawnDriver := by
    intro d hd
    rcases List.mem_append.mp hd with hold | hnew
    · rw [(abortHandle_exited hone hold).2]
      rfl
    · rw [List.mem_singleton.mp hnew]
      rfl
  refine ⟨?_, fun _ => h.home hidle, h.sendTx_lt, h.pumps_lt⟩
  intro d hd c hc
  rw [hidle' d hd] at hc
  cases hc

theorem connect_oneDriver {s : Web α} (granted : Bool) (h : OneDriver s) :
    OneDriver (s.connect granted) := by
  unfold Web.connect
  split
  · exact h
  · split
    · have halike : Alike s (({ s with waBlocked := false, expectDisconnect := false }.setStatus
          .connecting).emit .connecting) := ⟨rfl, rfl⟩
      exact oneDriver_spawn (oneDriver_alike halike h)
    · have halike : Alike s { s with waBlocked := false, expectDisconnect := false } := ⟨rfl, rfl⟩
      exact oneDriver_alike halike h

/-- `connect`, past its check, while no driver holds a connection. -/
theorem connect_wired {s : Web α} (granted : Bool) (hone : OneDriver s) (h : Wired s)
    (hidle : s.guarded = false → Idle s) : Wired (s.connect granted) := by
  unfold Web.connect
  split
  · exact h
  · next hfree =>
      split
      · have halike : Alike s (({ s with waBlocked := false, expectDisconnect := false }.setStatus
            .connecting).emit .connecting) := ⟨rfl, rfl⟩
        exact wired_spawn (oneDriver_alike halike hone) (wired_alike halike h)
          (idle_alike halike (hidle (by simpa using hfree)))
      · have halike : Alike s { s with waBlocked := false, expectDisconnect := false } := ⟨rfl, rfl⟩
        exact wired_alike halike h

theorem requestReconnect_alike (s : Web α) : Alike s s.requestReconnect := by
  refine ⟨rfl, ?_⟩
  unfold Web.requestReconnect
  rw [List.map_map]
  refine List.map_congr_left fun d _ => ?_
  simp only [Function.comp_apply]
  split <;> rfl

theorem logout_alike (s : Web α) : Alike s s.logout := by
  refine ⟨rfl, ?_⟩
  unfold Web.logout Web.notifyLogout
  rw [List.map_map]
  refine List.map_congr_left fun d _ => ?_
  simp only [Function.comp_apply]
  split <;> rfl

theorem markReady_alike (s : Web α) : Alike s s.markReady := by
  unfold Web.markReady
  split <;> exact ⟨rfl, rfl⟩

/-- The call cuts a driver, if one can be cut, or starts one. -/
def Restarts (s : Web α) : Call α → Prop
  | .connect _ => s.guarded = false
  | .reconnect _ => s.reconnectCanBounce = false
  | _ => False

instance (s : Web α) : (e : Call α) → Decidable (Restarts s e)
  | .connect _ => inferInstanceAs (Decidable (s.guarded = false))
  | .reconnect _ => inferInstanceAs (Decidable (s.reconnectCanBounce = false))
  | .rekey | .logout | .enqueue _ | .pump _ | .deadline | .collectionSynced .. | .driver .. =>
      inferInstanceAs (Decidable False)

/-- No driver is cut while it holds a connection. -/
def Uncut (s : Web α) (e : Call α) : Prop := Restarts s e → Idle s

instance (s : Web α) (e : Call α) : Decidable (Uncut s e) :=
  inferInstanceAs (Decidable (_ → _))

theorem reconnect_oneDriver {s : Web α} (granted : Bool) (h : OneDriver s) :
    OneDriver (s.reconnect granted) := by
  unfold Web.reconnect
  split
  · exact oneDriver_alike (requestReconnect_alike s) h
  · split
    · have halike : Alike s.abortTask (s.abortTask.setStatus .disconnected) := ⟨rfl, rfl⟩
      exact connect_oneDriver granted (oneDriver_alike halike (oneDriver_abortTask h))
    · exact connect_oneDriver granted h

theorem reconnect_wired {s : Web α} (granted : Bool) (hone : OneDriver s) (h : Wired s)
    (hidle : s.reconnectCanBounce = false → Idle s) : Wired (s.reconnect granted) := by
  unfold Web.reconnect
  split
  · exact wired_alike (requestReconnect_alike s) h
  · next hbounce =>
      have hidle' : Idle s := hidle (by simpa using hbounce)
      split
      · obtain ⟨hwired, hnone⟩ := wired_abortTask hone h hidle'
        have halike : Alike s.abortTask (s.abortTask.setStatus .disconnected) := ⟨rfl, rfl⟩
        exact connect_wired granted (oneDriver_alike halike (oneDriver_abortTask hone))
          (wired_alike halike hwired) fun _ => idle_alike halike hnone
      · exact connect_wired granted hone h fun _ => hidle'

/-- All other calls leave the wiring and the drivers' awaits alone. -/
theorem step_alike {s s' : Web α} {e : Call α} (hstep : s.step e = some s') :
    Alike s s' ∨ (∃ granted, e = .connect granted) ∨ (∃ granted, e = .reconnect granted) ∨
      ∃ id e', e = .driver id e' ∧ ∃ d ∈ s.drivers, s.driverStep d e' = some s' := by
  cases e with
  | connect granted => exact .inr (.inl ⟨granted, rfl⟩)
  | reconnect granted => exact .inr (.inr (.inl ⟨granted, rfl⟩))
  | rekey =>
      cases hstep
      exact .inl (requestReconnect_alike s)
  | logout =>
      cases hstep
      exact .inl (logout_alike s)
  | enqueue op =>
      cases hstep
      exact .inl ⟨rfl, rfl⟩
  | pump p =>
      simp only [Web.step] at hstep
      split at hstep
      · obtain ⟨taken, -, rfl⟩ := Option.map_eq_some_iff.mp hstep
        exact .inl ⟨rfl, rfl⟩
      · cases hstep
  | deadline =>
      simp only [Web.step] at hstep
      split at hstep
      · cases hstep
      · cases hstep
        have halike := markReady_alike s
        exact .inl ⟨halike.wiring, halike.drivers⟩
  | collectionSynced conn name =>
      simp only [Web.step] at hstep
      split at hstep
      · cases hstep
        unfold Web.markCollectionSynced
        split
        · have halike := markReady_alike (s.marked conn name)
          exact .inl ⟨halike.wiring, halike.drivers⟩
        · exact .inl ⟨rfl, rfl⟩
      · cases hstep
  | driver id e =>
      obtain ⟨d, hfind, hdriver⟩ := Option.bind_eq_some_iff.mp hstep
      exact .inr (.inr (.inr ⟨id, e, rfl, d, List.mem_of_find?_eq_some hfind, hdriver⟩))

/-- **At most one driver lives**, whatever is called. -/
theorem step_oneDriver {s s' : Web α} {e : Call α} (h : OneDriver s)
    (hstep : s.step e = some s') : OneDriver s' := by
  rcases step_alike hstep with halike | ⟨granted, rfl⟩ | ⟨granted, rfl⟩ |
    ⟨-, e', -, d, hd, hdriver⟩
  · exact oneDriver_alike halike h
  · cases hstep
    exact connect_oneDriver granted h
  · cases hstep
    exact reconnect_oneDriver granted h
  · exact oneDriver_effect h hd (driverStep_effect hdriver)

theorem step_wired {s s' : Web α} {e : Call α} (hone : OneDriver s) (h : Wired s)
    (huncut : Uncut s e) (hstep : s.step e = some s') : Wired s' := by
  rcases step_alike hstep with halike | ⟨granted, rfl⟩ | ⟨granted, rfl⟩ |
    ⟨-, e', -, d, hd, hdriver⟩
  · exact wired_alike halike h
  · cases hstep
    exact connect_wired granted hone h huncut
  · cases hstep
    exact reconnect_wired granted hone h huncut
  · exact wired_effect hone h hd (driverStep_effect hdriver)

/-! ## 5. Runs -/

theorem oneDriver_new (status : SessionStatus) : OneDriver (Web.new (α := α) status) :=
  ⟨fun _ hd => (nomatch hd), fun _ hd => (nomatch hd), List.nodup_nil⟩

theorem wired_new (status : SessionStatus) : Wired (Web.new (α := α) status) :=
  ⟨fun _ hd => (nomatch hd), fun _ => ⟨rfl, fun _ hp => (nomatch hp)⟩, Nat.zero_lt_one,
    fun _ hp => (nomatch hp)⟩

/-- What a pump takes from the queue that `enqueue_send` fills goes to the connection in use. -/
theorem pump_ships {s s' : Web α} (h : SendPath s) {d : Driver} (hd : d ∈ s.drivers) {c : Nat}
    (hc : d.pos.conn = some c) {p : Nat × Nat} (hp : p.1 = s.sendTx)
    (hstep : s.step (.pump p) = some s') : ∃ op, s'.shipped = s.shipped ++ [(c, op)] := by
  simp only [Web.step] at hstep
  split at hstep
  · next hmem =>
      obtain ⟨taken, -, rfl⟩ := Option.map_eq_some_iff.mp hstep
      obtain ⟨-, -, honly⟩ := (h d hd c hc).2
      exact ⟨taken.1, by rw [honly p hmem hp]⟩
  · cases hstep

/-- **The send path works in every run in which no driver is cut while it holds a connection.** -/
theorem send_path_kept (status : SessionStatus) (calls : List (Call α)) (s : Web α)
    (huncut : Meets Web.step Uncut (Web.new status) calls)
    (hrun : runFrom Web.step (Web.new status) calls = some s) :
    SendPath s ∧ ∀ d ∈ s.drivers, ∀ c, d.pos.conn = some c →
      ∀ p s', p.1 = s.sendTx → s.step (.pump p) = some s' →
        ∃ op, s'.shipped = s.shipped ++ [(c, op)] := by
  have hkept : OneDriver s ∧ Wired s := by
    refine run_invariant (I := fun s => OneDriver s ∧ Wired s) ?_
      ⟨oneDriver_new status, wired_new status⟩ huncut hrun
    intro t e t' ht hcond hstep
    exact ⟨step_oneDriver ht.1 hstep, step_wired ht.1 ht.2 hcond hstep⟩
  have hpath := sendPath_of hkept.1 hkept.2
  exact ⟨hpath, fun d hd c hc p s' hp hstep => pump_ships hpath hd hc hp hstep⟩

namespace Sample

/-- A connect, and the handshake of its driver. -/
def opened (id : Nat) : List (Call Nat) :=
  [.connect true, .driver id (.start true), .driver id (.handshakeDone [])]

/-- The first connection fails after login, and its driver comes back with another. -/
def dropped : List (Call Nat) :=
  opened 0 ++ [.driver 0 (.frame .success false), .driver 0 .lost, .driver 0 .backoffOver,
    .driver 0 (.handshakeDone []), .enqueue 7]

end Sample

theorem send_path_kept_dropped :
    ∃ s, runFrom Web.step (Web.new .pending) Sample.dropped = some s ∧ SendPath s ∧
      s.drivers.map Driver.pos = [.selecting 1] ∧ s.wiring.Feeds 1 := by
  have hrun : ∃ s, runFrom Web.step (Web.new .pending) Sample.dropped = some s := ⟨_, rfl⟩
  obtain ⟨s, hrun⟩ := hrun
  have hpath := (send_path_kept .pending Sample.dropped s (by decide) hrun).1
  cases hrun
  exact ⟨_, rfl, hpath, rfl, (hpath _ (List.mem_singleton.mpr rfl) 1 rfl).2⟩

/-- **A second `connect` while the QR code is shown** cuts the driver: the pump keeps the receiver,
    and what is sent goes to a connection that is gone. -/
theorem send_path_broken :
    ∃ s, runFrom Web.step (Web.new .pending)
        (Sample.opened 0 ++ Sample.opened 1 ++ [.enqueue 7, .pump (0, 0)]) = some s ∧
      ¬SendPath s ∧ s.drivers.map Driver.pos = [.selecting 1] ∧ s.shipped = [(0, 7)] := by
  refine ⟨_, rfl, ?_, rfl, rfl⟩
  intro hpath
  obtain ⟨-, -, honly⟩ := (hpath _ (List.mem_singleton.mpr rfl) 1 rfl).2
  exact absurd (honly (0, 0) (List.mem_singleton.mpr rfl) rfl) (by decide)

end Ruwa.Session
