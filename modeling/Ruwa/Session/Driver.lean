/-
  File:      Ruwa/Session/Driver.lean
  Subject:   THE DRIVER OF A WEB SESSION (`session.rs`: `connect`, `reconnect`, `logout`,
             `run_with_reconnect`, `run_connection`, `begin_sync`, `mark_ready`), with what the
             session shares with it.

  A driver is a task. Between two awaits it runs undisturbed, and `abort` takes effect at an
  await: one step here is a call of the API, a timer, or what a driver does from one await to the
  next. What arrives from the server is free, and so is what a lease or a proxy answers.

  * `Web` -- the session: its status, its flags, its send queue, its sync phase, its drivers;
  * `Await` -- the awaits at which a driver can be found, with the connection it holds there;
  * `Web.step` -- the steps; `driverStep_cases` takes those of a driver apart.

  The shutdown of the process is left out.
-/
import Ruwa.Library.Run

namespace Ruwa.Session

open Ruwa.Library

/-! ## 1. The session -/

inductive SessionStatus
  | pending
  | pendingOnboarding
  | connecting
  | awaitingQr
  | syncing
  | connected
  | disconnected
  | proxyError
  | loggedOut
  | blocked
  deriving DecidableEq

/-- The events of a session's life; those about messages and calls are left out. -/
inductive SessionEvent
  | connecting
  | paired
  | syncing
  | connected
  | disconnected
  | loggedOut
  deriving DecidableEq

/-- Where a driver waits. -/
inductive Await
  /-- Spawned, and not begun. -/
  | spawned
  /-- `connect_wa` and `do_handshake`. -/
  | dialing
  /-- In the select loop of a connection. -/
  | selecting (conn : Nat)
  /-- In a branch of the loop, until the socket has taken a frame. -/
  | writing (conn : Nat)
  /-- In the branch of a requested reconnect: `send_close`. -/
  | closing (conn : Nat)
  /-- In the branch of a logout: `remove-companion-device` is sent. -/
  | leaving (conn : Nat)
  | backoff
  /-- `run_with_reconnect` has returned, and `lease_release` is left. -/
  | exited
  deriving DecidableEq

/-- The connection whose `run_connection` has not come to its cleanup yet. -/
def Await.conn : Await → Option Nat
  | .selecting c => some c
  | .writing c => some c
  | .closing c => some c
  | .leaving c => some c
  | _ => none

/-- A driver; a wake-up is lost when it takes another branch first. -/
structure Driver where
  id : Nat
  pos : Await
  logoutHeard : Bool
  reconnectHeard : Bool
  deriving DecidableEq

/-- The session, for send operations of type `α`. -/
structure Web (α : Type) where
  status : SessionStatus
  events : List SessionEvent
  /-- `task_handle`. -/
  handle : Option Nat
  drivers : List Driver
  nextDriver : Nat
  nextConn : Nat
  socketLive : Bool
  restartRequired : Bool
  reachedSuccess : Bool
  expectDisconnect : Bool
  waBlocked : Bool
  /-- The channel that `send_tx` sends to. -/
  sendTx : Nat
  /-- `send_rx`: the channel it receives from, unless a pump has taken it. -/
  sendRx : Option Nat
  nextChannel : Nat
  /-- The pumps: the channel each receives from, the connection its dispatcher writes to. -/
  pumps : List (Nat × Nat)
  /-- What is in the channels, oldest first. -/
  queued : List (Nat × α)
  /-- What pumps have handed to their dispatchers. -/
  shipped : List (Nat × α)
  /-- `iq_client`: the connection of its dispatcher. -/
  iqClient : Option Nat
  syncReady : Bool
  /-- Each collection that is marked, and the connection whose task marked it. -/
  syncedCollections : List (String × Nat)
  /-- The 30 s timer, and the connection that armed it. -/
  syncDeadline : Option Nat

variable {α : Type}

/-- A session that was just created or loaded. -/
def Web.new (status : SessionStatus) : Web α where
  status := status
  events := []
  handle := none
  drivers := []
  nextDriver := 0
  nextConn := 0
  socketLive := false
  restartRequired := false
  reachedSuccess := false
  expectDisconnect := false
  waBlocked := false
  sendTx := 0
  sendRx := some 0
  nextChannel := 1
  pumps := []
  queued := []
  shipped := []
  iqClient := none
  syncReady := false
  syncedCollections := []
  syncDeadline := none

/-! ## 2. What the functions of the session do -/

namespace Web

def setStatus (s : Web α) (status : SessionStatus) : Web α := { s with status := status }

def emit (s : Web α) (ev : SessionEvent) : Web α := { s with events := s.events ++ [ev] }

/-- `reset_send_queue`. -/
def resetSendQueue (s : Web α) : Web α :=
  { s with sendTx := s.nextChannel, sendRx := some s.nextChannel, nextChannel := s.nextChannel + 1 }

/-- The end of `run_connection`, on every path. -/
def cleanup (s : Web α) : Web α :=
  { s.resetSendQueue with socketLive := false, iqClient := none }

/-- `enqueue_send`. -/
def enqueueSend (s : Web α) (op : α) : Web α := { s with queued := s.queued ++ [(s.sendTx, op)] }

def beginSync (s : Web α) (conn : Nat) : Web α :=
  ({ s with syncReady := false, syncedCollections := [], syncDeadline := some conn }.setStatus
    .syncing).emit .syncing

def markReady (s : Web α) : Web α :=
  if s.syncReady then s
  else ({ s with syncReady := true, syncDeadline := none }.setStatus .connected).emit .connected

end Web

/-- `AppStateCollection::all`. -/
def allCollections : List String :=
  ["critical_block", "critical_unblock_low", "regular", "regular_high", "regular_low"]

namespace Web

/-- Whether every collection is marked. -/
def AllSynced (s : Web α) : Prop :=
  ∀ name ∈ allCollections, name ∈ s.syncedCollections.map Prod.fst

instance (s : Web α) : Decidable s.AllSynced :=
  inferInstanceAs (Decidable (∀ name ∈ allCollections, _))

def marked (s : Web α) (conn : Nat) (name : String) : Web α :=
  { s with syncedCollections := (name, conn) :: s.syncedCollections }

def markCollectionSynced (s : Web α) (conn : Nat) (name : String) : Web α :=
  if (s.marked conn name).AllSynced then (s.marked conn name).markReady else s.marked conn name

/-! ### Drivers -/

/-- The driver comes to its next await; a wake-up it did not take is gone. -/
def moveTo (s : Web α) (id : Nat) (pos : Await) : Web α :=
  { s with drivers := s.drivers.map fun d => if d.id = id then ⟨id, pos, false, false⟩ else d }

/-- `abort` of the task in the handle: it is cut at its await, or has none left. -/
def abortHandle (s : Web α) : Web α :=
  { s with drivers := s.drivers.filter fun d => s.handle ≠ some d.id ∨ d.pos = .exited }

/-- `abort_task`. -/
def abortTask (s : Web α) : Web α := { s.abortHandle with handle := none, socketLive := false }

/-- `tokio::spawn` of a driver and `set_task_handle`. -/
def spawnDriver (s : Web α) : Web α :=
  { s.abortHandle with
    handle := some s.nextDriver
    nextDriver := s.nextDriver + 1
    drivers := s.abortHandle.drivers ++ [⟨s.nextDriver, .spawned, false, false⟩] }

/-- `request_reconnect`: heard in the select loop only. -/
def requestReconnect (s : Web α) : Web α :=
  { s with
    restartRequired := true
    drivers := s.drivers.map fun d =>
      match d.pos with
      | .selecting _ => { d with reconnectHeard := true }
      | _ => d }

/-- `logout_notify.notify_waiters`: heard in the select loop and in the backoff. -/
def notifyLogout (s : Web α) : Web α :=
  { s with
    drivers := s.drivers.map fun d =>
      match d.pos with
      | .selecting _ => { d with logoutHeard := true }
      | .backoff => { d with logoutHeard := true }
      | _ => d }

/-! ### The API -/

/-- `connect` returns at once. -/
def guarded (s : Web α) : Bool :=
  s.status = .connecting ∨ s.status = .connected ∨ s.status = .syncing

/-- `status_is_live`. -/
def statusIsLive (s : Web α) : Bool :=
  s.status = .connected ∨ s.status = .connecting ∨ s.status = .syncing ∨ s.status = .awaitingQr

/-- `connect`; `granted` is the answer of `try_acquire_lease`. -/
def connect (s : Web α) (granted : Bool) : Web α :=
  if s.guarded then s
  else if granted then
    ({ s with waBlocked := false, expectDisconnect := false }.setStatus .connecting).emit
      .connecting |>.spawnDriver
  else { s with waBlocked := false, expectDisconnect := false }

/-- `reconnect_can_bounce`. -/
def reconnectCanBounce (s : Web α) : Bool := s.socketLive && s.statusIsLive

def reconnect (s : Web α) (granted : Bool) : Web α :=
  if s.reconnectCanBounce then s.requestReconnect
  else if s.statusIsLive then (s.abortTask.setStatus .disconnected).connect granted
  else s.connect granted

def logout (s : Web α) : Web α := ((s.setStatus .loggedOut).emit .loggedOut).notifyLogout

/-! ### `run_with_reconnect` and `run_connection` -/

/-- Back to the head of the loop, and into `run_connection`. -/
def redial (s : Web α) (id : Nat) : Web α :=
  { (s.setStatus .connecting).emit .connecting with reachedSuccess := false }.moveTo id .dialing

/-- `run_connection` returned an error: what it does on its way out, and what the loop does then. -/
def failed (s : Web α) (id : Nat) : Web α :=
  let s := (s.cleanup.setStatus .disconnected).emit .disconnected
  if s.expectDisconnect then
    let s := { s with expectDisconnect := false }
    if s.waBlocked then ({ s with waBlocked := false }.setStatus .blocked).moveTo id .exited
    else (s.setStatus .disconnected).moveTo id .exited
  else if s.status = .loggedOut then s.moveTo id .exited
  else if s.restartRequired then { s with restartRequired := false }.redial id
  else s.moveTo id .backoff

/-- The handshake is done: the transport is up, and the loop begins. `drained` is what the table
    holds of earlier runs. -/
def handshakeDone (s : Web α) (id : Nat) (drained : List α) : Web α :=
  let conn := s.nextConn
  let s := ({ s with nextConn := conn + 1 }.setStatus .awaitingQr).emit .connecting
  let s := { s with iqClient := some conn }
  let s :=
    match s.sendRx with
    | none => s
    | some ch =>
        { drained.foldl enqueueSend { s with sendRx := none } with pumps := s.pumps ++ [(ch, conn)] }
  { s with socketLive := true }.moveTo id (.selecting conn)

end Web

/-- A frame of the server, by what the session does with it. -/
inductive Frame
  /-- `<success>`. -/
  | success
  /-- A pair-success that is accepted. -/
  | pairSuccess
  /-- `<conflict type="replaced"/>`, or a QR window that nobody used. -/
  | halt
  /-- `<failure>`, or a stream error 401 or 403. -/
  | reject
  /-- Stream error 515, or an idle timeout. -/
  | restart
  | other
  deriving DecidableEq

def Web.processInboundNode (s : Web α) (conn : Nat) : Frame → Web α
  | .success => { s with reachedSuccess := true }.beginSync conn
  | .pairSuccess => (s.emit .paired).beginSync conn
  | .halt => { s with expectDisconnect := true }
  | .reject => { s with waBlocked := true, expectDisconnect := true }
  | .restart => { s with restartRequired := true }
  | .other => s

/-! ## 3. Steps -/

/-- What a driver does from one await to the next. -/
inductive DriverStep (α : Type)
  | start (proxyOk : Bool)
  | dialFailed
  | handshakeDone (drained : List α)
  /-- A frame arrives; with `reply` one is written in return. -/
  | frame (f : Frame) (reply : Bool)
  /-- A node of a pump is written. -/
  | outgoing
  | written
  /-- The socket fails, is closed, or has been idle too long. -/
  | lost
  | reconnectHeard
  | closed
  | logoutHeard
  | left
  /-- `lease_renew`, and its answer. -/
  | heartbeat (granted : Bool)
  | backoffOver
  | finish
  deriving DecidableEq

inductive Call (α : Type)
  | connect (granted : Bool)
  | reconnect (granted : Bool)
  /-- The reconnect after an import. -/
  | rekey
  | logout
  | enqueue (op : α)
  /-- The oldest operation in a pump's channel is handed to its dispatcher. -/
  | pump (p : Nat × Nat)
  | deadline
  /-- A task of a connection marks a collection. -/
  | collectionSynced (conn : Nat) (name : String)
  | driver (id : Nat) (e : DriverStep α)
  deriving DecidableEq

/-- The first operation in a channel, and the others. -/
def takeQueued (ch : Nat) : List (Nat × α) → Option (α × List (Nat × α))
  | [] => none
  | q :: qs =>
      if q.1 = ch then some (q.2, qs)
      else (takeQueued ch qs).map fun (op, rest) => (op, q :: rest)

namespace Web

def driverStep (s : Web α) (d : Driver) : DriverStep α → Option (Web α)
  | .start proxyOk =>
      if d.pos = .spawned then
        some (if proxyOk then { s with reachedSuccess := false }.moveTo d.id .dialing
          else ((s.setStatus .proxyError).emit .disconnected).moveTo d.id .exited)
      else none
  | .dialFailed => if d.pos = .dialing then some (s.failed d.id) else none
  | .handshakeDone drained =>
      if d.pos = .dialing then some (s.handshakeDone d.id drained) else none
  | .frame f reply =>
      match d.pos with
      | .selecting c => some ((s.processInboundNode c f).moveTo d.id
          (if reply then .writing c else .selecting c))
      | _ => none
  | .outgoing =>
      match d.pos with
      | .selecting c => some (s.moveTo d.id (.writing c))
      | _ => none
  | .written =>
      match d.pos with
      | .writing c => some (s.moveTo d.id (.selecting c))
      | _ => none
  | .lost =>
      match d.pos with
      | .selecting _ => some (s.failed d.id)
      | .writing _ => some (s.failed d.id)
      | _ => none
  | .reconnectHeard =>
      match d.pos with
      | .selecting c => if d.reconnectHeard then some (s.moveTo d.id (.closing c)) else none
      | _ => none
  | .closed =>
      match d.pos with
      | .closing _ => some (s.failed d.id)
      | _ => none
  | .logoutHeard =>
      if d.logoutHeard then
        match d.pos with
        | .selecting c => some (s.moveTo d.id (.leaving c))
        | .backoff => some (s.moveTo d.id .exited)
        | _ => none
      else none
  | .left =>
      match d.pos with
      | .leaving _ => some (s.cleanup.moveTo d.id .exited)
      | _ => none
  | .heartbeat granted =>
      match d.pos with
      | .selecting c => some (if granted then s.moveTo d.id (.selecting c)
          else (s.setStatus .disconnected).cleanup.moveTo d.id .exited)
      | _ => none
  | .backoffOver => if d.pos = .backoff then some (s.redial d.id) else none
  | .finish =>
      if d.pos = .exited then some { s with drivers := s.drivers.filter fun d' => d'.id ≠ d.id }
      else none

def step (s : Web α) : Call α → Option (Web α)
  | .connect granted => some (s.connect granted)
  | .reconnect granted => some (s.reconnect granted)
  | .rekey => some s.requestReconnect
  | .logout => some s.logout
  | .enqueue op => some (s.enqueueSend op)
  | .pump p =>
      if p ∈ s.pumps then
        (takeQueued p.1 s.queued).map fun (op, rest) =>
          { s with queued := rest, shipped := s.shipped ++ [(p.2, op)] }
      else none
  | .deadline =>
      match s.syncDeadline with
      | none => none
      | some _ => some { s.markReady with syncDeadline := none }
  | .collectionSynced conn name =>
      if conn < s.nextConn then some (s.markCollectionSynced conn name) else none
  | .driver id e => (s.drivers.find? fun d => decide (d.id = id)).bind fun d => s.driverStep d e

end Web

/-! ## 4. What a driver's step can be -/

/-- The steps of a driver, each with the await it is taken at and the session afterwards. -/
inductive DriverRun (s : Web α) (d : Driver) : DriverStep α → Web α → Prop
  | started (hpos : d.pos = .spawned) :
      DriverRun s d (.start true) ({ s with reachedSuccess := false }.moveTo d.id .dialing)
  | proxyFailed (hpos : d.pos = .spawned) :
      DriverRun s d (.start false)
        (((s.setStatus .proxyError).emit .disconnected).moveTo d.id .exited)
  | dialFailed (hpos : d.pos = .dialing) : DriverRun s d .dialFailed (s.failed d.id)
  | handshakeDone (drained : List α) (hpos : d.pos = .dialing) :
      DriverRun s d (.handshakeDone drained) (s.handshakeDone d.id drained)
  | frame (f : Frame) (reply : Bool) (c : Nat) (hpos : d.pos = .selecting c) :
      DriverRun s d (.frame f reply)
        ((s.processInboundNode c f).moveTo d.id (if reply then .writing c else .selecting c))
  | outgoing (c : Nat) (hpos : d.pos = .selecting c) :
      DriverRun s d .outgoing (s.moveTo d.id (.writing c))
  | written (c : Nat) (hpos : d.pos = .writing c) :
      DriverRun s d .written (s.moveTo d.id (.selecting c))
  | lost (c : Nat) (hpos : d.pos = .selecting c ∨ d.pos = .writing c) :
      DriverRun s d .lost (s.failed d.id)
  | reconnectHeard (c : Nat) (hpos : d.pos = .selecting c) (hheard : d.reconnectHeard = true) :
      DriverRun s d .reconnectHeard (s.moveTo d.id (.closing c))
  | closed (c : Nat) (hpos : d.pos = .closing c) : DriverRun s d .closed (s.failed d.id)
  | woken (c : Nat) (hpos : d.pos = .selecting c) (hheard : d.logoutHeard = true) :
      DriverRun s d .logoutHeard (s.moveTo d.id (.leaving c))
  | wokenIdle (hpos : d.pos = .backoff) (hheard : d.logoutHeard = true) :
      DriverRun s d .logoutHeard (s.moveTo d.id .exited)
  | left (c : Nat) (hpos : d.pos = .leaving c) :
      DriverRun s d .left (s.cleanup.moveTo d.id .exited)
  | renewed (c : Nat) (hpos : d.pos = .selecting c) :
      DriverRun s d (.heartbeat true) (s.moveTo d.id (.selecting c))
  | leaseLost (c : Nat) (hpos : d.pos = .selecting c) :
      DriverRun s d (.heartbeat false) ((s.setStatus .disconnected).cleanup.moveTo d.id .exited)
  | backoffOver (hpos : d.pos = .backoff) : DriverRun s d .backoffOver (s.redial d.id)
  | finish (hpos : d.pos = .exited) :
      DriverRun s d .finish { s with drivers := s.drivers.filter fun d' => d'.id ≠ d.id }

theorem driverStep_cases {s s' : Web α} {d : Driver} {e : DriverStep α}
    (h : s.driverStep d e = some s') : DriverRun s d e s' := by
  cases e with
  | start proxyOk =>
      simp only [Web.driverStep] at h
      split at h <;> cases h
      next hpos =>
        cases proxyOk with
        | true => exact .started hpos
        | false => exact .proxyFailed hpos
  | dialFailed =>
      simp only [Web.driverStep] at h
      split at h <;> cases h
      next hpos => exact .dialFailed hpos
  | handshakeDone drained =>
      simp only [Web.driverStep] at h
      split at h <;> cases h
      next hpos => exact .handshakeDone drained hpos
  | frame f reply =>
      simp only [Web.driverStep] at h
      split at h <;> cases h
      next c hpos => exact .frame f reply c hpos
  | outgoing =>
      simp only [Web.driverStep] at h
      split at h <;> cases h
      next c hpos => exact .outgoing c hpos
  | written =>
      simp only [Web.driverStep] at h
      split at h <;> cases h
      next c hpos => exact .written c hpos
  | lost =>
      simp only [Web.driverStep] at h
      split at h <;> cases h
      · next c hpos => exact .lost c (.inl hpos)
      · next c hpos => exact .lost c (.inr hpos)
  | reconnectHeard =>
      simp only [Web.driverStep] at h
      split at h
      · next c hpos =>
          split at h <;> cases h
          next hheard => exact .reconnectHeard c hpos hheard
      · cases h
  | closed =>
      simp only [Web.driverStep] at h
      split at h <;> cases h
      next c hpos => exact .closed c hpos
  | logoutHeard =>
      simp only [Web.driverStep] at h
      split at h
      · next hheard =>
          split at h <;> cases h
          · next c hpos => exact .woken c hpos hheard
          · next hpos => exact .wokenIdle hpos hheard
      · cases h
  | left =>
      simp only [Web.driverStep] at h
      split at h <;> cases h
      next c hpos => exact .left c hpos
  | heartbeat granted =>
      simp only [Web.driverStep] at h
      split at h <;> cases h
      next c hpos =>
        cases granted with
        | true => exact .renewed c hpos
        | false => exact .leaseLost c hpos
  | backoffOver =>
      simp only [Web.driverStep] at h
      split at h <;> cases h
      next hpos => exact .backoffOver hpos
  | finish =>
      simp only [Web.driverStep] at h
      split at h <;> cases h
      next hpos => exact .finish hpos

end Ruwa.Session
