import Mathlib.Data.Nat.Notation
import Nexal.Spec.TsConnection

/-! The driver tasks of the WebSocket transport (`crates/utils/transport/src/transport.rs`):
`run_accepted_driver` for a socket a server has accepted, `run_client_driver` with `attempt_reconnect` for one a
client has dialled. The branches of a `select!`, the handles of the transport and the clock interleave. Times are
milliseconds; how long `reconnect_delay` waits is left open. -/

namespace Nexal.Driver

structure HeartbeatOptions where
  interval : ℕ
  timeout : ℕ

def HeartbeatOptions.default : HeartbeatOptions := ⟨30000, 10000⟩

structure TransportOptions where
  heartbeat : Option HeartbeatOptions
  /-- `attempts` of the `ReconnectOptions`, where none is no limit -/
  reconnect : Option (Option ℕ)

/-- The task, with the options it was given. -/
inductive Task where
  | accepted (options : TransportOptions)
  | client (options : TransportOptions)

def Task.options : Task → TransportOptions
  | .accepted options | .client options => options

/-- `hb_opts` -/
def Task.hb (task : Task) : HeartbeatOptions := task.options.heartbeat.getD .default

/-- `options.reconnect`, which an accepted socket does not look at. -/
def Task.reconnect : Task → Option (Option ℕ)
  | .accepted _ => none
  | .client options => options.reconnect

inductive Cmd where
  | send (frame : ByteArray)
  | startHeartbeat
  | stopHeartbeat
  | close

inductive TransportEvent where
  | frame (bytes : ByteArray)
  | heartbeatDead
  | disconnected
  | reconnected

/-- What is noted about a run: what the handles put into the channel, what goes over the sockets and what the
driver tells the owner. -/
inductive Entry where
  | queued (frame : ByteArray)
  | socket
  | wrote (frame : ByteArray)
  | ping
  | pong
  | received (frame : ByteArray)
  | event (e : TransportEvent)

inductive Phase where
  | connected
  /-- the delay before an attempt to reconnect -/
  | waiting
  | dialing
  | finished
deriving DecidableEq

structure State where
  now : ℕ
  /-- the flag the handles share -/
  closed : Bool
  /-- frames of calls of `send` that have looked at the flag -/
  sending : List ByteArray
  /-- a call of `close` that has set the flag -/
  closing : Bool
  /-- some handle is left -/
  handles : Bool
  /-- the owner still has the receiver of the events -/
  listening : Bool
  cmds : List Cmd
  phase : Phase
  hbEnabled : Bool
  /-- when the interval ticks next -/
  hbInterval : Option ℕ
  hbDeadline : Option ℕ
  reconnectAttempts : ℕ
  trace : List (ℕ × Entry)

def State.note (s : State) (e : Entry) : State := { s with trace := s.trace ++ [(s.now, e)] }

/-- `evt_tx.send`, whose error is ignored. -/
def State.emit (s : State) (e : TransportEvent) : State := if s.listening then s.note (.event e) else s

section Driver
variable (task : Task)

/-- `make_heartbeat_interval` -/
def makeHeartbeatInterval (enabled : Bool) (now : ℕ) :
    Option ℕ := if enabled then some (now + task.hb.interval) else none

/-- A driver takes up a socket. -/
def State.connect (s : State) : State :=
  { s.note .socket with
    phase := .connected
    hbInterval := makeHeartbeatInterval task s.hbEnabled s.now
    hbDeadline := none }

def init : State :=
  State.connect task ⟨0, false, [], false, true, true, [], .connected, task.options.heartbeat.isSome, none, none, 0, []⟩

/-- The beginning of the loop of `attempt_reconnect`; when it gives up the flag stays as it is. -/
def attemptReconnect (s : State) : State :=
  if task.reconnect.any fun attempts => attempts.all fun max => s.reconnectAttempts < max then
    { s with phase := .waiting, reconnectAttempts := s.reconnectAttempts + 1 }
  else { s.emit .disconnected with phase := .finished }

/-- The socket is gone. -/
def lost (s : State) : State :=
  if task.reconnect.isNone then { s.emit .disconnected with phase := .finished, closed := true }
  else attemptReconnect task s

def finish (s : State) : State := { s with phase := .finished, closed := true }

/-- A frame is written, or the socket turns out to be gone. -/
def write (s : State) (e : Entry) (ok : Bool) : State := if ok then s.note e else lost task s

/-- The next command is taken; `ok` is whether its frame can be written. `None` comes when no handle is left. -/
def onCmd (s : State) (ok : Bool) : Option State :=
  match s.cmds with
  | .send frame :: cmds => some (write task { s with cmds := cmds } (.wrote frame) ok)
  | .startHeartbeat :: cmds =>
    some { s with cmds := cmds, hbEnabled := true, hbInterval := makeHeartbeatInterval task true s.now }
  | .stopHeartbeat :: cmds => some { s with cmds := cmds, hbEnabled := false, hbInterval := none, hbDeadline := none }
  | .close :: cmds => some (finish { s with cmds := cmds })
  | [] => if s.handles then none else some (finish s)

/-- A command that comes during the delay ends it, whatever it is; all but `close` are dropped. -/
def onCmdWaiting (s : State) : Option State :=
  match s.cmds with
  | .close :: cmds => some (finish { s with cmds := cmds })
  | _ :: cmds => some { s with cmds := cmds, phase := .dialing }
  | [] => if s.handles then none else some (finish s)

/-- The tick after one that was due at `due`: `MissedTickBehavior::Skip` keeps to the multiples of the interval. -/
def nextTick (due : ℕ) (now : ℕ) : ℕ := now + task.hb.interval - (now - due) % task.hb.interval

def onTick (s : State) (due : ℕ) (ok : Bool) : State :=
  let s := { s with hbInterval := some (nextTick task due s.now) }
  if ok then { s.note .ping with hbDeadline := some (s.now + task.hb.timeout) } else lost task s

def onDeadline (s : State) : State := { s with hbDeadline := none }.emit .heartbeatDead

/-- What `ws_reader.next` gives. -/
inductive Incoming where
  | binary (bytes : ByteArray)
  | other
  /-- a close frame, an error, or the end of the stream -/
  | ended

variable {ε : Type} (decodeFrame : ByteArray → Except ε Wire.Value)

/-- `ok` is whether a pong can be written back. -/
def onIncoming (s : State) (ok : Bool) : Incoming → State
  | .binary bytes =>
    match Wire.classifyPingPong decodeFrame bytes with
    | some true => if ok then s else lost task s
    | some false => { s.note .pong with hbDeadline := none }
    | none =>
      let s := s.note (.received bytes)
      if s.listening then s.emit (.frame bytes) else finish s
  | .other => s
  | .ended => lost task s

inductive Act where
  | elapse (ms : ℕ)
  /-- the calls of the handles; `send` and `close` look at the flag first and use the channel later -/
  | send (frame : ByteArray)
  | sent (i : ℕ)
  | close
  | closeSent
  | startHeartbeat
  | stopHeartbeat
  | dropHandles
  | dropReceiver
  /-- the branches of the driver -/
  | cmd (ok : Bool)
  | tick (ok : Bool)
  | deadline
  | incoming (msg : Incoming) (ok : Bool)
  | delayOver
  | dialed (ok : Bool)

/-- A command is put into the channel, unless the driver has ended. -/
def State.push (s : State) (c : Cmd) : State :=
  if s.phase = .finished then s
  else
    match c with
    | .send frame => { s.note (.queued frame) with cmds := s.cmds ++ [c] }
    | _ => { s with cmds := s.cmds ++ [c] }

def step (s : State) : Act → Option State
  | .elapse ms => some { s with now := s.now + ms }
  | .send frame =>
    if s.handles then some (if s.closed then s else { s with sending := s.sending ++ [frame] }) else none
  | .sent i => s.sending[i]?.map fun frame => { s with sending := s.sending.eraseIdx i }.push (.send frame)
  | .close => if s.handles then some (if s.closed then s else { s with closed := true, closing := true }) else none
  | .closeSent => if s.closing then some ({ s with closing := false }.push .close) else none
  | .startHeartbeat => if s.handles then some (s.push .startHeartbeat) else none
  | .stopHeartbeat => if s.handles then some (s.push .stopHeartbeat) else none
  | .dropHandles => if s.sending = [] ∧ s.closing = false then some { s with handles := false } else none
  | .dropReceiver => some { s with listening := false }
  | .cmd ok =>
    match s.phase with
    | .connected => onCmd task s ok
    | .waiting => onCmdWaiting s
    | .dialing | .finished => none
  | .tick ok =>
    if s.phase = .connected ∧ s.hbEnabled = true then
      match s.hbInterval with
      | some due => if due ≤ s.now then some (onTick task s due ok) else none
      | none => none
    else none
  | .deadline =>
    if s.phase = .connected ∧ s.hbDeadline.any (· ≤ s.now) then some (onDeadline s) else none
  | .incoming msg ok => if s.phase = .connected then some (onIncoming task decodeFrame s ok msg) else none
  | .delayOver => if s.phase = .waiting then some { s with phase := .dialing } else none
  | .dialed ok =>
    if s.phase = .dialing then
      some (if ok then State.connect task ({ s with reconnectAttempts := 0 }.emit .reconnected) else attemptReconnect task s)
    else none

end Driver

end Nexal.Driver
