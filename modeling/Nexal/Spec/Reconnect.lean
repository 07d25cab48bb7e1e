import Mathlib.Data.Nat.Notation
import Nexal.Lib.Runs

/-! The reconnecting WebSocket transport (`createWebSocketTransport` in
`packages/transport/src/transport.ts`): the handlers of the sockets it has made one after the other, of
their connect timeouts and of its reconnect timers. The browser's part is the order of the events. -/

namespace Nexal.Reconnect

/-- `readyState` -/
inductive Ready where
  | connecting
  | connected
  | closing
  | closed
deriving DecidableEq

/-- A call of `connect`: its socket and the variables of its handlers. -/
structure Socket where
  ready : Ready
  opened : Bool
  failedBeforeOpen : Bool
  /-- the connect timeout is pending -/
  connectTimeout : Bool
  openListener : Bool
  errorListener : Bool
deriving DecidableEq

def Socket.new : Socket := ⟨.connecting, false, false, true, true, true⟩

/-- `socket.close()` -/
def Socket.close (k : Socket) : Socket :=
  match k.ready with
  | .connecting | .connected => { k with ready := .closing }
  | .closing | .closed => k

inductive Callback where
  | resolved
  | rejected
  | disconnect
  | reconnectAttempt (attempt : ℕ)
  | reconnect
  | reconnectFailed
deriving DecidableEq

structure State where
  sockets : List Socket
  closed : Bool
  settled : Bool
  wasConnected : Bool
  reconnectAttempts : ℕ
  /-- the timer `close` would clear -/
  reconnectTimer : Option ℕ
  /-- the reconnect timers still to fire -/
  timers : List ℕ
  timersMade : ℕ
  callbacks : List Callback
deriving DecidableEq

def connect (s : State) : State := { s with sockets := s.sockets ++ [.new] }

def init : State := connect ⟨[], false, false, false, 0, none, [], 0, []⟩

def State.call (s : State) (c : Callback) : State := { s with callbacks := s.callbacks ++ [c] }

def State.setSocket (s : State) (i : ℕ) (k : Socket) : State := { s with sockets := s.sockets.set i k }

/-- `reconnect.attempts`, where none is no limit, of a transport that has `reconnect`. -/
abbrev ReconnectOptions := Option (Option ℕ)

def attemptsLeft (reconnect : ReconnectOptions) (s : State) : Bool :=
  reconnect.any fun maxAttempts => maxAttempts.all fun n => s.reconnectAttempts < n

def failReconnect (s : State) : State :=
  let s := s.call .reconnectFailed
  if s.settled then s else s.call .rejected

def scheduleReconnect (reconnect : ReconnectOptions) (s : State) : State :=
  if s.closed then failReconnect s
  else if attemptsLeft reconnect s then
    { s.call (.reconnectAttempt (s.reconnectAttempts + 1)) with
      reconnectAttempts := s.reconnectAttempts + 1
      reconnectTimer := some s.timersMade
      timers := s.timers ++ [s.timersMade]
      timersMade := s.timersMade + 1 }
  else failReconnect s

def onConnectTimeout (reconnect : ReconnectOptions) (s : State) (i : ℕ) (k : Socket) : State :=
  scheduleReconnect reconnect
    (s.setSocket i { k with connectTimeout := false, failedBeforeOpen := true : Socket }.close)

def onOpen (s : State) (i : ℕ) (k : Socket) : State :=
  let reconnected := s.wasConnected
  let s := { s.setSocket i { k with
      opened := true, connectTimeout := false, openListener := false, errorListener := false } with
    wasConnected := true
    reconnectAttempts := 0 }
  if s.settled then if reconnected then s.call .reconnect else s
  else { s.call .resolved with settled := true }

def onError (reconnect : ReconnectOptions) (s : State) (i : ℕ) (k : Socket) : State :=
  let s := s.setSocket i
    { k with failedBeforeOpen := true, connectTimeout := false, openListener := false, errorListener := false }
  if s.settled then s else scheduleReconnect reconnect s

def onClose (reconnect : ReconnectOptions) (s : State) (i : ℕ) (k : Socket) : State :=
  let s := s.setSocket i { k with connectTimeout := false }
  if !k.opened && k.failedBeforeOpen then s
  else if s.closed then s
  else scheduleReconnect reconnect (if s.settled then s.call .disconnect else s)

/-- `transport.close()`, which closes the last socket made. -/
def close (s : State) : State :=
  { s with
    closed := true
    timers := s.timers.filter fun timer => s.reconnectTimer ≠ some timer
    sockets := s.sockets.modify (s.sockets.length - 1) Socket.close }

inductive Act where
  | open (i : ℕ)
  | error (i : ℕ)
  /-- the close event -/
  | closed (i : ℕ)
  | message (i : ℕ)
  | connectTimeout (i : ℕ)
  | reconnectTimer (timer : ℕ)
  /-- the owner closes the transport -/
  | close
deriving DecidableEq

/-- An event of a socket; after an error the close event is still to come. -/
def socketStep (reconnect : ReconnectOptions) (s : State) (i : ℕ) (k : Socket) : Act → Option State
  | .open _ =>
    if k.ready = .connecting then
      let k := { k with ready := .connected }
      some (if k.openListener then onOpen s i k else s.setSocket i k)
    else none
  | .error _ =>
    if k.ready = .closed then none
    else
      let k := { k with ready := .closing }
      some (if k.errorListener then onError reconnect s i k else s.setSocket i k)
  | .closed _ => if k.ready = .closed then none else some (onClose reconnect s i { k with ready := .closed })
  | .message _ => if k.ready = .connected then some s else none
  | .connectTimeout _ => if k.connectTimeout then some (onConnectTimeout reconnect s i k) else none
  | .reconnectTimer _ | .close => none

def step (reconnect : ReconnectOptions) (s : State) (a : Act) : Option State :=
  match a with
  | .open i | .error i | .closed i | .message i | .connectTimeout i =>
    s.sockets[i]?.bind fun k => socketStep reconnect s i k a
  | .reconnectTimer timer => if timer ∈ s.timers then some (connect { s with timers := s.timers.erase timer }) else none
  | .close => some (close s)

end Nexal.Reconnect
