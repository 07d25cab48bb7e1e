import Nexal.Spec.Reconnect

/-! What `createWebSocketConnection` (`packages/transport/src/connection.ts`) returns: the pending requests of the
connection and of its streams over the reconnecting transport. A request is sent only where the last socket is open,
and no one but the owner's `onDisconnect` is told that a socket is gone. -/

namespace Nexal.TsRequests

open Reconnect (Socket ReconnectOptions scheduleReconnect)

inductive Status where
  | pending
  | resolved
  | rejected
deriving DecidableEq

structure Request where
  /-- the stream it was made on (none: on the connection itself) -/
  level : Option ℕ
  /-- the socket it was sent on (none: the frame was dropped) -/
  socket : Option ℕ
  status : Status
deriving DecidableEq

structure State where
  transport : Reconnect.State
  /-- `streams` -/
  streams : List (String × ℕ)
  /-- the names of all streams made -/
  names : List String
  /-- all requests; the pending ones are in the map of their level -/
  requests : List Request
deriving DecidableEq

structure WebSocketConnectionOptions where
  reconnect : ReconnectOptions
  /-- whether the owner closes the connection in `onDisconnect`, as the gateway's client does -/
  closesOnDisconnect : Bool

def init : State := ⟨Reconnect.init, [], [], []⟩

/-! Requests -/

def Request.reject (r : Request) : Request :=
  match r.status with
  | .pending => { r with status := .rejected }
  | .resolved | .rejected => r

/-- `rejectAllPending` of the levels with `p` -/
def rejectAllPending (p : Option ℕ → Bool) (s : State) : State :=
  { s with requests := s.requests.map fun r => if p r.level then r.reject else r }

/-- `transport.send`: the socket the frame goes to -/
def sendSocket (t : Reconnect.State) : Option ℕ :=
  match t.sockets.getLast? with
  | some k => if k.ready = .connected then some (t.sockets.length - 1) else none
  | none => none

def request (s : State) (level : Option ℕ) : State :=
  { s with requests := s.requests ++ [⟨level, sendSocket s.transport, .pending⟩] }

/-- The level that handles a frame. -/
def route (s : State) : Option String → Option (Option ℕ)
  | none => some none
  | some name => (s.streams.lookup name).map some

def Request.answer (r : Request) (ok : Bool) : Request :=
  match r.status with
  | .pending => { r with status := if ok then .resolved else .rejected }
  | .resolved | .rejected => r

/-- `handleMessage` of the response to the request `r`. -/
def handleResponse (s : State) (stream : Option String) (r : ℕ) (ok : Bool) : State :=
  { s with requests := s.requests.modify r fun q => if route s stream = some q.level then q.answer ok else q }

/-! Streams -/

def stream (s : State) (id : String) : State :=
  match s.streams.lookup id with
  | some _ => s
  | none => { s with streams := (id, s.names.length) :: s.streams, names := s.names ++ [id] }

def closeStream (s : State) (id : String) : State :=
  match s.streams.lookup id with
  | some n => { rejectAllPending (fun level => level = some n) s with streams := s.streams.filter fun e => e.1 ≠ id }
  | none => s

/-- `close` of a stream -/
def Stream.close (s : State) (n : ℕ) (id : String) :
    State := closeStream (rejectAllPending (fun level => level = some n) s) id

/-- The levels `close` of the connection rejects. -/
def State.reaches (s : State) (level : Option ℕ) : Bool :=
  match level with
  | none => true
  | some n => s.streams.any fun e => e.2 = n

/-- `close` of the connection -/
def close (s : State) : State :=
  { rejectAllPending s.reaches s with
    streams := []
    transport := Reconnect.close s.transport }

/-! The transport -/

/-- The close handler of a socket, with the owner's `onDisconnect` in it. -/
def onClose (o : WebSocketConnectionOptions) (s : State) (i : ℕ) (k : Socket) : State :=
  let s := { s with transport := s.transport.setSocket i { k with connectTimeout := false } }
  if !k.opened && k.failedBeforeOpen then s
  else if s.transport.closed then s
  else
    let s := if s.transport.settled then { s with transport := s.transport.call .disconnect } else s
    let s := if s.transport.settled && o.closesOnDisconnect then close s else s
    { s with transport := scheduleReconnect o.reconnect s.transport }

/-- A socket's event or a timer. -/
def socketEvent (o : WebSocketConnectionOptions) (s : State) (a : Reconnect.Act) : Option State :=
  match a with
  | .closed i => s.transport.sockets[i]?.bind fun k =>
    if k.ready = .closed then none else some (onClose o s i { k with ready := .closed })
  | a => (Reconnect.step o.reconnect s.transport a).map fun t => { s with transport := t }

inductive Act where
  /-- an event of a socket, a timer, or `transport.close()` -/
  | socket (a : Reconnect.Act)
  /-- a frame on a socket that answers a request -/
  | response (i : ℕ) (stream : Option String) (r : ℕ) (ok : Bool)
  | request (level : Option ℕ)
  | stream (id : String)
  | closeStream (id : String)
  /-- `close` of a stream made before -/
  | closeHandle (n : ℕ)
  /-- `connection.close()` -/
  | close
deriving DecidableEq

/-- Whether there is such a level. -/
def State.made (s : State) : Option ℕ → Bool
  | none => true
  | some n => n < s.names.length

/-- There is a connection once the transport has settled. -/
def step (o : WebSocketConnectionOptions) (s : State) (a : Act) : Option State :=
  match a with
  | .socket a => socketEvent o s a
  | .response i stream r ok =>
    (Reconnect.step o.reconnect s.transport (.message i)).map fun _ => handleResponse s stream r ok
  | .request level => if s.transport.settled && s.made level then some (request s level) else none
  | .stream id => if s.transport.settled then some (stream s id) else none
  | .closeStream id => if s.transport.settled then some (closeStream s id) else none
  | .closeHandle n => s.names[n]?.map (Stream.close s n)
  | .close => if s.transport.settled then some (close s) else none

end Nexal.TsRequests
