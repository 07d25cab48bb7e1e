import Mathlib.Logic.Function.Basic
import Nexal.Lib.Runs
import Nexal.Spec.Wire

/-! The multiplexed RPC connection (`crates/utils/transport/src/connection.rs`) over its transport
driver (`transport.rs`). Callers, the pump task, the drains of closing streams and connections
and the driver interleave at the locks they take; one `Act` is one such step. -/

namespace Nexal.Conn

open Wire (Value MessageId WireResponse handleFrame)

/-- A channel by its number; the root channel is 0. -/
abbrev ChanId := ℕ

/-- A request by the order in which it entered its pending map. -/
abbrev ReqId := ℕ

/-- The text of `Uuid::new_v4()`: lower-case hex digits with dashes at four places. -/
def isUuid (s : String) : Bool :=
  s.toList.length = 36 && s.toList.zipIdx.all fun (c, i) =>
    if i = 8 || i = 13 || i = 18 || i = 23 then c = '-' else c.isDigit || ('a' ≤ c && c ≤ 'f')

structure Uuid where
  text : String
  shape : isUuid text = true

/-- What `send_request` fixes: the channel it was called on, its stream name and the id. -/
structure Request where
  chan : ChanId
  stream : Option String
  id : Uuid

inductive CallPhase where
  | encoding
  /-- the call returned the encoding error and left its sender in the map -/
  | failed
  | waiting
deriving DecidableEq

/-- An entry of the pending map of a channel. -/
structure Row where
  chan : ChanId
  key : String
  req : ReqId
deriving DecidableEq

/-- Why a completion sender was used. -/
inductive Cause where
  | response (resp : WireResponse) (stream : Option String)
  | drain (chan : ChanId)

structure Completion where
  req : ReqId
  cause : Cause

/-- Where a `reject_all`, or the drain of one closed stream, has got to. -/
inductive Drain where
  | root
  | take
  | rest (chans : List ChanId)
  | done
deriving DecidableEq

inductive TaskKind where
  /-- the pump's, after `Disconnected`; the pump ends with it -/
  | disconnect
  | close
  | closeStream (chan : ChanId)
deriving DecidableEq

structure Task where
  kind : TaskKind
  todo : Drain
deriving DecidableEq

inductive Pump where
  | idle
  /-- a response frame has its channel, whose map is not locked yet -/
  | routed (chan : ChanId) (resp : WireResponse) (stream : Option String)
  | completing (req : ReqId) (resp : WireResponse) (stream : Option String)
  | stopped

inductive Event where
  | frame (bytes : ByteArray)
  | heartbeatDead
  | disconnected
  | reconnected (socket : ℕ)

inductive Cmd where
  | send (req : ReqId)
  | close

inductive Driver where
  | connected (socket : ℕ)
  | reconnecting
  | stopped

structure State where
  /-- the names of the channels made so far -/
  channels : List (Option String)
  streams : List (String × ChanId)
  pending : List Row
  requests : List Request
  calls : ReqId → CallPhase
  tasks : List Task
  pump : Pump
  events : List Event
  closed : Bool
  cmds : List Cmd
  driver : Driver
  sockets : ℕ
  /-- the socket the driver took a request's frame for: it has been written there, the write has failed, or it was
  dropped while the driver dialed in the socket's place -/
  sentOn : ReqId → Option ℕ
  completions : List Completion
  /-- channels that were drained, or made when the streams had been taken -/
  swept : List ChanId
  taken : Bool
  /-- the socket of the last `Reconnected` the pump has seen -/
  reconnected : ℕ

def init : State where
  channels := [none]
  streams := []
  pending := []
  requests := []
  calls := fun _ => .encoding
  tasks := []
  pump := .idle
  events := []
  closed := false
  cmds := []
  driver := .connected 0
  sockets := 0
  sentOn := fun _ => none
  completions := []
  swept := []
  taken := false
  reconnected := 0

inductive Act where
  | stream (name : String)
  | request (chan : ChanId) (id : Uuid)
  | encodeError (req : ReqId)
  | send (req : ReqId)
  /-- `close_stream`, or `Stream::close` of a handle with this name -/
  | closeStream (name : String)
  | close
  /-- a drain goes on; `chan` is the next stream its map iterator yields -/
  | task (i : ℕ) (chan : ChanId)
  | pump
  | receive (bytes : ByteArray)
  | heartbeatDead
  | command
  | writeError
  | lose
  | reconnect
  | giveUp

/-- `reject_all_pending` of one channel, under its lock. -/
def drainChan (s : State) (c : ChanId) : State :=
  { s with
    pending := s.pending.filter (·.chan ≠ c)
    completions := s.completions ++ (s.pending.filter (·.chan = c)).map fun row => ⟨row.req, .drain c⟩
    swept := c :: s.swept }

def drainStep (pick : ChanId) (s : State) : Drain → Option (Drain × State)
  | .root => some (.take, drainChan s 0)
  | .take => some (.rest (s.streams.map (·.2)), { s with streams := [], taken := true })
  | .rest [] => some (.done, s)
  | .rest cs => if pick ∈ cs then some (.rest (cs.erase pick), drainChan s pick) else none
  | .done => none

/-- `Transport::close` -/
def transportClose (s : State) : State :=
  if s.closed then s else { s with closed := true, cmds := s.cmds ++ [.close] }

section Step
variable {ε : Type} (decodeFrame : ByteArray → Except ε Value) (display : Value → String)
  (reconnects : Bool)

def idToKey : MessageId → String
  | .string s => s
  | .integer n => toString n.val
  | v => display v

/-- The pump takes an event, or goes on with a response it has routed. Notifications and
requests go to handlers, which touch no pending map; a panic ends the process. -/
def pumpStep (s : State) : Option State :=
  match s.pump with
  | .idle =>
    match s.events with
    | [] => none
    | ev :: events =>
      let s := { s with events := events }
      match ev with
      | .frame bytes =>
        match handleFrame decodeFrame (s.streams.map (·.1)) bytes with
        | .panics _ => none
        | .returns (some (stream, .response resp)) =>
          match stream with
          | none => some { s with pump := .routed 0 resp none }
          | some sid => (s.streams.lookup sid).map fun c => { s with pump := .routed c resp (some sid) }
        | .returns _ => some s
      | .heartbeatDead => some s
      | .reconnected socket => some { s with reconnected := socket }
      | .disconnected => some { s with pump := .stopped, tasks := s.tasks ++ [⟨.disconnect, .root⟩] }
  | .routed c resp stream =>
    match s.pending.find? fun row => row.chan = c ∧ row.key = idToKey display resp.id with
    | some row => some { s with
        pending := s.pending.erase row
        pump := .completing row.req resp stream }
    | none => some { s with pump := .idle }
  | .completing req resp stream =>
    some { s with pump := .idle, completions := s.completions ++ [⟨req, .response resp stream⟩] }
  | .stopped => none

/-- The socket is gone: the driver dials again or tells the pump. -/
def lost (s : State) : State :=
  if reconnects then { s with driver := .reconnecting }
  else { s with driver := .stopped, events := s.events ++ [.disconnected], closed := true }

def step (s : State) : Act → Option State
  | .stream name =>
    match s.streams.lookup name with
    | some _ => some s
    | none => some { s with
        channels := s.channels ++ [some name]
        streams := s.streams ++ [(name, s.channels.length)]
        swept := if s.taken then s.channels.length :: s.swept else s.swept }
  | .request chan id =>
    s.channels[chan]?.map fun stream => { s with
      pending := s.pending.filter (fun row => ¬ (row.chan = chan ∧ row.key = id.text)) ++
        [⟨chan, id.text, s.requests.length⟩]
      requests := s.requests ++ [⟨chan, stream, id⟩] }
  | .encodeError req =>
    if req < s.requests.length ∧ s.calls req = .encoding then
      some { s with calls := Function.update s.calls req .failed }
    else none
  | .send req =>
    if req < s.requests.length ∧ s.calls req = .encoding then
      some { s with
        calls := Function.update s.calls req .waiting
        cmds := if s.closed then s.cmds else s.cmds ++ [.send req] }
    else none
  | .closeStream name =>
    match s.streams.lookup name with
    | none => some s
    | some c => some { s with
        streams := s.streams.erase (name, c)
        tasks := s.tasks ++ [⟨.closeStream c, .rest [c]⟩] }
  | .close => some { s with tasks := s.tasks ++ [⟨.close, .root⟩] }
  | .task i chan =>
    s.tasks[i]?.bind fun t => (drainStep chan s t.todo).map fun (todo, s) =>
      let s := { s with tasks := s.tasks.set i { t with todo := todo } }
      if t.kind = .close ∧ todo = .done then transportClose s else s
  | .pump => pumpStep decodeFrame display s
  | .receive bytes =>
    match s.driver with
    | .connected _ => some { s with events := s.events ++ [.frame bytes] }
    | _ => none
  | .heartbeatDead =>
    match s.driver with
    | .connected _ => some { s with events := s.events ++ [.heartbeatDead] }
    | _ => none
  | .command =>
    match s.driver, s.cmds with
    | .connected socket, .send req :: cmds =>
      some { s with cmds := cmds, sentOn := Function.update s.sentOn req (some socket) }
    -- dropped while waiting to dial
    | .reconnecting, .send req :: cmds =>
      some { s with cmds := cmds, sentOn := Function.update s.sentOn req (some s.sockets) }
    | .connected _, .close :: cmds | .reconnecting, .close :: cmds =>
      some { s with cmds := cmds, driver := .stopped, closed := true }
    | _, _ => none
  | .writeError =>
    match s.driver, s.cmds with
    -- the write has the frame
    | .connected socket, .send req :: cmds =>
      some (lost reconnects { s with cmds := cmds, sentOn := Function.update s.sentOn req (some socket) })
    | _, _ => none
  | .lose =>
    match s.driver with
    | .connected _ => some (lost reconnects s)
    | _ => none
  | .reconnect =>
    match s.driver with
    | .reconnecting => some { s with
        driver := .connected (s.sockets + 1)
        sockets := s.sockets + 1
        events := s.events ++ [.reconnected (s.sockets + 1)] }
    | _ => none
  | .giveUp =>
    match s.driver with
    | .reconnecting => some { s with driver := .stopped, events := s.events ++ [.disconnected] }
    | _ => none

end Step

end Nexal.Conn
