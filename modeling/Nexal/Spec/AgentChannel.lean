import Nexal.Spec.AgentCalls

/-! The agent's end of the connection (`crates/nexal-agent/src/server/channel/dispatch.rs`): the
dispatch loop, which handles one request after the other, the task that forwards process events,
and the callers of `MsgpackChannel::request` and `request_blocking`. -/

namespace Nexal.Link.AgentChannel

open Wire (Value mapGet)

inductive Loop where
  | receiving
  /-- in the handler of a frame; without an id nothing is sent back -/
  | handling (frame : Value) (id : Option Value) (method : String) (params : Value)
  | responding (response : Value)
  /-- the loop was left, `shutdown` runs -/
  | leaving
  | returned

structure State where
  calls : Calls String
  loop : Loop
  chan : Channel
  handled : List (Value × Value)
  /-- the requests handed to the writer whose response has not been read -/
  unanswered : List UInt64

def init : State where
  calls := .new
  loop := .receiving
  chan := .new
  handled := []
  unanswered := []

inductive Act where
  | request (blocking : Bool) (method : String) (params : Value)
  | call (i : ℕ)
  /-- a process event is forwarded -/
  | event (method : String) (params : Value)
  | receive
  /-- the handler returns; `answer` is what the handler of a known method says -/
  | handled (answer : Except ChannelError Value)
  | respond
  | shutdown
  | arrive (ev : Event)
  | writer (a : WriterAct)

def connectionClosed : String := "connection closed"

/-- `try_resolve_pending` -/
def tryResolvePending (calls : Calls String) (value : Value) : Option (UInt64 × Calls String) :=
  (responseId value).bind fun id =>
    (calls.pending.lookup id).map fun i => (id, calls.respond id i (agentResult value))

def receiveStep (s : State) : Option State :=
  match s.chan.incoming with
  | [] => none
  | ev :: incoming =>
    let s := { s with chan := { s.chan with incoming := incoming } }
    match ev with
    | .message value =>
      match tryResolvePending s.calls value with
      | some (id, calls) => some { s with calls := calls, unanswered := s.unanswered.filter (· ≠ id) }
      | none =>
        let params := unwrapPositional ((mapGet value "params").getD .nil)
        some { s with loop := .handling value (mapGet value "id") ((mapStr value "method").getD "") params }
    | .malformedMessage reason => some { s with loop := .responding (parseErrorFrame reason) }
    | .disconnected => some { s with loop := .leaving }

def callStep (s : State) (i : ℕ) : Option State :=
  (s.calls.step connectionClosed s.chan.accepts i).map fun (calls, frame) =>
    { s with
      calls := calls
      chan := (frame.map s.chan.send).getD s.chan
      unanswered := (frame.bind fun f => (mapGet f "id").bind asU64).toList ++ s.unanswered }

def step (s : State) : Act → Option State
  | .request blocking method params =>
    some { s with calls := { s.calls with
      calls := s.calls.calls ++ [⟨method, params, blocking, .allocating, none, none⟩] } }
  | .call i => callStep s i
  | .event method params => some { s with chan := s.chan.send (buildRpcNotification method params) }
  | .receive =>
    match s.loop with
    | .receiving => receiveStep s
    | _ => none
  | .handled answer =>
    match s.loop with
    | .handling frame id method _ =>
      match id with
      | none => some { s with loop := .receiving }
      | some id =>
        let response := agentResponse id (dispatch answer method)
        some { s with loop := .responding response, handled := s.handled ++ [(frame, response)] }
    | _ => none
  | .respond =>
    match s.loop with
    | .responding response =>
      some { s with chan := s.chan.send response, loop := if s.chan.accepts then .receiving else .leaving }
    | _ => none
  | .shutdown =>
    match s.loop with
    | .leaving => some { s with loop := .returned }
    | _ => none
  | .arrive ev => some { s with chan := s.chan.arrive ev }
  | .writer a => (s.chan.writerStep a).map fun chan => { s with chan := chan }

end Nexal.Link.AgentChannel
