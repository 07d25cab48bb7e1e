import Nexal.Spec.AgentCalls
import Nexal.Spec.AgentChannel

/-! The gateway's end of the connection (`crates/nexal-gateway/src/agent_conn.rs`): callers of
`invoke` and `close`, the reader task and the tasks it spawns for requests of the agent interleave
at the locks and channels they use. -/

namespace Nexal.Link.AgentConn

open Wire (Value mapGet)

/-- What `dispatch_frame` does with a frame. -/
inductive Dispatch where
  | resolve (id : UInt64) (i : ℕ)
  | request (id : Value) (method : String) (params : Option Value)
  | notification (method : String) (params : Option Value)
  | badFrame

def dispatchFrame (pending : List (UInt64 × ℕ)) (hasHandler : Bool) (value : Value) : Dispatch :=
  match (responseId value).bind fun id => (pending.lookup id).map fun i => (id, i) with
  | some (id, i) => .resolve id i
  | none =>
    match mapGet value "id", hasHandler with
    | some id, true => .request id ((mapStr value "method").getD "") (mapGet value "params")
    | _, _ =>
      match mapStr value "method" with
      | some method => .notification method (mapGet value "params")
      | none => .badFrame

inductive TaskPhase where
  | running
  | responding (response : Value)
  | done

/-- The task spawned for a request of the agent. -/
structure Task where
  request : Value
  id : Value
  method : String
  params : Option Value
  phase : TaskPhase

/-- The reader task: the loop, and then the flag and the drain. -/
inductive Reader where
  | running
  | marking
  | draining
  | done
  | cancelled
deriving DecidableEq

/-- A call of `close`. -/
inductive Closer where
  | marking
  | aborting
  | draining
  | done
deriving DecidableEq

structure State where
  calls : Calls AgentConnError
  closed : Bool
  reader : Reader
  closers : List Closer
  /-- the reader and the transport's tasks were told to stop -/
  aborted : Bool
  tasks : List Task
  chan : Channel
  notified : List (String × Option Value)
  /-- a drain has run -/
  drained : Bool
  /-- the requests answered, with their responses -/
  handled : List (Value × Value)

def init : State where
  calls := .new
  closed := false
  reader := .running
  closers := []
  aborted := false
  tasks := []
  chan := .new
  notified := []
  drained := false
  handled := []

inductive Act where
  | invoke (method : String) (params : Option Value)
  | call (i : ℕ)
  | notify (method : String) (params : Value)
  | close
  | closer (k : ℕ)
  | cancelReader
  | cancelWriter
  | read
  /-- the request handler of a task returns; `skills` is what the skills service says -/
  | handled (k : ℕ) (skills : Except String Value)
  | respond (k : ℕ)
  | arrive (ev : Event)
  | writer (a : WriterAct)

def drainPending (s : State) : State := { s with calls := s.calls.drain .closed, drained := true }

def readFrame (hasHandler : Bool) (s : State) (value : Value) : State :=
  match dispatchFrame s.calls.pending hasHandler value with
  | .resolve id i => { s with calls := s.calls.respond id i (gatewayResult value) }
  | .request id method params => { s with tasks := s.tasks ++ [⟨value, id, method, params, .running⟩] }
  | .notification method params => { s with notified := s.notified ++ [(method, params)] }
  | .badFrame => s

/-- The reader task goes on. -/
def readStep (hasHandler : Bool) (s : State) : Option State :=
  match s.reader with
  | .running =>
    match s.chan.incoming with
    | [] => none
    | ev :: incoming =>
      let s := { s with chan := { s.chan with incoming := incoming } }
      match ev with
      | .message value => some (readFrame hasHandler s value)
      | .malformedMessage _ => some s
      | .disconnected => some { s with reader := .marking }
  | .marking => some { s with closed := true, reader := .draining }
  | .draining => some { drainPending s with reader := .done }
  | .done | .cancelled => none

def closeStep (s : State) (k : ℕ) : Option State :=
  s.closers[k]?.bind fun c =>
    match c with
    | .marking => some { s with closed := true, closers := s.closers.set k .aborting }
    | .aborting => some { s with aborted := true, closers := s.closers.set k .draining }
    | .draining => some { drainPending s with closers := s.closers.set k .done }
    | .done => none

/-- `invoke` goes on. -/
def callStep (s : State) (i : ℕ) : Option State :=
  s.calls.calls[i]?.bind fun call =>
    match call.phase with
    | .checking =>
      some { s with calls := s.calls.set i { call with
        phase := if s.closed then .returned (.error .closed) else .allocating } }
    | _ =>
      (s.calls.step .closed s.chan.accepts i).map fun (calls, frame) =>
        { s with calls := calls, chan := (frame.map s.chan.send).getD s.chan }

def step (hasHandler : Bool) (s : State) : Act → Option State
  | .invoke method params =>
    some { s with calls := { s.calls with
      calls := s.calls.calls ++ [⟨method, params.getD .nil, false, .checking, none, none⟩] } }
  | .call i => callStep s i
  | .notify method params => some { s with chan := s.chan.send (buildRpcNotification method params) }
  | .close => some { s with closers := s.closers ++ [.marking] }
  | .closer k => closeStep s k
  | .cancelReader => if s.aborted then some { s with reader := .cancelled } else none
  | .cancelWriter =>
    if s.aborted then some { s with chan := { s.chan with outgoing := [], writer := .gone } } else none
  | .read => readStep hasHandler s
  | .handled k skills =>
    s.tasks[k]?.bind fun t =>
      match t.phase with
      | .running =>
        let response := gatewayResponse t.id (handleAgentRequest skills t.method)
        some { s with
          tasks := s.tasks.set k { t with phase := .responding response }
          handled := s.handled ++ [(t.request, response)] }
      | _ => none
  | .respond k =>
    s.tasks[k]?.bind fun t =>
      match t.phase with
      | .responding response =>
        some { s with chan := s.chan.send response, tasks := s.tasks.set k { t with phase := .done } }
      | _ => none
  | .arrive ev => some { s with chan := s.chan.arrive ev }
  | .writer a => (s.chan.writerStep a).map fun chan => { s with chan := chan }

end Nexal.Link.AgentConn

/-! Gateway and agent on one connection that nobody calls `close` on. What one side's writer puts
on the socket arrives at the other; besides, either side may get a message that does not parse, or
lose the socket, at any time. -/

namespace Nexal.Link

structure State where
  gateway : AgentConn.State
  agent : AgentChannel.State

def init : State := ⟨AgentConn.init, AgentChannel.init⟩

inductive Act where
  | gateway (a : AgentConn.Act)
  | agent (a : AgentChannel.Act)
  | toAgent
  | toGateway

/-- What is not up to the other side. -/
def gatewayOwn : AgentConn.Act → Bool
  | .arrive (.message _) | .close => false
  | _ => true

def agentOwn : AgentChannel.Act → Bool
  | .arrive (.message _) => false
  | _ => true

def step (hasHandler : Bool) (s : State) : Act → Option State
  | .gateway a =>
    if gatewayOwn a then (AgentConn.step hasHandler s.gateway a).map fun gateway => { s with gateway := gateway }
    else none
  | .agent a =>
    if agentOwn a then (AgentChannel.step s.agent a).map fun agent => { s with agent := agent } else none
  | .toAgent =>
    s.gateway.chan.write.map fun (value, chan) =>
      { gateway := { s.gateway with chan := chan }
        agent := { s.agent with chan := s.agent.chan.arrive (.message value) } }
  | .toGateway =>
    s.agent.chan.write.map fun (value, chan) =>
      { gateway := { s.gateway with chan := s.gateway.chan.arrive (.message value) }
        agent := { s.agent with chan := chan } }

end Nexal.Link
