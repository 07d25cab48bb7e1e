import Mathlib.Data.Nat.Notation
import Nexal.Lib.Runs

/-! The agents of a session key in the gateway client (`src/gateway/client.ts`): `acquireAgent` and
`releaseAgent` interleave at their awaits with the gateway, which handles the requests of the
connection one after the other. The maps are taken at the one key. -/

namespace Nexal.GatewayAgents

/-- `spawnSessionAgent` and the promise `acquireAgent` makes of it; an agent is named by the place at
which the gateway spawned it, and none stands for a rejection. -/
inductive Spawn where
  /-- awaits `hello` -/
  | greeting
  /-- the request is on its way -/
  | queued
  /-- the answer is on its way -/
  | answered (agentId : Option ℕ)
  | returned (agentId : Option ℕ)
  /-- `finally` has run, the promise is settled -/
  | settled (agentId : Option ℕ)
deriving DecidableEq

inductive Phase where
  /-- `acquireAgent` awaits the promise, its own or the one it found in flight -/
  | awaiting (spawn : ℕ) (own : Bool)
  | acquired (agentId : ℕ)
  | threw
  /-- `releaseAgent`: the request is on its way -/
  | killing (agentId : ℕ)
  /-- the answer, or the error that is only logged, is on its way -/
  | killed
  /-- awaits `client.close` -/
  | closing
  | released
deriving DecidableEq

def Phase.acquiring : Phase → Bool
  | .awaiting _ _ => true
  | _ => false

/-- Awaits a promise of its own, whose agent it will cache. -/
def Phase.spawning : Phase → Bool
  | .awaiting _ own => own
  | _ => false

def Phase.isRelease : Phase → Bool
  | .killing _ | .killed | .closing | .released => true
  | _ => false

def Phase.finished : Phase → Bool
  | .acquired _ | .threw | .released => true
  | _ => false

structure Call where
  phase : Phase
  /-- the calls of `acquireAgent` in flight when this one was issued -/
  concurrent : List ℕ
deriving DecidableEq

inductive Request where
  | spawn (p : ℕ)
  | kill (call : ℕ) (agentId : ℕ)
deriving DecidableEq

structure State where
  agents : Option ℕ
  agentInflight : Option ℕ
  spawns : List Spawn
  calls : List Call
  /-- what the gateway has still to handle -/
  requests : List Request
  /-- the agents spawned for the key, and whether they are alive -/
  gateway : List Bool
deriving DecidableEq

def init : State := ⟨none, none, [], [], [], []⟩

/-- The calls of `acquireAgent` in flight. -/
def State.acquiring (s : State) : List ℕ :=
  (List.range s.calls.length).filter fun i => (s.calls[i]?).any (·.phase.acquiring)

def acquireAgent (s : State) : State :=
  match s.agents with
  | some agentId => { s with calls := s.calls ++ [⟨.acquired agentId, s.acquiring⟩] }
  | none =>
    match s.agentInflight with
    | some p => { s with calls := s.calls ++ [⟨.awaiting p false, s.acquiring⟩] }
    | none =>
      { s with
        spawns := s.spawns ++ [.greeting]
        agentInflight := some s.spawns.length
        calls := s.calls ++ [⟨.awaiting s.spawns.length true, s.acquiring⟩] }

def releaseAgent (s : State) : State :=
  match s.agents with
  | none => { s with calls := s.calls ++ [⟨.released, []⟩] }
  | some agentId =>
    { s with
      agents := none
      calls := s.calls ++ [⟨.killing agentId, []⟩]
      requests := s.requests ++ [.kill s.calls.length agentId] }

inductive Act where
  | acquire
  | release
  /-- `hello` of a spawn returns, or throws -/
  | greeted (p : ℕ) (ok : Bool)
  /-- the gateway handles the next request -/
  | serve (ok : Bool)
  /-- the answer to a spawn arrives -/
  | answer (p : ℕ)
  /-- the callback of `finally` runs -/
  | settle (p : ℕ)
  /-- a call goes on from its await -/
  | resume (i : ℕ)
deriving DecidableEq

/-- The gateway is done with a request; `ok` says whether it succeeded. -/
def served (s : State) (ok : Bool) : Request → State
  | .spawn p =>
    if ok then { s with gateway := s.gateway ++ [true], spawns := s.spawns.set p (.answered (some s.gateway.length)) }
    else { s with spawns := s.spawns.set p (.answered none) }
  | .kill i agentId =>
    match s.calls[i]? with
    | some call => { s with
        gateway := if ok then s.gateway.set agentId false else s.gateway
        calls := s.calls.set i { call with phase := .killed } }
    | none => s

/-- The call goes on. -/
def resume (s : State) (i : ℕ) : Option State :=
  s.calls[i]?.bind fun call =>
    let goto (phase : Phase) := s.calls.set i { call with phase := phase }
    match call.phase with
    | .awaiting p own =>
      match s.spawns[p]? with
      | some (.settled (some agentId)) =>
        some { s with agents := if own then some agentId else s.agents, calls := goto (.acquired agentId) }
      | some (.settled none) => some { s with calls := goto .threw }
      | _ => none
    | .killed => some { s with calls := goto .closing }
    | .closing => some { s with calls := goto .released }
    | .acquired _ | .threw | .killing _ | .released => none

def step (s : State) : Act → Option State
  | .acquire => some (acquireAgent s)
  | .release => some (releaseAgent s)
  | .greeted p ok =>
    match s.spawns[p]? with
    | some .greeting =>
      if ok then some { s with spawns := s.spawns.set p .queued, requests := s.requests ++ [.spawn p] }
      else some { s with spawns := s.spawns.set p (.returned none) }
    | _ => none
  | .serve ok =>
    match s.requests with
    | request :: requests => some (served { s with requests := requests } ok request)
    | [] => none
  | .answer p =>
    match s.spawns[p]? with
    | some (.answered agentId) => some { s with spawns := s.spawns.set p (.returned agentId) }
    | _ => none
  | .settle p =>
    match s.spawns[p]? with
    | some (.returned agentId) =>
      some { s with spawns := s.spawns.set p (.settled agentId), agentInflight := none }
    | _ => none
  | .resume i => resume s i

end Nexal.GatewayAgents
