import Mathlib.Data.Nat.Notation
import Nexal.Lib.Runs

/-! The two layers of the gateway client's handshake (`GatewayClient` of `src/gateway/client.ts`): `connect` caches
the promise of its attempt in `readyPromise`, `hello` that of its own in `helloPromise`, and `acquireAgent` spawns
through `hello`. The network's part and the order of the continuations are the order of the events. A promise is the
number of its attempt. -/

namespace Nexal.GatewayHandshake

inductive Status where
  | pending
  | opened
  | failed
deriving DecidableEq

/-- A call of `connectWebSocket`. -/
structure Attempt where
  status : Status
  /-- its connection has ended, closed by either side -/
  gone : Bool
  /-- `close` has been called since it began -/
  left : Bool
  /-- `readyPromise` has been cleared since it began -/
  cleared : Bool
deriving DecidableEq

def Attempt.new : Attempt := ⟨.pending, false, false, false⟩

inductive Stage where
  | connecting
  | sent (connection : ℕ)
  | accepted (connection : ℕ)
  | failed
deriving DecidableEq

/-- A call of the async function whose promise `hello` caches. -/
structure Hello where
  /-- the attempt it awaits -/
  attempt : ℕ
  stage : Stage
  /-- `close` has been called since it began -/
  left : Bool
  /-- `helloPromise` has been cleared since it began -/
  cleared : Bool
deriving DecidableEq

def Hello.new (attempt : ℕ) : Hello := ⟨attempt, .connecting, false, false⟩

/-- A call of `spawnSessionAgent`: the hello it awaits, and whether it has gone on to `spawnAgent`. -/
structure Inflight (κ : Type) where
  sessionKey : κ
  hello : ℕ
  spawning : Bool
deriving DecidableEq

structure State (κ : Type) where
  attempts : List Attempt
  hellos : List Hello
  /-- the attempt that `transport`, `connection` and `gateway` come from -/
  connection : Option ℕ
  readyPromise : Option ℕ
  helloPromise : Option ℕ
  agents : List κ
  agentInflight : List (Inflight κ)
  /-- spawned entries that `acquireAgent` has yet to put among the agents -/
  entries : List κ
deriving DecidableEq

variable {κ : Type} [DecidableEq κ]

def init : State κ := ⟨[], [], none, none, none, [], [], []⟩

inductive Event (κ : Type) where
  | connect
  | hello
  | acquireAgent (sessionKey : κ)
  /-- `releaseAgent` or `detachAgent` -/
  | dropAgent (sessionKey : κ)
  | close
  /-- the socket opens, and `connectWebSocket` goes on -/
  | opened (attempt : ℕ)
  /-- the socket errs, closes or times out before it opens -/
  | refused (attempt : ℕ)
  /-- the socket closes after it has opened -/
  | disconnected (attempt : ℕ)
  /-- `hello` goes on after `await this.connect()` -/
  | connected (hello : ℕ)
  | answered (hello : ℕ) (ok : Bool)
  /-- `spawnSessionAgent` goes on after `await this.hello()` -/
  | greeted (sessionKey : κ)
  | spawned (sessionKey : κ) (ok : Bool)
  /-- `acquireAgent` goes on after `await promise` -/
  | stored (sessionKey : κ)
deriving DecidableEq

def connect (s : State κ) : State κ × ℕ :=
  match s.readyPromise with
  | some attempt => (s, attempt)
  | none => ({ s with attempts := s.attempts ++ [.new], readyPromise := some s.attempts.length }, s.attempts.length)

def hello (s : State κ) : State κ × ℕ :=
  match s.helloPromise with
  | some hello => (s, hello)
  | none =>
    let (s', attempt) := connect s
    ({ s' with hellos := s'.hellos ++ [.new attempt], helloPromise := some s'.hellos.length }, s'.hellos.length)

def State.status (s : State κ) (attempt : ℕ) : Option Status := s.attempts[attempt]?.map (·.status)

def State.stage (s : State κ) (hello : ℕ) : Option Stage := s.hellos[hello]?.map (·.stage)

def State.inflight (s : State κ) (sessionKey : κ) : Option (Inflight κ) :=
  s.agentInflight.find? (·.sessionKey = sessionKey)

/-- Neither cached nor in flight. -/
def State.Uncached (s : State κ) (sessionKey : κ) : Prop := sessionKey ∉ s.agents ∧ s.inflight sessionKey = none

instance (s : State κ) (sessionKey : κ) : Decidable (s.Uncached sessionKey) :=
  inferInstanceAs (Decidable (_ ∧ _))

def acquireAgent (s : State κ) (sessionKey : κ) : State κ :=
  if s.Uncached sessionKey then
    let (s', hello) := hello s
    { s' with agentInflight := s'.agentInflight ++ [⟨sessionKey, hello, false⟩] }
  else s

/-- `.finally(() => this.agentInflight.delete(sessionKey))` -/
def State.landed (s : State κ) (sessionKey : κ) : State κ :=
  { s with agentInflight := s.agentInflight.filter (·.sessionKey ≠ sessionKey) }

/-- `transport.close()` on the socket of the attempt, or the end of it. -/
def State.endConnection (s : State κ) (attempt : ℕ) : State κ :=
  { s with attempts := s.attempts.modify attempt fun a => { a with gone := true } }

/-- `this.connection?.close()`, and what `onDisconnect` and `close` then set to null. -/
def clear (s : State κ) : State κ :=
  let s' := match s.connection with
    | some attempt => s.endConnection attempt
    | none => s
  { s' with
    attempts := s'.attempts.map fun a => { a with cleared := true }
    hellos := s'.hellos.map fun h => { h with cleared := true }
    connection := none
    readyPromise := none
    helloPromise := none }

def onDisconnect (s : State κ) : State κ := clear s

def close (s : State κ) : State κ :=
  let s' := clear s
  { s' with
    attempts := s'.attempts.map fun a => { a with left := true }
    hellos := s'.hellos.map fun h => { h with left := true } }

def State.goneAt (s : State κ) (attempt : ℕ) : Prop := (s.attempts.map (·.gone))[attempt]? = some true

instance (s : State κ) (attempt : ℕ) : Decidable (s.goneAt attempt) :=
  inferInstanceAs (Decidable (_ = _))

def State.settle (s : State κ) (attempt : ℕ) (status : Status) : State κ :=
  { s with attempts := s.attempts.modify attempt fun a => { a with status := status } }

def State.advance (s : State κ) (hello : ℕ) (stage : Stage) : State κ :=
  { s with hellos := s.hellos.modify hello fun h => { h with stage := stage } }

/-- `this.requireGateway().hello(..)` -/
def sendHello (s : State κ) (hello : ℕ) : State κ :=
  match s.connection with
  | some attempt => s.advance hello (.sent attempt)
  | none => s.advance hello .failed

def step (s : State κ) : Event κ → Option (State κ)
  | .connect => some (connect s).1
  | .hello => some (hello s).1
  | .acquireAgent sessionKey => some (acquireAgent s sessionKey)
  | .dropAgent sessionKey => some { s with agents := s.agents.filter (· ≠ sessionKey) }
  | .close => some (close s)
  | .opened attempt =>
    if s.status attempt = some .pending then
      some { s.settle attempt .opened with connection := some attempt }
    else none
  | .refused attempt =>
    if s.status attempt = some .pending then some (s.settle attempt .failed) else none
  | .disconnected attempt =>
    if s.status attempt = some .opened ∧ ¬s.goneAt attempt then
      some (onDisconnect (s.endConnection attempt))
    else none
  | .connected hello =>
    match s.hellos[hello]? with
    | some ⟨attempt, .connecting, _, _⟩ =>
      match s.status attempt with
      | some .opened => some (sendHello s hello)
      | some .failed => some (s.advance hello .failed)
      | _ => none
    | _ => none
  | .answered hello ok =>
    match s.stage hello with
    | some (.sent attempt) =>
      if ok then if s.goneAt attempt then none else some (s.advance hello (.accepted attempt))
      else some (s.advance hello .failed)
    | _ => none
  | .greeted sessionKey =>
    match s.inflight sessionKey with
    | some ⟨_, hello, false⟩ =>
      match s.stage hello with
      | some (.accepted _) =>
        if s.connection.isSome then
          some { s with agentInflight := s.agentInflight.map fun i =>
            if i.sessionKey = sessionKey then { i with spawning := true } else i }
        else some (s.landed sessionKey)
      | some .failed => some (s.landed sessionKey)
      | _ => none
    | _ => none
  | .spawned sessionKey ok =>
    match s.inflight sessionKey with
    | some ⟨_, _, true⟩ =>
      let s' := s.landed sessionKey
      some (if ok then { s' with entries := s'.entries ++ [sessionKey] } else s')
    | _ => none
  | .stored sessionKey =>
    if sessionKey ∈ s.entries then
      some { s with entries := s.entries.erase sessionKey, agents := s.agents.insert sessionKey }
    else none

end Nexal.GatewayHandshake
