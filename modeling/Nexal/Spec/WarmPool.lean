import Nexal.Spec.ContainerBackend

/-! Spawning, attaching and the pool of warm containers (`crates/nexal-gateway/src/registry.rs`, `pool.rs`).
The calls of the registry interleave with the pool's loop at their awaits; a restart begins with an empty
registry and an empty pool while the containers stay. -/

namespace Nexal.Containers

open Gateway (HashMap)

structure SpawnDefaults where
  image : String
  agentBin : String
  memory : Option String
  cpus : Option String
  pidsLimit : Option UInt32
  network : Bool
  containerNamePrefix : String
  workspaceVolume : Option String

structure WarmPoolConfig where
  size : ℕ
  image : String

structure Config where
  spawnDefaults : SpawnDefaults
  /-- with no size, or one of zero, there is no pool -/
  warmPool : Option WarmPoolConfig

/-- The parameters of `spawn`. -/
structure SpawnRequest where
  name : String
  image : Option String
  env : HashMap String String
  labels : HashMap String String
  extraPorts : List UInt16

/-- What a name's character becomes in the name of a container, and in the path of a socket. -/
def sanitize (c : Char) : Char := if c.isAlphanum ∨ c = '_' ∨ c = '.' ∨ c = '-' then c else '_'

def deriveContainerName (d : SpawnDefaults) (name : String) : String := d.containerNamePrefix ++ name.map sanitize

def spawnSpec (d : SpawnDefaults) (r : SpawnRequest) : ContainerSpec where
  name := deriveContainerName d r.name
  image := r.image.getD d.image
  env := r.env
  labels := r.labels
  agentBin := d.agentBin
  memory := d.memory
  cpus := d.cpus
  pidsLimit := d.pidsLimit
  network := d.network
  workspaceVolume := d.workspaceVolume
  extraPorts := r.extraPorts
  fuse := true

/-- With it `attach` starts the container that is there. -/
def attachSpec (d : SpawnDefaults) (containerName : String) : ContainerSpec where
  name := containerName
  image := d.image
  env := ∅
  labels := ∅
  agentBin := d.agentBin
  memory := d.memory
  cpus := d.cpus
  pidsLimit := d.pidsLimit
  network := d.network
  workspaceVolume := d.workspaceVolume
  extraPorts := []
  fuse := true

/-- Of `create_one`. -/
def warmSpec (d : SpawnDefaults) (image : String) (seq : UInt64) : ContainerSpec where
  name := d.containerNamePrefix ++ "pool-" ++ toString seq.toNat
  image := image
  env := ∅
  labels := (∅ : HashMap String String).insert "nexal.pool" "warm"
  agentBin := d.agentBin
  memory := d.memory
  cpus := d.cpus
  pidsLimit := d.pidsLimit
  network := d.network
  workspaceVolume := none
  extraPorts := []
  fuse := true

/-! Calls of the registry -/

inductive Op where
  | spawn (r : SpawnRequest)
  | attach (containerName : String)
  | kill
  | detachAll

inductive Phase where
  /-- `attach`: at `exists` -/
  | looking (containerName : String)
  | ensuring (call : Ensure)
  /-- `attach`: at `url` -/
  | locating (containerName : String)
  | dialing (handle : ContainerHandle)
  /-- `detach_all`, before the pool is drained -/
  | draining
  /-- `kill`, and the drain of the pool: the containers still to be destroyed -/
  | destroying (names : List String)
  | finished

structure Call where
  op : Op
  phase : Phase
  /-- the pool when the call began -/
  found : List ContainerHandle
  /-- the container a spawn has got -/
  given : Option ContainerHandle

/-- The loop that tops up the pool. -/
inductive Replenish where
  | idle
  | ensuring (call : Ensure)
  /-- before the handle is pushed -/
  | pushing (handle : ContainerHandle)

structure State where
  /-- all containers there ever were -/
  made : List Container
  counter : UInt64
  available : List ContainerHandle
  replenish : Replenish
  /-- by the call that has registered them -/
  agents : HashMap ℕ ContainerHandle
  calls : List Call
  /-- the containers `create_one` has got -/
  pooled : List ℕ
  /-- the containers whose agents were detached -/
  detached : List ℕ
  /-- the pool has been drained -/
  drained : Bool

def State.init (h : Host) : State := ⟨h.made, 0, [], .idle, ∅, [], [], [], false⟩

inductive Act where
  | spawn (r : SpawnRequest)
  | attach (containerName : String)
  | kill (agentId : ℕ)
  | detach (agentId : ℕ)
  | detachAll
  /-- the loop looks whether the pool is full -/
  | replenish
  | ensurePool (now : String) (ok : Bool)
  | push
  /-- a call of the registry goes on -/
  | go (i : ℕ) (now : String) (ok : Bool)
  /-- the process ends, and the next one begins -/
  | restart

def State.begin (s : State) (op : Op) (phase : Phase) (given : Option ContainerHandle) : State :=
  { s with calls := s.calls ++ [⟨op, phase, s.available, given⟩] }

def State.goto (s : State) (i : ℕ) (call : Call) (phase : Phase) : State :=
  { s with calls := s.calls.set i { call with phase := phase } }

/-- The handle `take` returns. -/
def State.take (s : State) : Option ContainerHandle := s.available.getLast?

section Step
variable (cfg : Config)

/-- Whether a request goes to the pool. -/
def SpawnRequest.plain (r : SpawnRequest) : Bool := r.image.isNone && r.extraPorts.isEmpty && cfg.warmPool.isSome

def spawn (s : State) (r : SpawnRequest) : State :=
  match if r.plain cfg then s.take else none with
  | some handle => { s.begin (.spawn r) (.dialing handle) (some handle) with available := s.available.dropLast }
  | none => s.begin (.spawn r) (.ensuring (.checking (spawnSpec cfg.spawnDefaults r))) none

def kill (s : State) (agentId : ℕ) : State :=
  match s.agents.lookup agentId with
  | some handle => { s.begin .kill (.destroying [handle.name]) none with agents := s.agents.erase agentId }
  | none => s.begin .kill .finished none

def detach (s : State) (agentId : ℕ) : State :=
  match s.agents.lookup agentId with
  | some handle => { s with agents := s.agents.erase agentId, detached := s.detached ++ [handle.container] }
  | none => s

def detachAll (s : State) : State :=
  { s.begin .detachAll .draining none with
    agents := ∅
    detached := s.detached ++ s.agents.entries.map (·.2.container) }

/-- `replenish`, up to the `ensure` of `create_one`. -/
def replenish (s : State) : Option State :=
  match s.replenish, cfg.warmPool with
  | .idle, some pool =>
    if s.available.length < pool.size then
      some { s with
        counter := s.counter + 1
        replenish := .ensuring (.checking (warmSpec cfg.spawnDefaults pool.image s.counter)) }
    else some s
  | _, _ => none

def ensurePool (s : State) (now : String) (ok : Bool) : Option State :=
  match s.replenish with
  | .ensuring call =>
    (call.go .pool now ok s.made).map fun
      | (made, .going call) => { s with made := made, replenish := .ensuring call }
      | (made, .returned handle) =>
        { s with made := made, replenish := .pushing handle, pooled := s.pooled ++ [handle.container] }
      | (made, .failed) => { s with made := made, replenish := .idle }
  | _ => none

/-- What becomes of a call of the registry when its `ensure` has gone on. -/
def ensured (s : State) (i : ℕ) (call : Call) : List Container × Ensured → State
  | (made, .going e) => { s.goto i call (.ensuring e) with made := made }
  | (made, .failed) => { s.goto i call .finished with made := made }
  | (made, .returned handle) =>
    match call.op with
    | .spawn _ => { s.goto i { call with given := some handle } (.dialing handle) with made := made }
    | _ => { s.goto i call (.locating handle.name) with made := made }

def go (s : State) (i : ℕ) (call : Call) (now : String) (ok : Bool) : Option State :=
  match call.phase with
  | .looking containerName =>
    if ok && (find s.made containerName).isSome then
      some (s.goto i call (.ensuring (.checking (attachSpec cfg.spawnDefaults containerName))))
    else some (s.goto i call .finished)
  | .ensuring e => (e.go (.call i) now ok s.made).map (ensured s i call)
  | .locating containerName =>
    if ok then (find s.made containerName).map fun c => s.goto i call (.dialing ⟨containerName, c⟩)
    else some (s.goto i call .finished)
  | .dialing handle =>
    if ok then some { s.goto i call .finished with agents := s.agents.insert i handle }
    else some (s.goto i call .finished)
  | .draining =>
    some { s.goto i call (.destroying (s.available.map (·.name))) with available := [], drained := true }
  | .destroying (name :: names) =>
    some { s.goto i call (.destroying names) with made := if ok then remove s.made name else s.made }
  | .destroying [] => some (s.goto i call .finished)
  | .finished => none

/-- The calls in progress are lost. -/
def restart (s : State) : State :=
  { State.init ⟨[], List.nodup_nil⟩ with
    made := s.made
    calls := s.calls.map fun call => { call with phase := .finished }
    pooled := s.pooled
    detached := s.detached }

def step (s : State) : Act → Option State
  | .spawn r => some (spawn cfg s r)
  | .attach containerName => some (s.begin (.attach containerName) (.looking containerName) none)
  | .kill agentId => some (kill s agentId)
  | .detach agentId => some (detach s agentId)
  | .detachAll => some (detachAll s)
  | .replenish => replenish cfg s
  | .ensurePool now ok => ensurePool s now ok
  | .push =>
    match s.replenish with
    | .pushing handle => some { s with available := s.available ++ [handle], replenish := .idle }
    | _ => none
  | .go i now ok => s.calls[i]?.bind fun call => go cfg s i call now ok
  | .restart => some (restart s)

end Step

end Nexal.Containers
