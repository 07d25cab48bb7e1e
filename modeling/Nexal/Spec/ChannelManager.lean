import Mathlib.Logic.Function.Basic
import Nexal.Lib.Runs

/-! The channel manager (`src/channels/manager.ts`): reconciling the running channels with the configuration in the
database. One `Act` is what runs without an await in between; writers of the configuration, change notifications, the
poll timer and `stopAll` come between the awaits of a reconcile. -/

namespace Nexal.ChannelManager

/-- The registered channels, in the order of their imports. -/
def known : List String := ["http", "ws", "telegram", "heartbeat", "cron", "github"]

def alwaysOn : List String := ["http", "ws"]

def off : String := "<off>"

/-- The configuration of the channels: the bucket in each one's row. -/
abbrev Config (β : Type) := String → Option β

/-- What the manager takes from outside; buckets are JSON objects. -/
structure ChannelManagerConfig (β : Type) where
  /-- `buildChannelFn` makes a channel -/
  builds : String → β → Bool
  /-- `JSON.stringify` -/
  stringify : β → String
  /-- `{}` -/
  empty : β
  stringify_ne_off : ∀ b, stringify b ≠ off

structure Channel (β : Type) where
  name : String
  bucket : β
  stopped : Bool
deriving DecidableEq

inductive Phase (β : Type) where
  | idle
  /-- with what the query has found, once it has run -/
  | loading (found : Option (Config β))
  /-- `doReconcile` waits for a channel to stop; then the names after `name` are left -/
  | stopping (all : Config β) (name : String) (rest : List String) (running : ℕ)

/-- A call of `stopAll`: the channels it still waits for. -/
structure StopCall where
  waiting : List ℕ
  resolved : Bool
deriving DecidableEq

structure State (β : Type) where
  /-- the rows of the database -/
  config : Config β
  /-- writes whose notification is still to come -/
  outstanding : ℕ
  /-- all channels started -/
  started : List (Channel β)
  /-- the map, with the channels by their place in `started` -/
  channels : String → Option ℕ
  applied : String → Option String
  phase : Phase β
  rerun : Bool
  stopped : Bool
  subscribed : Bool
  /-- `startInitial` is at its reconcile -/
  starting : Bool
  timer : Bool
  stopCalls : List StopCall

def init {β : Type} (config : Config β) : State β :=
  ⟨config, 0, [], fun _ => none, fun _ => none, .idle, false, false, false, false, false, []⟩

section Manager
variable {β : Type} (cfg : ChannelManagerConfig β)

/-- The bucket of the channel that is to run, if one is. -/
def desired (all : Config β) (name : String) : Option β :=
  match all name with
  | some bucket => if cfg.builds name bucket then some bucket else none
  | none => if name ∈ alwaysOn ∧ cfg.builds name cfg.empty then some cfg.empty else none

def hash (all : Config β) (name : String) : String := (desired cfg all name).elim off cfg.stringify

/-- The channel is put in the map and started, if there is to be one. -/
def install (all : Config β) (name : String) (s : State β) : State β :=
  { s with
    started := match desired cfg all name with
      | some bucket => s.started ++ [⟨name, bucket, false⟩]
      | none => s.started
    channels := match desired cfg all name with
      | some _ => Function.update s.channels name (some s.started.length)
      | none => s.channels
    applied := Function.update s.applied name (some (hash cfg all name)) }

/-- `doReconcile` has returned. -/
def finish (s : State β) : State β :=
  if s.rerun ∧ ¬ s.stopped then { s with rerun := false, phase := .loading none } else { s with phase := .idle }

/-- The loop of `doReconcile` over the names that are left, up to its next await. -/
def applyNames (all : Config β) : List String → State β → State β
  | [], s => finish s
  | name :: rest, s =>
    if s.stopped then finish s
    else if s.applied name = some (hash cfg all name) then applyNames all rest s
    else
      match s.channels name with
      | some running => { s with phase := .stopping all name rest running }
      | none => applyNames all rest (install cfg all name s)

def reconcile (s : State β) : State β :=
  if s.stopped then s
  else
    match s.phase with
    | .idle => { s with rerun := false, phase := .loading none }
    | .loading _ | .stopping _ _ _ _ => { s with rerun := true }

def markStopped (s : State β) (i : ℕ) : State β :=
  { s with started := s.started.modify i fun c => { c with stopped := true } }

/-- The names in the map are all registered. -/
def stopAll (s : State β) : State β :=
  { s with
    stopped := true
    timer := false
    subscribed := false
    stopCalls := s.stopCalls ++ [⟨known.filterMap s.channels, false⟩] }

inductive Act (β : Type) where
  | write (name : String) (bucket : Option β)
  | notify
  | startInitial
  /-- `startInitial` goes on after its reconcile -/
  | setTimer
  | reconcile
  | poll
  /-- the database runs the query of `loadConfigs` -/
  | query
  /-- `loadConfigs` comes back, or fails -/
  | loaded (ok : Bool)
  /-- the channel that `doReconcile` waits for has stopped -/
  | stopped
  | stopAll
  /-- a channel has stopped for a `stopAll` -/
  | stoppedFor (k : ℕ) (i : ℕ)
  /-- a `stopAll` goes on when all its channels have stopped -/
  | stopAllGo (k : ℕ)
deriving DecidableEq

def step (s : State β) : Act β → Option (State β)
  | .write name bucket => some { s with config := Function.update s.config name bucket, outstanding := s.outstanding + 1 }
  | .notify =>
    if s.outstanding = 0 then none
    else
      let s := { s with outstanding := s.outstanding - 1 }
      some (if s.subscribed then reconcile s else s)
  | .startInitial => some (reconcile { s with subscribed := true, starting := true })
  | .setTimer => if s.starting then some { s with starting := false, timer := true } else none
  | .reconcile => some (reconcile s)
  | .poll => if s.timer then some (reconcile s) else none
  | .query =>
    match s.phase with
    | .loading none => some { s with phase := .loading (some s.config) }
    | _ => none
  | .loaded ok =>
    match s.phase with
    | .loading found =>
      match ok, found with
      | true, some all => some (applyNames cfg all known s)
      | true, none => none
      | false, _ => some (applyNames cfg (fun _ => none) known s)
    | _ => none
  | .stopped =>
    match s.phase with
    | .stopping all name rest running =>
      let s := markStopped s running
      let s := { s with channels := Function.update s.channels name none }
      some (applyNames cfg all rest (install cfg all name s))
    | _ => none
  | .stopAll => some (stopAll s)
  | .stoppedFor k i =>
    s.stopCalls[k]?.bind fun call =>
      if i ∈ call.waiting then
        some { markStopped s i with stopCalls := s.stopCalls.set k { call with waiting := call.waiting.filter (· ≠ i) } }
      else none
  | .stopAllGo k =>
    s.stopCalls[k]?.bind fun call =>
      if call.waiting = [] ∧ call.resolved = false then
        some { s with
          channels := fun _ => none
          applied := fun _ => none
          stopCalls := s.stopCalls.set k { call with resolved := true } }
      else none

end Manager

end Nexal.ChannelManager
