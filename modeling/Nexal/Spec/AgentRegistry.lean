import Mathlib.Data.List.AList
import Nexal.Lib.Runs
import Nexal.Spec.Session

/-! The agents and the proxies of the gateway (`crates/nexal-gateway/src/registry.rs`,
`proxy/registry.rs`, `proxy/tcp.rs`): three maps, each behind a lock of its own. The requests of any
number of sessions interleave at the locks and at the awaits between. -/

namespace Nexal.Gateway

open Link (AgentConnError)
open Wire (Value)

abbrev HashMap (κ α : Type) := AList fun _ : κ => α

/-! HTTP proxies -/

structure ProxyEntry where
  agentId : String
  name : String
  upstreamUrl : String
  headers : List (String × String)
  token : String

structure ProxyRegistry where
  byToken : HashMap String ProxyEntry
  /-- the token of an agent and a name -/
  index : HashMap (String × String) String

namespace ProxyRegistry

def new : ProxyRegistry := ⟨∅, ∅⟩

/-- The key is taken out of the index, and its token with it. -/
def remove (r : ProxyRegistry) (key : String × String) : ProxyRegistry :=
  match r.index.lookup key with
  | some token => ⟨r.byToken.erase token, r.index.erase key⟩
  | none => r

/-- `token` is a fresh v4 UUID. -/
def register (r : ProxyRegistry) (agentId name upstreamUrl : String) (headers : List (String × String)) (token : String) :
    ProxyRegistry :=
  let r := r.remove (agentId, name)
  ⟨r.byToken.insert token ⟨agentId, name, upstreamUrl, headers, token⟩, r.index.insert (agentId, name) token⟩

def unregister (r : ProxyRegistry) (agentId name : String) : ProxyRegistry × Bool :=
  (r.remove (agentId, name), (r.index.lookup (agentId, name)).isSome)

def cleanupForAgent (r : ProxyRegistry) (agentId : String) : ProxyRegistry :=
  (r.index.keys.filter (·.1 = agentId)).foldl remove r

/-- The count `cleanup_for_agent` returns. -/
def cleanupCount (r : ProxyRegistry) (agentId : String) : ℕ := (r.index.keys.filter (·.1 = agentId)).length

def lookup (r : ProxyRegistry) (token : String) : Option ProxyEntry := r.byToken.lookup token

end ProxyRegistry

/-! TCP proxies -/

/-- The task of a listener. -/
structure Listener where
  agentId : String
  name : String
  upstreamAddr : String
  /-- cancelled, or ended by an error of `accept` -/
  stopped : Bool

structure TcpProxyEntry where
  listenAddr : String
  /-- whose cancellation token it holds -/
  listener : ℕ

structure TcpProxyRegistry where
  inner : HashMap (String × String) TcpProxyEntry
  listeners : List Listener

namespace TcpProxyRegistry

def new : TcpProxyRegistry := ⟨∅, []⟩

def stop (r : TcpProxyRegistry) (i : ℕ) : TcpProxyRegistry :=
  { r with listeners := r.listeners.modify i fun l => { l with stopped := true } }

/-- The key is taken out, and its listener cancelled. -/
def remove (r : TcpProxyRegistry) (key : String × String) : TcpProxyRegistry :=
  match r.inner.lookup key with
  | some entry => { r.stop entry.listener with inner := r.inner.erase key }
  | none => r

/-- The first half of `register`: the socket is bound and its listener started. -/
def listen (r : TcpProxyRegistry) (agentId name upstreamAddr : String) : TcpProxyRegistry :=
  { r with listeners := r.listeners ++ [⟨agentId, name, upstreamAddr, false⟩] }

/-- The second half, under the lock. -/
def enter (r : TcpProxyRegistry) (agentId name listenAddr : String) (listener : ℕ) : TcpProxyRegistry :=
  let r := r.remove (agentId, name)
  { r with inner := r.inner.insert (agentId, name) ⟨listenAddr, listener⟩ }

def unregister (r : TcpProxyRegistry) (agentId name : String) : TcpProxyRegistry × Bool :=
  (r.remove (agentId, name), (r.inner.lookup (agentId, name)).isSome)

def cleanupForAgent (r : TcpProxyRegistry) (agentId : String) : TcpProxyRegistry :=
  (r.inner.keys.filter (·.1 = agentId)).foldl remove r

end TcpProxyRegistry

/-! Operations in progress -/

structure AgentRegistry where
  inner : HashMap String AgentEntry
  proxies : ProxyRegistry
  tcpProxies : TcpProxyRegistry

def AgentRegistry.new : AgentRegistry := ⟨∅, .new, .new⟩

/-- Where an operation is. -/
inductive Stage where
  | entering
  /-- `kill`, with what it has taken out of the map -/
  | cleaningProxies (entry : Option AgentEntry)
  | cleaningTcpProxies (entry : Option AgentEntry)
  /-- `kill` and `detach` close the connection, `kill` destroys the container -/
  | closing (entry : Option AgentEntry)
  /-- `register` of a TCP proxy, at the lock -/
  | listening (listenAddr : String) (listener : ℕ)

/-- What the rest of the world has to say to a step. -/
inductive Input where
  | proceed
  /-- the container is there and the agent, under a fresh v4 UUID, is connected -/
  | connected (entry : Except RegistryError AgentEntry)
  | destroyed (result : Except RegistryError Unit)
  | answered (result : Except AgentConnError Value)
  | token (token : String)
  | bound (listenAddr : Except String String)

/-- The end of `spawn` and of `attach`. -/
def AgentRegistry.dialAndRegister (g : AgentRegistry) :
    Except RegistryError AgentEntry → AgentRegistry × Except RegistryError AgentEntry
  | .ok entry => ({ g with inner := g.inner.insert entry.agentId entry }, .ok entry)
  | .error err => (g, .error err)

def AgentRegistry.killStep (g : AgentRegistry) (agentId : String) :
    Stage → Input → Option (AgentRegistry × (Stage ⊕ Except RegistryError Unit))
  | .entering, .proceed =>
    some ({ g with inner := g.inner.erase agentId }, .inl (.cleaningProxies (g.inner.lookup agentId)))
  | .cleaningProxies entry, .proceed =>
    some ({ g with proxies := g.proxies.cleanupForAgent agentId }, .inl (.cleaningTcpProxies entry))
  | .cleaningTcpProxies entry, .proceed =>
    some ({ g with tcpProxies := g.tcpProxies.cleanupForAgent agentId }, .inl (.closing entry))
  | .closing none, .proceed => some (g, .inr (.error (.unknownAgent agentId)))
  | .closing (some _), .destroyed result => some (g, .inr result)
  | _, _ => none

def AgentRegistry.detachStep (g : AgentRegistry) (agentId : String) :
    Stage → Input → Option (AgentRegistry × (Stage ⊕ Except RegistryError Unit))
  | .entering, .proceed =>
    match g.inner.lookup agentId with
    | some entry => some ({ g with inner := g.inner.erase agentId }, .inl (.closing (some entry)))
    | none => some (g, .inr (.error (.unknownAgent agentId)))
  | .closing _, .proceed => some (g, .inr (.ok ()))
  | _, _ => none

def AgentRegistry.registerStreamStep (g : AgentRegistry) (agentId name upstreamAddr : String) :
    Stage → Input → Option (AgentRegistry × (Stage ⊕ Except String String))
  | .entering, .bound (.ok listenAddr) =>
    some ({ g with tcpProxies := g.tcpProxies.listen agentId name upstreamAddr },
      .inl (.listening listenAddr g.tcpProxies.listeners.length))
  | .entering, .bound (.error err) => some (g, .inr (.error err))
  | .listening listenAddr listener, .proceed =>
    some ({ g with tcpProxies := g.tcpProxies.enter agentId name listenAddr listener }, .inr (.ok listenAddr))
  | _, _ => none

def AgentRegistry.opStep (g : AgentRegistry) (o : Op) (stage : Stage) (input : Input) :
    Option (AgentRegistry × (Stage ⊕ o.Answer)) :=
  match o with
  | .spawn _ _ _ _ _ | .attach _ =>
    match stage, input with
    | .entering, .connected entry => some (g.dialAndRegister entry |>.map id .inr)
    | _, _ => none
  | .kill agentId => g.killStep agentId stage input
  | .detach agentId => g.detachStep agentId stage input
  | .list => some (g, .inr (g.inner.entries.map (·.2)))
  | .get agentId => some (g, .inr (g.inner.lookup agentId))
  | .invoke _ _ _ =>
    match input with
    | .answered result => some (g, .inr result)
    | _ => none
  | .registerProxy agentId name upstreamUrl headers =>
    match input with
    | .token token => some ({ g with proxies := g.proxies.register agentId name upstreamUrl headers token }, .inr token)
    | _ => none
  | .unregisterProxy agentId name =>
    let (proxies, removed) := g.proxies.unregister agentId name
    some ({ g with proxies := proxies }, .inr removed)
  | .registerStreamProxy agentId name upstreamAddr => g.registerStreamStep agentId name upstreamAddr stage input
  | .unregisterStreamProxy agentId name =>
    let (tcpProxies, removed) := g.tcpProxies.unregister agentId name
    some ({ g with tcpProxies := tcpProxies }, .inr removed)

/-! Requests in flight -/

inductive Request where
  | doing (o : Op) (stage : Stage) (next : o.Answer → Dispatch)
  | done (result : Except JsonRpcError Value)

def Request.start : Dispatch → Request
  | .ret result => .done result
  | .op o next => .doing o .entering next

/-- After a step of its operation. -/
def Request.after {o : Op} (next : o.Answer → Dispatch) : Stage ⊕ o.Answer → Request
  | .inl stage => .doing o stage next
  | .inr answer => .start (next answer)

structure GatewayState where
  registry : AgentRegistry
  /-- the requests so far, of all sessions -/
  requests : List Request

def GatewayState.init : GatewayState := ⟨.new, []⟩

inductive GatewayAct where
  /-- a session dispatches a request -/
  | request (req : JsonRpcRequest)
  | go (i : ℕ) (input : Input)
  /-- `accept` of a listener fails -/
  | acceptFails (listener : ℕ)

variable (codec : Codec) (proxyExternalBase : String)

def gatewayStep (s : GatewayState) : GatewayAct → Option GatewayState
  | .request req =>
    match dispatch codec proxyExternalBase req with
    | .program d => some { s with requests := s.requests ++ [.start d] }
    -- `verify_hello` has nothing to do with the agents
    | .hello _ => none
  | .go i input =>
    s.requests[i]?.bind fun
      | .doing o stage next =>
        (s.registry.opStep o stage input).map fun p =>
          { registry := p.1, requests := s.requests.set i (.after next p.2) }
      | .done _ => none
  | .acceptFails listener => some { s with registry :=
    { s.registry with tcpProxies := s.registry.tcpProxies.stop listener } }

end Nexal.Gateway
