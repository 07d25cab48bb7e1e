import Nexal.Lib.Broadcast
import Nexal.Spec.AgentFrame
import Nexal.Spec.Hello

/-! A session of the gateway (`crates/nexal-gateway/src/server/session.rs`): the loop that answers the
client's requests one after the other, and the task that forwards the agents' notifications. What the
registry, the proxies and the agents answer is up to them; parsing of parameters is the library's. -/

namespace Nexal.Gateway

open Link (mpMap ofI32 ofU64 AgentConnError)
open Wire (Value)

/-! Methods and their parameters -/

inductive GatewayMethod where
  | hello
  | spawnAgent
  | killAgent
  | detachAgent
  | attachAgent
  | listAgents
  | agentInvoke
  | registerProxy
  | unregisterProxy
  | registerStreamProxy
  | unregisterStreamProxy
deriving DecidableEq

def GatewayMethod.parse : String → Option GatewayMethod
  | "gateway/hello" => some .hello
  | "gateway/spawn_agent" => some .spawnAgent
  | "gateway/kill_agent" => some .killAgent
  | "gateway/detach_agent" => some .detachAgent
  | "gateway/attach_agent" => some .attachAgent
  | "gateway/list_agents" => some .listAgents
  | "agent/invoke" => some .agentInvoke
  | "gateway/register_proxy" => some .registerProxy
  | "gateway/unregister_proxy" => some .unregisterProxy
  | "gateway/register_stream_proxy" => some .registerStreamProxy
  | "gateway/unregister_stream_proxy" => some .unregisterStreamProxy
  | _ => none

structure SpawnAgentParams where
  name : String
  image : Option String
  env : List (String × String)
  labels : List (String × String)
  extraPorts : List UInt16

structure AgentInvokeParams where
  agentId : String
  method : String
  params : Option Value

structure RegisterProxyParams where
  agentId : String
  name : String
  upstreamUrl : String
  headers : List (String × String)

/-- `UnregisterProxyParams` and `UnregisterStreamProxyParams` -/
structure UnregisterParams where
  agentId : String
  name : String

structure RegisterStreamProxyParams where
  agentId : String
  name : String
  containerPort : UInt16

structure JsonRpcRequest where
  id : Option Value
  method : String
  params : Option Value

/-- `rmpv::ext::from_value` at the types of the parameters; an error is its text. -/
structure Codec where
  request : Value → Except String JsonRpcRequest
  hello : Value → Except String HelloParams
  spawnAgent : Value → Except String SpawnAgentParams
  /-- `AgentIdParams` -/
  agentId : Value → Except String String
  /-- `AttachAgentParams` -/
  containerName : Value → Except String String
  agentInvoke : Value → Except String AgentInvokeParams
  registerProxy : Value → Except String RegisterProxyParams
  unregister : Value → Except String UnregisterParams
  registerStreamProxy : Value → Except String RegisterStreamProxyParams

/-! Errors and responses -/

def parseErrorCode : Int32 := -32700
def methodNotFoundCode : Int32 := -32601
def invalidParamsCode : Int32 := -32602
def notAuthenticatedCode : Int32 := -32000
def unknownAgentCode : Int32 := -32010
def backendErrorCode : Int32 := -32020

inductive RegistryError where
  | backend (message : String)
  | agentConn (message : String)
  | unknownAgent (id : String)
  | unknownContainer (name : String)

def registryErr : RegistryError → JsonRpcError
  | .backend message => ⟨backendErrorCode, message, none⟩
  | .agentConn message => ⟨backendErrorCode, message, none⟩
  | .unknownAgent id => ⟨unknownAgentCode, "unknown agent " ++ id, none⟩
  | .unknownContainer name => ⟨unknownAgentCode, "unknown container " ++ name, none⟩

/-- Of an `AgentConnError`. -/
def agentConnErr : AgentConnError → JsonRpcError
  | .agentError code message => ⟨code, message, none⟩
  | .closed => ⟨-32000, "agent connection closed", none⟩

def errorValue (err : JsonRpcError) : Value :=
  mpMap ([("code", ofI32 err.code), ("message", .string err.message)] ++ (err.data.map fun d => ("data", d)).toList)

def responseFrame (id : Value) : Except JsonRpcError Value → Value
  | .ok result => mpMap [("id", id), ("result", result)]
  | .error err => mpMap [("id", id), ("error", errorValue err)]

def okResponse (ok : Bool) : Value := mpMap [("ok", .boolean ok)]

def gatewayVersion : String := "0.1.0"

def helloResponse : Value := mpMap [("ok", .boolean true), ("gateway_version", .string gatewayVersion)]

structure AgentNotify where
  agentId : String
  method : String
  params : Option Value

/-- The notification that carries one of an agent. -/
def notifyFrame (n : AgentNotify) : Value :=
  mpMap [("method", .string "agent/notify"),
    ("params", mpMap ([("agent_id", .string n.agentId), ("method", .string n.method)] ++
      (n.params.map fun p => ("params", p)).toList))]

/-! What a request asks of the rest of the gateway -/

structure AgentEntry where
  agentId : String
  containerName : String
  createdAtUnixMs : UInt64
  portMap : List (UInt16 × String)

inductive Op where
  | spawn (name : String) (image : Option String) (env labels : List (String × String)) (extraPorts : List UInt16)
  | kill (agentId : String)
  | detach (agentId : String)
  | attach (containerName : String)
  | list
  | get (agentId : String)
  | invoke (agent : AgentEntry) (method : String) (params : Option Value)
  | registerProxy (agentId name upstreamUrl : String) (headers : List (String × String))
  | unregisterProxy (agentId name : String)
  | registerStreamProxy (agentId name upstreamAddr : String)
  | unregisterStreamProxy (agentId name : String)

def Op.Answer : Op → Type
  | .spawn _ _ _ _ _ | .attach _ => Except RegistryError AgentEntry
  | .kill _ | .detach _ => Except RegistryError Unit
  | .list => List AgentEntry
  | .get _ => Option AgentEntry
  | .invoke _ _ _ => Except AgentConnError Value
  /- the token of the entry -/
  | .registerProxy _ _ _ _ => String
  | .unregisterProxy _ _ | .unregisterStreamProxy _ _ => Bool
  | .registerStreamProxy _ _ _ => Except String String

/-- What is left of a dispatch. -/
inductive Dispatch where
  | ret (result : Except JsonRpcError Value)
  | op (o : Op) (next : o.Answer → Dispatch)

def invalidParams (err : String) : JsonRpcError := ⟨invalidParamsCode, "invalid params: " ++ err, none⟩

def withParams {α : Type} (parsed : Except String α) (next : α → Dispatch) : Dispatch :=
  match parsed with
  | .ok p => next p
  | .error err => .ret (.error (invalidParams err))

def withAgent (agentId : String) (next : AgentEntry → Dispatch) : Dispatch :=
  .op (.get agentId) fun
    | some agent => next agent
    | none => .ret (.error ⟨unknownAgentCode, "no agent " ++ agentId, none⟩)

def retEntry (r : Except RegistryError AgentEntry) : Dispatch :=
  .ret (match r with
    | .ok e => .ok (mpMap [("agent_id", .string e.agentId), ("container_name", .string e.containerName)])
    | .error err => .error (registryErr err))

def retUnit (r : Except RegistryError Unit) : Dispatch :=
  .ret (match r with
    | .ok () => .ok (okResponse true)
    | .error err => .error (registryErr err))

def retInvoked (r : Except AgentConnError Value) : Dispatch :=
  .ret (match r with
    | .ok value => .ok value
    | .error err => .error (agentConnErr err))

def agentSummary (e : AgentEntry) : Value :=
  mpMap [("agent_id", .string e.agentId), ("container_name", .string e.containerName),
    ("created_at_unix_ms", ofU64 e.createdAtUnixMs)]

def containerSocketPath (name : String) : String :=
  "/run/nexal/proxy/" ++ name.map (fun c => if c.isAlphanum ∨ c = '_' ∨ c = '.' ∨ c = '-' then c else '_') ++ ".socket"

/-- `trim_end_matches('/')` -/
def trimEndSlashes (s : String) : String := String.ofList (s.toList.reverse.dropWhile (· = '/')).reverse

section Dispatch
variable (codec : Codec) (proxyExternalBase : String)

/-- Where a dispatch begins: with the verification of a hello, or with operations. -/
inductive Started where
  | hello (p : HelloParams)
  | program (d : Dispatch)

def dispatchRegisterProxy (p : RegisterProxyParams) : Dispatch :=
  withAgent p.agentId fun agent =>
    .op (.registerProxy p.agentId p.name p.upstreamUrl p.headers) fun (token : String) =>
      let socketPath := containerSocketPath p.name
      let agentParams := mpMap [("headers", .map []), ("socket_path", .string socketPath),
        ("upstream_url", .string (trimEndSlashes proxyExternalBase ++ "/p/" ++ token))]
      .op (.invoke agent "proxy/register" (some agentParams)) fun
        | .ok _ => .ret (.ok (mpMap [("token", .string token), ("socket_path", .string socketPath)]))
        | .error err => .op (.unregisterProxy p.agentId p.name) fun _ => .ret (.error (agentConnErr err))

def dispatchUnregisterProxy (p : UnregisterParams) : Dispatch :=
  let remove : Dispatch := .op (.unregisterProxy p.agentId p.name) fun removed => .ret (.ok (okResponse removed))
  .op (.get p.agentId) fun
    | some agent =>
      .op (.invoke agent "proxy/unregister" (some (mpMap [("socket_path", .string (containerSocketPath p.name))])))
        fun _ => remove
    | none => remove

def dispatchRegisterStreamProxy (p : RegisterStreamProxyParams) : Dispatch :=
  withAgent p.agentId fun agent =>
    match agent.portMap.lookup p.containerPort with
    | none =>
      .ret (.error ⟨invalidParamsCode,
        "port " ++ toString p.containerPort.toNat ++ " not published for agent " ++ p.agentId, none⟩)
    | some upstreamAddr =>
      .op (.registerStreamProxy p.agentId p.name upstreamAddr) fun
        | .ok listenAddr => .ret (.ok (mpMap [("listen_addr", .string listenAddr)]))
        | .error err => .ret (.error ⟨backendErrorCode, err, none⟩)

def dispatch (req : JsonRpcRequest) : Started :=
  let params := req.params.getD .nil
  match GatewayMethod.parse req.method with
  | some .hello =>
    match codec.hello params with
    | .ok p => .hello p
    | .error err => .program (.ret (.error (invalidParams err)))
  | some .spawnAgent => .program <| withParams (codec.spawnAgent params) fun p =>
    .op (.spawn p.name p.image p.env p.labels p.extraPorts) retEntry
  | some .killAgent => .program <| withParams (codec.agentId params) fun agentId => .op (.kill agentId) retUnit
  | some .detachAgent => .program <| withParams (codec.agentId params) fun agentId => .op (.detach agentId) retUnit
  | some .attachAgent => .program <| withParams (codec.containerName params) fun name => .op (.attach name) retEntry
  | some .listAgents => .program <| .op .list fun entries =>
    .ret (.ok (mpMap [("agents", .array (entries.map agentSummary))]))
  | some .agentInvoke => .program <| withParams (codec.agentInvoke params) fun p =>
    withAgent p.agentId fun agent => .op (.invoke agent p.method p.params) retInvoked
  | some .registerProxy => .program <| withParams (codec.registerProxy params) (dispatchRegisterProxy proxyExternalBase)
  | some .unregisterProxy => .program <| withParams (codec.unregister params) dispatchUnregisterProxy
  | some .registerStreamProxy => .program <| withParams (codec.registerStreamProxy params) dispatchRegisterStreamProxy
  | some .unregisterStreamProxy => .program <| withParams (codec.unregister params) fun p =>
    .op (.unregisterStreamProxy p.agentId p.name) fun removed => .ret (.ok (okResponse removed))
  | none => .program (.ret (.error ⟨methodNotFoundCode, "unknown method: " ++ req.method, none⟩))

end Dispatch

/-! The session -/

inductive Loop where
  | receiving
  /-- at the `authenticated` flag -/
  | gate (id : Value) (req : JsonRpcRequest)
  | helloStarted (id : Value) (p : HelloParams)
  | helloLocking (id : Value) (p : HelloParams) (now : Int64)
  /-- with the cache it has found -/
  | helloVerifying (id : Value) (p : HelloParams) (now : Int64) (nonceCache : List (String × Int64))
  /-- verified, about to set the flag -/
  | authenticating (id : Value) (p : HelloParams) (now : Int64) (nonceCache : List (String × Int64))
  | running (id : Value) (d : Dispatch)
  | awaiting (id : Value) (o : Op) (next : o.Answer → Dispatch)
  | ended
  | panicked

/-- The task that forwards notifications. -/
inductive Forwarder where
  | receiving
  | checking (n : AgentNotify)
  | sending (n : AgentNotify)
  | ended

/-- What has happened in the session. -/
inductive Entry where
  /-- a call of `verify_hello`: its clock reading, the cache it found and its result -/
  | hello (p : HelloParams) (now : Int64) (nonceCache : List (String × Int64))
    (result : Outcome (Except JsonRpcError Unit))
  | executed (o : Op)
  | forwarded (n : AgentNotify)

structure SessionState where
  authenticated : Bool
  nonceCache : List (String × Int64)
  clock : Int64
  loop : Loop
  forwarder : Forwarder
  /-- the task that writes to the client is there -/
  writer : Bool
  sent : List Value
  log : List Entry

def SessionState.init (nonceCache : List (String × Int64)) (clock : Int64) : SessionState :=
  ⟨false, nonceCache, clock, .receiving, .receiving, true, [], []⟩

inductive SessionEvent where
  | message (value : Value)
  | malformedMessage (reason : String)
  /-- also when the channel has come to its end -/
  | disconnected

inductive SessionAct where
  | receive (ev : SessionEvent)
  /-- the loop goes on by itself -/
  | go
  /-- an operation is begun -/
  | perform
  | answer (a : (o : Op) → o.Answer)
  | notified (n : AgentNotify)
  /-- the notifications have come to an end, or the forwarder has missed some -/
  | notifyError
  | checkFlag
  | forward
  /-- the forwarder is stopped after the loop -/
  | abort
  | writerGone
  /-- other sessions use the nonce cache -/
  | others (nonceCache : List (String × Int64))
  | tick (now : Int64)

def SessionState.send (s : SessionState) (value : Value) : SessionState :=
  { s with sent := if s.writer then s.sent ++ [value] else s.sent }

def SessionState.record (s : SessionState) (e : Entry) : SessionState := { s with log := s.log ++ [e] }

def respond (s : SessionState) (id : Value) (result : Except JsonRpcError Value) : SessionState :=
  { s.send (responseFrame id result) with loop := .receiving }

section Session
variable (codec : Codec) (proxyExternalBase : String) (credentials : List (String × String))
  (hmacVerify : String → String → List UInt8 → Bool)

def receiveStep (s : SessionState) : SessionEvent → SessionState
  | .message value =>
    match codec.request value with
    | .error err => respond s .nil (.error ⟨parseErrorCode, "msgpack: " ++ err, none⟩)
    | .ok req =>
      match req.id with
      | none => s
      | some id => { s with loop := .gate id req }
  | .malformedMessage reason => respond s .nil (.error ⟨parseErrorCode, reason, none⟩)
  | .disconnected => { s with loop := .ended }

def goStep (s : SessionState) : Option SessionState :=
  match s.loop with
  | .gate id req =>
    if ¬ s.authenticated ∧ GatewayMethod.parse req.method ≠ some .hello then
      some (respond s id (.error ⟨notAuthenticatedCode, "send gateway/hello first", none⟩))
    else
      match dispatch codec proxyExternalBase req with
      | .hello p => some { s with loop := .helloStarted id p }
      | .program d => some { s with loop := .running id d }
  | .helloStarted id p =>
    match checkHello credentials s.clock p with
    | .error err => some ((respond s id (.error err)).record (.hello p s.clock s.nonceCache (.ok (.error err))))
    | .ok () => some { s with loop := .helloLocking id p s.clock }
  | .helloLocking id p now =>
    match guardNonce now s.nonceCache p.nonce with
    | (cache, false) =>
      let err := reject "replayed nonce"
      some { (respond s id (.error err)).record (.hello p now s.nonceCache (.ok (.error err))) with nonceCache := cache }
    | (cache, true) => some { s with nonceCache := cache, loop := .helloVerifying id p now s.nonceCache }
  | .helloVerifying id p now found =>
    match checkSignature credentials hmacVerify p with
    | .panic => some { s.record (.hello p now found .panic) with loop := .panicked }
    | .ok (.error err) => some ((respond s id (.error err)).record (.hello p now found (.ok (.error err))))
    | .ok (.ok ()) => some { s with loop := .authenticating id p now found }
  | .authenticating id p now found =>
    some { (respond s id (.ok helloResponse)).record (.hello p now found (.ok (.ok ()))) with authenticated := true }
  | .running id (.ret result) => some (respond s id result)
  | _ => none

def sessionStep (s : SessionState) : SessionAct → Option SessionState
  | .receive ev =>
    match s.loop with
    | .receiving => some (receiveStep codec s ev)
    | _ => none
  | .go => goStep codec proxyExternalBase credentials hmacVerify s
  | .perform =>
    match s.loop with
    | .running id (.op o next) => some { s.record (.executed o) with loop := .awaiting id o next }
    | _ => none
  | .answer a =>
    match s.loop with
    | .awaiting id o next => some { s with loop := .running id (next (a o)) }
    | _ => none
  | .notified n =>
    match s.forwarder with
    | .receiving => some { s with forwarder := .checking n }
    | _ => none
  | .notifyError =>
    match s.forwarder with
    | .receiving => some { s with forwarder := .ended }
    | _ => none
  | .checkFlag =>
    match s.forwarder with
    | .checking n => some { s with forwarder := if s.authenticated then .sending n else .receiving }
    | _ => none
  | .forward =>
    match s.forwarder with
    | .sending n =>
      if s.writer then some { (s.send (notifyFrame n)).record (.forwarded n) with forwarder := .receiving }
      else some { s with forwarder := .ended }
    | _ => none
  | .abort =>
    match s.loop with
    | .ended => some { s with forwarder := .ended }
    | _ => none
  | .writerGone => some { s with writer := false }
  | .others nonceCache => some { s with nonceCache := nonceCache }
  | .tick now => if s.clock ≤ now then some { s with clock := now } else none

end Session

end Nexal.Gateway

/-! The notifications of the agents on their way to the client of a session: the broadcast channel of the registry
(`crates/nexal-gateway/src/registry.rs`) and the receiver that `run` has subscribed. -/

namespace Nexal.Gateway

open Broadcast (recv)

/-- The capacity of `notify_tx`. -/
@[irreducible] def notifyCapacity : ℕ := 256

structure NotifyState where
  session : SessionState
  /-- sent since the session has subscribed -/
  sent : List AgentNotify
  /-- the receiver's place -/
  next : ℕ
  /-- how many had been sent when the receiver first missed one -/
  missed : Option ℕ
  /-- what was sent while the session ran for an authenticated client, by its place; so in the two below -/
  owed : List ℕ
  received : List ℕ
  forwarded : List ℕ

def NotifyState.init (nonceCache : List (String × Int64)) (clock : Int64) : NotifyState :=
  ⟨.init nonceCache clock, [], 0, none, [], [], []⟩

/-- The session has not come to an end. -/
def SessionState.on (s : SessionState) : Bool :=
  match s.loop with
  | .ended | .panicked => false
  | _ => s.writer

inductive NotifyAct where
  /-- any step of the session but those of its receiver -/
  | session (a : SessionAct)
  | broadcast (n : AgentNotify)
  /-- `recv` of the receiver returns -/
  | recv

def broadcast (s : NotifyState) (n : AgentNotify) : NotifyState :=
  { s with
    sent := s.sent ++ [n]
    missed := s.missed.or (if s.next + notifyCapacity < s.sent.length + 1 then some (s.sent.length + 1) else none)
    owed := if s.session.authenticated && s.session.on then s.owed ++ [s.sent.length] else s.owed }

/-- After a step of the session that leads to `t`. -/
def NotifyState.after (s : NotifyState) (a : SessionAct) (t : SessionState) : NotifyState :=
  match a with
  | .forward => { s with session := t, forwarded := if s.session.writer then s.forwarded ++ [s.next - 1] else s.forwarded }
  | _ => { s with session := t }

section Notify
variable (codec : Codec) (proxyExternalBase : String) (credentials : List (String × String))
  (hmacVerify : String → String → List UInt8 → Bool)

def recvStep (s : NotifyState) : Option NotifyState :=
  let step := sessionStep codec proxyExternalBase credentials hmacVerify s.session
  match recv notifyCapacity s.sent s.next with
  | (.empty, _) => none
  | (.lagged _, next) => (step .notifyError).map fun t => { s with session := t, next := next }
  | (.value n, next) => (step (.notified n)).map fun t =>
    { s with session := t, next := next, received := s.received ++ [s.next] }

def notifyStep (s : NotifyState) : NotifyAct → Option NotifyState
  | .session (.notified _) | .session .notifyError => none
  | .session a => (sessionStep codec proxyExternalBase credentials hmacVerify s.session a).map (s.after a)
  | .broadcast n => some (broadcast s n)
  | .recv => recvStep codec proxyExternalBase credentials hmacVerify s

end Notify

end Nexal.Gateway
