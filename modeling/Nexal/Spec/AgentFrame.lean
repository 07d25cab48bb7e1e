import Nexal.Spec.Wire

/-! The frames between gateway and agent, as the two programs write and read them
(`crates/nexal-gateway/src/agent_conn.rs`, `crates/nexal-agent/src/server/channel/dispatch.rs`). -/

namespace Nexal.Link

open Wire (Value Integer mapGet)

def asU64 : Value → Option UInt64
  | .integer n => if 0 ≤ n.val then some (UInt64.ofNat n.val.toNat) else none
  | _ => none

def asI64 : Value → Option ℤ
  | .integer n => if n.val < 2 ^ 63 then some n.val else none
  | _ => none

def ofU64 (n : UInt64) : Value :=
  .integer ⟨n.toNat, by have := n.toNat_lt; omega⟩

def ofI32 (n : Int32) : Value := .integer (.ofInt32 n)

def mapStr (value : Value) (key : String) : Option String := (mapGet value key).bind Value.asStr

def mpMap (pairs : List (String × Value)) : Value := .map (pairs.map fun (k, v) => (.string k, v))

def buildRpcRequest (id : UInt64) (method : String) (params : Value) : Value :=
  mpMap [("id", ofU64 id), ("method", .string method), ("params", params)]

def buildRpcNotification (method : String) (params : Value) : Value :=
  mpMap [("method", .string method), ("params", params)]

def resultFrame (id result : Value) : Value := mpMap [("id", id), ("result", result)]

def errorFrame (id error : Value) : Value := mpMap [("id", id), ("error", error)]

/-- The id of a frame that may be a response: one without a method. -/
def responseId (value : Value) : Option UInt64 :=
  if (mapGet value "method").isSome then none else (mapGet value "id").bind asU64

/-! What a caller gets out of a response -/

inductive AgentConnError where
  | closed
  | agentError (code : Int32) (message : String)
deriving DecidableEq

def agentErrorCode (err : Value) : Int32 :=
  match (mapGet err "code").bind asI64 with
  | some code => Int32.ofInt code
  | none =>
    match mapStr err "kind" with
    | some "parse" => -32700
    | some "invalid_request" => -32600
    | some "method_not_found" => -32601
    | some "invalid_params" => -32602
    | _ => -32603

def gatewayResult (value : Value) : Except AgentConnError Value :=
  match mapGet value "error" with
  | some err => .error (.agentError (agentErrorCode err) ((mapStr err "message").getD "agent error"))
  | none => .ok ((mapGet value "result").getD .nil)

def agentResult (value : Value) : Except String Value :=
  match mapGet value "error" with
  | some err => .error ((mapStr err "message").getD "gateway error")
  | none => .ok ((mapGet value "result").getD .nil)

/-! Requests of the agent, answered by the gateway -/

/-- `handle_agent_request`; `skills` is what the skills service says. -/
def handleAgentRequest (skills : Except String Value) (method : String) : Except String Value :=
  if method = "skills/list" ∨ method = "skills/read" then skills
  else .error ("unknown agent request: " ++ method)

def gatewayResponse (id : Value) : Except String Value → Value
  | .ok val => resultFrame id val
  | .error msg => errorFrame id (mpMap [("code", ofI32 (-32603)), ("message", .string msg)])

/-! Requests of the gateway, answered by the agent -/

inductive ChannelErrorKind where
  | parse
  | invalidRequest
  | methodNotFound
  | invalidParams
  | internal
deriving DecidableEq

def ChannelErrorKind.toString : ChannelErrorKind → String
  | .parse => "parse"
  | .invalidRequest => "invalid_request"
  | .methodNotFound => "method_not_found"
  | .invalidParams => "invalid_params"
  | .internal => "internal"

structure ChannelError where
  kind : ChannelErrorKind
  message : String
  data : Option Value

def mpError (err : ChannelError) : Value :=
  mpMap ([("kind", .string err.kind.toString), ("message", .string err.message)] ++
    (err.data.map fun d => ("data", d)).toList)

inductive AgentMethod where
  | initializeRequest
  | initialized
  | processStart
  | processRead
  | processWrite
  | processTerminate
  | fsReadFile
  | fsWriteFile
  | fsCreateDirectory
  | fsGetMetadata
  | fsReadDirectory
  | fsRemove
  | fsCopy
  | proxyRegister
  | proxyUnregister
deriving DecidableEq

def AgentMethod.parse : String → Option AgentMethod
  | "initialize" => some .initializeRequest
  | "initialized" => some .initialized
  | "process/start" => some .processStart
  | "process/read" => some .processRead
  | "process/write" => some .processWrite
  | "process/terminate" => some .processTerminate
  | "fs/read_file" => some .fsReadFile
  | "fs/write_file" => some .fsWriteFile
  | "fs/create_directory" => some .fsCreateDirectory
  | "fs/get_metadata" => some .fsGetMetadata
  | "fs/read_directory" => some .fsReadDirectory
  | "fs/remove" => some .fsRemove
  | "fs/copy" => some .fsCopy
  | "proxy/register" => some .proxyRegister
  | "proxy/unregister" => some .proxyUnregister
  | _ => none

/-- `dispatch`; `answer` is what the handler of a known method says. -/
def dispatch (answer : Except ChannelError Value) (method : String) : Except ChannelError Value :=
  match AgentMethod.parse method with
  | some _ => answer
  | none => .error ⟨.methodNotFound, "method not found: " ++ method, none⟩

def agentResponse (id : Value) : Except ChannelError Value → Value
  | .ok val => resultFrame id val
  | .error err => errorFrame id (mpError err)

/-- What the agent says to a malformed message. -/
def parseErrorFrame (reason : String) : Value :=
  errorFrame .nil (mpError ⟨.parse, "parse error", some (.string reason)⟩)

def unwrapPositional : Value → Value
  | .array [v] => v
  | .array [] => .nil
  | other => other

end Nexal.Link
