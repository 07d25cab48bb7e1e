import Nexal.Spec.Wire

/-! The TypeScript side of the transport (`packages/transport/src/connection.ts`, `wire.ts`, and the
heartbeat of `transport.ts`). Frames are MessagePack values; what `@msgpack/msgpack` makes of them is taken
as a parameter. -/

namespace Nexal.Ts

open Wire (Value MessageId WireError WireResponse)

/-- `@msgpack/msgpack`, as far as the connection depends on it. -/
structure Msgpack where
  /-- `decode` returns: it throws on keys that are neither text nor numbers -/
  decodes : Value → Bool
  /-- what `encode` writes for what `decode` has read; numbers are doubles in between -/
  rewrite : Value → Value

/-! Objects. One is the list of the entries it was decoded from, the last of which counts under a name;
properties under numeric names are never looked at. -/

abbrev Object := List (Value × Value)

def prop (msg : Object) (name : String) : Option Value :=
  (msg.reverse.find? fun e => e.1.asStr = some name).map (·.2)

/-- `name in msg` -/
def hasProp (msg : Object) (name : String) : Bool := (prop msg name).isSome

/-- What an `if` makes of a value: zeros, NaN and the empty text are false. -/
def truthy : Value → Bool
  | .nil => false
  | .boolean b => b
  | .integer n => n.val ≠ 0
  | .f32 bits => bits &&& 0x7fffffff ≠ 0 && (bits &&& 0x7fffffff) ≤ 0x7f800000
  | .f64 bits => bits &&& 0x7fffffffffffffff ≠ 0 && (bits &&& 0x7fffffffffffffff) ≤ 0x7ff0000000000000
  | .string s => s ≠ ""
  | .binary _ | .array _ | .map _ | .ext _ _ => true

def isWireRequest (msg : Object) : Bool := hasProp msg "id" && hasProp msg "method"

def isWireResponse (msg : Object) : Bool := hasProp msg "id" && (hasProp msg "result" || hasProp msg "error")

def isWireNotification (msg : Object) : Bool := hasProp msg "method" && !hasProp msg "id"

/-! Receiving -/

inductive Kind where
  | request
  | response
  | notification
deriving DecidableEq

/-- The branch `dispatch` takes, if any. -/
def kindOf (msg : Object) : Option Kind :=
  if isWireResponse msg then some .response
  else if isWireNotification msg then some .notification
  else if isWireRequest msg then some .request
  else none

/-- `handleMessage` up to the dispatch: the level (`none` is the connection's own) and the message. `streams`
are the names of the open streams. -/
def handleMessage (lib : Msgpack) (streams : List String) (value : Value) : Option (Option String × Object) :=
  match lib.decodes value, value with
  | true, .map msg =>
    match prop msg "stream" with
    | some streamId =>
      if truthy streamId then
        match streamId with
        | .string s => if streams.contains s then some (some s, msg) else none
        | _ => none
      else some (none, msg)
    | none => some (none, msg)
  | _, _ => none

/-- What becomes of a handler's call. -/
inductive Settled where
  /-- with a value or a promise of it; none when `encode` throws on it -/
  | resolved (result : Option Value)
  /-- with something to throw; none when no text can be made of it -/
  | threw (message : Option String)
  | rejected (message : Option String)

abbrev Handler := Option Value → Settled

/-- The response of a level to the request with this id. -/
def respond (lib : Msgpack) (level : Option String) (id : MessageId) : Settled → List WireResponse
  | .resolved (some result) => [⟨level, lib.rewrite id, some result, none⟩]
  | .threw (some message) | .rejected (some message) => [⟨level, lib.rewrite id, none, some ⟨-32000, message, none⟩⟩]
  | .resolved none | .threw none | .rejected none => []

/-- The request branch of `dispatch`, and of `handleMessage` of a stream. -/
def dispatchRequest (lib : Msgpack) (handlers : String → Option Handler) (level : Option String) (msg : Object) :
    List WireResponse :=
  match prop msg "id", prop msg "method" with
  | some id, some (.string method) =>
    match handlers method with
    | some handler => respond lib level id (handler (prop msg "params"))
    | none => []
  | _, _ => []

/-! Sending -/

/-- An optional property. -/
inductive Field (α : Type) where
  | absent
  | undefined
  | value (a : α)

/-- `encode` writes `undefined` as nil. -/
def Field.entry {α : Type} (name : String) (toValue : α → Value) : Field α → Object
  | .absent => []
  | .undefined => [(.string name, .nil)]
  | .value a => [(.string name, toValue a)]

/-- What `send` is given. -/
inductive Message where
  | request (stream : Field String) (id : MessageId) (method : String) (params : Field Value)
  | response (stream : Field String) (id : MessageId) (result error : Field Value)
  | notification (stream : Field String) (method : String) (params : Field Value)

def Message.toValue : Message → Value
  | .request stream id method params =>
    .map (stream.entry "stream" .string ++ [(.string "id", id), (.string "method", .string method)] ++
      params.entry "params" (fun v => v))
  | .response stream id result error =>
    .map (stream.entry "stream" .string ++ [(.string "id", id)] ++ result.entry "result" (fun v => v) ++
      error.entry "error" (fun v => v))
  | .notification stream method params =>
    .map (stream.entry "stream" .string ++ [(.string "method", .string method)] ++ params.entry "params" (fun v => v))

/-- The parameter of `request` and `notify`. -/
def optionalParam : Option Value → Field Value
  | some params => .value params
  | none => .undefined

/-- `notify` of a connection, or of a stream. -/
def notify (level : Option String) (method : String) (params : Option Value) : Message :=
  .notification (level.elim .absent .value) method (optionalParam params)

/-- What `request` of a connection, or of a stream, sends under its random id. -/
def request (level : Option String) (id : String) (method : String) (params : Option Value) : Message :=
  .request (level.elim .absent .value) (.string id) method (optionalParam params)

/-! Heartbeats -/

inductive Heartbeat where
  | ping
  | pong
deriving DecidableEq

/-- The test in `handleHeartbeatFrame`, and in the message listener of a client. -/
def heartbeatFrame (lib : Msgpack) (value : Value) : Option Heartbeat :=
  match lib.decodes value, value with
  | true, .map msg =>
    match prop msg "method" with
    | some (.string "ping") => some .ping
    | some (.string "pong") => some .pong
    | _ => none
  | _, _ => none

end Nexal.Ts

/-! Requests and heartbeats in the Rust transport (`crates/utils/transport/src/connection.rs`,
`ChannelState::dispatch`, and `transport.rs`, `classify_ping_pong`). -/

namespace Nexal.Wire

/-- What becomes of a handler's call; a panic ends its task. -/
inductive Handled where
  | result (result : Except WireError Value)
  | panic

abbrev Handler := Value → Handled

/-- `send_response`, which drops what does not encode. -/
def sendResponse (encodes : WireResponse → Bool) (resp : WireResponse) : List WireResponse :=
  if encodes resp then [resp] else []

def dispatchRequest (encodes : WireResponse → Bool) (handlers : String → Option Handler) (req : WireRequest) :
    List WireResponse :=
  match handlers req.method with
  | none => []
  | some handler =>
    match handler (req.params.getD .nil) with
    | .result (.ok value) => sendResponse encodes ⟨req.stream, req.id, some value, none⟩
    | .result (.error err) => sendResponse encodes ⟨req.stream, req.id, none, some err⟩
    | .panic => []

/-- `Some(true)` is a ping, `Some(false)` a pong. -/
def classifyPingPong {ε : Type} (decodeFrame : ByteArray → Except ε Value) (bytes : ByteArray) : Option Bool :=
  match decodeFrame bytes with
  | .ok (.map [(k, v)]) =>
    if k.asStr = some "method" then
      match v.asStr with
      | some "ping" => some true
      | some "pong" => some false
      | _ => none
    else none
  | _ => none

end Nexal.Wire
