import Mathlib.Data.Int.Notation
import Nexal.Lib.Visitor

/-! The wire format of the transport crate (`crates/utils/transport/src/lib.rs`): messages,
their MessagePack values, and how a received value becomes a message. The byte level of
MessagePack is the `rmp_serde` library's, taken as two functions. -/

namespace Nexal.Wire

/-- `rmpv::Integer`: what fits an `i64` or a `u64`. -/
structure Integer where
  val : ℤ
  inRange : -2 ^ 63 ≤ val ∧ val < 2 ^ 64

/-- `rmpv::Value`; floats are their bits. A received `str` that is not UTF-8 arrives as
`binary`. -/
inductive Value where
  | nil
  | boolean (b : Bool)
  | integer (n : Integer)
  | f32 (bits : UInt32)
  | f64 (bits : UInt64)
  | string (s : String)
  | binary (data : ByteArray)
  | array (items : List Value)
  | map (entries : List (Value × Value))
  | ext (tag : Int8) (data : ByteArray)

def Value.asStr : Value → Option String
  | .string s => some s
  | _ => none

def Value.asMap : Value → Option (List (Value × Value))
  | .map entries => some entries
  | _ => none

abbrev MessageId := Value

structure WireError where
  code : Int32
  message : String
  data : Option Value

structure WireRequest where
  stream : Option String
  id : MessageId
  method : String
  params : Option Value

structure WireResponse where
  stream : Option String
  id : MessageId
  result : Option Value
  error : Option WireError

structure WireNotification where
  stream : Option String
  method : String
  params : Option Value

inductive WireMessage where
  | request (req : WireRequest)
  | response (resp : WireResponse)
  | notification (notif : WireNotification)

/-! `rmpv::ext::from_value` at the derived `Deserialize` instances. Its errors are all the same
to the callers, so they are `none`; a value of the wrong type may be refused at the end. -/

-- the whole of Mathlib brings a second instance
instance decidableEqByteArray : DecidableEq ByteArray := ByteArray.instDecidableEq

/-- The field a key stands for: by name, by the bytes of the name, or by position. -/
def identifier (names : List String) : Value → KeyIdent
  | .string s => match names.idxOf? s with
    | some i => .field i
    | none => .skipped
  | .binary data => match names.findIdx? fun name => name.toUTF8 = data with
    | some i => .field i
    | none => .skipped
  | .integer n =>
    if n.val < 0 then .refused
    else if n.val.toNat < names.length then .field n.val.toNat
    else .skipped
  | _ => .refused

/-- A struct from a map, or from an array in field order with no element left over. -/
def fromStruct {α : Type} (names : List String) (build : Slots Value → Option α) : Value → Option α
  | .map entries => (visitMap (identifier names) (fun _ => none) entries).bind build
  | .array items => if items.length ≤ names.length then build fun i => items[i]? else none
  | _ => none

def decodeString : Value → Option String
  | .string s => some s
  | .binary data => String.fromUTF8? data
  | _ => none

def decodeI32 : Value → Option Int32
  | .integer n => if -2 ^ 31 ≤ n.val ∧ n.val < 2 ^ 31 then some (Int32.ofInt n.val) else none
  | _ => none

def decodeOption {α : Type} (decode : Value → Option α) : Value → Option (Option α)
  | .nil => some none
  | v => (decode v).map some

/-- A field with `#[serde(default)]`. -/
def optionalField {α : Type} (decode : Value → Option α) : Option Value → Option (Option α)
  | none => some none
  | some v => decodeOption decode v

def WireError.fields : List String := ["code", "message", "data"]

def WireError.fromValue : Value → Option WireError :=
  fromStruct WireError.fields fun slots => do
    let code ← (slots 0).bind decodeI32
    let message ← (slots 1).bind decodeString
    let data ← optionalField some (slots 2)
    return { code, message, data }

def WireRequest.fields : List String := ["stream", "id", "method", "params"]

def WireRequest.fromValue : Value → Option WireRequest :=
  fromStruct WireRequest.fields fun slots => do
    let stream ← optionalField decodeString (slots 0)
    let id ← slots 1
    let method ← (slots 2).bind decodeString
    let params ← optionalField some (slots 3)
    return { stream, id, method, params }

def WireResponse.fields : List String := ["stream", "id", "result", "error"]

def WireResponse.fromValue : Value → Option WireResponse :=
  fromStruct WireResponse.fields fun slots => do
    let stream ← optionalField decodeString (slots 0)
    let id ← slots 1
    let result ← optionalField some (slots 2)
    let error ← optionalField WireError.fromValue (slots 3)
    return { stream, id, result, error }

def WireNotification.fields : List String := ["stream", "method", "params"]

def WireNotification.fromValue : Value → Option WireNotification :=
  fromStruct WireNotification.fields fun slots => do
    let stream ← optionalField decodeString (slots 0)
    let method ← (slots 1).bind decodeString
    let params ← optionalField some (slots 2)
    return { stream, method, params }

/-! Receiving -/

/-- A call that returns, or that panics with a message. -/
inductive Outcome (α : Type) where
  | returns (a : α)
  | panics (message : String)

def Outcome.map {α β : Type} (f : α → β) : Outcome α → Outcome β
  | .returns a => .returns (f a)
  | .panics message => .panics message

def Outcome.panicked {α : Type} : Outcome α → Bool
  | .returns _ => false
  | .panics _ => true

/-- `Option::expect` -/
def expect {α : Type} (message : String) : Option α → Outcome α
  | some a => .returns a
  | none => .panics message

def mapGet (value : Value) (key : String) : Option Value :=
  value.asMap.bind fun entries => entries.findSome? fun (k, v) =>
    if k.asStr = some key then some v else none

def valueToWireMessage (value : Value) : Outcome WireMessage :=
  let hasId := (mapGet value "id").isSome
  let hasMethod := (mapGet value "method").isSome
  let hasResult := (mapGet value "result").isSome
  let hasError := (mapGet value "error").isSome
  if hasId && hasMethod then
    (expect "wire request shape" (WireRequest.fromValue value)).map .request
  else if hasId && (hasResult || hasError) then
    (expect "wire response shape" (WireResponse.fromValue value)).map .response
  else
    (expect "wire notification shape" (WireNotification.fromValue value)).map .notification

section Decode
variable {ε : Type} (decodeFrame : ByteArray → Except ε Value)

def decodeWireMessage (data : ByteArray) : Outcome (Except ε WireMessage) :=
  match decodeFrame data with
  | .error e => .returns (.error e)
  | .ok value => (valueToWireMessage value).map .ok

/-- The first `stream` key with a string under it. -/
def streamTag (value : Value) : Option String :=
  value.asMap.bind fun entries => entries.findSome? fun (k, v) =>
    if k.asStr = some "stream" then v.asStr else none

/-- `handle_frame` up to the dispatch: the level (`none` is the root) and the message, or
nothing when the frame is dropped. `streams` are the names of the open streams. -/
def handleFrame (streams : List String) (bytes : ByteArray) :
    Outcome (Option (Option String × WireMessage)) :=
  match decodeFrame bytes with
  | .error _ => .returns none
  | .ok value =>
    (valueToWireMessage value).map fun msg =>
      match streamTag value with
      | some sid => if streams.contains sid then some (some sid, msg) else none
      | none => some (none, msg)

end Decode

/-! Sending: `rmp_serde` with structs as maps, where `skip_serializing_if` leaves `None` out. -/

def Integer.ofInt32 (n : Int32) : Integer where
  val := n.toInt
  inRange := by
    have h1 := n.le_toInt
    have h2 := n.toInt_lt
    omega

def record (fields : List (String × Option Value)) : Value :=
  .map (presentPairs (fields.map fun f => (.string f.1, f.2)))

def WireError.toValue (e : WireError) : Value :=
  record [("code", some (.integer (.ofInt32 e.code))), ("message", some (.string e.message)),
    ("data", e.data)]

def WireMessage.toValue : WireMessage → Value
  | .request r => record [("stream", r.stream.map .string), ("id", some r.id),
      ("method", some (.string r.method)), ("params", r.params)]
  | .response r => record [("stream", r.stream.map .string), ("id", some r.id),
      ("result", r.result), ("error", r.error.map WireError.toValue)]
  | .notification n => record [("stream", n.stream.map .string),
      ("method", some (.string n.method)), ("params", n.params)]

def encodeFrame (write : Value → ByteArray) (msg : WireMessage) : ByteArray := write msg.toValue

end Nexal.Wire
