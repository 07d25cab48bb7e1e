import Nexal.Lib.Framing

/-! Messages over stdio or a Unix socket (`MessageChannel::from_stdio_binary` of
`crates/utils/transport/src/message_channel.rs`): each is a frame of its length in four bytes,
big-endian, and its MessagePack payload. -/

namespace Nexal.StdioFrames

open Framing

abbrev Bytes := List UInt8

inductive MessageChannelEvent (T : Type*) where
  | message (message : T)
  | malformedMessage (reason : String)
  | disconnected (reason : Option String)
deriving DecidableEq

/-- `rmp_serde::to_vec` and `rmp_serde::from_slice` at a message type; an error as its text. -/
structure Codec (T : Type*) where
  toVec : T → Option Bytes
  fromSlice : Bytes → Except String T

/-- What the reads of a stream give: its bytes in pieces, and then its end, or an I/O error. -/
structure Incoming where
  pieces : List Bytes
  error : Option String

def frame (payload : Bytes) : Bytes := beBytes 4 payload.length ++ payload

section Channel
variable {T : Type*} (codec : Codec T) (label eof : String)

def received (payload : Bytes) : MessageChannelEvent T :=
  match codec.fromSlice payload with
  | .ok message => .message message
  | .error err => .malformedMessage ("failed to parse msgpack from " ++ label ++ ": " ++ err)

/-- The stream ends where a length should be. Its end there is no failure. -/
def noLength (error : Option String) : MessageChannelEvent T :=
  .disconnected (error.map fun err => "failed to read frame length from " ++ label ++ ": " ++ err)

/-- `eof` is the text of the error for a stream that ends too early. -/
def noPayload (error : Option String) : MessageChannelEvent T :=
  .disconnected (some ("failed to read msgpack payload from " ++ label ++ ": " ++ error.getD eof))

/-- The reader task, as long as its events are taken. -/
def reader (error : Option String) (pieces : List Bytes) : List (MessageChannelEvent T) :=
  match _ : readExact 4 pieces with
  | none => [noLength label error]
  | some (lenBuf, rest) =>
    match _ : readExact (ofBeBytes lenBuf) rest with
    | none => [noPayload label eof error]
    | some (payload, rest) => received codec label payload :: reader error rest
termination_by pieces.flatten.length
decreasing_by
  have hfirst := length_of_readExact ‹readExact 4 pieces = some _›
  have hsecond := length_of_readExact ‹readExact (ofBeBytes lenBuf) _ = some _›
  omega

/-- The writer task: what it writes of the messages, and the event with which it gives up. `room` is
how many bytes the other side still takes; `none` when it takes them all. -/
def writer : Option ℕ → List T → Bytes × Option (MessageChannelEvent T)
  | _, [] => ([], none)
  | room, message :: messages =>
    match codec.toVec message with
    | none => ([], some (.disconnected (some ("failed to serialize msgpack for " ++ label))))
    | some payload =>
      if room.all ((frame payload).length ≤ ·) then
        let (bytes, event) := writer (room.map (· - (frame payload).length)) messages
        (frame payload ++ bytes, event)
      else
        ((frame payload).take (room.getD 0), some (.disconnected (some ("msgpack write to " ++ label ++ " failed"))))

end Channel

end Nexal.StdioFrames
