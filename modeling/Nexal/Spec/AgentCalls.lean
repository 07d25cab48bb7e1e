import Mathlib.Logic.Function.Basic
import Nexal.Lib.Runs
import Nexal.Spec.AgentFrame

/-! What the two programs have in common on their connection: the message channel under it
(`crates/utils/transport/src/message_channel.rs`), and the calls that send a request and wait for
its response (`AgentConn::invoke`, `MsgpackChannel::request` and `request_blocking`). -/

namespace Nexal.Link

open Wire (Value)

/-! The message channel -/

inductive Event where
  | message (value : Value)
  | malformedMessage (reason : String)
  | disconnected

/-- The writer task; `failing` when it reports a failed write, before its end of the channel is
gone. -/
inductive Writer where
  | running
  | failing
  | gone
deriving DecidableEq

structure Channel where
  outgoing : List Value
  incoming : List Event
  writer : Writer
  /-- how many frames were handed to the writer -/
  sent : ℕ

def Channel.new : Channel := ⟨[], [], .running, 0⟩

/-- Whether a `send` gets through. -/
def Channel.accepts (c : Channel) : Bool := c.writer ≠ .gone

def Channel.send (c : Channel) (value : Value) : Channel :=
  if c.accepts then { c with outgoing := c.outgoing ++ [value], sent := c.sent + 1 } else c

/-- The reader task passes on what came over the socket. -/
def Channel.arrive (c : Channel) (ev : Event) : Channel := { c with incoming := c.incoming ++ [ev] }

inductive WriterAct where
  | fails
  | ends
deriving DecidableEq

def Channel.writerStep (c : Channel) : WriterAct → Option Channel
  | .fails =>
    match c.writer, c.outgoing with
    | .running, _ :: outgoing =>
      some { c with outgoing := outgoing, incoming := c.incoming ++ [.disconnected], writer := .failing }
    | _, _ => none
  | .ends => if c.writer = .failing then some { c with outgoing := [], writer := .gone } else none

/-- The writer puts a frame on the socket. -/
def Channel.write (c : Channel) : Option (Value × Channel) :=
  match c.writer, c.outgoing with
  | .running, value :: outgoing => some (value, { c with outgoing := outgoing })
  | _, _ => none

/-! Calls; `ε` is the caller's error. -/

section Calls
variable {ε : Type}

inductive CallPhase (ε : Type) where
  /-- of `invoke`: at the `closed` flag -/
  | checking
  | allocating
  | inserting (id : UInt64)
  | sending (id : UInt64)
  | waiting (id : UInt64)
  /-- of `request_blocking`: the send failed, the sender goes from the map -/
  | removing (id : UInt64)
  | returned (result : Except ε Value)

structure Call (ε : Type) where
  method : String
  params : Value
  blocking : Bool
  phase : CallPhase ε
  /-- the id it was given -/
  id : Option UInt64
  /-- what the sender was used for -/
  slot : Option (Except ε Value)

structure Calls (ε : Type) where
  calls : List (Call ε)
  /-- whose sender is under an id -/
  pending : List (UInt64 × ℕ)
  nextId : UInt64
  /-- every use of a sender: whose, and for what -/
  resolved : List (ℕ × Except ε Value)

def Calls.new : Calls ε := ⟨[], [], 1, []⟩

def Call.frame (c : Call ε) (id : UInt64) : Value := buildRpcRequest id c.method c.params

def Calls.set (c : Calls ε) (i : ℕ) (call : Call ε) : Calls ε := { c with calls := c.calls.set i call }

/-- A sender is used: its call has its result. -/
def Calls.resolve (c : Calls ε) (result : Except ε Value) (i : ℕ) : Calls ε :=
  { c with
    calls := c.calls.modify i fun call => { call with slot := some result }
    resolved := c.resolved ++ [(i, result)] }

/-- A response came for `id`. -/
def Calls.respond (c : Calls ε) (id : UInt64) (i : ℕ) (result : Except ε Value) : Calls ε :=
  { c.resolve result i with pending := c.pending.filter (·.1 ≠ id) }

def Calls.drain (c : Calls ε) (err : ε) : Calls ε :=
  { (c.pending.map (·.2)).foldl (Calls.resolve · (.error err)) c with pending := [] }

/-- A call goes on; with the frame it sends, if it does. The counter does not come to its end. -/
def Calls.step (c : Calls ε) (closedError : ε) (accepts : Bool) (i : ℕ) : Option (Calls ε × Option Value) :=
  c.calls[i]?.bind fun call =>
    match call.phase with
    | .checking => none
    | .allocating =>
      if c.nextId.toNat + 1 < 2 ^ 64 then
        some ({ c.set i { call with phase := .inserting c.nextId, id := some c.nextId } with nextId := c.nextId + 1 }, none)
      else none
    | .inserting id =>
      some ({ c.set i { call with phase := .sending id } with pending := (id, i) :: c.pending.filter (·.1 ≠ id) }, none)
    | .sending id =>
      if accepts then some (c.set i { call with phase := .waiting id }, some (call.frame id))
      else if call.blocking then some (c.set i { call with phase := .removing id }, none)
      else some (c.set i { call with phase := .returned (.error closedError) }, none)
    | .waiting _ => call.slot.map fun result => (c.set i { call with phase := .returned result }, none)
    | .removing id =>
      some ({ c.set i { call with phase := .returned (.error closedError) } with
        pending := c.pending.filter (·.1 ≠ id) }, none)
    | .returned _ => none

end Calls

end Nexal.Link
