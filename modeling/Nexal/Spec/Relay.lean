import Mathlib.Logic.Function.Basic
import Nexal.Lib.Runs

/-! The TCP relay of the gateway (`crates/nexal-gateway/src/proxy/tcp.rs`, `relay`) and the bridge of the
agent's proxy (`crates/nexal-agent/src/proxy.rs`, the end of `handle_connection`): two copy loops under one
`select`, which ends with the first of them. No I/O error occurs. -/

namespace Nexal.Relay

inductive Side where
  | client
  | upstream
deriving DecidableEq

def Side.peer : Side → Side
  | .client => .upstream
  | .upstream => .client

/-- The bytes from one side to the other. -/
structure Flow where
  sent : List UInt8
  /-- the side has finished sending -/
  closed : Bool
  /-- not yet read by the copy loop -/
  unread : List UInt8
  /-- in the buffer of the copy loop -/
  held : List UInt8
  /-- written by the copy loop, and not yet received -/
  arriving : List UInt8
  received : List UInt8

def Flow.start (written : List UInt8) : Flow := ⟨written, false, [], [], written, []⟩

structure State where
  /-- by the side that sends -/
  flow : Side → Flow
  /-- the `select` is over: the other copy loop is dropped, and both sockets -/
  ended : Bool

namespace State

def set (s : State) (side : Side) (f : Flow) : State := { s with flow := Function.update s.flow side f }

def send (s : State) (side : Side) (bytes : List UInt8) : Option State :=
  let f := s.flow side
  if f.closed then none else some (s.set side { f with sent := f.sent ++ bytes, unread := f.unread ++ bytes })

def close (s : State) (side : Side) : Option State :=
  let f := s.flow side
  if f.closed then none else some (s.set side { f with closed := true })

def read (s : State) (side : Side) (n : ℕ) : Option State :=
  let f := s.flow side
  if s.ended ∨ n = 0 ∨ f.unread.length < n then none
  else some (s.set side { f with unread := f.unread.drop n, held := f.held ++ f.unread.take n })

def write (s : State) (side : Side) (n : ℕ) : Option State :=
  let f := s.flow side
  if s.ended ∨ n = 0 ∨ f.held.length < n then none
  else some (s.set side { f with held := f.held.drop n, arriving := f.arriving ++ f.held.take n })

/-- The other side reads on, also when the relay is over. -/
def receive (s : State) (side : Side) (n : ℕ) : Option State :=
  let f := s.flow side
  if n = 0 ∨ f.arriving.length < n then none
  else some (s.set side { f with arriving := f.arriving.drop n, received := f.received ++ f.arriving.take n })

/-- A copy loop that meets the end of file, with nothing left in its buffer. -/
def finish (s : State) (side : Side) : Option State :=
  let f := s.flow side
  if s.ended ∨ ¬ f.closed ∨ f.unread ≠ [] ∨ f.held ≠ [] then none else some { s with ended := true }

end State

inductive Act where
  | send (side : Side) (bytes : List UInt8)
  | close (side : Side)
  | read (side : Side) (n : ℕ)
  | write (side : Side) (n : ℕ)
  | receive (side : Side) (n : ℕ)
  | finish (side : Side)

def step (s : State) : Act → Option State
  | .send side bytes => s.send side bytes
  | .close side => s.close side
  | .read side n => s.read side n
  | .write side n => s.write side n
  | .receive side n => s.receive side n
  | .finish side => s.finish side

/-- What is left to move from `side` is moved on. -/
def Act.moves (side : Side) : Act → Prop
  | .read side' _ | .write side' _ | .receive side' _ => side' = side
  | .send _ _ | .close _ | .finish _ => False

/-- The bridge of the agent starts when the rewritten head and the body read with it have been written. -/
def bridge (rewritten remainingBody : List UInt8) : State where
  flow
    | .client => .start (rewritten ++ remainingBody)
    | .upstream => .start []
  ended := false

/-- The relay of the gateway starts with nothing. -/
def relay : State := bridge [] []

end Nexal.Relay
