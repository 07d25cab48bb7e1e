import Nexal.Lib.Utf8
import Nexal.Spec.LocalProcess

/-! A remote command: the client's loop (`runCommand` of `src/gateway/agent_client.ts`) over the
agent's process table, with the pipes of the command's process and the tasks that read them
(`crates/utils/pty/src/pipe.rs`). The agent's own notifications go to a channel that is always
drained, so they do not fail. -/

namespace Nexal.RunCommand

open LocalProcess (ProcessId Bytes Side ReadParams ReadResponse RetainedOutputChunk TaskId)

inductive ClientPhase where
  | polling
  /-- a `process/read` is under way -/
  | reading (k : ℕ)
  | finished (exitCode : Int32)
  | failed (message : String)
deriving DecidableEq

/-- The variables of `runCommand`. -/
structure Client where
  stdout : String
  stderr : String
  afterSeq : ℕ
  phase : ClientPhase

def Client.text (c : Client) : Side → String
  | .stdout => c.stdout
  | .stderr => c.stderr

/-- The client's loop over the chunks: each is decoded for itself. -/
def Client.collect (c : Client) (chunk : RetainedOutputChunk) : Client :=
  { c with
    stdout := if chunk.stream = .stderr then c.stdout else c.stdout ++ Utf8.decode chunk.chunk
    stderr := if chunk.stream = .stderr then c.stderr ++ Utf8.decode chunk.chunk else c.stderr
    afterSeq := if c.afterSeq < chunk.seq then chunk.seq else c.afterSeq }

def Client.handle (c : Client) (resp : ReadResponse) : Client :=
  let c := resp.chunks.foldl Client.collect c
  match resp.failure with
  | some failure => { c with phase := .failed ("nexal-agent process failed: " ++ failure) }
  | none => { c with phase := if resp.exited then .finished (resp.exitCode.getD 0) else .polling }

structure State where
  agent : LocalProcess.State
  /-- what is in the pipe, and whether anybody holds its write end -/
  pipe : Side → Bytes
  isOpen : Side → Bool
  exited : Option Int32
  client : Client
  /-- everything written, and what of it before the process exited -/
  written : Side → Bytes
  atExit : Side → Bytes

inductive Act where
  /-- the process, or a child that has its pipe -/
  | write (side : Side) (bytes : Bytes)
  | closeEnd (side : Side)
  /-- `read_output_stream` gets `n` bytes and sends them on -/
  | readPipe (side : Side) (n : ℕ)
  | endPipe (side : Side)
  | exit (code : Int32)
  | reap
  | task (t : TaskId)
  | poll
  | reader
  | elapse
  | receive

section Step
variable (processId : ProcessId)

/-- The agent after `process/start` of a command. -/
def started : LocalProcess.State where
  initializeRequested := true
  initialized := true
  processes := Function.update (fun _ => none) processId (some (.running (.new 0)))
  spawning := []
  procs := [.new processId false]
  readers := []

def init : State where
  agent := started processId
  pipe := fun _ => []
  isOpen := fun _ => true
  exited := none
  client := ⟨"", "", 0, .polling⟩
  written := fun _ => []
  atExit := fun _ => []

def pipeBufferBytes : ℕ := 8192

/-- The agent takes a step. -/
def onAgent (s : State) (a : LocalProcess.Act) : Option State :=
  (LocalProcess.step s.agent a).map fun agent => { s with agent := agent }

def readParams (afterSeq : ℕ) : ReadParams where
  processId := processId
  afterSeq := some afterSeq
  maxBytes := some (2 ^ 20)
  waitMs := some 100

def step (s : State) : Act → Option State
  | .write side bytes =>
    if s.isOpen side then some { s with
      pipe := Function.update s.pipe side (s.pipe side ++ bytes)
      written := Function.update s.written side (s.written side ++ bytes) }
    else none
  | .closeEnd side => some { s with isOpen := Function.update s.isOpen side false }
  | .readPipe side n =>
    if 0 < n ∧ n ≤ pipeBufferBytes ∧ n ≤ (s.pipe side).length then
      (onAgent s (.output 0 side ((s.pipe side).take n))).map fun s' =>
        { s' with pipe := Function.update s.pipe side ((s.pipe side).drop n) }
    else none
  | .endPipe side => if s.pipe side = [] ∧ s.isOpen side = false then onAgent s (.endOutput 0 side) else none
  | .exit code => if s.exited = none then some { s with exited := some code, atExit := s.written } else none
  | .reap => s.exited.bind fun code => onAgent s (.exits 0 code)
  | .task t => onAgent s (.task 0 t true)
  | .poll =>
    if s.client.phase = .polling then
      (onAgent s (.read (readParams processId s.client.afterSeq))).map fun s' =>
        { s' with client := { s.client with phase := .reading s.agent.readers.length } }
    else none
  | .reader =>
    match s.client.phase with
    | .reading k => onAgent s (.reader k)
    | _ => none
  | .elapse =>
    match s.client.phase with
    | .reading k => onAgent s (.elapse k)
    | _ => none
  | .receive =>
    match s.client.phase with
    | .reading k =>
      s.agent.readers[k]?.bind fun r =>
        match r.phase with
        | .returned (.inl resp) => some { s with client := s.client.handle resp }
        | .returned (.inr err) => some { s with client := { s.client with phase := .failed err.message } }
        | _ => none
    | _ => none

end Step

end Nexal.RunCommand
