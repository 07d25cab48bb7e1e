import Mathlib.Data.Int.Notation
import Mathlib.Logic.Function.Basic
import Nexal.Lib.Runs

/-! The agent's process table (`crates/nexal-agent/src/process/local.rs`). Every started process
has two output tasks and an exit watcher, which find its entry in the table by its id; they,
`start_process`, `exec_read` and `shutdown` interleave at the table's lock and at the awaits
between. One `Act` is one such step. -/

namespace Nexal.LocalProcess

abbrev ProcessId := String

abbrev Bytes := List UInt8

def retainedOutputBytesPerProcess : ℕ := 1024 * 1024

inductive ExecOutputStream where
  | stdout
  | stderr
  | pty
deriving DecidableEq

structure RetainedOutputChunk where
  seq : ℕ
  stream : ExecOutputStream
  chunk : Bytes
deriving DecidableEq

structure RunningProcess where
  output : List RetainedOutputChunk
  retainedBytes : ℕ
  nextSeq : ℕ
  exitCode : Option Int32
  /-- which `Notify` it holds: the one made when this process was started -/
  outputNotify : ℕ
  openStreams : ℕ
  closed : Bool
deriving DecidableEq

inductive ProcessEntry where
  | starting
  | running (process : RunningProcess)
deriving DecidableEq

inductive ProcessEvent where
  | outputDelta (processId : ProcessId) (seq : ℕ) (stream : ExecOutputStream) (chunk : Bytes)
  | exited (processId : ProcessId) (seq : ℕ) (exitCode : Int32)
  | closed (processId : ProcessId) (seq : ℕ)
deriving DecidableEq

def ProcessEvent.seq : ProcessEvent → ℕ
  | .outputDelta _ seq _ _ | .exited _ seq _ | .closed _ seq => seq

def ProcessEvent.isClosed : ProcessEvent → Bool
  | .closed _ _ => true
  | _ => false

/-! What is done to an entry under the lock -/

/-- The eviction loop of `stream_output`. -/
def evict : List RetainedOutputChunk → ℕ → List RetainedOutputChunk × ℕ
  | [], retainedBytes => ([], retainedBytes)
  | c :: output, retainedBytes =>
    if retainedOutputBytesPerProcess < retainedBytes then evict output (retainedBytes - c.chunk.length)
    else (c :: output, retainedBytes)

def RunningProcess.new (outputNotify : ℕ) : RunningProcess where
  output := []
  retainedBytes := 0
  nextSeq := 1
  exitCode := none
  outputNotify := outputNotify
  openStreams := 2
  closed := false

def appendOutput (id : ProcessId) (stream : ExecOutputStream) (chunk : Bytes) (e : RunningProcess) :
    RunningProcess × ProcessEvent :=
  let (output, retainedBytes) :=
    evict (e.output ++ [⟨e.nextSeq, stream, chunk⟩]) (e.retainedBytes + chunk.length)
  ({ e with nextSeq := e.nextSeq + 1, output := output, retainedBytes := retainedBytes },
    .outputDelta id e.nextSeq stream chunk)

def recordExit (id : ProcessId) (code : Int32) (e : RunningProcess) : RunningProcess × ProcessEvent :=
  ({ e with nextSeq := e.nextSeq + 1, exitCode := some code }, .exited id e.nextSeq code)

def finishOutputStream (e : RunningProcess) : RunningProcess :=
  if 0 < e.openStreams then { e with openStreams := e.openStreams - 1 } else e

def maybeEmitClosed (id : ProcessId) (e : RunningProcess) : Option (RunningProcess × ProcessEvent) :=
  if e.closed ∨ e.openStreams ≠ 0 ∨ e.exitCode = none then none
  else some ({ e with closed := true, nextSeq := e.nextSeq + 1 }, .closed id e.nextSeq)

/-! The tasks of a process -/

/-- After the lock of `maybe_emit_closed`. -/
inductive Closing where
  | check
  | notifying (ev : ProcessEvent)
  | sending (ev : ProcessEvent)
deriving DecidableEq

inductive OutPhase where
  | receiving
  | locking (chunk : Bytes)
  /-- the lock is released, `notify_waiters` not called yet -/
  | waking (ev : ProcessEvent)
  | notifying (ev : ProcessEvent)
  | sending (ev : ProcessEvent)
  | finishing
  | closing (c : Closing)
  | done
deriving DecidableEq

/-- A `stream_output` with the channel it reads. -/
structure OutTask where
  stream : ExecOutputStream
  queue : List Bytes
  ended : Bool
  phase : OutPhase
deriving DecidableEq

inductive ExitPhase where
  | waiting
  | locking (code : Int32)
  | waking (code : Int32) (ev : Option ProcessEvent)
  | notifying (code : Int32) (ev : Option ProcessEvent)
  | sending (code : Int32) (ev : Option ProcessEvent)
  | closing (code : Int32) (c : Closing)
  /-- until the retention time is over -/
  | sleeping (code : Int32)
  | done
deriving DecidableEq

inductive Side where
  | stdout
  | stderr
deriving DecidableEq

structure Proc where
  id : ProcessId
  stdout : OutTask
  stderr : OutTask
  exit : ExitPhase
  /-- the events made so far, in the order in which they took their seqs -/
  issued : List ProcessEvent
  /-- what of it went to the event broadcast -/
  broadcast : List ProcessEvent
deriving DecidableEq

def Proc.out (p : Proc) : Side → OutTask
  | .stdout => p.stdout
  | .stderr => p.stderr

def Proc.setOut (p : Proc) : Side → OutTask → Proc
  | .stdout, t => { p with stdout := t }
  | .stderr, t => { p with stderr := t }

def Proc.issue (p : Proc) (ev : ProcessEvent) : Proc := { p with issued := p.issued ++ [ev] }

def Proc.send (p : Proc) (ev : ProcessEvent) : Proc := { p with broadcast := p.broadcast ++ [ev] }

def Proc.new (id : ProcessId) (tty : Bool) : Proc where
  id := id
  stdout := ⟨if tty then .pty else .stdout, [], false, .receiving⟩
  stderr := ⟨if tty then .pty else .stderr, [], false, .receiving⟩
  exit := .waiting
  issued := []
  broadcast := []

/-- A step of `maybe_emit_closed`; it has returned when no phase is left. -/
def closeStep (entry : Option ProcessEntry) (p : Proc) : Closing → Option Closing × Option ProcessEntry × Proc
  | .check =>
    match entry with
    | some (.running e) =>
      match maybeEmitClosed p.id e with
      | some (e, ev) => (some (.notifying ev), some (.running e), p.issue ev)
      | none => (none, entry, p)
    | _ => (none, entry, p)
  -- whether the notification got through is ignored
  | .notifying ev => (some (.sending ev), entry, p)
  | .sending ev => (none, entry, p.send ev)

/-- A step of an output task; `entry` is what the table holds under its id, `ok` the result of a
notification. -/
def outStep (entry : Option ProcessEntry) (p : Proc) (side : Side) (ok : Bool) :
    Option (Option ProcessEntry × Proc) :=
  let t := p.out side
  let goto (phase : OutPhase) := p.setOut side { t with phase := phase }
  match t.phase with
  | .receiving =>
    match t.queue with
    | chunk :: queue => some (entry, p.setOut side { t with queue := queue, phase := .locking chunk })
    | [] => if t.ended then some (entry, goto .finishing) else none
  | .locking chunk =>
    match entry with
    | some (.running e) =>
      let (e, ev) := appendOutput p.id t.stream chunk e
      some (some (.running e), (goto (.waking ev)).issue ev)
    | _ => some (entry, goto .finishing)
  | .waking ev => some (entry, goto (.notifying ev))
  | .notifying ev => some (entry, goto (if ok then .sending ev else .finishing))
  | .sending ev => some (entry, (goto .receiving).send ev)
  | .finishing =>
    match entry with
    | some (.running e) => some (some (.running (finishOutputStream e)), goto (.closing .check))
    | _ => some (entry, goto .done)
  | .closing c =>
    match closeStep entry p c with
    | (some c, entry, p) => some (entry, p.setOut side { t with phase := .closing c })
    | (none, entry, p) => some (entry, p.setOut side { t with phase := .done })
  | .done => none

def exitStep (entry : Option ProcessEntry) (p : Proc) (ok : Bool) : Option (Option ProcessEntry × Proc) :=
  match p.exit with
  | .waiting => none
  | .locking code =>
    match entry with
    | some (.running e) =>
      let (e, ev) := recordExit p.id code e
      some (some (.running e), { p.issue ev with exit := .waking code (some ev) })
    | _ => some (entry, { p with exit := .waking code none })
  | .waking code ev => some (entry, { p with exit := .notifying code ev })
  | .notifying code ev =>
    some (entry, { p with exit := if ev.isNone ∨ ok then .sending code ev else .done })
  | .sending code none => some (entry, { p with exit := .closing code .check })
  | .sending code (some ev) => some (entry, { p.send ev with exit := .closing code .check })
  | .closing code c =>
    match closeStep entry p c with
    | (some c, entry, p) => some (entry, { p with exit := .closing code c })
    | (none, entry, p) => some (entry, { p with exit := .sleeping code })
  | .sleeping code =>
    match entry with
    | some (.running e) => some (if e.exitCode = some code then none else entry, { p with exit := .done })
    | _ => some (entry, { p with exit := .done })
  | .done => none

inductive TaskId where
  | out (side : Side)
  | exit
deriving DecidableEq

def procStep (entry : Option ProcessEntry) (p : Proc) (ok : Bool) : TaskId → Option (Option ProcessEntry × Proc)
  | .out side => outStep entry p side ok
  | .exit => exitStep entry p ok

/-- The task is at its `notify_waiters`. -/
def Proc.wakes (p : Proc) : TaskId → Bool
  | .out side => match (p.out side).phase with
    | .waking _ => true
    | _ => false
  | .exit => match p.exit with
    | .waking _ _ => true
    | _ => false

/-! Requests -/

inductive ChannelErrorKind where
  | invalidRequest
  | invalidParams
  | internal
deriving DecidableEq

structure ChannelError where
  kind : ChannelErrorKind
  message : String
deriving DecidableEq

structure ExecParams where
  processId : ProcessId
  argv : List String
  tty : Bool
deriving DecidableEq

structure ReadParams where
  processId : ProcessId
  afterSeq : Option ℕ
  maxBytes : Option ℕ
  waitMs : Option ℕ
deriving DecidableEq

structure ReadResponse where
  chunks : List RetainedOutputChunk
  nextSeq : ℕ
  exited : Bool
  exitCode : Option Int32
  closed : Bool
  failure : Option String
deriving DecidableEq

inductive ReadPhase where
  | locking
  | checked (response : ReadResponse) (notify : ℕ)
  | parked (notify : ℕ)
  | returned (result : ReadResponse ⊕ ChannelError)
deriving DecidableEq

/-- An `exec_read`; `elapsed` when its deadline has passed. -/
structure Reader where
  params : ReadParams
  elapsed : Bool
  phase : ReadPhase
deriving DecidableEq

/-- The page of a read: `chunks` and `total` are what the loop has collected. -/
def readLoop (maxBytes : ℕ) :
    List RetainedOutputChunk → List RetainedOutputChunk → ℕ → ℕ → List RetainedOutputChunk × ℕ
  | [], chunks, _, nextSeq => (chunks, nextSeq)
  | retained :: rest, chunks, total, nextSeq =>
    if chunks ≠ [] ∧ maxBytes < total + retained.chunk.length then (chunks, nextSeq)
    else if maxBytes ≤ total + retained.chunk.length then (chunks ++ [retained], retained.seq + 1)
    else readLoop maxBytes rest (chunks ++ [retained]) (total + retained.chunk.length) (retained.seq + 1)

def usizeMax : ℕ := 2 ^ 64 - 1

def readResponse (params : ReadParams) (e : RunningProcess) : ReadResponse :=
  let retained := e.output.filter (params.afterSeq.getD 0 < ·.seq)
  let (chunks, nextSeq) := readLoop (params.maxBytes.getD usizeMax) retained [] 0 e.nextSeq
  { chunks := chunks
    nextSeq := nextSeq
    exited := e.exitCode.isSome
    exitCode := e.exitCode
    closed := e.closed
    failure := none }

structure State where
  initializeRequested : Bool
  initialized : Bool
  processes : ProcessId → Option ProcessEntry
  /-- calls of `start_process` whose process is being spawned -/
  spawning : List ExecParams
  /-- the processes started so far -/
  procs : List Proc
  readers : List Reader

def init : State where
  initializeRequested := false
  initialized := false
  processes := fun _ => none
  spawning := []
  procs := []
  readers := []

/-- The table has the process's own entry, and with it its `ProcessHandle`. When an entry is dropped, so is its handle:
the process group is killed and the readers of the pipes are aborted. -/
def State.hasHandle (s : State) (i : ℕ) (id : ProcessId) : Bool :=
  match s.processes id with
  | some (.running e) => e.outputNotify = i
  | _ => false

def requireInitializedFor (methodFamily : String) (s : State) : Except ChannelError Unit :=
  if !s.initializeRequested then
    .error ⟨.invalidRequest, "client must call initialize before using " ++ methodFamily ++ " methods"⟩
  else if !s.initialized then
    .error ⟨.invalidRequest, "client must send initialized before using " ++ methodFamily ++ " methods"⟩
  else .ok ()

/-- `start_process` up to the end of its first lock. -/
def startProcess (s : State) (params : ExecParams) : Except ChannelError State := do
  requireInitializedFor "exec" s
  if params.argv = [] then throw ⟨.invalidParams, "argv must not be empty"⟩
  if (s.processes params.processId).isSome then
    throw ⟨.invalidRequest, "process " ++ params.processId ++ " already exists"⟩
  return { s with
    processes := Function.update s.processes params.processId (some .starting)
    spawning := s.spawning ++ [params] }

/-- A step of `exec_read`. -/
def readStep (s : State) (r : Reader) : Option Reader :=
  match r.phase with
  | .locking =>
    let id := r.params.processId
    match s.processes id with
    | none => some { r with phase := .returned (.inr ⟨.invalidRequest, "unknown process id " ++ id⟩) }
    | some .starting =>
      some { r with phase := .returned (.inr ⟨.invalidRequest, "process id " ++ id ++ " is starting"⟩) }
    | some (.running e) => some { r with phase := .checked (readResponse r.params e) e.outputNotify }
  | .checked response notify =>
    if response.chunks ≠ [] ∨ response.exited ∨ r.elapsed then
      some { r with phase := .returned (.inl response) }
    else some { r with phase := .parked notify }
  | .parked _ | .returned _ => none

/-- `notify_waiters`: only who waits now is woken. -/
def Reader.wake (notify : ℕ) (r : Reader) : Reader :=
  if r.phase = .parked notify then { r with phase := .locking } else r

/-- The deadline passes; a read that waits goes on. -/
def Reader.elapse (r : Reader) : Reader :=
  match r.phase with
  | .parked _ => { r with elapsed := true, phase := .locking }
  | _ => { r with elapsed := true }

inductive Act where
  | initializeRequest
  | initialized
  | start (params : ExecParams)
  | spawned (k : ℕ)
  | spawnFailed (k : ℕ)
  /-- the process's output comes in, on the channel of one of its output tasks -/
  | output (i : ℕ) (side : Side) (chunk : Bytes)
  /-- the pipe is at its end, or its reader has been aborted -/
  | endOutput (i : ℕ) (side : Side)
  /-- the exit watcher gets the exit code, or -1 -/
  | exits (i : ℕ) (code : Int32)
  | task (i : ℕ) (t : TaskId) (ok : Bool)
  | read (params : ReadParams)
  | reader (k : ℕ)
  | elapse (k : ℕ)
  | shutdown

def step (s : State) : Act → Option State
  | .initializeRequest => some { s with initializeRequested := true }
  | .initialized => some (if s.initializeRequested then { s with initialized := true } else s)
  | .start params =>
    match startProcess s params with
    | .ok s => some s
    | .error _ => some s
  | .spawned k =>
    s.spawning[k]?.map fun params => { s with
      processes := Function.update s.processes params.processId (some (.running (.new s.procs.length)))
      spawning := s.spawning.eraseIdx k
      procs := s.procs ++ [.new params.processId params.tty] }
  | .spawnFailed k =>
    s.spawning[k]?.map fun params => { s with
      processes :=
        if s.processes params.processId = some .starting then
          Function.update s.processes params.processId none
        else s.processes
      spawning := s.spawning.eraseIdx k }
  | .output i side chunk =>
    s.procs[i]?.bind fun p =>
      let t := p.out side
      if t.ended ∨ !s.hasHandle i p.id then none
      else some { s with procs := s.procs.set i (p.setOut side { t with queue := t.queue ++ [chunk] }) }
  | .endOutput i side =>
    s.procs[i]?.map fun p =>
      { s with procs := s.procs.set i (p.setOut side { p.out side with ended := true }) }
  | .exits i code =>
    s.procs[i]?.bind fun p =>
      if p.exit = .waiting then some { s with procs := s.procs.set i { p with exit := .locking code } }
      else none
  | .task i t ok =>
    s.procs[i]?.bind fun p => (procStep (s.processes p.id) p ok t).map fun (entry, p') => { s with
      processes := Function.update s.processes p.id entry
      procs := s.procs.set i p'
      readers := if p.wakes t then s.readers.map (Reader.wake i) else s.readers }
  | .read params =>
    some { s with readers := s.readers ++ [⟨params, params.waitMs.getD 0 = 0,
      match requireInitializedFor "exec" s with
      | .ok _ => .locking
      | .error e => .returned (.inr e)⟩] }
  | .reader k => s.readers[k]?.bind fun r => (readStep s r).map fun r => { s with readers := s.readers.set k r }
  | .elapse k => s.readers[k]?.map fun r => { s with readers := s.readers.set k r.elapse }
  | .shutdown => some { s with processes := fun _ => none }

end Nexal.LocalProcess

/-! A client that reads the output of a process page by page. It asks with the last seq it has got,
or with the `next_seq` of the last answer less one, and has one read at a time; everything else
at the agent goes on meanwhile. -/

namespace Nexal.LocalProcess

/-- An answer with what was asked for and with the entry as the read found it in its last look. -/
structure Page where
  afterSeq : Option ℕ
  entry : RunningProcess
  response : ReadResponse

structure PageClient where
  processId : ProcessId
  afterSeq : Option ℕ
  /-- which read it waits for -/
  reading : Option ℕ
  /-- the entry that this read has found -/
  looked : Option RunningProcess
  pages : List Page

structure Paging where
  agent : State
  client : PageClient

inductive PageAct where
  | agent (a : Act)
  | ask (maxBytes waitMs : Option ℕ)
  /-- the answer comes; `byNextSeq` when the next read goes by its `next_seq` -/
  | answer (byNextSeq : Bool)

def PageClient.new (processId : ProcessId) (afterSeq : Option ℕ) : PageClient := ⟨processId, afterSeq, none, none, []⟩

/-- What the read finds if it looks now. -/
def State.found (s : State) (r : Reader) : Option RunningProcess :=
  match r.phase, s.processes r.params.processId with
  | .locking, some (.running e) => some e
  | _, _ => none

def PageClient.next (c : PageClient) (response : ReadResponse) (byNextSeq : Bool) : Option ℕ :=
  if byNextSeq then some (response.nextSeq - 1)
  else (response.chunks.getLast?.map (·.seq)).or c.afterSeq

def PageClient.look (c : PageClient) (s : State) : Act → PageClient
  | .reader k => if c.reading = some k then { c with looked := (s.readers[k]?.bind s.found).or c.looked } else c
  | _ => c

def pageStep (s : Paging) : PageAct → Option Paging
  | .agent a => (step s.agent a).map fun agent => ⟨agent, s.client.look s.agent a⟩
  | .ask maxBytes waitMs =>
    if s.client.reading.isSome then none
    else
      (step s.agent (.read ⟨s.client.processId, s.client.afterSeq, maxBytes, waitMs⟩)).map fun agent =>
        ⟨agent, { s.client with reading := some s.agent.readers.length, looked := none }⟩
  | .answer byNextSeq =>
    s.client.reading.bind fun k => s.agent.readers[k]?.bind fun r =>
      match r.phase, s.client.looked with
      | .returned (.inl response), some entry =>
        some { s with client := { s.client with
          afterSeq := s.client.next response byNextSeq
          reading := none
          pages := s.client.pages ++ [⟨s.client.afterSeq, entry, response⟩] } }
      | .returned (.inr _), _ => some { s with client := { s.client with reading := none } }
      | _, _ => none

/-- The chunks it has got from the process with this `Notify`. -/
def PageClient.received (c : PageClient) (notify : ℕ) : List RetainedOutputChunk :=
  (c.pages.filter (·.entry.outputNotify = notify)).flatMap (·.response.chunks)

end Nexal.LocalProcess
