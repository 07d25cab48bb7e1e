import Nexal.Spec.Message

/-! The rows of the workers and what the store does to them (`src/workers/store.ts`). -/

namespace Nexal.Workers

abbrev WorkerId := String

inductive WorkerKind where
  | coordinator
  | executor
deriving DecidableEq

inductive WorkerLifetime where
  | persistent
  | oneshot
deriving DecidableEq

inductive WorkerStatus where
  | spawning
  | idle
  | running
  | completed
  | cancelled
  | failed
deriving DecidableEq

inductive SendPolicy where
  | explicit
  | final
  | all
deriving DecidableEq

structure WorkerRow where
  id : WorkerId
  kind : WorkerKind
  lifetime : WorkerLifetime
  initialPrompt : Option String
  sendPolicy : SendPolicy
  status : WorkerStatus
  messagesJson : List Message
  tapeId : Option String
  error : Option String

def WorkerStatus.isTerminal : WorkerStatus → Bool
  | .completed | .cancelled | .failed => true
  | .spawning | .idle | .running => false

inductive RowUpdate where
  | setStatus (status : WorkerStatus) (error : Option String)
  | setMessages (messagesJson : List Message)
  | setTapeId (tapeId : String)
  | markStarted
  | markIdle (messagesJson : List Message)
  | markCompleted (messagesJson : List Message)
  | markFailed (error : String)

def RowUpdate.apply (row : WorkerRow) : RowUpdate → WorkerRow
  | .setStatus status error => { row with status := status, error := error }
  | .setMessages messagesJson => { row with messagesJson := messagesJson }
  | .setTapeId tapeId => { row with tapeId := some tapeId }
  | .markStarted => { row with status := .running }
  | .markIdle messagesJson => { row with status := .idle, messagesJson := messagesJson }
  | .markCompleted messagesJson => { row with status := .completed, messagesJson := messagesJson, error := none }
  | .markFailed error => { row with status := .failed, error := some error }

/-- The table, in the order of `created_at`. -/
abbrev WorkerRows := List WorkerRow

def WorkerRows.get (rows : WorkerRows) (id : WorkerId) : Option WorkerRow := rows.find? (·.id = id)

def WorkerRows.listByStatus (rows : WorkerRows) (status : List WorkerStatus) : List WorkerRow :=
  rows.filter (·.status ∈ status)

def WorkerRows.update (rows : WorkerRows) (id : WorkerId) (u : RowUpdate) : WorkerRows :=
  rows.map fun row => if row.id = id then u.apply row else row

/-- What `insert` takes: the fields of `WorkerCreate` that are read again. -/
structure WorkerCreate where
  id : WorkerId
  kind : WorkerKind
  lifetime : WorkerLifetime
  initialPrompt : Option String
  sendPolicy : SendPolicy
  tapeId : Option String

/-- The primary key refuses a second row. -/
def WorkerRows.insert (rows : WorkerRows) (c : WorkerCreate) : Option WorkerRows :=
  if (rows.get c.id).isSome then none
  else some (rows ++ [⟨c.id, c.kind, c.lifetime, c.initialPrompt, c.sendPolicy, .spawning, [], c.tapeId, none⟩])

/-- The stored status of a worker. -/
def WorkerRows.status (rows : WorkerRows) (id : WorkerId) : Option WorkerStatus := (rows.get id).map (·.status)

end Nexal.Workers
