import Nexal.Spec.AgentPool
import Nexal.Spec.WorkerStore

/-! The messages between workers (`src/workers/registry.ts`, `src/workers/agent.ts`): `sendToAgentFromCaller`,
`sendToParent` and `route`. Runners are started, get their client and agent and are dropped in any order. -/

namespace Nexal.WorkerMessages

open AgentPool (Agent Received Pool extractImagesFromContent)
open Workers (ContentBlock RowUpdate UserContent WorkerCreate WorkerId WorkerRow WorkerStatus)

/-- A row with its name and its edge, which no update of the store writes. -/
structure TreeRow extends WorkerRow where
  name : String
  parentSessionKey : String

def TreeRow.update (row : TreeRow) (u : RowUpdate) : TreeRow := { row with toWorkerRow := u.apply row.toWorkerRow }

structure WorkerAgent where
  /-- as it was read when the runner was made -/
  row : TreeRow
  client : Bool
  agent : Option Agent

structure Registry where
  rows : List TreeRow
  /-- the runners that were ever made, and those in the map -/
  runners : List WorkerAgent
  agents : AList fun _ : WorkerId => ℕ

def Registry.get (w : Registry) (id : WorkerId) : Option TreeRow := w.rows.find? (·.id = id)

def Registry.update (w : Registry) (id : WorkerId) (u : RowUpdate) : Registry :=
  { w with rows := w.rows.map fun row => if row.id = id then row.update u else row }

/-! What happens to the workers -/

/-- `spawn`; the primary key refuses a second row. -/
def Registry.spawn (w : Registry) (c : WorkerCreate) (name parentSessionKey : String) : Registry :=
  if (c.kind = .coordinator ∧ c.lifetime ≠ .persistent) ∨
    (c.lifetime = .oneshot ∧ ¬ c.initialPrompt.any (· ≠ "")) ∨
      (w.get c.id).isSome then w
  else
    let row : TreeRow :=
      ⟨⟨c.id, c.kind, c.lifetime, c.initialPrompt, c.sendPolicy, .spawning, [], c.tapeId, none⟩, name,
        parentSessionKey⟩
    { w with rows := w.rows ++ [row] }

def Registry.startAgent (w : Registry) (id : WorkerId) : Registry :=
  match w.get id with
  | some row =>
    if row.status.isTerminal then w
    else { w with runners := w.runners ++ [⟨row, false, none⟩], agents := w.agents.insert id w.runners.length }
  | none => w

def Registry.modifyRunner (w : Registry) (r : ℕ) (f : WorkerAgent → WorkerAgent) : Registry :=
  { w with runners := w.runners.modify r f }

def WorkerAgent.gotClient (x : WorkerAgent) : WorkerAgent := { x with client := true }

def WorkerAgent.newAgent (x : WorkerAgent) : WorkerAgent := { x with agent := x.agent.or (some .new) }

def WorkerAgent.mapAgent (f : Agent → Agent) (x : WorkerAgent) : WorkerAgent := { x with agent := x.agent.map f }

inductive RegistryEvent where
  | spawn (c : WorkerCreate) (name parentSessionKey : String)
  | update (id : WorkerId) (u : RowUpdate)
  | startAgent (id : WorkerId)
  | gotClient (runner : ℕ)
  | newAgent (runner : ℕ)
  /-- a run begins with the first prompt, or is over -/
  | streaming (runner : ℕ) (isStreaming : Bool)
  | onTerminal (id : WorkerId)
  | shutdown

def Registry.step (w : Registry) : RegistryEvent → Registry
  | .spawn c name parentSessionKey => w.spawn c name parentSessionKey
  | .update id u => w.update id u
  | .startAgent id => w.startAgent id
  | .gotClient r => w.modifyRunner r WorkerAgent.gotClient
  | .newAgent r => w.modifyRunner r WorkerAgent.newAgent
  | .streaming r isStreaming => w.modifyRunner r (WorkerAgent.mapAgent (Agent.setStreaming isStreaming))
  | .onTerminal id => { w with agents := w.agents.erase id }
  | .shutdown => { w with agents := ∅ }

/-! Calls -/

inductive Call where
  | sendToAgentFromCaller (callerKey : String) (targetId : WorkerId) (content : UserContent)
  | sendToParent (callerId : WorkerId) (content : UserContent)

/-- Where a call is. -/
inductive Phase where
  /-- at the row of the target, or of the caller -/
  | fetching
  /-- at the row of a worker without runner -/
  | explaining (id : WorkerId)
  /-- in `route`: at `writeImagesToSandbox`, `markStarted`, `recordTapeStatus` -/
  | writing (runner : ℕ) (content : UserContent)
  | marking (runner : ℕ) (content : UserContent)
  | recording (runner : ℕ) (content : UserContent)
  /-- handed to the agent of a runner -/
  | handed (runner : ℕ)
  /-- handed to the pool as a message of a chat, or dropped when there is no pool yet -/
  | forwarded (msg : Option Debounce.IncomingMessage)
  | refused (error : String)

structure Send where
  call : Call
  phase : Phase

structure State where
  registry : Registry
  /-- `none` until it is made -/
  pool : Option Pool
  sends : List Send

def init : State := ⟨⟨[], [], ∅⟩, none, []⟩

/-- What the call at `i` awaits is answered with. -/
inductive Reply where
  | done
  | error (message : String)
  /-- `writeImagesToSandbox`: when each image was named, and whether it was written -/
  | written (images : List (ℤ × Bool))

inductive Event where
  | registry (e : RegistryEvent)
  | newPool
  | pool (e : AgentPool.Event)
  | call (c : Call)
  | answer (i : ℕ) (reply : Reply) (now : ℤ)

/-! Texts -/

def statusText : WorkerStatus → String
  | .spawning => "spawning"
  | .idle => "idle"
  | .running => "running"
  | .completed => "completed"
  | .cancelled => "cancelled"
  | .failed => "failed"

def notFound (id : WorkerId) : String := "agent " ++ id ++ " not found"

def notStarted (id : WorkerId) (status : WorkerStatus) : String :=
  "agent " ++ id ++ " is " ++ statusText status ++ " (not yet started or already terminal); cannot send"

def notChild (id : WorkerId) (parentSessionKey : String) : String :=
  "agent " ++ id ++ " is not a direct child of you (its parent is " ++ parentSessionKey ++ "). " ++
    "You can only send to agents you spawned. To reach a deeper descendant, send through the intermediate coordinator."

def noTopLevel : String := "top-level delivery not configured; send_to_parent unavailable for top-level children"

/-- A message to a parent that is a worker says which child it is from. -/
def fromChild (name : String) : UserContent → UserContent
  | .plain text => .plain ("[from child " ++ name ++ "] " ++ text)
  | .blocks blocks => .blocks (.text ("[from child " ++ name ++ "] ") none :: blocks)

/-- `mimeType.split("/")[1] ?? "bin"` -/
def imageExt (mimeType : String) : String :=
  let rest := mimeType.toList.dropWhile (· ≠ '/')
  if rest.isEmpty then "bin" else String.ofList (rest.tail.takeWhile (· ≠ '/'))

def imagePath (i : ℕ) (now : ℤ) (mimeType : String) : String :=
  "/workspace/incoming_" ++ toString now ++ "_" ++ toString i ++ "." ++ imageExt mimeType

/-- `writeImagesToSandbox`, where the images that could not be written are left out of the note. -/
def writeImages (content : UserContent) (written : List (ℤ × Bool)) : UserContent :=
  let paths := ((extractImagesFromContent content).zip written).zipIdx.filterMap fun
    | ((img, now, ok), i) => if ok then some (imagePath i now img.2) else none
  let note := "[Images saved to sandbox: " ++ ", ".intercalate paths ++ "]"
  if paths.isEmpty then content
  else
    match content with
    | .plain text =>
      .blocks (.text (note ++ "\n" ++ text) none ::
        (extractImagesFromContent content).map fun img => .image img.1 img.2)
    | .blocks blocks => .blocks (.text note none :: blocks)

/-! Steps of a call. Each gives the phase the call is in next. -/

section Steps
variable (s : State) (i : ℕ)

def State.goto (call : Call) (phase : Phase) : State := { s with sends := s.sends.set i ⟨call, phase⟩ }

def State.agentOf (r : ℕ) : Option Agent := s.registry.runners[r]?.bind (·.agent)

def State.hand (call : Call) (r : ℕ) (f : Agent → Agent) : State :=
  { s.goto i call (.handed r) with registry := s.registry.modifyRunner r (WorkerAgent.mapAgent f) }

/-- `route` from the images on. -/
def State.steerOrMark (call : Call) (r : ℕ) (content : UserContent) : Option State :=
  (s.agentOf r).map fun a =>
    if a.isStreaming then s.hand i call r (·.steer ⟨.send i, content⟩) else s.goto i call (.marking r content)

/-- The end of `route`. -/
def State.promptAgent (call : Call) (r : ℕ) (content : UserContent) : Option State :=
  (s.agentOf r).map fun a =>
    if a.isStreaming then s.goto i call (.refused "Agent is already processing a prompt.")
    else s.hand i call r (·.prompt ⟨.send i, content⟩)

def State.route (call : Call) (r : ℕ) (x : WorkerAgent) (content : UserContent) : Option State :=
  if x.row.lifetime ≠ .persistent then
    some (s.goto i call (.refused ("worker " ++ x.row.id ++ " is one-shot; cannot accept route")))
  else if x.agent.isNone then some (s.goto i call (.refused ("worker " ++ x.row.id ++ " not started")))
  else if x.client && x.row.kind = .executor then some (s.goto i call (.writing r content))
  else s.steerOrMark i call r content

def State.sendToAgent (call : Call) (id : WorkerId) (content : UserContent) : Option State :=
  match (s.registry.agents.lookup id).bind fun r => s.registry.runners[r]?.map fun x => (r, x) with
  | some (r, x) =>
    if x.row.lifetime = .persistent then s.route i call r x content
    else some (s.goto i call (.refused ("agent " ++ id ++ " is one-shot; cannot accept messages")))
  | none => some (s.goto i call (.explaining id))

/-- `forwardToCoordinator` as the entry point sets it. -/
def State.forward (call : Call) (parentKey sender : String) (content : UserContent) (now : ℤ) : State :=
  match s.pool with
  | some pool =>
    { s.goto i call (.forwarded (AgentPool.childReport parentKey sender content now)) with
      pool := some (pool.forwardChildReport parentKey sender content now) }
  | none => s.goto i call (.forwarded none)

section Config
variable (forwardToCoordinator : Bool) (now : ℤ)

/-- The row that a call has asked for is there. -/
def State.fetched : Call → Option State
  | .sendToAgentFromCaller callerKey targetId content =>
    let call : Call := .sendToAgentFromCaller callerKey targetId content
    match s.registry.get targetId with
    | some target =>
      if target.parentSessionKey = callerKey then s.sendToAgent i call targetId content
      else some (s.goto i call (.refused (notChild targetId target.parentSessionKey)))
    | none => some (s.goto i call (.refused (notFound targetId)))
  | .sendToParent callerId content =>
    let call : Call := .sendToParent callerId content
    match s.registry.get callerId with
    | some caller =>
      if ':' ∈ caller.parentSessionKey.toList then
        if forwardToCoordinator then
          some (s.forward i call caller.parentSessionKey ("worker:" ++ caller.name) content now)
        else some (s.goto i call (.refused noTopLevel))
      else s.sendToAgent i call caller.parentSessionKey (fromChild caller.name content)
    | none => some (s.goto i call (.refused (notFound callerId)))

def State.answer (send : Send) (reply : Reply) : Option State :=
  match send.phase, reply with
  | .fetching, .done => s.fetched i forwardToCoordinator now send.call
  | .explaining id, .done =>
    some (s.goto i send.call (.refused
      (match s.registry.get id with
        | some row => notStarted id row.status
        | none => notFound id)))
  | .writing r content, .written images =>
    if images.length = (extractImagesFromContent content).length then
      s.steerOrMark i send.call r (writeImages content images)
    else none
  | .marking r content, .done =>
    s.registry.runners[r]?.map fun x =>
      { s.goto i send.call (.recording r content) with registry := s.registry.update x.row.id .markStarted }
  | .recording r content, .done => s.promptAgent i send.call r content
  | .fetching, .error message | .explaining _, .error message | .marking _ _, .error message =>
    some (s.goto i send.call (.refused message))
  | _, _ => none

end Config

end Steps

def step (forwardToCoordinator : Bool) (config : Debounce.DebounceConfig) (s : State) : Event → Option State
  | .registry e => some { s with registry := s.registry.step e }
  | .newPool => if s.pool.isNone then some { s with pool := some .init } else none
  | .pool e => (s.pool.bind fun p => p.step config e).map fun p => { s with pool := some p }
  | .call c => some { s with sends := s.sends ++ [⟨c, .fetching⟩] }
  | .answer i reply now => s.sends[i]?.bind fun send => s.answer i forwardToCoordinator now send reply

end Nexal.WorkerMessages
