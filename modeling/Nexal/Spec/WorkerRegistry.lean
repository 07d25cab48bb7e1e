import Mathlib.Data.List.AList
import Nexal.Spec.WorkerStore

/-! The registry and its runners (`src/workers/registry.ts`, `src/workers/agent.ts`). A method is the list of what
it still has to do: the calls it awaits one after the other, between which anything can happen, and what it does in
one go with the answer to the call before. -/

namespace Nexal.Workers

/-! Runners -/

inductive Op where
  -- calls that are awaited
  | acquireAgent
  | setupProxies
  | createTape
  | loadTape
  | configTape
  | store (u : RowUpdate)
  /-- with its error caught -/
  | storeQuietly (u : RowUpdate)
  | recordTapeStatus (status : WorkerStatus)
  | recordMessages
  | writeImages
  | sendToChat
  | waitForIdle
  | closeClient
  | releaseAgent
  | detachAgent
  -- what is done in one go
  | newAgent (messages : List Message)
  /-- the decision at the end of `start` -/
  | firstPrompt (messages : List Message)
  /-- `route`, when the images are written -/
  | steerOrPrompt
  | prompt
  | flushNow (messages : Option (List Message)) (tape : Bool)
  | dispose (release : Bool)
  | onTerminal

/-- What a task is a call of. -/
inductive Job where
  | start
  | route
  | cancel
  | suspend
  | agentEnd
  | flush
deriving DecidableEq

structure Task where
  id : WorkerId
  runner : ℕ
  job : Job
  /-- what is still to be done; a task with nothing is over -/
  ops : List Op

structure Agent where
  messages : List Message
  isStreaming : Bool
  aborted : Bool

structure Runner where
  row : WorkerRow
  resumed : Bool
  agent : Option Agent
  /-- has a client -/
  client : Bool
  disposed : Bool

def Runner.isStreaming (r : Runner) : Bool := r.agent.any (·.isStreaming)

def Runner.newAgent (messages : List Message) (r : Runner) : Runner := { r with agent := some ⟨messages, false, false⟩ }

def Runner.mapAgent (f : Agent → Agent) (r : Runner) : Runner := { r with agent := r.agent.map f }

def Runner.gotClient (r : Runner) : Runner := { r with client := true }

def Runner.nowDisposed (r : Runner) : Runner := { r with disposed := true }

def Agent.prompted (a : Agent) : Agent := { a with isStreaming := true, aborted := false }

def Agent.abort (a : Agent) : Agent := { a with aborted := true }

def Agent.ended (a : Agent) : Agent := { a with isStreaming := false }

def Agent.push (m : Message) (a : Agent) : Agent := { a with messages := a.messages ++ [m] }

/-! The registry -/

/-- Calls of the registry, by what they await. -/
inductive Errand where
  | creatingTape (c : WorkerCreate)
  | inserting (c : WorkerCreate)
  | linking (id : WorkerId)
  | listing
  /-- `cancel` of a worker without runner: at `get`, and at `setStatus` -/
  | cancelling (id : WorkerId)
  | marking (id : WorkerId)
  /-- `shutdown`, with its calls of `suspend` -/
  | suspending (tasks : List ℕ)

/-- What was done at the gateway and with the agents. -/
inductive Effect where
  | acquired (id : WorkerId)
  | released (id : WorkerId)
  | created (id : WorkerId)
  | prompted (id : WorkerId)
deriving DecidableEq

structure World where
  rows : WorkerRows
  /-- the containers that are there -/
  containers : List WorkerId
  /-- those the gateway's client is attached to -/
  attached : List WorkerId
  runners : List Runner
  tasks : List Task
  agents : AList fun _ : WorkerId => ℕ
  queue : List WorkerId
  /-- the calls of `startAgent` that await the row -/
  starting : List WorkerId
  errands : List Errand
  shuttingDown : Bool
  /-- `shutdown` has resolved -/
  shutDown : Bool
  /-- `pump` is the next thing that runs -/
  pumping : Bool
  effects : List Effect

/-- A process that has just begun. -/
def World.init (rows : WorkerRows) (containers : List WorkerId) : World :=
  ⟨rows, containers, [], [], [], ∅, [], [], [], false, false, false, []⟩

/-- What a call is answered with. -/
inductive Reply where
  | done
  | error (message : String)
  | tape (tapeId : String)
  | entries (entries : List Entry)

inductive Event where
  | spawn (c : WorkerCreate)
  | resumePending
  | cancel (id : WorkerId)
  /-- `sendToAgent` -/
  | route (id : WorkerId)
  | suspend (runner : ℕ)
  | shutdown
  /-- a message comes to an agent that is at work -/
  | message (runner : ℕ) (m : Message)
  | agentEnd (runner : ℕ) (errorMessage : Option String) (messages : List Message)
  /-- the timer of `scheduleFlush` runs out -/
  | flushTimer (runner : ℕ)
  /-- the call a task awaits is answered -/
  | go (task : ℕ) (reply : Reply)
  /-- the row a `startAgent` awaits is read -/
  | fetched (i : ℕ) (reply : Reply)
  /-- the call of the registry is answered -/
  | errand (i : ℕ) (reply : Reply)

def World.modifyRunner (w : World) (r : ℕ) (f : Runner → Runner) : World := { w with runners := w.runners.modify r f }

def World.modifyAgent (w : World) (r : ℕ) (f : Agent → Agent) : World := w.modifyRunner r (Runner.mapAgent f)

def World.did (w : World) (effect : Effect) : World := { w with effects := w.effects ++ [effect] }

def World.isStreaming (w : World) (r : ℕ) : Bool := w.runners[r]?.any Runner.isStreaming

def World.isDisposed (w : World) (r : ℕ) : Bool := w.runners[r]?.any (·.disposed)

/-! What is done in one go -/

/-- What follows when a method throws: `startAgent` catches for `start`; the others reject, or log. -/
def Job.onError (error : String) : Job → List Op
  | .start => [.storeQuietly (.markFailed error), .dispose true, .onTerminal]
  | .route | .cancel | .suspend | .agentEnd | .flush => []

/-- `agent.prompt`; nothing follows when it resolves. -/
def prompt (w : World) (t : Task) : World × List Op :=
  if w.isStreaming t.runner then (w, t.job.onError "Agent is already processing a prompt.")
  else ((w.modifyAgent t.runner Agent.prompted).did (.prompted t.id), [])

/-- Whether `start` prompts the agent. -/
def Runner.prompts (r : Runner) (messages : List Message) : Bool :=
  (r.resumed && !messages.isEmpty) || r.row.initialPrompt.any (· ≠ "")

/-- A task goes on up to its next call; what is left of it. -/
def settle (w : World) (t : Task) : List Op → World × List Op
  | [] => (w, [])
  | .newAgent messages :: ops =>
    settle ((w.modifyRunner t.runner (Runner.newAgent messages)).did (.created t.id)) t ops
  | .firstPrompt messages :: ops =>
    if w.runners[t.runner]?.any (·.prompts messages) then prompt w t
    else (w, .store (.markIdle messages) :: .recordTapeStatus .idle :: ops)
  | .steerOrPrompt :: ops =>
    if w.isStreaming t.runner then (w, [])
    else (w, .store .markStarted :: .recordTapeStatus .running :: .prompt :: ops)
  | .prompt :: _ => prompt w t
  | .flushNow messages tape :: ops =>
    match messages.or ((w.runners[t.runner]?.bind (·.agent)).map (·.messages)) with
    | some messages => (w, .storeQuietly (.setMessages messages) :: (if tape then .recordMessages :: ops else ops))
    | none => settle w t ops
  | .dispose release :: ops =>
    if w.isDisposed t.runner then settle w t ops
    else (w.modifyRunner t.runner Runner.nowDisposed,
      .closeClient :: (if release then .releaseAgent else .detachAgent) :: ops)
  | .onTerminal :: _ => ({ w with agents := w.agents.erase t.id, pumping := true }, [])
  | op :: ops => (w, op :: ops)

/-- A task goes on with what is to be done. -/
def World.resume (w : World) (i : ℕ) (t : Task) (ops : List Op) : World :=
  let out := settle w t ops
  { out.1 with tasks := out.1.tasks.set i { t with ops := out.2 } }

def World.begin (w : World) (r : ℕ) (runner : Runner) (job : Job) (ops : List Op) : World :=
  let t : Task := ⟨runner.row.id, r, job, ops⟩
  let out := settle w t ops
  { out.1 with tasks := out.1.tasks ++ [{ t with ops := out.2 }] }

/-! The methods of a runner -/

/-- `start` up to the history. -/
def Runner.start (r : Runner) : List Op :=
  (if r.row.kind = .executor then [.acquireAgent, .setupProxies] else []) ++
    (if r.row.tapeId.isNone then [.createTape] else []) ++ [.loadTape]

/-- `start` from the history on. -/
def Runner.started (messages : List Message) : List Op :=
  [.configTape, .newAgent messages, .store .markStarted, .recordTapeStatus .running, .firstPrompt messages]

def Runner.route (r : Runner) : List Op :=
  (if r.client && r.row.kind = .executor then [.writeImages] else []) ++ [.steerOrPrompt]

def cancelled (reason : String) : List Op :=
  [.store (.setStatus .cancelled (some reason)), .recordTapeStatus .cancelled, .dispose true, .onTerminal]

def Runner.cancel (reason : String) : List Op := [.waitForIdle, .flushNow none false] ++ cancelled reason

def Runner.suspend : List Op := [.waitForIdle, .flushNow none false, .dispose false]

/-- `/abort/i.test(errorMessage)` -/
def isAborted (errorMessage : String) : Bool :=
  (errorMessage.toList.map Char.toLower).tails.any fun tail => "abort".toList.isPrefixOf tail

/-- Whether the last message of the assistant has a text to be sent. -/
def hasFinalText (messages : List Message) : Bool :=
  match messages.reverse.find? fun m => m.body matches .assistant _ with
  | some ⟨.assistant message, _, _⟩ => message.content.any fun
    | .text text _ => text ≠ ""
    | _ => false
  | _ => false

/-- `handleAgentEnd` of a runner that is not disposed. -/
def Runner.agentEnd (r : Runner) (errorMessage : Option String) (messages : List Message) : List Op :=
  .flushNow (some messages) true :: match truthyString errorMessage with
    | some error =>
      if isAborted error then .sendToChat :: cancelled error
      else [.store (.markFailed error), .recordTapeStatus .failed, .sendToChat, .dispose true, .onTerminal]
    | none =>
      (if r.row.kind = .executor ∧ r.row.sendPolicy ≠ .explicit ∧ hasFinalText messages then [.sendToChat] else []) ++
        if r.row.lifetime = .oneshot then
          [.store (.markCompleted messages), .recordTapeStatus .completed, .dispose true, .onTerminal]
        else [.store (.markIdle messages), .recordTapeStatus .idle]

/-! Answers -/

/-- The gateway's client has the agent now. -/
def World.acquired (w : World) (t : Task) : World :=
  { (w.modifyRunner t.runner Runner.gotClient).did (.acquired t.id) with
    containers := w.containers.insert t.id
    attached := w.attached.insert t.id }

/-- The gateway has killed the agent. -/
def World.released (w : World) (t : Task) : World :=
  { w.did (.released t.id) with
    containers := w.containers.filter (· ≠ t.id)
    attached := w.attached.filter (· ≠ t.id) }

/-- The gateway's client has forgotten the agent. -/
def World.forgotten (w : World) (t : Task) : World := { w with attached := w.attached.filter (· ≠ t.id) }

def World.written (w : World) (t : Task) (u : RowUpdate) : World := { w with rows := w.rows.update t.id u }

/-- The call a task awaits is answered: what has been done, and what the task does then or the error it throws.
`none`: not with this reply, or not yet. -/
def answer (w : World) (t : Task) : Op → Reply → Option (World × Except String (List Op))
  | .acquireAgent, .done => some (w.acquired t, .ok [])
  | .createTape, .tape tapeId => some (w, .ok [.store (.setTapeId tapeId)])
  | .loadTape, .entries entries =>
    w.runners[t.runner]?.map fun r => (w, .ok (Runner.started (restore r.row.messagesJson (some entries)).1))
  | .loadTape, .error _ =>
    w.runners[t.runner]?.map fun r => (w, .ok (Runner.started (restore r.row.messagesJson none).1))
  | .store u, .done | .storeQuietly u, .done => some (w.written t u, .ok [])
  | .storeQuietly _, .error _ => some (w, .ok [])
  | .acquireAgent, .error error | .createTape, .error error | .store _, .error error => some (w, .error error)
  | .waitForIdle, .done => if w.isStreaming t.runner then none else some (w, .ok [])
  | .releaseAgent, .done => some (if t.id ∈ w.attached then w.released t else w, .ok [])
  -- the client forgets the agent before it asks the gateway
  | .releaseAgent, .error _ | .detachAgent, .done | .detachAgent, .error _ => some (w.forgotten t, .ok [])
  | .setupProxies, .done | .configTape, .done | .recordTapeStatus _, .done | .recordMessages, .done | .writeImages, .done
  | .sendToChat, .done | .closeClient, .done => some (w, .ok [])
  | _, _ => none

/-- What a task does next that had `ops` left. -/
def Task.next (t : Task) (ops : List Op) : Except String (List Op) → List Op
  | .ok more => more ++ ops
  | .error error => t.job.onError error

def go (w : World) (i : ℕ) (reply : Reply) : Option World :=
  w.tasks[i]?.bind fun t =>
    match t.ops with
    | [] => none
    | op :: ops => (answer w t op reply).map fun out => out.1.resume i t (t.next ops out.2)

/-! The methods of the registry -/

section Registry
variable (maxConcurrent : ℕ)

/-- The loop of `pump`. -/
def pumpLoop (w : World) : List WorkerId → World
  | [] => { w with queue := [] }
  | id :: queue =>
    if !w.shuttingDown && w.agents.entries.length < maxConcurrent then
      pumpLoop { w with starting := w.starting ++ [id] } queue
    else { w with queue := id :: queue }

def pump (w : World) : World := if w.pumping then pumpLoop maxConcurrent { w with pumping := false } w.queue else w

def spawn (w : World) (c : WorkerCreate) : World :=
  if (c.kind = .coordinator ∧ c.lifetime ≠ .persistent) ∨
    (c.lifetime = .oneshot ∧ ¬ c.initialPrompt.any (· ≠ "")) then w
  else { w with errands := w.errands ++ [.creatingTape c] }

/-- `startAgent` with the row it has read. -/
def startAgent (w : World) (row : WorkerRow) : World :=
  let runner : Runner := ⟨row, !row.messagesJson.isEmpty, none, false, false⟩
  { w with
    runners := w.runners ++ [runner]
    agents := w.agents.insert row.id w.runners.length }.begin w.runners.length runner .start runner.start

def fetched (w : World) (i : ℕ) (reply : Reply) : Option World :=
  w.starting[i]?.bind fun id =>
    let w := { w with starting := w.starting.eraseIdx i }
    match reply with
    | .done =>
      match w.rows.get id with
      | some row => some (if row.status.isTerminal then w else startAgent w row)
      | none => some w
    | .error _ => some w
    | _ => none

def cancelRunner (w : World) (r : ℕ) (runner : Runner) (reason : String) : World :=
  if runner.disposed then w
  else (w.modifyAgent r Agent.abort).begin r runner .cancel (Runner.cancel reason)

def cancel (w : World) (id : WorkerId) : World :=
  match (w.agents.lookup id).bind fun r => w.runners[r]?.map fun runner => (r, runner) with
  | some (r, runner) => cancelRunner w r runner "cancelled by dispatcher"
  | none => { w with queue := w.queue.erase id, errands := w.errands ++ [.cancelling id] }

def sendToAgent (w : World) (id : WorkerId) : World :=
  match (w.agents.lookup id).bind fun r => w.runners[r]?.map fun runner => (r, runner) with
  | some (r, runner) =>
    if runner.row.lifetime = .persistent ∧ runner.agent.isSome then w.begin r runner .route runner.route else w
  | none => w

def suspendRunner (w : World) (r : ℕ) : World :=
  match w.runners[r]? with
  | some runner =>
    if runner.disposed then w
    else (w.modifyAgent r Agent.abort).begin r runner .suspend Runner.suspend
  | none => w

def shutdown (w : World) : World :=
  let w' := (w.agents.entries.map (·.2)).foldl suspendRunner { w with shuttingDown := true, queue := [] }
  { w' with errands := w'.errands ++ [.suspending ((List.range w'.tasks.length).drop w.tasks.length)] }

def errand (w : World) (i : ℕ) (reply : Reply) : Option World :=
  w.errands[i]?.bind fun errand =>
    let w := { w with errands := w.errands.eraseIdx i }
    match errand, reply with
    | .suspending tasks, .done =>
      if tasks.all fun j => w.tasks[j]?.any (·.ops.isEmpty) then some { w with agents := ∅, shutDown := true } else none
    | .suspending _, _ => none
    | _, .error _ => some w
    | .creatingTape c, .tape tapeId =>
      some { w with errands := w.errands ++ [.inserting { c with tapeId := some tapeId }] }
    | .inserting c, .done =>
      match w.rows.insert c with
      | some rows => some { w with rows := rows, errands := w.errands ++ [.linking c.id] }
      | none => some w
    | .linking id, .done => some { w with queue := w.queue ++ [id], pumping := true }
    | .listing, .done =>
      let ids := (w.rows.listByStatus [.spawning, .running, .idle]).map (·.id)
      some { w with
        queue := ids.foldl (fun queue id => if id ∈ queue then queue else queue ++ [id]) w.queue
        pumping := true }
    | .cancelling id, .done =>
      match w.rows.get id with
      | some row => some (if row.status.isTerminal then w else { w with errands := w.errands ++ [.marking id] })
      | none => some w
    | .marking id, .done =>
      some { w with rows := w.rows.update id (.setStatus .cancelled (some "cancelled by dispatcher")) }
    | _, _ => none

/-- What an event does before `pump`. -/
def act (w : World) : Event → Option World
  | .spawn c => some (spawn w c)
  | .resumePending => some { w with errands := w.errands ++ [.listing] }
  | .cancel id => some (cancel w id)
  | .route id => some (sendToAgent w id)
  | .suspend r => some (suspendRunner w r)
  | .shutdown => some (shutdown w)
  | .message r m =>
    if w.isStreaming r then some (w.modifyAgent r (Agent.push m)) else none
  | .agentEnd r errorMessage messages =>
    match w.runners[r]? with
    | some runner =>
      -- an abort is said to be one
      if runner.isStreaming ∧ (runner.agent.any (·.aborted) → errorMessage.any isAborted) then
        let w := w.modifyAgent r Agent.ended
        some (if runner.disposed then w else w.begin r runner .agentEnd (runner.agentEnd errorMessage messages))
      else none
    | none => none
  | .flushTimer r =>
    match w.runners[r]? with
    | some runner =>
      if runner.agent.isSome ∧ ¬ runner.disposed then some (w.begin r runner .flush [.flushNow none true]) else none
    | none => none
  | .go i reply => go w i reply
  | .fetched i reply => fetched w i reply
  | .errand i reply => errand w i reply

def step (w : World) (e : Event) : Option World := (act w e).map (pump maxConcurrent)

end Registry

end Nexal.Workers
