import Mathlib.Data.List.AList
import Nexal.Spec.Debounce
import Nexal.Spec.Message

/-! The pool of the chats' agents (`src/agent-pool.ts`), with what it takes from `src/content.ts` and
`src/channels/types.ts`. Channels, the debouncers' loops, the turns and the agents interleave at the awaits. -/

namespace Nexal.AgentPool

open Debounce (DebounceConfig HandlerCall ImageAttachment IncomingMessage)
open Workers (ContentBlock UserContent)

/-! Contents -/

def base64Digits : List Char := "ABCDEFGHIJKLMNOPQRSTUVWXYZabcdefghijklmnopqrstuvwxyz0123456789+/".toList

def base64Digit (n : ℕ) : Char := base64Digits.getD (n % 64) '='

/-- `Buffer.toString("base64")` -/
def base64 : List UInt8 → List Char
  | a :: b :: c :: rest =>
    let n := a.toNat * 65536 + b.toNat * 256 + c.toNat
    [base64Digit (n / 262144), base64Digit (n / 4096), base64Digit (n / 64), base64Digit n] ++ base64 rest
  | [a, b] =>
    let n := a.toNat * 65536 + b.toNat * 256
    [base64Digit (n / 262144), base64Digit (n / 4096), base64Digit (n / 64), '=']
  | [a] =>
    let n := a.toNat * 65536
    [base64Digit (n / 262144), base64Digit (n / 4096), '=', '=']
  | [] => []

def attachmentToImageContent (att : ImageAttachment) : ContentBlock :=
  match att.data with
  | .bytes data => .image (String.ofList (base64 data)) att.mimeType
  | .base64 data => .image data att.mimeType

def buildUserContent (text : String) (images : List ImageAttachment) : UserContent :=
  if images.isEmpty then .plain text else .blocks (.text text none :: images.map attachmentToImageContent)

def extractTextFromContent : UserContent → String
  | .plain text => text
  | .blocks blocks => String.join (blocks.filterMap fun
    | .text text _ => some text
    | .image _ _ => none)

/-- The image blocks, by their data and type. -/
def extractImagesFromContent : UserContent → List (String × String)
  | .plain _ => []
  | .blocks blocks => blocks.filterMap fun
    | .text _ _ => none
    | .image data mimeType => some (data, mimeType)

def imageContentToAttachment (img : String × String) : ImageAttachment := ⟨.base64 img.1, img.2, "image"⟩

/-! Session keys -/

def chatKey (channel chatId : String) : String := channel ++ ":" ++ chatId

def sessionKey (msg : IncomingMessage) : String := chatKey msg.channel msg.chatId

/-! Agents -/

/-- Where a user message of an agent comes from. -/
inductive Origin where
  /-- a call of `sendToAgentFromCaller` or `sendToParent` -/
  | send (i : ℕ)
  /-- the messages merged by the debouncer of a chat -/
  | batch (messages : List IncomingMessage)

structure Received where
  origin : Origin
  content : UserContent

structure Agent where
  isStreaming : Bool
  /-- the messages that `prompt` and `steer` have taken -/
  inbox : List Received

def Agent.new : Agent := ⟨false, []⟩

def Agent.steer (a : Agent) (m : Received) : Agent := { a with inbox := a.inbox ++ [m] }

/-- What `prompt` of an agent that is not streaming begins with. -/
def Agent.prompt (a : Agent) (m : Received) : Agent := ⟨true, a.inbox ++ [m]⟩

def Agent.setStreaming (isStreaming : Bool) (a : Agent) : Agent := { a with isStreaming := isStreaming }

/-! The pool -/

structure Debouncer where
  key : String
  state : Debounce.State

structure Session where
  /-- the agent's `sessionId` -/
  key : String
  agent : Agent
  channelName : String
  lastIncoming : IncomingMessage

/-- A call of `createSession`: not over, failed, or with its session. -/
structure Creation where
  key : String
  msg : IncomingMessage
  result : Option (Option ℕ)

/-- Where a call of `handleMerged` is. -/
inductive TurnPhase where
  /-- at a creation, of its own or another's -/
  | creating (creation : ℕ) (own : Bool)
  | got (session : ℕ)
  /-- at the tape, whose errors are only logged -/
  | recording (session : ℕ)
  /-- at `prompt`, whose errors are only reported -/
  | prompting (session : ℕ)
  | ended (threw : Bool)

structure Turn where
  debouncer : ℕ
  /-- which of the debouncer's calls of its handler it is -/
  index : ℕ
  call : HandlerCall
  phase : TurnPhase

structure Pool where
  /-- the debouncers that were ever made, and those in the map -/
  made : List Debouncer
  debouncers : AList fun _ : String => ℕ
  created : List Session
  sessions : AList fun _ : String => ℕ
  creations : List Creation
  pending : AList fun _ : String => ℕ
  turns : List Turn

def Pool.init : Pool := ⟨[], ∅, [], ∅, [], ∅, []⟩

def Debouncer.process (msg : IncomingMessage) (d : Debouncer) : Debouncer := { d with state := d.state.process msg }

def Debouncer.shutdown (d : Debouncer) : Debouncer := { d with state := d.state.shutdown }

def Pool.handle (p : Pool) (msg : IncomingMessage) : Pool :=
  let key := sessionKey msg
  match p.debouncers.lookup key with
  | some d => { p with made := p.made.modify d (Debouncer.process msg) }
  | none =>
    { p with
      made := p.made ++ [(⟨key, Debounce.init⟩ : Debouncer).process msg]
      debouncers := p.debouncers.insert key p.made.length }

/-- `handleMerged` up to its first await. -/
def Pool.begin (p : Pool) (d index : ℕ) (call : HandlerCall) : Pool :=
  let key := sessionKey call.merged
  match p.sessions.lookup key with
  | some session => { p with turns := p.turns ++ [⟨d, index, call, .got session⟩] }
  | none =>
    match p.pending.lookup key with
    | some creation => { p with turns := p.turns ++ [⟨d, index, call, .creating creation false⟩] }
    | none =>
      { p with
        creations := p.creations ++ [⟨key, call.merged, none⟩]
        pending := p.pending.insert key p.creations.length
        turns := p.turns ++ [⟨d, index, call, .creating p.creations.length true⟩] }

def Pool.beginAll (p : Pool) (d : ℕ) : ℕ → List HandlerCall → Pool
  | _, [] => p
  | index, call :: calls => (p.begin d index call).beginAll d (index + 1) calls

def Pool.setTurn (p : Pool) (j : ℕ) (t : Turn) (phase : TurnPhase) : Pool :=
  { p with turns := p.turns.set j { t with phase := phase } }

def Session.arrived (msg : IncomingMessage) (x : Session) : Session := { x with lastIncoming := msg }

/-- The merged message is handed to the agent. -/
def Session.take (call : HandlerCall) (x : Session) : Session :=
  let m : Received := ⟨.batch call.batch, buildUserContent call.merged.text call.merged.images⟩
  { x with agent := if x.agent.isStreaming then x.agent.steer m else x.agent.prompt m }

def Session.idle (x : Session) : Session := { x with agent := x.agent.setStreaming false }

/-- `handleMerged` goes on from its await. -/
def Pool.resume (p : Pool) (j : ℕ) (t : Turn) : Option Pool :=
  match t.phase with
  | .creating creation own =>
    (p.creations[creation]?.bind (·.result)).map fun
      | some session =>
        let p := p.setTurn j t (.got session)
        if own then { p with sessions := p.sessions.insert (sessionKey t.call.merged) session } else p
      | none => p.setTurn j t (.ended true)
  | .got session =>
    some { p.setTurn j t (.recording session) with created := p.created.modify session (Session.arrived t.call.merged) }
  | .recording session =>
    p.created[session]?.map fun x =>
      { p.setTurn j t (if x.agent.isStreaming then .ended false else .prompting session) with
        created := p.created.modify session (Session.take t.call) }
  | .prompting _ => some (p.setTurn j t (.ended false))
  | .ended _ => none

/-- `createSession` has returned or thrown. -/
def Pool.resolve (p : Pool) (c : ℕ) (creation : Creation) (ok : Bool) : Pool :=
  let p := { p with pending := p.pending.erase creation.key }
  if ok then
    { p with
      created := p.created ++ [⟨creation.key, .new, creation.msg.channel, creation.msg⟩]
      creations := p.creations.set c { creation with result := some (some p.created.length) } }
  else { p with creations := p.creations.set c { creation with result := some none } }

inductive Event where
  /-- a message from a channel -/
  | handle (msg : IncomingMessage)
  /-- a step of a debouncer that is not `process` or `shutdown` -/
  | debounce (d : ℕ) (act : Debounce.Act)
  | created (creation : ℕ) (ok : Bool)
  | turn (j : ℕ)
  /-- the run of a session's agent is over -/
  | idle (session : ℕ)
  /-- `shutdown`, when the agents are idle -/
  | shutdown
  /-- its end, when the debouncers have shut down -/
  | clear

/-- The handler of a debouncer's call is `handleMerged`. -/
def Pool.handlerEnds (p : Pool) (d : ℕ) : Debounce.Act → Bool
  | .handled k threw => p.turns.any fun t =>
    t.debouncer = d && t.index = k && match t.phase with
      | .ended threw' => threw' = threw
      | _ => false
  | .process _ | .shutdown => false
  | .timer | .resume _ | .resolve _ => true

def Debouncer.isShutDown (d : Debouncer) : Bool := !d.state.shutdowns.isEmpty && d.state.shutdowns.all id

section Step
variable (config : DebounceConfig)

def Pool.debounce (p : Pool) (d : ℕ) (act : Debounce.Act) : Option Pool :=
  p.made[d]?.bind fun x =>
    if p.handlerEnds d act then
      (Debounce.step config x.state act).map fun state =>
        { p with made := p.made.set d { x with state := state } }.beginAll d x.state.calls.length
          (state.calls.drop x.state.calls.length)
    else none

def Pool.step (p : Pool) : Event → Option Pool
  | .handle msg => some (p.handle msg)
  | .debounce d act => p.debounce config d act
  | .created c ok =>
    p.creations[c]?.bind fun creation => if creation.result.isNone then some (p.resolve c creation ok) else none
  | .turn j => p.turns[j]?.bind (p.resume j)
  | .idle session => some { p with created := p.created.modify session Session.idle }
  | .shutdown =>
    some { p with made := (p.debouncers.entries.map (·.2)).foldl (fun made d => made.modify d Debouncer.shutdown) p.made }
  | .clear =>
    if p.debouncers.entries.all fun entry => p.made[entry.2]?.any Debouncer.isShutDown then
      some { p with debouncers := ∅, sessions := ∅ }
    else none

end Step

/-- What a worker's report to a chat is as a message of the chat; `none`: the key has no `:`. -/
def childReport (sessionKeyStr sender : String) (content : UserContent) (now : ℤ) : Option IncomingMessage :=
  if ':' ∈ sessionKeyStr.toList then
    some
      { channel := String.ofList (sessionKeyStr.toList.takeWhile (· ≠ ':'))
        chatId := String.ofList (sessionKeyStr.toList.dropWhile (· ≠ ':')).tail
        sender := sender
        text := extractTextFromContent content
        timestamp := now
        isMentioned := true
        metadata := []
        images := (extractImagesFromContent content).map imageContentToAttachment }
  else none

def Pool.forwardChildReport (p : Pool) (sessionKeyStr sender : String) (content : UserContent) (now : ℤ) : Pool :=
  match childReport sessionKeyStr sender content now with
  | some msg => p.handle msg
  | none => p

end Nexal.AgentPool
