import Nexal.Spec.Message

/-! How a worker's messages come into its row and on its tape, and from there back into the agent
(`src/workers/agent.ts`). Flushes are cut at their two awaits, and other steps come in between. -/

namespace Nexal.Workers

inductive FlushPhase where
  /-- at `setMessages`, with what is written into the row -/
  | writing (snapshot : List Message) (turnCount : ℕ)
  /-- at `recordMessages`, with what is appended; `seen` messages were there when it was sliced off -/
  | appending (seen : ℕ) (newMessages : List Message)
  | finished
  /-- and `handleAgentEnd` has called `markIdle` or `markCompleted` after it -/
  | marked

/-- A call of `flushNow`. -/
structure Flush where
  /-- the array `messages`; `none` is the agent's own one, which may grow in place -/
  array : Option (List Message)
  /-- whether the call has the tape -/
  tape : Bool
  /-- the call of `handleAgentEnd` -/
  agentEnd : Bool
  phase : FlushPhase

/-- What there is of a worker: its row, its tape, and its runner. -/
structure Transcript where
  messagesJson : List Message
  /-- how many messages the last write of the row had, `none` before there is one -/
  rowCount : Option ℕ
  turnCount : ℕ
  tape : List Entry
  /-- `agent.state.messages` -/
  messages : List Message
  latestTurnCount : ℕ
  lastPersistedMsgCount : ℕ
  /-- `persistTimer` is set -/
  timer : Bool
  flushes : List Flush
  /-- the messages that `start` has loaded, until its own `markIdle` -/
  initialMessages : Option (List Message)
  /-- the agent is in a run: a message has come and no `agent_end` since -/
  working : Bool
  /-- no message has come since the last `agent_end` -/
  ended : Bool
  /-- the agent's messages when it was suspended -/
  suspended : Option (List Message)

/-- After `start`, which has loaded the tape or could not. -/
def Transcript.start (messagesJson : List Message) (turnCount : ℕ) (tape : List Entry) (loaded : Bool) : Transcript where
  messagesJson := messagesJson
  rowCount := none
  turnCount := turnCount
  tape := tape
  messages := (restore messagesJson (if loaded then some tape else none)).1
  latestTurnCount := turnCount
  lastPersistedMsgCount := (restore messagesJson (if loaded then some tape else none)).2
  timer := false
  flushes := []
  initialMessages := some (restore messagesJson (if loaded then some tape else none)).1
  working := false
  ended := false
  suspended := none

inductive TranscriptEvent where
  | message (m : Message)
  | turnEnd
  /-- the timer of `scheduleFlush` runs out; the agent's array grows in place, or is replaced when a message comes -/
  | timer (inPlace : Bool)
  /-- `agent_end`, with the messages of the event, `none` if it gives the agent's own array -/
  | agentEnd (messages : Option (List Message))
  /-- the flush of `suspend`, once the agent is idle -/
  | suspend (inPlace : Bool)
  | wrote (i : ℕ) (ok : Bool)
  | appended (i : ℕ) (ok : Bool)
  /-- what `handleAgentEnd` writes into the row after its flush -/
  | markIdle (i : ℕ) (ok : Bool)
  /-- the `markIdle` of a `start` without a prompt -/
  | startIdle (ok : Bool)
  /-- the context, the configuration, the status or a link is put on the tape -/
  | record

/-- The array a flush holds, while the agent's has these messages. -/
def Flush.look (f : Flush) (messages : List Message) : List Message := f.array.getD messages

/-- `flushNow` up to `setMessages`. -/
def Transcript.flushNow (s : Transcript) (array : Option (List Message)) (tape agentEnd : Bool) : Transcript :=
  { s with
    timer := false
    flushes := s.flushes ++ [⟨array, tape, agentEnd, .writing (array.getD s.messages) s.latestTurnCount⟩] }

def Transcript.goto (s : Transcript) (i : ℕ) (f : Flush) (phase : FlushPhase) : Transcript :=
  { s with flushes := s.flushes.set i { f with phase := phase } }

def Transcript.writeRow (s : Transcript) (messages : List Message) : Transcript :=
  { s with messagesJson := messages, rowCount := some messages.length }

/-- `messages.slice(this.lastPersistedMsgCount)` -/
def Flush.newMessages (f : Flush) (s : Transcript) : List Message := (f.look s.messages).drop s.lastPersistedMsgCount

/-- `flushNow` after `setMessages`: the messages above the watermark go to the tape. -/
def Transcript.slice (s : Transcript) (i : ℕ) (f : Flush) : Transcript :=
  if f.tape && !(f.newMessages s).isEmpty then s.goto i f (.appending (f.look s.messages).length (f.newMessages s))
  else s.goto i f .finished

def Transcript.step (s : Transcript) : TranscriptEvent → Option Transcript
  | .message m =>
    if s.suspended.isNone then some { s with messages := s.messages ++ [m], working := true, ended := false } else none
  | .turnEnd =>
    if s.suspended.isNone then some { s with latestTurnCount := s.latestTurnCount + 1, timer := true } else none
  | .timer inPlace =>
    if s.timer then some (s.flushNow (if inPlace then none else some s.messages) true false) else none
  | .agentEnd messages =>
    if s.suspended.isNone then some { s.flushNow messages true true with working := false, ended := true } else none
  -- `abort`, `waitForIdle`: the run has come to its `agent_end`
  | .suspend inPlace =>
    if s.suspended.isNone && !s.working then
      some { s.flushNow (if inPlace then none else some s.messages) false false with suspended := some s.messages }
    else none
  | .wrote i ok => s.flushes[i]?.bind fun f =>
    match f.phase with
    | .writing snapshot turnCount =>
      some (if ok then { s.writeRow snapshot with turnCount := turnCount }.slice i f else s.slice i f)
    | _ => none
  | .appended i ok => s.flushes[i]?.bind fun f =>
    match f.phase with
    | .appending _ newMessages =>
      some (if ok then
        { s.goto i f .finished with
          tape := s.tape ++ messagesToEntries newMessages
          lastPersistedMsgCount := (f.look s.messages).length }
      else s.goto i f .finished)
    | _ => none
  | .markIdle i ok => s.flushes[i]?.bind fun f =>
    match f.phase with
    | .finished =>
      if f.agentEnd then some ((if ok then s.writeRow (f.look s.messages) else s).goto i f .marked) else none
    | _ => none
  | .startIdle ok => s.initialMessages.bind fun messages =>
    some { (if ok then s.writeRow messages else s) with initialMessages := none }
  | .record => some { s with tape := s.tape ++ [.record] }

end Nexal.Workers
