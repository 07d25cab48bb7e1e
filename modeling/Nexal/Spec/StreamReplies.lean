import Mathlib.Data.Nat.Notation

/-! The event subscriber of a chat's agent (`createSession` of `src/agent-pool.ts`): what of the assistant's messages
goes to the channel, in chunks or as whole replies. Texts are sequences of UTF-16 code units, as JavaScript slices
them. -/

namespace Nexal.StreamReplies

abbrev JsString := List UInt16

inductive Block where
  | text (text : JsString)
  /-- thinking, a tool call, an image -/
  | other

inductive Content where
  | plain (text : JsString)
  | blocks (blocks : List Block)

def extractTextFromContent : Content → JsString
  | .plain text => text
  | .blocks blocks => (blocks.filterMap fun
    | .text text => some text
    | .other => none).flatten

inductive Role where
  | user
  | assistant
  | toolResult
deriving DecidableEq

structure AgentMessage where
  role : Role
  content : Content

inductive AgentEvent where
  | messageStart (message : AgentMessage)
  | messageUpdate (message : AgentMessage)
  | messageEnd (message : AgentMessage)
  | toolExecutionEnd
  /-- the starts and ends of turns and of the agent's runs -/
  | other

/-- `session.lastIncoming`, and its `message_id` as a string. -/
structure Incoming where
  chatId : String
  messageId : Option String

/-- A call of the subscriber, with what it finds: the last message, the time and a random text. -/
structure Delivery where
  event : AgentEvent
  last : Incoming
  now : ℕ
  random : String

structure Address where
  channelName : String
  chatId : String

/-- What goes to the sender. -/
inductive Sent where
  | chunk (address : Address) (messageId : String) (delta : JsString)
  | fin (address : Address) (messageId : String)
  | reply (address : Address) (text : JsString) (replyTo : Option String)

structure State where
  streamMsgId : Option String
  streamSent : ℕ
  streamed : Bool
  /-- what has gone to the sender -/
  sent : List Sent

def init : State := ⟨none, 0, false, []⟩

def newMsgId (d : Delivery) : String := d.last.chatId ++ "-" ++ toString d.now ++ "-" ++ d.random

/-- `if (streamMsgId)` -/
def State.current (s : State) : Option String := s.streamMsgId.filter (· ≠ "")

/-- The text beyond what has been sent of it. -/
def flush (s : State) (address : Address) (id : String) (text : JsString) : State :=
  if s.streamSent < text.length then
    { s with
      streamSent := text.length
      streamed := true
      sent := s.sent ++ [.chunk address id (text.drop s.streamSent)] }
  else s

section Subscriber
variable (supportsStream : Bool) (channelName : String)

def onStart (s : State) (d : Delivery) : State :=
  { s with streamMsgId := some (newMsgId d), streamSent := 0, streamed := false }

def onUpdate (s : State) (d : Delivery) (message : AgentMessage) : State :=
  match s.current with
  | some id => flush s ⟨channelName, d.last.chatId⟩ id (extractTextFromContent message.content)
  | none => s

/-- The final delta after the last update. -/
def flushTail (s : State) (d : Delivery) (text : JsString) : State :=
  match supportsStream, s.current with
  | true, some id => flush s ⟨channelName, d.last.chatId⟩ id text
  | _, _ => s

/-- The end marker of a message that was streamed, else the full reply. -/
def finish (s : State) (d : Delivery) (text : JsString) : State :=
  match supportsStream && s.streamed, s.current with
  | true, some id => { s with streamMsgId := none, sent := s.sent ++ [.fin ⟨channelName, d.last.chatId⟩ id] }
  | _, _ =>
    if text = [] then s
    else { s with streamMsgId := none, sent := s.sent ++ [.reply ⟨channelName, d.last.chatId⟩ text d.last.messageId] }

/-- After the message is on the tape; an error of that is only logged, as is one of `send`. -/
def onEnd (s : State) (d : Delivery) (message : AgentMessage) : State :=
  let text := extractTextFromContent message.content
  finish supportsStream channelName (flushTail supportsStream channelName s d text) d text

def onEvent (s : State) (d : Delivery) : State :=
  match d.event with
  | .messageStart message => if message.role = .assistant then onStart s d else s
  | .messageUpdate message =>
    if supportsStream && message.role = .assistant then onUpdate channelName s d message else s
  | .messageEnd message =>
    if message.role = .assistant then onEnd supportsStream channelName s d message else s
  | .toolExecutionEnd | .other => s

def run (s : State) (deliveries : List Delivery) : State := deliveries.foldl (onEvent supportsStream channelName) s

end Subscriber

end Nexal.StreamReplies
