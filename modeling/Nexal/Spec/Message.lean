import Nexal.Spec.Json

/-! The messages of an agent and their entries on its tape (`packages/tape/src/convert.ts`). Messages have the
types of pi-ai, for which the conversions to strings and the defaults for absent fields change nothing. -/

namespace Nexal.Workers

inductive ContentBlock where
  | text (text : String) (textSignature : Option String)
  | image (data mimeType : String)

inductive UserContent where
  | plain (text : String)
  | blocks (blocks : List ContentBlock)

inductive AssistantBlock where
  | text (text : String) (textSignature : Option String)
  | thinking (thinking : String) (thinkingSignature : Option String) (redacted : Option Bool)
  | toolCall (id name : String) (arguments : Record) (thoughtSignature : Option String)

structure AssistantMessage where
  content : List AssistantBlock
  api : String
  provider : String
  model : String
  responseId : Option String
  usage : Record
  stopReason : String
  errorMessage : Option String

structure ToolResultMessage where
  toolCallId : String
  toolName : String
  content : List ContentBlock
  details : Option Json
  isError : Bool

inductive Body where
  | user (content : UserContent)
  | assistant (message : AssistantMessage)
  | toolResult (message : ToolResultMessage)

structure Message where
  body : Body
  timestamp : JsNumber
  «meta» : Option Record

/-- An entry of a worker's tape, by what `entriesToMessages` makes of it: its payload and meta if its kind is
`message` or `tool_result`. -/
inductive Entry where
  | message (payload : Body) (timestamp : JsNumber) («meta» : Record)
  /-- the records of the worker's context, configuration, status and links -/
  | record

/-! Message to entry -/

def serializeBlock : ContentBlock → ContentBlock
  | .text text _ => .text text none
  | .image data mimeType => .image data mimeType

def serializeContent : UserContent → UserContent
  | .plain text => .plain text
  | .blocks blocks => .blocks (blocks.map serializeBlock)

/-- The payload that `messageToEntry` makes; the blocks of an assistant keep all their fields. -/
def serializeBody : Body → Body
  | .user content => .user (serializeContent content)
  | .assistant message => .assistant message
  | .toolResult message => .toolResult { message with content := message.content.map serializeBlock }

def messageToEntry (m : Message) : Entry := .message (serializeBody m.body) m.timestamp (m.meta.getD [])

def messagesToEntries (messages : List Message) : List Entry := messages.map messageToEntry

/-! Entry to message -/

/-- `p ? String(p) : undefined` -/
def truthyString (s : Option String) : Option String := s.filter (· ≠ "")

def reviveBlock : ContentBlock → ContentBlock
  | .text text _ => .text text none
  | .image data mimeType => .image data mimeType

def reviveContent : UserContent → UserContent
  | .plain text => .plain text
  | .blocks blocks => .blocks (blocks.map reviveBlock)

def reviveBody : Body → Body
  | .user content => .user (reviveContent content)
  | .assistant message => .assistant { message with
      responseId := truthyString message.responseId
      errorMessage := truthyString message.errorMessage }
  | .toolResult message => .toolResult { message with content := message.content.map reviveBlock }

/-- `withEntryMeta`: a meta without keys is not put on the message. -/
def entryMeta («meta» : Record) : Option Record := if «meta».isEmpty then none else some «meta»

def entryToMessage : Entry → Option Message
  | .message payload timestamp «meta» => some ⟨reviveBody payload, timestamp, entryMeta «meta»⟩
  | .record => none

def entriesToMessages (entries : List Entry) : List Message := entries.filterMap entryToMessage

/-- What `start` of a worker takes from its row and its tape, `none` if the tape cannot be loaded: the messages,
and how many of them are on the tape. The column `messages_json` is the list it spells. -/
def restore (messagesJson : List Message) : Option (List Entry) → List Message × ℕ
  | some entries =>
    if entries.isEmpty then (messagesJson, 0)
    else (entriesToMessages entries, (entriesToMessages entries).length)
  | none => (messagesJson, 0)

end Nexal.Workers
