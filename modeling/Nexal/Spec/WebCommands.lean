import Mathlib.Logic.Function.Basic
import Nexal.Lib.Lists
import Nexal.Spec.StreamReplies

/-! The slash commands of the web client (`web/src/lib/client.svelte.ts`), sent over one connection that stays up.
The server answers them in the order they were sent; a result carries the name of its command and nothing else to
tell it by. A call is the number of its command. -/

namespace Nexal.WebCommands

/-- What a `chat/commandResult` carries besides the name. -/
structure Result (δ : Type) where
  text : Option String
  error : Option String
  data : Option δ
deriving DecidableEq

structure Command where
  name : String
  /-- sent by `runCommandAwait` -/
  awaited : Bool
  /-- the call has timed out -/
  timedOut : Bool
deriving DecidableEq

/-- A callback in the set `awaiters`, with the name it closes over. -/
structure Awaiter where
  call : ℕ
  name : String
deriving DecidableEq

structure State (δ : Type) where
  /-- what has been sent -/
  commands : List Command
  /-- how many results have come -/
  delivered : ℕ
  mutedCounts : String → ℕ
  awaiters : List Awaiter
  /-- the system notes of the transcript -/
  messages : List String
  /-- the calls that have been resolved, and what with -/
  resolved : List (ℕ × Result δ)
  /-- the calls that have been rejected, and what with -/
  rejected : List (ℕ × String)

variable {δ : Type}

def init : State δ := ⟨[], 0, fun _ => 0, [], [], [], []⟩

inductive Event (δ : Type) where
  | runCommand (name : String)
  | runCommandAwait (name : String)
  /-- the result of the next command to be answered -/
  | result (result : Result δ)
  | timeout (call : ℕ)

def note (name : String) (r : Result δ) : String :=
  match r.error.filter (· ≠ "") with
  | some error => "/" ++ name ++ " error: " ++ error
  | none => "/" ++ name ++ ": " ++ r.text.getD ""

def runCommand (s : State δ) (name : String) : State δ :=
  { s with commands := s.commands ++ [⟨name, false, false⟩] }

def runCommandAwait (s : State δ) (name : String) : State δ :=
  { s with
    mutedCounts := Function.update s.mutedCounts name (s.mutedCounts name + 1)
    awaiters := s.awaiters ++ [⟨s.commands.length, name⟩]
    commands := s.commands ++ [⟨name, true, false⟩] }

def onCommandResult (s : State δ) (name : String) (r : Result δ) : State δ :=
  let called := s.awaiters.filter (·.name = name)
  let s' := { s with
    awaiters := s.awaiters.filter (·.name ≠ name)
    resolved := s.resolved ++ called.map fun w : Awaiter => (w.call, r) }
  if s'.mutedCounts name > 0 then
    { s' with mutedCounts := Function.update s'.mutedCounts name (s'.mutedCounts name - 1) }
  else { s' with messages := s'.messages ++ [note name r] }

/-- The timer of a call whose callback is still there. -/
def onTimeout (s : State δ) (w : Awaiter) : State δ :=
  { s with
    awaiters := s.awaiters.filter (·.call ≠ w.call)
    rejected := s.rejected ++ [(w.call, "/" ++ w.name ++ " timed out")]
    commands := s.commands.modify w.call fun c => { c with timedOut := true } }

def step (s : State δ) : Event δ → Option (State δ)
  | .runCommand name => some (runCommand s name)
  | .runCommandAwait name => some (runCommandAwait s name)
  | .result r => s.commands[s.delivered]?.map fun c => onCommandResult { s with delivered := s.delivered + 1 } c.name r
  | .timeout call => (s.awaiters.find? (·.call = call)).map (onTimeout s)

end Nexal.WebCommands

/-! The transcript of the web client, with its copy in `localStorage`. One page has the chat open at a time. -/

namespace Nexal.Transcript

open StreamReplies (JsString)

inductive Role where
  | user
  | agent
  | system
deriving DecidableEq

structure Message (μ : Type) where
  id : ℕ
  streamId : Option String
  role : Role
  text : JsString
  ts : ℤ
  streaming : Bool
  metadata : Option μ

structure State (μ : Type) where
  messages : List (Message μ)
  nextId : ℕ
  /-- what `localStorage` has under the key of the chat -/
  stored : Option (List (Message μ))
  /-- `saveTimer` is set -/
  saving : Bool
  typing : Bool

inductive Event (μ : Type) where
  | reply (text : JsString) (metadata : Option μ) (ts : ℤ)
  | replyChunk (messageId : String) (delta : JsString) (ts : ℤ)
  | replyEnd (messageId : String)
  | commandResult (muted : Bool) (note : JsString) (ts : ℤ)
  | typing
  | typingTimeout
  | pushSystem (text : JsString) (ts : ℤ)
  /-- with the trimmed text -/
  | sendText (trimmed : JsString) (connected : Bool) (ts : ℤ)
  /-- `setItem` throws if it is refused -/
  | saveTimeout (refused : Bool)
  | clearMessages (refused : Bool)
  /-- the page is loaded anew -/
  | reload

variable {μ : Type}

def ascii (text : String) : JsString := text.toList.map fun c => UInt16.ofNat c.toNat

def push (s : State μ) (role : Role) (text : JsString) (ts : ℤ) (streamId : Option String) (metadata : Option μ) :
    State μ :=
  { s with
    messages := s.messages ++ [⟨s.nextId, streamId, role, text, ts, streamId.isSome, metadata⟩]
    nextId := s.nextId + 1
    saving := true }

def pushSystem (s : State μ) (text : JsString) (ts : ℤ) : State μ := push s .system text ts none none

/-- The message `findStreaming` finds, changed in place. -/
def withStreaming (messages : List (Message μ)) (streamId : String) (change : Message μ → Message μ) :
    Option (List (Message μ)) :=
  Lists.modifyLast (fun m => m.streamId = some streamId) change messages

def onReplyChunk (s : State μ) (messageId : String) (delta : JsString) (ts : ℤ) : State μ :=
  match withStreaming s.messages messageId fun m => { m with text := m.text ++ delta } with
  | some messages => { s with messages := messages, typing := false, saving := true }
  | none => push { s with typing := false } .agent delta ts (some messageId) none

def onReplyEnd (s : State μ) (messageId : String) : State μ :=
  match withStreaming s.messages messageId fun m => { m with streaming := false } with
  | some messages => { s with messages := messages, saving := true }
  | none => s

def sendText (s : State μ) (trimmed : JsString) (connected : Bool) (ts : ℤ) : State μ :=
  if trimmed = [] then s
  else if !connected then pushSystem s (ascii "not connected") ts
  else push s .user trimmed ts none none

def MAX_PERSISTED_MESSAGES : ℕ := 1000

def closed (m : Message μ) : Message μ := { m with streaming := false, streamId := none }

/-- What is saved of a transcript. -/
def persisted (messages : List (Message μ)) : List (Message μ) :=
  let kept := messages.filter (·.role ≠ .system)
  (kept.drop (kept.length - MAX_PERSISTED_MESSAGES)).map closed

def isPersistableMessage (m : Message μ) : Bool := m.role = .user ∨ m.role = .agent

def loadCachedMessages (stored : Option (List (Message μ))) : List (Message μ) :=
  match stored with
  | some messages => (messages.filter isPersistableMessage).map closed
  | none => []

def saveCachedMessages (s : State μ) (refused : Bool) : State μ :=
  if refused then s else { s with stored := some (persisted s.messages) }

/-- A page that finds the copy. -/
def createChat (stored : Option (List (Message μ))) : State μ :=
  let restored := loadCachedMessages stored
  ⟨restored, match (restored.map (·.id)).max? with
    | some last => max 1 (last + 1)
    | none => 1, stored, false, false⟩

def init : State μ := createChat none

def step (s : State μ) : Event μ → Option (State μ)
  | .reply text metadata ts => some (push { s with typing := false } .agent text ts none metadata)
  | .replyChunk messageId delta ts => some (onReplyChunk s messageId delta ts)
  | .replyEnd messageId => some (onReplyEnd s messageId)
  | .commandResult muted note ts => some (if muted then s else push s .system note ts none none)
  | .typing => some { s with typing := true }
  | .typingTimeout => some { s with typing := false }
  | .pushSystem text ts => some (pushSystem s text ts)
  | .sendText trimmed connected ts => some (sendText s trimmed connected ts)
  | .saveTimeout refused => if s.saving then some (saveCachedMessages { s with saving := false } refused) else none
  | .clearMessages refused => some (saveCachedMessages { s with messages := [] } refused)
  | .reload => some (createChat s.stored)

end Nexal.Transcript
