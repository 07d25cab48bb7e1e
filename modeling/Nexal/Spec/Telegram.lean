import Nexal.Lib.JsText
import Nexal.Spec.Debounce

/-! The Telegram channel (`src/channels/telegram/channel.ts`): an update is refused, or its message is executed as a
command, buffered into its album or dispatched. The poll loop takes one update after the other; between them the timers
of the albums fire, and the channel may be stopped. -/

namespace Nexal.Telegram

open Debounce (ImageAttachment IncomingMessage)
open JsText (isSpace trim words)

structure TelegramChat where
  id : ℤ
  type : String
  username : Option String
  title : Option String

structure TelegramUser where
  id : ℤ
  isBot : Option Bool
  username : Option String
  firstName : Option String

structure TelegramPhotoSize where
  fileId : String
  fileUniqueId : String

structure TelegramSticker where
  fileId : String
  fileUniqueId : String
  isAnimated : Bool
  isVideo : Bool
  emoji : Option String
  setName : Option String
  thumbnail : Option TelegramPhotoSize

structure TelegramDocument where
  fileId : String
  fileName : Option String
  mimeType : Option String

/-- A video or an audio file, with its name or title. -/
structure TelegramMedia where
  fileId : String
  name : Option String

structure TelegramMessage where
  messageId : ℤ
  «from» : Option TelegramUser
  senderChat : Option TelegramChat
  chat : TelegramChat
  date : ℤ
  mediaGroupId : Option String
  text : Option String
  caption : Option String
  authorSignature : Option String
  /-- the sender of the message it replies to -/
  replyToFrom : Option TelegramUser
  forwardFrom : Option TelegramUser
  photo : Option (List TelegramPhotoSize)
  document : Option TelegramDocument
  sticker : Option TelegramSticker
  video : Option TelegramMedia
  voice : Option String
  animation : Option String
  audio : Option TelegramMedia

structure TelegramUpdate where
  message : Option TelegramMessage
  editedMessage : Option TelegramMessage
  channelPost : Option TelegramMessage

structure CommandContext where
  channel : String
  chatId : String
  sender : String

/-- The commands, with the text that is replied when one has returned or failed. -/
structure CommandRegistry where
  has : String → Bool
  execute : String → CommandContext → List String → Option String

structure TelegramChannelConfig where
  allowFrom : Option (List String)
  allowChats : Option (List String)
  commands : Option CommandRegistry

/-! Senders -/

structure Sender where
  username : String
  userId : String

/-- `if (s)` of an optional string. -/
def truthy (s : Option String) : Option String := s.filter (· ≠ "")

def isForward (username : String) : Bool := username = "Channel_Bot" || username = "GroupAnonymousBot"

def extractSender (msg : TelegramMessage) : Sender :=
  let fromUsername := (msg.from.bind (·.username)).getD "unknown"
  let fromId := (msg.from.map fun u => toString u.id).getD ""
  if !isForward fromUsername then ⟨fromUsername, fromId⟩
  else
    match truthy msg.authorSignature with
    | some signature => ⟨signature, fromId⟩
    | none =>
      match msg.senderChat.bind fun c => (truthy (some ((c.username <|> c.title).getD ""))).map
        (Sender.mk · (toString c.id)) with
      | some sender => sender
      | none =>
        match msg.forwardFrom with
        | some u => ⟨(u.username <|> u.firstName).getD "unknown", toString u.id⟩
        | none => ⟨fromUsername, fromId⟩

/-! Contents -/

def trimText (s : String) : String := String.ofList (trim s.toList)

def mediaStub (caption : Option String) (label fileId : String) : String × List ImageAttachment :=
  (trimText (caption.getD "" ++ "\n[received " ++ label ++ ", file_id: " ++ fileId ++ "]"), [])

section Content
-- what `downloadFile` gives for a file, if it does not fail
variable (download : String → Option (List UInt8))

def stickerImages (s : TelegramSticker) : List ImageAttachment :=
  let target : Option (TelegramPhotoSize × String × String) :=
    match s.thumbnail with
    | some thumbnail => some (thumbnail, "image/jpeg", "jpg")
    | none => if !s.isAnimated && !s.isVideo then some (⟨s.fileId, s.fileUniqueId⟩, "image/webp", "webp") else none
  match target with
  | some (file, mime, ext) =>
    match download file.fileId with
    | some data => [⟨.bytes data, mime, file.fileUniqueId ++ "." ++ ext⟩]
    | none => []
  | none => []

def photoImages (largest : TelegramPhotoSize) : List ImageAttachment :=
  match download largest.fileId with
  | some data => [⟨.bytes data, "image/jpeg", largest.fileUniqueId ++ ".jpg"⟩]
  | none => []

def extractContent (msg : TelegramMessage) : String × List ImageAttachment :=
  match truthy msg.text with
  | some text => (text, [])
  | none =>
  match (msg.photo.getD []).getLast? with
  | some largest => (msg.caption.getD "", photoImages download largest)
  | none =>
  match msg.document with
  | some document =>
    (trimText (msg.caption.getD "" ++ "\n[received document: " ++ document.fileName.getD "file" ++ " (" ++
      document.mimeType.getD "" ++ "), file_id: " ++ document.fileId ++ "]"), [])
  | none =>
  match msg.sticker with
  | some s =>
    ("[sticker " ++ s.emoji.getD "" ++ ", file_id: " ++ s.fileId ++ ((truthy s.setName).elim "" (", set: " ++ ·)) ++ "]",
      stickerImages download s)
  | none =>
  match msg.voice with
  | some fileId => mediaStub msg.caption "voice message" fileId
  | none =>
  match msg.video with
  | some video => mediaStub msg.caption ("video: " ++ video.name.getD "video") video.fileId
  | none =>
  match msg.animation with
  | some fileId => mediaStub msg.caption "animation/gif" fileId
  | none =>
  match msg.audio with
  | some audio => mediaStub msg.caption ("audio: " ++ audio.name.getD "audio") audio.fileId
  | none => ("", [])

end Content

/-- `/\w/` -/
def isWord (c : Char) : Bool := c.toNat < 128 && (c.isAlphanum || c = '_')

/-- `text.match(/^\/(\w+)(?:@\S+)?\s*(.*)/s)` of a text, with its words as arguments. -/
def parseCommand (text : String) : Option (String × List String) :=
  match text.toList with
  | '/' :: l =>
    let name := l.takeWhile isWord
    let rest := l.dropWhile isWord
    let rest :=
      match rest with
      | '@' :: bot => if (bot.takeWhile (!isSpace ·)).isEmpty then rest else bot.dropWhile (!isSpace ·)
      | _ => rest
    if name.isEmpty then none else some (String.ofList name, (words rest).map String.ofList)
  | _ => none

/-! The channel -/

/-- An item of an album. -/
structure Item where
  text : String
  images : List ImageAttachment
  msg : TelegramMessage

/-- What the channel does. -/
inductive Done where
  /-- `sendMessage` of the refusal -/
  | refused (chatId text : String)
  | executed (msg : TelegramMessage) (name : String) (args : List String) (reply : Option String)
  | buffered (groupId : String) (item : Item)
  /-- `onMessage` -/
  | dispatched (items : List Item) (incoming : IncomingMessage)

structure State where
  botUsername : String
  mediaGroups : List (String × List Item)
  /-- what has been done so far -/
  done : List Done

def init (botUsername : String) : State := ⟨botUsername, [], []⟩

def detectMention (s : State) (msg : TelegramMessage) (text : String) : Bool :=
  msg.chat.type = "private" || (msg.replyToFrom.bind (·.isBot)).getD false ||
    (s.botUsername ≠ "" && text.toList.tails.any fun tail => ('@' :: s.botUsername.toList).isPrefixOf tail)

def chatIdOf (msg : TelegramMessage) : String := toString msg.chat.id

/-- A list that is there and not empty. -/
def listed (l : Option (List String)) : List String := l.getD []

def allowChat (config : TelegramChannelConfig) (msg : TelegramMessage) : Bool :=
  (listed config.allowChats).isEmpty || (listed config.allowChats).contains (chatIdOf msg)

def isChannelBotForward (msg : TelegramMessage) : Bool := (msg.from.bind (·.username)).any isForward

def allowUser (config : TelegramChannelConfig) (msg : TelegramMessage) : Bool :=
  isChannelBotForward msg || (listed config.allowFrom).isEmpty || (listed config.allowFrom).contains
    (extractSender msg).username

def incomingOf (s : State) (first : Item) (text : String) (images : List ImageAttachment) (album : Bool) :
    IncomingMessage where
  channel := "telegram"
  chatId := chatIdOf first.msg
  sender := (extractSender first.msg).username
  text := text
  timestamp := first.msg.date * 1000
  isMentioned := detectMention s first.msg text
  metadata := [("message_id", .num first.msg.messageId), ("user_id", .str (extractSender first.msg).userId)] ++
    if album then [("album", .bool true)] else []
  images := images

def State.log (s : State) (d : Done) : State := { s with done := s.done ++ [d] }

def bufferAlbum (s : State) (groupId : String) (item : Item) : State :=
  match s.mediaGroups.lookup groupId with
  | some _ =>
    { s with mediaGroups := s.mediaGroups.map fun g => if g.1 = groupId then (g.1, g.2 ++ [item]) else g }
  | none => { s with mediaGroups := s.mediaGroups ++ [(groupId, [item])] }

def dispatchAlbum (s : State) (items : List Item) : State :=
  match items with
  | [] => s
  | first :: _ =>
    let combined := "\n".intercalate ((items.map (·.text)).filter (· ≠ ""))
    let images := items.flatMap (·.images)
    let text := if combined ≠ "" then combined else "[received album with " ++ toString images.length ++ " image(s)]"
    s.log (.dispatched items (incomingOf s first text images true))

/-- The command of a text, if there is one and it is registered. -/
def commandOf (config : TelegramChannelConfig) (text : String) : Option (CommandRegistry × String × List String) :=
  config.commands.bind fun cmds =>
    (parseCommand text).bind fun (name, args) => if cmds.has name then some (cmds, name, args) else none

def handleMessage (config : TelegramChannelConfig) (download : String → Option (List UInt8)) (s : State)
    (msg : TelegramMessage) : State :=
  let chatId := chatIdOf msg
  let sender := extractSender msg
  if !allowChat config msg && !allowUser config msg then
    s.log (.refused chatId ("⚠️ Not authorized.\nchat_id: " ++ chatId ++ "\nuser: @" ++ sender.username ++ " (id: " ++
      sender.userId ++ ")"))
  else
    let (text, images) := extractContent download msg
    if text = "" && images.isEmpty then s
    else
      match commandOf config text with
      | some (cmds, name, args) =>
        s.log (.executed msg name args (cmds.execute name ⟨"telegram", chatId, sender.username⟩ args))
      | none =>
        let item : Item := ⟨text, images, msg⟩
        match truthy msg.mediaGroupId with
        | some groupId => (bufferAlbum s groupId item).log (.buffered groupId item)
        | none => s.log (.dispatched [item] (incomingOf s item text images false))

/-- The message of an update. -/
def TelegramUpdate.msg (up : TelegramUpdate) : Option TelegramMessage := up.message <|> up.channelPost <|> up.editedMessage

inductive Event where
  /-- an update of the poll loop, with what the files it asks for hold -/
  | update (up : TelegramUpdate) (download : String → Option (List UInt8))
  /-- the timer of an album -/
  | timer (groupId : String)
  | stop

def step (config : TelegramChannelConfig) (s : State) : Event → State
  | .update up download =>
    match up.msg with
    | some msg => handleMessage config download s msg
    | none => s
  | .timer groupId =>
    match s.mediaGroups.lookup groupId with
    | some items => dispatchAlbum { s with mediaGroups := s.mediaGroups.filter (·.1 ≠ groupId) } items
    | none => s
  | .stop => { s with mediaGroups := [] }

def run (config : TelegramChannelConfig) (s : State) (events : List Event) : State := events.foldl (step config) s

/-! The poll loop -/

/-- An update the server has, with what the files it asks for hold. -/
structure Update where
  updateId : ℤ
  up : TelegramUpdate
  download : String → Option (List UInt8)

inductive Poll where
  /-- at `getUpdates` -/
  | asking
  /-- after a failure, until the next try -/
  | waiting
  /-- the updates of an answer still to be handled -/
  | handling (updates : List Update)
  | ended

/-- The process with its channel, and the server. -/
structure Loop where
  channel : State
  offset : ℤ
  poll : Poll
  stopping : Bool
  /-- what has been handled since the process began -/
  handled : List Update
  /-- what earlier processes have handled -/
  before : List Update
  /-- the updates the server had for the process when it began, and has got since -/
  queue : List Update
  /-- all updates there ever were -/
  posted : List Update
  /-- the updates the server still has -/
  unconfirmed : List Update

def Loop.start (botUsername : String) : Loop := ⟨init botUsername, 0, .asking, false, [], [], [], [], []⟩

inductive LoopAct where
  /-- somebody writes; the server counts its updates upwards -/
  | post (u : Update)
  /-- `getUpdates` returns some of the first updates from the offset on -/
  | answer (n : ℕ)
  /-- it fails, before or after the server has got the request -/
  | fail (reached : Bool)
  /-- the next try, or the next turn of the loop -/
  | next
  /-- the next update of the answer -/
  | handle
  | timer (groupId : String)
  | stop
  /-- the process ends, and the next one begins -/
  | restart

/-- What the server still has once it has seen a request: the offset confirms what lies before it. -/
def Loop.confirm (s : Loop) : List Update := s.unconfirmed.filter (s.offset ≤ ·.updateId)

def loopStep (config : TelegramChannelConfig) (s : Loop) : LoopAct → Option Loop
  | .post u =>
    if 0 < u.updateId ∧ ∀ v ∈ s.posted, v.updateId < u.updateId then
      some { s with queue := s.queue ++ [u], posted := s.posted ++ [u], unconfirmed := s.unconfirmed ++ [u] }
    else none
  | .answer n =>
    match s.poll with
    | .asking => some { s with poll := .handling (s.confirm.take n), unconfirmed := s.confirm }
    | _ => none
  | .fail reached =>
    match s.poll with
    | .asking => some { s with poll := .waiting, unconfirmed := if reached then s.confirm else s.unconfirmed }
    | _ => none
  | .next =>
    match s.poll with
    | .waiting | .handling [] => some { s with poll := if s.stopping then .ended else .asking }
    | _ => none
  | .handle =>
    match s.poll with
    | .handling (u :: updates) =>
      some { s with
        offset := u.updateId + 1
        channel := step config s.channel (.update u.up u.download)
        poll := .handling updates
        handled := s.handled ++ [u] }
    | _ => none
  | .timer groupId => some { s with channel := step config s.channel (.timer groupId) }
  | .stop => some { s with channel := step config s.channel .stop, stopping := true }
  | .restart =>
    some { s with
      channel := init s.channel.botUsername
      offset := 0
      poll := .asking
      stopping := false
      handled := []
      before := s.before ++ s.handled
      queue := s.unconfirmed }

end Nexal.Telegram
