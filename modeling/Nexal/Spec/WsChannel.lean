import Mathlib.Data.List.AList
import Nexal.Lib.Runs
import Nexal.Spec.Json

/-! The WebSocket channel (`src/channels/ws.ts`): the sockets, the chat each of them is in, and what is sent to whom. A
socket that has been told to close can still bring a message before its close event comes. -/

namespace Nexal.WsChannel

def defaultChatId : String := "default"

def defaultSender : String := "ws-user"

structure WsState where
  chatId : String
  authed : Bool
  userId : Option String
deriving DecidableEq

inductive ReadyState where
  | live
  | closing
  | closed
deriving DecidableEq

structure BunWs where
  state : WsState
  readyState : ReadyState
  /-- `attach` has wired a connection to it -/
  wired : Bool
deriving DecidableEq

structure User where
  sub : String
  email : Option String
deriving DecidableEq

inductive ChatNotification where
  | reply (chatId text : String) (metadata : Option Record)
  | replyChunk (chatId messageId delta : String)
  | replyEnd (chatId messageId : String)
  | typing (chatId : String)
  | commandResult (chatId name : String) (text error : Option String) (data : Option Json)

/-- A notification with the state its socket has when it is sent. -/
structure Sent where
  socket : ℕ
  state : WsState
  notification : ChatNotification

structure ImageAttachment where
  data : String
  mimeType : String
  filename : String

/-- What varies in the message that `onMessage` gets. -/
structure IncomingMessage where
  chatId : String
  sender : String
  text : String
  images : List ImageAttachment

/-- A slash command under way. -/
structure Execution where
  socket : ℕ
  chatId : String
  name : String

inductive CommandOutcome where
  | returned (text error : Option String) (data : Option Json)
  | threw (message : String)

structure WsChannelConfig where
  isAuthEnabled : Bool
  /-- `commands.has` -/
  hasCommand : String → Bool

structure State where
  server : Bool
  sockets : List BunWs
  /-- the sockets in each chat -/
  clients : AList fun _ : String => List ℕ
  /-- the sockets whose token is being verified -/
  verifying : List ℕ
  executing : List Execution
  /-- the chats of the typing timers -/
  timers : List String
  sent : List Sent
  /-- the answers to `chat/authenticate` -/
  answers : List (ℕ × Except String User)
  incoming : List IncomingMessage

def init : State := ⟨false, [], ∅, [], [], [], [], [], []⟩

def modifySocket (i : ℕ) (f : BunWs → BunWs) (s : State) : State := { s with sockets := s.sockets.modify i f }

def addClient (chatId : String) (i : ℕ) (s : State) : State :=
  let set := (s.clients.lookup chatId).getD []
  { s with clients := s.clients.insert chatId (if i ∈ set then set else set ++ [i]) }

def removeClient (chatId : String) (i : ℕ) (s : State) : State :=
  match s.clients.lookup chatId with
  | none => s
  | some set =>
    let set := set.filter (· ≠ i)
    { s with clients := if set = [] then s.clients.erase chatId else s.clients.insert chatId set }

def rebindChat (i : ℕ) (chatId : String) (s : State) : State :=
  match s.sockets[i]? with
  | none => s
  | some ws =>
    if chatId = ws.state.chatId then s
    else
      let s := removeClient ws.state.chatId i s
      let s := modifySocket i (fun ws => { ws with state := { ws.state with chatId := chatId } }) s
      addClient chatId i s

def BunWs.receives (ws : BunWs) : Bool := ws.wired && ws.readyState == .live

/-- `connection.notify`: the transport drops what is sent to a socket that is not open. -/
def notify (i : ℕ) (n : ChatNotification) (s : State) : State :=
  match s.sockets[i]? with
  | none => s
  | some ws => if ws.receives then { s with sent := s.sent ++ [⟨i, ws.state, n⟩] } else s

def broadcast (chatId : String) (n : ChatNotification) (s : State) : State :=
  ((s.clients.lookup chatId).getD []).foldl (fun s i => notify i n s) s

def fireIncoming (chatId sender text : String) (images : List (String × String)) (s : State) : State :=
  { s with incoming :=
    s.incoming ++ [⟨chatId, sender, text, images.map fun img => ⟨img.1, img.2, "clipboard.png"⟩⟩] }

def attach (i : ℕ) (s : State) : State :=
  match s.sockets[i]? with
  | none => s
  | some ws => addClient ws.state.chatId i (modifySocket i (fun ws => { ws with wired := true }) s)

def handleCommand (cfg : WsChannelConfig) (i : ℕ) (chatId name : String) (s : State) : State :=
  if cfg.hasCommand name then { s with executing := s.executing ++ [⟨i, chatId, name⟩] }
  else notify i (.commandResult chatId name none (some s!"unknown command: /{name}") none) s

/-- What a finished command tells the client; an empty error is left out. -/
def commandResult (e : Execution) : CommandOutcome → ChatNotification
  | .returned text error data => .commandResult e.chatId e.name (some (text.getD "")) (error.filter (· ≠ "")) data
  | .threw message => .commandResult e.chatId e.name none (some message) none

def stop (s : State) : State :=
  let shut := s.clients.entries.flatMap (·.2)
  { s with
    server := false
    sockets := s.sockets.mapIdx fun i ws =>
      if i ∈ shut ∧ ws.readyState = .live then { ws with readyState := .closing } else ws
    clients := ∅ }

inductive Act where
  | start
  | upgrade
  | opened (i : ℕ)
  | authenticate (i : ℕ) (token : String)
  /-- `verifySupabaseJwt` comes back -/
  | verified (k : ℕ) (user : Option User)
  | send (i : ℕ) (chatId sender text : Option String) (images : List (String × String))
  | command (i : ℕ) (chatId : Option String) (name : String)
  | executed (k : ℕ) (outcome : CommandOutcome)
  | close (i : ℕ)
  /-- `POST /send` -/
  | post (chatId sender text : Option String)
  | reply (chatId text : String) (metadata : Option Record)
  | sendChunk (chatId messageId delta : String)
  | sendEnd (chatId messageId : String)
  | startTyping (chatId : String)
  | typingTick (k : ℕ)
  | stopTyping (k : ℕ)
  | stop

/-- The socket a message comes from. -/
def receiving (s : State) (i : ℕ) : Option BunWs :=
  s.sockets[i]?.filter fun ws => ws.wired && ws.readyState != .closed

def step (cfg : WsChannelConfig) (s : State) : Act → Option State
  | .start => some { s with server := true }
  | .upgrade =>
    if s.server then some { s with sockets := s.sockets ++
      [⟨⟨defaultChatId, !cfg.isAuthEnabled, none⟩, .live, false⟩] }
    else none
  | .opened i =>
    s.sockets[i]?.bind fun ws => if ws.wired = false ∧ ws.readyState = .live then some (attach i s) else none
  | .authenticate i token =>
    (receiving s i).map fun _ =>
      if token = "" then { s with answers := s.answers ++ [(i, .error "missing token")] }
      else { s with verifying := s.verifying ++ [i] }
  | .verified k user =>
    s.verifying[k]?.map fun i =>
      let s := { s with verifying := s.verifying.eraseIdx k }
      match user with
      | none => { s with answers := s.answers ++ [(i, .error "invalid or expired token")] }
      | some user =>
        let s := { s with answers := s.answers ++ [(i, .ok user)] }
        modifySocket i (fun ws => { ws with state := { ws.state with authed := true, userId := some user.sub } }) s
  | .send i chatId sender text images =>
    (receiving s i).map fun ws =>
      if ws.state.authed then
        let target := chatId.getD defaultChatId
        fireIncoming target (sender.getD defaultSender) (text.getD "") images (rebindChat i target s)
      else s
  | .command i chatId name =>
    (receiving s i).map fun ws =>
      if ws.state.authed then
        let target := chatId.getD defaultChatId
        handleCommand cfg i target name (rebindChat i target s)
      else s
  | .executed k outcome =>
    s.executing[k]?.map fun e =>
      notify e.socket (commandResult e outcome) { s with executing := s.executing.eraseIdx k }
  | .close i =>
    s.sockets[i]?.bind fun ws =>
      if ws.readyState = .closed then none
      else some (removeClient ws.state.chatId i (modifySocket i (fun ws => { ws with readyState := .closed }) s))
  | .post chatId sender text =>
    if s.server then some (fireIncoming (chatId.getD defaultChatId) (sender.getD defaultSender) (text.getD "") [] s)
      else none
  | .reply chatId text metadata => some (broadcast chatId (.reply chatId text metadata) s)
  | .sendChunk chatId messageId delta => some (broadcast chatId (.replyChunk chatId messageId delta) s)
  | .sendEnd chatId messageId => some (broadcast chatId (.replyEnd chatId messageId) s)
  | .startTyping chatId =>
    if (s.clients.lookup chatId).getD [] = [] then some s
    else some { broadcast chatId (.typing chatId) s with timers := s.timers ++ [chatId] }
  | .typingTick k => s.timers[k]?.map fun chatId => broadcast chatId (.typing chatId) s
  | .stopTyping k => if k < s.timers.length then some { s with timers := s.timers.eraseIdx k } else none
  | .stop => some (stop s)

end Nexal.WsChannel
