import Nexal.Lib.Runs

/-! The GitHub channel (`src/channels/github.ts`) and the part of GitHub it polls: the unread threads, a counter that
stands for the time of their last change, and the mark-reads on their way. The requests of a poll fail one by one;
activity on GitHub comes between any two of them. -/

namespace Nexal.GitHub

def defaultSubjectTypes : List String := ["Issue", "PullRequest", "CheckSuite"]

structure NotificationThread where
  subjectType : String
  reason : String
  unread : Bool
  /-- the login behind `subject.url`, if there is a url -/
  subjectUser : Option (Option String)
  /-- the login behind `latest_comment_url`, if that is another url -/
  latestUser : Option (Option String)
  /-- who has updated the thread -/
  updates : List String
deriving DecidableEq

/-- A thread as it stands in a listing. -/
structure Listed where
  id : ℕ
  thread : NotificationThread
deriving DecidableEq

structure GitHubConfig where
  subjectTypes : Option (List String)
  reasons : Option (List String)
  /-- the bot, as `GET /user` tells -/
  selfLogin : String
  /-- a thread that is marked read counts as a change of the notifications -/
  markReadChanges : Bool
  /-- what `GET /notifications` gives of the unread threads: its first page, the only one the channel asks for -/
  page : List Listed → List Listed

inductive Answer where
  /-- 304 -/
  | notModified
  | threads (lastModified : ℕ) (listing : List Listed)

inductive Phase where
  /-- `GET /user` -/
  | starting
  | inert
  | sleeping
  /-- `GET /notifications`, with the answer once GitHub has given it -/
  | polling (answer : Option Answer)
  /-- the body of the answer -/
  | reading (listing : List Listed)
  /-- subject and comment of a thread, with the number of requests still to be answered -/
  | fetching (t : Listed) (left : ℕ) (rest : List Listed)
  | marking (rest : List Listed)
  | ended

/-- A message to the agents, and how many updates its thread had by then. -/
structure Dispatch where
  thread : ℕ
  sender : String
  updates : ℕ
deriving DecidableEq

/-- A mark-read on its way, and how many updates its thread had when it was sent. -/
structure MarkRead where
  thread : ℕ
  updates : ℕ
deriving DecidableEq

structure State where
  threads : List NotificationThread
  modified : ℕ
  markReads : List MarkRead
  phase : Phase
  stopped : Bool
  lastModified : Option ℕ
  dispatches : List Dispatch

def init : State := ⟨[], 0, [], .starting, false, none, []⟩

section Channel
variable (cfg : GitHubConfig)

def matching (t : NotificationThread) : Bool :=
  (cfg.subjectTypes.getD defaultSubjectTypes).contains t.subjectType &&
    ((cfg.reasons.getD []).isEmpty || (cfg.reasons.getD []).contains t.reason)

def author (t : NotificationThread) : String := (t.latestUser.join.or t.subjectUser.join).getD "unknown"

/-- The requests `handleThread` makes before it knows the author. -/
def requests (t : NotificationThread) : ℕ := t.subjectUser.toList.length + t.latestUser.toList.length

/-- The loop of `tick`, up to the next thread it handles. -/
def forThreads : List Listed → State → State
  | [], s => { s with phase := .sleeping }
  | t :: rest, s =>
    if s.stopped then { s with phase := .sleeping }
    else if !t.thread.unread then forThreads rest s
    else if !matching cfg t.thread then forThreads rest s
    else { s with phase := .fetching t (requests t.thread) rest }

/-- `handleThread` once it knows the author: our own comment is marked read, anything else is dispatched first. -/
def handle (t : Listed) (rest : List Listed) (s : State) : State :=
  let updates := (s.threads[t.id]?.elim 0) fun now => now.updates.length
  let s := if author t.thread = cfg.selfLogin then s
    else { s with dispatches := s.dispatches ++ [⟨t.id, author t.thread, updates⟩] }
  { s with markReads := s.markReads ++ [⟨t.id, updates⟩], phase := .marking rest }

/-- Something has changed since the time that the next poll will send. -/
def fresh (s : State) : Bool := s.lastModified.all (· < s.modified)

def unreadThreads (s : State) : List Listed := (s.threads.mapIdx fun i t => ⟨i, t⟩).filter (·.thread.unread)

/-- GitHub's answer to `GET /notifications`. -/
def notifications (s : State) : Answer :=
  if fresh s then .threads s.modified (cfg.page (unreadThreads s)) else .notModified

inductive Act where
  | login (ok : Bool)
  | stop
  /-- the process starts anew, with GitHub as its memory -/
  | restart
  | wake
  /-- GitHub answers the poll -/
  | served
  /-- the head of the answer is there, with a `last-modified` or without -/
  | received (header : Bool)
  | read
  | fetched
  | handled
  /-- `markRead` comes back, or throws -/
  | marked
  /-- the poll, its body, or the request for a subject or a comment fails -/
  | failed
  /-- GitHub handles a mark-read -/
  | markRead (k : ℕ)
  | opened (t : NotificationThread) (author : String)
  | activity (i : ℕ) (author : String) (latestUser : Option (Option String)) (reason : String)
  /-- the bot's own comment, which does not notify it -/
  | ownComment (i : ℕ)

def setThread (s : State) (i : ℕ) (t : NotificationThread) : State := { s with threads := s.threads.set i t }

def step (s : State) : Act → Option State
  | .login ok =>
    match s.phase with
    | .starting => some { s with phase := if !ok then .inert else if s.stopped then .ended else .polling none }
    | _ => none
  | .stop => some { s with stopped := true }
  | .restart => some { s with phase := .starting, stopped := false, lastModified := none }
  | .wake =>
    match s.phase with
    | .sleeping => some { s with phase := if s.stopped then .ended else .polling none }
    | _ => none
  | .served =>
    match s.phase with
    | .polling none => some { s with phase := .polling (some (notifications cfg s)) }
    | _ => none
  | .received header =>
    match s.phase with
    | .polling (some .notModified) => some { s with phase := .sleeping }
    | .polling (some (.threads lastModified listing)) =>
      some { s with phase := .reading listing, lastModified := if header then some lastModified else s.lastModified }
    | _ => none
  | .read =>
    match s.phase with
    | .reading listing => some (forThreads cfg listing s)
    | _ => none
  | .fetched =>
    match s.phase with
    | .fetching t (left + 1) rest => some { s with phase := .fetching t left rest }
    | _ => none
  | .handled =>
    match s.phase with
    | .fetching t 0 rest => some (handle cfg t rest s)
    | _ => none
  | .marked =>
    match s.phase with
    | .marking rest => some (forThreads cfg rest s)
    | _ => none
  | .failed =>
    match s.phase with
    | .polling _ | .reading _ => some { s with phase := .sleeping }
    | .fetching _ (_ + 1) rest => some (forThreads cfg rest s)
    | _ => none
  | .markRead k =>
    s.markReads[k]?.bind fun m => s.threads[m.thread]?.map fun t =>
      { setThread s m.thread { t with unread := false } with
        markReads := s.markReads.eraseIdx k
        modified := if cfg.markReadChanges then s.modified + 1 else s.modified }
  | .opened t author =>
    some { s with threads := s.threads ++ [{ t with unread := true, updates := [author] }], modified := s.modified + 1 }
  | .activity i author latestUser reason =>
    s.threads[i]?.map fun t =>
      { setThread s i { t with
          unread := true
          reason := reason
          latestUser := latestUser
          updates := t.updates ++ [author] } with
        modified := s.modified + 1 }
  | .ownComment i =>
    s.threads[i]?.map fun t =>
      setThread s i { t with latestUser := some (some cfg.selfLogin), updates := t.updates ++ [cfg.selfLogin] }

end Channel

end Nexal.GitHub
