import Nexal.Spec.AgentChannel

/-! The skills filesystem of the agent (`crates/nexal-agent/src/fs/skills.rs`) beside the dispatch
loop: the thread that serves a mount takes one access after the other and fetches a file over the
loop's own connection. The accesses are those of the loop's handlers and of any other process; the
kernel decides which operations it makes of them. -/

namespace Nexal.Link.SkillsMount

open Wire (Value)

inductive FsNode where
  | dir (children : List UInt64)
  | file (relPath : String) (size : UInt64)

inductive Op where
  | lookup (parent : UInt64) (name : String)
  | getattr (ino : UInt64)
  | read (ino : UInt64) (offset : ℤ) (size : ℕ)
  | readdir (ino : UInt64) (offset : ℤ)

/-- The file whose content an operation asks `fetch_file` for. -/
def contentOf (nodes : List (UInt64 × FsNode)) : Op → Option String
  | .lookup _ _ | .readdir _ _ => none
  | .getattr ino =>
    if ino = 1 then none
    else
      match nodes.lookup ino with
      | some (.file relPath size) => if size = 0 then some relPath else none
      | _ => none
  | .read ino _ _ =>
    match nodes.lookup ino with
    | some (.file relPath _) => some relPath
    | _ => none

structure Access where
  op : Op
  /-- made by the handler that the dispatch loop is in -/
  byHandler : Bool

/-- A mounted filesystem and its thread. -/
structure Mount where
  nodes : List (UInt64 × FsNode)
  fileCache : List (String × List UInt8)
  queue : List Access
  /-- the thread waits in `fetch_file` for its request to return -/
  fetching : Option (Access × String × ℕ)

def Mount.new (nodes : List (UInt64 × FsNode)) : Mount := ⟨nodes, [], [], none⟩

/-- The file that the gateway has to be asked for. -/
def Mount.missing (m : Mount) (op : Op) : Option String :=
  (contentOf m.nodes op).filter fun relPath => (m.fileCache.lookup relPath).isNone

structure State where
  agent : AgentChannel.State
  mounts : List Mount
  /-- the handler waits for its access to a mount -/
  blocked : Option ℕ

def init : State := ⟨AgentChannel.init, [], none⟩

/-- The handlers that work on paths the gateway names. -/
def usesPaths : AgentMethod → Bool
  | .processStart | .fsReadFile | .fsWriteFile | .fsCreateDirectory | .fsGetMetadata | .fsReadDirectory | .fsRemove
  | .fsCopy => true
  | _ => false

inductive Act where
  | agent (a : AgentChannel.Act)
  /-- the `i`-th call, of `skills/list`, has returned and its tree is mounted -/
  | mount (i : ℕ) (nodes : List (UInt64 × FsNode))
  | access (m : ℕ) (op : Op)
  | otherAccess (m : ℕ) (op : Op)
  | serve (m : ℕ)
  | fetched (m : ℕ)

def enqueue (s : State) (m : ℕ) (a : Access) : Option State :=
  s.mounts[m]?.map fun mount => { s with mounts := s.mounts.set m { mount with queue := mount.queue ++ [a] } }

/-- The kernel gets its reply. -/
def reply (s : State) (a : Access) : State := if a.byHandler then { s with blocked := none } else s

def skillsReadParams (relPath : String) : Value := mpMap [("path", .string relPath)]

/-- The thread takes the next access. -/
def serveStep (s : State) (m : ℕ) : Option State :=
  s.mounts[m]?.bind fun mount =>
    match mount.fetching, mount.queue with
    | none, a :: queue =>
      match mount.missing a.op with
      | none => some (reply { s with mounts := s.mounts.set m { mount with queue := queue } } a)
      | some relPath =>
        (AgentChannel.step s.agent (.request true "skills/read" (skillsReadParams relPath))).map fun agent =>
          { s with
            agent := agent
            mounts := s.mounts.set m { mount with
              queue := queue, fetching := some (a, relPath, s.agent.calls.calls.length) } }
    | _, _ => none

section Step
-- `SkillsReadResponse` out of the answer to `skills/read`
variable (parseRead : Value → Option (List UInt8))

/-- The thread's request has returned. -/
def fetchedStep (s : State) (m : ℕ) : Option State :=
  s.mounts[m]?.bind fun mount =>
    mount.fetching.bind fun (a, relPath, i) =>
      s.agent.calls.calls[i]?.bind fun call =>
        match call.phase with
        | .returned result =>
          let fileCache :=
            match result.toOption.bind parseRead with
            | some data => (relPath, data) :: mount.fileCache.filter (·.1 ≠ relPath)
            | none => mount.fileCache
          some (reply { s with mounts := s.mounts.set m { mount with fileCache := fileCache, fetching := none } } a)
        | _ => none

def step (s : State) : Act → Option State
  | .agent a =>
    match a, s.blocked with
    | .handled _, some _ => none
    | _, _ => (AgentChannel.step s.agent a).map fun agent => { s with agent := agent }
  | .mount i nodes =>
    s.agent.calls.calls[i]?.bind fun call =>
      match call.method, call.phase with
      | "skills/list", .returned (.ok _) => some { s with mounts := s.mounts ++ [.new nodes] }
      | _, _ => none
  | .access m op =>
    match s.agent.loop, s.blocked with
    | .handling _ _ method _, none =>
      if (AgentMethod.parse method).any usesPaths then
        (enqueue s m ⟨op, true⟩).map fun s => { s with blocked := some m }
      else none
    | _, _ => none
  | .otherAccess m op => enqueue s m ⟨op, false⟩
  | .serve m => serveStep s m
  | .fetched m => fetchedStep parseRead s m

end Step

end Nexal.Link.SkillsMount
