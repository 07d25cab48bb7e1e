import Mathlib.Data.List.AList
import Mathlib.Data.List.DropRight
import Mathlib.Logic.Function.Basic
import Nexal.Lib.Runs
import Nexal.Lib.Utf8

/-! The proxies of the agent (`crates/nexal-agent/src/proxy.rs`): an HTTP request that comes over a Unix
socket goes to an upstream with a path prefix and injected headers. -/

namespace Nexal.AgentProxy

/-! Upstream URLs -/

structure UpstreamInfo where
  host : String
  port : ℕ
  tls : Bool
  pathPrefix : String

/-- `u16::from_str`: a plus sign may stand before the digits. -/
def parseU16 (s : List Char) : Option ℕ :=
  let digits := if s.head? = some '+' then s.drop 1 else s
  if digits ≠ [] ∧ digits.all Char.isDigit then
    let n := digits.foldl (fun n c => 10 * n + (c.toNat - '0'.toNat)) 0
    if n < 65536 then some n else none
  else none

/-- `split_once`: what stands before the separator and after it. -/
def splitOnce (sep : List Char) : List Char → Option (List Char × List Char)
  | [] => if sep = [] then some ([], []) else none
  | c :: rest =>
    if sep.isPrefixOf (c :: rest) then some ([], (c :: rest).drop sep.length)
    else (splitOnce sep rest).map fun p => (c :: p.1, p.2)

def parseUpstream (url : String) : Except String UpstreamInfo :=
  match splitOnce "://".toList url.toList with
  | none => .error "missing scheme"
  | some (scheme, rest) =>
    let tls : Bool := scheme = "https".toList
    let hostPort := rest.takeWhile (· ≠ '/')
    let pathPrefix := String.ofList (rest.dropWhile (· ≠ '/'))
    match splitOnce [':'] hostPort with
    | none => .ok ⟨String.ofList hostPort, if tls then 443 else 80, tls, pathPrefix⟩
    | some (h, p) =>
      match parseU16 p with
      | some port => .ok ⟨String.ofList h, port, tls, pathPrefix⟩
      | none => .error "invalid port"

/-! The first request of a connection -/

/-- `haystack.windows(needle.len()).position(|w| w == needle)` -/
def findSubsequence (haystack needle : List UInt8) : Option ℕ :=
  (List.range (haystack.length + 1 - needle.length)).find? fun i => (haystack.drop i).take needle.length = needle

def headEnd : List UInt8 := [13, 10, 13, 10]

inductive ReadHead where
  /-- the client has not sent enough -/
  | reading
  | closed
  | tooLarge
  /-- the buffer, where the head ends in it, and the reads that are left -/
  | found (buf : List UInt8) (headersEnd : ℕ) (rest : List (List UInt8))

/-- The loop that reads; a read of nothing is the end of file. -/
def readHead (buf : List UInt8) : List (List UInt8) → ReadHead
  | [] => .reading
  | chunk :: rest =>
    if chunk = [] then .closed
    else
      match findSubsequence (buf ++ chunk) headEnd with
      | some pos => .found (buf ++ chunk) pos rest
      | none => if (buf ++ chunk).length > 1024 * 1024 then .tooLarge else readHead (buf ++ chunk) rest

def crlf : List Char := ['\r', '\n']

/-- The text up to the first line break, and the rest with it. -/
def breakCrlf : List Char → List Char × List Char
  | '\r' :: '\n' :: rest => ([], '\r' :: '\n' :: rest)
  | c :: rest => (c :: (breakCrlf rest).1, (breakCrlf rest).2)
  | [] => ([], [])

/-- `split("\r\n")`: the first line and the others. -/
def splitCrlf : List Char → List Char × List (List Char)
  | '\r' :: '\n' :: rest => ([], (splitCrlf rest).1 :: (splitCrlf rest).2)
  | c :: rest => (c :: (splitCrlf rest).1, (splitCrlf rest).2)
  | [] => ([], [])

def splitn : ℕ → Char → List Char → List (List Char)
  | 0, _, _ => []
  | 1, _, l => [l]
  | n + 2, sep, l =>
    match l.dropWhile (· ≠ sep) with
    | [] => [l]
    | _ :: rest => l.takeWhile (· ≠ sep) :: splitn (n + 1) sep rest

/-- The white space of Unicode, which `trim` removes. -/
def isWhitespace (c : Char) : Bool :=
  (9 ≤ c.toNat && c.toNat ≤ 13) || (0x2000 ≤ c.toNat && c.toNat ≤ 0x200A) ||
    [0x20, 0x85, 0xA0, 0x1680, 0x2028, 0x2029, 0x202F, 0x205F, 0x3000].contains c.toNat

def trim (l : List Char) : List Char := (l.dropWhile isWhitespace).rdropWhile isWhitespace

def isHost (line : List Char) : Bool :=
  match splitOnce [':'] line with
  | some (key, _) => (trim key).map Char.toLower = "host".toList
  | none => false

inductive HeadError where
  | requestHeadTooLarge
  | utf8
  | noMethod
  | noPath

/-- The head as it is sent upstream; the injected headers come in the order of the map. -/
def rewriteHead (upstream : UpstreamInfo) (injectHeaders : List (String × String)) (head : String) :
    Except HeadError String :=
  let requestLine := (breakCrlf head.toList).1
  let restHeaders := (breakCrlf head.toList).2
  match splitn 3 ' ' requestLine with
  | [] => .error .noMethod
  | [_] => .error .noPath
  | method :: path :: more =>
    let version := more.head?.getD "HTTP/1.1".toList
    let pathPrefix := upstream.pathPrefix.toList
    let newPath := if pathPrefix = [] then path else pathPrefix.rdropWhile (· = '/') ++ path
    let rewritten := method ++ [' '] ++ newPath ++ [' '] ++ version ++ crlf
    let rewritten := rewritten ++ ("Host: ".toList ++ upstream.host.toList ++ crlf)
    let rewritten := ((splitCrlf restHeaders).1 :: (splitCrlf restHeaders).2).foldl (fun out line =>
      if line = [] then out else if isHost line then out else out ++ line ++ crlf) rewritten
    let rewritten := injectHeaders.foldl (fun out h => out ++ (h.1.toList ++ ": ".toList ++ h.2.toList ++ crlf)) rewritten
    .ok (String.ofList (rewritten ++ crlf))

inductive Outcome where
  | reading
  | closed
  | failed (err : HeadError)
  /-- connected to the upstream and bridged, with what is written before, and the reads that are left -/
  | bridged (rewritten remainingBody : List UInt8) (rest : List (List UInt8))

/-- `handle_connection` up to the bridge, when the upstream can be connected. -/
def handleConnection (upstream : UpstreamInfo) (injectHeaders : List (String × String)) (reads : List (List UInt8)) :
    Outcome :=
  match readHead [] reads with
  | .reading => .reading
  | .closed => .closed
  | .tooLarge => .failed .requestHeadTooLarge
  | .found buf headersEnd rest =>
    match Utf8.fromUtf8 (buf.take headersEnd) with
    | none => .failed .utf8
    | some head =>
      match rewriteHead upstream injectHeaders head with
      | .error err => .failed err
      | .ok rewritten => .bridged (Utf8.encode rewritten) (buf.drop (headersEnd + 4)) rest

end Nexal.AgentProxy

/-! The manager of the agent's proxies (`crates/nexal-agent/src/proxy.rs`, `ProxyManager`): a map of
instances, the tasks of their listeners, and the socket files. What the file system answers to a call is
given with the call. -/

namespace Nexal.AgentProxy

/-- Which key of the map a socket path is, and which place in the file system. -/
structure Paths (κ φ : Type) where
  pathBuf : String → κ
  file : κ → φ

inductive Entry where
  /-- a socket file, and the listener that it was bound to -/
  | socket (listener : ℕ)
  | other
deriving DecidableEq

structure Listener where
  /-- nothing for a socket that is dropped as soon as it is bound -/
  serves : Option (UpstreamInfo × List (String × String))
  /-- neither cancelled nor ended by an error of `accept` -/
  running : Bool

/-- What `create_dir_all` (nothing to do where the path has no parent), `remove_file` and `bind` do. -/
structure FsAnswers where
  createDir : Except String Unit
  removed : Bool
  bound : Except String Unit

structure Manager (κ φ : Type) where
  /-- the listener whose cancellation token an instance holds -/
  instances : AList fun _ : κ => ℕ
  listeners : List Listener
  disk : φ → Option Entry

variable {κ φ : Type} [DecidableEq κ] [DecidableEq φ]

namespace Manager

/-- The manager starts in a file system where there may be files already. -/
def new (files : φ → Bool) : Manager κ φ := ⟨∅, [], fun f => if files f then some .other else none⟩

def unlink (m : Manager κ φ) (removed : Bool) (f : φ) : Manager κ φ :=
  if removed then { m with disk := Function.update m.disk f none } else m

def cancel (m : Manager κ φ) (i : ℕ) : Manager κ φ :=
  { m with listeners := m.listeners.modify i fun l => { l with running := false } }

/-- The socket file is made, and the listener of `bind`. -/
def bind (m : Manager κ φ) (f : φ) (l : Listener) : Manager κ φ :=
  { m with listeners := m.listeners ++ [l], disk := Function.update m.disk f (some (.socket m.listeners.length)) }

/-- The instance takes the place of an old one, which is cancelled. -/
def insert (m : Manager κ φ) (path : κ) (i : ℕ) : Manager κ φ :=
  let m := match m.instances.lookup path with
    | some old => m.cancel old
    | none => m
  { m with instances := m.instances.insert path i }

/-- No result where `bind` would make a file over one that is there. -/
def register (p : Paths κ φ) (m : Manager κ φ) (socketPath upstreamUrl : String) (headers : List (String × String))
    (fs : FsAnswers) : Option (Manager κ φ × Except String Unit) :=
  let path := p.pathBuf socketPath
  match fs.createDir with
  | .error err => some (m, .error s!"create proxy dir: {err}")
  | .ok () =>
    let m := m.unlink fs.removed (p.file path)
    match fs.bound with
    | .error err => some (m, .error s!"bind {socketPath}: {err}")
    | .ok () =>
      if m.disk (p.file path) ≠ none then none
      else
        match parseUpstream upstreamUrl with
        | .error err => some (m.bind (p.file path) ⟨none, false⟩, .error s!"invalid upstream URL: {err}")
        | .ok info => some ((m.bind (p.file path) ⟨some (info, headers), true⟩).insert path m.listeners.length, .ok ())

def remove (p : Paths κ φ) (m : Manager κ φ) (path : κ) (removed : Bool) : Manager κ φ :=
  match m.instances.lookup path with
  | some i => { ((m.cancel i).unlink removed (p.file path)) with instances := m.instances.erase path }
  | none => m

def unregister (p : Paths κ φ) (m : Manager κ φ) (socketPath : String) (removed : Bool) : Manager κ φ × Bool :=
  (m.remove p (p.pathBuf socketPath) removed, (m.instances.lookup (p.pathBuf socketPath)).isSome)

def shutdown (p : Paths κ φ) (m : Manager κ φ) (removed : κ → Bool) : Manager κ φ :=
  m.instances.keys.foldl (fun m path => m.remove p path (removed path)) m

end Manager

inductive Act (κ : Type) where
  | register (socketPath upstreamUrl : String) (headers : List (String × String)) (fs : FsAnswers)
  | unregister (socketPath : String) (removed : Bool)
  | shutdown (removed : κ → Bool)
  /-- the task of a listener ends -/
  | acceptFails (listener : ℕ)

/-- What a call returns. -/
inductive Response where
  | registered (result : Except String Unit)
  | unregistered (found : Bool)
  | done

def call (p : Paths κ φ) (m : Manager κ φ) : Act κ → Option (Manager κ φ × Response)
  | .register socketPath upstreamUrl headers fs =>
    (m.register p socketPath upstreamUrl headers fs).map fun r => (r.1, .registered r.2)
  | .unregister socketPath removed =>
    some ((m.unregister p socketPath removed).1, .unregistered (m.unregister p socketPath removed).2)
  | .shutdown removed => some (m.shutdown p removed, .done)
  | .acceptFails listener => some (m.cancel listener, .done)

def step (p : Paths κ φ) (m : Manager κ φ) (a : Act κ) : Option (Manager κ φ) := (call p m a).map (·.1)

end Nexal.AgentProxy
