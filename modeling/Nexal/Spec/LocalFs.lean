import Nexal.Lib.FileOps

/-! The agent's `fs/copy` (`crates/nexal-agent/src/fs/local.rs`) on a tree of directories, files and links. A call of
`copy_dir_recursive` counts its depth down; `none` is a copy that goes deeper. -/

namespace Nexal.LocalFs

open UnixPath (Location Component)
open FileOps

structure CopyOptions where
  recursive : Bool

/-! The guard -/

/-- The components of an absolute path without dots. -/
def components (path : AbsPath) : List Component := .rootDir :: path.map .normal

/-- The first loop of `resolve_copy_destination_path`. -/
def normalize : AbsPath → List Component → AbsPath
  | normalized, [] => normalized
  | _, .rootDir :: rest => normalize [] rest
  | normalized, .curDir :: rest => normalize normalized rest
  | normalized, .parentDir :: rest => normalize normalized.dropLast rest
  | normalized, .normal part :: rest => normalize (normalized ++ [part]) rest

/-- Its second loop, on the names of the path from the last up. -/
def existingPath (t : FileTree) (unresolvedSuffix : List String) : List String → AbsPath × List String
  | [] => ([], unresolvedSuffix)
  | name :: up =>
    if FileOps.exists t (name :: up).reverse then ((name :: up).reverse, unresolvedSuffix)
    else existingPath t (unresolvedSuffix ++ [name]) up

def resolveCopyDestinationPath (t : FileTree) (path : AbsPath) : Except IoError Location :=
  let (existing, unresolvedSuffix) := existingPath t [] (normalize [] (components path)).reverse
  (canonicalize t existing).map fun resolved => resolved ++ unresolvedSuffix.reverse

def destinationIsSameOrDescendantOfSource (t : FileTree) (source destination : AbsPath) : Except IoError Bool := do
  let source ← canonicalize t source
  let destination ← resolveCopyDestinationPath t destination
  pure (source.isPrefixOf destination)

/-! Copying -/

/-- An operation that leaves the tree when it fails. -/
def outcome (t : FileTree) : Except IoError FileTree → Outcome
  | .ok t' => (.ok (), t')
  | .error e => (.error e, t)

/-- `?` -/
def andThen (next : FileTree → Option Outcome) : Outcome → Option Outcome
  | (.ok (), t) => next t
  | (.error e, t) => some (.error e, t)

def copySymlink (t : FileTree) (source target : AbsPath) : Except IoError FileTree :=
  match readLink t source with
  | .ok linkTarget => symlink t linkTarget target
  | .error e => .error e

/-- The loop over the entries that `read_dir` has listed. -/
def copyEntries (copyDir : FileTree → AbsPath → AbsPath → Option Outcome) (source target : AbsPath) :
    List (String × Node) → FileTree → Option Outcome
  | [], t => some (.ok (), t)
  | (name, .dir) :: rest, t =>
    (copyDir t (source ++ [name]) (target ++ [name])).bind (andThen (copyEntries copyDir source target rest))
  | (name, .file _) :: rest, t =>
    andThen (copyEntries copyDir source target rest) (outcome t (copyFile t (source ++ [name]) (target ++ [name])))
  | (name, .link _) :: rest, t =>
    andThen (copyEntries copyDir source target rest) (outcome t (copySymlink t (source ++ [name]) (target ++ [name])))

def copyDirRecursive : ℕ → FileTree → AbsPath → AbsPath → Option Outcome
  | 0, _, _, _ => none
  | depth + 1, t, source, target =>
    andThen (fun t =>
      match readDir t source with
      | .ok entries => copyEntries (copyDirRecursive depth) source target entries t
      | .error e => some (.error e, t)) (createDirAll t target)

def copy (depth : ℕ) (t : FileTree) (source destination : AbsPath) (options : CopyOptions) : Option Outcome :=
  match symlinkMetadata t source with
  | .error e => some (.error e, t)
  | .ok .dir =>
    if !options.recursive then
      some (.error (.invalidInput "fs/copy requires recursive: true when sourcePath is a directory"), t)
    else match destinationIsSameOrDescendantOfSource t source destination with
      | .error e => some (.error e, t)
      | .ok true =>
        some (.error (.invalidInput "fs/copy cannot copy a directory to itself or one of its descendants"), t)
      | .ok false => copyDirRecursive depth t source destination
  | .ok (.link _) => some (outcome t (copySymlink t source destination))
  | .ok (.file _) => some (outcome t (copyFile t source destination))

end Nexal.LocalFs

/-! The agent's file requests: `LocalFileSystem` (`crates/nexal-agent/src/fs/local.rs`) behind the `FileSystemHandler` of
`crates/nexal-agent/src/server/services/file_system.rs`. Times of files are left out, and the texts the operating system
has for its errors stand for themselves. -/

namespace Nexal.LocalFs

open FileOps

def maxReadFileBytes : ℕ := 512 * 1024 * 1024

structure CreateDirectoryOptions where
  recursive : Bool

structure RemoveOptions where
  recursive : Bool
  force : Bool

structure FileMetadata where
  isDirectory : Bool
  isFile : Bool
deriving DecidableEq

structure ReadDirectoryEntry where
  fileName : String
  isDirectory : Bool
  isFile : Bool
deriving DecidableEq

def FileMetadata.of (x : Node) : FileMetadata := ⟨x matches .dir, x matches .file _⟩

def readFile (t : FileTree) (path : AbsPath) : Except IoError (List UInt8) := do
  let found ← metadata t path
  match found with
  | .file contents =>
    if maxReadFileBytes < contents.length then
      throw (.invalidInput s!"file is too large to read: limit is {maxReadFileBytes} bytes")
  | _ => pure ()
  readContents t path

def writeFile (t : FileTree) (path : AbsPath) (contents : List UInt8) :
    Except IoError FileTree := writeContents t path contents

def createDirectory (t : FileTree) (path : AbsPath) (options : CreateDirectoryOptions) : Outcome :=
  if options.recursive then createDirAll t path else outcome t (mkdir t path)

def getMetadata (t : FileTree) (path : AbsPath) : Except IoError FileMetadata := (metadata t path).map .of

/-- A link that leads nowhere makes it fail. -/
def readDirectory (t : FileTree) (path : AbsPath) : Except IoError (List ReadDirectoryEntry) := do
  let entries ← readDir t path
  entries.mapM fun (name, _) => do
    let found ← getMetadata t (path ++ [name])
    pure ⟨name, found.isDirectory, found.isFile⟩

def remove (t : FileTree) (path : AbsPath) (options : RemoveOptions) : Removal :=
  match symlinkMetadata t path with
  | .ok .dir => if options.recursive then removeDirAll t path else removeDir t path
  | .ok _ => unlink t path
  | .error .notFound => (if options.force then .ok () else .error (.io .notFound), t)
  | .error e => (.error (.io e), t)

/-! Requests -/

inductive Request where
  | readFile (path : AbsPath)
  | writeFile (path : AbsPath) (data : List UInt8)
  | createDirectory (path : AbsPath) (recursive : Option Bool)
  | getMetadata (path : AbsPath)
  | readDirectory (path : AbsPath)
  | remove (path : AbsPath) (recursive force : Option Bool)
  | copy (sourcePath destinationPath : AbsPath) (recursive : Bool)

inductive Response where
  | data (bytes : List UInt8)
  | metadata (found : FileMetadata)
  | entries (entries : List ReadDirectoryEntry)
  | done
deriving DecidableEq

inductive ChannelError where
  | invalidRequest (message : String)
  | internalError (e : RemoveError)
deriving DecidableEq

def mapFsError : RemoveError → ChannelError
  | .io (.invalidInput message) => .invalidRequest message
  | e => .internalError e

def reply {α : Type} (respond : α → Response) : Except IoError α → Except ChannelError Response
  | .ok a => .ok (respond a)
  | .error e => .error (mapFsError (.io e))

/-- What the agent answers and what the tree is then; `none` is a copy that goes deeper than `depth`. -/
def handle (depth : ℕ) (t : FileTree) : Request → Option (Except ChannelError Response × FileTree)
  | .readFile path => some (reply .data (readFile t path), t)
  | .writeFile path data =>
    let out := outcome t (writeFile t path data)
    some (reply (fun _ => .done) out.1, out.2)
  | .createDirectory path recursive =>
    let out := createDirectory t path ⟨recursive.getD true⟩
    some (reply (fun _ => .done) out.1, out.2)
  | .getMetadata path => some (reply .metadata (getMetadata t path), t)
  | .readDirectory path => some (reply .entries (readDirectory t path), t)
  | .remove path recursive force =>
    match remove t path ⟨recursive.getD true, force.getD true⟩ with
    | (.ok (), t') => some (.ok .done, t')
    | (.error e, t') => some (.error (mapFsError e), t')
  | .copy sourcePath destinationPath recursive =>
    (copy depth t sourcePath destinationPath ⟨recursive⟩).map fun out => (reply (fun _ => .done) out.1, out.2)

def step (depth : ℕ) (t : FileTree) (req : Request) : Option FileTree := (handle depth t req).map (·.2)

end Nexal.LocalFs
