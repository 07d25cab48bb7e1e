import Mathlib.Data.Nat.Notation
import Nexal.Lib.UnixPath
import Nexal.Lib.Utf8
import Nexal.Spec.SkillsTree

/-! The gateway's listing of the skills (`crates/nexal-gateway/src/skills.rs`): `list` and `collect_files` over what
`read_dir` yields. Names are bytes; `to_string_lossy` may make different ones equal. -/

namespace Nexal.SkillsService

open SkillsTree

/-- The name of a directory entry. -/
structure FileName where
  bytes : List UInt8
  noSlash : 0x2F ∉ bytes

/-- The entries of a directory in the order `read_dir` yields them, as `is_dir` and `is_file` find them, each
directory with its own. -/
inductive ReadDir where
  | done
  /-- the directory or its next entry cannot be read -/
  | broken
  | dir (name : FileName) (inside rest : ReadDir)
  /-- with the length its metadata says, 0 if there is none -/
  | file (name : FileName) (len : ℕ) (rest : ReadDir)
  /-- neither a directory nor a regular file -/
  | other (name : FileName) (rest : ReadDir)

/-- `entry.file_name().to_string_lossy()` -/
def FileName.lossy (name : FileName) : String := Utf8.decode name.bytes

def skipped (name : FileName) : Bool := name.lossy.toList.head? = some '.' || name.lossy = "__pycache__"

/-- `path.strip_prefix(root).to_string_lossy()` -/
def relPath (path : List FileName) : String := Utf8.decode ([0x2F].intercalate (path.map (·.bytes)))

def collectFiles (dir : List FileName) : ReadDir → Option (List SkillFileInfo)
  | .done => some []
  | .broken => none
  | .dir name inside rest =>
    if skipped name then collectFiles dir rest
    else (collectFiles (dir ++ [name]) inside).bind fun files => (collectFiles dir rest).map (files ++ ·)
  | .file name len rest =>
    if skipped name then collectFiles dir rest
    else (collectFiles dir rest).map (⟨relPath (dir ++ [name]), len⟩ :: ·)
  | .other _ rest => collectFiles dir rest

/-- The loop of `list`. -/
def collectSkills : ReadDir → Option (List SkillInfo)
  | .done => some []
  | .broken => none
  | .dir name inside rest =>
    if skipped name then collectSkills rest
    else (collectFiles [] inside).bind fun files => (collectSkills rest).map (⟨name.lossy, files⟩ :: ·)
  | .file _ _ rest => collectSkills rest
  | .other _ rest => collectSkills rest

def list (skillsDir : ReadDir) : Option (List SkillInfo) :=
  (collectSkills skillsDir).map fun skills => skills.mergeSort fun a b => decide (a.name ≤ b.name)

end Nexal.SkillsService

/-! The gateway's reading of a skill file (`crates/nexal-gateway/src/skills.rs`). `fs::read` is a parameter: what it
finds at a path, or its error as a text. -/

namespace Nexal.SkillsService

open UnixPath

/-- The loop of `sanitize_path`. -/
def checkComponents : List Component → Except String Unit
  | [] => .ok ()
  | .parentDir :: _ => .error "path traversal (..)"
  | .normal _ :: rest => checkComponents rest
  | _ :: _ => .error "invalid path component"

def sanitizePath (p : String) : Except String String :=
  if isAbsolute p then .error "absolute paths not allowed"
  else (checkComponents (components p)).map fun _ => p

def read (fsRead : String → Except String (List UInt8)) (skillsDir path : String) : Except String (List UInt8) := do
  let rel ← sanitizePath path
  let full := push skillsDir rel
  if startsWith full skillsDir then
    (fsRead full).mapError fun e => "read " ++ path ++ ": " ++ e
  else .error "path traversal"

end Nexal.SkillsService
