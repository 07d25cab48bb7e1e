import Mathlib.Data.List.AList
import Mathlib.Data.Nat.Notation
import Nexal.Lib.UnixPath

/-! The tree of the skills filesystem (`crates/nexal-agent/src/fs/skills.rs`): how `mount` builds it from the gateway's
listing, and what `lookup` and `readdir` read out of it. Names of directories are found by searching the path index
backwards. `none` stands for a panic of `unwrap` while the tree is built. -/

namespace Nexal.SkillsTree

open SlashPath

inductive FsNode where
  | dir (children : List ℕ)
  | file (relPath : String) (size : ℕ)
deriving DecidableEq

def FsNode.isFile : FsNode → Bool
  | .dir _ => false
  | .file _ _ => true

structure FsTree where
  nodes : AList fun _ : ℕ => FsNode
  /-- its entries are in the order of the map's iterator -/
  pathToInode : AList fun _ : String => ℕ
  nextInode : ℕ

/-- The same tree, with an index that iterates in any order. -/
structure FsTree.Like (t t' : FsTree) : Prop where
  nodes : t'.nodes = t.nodes
  index : t'.pathToInode.entries.Perm t.pathToInode.entries
  next : t'.nextInode = t.nextInode

def FsTree.new : FsTree := ⟨AList.singleton 1 (.dir []), ∅, 2⟩

structure SkillFileInfo where
  path : String
  size : ℕ
deriving DecidableEq

structure SkillInfo where
  name : String
  files : List SkillFileInfo
deriving DecidableEq

/-! Building -/

/-- A new inode for the node. -/
def FsTree.alloc (t : FsTree) (node : FsNode) : FsTree :=
  { t with nodes := t.nodes.insert t.nextInode node, nextInode := t.nextInode + 1 }

def FsTree.indexPath (t : FsTree) (path : String) (ino : ℕ) : FsTree :=
  { t with pathToInode := t.pathToInode.insert path ino }

/-- `if let FsNode::Dir { children } = tree.nodes.get_mut(&parent).unwrap() { children.push(ino) }` -/
def FsTree.push (t : FsTree) (parent ino : ℕ) : Option FsTree :=
  (t.nodes.lookup parent).map fun
    | .dir children => { t with nodes := t.nodes.insert parent (.dir (children ++ [ino])) }
    | .file _ _ => t

/-- A node of its own under the parent, with its path in the index. -/
def FsTree.add (t : FsTree) (node : FsNode) (path : String) (parent : ℕ) : Option FsTree :=
  ((t.alloc node).indexPath path t.nextInode).push parent t.nextInode

/-- The loop over the segments of a path, of which `done` have been gone through. -/
def addParts (name : String) (file : SkillFileInfo) (done : List String) (parent : ℕ) (t : FsTree) :
    List String → Option FsTree
  | [] => some t
  | [_] => t.add (.file (name ++ "/" ++ file.path) file.size) (name ++ "/" ++ file.path) parent
  | part :: rest =>
    let dirPath := name ++ "/" ++ join (done ++ [part])
    match t.pathToInode.lookup dirPath with
    | some ino => addParts name file (done ++ [part]) ino t rest
    | none => (t.add (.dir []) dirPath parent).bind fun t' =>
      addParts name file (done ++ [part]) t.nextInode t' rest

def addFile (name : String) (skillInode : ℕ) (t : FsTree) (file : SkillFileInfo) : Option FsTree :=
  addParts name file [] skillInode t (split file.path)

def addSkill (t : FsTree) (skill : SkillInfo) : Option FsTree :=
  let skillInode := t.nextInode
  (skill.files.foldlM (addFile skill.name skillInode) (t.alloc (.dir []))).bind fun t' =>
    -- the size will be fetched on read
    (t'.add (.file (skill.name ++ "/SKILL.md") 0) (skill.name ++ "/SKILL.md") skillInode).map fun t'' =>
      t''.indexPath skill.name skillInode

/-- The loop over the skills, with the inodes of the directories it has made. -/
def addSkills (t : FsTree) (rootChildren : List ℕ) : List SkillInfo → Option (FsTree × List ℕ)
  | [] => some (t, rootChildren)
  | skill :: skills => (addSkill t skill).bind fun t' => addSkills t' (rootChildren ++ [t.nextInode]) skills

/-- The tree that `mount` serves. -/
def mountTree (skills : List SkillInfo) : Option FsTree :=
  (addSkills .new [] skills).bind fun (t, rootChildren) =>
    (t.nodes.lookup 1).map fun
      | .dir _ => { t with nodes := t.nodes.insert 1 (.dir rootChildren) }
      | .file _ _ => t

/-! Serving -/

def FsTree.children (t : FsTree) (ino : ℕ) : List ℕ :=
  match t.nodes.lookup ino with
  | some (.dir children) => children
  | _ => []

/-- `tree.path_to_inode.iter().find(|(_, ino)| **ino == child_ino)` -/
def FsTree.pathOf (t : FsTree) (ino : ℕ) : Option String :=
  (t.pathToInode.entries.find? (·.2 = ino)).map (·.1)

/-- What `lookup` takes for the name of a child. -/
def FsTree.childName (t : FsTree) (ino : ℕ) : Option String :=
  match t.nodes.lookup ino with
  | some (.dir _) => (t.pathOf ino).map baseName
  | some (.file relPath _) => some (baseName relPath)
  | none => none

def lookup (t : FsTree) (parent : ℕ) (name : String) : Option ℕ :=
  (t.children parent).find? fun ino => t.childName ino = some name

/-- Lookups one after the other. -/
def resolve (t : FsTree) (ino : ℕ) : List String → Option ℕ
  | [] => some ino
  | name :: names => (lookup t ino name).bind fun child => resolve t child names

inductive FileType where
  | directory
  | regularFile
deriving DecidableEq

structure DirEntry where
  ino : ℕ
  kind : FileType
  name : String
deriving DecidableEq

def FsTree.childEntry (t : FsTree) (ino : ℕ) : Option DirEntry :=
  match t.nodes.lookup ino with
  | some (.dir _) => some ⟨ino, .directory, ((t.pathOf ino).map baseName).getD ("dir-" ++ toString ino)⟩
  | some (.file relPath _) => some ⟨ino, .regularFile, baseName relPath⟩
  | none => none

def entries (t : FsTree) (ino : ℕ) (children : List ℕ) : List DirEntry :=
  ⟨ino, .directory, "."⟩ :: ⟨ino, .directory, ".."⟩ :: children.filterMap t.childEntry

/-- A call of `readdir` whose reply has room for so many entries: each with the offset to go on from, or `none` for
`ENOTDIR`. -/
def readdir (t : FsTree) (ino offset room : ℕ) : Option (List (DirEntry × ℕ)) :=
  match t.nodes.lookup ino with
  | some (.dir children) => some ((((entries t ino children).zipIdx 1).drop offset).take room)
  | _ => none

end Nexal.SkillsTree
