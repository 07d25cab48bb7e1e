import Nexal.Lib.PathWalk

/-! The operations of a standard library on a tree of files: absolute paths without dots, as the names below the root. An
operation that fails leaves the tree as it was, but for the making of a directory with those above it. -/

namespace Nexal.FileOps

open UnixPath (Location Component)
open PathWalk

abbrev AbsPath := List String

inductive IoError where
  | notFound
  | alreadyExists
  | notADirectory
  | isADirectory
  | filesystemLoop
  | invalidInput (message : String)
deriving DecidableEq

/-- How many links the kernel follows for one path. -/
def maxSymlinks : ℕ := 40

def walkTo (t : FileTree) (path : AbsPath) : Walk := walk t maxSymlinks [] (path.map .normal)

def canonicalize (t : FileTree) (path : AbsPath) : Except IoError Location :=
  match walkTo t path with
  | .found l => .ok l
  | .absent _ _ _ => .error .notFound
  | .notADirectory => .error .notADirectory
  | .loop => .error .filesystemLoop

def «exists» (t : FileTree) (path : AbsPath) : Bool := (canonicalize t path).isOk

def isDir (t : FileTree) (path : AbsPath) : Bool :=
  match canonicalize t path with
  | .ok l => t.get l = some .dir
  | .error _ => false

/-- The directory that the last name of a path is looked up in. -/
def openParent (t : FileTree) (path : AbsPath) : Except IoError Location :=
  match canonicalize t path.dropLast with
  | .ok dir => if t.get dir = some .dir then .ok dir else .error .notADirectory
  | .error e => .error e

/-- The entry itself, also where it is a link. -/
def symlinkMetadata (t : FileTree) (path : AbsPath) : Except IoError Node :=
  match path.getLast? with
  | none => .ok .dir
  | some name =>
    match openParent t path with
    | .ok dir =>
      match t.get (dir ++ [name]) with
      | some x => .ok x
      | none => .error .notFound
    | .error e => .error e

def readLink (t : FileTree) (path : AbsPath) : Except IoError String :=
  match symlinkMetadata t path with
  | .ok (.link target) => .ok target
  | .ok _ => .error (.invalidInput "not a symbolic link")
  | .error e => .error e

def readDir (t : FileTree) (path : AbsPath) : Except IoError (List (String × Node)) :=
  match canonicalize t path with
  | .ok l => if t.get l = some .dir then .ok (t.children l) else .error .notADirectory
  | .error e => .error e

/-- A new entry, where there is none of its name. -/
def makeEntry (t : FileTree) (path : AbsPath) (x : Node) : Except IoError FileTree :=
  match path.getLast? with
  | none => .error .alreadyExists
  | some name =>
    match openParent t path with
    | .ok dir => if (t.get (dir ++ [name])).isSome then .error .alreadyExists else .ok (t.create dir name x)
    | .error e => .error e

def mkdir (t : FileTree) (path : AbsPath) : Except IoError FileTree := makeEntry t path .dir

def symlink (t : FileTree) (target : String) (path : AbsPath) : Except IoError FileTree := makeEntry t path (.link target)

abbrev Outcome := Except IoError Unit × FileTree

/-- What is there already is good enough if it is a directory. -/
def orIsDir (t : FileTree) (path : AbsPath) (e : IoError) : Outcome :=
  if isDir t path then (.ok (), t) else (.error e, t)

/-- On the names from the last up. -/
def createDirAllFrom (t : FileTree) : List String → Outcome
  | [] => (.ok (), t)
  | name :: up =>
    match mkdir t (name :: up).reverse with
    | .ok t' => (.ok (), t')
    | .error .notFound =>
      match createDirAllFrom t up with
      | (.ok (), t') =>
        match mkdir t' (name :: up).reverse with
        | .ok t'' => (.ok (), t'')
        | .error e => orIsDir t' (name :: up).reverse e
      | failed => failed
    | .error e => orIsDir t (name :: up).reverse e

def createDirAll (t : FileTree) (path : AbsPath) : Outcome := createDirAllFrom t path.reverse

def contentsAt (t : FileTree) (l : Location) : List UInt8 :=
  match t.get l with
  | some (.file contents) => contents
  | _ => []

/-- Opened for writing, made or emptied. -/
def openTruncated (t : FileTree) (path : AbsPath) : Except IoError (FileTree × Location) :=
  match walkTo t path with
  | .found l => if t.get l = some .dir then .error .isADirectory else .ok (t.write l [], l)
  | .absent dir name [] => .ok (t.create dir name (.file []), dir ++ [name])
  | .absent _ _ _ => .error .notFound
  | .notADirectory => .error .notADirectory
  | .loop => .error .filesystemLoop

/-- What is read is what is left once the other file has been opened. -/
def copyFile (t : FileTree) (source target : AbsPath) : Except IoError FileTree :=
  match canonicalize t source with
  | .ok l =>
    if t.get l = some .dir then
      .error (.invalidInput "the source path is neither a regular file nor a symlink to a regular file")
    else match openTruncated t target with
      | .ok (t', l') => .ok (t'.write l' (contentsAt t' l))
      | .error e => .error e
  | .error e => .error e

/-- What a path leads to, through links. -/
def metadata (t : FileTree) (path : AbsPath) : Except IoError Node :=
  match canonicalize t path with
  | .ok l => match t.get l with
    | some x => .ok x
    | none => .error .notFound
  | .error e => .error e

def readContents (t : FileTree) (path : AbsPath) : Except IoError (List UInt8) :=
  match metadata t path with
  | .ok (.file contents) => .ok contents
  | .ok _ => .error .isADirectory
  | .error e => .error e

def writeContents (t : FileTree) (path : AbsPath) (contents : List UInt8) : Except IoError FileTree :=
  (openTruncated t path).map fun (t, l) => t.write l contents

/-- The place of the entry itself, which need not be there. -/
def entryLocation (t : FileTree) (path : AbsPath) : Except IoError Location :=
  match path.getLast? with
  | none => .ok []
  | some name => (openParent t path).map (· ++ [name])

inductive RemoveError where
  | io (e : IoError)
  | directoryNotEmpty
  | resourceBusy
deriving DecidableEq

abbrev Removal := Except RemoveError Unit × FileTree

/-- The entry is taken out of its directory. -/
def unlink (t : FileTree) (path : AbsPath) : Removal :=
  match entryLocation t path with
  | .ok l => (.ok (), t.remove l)
  | .error e => (.error (.io e), t)

def removeDir (t : FileTree) (path : AbsPath) : Removal :=
  match readDir t path with
  | .ok [] => if path = [] then (.error .resourceBusy, t) else unlink t path
  | .ok (_ :: _) => (.error (if path = [] then .resourceBusy else .directoryNotEmpty), t)
  | .error e => (.error (.io e), t)

/-- The directory is emptied and then removed by its path, which may lead nowhere by then. -/
def removeDirAll (t : FileTree) (path : AbsPath) : Removal :=
  match entryLocation t path with
  | .ok l =>
    match removeDir (t.clear l) path with
    | (.error (.io .notFound), emptied) => (.ok (), emptied)
    | removal => removal
  | .error e => (.error (.io e), t)

variable {t t' : FileTree} {path : AbsPath} {name n target : String} {l dir : Location} {rest : List Component} {x : Node}

/-! Paths -/

theorem canonicalize_ok : canonicalize t path = .ok l ↔ walkTo t path = .found l := by
  unfold canonicalize
  cases walkTo t path <;> simp

theorem exists_iff : FileOps.exists t path = true ↔ ∃ l, walkTo t path = .found l := by
  unfold FileOps.exists canonicalize
  cases walkTo t path <;> simp [Except.isOk, Except.toBool]

theorem isDir_of_found (h : walkTo t path = .found l) : isDir t path = decide (t.get l = some .dir) := by
  rw [isDir, canonicalize_ok.mpr h]

theorem isDir_of_not_found (h : ∀ l, walkTo t path ≠ .found l) : isDir t path = false := by
  rw [isDir]
  cases hcanon : canonicalize t path with
  | error e => rfl
  | ok l => exact absurd (canonicalize_ok.mp hcanon) (h l)

theorem walkTo_root : walkTo t [] = .found [] := walk_nil

theorem walkTo_node (h : walkTo t path = .found l) : ∃ x, t.get l = some x ∧ ∀ target, x ≠ .link target :=
  found_node (FileTree.get_root t) h

theorem walkTo_grows (h : Grows t t') (habsent : ∀ dir name rest, walkTo t path ≠ .absent dir name rest) :
    walkTo t' path = walkTo t path := walk_grows h (FileTree.get_root t) habsent

theorem walkTo_found_grows (h : Grows t t') (hl : walkTo t path = .found l) : walkTo t' path = .found l := by
  rw [walkTo_grows h (by simp [hl]), hl]

/-- A missing entry that is missing still. -/
theorem walkTo_absent_grows (h : Grows t t') (habsent : walkTo t path = .absent dir n rest)
    (hfree : t'.get (dir ++ [n]) = none) :
    walkTo t' path = .absent dir n rest := by
  obtain ⟨hdir, -, k, hk⟩ := walk_grows_absent h habsent
  rw [walkTo, hk, walk_absent (h.dir dir hdir) hfree]

theorem walkTo_absent_node (h : walkTo t path = .absent dir n rest) :
    t.get dir = some .dir ∧ t.get (dir ++ [n]) = none := by
  obtain ⟨hdir, hfree, -⟩ := walk_grows_absent (Grows.refl t) h
  exact ⟨hdir, hfree⟩

/-- A missing entry that has appeared. -/
theorem walkTo_absent_filled (h : Grows t t') (habsent : walkTo t path = .absent dir n [])
    (hentry : t'.get (dir ++ [n]) = some x)
    (hx : ∀ target, x ≠ .link target) : walkTo t' path = .found (dir ++ [n]) := by
  obtain ⟨hdir, -, k, hk⟩ := walk_grows_absent h habsent
  rw [walkTo, hk, walk_into (h.dir dir hdir) hentry hx, walk_nil]

theorem names_concat (path : AbsPath) (name : String) :
    (path ++ [name]).map Component.normal = path.map .normal ++ [.normal name] := by simp

theorem walkTo_concat (h : walkTo t path = .found dir) :
    ∃ k, walkTo t (path ++ [name]) = walk t k dir [.normal name] := by
  have happend := walk_append (t := t) maxSymlinks [] (path.map .normal)
  rw [← walkTo, h] at happend
  obtain ⟨k, hk⟩ := happend
  exact ⟨k, by rw [walkTo, names_concat, hk]⟩

theorem walkTo_concat_absent (h : walkTo t path = .found dir) (hdir : t.get dir = some .dir)
    (hfree : t.get (dir ++ [name]) = none) :
    walkTo t (path ++ [name]) = .absent dir name [] := by
  obtain ⟨k, hk⟩ := walkTo_concat h
  rw [hk, walk_absent hdir hfree]

theorem walkTo_concat_found (h : walkTo t path = .found dir) (hentry : t.get (dir ++ [name]) = some x)
    (hx : ∀ target, x ≠ .link target) : walkTo t (path ++ [name]) = .found (dir ++ [name]) := by
  obtain ⟨k, hk⟩ := walkTo_concat h
  rw [hk, walk_into (FileTree.get_parent hentry) hentry hx, walk_nil]

theorem walkTo_concat_below (h : walkTo t path = .absent dir n rest) :
    walkTo t (path ++ [name]) = .absent dir n (rest ++ [.normal name]) := by
  have happend := walk_append (t := t) maxSymlinks [] (path.map .normal)
  rw [← walkTo, h] at happend
  rw [walkTo, names_concat, happend]

/-- Only a path whose directory is there leads anywhere. -/
theorem walkTo_of_concat (h : walkTo t (path ++ [name]) = .found l) :
    ∃ dir, walkTo t path = .found dir ∧ t.get dir = some .dir ∧
    ∃ x, t.get (dir ++ [name]) = some x := by
  have happend := walk_append (t := t) maxSymlinks [] (path.map .normal)
  rw [← walkTo] at happend
  rw [walkTo, names_concat] at h
  cases hwalk : walkTo t path with
  | found dir =>
    rw [hwalk] at happend
    obtain ⟨k, hk⟩ := happend
    rw [hk] at h
    by_cases hdir : t.get dir = some .dir
    · refine ⟨dir, rfl, hdir, ?_⟩
      cases hentry : t.get (dir ++ [name]) with
      | none =>
        rw [walk_absent hdir hentry] at h
        cases h
      | some x => exact ⟨x, rfl⟩
    · rw [walk_not_dir hdir] at h
      cases h
  | absent dir n rest =>
    rw [hwalk] at happend
    rw [happend] at h
    cases h
  | notADirectory =>
    rw [hwalk] at happend
    rw [happend] at h
    cases h
  | loop =>
    rw [hwalk] at happend
    rw [happend] at h
    cases h

/-! Entries -/

theorem openParent_of (h : walkTo t path = .found dir) (hdir : t.get dir = some .dir) :
    openParent t (path ++ [name]) = .ok dir := by
  rw [openParent, List.dropLast_concat, canonicalize_ok.mpr h]
  exact if_pos hdir

theorem openParent_ok (h : openParent t (path ++ [name]) = .ok dir) :
    walkTo t path = .found dir ∧ t.get dir = some .dir := by
  rw [openParent, List.dropLast_concat] at h
  cases hcanon : canonicalize t path with
  | error e =>
    rw [hcanon] at h
    cases h
  | ok l =>
    rw [hcanon] at h
    simp only at h
    split_ifs at h with hdir
    cases h
    exact ⟨canonicalize_ok.mp hcanon, hdir⟩

theorem symlinkMetadata_of (h : walkTo t path = .found dir) (hentry : t.get (dir ++ [name]) = some x) :
    symlinkMetadata t (path ++ [name]) = .ok x := by
  rw [symlinkMetadata, List.getLast?_concat]
  simp only [openParent_of h (FileTree.get_parent hentry), hentry]

theorem symlinkMetadata_ok (h : symlinkMetadata t (path ++ [name]) = .ok x) :
    ∃ dir, walkTo t path = .found dir ∧ t.get (dir ++ [name]) = some x := by
  rw [symlinkMetadata, List.getLast?_concat] at h
  simp only at h
  cases hparent : openParent t (path ++ [name]) with
  | error e =>
    rw [hparent] at h
    cases h
  | ok dir =>
    rw [hparent] at h
    simp only at h
    cases hentry : t.get (dir ++ [name]) with
    | none =>
      rw [hentry] at h
      cases h
    | some y =>
      rw [hentry] at h
      cases h
      exact ⟨dir, (openParent_ok hparent).1, hentry⟩

theorem makeEntry_of (h : walkTo t path = .found dir) (hdir : t.get dir = some .dir) : makeEntry t (path ++ [name]) x =
    if (t.get (dir ++ [name])).isSome then .error .alreadyExists else .ok (t.create dir name x) := by
  rw [makeEntry, List.getLast?_concat]
  simp only [openParent_of h hdir]

theorem makeEntry_ok (h : makeEntry t (path ++ [name]) x = .ok t') :
    ∃ dir, walkTo t path = .found dir ∧ t.get dir = some .dir := by
  rw [makeEntry, List.getLast?_concat] at h
  cases hparent : openParent t (path ++ [name]) with
  | error e =>
    rw [hparent] at h
    cases h
  | ok dir => exact ⟨dir, openParent_ok hparent⟩

theorem createDirAll_of (h : walkTo t path = .found dir) (hdir : t.get dir = some .dir) : createDirAll t (path ++ [name]) =
    if (t.get (dir ++ [name])).isSome then orIsDir t (path ++ [name]) .alreadyExists
      else (.ok (), t.create dir name .dir) := by
  rw [createDirAll, List.reverse_append, List.reverse_singleton, List.singleton_append, createDirAllFrom, List.reverse_cons,
    List.reverse_reverse, mkdir, makeEntry_of h hdir]
  split_ifs <;> rfl

theorem isDir_iff : isDir t path = true ↔ ∃ l, walkTo t path = .found l ∧ t.get l = some .dir := by
  by_cases hfound : ∃ l, walkTo t path = .found l
  · obtain ⟨l, hl⟩ := hfound
    rw [isDir_of_found hl, decide_eq_true_iff]
    refine ⟨fun hdir => ⟨l, hl, hdir⟩, ?_⟩
    rintro ⟨m, hm, hdir⟩
    rw [hl] at hm
    cases hm
    exact hdir
  · rw [isDir_of_not_found (not_exists.mp hfound)]
    constructor
    · intro h
      cases h
    · rintro ⟨l, hl, -⟩
      exact absurd ⟨l, hl⟩ hfound

theorem createDirAll_there (h : walkTo t path = .found l) (hdir : t.get l = some .dir) :
    createDirAll t path = (.ok (), t) := by
  rcases List.eq_nil_or_concat' path with rfl | ⟨path, name, rfl⟩
  · rfl
  · obtain ⟨dir, hparent, hnode, x, hx⟩ := walkTo_of_concat h
    rw [createDirAll_of hparent hnode, hx, if_pos Option.isSome_some, orIsDir, if_pos (isDir_iff.mpr ⟨l, h, hdir⟩)]

theorem createDirAll_clash (h : walkTo t path = .found dir) (hentry : t.get (dir ++ [name]) = some x)
    (hnot : ∀ l, walkTo t (path ++ [name]) = .found l → t.get l ≠ some .dir) :
    createDirAll t (path ++ [name]) = (.error .alreadyExists, t) := by
  have hnotDir : ¬isDir t (path ++ [name]) = true := by
    rw [isDir_iff]
    rintro ⟨l, hl, hdir⟩
    exact hnot l hl hdir
  rw [createDirAll_of h (FileTree.get_parent hentry), hentry, if_pos Option.isSome_some, orIsDir, if_neg hnotDir]

theorem copyFile_of {source : AbsPath} {contents : List UInt8} (h : walkTo t source = .found l)
    (hfile : t.get l = some (.file contents)) : copyFile t source path =
      match openTruncated t path with
      | .ok (t', l') => .ok (t'.write l' (contentsAt t' l))
      | .error e => .error e := by
  rw [copyFile, canonicalize_ok.mpr h]
  simp [hfile]

theorem openTruncated_ok {t₀ : FileTree} (h : openTruncated t path = .ok (t₀, l)) :
    (∃ old, walkTo t path = .found l ∧ t.get l = some (.file old) ∧ t₀ = t.write l []) ∨
      ∃ dir name, walkTo t path = .absent dir name [] ∧ l = dir ++ [name] ∧ t₀ = t.create dir name (.file []) := by
  unfold openTruncated at h
  cases hwalk : walkTo t path with
  | found m =>
    rw [hwalk] at h
    simp only at h
    split_ifs at h with hdir
    cases h
    obtain ⟨y, hy, hlink⟩ := walkTo_node hwalk
    cases y with
    | dir => exact absurd hy hdir
    | link linkTarget => exact absurd rfl (hlink linkTarget)
    | file old => exact Or.inl ⟨old, rfl, hy, rfl⟩
  | absent dir n more =>
    rw [hwalk] at h
    cases more with
    | nil =>
      cases h
      exact Or.inr ⟨dir, n, rfl, rfl, rfl⟩
    | cons c more => cases h
  | notADirectory =>
    rw [hwalk] at h
    cases h
  | loop =>
    rw [hwalk] at h
    cases h

theorem openTruncated_grows {t₀ : FileTree} (h : openTruncated t path = .ok (t₀, l)) :
    Grows t t₀ ∧ t₀.get l = some (.file []) := by
  rcases openTruncated_ok h with ⟨old, -, hfile, rfl⟩ | ⟨dir, n, hwalk, rfl, rfl⟩
  · exact ⟨grows_write hfile, by rw [FileTree.get_write hfile, if_pos rfl]⟩
  · obtain ⟨hdir, hfree⟩ := walkTo_absent_node hwalk
    exact ⟨grows_create hdir hfree, by rw [FileTree.get_create hdir hfree, if_pos rfl]⟩

theorem copyFile_grows {source : AbsPath} (h : copyFile t source path = .ok t') : Grows t t' := by
  unfold copyFile at h
  cases hcanon : canonicalize t source with
  | error e =>
    rw [hcanon] at h
    cases h
  | ok s =>
    rw [hcanon] at h
    simp only at h
    split_ifs at h with hdir
    cases hopen : openTruncated t path with
    | error e =>
      rw [hopen] at h
      cases h
    | ok opened =>
      obtain ⟨t₀, l⟩ := opened
      rw [hopen] at h
      cases h
      obtain ⟨hgrows, hempty⟩ := openTruncated_grows hopen
      exact hgrows.trans (grows_write hempty)

theorem makeEntry_grows (h : makeEntry t path x = .ok t') : Grows t t' := by
  rcases List.eq_nil_or_concat' path with rfl | ⟨up, name, rfl⟩
  · cases h
  · obtain ⟨dir, hup, hdir⟩ := makeEntry_ok h
    rw [makeEntry_of hup hdir] at h
    split_ifs at h with hthere
    cases h
    exact grows_create hdir (Option.not_isSome_iff_eq_none.mp hthere)

theorem readDir_of (h : walkTo t path = .found l) (hdir : t.get l = some .dir) : readDir t path = .ok (t.children l) := by
  rw [readDir, canonicalize_ok.mpr h]
  exact if_pos hdir

/-! Removals -/

/-- With less in the tree a path leads where it led before, or to what is missing. -/
theorem walkTo_sub (hsub : ∀ m x, t'.get m = some x → t.get m = some x) (h : walkTo t path = .found l) :
    (walkTo t' path = .found l ∧ t'.get l = t.get l) ∨ ∃ dir n rest, walkTo t' path = .absent dir n rest := by
  have hgrows := grows_of_sub hsub
  cases hwalk : walkTo t' path with
  | found m =>
    cases h.symm.trans (walkTo_found_grows hgrows hwalk)
    obtain ⟨x, hx, -⟩ := walkTo_node hwalk
    exact Or.inl ⟨rfl, hx.trans (hsub l x hx).symm⟩
  | absent dir n rest => exact Or.inr ⟨dir, n, rest, rfl⟩
  | notADirectory =>
    have hsame := walkTo_grows hgrows fun dir n rest habsent => by cases hwalk.symm.trans habsent
    cases h.symm.trans (hsame.trans hwalk)
  | loop =>
    have hsame := walkTo_grows hgrows fun dir n rest habsent => by cases hwalk.symm.trans habsent
    cases h.symm.trans (hsame.trans hwalk)

theorem entryLocation_of (h : walkTo t path = .found dir) (hdir : t.get dir = some .dir) :
    entryLocation t (path ++ [name]) = .ok (dir ++ [name]) := by
  rw [entryLocation, List.getLast?_concat]
  simp only [openParent_of h hdir]
  rfl

theorem entryLocation_ok (h : entryLocation t (path ++ [name]) = .ok l) :
    ∃ dir, walkTo t path = .found dir ∧ t.get dir = some .dir ∧ l = dir ++ [name] := by
  rw [entryLocation, List.getLast?_concat] at h
  cases hparent : openParent t (path ++ [name]) with
  | error e =>
    simp only [hparent] at h
    cases h
  | ok dir =>
    simp only [hparent] at h
    cases h
    obtain ⟨hwalk, hdir⟩ := openParent_ok hparent
    exact ⟨dir, hwalk, hdir, rfl⟩

theorem canonicalize_absent (h : walkTo t path = .absent dir n rest) : canonicalize t path = .error .notFound := by
  rw [canonicalize, h]

theorem openParent_absent (h : walkTo t path = .absent dir n rest) : openParent t (path ++ [name]) = .error .notFound := by
  rw [openParent, List.dropLast_concat, canonicalize_absent h]

/-- With the entry gone the path names none, also where the way to it led through it. -/
theorem symlinkMetadata_sub (hsub : ∀ m x, t'.get m = some x → t.get m = some x)
    (h : entryLocation t (path ++ [name]) = .ok l)
    (hgone : t'.get l = none ∨ (entryLocation t' (path ++ [name])).isOk = false) :
    symlinkMetadata t' (path ++ [name]) = .error .notFound := by
  obtain ⟨dir, hwalk, hdir, rfl⟩ := entryLocation_ok h
  rw [symlinkMetadata, List.getLast?_concat]
  rcases walkTo_sub hsub hwalk with ⟨hwalk', hkept⟩ | ⟨d, n, rest, habsent⟩
  · have hnone : t'.get (dir ++ [name]) = none := by
      refine hgone.resolve_right fun hnowhere => ?_
      rw [entryLocation_of hwalk' (hkept.trans hdir)] at hnowhere
      cases hnowhere
    simp only [openParent_of hwalk' (hkept.trans hdir), hnone]
  · simp only [openParent_absent habsent]

/-- A directory that is emptied is itself removed if the path leads to it still. -/
theorem removeDirAll_of (h : entryLocation t (path ++ [name]) = .ok l) (hdir : t.get l = some .dir) :
    removeDirAll t (path ++ [name]) = (.ok (),
      if (entryLocation (t.clear l) (path ++ [name])).isOk then (t.clear l).remove l else t.clear l) := by
  rw [removeDirAll, h]
  obtain ⟨up, hwalk, hup, rfl⟩ := entryLocation_ok h
  have hkept : (t.clear (up ++ [name])).get (up ++ [name]) = some .dir := by
    rw [FileTree.get_clear, if_neg fun hbelow => hbelow.2 rfl, hdir]
  rcases walkTo_sub (FileTree.get_of_clear t (up ++ [name])) hwalk with ⟨hwalk', hsame⟩ | ⟨d, n, rest, habsent⟩
  · have hentry : entryLocation (t.clear (up ++ [name])) (path ++ [name]) = .ok (up ++ [name]) :=
      entryLocation_of hwalk' (hsame.trans hup)
    have hread := readDir_of (walkTo_concat_found hwalk' hkept fun _ => nofun) hkept
    rw [FileTree.children_clear] at hread
    have hremoved : removeDir (t.clear (up ++ [name])) (path ++ [name]) =
        (.ok (), (t.clear (up ++ [name])).remove (up ++ [name])) := by
      rw [removeDir, hread]
      simp only [List.append_eq_nil_iff, List.cons_ne_self, and_false, if_false]
      rw [unlink, hentry]
    simp only [hremoved, hentry]
    rfl
  · have hread : readDir (t.clear (up ++ [name])) (path ++ [name]) = .error .notFound := by
      rw [readDir, canonicalize_absent (walkTo_concat_below habsent)]
    have hnowhere : entryLocation (t.clear (up ++ [name])) (path ++ [name]) = .error .notFound := by
      rw [entryLocation, List.getLast?_concat]
      simp only [openParent_absent habsent]
      rfl
    have hremoved : removeDir (t.clear (up ++ [name])) (path ++ [name]) =
        (.error (.io .notFound), t.clear (up ++ [name])) := by rw [removeDir, hread]
    simp only [hremoved, hnowhere]
    rfl

end Nexal.FileOps
