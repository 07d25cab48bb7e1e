import Mathlib.Logic.Function.Basic
import Nexal.Sanity.LocalFs

/-! The agent's file system as a store of contents by locations: what a request makes of it, when it is granted and
when it fails, and what a removal leaves of the tree. -/

namespace Nexal.LocalFs

open UnixPath (Location)
open FileOps PathWalk

variable {t t' : FileTree} {path : AbsPath} {l m : Location} {depth : ℕ} {req : Request} {contents : List UInt8}
  {name : String}

/-! The store -/

abbrev Store := Location → Option (List UInt8)

def files (t : FileTree) : Store := fun l =>
  match t.get l with
  | some (.file contents) => some contents
  | _ => none

inductive StoreOp where
  | keep
  | put (l : Location) (contents : List UInt8)
  /-- with all that is below -/
  | drop (l : Location)

def StoreOp.apply (store : Store) : StoreOp → Store
  | .keep => store
  | .put l contents => Function.update store l (some contents)
  | .drop l => fun m => if l <+: m then none else store m

def asks (t : FileTree) : Request → StoreOp
  | .writeFile path data =>
    match openTruncated t path with
    | .ok (_, l) => .put l data
    | .error _ => .keep
  | .copy sourcePath destinationPath _ =>
    match symlinkMetadata t sourcePath, canonicalize t sourcePath, openTruncated t destinationPath with
    | .ok (.file _), .ok l, .ok (t', l') => .put l' (contentsAt t' l)
    | _, _, _ => .keep
  | .remove path recursive _ =>
    match symlinkMetadata t path, entryLocation t path with
    | .ok .dir, .ok l => if recursive.getD true then .drop l else .keep
    | .ok _, .ok l => .drop l
    | _, _ => .keep
  | _ => .keep

def asked (depth : ℕ) : FileTree → List Request → List StoreOp
  | _, [] => []
  | t, req :: reqs => asks t req :: (step depth t req).elim [] fun t' => asked depth t' reqs

def CopiesNoDirectory (t : FileTree) : Request → Prop
  | .copy sourcePath _ _ => symlinkMetadata t sourcePath ≠ .ok .dir
  | _ => True

theorem files_iff : files t l = some contents ↔ t.get l = some (.file contents) := by
  unfold files
  split
  · rename_i c h
    rw [h, Option.some.injEq, Option.some.injEq, Node.file.injEq]
  · rename_i h
    exact iff_of_false (fun hnone => nomatch hnone) (h contents)

theorem files_eq_of_get (h : t'.get l = t.get l) : files t' l = files t l := by
  unfold files
  rw [h]

theorem files_create {dir : Location} {name : String} {x : Node} (hdir : t.get dir = some .dir)
    (hfree : t.get (dir ++ [name]) = none)
    (hx : ∀ c, x ≠ .file c) : files (t.create dir name x) = files t := by
  funext m
  by_cases hm : m = dir ++ [name]
  · subst hm
    unfold files
    rw [FileTree.get_create hdir hfree, if_pos rfl, hfree]
    cases x with
    | file c => exact absurd rfl (hx c)
    | dir => rfl
    | link target => rfl
  · exact files_eq_of_get (by rw [FileTree.get_create hdir hfree, if_neg hm])

/-- Another node at one place. -/
theorem files_update (h : t'.get l = some (.file contents)) (hother : ∀ m, m ≠ l → t'.get m = t.get m) :
    files t' = Function.update (files t) l (some contents) := by
  funext m
  by_cases hm : m = l
  · subst hm
    rw [Function.update_self]
    exact files_iff.mpr h
  · rw [Function.update_of_ne hm]
    exact files_eq_of_get (hother m hm)

theorem openTruncated_other {t₀ : FileTree} (h : openTruncated t path = .ok (t₀, l)) (m : Location) (hm : m ≠ l) :
    t₀.get m = t.get m := by
  rcases openTruncated_ok h with ⟨old, -, hfile, rfl⟩ | ⟨dir, n, hwalk, rfl, rfl⟩
  · rw [FileTree.get_write hfile, if_neg hm]
  · obtain ⟨hdir, hfree⟩ := walkTo_absent_node hwalk
    rw [FileTree.get_create hdir hfree, if_neg hm]

theorem files_opened {t₀ : FileTree} (h : openTruncated t path = .ok (t₀, l)) (contents : List UInt8) :
    files (t₀.write l contents) = Function.update (files t) l (some contents) := by
  have hempty := (openTruncated_grows h).2
  refine files_update (by rw [FileTree.get_write hempty, if_pos rfl]) fun m hm => ?_
  rw [FileTree.get_write hempty, if_neg hm, openTruncated_other h m hm]

theorem files_makeEntry {x : Node} (hx : ∀ c, x ≠ .file c) (h : makeEntry t path x = .ok t') : files t' = files t := by
  rcases List.eq_nil_or_concat' path with rfl | ⟨up, name, rfl⟩
  · cases h
  · obtain ⟨dir, hup, hdir⟩ := makeEntry_ok h
    rw [makeEntry_of hup hdir] at h
    split_ifs at h with hthere
    cases h
    exact files_create hdir (Option.not_isSome_iff_eq_none.mp hthere) hx

theorem orIsDir_snd (t : FileTree) (path : AbsPath) (e : IoError) : (orIsDir t path e).2 = t := by
  unfold orIsDir
  split_ifs <;> rfl

theorem files_createDirAllFrom (t : FileTree) (rev : List String) : files (createDirAllFrom t rev).2 = files t := by
  induction rev with
  | nil => rfl
  | cons name up ih =>
    unfold createDirAllFrom
    split
    · rename_i t' hmkdir
      exact files_makeEntry (x := .dir) (fun _ h => nomatch h) hmkdir
    · split
      · rename_i t' hup
        rw [hup] at ih
        split
        · rename_i t'' hmkdir
          exact (files_makeEntry (x := .dir) (fun _ h => nomatch h) hmkdir).trans ih
        · rw [orIsDir_snd]
          exact ih
      · exact ih
    · rw [orIsDir_snd]

theorem files_createDirectory (t : FileTree) (path : AbsPath) (options : CreateDirectoryOptions) :
    files (createDirectory t path options).2 = files t := by
  unfold createDirectory
  split_ifs with hrecursive
  · exact files_createDirAllFrom t path.reverse
  · cases hmkdir : mkdir t path with
    | ok t' => exact files_makeEntry (x := .dir) (fun _ h => nomatch h) hmkdir
    | error e => rfl

theorem files_remove (t : FileTree) (l : Location) : files (t.remove l) = (StoreOp.drop l).apply (files t) := by
  funext m
  unfold StoreOp.apply
  dsimp only
  by_cases hm : m = []
  · subst hm
    unfold files
    rw [FileTree.get_root, FileTree.get_root]
    split_ifs <;> rfl
  · unfold files
    rw [FileTree.get_remove]
    by_cases hbelow : l <+: m
    · rw [if_pos ⟨hbelow, hm⟩, if_pos hbelow]
    · rw [if_neg fun h => hbelow h.1, if_neg hbelow]

/-- A directory is no file, so that it makes no difference whether it is left when it is emptied. -/
theorem files_clear (hdir : t.get l = some .dir) : files (t.clear l) = (StoreOp.drop l).apply (files t) := by
  funext m
  unfold StoreOp.apply files
  dsimp only
  rw [FileTree.get_clear]
  by_cases hbelow : l <+: m
  · rw [if_pos hbelow]
    by_cases hm : m = l
    · rw [if_neg fun h => h.2 hm, hm, hdir]
    · rw [if_pos ⟨hbelow, hm⟩]
  · rw [if_neg fun h => hbelow h.1, if_neg hbelow]

theorem drop_drop (l : Location) (store : Store) : (StoreOp.drop l).apply ((StoreOp.drop l).apply store) =
    (StoreOp.drop l).apply store := by
  funext m
  unfold StoreOp.apply
  dsimp only
  split_ifs <;> rfl

/-- The entry a path names, and where it is. -/
theorem entry_of_symlinkMetadata {x : Node} (h : symlinkMetadata t path = .ok x) :
    ∃ l, entryLocation t path = .ok l ∧ t.get l = some x ∧ (l = [] ↔ path = []) ∧
      ((∀ target, x ≠ .link target) → walkTo t path = .found l) := by
  rcases List.eq_nil_or_concat' path with rfl | ⟨up, name, rfl⟩
  · cases h
    exact ⟨[], rfl, FileTree.get_root t, iff_of_true rfl rfl, fun _ => walkTo_root⟩
  · obtain ⟨dir, hup, hentry⟩ := symlinkMetadata_ok h
    refine ⟨dir ++ [name], entryLocation_of hup (FileTree.get_parent hentry), hentry, by simp, fun hx => ?_⟩
    exact walkTo_concat_found hup hentry hx

theorem none_of_children (h : t.children l = []) (name : String) : t.get (l ++ [name]) = none := by
  by_contra hsome
  obtain ⟨x, hx⟩ := Option.ne_none_iff_exists'.mp hsome
  have hmem := FileTree.mem_children.mpr hx
  rw [h] at hmem
  cases hmem

theorem none_below (h : ∀ name, t.get (l ++ [name]) = none) (hbelow : l <+: m) (hm : m ≠ l) : t.get m = none := by
  obtain ⟨rest, rfl⟩ := hbelow
  cases rest with
  | nil => exact absurd (List.append_nil l) hm
  | cons name rest => rw [List.append_cons, FileTree.get_none_below (h name)]

/-- Nothing is below an empty directory. -/
theorem drop_empty (hdir : t.get l = some .dir) (hempty : t.children l = []) :
    (StoreOp.drop l).apply (files t) = files t := by
  funext m
  unfold StoreOp.apply
  dsimp only
  split_ifs with hbelow
  · symm
    unfold files
    by_cases hm : m = l
    · rw [hm, hdir]
    · rw [none_below (none_of_children hempty) hbelow hm]
  · rfl

theorem files_unlink (h : entryLocation t path = .ok l) : files (unlink t path).2 = (StoreOp.drop l).apply (files t) := by
  rw [unlink, h]
  exact files_remove t l

theorem removeDirAll_root (t : FileTree) : removeDirAll t [] = (.error .resourceBusy, t.clear []) := by
  have hread : readDir (t.clear []) [] = .ok [] := by
    rw [readDir_of walkTo_root (FileTree.get_root _), FileTree.children_clear]
  have hbusy : removeDir (t.clear []) [] = (.error .resourceBusy, t.clear []) := by
    rw [removeDir, hread]
    rfl
  rw [removeDirAll]
  simp only [show entryLocation t [] = .ok [] from rfl, hbusy]

theorem files_emptied (h : entryLocation t path = .ok l) (hdir : t.get l = some .dir) :
    files (removeDirAll t path).2 = (StoreOp.drop l).apply (files t) := by
  rcases List.eq_nil_or_concat' path with rfl | ⟨up, name, rfl⟩
  · cases h
    rw [removeDirAll_root]
    exact files_clear hdir
  · rw [removeDirAll_of h hdir]
    dsimp only
    split_ifs with hthere
    · rw [files_remove, files_clear hdir, drop_drop]
    · exact files_clear hdir

theorem files_removed (t : FileTree) (path : AbsPath) (recursive force : Option Bool) :
    files (remove t path ⟨recursive.getD true, force.getD true⟩).2 =
      (asks t (.remove path recursive force)).apply (files t) := by
  unfold remove asks
  dsimp only
  cases hmeta : symlinkMetadata t path with
  | error e => cases e <;> cases entryLocation t path <;> rfl
  | ok x =>
    obtain ⟨l, hlocation, hentry, hroot, hwalk⟩ := entry_of_symlinkMetadata hmeta
    rw [hlocation]
    cases x with
    | file c => exact files_unlink hlocation
    | link target => exact files_unlink hlocation
    | dir =>
      dsimp only
      split_ifs with hrecursive
      · exact files_emptied hlocation hentry
      · unfold removeDir
        rw [readDir_of (hwalk fun _ => nofun) hentry]
        cases hchildren : t.children l with
        | nil =>
          dsimp only
          split_ifs with hpath
          · rfl
          · exact (files_unlink hlocation).trans (drop_empty hentry hchildren)
        | cons e rest => rfl

theorem files_written (t : FileTree) (path : AbsPath) (data : List UInt8) :
    files (outcome t (writeFile t path data)).2 = (asks t (.writeFile path data)).apply (files t) := by
  unfold writeFile writeContents asks
  dsimp only
  cases hopen : openTruncated t path with
  | error e => rfl
  | ok opened =>
    obtain ⟨t₀, l⟩ := opened
    exact files_opened hopen data

theorem files_copied {source destination : AbsPath} {recursive : Bool} {out : Outcome}
    (hno : symlinkMetadata t source ≠ .ok .dir)
    (h : copy depth t source destination ⟨recursive⟩ = some out) :
    files out.2 = (asks t (.copy source destination recursive)).apply (files t) := by
  unfold copy at h
  unfold asks
  dsimp only
  cases hmeta : symlinkMetadata t source with
  | error e =>
    rw [hmeta] at h
    cases h
    rfl
  | ok x =>
    obtain ⟨l, -, hentry, -, hwalk⟩ := entry_of_symlinkMetadata hmeta
    rw [hmeta] at h
    cases x with
    | dir => exact absurd hmeta hno
    | link target =>
      cases h
      unfold copySymlink
      cases hread : readLink t source with
      | error e => rfl
      | ok linkTarget =>
        dsimp only
        cases hmake : symlink t linkTarget destination with
        | error e => rfl
        | ok t' => exact files_makeEntry (x := .link linkTarget) (fun _ h => nomatch h) hmake
    | file c =>
      cases h
      rw [copyFile_of (hwalk fun _ => nofun) hentry, canonicalize_ok.mpr (hwalk fun _ => nofun)]
      cases hopen : openTruncated t destination with
      | error e => rfl
      | ok opened =>
        obtain ⟨t₀, l'⟩ := opened
        exact files_opened hopen _

/-- One request changes the store as it asks. -/
theorem files_step (hno : CopiesNoDirectory t req) (h : step depth t req = some t') :
    files t' = (asks t req).apply (files t) := by
  obtain ⟨⟨answer, tree⟩, hhandle, rfl⟩ := Option.map_eq_some_iff.mp h
  cases req with
  | readFile path | getMetadata path | readDirectory path =>
    cases hhandle
    rfl
  | writeFile path data =>
    cases hhandle
    exact files_written t path data
  | createDirectory path recursive =>
    cases hhandle
    exact files_createDirectory t path _
  | remove path recursive force =>
    rw [← files_removed]
    unfold handle at hhandle
    dsimp only at hhandle
    split at hhandle
    · rename_i removed hremove
      cases hhandle
      rw [hremove]
    · rename_i e removed hremove
      cases hhandle
      rw [hremove]
  | copy source destination recursive =>
    obtain ⟨out, hout, heq⟩ := Option.map_eq_some_iff.mp hhandle
    cases heq
    exact files_copied hno hout

/-! Removing -/

/-- What was at the place and below it is gone. Only a directory stays, emptied, where the path to it led through itself. -/
def TakenAway (t t' : FileTree) (path : AbsPath) (l : Location) : Prop :=
  (∀ m, m ≠ l → t'.get m = if l <+: m then none else t.get m) ∧
    t'.get l = if (entryLocation (t.clear l) path).isOk then none else t.get l

theorem TakenAway.sub (h : TakenAway t t' path l) (m : Location) (x : Node) (hx : t'.get m = some x) : t.get m = some x := by
  by_cases hm : m = l
  · subst hm
    rw [h.2] at hx
    split_ifs at hx
    exact hx
  · rw [h.1 m hm] at hx
    split_ifs at hx
    exact hx

/-- A removal redirects no path: where one still leads somewhere, it led there before. -/
theorem walkTo_kept (hsub : ∀ m x, t'.get m = some x → t.get m = some x) (h : walkTo t' path = .found l) :
    walkTo t path = .found l ∧ t'.get l = t.get l := by
  refine ⟨walkTo_found_grows (grows_of_sub hsub) h, ?_⟩
  obtain ⟨x, hx, -⟩ := walkTo_node h
  rw [hx, hsub l x hx]

theorem get_remove_of_ne (hl : l ≠ []) (m : Location) : (t.remove l).get m = if l <+: m then none else t.get m := by
  rw [FileTree.get_remove]
  refine if_congr (and_iff_left_of_imp fun hbelow => ?_) rfl rfl
  rintro rfl
  exact hl (List.prefix_nil.mp hbelow)

theorem takenAway_bare (h : entryLocation t (path ++ [name]) = .ok l) (hbare : ∀ n, t.get (l ++ [n]) = none) :
    TakenAway t (t.remove l) (path ++ [name]) l := by
  obtain ⟨dir, hwalk, hdir, rfl⟩ := entryLocation_ok h
  have hget := get_remove_of_ne (t := t) (List.concat_ne_nil name dir)
  -- there is nothing to empty
  have hsame : ∀ m, (t.clear (dir ++ [name])).get m = t.get m := by
    intro m
    rw [FileTree.get_clear]
    split_ifs with hbelow
    · exact (none_below hbare hbelow.1 hbelow.2).symm
    · rfl
  have hgrows : Grows t (t.clear (dir ++ [name])) := grows_of_sub fun m x hx => (hsame m).trans hx
  refine ⟨fun m _ => hget m, ?_⟩
  rw [hget, if_pos (List.prefix_refl _), entryLocation_of (walkTo_found_grows hgrows hwalk) ((hsame dir).trans hdir)]
  rfl

theorem takenAway_emptied (hl : l ≠ []) :
    TakenAway t (if (entryLocation (t.clear l) path).isOk then (t.clear l).remove l else t.clear l) path l := by
  unfold TakenAway
  split_ifs with hthere
  · refine ⟨fun m hm => ?_, by rw [get_remove_of_ne hl, if_pos (List.prefix_refl l)]⟩
    rw [get_remove_of_ne hl, FileTree.get_clear]
    split_ifs with hbelow hbelow'
    · rfl
    · exact absurd hbelow'.1 hbelow
    · rfl
  · refine ⟨fun m hm => ?_, by rw [FileTree.get_clear, if_neg fun h => h.2 rfl]⟩
    rw [FileTree.get_clear]
    exact if_congr (and_iff_left hm) rfl rfl

inductive Removes (t : FileTree) (path : AbsPath) : Removal → Prop where
  | absent (gone : symlinkMetadata t path = .error .notFound) : Removes t path (.ok (), t)
  | gone (l : Location) (entry : entryLocation t path = .ok l) (t' : FileTree) (taken : TakenAway t t' path l)
      (gone : symlinkMetadata t' path = .error .notFound) : Removes t path (.ok (), t')
  | failed (e : RemoveError) : Removes t path (.error e, t)
  | emptied (root : path = []) (e : RemoveError) : Removes t path (.error e, t.clear [])

theorem unlink_removes (h : entryLocation t (path ++ [name]) = .ok l) (hbare : ∀ n, t.get (l ++ [n]) = none) :
    Removes t (path ++ [name]) (unlink t (path ++ [name])) := by
  have htaken := takenAway_bare h hbare
  have hgone : (t.remove l).get l = none := by
    obtain ⟨dir, -, -, rfl⟩ := entryLocation_ok h
    rw [get_remove_of_ne (List.concat_ne_nil name dir), if_pos (List.prefix_refl _)]
  rw [unlink, h]
  exact .gone l h _ htaken (symlinkMetadata_sub htaken.sub h (Or.inl hgone))

theorem removeDir_removes (h : entryLocation t path = .ok l) (hdir : t.get l = some .dir)
    (hwalk : walkTo t path = .found l) :
    Removes t path (removeDir t path) := by
  rw [removeDir, readDir_of hwalk hdir]
  cases hchildren : t.children l with
  | cons e rest => exact .failed _
  | nil =>
    rcases List.eq_nil_or_concat' path with rfl | ⟨up, name, rfl⟩
    · exact .failed _
    · dsimp only
      rw [if_neg (List.concat_ne_nil name up)]
      exact unlink_removes h (none_of_children hchildren)

theorem removeDirAll_removes (h : entryLocation t path = .ok l) (hdir : t.get l = some .dir) :
    Removes t path (removeDirAll t path) := by
  rcases List.eq_nil_or_concat' path with rfl | ⟨up, name, rfl⟩
  · rw [removeDirAll_root]
    exact .emptied rfl _
  · obtain ⟨dir, -, -, hl⟩ := entryLocation_ok h
    have hne : l ≠ [] := by
      rw [hl]
      exact List.concat_ne_nil name dir
    have htaken : TakenAway t _ (up ++ [name]) l := takenAway_emptied hne
    rw [removeDirAll_of h hdir]
    refine .gone l h _ htaken (symlinkMetadata_sub htaken.sub h ?_)
    split_ifs with hthere
    · left
      rw [get_remove_of_ne hne, if_pos (List.prefix_refl l)]
    · right
      exact Bool.eq_false_iff.mpr hthere

theorem remove_removes (t : FileTree) (path : AbsPath) (options : RemoveOptions) :
    Removes t path (remove t path options) := by
  unfold remove
  split
  · rename_i hmeta
    obtain ⟨l, hentry, hdir, -, hwalk⟩ := entry_of_symlinkMetadata hmeta
    split_ifs with hrecursive
    · exact removeDirAll_removes hentry hdir
    · exact removeDir_removes hentry hdir (hwalk fun _ => nofun)
  · rename_i x hnot hmeta
    obtain ⟨l, hentry, hnode, -, -⟩ := entry_of_symlinkMetadata hmeta
    obtain ⟨up, name, rfl⟩ : ∃ up name, path = up ++ [name] := by
      refine (List.eq_nil_or_concat' path).resolve_left ?_
      rintro rfl
      cases hmeta
      exact hnot rfl
    refine unlink_removes hentry fun n => ?_
    -- only a directory has entries
    by_contra hsome
    obtain ⟨y, hy⟩ := Option.ne_none_iff_exists'.mp hsome
    exact hnot (Option.some.inj (hnode.symm.trans (FileTree.get_parent hy)))
  · rename_i hmeta
    split_ifs with hforce
    · exact .absent hmeta
    · exact .failed _
  · exact .failed _

/-! Requests that fail -/

theorem reply_error {α : Type} {respond : α → Response} {r : Except IoError α} {e : ChannelError}
    (h : reply respond r = .error e) : ∃ io, r = .error io := by
  cases r with
  | ok a => cases h
  | error io => exact ⟨io, rfl⟩

theorem outcome_failed {r : Except IoError FileTree} {e : IoError} (h : (outcome t r).1 = .error e) :
    (outcome t r).2 = t := by
  cases r with
  | ok t' => cases h
  | error io => rfl

theorem copy_failed {source destination : AbsPath} {recursive : Bool} {out : Outcome} {e : IoError}
    (hno : symlinkMetadata t source ≠ .ok .dir) (h : copy depth t source destination ⟨recursive⟩ = some out)
    (hfailed : out.1 = .error e) : out.2 = t := by
  unfold copy at h
  cases hmeta : symlinkMetadata t source with
  | error io =>
    rw [hmeta] at h
    cases h
    rfl
  | ok x =>
    rw [hmeta] at h
    cases x with
    | dir => exact absurd hmeta hno
    | link target =>
      cases h
      exact outcome_failed hfailed
    | file c =>
      cases h
      exact outcome_failed hfailed

/-- Only the root loses anything in a removal that fails. -/
theorem remove_failed {options : RemoveOptions} {e : RemoveError} (hpath : path ≠ [])
    (h : remove t path options = (.error e, t')) : t' = t := by
  have hremoves := remove_removes t path options
  rw [h] at hremoves
  cases hremoves with
  | failed _ => rfl
  | emptied root _ => exact absurd root hpath

theorem files_failed {e : ChannelError} (hno : CopiesNoDirectory t req)
    (hroot : ∀ recursive force, req ≠ .remove [] recursive force) (h : handle depth t req = some (.error e, t')) :
    files t' = files t := by
  cases req with
  | readFile path | getMetadata path | readDirectory path =>
    obtain ⟨-, rfl⟩ := Prod.mk.inj (Option.some.inj h)
    rfl
  | writeFile path data =>
    obtain ⟨hreply, rfl⟩ := Prod.mk.inj (Option.some.inj h)
    obtain ⟨io, hfailed⟩ := reply_error hreply
    rw [outcome_failed hfailed]
  | createDirectory path recursive =>
    obtain ⟨-, rfl⟩ := Prod.mk.inj (Option.some.inj h)
    exact files_createDirectory t path _
  | remove path recursive force =>
    have hpath : path ≠ [] := by
      rintro rfl
      exact hroot recursive force rfl
    unfold handle at h
    dsimp only at h
    split at h
    · cases h
    · rename_i e removed hremove
      cases h
      rw [remove_failed hpath hremove]
  | copy source destination recursive =>
    obtain ⟨out, hout, heq⟩ := Option.map_eq_some_iff.mp h
    obtain ⟨hreply, rfl⟩ := Prod.mk.inj heq
    obtain ⟨io, hfailed⟩ := reply_error hreply
    rw [copy_failed hno hout hfailed]

end Nexal.LocalFs
