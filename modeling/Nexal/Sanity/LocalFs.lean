import Nexal.Spec.LocalFs

/-! What the guard of `fs/copy` computes, and what making the destination changes: directories above the place that the
guard has taken it for, and no more. -/

namespace Nexal.LocalFs

open UnixPath (Location Component)
open FileOps PathWalk

variable {t t' : FileTree} {path : AbsPath} {name : String} {l dir : Location} {x : Node}

theorem normalize_names (path path' : AbsPath) : normalize path (path'.map .normal) = path ++ path' := by
  induction path' generalizing path with
  | nil => rw [List.append_nil]; rfl
  | cons name path' ih => rw [List.map_cons, normalize, ih, List.append_assoc, List.singleton_append]

theorem normalize_components (path : AbsPath) : normalize [] (components path) = path := normalize_names [] path

theorem existingPath_suffix (suffix rev : List String) :
    existingPath t suffix rev = ((existingPath t [] rev).1, suffix ++ (existingPath t [] rev).2) := by
  induction rev generalizing suffix with
  | nil => simp [existingPath]
  | cons name up ih =>
    rw [existingPath, existingPath]
    split_ifs
    · rw [List.append_nil]
    · rw [ih (suffix ++ [name]), ih ([] ++ [name]), List.nil_append, List.append_assoc]

theorem resolve_eq (path : AbsPath) : resolveCopyDestinationPath t path =
    (canonicalize t (existingPath t [] path.reverse).1).map fun resolved =>
      resolved ++ (existingPath t [] path.reverse).2.reverse := by
  rw [resolveCopyDestinationPath, normalize_components]

theorem resolve_root : resolveCopyDestinationPath t [] = .ok [] := by
  rw [resolve_eq, List.reverse_nil, existingPath, canonicalize_ok.mpr walkTo_root]
  rfl

theorem resolve_of_found (h : walkTo t path = .found l) : resolveCopyDestinationPath t path = .ok l := by
  rcases List.eq_nil_or_concat' path with rfl | ⟨path, name, rfl⟩
  · rw [walkTo_root] at h
    cases h
    exact resolve_root
  · have hexists : FileOps.exists t (name :: path.reverse).reverse = true := by
      rw [List.reverse_cons, List.reverse_reverse]
      exact exists_iff.mpr ⟨l, h⟩
    rw [resolve_eq, List.reverse_append, List.reverse_singleton, List.singleton_append, existingPath, if_pos hexists,
      List.reverse_cons, List.reverse_reverse, canonicalize_ok.mpr h]
    simp [Except.map]

/-- What is not there is taken for an entry of its directory. -/
theorem resolve_concat (h : ∀ l, walkTo t (path ++ [name]) ≠ .found l) :
    resolveCopyDestinationPath t (path ++ [name]) = (resolveCopyDestinationPath t path).map (· ++ [name]) := by
  have hmissing : ¬FileOps.exists t (name :: path.reverse).reverse = true := by
    rw [List.reverse_cons, List.reverse_reverse, exists_iff]
    rintro ⟨l, hl⟩
    exact h l hl
  rw [resolve_eq, resolve_eq, List.reverse_append, List.reverse_singleton, List.singleton_append, existingPath,
    if_neg hmissing, existingPath_suffix]
  cases canonicalize t (existingPath t [] path.reverse).1 with
  | error e => rfl
  | ok l => simp [Except.map]

theorem exists_resolve (t : FileTree) (path : AbsPath) : ∃ l, resolveCopyDestinationPath t path = .ok l := by
  induction path using List.reverseRecOn with
  | nil => exact ⟨[], resolve_root⟩
  | append_singleton path name ih =>
    by_cases hfound : ∃ l, walkTo t (path ++ [name]) = .found l
    · obtain ⟨l, hl⟩ := hfound
      exact ⟨l, resolve_of_found hl⟩
    · obtain ⟨l, hl⟩ := ih
      exact ⟨l ++ [name], by rw [resolve_concat (not_exists.mp hfound), hl]; rfl⟩

/-- The place a path is taken for is where it leads, if there is a directory. -/
theorem walkTo_of_resolve (h : resolveCopyDestinationPath t path = .ok l) (hdir : t.get l = some .dir) :
    walkTo t path = .found l := by
  induction path using List.reverseRecOn generalizing l with
  | nil =>
    rw [resolve_root] at h
    cases h
    exact walkTo_root
  | append_singleton path name ih =>
    by_cases hfound : ∃ m, walkTo t (path ++ [name]) = .found m
    · obtain ⟨m, hm⟩ := hfound
      rw [resolve_of_found hm] at h
      cases h
      exact hm
    · obtain ⟨m, hm⟩ := exists_resolve t path
      rw [resolve_concat (not_exists.mp hfound), hm] at h
      cases h
      exact walkTo_concat_found (ih hm (FileTree.get_parent hdir)) hdir (by simp)

/-! Making the destination -/

/-- Nothing but directories has been made, at the place or above it. -/
structure Made (place : Location) (t t' : FileTree) : Prop where
  grows : Grows t t'
  frame : ∀ l, t'.get l = t.get l ∨ l <+: place ∧ t.get l = none ∧ t'.get l = some .dir

theorem Made.refl (place : Location) (t : FileTree) : Made place t t := ⟨Grows.refl t, fun _ => Or.inl rfl⟩

theorem Made.create (h : Made l t t') (hdir : t'.get l = some .dir) (hfree : t'.get (l ++ [name]) = none) :
    Made (l ++ [name]) t (t'.create l name .dir) := by
  have hget := FileTree.get_create (x := .dir) hdir hfree
  refine ⟨h.grows.trans (grows_create hdir hfree), fun m => ?_⟩
  rw [hget]
  split_ifs with hm
  · subst hm
    rcases h.frame (l ++ [name]) with heq | ⟨-, -, hmade⟩
    · exact Or.inr ⟨List.prefix_refl _, heq.symm.trans hfree, rfl⟩
    · rw [hfree] at hmade
      cases hmade
  · rcases h.frame m with heq | ⟨hpre, hnone, hmade⟩
    · exact Or.inl heq
    · exact Or.inr ⟨hpre.trans (List.prefix_append _ _), hnone, hmade⟩

theorem orIsDir_spec (t : FileTree) (path : AbsPath) (e : IoError) : (orIsDir t path e).2 = t ∧
    ((orIsDir t path e).1 = .ok () → ∃ l, walkTo t path = .found l ∧ t.get l = some .dir) := by
  unfold orIsDir
  split_ifs with hdir
  · exact ⟨rfl, fun _ => isDir_iff.mp hdir⟩
  · exact ⟨rfl, fun h => nomatch h⟩

theorem createDirAll_concat (t : FileTree) (path : AbsPath) (name : String) :
    createDirAll t (path ++ [name]) = createDirAllFrom t (name :: path.reverse) ∧
      (name :: path.reverse).reverse = path ++ [name] ∧ createDirAllFrom t path.reverse = createDirAll t path := by
  simp [createDirAll]

theorem createDirAll_other {e : IoError} (h : mkdir t (path ++ [name]) = .error e) (he : e ≠ .notFound) :
    createDirAll t (path ++ [name]) = orIsDir t (path ++ [name]) e := by
  obtain ⟨hfrom, hrev, -⟩ := createDirAll_concat t path name
  rw [hfrom, createDirAllFrom, hrev, h]
  cases e <;> first | rfl | exact absurd rfl he

theorem createDirAll_failed {e : IoError} (h : mkdir t (path ++ [name]) = .error .notFound)
    (hup : createDirAll t path = (.error e, t')) : createDirAll t (path ++ [name]) = (.error e, t') := by
  obtain ⟨hfrom, hrev, hdirs⟩ := createDirAll_concat t path name
  rw [hfrom, createDirAllFrom, hrev, h, hdirs, hup]

theorem createDirAll_made {t'' : FileTree} (h : mkdir t (path ++ [name]) = .error .notFound)
    (hup : createDirAll t path = (.ok (), t')) (hmkdir : mkdir t' (path ++ [name]) = .ok t'') :
    createDirAll t (path ++ [name]) = (.ok (), t'') := by
  obtain ⟨hfrom, hrev, hdirs⟩ := createDirAll_concat t path name
  rw [hfrom, createDirAllFrom, hrev, h, hdirs, hup]
  simp only [hmkdir]

theorem Made.mono {place place' : Location} (h : Made place' t t') (hle : place' <+: place) : Made place t t' := by
  refine ⟨h.grows, fun l => ?_⟩
  rcases h.frame l with heq | ⟨hpre, hnode⟩
  · exact Or.inl heq
  · exact Or.inr ⟨hpre.trans hle, hnode⟩

theorem orIsDir_made {place : Location} {e : IoError} (h : resolveCopyDestinationPath t path = .ok place) :
    Made place t (orIsDir t path e).2 ∧ ((orIsDir t path e).1 = .ok () →
      walkTo (orIsDir t path e).2 path = .found place ∧ (orIsDir t path e).2.get place = some .dir) := by
  obtain ⟨hsame, hok⟩ := orIsDir_spec t path e
  rw [hsame]
  refine ⟨Made.refl place t, fun hsuccess => ?_⟩
  obtain ⟨l, hl, hdir⟩ := hok hsuccess
  rw [resolve_of_found hl] at h
  cases h
  exact ⟨hl, hdir⟩

theorem createDirAll_spec {place : Location} (h : resolveCopyDestinationPath t path = .ok place) :
    Made place t (createDirAll t path).2 ∧
      ((createDirAll t path).1 = .ok () → walkTo (createDirAll t path).2 path = .found place ∧
        (createDirAll t path).2.get place = some .dir) := by
  induction path using List.reverseRecOn generalizing place with
  | nil =>
    rw [resolve_root] at h
    cases h
    exact ⟨Made.refl [] t, fun _ => ⟨walkTo_root, FileTree.get_root t⟩⟩
  | append_singleton path name ih =>
    by_cases hparent : ∃ dir, walkTo t path = .found dir ∧ t.get dir = some .dir
    · obtain ⟨dir, hdir, hnode⟩ := hparent
      rw [createDirAll_of hdir hnode]
      split_ifs with hentry
      · exact orIsDir_made h
      · rw [Option.not_isSome_iff_eq_none] at hentry
        have hmissing := walkTo_concat_absent hdir hnode hentry
        rw [resolve_concat (by simp [hmissing]), resolve_of_found hdir] at h
        cases h
        have hmade := (Made.refl dir t).create hnode hentry
        have hget := (FileTree.get_create (x := .dir) hnode hentry (dir ++ [name])).trans (if_pos rfl)
        exact ⟨hmade, fun _ => ⟨walkTo_concat_found (walkTo_found_grows hmade.grows hdir) hget (by simp), hget⟩⟩
    · have hmissing : ∀ l, walkTo t (path ++ [name]) ≠ .found l := by
        intro l hl
        obtain ⟨dir, hdir, hnode, -⟩ := walkTo_of_concat hl
        exact hparent ⟨dir, hdir, hnode⟩
      obtain ⟨place', hplace'⟩ := exists_resolve t path
      obtain ⟨hmade, hdone⟩ := ih hplace'
      have hplace : place = place' ++ [name] := by
        rw [resolve_concat hmissing, hplace'] at h
        cases h
        rfl
      -- the entry was not there before, or there would have been a directory for it
      have hfree : t.get (place' ++ [name]) = none := by
        by_contra hentry
        obtain ⟨x, hx⟩ := Option.ne_none_iff_exists'.mp hentry
        have hnode := FileTree.get_parent hx
        exact hparent ⟨place', walkTo_of_resolve hplace' hnode, hnode⟩
      cases hmkdir : mkdir t (path ++ [name]) with
      | ok t' => exact absurd (makeEntry_ok hmkdir) hparent
      | error e =>
        by_cases he : e = .notFound
        · subst he
          cases hup : createDirAll t path with
          | mk r t' =>
            rw [hup] at hmade hdone
            cases r with
            | error e =>
              rw [createDirAll_failed hmkdir hup]
              exact ⟨hmade.mono (hplace ▸ List.prefix_append _ _), fun hok => nomatch hok⟩
            | ok u =>
              obtain ⟨hwalk, hnode⟩ := hdone rfl
              simp only at hmade hwalk hnode
              have hfree' : t'.get (place' ++ [name]) = none := by
                rcases hmade.frame (place' ++ [name]) with heq | ⟨hpre, -⟩
                · exact heq.trans hfree
                · have hlen := hpre.length_le
                  rw [List.length_append, List.length_singleton] at hlen
                  omega
              have hmkdir' : mkdir t' (path ++ [name]) = .ok (t'.create place' name .dir) := by
                rw [mkdir, makeEntry_of hwalk hnode, hfree']
                rfl
              have hget := (FileTree.get_create (x := .dir) hnode hfree' (place' ++ [name])).trans (if_pos rfl)
              have hgrows := grows_create (x := .dir) hnode hfree'
              rw [createDirAll_made hmkdir hup hmkdir', hplace]
              exact ⟨hmade.create hnode hfree',
                fun _ => ⟨walkTo_concat_found (walkTo_found_grows hgrows hwalk) hget (by simp), hget⟩⟩
        · rw [createDirAll_other hmkdir he]
          exact orIsDir_made h

end Nexal.LocalFs
