import Nexal.Sanity.LocalFs

/-! Where the entries of a directory land when it is copied, read off the tree as it is once the destination is there, and
what copying one of them does: it fails, or it makes or fills what it landed on, and nothing else. -/

namespace Nexal.LocalFs

open UnixPath (Location Component)
open FileOps PathWalk

/-! Landing -/

inductive Landing where
  /-- on a directory that is there -/
  | keeps
  | writes (l : Location)
  /-- fails, as long as nothing appears in the gap -/
  | clashes (gap : Option Location)
deriving DecidableEq

def landsOn (l : Location) : Node → Option Node → Landing
  | .dir, some .dir => .keeps
  | .file _, some (.file _) => .writes l
  | _, _ => .clashes none

/-- On a link that leads nowhere. -/
def landsInGap (gap : Location) : Node → List Component → Landing
  | .file _, [] => .writes gap
  | .file _, _ :: _ => .clashes (some gap)
  | .dir, _ => .clashes (some gap)
  | .link _, _ => .clashes none

def landing (base : FileTree) (path : AbsPath) (x : Node) : Landing :=
  match walkTo base path with
  | .found l => landsOn l x (base.get l)
  | .absent dir name rest =>
    if (symlinkMetadata base path).isOk then landsInGap (dir ++ [name]) x rest
    else
      match resolveCopyDestinationPath base path with
      | .ok l => .writes l
      | .error _ => .clashes none
  | _ => .clashes none

/-- The entries below a directory with the paths they are copied to, in the order of the copy. -/
def below (base : FileTree) : ℕ → Location → AbsPath → List (AbsPath × Node)
  | 0, _, _ => []
  | depth + 1, l, target => (base.children l).flatMap fun (name, x) =>
    (target ++ [name], x) :: if x = .dir then below base depth (l ++ [name]) (target ++ [name]) else []

/-- What comes of copying one entry, after what has been written before. -/
inductive Step where
  | stops
  | goesOn (written : List (Location × Node))
  /-- it makes something in the source -/
  | spoils
  /-- it comes upon a file in the source, or upon a file or a link that the copy has made -/
  | meets

/-- On what the copy has made. -/
def again (written : List (Location × Node)) : Node → Node → Step
  | .link _, _ => .stops
  | .dir, .dir => .goesOn written
  | .dir, .file _ => .stops
  | .dir, .link _ => .meets
  | .file _, .dir => .stops
  | .file _, .file _ => .meets
  | .file _, .link _ => .meets

def settle (base : FileTree) (source : Location) (written : List (Location × Node)) (path : AbsPath) (x : Node) : Step :=
  match landing base path x with
  | .keeps => .goesOn written
  | .clashes none => .stops
  | .clashes (some gap) => if (written.lookup gap).isNone then .stops else .meets
  | .writes l =>
    match written.lookup l with
    | some made => again written x made
    | none =>
      if source.isPrefixOf l then if (base.get l).isNone then .spoils else .meets
      else .goesOn ((l, x) :: written)

inductive Verdict where
  | fits
  | spoils
  | meets
deriving DecidableEq

/-- What decides is the first entry that does not simply land outside the source. -/
def verdict (base : FileTree) (source : Location) : List (Location × Node) → List (AbsPath × Node) → Verdict
  | _, [] => .fits
  | written, (path, x) :: rest =>
    match settle base source written path x with
    | .stops => .fits
    | .goesOn written' => verdict base source written' rest
    | .spoils => .spoils
    | .meets => .meets

variable {base t t' : FileTree} {source : Location} {written written' : List (Location × Node)} {path : AbsPath}
  {name : String} {l m dir : Location} {x : Node} {rest : List (AbsPath × Node)} {depth : ℕ}

/-! What is below a directory -/

def entryBelow (base : FileTree) (depth : ℕ) (l : Location) (target : AbsPath) (e : String × Node) :
    List (AbsPath × Node) :=
  (target ++ [e.1], e.2) :: if e.2 = .dir then below base depth (l ++ [e.1]) (target ++ [e.1]) else []

theorem below_succ (base : FileTree) (depth : ℕ) (l : Location) (target : AbsPath) :
    below base (depth + 1) l target = (base.children l).flatMap (entryBelow base depth l target) := rfl

theorem mem_below (target : AbsPath) {r : List String} (hr : r ≠ []) (hdepth : base.depth ≤ l.length + depth)
    (h : base.get (l ++ r) = some x) : (target ++ r, x) ∈ below base (depth + 1) l target := by
  induction r generalizing l target depth with
  | nil => exact absurd rfl hr
  | cons name r ih =>
    have hlen := FileTree.length_le_depth h
    rw [List.length_append, List.length_cons] at hlen
    rw [List.append_cons] at h
    rw [below_succ, List.mem_flatMap]
    rcases eq_or_ne r [] with rfl | hne
    · rw [List.append_nil] at h
      exact ⟨(name, x), FileTree.mem_children.mpr h, List.mem_cons_self⟩
    · have hdir := FileTree.get_above hne h
      refine ⟨(name, .dir), FileTree.mem_children.mpr hdir, List.mem_cons_of_mem _ ?_⟩
      cases depth with
      | zero => omega
      | succ depth =>
        have hdepth' : base.depth ≤ (l ++ [name]).length + depth := by
          rw [List.length_append, List.length_singleton]
          omega
        have hbelow := ih (target ++ [name]) hne hdepth' h
        rw [← List.append_cons] at hbelow
        exact hbelow

theorem below_prefix {e : AbsPath × Node} (h : e ∈ below base depth l target) :
    ∃ r, r ≠ [] ∧ e.1 = target ++ r := by
  induction depth generalizing l target with
  | zero => exact absurd h List.not_mem_nil
  | succ depth ih =>
    rw [below_succ, List.mem_flatMap] at h
    obtain ⟨⟨name, x⟩, -, he⟩ := h
    rcases List.mem_cons.mp he with rfl | he
    · exact ⟨[name], by simp, rfl⟩
    · split_ifs at he
      · obtain ⟨r, -, hr⟩ := ih he
        exact ⟨name :: r, by simp, by rw [hr, List.append_assoc, List.singleton_append]⟩
      · exact absurd he List.not_mem_nil

theorem below_nodup (base : FileTree) (depth : ℕ) (l : Location) (target : AbsPath) :
    ((below base depth l target).map Prod.fst).Nodup := by
  induction depth generalizing l target with
  | zero => exact List.nodup_nil
  | succ depth ih =>
    rw [below_succ, List.map_flatMap, List.nodup_flatMap]
    have hstarts : ∀ {name : String} {x : Node}
      {p : AbsPath}, p ∈ (entryBelow base depth l target (name, x)).map Prod.fst →
        ∃ r, p = target ++ name :: r := by
      intro name x p hp
      obtain ⟨e, he, rfl⟩ := List.mem_map.mp hp
      rcases List.mem_cons.mp he with rfl | he
      · exact ⟨[], rfl⟩
      · split_ifs at he
        · obtain ⟨r, -, hr⟩ := below_prefix he
          exact ⟨r, by rw [hr, ← List.append_cons]⟩
        · exact absurd he List.not_mem_nil
    constructor
    · rintro ⟨name, x⟩ -
      rw [entryBelow, List.map_cons, List.nodup_cons]
      constructor
      · intro hmem
        obtain ⟨e, he, heq⟩ := List.mem_map.mp hmem
        split_ifs at he
        · obtain ⟨r, hr, hpath⟩ := below_prefix he
          rw [hpath] at heq
          exact hr (List.append_right_eq_self.mp heq)
        · exact absurd he List.not_mem_nil
      · split_ifs
        · exact ih _ _
        · exact List.nodup_nil
    · refine (List.pairwise_map.mp (FileTree.children_nodup base l)).imp fun {e e'} hne p hp hp' => hne ?_
      obtain ⟨r, rfl⟩ := hstarts hp
      obtain ⟨r', heq⟩ := hstarts hp'
      exact (List.cons.inj (List.append_cancel_left heq)).1

/-! The tree while it is copied -/

/-- The tree differs from what it was by what has been written, all of it outside the source. -/
structure Inv (base : FileTree) (source : Location) (written : List (Location × Node)) (t : FileTree) : Prop where
  grows : Grows base t
  frame : ∀ l, written.lookup l = none → t.get l = base.get l
  wrote : ∀ l x, written.lookup l = some x → t.get l = some x
  outside : ∀ l x, written.lookup l = some x → ¬source <+: l
  lists : ∀ l, source <+: l → t.children l = base.children l

def Extends (written written' : List (Location × Node)) : Prop :=
    ∀ l x, written.lookup l = some x → written'.lookup l = some x

def Arrived (base t : FileTree) (written : List (Location × Node)) (path : AbsPath) : Node → Prop
  | .dir => ∃ l, walkTo t path = .found l ∧ t.get l = some .dir ∧ resolveCopyDestinationPath base path = .ok l
  | .file contents => ∃ l, walkTo t path = .found l ∧ written.lookup l = some (.file contents)
  | .link target => symlinkMetadata t path = .ok (.link target)

theorem inv_start (base : FileTree) (source : Location) : Inv base source [] base :=
  ⟨Grows.refl base, fun _ _ => rfl, fun _ _ h => by simp at h, fun _ _ h => by simp at h, fun _ _ => rfl⟩

theorem Inv.source_get (h : Inv base source written t) (hl : source <+: l) : t.get l = base.get l := by
  refine h.frame l ?_
  by_contra hsome
  obtain ⟨x, hx⟩ := Option.ne_none_iff_exists'.mp hsome
  exact h.outside l x hx hl

theorem extends_cons (h : written.lookup l = none) (x : Node) : Extends written ((l, x) :: written) := by
  intro m y hm
  rw [List.lookup_cons]
  by_cases hml : m = l
  · rw [hml, h] at hm
    cases hm
  · rw [beq_false_of_ne hml]
    exact hm

theorem Extends.refl (written : List (Location × Node)) : Extends written written := fun _ _ h => h

theorem Extends.trans {written'' : List (Location × Node)} (h : Extends written written')
    (h' : Extends written' written'') :
    Extends written written'' := fun l x hl => h' l x (h l x hl)

theorem symlinkMetadata_grows {target : String} (h : Grows t t') (hlink : symlinkMetadata t path = .ok (.link target)) :
    symlinkMetadata t' path = .ok (.link target) := by
  rcases List.eq_nil_or_concat' path with rfl | ⟨path, name, rfl⟩
  · cases hlink
  · obtain ⟨dir, hdir, hentry⟩ := symlinkMetadata_ok hlink
    exact symlinkMetadata_of (walkTo_found_grows h hdir) (h.link _ _ hentry)

theorem Arrived.mono (h : Arrived base t written path x) (hgrows : Grows t t') (hext : Extends written written') :
    Arrived base t' written' path x := by
  cases x with
  | dir =>
    obtain ⟨l, hwalk, hdir, hplace⟩ := h
    exact ⟨l, walkTo_found_grows hgrows hwalk, hgrows.dir l hdir, hplace⟩
  | file contents =>
    obtain ⟨l, hwalk, hwritten⟩ := h
    exact ⟨l, walkTo_found_grows hgrows hwalk, hext l _ hwritten⟩
  | link target => exact symlinkMetadata_grows hgrows h

/-- One more location outside the source, written for the first time. -/
theorem Inv.write (h : Inv base source written t) (hgrows : Grows t t') (hothers : ∀ m, m ≠ l → t'.get m = t.get m)
    (hl : t'.get l = some x) (hout : ¬source <+: l)
    (hlists : ∀ m, source <+: m → t'.children m = t.children m) : Inv base source ((l, x) :: written) t' := by
  have hlookup : ∀ m, ((l, x) :: written).lookup m = if m = l then some x else written.lookup m := by
    intro m
    rw [List.lookup_cons]
    split_ifs with hm
    · rw [hm, beq_self_eq_true]
    · rw [beq_false_of_ne hm]
  refine ⟨h.grows.trans hgrows, fun m hm => ?_, fun m y hm => ?_, fun m y hm => ?_,
    fun m hm => (hlists m hm).trans (h.lists m hm)⟩
  · rw [hlookup] at hm
    split_ifs at hm with heq
    rw [hothers m heq, h.frame m hm]
  · rw [hlookup] at hm
    split_ifs at hm with heq
    · rw [heq, hl, hm]
    · rw [hothers m heq, h.wrote m y hm]
  · rw [hlookup] at hm
    split_ifs at hm with heq
    · rw [heq]
      exact hout
    · exact h.outside m y hm

theorem Inv.create (h : Inv base source written t) (hdir : t.get dir = some .dir) (hfree : t.get (dir ++ [name]) = none)
    (hout : ¬source <+: dir ++ [name]) (x : Node) :
    Inv base source ((dir ++ [name], x) :: written) (t.create dir name x) := by
  have hget := FileTree.get_create (x := x) hdir hfree
  refine h.write (grows_create hdir hfree) (fun m hm => ?_) ?_ hout fun m hm => ?_
  · rw [hget, if_neg hm]
  · rw [hget, if_pos rfl]
  · refine FileTree.children_create hdir hfree ?_
    rintro rfl
    exact hout (hm.trans (List.prefix_append _ _))

/-- A file that has been made, or emptied, for what is written next. -/
structure Opened (source : Location) (t : FileTree) (l : Location) (t₀ : FileTree) : Prop where
  grows : Grows t t₀
  others : ∀ m, m ≠ l → t₀.get m = t.get m
  empty : t₀.get l = some (.file [])
  lists : ∀ m, source <+: m → t₀.children m = t.children m

theorem opened_create (hdir : t.get dir = some .dir) (hfree : t.get (dir ++ [name]) = none)
    (hout : ¬source <+: dir ++ [name]) :
    Opened source t (dir ++ [name]) (t.create dir name (.file [])) := by
  have hget := FileTree.get_create (x := .file []) hdir hfree
  refine ⟨grows_create hdir hfree, fun m hm => ?_, ?_, fun m hm => FileTree.children_create hdir hfree ?_⟩
  · rw [hget, if_neg hm]
  · rw [hget, if_pos rfl]
  · rintro rfl
    exact hout (hm.trans (List.prefix_append _ _))

theorem children_write_outside {contents : List UInt8} (hout : ¬source <+: l) (hm : source <+: m) :
    (t.write l contents).children m = t.children m := by
  refine FileTree.children_write ?_
  rintro rfl
  exact hout (hm.trans (List.dropLast_prefix l))

theorem opened_truncate {old : List UInt8} (hfile : t.get l = some (.file old)) (hout : ¬source <+: l) :
    Opened source t l (t.write l []) := by
  have hget : ∀ m, (t.write l []).get m = if m = l then some (.file []) else t.get m := FileTree.get_write hfile
  refine ⟨grows_write hfile, fun m hm => ?_, ?_, fun m hm => children_write_outside hout hm⟩
  · rw [hget, if_neg hm]
  · rw [hget, if_pos rfl]

theorem Inv.fill {t₀ : FileTree} (h : Inv base source written t) (hopened : Opened source t l t₀) (hout : ¬source <+: l)
    (contents : List UInt8) : Inv base source ((l, .file contents) :: written) (t₀.write l contents) := by
  have hget : ∀ m, (t₀.write l contents).get m = if m = l then some (.file contents) else t₀.get m :=
    FileTree.get_write hopened.empty
  refine h.write (hopened.grows.trans (grows_write hopened.empty)) (fun m hm => ?_) ?_ hout fun m hm => ?_
  · rw [hget, if_neg hm, hopened.others m hm]
  · rw [hget, if_pos rfl]
  · rw [children_write_outside hout hm, hopened.lists m hm]

/-! One entry -/

def copyEntry (t : FileTree) (src target : AbsPath) : Node → Outcome
  | .dir => createDirAll t target
  | .file _ => outcome t (copyFile t src target)
  | .link _ => outcome t (copySymlink t src target)

/-- Where the copy of a directory stands: what it reads is below the source, and its own directory is there. -/
structure Standing (base : FileTree) (source : Location) (written : List (Location × Node)) (t : FileTree) (src : AbsPath)
    (loc : Location) (target : AbsPath) (place : Location) : Prop where
  inv : Inv base source written t
  under : source <+: loc
  reads : walkTo t src = .found loc
  leads : walkTo t target = .found place
  isDir : t.get place = some .dir
  resolved : resolveCopyDestinationPath base target = .ok place

def Spoilt (base : FileTree) (source : Location) (t : FileTree) : Prop :=
  ∃ l, source <+: l ∧ base.get l = none ∧ t.get l ≠ none

def Does (base : FileTree) (source : Location) (written : List (Location × Node)) (t : FileTree) (path : AbsPath) (x : Node)
    (out : Outcome) : Step → Prop
  | .stops => ∃ e, out = (.error e, t)
  | .goesOn written' => ∃ t', out = (.ok (), t') ∧ Inv base source written' t' ∧ Grows t t' ∧
    Extends written written' ∧
      Arrived base t' written' path x
  | .spoils => ∃ t', out = (.ok (), t') ∧ Spoilt base source t'
  | .meets => True

variable {src target : AbsPath} {loc place : Location}

theorem Standing.reads_entry (h : Standing base source written t src loc target place)
    (hentry : base.get (loc ++ [name]) = some x) :
    t.get (loc ++ [name]) = some x :=
  (h.inv.source_get (h.under.trans (List.prefix_append _ _))).trans hentry

theorem Standing.copyFile_eq {contents : List UInt8} (h : Standing base source written t src loc target place)
    (hentry : base.get (loc ++ [name]) = some (.file contents)) : copyFile t (src ++ [name]) path =
      match openTruncated t path with
      | .ok (t', l') => .ok (t'.write l' (contentsAt t' (loc ++ [name])))
      | .error e => .error e :=
  copyFile_of (walkTo_concat_found h.reads (h.reads_entry hentry) (by simp)) (h.reads_entry hentry)

theorem Standing.copySymlink_eq {linkTarget : String} (h : Standing base source written t src loc target place)
    (hentry : base.get (loc ++ [name]) = some (.link linkTarget)) : copySymlink t (src ++ [name]) (target ++ [name]) =
      if (t.get (place ++ [name])).isSome then .error .alreadyExists else .ok (t.create place name (.link linkTarget)) := by
  rw [copySymlink, readLink, symlinkMetadata_of h.reads (h.reads_entry hentry)]
  exact makeEntry_of h.leads h.isDir

/-- What is outside the source is not what is read. -/
theorem Standing.apart (h : Standing base source written t src loc target place) (hout : ¬source <+: l) :
    loc ++ [name] ≠ l := by
  rintro rfl
  exact hout (h.under.trans (List.prefix_append _ _))

theorem copyEntry_fails {y : Node} (h : Standing base source written t src loc target place)
    (hentry : base.get (loc ++ [name]) = some x) (hslot : t.get (place ++ [name]) = some y)
    (hdir : x = .dir → ∀ l, walkTo t (target ++ [name]) = .found l → t.get l ≠ some .dir)
    (hfile : ∀ contents, x = .file contents → ∃ e, openTruncated t (target ++ [name]) = .error e) :
    ∃ e, copyEntry t (src ++ [name]) (target ++ [name]) x = (.error e, t) := by
  cases x with
  | dir => exact ⟨_, createDirAll_clash h.leads hslot (hdir rfl)⟩
  | file contents =>
    obtain ⟨e, he⟩ := hfile contents rfl
    exact ⟨e, by rw [copyEntry, h.copyFile_eq hentry, he]; rfl⟩
  | link linkTarget =>
    exact ⟨_, by rw [copyEntry, h.copySymlink_eq hentry, hslot, if_pos Option.isSome_some]; rfl⟩

theorem lookup_head (l : Location) (x : Node) (written : List (Location × Node)) :
    ((l, x) :: written).lookup l = some x := by
  rw [List.lookup_cons, beq_self_eq_true]

theorem copyEntry_file {contents : List UInt8} {t₀ : FileTree} (h : Standing base source written t src loc target place)
    (hentry : base.get (loc ++ [name]) = some (.file contents)) (hopen : openTruncated t path = .ok (t₀, l))
    (hopened : Opened source t l t₀) (hwalk : walkTo t₀ path = .found l) (hout : ¬source <+: l)
    (hnew : written.lookup l = none) :
    Does base source written t path (.file contents) (copyEntry t (src ++ [name]) path (.file contents))
      (.goesOn ((l, .file contents) :: written)) := by
  have hread : contentsAt t₀ (loc ++ [name]) = contents := by
    rw [contentsAt, hopened.others _ (h.apart hout), h.reads_entry hentry]
  have hgrows : Grows t₀ (t₀.write l contents) := grows_write hopened.empty
  refine ⟨t₀.write l contents, ?_, h.inv.fill hopened hout contents, hopened.grows.trans hgrows, extends_cons hnew _,
    l, walkTo_found_grows hgrows hwalk, lookup_head l _ written⟩
  rw [copyEntry, h.copyFile_eq hentry, hopen]
  simp only [hread]
  rfl

/-- Where there is nothing, the entry is made. -/
theorem copyEntry_free (h : Standing base source written t src loc target place) (hentry : base.get (loc ++ [name]) = some x)
    (hfree : t.get (place ++ [name]) = none)
    (hplace : resolveCopyDestinationPath base (target ++ [name]) = .ok (place ++ [name]))
    (hout : ¬source <+: place ++ [name]) (hnew : written.lookup (place ++ [name]) = none) :
    Does base source written t (target ++ [name]) x (copyEntry t (src ++ [name]) (target ++ [name]) x)
      (.goesOn ((place ++ [name], x) :: written)) := by
  have hget := (FileTree.get_create (x := x) h.isDir hfree (place ++ [name])).trans (if_pos rfl)
  have hgrows := grows_create (x := x) h.isDir hfree
  have hleads := walkTo_found_grows hgrows h.leads
  have hmade := h.inv.create h.isDir hfree hout x
  have hnone : ¬(t.get (place ++ [name])).isSome = true := by simp [hfree]
  cases x with
  | dir =>
    refine ⟨_, ?_, hmade, hgrows, extends_cons hnew _, _, walkTo_concat_found hleads hget (by simp), hget, hplace⟩
    rw [copyEntry, createDirAll_of h.leads h.isDir, if_neg hnone]
  | file contents =>
    have hopened := opened_create h.isDir hfree hout
    refine copyEntry_file h hentry ?_ hopened ?_ hout hnew
    · rw [openTruncated, walkTo_concat_absent h.leads h.isDir hfree]
    · exact walkTo_concat_found (walkTo_found_grows hopened.grows h.leads) hopened.empty (by simp)
  | link linkTarget =>
    refine ⟨_, ?_, hmade, hgrows, extends_cons hnew _, symlinkMetadata_of hleads hget⟩
    rw [copyEntry, h.copySymlink_eq hentry, if_neg hnone]
    rfl

/-! In the source -/

theorem copyEntry_gap {contents : List UInt8} {gap : String} (h : Standing base source written t src loc target place)
    (hentry : base.get (loc ++ [name]) = some (.file contents)) (hwalk : walkTo t path = .absent dir gap []) :
    ∃ t', copyEntry t (src ++ [name]) path (.file contents) = (.ok (), t') ∧ t'.get (dir ++ [gap]) ≠ none := by
  obtain ⟨hdir, hfree⟩ := walkTo_absent_node hwalk
  have hempty := (FileTree.get_create (x := .file []) hdir hfree (dir ++ [gap])).trans (if_pos rfl)
  let t₀ := t.create dir gap (.file [])
  refine ⟨t₀.write (dir ++ [gap]) (contentsAt t₀ (loc ++ [name])), ?_, ?_⟩
  · rw [copyEntry, h.copyFile_eq hentry, openTruncated, hwalk]
    rfl
  · rw [FileTree.get_write hempty, if_pos rfl]
    exact Option.some_ne_none _

theorem copyEntry_makes (h : Standing base source written t src loc target place)
    (hentry : base.get (loc ++ [name]) = some x)
    (hfree : t.get (place ++ [name]) = none) :
    ∃ t', copyEntry t (src ++ [name]) (target ++ [name]) x = (.ok (), t') ∧ t'.get (place ++ [name]) ≠ none := by
  have hget := (FileTree.get_create (x := x) h.isDir hfree (place ++ [name])).trans (if_pos rfl)
  have hnone : ¬(t.get (place ++ [name])).isSome = true := by simp [hfree]
  cases x with
  | dir => exact ⟨_, by rw [copyEntry, createDirAll_of h.leads h.isDir, if_neg hnone], by simp [hget]⟩
  | file contents => exact copyEntry_gap h hentry (walkTo_concat_absent h.leads h.isDir hfree)
  | link linkTarget => exact ⟨_, by rw [copyEntry, h.copySymlink_eq hentry, if_neg hnone]; rfl, by simp [hget]⟩

/-! All entries -/

theorem Standing.slot (name : String) (h : Standing base source written t src loc target place)
    (hthere : ∀ m, walkTo t (target ++ [name]) ≠ .absent place m []) : ∃ y, t.get (place ++ [name]) = some y := by
  refine Option.ne_none_iff_exists'.mp fun hnone => ?_
  exact hthere name (walkTo_concat_absent h.leads h.isDir hnone)

theorem settle_new (hland : landing base path x = .writes l) (hnew : written.lookup l = none) :
    settle base source written path x =
    if source.isPrefixOf l then if (base.get l).isNone then .spoils else .meets else .goesOn ((l, x) :: written) := by
  rw [settle, hland]
  simp only [hnew]

theorem settle_free (hland : landing base path x = .writes l) (hnew : written.lookup l = none) (hfree : base.get l = none) :
    settle base source written path x = if source.isPrefixOf l then .spoils else .goesOn ((l, x) :: written) := by
  rw [settle_new hland hnew, hfree]
  rfl

/-- On what was there before. -/
theorem copyEntry_found (h : Standing base source written t src loc target place)
    (hentry : base.get (loc ++ [name]) = some x)
    (hwalk : walkTo base (target ++ [name]) = .found l) :
    Does base source written t (target ++ [name]) x (copyEntry t (src ++ [name]) (target ++ [name]) x)
      (settle base source written (target ++ [name]) x) := by
  have hwalk' := walkTo_found_grows h.inv.grows hwalk
  obtain ⟨y, hslot⟩ := h.slot name (by simp [hwalk'])
  obtain ⟨z, hz, hlink⟩ := walkTo_node hwalk
  have hland : landing base (target ++ [name]) x = landsOn l x (some z) := by rw [landing, hwalk, ← hz]
  cases x with
  | link linkTarget =>
    rw [settle, hland]
    exact copyEntry_fails h hentry hslot (by simp) (by simp)
  | dir =>
    rw [settle, hland]
    cases z with
    | link linkTarget => exact absurd rfl (hlink linkTarget)
    | dir =>
      have hdir := h.inv.grows.dir l hz
      exact ⟨t, createDirAll_there hwalk' hdir, h.inv, Grows.refl t, Extends.refl written, l, hwalk', hdir,
        resolve_of_found hwalk⟩
    | file old =>
      refine copyEntry_fails h hentry hslot (fun _ m hm => ?_) (by simp)
      rw [hwalk'] at hm
      cases hm
      exact h.inv.grows.not_dir hz (by simp)
  | file contents =>
    cases z with
    | link linkTarget => exact absurd rfl (hlink linkTarget)
    | dir =>
      rw [settle, hland]
      refine copyEntry_fails h hentry hslot (by simp) fun _ _ => ⟨.isADirectory, ?_⟩
      rw [openTruncated, hwalk']
      simp [h.inv.grows.dir l hz]
    | file old =>
      obtain ⟨old', hfile⟩ := h.inv.grows.file l old hz
      cases hlookup : written.lookup l with
      | some made =>
        rw [settle, hland, landsOn]
        simp only [hlookup]
        cases made with
        | dir => exact absurd ((h.inv.wrote l .dir hlookup).symm.trans hfile) (by simp)
        | file _ => trivial
        | link _ => trivial
      | none =>
        rw [settle_new hland hlookup, hz]
        split_ifs with hin hnone
        · cases hnone
        · trivial
        · have hout := fun hsource => hin (List.isPrefixOf_iff_prefix.mpr hsource)
          have hopened := opened_truncate hfile hout
          refine copyEntry_file h hentry ?_ hopened (walkTo_found_grows hopened.grows hwalk') hout hlookup
          rw [openTruncated, hwalk']
          simp [hfile]

/-- Where the walk is refused. -/
theorem copyEntry_stuck (h : Standing base source written t src loc target place)
    (hentry : base.get (loc ++ [name]) = some x)
    (hwalk : walkTo base (target ++ [name]) = .notADirectory ∨ walkTo base (target ++ [name]) = .loop) :
    Does base source written t (target ++ [name]) x (copyEntry t (src ++ [name]) (target ++ [name]) x)
      (settle base source written (target ++ [name]) x) := by
  have hstops : settle base source written (target ++ [name]) x = .stops := by
    rw [settle, landing]
    rcases hwalk with hwalk | hwalk <;> rw [hwalk]
  have hwalk' : walkTo t (target ++ [name]) = walkTo base (target ++ [name]) :=
    walkTo_grows h.inv.grows (by rcases hwalk with hwalk | hwalk <;> simp [hwalk])
  rw [← hwalk'] at hwalk
  rw [hstops]
  obtain ⟨y, hslot⟩ := h.slot name (by rcases hwalk with hwalk | hwalk <;> simp [hwalk])
  refine copyEntry_fails h hentry hslot (fun _ l hl => ?_) fun _ _ => ?_
  · rcases hwalk with hwalk | hwalk <;> rw [hwalk] at hl <;> cases hl
  · rcases hwalk with hwalk | hwalk
    · exact ⟨.notADirectory, by rw [openTruncated, hwalk]⟩
    · exact ⟨.filesystemLoop, by rw [openTruncated, hwalk]⟩

/-- On a link that leads nowhere. -/
theorem copyEntry_dangling {gap : String} {more : List Component} (h : Standing base source written t src loc target place)
    (hentry : base.get (loc ++ [name]) = some x) (hwalk : walkTo base (target ++ [name]) = .absent dir gap more)
    (hlink : (symlinkMetadata base (target ++ [name])).isOk = true) :
    Does base source written t (target ++ [name]) x (copyEntry t (src ++ [name]) (target ++ [name]) x)
      (settle base source written (target ++ [name]) x) := by
  have hland : landing base (target ++ [name]) x = landsInGap (dir ++ [gap]) x more := by
    rw [landing, hwalk]
    exact if_pos hlink
  obtain ⟨y, hslot⟩ : ∃ y, t.get (place ++ [name]) = some y := by
    cases hmeta : symlinkMetadata base (target ++ [name]) with
    | error e =>
      rw [hmeta] at hlink
      cases hlink
    | ok y =>
      obtain ⟨parent, hparent, hthere⟩ := symlinkMetadata_ok hmeta
      have hplace := h.resolved
      rw [resolve_of_found hparent] at hplace
      cases hplace
      exact h.inv.grows.exists_get hthere
  obtain ⟨hdir, hgap⟩ := walkTo_absent_node hwalk
  have hfree : written.lookup (dir ++ [gap]) = none → t.get (dir ++ [gap]) = none := fun hnew =>
    (h.inv.frame _ hnew).trans hgap
  have hstill := fun hnew => walkTo_absent_grows h.inv.grows hwalk (hfree hnew)
  cases x with
  | link linkTarget =>
    rw [settle, hland]
    exact copyEntry_fails h hentry hslot (by simp) (by simp)
  | dir =>
    rw [settle, hland, landsInGap]
    simp only
    split_ifs with hnew
    · rw [Option.isNone_iff_eq_none] at hnew
      refine copyEntry_fails h hentry hslot (fun _ l hl => ?_) (by simp)
      rw [hstill hnew] at hl
      cases hl
    · trivial
  | file contents =>
    cases more with
    | cons c more =>
      rw [settle, hland, landsInGap]
      simp only
      split_ifs with hnew
      · rw [Option.isNone_iff_eq_none] at hnew
        exact copyEntry_fails h hentry hslot (by simp) fun _ _ => ⟨.notFound, by rw [openTruncated, hstill hnew]⟩
      · trivial
    | nil =>
      cases hlookup : written.lookup (dir ++ [gap]) with
      | none =>
        rw [settle_free hland hlookup hgap]
        split_ifs with hin
        · obtain ⟨t', hmade, hthere⟩ := copyEntry_gap h hentry (hstill hlookup)
          exact ⟨t', hmade, dir ++ [gap], List.isPrefixOf_iff_prefix.mp hin, hgap, hthere⟩
        · have hout := fun hsource => hin (List.isPrefixOf_iff_prefix.mpr hsource)
          have hopened := opened_create (h.inv.grows.dir dir hdir) (hfree hlookup) hout
          refine copyEntry_file h hentry ?_ hopened ?_ hout hlookup
          · rw [openTruncated, hstill hlookup]
          · exact walkTo_absent_filled hopened.grows (hstill hlookup) hopened.empty (by simp)
      | some made =>
        rw [settle, hland, landsInGap]
        simp only [hlookup]
        cases made with
        | file _ => trivial
        | link _ => trivial
        | dir =>
          have hmade := h.inv.wrote _ _ hlookup
          have hleads := walkTo_absent_filled h.inv.grows hwalk hmade (by simp)
          refine copyEntry_fails h hentry hslot (by simp) fun _ _ => ⟨.isADirectory, ?_⟩
          rw [openTruncated, hleads]
          simp [hmade]

/-- Where there was nothing: only the copy itself can have made something there. -/
theorem copyEntry_new {gap : String} {more : List Component} (h : Standing base source written t src loc target place)
    (hentry : base.get (loc ++ [name]) = some x) (hwalk : walkTo base (target ++ [name]) = .absent dir gap more)
    (hlink : ¬(symlinkMetadata base (target ++ [name])).isOk = true) :
    Does base source written t (target ++ [name]) x (copyEntry t (src ++ [name]) (target ++ [name]) x)
      (settle base source written (target ++ [name]) x) := by
  have hplace : resolveCopyDestinationPath base (target ++ [name]) = .ok (place ++ [name]) := by
    rw [resolve_concat (by simp [hwalk]), h.resolved]
    rfl
  have hland : landing base (target ++ [name]) x = .writes (place ++ [name]) := by
    rw [landing, hwalk]
    simp only [hplace]
    exact if_neg hlink
  have hbase : base.get (place ++ [name]) = none := by
    by_contra hsome
    obtain ⟨y, hy⟩ := Option.ne_none_iff_exists'.mp hsome
    refine hlink ?_
    rw [symlinkMetadata_of (walkTo_of_resolve h.resolved (FileTree.get_parent hy)) hy]
    rfl
  cases hlookup : written.lookup (place ++ [name]) with
  | none =>
    have hfree := (h.inv.frame _ hlookup).trans hbase
    rw [settle_free hland hlookup hbase]
    split_ifs with hin
    · obtain ⟨t', hmade, hthere⟩ := copyEntry_makes h hentry hfree
      exact ⟨t', hmade, place ++ [name], List.isPrefixOf_iff_prefix.mp hin, hbase, hthere⟩
    · exact copyEntry_free h hentry hfree hplace (fun hsource => hin (List.isPrefixOf_iff_prefix.mpr hsource)) hlookup
  | some made =>
    have hslot := h.inv.wrote _ _ hlookup
    rw [settle, hland]
    simp only [hlookup]
    cases x with
    | link linkTarget => exact copyEntry_fails h hentry hslot (by simp) (by simp)
    | file contents =>
      cases made with
      | file _ => trivial
      | link _ => trivial
      | dir =>
        refine copyEntry_fails h hentry hslot (by simp) fun _ _ => ⟨.isADirectory, ?_⟩
        rw [openTruncated, walkTo_concat_found h.leads hslot (by simp)]
        simp [hslot]
    | dir =>
      cases made with
      | link linkTarget => trivial
      | dir =>
        have hleads := walkTo_concat_found h.leads hslot (by simp)
        exact ⟨t, createDirAll_there hleads hslot, h.inv, Grows.refl t, Extends.refl written, _, hleads, hslot, hplace⟩
      | file contents =>
        refine copyEntry_fails h hentry hslot (fun _ l hl => ?_) (by simp)
        rw [walkTo_concat_found h.leads hslot (by simp)] at hl
        cases hl
        simp [hslot]

theorem copyEntry_does (h : Standing base source written t src loc target place)
    (hentry : base.get (loc ++ [name]) = some x) :
    Does base source written t (target ++ [name]) x (copyEntry t (src ++ [name]) (target ++ [name]) x)
      (settle base source written (target ++ [name]) x) := by
  cases hwalk : walkTo base (target ++ [name]) with
  | found l => exact copyEntry_found h hentry hwalk
  | notADirectory => exact copyEntry_stuck h hentry (Or.inl hwalk)
  | loop => exact copyEntry_stuck h hentry (Or.inr hwalk)
  | absent dir gap more =>
    by_cases hlink : (symlinkMetadata base (target ++ [name])).isOk = true
    · exact copyEntry_dangling h hentry hwalk hlink
    · exact copyEntry_new h hentry hwalk hlink

end Nexal.LocalFs
