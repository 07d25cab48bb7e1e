import Nexal.Sanity.LocalCopy

/-! A recursive `fs/copy`. The guard looks at the destination once; what the copy then finds below the destination is
followed
wherever it leads. -/

namespace Nexal.LocalFs

open UnixPath (Location Component)
open FileOps PathWalk

variable {base t t' : FileTree} {source : Location} {written written' : List (Location × Node)} {name : String}
  {l loc place : Location} {src target : AbsPath} {x : Node} {want more rest : List (AbsPath × Node)} {depth : ℕ}

/-! The run -/

theorem Standing.mono (h : Standing base source written t src loc target place) (hinv : Inv base source written' t')
    (hgrows : Grows t t') : Standing base source written' t' src loc target place where
  inv := hinv
  under := h.under
  reads := walkTo_found_grows hgrows h.reads
  leads := walkTo_found_grows hgrows h.leads
  isDir := hgrows.dir place h.isDir
  resolved := h.resolved

/-- From a directory to one of its entries. -/
theorem Standing.into (h : Standing base source written t src loc target place)
    (hentry : base.get (loc ++ [name]) = some .dir)
    (harrived : Arrived base t written (target ++ [name]) .dir) :
    ∃ place', Standing base source written t (src ++ [name]) (loc ++ [name]) (target ++ [name]) place' := by
  obtain ⟨place', hleads, hdir, hresolved⟩ := harrived
  exact ⟨place', h.inv, h.under.trans (List.prefix_append _ _),
    walkTo_concat_found h.reads (h.reads_entry hentry) (by simp), hleads, hdir, hresolved⟩

/-- How the copy of some entries has gone, by the verdict on them and on the rest. -/
inductive Went (base : FileTree) (source : Location) (v : Verdict) (written : List (Location × Node)) (t : FileTree)
    (want rest : List (AbsPath × Node)) : Option Outcome → Prop
  | stopped {e : IoError} {t' : FileTree} {written' : List (Location × Node)} :
    v = .fits → Inv base source written' t' → Went base source v written t want rest (some (.error e, t'))
  | arrived {t' : FileTree} {written' : List (Location × Node)} :
    Inv base source written' t' → Grows t t' → Extends written written' → verdict base source written' rest = v →
    (∀ e ∈ want, Arrived base t' written' e.1 e.2) → Went base source v written t want rest (some (.ok (), t'))
  | spoilt {r : Option Outcome} :
    v = .spoils → (∀ out, r = some out → Spoilt base source out.2) → Went base source v written t want rest r

theorem Spoilt.mono (h : Spoilt base source t) (hgrows : Grows t t') : Spoilt base source t' := by
  obtain ⟨l, hsource, hbase, hthere⟩ := h
  obtain ⟨x, hx⟩ := Option.ne_none_iff_exists'.mp hthere
  obtain ⟨y, hy⟩ := hgrows.exists_get hx
  exact ⟨l, hsource, hbase, by simp [hy]⟩

/-- What is done next brings the next entries there, from any tree in which the first ones have arrived. -/
def Continues (base : FileTree) (source : Location) (v : Verdict) (t : FileTree) (want more rest : List (AbsPath × Node))
    (next : FileTree → Option Outcome) : Prop :=
  ∀ written' t', Inv base source written' t' → Grows t t' → verdict base source written' (more ++ rest) = v →
    (∀ e ∈ want, Arrived base t' written' e.1 e.2) → Went base source v written' t' more rest (next t')

theorem Went.followed {v : Verdict} {next : FileTree → Option Outcome} {first : Option Outcome}
    (h : Went base source v written t want (more ++ rest) first) (hgrows : ∀ t' out, next t' = some out → Grows t' out.2)
    (hnext : Continues base source v t want more rest next) :
    Went base source v written t (want ++ more) rest (first.bind (andThen next)) := by
  cases h with
  | stopped hv hinv => exact .stopped hv hinv
  | spoilt hv hspoilt =>
    refine .spoilt hv fun out hout => ?_
    obtain ⟨⟨res, t'⟩, hfirst, hout⟩ := Option.bind_eq_some_iff.mp hout
    cases res with
    | error e =>
      cases hout
      exact hspoilt _ hfirst
    | ok u => exact (hspoilt _ hfirst).mono (hgrows t' out hout)
  | @arrived t' written' hinv hmore hext hverdict harrived =>
    have hwent := hnext written' t' hinv hmore hverdict harrived
    rw [Option.bind_some, andThen]
    generalize next t' = r at hwent ⊢
    cases hwent with
    | stopped hv hinv' => exact .stopped hv hinv'
    | spoilt hv hspoilt => exact .spoilt hv hspoilt
    | arrived hinv' hmore' hext' hverdict' harrived' =>
      refine .arrived hinv' (hmore.trans hmore') (hext.trans hext') hverdict' fun e he => ?_
      rcases List.mem_append.mp he with he | he
      · exact (harrived e he).mono hmore' hext'
      · exact harrived' e he

theorem Went.none {v : Verdict} (h : Inv base source written t) (hverdict : verdict base source written rest = v) :
    Went base source v written t [] rest (some (.ok (), t)) :=
  .arrived h (Grows.refl t) (Extends.refl written) hverdict (by simp)

theorem copyEntry_went {v : Verdict} (h : Standing base source written t src loc target place)
    (hentry : base.get (loc ++ [name]) = some x) (hverdict : verdict base source written ((target ++ [name], x) :: rest) = v)
    (hmeets : v ≠ .meets) :
    Went base source v written t [(target ++ [name], x)] rest (some (copyEntry t (src ++ [name]) (target ++ [name]) x)) := by
  have hdoes := copyEntry_does h hentry
  rw [verdict] at hverdict
  cases hsettle : settle base source written (target ++ [name]) x with
  | stops =>
    rw [hsettle] at hdoes hverdict
    obtain ⟨e, he⟩ := hdoes
    rw [he]
    exact .stopped hverdict.symm h.inv
  | goesOn written' =>
    rw [hsettle] at hdoes hverdict
    obtain ⟨t', ht', hinv, hgrows, hext, harrived⟩ := hdoes
    rw [ht']
    exact .arrived hinv hgrows hext hverdict (by simpa using harrived)
  | spoils =>
    rw [hsettle] at hdoes hverdict
    obtain ⟨t', ht', hspoilt⟩ := hdoes
    refine .spoilt hverdict.symm fun out hout => ?_
    rw [ht'] at hout
    cases hout
    exact hspoilt
  | meets =>
    rw [hsettle] at hverdict
    exact absurd hverdict.symm hmeets

/-! Nothing is taken away, wherever the copy goes -/

theorem copySymlink_grows (h : copySymlink t src target = .ok t') : Grows t t' := by
  unfold copySymlink at h
  cases hread : readLink t src with
  | error e =>
    rw [hread] at h
    cases h
  | ok linkTarget =>
    rw [hread] at h
    exact makeEntry_grows h

theorem createDirAll_grows (t : FileTree) (target : AbsPath) : Grows t (createDirAll t target).2 := by
  obtain ⟨l, hl⟩ := exists_resolve t target
  exact (createDirAll_spec hl).1.grows

theorem copyEntry_grows (t : FileTree) (src target : AbsPath) (x : Node) : Grows t (copyEntry t src target x).2 := by
  cases x with
  | dir => exact createDirAll_grows t target
  | file contents =>
    cases hcopy : copyFile t src target with
    | error e => rw [copyEntry, hcopy]; exact Grows.refl t
    | ok t' => rw [copyEntry, hcopy]; exact copyFile_grows hcopy
  | link linkTarget =>
    cases hcopy : copySymlink t src target with
    | error e => rw [copyEntry, hcopy]; exact Grows.refl t
    | ok t' => rw [copyEntry, hcopy]; exact copySymlink_grows hcopy

theorem andThen_grows {next : FileTree → Option Outcome} {first out : Outcome} (hfirst : Grows t first.2)
    (hnext : ∀ t' out, next t' = some out → Grows t' out.2) (h : andThen next first = some out) : Grows t out.2 := by
  obtain ⟨res, t'⟩ := first
  cases res with
  | error e =>
    cases h
    exact hfirst
  | ok u => exact hfirst.trans (hnext t' out h)

/-- An entry, and for a directory all below it; then the rest of the list. -/
theorem copyEntries_cons {copyDir : FileTree → AbsPath → AbsPath → Option Outcome} {entries : List (String × Node)} :
    copyEntries copyDir src target ((name, x) :: entries) t =
      ((if x = .dir then copyDir t (src ++ [name]) (target ++ [name])
        else some (copyEntry t (src ++ [name]) (target ++ [name]) x)).bind
        (andThen (copyEntries copyDir src target entries))) := by
  cases x <;> simp [copyEntries, copyEntry]

theorem copyEntries_grows {copyDir : FileTree → AbsPath → AbsPath → Option Outcome}
    (hdir : ∀ t src target out, copyDir t src target = some out → Grows t out.2) (entries : List (String × Node))
    {out : Outcome}
    (h : copyEntries copyDir src target entries t = some out) : Grows t out.2 := by
  induction entries generalizing t out with
  | nil =>
    cases h
    exact Grows.refl t
  | cons e entries ih =>
    obtain ⟨name, x⟩ := e
    rw [copyEntries_cons] at h
    obtain ⟨first, hfirst, hrest⟩ := Option.bind_eq_some_iff.mp h
    refine andThen_grows ?_ (fun t' out hout => ih hout) hrest
    split_ifs at hfirst
    · exact hdir _ _ _ _ hfirst
    · cases hfirst
      exact copyEntry_grows t _ _ x

def copyListing (depth : ℕ) (source target : AbsPath) (t : FileTree) : Option Outcome :=
  match readDir t source with
  | .ok entries => copyEntries (copyDirRecursive depth) source target entries t
  | .error e => some (.error e, t)

theorem copyDirRecursive_succ (depth : ℕ) (t : FileTree) (source target : AbsPath) :
    copyDirRecursive (depth + 1) t source target = andThen (copyListing depth source target) (createDirAll t target) := rfl

theorem Standing.listing (h : Standing base source written t src loc target place) (hloc : base.get loc = some .dir) :
    copyListing depth src target t = copyEntries (copyDirRecursive depth) src target (base.children loc) t := by
  rw [copyListing, readDir_of h.reads (by rw [h.inv.source_get h.under, hloc]), h.inv.lists loc h.under]

theorem copyListing_grows_of (hdir : ∀ t src target out, copyDirRecursive depth t src target = some out → Grows t out.2)
    {out : Outcome}
    (h : copyListing depth src target t = some out) : Grows t out.2 := by
  rw [copyListing] at h
  cases hread : readDir t src with
  | error e =>
    rw [hread] at h
    cases h
    exact Grows.refl t
  | ok entries =>
    rw [hread] at h
    exact copyEntries_grows hdir entries h

theorem copyDirRecursive_grows {out : Outcome} (h : copyDirRecursive depth t src target = some out) : Grows t out.2 := by
  induction depth generalizing t src target out with
  | zero => cases h
  | succ depth ih =>
    rw [copyDirRecursive_succ] at h
    exact andThen_grows (createDirAll_grows t target) (fun _ _ => copyListing_grows_of fun _ _ _ _ => ih) h

theorem copyListing_grows {out : Outcome} (h : copyListing depth src target t = some out) : Grows t out.2 :=
  copyListing_grows_of (fun _ _ _ _ => copyDirRecursive_grows) h

/-- Deep enough for the tree, a run that comes to no file of the source and to nothing of its own goes as the verdict
says. -/
theorem copyEntries_went {v : Verdict} (hmeets : v ≠ .meets) {d : ℕ} (hd : d ≤ depth)
    (h : Standing base source written t src loc target place) (hdepth : base.depth ≤ loc.length + d)
    (entries : List (String × Node))
    (hentries : ∀ e ∈ entries, base.get (loc ++ [e.1]) = some e.2)
    (hverdict : verdict base source written (entries.flatMap (entryBelow base d loc target) ++ rest) = v) :
    Went base source v written t (entries.flatMap (entryBelow base d loc target)) rest
      (copyEntries (copyDirRecursive depth) src target entries t) := by
  induction d generalizing depth written t src loc target place entries rest with
  | zero =>
    cases entries with
    | nil => exact .none h.inv hverdict
    | cons e entries =>
      -- the listed entry would be deeper than anything in the tree
      have hlen := FileTree.length_le_depth (hentries e List.mem_cons_self)
      rw [List.length_append, List.length_singleton] at hlen
      omega
  | succ d ih =>
    obtain ⟨depth, rfl⟩ : ∃ k, depth = k + 1 := Nat.exists_eq_succ_of_ne_zero (by omega)
    induction entries generalizing written t with
    | nil => exact .none h.inv hverdict
    | cons e entries ihe =>
      obtain ⟨name, x⟩ := e
      have hentry := hentries _ List.mem_cons_self
      have hgrows : ∀ t' out, copyEntries (copyDirRecursive (depth + 1)) src target entries t' = some out →
        Grows t' out.2 :=
        fun t' out hout => copyEntries_grows (fun _ _ _ _ hdir => copyDirRecursive_grows hdir) entries hout
      have hlater : ∀ want, Continues base source v t want (entries.flatMap (entryBelow base (d + 1) loc target)) rest
          (copyEntries (copyDirRecursive (depth + 1)) src target entries) :=
        fun want written' t' hinv hgrows hverdict' _ =>
          ihe (h.mono hinv hgrows) (fun e he => hentries e (List.mem_cons_of_mem _ he)) hverdict'
      rw [List.flatMap_cons, List.append_assoc, entryBelow, List.cons_append] at hverdict
      rw [List.flatMap_cons, entryBelow, copyEntries_cons]
      have hstep := copyEntry_went h hentry hverdict hmeets
      by_cases hx : x = .dir
      · subst hx
        have hbelow : Continues base source v t [(target ++ [name], .dir)]
          (below base (d + 1) (loc ++ [name]) (target ++ [name]))
            (entries.flatMap (entryBelow base (d + 1) loc target) ++ rest)
            (copyListing depth (src ++ [name]) (target ++ [name])) := by
          intro written' t' hinv hgrows hverdict' harrived
          obtain ⟨place', hinto⟩ := (h.mono hinv hgrows).into hentry (harrived _ List.mem_cons_self)
          rw [hinto.listing hentry]
          refine ih (by omega) hinto ?_ _ (fun e he => FileTree.mem_children.mp he) hverdict'
          rw [List.length_append, List.length_singleton]
          omega
        rw [if_pos rfl, if_pos rfl]
        exact (hstep.followed (fun t' out hout => copyListing_grows hout) hbelow).followed hgrows (hlater _)
      · rw [if_neg hx, if_neg hx]
        rw [if_neg hx, List.nil_append] at hstep
        exact hstep.followed hgrows (hlater _)

/-! A destination that has just been made: everything lands in it -/

variable {destination : AbsPath}

theorem absent_below (hleads : walkTo base destination = .found place) (hdir : base.get place = some .dir)
    (hempty : ∀ name, base.get (place ++ [name]) = none) {r : List String} (hr : r ≠ []) :
    ∃ dir name more, walkTo base (destination ++ r) = .absent dir name more := by
  induction r using List.reverseRecOn with
  | nil => exact absurd rfl hr
  | append_singleton r name ih =>
    rw [← List.append_assoc]
    rcases eq_or_ne r [] with rfl | hne
    · rw [List.append_nil]
      exact ⟨_, _, _, walkTo_concat_absent hleads hdir (hempty name)⟩
    · obtain ⟨dir, n, more, h⟩ := ih hne
      exact ⟨_, _, _, walkTo_concat_below h⟩

theorem landing_below (hleads : walkTo base destination = .found place) (hdir : base.get place = some .dir)
    (hempty : ∀ name, base.get (place ++ [name]) = none) {r : List String} (hr : r ≠ []) (x : Node) :
    landing base (destination ++ r) x = .writes (place ++ r) := by
  have habsent := fun {r : List String} (hr : r ≠ []) => absent_below hleads hdir hempty hr
  have hresolved : ∀ r, resolveCopyDestinationPath base (destination ++ r) = .ok (place ++ r) := by
    intro r
    induction r using List.reverseRecOn with
    | nil => rw [List.append_nil, List.append_nil, resolve_of_found hleads]
    | append_singleton r name ih =>
      have hmissing : ∀ l, walkTo base (destination ++ r ++ [name]) ≠ .found l := by
        intro l hl
        obtain ⟨_, _, _, h⟩ := habsent (r := r ++ [name]) (by simp)
        rw [← List.append_assoc, hl] at h
        cases h
      rw [← List.append_assoc, resolve_concat hmissing, ih, ← List.append_assoc]
      rfl
  have hlink : ¬(symlinkMetadata base (destination ++ r)).isOk = true := by
    obtain ⟨r, name, rfl⟩ := (List.eq_nil_or_concat' r).resolve_left hr
    rw [← List.append_assoc]
    cases hmeta : symlinkMetadata base (destination ++ r ++ [name]) with
    | error e => exact Bool.false_ne_true
    | ok y =>
      obtain ⟨dir, hwalk, hentry⟩ := symlinkMetadata_ok hmeta
      rcases eq_or_ne r [] with rfl | hne
      · rw [List.append_nil, hleads] at hwalk
        cases hwalk
        rw [hempty] at hentry
        cases hentry
      · obtain ⟨_, _, _, h⟩ := habsent hne
        rw [h] at hwalk
        cases hwalk
  obtain ⟨_, _, _, hwalk⟩ := habsent hr
  rw [landing, hwalk]
  simp only [hresolved]
  exact if_neg hlink

theorem verdict_apart {entries : List (AbsPath × Node)}
    (hlands : ∀ e ∈ entries, ∃ r, e.1 = destination ++ r ∧ landing base e.1 e.2 = .writes (place ++ r) ∧
      ¬source <+: place ++ r)
    (hnodup : (entries.map Prod.fst).Nodup)
    (hnew : ∀ r, destination ++ r ∈ entries.map Prod.fst → written.lookup (place ++ r) = none) :
    verdict base source written entries = .fits := by
  induction entries generalizing written with
  | nil => rfl
  | cons e entries ih =>
    obtain ⟨path, x⟩ := e
    obtain ⟨r, rfl, hland, hout⟩ := hlands _ List.mem_cons_self
    rw [List.map_cons, List.nodup_cons] at hnodup
    rw [verdict, settle_new hland (hnew r List.mem_cons_self), if_neg (mt List.isPrefixOf_iff_prefix.mp hout)]
    refine ih (fun e he => hlands e (List.mem_cons_of_mem _ he)) hnodup.2 fun r' hr' => ?_
    have hne : place ++ r' ≠ place ++ r := by
      intro heq
      rw [List.append_cancel_left heq] at hr'
      exact hnodup.1 hr'
    rw [List.lookup_cons, beq_false_of_ne hne]
    exact hnew r' (List.mem_cons_of_mem _ hr')

/-- A source below the new directory would have been there before it. -/
theorem verdict_new (hleads : walkTo base destination = .found place) (hdir : base.get place = some .dir)
    (hempty : ∀ r, r ≠ [] → base.get (place ++ r) = none) (hsource : base.get source = some .dir)
    (hout : ¬source <+: place) :
    verdict base source [] (below base depth source destination) = .fits := by
  have houtside : ∀ r, ¬source <+: place ++ r := by
    intro r hin
    rcases List.prefix_or_prefix_of_prefix hin (List.prefix_append place r) with habove | ⟨r', rfl⟩
    · exact hout habove
    · rcases eq_or_ne r' [] with rfl | hr'
      · exact hout (by rw [List.append_nil])
      · rw [hempty r' hr'] at hsource
        cases hsource
  have hlands : ∀ e ∈ below base depth source destination, ∃ r, e.1 = destination ++ r ∧
      landing base e.1 e.2 = .writes (place ++ r) ∧ ¬source <+: place ++ r := by
    intro e he
    obtain ⟨r, hr, hpath⟩ := below_prefix he
    refine ⟨r, hpath, ?_, houtside r⟩
    rw [hpath]
    exact landing_below hleads hdir (fun name => hempty [name] (by simp)) hr e.2
  exact verdict_apart hlands (below_nodup base depth source destination) fun _ _ => rfl

/-! Safety -/

def entryAt (t : FileTree) (path : AbsPath) : Option Location :=
  match path.getLast? with
  | none => some []
  | some name => (openParent t path).toOption.map (· ++ [name])

def Copied (t : FileTree) (path : AbsPath) : Node → Prop
  | .link linkTarget => symlinkMetadata t path = .ok (.link linkTarget)
  | x => ∃ l, walkTo t path = .found l ∧ t.get l = some x

/-- The source is as it was, and after a success the destination has all of it. -/
def CopiedFrom (t : FileTree) (source : Location) (destination : AbsPath) (out : Outcome) : Prop :=
  (∀ r, out.2.get (source ++ r) = t.get (source ++ r)) ∧
    (out.1 = .ok () → ∀ r x, t.get (source ++ r) = some x → Copied out.2 (destination ++ r) x)

/-- The copy comes to an end, and it is one. -/
def Safe (t : FileTree) (source destination : AbsPath) : Prop :=
  ∃ depth out, copy depth t source destination ⟨true⟩ = some out ∧
    ∀ l, entryAt t source = some l → CopiedFrom t l destination out

/-- A file that is not empty does not survive being copied onto itself; for a directory, where the guard lets it be copied
into one that is there, the entries decide. -/
def judge (t : FileTree) (source destination : AbsPath) : Verdict :=
  match symlinkMetadata t source, entryAt t source with
  | .ok .dir, some l =>
    match destinationIsSameOrDescendantOfSource t source destination with
    | .ok false => if isDir t destination then verdict t l [] (below t (t.depth + 1) l destination) else .fits
    | _ => .fits
  | .ok (.file contents), some l => if walkTo t destination = .found l ∧ contents ≠ [] then .spoils else .fits
  | _, _ => .fits

theorem entryAt_of (h : symlinkMetadata t src = .ok x) :
    ∃ l, entryAt t src = some l ∧ t.get l = some x ∧ ((∀ linkTarget, x ≠ .link linkTarget) →
      walkTo t src = .found l) := by
  rcases List.eq_nil_or_concat' src with rfl | ⟨src, name, rfl⟩
  · cases h
    exact ⟨[], rfl, FileTree.get_root t, fun _ => walkTo_root⟩
  · obtain ⟨dir, hdir, hentry⟩ := symlinkMetadata_ok h
    refine ⟨dir ++ [name], ?_, hentry, fun hx => walkTo_concat_found hdir hentry hx⟩
    rw [entryAt, List.getLast?_concat]
    simp only [openParent_of hdir (FileTree.get_parent hentry)]
    rfl

theorem Arrived.copied (h : Arrived base t written src x) (hinv : Inv base source written t) : Copied t src x := by
  cases x with
  | dir =>
    obtain ⟨l, hwalk, hdir, -⟩ := h
    exact ⟨l, hwalk, hdir⟩
  | file contents =>
    obtain ⟨l, hwalk, hwritten⟩ := h
    exact ⟨l, hwalk, hinv.wrote l _ hwritten⟩
  | link linkTarget => exact h

/-- The run from the destination once it is there. -/
theorem copyListing_went {v : Verdict} (hmeets : v ≠ .meets) (hd : base.depth ≤ depth)
    (hreads : walkTo base src = .found source)
    (hsource : base.get source = some .dir) (hleads : walkTo base destination = .found place)
    (hdir : base.get place = some .dir)
    (hverdict : verdict base source [] (below base (base.depth + 1) source destination) = v) :
    Went base source v [] base (below base (base.depth + 1) source destination) []
    (copyListing depth src destination base) := by
  have hstanding : Standing base source [] base src source destination place :=
    ⟨inv_start base source, List.prefix_rfl, hreads, hleads, hdir, resolve_of_found hleads⟩
  rw [below_succ] at hverdict ⊢
  rw [hstanding.listing hsource]
  refine copyEntries_went hmeets hd hstanding (Nat.le_add_left _ _) _ (fun e he => FileTree.mem_children.mp he) ?_
  rwa [List.append_nil]

theorem copyListing_safe (hreads : walkTo base src = .found source) (hsource : base.get source = some .dir)
    (hleads : walkTo base destination = .found place) (hdir : base.get place = some .dir)
    (hverdict : verdict base source [] (below base (base.depth + 1) source destination) = .fits) :
    ∃ out, copyListing base.depth src destination base = some out ∧ CopiedFrom base source destination out := by
  have hwent := copyListing_went (by simp) le_rfl hreads hsource hleads hdir hverdict
  generalize copyListing base.depth src destination base = r at hwent ⊢
  cases hwent with
  | spoilt hv => cases hv
  | stopped _ hinv => exact ⟨_, rfl, fun r => hinv.source_get (List.prefix_append _ _), fun hok => nomatch hok⟩
  | arrived hinv hgrows _ _ harrived =>
    refine ⟨_, rfl, fun r => hinv.source_get (List.prefix_append _ _), fun _ r x hx => ?_⟩
    rcases eq_or_ne r [] with rfl | hr
    · rw [List.append_nil, hsource] at hx
      cases hx
      rw [List.append_nil]
      exact ⟨place, walkTo_found_grows hgrows hleads, hgrows.dir place hdir⟩
    · exact (harrived _ (mem_below destination hr (Nat.le_add_left _ _) hx)).copied hinv

/-- Where there was no directory, there is nothing in the one that has been made. -/
theorem Made.empty (hmade : Made place t base) (hplace : resolveCopyDestinationPath t destination = .ok place)
    (hdir : base.get place = some .dir) (hnot : ¬isDir t destination = true) {r : List String} (hr : r ≠ []) :
    base.get (place ++ r) = none := by
  have hnone : t.get place = none := by
    rcases hmade.frame place with heq | ⟨-, hnone, -⟩
    · rw [heq] at hdir
      exact absurd (isDir_iff.mpr ⟨place, walkTo_of_resolve hplace hdir, hdir⟩) hnot
    · exact hnone
  rcases hmade.frame (place ++ r) with heq | ⟨habove, -⟩
  · rw [heq, FileTree.get_none_below hnone]
  · exact absurd (List.append_right_eq_self.mp (habove.eq_of_length_le (by simp))) hr

theorem copyDir_safe (hreads : walkTo t src = .found source) (hsource : t.get source = some .dir)
    (hplace : resolveCopyDestinationPath t destination = .ok place) (hout : ¬source <+: place)
    (hverdict : isDir t destination = true → verdict t source [] (below t (t.depth + 1) source destination) = .fits) :
    ∃ depth out, copyDirRecursive depth t src destination = some out ∧ CopiedFrom t source destination out := by
  obtain ⟨hmade, hdone⟩ := createDirAll_spec hplace
  cases hcreate : createDirAll t destination with
  | mk made base =>
    rw [hcreate] at hmade hdone
    simp only at hmade hdone
    have hsame : ∀ r, base.get (source ++ r) = t.get (source ++ r) := by
      intro r
      refine (hmade.frame (source ++ r)).resolve_right ?_
      rintro ⟨habove, -⟩
      exact hout ((List.prefix_append _ _).trans habove)
    cases made with
    | error e =>
      refine ⟨1, (.error e, base), ?_, hsame, fun hok => nomatch hok⟩
      rw [copyDirRecursive_succ, hcreate]
      rfl
    | ok u =>
      obtain ⟨hleads, hdir⟩ := hdone rfl
      have hsource' : base.get source = some .dir := hmade.grows.dir source hsource
      have hfits : verdict base source [] (below base (base.depth + 1) source destination) = .fits := by
        by_cases hthere : isDir t destination = true
        · obtain ⟨l, hl, hdir'⟩ := isDir_iff.mp hthere
          rw [createDirAll_there hl hdir'] at hcreate
          cases hcreate
          exact hverdict hthere
        · exact verdict_new hleads hdir (fun r hr => hmade.empty hplace hdir hthere hr) hsource' hout
      have hreads' := walkTo_found_grows hmade.grows hreads
      obtain ⟨out, hrun, hkept, hcopied⟩ := copyListing_safe hreads' hsource' hleads hdir hfits
      refine ⟨base.depth + 1, out, ?_, fun r => (hkept r).trans (hsame r), fun hok r x hx => hcopied hok r x ?_⟩
      · rw [copyDirRecursive_succ, hcreate]
        exact hrun
      · exact (hsame r).trans hx

/-! What is no directory has nothing below it -/

theorem get_leaf (hl : t.get l = some x) (hx : x ≠ .dir) {r : List String} {y : Node} (h : t.get (l ++ r) = some y) :
    r = [] := by
  by_contra hr
  have hdir := FileTree.get_above hr h
  rw [hl] at hdir
  exact hx (Option.some.inj hdir)

theorem not_above_leaf {y : Node} {m : Location} (hl : t.get l = some x) (hx : x ≠ .dir) (hm : t.get m = some y)
    (hne : m ≠ l) : ¬l <+: m := by
  rintro ⟨r, rfl⟩
  rw [get_leaf hl hx hm, List.append_nil] at hne
  exact hne rfl

theorem not_above_free {dir : Location} (hl : t.get l = some x) (hx : x ≠ .dir) (hdir : t.get dir = some .dir)
    (hfree : t.get (dir ++ [name]) = none) : ¬l <+: dir ++ [name] := by
  intro habove
  rcases List.prefix_concat_iff.mp habove with rfl | habove
  · rw [hl] at hfree
    cases hfree
  · obtain ⟨r, rfl⟩ := habove
    rw [get_leaf hl hx hdir, List.append_nil, hl] at hdir
    exact hx (Option.some.inj hdir)

theorem copiedFrom_leaf {out : Outcome} (hsource : t.get source = some x) (hx : x ≠ .dir)
    (hkept : ∀ r, out.2.get (source ++ r) = t.get (source ++ r))
    (hcopied : out.1 = .ok () → Copied out.2 destination x) :
    CopiedFrom t source destination out := by
  refine ⟨hkept, fun hok r y hy => ?_⟩
  obtain rfl := get_leaf hsource hx hy
  rw [List.append_nil] at hy ⊢
  cases hsource.symm.trans hy
  exact hcopied hok

theorem copyFile_opened {contents : List UInt8} {t₀ : FileTree} (hreads : walkTo t src = .found source)
    (hsource : t.get source = some (.file contents)) (hopen : openTruncated t destination = .ok (t₀, l))
    (hopened : Opened source t l t₀) (hleads : walkTo t₀ destination = .found l) (hout : ¬source <+: l) :
    CopiedFrom t source destination (outcome t (copyFile t src destination)) := by
  have hread : contentsAt t₀ source = contents := by
    rw [contentsAt, hopened.others source (fun heq => hout (heq ▸ List.prefix_rfl)), hsource]
  have hgrows : Grows t₀ (t₀.write l contents) := grows_write hopened.empty
  have hinv := (inv_start t source).fill hopened hout contents
  rw [copyFile_of hreads hsource, hopen]
  simp only [hread]
  refine copiedFrom_leaf hsource (by simp) (fun r => hinv.source_get (List.prefix_append _ _)) fun _ => ?_
  exact ⟨l, walkTo_found_grows hgrows hleads, hinv.wrote l _ (lookup_head l _ [])⟩

/-- An empty file is what is left of it. -/
theorem copyFile_itself (hreads : walkTo t src = .found source) (hsource : t.get source = some (.file []))
    (hleads : walkTo t destination = .found source) :
    CopiedFrom t source destination (outcome t (copyFile t src destination)) := by
  have hsame : ∀ {t' : FileTree}, (∀ k, t'.get k = t.get k) → ∀ k, (t'.write source []).get k = t.get k := by
    intro t' heq k
    rw [FileTree.get_write ((heq source).trans hsource)]
    split_ifs with hk
    · rw [hk, hsource]
    · exact heq k
  have hempty := hsame fun _ => rfl
  have hagain := hsame hempty
  have hcopy : copyFile t src destination = .ok ((t.write source []).write source []) := by
    rw [copyFile_of hreads hsource, openTruncated, hleads]
    simp [hsource, contentsAt, hempty]
  have hgrows : Grows t ((t.write source []).write source []) :=
    (grows_write hsource).trans (grows_write ((hempty source).trans hsource))
  rw [hcopy]
  refine copiedFrom_leaf hsource (by simp) (fun r => hagain _) fun _ => ?_
  exact ⟨source, walkTo_found_grows hgrows hleads, (hagain source).trans hsource⟩

theorem copyFile_safe {contents : List UInt8} (hreads : walkTo t src = .found source)
    (hsource : t.get source = some (.file contents)) (hself : contents = [] ∨ walkTo t destination ≠ .found source) :
    CopiedFrom t source destination (outcome t (copyFile t src destination)) := by
  have hleaf : Node.file contents ≠ .dir := by simp
  cases hopen : openTruncated t destination with
  | error e =>
    rw [copyFile_of hreads hsource, hopen]
    exact ⟨fun _ => rfl, fun hok => nomatch hok⟩
  | ok opened =>
    obtain ⟨t₀, l⟩ := opened
    rcases openTruncated_ok hopen with ⟨old, hleads, hfile, rfl⟩ | ⟨dir, n, hwalk, rfl, rfl⟩
    · by_cases hsame : l = source
      · subst hsame
        obtain rfl : contents = [] := hself.resolve_right (not_not_intro hleads)
        exact copyFile_itself hreads hsource hleads
      · have hout := not_above_leaf hsource hleaf hfile hsame
        have hopened := opened_truncate hfile hout
        exact copyFile_opened hreads hsource hopen hopened (walkTo_found_grows hopened.grows hleads) hout
    · obtain ⟨hdir, hfree⟩ := walkTo_absent_node hwalk
      have hout := not_above_free hsource hleaf hdir hfree
      have hopened := opened_create hdir hfree hout
      have hleads := walkTo_absent_filled hopened.grows hwalk hopened.empty (by simp)
      exact copyFile_opened hreads hsource hopen hopened hleads hout

theorem copySymlink_safe {linkTarget : String} (hmeta : symlinkMetadata t src = .ok (.link linkTarget))
    (hsource : t.get source = some (.link linkTarget)) :
    CopiedFrom t source destination (outcome t (copySymlink t src destination)) := by
  have hcopy : copySymlink t src destination = makeEntry t destination (.link linkTarget) := by
    rw [copySymlink, readLink, hmeta]
    rfl
  rw [hcopy]
  cases hmake : makeEntry t destination (.link linkTarget) with
  | error e => exact ⟨fun _ => rfl, fun hok => by cases hok⟩
  | ok t' =>
    rcases List.eq_nil_or_concat' destination with rfl | ⟨up, name, rfl⟩
    · cases hmake
    · obtain ⟨dir, hup, hdir⟩ := makeEntry_ok hmake
      rw [makeEntry_of hup hdir] at hmake
      split_ifs at hmake with hthere
      rw [Option.not_isSome_iff_eq_none] at hthere
      cases hmake
      have hout := not_above_free hsource (by simp) hdir hthere
      have hinv := (inv_start t source).create hdir hthere hout (.link linkTarget)
      have hentry := hinv.wrote _ _ (lookup_head (dir ++ [name]) (.link linkTarget) [])
      refine copiedFrom_leaf hsource (by simp) (fun r => hinv.source_get (List.prefix_append _ _)) fun _ => ?_
      exact symlinkMetadata_of (walkTo_found_grows hinv.grows hup) hentry

theorem safe_of_run {out : Outcome} (hl : entryAt t src = some l) (hrun : copy depth t src destination ⟨true⟩ = some out)
    (h : CopiedFrom t l destination out) : Safe t src destination := by
  refine ⟨depth, out, hrun, fun m hm => ?_⟩
  cases hl.symm.trans hm
  exact h

theorem guard_eq (hreads : walkTo t src = .found source) (hplace : resolveCopyDestinationPath t destination = .ok place) :
    destinationIsSameOrDescendantOfSource t src destination = .ok (source.isPrefixOf place) := by
  rw [destinationIsSameOrDescendantOfSource, canonicalize_ok.mpr hreads, hplace]
  rfl

theorem safe_of_fits (h : judge t src destination = .fits) : Safe t src destination := by
  cases hmeta : symlinkMetadata t src with
  | error e =>
    have hrun : copy 0 t src destination ⟨true⟩ = some (.error e, t) := by
      rw [copy, hmeta]
    exact ⟨0, (.error e, t), hrun, fun _ _ => ⟨fun _ => rfl, fun hok => nomatch hok⟩⟩
  | ok x =>
    obtain ⟨l, hl, hsource, hreads⟩ := entryAt_of hmeta
    rw [judge, hmeta, hl] at h
    cases x with
    | link linkTarget =>
      have hrun : copy 0 t src destination ⟨true⟩ = some (outcome t (copySymlink t src destination)) := by
        rw [copy, hmeta]
      exact safe_of_run hl hrun (copySymlink_safe hmeta hsource)
    | file contents =>
      have hrun : copy 0 t src destination ⟨true⟩ = some (outcome t (copyFile t src destination)) := by
        rw [copy, hmeta]
      have hself : contents = [] ∨ walkTo t destination ≠ .found l := by
        by_contra hboth
        rw [not_or, not_not] at hboth
        simp [hboth.2, hboth.1] at h
      exact safe_of_run hl hrun (copyFile_safe (hreads (by simp)) hsource hself)
    | dir =>
      have hwalk := hreads (by simp)
      obtain ⟨place, hplace⟩ := exists_resolve t destination
      have hguard := guard_eq hwalk hplace
      simp only [hguard] at h
      by_cases hin : l <+: place
      · have hrun : copy 0 t src destination ⟨true⟩ =
            some (.error (.invalidInput "fs/copy cannot copy a directory to itself or one of its descendants"), t) := by
          rw [copy, hmeta]
          simp [hguard, List.isPrefixOf_iff_prefix.mpr hin]
        exact safe_of_run hl hrun ⟨fun _ => rfl, fun hok => nomatch hok⟩
      · have hnot : l.isPrefixOf place = false := by rwa [← Bool.not_eq_true, List.isPrefixOf_iff_prefix]
        rw [hnot] at h hguard
        have hverdict : isDir t destination = true → verdict t l [] (below t (t.depth + 1) l destination) = .fits := by
          intro hthere
          simpa [hthere] using h
        obtain ⟨depth, out, hdir, hcopied⟩ := copyDir_safe hwalk hsource hplace hin hverdict
        have hrun : copy depth t src destination ⟨true⟩ = some out := by
          rw [copy, hmeta]
          simpa [hguard] using hdir
        exact safe_of_run hl hrun hcopied

/-! The other way round -/

theorem copyEntries_mono {copyDir copyDir' : FileTree → AbsPath → AbsPath → Option Outcome}
    (hdir : ∀ t src target out, copyDir t src target = some out → copyDir' t src target = some out)
    (entries : List (String × Node))
    {out : Outcome} (h : copyEntries copyDir src target entries t = some out) :
    copyEntries copyDir' src target entries t = some out := by
  induction entries generalizing t out with
  | nil => exact h
  | cons e entries ih =>
    obtain ⟨name, x⟩ := e
    rw [copyEntries_cons] at h ⊢
    obtain ⟨⟨res, t'⟩, hfirst, hrest⟩ := Option.bind_eq_some_iff.mp h
    refine Option.bind_eq_some_iff.mpr ⟨(res, t'), ?_, ?_⟩
    · split_ifs at hfirst ⊢
      · exact hdir _ _ _ _ hfirst
      · exact hfirst
    · cases res with
      | error e => exact hrest
      | ok u => exact ih hrest

theorem copyDirRecursive_mono {depth' : ℕ} (hd : depth ≤ depth') {out : Outcome}
    (h : copyDirRecursive depth t src target = some out) :
    copyDirRecursive depth' t src target = some out := by
  induction depth generalizing depth' t src target out with
  | zero => cases h
  | succ depth ih =>
    obtain ⟨depth', rfl⟩ : ∃ k, depth' = k + 1 := Nat.exists_eq_succ_of_ne_zero (by omega)
    rw [copyDirRecursive_succ] at h ⊢
    cases hcreate : createDirAll t target with
    | mk res t' =>
      rw [hcreate] at h
      cases res with
      | error e => exact h
      | ok u =>
        rw [andThen, copyListing] at h ⊢
        cases hread : readDir t' src with
        | error e =>
          rw [hread] at h
          exact h
        | ok entries =>
          rw [hread] at h
          exact copyEntries_mono (fun _ _ _ _ => ih (by omega)) entries h

theorem copy_mono {depth' : ℕ} (hd : depth ≤ depth') {options : CopyOptions} {out : Outcome}
    (h : copy depth t src destination options = some out) : copy depth' t src destination options = some out := by
  unfold copy at h ⊢
  split at h
  · exact h
  · split_ifs at h ⊢ with hrecursive
    · exact h
    · split at h
      · exact h
      · exact h
      · exact copyDirRecursive_mono hd h
  · exact h
  · exact h

theorem not_safe_of_spoils (h : judge t src destination = .spoils) : ¬Safe t src destination := by
  rintro ⟨depth, ⟨res, t'⟩, hrun, hsafe⟩
  cases hmeta : symlinkMetadata t src with
  | error e =>
    rw [judge, hmeta] at h
    cases h
  | ok x =>
    obtain ⟨l, hl, hsource, hreads⟩ := entryAt_of hmeta
    obtain ⟨hkept, -⟩ := hsafe l hl
    rw [judge, hmeta, hl] at h
    cases x with
    | link linkTarget => cases h
    | file contents =>
      simp only at h
      split_ifs at h with hself
      obtain ⟨hleads, hne⟩ := hself
      -- what it reads is what is left after it has been emptied
      have hget : ∀ k, (t.write l []).get k = if k = l then some (.file []) else t.get k := FileTree.get_write hsource
      have hempty : (t.write l []).get l = some (.file []) := by rw [hget, if_pos rfl]
      have hcopy : copyFile t src destination = .ok ((t.write l []).write l []) := by
        rw [copyFile_of (hreads (by simp)) hsource, openTruncated, hleads]
        simp [hsource, contentsAt, hempty]
      have hcopied : t' = (t.write l []).write l [] := by
        rw [copy, hmeta] at hrun
        simp only [hcopy] at hrun
        cases hrun
        rfl
      have hl' := hkept []
      rw [List.append_nil, hcopied, FileTree.get_write hempty, if_pos rfl, hsource] at hl'
      cases hl'
      exact hne rfl
    | dir =>
      obtain ⟨place, hplace⟩ := exists_resolve t destination
      have hguard := guard_eq (hreads (by simp)) hplace
      simp only [hguard] at h
      cases hin : l.isPrefixOf place with
      | true =>
        rw [hin] at h
        cases h
      | false =>
        rw [hin] at h hguard
        simp only at h
        split_ifs at h with hthere
        obtain ⟨place', hleads, hdir⟩ := isDir_iff.mp hthere
        have hdeeper : copyListing (depth + t.depth) src destination t = some (res, t') := by
          have hrun' := copy_mono (Nat.le_add_right depth (t.depth + 1)) hrun
          rw [copy, hmeta] at hrun'
          simpa [hguard, ← Nat.add_assoc, copyDirRecursive_succ, createDirAll_there hleads hdir, andThen] using hrun'
        have hwent := copyListing_went (by simp) (Nat.le_add_left t.depth depth) (hreads (by simp)) hsource hleads hdir h
        rw [hdeeper] at hwent
        cases hwent with
        | stopped hv => cases hv
        | arrived _ _ _ hv => cases hv
        | spoilt _ hspoilt =>
          obtain ⟨m, ⟨r, rfl⟩, hnone, hthere'⟩ := hspoilt _ rfl
          exact hthere' ((hkept r).trans hnone)

/-- Over every tree and all paths. -/
theorem copy_safe (t : FileTree) (source destination : AbsPath) :
    (judge t source destination = .fits → Safe t source destination) ∧
      (judge t source destination = .spoils → ¬Safe t source destination) :=
  ⟨safe_of_fits, not_safe_of_spoils⟩

/-- `/d/a` leads out of the source, to a directory with a file of the same name. -/
def linkedOut : FileTree where
  nodes := [(["s"], .dir), (["s", "a"], .dir), (["s", "a", "f"], .file [1, 2]), (["s", "l"], .link "a/f"), (["d"], .dir),
    (["d", "a"], .link "/e"), (["e"], .dir), (["e", "f"], .file [3])]
  root := by decide
  unique := by decide
  parents := by decide

/-- `/d/a` leads to a directory below the one that is copied there. -/
def linkedIn : FileTree where
  nodes := [(["s"], .dir), (["s", "a"], .dir), (["s", "a", "b"], .dir), (["d"], .dir), (["d", "a"], .link "/s/a/b")]
  root := by decide
  unique := by decide
  parents := by decide

theorem linked_safe : Safe linkedOut ["s"] ["d"] ∧ ¬Safe linkedIn ["s"] ["d"] :=
  ⟨(copy_safe linkedOut ["s"] ["d"]).1 (by decide), (copy_safe linkedIn ["s"] ["d"]).2 (by decide)⟩

/-- `/d/a` leads to the directory itself that is copied there. -/
def linkedBack : FileTree where
  nodes := [(["s"], .dir), (["s", "a"], .dir), (["s", "a", "f"], .file [1, 2]), (["d"], .dir), (["d", "a"], .link "/s/a")]
  root := by decide
  unique := by decide
  parents := by decide

theorem linkedBack_emptied : ¬Safe linkedBack ["s"] ["d"] := by
  rintro ⟨depth, ⟨res, t'⟩, hrun, hsafe⟩
  have hempty : (copy 5 linkedBack ["s"] ["d"] ⟨true⟩).map (fun out => out.2.get ["s", "a", "f"]) =
    some (some (.file [])) := by decide
  obtain ⟨out, hout, hget⟩ := Option.map_eq_some_iff.mp hempty
  have heq := (copy_mono (Nat.le_add_right 5 depth) hout).symm.trans (copy_mono (Nat.le_add_left depth 5) hrun)
  cases heq
  have hkept := (hsafe ["s"] (by decide)).1 ["a", "f"]
  have hbefore : linkedBack.get (["s"] ++ ["a", "f"]) = some (.file [1, 2]) := by decide
  rw [hbefore] at hkept
  cases hget.symm.trans hkept

end Nexal.LocalFs
