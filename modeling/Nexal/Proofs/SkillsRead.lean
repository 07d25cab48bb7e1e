import Nexal.Proofs.SkillsReaddir
import Nexal.Spec.SkillsService

/-! A skill file is read below the skills directory or not at all, whatever path is asked for, and what `list` names may
be read. -/

namespace Nexal.SkillsService

open SkillsTree (SkillInfo SkillFileInfo)
open SlashPath (split)
open UnixPath

variable {p rel skillsDir : String} {target : Location → String → Option Location} {cwd : Location}

/-! The checks -/

theorem checkComponents_ok {cs : List Component} :
    checkComponents cs = .ok () ↔ ∀ c ∈ cs, ∃ name, c = .normal name := by
  induction cs with
  | nil => simp [checkComponents]
  | cons c cs ih => cases c <;> simp [checkComponents, ih]

theorem sanitizePath_ok : sanitizePath p = .ok rel ↔
    rel = p ∧ isAbsolute p = false ∧ ∀ c ∈ components p, ∃ name, c = .normal name := by
  rw [sanitizePath]
  split_ifs with habs
  · simp [habs]
  · rw [Bool.not_eq_true] at habs
    rw [← checkComponents_ok]
    cases hcheck : checkComponents (components p) <;> simp [Except.map, habs, eq_comm]

theorem parentDir_not_mem (h : ∀ c ∈ components p, ∃ name, c = .normal name) : .parentDir ∉ parse p := by
  intro hmem
  have hrest : .parentDir ∈ (parse p).filter (· ≠ .curDir) := List.mem_filter.mpr ⟨hmem, by decide⟩
  have hcomponents : .parentDir ∈ components p := by
    rw [components]
    split_ifs
    · exact List.mem_cons_of_mem _ hrest
    · exact List.mem_cons_of_mem _ hrest
    · exact hrest
  obtain ⟨name, hname⟩ := h _ hcomponents
  cases hname

/-- Accepted: segments of which none is a step up and the first not a dot or empty. -/
theorem sanitizePath_of_split {first : String} {rest : List String} (hsplit : split p = first :: rest)
    (hfirst : first ≠ "" ∧ first ≠ ".") (hup : ∀ x ∈ split p, x ≠ "..") : sanitizePath p = .ok p := by
  have habs : isAbsolute p = false := by
    by_contra hroot
    obtain ⟨tail, htail⟩ := List.head?_eq_some_iff.mp (of_decide_eq_true (Bool.not_eq_false _ ▸ hroot))
    have hp : p = "" ++ "/" ++ String.ofList tail := by
      rw [← String.toList_inj, htail]
      simp
    rw [hp, split_slash] at hsplit
    exact hfirst.1 (List.cons.inj hsplit).1.symm
  refine sanitizePath_ok.mpr ⟨rfl, habs, fun c hc => ?_⟩
  have hhead : ¬(split p).head? = some "." := by
    rw [hsplit]
    simpa using hfirst.2
  rw [components, habs, if_neg hhead] at hc
  obtain ⟨hmem, hdot⟩ := List.mem_filter.mp hc
  obtain ⟨x, hx, rfl⟩ := List.mem_map.mp hmem
  unfold component at hdot ⊢
  split_ifs with h h'
  · rw [if_pos h] at hdot
    exact absurd hdot (by decide)
  · exact absurd h' (hup x hx)
  · exact ⟨x, rfl⟩

/-! What a call reads -/

def Rejected (skillsDir path : String) : Prop := ∃ e, ∀ fsRead, read fsRead skillsDir path = .error e

def ReadsAt (skillsDir path full : String) : Prop :=
  ∀ fsRead, read fsRead skillsDir path = (fsRead full).mapError fun e => "read " ++ path ++ ": " ++ e

theorem readsAt_of_sanitize (h : sanitizePath p = .ok rel) : ReadsAt skillsDir p (push skillsDir p) := by
  obtain ⟨rfl, habs, -⟩ := sanitizePath_ok.mp h
  intro fsRead
  rw [read, h]
  exact if_pos (startsWith_push habs)

theorem ReadsAt.not_rejected {full : String} (h : ReadsAt skillsDir p full) : ¬Rejected skillsDir p := by
  rintro ⟨e, he⟩
  have hread := h fun _ => .ok []
  rw [he] at hread
  cases hread

/-- A call reads in one place. -/
theorem ReadsAt.unique {full full' : String} (h : ReadsAt skillsDir p full) (h' : ReadsAt skillsDir p full') :
    full = full' := by
  have hread := (h fun q => if q = full then .ok [] else .error "").symm.trans (h' _)
  by_contra hne
  simp [Except.mapError, Ne.symm hne] at hread

theorem rejected_of_sanitize {e : String} (h : sanitizePath p = .error e) : Rejected skillsDir p :=
  ⟨e, fun fsRead => by rw [read, h]; rfl⟩

theorem resolve_below (hlinks : ∀ dir, resolve target cwd skillsDir = some dir → NoLinks target dir)
    (h : sanitizePath p = .ok rel) {l : Location} (hl : resolve target cwd (push skillsDir p) = some l) :
    ∃ dir, resolve target cwd skillsDir = some dir ∧ dir <+: l := by
  obtain ⟨-, habs, hnormal⟩ := sanitizePath_ok.mp h
  rw [resolve_push habs] at hl
  obtain ⟨dir, hdir, hwalk⟩ := Option.bind_eq_some_iff.mp hl
  exact ⟨dir, hdir, walk_below (hlinks dir hdir) (List.prefix_refl _) (parentDir_not_mem hnormal) hwalk⟩

/-! What `list` names -/

theorem relPath_cons (name : FileName) {path : List FileName} (hne : path ≠ []) :
    relPath (name :: path) = name.lossy ++ "/" ++ relPath path := by
  obtain ⟨next, rest, rfl⟩ := List.exists_cons_of_ne_nil hne
  have hbytes : [0x2F].intercalate ((name :: next :: rest).map (·.bytes)) =
      name.bytes ++ 0x2F :: [0x2F].intercalate ((next :: rest).map (·.bytes)) := by
    simp [List.intercalate]
  rw [relPath, hbytes, Utf8.decode_slash]
  rfl

theorem split_relPath {path : List FileName} (hne : path ≠ []) : split (relPath path) = path.map (·.lossy) := by
  induction path with
  | nil => exact absurd rfl hne
  | cons name path ih =>
    have hname : split name.lossy = [name.lossy] := by
      have hplain : SlashPath.Plain [name.lossy] := fun x hx => List.mem_singleton.mp hx ▸ lossy_slashFree name
      simpa [SlashPath.join_singleton] using SlashPath.split_join hplain (by simp)
    rcases eq_or_ne path [] with rfl | hpath
    · simpa [relPath, FileName.lossy, List.intercalate] using hname
    · rw [relPath_cons name hpath, split_slash, hname, ih hpath]
      rfl

theorem lossy_ne_dots {name : FileName} (h : skipped name = false) : name.lossy ≠ ".." := by
  intro hdots
  rw [skipped, hdots] at h
  exact absurd h (by decide)

theorem collectFiles_path {rd : ReadDir} {dir : List FileName} {files : List SkillFileInfo}
    (h : collectFiles dir rd = some files) : ∀ file ∈ files,
      ∃ path, path ≠ [] ∧ file.path = relPath (dir ++ path) ∧
      ∀ name ∈ path, skipped name = false := by
  induction rd generalizing dir files with
  | done =>
    cases h
    simp
  | broken => cases h
  | dir name inside rest ihinside ihrest =>
    rw [collectFiles] at h
    split_ifs at h with hskip
    · exact ihrest h
    · obtain ⟨more, hmore, h⟩ := Option.bind_eq_some_iff.mp h
      obtain ⟨others, hothers, rfl⟩ := Option.map_eq_some_iff.mp h
      intro file hfile
      rcases List.mem_append.mp hfile with hin | hout
      · obtain ⟨path, hne, hpath, hplain⟩ := ihinside hmore file hin
        refine ⟨name :: path, by simp, by rw [hpath, List.append_assoc, List.singleton_append], ?_⟩
        exact List.forall_mem_cons.mpr ⟨Bool.not_eq_true _ ▸ hskip, hplain⟩
      · exact ihrest hothers file hout
  | file name len rest ih =>
    rw [collectFiles] at h
    split_ifs at h with hskip
    · exact ih h
    · obtain ⟨others, hothers, rfl⟩ := Option.map_eq_some_iff.mp h
      refine List.forall_mem_cons.mpr ⟨⟨[name], by simp, rfl, ?_⟩, ih hothers⟩
      simpa using hskip
  | other name rest ih => exact ih h

theorem collectSkills_path {rd : ReadDir} {skills : List SkillInfo} (h : collectSkills rd = some skills) :
    ∀ skill ∈ skills, ∀ file ∈ skill.files, ∃ path, path ≠ [] ∧ file.path = relPath path ∧
      ∀ name ∈ path, skipped name = false := by
  induction rd generalizing skills with
  | done =>
    cases h
    simp
  | broken => cases h
  | dir name inside rest _ ih =>
    rw [collectSkills] at h
    split_ifs at h
    · exact ih h
    · obtain ⟨files, hfiles, h⟩ := Option.bind_eq_some_iff.mp h
      obtain ⟨more, hmore, rfl⟩ := Option.map_eq_some_iff.mp h
      exact List.forall_mem_cons.mpr ⟨collectFiles_path hfiles, ih hmore⟩
  | file name len rest ih => exact ih h
  | other name rest ih => exact ih h

structure PlainName (name : String) : Prop where
  noSlash : '/' ∉ name.toList
  ne_empty : name ≠ ""
  ne_dot : name ≠ "."
  ne_dots : name ≠ ".."

theorem sanitizePath_listed {rd : ReadDir} {skills : List SkillInfo} (hlist : list rd = some skills) {skill : SkillInfo}
    (hskill : skill ∈ skills) (hname : PlainName skill.name) {file : SkillFileInfo} (hfile : file ∈ skill.files) :
    sanitizePath (skill.name ++ "/" ++ file.path) = .ok (skill.name ++ "/" ++ file.path) := by
  obtain ⟨found, hfound, rfl⟩ := Option.map_eq_some_iff.mp hlist
  obtain ⟨path, hne, hpath, hskip⟩ := collectSkills_path hfound skill (List.mem_mergeSort.mp hskill) file hfile
  have hplain : SlashPath.Plain [skill.name] := fun x hx => List.mem_singleton.mp hx ▸ hname.noSlash
  have hsingle : split skill.name = [skill.name] := by
    simpa [SlashPath.join_singleton] using SlashPath.split_join hplain (by simp)
  have hsplit : split (skill.name ++ "/" ++ file.path) = skill.name :: path.map (·.lossy) := by
    rw [split_slash, hsingle, hpath, split_relPath hne]
    rfl
  refine sanitizePath_of_split hsplit ⟨hname.ne_empty, hname.ne_dot⟩ ?_
  rw [hsplit]
  refine List.forall_mem_cons.mpr ⟨hname.ne_dots, List.forall_mem_map.mpr fun name hmem => ?_⟩
  exact lossy_ne_dots (hskip name hmem)

/-- Whatever path is asked for, it is refused or read below the skills directory; and what `list` has named is read. -/
theorem read_confined (target : Location → String → Option Location) (cwd : Location) (skillsDir : String)
    (hlinks : ∀ dir, resolve target cwd skillsDir = some dir → NoLinks target dir) :
    (∀ path, Rejected skillsDir path ∨ ∃ full, ReadsAt skillsDir path full ∧
      ∀ l, resolve target cwd full = some l → ∃ dir, resolve target cwd skillsDir = some dir ∧ dir <+: l) ∧
    ∀ rd skills, list rd = some skills → ∀ skill ∈ skills, PlainName skill.name → ∀ file ∈ skill.files,
      ReadsAt skillsDir (skill.name ++ "/" ++ file.path) (push skillsDir (skill.name ++ "/" ++ file.path)) := by
  refine ⟨fun path => ?_, fun rd skills hlist skill hskill hname file hfile => ?_⟩
  · cases h : sanitizePath path with
    | error e => exact Or.inl (rejected_of_sanitize h)
    | ok rel => exact Or.inr ⟨push skillsDir path, readsAt_of_sanitize h, fun l hl => resolve_below hlinks h hl⟩
  · exact readsAt_of_sanitize (sanitizePath_listed hlist hskill hname hfile)

def scripted : ReadDir := .dir skillDir (.dir skillDir (.file skillMd 5 .done) .done) .done

theorem list_scripted : list scripted = some [⟨"a", [⟨"a/SKILL.md", 5⟩]⟩] := by
  have hfound : collectSkills scripted = some [⟨"a", [⟨"a/SKILL.md", 5⟩]⟩] := by decide
  rw [list, hfound, Option.map_some, List.mergeSort_singleton]

theorem scripted_confined :
    (∀ l, resolve (fun l name => some (l ++ [name])) [] "/skills/a/./SKILL.md" = some l → ["skills"] <+: l) ∧
      ReadsAt "/skills" "a/a/SKILL.md" "/skills/a/a/SKILL.md" := by
  have hlinks : ∀ dir, resolve (fun l name => some (l ++ [name])) [] "/skills" = some dir →
      NoLinks (fun l name => some (l ++ [name])) dir := fun _ _ _ _ _ _ h => (Option.some.inj h).symm
  obtain ⟨hread, hlisted⟩ := read_confined _ _ _ hlinks
  have hat : ReadsAt "/skills" "a/./SKILL.md" "/skills/a/./SKILL.md" := readsAt_of_sanitize (p := "a/./SKILL.md")
    (by decide : sanitizePath "a/./SKILL.md" = .ok "a/./SKILL.md")
  constructor
  · intro l hl
    obtain hrejected | ⟨full, hfull, hbelow⟩ := hread "a/./SKILL.md"
    · exact absurd hrejected hat.not_rejected
    · obtain ⟨dir, hdir, hprefix⟩ := hbelow l (hfull.unique hat ▸ hl)
      cases hdir
      exact hprefix
  · exact hlisted scripted _ list_scripted ⟨"a", [⟨"a/SKILL.md", 5⟩]⟩ List.mem_cons_self
      ⟨by decide, by decide, by decide, by decide⟩ ⟨"a/SKILL.md", 5⟩ List.mem_cons_self

end Nexal.SkillsService
