import Mathlib.Data.List.Infix

/-! Paths as texts with a slash between their segments, and as the lists of these. -/

namespace Nexal.SlashPath

def join (segments : List String) : String := "/".intercalate segments

def split (path : String) : List String := (path.toList.splitOn '/').map String.ofList

/-- No slash within a segment. -/
def Plain (segments : List String) : Prop := ∀ x ∈ segments, '/' ∉ x.toList

instance (segments : List String) : Decidable (Plain segments) :=
  inferInstanceAs (Decidable (∀ x ∈ segments, '/' ∉ x.toList))

variable {segments segments' : List String} {x y path : String}

theorem Plain.cons (hx : '/' ∉ x.toList) (h : Plain segments) : Plain (x :: segments) :=
  List.forall_mem_cons.mpr ⟨hx, h⟩

theorem Plain.of_isPrefix (h : Plain segments) (hp : segments' <+: segments) : Plain segments' :=
  fun x hx => h x (hp.subset hx)

theorem split_ne_nil (path : String) : split path ≠ [] := by
  simp [split, List.splitOn_ne_nil]

theorem not_mem_splitOn {l part : List Char} {c : Char} (h : part ∈ l.splitOn c) : c ∉ part := by
  induction l generalizing part with
  | nil =>
    rw [List.splitOn_nil, List.mem_singleton] at h
    simp [h]
  | cons d l ih =>
    rw [List.splitOn_cons_eq_if_modifyHead] at h
    obtain ⟨first, rest, hsplit⟩ := List.exists_cons_of_ne_nil (List.splitOn_ne_nil c l)
    rw [hsplit] at h ih
    split_ifs at h with hd
    · rcases List.mem_cons.mp h with rfl | hmem
      · simp
      · exact ih hmem
    · rcases List.mem_cons.mp h with rfl | hmem
      · have hne : c ≠ d := fun heq => hd (by rw [heq, beq_self_eq_true])
        exact List.not_mem_cons_of_ne_of_not_mem hne (ih List.mem_cons_self)
      · exact ih (List.mem_cons_of_mem _ hmem)

theorem plain_split (path : String) : Plain (split path) := by
  intro x hx
  obtain ⟨part, hpart, rfl⟩ := List.mem_map.mp hx
  rw [String.toList_ofList]
  exact not_mem_splitOn hpart

theorem join_split (path : String) : join (split path) = path := by
  have hmap : (split path).map String.toList = path.toList.splitOn '/' := by
    simp [split, Function.comp_def]
  rw [← String.toList_inj, join, String.toList_intercalate, hmap]
  exact List.intercalate_splitOn '/'

theorem split_join (h : Plain segments) (hne : segments ≠ []) : split (join segments) = segments := by
  rw [split, join, String.toList_intercalate]
  have hsplit : (List.intercalate ['/'] (segments.map String.toList)).splitOn '/' = segments.map String.toList :=
    List.splitOn_intercalate '/' (by simpa [Plain] using h) (by simpa using hne)
  have hsep : "/".toList = ['/'] := by decide
  rw [hsep, hsplit, List.map_map]
  simp [Function.comp_def]

theorem join_inj (h : Plain segments) (h' : Plain segments') (hne : segments ≠ []) (hne' : segments' ≠ [])
    (heq : join segments = join segments') : segments = segments' := by
  rw [← split_join h hne, heq, split_join h' hne']

theorem join_cons (hne : segments ≠ []) : join (x :: segments) = x ++ "/" ++ join segments :=
  String.intercalate_cons_of_ne_nil hne

theorem join_singleton : join [x] = x := String.intercalate_singleton

/-- What follows the last slash. -/
def baseName (path : String) : String := (split path).getLastD path

theorem baseName_join (h : Plain segments) (hne : segments ≠ []) : baseName (join segments) = segments.getLast hne := by
  rw [baseName, split_join h hne, List.getLastD_eq_getLast?, List.getLast?_eq_some_getLast hne, Option.getD_some]

end Nexal.SlashPath

/-! Paths of a Unix file system as texts: their components as a path library gives them, and where they lead when the
kernel goes through them one by one. Where an entry of a directory leads is a parameter, so that links may lead anywhere. -/

namespace Nexal.UnixPath

open SlashPath (split join Plain)

inductive Component where
  | rootDir
  | curDir
  | parentDir
  | normal (name : String)
deriving DecidableEq

/-- Names from the root down. -/
abbrev Location := List String

def component (segment : String) : Component :=
  if segment = "" ∨ segment = "." then .curDir else if segment = ".." then .parentDir else .normal segment

/-- Segment by segment; one that is empty stays where it is, as a dot does. -/
def parse (path : String) : List Component := (split path).map component

def isAbsolute (path : String) : Bool := path.toList.head? = some '/'

/-- Without the dots, but for one at the beginning. -/
def components (path : String) : List Component :=
  let rest := (parse path).filter (· ≠ .curDir)
  if isAbsolute path then .rootDir :: rest
  else if (split path).head? = some "." then .curDir :: rest
  else rest

def push (base path : String) : String :=
  if isAbsolute path then path
  else if base = "" ∨ base.toList.getLast? = some '/' then base ++ path
  else base ++ "/" ++ path

def startsWith (path base : String) : Bool := (components base).isPrefixOf (components path)

variable (target : Location → String → Option Location)

def walk : Location → List Component → Option Location
  | l, [] => some l
  | l, .normal name :: rest => (target l name).bind fun l' => walk l' rest
  | l, .parentDir :: rest => walk l.dropLast rest
  | l, _ :: rest => walk l rest

/-- Where the kernel gets to from the working directory. -/
def resolve (cwd : Location) (path : String) : Option Location :=
  walk target (if isAbsolute path then [] else cwd) (parse path)

/-- Below a location every entry leads to a place of its own. -/
def NoLinks (dir : Location) : Prop :=
  ∀ l name l', dir <+: l → target l name = some l' → l' = l ++ [name]

variable {target} {base path : String} {l l' dir cwd : Location} {cs cs' : List Component}

theorem walk_append : walk target l (cs ++ cs') = (walk target l cs).bind fun l' => walk target l' cs' := by
  induction cs generalizing l with
  | nil => rfl
  | cons c cs ih =>
    cases c with
    | normal name =>
      simp only [List.cons_append, walk, Option.bind_assoc]
      exact congrArg _ (funext fun l' => ih)
    | parentDir => exact ih
    | rootDir => exact ih
    | curDir => exact ih

/-- Without steps up a walk stays below where it starts. -/
theorem walk_below (hlinks : NoLinks target dir) (hdir : dir <+: l) (hup : .parentDir ∉ cs)
    (h : walk target l cs = some l') :
    dir <+: l' := by
  induction cs generalizing l with
  | nil =>
    cases h
    exact hdir
  | cons c cs ih =>
    have hrest := fun hmem => hup (List.mem_cons_of_mem c hmem)
    cases c with
    | normal name =>
      obtain ⟨child, hchild, hwalk⟩ := Option.bind_eq_some_iff.mp h
      have heq := hlinks l name child hdir hchild
      exact ih (heq ▸ hdir.trans (List.prefix_append _ _)) hrest hwalk
    | parentDir => exact absurd List.mem_cons_self hup
    | rootDir => exact ih hdir hrest h
    | curDir => exact ih hdir hrest h

theorem split_slash (a b : String) : split (a ++ "/" ++ b) = split a ++ split b := by
  have hplain : Plain (split a ++ split b) := fun x hx => (List.mem_append.mp hx).elim
    (SlashPath.plain_split a x) (SlashPath.plain_split b x)
  have hjoin : ∀ l l' : List String, l ≠ [] → l' ≠ [] → join (l ++ l') = join l ++ "/" ++ join l' := by
    intro l l' hl hl'
    induction l with
    | nil => exact absurd rfl hl
    | cons x l ih =>
      rcases eq_or_ne l [] with rfl | hne
      · rw [List.singleton_append, SlashPath.join_cons hl', SlashPath.join_singleton]
      · rw [List.cons_append, SlashPath.join_cons (by simp [hne]), SlashPath.join_cons hne, ih hne]
        simp only [String.append_assoc]
  have hne := SlashPath.split_ne_nil a
  have hne' := SlashPath.split_ne_nil b
  have h := SlashPath.split_join hplain (List.append_ne_nil_of_left_ne_nil hne _)
  rwa [hjoin _ _ hne hne', SlashPath.join_split, SlashPath.join_split] at h

/-- What a path pushed onto another is made of: its segments follow, with nothing or a dot between. -/
theorem parse_push (hrel : isAbsolute path = false) (hbase : base ≠ "") :
    (∃ front, front ≠ [] ∧ split base = front ++ [""] ∧ split (push base path) = front ++ split path) ∨
      split (push base path) = split base ++ split path := by
  rw [push, hrel]
  simp only [Bool.false_eq_true, if_false, hbase, false_or]
  split_ifs with hlast
  · left
    obtain ⟨front, hfront⟩ : ∃ front, base.toList = front ++ ['/'] := by
      have hne : base.toList ≠ [] := by
        intro hnil
        rw [hnil] at hlast
        cases hlast
      refine ⟨base.toList.dropLast, ?_⟩
      rw [List.getLast?_eq_some_getLast hne, Option.some_inj] at hlast
      rw [← hlast, List.dropLast_append_getLast]
    have hbase : base = String.ofList front ++ "/" := by
      rw [← String.toList_inj, hfront]
      simp
    have hslash := split_slash (String.ofList front) ""
    rw [String.append_empty, ← hbase] at hslash
    refine ⟨split (String.ofList front), SlashPath.split_ne_nil _, hslash, ?_⟩
    rw [hbase, split_slash]
  · exact Or.inr (split_slash base path)

theorem isAbsolute_push (hrel : isAbsolute path = false) (hbase : base ≠ "") :
    isAbsolute (push base path) = isAbsolute base := by
  have hne : base.toList ≠ [] := fun hnil => hbase (String.toList_inj.mp hnil)
  rw [push, hrel]
  simp only [Bool.false_eq_true, if_false, isAbsolute]
  split_ifs
  · rw [String.toList_append, List.head?_append_of_ne_nil _ hne]
  · rw [String.toList_append, String.toList_append, List.append_assoc, List.head?_append_of_ne_nil _ hne]

theorem walk_curDir : walk target l [.curDir] = some l := rfl

/-- A path that is pushed is walked from where the other leads. -/
theorem resolve_push (hrel : isAbsolute path = false) : resolve target cwd (push base path) =
    (resolve target cwd base).bind fun l => walk target l (parse path) := by
  rcases eq_or_ne base "" with rfl | hbase
  · have hpush : push "" path = path := by simp [push, hrel]
    have hempty : parse "" = [.curDir] := by decide
    have hroot : isAbsolute "" = false := by decide
    rw [hpush, resolve, resolve, hrel, hroot, hempty]
    rfl
  · rw [resolve, resolve, isAbsolute_push hrel hbase]
    rcases parse_push hrel hbase with ⟨front, -, hsplit, hpush⟩ | hpush
    · have hdot : component "" = .curDir := by decide
      rw [parse, parse, hsplit, hpush, List.map_append, List.map_append, walk_append, walk_append, List.map_singleton, hdot]
      simp only [walk_curDir]
      rw [Option.bind_fun_some]
      rfl
    · rw [parse, hpush, List.map_append, walk_append]
      rfl

theorem startsWith_push (hrel : isAbsolute path = false) : startsWith (push base path) base = true := by
  rw [startsWith, List.isPrefixOf_iff_prefix]
  rcases eq_or_ne base "" with rfl | hbase
  · have hempty : components "" = [] := by decide
    rw [hempty]
    exact List.nil_prefix
  · have hsame : (split (push base path)).head? = (split base).head? ∧
        (parse base).filter (· ≠ .curDir) <+: (parse (push base path)).filter (· ≠ .curDir) := by
      rcases parse_push hrel hbase with ⟨front, hne, hsplit, hpush⟩ | hpush
      · have hdot : ([""].map component).filter (· ≠ .curDir) = [] := by decide
        rw [parse, parse, hsplit, hpush, List.map_append, List.map_append, List.filter_append, List.filter_append, hdot,
          List.append_nil, List.head?_append_of_ne_nil _ hne, List.head?_append_of_ne_nil _ hne]
        exact ⟨rfl, List.prefix_append _ _⟩
      · rw [parse, parse, hpush, List.map_append, List.filter_append]
        exact ⟨List.head?_append_of_ne_nil _ (SlashPath.split_ne_nil base), List.prefix_append _ _⟩
    rw [components, components, isAbsolute_push hrel hbase, hsame.1]
    split_ifs
    · exact (List.prefix_cons_inj _).mpr hsame.2
    · exact (List.prefix_cons_inj _).mpr hsame.2
    · exact hsame.2

end Nexal.UnixPath
