import Nexal.Lib.FileTree

/-! How the kernel finds its way through a tree of directories, files and links, and what stays of it when the tree grows:
where a path has led, or that it leads nowhere, stays so; only a place that was missing may appear. -/

namespace Nexal.PathWalk

open UnixPath (Location Component isAbsolute parse)

inductive Walk where
  | found (l : Location)
  /-- the directory has no such entry; what would have come after it -/
  | absent (dir : Location) (name : String) (rest : List Component)
  | notADirectory
  /-- too many links -/
  | loop
deriving DecidableEq

/-- Up to the next link. -/
def steps (t : FileTree) (follow : Location → String → List Component → Walk) : Location → List Component → Walk
  | l, [] => .found l
  | l, c :: rest =>
    if t.get l = some .dir then
      match c with
      | .normal name =>
        match t.get (l ++ [name]) with
        | none => .absent l name rest
        | some (.link target) => follow l target rest
        | some _ => steps t follow (l ++ [name]) rest
      | .parentDir => steps t follow l.dropLast rest
      | _ => steps t follow l rest
    else .notADirectory

/-- With so many links that may be followed. -/
def walk (t : FileTree) : ℕ → Location → List Component → Walk
  | 0 => steps t fun _ _ _ => .loop
  | k + 1 => steps t fun l target rest => walk t k (if isAbsolute target then [] else l) (parse target ++ rest)

/-- Through a link in the directory. -/
def through (t : FileTree) : ℕ → Location → String → List Component → Walk
  | 0, _, _, _ => .loop
  | k + 1, l, target, rest => walk t k (if isAbsolute target then [] else l) (parse target ++ rest)

/-- Nothing is taken away and no link is turned. -/
structure Grows (t t' : FileTree) : Prop where
  dir : ∀ l, t.get l = some .dir → t'.get l = some .dir
  file : ∀ l contents, t.get l = some (.file contents) → ∃ contents', t'.get l = some (.file contents')
  link : ∀ l target, t.get l = some (.link target) → t'.get l = some (.link target)

variable {t t' t'' : FileTree} {k : ℕ} {l m dir : Location} {name target : String} {c : Component}
  {cs rest : List Component} {x : Node}

theorem Grows.refl (t : FileTree) : Grows t t := ⟨fun _ h => h, fun _ c h => ⟨c, h⟩, fun _ _ h => h⟩

theorem Grows.trans (h : Grows t t') (h' : Grows t' t'') : Grows t t'' := by
  refine ⟨fun l hl => h'.dir l (h.dir l hl), fun l contents hl => ?_,
    fun l target hl => h'.link l target (h.link l target hl)⟩
  obtain ⟨contents', hl'⟩ := h.file l contents hl
  exact h'.file l contents' hl'

/-- Less in a tree is a tree that has grown to the whole. -/
theorem grows_of_sub (h : ∀ l x, t.get l = some x → t'.get l = some x) : Grows t t' :=
  ⟨fun l hl => h l _ hl, fun l c hl => ⟨c, h l _ hl⟩, fun l _ hl => h l _ hl⟩

theorem Grows.exists_get (h : Grows t t') (hl : t.get l = some x) : ∃ y, t'.get l = some y := by
  cases x with
  | dir => exact ⟨_, h.dir l hl⟩
  | file contents =>
    obtain ⟨contents', hl'⟩ := h.file l contents hl
    exact ⟨_, hl'⟩
  | link target => exact ⟨_, h.link l target hl⟩

theorem grows_create (hdir : t.get dir = some .dir) (hfree : t.get (dir ++ [name]) = none) :
    Grows t (t.create dir name x) := by
  have hget := FileTree.get_create (x := x) hdir hfree
  have hne : ∀ l y, t.get l = some y → l ≠ dir ++ [name] := by
    rintro l y hl rfl
    rw [hfree] at hl
    cases hl
  refine ⟨fun l hl => ?_, fun l contents hl => ⟨contents, ?_⟩, fun l target hl => ?_⟩ <;>
    rw [hget, if_neg (hne l _ hl), hl]

theorem grows_write {old contents : List UInt8} (hfile : t.get l = some (.file old)) : Grows t (t.write l contents) := by
  have hget : ∀ m, (t.write l contents).get m = if m = l then some (.file contents) else t.get m :=
    FileTree.get_write hfile
  refine ⟨fun m hm => ?_, fun m c hm => ?_, fun m target hm => ?_⟩
  · rw [hget, if_neg (fun heq => by rw [heq, hfile] at hm; cases hm), hm]
  · rw [hget]
    split_ifs with heq
    · exact ⟨_, rfl⟩
    · exact ⟨_, hm⟩
  · rw [hget, if_neg (fun heq => by rw [heq, hfile] at hm; cases hm), hm]

/-! One step of a walk -/

theorem walk_eq (k : ℕ) : walk t k = steps t (through t k) := by cases k <;> rfl

@[simp] theorem walk_nil : walk t k l [] = .found l := by rw [walk_eq, steps]

theorem walk_not_dir (hl : t.get l ≠ some .dir) : walk t k l (c :: cs) = .notADirectory := by
  rw [walk_eq]
  cases c <;> simp [steps, hl]

theorem walk_absent (hl : t.get l = some .dir) (h : t.get (l ++ [name]) = none) :
    walk t k l (.normal name :: rest) = .absent l name rest := by
  rw [walk_eq, steps, if_pos hl]
  simp only [h]

theorem walk_link (hl : t.get l = some .dir) (h : t.get (l ++ [name]) = some (.link target)) :
    walk t k l (.normal name :: rest) = through t k l target rest := by
  rw [walk_eq, steps, if_pos hl]
  simp only [h]

theorem walk_into (hl : t.get l = some .dir) (h : t.get (l ++ [name]) = some x) (hx : ∀ target, x ≠ .link target) :
    walk t k l (.normal name :: rest) = walk t k (l ++ [name]) rest := by
  rw [walk_eq, steps, if_pos hl]
  cases x with
  | link target => exact absurd rfl (hx target)
  | dir => simp only [h]
  | file contents => simp only [h]

theorem walk_up (hl : t.get l = some .dir) : walk t k l (.parentDir :: rest) = walk t k l.dropLast rest := by
  rw [walk_eq, steps, if_pos hl]

theorem walk_stay (hl : t.get l = some .dir) (hc : c = .curDir ∨ c = .rootDir) :
    walk t k l (c :: rest) = walk t k l rest := by
  rw [walk_eq]
  rcases hc with rfl | rfl <;> simp [steps, hl]

theorem get_dropLast (h : t.get l = some .dir) : t.get l.dropLast = some .dir := by
  rcases List.eq_nil_or_concat' l with rfl | ⟨l, name, rfl⟩
  · exact h
  · rw [List.dropLast_concat]
    exact FileTree.get_parent h

def start (l : Location) (target : String) : Location := if isAbsolute target then [] else l

/-- The cases of a walk, and of how it goes on. -/
theorem walk_induction {P : ℕ → Location → List Component → Walk → Prop}
    (nil : ∀ k l, P k l [] (.found l))
    (notDir : ∀ k l c rest, t.get l ≠ some .dir → P k l (c :: rest) .notADirectory)
    (absent : ∀ k l name rest, t.get l = some .dir → t.get (l ++ [name]) = none →
      P k l (.normal name :: rest) (.absent l name rest))
    (loop : ∀ l name target rest, t.get l = some .dir → t.get (l ++ [name]) = some (.link target) →
      P 0 l (.normal name :: rest) .loop)
    (link : ∀ k l name target rest, t.get l = some .dir → t.get (l ++ [name]) = some (.link target) →
      P k (start l target) (parse target ++ rest) (walk t k (start l target) (parse target ++ rest)) →
      P (k + 1) l (.normal name :: rest) (walk t k (start l target) (parse target ++ rest)))
    (into : ∀ k l name x rest, t.get l = some .dir → t.get (l ++ [name]) = some x →
      (∀ target, x ≠ .link target) →
      P k (l ++ [name]) rest (walk t k (l ++ [name]) rest) →
      P k l (.normal name :: rest) (walk t k (l ++ [name]) rest))
    (up : ∀ k l rest, t.get l = some .dir → P k l.dropLast rest (walk t k l.dropLast rest) →
      P k l (.parentDir :: rest) (walk t k l.dropLast rest))
    (stay : ∀ k l c rest, t.get l = some .dir → c = .curDir ∨ c = .rootDir → P k l rest (walk t k l rest) →
      P k l (c :: rest) (walk t k l rest))
    (k : ℕ) (l : Location) (cs : List Component) : P k l cs (walk t k l cs) := by
  induction k generalizing l cs with
  | zero =>
    induction cs generalizing l with
    | nil =>
      rw [walk_nil]
      exact nil 0 l
    | cons c rest ih =>
      by_cases hl : t.get l = some .dir
      · cases c with
        | normal name =>
          cases hentry : t.get (l ++ [name]) with
          | none =>
            rw [walk_absent hl hentry]
            exact absent 0 l name rest hl hentry
          | some x =>
            by_cases hlink : ∃ target, x = .link target
            · obtain ⟨target, rfl⟩ := hlink
              rw [walk_link hl hentry]
              exact loop l name target rest hl hentry
            · rw [walk_into hl hentry (not_exists.mp hlink)]
              exact into 0 l name x rest hl hentry (not_exists.mp hlink) (ih _)
        | parentDir =>
          rw [walk_up hl]
          exact up 0 l rest hl (ih _)
        | curDir =>
          rw [walk_stay hl (Or.inl rfl)]
          exact stay 0 l _ rest hl (Or.inl rfl) (ih _)
        | rootDir =>
          rw [walk_stay hl (Or.inr rfl)]
          exact stay 0 l _ rest hl (Or.inr rfl) (ih _)
      · rw [walk_not_dir hl]
        exact notDir 0 l c rest hl
  | succ k ihk =>
    induction cs generalizing l with
    | nil =>
      rw [walk_nil]
      exact nil (k + 1) l
    | cons c rest ih =>
      by_cases hl : t.get l = some .dir
      · cases c with
        | normal name =>
          cases hentry : t.get (l ++ [name]) with
          | none =>
            rw [walk_absent hl hentry]
            exact absent (k + 1) l name rest hl hentry
          | some x =>
            by_cases hlink : ∃ target, x = .link target
            · obtain ⟨target, rfl⟩ := hlink
              rw [walk_link hl hentry]
              exact link k l name target rest hl hentry (ihk _ _)
            · rw [walk_into hl hentry (not_exists.mp hlink)]
              exact into (k + 1) l name x rest hl hentry (not_exists.mp hlink) (ih _)
        | parentDir =>
          rw [walk_up hl]
          exact up (k + 1) l rest hl (ih _)
        | curDir =>
          rw [walk_stay hl (Or.inl rfl)]
          exact stay (k + 1) l _ rest hl (Or.inl rfl) (ih _)
        | rootDir =>
          rw [walk_stay hl (Or.inr rfl)]
          exact stay (k + 1) l _ rest hl (Or.inr rfl) (ih _)
      · rw [walk_not_dir hl]
        exact notDir (k + 1) l c rest hl

/-! What a growing tree keeps -/

theorem start_dir (hl : t.get l = some .dir) : t.get (start l target) = some .dir := by
  unfold start
  split_ifs
  · exact FileTree.get_root t
  · exact hl

theorem Grows.not_dir (h : Grows t t') (hl : t.get l = some x) (hx : x ≠ .dir) : t'.get l ≠ some .dir := by
  cases x with
  | dir => exact absurd rfl hx
  | file contents =>
    obtain ⟨contents', hl'⟩ := h.file l contents hl
    simp [hl']
  | link target => simp [h.link l target hl]

theorem Grows.into (h : Grows t t') (hl : t.get l = some x) (hx : ∀ target, x ≠ .link target) :
    ∃ y, t'.get l = some y ∧ ∀ target, y ≠ .link target := by
  cases x with
  | dir => exact ⟨_, h.dir l hl, by simp⟩
  | file contents =>
    obtain ⟨contents', hl'⟩ := h.file l contents hl
    exact ⟨_, hl', by simp⟩
  | link target => exact absurd rfl (hx target)

/-- A walk that did not come upon a missing entry ends as it did. -/
theorem walk_grows (h : Grows t t') (hl : t.get l = some x)
    (habsent : ∀ dir name rest, walk t k l cs ≠ .absent dir name rest) :
    walk t' k l cs = walk t k l cs := by
  have hall : ∀ x, t.get l = some x → (∀ dir name rest, walk t k l cs ≠ .absent dir name rest) →
      walk t' k l cs = walk t k l cs := by
    refine walk_induction (t := t) (P := fun k l cs r => ∀ x, t.get l = some x →
      (∀ dir name rest, r ≠ .absent dir name rest) →
      walk t' k l cs = r) ?nil ?notDir ?absent ?loop ?link ?into ?up ?stay k l cs
    case nil => exact fun k l x _ _ => walk_nil
    case notDir =>
      intro k l c rest hl x hx _
      refine walk_not_dir (h.not_dir hx ?_)
      rintro rfl
      exact hl hx
    case absent => exact fun k l name rest _ _ x _ hr => absurd rfl (hr l name rest)
    case loop =>
      intro l name target rest hl hentry x _ _
      rw [walk_link (h.dir l hl) (h.link _ _ hentry)]
      rfl
    case link =>
      intro k l name target rest hl hentry ih x _ hr
      rw [walk_link (h.dir l hl) (h.link _ _ hentry)]
      exact ih .dir (start_dir hl) hr
    case into =>
      intro k l name x rest hl hentry hx ih _ _ hr
      obtain ⟨y, hy, hlink⟩ := h.into hentry hx
      rw [walk_into (h.dir l hl) hy hlink]
      exact ih x hentry hr
    case up =>
      intro k l rest hl ih _ _ hr
      rw [walk_up (h.dir l hl)]
      exact ih .dir (get_dropLast hl) hr
    case stay =>
      intro k l c rest hl hc ih x hx hr
      rw [walk_stay (h.dir l hl) hc]
      exact ih x hx hr
  exact hall x hl habsent

/-- A walk that came upon a missing entry goes on from there. -/
theorem walk_grows_absent (h : Grows t t') (hwalk : walk t k l cs = .absent dir name rest) :
    t.get dir = some .dir ∧ t.get (dir ++ [name]) = none ∧
    ∃ k', walk t' k l cs = walk t' k' dir (.normal name :: rest) := by
  have hall : ∀ dir name rest, walk t k l cs = .absent dir name rest →
    t.get dir = some .dir ∧ t.get (dir ++ [name]) = none ∧
      ∃ k', walk t' k l cs = walk t' k' dir (.normal name :: rest) := by
    refine walk_induction (t := t) (P := fun k l cs r => ∀ dir name rest, r = .absent dir name rest →
      t.get dir = some .dir ∧ t.get (dir ++ [name]) = none ∧
        ∃ k', walk t' k l cs = walk t' k' dir (.normal name :: rest))
      ?nil ?notDir ?absent ?loop ?link ?into ?up ?stay k l cs
    case nil => exact fun k l dir name rest hr => Walk.noConfusion hr
    case notDir => exact fun k l c rest _ dir name rest' hr => Walk.noConfusion hr
    case absent =>
      rintro k l name rest hl hentry _ _ _ ⟨⟩
      exact ⟨hl, hentry, k, rfl⟩
    case loop => exact fun l name target rest _ _ dir name' rest' hr => Walk.noConfusion hr
    case link =>
      intro k l name target rest hl hentry ih dir name' rest' hr
      obtain ⟨hdir, hfree, k', hk'⟩ := ih dir name' rest' hr
      refine ⟨hdir, hfree, k', ?_⟩
      rw [walk_link (h.dir l hl) (h.link _ _ hentry), ← hk']
      rfl
    case into =>
      intro k l name x rest hl hentry hx ih dir name' rest' hr
      obtain ⟨hdir, hfree, k', hk'⟩ := ih dir name' rest' hr
      obtain ⟨y, hy, hlink⟩ := h.into hentry hx
      exact ⟨hdir, hfree, k', by rw [walk_into (h.dir l hl) hy hlink, hk']⟩
    case up =>
      intro k l rest hl ih dir name' rest' hr
      obtain ⟨hdir, hfree, k', hk'⟩ := ih dir name' rest' hr
      exact ⟨hdir, hfree, k', by rw [walk_up (h.dir l hl), hk']⟩
    case stay =>
      intro k l c rest hl hc ih dir name' rest' hr
      obtain ⟨hdir, hfree, k', hk'⟩ := ih dir name' rest' hr
      exact ⟨hdir, hfree, k', by rw [walk_stay (h.dir l hl) hc, hk']⟩
  exact hall dir name rest hwalk

/-! Longer paths -/

/-- How a walk goes on with more components, after what it came to without them. -/
def GoesOn (t : FileTree) (k : ℕ) (l : Location) (cs : List Component) : Walk → Prop
  | .found m => ∃ k', ∀ more, walk t k l (cs ++ more) = walk t k' m more
  | .absent dir name rest => ∀ more, walk t k l (cs ++ more) = .absent dir name (rest ++ more)
  | .notADirectory => ∀ more, walk t k l (cs ++ more) = .notADirectory
  | .loop => ∀ more, walk t k l (cs ++ more) = .loop

theorem GoesOn.step {k' : ℕ} {l' : Location} {cs' : List Component} {r : Walk}
    (hstep : ∀ more, walk t k l (cs ++ more) = walk t k' l' (cs' ++ more)) (h : GoesOn t k' l' cs' r) :
    GoesOn t k l cs r := by
  cases r <;> simpa only [GoesOn, hstep] using h

theorem walk_append (k : ℕ) (l : Location) (cs : List Component) : GoesOn t k l cs (walk t k l cs) := by
  refine walk_induction (P := GoesOn t) ?nil ?notDir ?absent ?loop ?link ?into ?up ?stay k l cs
  case nil => exact fun k l => ⟨k, fun more => rfl⟩
  case notDir => exact fun k l c rest hl more => walk_not_dir hl
  case absent => exact fun k l name rest hl hentry more => walk_absent hl hentry
  case loop => exact fun l name target rest hl hentry more => walk_link hl hentry
  case link =>
    refine fun k l name target rest hl hentry ih => ih.step fun more => ?_
    rw [List.cons_append, walk_link hl hentry, List.append_assoc]
    rfl
  case into => exact fun k l name x rest hl hentry hx ih => ih.step fun more => walk_into hl hentry hx
  case up => exact fun k l rest hl ih => ih.step fun more => walk_up hl
  case stay => exact fun k l c rest hl hc ih => ih.step fun more => walk_stay hl hc

/-- A walk does not end at a link. -/
theorem found_node (hl : t.get l = some .dir) (h : walk t k l cs = .found m) :
    ∃ x, t.get m = some x ∧ ∀ target, x ≠ .link target := by
  have hall : (∃ x, t.get l = some x ∧ ∀ target, x ≠ .link target) → ∀ m, walk t k l cs = .found m →
      ∃ x, t.get m = some x ∧ ∀ target, x ≠ .link target := by
    refine walk_induction (t := t) (P := fun k l cs r => (∃ x, t.get l = some x ∧ ∀ target, x ≠ .link target) →
      ∀ m, r = .found m → ∃ x, t.get m = some x ∧ ∀ target, x ≠ .link target)
      ?nil ?notDir ?absent ?loop ?link ?into ?up ?stay k l cs
    case nil =>
      rintro k l hl _ ⟨⟩
      exact hl
    case notDir => exact fun k l c rest _ _ m hr => Walk.noConfusion hr
    case absent => exact fun k l name rest _ _ _ m hr => Walk.noConfusion hr
    case loop => exact fun l name target rest _ _ _ m hr => Walk.noConfusion hr
    case link => exact fun k l name target rest hl _ ih _ => ih ⟨.dir, start_dir hl, by simp⟩
    case into => exact fun k l name x rest _ hentry hx ih _ => ih ⟨x, hentry, hx⟩
    case up => exact fun k l rest hl ih _ => ih ⟨.dir, get_dropLast hl, by simp⟩
    case stay => exact fun k l c rest _ _ ih => ih
  exact hall ⟨.dir, hl, by simp⟩ m h

end Nexal.PathWalk
