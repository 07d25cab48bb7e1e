import Nexal.Lib.Runs
import Nexal.Sanity.FileSystem

/-! The agent's file system over runs of requests: what they leave in the store, that what has been written is read
again, and that a removal takes away what it names and nothing else. -/

namespace Nexal.LocalFs

open UnixPath (Location)
open FileOps PathWalk Runs

variable {t t' : FileTree} {path : AbsPath} {l m : Location} {depth : ℕ} {req : Request} {reqs : List Request}
  {contents : List UInt8}

/-! Runs -/

theorem files_of_run (hok : RunOk (step depth) CopiesNoDirectory t reqs) (h : run (step depth) t reqs = some t') :
    files t' = (asked depth t reqs).foldl StoreOp.apply (files t) := by
  induction reqs generalizing t with
  | nil =>
    cases h
    rfl
  | cons req reqs ih =>
    obtain ⟨m, hm, hrest⟩ := run_cons h
    rw [ih (hok.2 m hm) hrest, files_step hok.1 hm, asked, hm]
    rfl

/-- In every run in which no directory is copied the tree holds the files of a store that has been given, one after
the other, what the requests ask; a request that then fails changes no file, unless it was to remove the root. -/
theorem files_run (hok : RunOk (step depth) CopiesNoDirectory t reqs) (h : run (step depth) t reqs = some t') :
    files t' = (asked depth t reqs).foldl StoreOp.apply (files t) ∧
    ∀ req e t₂, CopiesNoDirectory t' req → (∀ recursive force, req ≠ .remove [] recursive force) →
      handle depth t' req = some (.error e, t₂) → files t₂ = files t' :=
  ⟨files_of_run hok h, fun _ _ _ hno hroot hfailed => files_failed hno hroot hfailed⟩

/-- `/l` leads to a file that is not there yet. -/
def dangling : FileTree where
  nodes := [(["d"], .dir), (["l"], .link "/d/f")]
  root := by decide
  unique := by decide
  parents := by decide

theorem files_run_dangling : ∃ t', run (step 0) dangling [.writeFile ["l"] [7], .remove ["l"] none none] = some t' ∧
    files t' = (asked 0 dangling [.writeFile ["l"] [7], .remove ["l"] none none]).foldl StoreOp.apply (files dangling) ∧
    ∀ req e t₂, CopiesNoDirectory t' req → (∀ recursive force, req ≠ .remove [] recursive force) →
      handle 0 t' req = some (.error e, t₂) → files t₂ = files t' :=
  ⟨_, rfl, files_run (runOk_cons rfl trivial (runOk_cons rfl trivial trivial)) rfl⟩

/-! Reading -/

theorem metadata_ok {x : Node} : metadata t path = .ok x ↔ ∃ l, walkTo t path = .found l ∧ t.get l = some x := by
  unfold metadata
  cases hcanon : canonicalize t path with
  | error e =>
    refine iff_of_false (fun h => nomatch h) ?_
    rintro ⟨l, hwalk, -⟩
    exact nomatch hcanon.symm.trans (canonicalize_ok.mpr hwalk)
  | ok l =>
    have hwalk := canonicalize_ok.mp hcanon
    dsimp only
    constructor
    · intro h
      cases hget : t.get l with
      | none =>
        rw [hget] at h
        cases h
      | some y =>
        rw [hget] at h
        cases h
        exact ⟨l, hwalk, hget⟩
    · rintro ⟨m, hm, hget⟩
      rw [hwalk] at hm
      cases hm
      rw [hget]

theorem files_of_found (h : walkTo t path = .found l) :
    (t.get l = some .dir ∧ files t l = none) ∨ ∃ c, t.get l = some (.file c) ∧ files t l = some c := by
  obtain ⟨x, hx, hlink⟩ := walkTo_node h
  cases x with
  | dir =>
    refine Or.inl ⟨hx, ?_⟩
    unfold files
    rw [hx]
  | file c => exact Or.inr ⟨c, hx, files_iff.mpr hx⟩
  | link target => exact absurd rfl (hlink target)

theorem readFile_of {c : List UInt8} (h : metadata t path = .ok (.file c)) : readFile t path =
    if maxReadFileBytes < c.length then
      .error (.invalidInput s!"file is too large to read: limit is {maxReadFileBytes} bytes")
    else .ok c := by
  unfold readFile readContents
  rw [h]
  by_cases hlarge : maxReadFileBytes < c.length
  · rw [if_pos hlarge]
    simp only [bind, Except.bind, if_pos hlarge]
    rfl
  · rw [if_neg hlarge]
    simp only [bind, Except.bind, if_neg hlarge]

/-- What is read is what the store has, unless it is too large. -/
theorem readFile_ok : readFile t path = .ok contents ↔
    ∃ l, walkTo t path = .found l ∧ files t l = some contents ∧ contents.length ≤ maxReadFileBytes := by
  constructor
  · intro h
    cases hmeta : metadata t path with
    | error e =>
      unfold readFile at h
      rw [hmeta] at h
      cases h
    | ok x =>
      obtain ⟨l, hwalk, hget⟩ := metadata_ok.mp hmeta
      rcases files_of_found hwalk with ⟨hdir, -⟩ | ⟨c, hfile, hstore⟩
      · cases hget.symm.trans hdir
        unfold readFile readContents at h
        rw [hmeta] at h
        cases h
      · cases hget.symm.trans hfile
        rw [readFile_of hmeta] at h
        split_ifs at h with hlarge
        cases h
        exact ⟨l, hwalk, hstore, Nat.not_lt.mp hlarge⟩
  · rintro ⟨l, hwalk, hstore, hsize⟩
    rw [readFile_of (metadata_ok.mpr ⟨l, hwalk, files_iff.mp hstore⟩), if_neg (Nat.not_lt.mpr hsize)]

/-! Writing and reading again -/

/-- A request that removes nothing, copies no directory and leaves the file at a place as it is. -/
def Spares (l : Location) (t : FileTree) (req : Request) : Prop :=
  (∀ path recursive force, req ≠ .remove path recursive force) ∧ CopiesNoDirectory t req ∧
    ∀ c, asks t req ≠ .put l c

theorem writeContents_grows (h : writeContents t path contents = .ok t') :
    Grows t t' ∧ ∃ l, walkTo t' path = .found l ∧ files t' l = some contents := by
  unfold writeContents at h
  cases hopen : openTruncated t path with
  | error e =>
    rw [hopen] at h
    cases h
  | ok opened =>
    obtain ⟨t₀, l⟩ := opened
    rw [hopen] at h
    cases h
    obtain ⟨hgrows, hempty⟩ := openTruncated_grows hopen
    have hgrows' : Grows t (t₀.write l contents) := hgrows.trans (grows_write hempty)
    have hget : (t₀.write l contents).get l = some (.file contents) := by rw [FileTree.get_write hempty, if_pos rfl]
    refine ⟨hgrows', l, ?_, files_iff.mpr hget⟩
    rcases openTruncated_ok hopen with ⟨old, hwalk, -, -⟩ | ⟨dir, name, hwalk, rfl, -⟩
    · exact walkTo_found_grows hgrows' hwalk
    · exact walkTo_absent_filled hgrows' hwalk hget fun _ => nofun

theorem outcome_grows {r : Except IoError FileTree} (h : ∀ t', r = .ok t' → Grows t t') : Grows t (outcome t r).2 := by
  cases r with
  | ok t' => exact h t' rfl
  | error e => exact Grows.refl t

theorem createDirectory_grows (t : FileTree) (path : AbsPath) (options : CreateDirectoryOptions) :
    Grows t (createDirectory t path options).2 := by
  unfold createDirectory
  split_ifs with hrecursive
  · obtain ⟨place, hplace⟩ := exists_resolve t path
    exact (createDirAll_spec hplace).1.grows
  · exact outcome_grows fun _ hmake => makeEntry_grows hmake

theorem copy_grows {source destination : AbsPath} {recursive : Bool} {out : Outcome}
    (hno : symlinkMetadata t source ≠ .ok .dir)
    (h : copy depth t source destination ⟨recursive⟩ = some out) : Grows t out.2 := by
  unfold copy at h
  cases hmeta : symlinkMetadata t source with
  | error e =>
    rw [hmeta] at h
    cases h
    exact Grows.refl t
  | ok x =>
    rw [hmeta] at h
    cases x with
    | dir => exact absurd hmeta hno
    | file c =>
      cases h
      exact outcome_grows fun _ hcopy => copyFile_grows hcopy
    | link target =>
      cases h
      refine outcome_grows fun t' hcopy => ?_
      unfold copySymlink at hcopy
      split at hcopy
      · exact makeEntry_grows hcopy
      · cases hcopy

/-- Without removals nothing goes away. -/
theorem step_grows (hno : CopiesNoDirectory t req) (hremove : ∀ path recursive force, req ≠ .remove path recursive force)
    (h : step depth t req = some t') : Grows t t' := by
  obtain ⟨⟨answer, tree⟩, hhandle, rfl⟩ := Option.map_eq_some_iff.mp h
  cases req with
  | readFile path | getMetadata path | readDirectory path =>
    cases hhandle
    exact Grows.refl t
  | writeFile path data =>
    cases hhandle
    exact outcome_grows fun _ hwrite => (writeContents_grows hwrite).1
  | createDirectory path recursive =>
    cases hhandle
    exact createDirectory_grows t path _
  | remove path recursive force => exact absurd rfl (hremove path recursive force)
  | copy source destination recursive =>
    obtain ⟨out, hout, heq⟩ := Option.map_eq_some_iff.mp hhandle
    cases heq
    exact copy_grows hno hout

theorem apply_spared {op : StoreOp} {store : Store} (hput : ∀ c, op ≠ .put l c) (hdrop : ∀ m, op ≠ .drop m) :
    op.apply store l = store l := by
  cases op with
  | keep => rfl
  | put m c =>
    have hne : l ≠ m := fun heq => hput c (heq ▸ rfl)
    exact Function.update_of_ne hne _ store
  | drop m => exact absurd rfl (hdrop m)

theorem asks_drop (hremove : ∀ path recursive force, req ≠ .remove path recursive force) (m : Location) :
    asks t req ≠ .drop m := by
  unfold asks
  split
  · split <;> exact nofun
  · split <;> exact nofun
  · exact absurd rfl (hremove _ _ _)
  · exact nofun

/-- What has been written is read under the same path after any run of requests that remove nothing, copy no
directory and write nothing else to the same place, by whatever path. -/
theorem written_read {data : List UInt8} {t₁ : FileTree}
    (hwrite : handle depth t (.writeFile path data) = some (.ok .done, t₁))
    (hsize : data.length ≤ maxReadFileBytes) : ∃ l, walkTo t₁ path = .found l ∧
      ∀ reqs t', RunOk (step depth) (Spares l) t₁ reqs → run (step depth) t₁ reqs = some t' →
        handle depth t' (.readFile path) = some (.ok (.data data), t') := by
  have hwritten : writeContents t path data = .ok t₁ := by
    rw [handle, writeFile] at hwrite
    cases hcontents : writeContents t path data with
    | error e =>
      rw [hcontents] at hwrite
      cases hwrite
    | ok t₂ =>
      rw [hcontents] at hwrite
      cases hwrite
      rfl
  obtain ⟨-, l, hwalk, hfiles⟩ := writeContents_grows hwritten
  refine ⟨l, hwalk, fun reqs t' hok h => ?_⟩
  have hkept : walkTo t' path = .found l ∧ files t' l = some data := by
    refine run_inv (fun t => walkTo t path = .found l ∧ files t l = some data) ?_ ⟨hwalk, hfiles⟩ hok h
    rintro m req m' ⟨hm, hfile⟩ ⟨hremove, hno, hput⟩ hstep
    refine ⟨walkTo_found_grows (step_grows hno hremove hstep) hm, ?_⟩
    rw [files_step hno hstep, apply_spared hput (asks_drop hremove)]
    exact hfile
  rw [handle, readFile_ok.mpr ⟨l, hkept.1, hkept.2, hsize⟩]
  rfl

theorem written_read_dangling : ∃ t₁ l, walkTo t₁ ["l"] = .found l ∧
    ∀ reqs t', RunOk (step 0) (Spares l) t₁ reqs → run (step 0) t₁ reqs = some t' →
      handle 0 t' (.readFile ["l"]) = some (.ok (.data [7]), t') :=
  ⟨_, written_read (rfl : handle 0 dangling (.writeFile ["l"] [7]) = some (.ok .done, _)) (by decide)⟩

/-! What a removal takes -/

/-- A removal that succeeds leaves no entry that the path names, and takes away what it named and all below it, but not
what a link leads to; one that fails takes nothing, but for the root, which is emptied. No path leads anywhere it did
not lead before. -/
theorem removed_exactly {recursive force : Option Bool} {answer : Except ChannelError Response}
    (h : handle depth t (.remove path recursive force) = some (answer, t')) :
    (answer = .ok .done → symlinkMetadata t' path = .error .notFound ∧
      (t' = t ∨ ∃ l, entryLocation t path = .ok l ∧ TakenAway t t' path l)) ∧
    (answer ≠ .ok .done → path ≠ [] → t' = t) ∧
    ∀ other m, walkTo t' other = .found m → walkTo t other = .found m ∧ t'.get m = t.get m := by
  have hremoves := remove_removes t path ⟨recursive.getD true, force.getD true⟩
  unfold handle at h
  dsimp only at h
  generalize remove t path ⟨recursive.getD true, force.getD true⟩ = out at h hremoves
  cases hremoves with
  | absent gone =>
    cases h
    exact ⟨fun _ => ⟨gone, Or.inl rfl⟩, fun hne => absurd rfl hne, fun _ _ hm => ⟨hm, rfl⟩⟩
  | gone l entry _ taken gone =>
    cases h
    exact ⟨fun _ => ⟨gone, Or.inr ⟨l, entry, taken⟩⟩, fun hne => absurd rfl hne,
      fun _ _ hm => walkTo_kept taken.sub hm⟩
  | failed e =>
    cases h
    exact ⟨nofun, fun _ _ => rfl, fun _ _ hm => ⟨hm, rfl⟩⟩
  | emptied root e =>
    cases h
    exact ⟨nofun, fun _ hpath => absurd root hpath, fun _ _ hm => walkTo_kept (t.get_of_clear []) hm⟩

theorem removed_exactly_dangling : symlinkMetadata (dangling.remove ["l"]) ["l"] = .error .notFound ∧
    (dangling.remove ["l"] = dangling ∨
      ∃ l, entryLocation dangling ["l"] = .ok l ∧ TakenAway dangling (dangling.remove ["l"]) ["l"] l) :=
  (removed_exactly (rfl : handle 0 dangling (.remove ["l"] none none) = some (.ok .done, dangling.remove ["l"]))).1 rfl

/-- `/a/l` leads to the root. -/
def inside : FileTree where
  nodes := [(["a"], .dir), (["a", "l"], .link "/"), (["a", "f"], .file [])]
  root := by decide
  unique := by decide
  parents := by decide

/-- `/a` is removed by a path through itself. -/
example : handle 0 inside (.remove ["a", "l", "a"] none none) = some (.ok .done, inside.clear ["a"]) := by rfl

end Nexal.LocalFs
