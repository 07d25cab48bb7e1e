import Nexal.Proofs.SkillsLookup
import Nexal.Spec.SkillsService

/-! The names that `readdir` lists. They are different as long as no added path takes the place of an earlier one in
the index. The `SKILL.md` that `mount` adds after the files of every skill does, where the gateway lists one. -/

namespace Nexal.SkillsService

open SkillsTree

theorem lossy_slashFree (name : FileName) : '/' ∉ name.lossy.toList := fun h => name.noSlash (Utf8.slash_mem_decode h)

theorem slashFree_of_collectSkills {rd : ReadDir} {skills : List SkillInfo} (h : collectSkills rd = some skills) :
    ∀ skill ∈ skills, '/' ∉ skill.name.toList := by
  induction rd generalizing skills with
  | done =>
    cases h
    simp
  | broken => cases h
  | dir name inside rest _ ih =>
    rw [collectSkills] at h
    split_ifs at h
    · exact ih h
    · obtain ⟨files, -, h⟩ := Option.bind_eq_some_iff.mp h
      obtain ⟨more, hmore, rfl⟩ := Option.map_eq_some_iff.mp h
      exact List.forall_mem_cons.mpr ⟨lossy_slashFree name, ih hmore⟩
  | file name len rest ih => exact ih h
  | other name rest ih => exact ih h

theorem slashFree_of_list {rd : ReadDir} {skills : List SkillInfo} (h : list rd = some skills) :
    ∀ skill ∈ skills, '/' ∉ skill.name.toList := by
  obtain ⟨found, hfound, rfl⟩ := Option.map_eq_some_iff.mp h
  intro skill hskill
  exact slashFree_of_collectSkills hfound skill (List.mem_mergeSort.mp hskill)

end Nexal.SkillsService

namespace Nexal.SkillsTree

open SlashPath Relation

variable {skills : List SkillInfo} {W : World} {t : FsTree} {i j p c ino offset : ℕ} {x : String} {es : List DirEntry}

/-! Reading in full -/

/-- Where the next call goes on. -/
def nextOffset (offset : ℕ) (es : List (DirEntry × ℕ)) : ℕ := (es.getLast?.map (·.2)).getD offset

/-- Calls of `readdir` from an offset on, until one that has room returns nothing. -/
inductive ReadFrom (t : FsTree) (ino : ℕ) : ℕ → List DirEntry → Prop
  | done {offset : ℕ} (h : readdir t ino offset 1 = some []) : ReadFrom t ino offset []
  | call {offset room : ℕ} {es : List (DirEntry × ℕ)} {rest : List DirEntry} (h : readdir t ino offset room = some es)
    (hrest : ReadFrom t ino (nextOffset offset es) rest) : ReadFrom t ino offset (es.map (·.1) ++ rest)

theorem readdir_dir (hdir : t.isFile ino = false) (hmem : ino ∈ t.nodes) (offset room : ℕ) :
    readdir t ino offset room = some ((((entries t ino (t.children ino)).zipIdx 1).drop offset).take room) := by
  rw [readdir, lookup_of_not_isFile hmem hdir]

theorem nextOffset_take {l : List DirEntry} {offset room : ℕ} :
    nextOffset offset (((l.zipIdx 1).drop offset).take room) = offset + (((l.zipIdx 1).drop offset).take room).length := by
  rw [nextOffset, List.getLast?_eq_getElem?]
  generalize hn : (((l.zipIdx 1).drop offset).take room).length = n
  rw [List.length_take, List.length_drop, List.length_zipIdx] at hn
  cases n with
  | zero =>
    have hnone : (((l.zipIdx 1).drop offset).take room)[0 - 1]? = none := by
      rw [List.getElem?_eq_none]
      rw [List.length_take, List.length_drop, List.length_zipIdx]
      omega
    rw [hnone]
    rfl
  | succ n =>
    rw [Nat.add_sub_cancel, List.getElem?_take_of_lt (by omega), List.getElem?_drop, List.getElem?_zipIdx,
      List.getElem?_eq_getElem (by omega)]
    simp only [Option.map_some, Option.getD_some]
    omega

theorem eq_drop_of_readFrom (hdir : t.isFile ino = false) (hmem : ino ∈ t.nodes) (h : ReadFrom t ino offset es) :
    es = (entries t ino (t.children ino)).drop offset := by
  induction h with
  | @done offset h =>
    rw [readdir_dir hdir hmem] at h
    have hnil := congrArg List.length (Option.some.inj h)
    rw [List.length_take, List.length_drop, List.length_zipIdx, List.length_nil] at hnil
    rw [List.drop_eq_nil_of_le (by omega)]
  | @call offset room es rest h _ ih =>
    rw [readdir_dir hdir hmem] at h
    obtain rfl := Option.some.inj h
    rw [ih, nextOffset_take, List.length_take, List.length_drop, List.length_zipIdx, List.map_take, List.map_drop,
      List.zipIdx_map_fst, ← List.drop_drop, ← List.length_drop]
    rcases Nat.le_total room ((entries t ino (t.children ino)).drop offset).length with hle | hle
    · rw [Nat.min_eq_left hle, List.take_append_drop]
    · rw [Nat.min_eq_right hle, List.take_of_length_le hle, List.drop_length, List.append_nil]

theorem exists_readFrom (hdir : t.isFile ino = false) (hmem : ino ∈ t.nodes) : ∃ es, ReadFrom t ino 0 es := by
  refine ⟨_, .call (readdir_dir hdir hmem 0 (entries t ino (t.children ino)).length) (.done ?_)⟩
  have hlength : (entries t ino (t.children ino)).length = ((entries t ino (t.children ino)).zipIdx 1).length :=
    List.length_zipIdx.symm
  rw [nextOffset_take, readdir_dir hdir hmem, List.drop_zero, hlength, List.take_length, Nat.zero_add, List.drop_length]
  rfl

/-! The names -/

def FsTree.entryName (t : FsTree) (ino : ℕ) : String := (t.childName ino).getD ("dir-" ++ toString ino)

theorem childEntry_of_mem (h : c ∈ t.nodes) : (t.childEntry c).map (·.name) = some (t.entryName c) := by
  obtain ⟨node, hnode⟩ := Option.isSome_iff_exists.mp (AList.lookup_isSome.mpr h)
  rw [FsTree.entryName, FsTree.childName, FsTree.childEntry, hnode]
  cases node <;> rfl

theorem names_entries {children : List ℕ} (h : ∀ c ∈ children, c ∈ t.nodes) :
    ((entries t ino children).drop 2).map (·.name) = children.map t.entryName := by
  show (children.filterMap t.childEntry).map (·.name) = _
  rw [List.map_filterMap, ← List.filterMap_eq_map]
  exact List.filterMap_congr fun c hc => childEntry_of_mem (h c hc)

/-- In every directory in reach of the root, the names read after `.` and `..` are those `lookup` knows, each once. -/
def UniqueNames (t : FsTree) : Prop := ∀ p, Reach t [1] p → t.isFile p = false → ∀ es, ReadFrom t p 0 es →
  ((es.drop 2).map (·.name)).Nodup ∧ ∀ x, x ∈ (es.drop 2).map (·.name) ↔ (lookup t p x).isSome = true

/-- The skills have names of their own, and no added path takes the place of an earlier one in reach. -/
def Distinct (skills : List SkillInfo) : Prop := (skills.map (·.name)).Nodup ∧ Lists.InOrder Fresh (addresses skills)

theorem lookup_isSome_iff : (lookup t p x).isSome = true ↔ ∃ c ∈ t.children p, t.childName c = some x := by
  rw [lookup, List.find?_isSome]
  simp

namespace Serves

variable (h : Serves W t)
include h

theorem reach_iff : Reach t [1] p ↔ p = 1 ∨ Reach W.tree W.tops p := by
  constructor
  · intro hp
    induction hp with
    | top hi => exact .inl (List.mem_singleton.mp hi)
    | @child p c _ hc ih =>
      rw [h.children] at hc
      split_ifs at hc with hp
      · exact .inr (.top hc)
      · exact .inr (.child (ih.resolve_left hp) hc)
  · have hroot : Reach t [1] 1 := .top List.mem_cons_self
    rintro (rfl | hp)
    · exact hroot
    · induction hp with
      | top hi => exact .child hroot (by rwa [h.children, if_pos rfl])
      | @child p c hp hc ih => exact .child ih (by rwa [h.children, if_neg (h.inv.reach_mem hp).2])

theorem readFrom_names (hp : Reach t [1] p) (hdir : t.isFile p = false) (hread : ReadFrom t p 0 es) :
    (es.drop 2).map (·.name) = (t.children p).map t.entryName := by
  have hmem : p ∈ t.nodes := by
    rw [h.mem]
    rcases h.reach_iff.mp hp with rfl | hp
    · exact (h.inv.mem 1).mpr ⟨Nat.one_pos, h.inv.two⟩
    · exact (h.inv.reach_mem hp).1
  rw [eq_drop_of_readFrom hdir hmem hread, List.drop_zero]
  exact names_entries fun c hc => (h.mem c).mpr (h.child hc).1

theorem reach_of_mem_children (hp : Reach t [1] p) (hc : c ∈ t.children p) : Reach W.tree W.tops c :=
  (h.reach_iff.mp (.child hp hc)).resolve_left (h.child hc).2.1

/-! Names of their own -/

/-- The index knows a skill under its name. -/
theorem top_named (hW : Built W skills) (hnames : (W.tops.map W.addr).Nodup) (hi : i ∈ W.tops) :
    W.tree.pathToInode.lookup (join (W.addr i)) = some i := by
  have haddr := List.mem_map_of_mem (f := W.addr) hi
  rw [hW.tops] at haddr
  obtain ⟨skill, hskill, haddr⟩ := List.mem_map.mp haddr
  rw [← haddr, join_singleton]
  obtain ⟨j, hj⟩ := Option.isSome_iff_exists.mp (hW.named skill hskill)
  obtain ⟨hmem, hne, hkey⟩ := h.inv.index _ j hj
  obtain ⟨hplain, hnil⟩ := h.inv.plain_addr hmem hne
  obtain ⟨hplain', hnil'⟩ := h.inv.plain_addr (h.inv.top i hi).2.1 (h.inv.top i hi).1
  have hsame : W.addr j = W.addr i := join_inj hplain hplain' hnil hnil' (by rw [← hkey, ← haddr, join_singleton])
  have htop : j ∈ W.tops := by
    by_contra hj'
    have hlong := (h.inv.below j hmem hne hj').1
    rw [hsame, ← haddr] at hlong
    simp at hlong
  rw [hj, List.inj_on_of_nodup_map hnames htop hi hsame]

theorem reach_indexed (hW : Built W skills) (ho : Lists.InOrder Fresh W.files) (hnames : (W.tops.map W.addr).Nodup)
    (hi : Reach W.tree W.tops i) : W.tree.pathToInode.lookup (join (W.addr i)) = some i := by
  cases hfile : W.tree.isFile i with
  | true => exact steps_sole hW.steps ho i hi hfile
  | false => exact ((steps_kept hW.steps (inOrder_keeps ho)).dirs i hi hfile).elim (h.top_named hW hnames) id

theorem uniqueNames (hW : Built W skills) (ho : Lists.InOrder Fresh W.files) (hnames : (W.tops.map W.addr).Nodup) :
    UniqueNames t := by
  intro p hp hdir es hread
  have hindexed {c : ℕ} (hc : c ∈ t.children p) := h.reach_indexed hW ho hnames (h.reach_of_mem_children hp hc)
  have hname {c : ℕ} (hc : c ∈ t.children p) : ∃ x, W.addr c = W.addr p ++ [x] ∧ t.childName c = some x := by
    obtain ⟨hmem, hne, x, hx⟩ := h.child hc
    exact ⟨x, hx, h.childName_of hmem hne hx (.inr (hindexed hc))⟩
  have hentry {c : ℕ} (hc : c ∈ t.children p) : t.childName c = some (t.entryName c) := by
    obtain ⟨x, -, hx⟩ := hname hc
    rw [FsTree.entryName, hx, Option.getD_some]
  rw [h.readFrom_names hp hdir hread]
  constructor
  · refine List.Nodup.map_on (fun c hc d hd heq => ?_) ?_
    · obtain ⟨x, hx, hcx⟩ := hname hc
      obtain ⟨y, hy, hdy⟩ := hname hd
      have hxy : x = y := Option.some.inj (by rw [← hcx, ← hdy, hentry hc, hentry hd, heq])
      have hsame : W.addr c = W.addr d := by rw [hx, hy, hxy]
      exact Option.some.inj (by rw [← hindexed hc, ← hindexed hd, hsame])
    · rw [h.children]
      split_ifs
      · exact hnames.of_map
      · exact h.inv.nodup p
  · intro x
    rw [List.mem_map, lookup_isSome_iff]
    refine exists_congr fun c => and_congr_right fun hc => ?_
    rw [hentry hc, Option.some.injEq]

/-- Children of one directory have addresses of their own if they are listed so. -/
theorem addr_inj (hu : UniqueNames t) (hp : Reach t [1] p) (hdir : t.isFile p = false) (hmem : p ∈ t.nodes) :
    (t.children p).Nodup ∧ ∀ c ∈ t.children p, ∀ d ∈ t.children p, W.addr c = W.addr d → c = d := by
  obtain ⟨es, hread⟩ := exists_readFrom hdir hmem
  obtain ⟨hnodup, hfound⟩ := hu p hp hdir es hread
  rw [h.readFrom_names hp hdir hread] at hnodup hfound
  have hinj {c d : ℕ} (hc : c ∈ t.children p) (hd : d ∈ t.children p) (heq : t.entryName c = t.entryName d) : c = d :=
    List.inj_on_of_nodup_map hnodup hc hd heq
  have hname {c : ℕ} (hc : c ∈ t.children p) : t.childName c = some (t.entryName c) := by
    obtain ⟨d, hd, hdname⟩ := lookup_isSome_iff.mp ((hfound _).mp (List.mem_map_of_mem hc))
    have hsame : t.entryName d = t.entryName c := by rw [FsTree.entryName, hdname, Option.getD_some]
    rwa [hinj hd hc hsame] at hdname
  refine ⟨hnodup.of_map, fun c hc d hd heq => hinj hc hd ?_⟩
  obtain ⟨hcmem, hcne, x, hx⟩ := h.child hc
  obtain ⟨hdmem, hdne, y, hy⟩ := h.child hd
  rw [(h.childName_addr hcmem hcne hx (hname hc)).1, (h.childName_addr hdmem hdne hy (hname hd)).1]
  exact (List.cons.inj (List.append_inj' (hx.symm.trans (heq.trans hy)) rfl).2).1

theorem distinct_of_uniqueNames (hW : Built W skills) (hu : UniqueNames t) : Distinct skills := by
  have hroot : Reach t [1] 1 := .top List.mem_cons_self
  have hone : 1 ∈ W.tree.nodes := (h.inv.mem 1).mpr ⟨Nat.one_pos, h.inv.two⟩
  obtain ⟨hnodup, hinj⟩ := h.addr_inj hu hroot ((h.isFile 1).trans h.inv.root.1) ((h.mem 1).mpr hone)
  rw [h.children, if_pos rfl] at hnodup hinj
  have hnames : (W.tops.map W.addr).Nodup := hnodup.map_on hinj
  refine ⟨?_, hW.files ▸ (steps_doubled hW.steps hnames).resolve_right fun ⟨p, i, j, hp, hi, hj, hne, heq⟩ => ?_⟩
  · rw [hW.tops, ← Function.comp_def (fun n : String => [n]), ← List.map_map] at hnames
    exact hnames.of_map
  · obtain ⟨hmem, hp1⟩ := h.inv.reach_mem hp
    have hchildren : t.children p = W.tree.children p := by rw [h.children, if_neg hp1]
    have hdir : t.isFile p = false := (h.isFile p).trans (isFile_of_mem_children hi)
    exact hne ((h.addr_inj hu (h.reach_iff.mpr (.inr hp)) hdir ((h.mem p).mpr hmem)).2 i (hchildren ▸ hi) j
      (hchildren ▸ hj) heq)

end Serves

/-! Listings without repetitions -/

theorem WellFormed.nodup_addresses (hw : WellFormed skills)
    (hno : ∀ s ∈ skills, ∀ f ∈ s.files, (split f.path).head? ≠ some "SKILL.md") : (addresses skills).Nodup := by
  refine List.nodup_flatMap.mpr ⟨fun s hs => ?_, ?_⟩
  · refine List.Nodup.append ?_ (List.nodup_singleton _) (List.disjoint_singleton.mpr fun hmem => ?_)
    · have hpaths := hw.paths s hs
      refine (List.Nodup.of_map (·.path) hpaths).map_on fun f hf g hg heq => ?_
      refine List.inj_on_of_nodup_map hpaths hf hg ?_
      rw [← join_split f.path, (List.cons.inj heq).2, join_split]
    · obtain ⟨f, hf, heq⟩ := List.mem_map.mp hmem
      exact hno s hs f hf (by rw [(List.cons.inj heq).2, List.head?_cons])
  · have hfirst {s : SkillInfo} {g : List String} (hg : g ∈ s.addresses) : g.head? = some s.name := by
      rcases List.mem_append.mp hg with hg | hg
      · obtain ⟨f, -, rfl⟩ := List.mem_map.mp hg
        rfl
      · rw [List.mem_singleton.mp hg, List.head?_cons]
    refine (List.pairwise_map.mp hw.names).imp fun hne g hg hg' => hne ?_
    exact Option.some.inj ((hfirst hg).symm.trans (hfirst hg'))

/-- Of the listings in which no path is that of another or above it, those without a `SKILL.md`, file or directory. -/
theorem WellFormed.distinct_iff (hw : WellFormed skills) :
    Distinct skills ↔ ∀ s ∈ skills, ∀ f ∈ s.files, (split f.path).head? ≠ some "SKILL.md" := by
  constructor
  · rintro ⟨-, ho⟩ s hs f hf hfirst
    obtain ⟨before, after, rfl⟩ := List.append_of_mem hs
    have hcut : addresses (before ++ s :: after) =
        (addresses before ++ s.files.map fun file => s.name :: split file.path) ++ [s.name, "SKILL.md"] ::
          addresses after := by
      simp [addresses, SkillInfo.addresses]
    obtain ⟨rest, hrest⟩ := List.head?_eq_some_iff.mp hfirst
    have hmem := List.mem_append_right (addresses before)
      (List.mem_map_of_mem (f := fun file => s.name :: split file.path) hf)
    obtain ⟨g, hg, hpre⟩ := ho _ _ _ hcut ⟨_, hmem, by rw [hrest]; exact ⟨rest, rfl⟩⟩
    have hlisted : g ∈ addresses (before ++ s :: after) := by
      rw [hcut]
      exact List.mem_append_left _ hg
    have hlong : 2 ≤ g.length := by
      obtain ⟨s', -, ⟨f', -, rfl⟩ | rfl⟩ := mem_addresses.mp hlisted
      · have hpos := List.length_pos_iff.mpr (split_ne_nil f'.path)
        rw [List.length_cons]
        omega
      · exact Nat.le_refl 2
    have hle := hpre.length_le
    simp only [List.dropLast_cons_cons, List.dropLast_singleton, List.length_singleton] at hle
    omega
  · intro hno
    have hfree : NoSkillMdDir skills := fun s hs f hf rest hsplit => absurd (by rw [hsplit, List.head?_cons]) (hno s hs f hf)
    refine ⟨hw.names, ?_⟩
    rintro before a after hcut ⟨g, hg, hpre⟩
    have heq := hw.prefix_free hfree (hcut ▸ (by simp : a ∈ before ++ a :: after))
      (hcut ▸ List.mem_append_left _ hg) hpre
    have hnodup := hw.nodup_addresses hno
    rw [hcut] at hnodup
    exact absurd heq.symm ((List.nodup_append.mp hnodup).2.2 g hg a List.mem_cons_self)

end Nexal.SkillsTree

namespace Nexal.SkillsService

open SkillsTree

theorem unique_names_iff {rd : ReadDir} {skills : List SkillInfo} (hlist : list rd = some skills) :
    ∃ t, mountTree skills = some t ∧ ∀ t', t.Like t' → (UniqueNames t' ↔ Distinct skills) := by
  obtain ⟨W, hW, hmount⟩ := mount_built (slashFree_of_list hlist)
  refine ⟨_, hmount, fun t hlike => ?_⟩
  have h := hW.inv.serves hlike
  refine ⟨h.distinct_of_uniqueNames hW, fun ⟨hnames, ho⟩ => ?_⟩
  exact h.uniqueNames hW (hW.files ▸ ho) (hW.nodup_tops hnames)

def skillDir : FileName := ⟨[0x61], by decide⟩

def skillMd : FileName := ⟨[0x53, 0x4B, 0x49, 0x4C, 0x4C, 0x2E, 0x6D, 0x64], by decide⟩

/-- A skill with a file in a directory, and no `SKILL.md`. -/
def undocumented : ReadDir := .dir skillDir (.dir skillDir (.file skillDir 5 .done) .done) .done

theorem undocumented_unique : ∃ skills t, list undocumented = some skills ∧ mountTree skills = some t ∧
    ∀ t', t.Like t' → UniqueNames t' := by
  have hfound : collectSkills undocumented = some [⟨"a", [⟨"a/a", 5⟩]⟩] := by decide +kernel
  have hlist : list undocumented = some [⟨"a", [⟨"a/a", 5⟩]⟩] := by
    rw [list, hfound, Option.map_some, List.mergeSort_singleton]
  have hsplit : SlashPath.split "a/a" = ["a", "a"] := by decide
  have hw : WellFormed [⟨"a", [⟨"a/a", 5⟩]⟩] := by
    refine ⟨by decide, by decide, by decide, ?_, ?_⟩ <;> simp [hsplit]
  obtain ⟨t, ht, hunique⟩ := unique_names_iff hlist
  exact ⟨_, t, hlist, ht, fun t' hlike => (hunique t' hlike).mpr (hw.distinct_iff.mpr (by simp [hsplit]))⟩

def documented : ReadDir := .dir skillDir (.file skillMd 5 .done) .done

theorem documented_twice : ∃ skills t, list documented = some skills ∧ mountTree skills = some t ∧
    ¬UniqueNames t := by
  have hfound : collectSkills documented = some [⟨"a", [⟨"SKILL.md", 5⟩]⟩] := by decide +kernel
  have hlist : list documented = some [⟨"a", [⟨"SKILL.md", 5⟩]⟩] := by
    rw [list, hfound, Option.map_some, List.mergeSort_singleton]
  have hserved : (mountTree [⟨"a", [⟨"SKILL.md", 5⟩]⟩]).any (fun t => 2 ∈ t.children 1 ∧ t.isFile 2 = false ∧
      readdir t 2 0 4 = some [(⟨2, .directory, "."⟩, 1), (⟨2, .directory, ".."⟩, 2),
        (⟨3, .regularFile, "SKILL.md"⟩, 3),
        (⟨4, .regularFile, "SKILL.md"⟩, 4)] ∧ readdir t 2 4 1 = some []) = true := by decide +kernel
  obtain ⟨t, ht, hserved⟩ := Option.any_eq_true _ _ |>.mp hserved
  obtain ⟨hchild, hdir, hread, hend⟩ := of_decide_eq_true hserved
  refine ⟨_, t, hlist, ht, fun hunique => ?_⟩
  have hnodup := (hunique 2 (.child (.top List.mem_cons_self) hchild) hdir _ (.call hread (.done hend))).1
  revert hnodup
  decide

end Nexal.SkillsService
