import Nexal.Sanity.SkillsServe

/-! Looking up the listed files. The `SKILL.md` that `mount` adds to every skill takes the path of whatever is there
in the index; where that is a directory, the directory has no name any more and the files below it are lost. -/

namespace Nexal.SkillsTree

open SlashPath Relation

structure WellFormed (skills : List SkillInfo) : Prop where
  names : (skills.map (·.name)).Nodup
  slashFree : ∀ s ∈ skills, '/' ∉ s.name.toList
  paths : ∀ s ∈ skills, (s.files.map (·.path)).Nodup
  segments : ∀ s ∈ skills, ∀ f ∈ s.files, "" ∉ split f.path
  apart : ∀ s ∈ skills, ∀ f ∈ s.files, ∀ g ∈ s.files, split f.path <+: split g.path → f.path = g.path

structure TreeOk (skills : List SkillInfo) (t : FsTree) : Prop where
  /-- every inode that was handed out has its node still -/
  inodes : ∀ i, i ∈ t.nodes ↔ 0 < i ∧ i < t.nextInode
  distinct : ∀ p q i, t.pathToInode.lookup p = some i → t.pathToInode.lookup q = some i → p = q
  parent : ∀ i ∈ t.nodes, i ≠ 1 → ∃! p, i ∈ t.children p
  once : ∀ p, (t.children p).Nodup ∧ 1 ∉ t.children p
  found : ∀ s ∈ skills, ∀ f ∈ s.files, ∃ i size, resolve t 1 (s.name :: split f.path) = some i ∧
    t.nodes.lookup i = some (.file (s.name ++ "/" ++ f.path) size)

def NoSkillMdDir (skills : List SkillInfo) : Prop :=
  ∀ s ∈ skills, ∀ f ∈ s.files, ∀ rest, split f.path = "SKILL.md" :: rest → rest = []

variable {skills : List SkillInfo} {W : World} {t : FsTree} {i p : ℕ} {x : String} {a b : List String}

/-! Addresses -/

theorem mem_addresses {g : List String} : g ∈ addresses skills ↔
    ∃ s ∈ skills, (∃ f ∈ s.files, g = s.name :: split f.path) ∨ g = [s.name, "SKILL.md"] := by
  simp [addresses, SkillInfo.addresses, eq_comm]

theorem WellFormed.name_inj (hw : WellFormed skills) {s s' : SkillInfo} (hs : s ∈ skills) (hs' : s' ∈ skills)
    (h : s.name = s'.name) : s = s' :=
  List.inj_on_of_nodup_map hw.names hs hs' h

/-- No file of the listing is above another. -/
theorem WellFormed.prefix_free (hw : WellFormed skills) (hno : NoSkillMdDir skills) {g h : List String}
    (hg : g ∈ addresses skills) (hh : h ∈ addresses skills) (hpre : g <+: h) : g = h := by
  obtain ⟨s, hs, hg⟩ := mem_addresses.mp hg
  obtain ⟨s', hs', hh⟩ := mem_addresses.mp hh
  have hname : s = s' := by
    rcases hg with ⟨f, -, rfl⟩ | rfl <;> rcases hh with ⟨f', -, rfl⟩ | rfl <;>
      exact hw.name_inj hs hs' (List.cons_prefix_cons.mp hpre).1
  subst hname
  rcases hg with ⟨f, hf, rfl⟩ | rfl <;> rcases hh with ⟨f', hf', rfl⟩ | rfl
  · rw [hw.apart s hs f hf f' hf' (List.cons_prefix_cons.mp hpre).2]
  · have hle := hpre.length_le
    have hpos := List.length_pos_iff.mpr (split_ne_nil f.path)
    refine hpre.eq_of_length_le ?_
    rw [List.length_cons]
    simp only [List.length_cons, List.length_nil]
    omega
  · obtain ⟨rest, hrest⟩ := (List.cons_prefix_cons.mp hpre).2
    rw [← hrest, hno s hs f' hf' rest (by rw [← hrest]; rfl)]
    rfl
  · rfl

theorem keeps_of_prefix_free {files : List (List String)} (h : ∀ g ∈ files, ∀ g' ∈ files, g <+: g' → g = g') :
    Lists.InOrder Keeps files := by
  rintro before a after rfl ⟨g, hg, hpre, hne⟩
  exact absurd (h a (by simp) g (by simp [hg]) hpre) hne

/-! A way to a listed file -/

section Resolve

variable (h : Serves W t) (hk : Kept W) (hnames : (W.tops.map W.addr).Nodup)
  (hfree : ∀ g ∈ W.files, ∀ g' ∈ W.files, g <+: g' → g = g')
  (htops : ∀ n, (∃ g ∈ W.files, [n] <+: g) → (W.tree.pathToInode.lookup n).isSome = true)
include h hk hnames hfree htops

/-- The child that the index knows under the next name of the way. -/
theorem child_on_way {g : List String} (hg : g ∈ W.files) (hpre : a ++ [x] <+: g)
    (hp : a = [] ∧ p = 1 ∨ Reach W.tree W.tops p ∧ W.addr p = a) :
    ∃ i, W.tree.pathToInode.lookup (join (a ++ [x])) = some i ∧ W.addr i = a ++ [x] ∧ i ∈ t.children p := by
  have hplain : Plain (a ++ [x]) := (h.inv.plain g (List.mem_cons_of_mem _ hg)).of_isPrefix hpre
  have hindexed {i : ℕ} (hi : W.tree.pathToInode.lookup (join (a ++ [x])) = some i) : W.addr i = a ++ [x] := by
    obtain ⟨hmem, hne, hkey⟩ := h.inv.index _ i hi
    obtain ⟨hplain', hne'⟩ := h.inv.plain_addr hmem hne
    exact (join_inj hplain hplain' (by simp) hne' hkey).symm
  rcases hp with ⟨rfl, rfl⟩ | ⟨hreach, rfl⟩
  · obtain ⟨i, hi⟩ := Option.isSome_iff_exists.mp (htops x ⟨g, hg, hpre⟩)
    rw [← join_singleton (x := x)] at hi
    refine ⟨i, hi, hindexed hi, ?_⟩
    obtain ⟨hmem, hne, -⟩ := h.inv.index _ i hi
    rw [h.children, if_pos rfl]
    by_contra htop
    have hlong := (h.inv.below i hmem hne htop).1
    simp [hindexed hi] at hlong
  · obtain ⟨hmem, hne⟩ := h.inv.reach_mem hreach
    have hlength : 2 ≤ (W.addr p ++ [x]).length := by
      have hpos := List.length_pos_iff.mpr (h.inv.plain_addr hmem hne).2
      rw [List.length_append, List.length_singleton]
      omega
    obtain ⟨i, hi⟩ := Option.isSome_iff_exists.mp
      ((h.inv.indexed _ hplain hlength).mpr ⟨g, List.mem_cons_of_mem _ hg, hpre⟩)
    obtain ⟨q, hq, hc⟩ := hk.edges _ i hplain hlength (fun f hf hfa => by
      obtain rfl := hfree f hf g hg (hfa.trans hpre)
      exact hfa.eq_of_length_le hpre.length_le) hi
    obtain ⟨-, z, hz⟩ := h.inv.child q i hc
    have hqaddr : W.addr q = W.addr p := (List.append_inj' (hz.symm.trans (hindexed hi)) rfl).1
    -- a file is not on the way to another
    have hdir : W.tree.isFile p = false := by
      by_contra hfile
      obtain ⟨rel, size, hlookup⟩ := isFile_iff.mp (by simpa using hfile)
      have hlisted := (h.inv.file p rel size hlookup).2
      have heq := hfree _ hlisted g hg ((List.prefix_append _ _).trans hpre)
      exact not_concat_prefix (heq ▸ hpre)
    obtain rfl := hk.dir_unique h.inv hnames hq (isFile_of_mem_children hc) hreach hdir hqaddr
    refine ⟨i, hi, hindexed hi, ?_⟩
    rw [h.children, if_neg hne]
    exact hc

/-- One lookup on the way. -/
theorem lookup_on_way {g : List String} (hg : g ∈ W.files) (hpre : a ++ [x] <+: g)
    (hp : a = [] ∧ p = 1 ∨ Reach W.tree W.tops p ∧ W.addr p = a) :
    ∃ c, lookup t p x = some c ∧ Reach W.tree W.tops c ∧ W.addr c = a ++ [x] := by
  have haddr : W.addr p = a := hp.elim (fun ⟨hnil, hp⟩ => by rw [hnil, hp, h.inv.rootAddr]) And.right
  obtain ⟨i, hi, hiaddr, hchild⟩ := child_on_way h hk hnames hfree htops hg hpre hp
  obtain ⟨c, hc⟩ := Option.isSome_iff_exists.mp
    (h.lookup_isSome hchild (by rw [hiaddr, haddr]) (.inr (by rw [hiaddr, hi])))
  obtain ⟨hmem, hcaddr, -⟩ := h.of_lookup hc
  refine ⟨c, hc, ?_, by rw [hcaddr, haddr]⟩
  rw [h.children] at hmem
  split_ifs at hmem with hp1
  · exact .top hmem
  · exact hp.elim (fun ⟨_, hp⟩ => absurd hp hp1) fun ⟨hp, _⟩ => .child hp hmem

theorem resolve_on_way {g : List String} (hg : g ∈ W.files) (hsplit : a ++ b = g)
    (hp : a = [] ∧ p = 1 ∨ Reach W.tree W.tops p ∧ W.addr p = a) (hnil : g ≠ []) :
    ∃ i, resolve t p b = some i ∧ Reach W.tree W.tops i ∧ W.addr i = g := by
  induction b generalizing a p with
  | nil =>
    rw [List.append_nil] at hsplit
    subst hsplit
    exact ⟨p, rfl, hp.resolve_left fun ha => hnil ha.1⟩
  | cons x b ih =>
    obtain ⟨c, hc, hreach, haddr⟩ :=
      lookup_on_way h hk hnames hfree htops (x := x) hg ⟨b, by rw [← hsplit]; simp⟩ hp
    obtain ⟨i, hi, hrest⟩ := ih (a := a ++ [x]) (by rw [← hsplit]; simp) (.inr ⟨hreach, haddr⟩)
    exact ⟨i, by rw [resolve, hc, Option.bind_some, hi], hrest⟩

end Resolve

theorem Built.nodup_tops (h : Built W skills) (hw : (skills.map (·.name)).Nodup) : (W.tops.map W.addr).Nodup := by
  rw [h.tops]
  have hinj : Function.Injective fun n : String => [n] := fun _ _ heq => (List.cons.inj heq).1
  have hmap := hw.map hinj
  rwa [List.map_map] at hmap

theorem Built.top_indexed (h : Built W skills) {n : String} (hn : ∃ g ∈ W.files, [n] <+: g) :
    (W.tree.pathToInode.lookup n).isSome = true := by
  obtain ⟨g, hg, hpre⟩ := hn
  rw [h.files] at hg
  obtain ⟨s, hs, hg⟩ := mem_addresses.mp hg
  have hname : n = s.name := by
    rcases hg with ⟨f, -, rfl⟩ | rfl <;> exact (List.cons_prefix_cons.mp hpre).1
  exact hname ▸ h.named s hs

theorem found_of_noSkillMdDir (hw : WellFormed skills) (hno : NoSkillMdDir skills) (hW : Built W skills) (h : Serves W t)
    {s : SkillInfo} (hs : s ∈ skills) {f : SkillFileInfo} (hf : f ∈ s.files) :
    ∃ i size, resolve t 1 (s.name :: split f.path) = some i ∧
      t.nodes.lookup i = some (.file (s.name ++ "/" ++ f.path) size) := by
  have hfree : ∀ g ∈ W.files, ∀ g' ∈ W.files, g <+: g' → g = g' := fun g hg g' hg' =>
    hw.prefix_free hno (hW.files ▸ hg) (hW.files ▸ hg')
  have hk := steps_kept hW.steps (keeps_of_prefix_free hfree)
  have hlisted : s.name :: split f.path ∈ W.files := hW.files ▸ mem_addresses.mpr ⟨s, hs, .inl ⟨f, hf, rfl⟩⟩
  obtain ⟨i, hi, hreach, haddr⟩ := resolve_on_way h hk (hW.nodup_tops hw.names) hfree (fun _ => hW.top_indexed) (a := [])
    hlisted (List.nil_append _) (.inl ⟨rfl, rfl⟩) (by simp)
  have hlong : 2 ≤ (W.addr i).length := haddr ▸ h.inv.long _ hlisted
  have hfile : W.tree.isFile i = true := by
    by_contra hdir
    have hlookup := hk.lookup_dir h.inv hreach (by simpa using hdir) hlong
    have hplain := (h.inv.plain_addr (h.inv.reach_mem hreach).1 (h.inv.reach_mem hreach).2).1
    exact hdir ((h.inv.fileAt _ i hplain hlong hlookup).mpr (haddr ▸ hlisted))
  obtain ⟨rel, size, hlookup⟩ := isFile_iff.mp hfile
  obtain ⟨rfl, -⟩ := h.inv.file i rel size hlookup
  refine ⟨i, size, hi, ?_⟩
  rw [(h.file i _ size).mpr hlookup, haddr, join_cons (split_ne_nil _), join_split]

/-- The way to a file below a directory `SKILL.md` ends at the added file. -/
theorem noSkillMdDir_of_found (hW : Built W skills) (h : Serves W t)
    (hfound : ∀ s ∈ skills, ∀ f ∈ s.files, (resolve t 1 (s.name :: split f.path)).isSome = true) :
    NoSkillMdDir skills := by
  intro s hs f hf rest hsplit
  have hresolve := hfound s hs f hf
  by_contra hrest
  obtain ⟨x, rest, rfl⟩ := List.exists_cons_of_ne_nil hrest
  rw [hsplit, resolve] at hresolve
  obtain ⟨i, hi⟩ := Option.isSome_iff_exists.mp hresolve
  obtain ⟨top, htop, hi⟩ := Option.bind_eq_some_iff.mp hi
  rw [resolve] at hi
  obtain ⟨c, hc, hi⟩ := Option.bind_eq_some_iff.mp hi
  rw [resolve] at hi
  obtain ⟨d, hd, -⟩ := Option.bind_eq_some_iff.mp hi
  obtain ⟨hmem, haddr, hnamed⟩ := h.of_lookup hc
  have htopaddr := (h.of_lookup htop).2.1
  rw [h.inv.rootAddr, List.nil_append] at htopaddr
  rw [htopaddr] at haddr
  have hlisted : [s.name, "SKILL.md"] ∈ W.files := hW.files ▸ mem_addresses.mpr ⟨s, hs, .inr rfl⟩
  have hfile : W.tree.isFile c = true := by
    refine hnamed.elim id fun hlookup => ?_
    obtain ⟨hc', hne, -⟩ := h.child hmem
    refine (h.inv.fileAt _ c (h.inv.plain_addr hc' hne).1 ?_ hlookup).mpr ?_
    · rw [haddr]
      exact Nat.le_refl 2
    · rw [haddr]
      exact hlisted
  have hdir := isFile_of_mem_children (h.of_lookup hd).1
  rw [h.isFile, hfile] at hdir
  cases hdir

theorem parent_unique (hw : WellFormed skills) (hno : NoSkillMdDir skills) (hW : Built W skills) (h : Serves W t)
    (hi : i ∈ t.nodes) (hne : i ≠ 1) : ∃! p, i ∈ t.children p := by
  have hmem := (h.mem i).mp hi
  by_cases htop : i ∈ W.tops
  · refine ⟨1, by dsimp only; rwa [h.children, if_pos rfl], fun p hp => ?_⟩
    by_contra hp1
    dsimp only at hp
    rw [h.children, if_neg hp1] at hp
    obtain ⟨-, x, hx⟩ := h.inv.child p i hp
    obtain ⟨-, -, -, n, -, hn⟩ := h.inv.top i htop
    have hnil : W.addr p = [] := (List.append_inj' (hx.symm.trans hn : W.addr p ++ [x] = [] ++ [n]) rfl).1
    exact (h.inv.plain_addr (mem_of_children hp) hp1).2 hnil
  · obtain ⟨-, g, hg, hknown⟩ := h.inv.below i hmem hne htop
    obtain ⟨p, hp⟩ := (steps_placed hW.steps i hmem hne htop).resolve_right fun ⟨f, hf, hpre, hother⟩ => by
      rcases List.mem_cons.mp hg with rfl | hg
      · have hlong := h.inv.long f hf
        have hle := (hpre.trans hknown).length_le
        have hshort := hW.walked
        omega
      · have heq := hw.prefix_free hno (hW.files ▸ hf) (hW.files ▸ hg) (hpre.trans hknown)
        subst heq
        exact hother (hpre.eq_of_length_le hknown.length_le)
    have hp1 : p ≠ 1 := by
      rintro rfl
      simp [h.inv.root.2] at hp
    refine ⟨p, by dsimp only; rwa [h.children, if_neg hp1], fun q hq => ?_⟩
    dsimp only at hq
    rw [h.children] at hq
    split_ifs at hq with hq1
    · exact absurd hq htop
    · exact h.inv.single q p i hq hp

theorem tree_ok_iff (hw : WellFormed skills) : ∃ t, mountTree skills = some t ∧
    ∀ t', t.Like t' → (TreeOk skills t' ↔ NoSkillMdDir skills) := by
  obtain ⟨W, hW, hmount⟩ := mount_built hw.slashFree
  refine ⟨_, hmount, fun t hlike => ?_⟩
  have h := hW.inv.serves hlike
  constructor
  · intro hok
    refine noSkillMdDir_of_found hW h fun s hs f hf => ?_
    obtain ⟨i, -, hi, -⟩ := hok.found s hs f hf
    rw [hi]
    rfl
  · intro hno
    refine ⟨fun i => ?_, fun p q i hp hq => ?_, fun i => parent_unique hw hno hW h, fun p => ⟨?_, ?_⟩,
      fun s hs f hf => found_of_noSkillMdDir hw hno hW h hs hf⟩
    · rw [h.mem, h.next, h.inv.mem]
    · rw [h.index] at hp hq
      rw [(h.inv.index p i hp).2.2, (h.inv.index q i hq).2.2]
    · rw [h.children]
      split_ifs
      · exact (hW.nodup_tops hw.names).of_map
      · exact h.inv.nodup p
    · exact fun hone => (h.child hone).2.1 rfl

/-- A directory, a listed `SKILL.md` and a skill without files. -/
def mixed : List SkillInfo := [⟨"a", [⟨"d/x", 1⟩, ⟨"SKILL.md", 2⟩]⟩, ⟨"b", []⟩]

theorem mixed_ok : ∃ t, mountTree mixed = some t ∧ ∀ t', t.Like t' → TreeOk mixed t' := by
  have hx : split "d/x" = ["d", "x"] := by decide
  have hmd : split "SKILL.md" = ["SKILL.md"] := by decide
  have hw : WellFormed mixed := by
    refine ⟨by decide, by decide, by decide, ?_, ?_⟩ <;> simp [mixed, hx, hmd]
  obtain ⟨t, ht, hok⟩ := tree_ok_iff hw
  refine ⟨t, ht, fun t' hlike => (hok t' hlike).mpr ?_⟩
  simp [NoSkillMdDir, mixed, hx, hmd]

def hidden : List SkillInfo := [⟨"a", [⟨"SKILL.md/x", 1⟩]⟩]

theorem hidden_lost : WellFormed hidden ∧ ∃ t, mountTree hidden = some t ∧ ¬TreeOk hidden t := by
  have hx : split "SKILL.md/x" = ["SKILL.md", "x"] := by decide
  have hw : WellFormed hidden := by
    refine ⟨by decide, by decide, by decide, ?_, ?_⟩ <;> simp [hidden, hx]
  have hlost : ((mountTree hidden).map fun t => resolve t 1 ["a", "SKILL.md", "x"]) = some none := by decide +kernel
  obtain ⟨t, ht, hnone⟩ := Option.map_eq_some_iff.mp hlost
  refine ⟨hw, t, ht, fun hok => ?_⟩
  obtain ⟨i, -, hi, -⟩ := hok.found _ List.mem_cons_self ⟨"SKILL.md/x", 1⟩ List.mem_cons_self
  rw [hx, hnone] at hi
  cases hi

end Nexal.SkillsTree
