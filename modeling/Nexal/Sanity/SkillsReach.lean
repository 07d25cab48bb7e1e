import Nexal.Sanity.SkillsBuild

/-! What of the tree can be reached from the directories of the skills. A path that goes through a listed file leads
nowhere. As long as no file takes the place of a directory, the reachable directories are those the index knows; as
long as none takes the place of another file either, the reachable files are, too. -/

namespace Nexal.SkillsTree

open SlashPath Relation

inductive Reach (t : FsTree) (tops : List ℕ) : ℕ → Prop
  | top {i : ℕ} (hi : i ∈ tops) : Reach t tops i
  | child {p c : ℕ} (hp : Reach t tops p) (hc : c ∈ t.children p) : Reach t tops c

/-- Some listed file is on the way. -/
def Shut (files : List (List String)) (a : List String) : Prop := ∃ g ∈ files, g <+: a

/-- The file does not take the place of a directory, unless out of reach. -/
def Keeps (files : List (List String)) (a : List String) : Prop :=
    (∃ g ∈ files, a <+: g ∧ a ≠ g) → Shut files a.dropLast

/-- Nor that of another file. -/
def Fresh (files : List (List String)) (a : List String) : Prop := (∃ g ∈ files, a <+: g) → Shut files a.dropLast

theorem Fresh.keeps {files : List (List String)} {a : List String} (h : Fresh files a) : Keeps files a :=
  fun ⟨g, hg, hpre, _⟩ => h ⟨g, hg, hpre⟩

structure Kept (W : World) : Prop where
  visible : ∀ i, Reach W.tree W.tops i → ∀ g ∈ W.files, g <+: W.addr i → g = W.addr i
  dirs : ∀ i, Reach W.tree W.tops i → W.tree.isFile i = false →
    i ∈ W.tops ∨ W.tree.pathToInode.lookup (join (W.addr i)) = some i
  edges : ∀ a i, Plain a → 2 ≤ a.length → (∀ g ∈ W.files, g <+: a → g = a) →
    W.tree.pathToInode.lookup (join a) = some i → ∃ p, Reach W.tree W.tops p ∧ i ∈ W.tree.children p

def Sole (W : World) : Prop :=
  ∀ i, Reach W.tree W.tops i → W.tree.isFile i = true → W.tree.pathToInode.lookup (join (W.addr i)) = some i

variable {W W' : World} {t' : FsTree} {node : FsNode} {path x : String} {parent i : ℕ}

theorem not_concat_prefix {a : List String} : ¬(a ++ [x] <+: a) := fun hpre => by
  have hle := hpre.length_le
  rw [List.length_append, List.length_singleton] at hle
  omega

theorem Inv.reach_mem (h : Inv W) (hi : Reach W.tree W.tops i) : i ∈ W.tree.nodes ∧ i ≠ 1 := by
  cases hi with
  | top hi => exact ⟨(h.top i hi).2.1, (h.top i hi).1⟩
  | @child p _ hp hc =>
    obtain ⟨hmem, y, hy⟩ := h.child p i hc
    refine ⟨hmem, ?_⟩
    rintro rfl
    simp [h.rootAddr] at hy

theorem Reach.mono {t t' : FsTree} {tops tops' : List ℕ} (htops : ∀ i ∈ tops, i ∈ tops')
    (hchildren : ∀ p, ∀ c ∈ t.children p, c ∈ t'.children p) (hi : Reach t tops i) : Reach t' tops' i := by
  induction hi with
  | top hi => exact .top (htops _ hi)
  | child _ hc ih => exact .child ih (hchildren _ _ hc)

theorem Reach.grows (hg : Grows W W') (hi : Reach W.tree W.tops i) : Reach W'.tree W'.tops i :=
  hi.mono (fun _ h => hg.tops.subset h) hg.children

/-- An addition brings the new node into reach if its parent is a directory in reach, and nothing else. -/
theorem Inv.reach_of_added (h : Inv W) (hparent : parent ∈ W.tree.nodes) (hadded : Added W.tree t' node path parent)
    (hi : Reach t' W.tops i) : Reach W.tree W.tops i ∨
      (i = W.tree.nextInode ∧ Reach W.tree W.tops parent ∧ W.tree.isFile parent = false) := by
  induction hi with
  | top hi => exact .inl (.top hi)
  | @child p c _ hc ih =>
    rw [hadded.mem_children] at hc
    rcases hc with hc | ⟨rfl, hdir, rfl⟩
    · rcases ih with hp | ⟨rfl, -⟩
      · exact .inl (.child hp hc)
      · exact absurd (mem_of_children hc) h.fresh
    · rcases ih with hp | ⟨heq, -⟩
      · exact .inr ⟨rfl, hp, hdir⟩
      · exact absurd (heq ▸ hparent) h.fresh

/-- The walk is in reach unless a listed file is on its way. -/
theorem Kept.reach_parent_iff (hk : Kept W) (h : Inv W) (hat : W.At parent) :
    (Reach W.tree W.tops parent ∧ W.tree.isFile parent = false) ↔ ¬Shut W.files W.walked := by
  obtain ⟨haddr, -, htop | ⟨hlength, hlookup⟩⟩ := hat
  · have hone : W.walked.length = 1 := by
      obtain ⟨-, -, -, n, -, hn⟩ := h.top parent htop
      rw [← haddr, hn, List.length_singleton]
    refine iff_of_true ⟨.top htop, (h.top parent htop).2.2.1⟩ fun ⟨g, hg, hpre⟩ => ?_
    have hlong := h.long g hg
    have hle := hpre.length_le
    omega
  · have hfileAt := h.fileAt _ _ h.plain_walked hlength hlookup
    constructor
    · rintro ⟨hreach, hdir⟩ ⟨g, hg, hpre⟩
      obtain rfl : g = W.walked := (hk.visible parent hreach g hg (haddr.symm ▸ hpre)).trans haddr
      simp [hfileAt.mpr hg] at hdir
    · intro hopen
      obtain ⟨p, hp, hc⟩ := hk.edges _ _ h.plain_walked hlength (fun g hg hpre => absurd ⟨g, hg, hpre⟩ hopen) hlookup
      refine ⟨.child hp hc, ?_⟩
      by_contra hfile
      exact hopen ⟨_, hfileAt.mp (by simpa using hfile), List.prefix_rfl⟩

theorem Inv.addr_known (h : Inv W) (hi : Reach W.tree W.tops i) (hlength : 2 ≤ (W.addr i).length) :
    W.Known (W.addr i) := by
  obtain ⟨hmem, hne⟩ := h.reach_mem hi
  refine (h.below i hmem hne fun htop => ?_).2
  obtain ⟨-, -, -, n, -, hn⟩ := h.top i htop
  simp [hn] at hlength

/-- A reachable directory other than a skill's is the index's. -/
theorem Kept.lookup_dir (hk : Kept W) (h : Inv W) (hi : Reach W.tree W.tops i) (hdir : W.tree.isFile i = false)
    (hlength : 2 ≤ (W.addr i).length) : W.tree.pathToInode.lookup (join (W.addr i)) = some i := by
  refine (hk.dirs i hi hdir).resolve_left fun htop => ?_
  obtain ⟨-, -, -, n, -, hn⟩ := h.top i htop
  simp [hn] at hlength

/-- Nothing in reach lies at or below a way that is shut. -/
theorem Kept.not_shut (hk : Kept W) (hi : Reach W.tree W.tops i) {a : List String} (hpre : a <+: W.addr i)
    (hlonger : a ≠ W.addr i) :
    ¬Shut W.files a := by
  rintro ⟨g, hg, hga⟩
  have heq := hk.visible i hi g hg (hga.trans hpre)
  subst heq
  exact hlonger (hpre.eq_of_length_le hga.length_le)

section Added

variable (h : Inv W) (hk : Kept W) (hat : W.At parent) (hx : '/' ∉ x.toList)
  (hadded : Added W.tree t' node (join (W.walked ++ [x])) parent)
include h hat hx hadded

theorem Kept.add (hkeep : ∀ i, Reach W.tree W.tops i → W.tree.isFile i = false → W.addr i ≠ W.walked ++ [x])
    (hbelow : ¬Shut W.files W.walked → ∀ i, Reach W.tree W.tops i → W.walked ++ [x] <+: W.addr i →
      W.walked ++ [x] = W.addr i)
    (htree : W'.tree = t') (htops : W'.tops = W.tops)
    (haddr : W'.addr = Function.update W.addr W.tree.nextInode (W.walked ++ [x]))
    (hfiles : ∀ g, g ∈ W'.files → g ∈ W.files ∨ g = W.walked ++ [x])
    (hsub : ∀ g ∈ W.files, g ∈ W'.files) (hk : Kept W) :
    Kept W' := by
  have hparent := hk.reach_parent_iff h hat
  have hne := h.walked_ne_nil hat
  have hplain : Plain (W.walked ++ [x]) := h.plain_concat hx
  have hold {i : ℕ} (hi : Reach W.tree W.tops i) : W'.addr i = W.addr i ∧ i ≠ W.tree.nextInode := by
    have hi' : i ≠ W.tree.nextInode := fun heq => h.fresh (heq ▸ (h.reach_mem hi).1)
    exact ⟨by rw [haddr, Function.update_of_ne hi'], hi'⟩
  have hself : W'.addr W.tree.nextInode = W.walked ++ [x] := by rw [haddr, Function.update_self]
  have hnot {a : List String} (ha : Plain a) (ha' : a ≠ []) (hother : a ≠ W.walked ++ [x]) : join a ≠
    join (W.walked ++ [x]) :=
    fun heq => hother (join_inj ha hplain ha' (by simp) heq)
  have hmono {i : ℕ} (hi : Reach W.tree W.tops i) : Reach W'.tree W'.tops i :=
    hi.mono (by simp [htops]) fun _ _ hc => by rw [htree]; exact hadded.mem_children.mpr (.inl hc)
  have hreach {i : ℕ} (hi : Reach W'.tree W'.tops i) := h.reach_of_added hat.2.1 hadded (by rwa [htree, htops] at hi)
  refine ⟨fun i hi g hg hpre => ?_, fun i hi hdir => ?_, fun a i ha hlength hvisible hlookup => ?_⟩
  · rcases hreach hi with hi | ⟨rfl, hopen⟩
    · rw [(hold hi).1] at hpre ⊢
      rcases hfiles g hg with hg | rfl
      · exact hk.visible i hi g hg hpre
      · by_cases hshut : Shut W.files W.walked
        · exact absurd hshut (hk.not_shut hi ((List.prefix_append _ _).trans hpre)
            fun heq => not_concat_prefix (heq ▸ hpre))
        · exact hbelow hshut i hi hpre
    · rw [hself] at hpre ⊢
      rcases List.prefix_concat_iff.mp hpre with heq | hpre
      · exact heq
      · rcases hfiles g hg with hg | rfl
        · exact absurd ⟨g, hg, hpre⟩ (hparent.mp hopen)
        · rfl
  · rcases hreach hi with hi | ⟨rfl, -⟩
    · obtain ⟨haddr', hi'⟩ := hold hi
      rw [htree, hadded.isFile_of_ne hi'] at hdir
      obtain ⟨hplain', hne'⟩ := h.plain_addr (h.reach_mem hi).1 (h.reach_mem hi).2
      rw [htree, htops, haddr', hadded.index, if_neg (hnot hplain' hne' (hkeep i hi hdir))]
      exact hk.dirs i hi hdir
    · right
      rw [hself, htree, hadded.index, if_pos rfl]
  · rw [htree, hadded.index] at hlookup
    split_ifs at hlookup with hkey
    · obtain rfl := Option.some.inj hlookup
      obtain rfl := join_inj ha hplain (fun hnil => by simp [hnil] at hlength) (by simp) hkey
      have hopen : ¬Shut W.files W.walked := fun ⟨g, hg, hpre⟩ => by
        have heq := hvisible g (hsub g hg) (hpre.trans (List.prefix_append _ _))
        exact not_concat_prefix (heq ▸ hpre)
      obtain ⟨hp, hdir⟩ := hparent.mpr hopen
      refine ⟨parent, hmono hp, ?_⟩
      rw [htree]
      exact hadded.mem_children.mpr (.inr ⟨rfl, hdir, rfl⟩)
    · obtain ⟨p, hp, hc⟩ := hk.edges a i ha hlength (fun g hg => hvisible g (hsub g hg)) hlookup
      refine ⟨p, hmono hp, ?_⟩
      rw [htree]
      exact hadded.mem_children.mpr (.inl hc)

theorem Sole.add (hkeep : ∀ i, Reach W.tree W.tops i → W.tree.isFile i = true → W.addr i ≠ W.walked ++ [x])
    (htree : W'.tree = t') (htops : W'.tops = W.tops)
    (haddr : W'.addr = Function.update W.addr W.tree.nextInode (W.walked ++ [x])) (hs : Sole W) : Sole W' := by
  intro i hi hfile
  have hplain : Plain (W.walked ++ [x]) := h.plain_concat hx
  rw [htree, htops] at hi
  rcases h.reach_of_added hat.2.1 hadded hi with hi | ⟨rfl, -⟩
  · obtain ⟨hmem, hne⟩ := h.reach_mem hi
    have hi' : i ≠ W.tree.nextInode := fun heq => h.fresh (heq ▸ hmem)
    obtain ⟨hplain', hne'⟩ := h.plain_addr hmem hne
    rw [htree, hadded.isFile_of_ne hi'] at hfile
    rw [haddr, Function.update_of_ne hi', htree, hadded.index,
      if_neg fun heq => hkeep i hi hfile (join_inj hplain' hplain hne' (by simp) heq)]
    exact hs i hi hfile
  · rw [haddr, Function.update_self, htree, hadded.index, if_pos rfl]

end Added

/-! Moves and runs -/

theorem Step.files_cases (hs : Step W W') : W'.files = W.files ∨ ∃ a, W'.files = W.files ++ [a] := by
  cases hs with
  | file => exact .inr ⟨_, rfl⟩
  | top | found | dir | back | name => exact .inl rfl

theorem Step.inOrder {R : List (List String) → List String → Prop} (hs : Step W W') (ho : Lists.InOrder R W'.files) :
    Lists.InOrder R W.files := by
  rcases hs.files_cases with heq | ⟨a, heq⟩
  · rwa [heq] at ho
  · rw [heq, Lists.inOrder_concat] at ho
    exact ho.1

theorem Inv.reach_top (h : Inv W)
    (hi : Reach (W.tree.alloc (.dir [])) (W.tops ++ [W.tree.nextInode]) i) :
    Reach W.tree W.tops i ∨ i = W.tree.nextInode := by
  induction hi with
  | top hi => exact (List.mem_append.mp hi).imp .top List.mem_singleton.mp
  | @child p c _ hc ih =>
    rw [alloc_children h.fresh] at hc
    rcases ih with hp | rfl
    · exact .inl (.child hp hc)
    · exact absurd (mem_of_children hc) h.fresh

/-- The key of a skill is that of nothing below one. -/
theorem Inv.skill_key (h : Inv W) (hi : i ∈ W.tops) {a : List String} (ha : Plain a) (hlength : 2 ≤ a.length) :
    join a ≠ join (W.addr i) := fun heq => by
  obtain ⟨-, -, -, n, hn, haddr⟩ := h.top i hi
  rw [haddr] at heq
  have := join_inj ha (by simpa [Plain] using hn) (fun hnil => by simp [hnil] at hlength) (by simp) heq
  simp [this] at hlength

theorem Inv.lookup_name (h : Inv W) (hi : i ∈ W.tops) {a : List String} (ha : Plain a) (hlength : 2 ≤ a.length) :
    (W.tree.indexPath (join (W.addr i)) i).pathToInode.lookup (join a) = W.tree.pathToInode.lookup (join a) :=
  AList.lookup_insert_ne (h.skill_key hi ha hlength)

theorem Inv.step_kept (h : Inv W) (hk : Kept W) (hs : Step W W') (ho : Lists.InOrder Keeps W'.files) : Kept W' := by
  have hgrows := h.grows_step hs
  cases hs with
  | @top n hn _ =>
    have hold {j : ℕ} (hj : j ∈ W.tree.nodes) : Function.update W.addr W.tree.nextInode [n] j = W.addr j :=
      Function.update_of_ne (fun heq : j = W.tree.nextInode => h.fresh (heq ▸ hj)) _ _
    refine ⟨fun j hj g hg hpre => ?_, fun j hj hdir => ?_, fun a j ha hlength hvisible hlookup => ?_⟩
    · rcases h.reach_top hj with hj | rfl
      · have hj' := hold (h.reach_mem hj).1
        exact (hk.visible j hj g hg (hj' ▸ hpre)).trans hj'.symm
      · have hlong := h.long g hg
        have hle := hpre.length_le
        dsimp only at hle
        rw [Function.update_self, List.length_singleton] at hle
        omega
    · rcases h.reach_top hj with hj | rfl
      · have hdir' : W.tree.isFile j = false := (alloc_isFile h.fresh).symm.trans hdir
        refine (hk.dirs j hj hdir').imp (List.mem_append_left _) fun hlookup => ?_
        dsimp only
        rw [hold (h.reach_mem hj).1]
        exact hlookup
      · exact .inl (List.mem_append_right _ List.mem_cons_self)
    · obtain ⟨p, hp, hc⟩ := hk.edges a j ha hlength hvisible hlookup
      exact ⟨p, hp.grows hgrows, hgrows.children p j hc⟩
  | found => exact ⟨hk.visible, hk.dirs, hk.edges⟩
  | back => exact ⟨hk.visible, hk.dirs, hk.edges⟩
  | @name i hi =>
    have hback {j : ℕ} (hj : Reach (W.tree.indexPath (join (W.addr i)) i) W.tops j) : Reach W.tree W.tops j :=
      Reach.mono (t := W.tree.indexPath (join (W.addr i)) i) (fun _ h => h) (fun _ _ hc => hc) hj
    refine ⟨fun j hj => hk.visible j (hback hj), fun j hj hdir => ?_, fun a j ha hlength hvisible hlookup => ?_⟩
    · have hj := hback hj
      by_cases htop : j ∈ W.tops
      · exact .inl htop
      · have hmem := h.reach_mem hj
        obtain ⟨hlength, hknown⟩ := h.below j hmem.1 hmem.2 htop
        right
        rw [h.lookup_name hi (h.plain_of_known hknown) hlength]
        exact hk.lookup_dir h hj hdir hlength
    · rw [h.lookup_name hi ha hlength] at hlookup
      obtain ⟨p, hp, hc⟩ := hk.edges a j ha hlength hvisible hlookup
      exact ⟨p, hp.grows hgrows, hc⟩
  | @dir x parent t' hx hat hnew hadded =>
    have hplain := h.plain_concat hx
    have hlength := h.length_concat (x := x) hat
    refine hk.add h hat hx hadded (fun i hi hdir heq => ?_) (fun _ i hi hpre => ?_) rfl rfl rfl (fun _ hg => .inl hg)
      fun _ hg => hg
    · have hlookup := hk.lookup_dir h hi hdir (heq ▸ hlength)
      rw [heq, hnew] at hlookup
      cases hlookup
    · obtain ⟨g, hg, hpre'⟩ := h.addr_known hi (hlength.trans hpre.length_le)
      have hsome := (h.indexed _ hplain hlength).mpr ⟨g, hg, hpre.trans hpre'⟩
      simp [hnew] at hsome
  | @file x size parent t' hx hat hadded =>
    have hplain := h.plain_concat hx
    have hlength := h.length_concat (x := x) hat
    have hkeeps : Keeps W.files (W.walked ++ [x]) := (Lists.inOrder_concat.mp ho).2
    rw [Keeps, List.dropLast_concat] at hkeeps
    have hwalked : ¬(W.walked ++ [x] <+: W.walked) := not_concat_prefix
    refine hk.add h hat hx hadded (fun i hi hdir heq => ?_) (fun hopen i hi hpre => ?_) rfl rfl rfl
      (fun g hg => (List.mem_append.mp hg).imp_right List.mem_singleton.mp) fun _ hg => List.mem_append_left _ hg
    · have hlookup := hk.lookup_dir h hi hdir (heq ▸ hlength)
      obtain ⟨g, hg, hpre⟩ := h.addr_known hi (heq ▸ hlength)
      rw [heq] at hpre hlookup
      rcases List.mem_cons.mp hg with rfl | hg
      · exact hwalked hpre
      · have hshut := hkeeps ⟨g, hg, hpre, fun hga => ?_⟩
        · refine hk.not_shut hi (a := W.walked) ?_ ?_ hshut
          · rw [heq]
            exact List.prefix_append _ _
          · rw [heq]
            exact fun h => by simpa using congrArg List.length h
        · have hfile := (h.fileAt _ i hplain hlength hlookup).mpr (hga ▸ hg)
          simp [hdir] at hfile
    · by_contra hne
      obtain ⟨g, hg, hpre'⟩ := h.addr_known hi (hlength.trans hpre.length_le)
      rcases List.mem_cons.mp hg with rfl | hg
      · exact hwalked (hpre.trans hpre')
      · refine hopen (hkeeps ⟨g, hg, hpre.trans hpre', fun heq => hne ?_⟩)
        exact hpre.eq_of_length_le (heq ▸ hpre'.length_le)

theorem Inv.step_sole (h : Inv W) (hk : Kept W) (hsole : Sole W) (hs : Step W W') (ho : Lists.InOrder Fresh W'.files) :
    Sole W' := by
  cases hs with
  | top =>
    intro j hj hfile
    rw [alloc_isFile h.fresh] at hfile
    rcases h.reach_top hj with hj | rfl
    · have hne : j ≠ W.tree.nextInode := fun heq => h.fresh (heq ▸ (h.reach_mem hj).1)
      dsimp only
      rw [Function.update_of_ne hne]
      exact hsole j hj hfile
    · rw [FsTree.isFile, AList.lookup_eq_none.mpr h.fresh] at hfile
      cases hfile
  | found => exact hsole
  | back => exact hsole
  | @name i hi =>
    intro j hj hfile
    have hj : Reach W.tree W.tops j :=
      Reach.mono (t := W.tree.indexPath (join (W.addr i)) i) (fun _ h => h) (fun _ _ hc => hc) hj
    have hmem := h.reach_mem hj
    have htop : j ∉ W.tops := fun htop => by
      have hdir := (h.top j htop).2.2.1
      exact Bool.false_ne_true (hdir.symm.trans hfile)
    obtain ⟨hlength, hknown⟩ := h.below j hmem.1 hmem.2 htop
    exact (h.lookup_name hi (h.plain_of_known hknown) hlength).trans (hsole j hj hfile)
  | @dir x parent t' hx hat hnew hadded =>
    refine Sole.add h hat hx hadded (fun i hi hfile heq => ?_) rfl rfl rfl hsole
    obtain ⟨rel, size, hlookup⟩ := isFile_iff.mp hfile
    have hlisted := (h.file i rel size hlookup).2
    have hsome := (h.indexed _ (h.plain_concat hx) (h.length_concat hat)).mpr (known_of_mem (heq ▸ hlisted))
    simp [hnew] at hsome
  | @file x size parent t' hx hat hadded =>
    have hfresh : Fresh W.files (W.walked ++ [x]) := (Lists.inOrder_concat.mp ho).2
    rw [Fresh, List.dropLast_concat] at hfresh
    refine Sole.add h hat hx hadded (fun i hi hfile heq => ?_) rfl rfl rfl hsole
    obtain ⟨rel, size, hlookup⟩ := isFile_iff.mp hfile
    have hlisted := (h.file i rel size hlookup).2
    refine hk.not_shut hi (a := W.walked) ?_ ?_ (hfresh ⟨_, hlisted, heq ▸ List.prefix_rfl⟩)
    · rw [heq]
      exact List.prefix_append _ _
    · rw [heq]
      exact fun h => by simpa using congrArg List.length h

theorem init_kept : Kept World.init where
  visible := by simp [World.init]
  dirs := fun i hi _ => by
    left
    induction hi with
    | top hi => exact hi
    | child _ hc => simp [World.init, children_new] at hc
  edges := by simp [World.init, FsTree.new]

theorem init_sole : Sole World.init := fun i hi hfile => by
  obtain ⟨rel, size, hlookup⟩ := isFile_iff.mp hfile
  cases lookup_new hlookup

theorem steps_kept (hs : ReflTransGen Step World.init W) (ho : Lists.InOrder Keeps W.files) : Kept W := by
  induction hs with
  | refl => exact init_kept
  | tail hs hstep ih => exact (init_inv.steps hs).step_kept (ih (hstep.inOrder ho)) hstep ho

theorem inOrder_keeps {files : List (List String)} (ho : Lists.InOrder Fresh files) : Lists.InOrder Keeps files :=
  fun before a after hcut => (ho before a after hcut).keeps

theorem steps_sole (hs : ReflTransGen Step World.init W) (ho : Lists.InOrder Fresh W.files) : Sole W := by
  induction hs with
  | refl => exact init_sole
  | tail hs hstep ih =>
    have ho' := hstep.inOrder ho
    exact (init_inv.steps hs).step_sole (steps_kept hs (inOrder_keeps ho')) (ih ho') hstep ho

/-- A node that is no child of any has a listed file above it. -/
def Placed (W : World) : Prop := ∀ i ∈ W.tree.nodes, i ≠ 1 → i ∉ W.tops →
  (∃ p, i ∈ W.tree.children p) ∨ ∃ g ∈ W.files, g <+: W.addr i ∧ g ≠ W.addr i

theorem Inv.placed_added {files : List (List String)} {walked : List String} (h : Inv W) (hat : W.At parent)
    (hadded : Added W.tree t' node path parent) (hsub : ∀ g ∈ W.files, g ∈ files) (hp : Placed W) :
    Placed ⟨t', Function.update W.addr W.tree.nextInode (W.walked ++ [x]), files, walked, W.tops⟩ := by
  intro i hi hi1 htop
  dsimp only at hi htop ⊢
  rcases (hadded.mem i).mp hi with rfl | hi
  · rw [Function.update_self]
    cases hfile : W.tree.isFile parent with
    | false => exact .inl ⟨parent, hadded.mem_children.mpr (.inr ⟨rfl, hfile, rfl⟩)⟩
    | true =>
      obtain ⟨rel, size, hlookup⟩ := isFile_iff.mp hfile
      have hlisted := (h.file parent rel size hlookup).2
      rw [hat.1] at hlisted
      exact .inr ⟨_, hsub _ hlisted, List.prefix_append _ _, fun heq => by simpa using congrArg List.length heq⟩
  · rw [Function.update_of_ne fun heq : i = W.tree.nextInode => h.fresh (heq ▸ hi)]
    refine (hp i hi hi1 htop).imp (fun ⟨p, hc⟩ => ⟨p, hadded.mem_children.mpr (.inl hc)⟩) fun ⟨g, hg,
      habove⟩ => ?_
    exact ⟨g, hsub g hg, habove⟩

theorem steps_placed (hs : ReflTransGen Step World.init W) : Placed W := by
  induction hs with
  | refl => exact fun i hi hne => absurd (mem_new.mp hi) hne
  | tail hs hstep ih =>
    have h := init_inv.steps hs
    cases hstep with
    | found => exact ih
    | back => exact ih
    | name => exact ih
    | dir hx hat _ hadded => exact h.placed_added hat hadded (fun _ hg => hg) ih
    | file hx hat hadded => exact h.placed_added hat hadded (fun _ hg => List.mem_append_left _ hg) ih
    | top =>
      intro i hi hi1 htop
      rw [List.mem_append, List.mem_singleton, not_or] at htop
      have hi := ((AList.mem_insert _).mp hi).resolve_left htop.2
      dsimp only
      rw [Function.update_of_ne htop.2]
      exact (ih i hi hi1 htop.1).imp_left fun ⟨p, hc⟩ => ⟨p, (alloc_children h.fresh).symm ▸ hc⟩

/-! Two children at one address -/

def Doubled (W : World) : Prop :=
  ∃ p i j, Reach W.tree W.tops p ∧ i ∈ W.tree.children p ∧ j ∈ W.tree.children p ∧ i ≠ j ∧
    W.addr i = W.addr j

theorem Doubled.grows (h : Inv W) (hg : Grows W W') (hd : Doubled W) : Doubled W' := by
  obtain ⟨p, i, j, hp, hi, hj, hne, haddr⟩ := hd
  refine ⟨p, i, j, hp.grows hg, hg.children p i hi, hg.children p j hj, hne, ?_⟩
  rw [(hg.nodes i (h.child p i hi).1).2, (hg.nodes j (h.child p j hj).1).2, haddr]

/-- The directories in reach have addresses of their own. -/
theorem Kept.dir_unique (hk : Kept W) (h : Inv W) (hnames : (W.tops.map W.addr).Nodup) {p q : ℕ}
    (hp : Reach W.tree W.tops p) (hpdir : W.tree.isFile p = false) (hq : Reach W.tree W.tops q)
    (hqdir : W.tree.isFile q = false) (haddr : W.addr p = W.addr q) : p = q := by
  by_cases hlength : 2 ≤ (W.addr p).length
  · have hlookup := hk.lookup_dir h hp hpdir hlength
    rw [haddr, hk.lookup_dir h hq hqdir (haddr ▸ hlength)] at hlookup
    exact (Option.some.inj hlookup).symm
  · have htop {i : ℕ} (hi : Reach W.tree W.tops i) (heq : W.addr i = W.addr p) : i ∈ W.tops := by
      by_contra hi'
      exact hlength (heq ▸ (h.below i (h.reach_mem hi).1 (h.reach_mem hi).2 hi').1)
    exact List.inj_on_of_nodup_map hnames (htop hp rfl) (htop hq haddr.symm) haddr

theorem Inv.step_doubled (h : Inv W) (hk : Kept W) (hnames : (W.tops.map W.addr).Nodup) (hs : Step W W')
    (ho : Lists.InOrder Fresh W.files) : Lists.InOrder Fresh W'.files ∨ Doubled W' := by
  cases hs with
  | top | found | dir | back | name => exact .inl ho
  | @file x size parent t' hx hat hadded =>
    rw [Lists.inOrder_concat, and_iff_right ho]
    by_cases hfresh : Fresh W.files (W.walked ++ [x])
    · exact .inl hfresh
    · right
      rw [Fresh, List.dropLast_concat, Classical.not_imp] at hfresh
      obtain ⟨⟨g, hg, hpre⟩, hopen⟩ := hfresh
      obtain ⟨hreach, hdir⟩ := (hk.reach_parent_iff h hat).mpr hopen
      have hplain := h.plain_concat hx
      have hlength : 2 ≤ (W.walked ++ [x]).length := h.length_concat hat
      obtain ⟨i, hi⟩ := Option.isSome_iff_exists.mp
        ((h.indexed _ hplain hlength).mpr ⟨g, List.mem_cons_of_mem _ hg, hpre⟩)
      obtain ⟨p, hp, hc⟩ := hk.edges _ i hplain hlength
        (fun f hf hfa => (List.prefix_concat_iff.mp hfa).resolve_right fun hfa => hopen ⟨f, hf, hfa⟩) hi
      obtain ⟨hmem, hne1, hkey⟩ := h.index _ i hi
      obtain ⟨hplain', hne'⟩ := h.plain_addr hmem hne1
      have haddr : W.addr i = W.walked ++ [x] := (join_inj hplain hplain' (by simp) hne' hkey).symm
      obtain ⟨-, y, hy⟩ := h.child p i hc
      have hpaddr : W.addr p = W.addr parent := by
        rw [hat.1]
        exact (List.append_inj' (hy.symm.trans haddr) rfl).1
      obtain rfl := hk.dir_unique h hnames hp (isFile_of_mem_children hc) hreach hdir hpaddr
      have hi' : i ≠ W.tree.nextInode := fun heq => h.fresh (heq ▸ hmem)
      have hgrows := h.grows_step (.file hx hat hadded)
      refine ⟨p, i, W.tree.nextInode, hp.grows hgrows, hgrows.children p i hc,
        hadded.mem_children.mpr (.inr ⟨rfl, hdir, rfl⟩), hi', ?_⟩
      dsimp only
      rw [Function.update_of_ne hi', Function.update_self, haddr]

theorem steps_doubled (hs : ReflTransGen Step World.init W) (hnames : (W.tops.map W.addr).Nodup) :
    Lists.InOrder Fresh W.files ∨ Doubled W := by
  induction hs with
  | refl => exact .inl Lists.inOrder_nil
  | @tail W₁ W₂ hs hstep ih =>
    have h := init_inv.steps hs
    have hgrows := h.grows_step hstep
    have hsub : (W₁.tops.map W₁.addr).Sublist (W₂.tops.map W₂.addr) := by
      have hsame : W₁.tops.map W₁.addr = W₁.tops.map W₂.addr :=
        List.map_congr_left fun i hi => (hgrows.nodes i (h.top i hi).2.1).2.symm
      rw [hsame]
      exact hgrows.tops.sublist.map _
    have hnames' := hnames.sublist hsub
    rcases ih hnames' with ho | hd
    · exact h.step_doubled (steps_kept hs (inOrder_keeps ho)) hnames' hstep ho
    · exact .inr (hd.grows h hgrows)

end Nexal.SkillsTree
