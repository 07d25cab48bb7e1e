import Nexal.Sanity.SkillsTree

/-! The loops of `mount` as runs of the builder: they never panic, and add exactly the listed files and one
`SKILL.md` for each skill after its own. -/

namespace Nexal.SkillsTree

open SlashPath Relation

/-- The addresses of the files of a skill, in the order they are added. -/
def SkillInfo.addresses (skill : SkillInfo) : List (List String) :=
  skill.files.map (fun file => skill.name :: split file.path) ++ [[skill.name, "SKILL.md"]]

def addresses (skills : List SkillInfo) : List (List String) := skills.flatMap SkillInfo.addresses

variable {W W' : World} {name x : String} {parent : ℕ} {skill : SkillInfo} {skills : List SkillInfo}

theorem Inv.steps (h : Inv W) (hs : ReflTransGen Step W W') : Inv W' := by
  induction hs with
  | refl => exact h
  | tail _ hstep ih => exact ih.step hstep

/-! What stays -/

structure Grows (W W' : World) : Prop where
  nodes : ∀ i ∈ W.tree.nodes, i ∈ W'.tree.nodes ∧ W'.addr i = W.addr i
  children : ∀ p, ∀ c ∈ W.tree.children p, c ∈ W'.tree.children p
  index : ∀ k, (W.tree.pathToInode.lookup k).isSome = true → (W'.tree.pathToInode.lookup k).isSome = true
  tops : W.tops <+: W'.tops

theorem Grows.refl (W : World) : Grows W W :=
  ⟨fun _ hi => ⟨hi, rfl⟩, fun _ _ hc => hc, fun _ hk => hk, List.prefix_rfl⟩

theorem Grows.trans {W'' : World} (h : Grows W W') (h' : Grows W' W'') : Grows W W'' where
  nodes := fun i hi => ⟨(h'.nodes i (h.nodes i hi).1).1, (h'.nodes i (h.nodes i hi).1).2.trans (h.nodes i hi).2⟩
  children := fun p c hc => h'.children p c (h.children p c hc)
  index := fun k hk => h'.index k (h.index k hk)
  tops := h.tops.trans h'.tops

theorem Inv.grows_added {t' : FsTree} {node : FsNode} {path : String} {files : List (List String)} {walked a : List String}
    (h : Inv W) (hadded : Added W.tree t' node path parent) :
    Grows W ⟨t', Function.update W.addr W.tree.nextInode a, files, walked, W.tops⟩ where
  nodes := fun i hi => ⟨(hadded.mem i).mpr (.inr hi),
    Function.update_of_ne (fun heq : i = W.tree.nextInode => h.fresh (heq ▸ hi)) _ _⟩
  children := fun p c hc => hadded.mem_children.mpr (.inl hc)
  index := fun k hk => by
    rw [hadded.index]
    split_ifs
    · rfl
    · exact hk
  tops := List.prefix_rfl

theorem Inv.grows_step (h : Inv W) (hs : Step W W') : Grows W W' := by
  cases hs with
  | top =>
    refine ⟨fun i hi => ⟨AList.mem_insert _ |>.mpr (.inr hi),
      Function.update_of_ne (fun heq : i = W.tree.nextInode => h.fresh (heq ▸ hi)) _ _⟩,
      fun p c hc => ?_, fun _ hk => hk, List.prefix_append _ _⟩
    have hp : p ≠ W.tree.nextInode := fun heq => h.fresh (heq ▸ mem_of_children hc)
    simpa only [FsTree.children, FsTree.alloc, AList.lookup_insert_ne hp] using hc
  | found => exact ⟨fun _ hi => ⟨hi, rfl⟩, fun _ _ hc => hc, fun _ hk => hk, List.prefix_rfl⟩
  | dir _ _ _ hadded => exact h.grows_added hadded
  | file _ _ hadded => exact h.grows_added hadded
  | back => exact ⟨fun _ hi => ⟨hi, rfl⟩, fun _ _ hc => hc, fun _ hk => hk, List.prefix_rfl⟩
  | name =>
    refine ⟨fun _ hi => ⟨hi, rfl⟩, fun _ _ hc => hc, fun k hk => ?_, List.prefix_rfl⟩
    rw [FsTree.indexPath, lookup_insert]
    split_ifs
    · rfl
    · exact hk

theorem Inv.grows (h : Inv W) (hs : ReflTransGen Step W W') : Grows W W' := by
  induction hs with
  | refl => exact Grows.refl W
  | tail hs hstep ih => exact ih.trans ((h.steps hs).grows_step hstep)

/-! Files -/

theorem addParts_cons (name : String) (file : SkillFileInfo) (done : List String) (parent : ℕ) (t : FsTree)
    (x y : String) (rest : List String) : addParts name file done parent t (x :: y :: rest) =
      match t.pathToInode.lookup (name ++ "/" ++ join (done ++ [x])) with
      | some ino => addParts name file (done ++ [x]) ino t (y :: rest)
      | none => (t.add (.dir []) (name ++ "/" ++ join (done ++ [x])) parent).bind fun t' =>
        addParts name file (done ++ [x]) t.nextInode t' (y :: rest) := rfl

theorem Inv.addParts_steps (file : SkillFileInfo) {parts : List String} (done : List String) (h : Inv W) (hat : W.At parent)
    (hwalked : W.walked = name :: done) (hparts : Plain parts) (hne : parts ≠ [])
    (hpath : join (done ++ parts) = file.path) :
    ∃ W', ReflTransGen Step W W' ∧ addParts name file done parent W.tree parts = some W'.tree ∧
      W'.files = W.files ++ [name :: (done ++ parts)] ∧ W'.walked <+: name :: (done ++ parts) ∧
        W'.walked.take 1 = [name] ∧ W'.tops = W.tops := by
  induction parts generalizing W done parent with
  | nil => exact absurd rfl hne
  | cons x rest ih =>
    have hx : '/' ∉ x.toList := hparts x List.mem_cons_self
    have hjoin : name ++ "/" ++ join (done ++ [x]) = join (W.walked ++ [x]) := by
      rw [hwalked, List.cons_append, join_cons (by simp)]
    cases rest with
    | nil =>
      rw [hpath] at hjoin
      have hfile : (FsNode.file (join (W.walked ++ [x])) file.size).isFile = true := rfl
      obtain ⟨t', hadd, hadded⟩ := add_spec (join (W.walked ++ [x])) h.fresh hat.2.1 (.inr hfile)
      refine ⟨_, .single (.file hx hat hadded), ?_, ?_, ?_, ?_, rfl⟩
      · rw [addParts, hjoin, hadd]
      · rw [hwalked, List.cons_append]
      · show W.walked <+: _
        rw [hwalked, ← List.cons_append]
        exact List.prefix_append _ _
      · show W.walked.take 1 = _
        rw [hwalked]
        rfl
    | cons y rest =>
      have hwalked' : W.walked ++ [x] = name :: (done ++ [x]) := by rw [hwalked, List.cons_append]
      have hpath' : join ((done ++ [x]) ++ (y :: rest)) = file.path := by rw [List.append_assoc]; exact hpath
      have hlength : 2 ≤ (W.walked ++ [x]).length := by simp [hwalked]
      have hplain : Plain (W.walked ++ [x]) := h.plain_concat hx
      have hdone : done ++ x :: y :: rest = (done ++ [x]) ++ (y :: rest) := by simp
      rw [hdone, addParts_cons, hjoin]
      cases hlookup : W.tree.pathToInode.lookup (join (W.walked ++ [x])) with
      | some ino =>
        have hfound : Step W { W with walked := W.walked ++ [x] } :=
          .found hx (by simp [hwalked]) (by simp [hlookup])
        obtain ⟨hmem, hne1, haddr⟩ := h.index _ ino hlookup
        obtain ⟨hplain', hne'⟩ := h.plain_addr hmem hne1
        have hat' : World.At { W with walked := W.walked ++ [x] } ino :=
          ⟨(join_inj hplain hplain' (by simp) hne' haddr).symm, hmem, .inr ⟨hlength, hlookup⟩⟩
        obtain ⟨W', hsteps, hadd, hrest⟩ :=
          ih _ (h.step hfound) hat' hwalked' (fun z hz => hparts z (List.mem_cons_of_mem _ hz)) (by simp) hpath'
        exact ⟨W', .head hfound hsteps, hadd, hrest⟩
      | none =>
        obtain ⟨t', hadd, hadded⟩ := add_spec (join (W.walked ++ [x])) h.fresh hat.2.1 (.inl rfl)
        have hdir := Step.dir hx hat hlookup hadded
        have hat' : World.At ⟨t', Function.update W.addr W.tree.nextInode (W.walked ++ [x]), W.files, W.walked ++ [x],
          W.tops⟩
            W.tree.nextInode :=
          ⟨Function.update_self .., (hadded.mem _).mpr (.inl rfl), .inr ⟨hlength, by rw [hadded.index, if_pos rfl]⟩⟩
        obtain ⟨W', hsteps, hadd', hrest⟩ :=
          ih _ (h.step hdir) hat' hwalked' (fun z hz => hparts z (List.mem_cons_of_mem _ hz)) (by simp) hpath'
        refine ⟨W', .head hdir hsteps, ?_, hrest⟩
        rw [hadd]
        exact hadd'

theorem Inv.addFile_steps (file : SkillFileInfo) (h : Inv W) (htop : parent ∈ W.tops) (haddr : W.addr parent = [name])
    (hwalked : W.walked = [name]) : ∃ W', ReflTransGen Step W W' ∧ addFile name parent W.tree file = some W'.tree ∧
      W'.files = W.files ++ [name :: split file.path] ∧ W'.walked = [name] ∧ W'.tops = W.tops := by
  have hat : W.At parent := ⟨haddr.trans hwalked.symm, (h.top parent htop).2.1, .inl htop⟩
  obtain ⟨W', hsteps, hadd, hfiles, hpre, htake, htops⟩ := h.addParts_steps file [] hat hwalked
    (plain_split file.path) (split_ne_nil file.path) (join_split file.path)
  have hback : Step W' { W' with walked := W'.walked.take 1 } :=
    .back ⟨_, by rw [hfiles]; exact List.mem_append_right _ List.mem_cons_self, hpre⟩
  exact ⟨_, hsteps.tail hback, hadd, hfiles, htake, htops⟩

theorem Inv.addFiles_steps (files : List SkillFileInfo) (h : Inv W) (htop : parent ∈ W.tops)
    (haddr : W.addr parent = [name])
    (hwalked : W.walked = [name]) : ∃ W', ReflTransGen Step W W' ∧
      files.foldlM (addFile name parent) W.tree = some W'.tree ∧
      W'.files = W.files ++ files.map (fun file => name :: split file.path) ∧ W'.walked = [name] ∧ W'.tops = W.tops := by
  induction files generalizing W with
  | nil => exact ⟨W, .refl, rfl, by simp, hwalked, rfl⟩
  | cons file files ih =>
    obtain ⟨W₁, hsteps₁, hadd₁, hfiles₁, hwalked₁, htops₁⟩ := h.addFile_steps file htop haddr hwalked
    have haddr₁ : W₁.addr parent = [name] := ((h.grows hsteps₁).nodes parent (h.top parent htop).2.1).2.trans haddr
    obtain ⟨W₂, hsteps₂, hadd₂, hfiles₂, hwalked₂, htops₂⟩ :=
      ih (h.steps hsteps₁) (htops₁ ▸ htop) haddr₁ hwalked₁
    refine ⟨W₂, hsteps₁.trans hsteps₂, ?_, ?_, hwalked₂, htops₂.trans htops₁⟩
    · rw [List.foldlM_cons, hadd₁]
      exact hadd₂
    · rw [hfiles₂, hfiles₁, List.append_assoc, List.map_cons, List.singleton_append]

/-! Skills -/

theorem Inv.addSkill_steps (h : Inv W) (hname : '/' ∉ skill.name.toList) (hwalked : W.walked.length ≤ 1) :
    ∃ W', ReflTransGen Step W W' ∧ addSkill W.tree skill = some W'.tree ∧ W'.files = W.files ++ skill.addresses ∧
      W'.walked.length ≤ 1 ∧ W'.tops = W.tops ++ [W.tree.nextInode] ∧ W'.addr W.tree.nextInode = [skill.name] ∧
        (W'.tree.pathToInode.lookup skill.name).isSome = true := by
  have htop := Step.top (W := W) hname hwalked
  have h₁ := h.step htop
  have haddr₁ : Function.update W.addr W.tree.nextInode [skill.name] W.tree.nextInode = [skill.name] :=
    Function.update_self ..
  obtain ⟨W₂, hsteps₂, hadd₂, hfiles₂, hwalked₂, htops₂⟩ := h₁.addFiles_steps skill.files
    (List.mem_append_right _ List.mem_cons_self) haddr₁ rfl
  have h₂ := h₁.steps hsteps₂
  have hmem₂ : W.tree.nextInode ∈ W₂.tops := by
    rw [htops₂]
    exact List.mem_append_right _ List.mem_cons_self
  have haddr₂ : W₂.addr W.tree.nextInode = [skill.name] :=
    ((h₁.grows hsteps₂).nodes _ ((AList.mem_insert _).mpr (.inl rfl))).2.trans haddr₁
  have hat₂ : W₂.At W.tree.nextInode := ⟨haddr₂.trans hwalked₂.symm, (h₂.top _ hmem₂).2.1, .inl hmem₂⟩
  have hjoin : skill.name ++ "/SKILL.md" = join (W₂.walked ++ ["SKILL.md"]) := by
    have hslash : "/SKILL.md" = "/" ++ "SKILL.md" := by decide
    rw [hwalked₂, List.singleton_append, join_cons (by simp), join_singleton, hslash, String.append_assoc]
  have hisFile : (FsNode.file (join (W₂.walked ++ ["SKILL.md"])) 0).isFile = true := rfl
  obtain ⟨t₃, hadd₃, hadded₃⟩ := add_spec (join (W₂.walked ++ ["SKILL.md"])) h₂.fresh hat₂.2.1 (.inr hisFile)
  have hfile := Step.file (by decide) hat₂ hadded₃
  have h₃ := h₂.step hfile
  have haddr₃ : Function.update W₂.addr W₂.tree.nextInode (W₂.walked ++ ["SKILL.md"]) W.tree.nextInode =
    [skill.name] :=
    ((h₂.grows_step hfile).nodes _ hat₂.2.1).2.trans haddr₂
  have hlast : Step _ _ :=
    Step.name (W := ⟨t₃, Function.update W₂.addr W₂.tree.nextInode (W₂.walked ++ ["SKILL.md"]),
    W₂.files ++ [W₂.walked ++ ["SKILL.md"]], W₂.walked, W₂.tops⟩) hmem₂
  have hkey : join (Function.update W₂.addr W₂.tree.nextInode (W₂.walked ++ ["SKILL.md"]) W.tree.nextInode) =
    skill.name := by
    rw [haddr₃, join_singleton]
  refine ⟨_, ((ReflTransGen.single htop).trans hsteps₂).tail hfile |>.tail hlast, ?_, ?_, ?_, htops₂, haddr₃, ?_⟩
  · rw [addSkill]
    dsimp only
    rw [hadd₂, Option.bind_some, hjoin, hadd₃, Option.map_some, hkey]
  · show W₂.files ++ [W₂.walked ++ ["SKILL.md"]] = _
    rw [hfiles₂, hwalked₂, List.append_assoc]
    rfl
  · show W₂.walked.length ≤ 1
    rw [hwalked₂]
    rfl
  · show ((t₃.indexPath (join _) _).pathToInode.lookup skill.name).isSome = true
    rw [hkey, FsTree.indexPath, AList.lookup_insert]
    rfl

structure Built (W : World) (skills : List SkillInfo) : Prop where
  inv : Inv W
  steps : ReflTransGen Step World.init W
  files : W.files = addresses skills
  walked : W.walked.length ≤ 1
  tops : W.tops.map W.addr = skills.map fun skill => [skill.name]
  named : ∀ skill ∈ skills, (W.tree.pathToInode.lookup skill.name).isSome = true

theorem built_snoc {before : List SkillInfo} (h : Built W before) (hname : '/' ∉ skill.name.toList) :
    ∃ W', Built W' (before ++ [skill]) ∧ addSkill W.tree skill = some W'.tree ∧
    W'.tops = W.tops ++ [W.tree.nextInode] := by
  obtain ⟨W', hsteps, hadd, hfiles, hwalked, htops, haddr, hnamed⟩ := h.inv.addSkill_steps hname h.walked
  have hgrows := h.inv.grows hsteps
  refine ⟨W', ⟨h.inv.steps hsteps, h.steps.trans hsteps, ?_, hwalked, ?_, ?_⟩, hadd, htops⟩
  · rw [hfiles, h.files, addresses, addresses, List.flatMap_append, List.flatMap_singleton]
  · rw [htops, List.map_append, List.map_append, ← h.tops, List.map_singleton, haddr]
    congr 1
    exact List.map_congr_left fun i hi => (hgrows.nodes i (h.inv.top i hi).2.1).2
  · intro s hs
    rcases List.mem_append.mp hs with hs | hs
    · exact hgrows.index _ (h.named s hs)
    · rw [List.mem_singleton.mp hs]
      exact hnamed

theorem built_addSkills {before : List SkillInfo} (h : Built W before)
    (hnames : ∀ skill ∈ skills, '/' ∉ skill.name.toList) :
    ∃ W', Built W' (before ++ skills) ∧ addSkills W.tree W.tops skills = some (W'.tree, W'.tops) := by
  induction skills generalizing W before with
  | nil => exact ⟨W, by rwa [List.append_nil], rfl⟩
  | cons skill skills ih =>
    obtain ⟨W₁, h₁, hadd₁, htops₁⟩ := built_snoc h (hnames skill List.mem_cons_self)
    obtain ⟨W₂, h₂, hadd₂⟩ := ih h₁ fun s hs => hnames s (List.mem_cons_of_mem _ hs)
    refine ⟨W₂, by rwa [List.append_cons], ?_⟩
    rw [addSkills, hadd₁, Option.bind_some, ← htops₁, hadd₂]

theorem built_all (hnames : ∀ skill ∈ skills, '/' ∉ skill.name.toList) :
    ∃ W, Built W skills ∧ addSkills .new [] skills = some (W.tree, W.tops) := by
  have hinit : Built World.init [] := ⟨init_inv, .refl, rfl, Nat.zero_le 1, rfl, by simp⟩
  exact built_addSkills hinit hnames

end Nexal.SkillsTree
