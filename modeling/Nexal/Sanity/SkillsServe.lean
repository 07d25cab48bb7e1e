import Nexal.Sanity.SkillsReach

/-! What the mounted tree answers. The name of a child is the last one of its address, unless it is a directory that
another node has replaced in the index: then `lookup` does not find it. -/

namespace Nexal.SkillsTree

open SlashPath Relation

def World.served (W : World) : FsTree := { W.tree with nodes := W.tree.nodes.insert 1 (.dir W.tops) }

variable {W : World} {t : FsTree} {skills : List SkillInfo} {i p c : ℕ} {x y : String} {a : List String}

theorem mount_built (hnames : ∀ skill ∈ skills, '/' ∉ skill.name.toList) :
    ∃ W, Built W skills ∧ mountTree skills = some W.served := by
  obtain ⟨W, hW, hadd⟩ := built_all hnames
  have hroot := lookup_of_not_isFile ((hW.inv.mem 1).mpr ⟨Nat.one_pos, hW.inv.two⟩) hW.inv.root.1
  refine ⟨W, hW, ?_⟩
  rw [mountTree, hadd, Option.bind_some]
  dsimp only
  rw [hroot]
  rfl

theorem childName_file {rel : String} {size : ℕ} (h : t.nodes.lookup i = some (.file rel size)) :
    t.childName i = some (baseName rel) := by
  rw [FsTree.childName, h]

theorem childName_dir {children : List ℕ} (h : t.nodes.lookup i = some (.dir children)) :
    t.childName i = (t.pathOf i).map baseName := by
  rw [FsTree.childName, h]

structure Serves (W : World) (t : FsTree) : Prop where
  inv : Inv W
  children : ∀ i, t.children i = if i = 1 then W.tops else W.tree.children i
  isFile : ∀ i, t.isFile i = W.tree.isFile i
  file : ∀ i rel size, t.nodes.lookup i = some (.file rel size) ↔ W.tree.nodes.lookup i = some (.file rel size)
  mem : ∀ i, i ∈ t.nodes ↔ i ∈ W.tree.nodes
  index : ∀ k, t.pathToInode.lookup k = W.tree.pathToInode.lookup k
  next : t.nextInode = W.tree.nextInode

theorem Inv.serves (h : Inv W) (hlike : W.served.Like t) : Serves W t := by
  have hone : 1 ∈ W.tree.nodes := (h.mem 1).mpr ⟨Nat.one_pos, h.two⟩
  have hlookup (i : ℕ) : t.nodes.lookup i = if i = 1 then some (.dir W.tops) else W.tree.nodes.lookup i := by
    rw [hlike.nodes]
    exact lookup_insert _ _ _ _
  have hfile (i : ℕ) (rel : String) (size : ℕ) :
      t.nodes.lookup i = some (.file rel size) ↔ W.tree.nodes.lookup i = some (.file rel size) := by
    rw [hlookup]
    split_ifs with hi
    · rw [hi, lookup_of_not_isFile hone h.root.1]
      simp
    · rfl
  refine ⟨h, fun i => ?_, fun i => ?_, hfile, fun i => ?_, fun k => AList.perm_lookup hlike.index, hlike.next⟩
  · rw [FsTree.children, hlookup]
    split_ifs
    · rfl
    · rfl
  · rw [Bool.eq_iff_iff, isFile_iff, isFile_iff]
    simp only [hfile]
  · rw [hlike.nodes]
    exact (AList.mem_insert _).trans (or_iff_right_of_imp fun hi => hi ▸ hone)

namespace Serves

variable (h : Serves W t)
include h

theorem pathOf_iff : t.pathOf i = some x ↔ W.tree.pathToInode.lookup x = some i := by
  have hentry (k : String) (j : ℕ) : Sigma.mk k j ∈ t.pathToInode.entries ↔ W.tree.pathToInode.lookup k = some j := by
    rw [← AList.mem_lookup_iff, h.index, Option.mem_def]
  have hfound (k : String) (hk : t.pathOf i = some k) : W.tree.pathToInode.lookup k = some i := by
    obtain ⟨⟨k', j⟩, hj, rfl⟩ := Option.map_eq_some_iff.mp hk
    obtain rfl : j = i := by simpa using List.find?_some hj
    exact (hentry k' j).mp (List.mem_of_find?_eq_some hj)
  refine ⟨hfound x, fun hx => ?_⟩
  cases hpath : t.pathOf i with
  | none =>
    have hnone := List.find?_eq_none.mp (Option.map_eq_none_iff.mp hpath) _ ((hentry x i).mpr hx)
    simp at hnone
  | some k =>
    rw [(h.inv.index x i hx).2.2, (h.inv.index k i (hfound k hpath)).2.2]

/-- Every child has an address one name longer than its parent's. -/
theorem child (hc : c ∈ t.children p) : c ∈ W.tree.nodes ∧ c ≠ 1 ∧ ∃ x, W.addr c = W.addr p ++ [x] := by
  rw [h.children] at hc
  split_ifs at hc with hp
  · obtain ⟨hne, hmem, -, n, -, hn⟩ := h.inv.top c hc
    exact ⟨hmem, hne, n, by rw [hp, h.inv.rootAddr, hn, List.nil_append]⟩
  · obtain ⟨hmem, x, hx⟩ := h.inv.child p c hc
    refine ⟨hmem, ?_, x, hx⟩
    rintro rfl
    simp [h.inv.rootAddr] at hx

theorem baseName_addr (hmem : i ∈ W.tree.nodes) (hne : i ≠ 1) (haddr : W.addr i = a ++ [x]) :
    baseName (join (W.addr i)) = x := by
  obtain ⟨hplain, hnil⟩ := h.inv.plain_addr hmem hne
  rw [baseName_join hplain hnil]
  simp only [haddr, List.getLast_concat]

theorem lookup_dir (hmem : i ∈ W.tree.nodes) (hdir : W.tree.isFile i = false) :
    ∃ children, t.nodes.lookup i = some (.dir children) :=
  ⟨_, lookup_of_not_isFile ((h.mem i).mpr hmem) ((h.isFile i).trans hdir)⟩

/-- What is found under a name has it. -/
theorem childName_addr (hmem : i ∈ W.tree.nodes) (hne : i ≠ 1) (haddr : W.addr i = a ++ [x])
    (hname : t.childName i = some y) :
    y = x ∧ (W.tree.isFile i = true ∨ W.tree.pathToInode.lookup (join (W.addr i)) = some i) := by
  have hbase := h.baseName_addr hmem hne haddr
  cases hfile : W.tree.isFile i with
  | true =>
    obtain ⟨rel, size, hlookup⟩ := isFile_iff.mp hfile
    rw [childName_file ((h.file i rel size).mpr hlookup), (h.inv.file i rel size hlookup).1, hbase] at hname
    exact ⟨(Option.some.inj hname).symm, .inl rfl⟩
  | false =>
    obtain ⟨children, hlookup⟩ := h.lookup_dir hmem hfile
    rw [childName_dir hlookup] at hname
    obtain ⟨k, hk, rfl⟩ := Option.map_eq_some_iff.mp hname
    have hindex := h.pathOf_iff.mp hk
    have hkey := (h.inv.index k i hindex).2.2
    exact ⟨by rw [hkey, hbase], .inr (hkey ▸ hindex)⟩

theorem childName_of (hmem : i ∈ W.tree.nodes) (hne : i ≠ 1) (haddr : W.addr i = a ++ [x])
    (hnamed : W.tree.isFile i = true ∨ W.tree.pathToInode.lookup (join (W.addr i)) = some i) :
    t.childName i = some x := by
  have hbase := h.baseName_addr hmem hne haddr
  cases hfile : W.tree.isFile i with
  | true =>
    obtain ⟨rel, size, hlookup⟩ := isFile_iff.mp hfile
    rw [childName_file ((h.file i rel size).mpr hlookup), (h.inv.file i rel size hlookup).1, hbase]
  | false =>
    obtain ⟨children, hlookup⟩ := h.lookup_dir hmem hfile
    have hindex := hnamed.resolve_left (by simp [hfile])
    rw [childName_dir hlookup, h.pathOf_iff.mpr hindex, Option.map_some, hbase]

theorem of_lookup (hc : lookup t p x = some c) : c ∈ t.children p ∧ W.addr c = W.addr p ++ [x] ∧
    (W.tree.isFile c = true ∨ W.tree.pathToInode.lookup (join (W.addr c)) = some c) := by
  have hmem := List.mem_of_find?_eq_some hc
  have hname : t.childName c = some x := by simpa using List.find?_some hc
  obtain ⟨hc', hne, y, hy⟩ := h.child hmem
  obtain ⟨rfl, hnamed⟩ := h.childName_addr hc' hne hy hname
  exact ⟨hmem, hy, hnamed⟩

theorem lookup_isSome (hc : c ∈ t.children p) (haddr : W.addr c = W.addr p ++ [x])
    (hnamed : W.tree.isFile c = true ∨ W.tree.pathToInode.lookup (join (W.addr c)) = some c) :
    (lookup t p x).isSome = true := by
  obtain ⟨hmem, hne, -⟩ := h.child hc
  rw [lookup, List.find?_isSome]
  exact ⟨c, hc, by simpa using h.childName_of hmem hne haddr hnamed⟩

end Serves

end Nexal.SkillsTree
