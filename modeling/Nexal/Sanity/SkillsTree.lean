import Mathlib.Logic.Function.Basic
import Mathlib.Logic.Relation
import Nexal.Lib.Lists
import Nexal.Spec.SkillsTree

/-! The builder of the skills tree, addition by addition. An address is the list of names from the root down; every
node gets one when it is made. The index follows the last node made at an address, and the files are exactly what
it leads to at the listed addresses. -/

namespace Nexal.SkillsTree

open SlashPath

variable {t t' : FsTree} {node : FsNode} {path : String} {parent i j : ℕ}

def FsTree.isFile (t : FsTree) (ino : ℕ) : Bool := (t.nodes.lookup ino).any FsNode.isFile

theorem isFile_of_lookup {rel : String} {size : ℕ} (h : t.nodes.lookup i = some (.file rel size)) :
    t.isFile i = true := by
  rw [FsTree.isFile, h]
  rfl

theorem isFile_iff : t.isFile i = true ↔ ∃ rel size, t.nodes.lookup i = some (.file rel size) := by
  refine ⟨fun h => ?_, fun ⟨rel, size, h⟩ => isFile_of_lookup h⟩
  rw [FsTree.isFile] at h
  cases hnode : t.nodes.lookup i with
  | none => simp [hnode] at h
  | some node =>
    cases node with
    | dir children => simp [hnode, FsNode.isFile] at h
    | file rel size => exact ⟨rel, size, rfl⟩

theorem children_of_lookup {children : List ℕ} (h : t.nodes.lookup i = some (.dir children)) :
    t.children i = children := by
  rw [FsTree.children, h]

theorem children_of_not_mem (h : i ∉ t.nodes) : t.children i = [] := by
  rw [FsTree.children, AList.lookup_eq_none.mpr h]

theorem lookup_of_not_isFile (hmem : i ∈ t.nodes) (h : t.isFile i = false) :
    t.nodes.lookup i = some (.dir (t.children i)) := by
  obtain ⟨node, hnode⟩ := Option.isSome_iff_exists.mp (AList.lookup_isSome.mpr hmem)
  cases node with
  | dir children => rw [hnode, children_of_lookup hnode]
  | file rel size => simp [isFile_of_lookup hnode] at h

theorem isFile_of_mem_children (h : j ∈ t.children i) : t.isFile i = false := by
  unfold FsTree.children at h
  split at h
  · rename_i children hnode
    simp [FsTree.isFile, hnode, FsNode.isFile]
  · cases h

theorem mem_of_children (h : j ∈ t.children i) : i ∈ t.nodes := by
  by_contra hmem
  simp [children_of_not_mem hmem] at h

/-! One addition -/

structure Added (t t' : FsTree) (node : FsNode) (path : String) (parent : ℕ) : Prop where
  next : t'.nextInode = t.nextInode + 1
  index : ∀ k, t'.pathToInode.lookup k = if k = path then some t.nextInode else t.pathToInode.lookup k
  new : t'.nodes.lookup t.nextInode = some node
  mem : ∀ j, j ∈ t'.nodes ↔ j = t.nextInode ∨ j ∈ t.nodes
  file : ∀ j, j ≠ t.nextInode → ∀ rel size,
    t'.nodes.lookup j = some (.file rel size) ↔ t.nodes.lookup j = some (.file rel size)
  children : ∀ j, t'.children j =
    if j = parent ∧ t.isFile parent = false then t.children j ++ [t.nextInode] else t.children j

theorem lookup_insert {κ β : Type*} [DecidableEq κ] (m : AList fun _ : κ => β) (k k' : κ) (b : β) :
    (m.insert k b).lookup k' = if k' = k then some b else m.lookup k' := by
  split_ifs with hk
  · rw [hk, AList.lookup_insert]
  · exact AList.lookup_insert_ne hk

theorem add_spec (path : String) (hfresh : t.nextInode ∉ t.nodes) (hparent : parent ∈ t.nodes)
    (hnode : node = .dir [] ∨ node.isFile = true) :
    ∃ t', t.add node path parent = some t' ∧ Added t t' node path parent := by
  have hne : parent ≠ t.nextInode := fun heq => hfresh (heq ▸ hparent)
  have hempty : t.children t.nextInode = [] := children_of_not_mem hfresh
  have hnew (t' : FsTree) (h : t'.nodes.lookup t.nextInode = some node) : t'.children t.nextInode = [] := by
    rcases hnode with rfl | hfile
    · exact children_of_lookup h
    · cases node with
      | dir children => cases hfile
      | file rel size => rw [FsTree.children, h]
  cases hfile : t.isFile parent with
  | true =>
    obtain ⟨rel, size, hlookup⟩ := isFile_iff.mp hfile
    refine ⟨(t.alloc node).indexPath path t.nextInode, ?_, rfl, fun k => lookup_insert _ path k _, AList.lookup_insert _,
      fun j => AList.mem_insert _, fun j hj _ _ => ?_, fun j => ?_⟩
    · simp [FsTree.add, FsTree.push, FsTree.indexPath, FsTree.alloc, hne, hlookup]
    · rw [FsTree.indexPath, FsTree.alloc, lookup_insert, if_neg hj]
    · rw [if_neg (by simp [hfile])]
      by_cases hj : j = t.nextInode
      · rw [hj, hempty]
        exact hnew _ (AList.lookup_insert _)
      · simp only [FsTree.children, FsTree.indexPath, FsTree.alloc, lookup_insert, if_neg hj]
  | false =>
    have hlookup := lookup_of_not_isFile hparent hfile
    refine ⟨{ (t.alloc node).indexPath path t.nextInode with
        nodes := (t.nodes.insert t.nextInode node).insert parent (.dir (t.children parent ++ [t.nextInode])) },
      ?_, rfl, fun k => lookup_insert _ path k _, ?_, fun j => ?_, fun j hj _ _ => ?_, fun j => ?_⟩
    · simp [FsTree.add, FsTree.push, FsTree.indexPath, FsTree.alloc, hne, hlookup]
    · rw [lookup_insert, if_neg hne.symm, AList.lookup_insert]
    · rw [AList.mem_insert, AList.mem_insert]
      refine ⟨fun h => h.elim (fun heq => .inr (heq ▸ hparent)) id, .inr⟩
    · rw [lookup_insert, lookup_insert, if_neg hj]
      split_ifs with hj'
      · rw [hj', hlookup]
        simp
      · rfl
    · by_cases hj' : j = parent
      · rw [if_pos ⟨hj', hfile⟩, hj']
        exact children_of_lookup (by rw [lookup_insert, if_pos rfl])
      · rw [if_neg (fun h => hj' h.1)]
        by_cases hj : j = t.nextInode
        · rw [hj, hempty]
          exact hnew _ (by rw [lookup_insert, if_neg hne.symm, AList.lookup_insert])
        · simp only [FsTree.children, lookup_insert, if_neg hj, if_neg hj']

namespace Added

variable (h : Added t t' node path parent)
include h

theorem isFile_new : t'.isFile t.nextInode = node.isFile := by
  simp [FsTree.isFile, h.new]

theorem isFile_of_ne (hj : j ≠ t.nextInode) : t'.isFile j = t.isFile j := by
  rw [Bool.eq_iff_iff, isFile_iff, isFile_iff]
  simp only [h.file j hj]

theorem mem_children : j ∈ t'.children i ↔
    j ∈ t.children i ∨ (i = parent ∧ t.isFile parent = false ∧ j = t.nextInode) := by
  rw [h.children]
  split_ifs with hi
  · simp [hi.1, hi.2]
  · rw [not_and] at hi
    refine ⟨.inl, fun hj => hj.elim id fun ⟨heq, hfile, _⟩ => absurd hfile (hi heq)⟩

end Added

theorem alloc_lookup (hi : i ≠ t.nextInode) : (t.alloc node).nodes.lookup i = t.nodes.lookup i :=
  AList.lookup_insert_ne hi

theorem alloc_lookup_self : (t.alloc node).nodes.lookup t.nextInode = some node := AList.lookup_insert _

theorem alloc_children (hfresh : t.nextInode ∉ t.nodes) : (t.alloc (.dir [])).children i = t.children i := by
  by_cases hi : i = t.nextInode
  · rw [hi, children_of_lookup alloc_lookup_self, children_of_not_mem hfresh]
  · rw [FsTree.children, alloc_lookup hi, FsTree.children]

theorem alloc_isFile (hfresh : t.nextInode ∉ t.nodes) : (t.alloc (.dir [])).isFile i = t.isFile i := by
  by_cases hi : i = t.nextInode
  · rw [hi, FsTree.isFile, alloc_lookup_self, FsTree.isFile, AList.lookup_eq_none.mpr hfresh]
    rfl
  · rw [FsTree.isFile, alloc_lookup hi, FsTree.isFile]

/-! What is built, and what it stands for -/

/-- The tree so far, the addresses of its nodes, the addresses of the files added, in order, the part of a path that
has been gone through, and the directories of the skills. -/
structure World where
  tree : FsTree
  addr : ℕ → List String
  files : List (List String)
  walked : List String
  tops : List ℕ

def World.init : World := ⟨.new, fun _ => [], [], [], []⟩

/-- On the way down or a directory of it. -/
def World.Known (W : World) (a : List String) : Prop := ∃ h ∈ W.walked :: W.files, a <+: h

def World.At (W : World) (parent : ℕ) : Prop :=
  W.addr parent = W.walked ∧ parent ∈ W.tree.nodes ∧
    (parent ∈ W.tops ∨ 2 ≤ W.walked.length ∧ W.tree.pathToInode.lookup (join W.walked) = some parent)

inductive Step (W : World) : World → Prop
  | top {n : String} (hn : '/' ∉ n.toList) (hwalked : W.walked.length ≤ 1) :
    Step W ⟨W.tree.alloc (.dir []), Function.update W.addr W.tree.nextInode [n], W.files, [n],
      W.tops ++ [W.tree.nextInode]⟩
  | found {x : String} (hx : '/' ∉ x.toList) (hwalked : W.walked ≠ [])
    (hfound : (W.tree.pathToInode.lookup (join (W.walked ++ [x]))).isSome = true) :
    Step W { W with walked := W.walked ++ [x] }
  | dir {x : String} {parent : ℕ} {t' : FsTree} (hx : '/' ∉ x.toList) (hat : W.At parent)
    (hnew : W.tree.pathToInode.lookup (join (W.walked ++ [x])) = none)
    (hadded : Added W.tree t' (.dir []) (join (W.walked ++ [x])) parent) :
    Step W ⟨t', Function.update W.addr W.tree.nextInode (W.walked ++ [x]), W.files, W.walked ++ [x], W.tops⟩
  | file {x : String} {size parent : ℕ} {t' : FsTree} (hx : '/' ∉ x.toList) (hat : W.At parent)
    (hadded : Added W.tree t' (.file (join (W.walked ++ [x])) size) (join (W.walked ++ [x])) parent) :
    Step W ⟨t', Function.update W.addr W.tree.nextInode (W.walked ++ [x]), W.files ++ [W.walked ++ [x]], W.walked,
      W.tops⟩
  | back (hwalked : ∃ h ∈ W.files, W.walked <+: h) : Step W { W with walked := W.walked.take 1 }
  | name {i : ℕ} (hi : i ∈ W.tops) : Step W { W with tree := W.tree.indexPath (join (W.addr i)) i }

structure Inv (W : World) : Prop where
  two : 2 ≤ W.tree.nextInode
  mem : ∀ i, i ∈ W.tree.nodes ↔ 0 < i ∧ i < W.tree.nextInode
  root : W.tree.isFile 1 = false ∧ W.tree.children 1 = []
  rootAddr : W.addr 1 = []
  top : ∀ i ∈ W.tops, i ≠ 1 ∧ i ∈ W.tree.nodes ∧ W.tree.isFile i = false ∧
    ∃ n : String, '/' ∉ n.toList ∧ W.addr i = [n]
  below : ∀ i ∈ W.tree.nodes, i ≠ 1 → i ∉ W.tops → 2 ≤ (W.addr i).length ∧ W.Known (W.addr i)
  plain : ∀ h ∈ W.walked :: W.files, Plain h
  long : ∀ g ∈ W.files, 2 ≤ g.length
  file : ∀ i rel size, W.tree.nodes.lookup i = some (.file rel size) → rel = join (W.addr i) ∧ W.addr i ∈ W.files
  child : ∀ p, ∀ c ∈ W.tree.children p, c ∈ W.tree.nodes ∧ ∃ x, W.addr c = W.addr p ++ [x]
  nodup : ∀ p, (W.tree.children p).Nodup
  single : ∀ p q c, c ∈ W.tree.children p → c ∈ W.tree.children q → p = q
  index : ∀ k i, W.tree.pathToInode.lookup k = some i → i ∈ W.tree.nodes ∧ i ≠ 1 ∧ k = join (W.addr i)
  /-- exactly the known addresses below the skills are in the index -/
  indexed : ∀ a, Plain a → 2 ≤ a.length → ((W.tree.pathToInode.lookup (join a)).isSome = true ↔ W.Known a)
  /-- and they lead to a file exactly where one is listed -/
  fileAt : ∀ a i, Plain a → 2 ≤ a.length → W.tree.pathToInode.lookup (join a) = some i →
    (W.tree.isFile i = true ↔ a ∈ W.files)

theorem mem_new : i ∈ FsTree.new.nodes ↔ i = 1 := by
  simp [FsTree.new, AList.mem_keys]

theorem lookup_new (h : FsTree.new.nodes.lookup i = some node) : node = .dir [] := by
  obtain rfl : i = 1 := mem_new.mp (AList.lookup_isSome.mp (by simp [h]))
  exact (Option.some.inj h).symm

theorem children_new (i : ℕ) : FsTree.new.children i = [] := by
  unfold FsTree.children
  split
  · rename_i children h
    exact (FsNode.dir.inj (lookup_new h))
  · rfl

theorem init_inv : Inv World.init where
  two := Nat.le_refl 2
  mem := fun i => by
    rw [World.init, mem_new]
    show i = 1 ↔ 0 < i ∧ i < 2
    omega
  root := ⟨rfl, rfl⟩
  rootAddr := rfl
  top := by simp [World.init]
  below := fun i hi hne => absurd (mem_new.mp hi) hne
  plain := by simp [World.init, Plain]
  long := by simp [World.init]
  file := fun i rel size h => by cases lookup_new h
  child := fun p c hc => by simp [World.init, children_new] at hc
  nodup := fun p => by simp [World.init, children_new]
  single := fun p q c hc => by simp [World.init, children_new] at hc
  index := by simp [World.init, FsTree.new]
  indexed := fun a _ ha => by
    have hnot : ¬a <+: [] := fun hp => by simp [List.prefix_nil.mp hp] at ha
    simp [World.init, FsTree.new, World.Known, hnot]
  fileAt := by simp [World.init, FsTree.new]

/-- What the move to `W'` shares, whichever kind of node it makes under `parent` for the next name of the walk. -/
structure NewNode (W W' : World) (node : FsNode) (parent : ℕ) (x : String) : Prop where
  here : W.At parent
  name : '/' ∉ x.toList
  added : Added W.tree W'.tree node (join (W.walked ++ [x])) parent
  addr : W'.addr = Function.update W.addr W.tree.nextInode (W.walked ++ [x])
  tops : W'.tops = W.tops
  path : ∀ rel size, node = .file rel size → rel = join (W.walked ++ [x])
  files : ∀ b, b ∈ W'.files ↔ b ∈ W.files ∨ node.isFile = true ∧ b = W.walked ++ [x]
  known : ∀ b, W'.Known b ↔ W.Known b ∨ b = W.walked ++ [x]
  unlisted : node.isFile = false → W.walked ++ [x] ∉ W.files

section Steps

variable {W W' : World} (h : Inv W)
include h

theorem Inv.fresh : W.tree.nextInode ∉ W.tree.nodes := fun hmem => Nat.lt_irrefl _ ((h.mem _).mp hmem).2

theorem Inv.next_ne_root : W.tree.nextInode ≠ 1 := by
  have := h.two
  omega

theorem Inv.walked_ne_nil (hat : W.At parent) : W.walked ≠ [] := by
  obtain ⟨haddr, -, htop | ⟨hlength, -⟩⟩ := hat
  · obtain ⟨-, -, -, n, -, hn⟩ := h.top parent htop
    simp [← haddr, hn]
  · rintro hnil
    simp [hnil] at hlength

theorem Inv.parent_ne_root (hat : W.At parent) : parent ≠ 1 := by
  rintro rfl
  exact h.walked_ne_nil hat (hat.1 ▸ h.rootAddr)

theorem Inv.plain_walked : Plain W.walked := h.plain _ List.mem_cons_self

theorem Inv.plain_concat {x : String} (hx : '/' ∉ x.toList) : Plain (W.walked ++ [x]) := fun y hy =>
  (List.mem_append.mp hy).elim (h.plain_walked y) fun hy => by rwa [List.mem_singleton.mp hy]

theorem Inv.length_concat {x : String} (hat : W.At parent) : 2 ≤ (W.walked ++ [x]).length := by
  have hpos := List.length_pos_iff.mpr (h.walked_ne_nil hat)
  rw [List.length_append, List.length_singleton]
  omega

omit h in
theorem known_of_mem {a : List String} (ha : a ∈ W.files) :
    W.Known a := ⟨a, List.mem_cons_of_mem _ ha, List.prefix_rfl⟩

theorem Inv.plain_of_known {a : List String} (ha : W.Known a) : Plain a := by
  obtain ⟨g, hg, hpre⟩ := ha
  exact (h.plain g hg).of_isPrefix hpre

/-- The addresses of the nodes other than the root. -/
theorem Inv.plain_addr (hi : i ∈ W.tree.nodes) (hne : i ≠ 1) : Plain (W.addr i) ∧ W.addr i ≠ [] := by
  by_cases htop : i ∈ W.tops
  · obtain ⟨-, -, -, n, hn, haddr⟩ := h.top i htop
    rw [haddr]
    exact ⟨by simpa [Plain] using hn, by simp⟩
  · obtain ⟨hlength, hknown⟩ := h.below i hi hne htop
    exact ⟨h.plain_of_known hknown, fun hnil => by simp [hnil] at hlength⟩

/-! A new node of either kind at the end of the walk -/

section NewNode

variable {x : String} (hn : NewNode W W' node parent x)
include hn

theorem Inv.addr_old (hi : i ∈ W.tree.nodes) : W'.addr i = W.addr i ∧ i ≠ W.tree.nextInode := by
  have hne : i ≠ W.tree.nextInode := fun heq => h.fresh (heq ▸ hi)
  exact ⟨by rw [hn.addr, Function.update_of_ne hne], hne⟩

omit h in
theorem addr_new : W'.addr W.tree.nextInode = W.walked ++ [x] := by rw [hn.addr, Function.update_self]

theorem Inv.join_new {b : List String} (hb : Plain b) (hb' : 2 ≤ b.length) :
    join b = join (W.walked ++ [x]) ↔ b = W.walked ++ [x] :=
  ⟨join_inj hb (h.plain_concat hn.name) (fun hnil => by simp [hnil] at hb') (by simp), fun heq => by rw [heq]⟩

theorem Inv.root_new : W'.tree.isFile 1 = false ∧ W'.tree.children 1 = [] := by
  have hroot := h.parent_ne_root hn.here
  rw [hn.added.isFile_of_ne h.next_ne_root.symm, hn.added.children, if_neg fun heq => hroot heq.1.symm]
  exact h.root

theorem Inv.top_new (hi : i ∈ W'.tops) :
    i ≠ 1 ∧ i ∈ W'.tree.nodes ∧ W'.tree.isFile i = false ∧ ∃ n :
    String, '/' ∉ n.toList ∧ W'.addr i = [n] := by
  obtain ⟨hi1, hmem, hfile, n, hname, hia⟩ := h.top i (hn.tops ▸ hi)
  obtain ⟨haddr, hne⟩ := h.addr_old hn hmem
  rw [hn.added.isFile_of_ne hne, hn.added.mem, haddr]
  exact ⟨hi1, .inr hmem, hfile, n, hname, hia⟩

theorem Inv.below_new (hi : i ∈ W'.tree.nodes) (hi1 : i ≠ 1) (htop : i ∉ W'.tops) :
    2 ≤ (W'.addr i).length ∧ W'.Known (W'.addr i) := by
  rw [hn.added.mem] at hi
  rw [hn.tops] at htop
  rcases hi with rfl | hi
  · rw [addr_new hn]
    exact ⟨h.length_concat hn.here, (hn.known _).mpr (.inr rfl)⟩
  · rw [(h.addr_old hn hi).1]
    exact (h.below i hi hi1 htop).imp_right fun hk => (hn.known _).mpr (.inl hk)

theorem Inv.file_new {rel : String} {size : ℕ} (hi : W'.tree.nodes.lookup i = some (.file rel size)) :
    rel = join (W'.addr i) ∧ W'.addr i ∈ W'.files := by
  by_cases hi' : i = W.tree.nextInode
  · subst hi'
    obtain rfl := Option.some.inj (hn.added.new.symm.trans hi)
    rw [addr_new hn]
    exact ⟨hn.path rel size rfl, (hn.files _).mpr (.inr ⟨rfl, rfl⟩)⟩
  · have hi := (hn.added.file i hi' rel size).mp hi
    rw [(h.addr_old hn (AList.lookup_isSome.mp (by simp [hi]))).1]
    exact (h.file i rel size hi).imp_right fun hf => (hn.files _).mpr (.inl hf)

theorem Inv.child_new {p c : ℕ} (hc : c ∈ W'.tree.children p) :
    c ∈ W'.tree.nodes ∧ ∃ y, W'.addr c = W'.addr p ++ [y] := by
  rw [hn.added.mem_children] at hc
  rw [hn.added.mem]
  rcases hc with hc | ⟨rfl, -, rfl⟩
  · obtain ⟨hmem, y, hy⟩ := h.child p c hc
    rw [(h.addr_old hn hmem).1, (h.addr_old hn (mem_of_children hc)).1]
    exact ⟨.inr hmem, y, hy⟩
  · rw [addr_new hn, (h.addr_old hn hn.here.2.1).1, hn.here.1]
    exact ⟨.inl rfl, x, rfl⟩

theorem Inv.nodup_new (p : ℕ) : (W'.tree.children p).Nodup := by
  rw [hn.added.children]
  split_ifs
  · exact (h.nodup p).append (List.nodup_singleton _)
      (List.disjoint_singleton.mpr fun hc => h.fresh (h.child p _ hc).1)
  · exact h.nodup p

theorem Inv.single_new {p q c : ℕ} (hp : c ∈ W'.tree.children p) (hq : c ∈ W'.tree.children q) : p = q := by
  rw [hn.added.mem_children] at hp hq
  rcases hp with hp | ⟨rfl, -, rfl⟩ <;> rcases hq with hq | ⟨rfl, -, hc⟩
  · exact h.single p q c hp hq
  · exact absurd (hc ▸ (h.child p c hp).1) h.fresh
  · exact absurd (h.child q _ hq).1 h.fresh
  · rfl

theorem Inv.index_new {k : String} (hi : W'.tree.pathToInode.lookup k = some i) :
    i ∈ W'.tree.nodes ∧ i ≠ 1 ∧ k = join (W'.addr i) := by
  rw [hn.added.index] at hi
  rw [hn.added.mem]
  split_ifs at hi with hk
  · obtain rfl := Option.some.inj hi
    exact ⟨.inl rfl, h.next_ne_root, by rw [addr_new hn, hk]⟩
  · obtain ⟨hmem, hi1, hjoin⟩ := h.index k i hi
    exact ⟨.inr hmem, hi1, by rw [(h.addr_old hn hmem).1, hjoin]⟩

theorem Inv.indexed_new {b : List String} (hb : Plain b) (hb' : 2 ≤ b.length) :
    (W'.tree.pathToInode.lookup (join b)).isSome = true ↔ W'.Known b := by
  rw [hn.added.index, hn.known]
  split_ifs with hk
  · simp [(h.join_new hn hb hb').mp hk]
  · rw [h.indexed b hb hb', or_iff_left fun heq => hk ((h.join_new hn hb hb').mpr heq)]

theorem Inv.fileAt_new {b : List String} (hb : Plain b) (hb' : 2 ≤ b.length)
    (hi : W'.tree.pathToInode.lookup (join b) = some i) : W'.tree.isFile i = true ↔ b ∈ W'.files := by
  rw [hn.added.index] at hi
  rw [hn.files]
  split_ifs at hi with hk
  · obtain rfl := Option.some.inj hi
    obtain rfl := (h.join_new hn hb hb').mp hk
    rw [hn.added.isFile_new, and_iff_left rfl]
    cases hfile : node.isFile with
    | true => simp
    | false => simpa using hn.unlisted hfile
  · have hmem := (h.index _ i hi).1
    rw [hn.added.isFile_of_ne (h.addr_old hn hmem).2, h.fileAt b i hb hb' hi,
      or_iff_left fun hand => hk ((h.join_new hn hb hb').mpr hand.2)]

theorem Inv.add : Inv W' where
  two := by
    rw [hn.added.next]
    exact Nat.le_succ_of_le h.two
  mem i := by
    have := h.two
    rw [hn.added.mem, hn.added.next, h.mem]
    omega
  root := h.root_new hn
  rootAddr := (h.addr_old hn ((h.mem 1).mpr ⟨Nat.one_pos, h.two⟩)).1.trans h.rootAddr
  top _ hi := h.top_new hn hi
  below _ hi hi1 htop := h.below_new hn hi hi1 htop
  plain b hb := by
    rcases (hn.known b).mp ⟨b, hb, List.prefix_rfl⟩ with hk | rfl
    · exact h.plain_of_known hk
    · exact h.plain_concat hn.name
  long b hb := by
    rcases (hn.files b).mp hb with hb | ⟨-, rfl⟩
    · exact h.long b hb
    · exact h.length_concat hn.here
  file _ _ _ hi := h.file_new hn hi
  child _ _ hc := h.child_new hn hc
  nodup p := h.nodup_new hn p
  single _ _ _ hp hq := h.single_new hn hp hq
  index _ _ hi := h.index_new hn hi
  indexed _ hb hb' := h.indexed_new hn hb hb'
  fileAt _ _ hb hb' hi := h.fileAt_new hn hb hb' hi

end NewNode

/-- The walk goes elsewhere. -/
theorem Inv.rewalk {w : List String} (hplain : Plain w)
    (hknown : ∀ b, 2 ≤ b.length → W.Known b → World.Known { W with walked := w } b)
    (hindexed : ∀ b, Plain b → 2 ≤ b.length → b <+: w → (W.tree.pathToInode.lookup (join b)).isSome = true) :
    Inv { W with walked := w } where
  two := h.two
  mem := h.mem
  root := h.root
  rootAddr := h.rootAddr
  top := h.top
  below := fun i hi hi1 htop => (h.below i hi hi1 htop).imp_right (hknown _ (h.below i hi hi1 htop).1)
  plain := List.forall_mem_cons.mpr ⟨hplain, (List.forall_mem_cons.mp h.plain).2⟩
  long := h.long
  file := h.file
  child := h.child
  nodup := h.nodup
  single := h.single
  index := h.index
  indexed := fun b hb hb' => by
    refine ⟨fun hsome => hknown b hb' ((h.indexed b hb hb').mp hsome), fun ⟨g, hg, hpre⟩ => ?_⟩
    rcases List.mem_cons.mp hg with rfl | hg
    · exact hindexed b hb hb' hpre
    · exact (h.indexed b hb hb').mpr ⟨g, List.mem_cons_of_mem _ hg, hpre⟩
  fileAt := h.fileAt

theorem Inv.top_step {n : String} (hn : '/' ∉ n.toList) (hwalked : W.walked.length ≤ 1) :
    Inv ⟨W.tree.alloc (.dir []), Function.update W.addr W.tree.nextInode [n], W.files, [n],
      W.tops ++ [W.tree.nextInode]⟩ := by
  have hfresh := h.fresh
  have hold (i : ℕ) (hi : i ∈ W.tree.nodes) : Function.update W.addr W.tree.nextInode [n] i = W.addr i ∧
    i ≠ W.tree.nextInode := by
    have hi' : i ≠ W.tree.nextInode := fun heq => hfresh (heq ▸ hi)
    exact ⟨Function.update_of_ne hi' _ _, hi'⟩
  have hmem (i : ℕ) : i ∈ (W.tree.alloc (.dir [])).nodes ↔ i = W.tree.nextInode ∨ i ∈ W.tree.nodes :=
    AList.mem_insert _
  have hself : (W.tree.alloc (.dir [])).nodes.lookup W.tree.nextInode = some (.dir []) := alloc_lookup_self
  have hchildren (i : ℕ) : (W.tree.alloc (.dir [])).children i = W.tree.children i := alloc_children hfresh
  have hfile (i : ℕ) : (W.tree.alloc (.dir [])).isFile i = W.tree.isFile i := alloc_isFile hfresh
  have hknown (b : List String) (hb : 2 ≤ b.length) (w : List String) (hw : w.length ≤ 1) :
      (∃ g ∈ w :: W.files, b <+: g) ↔ ∃ g ∈ W.files, b <+: g := by
    have hnot : ¬b <+: w := fun hp => by
      have := hp.length_le
      omega
    simp [hnot]
  have hone : 1 ∈ W.tree.nodes := (h.mem 1).mpr ⟨Nat.one_pos, h.two⟩
  exact {
    two := Nat.le_succ_of_le h.two
    mem := fun i => by
      have := h.two
      rw [hmem, h.mem]
      show _ ↔ 0 < i ∧ i < W.tree.nextInode + 1
      omega
    root := by
      rw [hfile, hchildren]
      exact h.root
    rootAddr := (hold 1 hone).1.trans h.rootAddr
    top := fun i hi => by
      rcases List.mem_append.mp hi with hi | hi
      · obtain ⟨hi1, hi', hdir, m, hm, hia⟩ := h.top i hi
        refine ⟨hi1, (hmem i).mpr (.inr hi'), (hfile i).trans hdir, m, hm, (hold i hi').1.trans hia⟩
      · obtain rfl := List.mem_singleton.mp hi
        refine ⟨h.next_ne_root, (hmem _).mpr (.inl rfl), ?_, n, hn, Function.update_self ..⟩
        rw [FsTree.isFile, hself]
        rfl
    below := fun i hi hi1 htop => by
      rw [List.mem_append, List.mem_singleton, not_or] at htop
      have hi' := ((hmem i).mp hi).resolve_left htop.2
      obtain ⟨hlength, hk⟩ := h.below i hi' hi1 htop.1
      show 2 ≤ (Function.update W.addr W.tree.nextInode [n] i).length ∧
        ∃ g ∈ [n] :: W.files, Function.update W.addr W.tree.nextInode [n] i <+: g
      rw [(hold i hi').1]
      exact ⟨hlength, (hknown _ hlength [n] (Nat.le_refl 1)).mpr ((hknown _ hlength _ hwalked).mp hk)⟩
    plain := List.forall_mem_cons.mpr ⟨by simpa [Plain] using hn, (List.forall_mem_cons.mp h.plain).2⟩
    long := h.long
    file := fun i rel size hi => by
      by_cases hi' : i = W.tree.nextInode
      · rw [hi'] at hi
        cases hself.symm.trans hi
      · have hi := (alloc_lookup hi').symm.trans hi
        show rel = join (Function.update W.addr W.tree.nextInode [n] i) ∧
          Function.update W.addr W.tree.nextInode [n] i ∈ W.files
        rw [Function.update_of_ne hi']
        exact h.file i rel size hi
    child := fun p c hc => by
      rw [hchildren] at hc
      obtain ⟨hc', y, hy⟩ := h.child p c hc
      exact ⟨(hmem c).mpr (.inr hc'), y, (hold c hc').1.trans
        (hy.trans (congrArg (· ++ [y]) (hold p (mem_of_children hc)).1.symm))⟩
    nodup := fun p => (hchildren p) ▸ h.nodup p
    single := fun p q c hp hq => h.single p q c ((hchildren p) ▸ hp) ((hchildren q) ▸ hq)
    index := fun k i hi => by
      obtain ⟨hi', hi1, hjoin⟩ := h.index k i hi
      exact ⟨(hmem i).mpr (.inr hi'), hi1, hjoin.trans (congrArg join (hold i hi').1.symm)⟩
    indexed := fun b hb hb' => (h.indexed b hb hb').trans
      ((hknown b hb' _ hwalked).trans (hknown b hb' [n] (Nat.le_refl 1)).symm)
    fileAt := fun b i hb hb' hi => (hfile i) ▸ h.fileAt b i hb hb' hi }

theorem Inv.name_step (hi : i ∈ W.tops) : Inv { W with tree := W.tree.indexPath (join (W.addr i)) i } := by
  obtain ⟨hi1, hmem, hdir, n, hn, haddr⟩ := h.top i hi
  have hlookup (k : String) : (W.tree.indexPath (join (W.addr i)) i).pathToInode.lookup k =
      if k = join (W.addr i) then some i else W.tree.pathToInode.lookup k := lookup_insert _ _ _ _
  have hne (b : List String) (hb : Plain b) (hb' : 2 ≤ b.length) : join b ≠ join (W.addr i) := fun heq => by
    rw [haddr] at heq
    have := join_inj hb (by simpa [Plain] using hn) (fun hnil => by simp [hnil] at hb') (by simp) heq
    simp [this] at hb'
  exact {
    two := h.two
    mem := h.mem
    root := h.root
    rootAddr := h.rootAddr
    top := h.top
    below := h.below
    plain := h.plain
    long := h.long
    file := h.file
    child := h.child
    nodup := h.nodup
    single := h.single
    index := fun k j hj => by
      rw [hlookup] at hj
      split_ifs at hj with hk
      · obtain rfl := Option.some.inj hj
        exact ⟨hmem, hi1, hk⟩
      · exact h.index k j hj
    indexed := fun b hb hb' => by
      rw [hlookup, if_neg (hne b hb hb')]
      exact h.indexed b hb hb'
    fileAt := fun b j hb hb' hj => by
      rw [hlookup, if_neg (hne b hb hb')] at hj
      exact h.fileAt b j hb hb' hj }

theorem Inv.step (hs : Step W W') : Inv W' := by
  cases hs with
  | top hn hwalked => exact h.top_step hn hwalked
  | name hi => exact h.name_step hi
  | back hwalked =>
    obtain ⟨g, hg, hpre⟩ := hwalked
    have hplain : Plain (W.walked.take 1) := h.plain_walked.of_isPrefix (List.take_prefix _ _)
    refine h.rewalk hplain (fun b _ ⟨g', hg', hb⟩ => ?_) fun b _ hb' hb => ?_
    · rcases List.mem_cons.mp hg' with rfl | hg'
      · exact ⟨g, List.mem_cons_of_mem _ hg, hb.trans hpre⟩
      · exact ⟨g', List.mem_cons_of_mem _ hg', hb⟩
    · have hle := hb.length_le
      rw [List.length_take] at hle
      omega
  | @found x hx hwalked hfound =>
    have hplain : Plain (W.walked ++ [x]) := h.plain_concat hx
    refine h.rewalk hplain (fun b _ ⟨g, hg, hb⟩ => ?_) fun b hb hb' hpre => ?_
    · rcases List.mem_cons.mp hg with rfl | hg
      · exact ⟨_, List.mem_cons_self, hb.trans (List.prefix_append _ _)⟩
      · exact ⟨g, List.mem_cons_of_mem _ hg, hb⟩
    · rcases List.prefix_concat_iff.mp hpre with rfl | hpre
      · exact hfound
      · exact (h.indexed b hb hb').mpr ⟨_, List.mem_cons_self, hpre⟩
  | @dir x parent t' hx hat hnew hadded =>
    have hlength : 2 ≤ (W.walked ++ [x]).length := h.length_concat hat
    have hplain : Plain (W.walked ++ [x]) := h.plain_concat hx
    refine h.add ⟨hat, hx, hadded, rfl, rfl, by simp, by simp [FsNode.isFile], fun b => ?_, fun _ hf => ?_⟩
    · simp only [World.Known, List.mem_cons, exists_eq_or_imp, List.prefix_concat_iff]
      rw [or_assoc, or_comm]
    · have hsome := (h.indexed _ hplain hlength).mpr (known_of_mem hf)
      simp [hnew] at hsome
  | @file x size parent t' hx hat hadded =>
    refine h.add ⟨hat, hx, hadded, rfl, rfl, by simp, by simp [FsNode.isFile], fun b => ?_, by simp [FsNode.isFile]⟩
    simp only [World.Known, List.mem_cons, List.mem_append, List.not_mem_nil, or_false, or_and_right, exists_or,
      exists_eq_left, List.prefix_concat_iff]
    grind

end Steps

end Nexal.SkillsTree
