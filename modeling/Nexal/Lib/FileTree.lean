import Mathlib.Data.List.Nodup
import Mathlib.Data.List.Infix
import Mathlib.Data.List.MinMax
import Nexal.Lib.UnixPath

/-! A tree of directories, files and symbolic links, as the list of its nodes under their
locations: the names on the way down from the root. A directory lists its entries in the list's order. -/

namespace Nexal

open UnixPath (Location)

inductive Node where
  | dir
  | file (contents : List UInt8)
  | link (target : String)
  deriving DecidableEq, Repr

namespace FileTree

/-- The root is a directory that no list holds. -/
def lookup (nodes : List (Location × Node)) (l : Location) : Option Node :=
  if l = [] then some .dir else nodes.lookup l

end FileTree

structure FileTree where
  nodes : List (Location × Node)
  root : ∀ n ∈ nodes, n.1 ≠ []
  unique : (nodes.map Prod.fst).Nodup
  parents : ∀ n ∈ nodes, FileTree.lookup nodes n.1.dropLast = some .dir

namespace FileTree

theorem lookup_of_mem {nodes : List (Location × Node)} {l : Location} {x : Node} (hu : (nodes.map Prod.fst).Nodup)
    (hl : l ≠ []) : lookup nodes l = some x ↔ (l, x) ∈ nodes := by
  rw [lookup, if_neg hl]
  induction nodes with
  | nil => simp
  | cons n nodes ih =>
    obtain ⟨k, y⟩ := n
    rw [List.map_cons, List.nodup_cons] at hu
    rw [List.lookup_cons, List.mem_cons]
    by_cases hk : l = k
    · subst hk
      have hfresh : (l, x) ∉ nodes := fun hm => hu.1 (List.mem_map.mpr ⟨_, hm, rfl⟩)
      simp [hfresh, eq_comm]
    · rw [show (l == k) = false from beq_false_of_ne hk, ih hu.2]
      simp [hk]

variable {t : FileTree} {l dir : Location} {name : String} {x y : Node} {contents old : List UInt8}

def get (t : FileTree) (l : Location) : Option Node := lookup t.nodes l

@[simp] theorem get_root (t : FileTree) : t.get [] = some .dir := by simp [get, lookup]

theorem get_iff (hl : l ≠ []) : t.get l = some x ↔ (l, x) ∈ t.nodes := lookup_of_mem t.unique hl

theorem get_parent (h : t.get (l ++ [name]) = some x) : t.get l = some .dir := by
  have hmem := (get_iff (by simp)).mp h
  simpa [get] using t.parents _ hmem

/-- Whatever lies above a node is a directory. -/
theorem get_above {r : Location} (hr : r ≠ []) (h : t.get (l ++ r) = some x) : t.get l = some .dir := by
  induction r using List.reverseRecOn generalizing x with
  | nil => exact absurd rfl hr
  | append_singleton r name ih =>
    rw [← List.append_assoc] at h
    have hdir := get_parent h
    rcases eq_or_ne r [] with rfl | hne
    · simpa using hdir
    · exact ih hne hdir

theorem get_none_below {r : Location} (h : t.get l = none) : t.get (l ++ r) = none := by
  rcases eq_or_ne r [] with rfl | hne
  · simpa using h
  · by_contra hx
    obtain ⟨x, hx⟩ := Option.ne_none_iff_exists'.mp hx
    exact absurd (get_above hne hx) (by simp [h])

/-- The entries of a directory, in the order it lists them. -/
def children (t : FileTree) (l : Location) : List (String × Node) :=
  t.nodes.filterMap fun n => if n.1.dropLast = l then n.1.getLast?.map fun name => (name, n.2) else none

theorem mem_children : (name, x) ∈ t.children l ↔ t.get (l ++ [name]) = some x := by
  rw [get_iff (by simp), children, List.mem_filterMap]
  constructor
  · rintro ⟨⟨k, y⟩, hmem, hk⟩
    split_ifs at hk with hlast
    obtain ⟨m, hm, heq⟩ := Option.map_eq_some_iff.mp hk
    obtain ⟨rfl, rfl⟩ := Prod.mk.inj heq
    rw [← hlast, List.dropLast_append_getLast? _ hm]
    exact hmem
  · intro hmem
    exact ⟨_, hmem, by simp⟩

theorem children_nodup (t : FileTree) (l : Location) : ((t.children l).map Prod.fst).Nodup := by
  rw [List.Nodup, List.pairwise_map]
  refine (List.pairwise_map.mp t.unique).filterMap _ fun n n' hne e he e' he' heq => hne ?_
  split_ifs at he he' with hl hl'
  obtain ⟨name, hname, rfl⟩ := Option.map_eq_some_iff.mp he
  obtain ⟨name', hname', rfl⟩ := Option.map_eq_some_iff.mp he'
  simp only at heq
  rw [← List.dropLast_append_getLast? _ hname, ← List.dropLast_append_getLast? _ hname', hl, hl', heq]

/-- The length of the longest location in use. -/
def depth (t : FileTree) : ℕ := (t.nodes.map fun n => n.1.length).foldr max 0

theorem length_le_depth (h : t.get l = some x) : l.length ≤ t.depth := by
  rcases eq_or_ne l [] with rfl | hl
  · simp
  · have hmem := List.mem_map_of_mem (f := fun n : Location × Node => n.1.length) ((get_iff hl).mp h)
    exact List.le_max_of_le' 0 hmem le_rfl

/-- A new node in a directory that has none of this name; elsewhere nothing is made. -/
def create (t : FileTree) (dir : Location) (name : String) (x : Node) : FileTree :=
  if h : t.get dir = some .dir ∧ t.get (dir ++ [name]) = none then
    { nodes := t.nodes ++ [(dir ++ [name], x)]
      root := by
        intro n hn
        rcases List.mem_append.mp hn with hn | hn
        · exact t.root n hn
        · rw [List.mem_singleton.mp hn]
          simp
      unique := by
        rw [List.map_append, List.map_singleton, List.nodup_append]
        refine ⟨t.unique, List.nodup_singleton _, ?_⟩
        rintro k hk _ hm rfl
        obtain ⟨⟨_, y⟩, hn, rfl⟩ := List.mem_map.mp hk
        have hk : _ = dir ++ [name] := List.mem_singleton.mp hm
        simp only at hk
        subst hk
        exact absurd ((get_iff (by simp)).mpr hn) (by simp [h.2])
      parents := by
        have hkeep : ∀ l, t.get l = some .dir → lookup (t.nodes ++ [(dir ++ [name], x)]) l = some .dir := by
          intro l hl
          rw [get, lookup] at hl
          rw [lookup]
          split_ifs at hl ⊢ with hnil
          · rfl
          · rw [List.lookup_append, hl, Option.some_or]
        intro n hn
        rcases List.mem_append.mp hn with hn | hn
        · exact hkeep _ (t.parents n hn)
        · rw [List.mem_singleton.mp hn, List.dropLast_concat]
          exact hkeep _ h.1 }
  else t

theorem get_create (hdir : t.get dir = some .dir) (hfree : t.get (dir ++ [name]) = none) (l : Location) :
    (t.create dir name x).get l = if l = dir ++ [name] then some x else t.get l := by
  rw [create, dif_pos ⟨hdir, hfree⟩]
  rcases eq_or_ne l [] with rfl | hl
  · simp
  · rw [get, lookup, if_neg hl, List.lookup_append]
    have hold : t.nodes.lookup l = t.get l := by rw [get, lookup, if_neg hl]
    rw [hold]
    split_ifs with heq
    · subst heq
      rw [hfree, Option.none_or, List.lookup_cons, beq_self_eq_true]
    · rw [List.lookup_cons, beq_false_of_ne heq]
      simp

theorem children_create (hdir : t.get dir = some .dir) (hfree : t.get (dir ++ [name]) = none) (hne : l ≠ dir) :
    (t.create dir name x).children l = t.children l := by
  rw [create, dif_pos ⟨hdir, hfree⟩, children, List.filterMap_append]
  simp [children, Ne.symm hne]

def putContents (l : Location) (contents : List UInt8) (n : Location × Node) : Location × Node :=
  match n.2 with
  | .file _ => if n.1 = l then (n.1, .file contents) else n
  | _ => n

@[simp] theorem putContents_fst (n : Location × Node) : (putContents l contents n).1 = n.1 := by
  unfold putContents
  split
  · split_ifs <;> rfl
  · rfl

theorem map_putContents_fst (nodes : List (Location × Node)) :
    (nodes.map (putContents l contents)).map Prod.fst = nodes.map Prod.fst := by
  rw [List.map_map]
  exact List.map_congr_left fun n _ => putContents_fst n

theorem putContents_of_ne {n : Location × Node} (h : n.1 ≠ l) : putContents l contents n = n := by
  unfold putContents
  split
  · rw [if_neg h]
  · rfl

/-- Other contents for a file; what is none stays as it is. -/
def write (t : FileTree) (l : Location) (contents : List UInt8) : FileTree where
  nodes := t.nodes.map (putContents l contents)
  root := by
    intro n hn
    obtain ⟨m, hm, rfl⟩ := List.mem_map.mp hn
    rw [putContents_fst]
    exact t.root m hm
  unique := by
    rw [map_putContents_fst]
    exact t.unique
  parents := by
    intro n hn
    obtain ⟨m, hm, rfl⟩ := List.mem_map.mp hn
    rw [putContents_fst]
    rcases eq_or_ne m.1.dropLast [] with hnil | hne
    · rw [hnil, lookup, if_pos rfl]
    · have hdir := List.mem_map_of_mem (f := putContents l contents) ((get_iff hne).mp (t.parents m hm))
      refine (lookup_of_mem ?_ hne).mpr hdir
      rw [map_putContents_fst]
      exact t.unique

theorem get_write (hfile : t.get l = some (.file old)) (k : Location) :
    (t.write l contents).get k = if k = l then some (.file contents) else t.get k := by
  rcases eq_or_ne k [] with rfl | hk
  · have hne : [] ≠ l := by
      rintro rfl
      simp at hfile
    rw [if_neg hne, get_root, get_root]
  · cases hnode : t.get k with
    | none =>
      have hne : k ≠ l := by
        rintro rfl
        simp [hfile] at hnode
      rw [if_neg hne]
      by_contra hsome
      obtain ⟨y, hy⟩ := Option.ne_none_iff_exists'.mp hsome
      obtain ⟨m, hm, heq⟩ := List.mem_map.mp ((get_iff hk).mp hy)
      have hfst : (putContents l contents m).1 = m.1 := putContents_fst m
      have hkm : m.1 = k := by rw [← hfst, heq]
      have hget := (get_iff (t := t) (x := m.2) hk).mpr (hkm ▸ hm)
      simp [hnode] at hget
    | some y =>
      have hmem := List.mem_map_of_mem (f := putContents l contents) ((get_iff hk).mp hnode)
      split_ifs with heq
      · subst heq
        cases hfile.symm.trans hnode
        rw [putContents, if_pos rfl] at hmem
        exact (get_iff hk).mpr hmem
      · rw [putContents_of_ne heq] at hmem
        exact (get_iff hk).mpr hmem

theorem children_write (h : l.dropLast ≠ dir) : (t.write l contents).children dir = t.children dir := by
  rw [children, children, write, List.filterMap_map]
  refine List.filterMap_congr fun n _ => ?_
  rw [Function.comp_apply, putContents_fst]
  split_ifs with hlast
  · have hne : n.1 ≠ l := fun heq => h (by rw [← heq, hlast])
    rw [putContents_of_ne hne]
  · rfl

theorem lookup_filter {nodes : List (Location × Node)} (hu : (nodes.map Prod.fst).Nodup) (keep : Location → Bool)
    {k : Location} (hk : k ≠ []) (hkeep : keep k = true) : lookup (nodes.filter fun n => keep n.1) k = lookup nodes k := by
  refine Option.ext fun x => ?_
  rw [lookup_of_mem (hu.sublist (List.filter_sublist.map _)) hk, lookup_of_mem hu hk, List.mem_filter]
  exact and_iff_left hkeep

/-- Without a node and all that is below it; the root stays. -/
def remove (t : FileTree) (l : Location) : FileTree where
  nodes := t.nodes.filter fun n => !l.isPrefixOf n.1
  root n hn := t.root n (List.mem_of_mem_filter hn)
  unique := t.unique.sublist (List.filter_sublist.map _)
  parents := by
    intro n hn
    obtain ⟨hmem, hout⟩ := List.mem_filter.mp hn
    have hparent := t.parents n hmem
    rcases eq_or_ne n.1.dropLast [] with hnil | hne
    · rw [hnil, lookup, if_pos rfl]
    · rw [lookup_filter t.unique (fun k => !l.isPrefixOf k) hne, hparent]
      rw [Bool.not_eq_true', Bool.eq_false_iff, Ne, List.isPrefixOf_iff_prefix] at hout ⊢
      exact fun habove => hout (habove.trans (List.dropLast_prefix _))

theorem get_remove (t : FileTree) (l k : Location) :
    (t.remove l).get k = if l <+: k ∧ k ≠ [] then none else t.get k := by
  rcases eq_or_ne k [] with rfl | hk
  · simp
  · split_ifs with hbelow
    · by_contra hsome
      obtain ⟨x, hx⟩ := Option.ne_none_iff_exists'.mp hsome
      have hout := (List.mem_filter.mp ((get_iff hk).mp hx)).2
      rw [Bool.not_eq_true', Bool.eq_false_iff, Ne, List.isPrefixOf_iff_prefix] at hout
      exact hout hbelow.1
    · refine lookup_filter t.unique (fun k => !l.isPrefixOf k) hk ?_
      rw [Bool.not_eq_true', Bool.eq_false_iff, Ne, List.isPrefixOf_iff_prefix]
      exact fun habove => hbelow ⟨habove, hk⟩

def notBelow (l k : Location) : Bool := k == l || !l.isPrefixOf k

theorem notBelow_iff {k : Location} : notBelow l k = true ↔ ¬(l <+: k ∧ k ≠ l) := by
  rw [notBelow, Bool.or_eq_true, beq_iff_eq, Bool.not_eq_true', Bool.eq_false_iff, Ne, List.isPrefixOf_iff_prefix,
    not_and_not_right, or_comm, ← imp_iff_not_or]

/-- Without all that is below a node. -/
def clear (t : FileTree) (l : Location) : FileTree where
  nodes := t.nodes.filter fun n => notBelow l n.1
  root n hn := t.root n (List.mem_of_mem_filter hn)
  unique := t.unique.sublist (List.filter_sublist.map _)
  parents := by
    intro n hn
    obtain ⟨hmem, hkept⟩ := List.mem_filter.mp hn
    have hparent := t.parents n hmem
    rcases eq_or_ne n.1.dropLast [] with hnil | hne
    · rw [hnil, lookup, if_pos rfl]
    · rw [lookup_filter t.unique (notBelow l) hne, hparent]
      refine notBelow_iff.mpr ?_
      rintro ⟨hbelow, -⟩
      refine notBelow_iff.mp hkept ⟨hbelow.trans (List.dropLast_prefix _), ?_⟩
      -- the parent of the node itself is not below it
      intro hself
      have hlen := hbelow.length_le
      rw [← hself, List.length_dropLast] at hlen
      have hpos := List.length_pos_iff.mpr (t.root n hmem)
      omega

theorem get_clear (t : FileTree) (l k : Location) : (t.clear l).get k = if l <+: k ∧ k ≠ l then none else t.get k := by
  rcases eq_or_ne k [] with rfl | hk
  · rw [get_root, get_root, if_neg]
    rintro ⟨hbelow, hne⟩
    exact hne (List.prefix_nil.mp hbelow).symm
  · split_ifs with hbelow
    · by_contra hsome
      obtain ⟨x, hx⟩ := Option.ne_none_iff_exists'.mp hsome
      exact notBelow_iff.mp (List.mem_filter.mp ((get_iff hk).mp hx)).2 hbelow
    · exact lookup_filter t.unique (notBelow l) hk (notBelow_iff.mpr hbelow)

theorem get_of_clear (t : FileTree) (l k : Location) (x : Node) (h : (t.clear l).get k = some x) : t.get k = some x := by
  rw [get_clear] at h
  split_ifs at h
  exact h

theorem children_clear (t : FileTree) (l : Location) : (t.clear l).children l = [] := by
  refine List.eq_nil_iff_forall_not_mem.mpr ?_
  rintro ⟨name, x⟩ hmem
  have hget := mem_children.mp hmem
  rw [get_clear, if_pos ⟨List.prefix_append _ _, by simp⟩] at hget
  cases hget

end FileTree

end Nexal
