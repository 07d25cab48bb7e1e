import Mathlib.Algebra.BigOperators.Group.List.Basic
import Mathlib.Algebra.Ring.Nat
import Mathlib.Data.List.AList
import Mathlib.Data.List.Induction

/-! Positions of a list after one of them has been rewritten, lists put together from the
blocks of another one, and what a map has after an `insert` or `erase`. -/

namespace Nexal.Lists

variable {α : Type*}

theorem getElem?_set_cases {l : List α} {i j : ℕ} {a b : α} (h : (l.set i a)[j]? = some b) :
    (j = i ∧ b = a) ∨ (j ≠ i ∧ l[j]? = some b) := by
  rw [List.getElem?_set] at h
  split_ifs at h with hij hlt
  · exact Or.inl ⟨hij.symm, (Option.some.inj h).symm⟩
  · exact Or.inr ⟨fun hji => hij hji.symm, h⟩

theorem getElem?_set_self_of_some {l : List α} {i : ℕ} {a b : α} (h : l[i]? = some b) :
    (l.set i a)[i]? = some a :=
  List.getElem?_set_self (List.getElem?_eq_some_iff.mp h).1

theorem getElem?_set_of_some {l : List α} {i : ℕ} {b : α} (h : l[i]? = some b) (a : α) (j : ℕ) :
    (l.set i a)[j]? = if j = i then some a else l[j]? := by
  by_cases hij : j = i
  · subst hij
    rw [if_pos rfl, getElem?_set_self_of_some h]
  · rw [if_neg hij, List.getElem?_set_ne (Ne.symm hij)]

theorem getElem?_concat_cases {l : List α} {i : ℕ} {a b : α} (h : (l ++ [a])[i]? = some b) :
    l[i]? = some b ∨ b = a := by
  by_cases hlt : i < l.length
  · rw [List.getElem?_append_left hlt] at h
    exact Or.inl h
  · rw [List.getElem?_append_right (Nat.not_lt.mp hlt)] at h
    exact Or.inr (List.mem_singleton.mp (List.mem_of_getElem? h))

theorem getElem?_append_of_some {l : List α} {i : ℕ} {a : α} (h : l[i]? = some a) (l' : List α) :
    (l ++ l')[i]? = some a :=
  (List.getElem?_append_left (List.getElem?_eq_some_iff.mp h).1).trans h

theorem getElem?_concat (l : List α) (a : α) (i : ℕ) : (l ++ [a])[i]? = if i = l.length then some a else l[i]? := by
  rw [List.getElem?_append]
  split_ifs with hlt heq heq
  · exact absurd hlt (heq ▸ Nat.lt_irrefl _)
  · rfl
  · rw [heq, Nat.sub_self]
    rfl
  · have hle : l.length ≤ i := Nat.not_lt.mp hlt
    have hone : [a].length ≤ i - l.length := by
      rw [List.length_singleton]
      omega
    rw [List.getElem?_eq_none hle, List.getElem?_eq_none hone]

theorem exists_cut_set {l : List α} {i : ℕ} {a : α} (h : l[i]? = some a) :
    ∃ before after, l = before ++ a :: after ∧ ∀ b, l.set i b = before ++ b :: after := by
  obtain ⟨hi, rfl⟩ := List.getElem?_eq_some_iff.mp h
  refine ⟨l.take i, l.drop (i + 1), ?_, fun b => List.set_eq_take_append_cons_drop.trans (if_pos hi)⟩
  rw [List.getElem_cons_drop, List.take_append_drop]

/-- What only one element meets. -/
theorem filter_eq_of_only {q : α → Bool} {l : List α} {i : ℕ} {a : α} (h : l[i]? = some a) (hq : q a = true)
    (honly : ∀ (j : ℕ) (b : α), l[j]? = some b → q b = true → j = i) : l.filter q = [a] := by
  induction l generalizing i with
  | nil => cases h
  | cons c l ih =>
    cases i with
    | zero =>
      cases h
      have hrest : l.filter q = [] := List.filter_eq_nil_iff.mpr fun b hb hqb => by
        obtain ⟨j, hj⟩ := List.mem_iff_getElem?.mp hb
        exact nomatch honly (j + 1) b hj hqb
      rw [List.filter_cons_of_pos hq, hrest]
    | succ i =>
      have hne : ¬q c = true := fun hqc => nomatch honly 0 c rfl hqc
      rw [List.filter_cons_of_neg hne]
      exact ih h fun j b hj hqb => Nat.succ.inj (honly (j + 1) b hj hqb)

theorem map_set_of_eq {β : Type*} {f : α → β} {l : List α} {i : ℕ} {a b : α} (h : l[i]? = some b)
    (hf : f a = f b) : (l.set i a).map f = l.map f := by
  refine List.ext_getElem? fun j => ?_
  rw [List.getElem?_map, List.getElem?_map, List.getElem?_set]
  split_ifs with hij hlt
  · subst hij
    rw [h, Option.map_some, Option.map_some, hf]
  · subst hij
    rw [List.getElem?_eq_none (by omega)] at h
    cases h
  · rfl

theorem sum_map_set {f : α → ℕ} {l : List α} {i : ℕ} {a b : α} (h : l[i]? = some b) :
    ((l.set i a).map f).sum + f b = (l.map f).sum + f a := by
  induction l generalizing i with
  | nil => simp at h
  | cons x l ih =>
    cases i with
    | zero =>
      obtain rfl : x = b := by simpa using h
      simp only [List.set_cons_zero, List.map_cons, List.sum_cons]
      omega
    | succ i =>
      have := ih (by simpa using h)
      simp only [List.set_cons_succ, List.map_cons, List.sum_cons]
      omega

theorem filterMap_set_perm {β : Type*} {g : α → Option β} {l : List α} {i : ℕ} {a b : α} (h : l[i]? = some a) :
    ((g a).toList ++ (l.set i b).filterMap g).Perm ((g b).toList ++ l.filterMap g) := by
  have hcons : ∀ (x : α) (l : List α), (x :: l).filterMap g = (g x).toList ++ l.filterMap g := by
    intro x l
    rw [List.filterMap_cons]
    cases g x <;> rfl
  induction l generalizing i with
  | nil => simp at h
  | cons x l ih =>
    cases i with
    | zero =>
      obtain rfl : x = a := by simpa using h
      rw [List.set_cons_zero, hcons, hcons, ← List.append_assoc, ← List.append_assoc]
      exact List.perm_append_comm.append_right _
    | succ i =>
      have hi : ((g a).toList ++ (l.set i b).filterMap g).Perm ((g b).toList ++ l.filterMap g) :=
        ih (by simpa using h)
      rw [List.set_cons_succ, hcons, hcons]
      refine (List.perm_append_comm_assoc _ _ _).trans ((hi.append_left _).trans ?_)
      exact List.perm_append_comm_assoc _ _ _

theorem exists_getElem?_of_mem {l : List α} {a : α} (h : a ∈ l) : ∃ i : ℕ, l[i]? = some a :=
  List.mem_iff_getElem?.mp h

/-- Rewriting a position loses at most its old element. -/
theorem mem_set_of_mem {l : List α} {i : ℕ} {a b c : α} (h : l[i]? = some b) (hc : c ∈ l) :
    c = b ∨ c ∈ l.set i a := by
  obtain ⟨j, hj⟩ := exists_getElem?_of_mem hc
  by_cases hij : i = j
  · subst hij
    exact Or.inl (Option.some.inj (hj.symm.trans h))
  · exact Or.inr (List.mem_of_getElem? ((List.getElem?_set_ne hij).trans hj))

/-- What holds of some element still does when the one rewritten hands it on. -/
theorem exists_mem_set {P : α → Prop} {l : List α} {i : ℕ} {a b : α} (h : l[i]? = some b)
    (hex : ∃ c ∈ l, P c ∧ (c = b → P a)) : ∃ c ∈ l.set i a, P c := by
  obtain ⟨c, hc, hPc, hP⟩ := hex
  have hlt := (List.getElem?_eq_some_iff.mp h).1
  rcases mem_set_of_mem h hc with heq | hc'
  · exact ⟨a, List.mem_set hlt a, hP heq⟩
  · exact ⟨c, hc', hPc⟩

theorem forall_mem_modify {P : α → Prop} {l : List α} {i : ℕ} {f : α → α} (h : ∀ a ∈ l, P a)
    (hf : ∀ a, l[i]? = some a → P a → P (f a)) : ∀ a ∈ l.modify i f, P a := by
  intro b hb
  obtain ⟨j, hj⟩ := exists_getElem?_of_mem hb
  rw [List.getElem?_modify] at hj
  obtain ⟨a, ha, rfl⟩ := Option.map_eq_some_iff.mp hj
  have hP := h a (List.mem_of_getElem? ha)
  split_ifs with hij
  · exact hf a (hij ▸ ha) hP
  · exact hP

theorem map_modify_of_eq {β : Type*} {g : α → β} {f : α → α} (h : ∀ a, g (f a) = g a) (l : List α) (i : ℕ) :
    (l.modify i f).map g = l.map g := by
  refine List.ext_getElem? fun j => ?_
  rw [List.getElem?_map, List.getElem?_map, List.getElem?_modify, Option.map_eq_map, Option.map_map]
  congr 1
  funext a
  rw [Function.comp_apply]
  split_ifs
  · exact h a
  · rfl

/-- Rewriting an element to one that meets `p` no sooner. -/
theorem countP_modify_le {p : α → Bool} {f : α → α} (h : ∀ a, p (f a) = true → p a = true) (l : List α)
    (i : ℕ) :
    (l.modify i f).countP p ≤ l.countP p := by
  induction l generalizing i with
  | nil => rw [List.modify_nil]
  | cons a l ih =>
    cases i with
    | zero =>
      rw [List.modify_zero_cons, List.countP_cons, List.countP_cons]
      refine Nat.add_le_add_left ?_ _
      split_ifs with hafter hbefore
      · exact Nat.le_refl 1
      · exact absurd (h a hafter) hbefore
      · exact Nat.zero_le 1
      · exact Nat.le_refl 0
    | succ i =>
      rw [List.modify_succ_cons, List.countP_cons, List.countP_cons]
      exact Nat.add_le_add_right (ih i) _

theorem mem_of_lookup_eq_some {κ β : Type*} [BEq κ] [LawfulBEq κ] {l : List (κ × β)} {k : κ} {b : β}
    (h : l.lookup k = some b) : (k, b) ∈ l := by
  obtain ⟨l₁, l₂, rfl, -⟩ := List.lookup_eq_some_iff.mp h
  exact List.mem_append_right l₁ List.mem_cons_self

theorem lookup_eq_some_of_mem {κ β : Type*} [BEq κ] [LawfulBEq κ] {l : List (κ × β)} {k : κ} {b : β}
    (hkeys : (l.map (·.1)).Nodup) (h : (k, b) ∈ l) : l.lookup k = some b := by
  obtain ⟨l₁, l₂, rfl⟩ := List.append_of_mem h
  refine List.lookup_eq_some_iff.mpr ⟨l₁, l₂, rfl, fun p hp => bne_iff_ne.mpr fun heq => ?_⟩
  rw [List.map_append, List.map_cons] at hkeys
  exact (List.nodup_append.mp hkeys).2.2 p.1 (List.mem_map_of_mem hp) k List.mem_cons_self heq.symm

theorem lookup_map_at {κ β : Type*} [DecidableEq κ] (f : β → β) (k k' : κ) (l : List (κ × β)) :
    (l.map fun p => if p.1 = k then (p.1, f p.2) else p).lookup k' = (l.lookup k').map (if k' = k then f else id) := by
  induction l with
  | nil => rfl
  | cons p l ih =>
    rw [List.map_cons, List.lookup_cons, List.lookup_cons, ih]
    have hkey : (if p.1 = k then (p.1, f p.2) else p).1 = p.1 := by split_ifs <;> rfl
    rw [hkey]
    cases hp : k' == p.1 with
    | false => rfl
    | true =>
      rw [eq_of_beq hp]
      split_ifs <;> rfl

theorem lookup_filter_ne {κ β : Type*} [DecidableEq κ] (k k' : κ) (l : List (κ × β)) :
    (l.filter fun p => p.1 ≠ k).lookup k' = if k' = k then none else l.lookup k' := by
  induction l with
  | nil => simp
  | cons p l ih =>
    rw [List.filter_cons, List.lookup_cons]
    by_cases hp : p.1 = k
    · rw [if_neg (by simp [hp]), ih]
      split_ifs with hk
      · rfl
      · rw [beq_false_of_ne (fun heq => hk (heq.trans hp))]
    · rw [if_pos (by simp [hp]), List.lookup_cons, ih]
      cases hkey : k' == p.1 with
      | false => rfl
      | true => exact (if_neg fun hk => hp (eq_of_beq hkey ▸ hk)).symm

/-- The last element with a property. -/
theorem reverse_find?_eq_some_iff {p : α → Bool} {l : List α} {a : α} :
    l.reverse.find? p = some a ↔ ∃ older newer, l = older ++ a :: newer ∧ p a = true ∧ ∀ b ∈ newer,
      p b = false := by
  rw [List.find?_eq_some_iff_append]
  constructor
  · rintro ⟨ha, newer, older, hl, hnewer⟩
    refine ⟨older.reverse, newer.reverse, ?_, ha, fun b hb => ?_⟩
    · rw [← List.reverse_reverse l, hl]
      simp
    · simpa using hnewer b (List.mem_reverse.mp hb)
  · rintro ⟨older, newer, rfl, ha, hnewer⟩
    refine ⟨ha, newer.reverse, older.reverse, by simp, fun b hb => ?_⟩
    simpa using hnewer b (List.mem_reverse.mp hb)

theorem mapIdx_map {β γ : Type*} (f : ℕ → β → γ) (g : α → β) (l : List α) :
    (l.map g).mapIdx f = l.mapIdx fun i a => f i (g a) :=
  List.ext_getElem (by simp) fun i _ _ => by simp

theorem forall₂_mapIdx {β : Type*} {R : α → β → Prop} {f : ℕ → α → β} {l : List α}
    (h : ∀ i, ∀ a ∈ l, R a (f i a)) :
    List.Forall₂ R l (l.mapIdx f) := by
  refine List.forall₂_iff_get.mpr ⟨List.length_mapIdx.symm, fun i hi hi' => ?_⟩
  rw [List.get_eq_getElem, List.get_eq_getElem, List.getElem_mapIdx]
  exact h i _ (List.getElem_mem hi)

theorem find?_rel {β : Type*} {R : α → β → Prop} {p : α → Bool} {q : β → Bool}
    (hpq : ∀ a b, R a b → p a = q b)
    {l : List α} {l' : List β} (h : List.Forall₂ R l l') : Option.Rel R (l.find? p) (l'.find? q) := by
  induction h with
  | nil => exact .none
  | @cons a b l l' hab _ ih =>
    rw [List.find?_cons, List.find?_cons, hpq a b hab]
    cases q b with
    | true => exact .some hab
    | false => exact ih

section Lookup
variable {κ β : Type*} [DecidableEq κ] {m : AList fun _ : κ => β} {k k' : κ} {b b' : β}

theorem lookup_of_erase (h : (m.erase k).lookup k' = some b) : k' ≠ k ∧ m.lookup k' = some b := by
  have hne : k' ≠ k := by
    rintro rfl
    rw [AList.lookup_erase] at h
    cases h
  exact ⟨hne, (AList.lookup_erase_ne hne).symm.trans h⟩

theorem lookup_of_insert (h : (m.insert k b).lookup k' = some b') :
    (k' = k ∧ b' = b) ∨ (k' ≠ k ∧ m.lookup k' = some b') := by
  by_cases hk : k' = k
  · subst hk
    rw [AList.lookup_insert] at h
    exact Or.inl ⟨rfl, (Option.some.inj h).symm⟩
  · exact Or.inr ⟨hk, (AList.lookup_insert_ne hk).symm.trans h⟩

end Lookup

/-- Two cuts of one list at the same separator are one cut, or one comes before the other. -/
theorem cut_cases {a b c d : List α} {x : α} (h : a ++ x :: b = c ++ x :: d) :
    (a = c ∧ b = d) ∨ (∃ u, a = c ++ x :: u ∧ d = u ++ x :: b) ∨ ∃ u, c = a ++ x :: u ∧ b = u ++ x :: d := by
  rcases List.append_eq_append_iff.mp h with ⟨u, hc, hb⟩ | ⟨u, ha, hd⟩
  · cases u with
    | nil =>
      rw [List.append_nil] at hc
      exact Or.inl ⟨hc.symm, (List.cons.inj hb).2⟩
    | cons y u =>
      obtain ⟨rfl, htail⟩ := List.cons.inj hb
      exact Or.inr (Or.inr ⟨u, hc, htail⟩)
  · cases u with
    | nil =>
      rw [List.append_nil] at ha
      exact Or.inl ⟨ha, (List.cons.inj hd).2.symm⟩
    | cons y u =>
      obtain ⟨rfl, htail⟩ := List.cons.inj hd
      exact Or.inr (Or.inl ⟨u, ha, htail⟩)

theorem cut_unique {a b c d : List α} {x : α} (ha : x ∉ a) (hc : x ∉ c) (h : a ++ x :: b = c ++ x :: d) :
    a = c ∧ b = d := by
  rcases cut_cases h with heq | ⟨u, rfl, -⟩ | ⟨u, rfl, -⟩
  · exact heq
  · exact absurd (List.mem_append_right c List.mem_cons_self) ha
  · exact absurd (List.mem_append_right a List.mem_cons_self) hc

/-- Every element with `P` has one with `Q` before it. -/
def Preceded (P Q : α → Prop) (l : List α) : Prop :=
    ∀ before a after, l = before ++ a :: after → P a → ∃ b ∈ before, Q b

theorem preceded_nil {P Q : α → Prop} : Preceded P Q [] := by
  intro before a after h
  exact absurd h.symm (List.append_ne_nil_of_right_ne_nil before (List.cons_ne_nil a after))

theorem Preceded.concat {P Q : α → Prop} {l : List α} {a : α} (h : Preceded P Q l) (ha : P a → ∃ b ∈ l, Q b) :
    Preceded P Q (l ++ [a]) := by
  intro before b after hcut hb
  rcases List.append_eq_append_iff.mp hcut with ⟨u, hbefore, hrest⟩ | ⟨u, hl, hrest⟩
  · -- the cut is at the new element
    cases u with
    | nil =>
      obtain ⟨rfl, -⟩ := List.cons.inj hrest
      rw [List.append_nil] at hbefore
      exact hbefore ▸ ha hb
    | cons c u =>
      obtain ⟨-, hnil⟩ := List.cons.inj hrest
      exact absurd hnil.symm (List.append_ne_nil_of_right_ne_nil u (List.cons_ne_nil b after))
  · cases u with
    | nil =>
      obtain ⟨rfl, -⟩ := List.cons.inj hrest
      rw [List.append_nil] at hl
      exact hl ▸ ha hb
    | cons c u =>
      obtain ⟨rfl, -⟩ := List.cons.inj hrest
      exact h before b u hl hb

theorem flatMap_filter {β : Type*} (p : α → Bool) (f : α → List β) (l : List α) :
    (l.filter p).flatMap f = l.flatMap fun a => if p a then f a else [] := by
  induction l with
  | nil => rfl
  | cons a l ih =>
    rw [List.flatMap_cons, List.filter_cons]
    split_ifs with h
    · rw [List.flatMap_cons, ih]
    · rw [ih, List.nil_append]

theorem filter_filter_eq_iff {p q : α → Bool} {l : List α} :
    (l.filter p).filter q = l.filter q ↔ ∀ a ∈ l, q a = true → p a = true := by
  rw [List.filter_filter]
  constructor
  · intro h a ha hq
    have hmem : a ∈ l.filter q := List.mem_filter.mpr ⟨ha, hq⟩
    rw [← h, List.mem_filter, Bool.and_eq_true] at hmem
    exact hmem.2.2
  · intro h
    refine List.filter_congr fun a ha => ?_
    cases hq : q a with
    | true => rw [h a ha hq, Bool.and_self]
    | false => rw [Bool.false_and]

/-- The last element of a list of blocks stands in the last block that is not empty. -/
theorem getLast?_flatMap_filter {β : Type*} {p : α → Bool} {f : α → List β} {last : α → Option β} {l : List α}
    (hpos : ∀ a ∈ l, p a = true → (f a).getLast? = last a ∧ (last a).isSome)
    (hneg : ∀ a ∈ l, p a = false → f a = []) :
    (l.flatMap f).getLast? = (l.filter p).getLast?.bind last := by
  induction l using List.reverseRecOn with
  | nil => rfl
  | append_singleton l a ih =>
    have ih := ih (fun b hb => hpos b (List.mem_append_left [a] hb))
      (fun b hb => hneg b (List.mem_append_left [a] hb))
    have ha : a ∈ l ++ [a] := List.mem_append_right l List.mem_cons_self
    rw [List.flatMap_append, List.getLast?_append, ih, List.flatMap_singleton, List.filter_append,
      List.filter_singleton]
    cases hp : p a with
    | true =>
      obtain ⟨hlast, hsome⟩ := hpos a ha hp
      obtain ⟨b, hb⟩ := Option.isSome_iff_exists.mp hsome
      simp [hlast, hb]
    | false => simp [hneg a ha hp]

/-- An element that nothing in the list comes after is the last one. -/
theorem getLast?_of_pairwise {r : α → α → Prop} {l : List α} {a : α} (h : l.Pairwise r) (ha : a ∈ l)
    (hmax : ∀ b ∈ l, ¬ r a b) : l.getLast? = some a := by
  obtain ⟨s, t, rfl⟩ := List.append_of_mem ha
  cases t with
  | nil => exact List.getLast?_concat
  | cons b t =>
    have hb : b ∈ s ++ a :: b :: t := by simp
    exact absurd (List.rel_of_pairwise_cons (List.pairwise_append.mp h).2.1 List.mem_cons_self) (hmax b hb)

theorem map_eq_self_iff {f : α → α} {l : List α} : l.map f = l ↔ ∀ a ∈ l, f a = a := by
  induction l with
  | nil => simp
  | cons a l ih => rw [List.map_cons, List.cons.injEq, ih, List.forall_mem_cons]

/-- Every element stands in `R` to what comes before it. -/
def InOrder (R : List α → α → Prop) (l : List α) : Prop := ∀ before a after, l = before ++ a :: after → R before a

theorem inOrder_nil {R : List α → α → Prop} : InOrder R [] := by
  intro before a after h
  exact absurd h.symm (List.append_ne_nil_of_right_ne_nil before (List.cons_ne_nil a after))

theorem inOrder_concat {R : List α → α → Prop} {l : List α} {a : α} :
    InOrder R (l ++ [a]) ↔ InOrder R l ∧ R l a := by
  refine ⟨fun h => ⟨fun before b after hcut => ?_, h l a [] rfl⟩, fun ⟨h, ha⟩ before b after hcut => ?_⟩
  · exact h before b (after ++ [a]) (by rw [hcut, List.append_assoc, List.cons_append])
  · rcases List.eq_nil_or_concat after with rfl | ⟨after, c, rfl⟩
    · obtain ⟨rfl, hlast⟩ := List.append_inj' hcut rfl
      exact (List.cons.inj hlast).1 ▸ ha
    · rw [List.concat_eq_append, ← List.cons_append, ← List.append_assoc] at hcut
      exact h before b after (List.append_inj' hcut rfl).1

/-- Where a cut of two lists in a row lies. -/
theorem append_eq_cut {l l' before after : List α} {a : α} (h : l ++ l' = before ++ a :: after) :
    (∃ rest, l = before ++ a :: rest ∧ after = rest ++ l') ∨
    ∃ rest, l' = rest ++ a :: after ∧ before = l ++ rest := by
  rcases List.append_eq_append_iff.mp h with ⟨rest, hbefore, hl'⟩ | ⟨rest, hl, hafter⟩
  · exact Or.inr ⟨rest, hl', hbefore⟩
  · cases rest with
    | nil =>
      rw [List.append_nil] at hl
      exact Or.inr ⟨[], hafter.symm, by rw [List.append_nil, hl]⟩
    | cons b rest =>
      obtain ⟨rfl, rfl⟩ := List.cons.inj hafter
      exact Or.inl ⟨rest, hl, rfl⟩

/-- Elements to which `R` asks nothing. -/
theorem InOrder.append {R : List α → α → Prop} {l l' : List α} (h : InOrder R l)
    (h' : ∀ a ∈ l', ∀ before, R before a) :
    InOrder R (l ++ l') := by
  induction l' using List.reverseRecOn with
  | nil =>
    rw [List.append_nil]
    exact h
  | append_singleton l' a ih =>
    rw [← List.append_assoc]
    have hfirst := ih fun b hb => h' b (List.mem_append_left _ hb)
    exact inOrder_concat.mpr ⟨hfirst, h' a (List.mem_append_right _ List.mem_cons_self) _⟩

theorem sum_map_ite (p : α → Prop) [DecidablePred p] (l : List α) :
    (l.map fun a => if p a then 1 else 0).sum = l.countP p := by
  induction l with
  | nil => rfl
  | cons a l ih =>
    rw [List.map_cons, List.sum_cons, ih, List.countP_cons, Nat.add_comm]
    simp only [decide_eq_true_eq]

/-! The last element with a property, changed where it stands -/

section ModifyLast
variable {β : Type*} {p : α → Bool} {f : α → α} {l l' : List α} {a : α}

def modifyLast (p : α → Bool) (f : α → α) : List α → Option (List α)
  | [] => none
  | a :: l =>
    match modifyLast p f l with
    | some l' => some (a :: l')
    | none => if p a then some (f a :: l) else none

theorem modifyLast_eq_none (h : ∀ a ∈ l, p a = false) : modifyLast p f l = none := by
  induction l with
  | nil => rfl
  | cons a l ih =>
    rw [modifyLast, ih fun b hb => h b (List.mem_cons_of_mem _ hb)]
    dsimp only
    rw [h a List.mem_cons_self, if_neg Bool.false_ne_true]

theorem modifyLast_concat (l : List α) (h : p a = true) : modifyLast p f (l ++ [a]) = some (l ++ [f a]) := by
  induction l with
  | nil => simp [modifyLast, h]
  | cons b l ih => rw [List.cons_append, modifyLast, ih, List.cons_append]

theorem map_of_modifyLast {g : α → β} (hg : ∀ a, g (f a) = g a) (h : modifyLast p f l = some l') :
    l'.map g = l.map g := by
  induction l generalizing l' with
  | nil => cases h
  | cons a l ih =>
    rw [modifyLast] at h
    cases hrest : modifyLast p f l with
    | some rest =>
      rw [hrest] at h
      cases h
      rw [List.map_cons, List.map_cons, ih hrest]
    | none =>
      rw [hrest] at h
      dsimp only at h
      split_ifs at h
      cases h
      rw [List.map_cons, List.map_cons, hg]

/-- Of the images, the last is the image of the last. -/
theorem modifyLast_filterMap {g : α → Option β} {q : β → Bool} {k : β → β} (hq : ∀ a, p a = (g a).any q)
    (hk : ∀ a, g (f a) = (g a).map k) (l : List α) :
    modifyLast q k (l.filterMap g) = (modifyLast p f l).map (List.filterMap g) := by
  induction l with
  | nil => rfl
  | cons a l ih =>
    rw [modifyLast, List.filterMap_cons]
    cases hga : g a with
    | none =>
      have hpa : p a = false := by rw [hq, hga, Option.any_none]
      dsimp only
      rw [ih]
      cases modifyLast p f l with
      | some rest => simp [hga]
      | none => simp [hpa]
    | some b =>
      have hpa : p a = q b := by rw [hq, hga, Option.any_some]
      have hfa : g (f a) = some (k b) := by rw [hk, hga, Option.map_some]
      dsimp only
      rw [modifyLast, ih]
      cases modifyLast p f l with
      | some rest => simp [hga]
      | none =>
        rw [Option.map_none]
        dsimp only
        rw [hpa]
        split_ifs
        · simp [hfa]
        · rfl

end ModifyLast

end Nexal.Lists
