import Nexal.Lib.Lists
import Nexal.Spec.ContainerBackend

/-! The host: no two containers on it have one name, and what a container was made with stays. -/

namespace Nexal.Containers

variable {made made' : List Container} {name : String} {i : ℕ} {c : Container}

theorem find_eq_some (h : find made name = some i) : ∃ c, made[i]? = some c ∧ c.alive = true ∧ c.name = name := by
  obtain ⟨hlt, hp, -⟩ := List.findIdx?_eq_some_iff_getElem.mp h
  rw [Bool.and_eq_true, decide_eq_true_eq] at hp
  exact ⟨made[i], List.getElem?_eq_getElem hlt, hp⟩

theorem find_eq_none : find made name = none ↔ ∀ c ∈ made, c.alive = true → c.name ≠ name := by
  rw [find, List.findIdx?_eq_none_iff]
  simp

theorem find_isSome (h : c ∈ made) (halive : c.alive = true) : (find made c.name).isSome = true := by
  by_contra hnone
  exact find_eq_none.mp (Option.not_isSome_iff_eq_none.mp hnone) c h halive rfl

theorem remove_getElem? (h : (remove made name)[i]? = some c) :
    ∃ c', made[i]? = some c' ∧ c = { c' with alive := c'.alive && c'.name ≠ name } := by
  rw [remove, List.getElem?_map] at h
  obtain ⟨c', hc', heq⟩ := Option.map_eq_some_iff.mp h
  exact ⟨c', hc', heq.symm⟩

def Unique (made : List Container) : Prop :=
  ∀ ⦃i j : ℕ⦄ ⦃c c' : Container⦄, made[i]? = some c → made[j]? = some c' → c.alive = true →
    c'.alive = true →
    c.name = c'.name → i = j

theorem Host.unique (h : Host) : Unique h.made := by
  intro i j c c' hi hj _ _ hname
  rw [Host.made, List.getElem?_map] at hi hj
  obtain ⟨p, hp, rfl⟩ := Option.map_eq_some_iff.mp hi
  obtain ⟨q, hq, rfl⟩ := Option.map_eq_some_iff.mp hj
  have hp' : (h.containers.map (·.1.name))[i]? = some p.1.name := by rw [List.getElem?_map, hp, Option.map_some]
  have hq' : (h.containers.map (·.1.name))[j]? = some q.1.name := by rw [List.getElem?_map, hq, Option.map_some]
  have hlt := (List.getElem?_eq_some_iff.mp hp').1
  exact (List.getElem?_inj hlt h.nodup).mp (hp'.trans ((congrArg some hname).trans hq'.symm))

theorem Unique.concat (h : Unique made) (hfree : find made c.name = none) : Unique (made ++ [c]) := by
  have hold : ∀ {j : ℕ} {c' : Container}, made[j]? = some c' → c'.alive = true → c'.name ≠ c.name :=
    fun hj halive =>
    find_eq_none.mp hfree _ (List.mem_of_getElem? hj) halive
  intro j k d d' hj hk halive halive' hname
  rw [Lists.getElem?_concat] at hj hk
  split_ifs at hj hk with hjn hkn hkn
  · rw [hjn, hkn]
  · cases hj
    exact absurd hname.symm (hold hk halive')
  · cases hk
    exact absurd hname (hold hj halive)
  · exact h hj hk halive halive' hname

theorem Unique.remove (h : Unique made) (name : String) : Unique (remove made name) := by
  intro j k d d' hj hk halive halive' hname
  obtain ⟨e, he, rfl⟩ := remove_getElem? hj
  obtain ⟨e', he', rfl⟩ := remove_getElem? hk
  rw [Bool.and_eq_true] at halive halive'
  exact h he he' halive.1 halive'.1 hname

theorem Unique.find (h : Unique made) (hi : made[i]? = some c) (halive : c.alive = true) : find made c.name = some i := by
  obtain ⟨j, hj⟩ := Option.isSome_iff_exists.mp (find_isSome (List.mem_of_getElem? hi) halive)
  obtain ⟨c', hc', halive', hname⟩ := find_eq_some hj
  rw [hj, h hc' hi halive' halive hname]

/-- Every container stays what it was made as, and comes to life no more. -/
def Kept (made made' : List Container) : Prop :=
  ∀ ⦃i : ℕ⦄ ⦃c : Container⦄, made[i]? = some c →
    ∃ alive, made'[i]? = some { c with alive := alive } ∧ (alive = true → c.alive = true)

theorem kept_concat (made : List Container) (c : Container) : Kept made (made ++ [c]) := by
  intro i d h
  have hlt := (List.getElem?_eq_some_iff.mp h).1
  exact ⟨d.alive, (List.getElem?_append_left hlt).trans h, id⟩

theorem kept_remove (made : List Container) (name : String) : Kept made (remove made name) := by
  intro i d h
  refine ⟨d.alive && d.name ≠ name, ?_, fun halive => ((Bool.and_eq_true _ _).mp halive).1⟩
  rw [remove, List.getElem?_map, h, Option.map_some]

def Named (made : List Container) (h : ContainerHandle) : Prop := ∃ c, made[h.container]? = some c ∧ c.name = h.name

theorem Named.kept {h : ContainerHandle} (hk : Kept made made') (hh : Named made h) : Named made' h := by
  obtain ⟨c, hc, hname⟩ := hh
  obtain ⟨alive, hc', -⟩ := hk hc
  exact ⟨_, hc', hname⟩

/-- What a call of `ensure` can do at each of its commands. -/
theorem Ensure.go_cases {maker : Maker} {now : String} {ok : Bool} {e : Ensure} {r : Ensured}
    (h : e.go maker now ok made = some (made', r)) :
    (made' = made ∧ r = .failed ∧ ok = false) ∨
      (∃ e', made' = made ∧ r = .going e' ∧ e'.spec = e.spec ∧ (e = .checking e.spec)) ∨
      (e = .creating e.spec ∧ find made e.spec.name = none ∧ made' = made ++ [⟨e.spec, now, maker, true⟩] ∧
        r = .going (.starting e.spec)) ∨
      (∃ i, e = .starting e.spec ∧ find made e.spec.name = some i ∧ made' = made ∧
        r = .returned ⟨e.spec.name, i⟩) := by
  unfold Ensure.go at h
  cases ok with
  | false =>
    cases e <;> cases h <;> exact Or.inl ⟨rfl, rfl, rfl⟩
  | true =>
    refine Or.inr ?_
    cases e with
    | checking spec =>
      cases h
      refine Or.inl ⟨_, rfl, rfl, ?_, rfl⟩
      split_ifs <;> rfl
    | creating spec =>
      simp only [if_true] at h
      split at h
      · rename_i hfree
        cases h
        exact Or.inr (Or.inl ⟨rfl, hfree, rfl, rfl⟩)
      · cases h
    | starting spec =>
      obtain ⟨i, hi, heq⟩ := Option.map_eq_some_iff.mp h
      cases heq
      exact Or.inr (Or.inr ⟨i, rfl, hi, rfl, rfl⟩)

end Nexal.Containers
