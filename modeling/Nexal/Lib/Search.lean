import Mathlib.Data.List.Nodup
import Mathlib.Logic.Relation

/-! A breadth-first search that stops once it has seen so many, over a graph whose edges may fail to be read. -/

namespace Nexal.Search

open Relation

variable {α ε : Type*} [DecidableEq α]

/-- The queue, and what has been seen, in order. -/
structure Frontier (α : Type*) where
  queue : List α
  seen : List α

def Frontier.offer (f : Frontier α) (a : α) : Frontier α :=
  if a ∈ f.seen then f else ⟨f.queue ++ [a], f.seen ++ [a]⟩

def Frontier.offerAll (f : Frontier α) (as : List α) : Frontier α := as.foldl Frontier.offer f

/-- The search stops before it would look at another one. -/
def measure (limit : ℕ) (f : Frontier α) : ℕ :=
  if f.seen.length < limit then limit - f.seen.length + f.queue.length else 0

theorem offerAll_eq (f : Frontier α) (as : List α) : ∃ fresh, f.offerAll as = ⟨f.queue ++ fresh, f.seen ++ fresh⟩ ∧
    (∀ a ∈ fresh, a ∈ as) ∧ (∀ a ∈ as, a ∈ f.seen ++ fresh) ∧
    (f.seen.Nodup → (f.seen ++ fresh).Nodup) := by
  induction as generalizing f with
  | nil => exact ⟨[], by simp [Frontier.offerAll], by simp, by simp, by simp⟩
  | cons a as ih =>
    rw [Frontier.offerAll, List.foldl_cons, ← Frontier.offerAll, Frontier.offer]
    split_ifs with ha
    · obtain ⟨fresh, heq, hsub, hall, hnodup⟩ := ih f
      refine ⟨fresh, heq, fun b hb => List.mem_cons_of_mem a (hsub b hb), fun b hb => ?_, hnodup⟩
      rcases List.mem_cons.mp hb with rfl | hb
      · exact List.mem_append_left fresh ha
      · exact hall b hb
    · obtain ⟨fresh, heq, hsub, hall, hnodup⟩ := ih ⟨f.queue ++ [a], f.seen ++ [a]⟩
      simp only [List.append_assoc, List.singleton_append] at heq hall hnodup
      refine ⟨a :: fresh, heq, fun b hb => ?_, fun b hb => ?_, fun hf => hnodup ?_⟩
      · exact List.mem_cons.mpr ((List.mem_cons.mp hb).imp_right (hsub b))
      · rcases List.mem_cons.mp hb with rfl | hb
        · simp
        · exact hall b hb
      · exact hf.append (List.nodup_singleton a) (List.disjoint_singleton.mpr ha)

theorem measure_offerAll {limit : ℕ} {a : α} {queue seen as : List α} (h : seen.length < limit) :
    measure limit (Frontier.offerAll ⟨queue, seen⟩ as) < measure limit ⟨a :: queue, seen⟩ := by
  obtain ⟨fresh, heq, -⟩ := offerAll_eq ⟨queue, seen⟩ as
  rw [heq, measure, measure, if_pos h]
  split_ifs with hmore
  · simp only [List.length_append] at hmore
    simp only [List.length_append, List.length_cons]
    omega
  · simp only [List.length_cons]
    omega

def search (next : α → Except ε (List α)) (limit : ℕ) : Frontier α → Except ε (List α)
  | ⟨[], seen⟩ => .ok seen
  | ⟨a :: queue, seen⟩ =>
    if _h : seen.length < limit then
      match next a with
      | .error e => .error e
      | .ok as => search next limit (Frontier.offerAll ⟨queue, seen⟩ as)
    else .ok seen
termination_by f => measure limit f
decreasing_by exact measure_offerAll ‹_›

/-! What it finds -/

variable {next : α → Except ε (List α)} {limit : ℕ} {root a b : α} {f : Frontier α} {out : List α}

def Follows (next : α → Except ε (List α)) (a b : α) : Prop := ∃ as, next a = .ok as ∧ b ∈ as

def Reach (next : α → Except ε (List α)) : α → α → Prop := ReflTransGen (Follows next)

/-- All that follows `a` is in `seen`. -/
def Closed (next : α → Except ε (List α)) (seen : List α) (a : α) : Prop :=
  ∃ as, next a = .ok as ∧ ∀ b ∈ as, b ∈ seen

structure Inv (next : α → Except ε (List α)) (root : α) (f : Frontier α) : Prop where
  nodup : f.seen.Nodup
  start : root ∈ f.seen
  reach : ∀ a ∈ f.seen, Reach next root a
  queue : ∀ a ∈ f.queue, a ∈ f.seen
  done : ∀ a ∈ f.seen, a ∉ f.queue → Closed next f.seen a

omit [DecidableEq α] in
theorem inv_start (next : α → Except ε (List α)) (root : α) : Inv next root ⟨[root], [root]⟩ where
  nodup := List.nodup_singleton root
  start := List.mem_cons_self
  reach := by
    rintro a ha
    rw [List.mem_singleton.mp ha]
    exact .refl
  queue := fun _ ha => ha
  done := fun _ ha hnot => absurd ha hnot

theorem Inv.offerAll {queue seen as : List α} (h : Inv next root ⟨a :: queue, seen⟩) (hnext : next a = .ok as) :
    Inv next root (Frontier.offerAll ⟨queue, seen⟩ as) := by
  obtain ⟨fresh, heq, hsub, hall, hnodup⟩ := offerAll_eq ⟨queue, seen⟩ as
  rw [heq]
  have ha : a ∈ seen := h.queue a List.mem_cons_self
  refine ⟨hnodup h.nodup, List.mem_append_left fresh h.start, fun b hb => ?_, fun b hb => ?_, fun b hb hqueue => ?_⟩
  · rcases List.mem_append.mp hb with hb | hb
    · exact h.reach b hb
    · exact (h.reach a ha).tail ⟨as, hnext, hsub b hb⟩
  · rcases List.mem_append.mp hb with hb | hb
    · exact List.mem_append_left fresh (h.queue b (List.mem_cons_of_mem a hb))
    · exact List.mem_append_right seen hb
  · by_cases hba : b = a
    · exact hba ▸ ⟨as, hnext, hall⟩
    · rw [List.mem_append, not_or] at hqueue
      obtain ⟨bs, hbs, hseen⟩ := h.done b ((List.mem_append.mp hb).resolve_right hqueue.2)
        (List.not_mem_cons_of_ne_of_not_mem hba hqueue.1)
      exact ⟨bs, hbs, fun c hc => List.mem_append_left fresh (hseen c hc)⟩

/-- What is returned was reached, and all of it was looked at unless the limit was met. -/
theorem Inv.search_ok (h : Inv next root f) (hout : search next limit f = .ok out) :
    out.Nodup ∧ root ∈ out ∧ (∀ a ∈ out, Reach next root a) ∧
    (out.length < limit → ∀ a ∈ out, Closed next out a) := by
  induction f using search.induct next limit with
  | case1 seen =>
    rw [search] at hout
    obtain rfl := Except.ok.inj hout
    exact ⟨h.nodup, h.start, h.reach, fun _ a ha => h.done a ha List.not_mem_nil⟩
  | case2 a queue seen hlt e hnext =>
    rw [search, dif_pos hlt, hnext] at hout
    cases hout
  | case3 a queue seen hlt as hnext ih =>
    rw [search, dif_pos hlt, hnext] at hout
    exact ih (h.offerAll hnext) hout
  | case4 a queue seen hge =>
    rw [search, dif_neg hge] at hout
    obtain rfl := Except.ok.inj hout
    exact ⟨h.nodup, h.start, h.reach, fun hlt => absurd hlt hge⟩

/-- It fails only where something reached cannot be read. -/
theorem Inv.search_error {e : ε} (h : Inv next root f) (herr : search next limit f = .error e) :
    ∃ a, Reach next root a ∧ next a = .error e := by
  induction f using search.induct next limit with
  | case1 seen =>
    rw [search] at herr
    cases herr
  | case2 a queue seen hlt e' hnext =>
    rw [search, dif_pos hlt, hnext] at herr
    obtain rfl := Except.error.inj herr
    exact ⟨a, h.reach a (h.queue a List.mem_cons_self), hnext⟩
  | case3 a queue seen hlt as hnext ih =>
    rw [search, dif_pos hlt, hnext] at herr
    exact ih (h.offerAll hnext) herr
  | case4 a queue seen hge =>
    rw [search, dif_neg hge] at herr
    cases herr

omit [DecidableEq α] in
theorem mem_of_closed (hroot : root ∈ out) (hclosed : ∀ a ∈ out, Closed next out a) (h : Reach next root a) :
    a ∈ out := by
  induction h with
  | refl => exact hroot
  | tail _ hstep ih =>
    obtain ⟨as, has, hb⟩ := hstep
    obtain ⟨bs, hbs, hin⟩ := hclosed _ ih
    exact hin _ (Except.ok.inj (has.symm.trans hbs) ▸ hb)

end Nexal.Search
