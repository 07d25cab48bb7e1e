import Mathlib.Data.List.Basic

/-! Greedy picking from left to right: an element is picked when it is wanted and no earlier
pick covers it. -/

namespace Nexal

variable {α : Type*} (wanted : α → Bool) (covers : α → α → Bool)

/-- The picks among `l`, after the picks `hs`. -/
def picks : List α → List α → List α
  | hs, [] => hs
  | hs, a :: l => if wanted a && !hs.any (covers · a) then picks (hs ++ [a]) l else picks hs l

variable {wanted covers}

theorem picks_sublist (hs l : List α) : (picks wanted covers hs l).Sublist (hs ++ l) := by
  induction l generalizing hs with
  | nil => simp [picks]
  | cons a l ih =>
    unfold picks
    split_ifs
    · simpa using ih (hs ++ [a])
    · exact (ih hs).trans (List.Sublist.append_left (List.sublist_cons_self a l) hs)

theorem subset_picks (hs l : List α) : hs ⊆ picks wanted covers hs l := by
  induction l generalizing hs with
  | nil => simp [picks]
  | cons a l ih =>
    unfold picks
    split_ifs
    · exact fun h hh => ih (hs ++ [a]) (List.mem_append_left [a] hh)
    · exact ih hs

theorem mem_picks {hs l : List α} {h : α} (hh : h ∈ picks wanted covers hs l) : h ∈ hs ∨ h ∈ l :=
  List.mem_append.mp ((picks_sublist hs l).subset hh)

/-- Whether an element is covered is known once it is reached: later picks cover nothing
before them. -/
theorem picks_any_covers {hs l : List α} {a : α} (hself : covers a a = false)
    (hlater : ∀ b ∈ l, covers b a = false) :
    (picks wanted covers hs (a :: l)).any (covers · a) = hs.any (covers · a) := by
  rw [Bool.eq_iff_iff, List.any_eq_true, List.any_eq_true]
  constructor
  · rintro ⟨h, hmem, hcov⟩
    rcases mem_picks hmem with hhs | hl
    · exact ⟨h, hhs, hcov⟩
    · rcases List.mem_cons.mp hl with rfl | hl
      · rw [hself] at hcov
        cases hcov
      · rw [hlater h hl] at hcov
        cases hcov
  · rintro ⟨h, hhs, hcov⟩
    exact ⟨h, subset_picks hs _ hhs, hcov⟩

/-- The picks are exactly the wanted elements that no pick covers. -/
theorem picks_eq_filter {hs l : List α} (hself : ∀ a ∈ l, covers a a = false)
    (hlater : l.Pairwise fun a b => covers b a = false) :
    picks wanted covers hs l = hs ++ l.filter fun a =>
      wanted a && !(picks wanted covers hs l).any (covers · a) := by
  induction l generalizing hs with
  | nil => simp [picks]
  | cons a l ih =>
    obtain ⟨ha, hl⟩ := List.pairwise_cons.mp hlater
    have hany : (picks wanted covers hs (a :: l)).any (covers · a) = hs.any (covers · a) :=
      picks_any_covers (hself a List.mem_cons_self) ha
    have ih : ∀ hs, picks wanted covers hs l = hs ++ l.filter fun a =>
        wanted a && !(picks wanted covers hs l).any (covers · a) :=
      fun _ => ih (fun b hb => hself b (List.mem_cons_of_mem a hb)) hl
    by_cases hpick : (wanted a && !hs.any (covers · a)) = true
    · have hstep : picks wanted covers hs (a :: l) = picks wanted covers (hs ++ [a]) l := if_pos hpick
      rw [List.filter_cons_of_pos (by rw [hany]; exact hpick), hstep]
      simpa using ih (hs ++ [a])
    · have hstep : picks wanted covers hs (a :: l) = picks wanted covers hs l := if_neg hpick
      rw [List.filter_cons_of_neg (by rw [hany]; exact hpick), hstep]
      exact ih hs

end Nexal
