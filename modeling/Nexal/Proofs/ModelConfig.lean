import Nexal.Lib.Runs
import Nexal.Spec.Config

/-! Which pairs `loadModelConfig` returns. The two parts of the setting are written and read one after the other, so that
what is stored is one call's pair only while no save is between its two statements. -/

namespace Nexal.ModelConfig

open Runs

variable {calls : ℕ → Call} {s s' : State} {settings : Settings} {p : Progress} {key key' value : String} {i : ℕ}

/-- Every pair that has been loaded was saved by one call. -/
def Together (calls : ℕ → Call) (s : State) : Prop :=
    ∀ i provider modelId, s.progress i = .loaded (some (provider, modelId)) →
  ∃ j, calls j = .saveModelConfig provider modelId ∧ s.progress j = .saved

def Progress.midway : Progress → Bool
  | .wroteProvider | .readProvider _ => true
  | .called | .saved | .loaded _ | .threw => false

/-- A save takes a statement only while no other call is between its two, a load only while no save is; and no save throws
there. -/
def Turn (calls : ℕ → Call) (s : State) : Event → Prop
  | .runs i =>
    match calls i with
    | .saveModelConfig _ _ => ∀ j ≠ i, (s.progress j).midway = false
    | .loadModelConfig => ∀ j ≠ i, s.progress j ≠ .wroteProvider
  | .throws i => s.progress i ≠ .wroteProvider

/-! The table -/

theorem get_set_self (settings : Settings) (key value : String) :
    getSetting (setSetting settings key value) key = some value := by
  unfold setSetting getSetting
  split_ifs with h
  · induction settings with
    | nil => simp at h
    | cons row settings ih =>
      obtain ⟨k, v⟩ := row
      by_cases hk : k = key
      · simp [hk]
      · have hne : (key == k) = false := beq_false_of_ne (Ne.symm hk)
        rw [List.lookup_cons, hne] at h
        rw [List.map_cons, if_neg hk, List.lookup_cons, hne]
        exact ih h
  · rw [Option.not_isSome_iff_eq_none] at h
    rw [List.lookup_append, h]
    simp

theorem get_set_ne (settings : Settings) (value : String) (h : key' ≠ key) :
    getSetting (setSetting settings key value) key' = getSetting settings key' := by
  unfold setSetting getSetting
  split_ifs with hsome
  · clear hsome
    induction settings with
    | nil => rfl
    | cons row settings ih =>
      obtain ⟨k, v⟩ := row
      rw [List.map_cons, List.lookup_cons]
      by_cases hk : k = key
      · have hne : (key' == key) = false := beq_false_of_ne h
        rw [if_pos hk, List.lookup_cons, hne, hk, hne, ih]
      · rw [if_neg hk, List.lookup_cons, ih]
  · have hne : (key' == key) = false := beq_false_of_ne h
    rw [List.lookup_append, List.lookup_cons, hne]
    simp

/-! Taking turns -/

/-- Nothing is stored, or the pair of a call that has saved. -/
def Stored (calls : ℕ → Call) (s : State) : Prop :=
  (getSetting s.settings "model:provider" = none ∧ getSetting s.settings "model:id" = none) ∨
    ∃ j provider modelId, calls j = .saveModelConfig provider modelId ∧ s.progress j = .saved ∧
      getSetting s.settings "model:provider" = some provider ∧ getSetting s.settings "model:id" = some modelId

structure InTurn (calls : ℕ → Call) (s : State) : Prop where
  stored : (∀ i, s.progress i ≠ .wroteProvider) → Stored calls s
  wrote : ∀ i provider modelId, s.progress i = .wroteProvider → calls i = .saveModelConfig provider modelId →
    getSetting s.settings "model:provider" = some provider
  seen : ∀ i provider, s.progress i = .readProvider provider → provider = getSetting s.settings "model:provider"
  loaded : Together calls s

/-- The four statements. -/
theorem statement_cases (h : statement calls i s = some (settings, p)) :
    (∃ provider modelId, calls i = .saveModelConfig provider modelId ∧ s.progress i = .called ∧
      settings = setSetting s.settings "model:provider" provider ∧ p = .wroteProvider) ∨
    (∃ provider modelId, calls i = .saveModelConfig provider modelId ∧ s.progress i = .wroteProvider ∧
      settings = setSetting s.settings "model:id" modelId ∧ p = .saved) ∨
    (calls i = .loadModelConfig ∧ s.progress i = .called ∧ settings = s.settings ∧
      p = .readProvider (getSetting s.settings "model:provider")) ∨
    ∃ provider, calls i = .loadModelConfig ∧ s.progress i = .readProvider provider ∧ settings = s.settings ∧
      p = .loaded (pairOf provider (getSetting s.settings "model:id")) := by
  unfold statement at h
  split at h
  · next provider modelId hcall hprogress =>
    cases h
    exact Or.inl ⟨provider, modelId, hcall, hprogress, rfl, rfl⟩
  · next provider modelId hcall hprogress =>
    cases h
    exact Or.inr (Or.inl ⟨provider, modelId, hcall, hprogress, rfl, rfl⟩)
  · next hcall hprogress =>
    cases h
    exact Or.inr (Or.inr (Or.inl ⟨hcall, hprogress, rfl, rfl⟩))
  · next provider hcall hprogress =>
    cases h
    exact Or.inr (Or.inr (Or.inr ⟨provider, hcall, hprogress, rfl, rfl⟩))
  · cases h

/-- A call that goes on leaves those that have saved as they were. -/
theorem saved_kept {j : ℕ} (hi : s.progress i ≠ .saved) (hj : s.progress j = .saved) :
    Function.update s.progress i p j = .saved := by
  have hne : j ≠ i := by
    rintro rfl
    exact hi hj
  rw [Function.update_of_ne hne, hj]

theorem Together.update (h : Together calls s) (hi : s.progress i ≠ .saved)
    (hp : ∀ provider modelId, p = .loaded (some (provider, modelId)) →
      ∃ j, calls j = .saveModelConfig provider modelId ∧ s.progress j = .saved) :
    Together calls ⟨settings, Function.update s.progress i p⟩ := by
  intro k provider modelId hk
  dsimp only at hk ⊢
  obtain ⟨j, hcall, hj⟩ : ∃ j, calls j = .saveModelConfig provider modelId ∧ s.progress j = .saved := by
    rcases eq_or_ne k i with rfl | hne
    · rw [Function.update_self] at hk
      exact hp provider modelId hk
    · rw [Function.update_of_ne hne] at hk
      exact h k provider modelId hk
  exact ⟨j, hcall, saved_kept hi hj⟩

/-- A save goes on, and no other call is half way. -/
theorem inTurn_save (h : InTurn calls s) (hothers : ∀ j ≠ i, (s.progress j).midway = false)
    (hi : s.progress i ≠ .saved)
    (hp : ∀ result, p ≠ .loaded result) (hread : ∀ provider, p ≠ .readProvider provider)
    (hstored : p ≠ .wroteProvider → Stored calls ⟨settings, Function.update s.progress i p⟩)
    (hwrote : ∀ provider modelId, p = .wroteProvider → calls i = .saveModelConfig provider modelId →
      getSetting settings "model:provider" = some provider) :
    InTurn calls ⟨settings, Function.update s.progress i p⟩ := by
  refine ⟨fun hnone => hstored ?_, fun j provider modelId hj hcall => ?_, fun j provider hj => ?_,
    h.loaded.update hi fun provider modelId heq => absurd heq (hp _)⟩
  · have hself := hnone i
    dsimp only at hself
    rw [Function.update_self] at hself
    exact hself
  · dsimp only at hj ⊢
    rcases eq_or_ne j i with rfl | hne
    · rw [Function.update_self] at hj
      exact hwrote provider modelId hj hcall
    · rw [Function.update_of_ne hne] at hj
      have hnot := hothers j hne
      rw [hj] at hnot
      cases hnot
  · dsimp only at hj
    rcases eq_or_ne j i with rfl | hne
    · rw [Function.update_self] at hj
      exact absurd hj (hread provider)
    · rw [Function.update_of_ne hne] at hj
      have hnot := hothers j hne
      rw [hj] at hnot
      cases hnot

/-- A call goes on that writes nothing. -/
theorem inTurn_still (h : InTurn calls s) (hi : s.progress i ≠ .saved) (hwrote : s.progress i ≠ .wroteProvider)
    (hp : p ≠ .wroteProvider) (hseen : ∀ provider, p = .readProvider provider →
      provider = getSetting s.settings "model:provider")
    (hloaded : ∀ provider modelId, p = .loaded (some (provider, modelId)) →
      ∃ j, calls j = .saveModelConfig provider modelId ∧ s.progress j = .saved) :
    InTurn calls { s with progress := Function.update s.progress i p } := by
  refine ⟨fun hnone => ?_, fun j provider modelId hj hcall => ?_, fun j provider hj => ?_, h.loaded.update hi hloaded⟩
  · have hbefore : ∀ j, s.progress j ≠ .wroteProvider := by
      intro j
      rcases eq_or_ne j i with rfl | hne
      · exact hwrote
      · have hj := hnone j
        dsimp only at hj
        rwa [Function.update_of_ne hne] at hj
    rcases h.stored hbefore with hnothing | ⟨j, provider, modelId, hcall, hsaved, hboth⟩
    · exact Or.inl hnothing
    · exact Or.inr ⟨j, provider, modelId, hcall, saved_kept hi hsaved, hboth⟩
  · dsimp only at hj ⊢
    rcases eq_or_ne j i with rfl | hne
    · rw [Function.update_self] at hj
      exact absurd hj hp
    · rw [Function.update_of_ne hne] at hj
      exact h.wrote j provider modelId hj hcall
  · dsimp only at hj ⊢
    rcases eq_or_ne j i with rfl | hne
    · rw [Function.update_self] at hj
      exact hseen provider hj
    · rw [Function.update_of_ne hne] at hj
      exact h.seen j provider hj

/-- What a load returns while no save is half way. -/
theorem loaded_of_stored {provider : String} {modelId : String} (h : Stored calls s)
    (hpair : pairOf (getSetting s.settings "model:provider") (getSetting s.settings "model:id") = some (provider, modelId)) :
    ∃ j, calls j = .saveModelConfig provider modelId ∧ s.progress j = .saved := by
  rcases h with ⟨hnone, -⟩ | ⟨j, provider', modelId', hcall, hsaved, hprovider, hid⟩
  · rw [hnone] at hpair
    cases hpair
  · rw [hprovider, hid, pairOf] at hpair
    split_ifs at hpair
    cases hpair
    exact ⟨j, hcall, hsaved⟩

theorem inTurn_runs (h : InTurn calls s) (hturn : Turn calls s (.runs i)) (hs : statement calls i s = some (settings, p)) :
    InTurn calls ⟨settings, Function.update s.progress i p⟩ := by
  unfold Turn at hturn
  rcases statement_cases hs with ⟨provider, modelId, hcall, hi, rfl, rfl⟩ | ⟨provider, modelId, hcall, hi, rfl,
    rfl⟩ |
    ⟨hcall, hi, rfl, rfl⟩ | ⟨provider, hcall, hi, rfl, rfl⟩
  · simp only [hcall] at hturn
    refine inTurn_save h hturn (by simp [hi]) (by simp) (by
      simp) (fun hne => absurd rfl hne) fun provider' modelId' _ hcall' => ?_
    cases hcall.symm.trans hcall'
    exact get_set_self _ _ _
  · simp only [hcall] at hturn
    refine inTurn_save h hturn (by simp [hi]) (by simp) (by simp) (fun _ => Or.inr ?_) (by simp)
    refine ⟨i, provider, modelId, hcall, Function.update_self _ _ _, ?_, get_set_self _ _ _⟩
    exact (get_set_ne _ _ (by decide)).trans (h.wrote i provider modelId hi hcall)
  · refine inTurn_still h (by simp [hi]) (by simp [hi]) (by simp) (fun provider hp => ?_) (by simp)
    exact (Progress.readProvider.inj hp).symm
  · simp only [hcall] at hturn
    have hnone : ∀ j, s.progress j ≠ .wroteProvider := by
      intro j
      rcases eq_or_ne j i with rfl | hne
      · simp [hi]
      · exact hturn j hne
    refine inTurn_still h (by simp [hi]) (by simp [hi]) (by simp) (by simp) fun provider' modelId hp => ?_
    rw [h.seen i provider hi] at hp
    exact loaded_of_stored (h.stored hnone) (Progress.loaded.inj hp)

theorem inTurn_step (s : State) (e : Event) (s' : State) (h : InTurn calls s) (hturn : Turn calls s e)
    (hs : step calls s e = some s') : InTurn calls s' := by
  cases e with
  | runs i =>
    obtain ⟨⟨settings, p⟩, hstatement, rfl⟩ := Option.map_eq_some_iff.mp hs
    exact inTurn_runs h hturn hstatement
  | throws i =>
    obtain ⟨⟨settings, p⟩, hstatement, rfl⟩ := Option.map_eq_some_iff.mp hs
    have hi : s.progress i ≠ .saved := by
      rcases statement_cases hstatement with ⟨_, _, -, hi, -⟩ | ⟨_, _, -, hi, -⟩ | ⟨-, hi, -⟩ | ⟨_, -, hi,
        -⟩ <;> simp [hi]
    exact inTurn_still h hi hturn (by simp) (by simp) (by simp)

/-- In every run of calls that take turns, each pair that is loaded was saved by one call. -/
theorem together_of_turns (calls : ℕ → Call) (es : List Event) (s : State)
    (hok : RunOk (step calls) (Turn calls) .init es)
    (hrun : run (step calls) .init es = some s) : Together calls s := by
  have hinit : InTurn calls .init :=
    ⟨fun _ => Or.inl ⟨rfl, rfl⟩, by simp [State.init], by simp [State.init], by simp [Together, State.init]⟩
  exact (run_inv (InTurn calls) inTurn_step hinit hok hrun).loaded

/-- Two calls save, and a third loads. -/
def overtakenCalls : ℕ → Call
  | 0 => .saveModelConfig "anthropic" "claude"
  | 1 => .saveModelConfig "openai" "gpt"
  | _ => .loadModelConfig

def inTurns : List Event := [.runs 0, .runs 0, .runs 2, .runs 2, .runs 1, .runs 1]

theorem together_of_turns_saved : ∃ s, run (step overtakenCalls) .init inTurns = some s ∧
    s.progress 2 = .loaded (some ("anthropic", "claude")) ∧ Together overtakenCalls s := by
  have hrun : run (step overtakenCalls) .init inTurns = some _ := rfl
  refine ⟨_, hrun, by decide, together_of_turns overtakenCalls inTurns _ ?_ hrun⟩
  refine runOk_cons rfl (fun j hj => ?_) (runOk_cons rfl (fun j hj => ?_) (runOk_cons rfl (fun j hj => ?_)
    (runOk_cons rfl (fun j hj => ?_) (runOk_cons rfl (fun j hj => ?_) (runOk_cons rfl (fun j hj => ?_) trivial)))))
  · rfl
  all_goals
    simp only [Function.update_apply]
    split_ifs <;> simp_all [Progress.midway, State.init]

/-- The second save is between its two statements. -/
def overtaken : List Event := [.runs 0, .runs 0, .runs 1, .runs 2, .runs 2]

theorem overtaken_mixed : ∃ s, run (step overtakenCalls) .init overtaken = some s ∧
    s.progress 2 = .loaded (some ("openai", "claude")) ∧ ¬Together overtakenCalls s := by
  refine ⟨_, rfl, by decide, fun h => ?_⟩
  obtain ⟨j, hj, -⟩ := h 2 "openai" "claude" (by decide)
  match j with
  | 0 => exact absurd hj (by decide)
  | 1 => exact absurd hj (by decide)
  | j + 2 => cases hj

end Nexal.ModelConfig
