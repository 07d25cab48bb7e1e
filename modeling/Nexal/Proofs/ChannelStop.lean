import Nexal.Sanity.ChannelManager

/-! Stopping the manager. A reconcile that loads when `stopAll` is called starts nothing more; but one that waits for
a channel to stop looks at the flag only after it has started the replacement. -/

namespace Nexal.ChannelManager

open Runs

variable {β : Type} {cfg : ChannelManagerConfig β} {s s' : State β} {all : Config β} {name : String}
  {names : List String}
  {a : Act β}

/-- Every call of `stopAll` has come back, and no reconcile is under way. -/
def StoppedAll (s : State β) : Prop :=
  s.phase = .idle ∧ s.stopCalls ≠ [] ∧ ∀ call ∈ s.stopCalls, call.resolved = true

def NoneLeft (s : State β) : Prop := (∀ name, s.channels name = none) ∧ ∀ c ∈ s.started, c.stopped = true

/-- The reconcile waits for a channel to stop that it is to replace. -/
def replacing (cfg : ChannelManagerConfig β) (s : State β) : Bool :=
  match s.phase with
  | .stopping all name _ _ => (desired cfg all name).isSome
  | _ => false

/-- `stopAll` is not called while a channel is being replaced. -/
def notReplacing (cfg : ChannelManagerConfig β) (s : State β) : Act β → Bool
  | .stopAll => !replacing cfg s
  | _ => true

/-- The channels that still run are waited for by a call of `stopAll`. -/
structure Closing (cfg : ChannelManagerConfig β) (s : State β) : Prop where
  stopped : s.stopped = true
  waited : ∀ (i : ℕ) (c : Channel β), s.started[i]? = some c → c.stopped = false →
    ∃ call ∈ s.stopCalls, i ∈ call.waiting
  drained : ∀ call ∈ s.stopCalls, call.resolved = true → call.waiting = []
  cleared : ∀ call ∈ s.stopCalls, call.resolved = true → ∀ name, s.channels name = none
  removing : ∀ all name rest i, s.phase = .stopping all name rest i → desired cfg all name = none

theorem finish_stopped (h : s.stopped = true) : finish s = { s with phase := .idle } := by
  rw [finish, if_neg]
  exact fun hrerun => hrerun.2 h

theorem applyNames_stopped (h : s.stopped = true) : applyNames cfg all names s = { s with phase := .idle } := by
  cases names with
  | nil => exact finish_stopped h
  | cons name rest =>
    rw [applyNames, if_pos h]
    exact finish_stopped h

theorem reconcile_stopped (h : s.stopped = true) : reconcile s = s := by rw [reconcile, if_pos h]

theorem Closing.aside {m : State β} (h : Closing cfg s) (ha : Aside s m) : Closing cfg m := by
  refine ⟨ha.stopped.trans h.stopped, ?_, ?_, ?_, ?_⟩
  · rw [ha.started, ha.stopCalls]
    exact h.waited
  · rw [ha.stopCalls]
    exact h.drained
  · rw [ha.stopCalls, ha.channels]
    exact h.cleared
  · rw [ha.phase]
    exact h.removing

theorem closing_reconcile (h : Closing cfg s) : Closing cfg (reconcile s) := by
  rw [reconcile_stopped h.stopped]
  exact h

/-- A channel that has stopped is not among those to be waited for. -/
theorem waited_markStopped {i j : ℕ} {c : Channel β} (hc : (markStopped s i).started[j]? = some c)
    (hrun : c.stopped = false) :
    i ≠ j ∧ s.started[j]? = some c := by
  rw [started_markStopped] at hc
  split_ifs at hc with hij
  · obtain ⟨c', -, rfl⟩ := Option.map_eq_some_iff.mp hc
    cases hrun
  · exact ⟨hij, hc⟩

/-- The first call. -/
theorem closing_stopAll (h : Steady cfg s)
    (hremoving : replacing cfg s = false) : Closing cfg (stopAll s) := by
  have hcalls : (stopAll s).stopCalls = [⟨known.filterMap s.channels, false⟩] := by
    rw [stopAll, h.stopCalls, List.nil_append]
  refine ⟨rfl, fun i c hc hrun => ?_, fun call hcall hresolved => ?_, fun call hcall hresolved => ?_,
    fun all name rest i hp => ?_⟩
  · have hi := h.running.apart i c hc hrun
    rw [hcalls]
    exact ⟨_, List.mem_singleton.mpr rfl, List.mem_filterMap.mpr ⟨c.name, h.running.registered c.name i hi, hi⟩⟩
  · rw [hcalls] at hcall
    cases List.mem_singleton.mp hcall
    cases hresolved
  · rw [hcalls] at hcall
    cases List.mem_singleton.mp hcall
    cases hresolved
  · have hphase : s.phase = .stopping all name rest i := hp
    rw [replacing, hphase] at hremoving
    exact Option.not_isSome_iff_eq_none.mp (Bool.eq_false_iff.mp hremoving)

theorem Closing.stopAll (h : Closing cfg s) : Closing cfg (stopAll s) := by
  refine ⟨rfl, fun i c hc hrun => ?_, fun call hcall hresolved => ?_, fun call hcall hresolved => ?_, h.removing⟩
  · obtain ⟨call, hcall, hi⟩ := h.waited i c hc hrun
    exact ⟨call, List.mem_append_left _ hcall, hi⟩
  · rcases List.mem_append.mp hcall with hcall | hcall
    · exact h.drained call hcall hresolved
    · cases List.mem_singleton.mp hcall
      cases hresolved
  · rcases List.mem_append.mp hcall with hcall | hcall
    · exact h.cleared call hcall hresolved
    · cases List.mem_singleton.mp hcall
      cases hresolved

theorem closing_step (h : Closing cfg s) (hs : step cfg s a = some s') : Closing cfg s' := by
  cases step_does hs with
  | aside a _ haside => exact h.aside haside
  | reconciles a m haside => exact closing_reconcile (h.aside haside)
  | query hphase => exact ⟨h.stopped, h.waited, h.drained, h.cleared, fun _ _ _ _ hp => (by cases hp)⟩
  | loaded found all hphase hfound =>
    rw [applyNames_stopped h.stopped]
    exact ⟨h.stopped, h.waited, h.drained, h.cleared, fun _ _ _ _ hp => (by cases hp)⟩
  | failed found hphase =>
    rw [applyNames_stopped h.stopped]
    exact ⟨h.stopped, h.waited, h.drained, h.cleared, fun _ _ _ _ hp => (by cases hp)⟩
  | stopped all name rest running hphase =>
    have hstopped : (install cfg all name (uninstall s name running)).stopped = true := h.stopped
    rw [applyNames_stopped hstopped, install_none (h.removing all name rest running hphase)]
    refine ⟨h.stopped, fun i c hc hrun => ?_, h.drained, fun call hcall hresolved other => ?_,
      fun _ _ _ _ hp => (by cases hp)⟩
    · obtain ⟨-, hold⟩ := waited_markStopped hc hrun
      exact h.waited i c hold hrun
    · exact (Function.update_apply _ _ _ _).trans (by rw [h.cleared call hcall hresolved other, ite_self])
  | stopAll => exact h.stopAll
  | stoppedFor k i call hcall hi =>
    have hnot : call.resolved ≠ true := fun hresolved => by
      rw [h.drained call (List.mem_of_getElem? hcall) hresolved] at hi
      exact List.not_mem_nil hi
    refine ⟨h.stopped, fun j c hc hrun => ?_, fun call' hcall' hresolved => ?_, fun call' hcall' hresolved => ?_,
      h.removing⟩
    · obtain ⟨hij, hold⟩ := waited_markStopped hc hrun
      obtain ⟨call', hcall', hj⟩ := h.waited j c hold hrun
      obtain ⟨l, hl⟩ := Lists.exists_getElem?_of_mem hcall'
      by_cases hkl : k = l
      · subst hkl
        cases hcall.symm.trans hl
        refine ⟨_, List.mem_set (List.getElem?_eq_some_iff.mp hcall).1 _, List.mem_filter.mpr ⟨hj, ?_⟩⟩
        exact decide_eq_true (Ne.symm hij)
      · exact ⟨call', List.mem_of_getElem? ((List.getElem?_set_ne hkl).trans hl), hj⟩
    · rcases List.mem_or_eq_of_mem_set hcall' with hold | rfl
      · exact h.drained call' hold hresolved
      · exact absurd hresolved hnot
    · rcases List.mem_or_eq_of_mem_set hcall' with hold | rfl
      · exact h.cleared call' hold hresolved
      · exact absurd hresolved hnot
  | stopAllGo k call hcall hwaiting =>
    refine ⟨h.stopped, fun j c hc hrun => ?_, fun call' hcall' hresolved => ?_, fun _ _ _ _ => rfl, h.removing⟩
    · obtain ⟨call', hcall', hj⟩ := h.waited j c hc hrun
      obtain ⟨l, hl⟩ := Lists.exists_getElem?_of_mem hcall'
      have hkl : k ≠ l := by
        rintro rfl
        cases hcall.symm.trans hl
        rw [hwaiting] at hj
        exact List.not_mem_nil hj
      exact ⟨call', List.mem_of_getElem? ((List.getElem?_set_ne hkl).trans hl), hj⟩
    · rcases List.mem_or_eq_of_mem_set hcall' with hold | rfl
      · exact h.drained call' hold hresolved
      · exact hwaiting

theorem noneLeft_of_closing (h : Closing cfg s) (hall : StoppedAll s) : NoneLeft s := by
  obtain ⟨-, hne, hresolved⟩ := hall
  obtain ⟨call, hcall⟩ := List.exists_mem_of_ne_nil _ hne
  refine ⟨h.cleared call hcall (hresolved call hcall), fun c hc => ?_⟩
  obtain ⟨i, hi⟩ := Lists.exists_getElem?_of_mem hc
  by_contra hrun
  obtain ⟨call', hcall', hwait⟩ := h.waited i c hi (Bool.not_eq_true _ ▸ hrun)
  rw [h.drained call' hcall' (hresolved call' hcall')] at hwait
  exact List.not_mem_nil hwait

/-- In every run in which `stopAll` is not called while a channel is being replaced, no channel is left when it has come
back and the reconcile has ended. -/
theorem stopAll_final (config : Config β) (acts : List (Act β)) (s : State β)
    (hcond : RunOk (step cfg) (fun s a => notReplacing cfg s a = true) (init config) acts)
    (hrun : run (step cfg) (init config) acts = some s)
    (hall : StoppedAll s) : NoneLeft s := by
  have hinv : Steady cfg s ∨ Closing cfg s := by
    refine run_inv (fun s => Steady cfg s ∨ Closing cfg s) ?_ (Or.inl (steady_init config)) hcond hrun
    rintro s a s' (h | h) ha hs
    · by_cases hstop : a = .stopAll
      · subst hstop
        cases hs
        exact Or.inr (closing_stopAll h (Bool.not_eq_true' _ ▸ ha))
      · exact Or.inl (steady_step h hstop hs)
    · exact Or.inr (closing_step h hs)
  rcases hinv with h | h
  · exact absurd h.stopCalls hall.2.1
  · exact noneLeft_of_closing h hall

/-- `stopAll` comes while the configuration is being loaded. -/
def loadingRun : List (Act (Option Bool)) :=
  [.startInitial, .query, .loaded true, .reconcile, .stopAll, .query, .loaded true, .stoppedFor 0 2, .stoppedFor 0 0,
    .stoppedFor 0 1, .stopAllGo 0]

theorem stopAll_final_loading : ∃ s, run (step twoTokens)
    (init (telegram (some false))) loadingRun = some s ∧ NoneLeft s := by
  obtain ⟨s, hs, hphase, hcalls⟩ : ∃ s, run (step twoTokens) (init (telegram (some false))) loadingRun = some s ∧
      s.phase = .idle ∧ s.stopCalls = [⟨[], true⟩] := ⟨_, rfl, rfl, rfl⟩
  refine ⟨s, hs, stopAll_final (telegram (some false)) loadingRun s (by decide) hs ⟨hphase, ?_⟩⟩
  rw [hcalls]
  decide

/-- `stopAll` comes while the channel with the old token is being stopped. -/
def replacedRun : List (Act (Option Bool)) :=
  [.startInitial, .query, .loaded true, .write "telegram" (some (some true)), .notify, .query, .loaded true, .stopAll,
    .stoppedFor 0 0, .stoppedFor 0 1, .stoppedFor 0 2, .stopAllGo 0, .stopped]

theorem replacement_outlives_stopAll : ¬ ∀ (config : Config (Option Bool)) (acts : List (Act (Option Bool)))
    (s : State (Option Bool)), run (step twoTokens) (init config) acts = some s → StoppedAll s → NoneLeft s := by
  intro hall
  obtain ⟨s, hs, hphase, hcalls, hchannel⟩ :
    ∃ s, run (step twoTokens) (init (telegram (some false))) replacedRun = some s ∧
      s.phase = .idle ∧ s.stopCalls = [⟨[], true⟩] ∧ s.channels "telegram" = some 3 := ⟨_, rfl, rfl, rfl, rfl⟩
  have hstopped : StoppedAll s := by
    refine ⟨hphase, ?_⟩
    rw [hcalls]
    decide
  cases hchannel.symm.trans ((hall (telegram (some false)) replacedRun s hs hstopped).1 "telegram")

end Nexal.ChannelManager
