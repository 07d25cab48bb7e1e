import Nexal.Sanity.ChannelManager

/-! The channels follow the configuration. A write is followed by its notification, which starts a reconcile or has
the running one go round again; so a manager at rest has applied what was written last. -/

namespace Nexal.ChannelManager

open Runs

variable {β : Type} {cfg : ChannelManagerConfig β} {s s' : State β} {all : Config β} {name : String} {rest : List String}
  {a : Act β}

/-- The channels that have been started and not stopped have different names. -/
def OneEach (s : State β) : Prop :=
    ∀ (i j : ℕ) (c d : Channel β), s.started[i]? = some c → s.started[j]? = some d →
  c.stopped = false → d.stopped = false → c.name = d.name → i = j

/-- The map holds the channel that the configuration asks for, if it asks for one. -/
def Matches (cfg : ChannelManagerConfig β) (s : State β) (name : String) : Prop :=
  match s.channels name with
  | some i => name ∈ known ∧ ∃ running bucket, s.started[i]? = some ⟨name, running, false⟩ ∧
      desired cfg s.config name = some bucket ∧ cfg.stringify running = cfg.stringify bucket ∧
      s.applied name = some (cfg.stringify bucket)
  | none => name ∈ known → desired cfg s.config name = none

/-- A manager that runs, with nothing left to do. -/
def AtRest (s : State β) : Prop := s.phase = .idle ∧ s.subscribed = true ∧ s.outstanding = 0

def Told (s : State β) : Prop := s.subscribed = true ∧ s.outstanding = 0 ∧ s.rerun = false

structure Current (cfg : ChannelManagerConfig β) (s : State β) : Prop where
  loaded : ∀ all, s.phase = .loading (some all) → Told s → all = s.config
  stopping : ∀ all name rest i, s.phase = .stopping all name rest i → Told s → all = s.config
  done : ∀ all name rest i, s.phase = .stopping all name rest i → ∀ done, known = done ++ name :: rest →
    ∀ other ∈ done, s.applied other = some (hash cfg all other)
  rest : AtRest s → ∀ name ∈ known, s.applied name = some (hash cfg s.config name)

theorem oneEach_of_running (h : Running cfg s) : OneEach s := by
  intro i j c d hc hd hcrun hdrun hname
  have hi := h.apart i c hc hcrun
  have hj := h.apart j d hd hdrun
  rw [← hname] at hj
  exact Option.some.inj (hi.symm.trans hj)

theorem matches_of_applied (h : Running cfg s)
    (happlied : name ∈ known → s.applied name = some (hash cfg s.config name)) :
    Matches cfg s name := by
  have htied := h.tied name
  unfold Matches
  rw [Tied] at htied
  cases hi : s.channels name with
  | some i =>
    rw [hi] at htied
    obtain ⟨running, hc, hhash⟩ := htied
    have hknown := h.registered name i hi
    have heq : cfg.stringify running = hash cfg s.config name := Option.some.inj (hhash.symm.trans (happlied hknown))
    cases hdesired : desired cfg s.config name with
    | none =>
      rw [desired_none hdesired] at heq
      exact absurd heq (cfg.stringify_ne_off running)
    | some bucket =>
      rw [desired_some hdesired] at heq
      exact ⟨hknown, running, bucket, hc, rfl, heq, heq ▸ hhash⟩
  | none =>
    rw [hi] at htied
    intro hknown
    cases hdesired : desired cfg s.config name with
    | none => rfl
    | some bucket =>
      have heq := happlied hknown
      rw [desired_some hdesired] at heq
      rcases htied with hnone | hoff
      · cases hnone.symm.trans heq
      · exact absurd (Option.some.inj (heq.symm.trans hoff)) (cfg.stringify_ne_off bucket)

/-! The steps -/

theorem applied_done {done : List String} (h : ∀ other ∈ done, s.applied other = some (hash cfg all other)) :
    ∀ other ∈ done ++ [name], (install cfg all name s).applied other = some (hash cfg all other) := by
  intro other hother
  rw [applied_install]
  split_ifs with heq
  · rw [heq]
  · rcases List.mem_append.mp hother with hother | hother
    · exact h other hother
    · exact absurd (List.mem_singleton.mp hother) heq

/-- The loop goes on from names that have all been applied. -/
theorem current_applyNames {names done : List String} (hstopped : s.stopped = false) (hnames : known = done ++ names)
    (hdone : ∀ other ∈ done, s.applied other = some (hash cfg all other)) (htold : Told s → all = s.config) :
    Current cfg (applyNames cfg all names s) := by
  refine applyNames_rule (fun names v => v.stopped = false ∧ (Told v → all = v.config) ∧
    ∃ done, known = done ++ names ∧ ∀ other ∈ done, v.applied other = some (hash cfg all other))
    (Current cfg) ?_ ?_ ?_ ?_ ⟨hstopped, htold, done, hnames, hdone⟩
  · rintro name rest v ⟨hv, htold, done, hnames, hdone⟩ - happlied
    refine ⟨hv, htold, done ++ [name], advance hnames, fun other hother => ?_⟩
    rcases List.mem_append.mp hother with hother | hother
    · exact hdone other hother
    · rw [List.mem_singleton.mp hother]
      exact happlied
  · rintro name rest v ⟨hv, htold, done, hnames, hdone⟩ - - -
    exact ⟨hv, htold, done ++ [name], advance hnames, applied_done hdone⟩
  · rintro name rest v i ⟨hv, htold, done, hnames, hdone⟩ - - -
    refine ⟨fun _ hp => (by cases hp), fun _ _ _ _ hp => ?_, fun _ _ _ _ hp done' hdone' => ?_, fun h => (by cases h.1)⟩
    · cases hp
      exact htold
    · cases hp
      rw [List.append_cancel_right (hdone'.symm.trans hnames)]
      exact hdone
  · rintro names v ⟨hv, htold, done, hnames, hdone⟩ hend
    have hall : ∀ other ∈ known, v.applied other = some (hash cfg all other) := by
      rcases hend with rfl | hend
      · rw [List.append_nil] at hnames
        rw [hnames]
        exact hdone
      · cases hv.symm.trans hend
    unfold finish
    split_ifs with hrerun
    · exact ⟨fun _ hp => (by cases hp), fun _ _ _ _ hp => (by cases hp), fun _ _ _ _ hp => (by cases hp),
        fun h => (by cases h.1)⟩
    · have hnot : v.rerun = false := by simpa [hv] using hrerun
      refine ⟨fun _ hp => (by cases hp), fun _ _ _ _ hp => (by cases hp), fun _ _ _ _ hp => (by cases hp), fun h => ?_⟩
      dsimp only
      rw [← htold ⟨h.2.1, h.2.2, hnot⟩]
      exact hall

/-- A reconcile that is asked for makes the one under way go round again. -/
theorem current_reconcile (hstopped : s.stopped = false)
    (hdone : ∀ all name rest i, s.phase = .stopping all name rest i → ∀ done, known = done ++ name :: rest →
      ∀ other ∈ done, s.applied other = some (hash cfg all other)) : Current cfg (reconcile s) := by
  rw [reconcile, hstopped, if_neg Bool.false_ne_true]
  split
  · exact ⟨fun _ hp => (by cases hp), fun _ _ _ _ hp => (by cases hp), fun _ _ _ _ hp => (by cases hp),
      fun h => (by cases h.1)⟩
  · rename_i hphase
    exact ⟨fun _ _ h => (by cases h.2.2), fun _ _ _ _ _ h => (by cases h.2.2), hdone,
      fun h => (by cases hphase.symm.trans h.1)⟩
  · rename_i hphase
    exact ⟨fun _ _ h => (by cases h.2.2), fun _ _ _ _ _ h => (by cases h.2.2), hdone,
      fun h => (by cases hphase.symm.trans h.1)⟩

/-- Nobody has told of all writes. -/
theorem current_untold (hdone : ∀ all name rest i, s.phase = .stopping all name rest i →
      ∀ done, known = done ++ name :: rest →
      ∀ other ∈ done, s.applied other = some (hash cfg all other))
        (htold : ¬ (s.subscribed = true ∧ s.outstanding = 0)) :
    Current cfg s :=
  ⟨fun _ _ h => absurd ⟨h.1, h.2.1⟩ htold, fun _ _ _ _ _ h => absurd ⟨h.1, h.2.1⟩ htold, hdone,
    fun h => absurd h.2 htold⟩

theorem current_step (hsteady : Steady cfg s) (h : Current cfg s) (ha : a ≠ .stopAll) (hload : a ≠ .loaded false)
    (hs : step cfg s a = some s') : Current cfg s' := by
  cases a with
  | write name bucket =>
    cases hs
    exact current_untold h.done fun htold => Nat.succ_ne_zero _ htold.2
  | notify =>
    rw [step] at hs
    split_ifs at hs
    cases hs
    dsimp only
    split_ifs with hsubscribed
    · exact current_reconcile hsteady.stopped h.done
    · exact current_untold h.done fun htold => hsubscribed htold.1
  | startInitial =>
    cases hs
    exact current_reconcile hsteady.stopped h.done
  | setTimer =>
    rw [step] at hs
    split_ifs at hs
    cases hs
    exact ⟨h.loaded, h.stopping, h.done, h.rest⟩
  | reconcile =>
    cases hs
    exact current_reconcile hsteady.stopped h.done
  | poll =>
    rw [step] at hs
    split_ifs at hs
    cases hs
    exact current_reconcile hsteady.stopped h.done
  | query =>
    rw [step] at hs
    split at hs
    · cases hs
      refine ⟨fun all hp _ => ?_, fun _ _ _ _ hp => (by cases hp), fun _ _ _ _ hp => (by cases hp),
        fun h => (by cases h.1)⟩
      cases hp
      rfl
    · cases hs
  | loaded ok =>
    rw [step] at hs
    split at hs
    · rename_i found hphase
      split at hs
      · rename_i all
        cases hs
        exact current_applyNames hsteady.stopped (List.nil_append known).symm (fun _ hm => absurd hm List.not_mem_nil)
          (h.loaded all hphase)
      · cases hs
      · exact absurd rfl hload
    · cases hs
  | stopped =>
    rw [step] at hs
    split at hs
    · rename_i all name rest i hphase
      cases hs
      obtain ⟨-, done, hdone⟩ := hsteady.held all name rest i hphase
      have happlied : ∀ other ∈ done ++ [name], (install cfg all name (uninstall s name i)).applied other =
          some (hash cfg all other) := applied_done (h.done all name rest i hphase done hdone)
      exact current_applyNames hsteady.stopped (advance hdone) happlied (h.stopping all name rest i hphase)
    · cases hs
  | stopAll => exact absurd rfl ha
  | stoppedFor k i =>
    rw [step, hsteady.stopCalls] at hs
    cases hs
  | stopAllGo k =>
    rw [step, hsteady.stopCalls] at hs
    cases hs

/-- Whatever comes between the awaits, no two channels of one name run at a time, and a manager at rest runs the channels
of the configuration as it was written last. -/
theorem channels_converge (config : Config β) (acts : List (Act β)) (s : State β)
    (hacts : ∀ a ∈ acts, a ≠ .stopAll ∧ a ≠ .loaded false) (hrun : run (step cfg) (init config) acts = some s) :
    OneEach s ∧ (AtRest s → ∀ name, Matches cfg s name) := by
  have hinit : Current cfg (init config) :=
    ⟨fun _ hp => (by cases hp), fun _ _ _ _ hp => (by cases hp), fun _ _ _ _ hp => (by cases hp),
      fun h => (by cases h.2.1)⟩
  have hinv : Steady cfg s ∧ Current cfg s :=
    run_inv (fun s => Steady cfg s ∧ Current cfg s)
      (fun _ _ _ h ha hs => ⟨steady_step h.1 ha.1 hs, current_step h.1 h.2 ha.1 ha.2 hs⟩) ⟨steady_init config, hinit⟩
      (runOk_of_mem (fun a ha _ => hacts a ha) _) hrun
  exact ⟨oneEach_of_running hinv.1.running,
    fun hrest name => matches_of_applied hinv.1.running fun hname => hinv.2.rest hrest name hname⟩

/-- The token changes while the first configuration is being applied, and the channel with the old one is stopped. -/
def changeRun : List (Act (Option Bool)) :=
  [.startInitial, .query, .write "telegram" (some (some true)), .notify, .loaded true, .query, .loaded true, .stopped,
    .setTimer]

theorem channels_converge_change : ∃ s, run (step twoTokens) (init (telegram (some false))) changeRun = some s ∧
    s.channels "telegram" = some 3 ∧ ∀ name, Matches twoTokens s name := by
  obtain ⟨s, hs, hat, hrest⟩ : ∃ s, run (step twoTokens) (init (telegram (some false))) changeRun = some s ∧
      s.channels "telegram" = some 3 ∧ AtRest s := ⟨_, rfl, rfl, rfl, rfl, rfl⟩
  exact ⟨s, hs, hat, (channels_converge (telegram (some false)) changeRun s (by decide) hs).2 hrest⟩

end Nexal.ChannelManager
