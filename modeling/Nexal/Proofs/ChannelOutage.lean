import Nexal.Sanity.ChannelManager

/-! A load that fails is taken for an empty configuration. The channels that are always on keep running with their
defaults; the others are stopped, as if their rows had been deleted. -/

namespace Nexal.ChannelManager

open Runs

variable {β : Type} {cfg : ChannelManagerConfig β} {s s' : State β} {name other : String} {names rest : List String}
  {i : ℕ}
  {c : Channel β} {a : Act β}

def noRows : Config β := fun _ => none

def Kept (s s' : State β) (name : String) (i : ℕ) : Prop :=
  s'.channels name = some i ∧ (∃ c, s'.started[i]? = some c ∧ c.stopped = false) ∧ s'.applied name = s.applied name

def Ended (s : State β) (i : ℕ) : Prop := ∃ c, s.started[i]? = some c ∧ c.stopped = true

/-- The channel `c` runs with the defaults, and is not being stopped. -/
structure ByDefault (cfg : ChannelManagerConfig β) (name : String) (i : ℕ) (c : Channel β) (s : State β) : Prop where
  channels : s.channels name = some i
  started : s.started[i]? = some c
  applied : s.applied name = some (hash cfg noRows name)
  beside : ∀ all other rest j, s.phase = .stopping all other rest j → all = noRows ∧ other ≠ name

/-- The reconcile under way has still to come to the channel. -/
structure Doomed (cfg : ChannelManagerConfig β) (name : String) (i : ℕ) (s : State β) : Prop where
  channels : s.channels name = some i
  applied : s.applied name ≠ some (hash cfg noRows name)
  ahead : (∃ found, s.phase = .loading found) ∨
    ∃ other rest j, s.phase = .stopping noRows other rest j ∧ name ∈ other :: rest

/-! The channels that run with their defaults -/

theorem byDefault_applyNames (hchannels : s.channels name = some i) (hstarted : s.started[i]? = some c)
    (happlied : s.applied name = some (hash cfg noRows name)) : ByDefault cfg name i c (applyNames cfg noRows names s) := by
  refine applyNames_rule (fun _ v => v.channels name = some i ∧ v.started[i]? = some c ∧
    v.applied name = some (hash cfg noRows name)) (ByDefault cfg name i c) ?_ ?_ ?_ ?_ ⟨hchannels, hstarted, happlied⟩
  · exact fun _ _ _ h _ _ => h
  · rintro other rest v ⟨hchannels, hstarted, happlied⟩ - - hnone
    have hne : name ≠ other := fun heq => by cases (heq ▸ hnone).symm.trans hchannels
    refine ⟨(channels_install noRows hne).trans hchannels, started_install noRows other hstarted, ?_⟩
    rw [applied_install, if_neg hne]
    exact happlied
  · rintro other rest v j ⟨hchannels, hstarted, happlied⟩ - hne -
    refine ⟨hchannels, hstarted, happlied, fun all other' rest' j' hp => ?_⟩
    cases hp
    exact ⟨rfl, fun heq => hne (heq ▸ happlied)⟩
  · rintro names v ⟨hchannels, hstarted, happlied⟩ -
    obtain ⟨phase, rerun, heq, hphase⟩ := finish_eq v
    rw [heq]
    refine ⟨hchannels, hstarted, happlied, fun all other rest j hp => ?_⟩
    rcases hphase with rfl | rfl
    · cases hp
    · cases hp

theorem ByDefault.aside {m : State β} (h : ByDefault cfg name i c s) (ha : Aside s m) : ByDefault cfg name i c m :=
  ⟨ha.channels ▸ h.channels, ha.started ▸ h.started, ha.applied ▸ h.applied, ha.phase ▸ h.beside⟩

theorem byDefault_reconcile (h : ByDefault cfg name i c s) : ByDefault cfg name i c (reconcile s) := by
  obtain ⟨phase, rerun, heq, hphase⟩ := reconcile_eq s
  rw [heq]
  refine ⟨h.channels, h.started, h.applied, fun all other rest j hp => ?_⟩
  rcases hphase with rfl | rfl
  · exact h.beside all other rest j hp
  · cases hp

theorem byDefault_step (hsteady : Steady cfg s) (hc : c.name = name) (h : ByDefault cfg name i c s) (ha : a ≠ .stopAll)
    (hload : a ≠ .loaded true) (hs : step cfg s a = some s') : ByDefault cfg name i c s' := by
  cases step_does hs with
  | aside a _ haside => exact h.aside haside
  | reconciles a m haside => exact byDefault_reconcile (h.aside haside)
  | query hphase => exact ⟨h.channels, h.started, h.applied, fun _ _ _ _ hp => (by cases hp)⟩
  | loaded found all hphase hfound => exact absurd rfl hload
  | failed found hphase => exact byDefault_applyNames h.channels h.started h.applied
  | stopped all other rest j hphase =>
    obtain ⟨rfl, hne⟩ := h.beside all other rest j hphase
    obtain ⟨hj, -⟩ := hsteady.held noRows other rest j hphase
    -- the channel that stops has another name
    have hij : j ≠ i := by
      rintro rfl
      obtain ⟨bucket, hstarted, -⟩ := hsteady.running.channel hj
      cases hstarted.symm.trans h.started
      exact hne hc
    refine byDefault_applyNames ?_ (started_install noRows other ?_) ?_
    · exact (channels_install noRows hne.symm).trans ((Function.update_of_ne hne.symm _ _).trans h.channels)
    · exact (started_markStopped s j i).trans ((if_neg hij).trans h.started)
    · rw [applied_install, if_neg hne.symm]
      exact h.applied
  | stopAll => exact absurd rfl ha
  | stoppedFor k i call hcall hi => exact absurd hcall hsteady.no_call
  | stopAllGo k call hcall hwaiting => exact absurd hcall hsteady.no_call

/-! The others -/

theorem ended_applyNames {all : Config β} (h : Ended s i) : Ended (applyNames cfg all names s) i := by
  refine applyNames_rule (fun _ v => Ended v i) (fun v => Ended v i) ?_ ?_ ?_ ?_ h
  · exact fun _ _ _ h _ _ => h
  · exact fun other _ _ h _ _ _ => h.imp fun _ hc => ⟨started_install all other hc.1, hc.2⟩
  · exact fun _ _ _ _ h _ _ _ => h
  · intro _ v h _
    obtain ⟨phase, rerun, heq, -⟩ := finish_eq v
    rw [heq]
    exact h

theorem ended_markStopped (j : ℕ) (h : Ended s i) : Ended (markStopped s j) i := by
  obtain ⟨c, hc, hstopped⟩ := h
  rw [Ended, started_markStopped, hc]
  split_ifs
  · exact ⟨_, rfl, rfl⟩
  · exact ⟨c, rfl, hstopped⟩

theorem ended_reconcile (h : Ended s i) : Ended (reconcile s) i := by
  obtain ⟨phase, rerun, heq, -⟩ := reconcile_eq s
  rw [heq]
  exact h

/-- A channel that has stopped stays so. -/
theorem ended_step (h : Ended s i) (hs : step cfg s a = some s') : Ended s' i := by
  cases step_does hs with
  | aside a _ haside => exact h.imp fun _ hc => ⟨haside.started ▸ hc.1, hc.2⟩
  | reconciles a m haside => exact ended_reconcile (h.imp fun _ hc => ⟨haside.started ▸ hc.1, hc.2⟩)
  | query | stopAll | stopAllGo => exact h
  | loaded | failed => exact ended_applyNames h
  | stopped all other rest j hphase =>
    exact ended_applyNames ((ended_markStopped j h).imp fun _ hc => ⟨started_install all other hc.1, hc.2⟩)
  | stoppedFor k j call hcall hj => exact ended_markStopped j h

theorem doomed_applyNames (hchannels : s.channels name = some i) (happlied : s.applied name ≠ some (hash cfg noRows name))
    (hname : name ∈ names) (hstopped : s.stopped = false) : Doomed cfg name i (applyNames cfg noRows names s) := by
  refine applyNames_rule (fun names v => v.channels name = some i ∧ v.applied name ≠ some (hash cfg noRows name) ∧
    name ∈ names ∧
    v.stopped = false) (Doomed cfg name i) ?_ ?_ ?_ ?_ ⟨hchannels, happlied, hname, hstopped⟩
  · rintro other rest v ⟨hchannels, happlied, hname, hstopped⟩ - hskip
    refine ⟨hchannels, happlied, ?_, hstopped⟩
    rcases List.mem_cons.mp hname with rfl | hname
    · exact absurd hskip happlied
    · exact hname
  · rintro other rest v ⟨hchannels, happlied, hname, hstopped⟩ - - hnone
    have hne : name ≠ other := fun heq => by cases (heq ▸ hnone).symm.trans hchannels
    refine ⟨(channels_install noRows hne).trans hchannels, ?_, (List.mem_cons.mp hname).resolve_left hne, hstopped⟩
    rw [applied_install, if_neg hne]
    exact happlied
  · rintro other rest v j ⟨hchannels, happlied, hname, -⟩ - - -
    exact ⟨hchannels, happlied, Or.inr ⟨other, rest, j, rfl, hname⟩⟩
  · rintro names v ⟨-, -, hname, hstopped⟩ (rfl | hstop)
    · exact absurd hname List.not_mem_nil
    · cases hstopped.symm.trans hstop

theorem doomed_reconcile (h : Doomed cfg name i s) : Doomed cfg name i (reconcile s) := by
  unfold reconcile
  split_ifs
  · exact h
  · split
    · exact ⟨h.channels, h.applied, Or.inl ⟨none, rfl⟩⟩
    · exact ⟨h.channels, h.applied, h.ahead⟩
    · exact ⟨h.channels, h.applied, h.ahead⟩

theorem doomed_step (hsteady : Steady cfg s) (h : Doomed cfg name i s) (ha : a ≠ .stopAll) (hload : a ≠ .loaded true)
    (hs : step cfg s a = some s') : Doomed cfg name i s' ∨ Ended s' i := by
  cases step_does hs with
  | aside a _ haside =>
    exact Or.inl ⟨haside.channels ▸ h.channels, haside.applied ▸ h.applied, haside.phase ▸ h.ahead⟩
  | reconciles a m haside =>
    exact Or.inl (doomed_reconcile ⟨haside.channels ▸ h.channels, haside.applied ▸ h.applied,
      haside.phase ▸ h.ahead⟩)
  | query hphase => exact Or.inl ⟨h.channels, h.applied, Or.inl ⟨_, rfl⟩⟩
  | loaded found all hphase hfound => exact absurd rfl hload
  | failed found hphase =>
    exact Or.inl (doomed_applyNames h.channels h.applied (hsteady.running.registered name i h.channels) hsteady.stopped)
  | stopped all other rest j hphase =>
    obtain ⟨hj, -⟩ := hsteady.held all other rest j hphase
    rcases h.ahead with ⟨found, hloading⟩ | ⟨other', rest', j', hstopping, hname⟩
    · cases hphase.symm.trans hloading
    · cases hphase.symm.trans hstopping
      by_cases hne : name = other
      · subst hne
        cases h.channels.symm.trans hj
        obtain ⟨bucket, hstarted, -⟩ := hsteady.running.channel h.channels
        have hended : Ended (markStopped s i) i := by
          rw [Ended, started_markStopped, if_pos rfl, hstarted]
          exact ⟨_, rfl, rfl⟩
        exact Or.inr (ended_applyNames (hended.imp fun _ hc => ⟨started_install noRows name hc.1, hc.2⟩))
      · refine Or.inl (doomed_applyNames ?_ ?_ ((List.mem_cons.mp hname).resolve_left hne) hsteady.stopped)
        · exact (channels_install noRows hne).trans ((Function.update_of_ne hne _ _).trans h.channels)
        · rw [applied_install, if_neg hne]
          exact h.applied
  | stopAll => exact absurd rfl ha
  | stoppedFor k i call hcall hi => exact absurd hcall hsteady.no_call
  | stopAllGo k call hcall hwaiting => exact absurd hcall hsteady.no_call

/-- Over any number of reconciles whose loads all fail, a channel that was applied with the hash of the empty
configuration is left as it is, and every other one is stopped. -/
theorem failed_loads_leave_defaults (config : Config β) (before acts : List (Act β)) (s s' : State β)
    (found : Option (Config β))
    (name : String) (i : ℕ) (hbefore : ∀ a ∈ before, a ≠ .stopAll)
    (hrun : run (step cfg) (init config) before = some s)
    (hphase : s.phase = .loading found) (hacts : ∀ a ∈ acts, a ≠ .stopAll ∧ a ≠ .loaded true)
    (hrun' : run (step cfg) s acts = some s') (hidle : s'.phase = .idle) (hi : s.channels name = some i) :
    (s.applied name = some (hash cfg noRows name) → Kept s s' name i) ∧
      (s.applied name ≠ some (hash cfg noRows name) → Ended s' i) := by
  have hsteady : Steady cfg s := run_inv (Steady cfg) (fun _ _ _ h ha hs => steady_step h ha hs) (steady_init config)
    (runOk_of_mem (fun a ha _ => hbefore a ha) _) hrun
  have hok : RunOk (step cfg) (fun _ a => a ≠ .stopAll ∧ a ≠ .loaded true) s acts :=
    runOk_of_mem (fun a ha _ => hacts a ha) s
  constructor
  · intro happlied
    obtain ⟨bucket, hstarted, -⟩ := hsteady.running.channel hi
    have hdefault : ByDefault cfg name i ⟨name, bucket, false⟩ s :=
      ⟨hi, hstarted, happlied, fun _ _ _ _ hp => (by cases hphase.symm.trans hp)⟩
    have hinv : Steady cfg s' ∧ ByDefault cfg name i ⟨name, bucket, false⟩ s' :=
      run_inv (fun s => Steady cfg s ∧ ByDefault cfg name i ⟨name, bucket, false⟩ s)
        (fun _ _ _ h ha hs => ⟨steady_step h.1 ha.1 hs, byDefault_step h.1 rfl h.2 ha.1 ha.2 hs⟩) ⟨hsteady,
          hdefault⟩ hok hrun'
    exact ⟨hinv.2.channels, ⟨_, hinv.2.started, rfl⟩, hinv.2.applied.trans happlied.symm⟩
  · intro happlied
    have hdoomed : Doomed cfg name i s := ⟨hi, happlied, Or.inl ⟨found, hphase⟩⟩
    have hinv : Steady cfg s' ∧ (Doomed cfg name i s' ∨ Ended s' i) := by
      refine run_inv (fun s => Steady cfg s ∧ (Doomed cfg name i s ∨ Ended s i)) ?_ ⟨hsteady,
        Or.inl hdoomed⟩ hok hrun'
      rintro s a s' ⟨hsteady, hdoomed | hended⟩ ha hs
      · exact ⟨steady_step hsteady ha.1 hs, doomed_step hsteady hdoomed ha.1 ha.2 hs⟩
      · exact ⟨steady_step hsteady ha.1 hs, Or.inr (ended_step hended hs)⟩
    rcases hinv.2 with hdoomed | hended
    · rcases hdoomed.ahead with ⟨found', hloading⟩ | ⟨other, rest, j, hstopping, -⟩
      · cases hidle.symm.trans hloading
      · cases hidle.symm.trans hstopping
    · exact hended

/-- http, ws and telegram run when a poll comes. -/
def pollRun : List (Act (Option Bool)) := [.startInitial, .query, .loaded true, .setTimer, .poll]

/-- The loads of two polls fail. -/
def outageRun : List (Act (Option Bool)) := [.loaded false, .stopped, .poll, .query, .loaded false]

theorem failed_loads_leave_defaults_ws : ∃ s s', run (step twoTokens) (init (telegram (some false))) pollRun = some s ∧
    run (step twoTokens) s outageRun = some s' ∧ Kept s s' "ws" 1 ∧ Ended s' 2 := by
  obtain ⟨s, s', hs, hs', hphase, hidle, hws, htelegram, happlied, happlied'⟩ : ∃ s s',
      run (step twoTokens) (init (telegram (some false))) pollRun = some s ∧ run (step twoTokens) s outageRun = some s' ∧
      s.phase = .loading none ∧ s'.phase = .idle ∧ s.channels "ws" = some 1 ∧ s.channels "telegram" = some 2 ∧
      s.applied "ws" = some (hash twoTokens noRows "ws") ∧
        s.applied "telegram" = some (twoTokens.stringify (some false)) :=
    ⟨_, _, rfl, rfl, rfl, rfl, rfl, rfl, rfl, rfl⟩
  have hother : s.applied "telegram" ≠ some (hash twoTokens noRows "telegram") := by
    rw [happlied']
    decide
  refine ⟨s, s', hs, hs', ?_, ?_⟩
  · exact (failed_loads_leave_defaults (telegram (some false)) pollRun outageRun s s' none "ws" 1 (by decide) hs hphase
      (by decide) hs' hidle hws).1 happlied
  · exact (failed_loads_leave_defaults (telegram (some false)) pollRun outageRun s s' none "telegram" 2 (by
      decide) hs hphase
      (by decide) hs' hidle htelegram).2 hother

theorem failed_load_stops_telegram : ¬ ∀ (config : Config (Option Bool)) (before acts : List (Act (Option Bool)))
    (s s' : State (Option Bool)) (found : Option (Config (Option Bool))) (name : String) (i : ℕ),
    (∀ a ∈ before, a ≠ .stopAll) → run (step twoTokens) (init config) before = some s →
      s.phase = .loading found →
    (∀ a ∈ acts, a ≠ .stopAll ∧ a ≠ .loaded true) → run (step twoTokens) s acts = some s' →
      s'.phase = .idle →
    s.channels name = some i → Kept s s' name i := by
  intro hall
  obtain ⟨s, s', hs, hs', hphase, hidle, hi, hgone⟩ :
    ∃ s s', run (step twoTokens) (init (telegram (some false))) pollRun = some s ∧
      run (step twoTokens) s [.loaded false, .stopped] = some s' ∧ s.phase = .loading none ∧ s'.phase = .idle ∧
      s.channels "telegram" = some 2 ∧ s'.channels "telegram" = none := ⟨_, _, rfl, rfl, rfl, rfl, rfl, rfl⟩
  have hkept := hall (telegram (some false)) pollRun [.loaded false, .stopped] s s' none "telegram" 2 (by decide) hs hphase
    (by decide) hs' hidle hi
  cases hgone.symm.trans hkept.1

end Nexal.ChannelManager
