import Nexal.Sanity.GatewayAgents

/-! Acquiring and releasing the agent of a session key. `releaseAgent` looks only at the cache, so one
that comes while the agent is still being spawned does nothing, and the agent is cached and lives on;
and between the callback of `finally` and the caching, `acquireAgent` finds neither and spawns again. -/

namespace Nexal.GatewayAgents

open Runs

def AtMostOneAlive (s : State) : Prop := ∀ a b : ℕ, s.gateway[a]? = some true → s.gateway[b]? = some true → a = b

/-- Two calls of `acquireAgent` of which one was in flight when the other was issued return one agent. -/
def OverlapsAgree (s : State) : Prop :=
  ∀ (i j : ℕ) (call call' : Call) (a b : ℕ), s.calls[i]? = some call → s.calls[j]? = some call' →
    i ∈ call'.concurrent → call.phase = .acquired a → call'.phase = .acquired b → a = b

/-- If every call has finished and the last one issued was a release, no agent is alive. -/
def ReleasedGone (s : State) : Prop :=
  (∀ call ∈ s.calls, call.phase.finished = true) → (s.calls.getLast?.any (·.phase.isRelease)) = true →
    ∀ a : ℕ, s.gateway[a]? ≠ some true

def Sound (s : State) : Prop := AtMostOneAlive s ∧ OverlapsAgree s ∧ ReleasedGone s

def Succeeds : Act → Prop
  | .greeted _ ok | .serve ok => ok = true
  | _ => True

/-- A call that spawns is issued only while no other `acquireAgent` is in flight, and a release only
while no agent is on its way to the cache. -/
def InOrder (s : State) (a : Act) : Prop :=
  match a with
  | .acquire => s.agents ≠ none ∨ s.agentInflight ≠ none ∨ s.acquiring = []
  | .release => ∀ call ∈ s.calls, call.phase.spawning = false
  | _ => Succeeds a

instance decidableSucceeds : (a : Act) → Decidable (Succeeds a)
  | .greeted _ ok | .serve ok => inferInstanceAs (Decidable (ok = true))
  | .acquire | .release | .answer _ | .settle _ | .resume _ => isTrue trivial

instance decidableInOrder (s : State) : (a : Act) → Decidable (InOrder s a)
  | .acquire => inferInstanceAs (Decidable (s.agents ≠ none ∨ s.agentInflight ≠ none ∨ s.acquiring = []))
  | .release => inferInstanceAs (Decidable (∀ call ∈ s.calls, call.phase.spawning = false))
  | .greeted _ ok | .serve ok => inferInstanceAs (Decidable (ok = true))
  | .answer _ | .settle _ | .resume _ => isTrue trivial

variable {s s' : State} {acts : List Act}

theorem inv_init : Inv init := by
  constructor
  case queue => exact .empty
  all_goals simp [init, phaseAt]

theorem inv_resume {i : ℕ} (h : Inv s) (hs : resume s i = some s') : Inv s' := by
  rw [resume] at hs
  obtain ⟨call, hcall, hs⟩ := Option.bind_eq_some_iff.mp hs
  cases hphase : call.phase with
  | awaiting p own =>
    simp only [hphase] at hs
    cases hp : s.spawns[p]? with
    | none =>
      simp only [hp] at hs
      cases hs
    | some spawn =>
      have hsucceeds := h.succeeds p spawn hp
      cases spawn with
      | settled agentId =>
        cases agentId with
        | none => cases hsucceeds
        | some a =>
          simp only [hp] at hs
          cases hs
          cases own with
          | true => exact inv_cached h hcall hphase hp
          | false => exact inv_joined h hcall hphase hp
      | _ =>
        simp only [hp] at hs
        cases hs
  | killed =>
    simp only [hphase] at hs
    cases hs
    exact inv_releasing h hcall (Or.inl ⟨hphase, rfl⟩)
  | closing =>
    simp only [hphase] at hs
    cases hs
    exact inv_releasing h hcall (Or.inr ⟨hphase, rfl⟩)
  | _ =>
    simp only [hphase] at hs
    cases hs

theorem not_spawning (hspawning : ∀ call ∈ s.calls, call.phase.spawning = false) (i p : ℕ) :
    phaseAt s.calls i ≠ some (.awaiting p true) := by
  intro hi
  obtain ⟨call, hcall, hphase⟩ := Option.map_eq_some_iff.mp hi
  have := hspawning call (List.mem_of_getElem? hcall)
  rw [hphase] at this
  cases this

theorem inv_step {a : Act} (h : Inv s) (hok : InOrder s a) (hs : step s a = some s') : Inv s' := by
  cases a with
  | acquire =>
    cases hs
    cases hagents : s.agents with
    | some agentId =>
      simp only [acquireAgent, hagents]
      exact hagents ▸ inv_acquire_cached h hagents
    | none =>
      cases hinflight : s.agentInflight with
      | some p =>
        simp only [acquireAgent, hagents, hinflight]
        exact hinflight ▸ hagents ▸ inv_acquire_join h hagents hinflight
      | none =>
        have hacquiring : s.acquiring = [] := by
          rcases hok with hne | hne | hnone
          · exact absurd hagents hne
          · exact absurd hinflight hne
          · exact hnone
        simp only [acquireAgent, hagents, hinflight]
        exact hagents ▸ inv_acquire_new h hagents hinflight hacquiring
  | release =>
    cases hs
    have howner := not_spawning hok
    cases hagents : s.agents with
    | none =>
      simp only [releaseAgent, hagents]
      exact hagents ▸ inv_release_none h hagents howner
    | some agentId =>
      simp only [releaseAgent, hagents]
      exact inv_release_some h hagents howner
  | greeted p ok =>
    obtain rfl : ok = true := hok
    simp only [step] at hs
    split at hs
    · rename_i hp
      cases hs
      exact inv_greeted h hp
    · cases hs
  | serve ok =>
    obtain rfl : ok = true := hok
    simp only [step] at hs
    split at hs
    · rename_i request requests hrequests
      cases hs
      cases request with
      | spawn p =>
        simp only [served, if_true]
        exact inv_served_spawn h hrequests
      | kill i agentId =>
        obtain ⟨call, hcall, -⟩ := Option.map_eq_some_iff.mp
          ((h.kill_queued i agentId).mp (hrequests ▸ List.mem_cons_self))
        simp only [served, hcall, if_true]
        exact inv_served_kill h hrequests hcall
    · cases hs
  | answer p =>
    simp only [step] at hs
    split at hs
    · rename_i hp
      cases hs
      exact inv_answer h hp
    · cases hs
  | settle p =>
    simp only [step] at hs
    split at hs
    · rename_i hp
      cases hs
      exact inv_settle h hp
    · cases hs
  | resume i => exact inv_resume h hs

theorem releasedGone_of_inv (h : Inv s) : ReleasedGone s := by
  intro hfinished hlast a ha
  have hnone : ∀ i phase, phaseAt s.calls i = some phase → phase.finished = true := by
    intro i phase hi
    obtain ⟨call, hcall, rfl⟩ := Option.map_eq_some_iff.mp hi
    exact hfinished call (List.mem_of_getElem? hcall)
  rcases h.alive a ha with hagents | ⟨i, hi⟩ | ⟨i, p, spawn, hi, -, -⟩
  · cases hcalls : s.calls.getLast? with
    | none =>
      rw [hcalls] at hlast
      cases hlast
    | some call =>
      rw [hcalls] at hlast
      rw [List.getLast?_eq_getElem?] at hcalls
      rw [(h.released call.phase (phaseAt_of_some hcalls) hlast).1] at hagents
      cases hagents
  · cases hnone i _ hi
  · cases hnone i _ hi

theorem sound_of_inv (h : Inv s) : Sound s := by
  refine ⟨fun a b ha hb => h.held_unique (h.alive a ha) (h.alive b hb), ?_, releasedGone_of_inv h⟩
  intro i j call call' a b hi hj hmem ha hb
  have hagree := h.overlaps j call' hj i hmem (.acquired a) (ha ▸ phaseAt_of_some hi)
  rw [hb] at hagree
  exact hagree

/-- While the calls come in order, at most one agent is alive, overlapping acquires get the same one,
and nothing is alive after a last release. -/
theorem sound_of_inOrder (h : run step init acts = some s) (hok : RunOk step InOrder init acts) : Sound s :=
  sound_of_inv (run_inv Inv (fun _ _ _ => inv_step) inv_init hok h)

/-- An agent is acquired and released twice; the second acquire comes while the kill is under way, and
another one joins it. -/
def orderlyRun : List Act :=
  [.acquire, .greeted 0 true, .serve true, .answer 0, .settle 0, .resume 0, .release, .acquire, .acquire, .greeted 1 true,
    .serve true, .serve true, .answer 1, .settle 1, .resume 2, .resume 3, .resume 1, .resume 1, .release, .serve true,
    .resume 4, .resume 4]

theorem sound_of_inOrder_orderly : ∃ s, run step init orderlyRun = some s ∧ s.gateway = [false, false] ∧ Sound s :=
  ⟨_, rfl, rfl, @sound_of_inOrder _ orderlyRun rfl (by decide)⟩

/-- A release that comes while the agent is being spawned finds nothing in the cache. -/
def earlyReleaseRun : List Act := [.acquire, .release, .greeted 0 true, .serve true, .answer 0, .settle 0, .resume 0]

theorem early_release_leaks : ¬ ∀ (acts : List Act) (s : State), run step init acts = some s →
    (∀ a ∈ acts, Succeeds a) → Sound s := by
  intro hall
  obtain ⟨-, -, hgone⟩ := hall earlyReleaseRun _ rfl (by decide)
  exact hgone (by decide) (by decide) 0 (by decide)

/-- An acquire between the callback of `finally` and the caching: two agents are alive at once. -/
example : ∃ s, run step init [.acquire, .greeted 0 true, .serve true, .answer 0, .settle 0, .acquire, .greeted 1 true,
    .serve true] = some s ∧ s.gateway = [true, true] :=
  ⟨_, rfl, rfl⟩

end Nexal.GatewayAgents
