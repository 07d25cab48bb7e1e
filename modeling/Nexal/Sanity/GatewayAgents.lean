import Nexal.Lib.Lists
import Nexal.Spec.GatewayAgents

/-! The state of a session key while its agents are acquired and released in order: at most one spawn
is under way, and an agent that is alive is cached, on its way to the cache or being killed. -/

namespace Nexal.GatewayAgents

open Runs

def phaseAt (calls : List Call) (i : ℕ) : Option Phase := (calls[i]?).map (·.phase)

theorem phaseAt_concat (calls : List Call) (call : Call) (i : ℕ) :
    phaseAt (calls ++ [call]) i = if i = calls.length then some call.phase else phaseAt calls i := by
  rw [phaseAt, Lists.getElem?_concat]
  split_ifs
  · rfl
  · rfl

theorem phaseAt_concat_cases {calls : List Call} {i : ℕ} {phase : Phase} {call : Call}
    (h : phaseAt (calls ++ [call]) i = some phase) :
    phaseAt calls i = some phase ∨ (i = calls.length ∧ call.phase = phase) := by
  rw [phaseAt_concat] at h
  split_ifs at h with hi
  · exact Or.inr ⟨hi, Option.some.inj h⟩
  · exact Or.inl h

theorem phaseAt_set {calls : List Call} {i : ℕ} {call : Call} (h : calls[i]? = some call) (phase : Phase) (j : ℕ) :
    phaseAt (calls.set i { call with phase := phase }) j = if j = i then some phase else phaseAt calls j := by
  rw [phaseAt, Lists.getElem?_set_of_some h]
  split_ifs
  · rfl
  · rfl

theorem phaseAt_of_some {calls : List Call} {i : ℕ} {call : Call} (h : calls[i]? = some call) :
    phaseAt calls i = some call.phase := by
  rw [phaseAt, h]
  rfl

@[grind →] theorem phaseAt_lt {calls : List Call} {i : ℕ} {phase : Phase} (h : phaseAt calls i = some phase) :
    i < calls.length := by
  obtain ⟨call, hcall, -⟩ := Option.map_eq_some_iff.mp h
  exact (List.getElem?_eq_some_iff.mp hcall).1

theorem phaseAt_concat_old {calls : List Call} {i : ℕ} {phase : Phase} (h : phaseAt calls i = some phase) (call : Call) :
    phaseAt (calls ++ [call]) i = some phase := by
  rw [phaseAt_concat, if_neg (Nat.ne_of_lt (phaseAt_lt h))]
  exact h

theorem phaseAt_set_cases {calls : List Call} {i j : ℕ} {call : Call} {phase phase' : Phase}
    (hcall : calls[i]? = some call)
    (h : phaseAt (calls.set i { call with phase := phase }) j = some phase') :
    (j ≠ i ∧ phaseAt calls j = some phase') ∨ (j = i ∧ phase = phase') := by
  rw [phaseAt_set hcall] at h
  split_ifs at h with hj
  · exact Or.inr ⟨hj, Option.some.inj h⟩
  · exact Or.inl ⟨hj, h⟩

theorem phaseAt_set_old {calls : List Call} {i j : ℕ} {call : Call} {phase phase' : Phase} (hcall : calls[i]? = some call)
    (h : phaseAt calls j = some phase') (hne : call.phase ≠ phase') :
    phaseAt (calls.set i { call with phase := phase }) j = some phase' := by
  rw [phaseAt_set hcall, if_neg ?_]
  · exact h
  · rintro rfl
    rw [phaseAt_of_some hcall] at h
    exact hne (Option.some.inj h)

theorem mem_acquiring {s : State} {i : ℕ} :
    i ∈ s.acquiring ↔ ∃ p own, phaseAt s.calls i = some (.awaiting p own) := by
  rw [State.acquiring, List.mem_filter, List.mem_range]
  constructor
  · rintro ⟨hlt, hacq⟩
    have hcall := List.getElem?_eq_getElem hlt
    rw [hcall, Option.any_some] at hacq
    cases hphase : s.calls[i].phase with
    | awaiting p own => exact ⟨p, own, by rw [phaseAt_of_some hcall, hphase]⟩
    | _ =>
      rw [hphase] at hacq
      cases hacq
  · rintro ⟨p, own, h⟩
    obtain ⟨call, hcall, hphase⟩ := Option.map_eq_some_iff.mp h
    refine ⟨phaseAt_lt h, ?_⟩
    rw [hcall, Option.any_some, hphase]
    rfl

def Spawn.agentId : Spawn → Option ℕ
  | .answered agentId | .returned agentId | .settled agentId => agentId
  | .greeting | .queued => none

def Spawn.isSettled : Spawn → Bool
  | .settled _ => true
  | _ => false

def Spawn.succeeds : Spawn → Bool
  | .answered agentId | .returned agentId | .settled agentId => agentId.isSome
  | .greeting | .queued => true

/-- What two calls of `acquireAgent` return, or will return, is the same. -/
def Agree (spawns : List Spawn) : Phase → Phase → Prop
  | .awaiting p _, .awaiting q _ => p = q
  | .awaiting p _, .acquired b => spawns[p]? = some (.settled (some b))
  | .acquired a, .awaiting q _ => spawns[q]? = some (.settled (some a))
  | .acquired a, .acquired b => a = b
  | _, _ => True

/-- Something that a live agent hangs on. -/
def Held (s : State) (a : ℕ) : Prop :=
  s.agents = some a ∨ (∃ i, phaseAt s.calls i = some (.killing a)) ∨
    ∃ i p spawn, phaseAt s.calls i = some (.awaiting p true) ∧ s.spawns[p]? = some spawn ∧ spawn.agentId = some a

/-- The gateway's queue: a kill, a spawn, or a spawn after a kill. -/
inductive Queue : List Request → Prop where
  | empty : Queue []
  | kill (i a : ℕ) : Queue [.kill i a]
  | spawn (p : ℕ) : Queue [.spawn p]
  | both (i a p : ℕ) : Queue [.kill i a, .spawn p]

structure Inv (s : State) : Prop where
  awaits_last : ∀ i p own, phaseAt s.calls i = some (.awaiting p own) → p + 1 = s.spawns.length
  owner_unique : ∀ i j p q, phaseAt s.calls i = some (.awaiting p true) →
    phaseAt s.calls j = some (.awaiting q true) → i = j
  owner_empty : ∀ i p, phaseAt s.calls i = some (.awaiting p true) → s.agents = none
  joined : ∀ i p own a, phaseAt s.calls i = some (.awaiting p own) → s.agents = some a →
    s.spawns[p]? = some (.settled (some a))
  inflight : ∀ p, s.agentInflight = some p →
    (∃ i, phaseAt s.calls i = some (.awaiting p true)) ∧ ∀ r, s.spawns[p]? ≠ some (.settled r)
  unsettled : ∀ (p : ℕ) (spawn : Spawn), s.spawns[p]? = some spawn → spawn.isSettled = false →
    s.agentInflight = some p
  succeeds : ∀ (p : ℕ) (spawn : Spawn), s.spawns[p]? = some spawn → spawn.succeeds = true
  queue : Queue s.requests
  kill_queued : ∀ i a, Request.kill i a ∈ s.requests ↔ phaseAt s.calls i = some (.killing a)
  spawn_queued : ∀ p, Request.spawn p ∈ s.requests ↔ s.spawns[p]? = some .queued
  killing : ∀ i a, phaseAt s.calls i = some (.killing a) → s.agents = none ∧
    ∀ j p spawn, phaseAt s.calls j = some (.awaiting p true) → s.spawns[p]? = some spawn → spawn.agentId = none
  alive : ∀ a : ℕ, s.gateway[a]? = some true → Held s a
  concurrent_lt : ∀ (j : ℕ) (call : Call), s.calls[j]? = some call → ∀ i ∈ call.concurrent, i < j
  overlaps : ∀ (j : ℕ) (call : Call), s.calls[j]? = some call → ∀ i ∈ call.concurrent, ∀ phase,
    phaseAt s.calls i = some phase → Agree s.spawns phase call.phase
  released : ∀ phase, phaseAt s.calls (s.calls.length - 1) = some phase → phase.isRelease = true →
    s.agents = none ∧ ∀ i p, phaseAt s.calls i ≠ some (.awaiting p true)

variable {s s' : State}

/-- A spawn is under way only while its owner waits for it. -/
theorem Inv.spawn_owner {p : ℕ} {spawn : Spawn} (h : Inv s) (hp : s.spawns[p]? = some spawn)
    (hspawn : spawn.isSettled = false) : ∃ i, phaseAt s.calls i = some (.awaiting p true) :=
  (h.inflight p (h.unsettled p spawn hp hspawn)).1

theorem Inv.kill_unique {i j a b : ℕ} (h : Inv s) (hi : phaseAt s.calls i = some (.killing a))
    (hj : phaseAt s.calls j = some (.killing b)) : i = j ∧ a = b := by
  have hi := (h.kill_queued i a).mpr hi
  have hj := (h.kill_queued j b).mpr hj
  cases hq : s.requests with
  | nil => simp [hq] at hi
  | cons r rest =>
    have hqueue := h.queue
    rw [hq] at hqueue hi hj
    cases hqueue with
    | kill i' a' =>
      simp only [List.mem_singleton, Request.kill.injEq] at hi hj
      exact ⟨hi.1.trans hj.1.symm, hi.2.trans hj.2.symm⟩
    | spawn p => simp at hi
    | both i' a' p =>
      simp only [List.mem_cons, Request.kill.injEq, List.not_mem_nil, or_false, reduceCtorEq] at hi hj
      exact ⟨hi.1.trans hj.1.symm, hi.2.trans hj.2.symm⟩

/-- At most one agent is held. -/
theorem Inv.held_unique {a b : ℕ} (h : Inv s) (ha : Held s a) (hb : Held s b) : a = b := by
  rcases ha with ha | ⟨i, ha⟩ | ⟨i, p, spawn, hi, hp, ha⟩
  · rcases hb with hb | ⟨j, hb⟩ | ⟨j, q, spawn', hj, -, -⟩
    · exact Option.some.inj (ha.symm.trans hb)
    · rw [(h.killing j b hb).1] at ha
      cases ha
    · rw [h.owner_empty j q hj] at ha
      cases ha
  · rcases hb with hb | ⟨j, hb⟩ | ⟨j, q, spawn', hj, hq, hb⟩
    · rw [(h.killing i a ha).1] at hb
      cases hb
    · exact (h.kill_unique ha hb).2
    · rw [(h.killing i a ha).2 j q spawn' hj hq] at hb
      cases hb
  · rcases hb with hb | ⟨j, hb⟩ | ⟨j, q, spawn', hj, hq, hb⟩
    · rw [h.owner_empty i p hi] at hb
      cases hb
    · rw [(h.killing j b hb).2 i p spawn hi hp] at ha
      cases ha
    · obtain rfl := h.owner_unique i j p q hi hj
      rw [hi] at hj
      cases hj
      rw [hp] at hq
      cases hq
      exact Option.some.inj (ha.symm.trans hb)

/-- The calls change, but no call becomes or ceases to be an owner or a kill. -/
theorem inv_calls {calls : List Call} (h : Inv s)
    (hawaits : ∀ i p own, phaseAt calls i = some (.awaiting p own) → phaseAt s.calls i = some (.awaiting p own) ∨
      own = false ∧ p + 1 = s.spawns.length ∧ ∀ a, s.agents = some a → s.spawns[p]? = some (.settled (some a)))
    (howns : ∀ i p, phaseAt s.calls i = some (.awaiting p true) → phaseAt calls i = some (.awaiting p true))
    (hkills : ∀ i a, phaseAt calls i = some (.killing a) ↔ phaseAt s.calls i = some (.killing a))
    (hlt : ∀ (j : ℕ) (c : Call), calls[j]? = some c → ∀ i ∈ c.concurrent, i < j)
    (hoverlaps : ∀ (j : ℕ) (c : Call), calls[j]? = some c → ∀ i ∈ c.concurrent, ∀ phase,
      phaseAt calls i = some phase → Agree s.spawns phase c.phase)
    (hreleased : ∀ phase, phaseAt calls (calls.length - 1) = some phase → phase.isRelease = true →
      s.agents = none ∧ ∀ i p, phaseAt s.calls i ≠ some (.awaiting p true)) :
    Inv { s with calls := calls } := by
  have howner : ∀ i p, phaseAt calls i = some (.awaiting p true) → phaseAt s.calls i = some (.awaiting p true) :=
    fun i p hi => (hawaits i p true hi).resolve_right fun hnew => by cases hnew.1
  constructor
  case awaits_last =>
    intro i p own hi
    rcases hawaits i p own hi with hold | ⟨-, hlast, -⟩
    · exact h.awaits_last i p own hold
    · exact hlast
  case owner_unique => exact fun i j p q hi hj => h.owner_unique i j p q (howner i p hi) (howner j q hj)
  case owner_empty => exact fun i p hi => h.owner_empty i p (howner i p hi)
  case joined =>
    intro i p own a hi ha
    rcases hawaits i p own hi with hold | ⟨-, -, hjoined⟩
    · exact h.joined i p own a hold ha
    · exact hjoined a ha
  case inflight =>
    intro p hp
    obtain ⟨⟨i, hi⟩, hsettled⟩ := h.inflight p hp
    exact ⟨⟨i, howns i p hi⟩, hsettled⟩
  case unsettled => exact h.unsettled
  case succeeds => exact h.succeeds
  case queue => exact h.queue
  case kill_queued => exact fun i a => (h.kill_queued i a).trans (hkills i a).symm
  case spawn_queued => exact h.spawn_queued
  case killing =>
    intro i a hi
    obtain ⟨hagents, hnone⟩ := h.killing i a ((hkills i a).mp hi)
    exact ⟨hagents, fun j p spawn hj => hnone j p spawn (howner j p hj)⟩
  case alive =>
    intro a ha
    rcases h.alive a ha with hagents | ⟨i, hi⟩ | ⟨i, p, spawn, hi, hp, hagent⟩
    · exact Or.inl hagents
    · exact Or.inr (Or.inl ⟨i, (hkills i a).mpr hi⟩)
    · exact Or.inr (Or.inr ⟨i, p, spawn, howns i p hi, hp, hagent⟩)
  case concurrent_lt => exact hlt
  case overlaps => exact hoverlaps
  case released =>
    intro phase hphase hrelease
    obtain ⟨hagents, hnone⟩ := hreleased phase hphase hrelease
    exact ⟨hagents, fun i p hi => hnone i p (howner i p hi)⟩

/-! What a call adds when it is issued -/

theorem concurrent_lt_concat {call : Call} (h : Inv s) (hconcurrent : ∀ i ∈ call.concurrent, i ∈ s.acquiring) :
    ∀ (j : ℕ) (c : Call), (s.calls ++ [call])[j]? = some c → ∀ i ∈ c.concurrent, i < j := by
  intro j c hj i hi
  rw [Lists.getElem?_concat] at hj
  split_ifs at hj with hlast
  · cases hj
    obtain ⟨p, own, hphase⟩ := mem_acquiring.mp (hconcurrent i hi)
    exact hlast ▸ phaseAt_lt hphase
  · exact h.concurrent_lt j c hj i hi

/-- The new call overlaps only with calls that agree with it. -/
theorem overlaps_concat {call : Call} {spawns : List Spawn} (h : Inv s)
    (hconcurrent : ∀ i ∈ call.concurrent, i ∈ s.acquiring)
    (hspawns : ∀ x y, Agree s.spawns x y → Agree spawns x y)
    (hagree : ∀ i p own, i ∈ call.concurrent → phaseAt s.calls i = some (.awaiting p own) →
      Agree spawns (.awaiting p own) call.phase) :
    ∀ (j : ℕ) (c : Call), (s.calls ++ [call])[j]? = some c → ∀ i ∈ c.concurrent, ∀ phase,
      phaseAt (s.calls ++ [call]) i = some phase → Agree spawns phase c.phase := by
  intro j c hj i hi phase hphase
  have hij := concurrent_lt_concat h hconcurrent j c hj i hi
  have hlt : j < s.calls.length + 1 := by
    have := (List.getElem?_eq_some_iff.mp hj).1
    rwa [List.length_append, List.length_singleton] at this
  rw [phaseAt_concat, if_neg (by omega)] at hphase
  rw [Lists.getElem?_concat] at hj
  split_ifs at hj with hlast
  · cases hj
    obtain ⟨p, own, hawait⟩ := mem_acquiring.mp (hconcurrent i hi)
    rw [hawait] at hphase
    cases hphase
    exact hagree i p own hi hawait
  · exact hspawns _ _ (h.overlaps j c hj i hi phase hphase)

/-- A call that neither owns a spawn nor kills. -/
theorem inv_concat {call : Call} (h : Inv s) (hconcurrent : ∀ i ∈ call.concurrent, i ∈ s.acquiring)
    (hkilling : ∀ a, call.phase ≠ .killing a)
    (hawaiting : ∀ p own, call.phase = .awaiting p own → own = false ∧ p + 1 = s.spawns.length ∧
      ∀ a, s.agents = some a → s.spawns[p]? = some (.settled (some a)))
    (hagree : ∀ i p own, i ∈ call.concurrent → phaseAt s.calls i = some (.awaiting p own) →
      Agree s.spawns (.awaiting p own) call.phase)
    (hrelease : call.phase.isRelease = true → s.agents = none ∧ ∀ i p, phaseAt s.calls i ≠ some (.awaiting p true)) :
    Inv { s with calls := s.calls ++ [call] } := by
  refine inv_calls h (fun i p own hi => ?_) (fun i p hi => phaseAt_concat_old hi call)
    (fun i a => ⟨fun hi => ?_, fun hi => phaseAt_concat_old hi call⟩) (concurrent_lt_concat h hconcurrent)
    (overlaps_concat h hconcurrent (fun _ _ => id) hagree) fun phase hphase hrel => ?_
  · rcases phaseAt_concat_cases hi with hold | ⟨-, hnew⟩
    · exact Or.inl hold
    · exact Or.inr (hawaiting p own hnew)
  · rcases phaseAt_concat_cases hi with hold | ⟨-, hnew⟩
    · exact hold
    · exact absurd hnew (hkilling a)
  · rw [List.length_append, List.length_singleton, Nat.add_sub_cancel, phaseAt_concat, if_pos rfl] at hphase
    cases hphase
    exact hrelease hrel

theorem inv_acquire_cached {a : ℕ} (h : Inv s) (hagents : s.agents = some a) :
    Inv { s with calls := s.calls ++ [⟨.acquired a, s.acquiring⟩] } := by
  refine inv_concat h (fun i hi => hi) (by simp) (by simp) (fun i p own _ hi => h.joined i p own a hi hagents) ?_
  exact fun hrelease => by cases hrelease

theorem inv_acquire_join {p : ℕ} (h : Inv s) (hagents : s.agents = none) (hinflight : s.agentInflight = some p) :
    Inv { s with calls := s.calls ++ [⟨.awaiting p false, s.acquiring⟩] } := by
  obtain ⟨⟨k, howner⟩, -⟩ := h.inflight p hinflight
  have hlast := h.awaits_last k p true howner
  refine inv_concat h (fun i hi => hi) (by simp) (fun q own hq => ?_) (fun i q own _ hi => ?_) (fun hrelease => by
    cases hrelease)
  · cases hq
    exact ⟨rfl, hlast, fun a ha => by cases hagents.symm.trans ha⟩
  · have := h.awaits_last i q own hi
    show q = p
    omega

theorem agree_concat {spawns : List Spawn} (spawn : Spawn) {x y : Phase} (h : Agree spawns x y) :
    Agree (spawns ++ [spawn]) x y := by
  have hold : ∀ (p r : ℕ), spawns[p]? = some (Spawn.settled (some r)) →
      (spawns ++ [spawn])[p]? = some (Spawn.settled (some r)) := by
    intro p r hp
    exact Lists.getElem?_append_of_some hp _
  cases x <;> cases y <;> simp only [Agree] at h ⊢
  all_goals grind

theorem inv_acquire_new (h : Inv s) (hagents : s.agents = none) (hinflight : s.agentInflight = none)
    (hacquiring : s.acquiring = []) :
    Inv { s with
      spawns := s.spawns ++ [.greeting]
      agentInflight := some s.spawns.length
      calls := s.calls ++ [⟨.awaiting s.spawns.length true, s.acquiring⟩] } := by
  have hat := fun i => phaseAt_concat s.calls ⟨.awaiting s.spawns.length true, s.acquiring⟩ i
  have hspawn := fun i => Lists.getElem?_concat s.spawns Spawn.greeting i
  have hnone : ∀ i p own, phaseAt s.calls i ≠ some (.awaiting p own) := by
    intro i p own hi
    have := mem_acquiring.mpr ⟨p, own, hi⟩
    rw [hacquiring] at this
    cases this
  have hnew := hat s.calls.length
  rw [if_pos rfl] at hnew
  constructor
  case concurrent_lt => exact concurrent_lt_concat h fun i hi => hi
  case overlaps =>
    refine overlaps_concat h (fun i hi => hi) (fun x y => agree_concat .greeting) fun i q own hmem => ?_
    rw [hacquiring] at hmem
    cases hmem
  all_goals grind [Inv, Held, Phase.isRelease, Spawn.isSettled, Spawn.succeeds, Spawn.agentId]

theorem inv_release_none (h : Inv s) (hagents : s.agents = none)
    (howner : ∀ i p, phaseAt s.calls i ≠ some (.awaiting p true)) :
    Inv { s with calls := s.calls ++ [⟨.released, []⟩] } :=
  inv_concat h (by simp) (by simp) (by simp) (by simp) fun _ => ⟨hagents, howner⟩

theorem inv_release_some {a : ℕ} (h : Inv s) (hagents : s.agents = some a)
    (howner : ∀ i p, phaseAt s.calls i ≠ some (.awaiting p true)) :
    Inv { s with
      agents := none
      calls := s.calls ++ [⟨.killing a, []⟩]
      requests := s.requests ++ [.kill s.calls.length a] } := by
  have hat := fun i => phaseAt_concat s.calls ⟨.killing a, []⟩ i
  have hrequests : s.requests = [] := by
    cases hq : s.requests with
    | nil => rfl
    | cons r rest =>
      have hr : r ∈ s.requests := hq ▸ List.mem_cons_self
      cases r with
      | spawn p =>
        obtain ⟨i, hi⟩ := h.spawn_owner ((h.spawn_queued p).mp hr) rfl
        exact absurd hi (howner i p)
      | kill i b =>
        rw [(h.killing i b ((h.kill_queued i b).mp hr)).1] at hagents
        cases hagents
  have hkill := h.kill_queued
  have hspawn := h.spawn_queued
  simp only [hrequests, List.nil_append, List.not_mem_nil, false_iff] at hkill hspawn ⊢
  constructor
  case concurrent_lt => exact concurrent_lt_concat h (by simp)
  case queue => exact .kill _ a
  case overlaps => exact overlaps_concat h (by simp) (fun x y => id) (by simp)
  all_goals grind [Inv, Held, Phase.isRelease]

/-! What the steps of the calls and of the gateway add -/

theorem agree_set {spawns : List Spawn} {p : ℕ} {spawn : Spawn} (hp : spawns[p]? = some spawn)
    (hsettled : spawn.isSettled = false) (spawn' : Spawn) {x y : Phase} (h : Agree spawns x y) :
    Agree (spawns.set p spawn') x y := by
  have hset := Lists.getElem?_set_of_some hp spawn'
  cases x <;> cases y <;> simp only [Agree] at h ⊢
  all_goals grind [Spawn.isSettled]

/-- A spawn under way goes on. -/
theorem overlaps_set {p : ℕ} {spawn : Spawn} (h : Inv s) (hp : s.spawns[p]? = some spawn)
    (hsettled : spawn.isSettled = false) (spawn' : Spawn) :
    ∀ (j : ℕ) (call : Call), s.calls[j]? = some call → ∀ i ∈ call.concurrent, ∀ phase,
      phaseAt s.calls i = some phase → Agree (s.spawns.set p spawn') phase call.phase :=
  fun j call hj i hi phase hphase => agree_set hp hsettled spawn' (h.overlaps j call hj i hi phase hphase)

/-- A spawn under way goes on, with the agent it has. -/
theorem inv_spawn {p : ℕ} {spawn spawn' : Spawn} {requests : List Request} {agentInflight : Option ℕ} (h : Inv s)
    (hp : s.spawns[p]? = some spawn) (hunsettled : spawn.isSettled = false) (hagent : spawn'.agentId = spawn.agentId)
    (hsucceeds : spawn'.succeeds = true)
    (hinflight : agentInflight = if spawn'.isSettled then none else s.agentInflight) (hqueue : Queue requests)
    (hkills : ∀ i a, Request.kill i a ∈ requests ↔ Request.kill i a ∈ s.requests)
    (hspawns : ∀ q, Request.spawn q ∈ requests ↔ (s.spawns.set p spawn')[q]? = some .queued) :
    Inv { s with spawns := s.spawns.set p spawn', requests := requests, agentInflight := agentInflight } := by
  have hown : s.agentInflight = some p := h.unsettled p spawn hp hunsettled
  have hset := Lists.getElem?_set_of_some hp spawn'
  constructor
  case awaits_last =>
    intro i q own hi
    rw [List.length_set]
    exact h.awaits_last i q own hi
  case owner_unique => exact h.owner_unique
  case owner_empty => exact h.owner_empty
  case joined =>
    intro i q own a hi ha
    have hsettled := h.joined i q own a hi ha
    have hne : q ≠ p := by
      rintro rfl
      cases hp.symm.trans hsettled
      cases hunsettled
    rw [hset, if_neg hne]
    exact hsettled
  case inflight =>
    intro q hq
    dsimp only at hq
    rw [hinflight] at hq
    split_ifs at hq with hdone
    obtain ⟨howner, hold⟩ := h.inflight q hq
    refine ⟨howner, fun r hr => ?_⟩
    rw [hset] at hr
    split_ifs at hr
    · cases hr
      exact hdone rfl
    · exact hold r hr
  case unsettled =>
    intro q spawn'' hq hunsettled'
    dsimp only at hq ⊢
    rw [hset] at hq
    split_ifs at hq with heq
    · cases hq
      rw [hinflight, hunsettled', if_neg Bool.false_ne_true, heq]
      exact hown
    · exact absurd (Option.some.inj ((h.unsettled q spawn'' hq hunsettled').symm.trans hown)) heq
  case succeeds =>
    intro q spawn'' hq
    dsimp only at hq
    rw [hset] at hq
    split_ifs at hq
    · cases hq
      exact hsucceeds
    · exact h.succeeds q spawn'' hq
  case queue => exact hqueue
  case kill_queued => exact fun i a => (hkills i a).trans (h.kill_queued i a)
  case spawn_queued => exact hspawns
  case killing =>
    intro i a hi
    obtain ⟨hagents, hnone⟩ := h.killing i a hi
    refine ⟨hagents, fun j q spawn'' hj hq => ?_⟩
    dsimp only at hq
    rw [hset] at hq
    split_ifs at hq with heq
    · cases hq
      exact hagent.trans (hnone j p spawn (heq ▸ hj) hp)
    · exact hnone j q spawn'' hj hq
  case alive =>
    intro a ha
    rcases h.alive a ha with hagents | hkilling | ⟨i, q, spawn'', hi, hq, hid⟩
    · exact Or.inl hagents
    · exact Or.inr (Or.inl hkilling)
    · by_cases heq : q = p
      · subst heq
        cases hp.symm.trans hq
        exact Or.inr (Or.inr ⟨i, q, spawn', hi, by dsimp only; rw [hset, if_pos rfl], hagent.trans hid⟩)
      · exact Or.inr (Or.inr ⟨i, q, spawn'', hi, by dsimp only; rw [hset, if_neg heq]; exact hq, hid⟩)
  case concurrent_lt => exact h.concurrent_lt
  case overlaps => exact overlaps_set h hp hunsettled spawn'
  case released => exact h.released

/-- No request to spawn is on its way before the spawn makes one. -/
theorem inv_greeted {p : ℕ} (h : Inv s) (hp : s.spawns[p]? = some .greeting) :
    Inv { s with spawns := s.spawns.set p .queued, requests := s.requests ++ [.spawn p] } := by
  have hinflight := h.unsettled p _ hp rfl
  have hnone : ∀ q, Request.spawn q ∉ s.requests := by
    intro q hq
    have hqueued := (h.spawn_queued q).mp hq
    have hqp := h.unsettled q _ hqueued rfl
    rw [hinflight] at hqp
    cases hqp
    rw [hp] at hqueued
    cases hqueued
  have hqueue : Queue (s.requests ++ [.spawn p]) := by
    have hold := h.queue
    generalize s.requests = requests at hold hnone
    cases hold with
    | empty => exact .spawn p
    | kill i a => exact .both i a p
    | spawn q => exact absurd List.mem_cons_self (hnone q)
    | both i a q => exact absurd (List.mem_cons_of_mem _ List.mem_cons_self) (hnone q)
  refine inv_spawn h hp rfl rfl rfl rfl hqueue (fun i a => by simp) fun q => ?_
  rw [Lists.getElem?_set_of_some hp]
  split_ifs with heq
  · simp [heq]
  · simp [heq, h.spawn_queued]

theorem inv_served_spawn {p : ℕ} {requests : List Request} (h : Inv s) (hrequests : s.requests = .spawn p :: requests) :
    Inv { s with
      requests := requests
      gateway := s.gateway ++ [true]
      spawns := s.spawns.set p (.answered (some s.gateway.length)) } := by
  have hp := (h.spawn_queued p).mp (hrequests ▸ List.mem_cons_self)
  have hset := Lists.getElem?_set_of_some hp (.answered (some s.gateway.length))
  have hgateway := fun a => Lists.getElem?_concat s.gateway true a
  have hinflight := h.unsettled p _ hp rfl
  obtain ⟨k, howner⟩ := h.spawn_owner hp rfl
  have hlast := h.awaits_last
  have hqueue := h.queue
  rw [hrequests] at hqueue
  obtain rfl : requests = [] := by
    cases hqueue
    rfl
  have hkill : ∀ i a, phaseAt s.calls i ≠ some (.killing a) := by
    intro i a hi
    have hmem := (h.kill_queued i a).mpr hi
    rw [hrequests] at hmem
    cases hmem with
    | tail _ hmem => cases hmem
  -- nothing else holds an agent: the owner has none yet, and no kill is on its way
  have hnone : ∀ a, ¬ Held s a := by
    rintro a (ha | ⟨i, hi⟩ | ⟨i, q, spawn, hi, hq, ha⟩)
    · rw [h.owner_empty k p howner] at ha
      cases ha
    · exact hkill i a hi
    · have hiq := h.awaits_last i q true hi
      have hkp := h.awaits_last k p true howner
      obtain rfl : q = p := by omega
      rw [hp] at hq
      cases hq
      cases ha
  constructor
  case queue => exact .empty
  case overlaps => exact overlaps_set h hp rfl _
  all_goals grind [Inv, Held, Spawn.isSettled, Spawn.succeeds, Spawn.agentId]

theorem concurrent_lt_set {i : ℕ} {call : Call} (phase : Phase) (h : Inv s) (hcall : s.calls[i]? = some call) :
    ∀ (j : ℕ) (c : Call), (s.calls.set i { call with phase := phase })[j]? = some c →
      ∀ k ∈ c.concurrent, k < j := by
  intro j c hj k hk
  rcases Lists.getElem?_set_cases hj with ⟨rfl, rfl⟩ | ⟨-, hj⟩
  · exact h.concurrent_lt j call hcall k hk
  · exact h.concurrent_lt j c hj k hk

/-- A call goes on to a phase that agrees with what the old one agreed with. -/
theorem overlaps_phase {i : ℕ} {call : Call} {phase : Phase} (h : Inv s) (hcall : s.calls[i]? = some call)
    (hleft : ∀ x, Agree s.spawns call.phase x → Agree s.spawns phase x)
    (hright : ∀ x, Agree s.spawns x call.phase → Agree s.spawns x phase) :
    ∀ (j : ℕ) (c : Call), (s.calls.set i { call with phase := phase })[j]? = some c → ∀ k ∈ c.concurrent, ∀ x,
      phaseAt (s.calls.set i { call with phase := phase }) k = some x → Agree s.spawns x c.phase := by
  intro j c hj k hk x hx
  have hlt := concurrent_lt_set phase h hcall j c hj k hk
  rcases Lists.getElem?_set_cases hj with ⟨rfl, rfl⟩ | ⟨-, hold⟩
  · rcases phaseAt_set_cases hcall hx with ⟨-, hx⟩ | ⟨rfl, -⟩
    · exact hright x (h.overlaps j call hcall k hk x hx)
    · exact absurd hlt (Nat.lt_irrefl k)
  · rcases phaseAt_set_cases hcall hx with ⟨-, hx⟩ | ⟨rfl, rfl⟩
    · exact h.overlaps j c hold k hk x hx
    · exact hleft c.phase (h.overlaps j c hold k hk call.phase (phaseAt_of_some hcall))

/-- A call that holds nothing goes on. -/
theorem inv_phase {i : ℕ} {call : Call} {phase : Phase} (h : Inv s) (hcall : s.calls[i]? = some call)
    (hkilling : ∀ a, call.phase ≠ .killing a) (howner : ∀ p, call.phase ≠ .awaiting p true)
    (hkilling' : ∀ a, phase ≠ .killing a) (hawaiting : ∀ p own, phase ≠ .awaiting p own)
    (hrelease : phase.isRelease = call.phase.isRelease)
    (hoverlaps : ∀ (j : ℕ) (c : Call), (s.calls.set i { call with phase := phase })[j]? = some c →
      ∀ k ∈ c.concurrent, ∀ x,
      phaseAt (s.calls.set i { call with phase := phase }) k = some x → Agree s.spawns x c.phase) :
    Inv { s with calls := s.calls.set i { call with phase := phase } } := by
  have hawaits : ∀ j p own, phaseAt (s.calls.set i { call with phase := phase }) j = some (.awaiting p own) →
      phaseAt s.calls j = some (.awaiting p own) := by
    intro j p own hj
    rcases phaseAt_set_cases hcall hj with ⟨-, hj⟩ | ⟨-, hp⟩
    · exact hj
    · exact absurd hp (hawaiting p own)
  have howns : ∀ j p, phaseAt s.calls j = some (.awaiting p true) →
      phaseAt (s.calls.set i { call with phase := phase }) j = some (.awaiting p true) :=
    fun j p hj => phaseAt_set_old hcall hj (howner p)
  have hkills : ∀ j a, phaseAt (s.calls.set i { call with phase := phase }) j = some (.killing a) ↔
      phaseAt s.calls j = some (.killing a) := by
    refine fun j a => ⟨fun hj => ?_, fun hj => phaseAt_set_old hcall hj (hkilling a)⟩
    rcases phaseAt_set_cases hcall hj with ⟨-, hj⟩ | ⟨-, hp⟩
    · exact hj
    · exact absurd hp (hkilling' a)
  refine inv_calls h (fun j p own hj => Or.inl (hawaits j p own hj)) howns hkills (concurrent_lt_set phase h hcall) hoverlaps
    fun x hx hrel => ?_
  rw [List.length_set] at hx
  rcases phaseAt_set_cases hcall hx with ⟨-, hx⟩ | ⟨hi, rfl⟩
  · exact h.released x hx hrel
  · exact h.released call.phase (hi ▸ phaseAt_of_some hcall) (hrelease ▸ hrel)

/-- A call of `releaseAgent` goes on. -/
theorem inv_releasing {i : ℕ} {call : Call} {phase : Phase} (h : Inv s) (hcall : s.calls[i]? = some call)
    (hphase : call.phase = .killed ∧ phase = .closing ∨ call.phase = .closing ∧ phase = .released) :
    Inv { s with calls := s.calls.set i { call with phase := phase } } := by
  have hright : ∀ x, Agree s.spawns x .closing ∧ Agree s.spawns x .released :=
    fun x => by cases x <;> exact ⟨trivial, trivial⟩
  rcases hphase with ⟨hold, rfl⟩ | ⟨hold, rfl⟩
  · refine inv_phase h hcall (by simp [hold]) (by simp [hold]) (by simp) (by simp) (by rw [hold]; rfl) ?_
    exact overlaps_phase h hcall (fun x _ => trivial) fun x _ => (hright x).1
  · refine inv_phase h hcall (by simp [hold]) (by simp [hold]) (by simp) (by simp) (by rw [hold]; rfl) ?_
    exact overlaps_phase h hcall (fun x _ => trivial) fun x _ => (hright x).2

theorem inv_served_kill {i a : ℕ} {call : Call} {requests : List Request} (h : Inv s)
    (hrequests : s.requests = .kill i a :: requests) (hcall : s.calls[i]? = some call) :
    Inv { s with
      requests := requests
      gateway := s.gateway.set a false
      calls := s.calls.set i { call with phase := .killed } } := by
  have hi := (h.kill_queued i a).mp (hrequests ▸ List.mem_cons_self)
  have hphase : call.phase = .killing a := by
    rw [phaseAt_of_some hcall] at hi
    exact Option.some.inj hi
  have hat := phaseAt_set hcall .killed
  have hunique := fun j b => h.kill_unique (j := j) (b := b) hi
  have hnone := (h.killing i a hi).1
  have hqueue := h.queue
  have hrest : requests = [] ∨ ∃ p, requests = [.spawn p] := by
    rw [hrequests] at hqueue
    cases hqueue with
    | kill _ _ => exact Or.inl rfl
    | both _ _ p => exact Or.inr ⟨p, rfl⟩
  constructor
  case overlaps =>
    refine overlaps_phase h hcall (fun x _ => trivial) fun x _ => ?_
    cases x <;> trivial
  case concurrent_lt => exact concurrent_lt_set .killed h hcall
  case queue =>
    rcases hrest with rfl | ⟨p, rfl⟩
    · exact .empty
    · exact .spawn p
  case alive =>
    intro b hb
    rcases Lists.getElem?_set_cases hb with ⟨-, hb⟩ | ⟨hne, hb⟩
    · cases hb
    · exact absurd (h.held_unique (h.alive b hb) (Or.inr (Or.inl ⟨i, hi⟩))) hne
  case kill_queued =>
    intro j b
    refine iff_of_false ?_ fun hj => ?_
    · rcases hrest with rfl | ⟨p, rfl⟩
      · simp
      · simp
    · rcases phaseAt_set_cases hcall hj with ⟨hne, hj⟩ | ⟨-, hj⟩
      · exact hne (hunique j b hj).1.symm
      · cases hj
  all_goals grind [Inv, Phase.isRelease]

theorem overlaps_acquired {i p a : ℕ} {own : Bool} {call : Call} (h : Inv s) (hcall : s.calls[i]? = some call)
    (hphase : call.phase = .awaiting p own) (hp : s.spawns[p]? = some (.settled (some a))) :
    ∀ (j : ℕ) (c : Call), (s.calls.set i { call with phase := .acquired a })[j]? = some c →
      ∀ k ∈ c.concurrent, ∀ x,
      phaseAt (s.calls.set i { call with phase := .acquired a }) k = some x → Agree s.spawns x c.phase := by
  have hsettled : ∀ b, s.spawns[p]? = some (.settled (some b)) → a = b := by
    intro b hb
    rw [hp] at hb
    cases hb
    rfl
  refine overlaps_phase h hcall (fun x hx => ?_) fun x hx => ?_
  · rw [hphase] at hx
    cases x with
    | awaiting q _ =>
      obtain rfl : p = q := hx
      exact hp
    | acquired b => exact hsettled b hx
    | _ => trivial
  · rw [hphase] at hx
    cases x with
    | awaiting q _ =>
      obtain rfl : q = p := hx
      exact hp
    | acquired b => exact (hsettled b hx).symm
    | _ => trivial

/-- A call of `acquireAgent` that has joined another one's spawn returns. -/
theorem inv_joined {i p a : ℕ} {call : Call} (h : Inv s) (hcall : s.calls[i]? = some call)
    (hphase : call.phase = .awaiting p false) (hp : s.spawns[p]? = some (.settled (some a))) :
    Inv { s with calls := s.calls.set i { call with phase := .acquired a } } :=
  inv_phase h hcall (by simp [hphase]) (by simp [hphase]) (by simp) (by simp) (by rw [hphase]; rfl)
    (overlaps_acquired h hcall hphase hp)

/-- The owner of the spawn caches its agent. -/
theorem inv_cached {i p a : ℕ} {call : Call} (h : Inv s) (hcall : s.calls[i]? = some call)
    (hphase : call.phase = .awaiting p true) (hp : s.spawns[p]? = some (.settled (some a))) :
    Inv { s with agents := some a, calls := s.calls.set i { call with phase := .acquired a } } := by
  have hat := phaseAt_set hcall (.acquired a)
  have hi := phaseAt_of_some hcall
  rw [hphase] at hi
  have hlast := h.awaits_last i p true hi
  have hkill : ∀ j b, phaseAt s.calls j ≠ some (.killing b) := by
    intro j b hj
    have := (h.killing j b hj).2 i p _ hi hp
    cases this
  constructor
  case overlaps => exact overlaps_acquired h hcall hphase hp
  case concurrent_lt => exact concurrent_lt_set (.acquired a) h hcall
  case alive =>
    intro b hb
    have hown : Held s a := Or.inr (Or.inr ⟨i, p, _, hi, hp, rfl⟩)
    exact Or.inl (congrArg some (h.held_unique hown (h.alive b hb)))
  case released =>
    intro phase hlastPhase hrelease
    rw [List.length_set] at hlastPhase
    rcases phaseAt_set_cases hcall hlastPhase with ⟨-, hold⟩ | ⟨-, rfl⟩
    · exact absurd hi ((h.released phase hold hrelease).2 i p)
    · cases hrelease
  all_goals grind [Inv]

/-- An answer that comes in, or settles the promise, leaves the requests as they are. -/
theorem queued_set {p : ℕ} {spawn spawn' : Spawn} (h : Inv s) (hp : s.spawns[p]? = some spawn) (hold : spawn ≠ .queued)
    (hnew : spawn' ≠ .queued) (q : ℕ) : Request.spawn q ∈ s.requests ↔
      (s.spawns.set p spawn')[q]? = some .queued := by
  rw [h.spawn_queued, Lists.getElem?_set_of_some hp]
  split_ifs with heq
  · rw [heq, hp]
    exact iff_of_false (fun hq => hold (Option.some.inj hq)) fun hq => hnew (Option.some.inj hq)
  · exact Iff.rfl

theorem inv_answer {p : ℕ} {agentId : Option ℕ} (h : Inv s) (hp : s.spawns[p]? = some (.answered agentId)) :
    Inv { s with spawns := s.spawns.set p (.returned agentId) } := by
  have hsucceeds : (Spawn.answered agentId).succeeds = true := h.succeeds p _ hp
  exact inv_spawn h hp rfl rfl hsucceeds rfl h.queue (fun _ _ => Iff.rfl) (queued_set h hp nofun nofun)

theorem inv_settle {p : ℕ} {agentId : Option ℕ} (h : Inv s) (hp : s.spawns[p]? = some (.returned agentId)) :
    Inv { s with spawns := s.spawns.set p (.settled agentId), agentInflight := none } := by
  have hsucceeds : (Spawn.returned agentId).succeeds = true := h.succeeds p _ hp
  exact inv_spawn h hp rfl rfl hsucceeds rfl h.queue (fun _ _ => Iff.rfl) (queued_set h hp nofun nofun)

end Nexal.GatewayAgents
