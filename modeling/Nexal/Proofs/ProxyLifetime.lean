import Nexal.Sanity.AgentRegistry

/-! Proxies and the agents they belong to. `kill` cleans both registries, `detach` neither; and a
registration looks for the agent first and enters its proxy later, when the agent may be gone. -/

namespace Nexal.Gateway

open Runs

/-- Every HTTP proxy entry and every running listener belongs to an agent that is present. -/
def ProxiesOwned (s : GatewayState) : Prop :=
  (∀ token entry, s.registry.proxies.byToken.lookup token = some entry → s.registry.Present entry.agentId) ∧
    ∀ (i : ℕ) (l : Listener), s.registry.tcpProxies.listeners[i]? = some l → l.stopped = false →
      s.registry.Present l.agentId

def Request.isDone : Request → Bool
  | .done _ => true
  | .doing _ _ _ => false

/-- The agent is there, or a kill that has taken it out has still to clean up. -/
def Serving (s : GatewayState) (cleans : Request → Prop) (agentId : String) : Prop :=
  s.registry.Present agentId ∨ ∃ r ∈ s.requests, cleans r

/-- What a step of a request must wait for. An agent is detached when it has no TCP proxy, and no HTTP
proxy but those that a request in flight may still take back; an agent accepts a proxy, and a listener
is entered, only while the agent is there or being killed. -/
def TimelyOp (s : GatewayState) (o : Op) (stage : Stage) (next : o.Answer → Dispatch) (input : Input) : Prop :=
  match o, stage, input with
  | .detach agentId, .entering, _ =>
    ∀ name, (s.registry.proxies.index.lookup (agentId, name) ≠ none →
        ∃ r ∈ s.requests, r.program.retracts (agentId, name)) ∧
      s.registry.tcpProxies.inner.lookup (agentId, name) = none
  | .invoke agent method params, _, .answered (.ok value) =>
    ∀ key, (Dispatch.op (.invoke agent method params) next).retracts key →
      (next (.ok value)).retracts key ∨ Serving s (Request.cleansProxies key.1) key.1 ∨
        s.registry.proxies.index.lookup key = none
  | .registerStreamProxy agentId _ _, .listening _ _, _ => Serving s (Request.cleansTcpProxies agentId) agentId
  | _, _, _ => True

def Timely (s : GatewayState) : GatewayAct → Prop
  | .go i input => ∀ o stage next, s.requests[i]? = some (.doing o stage next) → TimelyOp s o stage next input
  | _ => True

variable {codec : Codec} {base : String} {s s' : GatewayState} {acts : List GatewayAct} {g : AgentRegistry}
  {old new : Request} {i : ℕ}

/-! A step of a request -/

/-- What it takes of a step that turns the request and the registries to keep the invariant. -/
structure Move (s : GatewayState) (g : AgentRegistry) (old new : Request) : Prop where
  consistent : g.proxies.Consistent
  proxies : ∀ key token, g.proxies.index.lookup key = some token →
    g.Present key.1 ∨ new.covers key ∨ ∃ r ∈ s.requests, r.covers key ∧ (r = old → new.covers key)
  tcpProxies : ∀ key entry, g.tcpProxies.inner.lookup key = some entry →
    g.Present key.1 ∨ new.cleansTcpProxies key.1 ∨
      ∃ r ∈ s.requests, r.cleansTcpProxies key.1 ∧ (r = old → new.cleansTcpProxies key.1)
  listeners : ∀ (i : ℕ) (l : Listener), g.tcpProxies.listeners[i]? = some l → l.stopped = false →
    g.tcpProxies.Owned i l ∨ new.enters i l ∨ ∃ r ∈ s.requests, r.enters i l ∧ (r = old → new.enters i l)
  kept : s.registry.tcpProxies.Keeps g.tcpProxies
  listening : ∀ (agentId name upstreamAddr listenAddr : String) (i : ℕ) next,
    new = .doing (.registerStreamProxy agentId name upstreamAddr) (.listening listenAddr i) next →
      ∃ l, g.tcpProxies.listeners[i]? = some l ∧ l.agentId = agentId ∧ l.name = name
  disciplined : new.program.disciplined

theorem handed {P : Request → Prop} {q : Prop} (hex : ∃ r ∈ s.requests, P r) (h : P old → q) :
    ∃ r ∈ s.requests, P r ∧ (r = old → q) := by
  obtain ⟨r, hr, hP⟩ := hex
  exact ⟨r, hr, hP, fun heq => h (heq ▸ hP)⟩

theorem Move.inv (m : Move s g old new) (h : RegistryInv s) (hi : s.requests[i]? = some old) :
    RegistryInv ⟨g, s.requests.set i new⟩ where
  consistent := m.consistent
  proxies := by
    intro key token hlookup
    rcases m.proxies key token hlookup with hpresent | hnew | hex
    · exact Or.inl hpresent
    · exact Or.inr ⟨new, List.mem_set (List.getElem?_eq_some_iff.mp hi).1 new, hnew⟩
    · exact Or.inr (Lists.exists_mem_set hi hex)
  tcpProxies := by
    intro key entry hlookup
    rcases m.tcpProxies key entry hlookup with hpresent | hnew | hex
    · exact Or.inl hpresent
    · exact Or.inr ⟨new, List.mem_set (List.getElem?_eq_some_iff.mp hi).1 new, hnew⟩
    · exact Or.inr (Lists.exists_mem_set hi hex)
  listeners := by
    intro j l hl hrun
    rcases m.listeners j l hl hrun with howned | hnew | hex
    · exact Or.inl howned
    · exact Or.inr ⟨new, List.mem_set (List.getElem?_eq_some_iff.mp hi).1 new, hnew⟩
    · exact Or.inr (Lists.exists_mem_set hi hex)
  listening := by
    intro agentId name upstreamAddr listenAddr j next hmem
    rcases List.mem_or_eq_of_mem_set hmem with hold | hnew
    · obtain ⟨l, hl, hagent, hname⟩ := h.listening agentId name upstreamAddr listenAddr j next hold
      obtain ⟨l', hl', hagent', hname'⟩ := m.kept j l hl
      exact ⟨l', hl', hagent'.trans hagent, hname'.trans hname⟩
    · exact m.listening agentId name upstreamAddr listenAddr j next hnew.symm
  disciplined := by
    intro r hr
    rcases List.mem_or_eq_of_mem_set hr with hold | rfl
    · exact h.disciplined r hold
    · exact m.disciplined

/-! The parts of a move that change nothing -/

theorem proxies_same (h : RegistryInv s) (hproxies : g.proxies = s.registry.proxies)
    (hpresent : ∀ agentId, s.registry.Present agentId → g.Present agentId)
    (hcovers : ∀ key, old.covers key → new.covers key) :
    ∀ key token, g.proxies.index.lookup key = some token →
      g.Present key.1 ∨ new.covers key ∨ ∃ r ∈ s.requests, r.covers key ∧ (r = old → new.covers key) := by
  intro key token hlookup
  rw [hproxies] at hlookup
  rcases h.proxies key token hlookup with hp | hex
  · exact Or.inl (hpresent key.1 hp)
  · exact Or.inr (Or.inr (handed hex (hcovers key)))

theorem tcpProxies_same (h : RegistryInv s) (htcp : g.tcpProxies = s.registry.tcpProxies)
    (hpresent : ∀ agentId, s.registry.Present agentId → g.Present agentId)
    (hcleans : ∀ agentId, old.cleansTcpProxies agentId → new.cleansTcpProxies agentId) :
    ∀ key entry, g.tcpProxies.inner.lookup key = some entry →
      g.Present key.1 ∨ new.cleansTcpProxies key.1 ∨
        ∃ r ∈ s.requests, r.cleansTcpProxies key.1 ∧ (r = old → new.cleansTcpProxies key.1) := by
  intro key entry hlookup
  rw [htcp] at hlookup
  rcases h.tcpProxies key entry hlookup with hp | hex
  · exact Or.inl (hpresent key.1 hp)
  · exact Or.inr (Or.inr (handed hex (hcleans key.1)))

theorem listeners_same (h : RegistryInv s) (htcp : g.tcpProxies = s.registry.tcpProxies)
    (henters : ∀ i l, ¬ old.enters i l) :
    ∀ (i : ℕ) (l : Listener), g.tcpProxies.listeners[i]? = some l → l.stopped = false →
      g.tcpProxies.Owned i l ∨ new.enters i l ∨ ∃ r ∈ s.requests, r.enters i l ∧ (r = old → new.enters i l) := by
  intro j l hl hrun
  rw [htcp] at hl ⊢
  rcases h.listeners j l hl hrun with howned | hex
  · exact Or.inl howned
  · exact Or.inr (Or.inr (handed hex fun hold => absurd hold (henters j l)))

theorem start_ne_listening (d : Dispatch) (o : Op) (listenAddr : String) (j : ℕ) (next : o.Answer → Dispatch) :
    Request.start d ≠ .doing o (.listening listenAddr j) next := by
  cases d with
  | ret result => simp [Request.start]
  | op o' next' =>
    rw [Request.start]
    intro h
    cases h

theorem present_insert {entry : AgentEntry} {agentId : String} (h : g.Present agentId) :
    AgentRegistry.Present { g with inner := g.inner.insert entry.agentId entry } agentId := by
  rw [AgentRegistry.Present] at h ⊢
  by_cases heq : agentId = entry.agentId
  · rw [heq, AList.lookup_insert, Option.isSome_some]
  · rw [AList.lookup_insert_ne heq]
    exact h

theorem present_erase {agentId agentId' : String} (h : g.Present agentId') (hne : agentId' ≠ agentId) :
    AgentRegistry.Present { g with inner := g.inner.erase agentId } agentId' := by
  rw [AgentRegistry.Present] at h ⊢
  rw [AList.lookup_erase_ne hne]
  exact h

/-- An operation that leaves the proxies alone answers. -/
theorem move_answered {o : Op} {stage : Stage} {next : o.Answer → Dispatch} (answer : o.Answer) (h : RegistryInv s)
    (hi : s.requests[i]? = some (.doing o stage next)) (hproxies : g.proxies = s.registry.proxies)
    (htcp : g.tcpProxies = s.registry.tcpProxies) (hpresent : ∀ agentId, s.registry.Present agentId → g.Present agentId)
    (hcovers : ∀ key, ¬ (Request.doing o stage next).covers key)
    (hcleans : ∀ agentId, ¬ (Request.doing o stage next).cleansTcpProxies agentId)
    (henters : ∀ i l, ¬ (Request.doing o stage next).enters i l) :
    Move s g (.doing o stage next) (.start (next answer)) where
  consistent := hproxies ▸ h.consistent
  proxies := proxies_same h hproxies hpresent fun key hold => absurd hold (hcovers key)
  tcpProxies := tcpProxies_same h htcp hpresent fun agentId hold => absurd hold (hcleans agentId)
  listeners := listeners_same h htcp henters
  kept := htcp ▸ TcpProxyRegistry.keeps_refl _
  listening := fun _ _ _ listenAddr j next' heq => absurd heq (start_ne_listening _ _ listenAddr j next')
  disciplined := by
    rw [program_start]
    exact (h.disciplined _ (List.mem_of_getElem? hi)).2 answer

/-! `kill` -/

section Kill
variable {agentId : String} {next : Except RegistryError Unit → Dispatch} {entry : Option AgentEntry}

theorem kill_not_covers {stage : Stage} (hstage : ∀ entry, stage ≠ .cleaningProxies entry) (key : String × String) :
    ¬ (Request.doing (.kill agentId) stage next).covers key := by
  cases stage with
  | cleaningProxies entry => exact absurd rfl (hstage entry)
  | _ => simp [Request.covers, Request.cleansProxies, Request.program, Dispatch.retracts]

theorem move_kill_entering (h : RegistryInv s) (hi : s.requests[i]? = some (.doing (.kill agentId) .entering next)) :
    Move s { s.registry with inner := s.registry.inner.erase agentId } (.doing (.kill agentId) .entering next)
      (.doing (.kill agentId) (.cleaningProxies entry) next) where
  consistent := h.consistent
  proxies := by
    intro key token hlookup
    by_cases hkey : key.1 = agentId
    · exact Or.inr (Or.inl (Or.inl (hkey ▸ rfl)))
    · rcases h.proxies key token hlookup with hp | hex
      · exact Or.inl (present_erase hp hkey)
      · exact Or.inr (Or.inr (handed hex fun hold => absurd hold (kill_not_covers (by simp) key)))
  tcpProxies := by
    intro key e hlookup
    by_cases hkey : key.1 = agentId
    · exact Or.inr (Or.inl (hkey ▸ rfl))
    · rcases h.tcpProxies key e hlookup with hp | hex
      · exact Or.inl (present_erase hp hkey)
      · exact Or.inr (Or.inr (handed hex fun hold => hold.elim))
  listeners := listeners_same h rfl fun _ _ hold => hold
  kept := TcpProxyRegistry.keeps_refl _
  listening := by
    intro _ _ _ _ _ _ heq
    cases heq
  disciplined := h.disciplined (.doing (.kill agentId) .entering next) (List.mem_of_getElem? hi)

theorem move_kill_proxies (h : RegistryInv s)
    (hi : s.requests[i]? = some (.doing (.kill agentId) (.cleaningProxies entry) next)) :
    Move s { s.registry with proxies := s.registry.proxies.cleanupForAgent agentId }
      (.doing (.kill agentId) (.cleaningProxies entry) next)
      (.doing (.kill agentId) (.cleaningTcpProxies entry) next) where
  consistent := (ProxyRegistry.cleanup_spec agentId h.consistent).1
  proxies := by
    intro key token hlookup
    rw [(ProxyRegistry.cleanup_spec agentId h.consistent).2] at hlookup
    split_ifs at hlookup with hkey
    rcases h.proxies key token hlookup with hp | hex
    · exact Or.inl hp
    · refine Or.inr (Or.inr (handed hex fun hold => ?_))
      simp only [Request.covers, Request.cleansProxies, Request.program, Dispatch.retracts, or_false, Op.kill.injEq] at hold
      exact absurd hold.symm hkey
  tcpProxies := tcpProxies_same h rfl (fun _ hp => hp) fun _ hold => hold
  listeners := listeners_same h rfl fun _ _ hold => hold
  kept := TcpProxyRegistry.keeps_refl _
  listening := by
    intro _ _ _ _ _ _ heq
    cases heq
  disciplined := h.disciplined (.doing (.kill agentId) (.cleaningProxies entry) next) (List.mem_of_getElem? hi)

theorem move_kill_tcpProxies (h : RegistryInv s)
    (hi : s.requests[i]? = some (.doing (.kill agentId) (.cleaningTcpProxies entry) next)) :
    Move s { s.registry with tcpProxies := s.registry.tcpProxies.cleanupForAgent agentId }
      (.doing (.kill agentId) (.cleaningTcpProxies entry) next) (.doing (.kill agentId) (.closing entry) next) where
  consistent := h.consistent
  proxies := proxies_same h rfl (fun _ hp => hp) fun key hold => absurd hold (kill_not_covers (by simp) key)
  tcpProxies := by
    intro key e hlookup
    rw [(TcpProxyRegistry.cleanup_spec agentId s.registry.tcpProxies).1] at hlookup
    split_ifs at hlookup with hkey
    rcases h.tcpProxies key e hlookup with hp | hex
    · exact Or.inl hp
    · refine Or.inr (Or.inr (handed hex fun hold => ?_))
      simp only [Request.cleansTcpProxies, Op.kill.injEq] at hold
      exact absurd hold.symm hkey
  listeners := by
    intro j l hl hrun
    obtain ⟨hold, howned⟩ := (TcpProxyRegistry.cleanup_spec agentId s.registry.tcpProxies).2 j l hl hrun
    rcases h.listeners j l hold hrun with hown | hex
    · exact Or.inl (howned hown)
    · exact Or.inr (Or.inr (handed hex fun hold => hold.elim))
  kept := TcpProxyRegistry.keeps_cleanup _ agentId
  listening := by
    intro _ _ _ _ _ _ heq
    cases heq
  disciplined := h.disciplined (.doing (.kill agentId) (.cleaningTcpProxies entry) next) (List.mem_of_getElem? hi)

end Kill

/-! `detach` -/

theorem detach_not_covers {agentId : String} {stage : Stage} {next : Except RegistryError Unit → Dispatch}
    (key : String × String) : ¬ (Request.doing (.detach agentId) stage next).covers key := by
  cases stage <;> simp [Request.covers, Request.cleansProxies, Request.program, Dispatch.retracts]

theorem move_detach {agentId : String} {next : Except RegistryError Unit → Dispatch} {entry : Option AgentEntry}
    (h : RegistryInv s) (hi : s.requests[i]? = some (.doing (.detach agentId) .entering next))
    (htimely : TimelyOp s (.detach agentId) .entering next .proceed) :
    Move s { s.registry with inner := s.registry.inner.erase agentId } (.doing (.detach agentId) .entering next)
      (.doing (.detach agentId) (.closing entry) next) where
  consistent := h.consistent
  proxies := by
    intro key token hlookup
    by_cases hkey : key.1 = agentId
    · -- a request in flight may still take it back
      have hkey' : key = (agentId, key.2) := hkey ▸ rfl
      rw [hkey'] at hlookup
      obtain ⟨r, hr, hretracts⟩ := (htimely key.2).1 (by rw [hlookup]; simp)
      exact Or.inr (Or.inr (handed ⟨r, hr, Or.inr (hkey' ▸ hretracts)⟩ fun hold =>
        absurd hold (detach_not_covers key)))
    · rcases h.proxies key token hlookup with hp | hex
      · exact Or.inl (present_erase hp hkey)
      · exact Or.inr (Or.inr (handed hex fun hold => absurd hold (detach_not_covers key)))
  tcpProxies := by
    intro key e hlookup
    by_cases hkey : key.1 = agentId
    · have hkey' : key = (agentId, key.2) := hkey ▸ rfl
      rw [hkey', (htimely key.2).2] at hlookup
      cases hlookup
    · rcases h.tcpProxies key e hlookup with hp | hex
      · exact Or.inl (present_erase hp hkey)
      · exact Or.inr (Or.inr (handed hex fun hold => hold.elim))
  listeners := listeners_same h rfl fun _ _ hold => hold
  kept := TcpProxyRegistry.keeps_refl _
  listening := by
    intro _ _ _ _ _ _ heq
    cases heq
  disciplined := h.disciplined (.doing (.detach agentId) .entering next) (List.mem_of_getElem? hi)

/-! `register_proxy` and `unregister_proxy` -/

/-- An operation other than `kill` and `register_stream_proxy` has no stage that matters. -/
def Op.plain : Op → Bool
  | .kill _ | .registerStreamProxy _ _ _ => false
  | _ => true

theorem plain_facts {o : Op} {stage : Stage} {next : o.Answer → Dispatch} (ho : o.plain = true) :
    (∀ agentId, ¬ (Request.doing o stage next).cleansProxies agentId) ∧
      (∀ agentId, ¬ (Request.doing o stage next).cleansTcpProxies agentId) ∧
      ∀ i l, ¬ (Request.doing o stage next).enters i l := by
  refine ⟨fun agentId h => ?_, fun agentId h => ?_, fun j l h => ?_⟩
  · cases stage with
    | cleaningProxies entry =>
      obtain rfl : o = .kill agentId := h
      cases ho
    | _ => exact h
  · cases stage with
    | cleaningProxies entry =>
      obtain rfl : o = .kill agentId := h
      cases ho
    | cleaningTcpProxies entry =>
      obtain rfl : o = .kill agentId := h
      cases ho
    | _ => exact h
  · cases stage with
    | listening listenAddr listener =>
      obtain ⟨-, upstreamAddr, rfl⟩ := h
      cases ho
    | _ => exact h

/-- An operation on the HTTP proxies, or on the agent's connection, answers. -/
theorem move_plain {o : Op} {stage : Stage} {next : o.Answer → Dispatch} {answer : o.Answer} (ho : o.plain = true)
    (h : RegistryInv s) (hi : s.requests[i]? = some (.doing o stage next)) (htcp : g.tcpProxies = s.registry.tcpProxies)
    (hpresent : ∀ agentId, s.registry.Present agentId → g.Present agentId) (hconsistent : g.proxies.Consistent)
    (hproxies : ∀ key token, g.proxies.index.lookup key = some token → g.Present key.1 ∨ (next answer).retracts key ∨
      ∃ r ∈ s.requests, r.covers key ∧ (r = .doing o stage next → (next answer).retracts key)) :
    Move s g (.doing o stage next) (.start (next answer)) where
  consistent := hconsistent
  proxies := by
    intro key token hlookup
    have hcovers : (next answer).retracts key → (Request.start (next answer)).covers key :=
      fun hretracts => Or.inr (by rw [program_start]; exact hretracts)
    rcases hproxies key token hlookup with hp | hretracts | ⟨r, hr, hr', hkeeps⟩
    · exact Or.inl hp
    · exact Or.inr (Or.inl (hcovers hretracts))
    · exact Or.inr (Or.inr ⟨r, hr, hr', fun heq => hcovers (hkeeps heq)⟩)
  tcpProxies := tcpProxies_same h htcp hpresent fun agentId hold => absurd hold ((plain_facts ho).2.1 agentId)
  listeners := listeners_same h htcp (plain_facts ho).2.2
  kept := htcp ▸ TcpProxyRegistry.keeps_refl _
  listening := fun _ _ _ listenAddr j next' heq => absurd heq (start_ne_listening _ _ listenAddr j next')
  disciplined := by
    rw [program_start]
    exact (h.disciplined _ (List.mem_of_getElem? hi)).2 answer

/-- The entry is there, and the request goes on to ask the agent. -/
theorem move_registerProxy {agentId name upstreamUrl token : String} {headers : List (String × String)} {stage : Stage}
    {next : String → Dispatch} (h : RegistryInv s)
    (hi : s.requests[i]? = some (.doing (.registerProxy agentId name upstreamUrl headers) stage next)) :
    Move s { s.registry with proxies := s.registry.proxies.register agentId name upstreamUrl headers token }
      (.doing (.registerProxy agentId name upstreamUrl headers) stage next) (.start (next token)) := by
  have hfollowed := (h.disciplined _ (List.mem_of_getElem? hi)).1
  refine move_plain rfl h hi rfl (fun _ hp => hp)
    (ProxyRegistry.consistent_register h.consistent agentId name upstreamUrl headers token) ?_
  intro key token' hlookup
  rw [ProxyRegistry.index_register] at hlookup
  split_ifs at hlookup with hkey
  · exact Or.inr (Or.inl (hkey ▸ hfollowed token))
  · rcases h.proxies key token' hlookup with hp | hex
    · exact Or.inl hp
    · refine Or.inr (Or.inr (handed hex fun hold => ?_))
      exact hold.elim (fun hold => absurd hold ((plain_facts rfl).1 key.1)) fun hold => hold.elim

/-- The agent has answered. -/
theorem move_invoke {agent : AgentEntry} {method : String} {params : Option Wire.Value} {stage : Stage}
    {next : Except Link.AgentConnError Wire.Value → Dispatch} {answer : Except Link.AgentConnError Wire.Value}
    (h : RegistryInv s) (hi : s.requests[i]? = some (.doing (.invoke agent method params) stage next))
    (htimely : TimelyOp s (.invoke agent method params) stage next (.answered answer)) :
    Move s s.registry (.doing (.invoke agent method params) stage next) (.start (next answer)) := by
  have hnot : ∀ agentId, ¬ (Request.doing (.invoke agent method params) stage next).cleansProxies agentId :=
    (plain_facts rfl).1
  refine move_plain rfl h hi rfl (fun _ hp => hp) h.consistent fun key token hlookup => ?_
  by_cases hretracts : (Dispatch.op (.invoke agent method params) next).retracts key
  · cases answer with
    | error err =>
      obtain ⟨after, hafter⟩ := hretracts err
      refine Or.inr (Or.inl ?_)
      rw [hafter]
      rfl
    | ok value =>
      rcases htimely key hretracts with hstill | (hp | ⟨r, hr, hcleans⟩) | hnone
      · exact Or.inr (Or.inl hstill)
      · exact Or.inl hp
      · exact Or.inr (Or.inr ⟨r, hr, Or.inl hcleans, fun heq => absurd (heq ▸ hcleans) (hnot key.1)⟩)
      · rw [hnone] at hlookup
        cases hlookup
  · rcases h.proxies key token hlookup with hp | hex
    · exact Or.inl hp
    · refine Or.inr (Or.inr (handed hex fun hold => ?_))
      exact hold.elim (fun hold => absurd hold (hnot key.1)) fun hold => absurd hold hretracts

theorem move_unregisterProxy {agentId name : String} {stage : Stage} {next : Bool → Dispatch} {answer : Bool}
    (h : RegistryInv s) (hi : s.requests[i]? = some (.doing (.unregisterProxy agentId name) stage next)) :
    Move s { s.registry with proxies := s.registry.proxies.remove (agentId, name) }
      (.doing (.unregisterProxy agentId name) stage next) (.start (next answer)) := by
  refine move_plain rfl h hi rfl (fun _ hp => hp) (ProxyRegistry.consistent_remove h.consistent (agentId, name)) ?_
  intro key token hlookup
  rw [ProxyRegistry.index_remove] at hlookup
  split_ifs at hlookup with hkey
  rcases h.proxies key token hlookup with hp | hex
  · exact Or.inl hp
  · refine Or.inr (Or.inr (handed hex fun hold => ?_))
    exact hold.elim (fun hold => absurd hold ((plain_facts rfl).1 key.1)) fun hold => absurd hold.symm hkey

/-! `register_stream_proxy` and `unregister_stream_proxy` -/

section Stream
variable {agentId name upstreamAddr listenAddr : String} {listener : ℕ}

theorem stream_not_covers {stage : Stage} {next : Except String String → Dispatch} (key : String × String) :
    ¬ (Request.doing (.registerStreamProxy agentId name upstreamAddr) stage next).covers key := by
  cases stage <;> simp [Request.covers, Request.cleansProxies, Request.program, Dispatch.retracts]

theorem stream_not_cleans {stage : Stage} {next : Except String String → Dispatch} (agentId' : String) :
    ¬ (Request.doing (.registerStreamProxy agentId name upstreamAddr) stage next).cleansTcpProxies agentId' := by
  cases stage <;> simp [Request.cleansTcpProxies]

/-- The listener runs, and the request is about to enter it. -/
theorem move_listen {next : Except String String → Dispatch} (h : RegistryInv s)
    (hi : s.requests[i]? = some (.doing (.registerStreamProxy agentId name upstreamAddr) .entering next)) :
    Move s { s.registry with tcpProxies := s.registry.tcpProxies.listen agentId name upstreamAddr }
      (.doing (.registerStreamProxy agentId name upstreamAddr) .entering next)
      (.doing (.registerStreamProxy agentId name upstreamAddr)
        (.listening listenAddr s.registry.tcpProxies.listeners.length) next) where
  consistent := h.consistent
  proxies := proxies_same h rfl (fun _ hp => hp) fun key hold => absurd hold (stream_not_covers key)
  tcpProxies := by
    intro key entry hlookup
    rcases h.tcpProxies key entry hlookup with hp | hex
    · exact Or.inl hp
    · exact Or.inr (Or.inr (handed hex fun hold => absurd hold (stream_not_cleans key.1)))
  listeners := by
    intro j l hl hrun
    simp only [TcpProxyRegistry.listen] at hl
    rw [Lists.getElem?_concat] at hl
    split_ifs at hl with hj
    · cases hl
      exact Or.inr (Or.inl ⟨hj.symm, upstreamAddr, rfl⟩)
    · rcases h.listeners j l hl hrun with howned | hex
      · exact Or.inl howned
      · exact Or.inr (Or.inr (handed hex fun hold => hold.elim))
  kept := by
    intro j l hl
    refine ⟨l, ?_, rfl, rfl⟩
    rw [TcpProxyRegistry.listen]
    exact Lists.getElem?_append_of_some hl _
  listening := by
    intro a n u addr j next' heq
    cases heq
    exact ⟨_, List.getElem?_concat_length, rfl, rfl⟩
  disciplined := h.disciplined (.doing (.registerStreamProxy agentId name upstreamAddr) .entering next)
    (List.mem_of_getElem? hi)

theorem move_enter {next : Except String String → Dispatch} {answer : Except String String} (h : RegistryInv s)
    (hi : s.requests[i]? = some (.doing (.registerStreamProxy agentId name upstreamAddr)
      (.listening listenAddr listener) next))
    (hserving : Serving s (Request.cleansTcpProxies agentId) agentId) :
    Move s { s.registry with tcpProxies := s.registry.tcpProxies.enter agentId name listenAddr listener }
      (.doing (.registerStreamProxy agentId name upstreamAddr) (.listening listenAddr listener) next)
      (.start (next answer)) where
  consistent := h.consistent
  proxies := proxies_same h rfl (fun _ hp => hp) fun key hold => absurd hold (stream_not_covers key)
  tcpProxies := by
    intro key entry hlookup
    simp only [TcpProxyRegistry.enter] at hlookup
    by_cases hkey : key = (agentId, name)
    · rcases hserving with hp | hex
      · exact Or.inl (hkey ▸ hp)
      · exact Or.inr (Or.inr (hkey ▸ handed hex fun hold => absurd hold (stream_not_cleans agentId)))
    · rw [AList.lookup_insert_ne hkey, TcpProxyRegistry.inner_remove, if_neg hkey] at hlookup
      rcases h.tcpProxies key entry hlookup with hp | hex
      · exact Or.inl hp
      · exact Or.inr (Or.inr (handed hex fun hold => absurd hold (stream_not_cleans key.1)))
  listeners := by
    intro j l hl hrun
    obtain ⟨hold, howned⟩ := TcpProxyRegistry.remove_running hl hrun
    by_cases hj : j = listener
    · -- its own listener, under its own key
      obtain ⟨l', hl', hagent, hname⟩ :=
        h.listening agentId name upstreamAddr listenAddr listener next (List.mem_of_getElem? hi)
      rw [hj, hl'] at hold
      cases hold
      refine Or.inl ⟨listenAddr, ?_⟩
      rw [hagent, hname, hj]
      exact AList.lookup_insert _
    · rcases h.listeners j l hold hrun with hown | hex
      · obtain ⟨addr, hlookup⟩ := howned hown
        refine Or.inl ⟨addr, ?_⟩
        have hkey : (l.agentId, l.name) ≠ (agentId, name) := by
          intro heq
          rw [TcpProxyRegistry.inner_remove, if_pos heq] at hlookup
          cases hlookup
        exact (AList.lookup_insert_ne hkey).trans hlookup
      · exact Or.inr (Or.inr (handed hex fun hentered => absurd hentered.1.symm hj))
  kept := TcpProxyRegistry.keeps_remove s.registry.tcpProxies (agentId, name)
  listening := fun _ _ _ listenAddr j next' heq => absurd heq (start_ne_listening _ _ listenAddr j next')
  disciplined := by
    rw [program_start]
    exact (h.disciplined _ (List.mem_of_getElem? hi)).2 answer

theorem move_unregisterStreamProxy {stage : Stage} {next : Bool → Dispatch} {answer : Bool} (h : RegistryInv s)
    (hi : s.requests[i]? = some (.doing (.unregisterStreamProxy agentId name) stage next)) :
    Move s { s.registry with tcpProxies := s.registry.tcpProxies.remove (agentId, name) }
      (.doing (.unregisterStreamProxy agentId name) stage next) (.start (next answer)) where
  consistent := h.consistent
  proxies := by
    refine proxies_same h rfl (fun _ hp => hp) fun key hold => ?_
    exact hold.elim (fun hold => absurd hold ((plain_facts rfl).1 key.1)) fun hold => hold.elim
  tcpProxies := by
    intro key entry hlookup
    rw [TcpProxyRegistry.inner_remove] at hlookup
    split_ifs at hlookup
    rcases h.tcpProxies key entry hlookup with hp | hex
    · exact Or.inl hp
    · exact Or.inr (Or.inr (handed hex fun hold => absurd hold ((plain_facts rfl).2.1 key.1)))
  listeners := by
    intro j l hl hrun
    obtain ⟨hold, howned⟩ := TcpProxyRegistry.remove_running hl hrun
    rcases h.listeners j l hold hrun with hown | hex
    · exact Or.inl (howned hown)
    · exact Or.inr (Or.inr (handed hex fun hold => absurd hold ((plain_facts rfl).2.2 j l)))
  kept := TcpProxyRegistry.keeps_remove s.registry.tcpProxies (agentId, name)
  listening := fun _ _ _ listenAddr j next' heq => absurd heq (start_ne_listening _ _ listenAddr j next')
  disciplined := by
    rw [program_start]
    exact (h.disciplined _ (List.mem_of_getElem? hi)).2 answer

end Stream

/-! Runs -/

theorem registryInv_init : RegistryInv .init where
  consistent := ProxyRegistry.consistent_new
  proxies := by
    intro key token h
    cases h
  tcpProxies := by
    intro key entry h
    cases h
  listeners := by
    intro j l h
    cases h
  listening := by
    intro _ _ _ _ _ _ h
    cases h
  disciplined := by
    intro r h
    cases h

theorem registryInv_request {d : Dispatch} (h : RegistryInv s) (hd : d.disciplined) :
    RegistryInv { s with requests := s.requests ++ [.start d] } where
  consistent := h.consistent
  proxies := by
    intro key token hlookup
    rcases h.proxies key token hlookup with hp | ⟨r, hr, hcovers⟩
    · exact Or.inl hp
    · exact Or.inr ⟨r, List.mem_append_left _ hr, hcovers⟩
  tcpProxies := by
    intro key entry hlookup
    rcases h.tcpProxies key entry hlookup with hp | ⟨r, hr, hcleans⟩
    · exact Or.inl hp
    · exact Or.inr ⟨r, List.mem_append_left _ hr, hcleans⟩
  listeners := by
    intro j l hl hrun
    rcases h.listeners j l hl hrun with howned | ⟨r, hr, henters⟩
    · exact Or.inl howned
    · exact Or.inr ⟨r, List.mem_append_left _ hr, henters⟩
  listening := by
    intro agentId name upstreamAddr listenAddr j next hmem
    rcases List.mem_append.mp hmem with hold | hnew
    · exact h.listening agentId name upstreamAddr listenAddr j next hold
    · exact absurd (List.mem_singleton.mp hnew).symm (start_ne_listening d _ listenAddr j next)
  disciplined := by
    intro r hr
    rcases List.mem_append.mp hr with hold | hnew
    · exact h.disciplined r hold
    · rw [List.mem_singleton.mp hnew, program_start]
      exact hd

theorem registryInv_stop (h : RegistryInv s) (k : ℕ) :
    RegistryInv { s with registry := { s.registry with tcpProxies := s.registry.tcpProxies.stop k } } where
  consistent := h.consistent
  proxies := h.proxies
  tcpProxies := h.tcpProxies
  listeners := fun j l hl hrun => h.listeners j l (TcpProxyRegistry.stop_running hl hrun).2 hrun
  listening := by
    intro agentId name upstreamAddr listenAddr j next hmem
    obtain ⟨l, hl, hagent, hname⟩ := h.listening agentId name upstreamAddr listenAddr j next hmem
    obtain ⟨l', hl', hagent', hname'⟩ := TcpProxyRegistry.keeps_stop s.registry.tcpProxies k j l hl
    exact ⟨l', hl', hagent'.trans hagent, hname'.trans hname⟩
  disciplined := h.disciplined

/-- A kill goes on. -/
theorem move_kill {agentId : String} {stage : Stage} {next : Except RegistryError Unit → Dispatch} {input : Input}
    {r : Stage ⊕ Except RegistryError Unit} (h : RegistryInv s)
    (hi : s.requests[i]? = some (.doing (.kill agentId) stage next))
    (hs : s.registry.killStep agentId stage input = some (g, r)) :
    Move s g (.doing (.kill agentId) stage next) (@Request.after (.kill agentId) next r) := by
  dsimp only [AgentRegistry.killStep] at hs
  split at hs
  · cases hs
    exact move_kill_entering h hi
  · cases hs
    exact move_kill_proxies h hi
  · cases hs
    exact move_kill_tcpProxies h hi
  · cases hs
    exact move_answered _ h hi rfl rfl (fun _ hp => hp) (kill_not_covers (by simp)) (fun _ hold => hold) fun _ _ hold => hold
  · cases hs
    exact move_answered _ h hi rfl rfl (fun _ hp => hp) (kill_not_covers (by simp)) (fun _ hold => hold) fun _ _ hold => hold
  · cases hs

/-- A detach goes on. -/
theorem move_detaching {agentId : String} {stage : Stage} {next : Except RegistryError Unit → Dispatch} {input : Input}
    {r : Stage ⊕ Except RegistryError Unit} (h : RegistryInv s)
    (hi : s.requests[i]? = some (.doing (.detach agentId) stage next))
    (htimely : TimelyOp s (.detach agentId) stage next input)
    (hs : s.registry.detachStep agentId stage input = some (g, r)) :
    Move s g (.doing (.detach agentId) stage next) (@Request.after (.detach agentId) next r) := by
  dsimp only [AgentRegistry.detachStep] at hs
  split at hs
  · split at hs
    · cases hs
      exact move_detach h hi htimely
    · cases hs
      exact move_answered _ h hi rfl rfl (fun _ hp => hp) detach_not_covers (fun _ hold => hold) fun _ _ hold => hold
  · cases hs
    exact move_answered _ h hi rfl rfl (fun _ hp => hp) detach_not_covers (fun _ hold => hold) fun _ _ hold => hold
  · cases hs

/-- The registration of a TCP proxy goes on. -/
theorem move_registerStream {agentId name upstreamAddr : String} {stage : Stage} {next : Except String String → Dispatch}
    {input : Input} {r : Stage ⊕ Except String String} (h : RegistryInv s)
    (hi : s.requests[i]? = some (.doing (.registerStreamProxy agentId name upstreamAddr) stage next))
    (htimely : TimelyOp s (.registerStreamProxy agentId name upstreamAddr) stage next input)
    (hs : s.registry.registerStreamStep agentId name upstreamAddr stage input = some (g, r)) :
    Move s g (.doing (.registerStreamProxy agentId name upstreamAddr) stage next)
      (@Request.after (.registerStreamProxy agentId name upstreamAddr) next r) := by
  dsimp only [AgentRegistry.registerStreamStep] at hs
  split at hs
  · cases hs
    exact move_listen h hi
  · cases hs
    exact move_answered _ h hi rfl rfl (fun _ hp => hp) stream_not_covers stream_not_cleans fun _ _ hold => hold
  · cases hs
    exact move_enter h hi htimely
  · cases hs

theorem plain_not_covers {o : Op} {stage : Stage} {next : o.Answer → Dispatch} (ho : o.plain = true)
    (hretracts : ∀ key, ¬ (Dispatch.op o next).retracts key) (key : String × String) :
    ¬ (Request.doing o stage next).covers key :=
  fun hold => hold.elim (fun hold => absurd hold ((plain_facts ho).1 key.1)) fun hold => absurd hold (hretracts key)

/-- The agent of a spawn or an attach is registered, or it could not be reached. -/
theorem move_dial {o : Op} {stage : Stage} {next : o.Answer → Dispatch} {answer : o.Answer}
    (entry : Except RegistryError AgentEntry) (h : RegistryInv s) (hi : s.requests[i]? = some (.doing o stage next))
    (ho : o.plain = true) (hretracts : ∀ key, ¬ (Dispatch.op o next).retracts key) :
    Move s (s.registry.dialAndRegister entry).1 (.doing o stage next) (.start (next answer)) := by
  cases entry with
  | ok entry =>
    exact move_answered answer h hi rfl rfl (fun _ hp => present_insert hp) (plain_not_covers ho hretracts)
      (plain_facts ho).2.1 (plain_facts ho).2.2
  | error err =>
    exact move_answered answer h hi rfl rfl (fun _ hp => hp) (plain_not_covers ho hretracts) (plain_facts ho).2.1
      (plain_facts ho).2.2

/-- An operation in progress goes on: to its next stage, or it answers. -/
theorem move_op {o : Op} {stage : Stage} {next : o.Answer → Dispatch} {input : Input} {r : Stage ⊕ o.Answer}
    (h : RegistryInv s) (hi : s.requests[i]? = some (.doing o stage next)) (htimely : TimelyOp s o stage next input)
    (hs : s.registry.opStep o stage input = some (g, r)) : Move s g (.doing o stage next) (.after next r) := by
  cases o with
  | spawn name image env labels extraPorts =>
    simp only [AgentRegistry.opStep] at hs
    split at hs
    · cases hs
      exact move_dial _ h hi rfl fun _ hold => hold
    · cases hs
  | attach containerName =>
    simp only [AgentRegistry.opStep] at hs
    split at hs
    · cases hs
      exact move_dial _ h hi rfl fun _ hold => hold
    · cases hs
  | kill agentId => exact move_kill h hi hs
  | detach agentId => exact move_detaching h hi htimely hs
  | list =>
    cases hs
    exact move_answered _ h hi rfl rfl (fun _ hp => hp) (plain_not_covers rfl fun _ hold => hold) (plain_facts rfl).2.1
      (plain_facts rfl).2.2
  | get agentId =>
    cases hs
    exact move_answered _ h hi rfl rfl (fun _ hp => hp) (plain_not_covers rfl fun _ hold => hold) (plain_facts rfl).2.1
      (plain_facts rfl).2.2
  | invoke agent method params =>
    simp only [AgentRegistry.opStep] at hs
    split at hs
    · cases hs
      exact move_invoke h hi htimely
    · cases hs
  | registerProxy agentId name upstreamUrl headers =>
    simp only [AgentRegistry.opStep] at hs
    split at hs
    · cases hs
      exact move_registerProxy h hi
    · cases hs
  | unregisterProxy agentId name =>
    cases hs
    exact move_unregisterProxy h hi
  | registerStreamProxy agentId name upstreamAddr => exact move_registerStream h hi htimely hs
  | unregisterStreamProxy agentId name =>
    cases hs
    exact move_unregisterStreamProxy h hi

theorem registryInv_step {a : GatewayAct} (h : RegistryInv s) (ht : Timely s a) (hs : gatewayStep codec base s a = some s') :
    RegistryInv s' := by
  cases a with
  | request req =>
    simp only [gatewayStep] at hs
    cases hd : dispatch codec base req with
    | hello p =>
      simp only [hd] at hs
      cases hs
    | program d =>
      simp only [hd] at hs
      cases hs
      exact registryInv_request h (disciplined_dispatch hd)
  | go i input =>
    obtain ⟨req, hi, hs⟩ := Option.bind_eq_some_iff.mp hs
    cases req with
    | done result => cases hs
    | doing o stage next =>
      obtain ⟨⟨g, r⟩, hop, hs⟩ := Option.map_eq_some_iff.mp hs
      cases hs
      exact (move_op h hi (ht o stage next hi) hop).inv h hi
  | acceptFails k =>
    cases hs
    exact registryInv_stop h k

theorem proxiesOwned_of_inv (h : RegistryInv s) (hdone : ∀ r ∈ s.requests, r.isDone = true) : ProxiesOwned s := by
  have hnone : ∀ {P : Request → Prop}, (∀ result, ¬ P (.done result)) → ¬ ∃ r ∈ s.requests, P r := by
    rintro P hP ⟨r, hr, hPr⟩
    have hrdone := hdone r hr
    cases r with
    | done result => exact hP result hPr
    | doing o stage next => cases hrdone
  constructor
  · intro token entry hlookup
    rcases h.proxies _ token (h.consistent token entry hlookup) with hp | hex
    · exact hp
    · exact absurd hex (hnone fun result hc => hc.elim id id)
  · intro j l hl hrun
    rcases h.listeners j l hl hrun with ⟨listenAddr, hlookup⟩ | hex
    · rcases h.tcpProxies _ _ hlookup with hp | hex
      · exact hp
      · exact absurd hex (hnone fun result hc => hc)
    · exact absurd hex (hnone fun result hc => hc)

/-- When every step has waited for what it must wait for and every request is done, no proxy is left
without its agent. -/
theorem proxies_owned_of_timely (h : run (gatewayStep codec base) .init acts = some s)
    (ht : RunOk (gatewayStep codec base) Timely .init acts) (hdone : ∀ r ∈ s.requests, r.isDone = true) :
    ProxiesOwned s :=
  proxiesOwned_of_inv (run_inv RegistryInv (fun _ _ _ => registryInv_step) registryInv_init ht h) hdone

def fieldCodec : Codec where
  request _ := .error "missing field method"
  hello _ := .error "missing field access_key"
  spawnAgent v :=
    match Link.mapStr v "name" with
    | some name => .ok ⟨name, none, [], [], []⟩
    | none => .error "missing field name"
  agentId v :=
    match Link.mapStr v "agent_id" with
    | some agentId => .ok agentId
    | none => .error "missing field agent_id"
  containerName v :=
    match Link.mapStr v "container_name" with
    | some containerName => .ok containerName
    | none => .error "missing field container_name"
  agentInvoke _ := .error "missing field agent_id"
  registerProxy v :=
    match Link.mapStr v "agent_id", Link.mapStr v "name", Link.mapStr v "upstream_url" with
    | some agentId, some name, some upstreamUrl => .ok ⟨agentId, name, upstreamUrl, []⟩
    | _, _, _ => .error "missing field"
  unregister _ := .error "missing field agent_id"
  registerStreamProxy _ := .error "missing field agent_id"

def proxyBase : String := "http://host.containers.internal:5501"

def requestOf (method : String) (fields : List (String × String)) : JsonRpcRequest :=
  ⟨some .nil, method, some (Link.mpMap (fields.map fun f => (f.1, .string f.2)))⟩

def agentOne : AgentEntry := ⟨"one", "nexal-one", 0, []⟩

/-- An agent is spawned and accepts a proxy. -/
def acceptedRun : List GatewayAct :=
  [.request (requestOf "gateway/spawn_agent" [("name", "one")]), .go 0 (.connected (.ok agentOne)),
    .request (requestOf "gateway/register_proxy" [("agent_id", "one"), ("name", "jina"), ("upstream_url", "https://jina")]),
    .go 1 .proceed, .go 1 (.token "token"), .go 1 (.answered (.ok .nil))]

/-- Then it is killed. -/
def killRun : List GatewayAct :=
  acceptedRun ++ [.request (requestOf "gateway/kill_agent" [("agent_id", "one")]), .go 2 .proceed, .go 2 .proceed,
    .go 2 .proceed, .go 2 (.destroyed (.ok ()))]

theorem timely_go {o : Op} {stage : Stage} {next : o.Answer → Dispatch} {input : Input}
    (hi : s.requests[i]? = some (.doing o stage next)) (h : TimelyOp s o stage next input) : Timely s (.go i input) := by
  intro o' stage' next' hi'
  rw [hi] at hi'
  cases hi'
  exact h

theorem proxies_owned_of_timely_kill :
    ∃ s, run (gatewayStep fieldCodec proxyBase) .init killRun = some s ∧ (∀ r ∈ s.requests, r.isDone = true) ∧
      ProxiesOwned s := by
  have hdone : ∀ {s}, run (gatewayStep fieldCodec proxyBase) .init killRun = some s →
    s.requests.all Request.isDone = true := by
    intro s hs
    cases hs
    rfl
  refine ⟨_, rfl, List.all_eq_true.mp (hdone rfl), @proxies_owned_of_timely fieldCodec proxyBase _ killRun rfl ?_
    (List.all_eq_true.mp (hdone rfl))⟩
  refine runOk_cons rfl trivial (runOk_cons rfl (timely_go rfl trivial) (runOk_cons rfl trivial
    (runOk_cons rfl (timely_go rfl trivial) (runOk_cons rfl (timely_go rfl trivial)
      (runOk_cons rfl (timely_go rfl ?_) ?_)))))
  · -- the agent that accepts is there
    rintro ⟨agentId, name⟩ hretracts
    obtain ⟨after, hafter⟩ := hretracts .closed
    cases hafter
    exact Or.inr (Or.inl (Or.inl rfl))
  · exact runOk_cons rfl trivial (runOk_cons rfl (timely_go rfl trivial) (runOk_cons rfl (timely_go rfl trivial)
      (runOk_cons rfl (timely_go rfl trivial) (runOk_cons rfl (timely_go rfl trivial) trivial))))

/-- Or it is detached. -/
def detachRun : List GatewayAct :=
  acceptedRun ++ [.request (requestOf "gateway/detach_agent" [("agent_id", "one")]), .go 2 .proceed, .go 2 .proceed]

theorem detach_leaks : ¬ ∀ (codec : Codec) (base : String) (acts : List GatewayAct) (s : GatewayState),
    run (gatewayStep codec base) .init acts = some s → (∀ r ∈ s.requests, r.isDone = true) → ProxiesOwned s := by
  intro hall
  have howned := hall fieldCodec proxyBase detachRun _ rfl (List.all_eq_true.mp rfl)
  have hpresent := howned.1 "token" _ rfl
  cases hpresent

end Nexal.Gateway
