import Nexal.Sanity.ProxyRegistry

/-! A `register_proxy` that fails. It has replaced the token of its key before it asks the agent, and when
the agent refuses it unregisters the key, whatever stands there by then. -/

namespace Nexal.Gateway

open Runs

/-! Which call has made which registration -/

/-- The gateway, with the registrations made so far and the calls that made them. -/
structure Traced where
  state : GatewayState
  made : List (ℕ × ProxyEntry)

def madeBy (s : GatewayState) : GatewayAct → Option (ℕ × ProxyEntry)
  | .go i (.token token) =>
    match s.requests[i]? with
    | some (.doing (.registerProxy agentId name upstreamUrl headers) _ _) =>
      some (i, ⟨agentId, name, upstreamUrl, headers, token⟩)
    | _ => none
  | _ => none

def tracedStep (codec : Codec) (base : String) (t : Traced) (a : GatewayAct) : Option Traced :=
  (gatewayStep codec base t.state a).map fun s => ⟨s, t.made ++ (madeBy t.state a).toList⟩

def Request.failed : Request → Bool
  | .done (.error _) => true
  | _ => false

def GatewayState.failed (s : GatewayState) (i : ℕ) : Bool := s.requests[i]?.any Request.failed

def Traced.standing (t : Traced) : List ProxyEntry := (t.made.filter fun p => !t.state.failed p.1).map (·.2)

/-- The registry if only those had been made. -/
def Traced.ideal (start : ProxyRegistry) (t : Traced) : ProxyRegistry :=
  t.standing.foldl (fun r e => r.register e.agentId e.name e.upstreamUrl e.headers e.token) start

/-- The registry is as if the calls that have failed had not happened. -/
def NoTrace (start : ProxyRegistry) (t : Traced) : Prop :=
  (∀ token, t.state.registry.proxies.lookup token = (t.ideal start).lookup token) ∧
    ∀ key, t.state.registry.proxies.index.lookup key = (t.ideal start).index.lookup key

def RegisterOnly : GatewayAct → Prop
  | .request req => GatewayMethod.parse req.method = some .registerProxy
  | .go _ _ => True
  | .acceptFails _ => False

def FreshToken (start : ProxyRegistry) (t : Traced) : GatewayAct → Prop
  | .go _ (.token token) => start.lookup token = none ∧ ∀ p ∈ t.made, p.2.token ≠ token
  | _ => True

instance decidableRegisterOnly : (a : GatewayAct) → Decidable (RegisterOnly a)
  | .request req => inferInstanceAs (Decidable (GatewayMethod.parse req.method = some .registerProxy))
  | .go _ _ => isTrue trivial
  | .acceptFails _ => isFalse id

instance decidableFreshToken (start : ProxyRegistry) (t : Traced) : (a : GatewayAct) → Decidable (FreshToken start t a)
  | .go _ (.token token) => inferInstanceAs (Decidable (start.lookup token = none ∧ ∀ p ∈ t.made, p.2.token ≠ token))
  | .go _ .proceed | .go _ (.connected _) | .go _ (.destroyed _) | .go _ (.answered _) | .go _ (.bound _) => isTrue trivial
  | .request _ | .acceptFails _ => isTrue trivial

/-- A call takes its key back only while its own registration is all that has been made under it. -/
def RetractsOwn (start : ProxyRegistry) (t : Traced) : GatewayAct → Prop
  | .go i _ => ∀ agentId name stage next, t.state.requests[i]? =
    some (.doing (.unregisterProxy agentId name) stage next) →
      start.index.lookup (agentId, name) = none ∧
        ∀ p ∈ t.made, p.1 ≠ i → t.state.failed p.1 = false → p.2.key ≠ (agentId, name)
  | _ => True

/-! A call goes on from where its registration has got to -/

def Dispatch.follows : Option ProxyEntry → Dispatch → Prop
  | none, .ret (.error _) => True
  | none, .op (.get _) next => ∀ answer, (next answer).follows none
  | none, .op (.registerProxy agentId name upstreamUrl headers) next =>
    ∀ token : String, (next token).follows (some ⟨agentId, name, upstreamUrl, headers, token⟩)
  | some e, .op (.invoke _ _ _) next => ∀ answer, (next answer).follows (some e)
  | some e, .op (.unregisterProxy agentId name) next =>
    (agentId, name) = e.key ∧ ∀ removed, ∃ err, next removed = .ret (.error err)
  | some _, .ret (.ok _) => True
  | _, _ => False

theorem follows_registerProxy (base : String) (p : RegisterProxyParams) : (dispatchRegisterProxy base p).follows none := by
  intro answer
  cases answer with
  | none => trivial
  | some agent =>
    intro token answer
    cases answer with
    | ok value => trivial
    | error err => exact ⟨rfl, fun _ => ⟨_, rfl⟩⟩

theorem follows_dispatch {codec : Codec} {base : String} {req : JsonRpcRequest} {d : Dispatch}
    (hmethod : GatewayMethod.parse req.method = some .registerProxy) (h : dispatch codec base req = .program d) :
    d.follows none := by
  rw [dispatch, hmethod] at h
  cases h
  cases codec.registerProxy (req.params.getD .nil) with
  | error err => trivial
  | ok p => exact follows_registerProxy base p

/-- While the registration is made and not taken back, the call has not failed. -/
theorem not_failed_of_follows {e : ProxyEntry} {r : Request} (h : r.program.follows (some e)) : r.failed = false := by
  cases r with
  | doing o stage next => rfl
  | done result =>
    cases result with
    | ok value => rfl
    | error err => exact absurd h id

/-! What stands under each key -/

def standingMap (m : Registrations) (es : List ProxyEntry) : Registrations := fun key =>
  ((es.filter (·.key = key)).getLast?).or (m key)

theorem standingMap_concat (m : Registrations) (es : List ProxyEntry) (e : ProxyEntry) :
    standingMap m (es ++ [e]) = Function.update (standingMap m es) e.key (some e) := by
  funext key
  rw [standingMap, List.filter_append, List.filter_singleton, Function.update_apply]
  by_cases hkey : key = e.key
  · simp [hkey]
  · simp [hkey, standingMap, eq_comm]

theorem standingMap_mem {m : Registrations} {es : List ProxyEntry} {key : String × String} {e : ProxyEntry}
    (h : standingMap m es key = some e) : e ∈ es ∨ m key = some e := by
  rcases Option.or_eq_some_iff.mp h with hlast | ⟨-, hm⟩
  · exact Or.inl (List.mem_filter.mp (List.mem_of_getLast? hlast)).1
  · exact Or.inr hm

theorem standingMap_eq_none {m : Registrations} {es : List ProxyEntry} {key : String × String} :
    standingMap m es key = none ↔ m key = none ∧ ∀ e ∈ es, e.key ≠ key := by
  rw [standingMap, Option.or_eq_none_iff, List.getLast?_eq_none_iff, List.filter_eq_nil_iff, and_comm]
  simp

/-- Registering the entries one after the other. -/
theorem represents_foldl {r : ProxyRegistry} {m : Registrations} (h : r.Represents m) (es : List ProxyEntry)
    (hnodup : (es.map (·.token)).Nodup) (hfresh : ∀ e ∈ es, ∀ key old, m key = some old → old.token ≠ e.token) :
    (es.foldl (fun r e => r.register e.agentId e.name e.upstreamUrl e.headers e.token) r).Represents (standingMap m es) := by
  induction es using List.reverseRecOn with
  | nil => exact (congrArg (r.Represents ·) (funext fun key => by simp [standingMap])).mp h
  | append_singleton es e ih =>
    rw [List.map_append] at hnodup
    obtain ⟨hnodup, -, hlast⟩ := List.nodup_append.mp hnodup
    have hinit := ih hnodup fun e' he' => hfresh e' (List.mem_append_left [e] he')
    rw [List.foldl_append, standingMap_concat]
    refine hinit.register e fun key old hold htoken => ?_
    rcases standingMap_mem hold with hmem | hm
    · exact hlast old.token (List.mem_map_of_mem hmem) e.token (by simp) htoken
    · exact hfresh e (by simp) key old hm htoken

/-! The invariant of a run -/

/-- How far the call has got: it has not registered, or it has and goes on, or has taken it back. -/
def CallAt (made : List (ℕ × ProxyEntry)) (i : ℕ) (r : Request) : Prop :=
  ((∀ p ∈ made, p.1 ≠ i) ∧ r.program.follows none) ∨
    ∃ e, (i, e) ∈ made ∧ (r.program.follows (some e) ∨ r.failed = true)

structure TracedInv (start : Registrations) (t : Traced) : Prop where
  calls : (t.made.map (·.1)).Nodup
  tokens : (t.made.map (·.2.token)).Nodup
  fresh : ∀ p ∈ t.made, ∀ key old, start key = some old → old.token ≠ p.2.token
  issued : ∀ p ∈ t.made, p.1 < t.state.requests.length
  callAt : ∀ (i : ℕ) (r : Request), t.state.requests[i]? = some r → CallAt t.made i r

def Request.retracting : Request → Bool
  | .doing (.unregisterProxy _ _) _ _ => true
  | _ => false

inductive CallStep (t : Traced) (i : ℕ) (input : Input) (old new : Request) :
    ProxyRegistry → Option (ℕ × ProxyEntry) → Prop where
  | before (hold : old.retracting = false) (hnone : ∀ p ∈ t.made, p.1 ≠ i) (hnew : new.program.follows none) :
    CallStep t i input old new t.state.registry.proxies none
  | register (e : ProxyEntry) (hold : old.retracting = false) (hnone : ∀ p ∈ t.made, p.1 ≠ i)
    (hinput : input = .token e.token) (hnew : new.program.follows (some e)) :
    CallStep t i input old new
      (t.state.registry.proxies.register e.agentId e.name e.upstreamUrl e.headers e.token) (some (i, e))
  | ask (e : ProxyEntry) (hold : old.retracting = false) (hmade : (i, e) ∈ t.made) (hnew : new.program.follows (some e)) :
    CallStep t i input old new t.state.registry.proxies none
  | retract (e : ProxyEntry) (hmade : (i, e) ∈ t.made)
    (hold : ∃ stage next, old = .doing (.unregisterProxy e.agentId e.name) stage next)
    (hnew : new.failed = true) : CallStep t i input old new (t.state.registry.proxies.remove e.key) none

variable {codec : Codec} {base : String} {start : Registrations} {t t' : Traced} {i : ℕ} {input : Input}

theorem callStep_of_go {o : Op} {stage : Stage} {next : o.Answer → Dispatch} {g : AgentRegistry} {out : Stage ⊕ o.Answer}
    (h : TracedInv start t) (hr : t.state.requests[i]? = some (.doing o stage next))
    (hop : t.state.registry.opStep o stage input = some (g, out)) :
    CallStep t i input (.doing o stage next) (.after next out) g.proxies (madeBy t.state (.go i input)) := by
  rcases h.callAt i _ hr with ⟨hnone, hfollows⟩ | ⟨e, hmade, hfollows | hfailed⟩
  · cases o with
    | get agentId =>
      cases hop
      have hmadeBy : madeBy t.state (.go i input) = none := by
        rw [madeBy.eq_def]
        cases input <;> simp [hr]
      rw [hmadeBy]
      refine .before rfl hnone ?_
      show (Request.start (next _)).program.follows none
      rw [program_start]
      exact hfollows _
    | registerProxy agentId name upstreamUrl headers =>
      cases input with
      | token token =>
        cases hop
        have hmadeBy : madeBy t.state (.go i (.token token)) =
          some (i, ⟨agentId, name, upstreamUrl, headers, token⟩) := by
          simp only [madeBy, hr]
        rw [hmadeBy]
        refine .register ⟨agentId, name, upstreamUrl, headers, token⟩ rfl hnone rfl ?_
        show (Request.start (next token)).program.follows _
        rw [program_start]
        exact hfollows token
      | _ => cases hop
    | _ => exact absurd hfollows id
  · cases o with
    | invoke agent method params =>
      cases input with
      | answered result =>
        cases hop
        refine .ask e rfl hmade ?_
        show (Request.start (next result)).program.follows (some e)
        rw [program_start]
        exact hfollows result
      | _ => cases hop
    | unregisterProxy agentId name =>
      cases hop
      obtain ⟨hkey, hnext⟩ := hfollows
      have hfails : ∀ removed, (Request.start (next removed)).failed = true := by
        intro removed
        obtain ⟨err, herr⟩ := hnext removed
        rw [herr]
        rfl
      have hmadeBy : madeBy t.state (.go i input) = none := by
        rw [madeBy.eq_def]
        cases input <;> simp [hr]
      cases hkey
      rw [hmadeBy]
      exact .retract e hmade ⟨stage, next, rfl⟩ (hfails _)
    | _ => exact absurd hfollows id
  · cases hfailed

theorem made_unique {e : ProxyEntry} (h : TracedInv start t) (hmade : (i, e) ∈ t.made) :
    ∀ p ∈ t.made, p.1 = i → p.2 = e := by
  rintro ⟨j, e'⟩ hp rfl
  have hlookup := Lists.lookup_eq_some_of_mem h.calls hmade
  rw [Lists.lookup_eq_some_of_mem h.calls hp] at hlookup
  exact Option.some.inj hlookup

theorem failed_set {s : GatewayState} {g : AgentRegistry} {i : ℕ} {old new : Request} (hr : s.requests[i]? = some old)
    (j : ℕ) :
    (GatewayState.mk g (s.requests.set i new)).failed j = if j = i then new.failed else s.failed j := by
  rw [GatewayState.failed, Lists.getElem?_set_of_some hr]
  split_ifs
  · rfl
  · rfl

/-- A step of a call leaves a record that still fits. -/
theorem inv_callStep {g : AgentRegistry} {proxies : ProxyRegistry} {old new : Request} {made : Option (ℕ × ProxyEntry)}
    (h : TracedInv start t)
    (hr : t.state.requests[i]? = some old) (hfresh : ∀ token, input = .token token →
      (∀ key old, start key = some old → old.token ≠ token) ∧ ∀ p ∈ t.made, p.2.token ≠ token)
    (hs : CallStep t i input old new proxies made) :
    TracedInv start ⟨⟨g, t.state.requests.set i new⟩, t.made ++ made.toList⟩ := by
  have hlt : i < t.state.requests.length := (List.getElem?_eq_some_iff.mp hr).1
  have hold : ∀ {made'}, (∀ j r, j ≠ i → CallAt t.made j r → CallAt made' j r) → CallAt made' i new →
      ∀ (j : ℕ) (r : Request), (t.state.requests.set i new)[j]? = some r → CallAt made' j r := by
    intro made' hothers hnew j r hj
    rcases Lists.getElem?_set_cases hj with ⟨rfl, rfl⟩ | ⟨hne, hj'⟩
    · exact hnew
    · exact hothers j r hne (h.callAt j r hj')
  have hsame : CallAt t.made i new → TracedInv start ⟨⟨g, t.state.requests.set i new⟩, t.made ++ []⟩ := by
    intro hnew
    rw [List.append_nil]
    refine ⟨h.calls, h.tokens, h.fresh, fun p hp => ?_, hold (fun _ _ _ => id) hnew⟩
    rw [List.length_set]
    exact h.issued p hp
  cases hs with
  | before _ hnone hnew => exact hsame (Or.inl ⟨hnone, hnew⟩)
  | ask e _ hmade hnew => exact hsame (Or.inr ⟨e, hmade, Or.inl hnew⟩)
  | retract e hmade _ hnew => exact hsame (Or.inr ⟨e, hmade, Or.inr hnew⟩)
  | register e _ hnone hinput hnew =>
    obtain ⟨hstart, htokens⟩ := hfresh e.token hinput
    constructor
    case calls =>
      rw [List.map_append]
      refine List.nodup_append.mpr ⟨h.calls, List.nodup_singleton _, fun j hj k hk => ?_⟩
      obtain ⟨p, hp, rfl⟩ := List.mem_map.mp hj
      rw [List.mem_singleton.mp hk]
      exact hnone p hp
    case tokens =>
      rw [List.map_append]
      refine List.nodup_append.mpr ⟨h.tokens, List.nodup_singleton _, fun x hx y hy => ?_⟩
      obtain ⟨p, hp, rfl⟩ := List.mem_map.mp hx
      rw [List.mem_singleton.mp hy]
      exact htokens p hp
    case fresh =>
      intro p hp key old hold
      rcases List.mem_append.mp hp with hp | hp
      · exact h.fresh p hp key old hold
      · rw [List.mem_singleton.mp hp]
        exact hstart key old hold
    case issued =>
      intro p hp
      rw [List.length_set]
      rcases List.mem_append.mp hp with hp | hp
      · exact h.issued p hp
      · rw [List.mem_singleton.mp hp]
        exact hlt
    case callAt =>
      refine hold (fun j r hj hcall => ?_) (Or.inr ⟨e, List.mem_append_right _ (List.mem_singleton.mpr rfl),
        Or.inl hnew⟩)
      rcases hcall with ⟨hnone', hfollows⟩ | ⟨e', hmade, hrest⟩
      · refine Or.inl ⟨fun p hp => ?_, hfollows⟩
        rcases List.mem_append.mp hp with hp | hp
        · exact hnone' p hp
        · rw [List.mem_singleton.mp hp]
          exact fun heq => hj heq.symm
      · exact Or.inr ⟨e', List.mem_append_left _ hmade, hrest⟩

/-! The registry against the registrations that stand -/

theorem standing_same {s : GatewayState} (hfailed : ∀ p ∈ t.made, s.failed p.1 = t.state.failed p.1) :
    Traced.standing ⟨s, t.made⟩ = t.standing := by
  refine congrArg (List.map _) (List.filter_congr fun p hp => ?_)
  rw [hfailed p hp]

/-- Taking back the registration of a call that fails. -/
theorem standingMap_retract {s : GatewayState} {e : ProxyEntry} (h : TracedInv start t) (hmade : (i, e) ∈ t.made)
    (hfailed : ∀ j, s.failed j = if j = i then true else t.state.failed j) :
    standingMap start (Traced.standing ⟨s, t.made⟩) = Function.update (standingMap start t.standing) e.key none ↔
      start e.key = none ∧ ∀ p ∈ t.made, p.1 ≠ i → t.state.failed p.1 = false → p.2.key ≠ e.key := by
  have hmem : ∀ e', e' ∈ Traced.standing ⟨s, t.made⟩ ↔
    ∃ j, (j, e') ∈ t.made ∧ j ≠ i ∧ t.state.failed j = false := by
    intro e'
    simp only [Traced.standing, List.mem_map, List.mem_filter]
    constructor
    · rintro ⟨⟨j, e''⟩, ⟨hp, hstands⟩, rfl⟩
      rw [hfailed] at hstands
      split_ifs at hstands with hj
      · cases hstands
      · exact ⟨j, hp, hj, by simpa using hstands⟩
    · rintro ⟨j, hp, hj, hstands⟩
      exact ⟨(j, e'), ⟨hp, by rw [hfailed, if_neg hj, hstands]; rfl⟩, rfl⟩
  constructor
  · intro heq
    have hnone := congrFun heq e.key
    rw [Function.update_self, standingMap_eq_none] at hnone
    exact ⟨hnone.1, fun p hp hne hstands => hnone.2 p.2 ((hmem p.2).mpr ⟨p.1, hp, hne, hstands⟩)⟩
  · rintro ⟨hstart, hothers⟩
    funext key
    rw [Function.update_apply]
    split_ifs with hkey
    · refine standingMap_eq_none.mpr ⟨hkey ▸ hstart, fun e' he' => ?_⟩
      obtain ⟨j, hp, hne, hstands⟩ := (hmem e').mp he'
      exact hkey ▸ hothers (j, e') hp hne hstands
    · -- the call's own registration is under another key
      have hfilter : (Traced.standing ⟨s, t.made⟩).filter (·.key = key) = t.standing.filter (·.key = key) := by
        rw [Traced.standing, Traced.standing, List.filter_map, List.filter_map, List.filter_filter, List.filter_filter]
        refine congrArg (List.map _) (List.filter_congr fun p hp => ?_)
        rw [hfailed]
        split_ifs with hj
        · have hpe : p.2 = e := made_unique h hmade p hp hj
          simp only [Function.comp_apply, hpe]
          rw [decide_eq_false (Ne.symm hkey), Bool.false_and, Bool.false_and]
        · rfl
      rw [standingMap, standingMap, hfilter]

theorem noTrace_iff {r : ProxyRegistry} (h : TracedInv start t) (hr : r.Represents start) :
    NoTrace r t ↔ t.state.registry.proxies.Represents (standingMap start t.standing) := by
  have hideal : (t.ideal r).Represents (standingMap start t.standing) := by
    refine represents_foldl hr t.standing ?_ fun e he => ?_
    · refine List.Nodup.sublist ?_ h.tokens
      rw [Traced.standing, List.map_map]
      exact List.filter_sublist.map _
    · obtain ⟨p, hp, rfl⟩ := List.mem_map.mp he
      exact h.fresh p (List.mem_filter.mp hp).1
  constructor
  · rintro ⟨hbyToken, hindex⟩
    exact hideal.congr hbyToken hindex
  · intro hproxies
    exact (hproxies.same_iff hideal).mpr rfl

/-- The step of a call: the registry still stands for the right registrations exactly if the call takes
back no registration but its own, which replaced none. -/
theorem callStep_represents {r proxies : ProxyRegistry} {g : AgentRegistry} {old new : Request}
    {made : Option (ℕ × ProxyEntry)} (h : TracedInv start t) (hr : r.Represents start)
    (hrep : t.state.registry.proxies.Represents (standingMap start t.standing)) (hold : t.state.requests[i]? = some old)
    (hgoes : old.failed = false)
    (hfresh : ∀ token, input = .token token → (∀ key old, start key = some old → old.token ≠ token) ∧
      ∀ p ∈ t.made, p.2.token ≠ token)
    (hs : CallStep t i input old new proxies made) :
    proxies.Represents (standingMap start (Traced.standing ⟨⟨g, t.state.requests.set i new⟩,
      t.made ++ made.toList⟩)) ↔
      RetractsOwn r t (.go i input) := by
  have hfailed : ∀ j, (GatewayState.mk g (t.state.requests.set i new)).failed j =
      if j = i then new.failed else t.state.failed j := failed_set hold
  have hfailed_i : t.state.failed i = false := by rw [GatewayState.failed, hold, Option.any_some, hgoes]
  have hkeeps : old.retracting = false → RetractsOwn r t (.go i input) := by
    intro hnot agentId name stage next heq
    cases hold.symm.trans heq
    cases hnot
  cases hs with
  | before hnot hnone hnew =>
    refine iff_of_true ?_ (hkeeps hnot)
    rw [Option.toList_none, List.append_nil, standing_same fun p hp => by rw [hfailed, if_neg (hnone p hp)]]
    exact hrep
  | ask e hnot hmade hnew =>
    refine iff_of_true ?_ (hkeeps hnot)
    rw [Option.toList_none, List.append_nil, standing_same]
    · exact hrep
    · intro p _
      rw [hfailed]
      split_ifs with hp
      · rw [hp, hfailed_i, not_failed_of_follows hnew]
      · rfl
  | register e hnot hnone hinput hnew =>
    refine iff_of_true ?_ (hkeeps hnot)
    have hstanding : Traced.standing ⟨⟨g, t.state.requests.set i new⟩, t.made ++ [(i, e)]⟩ = t.standing ++ [e] := by
      rw [Traced.standing, List.filter_append, List.map_append]
      refine congrArg₂ (· ++ ·) (standing_same fun p hp => by rw [hfailed, if_neg (hnone p hp)]) ?_
      simp [hfailed, not_failed_of_follows hnew]
    rw [Option.toList_some, hstanding, standingMap_concat]
    obtain ⟨hstart, hmade⟩ := hfresh e.token hinput
    refine hrep.register e fun key old' hold' => ?_
    rcases standingMap_mem hold' with hmem | hm
    · obtain ⟨p, hp, rfl⟩ := List.mem_map.mp hmem
      exact hmade p (List.mem_filter.mp hp).1
    · exact hstart key old' hm
  | retract e hmade hretracts hnew =>
    obtain ⟨stage, next, rfl⟩ := hretracts
    rw [Option.toList_none, List.append_nil]
    have hremoved := hrep.remove e.key
    have hiff := standingMap_retract h hmade (s := ⟨g, t.state.requests.set i new⟩) (by rw [← hnew]; exact hfailed)
    have hindex : r.index.lookup e.key = none ↔ start e.key = none := by rw [hr.index, Option.map_eq_none_iff]
    constructor
    · intro hafter agentId name stage' next' heq
      cases hold.symm.trans heq
      obtain ⟨hnone, hothers⟩ := hiff.mp (hafter.unique hremoved)
      exact ⟨hindex.mpr hnone, hothers⟩
    · intro hown
      obtain ⟨hnone, hothers⟩ := hown e.agentId e.name stage next hold
      rw [hiff.mpr ⟨hindex.mp hnone, hothers⟩]
      exact hremoved

variable {a : GatewayAct} {acts : List GatewayAct} {r : ProxyRegistry}

theorem traced_step_spec (h : TracedInv start t) (hr : r.Represents start) (hproxies : NoTrace r t)
    (hact : RegisterOnly a) (hfresh : FreshToken r t a) (hs : tracedStep codec base t a = some t') :
    TracedInv start t' ∧ (NoTrace r t' ↔ RetractsOwn r t a) := by
  obtain ⟨s', hs', rfl⟩ := Option.map_eq_some_iff.mp hs
  have hrep := (noTrace_iff h hr).mp hproxies
  cases a with
  | acceptFails listener => exact absurd hact id
  | request req =>
    simp only [gatewayStep] at hs'
    split at hs'
    · rename_i d hd
      cases hs'
      have hfollows := follows_dispatch hact hd
      have hinv : TracedInv start ⟨{ t.state with requests := t.state.requests ++ [.start d] }, t.made ++ []⟩ := by
        rw [List.append_nil]
        refine ⟨h.calls, h.tokens, h.fresh, fun p hp => ?_, fun i r hi => ?_⟩
        · rw [List.length_append]
          exact Nat.lt_add_right _ (h.issued p hp)
        · rw [Lists.getElem?_concat] at hi
          split_ifs at hi with hlast
          · cases hi
            refine Or.inl ⟨fun p hp heq => ?_, by rwa [program_start]⟩
            exact absurd (h.issued p hp) (by rw [heq, hlast]; exact lt_irrefl _)
          · exact h.callAt i r hi
      refine ⟨hinv, iff_of_true ((noTrace_iff hinv hr).mpr ?_) trivial⟩
      show t.state.registry.proxies.Represents (standingMap start (Traced.standing ⟨_, t.made ++ []⟩))
      rw [List.append_nil, standing_same]
      · exact hrep
      · intro p hp
        rw [GatewayState.failed, GatewayState.failed, List.getElem?_append_left (h.issued p hp)]
    · cases hs'
  | go i input =>
    obtain ⟨old, hold, hs'⟩ := Option.bind_eq_some_iff.mp hs'
    cases old with
    | done result => cases hs'
    | doing o stage next =>
      obtain ⟨⟨g, out⟩, hop, rfl⟩ := Option.map_eq_some_iff.mp hs'
      have hcall := callStep_of_go h hold hop
      have htoken : ∀ token, input = .token token → (∀ key old, start key = some old → old.token ≠ token) ∧
          ∀ p ∈ t.made, p.2.token ≠ token := by
        rintro token rfl
        refine ⟨fun key old hkey heq => ?_, hfresh.2⟩
        have hlookup := (hr.byToken old.token old).mpr ⟨(hr.key key old hkey).symm ▸ hkey, rfl⟩
        rw [heq] at hlookup
        cases hlookup.symm.trans hfresh.1
      have hinv := inv_callStep (g := g) h hold htoken hcall
      exact ⟨hinv, (noTrace_iff hinv hr).trans (callStep_represents h hr hrep hold rfl htoken hcall)⟩

/-- In a run of `register_proxy` calls with fresh tokens, the registry is at every point as if the calls that
have failed had not happened, exactly if each call that fails takes back only a registration of its own, made
under a key that was free and that no other call has registered since. -/
theorem noTrace_iff_retractsOwn {s : GatewayState} (hinverse : s.registry.proxies.Inverse) (hidle : s.requests = [])
    (hacts : ∀ a ∈ acts, RegisterOnly a)
    (hfresh : RunOk (tracedStep codec base) (FreshToken s.registry.proxies) ⟨s, []⟩ acts)
    (h : run (tracedStep codec base) ⟨s, []⟩ acts = some t) :
    (∀ acts' t', acts' <+: acts → run (tracedStep codec base) ⟨s, []⟩ acts' = some t' →
      NoTrace s.registry.proxies t') ↔
      RunOk (tracedStep codec base) (RetractsOwn s.registry.proxies) ⟨s, []⟩ acts := by
  obtain ⟨start, hstart⟩ := ProxyRegistry.represents_of_inverse hinverse
  have hinit : TracedInv start ⟨s, []⟩ := by
    refine ⟨List.nodup_nil, List.nodup_nil, by simp, by simp, fun i r hi => ?_⟩
    simp [hidle] at hi
  have hnone : NoTrace s.registry.proxies ⟨s, []⟩ := ⟨fun _ => rfl, fun _ => rfl⟩
  refine (runOk_iff_prefixes (H := fun t a => RegisterOnly a ∧ FreshToken s.registry.proxies t a) (TracedInv start)
    (NoTrace s.registry.proxies) ?_ hinit hnone (runOk_and (runOk_of_mem (fun a ha _ => hacts a ha) _) hfresh) h).symm
  intro t a t' hinv hproxies hok hs
  exact traced_step_spec hinv hstart hproxies hok.1 hok.2 hs

/-! Two calls for one agent and name -/

def jinaCodec : Codec where
  request _ := .error "missing field method"
  hello _ := .error "missing field access_key"
  spawnAgent _ := .error "missing field name"
  agentId _ := .error "missing field agent_id"
  containerName _ := .error "missing field container_name"
  agentInvoke _ := .error "missing field agent_id"
  registerProxy _ := .ok ⟨"one", "jina", "https://jina", []⟩
  unregister _ := .error "missing field agent_id"
  registerStreamProxy _ := .error "missing field agent_id"

/-- One agent is there, and no proxy. -/
def oneAgent : GatewayState :=
    ⟨⟨(∅ : HashMap String AgentEntry).insert "one" ⟨"one", "nexal-one", 0, []⟩, .new, .new⟩, []⟩

def jinaRequest : GatewayAct := .request ⟨some .nil, "gateway/register_proxy", none⟩

/-- The agent refuses the proxy, and accepts it when it is asked again. -/
def refusedThenAccepted : List GatewayAct :=
  [jinaRequest, .go 0 .proceed, .go 0 (.token "t1"), .go 0 (.answered (.error .closed)), .go 0 .proceed,
    jinaRequest, .go 1 .proceed, .go 1 (.token "t2"), .go 1 (.answered (.ok .nil))]

theorem noTrace_iff_retractsOwn_refused : ∃ t, run (tracedStep jinaCodec "base") ⟨oneAgent,
      []⟩ refusedThenAccepted = some t ∧
    ∀ acts' t', acts' <+: refusedThenAccepted → run (tracedStep jinaCodec "base") ⟨oneAgent, []⟩ acts' = some t' →
      NoTrace oneAgent.registry.proxies t' := by
  refine ⟨_, rfl, (@noTrace_iff_retractsOwn jinaCodec "base" _ refusedThenAccepted oneAgent
    (ProxyRegistry.inverse_of_represents ProxyRegistry.represents_new) rfl (by decide) (by decide) rfl).mpr ?_⟩
  have hother : ∀ {t : Traced} {i : ℕ} {input : Input} {r : Request}, t.state.requests[i]? = some r →
    r.retracting = false →
      RetractsOwn oneAgent.registry.proxies t (.go i input) := by
    intro t i input r hr hnot agentId name stage next hi
    cases hr.symm.trans hi
    cases hnot
  refine runOk_cons rfl trivial (runOk_cons rfl (hother rfl rfl)
    (runOk_cons rfl (hother rfl rfl) (runOk_cons rfl (hother rfl rfl)
    (runOk_cons rfl ?_ (runOk_cons rfl trivial (runOk_cons rfl (hother rfl rfl) (runOk_cons rfl (hother rfl rfl)
      (runOk_cons rfl (hother rfl rfl) trivial))))))))
  intro agentId name stage next hi
  cases hi
  exact ⟨rfl, by decide⟩

/-- The other way round: the second call replaces the token of the first, and takes its key with it. -/
def acceptedThenRefused : List GatewayAct :=
  [jinaRequest, .go 0 .proceed, .go 0 (.token "t1"), .go 0 (.answered (.ok .nil)),
    jinaRequest, .go 1 .proceed, .go 1 (.token "t2"), .go 1 (.answered (.error .closed)), .go 1 .proceed]

theorem refused_call_drops_token : ¬ ∀ (codec : Codec) (base : String) (acts : List GatewayAct) (s : GatewayState)
    (t : Traced),
    s.registry.proxies.Inverse → s.requests = [] → (∀ a ∈ acts, RegisterOnly a) →
    RunOk (tracedStep codec base) (FreshToken s.registry.proxies) ⟨s, []⟩ acts →
    run (tracedStep codec base) ⟨s, []⟩ acts = some t → NoTrace s.registry.proxies t := by
  intro hall
  have hinverse : oneAgent.registry.proxies.Inverse := ProxyRegistry.inverse_of_represents ProxyRegistry.represents_new
  have htrace := (hall jinaCodec "base" acceptedThenRefused oneAgent _ hinverse rfl (by decide) (by decide) rfl).1 "t1"
  cases htrace

end Nexal.Gateway
