import Nexal.Sanity.WarmPool

/-! Who has the warm containers. On its way from `create_one` to an agent a container is in one pair of
hands after the other; it is lost where one of them lets go of it. -/

namespace Nexal.Containers

variable {cfg : Config} {s s' : State} {n : ℕ} {name : String}

def Replenish.has (n : ℕ) (name : String) : Replenish → Prop
  | .ensuring (.starting spec) => spec.name = name
  | .pushing h => h.container = n
  | _ => False

/-- The call is connecting to the container it took from the pool, or is about to destroy it. -/
def Call.has (cfg : Config) (n : ℕ) (name : String) (call : Call) : Prop :=
  match call.phase with
  | .dialing h => (∃ r, call.op = .spawn r ∧ TakesWarm cfg r call.found) ∧ h.container = n
  | .destroying names => name ∈ names
  | _ => False

/-- Someone has the container with this place and name. -/
inductive Held (cfg : Config) (s : State) (n : ℕ) (name : String) : Prop where
  | idle (h : ContainerHandle) (hmem : h ∈ s.available) (hn : h.container = n)
  | creating (hloop : s.replenish.has n name)
  | registered (agentId : ℕ) (h : ContainerHandle) (hagent : s.agents.lookup agentId = some h) (hn : h.container = n)
  | detached (hmem : n ∈ s.detached)
  | calling (i : ℕ) (call : Call) (hcall : s.calls[i]? = some call) (hhas : call.has cfg n name)

def NoOrphan (cfg : Config) (s : State) : Prop :=
  ∀ n c, s.made[n]? = some c → c.alive = true → c.maker = .pool → Held cfg s n c.name

def Quiet (s : State) : Prop := s.replenish = .idle ∧ ∀ call ∈ s.calls, call.phase = .finished

/-- After the pool has been drained, and when nothing is in progress, every warm container is that of a
registered or a detached agent. -/
def NoneLeft (s : State) : Prop :=
  s.drained = true → Quiet s → ∀ n c, s.made[n]? = some c → c.alive = true → c.maker = .pool →
    (∃ agentId h, s.agents.lookup agentId = some h ∧ h.container = n) ∨ n ∈ s.detached

def State.warm (s : State) (name : String) : Bool := s.made.any fun c => c.alive && c.maker = .pool && c.name = name

def State.warmAt (s : State) (n : ℕ) : Bool := (s.made[n]?).any fun c => c.alive && c.maker = .pool

/-- Nobody lets go of a warm container that is there: the pool's `ensure` does not fail once it exists, no
spawn that took it fails to connect, it is destroyed where it is to be, and none is pushed into the pool after
the drain; the process ends when all this is done and no agent is left. -/
def keeps (cfg : Config) (s : State) : Act → Bool
  | .ensurePool _ false =>
    match s.replenish with
    | .ensuring (.starting spec) => !s.warm spec.name
    | _ => true
  | .push => !s.drained
  | .go i _ false =>
    match s.calls[i]? with
    | some ⟨.spawn r, .dialing h, found, _⟩ => !(decide (TakesWarm cfg r found) && s.warmAt h.container)
    | some ⟨_, .destroying (name :: _), _, _⟩ => !s.warm name
    | _ => true
  | .restart =>
    s.drained && s.agents.entries.isEmpty && (match s.replenish with | .idle => true | _ => false) &&
      s.calls.all fun call => match call.phase with | .finished => true | _ => false
  | _ => true

/-! What is in whose hands stays -/

theorem Held.transfer (h : Held cfg s n name) (hidle : ∀ x ∈ s.available, x.container = n → Held cfg s' n name)
    (hcreating : s.replenish.has n name → Held cfg s' n name)
    (hregistered : ∀ a x, s.agents.lookup a = some x → x.container = n → Held cfg s' n name)
    (hdetached : n ∈ s.detached → Held cfg s' n name)
    (hcalling : ∀ (i : ℕ) (call : Call), s.calls[i]? = some call → call.has cfg n name → Held cfg s' n name) :
    Held cfg s' n name := by
  cases h with
  | idle x hmem hn => exact hidle x hmem hn
  | creating hloop => exact hcreating hloop
  | registered a x hagent hn => exact hregistered a x hagent hn
  | detached hmem => exact hdetached hmem
  | calling i call hcall hhas => exact hcalling i call hcall hhas

section Hands
variable (h : Held cfg s n name)
include h

/-- Handles leave the pool or come into it. -/
theorem Held.setAvailable (hreplenish : s'.replenish = s.replenish) (hagents : s'.agents = s.agents)
    (hdetached : s'.detached = s.detached) (hcalls : s'.calls = s.calls)
    (hidle : ∀ x ∈ s.available, x.container = n → Held cfg s' n name) : Held cfg s' n name :=
  h.transfer hidle (fun hloop => .creating (hreplenish ▸ hloop)) (fun a x ha hn => .registered a x (hagents ▸ ha) hn)
    (fun hm => .detached (hdetached ▸ hm)) fun i call hi hhas => .calling i call (hcalls ▸ hi) hhas

/-- The pool's loop goes on. -/
theorem Held.setReplenish (havailable : s'.available = s.available) (hagents : s'.agents = s.agents)
    (hdetached : s'.detached = s.detached) (hcalls : s'.calls = s.calls)
    (hcreating : s.replenish.has n name → Held cfg s' n name) : Held cfg s' n name :=
  h.transfer (fun x hx hn => .idle x (havailable ▸ hx) hn) hcreating (fun a x ha hn => .registered a x (hagents ▸ ha) hn)
    (fun hm => .detached (hdetached ▸ hm)) fun i call hi hhas => .calling i call (hcalls ▸ hi) hhas

/-- Agents are registered, or no longer. -/
theorem Held.setAgents (havailable : s'.available = s.available) (hreplenish : s'.replenish = s.replenish)
    (hdetached : ∀ m ∈ s.detached, m ∈ s'.detached) (hcalls : s'.calls = s.calls)
    (hregistered : ∀ a x, s.agents.lookup a = some x → x.container = n → Held cfg s' n name) : Held cfg s' n name :=
  h.transfer (fun x hx hn => .idle x (havailable ▸ hx) hn) (fun hloop => .creating (hreplenish ▸ hloop)) hregistered
    (fun hm => .detached (hdetached n hm)) fun i call hi hhas => .calling i call (hcalls ▸ hi) hhas

/-- A call goes on. -/
theorem Held.setCall {i : ℕ} {call call' : Call} (hi : s.calls[i]? = some call)
    (hhas : call.has cfg n name → Held cfg { s with calls := s.calls.set i call' } n name) :
    Held cfg { s with calls := s.calls.set i call' } n name := by
  refine h.transfer (fun x hx hn => .idle x hx hn) (fun hloop => .creating hloop) (fun a x ha hn => .registered a x ha hn)
    (fun hm => .detached hm) fun j d hj hd => ?_
  by_cases hji : j = i
  · subst hji
    cases hi.symm.trans hj
    exact hhas hd
  · exact .calling j d ((List.getElem?_set_ne (Ne.symm hji)).trans hj) hd

/-- A call begins. -/
theorem Held.begin {op : Op} {phase : Phase} {given : Option ContainerHandle} : Held cfg (s.begin op phase given) n name :=
  h.transfer (fun x hx hn => .idle x hx hn) (fun hloop => .creating hloop) (fun a x ha hn => .registered a x ha hn)
    (fun hm => .detached hm) fun j d hj hd =>
    .calling j d (Lists.getElem?_append_of_some hj _) hd

end Hands

/-! The steps -/

structure Accounted (cfg : Config) (s : State) : Prop where
  wf : Wf cfg s
  held : NoOrphan cfg s
  drained : s.drained = true → s.available = []
  /-- the call that has registered an agent is over -/
  keyed : ∀ a h, s.agents.lookup a = some h → ∃ call, s.calls[a]? = some call ∧ call.phase = .finished

theorem warm_of_alive {c : Container} (hc : s.made[n]? = some c) (halive : c.alive = true) (hpool : c.maker = .pool) :
    s.warm c.name = true :=
  List.any_eq_true.mpr ⟨c, List.mem_of_getElem? hc, by simp [halive, hpool]⟩

theorem warmAt_of_alive {c : Container} (hc : s.made[n]? = some c) (halive : c.alive = true) (hpool : c.maker = .pool) :
    s.warmAt n = true := by
  rw [State.warmAt, hc, Option.any_some, halive, hpool]
  rfl

theorem name_of_named {c : Container} {h : ContainerHandle} (hnamed : Named s.made h) (hn : h.container = n)
    (hc : s.made[n]? = some c) : c.name = h.name := by
  obtain ⟨d, hd, hname⟩ := hnamed
  rw [hn, hc] at hd
  cases hd
  exact hname

theorem Accounted.keyed_begin (h : Accounted cfg s) {op : Op} {phase : Phase} {given : Option ContainerHandle} {a : ℕ}
    {handle : ContainerHandle} (hlookup : s.agents.lookup a = some handle) :
    ∃ call, (s.begin op phase given).calls[a]? = some call ∧ call.phase = .finished := by
  obtain ⟨call, hcall, hphase⟩ := h.keyed a handle hlookup
  exact ⟨call, Lists.getElem?_append_of_some hcall _, hphase⟩

theorem accounted_spawn (h : Accounted cfg s) (r : SpawnRequest) : Accounted cfg (spawn cfg s r) where
  wf := wf_spawn h.wf r
  held := by
    unfold spawn
    split
    · rename_i handle htake
      split_ifs at htake with hplain
      obtain ⟨rest, hrest⟩ := List.getLast?_eq_some_iff.mp htake
      intro n c hc halive hpool
      refine (h.held n c hc halive hpool).begin.setAvailable rfl rfl rfl rfl fun x hx hn => ?_
      have hx' : x ∈ rest ++ [handle] := hrest ▸ hx
      rcases List.mem_append.mp hx' with hold | hnew
      · refine .idle x ?_ hn
        rw [hrest, List.dropLast_concat]
        exact hold
      · -- the one that is taken
        rw [List.mem_singleton.mp hnew] at hn
        have hfound : s.available ≠ [] := List.ne_nil_of_mem (List.mem_of_getLast? htake)
        exact .calling s.calls.length _ List.getElem?_concat_length ⟨⟨r, rfl, hplain, hfound⟩, hn⟩
    · exact fun n c hc halive hpool => (h.held n c hc halive hpool).begin
  drained hdrained := by
    unfold spawn at hdrained ⊢
    split at hdrained
    · rw [h.drained hdrained]
      rfl
    · exact h.drained hdrained
  keyed a handle hlookup := by
    unfold spawn at hlookup ⊢
    split
    · rename_i x heq
      rw [heq] at hlookup
      exact h.keyed_begin hlookup
    · rename_i heq
      rw [heq] at hlookup
      exact h.keyed_begin hlookup

theorem accounted_begin (h : Accounted cfg s) {op : Op} {phase : Phase} {given : Option ContainerHandle}
    (hsound : Sound cfg s.made ⟨op, phase, s.available, given⟩) : Accounted cfg (s.begin op phase given) where
  wf := h.wf.begin hsound
  held n c hc halive hpool := (h.held n c hc halive hpool).begin
  drained := h.drained
  keyed _ _ hlookup := h.keyed_begin hlookup

theorem accounted_kill (h : Accounted cfg s) (agentId : ℕ) : Accounted cfg (kill s agentId) := by
  have hwf := wf_kill h.wf agentId
  unfold kill at hwf ⊢
  split at hwf
  · rename_i handle hagent
    refine ⟨hwf, fun n c hc halive hpool => ?_, h.drained,
      fun a x hlookup => h.keyed_begin (Lists.lookup_of_erase hlookup).2⟩
    refine (h.held n c hc halive hpool).begin.setAgents rfl rfl (fun _ hm => hm) rfl fun a x hlookup hn => ?_
    by_cases ha : a = agentId
    · -- its container is to be destroyed, by name
      subst ha
      cases hagent.symm.trans hlookup
      refine .calling s.calls.length _ List.getElem?_concat_length ?_
      exact List.mem_singleton.mpr (name_of_named (h.wf.agents a handle hlookup) hn hc)
    · exact .registered a x ((AList.lookup_erase_ne ha).trans hlookup) hn
  · exact ⟨hwf, fun n c hc halive hpool => (h.held n c hc halive hpool).begin, h.drained,
      fun _ _ hlookup => h.keyed_begin hlookup⟩

theorem accounted_detach (h : Accounted cfg s) (agentId : ℕ) : Accounted cfg (detach s agentId) := by
  have hwf := wf_detach h.wf agentId
  unfold detach at hwf ⊢
  split at hwf
  · rename_i handle hagent
    refine ⟨hwf, fun n c hc halive hpool => ?_, h.drained,
      fun a x hlookup => h.keyed a x (Lists.lookup_of_erase hlookup).2⟩
    refine (h.held n c hc halive hpool).setAgents rfl rfl (fun _ hm => List.mem_append_left _ hm) rfl
      fun a x hlookup hn => ?_
    by_cases ha : a = agentId
    · subst ha
      cases hagent.symm.trans hlookup
      exact .detached (List.mem_append_right _ (List.mem_singleton.mpr hn.symm))
    · exact .registered a x ((AList.lookup_erase_ne ha).trans hlookup) hn
  · exact h

theorem accounted_detachAll (h : Accounted cfg s) : Accounted cfg (detachAll s) where
  wf := wf_detachAll h.wf
  held n c hc halive hpool := by
    refine (h.held n c hc halive hpool).begin.setAgents rfl rfl (fun _ hm => List.mem_append_left _ hm) rfl
      fun a x hlookup hn => ?_
    have hentry : (⟨a, x⟩ : (_ : ℕ) × ContainerHandle) ∈ s.agents.entries := AList.mem_lookup_iff.mp hlookup
    exact .detached (List.mem_append_right _ (List.mem_map.mpr ⟨_, hentry, hn⟩))
  drained := h.drained
  keyed a x hlookup := by
    rw [detachAll, AList.lookup_empty] at hlookup
    cases hlookup

theorem accounted_replenish (h : Accounted cfg s) (hs : replenish cfg s = some s') : Accounted cfg s' := by
  have hwf := wf_replenish h.wf hs
  unfold replenish at hs
  split at hs
  · rename_i pool hidle hpool
    split_ifs at hs
    · cases hs
      refine ⟨hwf, fun n c hc halive hwarm => ?_, h.drained, h.keyed⟩
      refine (h.held n c hc halive hwarm).setReplenish rfl rfl rfl rfl fun hloop => ?_
      rw [hidle] at hloop
      exact hloop.elim
    · cases hs
      exact h
  · cases hs

theorem accounted_ensurePool (h : Accounted cfg s) {now : String} {ok : Bool}
    (hkeeps : keeps cfg s (.ensurePool now ok) = true)
    (hs : ensurePool s now ok = some s') : Accounted cfg s' := by
  have hwf := wf_ensurePool h.wf hs
  unfold ensurePool at hs
  split at hs
  · rename_i e he
    obtain ⟨⟨made', r⟩, hgo, rfl⟩ := Option.map_eq_some_iff.mp hs
    rcases Ensure.go_cases hgo with ⟨rfl, rfl, rfl⟩ | ⟨e', rfl, rfl, -, hchecking⟩ | ⟨hcreating, -, rfl, rfl⟩ |
      ⟨i, hstarting, hfind, rfl, rfl⟩
    · -- it fails: no warm container has its name
      refine ⟨hwf, fun n c hc halive hpool => ?_, h.drained, h.keyed⟩
      refine (h.held n c hc halive hpool).setReplenish rfl rfl rfl rfl fun hloop => ?_
      rw [he] at hloop
      cases e with
      | checking spec => exact hloop.elim
      | creating spec => exact hloop.elim
      | starting spec =>
        have hnone : s.warm spec.name = false := by simpa [keeps, he] using hkeeps
        have hname : spec.name = c.name := hloop
        have hsome : s.warm c.name = true := warm_of_alive hc halive hpool
        rw [hname, hsome] at hnone
        cases hnone
    · refine ⟨hwf, fun n c hc halive hpool => ?_, h.drained, h.keyed⟩
      refine (h.held n c hc halive hpool).setReplenish rfl rfl rfl rfl fun hloop => ?_
      rw [he, hchecking] at hloop
      exact hloop.elim
    · -- it is created
      refine ⟨hwf, fun n c hc halive hpool => ?_, h.drained, h.keyed⟩
      dsimp only at hc
      rw [Lists.getElem?_concat] at hc
      split_ifs at hc
      · cases hc
        exact .creating rfl
      · refine (h.held n c hc halive hpool).setReplenish rfl rfl rfl rfl fun hloop => ?_
        rw [he, hcreating] at hloop
        exact hloop.elim
    · -- the handle leads to the container of the name
      refine ⟨hwf, fun n c hc halive hpool => ?_, h.drained, h.keyed⟩
      refine (h.held n c hc halive hpool).setReplenish rfl rfl rfl rfl fun hloop => ?_
      rw [he, hstarting] at hloop
      have hname : e.spec.name = c.name := hloop
      have hn := h.wf.unique.find hc halive
      rw [← hname, hfind] at hn
      exact .creating (Option.some.inj hn)
  · cases hs

theorem accounted_push (h : Accounted cfg s) {handle : ContainerHandle} (hpushing : s.replenish = .pushing handle)
    (hkeeps : s.drained = false) : Accounted cfg { s with available := s.available ++ [handle], replenish := .idle } where
  wf := wf_push h.wf hpushing
  held n c hc halive hpool := by
    refine (h.held n c hc halive hpool).transfer (fun x hx hn => .idle x (List.mem_append_left _ hx) hn) (fun hloop => ?_)
      (fun a x ha hn => .registered a x ha hn) (fun hm => .detached hm) fun i call hi hhas => .calling i call hi hhas
    rw [hpushing] at hloop
    exact .idle handle (List.mem_append_right _ (List.mem_singleton_self _)) hloop
  drained hdrained := by
    rw [hkeeps] at hdrained
    cases hdrained
  keyed := h.keyed

theorem Held.setMade (h : Held cfg s n name) {made : List Container} : Held cfg { s with made := made } n name :=
  h.setAvailable rfl rfl rfl rfl fun x hx hn => .idle x hx hn

/-! Calls that go on -/

section Call
variable {i : ℕ} {call : Call}

/-- A call that goes on has registered no agent. -/
theorem Accounted.keyed_ne (h : Accounted cfg s) (hi : s.calls[i]? = some call) (hphase : call.phase ≠ .finished) {a : ℕ}
    {handle : ContainerHandle} (hlookup : s.agents.lookup a = some handle) : a ≠ i := by
  obtain ⟨d, hd, hfinished⟩ := h.keyed a handle hlookup
  rintro rfl
  cases hi.symm.trans hd
  exact hphase hfinished

theorem Accounted.keyed_set (h : Accounted cfg s) (hi : s.calls[i]? = some call) (hphase : call.phase ≠ .finished)
    {call' : Call}
    {a : ℕ} {handle : ContainerHandle} (hlookup : s.agents.lookup a = some handle) :
    ∃ d, (s.calls.set i call')[a]? = some d ∧ d.phase = .finished := by
  obtain ⟨d, hd, hfinished⟩ := h.keyed a handle hlookup
  exact ⟨d, (List.getElem?_set_ne (h.keyed_ne hi hphase hlookup).symm).trans hd, hfinished⟩

/-- A call that has nothing goes on. -/
theorem accounted_goto (h : Accounted cfg s) (hi : s.calls[i]? = some call) (hphase : call.phase ≠ .finished)
    (hfree : ∀ n name, ¬ call.has cfg n name) {call' : Call} (hwf : Wf cfg { s with calls := s.calls.set i call' }) :
    Accounted cfg { s with calls := s.calls.set i call' } where
  wf := hwf
  held n c hc halive hpool := (h.held n c hc halive hpool).setCall hi fun hhas => absurd hhas (hfree n c.name)
  drained := h.drained
  keyed _ _ hlookup := h.keyed_set hi hphase hlookup

theorem ensured_eq (s : State) (i : ℕ) (call : Call) (made : List Container) (r : Ensured) :
    ∃ call', ensured s i call (made, r) = { s with made := made, calls := s.calls.set i call' } := by
  cases r with
  | going e => exact ⟨_, rfl⟩
  | failed => exact ⟨_, rfl⟩
  | returned handle =>
    unfold ensured
    dsimp only
    split
    · exact ⟨_, rfl⟩
    · exact ⟨_, rfl⟩

theorem accounted_ensured (h : Accounted cfg s) (hi : s.calls[i]? = some call) {e : Ensure} (he : call.phase = .ensuring e)
    {now : String} {ok : Bool} {made' : List Container} {r : Ensured} (hgo : e.go (.call i) now ok s.made = some (made', r))
    (hwf : Wf cfg (ensured s i call (made', r))) : Accounted cfg (ensured s i call (made', r)) := by
  -- what it creates is no warm container
  have hmade : ∀ (n : ℕ) (c : Container), made'[n]? = some c → c.maker = .pool → s.made[n]? = some c := by
    intro n c hc hpool
    rcases Ensure.go_cases hgo with ⟨rfl, -⟩ | ⟨_, rfl, -⟩ | ⟨-, -, rfl, -⟩ | ⟨_, -, -, rfl, -⟩
    · exact hc
    · exact hc
    · rcases Lists.getElem?_concat_cases hc with hold | rfl
      · exact hold
      · cases hpool
    · exact hc
  have hphase : call.phase ≠ .finished := by simp [he]
  obtain ⟨call', heq⟩ := ensured_eq s i call made' r
  rw [heq] at hwf ⊢
  refine ⟨hwf, fun n c hc halive hpool => ?_, h.drained, fun a x hlookup => h.keyed_set hi hphase hlookup⟩
  have hset : Held cfg { s with calls := s.calls.set i call' } n c.name :=
    (h.held n c (hmade n c hc hpool) halive hpool).setCall hi fun hhas => by
      rw [Call.has, he] at hhas
      exact hhas.elim
  exact hset.setMade

theorem accounted_dialed (h : Accounted cfg s) (hi : s.calls[i]? = some call) {handle : ContainerHandle}
    (hphase : call.phase = .dialing handle)
    (hwf : Wf cfg { s.goto i call .finished with agents := s.agents.insert i handle }) :
    Accounted cfg { s.goto i call .finished with agents := s.agents.insert i handle } := by
  have hnot : call.phase ≠ .finished := by simp [hphase]
  refine ⟨hwf, fun n c hc halive hpool => ?_, h.drained, fun a x hlookup => ?_⟩
  · refine (h.held n c hc halive hpool).transfer (fun x hx hn => .idle x hx hn) (fun hloop => .creating hloop)
      (fun a x ha hn => ?_) (fun hm => .detached hm) fun j d hj hd => ?_
    · exact .registered a x ((AList.lookup_insert_ne (h.keyed_ne hi hnot ha)).trans ha) hn
    · by_cases hji : j = i
      · -- its own agent
        subst hji
        cases hi.symm.trans hj
        rw [Call.has, hphase] at hd
        exact .registered j handle (AList.lookup_insert _) hd.2
      · exact .calling j d ((List.getElem?_set_ne (Ne.symm hji)).trans hj) hd
  · rcases Lists.lookup_of_insert hlookup with ⟨rfl, -⟩ | ⟨-, hold⟩
    · exact ⟨_, Lists.getElem?_set_self_of_some hi, rfl⟩
    · exact h.keyed_set hi hnot hold

theorem accounted_refused (h : Accounted cfg s) (hi : s.calls[i]? = some call) {handle : ContainerHandle}
    (hphase : call.phase = .dialing handle) {now : String} (hkeeps : keeps cfg s (.go i now false) = true)
    (hwf : Wf cfg (s.goto i call .finished)) : Accounted cfg (s.goto i call .finished) := by
  have hnot : call.phase ≠ .finished := by simp [hphase]
  refine ⟨hwf, fun n c hc halive hpool => ?_, h.drained, fun a x hlookup => h.keyed_set hi hnot hlookup⟩
  refine (h.held n c hc halive hpool).setCall hi fun hhas => ?_
  rw [Call.has, hphase] at hhas
  obtain ⟨⟨r, hop, hwarm⟩, rfl⟩ := hhas
  have hthere : s.warmAt handle.container = true := warmAt_of_alive hc halive hpool
  obtain ⟨op, phase, found, given⟩ := call
  subst hop hphase
  have hgone : s.warmAt handle.container = false := by simpa [keeps, hi, hwarm] using hkeeps
  cases hthere.symm.trans hgone

theorem accounted_drain (h : Accounted cfg s) (hi : s.calls[i]? = some call) (hphase : call.phase = .draining)
    (hwf : Wf cfg { s.goto i call (.destroying (s.available.map (·.name))) with available := [], drained := true }) :
    Accounted cfg { s.goto i call (.destroying (s.available.map (·.name))) with available := [], drained := true } := by
  have hnot : call.phase ≠ .finished := by simp [hphase]
  refine ⟨hwf, fun n c hc halive hpool => ?_, fun _ => rfl, fun a x hlookup => h.keyed_set hi hnot hlookup⟩
  refine (h.held n c hc halive hpool).transfer (fun x hx hn => ?_) (fun hloop => .creating hloop)
    (fun a x ha hn => .registered a x ha hn) (fun hm => .detached hm) fun j d hj hd => ?_
  · refine .calling i _ (Lists.getElem?_set_self_of_some hi) ?_
    exact List.mem_map.mpr ⟨x, hx, (name_of_named (h.wf.available x hx) hn hc).symm⟩
  · by_cases hji : j = i
    · subst hji
      cases hi.symm.trans hj
      rw [Call.has, hphase] at hd
      exact hd.elim
    · exact .calling j d ((List.getElem?_set_ne (Ne.symm hji)).trans hj) hd

theorem accounted_destroy (h : Accounted cfg s) (hi : s.calls[i]? = some call) {names : List String}
    (hphase : call.phase = .destroying (name :: names)) {now : String} {ok : Bool}
    (hkeeps : keeps cfg s (.go i now ok) = true)
    (hwf : Wf cfg { s.goto i call (.destroying names) with made := if ok then remove s.made name else s.made }) :
    Accounted cfg { s.goto i call (.destroying names) with made := if ok then remove s.made name else s.made } := by
  have hnot : call.phase ≠ .finished := by simp [hphase]
  refine ⟨hwf, fun n c hc halive hpool => ?_, h.drained, fun a x hlookup => h.keyed_set hi hnot hlookup⟩
  -- the container has been there, and under another name
  obtain ⟨c₀, hc₀, halive₀, hpool₀, hname, hother⟩ : ∃ c₀ :
    Container, s.made[n]? = some c₀ ∧ c₀.alive = true ∧ c₀.maker = .pool ∧
      c₀.name = c.name ∧ c₀.name ≠ name := by
    cases ok with
    | true =>
      obtain ⟨c₀, hc₀, rfl⟩ := remove_getElem? hc
      rw [Bool.and_eq_true, decide_eq_true_eq] at halive
      exact ⟨c₀, hc₀, halive.1, hpool, rfl, halive.2⟩
    | false =>
      refine ⟨c, hc, halive, hpool, rfl, fun heq => ?_⟩
      have hwarm := warm_of_alive hc halive hpool
      obtain ⟨op, phase, found, given⟩ := call
      subst hphase
      rw [heq] at hwarm
      have hnone : s.warm name = false := by
        cases op <;> simpa [keeps, hi] using hkeeps
      cases hwarm.symm.trans hnone
  have hset : Held cfg (s.goto i call (.destroying names)) n c₀.name :=
    (h.held n c₀ hc₀ halive₀ hpool₀).setCall hi fun hhas => by
      rw [Call.has, hphase] at hhas
      refine .calling i _ (Lists.getElem?_set_self_of_some hi) ?_
      exact (List.mem_cons.mp hhas).resolve_left hother
  rw [hname] at hset
  exact hset.setMade

end Call

theorem accounted_go (h : Accounted cfg s) {i : ℕ} {call : Call} (hi : s.calls[i]? = some call) {now : String} {ok : Bool}
    (hkeeps : keeps cfg s (.go i now ok) = true) (hs : go cfg s i call now ok = some s') : Accounted cfg s' := by
  have hwf := wf_go h.wf hi hs
  unfold go at hs
  split at hs
  · rename_i containerName hphase
    have hfree : ∀ n name, ¬ call.has cfg n name := by simp [Call.has, hphase]
    split_ifs at hs
    · cases hs
      exact accounted_goto h hi (by simp [hphase]) hfree hwf
    · cases hs
      exact accounted_goto h hi (by simp [hphase]) hfree hwf
  · rename_i e he
    obtain ⟨⟨made', r⟩, hgo, rfl⟩ := Option.map_eq_some_iff.mp hs
    exact accounted_ensured h hi he hgo hwf
  · rename_i containerName hphase
    have hfree : ∀ n name, ¬ call.has cfg n name := by simp [Call.has, hphase]
    split_ifs at hs
    · obtain ⟨c, -, rfl⟩ := Option.map_eq_some_iff.mp hs
      exact accounted_goto h hi (by simp [hphase]) hfree hwf
    · cases hs
      exact accounted_goto h hi (by simp [hphase]) hfree hwf
  · rename_i handle hphase
    cases ok with
    | true =>
      cases hs
      exact accounted_dialed h hi hphase hwf
    | false =>
      cases hs
      exact accounted_refused h hi hphase hkeeps hwf
  · rename_i hphase
    cases hs
    exact accounted_drain h hi hphase hwf
  · rename_i name names hphase
    cases hs
    exact accounted_destroy h hi hphase hkeeps hwf
  · rename_i hphase
    cases hs
    exact accounted_goto h hi (by simp [hphase]) (by simp [Call.has, hphase]) hwf
  · cases hs

/-- The process ends with nothing in its hands. -/
theorem accounted_restart (h : Accounted cfg s) (hkeeps : keeps cfg s .restart = true) : Accounted cfg (restart s) := by
  simp only [keeps, Bool.and_eq_true] at hkeeps
  obtain ⟨⟨⟨hdrained, hagents⟩, hidle⟩, hcalls⟩ := hkeeps
  refine ⟨wf_restart h.wf, fun n c hc halive hpool => ?_, (fun hd => by cases hd), fun a x hlookup => ?_⟩
  · refine (h.held n c hc halive hpool).transfer (fun x hx _ => ?_) (fun hloop => ?_) (fun a x ha _ => ?_)
      (fun hm => .detached hm)
      fun j d hj hd => ?_
    · rw [h.drained hdrained] at hx
      cases hx
    · cases hrep : s.replenish with
      | idle =>
        rw [hrep] at hloop
        exact hloop.elim
      | ensuring e =>
        rw [hrep] at hidle
        cases hidle
      | pushing x =>
        rw [hrep] at hidle
        cases hidle
    · have hentry : (⟨a, x⟩ : (_ : ℕ) × ContainerHandle) ∈ s.agents.entries := AList.mem_lookup_iff.mp ha
      rw [List.isEmpty_iff.mp hagents] at hentry
      cases hentry
    · have hfinished := List.all_eq_true.mp hcalls d (List.mem_of_getElem? hj)
      rw [Call.has] at hd
      split at hd
      · rename_i heq
        rw [heq] at hfinished
        cases hfinished
      · rename_i heq
        rw [heq] at hfinished
        cases hfinished
      · exact hd.elim
  · rw [restart, State.init, AList.lookup_empty] at hlookup
    cases hlookup

theorem accounted_step {a : Act} (h : Accounted cfg s) (hkeeps : keeps cfg s a = true) (hs : step cfg s a = some s') :
    Accounted cfg s' := by
  cases a with
  | spawn r =>
    cases hs
    exact accounted_spawn h r
  | attach containerName =>
    cases hs
    exact accounted_begin h
      (sound_of_ungiven (fun _ _ _ => Op.noConfusion) (fun _ => Phase.noConfusion) fun _ => Phase.noConfusion)
  | kill agentId =>
    cases hs
    exact accounted_kill h agentId
  | detach agentId =>
    cases hs
    exact accounted_detach h agentId
  | detachAll =>
    cases hs
    exact accounted_detachAll h
  | replenish => exact accounted_replenish h hs
  | ensurePool now ok => exact accounted_ensurePool h hkeeps hs
  | push =>
    simp only [step] at hs
    split at hs
    · rename_i handle hpushing
      cases hs
      exact accounted_push h hpushing (by simpa [keeps] using hkeeps)
    · cases hs
  | go i now ok =>
    obtain ⟨call, hi, hgo⟩ := Option.bind_eq_some_iff.mp hs
    exact accounted_go h hi hkeeps hgo
  | restart =>
    cases hs
    exact accounted_restart h hkeeps

theorem accounted_init (cfg : Config) (host : Host) : Accounted cfg (.init host) where
  wf := wf_init cfg host
  held n c hc _ hpool := by
    obtain ⟨p, -, rfl⟩ := List.mem_map.mp (List.mem_of_getElem? hc)
    cases hpool
  drained hdrained := by cases hdrained
  keyed a x hlookup := by
    rw [State.init, AList.lookup_empty] at hlookup
    cases hlookup

theorem noneLeft_of_accounted (h : Accounted cfg s) : NoneLeft s := by
  rintro hdrained ⟨hidle, hfinished⟩ n c hc halive hpool
  cases h.held n c hc halive hpool with
  | idle x hmem _ =>
    rw [h.drained hdrained] at hmem
    cases hmem
  | creating hloop =>
    rw [hidle] at hloop
    exact hloop.elim
  | registered a x hagent hn => exact Or.inl ⟨a, x, hagent, hn⟩
  | detached hmem => exact Or.inr hmem
  | calling j d hj hd =>
    rw [Call.has, hfinished d (List.mem_of_getElem? hj)] at hd
    exact hd.elim

/-- In every run in which nobody lets go of a warm container, each has someone who has it, and those there are
when everything is over after the drain are containers of agents. -/
theorem no_orphans_when_kept (cfg : Config) (host : Host) (acts : List Act) (s : State)
    (hkeeps : Runs.RunOk (step cfg) (fun s a => keeps cfg s a = true) (.init host) acts)
    (hrun : Runs.run (step cfg) (.init host) acts = some s) : NoOrphan cfg s ∧ NoneLeft s := by
  have haccounted : Accounted cfg s :=
    Runs.run_inv (Accounted cfg) (fun _ _ _ h hk hs => accounted_step h hk hs) (accounted_init cfg host) hkeeps hrun
  exact ⟨haccounted.held, noneLeft_of_accounted haccounted⟩

/-! Runs -/

/-- A spawn from the pool, and the end of the process. -/
def orderlyRun : List Act :=
  createOne ++ [.push, .spawn (plainSpawn "worker" ∅), .go 0 "today" true, .detachAll, .go 1 "today" true,
    .go 1 "today" true, .restart]

theorem no_orphans_when_kept_orderly : ∃ s : State,
    Runs.run (step onePooled) (.init ⟨[], List.nodup_nil⟩) orderlyRun = some s ∧ NoOrphan onePooled s ∧ NoneLeft s :=
  ⟨_, rfl, no_orphans_when_kept onePooled ⟨[], List.nodup_nil⟩ orderlyRun _ (by decide) rfl⟩

/-- After a spawn that has failed to connect to the container it took. -/
def refused : State :=
  ⟨[firstContainer], 1, [], .idle, ∅, [⟨.spawn (plainSpawn "worker" ∅), .finished, [firstHandle],
    some firstHandle⟩], [0], [], false⟩

/-- After the pool was drained while a container was on its way there. -/
def late : State := ⟨[firstContainer], 1, [firstHandle], .idle, ∅, [⟨.detachAll, .finished, [], none⟩], [0], [],
      true⟩

theorem orphan_refused : ¬ NoOrphan onePooled refused := by
  intro h
  cases h 0 firstContainer rfl rfl rfl with
  | idle x hmem _ => cases hmem
  | creating hloop => exact hloop.elim
  | registered a x hagent _ => cases hagent
  | detached hmem => cases hmem
  | calling i call hcall hhas =>
    obtain rfl := List.mem_singleton.mp (List.mem_of_getElem? hcall)
    exact hhas.elim

theorem left_late : ¬ NoneLeft late := by
  intro h
  have hquiet : Quiet late := ⟨rfl, fun call hcall => by rw [List.mem_singleton.mp hcall]⟩
  rcases h rfl hquiet 0 firstContainer rfl rfl rfl with ⟨a, x, hagent, -⟩ | hmem
  · cases hagent
  · cases hmem

/-- A spawn that fails to connect loses the container it took, and one that is created while the pool is drained
stays in it; both in one process. -/
theorem refused_and_late_left :
    (¬ ∀ (cfg : Config) (host : Host) (acts : List Act) (s : State), (∀ a ∈ acts, a ≠ .restart) →
        Runs.run (step cfg) (.init host) acts = some s → NoOrphan cfg s) ∧
      ¬ ∀ (cfg : Config) (host : Host) (acts : List Act) (s : State), (∀ a ∈ acts, a ≠ .restart) →
        Runs.run (step cfg) (.init host) acts = some s → NoneLeft s := by
  refine ⟨fun hall => orphan_refused ?_, fun hall => left_late ?_⟩
  · exact hall onePooled ⟨[], List.nodup_nil⟩
      (createOne ++ [.push, .spawn (plainSpawn "worker" ∅), .go 0 "today" false]) _
      (by simp [createOne]) rfl
  · exact hall onePooled ⟨[], List.nodup_nil⟩
      (createOne ++ [.detachAll, .go 0 "today" true, .go 0 "today" true, .push]) _
      (by simp [createOne]) rfl

end Nexal.Containers
