import Nexal.Lib.Lists
import Nexal.Spec.AgentRegistry

/-! What the operations on the proxies do to what is under a key, and which requests in flight may
still take an entry back. -/

namespace Nexal.Gateway

open Runs

/-! HTTP proxies -/

namespace ProxyRegistry

/-- Every entry is found under the token of its key. -/
def Consistent (r : ProxyRegistry) : Prop :=
  ∀ token entry, r.byToken.lookup token = some entry → r.index.lookup (entry.agentId, entry.name) = some token

variable {r : ProxyRegistry}

theorem consistent_new : Consistent new := by
  intro token entry h
  cases h

theorem index_remove (r : ProxyRegistry) (key key' : String × String) :
    (r.remove key).index.lookup key' = if key' = key then none else r.index.lookup key' := by
  rw [remove]
  split
  · by_cases hkey : key' = key
    · rw [if_pos hkey, hkey, AList.lookup_erase]
    · rw [if_neg hkey, AList.lookup_erase_ne hkey]
  · rename_i hnone
    by_cases hkey : key' = key
    · rw [if_pos hkey, hkey, hnone]
    · rw [if_neg hkey]

theorem consistent_remove (h : r.Consistent) (key : String × String) : (r.remove key).Consistent := by
  intro token entry hlookup
  rw [index_remove]
  rw [remove] at hlookup
  split at hlookup
  · rename_i old hold
    by_cases htoken : token = old
    · rw [htoken, AList.lookup_erase] at hlookup
      cases hlookup
    · rw [AList.lookup_erase_ne htoken] at hlookup
      have hindex := h token entry hlookup
      rw [if_neg, hindex]
      intro hkey
      rw [hkey, hold] at hindex
      exact htoken (Option.some.inj hindex).symm
  · rename_i hnone
    have hindex := h token entry hlookup
    rw [if_neg, hindex]
    intro hkey
    rw [hkey, hnone] at hindex
    cases hindex

theorem index_register (r : ProxyRegistry) (agentId name upstreamUrl : String) (headers : List (String × String))
    (token : String) (key : String × String) :
    (r.register agentId name upstreamUrl headers token).index.lookup key =
      if key = (agentId, name) then some token else r.index.lookup key := by
  simp only [register]
  by_cases hkey : key = (agentId, name)
  · rw [if_pos hkey, hkey, AList.lookup_insert]
  · rw [if_neg hkey, AList.lookup_insert_ne hkey, index_remove, if_neg hkey]

theorem consistent_register (h : r.Consistent) (agentId name upstreamUrl : String) (headers : List (String × String))
    (token : String) : (r.register agentId name upstreamUrl headers token).Consistent := by
  intro token' entry hlookup
  rw [index_register]
  simp only [register] at hlookup
  by_cases htoken : token' = token
  · rw [htoken, AList.lookup_insert] at hlookup
    cases hlookup
    rw [if_pos rfl, htoken]
  · rw [AList.lookup_insert_ne htoken] at hlookup
    have hindex := consistent_remove h (agentId, name) token' entry hlookup
    rw [index_remove] at hindex
    split_ifs at hindex with hkey
    rw [if_neg hkey, hindex]

theorem foldl_remove (keys : List (String × String)) (h : r.Consistent) :
    (keys.foldl remove r).Consistent ∧
      ∀ key, (keys.foldl remove r).index.lookup key = if key ∈ keys then none else r.index.lookup key := by
  induction keys generalizing r with
  | nil => exact ⟨h, fun key => by simp⟩
  | cons k keys ih =>
    obtain ⟨hcons, hindex⟩ := ih (consistent_remove h k)
    refine ⟨hcons, fun key => ?_⟩
    rw [List.foldl_cons, hindex, index_remove]
    by_cases hkey : key = k
    · simp [hkey]
    · simp [hkey]

/-- The cleanup leaves nothing of the agent and everything of the others. -/
theorem cleanup_spec (agentId : String) (h : r.Consistent) :
    (r.cleanupForAgent agentId).Consistent ∧
      ∀ key, (r.cleanupForAgent agentId).index.lookup key = if key.1 = agentId then none else r.index.lookup key := by
  obtain ⟨hcons, hindex⟩ := foldl_remove (r.index.keys.filter (·.1 = agentId)) h
  refine ⟨hcons, fun key => (hindex key).trans ?_⟩
  by_cases hkey : key.1 = agentId
  · cases hlookup : r.index.lookup key with
    | none => simp
    | some token =>
      have hmem : key ∈ r.index.keys :=
        AList.mem_keys.mp (AList.lookup_isSome.mp (by rw [hlookup, Option.isSome_some]))
      rw [if_pos hkey, if_pos (List.mem_filter.mpr ⟨hmem, decide_eq_true hkey⟩)]
  · rw [if_neg hkey, if_neg]
    intro hmem
    exact hkey (of_decide_eq_true (List.mem_filter.mp hmem).2)

end ProxyRegistry

/-! TCP proxies -/

namespace TcpProxyRegistry

def Owned (r : TcpProxyRegistry) (i : ℕ) (l : Listener) : Prop :=
  ∃ listenAddr, r.inner.lookup (l.agentId, l.name) = some ⟨listenAddr, i⟩

variable {r : TcpProxyRegistry}

theorem inner_remove (r : TcpProxyRegistry) (key key' : String × String) :
    (r.remove key).inner.lookup key' = if key' = key then none else r.inner.lookup key' := by
  rw [remove]
  split
  · by_cases hkey : key' = key
    · rw [if_pos hkey, hkey]
      exact AList.lookup_erase key _
    · rw [if_neg hkey]
      exact AList.lookup_erase_ne hkey
  · rename_i hnone
    by_cases hkey : key' = key
    · rw [if_pos hkey, hkey, hnone]
    · rw [if_neg hkey]

/-- What still runs after one listener was stopped is another one. -/
theorem stop_running {i j : ℕ} {l : Listener} (h : (r.stop i).listeners[j]? = some l) (hrun : l.stopped = false) :
    j ≠ i ∧ r.listeners[j]? = some l := by
  rw [stop, List.getElem?_modify] at h
  obtain ⟨old, hold, hmap⟩ := Option.map_eq_some_iff.mp h
  split_ifs at hmap with hij
  · rw [← hmap] at hrun
    cases hrun
  · exact ⟨fun hji => hij hji.symm, hmap ▸ hold⟩

/-- What still runs after a key was taken out ran before, and keeps its entry. -/
theorem remove_running {key : String × String} {i : ℕ} {l : Listener} (h : (r.remove key).listeners[i]? = some l)
    (hrun : l.stopped = false) : r.listeners[i]? = some l ∧ (r.Owned i l → (r.remove key).Owned i l) := by
  have hold : r.listeners[i]? = some l ∧ ∀ listenAddr, r.inner.lookup key ≠ some ⟨listenAddr, i⟩ := by
    rw [remove] at h
    split at h
    · rename_i entry hentry
      obtain ⟨hne, hi⟩ := stop_running h hrun
      refine ⟨hi, fun listenAddr hlookup => ?_⟩
      rw [hentry] at hlookup
      cases hlookup
      exact hne rfl
    · rename_i hnone
      exact ⟨h, fun listenAddr hlookup => by rw [hnone] at hlookup; cases hlookup⟩
  refine ⟨hold.1, fun howned => ?_⟩
  obtain ⟨listenAddr, hlookup⟩ := howned
  refine ⟨listenAddr, ?_⟩
  rw [inner_remove, if_neg, hlookup]
  intro hkey
  rw [hkey] at hlookup
  exact hold.2 listenAddr hlookup

def Keeps (r r' : TcpProxyRegistry) : Prop :=
  ∀ (i : ℕ) (l : Listener), r.listeners[i]? = some l →
    ∃ l', r'.listeners[i]? = some l' ∧ l'.agentId = l.agentId ∧ l'.name = l.name

theorem keeps_refl (r : TcpProxyRegistry) : r.Keeps r := fun _ l hl => ⟨l, hl, rfl, rfl⟩

theorem Keeps.trans {r r' r'' : TcpProxyRegistry} (h : r.Keeps r') (h' : r'.Keeps r'') : r.Keeps r'' := by
  intro i l hl
  obtain ⟨l', hl', hagent, hname⟩ := h i l hl
  obtain ⟨l'', hl'', hagent', hname'⟩ := h' i l' hl'
  exact ⟨l'', hl'', hagent'.trans hagent, hname'.trans hname⟩

theorem keeps_stop (r : TcpProxyRegistry) (j : ℕ) : r.Keeps (r.stop j) := by
  intro i l hl
  refine ⟨if j = i then { l with stopped := true } else l, ?_, ?_, ?_⟩
  · rw [stop, List.getElem?_modify, hl]
    rfl
  · split_ifs <;> rfl
  · split_ifs <;> rfl

theorem keeps_remove (r : TcpProxyRegistry) (key : String × String) : r.Keeps (r.remove key) := by
  rw [remove]
  split
  · exact keeps_stop r _
  · exact keeps_refl r

theorem keeps_cleanup (r : TcpProxyRegistry) (agentId : String) : r.Keeps (r.cleanupForAgent agentId) := by
  have hfold : ∀ (keys : List (String × String)) (r : TcpProxyRegistry), r.Keeps (keys.foldl remove r) := by
    intro keys
    induction keys with
    | nil => exact keeps_refl
    | cons k keys ih => exact fun r => (keeps_remove r k).trans (ih (r.remove k))
  exact hfold _ r

theorem foldl_remove (keys : List (String × String)) (r : TcpProxyRegistry) :
    (∀ key, (keys.foldl remove r).inner.lookup key = if key ∈ keys then none else r.inner.lookup key) ∧
      ∀ (i : ℕ) (l : Listener), (keys.foldl remove r).listeners[i]? = some l → l.stopped = false →
        r.listeners[i]? = some l ∧ (r.Owned i l → (keys.foldl remove r).Owned i l) := by
  induction keys generalizing r with
  | nil => exact ⟨fun key => by simp, fun i l hi _ => ⟨hi, id⟩⟩
  | cons k keys ih =>
    obtain ⟨hinner, hlisteners⟩ := ih (r.remove k)
    refine ⟨fun key => ?_, fun i l hi hrun => ?_⟩
    · rw [List.foldl_cons, hinner, inner_remove]
      by_cases hkey : key = k
      · simp [hkey]
      · simp [hkey]
    · obtain ⟨hmid, howned⟩ := hlisteners i l hi hrun
      obtain ⟨hfirst, howned'⟩ := remove_running hmid hrun
      exact ⟨hfirst, fun h => howned (howned' h)⟩

theorem cleanup_spec (agentId : String) (r : TcpProxyRegistry) :
    (∀ key, (r.cleanupForAgent agentId).inner.lookup key = if key.1 = agentId then none else r.inner.lookup key) ∧
      ∀ (i : ℕ) (l : Listener), (r.cleanupForAgent agentId).listeners[i]? = some l → l.stopped = false →
        r.listeners[i]? = some l ∧ (r.Owned i l → (r.cleanupForAgent agentId).Owned i l) := by
  obtain ⟨hinner, hlisteners⟩ := foldl_remove (r.inner.keys.filter (·.1 = agentId)) r
  refine ⟨fun key => (hinner key).trans ?_, hlisteners⟩
  by_cases hkey : key.1 = agentId
  · cases hlookup : r.inner.lookup key with
    | none => simp
    | some entry =>
      have hmem : key ∈ r.inner.keys :=
        AList.mem_keys.mp (AList.lookup_isSome.mp (by rw [hlookup, Option.isSome_some]))
      rw [if_pos hkey, if_pos (List.mem_filter.mpr ⟨hmem, decide_eq_true hkey⟩)]
  · rw [if_neg hkey, if_neg]
    intro hmem
    exact hkey (of_decide_eq_true (List.mem_filter.mp hmem).2)

end TcpProxyRegistry

/-! Requests in flight -/

/-- What is left is to ask the agent and to take the key back if it refuses, or to take it back at once. -/
def Dispatch.retracts (key : String × String) : Dispatch → Prop
  | .op (.invoke _ _ _) next => ∀ err, ∃ after, next (.error err) = .op (.unregisterProxy key.1 key.2) after
  | .op (.unregisterProxy agentId name) _ => (agentId, name) = key
  | _ => False

def Op.followed : (o : Op) → (o.Answer → Dispatch) → Prop
  | .registerProxy agentId name _ _ => fun next => ∀ token : String, (next token).retracts (agentId, name)
  | _ => fun _ => True

def Dispatch.disciplined : Dispatch → Prop
  | .ret _ => True
  | .op o next => o.followed next ∧ ∀ answer, (next answer).disciplined

def Request.program : Request → Dispatch
  | .doing o _ next => .op o next
  | .done result => .ret result

@[simp] theorem program_start (d : Dispatch) : (Request.start d).program = d := by
  cases d with
  | ret result => rfl
  | op o next => rfl

def Request.cleansProxies (agentId : String) : Request → Prop
  | .doing o (.cleaningProxies _) _ => o = .kill agentId
  | _ => False

def Request.cleansTcpProxies (agentId : String) : Request → Prop
  | .doing o (.cleaningProxies _) _ | .doing o (.cleaningTcpProxies _) _ => o = .kill agentId
  | _ => False

/-- The request may still take the HTTP entry back. -/
def Request.covers (key : String × String) (r : Request) : Prop := r.cleansProxies key.1 ∨ r.program.retracts key

def Request.enters (i : ℕ) (l : Listener) : Request → Prop
  | .doing o (.listening _ listener) _ => listener = i ∧
    ∃ upstreamAddr, o = .registerStreamProxy l.agentId l.name upstreamAddr
  | _ => False

def AgentRegistry.Present (g : AgentRegistry) (agentId : String) : Prop := (g.inner.lookup agentId).isSome

structure RegistryInv (s : GatewayState) : Prop where
  consistent : s.registry.proxies.Consistent
  proxies : ∀ key token, s.registry.proxies.index.lookup key = some token →
    s.registry.Present key.1 ∨ ∃ r ∈ s.requests, r.covers key
  tcpProxies : ∀ key entry, s.registry.tcpProxies.inner.lookup key = some entry →
    s.registry.Present key.1 ∨ ∃ r ∈ s.requests, r.cleansTcpProxies key.1
  listeners : ∀ (i : ℕ) (l : Listener), s.registry.tcpProxies.listeners[i]? = some l → l.stopped = false →
    s.registry.tcpProxies.Owned i l ∨ ∃ r ∈ s.requests, r.enters i l
  listening : ∀ (agentId name upstreamAddr listenAddr : String) (i : ℕ) next,
    .doing (.registerStreamProxy agentId name upstreamAddr) (.listening listenAddr i) next ∈ s.requests →
      ∃ l, s.registry.tcpProxies.listeners[i]? = some l ∧ l.agentId = agentId ∧ l.name = name
  disciplined : ∀ r ∈ s.requests, r.program.disciplined

theorem disciplined_withAgent {agentId : String} {next : AgentEntry → Dispatch} (h : ∀ e, (next e).disciplined) :
    (withAgent agentId next).disciplined := by
  refine ⟨trivial, fun answer => ?_⟩
  cases answer with
  | none => trivial
  | some e => exact h e

theorem disciplined_withParams {α : Type} {parsed : Except String α} {next : α → Dispatch}
    (h : ∀ p, (next p).disciplined) : (withParams parsed next).disciplined := by
  cases parsed with
  | error err => trivial
  | ok p => exact h p

theorem disciplined_registerProxy (base : String) (p : RegisterProxyParams) :
    (dispatchRegisterProxy base p).disciplined := by
  refine disciplined_withAgent fun agent => ⟨fun token err => ⟨_, rfl⟩, fun token => ⟨trivial, fun answer => ?_⟩⟩
  cases answer with
  | ok value => trivial
  | error err => exact ⟨trivial, fun _ => trivial⟩

theorem disciplined_unregisterProxy (p : UnregisterParams) : (dispatchUnregisterProxy p).disciplined := by
  refine ⟨trivial, fun answer => ?_⟩
  cases answer with
  | none => exact ⟨trivial, fun _ => trivial⟩
  | some agent => exact ⟨trivial, fun _ => ⟨trivial, fun _ => trivial⟩⟩

theorem disciplined_registerStreamProxy (p : RegisterStreamProxyParams) :
    (dispatchRegisterStreamProxy p).disciplined := by
  refine disciplined_withAgent fun agent => ?_
  split
  · trivial
  · refine ⟨trivial, fun answer => ?_⟩
    cases answer with
    | ok listenAddr => trivial
    | error err => trivial

/-- Every request of the gateway asks the agent after it has registered a proxy. -/
theorem disciplined_dispatch {codec : Codec} {base : String} {req : JsonRpcRequest} {d : Dispatch}
    (h : dispatch codec base req = .program d) : d.disciplined := by
  simp only [dispatch] at h
  split at h
  · split at h
    · cases h
    · cases h
      trivial
  all_goals cases h
  · exact disciplined_withParams fun p => ⟨trivial, fun _ => trivial⟩
  · exact disciplined_withParams fun p => ⟨trivial, fun _ => trivial⟩
  · exact disciplined_withParams fun p => ⟨trivial, fun _ => trivial⟩
  · exact disciplined_withParams fun p => ⟨trivial, fun _ => trivial⟩
  · exact ⟨trivial, fun _ => trivial⟩
  · exact disciplined_withParams fun p => disciplined_withAgent fun agent => ⟨trivial, fun _ => trivial⟩
  · exact disciplined_withParams (disciplined_registerProxy base)
  · exact disciplined_withParams disciplined_unregisterProxy
  · exact disciplined_withParams disciplined_registerStreamProxy
  · exact disciplined_withParams fun p => ⟨trivial, fun _ => trivial⟩
  · trivial

end Nexal.Gateway
