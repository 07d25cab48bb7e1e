import Nexal.Sanity.ProxyRegistry

/-! The HTTP proxy registry over any sequence of its operations: the two maps stay inverse to each
other, and a token resolves exactly while the registration it was made for is the last word on its key. -/

namespace Nexal.Gateway

inductive ProxyOp where
  | register (e : ProxyEntry)
  | unregister (agentId name : String)
  | cleanupForAgent (agentId : String)

namespace ProxyOp

def apply (r : ProxyRegistry) : ProxyOp → ProxyRegistry
  | .register e => r.register e.agentId e.name e.upstreamUrl e.headers e.token
  | .unregister agentId name => (r.unregister agentId name).1
  | .cleanupForAgent agentId => r.cleanupForAgent agentId

def token : ProxyOp → Option String
  | .register e => some e.token
  | .unregister _ _ | .cleanupForAgent _ => none

def concerns (key : String × String) : ProxyOp → Bool
  | .register e => e.key = key
  | .unregister agentId name => (agentId, name) = key
  | .cleanupForAgent agentId => key.1 = agentId

def entry : ProxyOp → Option ProxyEntry
  | .register e => some e
  | .unregister _ _ | .cleanupForAgent _ => none

end ProxyOp

def runOps (ops : List ProxyOp) : ProxyRegistry := ops.foldl ProxyOp.apply .new

def latest (ops : List ProxyOp) : Registrations := fun key => (ops.filter (·.concerns key)).getLast?.bind ProxyOp.entry

theorem latest_concat (ops : List ProxyOp) (op : ProxyOp) (key : String × String) :
    latest (ops ++ [op]) key = if op.concerns key then op.entry else latest ops key := by
  rw [latest, List.filter_append, List.filter_singleton]
  cases hop : op.concerns key with
  | true => simp
  | false => simp [latest]

theorem latest_mem {ops : List ProxyOp} {key : String × String} {e : ProxyEntry} (h : latest ops key = some e) :
    .register e ∈ ops ∧ e.key = key := by
  obtain ⟨op, hop, he⟩ := Option.bind_eq_some_iff.mp h
  obtain ⟨hmem, hconcerns⟩ := List.mem_filter.mp (List.mem_of_getLast? hop)
  cases op with
  | register e' =>
    cases he
    exact ⟨hmem, of_decide_eq_true hconcerns⟩
  | unregister agentId name => cases he
  | cleanupForAgent agentId => cases he

theorem runOps_concat (ops : List ProxyOp) (op : ProxyOp) : runOps (ops ++ [op]) = op.apply (runOps ops) := by
  rw [runOps, List.foldl_append]
  rfl

/-- One operation, against what stands under each key. -/
theorem represents_apply {r : ProxyRegistry} {m : Registrations} (h : r.Represents m) (op : ProxyOp)
    (hfresh : ∀ key old, m key = some old → op.token ≠ some old.token) :
    (op.apply r).Represents fun key => if op.concerns key then op.entry else m key := by
  cases op with
  | register e =>
    refine (congrArg (ProxyRegistry.Represents _) (funext fun key => ?_)).mp
      (h.register e fun key old hold htoken => hfresh key old hold (congrArg some htoken.symm))
    simp [Function.update_apply, ProxyOp.concerns, ProxyOp.entry, eq_comm]
  | unregister agentId name =>
    refine (congrArg (ProxyRegistry.Represents _) (funext fun key => ?_)).mp (h.remove (agentId, name))
    simp [Function.update_apply, ProxyOp.concerns, ProxyOp.entry, eq_comm]
  | cleanupForAgent agentId =>
    refine (congrArg (ProxyRegistry.Represents _) (funext fun key => ?_)).mp (h.cleanup agentId)
    simp [ProxyOp.concerns, ProxyOp.entry]

/-- After any operations the registry stands for what the last one on each key has left. -/
theorem represents_runOps (ops : List ProxyOp) (hfresh : (ops.filterMap ProxyOp.token).Nodup) :
    (runOps ops).Represents (latest ops) := by
  induction ops using List.reverseRecOn with
  | nil => exact ProxyRegistry.represents_new
  | append_singleton ops op ih =>
    rw [List.filterMap_append] at hfresh
    obtain ⟨hnodup, -, hdisjoint⟩ := List.nodup_append.mp hfresh
    rw [runOps_concat, funext (latest_concat ops op)]
    refine represents_apply (ih hnodup) op fun key old hold htoken => ?_
    have hmem : old.token ∈ ops.filterMap ProxyOp.token := List.mem_filterMap.mpr ⟨_, (latest_mem hold).1, rfl⟩
    refine hdisjoint old.token hmem old.token ?_ rfl
    simp [htoken]

/-- What stands under a key is decided after the first operation on it. -/
theorem latest_append {before after : List ProxyOp} {op : ProxyOp} {key : String × String} (hop : op ∈ after)
    (hconcerns : op.concerns key = true) : latest (before ++ after) key = latest after key := by
  have hmem : op ∈ after.filter (·.concerns key) := List.mem_filter.mpr ⟨hop, hconcerns⟩
  have hne : after.filter (·.concerns key) ≠ [] := List.ne_nil_of_mem hmem
  rw [latest, latest, List.filter_append, List.getLast?_append_of_ne_nil _ hne]

/-- A later operation on the key of a registration has replaced or removed it. -/
theorem not_latest {before after : List ProxyOp} {e e' : ProxyEntry} {later : ProxyOp} {key : String × String}
    (hfresh : ((before ++ .register e :: after).filterMap ProxyOp.token).Nodup) (hlater : later ∈ after)
    (hconcerns : later.concerns e.key = true) (h : latest (before ++ .register e :: after) key = some e') :
    e'.token ≠ e.token := by
  intro htoken
  have hsplit : before ++ .register e :: after = (before ++ [.register e]) ++ after := by simp
  rw [hsplit] at h hfresh
  rw [List.filterMap_append, List.filterMap_append] at hfresh
  obtain ⟨hbefore, -, hafter⟩ := List.nodup_append.mp hfresh
  obtain ⟨-, -, hfirst⟩ := List.nodup_append.mp hbefore
  have hnotAfter : .register e' ∉ after := by
    intro hmem
    exact hafter e.token (by simp [ProxyOp.token]) e'.token (List.mem_filterMap.mpr ⟨_, hmem, rfl⟩) htoken.symm
  by_cases hkey : key = e.key
  · rw [hkey, latest_append hlater hconcerns] at h
    exact hnotAfter (latest_mem h).1
  · obtain ⟨hmem, hkey'⟩ := latest_mem h
    rcases List.mem_append.mp hmem with hmem | hmem
    · rcases List.mem_append.mp hmem with hold | hnew
      · exact hfirst e'.token (List.mem_filterMap.mpr ⟨_, hold, rfl⟩) e.token (by simp [ProxyOp.token]) htoken
      · cases List.mem_singleton.mp hnew
        exact hkey hkey'.symm
    · exact hnotAfter hmem

def ProxyRegistry.CleansUp (r : ProxyRegistry) (agentId : String) : Prop :=
  (∀ token e, (r.cleanupForAgent agentId).lookup token = some e ↔ r.lookup token = some e ∧ e.agentId ≠ agentId) ∧
    (∀ key token, (r.cleanupForAgent agentId).index.lookup key = some token ↔
      r.index.lookup key = some token ∧ key.1 ≠ agentId) ∧
    r.cleanupCount agentId = {token | ∃ e, r.lookup token = some e ∧ e.agentId = agentId}.ncard

variable {r : ProxyRegistry} {m : Registrations}

/-- Keys and tokens of an agent's entries correspond. -/
theorem cleanupCount_tokens (h : r.Represents m) (agentId : String) :
    r.cleanupCount agentId = {token | ∃ e, r.lookup token = some e ∧ e.agentId = agentId}.ncard := by
  rw [h.cleanupCount_eq]
  refine Set.ncard_congr (fun key _ => ((m key).map (·.token)).getD "") ?_ ?_ ?_
  · rintro key ⟨hagent, hsome⟩
    obtain ⟨e, he⟩ := Option.isSome_iff_exists.mp hsome
    have hkey := h.key key e he
    refine ⟨e, ?_, (congrArg Prod.fst hkey).trans hagent⟩
    rw [he]
    exact (h.byToken e.token e).mpr ⟨hkey ▸ he, rfl⟩
  · rintro key key' ⟨-, hsome⟩ ⟨-, hsome'⟩ htoken
    obtain ⟨e, he⟩ := Option.isSome_iff_exists.mp hsome
    obtain ⟨e', he'⟩ := Option.isSome_iff_exists.mp hsome'
    rw [he, he'] at htoken
    exact h.token_unique he he' htoken
  · rintro token ⟨e, hlookup, hagent⟩
    obtain ⟨he, htoken⟩ := (h.byToken token e).mp hlookup
    refine ⟨e.key, ⟨hagent, by rw [he]; rfl⟩, ?_⟩
    rw [he]
    exact htoken

theorem cleansUp_of_represents (h : r.Represents m) (agentId : String) : r.CleansUp agentId := by
  have hafter := h.cleanup agentId
  refine ⟨fun token e => ?_, fun key token => ?_, cleanupCount_tokens h agentId⟩
  · rw [ProxyRegistry.lookup, ProxyRegistry.lookup, hafter.byToken, h.byToken]
    by_cases hagent : e.agentId = agentId
    · simp [ProxyEntry.key, hagent]
    · simp [ProxyEntry.key, hagent]
  · rw [hafter.index, h.index]
    by_cases hagent : key.1 = agentId
    · simp [hagent]
    · simp [hagent]

/-- After any operations with distinct tokens: the maps are inverse to each other, a token resolves exactly
to the latest registration of a key that nothing has removed, a token that was replaced or removed does not
resolve, and a cleanup takes out the agent's entries and counts them. -/
theorem proxyRegistry_represents (ops : List ProxyOp) (hfresh : (ops.filterMap ProxyOp.token).Nodup) :
    (runOps ops).Inverse ∧
      (∀ token e, (runOps ops).lookup token = some e ↔ ∃ key, latest ops key = some e ∧ e.token = token) ∧
      (∀ before e after later, ops = before ++ .register e :: after → later ∈ after → later.concerns e.key = true →
        (runOps ops).lookup e.token = none) ∧
      ∀ agentId, (runOps ops).CleansUp agentId := by
  have h := represents_runOps ops hfresh
  have hlookup : ∀ token e, (runOps ops).lookup token = some e ↔
    ∃ key, latest ops key = some e ∧ e.token = token := by
    intro token e
    rw [ProxyRegistry.lookup, h.byToken]
    constructor
    · rintro ⟨he, htoken⟩
      exact ⟨e.key, he, htoken⟩
    · rintro ⟨key, he, htoken⟩
      exact ⟨h.key key e he ▸ he, htoken⟩
  refine ⟨ProxyRegistry.inverse_of_represents h, hlookup, ?_, cleansUp_of_represents h⟩
  intro before e after later hops hlater hconcerns
  cases hresult : (runOps ops).lookup e.token with
  | none => rfl
  | some e' =>
    obtain ⟨key, he', htoken⟩ := (hlookup e.token e').mp hresult
    subst hops
    exact absurd htoken (not_latest hfresh hlater hconcerns he')

/-- A proxy is replaced, another one is added, and the agent is cleaned up. -/
theorem proxyRegistry_represents_replaced :
    let ops : List ProxyOp := [.register ⟨"a", "jina", "u", [], "t1"⟩, .register ⟨"a", "jina", "v", [], "t2"⟩,
      .register ⟨"b", "jina", "u", [], "t3"⟩, .cleanupForAgent "a"]
    (runOps ops).Inverse ∧
      (∀ token e, (runOps ops).lookup token = some e ↔ ∃ key, latest ops key = some e ∧ e.token = token) ∧
      (∀ before e after later, ops = before ++ .register e :: after → later ∈ after → later.concerns e.key = true →
        (runOps ops).lookup e.token = none) ∧
      ∀ agentId, (runOps ops).CleansUp agentId :=
  proxyRegistry_represents _ (by decide)

end Nexal.Gateway
