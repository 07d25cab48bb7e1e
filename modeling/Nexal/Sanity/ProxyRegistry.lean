import Mathlib.Data.Set.Card
import Nexal.Sanity.AgentRegistry

/-! What the two maps of the HTTP proxy registry stand for: one registration for each key. -/

namespace Nexal.Gateway

abbrev Registrations := String × String → Option ProxyEntry

def ProxyEntry.key (e : ProxyEntry) : String × String := (e.agentId, e.name)

namespace ProxyRegistry

structure Represents (r : ProxyRegistry) (m : Registrations) : Prop where
  index : ∀ key, r.index.lookup key = (m key).map (·.token)
  byToken : ∀ token e, r.byToken.lookup token = some e ↔ m e.key = some e ∧ e.token = token
  key : ∀ key e, m key = some e → e.key = key

variable {r r' : ProxyRegistry} {m : Registrations}

theorem represents_new : Represents new fun _ => none where
  index _ := rfl
  byToken _ _ := by simp [new]
  key _ _ h := by cases h

theorem Represents.token_unique (h : Represents r m) {key key' : String × String} {e e' : ProxyEntry}
    (he : m key = some e) (he' : m key' = some e') (htoken : e.token = e'.token) : key = key' := by
  have hkey := h.key key e he
  have hkey' := h.key key' e' he'
  have hlookup := (h.byToken e.token e).mpr ⟨hkey ▸ he, rfl⟩
  have hlookup' := (h.byToken e.token e').mpr ⟨hkey' ▸ he', htoken.symm⟩
  rw [hlookup] at hlookup'
  rw [← hkey, ← hkey', Option.some.inj hlookup']

theorem Represents.unique {m' : Registrations} (h : Represents r m) (h' : Represents r m') : m = m' := by
  have hsub : ∀ {m m' : Registrations}, Represents r m → Represents r m' → ∀ key e, m key = some e →
    m' key = some e := by
    intro m m' h h' key e he
    have hkey := h.key key e he
    have hlookup := (h.byToken e.token e).mpr ⟨hkey ▸ he, rfl⟩
    exact hkey ▸ ((h'.byToken e.token e).mp hlookup).1
  exact funext fun key => Option.ext fun e => ⟨hsub h h' key e, hsub h' h key e⟩

def Inverse (r : ProxyRegistry) : Prop :=
  (∀ key token, r.index.lookup key = some token →
    ∃ e, r.byToken.lookup token = some e ∧ e.key = key ∧ e.token = token) ∧
    ∀ token e, r.byToken.lookup token = some e → e.token = token ∧ r.index.lookup e.key = some token

theorem inverse_of_represents (h : r.Represents m) : r.Inverse := by
  refine ⟨fun key token hindex => ?_, fun token e hlookup => ?_⟩
  · rw [h.index] at hindex
    obtain ⟨e, he, rfl⟩ := Option.map_eq_some_iff.mp hindex
    have hkey := h.key key e he
    exact ⟨e, (h.byToken e.token e).mpr ⟨hkey ▸ he, rfl⟩, hkey, rfl⟩
  · obtain ⟨he, htoken⟩ := (h.byToken token e).mp hlookup
    rw [h.index, he, Option.map_some, htoken]
    exact ⟨rfl, rfl⟩

theorem represents_of_inverse (h : r.Inverse) : ∃ m, r.Represents m := by
  refine ⟨fun key => (r.index.lookup key).bind r.byToken.lookup, fun key => ?_, fun token e => ⟨fun hlookup => ?_, ?_⟩,
    fun key e he => ?_⟩
  · cases hindex : r.index.lookup key with
    | none => rfl
    | some token =>
      obtain ⟨e, he, -, htoken⟩ := h.1 key token hindex
      rw [Option.bind_some, he, Option.map_some, htoken]
  · obtain ⟨htoken, hindex⟩ := h.2 token e hlookup
    exact ⟨by rw [hindex, Option.bind_some, hlookup], htoken⟩
  · rintro ⟨he, rfl⟩
    obtain ⟨token, -, hlookup⟩ := Option.bind_eq_some_iff.mp he
    rw [(h.2 token e hlookup).1]
    exact hlookup
  · obtain ⟨token, hindex, hlookup⟩ := Option.bind_eq_some_iff.mp he
    obtain ⟨e', he', hkey, -⟩ := h.1 key token hindex
    rw [he'] at hlookup
    exact Option.some.inj hlookup ▸ hkey

theorem Represents.congr (h : r.Represents m) (hbyToken : ∀ token, r'.byToken.lookup token = r.byToken.lookup token)
    (hindex : ∀ key, r'.index.lookup key = r.index.lookup key) : r'.Represents m where
  index key := (hindex key).trans (h.index key)
  byToken token e := by rw [hbyToken, h.byToken]
  key := h.key

/-- What two registries stand for is the same exactly when all lookups agree. -/
theorem Represents.same_iff {m' : Registrations} (h : r.Represents m) (h' : r'.Represents m') :
    (∀ token, r.byToken.lookup token = r'.byToken.lookup token) ∧ (∀ key, r.index.lookup key = r'.index.lookup key) ↔
      m = m' := by
  constructor
  · rintro ⟨hbyToken, hindex⟩
    exact h.unique (h'.congr hbyToken hindex)
  · rintro rfl
    refine ⟨fun token => Option.ext fun e => ?_, fun key => ?_⟩
    · rw [h.byToken, h'.byToken]
    · rw [h.index, h'.index]

/-- The key is taken out of both maps. -/
theorem Represents.remove (h : Represents r m) (key : String × String) :
    Represents (r.remove key) (Function.update m key none) where
  index := by
    intro key'
    rw [index_remove, Function.update_apply]
    split_ifs
    · rfl
    · exact h.index key'
  byToken := by
    intro token e
    rw [Function.update_apply]
    have hindex := h.index key
    cases hkey : m key with
    | none =>
      rw [hkey] at hindex
      have hsame : r.remove key = r := by rw [ProxyRegistry.remove, hindex, Option.map_none]
      rw [hsame, h.byToken]
      split_ifs with hek
      · simp [hek, hkey]
      · exact Iff.rfl
    | some old =>
      rw [hkey, Option.map_some] at hindex
      simp only [ProxyRegistry.remove, hindex]
      by_cases htoken : token = old.token
      · -- the token of the entry that goes is no other entry's
        rw [htoken, AList.lookup_erase]
        refine iff_of_false (fun hnone => by cases hnone) ?_
        rintro ⟨he, hetoken⟩
        split_ifs at he with hek
        exact hek (h.token_unique he hkey hetoken)
      · rw [AList.lookup_erase_ne htoken, h.byToken]
        split_ifs with hek
        · rw [hek, hkey]
          refine iff_of_false ?_ (fun hnone => by cases hnone.1)
          rintro ⟨he, hetoken⟩
          exact htoken (hetoken.symm.trans (congrArg ProxyEntry.token (Option.some.inj he)).symm)
        · exact Iff.rfl
  key := by
    intro key' e he
    rw [Function.update_apply] at he
    split_ifs at he
    exact h.key key' e he

/-- The new entry stands under its key, whatever stood there. -/
theorem Represents.register (h : Represents r m) (e : ProxyEntry)
    (hfresh : ∀ key old, m key = some old → old.token ≠ e.token) :
    Represents (r.register e.agentId e.name e.upstreamUrl e.headers e.token) (Function.update m e.key (some e)) where
  index := by
    intro key
    rw [index_register, Function.update_apply]
    split_ifs with hkey hkey' hkey'
    · rfl
    · exact absurd hkey hkey'
    · exact absurd hkey' hkey
    · exact h.index key
  byToken := by
    intro token e'
    have hremove := (h.remove e.key).byToken token e'
    rw [Function.update_apply] at hremove ⊢
    show (AList.insert e.token e (r.remove e.key).byToken).lookup token = some e' ↔ _
    by_cases htoken : token = e.token
    · rw [htoken, AList.lookup_insert]
      split_ifs with hkey
      · constructor
        · intro he
          exact ⟨he, congrArg ProxyEntry.token (Option.some.inj he).symm⟩
        · exact And.left
      · refine iff_of_false (fun he => hkey (congrArg ProxyEntry.key (Option.some.inj he).symm)) ?_
        rintro ⟨hold, hetoken⟩
        exact hfresh e'.key e' hold hetoken
    · rw [AList.lookup_insert_ne htoken, hremove]
      split_ifs with hkey
      · refine iff_of_false (fun hnone => by cases hnone.1) ?_
        rintro ⟨he, hetoken⟩
        exact htoken (hetoken.symm.trans (congrArg ProxyEntry.token (Option.some.inj he)).symm)
      · exact Iff.rfl
  key := by
    intro key e' he
    rw [Function.update_apply] at he
    split_ifs at he with hkey
    · rw [← Option.some.inj he, hkey]
    · exact h.key key e' he

theorem Represents.foldl_remove (h : Represents r m) (keys : List (String × String)) :
    Represents (keys.foldl ProxyRegistry.remove r) fun key => if key ∈ keys then none else m key := by
  induction keys generalizing r m with
  | nil => simpa using h
  | cons k keys ih =>
    have hrest := ih (h.remove k)
    refine (congrArg (Represents _) (funext fun key => ?_)).mp hrest
    rw [Function.update_apply]
    by_cases hkey : key = k
    · simp [hkey]
    · simp [hkey]

theorem Represents.mem_keys (h : Represents r m) (key : String × String) : key ∈ r.index.keys ↔ (m key).isSome := by
  rw [← AList.mem_keys, ← AList.lookup_isSome, h.index, Option.isSome_map]

/-- The cleanup takes out the keys of the agent. -/
theorem Represents.cleanup (h : Represents r m) (agentId : String) :
    Represents (r.cleanupForAgent agentId) fun key => if key.1 = agentId then none else m key := by
  refine (congrArg (Represents _) (funext fun key => ?_)).mp (h.foldl_remove _)
  have hmem := h.mem_keys key
  by_cases hkey : key.1 = agentId
  · cases hm : m key with
    | none => simp
    | some e =>
      rw [if_pos hkey, if_pos (List.mem_filter.mpr ⟨hmem.mpr (by rw [hm]; rfl), decide_eq_true hkey⟩)]
  · rw [if_neg hkey, if_neg]
    intro hin
    exact hkey (of_decide_eq_true (List.mem_filter.mp hin).2)

theorem Represents.cleanupCount_eq (h : Represents r m) (agentId : String) :
    r.cleanupCount agentId = {key | key.1 = agentId ∧ (m key).isSome}.ncard := by
  have hnodup : (r.index.keys.filter (·.1 = agentId)).Nodup := r.index.keys_nodup.filter _
  have hset : {key | key.1 = agentId ∧ (m key).isSome} =
    ((r.index.keys.filter (·.1 = agentId)).toFinset : Set (String × String)) := by
    ext key
    rw [List.coe_toFinset, Set.mem_ofPred_eq, Set.mem_ofPred_eq, List.mem_filter, h.mem_keys, decide_eq_true_iff]
    exact And.comm
  rw [hset, Set.ncard_coe_finset, List.toFinset_card_of_nodup hnodup, cleanupCount]

end ProxyRegistry

end Nexal.Gateway
