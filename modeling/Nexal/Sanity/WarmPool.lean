import Nexal.Sanity.ContainerBackend
import Nexal.Spec.WarmPool

/-! What holds in every state of the gateway, whatever fails: handles lead to containers of their names, and
the containers made for the pool and for the spawns are made from their specs. -/

namespace Nexal.Containers

open Gateway (HashMap)

variable {cfg : Config} {s s' : State}

def IsWarm (cfg : Config) (spec : ContainerSpec) : Prop :=
  ∃ pool seq, cfg.warmPool = some pool ∧ spec = warmSpec cfg.spawnDefaults pool.image seq

/-- A container made for the pool is made from a spec of the pool, one made for a spawn from the spawn's. -/
def MadeFor (cfg : Config) (calls : List Call) (c : Container) : Prop :=
  (c.maker = .pool → IsWarm cfg c.spec) ∧
    ∀ i, c.maker = .call i → ∃ call, calls[i]? = some call ∧ ∀ r, call.op = .spawn r →
      c.spec = spawnSpec cfg.spawnDefaults r

/-- The spawn is served by the pool it has found. -/
def TakesWarm (cfg : Config) (r : SpawnRequest) (found : List ContainerHandle) : Prop := r.plain cfg = true ∧ found ≠ []

instance (r : SpawnRequest) (found : List ContainerHandle) : Decidable (TakesWarm cfg r found) := by
  unfold TakesWarm
  infer_instance

structure Sound (cfg : Config) (made : List Container) (call : Call) : Prop where
  looking : ∀ name r, call.phase = .looking name → call.op ≠ .spawn r
  ensuring : ∀ r e, call.op = .spawn r → call.phase = .ensuring e → e.spec = spawnSpec cfg.spawnDefaults r
  dialing : ∀ h, call.phase = .dialing h → Named made h
  given : ∀ h, call.given = some h → Named made h ∧ ∃ r, call.op = .spawn r ∧
    (¬ TakesWarm cfg r call.found → h.name = deriveContainerName cfg.spawnDefaults r.name)

structure Wf (cfg : Config) (s : State) : Prop where
  unique : Unique s.made
  made : ∀ c ∈ s.made, MadeFor cfg s.calls c
  available : ∀ h ∈ s.available, Named s.made h
  pushing : ∀ h, s.replenish = .pushing h → Named s.made h
  ensuring : ∀ e, s.replenish = .ensuring e → IsWarm cfg e.spec
  agents : ∀ a h, s.agents.lookup a = some h → Named s.made h
  calls : ∀ (i : ℕ) (call : Call), s.calls[i]? = some call → Sound cfg s.made call

theorem wf_init (cfg : Config) (h : Host) : Wf cfg (.init h) where
  unique := h.unique
  made c hc := by
    obtain ⟨p, -, rfl⟩ := List.mem_map.mp hc
    constructor
    · intro hpool
      cases hpool
    · intro i hcall
      cases hcall
  available h hmem := by cases hmem
  pushing h heq := by cases heq
  ensuring e heq := by cases heq
  agents a h hlookup := by
    rw [State.init, AList.lookup_empty] at hlookup
    cases hlookup
  calls i call hcall := by
    rw [State.init, List.getElem?_nil] at hcall
    cases hcall

/-! What the parts of a step keep -/

theorem Sound.kept {made made' : List Container} {call : Call} (hk : Kept made made') (h : Sound cfg made call) :
    Sound cfg made' call where
  looking := h.looking
  ensuring := h.ensuring
  dialing handle hphase := (h.dialing handle hphase).kept hk
  given handle hgiven := ⟨(h.given handle hgiven).1.kept hk, (h.given handle hgiven).2⟩

theorem Wf.host (h : Wf cfg s) {made' : List Container} (hk : Kept s.made made') (hu : Unique made')
    (hm : ∀ c ∈ made', MadeFor cfg s.calls c) : Wf cfg { s with made := made' } where
  unique := hu
  made := hm
  available handle hmem := (h.available handle hmem).kept hk
  pushing handle heq := (h.pushing handle heq).kept hk
  ensuring := h.ensuring
  agents a handle hlookup := (h.agents a handle hlookup).kept hk
  calls i call hcall := (h.calls i call hcall).kept hk

theorem Wf.remove (h : Wf cfg s) (name : String) : Wf cfg { s with made := remove s.made name } := by
  refine h.host (kept_remove s.made name) (h.unique.remove name) fun c hc => ?_
  obtain ⟨c', hc', rfl⟩ := List.mem_map.mp hc
  exact h.made c' hc'

/-- A call of `ensure` goes on. -/
theorem Wf.ensure (h : Wf cfg s) {e : Ensure} {maker : Maker} {now : String} {ok : Bool} {made' : List Container}
    {r : Ensured}
    (hgo : e.go maker now ok s.made = some (made', r)) (hmaker : MadeFor cfg s.calls ⟨e.spec, now, maker, true⟩) :
    Wf cfg { s with made := made' } ∧ (∀ e', r = .going e' → e'.spec = e.spec) ∧
      ∀ handle, r = .returned handle → Named made' handle ∧ handle.name = e.spec.name := by
  rcases Ensure.go_cases hgo with ⟨rfl, rfl, -⟩ | ⟨e', rfl, rfl, hspec, -⟩ | ⟨-, hfree, rfl, rfl⟩ | ⟨i, -,
    hfind, rfl, rfl⟩
  · refine ⟨h, ?_, ?_⟩
    · rintro e' heq
      cases heq
    · rintro handle heq
      cases heq
  · refine ⟨h, ?_, ?_⟩
    · rintro e'' heq
      cases heq
      exact hspec
    · rintro handle heq
      cases heq
  · refine ⟨h.host (kept_concat s.made _) (h.unique.concat hfree) fun c hc => ?_, ?_, ?_⟩
    · rcases List.mem_append.mp hc with hold | hnew
      · exact h.made c hold
      · exact List.mem_singleton.mp hnew ▸ hmaker
    · rintro e'' heq
      cases heq
      rfl
    · rintro handle heq
      cases heq
  · refine ⟨h, ?_, ?_⟩
    · rintro e' heq
      cases heq
    · rintro handle heq
      cases heq
      obtain ⟨c, hc, -, hname⟩ := find_eq_some hfind
      exact ⟨⟨c, hc, hname⟩, rfl⟩

theorem MadeFor.calls {calls calls' : List Call} {c : Container} (h : MadeFor cfg calls c)
    (hops : ∀ (i : ℕ) (call : Call), calls[i]? = some call →
      ∃ call', calls'[i]? = some call' ∧ call'.op = call.op) :
    MadeFor cfg calls' c := by
  refine ⟨h.1, fun i hmaker => ?_⟩
  obtain ⟨call, hcall, hspec⟩ := h.2 i hmaker
  obtain ⟨call', hcall', hop⟩ := hops i call hcall
  exact ⟨call', hcall', fun r hr => hspec r (hop ▸ hr)⟩

theorem Wf.setCall (h : Wf cfg s) {i : ℕ} {call call' : Call} (hi : s.calls[i]? = some call) (hop : call'.op = call.op)
    (hsound : Sound cfg s.made call') : Wf cfg { s with calls := s.calls.set i call' } where
  unique := h.unique
  made c hc := by
    refine (h.made c hc).calls fun j d hd => ?_
    by_cases hji : j = i
    · subst hji
      cases hi.symm.trans hd
      exact ⟨call', Lists.getElem?_set_self_of_some hi, hop⟩
    · exact ⟨d, (List.getElem?_set_ne (Ne.symm hji)).trans hd, rfl⟩
  available := h.available
  pushing := h.pushing
  ensuring := h.ensuring
  agents := h.agents
  calls j d hd := by
    rcases Lists.getElem?_set_cases hd with ⟨-, rfl⟩ | ⟨-, hold⟩
    · exact hsound
    · exact h.calls j d hold

theorem Wf.begin (h : Wf cfg s) {op : Op} {phase : Phase} {given : Option ContainerHandle}
    (hsound : Sound cfg s.made ⟨op, phase, s.available, given⟩) : Wf cfg (s.begin op phase given) where
  unique := h.unique
  made c hc := by
    refine (h.made c hc).calls fun j d hd => ⟨d, ?_, rfl⟩
    exact Lists.getElem?_append_of_some hd _
  available := h.available
  pushing := h.pushing
  ensuring := h.ensuring
  agents := h.agents
  calls j d hd := by
    rcases Lists.getElem?_concat_cases hd with hold | rfl
    · exact h.calls j d hold
    · exact hsound

/-- In a phase without a container, and without one given, a call is sound. -/
theorem sound_of_ungiven {made : List Container} {op : Op} {phase : Phase} {found : List ContainerHandle}
    (hlooking : ∀ name r, phase = .looking name → op ≠ .spawn r) (hensuring : ∀ e, phase ≠ .ensuring e)
    (hdialing : ∀ h, phase ≠ .dialing h) : Sound cfg made ⟨op, phase, found, none⟩ where
  looking := hlooking
  ensuring r e _ hphase := absurd hphase (hensuring e)
  dialing h hphase := absurd hphase (hdialing h)
  given h hgiven := by cases hgiven

/-- A sound call goes on. -/
theorem Sound.goto {made : List Container} {call : Call} (h : Sound cfg made call) {phase : Phase}
    (hlooking : ∀ name, phase ≠ .looking name)
    (hensuring : ∀ r e, call.op = .spawn r → phase = .ensuring e → e.spec = spawnSpec cfg.spawnDefaults r)
    (hdialing : ∀ handle, phase = .dialing handle → Named made handle) :
    Sound cfg made { call with phase := phase } where
  looking name _ hphase := absurd hphase (hlooking name)
  ensuring := hensuring
  dialing := hdialing
  given := h.given

def Phase.plain : Phase → Bool
  | .looking _ | .ensuring _ | .dialing _ => false
  | .locating _ | .draining | .destroying _ | .finished => true

theorem Sound.plain {made : List Container} {call : Call} (h : Sound cfg made call) {phase : Phase}
    (hplain : phase.plain = true) :
    Sound cfg made { call with phase := phase } := by
  refine h.goto (fun _ heq => ?_) (fun _ _ _ heq => ?_) fun _ heq => ?_
  · subst heq
    cases hplain
  · subst heq
    cases hplain
  · subst heq
    cases hplain

/-! The steps -/

theorem wf_spawn (h : Wf cfg s) (r : SpawnRequest) : Wf cfg (spawn cfg s r) := by
  unfold spawn
  split
  · rename_i handle htake
    split_ifs at htake with hplain
    have hmem := List.mem_of_getLast? htake
    have hbegin : Wf cfg (s.begin (.spawn r) (.dialing handle) (some handle)) := h.begin
      { ensuring := fun _ _ _ hphase => by cases hphase
        looking := fun _ _ hphase => by cases hphase
        dialing := fun _ hphase => Phase.dialing.inj hphase ▸ h.available handle hmem
        given := fun _ hgiven => Option.some.inj hgiven ▸
          ⟨h.available handle hmem, r, rfl, fun hnot => absurd ⟨hplain, List.ne_nil_of_mem hmem⟩ hnot⟩ }
    exact { hbegin with available := fun handle' hmem' => h.available handle' ((List.dropLast_sublist _).subset hmem') }
  · refine h.begin ⟨fun _ _ hphase => ?_, fun r' e hop hphase => ?_, fun _ hphase => ?_, fun _ hgiven => ?_⟩
    · cases hphase
    · cases hop
      cases hphase
      rfl
    · cases hphase
    · cases hgiven

theorem wf_kill (h : Wf cfg s) (agentId : ℕ) : Wf cfg (kill s agentId) := by
  unfold kill
  split
  · rename_i handle _
    have hbegin : Wf cfg (s.begin .kill (.destroying [handle.name]) none) :=
      h.begin (sound_of_ungiven (fun _ _ => Phase.noConfusion) (fun _ => Phase.noConfusion) fun _ => Phase.noConfusion)
    exact { hbegin with agents := fun a _ hlookup => h.agents a _ (Lists.lookup_of_erase hlookup).2 }
  · exact h.begin (sound_of_ungiven (fun _ _ => Phase.noConfusion) (fun _ => Phase.noConfusion) fun _ => Phase.noConfusion)

theorem wf_detach (h : Wf cfg s) (agentId : ℕ) : Wf cfg (detach s agentId) := by
  unfold detach
  split
  · exact { h with agents := fun a _ hlookup => h.agents a _ (Lists.lookup_of_erase hlookup).2 }
  · exact h

theorem wf_detachAll (h : Wf cfg s) : Wf cfg (detachAll s) := by
  have hbegin : Wf cfg (s.begin .detachAll .draining none) :=
    h.begin (sound_of_ungiven (fun _ _ => Phase.noConfusion) (fun _ => Phase.noConfusion) fun _ => Phase.noConfusion)
  refine { hbegin with agents := fun a handle hlookup => ?_ }
  rw [detachAll, AList.lookup_empty] at hlookup
  cases hlookup

theorem wf_replenish (h : Wf cfg s) (hs : replenish cfg s = some s') : Wf cfg s' := by
  unfold replenish at hs
  split at hs
  · rename_i pool _ hpool
    split_ifs at hs
    · cases hs
      refine { h with pushing := fun _ heq => ?_, ensuring := fun e heq => ?_ }
      · cases heq
      · cases heq
        exact ⟨pool, s.counter, hpool, rfl⟩
    · cases hs
      exact h
  · cases hs

theorem wf_ensurePool (h : Wf cfg s) {now : String} {ok : Bool} (hs : ensurePool s now ok = some s') : Wf cfg s' := by
  unfold ensurePool at hs
  split at hs
  · rename_i e he
    obtain ⟨⟨made', r⟩, hgo, rfl⟩ := Option.map_eq_some_iff.mp hs
    have hwarm := h.ensuring e he
    obtain ⟨hmade, hspec, hreturned⟩ := h.ensure hgo ⟨fun _ => hwarm, fun i hcall => by cases hcall⟩
    cases r with
    | going e' =>
      refine { hmade with pushing := fun _ heq => ?_, ensuring := fun _ heq => ?_ }
      · cases heq
      · cases heq
        exact (hspec e' rfl).symm ▸ hwarm
    | returned handle =>
      refine { hmade with pushing := fun _ heq => ?_, ensuring := fun _ heq => ?_ }
      · cases heq
        exact (hreturned handle rfl).1
      · cases heq
    | failed =>
      refine { hmade with pushing := fun _ heq => ?_, ensuring := fun _ heq => ?_ }
      · cases heq
      · cases heq
  · cases hs

theorem wf_push {handle : ContainerHandle} (h : Wf cfg s) (hpushing : s.replenish = .pushing handle) :
    Wf cfg { s with available := s.available ++ [handle], replenish := .idle } := by
  refine { h with available := fun handle' hmem => ?_, pushing := fun _ heq => ?_, ensuring := fun _ heq => ?_ }
  · rcases List.mem_append.mp hmem with hold | hnew
    · exact h.available handle' hold
    · exact List.mem_singleton.mp hnew ▸ h.pushing handle hpushing
  · cases heq
  · cases heq

theorem wf_ensured (h : Wf cfg s) {i : ℕ} {call : Call} (hi : s.calls[i]? = some call) {e : Ensure}
    (he : call.phase = .ensuring e)
    {now : String} {ok : Bool} {made' : List Container} {r : Ensured}
    (hgo : e.go (.call i) now ok s.made = some (made', r)) :
    Wf cfg (ensured s i call (made', r)) := by
  have hsound := h.calls i call hi
  have hmaker : MadeFor cfg s.calls ⟨e.spec, now, .call i, true⟩ := by
    refine ⟨fun hpool => ?_, fun j hcall => ?_⟩
    · cases hpool
    · cases hcall
      exact ⟨call, hi, fun r' hop => hsound.ensuring r' e hop he⟩
  obtain ⟨hmade, hspec, hreturned⟩ := h.ensure hgo hmaker
  have hsound' : Sound cfg made' call := hmade.calls i call hi
  cases r with
  | going e' =>
    refine hmade.setCall hi rfl (hsound'.goto (fun _ => Phase.noConfusion) (fun r' e'' hop hphase => ?_) fun _ =>
      Phase.noConfusion)
    cases hphase
    exact (hspec e' rfl).trans (hsound.ensuring r' e hop he)
  | failed => exact hmade.setCall hi rfl (hsound'.plain rfl)
  | returned handle =>
    obtain ⟨hnamed, hname⟩ := hreturned handle rfl
    unfold ensured
    dsimp only
    split
    · rename_i r' hop
      refine hmade.setCall hi rfl ⟨fun _ _ => Phase.noConfusion, fun _ _ _ => Phase.noConfusion, fun _ hphase => ?_,
        fun _ hgiven => ?_⟩
      · cases hphase
        exact hnamed
      · cases hgiven
        refine ⟨hnamed, r', hop, fun _ => ?_⟩
        rw [hname, hsound.ensuring r' e hop he]
        rfl
    · exact hmade.setCall hi rfl (hsound'.plain rfl)

theorem wf_go (h : Wf cfg s) {i : ℕ} {call : Call} (hi : s.calls[i]? = some call) {now : String} {ok : Bool}
    (hs : go cfg s i call now ok = some s') : Wf cfg s' := by
  have hsound := h.calls i call hi
  unfold go at hs
  split at hs
  · -- `attach`, at `exists`
    rename_i containerName hphase
    have hattach : ∀ r, call.op ≠ .spawn r := fun r => hsound.looking containerName r hphase
    split_ifs at hs
    · cases hs
      exact h.setCall hi rfl (hsound.goto (fun _ => Phase.noConfusion) (fun r _ hop => absurd hop (hattach r))
        fun _ => Phase.noConfusion)
    · cases hs
      exact h.setCall hi rfl (hsound.plain rfl)
  · rename_i e he
    obtain ⟨⟨made', r⟩, hgo, rfl⟩ := Option.map_eq_some_iff.mp hs
    exact wf_ensured h hi he hgo
  · -- `attach`, at `url`
    rename_i containerName _
    split_ifs at hs
    · obtain ⟨c, hfind, rfl⟩ := Option.map_eq_some_iff.mp hs
      obtain ⟨d, hd, -, hname⟩ := find_eq_some hfind
      refine h.setCall hi rfl (hsound.goto (fun _ => Phase.noConfusion) (fun _ _ _ => Phase.noConfusion) fun _ hphase => ?_)
      cases hphase
      exact ⟨d, hd, hname⟩
    · cases hs
      exact h.setCall hi rfl (hsound.plain rfl)
  · rename_i handle hphase
    have hset : Wf cfg (s.goto i call .finished) := h.setCall hi rfl (hsound.plain rfl)
    split_ifs at hs
    · cases hs
      refine { hset with agents := fun a handle' hlookup => ?_ }
      rcases Lists.lookup_of_insert hlookup with ⟨-, rfl⟩ | ⟨-, hold⟩
      · exact hsound.dialing handle' hphase
      · exact h.agents a handle' hold
    · cases hs
      exact hset
  · cases hs
    have hset : Wf cfg (s.goto i call (.destroying (s.available.map (·.name)))) := h.setCall hi rfl (hsound.plain rfl)
    exact { hset with available := fun _ hmem => by cases hmem }
  · rename_i name names _
    cases hs
    have hset : Wf cfg (s.goto i call (.destroying names)) := h.setCall hi rfl (hsound.plain rfl)
    cases ok with
    | true => exact hset.remove name
    | false => exact hset
  · cases hs
    exact h.setCall hi rfl (hsound.plain rfl)
  · cases hs

theorem wf_restart (h : Wf cfg s) : Wf cfg (restart s) where
  unique := h.unique
  made c hc := by
    refine (h.made c hc).calls fun j d hd => ⟨{ d with phase := .finished }, ?_, rfl⟩
    rw [restart, List.getElem?_map, hd, Option.map_some]
  available _ hmem := by cases hmem
  pushing _ heq := by cases heq
  ensuring _ heq := by cases heq
  agents a handle hlookup := by
    rw [restart, State.init, AList.lookup_empty] at hlookup
    cases hlookup
  calls i call hcall := by
    rw [restart, List.getElem?_map] at hcall
    obtain ⟨d, hd, rfl⟩ := Option.map_eq_some_iff.mp hcall
    exact (h.calls i d hd).plain rfl

theorem wf_step {a : Act} (h : Wf cfg s) (hs : step cfg s a = some s') : Wf cfg s' := by
  cases a with
  | spawn r =>
    cases hs
    exact wf_spawn h r
  | attach containerName =>
    cases hs
    exact h.begin (sound_of_ungiven (fun _ _ _ => Op.noConfusion) (fun _ => Phase.noConfusion) fun _ => Phase.noConfusion)
  | kill agentId =>
    cases hs
    exact wf_kill h agentId
  | detach agentId =>
    cases hs
    exact wf_detach h agentId
  | detachAll =>
    cases hs
    exact wf_detachAll h
  | replenish => exact wf_replenish h hs
  | ensurePool now ok => exact wf_ensurePool h hs
  | push =>
    simp only [step] at hs
    split at hs
    · rename_i handle hpushing
      cases hs
      exact wf_push h hpushing
    · cases hs
  | go i now ok =>
    obtain ⟨call, hi, hgo⟩ := Option.bind_eq_some_iff.mp hs
    exact wf_go h hi hgo
  | restart =>
    cases hs
    exact wf_restart h

/-- In every state of a run. -/
theorem wf_run {host : Host} {acts : List Act} (hrun : Runs.run (step cfg) (.init host) acts = some s) : Wf cfg s :=
  Runs.run_inv_all (Wf cfg) (fun _ _ _ h hs => wf_step h hs) (wf_init cfg host) hrun

/-! A pool of one container -/

def onePooled : Config :=
    ⟨⟨"nexal", "nexal-agent", none, none, none, true, "nexal-worker-", none⟩, some ⟨1, "nexal"⟩⟩

def plainSpawn (name : String) (env : HashMap String String) : SpawnRequest := ⟨name, none, env, ∅, []⟩

/-- The first `create_one`, up to the push. -/
def createOne : List Act := [.replenish, .ensurePool "today" true, .ensurePool "today" true, .ensurePool "today" true]

def firstContainer : Container := ⟨warmSpec onePooled.spawnDefaults "nexal" 0, "today", .pool, true⟩

def firstHandle : ContainerHandle := ⟨"nexal-worker-pool-0", 0⟩

end Nexal.Containers
