import Nexal.Sanity.WarmPool

/-! To whom the containers of the pool go. Within one process the pool's counter gives every container a name
of its own; after a restart it begins again, while the containers that were handed out are still there. -/

namespace Nexal.Containers

variable {cfg : Config} {s s' : State}

def State.givenTo (s : State) (i : ℕ) : Option ℕ := (s.calls[i]?.bind (·.given)).map (·.container)

def Replenish.pushed : Replenish → List ℕ
  | .pushing handle => [handle.container]
  | .idle | .ensuring _ => []

def State.idle (s : State) : List ℕ := s.available.map (·.container) ++ s.replenish.pushed

def HandedOnce (s : State) : Prop := ∀ i j n, n ∈ s.pooled → s.givenTo i = some n → s.givenTo j = some n → i = j

def State.claimed (s : State) (n : ℕ) : Bool :=
    s.calls.any (fun call => call.given.any (·.container = n)) || s.idle.contains n

/-- The container that `ensure` returns: to the pool, none that is claimed; to a spawn, none that is claimed
and of the pool. -/
def fresh (s : State) : Act → Bool
  | .ensurePool _ true =>
    match s.replenish with
    | .ensuring (.starting spec) => (find s.made spec.name).all fun n => !s.claimed n
    | _ => true
  | .go i _ true =>
    match s.calls[i]? with
    | some ⟨.spawn _, .ensuring (.starting spec), _, _⟩ => (find s.made spec.name).all fun n =>
      !(s.pooled.contains n && s.claimed n)
    | _ => true
  | _ => true

/-! Handing out -/

/-- What is idle is the pool's, once, and nobody's; what is the pool's has been given once. -/
structure HandOut (given : ℕ → Option ℕ) (idle pooled : List ℕ) : Prop where
  once : ∀ i j n, n ∈ pooled → given i = some n → given j = some n → i = j
  nodup : idle.Nodup
  pooled : ∀ n ∈ idle, n ∈ pooled
  free : ∀ n ∈ idle, ∀ i, given i ≠ some n

section HandOut
variable {given given' : ℕ → Option ℕ} {idle idle' pooled : List ℕ} {n : ℕ}

theorem HandOut.sublist (h : HandOut given idle pooled) (hsub : idle'.Sublist idle) : HandOut given idle' pooled where
  once := h.once
  nodup := h.nodup.sublist hsub
  pooled m hm := h.pooled m (hsub.subset hm)
  free m hm := h.free m (hsub.subset hm)

/-- A container that is not idle is given to someone; if it is the pool's, it has been given to none. -/
theorem HandOut.give (h : HandOut given idle pooled) {i : ℕ} (hgiven : ∀ j, given' j = if j = i then some n else given j)
    (hidle : n ∉ idle) (hnone : n ∈ pooled → ∀ j, given j ≠ some n) : HandOut given' idle pooled where
  once j k m hm hj hk := by
    rw [hgiven] at hj hk
    split_ifs at hj hk with hji hki hki
    · exact hji.trans hki.symm
    · cases hj
      exact absurd hk (hnone hm k)
    · cases hk
      exact absurd hj (hnone hm j)
    · exact h.once j k m hm hj hk
  nodup := h.nodup
  pooled := h.pooled
  free m hm j hj := by
    rw [hgiven] at hj
    split_ifs at hj
    · cases hj
      exact hidle hm
    · exact h.free m hm j hj

/-- A container that is nobody's comes into the pool. -/
theorem HandOut.stock (h : HandOut given idle pooled) (hidle : n ∉ idle) (hnone : ∀ j, given j ≠ some n) :
    HandOut given (idle ++ [n]) (pooled ++ [n]) where
  once j k m hm hj hk := by
    rcases List.mem_append.mp hm with hold | hnew
    · exact h.once j k m hold hj hk
    · rw [List.mem_singleton.mp hnew] at hj
      exact absurd hj (hnone j)
  nodup := by
    rw [List.nodup_append]
    refine ⟨h.nodup, List.nodup_singleton n, fun a ha b hb hab => ?_⟩
    rw [hab, List.mem_singleton.mp hb] at ha
    exact hidle ha
  pooled m hm := by
    rcases List.mem_append.mp hm with hold | hnew
    · exact List.mem_append_left _ (h.pooled m hold)
    · exact List.mem_append_right _ hnew
  free m hm j := by
    rcases List.mem_append.mp hm with hold | hnew
    · exact h.free m hold j
    · rw [List.mem_singleton.mp hnew]
      exact hnone j

end HandOut

/-! What the calls have been given -/

theorem givenTo_set {i : ℕ} {call call' : Call} {made : List Container} (hi : s.calls[i]? = some call) (j : ℕ) :
    State.givenTo { s with calls := s.calls.set i call', made := made } j =
      if j = i then call'.given.map (·.container) else s.givenTo j := by
  rw [State.givenTo, Lists.getElem?_set_of_some hi]
  split_ifs
  · rfl
  · rfl

theorem givenTo_goto {i : ℕ} {call : Call} {phase : Phase} (hi : s.calls[i]? = some call) :
    (s.goto i call phase).givenTo = s.givenTo := by
  funext j
  refine (givenTo_set hi j).trans ?_
  split_ifs with hj
  · rw [hj, State.givenTo, hi]
    rfl
  · rfl

theorem givenTo_begin {op : Op} {phase : Phase} {given : Option ContainerHandle} (j : ℕ) :
    (s.begin op phase given).givenTo j = if j = s.calls.length then given.map (·.container) else s.givenTo j := by
  rw [State.givenTo, State.begin, Lists.getElem?_concat]
  split_ifs
  · rfl
  · rfl

theorem givenTo_begin_none {op : Op} {phase : Phase} : (s.begin op phase none).givenTo = s.givenTo := by
  funext j
  rw [givenTo_begin]
  split_ifs with hj
  · rw [hj, State.givenTo, List.getElem?_eq_none (Nat.le_refl _)]
    rfl
  · rfl

theorem not_claimed {n : ℕ} (h : s.claimed n = false) : n ∉ s.idle ∧ ∀ j, s.givenTo j ≠ some n := by
  rw [State.claimed, Bool.or_eq_false_iff] at h
  refine ⟨fun hmem => ?_, fun j hj => ?_⟩
  · rw [List.contains_iff_mem.mpr hmem] at h
    cases h.2
  · rw [State.givenTo] at hj
    obtain ⟨handle, hgiven, hn⟩ := Option.map_eq_some_iff.mp hj
    obtain ⟨call, hcall, hcg⟩ := Option.bind_eq_some_iff.mp hgiven
    have hany : call.given.any (·.container = n) = true := by
      rw [hcg, Option.any_some]
      exact decide_eq_true hn
    rw [List.any_eq_false] at h
    exact h.1 call (List.mem_of_getElem? hcall) hany

/-! The steps -/

def Exclusive (s : State) : Prop := HandOut s.givenTo s.idle s.pooled

/-- What a step does not touch stays exclusive. -/
theorem Exclusive.frame (h : Exclusive s) (hgiven : s'.givenTo = s.givenTo) (hidle : s'.idle.Sublist s.idle)
    (hpooled : s'.pooled = s.pooled) :
    Exclusive s' := by
  rw [Exclusive, hgiven, hpooled]
  exact HandOut.sublist h hidle

theorem exclusive_spawn (h : Exclusive s) (r : SpawnRequest) : Exclusive (spawn cfg s r) := by
  unfold spawn
  split
  · rename_i handle htake
    split_ifs at htake
    obtain ⟨rest, hrest⟩ := List.getLast?_eq_some_iff.mp htake
    have hidle : s.idle = rest.map (·.container) ++ [handle.container] ++ s.replenish.pushed := by
      rw [State.idle, hrest, List.map_append, List.map_singleton]
    have hrest' : s.available.dropLast = rest := by rw [hrest, List.dropLast_concat]
    have hnodup := h.nodup
    rw [hidle, List.append_assoc, List.nodup_append] at hnodup
    have hmem : handle.container ∈ s.idle := by simp [hidle]
    have hsmaller : HandOut s.givenTo (rest.map (·.container) ++ s.replenish.pushed) s.pooled := by
      refine h.sublist ?_
      rw [hidle, List.append_assoc]
      exact (List.sublist_append_right _ _).append_left _
    have hout : handle.container ∉ rest.map (·.container) ++ s.replenish.pushed := by
      rw [List.mem_append, not_or]
      refine ⟨fun hin => hnodup.2.2 _ hin _ (List.mem_append_left _ (List.mem_singleton_self _)) rfl, ?_⟩
      exact (List.nodup_cons.mp hnodup.2.1).1
    have hgive : HandOut (s.begin (.spawn r) (.dialing handle) (some handle)).givenTo
        (rest.map (·.container) ++ s.replenish.pushed) s.pooled :=
      hsmaller.give (fun j => givenTo_begin j) hout fun _ => h.free _ hmem
    rw [← hrest'] at hgive
    exact hgive
  · exact h.frame givenTo_begin_none (List.Sublist.refl _) rfl

theorem exclusive_ensurePool (h : Exclusive s) {now : String} {ok : Bool} (hfresh : fresh s (.ensurePool now ok) = true)
    (hs : ensurePool s now ok = some s') : Exclusive s' := by
  unfold ensurePool at hs
  split at hs
  · rename_i e he
    obtain ⟨⟨made', r⟩, hgo, rfl⟩ := Option.map_eq_some_iff.mp hs
    have hidle : s.available.map ContainerHandle.container ++ [] = s.idle := by rw [State.idle, he, Replenish.pushed]
    have hsub : (s.available.map ContainerHandle.container ++ []).Sublist s.idle := hidle ▸ List.Sublist.refl _
    rcases Ensure.go_cases hgo with ⟨rfl, rfl, -⟩ | ⟨e', rfl, rfl, -, -⟩ | ⟨-, -, rfl, rfl⟩ | ⟨n,
      hstarting, hfind, rfl, rfl⟩
    · exact h.frame rfl hsub rfl
    · exact h.frame rfl hsub rfl
    · exact h.frame rfl hsub rfl
    · -- the container is nobody's
      have hfree : s.claimed n = false := by
        cases ok with
        | false =>
          rw [hstarting] at hgo
          cases hgo
        | true =>
          rw [hstarting] at he
          simpa [fresh, he, hfind] using hfresh
      obtain ⟨hout, hnone⟩ := not_claimed hfree
      have hstock := HandOut.stock h hout hnone
      rw [← hidle, List.append_nil] at hstock
      exact hstock
  · cases hs

/-- A call of the registry goes on in its `ensure`. -/
theorem exclusive_ensured (h : Exclusive s) {i : ℕ} {call : Call} (hi : s.calls[i]? = some call) {e : Ensure}
    (he : call.phase = .ensuring e) {now : String} {ok : Bool} (hfresh : fresh s (.go i now ok) = true)
    {made' : List Container}
    {r : Ensured} (hgo : e.go (.call i) now ok s.made = some (made', r)) : Exclusive (ensured s i call (made', r)) := by
  rcases Ensure.go_cases hgo with ⟨rfl, rfl, -⟩ | ⟨e', rfl, rfl, -, -⟩ | ⟨-, -, rfl, rfl⟩ | ⟨n, hstarting,
    hfind, rfl, rfl⟩
  · exact h.frame (givenTo_goto hi) (List.Sublist.refl _) rfl
  · exact h.frame (givenTo_goto hi) (List.Sublist.refl _) rfl
  · exact h.frame (givenTo_goto hi) (List.Sublist.refl _) rfl
  · unfold ensured
    dsimp only
    split
    · rename_i r' hop
      have hfree : n ∈ s.pooled → s.claimed n = false := by
        intro hpooled
        cases ok with
        | false =>
          rw [hstarting] at hgo
          cases hgo
        | true =>
          obtain ⟨op, phase, found, given⟩ := call
          subst hop
          rw [hstarting] at he
          subst he
          simpa [fresh, hi, hfind, hpooled] using hfresh
      refine HandOut.give h (i := i) (fun j => ?_) (fun hidle => ?_) fun hpooled => (not_claimed (hfree hpooled)).2
      · exact givenTo_set hi j
      · exact (not_claimed (hfree (h.pooled n hidle))).1 hidle
    · exact h.frame (givenTo_goto hi) (List.Sublist.refl _) rfl

theorem exclusive_go (h : Exclusive s) {i : ℕ} {call : Call} (hi : s.calls[i]? = some call) {now : String} {ok : Bool}
    (hfresh : fresh s (.go i now ok) = true) (hs : go cfg s i call now ok = some s') : Exclusive s' := by
  have hgoto : ∀ phase, Exclusive (s.goto i call phase) := fun phase => h.frame (givenTo_goto hi) (List.Sublist.refl _) rfl
  unfold go at hs
  split at hs
  · split_ifs at hs
    · cases hs
      exact hgoto _
    · cases hs
      exact hgoto _
  · rename_i e he
    obtain ⟨⟨made', r⟩, hgo, rfl⟩ := Option.map_eq_some_iff.mp hs
    exact exclusive_ensured h hi he hfresh hgo
  · split_ifs at hs
    · obtain ⟨c, -, rfl⟩ := Option.map_eq_some_iff.mp hs
      exact hgoto _
    · cases hs
      exact hgoto _
  · split_ifs at hs
    · cases hs
      exact hgoto _
    · cases hs
      exact hgoto _
  · -- the pool is drained
    cases hs
    exact h.frame (givenTo_goto hi) (List.sublist_append_right _ _) rfl
  · cases hs
    exact hgoto _
  · cases hs
    exact hgoto _
  · cases hs

theorem exclusive_restart (h : Exclusive s) : Exclusive (restart s) := by
  refine h.frame (funext fun j => ?_) (List.nil_sublist _) rfl
  rw [State.givenTo, State.givenTo, restart, List.getElem?_map]
  cases s.calls[j]? <;> rfl

theorem exclusive_step {a : Act} (h : Exclusive s) (hfresh : fresh s a = true) (hs : step cfg s a = some s') :
    Exclusive s' := by
  cases a with
  | spawn r =>
    cases hs
    exact exclusive_spawn h r
  | attach containerName =>
    cases hs
    exact h.frame givenTo_begin_none (List.Sublist.refl _) rfl
  | kill agentId =>
    cases hs
    unfold kill
    split
    · exact h.frame givenTo_begin_none (List.Sublist.refl _) rfl
    · exact h.frame givenTo_begin_none (List.Sublist.refl _) rfl
  | detach agentId =>
    cases hs
    unfold detach
    split
    · exact h.frame rfl (List.Sublist.refl _) rfl
    · exact h
  | detachAll =>
    cases hs
    exact h.frame givenTo_begin_none (List.Sublist.refl _) rfl
  | replenish =>
    simp only [step, replenish] at hs
    split at hs
    · rename_i pool hidle hpool
      split_ifs at hs
      · cases hs
        refine h.frame rfl ?_ rfl
        rw [State.idle, State.idle, hidle]
        exact List.Sublist.refl _
      · cases hs
        exact h
    · cases hs
  | ensurePool now ok => exact exclusive_ensurePool h hfresh hs
  | push =>
    simp only [step] at hs
    split at hs
    · rename_i handle hpushing
      cases hs
      refine h.frame rfl ?_ rfl
      rw [State.idle, State.idle, hpushing, List.map_append]
      simp [Replenish.pushed]
    · cases hs
  | go i now ok =>
    obtain ⟨call, hi, hgo⟩ := Option.bind_eq_some_iff.mp hs
    exact exclusive_go h hi hfresh hgo
  | restart =>
    cases hs
    exact exclusive_restart h

theorem exclusive_init (host : Host) : Exclusive (.init host) where
  once _ _ _ hn := by cases hn
  nodup := List.nodup_nil
  pooled _ hn := by cases hn
  free _ hn := by cases hn

/-- In every run in which `ensure` returns to the pool only containers that nobody has been given and that are
not in the pool, and to spawns no such container of the pool, no container of the pool is given to two
spawns. -/
theorem handed_once_when_fresh (cfg : Config) (host : Host) (acts : List Act) (s : State)
    (hfresh : Runs.RunOk (step cfg) (fun s a => fresh s a = true) (.init host) acts)
    (hrun : Runs.run (step cfg) (.init host) acts = some s) : HandedOnce s :=
  (Runs.run_inv Exclusive (fun _ _ _ h hf hs => exclusive_step h hf hs) (exclusive_init host) hfresh hrun).once

/-! A restart -/

/-- The pool is filled and a spawn served. -/
def served : List Act := createOne ++ [.push, .spawn (plainSpawn "one" ∅), .go 0 "today" true]

theorem handed_once_when_fresh_served : ∃ s : State,
    Runs.run (step onePooled) (.init ⟨[], List.nodup_nil⟩) served = some s ∧ HandedOnce s :=
  ⟨_, rfl, handed_once_when_fresh onePooled ⟨[], List.nodup_nil⟩ served _ (by decide) rfl⟩

/-- The container of a spawn is detached and the gateway restarted; its pool begins with the same name again. -/
def restarted : List Act :=
  served ++ [.detachAll, .go 1 "today" true, .go 1 "today" true, .restart, .replenish, .ensurePool "later" true,
    .ensurePool "later" true, .push, .spawn (plainSpawn "two" ∅)]

theorem restarted_pool_hands_out_again : ¬ ∀ (cfg : Config) (host : Host) (acts : List Act) (s : State),
    Runs.run (step cfg) (.init host) acts = some s → HandedOnce s := by
  intro hall
  have honce : HandedOnce _ := hall onePooled ⟨[], List.nodup_nil⟩ restarted _ rfl
  have hsame : (0 : ℕ) = 2 := honce 0 2 0 (by decide) rfl rfl
  cases hsame

/-! The size of the pool -/

def Config.targetSize (cfg : Config) : ℕ := cfg.warmPool.elim 0 (·.size)

def Replenish.underway : Replenish → ℕ
  | .idle => 0
  | .ensuring _ | .pushing _ => 1

def State.pool (s : State) : ℕ := s.available.length + s.replenish.underway

theorem pool_spawn (s : State) (r : SpawnRequest) : (spawn cfg s r).pool ≤ s.pool := by
  unfold spawn
  split
  · simp only [State.pool, State.begin, List.length_dropLast]
    omega
  · exact Nat.le_refl _

theorem pool_ensured (s : State) (i : ℕ) (call : Call) (made : List Container) (r : Ensured) :
    (ensured s i call (made, r)).pool = s.pool := by
  cases r with
  | returned handle =>
    unfold ensured
    dsimp only
    split <;> rfl
  | going e | failed => rfl

theorem pool_go {i : ℕ} {call : Call} {now : String} {ok : Bool} (hs : go cfg s i call now ok = some s') :
    s'.pool ≤ s.pool := by
  unfold go at hs
  split at hs
  · split_ifs at hs <;>
    · cases hs
      exact Nat.le_refl _
  · obtain ⟨⟨made', r⟩, -, rfl⟩ := Option.map_eq_some_iff.mp hs
    exact (pool_ensured s i call made' r).le
  · split_ifs at hs
    · obtain ⟨c, -, rfl⟩ := Option.map_eq_some_iff.mp hs
      exact Nat.le_refl _
    · cases hs
      exact Nat.le_refl _
  · split_ifs at hs <;>
    · cases hs
      exact Nat.le_refl _
  · -- the pool is drained
    cases hs
    exact Nat.add_le_add_right (Nat.zero_le _) _
  · cases hs
    exact Nat.le_refl _
  · cases hs
    exact Nat.le_refl _
  · cases hs

theorem pool_step {a : Act} (h : s.pool ≤ cfg.targetSize) (hs : step cfg s a = some s') : s'.pool ≤ cfg.targetSize := by
  cases a with
  | spawn r =>
    cases hs
    exact (pool_spawn s r).trans h
  | attach containerName | detachAll =>
    cases hs
    exact h
  | kill agentId | detach agentId =>
    cases hs
    simp only [kill, detach]
    split <;> exact h
  | replenish =>
    simp only [step, replenish] at hs
    split at hs
    · rename_i pool hidle hpool
      split_ifs at hs with hroom
      · -- the loop sees room for one more, and nothing else puts a container into the pool
        cases hs
        rw [Config.targetSize, hpool]
        exact hroom
      · cases hs
        exact h
    · cases hs
  | ensurePool now ok =>
    simp only [step, ensurePool] at hs
    split at hs
    · rename_i e hensuring
      rw [State.pool, hensuring] at h
      obtain ⟨⟨made', r⟩, -, rfl⟩ := Option.map_eq_some_iff.mp hs
      cases r with
      | going e | returned handle => exact h
      | failed => exact (Nat.le_succ _).trans h
    · cases hs
  | push =>
    simp only [step] at hs
    split at hs
    · rename_i handle hpushing
      cases hs
      rw [State.pool, hpushing] at h
      rw [State.pool, List.length_append]
      exact h
    · cases hs
  | go i now ok =>
    obtain ⟨call, -, hgo⟩ := Option.bind_eq_some_iff.mp hs
    exact (pool_go hgo).trans h
  | restart =>
    cases hs
    exact Nat.zero_le _

/-- However spawns, kills, drains and restarts come between the steps of the loop, the pool with what is underway to it
never exceeds its size; where no pool is configured, there is never a container in it. -/
theorem pool_bounded (cfg : Config) (host : Host) {acts : List Act} {s : State}
    (hrun : Runs.run (step cfg) (.init host) acts = some s) : s.available.length + s.replenish.underway ≤ cfg.targetSize :=
  Runs.run_inv_all (fun s => s.pool ≤ cfg.targetSize) (fun _ _ _ h hs => pool_step h hs) (Nat.zero_le _) hrun

theorem pool_bounded_served : ∃ s : State, Runs.run (step onePooled) (.init ⟨[], List.nodup_nil⟩) served = some s ∧
    s.available.length + s.replenish.underway ≤ 1 :=
  ⟨_, rfl, @pool_bounded onePooled ⟨[], List.nodup_nil⟩ served _ rfl⟩

end Nexal.Containers
