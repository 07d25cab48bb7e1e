import Nexal.Sanity.AgentCalls
import Nexal.Spec.SkillsMount

/-! A handler of the dispatch loop that reads a file of the skills mount. The thread that serves
the mount asks the gateway for the file, and the response arrives where only the loop reads. -/

namespace Nexal.Link.SkillsMount

open Runs
open Wire (Value mapGet)

/-- The handler waits for a mount, whose thread waits for a response that is behind the loop. -/
def WaitsOnItself (s : State) : Prop :=
  ∃ frame id method params m mount a relPath i call k response,
    s.agent.loop = .handling frame id method params ∧ s.blocked = some m ∧ s.mounts[m]? = some mount ∧
    mount.fetching = some (a, relPath, i) ∧ s.agent.calls.calls[i]? = some call ∧ call.phase = .waiting k ∧
    (k, i) ∈ s.agent.calls.pending ∧ .message response ∈ s.agent.chan.incoming ∧ responseId response = some k

/-- A handler turns to a mount only when the thread is free and neither this access nor one before it
asks the gateway for a file. -/
def NothingToFetch (s : State) : Act → Prop
  | .access m op => ∀ mount, s.mounts[m]? = some mount →
    mount.fetching = none ∧ mount.missing op = none ∧ ∀ a ∈ mount.queue, mount.missing a.op = none
  | _ => True

/-- The mount that the handler waits for comes to its access without a fetch. -/
def Served (mount : Mount) : Prop :=
  mount.fetching = none ∧ ∃ before a after, mount.queue = before ++ a :: after ∧ a.byHandler = true ∧
    ∀ b ∈ before ++ [a], mount.missing b.op = none

def HandlerInv (s : State) : Prop :=
  ∀ m, s.blocked = some m → ∃ mount, s.mounts[m]? = some mount ∧ Served mount

variable {parseRead : Value → Option (List UInt8)} {s s' : State}

theorem HandlerInv.of_mounts (h : HandlerInv s) (hblocked : s'.blocked = none ∨ s'.blocked = s.blocked)
    (hmounts : ∀ m mount, s.blocked = some m → s.mounts[m]? = some mount → Served mount →
      ∃ mount', s'.mounts[m]? = some mount' ∧ Served mount') : HandlerInv s' := by
  intro m hm
  rcases hblocked with hnone | hsame
  · rw [hnone] at hm
    cases hm
  · rw [hsame] at hm
    obtain ⟨mount, hmount, hserved⟩ := h m hm
    exact hmounts m mount hm hmount hserved

theorem blocked_reply (s : State) (a : Access) : (reply s a).blocked = none ∨ (reply s a).blocked = s.blocked := by
  unfold reply
  split_ifs
  · exact Or.inl rfl
  · exact Or.inr rfl

theorem mounts_reply (s : State) (a : Access) : (reply s a).mounts = s.mounts := by
  unfold reply
  split_ifs
  · rfl
  · rfl

/-- A mount other than the one that is at work stays as it is. -/
theorem served_set {mounts : List Mount} {m k : ℕ} {mount new : Mount} (hmount : mounts[m]? = some mount)
    (hserved : Served mount) (hself : m = k → Served new) :
    ∃ mount', (mounts.set k new)[m]? = some mount' ∧ Served mount' := by
  by_cases hmk : m = k
  · subst hmk
    exact ⟨new, Lists.getElem?_set_self_of_some hmount, hself rfl⟩
  · exact ⟨mount, (List.getElem?_set_ne (Ne.symm hmk)).trans hmount, hserved⟩

theorem Served.concat {mount : Mount} (h : Served mount) (a : Access) :
    Served { mount with queue := mount.queue ++ [a] } := by
  obtain ⟨hfetching, before, b, after, hqueue, hrest⟩ := h
  refine ⟨hfetching, before, b, after ++ [a], ?_, hrest⟩
  dsimp only
  rw [hqueue, List.append_assoc, List.cons_append]

theorem handlerInv_otherAccess {m : ℕ} {op : Op} (h : HandlerInv s)
    (hs : step parseRead s (.otherAccess m op) = some s') : HandlerInv s' := by
  obtain ⟨mount, hmount, rfl⟩ := Option.map_eq_some_iff.mp hs
  refine h.of_mounts (Or.inr rfl) fun k other _ hother hserved => served_set hother hserved fun hkm => ?_
  subst hkm
  obtain rfl := Option.some.inj (hmount.symm.trans hother)
  exact hserved.concat _

theorem handlerInv_access {m : ℕ} {op : Op} (hfree : NothingToFetch s (.access m op))
    (hs : step parseRead s (.access m op) = some s') : HandlerInv s' := by
  rw [step] at hs
  split at hs
  · split_ifs at hs
    obtain ⟨t, ht, rfl⟩ := Option.map_eq_some_iff.mp hs
    obtain ⟨mount, hmount, rfl⟩ := Option.map_eq_some_iff.mp ht
    obtain ⟨hfetching, hop, hqueue⟩ := hfree mount hmount
    intro k hk
    cases hk
    refine ⟨_, Lists.getElem?_set_self_of_some hmount, hfetching, mount.queue, ⟨op, true⟩, [], rfl, rfl,
      fun b hb => ?_⟩
    rcases List.mem_append.mp hb with hb | hb
    · exact hqueue b hb
    · rw [List.mem_singleton.mp hb]
      exact hop
  · cases hs

theorem handlerInv_serve {m : ℕ} (h : HandlerInv s) (hs : serveStep s m = some s') : HandlerInv s' := by
  obtain ⟨mount, hmount, hs⟩ := Option.bind_eq_some_iff.mp hs
  split at hs
  · rename_i a queue hfetching hqueue
    split at hs
    · rename_i hmissing
      cases hs
      -- an access is answered at once: that of the handler, or one before it
      by_cases hown : a.byHandler = true
      · intro k hk
        rw [reply, if_pos hown] at hk
        cases hk
      · refine h.of_mounts (blocked_reply _ _) fun k other _ hother hserved => ?_
        rw [mounts_reply]
        refine served_set hother hserved fun hkm => ?_
        subst hkm
        obtain rfl := Option.some.inj (hmount.symm.trans hother)
        obtain ⟨-, before, b, after, hsplit, hb, hnone⟩ := hserved
        rw [hqueue] at hsplit
        cases before with
        | nil =>
          cases hsplit
          exact absurd hb hown
        | cons c before =>
          cases hsplit
          exact ⟨hfetching, before, b, after, rfl, hb, fun x hx => hnone x (List.mem_cons_of_mem _ hx)⟩
    · rename_i relPath hmissing
      obtain ⟨agent, -, rfl⟩ := Option.map_eq_some_iff.mp hs
      refine h.of_mounts (Or.inr rfl) fun k other _ hother hserved => served_set hother hserved fun hkm => ?_
      subst hkm
      obtain rfl := Option.some.inj (hmount.symm.trans hother)
      -- the next access needs no fetch
      obtain ⟨-, before, b, after, hsplit, -, hnone⟩ := hserved
      have hfirst : a ∈ before ++ [b] := by
        rw [hqueue] at hsplit
        cases before with
        | nil =>
          cases hsplit
          exact List.mem_singleton_self a
        | cons c before =>
          cases hsplit
          exact List.mem_cons_self
      rw [hnone a hfirst] at hmissing
      cases hmissing
  · cases hs

theorem handlerInv_fetched {m : ℕ} (h : HandlerInv s) (hs : fetchedStep parseRead s m = some s') : HandlerInv s' := by
  obtain ⟨mount, hmount, hs⟩ := Option.bind_eq_some_iff.mp hs
  obtain ⟨⟨a, relPath, i⟩, hfetching, hs⟩ := Option.bind_eq_some_iff.mp hs
  obtain ⟨call, -, hs⟩ := Option.bind_eq_some_iff.mp hs
  split at hs
  · cases hs
    refine h.of_mounts (blocked_reply _ _) fun k other _ hother hserved => ?_
    rw [mounts_reply]
    refine served_set hother hserved fun hkm => ?_
    subst hkm
    obtain rfl := Option.some.inj (hmount.symm.trans hother)
    rw [hserved.1] at hfetching
    cases hfetching
  · cases hs

/-- A handler that waits does not return. -/
theorem step_agent {a : AgentChannel.Act} (hs : step parseRead s (.agent a) = some s') :
    (∃ agent, AgentChannel.step s.agent a = some agent ∧ s' = { s with agent := agent }) ∧
      ∀ answer, a = .handled answer → s.blocked = none := by
  dsimp only [step] at hs
  split at hs
  · cases hs
  · rename_i hnot
    obtain ⟨agent, hagent, rfl⟩ := Option.map_eq_some_iff.mp hs
    refine ⟨⟨agent, hagent, rfl⟩, fun answer ha => ?_⟩
    cases hblocked : s.blocked with
    | none => rfl
    | some m => exact absurd hblocked (hnot answer m ha)

theorem handlerInv_step {a : Act} (h : HandlerInv s) (hfree : NothingToFetch s a) (hs : step parseRead s a = some s') :
    HandlerInv s' := by
  cases a with
  | agent a =>
    obtain ⟨⟨agent, -, rfl⟩, -⟩ := step_agent hs
    exact h
  | mount i nodes =>
    obtain ⟨call, -, hs⟩ := Option.bind_eq_some_iff.mp hs
    split at hs
    · cases hs
      refine h.of_mounts (Or.inr rfl) fun k mount _ hmount hserved => ⟨mount, ?_, hserved⟩
      exact Lists.getElem?_append_of_some hmount _
    · cases hs
  | access m op => exact handlerInv_access hfree hs
  | otherAccess m op => exact handlerInv_otherAccess h hs
  | serve m => exact handlerInv_serve h hs
  | fetched m => exact handlerInv_fetched h hs

theorem never_waits_on_itself_when_nothing_to_fetch (parseRead : Value → Option (List UInt8)) (acts : List Act) (s : State)
    (hrun : run (step parseRead) init acts = some s) (hfree : RunOk (step parseRead) NothingToFetch init acts) :
    ¬ WaitsOnItself s := by
  have hinit : HandlerInv init := fun m hm => by cases hm
  have hinv := run_inv HandlerInv (fun _ _ _ h hp hs => handlerInv_step h hp hs) hinit hfree hrun
  rintro ⟨frame, id, method, params, m, mount, a, relPath, i, call, k, response, -, hblocked, hmount, hfetching, -⟩
  obtain ⟨mount', hmount', hserved⟩ := hinv m hblocked
  obtain rfl := Option.some.inj (hmount.symm.trans hmount')
  rw [hserved.1] at hfetching
  cases hfetching

/-! Two runs -/

def exampleNodes : List (UInt64 × FsNode) :=
  [(1, .dir [2]), (2, .dir [3, 4]), (3, .file "s/a.txt" 5), (4, .file "s/SKILL.md" 0)]

/-- What the gateway sends on `skills/read`. -/
def parseData (value : Value) : Option (List UInt8) :=
  match mapGet value "data" with
  | some (.binary data) => some data.toList
  | _ => none

def dataFrame (id : UInt64) : Value :=
  resultFrame (ofU64 id) (mpMap [("data", .binary ⟨#[104, 101, 108, 108, 111]⟩)])

/-- The agent asks for the skills, and mounts them. -/
def mountRun : List Act :=
  [.agent (.request false "skills/list" .nil), .agent (.call 0), .agent (.call 0), .agent (.call 0),
    .agent (.arrive (.message (resultFrame (ofU64 1) .nil))), .agent .receive, .agent (.call 0), .mount 0 exampleNodes]

/-- Another process reads the file, which is fetched. -/
def cacheRun : List Act :=
  [.otherAccess 0 (.read 3 0 4096), .serve 0, .agent (.call 1), .agent (.call 1), .agent (.call 1),
    .agent (.arrive (.message (dataFrame 2))), .agent .receive, .agent (.call 1), .fetched 0]

def readFileFrame : Value := buildRpcRequest 7 "fs/read_file" (mpMap [("path", .string "/workspace/agents/skills/s/a.txt")])

def readFileRun : List Act := [.agent (.arrive (.message readFileFrame)), .agent .receive]

/-- A file in the cache is read, and the loop goes on. -/
theorem cached_file_does_not_wait :
    ∃ s, run (step parseData) init (mountRun ++ cacheRun ++ readFileRun ++ [.access 0 (.read 3 0 4096), .serve 0]) =
      some s ∧
      s.blocked = none ∧ ¬ WaitsOnItself s := by
  obtain ⟨m, hm, mount, hmounts, hfetching, hmissing, hqueue⟩ :
      ∃ m, run (step parseData) init (mountRun ++ cacheRun ++ readFileRun) = some m ∧
        ∃ mount, m.mounts = [mount] ∧ mount.fetching = none ∧ mount.missing (.read 3 0 4096) = none ∧
          mount.queue = [] := by
    refine ⟨_, rfl, _, rfl, rfl, ?_, rfl⟩
    rfl
  obtain ⟨s, hrun, hblocked⟩ : ∃ s, run (step parseData) init
      (mountRun ++ cacheRun ++ readFileRun ++ [.access 0 (.read 3 0 4096), .serve 0]) = some s ∧ s.blocked = none := by
    refine ⟨_, rfl, ?_⟩
    rfl
  have hbefore : RunOk (step parseData) NothingToFetch init (mountRun ++ cacheRun ++ readFileRun) := by
    refine runOk_of_mem ?_ init
    simp [mountRun, cacheRun, readFileRun, NothingToFetch]
  have haccess : NothingToFetch m (.access 0 (.read 3 0 4096)) := by
    intro other hother
    rw [hmounts] at hother
    cases hother
    refine ⟨hfetching, hmissing, fun a ha => ?_⟩
    rw [hqueue] at ha
    cases ha
  refine ⟨s, hrun, hblocked, never_waits_on_itself_when_nothing_to_fetch parseData _ s hrun ?_⟩
  exact runOk_append hm hbefore ⟨haccess, fun _ _ => ⟨trivial, fun _ _ => trivial⟩⟩

/-! What cannot change any more -/

/-- The handler's access is at work, and its request has no response. -/
structure Wedged (s : State) (loop : AgentChannel.Loop) (m i : ℕ) (k : UInt64) : Prop where
  loop : s.agent.loop = loop ∧ ∃ frame id method params, loop = .handling frame id method params
  blocked : s.blocked = some m
  fetching : ∃ mount a relPath, s.mounts[m]? = some mount ∧ mount.fetching = some (a, relPath, i)
  call : ∃ call : Call String, s.agent.calls.calls[i]? = some call ∧ call.phase = .waiting k ∧ call.slot = none
  others : ∀ (j : ℕ) (mount : Mount), s.mounts[j]? = some mount → (∀ a ∈ mount.queue, a.byHandler = false) ∧
    (j ≠ m → ∀ a relPath n, mount.fetching = some (a, relPath, n) → a.byHandler = false)

variable {loop : AgentChannel.Loop} {m i : ℕ} {k : UInt64}

theorem waiting_call {c c' : Calls String} {closedError : String} {accepts : Bool} {j : ℕ} {frame : Option Value}
    {call : Call String} (hcall : c.calls[i]? = some call) (hphase : call.phase = .waiting k) (hslot : call.slot = none)
    (hs : c.step closedError accepts j = some (c', frame)) : c'.calls[i]? = some call := by
  obtain ⟨call', hcall', hmove⟩ := Calls.step_move hs
  have hji : j ≠ i := by
    rintro rfl
    obtain rfl := Option.some.inj (hcall.symm.trans hcall')
    cases hmove with
    | wakes _ hset =>
      rw [hslot] at hset
      cases hset
    | allocates hother => rw [hphase] at hother; cases hother
    | inserts hother => rw [hphase] at hother; cases hother
    | sends hother => rw [hphase] at hother; cases hother
    | refused hother => rw [hphase] at hother; cases hother
    | removes hother => rw [hphase] at hother; cases hother
  cases hmove with
  | allocates | inserts | sends | refused | wakes | removes => exact (List.getElem?_set_ne hji).trans hcall

/-- In a handler that does not return the loop reads nothing, and the call goes on waiting. -/
theorem wedged_agent {c c' : AgentChannel.State} {a : AgentChannel.Act} {call : Call String}
    {frame : Value} {id : Option Value} {method : String} {params : Value}
    (hloop : c.loop = .handling frame id method params) (hnot : ∀ answer, a ≠ .handled answer)
    (hcall : c.calls.calls[i]? = some call) (hphase : call.phase = .waiting k) (hslot : call.slot = none)
    (hs : AgentChannel.step c a = some c') : c'.loop = c.loop ∧ c'.calls.calls[i]? = some call := by
  cases a with
  | request blocking method params =>
    cases hs
    exact ⟨rfl, Lists.getElem?_append_of_some hcall _⟩
  | call j =>
    obtain ⟨⟨calls, frame⟩, hstep, rfl⟩ := Option.map_eq_some_iff.mp hs
    exact ⟨rfl, waiting_call hcall hphase hslot hstep⟩
  | event method params =>
    cases hs
    exact ⟨rfl, hcall⟩
  | handled answer => exact absurd rfl (hnot answer)
  | receive | respond | shutdown =>
    simp only [AgentChannel.step, hloop] at hs
    cases hs
  | arrive ev =>
    cases hs
    exact ⟨rfl, hcall⟩
  | writer w =>
    obtain ⟨chan, -, rfl⟩ := Option.map_eq_some_iff.mp hs
    exact ⟨rfl, hcall⟩

theorem Wedged.ofAgent {c : AgentChannel.State} {a : AgentChannel.Act} (h : Wedged s loop m i k)
    (hnot : ∀ answer, a ≠ .handled answer) (hs : AgentChannel.step s.agent a = some c) :
    Wedged { s with agent := c } loop m i k := by
  obtain ⟨⟨hloop, frame, id, method, params, rfl⟩, hblocked, hfetching, ⟨call, hcall, hphase, hslot⟩,
    hothers⟩ := h
  obtain ⟨hsame, hcall'⟩ := wedged_agent hloop hnot hcall hphase hslot hs
  exact ⟨⟨hsame.trans hloop, frame, id, method, params, rfl⟩, hblocked, hfetching,
    ⟨call, hcall', hphase, hslot⟩, hothers⟩

/-- A mount changes, and the one that is at work for the handler stays at work. -/
theorem Wedged.set {j : ℕ} {mount new : Mount} (h : Wedged s loop m i k) (hmount : s.mounts[j]? = some mount)
    (hsame : j = m → new.fetching = mount.fetching) (hqueue : ∀ a ∈ new.queue, a.byHandler = false)
    (hother : j ≠ m → ∀ a relPath n, new.fetching = some (a, relPath, n) → a.byHandler = false) :
    Wedged { s with mounts := s.mounts.set j new } loop m i k := by
  refine { h with fetching := ?_, others := fun l x hx => ?_ }
  · obtain ⟨served, a, relPath, hserved, hfetching⟩ := h.fetching
    by_cases hjm : j = m
    · subst hjm
      obtain rfl := Option.some.inj (hmount.symm.trans hserved)
      exact ⟨new, a, relPath, Lists.getElem?_set_self_of_some hmount, (hsame rfl).trans hfetching⟩
    · exact ⟨served, a, relPath, (List.getElem?_set_ne hjm).trans hserved, hfetching⟩
  · rcases Lists.getElem?_set_cases hx with ⟨rfl, rfl⟩ | ⟨-, hx⟩
    · exact ⟨hqueue, hother⟩
    · exact h.others l x hx

theorem reply_other {a : Access} (ha : a.byHandler = false) : reply s a = s := by
  rw [reply, if_neg (by simp [ha])]

theorem wedged_serve {j : ℕ} (h : Wedged s loop m i k) (hs : serveStep s j = some s') : Wedged s' loop m i k := by
  obtain ⟨mount, hmount, hs⟩ := Option.bind_eq_some_iff.mp hs
  split at hs
  · rename_i a queue hfetching hqueue
    have hjm : j ≠ m := by
      rintro rfl
      obtain ⟨served, b, relPath, hserved, hset⟩ := h.fetching
      obtain rfl := Option.some.inj (hmount.symm.trans hserved)
      rw [hfetching] at hset
      cases hset
    obtain ⟨hothers, -⟩ := h.others j mount hmount
    rw [hqueue] at hothers
    have ha : a.byHandler = false := hothers a List.mem_cons_self
    have hrest : ∀ b ∈ queue, b.byHandler = false := fun b hb => hothers b (List.mem_cons_of_mem a hb)
    split at hs
    · cases hs
      rw [reply_other ha]
      refine h.set hmount (fun hset => absurd hset hjm) hrest fun _ b relPath n hset => ?_
      rw [hfetching] at hset
      cases hset
    · rename_i relPath hmissing
      obtain ⟨agent, hagent, rfl⟩ := Option.map_eq_some_iff.mp hs
      have hnext := h.ofAgent (fun answer hset => by cases hset) hagent
      refine hnext.set hmount (fun hset => absurd hset hjm) hrest fun _ b relPath' n hset => ?_
      cases hset
      exact ha
  · cases hs

theorem wedged_fetched {j : ℕ} (h : Wedged s loop m i k) (hs : fetchedStep parseRead s j = some s') :
    Wedged s' loop m i k := by
  obtain ⟨mount, hmount, hs⟩ := Option.bind_eq_some_iff.mp hs
  obtain ⟨⟨a, relPath, n⟩, hfetching, hs⟩ := Option.bind_eq_some_iff.mp hs
  obtain ⟨call, hcall, hs⟩ := Option.bind_eq_some_iff.mp hs
  split at hs
  · rename_i result hphase
    cases hs
    have hjm : j ≠ m := by
      rintro rfl
      obtain ⟨served, b, relPath', hserved, hset⟩ := h.fetching
      obtain rfl := Option.some.inj (hmount.symm.trans hserved)
      rw [hfetching] at hset
      cases hset
      -- the call has not returned
      obtain ⟨call', hcall', hwaiting, -⟩ := h.call
      obtain rfl := Option.some.inj (hcall.symm.trans hcall')
      rw [hphase] at hwaiting
      cases hwaiting
    obtain ⟨hqueue, hothers⟩ := h.others j mount hmount
    rw [reply_other (hothers hjm a relPath n hfetching)]
    exact h.set hmount (fun hset => absurd hset hjm) hqueue fun _ b p q hset => by cases hset
  · cases hs

theorem wedged_step {a : Act} (h : Wedged s loop m i k) (hs : step parseRead s a = some s') : Wedged s' loop m i k := by
  cases a with
  | agent a =>
    obtain ⟨⟨c, hc, rfl⟩, hfree⟩ := step_agent hs
    refine h.ofAgent (fun answer ha => ?_) hc
    have hnone := hfree answer ha
    rw [h.blocked] at hnone
    cases hnone
  | mount n nodes =>
    obtain ⟨call, -, hs⟩ := Option.bind_eq_some_iff.mp hs
    split at hs
    · cases hs
      obtain ⟨served, b, relPath, hserved, hfetching⟩ := h.fetching
      refine { h with fetching := ⟨served, b, relPath, ?_, hfetching⟩, others := fun j mount hmount => ?_ }
      · exact Lists.getElem?_append_of_some hserved _
      · rcases Lists.getElem?_concat_cases hmount with hmount | rfl
        · exact h.others j mount hmount
        · exact ⟨fun a ha => absurd ha List.not_mem_nil, fun _ a relPath n hset => by cases hset⟩
    · cases hs
  | access j op =>
    simp only [step, h.blocked] at hs
    split at hs
    · rename_i hset
      cases hset
    · cases hs
  | otherAccess j op =>
    obtain ⟨mount, hmount, rfl⟩ := Option.map_eq_some_iff.mp hs
    obtain ⟨hqueue, hother⟩ := h.others j mount hmount
    refine h.set hmount (fun _ => rfl) (fun a ha => ?_) hother
    rcases List.mem_append.mp ha with ha | ha
    · exact hqueue a ha
    · rw [List.mem_singleton.mp ha]
  | serve j => exact wedged_serve h hs
  | fetched j => exact wedged_fetched h hs

/-- The file is not in the cache: the response to the thread's request comes in behind the handler. -/
def uncachedRun : List Act :=
  mountRun ++ readFileRun ++ [.access 0 (.read 3 0 4096), .serve 0, .agent (.call 1), .agent (.call 1), .agent (.call 1),
    .agent (.arrive (.message (dataFrame 2)))]

/-- The loop waits on itself, and whatever happens it does not get out of the handler. -/
theorem uncached_file_waits_on_itself :
    ∃ s, run (step parseData) init uncachedRun = some s ∧ WaitsOnItself s ∧
      ∀ acts s', run (step parseData) s acts = some s' → s'.agent.loop = s.agent.loop ∧ s'.blocked = some 0 := by
  obtain ⟨s, hrun, hwaits, loop, hwedged⟩ : ∃ s, run (step parseData) init uncachedRun = some s ∧ WaitsOnItself s ∧
      ∃ loop, Wedged s loop 0 1 2 := by
    refine ⟨_, rfl, ?_, _, ⟨⟨rfl, _, _, _, _, rfl⟩, rfl, ⟨_, _, _, rfl, rfl⟩, ⟨_, rfl, rfl, rfl⟩,
      fun j mount hmount => ?_⟩⟩
    · exact ⟨_, _, _, _, 0, _, _, _, 1, _, 2, dataFrame 2, rfl, rfl, rfl, rfl, rfl, rfl, List.mem_cons_self,
        List.mem_cons_self, rfl⟩
    · cases j with
      | zero =>
        cases hmount
        exact ⟨fun a ha => absurd ha List.not_mem_nil, fun hne => absurd rfl hne⟩
      | succ j => cases hmount
  refine ⟨s, hrun, hwaits, fun acts s' hlater => ?_⟩
  have hinv := run_inv_all (fun s => Wedged s loop 0 1 2) (fun _ _ _ h hs => wedged_step h hs) hwedged hlater
  exact ⟨hinv.loop.1.trans hwedged.loop.1.symm, hinv.blocked⟩

end Nexal.Link.SkillsMount
