import Nexal.Sanity.AgentPool
import Nexal.Spec.WorkerMessages

/-! Messages of workers follow the edges of the tree. Keys of chats and ids of workers are told apart by the `:`, and
what a chat's key is split into makes up the same key again. -/

namespace Nexal.WorkerMessages

open AgentPool (Agent Pool Received chatKey childReport sessionKey)
open Runs
open Workers (RowUpdate UserContent WorkerId)

/-! Keys -/

theorem split_at_colon {l : List Char} (h : ':' ∈ l) :
    l.takeWhile (· ≠ ':') ++ ':' :: (l.dropWhile (· ≠ ':')).tail = l := by
  induction l with
  | nil => cases h
  | cons c l ih =>
    by_cases hc : c = ':'
    · subst hc
      simp
    · have hmem : ':' ∈ l := (List.mem_cons.mp h).resolve_left fun heq => hc heq.symm
      simpa [hc] using ih hmem

theorem chatKey_toList (channel chatId : String) :
    (chatKey channel chatId).toList = channel.toList ++ ':' :: chatId.toList := by
  simp [chatKey, String.toList_append]

/-- A chat's key is told from an id by the `:`, whatever the channel and the chat are. -/
theorem isChat_iff (key : String) : (∃ channel chatId, key = chatKey channel chatId) ↔ ':' ∈ key.toList := by
  constructor
  · rintro ⟨channel, chatId, rfl⟩
    rw [chatKey_toList]
    exact List.mem_append_right _ List.mem_cons_self
  · intro h
    refine ⟨String.ofList (key.toList.takeWhile (· ≠ ':')), String.ofList (key.toList.dropWhile (· ≠ ':')).tail,
      ?_⟩
    rw [← String.toList_inj, chatKey_toList, String.toList_ofList, String.toList_ofList, split_at_colon h]

/-- The report's message is of the chat it was sent to: the key is split at its first `:` and put together again. -/
theorem childReport_key {key sender : String} {content : UserContent} {now : ℤ} {msg : Debounce.IncomingMessage}
    (h : childReport key sender content now = some msg) : ':' ∈ key.toList ∧ sessionKey msg = key := by
  rw [childReport] at h
  split_ifs at h with hcolon
  cases h
  refine ⟨hcolon, ?_⟩
  rw [sessionKey, ← String.toList_inj, chatKey_toList, String.toList_ofList, String.toList_ofList, split_at_colon hcolon]

/-! What stays of the workers -/

def Registry.parentOf (w : Registry) (id : WorkerId) : Option String := (w.get id).map (·.parentSessionKey)

def Registry.edges (w : Registry) : List (WorkerId × String) := w.runners.map fun x => (x.row.id, x.row.parentSessionKey)

def WorkerAgent.inbox (x : WorkerAgent) : List Received := (x.agent.map (·.inbox)).getD []

def Registry.inbox (w : Registry) (r : ℕ) : List Received := (w.runners[r]?.map WorkerAgent.inbox).getD []

structure Grows (w w' : Registry) : Prop where
  parents : ∀ id key, w.parentOf id = some key → w'.parentOf id = some key
  edges : w.edges <+: w'.edges

theorem Grows.same {w w' : Registry} (hrows : w'.rows = w.rows) (hedges : w'.edges = w.edges) : Grows w w' := by
  refine ⟨fun id key h => ?_, hedges ▸ List.prefix_refl _⟩
  rwa [Registry.parentOf, Registry.get, hrows]

theorem Grows.edge {w w' : Registry} (h : Grows w w') {r : ℕ} {e : WorkerId × String} (he : w.edges[r]? = some e) :
    w'.edges[r]? = some e := by
  obtain ⟨more, hmore⟩ := h.edges
  rw [← hmore]
  exact Lists.getElem?_append_of_some he _

structure RegistryOk (w : Registry) : Prop where
  runners : ∀ x ∈ w.runners, w.parentOf x.row.id = some x.row.parentSessionKey
  agents : ∀ id r, w.agents.lookup id = some r → ∃ key, w.edges[r]? = some (id, key)

section Registry
variable {w : Registry}

theorem get_id {id : WorkerId} {row : TreeRow} (h : w.get id = some row) : row.id = id := by
  simpa using List.find?_some h

theorem update_id (row : TreeRow) (u : RowUpdate) : (row.update u).id = row.id := by
  cases u with
  | _ => rfl

theorem parentOf_update (w : Registry) (id : WorkerId) (u : RowUpdate) (id' : WorkerId) :
    (w.update id u).parentOf id' = w.parentOf id' := by
  have hid : ((fun row : TreeRow => decide (row.id = id')) ∘ fun row : TreeRow => if row.id = id then row.update u
    else row) =
      fun row : TreeRow => decide (row.id = id') := by
    funext row
    rw [Function.comp_apply]
    split_ifs
    · rw [update_id]
    · rfl
  rw [Registry.parentOf, Registry.parentOf, Registry.get, Registry.get, Registry.update, List.find?_map, hid, Option.map_map]
  congr 1
  funext row
  rw [Function.comp_apply]
  split_ifs
  · rfl
  · rfl

theorem grows_update (w : Registry) (id : WorkerId) (u : RowUpdate) : Grows w (w.update id u) :=
  ⟨fun id' _ h => (parentOf_update w id u id').trans h, List.prefix_refl _⟩

theorem RegistryOk.update (h : RegistryOk w) (id : WorkerId) (u : RowUpdate) : RegistryOk (w.update id u) :=
  ⟨fun x hx => (parentOf_update w id u _).trans (h.runners x hx), h.agents⟩

theorem edges_modifyRunner (w : Registry) (r : ℕ) {f : WorkerAgent → WorkerAgent} (hf : ∀ x, (f x).row = x.row) :
    (w.modifyRunner r f).edges = w.edges :=
  Lists.map_modify_of_eq (fun x => by rw [hf]) _ _

theorem grows_modifyRunner (w : Registry) (r : ℕ) {f : WorkerAgent → WorkerAgent} (hf : ∀ x, (f x).row = x.row) :
    Grows w (w.modifyRunner r f) :=
  .same rfl (edges_modifyRunner w r hf)

theorem RegistryOk.modifyRunner (h : RegistryOk w) (r : ℕ) {f : WorkerAgent → WorkerAgent}
    (hf : ∀ x, (f x).row = x.row) :
    RegistryOk (w.modifyRunner r f) := by
  refine ⟨Lists.forall_mem_modify h.runners fun x _ hx => ?_, ?_⟩
  · rw [hf]
    exact hx
  · rw [edges_modifyRunner w r hf]
    exact h.agents

theorem inbox_modifyRunner (w : Registry) (r j : ℕ) {f : WorkerAgent → WorkerAgent} (hf : ∀ x, (f x).inbox = x.inbox) :
    (w.modifyRunner r f).inbox j = w.inbox j := by
  have hmap : (w.runners.modify r f).map WorkerAgent.inbox = w.runners.map WorkerAgent.inbox := Lists.map_modify_of_eq hf _ _
  rw [Registry.inbox, Registry.inbox, ← List.getElem?_map, ← List.getElem?_map]
  exact congrArg (fun l : List (List Received) => l[j]?.getD []) hmap

theorem inbox_mapAgent {f : Agent → Agent} (hf : ∀ a, (f a).inbox = a.inbox) (x : WorkerAgent) :
    (x.mapAgent f).inbox = x.inbox := by
  cases hagent : x.agent with
  | none => simp [WorkerAgent.inbox, WorkerAgent.mapAgent, hagent]
  | some a => simp [WorkerAgent.inbox, WorkerAgent.mapAgent, hagent, hf]

theorem inbox_newAgent (x : WorkerAgent) : x.newAgent.inbox = x.inbox := by
  cases hagent : x.agent with
  | none => simp [WorkerAgent.inbox, WorkerAgent.newAgent, hagent, AgentPool.Agent.new]
  | some a => simp [WorkerAgent.inbox, WorkerAgent.newAgent, hagent]

/-- What an event does to the workers that are there: nothing to their edges, nothing to their inboxes. -/
structure Keeps (w w' : Registry) : Prop where
  grows : Grows w w'
  ok : RegistryOk w'
  inbox : ∀ r, w'.inbox r = w.inbox r

theorem keeps_modifyRunner (h : RegistryOk w) (r : ℕ) {f : WorkerAgent → WorkerAgent} (hrow : ∀ x, (f x).row = x.row)
    (hinbox : ∀ x, (f x).inbox = x.inbox) : Keeps w (w.modifyRunner r f) :=
  ⟨grows_modifyRunner w r hrow, h.modifyRunner r hrow, fun j => inbox_modifyRunner w r j hinbox⟩

theorem keeps_spawn (h : RegistryOk w) (c : Workers.WorkerCreate) (name parentSessionKey : String) :
    Keeps w (w.spawn c name parentSessionKey) := by
  rw [Registry.spawn]
  split_ifs
  · exact ⟨.same rfl rfl, h, fun _ => rfl⟩
  · have hparents : ∀ (row : TreeRow) id key, w.parentOf id = some key →
        Registry.parentOf { w with rows := w.rows ++ [row] } id = some key := by
      intro row id key hkey
      obtain ⟨old, hold, rfl⟩ := Option.map_eq_some_iff.mp hkey
      rw [Registry.parentOf, Registry.get, List.find?_append, show w.rows.find? _ = some old from hold]
      rfl
    exact ⟨⟨hparents _, List.prefix_refl _⟩, ⟨fun x hx => hparents _ _ _ (h.runners x hx), h.agents⟩,
      fun _ => rfl⟩

/-- A new runner has the edge of its row, and nothing in its inbox. -/
theorem keeps_startAgent (h : RegistryOk w) (id : WorkerId) : Keeps w (w.startAgent id) := by
  rw [Registry.startAgent]
  split
  · rename_i row hrow
    split_ifs
    · exact ⟨.same rfl rfl, h, fun _ => rfl⟩
    · have hedges : Registry.edges { w with runners := w.runners ++ [⟨row, false, none⟩] } =
          w.edges ++ [(row.id, row.parentSessionKey)] := List.map_append
      refine ⟨⟨fun _ _ hkey => hkey, ?_⟩, ⟨fun x hx => ?_, fun id' r hr => ?_⟩, fun r => ?_⟩
      · exact hedges ▸ List.prefix_append _ _
      · rcases List.mem_append.mp hx with hold | hnew
        · exact h.runners x hold
        · cases List.mem_singleton.mp hnew
          show (w.get row.id).map _ = _
          rw [get_id hrow, hrow]
          rfl
      · show ∃ key, (Registry.edges { w with runners := w.runners ++ [⟨row, false, none⟩] })[r]? = some (id', key)
        rw [hedges]
        rcases Lists.lookup_of_insert hr with ⟨rfl, rfl⟩ | ⟨-, hold⟩
        · refine ⟨row.parentSessionKey, ?_⟩
          rw [get_id hrow]
          simp [Registry.edges]
        · obtain ⟨key, hkey⟩ := h.agents id' r hold
          exact ⟨key, Lists.getElem?_append_of_some hkey _⟩
      · rw [Registry.inbox, Registry.inbox]
        rw [Lists.getElem?_concat]
        split_ifs with hlast
        · rw [hlast, List.getElem?_eq_none le_rfl]
          rfl
        · rfl
  · exact ⟨.same rfl rfl, h, fun _ => rfl⟩

theorem keeps_step (h : RegistryOk w) (e : RegistryEvent) : Keeps w (w.step e) := by
  cases e with
  | spawn c name parentSessionKey => exact keeps_spawn h c name parentSessionKey
  | update id u => exact ⟨grows_update w id u, h.update id u, fun _ => rfl⟩
  | startAgent id => exact keeps_startAgent h id
  | gotClient r => exact keeps_modifyRunner h r (fun _ => rfl) fun _ => rfl
  | newAgent r => exact keeps_modifyRunner h r (fun _ => rfl) inbox_newAgent
  | streaming r isStreaming => exact keeps_modifyRunner h r (fun _ => rfl) (inbox_mapAgent fun _ => rfl)
  | onTerminal id => exact ⟨.same rfl rfl, ⟨h.runners,
    fun id' r hr => h.agents id' r (Lists.lookup_of_erase hr).2⟩, fun _ => rfl⟩
  | shutdown =>
    refine ⟨.same rfl rfl, ⟨h.runners, fun id r hr => ?_⟩, fun _ => rfl⟩
    rw [show (w.step .shutdown).agents = ∅ from rfl, AList.lookup_empty] at hr
    cases hr

end Registry

/-! Recipients -/

inductive Recipient where
  | worker (runner : ℕ)
  | session (session : ℕ)

def State.inbox (s : State) : Recipient → List Received
  | .worker r => s.registry.inbox r
  | .session session => ((s.pool.bind fun p => p.created[session]?).map (·.agent.inbox)).getD []

/-- The agent has taken the message of the call at `i`, by itself or in a batch. -/
def State.Reaches (s : State) (i : ℕ) (dest : Recipient) : Prop :=
  ∃ m ∈ s.inbox dest, m.origin = .send i ∨ ∃ batch msg send, m.origin = .batch batch ∧ msg ∈ batch ∧
    s.sends[i]? = some send ∧ send.phase = .forwarded (some msg)

def State.IsParent (s : State) (key : String) : Recipient → Prop
  | .worker r => (¬ ∃ channel chatId, key = chatKey channel chatId) ∧
    ∃ x, s.registry.runners[r]? = some x ∧ x.row.id = key
  | .session session => (∃ channel chatId, key = chatKey channel chatId) ∧
    ∃ p x, s.pool = some p ∧ p.created[session]? = some x ∧ x.key = key

/-- The recipient is at the other end of an edge on which the call may send. -/
def State.Follows (s : State) : Call → Recipient → Prop
  | .sendToAgentFromCaller callerKey targetId _, .worker r =>
    (∃ x, s.registry.runners[r]? = some x ∧ x.row.id = targetId ∧ x.row.parentSessionKey = callerKey) ∧
      ∃ target, s.registry.get targetId = some target ∧ target.parentSessionKey = callerKey
  | .sendToAgentFromCaller _ _ _, .session _ => False
  | .sendToParent callerId _, dest => ∃ caller, s.registry.get callerId = some caller ∧
    s.IsParent caller.parentSessionKey dest

/-! Calls -/

def Addressed (w : Registry) (r : ℕ) : Call → Prop
  | .sendToAgentFromCaller callerKey targetId _ => w.parentOf targetId = some callerKey ∧
    w.edges[r]? = some (targetId, callerKey)
  | .sendToParent callerId _ =>
    ∃ parentKey key, w.parentOf callerId = some parentKey ∧ ':' ∉ parentKey.toList ∧
    w.edges[r]? = some (parentKey, key)

def Phase.Ok (w : Registry) (call : Call) : Phase → Prop
  | .writing r _ | .marking r _ | .recording r _ | .handed r => Addressed w r call
  | .forwarded (some msg) =>
    ∃ callerId content, call = .sendToParent callerId content ∧ w.parentOf callerId = some (sessionKey msg) ∧
      ':' ∈ (sessionKey msg).toList
  | .fetching | .explaining _ | .forwarded none | .refused _ => True

def Handed (sends : List Send) (r : ℕ) (m : Received) : Prop :=
  ∃ i send, m.origin = .send i ∧ sends[i]? = some send ∧ send.phase = .handed r

structure Inv (s : State) : Prop where
  registry : RegistryOk s.registry
  pool : ∀ p, s.pool = some p → AgentPool.Inv p
  sends : ∀ send ∈ s.sends, send.phase.Ok s.registry send.call
  inboxes : ∀ r, ∀ m ∈ s.registry.inbox r, Handed s.sends r m

theorem Addressed.grow {w w' : Registry} {r : ℕ} {call : Call} (h : Addressed w r call) (hgrows : Grows w w') :
    Addressed w' r call := by
  cases call with
  | sendToAgentFromCaller callerKey targetId content => exact ⟨hgrows.parents _ _ h.1, hgrows.edge h.2⟩
  | sendToParent callerId content =>
    obtain ⟨parentKey, key, hparent, hcolon, hedge⟩ := h
    exact ⟨parentKey, key, hgrows.parents _ _ hparent, hcolon, hgrows.edge hedge⟩

theorem Phase.Ok.grow {w w' : Registry} {call : Call} {phase : Phase} (h : phase.Ok w call) (hgrows : Grows w w') :
    phase.Ok w' call := by
  cases phase with
  | fetching => trivial
  | explaining id => trivial
  | writing r content => exact Addressed.grow h hgrows
  | marking r content => exact Addressed.grow h hgrows
  | recording r content => exact Addressed.grow h hgrows
  | handed r => exact Addressed.grow h hgrows
  | forwarded msg =>
    cases msg with
    | none => trivial
    | some msg =>
      obtain ⟨callerId, content, hcall, hparent, hcolon⟩ := h
      exact ⟨callerId, content, hcall, hgrows.parents _ _ hparent, hcolon⟩
  | refused error => trivial

def Phase.isHanded : Phase → Bool
  | .handed _ => true
  | _ => false

inductive Moves (s : State) (i : ℕ) (call : Call) : State → Prop where
  | goto (phase : Phase) (hphase : phase.Ok s.registry call) : Moves s i call (s.goto i call phase)
  | mark (r : ℕ) (content : UserContent) (id : WorkerId) (hr : Addressed s.registry r call) :
    Moves s i call { s.goto i call (.recording r content) with registry := s.registry.update id .markStarted }
  | hand (r : ℕ) (content : UserContent) (f : Agent → Agent) (hr : Addressed s.registry r call)
    (hf : ∀ a, (f a).inbox = a.inbox ++ [⟨.send i, content⟩]) : Moves s i call (s.hand i call r f)
  | forward (callerId : WorkerId) (content : UserContent) (parentKey sender : String) (now : ℤ)
    (hcall : call = .sendToParent callerId content) (hparent : s.registry.parentOf callerId = some parentKey)
    (hcolon : ':' ∈ parentKey.toList) : Moves s i call (s.forward i call parentKey sender content now)

section Calls
variable {s s' : State} {i : ℕ} {call : Call} {r : ℕ} {content : UserContent}

theorem steerOrMark_moves (hr : Addressed s.registry r call) (hs : s.steerOrMark i call r content = some s') :
    Moves s i call s' := by
  obtain ⟨a, -, rfl⟩ := Option.map_eq_some_iff.mp hs
  split_ifs
  · exact .hand r content _ hr fun _ => rfl
  · exact .goto _ hr

theorem promptAgent_moves (hr : Addressed s.registry r call) (hs : s.promptAgent i call r content = some s') :
    Moves s i call s' := by
  obtain ⟨a, -, rfl⟩ := Option.map_eq_some_iff.mp hs
  split_ifs
  · exact .goto _ trivial
  · exact .hand r content _ hr fun _ => rfl

theorem route_moves {x : WorkerAgent} (hr : Addressed s.registry r call) (hs : s.route i call r x content = some s') :
    Moves s i call s' := by
  rw [State.route] at hs
  split_ifs at hs
  · cases hs
    exact .goto _ trivial
  · cases hs
    exact .goto _ trivial
  · cases hs
    exact .goto _ hr
  · exact steerOrMark_moves hr hs

theorem sendToAgent_moves {id : WorkerId} (haddressed : ∀ r, s.registry.agents.lookup id = some r →
      Addressed s.registry r call)
    (hs : s.sendToAgent i call id content = some s') : Moves s i call s' := by
  rw [State.sendToAgent] at hs
  split at hs
  · rename_i r x hlookup
    obtain ⟨j, hj, hx⟩ := Option.bind_eq_some_iff.mp hlookup
    obtain ⟨y, -, heq⟩ := Option.map_eq_some_iff.mp hx
    cases heq
    split_ifs at hs
    · exact route_moves (haddressed _ hj) hs
    · cases hs
      exact .goto _ trivial
  · cases hs
    exact .goto _ trivial

/-- The runner of a worker stands for an edge of the store. -/
theorem RegistryOk.edge {w : Registry} (h : RegistryOk w) {id : WorkerId} (hr : w.agents.lookup id = some r) :
    ∃ key, w.edges[r]? = some (id, key) ∧ w.parentOf id = some key := by
  obtain ⟨key, hedge⟩ := h.agents id r hr
  refine ⟨key, hedge, ?_⟩
  rw [Registry.edges, List.getElem?_map] at hedge
  obtain ⟨x, hx, heq⟩ := Option.map_eq_some_iff.mp hedge
  cases heq
  exact h.runners x (List.mem_of_getElem? hx)

theorem fetched_moves {forwardToCoordinator : Bool} {now : ℤ} (h : RegistryOk s.registry)
    (hs : s.fetched i forwardToCoordinator now call = some s') : Moves s i call s' := by
  cases call with
  | sendToAgentFromCaller callerKey targetId content =>
    rw [State.fetched] at hs
    split at hs
    · rename_i target htarget
      split_ifs at hs with hkey
      · have hparent : s.registry.parentOf targetId = some callerKey := by
          rw [Registry.parentOf, htarget, Option.map_some, hkey]
        refine sendToAgent_moves (fun r hr => ⟨hparent, ?_⟩) hs
        obtain ⟨key, hedge, hstored⟩ := h.edge hr
        rwa [Option.some.inj (hstored.symm.trans hparent)] at hedge
      · cases hs
        exact .goto _ trivial
    · cases hs
      exact .goto _ trivial
  | sendToParent callerId content =>
    rw [State.fetched] at hs
    split at hs
    · rename_i caller hcaller
      have hparent : s.registry.parentOf callerId = some caller.parentSessionKey := by
        rw [Registry.parentOf, hcaller, Option.map_some]
      split_ifs at hs with hcolon hconfigured
      · cases hs
        exact .forward callerId content _ _ now rfl hparent hcolon
      · cases hs
        exact .goto _ trivial
      · refine sendToAgent_moves (fun r hr => ?_) hs
        obtain ⟨key, hedge, -⟩ := h.edge hr
        exact ⟨caller.parentSessionKey, key, hparent, hcolon, hedge⟩
    · cases hs
      exact .goto _ trivial

theorem answer_moves {forwardToCoordinator : Bool} {now : ℤ} {send : Send} {reply : Reply} (h : RegistryOk s.registry)
    (hsend : send.phase.Ok s.registry send.call) (hs : s.answer i forwardToCoordinator now send reply = some s') :
    Moves s i send.call s' ∧ send.phase.isHanded = false := by
  unfold State.answer at hs
  split at hs
  · rename_i hphase
    exact ⟨fetched_moves h hs, by rw [hphase]; rfl⟩
  · rename_i hphase
    cases hs
    exact ⟨.goto _ trivial, by rw [hphase]; rfl⟩
  · rename_i r content images hphase
    rw [hphase] at hsend
    split_ifs at hs
    exact ⟨steerOrMark_moves hsend hs, by rw [hphase]; rfl⟩
  · rename_i r content hphase
    rw [hphase] at hsend
    obtain ⟨x, -, rfl⟩ := Option.map_eq_some_iff.mp hs
    exact ⟨.mark r content _ hsend, by rw [hphase]; rfl⟩
  · rename_i r content hphase
    rw [hphase] at hsend
    exact ⟨promptAgent_moves hsend hs, by rw [hphase]; rfl⟩
  · rename_i hphase
    cases hs
    exact ⟨.goto _ trivial, by rw [hphase]; rfl⟩
  · rename_i hphase
    cases hs
    exact ⟨.goto _ trivial, by rw [hphase]; rfl⟩
  · rename_i hphase
    cases hs
    exact ⟨.goto _ trivial, by rw [hphase]; rfl⟩
  · cases hs

/-! What a step preserves -/

theorem Handed.set {sends : List Send} {m : Received} {send send' : Send} (h : Handed sends r m)
    (hi : sends[i]? = some send) (hnot : send.phase.isHanded = false) : Handed (sends.set i send') r m := by
  obtain ⟨j, x, horigin, hj, hphase⟩ := h
  refine ⟨j, x, horigin, ?_, hphase⟩
  have hij : i ≠ j := by
    rintro rfl
    rw [Option.some.inj (hj.symm.trans hi)] at hphase
    rw [hphase] at hnot
    cases hnot
  rwa [List.getElem?_set_ne hij]

theorem inbox_hand {w : Registry} {f : Agent → Agent} {j : ℕ} {m : Received}
    (hf : ∀ a, (f a).inbox = a.inbox ++ [⟨.send i, content⟩])
    (hm : m ∈ (w.modifyRunner r (WorkerAgent.mapAgent f)).inbox j) :
    m ∈ w.inbox j ∨ (j = r ∧ m = ⟨.send i, content⟩) := by
  rw [Registry.inbox, Registry.modifyRunner, List.getElem?_modify] at hm
  cases hx : w.runners[j]? with
  | none =>
    rw [hx] at hm
    cases hm
  | some x =>
    have hold : w.inbox j = x.inbox := by rw [Registry.inbox, hx, Option.map_some, Option.getD_some]
    rw [hx] at hm
    by_cases hrj : r = j
    · have hcases : m ∈ (x.mapAgent f).inbox := by simpa [hrj] using hm
      cases hagent : x.agent with
      | none =>
        simp [WorkerAgent.inbox, WorkerAgent.mapAgent, hagent] at hcases
      | some a =>
        have hmem : m ∈ a.inbox ++ [⟨.send i, content⟩] := by
          simpa [WorkerAgent.inbox, WorkerAgent.mapAgent, hagent, hf] using hcases
        rcases List.mem_append.mp hmem with hbefore | hnew
        · refine Or.inl ?_
          rw [hold, WorkerAgent.inbox, hagent]
          exact hbefore
        · exact Or.inr ⟨hrj.symm, List.mem_singleton.mp hnew⟩
    · refine Or.inl ?_
      rw [hold]
      simpa [hrj] using hm

/-- A call's step keeps the invariant when what it leaves of the registry does. -/
theorem Inv.set {send : Send} (h : Inv s) (hi : s.sends[i]? = some send) (hnot : send.phase.isHanded = false) {phase : Phase}
    (hphase : phase.Ok s.registry send.call) : Inv (s.goto i send.call phase) where
  registry := h.registry
  pool := h.pool
  sends x hx := by
    rcases List.mem_or_eq_of_mem_set hx with hold | rfl
    · exact h.sends x hold
    · exact hphase
  inboxes r m hm := (h.inboxes r m hm).set hi hnot

theorem Inv.keep {w : Registry} (h : Inv s) (hkeeps : Keeps s.registry w) : Inv { s with registry := w } where
  registry := hkeeps.ok
  pool := h.pool
  sends x hx := (h.sends x hx).grow hkeeps.grows
  inboxes r m hm := h.inboxes r m (hkeeps.inbox r ▸ hm)

theorem Inv.moves {send : Send} (h : Inv s) (hi : s.sends[i]? = some send) (hnot : send.phase.isHanded = false)
    (hmoves : Moves s i send.call s') : Inv s' := by
  cases hmoves with
  | goto phase hphase => exact h.set hi hnot hphase
  | mark r content id hr =>
    have hset : Inv (s.goto i send.call (.recording r content)) := h.set hi hnot hr
    exact hset.keep (keeps_step h.registry (.update id .markStarted))
  | hand r content f hr hf =>
    have hset : Inv (s.goto i send.call (.handed r)) := h.set hi hnot hr
    have hrow : ∀ x : WorkerAgent, (x.mapAgent f).row = x.row := fun _ => rfl
    refine ⟨h.registry.modifyRunner r hrow, h.pool, fun x hx => ?_, fun j m hm => ?_⟩
    · exact (hset.sends x hx).grow (grows_modifyRunner s.registry r hrow)
    · rcases inbox_hand hf hm with hold | ⟨rfl, rfl⟩
      · exact hset.inboxes j m hold
      · exact ⟨i, ⟨send.call, .handed j⟩, rfl, Lists.getElem?_set_self_of_some hi, rfl⟩
  | forward callerId content parentKey sender now hcall hparent hcolon =>
    rw [State.forward]
    split
    · rename_i pool hpool
      cases hreport : childReport parentKey sender content now with
      | none =>
        have hset : Inv (s.goto i send.call (.forwarded none)) := h.set hi hnot trivial
        refine ⟨hset.registry, fun p hp => ?_, hset.sends, hset.inboxes⟩
        rw [Pool.forwardChildReport, hreport] at hp
        cases hp
        exact h.pool pool hpool
      | some msg =>
        have hkey : sessionKey msg = parentKey := (childReport_key hreport).2
        have hset : Inv (s.goto i send.call (.forwarded (some msg))) :=
          h.set hi hnot ⟨callerId, content, hcall, hkey ▸ hparent, hkey ▸ hcolon⟩
        refine ⟨hset.registry, fun p hp => ?_, hset.sends, hset.inboxes⟩
        rw [Pool.forwardChildReport, hreport] at hp
        cases hp
        exact (h.pool pool hpool).handle msg
    · exact h.set hi hnot trivial

theorem inv_step {forwardToCoordinator : Bool} {config : Debounce.DebounceConfig} {e : Event} (h : Inv s)
    (hs : step forwardToCoordinator config s e = some s') : Inv s' := by
  cases e with
  | registry e =>
    cases hs
    exact h.keep (keeps_step h.registry e)
  | newPool =>
    simp only [step] at hs
    split_ifs at hs
    cases hs
    refine ⟨h.registry, fun p hp => ?_, h.sends, h.inboxes⟩
    cases hp
    exact AgentPool.inv_init
  | pool e =>
    obtain ⟨p, hp, rfl⟩ := Option.map_eq_some_iff.mp hs
    obtain ⟨old, hold, hp⟩ := Option.bind_eq_some_iff.mp hp
    refine ⟨h.registry, fun p' hp' => ?_, h.sends, h.inboxes⟩
    cases hp'
    exact AgentPool.inv_step (h.pool old hold) hp
  | call c =>
    cases hs
    refine ⟨h.registry, h.pool, fun x hx => ?_, fun r m hm => ?_⟩
    · rcases List.mem_append.mp hx with hold | hnew
      · exact h.sends x hold
      · cases List.mem_singleton.mp hnew
        trivial
    · obtain ⟨j, x, horigin, hj, hphase⟩ := h.inboxes r m hm
      exact ⟨j, x, horigin, Lists.getElem?_append_of_some hj _, hphase⟩
  | answer i reply now =>
    obtain ⟨send, hi, hs⟩ := Option.bind_eq_some_iff.mp hs
    obtain ⟨hmoves, hnot⟩ := answer_moves h.registry (h.sends send (List.mem_of_getElem? hi)) hs
    exact h.moves hi hnot hmoves

theorem inv_init : Inv init where
  registry := ⟨fun _ hx => absurd hx List.not_mem_nil, fun id r hr => by
    rw [show init.registry.agents = ∅ from rfl, AList.lookup_empty] at hr
    cases hr⟩
  pool p hp := by cases hp
  sends _ hx := absurd hx List.not_mem_nil
  inboxes r m hm := by
    rw [show init.registry.inbox r = [] from rfl] at hm
    cases hm

/-! What holds of every message -/

/-- What a runner's agent has taken of a call the call has handed to it. -/
theorem reaches_worker {send : Send} (h : Inv s) (hi : s.sends[i]? = some send) (hreaches : s.Reaches i (.worker r)) :
    send.phase = .handed r := by
  obtain ⟨m, hm, horigin⟩ := hreaches
  obtain ⟨j, x, hj, hx, hphase⟩ := h.inboxes r m hm
  rcases horigin with horigin | ⟨batch, msg, x, horigin, -⟩
  · cases hj.symm.trans horigin
    rwa [Option.some.inj (hx.symm.trans hi)] at hphase
  · cases hj.symm.trans horigin

/-- What a session's agent has taken of a call the call has forwarded, and the session has its key. -/
theorem reaches_session {send : Send} {session : ℕ} (h : Inv s) (hi : s.sends[i]? = some send)
    (hreaches : s.Reaches i (.session session)) :
    ∃ msg p x, send.phase = .forwarded (some msg) ∧ s.pool = some p ∧ p.created[session]? = some x ∧
    x.key = sessionKey msg := by
  obtain ⟨m, hm, horigin⟩ := hreaches
  cases hx : s.pool.bind fun p => p.created[session]? with
  | none =>
    rw [State.inbox, hx] at hm
    cases hm
  | some x =>
    rw [State.inbox, hx] at hm
    obtain ⟨p, hp, hcreated⟩ := Option.bind_eq_some_iff.mp hx
    obtain ⟨batch, hbatch, hkeyed⟩ := (h.pool p hp).sessions.created x (List.mem_of_getElem? hcreated) m hm
    rcases horigin with horigin | ⟨batch', msg, send', horigin, hmsg, hsend, hphase⟩
    · cases hbatch.symm.trans horigin
    · cases hbatch.symm.trans horigin
      cases hi.symm.trans hsend
      exact ⟨msg, p, x, hphase, hp, hcreated, (hkeyed msg hmsg).symm⟩

theorem addressed_follows (hr : Addressed s.registry r call) : s.Follows call (.worker r) := by
  cases call with
  | sendToAgentFromCaller callerKey targetId content =>
    obtain ⟨hparent, hedge⟩ := hr
    obtain ⟨target, htarget, hkey⟩ := Option.map_eq_some_iff.mp hparent
    rw [Registry.edges, List.getElem?_map] at hedge
    obtain ⟨x, hx, heq⟩ := Option.map_eq_some_iff.mp hedge
    obtain ⟨hid, hx'⟩ := Prod.mk.inj heq
    exact ⟨⟨x, hx, hid, hx'⟩, target, htarget, hkey⟩
  | sendToParent callerId content =>
    obtain ⟨parentKey, key, hparent, hcolon, hedge⟩ := hr
    obtain ⟨caller, hcaller, rfl⟩ := Option.map_eq_some_iff.mp hparent
    rw [Registry.edges, List.getElem?_map] at hedge
    obtain ⟨x, hx, heq⟩ := Option.map_eq_some_iff.mp hedge
    exact ⟨caller, hcaller, fun hchat => hcolon ((isChat_iff _).mp hchat), x, hx, (Prod.mk.inj heq).1⟩

end Calls

/-- A message reaches an agent only along an edge of the tree, and a message that is refused reaches none. -/
theorem messages_follow_edges {forwardToCoordinator : Bool} {config : Debounce.DebounceConfig} {es : List Event} {s : State}
    (h : run (step forwardToCoordinator config) init es = some s) {i : ℕ} {send : Send} (hi : s.sends[i]? = some send) :
    (∀ dest, s.Reaches i dest → s.Follows send.call dest) ∧
      ((∃ error, send.phase = .refused error) → ∀ dest, ¬ s.Reaches i dest) := by
  have hinv : Inv s := run_inv_all Inv (fun _ _ _ hs hstep => inv_step hs hstep) inv_init h
  have hok := hinv.sends send (List.mem_of_getElem? hi)
  refine ⟨fun dest hreaches => ?_, ?_⟩
  · cases dest with
    | worker r =>
      rw [reaches_worker hinv hi hreaches] at hok
      exact addressed_follows hok
    | session session =>
      obtain ⟨msg, p, x, hphase, hp, hx, hkey⟩ := reaches_session hinv hi hreaches
      rw [hphase] at hok
      obtain ⟨callerId, content, hcall, hparent, hcolon⟩ := hok
      obtain ⟨caller, hcaller, hparentKey⟩ := Option.map_eq_some_iff.mp hparent
      rw [hcall]
      refine ⟨caller, hcaller, ?_, p, x, hp, hx, hkey.trans hparentKey.symm⟩
      rw [hparentKey]
      exact (isChat_iff _).mpr hcolon
  · rintro ⟨error, hrefused⟩ dest hreaches
    cases dest with
    | worker r =>
      rw [reaches_worker hinv hi hreaches] at hrefused
      cases hrefused
    | session session =>
      obtain ⟨msg, p, x, hphase, -⟩ := reaches_session hinv hi hreaches
      rw [hphase] at hrefused
      cases hrefused

/-- A sub-coordinator of a chat whose id has a `:`, and its executor. -/
def treeRun : List Event :=
  [.newPool,
    .registry (.spawn ⟨"w1", .coordinator, .persistent, none, .explicit, none⟩ "lead" "telegram:-1:5"),
    .registry (.spawn ⟨"w2", .executor, .persistent, none, .explicit, none⟩ "hand" "w1"),
    .registry (.startAgent "w2"), .registry (.newAgent 0),
    .call (.sendToAgentFromCaller "w1" "w2" (.plain "go")), .answer 0 .done 0, .answer 0 .done 0, .answer 0 .done 0,
    .call (.sendToAgentFromCaller "telegram:-1:5" "w2" (.plain "go")), .answer 1 .done 0,
    .call (.sendToParent "w1" (.plain "done")), .answer 2 .done 0,
    .pool (.debounce 0 (.resume 0)), .pool (.debounce 0 .timer), .pool (.debounce 0 (.resume 1000)),
    .pool (.created 0 true), .pool (.turn 0), .pool (.turn 0), .pool (.turn 0)]

theorem messages_follow_edges_report : ∃ s, run (step true Debounce.defaultDebounce) init treeRun = some s ∧
    s.Follows (.sendToAgentFromCaller "w1" "w2" (.plain "go")) (.worker 0) ∧
    s.Follows (.sendToParent "w1" (.plain "done")) (.session 0) ∧ ∀ dest, ¬ s.Reaches 1 dest := by
  obtain ⟨s, hs, hsent, ⟨error, hrefused⟩, hreported, hworker, hsession⟩ :
      ∃ s, run (step true Debounce.defaultDebounce) init treeRun = some s ∧
        s.sends[0]? = some ⟨.sendToAgentFromCaller "w1" "w2" (.plain "go"), .handed 0⟩ ∧
        (∃ error, s.sends[1]? =
          some ⟨.sendToAgentFromCaller "telegram:-1:5" "w2" (.plain "go"), .refused error⟩) ∧
        (∃ phase, s.sends[2]? = some ⟨.sendToParent "w1" (.plain "done"), phase⟩) ∧
        s.Reaches 0 (.worker 0) ∧ s.Reaches 2 (.session 0) :=
    ⟨_, rfl, rfl, ⟨_, rfl⟩, ⟨_, rfl⟩, ⟨_, List.mem_cons_self, Or.inl rfl⟩,
      ⟨_, List.mem_cons_self, Or.inr ⟨_, _, _, rfl, List.mem_cons_self, rfl, rfl⟩⟩⟩
  obtain ⟨phase, hreported⟩ := hreported
  exact ⟨s, hs, (messages_follow_edges hs hsent).1 _ hworker, (messages_follow_edges hs hreported).1 _ hsession,
    (messages_follow_edges hs hrefused).2 ⟨error, rfl⟩⟩

end Nexal.WorkerMessages
