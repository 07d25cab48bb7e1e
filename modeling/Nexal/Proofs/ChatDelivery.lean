import Mathlib.Data.List.Flatten
import Nexal.Sanity.ChatLanes

/-! From the channels to the agents: no two agents serve one chat, and the chat's agent gets the chat's messages once and
in their order. -/

namespace Nexal.AgentPool

open Debounce (DebounceConfig HandlerCall IncomingMessage)

variable {config : DebounceConfig} {p p' : Pool} {key : String} {ended : List Turn} {current : Option Turn}
  {session : Option ℕ} {t : Turn} {j : ℕ}

/-! Messages -/

def Origin.messages : Origin → List IncomingMessage
  | .batch messages => messages
  | .send _ => []

def Event.posted (key : String) : Event → List IncomingMessage
  | .handle msg => if key = sessionKey msg then [msg] else []
  | .debounce _ _ | .created _ _ | .turn _ | .idle _ | .shutdown | .clear => []

def posted (key : String) (events : List Event) : List IncomingMessage := events.flatMap (Event.posted key)

def Debouncer.content (x : Debouncer) : List IncomingMessage := x.state.content

def Debouncer.undispatched (x : Debouncer) : List IncomingMessage := x.state.undispatched

def Pool.got (p : Pool) (key : String) : List IncomingMessage :=
  (p.created.filter (·.key = key)).flatMap fun x => x.agent.inbox.flatMap (·.origin.messages)

/-- What is still underway to the agent: in the current turn, and in the debouncer. -/
def Pool.underway (p : Pool) (key : String) : List IncomingMessage :=
  ((p.turnsOf key).filter (!·.phase.handed)).flatMap (·.call.batch) ++ p.ofDebouncer Debouncer.undispatched key

def Pool.content (p : Pool) (key : String) : List IncomingMessage := p.ofDebouncer Debouncer.content key

def IsOpen (p : Pool) : Prop := ∀ x ∈ p.made, x.state.queue.closed = false

theorem process_content {x : Debouncer} (h : x.Ok) (msg : IncomingMessage) :
    (x.process msg).content = x.content ++ if x.state.queue.closed then [] else [msg] :=
  (@Debounce.step_spec Debounce.defaultDebounce _ _ (.process msg) h.1 rfl).2.1

/-- What the debouncer of a chat takes of a message: nothing, once it has been shut down. -/
theorem taken_of_message (h : Ordered p) (msg : IncomingMessage) : ∃ new : List IncomingMessage,
    new.Sublist [msg] ∧ (IsOpen p → new = [msg]) ∧
      (∀ x ∈ p.made, x.key = sessionKey msg → (x.process msg).content = x.content ++ new) ∧
      (p.debouncers.lookup (sessionKey msg) = none → new = [msg]) := by
  cases hlookup : p.debouncers.lookup (sessionKey msg) with
  | none =>
    refine ⟨[msg], .refl _, fun _ => rfl, fun x hx hkey => ?_, fun _ => rfl⟩
    obtain ⟨d, hd⟩ := Lists.exists_getElem?_of_mem hx
    cases (h.registered.made d x hd).symm.trans (hkey ▸ hlookup)
  | some d =>
    have hfound := h.inv.debouncers.keyed _ d hlookup
    rw [List.getElem?_map] at hfound
    obtain ⟨y, hy, hykey⟩ := Option.map_eq_some_iff.mp hfound
    refine ⟨if y.state.queue.closed then [] else [msg], ?_, fun hopen => ?_, fun x hx hkey => ?_, nofun⟩
    · split_ifs
      · exact List.nil_sublist _
      · exact .refl _
    · rw [hopen y (List.mem_of_getElem? hy)]
      rfl
    · obtain ⟨d', hd'⟩ := Lists.exists_getElem?_of_mem hx
      cases hlookup.symm.trans (hkey ▸ h.registered.made d' x hd')
      cases hy.symm.trans hd'
      exact process_content (h.inv.debouncers.ok y hx) msg

theorem content_handle (h : Ordered p) (msg : IncomingMessage) (key : String) : ∃ new,
    (p.handle msg).content key = p.content key ++ new ∧ new.Sublist (Event.posted key (.handle msg)) ∧
      (IsOpen p → new = Event.posted key (.handle msg)) := by
  obtain ⟨new, hsub, hopen, hprocess, hfresh⟩ := taken_of_message h msg
  have hcontent := ofDebouncer_handle (f := Debouncer.content) h.inv.debouncers msg new hprocess
    (fun hnone => (process_content (Debouncer.ok_new (sessionKey msg)) msg).trans (hfresh hnone).symm) key
  refine ⟨_, hcontent, ?_, fun hp => ?_⟩
  · rw [Event.posted]
    split_ifs
    · exact hsub
    · exact .refl _
  · rw [hopen hp]
    rfl

theorem content_shutdown {made : List Debouncer} (h : ∀ x ∈ made, x.Ok) (ds : List ℕ) :
    (ds.foldl (fun made d => made.modify d Debouncer.shutdown) made).map Debouncer.content = made.map Debouncer.content := by
  induction ds generalizing made with
  | nil => rfl
  | cons d ds ih =>
    refine (ih (Lists.forall_mem_modify h fun _ _ hok => hok.shutdown)).trans (List.ext_getElem? fun i => ?_)
    rw [List.getElem?_map, List.getElem?_map, List.getElem?_modify]
    cases hx : made[i]? with
    | none => rfl
    | some x =>
      refine congrArg some ?_
      split_ifs
      · exact (Debounce.shutdown_spec (h x (List.mem_of_getElem? hx)).1).2
      · rfl

theorem content_other {e : Event} (hs : p.step config e = some p') (hne : ∀ msg, e ≠ .handle msg) (hclear : e ≠ .clear)
    (h : Ordered p) (key : String) : p'.content key = p.content key := by
  cases e with
  | handle msg => exact absurd rfl (hne msg)
  | clear => exact absurd rfl hclear
  | debounce d act =>
    obtain ⟨x, hx, hs⟩ := Option.bind_eq_some_iff.mp hs
    split_ifs at hs with hends
    obtain ⟨state, hstep, rfl⟩ := Option.map_eq_some_iff.mp hs
    have hcontent : state.content = x.state.content := by
      have hspec := (Debounce.step_spec (h.inv.debouncers.ok x (List.mem_of_getElem? hx)).1 hstep).2.1
      rwa [handlerEnds_message hends, Option.toList_none, ite_self, List.append_nil] at hspec
    rw [Pool.content, Pool.ofDebouncer, (beginAll_made _ d _ _).1, (beginAll_made _ d _ _).2]
    exact ofDebouncer_made (p := p) (Lists.map_set_of_eq hx hcontent) key
  | created c ok =>
    obtain ⟨creation, -, hs⟩ := Option.bind_eq_some_iff.mp hs
    split_ifs at hs
    cases hs
    cases ok <;> rfl
  | turn j =>
    obtain ⟨t, -, hs⟩ := Option.bind_eq_some_iff.mp hs
    obtain ⟨phase, hmade, hdebouncers, -⟩ := resume_turns hs
    rw [Pool.content, Pool.ofDebouncer, hmade, hdebouncers]
    rfl
  | idle session =>
    cases hs
    rfl
  | shutdown =>
    cases hs
    exact ofDebouncer_made (content_shutdown h.inv.debouncers.ok _) key

theorem content_step {e : Event} (h : Ordered p) (hclear : e ≠ .clear) (hs : p.step config e = some p') (key : String) :
    ∃ new, p'.content key = p.content key ++ new ∧ new.Sublist (e.posted key) ∧ (IsOpen p → new = e.posted key) := by
  cases e with
  | handle msg =>
    cases hs
    exact content_handle h msg key
  | clear => exact absurd rfl hclear
  | debounce | created | turn | idle | shutdown =>
    exact ⟨[], (content_other hs nofun nofun h key).trans (List.append_nil _).symm, .refl _, fun _ => rfl⟩

theorem closed_step {x : Debouncer} {act : Debounce.Act} {state : Debounce.State} (h : x.Ok)
    (hact : act.isShutdown = false) (hs : Debounce.step config x.state act = some state) :
    state.queue.closed = x.state.queue.closed := by
  rw [(Debounce.step_spec h.1 hs).2.2, hact, Bool.or_false]

theorem closed_process {x : Debouncer} (h : x.Ok) (msg : IncomingMessage) :
    (x.process msg).state.queue.closed = x.state.queue.closed :=
  @closed_step Debounce.defaultDebounce x (.process msg) _ h rfl rfl

theorem isShutdown_of_ends {act : Debounce.Act} (h : p.handlerEnds d act = true) : act.isShutdown = false := by
  cases act with
  | shutdown => cases h
  | process | timer | resume | handled | resolve => rfl

/-- Nobody has shut the pool down. -/
theorem isOpen_step {e : Event} (h : IsOpen p) (hord : Ordered p) (he : e ≠ .shutdown) (hs : p.step config e = some p') :
    IsOpen p' := by
  have hok := hord.inv.debouncers.ok
  cases e with
  | handle msg =>
    cases hs
    rw [Pool.handle]
    split
    · exact Lists.forall_mem_modify h fun x hx hopen => (closed_process (hok x (List.mem_of_getElem? hx)) msg).trans hopen
    · intro x hx
      rcases List.mem_append.mp hx with hold | hnew
      · exact h x hold
      · rw [List.mem_singleton.mp hnew]
        exact closed_process (Debouncer.ok_new (sessionKey msg)) msg
  | debounce d act =>
    obtain ⟨x, hx, hs⟩ := Option.bind_eq_some_iff.mp hs
    split_ifs at hs with hends
    obtain ⟨state, hstep, rfl⟩ := Option.map_eq_some_iff.mp hs
    rw [IsOpen, (beginAll_made _ d _ _).1]
    intro y hy
    have hmem := List.mem_of_getElem? hx
    rcases List.mem_or_eq_of_mem_set hy with hold | rfl
    · exact h y hold
    · exact (closed_step (hok x hmem) (isShutdown_of_ends hends) hstep).trans (h x hmem)
  | created c ok =>
    obtain ⟨creation, -, hs⟩ := Option.bind_eq_some_iff.mp hs
    split_ifs at hs
    cases hs
    cases ok <;> exact h
  | turn j =>
    obtain ⟨t, -, hs⟩ := Option.bind_eq_some_iff.mp hs
    obtain ⟨phase, hmade, -⟩ := resume_turns hs
    rw [IsOpen, hmade]
    exact h
  | idle session =>
    cases hs
    exact h
  | shutdown => exact absurd rfl he
  | clear =>
    simp only [Pool.step] at hs
    split_ifs at hs
    cases hs
    exact h

structure Unfailed (p : Pool) : Prop where
  turns : ∀ t ∈ p.turns, t.phase ≠ .ended true
  creations : ∀ creation ∈ p.creations, creation.result ≠ some none

theorem unfailed_begin (h : Unfailed p) (d index : ℕ) (call : HandlerCall) : Unfailed (p.begin d index call) := by
  have hturns : ∀ phase : TurnPhase, phase ≠ .ended true →
      ∀ t ∈ p.turns ++ [(⟨d, index, call, phase⟩ : Turn)], t.phase ≠ .ended true := by
    intro phase hphase t ht
    rcases List.mem_append.mp ht with hold | hnew
    · exact h.turns t hold
    · rwa [List.mem_singleton.mp hnew]
  rw [Pool.begin]
  split
  · exact ⟨hturns _ (by simp), h.creations⟩
  · split
    · exact ⟨hturns _ (by simp), h.creations⟩
    · refine ⟨hturns _ (by simp), fun creation hcreation => ?_⟩
      rcases List.mem_append.mp hcreation with hold | hnew
      · exact h.creations creation hold
      · rw [List.mem_singleton.mp hnew]
        exact (Option.some_ne_none _).symm

theorem unfailed_beginAll (h : Unfailed p) (d index : ℕ) (calls : List HandlerCall) :
    Unfailed (p.beginAll d index calls) := by
  induction calls generalizing p index with
  | nil => exact h
  | cons call calls ih => exact ih (unfailed_begin h d index call) (index + 1)

theorem unfailed_setTurn (h : Unfailed p) {phase : TurnPhase} (hphase : phase ≠ .ended true) :
    Unfailed (p.setTurn j t phase) where
  turns t' ht' := by
    rcases List.mem_or_eq_of_mem_set ht' with hold | rfl
    · exact h.turns t' hold
    · exact hphase
  creations := h.creations

theorem unfailed_resume (h : Unfailed p) (hs : p.resume j t = some p') : Unfailed p' := by
  unfold Pool.resume at hs
  split at hs
  · obtain ⟨result, hresult, rfl⟩ := Option.map_eq_some_iff.mp hs
    obtain ⟨creation, hcreation, hresult⟩ := Option.bind_eq_some_iff.mp hresult
    cases result with
    | none => exact absurd hresult (h.creations creation (List.mem_of_getElem? hcreation))
    | some s =>
      have hset : Unfailed (p.setTurn j t (.got s)) := unfailed_setTurn h nofun
      dsimp only
      split_ifs <;> exact ⟨hset.turns, hset.creations⟩
  · rename_i session _
    cases hs
    have hset : Unfailed (p.setTurn j t (.recording session)) := unfailed_setTurn h nofun
    exact ⟨hset.turns, hset.creations⟩
  · obtain ⟨x, -, rfl⟩ := Option.map_eq_some_iff.mp hs
    refine ⟨(unfailed_setTurn h ?_).turns, h.creations⟩
    split_ifs <;> exact nofun
  · cases hs
    exact unfailed_setTurn h nofun
  · cases hs

theorem unfailed_step {e : Event} (h : Unfailed p) (he : ∀ c, e ≠ .created c false) (hs : p.step config e = some p') :
    Unfailed p' := by
  cases e with
  | handle msg =>
    cases hs
    obtain ⟨made, debouncers, heq⟩ := handle_eq p msg
    rw [heq]
    exact ⟨h.turns, h.creations⟩
  | debounce d act =>
    obtain ⟨x, hx, hs⟩ := Option.bind_eq_some_iff.mp hs
    split_ifs at hs
    obtain ⟨state, -, rfl⟩ := Option.map_eq_some_iff.mp hs
    have hmade : Unfailed { p with made := p.made.set d { x with state := state } } := ⟨h.turns, h.creations⟩
    exact unfailed_beginAll hmade d _ _
  | created c ok =>
    obtain ⟨creation, -, hs⟩ := Option.bind_eq_some_iff.mp hs
    split_ifs at hs
    cases hs
    cases ok with
    | false => exact absurd rfl (he c)
    | true =>
      refine ⟨h.turns, fun creation' hcreation' => ?_⟩
      rcases List.mem_or_eq_of_mem_set hcreation' with hold | rfl
      · exact h.creations creation' hold
      · exact nofun
  | turn j =>
    obtain ⟨t, -, hs⟩ := Option.bind_eq_some_iff.mp hs
    exact unfailed_resume h hs
  | idle session =>
    cases hs
    exact ⟨h.turns, h.creations⟩
  | shutdown =>
    cases hs
    exact ⟨h.turns, h.creations⟩
  | clear =>
    simp only [Pool.step] at hs
    split_ifs at hs
    cases hs
    exact ⟨h.turns, h.creations⟩

/-! What the agents get -/

theorem got_eq (hserved : Served p key current session) :
    (p.created.filter (·.key = key)).length ≤ 1 ∧ p.got key = (p.handed key).flatMap (·.call.batch) := by
  cases session with
  | none =>
    have hnone : p.created.filter (·.key = key) = [] := List.filter_eq_nil_iff.mpr fun x hx hkey => by
      obtain ⟨s, hs⟩ := Lists.exists_getElem?_of_mem hx
      exact nomatch (hserved.only s x hs (of_decide_eq_true hkey)).1
    rw [Pool.got, hnone, hserved.unserved rfl]
    exact ⟨Nat.zero_le _, rfl⟩
  | some s =>
    have hfound := hserved.keyed s rfl
    rw [Pool.sessionKeys, List.getElem?_map] at hfound
    obtain ⟨x, hx, hkey⟩ := Option.map_eq_some_iff.mp hfound
    have hone : p.created.filter (·.key = key) = [x] :=
      Lists.filter_eq_of_only hx (decide_eq_true hkey) fun s' y hy hykey =>
      (Option.some.inj (hserved.only s' y hy (of_decide_eq_true hykey)).1).symm
    have hinbox : x.agent.inbox.flatMap (·.origin.messages) = (p.handed key).flatMap (·.call.batch) := by
      have horigins := congrArg (List.flatMap Origin.messages) (hserved.only s x hx hkey).2
      rw [List.flatMap_map, List.flatMap_map] at horigins
      exact horigins
    rw [Pool.got, hone, List.flatMap_singleton, hinbox]
    exact ⟨Nat.le_refl _, rfl⟩

theorem content_eq (p : Pool) (key : String) :
    p.content key = (p.calls key).flatMap (·.batch) ++ p.ofDebouncer Debouncer.undispatched key := by
  rw [Pool.content, Pool.calls, Pool.ofDebouncer, Pool.ofDebouncer, Pool.ofDebouncer]
  cases p.debouncers.lookup key with
  | none => rfl
  | some d =>
    rw [Option.bind_some, Option.bind_some, Option.bind_some, List.getElem?_map, List.getElem?_map, List.getElem?_map]
    cases p.made[d]? with
    | none => rfl
    | some x => rfl

/-- What the debouncer has handed over is in the turns of the chat. -/
theorem Lane.dispatched (h : Lane p key ended current) :
    (p.calls key).flatMap (·.batch) = (p.turnsOf key).flatMap (·.call.batch) := by
  rw [List.flatMap_def, List.flatMap_def, h.batches]

/-- Only the current turn may still have something for the agent, if no turn has failed. -/
theorem Lane.parts (h : Lane p key ended current) (hok : Unfailed p) :
    (p.handed key).flatMap (·.call.batch) ++ ((p.turnsOf key).filter (!·.phase.handed)).flatMap (·.call.batch) =
      (p.turnsOf key).flatMap (·.call.batch) := by
  have hended : ∀ t ∈ ended, t.phase.handed = true := by
    intro t ht
    have hmem : t ∈ p.turns := (List.mem_filter.mp (h.turns ▸ List.mem_append_left _ ht)).1
    have hover := h.spent t ht
    have hfailed := hok.turns t hmem
    cases hphase : t.phase with
    | ended threw =>
      cases threw with
      | false => rfl
      | true => exact absurd hphase hfailed
    | creating | got | recording | prompting =>
      rw [hphase] at hover
      cases hover
  have hall : ended.filter (·.phase.handed) = ended := List.filter_eq_self.mpr hended
  have hnone : ended.filter (!·.phase.handed) = [] := List.filter_eq_nil_iff.mpr fun t ht => by simp [hended t ht]
  rw [Pool.handed, h.turns, List.filter_append, List.filter_append, hall, hnone, List.nil_append, List.flatMap_append,
    List.flatMap_append, List.append_assoc]
  refine congrArg _ ?_
  cases current with
  | none => rfl
  | some t => cases hhanded : t.phase.handed <;> simp [hhanded]

theorem content_run {events : List Event} (h : Ordered p) (hlive : ∀ e ∈ events, e ≠ .clear)
    (hrun : Runs.run (Pool.step config) p events = some p') (key : String) : Ordered p' ∧ ∃ new,
      p'.content key = p.content key ++ new ∧ new.Sublist (posted key events) ∧
        (IsOpen p → (∀ e ∈ events, e ≠ .shutdown) → new = posted key events) := by
  induction events generalizing p with
  | nil =>
    cases hrun
    exact ⟨h, [], (List.append_nil _).symm, .refl _, fun _ _ => rfl⟩
  | cons e events ih =>
    obtain ⟨m, hm, hrest⟩ := Runs.run_cons hrun
    have he := hlive e List.mem_cons_self
    have hord := ordered_step h he hm
    obtain ⟨new, hcontent, hsub, hopen⟩ := content_step h he hm key
    obtain ⟨hord', new', hcontent', hsub', hopen'⟩ := ih hord (fun e' he' => hlive e' (List.mem_cons_of_mem e he')) hrest
    refine ⟨hord', new ++ new', ?_, ?_, fun hp hevents => ?_⟩
    · rw [hcontent', hcontent, List.append_assoc]
    · exact hsub.append hsub'
    · have hm' := isOpen_step hp h (hevents e List.mem_cons_self) hm
      rw [hopen hp, hopen' hm' fun e' he' => hevents e' (List.mem_cons_of_mem e he')]
      rfl

theorem unfailed_run {events : List Event} (h : Unfailed p) (hok : ∀ e ∈ events, ∀ c, e ≠ .created c false)
    (hrun : Runs.run (Pool.step config) p events = some p') : Unfailed p' :=
  Runs.run_inv Unfailed (fun _ _ _ hm he hs => unfailed_step hm he hs) h (Runs.runOk_of_mem (fun e he _ => hok e he) p) hrun

/-- Until the pool is cleared: no chat has two agents; what the agent of a chat has got are messages posted to the chat,
in their order and each once; and unless the pool is shut down or a session cannot be created, those it has not got are
the ones still underway to it. -/
theorem agents_in_order (config : DebounceConfig) {events : List Event} {p : Pool}
    (h : Runs.run (Pool.step config) .init events = some p) (hlive : ∀ e ∈ events, e ≠ .clear) (key : String) :
    (p.created.filter (·.key = key)).length ≤ 1 ∧ (p.got key).Sublist (posted key events) ∧
      ((∀ e ∈ events, e ≠ .shutdown ∧ ∀ c, e ≠ .created c false) →
        p.got key ++ p.underway key = posted key events) := by
  obtain ⟨hord, new, hcontent, hsub, hopen⟩ := content_run ordered_init hlive h key
  obtain ⟨ended, current, session, hlane, hserved⟩ := hord.chats key
  obtain ⟨hone, hgot⟩ := got_eq hserved
  have hnew : new = (p.turnsOf key).flatMap (·.call.batch) ++ p.ofDebouncer Debouncer.undispatched key := by
    rw [← hlane.dispatched, ← content_eq, hcontent]
    rfl
  refine ⟨hone, ?_, fun hevents => ?_⟩
  · rw [hgot]
    refine List.Sublist.trans ?_ hsub
    rw [hnew]
    exact (List.filter_sublist.flatMap _).trans (List.sublist_append_left _ _)
  · have hunfailed : Unfailed p :=
      unfailed_run ⟨fun _ ht => absurd ht List.not_mem_nil, fun _ hc => absurd hc List.not_mem_nil⟩
      (fun e he => (hevents e he).2) h
    rw [← hopen (fun _ hx => absurd hx List.not_mem_nil) fun e he => (hevents e he).1, hnew, hgot, Pool.underway,
      ← List.append_assoc, hlane.parts hunfailed]

def greeting (text : String) : IncomingMessage where
  channel := "http"
  chatId := "default"
  sender := "http-user"
  text := text
  timestamp := 0
  isMentioned := true
  metadata := []
  images := []

/-- Two messages are merged; the turn creates the session and hands it the merged message. -/
def firstTurn : List Event :=
  [.handle (greeting "one"), .debounce 0 (.resume 0), .handle (greeting "two"), .debounce 0 (.resume 5), .debounce 0 .timer,
    .debounce 0 (.resume 1005), .created 0 true, .turn 0, .turn 0, .turn 0]

theorem agents_in_order_first : ∃ p, Runs.run (Pool.step Debounce.defaultDebounce) .init firstTurn = some p ∧
    (p.got "http:default").map (·.text) = ["one", "two"] ∧
    p.got "http:default" ++ p.underway "http:default" = posted "http:default" firstTurn := by
  have hrun : Runs.run (Pool.step Debounce.defaultDebounce) .init firstTurn = some _ := rfl
  refine ⟨_, hrun, rfl, (agents_in_order Debounce.defaultDebounce hrun ?_ "http:default").2.2 ?_⟩
  · simp [firstTurn]
  · simp [firstTurn]

end Nexal.AgentPool
