import Nexal.Sanity.Debounce
import Nexal.Spec.AgentPool

/-! A chat's messages stay with the chat: what a debouncer holds, what a turn is for and what a session's agent has
taken are messages of one session key. -/

namespace Nexal.AgentPool

open Debounce (DebounceConfig HandlerCall IncomingMessage mergeMessages)

def Keyed (key : String) (messages : List IncomingMessage) : Prop := ∀ m ∈ messages, sessionKey m = key

/-- The last message gives the merged one its chat. -/
theorem merged_key {key : String} {batch : List IncomingMessage} {merged : IncomingMessage}
    (h : mergeMessages batch = some merged) (hbatch : Keyed key batch) : sessionKey merged = key := by
  cases batch with
  | nil => cases h
  | cons m ms =>
    cases ms with
    | nil =>
      cases h
      exact hbatch merged List.mem_cons_self
    | cons m' ms =>
      cases h
      exact hbatch ((m :: m' :: ms).getLast (List.cons_ne_nil m (m' :: ms))) (List.getLast_mem _)

/-! Debouncers -/

def Debouncer.Ok (x : Debouncer) : Prop := Debounce.Inv x.state ∧ Keyed x.key x.state.content

structure DebouncersOk (made : List Debouncer) (debouncers : AList fun _ : String => ℕ) : Prop where
  ok : ∀ x ∈ made, x.Ok
  keyed : ∀ key d, debouncers.lookup key = some d → (made.map (·.key))[d]? = some key

theorem Debouncer.Ok.process {x : Debouncer} {msg : IncomingMessage} (h : x.Ok) (hmsg : sessionKey msg = x.key) :
    (x.process msg).Ok := by
  have hstep : Debounce.step Debounce.defaultDebounce x.state (.process msg) = some (x.state.process msg) := rfl
  obtain ⟨hinv, hcontent, -⟩ := Debounce.step_spec h.1 hstep
  refine ⟨hinv, fun m hm => ?_⟩
  rw [show (x.process msg).state.content = _ from hcontent] at hm
  rcases List.mem_append.mp hm with hold | hnew
  · exact h.2 m hold
  · split_ifs at hnew
    · cases hnew
    · cases List.mem_singleton.mp hnew
      exact hmsg

theorem Debouncer.Ok.shutdown {x : Debouncer} (h : x.Ok) : x.shutdown.Ok := by
  obtain ⟨hinv, hcontent⟩ := Debounce.shutdown_spec h.1
  exact ⟨hinv, hcontent ▸ h.2⟩

theorem Debouncer.ok_new (key : String) : (⟨key, Debounce.init⟩ : Debouncer).Ok :=
  ⟨Debounce.inv_init, fun _ hm => absurd hm List.not_mem_nil⟩

/-- What the loop does by itself adds no message. -/
theorem Debouncer.Ok.step {config : DebounceConfig} {x : Debouncer} {act : Debounce.Act} {state : Debounce.State}
    (h : x.Ok) (hact : act.message = none) (hs : Debounce.step config x.state act = some state) :
    Debouncer.Ok { x with state := state } := by
  obtain ⟨hinv, hcontent, -⟩ := Debounce.step_spec h.1 hs
  rw [hact, Option.toList_none, ite_self, List.append_nil] at hcontent
  exact ⟨hinv, hcontent ▸ h.2⟩

/-- The batch of a call is for the debouncer's chat. -/
theorem Debouncer.Ok.call {x : Debouncer} {call : HandlerCall} (h : x.Ok) (hcall : call ∈ x.state.calls) :
    Keyed x.key call.batch := fun m hm =>
  h.2 m (List.mem_append_left _ (List.mem_flatMap.mpr ⟨call, hcall, hm⟩))

theorem DebouncersOk.modify {made : List Debouncer} {debouncers : AList fun _ : String => ℕ}
    (h : DebouncersOk made debouncers)
    {d : ℕ} {f : Debouncer → Debouncer} (hkey : ∀ x, (f x).key = x.key)
    (hf : ∀ x, made[d]? = some x → x.Ok → (f x).Ok) : DebouncersOk (made.modify d f) debouncers where
  ok := Lists.forall_mem_modify h.ok hf
  keyed key j hj := by
    rw [Lists.map_modify_of_eq hkey]
    exact h.keyed key j hj

theorem DebouncersOk.handle {p : Pool} (h : DebouncersOk p.made p.debouncers) (msg : IncomingMessage) :
    DebouncersOk (p.handle msg).made (p.handle msg).debouncers := by
  rw [Pool.handle]
  split
  · rename_i d hd
    refine h.modify (fun _ => rfl) fun x hx hok => hok.process ?_
    have hkey := h.keyed _ _ hd
    rw [List.getElem?_map, hx] at hkey
    exact (Option.some.inj hkey).symm
  · refine ⟨fun x hx => ?_, fun key d hd => ?_⟩
    · rcases List.mem_append.mp hx with hold | hnew
      · exact h.ok x hold
      · cases List.mem_singleton.mp hnew
        exact (Debouncer.ok_new _).process rfl
    · rw [List.map_append]
      rcases Lists.lookup_of_insert hd with ⟨rfl, rfl⟩ | ⟨-, hold⟩
      · simp [Debouncer.process]
      · have hkey := h.keyed key d hold
        exact Lists.getElem?_append_of_some hkey _

/-! Sessions and turns -/

def TurnPhase.Ok (sessions creations : List String) (key : String) : TurnPhase → Prop
  | .creating creation _ => creations[creation]? = some key
  | .got session | .recording session | .prompting session => sessions[session]? = some key
  | .ended _ => True

def Turn.Ok (sessions creations : List String) (t : Turn) : Prop :=
  Keyed (sessionKey t.call.merged) t.call.batch ∧ t.phase.Ok sessions creations (sessionKey t.call.merged)

def Received.Ok (key : String) (m : Received) : Prop := ∃ batch, m.origin = .batch batch ∧ Keyed key batch

def Session.Ok (x : Session) : Prop := ∀ m ∈ x.agent.inbox, m.Ok x.key

def Pool.sessionKeys (p : Pool) : List String := p.created.map (·.key)

def Pool.creationKeys (p : Pool) : List String := p.creations.map (·.key)

structure SessionsOk (p : Pool) : Prop where
  sessions : ∀ key session, p.sessions.lookup key = some session → p.sessionKeys[session]? = some key
  pending : ∀ key creation, p.pending.lookup key = some creation → p.creationKeys[creation]? = some key
  creations : ∀ x ∈ p.creations, ∀ session, x.result = some (some session) → p.sessionKeys[session]? = some x.key
  turns : ∀ t ∈ p.turns, t.Ok p.sessionKeys p.creationKeys
  created : ∀ x ∈ p.created, x.Ok

structure Inv (p : Pool) : Prop where
  debouncers : DebouncersOk p.made p.debouncers
  sessions : SessionsOk p

theorem TurnPhase.Ok.append {sessions creations : List String} {key : String} {phase : TurnPhase}
    (h : phase.Ok sessions creations key) (sessions' creations' : List String) :
    phase.Ok (sessions ++ sessions') (creations ++ creations') key := by
  cases phase with
  | creating creation own => exact Lists.getElem?_append_of_some h creations'
  | got session => exact Lists.getElem?_append_of_some h sessions'
  | recording session => exact Lists.getElem?_append_of_some h sessions'
  | prompting session => exact Lists.getElem?_append_of_some h sessions'
  | ended threw => trivial

theorem Session.Ok.take {x : Session} {call : HandlerCall} (h : x.Ok) (hcall : Keyed x.key call.batch) :
    (x.take call).Ok := by
  have hnew : Received.Ok x.key ⟨.batch call.batch, buildUserContent call.merged.text call.merged.images⟩ :=
    ⟨call.batch, rfl, hcall⟩
  intro m hm
  have hinbox : (x.take call).agent.inbox =
      x.agent.inbox ++ [⟨.batch call.batch, buildUserContent call.merged.text call.merged.images⟩] := by
    rw [Session.take]
    split_ifs
    · rfl
    · rfl
  rw [hinbox] at hm
  rcases List.mem_append.mp hm with hold | hlast
  · exact h m hold
  · cases List.mem_singleton.mp hlast
    exact hnew

section Sessions
variable {p : Pool}

theorem SessionsOk.setTurn (h : SessionsOk p) {j : ℕ} {t : Turn} (ht : p.turns[j]? = some t) {phase : TurnPhase}
    (hphase : phase.Ok p.sessionKeys p.creationKeys (sessionKey t.call.merged)) : SessionsOk (p.setTurn j t phase) where
  sessions := h.sessions
  pending := h.pending
  creations := h.creations
  turns t' ht' := by
    rcases List.mem_or_eq_of_mem_set ht' with hold | rfl
    · exact h.turns t' hold
    · exact ⟨(h.turns t (List.mem_of_getElem? ht)).1, hphase⟩
  created := h.created

theorem SessionsOk.remake (h : SessionsOk p) (made : List Debouncer) (debouncers : AList fun _ : String => ℕ) :
    SessionsOk { p with made := made, debouncers := debouncers } :=
  ⟨h.sessions, h.pending, h.creations, h.turns, h.created⟩

theorem SessionsOk.modify (h : SessionsOk p) {session : ℕ} {f : Session → Session} (hkey : ∀ x, (f x).key = x.key)
    (hf : ∀ x, p.created[session]? = some x → x.Ok → (f x).Ok) :
    SessionsOk { p with created := p.created.modify session f } := by
  have hkeys : Pool.sessionKeys { p with created := p.created.modify session f } = p.sessionKeys :=
    Lists.map_modify_of_eq hkey _ _
  refine ⟨?_, h.pending, ?_, ?_, Lists.forall_mem_modify h.created hf⟩
  · rw [hkeys]
    exact h.sessions
  · rw [hkeys]
    exact h.creations
  · rw [hkeys]
    exact h.turns

theorem SessionsOk.insertSession (h : SessionsOk p) {key : String} {session : ℕ}
    (hkey : p.sessionKeys[session]? = some key) :
    SessionsOk { p with sessions := p.sessions.insert key session } :=
  { h with
    sessions := fun key' session' hlookup => by
      rcases Lists.lookup_of_insert hlookup with ⟨rfl, rfl⟩ | ⟨-, hold⟩
      · exact hkey
      · exact h.sessions key' session' hold }

theorem SessionsOk.addTurn (h : SessionsOk p) {t : Turn} (ht : t.Ok p.sessionKeys p.creationKeys) :
    SessionsOk { p with turns := p.turns ++ [t] } :=
  { h with
    turns := fun t' ht' => by
      rcases List.mem_append.mp ht' with hold | hnew
      · exact h.turns t' hold
      · cases List.mem_singleton.mp hnew
        exact ht }

/-- `createSession` is called for a key. -/
theorem SessionsOk.addCreation (h : SessionsOk p) (msg : IncomingMessage) :
    SessionsOk { p with
      creations := p.creations ++ [⟨sessionKey msg, msg, none⟩]
      pending := p.pending.insert (sessionKey msg) p.creations.length } := by
  have hkeys : Pool.creationKeys { p with
      creations := p.creations ++ [⟨sessionKey msg, msg, none⟩]
      pending := p.pending.insert (sessionKey msg) p.creations.length } = p.creationKeys ++ [sessionKey msg] :=
    List.map_append
  refine ⟨h.sessions, fun key creation hlookup => ?_, fun x hx session hresult => ?_, fun t ht => ?_, h.created⟩
  · rw [hkeys]
    rcases Lists.lookup_of_insert hlookup with ⟨rfl, rfl⟩ | ⟨-, hold⟩
    · simp [Pool.creationKeys]
    · exact Lists.getElem?_append_of_some (h.pending key creation hold) _
  · rcases List.mem_append.mp hx with hold | hnew
    · exact h.creations x hold session hresult
    · cases List.mem_singleton.mp hnew
      cases hresult
  · obtain ⟨hbatch, hphase⟩ := h.turns t ht
    rw [hkeys]
    exact ⟨hbatch, List.append_nil p.sessionKeys ▸ hphase.append [] _⟩

theorem SessionsOk.begin (h : SessionsOk p) (d index : ℕ) {call : HandlerCall}
    (hcall : Keyed (sessionKey call.merged) call.batch) : SessionsOk (p.begin d index call) := by
  rw [Pool.begin]
  split
  · rename_i session hsession
    exact h.addTurn ⟨hcall, h.sessions _ session hsession⟩
  · split
    · rename_i creation hcreation
      exact h.addTurn ⟨hcall, h.pending _ creation hcreation⟩
    · refine (h.addCreation call.merged).addTurn ⟨hcall, ?_⟩
      simp [TurnPhase.Ok, Pool.creationKeys]

theorem beginAll_spec {calls : List HandlerCall} (h : SessionsOk p) (d index : ℕ)
    (hcalls : ∀ call ∈ calls, Keyed (sessionKey call.merged) call.batch) : SessionsOk (p.beginAll d index calls) := by
  induction calls generalizing p index with
  | nil => exact h
  | cons call calls ih =>
    exact ih (h.begin d index (hcalls call List.mem_cons_self)) (index + 1)
      fun call' hcall' => hcalls call' (List.mem_cons_of_mem call hcall')

theorem SessionsOk.resolve (h : SessionsOk p) {c : ℕ} {creation : Creation} (hc : p.creations[c]? = some creation)
    (ok : Bool) :
    SessionsOk (p.resolve c creation ok) := by
  have hpending : ∀ key c', (p.pending.erase creation.key).lookup key = some c' → p.creationKeys[c']? = some key :=
    fun key c' hlookup => h.pending key c' (Lists.lookup_of_erase hlookup).2
  have hsame : ∀ result, (p.creations.set c { creation with result := result }).map (·.key) = p.creationKeys :=
    fun result => Lists.map_set_of_eq hc rfl
  cases ok with
  | true =>
    refine ⟨fun key session hlookup => ?_, fun key c' hlookup => ?_, fun x hx session hresult => ?_, fun t ht => ?_,
      fun x hx => ?_⟩
    · exact (congrArg (·[session]?) List.map_append).trans
        (Lists.getElem?_append_of_some (h.sessions key session hlookup) _)
    · exact (congrArg (·[c']?) (hsame _)).trans (hpending key c' hlookup)
    · refine (congrArg (·[session]?) List.map_append).trans ?_
      rcases List.mem_or_eq_of_mem_set hx with hold | rfl
      · exact Lists.getElem?_append_of_some (h.creations x hold session hresult) _
      · cases hresult
        simp
    · obtain ⟨hbatch, hphase⟩ := h.turns t ht
      refine ⟨hbatch, ?_⟩
      show t.phase.Ok (List.map _ (p.created ++ _)) (List.map _ (p.creations.set c _)) _
      rw [hsame, List.map_append]
      exact List.append_nil p.creationKeys ▸ hphase.append _ []
    · rcases List.mem_append.mp hx with hold | hnew
      · exact h.created x hold
      · cases List.mem_singleton.mp hnew
        exact fun m hm => absurd hm List.not_mem_nil
  | false =>
    refine ⟨h.sessions, fun key c' hlookup => ?_, fun x hx session hresult => ?_, fun t ht => ?_, h.created⟩
    · exact (congrArg (·[c']?) (hsame _)).trans (hpending key c' hlookup)
    · rcases List.mem_or_eq_of_mem_set hx with hold | rfl
      · exact h.creations x hold session hresult
      · cases hresult
    · obtain ⟨hbatch, hphase⟩ := h.turns t ht
      refine ⟨hbatch, ?_⟩
      show t.phase.Ok p.sessionKeys (List.map _ (p.creations.set c _)) _
      rw [hsame]
      exact hphase

/-- A turn goes on with a session of its chat. -/
theorem Inv.resume {p' : Pool} (h : Inv p) {j : ℕ} {t : Turn} (ht : p.turns[j]? = some t) (hs : p.resume j t = some p') :
    Inv p' := by
  obtain ⟨hbatch, hphase⟩ := h.sessions.turns t (List.mem_of_getElem? ht)
  cases hat : t.phase with
  | creating creation own =>
    simp only [Pool.resume, hat] at hs hphase
    obtain ⟨result, hresult, rfl⟩ := Option.map_eq_some_iff.mp hs
    obtain ⟨x, hx, hresult⟩ := Option.bind_eq_some_iff.mp hresult
    cases result with
    | some session =>
      have hkey : p.sessionKeys[session]? = some (sessionKey t.call.merged) := by
        have hcreation := h.sessions.creations x (List.mem_of_getElem? hx) session hresult
        rw [TurnPhase.Ok, Pool.creationKeys, List.getElem?_map, hx] at hphase
        exact hcreation.trans hphase
      have hset : SessionsOk (p.setTurn j t (.got session)) := h.sessions.setTurn ht hkey
      cases own with
      | true => exact ⟨h.debouncers, hset.insertSession hkey⟩
      | false => exact ⟨h.debouncers, hset⟩
    | none => exact ⟨h.debouncers, h.sessions.setTurn ht trivial⟩
  | got session =>
    simp only [Pool.resume, hat] at hs hphase
    cases hs
    have hset : SessionsOk (p.setTurn j t (.recording session)) := h.sessions.setTurn ht hphase
    exact ⟨h.debouncers, hset.modify (fun _ => rfl) fun x _ hok => hok⟩
  | recording session =>
    simp only [Pool.resume, hat] at hs hphase
    obtain ⟨x, hx, rfl⟩ := Option.map_eq_some_iff.mp hs
    have hset : SessionsOk (p.setTurn j t (if x.agent.isStreaming then .ended false else .prompting session)) := by
      refine h.sessions.setTurn ht ?_
      split_ifs
      · trivial
      · exact hphase
    refine ⟨h.debouncers, hset.modify (fun _ => rfl) fun y hy hok => hok.take ?_⟩
    rw [TurnPhase.Ok, Pool.sessionKeys, List.getElem?_map, show p.created[session]? = some y from hy] at hphase
    rwa [show y.key = _ from Option.some.inj hphase]
  | prompting session =>
    simp only [Pool.resume, hat] at hs
    cases hs
    exact ⟨h.debouncers, h.sessions.setTurn ht trivial⟩
  | ended threw =>
    simp only [Pool.resume, hat] at hs
    cases hs

end Sessions

/-! Steps -/

section Steps
variable {config : DebounceConfig} {p p' : Pool}

theorem begin_made (p : Pool) (d index : ℕ) (call : HandlerCall) :
    (p.begin d index call).made = p.made ∧ (p.begin d index call).debouncers = p.debouncers := by
  rw [Pool.begin]
  split
  · exact ⟨rfl, rfl⟩
  · split
    · exact ⟨rfl, rfl⟩
    · exact ⟨rfl, rfl⟩

theorem beginAll_made (p : Pool) (d index : ℕ) (calls : List HandlerCall) :
    (p.beginAll d index calls).made = p.made ∧ (p.beginAll d index calls).debouncers = p.debouncers := by
  induction calls generalizing p index with
  | nil => exact ⟨rfl, rfl⟩
  | cons call calls ih =>
    obtain ⟨hmade, hdebouncers⟩ := begin_made p d index call
    obtain ⟨hmade', hdebouncers'⟩ := ih (p.begin d index call) (index + 1)
    exact ⟨hmade'.trans hmade, hdebouncers'.trans hdebouncers⟩

theorem handle_sessions (h : SessionsOk p) (msg : IncomingMessage) : SessionsOk (p.handle msg) := by
  rw [Pool.handle]
  split
  · exact h.remake _ _
  · exact h.remake _ _

theorem Inv.handle (h : Inv p) (msg : IncomingMessage) : Inv (p.handle msg) :=
  ⟨h.debouncers.handle msg, handle_sessions h.sessions msg⟩

theorem handlerEnds_message {d : ℕ} {act : Debounce.Act} (h : p.handlerEnds d act = true) : act.message = none := by
  cases act with
  | process msg => cases h
  | _ => rfl

/-- The debouncer keeps its chat, and the turns it begins are for it. -/
theorem Inv.debounce (h : Inv p) {d : ℕ} {act : Debounce.Act} (hs : p.debounce config d act = some p') : Inv p' := by
  obtain ⟨x, hx, hs⟩ := Option.bind_eq_some_iff.mp hs
  split_ifs at hs with hact
  obtain ⟨state, hstep, rfl⟩ := Option.map_eq_some_iff.mp hs
  have hok : Debouncer.Ok { x with state := state } :=
    (h.debouncers.ok x (List.mem_of_getElem? hx)).step (handlerEnds_message hact) hstep
  constructor
  · rw [(beginAll_made _ d _ _).1, (beginAll_made _ d _ _).2]
    refine ⟨fun y hy => ?_, fun key j hj => ?_⟩
    · rcases List.mem_or_eq_of_mem_set hy with hold | rfl
      · exact h.debouncers.ok y hold
      · exact hok
    · have hkeys : (p.made.set d { x with state := state }).map (·.key) = p.made.map (·.key) := Lists.map_set_of_eq hx rfl
      exact (congrArg (·[j]?) hkeys).trans (h.debouncers.keyed key j hj)
  · refine beginAll_spec (h.sessions.remake _ _) d _ fun call hcall => ?_
    have hbatch : Keyed x.key call.batch := hok.call (List.mem_of_mem_drop hcall)
    rwa [merged_key call.merges hbatch]

theorem shutdown_debouncers {made : List Debouncer} {debouncers : AList fun _ : String => ℕ}
    (h : DebouncersOk made debouncers)
    (ds : List ℕ) : DebouncersOk (ds.foldl (fun made d => made.modify d Debouncer.shutdown) made) debouncers := by
  induction ds generalizing made with
  | nil => exact h
  | cons d ds ih => exact ih (h.modify (fun _ => rfl) fun _ _ hok => hok.shutdown)

theorem lookup_empty {key : String} {i : ℕ} (h : (∅ : AList fun _ : String => ℕ).lookup key = some i) : False := by
  rw [AList.lookup_empty] at h
  cases h

theorem inv_step {e : Event} (h : Inv p) (hs : p.step config e = some p') : Inv p' := by
  cases e with
  | handle msg =>
    cases hs
    exact h.handle msg
  | debounce d act => exact h.debounce hs
  | created c ok =>
    obtain ⟨creation, hc, hs⟩ := Option.bind_eq_some_iff.mp hs
    split_ifs at hs
    cases hs
    have hresolve := h.sessions.resolve hc ok
    cases ok with
    | true => exact ⟨h.debouncers, hresolve⟩
    | false => exact ⟨h.debouncers, hresolve⟩
  | turn j =>
    obtain ⟨t, ht, hs⟩ := Option.bind_eq_some_iff.mp hs
    exact h.resume ht hs
  | idle session =>
    cases hs
    exact ⟨h.debouncers, h.sessions.modify (fun _ => rfl) fun x _ hok => hok⟩
  | shutdown =>
    cases hs
    exact ⟨shutdown_debouncers h.debouncers _, h.sessions.remake _ _⟩
  | clear =>
    simp only [Pool.step] at hs
    split_ifs at hs
    cases hs
    exact ⟨⟨h.debouncers.ok, fun key d hd => (lookup_empty hd).elim⟩,
      ⟨fun key d hd => (lookup_empty hd).elim, h.sessions.pending, h.sessions.creations, h.sessions.turns,
        h.sessions.created⟩⟩

end Steps

theorem inv_init : Inv .init :=
  ⟨⟨fun _ hx => absurd hx List.not_mem_nil, fun _ _ hd => (lookup_empty hd).elim⟩,
    ⟨fun _ _ hd => (lookup_empty hd).elim, fun _ _ hd => (lookup_empty hd).elim, fun _ hx => absurd hx List.not_mem_nil,
      fun _ hx => absurd hx List.not_mem_nil, fun _ hx => absurd hx List.not_mem_nil⟩⟩

end Nexal.AgentPool
