import Nexal.Sanity.AgentPool

/-! The turns of a chat. A chat has one debouncer, so its turns come one after the other; hence one of them at most
creates the chat's session, and the map of pending creations never makes two turns share one. -/

namespace Nexal.AgentPool

open Debounce (DebounceConfig HandlerCall IncomingMessage)

/-! The turns of a chat -/

def Turn.key (t : Turn) : String := sessionKey t.call.merged

/-- The debouncer still waits for the turn. -/
def TurnPhase.active : TurnPhase → Bool
  | .ended _ => false
  | .creating _ _ | .got _ | .recording _ | .prompting _ => true

def TurnPhase.handed : TurnPhase → Bool
  | .prompting _ | .ended false => true
  | .creating _ _ | .got _ | .recording _ | .ended true => false

def TurnPhase.session : TurnPhase → Option ℕ
  | .got session | .recording session | .prompting session => some session
  | .creating _ _ | .ended _ => none

def Pool.turnsOf (p : Pool) (key : String) : List Turn := p.turns.filter (·.key = key)

def Pool.ofDebouncer {α : Type} (p : Pool) (f : Debouncer → List α) (key : String) : List α :=
  ((p.debouncers.lookup key).bind fun d => (p.made.map f)[d]?).getD []

def Debouncer.calls (x : Debouncer) : List HandlerCall := x.state.calls

def Pool.calls (p : Pool) (key : String) : List HandlerCall := p.ofDebouncer Debouncer.calls key

/-- Every debouncer is in the map; the turns are those of the debouncers. -/
structure Registered (p : Pool) : Prop where
  made : ∀ d x, p.made[d]? = some x → p.debouncers.lookup x.key = some d
  turns : ∀ t ∈ p.turns, p.debouncers.lookup t.key = some t.debouncer

/-- All turns of the chat have ended but the last. -/
structure Lane (p : Pool) (key : String) (ended : List Turn) (current : Option Turn) : Prop where
  turns : p.turnsOf key = ended ++ current.toList
  spent : ∀ t ∈ ended, t.phase.active = false
  active : ∀ t, current = some t → t.phase.active = true
  batches : (p.turnsOf key).map (·.call.batch) = (p.calls key).map (·.batch)
  indices : (p.turnsOf key).map (·.index) = List.range (p.calls key).length
  running : ∀ t, current = some t → ∃ call, (p.calls key)[t.index]? = some call ∧ call.state = .running

/-! The session of a chat -/

/-- How the maps stand while the current turn is in a phase. -/
inductive Stand (p : Pool) (key : String) (session : Option ℕ) : Option TurnPhase → Prop where
  | quiet (sessions : p.sessions.lookup key = session) (pending : p.pending.lookup key = none) : Stand p key session none
  | asking (c : ℕ) (creation : Creation) (found : p.creations[c]? = some creation) (keyed : creation.key = key)
    (result : creation.result = none) (sessions : p.sessions.lookup key = none) (pending : p.pending.lookup key = some c)
    (unserved : session = none) : Stand p key session (some (.creating c true))
  | answered (c : ℕ) (creation : Creation) (found : p.creations[c]? = some creation) (keyed : creation.key = key)
    (result : creation.result = some session) (sessions : p.sessions.lookup key = none)
      (pending : p.pending.lookup key = none) :
    Stand p key session (some (.creating c true))
  | serving (phase : TurnPhase) (s : ℕ) (served : phase.session = some s) (found : session = some s)
    (sessions : p.sessions.lookup key = session) (pending : p.pending.lookup key = none) : Stand p key session (some phase)

def originOf (t : Turn) : Origin := .batch t.call.batch

def Pool.handed (p : Pool) (key : String) : List Turn := (p.turnsOf key).filter (·.phase.handed)

structure Served (p : Pool) (key : String) (current : Option Turn) (session : Option ℕ) : Prop where
  stand : Stand p key session (current.map (·.phase))
  only : ∀ (s : ℕ) (x : Session), p.created[s]? = some x → x.key = key →
    session = some s ∧ x.agent.inbox.map (·.origin) = (p.handed key).map originOf
  keyed : ∀ s : ℕ, session = some s → p.sessionKeys[s]? = some key
  unserved : session = none → p.handed key = []
  creations : ∀ (c : ℕ) (creation : Creation), p.creations[c]? = some creation → creation.key = key →
    creation.result = none →
    ∃ t, current = some t ∧ t.phase = .creating c true

def ChatOk (p : Pool) (key : String) : Prop :=
  ∃ ended current session, Lane p key ended current ∧ Served p key current session

variable {config : DebounceConfig} {p p' : Pool} {key : String} {ended : List Turn} {current : Option Turn}
  {session : Option ℕ} {t : Turn} {j d : ℕ}

/-! What other chats do -/

structure SameSession (key : String) (p p' : Pool) : Prop where
  turns : p'.turnsOf key = p.turnsOf key
  sessions : p'.sessions.lookup key = p.sessions.lookup key
  pending : p'.pending.lookup key = p.pending.lookup key
  creations : ∀ (c : ℕ) (creation : Creation), creation.key = key →
    (p'.creations[c]? = some creation ↔ p.creations[c]? = some creation)
  created : ∀ (s : ℕ) (x : Session), p'.created[s]? = some x → x.key = key →
    ∃ y, p.created[s]? = some y ∧ y.key = key ∧ y.agent.inbox = x.agent.inbox
  keyed : ∀ s : ℕ, p.sessionKeys[s]? = some key → p'.sessionKeys[s]? = some key

structure SameChat (key : String) (p p' : Pool) : Prop extends SameSession key p p' where
  calls : p'.calls key = p.calls key

theorem Lane.frame (h : Lane p key ended current) (hturns : p'.turnsOf key = p.turnsOf key)
    (hcalls : p'.calls key = p.calls key) :
    Lane p' key ended current where
  turns := hturns.trans h.turns
  spent := h.spent
  active := h.active
  batches := by rw [hturns, hcalls, h.batches]
  indices := by rw [hturns, hcalls, h.indices]
  running := by
    rw [hcalls]
    exact h.running

theorem Stand.frame {phase : Option TurnPhase} (h : Stand p key session phase) (hsame : SameSession key p p') :
    Stand p' key session phase := by
  cases h with
  | quiet sessions pending => exact .quiet (hsame.sessions.trans sessions) (hsame.pending.trans pending)
  | asking c creation found keyed result sessions pending unserved =>
    exact .asking c creation ((hsame.creations c creation keyed).mpr found) keyed result (hsame.sessions.trans sessions)
      (hsame.pending.trans pending) unserved
  | answered c creation found keyed result sessions pending =>
    exact .answered c creation ((hsame.creations c creation keyed).mpr found) keyed result (hsame.sessions.trans sessions)
      (hsame.pending.trans pending)
  | serving phase s served found sessions pending =>
    exact .serving phase s served found (hsame.sessions.trans sessions) (hsame.pending.trans pending)

theorem Served.frame (h : Served p key current session) (hsame : SameSession key p p') : Served p' key current session where
  stand := h.stand.frame hsame
  only s x hx hkey := by
    obtain ⟨y, hy, hykey, hinbox⟩ := hsame.created s x hx hkey
    rw [← hinbox, Pool.handed, hsame.turns]
    exact h.only s y hy hykey
  keyed s hs := hsame.keyed s (h.keyed s hs)
  unserved hnone := by
    rw [Pool.handed, hsame.turns]
    exact h.unserved hnone
  creations c creation hc hkey := h.creations c creation ((hsame.creations c creation hkey).mp hc) hkey

theorem ChatOk.frame (h : ChatOk p key) (hsame : SameChat key p p') : ChatOk p' key := by
  obtain ⟨ended, current, session, hlane, hserved⟩ := h
  exact ⟨ended, current, session, hlane.frame hsame.turns hsame.calls, hserved.frame hsame.toSameSession⟩

/-! The current turn goes on -/

theorem Lane.current_of_active (h : Lane p key ended current) (hj : p.turns[j]? = some t) (hkey : t.key = key)
    (hactive : t.phase.active = true) : current = some t := by
  have hmem : t ∈ p.turnsOf key := List.mem_filter.mpr ⟨List.mem_of_getElem? hj, decide_eq_true hkey⟩
  rw [h.turns] at hmem
  rcases List.mem_append.mp hmem with hold | hcurrent
  · rw [h.spent t hold] at hactive
    cases hactive
  · exact Option.mem_toList.mp hcurrent

theorem filter_key_cons (hkey : t.key = key) (l : List Turn) :
    (t :: l).filter (·.key = key) = t :: l.filter (·.key = key) :=
  List.filter_cons_of_pos (decide_eq_true hkey)

theorem turnsOf_set (h : Lane p key ended (some t)) (hj : p.turns[j]? = some t) (hkey : t.key = key) {t' : Turn}
    (hkey' : t'.key = key) : (p.turns.set j t').filter (·.key = key) = ended ++ [t'] := by
  obtain ⟨before, after, hturns, hset⟩ := Lists.exists_cut_set hj
  have hcut : before.filter (·.key = key) ++ t :: after.filter (·.key = key) = ended ++ [t] := by
    rw [← Option.toList_some, ← h.turns, Pool.turnsOf, hturns, List.filter_append, filter_key_cons hkey]
  -- the turns before the last one have ended, so it is the last one that is cut out
  have hlast : after.filter (·.key = key) = [] := by
    rcases List.eq_nil_or_concat (after.filter (·.key = key)) with hnil | ⟨init, last, hconcat⟩
    · exact hnil
    · rw [hconcat, List.concat_eq_append, ← List.cons_append, ← List.append_assoc] at hcut
      have hended := (List.append_inj' hcut rfl).1
      have hover := h.spent t (hended ▸ List.mem_append_right _ List.mem_cons_self)
      rw [h.active t rfl] at hover
      cases hover
  rw [hlast] at hcut
  rw [hset, List.filter_append, filter_key_cons hkey', hlast, (List.append_inj' hcut rfl).1]

theorem Lane.goOn (h : Lane p key ended (some t)) {phase : TurnPhase} (hphase : phase.active = true)
    (hturns : p'.turnsOf key = ended ++ [{ t with phase := phase }]) (hcalls : p'.calls key = p.calls key) :
    Lane p' key ended (some { t with phase := phase }) where
  turns := hturns
  spent := h.spent
  active t' ht' := by
    cases ht'
    exact hphase
  batches := by
    rw [hcalls, ← h.batches, hturns, h.turns, List.map_append, List.map_append]
    rfl
  indices := by
    rw [hcalls, ← h.indices, hturns, h.turns, List.map_append, List.map_append]
    rfl
  running t' ht' := by
    cases ht'
    rw [hcalls]
    exact h.running t rfl

theorem Lane.finish (h : Lane p key ended (some t)) (threw : Bool)
    (hturns : p'.turnsOf key = ended ++ [{ t with phase := .ended threw }]) (hcalls : p'.calls key = p.calls key) :
    Lane p' key (ended ++ [{ t with phase := .ended threw }]) none where
  turns := hturns.trans (List.append_nil _).symm
  spent t' ht' := by
    rcases List.mem_append.mp ht' with hold | hnew
    · exact h.spent t' hold
    · rw [List.mem_singleton.mp hnew]
      rfl
  active := nofun
  batches := by
    rw [hcalls, ← h.batches, hturns, h.turns, List.map_append, List.map_append]
    rfl
  indices := by
    rw [hcalls, ← h.indices, hturns, h.turns, List.map_append, List.map_append]
    rfl
  running := nofun

/-- A step of the current turn that hands the agent `new`, when no creation is open any more. -/
theorem Served.advance (h : Served p key current session) {current' : Option Turn} {new : List Origin}
    (hstand : Stand p' key session (current'.map (·.phase)))
    (hcreated : ∀ (s : ℕ) (x : Session), p'.created[s]? = some x → x.key = key →
      ∃ y, p.created[s]? = some y ∧ y.key = key ∧
      x.agent.inbox.map (·.origin) = y.agent.inbox.map (·.origin) ++ new)
    (hkeys : p'.sessionKeys = p.sessionKeys) (hhanded : (p'.handed key).map originOf = (p.handed key).map originOf ++ new)
    (hnew : session = none → new = []) (hcreations : p'.creations = p.creations)
    (hclosed : ∀ (c : ℕ) (creation : Creation), p.creations[c]? = some creation → creation.key = key →
      creation.result ≠ none) :
    Served p' key current' session where
  stand := hstand
  only s x hx hkey := by
    obtain ⟨y, hy, hykey, hinbox⟩ := hcreated s x hx hkey
    obtain ⟨hsession, horigins⟩ := h.only s y hy hykey
    exact ⟨hsession, by rw [hinbox, horigins, hhanded]⟩
  keyed s hs := by
    rw [hkeys]
    exact h.keyed s hs
  unserved hnone := by
    rw [h.unserved hnone, hnew hnone] at hhanded
    exact List.map_eq_nil_iff.mp hhanded
  creations c creation hc hkey hresult := absurd hresult (hclosed c creation (hcreations ▸ hc) hkey)

theorem handed_origins {phase : TurnPhase} (h : p.turnsOf key = ended ++ [t])
    (h' : p'.turnsOf key = ended ++ [{ t with phase := phase }]) {new : List Origin}
    (hnew : (if phase.handed then [originOf t] else []) = (if t.phase.handed then [originOf t] else []) ++ new) :
    (p'.handed key).map originOf = (p.handed key).map originOf ++ new := by
  have hlast : ∀ x : Turn, ([x].filter (·.phase.handed)).map originOf = if x.phase.handed then [originOf x] else [] := by
    intro x
    rw [List.filter_cons, List.filter_nil]
    split_ifs <;> rfl
  rw [Pool.handed, Pool.handed, h, h', List.filter_append, List.filter_append, List.map_append, List.map_append, hlast,
    hlast,
    List.append_assoc]
  exact congrArg _ hnew

/-- The session is there, or the creation has failed. -/
theorem chat_creating (h : Lane p key ended (some t)) (hserved : Served p key (some t) session) (hj : p.turns[j]? = some t)
    (hkey : t.key = key) {c : ℕ} {own : Bool} (hphase : t.phase = .creating c own) (hs : p.resume j t = some p') :
    ChatOk p' key := by
  have hstand := hserved.stand
  rw [Option.map_some, hphase] at hstand
  simp only [Pool.resume, hphase] at hs
  obtain ⟨result, hresult, rfl⟩ := Option.map_eq_some_iff.mp hs
  cases hstand with
  | serving _ s served => cases served
  | asking _ creation found keyed result' =>
    rw [found, Option.bind_some, result'] at hresult
    cases hresult
  | answered _ creation found keyed result' sessions pending =>
    rw [found, Option.bind_some, result'] at hresult
    cases hresult
    have hclosed : ∀ (c' : ℕ) (creation' : Creation), p.creations[c']? = some creation' → creation'.key = key →
        creation'.result ≠ none := by
      intro c' creation' hc' hkey' hopen
      obtain ⟨t', ht', hphase'⟩ := hserved.creations c' creation' hc' hkey' hopen
      cases ht'
      cases hphase.symm.trans hphase'
      rw [Option.some.inj (found.symm.trans hc'), hopen] at result'
      cases result'
    have hturns : ∀ phase, (p.setTurn j t phase).turnsOf key = ended ++ [{ t with phase := phase }] := fun phase =>
      turnsOf_set h hj hkey hkey
    cases session with
    | some s =>
      refine ⟨ended, some { t with phase := .got s }, some s, h.goOn rfl (hturns _) rfl, ?_⟩
      exact hserved.advance
        (.serving _ s rfl rfl (by
          rw [show sessionKey t.call.merged = key from hkey]
          exact AList.lookup_insert p.sessions) pending)
        (fun s' x hx hxkey => ⟨x, hx, hxkey, (List.append_nil _).symm⟩) rfl
        (handed_origins h.turns (hturns _) (by rw [hphase]; rfl))
          (fun hnone => absurd hnone (Option.some_ne_none s)) rfl hclosed
    | none =>
      refine ⟨ended ++ [{ t with phase := .ended true }], none, none, h.finish true (hturns _) rfl, ?_⟩
      exact hserved.advance (.quiet sessions pending) (fun s' x hx hxkey => ⟨x, hx, hxkey, (List.append_nil _).symm⟩) rfl
        (handed_origins h.turns (hturns _) (by rw [hphase]; rfl)) (fun _ => rfl) rfl hclosed

theorem Served.serving (h : Served p key (some t) session) {s : ℕ} (hphase : t.phase.session = some s) :
    session = some s ∧ p.sessions.lookup key = session ∧ p.pending.lookup key = none ∧
      ∀ (c : ℕ) (creation : Creation), p.creations[c]? = some creation → creation.key = key →
        creation.result ≠ none := by
  have hclosed : ∀ (c : ℕ) (creation : Creation), p.creations[c]? = some creation → creation.key = key →
      creation.result ≠ none := by
    intro c creation hc hkey hopen
    obtain ⟨t', ht', hphase'⟩ := h.creations c creation hc hkey hopen
    cases ht'
    rw [hphase'] at hphase
    cases hphase
  have hstand := h.stand
  rw [Option.map_some] at hstand
  generalize t.phase = phase at hstand hphase
  cases hstand with
  | asking | answered => cases hphase
  | serving _ s' served found sessions pending =>
    cases served.symm.trans hphase
    exact ⟨found, sessions, pending, hclosed⟩

theorem getElem?_modify_session {f : Session → Session} {s s' : ℕ} {x : Session}
    (h : (p.created.modify s f)[s']? = some x) :
    (s' ≠ s ∧ p.created[s']? = some x) ∨ s' = s ∧ ∃ y, p.created[s]? = some y ∧ x = f y := by
  rw [List.getElem?_modify] at h
  obtain ⟨y, hy, rfl⟩ := Option.map_eq_some_iff.mp h
  by_cases hs : s = s'
  · exact Or.inr ⟨hs.symm, y, hs ▸ hy, if_pos hs⟩
  · exact Or.inl ⟨Ne.symm hs, hy.trans (congrArg some (if_neg hs).symm)⟩

theorem sessionKeys_modify (p : Pool) (s : ℕ) {f : Session → Session} (hf : ∀ x, (f x).key = x.key) :
    (p.created.modify s f).map (·.key) = p.sessionKeys := Lists.map_modify_of_eq hf _ _

/-- The turn has its session and goes to the tape. -/
theorem chat_got (h : Lane p key ended (some t)) (hserved : Served p key (some t) session) (hj : p.turns[j]? = some t)
    (hkey : t.key = key) {s : ℕ} (hphase : t.phase = .got s) (hs : p.resume j t = some p') : ChatOk p' key := by
  obtain ⟨hsession, hsessions, hpending, hclosed⟩ := hserved.serving (s := s) (by rw [hphase]; rfl)
  simp only [Pool.resume, hphase] at hs
  cases hs
  have hturns : (p.setTurn j t (.recording s)).turnsOf key = ended ++ [{ t with phase := .recording s }] :=
    turnsOf_set h hj hkey hkey
  refine ⟨ended, some { t with phase := .recording s }, session, h.goOn rfl hturns rfl, ?_⟩
  refine hserved.advance (.serving _ s rfl hsession hsessions hpending) (fun s' x hx hxkey => ?_)
    (sessionKeys_modify p s fun _ => rfl) (handed_origins h.turns hturns (by rw [hphase]; rfl)) (fun _ => rfl) rfl hclosed
  rcases getElem?_modify_session hx with ⟨-, hold⟩ | ⟨rfl, y, hy, rfl⟩
  · exact ⟨x, hold, hxkey, (List.append_nil _).symm⟩
  · exact ⟨y, hy, hxkey, (List.append_nil _).symm⟩

theorem take_inbox (call : HandlerCall) (x : Session) :
    (x.take call).agent.inbox.map (·.origin) = x.agent.inbox.map (·.origin) ++ [.batch call.batch] := by
  rw [Session.take]
  split_ifs <;> exact List.map_append

/-- The agent gets the messages. -/
theorem chat_recording (h : Lane p key ended (some t)) (hserved : Served p key (some t) session) (hj : p.turns[j]? = some t)
    (hkey : t.key = key) {s : ℕ} (hphase : t.phase = .recording s) (hs : p.resume j t = some p') : ChatOk p' key := by
  obtain ⟨hsession, hsessions, hpending, hclosed⟩ := hserved.serving (s := s) (by rw [hphase]; rfl)
  simp only [Pool.resume, hphase] at hs
  obtain ⟨x, hx, rfl⟩ := Option.map_eq_some_iff.mp hs
  have hxkey : x.key = key := by
    have hfound := hserved.keyed s hsession
    rw [Pool.sessionKeys, List.getElem?_map, hx] at hfound
    exact Option.some.inj hfound
  have hcreated : ∀ (s' : ℕ) (x' : Session), (p.created.modify s (Session.take t.call))[s']? = some x' →
    x'.key = key →
      ∃ y, p.created[s']? = some y ∧ y.key = key ∧
        x'.agent.inbox.map (·.origin) = y.agent.inbox.map (·.origin) ++ [originOf t] := by
    intro s' x' hx' hxkey'
    rcases getElem?_modify_session hx' with ⟨hne, hold⟩ | ⟨rfl, y, hy, rfl⟩
    · exact absurd (Option.some.inj ((hserved.only s' x' hold hxkey').1.symm.trans hsession)) hne
    · exact ⟨y, hy, hxkey', take_inbox t.call y⟩
  have hnone : session = none → [originOf t] = [] :=
    fun hnone => absurd (hsession.symm.trans hnone) (Option.some_ne_none s)
  by_cases hstreaming : x.agent.isStreaming = true
  · rw [if_pos hstreaming]
    have hturns : (p.setTurn j t (.ended false)).turnsOf key = ended ++ [{ t with phase := .ended false }] :=
      turnsOf_set h hj hkey hkey
    exact ⟨_, none, session, h.finish false hturns rfl, hserved.advance (.quiet hsessions hpending) hcreated
      (sessionKeys_modify p s fun _ => rfl) (handed_origins h.turns hturns (by rw [hphase]; rfl)) hnone rfl hclosed⟩
  · rw [if_neg hstreaming]
    have hturns : (p.setTurn j t (.prompting s)).turnsOf key = ended ++ [{ t with phase := .prompting s }] :=
      turnsOf_set h hj hkey hkey
    exact ⟨ended, some _, session, h.goOn rfl hturns rfl, hserved.advance (.serving _ s rfl hsession hsessions hpending)
      hcreated (sessionKeys_modify p s fun _ => rfl)
        (handed_origins h.turns hturns (by rw [hphase]; rfl)) hnone rfl hclosed⟩

theorem chat_prompting (h : Lane p key ended (some t)) (hserved : Served p key (some t) session) (hj : p.turns[j]? = some t)
    (hkey : t.key = key) {s : ℕ} (hphase : t.phase = .prompting s) (hs : p.resume j t = some p') : ChatOk p' key := by
  obtain ⟨hsession, hsessions, hpending, hclosed⟩ := hserved.serving (s := s) (by rw [hphase]; rfl)
  simp only [Pool.resume, hphase] at hs
  cases hs
  have hturns : (p.setTurn j t (.ended false)).turnsOf key = ended ++ [{ t with phase := .ended false }] :=
    turnsOf_set h hj hkey hkey
  exact ⟨_, none, session, h.finish false hturns rfl, hserved.advance (.quiet hsessions hpending)
    (fun s' x hx hxkey => ⟨x, hx, hxkey, (List.append_nil _).symm⟩) rfl
    (handed_origins h.turns hturns (by rw [hphase]; rfl)) (fun _ => rfl) rfl hclosed⟩

theorem resume_active (hs : p.resume j t = some p') : t.phase.active = true := by
  cases hphase : t.phase with
  | ended threw =>
    simp only [Pool.resume, hphase] at hs
    cases hs
  | creating | got | recording | prompting => rfl

theorem chat_resume (h : ChatOk p t.key) (hj : p.turns[j]? = some t) (hs : p.resume j t = some p') : ChatOk p' t.key := by
  obtain ⟨ended, current, session, hlane, hserved⟩ := h
  obtain rfl := hlane.current_of_active hj rfl (resume_active hs)
  cases hphase : t.phase with
  | creating c own => exact chat_creating hlane hserved hj rfl hphase hs
  | got s => exact chat_got hlane hserved hj rfl hphase hs
  | recording s => exact chat_recording hlane hserved hj rfl hphase hs
  | prompting s => exact chat_prompting hlane hserved hj rfl hphase hs
  | ended threw =>
    simp only [Pool.resume, hphase] at hs
    cases hs

theorem turnsOf_set_other (hj : p.turns[j]? = some t) (hne : t.key ≠ key) (phase : TurnPhase) :
    (p.setTurn j t phase).turnsOf key = p.turnsOf key := by
  obtain ⟨before, after, hturns, hset⟩ := Lists.exists_cut_set hj
  have hskip : ∀ t' : Turn, t'.key ≠ key → (t' :: after).filter (·.key = key) = after.filter (·.key = key) :=
    fun t' hne' =>
    List.filter_cons_of_neg (by rwa [decide_eq_true_eq])
  rw [Pool.turnsOf, Pool.turnsOf, Pool.setTurn, hset, hturns, List.filter_append, List.filter_append, hskip t hne,
    hskip _ (show Turn.key { t with phase := phase } ≠ key from hne)]

/-- A turn of another chat. -/
theorem sameChat_setTurn (hj : p.turns[j]? = some t) (hne : t.key ≠ key) (phase : TurnPhase) :
    SameChat key p (p.setTurn j t phase) where
  turns := turnsOf_set_other hj hne phase
  calls := rfl
  sessions := rfl
  pending := rfl
  creations _ _ _ := Iff.rfl
  created _ x hx hkey := ⟨x, hx, hkey, rfl⟩
  keyed _ h := h

theorem sameChat_modify (p : Pool) {s : ℕ} (hs : p.sessionKeys[s]? = some t.key) (hne : t.key ≠ key)
    (f : Session → Session)
    (hf : ∀ x, (f x).key = x.key) : SameChat key p { p with created := p.created.modify s f } where
  turns := rfl
  calls := rfl
  sessions := rfl
  pending := rfl
  creations _ _ _ := Iff.rfl
  created s' x hx hkey := by
    rcases getElem?_modify_session hx with ⟨-, hold⟩ | ⟨rfl, y, hy, rfl⟩
    · exact ⟨x, hold, hkey, rfl⟩
    · rw [Pool.sessionKeys, List.getElem?_map, hy] at hs
      exact absurd ((Option.some.inj hs).symm.trans ((hf y).symm.trans hkey)) hne
  keyed s' hs' := by
    rw [← hs']
    exact congrArg (·[s']?) (sessionKeys_modify p s hf)

theorem SameChat.trans {p'' : Pool} (h : SameChat key p p') (h' : SameChat key p' p'') : SameChat key p p'' where
  turns := h'.turns.trans h.turns
  calls := h'.calls.trans h.calls
  sessions := h'.sessions.trans h.sessions
  pending := h'.pending.trans h.pending
  creations c creation hkey := (h'.creations c creation hkey).trans (h.creations c creation hkey)
  created s x hx hkey := by
    obtain ⟨y, hy, hykey, hinbox⟩ := h'.created s x hx hkey
    obtain ⟨z, hz, hzkey, hinbox'⟩ := h.created s y hy hykey
    exact ⟨z, hz, hzkey, hinbox'.trans hinbox⟩
  keyed s hs := h'.keyed s (h.keyed s hs)

theorem sameChat_resume (hok : SessionsOk p) (hj : p.turns[j]? = some t) (hne : t.key ≠ key)
    (hs : p.resume j t = some p') :
    SameChat key p p' := by
  have hphase := (hok.turns t (List.mem_of_getElem? hj)).2
  cases hat : t.phase with
  | creating c own =>
    simp only [Pool.resume, hat] at hs
    obtain ⟨result, -, rfl⟩ := Option.map_eq_some_iff.mp hs
    cases result with
    | none => exact sameChat_setTurn hj hne _
    | some s =>
      cases own with
      | false => exact sameChat_setTurn hj hne _
      | true => exact { sameChat_setTurn hj hne (.got s) with sessions := AList.lookup_insert_ne (Ne.symm hne) }
  | got s =>
    simp only [Pool.resume, hat] at hs hphase
    cases hs
    exact (sameChat_setTurn hj hne (.recording s)).trans
      (sameChat_modify (p.setTurn j t _) hphase hne (Session.arrived t.call.merged) fun _ => rfl)
  | recording s =>
    simp only [Pool.resume, hat] at hs hphase
    obtain ⟨x, -, rfl⟩ := Option.map_eq_some_iff.mp hs
    exact (sameChat_setTurn hj hne _).trans (sameChat_modify (p.setTurn j t _) hphase hne (Session.take t.call) fun _ => rfl)
  | prompting s =>
    simp only [Pool.resume, hat] at hs
    cases hs
    exact sameChat_setTurn hj hne _
  | ended threw =>
    simp only [Pool.resume, hat] at hs
    cases hs

/-! A creation is over -/

theorem sameChat_resolve {c : ℕ} {creation : Creation} (hc : p.creations[c]? = some creation) (hne : creation.key ≠ key)
    (ok : Bool) : SameChat key p (p.resolve c creation ok) := by
  have hcreations : ∀ (result : Option (Option ℕ)) (c' : ℕ) (creation' : Creation), creation'.key = key →
      ((p.creations.set c { creation with result := result })[c']? = some creation' ↔
        p.creations[c']? = some creation') := by
    intro result c' creation' hkey
    rw [List.getElem?_set]
    split_ifs with hi hlt
    · subst hi
      rw [hc, Option.some.injEq, Option.some.injEq]
      refine iff_of_false ?_ ?_
      · rintro rfl
        exact hne hkey
      · rintro rfl
        exact hne hkey
    · subst hi
      rw [List.getElem?_eq_none (Nat.le_of_not_lt hlt)] at hc
      cases hc
    · rfl
  have hpending : (p.pending.erase creation.key).lookup key = p.pending.lookup key := AList.lookup_erase_ne (Ne.symm hne)
  cases ok with
  | true =>
    refine ⟨⟨rfl, rfl, hpending, hcreations _, fun s x hx hkey => ?_, fun s hs => ?_⟩, rfl⟩
    · rcases Lists.getElem?_concat_cases hx with hold | rfl
      · exact ⟨x, hold, hkey, rfl⟩
      · exact absurd hkey hne
    · exact (congrArg (·[s]?) List.map_append).trans (Lists.getElem?_append_of_some hs _)
  | false => exact ⟨⟨rfl, rfl, hpending, hcreations _, fun s x hx hkey => ⟨x, hx, hkey, rfl⟩, fun s hs => hs⟩,
    rfl⟩

/-- The creation is the one the current turn waits for, and there is no session of the chat yet. -/
theorem chat_resolve {c : ℕ} {creation : Creation} (h : ChatOk p creation.key) (hc : p.creations[c]? = some creation)
    (hopen : creation.result = none) (ok : Bool) : ChatOk (p.resolve c creation ok) creation.key := by
  obtain ⟨ended, current, session, hlane, hserved⟩ := h
  obtain ⟨t, rfl, hphase⟩ := hserved.creations c creation hc rfl hopen
  have hstand := hserved.stand
  rw [Option.map_some, hphase] at hstand
  have hpending : (p.pending.erase creation.key).lookup creation.key = none := AList.lookup_erase _ p.pending
  have hlt : c < p.creations.length := (List.getElem?_eq_some_iff.mp hc).1
  have hset : ∀ result, (p.creations.set c { creation with result := result })[c]? =
    some { creation with result := result } :=
    fun result => List.getElem?_set_self hlt
  have hother : ∀ (result : Option ℕ) (c' : ℕ) (creation' : Creation),
      (p.creations.set c { creation with result := some result })[c']? = some creation' → creation'.key = creation.key →
      creation'.result = none → ∃ t', some t = some t' ∧ t'.phase = .creating c' true := by
    intro result c' creation' hc' hkey' hopen'
    rcases Lists.getElem?_set_cases hc' with ⟨-, rfl⟩ | ⟨-, hold⟩
    · cases hopen'
    · exact hserved.creations c' creation' hold hkey' hopen'
  cases hstand with
  | serving _ s served => cases served
  | answered _ creation' found keyed result =>
    rw [Option.some.inj (found.symm.trans hc), hopen] at result
    cases result
  | asking _ creation' found keyed result sessions _ unserved =>
    subst unserved
    have hkey : ∀ result : Option (Option ℕ), Creation.key { creation with result := result } = creation.key :=
      fun _ => rfl
    cases ok with
    | false =>
      refine ⟨ended, some t, none, hlane.frame rfl rfl, ?_⟩
      refine ⟨?_, hserved.only, nofun, hserved.unserved, hother none⟩
      rw [Option.map_some, hphase]
      exact .answered c _ (hset (some none)) (hkey _) rfl sessions hpending
    | true =>
      refine ⟨ended, some t, some p.created.length, hlane.frame rfl rfl, ?_⟩
      refine ⟨?_, fun s x hx hxkey => ?_, fun s hs => ?_, nofun, hother _⟩
      · rw [Option.map_some, hphase]
        exact .answered c _ (hset (some (some p.created.length))) (hkey _) rfl sessions hpending
      · -- only the new session is the chat's
        have hfound : (p.created ++ [(⟨creation.key, .new, creation.msg.channel, creation.msg⟩ : Session)])[s]? =
          some x := hx
        rw [Lists.getElem?_concat] at hfound
        split_ifs at hfound with hs
        · cases hfound
          exact ⟨congrArg some hs.symm, (congrArg (List.map originOf) (hserved.unserved rfl)).symm⟩
        · exact nomatch (hserved.only s x hfound hxkey).1
      · cases hs
        show (List.map Session.key (p.created ++ [_]))[p.created.length]? = some creation.key
        rw [List.map_append, List.getElem?_append_right (by rw [List.length_map]), List.length_map, Nat.sub_self]
        rfl

/-! Debouncers -/

variable {α : Type} {f : Debouncer → List α}

theorem ofDebouncer_made {made : List Debouncer} (h : made.map f = p.made.map f) (key : String) :
    Pool.ofDebouncer { p with made := made } f key = p.ofDebouncer f key := by
  rw [Pool.ofDebouncer, Pool.ofDebouncer, h]

theorem ofDebouncer_self (hreg : Registered p) {x : Debouncer} (hx : p.made[d]? = some x) : p.ofDebouncer f x.key = f x := by
  rw [Pool.ofDebouncer, hreg.made d x hx, Option.bind_some, List.getElem?_map, hx, Option.map_some, Option.getD_some]

/-- A debouncer changes, and with it what is read for its chat. -/
theorem ofDebouncer_set (hreg : Registered p) (hok : DebouncersOk p.made p.debouncers) {x : Debouncer}
    (hx : p.made[d]? = some x) (state : Debounce.State) (key : String) :
    Pool.ofDebouncer { p with made := p.made.set d { x with state := state } } f key =
      if key = x.key then f { x with state := state } else p.ofDebouncer f key := by
  split_ifs with hkey
  · rw [Pool.ofDebouncer, hkey, hreg.made d x hx, Option.bind_some, List.getElem?_map,
      List.getElem?_set_self (List.getElem?_eq_some_iff.mp hx).1, Option.map_some, Option.getD_some]
  · rw [Pool.ofDebouncer, Pool.ofDebouncer]
    cases hlookup : p.debouncers.lookup key with
    | none => rfl
    | some d' =>
      have hne : d ≠ d' := by
        rintro rfl
        have hfound := hok.keyed key d hlookup
        rw [List.getElem?_map, hx] at hfound
        exact hkey (Option.some.inj hfound).symm
      rw [Option.bind_some, Option.bind_some, List.getElem?_map, List.getElem?_map, List.getElem?_set_ne hne]

/-- A message for a chat reaches its debouncer, which is made if there is none. -/
theorem ofDebouncer_handle (hok : DebouncersOk p.made p.debouncers) (msg : IncomingMessage) (new : List α)
    (hprocess : ∀ x ∈ p.made, x.key = sessionKey msg → f (x.process msg) = f x ++ new)
    (hfresh : p.debouncers.lookup (sessionKey msg) = none →
      f ((⟨sessionKey msg, Debounce.init⟩ : Debouncer).process msg) = new)
    (key : String) :
    (p.handle msg).ofDebouncer f key = p.ofDebouncer f key ++ if key = sessionKey msg then new else [] := by
  rw [Pool.handle]
  cases hlookup : p.debouncers.lookup (sessionKey msg) with
  | some d =>
    have hfound := hok.keyed _ d hlookup
    rw [List.getElem?_map] at hfound
    obtain ⟨x, hx, hxkey⟩ := Option.map_eq_some_iff.mp hfound
    dsimp only
    rw [Pool.ofDebouncer, Pool.ofDebouncer]
    split_ifs with hkey
    · rw [hkey, hlookup, Option.bind_some, Option.bind_some, List.getElem?_map, List.getElem?_map,
        List.getElem?_modify_eq, hx]
      exact hprocess x (List.mem_of_getElem? hx) hxkey
    · rw [List.append_nil]
      cases hlookup' : p.debouncers.lookup key with
      | none => rfl
      | some d' =>
        have hne : d ≠ d' := by
          rintro rfl
          have hfound' := hok.keyed key d hlookup'
          rw [List.getElem?_map, hx] at hfound'
          exact hkey ((Option.some.inj hfound').symm.trans hxkey)
        rw [Option.bind_some, Option.bind_some, List.getElem?_map, List.getElem?_map]
        exact congrArg (fun y => (Option.map f y).getD []) (List.getElem?_modify_ne _ _ hne)
  | none =>
    dsimp only
    rw [Pool.ofDebouncer, Pool.ofDebouncer]
    split_ifs with hkey
    · rw [hkey, hlookup, AList.lookup_insert, Option.bind_some, List.map_append,
        List.getElem?_append_right (by rw [List.length_map]), List.length_map, Nat.sub_self]
      exact hfresh hlookup
    · rw [AList.lookup_insert_ne hkey, List.append_nil]
      cases hlookup' : p.debouncers.lookup key with
      | none => rfl
      | some d' =>
        have hlt : d' < p.made.length := by
          have hfound := hok.keyed key d' hlookup'
          rw [List.getElem?_map] at hfound
          obtain ⟨x, hx, -⟩ := Option.map_eq_some_iff.mp hfound
          exact (List.getElem?_eq_some_iff.mp hx).1
        rw [Option.bind_some, Option.bind_some, List.map_append, List.getElem?_append_left (by rwa [List.length_map])]

theorem map_shutdown {β : Type} {g : Debouncer → β} (hg : ∀ x : Debouncer, g x.shutdown = g x) (made : List Debouncer)
    (ds : List ℕ) : (ds.foldl (fun made d => made.modify d Debouncer.shutdown) made).map g = made.map g := by
  induction ds generalizing made with
  | nil => rfl
  | cons d ds ih => exact (ih _).trans (Lists.map_modify_of_eq hg made d)

theorem registered_handle (h : Registered p) (msg : IncomingMessage) : Registered (p.handle msg) := by
  rw [Pool.handle]
  cases hlookup : p.debouncers.lookup (sessionKey msg) with
  | some d =>
    refine ⟨fun d' x hx => ?_, h.turns⟩
    rw [List.getElem?_modify] at hx
    obtain ⟨y, hy, rfl⟩ := Option.map_eq_some_iff.mp hx
    rw [show (if d = d' then Debouncer.process msg y else y).key = y.key by split_ifs <;> rfl]
    exact h.made d' y hy
  | none =>
    have hold : ∀ key i, p.debouncers.lookup key = some i →
        (p.debouncers.insert (sessionKey msg) p.made.length).lookup key = some i := fun key i hi => by
      have hne : key ≠ sessionKey msg := by
        rintro rfl
        cases hlookup.symm.trans hi
      exact (AList.lookup_insert_ne hne).trans hi
    refine ⟨fun d' x hx => ?_, fun t ht => hold _ _ (h.turns t ht)⟩
    dsimp only at hx
    rw [Lists.getElem?_concat] at hx
    split_ifs at hx with hd
    · cases hx
      rw [hd]
      exact AList.lookup_insert p.debouncers
    · exact hold _ _ (h.made d' x hx)

/-! A turn begins -/

theorem Lane.begin (h : Lane p key ended none) {call : HandlerCall} {phase : TurnPhase}
    (hturns : p'.turnsOf key = p.turnsOf key ++ [⟨d, (p.calls key).length, call, phase⟩]) (hactive : phase.active = true)
    (hcalls : p'.calls key = p.calls key ++ [call]) (hrunning : call.state = .running) :
    Lane p' key ended (some ⟨d, (p.calls key).length, call, phase⟩) where
  turns := by rw [hturns, h.turns, Option.toList_none, List.append_nil, Option.toList_some]
  spent := h.spent
  active t ht := by
    cases ht
    exact hactive
  batches := by rw [hturns, hcalls, List.map_append, List.map_append, h.batches, List.map_singleton, List.map_singleton]
  indices := by
    rw [hturns, hcalls, List.map_append, h.indices, List.length_append, List.length_singleton, List.range_succ,
      List.map_singleton]
  running t ht := by
    cases ht
    exact ⟨call, by rw [hcalls, List.getElem?_concat_length], hrunning⟩

theorem Served.none_open (h : Served p key none session) {c : ℕ} {creation : Creation}
    (hc : p.creations[c]? = some creation)
    (hkey : creation.key = key) : creation.result ≠ none := fun hopen => by
  obtain ⟨t, ht, -⟩ := h.creations c creation hc hkey hopen
  cases ht

theorem turnsOf_concat {new : Turn} (hkey : new.key = key) (hturns : p'.turns = p.turns ++ [new]) :
    p'.turnsOf key = p.turnsOf key ++ [new] := by
  rw [Pool.turnsOf, hturns, List.filter_append, filter_key_cons hkey]
  rfl

theorem handed_concat {new : Turn} (hturns : p'.turnsOf key = p.turnsOf key ++ [new]) (hnew : new.phase.handed = false) :
    p'.handed key = p.handed key := by
  rw [Pool.handed, hturns, List.filter_append, List.filter_cons_of_neg (by rw [hnew]; exact Bool.false_ne_true)]
  exact List.append_nil _

/-- No other turn of the chat is underway: it takes the session that is there, or creates it. -/
theorem chat_begin (hlane : Lane p key ended none) (hserved : Served p key none session) {call : HandlerCall}
    (hkey : sessionKey call.merged = key) (hrunning : call.state = .running) {made : List Debouncer}
    (hcalls : Pool.calls { p with made := made } key = p.calls key ++ [call]) :
    ChatOk (Pool.begin { p with made := made } d (p.calls key).length call) key := by
  have hstand := hserved.stand
  cases hstand with
  | quiet sessions pending =>
  rw [Pool.begin, hkey]
  dsimp only
  rw [sessions]
  cases session with
  | some s =>
    dsimp only
    have hturns : Pool.turnsOf { p with
        made := made, turns := p.turns ++ [⟨d, (p.calls key).length, call, .got s⟩] } key =
        p.turnsOf key ++ [⟨d, (p.calls key).length, call, .got s⟩] := turnsOf_concat hkey rfl
    refine ⟨ended, some ⟨d, (p.calls key).length, call, .got s⟩, some s, hlane.begin hturns rfl hcalls hrunning, ?_⟩
    refine ⟨.serving _ s rfl rfl sessions pending, ?_, hserved.keyed,
      fun hnone => absurd hnone (Option.some_ne_none s), ?_⟩
    · rw [handed_concat hturns rfl]
      exact hserved.only
    · exact fun c creation hc hckey hopen => absurd hopen (hserved.none_open hc hckey)
  | none =>
    dsimp only
    rw [pending]
    dsimp only
    have hturns : Pool.turnsOf { p with
        made := made
        creations := p.creations ++ [⟨key, call.merged, none⟩]
        pending := p.pending.insert key p.creations.length
        turns := p.turns ++ [⟨d, (p.calls key).length, call, .creating p.creations.length true⟩] } key =
          p.turnsOf key ++ [⟨d, (p.calls key).length, call, .creating p.creations.length true⟩] :=
            turnsOf_concat hkey rfl
    refine ⟨ended, some ⟨d, (p.calls key).length, call, .creating p.creations.length true⟩, none,
      hlane.begin hturns rfl hcalls hrunning, ?_⟩
    refine ⟨.asking _ ⟨key, call.merged, none⟩ List.getElem?_concat_length rfl rfl sessions
      (AList.lookup_insert p.pending) rfl,
      ?_, fun s hsome => absurd hsome.symm (Option.some_ne_none s), ?_, fun c creation hc hckey hopen => ?_⟩
    · rw [handed_concat hturns rfl]
      exact hserved.only
    · rw [handed_concat hturns rfl]
      exact hserved.unserved
    · dsimp only at hc
      rw [Lists.getElem?_concat] at hc
      split_ifs at hc with hlast
      · exact ⟨_, rfl, hlast ▸ rfl⟩
      · exact absurd hopen (hserved.none_open hc hckey)

theorem sameChat_addTurn {new : Turn} (hne : new.key ≠ key) : SameChat key p { p with turns := p.turns ++ [new] } where
  turns := by
    rw [Pool.turnsOf, List.filter_append, List.filter_cons_of_neg (by rwa [decide_eq_true_eq])]
    exact List.append_nil _
  calls := rfl
  sessions := rfl
  pending := rfl
  creations _ _ _ := Iff.rfl
  created _ x hx hkey := ⟨x, hx, hkey, rfl⟩
  keyed _ h := h

theorem sameChat_begin {call : HandlerCall} (hne : sessionKey call.merged ≠ key) (d index : ℕ) :
    SameChat key p (p.begin d index call) := by
  rw [Pool.begin]
  cases p.sessions.lookup (sessionKey call.merged) with
  | some s => exact sameChat_addTurn hne
  | none =>
    cases p.pending.lookup (sessionKey call.merged) with
    | some c => exact sameChat_addTurn hne
    | none =>
      dsimp only
      refine { @sameChat_addTurn p key ⟨d, index, call, .creating p.creations.length true⟩ hne with
        pending := AList.lookup_insert_ne (Ne.symm hne), creations := fun c creation hkey => ?_ }
      dsimp only
      rw [Lists.getElem?_concat]
      split_ifs with hlast
      · rw [hlast, List.getElem?_eq_none (Nat.le_refl _), Option.some.injEq]
        refine iff_of_false ?_ (Option.some_ne_none creation).symm
        rintro rfl
        exact hne hkey
      · rfl

theorem begin_turns (p : Pool) (d index : ℕ) (call : HandlerCall) :
    ∃ phase, (p.begin d index call).turns = p.turns ++ [⟨d, index, call, phase⟩] := by
  rw [Pool.begin]
  split
  · exact ⟨_, rfl⟩
  · split <;> exact ⟨_, rfl⟩

/-! Steps -/

structure Ordered (p : Pool) : Prop where
  inv : Inv p
  registered : Registered p
  chats : ∀ key, ChatOk p key

/-- A step that leaves sessions and turns alone. -/
theorem sameSession_made (p : Pool) (key : String) (made : List Debouncer) (debouncers : AList fun _ : String => ℕ) :
    SameSession key p { p with made := made, debouncers := debouncers } where
  turns := rfl
  sessions := rfl
  pending := rfl
  creations _ _ _ := Iff.rfl
  created _ x hx hkey := ⟨x, hx, hkey, rfl⟩
  keyed _ h := h

theorem registered_set (h : Registered p) {x : Debouncer} (hx : p.made[d]? = some x) (state : Debounce.State) :
    Registered { p with made := p.made.set d { x with state := state } } where
  made d' y hy := by
    rcases Lists.getElem?_set_cases hy with ⟨rfl, rfl⟩ | ⟨-, hold⟩
    · exact h.made d' x hx
    · exact h.made d' y hold
  turns := h.turns

theorem registered_begin (h : Registered p) {x : Debouncer} (hx : p.made[d]? = some x) (index : ℕ) {call : HandlerCall}
    (hkey : sessionKey call.merged = x.key) : Registered (p.begin d index call) := by
  obtain ⟨hmade, hdebouncers⟩ := begin_made p d index call
  obtain ⟨phase, hturns⟩ := begin_turns p d index call
  refine ⟨?_, fun t ht => ?_⟩
  · rw [hmade, hdebouncers]
    exact h.made
  · rw [hdebouncers]
    rw [hturns] at ht
    rcases List.mem_append.mp ht with hold | hnew
    · exact h.turns t hold
    · rw [List.mem_singleton.mp hnew, show Turn.key ⟨d, index, call, phase⟩ = x.key from hkey]
      exact h.made d x hx

/-- The handler's call that is over is not the one of the current turn. -/
theorem index_ne (h : Ordered p) {x : Debouncer} (hx : p.made[d]? = some x) (hlane : Lane p x.key ended (some t)) {k : ℕ}
    {threw : Bool} (hends : p.handlerEnds d (.handled k threw) = true) : t.index ≠ k := by
  rintro rfl
  obtain ⟨t', ht', hover⟩ := List.any_eq_true.mp hends
  simp only [Bool.and_eq_true, decide_eq_true_eq] at hover
  obtain ⟨⟨hdebouncer, hindex⟩, hphase⟩ := hover
  have hkey : t'.key = x.key := by
    have hfound := h.inv.debouncers.keyed _ _ (h.registered.turns t' ht')
    rw [hdebouncer, List.getElem?_map, hx] at hfound
    exact (Option.some.inj hfound).symm
  have hmem : t ∈ p.turnsOf x.key := hlane.turns ▸ List.mem_append_right _ List.mem_cons_self
  have hmem' : t' ∈ p.turnsOf x.key := List.mem_filter.mpr ⟨ht', decide_eq_true hkey⟩
  have hnodup : ((p.turnsOf x.key).map (·.index)).Nodup := hlane.indices ▸ List.nodup_range
  have hsame : t' = t := List.inj_on_of_nodup_map hnodup hmem' hmem hindex
  have hactive := hlane.active t rfl
  rw [hsame] at hphase
  cases hat : t.phase with
  | ended threw' =>
    rw [hat] at hactive
    cases hactive
  | creating | got | recording | prompting =>
    rw [hat] at hphase
    cases hphase

theorem Lane.handlerOver (h : Lane p key ended current) {k : ℕ} {call : HandlerCall} {state : Debounce.CallState}
    (hturns : p'.turnsOf key = p.turnsOf key) (hfound : (p.calls key)[k]? = some call)
    (hcalls : p'.calls key = (p.calls key).set k { call with state := state })
    (hne : ∀ t, current = some t → t.index ≠ k) : Lane p' key ended current where
  turns := hturns.trans h.turns
  spent := h.spent
  active := h.active
  batches := by
    rw [hturns, hcalls, h.batches]
    exact (Lists.map_set_of_eq (f := HandlerCall.batch) (a := { call with state := state }) hfound rfl).symm
  indices := by rw [hturns, hcalls, List.length_set, h.indices]
  running t ht := by
    rw [hcalls, List.getElem?_set_ne (Ne.symm (hne t ht))]
    exact h.running t ht

/-- While a turn is current, the debouncer calls its handler for no other. -/
theorem none_current {x : Debouncer} (hlane : Lane p key ended current) (hcalls : p.calls key = x.state.calls)
    {state : Debounce.State} {call : HandlerCall} (hinv : Debounce.Inv state)
    (hstate : state.calls = x.state.calls ++ [call])
    (hrunning : call.state = .running) : current = none := by
  cases current with
  | none => rfl
  | some t =>
    obtain ⟨call', hcall', hrunning'⟩ := hlane.running t rfl
    rw [hcalls] at hcall'
    have hold : state.calls[t.index]? = some call' := hstate ▸ Lists.getElem?_append_of_some hcall' _
    have hnew : state.calls[x.state.calls.length]? = some call := by rw [hstate, List.getElem?_concat_length]
    have hsame := (hinv.running _ _ hold hrunning').symm.trans (hinv.running _ _ hnew hrunning)
    have hlt := (List.getElem?_eq_some_iff.mp hcall').1
    rw [Option.some.inj hsame] at hlt
    exact absurd hlt (Nat.lt_irrefl _)

theorem ordered_debounce (h : Ordered p) {act : Debounce.Act} (hs : p.debounce config d act = some p') : Ordered p' := by
  have hinv := h.inv.debounce hs
  obtain ⟨x, hx, hs⟩ := Option.bind_eq_some_iff.mp hs
  split_ifs at hs with hends
  obtain ⟨state, hstep, rfl⟩ := Option.map_eq_some_iff.mp hs
  have hok : Debouncer.Ok { x with state := state } :=
    (h.inv.debouncers.ok x (List.mem_of_getElem? hx)).step (handlerEnds_message hends) hstep
  have hother : ∀ key, key ≠ x.key → SameChat key p { p with made := p.made.set d { x with state := state } } :=
    fun key hne =>
    ⟨sameSession_made p key _ _, (ofDebouncer_set h.registered h.inv.debouncers hx state key).trans (if_neg hne)⟩
  have hself : Pool.calls { p with made := p.made.set d { x with state := state } } x.key = state.calls :=
    (ofDebouncer_set h.registered h.inv.debouncers hx state x.key).trans (if_pos rfl)
  have hcalls : p.calls x.key = x.state.calls := ofDebouncer_self h.registered hx
  have hreg := registered_set h.registered hx state
  obtain ⟨now, hmove, hnow⟩ : ∃ now, Debounce.CallsStep x.state act now ∧ state.calls = now :=
    ⟨_, Debounce.step_calls hstep, rfl⟩
  cases hmove with
  | same =>
    rw [hnow, List.drop_length, Pool.beginAll] at hinv ⊢
    refine ⟨hinv, hreg, fun key => (h.chats key).frame ⟨sameSession_made p key _ _, ofDebouncer_made ?_ key⟩⟩
    exact Lists.map_set_of_eq hx hnow
  | ended k threw call st hact hfound =>
    have hdrop : state.calls.drop x.state.calls.length = [] := by rw [hnow, List.drop_eq_nil_iff, List.length_set]
    rw [hdrop, Pool.beginAll] at hinv ⊢
    refine ⟨hinv, hreg, fun key => ?_⟩
    by_cases hkey : key = x.key
    · subst hkey
      obtain ⟨ended, current, session, hlane, hserved⟩ := h.chats x.key
      refine ⟨ended, current, session, ?_, hserved.frame (sameSession_made p x.key _ _)⟩
      rw [← hcalls] at hfound hnow
      refine hlane.handlerOver rfl hfound (hself.trans hnow) fun t ht => ?_
      subst ht
      exact index_ne h hx hlane (hact ▸ hends)
    · exact (h.chats key).frame (hother key hkey)
  | began call hrunning =>
    have hdrop : state.calls.drop x.state.calls.length = [call] := by rw [hnow, List.drop_left]
    rw [hdrop, Pool.beginAll, Pool.beginAll] at hinv ⊢
    have hmerged : sessionKey call.merged = x.key :=
      merged_key call.merges (hok.call (hnow ▸ List.mem_append_right _ List.mem_cons_self))
    refine ⟨hinv, registered_begin (x := { x with state := state }) hreg
      (List.getElem?_set_self (List.getElem?_eq_some_iff.mp hx).1) _ hmerged, fun key => ?_⟩
    by_cases hkey : key = x.key
    · subst hkey
      obtain ⟨ended, current, session, hlane, hserved⟩ := h.chats x.key
      obtain rfl := none_current hlane hcalls hok.1 hnow hrunning
      rw [← hcalls]
      exact chat_begin hlane hserved hmerged hrunning (hself.trans (hnow.trans (hcalls ▸ rfl)))
    · exact (h.chats key).frame ((hother key hkey).trans (sameChat_begin (fun heq => hkey (heq.symm.trans hmerged)) d _))

theorem handle_eq (p : Pool) (msg : IncomingMessage) :
    ∃ made debouncers, p.handle msg = { p with made := made, debouncers := debouncers } := by
  rw [Pool.handle]
  split <;> exact ⟨_, _, rfl⟩

theorem calls_handle (hok : DebouncersOk p.made p.debouncers) (msg : IncomingMessage) (key : String) :
    (p.handle msg).calls key = p.calls key := by
  refine (ofDebouncer_handle hok msg [] (fun x _ _ => ?_) (fun _ => ?_) key).trans ?_
  · exact (Debounce.process_calls x.state msg).trans (List.append_nil _).symm
  · exact Debounce.process_calls Debounce.init msg
  · rw [ite_self, List.append_nil]
    rfl

/-- What a turn leaves alone as it goes on. -/
theorem resume_turns (hs : p.resume j t = some p') : ∃ phase, p'.made = p.made ∧ p'.debouncers = p.debouncers ∧
    p'.turns = p.turns.set j { t with phase := phase } := by
  unfold Pool.resume at hs
  split at hs
  · obtain ⟨result, -, rfl⟩ := Option.map_eq_some_iff.mp hs
    cases result with
    | none => exact ⟨_, rfl, rfl, rfl⟩
    | some s =>
      dsimp only
      split_ifs <;> exact ⟨_, rfl, rfl, rfl⟩
  · cases hs
    exact ⟨_, rfl, rfl, rfl⟩
  · obtain ⟨x, -, rfl⟩ := Option.map_eq_some_iff.mp hs
    exact ⟨_, rfl, rfl, rfl⟩
  · cases hs
    exact ⟨_, rfl, rfl, rfl⟩
  · cases hs

theorem registered_resume (h : Registered p) (hj : p.turns[j]? = some t) (hs : p.resume j t = some p') : Registered p' := by
  obtain ⟨phase, hmade, hdebouncers, hturns⟩ := resume_turns hs
  refine ⟨?_, fun t' ht' => ?_⟩
  · rw [hmade, hdebouncers]
    exact h.made
  · rw [hdebouncers]
    rw [hturns] at ht'
    rcases List.mem_or_eq_of_mem_set ht' with hold | rfl
    · exact h.turns t' hold
    · exact h.turns t (List.mem_of_getElem? hj)

theorem ordered_step {e : Event} (h : Ordered p) (he : e ≠ .clear) (hs : p.step config e = some p') : Ordered p' := by
  have hinv := inv_step h.inv hs
  cases e with
  | handle msg =>
    cases hs
    refine ⟨hinv, registered_handle h.registered msg,
      fun key => (h.chats key).frame ⟨?_, calls_handle h.inv.debouncers msg key⟩⟩
    obtain ⟨made, debouncers, heq⟩ := handle_eq p msg
    rw [heq]
    exact sameSession_made p key made debouncers
  | debounce d act => exact ordered_debounce h hs
  | created c ok =>
    obtain ⟨creation, hc, hs⟩ := Option.bind_eq_some_iff.mp hs
    split_ifs at hs with hopen
    cases hs
    refine ⟨hinv, ?_, fun key => ?_⟩
    · cases ok <;> exact ⟨h.registered.made, h.registered.turns⟩
    · by_cases hkey : creation.key = key
      · subst hkey
        exact chat_resolve (h.chats _) hc (Option.isNone_iff_eq_none.mp hopen) ok
      · exact (h.chats key).frame (sameChat_resolve hc hkey ok)
  | turn j =>
    obtain ⟨t, hj, hs⟩ := Option.bind_eq_some_iff.mp hs
    refine ⟨hinv, registered_resume h.registered hj hs, fun key => ?_⟩
    by_cases hkey : t.key = key
    · subst hkey
      exact chat_resume (h.chats _) hj hs
    · exact (h.chats key).frame (sameChat_resume h.inv.sessions hj hkey hs)
  | idle session =>
    cases hs
    refine ⟨hinv, ⟨h.registered.made, h.registered.turns⟩,
      fun key => (h.chats key).frame ⟨⟨rfl, rfl, rfl, fun _ _ _ => Iff.rfl,
      fun s x hx hkey => ?_, fun s hs => ?_⟩, rfl⟩⟩
    · rcases getElem?_modify_session hx with ⟨-, hold⟩ | ⟨rfl, y, hy, rfl⟩
      · exact ⟨x, hold, hkey, rfl⟩
      · exact ⟨y, hy, hkey, rfl⟩
    · rw [← hs]
      exact congrArg (·[s]?) (sessionKeys_modify p session fun _ => rfl)
  | shutdown =>
    cases hs
    refine ⟨hinv, ⟨fun d x hx => ?_, h.registered.turns⟩,
      fun key => (h.chats key).frame ⟨sameSession_made p key _ _, ?_⟩⟩
    · have hkeys := map_shutdown (g := Debouncer.key) (fun _ => rfl) p.made (p.debouncers.entries.map (·.2))
      have hfound : (p.made.map Debouncer.key)[d]? = some x.key := by rw [← hkeys, List.getElem?_map, hx, Option.map_some]
      rw [List.getElem?_map] at hfound
      obtain ⟨y, hy, hykey⟩ := Option.map_eq_some_iff.mp hfound
      exact hykey ▸ h.registered.made d y hy
    · exact ofDebouncer_made (map_shutdown (fun x => Debounce.shutdown_calls x.state) p.made _) key
  | clear => exact absurd rfl he

theorem ordered_init : Ordered .init where
  inv := inv_init
  registered := ⟨fun _ _ hx => (nomatch hx), fun _ ht => absurd ht List.not_mem_nil⟩
  chats _ := ⟨[], none, none,
    { turns := rfl
      spent := fun _ ht => absurd ht List.not_mem_nil
      active := nofun
      batches := rfl
      indices := rfl
      running := nofun },
    { stand := .quiet (AList.lookup_empty _) (AList.lookup_empty _)
      only := fun _ _ hx => nomatch hx
      keyed := nofun
      unserved := fun _ => rfl
      creations := fun _ _ hc => nomatch hc }⟩

end Nexal.AgentPool
