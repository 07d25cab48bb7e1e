import Nexal.Spec.Connection

/-! What one step of the connection can do to the maps, the tasks and the completions. -/

namespace Nexal.Conn

open Wire (Value WireResponse handleFrame)

structure Core where
  channels : List (Option String)
  streams : List (String × ChanId)
  pending : List Row
  requests : List Request
  tasks : List Task
  pump : Pump
  completions : List Completion
  swept : List ChanId
  taken : Bool

def State.core (s : State) : Core :=
  ⟨s.channels, s.streams, s.pending, s.requests, s.tasks, s.pump, s.completions, s.swept, s.taken⟩

def Core.drain (k : Core) (c : ChanId) : Core :=
  { k with
    pending := k.pending.filter (·.chan ≠ c)
    completions := k.completions ++ (k.pending.filter (·.chan = c)).map fun row => ⟨row.req, .drain c⟩
    swept := c :: k.swept }

def Core.setTask (k : Core) (i : ℕ) (t : Task) : Core := { k with tasks := k.tasks.set i t }

inductive CoreStep (display : Value → String) : Act → Core → Core → Prop where
  | stream {k : Core} {name : String} (hnone : k.streams.lookup name = none) :
    CoreStep display (.stream name) k { k with
      channels := k.channels ++ [some name]
      streams := k.streams ++ [(name, k.channels.length)]
      swept := if k.taken then k.channels.length :: k.swept else k.swept }
  | request {k : Core} {chan : ChanId} {id : Uuid} {stream : Option String}
    (hchan : k.channels[chan]? = some stream) :
    CoreStep display (.request chan id) k { k with
      pending := k.pending.filter (fun row => ¬ (row.chan = chan ∧ row.key = id.text)) ++
        [⟨chan, id.text, k.requests.length⟩]
      requests := k.requests ++ [⟨chan, stream, id⟩] }
  | closeStream {k : Core} {name : String} {c : ChanId} (hname : k.streams.lookup name = some c) :
    CoreStep display (.closeStream name) k { k with
      streams := k.streams.erase (name, c)
      tasks := k.tasks ++ [⟨.closeStream c, .rest [c]⟩] }
  | close {k : Core} : CoreStep display .close k { k with tasks := k.tasks ++ [⟨.close, .root⟩] }
  | drainRoot {k : Core} {i : ℕ} {chan : ChanId} {kind : TaskKind} (ht : k.tasks[i]? = some ⟨kind, .root⟩) :
    CoreStep display (.task i chan) k ((k.drain 0).setTask i ⟨kind, .take⟩)
  | drainTake {k : Core} {i : ℕ} {chan : ChanId} {kind : TaskKind} (ht : k.tasks[i]? = some ⟨kind, .take⟩) :
    CoreStep display (.task i chan) k
      ({ k with streams := [], taken := true : Core }.setTask i ⟨kind, .rest (k.streams.map (·.2))⟩)
  | drainRest {k : Core} {i : ℕ} {chan : ChanId} {kind : TaskKind} {cs : List ChanId}
    (ht : k.tasks[i]? = some ⟨kind, .rest cs⟩) (hmem : chan ∈ cs) :
    CoreStep display (.task i chan) k ((k.drain chan).setTask i ⟨kind, .rest (cs.erase chan)⟩)
  | drainDone {k : Core} {i : ℕ} {chan : ChanId} {kind : TaskKind} (ht : k.tasks[i]? = some ⟨kind, .rest []⟩) :
    CoreStep display (.task i chan) k (k.setTask i ⟨kind, .done⟩)
  | route {k : Core} {c : ChanId} {resp : WireResponse} {stream : Option String} (hpump : k.pump = .idle)
    (hlevel : (stream = none ∧ c = 0) ∨ ∃ sid, stream = some sid ∧ k.streams.lookup sid = some c) :
    CoreStep display .pump k { k with pump := .routed c resp stream }
  | stop {k : Core} (hpump : k.pump = .idle) :
    CoreStep display .pump k { k with pump := .stopped, tasks := k.tasks ++ [⟨.disconnect, .root⟩] }
  | slot {k : Core} {resp : WireResponse} {stream : Option String} {row : Row}
    (hpump : k.pump = .routed row.chan resp stream) (hrow : row ∈ k.pending)
    (hkey : row.key = idToKey display resp.id) :
    CoreStep display .pump k { k with
      pending := k.pending.erase row
      pump := .completing row.req resp stream }
  | unknown {k : Core} {c : ChanId} {resp : WireResponse} {stream : Option String}
    (hpump : k.pump = .routed c resp stream) :
    CoreStep display .pump k { k with pump := .idle }
  | complete {k : Core} {req : ReqId} {resp : WireResponse} {stream : Option String}
    (hpump : k.pump = .completing req resp stream) :
    CoreStep display .pump k { k with
      pump := .idle
      completions := k.completions ++ [⟨req, .response resp stream⟩] }

variable {ε : Type} {decodeFrame : ByteArray → Except ε Value} {display : Value → String}
  {reconnects : Bool} {s s' : State}

@[simp] theorem transportClose_core (s : State) : (transportClose s).core = s.core := by
  unfold transportClose
  split_ifs <;> rfl

@[simp] theorem lost_core (s : State) : (lost reconnects s).core = s.core := by
  unfold lost
  split_ifs <;> rfl

theorem pumpStep_core (h : pumpStep decodeFrame display s = some s') :
    s'.core = s.core ∨ CoreStep display .pump s.core s'.core := by
  unfold pumpStep at h
  cases hpump : s.pump with
  | idle =>
    simp only [hpump] at h
    cases hev : s.events with
    | nil =>
      rw [hev] at h
      cases h
    | cons ev events =>
      simp only [hev] at h
      cases ev with
      | heartbeatDead =>
        obtain rfl := Option.some.inj h
        exact Or.inl (by simp only [State.core, hpump])
      | reconnected socket =>
        obtain rfl := Option.some.inj h
        exact Or.inl (by simp only [State.core, hpump])
      | disconnected =>
        obtain rfl := Option.some.inj h
        exact Or.inr (.stop hpump)
      | frame bytes =>
        simp only at h
        split at h
        · cases h
        · split at h
          · obtain rfl := Option.some.inj h
            exact Or.inr (.route hpump (Or.inl ⟨rfl, rfl⟩))
          · obtain ⟨c, hc, rfl⟩ := Option.map_eq_some_iff.mp h
            exact Or.inr (.route hpump (Or.inr ⟨_, rfl, hc⟩))
        · obtain rfl := Option.some.inj h
          exact Or.inl (by simp only [State.core, hpump])
  | routed c resp stream =>
    simp only [hpump] at h
    split at h
    · rename_i row hfind
      obtain rfl := Option.some.inj h
      have hmatch := List.find?_some hfind
      obtain ⟨rfl, hkey⟩ := of_decide_eq_true hmatch
      exact Or.inr (.slot hpump (List.mem_of_find?_eq_some hfind) hkey)
    · obtain rfl := Option.some.inj h
      exact Or.inr (.unknown hpump)
  | completing req resp stream =>
    simp only [hpump] at h
    obtain rfl := Option.some.inj h
    exact Or.inr (.complete hpump)
  | stopped =>
    simp only [hpump] at h
    cases h

theorem drainStep_core {i : ℕ} {t : Task} {pick : ChanId} {todo : Drain} (ht : s.tasks[i]? = some t)
    (h : drainStep pick s t.todo = some (todo, s')) :
    CoreStep display (.task i pick) s.core (s'.core.setTask i { t with todo := todo }) := by
  obtain ⟨kind, old⟩ := t
  cases old with
  | root =>
    obtain ⟨rfl, rfl⟩ := Prod.mk.inj (Option.some.inj h)
    exact .drainRoot ht
  | take =>
    obtain ⟨rfl, rfl⟩ := Prod.mk.inj (Option.some.inj h)
    exact .drainTake ht
  | done => cases h
  | rest cs =>
    cases cs with
    | nil =>
      obtain ⟨rfl, rfl⟩ := Prod.mk.inj (Option.some.inj h)
      exact .drainDone ht
    | cons c cs =>
      simp only [drainStep] at h
      split_ifs at h with hmem
      obtain ⟨rfl, rfl⟩ := Prod.mk.inj (Option.some.inj h)
      exact .drainRest ht hmem

theorem step_core {a : Act} (h : step decodeFrame display reconnects s a = some s') :
    s'.core = s.core ∨ CoreStep display a s.core s'.core := by
  cases a with
  | stream name =>
    simp only [step] at h
    split at h
    · obtain rfl := Option.some.inj h
      exact Or.inl rfl
    · rename_i hnone
      obtain rfl := Option.some.inj h
      exact Or.inr (.stream hnone)
  | request chan id =>
    obtain ⟨stream, hchan, rfl⟩ := Option.map_eq_some_iff.mp h
    exact Or.inr (.request hchan)
  | closeStream name =>
    simp only [step] at h
    split at h
    · obtain rfl := Option.some.inj h
      exact Or.inl rfl
    · rename_i c hname
      obtain rfl := Option.some.inj h
      exact Or.inr (.closeStream hname)
  | close =>
    obtain rfl := Option.some.inj h
    exact Or.inr .close
  | task i chan =>
    obtain ⟨t, ht, h⟩ := Option.bind_eq_some_iff.mp h
    obtain ⟨⟨todo, m⟩, hdrain, rfl⟩ := Option.map_eq_some_iff.mp h
    have hcore : CoreStep display (.task i chan) s.core (m.core.setTask i { t with todo := todo }) :=
      drainStep_core ht hdrain
    right
    dsimp only
    split_ifs
    · rwa [transportClose_core]
    · exact hcore
  | pump => exact pumpStep_core h
  | encodeError req =>
    simp only [step] at h
    split_ifs at h
    obtain rfl := Option.some.inj h
    exact Or.inl rfl
  | send req =>
    simp only [step] at h
    split_ifs at h <;>
    · obtain rfl := Option.some.inj h
      exact Or.inl rfl
  | command =>
    simp only [step] at h
    split at h <;> cases h <;> exact Or.inl rfl
  | writeError =>
    simp only [step] at h
    split at h
    · obtain rfl := Option.some.inj h
      exact Or.inl (lost_core _)
    · cases h
  | lose =>
    simp only [step] at h
    split at h
    · obtain rfl := Option.some.inj h
      exact Or.inl (lost_core _)
    · cases h
  | receive bytes | heartbeatDead | reconnect | giveUp =>
    simp only [step] at h
    split at h
    · obtain rfl := Option.some.inj h
      exact Or.inl rfl
    · cases h

end Nexal.Conn
