import Nexal.Proofs.AgentCorrelation

/-! A response that nobody waits for. Either program handles a frame with an id whose sender is
not in its pending map as a request, and answers it, whether the frame has a method or not. -/

namespace Nexal.Link

open Runs
open Wire (Value mapGet)

/-! What is going to be sent -/

def AgentConn.TaskPhase.owed : AgentConn.TaskPhase → ℕ
  | .running | .responding _ => 1
  | .done => 0

def AgentConn.owed (s : AgentConn.State) : ℕ := (s.tasks.map (·.phase.owed)).sum

def AgentChannel.Loop.owed : AgentChannel.Loop → ℕ
  | .handling _ (some _) _ _ | .responding _ => 1
  | _ => 0

def AgentChannel.owed (s : AgentChannel.State) : ℕ := s.loop.owed

def answerable (value : Value) : ℕ := if hasMethod value && (mapGet value "id").isSome then 1 else 0

theorem answerable_le (value : Value) : answerable value ≤ 1 := by
  unfold answerable
  split_ifs
  · exact Nat.le_refl 1
  · exact Nat.zero_le 1

theorem answerable_of_not_hasMethod {value : Value} (h : hasMethod value = false) : answerable value = 0 := by
  rw [answerable, h]
  rfl

def CallPhase.toSend {ε : Type} : CallPhase ε → ℕ
  | .checking | .allocating | .inserting _ | .sending _ => 2
  | _ => 0

def toSend {ε : Type} (c : Calls ε) : ℕ := (c.calls.map (·.phase.toSend)).sum

def AgentConn.eventOwed : Event → ℕ
  | .message value => answerable value
  | _ => 0

def AgentChannel.eventOwed : Event → ℕ
  | .message value => answerable value
  | .malformedMessage _ => 1
  | .disconnected => 0

section Channel
variable {w : Event → ℕ} {c c' : Channel} {value : Value}

/-- What was sent over a channel, and what the frames in it are answered with. -/
def chanLoad (w : Event → ℕ) (c : Channel) : ℕ := c.sent + (c.outgoing.map answerable).sum + (c.incoming.map w).sum

theorem chanLoad_send (value : Value) : chanLoad w (c.send value) ≤ chanLoad w c + 1 + answerable value := by
  unfold Channel.send
  split_ifs
  · simp only [chanLoad, List.map_append, List.map_cons, List.map_nil, List.sum_append, List.sum_cons, List.sum_nil]
    omega
  · omega

theorem chanLoad_arrive (ev : Event) : chanLoad w (c.arrive ev) = chanLoad w c + w ev := by
  simp only [Channel.arrive, chanLoad, List.map_append, List.map_cons, List.map_nil, List.sum_append, List.sum_cons,
    List.sum_nil]
  omega

theorem chanLoad_writerStep {a : WriterAct} (hw : w .disconnected = 0) (h : c.writerStep a = some c') :
    chanLoad w c' ≤ chanLoad w c := by
  cases a with
  | fails =>
    rw [Channel.writerStep] at h
    split at h
    · rename_i hout
      cases h
      simp only [chanLoad, hout, List.map_append, List.map_cons, List.map_nil, List.sum_append, List.sum_cons,
        List.sum_nil, hw]
      omega
    · cases h
  | ends =>
    rw [Channel.writerStep] at h
    split_ifs at h
    cases h
    simp only [chanLoad, List.map_nil, List.sum_nil]
    omega

theorem chanLoad_write (h : c.write = some (value, c')) : chanLoad w c' + answerable value = chanLoad w c := by
  obtain ⟨outgoing, hout, rfl⟩ := write_spec h
  simp only [chanLoad, hout, List.map_cons, List.sum_cons]
  omega

theorem chanLoad_read {ev : Event} {incoming : List Event} (h : c.incoming = ev :: incoming) :
    chanLoad w { c with incoming := incoming } + w ev = chanLoad w c := by
  simp only [chanLoad, h, List.map_cons, List.sum_cons]
  omega

end Channel

section Calls
variable {ε : Type} {c c' : Calls ε} {call : Call ε} {i : ℕ}

theorem toSend_set (phase : CallPhase ε) (id : Option UInt64) (pending : List (UInt64 × ℕ)) (nextId : UInt64)
    (hcall : c.calls[i]? = some call) :
    toSend { c.set i { call with phase := phase, id := id } with pending := pending, nextId := nextId } + call.phase.toSend =
      toSend c + phase.toSend :=
  Lists.sum_map_set hcall

theorem toSend_foldl_resolve (result : Except ε Value) (l : List ℕ) (c : Calls ε) (pending : List (UInt64 × ℕ)) :
    toSend { l.foldl (Calls.resolve · result) c with pending := pending } = toSend c := by
  obtain ⟨-, -, hcalls⟩ := foldl_resolve result l c
  have hphases : (l.foldl (Calls.resolve · result) c).calls.map (·.phase.toSend) = c.calls.map (·.phase.toSend) := by
    refine List.ext_getElem? fun j => ?_
    rw [List.getElem?_map, List.getElem?_map, hcalls, Option.map_map]
    congr 1
    funext x
    rw [Function.comp_apply]
    split_ifs
    · rfl
    · rfl
  exact congrArg List.sum hphases

/-- A step of a call sends no more than what was still to send. -/
theorem toSend_move {closedError : ε} {accepts : Bool} {frame : Option Value} (hcall : c.calls[i]? = some call)
    (hmove : CallMove c closedError accepts i call c' frame) :
    toSend c' + (if frame.isSome then 2 else 0) ≤ toSend c := by
  cases hmove with
  | allocates hphase =>
    have hset := toSend_set (.inserting c.nextId) (some c.nextId) c.pending (c.nextId + 1) hcall
    rw [hphase] at hset
    exact Nat.le_of_eq (Nat.add_right_cancel hset)
  | @inserts id hphase =>
    have hset := toSend_set (.sending id) call.id ((id, i) :: c.pending.filter (·.1 ≠ id)) c.nextId hcall
    rw [hphase] at hset
    exact Nat.le_of_eq (Nat.add_right_cancel hset)
  | @sends id hphase =>
    have hset := toSend_set (.waiting id) call.id c.pending c.nextId hcall
    rw [hphase] at hset
    exact Nat.le_of_eq hset
  | @refused id phase hphase hnext =>
    have hset := toSend_set phase call.id c.pending c.nextId hcall
    have hdone : phase.toSend = 0 := by
      rcases hnext with rfl | rfl
      · rfl
      · rfl
    rw [hdone] at hset
    exact Nat.le_of_add_right_le (Nat.le_of_eq hset)
  | @wakes id result =>
    have hset := toSend_set (.returned result) call.id c.pending c.nextId hcall
    exact Nat.le_of_add_right_le (Nat.le_of_eq hset)
  | @removes id =>
    have hset := toSend_set (.returned (.error closedError)) call.id (c.pending.filter (·.1 ≠ id)) c.nextId hcall
    exact Nat.le_of_add_right_le (Nat.le_of_eq hset)

end Calls

/-! The gateway -/

/-- Nothing is sent because of the frame: it has no id, nobody answers requests, or its sender is there. -/
def AgentConn.Matched (hasHandler : Bool) (s : AgentConn.State) (value : Value) : Prop :=
  mapGet value "id" = none ∨ hasHandler = false ∨
    ∃ id i, responseId value = some id ∧ s.calls.pending.lookup id = some i

theorem AgentConn.dispatchFrame_not_request {pending : List (UInt64 × ℕ)} {hasHandler : Bool} {value : Value}
    (h : mapGet value "id" = none ∨ hasHandler = false ∨
      ∃ id i, responseId value = some id ∧ pending.lookup id = some i)
    (id : Value) (method : String) (params : Option Value) :
    dispatchFrame pending hasHandler value ≠ .request id method params := by
  intro hrequest
  obtain ⟨hid, hhandler, hnone, -⟩ := dispatchFrame_request hrequest
  rcases h with hnoid | hno | ⟨k, i, hk, hlookup⟩
  · rw [hnoid] at hid
    cases hid
  · rw [hno] at hhandler
    cases hhandler
  · rw [hnone k hk] at hlookup
    cases hlookup

def AgentConn.load (s : AgentConn.State) : ℕ := toSend s.calls + AgentConn.owed s + chanLoad AgentConn.eventOwed s.chan

/-- What an act is the origin of: a request with its answer, a notification. -/
def AgentConn.Act.cost : AgentConn.Act → ℕ
  | .invoke _ _ => 2
  | .notify _ _ => 1
  | .arrive ev => AgentConn.eventOwed ev
  | _ => 0

/-- The reader takes responses only to requests of its own. -/
def AgentConn.ReadsMatched (hasHandler : Bool) (s : AgentConn.State) : AgentConn.Act → Prop
  | .read => ∀ value incoming, s.reader = .running → s.chan.incoming = .message value :: incoming →
    hasMethod value = false → AgentConn.Matched hasHandler s value
  | _ => True

theorem AgentConn.owed_set {s : AgentConn.State} {k : ℕ} {t : AgentConn.Task} (phase : AgentConn.TaskPhase)
    (ht : s.tasks[k]? = some t) :
    ((s.tasks.set k { t with phase := phase }).map (·.phase.owed)).sum + t.phase.owed = AgentConn.owed s + phase.owed :=
  Lists.sum_map_set ht

variable {hasHandler : Bool}

theorem AgentConn.load_call {s s' : AgentConn.State} {i : ℕ} (hs : AgentConn.callStep s i = some s') :
    AgentConn.load s' ≤ AgentConn.load s := by
  obtain ⟨call, hcall, hs⟩ := Option.bind_eq_some_iff.mp hs
  split at hs
  · rename_i hphase
    cases hs
    have hset : toSend (s.calls.set i { call with
        phase := if s.closed then .returned (.error .closed) else .allocating }) + call.phase.toSend =
        toSend s.calls + (if s.closed then .returned (.error .closed) else .allocating : CallPhase AgentConnError).toSend :=
      toSend_set _ call.id s.calls.pending s.calls.nextId hcall
    have hnext : (if s.closed then .returned (.error .closed) else .allocating : CallPhase AgentConnError).toSend ≤ 2 := by
      split_ifs
      · exact Nat.zero_le 2
      · exact Nat.le_refl 2
    have hold : call.phase.toSend = 2 := by rw [hphase]; rfl
    have hless : toSend (s.calls.set i { call with
        phase := if s.closed then .returned (.error .closed) else .allocating }) ≤ toSend s.calls := by omega
    exact Nat.add_le_add_right (Nat.add_le_add_right hless _) _
  · obtain ⟨⟨calls, frame⟩, hstep, rfl⟩ := Option.map_eq_some_iff.mp hs
    obtain ⟨call', hcall', hmove⟩ := Calls.step_move hstep
    have hsend := toSend_move hcall' hmove
    cases frame with
    | none =>
      have hsend : toSend calls ≤ toSend s.calls := hsend
      exact Nat.add_le_add_right (Nat.add_le_add_right hsend _) _
    | some f =>
      have hsend : toSend calls + 2 ≤ toSend s.calls := hsend
      have hchan : chanLoad AgentConn.eventOwed (s.chan.send f) ≤ chanLoad AgentConn.eventOwed s.chan + 1 + answerable f :=
        chanLoad_send f
      have hone : answerable f ≤ 1 := answerable_le f
      change toSend calls + AgentConn.owed s + chanLoad AgentConn.eventOwed (s.chan.send f) ≤ AgentConn.load s
      unfold AgentConn.load
      omega

theorem AgentConn.load_readFrame {s : AgentConn.State} {value : Value}
    (hmatched : hasMethod value = false → AgentConn.Matched hasHandler s value) :
    AgentConn.load (AgentConn.readFrame hasHandler s value) ≤ AgentConn.load s + answerable value := by
  unfold AgentConn.readFrame
  cases hdispatch : AgentConn.dispatchFrame s.calls.pending hasHandler value with
  | resolve id i =>
    have hsame : toSend (s.calls.respond id i (gatewayResult value)) = toSend s.calls :=
      toSend_foldl_resolve (gatewayResult value) [i] s.calls _
    change toSend (s.calls.respond id i (gatewayResult value)) + AgentConn.owed s + chanLoad AgentConn.eventOwed s.chan ≤ _
    rw [hsame]
    exact Nat.le_add_right _ _
  | request id method params =>
    obtain ⟨hid, -⟩ := AgentConn.dispatchFrame_request hdispatch
    have hmethod : hasMethod value = true := by
      by_contra hnot
      exact AgentConn.dispatchFrame_not_request (hmatched (by simpa using hnot)) id method params hdispatch
    have hone : answerable value = 1 := by
      rw [answerable, hmethod, hid]
      rfl
    have howed : AgentConn.owed { s with tasks := s.tasks ++ [⟨value, id, method, params, .running⟩] } =
        AgentConn.owed s + 1 := by
      simp only [AgentConn.owed, List.map_append, List.sum_append, List.map_cons, List.map_nil, List.sum_cons, List.sum_nil]
      rfl
    dsimp only
    unfold AgentConn.load
    rw [howed]
    dsimp only
    omega
  | notification method params => exact Nat.le_add_right _ _
  | badFrame => exact Nat.le_add_right _ _

theorem AgentConn.load_read {s s' : AgentConn.State} (hmatched : AgentConn.ReadsMatched hasHandler s .read)
    (hs : AgentConn.readStep hasHandler s = some s') : AgentConn.load s' ≤ AgentConn.load s := by
  unfold AgentConn.readStep at hs
  split at hs
  · rename_i hreader
    split at hs
    · cases hs
    · rename_i ev incoming hin
      have htaken : AgentConn.load { s with chan := { s.chan with incoming := incoming } } + AgentConn.eventOwed ev =
          AgentConn.load s := by
        have hchan := chanLoad_read (w := AgentConn.eventOwed) hin
        exact (Nat.add_assoc _ _ _).trans (congrArg (toSend s.calls + AgentConn.owed s + ·) hchan)
      cases ev with
      | message value =>
        cases hs
        have hread := AgentConn.load_readFrame (s := { s with chan := { s.chan with incoming := incoming } })
          fun hmethod => hmatched value incoming hreader hin hmethod
        exact hread.trans (Nat.le_of_eq htaken)
      | malformedMessage reason =>
        cases hs
        exact Nat.le_of_eq htaken
      | disconnected =>
        cases hs
        exact Nat.le_of_eq htaken
  · cases hs
    exact Nat.le_refl _
  · cases hs
    have hsame : toSend (s.calls.drain .closed) = toSend s.calls := toSend_foldl_resolve _ _ s.calls []
    change toSend (s.calls.drain .closed) + AgentConn.owed s + chanLoad AgentConn.eventOwed s.chan ≤ _
    rw [hsame]
    exact Nat.le_refl _
  · cases hs
  · cases hs

theorem AgentConn.load_handled {s s' : AgentConn.State} {k : ℕ} {skills : Except String Value}
    (hs : AgentConn.step hasHandler s (.handled k skills) = some s') : AgentConn.load s' ≤ AgentConn.load s := by
  obtain ⟨t, ht, hs⟩ := Option.bind_eq_some_iff.mp hs
  split at hs
  · rename_i hphase
    cases hs
    have hset := AgentConn.owed_set
      (.responding (gatewayResponse t.id (handleAgentRequest skills t.method))) ht
    rw [hphase] at hset
    exact Nat.add_le_add_right (Nat.add_le_add_left (Nat.le_of_eq (Nat.add_right_cancel hset)) _) _
  · cases hs

theorem AgentConn.load_respond {s s' : AgentConn.State} {k : ℕ}
    (htasks : ∀ t ∈ s.tasks, ∀ response, t.phase = .responding response → hasMethod response = false)
    (hs : AgentConn.step hasHandler s (.respond k) = some s') : AgentConn.load s' ≤ AgentConn.load s := by
  obtain ⟨t, ht, hs⟩ := Option.bind_eq_some_iff.mp hs
  split at hs
  · rename_i response hphase
    cases hs
    have hset := AgentConn.owed_set .done ht
    rw [hphase] at hset
    have hset : ((s.tasks.set k { t with phase := .done }).map (·.phase.owed)).sum + 1 = AgentConn.owed s + 0 := hset
    have hchan : chanLoad AgentConn.eventOwed (s.chan.send response) ≤
        chanLoad AgentConn.eventOwed s.chan + 1 + answerable response := chanLoad_send response
    rw [answerable_of_not_hasMethod (htasks t (List.mem_of_getElem? ht) response hphase)] at hchan
    change toSend s.calls + ((s.tasks.set k { t with phase := .done }).map (·.phase.owed)).sum +
      chanLoad AgentConn.eventOwed (s.chan.send response) ≤ AgentConn.load s
    unfold AgentConn.load
    omega
  · cases hs

theorem answerable_notification (method : String) (params : Value) :
    answerable (buildRpcNotification method params) = 0 := by
  rw [answerable, (notification_keys method params).2]
  simp

theorem AgentConn.load_chan {s : AgentConn.State} {chan : Channel} {n : ℕ}
    (h : chanLoad AgentConn.eventOwed chan ≤ chanLoad AgentConn.eventOwed s.chan + n) :
    AgentConn.load { s with chan := chan } ≤ AgentConn.load s + n := by
  change toSend s.calls + AgentConn.owed s + chanLoad AgentConn.eventOwed chan ≤ _
  unfold AgentConn.load
  omega

theorem AgentConn.load_step {s s' : AgentConn.State} {a : AgentConn.Act} (hown : gatewayOwn a = true)
    (hmatched : AgentConn.ReadsMatched hasHandler s a) (hclosers : s.closers = []) (haborted : s.aborted = false)
    (htasks : ∀ t ∈ s.tasks, ∀ response, t.phase = .responding response → hasMethod response = false)
    (hs : AgentConn.step hasHandler s a = some s') : AgentConn.load s' ≤ AgentConn.load s + a.cost := by
  cases a with
  | invoke method params =>
    cases hs
    have hmore : toSend { s.calls with calls := s.calls.calls ++
      [⟨method, params.getD .nil, false, .checking, none, none⟩] } =
        toSend s.calls + 2 := by
      simp only [toSend, List.map_append, List.sum_append, List.map_cons, List.map_nil, List.sum_cons, List.sum_nil]
      rfl
    unfold AgentConn.load
    dsimp only
    rw [hmore]
    change _ + AgentConn.owed s + _ ≤ _ + 2
    omega
  | call i => exact AgentConn.load_call hs
  | notify method params =>
    cases hs
    have hchan := chanLoad_send (w := AgentConn.eventOwed) (c := s.chan) (buildRpcNotification method params)
    rw [answerable_notification] at hchan
    exact AgentConn.load_chan hchan
  | close => cases hown
  | closer k =>
    have hnone : AgentConn.closeStep s k = none := by
      rw [AgentConn.closeStep, hclosers]
      rfl
    rw [AgentConn.step, hnone] at hs
    cases hs
  | cancelReader =>
    rw [AgentConn.step, haborted] at hs
    cases hs
  | cancelWriter =>
    rw [AgentConn.step, haborted] at hs
    cases hs
  | read => exact AgentConn.load_read hmatched hs
  | handled k skills => exact AgentConn.load_handled hs
  | respond k => exact AgentConn.load_respond htasks hs
  | arrive ev =>
    cases hs
    exact AgentConn.load_chan (Nat.le_of_eq (chanLoad_arrive ev))
  | writer w =>
    obtain ⟨chan, hchan, rfl⟩ := Option.map_eq_some_iff.mp hs
    exact AgentConn.load_chan (n := 0) (chanLoad_writerStep rfl hchan)

/-! The agent -/

def AgentChannel.Matched (s : AgentChannel.State) (value : Value) : Prop :=
  mapGet value "id" = none ∨ ∃ id i, responseId value = some id ∧ s.calls.pending.lookup id = some i

def AgentChannel.load (s : AgentChannel.State) : ℕ :=
  toSend s.calls + AgentChannel.owed s + chanLoad AgentChannel.eventOwed s.chan

def AgentChannel.Act.cost : AgentChannel.Act → ℕ
  | .request _ _ _ => 2
  | .event _ _ => 1
  | .arrive ev => AgentChannel.eventOwed ev
  | _ => 0

def AgentChannel.ReadsMatched (s : AgentChannel.State) : AgentChannel.Act → Prop
  | .receive => ∀ value incoming, s.loop = .receiving → s.chan.incoming = .message value :: incoming →
    hasMethod value = false → AgentChannel.Matched s value
  | _ => True

theorem AgentChannel.tryResolvePending_of_matched {s : AgentChannel.State} {value : Value} {id : Value}
    (h : AgentChannel.Matched s value) (hid : mapGet value "id" = some id) :
    (AgentChannel.tryResolvePending s.calls value).isSome = true := by
  rcases h with hnone | ⟨k, i, hk, hlookup⟩
  · rw [hnone] at hid
    cases hid
  · rw [AgentChannel.tryResolvePending, hk, Option.bind_some, hlookup]
    rfl

theorem AgentChannel.load_call {s s' : AgentChannel.State} {i : ℕ} (hs : AgentChannel.callStep s i = some s') :
    AgentChannel.load s' ≤ AgentChannel.load s := by
  obtain ⟨⟨calls, frame⟩, hstep, rfl⟩ := Option.map_eq_some_iff.mp hs
  obtain ⟨call, hcall, hmove⟩ := Calls.step_move hstep
  have hsend := toSend_move hcall hmove
  cases frame with
  | none =>
    have hsend : toSend calls ≤ toSend s.calls := hsend
    exact Nat.add_le_add_right (Nat.add_le_add_right hsend _) _
  | some f =>
    have hsend : toSend calls + 2 ≤ toSend s.calls := hsend
    have hchan : chanLoad AgentChannel.eventOwed (s.chan.send f) ≤
        chanLoad AgentChannel.eventOwed s.chan + 1 + answerable f := chanLoad_send f
    have hone : answerable f ≤ 1 := answerable_le f
    change toSend calls + AgentChannel.owed s + chanLoad AgentChannel.eventOwed (s.chan.send f) ≤ AgentChannel.load s
    unfold AgentChannel.load
    omega

theorem AgentChannel.load_receive {s s' : AgentChannel.State} (hloop : s.loop = .receiving)
    (hmatched : AgentChannel.ReadsMatched s .receive) (hs : AgentChannel.receiveStep s = some s') :
    AgentChannel.load s' ≤ AgentChannel.load s := by
  have hidle : AgentChannel.owed s = 0 := by rw [AgentChannel.owed, hloop]; rfl
  have hold : AgentChannel.load s = toSend s.calls + chanLoad AgentChannel.eventOwed s.chan := by
    rw [AgentChannel.load, hidle, Nat.add_zero]
  unfold AgentChannel.receiveStep at hs
  split at hs
  · cases hs
  · rename_i ev incoming hin
    have htaken := chanLoad_read (w := AgentChannel.eventOwed) hin
    -- the loop goes on with at most what the event asks for
    have hnext : ∀ loop : AgentChannel.Loop, loop.owed ≤ AgentChannel.eventOwed ev →
        AgentChannel.load { s with loop := loop, chan := { s.chan with incoming := incoming } } ≤ AgentChannel.load s := by
      intro loop hle
      rw [hold, ← htaken]
      change toSend s.calls + loop.owed + _ ≤ _
      dsimp only
      omega
    cases ev with
    | message value =>
      dsimp only at hs
      split at hs
      · rename_i id calls hresolve
        cases hs
        obtain ⟨i, -, -, rfl⟩ := AgentChannel.tryResolvePending_some hresolve
        have hsame : toSend (s.calls.respond id i (agentResult value)) = toSend s.calls :=
          toSend_foldl_resolve (agentResult value) [i] s.calls _
        change toSend (s.calls.respond id i (agentResult value)) + AgentChannel.owed s +
          chanLoad AgentChannel.eventOwed { s.chan with incoming := incoming } ≤ _
        rw [hsame, hidle, hold, ← htaken]
        dsimp only
        omega
      · rename_i hresolve
        cases hs
        refine hnext _ ?_
        cases hid : mapGet value "id" with
        | none => exact Nat.zero_le _
        | some id =>
          have hmethod : hasMethod value = true := by
            by_contra hnot
            have hsome := AgentChannel.tryResolvePending_of_matched
              (hmatched value incoming hloop hin (by simpa using hnot)) hid
            rw [hresolve] at hsome
            cases hsome
          have hone : AgentChannel.eventOwed (.message value) = 1 := by
            rw [AgentChannel.eventOwed, answerable, hmethod, hid]
            rfl
          exact Nat.le_of_eq hone.symm
    | malformedMessage reason =>
      cases hs
      exact hnext _ (Nat.le_refl 1)
    | disconnected =>
      cases hs
      exact hnext _ (Nat.le_refl 0)

theorem AgentChannel.load_chan {s : AgentChannel.State} (loop : AgentChannel.Loop) {chan : Channel} {n : ℕ}
    (h : loop.owed + chanLoad AgentChannel.eventOwed chan ≤
      AgentChannel.owed s + chanLoad AgentChannel.eventOwed s.chan + n) :
    AgentChannel.load { s with loop := loop, chan := chan } ≤ AgentChannel.load s + n := by
  change toSend s.calls + loop.owed + chanLoad AgentChannel.eventOwed chan ≤ _
  unfold AgentChannel.load
  omega

theorem AgentChannel.load_step {s s' : AgentChannel.State} {a : AgentChannel.Act}
    (hmatched : AgentChannel.ReadsMatched s a) (hresponding : ∀ r, s.loop = .responding r → hasMethod r = false)
    (hs : AgentChannel.step s a = some s') : AgentChannel.load s' ≤ AgentChannel.load s + a.cost := by
  cases a with
  | request blocking method params =>
    cases hs
    have hmore : toSend { s.calls with calls := s.calls.calls ++
      [⟨method, params, blocking, .allocating, none, none⟩] } =
        toSend s.calls + 2 := by
      simp only [toSend, List.map_append, List.sum_append, List.map_cons, List.map_nil, List.sum_cons, List.sum_nil]
      rfl
    unfold AgentChannel.load
    dsimp only
    rw [hmore]
    change _ + AgentChannel.owed s + _ ≤ _ + 2
    omega
  | call i => exact AgentChannel.load_call hs
  | event method params =>
    cases hs
    have hchan := chanLoad_send (w := AgentChannel.eventOwed) (c := s.chan) (buildRpcNotification method params)
    rw [answerable_notification] at hchan
    exact AgentChannel.load_chan s.loop (Nat.add_le_add_left hchan _)
  | receive =>
    dsimp only [AgentChannel.step] at hs
    split at hs
    · exact AgentChannel.load_receive ‹_› hmatched hs
    · cases hs
  | handled answer =>
    dsimp only [AgentChannel.step] at hs
    split at hs
    · rename_i frame id method params hloop
      cases id with
      | none =>
        cases hs
        exact AgentChannel.load_chan .receiving (n := 0) (Nat.add_le_add_right (Nat.zero_le _) _)
      | some id =>
        cases hs
        have howed : AgentChannel.owed s = 1 := by rw [AgentChannel.owed, hloop]; rfl
        have hsame : AgentChannel.load { s with loop := .responding (agentResponse id (dispatch answer method)) } ≤
            AgentChannel.load s + 0 :=
          AgentChannel.load_chan _ (Nat.add_le_add_right (Nat.le_of_eq howed.symm) _)
        exact hsame
    · cases hs
  | respond =>
    dsimp only [AgentChannel.step] at hs
    split at hs
    · rename_i response hloop
      cases hs
      have howed : AgentChannel.owed s = 1 := by rw [AgentChannel.owed, hloop]; rfl
      have hchan := chanLoad_send (w := AgentChannel.eventOwed) (c := s.chan) response
      rw [answerable_of_not_hasMethod (hresponding response hloop)] at hchan
      have hidle : (if s.chan.accepts then .receiving else .leaving : AgentChannel.Loop).owed = 0 := by
        split_ifs
        · rfl
        · rfl
      refine AgentChannel.load_chan _ (n := 0) ?_
      omega
    · cases hs
  | shutdown =>
    dsimp only [AgentChannel.step] at hs
    split at hs
    · cases hs
      exact AgentChannel.load_chan .returned (n := 0) (Nat.add_le_add_right (Nat.zero_le _) _)
    · cases hs
  | arrive ev =>
    cases hs
    refine AgentChannel.load_chan s.loop ?_
    rw [chanLoad_arrive, ← Nat.add_assoc]
    exact Nat.le_refl _
  | writer w =>
    obtain ⟨chan, hchan, rfl⟩ := Option.map_eq_some_iff.mp hs
    exact AgentChannel.load_chan s.loop (n := 0) (Nat.add_le_add_left (chanLoad_writerStep rfl hchan) _)

/-! Both together -/

def Act.cost : Act → ℕ
  | .gateway a => a.cost
  | .agent a => a.cost
  | _ => 0

/-- Whoever takes a frame without a method from its queue has the sender for it, or needs none. -/
def ReadsMatched (hasHandler : Bool) (s : State) : Act → Prop
  | .gateway a => AgentConn.ReadsMatched hasHandler s.gateway a
  | .agent a => AgentChannel.ReadsMatched s.agent a
  | _ => True

def sent (s : State) : ℕ := s.gateway.chan.sent + s.agent.chan.sent

def load (s : State) : ℕ := AgentConn.load s.gateway + AgentChannel.load s.agent

theorem sent_le_load (s : State) : sent s ≤ load s := by
  unfold sent load AgentConn.load AgentChannel.load chanLoad
  omega

theorem load_step {s s' : State} {a : Act} (h : LinkInv s) (hmatched : ReadsMatched hasHandler s a)
    (hs : step hasHandler s a = some s') : load s' ≤ load s + a.cost := by
  cases a with
  | gateway a =>
    rw [step] at hs
    split_ifs at hs with hown
    obtain ⟨g, hg, rfl⟩ := Option.map_eq_some_iff.mp hs
    have hle : AgentConn.load g ≤ AgentConn.load s.gateway + a.cost :=
      AgentConn.load_step hown hmatched h.closers h.aborted (fun t ht => (h.tasks t ht).2) hg
    change AgentConn.load g + AgentChannel.load s.agent ≤ AgentConn.load s.gateway + AgentChannel.load s.agent + a.cost
    omega
  | agent a =>
    rw [step] at hs
    split_ifs at hs with hown
    obtain ⟨c, hc, rfl⟩ := Option.map_eq_some_iff.mp hs
    have hle : AgentChannel.load c ≤ AgentChannel.load s.agent + a.cost :=
      AgentChannel.load_step hmatched h.responding hc
    change AgentConn.load s.gateway + AgentChannel.load c ≤ AgentConn.load s.gateway + AgentChannel.load s.agent + a.cost
    omega
  | toAgent =>
    obtain ⟨⟨value, chan⟩, hwrite, rfl⟩ := Option.map_eq_some_iff.mp hs
    have hout := chanLoad_write (w := AgentConn.eventOwed) hwrite
    have hin : chanLoad AgentChannel.eventOwed (s.agent.chan.arrive (.message value)) =
        chanLoad AgentChannel.eventOwed s.agent.chan + answerable value := chanLoad_arrive _
    change toSend s.gateway.calls + AgentConn.owed s.gateway + chanLoad AgentConn.eventOwed chan +
      (toSend s.agent.calls + AgentChannel.owed s.agent +
        chanLoad AgentChannel.eventOwed (s.agent.chan.arrive (.message value))) ≤ load s + 0
    unfold load AgentConn.load AgentChannel.load
    omega
  | toGateway =>
    obtain ⟨⟨value, chan⟩, hwrite, rfl⟩ := Option.map_eq_some_iff.mp hs
    have hout := chanLoad_write (w := AgentChannel.eventOwed) hwrite
    have hin : chanLoad AgentConn.eventOwed (s.gateway.chan.arrive (.message value)) =
        chanLoad AgentConn.eventOwed s.gateway.chan + answerable value := chanLoad_arrive _
    change toSend s.gateway.calls + AgentConn.owed s.gateway +
      chanLoad AgentConn.eventOwed (s.gateway.chan.arrive (.message value)) +
      (toSend s.agent.calls + AgentChannel.owed s.agent + chanLoad AgentChannel.eventOwed chan) ≤ load s + 0
    unfold load AgentConn.load AgentChannel.load
    omega

/-- A run sends at most what was under way when it began, and what its own acts are the origin of. -/
theorem sent_le {es : List Act} {s s' : State} (h : LinkInv s) (hok : RunOk (step hasHandler) (ReadsMatched hasHandler) s es)
    (hrun : run (step hasHandler) s es = some s') : sent s' ≤ load s + (es.map Act.cost).sum :=
  (sent_le_load s').trans
    (run_le LinkInv load Act.cost (fun _ _ _ hi hs => linkInv_step hi hs)
      (fun _ _ _ hi hp hs => load_step hi hp hs) h hok hrun)

/-! Frames without a method -/

theorem AgentConn.dispatchFrame_of_unmatched {s : AgentConn.State} {value : Value}
    (h : ¬ AgentConn.Matched hasHandler s value) :
    ∃ id method params, AgentConn.dispatchFrame s.calls.pending hasHandler value = .request id method params := by
  obtain ⟨hid, hrest⟩ := not_or.mp h
  obtain ⟨hhandler, hpending⟩ := not_or.mp hrest
  obtain ⟨id, hid⟩ := Option.ne_none_iff_exists'.mp hid
  have hhandler : hasHandler = true := by simpa using hhandler
  have hnone : ((responseId value).bind fun id => (s.calls.pending.lookup id).map fun i => (id, i)) = none := by
    refine Option.eq_none_iff_forall_ne_some.mpr fun found hfound => hpending ?_
    obtain ⟨k, hk, hmap⟩ := Option.bind_eq_some_iff.mp hfound
    obtain ⟨i, hi, -⟩ := Option.map_eq_some_iff.mp hmap
    exact ⟨k, i, hk, hi⟩
  refine ⟨id, (mapStr value "method").getD "", mapGet value "params", ?_⟩
  unfold AgentConn.dispatchFrame
  simp only [hnone, hid, hhandler]

/-- The gateway sends nothing because of a frame without a method exactly when the frame is matched. -/
theorem AgentConn.silent_iff_matched {s s' : AgentConn.State} {value : Value} {incoming : List Event}
    (hreader : s.reader = .running) (hin : s.chan.incoming = .message value :: incoming)
    (hs : AgentConn.step hasHandler s .read = some s') :
    (s'.chan.sent = s.chan.sent ∧ AgentConn.owed s' = AgentConn.owed s) ↔ AgentConn.Matched hasHandler s value := by
  have hs' : s' = AgentConn.readFrame hasHandler { s with chan := { s.chan with incoming := incoming } } value := by
    simp only [AgentConn.step, AgentConn.readStep, hreader, hin] at hs
    rw [← hreader] at hs
    exact (Option.some.inj hs).symm
  subst hs'
  constructor
  · rintro ⟨-, howed⟩
    by_contra hnot
    obtain ⟨id, method, params, hdispatch⟩ := AgentConn.dispatchFrame_of_unmatched hnot
    simp only [AgentConn.readFrame, hdispatch, AgentConn.owed, List.map_append, List.sum_append, List.map_cons,
      List.map_nil, List.sum_cons, List.sum_nil, AgentConn.TaskPhase.owed] at howed
    omega
  · intro hmatched
    have hnot := AgentConn.dispatchFrame_not_request hmatched
    unfold AgentConn.readFrame
    cases hdispatch : AgentConn.dispatchFrame s.calls.pending hasHandler value with
    | resolve id i => exact ⟨rfl, rfl⟩
    | request id method params => exact absurd hdispatch (hnot id method params)
    | notification method params => exact ⟨rfl, rfl⟩
    | badFrame => exact ⟨rfl, rfl⟩

theorem AgentChannel.silent_iff_matched {s s' : AgentChannel.State} {value : Value} {incoming : List Event}
    (hloop : s.loop = .receiving) (hin : s.chan.incoming = .message value :: incoming)
    (hs : AgentChannel.step s .receive = some s') :
    (s'.chan.sent = s.chan.sent ∧ AgentChannel.owed s' = AgentChannel.owed s) ↔ AgentChannel.Matched s value := by
  have hidle : AgentChannel.owed s = 0 := by rw [AgentChannel.owed, hloop]; rfl
  simp only [AgentChannel.step, hloop, AgentChannel.receiveStep, hin] at hs
  rw [hidle]
  cases hresolve : AgentChannel.tryResolvePending s.calls value with
  | some found =>
    obtain ⟨id, calls⟩ := found
    obtain ⟨i, hid, hlookup, -⟩ := AgentChannel.tryResolvePending_some hresolve
    simp only [hresolve] at hs
    cases hs
    exact ⟨fun _ => Or.inr ⟨id, i, hid, hlookup⟩, fun _ => ⟨rfl, rfl⟩⟩
  | none =>
    simp only [hresolve] at hs
    cases hs
    have hunmatched := AgentChannel.tryResolvePending_none hresolve
    cases hid : mapGet value "id" with
    | none => exact ⟨fun _ => Or.inl hid, fun _ => ⟨rfl, rfl⟩⟩
    | some id =>
      refine ⟨fun hsilent => ?_, fun hmatched => ?_⟩
      · have howed := hsilent.2
        cases howed
      · have hsome := AgentChannel.tryResolvePending_of_matched hmatched hid
        rw [hresolve] at hsome
        cases hsome

/-- Nothing is sent because of a frame without a method exactly when it has no id, or its sender is in the
map; and as long as that is so for every such frame, what goes on between the two sides comes to an end. -/
theorem responses_not_answered_when_matched (hasHandler : Bool) :
    (∀ (s s' : AgentConn.State) (value : Value) (incoming : List Event), s.reader = .running →
      s.chan.incoming = .message value :: incoming → hasMethod value = false →
      AgentConn.step hasHandler s .read = some s' →
      ((s'.chan.sent = s.chan.sent ∧ AgentConn.owed s' = AgentConn.owed s) ↔ AgentConn.Matched hasHandler s value)) ∧
    (∀ (s s' : AgentChannel.State) (value : Value) (incoming : List Event), s.loop = .receiving →
      s.chan.incoming = .message value :: incoming → hasMethod value = false →
      AgentChannel.step s .receive = some s' →
      ((s'.chan.sent = s.chan.sent ∧ AgentChannel.owed s' = AgentChannel.owed s) ↔ AgentChannel.Matched s value)) ∧
    (∀ (es : List Act) (s : State), run (step hasHandler) init es = some s →
      ∃ n, ∀ (later : List Act) (s' : State), run (step hasHandler) s later = some s' →
        RunOk (step hasHandler) (ReadsMatched hasHandler) s later → (∀ a ∈ later, a.cost = 0) → sent s' ≤ n) := by
  refine ⟨fun s s' value incoming hreader hin _ hs => AgentConn.silent_iff_matched hreader hin hs,
    fun s s' value incoming hloop hin _ hs => AgentChannel.silent_iff_matched hloop hin hs, fun es s hrun => ?_⟩
  have hinv : LinkInv s := run_inv_all LinkInv (fun _ _ _ hi hs => linkInv_step hi hs) linkInv_init hrun
  refine ⟨load s, fun later s' hlater hok hquiet => ?_⟩
  have hzero : (later.map Act.cost).sum = 0 := by
    refine List.sum_eq_zero_iff_forall_eq_nat.mpr fun n hn => ?_
    obtain ⟨a, ha, rfl⟩ := List.mem_map.mp hn
    exact hquiet a ha
  have hle := sent_le hinv hok hlater
  rwa [hzero, Nat.add_zero] at hle

/-- A request of the gateway goes out ... -/
def askRun : List Act :=
  [.gateway (.invoke "process/read" none), .gateway (.call 0), .gateway (.call 0), .gateway (.call 0), .gateway (.call 0)]

/-- ... and is answered. -/
def answerRun : List Act :=
  [.toAgent, .agent .receive, .agent (.handled (.ok .nil)), .agent .respond, .toGateway, .gateway .read]

theorem answerRun_sends_finitely_many :
    ∃ s s' n, run (step true) init askRun = some s ∧ run (step true) s answerRun = some s' ∧ sent s' = 2 ∧
      (∀ (later : List Act) (s' : State), run (step true) s later = some s' →
        RunOk (step true) (ReadsMatched true) s later → (∀ a ∈ later, a.cost = 0) → sent s' ≤ n) ∧
          sent s' ≤ n := by
  have hrun : ∃ s s', run (step true) init askRun = some s ∧ run (step true) s answerRun = some s' ∧ sent s' = 2 ∧
      RunOk (step true) (ReadsMatched true) s answerRun := by
    refine ⟨_, _, rfl, rfl, rfl, ?_⟩
    refine runOk_cons rfl trivial (runOk_cons rfl ?_ (runOk_cons rfl trivial (runOk_cons rfl trivial
      (runOk_cons rfl trivial (runOk_cons rfl ?_ trivial)))))
    · intro value incoming _ hin hmethod
      cases hin
      cases hmethod
    · intro value incoming _ hin _
      cases hin
      exact Or.inr (Or.inr ⟨1, 0, rfl, rfl⟩)
  obtain ⟨s, s', hask, hanswer, hsent, hok⟩ := hrun
  obtain ⟨n, hn⟩ := (responses_not_answered_when_matched true).2.2 askRun s hask
  refine ⟨s, s', n, hask, hanswer, hsent, hn, hn answerRun s' hanswer hok fun a ha => ?_⟩
  simp only [answerRun, List.mem_cons, List.not_mem_nil, or_false] at ha
  rcases ha with rfl | rfl | rfl | rfl | rfl | rfl <;> rfl

/-! A frame that goes back and forth -/

/-- A frame that both sides take for a request without a method. -/
structure Stray (value : Value) : Prop where
  method : hasMethod value = false
  id : mapGet value "id" = some .nil

theorem Stray.responseId {value : Value} (h : Stray value) : responseId value = none := by
  rw [responseId_of_not_hasMethod h.method, frameId, h.id]
  rfl

theorem AgentConn.stray_answered {s : AgentConn.State} {value : Value} {n : ℕ} (hreader : s.reader = .running)
    (hchan : s.chan = ⟨[], [.message value], .running, n⟩) (h : Stray value) :
    ∃ s' answer, run (AgentConn.step true) s
      [.read, .handled s.tasks.length (.ok .nil), .respond s.tasks.length] = some s' ∧
      s'.reader = .running ∧ s'.chan = ⟨[answer], [], .running, n + 1⟩ ∧ Stray answer := by
  have hunmatched : ¬ AgentConn.Matched true s value := by
    rintro (hnone | hno | ⟨k, i, hk, -⟩)
    · rw [h.id] at hnone
      cases hnone
    · cases hno
    · rw [h.responseId] at hk
      cases hk
  obtain ⟨id, method, params, hdispatch⟩ := AgentConn.dispatchFrame_of_unmatched hunmatched
  obtain ⟨hid, -⟩ := AgentConn.dispatchFrame_request hdispatch
  obtain rfl : Value.nil = id := Option.some.inj (h.id.symm.trans hid)
  obtain ⟨hmethod, hkey⟩ := gatewayResponse_keys .nil (handleAgentRequest (.ok .nil) method)
  let t : AgentConn.Task := ⟨value, .nil, method, params, .running⟩
  let response := gatewayResponse .nil (handleAgentRequest (.ok .nil) method)
  have hread : AgentConn.step true s .read =
      some { s with chan := ⟨[], [], .running, n⟩, tasks := s.tasks ++ [t] } := by
    simp only [AgentConn.step, AgentConn.readStep, hreader, hchan, AgentConn.readFrame, hdispatch, t]
  have htask : (s.tasks ++ [t])[s.tasks.length]? = some t := List.getElem?_concat_length
  have hhandled : AgentConn.step true { s with chan := ⟨[], [], .running, n⟩, tasks := s.tasks ++ [t] }
      (.handled s.tasks.length (.ok .nil)) = some { s with
        chan := ⟨[], [], .running, n⟩
        tasks := (s.tasks ++ [t]).set s.tasks.length { t with phase := .responding response }
        handled := s.handled ++ [(value, response)] } := by
    rw [AgentConn.step, htask]
    rfl
  have hanswered := Lists.getElem?_set_self_of_some (a := { t with phase := .responding response }) htask
  have hrespond : AgentConn.step true { s with
      chan := ⟨[], [], .running, n⟩
      tasks := (s.tasks ++ [t]).set s.tasks.length { t with phase := .responding response }
      handled := s.handled ++ [(value, response)] } (.respond s.tasks.length) = some { s with
        chan := ⟨[response], [], .running, n + 1⟩
        tasks := ((s.tasks ++ [t]).set s.tasks.length { t with phase := .responding response }).set s.tasks.length
          { t with phase := .done }
        handled := s.handled ++ [(value, response)] } := by
    rw [AgentConn.step, hanswered]
    rfl
  exact ⟨_, response, run_of_step hread (run_of_step hhandled (run_of_step hrespond (run_nil _))), hreader, rfl,
    hmethod, hkey⟩

theorem AgentChannel.stray_answered {s : AgentChannel.State} {value : Value} {n : ℕ} (hloop : s.loop = .receiving)
    (hchan : s.chan = ⟨[], [.message value], .running, n⟩) (h : Stray value) :
    ∃ s' answer, run AgentChannel.step s [.receive, .handled (.ok .nil), .respond] = some s' ∧
      s'.loop = .receiving ∧ s'.chan = ⟨[answer], [], .running, n + 1⟩ ∧ Stray answer := by
  have hnone : AgentChannel.tryResolvePending s.calls value = none := by
    rw [AgentChannel.tryResolvePending, h.responseId]
    rfl
  let method := (mapStr value "method").getD ""
  let response := agentResponse .nil (dispatch (.ok .nil) method)
  obtain ⟨hmethod, hkey⟩ := agentResponse_keys .nil (dispatch (.ok .nil) method)
  have hreceive : AgentChannel.step s .receive = some { s with
      chan := ⟨[], [], .running, n⟩
      loop := .handling value (some .nil) method (unwrapPositional ((mapGet value "params").getD .nil)) } := by
    simp only [AgentChannel.step, AgentChannel.receiveStep, hloop, hchan, hnone, h.id, method]
  refine ⟨{ s with
      chan := ⟨[response], [], .running, n + 1⟩, loop := .receiving, handled := s.handled ++ [(value, response)] },
    response, run_of_step hreceive rfl, rfl, rfl, hmethod, hkey⟩

/-- Nothing goes on but a stray frame on its way to the gateway. -/
structure Bouncing (s : State) : Prop where
  reader : s.gateway.reader = .running
  loop : s.agent.loop = .receiving
  gateway : ∃ value n, s.gateway.chan = ⟨[], [.message value], .running, n⟩ ∧ Stray value
  agent : ∃ n, s.agent.chan = ⟨[], [], .running, n⟩

def bounce (k : ℕ) : List Act :=
  [.read, .handled k (.ok .nil), .respond k].map .gateway ++ .toAgent ::
    ([.receive, .handled (.ok .nil), .respond].map .agent ++ [.toGateway])

theorem run_gateway {s : State} {g : AgentConn.State} {es : List AgentConn.Act} (hown : ∀ a ∈ es, gatewayOwn a = true)
    (h : run (AgentConn.step hasHandler) s.gateway es = some g) :
    run (step hasHandler) s (es.map .gateway) = some { s with gateway := g } := by
  induction es generalizing s with
  | nil =>
    cases h
    rfl
  | cons a es ih =>
    obtain ⟨m, hm, hrest⟩ := run_cons h
    have hs : step hasHandler s (.gateway a) = some { s with gateway := m } := by
      rw [step, if_pos (hown a List.mem_cons_self), hm]
      rfl
    exact run_of_step hs (ih (s := { s with gateway := m }) (fun b hb => hown b (List.mem_cons_of_mem a hb)) hrest)

theorem run_agent {s : State} {c : AgentChannel.State} {es : List AgentChannel.Act} (hown : ∀ a ∈ es, agentOwn a = true)
    (h : run AgentChannel.step s.agent es = some c) :
    run (step hasHandler) s (es.map .agent) = some { s with agent := c } := by
  induction es generalizing s with
  | nil =>
    cases h
    rfl
  | cons a es ih =>
    obtain ⟨m, hm, hrest⟩ := run_cons h
    have hs : step hasHandler s (.agent a) = some { s with agent := m } := by
      rw [step, if_pos (hown a List.mem_cons_self), hm]
      rfl
    exact run_of_step hs (ih (s := { s with agent := m }) (fun b hb => hown b (List.mem_cons_of_mem a hb)) hrest)

theorem bouncing_bounce {s : State} (h : Bouncing s) :
    ∃ s', run (step true) s (bounce s.gateway.tasks.length) = some s' ∧ Bouncing s' ∧ sent s' = sent s + 2 := by
  obtain ⟨hreader, hloop, ⟨value, n, hgateway, hstray⟩, m, hagent⟩ := h
  obtain ⟨g, answer, hg, hgreader, hgchan, hanswer⟩ := AgentConn.stray_answered hreader hgateway hstray
  have hdown : step true { s with gateway := g } .toAgent = some
      { gateway := { g with chan := ⟨[], [], .running, n + 1⟩ }
        agent := { s.agent with chan := ⟨[], [.message answer], .running, m⟩ } } := by
    simp only [step, hgchan, hagent, Channel.write, Channel.arrive, Option.map_some, List.nil_append]
  obtain ⟨c, back, hc, hcloop, hcchan, hback⟩ := AgentChannel.stray_answered
    (s := { s.agent with chan := ⟨[], [.message answer], .running, m⟩ }) hloop rfl hanswer
  have hup : step true { gateway := { g with chan := ⟨[], [], .running, n + 1⟩ }, agent := c } .toGateway = some
      { gateway := { g with chan := ⟨[], [.message back], .running, n + 1⟩ }
        agent := { c with chan := ⟨[], [], .running, m + 1⟩ } } := by
    simp only [step, hcchan, Channel.write, Channel.arrive, Option.map_some, List.nil_append]
  refine ⟨_, run_append (run_gateway (by simp [gatewayOwn]) hg) (run_of_step hdown
    (run_append (run_agent (by simp [agentOwn]) hc) (run_of_step hup (run_nil _)))), ?_, ?_⟩
  · exact ⟨hgreader, hcloop, ⟨back, n + 1, rfl, hback⟩, m + 1, rfl⟩
  · simp only [sent, hgateway, hagent]
    omega

theorem bounce_cost (k : ℕ) : ∀ a ∈ bounce k, a.cost = 0 := by
  simp [bounce, Act.cost, AgentConn.Act.cost, AgentChannel.Act.cost]

theorem bouncing_endless {s : State} (h : Bouncing s) (n : ℕ) :
    ∃ later s', run (step true) s later = some s' ∧ (∀ a ∈ later, a.cost = 0) ∧ Bouncing s' ∧
    sent s' = sent s + 2 * n := by
  induction n with
  | zero => exact ⟨[], s, rfl, fun a ha => absurd ha List.not_mem_nil, h, rfl⟩
  | succ n ih =>
    obtain ⟨later, m, hrun, hcost, hbouncing, hsent⟩ := ih
    obtain ⟨s', hrun', hbouncing', hsent'⟩ := bouncing_bounce hbouncing
    refine ⟨later ++ bounce m.gateway.tasks.length, s', run_append hrun hrun', fun a ha => ?_, hbouncing', by omega⟩
    rcases List.mem_append.mp ha with ha | ha
    · exact hcost a ha
    · exact bounce_cost _ a ha

def parseErrorRun : List Act :=
  [.agent (.arrive (.malformedMessage "bad")), .agent .receive, .agent .respond, .toGateway]

/-- Nobody has asked anything, and there is no end of answers. -/
theorem parse_error_bounces :
    ∃ s, run (step true) init parseErrorRun = some s ∧ s.gateway.calls = .new ∧ s.agent.calls = .new ∧
      s.gateway.chan.incoming = [.message (parseErrorFrame "bad")] ∧ hasMethod (parseErrorFrame "bad") = false ∧
      s.gateway.chan.outgoing = [] ∧ s.agent.chan.incoming = [] ∧ s.agent.chan.outgoing = [] ∧
      (∃ g, AgentConn.step true s.gateway .read = some g ∧ AgentConn.owed s.gateway = 0 ∧ AgentConn.owed g = 1) ∧
      ∀ n, ∃ later s', run (step true) s later = some s' ∧ (∀ a ∈ later, a.cost = 0) ∧ n ≤ sent s' := by
  obtain ⟨hmethod, hid⟩ := parseErrorFrame_keys "bad"
  refine ⟨_, rfl, rfl, rfl, rfl, hmethod, rfl, rfl, rfl, ⟨_, rfl, rfl, rfl⟩, fun n => ?_⟩
  obtain ⟨later, s', hrun, hcost, -, hsent⟩ := bouncing_endless
    (s := ⟨{ AgentConn.init with chan := ⟨[], [.message (parseErrorFrame "bad")], .running, 0⟩ },
      { AgentChannel.init with chan := ⟨[], [], .running, 1⟩ }⟩)
    ⟨rfl, rfl, ⟨parseErrorFrame "bad", 0, rfl, hmethod, hid⟩, 1, rfl⟩ n
  exact ⟨later, s', hrun, hcost, by omega⟩

end Nexal.Link
