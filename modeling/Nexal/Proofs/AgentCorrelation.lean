import Mathlib.Algebra.Order.Group.Multiset
import Nexal.Sanity.AgentCalls
import Nexal.Sanity.AgentFlow
import Nexal.Spec.AgentConn

/-! Both directions of the connection at once: a frame on its way is a request of one side and a
response for the other, and which of the two it is read as is decided by its `method` key. -/

namespace Nexal.Link

open Runs
open Wire (Value mapGet)

/-- What the direction of either side's requests depends on, for one side of the connection. -/
structure End (ε : Type) where
  closedError : ε
  calls : Calls ε
  handled : List (Value × Value)
  live : Bool
  /-- its frames that the other side has not read -/
  queue : Multiset Value
  serving : Multiset Value
  replying : Multiset Value

variable {ε δ : Type}

def items (A : End ε) (B : End δ) : Multiset Item :=
  A.queue.map .request + B.serving.map .serving + (B.replying + B.queue).map .response

structure Flow (A : End ε) (B : End δ) (read : Value → Except ε Value) (others : Except ε Value → Prop) : Prop where
  calls : CallsOk A.calls
  flow : FlowInv A.calls B.handled A.live (items A B)
  answers : AnswersOk A.calls B.handled read others
  returns : ReturnsOk A.closedError A.calls

variable {A A' : End ε} {B B' : End δ} {read : Value → Except ε Value} {others : Except ε Value → Prop} {v : Value}

theorem Flow.of_items (h : Flow A B read others) (herror : A'.closedError = A.closedError) (hcalls : A'.calls = A.calls)
    (hlive : A'.live = A.live) (hhandled : B'.handled = B.handled)
    (hflow : FlowInv A.calls B.handled A.live (items A' B')) : Flow A' B' read others := by
  refine ⟨hcalls ▸ h.calls, ?_, ?_, ?_⟩
  · rw [hcalls, hlive, hhandled]
    exact hflow
  · rw [hcalls, hhandled]
    exact h.answers
  · rw [herror, hcalls]
    exact h.returns

theorem items_queue (q : Multiset Value) (A : End ε) (B : End δ) :
    items { A with queue := v ::ₘ q } B = .request v ::ₘ items { A with queue := q } B := by
  simp only [items, Multiset.map_cons, Multiset.cons_add]

theorem items_back (q : Multiset Value) (A : End ε) (B : End δ) :
    items A { B with queue := v ::ₘ q } = .response v ::ₘ items A { B with queue := q } := by
  simp only [items, Multiset.map_cons, Multiset.add_cons]

theorem items_serving (m : Multiset Value) (A : End ε) (B : End δ) :
    items A { B with serving := v ::ₘ m } = .serving v ::ₘ items A { B with serving := m } := by
  simp only [items, Multiset.map_cons, Multiset.add_cons, Multiset.cons_add]

theorem items_replying (m : Multiset Value) (A : End ε) (B : End δ) :
    items A { B with replying := v ::ₘ m } = .response v ::ₘ items A { B with replying := m } := by
  simp only [items, Multiset.map_cons, Multiset.add_cons, Multiset.cons_add]

theorem request_token_of_not_hasMethod (h : hasMethod v = false) : (Item.request v).token = none := by
  rw [Item.token, h]
  rfl

structure Pair (A : End ε) (B : End δ) (readA : Value → Except ε Value) (othersA : Except ε Value → Prop)
    (readB : Value → Except δ Value) (othersB : Except δ Value → Prop) : Prop where
  ask : Flow A B readA othersA
  serve : Flow B A readB othersB

section Pair
variable {readA : Value → Except ε Value} {othersA : Except ε Value → Prop} {readB : Value → Except δ Value}
  {othersB : Except δ Value → Prop} {q m : Multiset Value}

theorem Pair.swap (h : Pair A B readA othersA readB othersB) : Pair B A readB othersB readA othersA := ⟨h.serve, h.ask⟩

/-- A side puts a notification on its way. -/
theorem Pair.notify (h : Pair A B readA othersA readB othersB) (hmethod : hasMethod v = true) (hid : frameId v = none) :
    Pair { A with queue := v ::ₘ A.queue } B readA othersA readB othersB := by
  refine ⟨h.ask.of_items rfl rfl rfl rfl ?_, h.serve.of_items rfl rfl rfl rfl ?_⟩
  · rw [items_queue]
    refine h.ask.flow.add ?_
    rw [Item.token, if_pos hmethod, hid]
  · rw [items_back]
    exact h.serve.flow.add (responseId_of_hasMethod hmethod)

/-- Frames get lost, or are dropped by the other side. -/
theorem Pair.lose (h : Pair A B readA othersA readB othersB) (hle : q ≤ A.queue) :
    Pair { A with queue := q } B readA othersA readB othersB := by
  refine ⟨h.ask.of_items rfl rfl rfl rfl (h.ask.flow.lose ?_), h.serve.of_items rfl rfl rfl rfl (h.serve.flow.lose ?_)⟩
  · exact add_le_add_left (add_le_add_left (Multiset.map_le_map hle) _) _
  · exact add_le_add_right (Multiset.map_le_map (add_le_add_right hle _)) _

/-- A call goes on, and may send its request. -/
theorem Pair.move {accepts : Bool} {i : ℕ} {call : Call ε} {calls : Calls ε} {frame : Option Value}
    (h : Pair A B readA othersA readB othersB) (hcall : A.calls.calls[i]? = some call)
    (hmove : CallMove A.calls A.closedError accepts i call calls frame) :
    Pair { A with calls := calls, queue := frame.elim A.queue (· ::ₘ A.queue) } B readA othersA readB othersB := by
  have hflow := flowInv_move h.ask.flow h.ask.calls hcall hmove
  refine ⟨⟨callsOk_move h.ask.calls hcall hmove, ?_, answersOk_move h.ask.answers h.ask.calls hcall hmove,
    returnsOk_move h.ask.returns hcall hmove⟩, ?_⟩
  · cases frame with
    | none => exact hflow
    | some f =>
      have hitems : items { A with calls := calls, queue := f ::ₘ A.queue } B = .request f ::ₘ items A B :=
        items_queue A.queue { A with calls := calls } B
      rw [Option.elim_some, hitems]
      exact hflow
  · cases frame with
    | none => exact h.serve.of_items rfl rfl rfl rfl h.serve.flow
    | some f =>
      have hitems : items B { A with calls := calls, queue := f ::ₘ A.queue } = .response f ::ₘ items B A :=
        items_back A.queue B { A with calls := calls }
      refine h.serve.of_items rfl rfl rfl rfl ?_
      rw [Option.elim_some, hitems]
      refine h.serve.flow.add ?_
      cases hmove with
      | sends => exact responseId_of_hasMethod (hasMethod_request _ _ _)

theorem Pair.append {call : Call ε} (h : Pair A B readA othersA readB othersB) (hid : call.id = none)
    (hphase : call.phase.id = none) (hearly : call.phase.early = true) (hslot : call.slot = none) :
    Pair { A with calls := { A.calls with calls := A.calls.calls ++ [call] } } B readA othersA readB othersB :=
  ⟨⟨h.ask.calls.append hid hphase hslot, flowInv_append h.ask.flow hid hphase,
    answersOk_append h.ask.answers h.ask.calls,
    h.ask.returns.append hslot hearly⟩,
    h.serve.of_items rfl rfl rfl rfl h.serve.flow⟩

/-- A call looks at a flag before it does anything. -/
theorem Pair.check {i : ℕ} {call : Call ε} {phase : CallPhase ε} (h : Pair A B readA othersA readB othersB)
    (hcall : A.calls.calls[i]? = some call) (hold : call.phase = .checking)
    (hnext : phase = .allocating ∨ phase = .returned (.error A.closedError)) :
    Pair { A with calls := A.calls.set i { call with phase := phase } } B readA othersA readB othersB := by
  have hok := h.ask.calls.each i call hcall
  have hslot : call.slot = none := hok.fresh (by rw [hold]; rfl)
  have hid : phase.id = none := by
    rcases hnext with rfl | rfl
    · rfl
    · rfl
  refine ⟨⟨?_, ?_, ?_, ?_⟩, h.serve.of_items rfl rfl rfl rfl h.serve.flow⟩
  · refine h.ask.calls.update hcall ⟨hok.below, fun id hset => ?_, fun _ => hslot⟩ rfl rfl fun _ => by rw [hold]; rfl
    have hset : phase.id = some id := hset
    rw [hid] at hset
    cases hset
  · refine h.ask.flow.set hcall (fun id hcid _ => hcid) rfl rfl (fun id j hin _ => hin) (fun id hcid _ => ?_)
      fun id hset _ => ?_
    · exact h.ask.flow.unsent i call id hcall hcid (by rw [hold]; rfl)
    · have hset : phase = .sending id := hset
      rw [hset] at hid
      cases hid
  · exact answersOk_set h.ask.answers h.ask.calls hcall (fun _ => rfl) rfl rfl
  · refine h.ask.returns.set hcall rfl fun r hset => ?_
    rcases hnext with rfl | rfl
    · cases hset
    · cases hset
      exact Or.inl rfl

/-- The other side reads a frame as the response to a request of its own. -/
theorem Pair.respond {id : UInt64} (h : Pair A B readA othersA readB othersB) (hA : A.queue = v ::ₘ q) (hB : B.live = true)
    (hid : responseId v = some id) :
    ∃ i, B.calls.pending.lookup id = some i ∧
      Pair { A with queue := q } { B with calls := B.calls.respond id i (readB v) } readA othersA readB othersB := by
  have hflow := h.serve.flow
  have hitems : items B A = .response v ::ₘ items B { A with queue := q } := by
    rw [← items_back, ← hA]
  rw [hB, hitems] at hflow
  obtain ⟨i, call, hlookup, hcall, hcid, hin, hresponded⟩ := hflow.respond (readB v) h.serve.calls hid
  have hlost := h.lose (q := q) (by rw [hA]; exact Multiset.le_cons_self q v)
  refine ⟨i, hlookup, ⟨hlost.ask.of_items rfl rfl rfl rfl hlost.ask.flow, h.serve.calls.respond hlookup, ?_, ?_, ?_⟩⟩
  · rw [← hB] at hresponded
    exact hresponded
  · refine answersOk_resolve (l := [i]) h.serve.answers h.serve.calls fun j hj => ?_
    rw [List.mem_singleton.mp hj]
    exact Or.inr ⟨call, id, v, hcall, hcid, hin, rfl⟩
  · refine h.serve.returns.resolve (l := [i]) h.serve.calls fun j hj => ?_
    rw [List.mem_singleton.mp hj]
    exact ⟨id, Lists.mem_of_lookup_eq_some hlookup⟩

/-- The other side finds no sender for a frame. -/
theorem Pair.request_of_unmatched (h : Pair A B readA othersA readB othersB) (hA : A.queue = v ::ₘ q) (hB : B.live = true)
    (hnone : ∀ id, responseId v = some id → B.calls.pending.lookup id = none) :
    hasMethod v = true ∨ frameId v = none := by
  by_contra hnot
  obtain ⟨hmethod, hsome⟩ := not_or.mp hnot
  obtain ⟨id, hid⟩ := Option.ne_none_iff_exists'.mp hsome
  have hresponse : responseId v = some id := (responseId_of_not_hasMethod (by simpa using hmethod)).trans hid
  obtain ⟨i, hlookup, -⟩ := h.respond hA hB hresponse
  rw [hnone id hresponse] at hlookup
  cases hlookup

/-- The other side reads a frame as a request. -/
theorem Pair.take (h : Pair A B readA othersA readB othersB) (hA : A.queue = v ::ₘ q)
    (hrequest : hasMethod v = true ∨ frameId v = none) :
    Pair { A with queue := q } { B with serving := v ::ₘ B.serving } readA othersA readB othersB := by
  have hlost := h.lose (q := q) (by rw [hA]; exact Multiset.le_cons_self q v)
  refine ⟨h.ask.of_items rfl rfl rfl rfl ?_, hlost.serve.of_items rfl rfl rfl rfl hlost.serve.flow⟩
  have hflow := h.ask.flow
  have hitems : items A B = .request v ::ₘ items { A with queue := q } B := by
    rw [← items_queue, ← hA]
  rw [hitems] at hflow
  rw [items_serving]
  refine hflow.replace ?_ (fun call id _ hof => hof) (List.Subset.refl _)
  rw [Item.token, Item.token]
  split_ifs with hmethod
  · rfl
  · exact hrequest.resolve_left hmethod

/-- A request is answered. -/
theorem Pair.complete {f r : Value} (h : Pair A B readA othersA readB othersB) (hB : B.serving = f ::ₘ m)
    (hid : responseId r = frameId f) :
    Pair A { B with serving := m, replying := r ::ₘ B.replying, handled := B.handled ++ [(f, r)] }
      readA othersA readB othersB := by
  have hflow := h.ask.flow
  have hitems : items A B = .serving f ::ₘ items A { B with serving := m } := by
    rw [← items_serving, ← hB]
  rw [hitems] at hflow
  have hsub : B.handled ⊆ B.handled ++ [(f, r)] := List.subset_append_left _ _
  refine ⟨⟨h.ask.calls, ?_, fun i x hx => ?_, h.ask.returns⟩, h.serve.of_items rfl rfl rfl rfl h.serve.flow⟩
  · have hnew : items A { B with serving := m, replying := r ::ₘ B.replying, handled := B.handled ++ [(f, r)] } =
        .response r ::ₘ items A { B with serving := m } :=
      items_replying B.replying A { B with serving := m, handled := B.handled ++ [(f, r)] }
    rw [hnew]
    refine hflow.replace hid (fun call id htoken hof => ?_) hsub
    obtain rfl : f = call.frame id := hof
    exact List.mem_append_right _ List.mem_cons_self
  · rcases h.ask.answers i x hx with hother | ⟨call, id, g, hcall, hcid, hin, hr⟩
    · exact Or.inl hother
    · exact Or.inr ⟨call, id, g, hcall, hcid, hsub hin, hr⟩

/-- A request without an id is done with. -/
theorem Pair.forget (h : Pair A B readA othersA readB othersB) (hle : m ≤ B.serving) :
    Pair A { B with serving := m } readA othersA readB othersB := by
  refine ⟨h.ask.of_items rfl rfl rfl rfl (h.ask.flow.lose ?_), h.serve.of_items rfl rfl rfl rfl h.serve.flow⟩
  exact add_le_add_left (add_le_add_right (Multiset.map_le_map hle) _) _

/-- A response goes out. -/
theorem Pair.reply {r : Value} (h : Pair A B readA othersA readB othersB) (hB : B.replying = r ::ₘ m)
    (hmethod : hasMethod r = false) :
    Pair A { B with replying := m, queue := r ::ₘ B.queue } readA othersA readB othersB := by
  refine ⟨h.ask.of_items rfl rfl rfl rfl ?_, h.serve.of_items rfl rfl rfl rfl ?_⟩
  · have hsame : items A { B with replying := m, queue := r ::ₘ B.queue } = items A B := by
      simp only [items, hB, Multiset.add_cons, Multiset.cons_add]
    rw [hsame]
    exact h.ask.flow
  · have hnew : items { B with replying := m, queue := r ::ₘ B.queue } A = .request r ::ₘ items B A :=
      items_queue B.queue { B with replying := m } A
    rw [hnew]
    exact h.serve.flow.add (request_token_of_not_hasMethod hmethod)

/-- A response is not sent. -/
theorem Pair.dropReply (h : Pair A B readA othersA readB othersB) (hle : m ≤ B.replying) :
    Pair A { B with replying := m } readA othersA readB othersB := by
  refine ⟨h.ask.of_items rfl rfl rfl rfl (h.ask.flow.lose ?_), h.serve.of_items rfl rfl rfl rfl h.serve.flow⟩
  exact add_le_add_right (Multiset.map_le_map (add_le_add_left hle _)) _

/-- A response to nobody. -/
theorem Pair.junk {r : Value} (h : Pair A B readA othersA readB othersB) (hid : responseId r = none) :
    Pair A { B with replying := r ::ₘ B.replying } readA othersA readB othersB := by
  refine ⟨h.ask.of_items rfl rfl rfl rfl ?_, h.serve.of_items rfl rfl rfl rfl h.serve.flow⟩
  rw [items_replying]
  exact h.ask.flow.add hid

/-- A side stops reading, and drains its map later. -/
theorem Pair.stop (h : Pair A B readA othersA readB othersB) : Pair { A with live := false } B readA othersA readB othersB :=
  ⟨⟨h.ask.calls, h.ask.flow.stop, h.ask.answers, h.ask.returns⟩, h.serve.of_items rfl rfl rfl rfl h.serve.flow⟩

theorem Pair.drain {err : ε} (h : Pair A B readA othersA readB othersB) (hA : A.live = false)
    (hother : othersA (.error err)) :
    Pair { A with calls := A.calls.drain err } B readA othersA readB othersB := by
  have hflow := h.ask.flow
  rw [hA] at hflow
  refine ⟨⟨h.ask.calls.drain, ?_, ?_, ?_⟩, h.serve.of_items rfl rfl rfl rfl h.serve.flow⟩
  · have hdrained : FlowInv (A.calls.drain err) B.handled false (items A B) := hflow.drain
    rw [← hA] at hdrained
    exact hdrained
  · exact answersOk_resolve h.ask.answers h.ask.calls fun i _ => Or.inl hother
  · refine h.ask.returns.resolve h.ask.calls fun i hi => ?_
    obtain ⟨⟨id, j⟩, hmem, rfl⟩ := List.mem_map.mp hi
    exact ⟨id, hmem⟩

end Pair

/-! The two programs -/

def messages (events : List Event) : List Value :=
  events.filterMap fun
    | .message value => some value
    | _ => none

def servingOf (t : AgentConn.Task) : Option Value :=
  match t.phase with
  | .running => some t.request
  | _ => none

def replyingOf (t : AgentConn.Task) : Option Value :=
  match t.phase with
  | .responding response => some response
  | _ => none

def gatewayEnd (s : State) : End AgentConnError where
  closedError := .closed
  calls := s.gateway.calls
  handled := s.gateway.handled
  live := s.gateway.reader = .running
  queue := ↑s.gateway.chan.outgoing + ↑(messages s.agent.chan.incoming)
  serving := ↑(s.gateway.tasks.filterMap servingOf)
  replying := ↑(s.gateway.tasks.filterMap replyingOf)

def loopServing : AgentChannel.Loop → Multiset Value
  | .handling frame _ _ _ => {frame}
  | _ => 0

def loopReplying : AgentChannel.Loop → Multiset Value
  | .responding response => {response}
  | _ => 0

def agentEnd (s : State) : End String where
  closedError := AgentChannel.connectionClosed
  calls := s.agent.calls
  handled := s.agent.handled
  live := true
  queue := ↑s.agent.chan.outgoing + ↑(messages s.gateway.chan.incoming)
  serving := loopServing s.agent.loop
  replying := loopReplying s.agent.loop

structure LinkInv (s : State) : Prop where
  pair : Pair (gatewayEnd s) (agentEnd s) gatewayResult (· = .error .closed) agentResult (fun _ => False)
  tasks : ∀ t ∈ s.gateway.tasks, mapGet t.request "id" = some t.id ∧
    ∀ response, t.phase = .responding response → hasMethod response = false
  handling : ∀ frame id method params, s.agent.loop = .handling frame id method params → mapGet frame "id" = id
  responding : ∀ response, s.agent.loop = .responding response → hasMethod response = false
  closers : s.gateway.closers = []
  aborted : s.gateway.aborted = false

theorem coe_concat (l : List Value) (m : Multiset Value) (v : Value) :
    ((l ++ [v] : List Value) : Multiset Value) + m = v ::ₘ (↑l + m) := by
  rw [← Multiset.coe_add, Multiset.coe_singleton, Multiset.add_comm (↑l : Multiset Value), Multiset.singleton_add,
    Multiset.cons_add]

theorem messages_concat (events : List Event) (ev : Event) :
    messages (events ++ [ev]) = messages events ++ messages [ev] := by
  simp [messages]

theorem messages_cons (ev : Event) (events : List Event) : messages (ev :: events) = messages [ev] ++ messages events := by
  simp only [messages, ← List.filterMap_append, List.singleton_append]

theorem messages_foreign {events : List Event} {ev : Event} (h : messages [ev] = []) :
    messages (events ++ [ev]) = messages events := by
  rw [messages_concat, h, List.append_nil]

@[simp] theorem send_incoming {c : Channel} {v : Value} : (c.send v).incoming = c.incoming := by
  unfold Channel.send
  split_ifs <;> rfl

/-- One side's end depends on the other's channel only through what has arrived there. -/
theorem agentEnd_gateway {s : State} {g : AgentConn.State}
    (h : messages g.chan.incoming = messages s.gateway.chan.incoming) : agentEnd { s with gateway := g } = agentEnd s := by
  unfold agentEnd
  rw [h]

theorem gatewayEnd_agent {s : State} {a : AgentChannel.State}
    (h : messages a.chan.incoming = messages s.agent.chan.incoming) : gatewayEnd { s with agent := a } = gatewayEnd s := by
  unfold gatewayEnd
  rw [h]

/-- A frame is handed to the writer, if it is still there. -/
theorem gatewayEnd_send (s : State) (g : AgentConn.State) (v : Value) (hchan : g.chan = s.gateway.chan.send v)
    (hcalls : g.calls = s.gateway.calls) (hhandled : g.handled = s.gateway.handled) (hreader : g.reader = s.gateway.reader)
    (hserving : (g.tasks.filterMap servingOf).Perm (s.gateway.tasks.filterMap servingOf)) :
    gatewayEnd { s with gateway := g } = { gatewayEnd s with
      queue := if s.gateway.chan.accepts then v ::ₘ (gatewayEnd s).queue else (gatewayEnd s).queue
      replying := ↑(g.tasks.filterMap replyingOf) } := by
  unfold gatewayEnd
  rw [hcalls, hhandled, hreader, Multiset.coe_eq_coe.mpr hserving, hchan]
  unfold Channel.send
  split_ifs
  · rw [coe_concat]
  · rfl

theorem agentEnd_send (s : State) (a : AgentChannel.State) (v : Value) (hchan : a.chan = s.agent.chan.send v)
    (hcalls : a.calls = s.agent.calls) (hhandled : a.handled = s.agent.handled) :
    agentEnd { s with agent := a } = { agentEnd s with
      queue := if s.agent.chan.accepts then v ::ₘ (agentEnd s).queue else (agentEnd s).queue
      serving := loopServing a.loop
      replying := loopReplying a.loop } := by
  unfold agentEnd
  rw [hcalls, hhandled, hchan]
  unfold Channel.send
  split_ifs
  · rw [coe_concat]
  · rfl

variable {hasHandler : Bool} {s s' : State}

/-! Steps of the gateway -/

theorem linkInv_call {i : ℕ} {g : AgentConn.State} (h : LinkInv s) (hs : AgentConn.callStep s.gateway i = some g) :
    LinkInv { s with gateway := g } := by
  obtain ⟨call, hcall, hs⟩ := Option.bind_eq_some_iff.mp hs
  split at hs
  · rename_i hphase
    cases hs
    refine { h with pair := ?_ }
    refine h.pair.check hcall hphase ?_
    split_ifs
    · exact Or.inr rfl
    · exact Or.inl rfl
  · obtain ⟨⟨calls, frame⟩, hstep, rfl⟩ := Option.map_eq_some_iff.mp hs
    obtain ⟨call', hcall', hmove⟩ := Calls.step_move hstep
    have hpair := h.pair.move hcall' hmove
    refine { h with pair := ?_ }
    cases frame with
    | none => exact hpair
    | some f =>
      have haccepts : s.gateway.chan.accepts = true := by
        cases hmove with
        | sends _ haccepts => exact haccepts
      have hend := gatewayEnd_send s { s.gateway with chan := s.gateway.chan.send f } f rfl rfl rfl rfl .rfl
      rw [if_pos haccepts] at hend
      have hcallsEnd : gatewayEnd { s with gateway := { s.gateway with calls := calls, chan := s.gateway.chan.send f } } =
          { gatewayEnd s with calls := calls, queue := f ::ₘ (gatewayEnd s).queue } :=
        congrArg (fun e : End AgentConnError => { e with calls := calls }) hend
      have hagent : agentEnd { s with gateway := { s.gateway with calls := calls, chan := s.gateway.chan.send f } } =
          agentEnd s := agentEnd_gateway (congrArg messages send_incoming)
      dsimp only [Option.map_some, Option.getD_some]
      rw [hcallsEnd, hagent]
      exact hpair

theorem linkInv_notify {method : String} {params : Value} (h : LinkInv s) :
    LinkInv { s with gateway := { s.gateway with chan := s.gateway.chan.send (buildRpcNotification method params) } } := by
  obtain ⟨hmethod, hid⟩ := notification_keys method params
  have hframe : frameId (buildRpcNotification method params) = none := by rw [frameId, hid]; rfl
  have hend := gatewayEnd_send s { s.gateway with chan := s.gateway.chan.send (buildRpcNotification method params) }
    (buildRpcNotification method params) rfl rfl rfl rfl .rfl
  refine { h with pair := ?_ }
  rw [agentEnd_gateway (congrArg messages send_incoming), hend]
  split_ifs
  · exact h.pair.notify hmethod hframe
  · exact h.pair

/-- What an incoming frame is, once the gateway has taken it from its queue. -/
theorem upQueue_cons {ev : Event} {incoming : List Event} (hin : s.gateway.chan.incoming = ev :: incoming) :
    (agentEnd s).queue = ↑(messages [ev]) +
      (agentEnd { s with gateway := { s.gateway with chan := { s.gateway.chan with incoming := incoming } } }).queue := by
  unfold agentEnd
  dsimp only
  rw [hin, messages_cons, ← Multiset.coe_add]
  exact add_left_comm _ _ _

/-- The request handler's tasks after a frame was read as a request. -/
theorem filterMap_running (tasks : List AgentConn.Task) (t : AgentConn.Task) (ht : t.phase = .running) :
    ((tasks ++ [t]).filterMap servingOf : Multiset Value) = t.request ::ₘ ↑(tasks.filterMap servingOf) ∧
      (tasks ++ [t]).filterMap replyingOf = tasks.filterMap replyingOf := by
  have hserving : servingOf t = some t.request := by rw [servingOf, ht]
  have hreplying : replyingOf t = none := by rw [replyingOf, ht]
  refine ⟨?_, ?_⟩
  · rw [List.filterMap_append, List.filterMap_cons_some hserving, List.filterMap_nil]
    have hconcat := coe_concat (tasks.filterMap servingOf) 0 t.request
    rwa [add_zero, add_zero] at hconcat
  · rw [List.filterMap_append, List.filterMap_cons_none hreplying, List.filterMap_nil, List.append_nil]

theorem linkInv_readFrame {value : Value} {incoming : List Event} (h : LinkInv s) (hreader : s.gateway.reader = .running)
    (hin : s.gateway.chan.incoming = .message value :: incoming) :
    LinkInv { s with gateway := (AgentConn.readFrame hasHandler
      { s.gateway with chan := { s.gateway.chan with incoming := incoming } } value) } := by
  have hqueue : (agentEnd s).queue = value ::ₘ
      (agentEnd { s with gateway := { s.gateway with chan := { s.gateway.chan with incoming := incoming } } }).queue := by
    rw [upQueue_cons hin]
    exact Multiset.singleton_add _ _
  have hlive : (gatewayEnd s).live = true := by simp [gatewayEnd, hreader]
  have hle := Multiset.le_cons_self
    (agentEnd { s with gateway := { s.gateway with chan := { s.gateway.chan with incoming := incoming } } }).queue value
  rw [← hqueue] at hle
  have hlost := h.pair.swap.lose hle
  unfold AgentConn.readFrame
  cases hdispatch : AgentConn.dispatchFrame s.gateway.calls.pending hasHandler value with
  | resolve id i =>
    obtain ⟨hid, hlookup⟩ := AgentConn.dispatchFrame_resolve hdispatch
    obtain ⟨i', hlookup', hpair⟩ := h.pair.swap.respond hqueue hlive hid
    obtain rfl := Option.some.inj (hlookup.symm.trans hlookup')
    dsimp only
    exact { h with pair := hpair.swap }
  | request id method params =>
    obtain ⟨hid, -, hnone, -⟩ := AgentConn.dispatchFrame_request hdispatch
    dsimp only
    have hrequest := h.pair.swap.request_of_unmatched hqueue hlive hnone
    obtain ⟨hserving, hreplying⟩ := filterMap_running s.gateway.tasks ⟨value, id, method, params, .running⟩ rfl
    have hpair := (h.pair.swap.take hqueue hrequest).swap
    refine { h with pair := ?_, tasks := fun t ht => ?_ }
    · have hend : gatewayEnd { s with gateway := { s.gateway with
          chan := { s.gateway.chan with incoming := incoming }
          tasks := s.gateway.tasks ++ [⟨value, id, method, params, .running⟩] } } =
          { gatewayEnd s with serving := value ::ₘ (gatewayEnd s).serving } := by
        unfold gatewayEnd
        dsimp only
        rw [hserving, hreplying]
      rw [hend]
      exact hpair
    · rcases List.mem_append.mp ht with ht | ht
      · exact h.tasks t ht
      · rw [List.mem_singleton.mp ht]
        exact ⟨hid, fun response hset => by cases hset⟩
  | notification method params =>
    dsimp only
    exact { h with pair := hlost.swap }
  | badFrame =>
    dsimp only
    exact { h with pair := hlost.swap }

theorem linkInv_read {g : AgentConn.State} (h : LinkInv s) (hs : AgentConn.readStep hasHandler s.gateway = some g) :
    LinkInv { s with gateway := g } := by
  unfold AgentConn.readStep at hs
  cases hreader : s.gateway.reader with
  | running =>
    cases hin : s.gateway.chan.incoming with
    | nil =>
      simp only [hreader, hin] at hs
      cases hs
    | cons ev incoming =>
      have hskip : messages [ev] = [] →
          agentEnd { s with gateway := { s.gateway with chan := { s.gateway.chan with incoming := incoming } } } =
            agentEnd s := by
        intro hforeign
        refine agentEnd_gateway ?_
        rw [hin, messages_cons, hforeign, List.nil_append]
      cases ev with
      | message value =>
        simp only [hreader, hin] at hs
        cases hs
        rw [← hreader]
        exact linkInv_readFrame h hreader hin
      | malformedMessage reason =>
        simp only [hreader, hin] at hs
        cases hs
        rw [← hreader]
        refine { h with pair := ?_ }
        rw [hskip rfl]
        exact h.pair
      | disconnected =>
        simp only [hreader, hin] at hs
        cases hs
        have hpair := h.pair.stop
        rw [← hskip rfl] at hpair
        exact { h with pair := hpair }
  | marking =>
    simp only [hreader] at hs
    cases hs
    have hend : gatewayEnd { s with gateway := { s.gateway with closed := true, reader := .draining } } = gatewayEnd s := by
      simp [gatewayEnd, hreader]
    exact { h with pair := hend ▸ h.pair }
  | draining =>
    simp only [hreader] at hs
    cases hs
    have hlive : (gatewayEnd s).live = false := by simp [gatewayEnd, hreader]
    have hend : gatewayEnd { s with gateway := { AgentConn.drainPending s.gateway with reader := .done } } =
        { gatewayEnd s with calls := s.gateway.calls.drain .closed } := by
      simp [gatewayEnd, AgentConn.drainPending, hreader]
    exact { h with pair := hend ▸ h.pair.drain hlive rfl }
  | done | cancelled =>
    simp only [hreader] at hs
    cases hs

theorem linkInv_handled {k : ℕ} {skills : Except String Value} {t : AgentConn.Task} (h : LinkInv s)
    (ht : s.gateway.tasks[k]? = some t) (hphase : t.phase = .running) {response : Value}
    (hresponse : response = gatewayResponse t.id (handleAgentRequest skills t.method)) :
    LinkInv { s with gateway := { s.gateway with
      tasks := s.gateway.tasks.set k { t with phase := .responding response }
      handled := s.gateway.handled ++ [(t.request, response)] } } := by
  obtain ⟨hmethod, hid⟩ := gatewayResponse_keys t.id (handleAgentRequest skills t.method)
  rw [← hresponse] at hmethod hid
  obtain ⟨htid, -⟩ := h.tasks t (List.mem_of_getElem? ht)
  have hserving := Lists.filterMap_set_perm (g := servingOf) (b := { t with phase := .responding response }) ht
  have hreplying := Lists.filterMap_set_perm (g := replyingOf) (b := { t with phase := .responding response }) ht
  have hrunning : servingOf t = some t.request := by rw [servingOf, hphase]
  have hsilent : replyingOf t = none := by rw [replyingOf, hphase]
  rw [hrunning] at hserving
  rw [hsilent] at hreplying
  have hold : (gatewayEnd s).serving =
      t.request ::ₘ ↑((s.gateway.tasks.set k { t with phase := .responding response }).filterMap servingOf) :=
    (Multiset.coe_eq_coe.mpr hserving).symm
  have hnew : (((s.gateway.tasks.set k { t with phase := .responding response }).filterMap replyingOf : List Value) :
      Multiset Value) = response ::ₘ ↑(s.gateway.tasks.filterMap replyingOf) := Multiset.coe_eq_coe.mpr hreplying
  have hanswer : responseId response = frameId t.request := by
    rw [responseId_of_not_hasMethod hmethod, frameId, frameId, hid, htid]
  have hpair := h.pair.swap.complete hold hanswer
  refine { h with pair := ?_, tasks := fun t' ht' => ?_ }
  · have hend : gatewayEnd { s with gateway := { s.gateway with
        tasks := s.gateway.tasks.set k { t with phase := .responding response }
        handled := s.gateway.handled ++ [(t.request, response)] } } =
        { gatewayEnd s with
          serving := ↑((s.gateway.tasks.set k { t with phase := .responding response }).filterMap servingOf)
          replying := response ::ₘ (gatewayEnd s).replying
          handled := s.gateway.handled ++ [(t.request, response)] } := by
      unfold gatewayEnd
      dsimp only
      rw [hnew]
    rw [hend]
    exact hpair.swap
  · rcases List.mem_or_eq_of_mem_set ht' with ht' | rfl
    · exact h.tasks t' ht'
    · refine ⟨htid, fun r hr => ?_⟩
      cases hr
      exact hmethod

theorem linkInv_respond {k : ℕ} {t : AgentConn.Task} {response : Value} (h : LinkInv s)
    (ht : s.gateway.tasks[k]? = some t) (hphase : t.phase = .responding response) :
    LinkInv { s with gateway := { s.gateway with
      chan := s.gateway.chan.send response, tasks := s.gateway.tasks.set k { t with phase := .done } } } := by
  obtain ⟨htid, hmethod⟩ := h.tasks t (List.mem_of_getElem? ht)
  have hserving := Lists.filterMap_set_perm (g := servingOf) (b := { t with phase := .done }) ht
  have hreplying := Lists.filterMap_set_perm (g := replyingOf) (b := { t with phase := .done }) ht
  have hidle : servingOf t = none := by rw [servingOf, hphase]
  have hready : replyingOf t = some response := by rw [replyingOf, hphase]
  rw [hidle] at hserving
  rw [hready] at hreplying
  have hold : (gatewayEnd s).replying =
      response ::ₘ ↑((s.gateway.tasks.set k { t with phase := .done }).filterMap replyingOf) :=
    (Multiset.coe_eq_coe.mpr hreplying).symm
  have hend := gatewayEnd_send s { s.gateway with
    chan := s.gateway.chan.send response, tasks := s.gateway.tasks.set k { t with phase := .done } }
    response rfl rfl rfl rfl hserving
  refine { h with pair := ?_, tasks := fun t' ht' => ?_ }
  · rw [agentEnd_gateway (congrArg messages send_incoming), hend]
    split_ifs
    · exact (h.pair.swap.reply hold (hmethod response hphase)).swap
    · exact (h.pair.swap.dropReply (by rw [hold]; exact Multiset.le_cons_self _ _)).swap
  · rcases List.mem_or_eq_of_mem_set ht' with ht' | rfl
    · exact h.tasks t' ht'
    · exact ⟨htid, fun r hr => by cases hr⟩

/-- The writer loses frames only. -/
theorem writerStep_spec {c c' : Channel} {a : WriterAct} (h : c.writerStep a = some c') :
    c'.outgoing.Sublist c.outgoing ∧ messages c'.incoming = messages c.incoming := by
  cases a with
  | fails =>
    unfold Channel.writerStep at h
    cases hwriter : c.writer with
    | running =>
      cases hout : c.outgoing with
      | nil =>
        simp only [hwriter, hout] at h
        cases h
      | cons value outgoing =>
        simp only [hwriter, hout] at h
        cases h
        exact ⟨List.sublist_cons_self _ _, (messages_concat _ _).trans (List.append_nil _)⟩
    | failing | gone =>
      simp only [hwriter] at h
      cases h
  | ends =>
    unfold Channel.writerStep at h
    split_ifs at h
    cases h
    exact ⟨List.nil_sublist _, rfl⟩

theorem linkInv_gateway {a : AgentConn.Act} {g : AgentConn.State} (h : LinkInv s) (hown : gatewayOwn a = true)
    (hs : AgentConn.step hasHandler s.gateway a = some g) : LinkInv { s with gateway := g } := by
  cases a with
  | invoke method params =>
    cases hs
    exact { h with pair := h.pair.append rfl rfl rfl rfl }
  | call i => exact linkInv_call h hs
  | notify method params =>
    cases hs
    exact linkInv_notify h
  | close => cases hown
  | closer k =>
    have hnone : AgentConn.closeStep s.gateway k = none := by
      rw [AgentConn.closeStep, h.closers]
      rfl
    rw [AgentConn.step, hnone] at hs
    cases hs
  | cancelReader =>
    rw [AgentConn.step, h.aborted] at hs
    cases hs
  | cancelWriter =>
    rw [AgentConn.step, h.aborted] at hs
    cases hs
  | read => exact linkInv_read h hs
  | handled k skills =>
    obtain ⟨t, ht, hs⟩ := Option.bind_eq_some_iff.mp hs
    split at hs
    · cases hs
      exact linkInv_handled h ht ‹_› rfl
    · cases hs
  | respond k =>
    obtain ⟨t, ht, hs⟩ := Option.bind_eq_some_iff.mp hs
    split at hs
    · cases hs
      exact linkInv_respond h ht ‹_›
    · cases hs
  | arrive ev =>
    cases hs
    have hforeign : messages [ev] = [] := by
      cases ev with
      | message value => cases hown
      | malformedMessage reason => rfl
      | disconnected => rfl
    refine { h with pair := ?_ }
    rw [agentEnd_gateway (messages_foreign hforeign)]
    exact h.pair
  | writer w =>
    obtain ⟨chan, hchan, rfl⟩ := Option.map_eq_some_iff.mp hs
    obtain ⟨hout, hin⟩ := writerStep_spec hchan
    refine { h with pair := ?_ }
    rw [agentEnd_gateway hin]
    exact h.pair.lose (add_le_add_left (Multiset.coe_le.mpr hout.subperm) _)

/-! Steps of the agent -/

theorem linkInv_agentCall {i : ℕ} {a : AgentChannel.State} (h : LinkInv s)
    (hs : AgentChannel.callStep s.agent i = some a) :
    LinkInv { s with agent := a } := by
  obtain ⟨⟨calls, frame⟩, hstep, rfl⟩ := Option.map_eq_some_iff.mp hs
  obtain ⟨call, hcall, hmove⟩ := Calls.step_move hstep
  have hpair := (h.pair.swap.move hcall hmove).swap
  refine { h with pair := ?_ }
  cases frame with
  | none => exact hpair
  | some f =>
    have haccepts : s.agent.chan.accepts = true := by
      cases hmove with
      | sends _ haccepts => exact haccepts
    have hend := agentEnd_send s { s.agent with chan := s.agent.chan.send f } f rfl rfl rfl
    rw [if_pos haccepts] at hend
    have hcallsEnd : ∀ unanswered, agentEnd { s with agent :=
        { s.agent with calls := calls, chan := s.agent.chan.send f, unanswered := unanswered } } =
        { agentEnd s with calls := calls, queue := f ::ₘ (agentEnd s).queue } :=
      fun _ => congrArg (fun e : End String => { e with calls := calls }) hend
    have hgateway : ∀ unanswered, gatewayEnd { s with agent :=
        { s.agent with calls := calls, chan := s.agent.chan.send f, unanswered := unanswered } } = gatewayEnd s :=
      fun _ => gatewayEnd_agent (congrArg messages send_incoming)
    dsimp only [Option.map_some, Option.getD_some]
    rw [hcallsEnd, hgateway]
    exact hpair

theorem linkInv_event {method : String} {params : Value} (h : LinkInv s) :
    LinkInv { s with agent := { s.agent with chan := s.agent.chan.send (buildRpcNotification method params) } } := by
  obtain ⟨hmethod, hid⟩ := notification_keys method params
  have hframe : frameId (buildRpcNotification method params) = none := by rw [frameId, hid]; rfl
  have hend := agentEnd_send s { s.agent with chan := s.agent.chan.send (buildRpcNotification method params) }
    (buildRpcNotification method params) rfl rfl rfl
  refine { h with pair := ?_ }
  rw [gatewayEnd_agent (congrArg messages send_incoming), hend]
  split_ifs
  · exact (h.pair.swap.notify hmethod hframe).swap
  · exact h.pair

theorem downQueue_cons {ev : Event} {incoming : List Event} (hin : s.agent.chan.incoming = ev :: incoming) :
    (gatewayEnd s).queue = ↑(messages [ev]) +
      (gatewayEnd { s with agent := { s.agent with chan := { s.agent.chan with incoming := incoming } } }).queue := by
  unfold gatewayEnd
  dsimp only
  rw [hin, messages_cons, ← Multiset.coe_add]
  exact add_left_comm _ _ _

theorem linkInv_receiveFrame {value : Value} {incoming : List Event} {a : AgentChannel.State} (h : LinkInv s)
    (hloop : s.agent.loop = .receiving) (hin : s.agent.chan.incoming = .message value :: incoming)
    (hs : AgentChannel.receiveStep s.agent = some a) : LinkInv { s with agent := a } := by
  have hserving : (agentEnd s).serving = 0 := by simp only [agentEnd, hloop, loopServing]
  have hreplying : (agentEnd s).replying = 0 := by simp only [agentEnd, hloop, loopReplying]
  have hqueue : (gatewayEnd s).queue = value ::ₘ
      (gatewayEnd { s with agent := { s.agent with chan := { s.agent.chan with incoming := incoming } } }).queue := by
    rw [downQueue_cons hin]
    exact Multiset.singleton_add _ _
  unfold AgentChannel.receiveStep at hs
  simp only [hin] at hs
  cases hresolve : AgentChannel.tryResolvePending s.agent.calls value with
  | some found =>
    obtain ⟨id, calls⟩ := found
    obtain ⟨i, hid, hlookup, rfl⟩ := AgentChannel.tryResolvePending_some hresolve
    obtain ⟨i', hlookup', hpair⟩ := h.pair.respond hqueue rfl hid
    obtain rfl := Option.some.inj (hlookup.symm.trans hlookup')
    simp only [hresolve] at hs
    cases hs
    exact { h with pair := hpair }
  | none =>
    simp only [hresolve] at hs
    cases hs
    have hrequest := h.pair.request_of_unmatched hqueue rfl (AgentChannel.tryResolvePending_none hresolve)
    have hpair := h.pair.take hqueue hrequest
    simp only [hserving, hreplying] at hpair
    refine { h with pair := hpair, handling := fun frame id method params hset => ?_, responding := fun r hset => ?_ }
    · cases hset
      rfl
    · cases hset

theorem linkInv_receive {a : AgentChannel.State} (h : LinkInv s) (hloop : s.agent.loop = .receiving)
    (hs : AgentChannel.receiveStep s.agent = some a) : LinkInv { s with agent := a } := by
  cases hin : s.agent.chan.incoming with
  | nil =>
    rw [AgentChannel.receiveStep, hin] at hs
    cases hs
  | cons ev incoming =>
    have hskip : messages [ev] = [] →
        gatewayEnd { s with agent := { s.agent with chan := { s.agent.chan with incoming := incoming } } } =
          gatewayEnd s := by
      intro hforeign
      refine gatewayEnd_agent ?_
      rw [hin, messages_cons, hforeign, List.nil_append]
    have hidle : agentEnd s = { agentEnd s with serving := 0, replying := 0 } := by
      unfold agentEnd
      dsimp only
      rw [hloop]
      rfl
    cases ev with
    | message value => exact linkInv_receiveFrame h hloop hin hs
    | malformedMessage reason =>
      rw [AgentChannel.receiveStep, hin] at hs
      cases hs
      obtain ⟨hmethod, hid⟩ := parseErrorFrame_keys reason
      have hnobody : responseId (parseErrorFrame reason) = none := by
        rw [responseId_of_not_hasMethod hmethod, frameId, hid]
        rfl
      have hpair := h.pair
      rw [hidle, ← hskip rfl] at hpair
      have hjunk := hpair.junk hnobody
      refine { h with pair := hjunk, handling := fun frame id method params hset => ?_, responding := fun r hset => ?_ }
      · cases hset
      · cases hset
        exact hmethod
    | disconnected =>
      rw [AgentChannel.receiveStep, hin] at hs
      cases hs
      have hpair := h.pair
      rw [hidle, ← hskip rfl] at hpair
      refine { h with pair := hpair, handling := fun frame id method params hset => ?_, responding := fun r hset => ?_ }
      · cases hset
      · cases hset

theorem linkInv_answered {frame id params : Value} {method : String} {answer : Except ChannelError Value} {response : Value}
    (h : LinkInv s) (hloop : s.agent.loop = .handling frame (some id) method params)
    (hresponse : response = agentResponse id (dispatch answer method)) :
    LinkInv { s with agent := { s.agent with
      loop := .responding response, handled := s.agent.handled ++ [(frame, response)] } } := by
  obtain ⟨hmethod, hid⟩ := agentResponse_keys id (dispatch answer method)
  rw [← hresponse] at hmethod hid
  have hanswer : responseId response = frameId frame := by
    rw [responseId_of_not_hasMethod hmethod, frameId, frameId, hid, h.handling frame (some id) method params hloop]
  have hserving : (agentEnd s).serving = frame ::ₘ 0 := by
    simp only [agentEnd, hloop, loopServing]
    rfl
  have hreplying : (agentEnd s).replying = 0 := by simp only [agentEnd, hloop, loopReplying]
  have hpair := h.pair.complete hserving hanswer
  rw [hreplying] at hpair
  refine { h with pair := hpair, handling := fun f id' m ps hset => ?_, responding := fun r hset => ?_ }
  · cases hset
  · cases hset
    exact hmethod

theorem linkInv_agentRespond {response : Value} {loop : AgentChannel.Loop} (h : LinkInv s)
    (hloop : s.agent.loop = .responding response) (hnext : loop = .receiving ∨ loop = .leaving) :
    LinkInv { s with agent := { s.agent with chan := s.agent.chan.send response, loop := loop } } := by
  have hreplying : (agentEnd s).replying = response ::ₘ 0 := by
    simp only [agentEnd, hloop, loopReplying]
    rfl
  have hserving : (agentEnd s).serving = 0 := by simp only [agentEnd, hloop, loopServing]
  have hidle : loopServing loop = 0 ∧ loopReplying loop = 0 := by
    rcases hnext with rfl | rfl
    · exact ⟨rfl, rfl⟩
    · exact ⟨rfl, rfl⟩
  have hend := agentEnd_send s { s.agent with chan := s.agent.chan.send response, loop := loop } response rfl rfl rfl
  dsimp only at hend
  rw [hidle.1, hidle.2, ← hserving] at hend
  refine { h with pair := ?_, handling := fun f id m ps hset => ?_, responding := fun r hset => ?_ }
  · rw [gatewayEnd_agent (congrArg messages send_incoming), hend]
    split_ifs
    · have hpair := h.pair.reply hreplying (h.responding response hloop)
      rw [← hserving] at hpair
      exact hpair
    · have hpair := h.pair.dropReply (m := 0) (Multiset.zero_le _)
      rw [← hserving] at hpair
      exact hpair
  · rcases hnext with rfl | rfl
    · cases hset
    · cases hset
  · rcases hnext with rfl | rfl
    · cases hset
    · cases hset

theorem linkInv_agent {a : AgentChannel.Act} {c : AgentChannel.State} (h : LinkInv s) (hown : agentOwn a = true)
    (hs : AgentChannel.step s.agent a = some c) : LinkInv { s with agent := c } := by
  cases a with
  | request blocking method params =>
    cases hs
    exact { h with pair := (h.pair.swap.append rfl rfl rfl rfl).swap }
  | call i => exact linkInv_agentCall h hs
  | event method params =>
    cases hs
    exact linkInv_event h
  | receive =>
    dsimp only [AgentChannel.step] at hs
    split at hs
    · exact linkInv_receive h ‹_› hs
    · cases hs
  | handled answer =>
    dsimp only [AgentChannel.step] at hs
    split at hs
    · rename_i frame id method params hloop
      cases id with
      | none =>
        cases hs
        have hpair := h.pair.forget (m := 0) (Multiset.zero_le _)
        have hreplying : (agentEnd s).replying = 0 := by simp only [agentEnd, hloop, loopReplying]
        simp only [hreplying] at hpair
        refine { h with pair := hpair, handling := fun f id m ps hset => ?_, responding := fun r hset => ?_ }
        · cases hset
        · cases hset
      | some id =>
        cases hs
        exact linkInv_answered h hloop rfl
    · cases hs
  | respond =>
    dsimp only [AgentChannel.step] at hs
    split at hs
    · rename_i response hloop
      cases hs
      refine linkInv_agentRespond h hloop ?_
      split_ifs
      · exact Or.inl rfl
      · exact Or.inr rfl
    · cases hs
  | shutdown =>
    dsimp only [AgentChannel.step] at hs
    split at hs
    · rename_i hloop
      cases hs
      have hend : agentEnd { s with agent := { s.agent with loop := .returned } } = agentEnd s := by
        simp only [agentEnd, hloop, loopServing, loopReplying]
      refine { h with pair := hend ▸ h.pair, handling := fun f id m ps hset => ?_, responding := fun r hset => ?_ }
      · cases hset
      · cases hset
    · cases hs
  | arrive ev =>
    cases hs
    have hforeign : messages [ev] = [] := by
      cases ev with
      | message value => cases hown
      | malformedMessage reason => rfl
      | disconnected => rfl
    refine { h with pair := ?_ }
    rw [gatewayEnd_agent (messages_foreign hforeign)]
    exact h.pair
  | writer w =>
    obtain ⟨chan, hchan, rfl⟩ := Option.map_eq_some_iff.mp hs
    obtain ⟨hout, hin⟩ := writerStep_spec hchan
    refine { h with pair := ?_ }
    rw [gatewayEnd_agent hin]
    exact (h.pair.swap.lose (add_le_add_left (Multiset.coe_le.mpr hout.subperm) _)).swap

/-! What is written on one side arrives at the other -/

theorem write_spec {c c' : Channel} {value : Value} (h : c.write = some (value, c')) :
    ∃ outgoing, c.outgoing = value :: outgoing ∧ c' = { c with outgoing := outgoing } := by
  unfold Channel.write at h
  split at h
  · rename_i hout
    cases h
    exact ⟨_, hout, rfl⟩
  · cases h

theorem deliver_queue (value : Value) (outgoing : List Value) (events : List Event) :
    (outgoing : Multiset Value) + ↑(messages (events ++ [.message value])) =
      ↑(value :: outgoing) + ↑(messages events) := by
  have hvalue : messages (events ++ [.message value]) = messages events ++ [value] := messages_concat events _
  rw [hvalue, add_comm, coe_concat, add_comm, ← Multiset.cons_coe, Multiset.cons_add]

theorem linkInv_toAgent {value : Value} {chan : Channel} (h : LinkInv s)
    (hwrite : s.gateway.chan.write = some (value, chan)) :
    LinkInv
      { gateway := { s.gateway with chan := chan }
        agent := { s.agent with chan := s.agent.chan.arrive (.message value) } } := by
  obtain ⟨outgoing, hout, rfl⟩ := write_spec hwrite
  have hend : gatewayEnd
      { gateway := { s.gateway with chan := { s.gateway.chan with outgoing := outgoing } }
        agent := { s.agent with chan := s.agent.chan.arrive (.message value) } } = gatewayEnd s := by
    unfold gatewayEnd
    dsimp only [Channel.arrive]
    rw [deliver_queue, hout]
  exact { h with pair := hend ▸ h.pair }

theorem linkInv_toGateway {value : Value} {chan : Channel} (h : LinkInv s)
    (hwrite : s.agent.chan.write = some (value, chan)) :
    LinkInv
      { gateway := { s.gateway with chan := s.gateway.chan.arrive (.message value) }
        agent := { s.agent with chan := chan } } := by
  obtain ⟨outgoing, hout, rfl⟩ := write_spec hwrite
  have hend : agentEnd
      { gateway := { s.gateway with chan := s.gateway.chan.arrive (.message value) }
        agent := { s.agent with chan := { s.agent.chan with outgoing := outgoing } } } = agentEnd s := by
    unfold agentEnd
    dsimp only [Channel.arrive]
    rw [deliver_queue, hout]
  exact { h with pair := hend ▸ h.pair }

theorem linkInv_step {a : Act} (h : LinkInv s) (hs : step hasHandler s a = some s') : LinkInv s' := by
  cases a with
  | gateway a =>
    rw [step] at hs
    split_ifs at hs with hown
    obtain ⟨g, hg, rfl⟩ := Option.map_eq_some_iff.mp hs
    exact linkInv_gateway h hown hg
  | agent a =>
    rw [step] at hs
    split_ifs at hs with hown
    obtain ⟨c, hc, rfl⟩ := Option.map_eq_some_iff.mp hs
    exact linkInv_agent h hown hc
  | toAgent =>
    obtain ⟨⟨value, chan⟩, hwrite, rfl⟩ := Option.map_eq_some_iff.mp hs
    exact linkInv_toAgent h hwrite
  | toGateway =>
    obtain ⟨⟨value, chan⟩, hwrite, rfl⟩ := Option.map_eq_some_iff.mp hs
    exact linkInv_toGateway h hwrite

theorem linkInv_init : LinkInv init where
  pair := by
    have hflow : ∀ {α β : Type} {A : End α} {B : End β} {read : Value → Except α Value}
      {others : Except α Value → Prop},
        A.calls = .new → items A B = 0 → Flow A B read others := by
      intro α β A B read others hcalls hitems
      refine ⟨hcalls ▸ callsOk_new, ?_, ?_, ?_⟩
      · rw [hcalls, hitems]
        refine ⟨fun x hx => ?_, Multiset.nodup_zero, fun i call id hcall => ?_, fun _ i call id hcall => ?_⟩
        · cases Multiset.notMem_zero x hx
        · cases hcall
        · cases hcall
      · rw [hcalls]
        intro i r hmem
        cases hmem
      · rw [hcalls]
        refine ⟨fun i call r hcall => ?_, fun i call r hcall => ?_⟩
        · cases hcall
        · cases hcall
    exact ⟨hflow rfl rfl, hflow rfl rfl⟩
  tasks := fun t ht => by cases ht
  handling := fun frame id method params hset => by cases hset
  responding := fun response hset => by cases hset
  closers := rfl
  aborted := rfl

/-! The results of the calls -/

/-- `r` is the reading of what the other side answered to the request of `call`. -/
def AnswerTo (handled : List (Value × Value)) (read : Value → Except ε Value) (call : Call ε)
    (r : Except ε Value) : Prop :=
  ∃ (id : UInt64) (response : Value), call.id = some id ∧ (call.frame id, response) ∈ handled ∧ r = read response

/-- No two requests have one id, no sender is used twice, and apart from `others` and the callers'
own error every result is an answer to that very request. -/
structure Correlated (calls : Calls ε) (handled : List (Value × Value)) (read : Value → Except ε Value)
    (others : Except ε Value → Prop) (closedError : ε) : Prop where
  ids : ∀ (i j : ℕ) (call call' : Call ε) (id : UInt64), calls.calls[i]? = some call →
    calls.calls[j]? = some call' →
    call.id = some id → call'.id = some id → i = j
  once : (calls.resolved.map (·.1)).Nodup
  resolved : ∀ (i : ℕ) (r : Except ε Value), (i, r) ∈ calls.resolved → others r ∨
    ∃ call : Call ε, calls.calls[i]? = some call ∧ AnswerTo handled read call r
  returned : ∀ (i : ℕ) (call : Call ε) (r : Except ε Value), calls.calls[i]? = some call →
    call.phase = .returned r →
    r = .error closedError ∨ others r ∨ AnswerTo handled read call r

theorem Flow.correlated (h : Flow A B read others) : Correlated A.calls B.handled read others A.closedError := by
  have hresolved : ∀ (i : ℕ) (r : Except ε Value), (i, r) ∈ A.calls.resolved → others r ∨
      ∃ call : Call ε, A.calls.calls[i]? = some call ∧ AnswerTo B.handled read call r := by
    intro i r hmem
    rcases h.answers i r hmem with hother | ⟨call, id, f, hcall, hrest⟩
    · exact Or.inl hother
    · exact Or.inr ⟨call, hcall, id, f, hrest⟩
  refine ⟨h.calls.unique, h.calls.once, hresolved, fun i call r hcall hphase => ?_⟩
  rcases h.returns.returned i call r hcall hphase with hclosed | hslot
  · exact Or.inl hclosed
  · rcases hresolved i r (h.returns.slot i call r hcall hslot) with hother | ⟨call', hcall', hanswer⟩
    · exact Or.inr (Or.inl hother)
    · obtain rfl := Option.some.inj (hcall.symm.trans hcall')
      exact Or.inr (Or.inr hanswer)

/-- Both directions number their requests from 1 and share the connection. -/
theorem requests_get_their_own_answers {es : List Act} (hrun : run (step hasHandler) init es = some s) :
    Correlated s.gateway.calls s.agent.handled gatewayResult (· = .error .closed) .closed ∧
      Correlated s.agent.calls s.gateway.handled agentResult (fun _ => False) AgentChannel.connectionClosed := by
  have h : LinkInv s := run_inv_all LinkInv (fun s e s' hi hs => linkInv_step hi hs) linkInv_init hrun
  exact ⟨h.pair.ask.correlated, h.pair.serve.correlated⟩

/-- A request of either side, both with the id 1; the gateway's is answered first. -/
def crossedRun : List Act :=
  [.gateway (.invoke "process/read" none), .agent (.request true "skills/list" .nil),
    .gateway (.call 0), .gateway (.call 0), .agent (.call 0), .gateway (.call 0), .agent (.call 0), .agent (.call 0),
    .gateway (.call 0), .toAgent, .toGateway, .gateway .read, .agent .receive,
    .agent (.handled (.ok (.string "output"))), .agent .respond, .toGateway, .gateway .read, .gateway (.call 0),
    .gateway (.handled 0 (.ok (.string "skills"))), .gateway (.respond 0), .toAgent, .agent .receive, .agent (.call 0)]

theorem crossedRun_gets_its_own_answers :
    ∃ s, run (step true) init crossedRun = some s ∧
      s.gateway.calls.resolved = [(0, .ok (.string "output"))] ∧ s.agent.calls.resolved = [(0, .ok (.string "skills"))] ∧
      Correlated s.gateway.calls s.agent.handled gatewayResult (· = .error .closed) .closed ∧
      Correlated s.agent.calls s.gateway.handled agentResult (fun _ => False) AgentChannel.connectionClosed := by
  have hrun : ∃ s, run (step true) init crossedRun = some s ∧
      s.gateway.calls.resolved = [(0, .ok (.string "output"))] ∧
        s.agent.calls.resolved = [(0, .ok (.string "skills"))] := by
    refine ⟨_, rfl, ?_, ?_⟩
    · rfl
    · rfl
  obtain ⟨s, hrun, hgateway, hagent⟩ := hrun
  exact ⟨s, hrun, hgateway, hagent, requests_get_their_own_answers hrun⟩

end Nexal.Link
