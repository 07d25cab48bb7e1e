import Nexal.Lib.Lists
import Nexal.Spec.Debounce

/-! What holds at every await of the debouncer's loop, and where the messages it has accepted are. -/

namespace Nexal.Debounce

open Runs

theorem mergeMessages_eq_none {batch : List IncomingMessage} (h : mergeMessages batch = none) : batch = [] := by
  cases batch with
  | nil => rfl
  | cons m ms =>
    cases ms with
    | nil => cases h
    | cons m' ms => cases h

theorem HandlerCall.batch_ne_nil (call : HandlerCall) : call.batch ≠ [] := by
  intro h
  have := call.merges
  rw [h] at this
  cases this

theorem handlerCall_none {batch : List IncomingMessage} (h : handlerCall batch = none) : batch = [] := by
  rw [handlerCall] at h
  split at h
  · cases h
  · rename_i hmerge
    exact mergeMessages_eq_none hmerge

theorem handlerCall_some {batch : List IncomingMessage} {call : HandlerCall} (h : handlerCall batch = some call) :
    call.batch = batch ∧ call.state = .running := by
  rw [handlerCall] at h
  split at h
  · cases h
    exact ⟨rfl, rfl⟩
  · cases h

namespace Phase

/-- The tickets on which the loop waits in `take`. -/
def waiting : Phase → List ℕ
  | .taking ticket none => [ticket]
  | _ => []

/-- Nothing has resolved the await. -/
def blocked : Phase → Bool
  | .taking _ none | .racing _ _ none => true
  | _ => false

def ended : Phase → Bool
  | .taking _ (some none) | .flushing _ | .done => true
  | _ => false

/-- There is no batch. -/
def idle : Phase → Bool
  | .taking _ _ | .handling _ => true
  | _ => false

def isRacing : Phase → Bool
  | .racing _ _ _ => true
  | _ => false

def awaited : Phase → Option ℕ
  | .handling k | .flushing k => some k
  | _ => none

def inHand : Phase → List IncomingMessage
  | .taking _ (some (some msg)) => [msg]
  | _ => []

/-- The batch, unless it is the handler's already. -/
def batch (pending : List IncomingMessage) : Phase → List IncomingMessage
  | .flushing _ | .done => []
  | _ => pending

end Phase

def State.dispatched (s : State) : List IncomingMessage := s.calls.flatMap (·.batch)

/-- The accepted messages the handler has not been called with yet: in the batch, in hand, in the queue. -/
def State.undispatched (s : State) : List IncomingMessage :=
  s.phase.batch s.pending ++ s.phase.inHand ++ s.queue.items

def State.content (s : State) : List IncomingMessage := s.dispatched ++ s.undispatched

structure Inv (s : State) : Prop where
  waiters : s.queue.waiters = s.phase.waiting
  blocked : s.phase.blocked = true → s.queue.items = [] ∧ s.queue.closed = false
  ended : s.phase.ended = true → s.queue.items = [] ∧ s.queue.closed = true
  idle : s.phase.idle = true → s.pending = [] ∧ s.deadline = none
  racing : s.phase.isRacing = true → s.pending ≠ [] ∧ s.deadline ≠ none
  wakes : ∀ t remaining, s.phase = .racing t remaining none → t ∈ s.queue.readyWakers
  running : ∀ (k : ℕ) (call : HandlerCall), s.calls[k]? = some call → call.state = .running →
    s.phase.awaited = some k
  called : ∀ k, s.phase.awaited = some k → k < s.calls.length
  resolved : true ∈ s.shutdowns → s.phase = .done

/-- What of it holds at the top of the loop. -/
structure AtTop (s : State) : Prop where
  waiters : s.queue.waiters = []
  batch : s.deadline = none ↔ s.pending = []
  running : ∀ (k : ℕ) (call : HandlerCall), s.calls[k]? = some call → call.state ≠ .running
  resolved : true ∉ s.shutdowns

namespace AsyncQueue

variable {T : Type} {q : AsyncQueue T} {ticket : ℕ}

theorem take_cons {v : T} {items : List T} (h : q.items = v :: items) :
    q.take ticket = ({ q with items := items }, some (some v)) := by
  simp only [take, h]

theorem take_closed (h : q.items = []) (hclosed : q.closed = true) : q.take ticket = (q, some none) := by
  simp only [take, h, hclosed, if_true]

theorem take_nil (h : q.items = []) (hclosed : q.closed = false) :
    q.take ticket = ({ q with waiters := q.waiters ++ [ticket] }, none) := by
  simp only [take, h, hclosed, Bool.false_eq_true, if_false]

end AsyncQueue

variable {config : DebounceConfig} {s s' : State} {now : ℤ}

/-- An await of the loop at which no handler runs. -/
theorem AtTop.inv (h : AtTop s) {queue : AsyncQueue IncomingMessage} {phase : Phase} {nextTicket : ℕ}
    (hwaiters : queue.waiters = phase.waiting)
    (hblocked : phase.blocked = true → queue.items = [] ∧ queue.closed = false)
    (hended : phase.ended = true → queue.items = [] ∧ queue.closed = true)
    (hidle : phase.idle = true → s.pending = [] ∧ s.deadline = none)
    (hracing : phase.isRacing = true → s.pending ≠ [] ∧ s.deadline ≠ none)
    (hwakes : ∀ t remaining, phase = .racing t remaining none → t ∈ queue.readyWakers)
    (hawaited : phase.awaited = none) :
    Inv { s with queue := queue, phase := phase, nextTicket := nextTicket } where
  waiters := hwaiters
  blocked := hblocked
  ended := hended
  idle := hidle
  racing := hracing
  wakes := hwakes
  running := fun k call hk hr => absurd hr (h.running k call hk)
  called := by simp [hawaited]
  resolved := fun hr => absurd hr h.resolved

theorem loop_none {queue : AsyncQueue IncomingMessage} {got : Option (Option IncomingMessage)}
    (h : s.deadline = none) (htake : s.queue.take s.nextTicket = (queue, got)) :
    s.loop now = { s with queue := queue, phase := .taking s.nextTicket got, nextTicket := s.nextTicket + 1 } := by
  simp only [State.loop, h, htake]

theorem loop_some {deadline : ℤ} {queue : AsyncQueue IncomingMessage} {ready : Bool} (h : s.deadline = some deadline)
    (hready : s.queue.whenReady s.nextTicket = (queue, ready)) :
    s.loop now = { s with
      queue := queue
      phase := .racing s.nextTicket (max 0 (deadline - now)) (if ready then some .ready else none)
      nextTicket := s.nextTicket + 1 } := by
  simp only [State.loop, h, hready]

/-- The loop goes to its next await, and nothing gets lost on the way. -/
theorem loop_spec (h : AtTop s) (now : ℤ) : Inv (s.loop now) ∧
    (s.loop now).content = s.dispatched ++ s.pending ++ s.queue.items ∧
    (s.loop now).queue.closed = s.queue.closed := by
  cases hdeadline : s.deadline with
  | none =>
    have hpending := h.batch.mp hdeadline
    cases hitems : s.queue.items with
    | nil =>
      cases hclosed : s.queue.closed with
      | true =>
        rw [loop_none hdeadline (AsyncQueue.take_closed hitems hclosed)]
        refine ⟨h.inv h.waiters ?_ (fun _ => ⟨hitems, hclosed⟩) (fun _ => ⟨hpending, hdeadline⟩) ?_ ?_ rfl,
          ?_, hclosed⟩
        · simp [Phase.blocked]
        · simp [Phase.isRacing]
        · simp
        · simp [State.content, State.dispatched, State.undispatched, Phase.batch, Phase.inHand, hitems]
      | false =>
        rw [loop_none hdeadline (AsyncQueue.take_nil hitems hclosed)]
        refine ⟨h.inv ?_ (fun _ => ⟨hitems, hclosed⟩) ?_ (fun _ => ⟨hpending, hdeadline⟩) ?_ ?_ rfl, ?_, hclosed⟩
        · simp [h.waiters, Phase.waiting]
        · simp [Phase.ended]
        · simp [Phase.isRacing]
        · simp
        · simp [State.content, State.dispatched, State.undispatched, Phase.batch, Phase.inHand, hitems]
    | cons msg items =>
      rw [loop_none hdeadline (AsyncQueue.take_cons hitems)]
      refine ⟨h.inv h.waiters ?_ ?_ (fun _ => ⟨hpending, hdeadline⟩) ?_ ?_ rfl, ?_, rfl⟩
      · simp [Phase.blocked]
      · simp [Phase.ended]
      · simp [Phase.isRacing]
      · simp
      · simp [State.content, State.dispatched, State.undispatched, Phase.batch, Phase.inHand]
  | some deadline =>
    have hpending : s.pending ≠ [] := by
      intro hnil
      rw [h.batch.mpr hnil] at hdeadline
      cases hdeadline
    by_cases hready : 0 < s.queue.items.length ∨ s.queue.closed = true
    · rw [loop_some hdeadline (if_pos hready)]
      refine ⟨h.inv h.waiters ?_ ?_ ?_ (fun _ => ⟨hpending, by simp [hdeadline]⟩) ?_ rfl, ?_, rfl⟩
      · simp [Phase.blocked]
      · simp [Phase.ended]
      · simp [Phase.idle]
      · simp
      · simp [State.content, State.dispatched, State.undispatched, Phase.batch, Phase.inHand]
    · obtain ⟨hitems, hclosed⟩ := not_or.mp hready
      have hitems : s.queue.items = [] := List.length_eq_zero_iff.mp (Nat.eq_zero_of_not_pos hitems)
      have hclosed : s.queue.closed = false := Bool.eq_false_iff.mpr hclosed
      rw [loop_some hdeadline (if_neg hready)]
      refine ⟨h.inv h.waiters (fun _ => ⟨hitems, hclosed⟩) ?_ ?_
        (fun _ => ⟨hpending, by simp [hdeadline]⟩) ?_ rfl, ?_, rfl⟩
      · simp [Phase.ended]
      · simp [Phase.idle]
      · intro t remaining ht
        cases ht
        exact List.mem_append_right _ List.mem_cons_self
      · simp [State.content, State.dispatched, State.undispatched, Phase.batch, Phase.inHand]

theorem add_spec (msg : IncomingMessage) (hwaiters : s.queue.waiters = [])
    (hrunning : ∀ (k : ℕ) (call : HandlerCall), s.calls[k]? = some call → call.state ≠ .running)
    (hresolved : true ∉ s.shutdowns) :
    Inv (s.add config msg now) ∧
      (s.add config msg now).content = s.dispatched ++ s.pending ++ [msg] ++ s.queue.items ∧
      (s.add config msg now).queue.closed = s.queue.closed := by
  have htop : AtTop { s with
      lastMentionedAt := (nextDelayMs config msg s.lastMentionedAt now).2
      deadline := some (now + (nextDelayMs config msg s.lastMentionedAt now).1)
      pending := s.pending ++ [msg] } := ⟨hwaiters, by simp, hrunning, hresolved⟩
  obtain ⟨hinv, hcontent, hclosed⟩ := loop_spec htop now
  refine ⟨hinv, hcontent.trans ?_, hclosed⟩
  simp [State.dispatched]

theorem Inv.not_resolved (h : Inv s) (hphase : s.phase ≠ .done) : true ∉ s.shutdowns :=
  fun hr => hphase (h.resolved hr)

theorem Inv.not_running (h : Inv s) (hphase : s.phase.awaited = none) :
    ∀ (k : ℕ) (call : HandlerCall), s.calls[k]? = some call → call.state ≠ .running := by
  intro k call hk hr
  have := h.running k call hk hr
  rw [hphase] at this
  cases this

/-- Once the handler call that is awaited is over, none runs. -/
theorem Inv.over {k : ℕ} (h : Inv s) (hphase : s.phase.awaited = some k) (hreturned : s.returned k = true) :
    ∀ (j : ℕ) (call : HandlerCall), s.calls[j]? = some call → call.state ≠ .running := by
  intro j call hj hr
  have hjk := h.running j call hj hr
  rw [hphase] at hjk
  cases hjk
  simp [State.returned, hj, hr] at hreturned

theorem running_concat {calls : List HandlerCall} {call c : HandlerCall} {k : ℕ}
    (hrunning : ∀ (k : ℕ) (call : HandlerCall), calls[k]? = some call → call.state ≠ .running)
    (hk : (calls ++ [call])[k]? = some c) (hr : c.state = .running) : k = calls.length := by
  rw [Lists.getElem?_concat] at hk
  split_ifs at hk with hlast
  · exact hlast
  · exact absurd hr (hrunning k c hk)

/-- The batch goes to the handler because the timer fired. -/
theorem handling_spec {call : HandlerCall} {t : ℕ} {remaining : ℤ} {race : Option Race} (h : Inv s)
    (hphase : s.phase = .racing t remaining race) (hcall : handlerCall s.pending = some call) :
    Inv { s with pending := [], deadline := none, calls := s.calls ++ [call], phase := .handling s.calls.length } ∧
      State.content { s with
        pending := [], deadline := none, calls := s.calls ++ [call], phase := .handling s.calls.length } = s.content := by
  have hwaiters := h.waiters
  rw [hphase] at hwaiters
  have hrunning := h.not_running (by rw [hphase]; rfl)
  have hresolved := h.not_resolved (by simp [hphase])
  refine ⟨⟨hwaiters, ?_, ?_, fun _ => ⟨rfl, rfl⟩, ?_, ?_, ?_, ?_, fun hr => absurd hr hresolved⟩, ?_⟩
  · simp [Phase.blocked]
  · simp [Phase.ended]
  · simp [Phase.isRacing]
  · simp
  · intro k c hk hr
    rw [running_concat hrunning hk hr, Phase.awaited]
  · simp [Phase.awaited]
  · simp [State.content, State.dispatched, State.undispatched, hphase, (handlerCall_some hcall).1, Phase.batch,
      Phase.inHand]

/-- The batch goes to the handler because the queue is closed and drained. -/
theorem flushing_spec {call : HandlerCall} {t : ℕ} {remaining : ℤ} {race : Option Race} (h : Inv s)
    (hphase : s.phase = .racing t remaining race) (hcall : handlerCall s.pending = some call)
    (hended : s.queue.items = [] ∧ s.queue.closed = true) :
    Inv { s with calls := s.calls ++ [call], phase := .flushing s.calls.length } ∧
      State.content { s with calls := s.calls ++ [call], phase := .flushing s.calls.length } = s.content := by
  have hwaiters := h.waiters
  rw [hphase] at hwaiters
  have hrunning := h.not_running (by rw [hphase]; rfl)
  have hresolved := h.not_resolved (by simp [hphase])
  refine ⟨⟨hwaiters, ?_, fun _ => hended, ?_, ?_, ?_, ?_, ?_, fun hr => absurd hr hresolved⟩, ?_⟩
  · simp [Phase.blocked]
  · simp [Phase.idle]
  · simp [Phase.isRacing]
  · simp
  · intro k c hk hr
    rw [running_concat hrunning hk hr, Phase.awaited]
  · simp [Phase.awaited]
  · simp [State.content, State.dispatched, State.undispatched, hphase, (handlerCall_some hcall).1, Phase.batch,
      Phase.inHand]

/-- The loop returns. -/
theorem done_spec (h : Inv s) (hended : s.phase.ended = true) (hwaiting : s.phase.waiting = [])
    (hrunning : ∀ (k : ℕ) (call : HandlerCall), s.calls[k]? = some call → call.state ≠ .running) :
    Inv { s with phase := .done } ∧ State.content { s with phase := .done } = s.content := by
  have hwaiters := h.waiters
  rw [hwaiting] at hwaiters
  refine ⟨⟨hwaiters, ?_, fun _ => h.ended hended, ?_, ?_, ?_, fun k c hk hr => absurd hr (hrunning k c hk), ?_,
    fun _ => rfl⟩, ?_⟩
  · simp [Phase.blocked]
  · simp [Phase.idle]
  · simp [Phase.isRacing]
  · simp
  · simp [Phase.awaited]
  · cases hphase : s.phase with
    | taking t got =>
      have hidle := h.idle (by rw [hphase]; rfl)
      rw [hphase] at hended
      obtain rfl : got = some none := by
        cases got with
        | none => cases hended
        | some msg =>
          cases msg with
          | none => rfl
          | some msg => cases hended
      simp [State.content, State.dispatched, State.undispatched, hphase, hidle.1, Phase.batch, Phase.inHand]
    | racing t remaining race =>
      rw [hphase] at hended
      cases hended
    | handling k =>
      rw [hphase] at hended
      cases hended
    | flushing k => simp [State.content, State.dispatched, State.undispatched, hphase, Phase.batch, Phase.inHand]
    | done => simp [State.content, State.dispatched, State.undispatched, hphase, Phase.batch, Phase.inHand]

theorem tryTake_cases (q : AsyncQueue IncomingMessage) :
    (∃ msg items, q.items = msg :: items ∧ q.tryTake = ({ q with items := items }, some msg)) ∨
      (q.items = [] ∧ q.tryTake = (q, none)) := by
  cases hitems : q.items with
  | nil => exact Or.inr ⟨rfl, by simp only [AsyncQueue.tryTake, hitems]⟩
  | cons msg items => exact Or.inl ⟨msg, items, rfl, by simp only [AsyncQueue.tryTake, hitems]⟩

/-- Whatever the loop does next, the accepted messages stay where they are or move on in their order. -/
theorem resume_spec (h : Inv s) (hs : s.resume config now = some s') :
    Inv s' ∧ s'.content = s.content ∧ s'.queue.closed = s.queue.closed := by
  cases hphase : s.phase with
  | taking t got =>
    have hidle := h.idle (by rw [hphase]; rfl)
    have hwaiters := h.waiters
    have hrunning := h.not_running (by rw [hphase]; rfl)
    have hresolved := h.not_resolved (by simp [hphase])
    rw [hphase] at hwaiters
    rcases got with - | - | msg
    · simp only [State.resume, hphase] at hs
      cases hs
    · simp only [State.resume, hphase] at hs
      cases hs
      obtain ⟨hinv, hcontent⟩ := done_spec h (by rw [hphase]; rfl) (by rw [hphase]; rfl) hrunning
      exact ⟨hinv, hcontent, rfl⟩
    · simp only [State.resume, hphase] at hs
      cases hs
      obtain ⟨hinv, hcontent, hclosed⟩ := add_spec msg hwaiters hrunning hresolved
      refine ⟨hinv, hcontent.trans ?_, hclosed⟩
      simp [State.content, State.undispatched, hphase, Phase.batch, Phase.inHand]
  | racing t remaining race =>
    have hwaiters := h.waiters
    have hrunning := h.not_running (by rw [hphase]; rfl)
    have hresolved := h.not_resolved (by simp [hphase])
    have hbatch := h.racing (by rw [hphase]; rfl)
    rw [hphase] at hwaiters
    rcases race with - | - | -
    · simp only [State.resume, hphase] at hs
      cases hs
    · simp only [State.resume, hphase] at hs
      rcases tryTake_cases s.queue with ⟨msg, items, hitems, htake⟩ | ⟨hitems, htake⟩
      · simp only [htake] at hs
        cases hs
        obtain ⟨hinv, hcontent, hclosed⟩ := add_spec (s := { s with queue := { s.queue with items := items } }) msg
          hwaiters hrunning hresolved
        refine ⟨hinv, hcontent.trans ?_, hclosed⟩
        simp [State.content, State.dispatched, State.undispatched, hphase, hitems, Phase.batch, Phase.inHand]
      · simp only [htake] at hs
        split_ifs at hs with hclosed
        · cases hcall : handlerCall s.pending with
          | none => exact absurd (handlerCall_none hcall) hbatch.1
          | some call =>
            simp only [hcall] at hs
            cases hs
            obtain ⟨hinv, hcontent⟩ := flushing_spec h hphase hcall ⟨hitems, hclosed⟩
            exact ⟨hinv, hcontent, rfl⟩
        · -- the spurious wake
          cases hs
          have htop : AtTop s := ⟨hwaiters, iff_of_false hbatch.2 hbatch.1, hrunning, hresolved⟩
          obtain ⟨hinv, hcontent, hclosed⟩ := loop_spec htop now
          refine ⟨hinv, hcontent.trans ?_, hclosed⟩
          simp [State.content, State.undispatched, hphase, Phase.batch, Phase.inHand]
    · simp only [State.resume, hphase] at hs
      cases hcall : handlerCall s.pending with
      | none => exact absurd (handlerCall_none hcall) hbatch.1
      | some call =>
        simp only [hcall] at hs
        cases hs
        obtain ⟨hinv, hcontent⟩ := handling_spec h hphase hcall
        exact ⟨hinv, hcontent, rfl⟩
  | handling k =>
    simp only [State.resume, hphase] at hs
    split_ifs at hs with hreturned
    cases hs
    have hidle := h.idle (by rw [hphase]; rfl)
    have hwaiters := h.waiters
    rw [hphase] at hwaiters
    have htop : AtTop s := ⟨hwaiters, iff_of_true hidle.2 hidle.1, h.over (by rw [hphase]; rfl) hreturned,
      h.not_resolved (by simp [hphase])⟩
    obtain ⟨hinv, hcontent, hclosed⟩ := loop_spec htop now
    refine ⟨hinv, hcontent.trans ?_, hclosed⟩
    simp [State.content, State.undispatched, hphase, Phase.batch, Phase.inHand]
  | flushing k =>
    simp only [State.resume, hphase] at hs
    split_ifs at hs with hreturned
    cases hs
    obtain ⟨hinv, hcontent⟩ := done_spec h (by rw [hphase]; rfl) (by rw [hphase]; rfl)
      (h.over (by rw [hphase]; rfl) hreturned)
    exact ⟨hinv, hcontent, rfl⟩
  | done =>
    simp only [State.resume, hphase] at hs
    cases hs

/-! What the queue's operations do to the loop -/

theorem blocked_cases {p : Phase} (h : p.blocked = true) :
    (∃ t, p = .taking t none) ∨ ∃ t remaining, p = .racing t remaining none := by
  cases p with
  | taking t got =>
    cases got with
    | none => exact Or.inl ⟨t, rfl⟩
    | some got => cases h
  | racing t remaining race =>
    cases race with
    | none => exact Or.inr ⟨t, remaining, rfl⟩
    | some race => cases h
  | handling k => cases h
  | flushing k => cases h
  | done => cases h

theorem settle_of_not_blocked {settled : Settled IncomingMessage} (h : s.phase.blocked = false) :
    s.settle settled = s := by
  rw [State.settle]
  split
  · rename_i hphase
    rw [hphase] at h
    cases h
  · rename_i hphase
    rw [hphase] at h
    cases h
  · rfl

theorem waiting_of_not_blocked {p : Phase} (h : p.blocked = false) : p.waiting = [] := by
  cases p with
  | taking t got =>
    cases got with
    | none => cases h
    | some got => rfl
  | _ => rfl

/-- A message accepted while the loop waits for one goes straight to it. -/
theorem process_taking {t : ℕ} {msg : IncomingMessage} (h : Inv s) (hphase : s.phase = .taking t none) :
    Inv (s.process msg) ∧ (s.process msg).content = s.content ++ [msg] ∧ (s.process msg).queue.closed = false := by
  obtain ⟨hitems, hclosed⟩ := h.blocked (by rw [hphase]; rfl)
  have hwaiters := h.waiters
  rw [hphase] at hwaiters
  have hidle := h.idle (by rw [hphase]; rfl)
  have hrunning := h.not_running (by rw [hphase]; rfl)
  have hresolved := h.not_resolved (by simp [hphase])
  have hprocess : s.process msg =
      { s with queue := { s.queue with waiters := [] }, phase := .taking t (some (some msg)) } := by
    simp [State.process, AsyncQueue.push, State.settle, hclosed, hwaiters, hphase, Phase.waiting]
  rw [hprocess]
  refine ⟨⟨rfl, ?_, ?_, fun _ => hidle, ?_, ?_, fun k c hk hr => absurd hr (hrunning k c hk), ?_,
    fun hr => absurd hr hresolved⟩, ?_, hclosed⟩
  · simp [Phase.blocked]
  · simp [Phase.ended]
  · simp [Phase.isRacing]
  · simp
  · simp [Phase.awaited]
  · simp [State.content, State.dispatched, State.undispatched, hphase, hitems, Phase.batch, Phase.inHand]

/-- A message accepted while the loop waits for more, or for the timer, wakes it. -/
theorem process_racing {t : ℕ} {remaining : ℤ} {msg : IncomingMessage} (h : Inv s)
    (hphase : s.phase = .racing t remaining none) :
    Inv (s.process msg) ∧ (s.process msg).content = s.content ++ [msg] ∧ (s.process msg).queue.closed = false := by
  obtain ⟨hitems, hclosed⟩ := h.blocked (by rw [hphase]; rfl)
  have hwaiters := h.waiters
  rw [hphase] at hwaiters
  have hbatch := h.racing (by rw [hphase]; rfl)
  have hwakes := h.wakes t remaining hphase
  have hrunning := h.not_running (by rw [hphase]; rfl)
  have hresolved := h.not_resolved (by simp [hphase])
  have hprocess : s.process msg = { s with
      queue := { s.queue with items := s.queue.items ++ [msg], readyWakers := [] }
      phase := .racing t remaining (some .ready) } := by
    simp [State.process, AsyncQueue.push, State.settle, hclosed, hwaiters, hphase, hwakes, Phase.waiting]
  rw [hprocess]
  refine ⟨⟨hwaiters, ?_, ?_, ?_, fun _ => hbatch, ?_, fun k c hk hr => absurd hr (hrunning k c hk), ?_,
    fun hr => absurd hr hresolved⟩, ?_, hclosed⟩
  · simp [Phase.blocked]
  · simp [Phase.ended]
  · simp [Phase.idle]
  · simp
  · simp [Phase.awaited]
  · simp [State.content, State.dispatched, State.undispatched, hphase, Phase.batch, Phase.inHand]

/-- A message accepted while the loop is elsewhere is queued. -/
theorem process_queued {msg : IncomingMessage} (h : Inv s) (hblocked : s.phase.blocked = false)
    (hclosed : s.queue.closed = false) :
    Inv (s.process msg) ∧ (s.process msg).content = s.content ++ [msg] ∧ (s.process msg).queue.closed = false := by
  have hwaiters := h.waiters.trans (waiting_of_not_blocked hblocked)
  have hprocess : s.process msg =
      { s with queue := { s.queue with items := s.queue.items ++ [msg], readyWakers := [] } } := by
    simp only [State.process, AsyncQueue.push, hclosed, hwaiters, Bool.false_eq_true, if_false]
    exact settle_of_not_blocked hblocked
  rw [hprocess]
  refine ⟨⟨h.waiters, ?_, ?_, h.idle, h.racing, ?_, h.running, h.called, h.resolved⟩, ?_, hclosed⟩
  · intro hb
    rw [hblocked] at hb
    cases hb
  · intro he
    exact absurd (h.ended he).2 (by simp [hclosed])
  · intro t remaining ht
    rw [ht] at hblocked
    cases hblocked
  · simp [State.content, State.dispatched, State.undispatched]

theorem Inv.not_blocked (h : Inv s) (hclosed : s.queue.closed = true) : s.phase.blocked = false := by
  rw [Bool.eq_false_iff]
  intro hb
  rw [(h.blocked hb).2] at hclosed
  cases hclosed

/-- A message that comes after the queue was closed is ignored. -/
theorem process_closed {msg : IncomingMessage} (h : Inv s) (hclosed : s.queue.closed = true) : s.process msg = s := by
  simp only [State.process, AsyncQueue.push, hclosed, if_true]
  exact settle_of_not_blocked (h.not_blocked hclosed)

theorem not_resolved_concat (h : true ∉ s.shutdowns) : true ∉ s.shutdowns ++ [false] := by
  simp [h]

theorem shutdown_taking {t : ℕ} (h : Inv s) (hphase : s.phase = .taking t none) :
    Inv s.shutdown ∧ s.shutdown.content = s.content := by
  obtain ⟨hitems, -⟩ := h.blocked (by rw [hphase]; rfl)
  have hwaiters := h.waiters
  rw [hphase] at hwaiters
  have hidle := h.idle (by rw [hphase]; rfl)
  have hrunning := h.not_running (by rw [hphase]; rfl)
  have hresolved := not_resolved_concat (h.not_resolved (by simp [hphase]))
  have hshutdown : s.shutdown = { s with
      queue := s.queue.close.1, shutdowns := s.shutdowns ++ [false], phase := .taking t (some none) } := by
    simp [State.shutdown, AsyncQueue.close, State.settle, hwaiters, hphase, Phase.waiting]
  rw [hshutdown]
  refine ⟨⟨rfl, ?_, fun _ => ⟨hitems, rfl⟩, fun _ => hidle, ?_, ?_, fun k c hk hr => absurd hr (hrunning k c hk), ?_,
    fun hr => absurd hr hresolved⟩, ?_⟩
  · simp [Phase.blocked]
  · simp [Phase.isRacing]
  · simp
  · simp [Phase.awaited]
  · simp [State.content, State.dispatched, State.undispatched, hphase, AsyncQueue.close, Phase.batch, Phase.inHand]

theorem shutdown_racing {t : ℕ} {remaining : ℤ} (h : Inv s) (hphase : s.phase = .racing t remaining none) :
    Inv s.shutdown ∧ s.shutdown.content = s.content := by
  have hbatch := h.racing (by rw [hphase]; rfl)
  have hwakes := h.wakes t remaining hphase
  have hrunning := h.not_running (by rw [hphase]; rfl)
  have hresolved := not_resolved_concat (h.not_resolved (by simp [hphase]))
  have hshutdown : s.shutdown = { s with
      queue := s.queue.close.1, shutdowns := s.shutdowns ++ [false], phase := .racing t remaining (some .ready) } := by
    simp [State.shutdown, AsyncQueue.close, State.settle, hphase, hwakes]
  rw [hshutdown]
  refine ⟨⟨rfl, ?_, ?_, ?_, fun _ => hbatch, ?_, fun k c hk hr => absurd hr (hrunning k c hk), ?_,
    fun hr => absurd hr hresolved⟩, ?_⟩
  · simp [Phase.blocked]
  · simp [Phase.ended]
  · simp [Phase.idle]
  · simp
  · simp [Phase.awaited]
  · simp [State.content, State.dispatched, State.undispatched, hphase, AsyncQueue.close, Phase.batch, Phase.inHand]

theorem shutdown_of_not_blocked (hblocked : s.phase.blocked = false) :
    s.shutdown = { s with queue := s.queue.close.1, shutdowns := s.shutdowns ++ [false] } :=
  settle_of_not_blocked hblocked

theorem shutdown_elsewhere (h : Inv s) (hblocked : s.phase.blocked = false) :
    Inv s.shutdown ∧ s.shutdown.content = s.content := by
  rw [shutdown_of_not_blocked hblocked]
  refine ⟨⟨(waiting_of_not_blocked hblocked).symm, ?_, fun he => ⟨(h.ended he).1, rfl⟩, h.idle, h.racing, ?_,
    h.running,
    h.called, ?_⟩, rfl⟩
  · intro hb
    rw [hblocked] at hb
    cases hb
  · intro t remaining ht
    rw [ht] at hblocked
    cases hblocked
  · intro hr
    exact h.resolved (by simpa using hr)

theorem shutdown_spec (h : Inv s) : Inv s.shutdown ∧ s.shutdown.content = s.content := by
  cases hblocked : s.phase.blocked with
  | true =>
    rcases blocked_cases hblocked with ⟨t, hphase⟩ | ⟨t, remaining, hphase⟩
    · exact shutdown_taking h hphase
    · exact shutdown_racing h hphase
  | false => exact shutdown_elsewhere h hblocked

theorem settle_queue (settled : Settled IncomingMessage) : (s.settle settled).queue = s.queue := by
  rw [State.settle]
  split
  · rfl
  · split_ifs
    · rfl
    · rfl
  · rfl

theorem shutdown_closed : s.shutdown.queue.closed = true := by
  rw [State.shutdown, settle_queue]
  rfl

/-- A handler call is over. -/
theorem handled_spec {k : ℕ} {call : HandlerCall} {state : CallState} (h : Inv s) (hk : s.calls[k]? = some call)
    (hstate : state ≠ .running) :
    Inv { s with calls := s.calls.set k { call with state := state } } ∧
      State.content { s with calls := s.calls.set k { call with state := state } } = s.content := by
  refine ⟨⟨h.waiters, h.blocked, h.ended, h.idle, h.racing, h.wakes, ?_, ?_, h.resolved⟩, ?_⟩
  · intro j c hj hr
    rcases Lists.getElem?_set_cases hj with ⟨-, rfl⟩ | ⟨-, hold⟩
    · exact absurd hr hstate
    · exact h.running j c hold hr
  · intro j hj
    rw [List.length_set]
    exact h.called j hj
  · have hbatches : (s.calls.set k { call with state := state }).map (·.batch) = s.calls.map (·.batch) :=
      Lists.map_set_of_eq hk rfl
    simp only [State.content, State.dispatched, State.undispatched, List.flatMap_def, hbatches]

def Act.message : Act → Option IncomingMessage
  | .process msg => some msg
  | _ => none

def Act.isShutdown : Act → Bool
  | .shutdown => true
  | _ => false

/-- What one step does to the messages: `process` adds its message unless the queue is closed, and
nothing else adds or drops any. -/
theorem step_spec {a : Act} (h : Inv s) (hs : step config s a = some s') :
    Inv s' ∧ s'.content = s.content ++ (if s.queue.closed then [] else a.message.toList) ∧
      s'.queue.closed = (s.queue.closed || a.isShutdown) := by
  cases a with
  | process msg =>
    cases hs
    cases hclosed : s.queue.closed with
    | true =>
      rw [process_closed h hclosed]
      simp [h, hclosed]
    | false =>
      have hspec : Inv (s.process msg) ∧ (s.process msg).content = s.content ++ [msg] ∧
          (s.process msg).queue.closed = false := by
        cases hblocked : s.phase.blocked with
        | true =>
          rcases blocked_cases hblocked with ⟨t, hphase⟩ | ⟨t, remaining, hphase⟩
          · exact process_taking h hphase
          · exact process_racing h hphase
        | false => exact process_queued h hblocked hclosed
      simpa [Act.message, Act.isShutdown] using hspec
  | shutdown =>
    cases hs
    obtain ⟨hinv, hcontent⟩ := shutdown_spec h
    simp [hinv, hcontent, shutdown_closed, Act.message, Act.isShutdown]
  | timer =>
    simp only [step] at hs
    split at hs
    · rename_i t remaining hphase
      cases hs
      have hbatch := h.racing (by rw [hphase]; rfl)
      have hwaiters := h.waiters
      have hrunning := h.not_running (by rw [hphase]; rfl)
      have hresolved := h.not_resolved (by simp [hphase])
      rw [hphase] at hwaiters
      refine ⟨⟨hwaiters, ?_, ?_, ?_, fun _ => hbatch, ?_, fun k c hk hr => absurd hr (hrunning k c hk), ?_,
        fun hr => absurd hr hresolved⟩, ?_, ?_⟩
      · simp [Phase.blocked]
      · simp [Phase.ended]
      · simp [Phase.idle]
      · simp
      · simp [Phase.awaited]
      · simp [State.content, State.dispatched, State.undispatched, hphase, Phase.batch, Phase.inHand, Act.message]
      · simp [Act.isShutdown]
    · cases hs
  | resume now =>
    obtain ⟨hinv, hcontent, hclosed⟩ := resume_spec h hs
    simp [hinv, hcontent, hclosed, Act.message, Act.isShutdown]
  | handled k threw =>
    simp only [step] at hs
    split at hs
    · rename_i call hk
      by_cases hrunning : call.state = .running
      · rw [if_pos hrunning] at hs
        cases hs
        have hstate : (if threw then .threw else .returned) ≠ CallState.running := by
          cases threw <;> simp
        obtain ⟨hinv, hcontent⟩ := handled_spec h hk hstate
        exact ⟨hinv, by simp [hcontent, Act.message], by simp [Act.isShutdown]⟩
      · rw [if_neg hrunning] at hs
        cases hs
    · cases hs
  | resolve k =>
    simp only [step] at hs
    split at hs
    · rename_i hphase hk
      cases hs
      refine ⟨⟨h.waiters, h.blocked, h.ended, h.idle, h.racing, h.wakes, h.running, h.called, fun _ => hphase⟩,
        ?_, ?_⟩
      · simp [State.content, State.dispatched, State.undispatched, Act.message]
      · simp [Act.isShutdown]
    · cases hs

theorem inv_init : Inv init := (loop_spec ⟨rfl, iff_of_true rfl rfl, by simp, by simp⟩ 0).1

/-! The handler calls -/

inductive CallsStep (s : State) (a : Act) : List HandlerCall → Prop where
  | same : CallsStep s a s.calls
  | began (call : HandlerCall) (running : call.state = .running) : CallsStep s a (s.calls ++ [call])
  | ended (k : ℕ) (threw : Bool) (call : HandlerCall) (state : CallState) (act : a = .handled k threw)
    (found : s.calls[k]? = some call) : CallsStep s a (s.calls.set k { call with state := state })

@[simp] theorem loop_calls (s : State) (now : ℤ) : (s.loop now).calls = s.calls := by
  unfold State.loop
  split <;> rfl

@[simp] theorem add_calls (s : State) (msg : IncomingMessage) (now : ℤ) : (s.add config msg now).calls = s.calls :=
    loop_calls _ now

@[simp] theorem settle_calls (s : State) (settled : Settled IncomingMessage) : (s.settle settled).calls = s.calls := by
  unfold State.settle
  split
  · rfl
  · split_ifs <;> rfl
  · rfl

@[simp] theorem process_calls (s : State) (msg : IncomingMessage) : (s.process msg).calls = s.calls := settle_calls _ _

@[simp] theorem shutdown_calls (s : State) : s.shutdown.calls = s.calls := settle_calls _ _

theorem resume_calls {a : Act} (hs : s.resume config now = some s') : CallsStep s a s'.calls := by
  unfold State.resume at hs
  split at hs
  · cases hs
  · cases hs
  · cases hs
  · cases hs
    exact .same
  · cases hs
    rw [add_calls]
    exact .same
  · split at hs
    · cases hs
      rw [add_calls]
      exact .same
    · split_ifs at hs
      · split at hs
        · rename_i call hcall
          cases hs
          exact .began call (handlerCall_some hcall).2
        · cases hs
          exact .same
      · cases hs
        rw [loop_calls]
        exact .same
  · split at hs
    · rename_i call hcall
      cases hs
      exact .began call (handlerCall_some hcall).2
    · cases hs
      exact loop_calls { s with pending := [], deadline := none } now ▸ .same
  · split_ifs at hs
    cases hs
    rw [loop_calls]
    exact .same
  · split_ifs at hs
    cases hs
    exact .same

theorem step_calls {a : Act} (hs : step config s a = some s') : CallsStep s a s'.calls := by
  cases a with
  | process msg =>
    cases hs
    exact process_calls s msg ▸ .same
  | shutdown =>
    cases hs
    exact shutdown_calls s ▸ .same
  | timer =>
    simp only [step] at hs
    split at hs
    · cases hs
      exact .same
    · cases hs
  | resume now => exact resume_calls hs
  | handled k threw =>
    simp only [step] at hs
    split at hs
    · rename_i call hk
      by_cases hrunning : call.state = .running
      · rw [if_pos hrunning] at hs
        cases hs
        exact .ended k threw call _ rfl hk
      · rw [if_neg hrunning] at hs
        cases hs
    · cases hs
  | resolve k =>
    simp only [step] at hs
    split at hs
    · cases hs
      exact .same
    · cases hs

end Nexal.Debounce
