import Mathlib.Data.Int.Notation
import Nexal.Lib.Runs
import Nexal.Spec.Json

/-! The message debouncer of a session (`src/debounce.ts`): an unbounded queue, and one loop that
takes from it, waits for more until a deadline and hands the batch to the handler. Callers of
`process` and `shutdown`, the timer, the handler and the loop interleave at the loop's awaits. -/

namespace Nexal.Debounce

inductive ImageData where
  | bytes (data : List UInt8)
  | base64 (data : String)
deriving DecidableEq

structure ImageAttachment where
  data : ImageData
  mimeType : String
  filename : String
deriving DecidableEq

structure IncomingMessage where
  channel : String
  chatId : String
  sender : String
  text : String
  timestamp : ℤ
  isMentioned : Bool
  metadata : Record
  images : List ImageAttachment

/-! `AsyncQueue`. A pending promise is named by the ticket it was made under. -/

structure AsyncQueue (T : Type) where
  items : List T
  waiters : List ℕ
  readyWakers : List ℕ
  closed : Bool

/-- The promises an operation resolves: those of `take` with their value, and those of `whenReady`. -/
structure Settled (T : Type) where
  taken : List (ℕ × Option T)
  woken : List ℕ

namespace AsyncQueue

variable {T : Type}

def new : AsyncQueue T := ⟨[], [], [], false⟩

def push (q : AsyncQueue T) (v : T) : AsyncQueue T × Settled T :=
  if q.closed then (q, ⟨[], []⟩)
  else
    match q.waiters with
    | w :: waiters => ({ q with waiters := waiters }, ⟨[(w, some v)], []⟩)
    | [] => ({ q with items := q.items ++ [v], readyWakers := [] }, ⟨[], q.readyWakers⟩)

/-- With the value the promise is resolved with, if it is resolved at once. -/
def take (q : AsyncQueue T) (ticket : ℕ) : AsyncQueue T × Option (Option T) :=
  match q.items with
  | v :: items => ({ q with items := items }, some (some v))
  | [] => if q.closed then (q, some none) else ({ q with waiters := q.waiters ++ [ticket] }, none)

def tryTake (q : AsyncQueue T) : AsyncQueue T × Option T :=
  match q.items with
  | v :: items => ({ q with items := items }, some v)
  | [] => (q, none)

/-- With whether the promise is resolved at once. -/
def whenReady (q : AsyncQueue T) (ticket : ℕ) : AsyncQueue T × Bool :=
  if 0 < q.items.length ∨ q.closed then (q, true)
  else ({ q with readyWakers := q.readyWakers ++ [ticket] }, false)

def close (q : AsyncQueue T) : AsyncQueue T × Settled T :=
  ({ q with closed := true, waiters := [], readyWakers := [] },
    ⟨q.waiters.map fun w => (w, none), q.readyWakers⟩)

end AsyncQueue

/-! `SessionDebouncer` -/

def unmentionedDelayMs : ℤ := 100

structure DebounceConfig where
  debounceMs : ℤ
  delayMs : ℤ
  activeWindowMs : ℤ

def defaultDebounce : DebounceConfig where
  debounceMs := 1000
  delayMs := 10000
  activeWindowMs := 60000

def mergeMessages : List IncomingMessage → Option IncomingMessage
  | [] => none
  | [m] => some m
  | m :: m' :: ms =>
    let messages := m :: m' :: ms
    let base := messages.getLast (List.cons_ne_nil m (m' :: ms))
    some { base with
      text := "\n".intercalate (messages.map (·.text))
      isMentioned := true
      images := messages.flatMap (·.images) }

/-- The delay for a message, and when the session was last mentioned. -/
def nextDelayMs (config : DebounceConfig) (msg : IncomingMessage) (lastMentionedAt : Option ℤ) (now : ℤ) :
    ℤ × Option ℤ :=
  if msg.isMentioned then (config.debounceMs, some now)
  else
    match lastMentionedAt with
    | some last => (if now - last < config.activeWindowMs then config.delayMs else unmentionedDelayMs, lastMentionedAt)
    | none => (unmentionedDelayMs, lastMentionedAt)

inductive CallState where
  | running
  | returned
  | threw
deriving DecidableEq

/-- A call of the handler, with the batch it was merged from. -/
structure HandlerCall where
  batch : List IncomingMessage
  merged : IncomingMessage
  merges : mergeMessages batch = some merged
  state : CallState

inductive Race where
  | ready
  | timeout
deriving DecidableEq

/-- The await at which the loop is. -/
inductive Phase where
  /-- `take`, with the value once its promise is resolved -/
  | taking (ticket : ℕ) (got : Option (Option IncomingMessage))
  /-- `whenReady` against a timer, with the one that came first -/
  | racing (ticket : ℕ) (remaining : ℤ) (race : Option Race)
  /-- the handler, for a batch whose timer fired -/
  | handling (call : ℕ)
  /-- the handler, for the batch that was pending when the queue was closed -/
  | flushing (call : ℕ)
  | done

structure State where
  queue : AsyncQueue IncomingMessage
  phase : Phase
  pending : List IncomingMessage
  lastMentionedAt : Option ℤ
  deadline : Option ℤ
  nextTicket : ℕ
  /-- the handler calls so far -/
  calls : List HandlerCall
  /-- the calls of `shutdown`, and whether they have resolved -/
  shutdowns : List Bool

/-- The top of the loop. -/
def State.loop (s : State) (now : ℤ) : State :=
  match s.deadline with
  | none =>
    let (queue, got) := s.queue.take s.nextTicket
    { s with queue := queue, phase := .taking s.nextTicket got, nextTicket := s.nextTicket + 1 }
  | some deadline =>
    let (queue, ready) := s.queue.whenReady s.nextTicket
    { s with
      queue := queue
      phase := .racing s.nextTicket (max 0 (deadline - now)) (if ready then some .ready else none)
      nextTicket := s.nextTicket + 1 }

def init : State :=
  State.loop
    { queue := .new, phase := .done, pending := [], lastMentionedAt := none, deadline := none, nextTicket := 0,
      calls := [], shutdowns := [] } 0

/-- A message is added to the batch; what the loop reads of the clock between two awaits is one
reading. -/
def State.add (config : DebounceConfig) (s : State) (msg : IncomingMessage) (now : ℤ) : State :=
  let (wait, lastMentionedAt) := nextDelayMs config msg s.lastMentionedAt now
  { s with lastMentionedAt := lastMentionedAt, deadline := some (now + wait), pending := s.pending ++ [msg] }.loop now

/-- The handler call that `dispatch` makes for a batch. -/
def handlerCall (batch : List IncomingMessage) : Option HandlerCall :=
  match h : mergeMessages batch with
  | some merged => some ⟨batch, merged, h, .running⟩
  | none => none

/-- The call has returned or thrown; what it threw is only logged. -/
def State.returned (s : State) (k : ℕ) : Bool := (s.calls[k]?).any fun call => call.state ≠ .running

/-- The loop goes on from its await. -/
def State.resume (config : DebounceConfig) (s : State) (now : ℤ) : Option State :=
  match s.phase with
  | .taking _ none | .racing _ _ none | .done => none
  | .taking _ (some none) => some { s with phase := .done }
  | .taking _ (some (some msg)) => some (s.add config msg now)
  | .racing _ _ (some .ready) =>
    match s.queue.tryTake with
    | (queue, some msg) => some ({ s with queue := queue }.add config msg now)
    | (queue, none) =>
      if queue.closed then
        match handlerCall s.pending with
        | some call => some { s with calls := s.calls ++ [call], phase := .flushing s.calls.length }
        | none => some { s with phase := .done }
      else some (s.loop now)
  | .racing _ _ (some .timeout) =>
    let rest := { s with pending := [], deadline := none }
    match handlerCall s.pending with
    | some call => some { rest with calls := s.calls ++ [call], phase := .handling s.calls.length }
    | none => some (rest.loop now)
  | .handling k => if s.returned k then some (s.loop now) else none
  | .flushing k => if s.returned k then some { s with phase := .done } else none

/-- What an operation of the queue resolves reaches the await of the loop. -/
def State.settle (s : State) (settled : Settled IncomingMessage) : State :=
  match s.phase with
  | .taking ticket none => { s with phase := .taking ticket (settled.taken.lookup ticket) }
  | .racing ticket remaining none =>
    if ticket ∈ settled.woken then { s with phase := .racing ticket remaining (some .ready) } else s
  | _ => s

def State.process (s : State) (msg : IncomingMessage) : State :=
  let (queue, settled) := s.queue.push msg
  { s with queue := queue }.settle settled

def State.shutdown (s : State) : State :=
  let (queue, settled) := s.queue.close
  { s with queue := queue, shutdowns := s.shutdowns ++ [false] }.settle settled

inductive Act where
  | process (msg : IncomingMessage)
  | shutdown
  /-- the timer of the race fires, by a clock that need not be the one of `Date.now` -/
  | timer
  | resume (now : ℤ)
  | handled (k : ℕ) (threw : Bool)
  /-- the `k`th `shutdown` resolves -/
  | resolve (k : ℕ)

def step (config : DebounceConfig) (s : State) : Act → Option State
  | .process msg => some (s.process msg)
  | .shutdown => some s.shutdown
  | .timer =>
    match s.phase with
    | .racing ticket remaining none => some { s with phase := .racing ticket remaining (some .timeout) }
    | _ => none
  | .resume now => s.resume config now
  | .handled k threw =>
    match s.calls[k]? with
    | some call =>
      if call.state = .running then
        some { s with calls := s.calls.set k { call with state := if threw then .threw else .returned } }
      else none
    | none => none
  | .resolve k =>
    match s.phase, s.shutdowns[k]? with
    | .done, some false => some { s with shutdowns := s.shutdowns.set k true }
    | _, _ => none

end Nexal.Debounce
