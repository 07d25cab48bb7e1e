import Mathlib.Data.Rat.Cast.Order
import Nexal.Spec.Debounce

/-! The cron channel (`src/channels/cron.ts`) with the timer of its base class (`src/channels/polling-base.ts`). A tick
reads the wall clock, which may jump in either direction; jobs are added and removed between ticks. -/

namespace Nexal.Cron

open Debounce (IncomingMessage)

structure CronJob where
  id : String
  label : String
  schedule : String
  targetChannel : String
  targetChatId : String
  message : String
  context : Option String
  enabled : Bool
  lastRunAt : Option ℤ
deriving DecidableEq

/-- What the code uses of the runtime, with the finite numbers as what they stand for. -/
structure JsLib where
  /-- `Number` of a text, `none` if it is not finite -/
  number : String → Option ℚ
  /-- the nearest number, `none` if that is `Infinity` -/
  round : ℚ → Option ℚ
  /-- `Date.parse`, `none` for `NaN` -/
  dateParse : String → Option ℤ
  round_number : ∀ text x, number text = some x → round x = some x
  round_mono : ∀ x y x' y', x ≤ y → round x = some x' → round y = some y' → x' ≤ y'

inductive Schedule where
  | every (text : String)
  | once (text : String)
  /-- an expression the channel does not understand yet -/
  | crontab

/-- What follows a prefix. -/
def after (start text : String) : Option String :=
  if start.toList.isPrefixOf text.toList then some (String.ofList (text.toList.drop start.toList.length)) else none

def scheduleOf (schedule : String) : Schedule :=
  match after "every:" schedule with
  | some text => .every text
  | none =>
    match after "once:" schedule with
    | some text => .once text
    | none => .crontab

section Tick
variable (lib : JsLib)

def shouldFire (job : CronJob) (nowMs : ℤ) : Bool :=
  match scheduleOf job.schedule with
  | .every text =>
    match lib.number text with
    | none => false
    | some secs =>
      if secs ≤ 0 then false
      else job.lastRunAt.all fun last => (lib.round (secs * 1000)).any fun ms => decide (ms ≤ ((nowMs - last : ℤ) : ℚ))
  | .once text => job.lastRunAt.isNone && (lib.dateParse text).any (· ≤ nowMs)
  | .crontab => false

def messageOf (job : CronJob) (now : ℤ) : IncomingMessage where
  channel := job.targetChannel
  chatId := job.targetChatId
  sender := "cron"
  text := "[cron:" ++ job.label ++ "] " ++ job.message ++
    match job.context with
    | some context => if context = "" then "" else "\n\nContext from when this was scheduled:\n" ++ context
    | none => ""
  timestamp := now
  isMentioned := true
  metadata := [("cron_job_id", .str job.id), ("cron_label", .str job.label)]
  images := []

def CronJob.isOnce (job : CronJob) : Bool := (after "once:" job.schedule).isSome

/-- A job in the map, and which call of `addJob` has put it there. -/
structure Entry where
  added : ℕ
  job : CronJob

/-- A message that went out: the job as it was, and when. -/
structure Fired where
  added : ℕ
  job : CronJob
  time : ℤ

def Fired.message (f : Fired) : IncomingMessage := messageOf f.job f.time

/-- With the jobs that are left. -/
def onTick (now : ℤ) : List Entry → List Fired × List Entry
  | [] => ([], [])
  | e :: entries =>
    let (fired, rest) := onTick now entries
    if !e.job.enabled then (fired, e :: rest)
    else if !shouldFire lib e.job now then (fired, e :: rest)
    else (⟨e.added, e.job, now⟩ :: fired,
      if e.job.isOnce then rest else { e with job := { e.job with lastRunAt := some now } } :: rest)

end Tick

structure State where
  /-- in the order of the map -/
  jobs : List Entry
  /-- the calls of `addJob` so far -/
  calls : ℕ
  fired : List Fired
  /-- the timer is set -/
  started : Bool
  stopped : Bool

def init : State := ⟨[], 0, [], false, false⟩

def addJob (s : State) (job : CronJob) : State :=
  let e : Entry := ⟨s.calls, job⟩
  { s with
    jobs :=
      if s.jobs.any (·.job.id = job.id) then s.jobs.map fun e' => if e'.job.id = job.id then e else e'
      else s.jobs ++ [e]
    calls := s.calls + 1 }

def removeJob (s : State) (id : String) : State := { s with jobs := s.jobs.filter (·.job.id ≠ id) }

inductive Act where
  | addJob (job : CronJob)
  | removeJob (id : String)
  | start
  | tick (now : ℤ)
  | stop

def step (lib : JsLib) (s : State) : Act → Option State
  | .addJob job => some (addJob s job)
  | .removeJob id => some (removeJob s id)
  | .start => some { s with started := true }
  | .tick now =>
    if !s.started then none
    else if s.stopped then some s
    else some { s with fired := s.fired ++ (onTick lib now s.jobs).1, jobs := (onTick lib now s.jobs).2 }
  | .stop => some { s with stopped := true }

end Nexal.Cron
