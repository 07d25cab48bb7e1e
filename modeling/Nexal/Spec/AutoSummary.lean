import Mathlib.Data.Rat.Cast.Order
import Nexal.Spec.TapeRecord

/-! Automatic summaries: `createAutoSummaryHooks` (`packages/tape/src/strategies.ts`) on tapes whose `append`, `emit`,
`updateSummary` and `recordSummary` (`packages/tape/src/tape.ts`) run as asynchronous calls. The state holds the two
variables of the hooks, which any number of tapes may share, and every call of `append` with how far it has come. A
context or summary manager may append while it is awaited; what it appends without waiting is a call of its own. -/

namespace Nexal.AutoSummary

open Tape

inductive HookErrorPolicy where
  | ignore
  | throw
deriving DecidableEq

/-- What of a `Tape` object matters. -/
structure TapeObject where
  hasSummaryManager : Bool
  hookErrorPolicy : HookErrorPolicy
deriving DecidableEq

/-- A number that counts are compared with. -/
inductive Threshold where
  | finite (n : JsNumber)
  | infinity
  | negativeInfinity
  | nan

/-- `n < threshold` -/
def Threshold.above (n : ℕ) : Threshold → Bool
  | .finite q => (n : ℚ) < q
  | .infinity => true
  | .negativeInfinity | .nan => false

structure AutoSummaryHooksOptions where
  everyEntries : Option Threshold
  minEntries : Option Threshold
  scope : Option String
  metadata : Option Record
  /-- on the entries of the view and those appended, `none` if it throws -/
  shouldSummarize : Option (List TapeEntry → List TapeEntry → Option Bool)

def AutoSummaryHooksOptions.every (options : AutoSummaryHooksOptions) : Threshold := options.everyEntries.getD (.finite 50)

def AutoSummaryHooksOptions.min (options : AutoSummaryHooksOptions) : Threshold := options.minEntries.getD options.every

/-- What a summary manager comes up with. -/
structure SummaryManagerResult where
  summary : Summary
  range : Option Record
  scope : Option String
  metadata : Option Record

def isSummary (draft : TapeEntryDraft) : Bool := isEvent TapeEvent.System.summary (draft.withId 0)

/-- How a store keeps a draft, at some time. -/
structure Storage where
  persist : JsNumber → TapeEntryDraft → TapeEntryDraft
  keepsSummary : ∀ now draft, isSummary draft = true → isSummary (persist now draft) = true

structure Config where
  options : AutoSummaryHooksOptions
  storage : Storage
  rt : JsRuntime
  nt : NumberText
  locale : LocaleCompare

/-! Calls -/

/-- How far `updateSummary` has come. -/
inductive UpdatePhase where
  | viewing
  /-- `loadContext` reads the view -/
  | loading
  /-- the context manager is awaited -/
  | selecting
  | contextLoaded (range : Option Record)
  /-- the summary manager is awaited -/
  | summarizing (range : Option Record)
  /-- `recordSummary` reads the entries for `summaryStatus` -/
  | comparing (summary : Summary) (options : TapeSummaryOptions)
  /-- `recordSummary` appends -/
  | recording (call : ℕ)
  | summaryRecorded
  /-- the last event, with whether there is a summary -/
  | summaryUpdated (recorded : Bool)

/-- How far `append` has come. -/
inductive Phase where
  | storing
  /-- `emit` awaits `onEvent` -/
  | stored (entries : List TapeEntry)
  /-- `onAppend` reads the view -/
  | viewing (appended : List TapeEntry)
  | updating (phase : UpdatePhase)
  | returned
  | rejected

def Phase.ended : Phase → Bool
  | .returned | .rejected => true
  | _ => false

structure Call where
  tape : TapeObject
  /-- the call whose `updateSummary` it is part of -/
  cause : Option ℕ
  drafts : List TapeEntryDraft
  phase : Phase
  /-- how often its hook has called `updateSummary` -/
  updates : ℕ

structure State where
  appendedSinceSummary : ℕ
  running : Bool
  calls : List Call

def init : State := ⟨0, false, []⟩

inductive UpdateEvent where
  | viewed
  | loaded
  | selected (context : List TapeEntry)
  | contextLoaded
  | summarized (result : Option SummaryManagerResult)
  | compared (entries : List TapeEntry) (date : String)
  | appended
  | summaryRecorded
  | summaryUpdated
  /-- what is awaited throws -/
  | threw

inductive Event where
  /-- `append` is called, by a manager if there is a cause -/
  | append (tape : TapeObject) (cause : Option ℕ) (drafts : List TapeEntryDraft)
  | stored (call : ℕ) (now : JsNumber) (firstId : ℕ)
  | storeFailed (call : ℕ)
  | emitted (call : ℕ)
  | viewed (call : ℕ) (entries : List TapeEntry)
  | viewFailed (call : ℕ)
  | update (call : ℕ) (event : UpdateEvent)

/-! Steps -/

def setPhase (s : State) (call : ℕ) (phase : Phase) : State :=
  { s with calls := s.calls.modify call fun c : Call => { c with phase := phase } }

def phaseOf (s : State) (call : ℕ) : Option Phase := s.calls[call]?.map (·.phase)

/-- A manager of the call is awaited. -/
def External (s : State) (call : ℕ) : Bool :=
  match phaseOf s call with
  | some (.updating .selecting) | some (.updating (.summarizing _)) => true
  | _ => false

/-- The appends that were awaited within the call have ended. -/
def Settled (s : State) (call : ℕ) : Bool := s.calls.all fun c => c.cause ≠ some call || c.phase.ended

def push (s : State) (tape : TapeObject) (cause : Option ℕ) (drafts : List TapeEntryDraft) : State :=
  { s with calls := s.calls ++ [⟨tape, cause, drafts, .storing, 0⟩] }

/-- `emit` when a hook throws. -/
def hookThrew (tape : TapeObject) : Phase :=
  match tape.hookErrorPolicy with
  | .ignore => .returned
  | .throw => .rejected

def persisted (storage : Storage) (now : JsNumber) (firstId : ℕ) (drafts : List TapeEntryDraft) : List TapeEntry :=
  drafts.mapIdx fun i draft => (storage.persist now draft).withId (firstId + i)

/-- `onAppend` up to its first `await`. -/
def onAppend (s : State) (call : ℕ) (entries : List TapeEntry) : State :=
  let appended := entries.filter fun entry => !isEvent TapeEvent.System.summary entry
  if appended.length = 0 then setPhase s call .returned
  else { setPhase s call (.viewing appended) with appendedSinceSummary := s.appendedSinceSummary + appended.length }

/-- The call of `updateSummary`, up to its first `await`. -/
def startUpdate (s : State) (call : ℕ) (tape : TapeObject) : State :=
  { s with
    running := true
    calls := s.calls.modify call fun c : Call => { c with
      phase := .updating (if tape.hasSummaryManager then .viewing else .summaryUpdated false)
      updates := c.updates + 1 } }

/-- The rest of `onAppend` before `updateSummary`. -/
def onViewed (cfg : Config) (s : State) (call : ℕ) (tape : TapeObject) (appended entries : List TapeEntry) : State :=
  if cfg.options.min.above entries.length then setPhase s call .returned
  else if cfg.options.every.above s.appendedSinceSummary then setPhase s call .returned
  else
    match cfg.options.shouldSummarize.map fun shouldSummarize => shouldSummarize entries appended with
    | some none => setPhase s call (hookThrew tape)
    | some (some false) => setPhase s call .returned
    | _ => if s.running then setPhase s call .returned else startUpdate s call tape

/-- `finally`, after `updateSummary` has returned whether there is a summary. -/
def finish (s : State) (call : ℕ) (recorded : Bool) : State :=
  { setPhase s call .returned with
    appendedSinceSummary := if recorded then 0 else s.appendedSinceSummary
    running := false }

def finishThrew (s : State) (call : ℕ) (tape : TapeObject) : State :=
  { setPhase s call (hookThrew tape) with running := false }

def rangeFromEntries (entries : List TapeEntry) : Option Record :=
  match entries.head?, entries.getLast? with
  | some first, some last => some [("from", .num first.id), ("to", .num last.id)]
  | _, _ => none

def summaryOptions (options : AutoSummaryHooksOptions) (range : Option Record) (result : SummaryManagerResult) :
    TapeSummaryOptions where
  scope := result.scope.or options.scope
  metadata := result.metadata.or options.metadata
  ifChanged := true
  range := result.range.or range

/-- `updateSummary` goes on. -/
def updateStep (cfg : Config) (s : State) (call : ℕ) (tape : TapeObject) (phase : UpdatePhase) (event : UpdateEvent) :
    Option State :=
  match phase with
  | .viewing =>
    match event with
    | .viewed => some (setPhase s call (.updating .loading))
    | .threw => some (finishThrew s call tape)
    | _ => none
  | .loading =>
    match event with
    | .loaded => some (setPhase s call (.updating .selecting))
    | .threw => some (finishThrew s call tape)
    | _ => none
  | .selecting =>
    if Settled s call then
      match event with
      | .selected context => some (setPhase s call (.updating (.contextLoaded (rangeFromEntries context))))
      | .threw => some (finishThrew s call tape)
      | _ => none
    else none
  | .contextLoaded range =>
    match event with
    | .contextLoaded => some (setPhase s call (.updating (.summarizing range)))
    | _ => none
  | .summarizing range =>
    if Settled s call then
      match event with
      | .summarized none => some (setPhase s call (.updating (.summaryUpdated false)))
      | .summarized (some result) =>
        some (setPhase s call (.updating (.comparing result.summary (summaryOptions cfg.options range result))))
      | .threw => some (finishThrew s call tape)
      | _ => none
    else none
  | .comparing summary options =>
    match event with
    | .compared entries date =>
      match recordSummary cfg.rt cfg.nt cfg.locale summary options date entries with
      | none => some (setPhase s call (.updating (.summaryUpdated false)))
      | some draft => some (push (setPhase s call (.updating (.recording s.calls.length))) tape (some call) [draft])
    | .threw => some (finishThrew s call tape)
    | _ => none
  | .recording child =>
    match event, phaseOf s child with
    | .appended, some .returned => some (setPhase s call (.updating .summaryRecorded))
    | .appended, some .rejected => some (finishThrew s call tape)
    | _, _ => none
  | .summaryRecorded =>
    match event with
    | .summaryRecorded => some (setPhase s call (.updating (.summaryUpdated true)))
    | _ => none
  | .summaryUpdated recorded =>
    match event with
    | .summaryUpdated => some (finish s call recorded)
    | _ => none

def step (cfg : Config) (s : State) : Event → Option State
  | .append tape cause drafts =>
    match cause with
    | none => some (push s tape none drafts)
    | some call => if External s call then some (push s tape (some call) drafts) else none
  | .stored call now firstId =>
    match s.calls[call]? with
    | some ⟨_, _, drafts, .storing, _⟩ => some (setPhase s call (.stored (persisted cfg.storage now firstId drafts)))
    | _ => none
  | .storeFailed call =>
    match s.calls[call]? with
    | some ⟨_, _, _, .storing, _⟩ => some (setPhase s call .rejected)
    | _ => none
  | .emitted call =>
    match s.calls[call]? with
    | some ⟨_, _, _, .stored entries, _⟩ => some (onAppend s call entries)
    | _ => none
  | .viewed call entries =>
    match s.calls[call]? with
    | some ⟨tape, _, _, .viewing appended, _⟩ => some (onViewed cfg s call tape appended entries)
    | _ => none
  | .viewFailed call =>
    match s.calls[call]? with
    | some ⟨tape, _, _, .viewing _, _⟩ => some (setPhase s call (hookThrew tape))
    | _ => none
  | .update call event =>
    match s.calls[call]? with
    | some ⟨tape, _, _, .updating phase, _⟩ => updateStep cfg s call tape phase event
    | _ => none

end Nexal.AutoSummary
