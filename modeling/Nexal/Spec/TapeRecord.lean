import Nexal.Spec.JsonText
import Nexal.Spec.TapeConvert

/-! The configuration records of a tape: system prompt, model, tools, context, policy, runtime, status
and summary (`packages/tape/src/tape.ts`, `events.ts`, `records.ts`). -/

namespace Nexal.Tape

/-! Events -/

namespace TapeEvent.System

def prompt : String := "system/prompt"
def model : String := "system/model"
def tools : String := "system/tools"
def context : String := "system/context"
def policy : String := "system/policy"
def runtime : String := "system/runtime"
def status : String := "system/status"
def summary : String := "system/summary"

end TapeEvent.System

inductive TapeStatus where
  | missing
  | current
  | changed
deriving DecidableEq

inductive TapeChange where
  | set
  | changed

def TapeChange.toString : TapeChange → String
  | .set => "set"
  | .changed => "changed"

/-- The records whose payload is one object, and the key it stands under. -/
structure TapeScopedRecordSpec where
  event : String
  payloadKey : String

def contextRecord : TapeScopedRecordSpec := ⟨TapeEvent.System.context, "context"⟩
def policyRecord : TapeScopedRecordSpec := ⟨TapeEvent.System.policy, "policy"⟩
def runtimeRecord : TapeScopedRecordSpec := ⟨TapeEvent.System.runtime, "runtime"⟩

structure TapeSystemOptions where
  scope : Option String
  metadata : Option Record
  ifChanged : Bool

structure TapeSummaryOptions extends TapeSystemOptions where
  range : Option Record

/-! Plain values -/

/-- `String.prototype.localeCompare`, taken to order distinct keys totally. -/
structure LocaleCompare where
  compare : String → String → ℤ
  total : ∀ a b, compare a b ≤ 0 ∨ compare b a ≤ 0
  trans : ∀ a b c, compare a b ≤ 0 → compare b c ≤ 0 → compare a c ≤ 0
  antisymm : ∀ a b, compare a b ≤ 0 → compare b a ≤ 0 → a = b

/-- An object without the fields that are `undefined`. -/
def compactRecord (fields : List (String × Option Json)) : Record := fromEntries (literal fields)

section Runtime
variable (rt : JsRuntime) (nt : NumberText) (locale : LocaleCompare)

/-- A value through `JSON.stringify` and back; JSON has no functions to leave out. -/
def toPlain (v : Json) : Json := (JsonText.parse nt (JsonText.stringify nt v)).getD (.str (rt.string v))

mutual

/-- The keys sorted at every depth. The source sorts the entries before it goes into their values;
the order depends on the keys only. -/
def sortObject : Json → Json
  | .arr items => .arr (sortItems items)
  | .obj fields =>
    .obj (fromEntries ((sortFields fields).insertionSort fun f g => locale.compare f.1 g.1 ≤ 0))
  | v => v

def sortItems : List Json → List Json
  | [] => []
  | v :: items => sortObject v :: sortItems items

def sortFields : List (String × Json) → List (String × Json)
  | [] => []
  | (key, v) :: fields => (key, sortObject v) :: sortFields fields

end

def stableStringify (v : Json) : String := JsonText.stringify nt (sortObject locale v)

/-! What is recorded -/

def metadataOf (options : TapeSystemOptions) : Option Json := some (.obj (options.metadata.getD []))

def scopeOf (options : TapeSystemOptions) : Option Json := options.scope.map .str

def serializeModel (model : Json) : Json :=
  .obj (compactRecord [("id", model.field "id"), ("name", model.field "name"), ("provider", model.field "provider"),
    ("api", model.field "api"), ("reasoning", model.field "reasoning"), ("input", model.field "input"),
    ("contextWindow", model.field "contextWindow"), ("maxTokens", model.field "maxTokens")])

def serializeTool (tool : Json) : Json :=
  .obj (compactRecord [("name", tool.field "name"), ("label", tool.field "label"),
    ("description", tool.field "description"), ("parameters", (tool.field "parameters").map (toPlain rt nt))])

def systemPromptData (systemPrompt : String) (options : TapeSystemOptions) : Record :=
  compactRecord [("scope", scopeOf options), ("systemPrompt", some (.str systemPrompt)), ("metadata", metadataOf options)]

def modelData (model : Json) (options : TapeSystemOptions) : Record :=
  compactRecord [("scope", scopeOf options), ("model", some (serializeModel model)), ("metadata", metadataOf options)]

def toolsData (tools : List Json) (options : TapeSystemOptions) : Record :=
  compactRecord [("scope", scopeOf options), ("tools", some (.arr (tools.map (serializeTool rt nt)))),
    ("metadata", metadataOf options)]

def scopedData (record : TapeScopedRecordSpec) (value : Record) (options : TapeSystemOptions) : Record :=
  compactRecord [("scope", scopeOf options), (record.payloadKey, some (toPlain rt nt (.obj value))),
    ("metadata", metadataOf options)]

def statusData (status : String) (options : TapeSystemOptions) : Record :=
  compactRecord [("scope", scopeOf options), ("status", some (.str status)), ("metadata", metadataOf options)]

/-- `string | Record<string, unknown>` -/
inductive Summary where
  | text (s : String)
  | object (fields : Record)

/-- `typeof summary === "string" ? summary : toPlain(summary)` -/
def summaryValue : Summary → Json
  | .text s => .str s
  | .object fields => toPlain rt nt (.obj fields)

def summaryData (summary : Summary) (options : TapeSummaryOptions) : Record :=
  compactRecord [("scope", scopeOf options.toTapeSystemOptions), ("range", options.range.map .obj),
    ("summary", some (summaryValue rt nt summary)), ("metadata", metadataOf options.toTapeSystemOptions)]

def systemMeta (options : TapeSystemOptions) (change : TapeChange) : Record :=
  compactRecord [("internal", some (.bool true)), ("scope", scopeOf options), ("change", some (.str change.toString))]

/-- `tapeRecord.event` with the meta of a system record. -/
def systemEvent (name : String) (data : Record) (options : TapeSystemOptions) (date : String) : TapeEntryDraft where
  kind := .event
  payload := [("name", .str name), ("data", .obj data)]
  «meta» := systemMeta options (if options.ifChanged then .changed else .set)
  date := date

/-! The latest record -/

def isEvent (name : String) (entry : TapeEntry) : Bool :=
  entry.kind = .event && (Record.get entry.payload "name").any fun v => match v with
    | .str s => s = name
    | _ => false

/-- The data of the last event of the name, `null` when there is none. -/
def latestEventData (entries : List TapeEntry) (name : String) : Json :=
  match entries.reverse.find? (isEvent name) with
  | some entry => (nullish (Record.get entry.payload "data")).getD .null
  | none => .null

def entryStatus (entries : List TapeEntry) (name : String) (data : Record) : TapeStatus :=
  let latest := latestEventData entries name
  if !latest.truthy then .missing
  else if stableStringify nt locale latest = stableStringify nt locale (.obj data) then .current
  else .changed

/-- What an operation appends; with `ifChanged` nothing when the status is current. -/
def setRecord (status : TapeStatus) (event : String) (data : Record) (options : TapeSystemOptions) (date : String) :
    Option TapeEntryDraft :=
  if options.ifChanged ∧ status = .current then none else some (systemEvent event data options date)

/-! The operations, on the entries they read -/

def systemPromptStatus (systemPrompt : String) (options : TapeSystemOptions) (entries : List TapeEntry) : TapeStatus :=
  entryStatus nt locale entries TapeEvent.System.prompt (systemPromptData systemPrompt options)

def setSystemPrompt (systemPrompt : String) (options : TapeSystemOptions) (date : String) (entries : List TapeEntry) :
    Option TapeEntryDraft :=
  setRecord (systemPromptStatus nt locale systemPrompt options entries) TapeEvent.System.prompt
    (systemPromptData systemPrompt options) options date

def modelStatus (model : Json) (options : TapeSystemOptions) (entries : List TapeEntry) : TapeStatus :=
  entryStatus nt locale entries TapeEvent.System.model (modelData model options)

def setModel (model : Json) (options : TapeSystemOptions) (date : String) (entries : List TapeEntry) :
    Option TapeEntryDraft :=
  setRecord (modelStatus nt locale model options entries) TapeEvent.System.model
    (modelData model options) options date

def toolsStatus (tools : List Json) (options : TapeSystemOptions) (entries : List TapeEntry) : TapeStatus :=
  entryStatus nt locale entries TapeEvent.System.tools (toolsData rt nt tools options)

def setTools (tools : List Json) (options : TapeSystemOptions) (date : String) (entries : List TapeEntry) :
    Option TapeEntryDraft :=
  setRecord (toolsStatus rt nt locale tools options entries) TapeEvent.System.tools
    (toolsData rt nt tools options) options date

def contextStatus (context : Record) (options : TapeSystemOptions) (entries : List TapeEntry) : TapeStatus :=
  entryStatus nt locale entries contextRecord.event (scopedData rt nt contextRecord context options)

def setContext (context : Record) (options : TapeSystemOptions) (date : String) (entries : List TapeEntry) :
    Option TapeEntryDraft :=
  setRecord (contextStatus rt nt locale context options entries) contextRecord.event
    (scopedData rt nt contextRecord context options) options date

def policyStatus (policy : Record) (options : TapeSystemOptions) (entries : List TapeEntry) : TapeStatus :=
  entryStatus nt locale entries policyRecord.event (scopedData rt nt policyRecord policy options)

def setPolicy (policy : Record) (options : TapeSystemOptions) (date : String) (entries : List TapeEntry) :
    Option TapeEntryDraft :=
  setRecord (policyStatus rt nt locale policy options entries) policyRecord.event
    (scopedData rt nt policyRecord policy options) options date

def runtimeStatus (runtime : Record) (options : TapeSystemOptions) (entries : List TapeEntry) : TapeStatus :=
  entryStatus nt locale entries runtimeRecord.event (scopedData rt nt runtimeRecord runtime options)

def setRuntime (runtime : Record) (options : TapeSystemOptions) (date : String) (entries : List TapeEntry) :
    Option TapeEntryDraft :=
  setRecord (runtimeStatus rt nt locale runtime options entries) runtimeRecord.event
    (scopedData rt nt runtimeRecord runtime options) options date

def statusState (status : String) (options : TapeSystemOptions) (entries : List TapeEntry) : TapeStatus :=
  entryStatus nt locale entries TapeEvent.System.status (statusData status options)

def setStatus (status : String) (options : TapeSystemOptions) (date : String) (entries : List TapeEntry) :
    Option TapeEntryDraft :=
  setRecord (statusState nt locale status options entries) TapeEvent.System.status
    (statusData status options) options date

def summaryStatus (summary : Summary) (options : TapeSummaryOptions) (entries : List TapeEntry) : TapeStatus :=
  entryStatus nt locale entries TapeEvent.System.summary (summaryData rt nt summary options)

def recordSummary (summary : Summary) (options : TapeSummaryOptions) (date : String) (entries : List TapeEntry) :
    Option TapeEntryDraft :=
  setRecord (summaryStatus rt nt locale summary options entries) TapeEvent.System.summary
    (summaryData rt nt summary options) options.toTapeSystemOptions date

/-- A set or record operation with its arguments. -/
inductive RecordCall where
  | setSystemPrompt (systemPrompt : String) (options : TapeSystemOptions)
  | setModel (model : Json) (options : TapeSystemOptions)
  | setTools (tools : List Json) (options : TapeSystemOptions)
  | setContext (context : Record) (options : TapeSystemOptions)
  | setPolicy (policy : Record) (options : TapeSystemOptions)
  | setRuntime (runtime : Record) (options : TapeSystemOptions)
  | setStatus (status : String) (options : TapeSystemOptions)
  | recordSummary (summary : Summary) (options : TapeSummaryOptions)

def RecordCall.options : RecordCall → TapeSystemOptions
  | .setSystemPrompt _ options | .setModel _ options | .setTools _ options | .setContext _ options
  | .setPolicy _ options | .setRuntime _ options | .setStatus _ options => options
  | .recordSummary _ options => options.toTapeSystemOptions

def RecordCall.event : RecordCall → String
  | .setSystemPrompt _ _ => TapeEvent.System.prompt
  | .setModel _ _ => TapeEvent.System.model
  | .setTools _ _ => TapeEvent.System.tools
  | .setContext _ _ => contextRecord.event
  | .setPolicy _ _ => policyRecord.event
  | .setRuntime _ _ => runtimeRecord.event
  | .setStatus _ _ => TapeEvent.System.status
  | .recordSummary _ _ => TapeEvent.System.summary

def RecordCall.data : RecordCall → Record
  | .setSystemPrompt systemPrompt options => systemPromptData systemPrompt options
  | .setModel model options => modelData model options
  | .setTools tools options => toolsData rt nt tools options
  | .setContext context options => scopedData rt nt contextRecord context options
  | .setPolicy policy options => scopedData rt nt policyRecord policy options
  | .setRuntime runtime options => scopedData rt nt runtimeRecord runtime options
  | .setStatus status options => statusData status options
  | .recordSummary summary options => summaryData rt nt summary options

def RecordCall.status (entries : List TapeEntry) : RecordCall → TapeStatus
  | .setSystemPrompt systemPrompt options => systemPromptStatus nt locale systemPrompt options entries
  | .setModel model options => modelStatus nt locale model options entries
  | .setTools tools options => toolsStatus rt nt locale tools options entries
  | .setContext context options => contextStatus rt nt locale context options entries
  | .setPolicy policy options => policyStatus rt nt locale policy options entries
  | .setRuntime runtime options => runtimeStatus rt nt locale runtime options entries
  | .setStatus status options => statusState nt locale status options entries
  | .recordSummary summary options => summaryStatus rt nt locale summary options entries

def RecordCall.run (date : String) (entries : List TapeEntry) : RecordCall → Option TapeEntryDraft
  | .setSystemPrompt systemPrompt options => Tape.setSystemPrompt nt locale systemPrompt options date entries
  | .setModel model options => Tape.setModel nt locale model options date entries
  | .setTools tools options => Tape.setTools rt nt locale tools options date entries
  | .setContext context options => Tape.setContext rt nt locale context options date entries
  | .setPolicy policy options => Tape.setPolicy rt nt locale policy options date entries
  | .setRuntime runtime options => Tape.setRuntime rt nt locale runtime options date entries
  | .setStatus status options => Tape.setStatus nt locale status options date entries
  | .recordSummary summary options => Tape.recordSummary rt nt locale summary options date entries

end Runtime

end Nexal.Tape

/-! Context windows (`packages/tape/src/strategies.ts`, `Tape.loadContext` of `packages/tape/src/tape.ts`). -/

namespace Nexal.Tape

/-- An entry of the view; the drafts that an amendment puts in have no id. -/
structure ViewEntry extends TapeEntryDraft where
  id : Option ℕ

structure TailContextManagerOptions where
  maxEntries : Option ℕ

structure SummaryContextManagerOptions extends TailContextManagerOptions where
  includeLatestSummary : Option Bool

/-- `Array.prototype.slice` without an end. -/
def slice {α : Type} (items : List α) (start : ℤ) : List α :=
  if start < 0 then items.drop (items.length - start.natAbs) else items.drop start.toNat

/-- `createTailContextManager(options).select` -/
def tailSelect (options : TailContextManagerOptions) (entries : List ViewEntry) (maxEntries : ℕ) : List ViewEntry :=
  let limit := options.maxEntries.getD maxEntries
  if entries.length ≤ limit then entries else slice entries (-(limit : ℤ))

def isSummaryEntry (entry : ViewEntry) : Bool :=
  entry.kind = .event && (Record.get entry.payload "name").any fun v => match v with
    | .str s => s = TapeEvent.System.summary
    | _ => false

def latestSummary (entries : List ViewEntry) : Option ViewEntry := entries.reverse.find? isSummaryEntry

/-- `createSummaryContextManager(options).select` -/
def summarySelect (options : SummaryContextManagerOptions) (entries : List ViewEntry) (maxEntries : ℕ) :
    List ViewEntry :=
  let selected := tailSelect options.toTailContextManagerOptions entries maxEntries
  if options.includeLatestSummary = some false then selected
  else match latestSummary entries with
    | none => selected
    | some summary => if selected.any fun entry => entry.id = summary.id then selected else summary :: selected

inductive TapeContextManager where
  | tail (options : TailContextManagerOptions)
  | summary (options : SummaryContextManagerOptions)

def TapeContextManager.select : TapeContextManager → List ViewEntry → ℕ → List ViewEntry
  | .tail options => tailSelect options
  | .summary options => summarySelect options

def tailContextManager : TapeContextManager := .tail ⟨none⟩

structure TapeOptions where
  contextManager : Option TapeContextManager
  maxContext : Option ℕ

def defaultMaxContext : ℕ := 200

/-- `Tape.loadContext` on the entries of the view. -/
def loadContext (opts : TapeOptions) (maxEntries : Option ℕ) (cleaned : List ViewEntry) : List ViewEntry :=
  (opts.contextManager.getD tailContextManager).select cleaned
    (maxEntries.getD (opts.maxContext.getD defaultMaxContext))

end Nexal.Tape
