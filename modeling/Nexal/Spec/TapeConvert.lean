import Nexal.Spec.TapeEntry

/-! Messages and the entries they are kept as (`packages/tape/src/convert.ts`). Messages are values of
any shape here; both conversions look at their fields and put defaults where some are missing. -/

namespace Nexal.Tape

/-- An object literal; a field that is `undefined` is an absent one. -/
def literal (fields : List (String × Option Json)) : Record := fields.filterMap fun f => f.2.map (f.1, ·)

/-- `Omit<TapeEntry, "id" | "date">` -/
structure EntryParts where
  kind : TapeEntryKind
  payload : Record
  «meta» : Record

def TapeEntry.parts (entry : TapeEntry) : EntryParts := ⟨entry.kind, entry.payload, entry.meta⟩

/-! Message to entry -/

/-- One block of `serializeContent`. -/
def serializeBlock (block : Json) : Json :=
  match block.field "type" with
  | some (.str "text") => .obj (literal [("type", some (.str "text")), ("text", block.field "text")])
  | some (.str "image") =>
    .obj (literal [("type", some (.str "image")), ("data", block.field "data"), ("mimeType", block.field "mimeType")])
  | _ => block

def serializeContent : Option Json → Option Json
  | some (.arr content) => some (.arr (content.map serializeBlock))
  | content => content

def serializeAssistantBlock (block : Json) : Json :=
  match block.field "type" with
  | some (.str "text") =>
    .obj (literal [("type", some (.str "text")), ("text", block.field "text"),
      ("textSignature", block.field "textSignature")])
  | some (.str "thinking") =>
    .obj (literal [("type", some (.str "thinking")), ("thinking", block.field "thinking"),
      ("thinkingSignature", block.field "thinkingSignature"), ("redacted", block.field "redacted")])
  | some (.str "toolCall") =>
    .obj (literal [("type", some (.str "toolCall")), ("id", block.field "id"), ("name", block.field "name"),
      ("arguments", block.field "arguments"), ("thoughtSignature", block.field "thoughtSignature")])
  | _ => block

def messageMeta (msg : Record) : Record :=
  match Record.get msg "meta" with
  | some (.obj «meta») => «meta»
  | _ => []

section Runtime
variable (rt : JsRuntime) (now : JsNumber)

/-- `String(value ?? fallback)` -/
def stringOr (value : Option Json) (fallback : String) : String := ((nullish value).map rt.string).getD fallback

/-- `Number(value ?? Date.now())`; `NaN` as JSON writes it. -/
def numberOrNow (value : Option Json) : Json :=
  match nullish value with
  | some (.num n) => .num n
  | some v => ((rt.number v).map .num).getD .null
  | none => .num now

/-- `value ? String(value) : undefined` -/
def truthyString : Option Json → Option Json
  | some v => if v.truthy then some (.str (rt.string v)) else none
  | none => none

def textBlock (text : String) : Json := .obj [("type", .str "text"), ("text", .str text)]

def serializeAssistantContent : Option Json → Json
  | some (.str content) => .arr [textBlock content]
  | some (.arr content) => .arr (content.map serializeAssistantBlock)
  | content => .arr [textBlock (stringOr rt content "")]

def messageToEntry : Json → Option EntryParts
  | .obj msg =>
    match Record.get msg "role" with
    | some (.str "user") => some {
        kind := .message
        payload := literal [("role", some (.str "user")), ("content", serializeContent (Record.get msg "content")),
          ("timestamp", Record.get msg "timestamp")]
        «meta» := messageMeta msg }
    | some (.str "assistant") => some {
        kind := .message
        payload := literal [("role", some (.str "assistant")),
          ("content", some (serializeAssistantContent rt (Record.get msg "content"))), ("api", Record.get msg "api"),
          ("provider", Record.get msg "provider"), ("model", Record.get msg "model"),
          ("responseId", Record.get msg "responseId"), ("usage", Record.get msg "usage"),
          ("stopReason", Record.get msg "stopReason"), ("errorMessage", Record.get msg "errorMessage"),
          ("timestamp", Record.get msg "timestamp")]
        «meta» := messageMeta msg }
    | some (.str "toolResult") => some {
        kind := .tool_result
        payload := literal [("role", some (.str "toolResult")), ("toolCallId", Record.get msg "toolCallId"),
          ("toolName", Record.get msg "toolName"), ("content", serializeContent (Record.get msg "content")),
          ("details", Record.get msg "details"), ("isError", Record.get msg "isError"),
          ("timestamp", Record.get msg "timestamp")]
        «meta» := messageMeta msg }
    | _ => none
  | _ => none

/-- Convert messages to entries; what is of another role is left out. -/
def messagesToEntries (messages : List Json) : List EntryParts := messages.filterMap (messageToEntry rt)

/-! Entry to message -/

/-- One block of `reviveContent`. -/
def reviveBlock (block : Json) : Json :=
  match block.field "type" with
  | some (.str "text") => textBlock (stringOr rt (block.field "text") "")
  | some (.str "image") =>
    .obj [("type", .str "image"), ("data", .str (stringOr rt (block.field "data") "")),
      ("mimeType", .str (stringOr rt (block.field "mimeType") "image/png"))]
  | _ => textBlock (rt.string block)

def reviveContent : Option Json → Json
  | some (.str raw) => .str raw
  | some (.arr raw) => .arr (raw.map (reviveBlock rt))
  | some raw => .str (rt.string raw)
  | none => .str "undefined"

def reviveAssistantBlock (block : Json) : Json :=
  match block.field "type" with
  | some (.str "text") =>
    .obj (literal [("type", some (.str "text")), ("text", some (.str (stringOr rt (block.field "text") ""))),
      ("textSignature", block.field "textSignature")])
  | some (.str "thinking") =>
    .obj (literal [("type", some (.str "thinking")), ("thinking", some (.str (stringOr rt (block.field "thinking") ""))),
      ("thinkingSignature", block.field "thinkingSignature"), ("redacted", block.field "redacted")])
  | some (.str "toolCall") =>
    .obj (literal [("type", some (.str "toolCall")), ("id", some (.str (stringOr rt (block.field "id") ""))),
      ("name", some (.str (stringOr rt (block.field "name") ""))),
      ("arguments", (nullish (block.field "arguments")).or (some (.obj []))),
      ("thoughtSignature", block.field "thoughtSignature")])
  | _ => textBlock (rt.string block)

def reviveAssistantContent : Option Json → Json
  | some (.arr raw) => .arr (raw.map (reviveAssistantBlock rt))
  | raw => .arr [textBlock (stringOr rt raw "")]

def noUsage : Json :=
  .obj [("input", .num 0), ("output", .num 0), ("cacheRead", .num 0), ("cacheWrite", .num 0), ("totalTokens", .num 0),
    ("cost", .obj [("input", .num 0), ("output", .num 0), ("cacheRead", .num 0), ("cacheWrite", .num 0),
      ("total", .num 0)])]

def withEntryMeta (message «meta» : Record) : Record :=
  if «meta» = [] then message else Record.set message "meta" (.obj «meta»)

def entryToMessage (entry : TapeEntry) : Option Json :=
  let p := entry.payload
  match entry.kind with
  | .message =>
    match Record.get p "role" with
    | some (.str "user") =>
      some (.obj (withEntryMeta (literal [("role", some (.str "user")),
        ("content", some (reviveContent rt (Record.get p "content"))),
        ("timestamp", some (numberOrNow rt now (Record.get p "timestamp")))]) entry.meta))
    | some (.str "assistant") =>
      some (.obj (withEntryMeta (literal [("role", some (.str "assistant")),
        ("content", some (reviveAssistantContent rt (Record.get p "content"))),
        ("api", some (.str (stringOr rt (Record.get p "api") ""))),
        ("provider", some (.str (stringOr rt (Record.get p "provider") ""))),
        ("model", some (.str (stringOr rt (Record.get p "model") ""))),
        ("responseId", truthyString rt (Record.get p "responseId")),
        ("usage", (nullish (Record.get p "usage")).or (some noUsage)),
        ("stopReason", (nullish (Record.get p "stopReason")).or (some (.str "stop"))),
        ("errorMessage", truthyString rt (Record.get p "errorMessage")),
        ("timestamp", some (numberOrNow rt now (Record.get p "timestamp")))]) entry.meta))
    | _ => none
  | .tool_result =>
    some (.obj (withEntryMeta (literal [("role", some (.str "toolResult")),
      ("toolCallId", some (.str (stringOr rt (Record.get p "toolCallId") ""))),
      ("toolName", some (.str (stringOr rt (Record.get p "toolName") ""))),
      ("content", some (reviveContent rt (Record.get p "content"))), ("details", Record.get p "details"),
      ("isError", some (.bool ((Record.get p "isError").any Json.truthy))),
      ("timestamp", some (numberOrNow rt now (Record.get p "timestamp")))]) entry.meta))
  | _ => none

/-- Convert a list of tape entries to messages; the other kinds are skipped. -/
def entriesToMessages (entries : List TapeEntry) : List Json := entries.filterMap (entryToMessage rt now)

end Runtime

end Nexal.Tape
