import Nexal.Spec.Json

/-! Tape entries, their drafts, and the normalisation of the legacy `tool_call` shape
(`packages/tape/src/types.ts`, `src/tape/nexal-tape.ts`). -/

namespace Nexal.Tape

inductive TapeEntryKind where
  | anchor
  | message
  | tool_call
  | tool_result
  | event
  | ref
  | redaction
  | amendment
deriving DecidableEq

structure TapeEntryDraft where
  kind : TapeEntryKind
  payload : Record
  «meta» : Record
  date : String

structure TapeEntry extends TapeEntryDraft where
  id : ℕ

def TapeEntryDraft.withId (d : TapeEntryDraft) (id : ℕ) : TapeEntry := { d with id := id }

def anchorDraft (name : String) (state : Option Record) (date : String) : TapeEntryDraft where
  kind := .anchor
  payload := ("name", .str name) :: (state.map fun st => ("state", .obj st)).toList
  «meta» := []
  date := date

variable (rt : JsRuntime)

/-- One block of a message's content. -/
def normalizeBlock : Json → Option Json
  | .obj record =>
    if (Record.get record "type").any (fun v => v matches .str "tool_call") then
      let rest := Record.without record
        ["type", "id", "name", "toolCallId", "toolName", "arguments", "args", "input"]
      some (.obj (rest ++
        [("type", .str "toolCall"),
         ("id", ((nullish (Record.get record "id")).or
            (nullish (Record.get record "toolCallId"))).getD (.str "")),
         ("name", ((nullish (Record.get record "name")).or
            (nullish (Record.get record "toolName"))).getD (.str "tool")),
         ("arguments", (((nullish (Record.get record "arguments")).or
            (nullish (Record.get record "args"))).or
            (nullish (Record.get record "input"))).getD (.obj []))]))
    else none
  | _ => none

def normalizeLegacyToolCallEntry (now : JsNumber) (entry : TapeEntryDraft) : TapeEntryDraft :=
  let payload := entry.payload
  let rest := Record.without payload ["toolCallId", "toolName", "id", "name", "arguments", "args",
    "input", "thoughtSignature", "role", "content"]
  let callId := rt.string (((nullish (Record.get payload "toolCallId")).or
    (nullish (Record.get payload "id"))).getD (.str ""))
  let callName := rt.string (((nullish (Record.get payload "toolName")).or
    (nullish (Record.get payload "name"))).getD (.str "tool"))
  let timestamp := match nullish (Record.get payload "timestamp") with
    | some v => rt.number v
    | none => some ((rt.dateParse entry.date).getD now)
  let signature := match Record.get payload "thoughtSignature" with
    | some v => if v.truthy then [("thoughtSignature", v)] else []
    | none => []
  let call : Record :=
    [("type", .str "toolCall"), ("id", .str callId), ("name", .str callName),
     ("arguments", (((nullish (Record.get payload "arguments")).or
        (nullish (Record.get payload "args"))).or
        (nullish (Record.get payload "input"))).getD (.obj []))] ++ signature
  { entry with
    kind := .message
    payload := Record.set (rest ++ [("role", .str "assistant"), ("content", .arr [.obj call])])
      "timestamp" ((timestamp.map Json.num).getD .null) }

def normalizeTapeEntryDraft (now : JsNumber) (entry : TapeEntryDraft) : TapeEntryDraft :=
  match entry.kind with
  | .tool_call => normalizeLegacyToolCallEntry rt now entry
  | .message =>
    match Record.get entry.payload "content" with
    | some (.arr content) =>
      -- `changed` in the source: some block was rewritten
      if content.any fun block => (normalizeBlock block).isSome then
        { entry with
          payload := Record.set entry.payload "content"
            (.arr (content.map fun block => (normalizeBlock block).getD block)) }
      else entry
    | _ => entry
  | _ => entry

end Nexal.Tape
