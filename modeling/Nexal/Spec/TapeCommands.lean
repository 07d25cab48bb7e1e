import Nexal.Lib.JsText
import Nexal.Lib.Search
import Nexal.Spec.TapeStore

/-! The tape commands (`src/commands/builtin.ts`), and what they ask of the store: the tape calls with the column type
`uuid` in front of them, and the tables with the tapes of the sessions. A command that throws is an error. Then the links
that a spawned worker's tape gets. -/

namespace Nexal.TapeCommands

open Tape

/-- Postgres' type `uuid`: the text it gives back for the value that a text stands for, none if that is an error. -/
structure UuidType where
  input : String → Option TapeId
  input_input : ∀ text id, input text = some id → input id = some id
  input_empty : input "" = none

/-- `tapes` and `session_tapes`, with the constraints of the schema. -/
structure Tables (uuid : UuidType) where
  db : Db
  /-- the tape of each session key -/
  sessionTapes : List (String × TapeId)
  ids : ∀ row ∈ db.tapes, uuid.input row.id = some row.id
  references : ∀ row ∈ sessionTapes, ∃ tape ∈ db.tapes, tape.id = row.2

inductive QueryError where
  /-- invalid input syntax for type uuid -/
  | invalidUuid (text : String)
  | bigintOutOfRange
deriving DecidableEq

def int8Max : ℕ := 2 ^ 63 - 1

variable (rt : JsRuntime) (opts : TapeStoreOptions) {uuid : UuidType}

/-! The store -/

/-- A query for the tape of a handle. -/
def withTape {α : Type} (uuid : UuidType) (tapeId : String) (query : TapeId → α) : Except QueryError α :=
  match uuid.input tapeId with
  | none => .error (.invalidUuid tapeId)
  | some id => .ok (query id)

def read (T : Tables uuid) (tapeId : String) : Except QueryError (List TapeEntry) :=
  withTape uuid tapeId fun id => Tape.read rt opts T.db id

def readPage (T : Tables uuid) (tapeId : String) (offset limit : ℕ) : Except QueryError (List TapeEntry) :=
  if int8Max < offset then .error .bigintOutOfRange
  else withTape uuid tapeId fun id => Tape.readPage rt opts T.db id offset limit

def info (T : Tables uuid) (tapeId : String) : Except QueryError TapeInfo :=
  withTape uuid tapeId fun id =>
    match findTapeRecordById T.db id with
    | none => ⟨tapeId, 0, 0, none, 0, none⟩
    | some row => infoForTapeRecord T.db row

/-- `DELETE FROM tapes`, with the cascades to the entries and the sessions. -/
def Tables.deleteRow (T : Tables uuid) (id : TapeId) : Tables uuid where
  db := (Tape.delete id T.db).1
  sessionTapes := T.sessionTapes.filter (·.2 ≠ id)
  ids := fun row hrow => by
    refine T.ids row ?_
    rw [Tape.delete] at hrow
    split at hrow
    · exact hrow
    · exact List.mem_of_mem_filter hrow
  references := fun row hrow => by
    obtain ⟨hrow, hne⟩ := List.mem_filter.mp hrow
    obtain ⟨tape, htape, hid⟩ := T.references row hrow
    refine ⟨tape, ?_, hid⟩
    rw [Tape.delete]
    split
    · exact htape
    · rename_i found hfound
      have hfoundId : found.id = id := by
        rw [findTapeRecordById, List.head?_filter] at hfound
        simpa using List.find?_some hfound
      refine List.mem_filter.mpr ⟨htape, ?_⟩
      rw [hid, hfoundId]
      exact hne

def delete (T : Tables uuid) (tapeId : String) : Except QueryError (Tables uuid) :=
  withTape uuid tapeId fun id => T.deleteRow id

def getSessionTapeRef (T : Tables uuid) (sessionKey : String) : Option TapeId := T.sessionTapes.lookup sessionKey

/-! The commands -/

structure CommandContext where
  channel : String
  chatId : String

def CommandContext.sessionKey (ctx : CommandContext) : String := ctx.channel ++ ":" ++ ctx.chatId

inductive Payload where
  | tapes (tapes : List TapeInfo)
  | tape (tape : TapeInfo)
  | deleted (tapeId : String)
  | entries (tape : TapeInfo) (entries : List TapeEntry) (offset limit : ℕ) (total : ℕ) (hasMore : Bool)

structure CommandResult where
  text : String
  data : Option Payload := none
  error : Option String := none

/-- The `tapeId` of a ref entry, if it is a text and not empty. -/
def refTapeId (entry : TapeEntryDraft) : Option String :=
  if entry.kind = .ref then
    match (Record.get entry.payload "ref").bind (·.field "tapeId") with
    | some (.str tapeId) => if tapeId = "" then none else some tapeId
    | _ => none
  else none

/-- What the loop over the entries of a tape goes through. -/
def refsOf (T : Tables uuid) (tapeId : String) : Except QueryError (List String) :=
  (read rt opts T tapeId).map fun entries => entries.filterMap fun entry => refTapeId entry.toTapeEntryDraft

/-- The keys of the map, in order. -/
def collectReachableTapes (T : Tables uuid) (ctx : CommandContext) : Except QueryError (List String) :=
  match getSessionTapeRef T ctx.sessionKey with
  | none => .ok []
  | some root => Search.search (refsOf rt opts T) 500 ⟨[root], [root]⟩

def missingTapeId : CommandResult := { text := "Usage: /tape <tape_id>", error := some "missing tape_id" }

def tapeNotFound (tapeId : String) : CommandResult :=
  { text := "Tape not found: " ++ tapeId, error := some "tape not found" }

/-- The handle, or what the command answers without one. -/
def requireAllowedTape (T : Tables uuid) (ctx : CommandContext) : Option String →
    Except QueryError (Except CommandResult String)
  | none => .ok (.error missingTapeId)
  | some tapeId =>
    if tapeId = "" then .ok (.error missingTapeId)
    else do
      let allowed ← collectReachableTapes rt opts T ctx
      if tapeId ∈ allowed then return .ok tapeId else return .error (tapeNotFound tapeId)

def tapeLine (tape : TapeInfo) : String :=
  let shortId := if 12 < tape.id.length then String.ofList (tape.id.toList.take 12) ++ "…" else tape.id
  let anchor := match tape.lastAnchor with
    | some name => if name = "" then " no anchor" else " last anchor: " ++ name
    | none => " no anchor"
  shortId ++ "  " ++ toString tape.entries ++ " entries, " ++ toString tape.anchors ++ " anchors," ++ anchor

def listing (tapes : List TapeInfo) : CommandResult :=
  { text := if tapes.isEmpty then "No tapes found." else "\n".intercalate (tapes.map tapeLine)
    data := some (.tapes tapes) }

def tapes (T : Tables uuid) (ctx : CommandContext) : Except QueryError CommandResult := do
  let handles ← collectReachableTapes rt opts T ctx
  let infos ← handles.mapM (info T)
  return listing (infos.filter fun tape => 0 < tape.entries)

def shown (tape : TapeInfo) : CommandResult :=
  { text := "Tape " ++ tape.id ++ ": " ++ toString tape.entries ++ " entries.", data := some (.tape tape) }

def tape (T : Tables uuid) (ctx : CommandContext) (args : List String) : Except QueryError CommandResult := do
  match ← requireAllowedTape rt opts T ctx args.head? with
  | .error result => return result
  | .ok handle => return shown (← info T handle)

def currentTape : CommandResult :=
  { text := "Cannot delete the current session tape while this chat is active."
    error := some "cannot delete current session tape" }

def deleted (tapeId : String) : CommandResult :=
  { text := "Deleted tape " ++ tapeId ++ ".", data := some (.deleted tapeId) }

/-- The tables after the command, and its answer. -/
def tapeDelete (T : Tables uuid) (ctx : CommandContext) (args : List String) :
    Except QueryError (Tables uuid × CommandResult) := do
  match ← requireAllowedTape rt opts T ctx args.head? with
  | .error result => return (T, result)
  | .ok handle =>
    if getSessionTapeRef T ctx.sessionKey = some handle then return (T, currentTape)
    else return (← delete T handle, deleted handle)

/-- `Number.parseInt(arg ?? default, 10) || default` -/
def intArg (arg : Option String) (default : ℕ) : ℤ :=
  match arg.map JsText.parseInt with
  | some (some n) => if n = 0 then default else n
  | _ => default

/-- The offset and the limit of a page. -/
def page (args : List String) : ℕ × ℕ :=
  ((max 0 (intArg args[1]? 0)).toNat, (min 500 (max 1 (intArg args[2]? 100))).toNat)

def entriesPage (tape : TapeInfo) (entries : List TapeEntry) (offset limit : ℕ) : CommandResult :=
  { text := "Tape " ++ tape.id ++ ": entries " ++ toString (offset + 1) ++ "-" ++ toString (offset + entries.length) ++
      " of " ++ toString tape.entries ++ "."
    data := some (.entries tape entries offset limit tape.entries (decide (offset + entries.length < tape.entries))) }

def tapeEntries (T : Tables uuid) (ctx : CommandContext) (args : List String) : Except QueryError CommandResult := do
  match ← requireAllowedTape rt opts T ctx args.head? with
  | .error result => return result
  | .ok handle =>
    let tape ← info T handle
    let entries ← readPage rt opts T handle (page args).1 (page args).2
    return entriesPage tape entries (page args).1 (page args).2

/-! Links (`Tape.link`, and `linkWorkerTape` of `src/workers/registry.ts`) -/

def linkDraft (target : TapeId) (relation : String) («meta» entryMeta : Record) (date : String) : TapeEntryDraft where
  kind := .ref
  payload := [("ref", .obj [("type", .str "tape"), ("tapeId", .str target), ("relation", .str relation),
    ("meta", .obj «meta»)])]
  «meta» := entryMeta
  date := date

/-- What `linkWorkerTape` reads of a worker's row. -/
structure WorkerRow where
  id : String
  name : String
  kind : String
  lifetime : String
  parentSessionKey : String
  status : String

def childMeta (row : WorkerRow) : Record :=
  [("role", .str "child_agent"), ("agentId", .str row.id), ("name", .str row.name), ("kind", .str row.kind),
    ("lifetime", .str row.lifetime), ("parentSessionKey", .str row.parentSessionKey), ("status", .str row.status)]

def linkWorkerTape (row : WorkerRow) (parentTape childTape : TapeId) (date : String) (now : JsNumber) : List Op :=
  [.append parentTape (.one (linkDraft childTape "link" (childMeta row)
    (("event", .str "agent_spawn") :: childMeta row) date)) now,
    .append childTape (.one (linkDraft parentTape "parent"
      [("role", .str "parent_agent"), ("parentSessionKey", .str row.parentSessionKey)] [("event", .str "agent_parent")]
        date)) now]

end Nexal.TapeCommands
