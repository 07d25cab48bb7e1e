import Mathlib.Data.List.Sort
import Nexal.Lib.Like
import Nexal.Spec.TapeEntry
import Nexal.Spec.TapeSql

/-! The Postgres tape store (`src/tape/nexal-tape.ts`), one call after another: a call that
throws inside its transaction leaves the tables as they were. Tables are lists of rows in the
order of their insertion. -/

namespace Nexal.Tape

open TapeSql (int4Max)

abbrev TapeId := String

structure TapeRow where
  id : TapeId
  lastEntryId : ℕ
  createdAt : JsNumber

structure TapeEntryRow where
  tapeId : TapeId
  entryId : ℕ
  kind : TapeEntryKind
  anchorName : Option String
  anchorNameKey : Option String
  payload : Record
  «meta» : Record
  entryDate : String
  createdAt : JsNumber

structure TapeFileRow where
  fileHash : String
  sizeBytes : ℕ
  mimeType : String
  createdAt : JsNumber

structure Db where
  tapes : List TapeRow
  tapeEntries : List TapeEntryRow
  tapeFiles : List TapeFileRow

def Db.empty : Db := ⟨[], [], []⟩

structure FileRef where
  fileHash : String
  mimeType : String
  filename : String
  sizeBytes : ℕ

structure FileStore where
  upload : List UInt8 → String → String → FileRef
  download : String → Option (List UInt8)
  getUrl : String → Option String

structure TapeStoreOptions where
  fileStore : Option FileStore
  maxInlineSize : ℕ := 8192

structure TapeInfo where
  id : TapeId
  entries : ℕ
  anchors : ℕ
  lastAnchor : Option String
  entriesSinceLastAnchor : ℤ
  lastTokenUsage : Option JsNumber

inductive StoreError where
  | tapeNotFound (tapeId : TapeId)
  | uniqueViolation
  | integerOutOfRange

def StoreError.message : StoreError → String
  | .tapeNotFound tapeId => "Tape not found: " ++ tapeId
  | .uniqueViolation => "duplicate key value violates unique constraint"
  | .integerOutOfRange => "integer out of range"

/-- The argument and result of an overloaded `append`. -/
inductive OneOrMany (α : Type) where
  | one (a : α)
  | many (as : List α)

def OneOrMany.toList {α : Type} : OneOrMany α → List α
  | .one a => [a]
  | .many as => as

variable (rt : JsRuntime) (opts : TapeStoreOptions)

/-! Image blocks above the inline cutoff go to the file store. -/

/-- The replacement of a block and the file it was uploaded to; `none` keeps the block. -/
def maybeOffloadBlock (store : FileStore) (threshold : ℕ) : Json → Option (Json × FileRef)
  | .obj block =>
    match Record.get block "type", Record.get block "data" with
    | some (.str "image"), some (.str data) =>
      if (rt.length data : ℚ) * (3 / 4) < threshold then none
      else
        let mimeType := match Record.get block "mimeType" with
          | some (.str m) => m
          | _ => "application/octet-stream"
        let ref := store.upload (rt.bufferFromBase64 data) mimeType "tape-image"
        some (.obj [("type", .str "image"), ("fileRef", .str ref.fileHash), ("mimeType", .str mimeType)],
          ref)
    | _, _ => none
  | _ => none

/-- `INSERT ... ON CONFLICT (file_hash) DO NOTHING` -/
def insertFile (now : JsNumber) (files : List TapeFileRow) (ref : FileRef) : List TapeFileRow :=
  if files.any (·.fileHash = ref.fileHash) then files
  else files ++ [⟨ref.fileHash, ref.sizeBytes, ref.mimeType, now⟩]

def offloadLargeBlobs (store : FileStore) (threshold : ℕ) (payload : Record) :
    Record × List FileRef :=
  match Record.get payload "content" with
  | some (.arr content) =>
    let outs := content.map (maybeOffloadBlock rt store threshold)
    if outs.any Option.isSome then
      (Record.set payload "content"
        (.arr (content.map fun b => ((maybeOffloadBlock rt store threshold b).map (·.1)).getD b)),
        outs.filterMap (·.map (·.2)))
    else (payload, [])
  | _ => (payload, [])

/-- What `appendTape` makes of a normalised entry before its transaction. -/
def prepareEntry (entry : TapeEntryDraft) : TapeEntryDraft × List FileRef :=
  match opts.fileStore with
  | none => (entry, [])
  | some store =>
    let out := offloadLargeBlobs rt store opts.maxInlineSize entry.payload
    ({ entry with payload := out.1 }, out.2)

def hydrateBlock (store : FileStore) : Json → Option Json
  | .obj block =>
    match Record.get block "type", Record.get block "fileRef" with
    | some (.str "image"), some (.str fileRef) =>
      match store.download fileRef with
      | some bytes =>
        some (.obj [("type", .str "image"), ("data", .str (rt.bufferToBase64 bytes)),
          ("mimeType", match Record.get block "mimeType" with
            | some (.str m) => .str m
            | _ => .str "application/octet-stream")])
      | none =>
        match store.getUrl fileRef with
        | some url => if url = "" then none else some (.obj (Record.set block "url" (.str url)))
        | none => none
    | _, _ => none
  | _ => none

def hydrateFileRefs (store : FileStore) (payload : Record) : Record :=
  match Record.get payload "content" with
  | some (.arr content) =>
    if content.any fun b => (hydrateBlock rt store b).isSome then
      Record.set payload "content" (.arr (content.map fun b => (hydrateBlock rt store b).getD b))
    else payload
  | _ => payload

def hydrateEntry (entry : TapeEntry) : TapeEntry :=
  match opts.fileStore with
  | none => entry
  | some store => { entry with payload := hydrateFileRefs rt store entry.payload }

def hydrateEntries (entries : List TapeEntry) : List TapeEntry := entries.map (hydrateEntry rt opts)

/-! Queries. -/

def rowToEntry (row : TapeEntryRow) : TapeEntry where
  id := row.entryId
  kind := row.kind
  payload := row.payload
  «meta» := row.meta
  date := row.entryDate

def findTapeRecordById (db : Db) (id : TapeId) : Option TapeRow := (db.tapes.filter (·.id = id)).head?

def requireTapeRecord (db : Db) (id : TapeId) : Except StoreError TapeRow :=
  match findTapeRecordById db id with
  | none => .error (.tapeNotFound id)
  | some row => .ok row

/-- `WHERE tape_id = id`, in table order. -/
def entryRows (db : Db) (id : TapeId) : List TapeEntryRow := db.tapeEntries.filter (·.tapeId = id)

def orderByEntryId (rows : List TapeEntryRow) : List TapeEntryRow :=
  rows.insertionSort fun a b => a.entryId ≤ b.entryId

def orderByEntryIdDesc (rows : List TapeEntryRow) : List TapeEntryRow :=
  rows.insertionSort fun a b => b.entryId ≤ a.entryId

def read (db : Db) (tape : TapeId) : List TapeEntry :=
  match findTapeRecordById db tape with
  | none => []
  | some row => hydrateEntries rt opts ((orderByEntryId (entryRows db row.id)).map rowToEntry)

def readPage (db : Db) (tape : TapeId) (offset limit : ℕ) : List TapeEntry :=
  match findTapeRecordById db tape with
  | none => []
  | some row => hydrateEntries rt opts
      ((((orderByEntryId (entryRows db row.id)).drop offset).take limit).map rowToEntry)

/-- `payload->>'name' = 'run'` -/
def isRunEvent (row : TapeEntryRow) : Bool :=
  row.kind = .event && (Record.get row.payload "name").any fun v => v matches .str "run"

def infoForTapeRecord (db : Db) (row : TapeRow) : TapeInfo :=
  let rows := entryRows db row.id
  let entries := rows.length
  let lastAnchorRow := (orderByEntryIdDesc (rows.filter (·.kind = .anchor))).head?
  let lastRunRow := (orderByEntryIdDesc (rows.filter isRunEvent)).head?
  let usage := ((lastRunRow.bind fun r => Record.get r.payload "data").bind fun d =>
    d.field "usage").bind fun u => u.field "total_tokens"
  { id := row.id
    entries := entries
    anchors := (rows.filter (·.kind = .anchor)).length
    lastAnchor := (lastAnchorRow.bind fun r => Record.get r.payload "name").bind fun
      | .str name => some name
      | _ => none
    entriesSinceLastAnchor := match lastAnchorRow with
      | some r => entries - r.entryId
      | none => entries
    lastTokenUsage := usage.bind fun
      | .num n => some n
      | _ => none }

def info (db : Db) (tape : TapeId) : TapeInfo :=
  match findTapeRecordById db tape with
  | none => ⟨tape, 0, 0, none, 0, none⟩
  | some row => infoForTapeRecord db row

/-! Writes. -/

/-- `INSERT INTO tape_entries`, refused by the primary key and the column type. -/
def insertEntries (db : Db) (rows : List TapeEntryRow) : Except StoreError Db :=
  if rows.any fun r => int4Max < r.entryId then .error .integerOutOfRange
  else if rows.any fun r => db.tapeEntries.any fun r' => r'.tapeId = r.tapeId ∧ r'.entryId = r.entryId then
    .error .uniqueViolation
  else .ok { db with tapeEntries := db.tapeEntries ++ rows }

/-- `UPDATE tapes SET last_entry_id = n WHERE id = id` -/
def updateLastEntryId (db : Db) (id : TapeId) (n : ℕ) : Except StoreError Db :=
  if int4Max < n then .error .integerOutOfRange
  else .ok { db with tapes := db.tapes.map fun r => if r.id = id then { r with lastEntryId := n } else r }

def entryRow (tapeId : TapeId) (entryId : ℕ) (now : JsNumber) (entry : TapeEntryDraft) : TapeEntryRow where
  tapeId := tapeId
  entryId := entryId
  kind := entry.kind
  anchorName := if entry.kind = .anchor then
    some (rt.string ((nullish (Record.get entry.payload "name")).getD (.str ""))) else none
  anchorNameKey := if entry.kind = .anchor then
    match Record.get entry.payload "name" with
    | some name => if name.truthy then some (rt.sha256 (rt.string name)) else none
    | none => none
    else none
  payload := entry.payload
  «meta» := entry.meta
  entryDate := entry.date
  createdAt := now

/-- The transaction of `appendTape`. -/
def appendTx (now : JsNumber) (tape : TapeId) (prepared : List TapeEntryDraft) (db : Db) :
    Except StoreError (Db × List TapeEntry) := do
  let tapeRow ← requireTapeRecord db tape
  let firstId := tapeRow.lastEntryId + 1
  let lastId := tapeRow.lastEntryId + prepared.length
  let db ← updateLastEntryId db tapeRow.id lastId
  let rows := prepared.mapIdx fun index entry => entryRow rt tapeRow.id (firstId + index) now entry
  let db ← insertEntries db rows
  return (db, rows.map rowToEntry)

/-- Returns the tables after the call and what the call returns or throws. Files are recorded
before the transaction and outlive its failure. -/
def appendTape (now : JsNumber) (tape : TapeId) (entries : OneOrMany TapeEntryDraft) (db : Db) :
    Db × Except StoreError (OneOrMany TapeEntry) :=
  if entries.toList.isEmpty then (db, .ok (.many []))
  else
    let prepared := entries.toList.map fun e => prepareEntry rt opts (normalizeTapeEntryDraft rt now e)
    let db := { db with tapeFiles := (prepared.flatMap (·.2)).foldl (insertFile now) db.tapeFiles }
    match appendTx rt now tape (prepared.map (·.1)) db with
    | .error e => (db, .error e)
    | .ok (db, persisted) =>
      (db, .ok (match entries, persisted with
        | .one _, e :: _ => .one e
        | _, persisted => .many persisted))

def createTapeRecord (id : TapeId) (now : JsNumber) (db : Db) : Db × Except StoreError TapeRow :=
  if db.tapes.any (·.id = id) then (db, .error .uniqueViolation)
  else ({ db with tapes := db.tapes ++ [⟨id, 0, now⟩] }, .ok ⟨id, 0, now⟩)

def reset (tape : TapeId) (db : Db) : Db × Except StoreError Unit :=
  match findTapeRecordById db tape with
  | none => (db, .ok ())
  | some row =>
    let deleted := { db with tapeEntries := db.tapeEntries.filter (·.tapeId ≠ row.id) }
    match updateLastEntryId deleted row.id 0 with
    | .error e => (db, .error e)
    | .ok db' => (db', .ok ())

/-- Deleting the `tapes` row cascades to its entries. -/
def delete (tape : TapeId) (db : Db) : Db × Except StoreError Unit :=
  match findTapeRecordById db tape with
  | none => (db, .ok ())
  | some row => ({ db with
      tapes := db.tapes.filter (·.id ≠ row.id)
      tapeEntries := db.tapeEntries.filter (·.tapeId ≠ row.id) }, .ok ())

def handoff (now : JsNumber) (date : String) (tape : TapeId) (name : String) (state : Option Record)
    (db : Db) : Db × Except StoreError Unit :=
  let out := appendTape rt opts now tape (.one (anchorDraft name state date)) db
  (out.1, out.2.map fun _ => ())

/-! Serial runs. -/

/-- The calls of a client; `id` is the uuid drawn by `create`, `now` and `date` the clock. -/
inductive Op where
  | create (id : TapeId) (now : JsNumber)
  | append (tape : TapeId) (entries : OneOrMany TapeEntryDraft) (now : JsNumber)
  | handoff (tape : TapeId) (name : String) (state : Option Record) (date : String) (now : JsNumber)
  | reset (tape : TapeId)
  | delete (tape : TapeId)

def Op.tape : Op → TapeId
  | .create id _ => id
  | .append tape _ _ | .handoff tape _ _ _ _ | .reset tape | .delete tape => tape

/-- The tables after a call, and whether it returned without throwing. -/
def exec (db : Db) : Op → Db × Bool
  | .create id now => let out := createTapeRecord id now db; (out.1, out.2.toBool)
  | .append tape entries now => let out := appendTape rt opts now tape entries db; (out.1, out.2.toBool)
  | .handoff tape name state date now =>
    let out := handoff rt opts now date tape name state db; (out.1, out.2.toBool)
  | .reset tape => let out := reset tape db; (out.1, out.2.toBool)
  | .delete tape => let out := delete tape db; (out.1, out.2.toBool)

end Nexal.Tape

/-! `search` of the Postgres tape store and the pattern it makes (`src/tape/nexal-tape.ts`). How the database writes a
payload as a text is a parameter. -/

namespace Nexal.Tape

open Like (like)

/-- `value.replace(/[\\%_]/g, "\\$&")` -/
def escapeLike (value : String) : String :=
  String.ofList (value.toList.flatMap fun c => if c = '\\' ∨ c = '%' ∨ c = '_' then ['\\', c] else [c])

def searchPattern (query : String) : String := "%" ++ escapeLike query ++ "%"

/-- `payload::text LIKE pattern`, with the escape that is meant when none is named. -/
def payloadLike (payloadText : Record → String) (pattern : String) (row : TapeEntryRow) : Option Bool :=
  like '\\' pattern.toList (payloadText row.payload).toList

/-- `none` where the database refuses the pattern of the query. -/
def search (rt : JsRuntime) (opts : TapeStoreOptions) (payloadText : Record → String) (db : Db) (tape : TapeId)
    (query : String) (limit : ℕ := 20) : Option (List TapeEntry) :=
  match findTapeRecordById db tape with
  | none => some []
  | some row =>
    let pattern := searchPattern query
    let rows := entryRows db row.id
    if rows.any fun r => (payloadLike payloadText pattern r).isNone then none
    else some (hydrateEntries rt opts
      (((orderByEntryIdDesc (rows.filter fun r => payloadLike payloadText pattern r = some true)).take limit).map
        rowToEntry))

end Nexal.Tape
