import Mathlib.Data.Rat.Cast.Order
import Nexal.Spec.TapeEntry

/-! Redactions, amendments and the view that applies them (`packages/tape/src/view.ts`,
`Tape.redact` and `Tape.amend` of `packages/tape/src/tape.ts`). -/

namespace Nexal.Tape

/-! What `redact` and `amend` append. -/

inductive Target where
  | id (n : JsNumber)
  | ids (ns : List JsNumber)
  | range (first last : JsNumber)

/-- The numbers `first`, `first + 1`, ... that are not above `last`. -/
def resolveRange : Target → List JsNumber
  | .id n => [n]
  | .ids ns => ns
  | .range first last =>
    if first ≤ last then (List.range ((last - first).floor.toNat + 1)).map fun i => first + i else []

def TapeEntryKind.name : TapeEntryKind → String
  | .anchor => "anchor"
  | .message => "message"
  | .tool_call => "tool_call"
  | .tool_result => "tool_result"
  | .event => "event"
  | .ref => "ref"
  | .redaction => "redaction"
  | .amendment => "amendment"

def TapeEntryDraft.toJson (d : TapeEntryDraft) : Json :=
  .obj [("kind", .str d.kind.name), ("payload", .obj d.payload), ("meta", .obj d.meta),
    ("date", .str d.date)]

namespace tapeRecord

def redaction (targetId : JsNumber) (reason : Option String) (now : JsNumber) (date : String) :
    TapeEntryDraft where
  kind := .redaction
  payload := [("targetId", .num targetId)] ++ (reason.map fun r => ("reason", .str r)).toList ++
    [("redactedAt", .num now)]
  «meta» := []
  date := date

def amendment (targetIds : List JsNumber) (replacement : List TapeEntryDraft)
    (reason : Option String) (now : JsNumber) (date : String) : TapeEntryDraft where
  kind := .amendment
  payload := [("targetIds", .arr (targetIds.map .num)),
      ("replacement", .arr (replacement.map TapeEntryDraft.toJson))] ++
    (reason.map fun r => ("reason", .str r)).toList ++ [("amendedAt", .num now)]
  «meta» := []
  date := date

end tapeRecord

def redact (target : Target) (reason : Option String) (now : JsNumber) (date : String) :
    List TapeEntryDraft :=
  (resolveRange target).map fun id => tapeRecord.redaction id reason now date

def amend (target : Target) (replacement : List TapeEntryDraft) (reason : Option String)
    (now : JsNumber) (date : String) : TapeEntryDraft :=
  tapeRecord.amendment (resolveRange target) replacement reason now date

/-! The view. -/

/-- An amendment entry; `entryId` is its own id. -/
structure Amendment where
  entryId : ℕ
  targetIds : List JsNumber
  replacement : List Json

/-- `payload.targetId as number`, where zero does not count. -/
def redactionTarget (entry : TapeEntry) : Option JsNumber :=
  match entry.kind, Record.get entry.payload "targetId" with
  | .redaction, some (.num targetId) => if targetId ≠ 0 then some targetId else none
  | _, _ => none

/-- `payload.targetIds as number[]` and `payload.replacement as TapeEntry[]` -/
def amendmentOf (entry : TapeEntry) : Option Amendment :=
  if entry.kind = .amendment then
    some { entryId := entry.id
           targetIds := match Record.get entry.payload "targetIds" with
             | some (.arr ids) => ids.filterMap fun
               | .num n => some n
               | _ => none
             | _ => []
           replacement := match Record.get entry.payload "replacement" with
             | some (.arr replacement) => replacement
             | _ => [] }
  else none

def Amendment.hasEffect (a : Amendment) : Bool := !a.targetIds.isEmpty && !a.replacement.isEmpty

def Amendment.targets (a : Amendment) (entry : TapeEntry) : Bool :=
  a.targetIds.contains (entry.id : JsNumber)

def TapeEntry.isEdit (entry : TapeEntry) : Bool := entry.kind = .redaction || entry.kind = .amendment

/-- `Math.max(...ids)` of at least one number. -/
def mathMax : List JsNumber → JsNumber
  | [] => 0
  | id :: ids => ids.foldl max id

/-- What stands in the view: an entry of the tape, or an item of a replacement, with the
amendment it comes from and the id of the entry in whose place it was put. -/
inductive Shown where
  | entry (e : TapeEntry)
  | replacement (amendment : Amendment) (place : ℕ) (item : Json)

section ApplyEdits
variable (redacted : List JsNumber) (amendments : List Amendment)

/-- The main loop of `applyEdits`. `skipTo` is the `maxId` of an amendment just applied, whose
inner loop drops the entries up to it, beginning with the amended one. -/
def applyLoop : Option JsNumber → List JsNumber → List TapeEntry → List Shown
  | _, _, [] => []
  | skipTo, amendedIds, entry :: rest =>
    if skipTo.any fun maxId => (entry.id : JsNumber) ≤ maxId then applyLoop skipTo amendedIds rest
    else if entry.isEdit then applyLoop none amendedIds rest
    else if redacted.contains (entry.id : JsNumber) then applyLoop none amendedIds rest
    else if amendedIds.contains (entry.id : JsNumber) then
      match amendments.find? fun a => a.targets entry with
      | some amendment =>
        amendment.replacement.map (.replacement amendment entry.id) ++
          applyLoop (some (mathMax amendment.targetIds))
            (amendedIds.filter fun id => !amendment.targetIds.contains id) rest
      | none => .entry entry :: applyLoop none amendedIds rest
    else .entry entry :: applyLoop none amendedIds rest

end ApplyEdits

def applyEdits (entries : List TapeEntry) : List Shown :=
  let redacted := entries.filterMap redactionTarget
  let amendments := (entries.filterMap amendmentOf).filter Amendment.hasEffect
  if redacted.isEmpty && amendments.isEmpty then entries.map .entry
  else applyLoop redacted amendments none (amendments.flatMap (·.targetIds)) entries

/-- The content of a tape: the store numbers its entries upwards from one. -/
structure TapeContent where
  entries : List TapeEntry
  increasing : entries.Pairwise fun a b => a.id < b.id
  positive : ∀ e ∈ entries, 0 < e.id

def TapeContent.view (tape : TapeContent) : List Shown := applyEdits tape.entries

end Nexal.Tape
