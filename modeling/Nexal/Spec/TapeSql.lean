import Nexal.Lib.Runs

/-! The SQL statements that `appendTape`, `handoff` and `reset` run on one tape, as atomic
steps of a READ COMMITTED database. A SELECT takes no lock and sees committed rows, the
UPDATE of the `tapes` row keeps its lock until the transaction ends, and a statement that
meets a row another transaction is deleting waits for that transaction. What a transaction
has written stays in its phase and reaches the tables when it commits. -/

namespace Nexal.TapeSql

variable {α : Type}

/-- Largest value of the `integer` columns `last_entry_id` and `entry_id`. -/
def int4Max : ℕ := 2 ^ 31 - 1

/-- A row of `tape_entries`; `entry` is what `appendTape` prepared for it. -/
structure EntryRow (α : Type) where
  entryId : ℕ
  entry : α
deriving DecidableEq

/-- The committed rows of the tape. `lastEntryId` is `none` when `tapes` has no row for it. -/
structure Tables (α : Type) where
  lastEntryId : Option ℕ
  entries : List (EntryRow α)
deriving DecidableEq

inductive Call (α : Type) where
  | append (prepared : List α)
  | reset
deriving DecidableEq

/-- `handoff` appends the single draft `anchorDraft name state`. -/
def Call.handoff (anchor : α) : Call α := .append [anchor]

/-- How far a call's transaction has come, with what it holds in local variables. -/
inductive Phase where
  | idle
  | selected (lastEntryId : ℕ)
  | updated (lastEntryId : ℕ)
  | inserted (lastEntryId : ℕ)
  | found
  | deleted (ids : List ℕ)
  | zeroed (ids : List ℕ)
  | committed
  | aborted
deriving DecidableEq

/-- The transaction has updated the `tapes` row and not ended. -/
def Phase.locksTape : Phase → Bool
  | .updated _ | .inserted _ | .zeroed _ => true
  | _ => false

/-- The rows the transaction has deleted and not yet committed as deleted. -/
def Phase.deleting : Phase → List ℕ
  | .deleted ids | .zeroed ids => ids
  | _ => []

def Phase.ended : Phase → Bool
  | .committed | .aborted => true
  | _ => false

structure Txn (α : Type) where
  call : Call α
  phase : Phase
deriving DecidableEq

structure State (α : Type) where
  db : Tables α
  txns : List (Txn α)
deriving DecidableEq

def init (db : Tables α) (calls : List (Call α)) : State α :=
  ⟨db, calls.map fun c => ⟨c, .idle⟩⟩

def State.tapeLocked (s : State α) : Bool := s.txns.any (·.phase.locksTape)

def State.beingDeleted (s : State α) (id : ℕ) : Bool :=
  s.txns.any fun t => t.phase.deleting.contains id

def State.finished (s : State α) : Bool := s.txns.all (·.phase.ended)

/-- The rows `prepared.map((entry, index) => ...)` of the INSERT. -/
def newRows (firstId : ℕ) (prepared : List α) : List (EntryRow α) :=
  prepared.mapIdx fun index entry => ⟨firstId + index, entry⟩

/-- The next statement of one call: the tables after it and the call's next phase, or
`none` while it has to wait. -/
def execStmt (s : State α) : Call α → Phase → Option (Tables α × Phase)
  -- `if (entries.length === 0) return []`: no transaction at all
  | .append [], .idle => some (s.db, .committed)
  | .append (_ :: _), .idle =>
    match s.db.lastEntryId with
    | none => some (s.db, .aborted)
    | some n => some (s.db, .selected n)
  | .append prepared, .selected n =>
    if s.tapeLocked then none
    else if n + prepared.length ≤ int4Max then some (s.db, .updated n)
    else some (s.db, .aborted)
  | .append prepared, .updated n =>
    match (newRows (n + 1) prepared).find? fun r => s.db.entries.any (·.entryId = r.entryId) with
    | none => some (s.db, .inserted n)
    | some r => if s.beingDeleted r.entryId then none else some (s.db, .aborted)
  | .append prepared, .inserted n =>
    some (⟨some (n + prepared.length), s.db.entries ++ newRows (n + 1) prepared⟩, .committed)
  | .reset, .idle =>
    match s.db.lastEntryId with
    | none => some (s.db, .committed)
    | some _ => some (s.db, .found)
  | .reset, .found =>
    if s.db.entries.any (fun r => s.beingDeleted r.entryId) then none
    else some (s.db, .deleted (s.db.entries.map (·.entryId)))
  | .reset, .deleted ids => if s.tapeLocked then none else some (s.db, .zeroed ids)
  | .reset, .zeroed ids =>
    some (⟨some 0, s.db.entries.filter fun r => !ids.contains r.entryId⟩, .committed)
  | _, _ => none

/-- `stmt i` runs the next statement of call `i`; `cancel i` is the server ending the
transaction of call `i` for a reason of its own, such as a deadlock. -/
inductive Act where
  | stmt (i : ℕ)
  | cancel (i : ℕ)
deriving DecidableEq

def step (s : State α) : Act → Option (State α)
  | .stmt i =>
    (s.txns[i]?).bind fun t =>
      (execStmt s t.call t.phase).map fun r => ⟨r.1, s.txns.set i ⟨t.call, r.2⟩⟩
  | .cancel i =>
    (s.txns[i]?).bind fun t =>
      if t.phase.ended then none else some ⟨s.db, s.txns.set i ⟨t.call, .aborted⟩⟩

/-- The entry ids stored for the tape are exactly `1..lastEntryId`. -/
def Tables.Dense (db : Tables α) : Prop :=
  db.entries.map (·.entryId) = List.range' 1 (db.lastEntryId.getD 0)

instance (db : Tables α) : Decidable db.Dense := inferInstanceAs (Decidable (_ = _))

end Nexal.TapeSql
