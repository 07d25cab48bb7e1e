import Mathlib.Data.Int.Notation
import Nexal.Lib.Runs

/-! `getOrCreateSessionTapeRef` of `src/tape/nexal-tape.ts`: the statements of any number of calls, as
atomic steps of a READ COMMITTED database. A SELECT sees committed rows; the row that an upsert has
inserted or updated keeps its lock until the transaction ends; and what a transaction has written stays
in its phase and reaches the tables when it commits. -/

namespace Nexal.SessionTape

abbrev TapeId := String

structure TapeRow where
  id : TapeId
  lastEntryId : ℕ
  createdAt : ℤ
deriving DecidableEq

structure SessionTapeRow where
  sessionKey : String
  tapeId : TapeId
  createdAt : ℤ
  updatedAt : ℤ
deriving DecidableEq

/-- The committed rows. -/
structure Tables where
  tapes : List TapeRow
  sessionTapes : List SessionTapeRow
deriving DecidableEq

/-- The constraints of the schema: `session_key` is the primary key, `tape_id` references `tapes`. -/
structure Tables.Ok (db : Tables) : Prop where
  primaryKey : (db.sessionTapes.map (·.sessionKey)).Nodup
  references : ∀ row ∈ db.sessionTapes, ∃ tape ∈ db.tapes, tape.id = row.tapeId

def Tables.find (db : Tables) (sessionKey : String) : Option SessionTapeRow :=
  db.sessionTapes.find? (·.sessionKey = sessionKey)

/-- How far a call has come, with what it holds in local variables. -/
inductive Phase where
  | idle
  /-- no row was found; `now` is read -/
  | missing (now : ℤ)
  /-- the transaction has inserted the tape -/
  | created (tape : TapeRow) (now : ℤ)
  /-- the transaction has upserted the mapping, with what the statement returned -/
  | mapped (tape : TapeRow) (mapping : SessionTapeRow) (inserted : Bool)
  | returned (tapeId : TapeId)
  | threw
deriving DecidableEq

def Phase.ended : Phase → Bool
  | .returned _ | .threw => true
  | _ => false

/-- The tape the transaction has inserted and not committed. -/
def Phase.tape : Phase → Option TapeRow
  | .created tape _ | .mapped tape _ _ => some tape
  | _ => none

def Phase.isMapped : Phase → Bool
  | .mapped _ _ _ => true
  | _ => false

structure Call where
  sessionKey : String
  phase : Phase
deriving DecidableEq

structure State where
  db : Tables
  calls : List Call
deriving DecidableEq

def init (db : Tables) (sessionKeys : List String) : State := ⟨db, sessionKeys.map fun key => ⟨key, .idle⟩⟩

/-- Another transaction has upserted the row of the key. -/
def State.locked (s : State) (sessionKey : String) : Bool :=
  s.calls.any fun c => c.sessionKey = sessionKey && c.phase.isMapped

def State.inserting (s : State) (id : TapeId) : Bool := s.calls.any fun c => c.phase.tape.any (·.id = id)

/-- What a transaction has written reaches the tables. -/
def Tables.commit (db : Tables) (tape : TapeRow) (mapping : SessionTapeRow) (inserted : Bool) : Tables where
  tapes := db.tapes ++ [tape]
  sessionTapes :=
    if inserted then db.sessionTapes ++ [mapping]
    else db.sessionTapes.map fun row => if row.sessionKey = mapping.sessionKey then mapping else row

/-- The next statement of a call, with the time and the id that `Date.now` and `uuidv7` give: the tables
after it and the call's next phase, or `none` while it has to wait. -/
def execStmt (s : State) (sessionKey : String) (now : ℤ) (uuid : TapeId) : Phase → Option (Tables × Phase)
  | .idle =>
    match s.db.find sessionKey with
    | some row => some (s.db, .returned row.tapeId)
    | none => some (s.db, .missing now)
  | .missing now₀ =>
    if s.inserting uuid then none
    else if s.db.tapes.any (·.id = uuid) then some (s.db, .threw)
    else some (s.db, .created ⟨uuid, 0, now⟩ now₀)
  | .created tape now₀ =>
    if s.locked sessionKey then none
    else
      match s.db.find sessionKey with
      | some row => some (s.db, .mapped tape { row with updatedAt := now₀ } false)
      | none => some (s.db, .mapped tape ⟨sessionKey, tape.id, now₀, now₀⟩ true)
  | .mapped tape mapping inserted => some (s.db.commit tape mapping inserted, .returned mapping.tapeId)
  | .returned _ | .threw => none

/-- `stmt i` runs the next statement of call `i`; `cancel i` is its connection or its transaction failing. -/
inductive Act where
  | stmt (i : ℕ) (now : ℤ) (uuid : TapeId)
  | cancel (i : ℕ)
deriving DecidableEq

def step (s : State) : Act → Option State
  | .stmt i now uuid =>
    (s.calls[i]?).bind fun c =>
      (execStmt s c.sessionKey now uuid c.phase).map fun out => ⟨out.1, s.calls.set i ⟨c.sessionKey, out.2⟩⟩
  | .cancel i =>
    (s.calls[i]?).bind fun c => if c.phase.ended then none else some ⟨s.db, s.calls.set i ⟨c.sessionKey, .threw⟩⟩

end Nexal.SessionTape
