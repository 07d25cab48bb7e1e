import Mathlib.Data.List.Induction
import Nexal.Spec.TapeStore

/-! What the tape store is for: a log of entries per tape, which appends extend and a reset
clears. `Refines` ties the tables to that log, and every call keeps it. -/

namespace Nexal.Tape

open TapeSql (int4Max)

variable (rt : JsRuntime) (opts : TapeStoreOptions)

/-- The normalised entries appended to each tape since its last reset. -/
abbrev Log := TapeId → List TapeEntryDraft

def Log.note (log : Log) (op : Op) (ok : Bool) : Log :=
  if ok then
    match op with
    | .append tape entries now =>
      Function.update log tape (log tape ++ entries.toList.map (normalizeTapeEntryDraft rt now))
    | .handoff tape name state date now =>
      Function.update log tape
        (log tape ++ [normalizeTapeEntryDraft rt now (anchorDraft name state date)])
    | .create tape _ | .reset tape | .delete tape => Function.update log tape []
  else log

def serialRun : List Op → Db × Log :=
  List.foldl (fun s op => let out := exec rt opts s.1 op; (out.1, s.2.note rt op out.2))
    (Db.empty, fun _ => [])

def stored (d : TapeEntryDraft) : TapeEntryDraft := (prepareEntry rt opts d).1

def storedFrom (first : ℕ) (ds : List TapeEntryDraft) : List TapeEntry :=
  ds.mapIdx fun i d => (stored rt opts d).withId (first + i)

theorem storedFrom_append (first : ℕ) (ds es : List TapeEntryDraft) :
    storedFrom rt opts first (ds ++ es) =
      storedFrom rt opts first ds ++ storedFrom rt opts (first + ds.length) es := by
  simp only [storedFrom, List.mapIdx_append, Nat.add_assoc, Nat.add_comm ds.length]

def lastIds (db : Db) (t : TapeId) : List ℕ := (db.tapes.filter (·.id = t)).map (·.lastEntryId)

structure Refines (db : Db) (log : Log) : Prop where
  row : ∀ t, lastIds db t = [(log t).length] ∨ (lastIds db t = [] ∧ log t = [])
  entries : ∀ t, (entryRows db t).map rowToEntry = storedFrom rt opts 1 (log t)

theorem find_id {db : Db} {t : TapeId} {row : TapeRow} (h : findTapeRecordById db t = some row) :
    row.id = t := by
  have hmem := List.mem_of_head? h
  simpa using (List.mem_filter.mp hmem).2

theorem lastIds_of_find_none {db : Db} {t : TapeId} (h : findTapeRecordById db t = none) :
    lastIds db t = [] := by
  rw [findTapeRecordById, List.head?_eq_none_iff] at h
  rw [lastIds, h, List.map_nil]

variable {rt opts} {db : Db} {log : Log}

theorem Refines.find_some (h : Refines rt opts db log) {t : TapeId} {row : TapeRow}
    (hf : findTapeRecordById db t = some row) : row.lastEntryId = (log t).length := by
  obtain ⟨tl, htl⟩ := List.head?_eq_some_iff.mp hf
  have hrow : lastIds db t = row.lastEntryId :: tl.map (·.lastEntryId) := by
    rw [lastIds, htl, List.map_cons]
  rcases h.row t with h1 | ⟨h1, -⟩
  · rw [hrow] at h1
    exact (List.cons.inj h1).1
  · rw [hrow] at h1
    cases h1

theorem Refines.find_none (h : Refines rt opts db log) {t : TapeId}
    (hf : findTapeRecordById db t = none) : log t = [] := by
  rcases h.row t with h1 | ⟨-, h1⟩
  · rw [lastIds_of_find_none hf] at h1
    cases h1
  · exact h1

theorem Refines.entryIds (h : Refines rt opts db log) (t : TapeId) :
    (entryRows db t).map (·.entryId) = List.range' 1 (log t).length := by
  have hids := congrArg (List.map TapeEntry.id) (h.entries t)
  rw [List.map_map] at hids
  have hmap : (TapeEntry.id ∘ rowToEntry) = TapeEntryRow.entryId := rfl
  rw [hmap] at hids
  rw [hids]
  refine List.ext_getElem (by simp [storedFrom]) fun i hi _ => ?_
  simp [storedFrom, TapeEntryDraft.withId]

/-- The tables see a change of the file table in no query. -/
theorem Refines.of_files (h : Refines rt opts db log) (files : List TapeFileRow) :
    Refines rt opts { db with tapeFiles := files } log := ⟨h.row, h.entries⟩

theorem lastIds_update (db : Db) (id t : TapeId) (n : ℕ) :
    lastIds { db with tapes := db.tapes.map fun r => if r.id = id then { r with lastEntryId := n } else r } t =
      if t = id then (lastIds db t).map fun _ => n else lastIds db t := by
  have hid : ((fun r : TapeRow => decide (r.id = t)) ∘
      fun r => if r.id = id then { r with lastEntryId := n } else r) = fun r => decide (r.id = t) := by
    funext r
    by_cases hr : r.id = id <;> simp [hr]
  simp only [lastIds, List.filter_map, hid]
  split_ifs with ht
  · rw [List.map_map, List.map_map]
    refine List.map_congr_left fun r hr => ?_
    have : r.id = id := ht ▸ by simpa using (List.mem_filter.mp hr).2
    simp [this]
  · rw [List.map_map]
    refine List.map_congr_left fun r hr => ?_
    have : r.id ≠ id := by
      have hrt : r.id = t := by simpa using (List.mem_filter.mp hr).2
      exact hrt ▸ ht
    simp [this]

/-- A tape that is found keeps exactly one row. -/
theorem Refines.lastIds_of_find (h : Refines rt opts db log) {t : TapeId} {row : TapeRow}
    (hf : findTapeRecordById db t = some row) : lastIds db t = [(log t).length] := by
  rcases h.row t with h1 | ⟨h1, -⟩
  · exact h1
  · obtain ⟨tl, htl⟩ := List.head?_eq_some_iff.mp hf
    rw [lastIds, htl] at h1
    cases h1

/-! `appendTape` -/

theorem insertEntries_ok {rows : List TapeEntryRow} (hmax : ∀ r ∈ rows, r.entryId ≤ int4Max)
    (hnew : ∀ r ∈ rows, ∀ r' ∈ db.tapeEntries, r'.tapeId = r.tapeId → r'.entryId ≠ r.entryId) :
    insertEntries db rows = .ok { db with tapeEntries := db.tapeEntries ++ rows } := by
  unfold insertEntries
  have h1 : (rows.any fun r => decide (int4Max < r.entryId)) = false :=
    List.any_eq_false.mpr fun r hr => by simpa using hmax r hr
  have h2 : (rows.any fun r => db.tapeEntries.any fun r' =>
      decide (r'.tapeId = r.tapeId ∧ r'.entryId = r.entryId)) = false := by
    refine List.any_eq_false.mpr fun r hr => ?_
    rw [Bool.not_eq_true]
    refine List.any_eq_false.mpr fun r' hr' => ?_
    simpa using hnew r hr r' hr'
  simp only [h1, h2, Bool.false_eq_true, if_false]

/-- The rows of the INSERT, as entries. -/
theorem entryRow_toEntry (tape : TapeId) (first : ℕ) (now : JsNumber) (prepared : List TapeEntryDraft) :
    (prepared.mapIdx fun index entry => entryRow rt tape (first + index) now entry).map rowToEntry =
      prepared.mapIdx fun index entry => entry.withId (first + index) := by
  refine List.ext_getElem (by simp) fun i hi _ => ?_
  simp [entryRow, rowToEntry, TapeEntryDraft.withId]

def appended (rt : JsRuntime) (db : Db) (now : JsNumber) (tape : TapeId) (n : ℕ)
    (prepared : List TapeEntryDraft) : Db :=
  { db with
    tapes := db.tapes.map fun r => if r.id = tape then { r with lastEntryId := n + prepared.length } else r
    tapeEntries := db.tapeEntries ++ prepared.mapIdx fun index entry =>
      entryRow rt tape (n + 1 + index) now entry }

/-- On tables that refine a log, the transaction of an append fails only because the tape is
missing or its ids no longer fit the column. -/
theorem appendTx_eq (h : Refines rt opts db log) (now : JsNumber) (tape : TapeId)
    (prepared : List TapeEntryDraft) :
    appendTx rt now tape prepared db =
      match findTapeRecordById db tape with
      | none => .error (.tapeNotFound tape)
      | some _ =>
        if int4Max < (log tape).length + prepared.length then .error .integerOutOfRange
        else .ok (appended rt db now tape (log tape).length prepared,
          prepared.mapIdx fun index entry => entry.withId ((log tape).length + 1 + index)) := by
  unfold appendTx requireTapeRecord
  cases hf : findTapeRecordById db tape with
  | none => rfl
  | some row =>
    obtain rfl := find_id hf
    have hlast := h.find_some hf
    simp only [bind, Except.bind, updateLastEntryId, hlast]
    split_ifs with hmax
    · rfl
    · dsimp only
      rw [insertEntries_ok]
      · simp only [pure, Except.pure, entryRow_toEntry]
        rfl
      · intro r hr
        obtain ⟨i, hi, rfl⟩ := List.mem_mapIdx.mp hr
        simp only [entryRow]
        omega
      · intro r hr r' hr' htape
        obtain ⟨i, hi, rfl⟩ := List.mem_mapIdx.mp hr
        have hmem : r'.entryId ∈ (entryRows db row.id).map (·.entryId) :=
          List.mem_map_of_mem (List.mem_filter.mpr ⟨hr', decide_eq_true htape⟩)
        rw [h.entryIds, List.mem_range'_1] at hmem
        simp only [entryRow]
        omega

theorem entryRows_append (db : Db) (rows : List TapeEntryRow) (t : TapeId) :
    entryRows { db with tapeEntries := db.tapeEntries ++ rows } t =
      entryRows db t ++ rows.filter (·.tapeId = t) := by
  simp [entryRows]

theorem filter_mapIdx_entryRow (tape t : TapeId) (first : ℕ) (now : JsNumber)
    (prepared : List TapeEntryDraft) :
    (prepared.mapIdx fun index entry => entryRow rt tape (first + index) now entry).filter (·.tapeId = t) =
      if tape = t then prepared.mapIdx fun index entry => entryRow rt tape (first + index) now entry
      else [] := by
  split_ifs with ht
  · refine List.filter_eq_self.mpr fun r hr => ?_
    obtain ⟨i, hi, rfl⟩ := List.mem_mapIdx.mp hr
    exact decide_eq_true ht
  · refine List.filter_eq_nil_iff.mpr fun r hr => ?_
    obtain ⟨i, hi, rfl⟩ := List.mem_mapIdx.mp hr
    exact fun h => ht (of_decide_eq_true h)

/-- The tables after the transaction of an append refine the longer log. -/
theorem refines_appended (h : Refines rt opts db log) (now : JsNumber) {tape : TapeId} {row : TapeRow}
    (hf : findTapeRecordById db tape = some row) (ds : List TapeEntryDraft) :
    Refines rt opts (appended rt db now tape (log tape).length (ds.map (stored rt opts)))
      (Function.update log tape (log tape ++ ds)) := by
  refine ⟨fun t => ?_, fun t => ?_⟩
  · have hrow : lastIds (appended rt db now tape (log tape).length (ds.map (stored rt opts))) t = _ :=
      lastIds_update db tape t ((log tape).length + (ds.map (stored rt opts)).length)
    rw [hrow]
    by_cases ht : t = tape
    · subst ht
      left
      simp [h.lastIds_of_find hf]
    · simpa only [if_neg ht, Function.update_of_ne ht] using h.row t
  · have hent : entryRows (appended rt db now tape (log tape).length (ds.map (stored rt opts))) t = _ :=
      entryRows_append db ((ds.map (stored rt opts)).mapIdx fun index entry =>
        entryRow rt tape ((log tape).length + 1 + index) now entry) t
    rw [hent, filter_mapIdx_entryRow, List.map_append, h.entries t]
    by_cases ht : t = tape
    · subst ht
      have hnew : (ds.map (stored rt opts)).mapIdx
          (fun index entry => entry.withId ((log t).length + 1 + index)) =
          storedFrom rt opts (1 + (log t).length) ds := by
        refine List.ext_getElem (by simp [storedFrom]) fun i hi _ => ?_
        simp [storedFrom, Nat.add_comm 1]
      rw [if_pos rfl, entryRow_toEntry, Function.update_self, storedFrom_append, hnew]
    · rw [if_neg (fun he => ht he.symm), List.map_nil, List.append_nil, Function.update_of_ne ht]

/-- What a call of `appendTape` can do: nothing for an empty batch, nothing but recording
files when it throws, else one transaction. -/
theorem appendTape_cases (h : Refines rt opts db log) (now : JsNumber) (tape : TapeId)
    (entries : OneOrMany TapeEntryDraft) :
    (entries.toList = [] ∧ appendTape rt opts now tape entries db = (db, .ok (.many []))) ∨
    (∃ files e, appendTape rt opts now tape entries db = ({ db with tapeFiles := files }, .error e)) ∨
    (∃ files row res, findTapeRecordById db tape = some row ∧
      appendTape rt opts now tape entries db =
        (appended rt { db with tapeFiles := files } now tape (log tape).length
          ((entries.toList.map (normalizeTapeEntryDraft rt now)).map (stored rt opts)), .ok res) ∧
      res.toList = storedFrom rt opts ((log tape).length + 1)
        (entries.toList.map (normalizeTapeEntryDraft rt now))) := by
  by_cases hempty : entries.toList = []
  · left
    exact ⟨hempty, by simp [appendTape, hempty]⟩
  right
  generalize hfiles : ((entries.toList.map fun e =>
    prepareEntry rt opts (normalizeTapeEntryDraft rt now e)).flatMap (·.2)).foldl
      (insertFile now) db.tapeFiles = files
  have hprep : ((entries.toList.map fun e =>
      prepareEntry rt opts (normalizeTapeEntryDraft rt now e)).map (·.1)) =
      (entries.toList.map (normalizeTapeEntryDraft rt now)).map (stored rt opts) := by
    simp [stored]
  have hfind : findTapeRecordById { db with tapeFiles := files } tape = findTapeRecordById db tape := rfl
  have hisEmpty : entries.toList.isEmpty = false := by simpa using hempty
  simp only [appendTape, hisEmpty, Bool.false_eq_true, if_false, hfiles, hprep,
    appendTx_eq (h.of_files files), hfind]
  cases hf : findTapeRecordById db tape with
  | none => exact Or.inl ⟨files, _, rfl⟩
  | some row =>
    by_cases hmax : int4Max < (log tape).length +
        ((entries.toList.map (normalizeTapeEntryDraft rt now)).map (stored rt opts)).length
    · left
      exact ⟨files, .integerOutOfRange, by simp only [if_pos hmax]⟩
    · right
      simp only [if_neg hmax]
      refine ⟨files, row, _, rfl, rfl, ?_⟩
      have hres : ((entries.toList.map (normalizeTapeEntryDraft rt now)).map (stored rt opts)).mapIdx
          (fun index entry => entry.withId ((log tape).length + 1 + index)) =
          storedFrom rt opts ((log tape).length + 1)
            (entries.toList.map (normalizeTapeEntryDraft rt now)) := by
        refine List.ext_getElem (by simp [storedFrom]) fun i hi _ => ?_
        simp [storedFrom]
      rw [hres]
      cases entries <;> rfl

theorem refines_appendTape (h : Refines rt opts db log) (now : JsNumber) (tape : TapeId)
    (entries : OneOrMany TapeEntryDraft) :
    Refines rt opts (appendTape rt opts now tape entries db).1
      (if (appendTape rt opts now tape entries db).2.toBool then
        Function.update log tape (log tape ++ entries.toList.map (normalizeTapeEntryDraft rt now))
      else log) := by
  rcases appendTape_cases h now tape entries with ⟨hnil, heq⟩ | ⟨files, e, heq⟩ | ⟨files, row, res, hf, heq, -⟩
  · rw [heq, hnil]
    simpa [Except.toBool] using h
  · rw [heq]
    exact h.of_files files
  · rw [heq]
    exact refines_appended (h.of_files files) now hf _

/-! The other calls -/

theorem refines_createTapeRecord (h : Refines rt opts db log) (id : TapeId) (now : JsNumber) :
    Refines rt opts (createTapeRecord id now db).1
      (if (createTapeRecord id now db).2.toBool then Function.update log id [] else log) := by
  unfold createTapeRecord
  by_cases hex : (db.tapes.any fun r => decide (r.id = id)) = true
  · rw [if_pos hex]
    exact h
  rw [if_neg hex]
  have hnone : lastIds db id = [] := by
    rw [lastIds, List.map_eq_nil_iff, List.filter_eq_nil_iff]
    intro r hr hid
    exact hex (List.any_eq_true.mpr ⟨r, hr, hid⟩)
  have hlog : log id = [] := by
    rcases h.row id with h1 | ⟨-, h1⟩
    · rw [hnone] at h1
      cases h1
    · exact h1
  have hupd : Function.update log id [] = log := by rw [← hlog, Function.update_eq_self]
  simp only [Except.toBool, if_true, hupd]
  refine ⟨fun t => ?_, h.entries⟩
  have happ : lastIds { db with tapes := db.tapes ++ [⟨id, 0, now⟩] } t =
      lastIds db t ++ if id = t then [0] else [] := by
    simp only [lastIds, List.filter_append, List.map_append, List.filter_cons, List.filter_nil]
    by_cases ht : id = t <;> simp [ht]
  rw [happ]
  by_cases ht : id = t
  · subst ht
    left
    simp [hnone, hlog]
  · simpa only [if_neg ht, List.append_nil] using h.row t

/-- Deleting every entry of one tape. -/
theorem entryRows_without (db : Db) (id t : TapeId) :
    entryRows { db with tapeEntries := db.tapeEntries.filter (·.tapeId ≠ id) } t =
      if t = id then [] else entryRows db t := by
  simp only [entryRows, List.filter_filter]
  split_ifs with ht
  · refine List.filter_eq_nil_iff.mpr fun r _ => ?_
    simp only [Bool.and_eq_true, decide_eq_true_eq, not_and]
    exact fun h1 h2 => h2 (h1.trans ht)
  · refine List.filter_congr fun r _ => ?_
    by_cases hr : r.tapeId = t
    · simp [hr, ht]
    · simp [hr]

theorem refines_reset (h : Refines rt opts db log) (tape : TapeId) :
    Refines rt opts (reset tape db).1 (Function.update log tape []) := by
  unfold reset
  cases hf : findTapeRecordById db tape with
  | none =>
    have hupd : Function.update log tape [] = log := by
      rw [← h.find_none hf, Function.update_eq_self]
    simpa only [hupd] using h
  | some row =>
    obtain rfl := find_id hf
    simp only [updateLastEntryId, show ¬ int4Max < 0 by omega, if_false]
    refine ⟨fun t => ?_, fun t => ?_⟩
    · have hrow := lastIds_update db row.id t 0
      rw [show lastIds { db with
          tapes := db.tapes.map fun r => if r.id = row.id then { r with lastEntryId := 0 } else r
          tapeEntries := db.tapeEntries.filter (·.tapeId ≠ row.id) } t = _ from hrow]
      by_cases ht : t = row.id
      · left
        simp [ht, h.lastIds_of_find hf]
      · simpa only [if_neg ht, Function.update_of_ne ht] using h.row t
    · have hent := entryRows_without db row.id t
      rw [show entryRows { db with
          tapes := db.tapes.map fun r => if r.id = row.id then { r with lastEntryId := 0 } else r
          tapeEntries := db.tapeEntries.filter (·.tapeId ≠ row.id) } t = _ from hent]
      by_cases ht : t = row.id
      · simp [ht, storedFrom]
      · simpa only [if_neg ht, Function.update_of_ne ht] using h.entries t

theorem refines_delete (h : Refines rt opts db log) (tape : TapeId) :
    Refines rt opts (delete tape db).1 (Function.update log tape []) := by
  unfold delete
  cases hf : findTapeRecordById db tape with
  | none =>
    have hupd : Function.update log tape [] = log := by
      rw [← h.find_none hf, Function.update_eq_self]
    simpa only [hupd] using h
  | some row =>
    obtain rfl := find_id hf
    refine ⟨fun t => ?_, fun t => ?_⟩
    · have hrow : lastIds { db with
          tapes := db.tapes.filter (·.id ≠ row.id)
          tapeEntries := db.tapeEntries.filter (·.tapeId ≠ row.id) } t =
          if t = row.id then [] else lastIds db t := by
        simp only [lastIds, List.filter_filter]
        split_ifs with ht
        · refine List.map_eq_nil_iff.mpr (List.filter_eq_nil_iff.mpr fun r _ => ?_)
          simp only [Bool.and_eq_true, decide_eq_true_eq, not_and]
          exact fun h1 h2 => h2 (h1.trans ht)
        · refine congrArg _ (List.filter_congr fun r _ => ?_)
          by_cases hr : r.id = t
          · simp [hr, ht]
          · simp [hr]
      rw [hrow]
      by_cases ht : t = row.id
      · right
        simp [ht]
      · simpa only [if_neg ht, Function.update_of_ne ht] using h.row t
    · have hent := entryRows_without db row.id t
      rw [show entryRows { db with
          tapes := db.tapes.filter (·.id ≠ row.id)
          tapeEntries := db.tapeEntries.filter (·.tapeId ≠ row.id) } t = _ from hent]
      by_cases ht : t = row.id
      · simp [ht, storedFrom]
      · simpa only [if_neg ht, Function.update_of_ne ht] using h.entries t

/-! Whole runs -/

theorem refines_empty : Refines rt opts Db.empty fun _ => [] :=
  ⟨fun _ => Or.inr ⟨rfl, rfl⟩, fun _ => rfl⟩

theorem refines_exec (h : Refines rt opts db log) (op : Op) :
    Refines rt opts (exec rt opts db op).1 (log.note rt op (exec rt opts db op).2) := by
  cases op with
  | create id now => exact refines_createTapeRecord h id now
  | append tape entries now => exact refines_appendTape h now tape entries
  | handoff tape name state date now =>
    have happ := refines_appendTape h now tape (.one (anchorDraft name state date))
    have hok : (handoff rt opts now date tape name state db).2.toBool =
        (appendTape rt opts now tape (.one (anchorDraft name state date)) db).2.toBool := by
      simp only [handoff]
      cases (appendTape rt opts now tape (.one (anchorDraft name state date)) db).2 <;> rfl
    simp only [exec, Log.note, hok]
    exact happ
  | reset tape =>
    have hok : (reset tape db).2.toBool = true := by
      unfold reset updateLastEntryId
      cases findTapeRecordById db tape <;> rfl
    simp only [exec, Log.note, hok, if_true]
    exact refines_reset h tape
  | delete tape =>
    have hok : (delete tape db).2.toBool = true := by
      unfold delete
      cases findTapeRecordById db tape <;> rfl
    simp only [exec, Log.note, hok, if_true]
    exact refines_delete h tape

theorem serialRun_append (ops : List Op) (op : Op) :
    serialRun rt opts (ops ++ [op]) =
      ((exec rt opts (serialRun rt opts ops).1 op).1,
        (serialRun rt opts ops).2.note rt op (exec rt opts (serialRun rt opts ops).1 op).2) := by
  simp [serialRun]

theorem refines_serialRun (ops : List Op) :
    Refines rt opts (serialRun rt opts ops).1 (serialRun rt opts ops).2 := by
  induction ops using List.reverseRecOn with
  | nil => exact refines_empty
  | append_singleton ops op ih =>
    rw [serialRun_append]
    exact refines_exec ih op

/-- A call on one tape touches no row of another. -/
theorem Refines.entryRows_exec (h : Refines rt opts db log) {op : Op} {t : TapeId} (ht : op.tape ≠ t) :
    entryRows (exec rt opts db op).1 t = entryRows db t := by
  have happend : ∀ now tape entries, tape ≠ t →
      entryRows (appendTape rt opts now tape entries db).1 t = entryRows db t := by
    intro now tape entries hne
    rcases appendTape_cases h now tape entries with ⟨-, heq⟩ | ⟨files, e, heq⟩ | ⟨files, row, res, -, heq, -⟩
    · rw [heq]
    · rw [heq]
      rfl
    · rw [heq]
      refine (entryRows_append db _ t).trans ?_
      rw [filter_mapIdx_entryRow, if_neg hne, List.append_nil]
  cases op with
  | create id now =>
    simp only [exec, createTapeRecord]
    split_ifs <;> rfl
  | append tape entries now => exact happend now tape entries ht
  | handoff tape name state date now => exact happend now tape _ ht
  | reset tape =>
    simp only [exec, reset]
    cases hf : findTapeRecordById db tape with
    | none => rfl
    | some row =>
      obtain rfl := find_id hf
      exact (entryRows_without db row.id t).trans (if_neg (Ne.symm ht))
  | delete tape =>
    simp only [exec, delete]
    cases hf : findTapeRecordById db tape with
    | none => rfl
    | some row =>
      obtain rfl := find_id hf
      exact (entryRows_without db row.id t).trans (if_neg (Ne.symm ht))

theorem Log.note_of_ne (log : Log) {op : Op} {t : TapeId} (ht : op.tape ≠ t) (ok : Bool) :
    log.note rt op ok t = log t := by
  unfold Log.note
  split_ifs
  · cases op <;> exact Function.update_of_ne (Ne.symm ht) _ _
  · rfl

end Nexal.Tape
