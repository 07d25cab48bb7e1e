import Nexal.Lib.Lists
import Nexal.Spec.TapeSql

/-! What one statement can do. Every invariant of the tape's transactions is proved from
`step_cases`, never by unfolding `execStmt` again. -/

namespace Nexal.TapeSql

open Runs

variable {α : Type} {s s' : State α}

/-- `Stmt s c ph db ph'`: in state `s` the next statement of call `c` in phase `ph` leaves
the tables `db` and the phase `ph'`. -/
inductive Stmt (s : State α) : Call α → Phase → Tables α → Phase → Prop where
  | appendEmpty : Stmt s (.append []) .idle s.db .committed
  | appendMissing {ds : List α} (hds : ds ≠ []) (h : s.db.lastEntryId = none) :
      Stmt s (.append ds) .idle s.db .aborted
  | appendSelect {ds : List α} {n : ℕ} (hds : ds ≠ []) (h : s.db.lastEntryId = some n) :
      Stmt s (.append ds) .idle s.db (.selected n)
  | appendUpdate {ds : List α} {n : ℕ} (hfree : s.tapeLocked = false)
      (hmax : n + ds.length ≤ int4Max) : Stmt s (.append ds) (.selected n) s.db (.updated n)
  | appendOverflow {ds : List α} {n : ℕ} (hfree : s.tapeLocked = false)
      (hmax : int4Max < n + ds.length) : Stmt s (.append ds) (.selected n) s.db .aborted
  | appendInsert {ds : List α} {n : ℕ}
      (hnew : ∀ r ∈ newRows (n + 1) ds, ∀ r' ∈ s.db.entries, r'.entryId ≠ r.entryId) :
      Stmt s (.append ds) (.updated n) s.db (.inserted n)
  | appendConflict {ds : List α} {n : ℕ}
      (hold : ∃ r ∈ newRows (n + 1) ds, ∃ r' ∈ s.db.entries, r'.entryId = r.entryId) :
      Stmt s (.append ds) (.updated n) s.db .aborted
  | appendCommit {ds : List α} {n : ℕ} :
      Stmt s (.append ds) (.inserted n)
        ⟨some (n + ds.length), s.db.entries ++ newRows (n + 1) ds⟩ .committed
  | resetMissing (h : s.db.lastEntryId = none) : Stmt s .reset .idle s.db .committed
  | resetFound {n : ℕ} (h : s.db.lastEntryId = some n) : Stmt s .reset .idle s.db .found
  | resetDelete : Stmt s .reset .found s.db (.deleted (s.db.entries.map (·.entryId)))
  | resetUpdate {ids : List ℕ} (hfree : s.tapeLocked = false) :
      Stmt s .reset (.deleted ids) s.db (.zeroed ids)
  | resetCommit {ids : List ℕ} :
      Stmt s .reset (.zeroed ids)
        ⟨some 0, s.db.entries.filter fun r => !ids.contains r.entryId⟩ .committed

theorem execInsert_cases {ds : List α} {n : ℕ} {db : Tables α} {ph : Phase}
    (h : execStmt s (.append ds) (.updated n) = some (db, ph)) :
    Stmt s (.append ds) (.updated n) db ph := by
  cases hfind : (newRows (n + 1) ds).find? fun r => s.db.entries.any (·.entryId = r.entryId) with
  | none =>
    have h' : some (s.db, Phase.inserted n) = some (db, ph) := by
      cases ds <;> simpa only [execStmt, hfind] using h
    cases h'
    refine .appendInsert fun r hr r' hr' heq => ?_
    have := List.find?_eq_none.mp hfind r hr
    exact this (List.any_eq_true.mpr ⟨r', hr', by simpa using heq⟩)
  | some r =>
    have h' : (if s.beingDeleted r.entryId then none else some (s.db, Phase.aborted)) = some (db, ph) := by
      cases ds <;> simpa only [execStmt, hfind] using h
    split_ifs at h'
    cases h'
    have hmem := List.mem_of_find?_eq_some hfind
    have hclash := List.find?_some hfind
    obtain ⟨r', hr', heq⟩ := List.any_eq_true.mp hclash
    exact .appendConflict ⟨r, hmem, r', hr', by simpa using heq⟩

theorem execStmt_cases {c : Call α} {ph : Phase} {db : Tables α} {ph' : Phase}
    (h : execStmt s c ph = some (db, ph')) : Stmt s c ph db ph' := by
  cases c with
  | append ds =>
    cases ph with
    | idle =>
      cases ds with
      | nil => cases h; exact .appendEmpty
      | cons d ds =>
        simp only [execStmt] at h
        split at h
        · cases h; exact .appendMissing (List.cons_ne_nil _ _) ‹_›
        · cases h; exact .appendSelect (List.cons_ne_nil _ _) ‹_›
    | selected n =>
      have h' : (if s.tapeLocked then none
          else if n + ds.length ≤ int4Max then some (s.db, Phase.updated n)
          else some (s.db, .aborted)) = some (db, ph') := by
        cases ds <;> exact h
      split_ifs at h' with hlock hmax
      · cases h'; exact .appendUpdate (by simpa using hlock) hmax
      · cases h'; exact .appendOverflow (by simpa using hlock) (by omega)
    | updated n => exact execInsert_cases h
    | inserted n =>
      have h' : some (⟨some (n + ds.length), s.db.entries ++ newRows (n + 1) ds⟩,
          Phase.committed) = some (db, ph') := by
        cases ds <;> exact h
      cases h'; exact .appendCommit
    | found | deleted ids | zeroed ids | committed | aborted => cases ds <;> cases h
  | reset =>
    cases ph with
    | idle =>
      simp only [execStmt] at h
      split at h
      · cases h; exact .resetMissing ‹_›
      · cases h; exact .resetFound ‹_›
    | found =>
      simp only [execStmt] at h
      split_ifs at h
      cases h; exact .resetDelete
    | deleted ids =>
      simp only [execStmt] at h
      split_ifs at h with hlock
      cases h; exact .resetUpdate (by simpa using hlock)
    | zeroed ids => cases h; exact .resetCommit
    | selected n | updated n | inserted n | committed | aborted => cases h

/-- Every step rewrites the phase of one transaction, by its next statement or by a
cancellation that leaves the tables alone. -/
theorem step_cases {a : Act} (h : step s a = some s') :
    ∃ i t db ph, s.txns[i]? = some t ∧ s' = ⟨db, s.txns.set i ⟨t.call, ph⟩⟩ ∧
      ((a = .stmt i ∧ Stmt s t.call t.phase db ph) ∨
        (a = .cancel i ∧ db = s.db ∧ ph = .aborted ∧ t.phase.ended = false)) := by
  cases a with
  | stmt i =>
    obtain ⟨t, ht, h⟩ := Option.bind_eq_some_iff.mp h
    obtain ⟨⟨db, ph⟩, hstmt, rfl⟩ := Option.map_eq_some_iff.mp h
    exact ⟨i, t, db, ph, ht, rfl, Or.inl ⟨rfl, execStmt_cases hstmt⟩⟩
  | cancel i =>
    obtain ⟨t, ht, h⟩ := Option.bind_eq_some_iff.mp h
    split_ifs at h with hend
    cases h
    exact ⟨i, t, s.db, .aborted, ht, rfl, Or.inr ⟨rfl, rfl, rfl, by simpa using hend⟩⟩

theorem tapeLocked_eq_false_iff :
    s.tapeLocked = false ↔ ∀ (j : ℕ) (t : Txn α), s.txns[j]? = some t → t.phase.locksTape = false := by
  constructor
  · intro h j t ht
    have hmem := List.mem_of_getElem? ht
    simpa using List.any_eq_false.mp h t hmem
  · intro h
    refine List.any_eq_false.mpr fun t ht => ?_
    obtain ⟨j, hj⟩ := Lists.exists_getElem?_of_mem ht
    simp [h j t hj]

theorem newRows_ids (first : ℕ) (ds : List α) :
    (newRows first ds).map (·.entryId) = List.range' first ds.length := by
  induction ds generalizing first with
  | nil => rfl
  | cons d ds ih =>
    have hshift : newRows first (d :: ds) = ⟨first, d⟩ :: newRows (first + 1) ds := by
      simp only [newRows, List.mapIdx_cons, Nat.add_zero, List.cons.injEq, true_and]
      congr 1
      funext index entry
      simp only [EntryRow.mk.injEq, and_true]
      omega
    rw [hshift, List.map_cons, ih, List.length_cons, List.range'_succ]

theorem newRows_append (first : ℕ) (ds es : List α) :
    newRows first (ds ++ es) = newRows first ds ++ newRows (first + ds.length) es := by
  simp only [newRows, List.mapIdx_append, Nat.add_assoc, Nat.add_comm ds.length]

theorem Stmt.not_ended {c : Call α} {ph ph' : Phase} {db : Tables α} (h : Stmt s c ph db ph') :
    ph.ended = false := by
  cases h <;> rfl

theorem Stmt.selected_cases {ds : List α} {v : ℕ} {db : Tables α} {ph : Phase}
    (h : Stmt s (.append ds) (.selected v) db ph) :
    db = s.db ∧ ((v + ds.length ≤ int4Max ∧ ph = .updated v) ∨
      (int4Max < v + ds.length ∧ ph = .aborted)) := by
  cases h with
  | appendUpdate hfree hmax => exact ⟨rfl, Or.inl ⟨hmax, rfl⟩⟩
  | appendOverflow hfree hmax => exact ⟨rfl, Or.inr ⟨hmax, rfl⟩⟩

theorem Stmt.updated_cases {ds : List α} {v : ℕ} {db : Tables α} {ph : Phase}
    (h : Stmt s (.append ds) (.updated v) db ph) :
    db = s.db ∧
      ((ph = .inserted v ∧ ∀ r ∈ newRows (v + 1) ds, ∀ r' ∈ s.db.entries, r'.entryId ≠ r.entryId) ∨
      (ph = .aborted ∧ ∃ r ∈ newRows (v + 1) ds, ∃ r' ∈ s.db.entries, r'.entryId = r.entryId)) := by
  cases h with
  | appendInsert hnew => exact ⟨rfl, Or.inl ⟨rfl, hnew⟩⟩
  | appendConflict hold => exact ⟨rfl, Or.inr ⟨rfl, hold⟩⟩

theorem Stmt.inserted_cases {ds : List α} {v : ℕ} {db : Tables α} {ph : Phase}
    (h : Stmt s (.append ds) (.inserted v) db ph) :
    db = ⟨some (v + ds.length), s.db.entries ++ newRows (v + 1) ds⟩ ∧ ph = .committed := by
  cases h
  exact ⟨rfl, rfl⟩

/-- Only a commit writes to the tables. -/
theorem Stmt.writes {c : Call α} {ph ph' : Phase} {db : Tables α} (h : Stmt s c ph db ph') :
    db = s.db ∨
    (∃ ds n, c = .append ds ∧ ph = .inserted n ∧ ph' = .committed ∧
      db = ⟨some (n + ds.length), s.db.entries ++ newRows (n + 1) ds⟩) ∨
    (∃ ids, c = .reset ∧ ph = .zeroed ids ∧ ph' = .committed ∧
      db = ⟨some 0, s.db.entries.filter fun r => !ids.contains r.entryId⟩) := by
  cases h
  case appendCommit ds n => exact Or.inr (Or.inl ⟨ds, n, rfl, rfl, rfl, rfl⟩)
  case resetCommit ids => exact Or.inr (Or.inr ⟨ids, rfl, rfl, rfl, rfl⟩)
  all_goals exact Or.inl rfl

def LockUnique (s : State α) : Prop :=
  ∀ (i j : ℕ) (ti tj : Txn α), s.txns[i]? = some ti → s.txns[j]? = some tj →
    ti.phase.locksTape = true → tj.phase.locksTape = true → i = j

theorem lockUnique_init (db : Tables α) (calls : List (Call α)) : LockUnique (init db calls) := by
  intro i j ti tj hi _ hli _
  have hmem := List.mem_of_getElem? hi
  obtain ⟨c, _, rfl⟩ := List.mem_map.mp hmem
  exact absurd hli (by simp [Phase.locksTape])

/-- A statement that takes the lock finds it free; every other one keeps or drops it. -/
theorem Stmt.locks {c : Call α} {ph ph' : Phase} {db : Tables α} (h : Stmt s c ph db ph')
    (hl : ph'.locksTape = true) : ph.locksTape = true ∨ s.tapeLocked = false := by
  cases h <;> simp_all [Phase.locksTape]

theorem lockUnique_step {a : Act} (hu : LockUnique s) (h : step s a = some s') : LockUnique s' := by
  obtain ⟨k, t, db, ph, hk, rfl, hcase⟩ := step_cases h
  have hnew : ph.locksTape = true → t.phase.locksTape = true ∨ s.tapeLocked = false := by
    intro hl
    rcases hcase with ⟨-, hstmt⟩ | ⟨-, -, rfl, -⟩
    · exact hstmt.locks hl
    · cases hl
  -- the rewritten transaction against another one that already holds the lock
  have hother : ∀ (j : ℕ) (tj : Txn α), j ≠ k → s.txns[j]? = some tj → ph.locksTape = true →
      tj.phase.locksTape = true → False := by
    intro j tj hjk hj hl hlj
    rcases hnew hl with ht | hfree
    · exact hjk (hu j k tj t hj hk hlj ht)
    · rw [tapeLocked_eq_false_iff.mp hfree j tj hj] at hlj
      cases hlj
  intro i j ti tj hi hj hli hlj
  rcases Lists.getElem?_set_cases hi with ⟨hik, rfl⟩ | ⟨hik, hi'⟩ <;>
    rcases Lists.getElem?_set_cases hj with ⟨hjk, rfl⟩ | ⟨hjk, hj'⟩
  · rw [hik, hjk]
  · exact (hother j tj hjk hj' hli hlj).elim
  · exact (hother i ti hik hi' hlj hli).elim
  · exact hu i j ti tj hi' hj' hli hlj

end Nexal.TapeSql
