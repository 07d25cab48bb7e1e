import Nexal.Sanity.TapeSql

/-! The invariant of a tape whose resets and appends are kept apart: the stored ids are
`1..lastEntryId`, and every transaction in progress holds a counter or a set of deleted rows
that still fits the committed tables. -/

namespace Nexal.TapeSql

open Runs

variable {α : Type} {s s' : State α}

def Phase.hasDeleted : Phase → Bool
  | .deleted _ | .zeroed _ => true
  | _ => false

def Phase.hasSelected : Phase → Bool
  | .selected _ => true
  | _ => false

/-- The schedules in which resets and appends keep out of each other's way. -/
def noOverlap (s : State α) : Act → Bool
  | .cancel _ => true
  | .stmt i =>
    match (s.txns[i]?).map Txn.phase with
    | some (.inserted _) => s.txns.all fun u => !u.phase.hasDeleted
    | some (.zeroed _) => s.txns.all fun u => !u.phase.hasSelected
    | _ => true

theorem noOverlap_inserted {i n : ℕ} {t : Txn α} (h : noOverlap s (.stmt i) = true)
    (ht : s.txns[i]? = some t) (hph : t.phase = .inserted n) :
    ∀ u ∈ s.txns, u.phase.hasDeleted = false := by
  simp only [noOverlap, ht, Option.map_some, hph, List.all_eq_true] at h
  intro u hu
  simpa using h u hu

theorem noOverlap_zeroed {i : ℕ} {ids : List ℕ} {t : Txn α} (h : noOverlap s (.stmt i) = true)
    (ht : s.txns[i]? = some t) (hph : t.phase = .zeroed ids) :
    ∀ u ∈ s.txns, u.phase.hasSelected = false := by
  simp only [noOverlap, ht, Option.map_some, hph, List.all_eq_true] at h
  intro u hu
  simpa using h u hu

def TxnInv (db : Tables α) (t : Txn α) : Prop :=
  match t.phase with
  | .selected v | .updated v => v ≤ db.lastEntryId.getD 0 ∧ t.call ≠ .append []
  | .inserted v => v = db.lastEntryId.getD 0 ∧ t.call ≠ .append []
  | .found => t.call = .reset
  | .deleted ids | .zeroed ids => t.call = .reset ∧ ∀ r ∈ db.entries, r.entryId ∈ ids
  | _ => True

structure Inv (s : State α) : Prop where
  dense : s.db.Dense
  lock : LockUnique s
  txn : ∀ (j : ℕ) (t : Txn α), s.txns[j]? = some t → TxnInv s.db t

theorem inv_init (db : Tables α) (calls : List (Call α)) (h : db.Dense) : Inv (init db calls) := by
  refine ⟨h, lockUnique_init db calls, fun j t ht => ?_⟩
  have hmem := List.mem_of_getElem? ht
  obtain ⟨c, _, rfl⟩ := List.mem_map.mp hmem
  trivial

theorem dense_append {db : Tables α} (h : db.Dense) (ds : List α) :
    Tables.Dense ⟨some (db.lastEntryId.getD 0 + ds.length),
      db.entries ++ newRows (db.lastEntryId.getD 0 + 1) ds⟩ := by
  unfold Tables.Dense at h ⊢
  rw [List.map_append, h, newRows_ids, Nat.add_comm _ 1, List.range'_append_1]
  rfl

/-- In a dense tape an INSERT that starts at or below the next free id goes through only
when it starts exactly there. -/
theorem insert_at_end {db : Tables α} (h : db.Dense) {v : ℕ} {ds : List α} (hds : ds ≠ [])
    (hv : v ≤ db.lastEntryId.getD 0)
    (hnew : ∀ r ∈ newRows (v + 1) ds, ∀ r' ∈ db.entries, r'.entryId ≠ r.entryId) :
    v = db.lastEntryId.getD 0 := by
  by_contra hne
  have hfirst : v + 1 ∈ (newRows (v + 1) ds).map (·.entryId) := by
    rw [newRows_ids, List.mem_range'_1]
    have := List.length_pos_iff.mpr hds
    omega
  have hstored : v + 1 ∈ db.entries.map (·.entryId) := by
    rw [h, List.mem_range'_1]
    omega
  obtain ⟨r, hr, hrv⟩ := List.mem_map.mp hfirst
  obtain ⟨r', hr', hrv'⟩ := List.mem_map.mp hstored
  exact hnew r hr r' hr' (hrv'.trans hrv.symm)

/-- The transaction that took the statement. -/
theorem txnInv_stmt {i : ℕ} {t : Txn α} {db : Tables α} {ph : Phase} (hi : Inv s)
    (ht : s.txns[i]? = some t) (h : Stmt s t.call t.phase db ph) : TxnInv db ⟨t.call, ph⟩ := by
  obtain ⟨c, ph0⟩ := t
  have hown := hi.txn i _ ht
  cases h
  case appendSelect ds n hds hn => exact ⟨by rw [hn]; exact Nat.le_refl _, fun hc => hds (Call.append.inj hc)⟩
  case appendUpdate ds n hfree hmax => exact hown
  case appendInsert ds n hnew =>
    exact ⟨insert_at_end hi.dense (fun hds => hown.2 (congrArg Call.append hds)) hown.1 hnew, hown.2⟩
  case resetFound n hn => rfl
  case resetDelete => exact ⟨rfl, fun r hr => List.mem_map_of_mem hr⟩
  case resetUpdate ids hfree => exact hown
  all_goals trivial

/-- Rows survive the commit of a reset only if it did not see them. -/
theorem filter_eq_nil_of_seen {entries : List (EntryRow α)} {ids : List ℕ}
    (h : ∀ r ∈ entries, r.entryId ∈ ids) : (entries.filter fun r => !ids.contains r.entryId) = [] := by
  refine List.filter_eq_nil_iff.mpr fun r hr => ?_
  simpa using h r hr

theorem inv_step {a : Act} (hi : Inv s) (hok : noOverlap s a = true) (h : step s a = some s') : Inv s' := by
  have hlock := lockUnique_step hi.lock h
  obtain ⟨i, t, db, ph, ht, rfl, ⟨rfl, hstmt⟩ | ⟨rfl, rfl, rfl, -⟩⟩ := step_cases h
  · have hown := txnInv_stmt hi ht hstmt
    rcases hstmt.writes with rfl | ⟨ds, n, -, hph, -, rfl⟩ | ⟨ids, -, hph, -, rfl⟩
    · refine ⟨hi.dense, hlock, fun j u hu => ?_⟩
      rcases Lists.getElem?_set_cases hu with ⟨-, rfl⟩ | ⟨-, hu⟩
      · exact hown
      · exact hi.txn j u hu
    · -- an append commits: nobody else holds the lock and no reset is past its DELETE
      have hn : n = s.db.lastEntryId.getD 0 := by
        have := hi.txn i t ht
        rw [TxnInv, hph] at this
        exact this.1
      subst hn
      refine ⟨dense_append hi.dense ds, hlock, fun j u hu => ?_⟩
      rcases Lists.getElem?_set_cases hu with ⟨-, rfl⟩ | ⟨hji, hu⟩
      · exact hown
      have hold := hi.txn j u hu
      have hdel := noOverlap_inserted hok ht hph u (List.mem_of_getElem? hu)
      have hfree : u.phase.locksTape = false := by
        by_contra hl
        exact hji (hi.lock j i u t hu ht (by simpa using hl) (by rw [hph]; rfl))
      unfold TxnInv at hold ⊢
      cases hpu : u.phase <;> simp_all [Phase.hasDeleted, Phase.locksTape]
      omega
    · -- a reset commits: every stored row was there at its DELETE, and no counter read is open
      have hseen : ∀ r ∈ s.db.entries, r.entryId ∈ ids := by
        have := hi.txn i t ht
        rw [TxnInv, hph] at this
        exact this.2
      rw [filter_eq_nil_of_seen hseen] at hown ⊢
      refine ⟨rfl, by simpa only [filter_eq_nil_of_seen hseen] using hlock, fun j u hu => ?_⟩
      rcases Lists.getElem?_set_cases hu with ⟨-, rfl⟩ | ⟨hji, hu⟩
      · exact hown
      have hold := hi.txn j u hu
      have hsel := noOverlap_zeroed hok ht hph u (List.mem_of_getElem? hu)
      have hfree : u.phase.locksTape = false := by
        by_contra hl
        exact hji (hi.lock j i u t hu ht (by simpa using hl) (by rw [hph]; rfl))
      unfold TxnInv at hold ⊢
      cases hpu : u.phase <;> simp_all [Phase.hasSelected, Phase.locksTape]
  · refine ⟨hi.dense, hlock, fun j u hu => ?_⟩
    rcases Lists.getElem?_set_cases hu with ⟨-, rfl⟩ | ⟨-, hu⟩
    · trivial
    · exact hi.txn j u hu

end Nexal.TapeSql
