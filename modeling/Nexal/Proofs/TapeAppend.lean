import Mathlib.Data.List.Flatten
import Mathlib.Data.List.Perm.Subperm
import Nexal.Sanity.TapeDense

/-! Concurrent appends to one tape. Every append reads the counter without a lock, so an
append whose counter another one moves before the UPDATE runs into the primary key and is
rolled back. All of them commit exactly when no commit falls between the SELECT and the
UPDATE of another call, and then the tape holds every batch in one piece. -/

namespace Nexal.TapeSql

open Runs

variable {α : Type} {s s' : State α} {batches : List (List α)} {n : ℕ}
  {entries : List (EntryRow α)}

/-- An interleaving of calls is the list of who runs the next statement. -/
def stmtStep (s : State α) (i : ℕ) : Option (State α) := step s (.stmt i)

/-- When call `i` commits, nobody holds a counter read before that commit. -/
def noStaleRead (s : State α) (i : ℕ) : Bool :=
  match (s.txns[i]?).map Txn.phase with
  | some (.inserted _) => s.txns.all fun u => !u.phase.hasSelected
  | _ => true

def batch (batches : List (List α)) (i : ℕ) : List α := batches.getD i []

/-- The committed calls in the order of their commits account for the whole table. -/
structure Account (n : ℕ) (entries : List (EntryRow α)) (batches : List (List α)) (s : State α)
    (order : List ℕ) : Prop where
  nodup : order.Nodup
  mem_iff : ∀ j, j ∈ order ↔ ∃ t, s.txns[j]? = some t ∧ t.phase = .committed
  db : s.db = ⟨some (n + (order.flatMap (batch batches)).length),
    entries ++ newRows (n + 1) (order.flatMap (batch batches))⟩

structure AppendInv (n : ℕ) (entries : List (EntryRow α)) (batches : List (List α))
    (s : State α) : Prop where
  inv : Inv s
  calls : s.txns.map Txn.call = batches.map Call.append
  account : ∃ order, Account n entries batches s order

theorem AppendInv.call (h : AppendInv n entries batches s) {j : ℕ} {t : Txn α}
    (ht : s.txns[j]? = some t) : t.call = .append (batch batches j) := by
  have hj : (s.txns.map Txn.call)[j]? = some t.call := by rw [List.getElem?_map, ht]; rfl
  rw [h.calls, List.getElem?_map] at hj
  obtain ⟨ds, hds, hcall⟩ := Option.map_eq_some_iff.mp hj
  rw [← hcall, batch, List.getD_eq_getElem?_getD, hds]
  rfl

/-- Without resets no schedule is excluded by `noOverlap`. -/
theorem AppendInv.noOverlap (h : AppendInv n entries batches s) (i : ℕ) :
    noOverlap s (.stmt i) = true := by
  have hnone : ∀ (j : ℕ) (u : Txn α), s.txns[j]? = some u → u.phase.hasDeleted = false := by
    intro j u hu
    have hcall := h.call hu
    have hinv := h.inv.txn j u hu
    unfold TxnInv at hinv
    cases hph : u.phase <;> simp_all [Phase.hasDeleted]
  have hall : (s.txns.all fun u => !u.phase.hasDeleted) = true := by
    refine List.all_eq_true.mpr fun u hu => ?_
    obtain ⟨j, hj⟩ := Lists.exists_getElem?_of_mem hu
    simp [hnone j u hj]
  simp only [TapeSql.noOverlap]
  cases ht : s.txns[i]? with
  | none => rfl
  | some t =>
    have hown := hnone i t ht
    cases hph : t.phase <;> simp_all [Phase.hasDeleted]

theorem account_init (h : Tables.Dense ⟨some n, entries⟩) :
    AppendInv n entries batches (init ⟨some n, entries⟩ (batches.map .append)) := by
  refine ⟨inv_init _ _ h, ?_, [], List.nodup_nil, ?_, ?_⟩
  · simp [init]
  · intro j
    simp only [List.not_mem_nil, false_iff, not_exists, not_and]
    intro t ht
    have hmem := List.mem_of_getElem? ht
    obtain ⟨c, _, rfl⟩ := List.mem_map.mp hmem
    simp
  · simp [init, newRows]

/-- A phase other than `committed` that stays so leaves the account as it is. -/
theorem Account.keep {order : List ℕ} (h : Account n entries batches s order) {i : ℕ} {t : Txn α}
    {ph : Phase} (ht : s.txns[i]? = some t) (hold : t.phase ≠ .committed) (hnew : ph ≠ .committed) :
    Account n entries batches ⟨s.db, s.txns.set i ⟨t.call, ph⟩⟩ order := by
  refine ⟨h.nodup, fun j => (h.mem_iff j).trans ⟨?_, ?_⟩, h.db⟩
  · rintro ⟨u, hu, hc⟩
    have hji : i ≠ j := by
      rintro rfl
      rw [ht] at hu
      exact hold (Option.some.inj hu ▸ hc)
    exact ⟨u, by rw [List.getElem?_set_ne hji]; exact hu, hc⟩
  · rintro ⟨u, hu, hc⟩
    rcases Lists.getElem?_set_cases hu with ⟨-, rfl⟩ | ⟨-, hu⟩
    · exact absurd hc hnew
    · exact ⟨u, hu, hc⟩

/-- A commit puts the call at the end of the account. -/
theorem Account.commit {order : List ℕ} (h : Account n entries batches s order) {i : ℕ} {t : Txn α}
    (ht : s.txns[i]? = some t) (hold : t.phase ≠ .committed) {db : Tables α}
    (hdb : db = ⟨some (s.db.lastEntryId.getD 0 + (batch batches i).length),
      s.db.entries ++ newRows (s.db.lastEntryId.getD 0 + 1) (batch batches i)⟩) :
    Account n entries batches ⟨db, s.txns.set i ⟨t.call, .committed⟩⟩ (order ++ [i]) := by
  have hi : i ∉ order := by
    intro hmem
    obtain ⟨u, hu, hc⟩ := (h.mem_iff i).mp hmem
    rw [ht] at hu
    exact hold (Option.some.inj hu ▸ hc)
  refine ⟨?_, fun j => ?_, ?_⟩
  · exact List.nodup_append.mpr ⟨h.nodup, by simp,
      fun a ha b hb hab => hi (List.mem_singleton.mp hb ▸ hab ▸ ha)⟩
  · rw [List.mem_append, List.mem_singleton, h.mem_iff j]
    constructor
    · rintro (⟨u, hu, hc⟩ | rfl)
      · by_cases hij : i = j
        · subst hij
          exact ⟨⟨t.call, .committed⟩, Lists.getElem?_set_self_of_some ht, rfl⟩
        · exact ⟨u, by rw [List.getElem?_set_ne hij]; exact hu, hc⟩
      · exact ⟨⟨t.call, .committed⟩, Lists.getElem?_set_self_of_some ht, rfl⟩
    · rintro ⟨u, hu, hc⟩
      rcases Lists.getElem?_set_cases hu with ⟨hji, -⟩ | ⟨-, hu⟩
      · exact Or.inr hji
      · exact Or.inl ⟨u, hu, hc⟩
  · rw [hdb, h.db]
    simp only [Option.getD_some, List.flatMap_append, List.flatMap_cons, List.flatMap_nil,
      List.append_nil, List.length_append, Nat.add_assoc, newRows_append, List.append_assoc,
      Tables.mk.injEq, true_and, List.append_cancel_left_eq]
    congr 1
    omega

theorem appendInv_step (h : AppendInv n entries batches s) {i : ℕ} (hs : stmtStep s i = some s') :
    AppendInv n entries batches s' := by
  have hinv := inv_step h.inv (h.noOverlap i) hs
  obtain ⟨order, hacc⟩ := h.account
  obtain ⟨k, t, db, ph, ht, rfl, ⟨hk, hstmt⟩ | ⟨hk, -⟩⟩ := step_cases hs
  swap
  · cases hk
  cases hk
  refine ⟨hinv, (Lists.map_set_of_eq (a := ⟨t.call, ph⟩) ht rfl).trans h.calls, ?_⟩
  have hold : t.phase ≠ .committed := fun hc => by
    have := hstmt.not_ended
    rw [hc] at this
    cases this
  have hcall := h.call ht
  have hown := h.inv.txn i t ht
  rw [hcall] at hstmt
  generalize hph0 : t.phase = ph0 at hstmt
  generalize hds : batch batches i = ds at hstmt
  cases hstmt
  case appendEmpty =>
    refine ⟨order ++ [i], hacc.commit ht hold ?_⟩
    rw [hds, hacc.db]
    simp [newRows]
  case appendCommit v =>
    rw [TxnInv, hph0] at hown
    exact ⟨order ++ [i], hacc.commit ht hold (by rw [hds, ← hown.1])⟩
  all_goals exact ⟨order, hacc.keep ht hold (by simp)⟩

theorem appendInv_run (h : AppendInv n entries batches s) {sched : List ℕ}
    (hrun : run stmtStep s sched = some s') : AppendInv n entries batches s' :=
  run_inv_all _ (fun _ _ _ hi hs => appendInv_step hi hs) h hrun

/-- The counter only grows while there is no reset. -/
theorem counter_mono (h : AppendInv n entries batches s) {i : ℕ} (hs : stmtStep s i = some s') :
    s.db.lastEntryId.getD 0 ≤ s'.db.lastEntryId.getD 0 := by
  obtain ⟨k, t, db, ph, ht, rfl, ⟨hk, hstmt⟩ | ⟨hk, -⟩⟩ := step_cases hs
  swap
  · cases hk
  have hcall := h.call ht
  have hown := h.inv.txn k t ht
  rcases hstmt.writes with rfl | ⟨ds, v, -, hph, -, rfl⟩ | ⟨ids, hreset, -⟩
  · exact Nat.le_refl _
  · rw [TxnInv, hph] at hown
    simp only [Option.getD_some, ← hown.1]
    omega
  · rw [hcall] at hreset
    cases hreset

/-! A call that holds a counter below the committed one is lost. -/

def Doomed (s : State α) (j : ℕ) : Prop :=
  ∃ t, s.txns[j]? = some t ∧ (t.phase = .aborted ∨
    ∃ v, v < s.db.lastEntryId.getD 0 ∧ (t.phase = .selected v ∨ t.phase = .updated v))

theorem doomed_step (h : AppendInv n entries batches s) {i j : ℕ} (hd : Doomed s j)
    (hs : stmtStep s i = some s') : Doomed s' j := by
  have hmono := counter_mono h hs
  obtain ⟨u, hu, hlost⟩ := hd
  obtain ⟨k, t, db, ph, ht, rfl, ⟨hk, hstmt⟩ | ⟨hk, -⟩⟩ := step_cases hs
  swap
  · cases hk
  by_cases hkj : k = j
  · subst hkj
    obtain rfl : t = u := Option.some.inj (ht.symm.trans hu)
    refine ⟨⟨t.call, ph⟩, Lists.getElem?_set_self_of_some ht, ?_⟩
    have hcall := h.call ht
    have hown := h.inv.txn k t ht
    rcases hlost with hab | ⟨v, hv, hsel | hupd⟩
    · have := hstmt.not_ended
      rw [hab] at this
      cases this
    · rw [hcall, hsel] at hstmt
      obtain ⟨rfl, ⟨-, rfl⟩ | ⟨-, rfl⟩⟩ := hstmt.selected_cases
      · exact Or.inr ⟨v, hv, Or.inr rfl⟩
      · exact Or.inl rfl
    · rw [TxnInv, hupd, hcall] at hown
      rw [hcall, hupd] at hstmt
      obtain ⟨rfl, ⟨-, hnew⟩ | ⟨rfl, -⟩⟩ := hstmt.updated_cases
      · have := insert_at_end h.inv.dense (fun hds => hown.2 (congrArg Call.append hds)) hown.1 hnew
        omega
      · exact Or.inl rfl
  · refine ⟨u, by rw [List.getElem?_set_ne hkj]; exact hu, ?_⟩
    rcases hlost with hab | ⟨v, hv, hph⟩
    · exact Or.inl hab
    · exact Or.inr ⟨v, Nat.lt_of_lt_of_le hv hmono, hph⟩

theorem doomed_run (h : AppendInv n entries batches s) {j : ℕ} (hd : Doomed s j) {sched : List ℕ}
    (hrun : run stmtStep s sched = some s') : Doomed s' j :=
  (run_inv_all (fun s => AppendInv n entries batches s ∧ Doomed s j)
    (fun _ _ _ hi hs => ⟨appendInv_step hi.1 hs, doomed_step hi.1 hi.2 hs⟩) ⟨h, hd⟩ hrun).2

theorem Doomed.not_committed {j : ℕ} (hd : Doomed s j) : ∃ t ∈ s.txns, t.phase ≠ .committed := by
  obtain ⟨t, ht, hlost⟩ := hd
  refine ⟨t, List.mem_of_getElem? ht, fun hc => ?_⟩
  rcases hlost with h | ⟨v, -, h | h⟩ <;> rw [hc] at h <;> cases h

/-- A commit over somebody else's open counter read dooms that call. -/
theorem doomed_of_staleRead (h : AppendInv n entries batches s) {i : ℕ} (hs : stmtStep s i = some s')
    (hstale : noStaleRead s i = false) : ∃ j, Doomed s' j := by
  obtain ⟨k, t, db, ph, ht, rfl, ⟨hk, hstmt⟩ | ⟨hk, -⟩⟩ := step_cases hs
  swap
  · cases hk
  cases hk
  simp only [noStaleRead, ht, Option.map_some] at hstale
  split at hstale
  swap
  · cases hstale
  rename_i v hv
  have hph : t.phase = .inserted v := Option.some.inj hv
  obtain ⟨u, hu, hsel⟩ := List.all_eq_false.mp hstale
  obtain ⟨j, hj⟩ := Lists.exists_getElem?_of_mem hu
  have hcall := h.call ht
  have hown := h.inv.txn i t ht
  have hother := h.inv.txn j u hj
  rw [TxnInv, hph] at hown
  have hne : i ≠ j := by
    rintro rfl
    obtain rfl : t = u := Option.some.inj (ht.symm.trans hj)
    rw [hph] at hsel
    simp [Phase.hasSelected] at hsel
  refine ⟨j, u, by rw [List.getElem?_set_ne hne]; exact hj, Or.inr ?_⟩
  have hds : batch batches i ≠ [] := fun hds => hown.2 (hcall.trans (congrArg Call.append hds))
  have hpos := List.length_pos_iff.mpr hds
  rw [hcall, hph] at hstmt
  obtain ⟨rfl, rfl⟩ := hstmt.inserted_cases
  cases hpu : u.phase with
  | selected w =>
    rw [TxnInv, hpu] at hother
    exact ⟨w, by simp only [Option.getD_some, hown.1]; omega, Or.inl rfl⟩
  | _ => simp [hpu, Phase.hasSelected] at hsel

theorem runOk_of_allCommitted {sched : List ℕ} (h : AppendInv n entries batches s)
    (hrun : run stmtStep s sched = some s') (hall : ∀ t ∈ s'.txns, t.phase = .committed) :
    RunOk stmtStep (fun s i => noStaleRead s i = true) s sched := by
  induction sched generalizing s with
  | nil => trivial
  | cons i sched ih =>
    obtain ⟨m, hm, hrest⟩ := run_cons hrun
    refine ⟨?_, fun m' hm' => ?_⟩
    · by_contra hstale
      obtain ⟨j, hd⟩ := doomed_of_staleRead h hm (by simpa using hstale)
      obtain ⟨t, ht, hne⟩ := (doomed_run (appendInv_step h hm) hd hrest).not_committed
      exact hne (hall t ht)
    · obtain rfl : m = m' := Option.some.inj (hm.symm.trans hm')
      exact ih (appendInv_step h hm) hrest

/-! The column type: what has been written fits, so all batches fit once they are written. -/

structure Fits (batches : List (List α)) (s : State α) : Prop where
  counter : s.db.lastEntryId.getD 0 ≤ int4Max
  pending : ∀ (j : ℕ) (t : Txn α), s.txns[j]? = some t →
    ∀ v, t.phase = .updated v ∨ t.phase = .inserted v → v + (batch batches j).length ≤ int4Max

theorem fits_step (h : AppendInv n entries batches s) (hf : Fits batches s) {i : ℕ}
    (hs : stmtStep s i = some s') : Fits batches s' := by
  obtain ⟨k, t, db, ph, ht, rfl, ⟨hk, hstmt⟩ | ⟨hk, -⟩⟩ := step_cases hs
  swap
  · cases hk
  have hcall := h.call ht
  have hown := hf.pending k t ht
  rw [hcall] at hstmt
  refine ⟨?_, fun j u hu v hv => ?_⟩
  · rcases hstmt.writes with rfl | ⟨ds, v, hds, hph, -, rfl⟩ | ⟨ids, hreset, -⟩
    · exact hf.counter
    · have := hown v (Or.inr hph)
      rw [Call.append.inj hds] at this
      exact this
    · cases hreset
  · rcases Lists.getElem?_set_cases hu with ⟨rfl, rfl⟩ | ⟨-, hu⟩
    · generalize t.phase = ph0 at hstmt hown
      generalize batch batches j = ds at hstmt hown ⊢
      cases hstmt <;> simp_all
    · exact hf.pending j u hu v hv

/-! The other direction: as long as nobody commits over an open read, no counter goes stale. -/

def Fresh (s : State α) : Prop :=
  ∀ (j : ℕ) (t : Txn α), s.txns[j]? = some t → t.phase ≠ .aborted ∧
    ∀ v, t.phase = .selected v ∨ t.phase = .updated v → v = s.db.lastEntryId.getD 0

theorem flatMap_range_batch (batches : List (List α)) :
    (List.range batches.length).flatMap (batch batches) = batches.flatten := by
  rw [List.flatMap_def]
  congr 1
  refine List.ext_getElem (by simp) fun i _ hi => ?_
  simp [batch, List.getElem?_eq_getElem hi]

/-- Distinct calls together write no more than all calls. -/
theorem length_flatMap_le {order : List ℕ} (hnd : order.Nodup)
    (hlt : ∀ j ∈ order, j < batches.length) :
    (order.flatMap (batch batches)).length ≤ (batches.map List.length).sum := by
  obtain ⟨l, hperm, hsub⟩ := List.Nodup.subperm hnd (fun j hj => List.mem_range.mpr (hlt j hj))
  calc (order.flatMap (batch batches)).length
      = (l.flatMap (batch batches)).length := (hperm.flatMap_right _).length_eq.symm
    _ ≤ ((List.range batches.length).flatMap (batch batches)).length := by
      rw [List.flatMap_def, List.flatMap_def]
      exact ((hsub.map _).flatten).length_le
    _ = (batches.map List.length).sum := by rw [flatMap_range_batch, List.length_flatten]

/-- A call that has not committed still fits behind the counter. -/
theorem fits_behind_counter (h : AppendInv n entries batches s)
    (hsum : n + (batches.map List.length).sum ≤ int4Max) {j : ℕ} {t : Txn α}
    (ht : s.txns[j]? = some t) (hph : t.phase ≠ .committed) :
    s.db.lastEntryId.getD 0 + (batch batches j).length ≤ int4Max := by
  obtain ⟨order, hacc⟩ := h.account
  have hlen : s.txns.length = batches.length := by
    simpa using congrArg List.length h.calls
  have hlt : ∀ k u, s.txns[k]? = some u → k < batches.length :=
    fun k u hu => hlen ▸ (List.getElem?_eq_some_iff.mp hu).1
  have hj : j ∉ order := by
    intro hmem
    obtain ⟨u, hu, hc⟩ := (hacc.mem_iff j).mp hmem
    exact hph (Option.some.inj (ht.symm.trans hu) ▸ hc)
  have hall : ∀ k ∈ j :: order, k < batches.length := by
    intro k hk
    rcases List.mem_cons.mp hk with rfl | hk
    · exact hlt k t ht
    · obtain ⟨u, hu, -⟩ := (hacc.mem_iff k).mp hk
      exact hlt k u hu
  have hbound := length_flatMap_le (List.nodup_cons.mpr ⟨hj, hacc.nodup⟩) hall
  rw [List.flatMap_cons, List.length_append] at hbound
  rw [hacc.db, Option.getD_some]
  omega

/-- The call that runs the statement neither aborts nor keeps an old counter. -/
theorem fresh_own (h : AppendInv n entries batches s)
    (hsum : n + (batches.map List.length).sum ≤ int4Max) (hf : Fresh s) {i : ℕ} {t : Txn α}
    {db : Tables α} {ph : Phase} (ht : s.txns[i]? = some t) (hstmt : Stmt s t.call t.phase db ph) :
    ph ≠ .aborted ∧ ∀ v, ph = .selected v ∨ ph = .updated v → v = db.lastEntryId.getD 0 := by
  have hfit := fits_behind_counter h hsum ht
  have hown := (hf i t ht).2
  rw [h.call ht] at hstmt
  generalize t.phase = ph0 at hstmt hown hfit
  generalize batch batches i = ds at hstmt hfit
  cases hstmt with
  | appendMissing _ hnone =>
    obtain ⟨order, hacc⟩ := h.account
    rw [hacc.db] at hnone
    cases hnone
  | appendSelect _ hn => simp [hn]
  | @appendUpdate _ v _ _ => simpa using hown v (Or.inl rfl)
  | @appendOverflow _ v _ hmax =>
    have := hown v (Or.inl rfl)
    have := hfit (by simp)
    omega
  | @appendConflict _ v hold =>
    obtain ⟨r, hr, r', hr', heq⟩ := hold
    have hv := hown v (Or.inr rfl)
    have hhigh : r.entryId ∈ (newRows (v + 1) ds).map (·.entryId) := List.mem_map_of_mem hr
    have hlow : r'.entryId ∈ s.db.entries.map (·.entryId) := List.mem_map_of_mem hr'
    rw [newRows_ids, List.mem_range'_1] at hhigh
    rw [h.inv.dense, List.mem_range'_1] at hlow
    omega
  | appendEmpty | appendInsert _ | appendCommit => simp

theorem fresh_step (h : AppendInv n entries batches s)
    (hsum : n + (batches.map List.length).sum ≤ int4Max) (hf : Fresh s) {i : ℕ}
    (hok : noStaleRead s i = true) (hs : stmtStep s i = some s') : Fresh s' := by
  obtain ⟨k, t, db, ph, ht, rfl, ⟨hk, hstmt⟩ | ⟨hk, -⟩⟩ := step_cases hs
  swap
  · cases hk
  cases hk
  have hcall := h.call ht
  intro j u hu
  rcases Lists.getElem?_set_cases hu with ⟨-, rfl⟩ | ⟨hji, hu'⟩
  · exact fresh_own h hsum hf ht hstmt
  rcases hstmt.writes with rfl | ⟨ds, v, -, hph, -, rfl⟩ | ⟨ids, hreset, -⟩
  · exact hf j u hu'
  · -- a commit: the others hold neither an open read nor the lock
    refine ⟨(hf j u hu').1, fun w hw => ?_⟩
    simp only [noStaleRead, ht, Option.map_some, hph, List.all_eq_true] at hok
    have hsel := hok u (List.mem_of_getElem? hu')
    rcases hw with hw | hw
    · simp [hw, Phase.hasSelected] at hsel
    · exact absurd (h.inv.lock j i u t hu' ht (by rw [hw]; rfl) (by rw [hph]; rfl)) hji
  · rw [hcall] at hreset
    cases hreset

theorem committed_of_fresh (hf : Fresh s) (hend : s.finished = true) :
    ∀ t ∈ s.txns, t.phase = .committed := by
  intro t ht
  obtain ⟨j, hj⟩ := Lists.exists_getElem?_of_mem ht
  have hended := List.all_eq_true.mp hend t ht
  have hne := (hf j t hj).1
  cases hph : t.phase <;> simp_all [Phase.ended]

/-- Once every call has committed, the table is the old one followed by all batches, in the
order of the commits. -/
theorem kept_of_allCommitted (h : AppendInv n entries batches s)
    (hall : ∀ t ∈ s.txns, t.phase = .committed) :
    ∃ order : List ℕ, order.Perm (List.range batches.length) ∧
      s.db = ⟨some (n + (batches.map List.length).sum),
        entries ++ newRows (n + 1) (order.flatMap (batch batches))⟩ := by
  obtain ⟨order, hacc⟩ := h.account
  have hlen : s.txns.length = batches.length := by
    simpa using congrArg List.length h.calls
  have hperm : order.Perm (List.range batches.length) := by
    refine (List.perm_ext_iff_of_nodup hacc.nodup List.nodup_range).mpr fun j => ?_
    rw [hacc.mem_iff, List.mem_range, ← hlen]
    constructor
    · rintro ⟨t, ht, -⟩
      exact (List.getElem?_eq_some_iff.mp ht).1
    · intro hj
      exact ⟨s.txns[j], List.getElem?_eq_getElem hj, hall _ (List.getElem_mem hj)⟩
  refine ⟨order, hperm, ?_⟩
  rw [hacc.db, (hperm.flatMap_right _).length_eq, flatMap_range_batch, List.length_flatten]

/-- For every complete interleaving of appends: all of them commit, and the tape holds every
batch exactly once and in one piece, if and only if no commit falls between the SELECT and
the UPDATE of another call and the ids fit the column. -/
theorem appends_kept_iff (n : ℕ) (entries : List (EntryRow α)) (h0 : Tables.Dense ⟨some n, entries⟩)
    (hn : n ≤ int4Max) (batches : List (List α)) (sched : List ℕ) (s : State α)
    (hrun : run stmtStep (init ⟨some n, entries⟩ (batches.map .append)) sched = some s)
    (hend : s.finished = true) :
    ((∀ t ∈ s.txns, t.phase = .committed) ∧
      ∃ order : List ℕ, order.Perm (List.range batches.length) ∧
        s.db.entries = entries ++ newRows (n + 1) (order.flatMap (batch batches))) ↔
    RunOk stmtStep (fun s i => noStaleRead s i = true)
        (init ⟨some n, entries⟩ (batches.map .append)) sched ∧
      n + (batches.map List.length).sum ≤ int4Max := by
  have hinit : AppendInv n entries batches (init ⟨some n, entries⟩ (batches.map .append)) := account_init h0
  constructor
  · rintro ⟨hall, -⟩
    refine ⟨runOk_of_allCommitted hinit hrun hall, ?_⟩
    have hfits0 : Fits batches (init ⟨some n, entries⟩ (batches.map .append)) := by
      refine ⟨hn, fun j t ht v hv => ?_⟩
      have hmem := List.mem_of_getElem? ht
      obtain ⟨c, _, rfl⟩ := List.mem_map.mp hmem
      simp at hv
    have hfits := (run_inv_all (fun s => AppendInv n entries batches s ∧ Fits batches s)
      (fun _ _ _ hi hs => ⟨appendInv_step hi.1 hs, fits_step hi.1 hi.2 hs⟩)
      ⟨hinit, hfits0⟩ hrun).2.counter
    obtain ⟨order, -, hdb⟩ := kept_of_allCommitted (appendInv_run hinit hrun) hall
    rw [hdb] at hfits
    exact hfits
  · rintro ⟨hok, hsum⟩
    have hfresh0 : Fresh (init ⟨some n, entries⟩ (batches.map .append)) := by
      intro j t ht
      have hmem := List.mem_of_getElem? ht
      obtain ⟨c, _, rfl⟩ := List.mem_map.mp hmem
      simp
    have hfin := run_inv (fun s => AppendInv n entries batches s ∧ Fresh s)
      (fun _ _ _ hi hk hs => ⟨appendInv_step hi.1 hs, fresh_step hi.1 hsum hi.2 hk hs⟩)
      ⟨hinit, hfresh0⟩ hok hrun
    have hall := committed_of_fresh hfin.2 hend
    obtain ⟨order, hperm, hdb⟩ := kept_of_allCommitted hfin.1 hall
    exact ⟨hall, order, hperm, by rw [hdb]⟩

/-- Two appends and a third one that reads the counter after the first commit. -/
theorem appends_kept_iff_run :
    ∃ s, run stmtStep (init ⟨some 0, []⟩ ([["a"], ["b", "c"], []].map .append))
        [0, 0, 2, 0, 0, 1, 1, 1, 1] = some s ∧
      ∀ t ∈ s.txns, t.phase = .committed :=
  ⟨_, rfl, ((appends_kept_iff 0 [] (by decide) (by decide) [["a"], ["b", "c"], []]
    [0, 0, 2, 0, 0, 1, 1, 1, 1] _ rfl rfl).mpr (by decide)).1⟩

/-- Both calls read the counter before either updates it: the second one is rolled back. -/
theorem overlapping_append_lost :
    ∃ s, run stmtStep (init ⟨some 0, []⟩ ([["a"], ["b"]].map .append)) [0, 1, 0, 0, 0, 1, 1] = some s ∧
      s.finished = true ∧ s.txns = [⟨.append ["a"], .committed⟩, ⟨.append ["b"], .aborted⟩] ∧
      s.db.entries = [⟨1, "a"⟩] :=
  ⟨_, rfl, rfl, by decide, by decide⟩

/-! No interleaving of appends gets stuck: as long as one has not ended, a statement can run. -/

theorem AppendInv.beingDeleted (h : AppendInv n entries batches s) (id : ℕ) :
    s.beingDeleted id = false := by
  refine List.any_eq_false.mpr fun u hu => ?_
  obtain ⟨j, hj⟩ := Lists.exists_getElem?_of_mem hu
  have hcall := h.call hj
  have hinv := h.inv.txn j u hj
  unfold TxnInv at hinv
  cases hph : u.phase <;> simp_all [Phase.deleting]

theorem execStmt_isSome_of_locks (h : AppendInv n entries batches s) {j : ℕ} {t : Txn α}
    (ht : s.txns[j]? = some t) (hl : t.phase.locksTape = true) :
    (execStmt s t.call t.phase).isSome = true := by
  have hinv := h.inv.txn j t ht
  rw [h.call ht]
  unfold TxnInv at hinv
  generalize batch batches j = ds
  cases hph : t.phase with
  | updated v =>
    cases ds <;> simp only [execStmt] <;> split <;> simp [h.beingDeleted]
  | inserted v => cases ds <;> rfl
  | zeroed ids =>
    rw [hph] at hinv
    exact absurd (hinv.1.symm.trans (h.call ht)) (by simp)
  | _ => simp [hph, Phase.locksTape] at hl

theorem execStmt_isSome_of_free (h : AppendInv n entries batches s) (hfree : s.tapeLocked = false)
    {j : ℕ} {t : Txn α} (ht : s.txns[j]? = some t) (hend : t.phase.ended = false) :
    (execStmt s t.call t.phase).isSome = true := by
  have hlock := tapeLocked_eq_false_iff.mp hfree j t ht
  have hinv := h.inv.txn j t ht
  rw [h.call ht]
  unfold TxnInv at hinv
  generalize batch batches j = ds
  cases hph : t.phase with
  | idle => cases ds <;> simp only [execStmt] <;> [rfl; (split <;> rfl)]
  | selected v =>
    cases ds <;> simp only [execStmt, hfree, Bool.false_eq_true, if_false] <;> split_ifs <;> rfl
  | found =>
    rw [hph] at hinv
    exact absurd (hinv.symm.trans (h.call ht)) (by simp)
  | deleted ids =>
    rw [hph] at hinv
    exact absurd (hinv.1.symm.trans (h.call ht)) (by simp)
  | updated v | inserted v | zeroed ids => simp [hph, Phase.locksTape] at hlock
  | committed | aborted => simp [hph, Phase.ended] at hend

theorem append_progress (h : AppendInv n entries batches s) (hend : s.finished = false) :
    ∃ i s', stmtStep s i = some s' := by
  have hstep : ∀ (j : ℕ) (t : Txn α), s.txns[j]? = some t →
      (execStmt s t.call t.phase).isSome = true → ∃ i s', stmtStep s i = some s' := by
    intro j t ht hsome
    obtain ⟨r, hr⟩ := Option.isSome_iff_exists.mp hsome
    exact ⟨j, ⟨r.1, s.txns.set j ⟨t.call, r.2⟩⟩, by simp [stmtStep, step, ht, hr]⟩
  by_cases hlocked : s.tapeLocked = true
  · obtain ⟨t, ht, hl⟩ := List.any_eq_true.mp hlocked
    obtain ⟨j, hj⟩ := Lists.exists_getElem?_of_mem ht
    exact hstep j t hj (execStmt_isSome_of_locks h hj hl)
  · obtain ⟨t, ht, hne⟩ := List.all_eq_false.mp hend
    obtain ⟨j, hj⟩ := Lists.exists_getElem?_of_mem ht
    exact hstep j t hj (execStmt_isSome_of_free h (by simpa using hlocked) hj (by simpa using hne))

def Phase.remaining : Phase → ℕ
  | .idle => 4
  | .selected _ | .found => 3
  | .updated _ | .deleted _ => 2
  | .inserted _ | .zeroed _ => 1
  | .committed | .aborted => 0

theorem Stmt.remaining_lt {c : Call α} {ph ph' : Phase} {db : Tables α} (h : Stmt s c ph db ph') :
    ph'.remaining < ph.remaining := by
  cases h <;> simp [Phase.remaining]

/-- Every interleaving can be run to the end, so `appends_kept_iff` is never about nothing. -/
theorem appends_finish (h : AppendInv n entries batches s) :
    ∃ sched s', run stmtStep s sched = some s' ∧ s'.finished = true := by
  generalize hm : (s.txns.map (·.phase.remaining)).sum = m
  induction m using Nat.strongRecOn generalizing s with
  | _ m ih =>
    by_cases hend : s.finished = true
    · exact ⟨[], s, rfl, hend⟩
    obtain ⟨i, s1, hs⟩ := append_progress h (by simpa using hend)
    have hlt : (s1.txns.map (·.phase.remaining)).sum < m := by
      obtain ⟨k, t, db, ph, ht, rfl, ⟨-, hstmt⟩ | ⟨hk, -⟩⟩ := step_cases hs
      swap
      · cases hk
      have hsum := Lists.sum_map_set (f := fun t : Txn α => t.phase.remaining) (a := ⟨t.call, ph⟩) ht
      have hdrop := hstmt.remaining_lt
      dsimp only at hsum ⊢
      omega
    obtain ⟨sched, s', hrun, hfin⟩ := ih _ hlt (appendInv_step h hs) rfl
    exact ⟨i :: sched, s', by simp [run, hs, hrun], hfin⟩

end Nexal.TapeSql

/-! Appends, handoffs and resets of one tape in any interleaving. The stored ids stay
`1..lastEntryId` as long as no append commits between the DELETE of a reset and the end of
that reset, and no reset commits between the SELECT of an append and its UPDATE. Outside of
these schedules a reset leaves rows behind, or an append writes past a hole. -/

namespace Nexal.TapeSql

open Runs

variable {α : Type}

/-- A call of `append` that runs its transaction while nothing else does. -/
def alone (db : Tables α) (ds : List α) : Option (State α) :=
  run step (init db [.append ds]) (List.replicate 4 (.stmt 0))

/-- On a dense tape such an append cannot meet its own ids in the table. -/
theorem alone_commits {db : Tables α} (h : db.Dense) {n : ℕ} (hn : db.lastEntryId = some n)
    {ds : List α} (hds : ds ≠ []) (hmax : n + ds.length ≤ int4Max) :
    alone db ds = some ⟨⟨some (n + ds.length), db.entries ++ newRows (n + 1) ds⟩,
      [⟨.append ds, .committed⟩]⟩ := by
  have hnone : ((newRows (n + 1) ds).find? fun r => db.entries.any (·.entryId = r.entryId)) = none := by
    refine List.find?_eq_none.mpr fun r hr hclash => ?_
    obtain ⟨r', hr', heq⟩ := List.any_eq_true.mp hclash
    have hlow : r'.entryId ∈ db.entries.map (·.entryId) := List.mem_map_of_mem hr'
    have hhigh : r.entryId ∈ (newRows (n + 1) ds).map (·.entryId) := List.mem_map_of_mem hr
    rw [h, hn, List.mem_range'_1] at hlow
    rw [newRows_ids, List.mem_range'_1] at hhigh
    have := of_decide_eq_true heq
    simp only [Option.getD_some] at hlow
    omega
  obtain ⟨d, ds, rfl⟩ := List.exists_cons_of_ne_nil hds
  simp only [alone, List.replicate, run, step, init, List.map_cons, List.map_nil,
    List.getElem?_cons_zero, Option.bind_some, execStmt, hn, Option.map_some, List.set_cons_zero,
    State.tapeLocked, List.any_cons, List.any_nil, Phase.locksTape, Bool.or_self, hmax, if_true,
    hnone, Bool.false_eq_true, if_false]

/-- In every state of every run that keeps resets and appends apart, the stored ids are
`1..lastEntryId`, so a later append on its own goes through. -/
theorem tape_dense_without_overlap (db : Tables α) (calls : List (Call α)) (h0 : db.Dense)
    (acts : List Act) (hok : RunOk step (fun s a => noOverlap s a = true) (init db calls) acts)
    (s : State α) (hrun : run step (init db calls) acts = some s) :
    s.db.Dense ∧
    ∀ n ds, s.db.lastEntryId = some n → ds ≠ [] → n + ds.length ≤ int4Max →
      alone s.db ds = some ⟨⟨some (n + ds.length), s.db.entries ++ newRows (n + 1) ds⟩,
        [⟨.append ds, .committed⟩]⟩ := by
  have hinv : Inv s := run_inv Inv (fun _ _ _ hi hk hs => inv_step hi hk hs) (inv_init db calls h0) hok hrun
  exact ⟨hinv.dense, fun n ds hn hds hmax => alone_commits hinv.dense hn hds hmax⟩

/-- An append overlapping the SELECT of a reset, and another append after both. -/
def separateSchedule : List Act :=
  [.stmt 0, .stmt 1, .stmt 0, .stmt 0, .stmt 0, .stmt 1, .stmt 1, .stmt 1,
    .stmt 2, .stmt 2, .stmt 2, .stmt 2]

theorem tape_dense_without_overlap_run :
    ∃ s, run step (init ⟨some 0, []⟩ [.append ["a"], .reset, .append ["b", "c"]])
        separateSchedule = some s ∧
      s.finished = true ∧ s.db.Dense ∧ s.db.lastEntryId = some 2 :=
  ⟨_, rfl, rfl, (tape_dense_without_overlap ⟨some 0, []⟩ [.append ["a"], .reset, .append ["b", "c"]]
    (by decide) separateSchedule (by decide) _ rfl).1, rfl⟩

/-- The DELETE of a reset runs between the INSERT of an append and its commit: the reset
does not see the new row and still sets the counter back to zero. -/
theorem reset_leaves_row_behind :
    ∃ s, run step (init ⟨some 0, []⟩ [.append ["a"], .reset])
        [.stmt 0, .stmt 0, .stmt 0, .stmt 1, .stmt 1, .stmt 0, .stmt 1, .stmt 1] = some s ∧
      s.finished = true ∧ ¬ s.db.Dense ∧
      (alone s.db ["b"] = none ∧
        run step (init s.db [.append ["b"]]) [.stmt 0, .stmt 0, .stmt 0] =
          some ⟨s.db, [⟨.append ["b"], .aborted⟩]⟩) :=
  ⟨_, rfl, rfl, by decide, by decide, by decide⟩

end Nexal.TapeSql
