import Mathlib.Data.List.Nodup
import Nexal.Lib.Lists
import Nexal.Spec.SessionTape

/-! One tape for each session key. The first transaction to commit its mapping decides the tape; the
others wait at their upsert, keep its row and return it. -/

namespace Nexal.SessionTape

open Runs

/-- `Stmt s key ph db ph'`: the next statement of a call for `key` in phase `ph` leaves the tables `db` and
the phase `ph'`. -/
inductive Stmt (s : State) (key : String) : Phase → Tables → Phase → Prop where
  | found {row : SessionTapeRow} (h : s.db.find key = some row) : Stmt s key .idle s.db (.returned row.tapeId)
  | missed {now : ℤ} (h : s.db.find key = none) : Stmt s key .idle s.db (.missing now)
  | refused {now : ℤ} : Stmt s key (.missing now) s.db .threw
  | create {tape : TapeRow} {now : ℤ} : Stmt s key (.missing now) s.db (.created tape now)
  | update {tape : TapeRow} {now : ℤ} {row : SessionTapeRow} (hfree : s.locked key = false)
      (h : s.db.find key = some row) :
      Stmt s key (.created tape now) s.db (.mapped tape { row with updatedAt := now } false)
  | insert {tape : TapeRow} {now : ℤ} (hfree : s.locked key = false) (h : s.db.find key = none) :
      Stmt s key (.created tape now) s.db (.mapped tape ⟨key, tape.id, now, now⟩ true)
  | commit {tape : TapeRow} {mapping : SessionTapeRow} {inserted : Bool} :
      Stmt s key (.mapped tape mapping inserted) (s.db.commit tape mapping inserted) (.returned mapping.tapeId)

variable {s s' : State} {key : String} {db : Tables} {ph ph' : Phase} {i : ℕ} {c : Call}

theorem execStmt_cases {now : ℤ} {uuid : TapeId} (h : execStmt s key now uuid ph = some (db, ph')) :
    Stmt s key ph db ph' := by
  cases ph with
  | idle =>
    rw [execStmt] at h
    split at h
    · cases h
      exact .found ‹_›
    · cases h
      exact .missed ‹_›
  | missing now₀ =>
    rw [execStmt] at h
    split_ifs at h
    · cases h
      exact .refused
    · cases h
      exact .create
  | created tape now₀ =>
    rw [execStmt] at h
    split_ifs at h with hlocked
    rw [Bool.not_eq_true] at hlocked
    split at h
    · cases h
      exact .update hlocked ‹_›
    · cases h
      exact .insert hlocked ‹_›
  | mapped tape mapping inserted =>
    cases h
    exact .commit
  | returned | threw => cases h

/-- A step is a statement of a call, or the end of one that had not ended. -/
theorem step_cases {a : Act} (h : step s a = some s') : ∃ i c db ph, s.calls[i]? = some c ∧
    s' = ⟨db, s.calls.set i ⟨c.sessionKey, ph⟩⟩ ∧
      (Stmt s c.sessionKey c.phase db ph ∨ (c.phase.ended = false ∧ db = s.db ∧ ph = .threw)) := by
  cases a with
  | stmt i now uuid =>
    obtain ⟨c, hc, h⟩ := Option.bind_eq_some_iff.mp h
    obtain ⟨⟨db, ph⟩, hout, rfl⟩ := Option.map_eq_some_iff.mp h
    exact ⟨i, c, db, ph, hc, rfl, Or.inl (execStmt_cases hout)⟩
  | cancel i =>
    obtain ⟨c, hc, h⟩ := Option.bind_eq_some_iff.mp h
    split_ifs at h with hended
    cases h
    exact ⟨i, c, s.db, .threw, hc, rfl, Or.inr ⟨Bool.eq_false_iff.mpr hended, rfl, rfl⟩⟩

/-! The mapping of a key -/

def Tables.Maps (db : Tables) (key : String) (tapeId : TapeId) : Prop :=
  ∃ row ∈ db.sessionTapes, row.sessionKey = key ∧ row.tapeId = tapeId

theorem maps_of_find {row : SessionTapeRow} (h : db.find key = some row) : db.Maps key row.tapeId :=
  ⟨row, List.mem_of_find?_eq_some h, by simpa using List.find?_some h, rfl⟩

theorem not_maps_of_find {tapeId : TapeId} (h : db.find key = none) : ¬ db.Maps key tapeId := by
  rintro ⟨row, hrow, hkey, -⟩
  exact List.find?_eq_none.mp h row hrow (decide_eq_true hkey)

theorem Tables.Ok.maps_unique (h : db.Ok) {t u : TapeId} (ht : db.Maps key t) (hu : db.Maps key u) : t = u := by
  obtain ⟨row, hrow, hkey, rfl⟩ := ht
  obtain ⟨row', hrow', hkey', rfl⟩ := hu
  rw [List.inj_on_of_nodup_map h.primaryKey hrow hrow' (hkey.trans hkey'.symm)]

/-! The invariant -/

/-- What an upsert has done that is not committed: it has inserted a row for a key that has none, or
updated the row of its key and kept its tape. -/
def Pending (db : Tables) (key : String) (tape : TapeRow) (mapping : SessionTapeRow) : Bool → Prop
  | true => db.find key = none ∧ mapping.tapeId = tape.id
  | false => db.Maps key mapping.tapeId

structure Inv (s : State) : Prop where
  ok : s.db.Ok
  returned : ∀ c ∈ s.calls, ∀ t, c.phase = .returned t → s.db.Maps c.sessionKey t
  mapped : ∀ c ∈ s.calls, ∀ tape mapping inserted, c.phase = .mapped tape mapping inserted →
    mapping.sessionKey = c.sessionKey ∧ Pending s.db c.sessionKey tape mapping inserted
  alone : ∀ (i j : ℕ) (c d : Call), s.calls[i]? = some c → s.calls[j]? = some d → c.phase.isMapped = true →
    d.phase.isMapped = true → c.sessionKey = d.sessionKey → i = j

/-- The call goes on and writes nothing. -/
theorem Inv.quiet (h : Inv s) (i : ℕ) (c : Call) (hnot : ph.isMapped = false)
    (hreturned : ∀ t, ph = .returned t → s.db.Maps c.sessionKey t) :
    Inv ⟨s.db, s.calls.set i ⟨c.sessionKey, ph⟩⟩ := by
  refine ⟨h.ok, fun d hd t ht => ?_, fun d hd tape mapping inserted hmapped => ?_, fun j k d e hd he hdm hem hkey => ?_⟩
  · rcases List.mem_or_eq_of_mem_set hd with hd | rfl
    · exact h.returned d hd t ht
    · exact hreturned t ht
  · rcases List.mem_or_eq_of_mem_set hd with hd | rfl
    · exact h.mapped d hd tape mapping inserted hmapped
    · cases hmapped
      cases hnot
  · rcases Lists.getElem?_set_cases hd with ⟨-, rfl⟩ | ⟨-, hd⟩
    · rw [hnot] at hdm
      cases hdm
    · rcases Lists.getElem?_set_cases he with ⟨-, rfl⟩ | ⟨-, he⟩
      · rw [hnot] at hem
        cases hem
      · exact h.alone j k d e hd he hdm hem hkey

theorem not_mapped_of_free (hfree : s.locked key = false) {d : Call} (hd : d ∈ s.calls) (hkey : d.sessionKey = key) :
    d.phase.isMapped ≠ true := by
  intro hmapped
  have hnone := List.any_eq_false.mp hfree d hd
  exact hnone (by rw [hkey, hmapped, decide_eq_true rfl]; rfl)

/-- The call has upserted the row of its key, which nobody else holds. -/
theorem Inv.upsert {tape : TapeRow} {mapping : SessionTapeRow} {inserted : Bool} (h : Inv s)
    (hc : s.calls[i]? = some c) (hfree : s.locked c.sessionKey = false) (hkey : mapping.sessionKey = c.sessionKey)
    (hpending : Pending s.db c.sessionKey tape mapping inserted) :
    Inv ⟨s.db, s.calls.set i ⟨c.sessionKey, .mapped tape mapping inserted⟩⟩ := by
  refine ⟨h.ok, fun d hd t ht => ?_, fun d hd tape' mapping' inserted' hmapped => ?_,
    fun j k d e hd he hdm hem hsame => ?_⟩
  · rcases List.mem_or_eq_of_mem_set hd with hd | rfl
    · exact h.returned d hd t ht
    · cases ht
  · rcases List.mem_or_eq_of_mem_set hd with hd | rfl
    · exact h.mapped d hd tape' mapping' inserted' hmapped
    · cases hmapped
      exact ⟨hkey, hpending⟩
  · rcases Lists.getElem?_set_cases hd with ⟨rfl, rfl⟩ | ⟨-, hd⟩
    · rcases Lists.getElem?_set_cases he with ⟨rfl, -⟩ | ⟨-, he⟩
      · rfl
      · exact absurd hem (not_mapped_of_free hfree (List.mem_of_getElem? he) hsame.symm)
    · rcases Lists.getElem?_set_cases he with ⟨-, rfl⟩ | ⟨-, he⟩
      · exact absurd hdm (not_mapped_of_free hfree (List.mem_of_getElem? hd) hsame)
      · exact h.alone j k d e hd he hdm hem hsame

/-! Commits -/

section Commit
variable {tape : TapeRow} {mapping : SessionTapeRow} {inserted : Bool}

theorem commit_keys (h : Pending db mapping.sessionKey tape mapping inserted) :
    (db.commit tape mapping inserted).sessionTapes.map (·.sessionKey) =
      db.sessionTapes.map (·.sessionKey) ++ if inserted then [mapping.sessionKey] else [] := by
  cases inserted with
  | true => exact List.map_append
  | false =>
    have hkeep : ∀ row : SessionTapeRow,
        (if row.sessionKey = mapping.sessionKey then mapping else row).sessionKey = row.sessionKey := by
      intro row
      split_ifs with hkey
      · exact hkey.symm
      · rfl
    simp only [Tables.commit, Bool.false_eq_true, if_false, List.map_map, List.append_nil]
    exact List.map_congr_left fun row _ => hkeep row

theorem mem_commit {row : SessionTapeRow} (h : row ∈ (db.commit tape mapping inserted).sessionTapes) :
    row ∈ db.sessionTapes ∨ row = mapping := by
  cases inserted with
  | true =>
    rcases List.mem_append.mp h with hold | hnew
    · exact Or.inl hold
    · exact Or.inr (List.mem_singleton.mp hnew)
  | false =>
    obtain ⟨old, hold, heq⟩ := List.mem_map.mp h
    split_ifs at heq with hkey
    · exact Or.inr heq.symm
    · exact Or.inl (heq ▸ hold)

/-- The row of the key is the one that was upserted. -/
theorem commit_maps (h : Pending db mapping.sessionKey tape mapping inserted) :
    (db.commit tape mapping inserted).Maps mapping.sessionKey mapping.tapeId := by
  cases inserted with
  | true => exact ⟨mapping, List.mem_append_right _ List.mem_cons_self, rfl, rfl⟩
  | false =>
    obtain ⟨row, hrow, hkey, -⟩ := h
    exact ⟨mapping, List.mem_map.mpr ⟨row, hrow, if_pos hkey⟩, rfl, rfl⟩

/-- A mapping that is there stays. -/
theorem maps_commit {t : TapeId} (hok : db.Ok) (h : Pending db mapping.sessionKey tape mapping inserted)
    (ht : db.Maps key t) : (db.commit tape mapping inserted).Maps key t := by
  cases inserted with
  | true =>
    obtain ⟨row, hrow, hrest⟩ := ht
    exact ⟨row, List.mem_append_left _ hrow, hrest⟩
  | false =>
    by_cases hkey : key = mapping.sessionKey
    · subst hkey
      rw [← hok.maps_unique h ht]
      exact commit_maps h
    · obtain ⟨row, hrow, hrowKey, htape⟩ := ht
      refine ⟨row, List.mem_map.mpr ⟨row, hrow, if_neg fun heq => ?_⟩, hrowKey, htape⟩
      exact hkey (hrowKey.symm.trans heq)

theorem commit_ok (hok : db.Ok) (h : Pending db mapping.sessionKey tape mapping inserted) :
    (db.commit tape mapping inserted).Ok where
  primaryKey := by
    rw [commit_keys h]
    cases inserted with
    | true =>
      refine List.nodup_append.mpr ⟨hok.primaryKey, List.nodup_singleton _, fun k hk k' hk' heq => ?_⟩
      obtain ⟨row, hrow, rfl⟩ := List.mem_map.mp hk
      exact not_maps_of_find h.1 ⟨row, hrow, heq.trans (List.mem_singleton.mp hk'), rfl⟩
    | false => exact (List.append_nil _).symm ▸ hok.primaryKey
  references row hrow := by
    rcases mem_commit hrow with hold | rfl
    · obtain ⟨t, ht, hid⟩ := hok.references row hold
      exact ⟨t, List.mem_append_left _ ht, hid⟩
    · cases inserted with
      | true => exact ⟨tape, List.mem_append_right _ List.mem_cons_self, h.2.symm⟩
      | false =>
        obtain ⟨old, hold, -, htape⟩ := h
        obtain ⟨t, ht, hid⟩ := hok.references old hold
        exact ⟨t, List.mem_append_left _ ht, hid.trans htape⟩

/-- What is pending for another key is still. -/
theorem pending_commit {tape' : TapeRow} {mapping' : SessionTapeRow} {inserted' : Bool} (hok : db.Ok)
    (h : Pending db mapping.sessionKey tape mapping inserted) (hne : key ≠ mapping.sessionKey)
    (h' : Pending db key tape' mapping' inserted') :
    Pending (db.commit tape mapping inserted) key tape' mapping' inserted' := by
  cases inserted' with
  | true =>
    refine ⟨List.find?_eq_none.mpr fun row hrow hkey => ?_, h'.2⟩
    rcases mem_commit hrow with hold | rfl
    · exact List.find?_eq_none.mp h'.1 row hold hkey
    · exact hne (of_decide_eq_true hkey).symm
  | false => exact maps_commit hok h h'

theorem Inv.commit (h : Inv s) (hc : s.calls[i]? = some c) (hphase : c.phase = .mapped tape mapping inserted) :
    Inv ⟨s.db.commit tape mapping inserted, s.calls.set i ⟨c.sessionKey, .returned mapping.tapeId⟩⟩ := by
  obtain ⟨hkey, hpending⟩ := h.mapped c (List.mem_of_getElem? hc) tape mapping inserted hphase
  rw [← hkey] at hpending
  refine ⟨commit_ok h.ok hpending, fun d hd t ht => ?_, fun d hd tape' mapping' inserted' hmapped => ?_,
    fun j k d e hd he hdm hem hsame => ?_⟩
  · rcases List.mem_or_eq_of_mem_set hd with hd | rfl
    · exact maps_commit h.ok hpending (h.returned d hd t ht)
    · cases ht
      exact hkey ▸ commit_maps hpending
  · obtain ⟨j, hj⟩ := List.mem_iff_getElem?.mp hd
    rcases Lists.getElem?_set_cases hj with ⟨-, rfl⟩ | ⟨hji, hj⟩
    · cases hmapped
    · obtain ⟨hkey', hpending'⟩ := h.mapped d (List.mem_of_getElem? hj) tape' mapping' inserted' hmapped
      refine ⟨hkey', pending_commit h.ok hpending (fun hsame => hji ?_) hpending'⟩
      exact h.alone j i d c hj hc (by rw [hmapped]; rfl) (by rw [hphase]; rfl) (hsame.trans hkey)
  · rcases Lists.getElem?_set_cases hd with ⟨-, rfl⟩ | ⟨-, hd⟩
    · cases hdm
    · rcases Lists.getElem?_set_cases he with ⟨-, rfl⟩ | ⟨-, he⟩
      · cases hem
      · exact h.alone j k d e hd he hdm hem hsame

end Commit

/-! Runs -/

theorem inv_stmt (h : Inv s) (hc : s.calls[i]? = some c) (hs : Stmt s c.sessionKey c.phase db ph) :
    Inv ⟨db, s.calls.set i ⟨c.sessionKey, ph⟩⟩ := by
  generalize hphase : c.phase = before at hs
  cases hs with
  | found hfind =>
    refine h.quiet i c rfl fun t ht => ?_
    cases ht
    exact maps_of_find hfind
  | missed | refused | create => exact h.quiet i c rfl fun t ht => by cases ht
  | update hfree hfind =>
    have hmaps := maps_of_find hfind
    refine h.upsert hc hfree ?_ hmaps
    simpa using List.find?_some hfind
  | insert hfree hfind => exact h.upsert hc hfree rfl ⟨hfind, rfl⟩
  | commit => exact h.commit hc hphase

theorem inv_step {a : Act} (h : Inv s) (hs : step s a = some s') : Inv s' := by
  obtain ⟨i, c, db, ph, hc, rfl, hstmt | ⟨-, rfl, rfl⟩⟩ := step_cases hs
  · exact inv_stmt h hc hstmt
  · exact h.quiet i c rfl fun t ht => by cases ht

theorem inv_init {sessionKeys : List String} (hdb : db.Ok) : Inv (init db sessionKeys) := by
  have hidle : ∀ c ∈ (init db sessionKeys).calls, c.phase = .idle := by
    intro c hc
    obtain ⟨key, -, rfl⟩ := List.mem_map.mp hc
    rfl
  refine ⟨hdb, fun c hc t ht => ?_, fun c hc tape mapping inserted hmapped => ?_, fun i j c d hc hd hcm => ?_⟩
  · cases (hidle c hc).symm.trans ht
  · cases (hidle c hc).symm.trans hmapped
  · rw [hidle c (List.mem_of_getElem? hc)] at hcm
    cases hcm

/-- A call that has returned stays as it is. -/
theorem returned_step {a : Act} {t : TapeId} (hc : s.calls[i]? = some ⟨key, .returned t⟩) (hs : step s a = some s') :
    s'.calls[i]? = some ⟨key, .returned t⟩ := by
  obtain ⟨j, d, db, ph, hd, rfl, hstmt⟩ := step_cases hs
  have hij : j ≠ i := by
    rintro rfl
    cases hd.symm.trans hc
    rcases hstmt with hstmt | ⟨hended, -⟩
    · cases hstmt
    · cases hended
  exact (List.getElem?_set_ne hij).trans hc

/-- All calls for a session key that return, now or later, return one tape, and it exists. -/
theorem one_tape_per_session {db : Tables} (hdb : db.Ok) {sessionKeys : List String} {acts acts' : List Act}
    {s s' : State} (hrun : run step (init db sessionKeys) acts = some s) (hlater : run step s acts' = some s')
    {i j : ℕ} {key : String} {t u : TapeId} (hi : s.calls[i]? = some ⟨key, .returned t⟩)
    (hj : s'.calls[j]? = some ⟨key, .returned u⟩) : t = u ∧ ∃ tape ∈ s'.db.tapes, tape.id = t := by
  have hinv : Inv s' := run_inv_all Inv (fun _ _ _ h hs => inv_step h hs) (inv_init hdb) (run_append hrun hlater)
  have hstays : s'.calls[i]? = some ⟨key, .returned t⟩ :=
    run_inv_all (fun m => m.calls[i]? = some ⟨key, .returned t⟩) (fun _ _ _ h hs => returned_step h hs) hi hlater
  have ht : s'.db.Maps key t := hinv.returned _ (List.mem_of_getElem? hstays) t rfl
  have hu : s'.db.Maps key u := hinv.returned _ (List.mem_of_getElem? hj) u rfl
  refine ⟨hinv.ok.maps_unique ht hu, ?_⟩
  obtain ⟨row, hrow, -, htape⟩ := ht
  obtain ⟨tape, hmem, hid⟩ := hinv.ok.references row hrow
  exact ⟨tape, hmem, hid.trans htape⟩

/-- The loser of two calls waits at its upsert, and returns the winner's tape. -/
theorem one_tape_per_session_raced :
    ∃ s s', run step (init ⟨[], []⟩ ["chat:1", "chat:1"])
        [.stmt 0 5 "a", .stmt 1 5 "b", .stmt 0 6 "a", .stmt 1 6 "b", .stmt 0 7 "", .stmt 0 8 ""] = some s ∧
      run step s [.stmt 1 9 "", .stmt 1 10 ""] = some s' ∧
      s'.calls = [⟨"chat:1", .returned "a"⟩, ⟨"chat:1", .returned "a"⟩] ∧
      ∃ tape ∈ s'.db.tapes, tape.id = "a" := by
  have hok : Tables.Ok ⟨[], []⟩ := ⟨List.nodup_nil, fun row hrow => by cases hrow⟩
  have hfirst : ∃ s, run step (init ⟨[], []⟩ ["chat:1", "chat:1"])
        [.stmt 0 5 "a", .stmt 1 5 "b", .stmt 0 6 "a", .stmt 1 6 "b", .stmt 0 7 "", .stmt 0 8 ""] = some s ∧
      s.calls[0]? = some ⟨"chat:1", .returned "a"⟩ ∧ ∃ s', run step s [.stmt 1 9 "", .stmt 1 10 ""] = some s' ∧
        s'.calls = [⟨"chat:1", .returned "a"⟩, ⟨"chat:1", .returned "a"⟩] := ⟨_, rfl, rfl, _, rfl, rfl⟩
  obtain ⟨s, hs, hi, s', hs', hcalls⟩ := hfirst
  have hj : s'.calls[1]? = some ⟨"chat:1", .returned "a"⟩ := by rw [hcalls]; rfl
  exact ⟨s, s', hs, hs', hcalls, (one_tape_per_session hok hs hs' hi hj).2⟩

end Nexal.SessionTape
