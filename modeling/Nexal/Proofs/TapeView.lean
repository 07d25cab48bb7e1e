import Mathlib.Data.List.Nodup
import Nexal.Lib.Lists
import Nexal.Proofs.TapeStore
import Nexal.Sanity.TapeView

/-! What the view keeps and what it shows in the place of amended entries, and exactly when. -/

namespace Nexal.Tape

def Shown.original : Shown → Option TapeEntry
  | .entry e => some e
  | .replacement .. => none

namespace TapeContent

variable (tape : TapeContent)

def targeting (e : TapeEntry) : List Amendment := tape.allAmendments.filter fun a => a.targets e

/-- Neither an edit nor redacted nor a target of any amendment. -/
def untouched (e : TapeEntry) : Bool := !e.isEdit && !tape.redacted e && (tape.targeting e).isEmpty

variable {tape}

theorem first_eq_none_of_untargeted {e : TapeEntry} (h : tape.targeting e = []) : tape.first e = none := by
  refine List.find?_eq_none.mpr fun a ha htarget => ?_
  exact List.filter_eq_nil_iff.mp h a (List.mem_filter.mp ha).1 htarget

theorem first_eq_none_of_noAmendments {e : TapeEntry} (h : tape.amendments = []) : tape.first e = none := by
  rw [first, h, List.find?_nil]

theorem heads_eq_nil_of_noAmendments (h : tape.amendments = []) : tape.heads = [] := by
  rw [heads_eq_filter, List.filter_eq_nil_iff]
  intro e _
  simp [amended, first_eq_none_of_noAmendments h]

theorem noEdits_iff : (tape.redactedIds.isEmpty && tape.amendments.isEmpty) = true ↔
    tape.redactedIds = [] ∧ tape.amendments = [] := by
  simp

/-- The entries of the tape that the view shows themselves. -/
theorem view_originals (tape : TapeContent) :
    tape.view.filterMap Shown.original =
      if tape.redactedIds.isEmpty && tape.amendments.isEmpty then tape.entries
      else tape.entries.filter fun e => !tape.hidden e && (tape.first e).isNone := by
  have hshown : ∀ e, (tape.shownFor e).filterMap Shown.original =
      if !tape.hidden e && (tape.first e).isNone then [e] else [] := by
    intro e
    unfold shownFor
    cases tape.hidden e <;> cases tape.first e <;> simp [Shown.original, List.filterMap_map]
  rw [view_eq]
  split_ifs
  · rw [List.filterMap_map]
    exact List.filterMap_some
  · rw [List.filterMap_flatMap]
    simp only [hshown, ← Lists.flatMap_filter, List.flatMap_singleton']

/-- The view keeps every untouched entry, once and in order, if and only if none of them lies
between an entry where an amendment takes effect and the largest target of that amendment. -/
theorem view_keeps_untouched_iff (tape : TapeContent) :
    (tape.view.filterMap Shown.original).filter tape.untouched = tape.entries.filter tape.untouched ↔
      ∀ e ∈ tape.entries, tape.untouched e = true → ∀ h ∈ tape.heads, tape.covers h e = false := by
  rw [view_originals]
  split_ifs with hno
  · refine ⟨fun _ e _ _ h hh => ?_, fun _ => rfl⟩
    rw [heads_eq_nil_of_noAmendments (noEdits_iff.mp hno).2] at hh
    cases hh
  · rw [Lists.filter_filter_eq_iff]
    refine forall₂_congr fun e _ => imp_congr_right fun hu => ?_
    simp only [untouched, Bool.and_eq_true, Bool.not_eq_true', List.isEmpty_iff] at hu
    obtain ⟨⟨hedit, hred⟩, htarget⟩ := hu
    simp [hidden, hedit, hred, first_eq_none_of_untargeted htarget]

def ofDrafts (drafts : List TapeEntryDraft) : TapeContent where
  entries := drafts.mapIdx fun i d => d.withId (i + 1)
  increasing := by
    rw [List.pairwise_iff_getElem]
    intro i j hi hj hij
    simpa [TapeEntryDraft.withId] using hij
  positive := by
    intro e he
    obtain ⟨i, hi, rfl⟩ := List.mem_mapIdx.mp he
    exact Nat.succ_pos i

/-- What the store reads after a serial run is the content of a tape. -/
theorem exists_content_of_read (rt : JsRuntime) (opts : TapeStoreOptions) (ops : List Op) (t : TapeId) :
    ∃ tape : TapeContent, tape.entries = read rt opts (serialRun rt opts ops).1 t := by
  refine ⟨ofDrafts (((serialRun rt opts ops).2 t).map (readBack rt opts)), ?_⟩
  rw [(refines_serialRun ops).read_eq, ofDrafts]
  exact List.ext_getElem (by simp) fun i _ _ => by simp

def message (text : String) : TapeEntryDraft :=
  ⟨.message, [("content", .str text)], [], "2026-01-01T00:00:00.000Z"⟩

def sparseTape : TapeContent :=
  ofDrafts [message "1", message "2", message "3", message "4", message "5",
    amend (.ids [2, 5]) [message "2 and 5"] none 0 "2026-01-01T00:00:00.000Z"]

/-- The amendment of the entries 2 and 5 takes the entries 3 and 4 with them. -/
theorem view_drops_between_targets :
    (sparseTape.view.filterMap Shown.original).filter sparseTape.untouched ≠
      sparseTape.entries.filter sparseTape.untouched := by
  intro h
  have hids := congrArg (List.map TapeEntry.id) h
  revert hids
  decide +kernel

/-! Replacements -/

variable (tape)

/-- The amendment whose replacement stands in the place of the entry: the last one put in at
or before it. -/
def inPlaceOf (e : TapeEntry) : Option Amendment :=
  (tape.view.filterMap fun
    | .replacement a place _ => if place ≤ e.id then some a else none
    | .entry _ => none).getLast?

def itemsOf (a : Amendment) : List Json :=
  tape.view.filterMap fun
    | .replacement b _ item => if b.entryId = a.entryId then some item else none
    | .entry _ => none

variable {tape}

/-- The replacement items of the view, head by head. -/
theorem view_replacements {β : Type} (f : Amendment → ℕ → Json → Option β) :
    (tape.view.filterMap fun
      | .replacement a place item => f a place item
      | .entry _ => none) =
    tape.heads.flatMap fun h => (tape.first h).elim [] fun a => a.replacement.filterMap (f a h.id) := by
  rw [view_eq]
  split_ifs with hno
  · rw [heads_eq_nil_of_noAmendments (noEdits_iff.mp hno).2, List.filterMap_map]
    simp
  · rw [List.filterMap_flatMap, heads_eq_filter, Lists.flatMap_filter]
    refine List.flatMap_congr fun e _ => ?_
    unfold shownFor hidden TapeContent.amended
    cases e.isEdit <;> cases tape.redacted e <;> cases tape.heads.any (tape.covers · e) <;>
      cases tape.first e <;> simp [List.filterMap_map]

theorem heads_increasing (tape : TapeContent) : tape.heads.Pairwise fun a b => a.id < b.id :=
  tape.increasing.sublist (picks_sublist [] tape.entries)

theorem mem_heads {h : TapeEntry} (hh : h ∈ tape.heads) :
    (∃ a, tape.first h = some a) ∧ ∀ h' ∈ tape.heads, tape.covers h' h = false := by
  rw [heads_eq_filter, List.mem_filter, Bool.and_eq_true, Bool.not_eq_true'] at hh
  obtain ⟨-, hamended, hcov⟩ := hh
  simp only [TapeContent.amended, Bool.and_eq_true] at hamended
  exact ⟨Option.isSome_iff_exists.mp hamended.2, by simpa using hcov⟩

theorem hasEffect_of_first {e : TapeEntry} {a : Amendment} (h : tape.first e = some a) :
    a.replacement ≠ [] := by
  have heff := (List.mem_filter.mp (first_mem h)).2
  simp only [Amendment.hasEffect, Bool.and_eq_true, Bool.not_eq_true', List.isEmpty_eq_false_iff] at heff
  exact heff.2

theorem inPlaceOf_eq (tape : TapeContent) (e : TapeEntry) :
    tape.inPlaceOf e = (tape.heads.filter fun h => h.id ≤ e.id).getLast?.bind tape.first := by
  unfold inPlaceOf
  rw [view_replacements fun a place _ => if place ≤ e.id then some a else none]
  refine Lists.getLast?_flatMap_filter (fun h hh hle => ?_) (fun h hh hlt => ?_)
  · obtain ⟨a, ha⟩ := (mem_heads hh).1
    have hne := hasEffect_of_first ha
    have hblock : (a.replacement.filterMap fun _ => if h.id ≤ e.id then some a else none) =
        a.replacement.map fun _ => a := by
      rw [if_pos (of_decide_eq_true hle)]
      exact List.filterMap_eq_map ▸ rfl
    refine ⟨?_, by rw [ha]; rfl⟩
    rw [ha, Option.elim_some, hblock, List.getLast?_map, List.getLast?_eq_some_getLast hne]
    rfl
  · have hlt := of_decide_eq_false hlt
    cases tape.first h <;> simp [hlt]

/-- The last head at or before an entry is the only one that can reach it. -/
theorem getLast_heads {h e : TapeEntry} (hh : h ∈ tape.heads) (hcov : h = e ∨ tape.covers h e = true) :
    (tape.heads.filter fun h => h.id ≤ e.id).getLast? = some h := by
  have hle : h.id ≤ e.id := by
    rcases hcov with rfl | hcov
    · exact le_rfl
    · simp only [covers, Bool.and_eq_true, decide_eq_true_eq] at hcov
      exact Nat.le_of_lt hcov.1
  refine Lists.getLast?_of_pairwise (tape.heads_increasing.filter _)
    (List.mem_filter.mpr ⟨hh, decide_eq_true hle⟩) fun h' hh' hlt => ?_
  obtain ⟨hmem, hle'⟩ := List.mem_filter.mp hh'
  have hle' := of_decide_eq_true hle'
  rcases hcov with rfl | hcov
  · omega
  · have hcov' := covers_of_between hcov hlt hle'
    rw [(mem_heads hmem).2 h hh] at hcov'
    cases hcov'

theorem entry_unique {e e' : TapeEntry} (he : e ∈ tape.entries) (he' : e' ∈ tape.entries)
    (hid : e.id = e'.id) : e = e' := by
  have hnodup : (tape.entries.map TapeEntry.id).Nodup :=
    List.pairwise_map.mpr (tape.increasing.imp Nat.ne_of_lt)
  exact List.inj_on_of_nodup_map hnodup he he' hid

theorem amendment_unique {a b : Amendment} (ha : a ∈ tape.allAmendments) (hb : b ∈ tape.allAmendments)
    (hid : a.entryId = b.entryId) : a = b := by
  have hentryId : ∀ (e : TapeEntry) (a : Amendment), amendmentOf e = some a → a.entryId = e.id := by
    intro e a h
    unfold amendmentOf at h
    split_ifs at h
    obtain rfl := Option.some.inj h
    rfl
  obtain ⟨e, he, hea⟩ := List.mem_filterMap.mp ha
  obtain ⟨e', he', heb⟩ := List.mem_filterMap.mp hb
  have heq : e = e' := entry_unique he he' (by rw [← hentryId e a hea, ← hentryId e' b heb, hid])
  subst heq
  exact Option.some.inj (hea.symm.trans heb)

/-- A head that gives the entry its amendment reaches it. -/
theorem reaches_of_first {h e : TapeEntry} {a : Amendment} (hfirst : tape.first h = some a)
    (htarget : a.targets e = true) (hmem : h ∈ tape.heads) (he : e ∈ tape.entries) (hle : h.id ≤ e.id) :
    h = e ∨ tape.covers h e = true := by
  rcases Nat.lt_or_eq_of_le hle with hlt | heq
  · right
    have hmax := le_mathMax (List.contains_iff_mem.mp htarget)
    simp [covers, hlt, hfirst, hmax]
  · left
    have hh : h ∈ tape.entries := by
      rw [heads_eq_filter] at hmem
      exact (List.mem_filter.mp hmem).1
    exact entry_unique hh he heq

/-- What stands in the place of a targeted entry is its latest amendment exactly when that
amendment took effect at the entry or at one before it. -/
theorem inPlaceOf_eq_latest_iff {e : TapeEntry} (he : e ∈ tape.entries) (hne : tape.targeting e ≠ []) :
    tape.inPlaceOf e = (tape.targeting e).getLast? ↔
      ∃ h ∈ tape.heads, (h = e ∨ tape.covers h e = true) ∧ tape.first h = (tape.targeting e).getLast? := by
  rw [inPlaceOf_eq]
  constructor
  · intro hlast
    obtain ⟨a, ha⟩ : ∃ a, (tape.targeting e).getLast? = some a := ⟨_, List.getLast?_eq_some_getLast hne⟩
    rw [ha] at hlast ⊢
    obtain ⟨h, hh, hfirst⟩ := Option.bind_eq_some_iff.mp hlast
    obtain ⟨hmem, hle⟩ := List.mem_filter.mp (List.mem_of_getLast? hh)
    have htarget := (List.mem_filter.mp (List.mem_of_getLast? ha)).2
    exact ⟨h, hmem, reaches_of_first hfirst htarget hmem he (of_decide_eq_true hle), hfirst⟩
  · rintro ⟨h, hmem, hcov, hfirst⟩
    rw [getLast_heads hmem hcov, Option.bind_some, hfirst]

/-- An amendment takes effect at one head at most, so its replacement is shown once. -/
theorem itemsOf_once {a : Amendment} (ha : a ∈ tape.allAmendments) :
    tape.itemsOf a = [] ∨ tape.itemsOf a = a.replacement := by
  have hitems : tape.itemsOf a =
      (tape.heads.filter fun h => (tape.first h).any (·.entryId = a.entryId)).flatMap fun _ => a.replacement := by
    unfold itemsOf
    rw [view_replacements fun b _ item => if b.entryId = a.entryId then some item else none,
      Lists.flatMap_filter]
    refine List.flatMap_congr fun h hh => ?_
    obtain ⟨b, hb⟩ := (mem_heads hh).1
    by_cases hid : b.entryId = a.entryId
    · have hab := amendment_unique (List.mem_filter.mp (first_mem hb)).1 ha hid
      subst hab
      simp [hb]
    · simp [hb, hid]
  have hfew : (tape.heads.filter fun h => (tape.first h).any (·.entryId = a.entryId)).Pairwise
      fun _ _ => False := by
    refine (tape.heads_increasing.filter _).imp_of_mem fun {h h'} hh hh' hlt => ?_
    obtain ⟨hmem, hp⟩ := List.mem_filter.mp hh
    obtain ⟨hmem', hp'⟩ := List.mem_filter.mp hh'
    obtain ⟨b, hb⟩ := (mem_heads hmem).1
    obtain ⟨b', hb'⟩ := (mem_heads hmem').1
    rw [hb, Option.any_some, decide_eq_true_eq] at hp
    rw [hb', Option.any_some, decide_eq_true_eq] at hp'
    have hbb := amendment_unique (List.mem_filter.mp (first_mem hb)).1
      (List.mem_filter.mp (first_mem hb')).1 (hp.trans hp'.symm)
    subst hbb
    have hcov : tape.covers h h' = true := by simp [covers, hlt, hb, le_mathMax (first_targets hb')]
    rw [(mem_heads hmem').2 h hmem] at hcov
    cases hcov
  rw [hitems]
  cases hl : tape.heads.filter fun h => (tape.first h).any (·.entryId = a.entryId) with
  | nil => exact Or.inl rfl
  | cons h l =>
    cases l with
    | nil => exact Or.inr (by simp)
    | cons h' l =>
      rw [hl] at hfew
      exact absurd (List.rel_of_pairwise_cons hfew List.mem_cons_self) not_false

theorem entry_mem_view_iff {e : TapeEntry} (he : e ∈ tape.entries) :
    .entry e ∈ tape.view ↔ (tape.redactedIds = [] ∧ tape.amendments = []) ∨
      (tape.hidden e = false ∧ tape.first e = none) := by
  have horig : .entry e ∈ tape.view ↔ e ∈ tape.view.filterMap Shown.original := by
    rw [List.mem_filterMap]
    constructor
    · exact fun h => ⟨.entry e, h, rfl⟩
    · rintro ⟨s, hs, hse⟩
      cases s with
      | entry e' => exact Option.some.inj hse ▸ hs
      | replacement => cases hse
  rw [horig, view_originals]
  split_ifs with hno
  · exact ⟨fun _ => Or.inl (noEdits_iff.mp hno), fun _ => he⟩
  · rw [noEdits_iff] at hno
    simp [he, hno]

theorem entry_not_mem_view_iff {e : TapeEntry} (he : e ∈ tape.entries) :
    .entry e ∉ tape.view ↔
      (tape.first e).isSome ∨ (∃ h ∈ tape.heads, tape.covers h e = true) ∨
        ((tape.redactedIds ≠ [] ∨ tape.amendments ≠ []) ∧ (e.isEdit = true ∨ tape.redacted e = true)) := by
  have hcovered : (∃ h ∈ tape.heads, tape.covers h e = true) → tape.amendments ≠ [] := by
    rintro ⟨h, hh, -⟩ hno
    rw [heads_eq_nil_of_noAmendments hno] at hh
    cases hh
  have hfirst : (tape.first e).isSome = true → tape.amendments ≠ [] := by
    intro hsome hno
    rw [first_eq_none_of_noAmendments hno] at hsome
    cases hsome
  have hhidden : tape.hidden e = true ↔
      (e.isEdit = true ∨ tape.redacted e = true) ∨ ∃ h ∈ tape.heads, tape.covers h e = true := by
    simp only [hidden, Bool.or_eq_true, List.any_eq_true]
  rw [entry_mem_view_iff he, not_or, ← Bool.not_eq_true, hhidden, ← Option.not_isSome_iff_eq_none]
  by_cases h1 : (tape.first e).isSome = true
  · have := hfirst h1
    simp [h1, this]
  · by_cases h2 : ∃ h ∈ tape.heads, tape.covers h e = true
    · have := hcovered h2
      simp only [h2, or_true, not_true_eq_false, false_and, not_false_eq_true, and_true, true_or, this,
        and_false]
    · simp only [h1, h2, or_false, false_or, Bool.false_eq_true, not_not, ne_eq, not_and_or]

/-- The replacement of the latest amendment stands in the place of every entry with several,
no replacement is shown twice, and no targeted entry is shown itself. -/
structure AmendmentsShown (tape : TapeContent) : Prop where
  latest : ∀ e ∈ tape.entries, 2 ≤ (tape.targeting e).length →
    tape.inPlaceOf e = (tape.targeting e).getLast?
  once : ∀ a ∈ tape.allAmendments, tape.itemsOf a = [] ∨ tape.itemsOf a = a.replacement
  gone : ∀ e ∈ tape.entries, tape.targeting e ≠ [] → .entry e ∉ tape.view

/-- The view shows amendments as it should if and only if every entry with several amendments
is under the reach of the latest one, taking effect there or before, and every targeted
entry has an amendment with a replacement, is under the reach of one, or is hidden anyway. -/
theorem view_amendments_iff (tape : TapeContent) :
    tape.AmendmentsShown ↔
      (∀ e ∈ tape.entries, 2 ≤ (tape.targeting e).length →
        ∃ h ∈ tape.heads, (h = e ∨ tape.covers h e = true) ∧ tape.first h = (tape.targeting e).getLast?) ∧
      (∀ e ∈ tape.entries, tape.targeting e ≠ [] →
        (tape.first e).isSome ∨ (∃ h ∈ tape.heads, tape.covers h e = true) ∨
          ((tape.redactedIds ≠ [] ∨ tape.amendments ≠ []) ∧ (e.isEdit = true ∨ tape.redacted e = true))) := by
  have hseveral : ∀ e, 2 ≤ (tape.targeting e).length → tape.targeting e ≠ [] := by
    intro e h hnil
    rw [hnil] at h
    cases h
  constructor
  · rintro ⟨hlatest, -, hgone⟩
    exact ⟨fun e he h2 => (inPlaceOf_eq_latest_iff he (hseveral e h2)).mp (hlatest e he h2),
      fun e he hne => (entry_not_mem_view_iff he).mp (hgone e he hne)⟩
  · rintro ⟨hlatest, hgone⟩
    exact ⟨fun e he h2 => (inPlaceOf_eq_latest_iff he (hseveral e h2)).mpr (hlatest e he h2),
      fun a ha => itemsOf_once ha, fun e he hne => (entry_not_mem_view_iff he).mpr (hgone e he hne)⟩

def twiceAmendedTape : TapeContent :=
  ofDrafts [message "1", message "2",
    amend (.id 2) [message "first"] none 0 "2026-01-01T00:00:00.000Z",
    amend (.id 2) [message "second"] none 0 "2026-01-01T00:00:00.000Z"]

/-- An entry amended twice is shown as the first amendment has it. -/
theorem view_shows_earlier_amendment : ¬ twiceAmendedTape.AmendmentsShown := by
  intro h
  obtain ⟨e, he⟩ : ∃ e, twiceAmendedTape.entries[1]? = some e := ⟨_, rfl⟩
  have hlatest := congrArg (Option.map Amendment.entryId) (h.latest e (List.mem_of_getElem? he) ?_)
  · obtain rfl := Option.some.inj he
    revert hlatest
    decide +kernel
  · obtain rfl := Option.some.inj he
    decide +kernel

end TapeContent

end Nexal.Tape
