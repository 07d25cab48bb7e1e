import Nexal.Lib.Lists
import Nexal.Spec.TapeRecord

/-! What the context managers select: the last entries up to the limit, and the latest summary before
them. A limit of zero selects everything, and the summary is dropped when an entry of the window has
its id. -/

namespace Nexal.Tape

/-- The suffix of length `min limit entries.length`. -/
def window (limit : ℕ) (entries : List ViewEntry) : List ViewEntry := entries.drop (entries.length - limit)

/-- The latest summary stands before the window. -/
def SummaryBefore (limit : ℕ) (entries : List ViewEntry) (summary : ViewEntry) : Prop :=
  ∃ older newer, entries = older ++ summary :: newer ∧ isSummaryEntry summary = true ∧
    (∀ e ∈ newer, isSummaryEntry e = false) ∧ limit ≤ newer.length

/-- The window, with the latest summary in front of it when that stands before it. -/
structure SummaryWindow (limit : ℕ) (entries selected : List ViewEntry) : Prop where
  before : ∀ summary, SummaryBefore limit entries summary → selected = summary :: window limit entries
  otherwise : (∀ summary, ¬SummaryBefore limit entries summary) → selected = window limit entries
  /-- each entry at most as often as it was there -/
  sublist : selected.Sublist entries
  length_le : selected.length ≤ limit + 1

theorem window_length (limit : ℕ) (entries : List ViewEntry) :
    (window limit entries).length = min limit entries.length := by
  rw [window, List.length_drop]
  omega

theorem window_append {limit : ℕ} (older : List ViewEntry) (summary : ViewEntry) {newer : List ViewEntry}
    (h : limit ≤ newer.length) : window limit (older ++ summary :: newer) = window limit newer := by
  have hlen : (older ++ summary :: newer).length - limit = older.length + (newer.length - limit + 1) := by
    simp only [List.length_append, List.length_cons]
    omega
  rw [window, hlen, List.drop_length_add_append, List.drop_succ_cons, window]

theorem tailSelect_eq_iff (options : TailContextManagerOptions) (entries : List ViewEntry) (maxEntries : ℕ) :
    tailSelect options entries maxEntries = window (options.maxEntries.getD maxEntries) entries ↔
      options.maxEntries.getD maxEntries ≠ 0 ∨ entries = [] := by
  simp only [tailSelect, window]
  generalize options.maxEntries.getD maxEntries = limit
  split_ifs with hfits
  · refine iff_of_true ?_ ?_
    · rw [Nat.sub_eq_zero_of_le hfits, List.drop_zero]
    · by_cases hzero : limit = 0
      · rw [hzero, Nat.le_zero, List.length_eq_zero_iff] at hfits
        exact Or.inr hfits
      · exact Or.inl hzero
  · by_cases hzero : limit = 0
    · -- `slice(-0)` is `slice(0)`
      subst hzero
      simp [slice]
    · refine iff_of_true ?_ (Or.inl hzero)
      rw [slice, if_pos (by omega), Int.natAbs_neg, Int.natAbs_natCast]

theorem latestSummary_eq_some_iff {entries : List ViewEntry} {summary : ViewEntry} :
    latestSummary entries = some summary ↔ SummaryBefore 0 entries summary := by
  rw [latestSummary, Lists.reverse_find?_eq_some_iff, SummaryBefore]
  simp

theorem SummaryBefore.latest {limit : ℕ} {entries : List ViewEntry} {summary : ViewEntry}
    (h : SummaryBefore limit entries summary) : latestSummary entries = some summary := by
  obtain ⟨older, newer, hentries, hsummary, hnewer, -⟩ := h
  exact latestSummary_eq_some_iff.mpr ⟨older, newer, hentries, hsummary, hnewer, Nat.zero_le _⟩

/-- Without a summary before the window, the latest one is in it. -/
theorem mem_window_of_not_before {limit : ℕ} {entries : List ViewEntry} {summary : ViewEntry}
    (hlatest : latestSummary entries = some summary) (h : ¬SummaryBefore limit entries summary) :
    summary ∈ window limit entries := by
  obtain ⟨older, newer, rfl, hsummary, hnewer, -⟩ := latestSummary_eq_some_iff.mp hlatest
  have hlt : newer.length < limit := by
    by_contra hle
    exact h ⟨older, newer, rfl, hsummary, hnewer, Nat.le_of_not_lt hle⟩
  have hdrop : (older ++ summary :: newer).length - limit ≤ older.length := by
    simp only [List.length_append, List.length_cons]
    omega
  rw [window, List.drop_append_of_le_length hdrop]
  exact List.mem_append_right _ List.mem_cons_self

theorem window_sublist (limit : ℕ) (entries : List ViewEntry) : (window limit entries).Sublist entries :=
  List.drop_sublist _ _

theorem window_length_le (limit : ℕ) (entries : List ViewEntry) : (window limit entries).length ≤ limit := by
  rw [window_length]
  exact Nat.min_le_left _ _

/-- The order and the bound follow from what is selected. -/
theorem summaryWindow_iff {limit : ℕ} {entries selected : List ViewEntry} :
    SummaryWindow limit entries selected ↔
      (∀ summary, SummaryBefore limit entries summary → selected = summary :: window limit entries) ∧
      ((∀ summary, ¬SummaryBefore limit entries summary) → selected = window limit entries) := by
  constructor
  · exact fun h => ⟨h.before, h.otherwise⟩
  · rintro ⟨hbefore, hotherwise⟩
    by_cases h : ∃ summary, SummaryBefore limit entries summary
    · obtain ⟨summary, hsummary⟩ := h
      have hselected := hbefore summary hsummary
      refine ⟨hbefore, hotherwise, ?_, ?_⟩
      · obtain ⟨older, newer, rfl, -, -, hle⟩ := hsummary
        rw [hselected, window_append older summary hle]
        exact ((window_sublist limit newer).cons_cons summary).trans (List.sublist_append_right older _)
      · rw [hselected, List.length_cons]
        exact Nat.succ_le_succ (window_length_le limit entries)
    · have hselected := hotherwise fun summary hsummary => h ⟨summary, hsummary⟩
      refine ⟨hbefore, hotherwise, ?_, ?_⟩
      · rw [hselected]
        exact window_sublist limit entries
      · rw [hselected]
        exact (window_length_le limit entries).trans (Nat.le_succ limit)

/-- Over the right window the summary manager goes wrong only by a shared id. -/
theorem summarySelect_iff {options : SummaryContextManagerOptions} (hinclude : options.includeLatestSummary ≠ some false)
    {entries : List ViewEntry} {maxEntries limit : ℕ}
    (htail : tailSelect options.toTailContextManagerOptions entries maxEntries = window limit entries) :
    SummaryWindow limit entries (summarySelect options entries maxEntries) ↔
      ∀ summary, SummaryBefore limit entries summary → ∀ e ∈ window limit entries, e.id ≠ summary.id := by
  rw [summaryWindow_iff]
  simp only [summarySelect, htail, if_neg hinclude]
  cases hlatest : latestSummary entries with
  | none =>
    have hnone : ∀ summary, ¬SummaryBefore limit entries summary := fun summary h => by
      rw [h.latest] at hlatest
      cases hlatest
    exact iff_of_true ⟨fun summary h => absurd h (hnone summary), fun _ => rfl⟩ fun summary h => absurd h (hnone summary)
  | some latest =>
    have hunique : ∀ summary, SummaryBefore limit entries summary → summary = latest := fun summary h =>
      Option.some.inj (h.latest.symm.trans hlatest)
    dsimp only
    by_cases hbefore : SummaryBefore limit entries latest
    · constructor
      · rintro ⟨hselected, -⟩ summary hsummary e he hid
        obtain rfl := hunique summary hsummary
        have hcons := hselected summary hsummary
        have hany : ((window limit entries).any fun e => decide (e.id = summary.id)) = true :=
          List.any_eq_true.mpr ⟨e, he, by simpa using hid⟩
        rw [if_pos hany] at hcons
        exact List.cons_ne_self _ _ hcons.symm
      · intro hapart
        have hany : ((window limit entries).any fun e => decide (e.id = latest.id)) = false :=
          List.any_eq_false.mpr fun e he => by simpa using hapart latest hbefore e he
        refine ⟨fun summary hsummary => ?_, fun hno => absurd hbefore (hno latest)⟩
        rw [hunique summary hsummary, if_neg (by simp [hany])]
    · have hany : ((window limit entries).any fun e => decide (e.id = latest.id)) = true :=
        List.any_eq_true.mpr ⟨latest, mem_window_of_not_before hlatest hbefore, by simp⟩
      have hno : ∀ summary, ¬SummaryBefore limit entries summary := fun summary h => hbefore (hunique summary h ▸ h)
      refine iff_of_true ⟨fun summary h => absurd h (hno summary), fun _ => ?_⟩ fun summary h => absurd h (hno summary)
      rw [if_pos hany]

/-- The limit of a window: the manager's own, else the caller's, else the tape's. -/
def limitOf (managerMax maxEntries maxContext : Option ℕ) : ℕ :=
  managerMax.getD (maxEntries.getD (maxContext.getD defaultMaxContext))

/-- Both managers give their window exactly when the limit is not zero, unless there is nothing to
select, and no entry of the window shares its id with the latest summary before it. -/
theorem context_windows_iff {includeLatestSummary : Option Bool} (hinclude : includeLatestSummary ≠ some false)
    (managerMax maxEntries maxContext : Option ℕ) (cleaned : List ViewEntry) :
    loadContext ⟨some (.tail ⟨managerMax⟩), maxContext⟩ maxEntries cleaned =
        window (limitOf managerMax maxEntries maxContext) cleaned ∧
      SummaryWindow (limitOf managerMax maxEntries maxContext) cleaned
        (loadContext ⟨some (.summary ⟨⟨managerMax⟩, includeLatestSummary⟩), maxContext⟩ maxEntries cleaned) ↔
    (limitOf managerMax maxEntries maxContext ≠ 0 ∨ cleaned = []) ∧
      ∀ summary, SummaryBefore (limitOf managerMax maxEntries maxContext) cleaned summary →
        ∀ e ∈ window (limitOf managerMax maxEntries maxContext) cleaned, e.id ≠ summary.id := by
  have htail := tailSelect_eq_iff ⟨managerMax⟩ cleaned (maxEntries.getD (maxContext.getD defaultMaxContext))
  have hsummary := @summarySelect_iff ⟨⟨managerMax⟩, includeLatestSummary⟩ hinclude cleaned
    (maxEntries.getD (maxContext.getD defaultMaxContext)) (limitOf managerMax maxEntries maxContext)
  constructor
  · rintro ⟨hwindow, hselected⟩
    exact ⟨htail.mp hwindow, (hsummary hwindow).mp hselected⟩
  · rintro ⟨hlimit, hapart⟩
    exact ⟨htail.mpr hlimit, (hsummary (htail.mpr hlimit)).mpr hapart⟩

def said (id : ℕ) : ViewEntry where
  kind := .message
  payload := [("role", .str "user")]
  «meta» := []
  date := ""
  id := some id

def summedUp (id : ℕ) : ViewEntry where
  kind := .event
  payload := [("name", .str TapeEvent.System.summary), ("data", .obj [("summary", .str "a so far")])]
  «meta» := []
  date := ""
  id := some id

theorem summary_before_two :
    loadContext ⟨some (.tail ⟨some 2⟩), none⟩ (some 10) [said 1, summedUp 2, said 3, said 4] =
        window 2 [said 1, summedUp 2, said 3, said 4] ∧
      SummaryWindow 2 [said 1, summedUp 2, said 3, said 4]
        (loadContext ⟨some (.summary ⟨⟨some 2⟩, none⟩), none⟩ (some 10) [said 1, summedUp 2, said 3,
          said 4]) := by
  refine (context_windows_iff (by decide) (some 2) (some 10) none _).mpr ⟨Or.inl (by decide), fun summary hsummary => ?_⟩
  have hlatest : summary = summedUp 2 := Option.some.inj (hsummary.latest.symm.trans rfl)
  have hids : ∀ e ∈ [said 3, said 4], e.id ≠ (summedUp 2).id := by decide
  rw [hlatest]
  exact hids

/-- Asked for no entries, the manager gives them all. -/
theorem all_for_none : loadContext ⟨none, none⟩ (some 0) [said 1] ≠ window 0 [said 1] := by
  have hall : loadContext ⟨none, none⟩ (some 0) [said 1] = [said 1] := rfl
  rw [hall]
  exact List.cons_ne_nil _ _

end Nexal.Tape
