import Nexal.Lib.Lists
import Nexal.Spec.GitHub

/-! At-least-once delivery from GitHub. A thread that has not been dispatched is in the listing at hand, or comes with
the next one; but the channel takes the time of a listing as seen before it has handled its threads. -/

namespace Nexal.GitHub

open Runs

/-- The channel has sent a message about the thread after the update. -/
def Dispatched (s : State) (i k : ℕ) : Prop := ∃ d ∈ s.dispatches, d.thread = i ∧ k < d.updates

instance (s : State) (i k : ℕ) : Decidable (Dispatched s i k) :=
  inferInstanceAs (Decidable (∃ d ∈ s.dispatches, d.thread = i ∧ k < d.updates))

def Phase.between : Phase → Bool
  | .starting | .inert | .sleeping | .ended => true
  | _ => false

/-- Between two polls every update of a matching thread by someone else has been dispatched, or the thread is unread and
the next poll lists it: it is on the page that a new process gets, or this one where something has changed since it last
asked. -/
def Delivered (cfg : GitHubConfig) (s : State) : Prop :=
  s.phase.between = true → ∀ (i : ℕ) (t : NotificationThread), s.threads[i]? = some t → matching cfg t = true →
    ∀ (k : ℕ) (a : String), t.updates[k]? = some a → a ≠ cfg.selfLogin →
      Dispatched s i k ∨
        t.unread = true ∧ (s.stopped = true ∨ fresh s = true) ∧ ⟨i, t⟩ ∈ cfg.page (unreadThreads s)

/-- Someone else's update of the thread has not been dispatched. -/
def undispatched (cfg : GitHubConfig) (s : State) (i : ℕ) : Bool :=
  s.threads[i]?.any fun t => (List.range t.updates.length).any fun k =>
    t.updates[k]? != some cfg.selfLogin && !decide (Dispatched s i k)

/-- A request of a poll fails only where nothing is left undispatched or the next poll lists it again; the loop guard meets
only threads with nothing undispatched; and when GitHub handles a mark-read, no one else has updated the thread since. -/
def seenThrough (cfg : GitHubConfig) (s : State) : Act → Bool
  | .failed => fresh s || match s.phase with
    | .reading _ => (List.range s.threads.length).all fun i => !(s.threads[i]?.any (matching cfg) && undispatched cfg s i)
    | .fetching t _ _ => !undispatched cfg s t.id
    | _ => true
  | .handled => match s.phase with
    | .fetching t _ _ => author t.thread != cfg.selfLogin || !undispatched cfg s t.id
    | _ => true
  | .markRead k => s.markReads[k]?.all fun m => s.threads[m.thread]?.all fun t =>
      (t.updates.drop m.updates).all (· == cfg.selfLogin)
  | _ => true

/-- The threads that the poll under way has still to handle. -/
def Phase.ahead : Phase → List Listed
  | .reading listing => listing
  | .fetching t _ rest => t :: rest
  | .marking rest => rest
  | _ => []

def Phase.atHand : Phase → List Listed
  | .polling (some (.threads _ listing)) => listing
  | phase => phase.ahead

/-- No unread matching thread with an update left to dispatch is beyond GitHub's first page, unless the poll under way has
it. -/
def roomy (cfg : GitHubConfig) (s : State) : Bool :=
  (List.range s.threads.length).all fun i => s.threads[i]?.all fun t =>
    !(t.unread && matching cfg t && undispatched cfg s i) || (cfg.page (unreadThreads s)).contains ⟨i, t⟩ ||
      s.phase.atHand.any (·.id == i)

def Coming (cfg : GitHubConfig) (listing : List Listed) (i : ℕ) : Prop :=
  ∃ t ∈ listing, t.id = i ∧ t.thread.unread = true ∧ matching cfg t.thread = true

/-- What has not been dispatched is unread, and is listed. -/
def Owed (cfg : GitHubConfig) (s : State) (listing : List Listed) : Prop :=
  ∀ (i : ℕ) (t : NotificationThread), s.threads[i]? = some t → matching cfg t = true → ∀ (k : ℕ) (a : String),
    t.updates[k]? = some a → a ≠ cfg.selfLogin →
      Dispatched s i k ∨ t.unread = true ∧ (s.stopped = true ∨ fresh s = true ∨ Coming cfg listing i)

def Sent (cfg : GitHubConfig) (s : State) : Prop :=
    ∀ m ∈ s.markReads, ∀ k < m.updates, ∃ (t : NotificationThread) (a : String),
  s.threads[m.thread]? = some t ∧ t.updates[k]? = some a ∧ (a ≠ cfg.selfLogin → Dispatched s m.thread k)

structure Kept (cfg : GitHubConfig) (s : State) : Prop where
  behind : ∀ m, s.lastModified = some m → m ≤ s.modified
  answered : ∀ m listing, s.phase = .polling (some (.threads m listing)) → m ≤ s.modified ∧
    (m = s.modified → ∀ (i : ℕ) (t : NotificationThread), s.threads[i]? = some t → t.unread = true →
      matching cfg t = true →
      ∀ (k : ℕ) (a : String), t.updates[k]? = some a → a ≠ cfg.selfLogin →
        Dispatched s i k ∨ Coming cfg listing i)
  sent : Sent cfg s
  owed : Owed cfg s s.phase.ahead

variable {cfg : GitHubConfig} {s s' : State} {i k : ℕ} {t t' : NotificationThread} {listing rest : List Listed}
  {a : String}
  {act : Act}

/-! The threads that are left -/

theorem dispatched_of_not_undispatched (h : undispatched cfg s i = false) (ht : s.threads[i]? = some t)
    (hk : t.updates[k]? = some a) (ha : a ≠ cfg.selfLogin) : Dispatched s i k := by
  rw [undispatched, ht, Option.any_some, List.any_eq_false] at h
  have hlt : k < t.updates.length := (List.getElem?_eq_some_iff.mp hk).1
  have hnot := h k (List.mem_range.mpr hlt)
  rw [hk] at hnot
  simpa [ha] using hnot

theorem on_page_of_roomy (hroomy : roomy cfg s = true) (ht : s.threads[i]? = some t) (hunread : t.unread = true)
    (hmatching : matching cfg t = true) (hk : t.updates[k]? = some a) (ha : a ≠ cfg.selfLogin)
    (hat : s.phase.atHand = []) :
    Dispatched s i k ∨ ⟨i, t⟩ ∈ cfg.page (unreadThreads s) := by
  have hone := List.all_eq_true.mp hroomy i (List.mem_range.mpr (List.getElem?_eq_some_iff.mp ht).1)
  rw [ht, Option.all_some, hunread, hmatching, hat, Bool.true_and, Bool.true_and, List.any_nil, Bool.or_false,
    Bool.or_eq_true, Bool.not_eq_true'] at hone
  rcases hone with hdone | hpage
  · exact Or.inl (dispatched_of_not_undispatched hdone ht hk ha)
  · exact Or.inr (List.contains_iff_mem.mp hpage)

theorem delivered_of_kept (h : Kept cfg s) (hroomy : roomy cfg s = true) : Delivered cfg s := by
  intro hbetween i t ht hmatching k a hk ha
  obtain ⟨hahead, hat⟩ : s.phase.ahead = [] ∧ s.phase.atHand = [] := by
    cases hphase : s.phase with
    | starting | inert | sleeping | ended => exact ⟨rfl, rfl⟩
    | polling | reading | fetching | marking =>
      rw [hphase] at hbetween
      cases hbetween
  rcases h.owed i t ht hmatching k a hk ha with hdispatched | ⟨hunread, hlisted⟩
  · exact Or.inl hdispatched
  · refine (on_page_of_roomy hroomy ht hunread hmatching hk ha hat).imp_right fun hpage => ⟨hunread, ?_, hpage⟩
    rcases hlisted with hstopped | hfresh | hcoming
    · exact Or.inl hstopped
    · exact Or.inr hfresh
    · rw [hahead] at hcoming
      obtain ⟨l, hl, -⟩ := hcoming
      cases hl

/-- The loop goes on to a thread of the listing that is unread and matches, or ends. -/
theorem forThreads_eq (cfg : GitHubConfig) (listing : List Listed) (s : State) :
    ∃ phase, forThreads cfg listing s = { s with phase := phase } ∧ (∀ answer, phase ≠ .polling answer) ∧
      ∀ i, Coming cfg listing i → s.stopped = true ∨ Coming cfg phase.ahead i := by
  induction listing with
  | nil => exact ⟨_, rfl, fun _ => nofun, fun _ h => Or.inr h⟩
  | cons t rest ih =>
    have hskip (hnot : ¬ (t.thread.unread = true ∧ matching cfg t.thread = true)) (i : ℕ)
      (h : Coming cfg (t :: rest) i) :
        Coming cfg rest i := by
      obtain ⟨l, hl, hid, hlisted⟩ := h
      rcases List.mem_cons.mp hl with rfl | hl
      · exact absurd hlisted hnot
      · exact ⟨l, hl, hid, hlisted⟩
    obtain ⟨phase, heq, hphase, hcoming⟩ := ih
    unfold forThreads
    split_ifs with hstopped hunread hmatching
    · exact ⟨_, rfl, fun _ => nofun, fun _ _ => Or.inl hstopped⟩
    · refine ⟨phase, heq, hphase, fun i h => hcoming i (hskip (fun hboth => ?_) i h)⟩
      rw [hboth.1] at hunread
      cases hunread
    · refine ⟨phase, heq, hphase, fun i h => hcoming i (hskip (fun hboth => ?_) i h)⟩
      rw [hboth.2] at hmatching
      cases hmatching
    · exact ⟨_, rfl, fun _ => nofun, fun _ h => Or.inr h⟩

theorem kept_forThreads (hbehind : ∀ m, s.lastModified = some m → m ≤ s.modified) (hsent : Sent cfg s)
    (howed : Owed cfg s listing) : Kept cfg (forThreads cfg listing s) := by
  obtain ⟨phase, heq, hphase, hcoming⟩ := forThreads_eq cfg listing s
  rw [heq]
  refine ⟨hbehind, fun m listing hp => absurd hp (hphase _), hsent, fun i t ht hmatching k a hk ha => ?_⟩
  rcases howed i t ht hmatching k a hk ha with hdispatched | ⟨hunread, hstopped | hfresh | hcome⟩
  · exact Or.inl hdispatched
  · exact Or.inr ⟨hunread, Or.inl hstopped⟩
  · exact Or.inr ⟨hunread, Or.inr (Or.inl hfresh)⟩
  · rcases hcoming i hcome with hstopped | hcome
    · exact Or.inr ⟨hunread, Or.inl hstopped⟩
    · exact Or.inr ⟨hunread, Or.inr (Or.inr hcome)⟩

theorem fresh_iff : fresh s = true ↔ ∀ m, s.lastModified = some m → m < s.modified := by
  unfold fresh
  cases s.lastModified with
  | none => simp
  | some m => simp

/-- Nothing is lost of the listing but what has been dispatched or will be listed again. -/
theorem Owed.left (h : Owed cfg s listing) (hleft : ∀ (i : ℕ) (t : NotificationThread), s.threads[i]? = some t →
    matching cfg t = true → Coming cfg listing i → fresh s = true ∨ undispatched cfg s i = false ∨
    Coming cfg rest i) :
    Owed cfg s rest := by
  intro i t ht hmatching k a hk ha
  rcases h i t ht hmatching k a hk ha with hdispatched | ⟨hunread, hstopped | hfresh | hcoming⟩
  · exact Or.inl hdispatched
  · exact Or.inr ⟨hunread, Or.inl hstopped⟩
  · exact Or.inr ⟨hunread, Or.inr (Or.inl hfresh)⟩
  · rcases hleft i t ht hmatching hcoming with hfresh | hdone | hcoming
    · exact Or.inr ⟨hunread, Or.inr (Or.inl hfresh)⟩
    · exact Or.inl (dispatched_of_not_undispatched hdone ht hk ha)
    · exact Or.inr ⟨hunread, Or.inr (Or.inr hcoming)⟩

theorem coming_cons {l : Listed} (h : Coming cfg (l :: rest) i) : i = l.id ∨ Coming cfg rest i := by
  obtain ⟨l', hl', hid, hlisted⟩ := h
  rcases List.mem_cons.mp hl' with rfl | hl'
  · exact Or.inl hid.symm
  · exact Or.inr ⟨l', hl', hid, hlisted⟩

/-! The poll -/

theorem kept_served (h : Kept cfg s) (hroomy : roomy cfg s = true) (hphase : s.phase = .polling none) :
    Kept cfg { s with phase := .polling (some (notifications cfg s)) } := by
  have howed := h.owed
  rw [hphase] at howed
  refine ⟨h.behind, fun m listing hp => ?_, h.sent, howed⟩
  by_cases hfresh : fresh s = true
  · rw [notifications, if_pos hfresh] at hp
    cases hp
    refine ⟨Nat.le_refl _, fun _ i t ht hunread hmatching k a hk ha => ?_⟩
    have hat : s.phase.atHand = [] := by rw [hphase]; rfl
    exact (on_page_of_roomy hroomy ht hunread hmatching hk ha hat).imp_right fun hpage =>
      ⟨⟨i, t⟩, hpage, rfl, hunread, hmatching⟩
  · rw [notifications, if_neg hfresh] at hp
    cases hp

theorem kept_received (h : Kept cfg s) (header : Bool) {m : ℕ} (hphase : s.phase = .polling (some (.threads m listing))) :
    Kept cfg { s with phase := .reading listing, lastModified := if header then some m else s.lastModified } := by
  obtain ⟨hm, hcurrent⟩ := h.answered m listing hphase
  have howed := h.owed
  rw [hphase] at howed
  refine ⟨fun m' hm' => ?_, fun _ _ hp => (by cases hp), h.sent, fun i t ht hmatching k a hk ha => ?_⟩
  · dsimp only at hm'
    split_ifs at hm'
    · cases hm'
      exact hm
    · exact h.behind m' hm'
  · rcases howed i t ht hmatching k a hk ha with hdispatched | ⟨hunread, hstopped | hfresh | ⟨_, hl, _⟩⟩
    · exact Or.inl hdispatched
    · exact Or.inr ⟨hunread, Or.inl hstopped⟩
    · rcases Nat.lt_or_eq_of_le hm with hlt | heq
      · refine Or.inr ⟨hunread, Or.inr (Or.inl (fresh_iff.mpr fun m' hm' => ?_))⟩
        dsimp only at hm' ⊢
        split_ifs at hm'
        · cases hm'
          exact hlt
        · exact fresh_iff.mp hfresh m' hm'
      · exact (hcurrent heq i t ht hunread hmatching k a hk ha).imp_right fun hcoming =>
          ⟨hunread, Or.inr (Or.inr hcoming)⟩
    · cases hl

/-! The threads of a listing -/

theorem kept_handle {l : Listed} (h : Kept cfg s) (hphase : s.phase = .fetching l 0 rest)
    (hskip : author l.thread = cfg.selfLogin → undispatched cfg s l.id = false) : Kept cfg (handle cfg l rest s) := by
  have howed := h.owed
  rw [hphase] at howed
  -- all that the thread has by now is covered by the dispatch, or needs none
  have hcovered : ∀ (t : NotificationThread), s.threads[l.id]? = some t →
    ∀ (k : ℕ) (a : String), t.updates[k]? = some a →
      a ≠ cfg.selfLogin → Dispatched (handle cfg l rest s) l.id k := by
    intro t ht k a hk ha
    unfold handle
    dsimp only
    split_ifs with hself
    · exact dispatched_of_not_undispatched (hskip hself) ht hk ha
    · refine ⟨_, List.mem_append_right _ (List.mem_singleton.mpr rfl), rfl, ?_⟩
      dsimp only
      rw [ht]
      exact (List.getElem?_eq_some_iff.mp hk).1
  have hmono : ∀ i k, Dispatched s i k → Dispatched (handle cfg l rest s) i k := by
    rintro i k ⟨d, hd, hcover⟩
    unfold handle
    dsimp only
    split_ifs
    · exact ⟨d, hd, hcover⟩
    · exact ⟨d, List.mem_append_left _ hd, hcover⟩
  have heq : ∃ dispatches markReads, handle cfg l rest s =
      { s with dispatches := dispatches, markReads := markReads, phase := .marking rest } ∧
      markReads = s.markReads ++ [⟨l.id, (s.threads[l.id]?.elim 0) fun now => now.updates.length⟩] := by
    unfold handle
    dsimp only
    split_ifs
    · exact ⟨_, _, rfl, rfl⟩
    · exact ⟨_, _, rfl, rfl⟩
  obtain ⟨dispatches, markReads, heq, rfl⟩ := heq
  rw [heq] at hcovered hmono ⊢
  refine ⟨h.behind, fun _ _ hp => (by cases hp), fun m hm k hk => ?_, fun i t ht hmatching k a hk ha => ?_⟩
  · rcases List.mem_append.mp hm with hm | hm
    · obtain ⟨t, a, ht, ha, hdispatched⟩ := h.sent m hm k hk
      exact ⟨t, a, ht, ha, fun hother => hmono _ _ (hdispatched hother)⟩
    · cases List.mem_singleton.mp hm
      dsimp only at hk ⊢
      cases ht : s.threads[l.id]? with
      | none =>
        rw [ht] at hk
        cases hk
      | some t =>
        rw [ht, Option.elim_some] at hk
        exact ⟨t, _, rfl, List.getElem?_eq_getElem hk, hcovered t ht k _ (List.getElem?_eq_getElem hk)⟩
  · by_cases hi : i = l.id
    · subst hi
      exact Or.inl (hcovered t ht k a hk ha)
    · rcases howed i t ht hmatching k a hk ha with hdispatched | ⟨hunread, hstopped | hfresh | hcoming⟩
      · exact Or.inl (hmono i k hdispatched)
      · exact Or.inr ⟨hunread, Or.inl hstopped⟩
      · exact Or.inr ⟨hunread, Or.inr (Or.inl hfresh)⟩
      · exact Or.inr ⟨hunread, Or.inr (Or.inr ((coming_cons hcoming).resolve_left hi))⟩

/-! Activity on GitHub -/

theorem Sent.grows (h : Sent cfg s) (hmarkReads : ∀ m ∈ s'.markReads, m ∈ s.markReads)
    (hdispatches : s'.dispatches = s.dispatches)
    (hthreads : ∀ (j : ℕ) (t : NotificationThread), s.threads[j]? = some t →
      ∃ t' : NotificationThread, s'.threads[j]? = some t' ∧ t.updates <+: t'.updates) : Sent cfg s' := by
  intro m hm k hk
  obtain ⟨t, a, ht, ha, hdispatched⟩ := h m (hmarkReads m hm) k hk
  obtain ⟨t', ht', later, hlater⟩ := hthreads m.thread t ht
  refine ⟨t', a, ht', ?_, fun hother => ?_⟩
  · rw [← hlater]
    exact Lists.getElem?_append_of_some ha _
  · rw [Dispatched, hdispatches]
    exact hdispatched hother

theorem grows_set (ht : s.threads[i]? = some t) (hupdates : t.updates <+: t'.updates) (j : ℕ) (u : NotificationThread)
    (hu : s.threads[j]? = some u) : ∃ u' : NotificationThread, (s.threads.set i t')[j]? = some u' ∧
    u.updates <+: u'.updates := by
  by_cases hij : i = j
  · subst hij
    cases ht.symm.trans hu
    exact ⟨t', List.getElem?_set_self (List.getElem?_eq_some_iff.mp ht).1, hupdates⟩
  · exact ⟨u, (List.getElem?_set_ne hij).trans hu, u.updates.prefix_refl⟩

/-- After a change that the next poll will see, unread threads are no worry. -/
theorem kept_changed (h : Kept cfg s) (hmodified : s'.modified = s.modified + 1) (hlast : s'.lastModified = s.lastModified)
    (hphase : s'.phase = s.phase) (hmarkReads : s'.markReads = s.markReads) (hdispatches : s'.dispatches = s.dispatches)
    (hgrows : ∀ (j : ℕ) (t : NotificationThread), s.threads[j]? = some t →
      ∃ t' : NotificationThread, s'.threads[j]? = some t' ∧ t.updates <+: t'.updates)
    (hthreads : ∀ (j : ℕ) (t' : NotificationThread), s'.threads[j]? = some t' →
      t'.unread = true ∨ s.threads[j]? = some t') :
    Kept cfg s' := by
  have hfresh : fresh s' = true := by
    refine fresh_iff.mpr fun m hm => ?_
    rw [hmodified]
    exact Nat.lt_succ_of_le (h.behind m (hlast ▸ hm))
  refine ⟨fun m hm => ?_, fun m listing hp => ?_, h.sent.grows (fun m hm => hmarkReads ▸ hm) hdispatches hgrows,
    fun i t ht hmatching k a hk ha => ?_⟩
  · rw [hmodified]
    exact Nat.le_succ_of_le (h.behind m (hlast ▸ hm))
  · obtain ⟨hm, -⟩ := h.answered m listing (hphase ▸ hp)
    rw [hmodified]
    exact ⟨Nat.le_succ_of_le hm, fun heq => absurd (heq ▸ hm) (Nat.not_succ_le_self _)⟩
  · rcases hthreads i t ht with hunread | hold
    · exact Or.inr ⟨hunread, Or.inr (Or.inl hfresh)⟩
    · rcases h.owed i t hold hmatching k a hk ha with hdispatched | ⟨hunread, -⟩
      · rw [Dispatched, hdispatches]
        exact Or.inl hdispatched
      · exact Or.inr ⟨hunread, Or.inr (Or.inl hfresh)⟩

theorem kept_ownComment (h : Kept cfg s) (ht : s.threads[i]? = some t) : Kept cfg (setThread s i { t with
    latestUser := some (some cfg.selfLogin), updates := t.updates ++ [cfg.selfLogin] }) := by
  have hold : ∀ (j : ℕ) (u' : NotificationThread), (s.threads.set i { t with
      latestUser := some (some cfg.selfLogin), updates := t.updates ++ [cfg.selfLogin] })[j]? = some u' →
      ∃ u : NotificationThread, s.threads[j]? = some u ∧ u.unread = u'.unread ∧ matching cfg u = matching cfg u' ∧
        ∀ (k : ℕ) (a : String), u'.updates[k]? = some a → a ≠ cfg.selfLogin → u.updates[k]? = some a := by
    intro j u' hu'
    rw [List.getElem?_set] at hu'
    split_ifs at hu' with hij hlt
    · subst hij
      cases hu'
      refine ⟨t, ht, rfl, rfl, fun k a hk ha => ?_⟩
      exact (Lists.getElem?_concat_cases hk).resolve_right ha
    · exact ⟨u', hu', rfl, rfl, fun _ _ hk _ => hk⟩
  refine ⟨h.behind, fun m listing hp => ?_, h.sent.grows (fun _ hm => hm) rfl (grows_set ht (List.prefix_append _ _)),
    fun j u' hu' hmatching k a hk ha => ?_⟩
  · obtain ⟨hm, hcurrent⟩ := h.answered m listing hp
    refine ⟨hm, fun heq j u' hu' hunread hmatching k a hk ha => ?_⟩
    obtain ⟨u, hu, hunread', hmatching', hupdates⟩ := hold j u' hu'
    exact hcurrent heq j u hu (hunread'.trans hunread) (hmatching'.trans hmatching) k a (hupdates k a hk ha) ha
  · obtain ⟨u, hu, hunread, hmatching', hupdates⟩ := hold j u' hu'
    rw [← hunread]
    exact h.owed j u hu (hmatching'.trans hmatching) k a (hupdates k a hk ha) ha

theorem kept_markRead (h : Kept cfg s) {m : MarkRead} (hm : s.markReads[k]? = some m) (ht : s.threads[m.thread]? = some t)
    (hsince : ∀ a ∈ t.updates.drop m.updates, a = cfg.selfLogin) :
    Kept cfg { setThread s m.thread { t with unread := false } with
      markReads := s.markReads.eraseIdx k
      modified := if cfg.markReadChanges then s.modified + 1 else s.modified } := by
  have hmodified : s.modified ≤ if cfg.markReadChanges then s.modified + 1 else s.modified := by
    split_ifs
    · exact Nat.le_succ _
    · exact Nat.le_refl _
  have hcovered : ∀ (k : ℕ) (a : String), t.updates[k]? = some a → a ≠ cfg.selfLogin →
    Dispatched s m.thread k := by
    intro k a hk ha
    by_cases hlt : k < m.updates
    · obtain ⟨t', a', ht', ha', hdispatched⟩ := h.sent m (List.mem_of_getElem? hm) k hlt
      cases ht.symm.trans ht'
      cases hk.symm.trans ha'
      exact hdispatched ha
    · refine absurd (hsince a (List.mem_of_getElem? (i := k - m.updates) ?_)) ha
      rw [List.getElem?_drop, Nat.add_sub_cancel' (Nat.not_lt.mp hlt)]
      exact hk
  refine ⟨fun m' hm' => Nat.le_trans (h.behind m' hm') hmodified, fun m' listing hp => ?_,
    h.sent.grows (fun _ hm => List.mem_of_mem_eraseIdx hm) rfl (grows_set ht (List.prefix_refl _)),
    fun j u hu hmatching k a hk ha => ?_⟩
  · obtain ⟨hm', hcurrent⟩ := h.answered m' listing hp
    refine ⟨Nat.le_trans hm' hmodified, fun heq j u hu hunread hmatching k a hk ha => ?_⟩
    dsimp only at heq
    have hsame : m' = s.modified := Nat.le_antisymm hm' (heq ▸ hmodified)
    rw [setThread] at hu
    dsimp only at hu
    rw [List.getElem?_set] at hu
    split_ifs at hu
    · cases hu
      cases hunread
    · exact hcurrent hsame j u hu hunread hmatching k a hk ha
  · rw [setThread] at hu
    dsimp only at hu
    rw [List.getElem?_set] at hu
    split_ifs at hu with hij hlt
    · subst hij
      cases hu
      exact Or.inl (hcovered k a hk ha)
    · rcases h.owed j u hu hmatching k a hk ha with hdispatched | ⟨hunread, hstopped | hfresh | hcoming⟩
      · exact Or.inl hdispatched
      · exact Or.inr ⟨hunread, Or.inl hstopped⟩
      · refine Or.inr ⟨hunread, Or.inr (Or.inl (fresh_iff.mpr fun m' hm' => ?_))⟩
        exact Nat.lt_of_lt_of_le (fresh_iff.mp hfresh m' hm') hmodified
      · exact Or.inr ⟨hunread, Or.inr (Or.inr hcoming)⟩

/-! Runs -/

/-- A step between two polls. -/
theorem kept_moved (h : Kept cfg s) (phase : Phase) (stopped : Bool) (hstopped : s.stopped = true → stopped = true)
    (hahead : s.phase.ahead = phase.ahead) (hphase : ∀ answer, phase = .polling (some answer) → s.phase = phase) :
    Kept cfg { s with phase := phase, stopped := stopped } := by
  refine ⟨h.behind, fun m listing hp => h.answered m listing ((hphase _ hp).trans hp), h.sent,
    fun i t ht hmatching k a hk ha => ?_⟩
  dsimp only
  rw [← hahead]
  exact (h.owed i t ht hmatching k a hk ha).imp_right (And.imp_right (Or.imp_left hstopped))

theorem kept_failed (h : Kept cfg s) (hok : seenThrough cfg s .failed = true) (hs : step cfg s .failed = some s') :
    Kept cfg s' := by
  have howed := h.owed
  rw [seenThrough, Bool.or_eq_true] at hok
  rw [step] at hs
  split at hs
  · rename_i answer hphase
    cases hs
    exact kept_moved h .sleeping s.stopped id (by rw [hphase]; rfl) fun _ hp => by cases hp
  · rename_i listing hphase
    cases hs
    rw [hphase] at howed hok
    refine ⟨h.behind, fun _ _ hp => (by cases hp), h.sent, howed.left fun i t ht hmatching _ => ?_⟩
    rcases hok with hfresh | hall
    · exact Or.inl hfresh
    · have hone := List.all_eq_true.mp hall i (List.mem_range.mpr (List.getElem?_eq_some_iff.mp ht).1)
      rw [ht, Option.any_some, hmatching, Bool.true_and, Bool.not_eq_true'] at hone
      exact Or.inr (Or.inl hone)
  · rename_i l left rest hphase
    cases hs
    rw [hphase] at howed hok
    refine kept_forThreads h.behind h.sent (howed.left fun i t ht hmatching hcoming => ?_)
    rcases hok with hfresh | hdone
    · exact Or.inl hfresh
    · rcases coming_cons hcoming with rfl | hcoming
      · exact Or.inr (Or.inl (Bool.not_eq_true' _ ▸ hdone))
      · exact Or.inr (Or.inr hcoming)
  · cases hs

/-- No poll was under way, and none is answered yet. -/
theorem kept_idle (h : Kept cfg s) {phase : Phase} (hahead : s.phase.ahead = []) (hahead' : phase.ahead = [])
    (hanswer : ∀ answer, phase ≠ .polling (some answer)) : Kept cfg { s with phase := phase } :=
  kept_moved h phase s.stopped id (hahead.trans hahead'.symm) fun answer hp => absurd hp (hanswer answer)

theorem kept_login (h : Kept cfg s) {ok : Bool} (hs : step cfg s (.login ok) = some s') : Kept cfg s' := by
  rw [step] at hs
  split at hs
  · rename_i hphase
    cases hs
    refine kept_idle h (by rw [hphase]; rfl) ?_ fun answer hp => ?_
    · split_ifs <;> rfl
    · split_ifs at hp
      cases hp
  · cases hs

theorem kept_wake (h : Kept cfg s) (hs : step cfg s .wake = some s') : Kept cfg s' := by
  rw [step] at hs
  split at hs
  · rename_i hphase
    cases hs
    refine kept_idle h (by rw [hphase]; rfl) ?_ fun answer hp => ?_
    · split_ifs <;> rfl
    · split_ifs at hp
      cases hp
  · cases hs

/-- A new process has not asked yet, so that the first page is its answer. -/
theorem kept_restart (h : Kept cfg s) :
    Kept cfg { s with phase := .starting, stopped := false, lastModified := none } := by
  refine ⟨fun _ hm => (by cases hm), fun _ _ hp => (by cases hp), h.sent, fun i t ht hmatching k a hk ha => ?_⟩
  exact (h.owed i t ht hmatching k a hk ha).imp_right fun hunread => ⟨hunread.1, Or.inr (Or.inl rfl)⟩

/-- The loop begins with a listing, or goes on with what is left of it. -/
theorem kept_loop (h : Kept cfg s) (hahead : s.phase.ahead = listing) : Kept cfg (forThreads cfg listing s) := by
  have howed := h.owed
  rw [hahead] at howed
  exact kept_forThreads h.behind h.sent howed

theorem kept_opened (h : Kept cfg s) (t : NotificationThread) (author : String) : Kept cfg { s with
    threads := s.threads ++ [{ t with unread := true, updates := [author] }], modified := s.modified + 1 } := by
  refine kept_changed h rfl rfl rfl rfl rfl (fun j u hu => ?_) fun j u' hu' => ?_
  · exact ⟨u, Lists.getElem?_append_of_some hu _, u.updates.prefix_refl⟩
  · rcases Lists.getElem?_concat_cases hu' with hu | rfl
    · exact Or.inr hu
    · exact Or.inl rfl

theorem kept_activity (h : Kept cfg s) (ht : s.threads[i]? = some t) (author : String) (latestUser : Option (Option String))
    (reason : String) : Kept cfg { setThread s i { t with
      unread := true, reason := reason, latestUser := latestUser, updates := t.updates ++ [author] } with
    modified := s.modified + 1 } := by
  refine kept_changed h rfl rfl rfl rfl rfl (grows_set ht (List.prefix_append _ _)) fun j u' hu' => ?_
  rw [setThread] at hu'
  dsimp only at hu'
  rw [List.getElem?_set] at hu'
  split_ifs at hu'
  · cases hu'
    exact Or.inl rfl
  · exact Or.inr hu'

theorem kept_step (h : Kept cfg s) (hroomy : roomy cfg s = true) (hok : seenThrough cfg s act = true)
    (hs : step cfg s act = some s') : Kept cfg s' := by
  cases act with
  | login ok => exact kept_login h hs
  | stop =>
    cases hs
    exact kept_moved h s.phase true (fun _ => rfl) rfl fun _ _ => rfl
  | restart =>
    cases hs
    exact kept_restart h
  | wake => exact kept_wake h hs
  | served =>
    rw [step] at hs
    split at hs
    · rename_i hphase
      cases hs
      exact kept_served h hroomy hphase
    · cases hs
  | received header =>
    rw [step] at hs
    split at hs
    · rename_i hphase
      cases hs
      exact kept_idle h (by rw [hphase]; rfl) rfl fun _ hp => by cases hp
    · rename_i m listing hphase
      cases hs
      exact kept_received h header hphase
    · cases hs
  | read =>
    rw [step] at hs
    split at hs
    · rename_i listing hphase
      cases hs
      exact kept_loop h (by rw [hphase]; rfl)
    · cases hs
  | fetched =>
    rw [step] at hs
    split at hs
    · rename_i l left rest hphase
      cases hs
      exact kept_moved h (.fetching l left rest) s.stopped id (by rw [hphase]; rfl) fun _ hp => by cases hp
    · cases hs
  | handled =>
    rw [step] at hs
    split at hs
    · rename_i l rest hphase
      cases hs
      rw [seenThrough, hphase] at hok
      refine kept_handle h hphase fun hself => ?_
      simpa [hself] using hok
    · cases hs
  | marked =>
    rw [step] at hs
    split at hs
    · rename_i rest hphase
      cases hs
      exact kept_loop h (by rw [hphase]; rfl)
    · cases hs
  | failed => exact kept_failed h hok hs
  | markRead k =>
    obtain ⟨m, hm, hs⟩ := Option.bind_eq_some_iff.mp hs
    obtain ⟨t, ht, rfl⟩ := Option.map_eq_some_iff.mp hs
    rw [seenThrough, hm, Option.all_some, ht, Option.all_some, List.all_eq_true] at hok
    exact kept_markRead h hm ht fun a ha => beq_iff_eq.mp (hok a ha)
  | opened t author =>
    cases hs
    exact kept_opened h t author
  | activity i author latestUser reason =>
    obtain ⟨t, ht, rfl⟩ := Option.map_eq_some_iff.mp hs
    exact kept_activity h ht author latestUser reason
  | ownComment i =>
    obtain ⟨t, ht, rfl⟩ := Option.map_eq_some_iff.mp hs
    exact kept_ownComment h ht

/-- A step that gives up no listed update and lets none slip in before a mark-read, and after which nothing that is left
to dispatch is beyond the first page. -/
def attended (cfg : GitHubConfig) (s : State) (act : Act) : Bool :=
  seenThrough cfg s act && (step cfg s act).all (roomy cfg)

/-- In every run of such steps every update of a matching thread by someone else is dispatched, or is still to be listed
by the next poll. -/
theorem delivered_at_least_once (cfg : GitHubConfig) (acts : List Act) (s : State)
    (hok : RunOk (step cfg) (fun s act => attended cfg s act = true) init acts) (hrun : run (step cfg) init acts = some s) :
    Delivered cfg s := by
  have hinit : Kept cfg init :=
    ⟨fun _ hm => (by cases hm), fun _ _ hp => (by cases hp), fun _ hm => absurd hm List.not_mem_nil,
      fun _ _ ht => (by cases ht)⟩
  obtain ⟨hkept, hroomy⟩ := run_inv (fun s => Kept cfg s ∧ roomy cfg s = true) (fun _ _ _ h hok hs => by
    obtain ⟨hseen, hroom⟩ := Bool.and_eq_true_iff.mp hok
    exact ⟨kept_step h.1 h.2 hseen hs, (Option.all_eq_true _ _).mp hroom _ hs⟩) ⟨hinit, rfl⟩ hok hrun
  exact delivered_of_kept hkept hroomy

/-- The defaults; a page has at most 50 threads. -/
def ownRepos : GitHubConfig := ⟨none, none, "bot", true, List.take 50⟩

def issue : NotificationThread := ⟨"Issue", "mention", false, some (some "alice"), none, []⟩

/-- The request for the subject fails; a comment of bob has the thread listed again. -/
def redeliveredRun : List Act :=
  [.login true, .opened issue "alice", .served, .received true, .activity 0 "bob" (some (some "bob")) "mention", .read,
    .failed,
    .wake, .served, .received true, .read, .fetched, .fetched, .handled, .markRead 0, .marked]

theorem delivered_at_least_once_redelivered : ∃ s, run (step ownRepos) init redeliveredRun = some s ∧
    s.dispatches = [⟨0, "bob", 2⟩] ∧ Delivered ownRepos s := by
  obtain ⟨s, hs, hdispatches⟩ : ∃ s, run (step ownRepos) init redeliveredRun = some s ∧
    s.dispatches = [⟨0, "bob", 2⟩] :=
    ⟨_, rfl, rfl⟩
  exact ⟨s, hs, hdispatches, delivered_at_least_once ownRepos redeliveredRun s (by decide) hs⟩

def hiddenRun : List Act := [.login true, .opened issue "alice", .served, .received true, .read, .failed]

theorem failed_request_hides_update : ¬ ∀ (cfg : GitHubConfig) (acts : List Act) (s : State),
    run (step cfg) init acts = some s → Delivered cfg s := by
  intro hall
  obtain ⟨s, hs, hphase, hthreads, hstopped, hfresh, hdispatches⟩ :
    ∃ s, run (step ownRepos) init hiddenRun = some s ∧
      s.phase = .sleeping ∧ s.threads = [{ issue with unread := true, updates := ["alice"] }] ∧ s.stopped = false ∧
      fresh s = false ∧ s.dispatches = [] := ⟨_, rfl, rfl, rfl, rfl, rfl, rfl⟩
  have hthread : s.threads[0]? = some { issue with unread := true, updates := ["alice"] } := by rw [hthreads]; rfl
  have hbetween : s.phase.between = true := by rw [hphase]; rfl
  rcases hall ownRepos hiddenRun s hs hbetween 0 _ hthread (by decide) 0 "alice" rfl (by decide)
    with ⟨d, hd, -⟩ | ⟨-, h | h, -⟩
  · rw [hdispatches] at hd
    cases hd
  · cases hstopped.symm.trans h
  · cases hfresh.symm.trans h

end Nexal.GitHub
