import Nexal.Lib.Lists
import Nexal.Sanity.LocalRead
import Nexal.Spec.LocalProcess

/-! What a client gets that reads page by page, whatever goes on at the agent between its reads. -/

namespace Nexal.LocalProcess

open Runs

variable {s s' : State} {r : Reader} {e e' : RunningProcess} {params : ReadParams}

/-! The cursor -/

theorem page_ordered (h : Ascending e) : (readResponse params e).chunks.Pairwise fun a b => a.seq < b.seq :=
  List.Pairwise.sublist ((page_starts params e).sublist.trans List.filter_sublist) h.ordered

theorem mem_page {c : RetainedOutputChunk} (hc : c ∈ (readResponse params e).chunks) :
    c ∈ e.output ∧ params.afterSeq.getD 0 < c.seq :=
  (mem_wanted params e).mp ((page_starts params e).subset hc)

/-- What the page leaves out comes after all that is in it. -/
theorem left_out_later (h : Ascending e) {c d : RetainedOutputChunk} (hc : c ∈ e.output)
    (hafter : params.afterSeq.getD 0 < c.seq) (hout : c ∉ (readResponse params e).chunks)
    (hd : d ∈ (readResponse params e).chunks) : d.seq < c.seq := by
  obtain ⟨rest, hrest⟩ := page_starts params e
  have hwanted : (wanted params e).Pairwise fun a b => a.seq < b.seq := h.ordered.sublist List.filter_sublist
  rw [← hrest] at hwanted
  have hmem : c ∈ wanted params e := (mem_wanted params e).mpr ⟨hc, hafter⟩
  rw [← hrest] at hmem
  exact (List.pairwise_append.mp hwanted).2.2 d hd c ((List.mem_append.mp hmem).resolve_left hout)

theorem getLast?_max {l : List RetainedOutputChunk} {d : RetainedOutputChunk} (h : l.Pairwise fun a b => a.seq < b.seq)
    (hd : l.getLast? = some d) : ∀ c ∈ l, c.seq ≤ d.seq := by
  intro c hc
  obtain ⟨front, rfl⟩ := List.getLast?_eq_some_iff.mp hd
  rcases List.mem_append.mp hc with hfront | hlast
  · exact Nat.le_of_lt ((List.pairwise_append.mp h).2.2 c hfront d List.mem_cons_self)
  · rw [List.mem_singleton.mp hlast]

/-- Whichever way the client goes, the next read asks for what comes after the last chunk. -/
theorem next_of_getLast? {client : PageClient} {d : RetainedOutputChunk} (byNextSeq : Bool)
    (hlast : (readResponse params e).chunks.getLast? = some d) :
    (client.next (readResponse params e) byNextSeq).getD 0 = d.seq := by
  have hnext := page_nextSeq params e
  rw [hlast] at hnext
  unfold PageClient.next
  split_ifs
  · rw [hnext]
    rfl
  · rw [hlast]
    rfl

/-- The next read asks for what the page leaves out. -/
theorem next_left_out (h : Ascending e) {client : PageClient} (byNextSeq : Bool) {c : RetainedOutputChunk}
    (hc : c ∈ e.output) (hafter : params.afterSeq.getD 0 < c.seq) (hout : c ∉ (readResponse params e).chunks) :
    (client.next (readResponse params e) byNextSeq).getD 0 < c.seq := by
  cases hlast : (readResponse params e).chunks.getLast? with
  | none =>
    have hmem : c ∈ wanted params e := (mem_wanted params e).mpr ⟨hc, hafter⟩
    rw [(page_eq_nil_iff params e).mp (List.getLast?_eq_none_iff.mp hlast)] at hmem
    cases hmem
  | some d =>
    rw [next_of_getLast? byNextSeq hlast]
    exact left_out_later h hc hafter hout (List.mem_of_getLast? hlast)

/-- The next read asks for what comes after the page and after all that was asked for before. -/
theorem next_spec (h : Ascending e) (client : PageClient) (hparams : params.afterSeq = client.afterSeq) (byNextSeq : Bool) :
    (∀ c ∈ (readResponse params e).chunks, c.seq ≤ (client.next (readResponse params e) byNextSeq).getD 0) ∧
      ∀ n, n ≤ client.afterSeq.getD 0 → n < e.nextSeq →
        n ≤ (client.next (readResponse params e) byNextSeq).getD 0 := by
  have hnext := page_nextSeq params e
  cases hlast : (readResponse params e).chunks.getLast? with
  | none =>
    have hnil := List.getLast?_eq_none_iff.mp hlast
    rw [hlast] at hnext
    refine ⟨fun c hc => ?_, fun n hn hlt => ?_⟩
    · rw [hnil] at hc
      cases hc
    · unfold PageClient.next
      split_ifs
      · rw [hnext]
        exact Nat.le_sub_one_of_lt hlt
      · rw [hlast]
        exact hn
  | some d =>
    rw [next_of_getLast? byNextSeq hlast]
    have hafter := (mem_page (List.mem_of_getLast? hlast)).2
    rw [hparams] at hafter
    exact ⟨getLast?_max (page_ordered h) hlast, fun n hn _ => Nat.le_of_lt (Nat.lt_of_le_of_lt hn hafter)⟩

/-! The read that is under way -/

/-- The answer of the read, if it has one, is the page of the entry that it found. -/
def Reader.foundIn (r : Reader) (looked : Option RunningProcess) : Prop :=
  ∀ response, (∃ notify, r.phase = .checked response notify) ∨ r.phase = .returned (.inl response) →
    ∃ e, looked = some e ∧ response = readResponse r.params e

/-- A read without an answer agrees with any look. -/
theorem foundIn_of_unanswered {looked : Option RunningProcess}
    (hchecked : ∀ response notify, r.phase ≠ .checked response notify)
    (hreturned : ∀ response, r.phase ≠ .returned (.inl response)) : r.foundIn looked := by
  rintro response (⟨notify, hphase⟩ | hphase)
  · exact absurd hphase (hchecked response notify)
  · exact absurd hphase (hreturned response)

theorem foundIn_of_locking {looked : Option RunningProcess} (h : r.phase = .locking) : r.foundIn looked :=
  foundIn_of_unanswered (by simp [h]) (by simp [h])

theorem readStep_foundIn {r' : Reader} {looked : Option RunningProcess} (hstep : readStep s r = some r')
    (h : r.foundIn looked) : r'.params = r.params ∧
      r'.foundIn ((s.found r).or looked) := by
  unfold readStep at hstep
  cases hphase : r.phase with
  | locking =>
    simp only [hphase] at hstep
    split at hstep
    · cases hstep
      exact ⟨rfl, foundIn_of_unanswered (by simp) (by simp)⟩
    · cases hstep
      exact ⟨rfl, foundIn_of_unanswered (by simp) (by simp)⟩
    · rename_i e he
      cases hstep
      refine ⟨rfl, fun response hresponse => ⟨e, by simp only [State.found, hphase, he]; rfl, ?_⟩⟩
      rcases hresponse with ⟨_, hchecked⟩ | hreturned
      · cases hchecked
        rfl
      · cases hreturned
  | checked response notify =>
    have hfound := h response (Or.inl ⟨notify, hphase⟩)
    have hnone : s.found r = none := by simp only [State.found, hphase]
    simp only [hphase] at hstep
    split_ifs at hstep
    · cases hstep
      refine ⟨rfl, fun response' hresponse => ?_⟩
      rcases hresponse with ⟨_, hchecked⟩ | hreturned
      · cases hchecked
      · cases hreturned
        rw [hnone, Option.none_or]
        exact hfound
    · cases hstep
      exact ⟨rfl, foundIn_of_unanswered (by simp) (by simp)⟩
  | parked notify =>
    simp only [hphase] at hstep
    cases hstep
  | returned result =>
    simp only [hphase] at hstep
    cases hstep

theorem foundIn_elapse {looked : Option RunningProcess} (h : r.foundIn looked) :
    r.elapse.params = r.params ∧ r.elapse.foundIn looked := by
  unfold Reader.elapse
  split
  · exact ⟨rfl, foundIn_of_locking rfl⟩
  · exact ⟨rfl, h⟩

theorem foundIn_wake {looked : Option RunningProcess} (i : ℕ) (h : r.foundIn looked) :
    (r.wake i).params = r.params ∧ (r.wake i).foundIn looked := by
  unfold Reader.wake
  split_ifs
  · exact ⟨rfl, foundIn_of_locking rfl⟩
  · exact ⟨rfl, h⟩

/-- The read of the client through a step of the agent. -/
theorem reading_step {a : Act} {client : PageClient} {k : ℕ} (hs : step s a = some s') (hk : client.reading = some k)
    (hr : s.readers[k]? = some r) (h : r.foundIn client.looked) :
    ∃ r', s'.readers[k]? = some r' ∧ r'.params = r.params ∧ r'.foundIn (client.look s a).looked := by
  cases a with
  | reader j =>
    obtain ⟨r₀, hj, hs⟩ := Option.bind_eq_some_iff.mp hs
    obtain ⟨r', hstep, rfl⟩ := Option.map_eq_some_iff.mp hs
    simp only [PageClient.look, hk, Option.some.injEq]
    rw [Lists.getElem?_set_of_some hj]
    by_cases hjk : k = j
    · subst hjk
      obtain rfl := Option.some.inj (hj.symm.trans hr)
      obtain ⟨hparams, hfound⟩ := readStep_foundIn hstep h
      rw [if_pos rfl, if_pos rfl]
      refine ⟨r', rfl, hparams, ?_⟩
      rw [hj]
      exact hfound
    · rw [if_neg hjk, if_neg hjk]
      exact ⟨r, hr, rfl, h⟩
  | elapse j =>
    obtain ⟨r₀, hj, rfl⟩ := Option.map_eq_some_iff.mp hs
    dsimp only [PageClient.look]
    rw [Lists.getElem?_set_of_some hj]
    split_ifs with hjk
    · subst hjk
      obtain rfl := Option.some.inj (hj.symm.trans hr)
      exact ⟨_, rfl, foundIn_elapse h⟩
    · exact ⟨r, hr, rfl, h⟩
  | task i t ok =>
    obtain ⟨p, hi, hs⟩ := Option.bind_eq_some_iff.mp hs
    obtain ⟨⟨entry, p'⟩, -, rfl⟩ := Option.map_eq_some_iff.mp hs
    dsimp only [PageClient.look]
    split_ifs
    · rw [List.getElem?_map, hr]
      exact ⟨_, rfl, foundIn_wake i h⟩
    · exact ⟨r, hr, rfl, h⟩
  | read params =>
    cases hs
    exact ⟨r, Lists.getElem?_append_of_some hr _, rfl, h⟩
  | start params =>
    simp only [step] at hs
    split at hs
    · rename_i hstart
      cases hs
      rw [startProcess_ok hstart]
      exact ⟨r, hr, rfl, h⟩
    · cases hs
      exact ⟨r, hr, rfl, h⟩
  | spawned j | spawnFailed j | endOutput i side =>
    obtain ⟨_, -, rfl⟩ := Option.map_eq_some_iff.mp hs
    exact ⟨r, hr, rfl, h⟩
  | output i side chunk =>
    obtain ⟨p, -, hs⟩ := Option.bind_eq_some_iff.mp hs
    dsimp only at hs
    split_ifs at hs
    cases hs
    exact ⟨r, hr, rfl, h⟩
  | exits i code =>
    obtain ⟨p, -, hs⟩ := Option.bind_eq_some_iff.mp hs
    split_ifs at hs
    cases hs
    exact ⟨r, hr, rfl, h⟩
  | initialized =>
    cases hs
    split_ifs <;> exact ⟨r, hr, rfl, h⟩
  | initializeRequest | shutdown =>
    cases hs
    exact ⟨r, hr, rfl, h⟩

/-! The pages -/

/-- A page was taken no later than the entry `e` was as it is, and a read from the cursor on finds
in `e` only what comes after it. -/
structure Behind (cursor : Option ℕ) (e : RunningProcess) (page : Page) : Prop where
  notify : page.entry.outputNotify ≤ e.outputNotify
  cursor : page.entry.outputNotify = e.outputNotify → ∀ c ∈ page.response.chunks, c.seq ≤ cursor.getD 0
  nextSeq : page.entry.outputNotify = e.outputNotify → ∀ c ∈ page.response.chunks, c.seq < e.nextSeq

/-- `e'` is the entry `e` later on, or that of a later process. -/
def Since (e e' : RunningProcess) : Prop :=
  e.outputNotify ≤ e'.outputNotify ∧ (e.outputNotify = e'.outputNotify → e.nextSeq ≤ e'.nextSeq)

theorem Since.trans {e₁ e₂ e₃ : RunningProcess} (h : Since e₁ e₂) (h' : Since e₂ e₃) : Since e₁ e₃ := by
  refine ⟨Nat.le_trans h.1 h'.1, fun heq => ?_⟩
  have hle := h.1
  have hle' := h'.1
  exact Nat.le_trans (h.2 (by omega)) (h'.2 (by omega))

theorem Grows.since (h : Grows e e') : Since e e' := ⟨Nat.le_of_eq h.notify.symm, fun _ => h.nextSeq⟩

theorem since_new {n : ℕ} (h : e.outputNotify < n) : Since e (.new n) :=
  ⟨Nat.le_of_lt h, fun heq => absurd heq (Nat.ne_of_lt h)⟩

theorem Behind.since {cursor : Option ℕ} {page : Page} (h : Behind cursor e page) (hs : Since e e') :
    Behind cursor e' page := by
  have hle := h.notify
  have hle' := hs.1
  refine ⟨by omega, fun heq => h.cursor (by omega), fun heq c hc => ?_⟩
  exact Nat.lt_of_lt_of_le (h.nextSeq (by omega) c hc) (hs.2 (by omega))

/-- Every chunk of the page has a lower seq than every chunk of a later page of the same process. -/
def Before (page page' : Page) : Prop :=
  page.entry.outputNotify = page'.entry.outputNotify →
    ∀ c ∈ page.response.chunks, ∀ d ∈ page'.response.chunks, c.seq < d.seq

/-- The cursor that the client went on with after its page `i`. -/
def PageClient.cursorAfter (client : PageClient) (i : ℕ) : Option ℕ :=
  (client.pages[i + 1]?.map (·.afterSeq)).getD client.afterSeq

/-- What a page has left out of its entry is beyond the next cursor. -/
def NoneSkipped (client : PageClient) : Prop :=
  ∀ (i : ℕ) (page : Page), client.pages[i]? = some page → ∀ c ∈ page.entry.output, page.afterSeq.getD 0 < c.seq →
    c ∉ page.response.chunks → (client.cursorAfter i).getD 0 < c.seq

structure PageOk (page : Page) : Prop where
  ascending : Ascending page.entry
  answers : ∃ params : ReadParams, params.afterSeq = page.afterSeq ∧ page.response = readResponse params page.entry

structure PagingInv (s : Paging) : Prop where
  entries : ∀ id e, s.agent.processes id = some (.running e) → Ascending e ∧ e.outputNotify < s.agent.procs.length
  table : ∀ e, s.agent.processes s.client.processId = some (.running e) →
    ∀ page ∈ s.client.pages, Behind s.client.afterSeq e page
  reading : ∀ k, s.client.reading = some k → ∃ r, s.agent.readers[k]? = some r ∧
    r.params.processId = s.client.processId ∧ r.params.afterSeq = s.client.afterSeq ∧ r.foundIn s.client.looked
  looked : ∀ e, s.client.looked = some e → s.client.reading.isSome = true →
    Ascending e ∧ e.outputNotify < s.agent.procs.length ∧
      (∀ page ∈ s.client.pages, Behind s.client.afterSeq e page) ∧
      ∀ e', s.agent.processes s.client.processId = some (.running e') → Since e e'
  pages : ∀ page ∈ s.client.pages, PageOk page ∧ page.entry.outputNotify < s.agent.procs.length
  order : s.client.pages.Pairwise Before
  skipped : NoneSkipped s.client

theorem pagingInv_init (processId : ProcessId) (afterSeq : Option ℕ) :
    PagingInv ⟨init, .new processId afterSeq⟩ where
  entries := fun _ _ he => by cases he
  table := fun _ he => by cases he
  reading := fun _ hk => by cases hk
  looked := fun _ he => by cases he
  pages := fun _ hp => by cases hp
  order := List.Pairwise.nil
  skipped := fun _ _ hi => by cases hi

theorem entries_kept {a : Act} (hs : step s a = some s')
    (h : ∀ id e, s.processes id = some (.running e) → Ascending e ∧ e.outputNotify < s.procs.length) :
    ∀ id e, s'.processes id = some (.running e) → Ascending e ∧ e.outputNotify < s'.procs.length := by
  intro id e' he'
  rcases entry_step hs he' with ⟨e, he, hgrows⟩ | ⟨rfl, hlen⟩
  · obtain ⟨hascending, hlt⟩ := h id e he
    refine ⟨hgrows.ascending hascending, ?_⟩
    rw [hgrows.notify]
    exact Nat.lt_of_lt_of_le hlt (procs_length_step hs)
  · refine ⟨ascending_new _, ?_⟩
    rw [hlen]
    exact Nat.lt_succ_self _

theorem since_step {a : Act} {id : ProcessId} (hs : step s a = some s') (hlt : e.outputNotify < s.procs.length)
    (h : ∀ e', s.processes id = some (.running e') → Since e e') :
    ∀ e', s'.processes id = some (.running e') → Since e e' := by
  intro e' he'
  rcases entry_step hs he' with ⟨e₁, he₁, hgrows⟩ | ⟨rfl, -⟩
  · exact (h e₁ he₁).trans hgrows.since
  · exact since_new hlt

theorem behind_step {a : Act} {id : ProcessId} {cursor : Option ℕ} {page : Page} (hs : step s a = some s')
    (hlt : page.entry.outputNotify < s.procs.length)
    (h : ∀ e, s.processes id = some (.running e) → Behind cursor e page) :
    ∀ e, s'.processes id = some (.running e) → Behind cursor e page := by
  intro e' he'
  rcases entry_step hs he' with ⟨e, he, hgrows⟩ | ⟨rfl, -⟩
  · exact (h e he).since hgrows.since
  · exact ⟨Nat.le_of_lt hlt, fun heq => absurd heq (Nat.ne_of_lt hlt), fun heq => absurd heq (Nat.ne_of_lt hlt)⟩

/-- What the client's read has found it found before, or finds in this step. -/
theorem look_cases {client : PageClient} {a : Act} (h : (client.look s a).looked = some e) :
    client.looked = some e ∨ ∃ k r, a = .reader k ∧ client.reading = some k ∧ s.readers[k]? = some r ∧
      s.processes r.params.processId = some (.running e) := by
  unfold PageClient.look at h
  split at h
  · rename_i k
    split_ifs at h with hk
    · dsimp only at h
      rcases Option.or_eq_some_iff.mp h with hfound | ⟨-, hold⟩
      · obtain ⟨r, hr, hfound⟩ := Option.bind_eq_some_iff.mp hfound
        unfold State.found at hfound
        split at hfound
        · rename_i e₁ _ he
          cases hfound
          exact Or.inr ⟨k, r, rfl, hk, hr, he⟩
        · cases hfound
      · exact Or.inl hold
    · exact Or.inl h
  · exact Or.inl h

theorem look_same (client : PageClient) (s : State) (a : Act) :
    (client.look s a).processId = client.processId ∧ (client.look s a).afterSeq = client.afterSeq ∧
      (client.look s a).reading = client.reading ∧ (client.look s a).pages = client.pages := by
  unfold PageClient.look
  split
  · split_ifs <;> exact ⟨rfl, rfl, rfl, rfl⟩
  · exact ⟨rfl, rfl, rfl, rfl⟩

/-- The agent goes on. -/
theorem pagingInv_agent {client : PageClient} {a : Act} (h : PagingInv ⟨s, client⟩) (hs : step s a = some s') :
    PagingInv ⟨s', client.look s a⟩ := by
  obtain ⟨hid, hafter, hreading, hpages⟩ := look_same client s a
  refine ⟨entries_kept hs h.entries, fun e he page hp => ?_, fun k hk => ?_, fun e he hsome => ?_, fun page hp => ?_,
    ?_, ?_⟩
  · dsimp only at he hp ⊢
    rw [hid] at he
    rw [hpages] at hp
    rw [hafter]
    exact behind_step hs (h.pages page hp).2 (fun e he => h.table e he page hp) e he
  · dsimp only at hk ⊢
    rw [hreading] at hk
    obtain ⟨r, hr, hrid, hrafter, hfound⟩ := h.reading k hk
    obtain ⟨r', hr', hparams, hfound'⟩ := reading_step hs hk hr hfound
    exact ⟨r', hr', by rw [hparams, hid, hrid], by rw [hparams, hafter, hrafter], hfound'⟩
  · dsimp only at he hsome ⊢
    rw [hreading] at hsome
    rw [hid, hafter, hpages]
    have hlen := procs_length_step hs
    rcases look_cases he with hold | ⟨k, r, rfl, hk, hr, hlook⟩
    · obtain ⟨hascending, hlt, hbehind, hsince⟩ := h.looked e hold hsome
      exact ⟨hascending, Nat.lt_of_lt_of_le hlt hlen, hbehind, since_step hs hlt hsince⟩
    · obtain ⟨r₀, hr₀, hrid, -, -⟩ := h.reading k hk
      obtain rfl := Option.some.inj (hr₀.symm.trans hr)
      obtain ⟨hascending, hlt⟩ := h.entries _ e hlook
      dsimp only at hrid
      rw [hrid] at hlook
      refine ⟨hascending, Nat.lt_of_lt_of_le hlt hlen, h.table e hlook, since_step hs hlt fun e' he' => ?_⟩
      rw [hlook] at he'
      cases he'
      exact (Grows.refl e).since
  · dsimp only at hp ⊢
    rw [hpages] at hp
    exact ⟨(h.pages page hp).1, Nat.lt_of_lt_of_le (h.pages page hp).2 (procs_length_step hs)⟩
  · dsimp only
    rw [hpages]
    exact h.order
  · have hskipped := h.skipped
    unfold NoneSkipped PageClient.cursorAfter at hskipped ⊢
    dsimp only at hskipped ⊢
    rw [hpages, hafter]
    exact hskipped

/-- A new read. -/
theorem pagingInv_ask {client : PageClient} {maxBytes waitMs : Option ℕ} (h : PagingInv ⟨s, client⟩)
    (hs : step s (.read ⟨client.processId, client.afterSeq, maxBytes, waitMs⟩) = some s') :
    PagingInv ⟨s', { client with reading := some s.readers.length, looked := none }⟩ := by
  cases hs
  refine ⟨h.entries, h.table, fun k hk => ?_, fun e he => ?_, h.pages, h.order, h.skipped⟩
  · cases hk
    refine ⟨_, List.getElem?_concat_length, rfl, rfl, ?_⟩
    cases hinit : requireInitializedFor "exec" s with
    | ok u => exact foundIn_of_unanswered (by simp) (by simp)
    | error err => exact foundIn_of_unanswered (by simp) (by simp)
  · cases he

/-- A page comes, and the client goes on with another cursor. -/
theorem NoneSkipped.page {client : PageClient} (h : NoneSkipped client) {response : ReadResponse} {cursor : Option ℕ}
    (hlast : ∀ c ∈ e.output, client.afterSeq.getD 0 < c.seq → c ∉ response.chunks → cursor.getD 0 < c.seq) :
    NoneSkipped { client with
      afterSeq := cursor
      reading := none
      pages := client.pages ++ [⟨client.afterSeq, e, response⟩] } := by
  intro i page hi c hc hafter hout
  have hlen : i + 1 ≤ client.pages.length + 1 := by
    have hlt := (List.getElem?_eq_some_iff.mp hi).1
    rw [List.length_append] at hlt
    exact hlt
  unfold PageClient.cursorAfter
  dsimp only at hi ⊢
  rw [Lists.getElem?_concat] at hi ⊢
  split_ifs at hi with hnew
  · cases hi
    rw [if_neg (by omega), List.getElem?_eq_none (by omega)]
    exact hlast c hc hafter hout
  -- an older page: its next cursor is that of the page after it, if it is not the client's own
  · have hold := h i page hi c hc hafter hout
    unfold PageClient.cursorAfter at hold
    split_ifs with hnext
    · rw [List.getElem?_eq_none (Nat.le_of_eq hnext.symm)] at hold
      exact hold
    · have hlt : i + 1 < client.pages.length := by omega
      rw [List.getElem?_eq_getElem hlt] at hold ⊢
      exact hold

/-- The answer comes. -/
theorem pagingInv_page {client : PageClient} {k : ℕ} {response : ReadResponse} (h : PagingInv ⟨s, client⟩)
    (hk : client.reading = some k) (hr : s.readers[k]? = some r) (hphase : r.phase = .returned (.inl response))
    (he : client.looked = some e) (byNextSeq : Bool) :
    PagingInv ⟨s, { client with
      afterSeq := client.next response byNextSeq
      reading := none
      pages := client.pages ++ [⟨client.afterSeq, e, response⟩] }⟩ := by
  obtain ⟨r₀, hr₀, -, hparams, hfound⟩ := h.reading k hk
  obtain rfl := Option.some.inj (hr₀.symm.trans hr)
  obtain ⟨hascending, hlt, hbehind, hsince⟩ := h.looked e he (by rw [hk]; rfl)
  obtain ⟨e₀, he₀, hresponse⟩ := hfound response (Or.inr hphase)
  obtain rfl := Option.some.inj (he₀.symm.trans he)
  subst hresponse
  obtain ⟨hcursor, hraise⟩ := next_spec hascending client hparams byNextSeq
  refine ⟨h.entries, fun e' he' page hp => ?_, fun k hk => (by cases hk), fun _ _ hsome => (by cases hsome),
    fun page hp => ?_, List.pairwise_append.mpr ⟨h.order, List.pairwise_singleton _ _,
      fun page hp page' hp' heq c hc d hd => ?_⟩,
    h.skipped.page fun c hc hafter hout => ?_⟩
  · dsimp only at he' hp ⊢
    have hs := hsince e' he'
    rcases List.mem_append.mp hp with hold | hnew
    · have hb := hbehind page hold
      refine ⟨(hb.since hs).notify, fun heq c hc => ?_, (hb.since hs).nextSeq⟩
      have hle := hb.notify
      have hle' := hs.1
      exact hraise c.seq (hb.cursor (by omega) c hc) (hb.nextSeq (by omega) c hc)
    · obtain rfl := List.mem_singleton.mp hnew
      refine ⟨hs.1, fun _ c hc => hcursor c hc, fun heq c hc => ?_⟩
      exact Nat.lt_of_lt_of_le (hascending.below c (mem_page hc).1) (hs.2 heq)
  · rcases List.mem_append.mp hp with hold | hnew
    · exact h.pages page hold
    · obtain rfl := List.mem_singleton.mp hnew
      exact ⟨⟨hascending, _, hparams, rfl⟩, hlt⟩
  · obtain rfl := List.mem_singleton.mp hp'
    have hle := (hbehind page hp).cursor heq c hc
    have hafter := (mem_page hd).2
    rw [hparams] at hafter
    exact Nat.lt_of_le_of_lt hle hafter
  · rw [← hparams] at hafter
    exact next_left_out hascending byNextSeq hc hafter hout

theorem pagingInv_step {s s' : Paging} {a : PageAct} (h : PagingInv s) (hs : pageStep s a = some s') : PagingInv s' := by
  cases a with
  | agent a =>
    obtain ⟨agent, hagent, rfl⟩ := Option.map_eq_some_iff.mp hs
    exact pagingInv_agent h hagent
  | ask maxBytes waitMs =>
    simp only [pageStep] at hs
    split_ifs at hs
    obtain ⟨agent, hagent, rfl⟩ := Option.map_eq_some_iff.mp hs
    exact pagingInv_ask h hagent
  | answer byNextSeq =>
    obtain ⟨k, hk, hs⟩ := Option.bind_eq_some_iff.mp hs
    obtain ⟨r, hr, hs⟩ := Option.bind_eq_some_iff.mp hs
    split at hs
    · rename_i response e hphase he
      cases hs
      exact pagingInv_page h hk hr hphase he byNextSeq
    · cases hs
      exact ⟨h.entries, h.table, fun k hk => (by cases hk), fun _ _ hsome => (by cases hsome), h.pages, h.order,
        h.skipped⟩
    · cases hs

/-- An answer that has come is taken: the entry it was made from is known. -/
theorem answer_taken {s : Paging} {k : ℕ} {result : ReadResponse ⊕ ChannelError} (h : PagingInv s)
    (hk : s.client.reading = some k) (hr : s.agent.readers[k]? = some r) (hphase : r.phase = .returned result)
    (byNextSeq : Bool) : (pageStep s (.answer byNextSeq)).isSome = true := by
  simp only [pageStep, hk, Option.bind_some, hr, hphase]
  cases result with
  | inl response =>
    obtain ⟨r₀, hr₀, -, -, hfound⟩ := h.reading k hk
    obtain rfl := Option.some.inj (hr₀.symm.trans hr)
    obtain ⟨e, he, -⟩ := hfound response (Or.inr hphase)
    rw [he]
    rfl
  | inr err => rfl

/-- For every interleaving with the steps of the agent, whatever the limits of the reads are, and
whichever of the two cursors the client goes by each time: what it gets of a process comes in
strictly increasing seqs, each page is what it has to be for the entry that the read found, and what
a page leaves out is asked for by the next read. -/
theorem pages_in_order (processId : ProcessId) (afterSeq : Option ℕ) (acts : List PageAct) (s : Paging)
    (hrun : run pageStep ⟨init, .new processId afterSeq⟩ acts = some s) :
    (∀ notify, (s.client.received notify).Pairwise fun a b => a.seq < b.seq) ∧
      (∀ page ∈ s.client.pages,
        (∀ c ∈ page.response.chunks, c ∈ page.entry.output ∧ page.afterSeq.getD 0 < c.seq) ∧
        (∀ c ∈ page.entry.output, page.afterSeq.getD 0 < c.seq →
          c ∈ page.response.chunks ∨ ∀ d ∈ page.response.chunks, d.seq < c.seq) ∧
        ((∃ c ∈ page.entry.output, page.afterSeq.getD 0 < c.seq) → page.response.chunks ≠ [])) ∧
      NoneSkipped s.client := by
  have hinv : PagingInv s :=
    run_inv_all PagingInv (fun _ _ _ h hs => pagingInv_step h hs) (pagingInv_init processId afterSeq) hrun
  refine ⟨fun notify => ?_, fun page hp => ?_, hinv.skipped⟩
  · refine List.pairwise_flatMap.mpr ⟨fun page hp => ?_, ?_⟩
    · obtain ⟨⟨hascending, params, -, hresponse⟩, -⟩ := hinv.pages page (List.mem_filter.mp hp).1
      rw [hresponse]
      exact page_ordered hascending
    · refine List.Pairwise.imp_of_mem (fun {a b} ha hb hbefore => ?_) (hinv.order.filter _)
      have ha' : a.entry.outputNotify = notify := by simpa using (List.mem_filter.mp ha).2
      have hb' : b.entry.outputNotify = notify := by simpa using (List.mem_filter.mp hb).2
      exact hbefore (ha'.trans hb'.symm)
  · obtain ⟨⟨hascending, params, hparams, hresponse⟩, -⟩ := hinv.pages page hp
    rw [hresponse, ← hparams]
    refine ⟨fun c hc => mem_page hc, fun c hc hafter => ?_, fun ⟨c, hc, hafter⟩ hnil => ?_⟩
    · by_cases hin : c ∈ (readResponse params page.entry).chunks
      · exact Or.inl hin
      · exact Or.inr fun d hd => left_out_later hascending hc hafter hin hd
    · have hmem := (mem_wanted params page.entry).mpr ⟨hc, hafter⟩
      rw [(page_eq_nil_iff params page.entry).mp hnil] at hmem
      cases hmem

/-- Two chunks, read one at a time with `max_bytes` 0. -/
def pagedRun : List PageAct :=
  List.flatten [
    [.agent .initializeRequest, .agent .initialized, .agent (.start ⟨"job", ["sh"], false⟩), .agent (.spawned 0),
      .agent (.output 0 .stdout [104]), .agent (.output 0 .stdout [105])],
    List.replicate 7 (.agent (.task 0 (.out .stdout) true)),
    [.ask (some 0) none, .agent (.reader 0), .agent (.reader 0), .answer true,
      .ask (some 0) none, .agent (.reader 1), .agent (.reader 1), .answer false]]

theorem in_order_in_pagedRun :
    ∃ s, run pageStep ⟨init, .new "job" none⟩ pagedRun = some s ∧
      s.client.received 0 = [⟨1, .stdout, [104]⟩, ⟨2, .stdout, [105]⟩] ∧
      (s.client.received 0).Pairwise fun a b => a.seq < b.seq := by
  obtain ⟨s, hs, hreceived⟩ : ∃ s, run pageStep ⟨init, .new "job" none⟩ pagedRun = some s ∧
      s.client.received 0 = [⟨1, .stdout, [104]⟩, ⟨2, .stdout, [105]⟩] := ⟨_, rfl, rfl⟩
  exact ⟨s, hs, hreceived, (pages_in_order "job" none pagedRun s hs).1 0⟩

end Nexal.LocalProcess
