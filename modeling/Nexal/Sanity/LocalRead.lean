import Nexal.Sanity.LocalProcess

/-! The page that a read takes from an entry, and what steps keep of an entry for reads. -/

namespace Nexal.LocalProcess

/-- The loop takes the chunks from the front on, at least one where there is one. -/
theorem readLoop_spec (maxBytes : ℕ) (retained chunks : List RetainedOutputChunk) (total nextSeq : ℕ) :
    ∃ page, page <+: retained ∧ (readLoop maxBytes retained chunks total nextSeq).1 = chunks ++ page ∧
      (readLoop maxBytes retained chunks total nextSeq).2 = (page.getLast?.map (·.seq + 1)).getD nextSeq ∧
      (chunks = [] → retained ≠ [] → page ≠ []) := by
  induction retained generalizing chunks total nextSeq with
  | nil => exact ⟨[], List.prefix_refl _, (List.append_nil _).symm, rfl, fun _ h => absurd rfl h⟩
  | cons c rest ih =>
    unfold readLoop
    split_ifs with hover hfull
    · exact ⟨[], List.nil_prefix, (List.append_nil _).symm, rfl, fun h => absurd h hover.1⟩
    · exact ⟨[c], List.prefix_append [c] rest, rfl, rfl, fun _ _ => List.cons_ne_nil c []⟩
    · obtain ⟨page, hprefix, hchunks, hnext, -⟩ := ih (chunks ++ [c]) (total + c.chunk.length) (c.seq + 1)
      refine ⟨c :: page, List.cons_prefix_cons.mpr ⟨rfl, hprefix⟩, ?_, ?_, fun _ _ => List.cons_ne_nil c page⟩
      · rw [hchunks, List.append_assoc, List.singleton_append]
      · rw [hnext]
        cases page with
        | nil => rfl
        | cons d page => simp only [List.getLast?_cons, Option.map_some, Option.getD_some]

variable (params : ReadParams) (e : RunningProcess)

def wanted : List RetainedOutputChunk := e.output.filter (params.afterSeq.getD 0 < ·.seq)

theorem mem_wanted {c : RetainedOutputChunk} :
    c ∈ wanted params e ↔ c ∈ e.output ∧ params.afterSeq.getD 0 < c.seq := by
  simp [wanted]

theorem page_starts : (readResponse params e).chunks <+: wanted params e := by
  obtain ⟨page, hprefix, hchunks, -, -⟩ :=
    readLoop_spec (params.maxBytes.getD usizeMax) (wanted params e) [] 0 e.nextSeq
  have heq : (readResponse params e).chunks = page := hchunks
  rw [heq]
  exact hprefix

theorem page_eq_nil_iff : (readResponse params e).chunks = [] ↔ wanted params e = [] := by
  obtain ⟨page, hprefix, hchunks, -, hne⟩ :=
    readLoop_spec (params.maxBytes.getD usizeMax) (wanted params e) [] 0 e.nextSeq
  have heq : (readResponse params e).chunks = page := hchunks
  rw [heq]
  constructor
  · intro hnil
    by_contra hsome
    exact hne rfl hsome hnil
  · intro hnil
    rw [hnil] at hprefix
    exact List.prefix_nil.mp hprefix

theorem page_nextSeq : (readResponse params e).nextSeq =
    ((readResponse params e).chunks.getLast?.map (·.seq + 1)).getD e.nextSeq := by
  obtain ⟨page, -, hchunks, hnext, -⟩ :=
    readLoop_spec (params.maxBytes.getD usizeMax) (wanted params e) [] 0 e.nextSeq
  have heq : (readResponse params e).chunks = page := hchunks
  rw [heq]
  exact hnext

/-! Entries -/

/-- The retained chunks stand in the order of their seqs, which are all used up. -/
structure Ascending (e : RunningProcess) : Prop where
  ordered : e.output.Pairwise fun a b => a.seq < b.seq
  below : ∀ c ∈ e.output, c.seq < e.nextSeq

structure Grows (e e' : RunningProcess) : Prop where
  notify : e'.outputNotify = e.outputNotify
  nextSeq : e.nextSeq ≤ e'.nextSeq
  ascending : Ascending e → Ascending e'

variable {e' : RunningProcess} {e}

theorem Grows.refl (e : RunningProcess) : Grows e e := ⟨rfl, Nat.le_refl _, id⟩

theorem ascending_new (notify : ℕ) : Ascending (.new notify) :=
    ⟨List.Pairwise.nil, fun _ hc => absurd hc List.not_mem_nil⟩

/-- The output is as before. -/
theorem Grows.same (hnotify : e'.outputNotify = e.outputNotify) (houtput : e'.output = e.output)
    (hnext : e.nextSeq ≤ e'.nextSeq) : Grows e e' where
  notify := hnotify
  nextSeq := hnext
  ascending := fun h => ⟨houtput ▸ h.ordered, fun c hc => Nat.lt_of_lt_of_le (h.below c (houtput ▸ hc)) hnext⟩

theorem evict_suffix (output : List RetainedOutputChunk) (n : ℕ) : (evict output n).1 <:+ output := by
  induction output generalizing n with
  | nil => exact List.suffix_refl _
  | cons c output ih =>
    unfold evict
    split_ifs
    · exact (ih _).trans (List.suffix_cons c output)
    · exact List.suffix_refl _

theorem grows_append (id : ProcessId) (stream : ExecOutputStream) (chunk : Bytes) (e : RunningProcess) :
    Grows e (appendOutput id stream chunk e).1 := by
  have hsuffix : (appendOutput id stream chunk e).1.output <:+ e.output ++ [⟨e.nextSeq, stream, chunk⟩] :=
    evict_suffix _ _
  refine ⟨rfl, Nat.le_succ _, fun h => ⟨List.Pairwise.sublist hsuffix.sublist ?_, fun c hc => ?_⟩⟩
  · refine List.pairwise_append.mpr ⟨h.ordered, List.pairwise_singleton _ _, fun a ha b hb => ?_⟩
    rw [List.mem_singleton.mp hb]
    exact h.below a ha
  · rcases List.mem_append.mp (hsuffix.subset hc) with hold | hnew
    · exact Nat.lt_succ_of_lt (h.below c hold)
    · rw [List.mem_singleton.mp hnew]
      exact Nat.lt_succ_self _

theorem grows_finish (e : RunningProcess) : Grows e (finishOutputStream e) := by
  unfold finishOutputStream
  split_ifs
  · exact .same rfl rfl (Nat.le_refl _)
  · exact .refl e

theorem grows_closed {id : ProcessId} {ev : ProcessEvent} (h : maybeEmitClosed id e = some (e', ev)) : Grows e e' := by
  unfold maybeEmitClosed at h
  split_ifs at h
  cases h
  exact .same rfl rfl (Nat.le_succ _)

variable {entry entry' : Option ProcessEntry} {p p' : Proc} {s s' : State}

theorem Effect.grows (h : Effect entry p entry' p') (he' : entry' = some (.running e')) :
    ∃ e, entry = some (.running e) ∧ Grows e e' := by
  cases h with
  | quiet => exact ⟨e', he', .refl e'⟩
  | append =>
    cases he'
    exact ⟨_, rfl, grows_append _ _ _ _⟩
  | finish =>
    cases he'
    exact ⟨_, rfl, grows_finish _⟩
  | exit =>
    cases he'
    exact ⟨_, rfl, .same rfl rfl (Nat.le_succ _)⟩
  | close hclose =>
    cases he'
    exact ⟨_, rfl, grows_closed hclose⟩
  | remove => cases he'

/-- Every entry is that of a new process or comes from the entry before. -/
theorem entry_step {a : Act} (hs : step s a = some s') {id : ProcessId} (he' : s'.processes id = some (.running e')) :
    (∃ e, s.processes id = some (.running e) ∧ Grows e e') ∨
      (e' = .new s.procs.length ∧ s'.procs.length = s.procs.length + 1) := by
  cases step_table hs with
  | drops hprocs hentries => exact Or.inl ⟨e', hentries id e' he', .refl e'⟩
  | spawns params hprocs hentries =>
    rw [hentries] at he'
    by_cases hid : id = params.processId
    · subst hid
      rw [Function.update_self] at he'
      cases he'
      exact Or.inr ⟨rfl, by rw [hprocs, List.length_append, List.length_singleton]⟩
    · rw [Function.update_of_ne hid] at he'
      exact Or.inl ⟨e', he', .refl e'⟩
  | moves i p p' entry hi heffect hprocs hentries =>
    rw [hentries] at he'
    by_cases hid : id = p.id
    · subst hid
      rw [Function.update_self] at he'
      exact Or.inl (heffect.grows he')
    · rw [Function.update_of_ne hid] at he'
      exact Or.inl ⟨e', he', .refl e'⟩

theorem procs_length_step {a : Act} (hs : step s a = some s') : s.procs.length ≤ s'.procs.length := by
  cases step_table hs with
  | drops hprocs => exact Nat.le_of_eq (by rw [hprocs])
  | spawns params hprocs =>
    rw [hprocs, List.length_append]
    exact Nat.le_add_right _ _
  | moves i p p' entry hi heffect hprocs => exact Nat.le_of_eq (by rw [hprocs, List.length_set])

end Nexal.LocalProcess
