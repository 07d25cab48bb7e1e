import Nexal.Lib.Lists
import Nexal.Sanity.LocalRead

/-! The entry of a process, and the events it makes, as long as its id is not used again. -/

namespace Nexal.LocalProcess

open Runs

def outputBytes (output : List RetainedOutputChunk) : ℕ := (output.map (·.chunk.length)).sum

/-- Eviction keeps the byte count with the chunks. -/
theorem evict_bytes (output : List RetainedOutputChunk) {n : ℕ} (h : n = outputBytes output) :
    (evict output n).2 = outputBytes (evict output n).1 ∧ (evict output n).2 ≤ retainedOutputBytesPerProcess := by
  induction output generalizing n with
  | nil =>
    subst h
    exact ⟨rfl, Nat.zero_le _⟩
  | cons c output ih =>
    unfold evict
    split_ifs with hover
    · have hrest : n - c.chunk.length = outputBytes output := by
        rw [h]
        simp [outputBytes]
      exact ih hrest
    · exact ⟨h, Nat.not_lt.mp hover⟩

structure EventsOk (p : Proc) : Prop where
  ordered : p.issued.Pairwise fun a b => a.seq < b.seq
  closedLast : p.issued.Pairwise fun a _ => a.isClosed = false
  once : p.flight.Nodup
  made : ∀ ev ∈ p.flight, ev ∈ p.issued

structure EntryOk (e : RunningProcess) (p : Proc) : Prop where
  ordered : e.output.Pairwise fun a b => a.seq < b.seq
  below : ∀ c ∈ e.output, c.seq < e.nextSeq
  issuedBelow : ∀ ev ∈ p.issued, ev.seq < e.nextSeq
  made : ∀ c ∈ e.output, ProcessEvent.outputDelta p.id c.seq c.stream c.chunk ∈ p.issued
  bytes : e.retainedBytes = outputBytes e.output
  limit : e.retainedBytes ≤ retainedOutputBytesPerProcess
  streams : e.openStreams = p.openTasks
  closed : e.closed = true → e.exitCode.isSome = true ∧ e.openStreams = 0
  closedIssued : e.closed = true ↔ ∃ ev ∈ p.issued, ev.isClosed = true
  exit : e.exitCode.isSome = p.exit.recorded

def LocalInv (entry : Option ProcessEntry) (p : Proc) : Prop :=
  EventsOk p ∧ ∀ e, entry = some (.running e) → EntryOk e p

variable {p p' : Proc} {e : RunningProcess} {ev : ProcessEvent}

theorem EventsOk.quiet (h : EventsOk p) (hm : Makes [] p p') : EventsOk p' := by
  refine ⟨hm.issued_eq ▸ h.ordered, hm.issued_eq ▸ h.closedLast, Multiset.nodup_of_le hm.flight_le h.once,
    fun ev hev => ?_⟩
  rw [hm.issued_eq]
  exact h.made ev (Multiset.mem_of_le hm.flight_le hev)

/-- A new event, with a seq above all others and before the entry is closed. -/
theorem EventsOk.issue (h : EventsOk p) (hm : Makes [ev] p p') (hfresh : ∀ x ∈ p.issued, x.seq < ev.seq)
    (hopen : ∀ x ∈ p.issued, x.isClosed = false) : EventsOk p' := by
  have hflight : p'.flight ≤ ev ::ₘ p.flight := by
    have hle := hm.flight
    rwa [Multiset.coe_singleton, add_comm, Multiset.singleton_add] at hle
  have hnew : ev ∉ p.flight := fun hev => Nat.lt_irrefl _ (hfresh ev (h.made ev hev))
  refine ⟨?_, ?_, Multiset.nodup_of_le hflight (Multiset.nodup_cons.mpr ⟨hnew, h.once⟩), fun x hx => ?_⟩
  · rw [hm.issued]
    refine List.pairwise_append.mpr ⟨h.ordered, List.pairwise_singleton _ _, fun a ha b hb => ?_⟩
    rw [List.mem_singleton.mp hb]
    exact hfresh a ha
  · rw [hm.issued]
    exact List.pairwise_append.mpr ⟨h.closedLast, List.pairwise_singleton _ _, fun a ha _ _ => hopen a ha⟩
  · rw [hm.issued]
    rcases Multiset.mem_cons.mp (Multiset.mem_of_le hflight hx) with rfl | hx
    · exact List.mem_append_right _ List.mem_cons_self
    · exact List.mem_append_left _ (h.made x hx)

theorem EntryOk.open_issued (h : EntryOk e p) (hclosed : e.closed = false) :
    ∀ x ∈ p.issued, x.isClosed = false := by
  intro x hx
  by_contra hx'
  have hset : e.closed = true := h.closedIssued.mpr ⟨x, hx, by simpa using hx'⟩
  rw [hclosed] at hset
  cases hset

theorem EntryOk.open_of_running (h : EntryOk e p) (hrun : 0 < p.openTasks) : e.closed = false := by
  by_contra hclosed
  have hnone := (h.closed (by simpa using hclosed)).2
  rw [h.streams] at hnone
  omega

/-- No event is made; the entry counts the output tasks that are left. -/
theorem EntryOk.with_streams {n : ℕ} (h : EntryOk e p) (hm : Makes [] p p') (hn : n = p'.openTasks)
    (hclosed : e.closed = true → n = 0) (hexit : p'.exit.recorded = p.exit.recorded) :
    EntryOk { e with openStreams := n } p' := by
  refine ⟨h.ordered, h.below, ?_, ?_, h.bytes, h.limit, hn, fun hset => ⟨(h.closed hset).1, hclosed hset⟩, ?_, ?_⟩
  · rw [hm.issued_eq]
    exact h.issuedBelow
  · rw [hm.issued_eq, hm.id]
    exact h.made
  · rw [hm.issued_eq]
    exact h.closedIssued
  · rw [hexit]
    exact h.exit

theorem EntryOk.quiet (h : EntryOk e p) (hm : Makes [] p p') (hopen : p'.openTasks = p.openTasks)
    (hexit : p'.exit.recorded = p.exit.recorded) : EntryOk e p' :=
  h.with_streams hm (h.streams.trans hopen.symm) (fun hset => (h.closed hset).2) hexit

theorem entryOk_finish (h : EntryOk e p) (hm : Makes [] p p') (hopen : p'.openTasks + 1 = p.openTasks)
    (hexit : p'.exit.recorded = p.exit.recorded) : EntryOk (finishOutputStream e) p' := by
  have hstreams := h.streams
  have hclosed : e.closed = false := h.open_of_running (by omega)
  unfold finishOutputStream
  rw [if_pos (by omega)]
  refine h.with_streams hm (by omega) (fun hset => ?_) hexit
  rw [hclosed] at hset
  cases hset

theorem issuedBelow_issue (h : EntryOk e p) (hm : Makes [ev] p p') (hseq : ev.seq = e.nextSeq) :
    ∀ x ∈ p'.issued, x.seq < e.nextSeq + 1 := by
  intro x hx
  rw [hm.issued] at hx
  rcases List.mem_append.mp hx with hx | hx
  · exact Nat.lt_succ_of_lt (h.issuedBelow x hx)
  · rw [List.mem_singleton.mp hx, hseq]
    exact Nat.lt_succ_self _

theorem closedIssued_issue (hm : Makes [ev] p p') :
    (∃ x ∈ p'.issued, x.isClosed = true) ↔ (∃ x ∈ p.issued, x.isClosed = true) ∨ ev.isClosed = true := by
  simp [hm.issued, or_and_right, exists_or]

theorem entryOk_append {stream : ExecOutputStream} {chunk : Bytes} (h : EntryOk e p)
    (hm : Makes [(appendOutput p.id stream chunk e).2] p p') (hopen : p'.openTasks = p.openTasks)
    (hexit : p'.exit.recorded = p.exit.recorded) : EntryOk (appendOutput p.id stream chunk e).1 p' := by
  have hbytes : e.retainedBytes + chunk.length = outputBytes (e.output ++ [⟨e.nextSeq, stream, chunk⟩]) := by
    rw [h.bytes]
    simp [outputBytes]
  obtain ⟨hkept, hlimit⟩ := evict_bytes _ hbytes
  obtain ⟨hordered, hbelow⟩ := (grows_append p.id stream chunk e).ascending ⟨h.ordered, h.below⟩
  have hmem : ∀ c ∈ (appendOutput p.id stream chunk e).1.output, c ∈ e.output ∨
    c = ⟨e.nextSeq, stream, chunk⟩ := by
    intro c hc
    simpa using (evict_suffix _ _).subset hc
  refine ⟨hordered, hbelow, issuedBelow_issue h hm rfl, ?_, hkept, hlimit, ?_, h.closed, ?_, ?_⟩
  · intro c hc
    rw [hm.issued, hm.id]
    rcases hmem c hc with hc | rfl
    · exact List.mem_append_left _ (h.made c hc)
    · exact List.mem_append_right _ List.mem_cons_self
  · rw [hopen]
    exact h.streams
  · rw [closedIssued_issue hm, ← h.closedIssued]
    exact ⟨Or.inl, fun hor => hor.resolve_right Bool.false_ne_true⟩
  · rw [hexit]
    exact h.exit

/-- An event about the end of the process: no chunk and no stream changes. -/
theorem EntryOk.with_end {code : Option Int32} {b : Bool} (h : EntryOk e p) (hm : Makes [ev] p p')
    (hseq : ev.seq = e.nextSeq) (hopen : p'.openTasks = p.openTasks)
    (hclosed : b = true → code.isSome = true ∧ e.openStreams = 0)
    (hset : b = true ↔ e.closed = true ∨ ev.isClosed = true) (hexit : code.isSome = p'.exit.recorded) :
    EntryOk { e with nextSeq := e.nextSeq + 1, exitCode := code, closed := b } p' := by
  refine ⟨h.ordered, fun c hc => Nat.lt_succ_of_lt (h.below c hc), issuedBelow_issue h hm hseq, fun c hc => ?_,
    h.bytes, h.limit, ?_, hclosed, ?_, hexit⟩
  · rw [hm.issued, hm.id]
    exact List.mem_append_left _ (h.made c hc)
  · rw [hopen]
    exact h.streams
  · rw [closedIssued_issue hm, ← h.closedIssued]
    exact hset

theorem entryOk_exit {code : Int32} (h : EntryOk e p) (hm : Makes [(recordExit p.id code e).2] p p')
    (hopen : p'.openTasks = p.openTasks) (hafter : p'.exit.recorded = true) :
    EntryOk (recordExit p.id code e).1 p' :=
  h.with_end hm rfl hopen (fun hset => ⟨rfl, (h.closed hset).2⟩)
    ⟨Or.inl, fun hor => hor.resolve_right Bool.false_ne_true⟩ hafter.symm

theorem maybeEmitClosed_eq {id : ProcessId} {e' : RunningProcess} (h : maybeEmitClosed id e = some (e', ev)) :
    e.closed = false ∧ e.openStreams = 0 ∧ e.exitCode.isSome = true ∧
      e' = { e with closed := true, nextSeq := e.nextSeq + 1 } ∧ ev = .closed id e.nextSeq := by
  unfold maybeEmitClosed at h
  split_ifs at h with hstop
  simp only [not_or, Bool.not_eq_true, ne_eq, not_not] at hstop
  cases h
  exact ⟨hstop.1, hstop.2.1, Option.isSome_iff_ne_none.mpr hstop.2.2, rfl, rfl⟩

theorem entryOk_close {e' : RunningProcess} (h : EntryOk e p) (hclose : maybeEmitClosed p.id e = some (e', ev))
    (hm : Makes [ev] p p') (hopen : p'.openTasks = p.openTasks)
    (hexit : p'.exit.recorded = p.exit.recorded) : EntryOk e' p' := by
  obtain ⟨-, hnone, hcode, rfl, rfl⟩ := maybeEmitClosed_eq hclose
  exact h.with_end hm rfl hopen (fun _ => ⟨hcode, hnone⟩) ⟨fun _ => Or.inr rfl, fun _ => rfl⟩
    (h.exit.trans hexit.symm)

theorem localInv_effect {entry entry' : Option ProcessEntry} (h : LocalInv entry p)
    (heffect : Effect entry p entry' p') : LocalInv entry' p' := by
  obtain ⟨hev, hentry⟩ := h
  cases heffect with
  | quiet hm hopen hexit =>
    exact ⟨hev.quiet hm, fun e he => (hentry e he).quiet hm (hopen e he) (hexit e he)⟩
  | append hm hrun hopen hexit =>
    have he := hentry _ rfl
    refine ⟨hev.issue hm he.issuedBelow (he.open_issued (he.open_of_running hrun)), fun e' he' => ?_⟩
    cases he'
    exact entryOk_append he hm hopen hexit
  | finish hm hopen hexit =>
    refine ⟨hev.quiet hm, fun e' he' => ?_⟩
    cases he'
    exact entryOk_finish (hentry _ rfl) hm hopen hexit
  | @exit e p p' code hm hopen hbefore hafter =>
    have he := hentry _ rfl
    have hclosed : e.closed = false := by
      by_contra hset
      have hcode := (he.closed (by simpa using hset)).1
      rw [he.exit, hbefore] at hcode
      cases hcode
    refine ⟨hev.issue hm he.issuedBelow (he.open_issued hclosed), fun e' he' => ?_⟩
    cases he'
    exact entryOk_exit he hm hopen hafter
  | close hclose hm hopen hexit =>
    have he := hentry _ rfl
    obtain ⟨hclosed, -, -, -, hev'⟩ := maybeEmitClosed_eq hclose
    refine ⟨hev.issue hm (fun x hx => ?_) (he.open_issued hclosed), fun e' he' => ?_⟩
    · rw [hev']
      exact he.issuedBelow x hx
    · cases he'
      exact entryOk_close he hclose hm hopen hexit
  | remove hm => exact ⟨hev.quiet hm, fun e' he' => by cases he'⟩

/-! Runs -/

/-- Only the `i`-th process was started under `id`. -/
def NotReused (s : State) (i : ℕ) (id : ProcessId) : Prop :=
  ∀ (j : ℕ) (q : Proc), s.procs[j]? = some q → q.id = id → j = i

def EntryInv (s : State) : Prop :=
  ∀ (i : ℕ) (p : Proc), s.procs[i]? = some p → NotReused s i p.id → LocalInv (s.processes p.id) p

theorem localInv_new (id : ProcessId) (tty : Bool) (notify : ℕ) :
    LocalInv (some (.running (.new notify))) (.new id tty) := by
  refine ⟨⟨List.Pairwise.nil, List.Pairwise.nil, Multiset.nodup_zero, fun ev hev => ?_⟩, fun e he => ?_⟩
  · exact absurd hev (Multiset.notMem_zero ev)
  · cases he
    refine ⟨List.Pairwise.nil, ?_, ?_, ?_, rfl, Nat.zero_le _, rfl, fun hset => ?_, ?_, rfl⟩
    · exact fun c hc => absurd hc List.not_mem_nil
    · exact fun ev hev => absurd hev List.not_mem_nil
    · exact fun c hc => absurd hc List.not_mem_nil
    · cases hset
    · simp [RunningProcess.new, Proc.new]

variable {s s' : State}

theorem entryInv_spawns {params : ExecParams} (h : EntryInv s)
    (hprocs : s'.procs = s.procs ++ [.new params.processId params.tty])
    (hentries : s'.processes =
      Function.update s.processes params.processId (some (.running (.new s.procs.length)))) : EntryInv s' := by
  intro i p hi hid
  have hnew : s'.procs[s.procs.length]? = some (.new params.processId params.tty) := by simp [hprocs]
  by_cases hlt : i < s.procs.length
  · have hold : s.procs[i]? = some p := by rwa [hprocs, List.getElem?_append_left hlt] at hi
    -- the new process has another id, or `p`'s was used again
    have hne : p.id ≠ params.processId := by
      intro heq
      have hlast : s.procs.length = i := hid _ _ hnew heq.symm
      omega
    rw [hentries, Function.update_of_ne hne]
    refine h i p hold fun j q hj hq => hid j q ?_ hq
    rw [hprocs]
    exact Lists.getElem?_append_of_some hj _
  · have hlen : i < s'.procs.length := (List.getElem?_eq_some_iff.mp hi).1
    have heq : i = s.procs.length := by
      rw [hprocs, List.length_append, List.length_singleton] at hlen
      omega
    subst heq
    obtain rfl := Option.some.inj (hnew.symm.trans hi)
    rw [hentries, show (Proc.new params.processId params.tty).id = params.processId from rfl,
      Function.update_self]
    exact localInv_new _ _ _

theorem entryInv_moves {i : ℕ} {entry : Option ProcessEntry} (h : EntryInv s) (hi : s.procs[i]? = some p)
    (heffect : Effect (s.processes p.id) p entry p') (hprocs : s'.procs = s.procs.set i p')
    (hentries : s'.processes = Function.update s.processes p.id entry) : EntryInv s' := by
  have hid' : p'.id = p.id := heffect.id
  have hself : s'.procs[i]? = some p' := by
    rw [hprocs]
    exact Lists.getElem?_set_self_of_some hi
  intro j q hj hid
  -- before the step nobody else had the id either
  have hbefore : NotReused s j q.id := by
    intro k r hk hr
    by_cases hki : k = i
    · subst hki
      obtain rfl := Option.some.inj (hi.symm.trans hk)
      exact hid k p' hself (hid'.trans hr)
    · refine hid k r ?_ hr
      rw [hprocs, List.getElem?_set_ne (Ne.symm hki)]
      exact hk
  by_cases hji : j = i
  · subst hji
    obtain rfl := Option.some.inj (hself.symm.trans hj)
    rw [hid'] at hbefore
    rw [hentries, hid', Function.update_self]
    exact localInv_effect (h j p hi hbefore) heffect
  · have hne : q.id ≠ p.id := fun heq => hji (hid i p' hself (hid'.trans heq.symm)).symm
    rw [hprocs, List.getElem?_set_ne (Ne.symm hji)] at hj
    rw [hentries, Function.update_of_ne hne]
    exact h j q hj hbefore

theorem entryInv_step {a : Act} (h : EntryInv s) (hs : step s a = some s') : EntryInv s' := by
  cases step_table hs with
  | drops hprocs hentries =>
    intro i p hi hid
    have hold := h i p (hprocs ▸ hi) fun j q hj hq => hid j q (hprocs ▸ hj) hq
    exact ⟨hold.1, fun e he => hold.2 e (hentries _ e he)⟩
  | spawns params hprocs hentries => exact entryInv_spawns h hprocs hentries
  | moves i p p' entry hi heffect hprocs hentries => exact entryInv_moves h hi heffect hprocs hentries

theorem entryInv_run {acts : List Act} (hrun : run step init acts = some s) : EntryInv s :=
  run_inv_all EntryInv (fun _ _ _ h hs => entryInv_step h hs)
    (fun _ _ hi => by simp [init] at hi) hrun

def ClosedLast (events : List ProcessEvent) : Prop :=
  ∀ earlier ev later, events = earlier ++ ev :: later → ev.isClosed = true → later = []

theorem closedLast_of_pairwise {events : List ProcessEvent}
    (h : events.Pairwise fun a _ => a.isClosed = false) : ClosedLast events := by
  intro earlier ev later heq hclosed
  rw [heq] at h
  have htail := (List.pairwise_cons.mp (List.pairwise_append.mp h).2.1).1
  refine List.eq_nil_iff_forall_not_mem.mpr fun x hx => ?_
  rw [htail x hx] at hclosed
  cases hclosed

/-- Whatever the interleaving of its tasks, of reads and of other processes: a process whose id is
not used again makes no two events with one seq and none after its closed event, and its entry
accounts for its chunks, its bytes, its open streams and its end. -/
theorem entry_accounts (acts : List Act) (s : State) (hrun : run step init acts = some s) (i : ℕ) (p : Proc)
    (hp : s.procs[i]? = some p) (hid : NotReused s i p.id) :
    (p.issued.map (·.seq)).Nodup ∧ (p.broadcast.map (·.seq)).Nodup ∧ p.broadcast ⊆ p.issued ∧
    ClosedLast p.issued ∧
    ∀ e, s.processes p.id = some (.running e) →
      e.output.Pairwise (fun a b => a.seq < b.seq) ∧ (∀ c ∈ e.output, c.seq < e.nextSeq) ∧
      (∀ ev ∈ p.issued, ev.seq < e.nextSeq) ∧
      (∀ c ∈ e.output, ProcessEvent.outputDelta p.id c.seq c.stream c.chunk ∈ p.issued) ∧
      e.retainedBytes = (e.output.map (·.chunk.length)).sum ∧
      e.retainedBytes ≤ retainedOutputBytesPerProcess ∧
      e.openStreams = p.openTasks ∧
      (e.closed = true → e.exitCode.isSome = true ∧ e.openStreams = 0) ∧
      (e.closed = true ↔ ∃ ev ∈ p.issued, ev.isClosed = true) := by
  obtain ⟨hev, hentry⟩ := entryInv_run hrun i p hp hid
  have hseqs : (p.issued.map (·.seq)).Nodup :=
    List.Pairwise.map _ (fun a b hab => Nat.ne_of_lt hab) hev.ordered
  have hflight : (p.broadcast : Multiset ProcessEvent) ≤ p.flight := by
    unfold Proc.flight
    simp only [add_assoc]
    exact Multiset.le_add_right _ _
  have hmade : p.broadcast ⊆ p.issued := fun ev h => hev.made ev (Multiset.mem_of_le hflight h)
  have honce : p.broadcast.Nodup := Multiset.coe_nodup.mp (Multiset.nodup_of_le hflight hev.once)
  refine ⟨hseqs, ?_, hmade, closedLast_of_pairwise hev.closedLast, fun e he => ?_⟩
  · refine honce.map_on fun a ha b hb hab => ?_
    exact List.inj_on_of_nodup_map hseqs (hmade ha) (hmade hb) hab
  · obtain ⟨hordered, hbelow, hissued, hchunks, hbytes, hlimit, hstreams, hclosed, hset, -⟩ := hentry e he
    exact ⟨hordered, hbelow, hissued, hchunks, hbytes, hlimit, hstreams, hclosed, hset⟩

def echoId : ProcessId := "echo"

/-- A process writes two bytes to its standard output, ends both streams and exits. -/
def echoRun : List Act :=
  List.flatten [
    [.initializeRequest, .initialized, .start ⟨echoId, ["echo", "h"], false⟩, .spawned 0, .output 0 .stdout [104, 10]],
    List.replicate 5 (.task 0 (.out .stdout) true),
    [.endOutput 0 .stdout, .endOutput 0 .stderr, .exits 0 0],
    List.replicate 3 (.task 0 (.out .stdout) true),
    List.replicate 5 (.task 0 .exit true),
    List.replicate 5 (.task 0 (.out .stderr) true)]

theorem entry_accounts_echo :
    ∃ s p e, run step init echoRun = some s ∧ s.procs[0]? = some p ∧ s.processes p.id = some (.running e) ∧
      p.broadcast.map (·.seq) = [1, 2, 3] ∧ e.closed = true ∧ ClosedLast p.issued ∧
      e.retainedBytes = (e.output.map (·.chunk.length)).sum := by
  obtain ⟨s, p, e, hs, hprocs, hentry, hseqs, hset⟩ : ∃ s p e, run step init echoRun = some s ∧ s.procs = [p] ∧
      s.processes p.id = some (.running e) ∧ p.broadcast.map (·.seq) = [1, 2, 3] ∧ e.closed = true := by
    refine ⟨_, _, _, rfl, rfl, rfl, ?_, ?_⟩
    · rfl
    · rfl
  have hp : s.procs[0]? = some p := by rw [hprocs]; rfl
  have hid : NotReused s 0 p.id := by
    intro j q hj _
    have hlt := (List.getElem?_eq_some_iff.mp hj).1
    simpa [hprocs] using hlt
  obtain ⟨-, -, -, hlast, haccounts⟩ := entry_accounts echoRun s hs 0 p hp hid
  obtain ⟨-, -, -, -, hbytes, -⟩ := haccounts e hentry
  exact ⟨s, p, e, hs, hp, hentry, hseqs, hset, hlast, hbytes⟩

end Nexal.LocalProcess
