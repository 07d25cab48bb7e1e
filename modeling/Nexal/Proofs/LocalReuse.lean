import Nexal.Lib.Lists
import Nexal.Sanity.LocalRead

/-! Tasks of an earlier process under the same id. They find the table's entry by the id alone, so
they leave a later process alone when they are over by the time it is entered. -/

namespace Nexal.LocalProcess

open Runs

def Act.process : Act → Option ℕ
  | .output i _ _ | .endOutput i _ | .exits i _ | .task i _ _ => some i
  | _ => none

/-- The step leaves the entries of other processes as they are. -/
def Isolated (s : State) (a : Act) : Prop :=
  ∀ i s' id e, a.process = some i → step s a = some s' → s.processes id = some (.running e) →
    e.outputNotify ≠ i → s'.processes id = some (.running e)

/-- An output task that will not lock the table again. -/
def OutPhase.settled : OutPhase → Bool
  | .closing (.notifying _) | .closing (.sending _) | .done => true
  | _ => false

def Proc.settled (p : Proc) : Bool :=
  p.stdout.phase.settled && p.stderr.phase.settled && decide (p.exit = .done)

/-- A process is entered only when the tasks of the earlier ones under its id are over. -/
def reusedLate (s : State) : Act → Bool
  | .spawned k => (s.spawning[k]?).all fun params =>
      s.procs.all fun q => q.id ≠ params.processId || q.settled
  | _ => true

variable {s s' : State} {p p' : Proc} {entry entry' : Option ProcessEntry} {side : Side} {ok : Bool}

theorem settled_out (h : p.settled = true) (side : Side) : (p.out side).phase.settled = true := by
  simp only [Proc.settled, Bool.and_eq_true] at h
  cases side with
  | stdout => exact h.1.1
  | stderr => exact h.1.2

theorem settled_exit (h : p.settled = true) : p.exit = .done := by
  simp only [Proc.settled, Bool.and_eq_true, decide_eq_true_eq] at h
  exact h.2

theorem settled_setOut (h : p.settled = true) {t : OutTask} (ht : t.phase.settled = true) :
    (p.setOut side t).settled = true := by
  simp only [Proc.settled, Bool.and_eq_true] at h ⊢
  cases side with
  | stdout => exact ⟨⟨ht, h.1.2⟩, h.2⟩
  | stderr => exact ⟨⟨h.1.1, ht⟩, h.2⟩

/-- What is over stays over and writes nothing more into the table. -/
theorem settled_procStep {t : TaskId} (h : p.settled = true) (hs : procStep entry p ok t = some (entry', p')) :
    entry' = entry ∧ p'.settled = true := by
  cases t with
  | exit =>
    have hexit := settled_exit h
    simp only [procStep, exitStep, hexit] at hs
    cases hs
  | out side =>
    have hout := settled_out h side
    simp only [procStep, outStep] at hs
    cases hphase : (p.out side).phase with
    | closing c =>
      simp only [hphase] at hs
      cases c with
      | check =>
        rw [hphase] at hout
        cases hout
      | notifying ev =>
        cases hs
        exact ⟨rfl, settled_setOut h rfl⟩
      | sending ev =>
        cases hs
        refine ⟨rfl, ?_⟩
        rw [setOut_send]
        exact settled_setOut h rfl
    | done =>
      simp only [hphase] at hs
      cases hs
    | receiving | locking _ | waking _ | notifying _ | sending _ | finishing =>
      rw [hphase] at hout
      cases hout

/-- The list of processes grows by a new one, or one of them goes on. -/
theorem procs_cases {a : Act} (hs : step s a = some s') :
    (∃ k params, a = .spawned k ∧ s.spawning[k]? = some params ∧
      s'.procs = s.procs ++ [.new params.processId params.tty] ∧
      s'.processes = Function.update s.processes params.processId (some (.running (.new s.procs.length)))) ∨
    (∃ (i : ℕ) (p p' : Proc), s.procs[i]? = some p ∧ s'.procs = s.procs.set i p' ∧ p'.id = p.id ∧
      (p.settled = true → p'.settled = true)) ∨
    s'.procs = s.procs := by
  cases a with
  | spawned k =>
    obtain ⟨params, hk, rfl⟩ := Option.map_eq_some_iff.mp hs
    exact Or.inl ⟨k, params, rfl, hk, rfl, rfl⟩
  | output i side chunk =>
    obtain ⟨p, hi, hs⟩ := Option.bind_eq_some_iff.mp hs
    dsimp only at hs
    split_ifs at hs
    cases hs
    exact Or.inr (Or.inl ⟨i, p, _, hi, rfl, setOut_id, fun h => settled_setOut h (settled_out h side)⟩)
  | endOutput i side =>
    obtain ⟨p, hi, rfl⟩ := Option.map_eq_some_iff.mp hs
    exact Or.inr (Or.inl ⟨i, p, _, hi, rfl, setOut_id, fun h => settled_setOut h (settled_out h side)⟩)
  | exits i code =>
    obtain ⟨p, hi, hs⟩ := Option.bind_eq_some_iff.mp hs
    split_ifs at hs with hwaiting
    cases hs
    refine Or.inr (Or.inl ⟨i, p, _, hi, rfl, rfl, fun h => ?_⟩)
    rw [settled_exit h] at hwaiting
    cases hwaiting
  | task i t ok =>
    obtain ⟨p, hi, hs⟩ := Option.bind_eq_some_iff.mp hs
    obtain ⟨⟨entry, p'⟩, hproc, rfl⟩ := Option.map_eq_some_iff.mp hs
    exact Or.inr (Or.inl ⟨i, p, p', hi, rfl, (procStep_effect hproc).id, fun h => (settled_procStep h hproc).2⟩)
  | start params =>
    simp only [step] at hs
    split at hs
    · rename_i hstart
      cases hs
      rw [startProcess_ok hstart]
      exact Or.inr (Or.inr rfl)
    · cases hs
      exact Or.inr (Or.inr rfl)
  | initialized =>
    cases hs
    split_ifs <;> exact Or.inr (Or.inr rfl)
  | reader k =>
    obtain ⟨r, -, hs⟩ := Option.bind_eq_some_iff.mp hs
    obtain ⟨r', -, rfl⟩ := Option.map_eq_some_iff.mp hs
    exact Or.inr (Or.inr rfl)
  | spawnFailed k =>
    obtain ⟨params, -, rfl⟩ := Option.map_eq_some_iff.mp hs
    exact Or.inr (Or.inr rfl)
  | elapse k =>
    obtain ⟨r, -, rfl⟩ := Option.map_eq_some_iff.mp hs
    exact Or.inr (Or.inr rfl)
  | initializeRequest | read params | shutdown =>
    cases hs
    exact Or.inr (Or.inr rfl)

/-- A started process keeps its place and its id, and once over it stays so. -/
theorem procs_step {a : Act} {j : ℕ} {q : Proc} (hs : step s a = some s') (hj : s.procs[j]? = some q) :
    ∃ q', s'.procs[j]? = some q' ∧ q'.id = q.id ∧ (q.settled = true → q'.settled = true) := by
  rcases procs_cases hs with ⟨k, params, -, -, hprocs, -⟩ | ⟨i, p, p', hi, hprocs, hid, hsettled⟩ | hprocs
  · refine ⟨q, ?_, rfl, id⟩
    rw [hprocs]
    exact Lists.getElem?_append_of_some hj _
  · by_cases hij : i = j
    · subst hij
      obtain rfl := Option.some.inj (hi.symm.trans hj)
      exact ⟨p', by rw [hprocs]; exact Lists.getElem?_set_self_of_some hi, hid, hsettled⟩
    · exact ⟨q, by rw [hprocs, List.getElem?_set_ne hij]; exact hj, rfl, id⟩
  · exact ⟨q, by rw [hprocs]; exact hj, rfl, id⟩

theorem procs_step_back {a : Act} {j : ℕ} {q' : Proc} (hs : step s a = some s') (hj : s'.procs[j]? = some q')
    (hlt : j < s.procs.length) : ∃ q, s.procs[j]? = some q ∧ q'.id = q.id ∧ (q.settled = true →
      q'.settled = true) := by
  obtain ⟨q, hq⟩ : ∃ q, s.procs[j]? = some q := ⟨_, List.getElem?_eq_getElem hlt⟩
  obtain ⟨r, hr, hid, hsettled⟩ := procs_step hs hq
  obtain rfl := Option.some.inj (hr.symm.trans hj)
  exact ⟨q, hq, hid, hsettled⟩

/-- The entry of a process is its own, and whoever else had its id is over. -/
structure ReuseInv (s : State) : Prop where
  owner : ∀ id e, s.processes id = some (.running e) → ∃ p, s.procs[e.outputNotify]? = some p ∧ p.id = id
  others : ∀ id e, s.processes id = some (.running e) → ∀ j q, s.procs[j]? = some q → q.id = id →
    j ≠ e.outputNotify → q.settled = true

theorem reuseInv_init : ReuseInv init where
  owner := fun _ _ he => by cases he
  others := fun _ _ he => by cases he

theorem Effect.outputNotify (h : Effect entry p entry' p') {e' : RunningProcess} (he' : entry' = some (.running e')) :
    ∃ e, entry = some (.running e) ∧ e'.outputNotify = e.outputNotify := by
  obtain ⟨e, he, hgrows⟩ := h.grows he'
  exact ⟨e, he, hgrows.notify⟩

theorem reuseInv_spawned {k : ℕ} {params : ExecParams} (h : ReuseInv s) (horder : reusedLate s (.spawned k) = true)
    (hk : s.spawning[k]? = some params) (hprocs : s'.procs = s.procs ++ [.new params.processId params.tty])
    (hentries : s'.processes =
      Function.update s.processes params.processId (some (.running (.new s.procs.length)))) : ReuseInv s' := by
  have hover : ∀ q ∈ s.procs, q.id = params.processId → q.settled = true := by
    simp only [reusedLate, hk, Option.all_some, List.all_eq_true] at horder
    intro q hq hid
    have hor := horder q hq
    simpa [hid] using hor
  have hold {j : ℕ} (hlt : j < s.procs.length) : s'.procs[j]? = s.procs[j]? := by
    rw [hprocs, List.getElem?_append_left hlt]
  refine ⟨fun id e he => ?_, fun id e he j q hj hid hne => ?_⟩
  · rw [hentries] at he
    by_cases heq : id = params.processId
    · subst heq
      rw [Function.update_self] at he
      cases he
      exact ⟨_, by rw [hprocs]; exact List.getElem?_concat_length, rfl⟩
    · rw [Function.update_of_ne heq] at he
      obtain ⟨p, hp, hpid⟩ := h.owner id e he
      exact ⟨p, (hold (List.getElem?_eq_some_iff.mp hp).1).trans hp, hpid⟩
  · rw [hentries] at he
    by_cases heq : id = params.processId
    · subst heq
      rw [Function.update_self] at he
      cases he
      have hlen := (List.getElem?_eq_some_iff.mp hj).1
      rw [hprocs, List.length_append, List.length_singleton] at hlen
      have hne' : j ≠ s.procs.length := hne
      rw [hold (by omega)] at hj
      exact hover q (List.mem_of_getElem? hj) hid
    · rw [Function.update_of_ne heq] at he
      have hlt : j < s.procs.length := by
        by_contra hge
        have hlen := (List.getElem?_eq_some_iff.mp hj).1
        rw [hprocs, List.length_append, List.length_singleton] at hlen
        obtain rfl : j = s.procs.length := by omega
        rw [hprocs, List.getElem?_concat_length] at hj
        obtain rfl := Option.some.inj hj
        exact heq hid.symm
      rw [hold hlt] at hj
      exact h.others id e he j q hj hid hne

/-- Unless a process is entered, every entry was there before and belongs to the same process. -/
theorem entries_step {a : Act} (hs : step s a = some s') (hlen : s'.procs.length = s.procs.length) {id : ProcessId}
    {e' : RunningProcess} (he' : s'.processes id = some (.running e')) :
    ∃ e, s.processes id = some (.running e) ∧ e'.outputNotify = e.outputNotify := by
  rcases entry_step hs he' with ⟨e, he, hgrows⟩ | ⟨-, hgrown⟩
  · exact ⟨e, he, hgrows.notify⟩
  · omega

theorem reuseInv_step {a : Act} (h : ReuseInv s) (horder : reusedLate s a = true) (hs : step s a = some s') :
    ReuseInv s' := by
  have hkeep (hlen : s'.procs.length = s.procs.length) : ReuseInv s' := by
    refine ⟨fun id e' he' => ?_, fun id e' he' j q' hj hid hne => ?_⟩
    · obtain ⟨e, he, hnotify⟩ := entries_step hs hlen he'
      obtain ⟨p, hp, hpid⟩ := h.owner id e he
      obtain ⟨p', hp', hid, -⟩ := procs_step hs hp
      exact ⟨p', hnotify ▸ hp', hid.trans hpid⟩
    · obtain ⟨e, he, hnotify⟩ := entries_step hs hlen he'
      obtain ⟨q, hq, hqid, hsettled⟩ := procs_step_back hs hj (hlen ▸ (List.getElem?_eq_some_iff.mp hj).1)
      exact hsettled (h.others id e he j q hq (hqid.symm.trans hid) (hnotify ▸ hne))
  rcases procs_cases hs with ⟨k, params, rfl, hk, hprocs, hentries⟩ | ⟨i, p, p', hi, hprocs, -, -⟩ | hprocs
  · exact reuseInv_spawned h horder hk hprocs hentries
  · exact hkeep (by rw [hprocs, List.length_set])
  · exact hkeep (by rw [hprocs])

theorem isolated_of_reuseInv (h : ReuseInv s) (a : Act) : Isolated s a := by
  intro i s' id e ha hs he hne
  cases a with
  | output j side chunk =>
    obtain ⟨p, hi, hs⟩ := Option.bind_eq_some_iff.mp hs
    dsimp only at hs
    split_ifs at hs
    cases hs
    exact he
  | endOutput j side =>
    obtain ⟨p, hi, rfl⟩ := Option.map_eq_some_iff.mp hs
    exact he
  | exits j code =>
    obtain ⟨p, hi, hs⟩ := Option.bind_eq_some_iff.mp hs
    split_ifs at hs
    cases hs
    exact he
  | task j t ok =>
    obtain rfl : j = i := Option.some.inj ha
    obtain ⟨p, hi, hs⟩ := Option.bind_eq_some_iff.mp hs
    obtain ⟨⟨entry, p'⟩, hproc, rfl⟩ := Option.map_eq_some_iff.mp hs
    dsimp only
    by_cases hid : id = p.id
    · subst hid
      have hover := h.others p.id e he j p hi rfl (Ne.symm hne)
      rw [Function.update_self, (settled_procStep hover hproc).1]
      exact he
    · rw [Function.update_of_ne hid]
      exact he
  | _ => cases ha

/-- In every run in which a process is entered under a used id only when the earlier processes
of that id are over, output, stream ends and exits of one process leave the entries of the
others as they are. -/
theorem isolated_when_reused_late (acts : List Act) (s : State)
    (horder : RunOk step (fun s a => reusedLate s a = true) init acts) (hrun : run step init acts = some s) (a : Act) :
    Isolated s a := by
  have hinv : ReuseInv s :=
    run_inv ReuseInv (fun _ _ _ h ho hs => reuseInv_step h ho hs) reuseInv_init horder hrun
  exact isolated_of_reuseInv hinv a

/-- A process exits, its entry is removed after the retention time, and its id is used again; something else has held
its standard output until the removal, which aborts the reader. -/
def reusedRun : List Act :=
  List.flatten [
    [.initializeRequest, .initialized, .start ⟨"job", ["sh"], false⟩, .spawned 0, .exits 0 0],
    List.replicate 6 (.task 0 .exit true),
    [.start ⟨"job", ["sh"], false⟩, .spawned 0]]

/-- The same, with both streams at their end before the exit. -/
def reusedLateRun : List Act :=
  List.flatten [
    [.initializeRequest, .initialized, .start ⟨"job", ["sh"], false⟩, .spawned 0, .endOutput 0 .stdout,
      .endOutput 0 .stderr],
    List.replicate 3 (.task 0 (.out .stdout) true),
    List.replicate 3 (.task 0 (.out .stderr) true),
    [.exits 0 0],
    List.replicate 8 (.task 0 .exit true),
    [.start ⟨"job", ["sh"], false⟩, .spawned 0]]

theorem isolated_in_reusedLateRun :
    ∃ s, run step init reusedLateRun = some s ∧ s.processes "job" = some (.running (.new 1)) ∧
      ∀ a, Isolated s a := by
  obtain ⟨s, hs, hentry⟩ : ∃ s, run step init reusedLateRun = some s ∧
      s.processes "job" = some (.running (.new 1)) := ⟨_, rfl, rfl⟩
  have horder : RunOk step (fun s a => reusedLate s a = true) init reusedLateRun := by decide
  exact ⟨s, hs, hentry, isolated_when_reused_late reusedLateRun s horder hs⟩

/-- The old output task comes to the end of its stream and counts it in the entry of the new process, both of whose
streams are open. -/
theorem old_end_in_new_entry :
    ∃ s s' e, run step init (reusedRun ++ [.endOutput 0 .stdout, .task 0 (.out .stdout) true]) = some s ∧
      step s (.task 0 (.out .stdout) true) = some s' ∧
      s.processes "job" = some (.running (.new 1)) ∧ s'.processes "job" = some (.running e) ∧
      e.openStreams = 1 ∧ ¬ Isolated s (.task 0 (.out .stdout) true) := by
  obtain ⟨s, s', e, hs, hs', hentry, hentry', hopen⟩ : ∃ s s' e,
      run step init (reusedRun ++ [.endOutput 0 .stdout, .task 0 (.out .stdout) true]) = some s ∧
      step s (.task 0 (.out .stdout) true) = some s' ∧ s.processes "job" = some (.running (.new 1)) ∧
      s'.processes "job" = some (.running e) ∧ e.openStreams = 1 := ⟨_, _, _, rfl, rfl, rfl, rfl, rfl⟩
  refine ⟨s, s', e, hs, hs', hentry, hentry', hopen, fun hisolated => ?_⟩
  have hsame := hisolated 0 s' "job" (.new 1) rfl hs' hentry (by decide)
  rw [hentry'] at hsame
  cases hsame
  cases hopen

end Nexal.LocalProcess
