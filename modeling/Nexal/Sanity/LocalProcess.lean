import Mathlib.Algebra.Order.Group.Multiset
import Mathlib.Tactic.Abel
import Nexal.Spec.LocalProcess

/-! What one step of a task can do to its entry and to the events of its process. -/

namespace Nexal.LocalProcess

/-! Where an event of a process is after it was made -/

def Closing.held : Closing → Multiset ProcessEvent
  | .check => 0
  | .notifying ev | .sending ev => {ev}

def OutPhase.held : OutPhase → Multiset ProcessEvent
  | .waking ev | .notifying ev | .sending ev => {ev}
  | .closing c => c.held
  | _ => 0

def ExitPhase.held : ExitPhase → Multiset ProcessEvent
  | .waking _ (some ev) | .notifying _ (some ev) | .sending _ (some ev) => {ev}
  | .closing _ c => c.held
  | _ => 0

/-- The events that were broadcast or that a task still holds. -/
def Proc.flight (p : Proc) : Multiset ProcessEvent :=
  ↑p.broadcast + p.stdout.phase.held + p.stderr.phase.held + p.exit.held

def OutPhase.unfinished : OutPhase → Bool
  | .closing _ | .done => false
  | _ => true

def Proc.openTasks (p : Proc) : ℕ := p.stdout.phase.unfinished.toNat + p.stderr.phase.unfinished.toNat

/-- The exit watcher has been at the table. -/
def ExitPhase.recorded : ExitPhase → Bool
  | .waiting | .locking _ => false
  | _ => true

variable {p p' : Proc} {side : Side} {t : OutTask} {ev : ProcessEvent}

@[simp] theorem setOut_id : (p.setOut side t).id = p.id := by cases side <;> rfl

@[simp] theorem setOut_issued : (p.setOut side t).issued = p.issued := by cases side <;> rfl

@[simp] theorem setOut_exit : (p.setOut side t).exit = p.exit := by cases side <;> rfl

theorem setOut_issue : (p.issue ev).setOut side t = (p.setOut side t).issue ev := by cases side <;> rfl

theorem setOut_send : (p.send ev).setOut side t = (p.setOut side t).send ev := by cases side <;> rfl

@[simp] theorem send_flight : (p.send ev).flight = p.flight + {ev} := by
  simp only [Proc.flight, Proc.send, ← Multiset.coe_add, Multiset.coe_singleton]
  abel

theorem setOut_flight : (p.setOut side t).flight + (p.out side).phase.held = p.flight + t.phase.held := by
  cases side <;>
  · simp only [Proc.flight, Proc.setOut, Proc.out]
    abel

theorem setOut_openTasks :
    (p.setOut side t).openTasks + (p.out side).phase.unfinished.toNat =
      p.openTasks + t.phase.unfinished.toNat := by
  cases side <;>
  · simp only [Proc.openTasks, Proc.setOut, Proc.out]
    omega

/-! Steps of the tasks -/

structure Makes (evs : List ProcessEvent) (p p' : Proc) : Prop where
  id : p'.id = p.id
  issued : p'.issued = p.issued ++ evs
  flight : p'.flight ≤ p.flight + ↑evs

theorem Makes.issued_eq (hm : Makes [] p p') : p'.issued = p.issued := by rw [hm.issued, List.append_nil]

theorem Makes.flight_le (hm : Makes [] p p') : p'.flight ≤ p.flight := by simpa using hm.flight

inductive Effect : Option ProcessEntry → Proc → Option ProcessEntry → Proc → Prop where
  | quiet {entry : Option ProcessEntry} {p p' : Proc} (hm : Makes [] p p')
    (hopen : ∀ e, entry = some (.running e) → p'.openTasks = p.openTasks)
    (hexit : ∀ e, entry = some (.running e) → p'.exit.recorded = p.exit.recorded) :
    Effect entry p entry p'
  | append {e : RunningProcess} {p p' : Proc} {stream : ExecOutputStream} {chunk : Bytes}
    (hm : Makes [(appendOutput p.id stream chunk e).2] p p') (hrun : 0 < p.openTasks)
    (hopen : p'.openTasks = p.openTasks) (hexit : p'.exit.recorded = p.exit.recorded) :
    Effect (some (.running e)) p (some (.running (appendOutput p.id stream chunk e).1)) p'
  | finish {e : RunningProcess} {p p' : Proc} (hm : Makes [] p p') (hopen : p'.openTasks + 1 = p.openTasks)
    (hexit : p'.exit.recorded = p.exit.recorded) :
    Effect (some (.running e)) p (some (.running (finishOutputStream e))) p'
  | exit {e : RunningProcess} {p p' : Proc} {code : Int32} (hm : Makes [(recordExit p.id code e).2] p p')
    (hopen : p'.openTasks = p.openTasks) (hbefore : p.exit.recorded = false)
    (hafter : p'.exit.recorded = true) :
    Effect (some (.running e)) p (some (.running (recordExit p.id code e).1)) p'
  | close {e e' : RunningProcess} {p p' : Proc} {ev : ProcessEvent} (hclose : maybeEmitClosed p.id e = some (e', ev))
    (hm : Makes [ev] p p') (hopen : p'.openTasks = p.openTasks)
    (hexit : p'.exit.recorded = p.exit.recorded) :
    Effect (some (.running e)) p (some (.running e')) p'
  | remove {e : RunningProcess} {p p' : Proc} (hm : Makes [] p p') : Effect (some (.running e)) p none p'

/-- A task gave up `old` and took over `new`. -/
theorem Makes.of_held {evs : List ProcessEvent} (old new : Multiset ProcessEvent) (hid : p'.id = p.id)
    (hissued : p'.issued = p.issued ++ evs) (hsum : p'.flight + old = p.flight + new) (hle : new ≤ old + ↑evs) :
    Makes evs p p' := by
  refine ⟨hid, hissued, le_of_add_le_add_right (a := old) ?_⟩
  calc p'.flight + old = p.flight + new := hsum
    _ ≤ p.flight + (old + ↑evs) := add_le_add_right hle _
    _ = p.flight + ↑evs + old := by abel

theorem makes_setOut (h : t.phase.held ≤ (p.out side).phase.held) : Makes [] p (p.setOut side t) :=
  .of_held _ _ setOut_id (by simp) setOut_flight (by simpa using h)

theorem makes_setOut_issue (h : t.phase.held = {ev}) : Makes [ev] p ((p.setOut side t).issue ev) := by
  refine .of_held _ _ setOut_id (by simp [Proc.issue]) setOut_flight ?_
  rw [h]
  exact Multiset.le_add_left _ _

theorem makes_setOut_send (h : (p.out side).phase.held = {ev}) (ht : t.phase.held = 0) :
    Makes [] p ((p.setOut side t).send ev) := by
  refine .of_held {ev} {ev} setOut_id (by simp [Proc.send]) ?_ (by simp)
  have hsum : (p.setOut side t).flight + (p.out side).phase.held = p.flight + t.phase.held := setOut_flight
  rw [h, ht, add_zero] at hsum
  rw [send_flight, hsum]

theorem setOut_openTasks_eq (h : t.phase.unfinished = (p.out side).phase.unfinished) :
    (p.setOut side t).openTasks = p.openTasks := by
  have hsum : (p.setOut side t).openTasks + (p.out side).phase.unfinished.toNat =
    p.openTasks + t.phase.unfinished.toNat := setOut_openTasks
  rw [h] at hsum
  exact Nat.add_right_cancel hsum

theorem openTasks_pos (h : (p.out side).phase.unfinished = true) : 0 < p.openTasks := by
  cases side <;>
  · simp only [Proc.out] at h
    simp only [Proc.openTasks, h, Bool.toNat_true]
    omega

theorem quiet_setOut {entry : Option ProcessEntry} (hheld : t.phase.held ≤ (p.out side).phase.held)
    (hopen : ∀ e, entry = some (.running e) → t.phase.unfinished = (p.out side).phase.unfinished) :
    Effect entry p entry (p.setOut side t) :=
  .quiet (makes_setOut hheld) (fun e he => setOut_openTasks_eq (hopen e he)) fun _ _ => by rw [setOut_exit]

variable {entry entry' : Option ProcessEntry} {ok : Bool}

theorem closeStep_cases {c : Closing} {c' : Option Closing} (h : closeStep entry p c = (c', entry', p')) :
    (c'.elim 0 Closing.held ≤ c.held ∧ entry' = entry ∧ p' = p) ∨
    (∃ ev, c' = none ∧ c.held = {ev} ∧ entry' = entry ∧ p' = p.send ev) ∨
    (∃ e e' ev, c' = some (.notifying ev) ∧ maybeEmitClosed p.id e = some (e', ev) ∧
      entry = some (.running e) ∧ entry' = some (.running e') ∧ p' = p.issue ev) := by
  cases c with
  | check =>
    simp only [closeStep] at h
    split at h
    · split at h
      · rename_i e _ e' ev hclose
        cases h
        exact Or.inr (Or.inr ⟨e, e', ev, rfl, hclose, rfl, rfl, rfl⟩)
      · cases h
        exact Or.inl ⟨Multiset.zero_le _, rfl, rfl⟩
    · cases h
      exact Or.inl ⟨Multiset.zero_le _, rfl, rfl⟩
  | notifying ev =>
    cases h
    exact Or.inl ⟨le_rfl, rfl, rfl⟩
  | sending ev =>
    cases h
    exact Or.inr (Or.inl ⟨ev, rfl, rfl, rfl, rfl⟩)

theorem outStep_effect (h : outStep entry p side ok = some (entry', p')) : Effect entry p entry' p' := by
  unfold outStep at h
  dsimp only at h
  cases hphase : (p.out side).phase with
  | receiving =>
    simp only [hphase] at h
    split at h
    · cases h
      exact quiet_setOut (by simp [hphase, OutPhase.held]) fun _ _ => by rw [hphase]; rfl
    · split_ifs at h
      cases h
      exact quiet_setOut (by simp [hphase, OutPhase.held]) fun _ _ => by rw [hphase]; rfl
  | locking chunk =>
    simp only [hphase] at h
    split at h
    · cases h
      have hrun : (p.out side).phase.unfinished = true := by rw [hphase]; rfl
      exact .append (makes_setOut_issue rfl) (openTasks_pos hrun) (setOut_openTasks_eq hrun.symm)
        (congrArg ExitPhase.recorded setOut_exit)
    · cases h
      exact quiet_setOut (by rw [hphase]; rfl) fun _ _ => by rw [hphase]; rfl
  | waking ev =>
    simp only [hphase] at h
    cases h
    exact quiet_setOut (by simp [hphase, OutPhase.held]) fun _ _ => by rw [hphase]; rfl
  | notifying ev =>
    simp only [hphase] at h
    cases h
    refine quiet_setOut ?_ fun _ _ => ?_
    · rw [hphase]
      cases ok <;> simp [OutPhase.held]
    · rw [hphase]
      cases ok <;> rfl
  | sending ev =>
    simp only [hphase] at h
    cases h
    exact .quiet (makes_setOut_send (by rw [hphase]; rfl) rfl)
      (fun _ _ => setOut_openTasks_eq (by rw [hphase]; rfl)) fun _ _ => congrArg ExitPhase.recorded setOut_exit
  | finishing =>
    simp only [hphase] at h
    split at h
    · cases h
      refine .finish (makes_setOut (by rw [hphase]; rfl)) ?_ (congrArg ExitPhase.recorded setOut_exit)
      have hrun : (p.out side).phase.unfinished = true := by rw [hphase]; rfl
      rw [← Bool.toNat_true, ← hrun]
      exact setOut_openTasks
    · rename_i hnot
      cases h
      exact quiet_setOut (by rw [hphase]; rfl) fun e he => absurd he (hnot e)
  | closing c =>
    simp only [hphase] at h
    have hrest : (p.out side).phase.unfinished = false := by rw [hphase]; rfl
    have hheld : (p.out side).phase.held = c.held := by rw [hphase]; rfl
    rcases hclose : closeStep entry p c with ⟨c', entry₁, p₁⟩
    rw [hclose] at h
    rcases closeStep_cases hclose with ⟨hle, rfl, rfl⟩ | ⟨ev, rfl, hev, rfl, rfl⟩ | ⟨e, e', ev, rfl, hemit,
      rfl, rfl, rfl⟩
    · cases c' with
      | none =>
        cases h
        exact quiet_setOut (hheld ▸ hle) fun _ _ => hrest.symm
      | some c' =>
        cases h
        exact quiet_setOut (hheld ▸ hle) fun _ _ => hrest.symm
    · cases h
      rw [setOut_send]
      exact .quiet (makes_setOut_send (hheld.trans hev) rfl) (fun _ _ => setOut_openTasks_eq hrest.symm)
        fun _ _ => congrArg ExitPhase.recorded setOut_exit
    · cases h
      rw [setOut_issue]
      exact .close hemit (makes_setOut_issue rfl) (setOut_openTasks_eq hrest.symm)
        (congrArg ExitPhase.recorded setOut_exit)
  | done =>
    simp only [hphase] at h
    cases h

theorem exit_flight {x : ExitPhase} : { p with exit := x }.flight + p.exit.held = p.flight + x.held := by
  simp only [Proc.flight]
  abel

theorem makes_exit {x : ExitPhase} (h : x.held ≤ p.exit.held) : Makes [] p { p with exit := x } :=
  .of_held _ _ rfl (by simp) exit_flight (by simpa using h)

theorem makes_exit_issue {x : ExitPhase} (h : x.held = {ev}) : Makes [ev] p { p.issue ev with exit := x } := by
  refine .of_held _ _ rfl rfl exit_flight ?_
  rw [h]
  exact Multiset.le_add_left _ _

theorem makes_exit_send {x : ExitPhase} (h : p.exit.held = {ev}) (hx : x.held = 0) :
    Makes [] p { p.send ev with exit := x } := by
  refine .of_held {ev} {ev} rfl (by simp [Proc.send]) ?_ (by simp)
  have hsum : { p.send ev with exit := x }.flight + p.exit.held = (p.send ev).flight + x.held := exit_flight
  rwa [h, hx, send_flight, add_zero] at hsum

theorem quiet_exit {x : ExitPhase} (hheld : x.held ≤ p.exit.held) (hexit : x.recorded = p.exit.recorded) :
    Effect entry p entry { p with exit := x } :=
  .quiet (makes_exit hheld) (fun _ _ => rfl) fun _ _ => hexit

theorem exitStep_effect (h : exitStep entry p ok = some (entry', p')) : Effect entry p entry' p' := by
  unfold exitStep at h
  cases hphase : p.exit with
  | waiting =>
    simp only [hphase] at h
    cases h
  | locking code =>
    simp only [hphase] at h
    split at h
    · cases h
      exact .exit (makes_exit_issue rfl) rfl (by rw [hphase]; rfl) rfl
    · rename_i hnot
      cases h
      exact .quiet (makes_exit (by rw [hphase]; rfl)) (fun _ _ => rfl) fun e he => absurd he (hnot e)
  | waking code ev =>
    simp only [hphase] at h
    cases h
    exact quiet_exit (by rw [hphase]; cases ev <;> rfl) (by rw [hphase]; rfl)
  | notifying code ev =>
    simp only [hphase] at h
    cases h
    refine quiet_exit ?_ ?_
    · rw [hphase]
      split_ifs
      · cases ev <;> rfl
      · exact Multiset.zero_le _
    · rw [hphase]
      split_ifs <;> rfl
  | sending code ev =>
    cases ev with
    | none =>
      simp only [hphase] at h
      cases h
      exact quiet_exit (by rw [hphase]; rfl) (by rw [hphase]; rfl)
    | some ev =>
      simp only [hphase] at h
      cases h
      exact .quiet (makes_exit_send (by rw [hphase]; rfl) rfl) (fun _ _ => rfl) fun _ _ => by rw [hphase]; rfl
  | closing code c =>
    simp only [hphase] at h
    have hheld : p.exit.held = c.held := by rw [hphase]; rfl
    rcases hclose : closeStep entry p c with ⟨c', entry₁, p₁⟩
    rw [hclose] at h
    rcases closeStep_cases hclose with ⟨hle, rfl, rfl⟩ | ⟨ev, rfl, hev, rfl, rfl⟩ | ⟨e, e', ev, rfl, hemit,
      rfl, rfl, rfl⟩
    · cases c' with
      | none =>
        cases h
        exact quiet_exit (hheld ▸ hle) (by rw [hphase]; rfl)
      | some c' =>
        cases h
        exact quiet_exit (hheld ▸ hle) (by rw [hphase]; rfl)
    · cases h
      exact .quiet (makes_exit_send (hheld.trans hev) rfl) (fun _ _ => rfl) fun _ _ => by rw [hphase]; rfl
    · cases h
      exact .close hemit (makes_exit_issue rfl) rfl (by rw [hphase]; rfl)
  | sleeping code =>
    simp only [hphase] at h
    split at h
    · cases h
      split_ifs
      · exact .remove (makes_exit (by rw [hphase]; rfl))
      · exact quiet_exit (by rw [hphase]; rfl) (by rw [hphase]; rfl)
    · cases h
      exact quiet_exit (by rw [hphase]; rfl) (by rw [hphase]; rfl)
  | done =>
    simp only [hphase] at h
    cases h

theorem procStep_effect {t : TaskId} (h : procStep entry p ok t = some (entry', p')) :
    Effect entry p entry' p' := by
  cases t with
  | out side => exact outStep_effect h
  | exit => exact exitStep_effect h

theorem Effect.id (h : Effect entry p entry' p') : p'.id = p.id := by
  cases h with
  | quiet hm | append hm | finish hm | exit hm | close _ hm | remove hm => exact hm.id

/-! Steps of the agent -/

inductive TableStep (s s' : State) : Prop where
  | drops (hprocs : s'.procs = s.procs)
    (hentries : ∀ id e, s'.processes id = some (.running e) → s.processes id = some (.running e))
  | spawns (params : ExecParams) (hprocs : s'.procs = s.procs ++ [.new params.processId params.tty])
    (hentries : s'.processes =
      Function.update s.processes params.processId (some (.running (.new s.procs.length))))
  | moves (i : ℕ) (p p' : Proc) (entry : Option ProcessEntry) (hi : s.procs[i]? = some p)
    (heffect : Effect (s.processes p.id) p entry p') (hprocs : s'.procs = s.procs.set i p')
    (hentries : s'.processes = Function.update s.processes p.id entry)

variable {s s' : State}

theorem TableStep.of_eq (hprocs : s'.procs = s.procs) (hentries : s'.processes = s.processes) : TableStep s s' :=
  .drops hprocs fun _ _ h => hentries ▸ h

theorem TableStep.of_quiet {i : ℕ} (hi : s.procs[i]? = some p)
    (heffect : Effect (s.processes p.id) p (s.processes p.id) p')
    (hprocs : s'.procs = s.procs.set i p') (hentries : s'.processes = s.processes) : TableStep s s' :=
  .moves i p p' _ hi heffect hprocs (hentries.trans (Function.update_eq_self _ _).symm)

theorem startProcess_ok {params : ExecParams} (h : startProcess s params = .ok s') :
    s' = { s with
      processes := Function.update s.processes params.processId (some .starting)
      spawning := s.spawning ++ [params] } := by
  unfold startProcess at h
  cases hinit : requireInitializedFor "exec" s with
  | error err =>
    rw [hinit] at h
    cases h
  | ok u =>
    rw [hinit] at h
    by_cases hargv : params.argv = []
    · simp only [hargv, if_true] at h
      cases h
    by_cases hused : (s.processes params.processId).isSome = true
    · simp only [hargv, hused, if_true, if_false] at h
      cases h
    simp only [hargv, hused, if_false] at h
    cases h
    rfl

theorem startProcess_table {params : ExecParams} (h : startProcess s params = .ok s') : TableStep s s' := by
  rw [startProcess_ok h]
  refine .drops rfl fun id e he => ?_
  by_cases hid : id = params.processId
  · simp [hid] at he
  · simpa [hid] using he

theorem step_table {a : Act} (h : step s a = some s') : TableStep s s' := by
  cases a with
  | initializeRequest =>
    cases h
    exact .of_eq rfl rfl
  | initialized =>
    cases h
    split_ifs
    · exact .of_eq rfl rfl
    · exact .of_eq rfl rfl
  | start params =>
    simp only [step] at h
    split at h
    · rename_i hstart
      cases h
      exact startProcess_table hstart
    · cases h
      exact .of_eq rfl rfl
  | spawned k =>
    obtain ⟨params, -, rfl⟩ := Option.map_eq_some_iff.mp h
    exact .spawns params rfl rfl
  | spawnFailed k =>
    obtain ⟨params, -, rfl⟩ := Option.map_eq_some_iff.mp h
    refine .drops rfl fun id e he => ?_
    dsimp only at he
    split_ifs at he
    · by_cases hid : id = params.processId
      · simp [hid] at he
      · simpa [hid] using he
    · exact he
  | output i side chunk =>
    obtain ⟨p, hi, h⟩ := Option.bind_eq_some_iff.mp h
    dsimp only at h
    split_ifs at h
    cases h
    refine .of_quiet hi (quiet_setOut ?_ fun _ _ => ?_) rfl rfl
    · exact le_rfl
    · rfl
  | endOutput i side =>
    obtain ⟨p, hi, rfl⟩ := Option.map_eq_some_iff.mp h
    refine .of_quiet hi (quiet_setOut ?_ fun _ _ => ?_) rfl rfl
    · exact le_rfl
    · rfl
  | exits i code =>
    obtain ⟨p, hi, h⟩ := Option.bind_eq_some_iff.mp h
    split_ifs at h with hwaiting
    cases h
    exact .of_quiet hi (quiet_exit (by rw [hwaiting]; rfl) (by rw [hwaiting]; rfl)) rfl rfl
  | task i t ok =>
    obtain ⟨p, hi, h⟩ := Option.bind_eq_some_iff.mp h
    obtain ⟨⟨entry, p'⟩, hproc, rfl⟩ := Option.map_eq_some_iff.mp h
    exact .moves i p p' entry hi (procStep_effect hproc) rfl rfl
  | read params =>
    cases h
    exact .of_eq rfl rfl
  | reader k =>
    obtain ⟨r, -, h⟩ := Option.bind_eq_some_iff.mp h
    obtain ⟨r', -, rfl⟩ := Option.map_eq_some_iff.mp h
    exact .of_eq rfl rfl
  | elapse k =>
    obtain ⟨r, -, rfl⟩ := Option.map_eq_some_iff.mp h
    exact .of_eq rfl rfl
  | shutdown =>
    cases h
    exact .drops rfl fun _ _ he => by cases he

end Nexal.LocalProcess
