import Nexal.Proofs.LocalEntry
import Nexal.Spec.RunCommand

/-! Where the output of a command's process is, and what a step of a task does with it. -/

namespace Nexal.RunCommand

open LocalProcess

/-- The chunks appended so far. -/
def ofEvent : ProcessEvent → Option RetainedOutputChunk
  | .outputDelta _ seq stream chunk => some ⟨seq, stream, chunk⟩
  | _ => none

def chunksOf (p : Proc) : List RetainedOutputChunk := p.issued.filterMap ofEvent

/-- What the task has taken from its channel, and what is still in it. -/
def pendingOf (t : OutTask) : List Bytes :=
  match t.phase with
  | .locking chunk => chunk :: t.queue
  | _ => t.queue

def streamOf : Side → ExecOutputStream
  | .stdout => .stdout
  | .stderr => .stderr

def streamBytes (side : Side) (chunks : List RetainedOutputChunk) : Bytes :=
  (chunks.filter (·.stream = streamOf side)).flatMap (·.chunk)

theorem streamBytes_append (side : Side) (l₁ l₂ : List RetainedOutputChunk) :
    streamBytes side (l₁ ++ l₂) = streamBytes side l₁ ++ streamBytes side l₂ := by
  simp [streamBytes]

variable {p p' : Proc} {side : Side} {t : OutTask} {entry entry' : Option ProcessEntry}

theorem out_setOut_self : (p.setOut side t).out side = t := by cases side <;> rfl

theorem out_setOut_ne {side' : Side} (h : side' ≠ side) : (p.setOut side t).out side' = p.out side' := by
  cases side <;> cases side'
  · exact absurd rfl h
  · rfl
  · rfl
  · exact absurd rfl h

theorem issue_out {ev : ProcessEvent} : (p.issue ev).out = p.out := rfl

theorem setOut_out_congr {p₁ p₂ : Proc} (h : p₁.out = p₂.out) :
    (p₁.setOut side t).out = (p₂.setOut side t).out := by
  funext side'
  by_cases hside : side' = side
  · rw [hside, out_setOut_self, out_setOut_self]
  · rw [out_setOut_ne hside, out_setOut_ne hside, h]

theorem chunksOf_congr (h : p'.issued = p.issued) : chunksOf p' = chunksOf p := by rw [chunksOf, h, chunksOf]

theorem pendingOf_of_ne (h : ∀ chunk, t.phase ≠ .locking chunk) : pendingOf t = t.queue := by
  unfold pendingOf
  split
  · rename_i chunk hphase
    exact absurd hphase (h chunk)
  · rfl

def SameOutput (entry entry' : Option ProcessEntry) : Prop :=
  ∀ e', entry' = some (.running e') →
    ∃ e, entry = some (.running e) ∧ e'.output = e.output ∧ e.nextSeq ≤ e'.nextSeq

theorem SameOutput.refl (entry : Option ProcessEntry) : SameOutput entry entry :=
  fun e he => ⟨e, he, rfl, le_rfl⟩

structure TaskFrame (p p' : Proc) : Prop where
  id : p'.id = p.id
  stream : ∀ side, (p'.out side).stream = (p.out side).stream
  waiting : p.exit = .waiting → p'.exit = .waiting

theorem taskFrame_of_setOut (hid : p'.id = p.id) (hout : p'.out = (p.setOut side t).out) (hexit : p'.exit = p.exit)
    (ht : t.stream = (p.out side).stream) : TaskFrame p p' := by
  refine ⟨hid, fun side' => ?_, fun hwaiting => hexit.trans hwaiting⟩
  rw [hout]
  by_cases hside : side' = side
  · rw [hside, out_setOut_self, ht]
  · rw [out_setOut_ne hside]

theorem taskFrame_of_exit (hid : p'.id = p.id) (hout : p'.out = p.out) (hexit : p.exit ≠ .waiting) : TaskFrame p p' :=
  ⟨hid, fun side => by rw [hout], fun hwaiting => absurd hwaiting hexit⟩

inductive OutputStep (entry : Option ProcessEntry) (p : Proc) (entry' : Option ProcessEntry) (p' : Proc) : Prop where
  | keeps (hchunks : chunksOf p' = chunksOf p) (hpending : ∀ side, pendingOf (p'.out side) = pendingOf (p.out side))
    (hentry : SameOutput entry entry')
  | appends (side : Side) (chunk : Bytes) (e : RunningProcess) (hentry : entry = some (.running e))
    (hentry' : entry' = some (.running (appendOutput p.id (p.out side).stream chunk e).1))
    (hchunks : chunksOf p' = chunksOf p ++ [⟨e.nextSeq, (p.out side).stream, chunk⟩])
    (hpending : pendingOf (p.out side) = chunk :: pendingOf (p'.out side))
    (hother : ∀ side', side' ≠ side → pendingOf (p'.out side') = pendingOf (p.out side'))
  /-- nobody can read it any more -/
  | drops (hchunks : chunksOf p' = chunksOf p)
    (hpending : ∀ side, ∀ c ∈ pendingOf (p'.out side), c ∈ pendingOf (p.out side))
    (hentry : ∀ e, entry' ≠ some (.running e))

theorem OutputStep.of_setOut (hissued : chunksOf p' = chunksOf p) (hout : p'.out = (p.setOut side t).out)
    (ht : pendingOf t = pendingOf (p.out side)) (hentry : SameOutput entry entry') :
    OutputStep entry p entry' p' := by
  refine .keeps hissued (fun side' => ?_) hentry
  rw [hout]
  by_cases hside : side' = side
  · rw [hside, out_setOut_self, ht]
  · rw [out_setOut_ne hside]

/-- A phase that holds no chunk leads to one that holds none. -/
theorem OutputStep.of_phase {phase : OutPhase} (hissued : chunksOf p' = chunksOf p)
    (hout : p'.out = (p.setOut side { p.out side with phase := phase }).out)
    (hold : ∀ chunk, (p.out side).phase ≠ .locking chunk) (hnew : ∀ chunk, phase ≠ .locking chunk)
    (hentry : SameOutput entry entry') : OutputStep entry p entry' p' := by
  refine .of_setOut hissued hout ?_ hentry
  rw [pendingOf_of_ne hold, pendingOf_of_ne hnew]

theorem sameOutput_finish (e : RunningProcess) :
    SameOutput (some (.running e)) (some (.running (finishOutputStream e))) := by
  intro e' he'
  cases he'
  refine ⟨e, rfl, ?_, ?_⟩
  · unfold finishOutputStream
    split_ifs <;> rfl
  · unfold finishOutputStream
    split_ifs <;> exact le_rfl

theorem sameOutput_close {id : ProcessId} {e e' : RunningProcess} {ev : ProcessEvent}
    (h : maybeEmitClosed id e = some (e', ev)) : SameOutput (some (.running e)) (some (.running e')) := by
  obtain ⟨-, -, -, rfl, -⟩ := maybeEmitClosed_eq h
  intro e' he'
  cases he'
  exact ⟨e, rfl, rfl, Nat.le_succ _⟩

theorem chunksOf_issue_closed {id : ProcessId} {seq : ℕ} : chunksOf (p.issue (.closed id seq)) = chunksOf p := by
  simp [chunksOf, Proc.issue, ofEvent]

/-- `maybe_emit_closed` has nothing to do with the output. -/
theorem closeStep_output {c : Closing} {c' : Option Closing} (h : closeStep entry p c = (c', entry', p')) :
    chunksOf p' = chunksOf p ∧ p'.id = p.id ∧ p'.out = p.out ∧ p'.exit = p.exit ∧ SameOutput entry entry' := by
  rcases closeStep_cases h with ⟨-, rfl, rfl⟩ | ⟨ev, -, -, rfl, rfl⟩ | ⟨e, e', ev, -, hclose, rfl, rfl, rfl⟩
  · exact ⟨rfl, rfl, rfl, rfl, .refl _⟩
  · exact ⟨rfl, rfl, rfl, rfl, .refl _⟩
  · have hev := (maybeEmitClosed_eq hclose).2.2.2.2
    rw [hev]
    exact ⟨chunksOf_issue_closed, rfl, rfl, rfl, sameOutput_close hclose⟩

theorem outStep_output (h : outStep entry p side true = some (entry', p')) : OutputStep entry p entry' p' := by
  unfold outStep at h
  dsimp only at h
  cases hphase : (p.out side).phase with
  | receiving =>
    simp only [hphase] at h
    have hold : pendingOf (p.out side) = (p.out side).queue := pendingOf_of_ne (by simp [hphase])
    split at h
    · rename_i chunk queue hqueue
      cases h
      refine .of_setOut (chunksOf_congr setOut_issued) rfl ?_ (.refl _)
      rw [hold, hqueue]
      rfl
    · split_ifs at h
      cases h
      exact .of_phase (chunksOf_congr setOut_issued) rfl (by simp [hphase]) (by simp) (.refl _)
  | locking chunk =>
    simp only [hphase] at h
    have hold : pendingOf (p.out side) = chunk :: (p.out side).queue := by rw [pendingOf, hphase]
    split at h
    · rename_i e
      cases h
      refine .appends side chunk e rfl rfl ?_ ?_ fun side' hside => ?_
      · simp [chunksOf, Proc.issue, appendOutput, ofEvent]
      · rw [hold, issue_out, out_setOut_self]
        rfl
      · rw [issue_out, out_setOut_ne hside]
    · rename_i hnot
      cases h
      refine .drops (chunksOf_congr setOut_issued) (fun side' c hc => ?_) hnot
      by_cases hside : side' = side
      · subst hside
        rw [out_setOut_self] at hc
        rw [hold]
        exact List.mem_cons_of_mem _ hc
      · rwa [out_setOut_ne hside] at hc
  | waking ev =>
    simp only [hphase] at h
    cases h
    exact .of_phase (chunksOf_congr setOut_issued) rfl (by simp [hphase]) (by simp) (.refl _)
  | notifying ev =>
    simp only [hphase] at h
    cases h
    exact .of_phase (chunksOf_congr setOut_issued) rfl (by simp [hphase]) (by simp) (.refl _)
  | sending ev =>
    simp only [hphase] at h
    cases h
    exact .of_phase (chunksOf_congr setOut_issued) rfl (by simp [hphase]) (by simp) (.refl _)
  | finishing =>
    simp only [hphase] at h
    split at h
    · cases h
      exact .of_phase (chunksOf_congr setOut_issued) rfl (by simp [hphase]) (by simp) (sameOutput_finish _)
    · cases h
      exact .of_phase (chunksOf_congr setOut_issued) rfl (by simp [hphase]) (by simp) (.refl _)
  | closing c =>
    simp only [hphase] at h
    rcases hclose : closeStep entry p c with ⟨c', entry₁, p₁⟩
    rw [hclose] at h
    obtain ⟨hchunks, -, hout, -, hentry⟩ := closeStep_output hclose
    cases c' with
    | none =>
      cases h
      exact .of_phase ((chunksOf_congr setOut_issued).trans hchunks) (setOut_out_congr hout) (by simp [hphase])
        (by simp) hentry
    | some c' =>
      cases h
      exact .of_phase ((chunksOf_congr setOut_issued).trans hchunks) (setOut_out_congr hout) (by simp [hphase])
        (by simp) hentry
  | done =>
    simp only [hphase] at h
    cases h

theorem exitStep_output (h : exitStep entry p true = some (entry', p')) : OutputStep entry p entry' p' := by
  unfold exitStep at h
  cases hphase : p.exit with
  | waiting =>
    simp only [hphase] at h
    cases h
  | locking code =>
    simp only [hphase] at h
    split at h
    · rename_i e
      cases h
      refine .keeps ?_ (fun _ => rfl) fun e' he' => ?_
      · simp [chunksOf, Proc.issue, recordExit, ofEvent]
      · cases he'
        exact ⟨e, rfl, rfl, Nat.le_succ _⟩
    · cases h
      exact .keeps rfl (fun _ => rfl) (.refl _)
  | waking code ev =>
    simp only [hphase] at h
    cases h
    exact .keeps rfl (fun _ => rfl) (.refl _)
  | notifying code ev =>
    simp only [hphase] at h
    cases h
    exact .keeps rfl (fun _ => rfl) (.refl _)
  | sending code ev =>
    cases ev with
    | none =>
      simp only [hphase] at h
      cases h
      exact .keeps rfl (fun _ => rfl) (.refl _)
    | some ev =>
      simp only [hphase] at h
      cases h
      exact .keeps rfl (fun _ => rfl) (.refl _)
  | closing code c =>
    simp only [hphase] at h
    rcases hclose : closeStep entry p c with ⟨c', entry₁, p₁⟩
    rw [hclose] at h
    obtain ⟨hchunks, -, hout, -, hentry⟩ := closeStep_output hclose
    have hpending : ∀ side, pendingOf (p₁.out side) = pendingOf (p.out side) := fun side => by rw [hout]
    cases c' with
    | none =>
      cases h
      exact .keeps hchunks hpending hentry
    | some c' =>
      cases h
      exact .keeps hchunks hpending hentry
  | sleeping code =>
    simp only [hphase] at h
    split at h
    · cases h
      split_ifs
      · exact .keeps rfl (fun _ => rfl) fun e' he' => by cases he'
      · exact .keeps rfl (fun _ => rfl) (.refl _)
    · cases h
      exact .keeps rfl (fun _ => rfl) (.refl _)
  | done =>
    simp only [hphase] at h
    cases h

theorem outStep_frame {ok : Bool} (h : outStep entry p side ok = some (entry', p')) : TaskFrame p p' := by
  unfold outStep at h
  dsimp only at h
  split at h
  · split at h
    · cases h
      exact taskFrame_of_setOut setOut_id rfl setOut_exit rfl
    · split_ifs at h
      cases h
      exact taskFrame_of_setOut setOut_id rfl setOut_exit rfl
  · split at h <;>
    · cases h
      exact taskFrame_of_setOut setOut_id rfl setOut_exit rfl
  · cases h
    exact taskFrame_of_setOut setOut_id rfl setOut_exit rfl
  · cases h
    exact taskFrame_of_setOut setOut_id rfl setOut_exit rfl
  · cases h
    exact taskFrame_of_setOut setOut_id rfl setOut_exit rfl
  · split at h <;>
    · cases h
      exact taskFrame_of_setOut setOut_id rfl setOut_exit rfl
  · rename_i c _
    rcases hclose : closeStep entry p c with ⟨c', entry₁, p₁⟩
    rw [hclose] at h
    obtain ⟨-, hid, hout, hexit, -⟩ := closeStep_output hclose
    cases c' <;>
    · cases h
      exact taskFrame_of_setOut (setOut_id.trans hid) (setOut_out_congr hout) (setOut_exit.trans hexit) rfl
  · cases h

theorem exitStep_frame {ok : Bool} (h : exitStep entry p ok = some (entry', p')) : TaskFrame p p' := by
  have hexit : p.exit ≠ .waiting := by
    intro hwaiting
    simp only [exitStep, hwaiting] at h
    cases h
  unfold exitStep at h
  split at h
  · cases h
  · split at h <;>
    · cases h
      exact taskFrame_of_exit rfl rfl hexit
  · cases h
    exact taskFrame_of_exit rfl rfl hexit
  · cases h
    exact taskFrame_of_exit rfl rfl hexit
  · cases h
    exact taskFrame_of_exit rfl rfl hexit
  · cases h
    exact taskFrame_of_exit rfl rfl hexit
  · rename_i c _
    rcases hclose : closeStep entry p c with ⟨c', entry₁, p₁⟩
    rw [hclose] at h
    obtain ⟨-, hid, hout, -, -⟩ := closeStep_output hclose
    cases c' <;>
    · cases h
      exact taskFrame_of_exit hid hout hexit
  · split at h <;>
    · cases h
      exact taskFrame_of_exit rfl rfl hexit
  · cases h

theorem procStep_frame {ok : Bool} {t : TaskId} (h : procStep entry p ok t = some (entry', p')) : TaskFrame p p' := by
  cases t with
  | out side => exact outStep_frame h
  | exit => exact exitStep_frame h

theorem procStep_output {t : TaskId} (h : procStep entry p true t = some (entry', p')) :
    OutputStep entry p entry' p' := by
  cases t with
  | out side => exact outStep_output h
  | exit => exact exitStep_output h

end Nexal.RunCommand
