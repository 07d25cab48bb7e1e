import Nexal.Proofs.LocalReuse
import Nexal.Sanity.LocalRead

/-! A read that found nothing waits on the `Notify` of the process whose entry it looked at. The
notification of an event is given after the lock is released, to the reads that wait then. -/

namespace Nexal.LocalProcess

open Runs

/-! What is still to be notified -/

/-- Where the exit watcher is with its notification. -/
inductive Notice where
  | ahead
  | due (ev : Option ProcessEvent)
  | given
deriving DecidableEq

def OutPhase.news : OutPhase → Option ProcessEvent
  | .waking ev => some ev
  | _ => none

def ExitPhase.notice : ExitPhase → Notice
  | .waiting | .locking _ => .ahead
  | .waking _ ev => .due ev
  | _ => .given

def Notice.news : Notice → Option ProcessEvent
  | .due ev => ev
  | _ => none

def Proc.news (p : Proc) : TaskId → Option ProcessEvent
  | .out side => (p.out side).phase.news
  | .exit => p.exit.notice.news

def Proc.records (p : Proc) : TaskId → Bool
  | .out side => match (p.out side).phase with
    | .locking _ => true
    | _ => false
  | .exit => match p.exit with
    | .locking _ => true
    | _ => false

/-! Reads -/

/-- The read has looked, with nothing to return, and does not wait yet: the `Notify` it took, and
the seq its look went up to. -/
def Reader.window (r : Reader) : Option (ℕ × ℕ) :=
  match r.phase with
  | .checked response notify =>
    if response.chunks ≠ [] ∨ response.exited ∨ r.elapsed then none else some (notify, response.nextSeq)
  | _ => none

def Reader.watch (r : Reader) : Option (ℕ × ℕ) :=
  match r.phase with
  | .parked notify => some (notify, 0)
  | _ => r.window

/-- The read waits for `notify`, and what it could return has been notified: the exit of the process,
a retained chunk, or an exit code that some other process left in the entry. -/
def Asleep (s : State) (r : Reader) : Prop :=
  ∃ notify p, r.phase = .parked notify ∧ s.procs[notify]? = some p ∧
    (p.exit.notice = .given ∨
      ∃ e, s.processes r.params.processId = some (.running e) ∧
        ((∃ c ∈ e.output, r.params.afterSeq.getD 0 < c.seq ∧ ∀ t ev, p.news t = some ev → ev.seq ≠ c.seq) ∨
          (e.exitCode.isSome = true ∧ p.exit.notice = .ahead)))

/-- No event is notified between a read's look at the table, which the event came after, and the start
of its wait; and no other process comes to use the entry that a read waits for. -/
def heard (s : State) : Act → Bool
  | .task i t _ => (s.procs[i]?).all fun p => s.readers.all fun r =>
      (!p.wakes t || r.window.all fun (notify, nextSeq) =>
        notify ≠ i || (p.news t).any fun ev => ev.seq < nextSeq) &&
      (!p.records t || r.params.processId ≠ p.id || r.watch.all fun (notify, _) => notify = i)
  | .spawned k => (s.spawning[k]?).all fun params => s.readers.all fun r =>
      r.params.processId ≠ params.processId || r.watch.isNone
  | _ => true

variable {s s' : State} {p p' q : Proc} {e e' : RunningProcess} {ev : ProcessEvent} {entry entry' : Option ProcessEntry}
  {side : Side} {t : TaskId} {ok : Bool}

/-! What a task's step tells -/

@[simp] theorem news_issue : (p.issue ev).news = p.news := by
  funext t
  rcases t with ⟨_ | _⟩ | _ <;> rfl

@[simp] theorem news_send : (p.send ev).news = p.news := by
  funext t
  rcases t with ⟨_ | _⟩ | _ <;> rfl

theorem news_setOut_self {o : OutTask} : (p.setOut side o).news (.out side) = o.phase.news := by cases side <;> rfl

theorem news_setOut_of_ne {o : OutTask} {u : TaskId} (h : u ≠ .out side) : (p.setOut side o).news u = p.news u := by
  rcases u with ⟨_ | _⟩ | _ <;> cases side
  · exact absurd rfl h
  · rfl
  · rfl
  · exact absurd rfl h
  · rfl
  · rfl

structure SameOutput (e e' : RunningProcess) : Prop where
  notify : e'.outputNotify = e.outputNotify
  output : e'.output = e.output
  exitCode : e'.exitCode = e.exitCode
  nextSeq : e.nextSeq ≤ e'.nextSeq

theorem SameOutput.refl (e : RunningProcess) : SameOutput e e := ⟨rfl, rfl, rfl, Nat.le_refl _⟩

def Unrecorded (entry entry' : Option ProcessEntry) : Prop :=
  ∀ e', entry' = some (.running e') → ∃ e, entry = some (.running e) ∧ SameOutput e e'

theorem Unrecorded.refl (entry : Option ProcessEntry) : Unrecorded entry entry := fun e he => ⟨e, he, .refl e⟩

theorem sameOutput_finish (e : RunningProcess) : SameOutput e (finishOutputStream e) := by
  unfold finishOutputStream
  split_ifs
  · exact ⟨rfl, rfl, rfl, Nat.le_refl _⟩
  · exact .refl e

theorem sameOutput_closed {id : ProcessId} (h : maybeEmitClosed id e = some (e', ev)) : SameOutput e e' := by
  unfold maybeEmitClosed at h
  split_ifs at h
  cases h
  exact ⟨rfl, rfl, rfl, Nat.le_succ _⟩

theorem closeStep_unrecorded {c : Closing} {c' : Option Closing} (h : closeStep entry p c = (c', entry', p')) :
    Unrecorded entry entry' ∧ p'.news = p.news ∧ p'.exit = p.exit := by
  rcases closeStep_cases h with ⟨-, rfl, rfl⟩ | ⟨ev, -, -, rfl, rfl⟩ | ⟨e, e', ev, -, hclose, rfl, rfl, rfl⟩
  · exact ⟨.refl _, rfl, rfl⟩
  · exact ⟨.refl _, news_send, rfl⟩
  · refine ⟨fun e₁ he₁ => ?_, news_issue, rfl⟩
    cases he₁
    exact ⟨e, rfl, sameOutput_closed hclose⟩

/-- What a step of the task `t` does to what is still to be notified. -/
inductive Tells (t : TaskId) : Option ProcessEntry → Proc → Option ProcessEntry → Proc → Prop where
  | quiet {entry entry' : Option ProcessEntry} {p p' : Proc} (hentry : Unrecorded entry entry')
    (hnews : p.wakes t = true ∨ p.news t = none)
    (hnotice : p'.exit.notice = p.exit.notice ∨ t = .exit ∧ ∃ ev, p.exit.notice = .due ev) :
    Tells t entry p entry' p'
  | missed {entry : Option ProcessEntry} {p p' : Proc} (ht : t = .exit) (hentry : ∀ e, entry ≠ some (.running e))
    (hbefore : p.exit.notice = .ahead) (hafter : p'.exit.notice = .due none) : Tells t entry p entry p'
  | records {e e' : RunningProcess} {p p' : Proc} {ev : ProcessEvent} (hrecords : p.records t = true)
    (hbefore : p.news t = none) (hafter : p'.news t = some ev) (hseq : ev.seq = e.nextSeq)
    (hnotify : e'.outputNotify = e.outputNotify) (hnext : e'.nextSeq = e.nextSeq + 1)
    (houtput : ∀ c ∈ e'.output, c ∈ e.output ∨ c.seq = e.nextSeq)
    (hexit : (t ≠ .exit ∧ e'.exitCode = e.exitCode ∧ p'.exit.notice = p.exit.notice) ∨
      (t = .exit ∧ e'.exitCode.isSome = true ∧ p.exit.notice = .ahead ∧ p'.exit.notice = .due (some ev))) :
    Tells t (some (.running e)) p (some (.running e')) p'

theorem tells_setOut {o : OutTask} (hentry : Unrecorded entry entry')
    (h : p.wakes (.out side) = true ∨ (p.out side).phase.news = none) :
    Tells (.out side) entry p entry' (p.setOut side o) :=
  .quiet hentry h (Or.inl (by rw [setOut_exit]))

theorem outStep_tells (h : outStep entry p side ok = some (entry', p')) : Tells (.out side) entry p entry' p' := by
  unfold outStep at h
  dsimp only at h
  cases hphase : (p.out side).phase with
  | receiving =>
    simp only [hphase] at h
    split at h
    · cases h
      exact tells_setOut (.refl _) (Or.inr (by rw [hphase]; rfl))
    · split_ifs at h
      cases h
      exact tells_setOut (.refl _) (Or.inr (by rw [hphase]; rfl))
  | locking chunk =>
    simp only [hphase] at h
    split at h
    · rename_i e
      cases h
      let ev := (appendOutput p.id (p.out side).stream chunk e).2
      have hafter : ((p.setOut side { p.out side with phase := .waking ev }).issue ev).news (.out side) = some ev :=
        (congrFun news_issue _).trans news_setOut_self
      refine .records (by simp only [Proc.records, hphase]) (by simp only [Proc.news, hphase, OutPhase.news]) hafter
        rfl rfl rfl ?_ ?_
      · intro c hc
        rcases List.mem_append.mp ((evict_suffix _ _).subset hc) with hold | hnew
        · exact Or.inl hold
        · exact Or.inr (by rw [List.mem_singleton.mp hnew])
      · exact Or.inl ⟨nofun, rfl, congrArg ExitPhase.notice setOut_exit⟩
    · cases h
      exact tells_setOut (.refl _) (Or.inr (by rw [hphase]; rfl))
  | waking ev =>
    simp only [hphase] at h
    cases h
    exact tells_setOut (.refl _) (Or.inl (by simp only [Proc.wakes, hphase]))
  | notifying ev =>
    simp only [hphase] at h
    cases h
    exact tells_setOut (.refl _) (Or.inr (by rw [hphase]; rfl))
  | sending ev =>
    simp only [hphase] at h
    cases h
    exact .quiet (.refl _) (Or.inr (by simp only [Proc.news, hphase, OutPhase.news]))
      (Or.inl (congrArg ExitPhase.notice setOut_exit))
  | finishing =>
    simp only [hphase] at h
    split at h
    · cases h
      refine tells_setOut (fun e' he' => ?_) (Or.inr (by rw [hphase]; rfl))
      cases he'
      exact ⟨_, rfl, sameOutput_finish _⟩
    · cases h
      exact tells_setOut (.refl _) (Or.inr (by rw [hphase]; rfl))
  | closing c =>
    simp only [hphase] at h
    rcases hclose : closeStep entry p c with ⟨c', entry₁, p₁⟩
    obtain ⟨hentry, -, hexit⟩ := closeStep_unrecorded hclose
    have hnews : p.news (.out side) = none := by simp only [Proc.news, hphase, OutPhase.news]
    rw [hclose] at h
    cases c' with
    | none =>
      cases h
      exact .quiet hentry (Or.inr hnews) (Or.inl (by rw [setOut_exit, hexit]))
    | some c' =>
      cases h
      exact .quiet hentry (Or.inr hnews) (Or.inl (by rw [setOut_exit, hexit]))
  | done =>
    simp only [hphase] at h
    cases h

theorem exitStep_tells (h : exitStep entry p ok = some (entry', p')) : Tells .exit entry p entry' p' := by
  unfold exitStep at h
  cases hphase : p.exit with
  | waiting =>
    simp only [hphase] at h
    cases h
  | locking code =>
    simp only [hphase] at h
    split at h
    · cases h
      refine .records (by simp only [Proc.records, hphase]) (by simp only [Proc.news, hphase, ExitPhase.notice, Notice.news])
        rfl rfl rfl rfl (fun c hc => Or.inl hc) (Or.inr ⟨rfl, rfl, by rw [hphase]; rfl, rfl⟩)
    · rename_i hnot
      cases h
      exact .missed rfl hnot (by rw [hphase]; rfl) rfl
  | waking code ev =>
    simp only [hphase] at h
    cases h
    exact .quiet (.refl _) (Or.inl (by simp only [Proc.wakes, hphase])) (Or.inr ⟨rfl, ev, by rw [hphase]; rfl⟩)
  | notifying code ev =>
    simp only [hphase] at h
    cases h
    refine .quiet (.refl _) (Or.inr (by simp only [Proc.news, hphase, ExitPhase.notice, Notice.news])) (Or.inl ?_)
    dsimp only
    rw [hphase]
    split_ifs <;> rfl
  | sending code ev =>
    have hnews : p.news .exit = none := by simp only [Proc.news, hphase, ExitPhase.notice, Notice.news]
    cases ev with
    | none =>
      simp only [hphase] at h
      cases h
      exact .quiet (.refl _) (Or.inr hnews) (Or.inl (by rw [hphase]; rfl))
    | some ev =>
      simp only [hphase] at h
      cases h
      exact .quiet (.refl _) (Or.inr hnews) (Or.inl (by rw [hphase]; rfl))
  | closing code c =>
    simp only [hphase] at h
    rcases hclose : closeStep entry p c with ⟨c', entry₁, p₁⟩
    obtain ⟨hentry, -, -⟩ := closeStep_unrecorded hclose
    have hnews : p.news .exit = none := by simp only [Proc.news, hphase, ExitPhase.notice, Notice.news]
    rw [hclose] at h
    cases c' with
    | none =>
      cases h
      exact .quiet hentry (Or.inr hnews) (Or.inl (by rw [hphase]; rfl))
    | some c' =>
      cases h
      exact .quiet hentry (Or.inr hnews) (Or.inl (by rw [hphase]; rfl))
  | sleeping code =>
    have hnews : p.news .exit = none := by simp only [Proc.news, hphase, ExitPhase.notice, Notice.news]
    simp only [hphase] at h
    split at h
    · cases h
      refine .quiet (fun e' he' => ?_) (Or.inr hnews) (Or.inl (by rw [hphase]; rfl))
      split_ifs at he'
      exact Unrecorded.refl _ e' he'
    · cases h
      exact .quiet (.refl _) (Or.inr hnews) (Or.inl (by rw [hphase]; rfl))
  | done =>
    simp only [hphase] at h
    cases h

theorem procStep_tells (h : procStep entry p ok t = some (entry', p')) : Tells t entry p entry' p' := by
  cases t with
  | out side => exact outStep_tells h
  | exit => exact exitStep_tells h

/-- The other tasks' notifications are as they were. -/
theorem procStep_news_of_ne {u : TaskId} (h : procStep entry p ok t = some (entry', p')) (hu : u ≠ t) :
    p'.news u = p.news u := by
  cases t with
  | out side =>
    simp only [procStep, outStep] at h
    cases hphase : (p.out side).phase with
    | receiving =>
      simp only [hphase] at h
      split at h
      · cases h
        exact news_setOut_of_ne hu
      · split_ifs at h
        cases h
        exact news_setOut_of_ne hu
    | locking chunk =>
      simp only [hphase] at h
      split at h
      · cases h
        rw [news_issue, news_setOut_of_ne hu]
      · cases h
        exact news_setOut_of_ne hu
    | sending ev =>
      simp only [hphase] at h
      cases h
      rw [news_send, news_setOut_of_ne hu]
    | finishing =>
      simp only [hphase] at h
      split at h <;>
      · cases h
        exact news_setOut_of_ne hu
    | closing c =>
      simp only [hphase] at h
      rcases hclose : closeStep entry p c with ⟨c', entry₁, p₁⟩
      obtain ⟨-, hnews, -⟩ := closeStep_unrecorded hclose
      rw [hclose] at h
      cases c' <;>
      · cases h
        rw [news_setOut_of_ne hu, hnews]
    | waking ev | notifying ev =>
      simp only [hphase] at h
      cases h
      exact news_setOut_of_ne hu
    | done =>
      simp only [hphase] at h
      cases h
  | exit =>
    cases u with
    | exit => exact absurd rfl hu
    | out side =>
      have hout : p'.out side = p.out side := by
        simp only [procStep, exitStep] at h
        cases hphase : p.exit with
        | waiting | done =>
          simp only [hphase] at h
          cases h
        | locking code | sleeping code =>
          simp only [hphase] at h
          split at h <;>
          · cases h
            cases side <;> rfl
        | waking code ev | notifying code ev =>
          simp only [hphase] at h
          cases h
          cases side <;> rfl
        | sending code ev =>
          cases ev <;>
          · simp only [hphase] at h
            cases h
            cases side <;> rfl
        | closing code c =>
          simp only [hphase] at h
          rcases hclose : closeStep entry p c with ⟨c', entry₁, p₁⟩
          rw [hclose] at h
          rcases closeStep_cases hclose with ⟨-, -, rfl⟩ | ⟨ev, -, -, -, rfl⟩ | ⟨e, e', ev, -, -, -, -, rfl⟩ <;>
          · cases c' <;>
            · cases h
              cases side <;> rfl
      simp only [Proc.news, hout]

/-! Reads that wait -/

/-- A read that is on the `Notify` of `q`, after a look up to the seq `n`, has missed nothing. -/
structure Watched (s : State) (id : ProcessId) (after notify n : ℕ) (q : Proc) : Prop where
  proc : s.procs[notify]? = some q
  sameId : q.id = id
  given : q.exit.notice ≠ .given
  exitLater : ∀ ev, q.exit.notice = .due (some ev) → n ≤ ev.seq
  owner : ∀ e, s.processes id = some (.running e) → e.outputNotify = notify ∧ n ≤ e.nextSeq
  output : ∀ e, s.processes id = some (.running e) → ∀ c ∈ e.output, after < c.seq →
    n ≤ c.seq ∧ ∃ t ev, q.news t = some ev ∧ ev.seq = c.seq
  exited : ∀ e, s.processes id = some (.running e) → e.exitCode.isSome = true → q.exit.notice ≠ .ahead

structure WakeInv (s : State) : Prop where
  owner : ∀ id e, s.processes id = some (.running e) → ∃ q, s.procs[e.outputNotify]? = some q ∧ q.id = id ∧
    (e.exitCode = none → q.exit.notice = .ahead)
  watched : ∀ r ∈ s.readers, ∀ notify n, r.watch = some (notify, n) →
    ∃ q, Watched s r.params.processId (r.params.afterSeq.getD 0) notify n q

variable {id : ProcessId} {after notify n : ℕ} {r : Reader}

theorem wakeInv_init : WakeInv init where
  owner := fun _ _ he => by cases he
  watched := fun _ hr => by cases hr

theorem Watched.mono {n' : ℕ} (h : Watched s id after notify n q) (hle : n' ≤ n) : Watched s id after notify n' q where
  proc := h.proc
  sameId := h.sameId
  given := h.given
  exitLater := fun ev hev => Nat.le_trans hle (h.exitLater ev hev)
  owner := fun e he => ⟨(h.owner e he).1, Nat.le_trans hle (h.owner e he).2⟩
  output := fun e he c hc hafter => ⟨Nat.le_trans hle (h.output e he c hc hafter).1, (h.output e he c hc hafter).2⟩
  exited := h.exited

theorem Watched.not_asleep {q : Proc} (h : Watched s r.params.processId (r.params.afterSeq.getD 0) notify n q)
    (hparked : r.phase = .parked notify) : ¬ Asleep s r := by
  rintro ⟨notify', q', hphase, hq', hmissed⟩
  obtain rfl : notify' = notify := by
    rw [hparked] at hphase
    exact (ReadPhase.parked.inj hphase).symm
  obtain rfl := Option.some.inj (h.proc.symm.trans hq')
  rcases hmissed with hgiven | ⟨e, he, ⟨c, hc, hafter, hnone⟩ | ⟨hexit, hahead⟩⟩
  · exact h.given hgiven
  · obtain ⟨-, t, ev, hnews, hseq⟩ := h.output e he c hc hafter
    exact hnone t ev hnews hseq
  · exact h.exited e he hexit hahead

/-- The entry of the read and what its process has to notify are as they were. -/
theorem Watched.of_calm (h : Watched s id after notify n q) {q' : Proc} (hq' : s'.procs[notify]? = some q')
    (hid : q'.id = q.id) (hnews : ∀ t ev, q.news t = some ev → n ≤ ev.seq → q'.news t = some ev)
    (hnotice : q'.exit.notice = q.exit.notice)
    (hentry : ∀ e', s'.processes id = some (.running e') →
      ∃ e, s.processes id = some (.running e) ∧ SameOutput e e') : Watched s' id after notify n q' where
  proc := hq'
  sameId := hid.trans h.sameId
  given := hnotice ▸ h.given
  exitLater := hnotice ▸ h.exitLater
  owner := fun e' he' => by
    obtain ⟨e, he, hsame⟩ := hentry e' he'
    exact ⟨hsame.notify.trans (h.owner e he).1, Nat.le_trans (h.owner e he).2 hsame.nextSeq⟩
  output := fun e' he' c hc hafter => by
    obtain ⟨e, he, hsame⟩ := hentry e' he'
    obtain ⟨hle, t, ev, hev, hseq⟩ := h.output e he c (hsame.output ▸ hc) hafter
    exact ⟨hle, t, ev, hnews t ev hev (hseq ▸ hle), hseq⟩
  exited := fun e' he' hexit => by
    obtain ⟨e, he, hsame⟩ := hentry e' he'
    rw [hnotice]
    exact h.exited e he (hsame.exitCode ▸ hexit)

/-! A task of the process that the read waits for -/

section OwnTask

variable (h : Watched s id after notify n p) (hset : s'.procs[notify]? = some p') (hid : p'.id = p.id)
  (hother : ∀ u, u ≠ t → p'.news u = p.news u)
include h

/-- What it is about to notify of is not news to the read. -/
theorem Watched.notice_quiet (hwakes : p.wakes t = true → ∃ ev, p.news t = some ev ∧ ev.seq < n)
    (hnotice : p'.exit.notice = p.exit.notice ∨ t = .exit ∧ ∃ ev, p.exit.notice = .due ev) :
    p'.exit.notice = p.exit.notice := by
  rcases hnotice with hsame | ⟨rfl, ev, hdue⟩
  · exact hsame
  · -- the exit's notification is not one that the read could have seen
    have hw : p.wakes .exit = true := by
      cases hphase : p.exit with
      | waking code ev' => simp only [Proc.wakes, hphase]
      | _ =>
        rw [hphase] at hdue
        cases hdue
    obtain ⟨ev', hev', hlt⟩ := hwakes hw
    have hnews' : ev = some ev' := by
      simpa only [Proc.news, hdue, Notice.news] using hev'
    exact absurd hlt (Nat.not_lt.mpr (h.exitLater ev' (hnews' ▸ hdue)))

include hset hid

theorem Watched.of_missed (hgone : ∀ e, s'.processes id ≠ some (.running e)) (hafter : p'.exit.notice = .due none) :
    Watched s' id after notify n p' where
  proc := hset
  sameId := hid.trans h.sameId
  given := by
    rw [hafter]
    intro hgiven
    cases hgiven
  exitLater ev hev := by
    rw [hafter] at hev
    cases hev
  owner e' he' := absurd he' (hgone e')
  output e' he' := absurd he' (hgone e')
  exited e' he' := absurd he' (hgone e')

include hother

theorem Watched.of_quiet (hwakes : p.wakes t = true → ∃ ev, p.news t = some ev ∧ ev.seq < n)
    (hentry : Unrecorded (s.processes id) (s'.processes id)) (hnews : p.wakes t = true ∨ p.news t = none)
    (hnotice : p'.exit.notice = p.exit.notice ∨ t = .exit ∧ ∃ ev, p.exit.notice = .due ev) :
    Watched s' id after notify n p' := by
  have hsilent {ev : ProcessEvent} (hev : p.news t = some ev) : ev.seq < n := by
    rcases hnews with hw | hnone
    · obtain ⟨ev', hev', hlt⟩ := hwakes hw
      obtain rfl := Option.some.inj (hev'.symm.trans hev)
      exact hlt
    · rw [hnone] at hev
      cases hev
  refine h.of_calm hset hid (fun u ev hev hle => ?_) (h.notice_quiet hwakes hnotice) hentry
  by_cases hu : u = t
  · subst hu
    exact absurd (hsilent hev) (Nat.not_lt.mpr hle)
  · exact (hother u hu).trans hev

/-- What is put into the entry is still to be notified, and behind all that is. -/
theorem Watched.of_records {e e' : RunningProcess} {ev : ProcessEvent} (hold : s.processes id = some (.running e))
    (hnew : s'.processes id = some (.running e')) (hbefore : p.news t = none) (hafter : p'.news t = some ev)
    (hseq : ev.seq = e.nextSeq) (hnotify : e'.outputNotify = e.outputNotify) (hnext : e'.nextSeq = e.nextSeq + 1)
    (houtput : ∀ c ∈ e'.output, c ∈ e.output ∨ c.seq = e.nextSeq)
    (hexit : (t ≠ .exit ∧ e'.exitCode = e.exitCode ∧ p'.exit.notice = p.exit.notice) ∨
      (t = .exit ∧ e'.exitCode.isSome = true ∧ p.exit.notice = .ahead ∧ p'.exit.notice = .due (some ev))) :
    Watched s' id after notify n p' := by
  obtain ⟨howner, hle⟩ := h.owner e hold
  have hunique {e₁ : RunningProcess} (he₁ : s'.processes id = some (.running e₁)) : e₁ = e' := by
    rw [hnew] at he₁
    cases he₁
    rfl
  exact {
    proc := hset
    sameId := hid.trans h.sameId
    given := by
      rcases hexit with ⟨-, -, hsame⟩ | ⟨-, -, -, hdue⟩
      · rw [hsame]
        exact h.given
      · rw [hdue]
        intro hgiven
        cases hgiven
    exitLater := fun ev' hev' => by
      rcases hexit with ⟨-, -, hsame⟩ | ⟨-, -, -, hdue⟩
      · exact h.exitLater ev' (hsame ▸ hev')
      · rw [hdue] at hev'
        obtain rfl := Option.some.inj (Notice.due.inj hev')
        omega
    owner := fun e₁ he₁ => by
      rw [hunique he₁]
      exact ⟨hnotify.trans howner, by omega⟩
    output := fun e₁ he₁ c hc hlt => by
      rw [hunique he₁] at hc
      rcases houtput c hc with hcold | hcseq
      · obtain ⟨hcle, u, ev', hev', hseq'⟩ := h.output e hold c hcold hlt
        have hu : u ≠ t := by
          rintro rfl
          rw [hbefore] at hev'
          cases hev'
        exact ⟨hcle, u, ev', (hother u hu).trans hev', hseq'⟩
      · exact ⟨hcseq ▸ hle, t, ev, hafter, hseq.trans hcseq.symm⟩
    exited := fun e₁ he₁ hsome => by
      rcases hexit with ⟨-, hcode, hsame⟩ | ⟨-, -, -, hdue⟩
      · rw [hsame]
        rw [hunique he₁, hcode] at hsome
        exact h.exited e hold hsome
      · rw [hdue]
        intro hahead
        cases hahead }

end OwnTask

theorem Watched.of_own_task (h : Watched s id after notify n p)
    (hproc : procStep (s.processes p.id) p ok t = some (entry', p'))
    (hwakes : p.wakes t = true → ∃ ev, p.news t = some ev ∧ ev.seq < n)
    (hprocs : s'.procs = s.procs.set notify p')
    (hentries : s'.processes = Function.update s.processes p.id entry') : Watched s' id after notify n p' := by
  have hset : s'.procs[notify]? = some p' := by
    rw [hprocs]
    exact Lists.getElem?_set_self_of_some h.proc
  have hid : p'.id = p.id := (procStep_effect hproc).id
  have hentry : s'.processes id = entry' := by rw [hentries, ← h.sameId, Function.update_self]
  have hother : ∀ u, u ≠ t → p'.news u = p.news u := fun u hu => procStep_news_of_ne hproc hu
  have htells := procStep_tells hproc
  rw [h.sameId, ← hentry] at htells
  generalize hold : s.processes id = entry at htells
  generalize hnew : s'.processes id = after at htells
  cases htells with
  | quiet hun hnews hnotice => exact h.of_quiet hset hid hother hwakes (by rwa [hold, hnew]) hnews hnotice
  | missed ht hnot hbefore hafter =>
    refine h.of_missed hset hid (fun e => ?_) hafter
    rw [hnew]
    exact hnot e
  | records hrecords hbefore hafter hseq hnotify hnext houtput hexit =>
    exact h.of_records hset hid hother hold hnew hbefore hafter hseq hnotify hnext houtput hexit

/-- A task of another process. -/
theorem Watched.of_other_task {i : ℕ} (h : Watched s id after notify n q) (hne : notify ≠ i)
    (hproc : procStep (s.processes p.id) p ok t = some (entry', p')) (hrecords : p.records t = true → id ≠ p.id)
    (hprocs : s'.procs = s.procs.set i p')
    (hentries : s'.processes = Function.update s.processes p.id entry') : Watched s' id after notify n q := by
  have hsame : s'.procs[notify]? = some q := by
    rw [hprocs, List.getElem?_set_ne (Ne.symm hne)]
    exact h.proc
  refine h.of_calm hsame rfl (fun _ _ hev _ => hev) rfl fun e' he' => ?_
  rw [hentries] at he'
  by_cases hid : id = p.id
  · rw [hid, Function.update_self] at he'
    have htells := procStep_tells hproc
    rw [← hid] at htells
    generalize hold : s.processes id = entry at htells
    cases htells with
    | quiet hun => exact hun e' he'
    | missed => exact ⟨e', he', .refl e'⟩
    | records hrec => exact absurd hid (hrecords hrec)
  · rw [Function.update_of_ne hid] at he'
    exact ⟨e', he', .refl e'⟩

/-! Steps of the agent -/

/-- What a step other than a task's leaves of the processes and of the table. -/
structure CalmStep (s s' : State) : Prop where
  procs : ∀ (j : ℕ) (q : Proc), s.procs[j]? = some q →
    ∃ q', s'.procs[j]? = some q' ∧ q'.id = q.id ∧ q'.news = q.news ∧ q'.exit.notice = q.exit.notice
  entries : ∀ id e, s'.processes id = some (.running e) → s.processes id = some (.running e)

theorem CalmStep.of_eq (hprocs : s'.procs = s.procs)
    (hentries : ∀ id e, s'.processes id = some (.running e) → s.processes id = some (.running e)) : CalmStep s s' :=
  ⟨fun _ q hj => ⟨q, hprocs ▸ hj, rfl, rfl, rfl⟩, hentries⟩

theorem CalmStep.of_set {i : ℕ} (hi : s.procs[i]? = some p) (hid : p'.id = p.id) (hnews : p'.news = p.news)
    (hnotice : p'.exit.notice = p.exit.notice) (hprocs : s'.procs = s.procs.set i p')
    (hentries : s'.processes = s.processes) : CalmStep s s' := by
  refine ⟨fun j q hj => ?_, fun id e he => hentries ▸ he⟩
  rw [hprocs, Lists.getElem?_set_of_some hi]
  split_ifs with hji
  · subst hji
    obtain rfl := Option.some.inj (hi.symm.trans hj)
    exact ⟨p', rfl, hid, hnews, hnotice⟩
  · exact ⟨q, hj, rfl, rfl, rfl⟩

theorem news_setOut_same {o : OutTask} (h : o.phase = (p.out side).phase) : (p.setOut side o).news = p.news := by
  funext u
  by_cases hu : u = .out side
  · subst hu
    rw [news_setOut_self, h]
    rfl
  · exact news_setOut_of_ne hu

theorem step_calm {a : Act} (hs : step s a = some s') (htask : ∀ i t ok, a ≠ .task i t ok) :
    CalmStep s s' ∨ ∃ k params, a = .spawned k ∧ s.spawning[k]? = some params ∧ s'.readers = s.readers ∧
      s'.procs = s.procs ++ [.new params.processId params.tty] ∧
      s'.processes = Function.update s.processes params.processId (some (.running (.new s.procs.length))) := by
  cases a with
  | task i t ok => exact absurd rfl (htask i t ok)
  | spawned k =>
    obtain ⟨params, hk, rfl⟩ := Option.map_eq_some_iff.mp hs
    exact Or.inr ⟨k, params, rfl, hk, rfl, rfl, rfl⟩
  | output i side chunk =>
    obtain ⟨p, hi, hs⟩ := Option.bind_eq_some_iff.mp hs
    dsimp only at hs
    split_ifs at hs
    cases hs
    refine Or.inl (.of_set hi ?_ (news_setOut_same ?_) (congrArg ExitPhase.notice setOut_exit) rfl rfl)
    · exact setOut_id
    · rfl
  | endOutput i side =>
    obtain ⟨p, hi, rfl⟩ := Option.map_eq_some_iff.mp hs
    refine Or.inl (.of_set hi ?_ (news_setOut_same ?_) (congrArg ExitPhase.notice setOut_exit) rfl rfl)
    · exact setOut_id
    · rfl
  | exits i code =>
    obtain ⟨p, hi, hs⟩ := Option.bind_eq_some_iff.mp hs
    split_ifs at hs with hwaiting
    cases hs
    have hnotice : ExitPhase.notice (.locking code) = p.exit.notice := by rw [hwaiting]; rfl
    refine Or.inl (.of_set hi ?_ (funext fun u => ?_) ?_ rfl rfl)
    · rfl
    · cases u with
      | out side => cases side <;> rfl
      | exit => exact congrArg Notice.news hnotice
    · exact hnotice
  | start params =>
    simp only [step] at hs
    split at hs
    · rename_i hstart
      cases hs
      rw [startProcess_ok hstart]
      refine Or.inl (.of_eq rfl fun id e he => ?_)
      by_cases hid : id = params.processId
      · simp [hid] at he
      · simpa [hid] using he
    · cases hs
      exact Or.inl (.of_eq rfl fun _ _ he => he)
  | spawnFailed k =>
    obtain ⟨params, -, rfl⟩ := Option.map_eq_some_iff.mp hs
    refine Or.inl (.of_eq rfl fun id e he => ?_)
    dsimp only at he
    split_ifs at he
    · by_cases hid : id = params.processId
      · simp [hid] at he
      · simpa [hid] using he
    · exact he
  | initialized =>
    cases hs
    split_ifs <;> exact Or.inl (.of_eq rfl fun _ _ he => he)
  | reader k =>
    obtain ⟨r, -, hs⟩ := Option.bind_eq_some_iff.mp hs
    obtain ⟨r', -, rfl⟩ := Option.map_eq_some_iff.mp hs
    exact Or.inl (.of_eq rfl fun _ _ he => he)
  | elapse k =>
    obtain ⟨r, -, rfl⟩ := Option.map_eq_some_iff.mp hs
    exact Or.inl (.of_eq rfl fun _ _ he => he)
  | initializeRequest | read params =>
    cases hs
    exact Or.inl (.of_eq rfl fun _ _ he => he)
  | shutdown =>
    cases hs
    exact Or.inl (.of_eq rfl fun _ _ he => by cases he)

/-- A step of a read: it looks at an entry with nothing for it, starts to wait, or is done. -/
theorem readStep_watch {r' : Reader} (h : readStep s r = some r') (hw : r'.watch = some (notify, n)) :
    r'.params = r.params ∧ ((∃ n', r.watch = some (notify, n') ∧ n ≤ n') ∨
      ∃ e, s.processes r.params.processId = some (.running e) ∧ notify = e.outputNotify ∧ n = e.nextSeq ∧
        e.exitCode = none ∧ ∀ c ∈ e.output, ¬ r.params.afterSeq.getD 0 < c.seq) := by
  unfold readStep at h
  cases hphase : r.phase with
  | locking =>
    simp only [hphase] at h
    split at h
    · cases h
      cases hw
    · cases h
      cases hw
    · rename_i e he
      cases h
      refine ⟨rfl, Or.inr ⟨e, he, ?_⟩⟩
      simp only [Reader.watch, Reader.window] at hw
      split_ifs at hw with hreturn
      obtain ⟨hchunks, hrest⟩ := not_or.mp hreturn
      have hnil : (readResponse r.params e).chunks = [] := not_not.mp hchunks
      have hnext : (readResponse r.params e).nextSeq = e.nextSeq := by rw [page_nextSeq, hnil]; rfl
      cases hw
      refine ⟨rfl, hnext, ?_, fun c hc hlt => ?_⟩
      · have hexited : e.exitCode.isSome ≠ true := (not_or.mp hrest).1
        rwa [ne_eq, Bool.not_eq_true, Option.isSome_eq_false_iff, Option.isNone_iff_eq_none] at hexited
      · have hmem := (mem_wanted r.params e).mpr ⟨hc, hlt⟩
        rw [(page_eq_nil_iff r.params e).mp hnil] at hmem
        cases hmem
  | checked response notify' =>
    simp only [hphase] at h
    split_ifs at h with hreturn
    · cases h
      cases hw
    · cases h
      cases hw
      refine ⟨rfl, Or.inl ⟨response.nextSeq, ?_, Nat.zero_le _⟩⟩
      simp only [Reader.watch, Reader.window, hphase, if_neg hreturn]
  | parked notify' =>
    simp only [hphase] at h
    cases h
  | returned result =>
    simp only [hphase] at h
    cases h

/-- A read of the new state that waits did so before, or has just looked at its entry. -/
theorem readers_step {a : Act} (hs : step s a = some s') (htask : ∀ i t ok, a ≠ .task i t ok) (hr : r ∈ s'.readers)
    (hw : r.watch = some (notify, n)) :
    (∃ r₀ ∈ s.readers, r₀.params = r.params ∧ ∃ n', r₀.watch = some (notify, n') ∧ n ≤ n') ∨
      (s'.processes = s.processes ∧ s'.procs = s.procs ∧
        ∃ e, s.processes r.params.processId = some (.running e) ∧ notify = e.outputNotify ∧ n = e.nextSeq ∧
          e.exitCode = none ∧ ∀ c ∈ e.output, ¬ r.params.afterSeq.getD 0 < c.seq) := by
  have hold (hmem : r ∈ s.readers) :
      ∃ r₀ ∈ s.readers, r₀.params = r.params ∧ ∃ n', r₀.watch = some (notify, n') ∧ n ≤ n' :=
    ⟨r, hmem, rfl, n, hw, Nat.le_refl n⟩
  cases a with
  | task i t ok => exact absurd rfl (htask i t ok)
  | read params =>
    cases hs
    rcases List.mem_append.mp hr with hmem | hnew
    · exact Or.inl (hold hmem)
    · -- a new read has not looked
      obtain rfl := List.mem_singleton.mp hnew
      cases hinit : requireInitializedFor "exec" s <;>
      · simp only [Reader.watch, Reader.window, hinit] at hw
        cases hw
  | reader k =>
    obtain ⟨r₀, hk, hs⟩ := Option.bind_eq_some_iff.mp hs
    obtain ⟨r', hstep, rfl⟩ := Option.map_eq_some_iff.mp hs
    rcases List.mem_or_eq_of_mem_set hr with hmem | rfl
    · exact Or.inl (hold hmem)
    · obtain ⟨hparams, hwatch | hlook⟩ := readStep_watch hstep hw
      · exact Or.inl ⟨r₀, List.mem_of_getElem? hk, hparams.symm, hwatch⟩
      · rw [hparams]
        exact Or.inr ⟨rfl, rfl, hlook⟩
  | elapse k =>
    obtain ⟨r₀, hk, rfl⟩ := Option.map_eq_some_iff.mp hs
    rcases List.mem_or_eq_of_mem_set hr with hmem | rfl
    · exact Or.inl (hold hmem)
    · -- past its deadline a read does not wait
      simp only [Reader.watch, Reader.window, Reader.elapse] at hw
      cases hphase : r₀.phase with
      | parked notify' => simp [hphase] at hw
      | _ => simp [hphase] at hw
  | start params =>
    simp only [step] at hs
    split at hs
    · rename_i hstart
      cases hs
      rw [startProcess_ok hstart] at hr
      exact Or.inl (hold hr)
    · cases hs
      exact Or.inl (hold hr)
  | spawned k | spawnFailed k | endOutput i side =>
    obtain ⟨_, -, rfl⟩ := Option.map_eq_some_iff.mp hs
    exact Or.inl (hold hr)
  | output i side chunk =>
    obtain ⟨p, -, hs⟩ := Option.bind_eq_some_iff.mp hs
    dsimp only at hs
    split_ifs at hs
    cases hs
    exact Or.inl (hold hr)
  | exits i code =>
    obtain ⟨p, -, hs⟩ := Option.bind_eq_some_iff.mp hs
    split_ifs at hs
    cases hs
    exact Or.inl (hold hr)
  | initialized =>
    cases hs
    refine Or.inl (hold ?_)
    split_ifs at hr <;> exact hr
  | initializeRequest | shutdown =>
    cases hs
    exact Or.inl (hold hr)

theorem watched_look {q : Proc} (hq : s.procs[e.outputNotify]? = some q) (hid : q.id = id)
    (hahead : q.exit.notice = .ahead) (he : s.processes id = some (.running e)) (hexit : e.exitCode = none)
    (hnone : ∀ c ∈ e.output, ¬ after < c.seq) : Watched s id after e.outputNotify e.nextSeq q := by
  have hsame {e₁ : RunningProcess} (he₁ : s.processes id = some (.running e₁)) : e₁ = e := by
    rw [he] at he₁
    cases he₁
    rfl
  exact {
    proc := hq
    sameId := hid
    given := by rw [hahead]; nofun
    exitLater := fun ev hev => by rw [hahead] at hev; cases hev
    owner := fun e₁ he₁ => by rw [hsame he₁]; exact ⟨rfl, Nat.le_refl _⟩
    output := fun e₁ he₁ c hc hlt => by
      rw [hsame he₁] at hc
      exact absurd hlt (hnone c hc)
    exited := fun e₁ he₁ hsome => by
      rw [hsame he₁, hexit] at hsome
      cases hsome }

theorem wakeInv_calm {a : Act} (h : WakeInv s) (hs : step s a = some s') (htask : ∀ i t ok, a ≠ .task i t ok)
    (hheard : heard s a = true) : WakeInv s' := by
  have hwatched (hkeep : ∀ r ∈ s.readers, ∀ notify n q, r.watch = some (notify, n) →
      Watched s r.params.processId (r.params.afterSeq.getD 0) notify n q →
      ∃ q', Watched s' r.params.processId (r.params.afterSeq.getD 0) notify n q') :
      ∀ r ∈ s'.readers, ∀ notify n, r.watch = some (notify, n) →
        ∃ q, Watched s' r.params.processId (r.params.afterSeq.getD 0) notify n q := by
    intro r hr notify n hw
    rcases readers_step hs htask hr hw with
      ⟨r₀, hr₀, hparams, n', hw₀, hle⟩ | ⟨hentries, hprocs, e, he, rfl, rfl, hexit, hnone⟩
    · obtain ⟨q, hq⟩ := h.watched r₀ hr₀ notify n' hw₀
      obtain ⟨q', hq'⟩ := hkeep r₀ hr₀ notify n' q hw₀ hq
      rw [hparams] at hq'
      exact ⟨q', hq'.mono hle⟩
    · obtain ⟨q, hq, hid, hahead⟩ := h.owner _ e he
      exact ⟨q, watched_look (hprocs ▸ hq) hid (hahead hexit) (hentries ▸ he) hexit hnone⟩
  rcases step_calm hs htask with hcalm | ⟨k, params, rfl, hk, hreaders, hprocs, hentries⟩
  · refine ⟨fun id e he => ?_, hwatched fun r hr notify n q _ hq => ?_⟩
    · obtain ⟨q, hq, hid, hahead⟩ := h.owner id e (hcalm.entries id e he)
      obtain ⟨q', hq', hid', -, hnotice⟩ := hcalm.procs _ q hq
      exact ⟨q', hq', hid'.trans hid, fun hexit => hnotice.trans (hahead hexit)⟩
    · obtain ⟨q', hq', hid', hnews, hnotice⟩ := hcalm.procs _ q hq.proc
      exact ⟨q', hq.of_calm hq' hid' (fun t ev hev _ => hnews ▸ hev) hnotice
        fun e he => ⟨e, hcalm.entries _ e he, .refl e⟩⟩
  · have hold {j : ℕ} {q : Proc} (hj : s.procs[j]? = some q) : s'.procs[j]? = some q := by
      rw [hprocs]
      exact Lists.getElem?_append_of_some hj _
    refine ⟨fun id e he => ?_, hwatched fun r hr notify n q hw hq => ?_⟩
    · rw [hentries] at he
      by_cases hid : id = params.processId
      · rw [hid, Function.update_self] at he
        cases he
        exact ⟨_, by rw [hprocs]; exact List.getElem?_concat_length, hid.symm, fun _ => rfl⟩
      · rw [Function.update_of_ne hid] at he
        obtain ⟨q, hq, hqid, hahead⟩ := h.owner id e he
        exact ⟨q, hold hq, hqid, hahead⟩
    · refine ⟨q, hq.of_calm (hold hq.proc) rfl (fun _ _ hev _ => hev) rfl fun e he => ?_⟩
      -- the id of a read that waits is not used again
      have hid : r.params.processId ≠ params.processId := by
        intro heq
        simp only [heard, hk, Option.all_some, List.all_eq_true] at hheard
        have hnone := hheard r hr
        simp [heq, hw] at hnone
      rw [hentries, Function.update_of_ne hid] at he
      exact ⟨e, he, .refl e⟩

theorem wake_watch {r₀ : Reader} {i : ℕ} (h : (r₀.wake i).watch = some (notify, n)) :
    r₀.wake i = r₀ ∧ r₀.phase ≠ .parked i := by
  unfold Reader.wake at h ⊢
  split_ifs at h ⊢ with hparked
  · cases h
  · exact ⟨rfl, hparked⟩

/-- Who is not woken by a notification is before its wait. -/
theorem window_of_watch {i : ℕ} (hw : r.watch = some (i, n)) (hne : r.phase ≠ .parked i) : r.window = some (i, n) := by
  unfold Reader.watch at hw
  split at hw
  · rename_i notify' hparked
    cases hw
    exact absurd hparked hne
  · exact hw

theorem wakeInv_task {i : ℕ} (h : WakeInv s) (hs : step s (.task i t ok) = some s')
    (hheard : heard s (.task i t ok) = true) : WakeInv s' := by
  obtain ⟨p, hi, hs⟩ := Option.bind_eq_some_iff.mp hs
  obtain ⟨⟨entry', p'⟩, hproc, rfl⟩ := Option.map_eq_some_iff.mp hs
  have hid : p'.id = p.id := (procStep_effect hproc).id
  simp only [heard, hi, Option.all_some, List.all_eq_true] at hheard
  refine ⟨fun id e' he' => ?_, fun r hr notify n hw => ?_⟩
  · dsimp only at he' ⊢
    by_cases heq : id = p.id
    · subst heq
      rw [Function.update_self] at he'
      have htells := procStep_tells hproc
      generalize hold : s.processes p.id = entry at htells
      -- the step's own process may be another one than the owner of the entry it finds
      have hkeep {e : RunningProcess} (he : s.processes p.id = some (.running e))
        (hnotify : e'.outputNotify = e.outputNotify)
          (hexit : e'.exitCode = none → e.exitCode = none ∧ (p.exit.notice = .ahead → p'.exit.notice = .ahead)) :
          ∃ q, (s.procs.set i p')[e'.outputNotify]? = some q ∧ q.id = p.id ∧ (e'.exitCode = none →
            q.exit.notice = .ahead) := by
        obtain ⟨q, hq, hqid, hahead⟩ := h.owner p.id e he
        rw [hnotify, Lists.getElem?_set_of_some hi]
        split_ifs with hown
        · rw [hown, hi] at hq
          obtain rfl := Option.some.inj hq
          exact ⟨p', rfl, hid, fun hnone => (hexit hnone).2 (hahead (hexit hnone).1)⟩
        · exact ⟨q, hq, hqid, fun hnone => hahead (hexit hnone).1⟩
      cases htells with
      | quiet hun hnews hnotice =>
        obtain ⟨e, he, hsame⟩ := hun e' he'
        refine hkeep (hold.trans he) hsame.notify fun hnone => ⟨hsame.exitCode ▸ hnone, fun hahead => ?_⟩
        rcases hnotice with hnotice | ⟨-, ev, hdue⟩
        · exact hnotice.trans hahead
        · rw [hdue] at hahead
          cases hahead
      | missed ht hnot => exact absurd he' (hnot e')
      | records hrec hbefore hafter hseq hnotify hnext houtput hexit =>
        cases he'
        refine hkeep hold hnotify fun hnone => ?_
        rcases hexit with ⟨-, hcode, hnotice⟩ | ⟨-, hsome, -, -⟩
        · exact ⟨hcode ▸ hnone, fun hahead => hnotice.trans hahead⟩
        · rw [hnone] at hsome
          cases hsome
    · rw [Function.update_of_ne heq] at he'
      obtain ⟨q, hq, hqid, hahead⟩ := h.owner id e' he'
      rw [Lists.getElem?_set_of_some hi]
      split_ifs with hown
      · rw [hown, hi] at hq
        obtain rfl := Option.some.inj hq
        exact absurd hqid.symm heq
      · exact ⟨q, hq, hqid, hahead⟩
  · obtain ⟨hr₀, hwoken⟩ : r ∈ s.readers ∧ (p.wakes t = true → r.phase ≠ .parked i) := by
      dsimp only at hr
      split_ifs at hr with hwakes
      · obtain ⟨r₀, hr₀, rfl⟩ := List.mem_map.mp hr
        obtain ⟨hsame, hne⟩ := wake_watch hw
        rw [hsame]
        exact ⟨hr₀, fun _ => hne⟩
      · exact ⟨hr, fun htrue => absurd htrue hwakes⟩
    obtain ⟨q, hq⟩ := h.watched r hr₀ notify n hw
    have hcond := hheard r hr₀
    rw [Bool.and_eq_true] at hcond
    by_cases hown : notify = i
    · subst hown
      obtain rfl := Option.some.inj (hi.symm.trans hq.proc)
      refine ⟨p', hq.of_own_task hproc (fun hwakes => ?_) rfl rfl⟩
      have hwindow := window_of_watch hw (hwoken hwakes)
      have hany : (p.news t).any (fun ev => ev.seq < n) = true := by simpa [hwakes, hwindow] using hcond.1
      cases hnews : p.news t with
      | none =>
        rw [hnews] at hany
        cases hany
      | some ev =>
        rw [hnews, Option.any_some, decide_eq_true_eq] at hany
        exact ⟨ev, rfl, hany⟩
    · refine ⟨q, hq.of_other_task hown hproc (fun hrecords heq => ?_) rfl rfl⟩
      have hrest := hcond.2
      simp [hrecords, heq, hw, hown] at hrest

theorem wakeInv_step {a : Act} (h : WakeInv s) (hheard : heard s a = true) (hs : step s a = some s') : WakeInv s' := by
  by_cases htask : ∀ i t ok, a ≠ .task i t ok
  · exact wakeInv_calm h hs htask hheard
  · obtain ⟨i, t, ok, rfl⟩ : ∃ i t ok, a = .task i t ok := by
      by_contra hnone
      exact htask fun i t ok heq => hnone ⟨i, t, ok, heq⟩
    exact wakeInv_task h hs hheard

/-- In every run in which the notification of an event never falls between a read's look at the table
before it and the start of its wait, no read sleeps on output or on an exit. -/
theorem no_read_asleep_when_heard (acts : List Act) (s : State)
    (hheard : RunOk step (fun s a => heard s a = true) init acts) (hrun : run step init acts = some s) :
    ∀ r ∈ s.readers, ¬ Asleep s r := by
  have hinv : WakeInv s := run_inv WakeInv (fun _ _ _ h hc hs => wakeInv_step h hc hs) wakeInv_init hheard hrun
  intro r hr hasleep
  obtain ⟨notify, p, hparked, -⟩ := id hasleep
  have hw : r.watch = some (notify, 0) := by simp only [Reader.watch, hparked]
  obtain ⟨q, hq⟩ := hinv.watched r hr notify 0 hw
  exact hq.not_asleep hparked hasleep

/-- A read waits before the output comes, and is notified of it. -/
def heardRun : List Act :=
  [.initializeRequest, .initialized, .start ⟨"job", ["sh"], false⟩, .spawned 0,
    .read ⟨"job", none, none, some 1000⟩, .reader 0, .reader 0,
    .output 0 .stdout [104], .task 0 (.out .stdout) true, .task 0 (.out .stdout) true]

/-- The output comes in after the read's look, and its notification before the read's wait. -/
def lostRun : List Act :=
  [.initializeRequest, .initialized, .start ⟨"job", ["sh"], false⟩, .spawned 0,
    .read ⟨"job", none, none, some 1000⟩, .reader 0,
    .output 0 .stdout [104], .task 0 (.out .stdout) true, .task 0 (.out .stdout) true, .task 0 (.out .stdout) true,
    .reader 0]

theorem awake_in_heardRun :
    ∃ s, run step init heardRun = some s ∧ s.readers = [⟨⟨"job", none, none, some 1000⟩, false, .parked 0⟩] ∧
      ∀ r ∈ s.readers, ¬ Asleep s r := by
  obtain ⟨s, hs, hreaders⟩ : ∃ s, run step init heardRun = some s ∧
      s.readers = [⟨⟨"job", none, none, some 1000⟩, false, .parked 0⟩] := ⟨_, rfl, rfl⟩
  exact ⟨s, hs, hreaders, no_read_asleep_when_heard heardRun s (by decide) hs⟩

theorem asleep_in_lostRun :
    ∃ s, run step init lostRun = some s ∧ ∃ r ∈ s.readers, Asleep s r := by
  obtain ⟨s, p, e, hs, hreaders, hp, he, houtput, hnews⟩ : ∃ s p e, run step init lostRun = some s ∧
      s.readers = [⟨⟨"job", none, none, some 1000⟩, false, .parked 0⟩] ∧ s.procs[0]? = some p ∧
      s.processes "job" = some (.running e) ∧ e.output = [⟨1, .stdout, [104]⟩] ∧
      p.news (.out .stdout) = none ∧ p.news (.out .stderr) = none ∧ p.news .exit = none :=
    ⟨_, _, _, rfl, rfl, rfl, rfl, rfl, rfl, rfl, rfl⟩
  refine ⟨s, hs, _, by rw [hreaders]; exact List.mem_singleton_self _, 0, p, rfl, hp, Or.inr ⟨e, he, Or.inl ?_⟩⟩
  refine ⟨⟨1, .stdout, [104]⟩, by rw [houtput]; exact List.mem_singleton_self _, by decide, fun t ev hev => ?_⟩
  obtain ⟨hout, herr, hexit⟩ := hnews
  cases t with
  | out side =>
    cases side with
    | stdout =>
      rw [hout] at hev
      cases hev
    | stderr =>
      rw [herr] at hev
      cases hev
  | exit =>
    rw [hexit] at hev
    cases hev

end Nexal.LocalProcess
