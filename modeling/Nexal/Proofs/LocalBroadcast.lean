import Nexal.Proofs.LocalEntry
import Nexal.Proofs.LocalReuse

/-! The order of the event broadcast. A task takes the seq of its event under the lock of the table, but sends the
event two awaits later; the events of a process keep their order where none is overtaken on the way. -/

namespace Nexal.LocalProcess

open Runs

def InOrder (p : Proc) : Prop := (p.broadcast.Pairwise fun a b => a.seq < b.seq) ∧ ClosedLast p.broadcast

/-- The task's next step is under the lock of the table, on the entry of its process. -/
def Proc.locks (p : Proc) : TaskId → Bool
  | .out side => match (p.out side).phase with
    | .locking _ | .finishing | .closing .check => true
    | _ => false
  | .exit => match p.exit with
    | .locking _ | .closing _ .check => true
    | _ => false

def Proc.sending (p : Proc) : TaskId → Option ProcessEvent
  | .out side => match (p.out side).phase with
    | .sending ev | .closing (.sending ev) => some ev
    | _ => none
  | .exit => match p.exit with
    | .sending _ ev => ev
    | .closing _ (.sending ev) => some ev
    | _ => none

def Proc.heldBeside (p : Proc) : TaskId → Multiset ProcessEvent
  | .out .stdout => p.stderr.phase.held + p.exit.held
  | .out .stderr => p.stdout.phase.held + p.exit.held
  | .exit => p.stdout.phase.held + p.stderr.phase.held

/-- A task that takes the lock finds no entry of another process under its id, and one that sends an event sends it
before every event that another task of its process holds. -/
def sentInTurn (s : State) : Act → Bool
  | .task i t _ => (s.procs[i]?).all fun p =>
    (!p.locks t || match s.processes p.id with
      | some (.running e) => e.outputNotify = i
      | _ => true) &&
    (p.sending t).all fun ev => decide (∀ x ∈ p.heldBeside t, ev.seq < x.seq)
  | _ => true

def Proc.held (p : Proc) : Multiset ProcessEvent := p.stdout.phase.held + p.stderr.phase.held + p.exit.held

variable {s s' : State} {p p' : Proc} {entry entry' : Option ProcessEntry} {side : Side} {ok : Bool} {ev : ProcessEvent}

theorem flight_eq (p : Proc) : p.flight = ↑p.broadcast + p.held := by
  unfold Proc.flight Proc.held
  abel

/-! The steps of the tasks -/

inductive Sends (entry : Option ProcessEntry) (p : Proc) (t : TaskId) (entry' : Option ProcessEntry) (p' : Proc) : Prop where
  | locked (hlocks : p.locks t = true) (hbroadcast : p'.broadcast = p.broadcast)
  | moved (hentry : entry' = entry ∨ entry' = none) (hbroadcast : p'.broadcast = p.broadcast)
  | sent (ev : ProcessEvent) (hsending : p.sending t = some ev) (hentry : entry' = entry)
    (hbroadcast : p'.broadcast = p.broadcast ++ [ev]) (hheld : p'.held = p.heldBeside t) (hev : ev ∈ p.held)

@[simp] theorem setOut_broadcast {t : OutTask} : (p.setOut side t).broadcast = p.broadcast := by cases side <;> rfl

theorem held_setOut {t : OutTask} (h : t.phase.held = 0) : (p.setOut side t).held = p.heldBeside (.out side) := by
  cases side with
  | stdout => simp [Proc.held, Proc.heldBeside, Proc.setOut, h]
  | stderr => simp [Proc.held, Proc.heldBeside, Proc.setOut, h]

theorem mem_held_out (h : (p.out side).phase.held = {ev}) : ev ∈ p.held := by
  cases side with
  | stdout =>
    have hout : p.stdout.phase.held = {ev} := h
    simp [Proc.held, hout]
  | stderr =>
    have hout : p.stderr.phase.held = {ev} := h
    simp [Proc.held, hout]

/-- Nothing is sent under the lock. -/
theorem closeStep_check {c : Option Closing} (h : closeStep entry p .check = (c, entry', p')) :
    p'.broadcast = p.broadcast ∧ p'.id = p.id := by
  rcases closeStep_cases h with ⟨-, -, rfl⟩ | ⟨ev, -, hheld, -, -⟩ | ⟨e, e', ev, -, -, -, -, rfl⟩
  · exact ⟨rfl, rfl⟩
  · cases (Multiset.singleton_ne_zero ev hheld.symm)
  · exact ⟨rfl, rfl⟩

theorem outStep_sends (h : outStep entry p side ok = some (entry', p')) : Sends entry p (.out side) entry' p' := by
  unfold outStep at h
  dsimp only at h
  cases hphase : (p.out side).phase with
  | receiving =>
    simp only [hphase] at h
    split at h
    · cases h
      exact .moved (Or.inl rfl) setOut_broadcast
    · split_ifs at h
      cases h
      exact .moved (Or.inl rfl) setOut_broadcast
  | locking chunk =>
    have hlocks : p.locks (.out side) = true := by rw [Proc.locks, hphase]
    simp only [hphase] at h
    split at h
    · cases h
      exact .locked hlocks setOut_broadcast
    · cases h
      exact .locked hlocks setOut_broadcast
  | waking ev | notifying ev =>
    simp only [hphase] at h
    cases h
    exact .moved (Or.inl rfl) setOut_broadcast
  | sending ev =>
    simp only [hphase] at h
    cases h
    refine .sent ev (by rw [Proc.sending, hphase]) rfl ?_ (held_setOut rfl) (mem_held_out (by rw [hphase]; rfl))
    rw [Proc.send, setOut_broadcast]
  | finishing =>
    have hlocks : p.locks (.out side) = true := by rw [Proc.locks, hphase]
    simp only [hphase] at h
    split at h
    · cases h
      exact .locked hlocks setOut_broadcast
    · cases h
      exact .locked hlocks setOut_broadcast
  | closing c =>
    simp only [hphase] at h
    cases c with
    | check =>
      have hlocks : p.locks (.out side) = true := by rw [Proc.locks, hphase]
      rcases hclose : closeStep entry p .check with ⟨c', entry₁, p₁⟩
      rw [hclose] at h
      have hsame := closeStep_check hclose
      cases c' with
      | none =>
        cases h
        exact .locked hlocks (setOut_broadcast.trans hsame.1)
      | some c' =>
        cases h
        exact .locked hlocks (setOut_broadcast.trans hsame.1)
    | notifying ev =>
      cases h
      exact .moved (Or.inl rfl) setOut_broadcast
    | sending ev =>
      cases h
      refine .sent ev (by rw [Proc.sending, hphase]) rfl ?_ ?_ (mem_held_out (by rw [hphase]; rfl))
      · rw [setOut_send, Proc.send, setOut_broadcast]
      · rw [setOut_send]
        exact held_setOut rfl
  | done =>
    simp only [hphase] at h
    cases h

theorem exitStep_sends (h : exitStep entry p ok = some (entry', p')) : Sends entry p .exit entry' p' := by
  have hheld {x : ExitPhase} (hx : x.held = 0) : { p with exit := x }.held = p.heldBeside .exit := by
    simp [Proc.held, Proc.heldBeside, hx]
  have hmem {ev : ProcessEvent} (hx : p.exit.held = {ev}) : ev ∈ p.held := by simp [Proc.held, hx]
  unfold exitStep at h
  cases hphase : p.exit with
  | waiting =>
    simp only [hphase] at h
    cases h
  | locking code =>
    have hlocks : p.locks .exit = true := by rw [Proc.locks, hphase]
    simp only [hphase] at h
    split at h
    · cases h
      exact .locked hlocks rfl
    · cases h
      exact .locked hlocks rfl
  | waking code ev | notifying code ev =>
    simp only [hphase] at h
    cases h
    exact .moved (Or.inl rfl) rfl
  | sending code ev =>
    cases ev with
    | none =>
      simp only [hphase] at h
      cases h
      exact .moved (Or.inl rfl) rfl
    | some ev =>
      simp only [hphase] at h
      cases h
      exact .sent ev (by rw [Proc.sending, hphase]) rfl rfl (hheld rfl) (hmem (by rw [hphase]; rfl))
  | closing code c =>
    simp only [hphase] at h
    cases c with
    | check =>
      have hlocks : p.locks .exit = true := by rw [Proc.locks, hphase]
      rcases hclose : closeStep entry p .check with ⟨c', entry₁, p₁⟩
      rw [hclose] at h
      have hsame := closeStep_check hclose
      cases c' with
      | none =>
        cases h
        exact .locked hlocks hsame.1
      | some c' =>
        cases h
        exact .locked hlocks hsame.1
    | notifying ev =>
      cases h
      exact .moved (Or.inl rfl) rfl
    | sending ev =>
      cases h
      exact .sent ev (by rw [Proc.sending, hphase]) rfl rfl (hheld rfl) (hmem (by rw [hphase]; rfl))
  | sleeping code =>
    simp only [hphase] at h
    split at h
    · cases h
      split_ifs
      · exact .moved (Or.inr rfl) rfl
      · exact .moved (Or.inl rfl) rfl
    · cases h
      exact .moved (Or.inl rfl) rfl
  | done =>
    simp only [hphase] at h
    cases h

theorem procStep_sends {t : TaskId} (h : procStep entry p ok t = some (entry', p')) : Sends entry p t entry' p' := by
  cases t with
  | out side => exact outStep_sends h
  | exit => exact exitStep_sends h

/-- Only under the lock an event is made. -/
theorem Effect.makes_nil (h : Effect entry p entry' p') (hentry : entry' = entry ∨ entry' = none) : Makes [] p p' := by
  cases h with
  | quiet hm | finish hm | remove hm => exact hm
  | append hm | exit hm =>
    rcases hentry with heq | heq
    · have hseq := congrArg RunningProcess.nextSeq (ProcessEntry.running.inj (Option.some.inj heq))
      exact absurd hseq (Nat.succ_ne_self _)
    · cases heq
  | close hclose hm =>
    obtain ⟨-, -, -, rfl, -⟩ := maybeEmitClosed_eq hclose
    rcases hentry with heq | heq
    · have hseq := congrArg RunningProcess.nextSeq (ProcessEntry.running.inj (Option.some.inj heq))
      exact absurd hseq (Nat.succ_ne_self _)
    · cases heq

/-! What runs keep -/

/-- What is still to be sent comes after what has been sent. -/
structure Turned (p : Proc) : Prop where
  sent : p.broadcast.Pairwise fun a b => a.seq < b.seq
  held : ∀ x ∈ p.held, ∀ y ∈ p.broadcast, y.seq < x.seq

theorem Turned.of_eq (h : Turned p) (hbroadcast : p'.broadcast = p.broadcast) (hheld : p'.held = p.held) : Turned p' :=
  ⟨hbroadcast ▸ h.sent, fun x hx y hy => h.held x (hheld ▸ hx) y (hbroadcast ▸ hy)⟩

theorem mem_issued_of_broadcast (h : EventsOk p) (hev : ev ∈ p.broadcast) : ev ∈ p.issued := by
  refine h.made ev ?_
  rw [flight_eq]
  exact Multiset.mem_add.mpr (Or.inl (Multiset.mem_coe.mpr hev))

/-- A new event comes after all that was made before. -/
theorem Turned.makes {evs : List ProcessEvent} (h : Turned p) (hok : EventsOk p) (hok' : EventsOk p') (hm : Makes evs p p')
    (hbroadcast : p'.broadcast = p.broadcast) : Turned p' := by
  refine ⟨hbroadcast ▸ h.sent, fun x hx y hy => ?_⟩
  rw [hbroadcast] at hy
  have hle : p'.held ≤ p.held + ↑evs := by
    have hflight := hm.flight
    rw [flight_eq, flight_eq, hbroadcast, add_assoc] at hflight
    exact le_of_add_le_add_left hflight
  rcases Multiset.mem_add.mp (Multiset.mem_of_le hle hx) with hold | hnew
  · exact h.held x hold y hy
  · have hordered := hok'.ordered
    rw [hm.issued] at hordered
    exact (List.pairwise_append.mp hordered).2.2 y (mem_issued_of_broadcast hok hy) x (Multiset.mem_coe.mp hnew)

theorem heldBeside_le (p : Proc) (t : TaskId) : p.heldBeside t ≤ p.held := by
  cases t with
  | out side =>
    cases side with
    | stdout =>
      rw [Proc.held, add_assoc]
      exact Multiset.le_add_left _ _
    | stderr => exact add_le_add_left (Multiset.le_add_right _ _) _
  | exit => exact Multiset.le_add_right _ _

theorem Turned.sends (h : Turned p) {t : TaskId} (hturn : ∀ x ∈ p.heldBeside t, ev.seq < x.seq)
    (hbroadcast : p'.broadcast = p.broadcast ++ [ev]) (hheld : p'.held = p.heldBeside t) (hev : ev ∈ p.held) :
    Turned p' := by
  refine ⟨?_, fun x hx y hy => ?_⟩
  · rw [hbroadcast]
    refine List.pairwise_append.mpr ⟨h.sent, List.pairwise_singleton _ _, fun y hy x hx => ?_⟩
    rw [List.mem_singleton.mp hx]
    exact h.held ev hev y hy
  · rw [hheld] at hx
    rw [hbroadcast] at hy
    rcases List.mem_append.mp hy with hold | hnew
    · exact h.held x (Multiset.mem_of_le (heldBeside_le p t) hx) y hold
    · rw [List.mem_singleton.mp hnew]
      exact hturn x hx

structure ProcOk (s : State) (i : ℕ) (p : Proc) : Prop where
  events : EventsOk p
  entry : ∀ e, s.processes p.id = some (.running e) → e.outputNotify = i → EntryOk e p
  turned : Turned p

def OrderInv (s : State) : Prop := ∀ (i : ℕ) (p : Proc), s.procs[i]? = some p → ProcOk s i p

/-- The process is as it was, or something has come for its tasks. -/
structure Still (p p' : Proc) : Prop where
  makes : Makes [] p p'
  openTasks : p'.openTasks = p.openTasks
  recorded : p'.exit.recorded = p.exit.recorded
  broadcast : p'.broadcast = p.broadcast
  held : p'.held = p.held

theorem Still.refl (p : Proc) : Still p p := ⟨⟨rfl, by simp, by simp⟩, rfl, rfl, rfl, rfl⟩

theorem ProcOk.still {i : ℕ} (h : ProcOk s i p) (hstill : Still p p')
    (hentries : ∀ e, s'.processes p.id = some (.running e) → e.outputNotify = i →
      s.processes p.id = some (.running e)) :
    ProcOk s' i p' := by
  refine ⟨h.events.quiet hstill.makes, fun e he hown => ?_, h.turned.of_eq hstill.broadcast hstill.held⟩
  rw [hstill.makes.id] at he
  exact (h.entry e (hentries e he hown) hown).quiet hstill.makes hstill.openTasks hstill.recorded

theorem orderInv_same (h : OrderInv s) (hprocs : s'.procs = s.procs)
    (hentries : ∀ id e, s'.processes id = some (.running e) → s.processes id = some (.running e)) : OrderInv s' := by
  intro i p hi
  rw [hprocs] at hi
  exact (h i p hi).still (Still.refl p) fun e he _ => hentries p.id e he

theorem orderInv_set {i : ℕ} (h : OrderInv s) (hi : s.procs[i]? = some p) (hstill : Still p p')
    (hprocs : s'.procs = s.procs.set i p') (hentries : s'.processes = s.processes) : OrderInv s' := by
  intro j q hj
  rw [hprocs] at hj
  rcases Lists.getElem?_set_cases hj with ⟨rfl, rfl⟩ | ⟨-, hold⟩
  · exact (h _ p hi).still hstill fun e he _ => hentries ▸ he
  · exact (h j q hold).still (Still.refl q) fun e he _ => hentries ▸ he

theorem orderInv_spawned {params : ExecParams} (h : OrderInv s)
    (hprocs : s'.procs = s.procs ++ [.new params.processId params.tty])
    (hentries : s'.processes =
      Function.update s.processes params.processId (some (.running (.new s.procs.length)))) : OrderInv s' := by
  intro j q hj
  rw [hprocs, Lists.getElem?_concat] at hj
  split_ifs at hj with hlast
  · cases hj
    obtain ⟨hevents, hentry⟩ := localInv_new params.processId params.tty s.procs.length
    refine ⟨hevents, fun e he _ => hentry e ?_, ⟨List.Pairwise.nil, fun x hx y hy => by cases hy⟩⟩
    have hnew : s'.processes params.processId = some (.running (.new s.procs.length)) := by
      rw [hentries, Function.update_self]
    exact hnew.symm.trans he
  · refine (h j q hj).still (Still.refl q) fun e he hown => ?_
    rw [hentries] at he
    by_cases hid : q.id = params.processId
    · rw [hid, Function.update_self] at he
      cases he
      exact absurd hown.symm hlast
    · rwa [Function.update_of_ne hid] at he

theorem Effect.makes (h : Effect entry p entry' p') : ∃ evs, Makes evs p p' := by
  cases h with
  | quiet hm | append hm | finish hm | exit hm | close _ hm | remove hm => exact ⟨_, hm⟩

/-- A task works on the entry of its own process, or leaves the one it finds as it is. -/
theorem entry_own {i : ℕ} {t : TaskId} (hown : p.locks t = true →
      ∀ e, entry = some (.running e) → e.outputNotify = i)
    (hproc : procStep entry p ok t = some (entry', p')) :
    (∃ e, entry = some (.running e) ∧ e.outputNotify = i) ∨ entry' = entry ∨ entry' = none := by
  cases procStep_sends hproc with
  | locked hlocks hbroadcast =>
    cases procStep_effect hproc with
    | quiet hm => exact Or.inr (Or.inl rfl)
    | append hm | finish hm | exit hm | close _ hm => exact Or.inl ⟨_, rfl, hown hlocks _ rfl⟩
    | remove hm => exact Or.inr (Or.inr rfl)
  | moved hentry hbroadcast => exact Or.inr hentry
  | sent ev hsending hentry => exact Or.inr (Or.inl hentry)

theorem orderInv_task {i : ℕ} {t : TaskId} (h : OrderInv s) (hi : s.procs[i]? = some p)
    (hproc : procStep (s.processes p.id) p ok t = some (entry', p'))
    (hown : p.locks t = true → ∀ e, s.processes p.id = some (.running e) → e.outputNotify = i)
    (hturn : ∀ ev, p.sending t = some ev → ∀ x ∈ p.heldBeside t, ev.seq < x.seq)
    (hprocs : s'.procs = s.procs.set i p')
    (hentries : s'.processes = Function.update s.processes p.id entry') : OrderInv s' := by
  have hp := h i p hi
  have heffect := procStep_effect hproc
  have hcases := entry_own hown hproc
  intro j q hj
  rw [hprocs] at hj
  rcases Lists.getElem?_set_cases hj with ⟨rfl, rfl⟩ | ⟨hne, hold⟩
  · have hevents : EventsOk q ∧ ∀ e, entry' = some (.running e) → e.outputNotify = j → EntryOk e q := by
      rcases hcases with ⟨e, he, hnotify⟩ | hsame
      · have hlocal : LocalInv (s.processes p.id) p := by
          refine ⟨hp.events, fun e' he' => hp.entry e' he' ?_⟩
          cases he.symm.trans he'
          exact hnotify
        obtain ⟨hevents, hentry⟩ := localInv_effect hlocal heffect
        exact ⟨hevents, fun e' he' _ => hentry e' he'⟩
      · have hm := heffect.makes_nil hsame
        refine ⟨hp.events.quiet hm, fun e he hnotify => ?_⟩
        have hlocal : LocalInv (s.processes p.id) p := by
          refine ⟨hp.events, fun e' he' => hp.entry e' he' ?_⟩
          rcases hsame with heq | heq
          · cases (heq.symm.trans he).symm.trans he'
            exact hnotify
          · cases heq.symm.trans he
        exact (localInv_effect hlocal heffect).2 e he
    refine ⟨hevents.1, fun e he hnotify => hevents.2 e ?_ hnotify, ?_⟩
    · rw [hentries, heffect.id, Function.update_self] at he
      exact he
    · obtain ⟨evs, hm⟩ := heffect.makes
      cases procStep_sends hproc with
      | locked _ hbroadcast | moved _ hbroadcast => exact hp.turned.makes hp.events hevents.1 hm hbroadcast
      | sent ev hsending _ hbroadcast hheld hev => exact hp.turned.sends (hturn ev hsending) hbroadcast hheld hev
  · refine (h j q hold).still (Still.refl q) fun e he hnotify => ?_
    rw [hentries] at he
    by_cases hid : q.id = p.id
    · rw [hid, Function.update_self] at he
      rw [hid]
      rcases hcases with ⟨e', he', hnotify'⟩ | heq | heq
      · obtain ⟨e₀, he₀, hsame⟩ := heffect.outputNotify he
        cases he'.symm.trans he₀
        exact absurd (hnotify.symm.trans (hsame.trans hnotify')) hne
      · exact heq.symm.trans he
      · cases heq.symm.trans he
    · rwa [Function.update_of_ne hid] at he

/-! Runs -/

theorem still_setOut {t : OutTask} (hphase : t.phase = (p.out side).phase) : Still p (p.setOut side t) := by
  cases side with
  | stdout =>
    have hsame : t.phase = p.stdout.phase := hphase
    refine ⟨makes_setOut (by rw [hsame]; rfl), ?_, rfl, rfl, ?_⟩
    · simp only [Proc.openTasks, Proc.setOut, hsame]
    · simp only [Proc.held, Proc.setOut, hsame]
  | stderr =>
    have hsame : t.phase = p.stderr.phase := hphase
    refine ⟨makes_setOut (by rw [hsame]; rfl), ?_, rfl, rfl, ?_⟩
    · simp only [Proc.openTasks, Proc.setOut, hsame]
    · simp only [Proc.held, Proc.setOut, hsame]

theorem still_exits {code : Int32} (hwaiting : p.exit = .waiting) : Still p { p with exit := .locking code } := by
  refine ⟨makes_exit (Multiset.zero_le _), rfl, ?_, rfl, ?_⟩
  · rw [hwaiting]
    rfl
  · simp only [Proc.held, hwaiting, ExitPhase.held]

theorem orderInv_step {a : Act} (h : OrderInv s) (hturn : sentInTurn s a = true) (hs : step s a = some s') :
    OrderInv s' := by
  cases a with
  | task i t ok =>
    obtain ⟨p, hi, hs⟩ := Option.bind_eq_some_iff.mp hs
    obtain ⟨⟨entry, p'⟩, hproc, rfl⟩ := Option.map_eq_some_iff.mp hs
    simp only [sentInTurn, hi, Option.all_some, Bool.and_eq_true, Bool.or_eq_true, Bool.not_eq_true', Option.all_eq_true,
      decide_eq_true_eq] at hturn
    refine orderInv_task h hi hproc (fun hlocks e he => ?_) (fun ev hev => hturn.2 ev hev) rfl rfl
    have hown := hturn.1.resolve_left (by simp [hlocks])
    rw [he] at hown
    exact of_decide_eq_true hown
  | spawned k =>
    obtain ⟨params, hk, rfl⟩ := Option.map_eq_some_iff.mp hs
    exact orderInv_spawned h rfl rfl
  | output i side chunk =>
    obtain ⟨p, hi, hs⟩ := Option.bind_eq_some_iff.mp hs
    dsimp only at hs
    split_ifs at hs
    cases hs
    exact orderInv_set h hi (still_setOut (t := { p.out side with queue := (p.out side).queue ++ [chunk] }) rfl) rfl rfl
  | endOutput i side =>
    obtain ⟨p, hi, rfl⟩ := Option.map_eq_some_iff.mp hs
    exact orderInv_set h hi (still_setOut (t := { p.out side with ended := true }) rfl) rfl rfl
  | exits i code =>
    obtain ⟨p, hi, hs⟩ := Option.bind_eq_some_iff.mp hs
    split_ifs at hs with hwaiting
    cases hs
    exact orderInv_set h hi (still_exits hwaiting) rfl rfl
  | start params =>
    simp only [step] at hs
    split at hs
    · rename_i hstart
      cases hs
      rw [startProcess_ok hstart]
      refine orderInv_same h rfl fun id e he => ?_
      dsimp only at he
      by_cases hid : id = params.processId
      · rw [hid, Function.update_self] at he
        cases he
      · rwa [Function.update_of_ne hid] at he
    · cases hs
      exact h
  | spawnFailed k =>
    obtain ⟨params, -, rfl⟩ := Option.map_eq_some_iff.mp hs
    refine orderInv_same h rfl fun id e he => ?_
    dsimp only at he
    split_ifs at he
    · by_cases hid : id = params.processId
      · rw [hid, Function.update_self] at he
        cases he
      · rwa [Function.update_of_ne hid] at he
    · exact he
  | shutdown =>
    cases hs
    exact orderInv_same h rfl fun id e he => by cases he
  | initialized =>
    cases hs
    split_ifs
    · exact orderInv_same h rfl fun _ _ he => he
    · exact h
  | reader k =>
    obtain ⟨r, -, hs⟩ := Option.bind_eq_some_iff.mp hs
    obtain ⟨r', -, rfl⟩ := Option.map_eq_some_iff.mp hs
    exact orderInv_same h rfl fun _ _ he => he
  | elapse k =>
    obtain ⟨r, -, rfl⟩ := Option.map_eq_some_iff.mp hs
    exact orderInv_same h rfl fun _ _ he => he
  | initializeRequest | read params =>
    cases hs
    exact orderInv_same h rfl fun _ _ he => he

/-- In a list without ties the order of the seqs is that of the list. -/
theorem not_closed_of_lt (h : EventsOk p) {x : ProcessEvent} (hev : ev ∈ p.issued) (hx : x ∈ p.issued)
    (hlt : ev.seq < x.seq) :
    ev.isClosed = false := by
  obtain ⟨i, hi⟩ := Lists.exists_getElem?_of_mem hev
  obtain ⟨j, hj⟩ := Lists.exists_getElem?_of_mem hx
  obtain ⟨hilt, rfl⟩ := List.getElem?_eq_some_iff.mp hi
  obtain ⟨hjlt, rfl⟩ := List.getElem?_eq_some_iff.mp hj
  rcases Nat.lt_trichotomy i j with hij | rfl | hji
  · exact List.pairwise_iff_getElem.mp h.closedLast i j hilt hjlt hij
  · exact absurd hlt (Nat.lt_irrefl _)
  · exact absurd (List.pairwise_iff_getElem.mp h.ordered j i hjlt hilt hji) (Nat.lt_asymm hlt)

theorem inOrder_of_procOk {i : ℕ} (h : ProcOk s i p) : InOrder p := by
  refine ⟨h.turned.sent, closedLast_of_pairwise ?_⟩
  refine h.turned.sent.imp_of_mem fun ha hb hlt => ?_
  exact not_closed_of_lt h.events (mem_issued_of_broadcast h.events ha) (mem_issued_of_broadcast h.events hb) hlt

/-- In every run in which a task that takes the lock finds no entry of another process, and an event is sent only before
all that the other tasks of its process hold, the events of each process are broadcast in the order of their seqs,
closed as the last. -/
theorem broadcast_in_order (acts : List Act) (s : State) (hturn : RunOk step (fun s a => sentInTurn s a = true) init acts)
    (hrun : run step init acts = some s) : ∀ p ∈ s.procs, InOrder p := by
  have hinv : OrderInv s :=
    run_inv OrderInv (fun _ _ _ h ht hs => orderInv_step h ht hs) (fun i p hi => by cases hi) hturn hrun
  intro p hp
  obtain ⟨i, hi⟩ := Lists.exists_getElem?_of_mem hp
  exact inOrder_of_procOk (hinv i p hi)

theorem broadcast_in_order_echo : ∃ s, run step init echoRun = some s ∧ ∀ p ∈ s.procs, InOrder p := by
  obtain ⟨s, hs⟩ : ∃ s, run step init echoRun = some s := ⟨_, rfl⟩
  exact ⟨s, hs, broadcast_in_order echoRun s (by decide) hs⟩

/-- Standard output takes the first seq and standard error the second, which is sent first. -/
def overtakenRun : List Act :=
  List.flatten [
    [.initializeRequest, .initialized, .start ⟨echoId, ["echo", "h"], false⟩, .spawned 0, .output 0 .stdout [104],
      .output 0 .stderr [105]],
    List.replicate 2 (.task 0 (.out .stdout) true),
    List.replicate 5 (.task 0 (.out .stderr) true),
    List.replicate 3 (.task 0 (.out .stdout) true)]

theorem event_overtaken : ¬ ∀ (acts : List Act)
    (s : State), run step init acts = some s → ∀ p ∈ s.procs, InOrder p := by
  intro hall
  obtain ⟨s, p, hs, hprocs, hseqs⟩ : ∃ s p, run step init overtakenRun = some s ∧ s.procs = [p] ∧
      p.broadcast.map (·.seq) = [2, 1] := by
    refine ⟨_, _, rfl, rfl, ?_⟩
    rfl
  have horder := (hall overtakenRun s hs p (hprocs ▸ List.mem_singleton.mpr rfl)).1
  have hmap := List.pairwise_map.mpr horder
  rw [hseqs] at hmap
  revert hmap
  decide

end Nexal.LocalProcess
