import Nexal.Sanity.WorkerTerminal

/-! The terminal statuses of a worker. Every writer of a status writes it whatever stands there: a cancel that comes
while the worker is started is overwritten by `markStarted`. -/

namespace Nexal.Workers

variable {w w' : World} {t : Task} {op : Op} {ops : List Op} {id : WorkerId} {maxConcurrent : ℕ}

/-- Nothing is under way for the worker but the task `own`, if there is one: no other task leads to a status that is
not terminal, no agent is at work, and no other runner is not disposed of. -/
structure Alone (id : WorkerId) (w : World) (own : Option ℕ) : Prop where
  tasks : ∀ j t, w.tasks[j]? = some t → own ≠ some j → t.id = id → Restful t.ops
  idle : ∀ runner ∈ w.runners, runner.row.id = id → runner.isStreaming = false
  runners : ∀ (r : ℕ) (runner : Runner), w.runners[r]? = some runner → runner.row.id = id →
    runner.disposed = false →
    ∃ i t, own = some i ∧ w.tasks[i]? = some t ∧ t.runner = r

/-- A terminal status is written when nothing else is under way for the worker, no message is routed to a worker with
a terminal status, and the gateway releases the container when it is asked to. -/
def Unraced (id : WorkerId) (w : World) : Event → Prop
  | .go i reply => ∀ t op ops, w.tasks[i]? = some t → t.id = id → t.ops = op :: ops →
      (op.terminates = true → reply = .done → ¬ Terminal id w → Alone id w (some i)) ∧
        (op = .releaseAgent → reply = .done)
  | .errand i _ => w.errands[i]? = some (.marking id) → ¬ Terminal id w → Alone id w none
  | .route id' => id' = id → ¬ Terminal id w
  | _ => True

/-! A task of the worker goes on -/

section Went
variable {i : ℕ} {reply : Reply} {w₁ : World} {out : Except String (List Op)}

/-- A task of the worker goes on when its status is terminal, or becomes so. -/
theorem TerminalInv.over_resume (h : TerminalInv id w) (hok : Unraced id w (.go i reply)) (ht : w.tasks[i]? = some t)
    (hid : t.id = id)
    (hops : t.ops = op :: ops) (ha : Answered w t op reply w₁ out) (hterminal : Terminal id w₁) :
    Over id (w₁.resume i t (t.next ops out)) := by
  have hmem := List.mem_of_getElem? ht
  by_cases hbefore : Terminal id w
  · have hover := h.finished hbefore
    have hrestful : Restful (op :: ops) := hops ▸ hover.tasks t hmem hid
    obtain ⟨-, hrunners, -⟩ := ha.ending (t := t) hrestful.ending
    refine Over.resume hrunners ha.tasks ht hid (ha.restful hrestful)
      (fun j t' ht' _ hid' => hover.tasks t' (List.mem_of_getElem? ht') hid') hover.idle fun r y hy hyid hnot => ?_
    obtain ⟨t', ht', hid', hrunner, hcloses⟩ := hover.closing r y hy hyid hnot
    obtain ⟨j, hj⟩ := Lists.exists_getElem?_of_mem ht'
    by_cases hji : j = i
    · subst hji
      cases ht.symm.trans hj
      rw [hops] at hcloses
      obtain ⟨hthrows, hrest⟩ := closes_tail hcloses ha.not_disposes
      rw [ha.next_eq (Bool.or_eq_false_iff.mp hrestful.head).1 hthrows]
      exact Or.inr ⟨hrunner, hrest⟩
    · exact Or.inl ⟨j, t', hj, hji, hid', hrunner, hcloses⟩
  · obtain ⟨hterminates, rfl, rfl, hrunners⟩ := ha.terminal hid hbefore hterminal
    have halone := (hok t op ops ht hid hops).1 hterminates rfl hbefore
    obtain ⟨hrestful, hcloses⟩ := sealed_head (hops ▸ (h.shaped t hmem hid).sealed) hterminates
    refine Over.resume hrunners ha.tasks ht hid hrestful
      (fun j t' ht' hji hid' => halone.tasks j t' ht' (fun heq => hji (Option.some.inj heq).symm) hid') halone.idle
      fun r y hy hyid hnot => ?_
    obtain ⟨j, t', hj, ht', hrunner⟩ := halone.runners r y hy hyid hnot
    cases hj
    cases ht.symm.trans ht'
    exact Or.inr ⟨hrunner, hcloses⟩

theorem TerminalInv.acquiring_resume (h : TerminalInv id w) (hok : Unraced id w (.go i reply)) (ht : w.tasks[i]? = some t)
    (hid : t.id = id) (hops : t.ops = op :: ops) (ha : Answered w t op reply w₁ out) {k : ℕ} {t' : Task} (hki : k ≠ i)
    (ht' : w.tasks[k]? = some t') (hid' : t'.id = id) (hacquires : ∃ op ∈ t'.ops, op.acquires = true) :
    Acquiring (w₁.resume i t (t.next ops out)) k t' := by
  obtain ⟨⟨y, hy, hrow, hnot⟩, hothers⟩ := h.acquiring k t' ht' hid' hacquires
  have htasks := resume_tasks (i := i) ha (t.next ops out)
  have hlt := (List.getElem?_eq_some_iff.mp ht).1
  have hold : ∀ {j : ℕ} {t'' : Task}, j ≠ i → (w₁.resume i t (t.next ops out)).tasks[j]? = some t'' →
    w.tasks[j]? = some t'' :=
    fun hji ht'' => by rwa [htasks, List.getElem?_set_ne (Ne.symm hji)] at ht''
  by_cases hrunner : t.runner = t'.runner
  · -- a status that is written now would be written while a container is acquired
    have hwrites : ¬ (op.terminates = true ∧ reply = .done) := by
      rintro ⟨hterminates, rfl⟩
      obtain ⟨op', hop', hacquires⟩ := hacquires
      have hrestful : Restful t'.ops := by
        by_cases hbefore : Terminal id w
        · exact (h.finished hbefore).tasks t' (List.mem_of_getElem? ht') hid'
        · have halone := (hok t op ops ht hid hops).1 hterminates rfl hbefore
          exact halone.tasks k t' ht' (fun heq => hki (Option.some.inj heq).symm) hid'
      have hrevives := hrestful op' hop'
      cases op' with
      | acquireAgent => cases hrevives
      | _ => cases hacquires
    obtain ⟨hjob, hlocked⟩ := hothers i t ht (Ne.symm hki) (hid.trans hid'.symm) hrunner
    obtain ⟨hlocked', hsame⟩ := settle_locked w₁ t hjob (ha.locked hjob (hops ▸ hlocked) hwrites)
    obtain ⟨x, hx, hxrow, hxnot⟩ := live_resume (i := i) ha hsame hy hnot
    refine ⟨⟨x, hx, (congrArg WorkerRow.id hxrow).trans hrow, hxnot⟩, fun j t'' ht'' hjk hid'' hrunner'' => ?_⟩
    by_cases hji : j = i
    · rw [hji, htasks, List.getElem?_set_self hlt] at ht''
      cases ht''
      exact ⟨hjob, hlocked'⟩
    · exact hothers j t'' (hold hji ht'') hjk hid'' hrunner''
  · obtain ⟨f, -, hrunners⟩ := resume_runners i (t.next ops out) ha
    refine ⟨⟨y, by rw [hrunners, List.getElem?_modify_ne f _ hrunner, hy], hrow, hnot⟩,
      fun j t'' ht'' hjk hid'' hrunner'' => ?_⟩
    by_cases hji : j = i
    · rw [hji, htasks, List.getElem?_set_self hlt] at ht''
      cases ht''
      exact absurd hrunner'' hrunner
    · exact hothers j t'' (hold hji ht'') hjk hid'' hrunner''

theorem TerminalInv.held_resume (h : TerminalInv id w) (hok : Unraced id w (.go i reply)) (ht : w.tasks[i]? = some t)
    (hid : t.id = id)
    (hops : t.ops = op :: ops) (ha : Answered w t op reply w₁ out) {ops' : List Op}
    (hheld : Held id (w₁.resume i t ops')) :
    id ∈ w₁.attached := by
  have hs := settle_settles w₁ t ops'
  obtain ⟨more, hmore, hall⟩ := settle_effects w₁ t ops'
  have hheld₁ : Held id w₁ := by
    refine ⟨(List.mem_append.mp (hmore ▸ hheld.1)).resolve_right fun hnew => ?_, hs.containers ▸ hheld.2⟩
    rcases hall _ hnew with heq | heq
    · cases heq
    · cases heq
  have hdetaches : op.detaches = false := (h.shaped t (List.mem_of_getElem? ht) hid).keeps op (hops ▸ List.mem_cons_self)
  rcases ha.held_cases hid hdetaches (hok t op ops ht hid hops).2 hheld₁ with hattached | ⟨hbefore, hsame⟩
  · exact hattached
  · exact hsame ▸ h.held hbefore

theorem TerminalInv.went_own (h : TerminalInv id w) (hok : Unraced id w (.go i reply)) (ht : w.tasks[i]? = some t)
    (hid : t.id = id)
    (hops : t.ops = op :: ops) (ha : Answered w t op reply w₁ out) :
    TerminalInv id (w₁.resume i t (t.next ops out)) := by
  have hs := settle_settles w₁ t (t.next ops out)
  have htasks := resume_tasks (i := i) ha (t.next ops out)
  have hlt := (List.getElem?_eq_some_iff.mp ht).1
  have htidy : Tidy (t.next ops out) := ha.tidy (hops ▸ h.shaped t (List.mem_of_getElem? ht) hid).tail
  have htidy' := settle_tidy w₁ t htidy
  refine ⟨fun t' ht' hid' => ?_, fun hterminal => ?_, fun k t' ht' hid' hacquires => ?_, fun hattached => ?_,
    fun hheld => ?_⟩
  · rw [htasks] at ht'
    rcases List.mem_or_eq_of_mem_set ht' with hold | rfl
    · exact h.shaped t' hold hid'
    · exact htidy'.shaped
  · rw [Terminal, resume_rows] at hterminal
    exact h.over_resume hok ht hid hops ha hterminal
  · rw [htasks] at ht'
    by_cases hki : k = i
    · rw [hki, List.getElem?_set_self hlt] at ht'
      cases ht'
      exact absurd hacquires (no_acquires htidy')
    · rw [List.getElem?_set_ne (Ne.symm hki)] at ht'
      exact h.acquiring_resume hok ht hid hops ha hki ht' hid' hacquires
  · exact h.attached_resume ht hid hops ha htidy (hs.attached ▸ hattached)
  · exact hs.attached.symm ▸ h.held_resume hok ht hid hops ha hheld

end Went

/-! What the registry does for the worker -/

/-- What the registry does by itself, as long as it makes no status terminal while something is under way. -/
theorem TerminalInv.aside (h : TerminalInv id w) (haside : Aside w w')
    (hover : Terminal id w' → Terminal id w ∨ Alone id w none) :
    TerminalInv id w' := by
  have htasks := haside.tasks
  have hrunners := haside.runners
  refine ⟨fun t ht hid => ?_, fun hterminal => ?_, fun i t ht hid hacquires => ?_, fun hattached => ?_, fun hheld => ?_⟩
  · exact h.shaped t (htasks ▸ ht) hid
  · have hbefore : Over id w := by
      rcases hover hterminal with hbefore | halone
      · exact h.finished hbefore
      · refine ⟨fun t ht hid => ?_, halone.idle, fun r x hx hid hnot => ?_⟩
        · obtain ⟨j, hj⟩ := Lists.exists_getElem?_of_mem ht
          exact halone.tasks j t hj (fun heq => by cases heq) hid
        · obtain ⟨i, t, hi, -⟩ := halone.runners r x hx hid hnot
          cases hi
    refine ⟨htasks.symm ▸ hbefore.tasks, hrunners.symm ▸ hbefore.idle, fun r x hx hid hnot => ?_⟩
    obtain ⟨t, ht, hrest⟩ := hbefore.closing r x (hrunners ▸ hx) hid hnot
    exact ⟨t, htasks.symm ▸ ht, hrest⟩
  · obtain ⟨⟨y, hy, hrow, hnot⟩, hothers⟩ := h.acquiring i t (htasks ▸ ht) hid hacquires
    exact ⟨⟨y, hrunners.symm ▸ hy, hrow, hnot⟩, fun j t' ht' => hothers j t' (htasks ▸ ht')⟩
  · rcases h.attached (haside.attached ▸ hattached) with ⟨r, y, hy, hrest⟩ | ⟨t, ht, hrest⟩
    · exact Or.inl ⟨r, y, hrunners.symm ▸ hy, hrest⟩
    · exact Or.inr ⟨t, htasks.symm ▸ ht, hrest⟩
  · rw [haside.attached]
    exact h.held ⟨haside.effects ▸ hheld.1, haside.containers ▸ hheld.2⟩

/-- Only the end of a `cancel` of a worker without a runner makes a status terminal. -/
theorem ErrandAnswered.terminal {i : ℕ} {e : Errand} (he : ErrandAnswered w i e w') (hterminal : Terminal id w') :
    Terminal id w ∨ e = .marking id := by
  cases he with
  | inserted c hinsert =>
    rw [Terminal, status_insert hinsert] at hterminal
    split_ifs at hterminal
    · cases hterminal
    · exact Or.inl hterminal
  | marked id' =>
    by_cases hid : id = id'
    · exact Or.inr (hid ▸ rfl)
    · rw [Terminal, status_update] at hterminal
      simp only [if_neg hid, Option.map_id'] at hterminal
      exact Or.inl hterminal
  | _ => exact Or.inl hterminal

theorem TerminalInv.errand {i : ℕ} {e : Errand} {reply : Reply} (h : TerminalInv id w)
    (hok : Unraced id w (.errand i reply))
    (hi : w.errands[i]? = some e) (he : ErrandAnswered w i e w') : TerminalInv id w' := by
  refine h.aside he.aside fun hterminal => ?_
  by_cases hbefore : Terminal id w
  · exact Or.inl hbefore
  · rcases he.terminal hterminal with hold | rfl
    · exact absurd hold hbefore
    · exact Or.inr (hok hi hbefore)

/-! Events -/

theorem idle_of_terminal {r : ℕ} {runner : Runner} (h : TerminalInv id w) (hr : w.runners[r]? = some runner)
    (hstreaming : runner.isStreaming = true) (hid : runner.row.id = id) : ¬ Terminal id w := by
  intro hterminal
  cases hstreaming.symm.trans ((h.finished hterminal).idle runner (List.mem_of_getElem? hr) hid)

theorem TerminalInv.modifyAgent (h : TerminalInv id w) (r : ℕ) {f : Agent → Agent}
    (hf : ∀ a, (f a).isStreaming = true → a.isStreaming = true) : TerminalInv id (w.modifyAgent r f) :=
  h.apart (apart_modifyAgent w r hf) (fun hterminal => hterminal) fun _ _ _ => Iff.rfl

theorem TerminalInv.acted {e : Event} (hwf : Wf w) (h : TerminalInv id w) (hok : Unraced id w e)
    (hshutdown : e ≠ .shutdown)
    (hsuspend : ∀ r, e ≠ .suspend r) (ha : Acted w e w') : TerminalInv id w' := by
  have hframe : ∀ {v : World}, Aside w v → v.rows = w.rows → TerminalInv id v := by
    intro v haside hrows
    refine h.aside haside fun hterminal => Or.inl ?_
    rwa [Terminal, hrows] at hterminal
  cases ha with
  | refused | cancelIgnored | notRouted | suspendIgnored => exact h
  | spawned | resuming | cancelling | notStarted => exact hframe ⟨rfl, rfl, rfl, rfl, rfl, rfl⟩ rfl
  | @cancelled _ r runner =>
    have haborted := h.modifyAgent r (f := Agent.abort) fun _ hstreaming => hstreaming
    exact haborted.begin rfl (tidy_cancel _) (fun heq => by cases heq) rfl fun _ _ => restful_of_all rfl
  | @routed id' r runner hmap hr =>
    refine h.begin (settle_route w _ runner) (tidy_route runner) (fun heq => by
      cases heq) (locked_route runner) fun hid hterminal => ?_
    obtain ⟨x, hx, hrow⟩ := hwf.agents id' r hmap
    cases hr.symm.trans hx
    exact absurd hterminal (hok (hrow.symm.trans hid))
  | @suspended r => exact absurd rfl (hsuspend r)
  | shutdown => exact absurd rfl hshutdown
  | @message r m => exact h.modifyAgent r fun _ hstreaming => hstreaming
  | @ended r runner errorMessage messages hr hstreaming =>
    have hended := h.modifyAgent r (f := Agent.ended) fun _ hstreaming => by cases hstreaming
    refine hended.begin (settle_agentEnd _ _ runner _ _) (tidy_agentEnd ..) (fun heq => by cases heq) (locked_agentEnd ..)
      fun hid hterminal => ?_
    have hnot := idle_of_terminal h hr hstreaming hid
    exact absurd hterminal hnot
  | @endIgnored r => exact h.modifyAgent r fun _ hstreaming => by cases hstreaming
  | @flushed r runner =>
    exact h.begin (settle_flush w _) (tidy_of_all rfl rfl) (fun heq => by cases heq) rfl fun _ _ => restful_of_all rfl
  | @went i reply t op ops w₁ out ht hops hanswer =>
    by_cases hid : t.id = id
    · exact h.went_own hok ht hid hops hanswer
    · exact h.went_other hwf ht hid hanswer _
  | @started i id' row hi hrow hstatus =>
    have hstart : TerminalInv id { w with starting := w.starting.eraseIdx i } :=
      hframe ⟨rfl, rfl, rfl, rfl, rfl, rfl⟩ rfl
    refine hstart.startAgent (hwf.frame rfl rfl rfl) fun hid hterminal => ?_
    have hid' : id' = id := (get_id hrow).symm.trans hid
    rw [Terminal, WorkerRows.status, ← hid', hrow, Option.map_some, Option.any_some, hstatus] at hterminal
    cases hterminal
  | errand reply hi he => exact h.errand hok hi he

theorem rests_on_terminal {u : RowUpdate} (h : (Op.store u).revives = false) :
    u.status.all WorkerStatus.isTerminal = true := by
  have hwrites : u.status.any (fun status => !status.isTerminal) = false := h
  cases hu : u.status with
  | none => rfl
  | some status =>
    rw [hu, Option.any_some, Bool.not_eq_false'] at hwrites
    exact hwrites

/-- A terminal status stays one. -/
theorem terminal_acted {e : Event} (h : TerminalInv id w) (hterminal : Terminal id w) (ha : Acted w e w') :
    Terminal id w' := by
  have hwritten : ∀ {id' : WorkerId} {u : RowUpdate}, (id = id' → u.status.all WorkerStatus.isTerminal = true) →
      ((w.rows.update id' u).status id).any WorkerStatus.isTerminal = true := by
    intro id' u hu
    obtain ⟨status, hstatus, hbefore⟩ := (Option.any_eq_true _ _).mp hterminal
    rw [status_update, hstatus, Option.map_some, Option.any_some]
    split_ifs with hid
    · have hwrites := hu hid
      cases hstatus' : u.status with
      | none => exact hbefore
      | some written =>
        rw [hstatus'] at hwrites
        exact hwrites
    · exact hbefore
  have hrows := ha.rows
  rw [Terminal]
  generalize w'.rows = rows at hrows
  cases hrows with
  | same => exact hterminal
  | @wrote i t op ops u ht hops hop =>
    refine hwritten fun hid => rests_on_terminal ?_
    have hrevives := (h.finished hterminal).tasks t (List.mem_of_getElem? ht) hid.symm op (hops ▸ List.mem_cons_self)
    rcases hop with rfl | rfl
    · exact hrevives
    · exact hrevives
  | marked => exact hwritten fun _ => rfl
  | @inserted i c rows reply hi hinsert =>
    rw [status_insert hinsert]
    split_ifs with hid
    · have hnone : w.rows.status id = none := by
        rw [WorkerRows.insert] at hinsert
        split_ifs at hinsert with hsome
        rw [Bool.not_eq_true, Option.isSome_eq_false_iff, Option.isNone_iff_eq_none] at hsome
        rw [hid, WorkerRows.status, hsome, Option.map_none]
      rw [Terminal, hnone] at hterminal
      cases hterminal
    · exact hterminal

/-! Runs -/

theorem terminalInv_step {e : Event} (h : TerminalInv id w ∧ Wf w) (hok : Unraced id w e) (hshutdown : e ≠ .shutdown)
    (hsuspend : ∀ r, e ≠ .suspend r) (hs : step maxConcurrent w e = some w') : TerminalInv id w' ∧ Wf w' := by
  have hwf := wf_step h.2 hs
  obtain ⟨w₁, hact, rfl⟩ := step_cases hs
  have hpump := pump_pumped maxConcurrent w₁
  have hacted := h.1.acted h.2 hok hshutdown hsuspend (acted_of_act hact)
  refine ⟨hacted.aside hpump.toAside fun hterminal => Or.inl ?_, hwf⟩
  rwa [Terminal, hpump.rows] at hterminal

theorem terminal_step {e : Event} (h : TerminalInv id w) (hterminal : Terminal id w)
    (hs : step maxConcurrent w e = some w') :
    Terminal id w' := by
  obtain ⟨w₁, hact, rfl⟩ := step_cases hs
  rw [Terminal, (pump_pumped maxConcurrent w₁).rows]
  exact terminal_acted h hterminal (acted_of_act hact)

/-- When nothing is left to do for a worker with a terminal status, no container is held for it. -/
theorem TerminalInv.not_held (h : TerminalInv id w) (hterminal : Terminal id w)
    (hdone : ∀ t ∈ w.tasks, t.id = id → t.ops = []) :
    ¬ Held id w := by
  intro hheld
  rcases h.attached (h.held hheld) with ⟨r, y, hy, hid, hnot⟩ | ⟨t, ht, hid, rest, hshape⟩
  · obtain ⟨t, ht, htid, -, hcloses⟩ := (h.finished hterminal).closing r y hy hid hnot
    rw [hdone t ht htid] at hcloses
    cases hcloses
  · rw [hdone t ht hid] at hshape
    rcases hshape with hshape | hshape
    · cases hshape
    · cases hshape

/-- When terminal statuses are written while nothing else is under way for the worker, a terminal status stays one,
and when all is done for the worker no container is held for it. -/
theorem terminal_final {rows : WorkerRows} {containers : List WorkerId} {es es' : List Event} {m m' : World}
    (hevents : ∀ e ∈ es ++ es', e ≠ .shutdown ∧ ∀ r, e ≠ .suspend r)
    (hok : Runs.RunOk (step maxConcurrent) (Unraced id) (.init rows containers) es)
    (h : Runs.run (step maxConcurrent) (.init rows containers) es = some m)
    (hok' : Runs.RunOk (step maxConcurrent) (Unraced id) m es') (h' : Runs.run (step maxConcurrent) m es' = some m')
    (hterminal : Terminal id m) :
    Terminal id m' ∧ ((∀ t ∈ m'.tasks, t.id = id → t.ops = []) → ¬ Held id m') := by
  have hwithin : ∀ {l : List Event} {s : World}, (∀ e ∈ l, e ∈ es ++ es') →
      Runs.RunOk (step maxConcurrent) (fun _ e => e ≠ .shutdown ∧ ∀ r, e ≠ .suspend r) s l :=
    fun hl => Runs.runOk_of_mem (fun e he _ => hevents e (hl e he)) _
  have hm : TerminalInv id m ∧ Wf m := by
    refine Runs.run_inv (fun w => TerminalInv id w ∧ Wf w) ?_ ⟨terminalInv_init rows containers,
      wf_init rows containers⟩
      (Runs.runOk_and hok (hwithin fun e he => List.mem_append_left es' he)) h
    rintro w e w' hw ⟨hun, hshutdown, hsuspend⟩ hs
    exact terminalInv_step hw hun hshutdown hsuspend hs
  have hm' : (TerminalInv id m' ∧ Wf m') ∧ Terminal id m' := by
    refine Runs.run_inv (fun w => (TerminalInv id w ∧ Wf w) ∧ Terminal id w) ?_ ⟨hm, hterminal⟩
      (Runs.runOk_and hok' (hwithin fun e he => List.mem_append_right es he)) h'
    rintro w e w' ⟨hw, hbefore⟩ ⟨hun, hshutdown, hsuspend⟩ hs
    exact ⟨terminalInv_step hw hun hshutdown hsuspend hs, terminal_step hw.1 hbefore hs⟩
  exact ⟨hm'.2, hm'.1.1.not_held hm'.2⟩

/-! A worker that cannot be started, and one that is cancelled while it is -/

def untapedRow : WorkerRow := ⟨"scout", .executor, .oneshot, some "look around", .final, .spawning, [], none, none⟩

/-- It gets its container, but no tape. -/
def withoutTape : List Event :=
  [.resumePending, .errand 0 .done, .fetched 0 .done, .go 0 .done, .go 0 .done, .go 0 (.error "tape store is closed"),
    .go 0 .done]

/-- The container is released. -/
def tornDown : List Event := [.go 0 .done, .go 0 .done]

/-- An answer that makes no status terminal. -/
theorem unraced_go {i : ℕ} {reply : Reply} (ht : w.tasks[i]? = some t) (hops : t.ops = op :: ops)
    (hterminates : op.terminates = false)
    (hrelease : op = .releaseAgent → reply = .done) : Unraced id w (.go i reply) := by
  intro t' op' ops' ht' _ hops'
  cases ht.symm.trans ht'
  obtain ⟨rfl, rfl⟩ := List.cons.inj (hops.symm.trans hops')
  refine ⟨fun hterminates' => ?_, hrelease⟩
  cases hterminates.symm.trans hterminates'

/-- The only task there is, for the only runner. -/
theorem alone_of_single {x : Runner} (htasks : w.tasks = [t]) (hrunners : w.runners = [x]) (hrunner : t.runner = 0)
    (hidle : x.isStreaming = false) : Alone id w (some 0) := by
  refine ⟨fun j t' ht' hown _ => ?_, fun y hy _ => ?_, fun r y hy _ _ => ⟨0, t, rfl, by rw [htasks]; rfl, ?_⟩⟩
  · cases j with
    | zero => exact absurd rfl hown
    | succ j =>
      rw [htasks] at ht'
      cases ht'
  · rw [hrunners] at hy
    exact List.mem_singleton.mp hy ▸ hidle
  · cases r with
    | zero => exact hrunner
    | succ r =>
      rw [hrunners] at hy
      cases hy

theorem done_of_all (h : w.tasks.all (·.ops.isEmpty) = true) (t : Task) (ht : t ∈ w.tasks) (_ : t.id = id) : t.ops = [] :=
  List.isEmpty_iff.mp (List.all_eq_true.mp h t ht)

theorem terminal_final_failed : ∃ m m', Runs.run (step 1) (.init [untapedRow] []) withoutTape = some m ∧
    Runs.run (step 1) m tornDown = some m' ∧ .acquired "scout" ∈ m.effects ∧ Terminal "scout" m' ∧
    ¬ Held "scout" m' := by
  have hrun : Runs.run (step 1) (.init [untapedRow] []) withoutTape = some _ := rfl
  refine ⟨_, _, hrun, rfl, by decide, ?_⟩
  refine (terminal_final (by simp [withoutTape, tornDown]) ?_ hrun ?_ (show Runs.run (step 1) _ tornDown = some _ from rfl)
    (show Terminal "scout" _ from rfl)).imp_right fun hdone => hdone (done_of_all rfl)
  · refine Runs.runOk_cons rfl trivial (Runs.runOk_cons rfl (fun heq => by cases heq) (Runs.runOk_cons rfl trivial ?_))
    refine Runs.runOk_cons rfl (unraced_go rfl rfl rfl fun _ => rfl)
      (Runs.runOk_cons rfl (unraced_go rfl rfl rfl fun _ => rfl) ?_)
    refine Runs.runOk_cons rfl (unraced_go rfl rfl rfl fun heq => by cases heq) (Runs.runOk_cons rfl ?_ trivial)
    exact fun _ _ _ _ _ _ => ⟨fun _ _ _ => alone_of_single rfl rfl rfl rfl, fun _ => rfl⟩
  · exact Runs.runOk_cons rfl (unraced_go rfl rfl rfl fun _ => rfl)
      (Runs.runOk_cons rfl (unraced_go rfl rfl rfl fun _ => rfl) trivial)

def scoutCreate : WorkerCreate := ⟨"scout", .coordinator, .persistent, none, .explicit, none⟩

/-- The worker is spawned, and cancelled while its history is read. -/
def cancelledAtStart : List Event :=
  [.spawn scoutCreate, .errand 0 (.tape "tape"), .errand 0 .done, .errand 0 .done, .fetched 0 .done, .cancel "scout",
    .go 1 .done, .go 1 .done]

/-- The start goes on. -/
def startedAnyway : List Event := [.go 0 (.entries []), .go 0 .done, .go 0 .done]

theorem cancelled_worker_running : ¬ ∀ (maxConcurrent : ℕ) (rows : WorkerRows) (containers : List WorkerId)
    (id : WorkerId)
    (es es' : List Event) (m m' : World), (∀ e ∈ es ++ es', e ≠ .shutdown ∧ ∀ r, e ≠ .suspend r) →
      Runs.run (step maxConcurrent) (.init rows containers) es = some m → Runs.run (step maxConcurrent) m es' = some m' →
        Terminal id m → Terminal id m' ∧ ((∀ t ∈ m'.tasks, t.id = id → t.ops = []) → ¬ Held id m') := by
  intro h
  have hterminal := (h 1 [] [] "scout" cancelledAtStart startedAnyway _ _ (by
    simp [cancelledAtStart, startedAnyway]) rfl rfl rfl).1
  cases hterminal

end Nexal.Workers
