import Nexal.Sanity.WorkerApart
import Nexal.Sanity.WorkerClosing

/-! What is left of a worker with a terminal status, and who has its container. -/

namespace Nexal.Workers

variable {w w' : World} {t : Task} {op : Op} {ops : List Op} {id : WorkerId}

def Terminal (id : WorkerId) (w : World) : Prop := (w.rows.status id).any WorkerStatus.isTerminal = true

/-- A container that was acquired for the worker is still there. -/
def Held (id : WorkerId) (w : World) : Prop := .acquired id ∈ w.effects ∧ id ∈ w.containers

structure Over (id : WorkerId) (w : World) : Prop where
  tasks : ∀ t ∈ w.tasks, t.id = id → Restful t.ops
  idle : ∀ runner ∈ w.runners, runner.row.id = id → runner.isStreaming = false
  closing : ∀ (r : ℕ) (runner : Runner), w.runners[r]? = some runner → runner.row.id = id →
    runner.disposed = false →
    ∃ t ∈ w.tasks, t.id = id ∧ t.runner = r ∧ closes t.ops = true

def Attached (id : WorkerId) (w : World) : Prop :=
  (∃ (r : ℕ) (runner : Runner), w.runners[r]? = some runner ∧ runner.row.id = id ∧ runner.disposed = false) ∨
    ∃ t ∈ w.tasks, t.id = id ∧ ∃ rest, t.ops = .closeClient :: .releaseAgent :: rest ∨
      t.ops = .releaseAgent :: rest

structure Shaped (ops : List Op) : Prop where
  sealed : sealed ops = true
  keeps : ∀ op ∈ ops, op.detaches = false
  acquires : ∀ op ∈ ops.tail, op.acquires = false

structure Acquiring (w : World) (i : ℕ) (t : Task) : Prop where
  undisposed : ∃ runner : Runner, w.runners[t.runner]? = some runner ∧ runner.row.id = t.id ∧ runner.disposed = false
  others : ∀ j t', w.tasks[j]? = some t' → j ≠ i → t'.id = t.id → t'.runner = t.runner →
    t'.job ≠ .start ∧ locked t'.ops = true

structure TerminalInv (id : WorkerId) (w : World) : Prop where
  shaped : ∀ t ∈ w.tasks, t.id = id → Shaped t.ops
  finished : Terminal id w → Over id w
  acquiring : ∀ i t, w.tasks[i]? = some t → t.id = id → (∃ op ∈ t.ops, op.acquires = true) → Acquiring w i t
  attached : id ∈ w.attached → Attached id w
  held : Held id w → id ∈ w.attached

theorem Tidy.shaped (h : Tidy ops) : Shaped ops :=
  ⟨h.sealed, fun op hop => (h.keeps op hop).1, fun op hop => (h.keeps op (List.mem_of_mem_tail hop)).2⟩

theorem Shaped.tail (h : Shaped (op :: ops)) : Tidy ops :=
  ⟨sealed_tail h.sealed, fun op' hop' => ⟨h.keeps op' (List.mem_cons_of_mem op hop'), h.acquires op' hop'⟩⟩

theorem terminalInv_init (rows : WorkerRows) (containers : List WorkerId) : TerminalInv id (.init rows containers) where
  shaped t ht := absurd ht List.not_mem_nil
  finished _ := ⟨fun t ht => absurd ht List.not_mem_nil, fun r hr => absurd hr List.not_mem_nil, fun r x hx => by
    cases hx⟩
  acquiring i t ht := by cases ht
  attached h := absurd h List.not_mem_nil
  held h := absurd h.1 List.not_mem_nil

/-- What is done for the others keeps the worker as it is. -/
theorem TerminalInv.apart (h : TerminalInv id w) (ha : Apart id w w') (hstatus : Terminal id w' → Terminal id w)
    (htasks : ∀ (i : ℕ) (t : Task), t.id = id → (w'.tasks[i]? = some t ↔ w.tasks[i]? = some t)) :
    TerminalInv id w' := by
  have hmem : ∀ t : Task, t.id = id → (t ∈ w'.tasks ↔ t ∈ w.tasks) := by
    intro t hid
    rw [List.mem_iff_getElem?, List.mem_iff_getElem?]
    exact exists_congr fun i => htasks i t hid
  refine ⟨fun t ht hid => ?_, fun hterminal => ?_, fun i t ht hid hacquires => ?_, fun hattached => ?_, fun hheld => ?_⟩
  · exact h.shaped t ((hmem t hid).mp ht) hid
  · have hover := h.finished (hstatus hterminal)
    refine ⟨fun t ht hid => hover.tasks t ((hmem t hid).mp ht) hid, ha.idle hover.idle, fun r x hx hid hnot => ?_⟩
    obtain ⟨y, hy, hstays⟩ := ha.runner r x hx hid
    obtain ⟨t, ht, htid, hclosing⟩ := hover.closing r y hy (hstays.row ▸ hid) (hstays.disposed ▸ hnot)
    exact ⟨t, (hmem t htid).mpr ht, htid, hclosing⟩
  · have hold := (htasks i t hid).mp ht
    obtain ⟨⟨y, hy, hrow, hnot⟩, hothers⟩ := h.acquiring i t hold hid hacquires
    refine ⟨?_, fun j t' ht' hji hid' hrunner => hothers j t' ((htasks j t' (hid'.trans hid)).mp ht') hji hid' hrunner⟩
    obtain ⟨x, hx, hstays⟩ := ha.stays t.runner y hy (hrow.trans hid)
    exact ⟨x, hx, (congrArg WorkerRow.id hstays.row).trans hrow, hstays.disposed.trans hnot⟩
  · rcases h.attached (ha.attached.mp hattached) with ⟨r, y, hy, hid, hnot⟩ | ⟨t, ht, hid, hrelease⟩
    · obtain ⟨x, hx, hstays⟩ := ha.stays r y hy hid
      exact Or.inl ⟨r, x, hx, hstays.row.symm ▸ hid, hstays.disposed.trans hnot⟩
    · exact Or.inr ⟨t, (hmem t hid).mpr ht, hid, hrelease⟩
  · obtain ⟨more, hmore, hacquired, -⟩ := ha.effects
    refine ha.attached.mpr (h.held ⟨?_, ha.containers.mp hheld.2⟩)
    exact (List.mem_append.mp (hmore ▸ hheld.1)).resolve_right hacquired

theorem no_acquires (h : Tidy ops) : ¬ ∃ op ∈ ops, op.acquires = true := by
  rintro ⟨op, hop, hacquires⟩
  cases (h.keeps op hop).2.symm.trans hacquires

/-- A task begins with a call that is none for a container. -/
theorem TerminalInv.begin (h : TerminalInv id w) {r : ℕ} {runner : Runner} {job : Job}
    (hsame : (settle w ⟨runner.row.id, r, job, ops⟩ ops).1 = w) (htidy : Tidy ops) (hjob : job ≠ .start)
    (hlocked : locked ops = true)
    (hrestful : runner.row.id = id → Terminal id w → Restful ops) : TerminalInv id (w.begin r runner job ops) := by
  have htidy' := settle_tidy w ⟨runner.row.id, r, job, ops⟩ htidy
  rw [begin_eq hsame]
  refine ⟨fun t ht hid => ?_, fun hterminal => ?_, fun i t ht hid hacquires => ?_, fun hattached => ?_, h.held⟩
  · rcases List.mem_append.mp ht with hold | hnew
    · exact h.shaped t hold hid
    · rw [List.mem_singleton.mp hnew]
      exact htidy'.shaped
  · have hover := h.finished hterminal
    refine ⟨fun t ht hid => ?_, hover.idle, fun j x hx hid hnot => ?_⟩
    · rcases List.mem_append.mp ht with hold | hnew
      · exact hover.tasks t hold hid
      · rw [List.mem_singleton.mp hnew] at hid ⊢
        exact settle_restful w _ (hrestful hid hterminal)
    · obtain ⟨t, ht, htid, hclosing⟩ := hover.closing j x hx hid hnot
      exact ⟨t, List.mem_append_left _ ht, htid, hclosing⟩
  · rw [Lists.getElem?_concat] at ht
    split_ifs at ht
    · cases ht
      exact absurd hacquires (no_acquires htidy')
    · obtain ⟨hundisposed, hothers⟩ := h.acquiring i t ht hid hacquires
      refine ⟨hundisposed, fun j t' ht' hji hid' hrunner => ?_⟩
      rw [Lists.getElem?_concat] at ht'
      split_ifs at ht'
      · cases ht'
        exact ⟨hjob, (settle_locked w ⟨runner.row.id, r, job, ops⟩ hjob hlocked).1⟩
      · exact hothers j t' ht' hji hid' hrunner
  · rcases h.attached hattached with hrunner | ⟨t, ht, hid, hrelease⟩
    · exact Or.inl hrunner
    · exact Or.inr ⟨t, List.mem_append_left _ ht, hid, hrelease⟩

theorem shaped_start (r : Runner) : Shaped r.start := by
  have hshaped : ∀ {ops : List Op}, sealed ops = true → ops.all (fun op => !op.detaches) = true →
      ops.tail.all (fun op => !op.acquires) = true → Shaped ops := by
    intro ops hsealed hkeeps hacquires
    refine ⟨hsealed, fun op hop => ?_, fun op hop => ?_⟩
    · exact Bool.not_eq_true' .. ▸ List.all_eq_true.mp hkeeps op hop
    · exact Bool.not_eq_true' .. ▸ List.all_eq_true.mp hacquires op hop
  unfold Runner.start
  split_ifs
  · exact hshaped rfl rfl rfl
  · exact hshaped rfl rfl rfl
  · exact hshaped rfl rfl rfl
  · exact hshaped rfl rfl rfl

theorem lt_of_wf (hwf : Wf w) {i : ℕ} (ht : w.tasks[i]? = some t) : t.runner < w.runners.length := by
  obtain ⟨r, hr, -⟩ := hwf.tasks t (List.mem_of_getElem? ht)
  exact (List.getElem?_eq_some_iff.mp hr).1

/-- A worker without a terminal status is started. -/
theorem TerminalInv.startAgent (h : TerminalInv id w) (hwf : Wf w) {row : WorkerRow}
    (hnot : row.id = id → ¬ Terminal id w) :
    TerminalInv id (startAgent w row) := by
  obtain ⟨runner, hrow, hdisposed, heq⟩ := startAgent_eq w row
  have hold : ∀ {j : ℕ} {x : Runner}, w.runners[j]? = some x → (w.runners ++ [runner])[j]? = some x :=
    fun hj => Lists.getElem?_append_of_some hj _
  rw [heq]
  refine ⟨fun t ht hid => ?_, fun hterminal => ?_, fun i t ht hid hacquires => ?_, fun hattached => ?_, h.held⟩
  · rcases List.mem_append.mp ht with ht | hnew
    · exact h.shaped t ht hid
    · rw [List.mem_singleton.mp hnew]
      exact shaped_start runner
  · have hother : row.id ≠ id := fun hid => hnot hid hterminal
    have hover := h.finished hterminal
    refine ⟨fun t ht hid => ?_, fun x hx hid => ?_, fun j x hx hid hlive => ?_⟩
    · rcases List.mem_append.mp ht with ht | hnew
      · exact hover.tasks t ht hid
      · rw [List.mem_singleton.mp hnew] at hid
        exact absurd hid hother
    · rcases List.mem_append.mp hx with hx | hnew
      · exact hover.idle x hx hid
      · rw [List.mem_singleton.mp hnew, hrow] at hid
        exact absurd hid hother
    · rcases Lists.getElem?_concat_cases hx with hx | rfl
      · obtain ⟨t, ht, htid, hclosing⟩ := hover.closing j x hx hid hlive
        exact ⟨t, List.mem_append_left _ ht, htid, hclosing⟩
      · exact absurd (hrow ▸ hid) hother
  · rw [Lists.getElem?_concat] at ht
    split_ifs at ht with hi
    · cases ht
      refine ⟨⟨runner, List.getElem?_concat_length, congrArg WorkerRow.id hrow, hdisposed⟩,
        fun j t' ht' hji hid' hrunner => ?_⟩
      rw [Lists.getElem?_concat, if_neg fun hj => hji (hj.trans hi.symm)] at ht'
      have hlt := lt_of_wf hwf ht'
      rw [hrunner] at hlt
      exact absurd hlt (Nat.lt_irrefl _)
    · obtain ⟨⟨x, hx, hxrow, hxnot⟩, hothers⟩ := h.acquiring i t ht hid hacquires
      refine ⟨⟨x, hold hx, hxrow, hxnot⟩, fun j t' ht' hji hid' hrunner => ?_⟩
      rw [Lists.getElem?_concat] at ht'
      split_ifs at ht'
      · cases ht'
        have hlt := lt_of_wf hwf ht
        rw [← hrunner] at hlt
        exact absurd hlt (Nat.lt_irrefl _)
      · exact hothers j t' ht' hji hid' hrunner
  · rcases h.attached hattached with ⟨j, x, hx, hid, hxnot⟩ | ⟨t, ht, hid, hrelease⟩
    · exact Or.inl ⟨j, x, hold hx, hid, hxnot⟩
    · exact Or.inr ⟨t, List.mem_append_left _ ht, hid, hrelease⟩

/-! A task that goes on -/

section Went
variable {i : ℕ} {reply : Reply} {w₁ : World} {out : Except String (List Op)}

theorem Answered.restful (ha : Answered w t op reply w₁ out) (h : Restful (op :: ops)) : Restful (t.next ops out) := by
  cases ha with
  | acquired | tape | loaded => cases h.head
  | threw => exact restful_onError _ _
  | _ => exact h.tail

/-- A call that throws nothing and brings nothing leaves the rest of the task. -/
theorem Answered.next_eq (ha : Answered w t op reply w₁ out) (hacts : op.acts = false) (hthrows : op.throws = false) :
    t.next ops out = ops := by
  cases ha with
  | acquired | tape | loaded => cases hacts
  | threw _ _ h => cases hthrows.symm.trans h
  | _ => rfl

theorem Answered.not_disposes (ha : Answered w t op reply w₁ out) : op.disposes = false := by
  cases ha with
  | nothing op _ h | threw op _ h =>
    cases op with
    | dispose => cases h
    | _ => rfl
  | _ => rfl

/-- A status becomes terminal when the task writes it. -/
theorem Answered.terminal (hid : t.id = id) (ha : Answered w t op reply w₁ out) (hnot : ¬ Terminal id w)
    (h : Terminal id w₁) :
    op.terminates = true ∧ reply = .done ∧ out = .ok [] ∧ w₁.runners = w.runners := by
  have hwritten : ∀ {u : RowUpdate}, Terminal id (w.written t u) → u.status.any WorkerStatus.isTerminal = true := by
    intro u hterminal
    rw [Terminal, World.written, status_update] at hterminal
    obtain ⟨status, hstatus, hwrites⟩ := (Option.any_eq_true _ _).mp hterminal
    obtain ⟨before, hbefore, rfl⟩ := Option.map_eq_some_iff.mp hstatus
    cases hu : u.status with
    | none =>
      rw [if_pos hid.symm, hu] at hwrites
      exact absurd ((Option.any_eq_true _ _).mpr ⟨before, hbefore, hwrites⟩) hnot
    | some written =>
      rw [if_pos hid.symm, hu] at hwrites
      exact hwrites
  cases ha with
  | wrote u | wroteQuietly u => exact ⟨hwritten h, rfl, rfl, rfl⟩
  | _ => exact absurd h hnot

/-- What is left of the worker when a task of it goes on that brings nothing. -/
theorem Over.resume (hrunners : w₁.runners = w.runners) (htasks : w₁.tasks = w.tasks) (ht : w.tasks[i]? = some t)
    (hid : t.id = id)
    (hrestful : Restful ops) (hothers : ∀ j t', w.tasks[j]? = some t' → j ≠ i → t'.id = id → Restful t'.ops)
    (hidle : ∀ runner ∈ w.runners, runner.row.id = id → runner.isStreaming = false)
    (hclosing : ∀ (r : ℕ) (runner : Runner), w.runners[r]? = some runner → runner.row.id = id →
      runner.disposed = false →
      (∃ j t', w.tasks[j]? = some t' ∧ j ≠ i ∧ t'.id = id ∧ t'.runner = r ∧ closes t'.ops = true) ∨
        (t.runner = r ∧ closes ops = true)) : Over id (w₁.resume i t ops) := by
  have hs := settle_settles w₁ t ops
  obtain ⟨-, -, hfades⟩ := settle_ending w₁ t hrestful.ending
  have hfaded : ∀ {r : ℕ} {x : Runner}, (w₁.resume i t ops).runners[r]? = some x →
    ∃ y, w.runners[r]? = some y ∧ Faded y x :=
    fun hx => hrunners ▸ hfades _ _ hx
  have hset : (w₁.resume i t ops).tasks = w.tasks.set i { t with ops := (settle w₁ t ops).2 } := by
    rw [World.resume, hs.tasks, htasks]
  have hlt := (List.getElem?_eq_some_iff.mp ht).1
  refine ⟨fun t' ht' hid' => ?_, fun x hx hxid => ?_, fun r x hx hxid hlive => ?_⟩
  · obtain ⟨j, hj⟩ := Lists.exists_getElem?_of_mem ht'
    rw [hset] at hj
    by_cases hji : j = i
    · rw [hji, List.getElem?_set_self hlt] at hj
      cases hj
      exact settle_restful w₁ t hrestful
    · rw [List.getElem?_set_ne (Ne.symm hji)] at hj
      exact hothers j t' hj hji hid'
  · obtain ⟨r, hr⟩ := Lists.exists_getElem?_of_mem hx
    obtain ⟨y, hy, hfaded⟩ := hfaded hr
    refine Bool.eq_false_iff.mpr fun hstreaming => ?_
    cases (hidle y (List.mem_of_getElem? hy) (hfaded.row ▸ hxid)).symm.trans (hfaded.streaming hstreaming)
  · obtain ⟨y, hy, hfaded⟩ := hfaded hx
    have hnot : y.disposed = false := by
      refine Bool.eq_false_iff.mpr fun hdisposed => ?_
      cases hlive.symm.trans (hfaded.disposed hdisposed)
    rcases hclosing r y hy (hfaded.row ▸ hxid) hnot with ⟨j, t', ht', hji, hrest⟩ | ⟨rfl, hcloses⟩
    · refine ⟨t', List.mem_of_getElem? (i := j) ?_, hrest⟩
      rw [hset, List.getElem?_set_ne (Ne.symm hji)]
      exact ht'
    · have hdone := (settle_closes hrestful hcloses hx).resolve_left (Bool.eq_false_iff.mp hlive)
      refine ⟨{ t with ops := (settle w₁ t ops).2 }, List.mem_of_getElem? (i := i) ?_, hid, rfl, hdone⟩
      rw [hset, List.getElem?_set_self hlt]

/-- The tasks when one has gone on. -/
theorem resume_tasks (ha : Answered w t op reply w₁ out) (ops : List Op) :
    (w₁.resume i t ops).tasks = w.tasks.set i { t with ops := (settle w₁ t ops).2 } := by
  rw [World.resume, (settle_settles w₁ t ops).tasks, ha.tasks]

/-- Unless it is about to release its container, the task leaves every runner undisposed that was. -/
theorem live_resume {r : ℕ} {y : Runner} (ha : Answered w t op reply w₁ out)
    (hsame : ∀ j, (settle w₁ t ops).1.isDisposed j = w₁.isDisposed j) (hy : w.runners[r]? = some y)
    (hnot : y.disposed = false) :
    ∃ x : Runner, (w₁.resume i t ops).runners[r]? = some x ∧ x.row = y.row ∧ x.disposed = false := by
  obtain ⟨f, hf, hrunners⟩ := resume_runners i ops ha
  obtain ⟨x, hx, hlater⟩ := runner_modify hf t.runner hy
  rw [← hrunners] at hx
  have hdisposed : (w₁.resume i t ops).isDisposed r = w.isDisposed r := (hsame r).trans (ha.isDisposed r)
  rw [World.isDisposed, World.isDisposed, hx, hy, Option.any_some, Option.any_some] at hdisposed
  exact ⟨x, hx, hlater.row, hdisposed.trans hnot⟩

/-- What the gateway's client is attached to after an answer. -/
theorem Answered.attached_cases (ha : Answered w t op reply w₁ out) (h : t.id ∈ w₁.attached) :
    op = .acquireAgent ∨ (t.id ∈ w.attached ∧ op ≠ .releaseAgent) := by
  have hfiltered : ∀ l : List WorkerId, t.id ∉ l.filter (· ≠ t.id) := by
    intro l
    simp
  cases ha with
  | acquired => exact Or.inl rfl
  | released | notReleased | detached => exact absurd h (hfiltered _)
  | notAttached hnot => exact absurd h hnot
  | nothing op reply hquiet | threw op error hquiet =>
    refine Or.inr ⟨h, ?_⟩
    rintro rfl
    cases hquiet
  | _ => exact Or.inr ⟨h, fun heq => by cases heq⟩

theorem TerminalInv.attached_resume (h : TerminalInv id w) (ht : w.tasks[i]? = some t) (hid : t.id = id)
    (hops : t.ops = op :: ops)
    (ha : Answered w t op reply w₁ out) (htidy : Tidy (t.next ops out)) (hattached : id ∈ w₁.attached) :
    Attached id (w₁.resume i t (t.next ops out)) := by
  have htasks := resume_tasks (i := i) ha (t.next ops out)
  have hlt := (List.getElem?_eq_some_iff.mp ht).1
  have hself : ∀ {ops' : List Op}, (settle w₁ t (t.next ops out)).2 = ops' →
      (∃ rest, ops' = .closeClient :: .releaseAgent :: rest ∨ ops' = .releaseAgent :: rest) →
        Attached id (w₁.resume i t (t.next ops out)) := by
    rintro ops' rfl hrelease
    refine Or.inr ⟨{ t with ops := (settle w₁ t (t.next ops out)).2 }, List.mem_of_getElem? (i := i) ?_, hid, hrelease⟩
    rw [htasks, List.getElem?_set_self hlt]
  have hlive : ∀ {r : ℕ} {y : Runner}, w.runners[r]? = some y → y.row.id = id → y.disposed = false →
      Attached id (w₁.resume i t (t.next ops out)) := by
    intro r y hy hyid hnot
    rcases settle_release w₁ t (fun op' hop' => (htidy.keeps op' hop').1) with ⟨rest, hrest⟩ | hsame
    · exact hself hrest ⟨rest, Or.inl rfl⟩
    · obtain ⟨x, hx, hxrow, hxnot⟩ := live_resume (i := i) ha hsame hy hnot
      exact Or.inl ⟨r, x, hx, hxrow ▸ hyid, hxnot⟩
  rcases ha.attached_cases (hid ▸ hattached) with rfl | ⟨hbefore, hrelease⟩
  · obtain ⟨y, hy, hrow, hnot⟩ := (h.acquiring i t ht hid ⟨_, hops ▸ List.mem_cons_self, rfl⟩).undisposed
    exact hlive hy (hrow.trans hid) hnot
  · rcases h.attached (hid ▸ hbefore) with ⟨r, y, hy, hyid, hnot⟩ | ⟨t', ht', hid', rest, hshape⟩
    · exact hlive hy hyid hnot
    · obtain ⟨j, hj⟩ := Lists.exists_getElem?_of_mem ht'
      by_cases hji : j = i
      · subst hji
        cases ht.symm.trans hj
        rcases hshape with hshape | hshape
        · obtain ⟨rfl, rfl⟩ := List.cons.inj (hops.symm.trans hshape)
          refine hself ?_ ⟨rest, Or.inr rfl⟩
          rw [ha.next_eq rfl rfl]
          rfl
        · exact absurd (List.cons.inj (hops.symm.trans hshape)).1 hrelease
      · refine Or.inr ⟨t', List.mem_of_getElem? (i := j) ?_, hid', rest, hshape⟩
        rw [htasks, List.getElem?_set_ne (Ne.symm hji)]
        exact hj

/-- A container that is held after an answer was held before, and attached, or it has just been acquired. -/
theorem Answered.held_cases (hid : t.id = id) (ha : Answered w t op reply w₁ out) (hdetaches : op.detaches = false)
    (hrelease : op = .releaseAgent → reply = .done) (h : Held id w₁) :
    id ∈ w₁.attached ∨ (Held id w ∧ w₁.attached = w.attached) := by
  have hfiltered : ∀ l : List WorkerId, t.id ∉ l.filter (· ≠ t.id) := by
    intro l
    simp
  cases ha with
  | acquired => exact Or.inl (hid ▸ List.mem_insert_self)
  | released => exact absurd (hid ▸ h.2) (hfiltered _)
  | notReleased => cases hrelease rfl
  | detached => cases hdetaches
  | _ => exact Or.inr ⟨h, rfl⟩

/-- A task of another worker goes on. -/
theorem TerminalInv.went_other (hwf : Wf w) (h : TerminalInv id w) (ht : w.tasks[i]? = some t) (hid : t.id ≠ id)
    (ha : Answered w t op reply w₁ out) (ops : List Op) : TerminalInv id (w₁.resume i t ops) := by
  refine h.apart (apart_went hwf ht hid ha ops) (fun hterminal => ?_) fun j t' hid' => ?_
  · rwa [Terminal, resume_rows, ha.status_other hid] at hterminal
  · rw [resume_tasks ha]
    by_cases hji : j = i
    · rw [hji, List.getElem?_set_self (List.getElem?_eq_some_iff.mp ht).1, ht]
      refine iff_of_false (fun heq => ?_) fun heq => ?_
      · exact hid ((congrArg Task.id (Option.some.inj heq)).trans hid')
      · exact hid ((congrArg Task.id (Option.some.inj heq)).trans hid')
    · rw [List.getElem?_set_ne (Ne.symm hji)]

end Went

end Nexal.Workers
