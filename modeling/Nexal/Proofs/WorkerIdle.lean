import Nexal.Sanity.WorkerRegistry

/-! An idle worker after a restart. `start` marks the worker as started whatever its status is, and then asks for
something to prompt it with. -/

namespace Nexal.Workers

variable {w w' : World} {t : Task} {id : WorkerId} {maxConcurrent : ℕ}

/-- Neither prompted nor running. -/
structure StaysIdle (id : WorkerId) (w : World) : Prop where
  prompted : .prompted id ∉ w.effects
  status : w.rows.status id ≠ some .running

/-- No `markStarted` of the worker is carried out. -/
def NotStarted (id : WorkerId) (w : World) (e : Event) : Prop :=
  ∀ i t ops, e = .go i .done → w.tasks[i]? = some t → t.id = id → t.ops ≠ .store .markStarted :: ops

/-! What comes before `markStarted` -/

def Op.marksStarted : Op → Bool
  | .store .markStarted => true
  | _ => false

/-- Prompts the agent, or makes the row a running one. -/
def Op.stirs : Op → Bool
  | .firstPrompt _ | .steerOrPrompt | .prompt => true
  | .store u | .storeQuietly u => u.status = some .running
  | _ => false

def guarded : List Op → Bool
  | [] => true
  | op :: ops => op.marksStarted || (!op.stirs && guarded ops)

theorem guarded_tail {op : Op} {ops : List Op} (h : guarded (op :: ops) = true) (hop : op.marksStarted = false) :
    guarded ops = true := by
  rw [guarded, hop, Bool.false_or, Bool.and_eq_true] at h
  exact h.2

theorem guarded_onError (job : Job) (error : String) : guarded (job.onError error) = true := by
  cases job with
  | _ => rfl

theorem guarded_start (r : Runner) : guarded r.start = true := by
  unfold Runner.start
  split_ifs
  · rfl
  · rfl
  · rfl
  · rfl

theorem guarded_agentEnd (r : Runner) (errorMessage : Option String) (messages : List Message) :
    guarded (r.agentEnd errorMessage messages) = true := by
  unfold Runner.agentEnd
  split
  · split_ifs
    · rfl
    · rfl
  · split_ifs
    · rfl
    · rfl
    · rfl
    · rfl

theorem settle_guarded (w : World) (t : Task) {ops : List Op} (h : guarded ops = true) :
    guarded (settle w t ops).2 = true := by
  fun_induction settle
  case case2 ih | case9 ih | case10 ih => exact ih h
  case case3 | case4 | case5 | case6 | case7 => cases h
  case case8 ops _ _ _ =>
    split_ifs
    · exact h
    · exact h
  case case11 release _ _ =>
    cases release with
    | false => exact h
    | true => exact h
  case case1 | case12 => rfl
  case case13 => exact h

theorem settle_prompted (h : t.id = id → guarded ops = true) (hw : .prompted id ∉ w.effects) :
    .prompted id ∉ (settle w t ops).1.effects := by
  have hprompt : ∀ {ops : List Op} (v : World), .prompted id ∉ v.effects → (t.id = id → guarded ops = true) →
      guarded ops = false → .prompted id ∉ (prompt v t).1.effects := by
    intro ops v hv hguarded hnot
    have hid : t.id ≠ id := by
      intro heq
      rw [hguarded heq] at hnot
      cases hnot
    unfold prompt
    split_ifs
    · exact hv
    · exact fun hmem => (List.mem_append.mp hmem).elim hv fun hnew =>
        hid (Effect.prompted.inj (List.mem_singleton.mp hnew)).symm
  fun_induction settle
  case case2 ih =>
    refine ih h fun hmem => (List.mem_append.mp hmem).elim hw fun hnew => ?_
    cases List.mem_singleton.mp hnew
  case case9 ih | case10 ih => exact ih h hw
  case case3 | case7 => exact hprompt _ hw h rfl
  case case1 | case4 | case5 | case6 | case8 | case11 | case12 | case13 => exact hw

/-! What keeps the worker idle -/

/-- The worker stays idle unless a `markStarted` is carried out. -/
structure Calm (id : WorkerId) (w : World) : Prop extends StaysIdle id w where
  guarded : ∀ t ∈ w.tasks, t.id = id → guarded t.ops = true

theorem Calm.frame (h : Calm id w) (heffects : w'.effects = w.effects) (hstatus : w'.rows.status id ≠ some .running)
    (htasks : w'.tasks = w.tasks) : Calm id w' :=
  ⟨⟨heffects ▸ h.prompted, hstatus⟩, htasks ▸ h.guarded⟩

theorem Calm.resume (h : Calm id w) {i : ℕ} (t : Task) {ops : List Op} (hops : t.id = id → Workers.guarded ops = true) :
    Calm id (w.resume i t ops) where
  prompted := settle_prompted hops h.prompted
  status := by
    rw [World.resume, (settle_settles w t ops).rows]
    exact h.status
  guarded t' ht' hid := by
    rcases List.mem_or_eq_of_mem_set ht' with hold | rfl
    · exact h.guarded t' ((settle_settles w t ops).tasks ▸ hold) hid
    · exact settle_guarded w t (hops hid)

theorem Calm.begin (h : Calm id w) (r : ℕ) {runner : Runner} (job : Job) {ops : List Op}
    (hops : runner.row.id = id → Workers.guarded ops = true) : Calm id (w.begin r runner job ops) where
  prompted := settle_prompted (t := ⟨runner.row.id, r, job, ops⟩) hops h.prompted
  status := by
    rw [World.begin, (settle_settles w _ ops).rows]
    exact h.status
  guarded t' ht' hid := by
    rcases List.mem_append.mp ht' with hold | hnew
    · exact h.guarded t' ((settle_settles w _ ops).tasks ▸ hold) hid
    · rw [List.mem_singleton.mp hnew] at hid ⊢
      exact settle_guarded w _ (hops hid)

theorem Calm.suspendRunner (h : Calm id w) (r : ℕ) : Calm id (suspendRunner w r) := by
  rcases suspendRunner_cases w r with ⟨-, heq⟩ | ⟨runner, -, -, heq⟩
  · rw [heq]
    exact h
  · have haborted : Calm id (w.modifyAgent r Agent.abort) := h.frame rfl h.status rfl
    rw [heq]
    exact haborted.begin r .suspend fun _ => rfl

theorem marksStarted_eq {op : Op} (h : op.marksStarted = true) : op = .store .markStarted := by
  unfold Op.marksStarted at h
  split at h
  · rfl
  · cases h

theorem RowsMoved.calm {e : Event} {rows : WorkerRows} (hrows : RowsMoved w e rows) (h : Calm id w)
    (hok : NotStarted id w e) :
    rows.status id ≠ some .running := by
  cases hrows with
  | same => exact h.status
  | @wrote i t op ops u ht hops hop =>
    rw [status_update]
    split_ifs with hid
    · have hguarded := h.guarded t (List.mem_of_getElem? ht) hid.symm
      rw [hops, guarded, Bool.or_eq_true, Bool.and_eq_true] at hguarded
      rcases hguarded with hmarks | ⟨hstirs, -⟩
      · rw [marksStarted_eq hmarks] at hops
        exact absurd hops (hok i t ops rfl ht hid.symm)
      · have hu : u.status ≠ some .running := by
          rcases hop with rfl | rfl
          · simpa [Op.stirs] using hstirs
          · simpa [Op.stirs] using hstirs
        have hold := h.status
        cases hstatus : w.rows.status id with
        | none => simp
        | some status =>
          cases hwrites : u.status with
          | none => simpa [hstatus] using hold
          | some written => simpa [hwrites] using hu
    · simpa using h.status
  | marked reply hi =>
    rw [status_update]
    split_ifs
    · cases w.rows.status id with
      | none => simp
      | some status => simp [RowUpdate.status]
    · simpa using h.status
  | inserted reply hi hinsert =>
    rw [status_insert hinsert]
    split_ifs
    · simp
    · exact h.status

theorem calm_went {i : ℕ} {reply : Reply} {op : Op} {ops : List Op} {w₁ : World} {out : Except String (List Op)}
    (h : Calm id w) (hok : NotStarted id w (.go i reply)) (ht : w.tasks[i]? = some t) (hops : t.ops = op :: ops)
    (ha : Answered w t op reply w₁ out) : Calm id (w₁.resume i t (t.next ops out)) := by
  have hstatus := (ha.rows ht hops).calm h hok
  have hw₁ : Calm id w₁ := by
    refine ⟨⟨?_, hstatus⟩, ha.tasks ▸ h.guarded⟩
    have hprompted := h.prompted
    cases ha with
    | acquired | released =>
      refine fun hmem => (List.mem_append.mp hmem).elim hprompted fun hnew => ?_
      cases List.mem_singleton.mp hnew
    | _ => exact hprompted
  refine hw₁.resume t fun hid => ?_
  have hguarded := h.guarded t (List.mem_of_getElem? ht) hid
  rw [hops] at hguarded
  cases ha with
  | threw => exact guarded_onError _ _
  | loaded => rfl
  | tape => exact guarded_tail hguarded rfl
  | wrote u =>
    cases hmarks : (Op.store u).marksStarted with
    | true => exact absurd (marksStarted_eq hmarks ▸ hops) (hok i t ops rfl ht hid)
    | false => exact guarded_tail hguarded hmarks
  | nothing op reply hquiet =>
    have hmarks : op.marksStarted = false := by
      cases op with
      | store u => cases hquiet
      | _ => rfl
    exact guarded_tail hguarded hmarks
  | acquired | wroteQuietly | notWritten | idle | released | notAttached | notReleased | detached =>
    exact guarded_tail hguarded rfl

theorem calm_acted {e : Event} (hwf : Wf w) (h : Calm id w) (hroute : e ≠ .route id) (hok : NotStarted id w e)
    (ha : Acted w e w') : Calm id w' := by
  have hstatus := ha.rows.calm h hok
  cases ha with
  | refused | cancelIgnored | notRouted | suspendIgnored => exact h
  | spawned | resuming | cancelling | notStarted | message | endIgnored => exact h.frame rfl h.status rfl
  | @cancelled _ r runner =>
    have haborted : Calm id (w.modifyAgent r Agent.abort) := h.frame rfl h.status rfl
    exact haborted.begin r .cancel fun _ => rfl
  | @routed id' r runner hmap hr hlifetime =>
    refine h.begin r .route fun hid => ?_
    obtain ⟨x, hx, hrow⟩ := hwf.agents id' r hmap
    cases hr.symm.trans hx
    exact absurd (congrArg Event.route (hrow.symm.trans hid)) hroute
  | @suspended r runner =>
    have haborted : Calm id (w.modifyAgent r Agent.abort) := h.frame rfl h.status rfl
    exact haborted.begin r .suspend fun _ => rfl
  | shutdown =>
    have hstart : Calm id { w with shuttingDown := true, queue := [] } := h.frame rfl h.status rfl
    exact (suspendAll_keeps (fun _ r hv => hv.suspendRunner r) _ hstart).frame rfl hstatus rfl
  | @ended r runner errorMessage messages =>
    have hended : Calm id (w.modifyAgent r Agent.ended) := h.frame rfl h.status rfl
    exact hended.begin r .agentEnd fun _ => guarded_agentEnd ..
  | @flushed r runner => exact h.begin r .flush fun _ => rfl
  | went ht hops hanswer => exact calm_went h hok ht hops hanswer
  | @started i id' row =>
    have hnew : ∀ runners agents, Calm id { w with
        starting := w.starting.eraseIdx i, runners := runners, agents := agents } :=
      fun _ _ => h.frame rfl h.status rfl
    exact (hnew _ _).begin _ .start fun _ => guarded_start _
  | errand reply hi he =>
    have haside := he.aside
    exact h.frame haside.effects hstatus haside.tasks

theorem running_acted {e : Event} (hid : (w.rows.status id).isSome) (hnot : ¬ NotStarted id w e) (ha : Acted w e w') :
    w'.rows.status id = some .running := by
  unfold NotStarted at hnot
  push Not at hnot
  obtain ⟨i, t, ops, rfl, ht, rfl, hops⟩ := hnot
  cases ha with
  | @went _ _ t' op ops' w₁ out ht' hops' ha =>
    cases ht.symm.trans ht'
    cases hops.symm.trans hops'
    cases ha with
    | wrote =>
      obtain ⟨status, hstatus⟩ := Option.isSome_iff_exists.mp hid
      rw [resume_rows, World.written, status_update, hstatus, Option.map_some, if_pos rfl]
      rfl
    | nothing op reply hquiet => cases hquiet

/-! Runs -/

structure IdleInv (id : WorkerId) (w : World) : Prop where
  wf : Wf w
  stored : (w.rows.status id).isSome = true
  guarded : StaysIdle id w → ∀ t ∈ w.tasks, t.id = id → guarded t.ops = true

theorem Pumped.staysIdle_iff (h : Pumped w w') : StaysIdle id w' ↔ StaysIdle id w :=
  ⟨fun hw' => ⟨h.effects ▸ hw'.prompted, h.rows ▸ hw'.status⟩,
    fun hw => ⟨h.effects.symm ▸ hw.prompted, h.rows.symm ▸ hw.status⟩⟩

theorem idle_step {e : Event} (hinv : IdleInv id w) (hidle : StaysIdle id w) (hroute : e ≠ .route id)
    (hs : step maxConcurrent w e = some w') : IdleInv id w' ∧ (StaysIdle id w' ↔ NotStarted id w e) := by
  have hwf := wf_step hinv.wf hs
  obtain ⟨w₁, hact, rfl⟩ := step_cases hs
  have hacted := acted_of_act hact
  have hpump := pump_pumped maxConcurrent w₁
  have hstored : ((pump maxConcurrent w₁).rows.status id).isSome = true :=
    hpump.rows.symm ▸ hacted.rows.isSome hinv.stored
  by_cases hok : NotStarted id w e
  · have hcalm := calm_acted hinv.wf ⟨hidle, hinv.guarded hidle⟩ hroute hok hacted
    exact ⟨⟨hwf, hstored, fun _ => hpump.tasks.symm ▸ hcalm.guarded⟩,
      iff_of_true (hpump.staysIdle_iff.mpr hcalm.toStaysIdle) hok⟩
  · have hrunning : (pump maxConcurrent w₁).rows.status id = some .running :=
      hpump.rows.symm ▸ running_acted hinv.stored hok hacted
    have hnot : ¬ StaysIdle id (pump maxConcurrent w₁) := fun hidle' => hidle'.status hrunning
    exact ⟨⟨hwf, hstored, fun hidle' => absurd hidle' hnot⟩, iff_of_false hnot hok⟩

/-- Without a message routed to it, a worker that is idle in the table of a new process is neither prompted nor
running at any point exactly if no start of it comes as far as `markStarted`. -/
theorem staysIdle_iff_notStarted {rows : WorkerRows} {containers : List WorkerId} {es : List Event} {m : World}
    (hidle : rows.status id = some .idle) (hroute : ∀ e ∈ es, e ≠ .route id)
    (h : Runs.run (step maxConcurrent) (.init rows containers) es = some m) :
    (∀ es' m', es' <+: es → Runs.run (step maxConcurrent) (.init rows containers) es' = some m' → StaysIdle id m') ↔
      Runs.RunOk (step maxConcurrent) (NotStarted id) (.init rows containers) es := by
  have hinit : StaysIdle id (.init rows containers) := by
    refine ⟨List.not_mem_nil, fun hrunning => ?_⟩
    cases hidle.symm.trans hrunning
  have hinv : IdleInv id (.init rows containers) := by
    refine ⟨wf_init rows containers, ?_, fun _ t ht => absurd ht List.not_mem_nil⟩
    rw [World.init, hidle]
    rfl
  exact (Runs.runOk_iff_prefixes (H := fun _ e => e ≠ .route id) (IdleInv id) (StaysIdle id)
    (fun _ _ _ hi hq hr hs => idle_step hi hq hr hs) hinv hinit (Runs.runOk_of_mem (fun e he _ => hroute e he) _) h).symm

/-! A worker that has had its answer -/

def idleRow (kind : WorkerKind) : WorkerRow :=
  ⟨"scout", kind, .persistent, none, .explicit, .idle, [⟨.user (.plain "list the files"), 1, none⟩], some "tape",
    none⟩

def noContainer : List Event := [.resumePending, .errand 0 .done, .fetched 0 .done, .go 0 (.error "no such image")]

theorem staysIdle_iff_notStarted_failed : ∃ m, Runs.run (step 4) (.init [idleRow .executor] []) noContainer = some m ∧
    StaysIdle "scout" m := by
  have hrun : Runs.run (step 4) (.init [idleRow .executor] []) noContainer = some _ := rfl
  refine ⟨_, hrun, (staysIdle_iff_notStarted rfl (by simp [noContainer]) hrun).mpr ?_ _ _ (List.prefix_refl _) hrun⟩
  refine Runs.runOk_of_mem (fun e he s i t ops hgo => ?_) _
  subst hgo
  simp [noContainer] at he

/-- Nothing goes wrong. -/
def resumedIdle : List Event :=
  [.resumePending, .errand 0 .done, .fetched 0 .done, .go 0 (.entries []), .go 0 .done, .go 0 .done, .go 0 .done]

theorem idle_worker_prompted : ¬ ∀ (maxConcurrent : ℕ) (rows : WorkerRows) (containers : List WorkerId) (id : WorkerId)
    (es : List Event) (m : World), rows.status id = some .idle → (∀ e ∈ es, e ≠ .route id) →
      Runs.run (step maxConcurrent) (.init rows containers) es = some m →
        .prompted id ∉ m.effects ∧ m.rows.status id ≠ some .running := by
  intro h
  have hquiet := h 4 [idleRow .coordinator] [] "scout" resumedIdle _ rfl (by simp [resumedIdle]) rfl
  exact hquiet.1 (by decide)

end Nexal.Workers
