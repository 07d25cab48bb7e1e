import Nexal.Lib.Lists
import Nexal.Lib.Runs
import Nexal.Spec.WorkerRegistry

/-! What the parts of a step leave as it is. -/

namespace Nexal.Workers

variable {w w' : World} {t : Task}

/-! Rows -/

def RowUpdate.status : RowUpdate → Option WorkerStatus
  | .setStatus status _ => some status
  | .setMessages _ | .setTapeId _ => none
  | .markStarted => some .running
  | .markIdle _ => some .idle
  | .markCompleted _ => some .completed
  | .markFailed _ => some .failed

theorem RowUpdate.apply_id (row : WorkerRow) (u : RowUpdate) : (u.apply row).id = row.id := by
  cases u with
  | setStatus _ _ | setMessages _ | setTapeId _ | markStarted | markIdle _ | markCompleted _ | markFailed _ => rfl

theorem RowUpdate.apply_status (row : WorkerRow) (u : RowUpdate) : (u.apply row).status = u.status.getD row.status := by
  cases u with
  | setStatus _ _ | setMessages _ | setTapeId _ | markStarted | markIdle _ | markCompleted _ | markFailed _ => rfl

theorem get_update (rows : WorkerRows) (id id' : WorkerId) (u : RowUpdate) :
    (rows.update id u).get id' = (rows.get id').map fun row => if id' = id then u.apply row else row := by
  rw [WorkerRows.get, WorkerRows.update, List.find?_map, WorkerRows.get]
  have hid : ((fun row : WorkerRow => decide (row.id = id')) ∘ fun row => if row.id = id then u.apply row else row) =
      fun row => decide (row.id = id') := by
    funext row
    simp only [Function.comp_apply]
    split_ifs
    · rw [u.apply_id]
    · rfl
  rw [hid]
  cases hfind : List.find? (fun row : WorkerRow => decide (row.id = id')) rows with
  | none => rfl
  | some row =>
    have hrow : row.id = id' := by simpa using List.find?_some hfind
    rw [Option.map_some, Option.map_some, hrow]

theorem status_update (rows : WorkerRows) (id id' : WorkerId) (u : RowUpdate) : (rows.update id u).status id' =
    (rows.status id').map fun status => if id' = id then u.status.getD status else status := by
  rw [WorkerRows.status, get_update, WorkerRows.status, Option.map_map, Option.map_map]
  congr 1
  funext row
  simp only [Function.comp_apply]
  split_ifs
  · exact u.apply_status row
  · rfl

theorem status_insert {rows rows' : WorkerRows} {c : WorkerCreate} (h : rows.insert c = some rows') (id : WorkerId) :
    rows'.status id = if id = c.id then some .spawning else rows.status id := by
  unfold WorkerRows.insert at h
  split_ifs at h with hsome
  cases h
  rw [Bool.not_eq_true, Option.isSome_eq_false_iff, Option.isNone_iff_eq_none, WorkerRows.get] at hsome
  rw [WorkerRows.status, WorkerRows.get, List.find?_append]
  split_ifs with hid
  · subst hid
    rw [hsome]
    simp
  · rw [WorkerRows.status, WorkerRows.get]
    cases List.find? (fun row : WorkerRow => decide (row.id = id)) rows with
    | none => simp [Ne.symm hid]
    | some row => rfl

/-! Tasks that go on -/

structure Keeps (f : Runner → Runner) : Prop where
  row : ∀ r, (f r).row = r.row
  resumed : ∀ r, (f r).resumed = r.resumed
  client : ∀ r, r.client = true → (f r).client = true
  disposed : ∀ r, r.disposed = true → (f r).disposed = true

/-- What a task does in one go: it is at work on its runner, and on what is not named here. -/
structure Settles (w : World) (t : Task) (w' : World) : Prop where
  rows : w'.rows = w.rows
  containers : w'.containers = w.containers
  attached : w'.attached = w.attached
  runners : ∃ f, Keeps f ∧ w'.runners = w.runners.modify t.runner f
  tasks : w'.tasks = w.tasks
  queue : w'.queue = w.queue
  starting : w'.starting = w.starting
  errands : w'.errands = w.errands
  shuttingDown : w'.shuttingDown = w.shuttingDown
  shutDown : w'.shutDown = w.shutDown

theorem keeps_id : Keeps id := ⟨fun _ => rfl, fun _ => rfl, fun _ h => h, fun _ h => h⟩

theorem Keeps.comp {f g : Runner → Runner} (hf : Keeps f) (hg : Keeps g) : Keeps (g ∘ f) :=
  ⟨fun r => (hg.row _).trans (hf.row r), fun r => (hg.resumed _).trans (hf.resumed r),
    fun r h => hg.client _ (hf.client r h),
    fun r h => hg.disposed _ (hf.disposed r h)⟩

theorem Settles.refl (w : World) (t : Task) : Settles w t w :=
  ⟨rfl, rfl, rfl, ⟨id, keeps_id, (List.modify_id ..).symm⟩, rfl, rfl, rfl, rfl, rfl, rfl⟩

theorem Settles.trans {w'' : World} (h : Settles w t w') (h' : Settles w' t w'') : Settles w t w'' where
  rows := h'.rows.trans h.rows
  containers := h'.containers.trans h.containers
  attached := h'.attached.trans h.attached
  runners := by
    obtain ⟨f, hf, heq⟩ := h.runners
    obtain ⟨g, hg, heq'⟩ := h'.runners
    exact ⟨g ∘ f, hf.comp hg, by rw [heq', heq, List.modify_modify_eq]⟩
  tasks := h'.tasks.trans h.tasks
  queue := h'.queue.trans h.queue
  starting := h'.starting.trans h.starting
  errands := h'.errands.trans h.errands
  shuttingDown := h'.shuttingDown.trans h.shuttingDown
  shutDown := h'.shutDown.trans h.shutDown

theorem Settles.did (h : Settles w t w') (effect : Effect) : Settles w t (w'.did effect) :=
  ⟨h.rows, h.containers, h.attached, h.runners, h.tasks, h.queue, h.starting, h.errands, h.shuttingDown, h.shutDown⟩

theorem settles_modify (w : World) (t : Task) {f : Runner → Runner} (hf : Keeps f) :
    Settles w t (w.modifyRunner t.runner f) :=
  ⟨rfl, rfl, rfl, ⟨f, hf, rfl⟩, rfl, rfl, rfl, rfl, rfl, rfl⟩

theorem keeps_newAgent (messages : List Message) : Keeps (Runner.newAgent messages) :=
  ⟨fun _ => rfl, fun _ => rfl, fun _ h => h, fun _ h => h⟩

theorem keeps_mapAgent (f : Agent → Agent) : Keeps (Runner.mapAgent f) :=
  ⟨fun _ => rfl, fun _ => rfl, fun _ h => h, fun _ h => h⟩

theorem keeps_gotClient : Keeps Runner.gotClient := ⟨fun _ => rfl, fun _ => rfl, fun _ _ => rfl, fun _ h => h⟩

theorem keeps_nowDisposed : Keeps Runner.nowDisposed := ⟨fun _ => rfl, fun _ => rfl, fun _ h => h, fun _ _ => rfl⟩

theorem prompt_settles (w : World) (t : Task) : Settles w t (prompt w t).1 := by
  unfold prompt
  split_ifs
  · exact .refl w t
  · exact (settles_modify w t (keeps_mapAgent _)).did _

theorem settle_settles (w : World) (t : Task) (ops : List Op) : Settles w t (settle w t ops).1 := by
  fun_induction settle
  case case2 ih => exact ((settles_modify _ t (keeps_newAgent _)).did _).trans ih
  case case3 | case7 => exact prompt_settles _ t
  case case9 ih | case10 ih => exact ih
  case case11 => exact settles_modify _ t keeps_nowDisposed
  case case12 => exact ⟨rfl, rfl, rfl, (Settles.refl _ t).runners, rfl, rfl, rfl, rfl, rfl, rfl⟩
  case case1 | case4 | case5 | case6 | case8 | case13 => exact .refl _ t

/-- Only the end of a task takes a runner out of the map. -/
theorem settle_agents (w : World) (t : Task) (ops : List Op) : (settle w t ops).1.agents = w.agents ∨
    ((settle w t ops).1.agents = w.agents.erase t.id ∧ (settle w t ops).2 = []) := by
  fun_induction settle
  case case2 ih | case9 ih | case10 ih => exact ih
  case case3 | case7 =>
    unfold prompt
    split_ifs
    · exact Or.inl rfl
    · exact Or.inl rfl
  case case12 => exact Or.inr ⟨rfl, rfl⟩
  case case1 | case4 | case5 | case6 | case8 | case11 | case13 => exact Or.inl rfl

/-- An agent is made, or prompted. -/
theorem settle_effects (w : World) (t : Task) (ops : List Op) : ∃ more, (settle w t ops).1.effects = w.effects ++ more ∧
    ∀ effect ∈ more, effect = .created t.id ∨ effect = .prompted t.id := by
  have hprompt : ∀ v : World, ∃ more, (prompt v t).1.effects = v.effects ++ more ∧
      ∀ effect ∈ more, effect = .created t.id ∨ effect = .prompted t.id := by
    intro v
    unfold prompt
    split_ifs
    · exact ⟨[], (List.append_nil _).symm, List.forall_mem_nil _⟩
    · exact ⟨[.prompted t.id], rfl, List.forall_mem_singleton.mpr (Or.inr rfl)⟩
  fun_induction settle
  case case2 ih =>
    obtain ⟨more, hmore, hall⟩ := ih
    exact ⟨.created t.id :: more, hmore.trans (List.append_assoc ..), List.forall_mem_cons.mpr ⟨Or.inl rfl, hall⟩⟩
  case case3 | case7 => exact hprompt _
  case case9 ih | case10 ih => exact ih
  case case1 | case4 | case5 | case6 | case8 | case11 | case12 | case13 =>
    exact ⟨[], (List.append_nil _).symm, List.forall_mem_nil _⟩

structure Later (r r' : Runner) : Prop where
  row : r'.row = r.row
  resumed : r'.resumed = r.resumed
  client : r.client = true → r'.client = true
  disposed : r.disposed = true → r'.disposed = true

theorem Later.refl (r : Runner) : Later r r := ⟨rfl, rfl, fun h => h, fun h => h⟩

theorem Keeps.later {f : Runner → Runner} (h : Keeps f) (r : Runner) : Later r (f r) :=
  ⟨h.row r, h.resumed r, h.client r, h.disposed r⟩

theorem runner_modify_cases {f : Runner → Runner} (hf : Keeps f) {l : List Runner} {r j : ℕ} {x : Runner}
    (h : (l.modify r f)[j]? = some x) : ∃ y, l[j]? = some y ∧ Later y x ∧ (j ≠ r → x = y) := by
  rw [List.getElem?_modify] at h
  obtain ⟨y, hy, hx⟩ := Option.map_eq_some_iff.mp h
  refine ⟨y, hy, ?_, fun hne => ?_⟩
  · split_ifs at hx
    · exact hx ▸ hf.later y
    · exact hx ▸ Later.refl y
  · rw [if_neg (Ne.symm hne)] at hx
    exact hx.symm

theorem runner_modify {f : Runner → Runner} (hf : Keeps f) {l : List Runner} {j : ℕ} {y : Runner} (r : ℕ)
    (h : l[j]? = some y) : ∃ x, (l.modify r f)[j]? = some x ∧ Later y x := by
  refine ⟨_, by rw [List.getElem?_modify, h]; rfl, ?_⟩
  dsimp only
  split_ifs
  · exact hf.later y
  · exact Later.refl y

theorem isDisposed_modifyRunner (w : World) (r : ℕ) {f : Runner → Runner} (hf : ∀ y, (f y).disposed = y.disposed)
    (j : ℕ) :
    (w.modifyRunner r f).isDisposed j = w.isDisposed j := by
  unfold World.isDisposed World.modifyRunner
  rw [List.getElem?_modify]
  cases w.runners[j]? with
  | none => rfl
  | some y =>
    rw [Option.map_eq_map, Option.map_some, Option.any_some, Option.any_some]
    split_ifs
    · exact hf y
    · rfl

/-! Answers -/

/-- Calls whose errors are caught, and that change nothing here. -/
def Op.quiet : Op → Bool
  | .setupProxies | .configTape | .recordTapeStatus _ | .recordMessages | .writeImages | .sendToChat | .closeClient => true
  | _ => false

/-- Calls whose errors are thrown on. -/
def Op.throws : Op → Bool
  | .acquireAgent | .createTape | .store _ => true
  | _ => false

inductive Answered (w : World) (t : Task) : Op → Reply → World → Except String (List Op) → Prop where
  | acquired : Answered w t .acquireAgent .done (w.acquired t) (.ok [])
  | tape (tapeId : String) : Answered w t .createTape (.tape tapeId) w (.ok [.store (.setTapeId tapeId)])
  | loaded (reply : Reply) (messages : List Message) : Answered w t .loadTape reply w (.ok (Runner.started messages))
  | wrote (u : RowUpdate) : Answered w t (.store u) .done (w.written t u) (.ok [])
  | wroteQuietly (u : RowUpdate) : Answered w t (.storeQuietly u) .done (w.written t u) (.ok [])
  | notWritten (u : RowUpdate) (error : String) : Answered w t (.storeQuietly u) (.error error) w (.ok [])
  | idle (h : w.isStreaming t.runner = false) : Answered w t .waitForIdle .done w (.ok [])
  | released (h : t.id ∈ w.attached) : Answered w t .releaseAgent .done (w.released t) (.ok [])
  | notAttached (h : t.id ∉ w.attached) : Answered w t .releaseAgent .done w (.ok [])
  | notReleased (error : String) : Answered w t .releaseAgent (.error error) (w.forgotten t) (.ok [])
  | detached (reply : Reply) : Answered w t .detachAgent reply (w.forgotten t) (.ok [])
  | nothing (op : Op) (reply : Reply) (h : op.quiet = true) : Answered w t op reply w (.ok [])
  | threw (op : Op) (error : String) (h : op.throws = true) : Answered w t op (.error error) w (.error error)

theorem answered_of_answer {op : Op} {reply : Reply} {out : Except String (List Op)}
    (h : answer w t op reply = some (w', out)) : Answered w t op reply w' out := by
  unfold answer at h
  split at h
  case h_1 =>
    cases h
    exact .acquired
  case h_2 =>
    cases h
    exact .tape _
  case h_3 | h_4 =>
    obtain ⟨r, -, hr⟩ := Option.map_eq_some_iff.mp h
    cases hr
    exact .loaded _ _
  case h_5 =>
    cases h
    exact .wrote _
  case h_6 =>
    cases h
    exact .wroteQuietly _
  case h_7 =>
    cases h
    exact .notWritten _ _
  case h_8 | h_9 | h_10 =>
    cases h
    exact .threw _ _ rfl
  case h_11 =>
    split_ifs at h with hstreaming
    cases h
    exact .idle (Bool.not_eq_true _ ▸ hstreaming)
  case h_12 =>
    split_ifs at h with hattached
    · cases h
      exact .released hattached
    · cases h
      exact .notAttached hattached
  case h_13 =>
    cases h
    exact .notReleased _
  case h_14 | h_15 =>
    cases h
    exact .detached _
  case h_16 | h_17 | h_18 | h_19 | h_20 | h_21 | h_22 =>
    cases h
    exact .nothing _ _ rfl
  case h_23 => cases h

/-- A task's call is answered: the task goes on with what came of it and what it had left. -/
theorem go_cases {i : ℕ} {reply : Reply} (h : go w i reply = some w') :
    ∃ t op ops w₁ out, w.tasks[i]? = some t ∧ t.ops = op :: ops ∧ Answered w t op reply w₁ out ∧
      w' = w₁.resume i t (t.next ops out) := by
  obtain ⟨t, ht, h⟩ := Option.bind_eq_some_iff.mp h
  split at h
  · cases h
  · rename_i op ops hops
    obtain ⟨⟨w₁, out⟩, hout, h⟩ := Option.map_eq_some_iff.mp h
    exact ⟨t, op, ops, w₁, out, ht, hops, answered_of_answer hout, h.symm⟩

/-! Tasks and the map lead to runners of their workers -/

structure Wf (w : World) : Prop where
  tasks : ∀ t ∈ w.tasks, ∃ r, w.runners[t.runner]? = some r ∧ r.row.id = t.id
  agents : ∀ id i, w.agents.lookup id = some i → ∃ r, w.runners[i]? = some r ∧ r.row.id = id

theorem wf_init (rows : WorkerRows) (containers : List WorkerId) : Wf (.init rows containers) where
  tasks t ht := by cases ht
  agents id i h := by
    rw [World.init, AList.lookup_empty] at h
    cases h

section Wf
variable {i : ℕ} {ops : List Op}

theorem Wf.frame (h : Wf w) (hrunners : w'.runners = w.runners) (htasks : w'.tasks = w.tasks)
    (hagents : w'.agents = w.agents) : Wf w' where
  tasks := by
    rw [htasks, hrunners]
    exact h.tasks
  agents := by
    rw [hagents, hrunners]
    exact h.agents

theorem Wf.modifyRunner (h : Wf w) (i : ℕ) {f : Runner → Runner} (hf : Keeps f) : Wf (w.modifyRunner i f) where
  tasks t ht := by
    obtain ⟨r, hr, hid⟩ := h.tasks t ht
    obtain ⟨r', hr', hlater⟩ := runner_modify hf i hr
    exact ⟨r', hr', hlater.row ▸ hid⟩
  agents id j hj := by
    obtain ⟨r, hr, hid⟩ := h.agents id j hj
    obtain ⟨r', hr', hlater⟩ := runner_modify hf i hr
    exact ⟨r', hr', hlater.row ▸ hid⟩

theorem Wf.settle (h : Wf w) (t : Task) (ops : List Op) : Wf (settle w t ops).1 := by
  have hs := settle_settles w t ops
  obtain ⟨f, hf, hrunners⟩ := hs.runners
  have hmodify := h.modifyRunner t.runner hf
  refine ⟨?_, fun id j hj => ?_⟩
  · rw [hs.tasks, hrunners]
    exact hmodify.tasks
  · rw [hrunners]
    rcases settle_agents w t ops with hagents | ⟨hagents, -⟩
    · exact hmodify.agents id j (hagents ▸ hj)
    · exact hmodify.agents id j (Lists.lookup_of_erase (hagents ▸ hj)).2

theorem Wf.resume (h : Wf w) (ht : w.tasks[i]? = some t) (ops : List Op) : Wf (w.resume i t ops) where
  tasks t' ht' := by
    have hs := h.settle t ops
    have htasks := (settle_settles w t ops).tasks
    rcases List.mem_or_eq_of_mem_set ht' with hold | rfl
    · exact hs.tasks t' hold
    · exact hs.tasks t (htasks ▸ List.mem_of_getElem? ht)
  agents := (h.settle t ops).agents

theorem Wf.begin (h : Wf w) {r : ℕ} {runner x : Runner} (hr : w.runners[r]? = some x) (hrow : x.row = runner.row)
    (job : Job)
    (ops : List Op) : Wf (w.begin r runner job ops) where
  tasks t' ht' := by
    have hs := h.settle ⟨runner.row.id, r, job, ops⟩ ops
    rcases List.mem_append.mp ht' with hold | hnew
    · exact hs.tasks t' hold
    · rw [List.mem_singleton.mp hnew]
      obtain ⟨f, hf, hrunners⟩ := (settle_settles w ⟨runner.row.id, r, job, ops⟩ ops).runners
      obtain ⟨y, hy, hlater⟩ := runner_modify hf r hr
      exact ⟨y, hrunners ▸ hy, by rw [hlater.row, hrow]⟩
  agents := (h.settle ⟨runner.row.id, r, job, ops⟩ ops).agents

theorem Wf.written (h : Wf w) (t : Task) (u : RowUpdate) : Wf (w.written t u) := h.frame rfl rfl rfl

theorem Answered.wf {op : Op} {reply : Reply} {out : Except String (List Op)} (ha : Answered w t op reply w' out)
    (h : Wf w) :
    Wf w' := by
  cases ha with
  | acquired => exact (h.modifyRunner t.runner keeps_gotClient).frame rfl rfl rfl
  | wrote u | wroteQuietly u => exact h.written t u
  | released _ | notReleased _ | detached _ => exact h.frame rfl rfl rfl
  | tape _ | loaded _ _ | notWritten _ _ | idle _ | notAttached _ | nothing _ _ _ | threw _ _ _ => exact h

theorem Answered.tasks {op : Op} {reply : Reply} {out : Except String (List Op)} (ha : Answered w t op reply w' out) :
    w'.tasks = w.tasks := by
  cases ha with
  | _ => rfl

theorem Answered.runners {op : Op} {reply : Reply} {out : Except String (List Op)} (ha : Answered w t op reply w' out) :
    ∃ f, Keeps f ∧ w'.runners = w.runners.modify t.runner f := by
  cases ha with
  | acquired => exact ⟨_, keeps_gotClient, rfl⟩
  | _ => exact ⟨id, keeps_id, (List.modify_id ..).symm⟩

/-- A task that goes on touches its runner only. -/
theorem resume_runners (i : ℕ) (ops : List Op) {op : Op} {reply : Reply} {out : Except String (List Op)}
    (ha : Answered w t op reply w' out) : ∃ f, Keeps f ∧ (w'.resume i t ops).runners = w.runners.modify t.runner f := by
  obtain ⟨f, hf, hrunners⟩ := ha.runners
  obtain ⟨g, hg, hrunners'⟩ := (settle_settles w' t ops).runners
  rw [hrunners, List.modify_modify_eq] at hrunners'
  exact ⟨g ∘ f, hf.comp hg, hrunners'⟩

theorem Answered.isDisposed {op : Op} {reply : Reply} {out : Except String (List Op)}
    (ha : Answered w t op reply w' out) (j : ℕ) :
    w'.isDisposed j = w.isDisposed j := by
  cases ha with
  | acquired => exact isDisposed_modifyRunner w t.runner (f := Runner.gotClient) (fun _ => rfl) j
  | _ => rfl

/-- The runner that `agents.get` finds. -/
theorem found_eq_some {id : WorkerId} {r : ℕ} {runner : Runner}
    (h : ((w.agents.lookup id).bind fun r => w.runners[r]?.map fun runner => (r, runner)) = some (r, runner)) :
    w.agents.lookup id = some r ∧ w.runners[r]? = some runner := by
  obtain ⟨r', hr', h⟩ := Option.bind_eq_some_iff.mp h
  obtain ⟨runner', hrunner', h⟩ := Option.map_eq_some_iff.mp h
  cases h
  exact ⟨hr', hrunner'⟩

theorem Wf.modifyAgent (h : Wf w) (i : ℕ) (f : Agent → Agent) :
    Wf (w.modifyAgent i f) := h.modifyRunner i (keeps_mapAgent f)

theorem Wf.beginAborted (h : Wf w) {r : ℕ} {runner : Runner} (hr : w.runners[r]? = some runner) (f : Agent → Agent)
    (job : Job)
    (ops : List Op) : Wf ((w.modifyAgent r f).begin r runner job ops) := by
  obtain ⟨x, hx, hlater⟩ := runner_modify (keeps_mapAgent f) r hr
  exact (h.modifyAgent r f).begin hx hlater.row job ops

theorem Wf.suspendRunner (h : Wf w) (r : ℕ) : Wf (suspendRunner w r) := by
  unfold Workers.suspendRunner
  split
  · split_ifs
    · exact h
    · exact h.beginAborted ‹_› _ _ _
  · exact h

/-- What each call of `suspend` keeps, all those of `shutdown` keep. -/
theorem suspendAll_keeps {P : World → Prop} (hsuspend : ∀ v r, P v → P (Workers.suspendRunner v r)) (l : List ℕ)
    {v : World}
    (h : P v) : P (l.foldl Workers.suspendRunner v) := by
  induction l generalizing v with
  | nil => exact h
  | cons r l ih => exact ih (hsuspend v r h)

theorem Wf.shutdown (h : Wf w) : Wf (shutdown w) := by
  have hstart : Wf { w with shuttingDown := true, queue := [] } := h.frame rfl rfl rfl
  exact (suspendAll_keeps (fun _ r hv => hv.suspendRunner r) (w.agents.entries.map (·.2)) hstart).frame rfl rfl rfl

theorem Wf.startAgent (h : Wf w) (row : WorkerRow) : Wf (startAgent w row) := by
  have hnew : ∀ runner : Runner, (w.runners ++ [runner])[w.runners.length]? = some runner :=
    fun _ => List.getElem?_concat_length
  have hold : ∀ {j : ℕ} {r : Runner} (runner : Runner), w.runners[j]? = some r →
    (w.runners ++ [runner])[j]? = some r :=
    fun runner hj => Lists.getElem?_append_of_some hj _
  unfold Workers.startAgent
  refine Wf.begin ⟨fun t ht => ?_, fun id j hj => ?_⟩ (hnew _) rfl _ _
  · obtain ⟨r, hr, hid⟩ := h.tasks t ht
    exact ⟨r, hold _ hr, hid⟩
  · rcases Lists.lookup_of_insert hj with ⟨rfl, rfl⟩ | ⟨-, hbefore⟩
    · exact ⟨_, hnew _, rfl⟩
    · obtain ⟨r, hr, hrow⟩ := h.agents id j hbefore
      exact ⟨r, hold _ hr, hrow⟩

end Wf

/-! What the registry does by itself -/

structure Aside (w w' : World) : Prop where
  containers : w'.containers = w.containers
  attached : w'.attached = w.attached
  runners : w'.runners = w.runners
  tasks : w'.tasks = w.tasks
  shuttingDown : w'.shuttingDown = w.shuttingDown
  effects : w'.effects = w.effects

inductive ErrandAnswered (w : World) (i : ℕ) : Errand → World → Prop where
  | dropped (e : Errand) : ErrandAnswered w i e { w with errands := w.errands.eraseIdx i }
  | tape (c : WorkerCreate) (tapeId : String) : ErrandAnswered w i (.creatingTape c)
      { w with errands := w.errands.eraseIdx i ++ [.inserting { c with tapeId := some tapeId }] }
  | inserted (c : WorkerCreate) {rows : WorkerRows} (h : w.rows.insert c = some rows) :
      ErrandAnswered w i (.inserting c) { w with rows := rows, errands := w.errands.eraseIdx i ++ [.linking c.id] }
  | linked (id : WorkerId) : ErrandAnswered w i (.linking id)
      { w with errands := w.errands.eraseIdx i, queue := w.queue ++ [id], pumping := true }
  | listed : ErrandAnswered w i .listing
      { w with
        errands := w.errands.eraseIdx i
        queue := ((w.rows.listByStatus [.spawning, .running, .idle]).map (·.id)).foldl
          (fun queue id => if id ∈ queue then queue else queue ++ [id]) w.queue
        pumping := true }
  | found (id : WorkerId) : ErrandAnswered w i (.cancelling id)
      { w with errands := w.errands.eraseIdx i ++ [.marking id] }
  | marked (id : WorkerId) : ErrandAnswered w i (.marking id)
      { w with
        errands := w.errands.eraseIdx i
        rows := w.rows.update id (.setStatus .cancelled (some "cancelled by dispatcher")) }
  | shutDown (tasks : List ℕ) (h : ∀ j ∈ tasks, ∃ t, w.tasks[j]? = some t ∧ t.ops = []) :
      ErrandAnswered w i (.suspending tasks) { w with errands := w.errands.eraseIdx i, agents := ∅, shutDown := true }

theorem errand_cases {i : ℕ} {reply : Reply} (h : errand w i reply = some w') :
    ∃ e, w.errands[i]? = some e ∧ ErrandAnswered w i e w' := by
  obtain ⟨e, he, h⟩ := Option.bind_eq_some_iff.mp h
  refine ⟨e, he, ?_⟩
  dsimp only at h
  split at h
  case h_1 =>
    split_ifs at h with hall
    cases h
    refine .shutDown _ fun j hj => ?_
    obtain ⟨t, ht, hops⟩ := (Option.any_eq_true _ _).mp (List.all_eq_true.mp hall j hj)
    exact ⟨t, ht, List.isEmpty_iff.mp hops⟩
  case h_2 | h_10 => cases h
  case h_3 =>
    cases h
    exact .dropped e
  case h_4 =>
    cases h
    exact .tape _ _
  case h_5 =>
    split at h
    · cases h
      exact .inserted _ ‹_›
    · cases h
      exact .dropped _
  case h_6 =>
    cases h
    exact .linked _
  case h_7 =>
    cases h
    exact .listed
  case h_8 =>
    split at h
    · cases h
      split_ifs
      · exact .dropped _
      · exact .found _
    · cases h
      exact .dropped _
  case h_9 =>
    cases h
    exact .marked _

theorem ErrandAnswered.aside {i : ℕ} {e : Errand} (h : ErrandAnswered w i e w') : Aside w w' := by
  cases h with
  | _ => exact ⟨rfl, rfl, rfl, rfl, rfl, rfl⟩

structure Pumped (w w' : World) : Prop extends Aside w w' where
  rows : w'.rows = w.rows
  agents : w'.agents = w.agents
  errands : w'.errands = w.errands
  shutDown : w'.shutDown = w.shutDown
  started : ∃ ids, w'.starting = w.starting ++ ids ∧ w.queue = ids ++ w'.queue

section Pump
variable (maxConcurrent : ℕ)

theorem pumpLoop_pumped (w : World) (queue : List WorkerId) :
    Pumped { w with queue := queue } (pumpLoop maxConcurrent w queue) := by
  induction queue generalizing w with
  | nil => exact ⟨⟨rfl, rfl, rfl, rfl, rfl, rfl⟩, rfl, rfl, rfl, rfl, [], (List.append_nil _).symm, rfl⟩
  | cons id queue ih =>
    unfold pumpLoop
    split_ifs
    · have h := ih { w with starting := w.starting ++ [id] }
      obtain ⟨ids, hstarting, hqueue⟩ := h.started
      refine ⟨⟨h.containers, h.attached, h.runners, h.tasks, h.shuttingDown, h.effects⟩, h.rows, h.agents, h.errands,
        h.shutDown, id :: ids, ?_, congrArg (id :: ·) hqueue⟩
      rw [hstarting, List.append_assoc]
      rfl
    · exact ⟨⟨rfl, rfl, rfl, rfl, rfl, rfl⟩, rfl, rfl, rfl, rfl, [], (List.append_nil _).symm, rfl⟩

theorem pump_pumped (w : World) : Pumped w (pump maxConcurrent w) := by
  unfold pump
  split_ifs
  · have h := pumpLoop_pumped maxConcurrent { w with pumping := false } w.queue
    exact ⟨⟨h.containers, h.attached, h.runners, h.tasks, h.shuttingDown, h.effects⟩, h.rows, h.agents, h.errands,
      h.shutDown, h.started⟩
  · exact ⟨⟨rfl, rfl, rfl, rfl, rfl, rfl⟩, rfl, rfl, rfl, rfl, [], (List.append_nil _).symm, rfl⟩

end Pump

/-! Events -/

inductive Acted (w : World) : Event → World → Prop where
  | refused (c : WorkerCreate) : Acted w (.spawn c) w
  | spawned (c : WorkerCreate) : Acted w (.spawn c) { w with errands := w.errands ++ [.creatingTape c] }
  | resuming : Acted w .resumePending { w with errands := w.errands ++ [.listing] }
  | cancelled {id : WorkerId} {r : ℕ} {runner : Runner} (hmap : w.agents.lookup id = some r)
      (hr : w.runners[r]? = some runner) (hdisposed : runner.disposed = false) : Acted w (.cancel id)
      ((w.modifyAgent r Agent.abort).begin r runner .cancel (Runner.cancel "cancelled by dispatcher"))
  | cancelIgnored (id : WorkerId) : Acted w (.cancel id) w
  | cancelling {id : WorkerId} (hnone : ∀ r, w.agents.lookup id = some r → w.runners[r]? = none) :
      Acted w (.cancel id) { w with queue := w.queue.erase id, errands := w.errands ++ [.cancelling id] }
  | routed {id : WorkerId} {r : ℕ} {runner : Runner} (hmap : w.agents.lookup id = some r)
      (hr : w.runners[r]? = some runner) (hlifetime : runner.row.lifetime = .persistent) :
      Acted w (.route id) (w.begin r runner .route runner.route)
  | notRouted (id : WorkerId) : Acted w (.route id) w
  | suspended {r : ℕ} {runner : Runner} (hr : w.runners[r]? = some runner) (hdisposed : runner.disposed = false) :
      Acted w (.suspend r) ((w.modifyAgent r Agent.abort).begin r runner .suspend Runner.suspend)
  | suspendIgnored (r : ℕ) : Acted w (.suspend r) w
  | shutdown : Acted w .shutdown (shutdown w)
  | message {r : ℕ} (m : Message) (hstreaming : w.isStreaming r = true) :
      Acted w (.message r m) (w.modifyAgent r (Agent.push m))
  | ended {r : ℕ} {runner : Runner} {errorMessage : Option String} (messages : List Message)
      (hr : w.runners[r]? = some runner) (hstreaming : runner.isStreaming = true)
      (haborted : runner.agent.any (·.aborted) = true →
        errorMessage.any isAborted = true) (hdisposed : runner.disposed = false) :
      Acted w (.agentEnd r errorMessage messages)
        ((w.modifyAgent r Agent.ended).begin r runner .agentEnd (runner.agentEnd errorMessage messages))
  | endIgnored {r : ℕ} {runner : Runner} (errorMessage : Option String) (messages : List Message)
      (hr : w.runners[r]? = some runner) (hdisposed : runner.disposed = true) :
      Acted w (.agentEnd r errorMessage messages) (w.modifyAgent r Agent.ended)
  | flushed {r : ℕ} {runner : Runner} (hr : w.runners[r]? = some runner) (hdisposed : runner.disposed = false) :
      Acted w (.flushTimer r) (w.begin r runner .flush [.flushNow none true])
  | went {i : ℕ} {reply : Reply} {t : Task} {op : Op} {ops : List Op} {w₁ : World} {out : Except String (List Op)}
      (ht : w.tasks[i]? = some t) (hops : t.ops = op :: ops) (ha : Answered w t op reply w₁ out) :
      Acted w (.go i reply) (w₁.resume i t (t.next ops out))
  | started {i : ℕ} {id : WorkerId} {row : WorkerRow} (hi : w.starting[i]? = some id) (hrow : w.rows.get id = some row)
      (hstatus : row.status.isTerminal = false) :
      Acted w (.fetched i .done) (startAgent { w with starting := w.starting.eraseIdx i } row)
  | notStarted {i : ℕ} {id : WorkerId} (reply : Reply) (hi : w.starting[i]? = some id) :
      Acted w (.fetched i reply) { w with starting := w.starting.eraseIdx i }
  | errand {i : ℕ} {e : Errand} (reply : Reply) {w' : World} (hi : w.errands[i]? = some e) (he : ErrandAnswered w i e w') :
      Acted w (.errand i reply) w'

theorem fetched_acted {i : ℕ} {reply : Reply} (h : fetched w i reply = some w') : Acted w (.fetched i reply) w' := by
  obtain ⟨id, hi, h⟩ := Option.bind_eq_some_iff.mp h
  cases reply with
  | done =>
    dsimp only at h
    split at h
    · cases h
      split_ifs with hstatus
      · exact .notStarted _ hi
      · exact .started hi ‹_› (Bool.not_eq_true _ ▸ hstatus)
    · cases h
      exact .notStarted _ hi
  | error message =>
    cases h
    exact .notStarted _ hi
  | tape tapeId => cases h
  | entries entries => cases h

theorem suspendRunner_cases (w : World) (r : ℕ) :
    ((∀ runner, w.runners[r]? = some runner → runner.disposed = true) ∧ suspendRunner w r = w) ∨
      ∃ runner, w.runners[r]? = some runner ∧ runner.disposed = false ∧
        suspendRunner w r = (w.modifyAgent r Agent.abort).begin r runner .suspend Runner.suspend := by
  unfold suspendRunner
  split
  · rename_i runner hr
    split_ifs with hdisposed
    · exact Or.inl ⟨fun x hx => Option.some.inj (hr.symm.trans hx) ▸ hdisposed, rfl⟩
    · exact Or.inr ⟨runner, hr, Bool.not_eq_true _ ▸ hdisposed, rfl⟩
  · rename_i hnone
    refine Or.inl ⟨fun x hx => ?_, rfl⟩
    cases hnone.symm.trans hx

theorem acted_of_act {e : Event} (h : act w e = some w') : Acted w e w' := by
  cases e with
  | spawn c =>
    cases h
    unfold spawn
    split_ifs
    · exact .refused c
    · exact .spawned c
  | resumePending =>
    cases h
    exact .resuming
  | cancel id =>
    cases h
    unfold cancel
    split
    · obtain ⟨hmap, hr⟩ := found_eq_some ‹_›
      unfold cancelRunner
      split_ifs with hdisposed
      · exact .cancelIgnored id
      · exact .cancelled hmap hr (Bool.not_eq_true _ ▸ hdisposed)
    · rename_i hfound
      refine .cancelling fun r hr => ?_
      rw [hr, Option.bind_some, Option.map_eq_none_iff] at hfound
      exact hfound
  | route id =>
    cases h
    unfold sendToAgent
    split
    · obtain ⟨hmap, hr⟩ := found_eq_some ‹_›
      split_ifs with hlifetime
      · exact .routed hmap hr hlifetime.1
      · exact .notRouted id
    · exact .notRouted id
  | suspend r =>
    cases h
    rcases suspendRunner_cases w r with ⟨-, heq⟩ | ⟨runner, hr, hdisposed, heq⟩
    · rw [heq]
      exact .suspendIgnored r
    · rw [heq]
      exact .suspended hr hdisposed
  | shutdown =>
    cases h
    exact .shutdown
  | message r m =>
    rw [act, Option.ite_none_right_eq_some] at h
    exact Option.some.inj h.2 ▸ .message m h.1
  | agentEnd r errorMessage messages =>
    rw [act] at h
    split at h
    · rename_i runner hr
      rw [Option.ite_none_right_eq_some] at h
      obtain ⟨⟨hstreaming, haborted⟩, h⟩ := h
      cases h
      split_ifs with hdisposed
      · exact .endIgnored errorMessage messages hr hdisposed
      · exact .ended messages hr hstreaming haborted (Bool.not_eq_true _ ▸ hdisposed)
    · cases h
  | flushTimer r =>
    rw [act] at h
    split at h
    · rename_i runner hr
      rw [Option.ite_none_right_eq_some] at h
      exact Option.some.inj h.2 ▸ .flushed hr (Bool.not_eq_true _ ▸ h.1.2)
    · cases h
  | go i reply =>
    obtain ⟨t, op, ops, w₁, out, ht, hops, ha, rfl⟩ := go_cases h
    exact .went ht hops ha
  | fetched i reply => exact fetched_acted h
  | errand i reply =>
    obtain ⟨e, hi, he⟩ := errand_cases h
    exact .errand reply hi he

theorem Wf.errand {i : ℕ} {e : Errand} (h : Wf w) (he : ErrandAnswered w i e w') : Wf w' := by
  have haside := he.aside
  cases he with
  | shutDown tasks _ =>
    refine ⟨h.tasks, fun id j hj => ?_⟩
    rw [AList.lookup_empty] at hj
    cases hj
  | _ => exact h.frame haside.runners haside.tasks rfl

theorem wf_act {e : Event} (h : Wf w) (ha : act w e = some w') : Wf w' := by
  cases acted_of_act ha with
  | refused c | cancelIgnored id | notRouted id | suspendIgnored r => exact h
  | spawned c | resuming | cancelling hnone | notStarted reply hi => exact h.frame rfl rfl rfl
  | cancelled hmap hr hdisposed => exact h.beginAborted hr _ _ _
  | routed hmap hr hlifetime => exact h.begin hr rfl _ _
  | suspended hr hdisposed => exact h.beginAborted hr _ _ _
  | shutdown => exact h.shutdown
  | message m hstreaming => exact h.modifyAgent _ _
  | ended messages hr hstreaming haborted hdisposed => exact h.beginAborted hr _ _ _
  | endIgnored errorMessage messages hr hdisposed => exact h.modifyAgent _ _
  | flushed hr hdisposed => exact h.begin hr rfl _ _
  | went ht hops hanswer => exact (hanswer.wf h).resume (hanswer.tasks ▸ ht) _
  | @started i id row hi hrow hstatus =>
    have hw : Wf { w with starting := w.starting.eraseIdx i } := h.frame rfl rfl rfl
    exact hw.startAgent row
  | errand reply hi he => exact h.errand he

theorem step_cases {maxConcurrent : ℕ} {e : Event} (h : step maxConcurrent w e = some w') :
    ∃ w₁, act w e = some w₁ ∧ w' = pump maxConcurrent w₁ := by
  obtain ⟨w₁, hw₁, h⟩ := Option.map_eq_some_iff.mp h
  exact ⟨w₁, hw₁, h.symm⟩

theorem wf_step {maxConcurrent : ℕ} {e : Event} (h : Wf w) (hs : step maxConcurrent w e = some w') : Wf w' := by
  obtain ⟨w₁, hact, rfl⟩ := step_cases hs
  have hpump := pump_pumped maxConcurrent w₁
  exact (wf_act h hact).frame hpump.runners hpump.tasks hpump.agents

/-! Rows -/

inductive RowsMoved (w : World) : Event → WorkerRows → Prop where
  | same (e : Event) : RowsMoved w e w.rows
  | wrote {i : ℕ} {t : Task} {op : Op} {ops : List Op} (u : RowUpdate) (ht : w.tasks[i]? = some t)
    (hops : t.ops = op :: ops)
      (hop : op = .store u ∨ op = .storeQuietly u) : RowsMoved w (.go i .done) (w.rows.update t.id u)
  | marked {i : ℕ} {id : WorkerId} (reply : Reply) (hi : w.errands[i]? = some (.marking id)) :
      RowsMoved w (.errand i reply) (w.rows.update id (.setStatus .cancelled (some "cancelled by dispatcher")))
  | inserted {i : ℕ} {c : WorkerCreate} {rows : WorkerRows} (reply : Reply) (hi : w.errands[i]? = some (.inserting c))
      (h : w.rows.insert c = some rows) : RowsMoved w (.errand i reply) rows

theorem begin_rows (w : World) (r : ℕ) (runner : Runner) (job : Job) (ops : List Op) :
    (w.begin r runner job ops).rows = w.rows :=
  (settle_settles w _ ops).rows

theorem resume_rows (w : World) (i : ℕ) (t : Task) (ops : List Op) : (w.resume i t ops).rows = w.rows :=
  (settle_settles w t ops).rows

theorem suspendRunner_rows (w : World) (r : ℕ) : (suspendRunner w r).rows = w.rows := by
  rcases suspendRunner_cases w r with ⟨-, heq⟩ | ⟨runner, -, -, heq⟩
  · rw [heq]
  · rw [heq, begin_rows]
    rfl

theorem startAgent_rows (w : World) (row : WorkerRow) : (startAgent w row).rows = w.rows := begin_rows ..

theorem shutdown_rows (w : World) : (shutdown w).rows = w.rows := by
  have hsuspend : ∀ (v : World) (r : ℕ), v.rows = w.rows → (suspendRunner v r).rows = w.rows :=
    fun v r hv => (suspendRunner_rows v r).trans hv
  exact suspendAll_keeps hsuspend _ (show { w with shuttingDown := true, queue := [] }.rows = w.rows from rfl)

theorem Answered.rows {i : ℕ} {op : Op} {ops : List Op} {reply : Reply} {out : Except String (List Op)}
    (ht : w.tasks[i]? = some t) (hops : t.ops = op :: ops) (ha : Answered w t op reply w' out) :
    RowsMoved w (.go i reply) w'.rows := by
  cases ha with
  | wrote u => exact .wrote u ht hops (Or.inl rfl)
  | wroteQuietly u => exact .wrote u ht hops (Or.inr rfl)
  | _ => exact .same _

theorem ErrandAnswered.rows {i : ℕ} {e : Errand} (reply : Reply) (hi : w.errands[i]? = some e)
    (he : ErrandAnswered w i e w') :
    RowsMoved w (.errand i reply) w'.rows := by
  cases he with
  | inserted c h => exact .inserted reply hi h
  | marked id => exact .marked reply hi
  | _ => exact .same _

theorem Acted.rows {e : Event} (h : Acted w e w') : RowsMoved w e w'.rows := by
  cases h with
  | cancelled | routed | suspended | ended | flushed =>
    rw [begin_rows]
    exact .same _
  | started =>
    rw [startAgent_rows]
    exact .same _
  | shutdown =>
    rw [shutdown_rows]
    exact .same _
  | went ht hops ha =>
    rw [resume_rows]
    exact ha.rows ht hops
  | errand reply hi he => exact he.rows reply hi
  | _ => exact .same _

/-- A row that is there stays. -/
theorem RowsMoved.isSome {e : Event} {rows : WorkerRows} (h : RowsMoved w e rows) {id : WorkerId}
    (hid : (w.rows.status id).isSome) : (rows.status id).isSome := by
  cases h with
  | same => exact hid
  | wrote | marked =>
    rw [status_update, Option.isSome_map]
    exact hid
  | inserted reply hi h =>
    rw [status_insert h]
    split_ifs
    · rfl
    · exact hid

/-! Tasks that begin with a call -/

theorem settle_start (w : World) (t : Task) (r : Runner) : settle w t r.start = (w, r.start) := by
  unfold Runner.start
  split_ifs
  · rfl
  · rfl
  · rfl
  · rfl

theorem settle_route (w : World) (t : Task) (r : Runner) : (settle w t r.route).1 = w := by
  unfold Runner.route
  split_ifs
  · rfl
  · rw [List.nil_append, settle]
    split_ifs
    · rfl
    · rfl

theorem settle_flush (w : World) (t : Task) : (settle w t [.flushNow none true]).1 = w := by
  rw [settle]
  split
  · rfl
  · rw [settle]

theorem settle_agentEnd (w : World) (t : Task) (r : Runner) (errorMessage : Option String) (messages : List Message) :
    (settle w t (r.agentEnd errorMessage messages)).1 = w := by
  rw [Runner.agentEnd, settle]
  rfl

theorem begin_eq {r : ℕ} {runner : Runner} {job : Job} {ops : List Op}
    (hsame : (settle w ⟨runner.row.id, r, job, ops⟩ ops).1 = w) :
    w.begin r runner job ops =
      { w with tasks := w.tasks ++ [⟨runner.row.id, r, job, (settle w ⟨runner.row.id, r, job, ops⟩ ops).2⟩] } := by
  rw [World.begin, hsame]

theorem startAgent_eq (w : World) (row : WorkerRow) : ∃ runner : Runner, runner.row = row ∧ runner.disposed = false ∧
    startAgent w row = { w with
      runners := w.runners ++ [runner]
      agents := w.agents.insert row.id w.runners.length
      tasks := w.tasks ++ [⟨row.id, w.runners.length, .start, runner.start⟩] } := by
  refine ⟨⟨row, !row.messagesJson.isEmpty, none, false, false⟩, rfl, rfl, ?_⟩
  rw [startAgent, World.begin, settle_start]

/-! The rows of the runners -/

def SameRows (w w' : World) : Prop := ∀ x ∈ w'.runners, ∃ y ∈ w.runners, x.row = y.row

theorem sameRows_of_eq (h : w'.runners = w.runners) : SameRows w w' := fun x hx => ⟨x, h ▸ hx, rfl⟩

theorem SameRows.trans {w'' : World} (h : SameRows w w') (h' : SameRows w' w'') : SameRows w w'' := by
  intro x hx
  obtain ⟨y, hy, hxy⟩ := h' x hx
  obtain ⟨z, hz, hyz⟩ := h y hy
  exact ⟨z, hz, hxy.trans hyz⟩

theorem sameRows_modify {r : ℕ} {f : Runner → Runner} (hf : Keeps f) (h : w'.runners = w.runners.modify r f) :
    SameRows w w' := by
  intro x hx
  obtain ⟨j, hj⟩ := Lists.exists_getElem?_of_mem hx
  obtain ⟨y, hy, hlater, -⟩ := runner_modify_cases hf (h ▸ hj)
  exact ⟨y, List.mem_of_getElem? hy, hlater.row⟩

theorem sameRows_begin (w : World) (r : ℕ) (runner : Runner) (job : Job) (ops : List Op) :
    SameRows w (w.begin r runner job ops) := by
  obtain ⟨f, hf, hrunners⟩ := (settle_settles w ⟨runner.row.id, r, job, ops⟩ ops).runners
  exact sameRows_modify hf hrunners

theorem sameRows_resume (w : World) (i : ℕ) (t : Task) (ops : List Op) : SameRows w (w.resume i t ops) := by
  obtain ⟨f, hf, hrunners⟩ := (settle_settles w t ops).runners
  exact sameRows_modify hf hrunners

theorem sameRows_beginAborted (w : World) (f : Agent → Agent) (r : ℕ) (runner : Runner) (job : Job) (ops : List Op) :
    SameRows w ((w.modifyAgent r f).begin r runner job ops) :=
  (sameRows_modify (keeps_mapAgent f) rfl).trans (sameRows_begin _ r runner job ops)

theorem sameRows_suspendRunner (w : World) (r : ℕ) : SameRows w (suspendRunner w r) := by
  rcases suspendRunner_cases w r with ⟨-, heq⟩ | ⟨runner, -, -, heq⟩
  · exact sameRows_of_eq (by rw [heq])
  · rw [heq]
    exact sameRows_beginAborted w _ r runner _ _

theorem Answered.sameRows {op : Op} {reply : Reply} {out : Except String (List Op)} (ha : Answered w t op reply w' out) :
    SameRows w w' := by
  cases ha with
  | acquired => exact sameRows_modify keeps_gotClient rfl
  | _ => exact sameRows_of_eq rfl

/-- A new runner has a row that was read. -/
theorem Acted.runner_rows {e : Event} (ha : Acted w e w') :
    ∀ x ∈ w'.runners, (∃ y ∈ w.runners, x.row = y.row) ∨ ∃ id, w.rows.get id = some x.row := by
  have hold : SameRows w w' → ∀ x ∈ w'.runners, (∃ y ∈ w.runners, x.row = y.row) ∨
    ∃ id, w.rows.get id = some x.row :=
    fun hsame x hx => Or.inl (hsame x hx)
  cases ha with
  | refused | spawned | resuming | cancelIgnored | cancelling | notRouted | suspendIgnored | notStarted =>
    exact hold (sameRows_of_eq rfl)
  | cancelled | suspended | ended => exact hold (sameRows_beginAborted w _ _ _ _ _)
  | routed | flushed => exact hold (sameRows_begin w _ _ _ _)
  | shutdown =>
    have hstart : SameRows w { w with shuttingDown := true, queue := [] } := sameRows_of_eq rfl
    have hsuspend : ∀ (v : World) (r : ℕ), SameRows w v → SameRows w (suspendRunner v r) :=
      fun v r hv => hv.trans (sameRows_suspendRunner v r)
    have hall := suspendAll_keeps hsuspend (w.agents.entries.map (·.2)) hstart
    exact hold hall
  | message | endIgnored => exact hold (sameRows_modify (keeps_mapAgent _) rfl)
  | went ht hops hanswer => exact hold (hanswer.sameRows.trans (sameRows_resume _ _ _ _))
  | @started i id row hi hrow =>
    intro x hx
    obtain ⟨y, hy, hxy⟩ := sameRows_begin _ _ _ _ _ x hx
    rcases List.mem_append.mp hy with hyold | hynew
    · exact Or.inl ⟨y, hyold, hxy⟩
    · rw [List.mem_singleton.mp hynew] at hxy
      exact Or.inr ⟨id, hxy ▸ hrow⟩
  | errand reply hi he => exact hold (sameRows_of_eq he.aside.runners)

theorem get_id {rows : WorkerRows} {id : WorkerId} {row : WorkerRow} (h : rows.get id = some row) : row.id = id := by
  simpa using List.find?_some h

/-- The row of every runner is there. -/
theorem stored_of_run {maxConcurrent : ℕ} {rows : WorkerRows} {containers : List WorkerId} {es : List Event}
    (h : Runs.run (step maxConcurrent) (.init rows containers) es = some w) :
    ∀ runner ∈ w.runners, (w.rows.status runner.row.id).isSome = true := by
  refine Runs.run_inv_all (fun w => ∀ runner ∈ w.runners, (w.rows.status runner.row.id).isSome = true) ?_
    (fun runner hrunner => absurd hrunner List.not_mem_nil) h
  intro w e w' hstored hs x hx
  obtain ⟨w₁, hact, rfl⟩ := step_cases hs
  have hpump := pump_pumped maxConcurrent w₁
  have hacted := acted_of_act hact
  rw [hpump.rows]
  refine hacted.rows.isSome ?_
  rcases hacted.runner_rows x (hpump.runners ▸ hx) with ⟨y, hy, hxy⟩ | ⟨id, hrow⟩
  · rw [hxy]
    exact hstored y hy
  · rw [WorkerRows.status, get_id hrow, hrow]
    rfl

theorem wf_of_run {maxConcurrent : ℕ} {rows : WorkerRows} {containers : List WorkerId} {es : List Event}
    (h : Runs.run (step maxConcurrent) (.init rows containers) es = some w) : Wf w :=
  Runs.run_inv_all Wf (fun _ _ _ hi hs => wf_step hi hs) (wf_init rows containers) h

end Nexal.Workers
