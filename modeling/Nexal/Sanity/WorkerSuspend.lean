import Nexal.Sanity.WorkerRegistry

/-! What is left to do without a new agent, a prompt or a container, and what `suspend` and `shutdown` begin. -/

namespace Nexal.Workers

variable {w w' : World} {t : Task} {ops : List Op}

/-! Tasks that only come to an end -/

/-- Brings a container, an agent or a prompt, or leads to one. -/
def Op.acts : Op → Bool
  | .acquireAgent | .createTape | .loadTape | .newAgent _ | .firstPrompt _ | .steerOrPrompt | .prompt => true
  | _ => false

def Ending (ops : List Op) : Prop := ∀ op ∈ ops, op.acts = false

theorem Ending.tail {op : Op} (h : Ending (op :: ops)) : Ending ops := fun op' hop' => h op' (List.mem_cons_of_mem op hop')

theorem Ending.head {op : Op} (h : Ending (op :: ops)) : op.acts = false := h op List.mem_cons_self

theorem Ending.cons {op : Op} (hop : op.acts = false) (h : Ending ops) :
    Ending (op :: ops) := List.forall_mem_cons.mpr ⟨hop, h⟩

theorem ending_of_all (h : ops.all (fun op => !op.acts) = true) : Ending ops := by
  intro op hop
  exact Bool.not_eq_true' .. ▸ List.all_eq_true.mp h op hop

theorem ending_onError (job : Job) (error : String) : Ending (job.onError error) := by
  cases job with
  | _ => exact ending_of_all rfl

theorem ending_cancel (reason : String) : Ending (Runner.cancel reason) := ending_of_all rfl

theorem ending_suspend : Ending Runner.suspend := ending_of_all rfl

theorem ending_agentEnd (r : Runner) (errorMessage : Option String) (messages : List Message) :
    Ending (r.agentEnd errorMessage messages) := by
  unfold Runner.agentEnd
  split
  · split_ifs
    · exact ending_of_all rfl
    · exact ending_of_all rfl
  · split_ifs
    · exact ending_of_all rfl
    · exact ending_of_all rfl
    · exact ending_of_all rfl
    · exact ending_of_all rfl

structure Faded (r r' : Runner) : Prop where
  row : r'.row = r.row
  streaming : r'.isStreaming = true → r.isStreaming = true
  disposed : r.disposed = true → r'.disposed = true

def Runner.alive (r : Runner) : Bool := !r.disposed || r.isStreaming

theorem Faded.alive {r r' : Runner} (h : Faded r r') (halive : r'.alive = true) : r.alive = true := by
  unfold Runner.alive at *
  rw [Bool.or_eq_true, Bool.not_eq_true'] at *
  rcases halive with hdisposed | hstreaming
  · refine Or.inl (Bool.eq_false_iff.mpr fun hr => ?_)
    cases hdisposed.symm.trans (h.disposed hr)
  · exact Or.inr (h.streaming hstreaming)

/-- Nobody comes to life. -/
def Fades (l l' : List Runner) : Prop := ∀ (j : ℕ) (x : Runner), l'[j]? = some x → ∃ y, l[j]? = some y ∧ Faded y x

theorem Fades.refl (l : List Runner) : Fades l l := fun _ x hx => ⟨x, hx, rfl, fun h => h, fun h => h⟩

theorem Fades.trans {l l' l'' : List Runner} (h : Fades l l') (h' : Fades l' l'') : Fades l l'' := by
  intro j x hx
  obtain ⟨y, hy, hxy⟩ := h' j x hx
  obtain ⟨z, hz, hyz⟩ := h j y hy
  exact ⟨z, hz, hxy.row.trans hyz.row, fun hx => hyz.streaming (hxy.streaming hx),
    fun hz => hxy.disposed (hyz.disposed hz)⟩

theorem fades_modify (l : List Runner) (r : ℕ) {f : Runner → Runner} (hf : Keeps f)
    (hstreaming : ∀ x, (f x).isStreaming = true → x.isStreaming = true) : Fades l (l.modify r f) := by
  intro j x hx
  rw [List.getElem?_modify] at hx
  obtain ⟨y, hy, rfl⟩ := Option.map_eq_some_iff.mp hx
  refine ⟨y, hy, ?_⟩
  split_ifs
  · exact ⟨hf.row y, hstreaming y, hf.disposed y⟩
  · exact ⟨rfl, fun h => h, fun h => h⟩

theorem isStreaming_mapAgent {f : Agent → Agent} (hf : ∀ a, (f a).isStreaming = true → a.isStreaming = true)
    (r : Runner)
    (h : (r.mapAgent f).isStreaming = true) : r.isStreaming = true := by
  unfold Runner.isStreaming Runner.mapAgent at *
  cases hagent : r.agent with
  | none =>
    rw [hagent] at h
    cases h
  | some a =>
    rw [hagent] at h
    exact hf a h

theorem fades_modifyAgent (w : World) (r : ℕ) {f : Agent → Agent}
    (hf : ∀ a, (f a).isStreaming = true → a.isStreaming = true) :
    Fades w.runners (w.modifyAgent r f).runners :=
  fades_modify w.runners r (keeps_mapAgent f) (isStreaming_mapAgent hf)

/-- A task that brings nothing new goes on: nothing is done but that its runner may be disposed of. -/
theorem settle_ending (w : World) (t : Task) (h : Ending ops) : Ending (settle w t ops).2 ∧
    (settle w t ops).1.effects = w.effects ∧ Fades w.runners (settle w t ops).1.runners := by
  fun_induction settle
  case case2 | case3 | case4 | case5 | case6 | case7 => cases h.head
  case case9 ih | case10 ih => exact ih h.tail
  case case8 ops _ _ _ =>
    refine ⟨.cons rfl ?_, rfl, .refl _⟩
    split_ifs
    · exact .cons rfl h.tail
    · exact h.tail
  case case11 release _ _ =>
    refine ⟨.cons rfl (.cons ?_ h.tail), rfl, fades_modify _ _ keeps_nowDisposed fun _ hx => hx⟩
    cases release with
    | false => rfl
    | true => rfl
  case case1 | case12 => exact ⟨List.forall_mem_nil _, rfl, .refl _⟩
  case case13 => exact ⟨h, rfl, .refl _⟩

theorem Answered.ending {op : Op} {reply : Reply} {w₁ : World} {out : Except String (List Op)}
    (ha : Answered w t op reply w₁ out)
    (hops : Ending (op :: ops)) : Ending (t.next ops out) ∧ w₁.runners = w.runners ∧ w₁.starting = w.starting ∧
      w₁.errands = w.errands ∧ w₁.shutDown = w.shutDown := by
  cases ha with
  | acquired | tape | loaded => cases hops.head
  | threw => exact ⟨ending_onError _ _, rfl, rfl, rfl, rfl⟩
  | wrote | wroteQuietly | notWritten | idle | released | notAttached | notReleased | detached | nothing =>
    exact ⟨hops.tail, rfl, rfl, rfl, rfl⟩

/-! Calls of `suspend` -/

/-- What calls of `suspend` of the runners `l` do: each that is not disposed has a task that is at the beginning. -/
structure Suspended (l : List ℕ) (w w' : World) : Prop where
  rows : w'.rows = w.rows
  containers : w'.containers = w.containers
  attached : w'.attached = w.attached
  agents : w'.agents = w.agents
  starting : w'.starting = w.starting
  errands : w'.errands = w.errands
  shuttingDown : w'.shuttingDown = w.shuttingDown
  shutDown : w'.shutDown = w.shutDown
  effects : w'.effects = w.effects
  runners : Fades w.runners w'.runners
  same : ∀ (r : ℕ) (runner : Runner), w.runners[r]? = some runner →
    ∃ x : Runner, w'.runners[r]? = some x ∧ x.row = runner.row ∧ x.disposed = runner.disposed
  tasks : ∃ begun, w'.tasks = w.tasks ++ begun ∧ (∀ t ∈ begun, t.ops = Runner.suspend) ∧
    ∀ r ∈ l, ∀ runner : Runner, w.runners[r]? = some runner → runner.disposed = false →
      ∃ t ∈ begun, t.id = runner.row.id ∧ t.runner = r

theorem Suspended.refl (w : World) : Suspended [] w w :=
  ⟨rfl, rfl, rfl, rfl, rfl, rfl, rfl, rfl, rfl, .refl _, fun _ x hx => ⟨x, hx, rfl, rfl⟩, [],
    (List.append_nil _).symm, List.forall_mem_nil _,
    List.forall_mem_nil _⟩

theorem Suspended.trans {w'' : World} {l l' : List ℕ} (h : Suspended l w w') (h' : Suspended l' w' w'') :
    Suspended (l ++ l') w w'' where
  rows := h'.rows.trans h.rows
  containers := h'.containers.trans h.containers
  attached := h'.attached.trans h.attached
  agents := h'.agents.trans h.agents
  starting := h'.starting.trans h.starting
  errands := h'.errands.trans h.errands
  shuttingDown := h'.shuttingDown.trans h.shuttingDown
  shutDown := h'.shutDown.trans h.shutDown
  effects := h'.effects.trans h.effects
  runners := h.runners.trans h'.runners
  same r runner hrunner := by
    obtain ⟨x, hx, hrow, hdisposed⟩ := h.same r runner hrunner
    obtain ⟨y, hy, hrow', hdisposed'⟩ := h'.same r x hx
    exact ⟨y, hy, hrow'.trans hrow, hdisposed'.trans hdisposed⟩
  tasks := by
    obtain ⟨begun, htasks, hops, hbegun⟩ := h.tasks
    obtain ⟨begun', htasks', hops', hbegun'⟩ := h'.tasks
    refine ⟨begun ++ begun', by
      rw [htasks', htasks, List.append_assoc], fun t ht => ?_, fun r hr runner hrunner hnot => ?_⟩
    · exact (List.mem_append.mp ht).elim (hops t) (hops' t)
    · rcases List.mem_append.mp hr with hl | hl'
      · obtain ⟨t, ht, hid⟩ := hbegun r hl runner hrunner hnot
        exact ⟨t, List.mem_append_left begun' ht, hid⟩
      · obtain ⟨x, hx, hrow, hdisposed⟩ := h.same r runner hrunner
        obtain ⟨t, ht, hid, htr⟩ := hbegun' r hl' x hx (hdisposed.trans hnot)
        exact ⟨t, List.mem_append_right begun ht, hid.trans (congrArg WorkerRow.id hrow), htr⟩

theorem suspended_one (w : World) (r : ℕ) : Suspended [r] w (suspendRunner w r) := by
  rcases suspendRunner_cases w r with ⟨hdisposed, heq⟩ | ⟨runner, hr, hdisposed, heq⟩
  · rw [heq]
    refine { Suspended.refl w with tasks :=
      ⟨[], (List.append_nil _).symm, List.forall_mem_nil _, fun j hj y hy hnot => ?_⟩ }
    cases List.mem_singleton.mp hj
    cases hnot.symm.trans (hdisposed y hy)
  · rw [heq]
    refine ⟨rfl, rfl, rfl, rfl, rfl, rfl, rfl, rfl, rfl, fades_modifyAgent w r fun _ h => h, fun j y hy => ?_, [_], rfl,
      List.forall_mem_singleton.mpr rfl, fun j hj y hy _ => ?_⟩
    · refine ⟨_, (List.getElem?_modify ..).trans (congrArg _ hy), ?_⟩
      split_ifs
      · exact ⟨rfl, rfl⟩
      · exact ⟨rfl, rfl⟩
    · cases List.mem_singleton.mp hj
      cases hr.symm.trans hy
      exact ⟨_, List.mem_singleton_self _, rfl, rfl⟩

theorem suspended_all (l : List ℕ) (w : World) : Suspended l w (l.foldl suspendRunner w) := by
  induction l generalizing w with
  | nil => exact .refl w
  | cons r l ih => exact (suspended_one w r).trans (ih _)

/-- `shutdown` calls `suspend` of the runners in the map. -/
theorem shutdown_eq (w : World) : ∃ w₁, Suspended (w.agents.entries.map (·.2))
    { w with shuttingDown := true, queue := [] } w₁ ∧
    shutdown w = { w₁ with
      errands := w₁.errands ++ [.suspending ((List.range w₁.tasks.length).drop w.tasks.length)] } :=
  ⟨_, suspended_all _ _, rfl⟩

/-- The tasks that `shutdown` waits for. -/
theorem mem_drop_range {n m j : ℕ} : j ∈ (List.range m).drop n ↔ n ≤ j ∧ j < m := by
  rw [List.range_eq_range', List.drop_range', List.mem_range'_1]
  omega

/-! What stands between a registry and the end of its `shutdown` -/

structure Unshut (w w' : World) : Prop where
  shuttingDown : w'.shuttingDown = w.shuttingDown
  errands : ∀ tasks, .suspending tasks ∈ w'.errands → .suspending tasks ∈ w.errands
  shutDown : w'.shutDown = w.shutDown ∨ (w'.shutDown = true ∧ ∃ tasks, .suspending tasks ∈ w.errands)

theorem unshut_of_eq (hshuttingDown : w'.shuttingDown = w.shuttingDown) (herrands : w'.errands = w.errands)
    (hshutDown : w'.shutDown = w.shutDown) : Unshut w w' :=
  ⟨hshuttingDown, fun _ hmem => herrands ▸ hmem, Or.inl hshutDown⟩

theorem unshut_begin {v : World} (r : ℕ) (runner : Runner) (job : Job) (ops : List Op) (h : Unshut w v)
    (hshutDown : v.shutDown = w.shutDown) : Unshut w (v.begin r runner job ops) := by
  have hs := settle_settles v ⟨runner.row.id, r, job, ops⟩ ops
  exact ⟨hs.shuttingDown.trans h.shuttingDown, fun tasks hmem => h.errands tasks (hs.errands ▸ hmem),
    Or.inl (hs.shutDown.trans hshutDown)⟩

theorem unshut_concat {e : Errand} (hnot : ∀ tasks, e ≠ .suspending tasks) (herrands : w'.errands = w.errands ++ [e])
    (hshuttingDown : w'.shuttingDown = w.shuttingDown) (hshutDown : w'.shutDown = w.shutDown) : Unshut w w' := by
  refine ⟨hshuttingDown, fun tasks hmem => ?_, Or.inl hshutDown⟩
  rcases List.mem_append.mp (herrands ▸ hmem) with hold | hnew
  · exact hold
  · exact absurd (List.mem_singleton.mp hnew).symm (hnot tasks)

theorem ErrandAnswered.unshut {i : ℕ} {e : Errand} (hi : w.errands[i]? = some e) (he : ErrandAnswered w i e w') :
    Unshut w w' := by
  have herase : ∀ tasks, .suspending tasks ∈ w.errands.eraseIdx i → .suspending tasks ∈ w.errands :=
    fun _ hmem => List.mem_of_mem_eraseIdx hmem
  have hconcat : ∀ {e : Errand}, (∀ tasks, e ≠ .suspending tasks) → ∀ tasks,
      .suspending tasks ∈ w.errands.eraseIdx i ++ [e] → .suspending tasks ∈ w.errands := by
    intro e hnot tasks hmem
    rcases List.mem_append.mp hmem with hold | hnew
    · exact herase tasks hold
    · exact absurd (List.mem_singleton.mp hnew).symm (hnot tasks)
  cases he with
  | dropped | linked | listed | marked => exact ⟨rfl, herase, Or.inl rfl⟩
  | tape | inserted | found => exact ⟨rfl, hconcat (fun _ heq => by cases heq), Or.inl rfl⟩
  | shutDown tasks => exact ⟨rfl, herase, Or.inr ⟨rfl, tasks, List.mem_of_getElem? hi⟩⟩

theorem unshut_acted {e : Event} (he : e ≠ .shutdown) (ha : Acted w e w') : Unshut w w' := by
  cases ha with
  | refused | cancelIgnored | notRouted | suspendIgnored | message | endIgnored | notStarted =>
    exact unshut_of_eq rfl rfl rfl
  | spawned | resuming | cancelling => exact unshut_concat (fun _ heq => by cases heq) rfl rfl rfl
  | cancelled | suspended | ended | routed | flushed | started =>
    exact unshut_begin _ _ _ _ (unshut_of_eq rfl rfl rfl) rfl
  | shutdown => exact absurd rfl he
  | @went i _ t _ ops w₁ out ht hops hanswer =>
    have hs := settle_settles w₁ t (t.next ops out)
    cases hanswer with
    | _ => exact unshut_of_eq hs.shuttingDown hs.errands hs.shutDown
  | errand reply hi hanswer => exact hanswer.unshut hi

end Nexal.Workers
