import Mathlib.Data.List.Perm.Subperm
import Nexal.Sanity.WorkerSuspend

/-! The limit of the registry. `pump` compares the size of the map, which a start enters only when it has read its
row, with the limit, and the map has one place for a worker, whatever became of the runner that had it before. -/

namespace Nexal.Workers

variable {w w' : World} {t : Task} {ops : List Op} {id : WorkerId} {maxConcurrent : ℕ}

/-- The runner is not disposed of, its agent is at work, or a task is on its way to a container, an agent or a prompt. -/
def World.occupied (w : World) (r : ℕ) : Bool :=
  w.runners[r]?.any Runner.alive || w.tasks.any fun t => t.runner = r ∧ t.ops.any Op.acts

def World.occupancy (w : World) : ℕ := w.starting.length + ((List.range w.runners.length).filter w.occupied).length

def reachesEnd (disposed : Bool) : List Op → Bool
  | .onTerminal :: _ => true
  | .newAgent _ :: ops | .flushNow _ _ :: ops => reachesEnd disposed ops
  | .dispose _ :: ops => disposed && reachesEnd disposed ops
  | _ => false

/-- Every start finds a place. -/
structure InSlots (maxConcurrent : ℕ) (w : World) (e : Event) : Prop where
  /-- `pump` finds no place, or one for everyone who is starting or queued. -/
  pump : ∀ w₁, act w e = some w₁ → w₁.pumping = true → maxConcurrent ≤ w₁.agents.entries.length ∨
    w₁.agents.entries.length + w₁.starting.length + w₁.queue.length ≤ maxConcurrent
  /-- A worker that is started has no runner that occupies a place. -/
  start : ∀ i id, e = .fetched i .done → w.starting[i]? = some id → ∀ (r : ℕ) (runner : Runner),
    w.runners[r]? = some runner → w.occupied r = true → runner.row.id ≠ id
  /-- Nor has one that is taken out of the map. -/
  stop : ∀ i reply t, e = .go i reply → w.tasks[i]? = some t → reachesEnd (w.isDisposed t.runner) t.ops.tail = true →
    ∀ (r : ℕ) (runner : Runner), w.runners[r]? = some runner → w.occupied r = true → runner.row.id ≠ t.id

/-- The map has everyone who occupies a place, and with those who are starting it is not too large. -/
structure Slots (maxConcurrent : ℕ) (w : World) : Prop where
  size : w.agents.entries.length + w.starting.length ≤ maxConcurrent
  mapped : ∀ (r : ℕ) (runner : Runner), w.runners[r]? = some runner → w.occupied r = true →
    w.agents.lookup runner.row.id = some r

/-! Who occupies a place -/

theorem occupied_iff {r : ℕ} {runner : Runner} (hr : w.runners[r]? = some runner) : w.occupied r = true ↔
    runner.alive = true ∨ ∃ t ∈ w.tasks, t.runner = r ∧ ¬ Ending t.ops := by
  unfold World.occupied
  rw [Bool.or_eq_true, hr, Option.any_some, List.any_eq_true]
  refine or_congr_right (exists_congr fun t => and_congr_right fun _ => ?_)
  rw [decide_eq_true_iff, List.any_eq_true, Ending]
  simp

theorem Slots.occupancy_le (h : Slots maxConcurrent w) : w.occupancy ≤ maxConcurrent := by
  have hsub : (List.range w.runners.length).filter w.occupied ⊆ w.agents.entries.map (·.2) := by
    intro r hr
    obtain ⟨hrange, hoccupied⟩ := List.mem_filter.mp hr
    have hrunner := List.getElem?_eq_getElem (List.mem_range.mp hrange)
    exact List.mem_map.mpr ⟨_, AList.mem_lookup_iff.mp (h.mapped r _ hrunner hoccupied), rfl⟩
  have hnodup : ((List.range w.runners.length).filter w.occupied).Nodup := List.nodup_range.filter _
  have hle := (hnodup.subperm hsub).length_le
  have hsize := h.size
  rw [List.length_map] at hle
  unfold World.occupancy
  omega

def Fewer (w w' : World) : Prop := ∀ (r : ℕ) (x : Runner), w'.runners[r]? = some x → w'.occupied r = true →
  ∃ y : Runner, w.runners[r]? = some y ∧ x.row = y.row ∧ w.occupied r = true

theorem Slots.fewer (h : Slots maxConcurrent w) (hfewer : Fewer w w') (hagents : w'.agents = w.agents)
    (hstarting : w'.starting.length ≤ w.starting.length) : Slots maxConcurrent w' where
  size := by
    have hsize := h.size
    rw [hagents]
    omega
  mapped r x hx hoccupied := by
    obtain ⟨y, hy, hrow, hold⟩ := hfewer r x hx hoccupied
    rw [hagents, hrow]
    exact h.mapped r y hy hold

theorem fewer_of_fades (hrunners : Fades w.runners w'.runners)
    (htasks : ∀ t ∈ w'.tasks, ¬ Ending t.ops →
      ∃ t₀ ∈ w.tasks, t₀.runner = t.runner ∧ ¬ Ending t₀.ops) : Fewer w w' := by
  intro r x hx hoccupied
  obtain ⟨y, hy, hfaded⟩ := hrunners r x hx
  refine ⟨y, hy, hfaded.row, (occupied_iff hy).mpr ?_⟩
  rcases (occupied_iff hx).mp hoccupied with halive | ⟨t, ht, htr, hacts⟩
  · exact Or.inl (hfaded.alive halive)
  · obtain ⟨t₀, ht₀, hrunner, hacts₀⟩ := htasks t ht hacts
    exact Or.inr ⟨t₀, ht₀, hrunner.trans htr, hacts₀⟩

theorem fewer_of_eq (hrunners : w'.runners = w.runners) (htasks : w'.tasks = w.tasks) : Fewer w w' :=
  fewer_of_fades (hrunners.symm ▸ .refl _) fun t ht hacts => ⟨t, htasks ▸ ht, rfl, hacts⟩

theorem fewer_begin {v : World} (hrunners : Fades w.runners v.runners) (htasks : v.tasks = w.tasks) (r : ℕ)
    (runner : Runner)
    (job : Job) (hops : Ending ops) : Fewer w (v.begin r runner job ops) := by
  obtain ⟨hending, -, hfades⟩ := settle_ending v ⟨runner.row.id, r, job, ops⟩ hops
  refine fewer_of_fades (hrunners.trans hfades) fun t ht hacts => ?_
  rcases List.mem_append.mp ht with hold | hnew
  · exact ⟨t, htasks ▸ (settle_settles v _ ops).tasks ▸ hold, rfl, hacts⟩
  · rw [List.mem_singleton.mp hnew] at hacts
    exact absurd hending hacts

/-- A task that goes on takes no place that it had not. -/
theorem fewer_went {i : ℕ} {op : Op} {reply : Reply} {w₁ : World} {out : Except String (List Op)}
    (ht : w.tasks[i]? = some t)
    (hops : t.ops = op :: ops) (ha : Answered w t op reply w₁ out) : Fewer w (w₁.resume i t (t.next ops out)) := by
  have htasks : (settle w₁ t (t.next ops out)).1.tasks = w.tasks := (settle_settles w₁ t _).tasks.trans ha.tasks
  by_cases hending : Ending t.ops
  · obtain ⟨hnext, hrunners, -⟩ := ha.ending (hops ▸ hending)
    obtain ⟨hleft, -, hfades⟩ := settle_ending w₁ t hnext
    refine fewer_of_fades (hrunners ▸ hfades) fun t' ht' hacts => ?_
    rcases List.mem_or_eq_of_mem_set ht' with hold | rfl
    · exact ⟨t', htasks ▸ hold, rfl, hacts⟩
    · exact absurd hleft hacts
  · obtain ⟨f, hf, hrunners⟩ := resume_runners i (t.next ops out) ha
    intro r x hx hoccupied
    obtain ⟨y, hy, hlater, hsame⟩ := runner_modify_cases hf (hrunners ▸ hx)
    refine ⟨y, hy, hlater.row, (occupied_iff hy).mpr ?_⟩
    by_cases hr : t.runner = r
    · exact Or.inr ⟨t, List.mem_of_getElem? ht, hr, hending⟩
    · rcases (occupied_iff hx).mp hoccupied with halive | ⟨t', ht', htr, hacts⟩
      · exact Or.inl (hsame (Ne.symm hr) ▸ halive)
      · rcases List.mem_or_eq_of_mem_set ht' with hold | rfl
        · exact Or.inr ⟨t', htasks ▸ hold, htr, hacts⟩
        · exact absurd htr hr

/-! Who is taken out of the map -/

theorem settle_reachesEnd (w : World) (t : Task) (ops : List Op) : (settle w t ops).1.agents = w.agents ∨
    ((settle w t ops).1.agents = w.agents.erase t.id ∧ reachesEnd (w.isDisposed t.runner) ops = true) := by
  fun_induction settle
  case case2 w messages ops ih =>
    refine ih.imp_right fun hend => ⟨hend.1, ?_⟩
    have hsame : ((w.modifyRunner t.runner (Runner.newAgent messages)).did (.created t.id)).isDisposed t.runner =
        w.isDisposed t.runner :=
      isDisposed_modifyRunner w t.runner (f := Runner.newAgent messages) (fun _ => rfl) t.runner
    exact hsame ▸ hend.2
  case case3 | case7 =>
    unfold prompt
    split_ifs
    · exact Or.inl rfl
    · exact Or.inl rfl
  case case9 ih => exact ih
  case case10 hdisposed ih =>
    refine ih.imp_right fun hend => ⟨hend.1, ?_⟩
    rw [reachesEnd, hend.2, hdisposed]
    rfl
  case case12 => exact Or.inr ⟨rfl, rfl⟩
  case case1 | case4 | case5 | case6 | case8 | case11 | case13 => exact Or.inl rfl

theorem reachesEnd_onError (disposed : Bool) (job : Job) (error : String) :
    reachesEnd disposed (job.onError error) = false := by
  cases job with
  | _ => rfl

theorem Answered.reachesEnd {op : Op} {reply : Reply} {w₁ : World} {out : Except String (List Op)}
    (ha : Answered w t op reply w₁ out) (h : reachesEnd (w₁.isDisposed t.runner) (t.next ops out) = true) :
    reachesEnd (w.isDisposed t.runner) ops = true := by
  cases ha with
  | tape | loaded => cases h
  | threw => cases (reachesEnd_onError _ _ _).symm.trans h
  | acquired =>
    have hsame : (w.acquired t).isDisposed t.runner = w.isDisposed t.runner :=
      isDisposed_modifyRunner w t.runner (f := Runner.gotClient) (fun _ => rfl) t.runner
    exact hsame ▸ h
  | _ => exact h

/-! Events -/

theorem length_kerase_le (agents : AList fun _ : WorkerId => ℕ) (id : WorkerId) :
    (agents.erase id).entries.length ≤ agents.entries.length :=
  (List.kerase_sublist id agents.entries).length_le

theorem Slots.went {i : ℕ} {op : Op} {reply : Reply} {w₁ : World} {out : Except String (List Op)}
    (h : Slots maxConcurrent w)
    (hok : InSlots maxConcurrent w (.go i reply)) (ht : w.tasks[i]? = some t) (hops : t.ops = op :: ops)
    (ha : Answered w t op reply w₁ out) : Slots maxConcurrent (w₁.resume i t (t.next ops out)) := by
  have hfewer := fewer_went ht hops ha
  have hagents₁ : w₁.agents = w.agents := by
    cases ha with
    | _ => rfl
  have hstarting : (w₁.resume i t (t.next ops out)).starting = w.starting := by
    rw [World.resume, (settle_settles w₁ t _).starting]
    cases ha with
    | _ => rfl
  rcases settle_reachesEnd w₁ t (t.next ops out) with hagents | ⟨hagents, hreaches⟩
  · exact h.fewer hfewer (hagents.trans hagents₁) (by rw [hstarting])
  · have hstop := hok.stop i reply t rfl ht (hops ▸ ha.reachesEnd hreaches)
    have herased : (w₁.resume i t (t.next ops out)).agents = w.agents.erase t.id := hagents.trans (by rw [hagents₁])
    refine ⟨?_, fun r x hx hoccupied => ?_⟩
    · have hsize := h.size
      have hle := length_kerase_le w.agents t.id
      rw [herased, hstarting]
      omega
    · obtain ⟨y, hy, hrow, hold⟩ := hfewer r x hx hoccupied
      rw [herased, hrow, AList.lookup_erase_ne (hstop r y hy hold)]
      exact h.mapped r y hy hold

theorem Slots.startAgent (h : Slots maxConcurrent w) {i : ℕ} {row : WorkerRow} (hi : w.starting[i]? = some row.id)
    (hfree : ∀ (r : ℕ) (runner : Runner), w.runners[r]? = some runner → w.occupied r = true →
      runner.row.id ≠ row.id) :
    Slots maxConcurrent (startAgent { w with starting := w.starting.eraseIdx i } row) := by
  obtain ⟨runner, hrow, -, heq⟩ := startAgent_eq { w with starting := w.starting.eraseIdx i } row
  rw [heq]
  refine ⟨?_, fun r x hx hoccupied => ?_⟩
  · have hsize := h.size
    have hle := length_kerase_le w.agents row.id
    have hlt := (List.getElem?_eq_some_iff.mp hi).1
    have hinsert : (w.agents.insert row.id w.runners.length).entries.length =
      (w.agents.erase row.id).entries.length + 1 := by
      rw [AList.entries_insert, List.length_cons]
      rfl
    have herase := List.length_eraseIdx_of_lt hlt
    dsimp only
    omega
  · have hold := hx
    rw [Lists.getElem?_concat] at hold
    split_ifs at hold with hr
    · cases hold
      rw [hrow, hr, AList.lookup_insert]
    · have hbefore : w.occupied r = true := by
        refine (occupied_iff hold).mpr ?_
        rcases (occupied_iff hx).mp hoccupied with halive | ⟨t, ht, htr, hacts⟩
        · exact Or.inl halive
        · rcases List.mem_append.mp ht with ht | ht
          · exact Or.inr ⟨t, ht, htr, hacts⟩
          · rw [List.mem_singleton.mp ht] at htr
            exact absurd htr.symm hr
      rw [AList.lookup_insert_ne (hfree r x hold hbefore)]
      exact h.mapped r x hold hbefore

/-- A message is routed to a runner of the map. -/
theorem Slots.route (h : Slots maxConcurrent w) {r : ℕ} {runner : Runner} (hr : w.runners[r]? = some runner)
    (hmap : w.agents.lookup runner.row.id = some r) : Slots maxConcurrent (w.begin r runner .route runner.route) := by
  rw [World.begin, settle_route]
  refine ⟨h.size, fun j x hx hoccupied => ?_⟩
  by_cases hj : r = j
  · subst hj
    cases hr.symm.trans hx
    exact hmap
  · refine h.mapped j x hx ((occupied_iff (w := w) hx).mpr ?_)
    rcases (occupied_iff hx).mp hoccupied with halive | ⟨t, ht, htr, hacts⟩
    · exact Or.inl halive
    · rcases List.mem_append.mp ht with hold | hnew
      · exact Or.inr ⟨t, hold, htr, hacts⟩
      · rw [List.mem_singleton.mp hnew] at htr
        exact absurd htr hj

theorem begin_agents {v : World} {r : ℕ} {runner : Runner} {job : Job} (hops : reachesEnd (v.isDisposed r) ops = false) :
    (v.begin r runner job ops).agents = v.agents := by
  rcases settle_reachesEnd v ⟨runner.row.id, r, job, ops⟩ ops with hagents | ⟨-, hreaches⟩
  · exact hagents
  · cases hops.symm.trans hreaches

/-- A task begins that brings nothing new. -/
theorem Slots.begin {v : World} (h : Slots maxConcurrent w) (hrunners : Fades w.runners v.runners)
    (htasks : v.tasks = w.tasks)
    (hagents : v.agents = w.agents) (hstarting : v.starting = w.starting) {r : ℕ} (runner : Runner) (job : Job)
    (hending : Ending ops) (hops : reachesEnd (v.isDisposed r) ops = false) :
    Slots maxConcurrent (v.begin r runner job ops) := by
  have hstarting' : (v.begin r runner job ops).starting = w.starting := (settle_settles v _ ops).starting.trans hstarting
  exact h.fewer (fewer_begin hrunners htasks r runner job hending) ((begin_agents hops).trans hagents) (by rw [hstarting'])

theorem reachesEnd_agentEnd (disposed : Bool) (r : Runner) (errorMessage : Option String) (messages : List Message) :
    reachesEnd disposed (r.agentEnd errorMessage messages) = false := by
  unfold Runner.agentEnd
  split
  · split_ifs
    · rfl
    · rfl
  · split_ifs
    · rfl
    · rfl
    · rfl
    · rfl

theorem slots_acted {e : Event} (hwf : Wf w) (h : Slots maxConcurrent w) (hok : InSlots maxConcurrent w e)
    (he : e ≠ .shutdown)
    (hnone : ∀ tasks, .suspending tasks ∉ w.errands) (ha : Acted w e w') : Slots maxConcurrent w' := by
  have habort : ∀ r, Fades w.runners (w.modifyAgent r Agent.abort).runners := fun r => fades_modifyAgent w r fun _ hf => hf
  have hended : ∀ r, Fades w.runners (w.modifyAgent r Agent.ended).runners :=
    fun r => fades_modifyAgent w r fun _ hf => by cases hf
  cases ha with
  | refused | cancelIgnored | notRouted | suspendIgnored => exact h
  | spawned | resuming | cancelling => exact h.fewer (fewer_of_eq rfl rfl) rfl (Nat.le_refl _)
  | cancelled => exact h.begin (habort _) rfl rfl rfl _ _ (ending_cancel _) rfl
  | @routed id r runner hmap hr =>
    obtain ⟨x, hx, hrow⟩ := hwf.agents id r hmap
    cases hr.symm.trans hx
    exact h.route hr (hrow ▸ hmap)
  | suspended => exact h.begin (habort _) rfl rfl rfl _ _ ending_suspend rfl
  | shutdown => exact absurd rfl he
  | @message r m =>
    have hrunners : Fades w.runners (w.modifyAgent r (Agent.push m)).runners := fades_modifyAgent w r fun _ hf => hf
    exact h.fewer (fewer_of_fades hrunners fun t ht hacts => ⟨t, ht, rfl, hacts⟩) rfl (Nat.le_refl _)
  | ended => exact h.begin (hended _) rfl rfl rfl _ _ (ending_agentEnd _ _ _) (reachesEnd_agentEnd _ _ _ _)
  | @endIgnored r =>
    exact h.fewer (fewer_of_fades (hended r) fun t ht hacts => ⟨t, ht, rfl, hacts⟩) rfl (Nat.le_refl _)
  | flushed => exact h.begin (.refl _) rfl rfl rfl _ _ (ending_of_all rfl) rfl
  | went ht hops hanswer => exact h.went hok ht hops hanswer
  | @started i id row hi hrow =>
    cases get_id hrow
    exact h.startAgent hi (hok.start i row.id rfl hi)
  | @notStarted i => exact h.fewer (fewer_of_eq rfl rfl) rfl (List.length_eraseIdx_le ..)
  | errand reply hi hanswer =>
    have haside := hanswer.aside
    cases hanswer with
    | shutDown tasks => exact absurd (List.mem_of_getElem? hi) (hnone tasks)
    | _ => exact h.fewer (fewer_of_eq haside.runners haside.tasks) rfl (Nat.le_refl _)

/-! Runs -/

theorem pumpLoop_full (hfull : maxConcurrent ≤ w.agents.entries.length) (queue : List WorkerId) :
    (pumpLoop maxConcurrent w queue).starting = w.starting := by
  cases queue with
  | nil => rfl
  | cons id queue =>
    rw [pumpLoop, decide_eq_false (Nat.not_lt.mpr hfull), Bool.and_false]
    rfl

theorem Slots.pump (h : Slots maxConcurrent w) (hpump : w.pumping = true → maxConcurrent ≤ w.agents.entries.length ∨
    w.agents.entries.length + w.starting.length + w.queue.length ≤ maxConcurrent) :
      Slots maxConcurrent (pump maxConcurrent w) := by
  have hpumped := pump_pumped maxConcurrent w
  obtain ⟨ids, hstarting, hqueue⟩ := hpumped.started
  have hfewer : Fewer w (Workers.pump maxConcurrent w) := fewer_of_eq hpumped.runners hpumped.tasks
  have hsame : (Workers.pump maxConcurrent w).starting = w.starting → Slots maxConcurrent (Workers.pump maxConcurrent w) :=
    fun heq => h.fewer hfewer hpumped.agents (by rw [heq])
  cases hpumping : w.pumping with
  | false =>
    refine hsame ?_
    rw [Workers.pump, hpumping]
    rfl
  | true =>
    rcases hpump hpumping with hfull | hroom
    · refine hsame ?_
      rw [Workers.pump, if_pos hpumping]
      exact pumpLoop_full (w := { w with pumping := false }) hfull w.queue
    · refine ⟨?_, fun r x hx hoccupied => ?_⟩
      · rw [hqueue, List.length_append] at hroom
        rw [hpumped.agents, hstarting, List.length_append]
        omega
      · obtain ⟨y, hy, hrow, hold⟩ := hfewer r x hx hoccupied
        rw [hpumped.agents, hrow]
        exact h.mapped r y hy hold

/-- When every start of a run finds a place, no more workers are starting or alive at any point than the limit. -/
theorem occupancy_le_maxConcurrent {rows : WorkerRows} {containers : List WorkerId} {es : List Event} {m : World}
    (hshutdown : ∀ e ∈ es, e ≠ .shutdown)
    (hok : Runs.RunOk (step maxConcurrent) (InSlots maxConcurrent) (.init rows containers) es)
    (h : Runs.run (step maxConcurrent) (.init rows containers) es = some m) : m.occupancy ≤ maxConcurrent := by
  have hinv : (Wf m ∧ Slots maxConcurrent m) ∧ ∀ tasks, .suspending tasks ∉ m.errands := by
    refine Runs.run_inv (fun w => (Wf w ∧ Slots maxConcurrent w) ∧ ∀ tasks, .suspending tasks ∉ w.errands) ?_
      ⟨⟨wf_init rows containers, Nat.zero_le _, fun r x hx => by cases hx⟩, fun _ => List.not_mem_nil⟩
      (Runs.runOk_and hok (Runs.runOk_of_mem (fun e he _ => hshutdown e he) _)) h
    rintro w e w' ⟨⟨hwf, hslots⟩, hnone⟩ ⟨hin, he⟩ hs
    have hwf' := wf_step hwf hs
    obtain ⟨w₁, hact, rfl⟩ := step_cases hs
    have hacted := acted_of_act hact
    refine ⟨⟨hwf', (slots_acted hwf hslots hin he hnone hacted).pump (hin.pump w₁ hact)⟩, fun tasks hmem => ?_⟩
    exact hnone tasks ((unshut_acted he hacted).errands tasks ((pump_pumped maxConcurrent w₁).errands ▸ hmem))
  exact hinv.1.2.occupancy_le

/-! One place -/

def waitingRow (id : WorkerId) : WorkerRow :=
  ⟨id, .coordinator, .persistent, none, .explicit, .spawning, [], some "tape", none⟩

/-- One worker is resumed. -/
theorem occupancy_le_maxConcurrent_one : ∃ m,
    Runs.run (step 1) (.init [waitingRow "scout"] []) [.resumePending, .errand 0 .done, .fetched 0 .done] = some m ∧
      m.occupancy ≤ 1 := by
  have hrun : Runs.run (step 1) (.init [waitingRow "scout"] []) [.resumePending, .errand 0 .done, .fetched 0 .done] =
    some _ := rfl
  refine ⟨_, hrun, occupancy_le_maxConcurrent (by simp) ?_ hrun⟩
  refine Runs.runOk_cons rfl ?_ (Runs.runOk_cons rfl ?_ (Runs.runOk_cons rfl ?_ trivial))
  · refine ⟨fun w₁ hact hpumping => ?_, fun i id he => (by cases he), fun i reply t he => (by cases he)⟩
    cases hact
    cases hpumping
  · refine ⟨fun w₁ hact _ => Or.inr ?_, fun i id he => (by cases he), fun i reply t he => (by cases he)⟩
    cases hact
    exact Nat.le_refl 1
  · refine ⟨fun w₁ hact hpumping => ?_, fun i id he _ r runner hr => ?_, fun i reply t he => (by cases he)⟩
    · cases hact
      cases hpumping
    · cases hr

/-- Two are resumed: `pump` starts both, since none is in the map yet. -/
def resumedTogether : List Event := [.resumePending, .errand 0 .done, .fetched 0 .done, .fetched 0 .done]

theorem occupancy_exceeds_maxConcurrent : ¬ ∀ (maxConcurrent : ℕ) (rows : WorkerRows) (containers : List WorkerId)
    (es : List Event) (m : World), (∀ e ∈ es, e ≠ .shutdown) →
      Runs.run (step maxConcurrent) (.init rows containers) es = some m → m.occupancy ≤ maxConcurrent := by
  intro h
  have hle : 2 ≤ 1 := h 1 [waitingRow "scout", waitingRow "scribe"] [] resumedTogether _ (by simp [resumedTogether]) rfl
  omega

end Nexal.Workers
