import Nexal.Sanity.WorkerSuspend

/-! `shutdown`. It empties the queue and suspends the runners it finds in the map; a start that awaits something, and
a prompt that is on its way, are not in its reach. -/

namespace Nexal.Workers

variable {w w' : World} {t : Task} {ops : List Op} {maxConcurrent : ℕ}

/-- No start and no prompt is on its way, and who is alive is in the map. -/
structure AtRest (w : World) : Prop where
  starting : w.starting = []
  tasks : ∀ t ∈ w.tasks, Ending t.ops
  runners : ∀ r runner, w.runners[r]? = some runner → runner.alive = true →
    runner.disposed = false ∧ ∃ id, w.agents.lookup id = some r

/-- `shutdown` comes to a registry at rest, and no message is routed to a runner it suspends. -/
def ShutAtRest (w : World) : Event → Prop
  | .shutdown => AtRest w
  | .route id => w.shuttingDown = true → w.agents.lookup id = none
  | _ => True

/-! Who is still suspended -/

/-- The task will dispose of the runner, which is not at work then. -/
def Suspends (t : Task) (r : ℕ) (runner : Runner) : Prop :=
  t.runner = r ∧ (t.ops = Runner.suspend ∨
    (runner.isStreaming = false ∧ ∃ u, t.ops = [.storeQuietly u, .dispose false]))

structure Awaited (w : World) : Prop where
  covered : ∀ tasks, .suspending tasks ∈ w.errands → ∀ (r : ℕ) (runner : Runner), w.runners[r]? = some runner →
    runner.alive = true → ∃ j ∈ tasks, ∃ t, w.tasks[j]? = some t ∧ Suspends t r runner
  finished : w.shutDown = true → ∀ runner ∈ w.runners, runner.alive = false

/-- Nor does anything new begin. -/
structure ShuttingDown (w : World) : Prop extends Awaited w where
  starting : w.starting = []
  tasks : ∀ t ∈ w.tasks, Ending t.ops

theorem Suspends.faded {r : ℕ} {runner runner' : Runner} (h : Suspends t r runner) (hfaded : Faded runner runner') :
    Suspends t r runner' := by
  refine ⟨h.1, h.2.imp_right fun ⟨hidle, hops⟩ => ⟨Bool.eq_false_iff.mpr fun hstreaming => ?_, hops⟩⟩
  cases hidle.symm.trans (hfaded.streaming hstreaming)

theorem ShuttingDown.frame (h : ShuttingDown w) (hstarting : w'.starting = w.starting) (htasks : w'.tasks = w.tasks)
    (hrunners : Fades w.runners w'.runners)
    (herrands : ∀ tasks, .suspending tasks ∈ w'.errands → .suspending tasks ∈ w.errands)
    (hshutDown : w'.shutDown = w.shutDown) :
    ShuttingDown w' where
  starting := hstarting.trans h.starting
  tasks := htasks ▸ h.tasks
  covered tasks hmem r runner hr halive := by
    obtain ⟨y, hy, hfaded⟩ := hrunners r runner hr
    obtain ⟨j, hj, t, ht, hsuspends⟩ := h.covered tasks (herrands tasks hmem) r y hy (hfaded.alive halive)
    exact ⟨j, hj, t, htasks ▸ ht, hsuspends.faded hfaded⟩
  finished hover runner hrunner := by
    obtain ⟨r, hr⟩ := Lists.exists_getElem?_of_mem hrunner
    obtain ⟨y, hy, hfaded⟩ := hrunners r runner hr
    refine Bool.eq_false_iff.mpr fun halive => ?_
    cases (h.finished (hshutDown ▸ hover) y (List.mem_of_getElem? hy)).symm.trans (hfaded.alive halive)

theorem ShuttingDown.settle (h : ShuttingDown w) (t : Task) (hops : Ending ops) : ShuttingDown (settle w t ops).1 := by
  have hs := settle_settles w t ops
  exact h.frame hs.starting hs.tasks (settle_ending w t hops).2.2 (fun _ hmem => hs.errands ▸ hmem) hs.shutDown

theorem ShuttingDown.begin (h : ShuttingDown w) (r : ℕ) (runner : Runner) (job : Job) (hops : Ending ops) :
    ShuttingDown (w.begin r runner job ops) := by
  have hs := h.settle ⟨runner.row.id, r, job, ops⟩ hops
  refine ⟨⟨fun tasks hmem j x hx halive => ?_, hs.finished⟩, hs.starting, fun t ht => ?_⟩
  · obtain ⟨k, hk, t, ht, hsuspends⟩ := hs.covered tasks hmem j x hx halive
    exact ⟨k, hk, t, Lists.getElem?_append_of_some ht _, hsuspends⟩
  · rcases List.mem_append.mp ht with hold | hnew
    · exact hs.tasks t hold
    · rw [List.mem_singleton.mp hnew]
      exact (settle_ending w _ hops).1

theorem disposed_of_settle {x : Runner} {release : Bool}
    (hx : (settle w t [.dispose release]).1.runners[t.runner]? = some x) : x.disposed = true := by
  rw [settle] at hx
  by_cases hdisposed : w.isDisposed t.runner
  · rw [if_pos hdisposed, settle] at hx
    rw [World.isDisposed, hx] at hdisposed
    exact hdisposed
  · rw [if_neg hdisposed, World.modifyRunner, List.getElem?_modify] at hx
    obtain ⟨y, hy, heq⟩ := Option.map_eq_some_iff.mp hx
    rw [if_pos rfl] at heq
    rw [← heq]
    rfl

/-- A task that suspends a runner goes on: it does so still, or has done so. -/
theorem Suspends.went {r : ℕ} {x y : Runner} {op : Op} {reply : Reply} {w₁ : World} {out : Except String (List Op)}
    (h : Suspends t r y) (hops : t.ops = op :: ops) (ha : Answered w t op reply w₁ out) (hy : w.runners[r]? = some y)
    (hx : (Workers.settle w₁ t (t.next ops out)).1.runners[r]? = some x) : y.isStreaming = false ∧
      (x.disposed = true ∨ ∃ u, (Workers.settle w₁ t (t.next ops out)).2 = [.storeQuietly u, .dispose false]) := by
  obtain ⟨rfl, hsuspend⟩ := h
  rcases hsuspend with hfirst | ⟨hidle, u, hsecond⟩
  · obtain ⟨rfl, rfl⟩ := List.cons.inj (hops.symm.trans hfirst)
    cases ha with
    | idle hstreaming =>
      rw [World.isStreaming, hy, Option.any_some] at hstreaming
      refine ⟨hstreaming, ?_⟩
      rw [Task.next, List.nil_append, Workers.settle] at hx ⊢
      split at hx
      · rename_i messages hmessages
        exact Or.inr ⟨.setMessages messages, rfl⟩
      · exact Or.inl (disposed_of_settle hx)
    | nothing op reply hquiet => cases hquiet
    | threw op error hthrows => cases hthrows
  · obtain ⟨rfl, rfl⟩ := List.cons.inj (hops.symm.trans hsecond)
    refine ⟨hidle, Or.inl ?_⟩
    cases ha with
    | wroteQuietly | notWritten => exact disposed_of_settle hx
    | nothing op reply hquiet => cases hquiet
    | threw op error hthrows => cases hthrows

theorem ShuttingDown.went {i : ℕ} {reply : Reply} {op : Op} {w₁ : World} {out : Except String (List Op)}
    (h : ShuttingDown w)
    (ht : w.tasks[i]? = some t) (hops : t.ops = op :: ops) (ha : Answered w t op reply w₁ out) :
    ShuttingDown (w₁.resume i t (t.next ops out)) := by
  obtain ⟨hnext, hrunners, hstarting, herrands, hshutDown⟩ := ha.ending (hops ▸ h.tasks t (List.mem_of_getElem? ht))
  have hw₁ : ShuttingDown w₁ :=
    h.frame hstarting ha.tasks (hrunners ▸ .refl _) (fun _ hmem => herrands ▸ hmem) hshutDown
  have hs := hw₁.settle t hnext
  have htasks := (settle_settles w₁ t (t.next ops out)).tasks
  refine ⟨⟨fun tasks hmem r x hx halive => ?_, hs.finished⟩, hs.starting, fun t' ht' => ?_⟩
  · obtain ⟨y, hy, hfaded⟩ := (settle_ending w₁ t hnext).2.2 r x hx
    have hmem₁ : .suspending tasks ∈ w₁.errands := (settle_settles w₁ t (t.next ops out)).errands ▸ hmem
    obtain ⟨j, hj, t', ht', hsuspends⟩ := hw₁.covered tasks hmem₁ r y hy (hfaded.alive halive)
    have hset : ∀ t'', (w₁.tasks.set i t'')[j]? = if j = i then some t'' else w₁.tasks[j]? :=
      fun t'' => Lists.getElem?_set_of_some (ha.tasks ▸ ht) t'' j
    by_cases hji : j = i
    · subst hji
      cases (ha.tasks ▸ ht).symm.trans ht'
      obtain ⟨hidle, hdone | ⟨u, hu⟩⟩ := hsuspends.went hops ha (hrunners ▸ hy) hx
      · -- the runner is neither undisposed nor at work
        rw [Runner.alive, hdone, Bool.not_true, Bool.false_or] at halive
        cases hidle.symm.trans (hfaded.streaming halive)
      · have hidle' : x.isStreaming = false := by
          refine Bool.eq_false_iff.mpr fun hstreaming => ?_
          cases hidle.symm.trans (hfaded.streaming hstreaming)
        refine ⟨j, hj, { t with ops := (Workers.settle w₁ t (t.next ops out)).2 }, ?_, hsuspends.1,
          Or.inr ⟨hidle', u, hu⟩⟩
        rw [World.resume, htasks, hset, if_pos rfl]
    · refine ⟨j, hj, t', ?_, hsuspends.faded hfaded⟩
      rw [World.resume, htasks, hset, if_neg hji]
      exact ht'
  · rcases List.mem_or_eq_of_mem_set ht' with hold | rfl
    · exact hs.tasks t' hold
    · exact (settle_ending w₁ t hnext).1

theorem AtRest.shutdown (h : AtRest w) (hawaited : Awaited w) : ShuttingDown (shutdown w) := by
  obtain ⟨w₁, hs, heq⟩ := shutdown_eq w
  obtain ⟨begun, hbegin, hops, hbegun⟩ := hs.tasks
  have htasks : w₁.tasks = w.tasks ++ begun := hbegin
  have halive : ∀ {r : ℕ} {x : Runner}, w₁.runners[r]? = some x → x.alive = true →
    ∃ y, w.runners[r]? = some y ∧ Faded y x ∧
      y.alive = true := by
    intro r x hx hxalive
    obtain ⟨y, hy, hfaded⟩ := hs.runners r x hx
    exact ⟨y, hy, hfaded, hfaded.alive hxalive⟩
  rw [heq]
  refine ⟨⟨fun tasks hmem r x hx hxalive => ?_, fun hover x hx => ?_⟩, hs.starting.trans h.starting, fun t ht => ?_⟩
  · obtain ⟨y, hy, hfaded, hyalive⟩ := halive hx hxalive
    rcases List.mem_append.mp hmem with hold | hnew
    · obtain ⟨j, hj, t, ht, hsuspends⟩ := hawaited.covered tasks (hs.errands ▸ hold) r y hy hyalive
      refine ⟨j, hj, t, ?_, hsuspends.faded hfaded⟩
      rw [htasks]
      exact Lists.getElem?_append_of_some ht _
    · cases List.mem_singleton.mp hnew
      obtain ⟨hdisposed, id, hid⟩ := h.runners r y hy hyalive
      have hmap : r ∈ w.agents.entries.map (·.2) := List.mem_map.mpr ⟨⟨id, r⟩, AList.mem_lookup_iff.mp hid, rfl⟩
      obtain ⟨t, ht, -, htr⟩ := hbegun r hmap y hy hdisposed
      obtain ⟨k, hk⟩ := Lists.exists_getElem?_of_mem ht
      have hlt := (List.getElem?_eq_some_iff.mp hk).1
      refine ⟨w.tasks.length + k, mem_drop_range.mpr ⟨Nat.le_add_right _ _, ?_⟩, t, ?_, htr, Or.inl (hops t ht)⟩
      · rw [htasks, List.length_append]
        omega
      · rw [htasks, List.getElem?_append_right (Nat.le_add_right _ _), Nat.add_sub_cancel_left]
        exact hk
  · obtain ⟨r, hr⟩ := Lists.exists_getElem?_of_mem hx
    refine Bool.eq_false_iff.mpr fun hxalive => ?_
    obtain ⟨y, hy, -, hyalive⟩ := halive hr hxalive
    cases (hawaited.finished (hs.shutDown ▸ hover) y (List.mem_of_getElem? hy)).symm.trans hyalive
  · rcases List.mem_append.mp (htasks ▸ ht) with hold | hnew
    · exact h.tasks t hold
    · rw [hops t hnew]
      exact ending_suspend

/-! Events -/

def OnlyReleases (w w' : World) : Prop :=
    ∃ more, w'.effects = w.effects ++ more ∧ ∀ effect ∈ more, ∃ id, effect = .released id

theorem onlyReleases_of_eq (h : w'.effects = w.effects) : OnlyReleases w w' :=
  ⟨[], by rw [h, List.append_nil], List.forall_mem_nil _⟩

theorem OnlyReleases.trans {w'' : World} (h : OnlyReleases w w') (h' : OnlyReleases w' w'') : OnlyReleases w w'' := by
  obtain ⟨more, hmore, honly⟩ := h
  obtain ⟨more', hmore', honly'⟩ := h'
  refine ⟨more ++ more', by rw [hmore', hmore, List.append_assoc], fun effect he => ?_⟩
  exact (List.mem_append.mp he).elim (honly effect) (honly' effect)

theorem begin_effects (w : World) (r : ℕ) (runner : Runner) (job : Job) (hops : Ending ops) :
    (w.begin r runner job ops).effects = w.effects :=
  (settle_ending w _ hops).2.1

theorem Answered.onlyReleases {op : Op} {reply : Reply} {out : Except String (List Op)} (ha : Answered w t op reply w' out)
    (hop : op.acts = false) : OnlyReleases w w' := by
  cases ha with
  | acquired => cases hop
  | released => exact ⟨[.released t.id], rfl, List.forall_mem_singleton.mpr ⟨t.id, rfl⟩⟩
  | _ => exact onlyReleases_of_eq rfl

theorem onlyReleases_acted {e : Event} (h : ShuttingDown w) (hshutting : w.shuttingDown = true) (hok : ShutAtRest w e)
    (ha : Acted w e w') : OnlyReleases w w' := by
  cases ha with
  | refused | spawned | resuming | cancelIgnored | cancelling | notRouted | suspendIgnored | message | endIgnored
  | notStarted =>
    exact onlyReleases_of_eq rfl
  | cancelled => exact onlyReleases_of_eq (begin_effects _ _ _ _ (ending_cancel _))
  | routed hmap => cases (hok hshutting).symm.trans hmap
  | suspended => exact onlyReleases_of_eq (begin_effects _ _ _ _ ending_suspend)
  | shutdown =>
    obtain ⟨w₁, hs, heq⟩ := shutdown_eq w
    exact heq ▸ onlyReleases_of_eq hs.effects
  | ended => exact onlyReleases_of_eq (begin_effects _ _ _ _ (ending_agentEnd _ _ _))
  | flushed => exact onlyReleases_of_eq (begin_effects _ _ _ _ (ending_of_all rfl))
  | went ht hops hanswer =>
    have hending := hops ▸ h.tasks _ (List.mem_of_getElem? ht)
    exact (hanswer.onlyReleases hending.head).trans (onlyReleases_of_eq (settle_ending _ _ (hanswer.ending hending).1).2.1)
  | started hi =>
    rw [h.starting] at hi
    cases hi
  | errand reply hi he => exact onlyReleases_of_eq he.aside.effects

theorem shuttingDown_acted {e : Event} (h : ShuttingDown w) (hshutting : w.shuttingDown = true) (hok : ShutAtRest w e)
    (ha : Acted w e w') : ShuttingDown w' := by
  have herrands : e ≠ .shutdown → ∀ tasks, .suspending tasks ∈ w'.errands → .suspending tasks ∈ w.errands :=
    fun he => (unshut_acted he ha).errands
  cases ha with
  | refused | cancelIgnored | notRouted | suspendIgnored => exact h
  | spawned | resuming | cancelling =>
    exact h.frame rfl rfl (.refl _) (herrands fun he => by cases he) rfl
  | @cancelled _ r runner =>
    have haborted : ShuttingDown (w.modifyAgent r Agent.abort) :=
      h.frame rfl rfl (fades_modifyAgent w r fun _ hf => hf) (fun _ hmem => hmem) rfl
    exact haborted.begin r runner .cancel (ending_cancel _)
  | routed hmap => cases (hok hshutting).symm.trans hmap
  | @suspended r runner =>
    have haborted : ShuttingDown (w.modifyAgent r Agent.abort) :=
      h.frame rfl rfl (fades_modifyAgent w r fun _ hf => hf) (fun _ hmem => hmem) rfl
    exact haborted.begin r runner .suspend ending_suspend
  | shutdown => exact hok.shutdown h.toAwaited
  | @message r m => exact h.frame rfl rfl (fades_modifyAgent w r fun _ hf => hf) (fun _ hmem => hmem) rfl
  | @ended r runner _ messages =>
    have hended : ShuttingDown (w.modifyAgent r Agent.ended) :=
      h.frame rfl rfl (fades_modifyAgent w r fun _ hf => by cases hf) (fun _ hmem => hmem) rfl
    exact hended.begin r runner .agentEnd (ending_agentEnd _ _ _)
  | @endIgnored r => exact h.frame rfl rfl (fades_modifyAgent w r fun _ hf => by cases hf) (fun _ hmem => hmem) rfl
  | @flushed r runner => exact h.begin r runner .flush (ending_of_all rfl)
  | went ht hops hanswer => exact h.went ht hops hanswer
  | started hi | notStarted reply hi =>
    rw [h.starting] at hi
    cases hi
  | errand reply hi he =>
    have herrands := herrands fun heq => by cases heq
    cases he with
    | shutDown tasks hdone =>
      refine ⟨⟨fun tasks' hmem => h.covered tasks' (herrands tasks' hmem), fun _ runner hrunner => ?_⟩,
        h.starting, h.tasks⟩
      obtain ⟨r, hr⟩ := Lists.exists_getElem?_of_mem hrunner
      refine Bool.eq_false_iff.mpr fun halive => ?_
      obtain ⟨j, hj, t, ht, -, hops⟩ := h.covered tasks (List.mem_of_getElem? hi) r runner hr halive
      obtain ⟨t', ht', hnil⟩ := hdone j hj
      cases ht.symm.trans ht'
      rw [hnil] at hops
      rcases hops with hfirst | ⟨-, u, hsecond⟩
      · cases hfirst
      · cases hsecond
    | _ => exact h.frame rfl rfl (.refl _) herrands rfl

/-! Runs -/

structure ShutdownInv (w : World) : Prop where
  before : w.shuttingDown = false → w.shutDown = false ∧ ∀ tasks, .suspending tasks ∉ w.errands
  after : w.shuttingDown = true → ShuttingDown w

theorem shutdownInv_init (rows : WorkerRows) (containers : List WorkerId) : ShutdownInv (.init rows containers) :=
  ⟨fun _ => ⟨rfl, fun _ => List.not_mem_nil⟩, fun h => by cases h⟩

theorem ShutdownInv.awaited (h : ShutdownInv w) : Awaited w := by
  cases hshutting : w.shuttingDown with
  | false =>
    obtain ⟨hshutDown, hnone⟩ := h.before hshutting
    refine ⟨fun tasks hmem => absurd hmem (hnone tasks), fun hover => ?_⟩
    cases hshutDown.symm.trans hover
  | true => exact (h.after hshutting).toAwaited

theorem pumpLoop_shuttingDown (hshutting : w.shuttingDown = true) (queue : List WorkerId) :
    (pumpLoop maxConcurrent w queue).starting = w.starting := by
  cases queue with
  | nil => rfl
  | cons id queue =>
    rw [pumpLoop, hshutting]
    rfl

theorem ShuttingDown.pump (h : ShuttingDown w) (hshutting : w.shuttingDown = true) :
    ShuttingDown (pump maxConcurrent w) := by
  have hpump := pump_pumped maxConcurrent w
  refine h.frame ?_ hpump.tasks (hpump.runners.symm ▸ .refl _) (fun _ hmem => hpump.errands ▸ hmem) hpump.shutDown
  unfold Workers.pump
  split_ifs
  · exact pumpLoop_shuttingDown (w := { w with pumping := false }) hshutting w.queue
  · rfl

theorem shutdown_shuttingDown (w : World) : (Workers.shutdown w).shuttingDown = true := by
  obtain ⟨w₁, hs, heq⟩ := shutdown_eq w
  exact heq ▸ hs.shuttingDown

theorem shutdownInv_step {e : Event} (h : ShutdownInv w) (hok : ShutAtRest w e) (hs : step maxConcurrent w e = some w') :
    ShutdownInv w' := by
  obtain ⟨w₁, hact, rfl⟩ := step_cases hs
  have hacted := acted_of_act hact
  have hpump := pump_pumped maxConcurrent w₁
  have hafter : w₁.shuttingDown = true → ShuttingDown w₁ := by
    intro hshutting
    by_cases he : e = .shutdown
    · subst he
      cases hact
      exact hok.shutdown h.awaited
    · have hbefore := (unshut_acted he hacted).shuttingDown.symm.trans hshutting
      exact shuttingDown_acted (h.after hbefore) hbefore hok hacted
  refine ⟨fun hshutting => ?_, fun hshutting => ?_⟩
  · rw [hpump.shuttingDown] at hshutting
    have he : e ≠ .shutdown := by
      rintro rfl
      cases hact
      cases hshutting.symm.trans (shutdown_shuttingDown w)
    have hunshut := unshut_acted he hacted
    obtain ⟨hshutDown, hnone⟩ := h.before (hunshut.shuttingDown ▸ hshutting)
    refine ⟨?_, fun tasks hmem => hnone tasks (hunshut.errands tasks (hpump.errands ▸ hmem))⟩
    rw [hpump.shutDown]
    rcases hunshut.shutDown with heq | ⟨-, tasks, hmem⟩
    · exact heq.trans hshutDown
    · exact absurd hmem (hnone tasks)
  · rw [hpump.shuttingDown] at hshutting
    exact (hafter hshutting).pump hshutting

theorem shutDown_step {e : Event} (h : ShutdownInv w) (hshutting : w.shuttingDown = true) (hshutDown : w.shutDown = true)
    (hok : ShutAtRest w e) (hs : step maxConcurrent w e = some w') :
    w'.shuttingDown = true ∧ w'.shutDown = true ∧ OnlyReleases w w' := by
  obtain ⟨w₁, hact, rfl⟩ := step_cases hs
  have hacted := acted_of_act hact
  have hpump := pump_pumped maxConcurrent w₁
  have honly := onlyReleases_acted (h.after hshutting) hshutting hok hacted
  rw [hpump.shuttingDown, hpump.shutDown]
  refine ⟨?_, ?_, honly.trans (onlyReleases_of_eq hpump.effects)⟩
  · by_cases he : e = .shutdown
    · subst he
      cases hact
      exact shutdown_shuttingDown w
    · exact (unshut_acted he hacted).shuttingDown.trans hshutting
  · by_cases he : e = .shutdown
    · subst he
      cases hact
      obtain ⟨w₂, hsuspended, heq⟩ := shutdown_eq w
      exact heq ▸ hsuspended.shutDown.trans hshutDown
    · rcases (unshut_acted he hacted).shutDown with heq | ⟨htrue, -⟩
      · exact heq.trans hshutDown
      · exact htrue

/-- When `shutdown` has come to a registry at rest and has resolved, no runner is alive, and from then on nothing is
done but containers released. -/
theorem shutdown_final {rows : WorkerRows} {containers : List WorkerId} {es es' : List Event} {m m' : World}
    (hok : Runs.RunOk (step maxConcurrent) ShutAtRest (.init rows containers) es)
    (h : Runs.run (step maxConcurrent) (.init rows containers) es = some m) (hover : m.shutDown = true)
    (hok' : Runs.RunOk (step maxConcurrent) ShutAtRest m es') (h' : Runs.run (step maxConcurrent) m es' = some m') :
    (∀ runner ∈ m'.runners, runner.alive = false) ∧ OnlyReleases m m' := by
  have hm : ShutdownInv m := Runs.run_inv ShutdownInv (fun _ _ _ hi hp hs => shutdownInv_step hi hp hs)
    (shutdownInv_init rows containers) hok h
  have hshutting : m.shuttingDown = true := by
    refine Bool.not_eq_false _ ▸ fun hbefore => ?_
    cases (hm.before hbefore).1.symm.trans hover
  have hlater : ShutdownInv m' ∧ m'.shuttingDown = true ∧ m'.shutDown = true ∧ OnlyReleases m m' := by
    refine Runs.run_inv (fun w => ShutdownInv w ∧ w.shuttingDown = true ∧ w.shutDown = true ∧ OnlyReleases m w) ?_
      ⟨hm, hshutting, hover, onlyReleases_of_eq rfl⟩ hok' h'
    rintro w e w' ⟨hinv, hw, hshutDown, honly⟩ hp hs
    obtain ⟨hw', hshutDown', honly'⟩ := shutDown_step hinv hw hshutDown hp hs
    exact ⟨shutdownInv_step hinv hp hs, hw', hshutDown', honly.trans honly'⟩
  exact ⟨(hlater.1.after hlater.2.1).finished hlater.2.2.1, hlater.2.2.2⟩

/-! A worker at its first prompt -/

def scoutRow : WorkerRow :=
  ⟨"scout", .coordinator, .persistent, some "look around", .explicit, .spawning, [], some "tape", none⟩

def prompting : List Event :=
  [.resumePending, .errand 0 .done, .fetched 0 .done, .go 0 (.entries []), .go 0 .done, .go 0 .done, .go 0 .done]

/-- The agent ends its run, is disposed of, and is forgotten at the gateway. -/
def stopping : List Event :=
  [.agentEnd 0 (some "Request was aborted.") [], .go 1 .done, .go 1 .done, .go 1 .done, .go 1 .done, .errand 0 .done]

theorem shutdown_final_prompted : ∃ m, Runs.run (step 4) (.init [scoutRow] [])
    (prompting ++ .shutdown :: stopping) = some m ∧
    m.shutDown = true ∧ ∀ runner ∈ m.runners, runner.alive = false := by
  have hprompted : Runs.run (step 4) (.init [scoutRow] []) prompting = some _ := rfl
  have hrun : Runs.run (step 4) (.init [scoutRow] []) (prompting ++ .shutdown :: stopping) = some _ := rfl
  have hrest : ∀ e ∈ prompting ++ stopping, ∀ w, ShutAtRest w e := by
    intro e he w
    simp only [prompting, stopping, List.cons_append, List.nil_append, List.mem_cons, List.not_mem_nil, or_false] at he
    rcases he with rfl | rfl | rfl | rfl | rfl | rfl | rfl | rfl | rfl | rfl | rfl | rfl | rfl
    all_goals trivial
  refine ⟨_, hrun, rfl, (shutdown_final (Runs.runOk_append hprompted ?_ ?_) hrun rfl ?_ (Runs.run_nil _)).1⟩
  · exact Runs.runOk_of_mem (fun e he => hrest e (List.mem_append_left stopping he)) _
  · refine Runs.runOk_cons rfl ⟨rfl, ?_, fun r runner hr _ => ?_⟩ ?_
    · exact List.forall_mem_singleton.mpr (List.forall_mem_nil _)
    · cases r with
      | zero =>
        cases hr
        exact ⟨rfl, "scout", rfl⟩
      | succ r => cases hr
    · exact Runs.runOk_of_mem (fun e he => hrest e (List.mem_append_right prompting he)) _
  · trivial

/-- The registry is shut down while the row of a worker is read. -/
def startingLate : List Event := [.resumePending, .errand 0 .done, .shutdown, .errand 0 .done]

theorem prompted_after_shutdown : ¬ ∀ (maxConcurrent : ℕ) (rows : WorkerRows) (containers : List WorkerId)
    (es es' : List Event) (m m' : World), Runs.run (step maxConcurrent) (.init rows containers) es = some m →
      m.shutDown = true → Runs.run (step maxConcurrent) m es' = some m' →
        (∀ runner ∈ m'.runners, runner.alive = false) ∧ OnlyReleases m m' := by
  intro h
  have hfinal := h 4 [scoutRow] [] startingLate
    [.fetched 0 .done, .go 0 (.entries []), .go 0 .done, .go 0 .done, .go 0 .done] _ _ rfl rfl rfl
  cases hfinal.1 _ (List.mem_singleton_self _)

end Nexal.Workers
