import Nexal.Sanity.WorkerSuspend

/-! The queue of the registry: everything that may make room in the map is followed by `pump`, so nobody waits while
there is room. -/

namespace Nexal.Workers

variable {w w' : World} {t : Task} {ops : List Op} {maxConcurrent : ℕ}

def Waits (maxConcurrent : ℕ) (w : World) : Prop :=
  w.queue = [] ∨ w.shuttingDown = true ∨ maxConcurrent ≤ w.agents.entries.length

/-- A change that makes no room unseen. -/
structure Crowded (w w' : World) : Prop where
  queue : w.queue = [] → w'.queue = []
  shuttingDown : w.shuttingDown = true → w'.shuttingDown = true
  agents : w.agents.entries.length ≤ w'.agents.entries.length

theorem Waits.crowded (h : Waits maxConcurrent w) (hcrowded : Crowded w w') : Waits maxConcurrent w' :=
  h.imp hcrowded.queue (Or.imp hcrowded.shuttingDown fun hfull => hfull.trans hcrowded.agents)

theorem crowded_of_eq (hqueue : w'.queue = w.queue) (hshutting : w'.shuttingDown = w.shuttingDown)
    (hagents : w'.agents = w.agents) :
    Crowded w w' :=
  ⟨fun h => hqueue.trans h, fun h => hshutting.trans h, by rw [hagents]⟩

theorem Crowded.trans {w'' : World} (h : Crowded w w') (h' : Crowded w' w'') : Crowded w w'' :=
  ⟨fun hq => h'.queue (h.queue hq), fun hs => h'.shuttingDown (h.shuttingDown hs), h.agents.trans h'.agents⟩

/-- Who leaves the map sees to `pump`. -/
theorem settle_pumping (w : World) (t : Task) (ops : List Op) : (settle w t ops).1.pumping = true ∨
    ((settle w t ops).1.agents = w.agents ∧ (settle w t ops).1.pumping = w.pumping) := by
  have hprompt : ∀ v : World, (prompt v t).1.agents = v.agents ∧ (prompt v t).1.pumping = v.pumping := by
    intro v
    unfold prompt
    split_ifs <;> exact ⟨rfl, rfl⟩
  fun_induction settle
  case case2 ih | case9 ih | case10 ih => exact ih
  case case3 | case7 => exact Or.inr (hprompt _)
  case case12 => exact Or.inl rfl
  case case1 | case4 | case5 | case6 | case8 | case11 | case13 => exact Or.inr ⟨rfl, rfl⟩

/-- A step of a task, whoever it is of. -/
def Settled (w w' : World) : Prop := w'.pumping = true ∨ (Crowded w w' ∧ w'.pumping = w.pumping)

theorem settled_of_eq (hqueue : w'.queue = w.queue) (hshutting : w'.shuttingDown = w.shuttingDown)
    (hagents : w'.agents = w.agents)
    (hpumping : w'.pumping = w.pumping) : Settled w w' :=
  Or.inr ⟨crowded_of_eq hqueue hshutting hagents, hpumping⟩

theorem Settled.trans {w'' : World} (h : Settled w w') (h' : Settled w' w'') : Settled w w'' := by
  rcases h' with hpump | ⟨hcrowded', hpump'⟩
  · exact Or.inl hpump
  · rcases h with hpump | ⟨hcrowded, hpump⟩
    · exact Or.inl (hpump'.trans hpump)
    · exact Or.inr ⟨hcrowded.trans hcrowded', hpump'.trans hpump⟩

theorem settle_settled (w : World) (t : Task) (ops : List Op) : Settled w (settle w t ops).1 := by
  have hs := settle_settles w t ops
  rcases settle_pumping w t ops with hpump | ⟨hagents, hpump⟩
  · exact Or.inl hpump
  · exact settled_of_eq hs.queue hs.shuttingDown hagents hpump

theorem begin_settled {v : World} (h : Settled w v) (r : ℕ) (runner : Runner) (job : Job) (ops : List Op) :
    Settled w (v.begin r runner job ops) :=
  (h.trans (settle_settled v ⟨runner.row.id, r, job, ops⟩ ops)).trans (settled_of_eq rfl rfl rfl rfl)

theorem Answered.settled {op : Op} {reply : Reply} {out : Except String (List Op)} (ha : Answered w t op reply w' out) :
    Settled w w' := by
  cases ha with
  | _ => exact settled_of_eq rfl rfl rfl rfl

theorem length_insert_le (agents : AList fun _ : WorkerId => ℕ) (id : WorkerId) (r : ℕ) :
    agents.entries.length ≤ (agents.insert id r).entries.length := by
  rw [AList.entries_insert, List.length_cons]
  by_cases hid : id ∈ agents.entries.keys
  · obtain ⟨b, l₁, l₂, -, hl, herase⟩ := List.exists_of_kerase hid
    rw [herase, hl, List.length_append, List.length_append, List.length_cons, Nat.add_assoc]
  · rw [List.kerase_of_notMem_keys hid]
    exact Nat.le_succ _

/-- What an event does before `pump`: room is made, or someone comes, only if `pump` follows. -/
theorem crowded_acted {e : Event} (hsuspending : ∀ tasks, .suspending tasks ∈ w.errands → w.shuttingDown = true)
    (ha : Acted w e w') : w'.pumping = true ∨ w'.shuttingDown = true ∨ Crowded w w' := by
  have hof : ∀ {v : World}, Settled w v → v.pumping = true ∨ v.shuttingDown = true ∨ Crowded w v :=
    fun h => h.imp_right fun h => Or.inr h.1
  have haborted : ∀ r f, Settled w (w.modifyAgent r f) := fun r f => settled_of_eq rfl rfl rfl rfl
  cases ha with
  | refused | cancelIgnored | notRouted | suspendIgnored => exact hof (settled_of_eq rfl rfl rfl rfl)
  | spawned | resuming | notStarted => exact hof (settled_of_eq rfl rfl rfl rfl)
  | @cancelling worker =>
    refine Or.inr (Or.inr ⟨fun hq => ?_, fun h => h, Nat.le_refl _⟩)
    dsimp only
    rw [hq]
    rfl
  | cancelled | suspended | ended => exact hof (begin_settled (haborted _ _) _ _ _ _)
  | routed | flushed => exact hof (begin_settled (settled_of_eq rfl rfl rfl rfl) _ _ _ _)
  | shutdown =>
    obtain ⟨w₁, hs, heq⟩ := shutdown_eq w
    rw [heq]
    exact Or.inr (Or.inl hs.shuttingDown)
  | message | endIgnored => exact hof (haborted _ _)
  | went ht hops ha => exact hof ((ha.settled.trans (settle_settled _ _ _)).trans (settled_of_eq rfl rfl rfl rfl))
  | @started i worker row =>
    obtain ⟨runner, -, -, heq⟩ := startAgent_eq { w with starting := w.starting.eraseIdx i } row
    rw [heq]
    exact Or.inr (Or.inr ⟨fun h => h, fun h => h, length_insert_le _ _ _⟩)
  | errand reply hi he =>
    cases he with
    | shutDown tasks h => exact Or.inr (Or.inl (hsuspending tasks (List.mem_of_getElem? hi)))
    | linked | listed => exact Or.inl rfl
    | _ => exact hof (settled_of_eq rfl rfl rfl rfl)

/-- `pump` stops when the queue is empty or there is no room. -/
theorem pumpLoop_waits (w : World) (queue : List WorkerId) : Waits maxConcurrent (pumpLoop maxConcurrent w queue) := by
  induction queue generalizing w with
  | nil => exact Or.inl rfl
  | cons worker queue ih =>
    unfold pumpLoop
    split_ifs with hroom
    · exact ih _
    · rw [Bool.and_eq_true, not_and_or, Bool.not_eq_true', Bool.not_eq_false, decide_eq_true_iff, Nat.not_lt] at hroom
      exact Or.inr hroom

theorem pump_waits (h : w.pumping = true ∨ Waits maxConcurrent w) : Waits maxConcurrent (pump maxConcurrent w) := by
  unfold pump
  split_ifs with hpumping
  · exact pumpLoop_waits _ _
  · exact h.resolve_left hpumping

/-- In no run does a worker stay in the queue while the map has room for it, unless the registry is shutting down: no
event that makes room goes without a `pump`. -/
theorem queued_only_when_full {rows : WorkerRows} {containers : List WorkerId} {es : List Event}
    (h : Runs.run (step maxConcurrent) (.init rows containers) es = some w) (hqueue : w.queue ≠ []) :
    w.shuttingDown = true ∨ maxConcurrent ≤ w.agents.entries.length := by
  have hinv : Waits maxConcurrent w ∧ ∀ tasks, .suspending tasks ∈ w.errands → w.shuttingDown = true := by
    refine Runs.run_inv_all
      (fun w => Waits maxConcurrent w ∧ ∀ tasks, .suspending tasks ∈ w.errands → w.shuttingDown = true) ?_
      ⟨Or.inl rfl, fun _ hmem => absurd hmem List.not_mem_nil⟩ h
    rintro w e w' ⟨hwaits, hsuspending⟩ hs
    obtain ⟨w₁, hact, rfl⟩ := step_cases hs
    have hacted := acted_of_act hact
    have hpumped := pump_pumped maxConcurrent w₁
    refine ⟨pump_waits ?_, fun tasks hmem => ?_⟩
    · rcases crowded_acted hsuspending hacted with hpump | hshutting | hcrowded
      · exact Or.inl hpump
      · exact Or.inr (Or.inr (Or.inl hshutting))
      · exact Or.inr (hwaits.crowded hcrowded)
    · rw [hpumped.errands] at hmem
      rw [hpumped.shuttingDown]
      by_cases he : e = .shutdown
      · subst he
        cases hact
        obtain ⟨w₂, hsuspended, heq⟩ := shutdown_eq w
        rw [heq]
        exact hsuspended.shuttingDown
      · have hunshut := unshut_acted he hacted
        exact hunshut.shuttingDown.trans (hsuspending tasks (hunshut.errands tasks hmem))
  exact hinv.1.resolve_left hqueue

def standingRow (id : WorkerId) : WorkerRow :=
    ⟨id, .coordinator, .persistent, none, .explicit, .spawning, [], some "tape", none⟩

/-- One worker has the only place, and another one is spawned. -/
def spawnedBehind : List Event :=
  [.resumePending, .errand 0 .done, .fetched 0 .done,
    .spawn ⟨"scribe", .coordinator, .persistent, none, .explicit, none⟩,
    .errand 0 (.tape "tape"), .errand 0 .done, .errand 0 .done]

theorem queued_only_when_full_one : ∃ w, Runs.run (step 1) (.init [standingRow "scout"] []) spawnedBehind = some w ∧
    w.queue = ["scribe"] ∧ (w.shuttingDown = true ∨ 1 ≤ w.agents.entries.length) := by
  have hrun : Runs.run (step 1) (.init [standingRow "scout"] []) spawnedBehind = some _ := rfl
  exact ⟨_, hrun, rfl, queued_only_when_full hrun (List.cons_ne_nil "scribe" [])⟩

end Nexal.Workers
