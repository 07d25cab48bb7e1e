import Nexal.Sanity.WorkerApart

/-! `suspend` of one worker. A worker that rests keeps its status and its container. The abort of one that is at work
makes its `agent_end` cancel it. -/

namespace Nexal.Workers

variable {w w' : World} {t : Task} {ops : List Op} {id : WorkerId} {maxConcurrent : ℕ}

/-- Leaves the status and the container alone, and brings nothing. -/
def Op.gentle : Op → Bool
  | .storeQuietly u => u.status.isNone
  | .dispose release => !release
  | .setupProxies | .configTape | .recordTapeStatus _ | .recordMessages | .writeImages | .sendToChat | .waitForIdle
  | .closeClient | .detachAgent | .flushNow _ _ => true
  | _ => false

def Gentle (ops : List Op) : Prop := ∀ op ∈ ops, op.gentle = true

/-- No agent of the worker is at work, and what its tasks still have to do is gentle. -/
structure Resting (id : WorkerId) (w : World) : Prop where
  idle : ∀ runner ∈ w.runners, runner.row.id = id → runner.isStreaming = false
  tasks : ∀ t ∈ w.tasks, t.id = id → Gentle t.ops

/-- The worker is neither cancelled nor started, and no message is routed to it. -/
def LeftAlone (id : WorkerId) (w : World) : Event → Prop
  | .route id' | .cancel id' => id' ≠ id
  | .fetched i _ => w.starting[i]? ≠ some id
  | .errand i _ => w.errands[i]? ≠ some (.marking id)
  | _ => True

def Event.suspends (w : World) (r : ℕ) : Event → Prop
  | .suspend r' => r' = r
  | .shutdown => ∃ id, w.agents.lookup id = some r
  | _ => False

/-! Gentle tasks -/

theorem Gentle.tail {op : Op} (h : Gentle (op :: ops)) : Gentle ops := fun op' hop' => h op' (List.mem_cons_of_mem op hop')

theorem Gentle.head {op : Op} (h : Gentle (op :: ops)) : op.gentle = true := h op List.mem_cons_self

theorem Gentle.cons {op : Op} (hop : op.gentle = true) (h : Gentle ops) : Gentle (op :: ops) :=
  List.forall_mem_cons.mpr ⟨hop, h⟩

theorem gentle_of_all (h : ops.all Op.gentle = true) : Gentle ops := List.all_eq_true.mp h

theorem Gentle.ending (h : Gentle ops) : Ending ops := by
  intro op hop
  have hgentle := h op hop
  cases op with
  | acquireAgent | createTape | loadTape | newAgent | firstPrompt | steerOrPrompt | prompt => cases hgentle
  | _ => rfl

theorem settle_gentle (w : World) (t : Task) (h : Gentle ops) : Gentle (settle w t ops).2 := by
  fun_induction settle
  case case2 | case3 | case4 | case5 | case6 | case7 | case12 => cases h.head
  case case9 ih | case10 ih => exact ih h.tail
  case case8 =>
    refine .cons rfl ?_
    split_ifs
    · exact .cons rfl h.tail
    · exact h.tail
  case case11 release _ _ =>
    cases release with
    | false => exact .cons rfl (.cons rfl h.tail)
    | true => cases h.head
  case case1 => exact List.forall_mem_nil _
  case case13 => exact h

/-- A gentle task that is to detach the container still is when it has gone on. -/
theorem settle_detach (w : World) (t : Task) (h : Gentle ops) (hdetach : .detachAgent ∈ ops) :
    .detachAgent ∈ (settle w t ops).2 := by
  fun_induction settle
  case case2 | case3 | case4 | case5 | case6 | case7 | case12 => cases h.head
  case case9 ih | case10 ih => exact ih h.tail (List.mem_of_ne_of_mem (fun heq => by cases heq) hdetach)
  case case8 =>
    have hops := List.mem_of_ne_of_mem (fun heq => by cases heq) hdetach
    refine List.mem_cons_of_mem _ ?_
    split_ifs
    · exact List.mem_cons_of_mem _ hops
    · exact hops
  case case11 =>
    exact List.mem_cons_of_mem _ (List.mem_cons_of_mem _ (List.mem_of_ne_of_mem (fun heq => by cases heq) hdetach))
  case case1 | case13 => exact hdetach

/-- A gentle task that goes on disposes of nobody, or has to detach the container now. -/
theorem settle_disposal {r : ℕ} {x : Runner} (t : Task) (h : Gentle ops) (hx : w.runners[r]? = some x)
    (hnot : x.disposed = false) :
    .detachAgent ∈ (settle w t ops).2 ∨ ((settle w t ops).1.runners = w.runners ∧
      (r = t.runner → .dispose false ∈ ops → .dispose false ∈ (settle w t ops).2)) := by
  fun_induction settle
  case case2 | case3 | case4 | case5 | case6 | case7 | case12 => cases h.head
  case case9 ih =>
    refine (ih h.tail hx).imp_right fun hkept => ⟨hkept.1, fun hr hdispose => hkept.2 hr ?_⟩
    exact List.mem_of_ne_of_mem (fun heq => by cases heq) hdispose
  case case10 hdisposed ih =>
    refine (ih h.tail hx).imp_right fun hkept => ⟨hkept.1, fun hr _ => ?_⟩
    subst hr
    rw [World.isDisposed, hx, Option.any_some, hnot] at hdisposed
    cases hdisposed
  case case8 =>
    refine Or.inr ⟨rfl, fun _ hdispose => List.mem_cons_of_mem _ ?_⟩
    have hops := List.mem_of_ne_of_mem (fun heq => by cases heq) hdispose
    split_ifs
    · exact List.mem_cons_of_mem _ hops
    · exact hops
  case case11 release _ _ =>
    cases release with
    | false => exact Or.inl (List.mem_cons_of_mem _ List.mem_cons_self)
    | true => cases h.head
  case case1 | case13 => exact Or.inr ⟨rfl, fun _ hdispose => hdispose⟩

/-- What the answers to gentle calls do. -/
theorem Answered.gentle (id : WorkerId) {op : Op} {reply : Reply} {out : Except String (List Op)}
    (ha : Answered w t op reply w' out)
    (hop : op.gentle = true) : t.next ops out = ops ∧ w'.runners = w.runners ∧ w'.containers = w.containers ∧
      w'.effects = w.effects ∧ w'.attached ⊆ w.attached ∧ w'.rows.status id = w.rows.status id ∧
        (op = .detachAgent → t.id ∉ w'.attached) := by
  have hforgotten : (w.forgotten t).attached ⊆ w.attached := List.filter_subset_self _
  cases ha with
  | acquired | tape | loaded | wrote | released | notAttached | notReleased => cases hop
  | threw op error hthrows =>
    cases op with
    | acquireAgent | createTape | store => cases hop
    | _ => cases hthrows
  | wroteQuietly u =>
    refine ⟨rfl, rfl, rfl, rfl, List.Subset.refl _, ?_, fun heq => by cases heq⟩
    rw [World.written, status_update, Option.isNone_iff_eq_none.mp hop]
    simp
  | detached reply =>
    refine ⟨rfl, rfl, rfl, rfl, hforgotten, rfl, fun _ hmem => ?_⟩
    exact absurd rfl (of_decide_eq_true (List.mem_filter.mp hmem).2)
  | notWritten | idle => exact ⟨rfl, rfl, rfl, rfl, List.Subset.refl _, rfl, fun heq => by cases heq⟩
  | nothing op reply hquiet =>
    refine ⟨rfl, rfl, rfl, rfl, List.Subset.refl _, rfl, fun heq => ?_⟩
    subst heq
    cases hquiet

/-! The worker apart from the others -/

/-- The worker has the status it had, and its container, which has not been released. -/
structure Kept (id : WorkerId) (w w' : World) : Prop where
  status : w'.rows.status id = w.rows.status id
  containers : id ∈ w'.containers ↔ id ∈ w.containers
  effects : ∃ more, w'.effects = w.effects ++ more ∧ .released id ∉ more

def Leaving (id : WorkerId) (w : World) : Prop :=
  id ∈ w.attached → ∃ t ∈ w.tasks, t.id = id ∧ (.detachAgent ∈ t.ops ∨ (.dispose false ∈ t.ops ∧
    ∃ runner : Runner, w.runners[t.runner]? = some runner ∧ runner.row.id = id ∧ runner.disposed = false))

structure Parked (id : WorkerId) (w₀ w : World) : Prop extends Resting id w, Kept id w₀ w where
  leaving : Leaving id w

theorem kept_of_eq (hrows : w'.rows.status id = w.rows.status id) (hcontainers : w'.containers = w.containers)
    (heffects : w'.effects = w.effects) : Kept id w w' :=
  ⟨hrows, by rw [hcontainers], [], by rw [heffects, List.append_nil], List.not_mem_nil⟩

theorem Kept.trans {w'' : World} (h : Kept id w w') (h' : Kept id w' w'') : Kept id w w'' where
  status := h'.status.trans h.status
  containers := h'.containers.trans h.containers
  effects := by
    obtain ⟨more, hmore, hnot⟩ := h.effects
    obtain ⟨more', hmore', hnot'⟩ := h'.effects
    exact ⟨more ++ more', by
      rw [hmore', hmore, List.append_assoc], fun hmem => (List.mem_append.mp hmem).elim hnot hnot'⟩

theorem Apart.kept (h : Apart id w w') (hstatus : w'.rows.status id = w.rows.status id) : Kept id w w' := by
  obtain ⟨more, hmore, -, hreleased⟩ := h.effects
  exact ⟨hstatus, h.containers, more, hmore, hreleased⟩

theorem Parked.apart {w₀ : World} (h : Parked id w₀ w) (ha : Apart id w w')
    (hstatus : w'.rows.status id = w.rows.status id)
    (htasks : ∀ t ∈ w'.tasks, t.id = id → t ∈ w.tasks ∨ Gentle t.ops)
    (hkeep : ∀ t ∈ w.tasks, t.id = id → t ∈ w'.tasks) :
    Parked id w₀ w' where
  idle := ha.idle h.idle
  tasks t ht hid := (htasks t ht hid).elim (fun hold => h.tasks t hold hid) fun hgentle => hgentle
  toKept := h.toKept.trans (ha.kept hstatus)
  leaving hmem := by
    obtain ⟨t, ht, hid, hleaving⟩ := h.leaving (ha.attached.mp hmem)
    refine ⟨t, hkeep t ht hid, hid, hleaving.imp_right fun ⟨hdispose, runner, hr, hrow, hnot⟩ => ⟨hdispose, ?_⟩⟩
    obtain ⟨x, hx, hstays⟩ := ha.stays t.runner runner hr hrow
    exact ⟨x, hx, by rw [hstays.row, hrow], hstays.disposed.trans hnot⟩

/-- Another task goes on. -/
theorem Parked.went_other {w₀ w₁ : World} {i : ℕ} {op : Op} {reply : Reply} {out : Except String (List Op)}
    (hwf : Wf w)
    (h : Parked id w₀ w) (ht : w.tasks[i]? = some t) (hid : t.id ≠ id) (ha : Answered w t op reply w₁ out)
    (ops : List Op) :
    Parked id w₀ (w₁.resume i t (t.next ops out)) := by
  have htasks : (settle w₁ t (t.next ops out)).1.tasks = w.tasks := (settle_settles w₁ t _).tasks.trans ha.tasks
  have hstatus : (w₁.resume i t (t.next ops out)).rows.status id = w.rows.status id := by
    rw [resume_rows, ha.status_other hid]
  refine h.apart (apart_went hwf ht hid ha _) hstatus (fun t' ht' hid' => ?_) fun t' ht' hid' => ?_
  · rcases List.mem_or_eq_of_mem_set ht' with hold | rfl
    · exact Or.inl (htasks ▸ hold)
    · exact absurd hid' hid
  · rw [World.resume, htasks]
    rcases Lists.mem_set_of_mem ht ht' with rfl | hold
    · exact absurd hid' hid
    · exact hold

theorem Answered.ne_dispose {op : Op} {reply : Reply} {out : Except String (List Op)} (ha : Answered w t op reply w' out) :
    .dispose false ≠ op := by
  rintro rfl
  cases ha with
  | nothing op reply hquiet => cases hquiet
  | threw op error hthrows => cases hthrows

/-- A task of the worker goes on. -/
theorem Parked.went_own {w₀ w₁ : World} {i : ℕ} {op : Op} {reply : Reply} {out : Except String (List Op)}
    (h : Parked id w₀ w) (ht : w.tasks[i]? = some t) (hid : t.id = id) (hops : t.ops = op :: ops)
    (ha : Answered w t op reply w₁ out) :
    Parked id w₀ (w₁.resume i t (t.next ops out)) := by
  have hgentle := hops ▸ h.tasks t (List.mem_of_getElem? ht) hid
  obtain ⟨hnext, hrunners, hcontainers, heffects, hattached, hstatus, hdetached⟩ := ha.gentle id hgentle.head
  rw [hnext]
  obtain ⟨-, heffects', hfades⟩ := settle_ending w₁ t hgentle.tail.ending
  have hs := settle_settles w₁ t ops
  refine ⟨⟨fun x hx hxid => ?_, fun t' ht' hid' => ?_⟩, h.toKept.trans (kept_of_eq ?_ ?_ ?_), fun hmem => ?_⟩
  · obtain ⟨j, hj⟩ := Lists.exists_getElem?_of_mem hx
    obtain ⟨y, hy, hfaded⟩ := hfades j x hj
    refine Bool.eq_false_iff.mpr fun hstreaming => ?_
    cases (h.idle y (hrunners ▸ List.mem_of_getElem? hy) (hfaded.row ▸ hxid)).symm.trans (hfaded.streaming hstreaming)
  · rcases List.mem_or_eq_of_mem_set ht' with hold | rfl
    · exact h.tasks t' (ha.tasks ▸ hs.tasks ▸ hold) hid'
    · exact settle_gentle w₁ t hgentle.tail
  · exact (congrArg (WorkerRows.status · id) hs.rows).trans hstatus
  · exact hs.containers.trans hcontainers
  · exact heffects'.trans heffects
  · have htasks : (settle w₁ t ops).1.tasks = w.tasks := hs.tasks.trans ha.tasks
    have hnew : { t with ops := (settle w₁ t ops).2 } ∈ (w₁.resume i t ops).tasks := by
      rw [World.resume, htasks]
      exact List.mem_set (List.getElem?_eq_some_iff.mp ht).1 _
    have hmem₁ : id ∈ w₁.attached := hs.attached ▸ hmem
    obtain ⟨t', ht', hid', hleaving⟩ := h.leaving (hattached hmem₁)
    have hold : t' = t ∨ t' ∈ (w₁.resume i t ops).tasks := by
      rw [World.resume, htasks]
      exact Lists.mem_set_of_mem ht ht'
    rcases hleaving with hdetach | ⟨hdispose, runner, hr, hrow, hnot⟩
    · rcases hold with rfl | hold
      · rcases List.mem_cons.mp (hops ▸ hdetach) with rfl | htail
        · exact absurd hmem₁ (hid ▸ hdetached rfl)
        · exact ⟨_, hnew, hid, Or.inl (settle_detach w₁ t' hgentle.tail htail)⟩
      · exact ⟨t', hold, hid', Or.inl hdetach⟩
    · rcases settle_disposal t hgentle.tail (hrunners ▸ hr) hnot with hdetach | ⟨hsame, hkeep⟩
      · exact ⟨_, hnew, hid, Or.inl hdetach⟩
      · have hr' : (w₁.resume i t ops).runners[t'.runner]? = some runner := by
          rw [World.resume, hsame, hrunners, hr]
        rcases hold with rfl | hold
        · have htail : .dispose false ∈ ops := List.mem_of_ne_of_mem ha.ne_dispose (hops ▸ hdispose)
          exact ⟨_, hnew, hid, Or.inr ⟨hkeep rfl htail, runner, hr', hrow, hnot⟩⟩
        · exact ⟨t', hold, hid', Or.inr ⟨hdispose, runner, hr', hrow, hnot⟩⟩

/-! Events -/

theorem Suspended.apart {l : List ℕ} (hs : Suspended l w w') : Apart id w w' where
  containers := by rw [hs.containers]
  attached := by rw [hs.attached]
  effects := ⟨[], by rw [hs.effects, List.append_nil], List.not_mem_nil, List.not_mem_nil⟩
  runner r x hx _ := by
    obtain ⟨y, hy, hfaded⟩ := hs.runners r x hx
    obtain ⟨x', hx', -, hdisposed⟩ := hs.same r y hy
    cases hx.symm.trans hx'
    exact ⟨y, hy, hfaded.row, hdisposed, hfaded.streaming⟩
  stays r y hy _ := by
    obtain ⟨x, hx, hrow, hdisposed⟩ := hs.same r y hy
    obtain ⟨y', hy', hfaded⟩ := hs.runners r x hx
    cases hy.symm.trans hy'
    exact ⟨x, hx, hrow, hdisposed, hfaded.streaming⟩

section Events
variable {w₀ : World}

theorem Parked.frame (h : Parked id w₀ w) (hstatus : w'.rows.status id = w.rows.status id)
    (hcontainers : w'.containers = w.containers) (hattached : w'.attached = w.attached) (hrunners : w'.runners = w.runners)
    (htasks : w'.tasks = w.tasks) (heffects : w'.effects = w.effects) : Parked id w₀ w' :=
  h.apart (apart_of_eq hcontainers hattached heffects hrunners) hstatus
    (fun _ ht _ => Or.inl (htasks ▸ ht)) fun _ ht _ => htasks.symm ▸ ht

theorem Parked.modifyAgent (h : Parked id w₀ w) (r : ℕ) {f : Agent → Agent}
    (hf : ∀ a, (f a).isStreaming = true → a.isStreaming = true) : Parked id w₀ (w.modifyAgent r f) :=
  h.apart (apart_modifyAgent w r hf) rfl (fun _ ht _ => Or.inl ht) fun _ ht _ => ht

/-- A task of another worker begins. -/
theorem Parked.begin_other (h : Parked id w₀ w) {r : ℕ} {runner x : Runner} (hr : w.runners[r]? = some x)
    (hrow : x.row = runner.row) (hid : runner.row.id ≠ id) (job : Job) (ops : List Op) :
    Parked id w₀ (w.begin r runner job ops) := by
  have htasks := (settle_settles w ⟨runner.row.id, r, job, ops⟩ ops).tasks
  refine h.apart (apart_begin hr hrow hid job ops) (by rw [begin_rows]) (fun t ht hid' => ?_) fun t ht _ => ?_
  · rcases List.mem_append.mp ht with hold | hnew
    · exact Or.inl (htasks ▸ hold)
    · rw [List.mem_singleton.mp hnew] at hid'
      exact absurd hid' hid
  · exact List.mem_append_left _ (htasks.symm ▸ ht)

/-- A gentle task begins with a call. -/
theorem Parked.begin_gentle (h : Parked id w₀ w) {r : ℕ} {runner : Runner} {job : Job} (hops : Gentle ops)
    (hsame : (settle w ⟨runner.row.id, r, job, ops⟩ ops).1 = w) : Parked id w₀ (w.begin r runner job ops) := by
  have hapart : Apart id w (w.begin r runner job ops) := by
    rw [World.begin, hsame]
    exact apart_of_eq rfl rfl rfl rfl
  refine h.apart hapart (by rw [begin_rows]) (fun t ht _ => ?_) fun t ht _ => ?_
  · rw [World.begin, hsame] at ht
    rcases List.mem_append.mp ht with hold | hnew
    · exact Or.inl hold
    · rw [List.mem_singleton.mp hnew]
      exact Or.inr (settle_gentle w _ hops)
  · rw [World.begin, hsame]
    exact List.mem_append_left _ ht

theorem Parked.suspended (h : Parked id w₀ w) {l : List ℕ} (hs : Suspended l w w') : Parked id w₀ w' := by
  obtain ⟨begun, htasks, hops, -⟩ := hs.tasks
  refine h.apart hs.apart (by rw [hs.rows]) (fun t ht _ => ?_) fun t ht _ => htasks.symm ▸ List.mem_append_left begun ht
  rcases List.mem_append.mp (htasks ▸ ht) with hold | hnew
  · exact Or.inl hold
  · exact Or.inr (hops t hnew ▸ gentle_of_all rfl)

theorem Parked.startAgent (h : Parked id w₀ w) {row : WorkerRow} (hid : row.id ≠ id) :
    Parked id w₀ (startAgent w row) := by
  have hnew : ∀ (runner : Runner) (agents : AList fun _ : WorkerId => ℕ), runner.row = row →
      Parked id w₀ { w with runners := w.runners ++ [runner], agents := agents } := by
    intro runner agents hrow
    exact h.apart (apart_newRunner rfl (hrow.symm ▸ hid) rfl rfl rfl) rfl (fun _ ht _ => Or.inl ht) fun _ ht _ => ht
  exact (hnew _ _ rfl).begin_other List.getElem?_concat_length rfl hid _ _

/-- Only a cancel that is at its `setStatus` moves the status of a row without a task. -/
theorem RowsMoved.status_errand {i : ℕ} {reply : Reply} {rows : WorkerRows} (hm : RowsMoved w (.errand i reply) rows)
    (hid : (w.rows.status id).isSome = true) (hmarking : w.errands[i]? ≠ some (.marking id)) :
    rows.status id = w.rows.status id := by
  cases hm with
  | same => rfl
  | @marked _ id' _ hi =>
    have hne : id ≠ id' := by
      rintro rfl
      exact hmarking hi
    rw [status_update]
    simp [hne]
  | @inserted _ c _ _ hi h =>
    have hne : id ≠ c.id := by
      rintro rfl
      unfold WorkerRows.insert at h
      split_ifs at h with hsome
      rw [WorkerRows.status, Option.isSome_map] at hid
      exact hsome hid
    rw [status_insert h, if_neg hne]

theorem parked_acted {e : Event} (hwf : Wf w) (h : Parked id w₀ w) (hid : (w.rows.status id).isSome = true)
    (hok : LeftAlone id w e) (ha : Acted w e w') : Parked id w₀ w' := by
  cases ha with
  | refused | cancelIgnored | notRouted | suspendIgnored => exact h
  | spawned | resuming | cancelling | notStarted => exact h.frame rfl rfl rfl rfl rfl rfl
  | message => exact h.modifyAgent _ fun _ hf => hf
  | endIgnored => exact h.modifyAgent _ fun _ hf => by cases hf
  | @cancelled id' r runner hmap hr =>
    obtain ⟨x, hx, hrow⟩ := hwf.agents id' r hmap
    cases hr.symm.trans hx
    obtain ⟨y, hy, hlater⟩ := runner_modify (keeps_mapAgent Agent.abort) r hr
    have haborted : Parked id w₀ (w.modifyAgent r Agent.abort) := h.modifyAgent r fun _ hf => hf
    exact haborted.begin_other hy hlater.row (hrow ▸ hok) .cancel _
  | @routed id' r runner hmap hr =>
    obtain ⟨x, hx, hrow⟩ := hwf.agents id' r hmap
    cases hr.symm.trans hx
    exact h.begin_other hr rfl (hrow ▸ hok) .route _
  | @suspended r runner hr hdisposed =>
    have haborted : Parked id w₀ (w.modifyAgent r Agent.abort) := h.modifyAgent r fun _ hf => hf
    exact haborted.begin_gentle (gentle_of_all rfl) rfl
  | shutdown =>
    obtain ⟨w₁, hs, heq⟩ := shutdown_eq w
    have hstart : Parked id w₀ { w with shuttingDown := true, queue := [] } := h.frame rfl rfl rfl rfl rfl rfl
    rw [heq]
    exact (hstart.suspended hs).frame rfl rfl rfl rfl rfl rfl
  | @ended r runner _ messages hr hstreaming =>
    have hother : runner.row.id ≠ id := fun hrow => by
      cases (h.idle runner (List.mem_of_getElem? hr) hrow).symm.trans hstreaming
    obtain ⟨y, hy, hlater⟩ := runner_modify (keeps_mapAgent Agent.ended) r hr
    have hended : Parked id w₀ (w.modifyAgent r Agent.ended) := h.modifyAgent r fun _ hf => by cases hf
    exact hended.begin_other hy hlater.row hother .agentEnd _
  | @flushed r runner hr =>
    exact h.begin_gentle (gentle_of_all rfl) (settle_flush _ _)
  | @went i reply t op ops w₁ out ht hops hanswer =>
    by_cases hown : t.id = id
    · exact h.went_own ht hown hops hanswer
    · exact h.went_other hwf ht hown hanswer ops
  | @started i id' row hi hrow =>
    have hrowid := get_id hrow
    have hother : row.id ≠ id := by
      rintro rfl
      exact hok (hrowid ▸ hi)
    have hstart : Parked id w₀ { w with starting := w.starting.eraseIdx i } := h.frame rfl rfl rfl rfl rfl rfl
    exact hstart.startAgent hother
  | errand reply hi he =>
    have haside := he.aside
    exact h.frame ((he.rows reply hi).status_errand hid hok) haside.containers haside.attached haside.runners haside.tasks
      haside.effects

theorem parked_step {e : Event} (hwf : Wf w) (h : Parked id w₀ w) (hid : (w.rows.status id).isSome = true)
    (hok : LeftAlone id w e) (hs : step maxConcurrent w e = some w') : Parked id w₀ w' := by
  obtain ⟨w₁, hact, rfl⟩ := step_cases hs
  have hpump := pump_pumped maxConcurrent w₁
  exact (parked_acted hwf h hid hok (acted_of_act hact)).frame (by rw [hpump.rows]) hpump.containers hpump.attached
    hpump.runners hpump.tasks hpump.effects

end Events

/-! Runs -/

theorem parked_of_suspended (h : Resting id w) {l : List ℕ} (hs : Suspended l w w') {r : ℕ} (hmem : r ∈ l)
    {runner : Runner}
    (hr : w.runners[r]? = some runner) (hid : runner.row.id = id) (hnot : runner.disposed = false) : Parked id w w' := by
  obtain ⟨begun, htasks, hops, hbegun⟩ := hs.tasks
  obtain ⟨t, ht, htid, htr⟩ := hbegun r hmem runner hr hnot
  have hleaving : Leaving id w' := by
    intro _
    refine ⟨t, htasks ▸ List.mem_append_right w.tasks ht, htid.trans hid, Or.inr ⟨?_, ?_⟩⟩
    · rw [hops t ht]
      exact List.mem_cons_of_mem _ (List.mem_cons_of_mem _ List.mem_cons_self)
    · rw [htr]
      obtain ⟨x, hx, hrow, hdisposed⟩ := hs.same r runner hr
      exact ⟨x, hx, by rw [hrow, hid], hdisposed.trans hnot⟩
  have hapart : Apart id w w' := hs.apart
  refine ⟨⟨hapart.idle h.idle, fun t' ht' hid' => ?_⟩, hapart.kept (by rw [hs.rows]), hleaving⟩
  · rcases List.mem_append.mp (htasks ▸ ht') with hold | hnew
    · exact h.tasks t' hold hid'
    · rw [hops t' hnew]
      exact gentle_of_all rfl

theorem parked_of_suspends (h : Resting id w) {e : Event} {r : ℕ} (he : e.suspends w r)
    (hs : step maxConcurrent w e = some w')
    {runner : Runner} (hr : w.runners[r]? = some runner) (hid : runner.row.id = id) (hnot : runner.disposed = false) :
    Parked id w w' := by
  obtain ⟨w₁, hact, rfl⟩ := step_cases hs
  have hpump := pump_pumped maxConcurrent w₁
  have hparked : Parked id w w₁ := by
    cases e with
    | suspend r' =>
      cases hact
      exact parked_of_suspended h (suspended_one w r') (List.mem_singleton.mpr (Eq.symm he)) hr hid hnot
    | shutdown =>
      cases hact
      obtain ⟨w₂, hs, heq⟩ := shutdown_eq w
      obtain ⟨id', hmap⟩ := he
      have hmem : r ∈ w.agents.entries.map (·.2) := List.mem_map.mpr ⟨⟨id', r⟩, AList.mem_lookup_iff.mp hmap, rfl⟩
      have hrest : Resting id { w with shuttingDown := true, queue := [] } := ⟨h.idle, h.tasks⟩
      have hparked := parked_of_suspended hrest hs hmem hr hid hnot
      have hsame : Parked id w w₂ :=
        ⟨hparked.toResting, ⟨hparked.status, hparked.containers, hparked.effects⟩, hparked.leaving⟩
      rw [heq]
      exact hsame.frame rfl rfl rfl rfl rfl rfl
    | _ => exact he.elim
  exact hparked.frame (by rw [hpump.rows]) hpump.containers hpump.attached hpump.runners hpump.tasks hpump.effects

/-- A worker that rests is suspended: when what this causes has been handled, it has the status it had, and the
client has forgotten its container, which is there as before. -/
theorem suspend_keeps {rows : WorkerRows} {containers : List WorkerId} {es es' : List Event} {e : Event} {m m' : World}
    {r : ℕ} {runner : Runner} (h : Runs.run (step maxConcurrent) (.init rows containers) es = some w)
    (hr : w.runners[r]? = some runner) (hid : runner.row.id = id) (hnot : runner.disposed = false) (hrest : Resting id w)
    (he : e.suspends w r) (hs : step maxConcurrent w e = some m) (hok : Runs.RunOk (step maxConcurrent) (LeftAlone id) m es')
    (h' : Runs.run (step maxConcurrent) m es' = some m') (hdone : ∀ t ∈ m'.tasks, t.id = id → t.ops = []) :
    Kept id w m' ∧ id ∉ m'.attached := by
  have hwf := wf_of_run h
  have hstored : (w.rows.status id).isSome = true := hid ▸ stored_of_run h runner (List.mem_of_getElem? hr)
  have hparked : Wf m' ∧ Parked id w m' ∧ (m'.rows.status id).isSome = true := by
    refine Runs.run_inv (fun v => Wf v ∧ Parked id w v ∧ (v.rows.status id).isSome = true) ?_
      ⟨wf_step hwf hs, parked_of_suspends hrest he hs hr hid hnot, ?_⟩ hok h'
    · rintro v e' v' ⟨hvwf, hv, hvstored⟩ hp hvs
      have hv' := parked_step hvwf hv hvstored hp hvs
      exact ⟨wf_step hvwf hvs, hv', hv'.status ▸ hstored⟩
    · exact (parked_of_suspends hrest he hs hr hid hnot).status ▸ hstored
  refine ⟨hparked.2.1.toKept, fun hmem => ?_⟩
  obtain ⟨t, ht, htid, hleaving⟩ := hparked.2.1.leaving hmem
  rw [hdone t ht htid] at hleaving
  rcases hleaving with hdetach | ⟨hdispose, -⟩
  · cases hdetach
  · cases hdispose

/-! A worker with a container -/

def executorScout (initialPrompt : Option String) : WorkerRow :=
  ⟨"scout", .executor, .persistent, initialPrompt, .explicit, .spawning, [], some "tape", none⟩

/-- It is started up to its first prompt. -/
def reachingPrompt : List Event :=
  [.resumePending, .errand 0 .done, .fetched 0 .done, .go 0 .done, .go 0 .done, .go 0 (.entries []), .go 0 .done,
    .go 0 .done,
    .go 0 .done]

/-- It has nothing to do, and is suspended. -/
theorem suspend_keeps_idle : ∃ w m m',
    Runs.run (step 4) (.init [executorScout none] []) (reachingPrompt ++ [.go 0 .done, .go 0 .done]) = some w ∧
      step 4 w (.suspend 0) = some m ∧ Runs.run (step 4) m (List.replicate 4 (.go 1 .done)) = some m' ∧
        Kept "scout" w m' ∧ "scout" ∉ m'.attached := by
  have hrun : Runs.run (step 4) (.init [executorScout none] []) (reachingPrompt ++ [.go 0 .done, .go 0 .done]) =
    some _ := rfl
  have hok : ∀ e ∈ List.replicate 4 (.go 1 .done), ∀ w, LeftAlone "scout" w e :=
    fun e he _ => List.eq_of_mem_replicate he ▸ trivial
  refine ⟨_, _, _, hrun, rfl, rfl,
    suspend_keeps (e := .suspend 0) hrun (r := 0) rfl rfl rfl ⟨?_, ?_⟩ rfl rfl (Runs.runOk_of_mem hok _) rfl ?_⟩
  · exact List.forall_mem_singleton.mpr fun _ => rfl
  · exact List.forall_mem_singleton.mpr fun _ => List.forall_mem_nil _
  · exact List.forall_mem_cons.mpr ⟨fun _ => rfl, List.forall_mem_singleton.mpr fun _ => rfl⟩

/-- It is at work: its agent ends its run as aborted, and the handler of that cancels the worker. -/
def aborting : List Event :=
  .agentEnd 0 (some "Request was aborted.") [] :: (List.replicate 7 (.go 2 .done) ++ [.go 1 .done, .go 1 .done])

theorem suspended_at_work_cancelled : ¬ ∀ (maxConcurrent : ℕ) (rows : WorkerRows) (containers : List WorkerId)
    (es es' : List Event) (e : Event) (w m m' : World) (r : ℕ) (runner : Runner),
    Runs.run (step maxConcurrent) (.init rows containers) es = some w → w.runners[r]? = some runner →
      runner.disposed = false →
      e.suspends w r → step maxConcurrent w e = some m →
        Runs.RunOk (step maxConcurrent) (LeftAlone runner.row.id) m es' →
        Runs.run (step maxConcurrent) m es' = some m' → (∀ t ∈ m'.tasks, t.id = runner.row.id → t.ops = []) →
          Kept runner.row.id w m' ∧ runner.row.id ∉ m'.attached := by
  intro h
  have hok : ∀ e ∈ aborting, ∀ w, LeftAlone "scout" w e := by
    refine List.forall_mem_cons.mpr ⟨fun _ => trivial, fun e he w => ?_⟩
    simp only [List.mem_append, List.mem_replicate, List.mem_cons, List.not_mem_nil, or_false] at he
    rcases he with ⟨-, rfl⟩ | rfl | rfl
    all_goals trivial
  have hkept := h 4 [executorScout (some "look around")] [] reachingPrompt aborting
    (.suspend 0) _ _ _ 0 _ rfl rfl rfl rfl rfl
    (Runs.runOk_of_mem hok _) rfl ?_
  · cases hkept.1.status
  · exact List.forall_mem_cons.mpr ⟨fun _ => rfl,
      List.forall_mem_cons.mpr ⟨fun _ => rfl, List.forall_mem_singleton.mpr fun _ => rfl⟩⟩

end Nexal.Workers
