import Nexal.Sanity.WorkerSuspend

/-! One worker, apart from what is done for the others. -/

namespace Nexal.Workers

variable {w w' : World} {t : Task} {id : WorkerId}

structure Stays (r r' : Runner) : Prop where
  row : r'.row = r.row
  disposed : r'.disposed = r.disposed
  streaming : r'.isStreaming = true → r.isStreaming = true

theorem Stays.refl (r : Runner) : Stays r r := ⟨rfl, rfl, fun h => h⟩

theorem Stays.trans {r r' r'' : Runner} (h : Stays r r') (h' : Stays r' r'') : Stays r r'' :=
  ⟨h'.row.trans h.row, h'.disposed.trans h.disposed, fun hr => h.streaming (h'.streaming hr)⟩

structure Apart (id : WorkerId) (w w' : World) : Prop where
  containers : id ∈ w'.containers ↔ id ∈ w.containers
  attached : id ∈ w'.attached ↔ id ∈ w.attached
  effects : ∃ more, w'.effects = w.effects ++ more ∧ .acquired id ∉ more ∧ .released id ∉ more
  runner : ∀ (r : ℕ) (x : Runner), w'.runners[r]? = some x → x.row.id = id →
    ∃ y : Runner, w.runners[r]? = some y ∧ Stays y x
  stays : ∀ (r : ℕ) (y : Runner), w.runners[r]? = some y → y.row.id = id →
    ∃ x : Runner, w'.runners[r]? = some x ∧ Stays y x

theorem Apart.trans {w'' : World} (h : Apart id w w') (h' : Apart id w' w'') : Apart id w w'' where
  containers := h'.containers.trans h.containers
  attached := h'.attached.trans h.attached
  effects := by
    obtain ⟨more, hmore, hacquired, hreleased⟩ := h.effects
    obtain ⟨more', hmore', hacquired', hreleased'⟩ := h'.effects
    refine ⟨more ++ more', by rw [hmore', hmore, List.append_assoc], fun hmem => ?_, fun hmem => ?_⟩
    · exact (List.mem_append.mp hmem).elim hacquired hacquired'
    · exact (List.mem_append.mp hmem).elim hreleased hreleased'
  runner r x hx hid := by
    obtain ⟨y, hy, hstays⟩ := h'.runner r x hx hid
    obtain ⟨z, hz, hstays'⟩ := h.runner r y hy (hstays.row ▸ hid)
    exact ⟨z, hz, hstays'.trans hstays⟩
  stays r y hy hid := by
    obtain ⟨x, hx, hstays⟩ := h.stays r y hy hid
    obtain ⟨z, hz, hstays'⟩ := h'.stays r x hx (hstays.row.symm ▸ hid)
    exact ⟨z, hz, hstays.trans hstays'⟩

theorem Apart.idle (h : Apart id w w') (hidle : ∀ runner ∈ w.runners, runner.row.id = id →
      runner.isStreaming = false) :
    ∀ runner ∈ w'.runners, runner.row.id = id → runner.isStreaming = false := by
  intro x hx hid
  obtain ⟨r, hr⟩ := Lists.exists_getElem?_of_mem hx
  obtain ⟨y, hy, hstays⟩ := h.runner r x hr hid
  refine Bool.eq_false_iff.mpr fun hstreaming => ?_
  cases (hidle y (List.mem_of_getElem? hy) (hstays.row ▸ hid)).symm.trans (hstays.streaming hstreaming)

theorem apart_of_eq (hcontainers : w'.containers = w.containers) (hattached : w'.attached = w.attached)
    (heffects : w'.effects = w.effects) (hrunners : w'.runners = w.runners) : Apart id w w' where
  containers := by rw [hcontainers]
  attached := by rw [hattached]
  effects := ⟨[], by rw [heffects, List.append_nil], List.not_mem_nil, List.not_mem_nil⟩
  runner _ x hx _ := ⟨x, hrunners ▸ hx, .refl x⟩
  stays _ y hy _ := ⟨y, hrunners.symm ▸ hy, .refl y⟩

theorem stays_mapAgent {f : Agent → Agent} (hf : ∀ a, (f a).isStreaming = true → a.isStreaming = true) (r : Runner) :
    Stays r (r.mapAgent f) :=
  ⟨rfl, rfl, isStreaming_mapAgent hf r⟩

theorem apart_modifyAgent (w : World) (r : ℕ) {f : Agent → Agent}
    (hf : ∀ a, (f a).isStreaming = true → a.isStreaming = true) :
    Apart id w (w.modifyAgent r f) where
  containers := Iff.rfl
  attached := Iff.rfl
  effects := ⟨[], (List.append_nil _).symm, List.not_mem_nil, List.not_mem_nil⟩
  runner j x hx _ := by
    obtain ⟨y, hy, rfl⟩ := Option.map_eq_some_iff.mp ((List.getElem?_modify ..).symm.trans hx)
    refine ⟨y, hy, ?_⟩
    split_ifs
    · exact stays_mapAgent hf y
    · exact .refl y
  stays j y hy _ := by
    refine ⟨_, (List.getElem?_modify ..).trans (congrArg _ hy), ?_⟩
    split_ifs
    · exact stays_mapAgent hf y
    · exact .refl y

/-- What a change of another worker's runner leaves. -/
theorem apart_of_modify {r : ℕ} {f : Runner → Runner} {runner : Runner}
    (hcontainers : id ∈ w'.containers ↔ id ∈ w.containers)
    (hattached : id ∈ w'.attached ↔ id ∈ w.attached)
    (heffects : ∃ more, w'.effects = w.effects ++ more ∧ .acquired id ∉ more ∧ .released id ∉ more)
    (hf : Keeps f) (hrunners : w'.runners = w.runners.modify r f) (hr : w.runners[r]? = some runner)
    (hid : runner.row.id ≠ id) :
    Apart id w w' where
  containers := hcontainers
  attached := hattached
  effects := heffects
  runner j x hx hxid := by
    obtain ⟨y, hy, hlater, hsame⟩ := runner_modify_cases hf (hrunners ▸ hx)
    have hjr : j ≠ r := by
      rintro rfl
      cases hr.symm.trans hy
      exact hid (hlater.row ▸ hxid)
    exact ⟨y, hy, hsame hjr ▸ .refl y⟩
  stays j y hy hyid := by
    have hjr : r ≠ j := by
      rintro rfl
      cases hr.symm.trans hy
      exact hid hyid
    exact ⟨y, by rw [hrunners, List.getElem?_modify_ne f _ hjr, hy], .refl y⟩

section Others
variable {runner : Runner}

theorem apart_settle (hr : w.runners[t.runner]? = some runner) (hrow : runner.row.id = t.id) (hid : t.id ≠ id)
    (ops : List Op) :
    Apart id w (settle w t ops).1 := by
  have hs := settle_settles w t ops
  obtain ⟨f, hf, hrunners⟩ := hs.runners
  obtain ⟨more, hmore, hall⟩ := settle_effects w t ops
  refine apart_of_modify (by rw [hs.containers]) (by
    rw [hs.attached]) ⟨more, hmore, fun hmem => ?_, fun hmem => ?_⟩ hf hrunners hr
    (hrow ▸ hid)
  · rcases hall _ hmem with heq | heq
    · cases heq
    · cases heq
  · rcases hall _ hmem with heq | heq
    · cases heq
    · cases heq

theorem Answered.apart {op : Op} {reply : Reply} {out : Except String (List Op)} (ha : Answered w t op reply w' out)
    (hr : w.runners[t.runner]? = some runner) (hrow : runner.row.id = t.id) (hid : t.id ≠ id) : Apart id w w' := by
  have hne : id ≠ t.id := Ne.symm hid
  have hfiltered : ∀ l : List WorkerId, id ∈ l.filter (· ≠ t.id) ↔ id ∈ l := by
    intro l
    simp [hne]
  have hinserted : ∀ l : List WorkerId, id ∈ l.insert t.id ↔ id ∈ l := by
    intro l
    simp [hne]
  have hsingle : ∀ effect : Effect, effect ≠ .acquired id → effect ≠ .released id →
    .acquired id ∉ [effect] ∧ .released id ∉ [effect] :=
    fun effect hacquired hreleased =>
      ⟨fun hmem => hacquired (List.mem_singleton.mp hmem).symm, fun hmem => hreleased (List.mem_singleton.mp hmem).symm⟩
  cases ha with
  | acquired =>
    refine apart_of_modify (hinserted _) (hinserted _) ⟨[.acquired t.id], rfl, hsingle _ (fun heq => ?_) fun heq => ?_⟩
      keeps_gotClient rfl hr (hrow ▸ hid)
    · exact hid (Effect.acquired.inj heq)
    · cases heq
  | released =>
    refine apart_of_modify (hfiltered _) (hfiltered _) ⟨[.released t.id], rfl, hsingle _ (fun heq => ?_) fun heq => ?_⟩
      keeps_id (List.modify_id ..).symm hr (hrow ▸ hid)
    · cases heq
    · exact hid (Effect.released.inj heq)
  | notReleased | detached =>
    exact apart_of_modify Iff.rfl (hfiltered _) ⟨[], (List.append_nil _).symm, List.not_mem_nil,
      List.not_mem_nil⟩ keeps_id
      (List.modify_id ..).symm hr (hrow ▸ hid)
  | _ => exact apart_of_eq rfl rfl rfl rfl

end Others

theorem Answered.status_other {op : Op} {reply : Reply} {out : Except String (List Op)} (ha : Answered w t op reply w' out)
    (hid : t.id ≠ id) : w'.rows.status id = w.rows.status id := by
  have hwritten : ∀ u, (w.written t u).rows.status id = w.rows.status id := by
    intro u
    rw [World.written, status_update]
    simp [Ne.symm hid]
  cases ha with
  | wrote u | wroteQuietly u => exact hwritten u
  | _ => rfl

theorem Apart.frame {v : World} (h : Apart id w v) (hcontainers : w'.containers = v.containers)
    (hattached : w'.attached = v.attached)
    (heffects : w'.effects = v.effects) (hrunners : w'.runners = v.runners) : Apart id w w' :=
  h.trans (apart_of_eq hcontainers hattached heffects hrunners)

/-- Another task goes on. -/
theorem apart_went {w₁ : World} {i : ℕ} {op : Op} {reply : Reply} {out : Except String (List Op)} (hwf : Wf w)
    (ht : w.tasks[i]? = some t) (hid : t.id ≠ id) (ha : Answered w t op reply w₁ out) (ops : List Op) :
    Apart id w (w₁.resume i t ops) := by
  obtain ⟨runner, hr, hrow⟩ := hwf.tasks t (List.mem_of_getElem? ht)
  obtain ⟨runner₁, hr₁, hrow₁⟩ := (ha.wf hwf).tasks t (ha.tasks.symm ▸ List.mem_of_getElem? ht)
  exact ((ha.apart hr hrow hid).trans (apart_settle hr₁ hrow₁ hid ops)).frame rfl rfl rfl rfl

/-- A task of another worker begins. -/
theorem apart_begin {r : ℕ} {runner x : Runner} (hr : w.runners[r]? = some x) (hrow : x.row = runner.row)
    (hid : runner.row.id ≠ id)
    (job : Job) (ops : List Op) : Apart id w (w.begin r runner job ops) :=
  (apart_settle (t := ⟨runner.row.id, r, job, ops⟩) hr (congrArg WorkerRow.id hrow) hid ops).frame rfl rfl rfl rfl

/-- Another worker gets a runner. -/
theorem apart_newRunner {runner : Runner} (hrunners : w'.runners = w.runners ++ [runner]) (hid : runner.row.id ≠ id)
    (hcontainers : w'.containers = w.containers) (hattached : w'.attached = w.attached) (heffects : w'.effects = w.effects) :
    Apart id w w' where
  containers := by rw [hcontainers]
  attached := by rw [hattached]
  effects := ⟨[], by rw [heffects, List.append_nil], List.not_mem_nil, List.not_mem_nil⟩
  runner r x hx hxid := by
    rw [hrunners] at hx
    rcases Lists.getElem?_concat_cases hx with hold | rfl
    · exact ⟨x, hold, .refl x⟩
    · exact absurd hxid hid
  stays r y hy _ := by
    rw [hrunners]
    exact ⟨y, Lists.getElem?_append_of_some hy _, .refl y⟩

end Nexal.Workers
