import Mathlib.Data.List.Pairwise
import Nexal.Lib.Runs
import Nexal.Spec.Cron

/-! When the jobs of the cron channel fire: never too early, never twice where once is asked for, and at the first tick
at which they are due, whatever the clock does. -/

namespace Nexal.Cron

variable {lib : JsLib} {s s' : State} {a : Act} {acts : List Act} {e e' : Entry} {entries : List Entry} {now : ℤ}
  {f : Fired}

/-! A tick -/

def due (lib : JsLib) (now : ℤ) (e : Entry) : Bool := e.job.enabled && shouldFire lib e.job now

def fire (now : ℤ) (e : Entry) : Fired := ⟨e.added, e.job, now⟩

def left (lib : JsLib) (now : ℤ) (e : Entry) : Option Entry :=
  if !due lib now e then some e
  else if e.job.isOnce then none else some { e with job := { e.job with lastRunAt := some now } }

theorem onTick_eq (lib : JsLib) (now : ℤ) (entries : List Entry) :
    onTick lib now entries = ((entries.filter (due lib now)).map (fire now), entries.filterMap (left lib now)) := by
  induction entries with
  | nil => rfl
  | cons e entries ih =>
    simp only [onTick, ih, List.filter_cons, List.filterMap_cons, left, due]
    by_cases henabled : e.job.enabled = true
    · by_cases hfire : shouldFire lib e.job now = true
      · by_cases honce : e.job.isOnce = true <;> simp [henabled, hfire, honce, fire]
      · simp [hfire]
    · simp [henabled]

theorem left_eq_some (h : left lib now e = some e') : (e' = e ∧ due lib now e = false) ∨
    (due lib now e = true ∧ e.job.isOnce = false ∧ e' = { e with job := { e.job with lastRunAt := some now } }) := by
  unfold left at h
  split_ifs at h with hdue honce
  · exact Or.inl ⟨(Option.some.inj h).symm, by simpa using hdue⟩
  · exact Or.inr ⟨by simpa using hdue, by simpa using honce, (Option.some.inj h).symm⟩

theorem left_same (h : left lib now e = some e') : e'.added = e.added ∧ e'.job.id = e.job.id := by
  rcases left_eq_some h with ⟨rfl, -⟩ | ⟨-, -, rfl⟩ <;> exact ⟨rfl, rfl⟩

def IntervalOver (lib : JsLib) (job : CronJob) (elapsed : ℤ) : Prop :=
  ∃ text secs ms, scheduleOf job.schedule = .every text ∧ lib.number text = some secs ∧
    lib.round (secs * 1000) = some ms ∧ 0 < secs ∧ secs ≤ ms ∧ ms ≤ elapsed

theorem IntervalOver.pos {job : CronJob} {elapsed : ℤ} (h : IntervalOver lib job elapsed) : 0 < elapsed := by
  obtain ⟨-, secs, ms, -, -, -, hpos, hle, hover⟩ := h
  exact Int.cast_pos.mp (hpos.trans_le (hle.trans hover))

theorem IntervalOver.mono {job : CronJob} {elapsed later : ℤ} (h : IntervalOver lib job elapsed)
    (hle : elapsed ≤ later) :
    IntervalOver lib job later := by
  obtain ⟨text, secs, ms, hschedule, hsecs, hms, hpos, hsecsMs, hover⟩ := h
  exact ⟨text, secs, ms, hschedule, hsecs, hms, hpos, hsecsMs, hover.trans (Int.cast_le.mpr hle)⟩

/-- Rounding does not bring the product below a number that needs none. -/
theorem secs_le_ms {text : String} {secs ms : ℚ} (hsecs : lib.number text = some secs) (hpos : 0 < secs)
    (hms : lib.round (secs * 1000) = some ms) : secs ≤ ms := by
  have hproduct : secs ≤ secs * 1000 := le_mul_of_one_le_right hpos.le (by norm_num)
  exact lib.round_mono _ _ _ _ hproduct (lib.round_number text secs hsecs) hms

/-- A job that has run before fires only if it is one that runs at intervals, and its interval is over. -/
theorem due_again {last : ℤ} (h : due lib now e = true) (hlast : e.job.lastRunAt = some last) :
    IntervalOver lib e.job (now - last) := by
  rw [due, Bool.and_eq_true] at h
  obtain ⟨-, hfire⟩ := h
  unfold shouldFire at hfire
  rw [hlast] at hfire
  split at hfire
  · rename_i text hschedule
    split at hfire
    · cases hfire
    · rename_i secs hsecs
      split_ifs at hfire with hnot
      have hpos : 0 < secs := not_le.mp hnot
      rw [Option.all_some, Option.any_eq_true_iff_get] at hfire
      obtain ⟨hsome, hover⟩ := hfire
      have hms := (Option.some_get hsome).symm
      exact ⟨text, secs, _, hschedule, hsecs, hms, hpos, secs_le_ms hsecs hpos hms, of_decide_eq_true hover⟩
  · cases hfire
  · cases hfire

/-- A job that has just fired is not due. -/
theorem not_due_left (h : left lib now e = some e') : due lib now e' = false := by
  rcases left_eq_some h with ⟨rfl, hdue⟩ | ⟨-, -, rfl⟩
  · exact hdue
  · by_contra hdue
    have hpos := (due_again (Bool.not_eq_false _ ▸ hdue) rfl).pos
    omega

/-! Runs -/

/-- Of one addition, two messages are the interval of its schedule apart; a `once` job has none. -/
def Spaced (lib : JsLib) (f f' : Fired) : Prop := f.added = f'.added → IntervalOver lib f'.job (f'.time - f.time)

def Apart (e e' : Entry) : Prop := e.added ≠ e'.added ∧ e.job.id ≠ e'.job.id

instance : Std.Symm Apart := ⟨fun _ _ h => ⟨h.1.symm, h.2.symm⟩⟩

/-- Every job knows when it ran last. -/
structure Kept (lib : JsLib) (s : State) : Prop where
  apart : s.jobs.Pairwise Apart
  jobs : ∀ e ∈ s.jobs, e.added < s.calls
  fired : ∀ f ∈ s.fired, f.added < s.calls
  last : ∀ e ∈ s.jobs, ∀ f ∈ s.fired, f.added = e.added → ∃ last, e.job.lastRunAt = some last ∧ f.time ≤ last
  spaced : s.fired.Pairwise (Spaced lib)

theorem kept_addJob (h : Kept lib s) (job : CronJob) : Kept lib (addJob s job) := by
  have hnew : ∀ f ∈ s.fired, f.added ≠ s.calls := fun f hf => (h.fired f hf).ne
  have hmem : ∀ e ∈ (addJob s job).jobs, e = ⟨s.calls, job⟩ ∨ e ∈ s.jobs := by
    intro e he
    unfold addJob at he
    dsimp only at he
    split_ifs at he
    · obtain ⟨e', he', rfl⟩ := List.mem_map.mp he
      split_ifs
      · exact Or.inl rfl
      · exact Or.inr he'
    · rcases List.mem_append.mp he with hold | hlast
      · exact Or.inr hold
      · exact Or.inl (List.mem_singleton.mp hlast)
  refine ⟨?_, fun e he => ?_, fun f hf => (h.fired f hf).trans (Nat.lt_succ_self _), fun e he f hf hadded => ?_,
    h.spaced⟩
  · unfold addJob
    dsimp only
    split_ifs with hany
    · rw [List.pairwise_map]
      refine h.apart.imp_of_mem fun {e e'} he he' happart => ?_
      split_ifs with hid hid'
      · exact absurd (hid.trans hid'.symm) happart.2
      · exact ⟨(h.jobs e' he').ne', fun heq => hid' heq.symm⟩
      · exact ⟨(h.jobs e he).ne, hid⟩
      · exact happart
    · rw [List.pairwise_append]
      refine ⟨h.apart, List.pairwise_singleton _ _, fun e he e' he' => ?_⟩
      rw [List.mem_singleton.mp he']
      exact ⟨(h.jobs e he).ne, fun hid => hany (List.any_eq_true.mpr ⟨e, he, decide_eq_true hid⟩)⟩
  · rcases hmem e he with rfl | hold
    · exact Nat.lt_succ_self _
    · exact (h.jobs e hold).trans (Nat.lt_succ_self _)
  · rcases hmem e he with rfl | hold
    · exact absurd hadded (hnew f hf)
    · exact h.last e hold f hf hadded

theorem kept_tick (h : Kept lib s) (now : ℤ) :
    Kept lib { s with fired := s.fired ++ (onTick lib now s.jobs).1, jobs := (onTick lib now s.jobs).2 } := by
  rw [onTick_eq]
  have hfired : ∀ f ∈ (s.jobs.filter (due lib now)).map (fire now), ∃ e ∈ s.jobs, due lib now e = true ∧
    fire now e = f := by
    intro f hf
    obtain ⟨e, he, hfe⟩ := List.mem_map.mp hf
    exact ⟨e, (List.mem_filter.mp he).1, (List.mem_filter.mp he).2, hfe⟩
  have hunique : ∀ e ∈ s.jobs, ∀ e' ∈ s.jobs, e.added = e'.added → e = e' := fun e he e' he' hadded => by
    by_contra hne
    exact (h.apart.forall he he' hne).1 hadded
  refine ⟨?_, fun e he => ?_, fun f hf => ?_, fun e he f hf hadded => ?_, ?_⟩
  · rw [List.pairwise_filterMap]
    refine h.apart.imp fun {e e'} happart b hb b' hb' => ?_
    rw [Apart, (left_same hb).1, (left_same hb).2, (left_same hb').1, (left_same hb').2]
    exact happart
  · obtain ⟨e', he', hleft⟩ := List.mem_filterMap.mp he
    exact (left_same hleft).1 ▸ h.jobs e' he'
  · rcases List.mem_append.mp hf with hold | hnew
    · exact h.fired f hold
    · obtain ⟨e, he, -, rfl⟩ := hfired f hnew
      exact h.jobs e he
  · obtain ⟨e', he', hleft⟩ := List.mem_filterMap.mp he
    have hadded' : f.added = e'.added := hadded.trans (left_same hleft).1
    rcases List.mem_append.mp hf with hold | hnew
    · obtain ⟨last, hlast, hle⟩ := h.last e' he' f hold hadded'
      rcases left_eq_some hleft with ⟨rfl, -⟩ | ⟨hdue, -, rfl⟩
      · exact ⟨last, hlast, hle⟩
      · -- the clock is past the last run, as the job was due
        have hpos := (due_again hdue hlast).pos
        exact ⟨now, rfl, by omega⟩
    · obtain ⟨e'', he'', hdue, rfl⟩ := hfired f hnew
      rcases left_eq_some hleft with ⟨-, hnot⟩ | ⟨-, -, rfl⟩
      · rw [hunique e'' he'' e' he' hadded', hnot] at hdue
        cases hdue
      · exact ⟨now, rfl, Int.le_refl _⟩
  · rw [List.pairwise_append]
    refine ⟨h.spaced, ?_, fun f hf f' hf' hadded => ?_⟩
    · rw [List.pairwise_map]
      exact (h.apart.filter _).imp fun {e e'} happart hadded => absurd hadded happart.1
    · obtain ⟨e, he, hdue, rfl⟩ := hfired f' hf'
      obtain ⟨last, hlast, hle⟩ := h.last e he f hf hadded
      exact (due_again hdue hlast).mono (Int.sub_le_sub_left hle now)

theorem kept_step (h : Kept lib s) (hs : step lib s a = some s') : Kept lib s' := by
  cases a with
  | addJob job =>
    cases hs
    exact kept_addJob h job
  | removeJob id =>
    cases hs
    exact ⟨h.apart.filter _, fun e he => h.jobs e (List.mem_filter.mp he).1, h.fired,
      fun e he => h.last e (List.mem_filter.mp he).1, h.spaced⟩
  | tick now =>
    simp only [step] at hs
    split_ifs at hs
    · cases hs
      exact h
    · cases hs
      exact kept_tick h now
  | start | stop =>
    cases hs
    exact { h with }

/-- In every run: two messages of one addition of a job are at least its interval apart, so that a `once` job has only
one; and after a tick of a running channel no enabled job is due any more, even at the same instant. -/
theorem jobs_on_time (lib : JsLib) {acts : List Act} {s : State} (h : Runs.run (step lib) init acts = some s) :
    s.fired.Pairwise (Spaced lib) ∧
      ∀ now s', step lib s (.tick now) = some s' → s.stopped = false →
        ∀ e ∈ s'.jobs, e.job.enabled = true → shouldFire lib e.job now = false := by
  refine ⟨(Runs.run_inv_all (Kept lib) (fun _ _ _ hk hs => kept_step hk hs) ?_ h).spaced, ?_⟩
  · exact ⟨.nil, fun _ he => absurd he List.not_mem_nil, fun _ hf => absurd hf List.not_mem_nil,
      fun _ he => absurd he List.not_mem_nil, .nil⟩
  · intro now s' hs hrunning e he henabled
    simp only [step] at hs
    split_ifs at hs with hstarted hstopped
    · rw [hrunning] at hstopped
      cases hstopped
    cases hs
    rw [onTick_eq] at he
    obtain ⟨e', -, hleft⟩ := List.mem_filterMap.mp he
    have hnot := not_due_left hleft
    rw [due, henabled, Bool.true_and] at hnot
    exact hnot

/-- A clock that knows one text of seconds, and no dates. -/
def fiveSeconds : JsLib where
  number text := if text = "5" then some 5 else none
  round x := some x
  dateParse _ := none
  round_number _ _ _ := rfl
  round_mono x y x' y' hle hx hy := by
    cases hx
    cases hy
    exact hle

def water : CronJob := ⟨"w", "water", "every:5", "telegram", "-7", "drink", none, true, none⟩

/-- After ticks at 0, 4 and 5 seconds. -/
def watered : State where
  jobs := [⟨0, { water with lastRunAt := some 5000 }⟩]
  calls := 1
  fired := [⟨0, water, 0⟩, ⟨0, { water with lastRunAt := some 0 }, 5000⟩]
  started := true
  stopped := false

theorem water_run :
    Runs.run (step fiveSeconds) init [.addJob water, .start, .tick 0, .tick 4000, .tick 5000] = some watered := by
  -- the products are rationals, whose arithmetic rfl does not unfold by itself
  with_unfolding_all rfl

theorem jobs_on_time_twice : watered.fired.Pairwise (Spaced fiveSeconds) ∧
    ∀ now s', step fiveSeconds watered (.tick now) = some s' →
      ∀ e ∈ s'.jobs, e.job.enabled = true → shouldFire fiveSeconds e.job now = false := by
  obtain ⟨hspaced, htick⟩ := jobs_on_time fiveSeconds water_run
  exact ⟨hspaced, fun now s' hs => htick now s' hs rfl⟩

end Nexal.Cron
