import Nexal.Sanity.Debounce

/-! Every accepted message reaches the handler once and in order, and a `shutdown` that has resolved
has left none behind. -/

namespace Nexal.Debounce

open Runs

def acceptedBeforeShutdown (acts : List Act) : List IncomingMessage :=
  (acts.takeWhile fun a => !a.isShutdown).filterMap Act.message

variable {config : DebounceConfig} {s s' : State} {acts : List Act}

theorem acceptedBeforeShutdown_cons (a : Act) (acts : List Act) :
    acceptedBeforeShutdown (a :: acts) =
      a.message.toList ++ (if a.isShutdown then [] else acceptedBeforeShutdown acts) := by
  cases a with
  | shutdown => rfl
  | _ => rfl

theorem run_content (h0 : Inv s) (h : run (step config) s acts = some s') :
    Inv s' ∧ s'.content = s.content ++ (if s.queue.closed then [] else acceptedBeforeShutdown acts) := by
  induction acts generalizing s with
  | nil =>
    cases h
    exact ⟨h0, by simp [acceptedBeforeShutdown]⟩
  | cons a acts ih =>
    obtain ⟨m, hm, hrest⟩ := run_cons h
    obtain ⟨hinv, hcontent, hclosed⟩ := step_spec h0 hm
    obtain ⟨hinv', hrun⟩ := ih hinv hrest
    refine ⟨hinv', hrun.trans ?_⟩
    rw [hcontent, hclosed]
    cases hcl : s.queue.closed with
    | true => simp
    | false =>
      rw [acceptedBeforeShutdown_cons]
      simp

theorem init_content : init.content = [] := rfl

/-- When the loop is done, no message waits. -/
theorem undispatched_done (h : Inv s) (hdone : s.phase = .done) : s.undispatched = [] := by
  have hitems := (h.ended (by rw [hdone]; rfl)).1
  simp [State.undispatched, hdone, hitems, Phase.batch, Phase.inHand]

/-- What the handler has been called with, and after it what still waits, are the accepted messages in
their order; no call is without a message, two calls never run at once, and when a `shutdown` has
resolved nothing waits. -/
theorem debouncer_exactly_once (h : run (step config) init acts = some s) :
    s.dispatched ++ s.undispatched = acceptedBeforeShutdown acts ∧
      (∀ call ∈ s.calls, call.batch ≠ []) ∧
      (∀ (j k : ℕ) (call call' : HandlerCall), s.calls[j]? = some call → s.calls[k]? = some call' →
        call.state = .running → call'.state = .running → j = k) ∧
      (true ∈ s.shutdowns → s.dispatched = acceptedBeforeShutdown acts) := by
  obtain ⟨hinv, hcontent⟩ := run_content inv_init h
  have hall : s.dispatched ++ s.undispatched = acceptedBeforeShutdown acts := by
    rw [init_content] at hcontent
    exact hcontent
  refine ⟨hall, fun call _ => call.batch_ne_nil, ?_, ?_⟩
  · intro j k call call' hj hk hr hr'
    exact Option.some.inj ((hinv.running j call hj hr).symm.trans (hinv.running k call' hk hr'))
  · intro hresolved
    rw [undispatched_done hinv (hinv.resolved hresolved), List.append_nil] at hall
    exact hall

def note (text : String) : IncomingMessage where
  channel := "telegram"
  chatId := "-1"
  sender := "alice"
  text := text
  timestamp := 0
  isMentioned := true
  metadata := []
  images := []

/-- Two messages, a shutdown before their timer fires, one message too late, and a handler that throws. -/
def flushRun : List Act :=
  [.process (note "one"), .resume 0, .process (note "two"), .resume 5, .shutdown, .process (note "three"), .resume 6,
    .handled 0 true, .resume 7, .resolve 0]

theorem debouncer_exactly_once_flush :
    ∃ s, run (step defaultDebounce) init flushRun = some s ∧ s.dispatched = [note "one", note "two"] := by
  refine ⟨_, rfl, ?_⟩
  exact (@debouncer_exactly_once defaultDebounce _ flushRun rfl).2.2.2 List.mem_cons_self

theorem resume_isSome (hblocked : s.phase.blocked = false) (hdone : s.phase ≠ .done)
    (hreturned : ∀ k, s.phase.awaited = some k → s.returned k = true) (now : ℤ) :
    (s.resume config now).isSome := by
  cases hphase : s.phase with
  | taking t got =>
    rcases got with - | - | msg
    · rw [hphase] at hblocked
      cases hblocked
    · simp only [State.resume, hphase, Option.isSome_some]
    · simp only [State.resume, hphase, Option.isSome_some]
  | racing t remaining race =>
    rcases race with - | - | -
    · rw [hphase] at hblocked
      cases hblocked
    · rcases tryTake_cases s.queue with ⟨msg, items, -, htake⟩ | ⟨-, htake⟩
      · simp only [State.resume, hphase, htake, Option.isSome_some]
      · simp only [State.resume, hphase, htake]
        split_ifs
        · cases handlerCall s.pending with
          | some call => rfl
          | none => rfl
        · rfl
    · simp only [State.resume, hphase]
      cases handlerCall s.pending with
      | some call => rfl
      | none => rfl
  | handling k =>
    simp only [State.resume, hphase, hreturned k (by rw [hphase]; rfl), if_true, Option.isSome_some]
  | flushing k =>
    simp only [State.resume, hphase, hreturned k (by rw [hphase]; rfl), if_true, Option.isSome_some]
  | done => exact absurd hphase hdone

/-- Once the queue is closed the loop waits for nothing but the handler. -/
theorem shutdown_progress (h : run (step config) init acts = some s) (hclosed : s.queue.closed = true)
    (hdone : s.phase ≠ .done) (now : ℤ) :
    (∃ k call, s.phase.awaited = some k ∧ s.calls[k]? = some call ∧ call.state = .running) ∨
      (step config s (.resume now)).isSome := by
  have hinv := (run_content inv_init h).1
  have hblocked := hinv.not_blocked hclosed
  by_cases hreturned : ∀ k, s.phase.awaited = some k → s.returned k = true
  · exact Or.inr (resume_isSome hblocked hdone hreturned now)
  · push Not at hreturned
    obtain ⟨k, hk, hrunning⟩ := hreturned
    have hcall := List.getElem?_eq_getElem (hinv.called k hk)
    refine Or.inl ⟨k, _, hk, hcall, ?_⟩
    simpa [State.returned, hcall] using hrunning

/-! How often the loop can still go on -/

namespace Phase

def rank : Phase → ℕ
  | .racing _ _ _ => 4
  | .handling _ => 3
  | .flushing _ | .taking _ (some none) => 1
  | .taking _ _ | .done => 0

end Phase

def State.work (s : State) : ℕ := 6 * (s.queue.items.length + s.phase.inHand.length) + s.phase.rank

theorem loop_work_idle (hclosed : s.queue.closed = true) (hdeadline : s.deadline = none) (now : ℤ) :
    (s.loop now).work ≤ 6 * s.queue.items.length + 1 := by
  cases hitems : s.queue.items with
  | nil =>
    rw [loop_none hdeadline (AsyncQueue.take_closed hitems hclosed)]
    simp [State.work, Phase.inHand, Phase.rank, hitems]
  | cons msg items =>
    rw [loop_none hdeadline (AsyncQueue.take_cons hitems)]
    simp only [State.work, Phase.inHand, Phase.rank, List.length_nil, List.length_cons]
    omega

theorem loop_work_racing {deadline : ℤ} (hclosed : s.queue.closed = true) (hdeadline : s.deadline = some deadline)
    (now : ℤ) : (s.loop now).work = 6 * s.queue.items.length + 4 := by
  rw [loop_some hdeadline (if_pos (Or.inr hclosed))]
  simp [State.work, Phase.inHand, Phase.rank]

theorem add_work (config : DebounceConfig) (hclosed : s.queue.closed = true) (msg : IncomingMessage) (now : ℤ) :
    (s.add config msg now).work = 6 * s.queue.items.length + 4 :=
  loop_work_racing (by exact hclosed) rfl now

theorem resume_work {now : ℤ} (h : Inv s) (hclosed : s.queue.closed = true) (hs : s.resume config now = some s') :
    s'.work + 1 ≤ s.work := by
  cases hphase : s.phase with
  | taking t got =>
    rcases got with - | - | msg
    · simp only [State.resume, hphase] at hs
      cases hs
    · simp only [State.resume, hphase] at hs
      cases hs
      simp [State.work, hphase, Phase.inHand, Phase.rank]
    · simp only [State.resume, hphase] at hs
      cases hs
      have hadd := add_work config hclosed msg now
      simp only [State.work, hphase, Phase.inHand, Phase.rank, List.length_singleton] at hadd ⊢
      omega
  | racing t remaining race =>
    rcases race with - | - | -
    · simp only [State.resume, hphase] at hs
      cases hs
    · simp only [State.resume, hphase] at hs
      rcases tryTake_cases s.queue with ⟨msg, items, hitems, htake⟩ | ⟨hitems, htake⟩
      · simp only [htake] at hs
        cases hs
        have hadd := add_work (s := { s with queue := { s.queue with items := items } }) config hclosed msg now
        simp only [State.work, hphase, hitems, Phase.inHand, Phase.rank, List.length_nil, List.length_cons] at hadd ⊢
        omega
      · simp only [htake, hclosed, if_true] at hs
        cases hcall : handlerCall s.pending with
        | some call =>
          simp only [hcall] at hs
          cases hs
          simp [State.work, hphase, hitems, Phase.inHand, Phase.rank]
        | none =>
          simp only [hcall] at hs
          cases hs
          simp [State.work, hphase, hitems, Phase.inHand, Phase.rank]
    · simp only [State.resume, hphase] at hs
      cases hcall : handlerCall s.pending with
      | some call =>
        simp only [hcall] at hs
        cases hs
        simp [State.work, hphase, Phase.inHand, Phase.rank]
      | none => exact absurd (handlerCall_none hcall) (h.racing (by rw [hphase]; rfl)).1
  | handling k =>
    have hidle := h.idle (by rw [hphase]; rfl)
    have hloop := loop_work_idle hclosed hidle.2 now
    simp only [State.resume, hphase] at hs
    split_ifs at hs
    cases hs
    simp only [State.work, hphase, Phase.inHand, Phase.rank, List.length_nil] at hloop ⊢
    omega
  | flushing k =>
    simp only [State.resume, hphase] at hs
    split_ifs at hs
    cases hs
    simp [State.work, hphase, Phase.inHand, Phase.rank]
  | done =>
    simp only [State.resume, hphase] at hs
    cases hs

def Act.resumes : Act → ℕ
  | .resume _ => 1
  | _ => 0

theorem step_work {a : Act} (h : Inv s) (hclosed : s.queue.closed = true) (hs : step config s a = some s') :
    s'.work + a.resumes ≤ s.work := by
  have hblocked := h.not_blocked hclosed
  cases a with
  | resume now => exact resume_work h hclosed hs
  | process msg =>
    cases hs
    rw [process_closed h hclosed]
    exact Nat.le_refl _
  | shutdown =>
    cases hs
    rw [shutdown_of_not_blocked hblocked]
    exact Nat.le_refl _
  | timer =>
    simp only [step] at hs
    split at hs
    · rename_i hphase
      rw [hphase] at hblocked
      cases hblocked
    · cases hs
  | handled k threw =>
    simp only [step] at hs
    split at hs
    · split at hs
      · cases hs
        exact Nat.le_refl _
      · cases hs
    · cases hs
  | resolve k =>
    simp only [step] at hs
    split at hs
    · cases hs
      exact Nat.le_refl _
    · cases hs

/-- After the queue is closed the loop goes on only so often: as `shutdown_progress` says that it can go
on while no handler call runs, it returns when the handler does. -/
theorem shutdown_bounded {acts' : List Act} (h : run (step config) init acts = some s)
    (hclosed : s.queue.closed = true) (h' : run (step config) s acts' = some s') :
    (acts'.map Act.resumes).sum ≤ s.work := by
  have hinv := (run_content inv_init h).1
  have hlower := run_lowers (fun s => Inv s ∧ s.queue.closed = true) State.work Act.resumes
    (fun s a s' hi hs => ⟨(step_spec hi.1 hs).1, by rw [(step_spec hi.1 hs).2.2, hi.2, Bool.true_or]⟩)
    (fun s a s' hi hs => step_work hi.1 hi.2 hs) ⟨hinv, hclosed⟩ h'
  omega

end Nexal.Debounce
