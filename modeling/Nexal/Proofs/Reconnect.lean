import Nexal.Sanity.Reconnect

/-! Reconnecting. A socket that fails hands over to a timer in the handler of its error, its timeout or its
close event; but the error handler only does so before the first connection, and the close handler leaves a
socket that failed before it opened to the error handler. -/

namespace Nexal.Reconnect

open Runs

/-- Open, connecting, or about to schedule the next attempt in its close event. -/
def Socket.carries (k : Socket) : Bool :=
  match k.ready with
  | .connecting | .connected => true
  | .closing => k.opened || !k.failedBeforeOpen
  | .closed => false

def Live (s : State) : Prop := s.timers ≠ [] ∨ ∃ k ∈ s.sockets, k.carries = true

/-- While the transport is not closed and attempts are left, something goes on. -/
def NotStalled (reconnect : ReconnectOptions) (s : State) : Prop :=
  s.closed = false → attemptsLeft reconnect s = true → Live s

/-- After the first connection, an error of a socket that has neither opened nor timed out comes only while
another socket or a timer goes on. -/
def ErrorCovered (reconnect : ReconnectOptions) (s : State) : Act → Prop
  | .error i => ∀ k, s.sockets[i]? = some k → k.errorListener = true → k.failedBeforeOpen = false →
    s.settled = true →
      s.closed = false → attemptsLeft reconnect s = true →
        s.timers ≠ [] ∨ ∃ j k', j ≠ i ∧ s.sockets[j]? = some k' ∧ k'.carries = true
  | _ => True

/-! The sockets -/

/-- A socket that failed before it opened carries nothing. -/
theorem not_carries {k : Socket} (h : SocketInv k) (hopened : k.opened = false) (hfailed : k.failedBeforeOpen = true) :
    k.carries = false := by
  rw [Socket.carries]
  cases hready : k.ready with
  | connecting =>
    rw [(h.connecting hready).1] at hfailed
    cases hfailed
  | connected =>
    rw [h.connected hready] at hopened
    cases hopened
  | closing => simp [hopened, hfailed]
  | closed => rfl

/-- Without its error listener a socket has opened, or carries nothing. -/
theorem carries_closing {k : Socket} (h : SocketInv k) (hl : ¬ k.errorListener = true) (hcarries : k.carries = true) :
    { k with ready := .closing : Socket }.carries = true := by
  cases hready : k.ready with
  | connecting => exact absurd (h.connecting hready).2.2 hl
  | connected =>
    rw [Socket.carries, h.connected hready]
    rfl
  | closing =>
    rw [Socket.carries, hready] at hcarries
    exact hcarries
  | closed =>
    rw [Socket.carries, hready] at hcarries
    cases hcarries

def Inv (s : State) : Prop := ∀ k ∈ s.sockets, SocketInv k

variable {reconnect : ReconnectOptions} {s s' : State} {a : Act} {acts : List Act} {i : ℕ} {k k' : Socket}

theorem inv_setSocket (h : Inv s) (hk : SocketInv k) : Inv (s.setSocket i k) := by
  intro k' hk'
  rcases List.mem_or_eq_of_mem_set hk' with hold | rfl
  · exact h k' hold
  · exact hk

/-- What goes on still does after a socket has changed that carried nothing, or still carries. -/
theorem live_setSocket (h : Live s) (hi : s.sockets[i]? = some k) (hk : k.carries = true → k'.carries = true) :
    Live (s.setSocket i k') := by
  rcases h with htimers | ⟨c, hc, hcarries⟩
  · exact Or.inl htimers
  · exact Or.inr (Lists.exists_mem_set hi ⟨c, hc, hcarries, fun heq => hk (heq ▸ hcarries)⟩)

/-! Scheduling -/

/-- Either the next attempt is scheduled, or there is none to schedule. -/
theorem notStalled_schedule (reconnect : ReconnectOptions) (s : State) :
    NotStalled reconnect (scheduleReconnect reconnect s) := by
  obtain ⟨callbacks, hfail⟩ := failReconnect_eq s
  intro hclosed hleft
  rw [scheduleReconnect] at hclosed hleft ⊢
  split_ifs at hclosed hleft ⊢ with hc ha
  · rw [hfail] at hclosed
    cases hclosed.symm.trans hc
  · exact Or.inl (by simp)
  · rw [hfail] at hleft
    exact absurd hleft ha

theorem inv_schedule (h : Inv s) : Inv (scheduleReconnect reconnect s) := by
  obtain ⟨callbacks, hfail⟩ := failReconnect_eq s
  rw [scheduleReconnect]
  split_ifs
  · rw [hfail]
    exact h
  · exact h
  · rw [hfail]
    exact h

theorem notStalled_of_live (h : Live s) : NotStalled reconnect s := fun _ _ => h

/-! The handlers -/

theorem onOpen_spec (h : Inv s) (hi : s.sockets[i]? = some k) :
    Inv (onOpen s i { k with ready := .connected }) ∧ Live (onOpen s i { k with ready := .connected }) := by
  have hsockets : (onOpen s i { k with ready := .connected }).sockets =
      s.sockets.set i ⟨.connected, true, k.failedBeforeOpen, false, false, false⟩ := by
    rw [onOpen]
    dsimp only
    split_ifs <;> rfl
  rw [Inv, Live, hsockets]
  refine ⟨fun k' hk' => ?_, Or.inr ⟨_, List.mem_set (List.getElem?_eq_some_iff.mp hi).1 _, rfl⟩⟩
  rcases List.mem_or_eq_of_mem_set hk' with hold | rfl
  · exact h k' hold
  · exact ⟨(fun hready => by cases hready), fun _ => rfl, (fun hl => by cases hl)⟩

theorem live_errored (hi : s.sockets[i]? = some k) (hopened : k.opened = false) :
    Live (s.setSocket i k.errored) ↔
      s.timers ≠ [] ∨ ∃ j k', j ≠ i ∧ s.sockets[j]? = some k' ∧ k'.carries = true := by
  refine or_congr Iff.rfl ⟨?_, ?_⟩
  · rintro ⟨k', hmem, hcarries⟩
    obtain ⟨j, hj⟩ := Lists.exists_getElem?_of_mem hmem
    rcases Lists.getElem?_set_cases hj with ⟨rfl, rfl⟩ | ⟨hne, hj'⟩
    · rw [Socket.carries, Socket.errored, hopened] at hcarries
      cases hcarries
    · exact ⟨j, k', hne, hj', hcarries⟩
  · rintro ⟨j, k', hne, hj, hcarries⟩
    refine ⟨k', List.mem_of_getElem? (i := j) ?_, hcarries⟩
    rw [State.setSocket, List.getElem?_set_ne (Ne.symm hne)]
    exact hj

theorem onError_spec (h : Inv s) (hq : NotStalled reconnect s) (hi : s.sockets[i]? = some k) (hl : k.errorListener = true) :
    Inv (onError reconnect s i { k with ready := .closing }) ∧
      (NotStalled reconnect (onError reconnect s i { k with ready := .closing }) ↔
        ErrorCovered reconnect s (.error i)) := by
  have hk := h k (List.mem_of_getElem? hi)
  have hopened := hk.listening hl
  have hinv := inv_setSocket h (i := i) (socketInv_errored k)
  rw [onError_eq]
  split_ifs with hsettled
  · refine ⟨hinv, ?_⟩
    cases hfailed : k.failedBeforeOpen with
    | true =>
      refine iff_of_true (fun hclosed hleft => ?_) fun k' hk' _ hnot => ?_
      · refine live_setSocket (hq hclosed hleft) hi fun hcarries => ?_
        rw [not_carries hk hopened hfailed] at hcarries
        cases hcarries
      · cases hi.symm.trans hk'
        cases hfailed.symm.trans hnot
    | false =>
      constructor
      · intro hafter k' hk' _ _ _ hclosed hleft
        cases hi.symm.trans hk'
        exact (live_errored hi hopened).mp (hafter hclosed hleft)
      · intro hcovered hclosed hleft
        exact (live_errored hi hopened).mpr (hcovered k hi hl hfailed hsettled hclosed hleft)
  · refine ⟨inv_schedule hinv, iff_of_true (notStalled_schedule _ _) fun k' _ _ _ hset => ?_⟩
    exact absurd hset hsettled

theorem onClose_spec (h : Inv s) (hq : NotStalled reconnect s) (hi : s.sockets[i]? = some k) :
    Inv (onClose reconnect s i { k with ready := .closed }) ∧
      NotStalled reconnect (onClose reconnect s i { k with ready := .closed }) := by
  have hk := h k (List.mem_of_getElem? hi)
  have hsocket : SocketInv { k with ready := .closed, connectTimeout := false } :=
    ⟨(fun hready => by cases hready), (fun hready => by cases hready), hk.listening⟩
  have hinv := inv_setSocket h (i := i) hsocket
  rw [onClose]
  dsimp only
  split_ifs with hfailed hclosed hsettled
  · refine ⟨hinv, fun hclosed hleft => live_setSocket (hq hclosed hleft) hi fun hcarries => ?_⟩
    rw [Bool.and_eq_true, Bool.not_eq_true'] at hfailed
    rw [not_carries hk hfailed.1 hfailed.2] at hcarries
    cases hcarries
  · refine ⟨hinv, fun hopen _ => ?_⟩
    cases hclosed.symm.trans hopen
  · exact ⟨inv_schedule hinv, notStalled_schedule _ _⟩
  · exact ⟨inv_schedule hinv, notStalled_schedule _ _⟩

theorem onConnectTimeout_spec (h : Inv s) (hi : s.sockets[i]? = some k) :
    Inv (onConnectTimeout reconnect s i k) ∧ NotStalled reconnect (onConnectTimeout reconnect s i k) :=
  ⟨inv_schedule (inv_setSocket h (socketInv_close (h k (List.mem_of_getElem? hi)).listening)), notStalled_schedule _ _⟩

/-! Runs -/

theorem socketStep_spec (h : Inv s) (hq : NotStalled reconnect s) (hi : s.sockets[i]? = some k)
    (ha : a = .open i ∨ a = .error i ∨ a = .closed i ∨ a = .message i ∨ a = .connectTimeout i)
    (hs : socketStep reconnect s i k a = some s') :
    Inv s' ∧ (NotStalled reconnect s' ↔ ErrorCovered reconnect s a) := by
  have hk := h k (List.mem_of_getElem? hi)
  rcases ha with rfl | rfl | rfl | rfl | rfl
  · simp only [socketStep] at hs
    split at hs
    · rename_i hready
      rw [if_pos (hk.connecting hready).2.1] at hs
      cases hs
      obtain ⟨hinv, hlive⟩ := onOpen_spec h hi
      exact ⟨hinv, iff_of_true (notStalled_of_live hlive) trivial⟩
    · cases hs
  · simp only [socketStep] at hs
    split at hs
    · cases hs
    · rename_i hnot
      cases hs
      split
      · rename_i hl
        exact onError_spec h hq hi hl
      · rename_i hl
        have hsocket : SocketInv { k with ready := .closing } :=
          ⟨(fun hready => by cases hready), (fun hready => by cases hready), hk.listening⟩
        refine ⟨inv_setSocket h hsocket, iff_of_true (fun hclosed hleft => ?_) fun k' hk' hl' => ?_⟩
        · exact live_setSocket (hq hclosed hleft) hi (carries_closing hk hl)
        · cases hi.symm.trans hk'
          exact absurd hl' hl
  · simp only [socketStep] at hs
    split at hs
    · cases hs
    · cases hs
      obtain ⟨hinv, hnot⟩ := onClose_spec h hq hi
      exact ⟨hinv, iff_of_true hnot trivial⟩
  · simp only [socketStep] at hs
    split at hs
    · cases hs
      exact ⟨h, iff_of_true hq trivial⟩
    · cases hs
  · simp only [socketStep] at hs
    split at hs
    · cases hs
      obtain ⟨hinv, hnot⟩ := onConnectTimeout_spec h hi
      exact ⟨hinv, iff_of_true hnot trivial⟩
    · cases hs

theorem step_spec (h : Inv s) (hq : NotStalled reconnect s) (hs : step reconnect s a = some s') :
    Inv s' ∧ (NotStalled reconnect s' ↔ ErrorCovered reconnect s a) := by
  cases a with
  | reconnectTimer timer =>
    simp only [step] at hs
    split at hs
    · cases hs
      refine ⟨fun k hk => ?_, iff_of_true (notStalled_of_live (Or.inr ⟨.new, ?_, rfl⟩)) trivial⟩
      · rcases List.mem_append.mp hk with hold | hnew
        · exact h k hold
        · exact List.mem_singleton.mp hnew ▸ socketInv_new
      · exact List.mem_append_right _ (List.mem_singleton.mpr rfl)
    · cases hs
  | close =>
    cases hs
    refine ⟨fun k hk => ?_, iff_of_true (fun hclosed => by cases hclosed) trivial⟩
    obtain ⟨j, hj⟩ := Lists.exists_getElem?_of_mem hk
    rw [close, List.getElem?_modify] at hj
    obtain ⟨old, hold, rfl⟩ := Option.map_eq_some_iff.mp hj
    have hinv := h old (List.mem_of_getElem? hold)
    split_ifs
    · exact socketInv_close hinv.listening
    · exact hinv
  | _ =>
    obtain ⟨k, hi, hs⟩ := Option.bind_eq_some_iff.mp hs
    exact socketStep_spec h hq hi (by simp) hs

theorem inv_init : Inv init := by
  intro k hk
  exact List.mem_singleton.mp hk ▸ socketInv_new

/-- A transport that is not closed and has attempts left is stalled at no point of a run, exactly if each
error that comes after the first connection to a socket that has neither opened nor timed out comes while
another socket or timer goes on. -/
theorem notStalled_iff_errorCovered (h : run (step reconnect) init acts = some s) :
    (∀ acts' s', acts' <+: acts → run (step reconnect) init acts' = some s' → NotStalled reconnect s') ↔
      RunOk (step reconnect) (ErrorCovered reconnect) init acts := by
  have hinit : NotStalled reconnect init := notStalled_of_live (Or.inr ⟨.new, List.mem_singleton.mpr rfl, rfl⟩)
  refine (runOk_iff_prefixes (H := fun _ _ => True) Inv (NotStalled reconnect) ?_ inv_init hinit
    (runOk_of_forall (fun _ _ => trivial) _ _) h).symm
  intro s a s' hinv hq _ hs
  exact step_spec hinv hq hs

/-- The first attempt fails, the second connects, is lost and comes back after a connect timeout. -/
def comesBackRun : List Act :=
  [.error 0, .closed 0, .reconnectTimer 0, .open 1, .message 1, .closed 1, .reconnectTimer 1, .connectTimeout 2,
    .error 2, .closed 2, .reconnectTimer 2, .open 3]

theorem notStalled_iff_errorCovered_comesBack : ∃ s, run (step (some none)) init comesBackRun = some s ∧
    ∀ acts' s', acts' <+: comesBackRun → run (step (some none)) init acts' = some s' → NotStalled (some none) s' := by
  refine ⟨_, rfl, (@notStalled_iff_errorCovered (some none) _ comesBackRun rfl).mpr ?_⟩
  -- the first error comes before the connection, the second after the timeout
  refine runOk_cons rfl (fun k hk hl hfailed hsettled => by cases hsettled) (runOk_cons rfl trivial (runOk_cons rfl trivial
    (runOk_cons rfl trivial (runOk_cons rfl trivial (runOk_cons rfl trivial (runOk_cons rfl trivial
      (runOk_cons rfl trivial (runOk_cons rfl (fun k hk hl hfailed => ?_) (runOk_cons rfl trivial (runOk_cons rfl trivial
        (runOk_cons rfl trivial trivial)))))))))))
  cases hk
  cases hfailed

def refusedRun : List Act := [.open 0, .closed 0, .reconnectTimer 0, .error 1, .closed 1]

theorem refused_reconnect_stalls : ¬ ∀ (reconnect : ReconnectOptions) (acts : List Act) (s : State),
    run (step reconnect) init acts = some s → NotStalled reconnect s := by
  intro hall
  rcases hall (some none) refusedRun _ rfl rfl rfl with htimers | ⟨k, hk, hcarries⟩
  · exact htimers rfl
  · revert k
    decide

end Nexal.Reconnect
