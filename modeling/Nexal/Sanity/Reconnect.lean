import Nexal.Lib.Lists
import Nexal.Spec.Reconnect

/-! What the handlers of a socket do, field by field. -/

namespace Nexal.Reconnect

structure SocketInv (k : Socket) : Prop where
  connecting : k.ready = .connecting → k.failedBeforeOpen = false ∧ k.openListener = true ∧ k.errorListener = true
  connected : k.ready = .connected → k.opened = true
  listening : k.errorListener = true → k.opened = false

theorem socketInv_new : SocketInv .new := ⟨fun _ => ⟨rfl, rfl, rfl⟩, (fun h => by cases h), fun _ => rfl⟩

theorem close_ready (k : Socket) : k.close.ready ≠ .connecting ∧ k.close.ready ≠ .connected := by
  rw [Socket.close]
  cases hready : k.ready <;> simp [hready]

theorem socketInv_close {k : Socket} (h : k.errorListener = true → k.opened = false) : SocketInv k.close := by
  refine ⟨fun hready => absurd hready (close_ready k).1, fun hready => absurd hready (close_ready k).2, ?_⟩
  rw [Socket.close]
  cases k.ready <;> exact h

variable {reconnect : ReconnectOptions} {t t' : State} {a : Act} {i j : ℕ} {k k' : Socket}

/-! The handlers -/

theorem failReconnect_eq (s : State) : ∃ callbacks, failReconnect s = { s with callbacks := callbacks } := by
  rw [failReconnect]
  split
  · exact ⟨_, rfl⟩
  · exact ⟨_, rfl⟩

/-- What is scheduled after a failure. -/
theorem schedule_eq (reconnect : ReconnectOptions) (s : State) :
    (∃ callbacks, scheduleReconnect reconnect s = { s with callbacks := callbacks } ∧
        (s.closed = true ∨ attemptsLeft reconnect s = false)) ∨
      (s.closed = false ∧ attemptsLeft reconnect s = true ∧ ∃ callbacks, scheduleReconnect reconnect s = { s with
        callbacks := callbacks
        reconnectAttempts := s.reconnectAttempts + 1
        reconnectTimer := some s.timersMade
        timers := s.timers ++ [s.timersMade]
        timersMade := s.timersMade + 1 }) := by
  obtain ⟨callbacks, hfail⟩ := failReconnect_eq s
  unfold scheduleReconnect
  split_ifs with hclosed hleft
  · exact Or.inl ⟨callbacks, hfail, Or.inl hclosed⟩
  · exact Or.inr ⟨Bool.not_eq_true _ ▸ hclosed, hleft, _, rfl⟩
  · exact Or.inl ⟨callbacks, hfail, Or.inr (Bool.not_eq_true _ ▸ hleft)⟩

def Socket.afterOpen (k : Socket) : Socket := ⟨.connected, true, k.failedBeforeOpen, false, false, false⟩

theorem onOpen_eq (s : State) (i : ℕ) (k : Socket) : ∃ callbacks, onOpen s i { k with ready := .connected } =
    { s.setSocket i k.afterOpen with
      settled := true, wasConnected := true, reconnectAttempts := 0, callbacks := callbacks } := by
  obtain ⟨sockets, closed, settled, wasConnected⟩ := s
  cases settled with
  | false => exact ⟨_, rfl⟩
  | true =>
    cases wasConnected with
    | false => exact ⟨_, rfl⟩
    | true => exact ⟨_, rfl⟩

def Socket.errored (k : Socket) : Socket := ⟨.closing, k.opened, true, false, false, false⟩

theorem onError_eq (reconnect : ReconnectOptions) (s : State) (i : ℕ) (k : Socket) :
    onError reconnect s i { k with ready := .closing } =
    if s.settled then s.setSocket i k.errored else scheduleReconnect reconnect (s.setSocket i k.errored) := by
  rw [onError]
  rfl

theorem socketInv_errored (k : Socket) : SocketInv k.errored :=
  ⟨(fun hready => by cases hready), (fun hready => by cases hready), (fun hl => by cases hl)⟩

/-! Sockets that have had their close event -/

def Gone (t : State) (i : ℕ) : Prop := ∃ k, t.sockets[i]? = some k ∧ k.ready = .closed

@[simp] theorem sockets_schedule (reconnect : ReconnectOptions) (t : State) :
    (scheduleReconnect reconnect t).sockets = t.sockets := by
  rcases schedule_eq reconnect t with ⟨callbacks, heq, -⟩ | ⟨-, -, callbacks, heq⟩
  · rw [heq]
  · rw [heq]

theorem gone_congr (h : t'.sockets = t.sockets) : Gone t' j ↔ Gone t j := by rw [Gone, h, Gone]

theorem gone_setSocket {c : Socket} (hi : t.sockets[i]? = some k) (hk : c.ready = .closed → k.ready = .closed)
    (h : Gone (t.setSocket i c) j) : Gone t j := by
  obtain ⟨c', hc, hready⟩ := h
  rcases Lists.getElem?_set_cases hc with ⟨rfl, rfl⟩ | ⟨-, hold⟩
  · exact ⟨k, hi, hk hready⟩
  · exact ⟨c', hold, hready⟩

theorem gone_setSocket_closed (hk : k'.ready = .closed) (hi : t.sockets[i]? = some k) :
    Gone (t.setSocket i k') j ↔ Gone t j ∨ j = i := by
  constructor
  · rintro ⟨c, hc, hready⟩
    rcases Lists.getElem?_set_cases hc with ⟨rfl, -⟩ | ⟨-, hold⟩
    · exact Or.inr rfl
    · exact Or.inl ⟨c, hold, hready⟩
  · intro h
    by_cases hij : j = i
    · subst hij
      exact ⟨k', Lists.getElem?_set_self_of_some hi, hk⟩
    · obtain ⟨c, hc, hready⟩ := h.resolve_right hij
      exact ⟨c, (List.getElem?_set_ne (Ne.symm hij)).trans hc, hready⟩

theorem closed_of_close (h : k.close.ready = .closed) : k.ready = .closed := by
  rw [Socket.close] at h
  cases hready : k.ready with
  | connecting | connected =>
    rw [hready] at h
    cases h
  | closing =>
    rw [hready] at h
    cases hready.symm.trans h
  | closed => rfl

theorem gone_close : Gone (close t) j ↔ Gone t j := by
  unfold Gone close
  rw [List.getElem?_modify]
  constructor
  · rintro ⟨c, hc, hready⟩
    obtain ⟨k, hk, rfl⟩ := Option.map_eq_some_iff.mp hc
    refine ⟨k, hk, ?_⟩
    split_ifs at hready
    · exact closed_of_close hready
    · exact hready
  · rintro ⟨k, hk, hready⟩
    refine ⟨_, Option.map_eq_some_iff.mpr ⟨k, hk, rfl⟩, ?_⟩
    split_ifs
    · rw [Socket.close, hready]
      exact hready
    · exact hready

/-- Only its own close event closes a socket. -/
theorem gone_step (ha : ∀ i, a ≠ .closed i) (hs : step reconnect t a = some t') (h : Gone t' j) : Gone t j := by
  cases a with
  | «open» i =>
    obtain ⟨k, hi, hs⟩ := Option.bind_eq_some_iff.mp hs
    simp only [socketStep] at hs
    split at hs
    · cases hs
      split at h
      · obtain ⟨callbacks, heq⟩ := onOpen_eq t i k
        rw [heq] at h
        exact gone_setSocket (c := k.afterOpen) hi (fun hready => by cases hready) h
      · exact gone_setSocket hi (fun hready => by cases hready) h
    · cases hs
  | error i =>
    obtain ⟨k, hi, hs⟩ := Option.bind_eq_some_iff.mp hs
    simp only [socketStep] at hs
    split at hs
    · cases hs
    · cases hs
      split at h
      · rw [onError_eq] at h
        refine gone_setSocket (c := k.errored) hi (fun hready => by cases hready) ?_
        split at h
        · exact h
        · exact (gone_congr (sockets_schedule _ _)).mp h
      · exact gone_setSocket hi (fun hready => by cases hready) h
  | closed i => exact absurd rfl (ha i)
  | message i =>
    obtain ⟨k, hi, hs⟩ := Option.bind_eq_some_iff.mp hs
    simp only [socketStep] at hs
    split at hs
    · cases hs
      exact h
    · cases hs
  | connectTimeout i =>
    obtain ⟨k, hi, hs⟩ := Option.bind_eq_some_iff.mp hs
    simp only [socketStep] at hs
    split at hs
    · cases hs
      refine gone_setSocket hi (fun hready => ?_) ((gone_congr (sockets_schedule _ _)).mp h)
      exact closed_of_close (k := { k with connectTimeout := false, failedBeforeOpen := true }) hready
    · cases hs
  | reconnectTimer timer =>
    simp only [step] at hs
    split at hs
    · cases hs
      obtain ⟨c, hc, hready⟩ := h
      rcases Lists.getElem?_concat_cases hc with hold | rfl
      · exact ⟨c, hold, hready⟩
      · cases hready
    · cases hs
  | close =>
    cases hs
    exact gone_close.mp h

end Nexal.Reconnect
