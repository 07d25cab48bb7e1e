import Nexal.Lib.Lists
import Nexal.Spec.GatewayHandshake

/-! When a failed handshake can be tried again. A cached promise is dropped by `close` and by the end of a connection
only, never by its own failure; and the end of any connection drops whatever is cached then. -/

namespace Nexal.GatewayHandshake

variable {κ : Type} {s s' : State κ} {i j : ℕ}

/-! What is due -/

/-- Its connection has ended, or the client has closed since it began. -/
def Attempt.Over (a : Attempt) : Prop := a.left = true ∨ a.gone = true

instance (a : Attempt) : Decidable a.Over := inferInstanceAs (Decidable (_ ∨ _))

/-- The attempt whose connection a hello waits for or has gone out on. -/
def Hello.connection (h : Hello) : Option ℕ :=
  match h.stage with
  | .connecting => some h.attempt
  | .sent c | .accepted c => some c
  | .failed => none

def Hello.Over (s : State κ) (h : Hello) : Prop := h.left = true ∨ ∃ c ∈ h.connection, s.goneAt c

instance (s : State κ) (h : Hello) : Decidable (h.Over s) := inferInstanceAs (Decidable (_ ∨ _))

/-- There is no attempt yet, or the last one has failed or is over. -/
def AttemptDue (s : State κ) : Prop := ∀ a ∈ s.attempts.getLast?, a.status = .failed ∨ a.Over

instance (s : State κ) : Decidable (AttemptDue s) :=
  inferInstanceAs (Decidable (∀ a ∈ s.attempts.getLast?, a.status = .failed ∨ a.Over))

def HelloDue (s : State κ) : Prop := ∀ h ∈ s.hellos.getLast?, h.stage = .failed ∨ h.Over s

instance (s : State κ) : Decidable (HelloDue s) :=
  inferInstanceAs (Decidable (∀ h ∈ s.hellos.getLast?, h.stage = .failed ∨ h.Over s))

/-- If the last attempt has failed then the promise has been cleared since it began, and otherwise not unless the
attempt is over. -/
def AttemptCleared (s : State κ) : Prop :=
  ∀ a ∈ s.attempts.getLast?, if a.status = .failed then a.cleared = true else a.cleared = true → a.Over

instance (s : State κ) : Decidable (AttemptCleared s) :=
  inferInstanceAs (Decidable (∀ a ∈ s.attempts.getLast?,
    if a.status = .failed then a.cleared = true else a.cleared = true → a.Over))

def HelloCleared (s : State κ) : Prop :=
  ∀ h ∈ s.hellos.getLast?, if h.stage = .failed then h.cleared = true else h.cleared = true → h.Over s

instance (s : State κ) : Decidable (HelloCleared s) :=
  inferInstanceAs (Decidable (∀ h ∈ s.hellos.getLast?,
    if h.stage = .failed then h.cleared = true else h.cleared = true → h.Over s))

/-! The connections that have ended -/

theorem map_settle {β : Type} {f : Attempt → β} {status : Status} (h : ∀ a, f { a with status := status } = f a) :
    (s.settle i status).attempts.map f = s.attempts.map f :=
  Lists.map_modify_of_eq h _ _

@[simp] theorem goneAt_settle {status : Status} : (s.settle i status).goneAt j ↔ s.goneAt j := by
  rw [State.goneAt, map_settle fun _ => rfl, State.goneAt]

theorem status_settle_of_ne {status : Status} (h : j ≠ i) : (s.settle i status).status j = s.status j := by
  simp [State.status, State.settle, Ne.symm h]

theorem status_settle_self {status old : Status} (h : s.status i = some old) :
    (s.settle i status).status i = some status := by
  simp only [State.status, Option.map_eq_some_iff] at h
  obtain ⟨a, ha, -⟩ := h
  simp [State.status, State.settle, ha]

theorem map_endConnection {β : Type} {f : Attempt → β} (h : ∀ a, f { a with gone := true } = f a) :
    (s.endConnection i).attempts.map f = s.attempts.map f :=
  Lists.map_modify_of_eq h _ _

@[simp] theorem status_endConnection : (s.endConnection i).status j = s.status j := by
  rw [State.status, ← List.getElem?_map, map_endConnection fun _ => rfl, List.getElem?_map, State.status]

theorem goneAt_endConnection (h : (s.endConnection i).goneAt j) : s.goneAt j ∨ j = i := by
  by_cases hij : i = j
  · exact .inr hij.symm
  · refine .inl ?_
    simpa [State.goneAt, State.endConnection, hij] using h

theorem goneAt_connect : (connect s).1.goneAt j ↔ s.goneAt j := by
  unfold connect
  split
  · rfl
  · simp only [State.goneAt, List.map_append, List.map_cons, List.map_nil, Lists.getElem?_concat, List.length_map]
    split_ifs with hj
    · subst hj
      simp [Attempt.new]
    · rfl

/-! The invariant -/

structure Sound (s : State κ) : Prop where
  gone : ∀ i, s.goneAt i → s.status i = some .opened
  current : ∀ i, s.connection = some i → s.status i = some .opened

structure Inv (s : State κ) : Prop extends Sound s where
  ready : s.readyPromise = none ↔ ∀ a ∈ s.attempts.getLast?, a.cleared = true
  greeting : s.helloPromise = none ↔ ∀ h ∈ s.hellos.getLast?, h.cleared = true
  last : ∀ i, s.readyPromise = some i → i + 1 = s.attempts.length
  live : ∀ i, s.connection = some i → ¬s.goneAt i
  attemptOver : ∀ a ∈ s.attempts, a.Over → a.cleared = true
  helloOver : ∀ h ∈ s.hellos, h.Over s → h.cleared = true

theorem init_inv : Inv (init : State κ) := by
  constructor <;> simp [init]
  constructor <;> simp [State.goneAt]

theorem Inv.frame (h : Inv s) (ha : s'.attempts = s.attempts) (hh : s'.hellos = s.hellos)
    (hc : s'.connection = s.connection) (hr : s'.readyPromise = s.readyPromise)
    (hg : s'.helloPromise = s.helloPromise) : Inv s' := by
  obtain ⟨attempts, hellos, connection, readyPromise, helloPromise, _, _, _⟩ := s'
  subst ha hh hc hr hg
  exact ⟨⟨h.gone, h.current⟩, h.ready, h.greeting, h.last, h.live, h.attemptOver, h.helloOver⟩

theorem Sound.endConnection (h : Sound s) (hi : s.status i = some .opened) : Sound (s.endConnection i) := by
  refine ⟨fun j hj => ?_, fun j hj => ?_⟩
  · rw [status_endConnection]
    rcases goneAt_endConnection hj with hold | rfl
    · exact h.gone j hold
    · exact hi
  · rw [status_endConnection]
    exact h.current j hj

/-! Clearing -/

/-- Nothing is cached, and all that has begun has been cleared. -/
theorem inv_of_cleared (hgone : ∀ i, s.goneAt i → s.status i = some .opened) (hconnection : s.connection = none)
    (hready : s.readyPromise = none) (hhello : s.helloPromise = none) (ha : ∀ a ∈ s.attempts, a.cleared = true)
    (hh : ∀ h ∈ s.hellos, h.cleared = true) : Inv s where
  gone := hgone
  current := by simp [hconnection]
  ready := by simpa [hready] using fun a hlast => ha a (List.mem_of_getLast? hlast)
  greeting := by simpa [hhello] using fun h hlast => hh h (List.mem_of_getLast? hlast)
  last := by simp [hready]
  live := by simp [hconnection]
  attemptOver := fun a hmem _ => ha a hmem
  helloOver := fun h hmem _ => hh h hmem

theorem Sound.current_ended (h : Sound s) : Sound (match s.connection with
    | some attempt => s.endConnection attempt
    | none => s) := by
  cases hc : s.connection with
  | none => exact h
  | some c => exact h.endConnection (h.current c hc)

theorem inv_clear (h : Sound s) : Inv (clear s) := by
  refine inv_of_cleared (fun i hi => ?_) rfl rfl rfl ?_ ?_
  · have hended := h.current_ended.gone i
    simp only [clear, State.goneAt, State.status, List.map_map, List.getElem?_map, Option.map_map] at hi hended ⊢
    exact hended hi
  · simp [clear]
  · simp [clear]

theorem inv_close (h : Sound s) : Inv (close s) := by
  have hclear := inv_clear h
  refine inv_of_cleared (fun i hi => ?_) rfl rfl rfl ?_ ?_
  · have hgone := hclear.gone i
    simp only [close, State.goneAt, State.status, List.map_map, List.getElem?_map, Option.map_map] at hi hgone ⊢
    exact hgone hi
  · simp [close, clear]
  · simp [close, clear]

/-! What the network settles -/

theorem last_map_iff {α : Type} {f : α → Bool} {l : List α} :
    (∀ a ∈ l.getLast?, f a = true) ↔ ∀ b ∈ (l.map f).getLast?, b = true := by
  simp [List.getLast?_map]

theorem over_settle {status : Status} {h : Hello} : h.Over (s.settle i status) ↔ h.Over s := by
  simp only [Hello.Over, goneAt_settle]

theorem ready_settle {status : Status} : (∀ a ∈ (s.settle i status).attempts.getLast?, a.cleared = true) ↔
    ∀ a ∈ s.attempts.getLast?, a.cleared = true := by
  rw [last_map_iff, map_settle fun _ => rfl, ← last_map_iff]

theorem inv_settle {status : Status} (h : Inv s) (hi : s.status i = some .pending) : Inv (s.settle i status) where
  gone := fun j hj => by
    rw [goneAt_settle] at hj
    have hopened := h.gone j hj
    rwa [status_settle_of_ne fun heq => by cases (heq ▸ hopened).symm.trans hi]
  current := fun j hj => by
    have hopened := h.current j hj
    rwa [status_settle_of_ne fun heq => by cases (heq ▸ hopened).symm.trans hi]
  ready := h.ready.trans ready_settle.symm
  greeting := h.greeting
  last := fun j hj => by simpa [State.settle] using h.last j hj
  live := fun j hj => by simpa using h.live j hj
  attemptOver := Lists.forall_mem_modify h.attemptOver fun _ _ ha => ha
  helloOver := fun hello hmem hover => h.helloOver hello hmem (over_settle.mp hover)

theorem inv_opened (h : Inv s) (hi : s.status i = some .pending) :
    Inv { s.settle i .opened with connection := some i } := by
  have hsettled : Inv (s.settle i .opened) := inv_settle h hi
  refine ⟨⟨hsettled.gone, fun j hj => ?_⟩, hsettled.ready, hsettled.greeting, hsettled.last, fun j hj hgone => ?_,
    hsettled.attemptOver, hsettled.helloOver⟩
  · obtain rfl : i = j := Option.some.inj hj
    exact status_settle_self hi
  · obtain rfl : i = j := Option.some.inj hj
    have hopened := h.gone i (goneAt_settle.mp hgone)
    cases hopened.symm.trans hi

/-! Calls -/

theorem inv_connect (h : Inv s) : Inv (connect s).1 := by
  have hgone := fun j => goneAt_connect (s := s) (j := j)
  unfold connect at hgone ⊢
  split at hgone
  · assumption
  · rename_i hnone
    simp only at hgone ⊢
    have hstatus (j : ℕ) (hj : s.status j = some .opened) :
        (s.attempts ++ [Attempt.new])[j]?.map (·.status) = some .opened := by
      simp only [State.status, Option.map_eq_some_iff] at hj ⊢
      obtain ⟨a, ha, hopened⟩ := hj
      exact ⟨a, Lists.getElem?_append_of_some ha _, hopened⟩
    exact {
      gone := fun j hj => hstatus j (h.gone j ((hgone j).mp hj))
      current := fun j hj => hstatus j (h.current j hj)
      ready := by simp [Attempt.new]
      greeting := h.greeting
      last := by simp
      live := fun j hj hgone' => h.live j hj ((hgone j).mp hgone')
      attemptOver := fun a ha hover => by
        rcases List.mem_append.mp ha with hold | hnew
        · exact h.attemptOver a hold hover
        · rw [List.mem_singleton.mp hnew] at hover
          simp [Attempt.Over, Attempt.new] at hover
      helloOver := fun hello hmem hover => h.helloOver hello hmem (by simpa only [Hello.Over, hgone] using hover) }

/-- The attempt a caller of `connect` gets has not ended. -/
theorem connect_live (h : Inv s) : ¬(connect s).1.goneAt (connect s).2 := by
  rw [goneAt_connect]
  unfold connect
  split
  · rename_i i hi
    intro hgone
    simp only [State.goneAt, List.getElem?_map, Option.map_eq_some_iff] at hgone
    obtain ⟨a, ha, hgone⟩ := hgone
    have hcleared := h.attemptOver a (List.mem_of_getElem? ha) (.inr hgone)
    have hnot := mt h.ready.mpr (by simp [hi])
    have hlast : s.attempts.getLast? = some a := by
      rw [List.getLast?_eq_getElem?, ← h.last i hi, Nat.add_sub_cancel, ha]
    simp [hlast, hcleared] at hnot
  · simp [State.goneAt]

theorem inv_hello (h : Inv s) : Inv (hello s).1 := by
  unfold hello
  split
  · exact h
  · rename_i hnone
    have hconnect := inv_connect h
    have hlive := connect_live h
    generalize connect s = r at hconnect hlive ⊢
    obtain ⟨s', attempt⟩ := r
    exact {
      gone := hconnect.gone
      current := hconnect.current
      ready := hconnect.ready
      greeting := by simp [Hello.new]
      last := hconnect.last
      live := hconnect.live
      attemptOver := hconnect.attemptOver
      helloOver := fun g hg hover => by
        rcases List.mem_append.mp hg with hold | hnew
        · exact hconnect.helloOver g hold hover
        · rw [List.mem_singleton.mp hnew] at hover
          simp only [Hello.Over, Hello.new, Hello.connection, Option.mem_some_iff, exists_eq_left', Bool.false_eq_true,
            false_or] at hover
          exact absurd hover hlive }

/-! A hello that goes on -/

theorem map_advance {β : Type} {f : Hello → β} {stage : Stage} (h : ∀ g, f { g with stage := stage } = f g) :
    (s.advance i stage).hellos.map f = s.hellos.map f :=
  Lists.map_modify_of_eq h _ _

theorem inv_advance {stage : Stage} (h : Inv s) (hnext : stage ≠ .connecting)
    (hlive : ∀ c, stage = .sent c ∨ stage = .accepted c → ¬s.goneAt c) : Inv (s.advance i stage) where
  gone := h.gone
  current := h.current
  ready := h.ready
  greeting := by
    rw [last_map_iff, map_advance fun _ => rfl, ← last_map_iff]
    exact h.greeting
  last := h.last
  live := h.live
  attemptOver := h.attemptOver
  helloOver := Lists.forall_mem_modify h.helloOver fun g _ hg hover => by
    rcases hover with hleft | ⟨c, hc, hgone⟩
    · exact hg (.inl hleft)
    · simp only [Hello.connection] at hc
      cases stage with
      | connecting => exact absurd rfl hnext
      | sent c' =>
        obtain rfl : c' = c := Option.some.inj hc
        exact absurd hgone (hlive _ (.inl rfl))
      | accepted c' =>
        obtain rfl : c' = c := Option.some.inj hc
        exact absurd hgone (hlive _ (.inr rfl))
      | failed => cases hc

theorem inv_sendHello (h : Inv s) : Inv (sendHello s i) := by
  unfold sendHello
  split
  · rename_i c hc
    refine inv_advance h (by simp) fun c' hc' => ?_
    obtain rfl : c = c' := by simpa using hc'
    exact h.live c hc
  · exact inv_advance h (by simp) (by simp)

/-! Retrying -/

def NoAttempt (s s' : State κ) : Prop :=
  s'.attempts.length = s.attempts.length ∧ s'.hellos.length = s.hellos.length

/-- A connection attempt that is due is begun and is what the caller gets; none is begun otherwise. -/
def ConnectRetried (s s' : State κ) : Prop :=
  if AttemptDue s then s'.attempts.length = s.attempts.length + 1 ∧ s'.readyPromise = some s.attempts.length
  else s'.attempts.length = s.attempts.length

def HelloRetried (s s' : State κ) : Prop :=
  if HelloDue s then
    s'.hellos.length = s.hellos.length + 1 ∧ s'.helloPromise = some s.hellos.length ∧ ConnectRetried s s'
  else NoAttempt s s'

theorem attemptCleared_iff (h : Inv s) : AttemptCleared s ↔ (AttemptDue s ↔ s.readyPromise = none) := by
  rw [h.ready, AttemptCleared, AttemptDue]
  cases hlast : s.attempts.getLast? with
  | none => simp
  | some a =>
    have hover := h.attemptOver a (List.mem_of_getLast? hlast)
    by_cases hfailed : a.status = .failed
    · simp [hfailed]
    · simpa [hfailed] using ⟨fun hcleared => ⟨hover, hcleared⟩, fun hiff => hiff.mpr⟩

theorem helloCleared_iff (h : Inv s) : HelloCleared s ↔ (HelloDue s ↔ s.helloPromise = none) := by
  rw [h.greeting, HelloCleared, HelloDue]
  cases hlast : s.hellos.getLast? with
  | none => simp
  | some g =>
    have hover := h.helloOver g (List.mem_of_getLast? hlast)
    by_cases hfailed : g.stage = .failed
    · simp [hfailed]
    · simpa [hfailed] using ⟨fun hcleared => ⟨hover, hcleared⟩, fun hiff => hiff.mpr⟩

theorem connectRetried_iff (hs : s'.attempts = (connect s).1.attempts) (hr : s'.readyPromise = (connect s).1.readyPromise) :
    ConnectRetried s s' ↔ (AttemptDue s ↔ s.readyPromise = none) := by
  rw [ConnectRetried, hs, hr]
  cases hready : s.readyPromise with
  | none => by_cases hdue : AttemptDue s <;> simp [connect, hready, hdue]
  | some i => by_cases hdue : AttemptDue s <;> simp [connect, hready, hdue]

theorem hello_none (hnone : s.helloPromise = none) : (hello s).1.attempts = (connect s).1.attempts ∧
    (hello s).1.readyPromise = (connect s).1.readyPromise ∧ (hello s).1.hellos.length = s.hellos.length + 1 ∧
    (hello s).1.helloPromise = some s.hellos.length := by
  have hhellos : (connect s).1.hellos = s.hellos := by
    unfold connect
    split <;> rfl
  simp [hello, hnone, hhellos]

theorem helloRetried_iff (h : Inv s) (ha : s'.attempts = (hello s).1.attempts) (hh : s'.hellos = (hello s).1.hellos)
    (hr : s'.readyPromise = (hello s).1.readyPromise) (hg : s'.helloPromise = (hello s).1.helloPromise) :
    HelloRetried s s' ↔ HelloCleared s ∧ (HelloDue s → AttemptCleared s) := by
  rw [helloCleared_iff h, HelloRetried, NoAttempt]
  cases hhello : s.helloPromise with
  | none =>
    obtain ⟨hattempts, hready, hlength, hpromise⟩ := hello_none hhello
    have hconnect := connectRetried_iff (ha.trans hattempts) (hr.trans hready)
    by_cases hdue : HelloDue s
    · simp [hdue, hh, hg, hlength, hpromise, hconnect, attemptCleared_iff h]
    · simp [hdue, hh, hlength]
  | some g =>
    have hsame : (hello s).1 = s := by rw [hello, hhello]
    by_cases hdue : HelloDue s
    · simp [hdue, hh, hsame]
    · simp [hdue, ha, hh, hsame]

/-! Runs -/

variable [DecidableEq κ] {e : Event κ} {es : List (Event κ)}

/-- What the calls begin; the other events begin nothing. -/
def Retried (s s' : State κ) : Event κ → Prop
  | .connect => ConnectRetried s s'
  | .hello => HelloRetried s s'
  | .acquireAgent sessionKey => if s.Uncached sessionKey then HelloRetried s s' else NoAttempt s s'
  | _ => NoAttempt s s'

def Retries (s : State κ) (e : Event κ) : Prop := ∀ s', step s e = some s' → Retried s s' e

def Cleared (s : State κ) : Event κ → Prop
  | .connect => AttemptCleared s
  | .hello => HelloCleared s ∧ (HelloDue s → AttemptCleared s)
  | .acquireAgent sessionKey => s.Uncached sessionKey → HelloCleared s ∧ (HelloDue s → AttemptCleared s)
  | _ => True

instance (s : State κ) : (e : Event κ) → Decidable (Cleared s e)
  | .connect => inferInstanceAs (Decidable (AttemptCleared s))
  | .hello => inferInstanceAs (Decidable (HelloCleared s ∧ (HelloDue s → AttemptCleared s)))
  | .acquireAgent sessionKey =>
    inferInstanceAs (Decidable (s.Uncached sessionKey → HelloCleared s ∧ (HelloDue s → AttemptCleared s)))
  | .dropAgent _ | .close | .opened _ | .refused _ | .disconnected _ | .connected _ | .answered _ _ | .greeted _
  | .spawned _ _ | .stored _ => isTrue trivial

theorem inv_acquireAgent {sessionKey : κ} (h : Inv s) : Inv (acquireAgent s sessionKey) := by
  unfold acquireAgent
  split
  · exact (inv_hello h).frame rfl rfl rfl rfl rfl
  · exact h

/-- The events that are not calls begin nothing. -/
theorem step_other (h : Inv s) (hs : step s e = some s') (hconnect : e ≠ .connect) (hhello : e ≠ .hello)
    (hacquire : ∀ sessionKey, e ≠ .acquireAgent sessionKey) : Inv s' ∧ NoAttempt s s' := by
  cases e with
  | connect => exact absurd rfl hconnect
  | hello => exact absurd rfl hhello
  | acquireAgent sessionKey => exact absurd rfl (hacquire sessionKey)
  | dropAgent sessionKey =>
    cases hs
    exact ⟨h.frame rfl rfl rfl rfl rfl, rfl, rfl⟩
  | close =>
    cases hs
    refine ⟨inv_close h.toSound, ?_⟩
    simp only [NoAttempt, close, clear, List.length_map]
    split <;> simp [State.endConnection]
  | opened i =>
    obtain ⟨hi, rfl⟩ := Option.ite_none_right_eq_some.mp hs |>.imp_right Option.some.inj
    exact ⟨inv_opened h hi, by simp [State.settle], rfl⟩
  | refused i =>
    obtain ⟨hi, rfl⟩ := Option.ite_none_right_eq_some.mp hs |>.imp_right Option.some.inj
    exact ⟨inv_settle h hi, by simp [State.settle], rfl⟩
  | disconnected i =>
    obtain ⟨⟨hi, -⟩, rfl⟩ := Option.ite_none_right_eq_some.mp hs |>.imp_right Option.some.inj
    refine ⟨inv_clear (h.toSound.endConnection hi), ?_⟩
    simp only [NoAttempt, onDisconnect, clear, List.length_map]
    split <;> simp [State.endConnection]
  | connected i =>
    simp only [step] at hs
    split at hs
    · split at hs
      · cases hs
        refine ⟨inv_sendHello h, ?_⟩
        unfold sendHello
        split <;> simp [NoAttempt, State.advance]
      · cases hs
        exact ⟨inv_advance h (by simp) (by simp), rfl, by simp [State.advance]⟩
      · cases hs
    · cases hs
  | answered i ok =>
    simp only [step] at hs
    split at hs
    · split at hs
      · split at hs
        · cases hs
        · rename_i hlive
          cases hs
          refine ⟨inv_advance h (by simp) fun c hc => ?_, rfl, by simp [State.advance]⟩
          obtain rfl : _ = c := by simpa using hc
          exact hlive
      · cases hs
        exact ⟨inv_advance h (by simp) (by simp), rfl, by simp [State.advance]⟩
    · cases hs
  | greeted sessionKey =>
    simp only [step] at hs
    split at hs
    · split at hs
      · split at hs <;> cases hs <;> exact ⟨h.frame rfl rfl rfl rfl rfl, rfl, rfl⟩
      · cases hs
        exact ⟨h.frame rfl rfl rfl rfl rfl, rfl, rfl⟩
      · cases hs
    · cases hs
  | spawned sessionKey ok =>
    simp only [step] at hs
    split at hs
    · cases hs
      split <;> exact ⟨h.frame rfl rfl rfl rfl rfl, rfl, rfl⟩
    · cases hs
  | stored sessionKey =>
    obtain ⟨-, rfl⟩ := Option.ite_none_right_eq_some.mp hs |>.imp_right Option.some.inj
    exact ⟨h.frame rfl rfl rfl rfl rfl, rfl, rfl⟩

theorem retries_of_step (hs : step s e = some s') : Retries s e ↔ Retried s s' e := by
  refine ⟨fun h => h s' hs, fun h s'' hs'' => ?_⟩
  cases hs.symm.trans hs''
  exact h

theorem step_retries (h : Inv s) (hs : step s e = some s') : Inv s' ∧ (Retries s e ↔ Cleared s e) := by
  rw [retries_of_step hs]
  cases e with
  | connect =>
    cases hs
    exact ⟨inv_connect h, (connectRetried_iff rfl rfl).trans (attemptCleared_iff h).symm⟩
  | hello =>
    cases hs
    exact ⟨inv_hello h, helloRetried_iff h rfl rfl rfl rfl⟩
  | acquireAgent sessionKey =>
    cases hs
    refine ⟨inv_acquireAgent h, ?_⟩
    by_cases huncached : s.Uncached sessionKey
    · have hretried : HelloRetried s (acquireAgent s sessionKey) ↔ _ :=
        helloRetried_iff h (by simp [acquireAgent, huncached]) (by simp [acquireAgent, huncached])
          (by simp [acquireAgent, huncached]) (by simp [acquireAgent, huncached])
      simpa [huncached, Retried, Cleared] using hretried
    · simp [huncached, Retried, Cleared, acquireAgent, NoAttempt]
  | dropAgent _ | close | opened _ | refused _ | disconnected _ | connected _ | answered _ _ | greeted _
  | spawned _ _ | stored _ =>
    obtain ⟨hinv, hno⟩ := step_other h hs (by simp) (by simp) (by simp)
    exact ⟨hinv, iff_of_true hno trivial⟩

theorem retries_iff (h : Runs.run step init es = some s) :
    Runs.RunOk step Retries init es ↔ Runs.RunOk step Cleared init es :=
  Runs.runOk_congr Inv (fun _ _ _ => step_retries) init_inv h

/-- The gateway comes up after the first attempt, and the handshake is done again after a disconnect. -/
theorem retries_reconnected : Runs.RunOk step Retries (init : State String)
    [.connect, .opened 0, .disconnected 0, .acquireAgent "s", .opened 1, .connected 0, .answered 0 true, .hello] :=
  (retries_iff (s := ⟨[⟨.opened, true, false, true⟩, ⟨.opened, false, false, false⟩],
    [⟨1, .accepted 1, false, false⟩],
    some 1, some 1, some 0, [], [⟨"s", 0, false⟩], []⟩) (by decide)).mpr (by decide)

/-- The second call returns the failure of the first. -/
theorem refused_forever : (Runs.run step (init : State String) [.connect, .refused 0, .connect]).isSome = true ∧
    ¬Runs.RunOk step Retries (init : State String) [.connect, .refused 0, .connect] := by
  refine ⟨by decide, fun hok => ?_⟩
  obtain ⟨-, hok⟩ := hok
  obtain ⟨-, hok⟩ := hok _ rfl
  obtain ⟨hretries, -⟩ := hok _ rfl
  have hlast := hretries _ rfl
  simp [Retried, ConnectRetried, AttemptDue, connect, init, State.settle, Attempt.new] at hlast

end Nexal.GatewayHandshake
