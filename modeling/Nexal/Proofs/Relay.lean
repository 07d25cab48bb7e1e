import Nexal.Spec.Relay

/-! The bytes of a relayed connection. Each is somewhere on its way until it is received; but the end of
file of one side ends the relay for both, and what the other side has under way then, or sends later, is
lost. -/

namespace Nexal.Relay

open Runs

/-- Nothing is left to move from `side`, as far as the relay and the other side go. -/
def Settled (side : Side) (s : State) : Prop :=
  ∀ n, s.read side n = none ∧ s.write side n = none ∧ s.receive side n = none

def underWay (side : Side) (s : State) : ℕ :=
  3 * (s.flow side).unread.length + 2 * (s.flow side).held.length + (s.flow side).arriving.length

/-- However the bytes of a side are moved on, that comes to an end, and when it does, all of them have been
received. -/
structure Delivered (side : Side) (s : State) : Prop where
  ends : ∀ acts s', (∀ a ∈ acts, a.moves side) → run step s acts = some s' → acts.length ≤ underWay side s
  all : ∀ acts s', (∀ a ∈ acts, a.moves side) → run step s acts = some s' → Settled side s' →
    (s'.flow side).received = (s.flow side).sent

def Lossless (s : State) : Prop := ∀ side, Delivered side s

/-- A copy loop meets the end of file only when the other has nothing to copy, and nothing is sent to a
relay that is over. -/
def Drained (s : State) : Act → Prop
  | .finish side => (s.flow side.peer).unread = [] ∧ (s.flow side.peer).held = []
  | .send _ bytes => s.ended = false ∨ bytes = []
  | .close _ | .read _ _ | .write _ _ | .receive _ _ => True

instance decidableDrained (s : State) : (a : Act) → Decidable (Drained s a)
  | .finish side => inferInstanceAs (Decidable ((s.flow side.peer).unread = [] ∧ (s.flow side.peer).held = []))
  | .send _ bytes => inferInstanceAs (Decidable (s.ended = false ∨ bytes = []))
  | .close _ | .read _ _ | .write _ _ | .receive _ _ => isTrue trivial

/-! Where the bytes are -/

def Flow.Conserved (f : Flow) : Prop := f.sent = f.received ++ f.arriving ++ f.held ++ f.unread

def Conserved (s : State) : Prop := ∀ side, (s.flow side).Conserved

def Reaches (side : Side) (s : State) : Prop :=
  s.ended = true → (s.flow side).unread = [] ∧ (s.flow side).held = []

variable {s s' : State} {side : Side}

@[simp] theorem flow_set_self (s : State) (side : Side) (f : Flow) : (s.set side f).flow side = f :=
    Function.update_self _ _ _

@[simp] theorem flow_set_of_ne {side' : Side} (h : side' ≠ side) (s : State) (f : Flow) :
    (s.set side f).flow side' = s.flow side' :=
  Function.update_of_ne h _ _

@[simp] theorem ended_set (s : State) (side : Side) (f : Flow) : (s.set side f).ended = s.ended := rfl

/-- What a step does: it moves bytes of one flow on, lets one side send or close, or ends the relay. -/
inductive Does (s : State) : Act → State → Prop
  | send {side : Side} {bytes : List UInt8} (hopen : (s.flow side).closed = false) :
    Does s (.send side bytes) (s.set side { s.flow side with
      sent := (s.flow side).sent ++ bytes, unread := (s.flow side).unread ++ bytes })
  | close {side : Side} : Does s (.close side) (s.set side { s.flow side with closed := true })
  | read {side : Side} {n : ℕ} (hended : s.ended = false) (hpos : n ≠ 0) (hle : n ≤ (s.flow side).unread.length) :
    Does s (.read side n) (s.set side { s.flow side with
      unread := (s.flow side).unread.drop n, held := (s.flow side).held ++ (s.flow side).unread.take n })
  | write {side : Side} {n : ℕ} (hended : s.ended = false) (hpos : n ≠ 0) (hle : n ≤ (s.flow side).held.length) :
    Does s (.write side n) (s.set side { s.flow side with
      held := (s.flow side).held.drop n, arriving := (s.flow side).arriving ++ (s.flow side).held.take n })
  | receive {side : Side} {n : ℕ} (hpos : n ≠ 0) (hle : n ≤ (s.flow side).arriving.length) :
    Does s (.receive side n) (s.set side { s.flow side with
      arriving := (s.flow side).arriving.drop n, received := (s.flow side).received ++ (s.flow side).arriving.take n })
  | finish {side : Side} (hended : s.ended = false) (hunread : (s.flow side).unread = [])
    (hheld : (s.flow side).held = []) : Does s (.finish side) { s with ended := true }

theorem does_of_step {a : Act} (h : step s a = some s') : Does s a s' := by
  cases a with
  | send side bytes =>
    dsimp only [step, State.send] at h
    split_ifs at h with hclosed
    cases h
    exact .send (Bool.eq_false_iff.mpr hclosed)
  | close side =>
    dsimp only [step, State.close] at h
    split_ifs at h
    cases h
    exact .close
  | read side n =>
    dsimp only [step, State.read] at h
    split_ifs at h with hno
    cases h
    push Not at hno
    exact .read (Bool.eq_false_iff.mpr hno.1) hno.2.1 hno.2.2
  | write side n =>
    dsimp only [step, State.write] at h
    split_ifs at h with hno
    cases h
    push Not at hno
    exact .write (Bool.eq_false_iff.mpr hno.1) hno.2.1 hno.2.2
  | receive side n =>
    dsimp only [step, State.receive] at h
    split_ifs at h with hno
    cases h
    push Not at hno
    exact .receive hno.1 hno.2
  | finish side =>
    dsimp only [step, State.finish] at h
    split_ifs at h with hno
    cases h
    push Not at hno
    exact .finish (Bool.eq_false_iff.mpr hno.1) hno.2.2.1 hno.2.2.2

theorem Conserved.set (h : Conserved s) {f : Flow} (hf : f.Conserved) (side : Side) : Conserved (s.set side f) := by
  intro side'
  by_cases heq : side' = side
  · subst heq
    rw [flow_set_self]
    exact hf
  · rw [flow_set_of_ne heq]
    exact h side'

theorem conserved_step {a : Act} (h : Conserved s) (hs : step s a = some s') : Conserved s' := by
  cases does_of_step hs with
  | @send side bytes hopen =>
    refine h.set ?_ side
    have hflow : (s.flow side).Conserved := h side
    rw [Flow.Conserved] at hflow ⊢
    dsimp only
    rw [hflow, List.append_assoc]
  | @close side =>
    have hflow : ({ s.flow side with closed := true } : Flow).Conserved := h side
    exact h.set hflow side
  | @read side n hended hpos hle =>
    refine h.set ?_ side
    have hflow : (s.flow side).Conserved := h side
    rw [Flow.Conserved] at hflow ⊢
    dsimp only
    rw [hflow, ← List.append_assoc, List.append_assoc _ ((s.flow side).unread.take n), List.take_append_drop]
  | @write side n hended hpos hle =>
    refine h.set ?_ side
    have hflow : (s.flow side).Conserved := h side
    rw [Flow.Conserved] at hflow ⊢
    dsimp only
    rw [hflow, ← List.append_assoc, List.append_assoc _ ((s.flow side).held.take n), List.take_append_drop]
  | @receive side n hpos hle =>
    refine h.set ?_ side
    have hflow : (s.flow side).Conserved := h side
    rw [Flow.Conserved] at hflow ⊢
    dsimp only
    rw [hflow, List.append_assoc _ ((s.flow side).arriving.take n), List.take_append_drop]
  | finish hended hunread hheld => exact h

theorem conserved_bridge (rewritten remainingBody : List UInt8) : Conserved (bridge rewritten remainingBody) := by
  intro side
  cases side with
  | client => simp [bridge, Flow.start, Flow.Conserved]
  | upstream => rfl

/-! Moving the bytes of one side -/

structure Moved (side : Side) (s s' : State) (k : ℕ) : Prop where
  ended : s'.ended = s.ended
  sent : (s'.flow side).sent = (s.flow side).sent
  less : underWay side s' + k ≤ underWay side s
  reaches : Reaches side s → Reaches side s'

theorem Moved.refl (side : Side) (s : State) : Moved side s s 0 := ⟨rfl, rfl, Nat.le_refl _, id⟩

theorem Moved.trans {m : State} {k l : ℕ} (h : Moved side s m k) (h' : Moved side m s' l) : Moved side s s' (k + l) where
  ended := h'.ended.trans h.ended
  sent := h'.sent.trans h.sent
  less := by
    have := h.less
    have := h'.less
    omega
  reaches := fun hs => h'.reaches (h.reaches hs)

theorem moved_of_step {a : Act} (ha : a.moves side) (hs : step s a = some s') : Moved side s s' 1 := by
  cases does_of_step hs with
  | send hopen => exact ha.elim
  | close => exact ha.elim
  | finish hended hunread hheld => exact ha.elim
  | read hended hpos hle =>
    cases ha
    refine ⟨rfl, by rw [flow_set_self], ?_, fun _ h => ?_⟩
    · simp only [underWay, flow_set_self, List.length_drop, List.length_append, List.length_take]
      omega
    · rw [ended_set, hended] at h
      cases h
  | write hended hpos hle =>
    cases ha
    refine ⟨rfl, by rw [flow_set_self], ?_, fun _ h => ?_⟩
    · simp only [underWay, flow_set_self, List.length_drop, List.length_append, List.length_take]
      omega
    · rw [ended_set, hended] at h
      cases h
  | receive hpos hle =>
    cases ha
    refine ⟨rfl, by rw [flow_set_self], ?_, fun hreach h => ?_⟩
    · simp only [underWay, flow_set_self, List.length_drop]
      omega
    · rw [flow_set_self]
      exact hreach h

theorem moved_of_run {acts : List Act} (ha : ∀ a ∈ acts, a.moves side) (h : run step s acts = some s') :
    Moved side s s' acts.length := by
  induction acts generalizing s with
  | nil =>
    cases h
    exact .refl side _
  | cons a acts ih =>
    obtain ⟨hhead, htail⟩ := List.forall_mem_cons.mp ha
    obtain ⟨m, hm, hrest⟩ := run_cons h
    rw [List.length_cons, Nat.add_comm]
    exact (moved_of_step hhead hm).trans (ih htail hrest)

/-- Where nothing is left to move, everything has been received or is given up. -/
theorem received_of_settled (hconserved : (s.flow side).Conserved) (hreaches : Reaches side s) (h : Settled side s) :
    (s.flow side).received = (s.flow side).sent := by
  have harriving : (s.flow side).arriving = [] := by
    by_contra hne
    have hno := (h (s.flow side).arriving.length).2.2
    rw [State.receive, if_neg (by simp [hne])] at hno
    cases hno
  have hrest : (s.flow side).unread = [] ∧ (s.flow side).held = [] := by
    by_cases hended : s.ended = true
    · exact hreaches hended
    · refine ⟨?_, ?_⟩
      · by_contra hne
        have hno := (h (s.flow side).unread.length).1
        rw [State.read, if_neg (by simp [hne, hended])] at hno
        cases hno
      · by_contra hne
        have hno := (h (s.flow side).held.length).2.1
        rw [State.write, if_neg (by simp [hne, hended])] at hno
        cases hno
  rw [Flow.Conserved, harriving, hrest.1, hrest.2, List.append_nil, List.append_nil, List.append_nil] at hconserved
  exact hconserved.symm

theorem settled_of_ended (hended : s.ended = true) (harriving : (s.flow side).arriving = []) : Settled side s := by
  intro n
  refine ⟨if_pos (Or.inl hended), if_pos (Or.inl hended), if_pos ?_⟩
  rw [harriving, List.length_nil]
  omega

/-- The bytes of a side are delivered unless the relay has ended with some of them. -/
theorem delivered_iff_reaches (hconserved : Conserved s) : Delivered side s ↔ Reaches side s := by
  constructor
  · intro h hended
    -- the other side receives what has been written
    have hreceived : (s.flow side).received ++ (s.flow side).arriving = (s.flow side).sent := by
      by_cases harriving : (s.flow side).arriving = []
      · rw [harriving, List.append_nil]
        exact h.all [] s (by simp) rfl (settled_of_ended hended harriving)
      · have hstep : step s (.receive side (s.flow side).arriving.length) = some (s.set side { s.flow side with
            arriving := (s.flow side).arriving.drop (s.flow side).arriving.length,
            received := (s.flow side).received ++ (s.flow side).arriving.take (s.flow side).arriving.length }) :=
          if_neg (by simp [harriving])
        have hall := h.all [.receive side (s.flow side).arriving.length] _ (by simp [Act.moves]) (run_of_step hstep rfl)
          (settled_of_ended hended (by rw [flow_set_self]; exact List.drop_length))
        rw [flow_set_self, List.take_length] at hall
        exact hall
    have hflow : (s.flow side).Conserved := hconserved side
    rw [Flow.Conserved, ← hreceived, List.append_assoc, List.self_eq_append_right, List.append_eq_nil_iff] at hflow
    exact ⟨hflow.2, hflow.1⟩
  · intro h
    refine ⟨fun acts s' ha hrun => ?_, fun acts s' ha hrun hsettled => ?_⟩
    · have := (moved_of_run ha hrun).less
      omega
    · have hmoved := moved_of_run ha hrun
      have hconserved' : Conserved s' := run_inv_all Conserved (fun _ _ _ hc hs => conserved_step hc hs) hconserved hrun
      rw [← hmoved.sent]
      exact received_of_settled (hconserved' side) (hmoved.reaches h) hsettled

/-! Runs -/

theorem reaches_set {side' : Side} {f : Flow} (hself : s.ended = true → f.unread = [] ∧ f.held = [])
    (hother : Reaches side' s) : Reaches side' (s.set side f) := by
  by_cases heq : side' = side
  · subst heq
    intro hended
    rw [flow_set_self]
    exact hself hended
  · intro hended
    rw [flow_set_of_ne heq]
    exact hother hended

/-- One step keeps all bytes exactly if it meets the condition. -/
theorem lossless_step {a : Act} (hconserved : Conserved s) (h : Lossless s) (hs : step s a = some s') :
    Lossless s' ↔ Drained s a := by
  have hreaches : ∀ side, Reaches side s := fun side => (delivered_iff_reaches hconserved).mp (h side)
  have hiff : Lossless s' ↔ ∀ side, Reaches side s' :=
    forall_congr' fun side => delivered_iff_reaches (conserved_step hconserved hs)
  rw [hiff]
  cases does_of_step hs with
  | @send side bytes hopen =>
    constructor
    · intro hall
      cases hended : s.ended with
      | false => exact Or.inl hended
      | true =>
        have hself := hall side hended
        rw [flow_set_self] at hself
        exact Or.inr (List.append_eq_nil_iff.mp hself.1).2
    · intro hdrained side'
      refine reaches_set (fun hended => ?_) (hreaches side')
      rcases hdrained with hno | rfl
      · rw [hno] at hended
        cases hended
      · exact ⟨(List.append_nil _).trans (hreaches side hended).1, (hreaches side hended).2⟩
  | @close side => exact iff_of_true (fun side' => reaches_set (hreaches side) (hreaches side')) trivial
  | read hended hpos hle =>
    refine iff_of_true (fun side' => reaches_set (fun h => ?_) (hreaches side')) trivial
    rw [hended] at h
    cases h
  | write hended hpos hle =>
    refine iff_of_true (fun side' => reaches_set (fun h => ?_) (hreaches side')) trivial
    rw [hended] at h
    cases h
  | @receive side n hpos hle => exact iff_of_true (fun side' => reaches_set (hreaches side) (hreaches side')) trivial
  | @finish side hended hunread hheld =>
    constructor
    · intro hall
      exact hall side.peer rfl
    · intro hdrained side' _
      by_cases heq : side' = side
      · rw [heq]
        exact ⟨hunread, hheld⟩
      · have hpeer : side' = side.peer := by
          cases side <;> cases side' <;> first | rfl | exact absurd rfl heq
        rw [hpeer]
        exact hdrained

theorem lossless_bridge (rewritten remainingBody : List UInt8) : Lossless (bridge rewritten remainingBody) :=
  fun _ => (delivered_iff_reaches (conserved_bridge rewritten remainingBody)).mpr fun h => Bool.noConfusion h

/-- A relay loses no bytes exactly when it ends drained and nothing is sent to it after. -/
theorem lossless_iff_drained {rewritten remainingBody : List UInt8} {acts : List Act}
    (h : run step (bridge rewritten remainingBody) acts = some s) :
    RunOk step Drained (bridge rewritten remainingBody) acts ↔
      ∀ acts' m, acts' <+: acts → run step (bridge rewritten remainingBody) acts' = some m → Lossless m := by
  refine runOk_iff_prefixes (H := fun _ _ => True) Conserved Lossless (fun s a s' hconserved hlossless _ hs => ?_)
    (conserved_bridge rewritten remainingBody) (lossless_bridge rewritten remainingBody)
    (runOk_of_forall (fun _ _ => trivial) _ acts) h
  exact ⟨conserved_step hconserved hs, lossless_step hconserved hlossless hs⟩

def answered : List Act :=
  [.send .client [1, 2], .read .client 2, .write .client 2, .receive .client 2, .send .upstream [3], .read .upstream 1,
    .write .upstream 1, .close .client, .finish .client, .receive .upstream 1]

theorem lossless_iff_drained_answered : ∃ s, run step relay answered = some s ∧
    (RunOk step Drained relay answered ↔
      ∀ acts' m, acts' <+: answered → run step relay acts' = some m → Lossless m) := by
  obtain ⟨s, hs⟩ : ∃ s, run step relay answered = some s := ⟨_, rfl⟩
  exact ⟨s, hs, @lossless_iff_drained s [] [] answered hs⟩

/-- A client that finishes its request before the answer comes does not get the answer. -/
theorem half_closed_client_loses_answer : ∃ s,
    run step relay [.send .client [1, 2], .close .client, .read .client 2, .write .client 2, .receive .client 2,
      .finish .client, .send .upstream [3], .close .upstream] = some s ∧ ¬ Lossless s := by
  refine ⟨_, rfl, fun h => ?_⟩
  have hall := (h .upstream).all [] _ (by simp) rfl fun n =>
    ⟨rfl, rfl, if_pos (by simp [State.set, relay, bridge, Flow.start]; omega)⟩
  cases hall

end Nexal.Relay
