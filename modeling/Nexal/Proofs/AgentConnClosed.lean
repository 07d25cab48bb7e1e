import Nexal.Sanity.AgentCalls

/-! The invocations of a connection that was closed. `invoke` looks at the `closed` flag before it
puts its sender into the pending map; a drain may run between the two. -/

namespace Nexal.Link.AgentConn

open Runs
open Wire (Value)

/-- Once the connection is marked closed and drained, no waiting call has its sender in the map. -/
def NoneStuck (s : State) : Prop :=
  s.closed = true → s.drained = true → ∀ id i call, (id, i) ∈ s.calls.pending → s.calls.calls[i]? = some call →
    call.phase ≠ .waiting id

/-- A call whose sender came into the map after a drain does not get its frame to the writer. -/
def LateSendFails (s : State) : Act → Prop
  | .call i => ∀ call id, s.calls.calls[i]? = some call → call.phase = .sending id → s.drained = true →
    (id, i) ∈ s.calls.pending → s.chan.accepts = false
  | _ => True

structure ClosedInv (s : State) : Prop where
  calls : CallsOk s.calls
  late : s.drained = true → ∀ id i call, (id, i) ∈ s.calls.pending → s.calls.calls[i]? = some call →
    call.phase ≠ .waiting id

variable {hasHandler : Bool} {s s' : State}

theorem ClosedInv.of_eq (h : ClosedInv s) (hcalls : s'.calls = s.calls) (hdrained : s'.drained = s.drained) :
    ClosedInv s' :=
  ⟨hcalls ▸ h.calls, by rw [hcalls, hdrained]; exact h.late⟩

theorem closedInv_drain (h : ClosedInv s) (hcalls : s'.calls = s.calls.drain .closed) : ClosedInv s' := by
  refine ⟨hcalls ▸ h.calls.drain, fun _ id i call hmem => ?_⟩
  rw [hcalls] at hmem
  cases hmem

theorem closedInv_invoke {method : String} {params : Option Value} (h : ClosedInv s)
    (hs : step hasHandler s (.invoke method params) = some s') : ClosedInv s' := by
  cases hs
  exact ⟨h.calls.append rfl rfl rfl, fun hdrained => WaitersIn.append (h.late hdrained) h.calls _⟩

/-- A call that moves and does not come to wait. -/
theorem ClosedInv.late_set {i : ℕ} {call : Call AgentConnError} {pending : List (UInt64 × ℕ)} (h : ClosedInv s)
    (hdrained : s.drained = true) (hsub : ∀ id j, (id, j) ∈ pending → j ≠ i → (id, j) ∈ s.calls.pending)
    (hself : ∀ id, (id, i) ∈ pending → call.phase ≠ .waiting id) :
    WaitersIn (fun _ => False) (s.calls.calls.set i call) pending :=
  WaitersIn.set (h.late hdrained) (fun _ hfalse => hfalse) hsub hself

theorem closedInv_call {i : ℕ} (h : ClosedInv s) (hlate : LateSendFails s (.call i))
    (hs : step hasHandler s (.call i) = some s') : ClosedInv s' := by
  obtain ⟨call, hcall, hs⟩ := Option.bind_eq_some_iff.mp hs
  split at hs
  · rename_i hphase
    cases hs
    have hok := h.calls.each i call hcall
    refine ⟨h.calls.update hcall ⟨hok.below, fun id hid => ?_, fun _ => hok.fresh (by rw [hphase]; rfl)⟩ rfl rfl
      fun _ => by rw [hphase]; rfl, fun hdrained => h.late_set hdrained (fun id j hmem _ => hmem) fun id _ => ?_⟩
    · dsimp only at hid
      split_ifs at hid <;> cases hid
    · dsimp only
      split_ifs <;> simp
  · obtain ⟨⟨calls, frame⟩, hstep, rfl⟩ := Option.map_eq_some_iff.mp hs
    obtain ⟨call', hcall', hmove⟩ := Calls.step_move hstep
    obtain rfl := Option.some.inj (hcall.symm.trans hcall')
    refine ⟨callsOk_move h.calls hcall hmove, fun hdrained => ?_⟩
    cases hmove with
    | allocates => exact h.late_set hdrained (fun id j hmem _ => hmem) fun id _ => by simp
    | inserts => exact h.late_set hdrained (fun id j hmem hne => mem_pending_insert hmem hne) fun id _ => by simp
    | @sends id hphase haccepts =>
      refine h.late_set hdrained (fun id j hmem _ => hmem) fun id' hmem => ?_
      -- the sender is in the map after a drain: the send would have failed
      have hid : id' = id := by
        obtain ⟨x, hx, hxid, -⟩ := h.calls.pending id' i hmem
        obtain rfl := Option.some.inj (hcall.symm.trans hx)
        have hcid := (h.calls.each i call hcall).phase id (by rw [hphase]; rfl)
        exact Option.some.inj (hxid.symm.trans hcid)
      subst hid
      rw [hlate call id' hcall hphase hdrained hmem] at haccepts
      cases haccepts
    | refused hphase hnext =>
      refine h.late_set hdrained (fun id j hmem _ => hmem) fun id _ => ?_
      rcases hnext with rfl | rfl <;> simp
    | wakes => exact h.late_set hdrained (fun id j hmem _ => hmem) fun id _ => by simp
    | removes => exact h.late_set hdrained (fun id j hmem _ => (List.mem_filter.mp hmem).1) fun id _ => by simp

theorem closedInv_respond {id : UInt64} {i : ℕ} {result : Except AgentConnError Value} (h : ClosedInv s)
    (hlookup : s.calls.pending.lookup id = some i) (hcalls : s'.calls = s.calls.respond id i result)
    (hdrained : s'.drained = s.drained) : ClosedInv s' := by
  refine ⟨hcalls ▸ h.calls.respond hlookup, fun hset k j call hmem hcall hphase => ?_⟩
  rw [hcalls] at hmem hcall
  rw [hdrained] at hset
  exact (WaitersIn.respond (h.late hset) k j call hmem hcall hphase).1

/-- What the reader does with a frame, as far as the calls go. -/
theorem readFrame_calls (s : State) (value : Value) :
    (readFrame hasHandler s value).drained = s.drained ∧
    ((readFrame hasHandler s value).calls = s.calls ∨
      ∃ id i, responseId value = some id ∧ s.calls.pending.lookup id = some i ∧
        (readFrame hasHandler s value).calls = s.calls.respond id i (gatewayResult value)) := by
  unfold readFrame
  cases hdispatch : dispatchFrame s.calls.pending hasHandler value with
  | resolve id i =>
    obtain ⟨hid, hlookup⟩ := dispatchFrame_resolve hdispatch
    exact ⟨rfl, Or.inr ⟨id, i, hid, hlookup, rfl⟩⟩
  | request id method params => exact ⟨rfl, Or.inl rfl⟩
  | notification method params => exact ⟨rfl, Or.inl rfl⟩
  | badFrame => exact ⟨rfl, Or.inl rfl⟩

theorem closedInv_read (h : ClosedInv s) (hs : step hasHandler s .read = some s') : ClosedInv s' := by
  simp only [step, readStep] at hs
  cases hreader : s.reader with
  | running =>
    simp only [hreader] at hs
    cases hincoming : s.chan.incoming with
    | nil =>
      simp only [hincoming] at hs
      cases hs
    | cons ev incoming =>
      simp only [hincoming] at hs
      have hold : ClosedInv { s with chan := { s.chan with incoming := incoming } } := h.of_eq rfl rfl
      cases ev with
      | message value =>
        cases hs
        obtain ⟨hdrained, hcalls | ⟨id, i, -, hlookup, hcalls⟩⟩ := @readFrame_calls hasHandler _ value
        · exact hold.of_eq hcalls hdrained
        · exact closedInv_respond hold hlookup hcalls hdrained
      | malformedMessage reason =>
        cases hs
        exact h.of_eq rfl rfl
      | disconnected =>
        cases hs
        exact h.of_eq rfl rfl
  | marking =>
    simp only [hreader] at hs
    cases hs
    exact h.of_eq rfl rfl
  | draining =>
    simp only [hreader] at hs
    cases hs
    exact closedInv_drain h rfl
  | done | cancelled =>
    simp only [hreader] at hs
    cases hs

theorem closedInv_closer {k : ℕ} (h : ClosedInv s) (hs : step hasHandler s (.closer k) = some s') : ClosedInv s' := by
  obtain ⟨c, -, hs⟩ := Option.bind_eq_some_iff.mp hs
  cases c with
  | marking | aborting =>
    cases hs
    exact h.of_eq rfl rfl
  | draining =>
    cases hs
    exact closedInv_drain h rfl
  | done => cases hs

theorem closedInv_step {a : Act} (h : ClosedInv s) (hlate : LateSendFails s a) (hs : step hasHandler s a = some s') :
    ClosedInv s' := by
  cases a with
  | invoke method params => exact closedInv_invoke h hs
  | call i => exact closedInv_call h hlate hs
  | notify method params | close | arrive ev =>
    cases hs
    exact h.of_eq rfl rfl
  | closer k => exact closedInv_closer h hs
  | cancelReader | cancelWriter =>
    simp only [step] at hs
    split_ifs at hs
    cases hs
    exact h.of_eq rfl rfl
  | read => exact closedInv_read h hs
  | handled k skills | respond k =>
    obtain ⟨t, -, hs⟩ := Option.bind_eq_some_iff.mp hs
    split at hs
    · cases hs
      exact h.of_eq rfl rfl
    · cases hs
  | writer a =>
    obtain ⟨chan, -, rfl⟩ := Option.map_eq_some_iff.mp hs
    exact h.of_eq rfl rfl

/-- Whatever the interleaving of invocations, closes and the reader's end: when every call that
comes into the map after a drain fails to send, none is left waiting. -/
theorem none_stuck_when_late_sends_fail (hasHandler : Bool) (acts : List Act) (s : State)
    (hrun : run (step hasHandler) init acts = some s) (hlate : RunOk (step hasHandler) LateSendFails init acts) :
    NoneStuck s := by
  have hinit : ClosedInv init := ⟨callsOk_new, fun hset => by cases hset⟩
  have hinv := run_inv ClosedInv (fun _ _ _ h hp hs => closedInv_step h hp hs) hinit hlate hrun
  exact fun _ => hinv.late

/-- `invoke` looks at the flag, the peer hangs up and the reader ends; only then the sender goes
into the map. -/
def lateInvokeRun : List Act :=
  [.invoke "process/read" none, .call 0, .call 0, .arrive .disconnected, .read, .read, .read, .call 0]

/-- The writer notices in time, at another frame. -/
def lateRefusedRun : List Act :=
  lateInvokeRun ++ [.notify "process/output" .nil, .writer .fails, .writer .ends, .call 0]

theorem none_stuck_in_lateRefusedRun :
    ∃ s, run (step true) init lateRefusedRun = some s ∧ RunOk (step true) LateSendFails init lateRefusedRun ∧
      s.closed = true ∧ s.drained = true ∧ s.calls.pending = [(1, 0)] ∧ NoneStuck s := by
  obtain ⟨s, hs, hclosed, hdrained, hpending⟩ : ∃ s, run (step true) init lateRefusedRun = some s ∧
    s.closed = true ∧
      s.drained = true ∧ s.calls.pending = [(1, 0)] := by
    refine ⟨_, rfl, ?_, ?_, ?_⟩
    · rfl
    · rfl
    · rfl
  have hok : RunOk (step true) LateSendFails init lateRefusedRun := by
    refine runOk_cons rfl trivial (runOk_cons rfl ?_ (runOk_cons rfl ?_ (runOk_cons rfl trivial ?_)))
    · exact fun call id hcall hphase => by cases hcall; cases hphase
    · exact fun call id hcall hphase => by cases hcall; cases hphase
    refine runOk_cons rfl trivial (runOk_cons rfl trivial (runOk_cons rfl trivial (runOk_cons rfl ?_ ?_)))
    · exact fun call id hcall hphase => by cases hcall; cases hphase
    refine runOk_cons rfl trivial (runOk_cons rfl trivial (runOk_cons rfl trivial (runOk_cons rfl ?_ trivial)))
    exact fun call id hcall hphase _ _ => rfl
  exact ⟨s, hs, hok, hclosed, hdrained, hpending, none_stuck_when_late_sends_fail true _ s hs hok⟩

theorem invoke_stuck_after_drain : ∃ s, run (step true) init (lateInvokeRun ++ [.call 0]) = some s ∧ ¬ NoneStuck s := by
  refine ⟨_, rfl, fun h => ?_⟩
  exact h rfl rfl 1 0 _ List.mem_cons_self rfl rfl

end Nexal.Link.AgentConn
