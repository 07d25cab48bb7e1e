import Nexal.Sanity.AgentCalls

/-! The agent's own requests when the dispatch loop ends. The pending map belongs to the channel,
which the handler and the filesystem thread keep; nobody drains it. -/

namespace Nexal.Link.AgentChannel

open Runs
open Wire (Value)

def NoneStuck (s : State) : Prop :=
  s.loop = .returned → ∀ id i call, (id, i) ∈ s.calls.pending → s.calls.calls[i]? = some call →
    call.phase ≠ .waiting id

/-- The loop ends when every request that went out has its response, and none goes out later. -/
def AnsweredAtEnd (s : State) : Act → Prop
  | .shutdown => s.unanswered = []
  | .call i => s.loop = .returned → ∀ call id, s.calls.calls[i]? = some call → call.phase = .sending id →
    s.chan.accepts = false
  | _ => True

structure EndInv (s : State) : Prop where
  calls : CallsOk s.calls
  out : ∀ id i call, (id, i) ∈ s.calls.pending → s.calls.calls[i]? = some call → call.phase = .waiting id →
    id ∈ s.unanswered
  answered : s.loop = .returned → s.unanswered = []

variable {s s' : State}

theorem EndInv.of_eq (h : EndInv s) (hcalls : s'.calls = s.calls) (hunanswered : s'.unanswered = s.unanswered)
    (hloop : s'.loop = .returned → s.loop = .returned) : EndInv s' := by
  refine ⟨hcalls ▸ h.calls, ?_, fun hend => hunanswered.trans (h.answered (hloop hend))⟩
  rw [hcalls, hunanswered]
  exact h.out

theorem endInv_request {blocking : Bool} {method : String} {params : Value} (h : EndInv s)
    (hs : step s (.request blocking method params) = some s') : EndInv s' := by
  cases hs
  exact ⟨h.calls.append rfl rfl rfl, WaitersIn.append h.out h.calls _, h.answered⟩

/-- A call that moves and does not come to wait. -/
theorem EndInv.out_set {i : ℕ} {call : Call String} {pending : List (UInt64 × ℕ)} (h : EndInv s)
    (hsub : ∀ id j, (id, j) ∈ pending → j ≠ i → (id, j) ∈ s.calls.pending)
    (hself : ∀ id, call.phase ≠ .waiting id) :
    WaitersIn (· ∈ s.unanswered) (s.calls.calls.set i call) pending :=
  WaitersIn.set h.out (fun _ hmem => hmem) hsub fun id _ hset => absurd hset (hself id)

theorem endInv_call {i : ℕ} (h : EndInv s) (hlate : AnsweredAtEnd s (.call i)) (hs : step s (.call i) = some s') :
    EndInv s' := by
  obtain ⟨⟨calls, frame⟩, hstep, rfl⟩ := Option.map_eq_some_iff.mp hs
  obtain ⟨call, hcall, hmove⟩ := Calls.step_move hstep
  have hok := callsOk_move h.calls hcall hmove
  cases hmove with
  | allocates => exact ⟨hok, h.out_set (fun id j hmem _ => hmem) (by simp), h.answered⟩
  | inserts => exact ⟨hok, h.out_set (fun id j hmem hne => mem_pending_insert hmem hne) (by simp), h.answered⟩
  | @sends id hphase haccepts =>
    have hid : (((some (call.frame id)).bind fun f => (Wire.mapGet f "id").bind asU64).toList ++ s.unanswered) =
        id :: s.unanswered := by
      have hframe : (Wire.mapGet (call.frame id) "id").bind asU64 = some id := frameId_request id _ _
      rw [Option.bind_some, hframe]
      rfl
    refine ⟨hok, ?_, fun hend => ?_⟩
    · dsimp only
      rw [hid]
      refine WaitersIn.set h.out (fun _ hmem => List.mem_cons_of_mem _ hmem) (fun id j hmem _ => hmem) fun id' _ hset => ?_
      cases hset
      exact List.mem_cons_self
    · rw [hlate hend call id hcall hphase] at haccepts
      cases haccepts
  | refused hphase hnext =>
    refine ⟨hok, h.out_set (fun id j hmem _ => hmem) fun id => ?_, h.answered⟩
    rcases hnext with rfl | rfl <;> simp
  | wakes => exact ⟨hok, h.out_set (fun id j hmem _ => hmem) (by simp), h.answered⟩
  | removes => exact ⟨hok, h.out_set (fun id j hmem _ => (List.mem_filter.mp hmem).1) (by simp), h.answered⟩

theorem endInv_respond {id : UInt64} {i : ℕ} {result : Except String Value} (h : EndInv s)
    (hlookup : s.calls.pending.lookup id = some i) (hcalls : s'.calls = s.calls.respond id i result)
    (hunanswered : s'.unanswered = s.unanswered.filter (· ≠ id)) (hloop : s'.loop ≠ .returned) : EndInv s' := by
  refine ⟨hcalls ▸ h.calls.respond hlookup, fun k j call hmem hcall hphase => ?_, fun hend => absurd hend hloop⟩
  rw [hcalls] at hmem hcall
  obtain ⟨hout, hne⟩ := WaitersIn.respond h.out k j call hmem hcall hphase
  rw [hunanswered]
  exact List.mem_filter.mpr ⟨hout, by simpa using hne⟩

theorem endInv_receive (h : EndInv s) (hs : step s .receive = some s') : EndInv s' := by
  simp only [step] at hs
  cases hloop : s.loop with
  | receiving =>
    simp only [hloop, receiveStep] at hs
    cases hincoming : s.chan.incoming with
    | nil =>
      simp only [hincoming] at hs
      cases hs
    | cons ev incoming =>
      simp only [hincoming] at hs
      cases ev with
      | message value =>
        dsimp only at hs
        split at hs
        · rename_i id calls hresolve
          cases hs
          obtain ⟨i, -, hlookup, rfl⟩ := tryResolvePending_some hresolve
          exact endInv_respond h hlookup rfl rfl (by simp)
        · cases hs
          exact h.of_eq rfl rfl fun hend => by cases hend
      | malformedMessage reason =>
        cases hs
        exact h.of_eq rfl rfl fun hend => by cases hend
      | disconnected =>
        cases hs
        exact h.of_eq rfl rfl fun hend => by cases hend
  | handling | responding | leaving | returned =>
    simp only [hloop] at hs
    cases hs

theorem endInv_step {a : Act} (h : EndInv s) (hend : AnsweredAtEnd s a) (hs : step s a = some s') : EndInv s' := by
  cases a with
  | request blocking method params => exact endInv_request h hs
  | call i => exact endInv_call h hend hs
  | event method params | arrive ev =>
    cases hs
    exact h.of_eq rfl rfl fun hset => hset
  | receive => exact endInv_receive h hs
  | handled answer =>
    simp only [step] at hs
    split at hs
    · split at hs <;>
      · cases hs
        exact h.of_eq rfl rfl fun hset => by cases hset
    · cases hs
  | respond =>
    simp only [step] at hs
    split at hs
    · cases hs
      refine h.of_eq rfl rfl fun hset => ?_
      dsimp only at hset
      split_ifs at hset
    · cases hs
  | shutdown =>
    simp only [step] at hs
    split at hs
    · cases hs
      exact ⟨h.calls, h.out, fun _ => hend⟩
    · cases hs
  | writer a =>
    obtain ⟨chan, -, rfl⟩ := Option.map_eq_some_iff.mp hs
    exact h.of_eq rfl rfl fun hset => hset

/-- Whatever the interleaving of requests with the loop and its end: when the loop ends with
every request answered and no send gets through afterwards, nobody is left waiting. -/
theorem none_stuck_when_answered (acts : List Act) (s : State) (hrun : run step init acts = some s)
    (hend : RunOk step AnsweredAtEnd init acts) : NoneStuck s := by
  have hinit : EndInv init :=
    ⟨callsOk_new, fun id i call hmem => absurd hmem List.not_mem_nil, fun _ => rfl⟩
  have hinv := run_inv EndInv (fun _ _ _ h hp hs => endInv_step h hp hs) hinit hend hrun
  intro hreturned id i call hmem hcall hphase
  have hout := hinv.out id i call hmem hcall hphase
  rw [hinv.answered hreturned] at hout
  exact absurd hout List.not_mem_nil

/-- The skills tree is fetched, answered, and then the gateway hangs up. -/
def answeredRun : List Act :=
  [.request false "skills/list" .nil, .call 0, .call 0, .call 0, .arrive (.message (resultFrame (ofU64 1) .nil)),
    .receive, .arrive .disconnected, .receive, .shutdown]

/-- The gateway hangs up while a file is being read. -/
def hangUpRun : List Act :=
  [.request true "skills/read" .nil, .call 0, .call 0, .call 0, .arrive .disconnected, .receive, .shutdown]

theorem none_stuck_in_answeredRun :
    ∃ s, run step init answeredRun = some s ∧ RunOk step AnsweredAtEnd init answeredRun ∧ s.calls.pending = [] ∧
      NoneStuck s := by
  obtain ⟨s, hs, hpending⟩ : ∃ s, run step init answeredRun = some s ∧ s.calls.pending = [] := ⟨_, rfl, rfl⟩
  have hok : RunOk step AnsweredAtEnd init answeredRun := by
    refine runOk_cons rfl trivial (runOk_cons rfl ?_ (runOk_cons rfl ?_ (runOk_cons rfl ?_ ?_)))
    · exact fun hend => by cases hend
    · exact fun hend => by cases hend
    · exact fun hend => by cases hend
    refine runOk_cons rfl trivial (runOk_cons rfl trivial (runOk_cons rfl trivial (runOk_cons rfl trivial ?_)))
    exact runOk_cons rfl rfl trivial
  exact ⟨s, hs, hok, hpending, none_stuck_when_answered _ s hs hok⟩

theorem request_stuck_at_end : ∃ s, run step init hangUpRun = some s ∧ ¬ NoneStuck s := by
  refine ⟨_, rfl, fun h => ?_⟩
  exact h rfl 1 0 _ List.mem_cons_self rfl rfl

end Nexal.Link.AgentChannel
