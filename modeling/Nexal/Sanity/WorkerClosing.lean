import Nexal.Sanity.WorkerSuspend

/-! How the tasks of a worker are built: what they do after a terminal status is written, and before. -/

namespace Nexal.Workers

variable {w w' : World} {t : Task} {op : Op} {ops : List Op}

/-! Calls -/

def Op.writes : Op → Option WorkerStatus
  | .store u | .storeQuietly u => u.status
  | _ => none

def Op.terminates (op : Op) : Bool := op.writes.any WorkerStatus.isTerminal

/-- Leads to a status that is not terminal. -/
def Op.revives (op : Op) : Bool := op.acts || op.writes.any fun status => !status.isTerminal

def Op.disposes : Op → Bool
  | .dispose _ => true
  | _ => false

/-- Lets go of the container without its release. -/
def Op.detaches : Op → Bool
  | .dispose release => !release
  | .detachAgent => true
  | _ => false

def Op.acquires : Op → Bool
  | .acquireAgent => true
  | _ => false

/-! Tasks -/

def Restful (ops : List Op) : Prop := ∀ op ∈ ops, op.revives = false

/-- The runner is disposed of, come what may. -/
def closes : List Op → Bool
  | [] | .onTerminal :: _ => false
  | op :: ops => op.disposes || (!op.throws && closes ops)

/-- When a terminal status is written, the runner is disposed of and nothing else follows. -/
def sealed : List Op → Bool
  | [] => true
  | op :: ops => (!op.terminates || (ops.all (fun op => !op.revives) && closes ops)) && sealed ops

/-- No runner is disposed of before a terminal status is written. -/
def locked : List Op → Bool
  | [] => true
  | op :: ops => (op.terminates && op.throws) || (!op.disposes && locked ops)

/-- A task that has no container before it. -/
structure Tidy (ops : List Op) : Prop where
  sealed : sealed ops = true
  keeps : ∀ op ∈ ops, op.detaches = false ∧ op.acquires = false

theorem Restful.head (h : Restful (op :: ops)) : op.revives = false := h op List.mem_cons_self

theorem Restful.tail (h : Restful (op :: ops)) : Restful ops := fun op' hop' => h op' (List.mem_cons_of_mem op hop')

theorem Restful.cons (hop : op.revives = false) (h : Restful ops) :
    Restful (op :: ops) := List.forall_mem_cons.mpr ⟨hop, h⟩

theorem Restful.ending (h : Restful ops) : Ending ops := fun op hop => (Bool.or_eq_false_iff.mp (h op hop)).1

theorem restful_of_all (h : ops.all (fun op => !op.revives) = true) : Restful ops := by
  intro op hop
  exact Bool.not_eq_true' .. ▸ List.all_eq_true.mp h op hop

theorem restful_onError (job : Job) (error : String) : Restful (job.onError error) := by
  cases job with
  | _ => exact restful_of_all rfl

theorem settle_restful (w : World) (t : Task) (h : Restful ops) : Restful (settle w t ops).2 := by
  fun_induction settle
  case case2 | case3 | case4 | case5 | case6 | case7 => cases h.head
  case case9 ih | case10 ih => exact ih h.tail
  case case8 =>
    refine .cons rfl ?_
    split_ifs
    · exact .cons rfl h.tail
    · exact h.tail
  case case11 release _ _ =>
    refine .cons rfl (.cons ?_ h.tail)
    cases release with
    | false => rfl
    | true => rfl
  case case1 | case12 => exact List.forall_mem_nil _
  case case13 => exact h

theorem closes_tail (h : closes (op :: ops) = true) (hop : op.disposes = false) :
    op.throws = false ∧ closes ops = true := by
  unfold closes at h
  split at h
  · cases h
  · cases h
  · rename_i heq
    obtain ⟨rfl, rfl⟩ := List.cons.inj heq
    rwa [hop, Bool.false_or, Bool.and_eq_true, Bool.not_eq_true'] at h

theorem disposed_settle {x y : Runner} (hx : (settle w t ops).1.runners[t.runner]? = some x)
    (hy : w.runners[t.runner]? = some y)
    (hdisposed : y.disposed = true) : x.disposed = true := by
  obtain ⟨f, hf, hrunners⟩ := (settle_settles w t ops).runners
  obtain ⟨y', hy', hlater, -⟩ := runner_modify_cases hf (hrunners ▸ hx)
  cases hy.symm.trans hy'
  exact hlater.disposed hdisposed

/-- A task that disposes of its runner goes on: it has done so then, or it still will. -/
theorem settle_closes {x : Runner} (hrestful : Restful ops) (h : closes ops = true)
    (hx : (settle w t ops).1.runners[t.runner]? = some x) : x.disposed = true ∨ closes (settle w t ops).2 = true := by
  fun_induction settle
  case case2 | case3 | case4 | case5 | case6 | case7 => cases hrestful.head
  case case9 ih => exact ih hrestful.tail (closes_tail h rfl).2 hx
  case case8 =>
    refine Or.inr ?_
    split_ifs
    · exact (closes_tail h rfl).2
    · exact (closes_tail h rfl).2
  case case10 hdisposed ih =>
    obtain ⟨y, hy, hy'⟩ := (Option.any_eq_true _ _).mp hdisposed
    exact Or.inl (disposed_settle hx hy hy')
  case case11 =>
    obtain ⟨y, -, rfl⟩ := Option.map_eq_some_iff.mp ((List.getElem?_modify ..).symm.trans hx)
    rw [if_pos rfl]
    exact Or.inl rfl
  case case1 | case12 => cases h
  case case13 => exact Or.inr h

/-! Before a terminal status, and after -/

theorem sealed_tail (h : sealed (op :: ops) = true) : sealed ops = true := (Bool.and_eq_true_iff.mp h).2

theorem sealed_head (h : sealed (op :: ops) = true) (hop : op.terminates = true) : Restful ops ∧ closes ops = true := by
  have hhead := (Bool.and_eq_true_iff.mp h).1
  rw [hop, Bool.not_true, Bool.false_or, Bool.and_eq_true] at hhead
  exact ⟨restful_of_all hhead.1, hhead.2⟩

theorem sealed_cons (hop : op.terminates = false) (h : sealed ops = true) : sealed (op :: ops) = true := by
  rw [sealed, hop, h]
  rfl

theorem Tidy.tail (h : Tidy (op :: ops)) : Tidy ops :=
  ⟨sealed_tail h.sealed, fun op' hop' => h.keeps op' (List.mem_cons_of_mem op hop')⟩

theorem Tidy.cons (hterminates : op.terminates = false) (hdetaches : op.detaches = false) (hacquires : op.acquires = false)
    (h : Tidy ops) : Tidy (op :: ops) :=
  ⟨sealed_cons hterminates h.sealed, List.forall_mem_cons.mpr ⟨⟨hdetaches, hacquires⟩, h.keeps⟩⟩

theorem tidy_nil : Tidy [] := ⟨rfl, List.forall_mem_nil _⟩

theorem tidy_of_all (hsealed : sealed ops = true) (hkeeps : ops.all (fun op => !op.detaches && !op.acquires) = true) :
    Tidy ops := by
  refine ⟨hsealed, fun op hop => ?_⟩
  have hop := List.all_eq_true.mp hkeeps op hop
  rwa [Bool.and_eq_true, Bool.not_eq_true', Bool.not_eq_true'] at hop

theorem tidy_onError (job : Job) (error : String) : Tidy (job.onError error) := by
  cases job with
  | _ => exact tidy_of_all rfl rfl

theorem tidy_cancel (reason : String) : Tidy (Runner.cancel reason) := tidy_of_all rfl rfl

theorem tidy_route (r : Runner) : Tidy r.route := by
  unfold Runner.route
  split_ifs
  · exact tidy_of_all rfl rfl
  · exact tidy_of_all rfl rfl

theorem tidy_agentEnd (r : Runner) (errorMessage : Option String) (messages : List Message) :
    Tidy (r.agentEnd errorMessage messages) := by
  unfold Runner.agentEnd
  split
  · split_ifs
    · exact tidy_of_all rfl rfl
    · exact tidy_of_all rfl rfl
  · split_ifs
    · exact tidy_of_all rfl rfl
    · exact tidy_of_all rfl rfl
    · exact tidy_of_all rfl rfl
    · exact tidy_of_all rfl rfl

theorem tidy_prompt (w : World) (t : Task) : Tidy (prompt w t).2 := by
  unfold prompt
  split_ifs
  · exact tidy_onError _ _
  · exact tidy_nil

theorem settle_tidy (w : World) (t : Task) (h : Tidy ops) : Tidy (settle w t ops).2 := by
  fun_induction settle
  case case2 ih | case9 ih | case10 ih => exact ih h.tail
  case case3 | case7 => exact tidy_prompt _ t
  case case4 => exact .cons rfl rfl rfl (.cons rfl rfl rfl h.tail)
  case case6 => exact .cons rfl rfl rfl (.cons rfl rfl rfl (.cons rfl rfl rfl h.tail))
  case case8 =>
    refine .cons rfl rfl rfl ?_
    split_ifs
    · exact .cons rfl rfl rfl h.tail
    · exact h.tail
  case case11 release _ _ =>
    refine .cons rfl rfl rfl ?_
    cases release with
    | false => cases (h.keeps _ List.mem_cons_self).1
    | true => exact .cons rfl rfl rfl h.tail
  case case1 | case5 | case12 => exact tidy_nil
  case case13 => exact h

theorem Answered.tidy {reply : Reply} {out : Except String (List Op)} (ha : Answered w t op reply w' out) (h : Tidy ops) :
    Tidy (t.next ops out) := by
  cases ha with
  | tape => exact .cons rfl rfl rfl h
  | loaded =>
    exact .cons rfl rfl rfl (.cons rfl rfl rfl (.cons rfl rfl rfl (.cons rfl rfl rfl (.cons rfl rfl rfl h))))
  | threw => exact tidy_onError _ _
  | _ => exact h

/-! Runners that are disposed of -/

theorem prompt_isDisposed (w : World) (t : Task) (j : ℕ) : (prompt w t).1.isDisposed j = w.isDisposed j := by
  unfold prompt
  split_ifs
  · rfl
  · exact isDisposed_modifyRunner w t.runner (f := Runner.mapAgent Agent.prompted) (fun _ => rfl) j

theorem newAgent_isDisposed (w : World) (t : Task) (messages : List Message) (j : ℕ) :
    ((w.modifyRunner t.runner (Runner.newAgent messages)).did (.created t.id)).isDisposed j = w.isDisposed j :=
  isDisposed_modifyRunner w t.runner (f := Runner.newAgent messages) (fun _ => rfl) j

/-- Nobody is disposed of, unless the container is to be released next. -/
theorem settle_release (w : World) (t : Task) (h : ∀ op ∈ ops, op.detaches = false) :
    (∃ rest, (settle w t ops).2 = .closeClient :: .releaseAgent :: rest) ∨
      ∀ j, (settle w t ops).1.isDisposed j = w.isDisposed j := by
  fun_induction settle
  case case2 ih =>
    refine (ih (List.forall_mem_cons.mp h).2).imp_right fun hsame j => ?_
    rw [hsame, newAgent_isDisposed]
  case case9 ih | case10 ih => exact ih (List.forall_mem_cons.mp h).2
  case case3 | case7 => exact Or.inr (prompt_isDisposed _ t)
  case case11 release _ _ =>
    cases release with
    | false => cases (List.forall_mem_cons.mp h).1
    | true => exact Or.inl ⟨_, rfl⟩
  case case1 | case4 | case5 | case6 | case8 | case12 | case13 => exact Or.inr fun _ => rfl

theorem locked_tail (h : locked (op :: ops) = true) (hop : (op.terminates && op.throws) = false) :
    op.disposes = false ∧ locked ops = true := by
  rwa [locked, hop, Bool.false_or, Bool.and_eq_true, Bool.not_eq_true'] at h

theorem locked_cons (hop : op.disposes = false) (h : locked ops = true) : locked (op :: ops) = true := by
  rw [locked, hop, h, Bool.not_false, Bool.true_and, Bool.or_true]

theorem onError_of_ne {job : Job} (hjob : job ≠ .start) (error : String) : job.onError error = [] := by
  cases job with
  | start => exact absurd rfl hjob
  | _ => rfl

theorem prompt_locked (w : World) (hjob : t.job ≠ .start) : locked (prompt w t).2 = true := by
  unfold prompt
  split_ifs
  · rw [onError_of_ne hjob]
    rfl
  · rfl

theorem settle_locked (w : World) (t : Task) (hjob : t.job ≠ .start) (h : locked ops = true) :
    locked (settle w t ops).2 = true ∧
    ∀ j, (settle w t ops).1.isDisposed j = w.isDisposed j := by
  fun_induction settle
  case case2 ih =>
    obtain ⟨hlocked, hsame⟩ := ih (locked_tail h rfl).2
    exact ⟨hlocked, fun j => by rw [hsame, newAgent_isDisposed]⟩
  case case3 | case7 => exact ⟨prompt_locked _ hjob, prompt_isDisposed _ t⟩
  case case4 => exact ⟨locked_cons rfl (locked_cons rfl (locked_tail h rfl).2), fun _ => rfl⟩
  case case6 => exact ⟨locked_cons rfl (locked_cons rfl (locked_cons rfl (locked_tail h rfl).2)), fun _ => rfl⟩
  case case8 =>
    refine ⟨locked_cons rfl ?_, fun _ => rfl⟩
    split_ifs
    · exact locked_cons rfl (locked_tail h rfl).2
    · exact (locked_tail h rfl).2
  case case9 ih => exact ih (locked_tail h rfl).2
  case case10 | case11 => cases (locked_tail h rfl).1
  case case1 | case5 | case12 => exact ⟨rfl, fun _ => rfl⟩
  case case13 => exact ⟨h, fun _ => rfl⟩

theorem Answered.locked {reply : Reply} {out : Except String (List Op)} (ha : Answered w t op reply w' out)
    (hjob : t.job ≠ .start)
    (h : Workers.locked (op :: ops) = true) (hwrites : ¬ (op.terminates = true ∧ reply = .done)) :
    Workers.locked (t.next ops out) = true := by
  cases ha with
  | tape => exact locked_cons rfl (locked_tail h rfl).2
  | loaded =>
    exact locked_cons rfl (locked_cons rfl (locked_cons rfl (locked_cons rfl (locked_cons rfl (locked_tail h rfl).2))))
  | wrote u =>
    have hterminates : (Op.store u).terminates = false :=
      Bool.eq_false_iff.mpr fun hterminates => hwrites ⟨hterminates, rfl⟩
    refine (locked_tail h ?_).2
    rw [hterminates, Bool.false_and]
  | wroteQuietly | notWritten => exact (locked_tail h (Bool.and_false _)).2
  | threw op error =>
    rw [Task.next, onError_of_ne hjob]
    rfl
  | nothing op reply hquiet =>
    have hwrites : (op.terminates && op.throws) = false := by
      cases op with
      | store | storeQuietly => cases hquiet
      | _ => rfl
    exact (locked_tail h hwrites).2
  | acquired | idle | released | notAttached | notReleased | detached => exact (locked_tail h rfl).2

theorem locked_agentEnd (r : Runner) (errorMessage : Option String) (messages : List Message) :
    locked (r.agentEnd errorMessage messages) = true := by
  unfold Runner.agentEnd
  split
  · split_ifs
    · rfl
    · rfl
  · split_ifs
    · rfl
    · rfl
    · rfl
    · rfl

theorem locked_route (r : Runner) : locked r.route = true := by
  unfold Runner.route
  split_ifs
  · rfl
  · rfl

end Nexal.Workers
