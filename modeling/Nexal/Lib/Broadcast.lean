import Mathlib.Data.Nat.Notation
import Mathlib.Tactic.SplitIfs

/-! A bounded broadcast channel. All that has been sent is one list, of which the last `capacity` values are
retained; a receiver is its place in that list. One that is behind the oldest value retained is told so once,
and goes on from there. -/

namespace Nexal.Broadcast

variable {α : Type*} {capacity next next' missed : ℕ} {sent : List α} {a : α}

inductive Recv (α : Type*) where
  | empty
  | lagged (missed : ℕ)
  | value (a : α)
deriving DecidableEq

/-- The place of the oldest value retained. -/
def oldest (capacity : ℕ) (sent : List α) : ℕ := sent.length - capacity

/-- What a receiver gets, and its next place. -/
def recv (capacity : ℕ) (sent : List α) (next : ℕ) : Recv α × ℕ :=
  if next < oldest capacity sent then (.lagged (oldest capacity sent - next), oldest capacity sent)
  else
    match sent[next]? with
    | some a => (.value a, next + 1)
    | none => (.empty, next)

theorem recv_lagged (h : recv capacity sent next = (.lagged missed, next')) :
    next + missed = oldest capacity sent ∧ 0 < missed ∧ next' = oldest capacity sent := by
  unfold recv at h
  split_ifs at h with hlt
  · cases h
    refine ⟨?_, ?_, rfl⟩
    · omega
    · omega
  · split at h <;> cases h

theorem recv_value (h : recv capacity sent next = (.value a, next')) :
    oldest capacity sent ≤ next ∧ sent[next]? = some a ∧ next' = next + 1 := by
  unfold recv at h
  split_ifs at h with hlt
  · cases h
  · split at h
    · rename_i b hb
      cases h
      exact ⟨Nat.le_of_not_lt hlt, hb, rfl⟩
    · cases h

end Nexal.Broadcast
