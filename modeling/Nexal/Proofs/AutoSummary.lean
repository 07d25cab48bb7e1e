import Mathlib.Logic.Relation
import Nexal.Proofs.TapeRecord
import Nexal.Proofs.TapeStore
import Nexal.Sanity.AutoSummary
import Nexal.Sanity.TapeEntry

/-! Automatic summaries do not feed on themselves. Whatever is appended while a summary is made finds the flag up, so
that the cascade of an append ends with the record of its summary and what the managers append on the way. -/

namespace Nexal.AutoSummary

open Tape Relation

variable {cfg : Config} {s s' : State} {e : Event} {es : List Event} {i j : ℕ} {c d : Call} {phase : Phase}

/-- The append `j` is part of the summary that the append `i` has set off. -/
def Caused (s : State) (i j : ℕ) : Prop := causeOf s j = some i

def nested (s : State) (i : ℕ) : ℕ := s.calls.countP fun c => c.cause = some i

structure NoFeedback (es : List Event) (s : State) : Prop where
  once : ∀ c ∈ s.calls, c.updates ≤ 1
  summary : ∀ c ∈ s.calls, (∀ draft ∈ c.drafts, isSummary draft = true) → c.updates = 0
  /-- nor does any append within an update set one off, so that the cascade has one level -/
  inner : ∀ c ∈ s.calls, c.cause ≠ none → c.updates = 0
  direct : ∀ i j, TransGen (Caused s) i j → Caused s i j
  /-- one record, and what the managers append -/
  cascade : ∀ i, nested s i ≤ 1 + es.countP fun e => managed e = some i

/-! How much a summary appends -/

def Past (s : State) (i : ℕ) : Bool :=
  match phaseOf s i with
  | some (.updating u) => u.past
  | some phase => phase.ended
  | none => false

/-- What is nested and the record still to come. -/
def pending (s : State) (i : ℕ) : ℕ := nested s i + if Past s i then 0 else 1

theorem pending_le (hnested : nested s' i = nested s i) (hpast : Past s i = true → Past s' i = true) :
    pending s' i ≤ pending s i := by
  rw [pending, pending, hnested]
  split_ifs with h h'
  · exact Nat.le_refl _
  · exact Nat.le_add_right _ _
  · exact absurd (hpast ‹_›) h
  · exact Nat.le_refl _

theorem Changed.past (h : Changed s s' i phase) (hpast : Past s i = true → Past s' i = true) (j : ℕ) :
    Past s j = true → Past s' j = true := by
  by_cases hj : j = i
  · exact hj ▸ hpast
  · rw [Past, Past, h.phaseOf, if_neg hj]
    exact id

theorem past_updating {u : UpdatePhase} (h : phaseOf s i = some (.updating u)) : Past s i = u.past := by
  rw [Past, h]

theorem past_ended (h : phaseOf s i = some phase) (hended : phase.ended = true) : Past s i = true := by
  rw [Past, h]
  cases phase with
  | returned | rejected => rfl
  | storing | stored | viewing | updating => cases hended

theorem Goes.past (h : Goes s i c phase) (hc : s.calls[i]? = some c) (hphase' : phaseOf s' i = some phase) :
    Past s i = true → Past s' i = true := by
  have hnot (hphase : c.phase.ended = false) (hu : ∀ u, c.phase ≠ .updating u) : Past s i = false := by
    rw [Past, phaseOf_of_get hc]
    split
    · rename_i u hu'
      exact absurd (Option.some.inj hu') (hu u)
    · rename_i p _ hp
      rw [← Option.some.inj hp, hphase]
    · rfl
  cases h with
  | stored hphase _ | storeFailed hphase | ignored hphase | counted hphase _ | viewed hphase _ =>
    rw [hnot (by rw [hphase]; rfl) (by simp [hphase])]
    exact fun hfalse => absurd hfalse Bool.false_ne_true
  | update hphase _ hpast =>
    rw [past_updating ((phaseOf_of_get hc).trans (congrArg some hphase)), past_updating hphase']
    exact hpast

theorem Changed.nested (h : Changed s s' j phase) (i : ℕ) : nested s' i = AutoSummary.nested s i := by
  have hcount (l : List Call) : l.countP (fun c => c.cause = some i) = (l.map (·.cause)).countP (· = some i) := by
    rw [List.countP_map]
    rfl
  rw [AutoSummary.nested, hcount, h.causes, ← hcount, AutoSummary.nested]

theorem nested_push {tape : TapeObject} {cause : Option ℕ} {drafts : List TapeEntryDraft} :
    nested (push s tape cause drafts) i = nested s i + if cause = some i then 1 else 0 := by
  rw [nested, push, List.countP_append, List.countP_singleton, nested]
  simp

theorem past_push {tape : TapeObject} {cause : Option ℕ} {drafts : List TapeEntryDraft} :
    Past (push s tape cause drafts) i = Past s i := by
  rw [Past, phaseOf_push, Past]
  split_ifs with hi
  · rw [hi, phaseOf, List.getElem?_eq_none (Nat.le_refl _)]
    rfl
  · rfl

theorem pending_move {cause : Option ℕ} (h : Move s cause s') :
    pending s' i ≤ pending s i + if cause = some i then 1 else 0 := by
  cases h with
  | push hcause =>
    rw [pending, pending, nested_push, past_push]
    omega
  | @go k n c phase hc hgo =>
    have hchanged : Changed s { setPhase s k phase with appendedSinceSummary := n } k phase := changed_setPhase hc rfl
    refine pending_le (hchanged.nested i) (hchanged.past (hgo.past hc ?_) i)
    rw [hchanged.phaseOf, if_pos rfl]
  | @start k c appended hc hphase _ =>
    have hchanged := changed_startUpdate hc
    refine pending_le (hchanged.nested i) (hchanged.past (fun hpast => ?_) i)
    rw [Past, phaseOf_of_get hc, hphase] at hpast
    cases hpast
  | @record k c summary options draft hc hphase =>
    have hchanged : Changed s (setPhase s k (.updating (.recording s.calls.length))) k
      (.updating (.recording s.calls.length)) :=
      changed_setPhase hc rfl
    rw [pending, nested_push, past_push, hchanged.nested i, pending]
    by_cases hk : k = i
    · subst hk
      have hbefore : Past s k = false := past_updating ((phaseOf_of_get hc).trans (congrArg some hphase))
      have hafter : Past (setPhase s k (.updating (.recording s.calls.length))) k = true :=
        past_updating (by rw [hchanged.phaseOf, if_pos rfl])
      rw [hbefore, hafter]
      simp
    · have hsame : Past (setPhase s k (.updating (.recording s.calls.length))) i = Past s i := by
        rw [Past, hchanged.phaseOf, if_neg (Ne.symm hk), Past]
      rw [hsame, if_neg fun heq => hk (Option.some.inj heq)]
      omega
  | @finish k n c u phase hc hphase hidle hended =>
    have hchanged : Changed s { setPhase s k phase with appendedSinceSummary := n, running := false } k phase :=
      changed_setPhase hc rfl
    refine pending_le (hchanged.nested i) (hchanged.past (fun _ => past_ended ?_ hended) i)
    rw [hchanged.phaseOf, if_pos rfl]

theorem nested_le (h : Runs.run (step cfg) init es = some s) (i : ℕ) :
    nested s i ≤ 1 + es.countP fun e => managed e = some i := by
  have hle := Runs.run_le (fun _ => True) (fun s => pending s i) (fun e => if managed e = some i then 1 else 0)
    (fun _ _ _ _ _ => trivial) (fun s e s' _ _ hs => pending_move (step_cases hs)) trivial
    (Runs.runOk_of_forall (P := fun _ _ => True) (fun _ _ => trivial) init es) h
  rw [Lists.sum_map_ite, pending] at hle
  exact (Nat.le_add_right _ _).trans hle

/-! The cascade -/

theorem Inv.caused_trans (h : Inv s) (hij : TransGen (Caused s) i j) : Caused s i j := by
  induction hij with
  | single hij => exact hij
  | tail hij hjk ih =>
    have hnone := (h.direct _ _ hjk).2
    rw [Caused, hnone] at ih
    cases ih

theorem no_feedback (h : Runs.run (step cfg) init es = some s) : NoFeedback es s := by
  have hinv : Inv s := Runs.run_inv_all Inv (fun s e s' hi hs => hi.step hs) init_inv h
  refine ⟨fun c hc => (hinv.call c hc).bounds.1, fun c hc => (hinv.call c hc).bounds.2.1,
    fun c hc => (hinv.call c hc).bounds.2.2,
    fun i j => hinv.caused_trans, nested_le h⟩

/-! The Postgres store -/

def postgresStorage (rt : JsRuntime) (opts : TapeStoreOptions) : Storage where
  persist now draft := stored rt opts (normalizeTapeEntryDraft rt now draft)
  keepsSummary := fun now draft h => by
    have hkind : draft.kind = .event := of_decide_eq_true (Bool.and_eq_true_iff.mp h).1
    have hnormal : normalizeTapeEntryDraft rt now draft = draft := by rw [normalizeTapeEntryDraft, hkind]
    rw [hnormal, stored, prepareEntry]
    split
    · exact h
    · unfold offloadLargeBlobs
      split
      · dsimp only
        split_ifs
        · have hname (content : Json) : Record.get (Record.set draft.payload "content" content) "name" =
              Record.get draft.payload "name" := Record.get_set_of_ne _ _ (by decide)
          dsimp only
          rw [isSummary, isEvent] at h ⊢
          simp only [TapeEntryDraft.withId, hname] at h ⊢
          exact h
        · exact h
      · exact h

/-! A run: an append whose summary is made with an append by the manager -/

def eager : Config where
  options := ⟨some (.finite 1), none, none, none, none⟩
  storage := postgresStorage zeroBytesRuntime ⟨none, 8192⟩
  rt := zeroBytesRuntime
  nt := JsonText.digits
  locale := byCodePoint

def managedTape : TapeObject := ⟨true, .ignore⟩

def note (n : ℕ) : TapeEntryDraft := ⟨.event, [("name", .str "note"), ("data", .num n)], [], ""⟩

def eagerRun : List Event :=
  [.append managedTape none [note 0], .stored 0 0 1, .emitted 0, .viewed 0 [(note 0).withId 1], .update 0 .viewed,
    .update 0 .loaded,
    .update 0 (.selected [(note 0).withId 1]), .update 0 .contextLoaded,
    .append managedTape (some 0) [note 1], .stored 1 0 2, .emitted 1, .viewed 1 [(note 0).withId 1, (note 1).withId 2],
    .update 0 (.summarized (some ⟨.text "s", none, none, none⟩)), .update 0 (.compared [] ""),
    .stored 2 0 3, .emitted 2, .update 0 .appended, .update 0 .summaryRecorded, .update 0 .summaryUpdated]

theorem eagerRun_once : ∃ s, Runs.run (step eager) init eagerRun = some s ∧ s.calls.map (·.updates) = [1, 0, 0] ∧
    NoFeedback eagerRun s := by
  have hupdates : (Runs.run (step eager) init eagerRun).map (fun s => s.calls.map (·.updates)) = some [1, 0, 0] := by
    decide +kernel
  obtain ⟨s, hs, hupdates⟩ := Option.map_eq_some_iff.mp hupdates
  exact ⟨s, hs, hupdates, no_feedback hs⟩

end Nexal.AutoSummary
