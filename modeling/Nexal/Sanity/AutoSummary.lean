import Nexal.Lib.Lists
import Nexal.Lib.Runs
import Nexal.Spec.AutoSummary

/-! What a step of the automatic summaries can do. While a call updates the summary the flag is up, no other call
does, and the appends awaited within it end before it goes on. -/

namespace Nexal.AutoSummary

open Tape

variable {cfg : Config} {s s' : State} {e : Event} {i j : ℕ} {c d : Call} {phase : Phase} {u u' : UpdatePhase}

/-! Moves -/

/-- Nothing is awaited within the call but what has ended. -/
def Idle (s : State) (i : ℕ) : UpdatePhase → Prop
  | .selecting | .summarizing _ => Settled s i = true
  | .recording child => ∃ phase, phaseOf s child = some phase ∧ phase.ended = true
  | _ => True

def UpdatePhase.past : UpdatePhase → Bool
  | .recording _ | .summaryRecorded | .summaryUpdated _ => true
  | _ => false

inductive Goes (s : State) (i : ℕ) (c : Call) : Phase → Prop
  | stored {entries : List TapeEntry} (hphase : c.phase = .storing)
    (h : (∀ draft ∈ c.drafts, isSummary draft = true) →
      ∀ entry ∈ entries, isEvent TapeEvent.System.summary entry = true) :
    Goes s i c (.stored entries)
  | storeFailed (hphase : c.phase = .storing) : Goes s i c .rejected
  | ignored {entries : List TapeEntry} (hphase : c.phase = .stored entries) : Goes s i c .returned
  | counted {entries appended : List TapeEntry} (hphase : c.phase = .stored entries)
    (h : ∃ entry ∈ entries, isEvent TapeEvent.System.summary entry = false) : Goes s i c (.viewing appended)
  | viewed {appended : List TapeEntry} {phase : Phase} (hphase : c.phase = .viewing appended) (h : phase.ended = true) :
    Goes s i c phase
  | update {u u' : UpdatePhase} (hphase : c.phase = .updating u) (hidle : Idle s i u) (hpast : u.past = true →
    u'.past = true) :
    Goes s i c (.updating u')

inductive Move (s : State) : Option ℕ → State → Prop
  | push {tape : TapeObject} {cause : Option ℕ} {drafts : List TapeEntryDraft}
    (hcause : ∀ i, cause = some i → External s i = true) : Move s cause (push s tape cause drafts)
  | go {i n : ℕ} {c : Call} {phase : Phase} (hc : s.calls[i]? = some c) (h : Goes s i c phase) :
    Move s none { setPhase s i phase with appendedSinceSummary := n }
  | start {i : ℕ} {c : Call} {appended : List TapeEntry} (hc : s.calls[i]? = some c) (hphase : c.phase = .viewing appended)
    (hidle : s.running = false) : Move s none (startUpdate s i c.tape)
  | record {i : ℕ} {c : Call} {summary : Summary} {options : TapeSummaryOptions} {draft : TapeEntryDraft}
    (hc : s.calls[i]? = some c) (hphase : c.phase = .updating (.comparing summary options)) :
    Move s none (AutoSummary.push (setPhase s i (.updating (.recording s.calls.length))) c.tape (some i) [draft])
  | finish {i n : ℕ} {c : Call} {u : UpdatePhase}
    {phase : Phase} (hc : s.calls[i]? = some c) (hphase : c.phase = .updating u)
    (hidle : Idle s i u) (h : phase.ended = true) :
    Move s none { setPhase s i phase with appendedSinceSummary := n, running := false }

theorem hookThrew_ended (tape : TapeObject) : (hookThrew tape).ended = true := by
  unfold hookThrew
  split <;> rfl

theorem move_finishThrew (hc : s.calls[i]? = some c) (hphase : c.phase = .updating u) (hidle : Idle s i u) :
    Move s none (finishThrew s i c.tape) :=
  .finish hc hphase hidle (hookThrew_ended c.tape)

theorem move_update (hc : s.calls[i]? = some c) (hphase : c.phase = .updating u) (hidle : Idle s i u)
    (hpast : u.past = true → u'.past = true) : Move s none (setPhase s i (.updating u')) :=
  .go (n := s.appendedSinceSummary) hc (.update hphase hidle hpast)

theorem updateStep_cases (hc : s.calls[i]? = some c) (hphase : c.phase = .updating u) {event : UpdateEvent}
    (h : updateStep cfg s i c.tape u event = some s') : Move s none s' := by
  cases u with
  | viewing =>
    dsimp only [updateStep] at h
    split at h
    · exact Option.some.inj h ▸ move_update hc hphase trivial (by simp [UpdatePhase.past])
    · exact Option.some.inj h ▸ move_finishThrew hc hphase trivial
    · cases h
  | loading =>
    dsimp only [updateStep] at h
    split at h
    · exact Option.some.inj h ▸ move_update hc hphase trivial (by simp [UpdatePhase.past])
    · exact Option.some.inj h ▸ move_finishThrew hc hphase trivial
    · cases h
  | selecting =>
    dsimp only [updateStep] at h
    split_ifs at h with hsettled
    split at h
    · exact Option.some.inj h ▸ move_update hc hphase hsettled (by simp [UpdatePhase.past])
    · exact Option.some.inj h ▸ move_finishThrew hc hphase hsettled
    · cases h
  | contextLoaded range =>
    dsimp only [updateStep] at h
    split at h
    · exact Option.some.inj h ▸ move_update hc hphase trivial (by simp [UpdatePhase.past])
    · cases h
  | summarizing range =>
    dsimp only [updateStep] at h
    split_ifs at h with hsettled
    split at h
    · exact Option.some.inj h ▸ move_update hc hphase hsettled (by simp [UpdatePhase.past])
    · exact Option.some.inj h ▸ move_update hc hphase hsettled (by simp [UpdatePhase.past])
    · exact Option.some.inj h ▸ move_finishThrew hc hphase hsettled
    · cases h
  | comparing summary options =>
    dsimp only [updateStep] at h
    split at h
    · split at h
      · exact Option.some.inj h ▸ move_update hc hphase trivial (by simp [UpdatePhase.past])
      · exact Option.some.inj h ▸ .record hc hphase
    · exact Option.some.inj h ▸ move_finishThrew hc hphase trivial
    · cases h
  | recording child =>
    dsimp only [updateStep] at h
    split at h
    · rename_i hchild
      exact Option.some.inj h ▸ move_update hc hphase ⟨_, hchild, rfl⟩ (by simp [UpdatePhase.past])
    · rename_i hchild
      exact Option.some.inj h ▸ move_finishThrew hc hphase ⟨_, hchild, rfl⟩
    · cases h
  | summaryRecorded =>
    dsimp only [updateStep] at h
    split at h
    · exact Option.some.inj h ▸ move_update hc hphase trivial (by simp [UpdatePhase.past])
    · cases h
  | summaryUpdated recorded =>
    dsimp only [updateStep] at h
    split at h
    · exact Option.some.inj h ▸ .finish hc hphase trivial rfl
    · cases h

theorem isSummary_withId (draft : TapeEntryDraft) (id : ℕ) :
    isEvent TapeEvent.System.summary (draft.withId id) = isSummary draft := rfl

theorem move_onAppend {entries : List TapeEntry} (hc : s.calls[i]? = some c) (hphase : c.phase = .stored entries) :
    Move s none (onAppend s i entries) := by
  unfold onAppend
  dsimp only
  split_ifs with hnone
  · exact .go (n := s.appendedSinceSummary) hc (.ignored hphase)
  · refine .go hc (.counted hphase ?_)
    rw [List.length_eq_zero_iff, List.filter_eq_nil_iff] at hnone
    simpa using hnone

theorem move_onViewed {appended entries : List TapeEntry} (hc : s.calls[i]? = some c)
    (hphase : c.phase = .viewing appended) :
    Move s none (onViewed cfg s i c.tape appended entries) := by
  have hback {phase : Phase} (h : phase.ended = true) : Move s none (setPhase s i phase) :=
    .go (n := s.appendedSinceSummary) hc (.viewed hphase h)
  unfold onViewed
  split_ifs with _ _ hrunning
  · exact hback rfl
  · exact hback rfl
  · split
    · exact hback (hookThrew_ended c.tape)
    · exact hback rfl
    · exact hback rfl
  · split
    · exact hback (hookThrew_ended c.tape)
    · exact hback rfl
    · exact .start hc hphase (by simpa using hrunning)

def managed : Event → Option ℕ
  | .append _ cause _ => cause
  | _ => none

theorem step_cases (h : step cfg s e = some s') : Move s (managed e) s' := by
  cases e with
  | append tape cause drafts =>
    cases cause with
    | none => exact Option.some.inj h ▸ .push fun i hi => by cases hi
    | some call =>
      simp only [step] at h
      split_ifs at h with hexternal
      refine Option.some.inj h ▸ .push fun i hi => ?_
      exact Option.some.inj hi ▸ hexternal
  | stored call now firstId =>
    simp only [step] at h
    split at h
    · rename_i tape cause drafts updates hc
      refine Option.some.inj h ▸ .go (n := s.appendedSinceSummary) hc (.stored rfl fun hdrafts entry hentry => ?_)
      obtain ⟨k, hk, rfl⟩ := List.mem_mapIdx.mp hentry
      rw [isSummary_withId]
      exact cfg.storage.keepsSummary now _ (hdrafts _ (List.getElem_mem hk))
    · cases h
  | storeFailed call =>
    simp only [step] at h
    split at h
    · rename_i hc
      exact Option.some.inj h ▸ .go (n := s.appendedSinceSummary) hc (.storeFailed rfl)
    · cases h
  | emitted call =>
    simp only [step] at h
    split at h
    · rename_i hc
      exact Option.some.inj h ▸ move_onAppend hc rfl
    · cases h
  | viewed call entries =>
    simp only [step] at h
    split at h
    · rename_i hc
      exact Option.some.inj h ▸ move_onViewed hc rfl
    · cases h
  | viewFailed call =>
    simp only [step] at h
    split at h
    · rename_i tape cause drafts appended updates hc
      exact Option.some.inj h ▸ .go (n := s.appendedSinceSummary) hc (.viewed rfl (hookThrew_ended tape))
    · cases h
  | update call event =>
    simp only [step] at h
    split at h
    · rename_i hc
      exact updateStep_cases hc rfl h
    · cases h

/-! What a state shows -/

def causeOf (s : State) (j : ℕ) : Option ℕ := s.calls[j]?.bind (·.cause)

def Updating (s : State) (i : ℕ) : Prop := ∃ u, phaseOf s i = some (.updating u)

def Ended (s : State) (j : ℕ) : Prop := ∃ phase, phaseOf s j = some phase ∧ phase.ended = true

def Awaits (s : State) (i j : ℕ) : Prop := External s i = true ∨ phaseOf s i = some (.updating (.recording j))

theorem phaseOf_of_get (hc : s.calls[i]? = some c) : phaseOf s i = some c.phase := by
  rw [phaseOf, hc, Option.map_some]

theorem external_iff : External s i = true ↔
    phaseOf s i = some (.updating .selecting) ∨ ∃ range, phaseOf s i = some (.updating (.summarizing range)) := by
  unfold External
  split
  · rename_i h
    simp [h]
  · rename_i h
    simp [h]
  · rename_i hselecting hsummarizing
    simp only [Bool.false_eq_true, false_iff, not_or, not_exists]
    exact ⟨hselecting, hsummarizing⟩

theorem Awaits.updating (h : Awaits s i j) : Updating s i := by
  rcases h with h | h
  · rcases external_iff.mp h with h | ⟨range, h⟩
    · exact ⟨_, h⟩
    · exact ⟨_, h⟩
  · exact ⟨_, h⟩

theorem Awaits.congr (h : Awaits s i j) (heq : phaseOf s' i = phaseOf s i) : Awaits s' i j := by
  rw [Awaits, external_iff, ← heq, ← external_iff] at h
  exact h

structure Changed (s s' : State) (i : ℕ) (phase : Phase) : Prop where
  phaseOf : ∀ j, phaseOf s' j = if j = i then some phase else AutoSummary.phaseOf s j
  causes : s'.calls.map (·.cause) = s.calls.map (·.cause)

theorem Changed.causeOf (h : Changed s s' i phase) (j : ℕ) : causeOf s' j = AutoSummary.causeOf s j := by
  have hmap (s : State) : AutoSummary.causeOf s j = (s.calls.map (·.cause))[j]?.bind id := by
    rw [AutoSummary.causeOf, List.getElem?_map]
    cases s.calls[j]? <;> rfl
  rw [hmap, hmap, h.causes]

theorem Changed.length (h : Changed s s' i phase) : s'.calls.length = s.calls.length := by
  rw [← List.length_map (·.cause), h.causes, List.length_map]

theorem getElem?_modify {f : Call → Call} (hc : s.calls[i]? = some c) (j : ℕ) :
    (s.calls.modify i f)[j]? = if j = i then some (f c) else s.calls[j]? := by
  rw [List.getElem?_modify]
  split_ifs with hij hji hji
  · rw [← hij, hc]
    rfl
  · exact absurd hij.symm hji
  · exact absurd hji.symm hij
  · cases s.calls[j]? <;> rfl

theorem changed_modify {f : Call → Call} (hc : s.calls[i]? = some c) (hcause : ∀ c, (f c).cause = c.cause)
    (hcalls : s'.calls = s.calls.modify i f) : Changed s s' i (f c).phase where
  phaseOf := fun j => by
    rw [AutoSummary.phaseOf, hcalls, getElem?_modify hc]
    split_ifs
    · rfl
    · rfl
  causes := hcalls ▸ Lists.map_modify_of_eq hcause _ _

theorem changed_setPhase (hc : s.calls[i]? = some c) (hcalls : s'.calls = (setPhase s i phase).calls) :
    Changed s s' i phase :=
  changed_modify (f := fun c : Call => { c with phase := phase }) hc (fun _ => rfl) hcalls

theorem changed_startUpdate (hc : s.calls[i]? = some c) : Changed s (startUpdate s i c.tape) i
    (.updating (if c.tape.hasSummaryManager then .viewing else .summaryUpdated false)) :=
  changed_modify (f := fun d : Call => { d with
    phase := .updating (if c.tape.hasSummaryManager then .viewing else .summaryUpdated false)
    updates := d.updates + 1 }) hc (fun _ => rfl) rfl

theorem phaseOf_push {tape : TapeObject} {cause : Option ℕ} {drafts : List TapeEntryDraft} :
    phaseOf (push s tape cause drafts) j = if j = s.calls.length then some .storing else phaseOf s j := by
  rw [phaseOf, push, Lists.getElem?_concat]
  split_ifs
  · rfl
  · rfl

theorem causeOf_push {tape : TapeObject} {cause : Option ℕ} {drafts : List TapeEntryDraft} :
    causeOf (push s tape cause drafts) j = if j = s.calls.length then cause else causeOf s j := by
  rw [causeOf, push, Lists.getElem?_concat]
  split_ifs
  · rfl
  · rfl

/-! The invariant -/

def AllSummary (c : Call) : Prop := ∀ draft ∈ c.drafts, isSummary draft = true

def CallOk (c : Call) : Prop :=
  match c.phase with
  | .storing => c.updates = 0
  | .stored entries => c.updates = 0 ∧
    (AllSummary c → ∀ entry ∈ entries, isEvent TapeEvent.System.summary entry = true)
  | .viewing _ => c.updates = 0 ∧ ¬AllSummary c
  | .updating _ => c.updates = 1 ∧ ¬AllSummary c ∧ c.cause = none
  | .returned | .rejected => c.updates ≤ 1 ∧ (AllSummary c → c.updates = 0) ∧ (c.cause ≠ none → c.updates = 0)

structure Inv (s : State) : Prop where
  call : ∀ c ∈ s.calls, CallOk c
  flag : ∀ i, Updating s i → s.running = true
  alone : ∀ i j, Updating s i → Updating s j → i = j
  waits : ∀ i j, causeOf s j = some i → Ended s j ∨ Awaits s i j
  direct : ∀ i j, causeOf s j = some i → i < s.calls.length ∧ causeOf s i = none

theorem init_inv : Inv init where
  call := by simp [init]
  flag := by simp [init, Updating, phaseOf]
  alone := by simp [init, Updating, phaseOf]
  waits := by simp [init, causeOf]
  direct := by simp [init, causeOf]

theorem CallOk.ended (h : c.updates ≤ 1) (hsummary : AllSummary c → c.updates = 0)
    (hcause : c.cause ≠ none → c.updates = 0)
    (hphase : phase.ended = true) : CallOk { c with phase := phase } := by
  cases phase with
  | returned | rejected => exact ⟨h, hsummary, hcause⟩
  | storing | stored | viewing | updating => cases hphase

/-- Whatever its phase. -/
theorem CallOk.bounds (h : CallOk c) :
    c.updates ≤ 1 ∧ (AllSummary c → c.updates = 0) ∧ (c.cause ≠ none → c.updates = 0) := by
  unfold CallOk at h
  split at h
  · exact ⟨by omega, fun _ => h, fun _ => h⟩
  · exact ⟨by omega, fun _ => h.1, fun _ => h.1⟩
  · exact ⟨by omega, fun _ => h.1, fun _ => h.1⟩
  · exact ⟨by omega, fun hall => absurd hall h.2.1, fun hcause => absurd h.2.2 hcause⟩
  · exact h
  · exact h

theorem Inv.cause_of_updating (h : Inv s) (hi : Updating s i) : i < s.calls.length ∧ causeOf s i = none := by
  obtain ⟨u, hu⟩ := hi
  obtain ⟨c, hc, hphase⟩ := Option.map_eq_some_iff.mp hu
  have hok := h.call c (List.mem_of_getElem? hc)
  unfold CallOk at hok
  rw [hphase] at hok
  exact ⟨(List.getElem?_eq_some_iff.mp hc).1, by rw [causeOf, hc, Option.bind_some, hok.2.2]⟩

/-- What was awaited within the call has ended. -/
theorem Inv.nested_ended (h : Inv s) (hidle : ∀ u, phaseOf s i = some (.updating u) → Idle s i u)
    (hcause : causeOf s j = some i) :
    Ended s j := by
  refine (h.waits i j hcause).elim id fun hawaits => ?_
  rcases hawaits with hexternal | hrecording
  · have hsettled : Settled s i = true := by
      rcases external_iff.mp hexternal with hphase | ⟨range, hphase⟩
      · exact hidle _ hphase
      · exact hidle _ hphase
    obtain ⟨d, hd, hdcause⟩ := Option.bind_eq_some_iff.mp hcause
    rw [Settled, List.all_eq_true] at hsettled
    have hended := hsettled d (List.mem_of_getElem? hd)
    rw [hdcause] at hended
    exact ⟨d.phase, phaseOf_of_get hd, by simpa using hended⟩
  · exact hidle _ hrecording

/-- Another phase for a call within which nothing is awaited. -/
theorem Inv.waits_changed (h : Inv s) (hchanged : Changed s s' i phase) (hlive : ¬Ended s i)
    (hidle : ∀ u, phaseOf s i = some (.updating u) → Idle s i u) :
    ∀ k j, causeOf s' j = some k → Ended s' j ∨ Awaits s' k j := by
  intro k j hcause
  rw [hchanged.causeOf] at hcause
  by_cases hk : k = i
  · subst hk
    obtain ⟨p, hp, hended⟩ := h.nested_ended hidle hcause
    have hj : j ≠ k := fun heq => hlive (heq ▸ ⟨p, hp, hended⟩)
    exact .inl ⟨p, by rw [hchanged.phaseOf, if_neg hj, hp], hended⟩
  · rcases h.waits k j hcause with ⟨p, hp, hended⟩ | hawaits
    · have hj : j ≠ i := fun heq => hlive (heq ▸ ⟨p, hp, hended⟩)
      exact .inl ⟨p, by rw [hchanged.phaseOf, if_neg hj, hp], hended⟩
    · exact .inr (hawaits.congr (by rw [hchanged.phaseOf, if_neg hk]))

theorem Inv.direct_changed (h : Inv s) (hchanged : Changed s s' i phase) :
    ∀ k j, causeOf s' j = some k → k < s'.calls.length ∧ causeOf s' k = none := by
  intro k j hcause
  rw [hchanged.causeOf] at hcause
  rw [hchanged.causeOf, hchanged.length]
  exact h.direct k j hcause

theorem Changed.updating_iff (hchanged : Changed s s' i phase) : Updating s' j ↔
    (j = i ∧ ∃ u, phase = .updating u) ∨ (j ≠ i ∧ Updating s j) := by
  rw [Updating, hchanged.phaseOf]
  split_ifs with hj
  · simp [hj]
  · simp [hj, Updating]

theorem Goes.live {c : Call} (h : Goes s i c phase) (hc : s.calls[i]? = some c) : ¬Ended s i := by
  rintro ⟨p, hp, hended⟩
  obtain rfl := Option.some.inj ((phaseOf_of_get hc).symm.trans hp)
  cases h with
  | stored hphase _ | storeFailed hphase | ignored hphase | counted hphase _ | viewed hphase _ | update hphase _ _ =>
    rw [hphase] at hended
    cases hended

theorem Goes.idle (h : Goes s i c phase) (hc : s.calls[i]? = some c) (hu : phaseOf s i = some (.updating u)) :
    Idle s i u := by
  have hphase := Option.some.inj ((phaseOf_of_get hc).symm.trans hu)
  cases h with
  | stored h _ | storeFailed h | ignored h | counted h _ | viewed h _ => cases h.symm.trans hphase
  | update h hidle _ =>
    obtain rfl := Phase.updating.inj (h.symm.trans hphase)
    exact hidle

/-- It updates before and after, or neither. -/
theorem Goes.updating (h : Goes s i c phase) (hc : s.calls[i]? = some c) (hu : phase = .updating u) : Updating s i := by
  cases h with
  | stored | storeFailed | ignored | counted => cases hu
  | viewed _ hended =>
    rw [hu] at hended
    cases hended
  | update hphase _ _ => exact ⟨_, (phaseOf_of_get hc).trans (congrArg some hphase)⟩

theorem Goes.callOk (h : Goes s i c phase) (hok : CallOk c) : CallOk { c with phase := phase } := by
  obtain ⟨honce, hsummary, hcause⟩ := hok.bounds
  unfold CallOk at hok
  cases h with
  | stored hphase hentries =>
    rw [hphase] at hok
    exact ⟨hok, hentries⟩
  | storeFailed hphase => exact .ended honce hsummary hcause rfl
  | ignored hphase => exact .ended honce hsummary hcause rfl
  | counted hphase hother =>
    rw [hphase] at hok
    refine ⟨hok.1, fun hall => ?_⟩
    obtain ⟨entry, hentry, hnot⟩ := hother
    rw [hok.2 hall entry hentry] at hnot
    cases hnot
  | viewed hphase hended => exact .ended honce hsummary hcause hended
  | update hphase _ _ =>
    rw [hphase] at hok
    exact hok

theorem Inv.go {n : ℕ} (h : Inv s) (hc : s.calls[i]? = some c) (hgo : Goes s i c phase) :
    Inv { setPhase s i phase with appendedSinceSummary := n } := by
  have hchanged : Changed s { setPhase s i phase with appendedSinceSummary := n } i phase := changed_setPhase hc rfl
  have hback {k : ℕ} (hk : Updating { setPhase s i phase with appendedSinceSummary := n } k) : Updating s k := by
    rcases hchanged.updating_iff.mp hk with ⟨rfl, u, hu⟩ | ⟨-, hk⟩
    · exact hgo.updating hc hu
    · exact hk
  refine ⟨?_, fun k hk => h.flag k (hback hk), fun k l hk hl => h.alone k l (hback hk) (hback hl),
    h.waits_changed hchanged (hgo.live hc) fun u hu => hgo.idle hc hu, h.direct_changed hchanged⟩
  refine Lists.forall_mem_modify h.call fun d hd hok => ?_
  obtain rfl := Option.some.inj (hd.symm.trans hc)
  exact hgo.callOk hok

theorem Inv.push {tape : TapeObject} {cause : Option ℕ} {drafts : List TapeEntryDraft} (h : Inv s)
    (hcause : ∀ i, cause = some i → Awaits s i s.calls.length) : Inv (AutoSummary.push s tape cause drafts) := by
  have hphase {k : ℕ} {p : Phase} (hk : phaseOf s k = some p) : phaseOf (AutoSummary.push s tape cause drafts) k =
    some p := by
    obtain ⟨d, hd, -⟩ := Option.map_eq_some_iff.mp hk
    have hlt := (List.getElem?_eq_some_iff.mp hd).1
    rw [phaseOf_push, if_neg (Nat.ne_of_lt hlt), hk]
  have hback {k : ℕ} (hk : Updating (AutoSummary.push s tape cause drafts) k) : Updating s k := by
    obtain ⟨u, hu⟩ := hk
    rw [phaseOf_push] at hu
    split_ifs at hu
    · cases hu
    · exact ⟨u, hu⟩
  have hawaits {i j : ℕ} (hij : Awaits s i j) : Awaits (AutoSummary.push s tape cause drafts) i j := by
    obtain ⟨u, hu⟩ := hij.updating
    exact hij.congr ((hphase hu).trans hu.symm)
  refine ⟨fun d hd => ?_, fun k hk => h.flag k (hback hk), fun k l hk hl => h.alone k l (hback hk) (hback hl),
    fun i j hj => ?_,
    fun i j hj => ?_⟩
  · rcases List.mem_append.mp hd with hd | hd
    · exact h.call d hd
    · rw [List.mem_singleton.mp hd]
      exact rfl
  · rw [causeOf_push] at hj
    split_ifs at hj with hlast
    · exact .inr (hawaits (hlast ▸ hcause i hj))
    · exact (h.waits i j hj).imp (fun ⟨p, hp, hended⟩ => ⟨p, hphase hp, hended⟩) hawaits
  · have hlength : (AutoSummary.push s tape cause drafts).calls.length = s.calls.length + 1 := List.length_append
    rw [causeOf_push] at hj
    obtain ⟨hlt, hnone⟩ : i < s.calls.length ∧ causeOf s i = none := by
      split_ifs at hj
      · exact h.cause_of_updating (hcause i hj).updating
      · exact h.direct i j hj
    rw [hlength, causeOf_push, if_neg (Nat.ne_of_lt hlt)]
    exact ⟨Nat.lt_succ_of_lt hlt, hnone⟩

theorem Inv.start {appended : List TapeEntry} (h : Inv s) (hc : s.calls[i]? = some c) (hphase : c.phase = .viewing appended)
    (hrunning : s.running = false) : Inv (startUpdate s i c.tape) := by
  have hchanged := changed_startUpdate hc
  have hnone (k : ℕ) : ¬Updating s k := fun hk => by
    have hflag := h.flag k hk
    rw [hrunning] at hflag
    cases hflag
  have hlive : ¬Ended s i := by
    rintro ⟨p, hp, hended⟩
    rw [phaseOf_of_get hc, hphase] at hp
    obtain rfl := Option.some.inj hp
    cases hended
  have honly {k : ℕ} (hk : Updating (startUpdate s i c.tape) k) : k = i :=
    (hchanged.updating_iff.mp hk).elim And.left fun hk => absurd hk.2 (hnone k)
  refine ⟨?_, fun _ _ => rfl, fun k l hk hl => (honly hk).trans (honly hl).symm,
    h.waits_changed hchanged hlive fun u hu => absurd ⟨u, hu⟩ (hnone i), h.direct_changed hchanged⟩
  refine Lists.forall_mem_modify h.call fun d hd hok => ?_
  obtain rfl := Option.some.inj (hd.symm.trans hc)
  unfold CallOk at hok
  rw [hphase] at hok
  refine ⟨by rw [hok.1], hok.2, ?_⟩
  -- within another call the flag would be up
  by_contra hcause
  obtain ⟨k, hk⟩ := Option.ne_none_iff_exists'.mp hcause
  have hcauseOf : causeOf s i = some k := by rw [causeOf, hc, Option.bind_some, hk]
  rcases h.waits k i hcauseOf with hended | hawaits
  · exact hlive hended
  · exact hnone k hawaits.updating

theorem Inv.finish {n : ℕ} (h : Inv s) (hc : s.calls[i]? = some c) (hphase : c.phase = .updating u) (hidle : Idle s i u)
    (hended : phase.ended = true) : Inv { setPhase s i phase with appendedSinceSummary := n, running := false } := by
  have hchanged : Changed s { setPhase s i phase with appendedSinceSummary := n, running := false } i phase :=
    changed_setPhase hc rfl
  have hu : phaseOf s i = some (.updating u) := (phaseOf_of_get hc).trans (congrArg some hphase)
  have hnone (k : ℕ) : ¬Updating { setPhase s i phase with appendedSinceSummary := n, running := false } k := fun hk => by
    rcases hchanged.updating_iff.mp hk with ⟨-, u', hu'⟩ | ⟨hne, hk⟩
    · rw [hu'] at hended
      cases hended
    · exact hne (h.alone k i hk ⟨u, hu⟩)
  have hlive : ¬Ended s i := by
    rintro ⟨p, hp, hp'⟩
    obtain rfl := Option.some.inj (hu.symm.trans hp)
    cases hp'
  refine ⟨?_, fun k hk => absurd hk (hnone k), fun k _ hk _ => absurd hk (hnone k),
    h.waits_changed hchanged hlive fun u' hu' => ?_, h.direct_changed hchanged⟩
  · refine Lists.forall_mem_modify h.call fun d hd hok => ?_
    obtain rfl := Option.some.inj (hd.symm.trans hc)
    obtain ⟨honce, hsummary, hcause⟩ := hok.bounds
    exact .ended honce hsummary hcause hended
  · obtain rfl := Phase.updating.inj (Option.some.inj (hu.symm.trans hu'))
    exact hidle

theorem Inv.move {cause : Option ℕ} (h : Inv s) (hm : Move s cause s') : Inv s' := by
  cases hm with
  | push hcause => exact h.push fun i hi => .inl (hcause i hi)
  | go hc hgo => exact h.go hc hgo
  | start hc hphase hidle => exact h.start hc hphase hidle
  | @record i c summary options draft hc hphase =>
    have hgo : Goes s i c (.updating (.recording s.calls.length)) := .update hphase trivial (by simp [UpdatePhase.past])
    have h₁ : Inv (setPhase s i (.updating (.recording s.calls.length))) := h.go (n := s.appendedSinceSummary) hc hgo
    refine h₁.push fun j hj => ?_
    obtain rfl := Option.some.inj hj
    right
    have hlength : (setPhase s i (.updating (.recording s.calls.length))).calls.length = s.calls.length :=
      List.length_modify _ _ _
    rw [(changed_setPhase hc rfl).phaseOf, if_pos rfl, hlength]
  | finish hc hphase hidle hended => exact h.finish hc hphase hidle hended

theorem Inv.step (h : Inv s) (hs : step cfg s e = some s') : Inv s' := h.move (step_cases hs)

end Nexal.AutoSummary
