import Nexal.Sanity.WorkerTranscript

/-! A worker's transcript. The flush of the timer and the one of `agent_end` share one watermark, which they read
before they append and move afterwards: two flushes at the tape at once put the same messages on it. -/

namespace Nexal.Workers

variable {s s' : Transcript}

/-- Every message since the start is on the tape, once and in order. -/
def RecordedOnce (start s : Transcript) : Prop :=
  recorded s.tape = recorded start.tape ++ messagesToEntries (s.messages.drop start.lastPersistedMsgCount)

/-- `agent_end` has all messages, and nothing fails at the tape. -/
def Whole (s : Transcript) : TranscriptEvent → Prop
  | .agentEnd messages => messages.getD s.messages = s.messages
  | .appended _ ok => ok = true
  | _ => True

/-- The append that fails is not the one of `agent_end`. -/
def NotLost (s : Transcript) : TranscriptEvent → Prop
  | .appended i false => ∀ f, s.flushes[i]? = some f → f.agentEnd = false
  | _ => True

/-- The flushes do not get in each other's way, and the one of `agent_end` does not fail. -/
def Undisturbed (s : Transcript) (e : TranscriptEvent) : Prop := Orderly s e ∧ NotLost s e

/-- The flush will put all messages on the tape that are not there. -/
structure Covers (messages : List Message) (f : Flush) : Prop where
  agentEnd : f.agentEnd = true
  tape : f.tape = true
  look : f.look messages = messages
  phase : (∃ snapshot turnCount, f.phase = .writing snapshot turnCount) ∨
    ∃ newMessages, f.phase = .appending messages.length newMessages

theorem Covers.unfinished {messages : List Message} {f : Flush} (h : Covers messages f) : f.phase ≠ .finished := by
  intro hfin
  rcases h.phase with ⟨snapshot, turnCount, hphase⟩ | ⟨newMessages, hphase⟩
  · cases hfin.symm.trans hphase
  · cases hfin.symm.trans hphase

theorem Covers.unmarked {messages : List Message} {f : Flush} (h : Covers messages f) : f.phase ≠ .marked := by
  intro hfin
  rcases h.phase with ⟨snapshot, turnCount, hphase⟩ | ⟨newMessages, hphase⟩
  · cases hfin.symm.trans hphase
  · cases hfin.symm.trans hphase

/-- After `agent_end` all messages are on the tape, or a flush sees to it. -/
def Closing (s : Transcript) : Prop :=
  s.ended = true → s.lastPersistedMsgCount = s.messages.length ∨
    ∃ (i : ℕ) (f : Flush), s.flushes[i]? = some f ∧ Covers s.messages f

section Closing
variable {old : List Entry} {base i : ℕ} {f : Flush}

theorem Closing.flushNow (h : Closing s) (array : Option (List Message)) (tape agentEnd : Bool) :
    Closing (s.flushNow array tape agentEnd) := by
  intro hended
  rcases h hended with hall | ⟨j, g, hg, hcovers⟩
  · exact Or.inl hall
  · have hlt := (List.getElem?_eq_some_iff.mp hg).1
    exact Or.inr ⟨j, g, (List.getElem?_append_left hlt).trans hg, hcovers⟩

/-- A flush goes on; if it is the one that sees to the messages, it still is or they are there. -/
theorem Closing.goto (h : Closing s) (hf : s.flushes[i]? = some f) {phase : FlushPhase}
    (hcovers : Covers s.messages f → s.lastPersistedMsgCount = s.messages.length ∨
      Covers s.messages { f with phase := phase }) :
    Closing (s.goto i f phase) := by
  intro hended
  rcases h hended with hall | ⟨j, g, hg, hg'⟩
  · exact Or.inl hall
  · by_cases hji : j = i
    · subst hji
      cases hf.symm.trans hg
      rcases hcovers hg' with hall | hnew
      · exact Or.inl hall
      · exact Or.inr ⟨j, _, Lists.getElem?_set_self_of_some hf, hnew⟩
    · exact Or.inr ⟨j, g, (List.getElem?_set_ne (Ne.symm hji)).trans hg, hg'⟩

theorem Closing.slice (h : Closing s) (ha : Aligned old base s) (hf : s.flushes[i]? = some f) : Closing (s.slice i f) := by
  unfold Transcript.slice
  split_ifs with hslice
  · refine h.goto hf fun hcovers => Or.inr ⟨hcovers.agentEnd, hcovers.tape, hcovers.look,
      Or.inr ⟨f.newMessages s, ?_⟩⟩
    rw [hcovers.look]
  · refine h.goto hf fun hcovers => Or.inl ?_
    rw [hcovers.tape, Bool.true_and, Bool.not_eq_true, Bool.not_eq_false', List.isEmpty_iff, Flush.newMessages,
      hcovers.look, List.drop_eq_nil_iff] at hslice
    exact Nat.le_antisymm ha.below hslice

theorem Closing.appended (h : Closing s) (ha : Aligned old base s) (hf : s.flushes[i]? = some f) {seen : ℕ}
    {newMessages : List Message} (hphase : f.phase = .appending seen newMessages) :
    Closing { s.goto i f .finished with
      tape := s.tape ++ messagesToEntries newMessages
      lastPersistedMsgCount := (f.look s.messages).length } := by
  intro hended
  obtain ⟨-, hlt, hle⟩ := ha.appending f (List.mem_of_getElem? hf) seen newMessages hphase
  rcases h hended with hall | ⟨j, g, hg, hcovers⟩
  · omega
  · by_cases hji : j = i
    · subst hji
      cases hf.symm.trans hg
      rw [hcovers.look]
      exact Or.inl rfl
    · refine Or.inr ⟨j, g, (List.getElem?_set_ne (Ne.symm hji)).trans hg, hcovers⟩

theorem closing_step {e : TranscriptEvent} (h : Closing s) (ha : Aligned old base s) (hok : Undisturbed s e)
    (hs : s.step e = some s') : Closing s' := by
  cases e with
  | message m =>
    rw [Transcript.step, Option.ite_none_right_eq_some] at hs
    refine Option.some.inj hs.2 ▸ fun hended => ?_
    cases hended
  | turnEnd =>
    rw [Transcript.step, Option.ite_none_right_eq_some] at hs
    exact Option.some.inj hs.2 ▸ fun hended => h hended
  | timer inPlace =>
    rw [Transcript.step, Option.ite_none_right_eq_some] at hs
    exact Option.some.inj hs.2 ▸ h.flushNow _ true false
  | agentEnd messages =>
    rw [Transcript.step, Option.ite_none_right_eq_some] at hs
    refine Option.some.inj hs.2 ▸ fun _ => Or.inr ⟨s.flushes.length, _, List.getElem?_concat_length, ?_⟩
    exact ⟨rfl, rfl, hok.1, Or.inl ⟨_, _, rfl⟩⟩
  | suspend inPlace =>
    rw [Transcript.step, Option.ite_none_right_eq_some] at hs
    exact Option.some.inj hs.2 ▸ fun hended =>
      h.flushNow (if inPlace then none else some s.messages) false false hended
  | wrote i ok =>
    obtain ⟨f, hf, hs⟩ := Option.bind_eq_some_iff.mp hs
    split at hs
    · rename_i snapshot turnCount _
      cases hs
      split_ifs
      · have hrow : Closing { s.writeRow snapshot with turnCount := turnCount } := fun hended => h hended
        exact hrow.slice ((ha.writeRow _).turns _) hf
      · exact h.slice ha hf
    · cases hs
  | appended i ok =>
    obtain ⟨f, hf, hs⟩ := Option.bind_eq_some_iff.mp hs
    split at hs
    · rename_i seen newMessages hphase
      cases hs
      cases ok with
      | true => exact h.appended ha hf hphase
      | false =>
        refine h.goto hf fun hcovers => ?_
        cases (hok.2 f hf).symm.trans hcovers.agentEnd
    · cases hs
  | markIdle i ok =>
    obtain ⟨f, hf, hs⟩ := Option.bind_eq_some_iff.mp hs
    split at hs
    · rename_i hphase
      rw [Option.ite_none_right_eq_some] at hs
      obtain ⟨-, hs⟩ := hs
      cases hs
      split_ifs
      · have hrow : Closing (s.writeRow (f.look s.messages)) := fun hended => h hended
        exact hrow.goto hf fun hcovers => absurd hphase hcovers.unfinished
      · exact h.goto hf fun hcovers => absurd hphase hcovers.unfinished
    · cases hs
  | startIdle ok =>
    obtain ⟨messages, -, hs⟩ := Option.bind_eq_some_iff.mp hs
    cases hs
    split_ifs
    · exact fun hended => h hended
    · exact fun hended => h hended
  | record =>
    cases hs
    exact h

end Closing

/-- Whatever comes between, the tape has the messages up to some point once and in order, and after `agent_end`
has been handled it has all of them, if no flush slices off its messages while another one is at the tape, nothing
comes into a flush's array while it is there, and the append of `agent_end` does not fail. -/
theorem recorded_once_of_undisturbed {messagesJson : List Message} {turnCount : ℕ} {tape : List Entry} {loaded : Bool}
    {es : List TranscriptEvent}
    (hok : Runs.RunOk Transcript.step Undisturbed (.start messagesJson turnCount tape loaded) es)
    (h : Runs.run Transcript.step (.start messagesJson turnCount tape loaded) es = some s) :
    RecordedOnce (.start messagesJson turnCount tape loaded)
    { s with messages := s.messages.take s.lastPersistedMsgCount } ∧
      (s.ended = true → s.Flushed → RecordedOnce (.start messagesJson turnCount tape loaded) s) := by
  obtain ⟨ha, hc⟩ := Runs.run_inv
    (fun t => Aligned (recorded tape) (Transcript.start messagesJson turnCount tape loaded).lastPersistedMsgCount t ∧
      Closing t)
    (fun _ _ _ hi hp hstep => ⟨aligned_step hi.1 hp.1 hstep, closing_step hi.2 hi.1 hp hstep⟩)
    ⟨aligned_start messagesJson turnCount tape loaded, fun hended => by cases hended⟩ hok h
  refine ⟨ha.onTape, fun hended hflushed => ?_⟩
  rcases hc hended with hall | ⟨i, f, hf, hcovers⟩
  · refine ha.onTape.trans ?_
    rw [hall, List.take_length]
    rfl
  · rcases hflushed f (List.mem_of_getElem? hf) with hfin | hmarked
    · exact absurd hfin hcovers.unfinished
    · exact absurd hmarked hcovers.unmarked

/-! A worker's first run -/

def askedMessage : Message := ⟨.user (.plain "list the files"), 1, none⟩

/-- The debounced flush, and then the one of `agent_end`. -/
def orderlyFlushes : List TranscriptEvent :=
  [.message askedMessage, .turnEnd, .timer false, .wrote 0 true, .appended 0 true, .agentEnd none, .wrote 1 true]

theorem recorded_once_of_undisturbed_first : ∃ s, Runs.run Transcript.step (.start [] 0 [] true) orderlyFlushes =
    some s ∧
    RecordedOnce (.start [] 0 [] true) s := by
  have hrun : Runs.run Transcript.step (.start [] 0 [] true) orderlyFlushes = some _ := rfl
  refine ⟨_, hrun, (recorded_once_of_undisturbed ?_ hrun).2 rfl ?_⟩
  · refine Runs.runOk_cons rfl ⟨trivial, trivial⟩ (Runs.runOk_cons rfl ⟨trivial, trivial⟩ ?_)
    refine Runs.runOk_cons rfl ⟨trivial, trivial⟩ (Runs.runOk_cons rfl ⟨fun _ _ _ => by decide, trivial⟩ ?_)
    refine Runs.runOk_cons rfl ⟨?_, trivial⟩ (Runs.runOk_cons rfl ⟨rfl, trivial⟩ ?_)
    · rintro f seen newMessages ⟨⟩ ⟨⟩
      rfl
    · exact Runs.runOk_cons rfl ⟨fun _ _ _ => by decide, trivial⟩ trivial
  · exact List.forall_mem_cons.mpr ⟨Or.inl rfl, List.forall_mem_singleton.mpr (Or.inl rfl)⟩

def modelMessage (content : List AssistantBlock) (stopReason : String) (timestamp : JsNumber) : Message :=
  ⟨.assistant ⟨content, "anthropic-messages", "anthropic", "claude", none, [], stopReason, none⟩, timestamp, none⟩

def callMessage : Message := modelMessage [.toolCall "call-1" "bash" [("command", .str "ls")] none] "toolUse" 2

def resultMessage : Message := ⟨.toolResult ⟨"call-1", "bash", [.text "notes.md" none], none, false⟩, 3, none⟩

def answerMessage : Message := modelMessage [.text "There is notes.md." none] "stop" 4

/-- Two turns: the debounced flush after the first one still waits for the row when the second one ends. -/
def overlappingFlushes : List TranscriptEvent :=
  [.message askedMessage, .message callMessage, .message resultMessage, .turnEnd, .timer false, .message answerMessage,
    .turnEnd, .agentEnd none, .wrote 0 true, .wrote 1 true, .appended 0 true, .appended 1 true]

theorem recorded_twice : ¬ ∀ (messagesJson : List Message) (turnCount : ℕ) (tape : List Entry) (loaded : Bool)
    (es : List TranscriptEvent) (s : Transcript),
    Runs.RunOk Transcript.step Whole (.start messagesJson turnCount tape loaded) es →
      Runs.run Transcript.step (.start messagesJson turnCount tape loaded) es = some s → s.ended = true → s.Flushed →
        RecordedOnce (.start messagesJson turnCount tape loaded) s := by
  intro h
  have hall := h [] 0 [] true overlappingFlushes _ (by
    refine Runs.runOk_cons rfl trivial (Runs.runOk_cons rfl trivial (Runs.runOk_cons rfl trivial ?_))
    refine Runs.runOk_cons rfl trivial (Runs.runOk_cons rfl trivial (Runs.runOk_cons rfl trivial ?_))
    refine Runs.runOk_cons rfl trivial (Runs.runOk_cons rfl rfl ?_)
    refine Runs.runOk_cons rfl trivial (Runs.runOk_cons rfl trivial ?_)
    exact Runs.runOk_cons rfl rfl (Runs.runOk_cons rfl rfl trivial)) rfl rfl
    (List.forall_mem_cons.mpr ⟨Or.inl rfl, List.forall_mem_singleton.mpr (Or.inl rfl)⟩)
  -- the first three messages of the four are there twice
  have hseven : 7 = 4 := congrArg List.length hall
  omega

end Nexal.Workers
