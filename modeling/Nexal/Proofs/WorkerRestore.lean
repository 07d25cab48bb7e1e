import Nexal.Sanity.WorkerTranscript

/-! Suspending a worker and starting it again. The flush of `suspend` writes the row and has no tape, while `start`
takes the messages from the tape as soon as there is anything on it. -/

namespace Nexal.Workers

variable {s s' : Transcript}

def Transcript.restarted (s : Transcript) (loaded : Bool) : List Message :=
  (restore s.messagesJson (if loaded then some s.tape else none)).1

def TranscriptEvent.message? : TranscriptEvent → Option Message
  | .message m => some m
  | _ => none

def produced (es : List TranscriptEvent) : List Message := es.filterMap TranscriptEvent.message?

/-- What the next `start` reads is up to date. If it loads the tape and finds anything there, the watermark is
above all messages, and they are such as come back from a tape. Otherwise the last write of the row was given all
of them; if there has been none, the row had what was restored from it or from the tape, and all that came later. -/
def CaughtUp (start : Transcript) (es : List TranscriptEvent) (s : Transcript) (loaded : Bool) : Prop :=
  if loaded = true ∧ s.tape ≠ [] then s.lastPersistedMsgCount = s.messages.length ∧ ∀ m ∈ s.messages,
    m.plain = true
  else
    match s.rowCount with
    | some n => n = (start.messages ++ produced es).length
    | none => start.messagesJson = start.messages ++ produced es

section Based
variable {old : List Entry} {base : ℕ}

end Based

/-! The row -/

/-- A row that has been written has the first messages, as many as the last write had; before it has what it had
at the start. -/
structure RowInv (messagesJson : List Message) (s : Transcript) : Prop where
  unwritten : s.rowCount = none → s.messagesJson = messagesJson
  written : ∀ n, s.rowCount = some n → s.messagesJson.length = n ∧ s.messagesJson <+: s.messages
  snapshots : ∀ f ∈ s.flushes, ∀ snapshot turnCount, f.phase = .writing snapshot turnCount → snapshot <+: s.messages
  initial : ∀ messages, s.initialMessages = some messages → messages <+: s.messages

section RowInv
variable {old : List Entry} {base i : ℕ} {f : Flush} {messagesJson : List Message}

theorem RowInv.message (h : RowInv messagesJson s) (m : Message) (working ended : Bool) :
    RowInv messagesJson { s with messages := s.messages ++ [m], working := working, ended := ended } where
  unwritten := h.unwritten
  written n hn := ⟨(h.written n hn).1, (h.written n hn).2.trans (List.prefix_append _ _)⟩
  snapshots g hg snapshot turnCount hphase := (h.snapshots g hg snapshot turnCount hphase).trans (List.prefix_append _ _)
  initial messages hmessages := (h.initial messages hmessages).trans (List.prefix_append _ _)

theorem RowInv.writeRow (h : RowInv messagesJson s) {messages : List Message} (hfront : messages <+: s.messages) :
    RowInv messagesJson (s.writeRow messages) where
  unwritten hnone := by cases hnone
  written n hn := ⟨Option.some.inj hn, hfront⟩
  snapshots := h.snapshots
  initial := h.initial

theorem RowInv.flushNow (h : RowInv messagesJson s) {array : Option (List Message)} (tape agentEnd : Bool)
    (harray : array.getD s.messages <+: s.messages) : RowInv messagesJson (s.flushNow array tape agentEnd) where
  unwritten := h.unwritten
  written := h.written
  snapshots g hg snapshot turnCount hphase := by
    rcases List.mem_append.mp hg with hold | hnew
    · exact h.snapshots g hold snapshot turnCount hphase
    · rw [List.mem_singleton.mp hnew] at hphase
      cases hphase
      exact harray
  initial := h.initial

/-- A flush goes on to a phase behind its write of the row. -/
theorem RowInv.goto (h : RowInv messagesJson s) {phase : FlushPhase}
    (hphase : ∀ snapshot turnCount, phase ≠ .writing snapshot turnCount) : RowInv messagesJson (s.goto i f phase) where
  unwritten := h.unwritten
  written := h.written
  snapshots g hg snapshot turnCount hwriting := by
    rcases List.mem_or_eq_of_mem_set hg with hold | rfl
    · exact h.snapshots g hold snapshot turnCount hwriting
    · exact absurd hwriting (hphase snapshot turnCount)
  initial := h.initial

theorem RowInv.slice (h : RowInv messagesJson s) : RowInv messagesJson (s.slice i f) := by
  unfold Transcript.slice
  split_ifs
  · exact h.goto (by rintro _ _ ⟨⟩)
  · exact h.goto (by rintro _ _ ⟨⟩)

end RowInv

end Nexal.Workers
