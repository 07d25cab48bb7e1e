import Nexal.Lib.Runs
import Nexal.Sanity.Message
import Nexal.Spec.WorkerTranscript

/-! The tape of a worker against its messages, while flushes do not get in each other's way: it has the messages
below the watermark, in order. -/

namespace Nexal.Workers

variable {s s' : Transcript}

def Entry.isMessage : Entry → Bool
  | .message _ _ _ => true
  | .record => false

/-- The messages on a tape, as they stand there. -/
def recorded (tape : List Entry) : List Entry := tape.filter Entry.isMessage

@[simp] theorem recorded_append (tape tape' : List Entry) : recorded (tape ++ tape') = recorded tape ++ recorded tape' :=
  List.filter_append ..

theorem recorded_messagesToEntries (messages : List Message) :
    recorded (messagesToEntries messages) = messagesToEntries messages := by
  rw [recorded, List.filter_eq_self]
  intro e he
  obtain ⟨m, -, rfl⟩ := List.mem_map.mp he
  rfl

def FlushPhase.isAppending : FlushPhase → Bool
  | .appending _ _ => true
  | .writing _ _ | .finished | .marked => false

def Transcript.Flushed (s : Transcript) : Prop := ∀ f ∈ s.flushes, f.phase = .finished ∨ f.phase = .marked

/-- A flush slices off its messages while no other one is at the tape; none comes into its array until they are
there; and `agent_end` has all messages. -/
def Orderly (s : Transcript) : TranscriptEvent → Prop
  | .agentEnd messages => messages.getD s.messages = s.messages
  | .wrote i _ => ∀ f, s.flushes[i]? = some f → f.tape = true → ∀ g ∈ s.flushes, g.phase.isAppending = false
  | .appended i true => ∀ f seen newMessages, s.flushes[i]? = some f → f.phase = .appending seen newMessages →
      (f.look s.messages).length = seen
  | _ => True

/-- `old` was on the tape at the start, and so were the first `base` messages. -/
structure Aligned (old : List Entry) (base : ℕ) (s : Transcript) : Prop where
  onTape : recorded s.tape = old ++ messagesToEntries ((s.messages.take s.lastPersistedMsgCount).drop base)
  above : base ≤ s.lastPersistedMsgCount
  below : s.lastPersistedMsgCount ≤ s.messages.length
  arrays : ∀ f ∈ s.flushes, f.look s.messages <+: s.messages
  appending : ∀ f ∈ s.flushes, ∀ seen newMessages, f.phase = .appending seen newMessages →
    newMessages = (s.messages.take seen).drop s.lastPersistedMsgCount ∧
      s.lastPersistedMsgCount < seen ∧ seen ≤ s.messages.length
  single : ∀ (i j : ℕ) (f g : Flush), s.flushes[i]? = some f → s.flushes[j]? = some g →
    f.phase.isAppending = true →
    g.phase.isAppending = true → i = j

section Aligned
variable {old : List Entry} {base i : ℕ} {f : Flush}

theorem take_drop_append {α : Type*} (l : List α) {a b n : ℕ} (hn : n ≤ a) (hab : a ≤ b) (hb : b ≤ l.length) :
    (l.take a).drop n ++ (l.take b).drop a = (l.take b).drop n := by
  have htake : l.take a = (l.take b).take a := by rw [List.take_take, Nat.min_eq_left hab]
  have hlen : ((l.take b).take a).length = a := by
    rw [List.length_take, List.length_take, Nat.min_eq_left hb, Nat.min_eq_left hab]
  conv_rhs => rw [← List.take_append_drop a (l.take b)]
  rw [htake, List.drop_append_of_le_length (by rw [hlen]; exact hn)]

theorem Aligned.message (h : Aligned old base s) (m : Message) (working ended : Bool) :
    Aligned old base { s with messages := s.messages ++ [m], working := working, ended := ended } where
  onTape := by
    refine h.onTape.trans ?_
    rw [List.take_append_of_le_length h.below]
  above := h.above
  below := h.below.trans (List.prefix_append s.messages [m]).length_le
  arrays g hg := by
    have hold := h.arrays g hg
    obtain ⟨array, tape, agentEnd, phase⟩ := g
    cases array with
    | none => exact ⟨[], List.append_nil _⟩
    | some messages => exact hold.trans ⟨[m], rfl⟩
  appending g hg seen newMessages hphase := by
    obtain ⟨hnew, hlt, hle⟩ := h.appending g hg seen newMessages hphase
    refine ⟨?_, hlt, ?_⟩
    · rw [hnew, List.take_append_of_le_length hle]
    · rw [List.length_append]
      omega
  single := h.single

theorem Aligned.writeRow (h : Aligned old base s) (messages : List Message) : Aligned old base (s.writeRow messages) :=
  ⟨h.onTape, h.above, h.below, h.arrays, h.appending, h.single⟩

theorem Aligned.turns (h : Aligned old base s) (turnCount : ℕ) : Aligned old base { s with turnCount := turnCount } :=
  ⟨h.onTape, h.above, h.below, h.arrays, h.appending, h.single⟩

theorem Aligned.flushNow (h : Aligned old base s) {array : Option (List Message)} (tape agentEnd : Bool)
    (harray : array.getD s.messages <+: s.messages) : Aligned old base (s.flushNow array tape agentEnd) where
  onTape := h.onTape
  above := h.above
  below := h.below
  arrays g hg := by
    rcases List.mem_append.mp hg with hold | hnew
    · exact h.arrays g hold
    · rw [List.mem_singleton.mp hnew]
      exact harray
  appending g hg seen newMessages hphase := by
    rcases List.mem_append.mp hg with hold | hnew
    · exact h.appending g hold seen newMessages hphase
    · rw [List.mem_singleton.mp hnew] at hphase
      cases hphase
  single j k g g' hj hk hg hg' := by
    rcases Lists.getElem?_concat_cases hj with hjold | rfl
    · rcases Lists.getElem?_concat_cases hk with hkold | rfl
      · exact h.single j k g g' hjold hkold hg hg'
      · cases hg'
    · cases hg

/-- A flush goes on to a phase without messages for the tape. -/
theorem Aligned.goto (h : Aligned old base s) (hf : s.flushes[i]? = some f) {phase : FlushPhase}
    (hphase : phase.isAppending = false) : Aligned old base (s.goto i f phase) where
  onTape := h.onTape
  above := h.above
  below := h.below
  arrays g hg := by
    rcases List.mem_or_eq_of_mem_set hg with hold | rfl
    · exact h.arrays g hold
    · exact h.arrays f (List.mem_of_getElem? hf)
  appending g hg seen newMessages hnew := by
    rcases List.mem_or_eq_of_mem_set hg with hold | rfl
    · exact h.appending g hold seen newMessages hnew
    · rw [show phase = .appending seen newMessages from hnew] at hphase
      cases hphase
  single j k g g' hj hk hg hg' := by
    rcases Lists.getElem?_set_cases hj with ⟨-, rfl⟩ | ⟨-, hjold⟩
    · cases hphase.symm.trans hg
    · rcases Lists.getElem?_set_cases hk with ⟨-, rfl⟩ | ⟨-, hkold⟩
      · cases hphase.symm.trans hg'
      · exact h.single j k g g' hjold hkold hg hg'

theorem Aligned.slice (h : Aligned old base s) (hf : s.flushes[i]? = some f)
    (hnone : f.tape = true → ∀ g ∈ s.flushes, g.phase.isAppending = false) : Aligned old base (s.slice i f) := by
  unfold Transcript.slice
  split_ifs with hslice
  · obtain ⟨htape, hempty⟩ := Bool.and_eq_true_iff.mp hslice
    have hprefix := h.arrays f (List.mem_of_getElem? hf)
    have hlt : s.lastPersistedMsgCount < (f.look s.messages).length := by
      rw [Bool.not_eq_true', List.isEmpty_eq_false_iff, Flush.newMessages] at hempty
      exact Nat.lt_of_not_le fun hle => hempty (List.drop_eq_nil_of_le hle)
    refine ⟨h.onTape, h.above, h.below, fun g hg => ?_, fun g hg seen newMessages hphase => ?_,
      fun j k g g' hj hk hg hg' => ?_⟩
    · rcases List.mem_or_eq_of_mem_set hg with hold | rfl
      · exact h.arrays g hold
      · exact hprefix
    · rcases List.mem_or_eq_of_mem_set hg with hold | rfl
      · exact h.appending g hold seen newMessages hphase
      · cases hphase
        refine ⟨?_, hlt, hprefix.length_le⟩
        rw [Flush.newMessages]
        congr 1
        exact List.prefix_iff_eq_take.mp hprefix
    -- only this flush is at the tape
    · have hother : ∀ {l : ℕ} {x : Flush}, (s.goto i f (.appending (f.look s.messages).length
          (f.newMessages s))).flushes[l]? = some x → x.phase.isAppending = true → l = i := by
        intro l x hl hx
        rcases Lists.getElem?_set_cases hl with ⟨hli, -⟩ | ⟨-, hold⟩
        · exact hli
        · rw [hnone htape x (List.mem_of_getElem? hold)] at hx
          cases hx
      exact (hother hj hg).trans (hother hk hg').symm
  · exact h.goto hf rfl

theorem Aligned.appended (h : Aligned old base s) (hf : s.flushes[i]? = some f) {seen : ℕ} {newMessages : List Message}
    (hphase : f.phase = .appending seen newMessages) (hseen : (f.look s.messages).length = seen) :
    Aligned old base { s.goto i f .finished with
      tape := s.tape ++ messagesToEntries newMessages
      lastPersistedMsgCount := (f.look s.messages).length } := by
  have hmem := List.mem_of_getElem? hf
  obtain ⟨hnew, hlt, hle⟩ := h.appending f hmem seen newMessages hphase
  have hfin : Aligned old base (s.goto i f .finished) := h.goto hf rfl
  -- no other flush is at the tape
  have hothers : ∀ g ∈ (s.goto i f .finished).flushes, g.phase.isAppending = false := by
    intro g hg
    obtain ⟨j, hj⟩ := Lists.exists_getElem?_of_mem hg
    rcases Lists.getElem?_set_cases hj with ⟨-, rfl⟩ | ⟨hji, hold⟩
    · rfl
    · by_contra happ
      rw [Bool.not_eq_false] at happ
      exact hji (h.single j i g f hold hf happ (by rw [hphase]; rfl))
  refine ⟨?_, ?_, ?_, hfin.arrays, fun g hg seen' newMessages' hphase' => ?_, hfin.single⟩
  · change recorded (s.tape ++ messagesToEntries newMessages) = _
    rw [recorded_append, recorded_messagesToEntries, h.onTape, List.append_assoc, hnew, hseen]
    change old ++ (messagesToEntries _ ++ messagesToEntries _) = old ++ messagesToEntries ((s.messages.take seen).drop base)
    rw [messagesToEntries, messagesToEntries, ← List.map_append,
      take_drop_append s.messages h.above (Nat.le_of_lt hlt) hle]
    rfl
  · have := h.above
    change base ≤ (f.look s.messages).length
    omega
  · change (f.look s.messages).length ≤ s.messages.length
    omega
  · have hfalse := hothers g hg
    rw [hphase'] at hfalse
    cases hfalse

theorem aligned_step {e : TranscriptEvent} (h : Aligned old base s) (hok : Orderly s e) (hs : s.step e = some s') :
    Aligned old base s' := by
  cases e with
  | message m =>
    rw [Transcript.step, Option.ite_none_right_eq_some] at hs
    exact Option.some.inj hs.2 ▸ h.message m true false
  | turnEnd =>
    rw [Transcript.step, Option.ite_none_right_eq_some] at hs
    exact Option.some.inj hs.2 ▸ ⟨h.onTape, h.above, h.below, h.arrays, h.appending, h.single⟩
  | timer inPlace =>
    rw [Transcript.step, Option.ite_none_right_eq_some] at hs
    refine Option.some.inj hs.2 ▸ h.flushNow true false ?_
    split_ifs
    · exact List.prefix_rfl
    · exact List.prefix_rfl
  | agentEnd messages =>
    rw [Transcript.step, Option.ite_none_right_eq_some] at hs
    have hflush := h.flushNow true true ⟨[], (List.append_nil _).trans hok⟩
    exact Option.some.inj hs.2 ▸
      ⟨hflush.onTape, hflush.above, hflush.below, hflush.arrays, hflush.appending, hflush.single⟩
  | suspend inPlace =>
    rw [Transcript.step, Option.ite_none_right_eq_some] at hs
    have harray : (if inPlace then none else some s.messages).getD s.messages <+: s.messages := by
      split_ifs
      · exact List.prefix_rfl
      · exact List.prefix_rfl
    have hflush := h.flushNow false false harray
    exact Option.some.inj hs.2 ▸
      ⟨hflush.onTape, hflush.above, hflush.below, hflush.arrays, hflush.appending, hflush.single⟩
  | wrote i ok =>
    obtain ⟨f, hf, hs⟩ := Option.bind_eq_some_iff.mp hs
    split at hs
    · cases hs
      split_ifs
      · exact ((h.writeRow _).turns _).slice hf (hok f hf)
      · exact h.slice hf (hok f hf)
    · cases hs
  | appended i ok =>
    obtain ⟨f, hf, hs⟩ := Option.bind_eq_some_iff.mp hs
    split at hs
    · rename_i seen newMessages hphase
      cases hs
      cases ok with
      | true => exact h.appended hf hphase (hok f seen newMessages hf hphase)
      | false => exact h.goto hf rfl
    · cases hs
  | markIdle i ok =>
    obtain ⟨f, hf, hs⟩ := Option.bind_eq_some_iff.mp hs
    split at hs
    · rw [Option.ite_none_right_eq_some] at hs
      obtain ⟨-, hs⟩ := hs
      cases hs
      split_ifs
      · exact (h.writeRow _).goto hf rfl
      · exact h.goto hf rfl
    · cases hs
  | startIdle ok =>
    obtain ⟨messages, -, hs⟩ := Option.bind_eq_some_iff.mp hs
    cases hs
    split_ifs
    · exact ⟨h.onTape, h.above, h.below, h.arrays, h.appending, h.single⟩
    · exact ⟨h.onTape, h.above, h.below, h.arrays, h.appending, h.single⟩
  | record =>
    cases hs
    refine ⟨?_, h.above, h.below, h.arrays, h.appending, h.single⟩
    rw [recorded_append]
    exact (List.append_nil _).trans h.onTape

end Aligned

/-- A start that has loaded the tape begins with its messages, one that has not with the row's and a tape that is
taken to be without any. -/
theorem aligned_start (messagesJson : List Message) (turnCount : ℕ) (tape : List Entry) (loaded : Bool) :
    Aligned (recorded tape) (Transcript.start messagesJson turnCount tape loaded).lastPersistedMsgCount
      (.start messagesJson turnCount tape loaded) where
  onTape := by
    rw [List.drop_eq_nil_of_le (List.length_take_le _ _)]
    exact (List.append_nil _).symm
  above := Nat.le_refl _
  below := by
    rw [Transcript.start]
    cases loaded with
    | false => exact Nat.zero_le _
    | true =>
      simp only [if_true, restore]
      split_ifs
      · exact Nat.zero_le _
      · exact Nat.le_refl _
  arrays f hf := by cases hf
  appending f hf := by cases hf
  single i j f g hf := by cases hf

end Nexal.Workers
