import Mathlib.Data.List.Chain
import Nexal.Spec.StreamReplies

/-! Streamed replies. While a message is open, what has been sent of it is its text so far, and its length is the
counter; the start of a message resets both, so each message stands for itself. -/

namespace Nexal.StreamReplies

/-- A message of the assistant as it is delivered: its start, its updates, and its end if it has come. -/
structure Episode where
  start : Delivery
  updates : List Delivery
  final : Option Delivery

def Delivery.message (d : Delivery) : Option AgentMessage :=
  match d.event with
  | .messageStart message | .messageUpdate message | .messageEnd message => some message
  | .toolExecutionEnd | .other => none

def Delivery.isAssistant (d : Delivery) : Bool := d.message.any fun message => message.role = .assistant

def Delivery.text (d : Delivery) : JsString := (d.message.map fun message => extractTextFromContent message.content).getD []

namespace Episode

def deliveries (ep : Episode) : List Delivery := ep.start :: (ep.updates ++ ep.final.toList)

def id (ep : Episode) : String := newMsgId ep.start

/-- The deliveries are what they stand for, and each text extends the one before it. -/
structure Ok (ep : Episode) : Prop where
  start : ∃ message, ep.start.event = .messageStart message ∧ message.role = .assistant
  updates : ∀ d ∈ ep.updates, ∃ message, d.event = .messageUpdate message ∧ message.role = .assistant
  final : ∀ d ∈ ep.final, ∃ message, d.event = .messageEnd message ∧ message.role = .assistant
  extends_ : List.IsChain (· <+: ·) ((ep.updates ++ ep.final.toList).map Delivery.text)

end Episode

def Sent.under : Sent → Option String
  | .chunk _ id _ | .fin _ id => some id
  | .reply _ _ _ => none

/-- Chunks under one id that make up the text, none of them empty. -/
structure Chunks (id : String) (text : JsString) (parts : List (Address × JsString)) (block : List Sent) : Prop where
  block : block = parts.map fun p => .chunk p.1 id p.2
  text : (parts.map (·.2)).flatten = text
  ne_nil : ∀ p ∈ parts, p.2 ≠ []

/-- Chunks that make up the text, and one end marker; nothing for an empty text. -/
def Whole (id : String) (text : JsString) (block : List Sent) : Prop :=
  (text = [] → block = []) ∧ (text ≠ [] →
    ∃ parts chunks address, Chunks id text parts chunks ∧ block = chunks ++ [.fin address id])

/-- What goes out for a message, under its own id only. -/
structure Streams (ep : Episode) (block : List Sent) : Prop where
  own : ∀ x ∈ block, x.under = some ep.id
  whole : ∀ d ∈ ep.final, Whole ep.id d.text block

def Episode.reply (channelName : String) (ep : Episode) : List Sent :=
  match ep.final with
  | some d => if d.text = [] then [] else [.reply ⟨channelName, d.last.chatId⟩ d.text d.last.messageId]
  | none => []

variable {supportsStream : Bool} {channelName id : String} {s : State} {d : Delivery} {ep : Episode} {base : List Sent}
  {text text' : JsString} {deliveries : List Delivery} {episodes : List Episode}

/-! Events of others -/

theorem onEvent_of_not_assistant (h : d.isAssistant = false) : onEvent supportsStream channelName s d = s := by
  unfold Delivery.isAssistant Delivery.message at h
  unfold onEvent
  split at h <;> simp_all

theorem run_filter (s : State) (deliveries : List Delivery) :
    run supportsStream channelName s deliveries =
      run supportsStream channelName s (deliveries.filter Delivery.isAssistant) := by
  unfold run
  rw [List.foldl_filter]
  congr 1
  funext s d
  split_ifs with h
  · rfl
  · exact onEvent_of_not_assistant (Bool.not_eq_true _ ▸ h)

theorem run_append (s : State) (l l' : List Delivery) :
    run supportsStream channelName s (l ++ l') = run supportsStream channelName (run supportsStream channelName s l) l' :=
  List.foldl_append

/-! An open message -/

/-- The message is open under the id, and its text so far has been sent since `base`. -/
structure Open (base : List Sent) (id : String) (text : JsString) (s : State) : Prop where
  current : s.current = some id
  streamSent : s.streamSent = text.length
  streamed : s.streamed = true ↔ text ≠ []
  sent : ∃ parts chunks, Chunks id text parts chunks ∧ s.sent = base ++ chunks

theorem current_of_some {s : State} (h : s.streamMsgId = some (newMsgId d)) : s.current = some (newMsgId d) := by
  rw [State.current, h, Option.filter_some_eq_some, decide_eq_true_eq]
  intro hempty
  have hlength := congrArg String.length hempty
  simp only [newMsgId, String.length_append] at hlength
  have hdash : "-".length = 1 := rfl
  have hnone : "".length = 0 := rfl
  omega

theorem open_onStart (s : State) (d : Delivery) : Open s.sent (newMsgId d) [] (onStart s d) where
  current := current_of_some rfl
  streamSent := rfl
  streamed := by simp [onStart]
  sent := ⟨[], [], ⟨rfl, rfl, fun p hp => absurd hp List.not_mem_nil⟩, (List.append_nil _).symm⟩

theorem Open.flush (h : Open base id text s) (hpre : text <+: text') (address : Address) :
    Open base id text' (flush s address id text') := by
  obtain ⟨rest, rfl⟩ := hpre
  unfold StreamReplies.flush
  split_ifs with hlt
  · have hrest : rest ≠ [] := by
      rintro rfl
      rw [h.streamSent, List.append_nil] at hlt
      exact Nat.lt_irrefl _ hlt
    obtain ⟨parts, chunks, hchunks, hsent⟩ := h.sent
    refine ⟨h.current, rfl, iff_of_true rfl (by simp [hrest]), parts ++ [(address, rest)],
      chunks ++ [.chunk address id rest], ?_, ?_⟩
    · refine ⟨?_, ?_, fun p hp => ?_⟩
      · rw [hchunks.block, List.map_append, List.map_singleton]
      · rw [List.map_append, List.flatten_append, hchunks.text, List.map_singleton, List.flatten_singleton]
      · rcases List.mem_append.mp hp with hold | hnew
        · exact hchunks.ne_nil p hold
        · rw [List.mem_singleton.mp hnew]
          exact hrest
    · rw [hsent, h.streamSent, List.drop_left, List.append_assoc]
  · have hrest : rest = [] := by
      rw [h.streamSent, List.length_append] at hlt
      exact List.eq_nil_of_length_eq_zero (by omega)
    rw [hrest, List.append_nil]
    exact h

theorem Open.update (channelName : String) (h : Open base id text s)
    (hevent : ∃ message, d.event = .messageUpdate message ∧ message.role = .assistant)
    (hpre : text <+: d.text) : Open base id d.text (onEvent true channelName s d) := by
  obtain ⟨message, hevent, hrole⟩ := hevent
  have htext : d.text = extractTextFromContent message.content := by
    simp [Delivery.text, Delivery.message, hevent]
  have hupdate : onEvent true channelName s d =
      StreamReplies.flush s ⟨channelName, d.last.chatId⟩ id (extractTextFromContent message.content) := by
    simp [onEvent, hevent, hrole, onUpdate, h.current]
  rw [hupdate, ← htext]
  exact h.flush hpre _

/-- The updates of a message, one after the other. -/
theorem Open.updates (channelName : String) {updates : List Delivery} (h : Open base id text s)
    (hevents : ∀ d ∈ updates, ∃ message, d.event = .messageUpdate message ∧ message.role = .assistant)
    (hchain : List.IsChain (· <+: ·) (text :: updates.map Delivery.text)) :
    Open base id ((updates.map Delivery.text).getLastD text) (run true channelName s updates) := by
  induction updates generalizing s text with
  | nil => exact h
  | cons d updates ih =>
    obtain ⟨hpre, hrest⟩ := List.isChain_cons_cons.mp hchain
    have hopen := h.update channelName (hevents d List.mem_cons_self) hpre
    rw [List.map_cons, List.getLastD_cons]
    exact ih hopen (fun d' hd' => hevents d' (List.mem_cons_of_mem _ hd')) hrest

theorem Chunks.under {parts : List (Address × JsString)} {chunks : List Sent} (h : Chunks id text parts chunks) :
    ∀ x ∈ chunks, x.under = some id := by
  intro x hx
  rw [h.block] at hx
  obtain ⟨part, -, rfl⟩ := List.mem_map.mp hx
  rfl

theorem Chunks.eq_nil {parts : List (Address × JsString)} {chunks : List Sent} (h : Chunks id [] parts chunks) :
    chunks = [] := by
  have hparts : parts = [] := List.eq_nil_iff_forall_not_mem.mpr fun p hp =>
    h.ne_nil p hp (List.flatten_eq_nil_iff.mp h.text p.2 (List.mem_map_of_mem hp))
  rw [h.block, hparts, List.map_nil]

theorem Open.finish (h : Open base id text s) (d : Delivery) :
    ∃ block, (finish true channelName s d text).sent = base ++ block ∧ Whole id text block ∧ ∀ x ∈ block,
      x.under = some id := by
  obtain ⟨parts, chunks, hchunks, hsent⟩ := h.sent
  unfold StreamReplies.finish
  rw [Bool.true_and, h.current]
  by_cases hempty : text = []
  · have hstreamed : s.streamed = false := by
      rw [← Bool.not_eq_true, h.streamed]
      exact not_not_intro hempty
    rw [hstreamed]
    dsimp only
    rw [if_pos hempty]
    subst hempty
    exact ⟨chunks, hsent, ⟨fun _ => hchunks.eq_nil, fun hne => absurd rfl hne⟩, hchunks.under⟩
  · rw [h.streamed.mpr hempty]
    dsimp only
    refine ⟨chunks ++ [.fin ⟨channelName, d.last.chatId⟩ id], ?_, ?_, fun x hx => ?_⟩
    · rw [hsent, List.append_assoc]
    · exact ⟨fun h => absurd h hempty, fun _ => ⟨parts, chunks, _, hchunks, rfl⟩⟩
    · rcases List.mem_append.mp hx with hchunk | hfin
      · exact hchunks.under x hchunk
      · rw [List.mem_singleton.mp hfin]
        rfl

/-- At its end, the rest of a message goes out with the end marker. -/
theorem Open.final (h : Open base id text s) (hevent : ∃ message, d.event = .messageEnd message ∧
      message.role = .assistant)
    (hpre : text <+: d.text) :
    ∃ block, (onEvent true channelName s d).sent = base ++ block ∧ Whole id d.text block ∧ ∀ x ∈ block,
      x.under = some id := by
  obtain ⟨message, hevent, hrole⟩ := hevent
  have htext : d.text = extractTextFromContent message.content := by
    simp [Delivery.text, Delivery.message, hevent]
  have hend : onEvent true channelName s d =
      StreamReplies.finish true channelName (StreamReplies.flush s ⟨channelName, d.last.chatId⟩ id d.text) d d.text := by
    simp [onEvent, hevent, hrole, onEnd, flushTail, h.current, htext]
  rw [hend]
  exact (h.flush hpre _).finish d

/-! Messages -/

theorem onEvent_start (supportsStream : Bool) (channelName : String) (h : ep.Ok) (s : State) :
    onEvent supportsStream channelName s ep.start = onStart s ep.start := by
  obtain ⟨message, hevent, hrole⟩ := h.start
  simp [onEvent, hevent, hrole]

theorem episode_streams (channelName : String) (h : ep.Ok) (s : State) :
    ∃ block, (run true channelName s ep.deliveries).sent = s.sent ++ block ∧ Streams ep block := by
  have hrun : run true channelName s ep.deliveries =
      run true channelName (run true channelName (onStart s ep.start) ep.updates) ep.final.toList := by
    rw [← run_append, ← onEvent_start true channelName h s]
    rfl
  have hchain := h.extends_
  rw [List.map_append] at hchain
  have hnil : List.IsChain (· <+: ·) (([] : JsString) :: ep.updates.map Delivery.text) :=
    (hchain.left_of_append).cons fun y _ => List.nil_prefix
  have hopen := (open_onStart s ep.start).updates channelName h.updates hnil
  rw [hrun]
  cases hfinal : ep.final with
  | none =>
    obtain ⟨parts, chunks, hchunks, hsent⟩ := hopen.sent
    exact ⟨chunks, hsent, hchunks.under, fun d hd => by rw [hfinal] at hd; cases hd⟩
  | some d =>
    rw [hfinal] at hchain
    have hpre : (ep.updates.map Delivery.text).getLastD [] <+: d.text := by
      rw [List.getLastD_eq_getLast?]
      cases hlast : (ep.updates.map Delivery.text).getLast? with
      | none => exact List.nil_prefix
      | some text => exact (List.isChain_append.mp hchain).2.2 text hlast d.text rfl
    obtain ⟨block, hsent, hwhole, hunder⟩ := hopen.final (h.final d hfinal) hpre
    refine ⟨block, hsent, hunder, fun d' hd' => ?_⟩
    cases hfinal.symm.trans hd'
    exact hwhole

/-- Without streaming, the end of a message is all that counts. -/
theorem episode_replies (h : ep.Ok) (s : State) :
    (run false channelName s ep.deliveries).sent = s.sent ++ ep.reply channelName := by
  have hupdates : ∀ (updates : List Delivery) (s : State),
      (∀ d ∈ updates, ∃ message, d.event = .messageUpdate message ∧ message.role = .assistant) →
      run false channelName s updates = s := by
    intro updates
    induction updates with
    | nil => exact fun s _ => rfl
    | cons d updates ih =>
      intro s hevents
      obtain ⟨message, hevent, -⟩ := hevents d List.mem_cons_self
      have hstep : onEvent false channelName s d = s := by
        simp [onEvent, hevent]
      rw [run, List.foldl_cons, hstep]
      exact ih s fun d' hd' => hevents d' (List.mem_cons_of_mem _ hd')
  have hrun : run false channelName s ep.deliveries =
      run false channelName (onStart s ep.start) ep.final.toList := by
    rw [← hupdates ep.updates (onStart s ep.start) h.updates, ← run_append,
      ← onEvent_start false channelName h s]
    rfl
  rw [hrun, Episode.reply]
  cases hfinal : ep.final with
  | none => exact (List.append_nil _).symm
  | some d =>
    obtain ⟨message, hevent, hrole⟩ := h.final d hfinal
    have htext : d.text = extractTextFromContent message.content := by
      simp [Delivery.text, Delivery.message, hevent]
    have hend : run false channelName (onStart s ep.start) (some d).toList =
      finish false channelName (onStart s ep.start) d d.text := by
      simp [run, onEvent, hevent, hrole, onEnd, flushTail, htext]
    rw [hend, finish]
    dsimp only [Bool.false_and]
    split_ifs with hempty
    · exact (List.append_nil _).symm
    · rfl

/-! Sequences of messages -/

theorem messages_stream (channelName : String) (hok : ∀ ep ∈ episodes, ep.Ok) (s : State) :
    ∃ blocks, (run true channelName s (episodes.flatMap Episode.deliveries)).sent = s.sent ++ blocks.flatten ∧
      List.Forall₂ Streams episodes blocks := by
  induction episodes generalizing s with
  | nil => exact ⟨[], (List.append_nil _).symm, .nil⟩
  | cons ep episodes ih =>
    obtain ⟨block, hsent, hstreams⟩ := episode_streams channelName (hok ep List.mem_cons_self) s
    obtain ⟨blocks, hrest, hblocks⟩ :=
      ih (fun ep' hep' => hok ep' (List.mem_cons_of_mem _ hep')) (run true channelName s ep.deliveries)
    refine ⟨block :: blocks, ?_, .cons hstreams hblocks⟩
    rw [List.flatMap_cons, run_append, hrest, hsent, List.flatten_cons, List.append_assoc]

theorem messages_reply (hok : ∀ ep ∈ episodes, ep.Ok) (s : State) :
    (run false channelName s (episodes.flatMap Episode.deliveries)).sent =
      s.sent ++ episodes.flatMap (Episode.reply channelName) := by
  induction episodes generalizing s with
  | nil => exact (List.append_nil _).symm
  | cons ep episodes ih =>
    rw [List.flatMap_cons, run_append, ih fun ep' hep' => hok ep' (List.mem_cons_of_mem _ hep'),
      episode_replies (hok ep List.mem_cons_self), List.flatMap_cons, List.append_assoc]

def sentUnder (id : String) (sent : List Sent) : List Sent := sent.filter fun x => x.under = some id

theorem sentUnder_of_own {block : List Sent} (h : ∀ x ∈ block, x.under = some id) : sentUnder id block = block :=
  List.filter_eq_self.mpr fun x hx => decide_eq_true (h x hx)

theorem sentUnder_of_other {block : List Sent} {id' : String} (h : ∀ x ∈ block, x.under = some id') (hne : id' ≠ id) :
    sentUnder id block = [] :=
  List.filter_eq_nil_iff.mpr fun x hx heq => hne (Option.some.inj ((h x hx).symm.trans (of_decide_eq_true heq)))

theorem sentUnder_others {blocks : List (List Sent)} (hblocks : List.Forall₂ Streams episodes blocks)
    (h : ∀ ep ∈ episodes, ep.id ≠ id) : sentUnder id blocks.flatten = [] := by
  induction hblocks with
  | nil => rfl
  | @cons ep block episodes blocks hstreams _ ih =>
    rw [List.flatten_cons, sentUnder, List.filter_append]
    have hhead := sentUnder_of_other hstreams.own (h ep List.mem_cons_self)
    have htail := ih fun ep' hep' => h ep' (List.mem_cons_of_mem _ hep')
    rw [sentUnder] at hhead htail
    rw [hhead, htail, List.append_nil]

/-- With different ids, what goes out under one is what goes out for its message. -/
theorem sentUnder_message {blocks : List (List Sent)} (hblocks : List.Forall₂ Streams episodes blocks)
    (hids : (episodes.map Episode.id).Nodup) : ∀ ep ∈ episodes, Streams ep (sentUnder ep.id blocks.flatten) := by
  induction hblocks with
  | nil => exact fun ep hep => absurd hep List.not_mem_nil
  | @cons ep block episodes blocks hstreams hrest ih =>
    rw [List.map_cons, List.nodup_cons] at hids
    obtain ⟨hnew, hids⟩ := hids
    have hne : ∀ ep' ∈ episodes, ep'.id ≠ ep.id := fun ep' hep' heq => hnew (heq ▸ List.mem_map_of_mem hep')
    have happend : ∀ id, sentUnder id (block :: blocks).flatten = sentUnder id block ++ sentUnder id blocks.flatten := by
      intro id
      rw [List.flatten_cons, sentUnder, List.filter_append]
      rfl
    intro ep' hep'
    rcases List.mem_cons.mp hep' with rfl | hold
    · rw [happend, sentUnder_of_own hstreams.own, sentUnder_others hrest hne, List.append_nil]
      exact hstreams
    · rw [happend, sentUnder_of_other hstreams.own (hne ep' hold).symm, List.nil_append]
      exact ih hids ep' hold

/-- With a streaming sender, each message goes out in a block of its own, under its own id, as chunks that make up its
text and one end marker; under different ids this is all there is under an id. With another sender, one full reply goes
out for each message with a text. -/
theorem replies_complete (channelName : String)
    (hmessages : deliveries.filter Delivery.isAssistant = episodes.flatMap Episode.deliveries)
    (hok : ∀ ep ∈ episodes, ep.Ok) :
    (∃ blocks, (run true channelName init deliveries).sent = blocks.flatten ∧ List.Forall₂ Streams episodes blocks) ∧
    ((episodes.map Episode.id).Nodup →
      ∀ ep ∈ episodes, Streams ep (sentUnder ep.id (run true channelName init deliveries).sent)) ∧
    (run false channelName init deliveries).sent = episodes.flatMap (Episode.reply channelName) := by
  obtain ⟨blocks, hsent, hblocks⟩ := messages_stream channelName hok init
  rw [← hmessages, ← run_filter] at hsent
  refine ⟨⟨blocks, hsent, hblocks⟩, fun hids => ?_, ?_⟩
  · rw [hsent]
    exact sentUnder_message hblocks hids
  · rw [run_filter, hmessages]
    exact messages_reply hok init

def incoming : Incoming := ⟨"7", some "41"⟩

def say (event : AgentMessage → AgentEvent) (text : JsString) (random : String) : Delivery :=
  ⟨event ⟨.assistant, .blocks [.other, .text text]⟩, incoming, 1700000000000, random⟩

/-- One text in two updates and an end that adds to it. -/
def spoken : Episode := ⟨say .messageStart [] "a1b2c3", [say .messageUpdate [72] "", say .messageUpdate [72, 105] ""],
  some (say .messageEnd [72, 105, 33] "")⟩

/-- A message with nothing but a tool call. -/
def silent : Episode := ⟨say .messageStart [] "d4e5f6", [], some (say .messageEnd [] "")⟩

theorem spoken_streams : Streams spoken (sentUnder spoken.id (run true "ws" init
    (spoken.deliveries ++ [⟨.toolExecutionEnd, incoming, 0, ""⟩] ++ silent.deliveries)).sent) := by
  have hok : ∀ ep ∈ [spoken, silent], ep.Ok := by
    intro ep hep
    simp only [List.mem_cons, List.not_mem_nil, or_false] at hep
    rcases hep with rfl | rfl
    · refine ⟨⟨_, rfl, rfl⟩, ?_, ?_, ?_⟩
      · intro d hd
        simp only [spoken, List.mem_cons, List.not_mem_nil, or_false] at hd
        rcases hd with rfl | rfl
        · exact ⟨_, rfl, rfl⟩
        · exact ⟨_, rfl, rfl⟩
      · rintro d ⟨⟩
        exact ⟨_, rfl, rfl⟩
      · decide
    · refine ⟨⟨_, rfl, rfl⟩, fun d hd => absurd hd List.not_mem_nil, ?_, ?_⟩
      · rintro d ⟨⟩
        exact ⟨_, rfl, rfl⟩
      · decide
  exact (replies_complete "ws" rfl hok).2.1 (by decide) spoken List.mem_cons_self

end Nexal.StreamReplies
