import Mathlib.Data.List.Pairwise
import Mathlib.Data.List.ReduceOption
import Nexal.Lib.JsText
import Nexal.Lib.Runs
import Nexal.Proofs.StreamReplies
import Nexal.Spec.WebCommands

/-! The transcript of the web client: what it keeps over a reload of the page, and what a streamed message of the agent
looks like in it, from the events of the agent to the text that is shown. -/

namespace Nexal.Transcript

open StreamReplies (JsString Delivery Episode Sent)

variable {μ : Type} {s s' : State μ} {e : Event μ} {events : List (Event μ)} {l l' : List (Message μ)}

/-! The copy -/

theorem persisted_role (l : List (Message μ)) : ∀ m ∈ persisted l, m.role ≠ .system := by
  intro m hm
  obtain ⟨m', hm', rfl⟩ := List.mem_map.mp hm
  exact of_decide_eq_true (List.mem_filter.mp (List.mem_of_mem_drop hm')).2

theorem persisted_closed (l : List (Message μ)) : ∀ m ∈ persisted l, closed m = m := by
  intro m hm
  obtain ⟨m', -, rfl⟩ := List.mem_map.mp hm
  rfl

theorem length_persisted_le (l : List (Message μ)) : (persisted l).length ≤ MAX_PERSISTED_MESSAGES := by
  unfold persisted
  dsimp only
  rw [List.length_map, List.length_drop]
  omega

theorem persisted_persisted (l : List (Message μ)) : persisted (persisted l) = persisted l := by
  have hrole : (persisted l).filter (·.role ≠ .system) = persisted l :=
    List.filter_eq_self.mpr fun m hm => decide_eq_true (persisted_role l m hm)
  have hlength : (persisted l).length - MAX_PERSISTED_MESSAGES = 0 := Nat.sub_eq_zero_of_le (length_persisted_le l)
  rw [persisted, hrole, hlength, List.drop_zero]
  exact Lists.map_eq_self_iff.mpr (persisted_closed l)

/-- What is saved is read back as it is. -/
theorem load_persisted (l : List (Message μ)) : loadCachedMessages (some (persisted l)) = persisted l := by
  have hkind : (persisted l).filter isPersistableMessage = persisted l := by
    refine List.filter_eq_self.mpr fun m hm => decide_eq_true ?_
    have hrole := persisted_role l m hm
    cases h : m.role with
    | user => exact Or.inl rfl
    | agent => exact Or.inr rfl
    | system => exact absurd h hrole
  rw [loadCachedMessages, hkind]
  exact Lists.map_eq_self_iff.mpr (persisted_closed l)

theorem persisted_nil : persisted ([] : List (Message μ)) = [] := by
  rw [persisted, List.filter_nil, List.drop_nil, List.map_nil]

/-- The last thousand messages of the user and the agent, as a page shows them that has seen no stream. -/
def lastSaid (messages : List (Message μ)) : List (Message μ) :=
  ((messages.reverse.filter fun m => m.role = .user ∨ m.role = .agent).take 1000).reverse.map fun m =>
    { m with streaming := false, streamId := none }

theorem persisted_eq_lastSaid (l : List (Message μ)) : persisted l = lastSaid l := by
  have hkind : ∀ m ∈ l, (decide (m.role = .user ∨ m.role = .agent)) = decide (m.role ≠ .system) := by
    intro m _
    cases m.role <;> rfl
  rw [lastSaid, List.filter_reverse, List.filter_congr hkind, List.take_reverse, List.reverse_reverse]
  rfl

/-! Ids -/

def Ascending (l : List (Message μ)) : Prop := l.Pairwise fun m m' => m.id < m'.id

theorem ascending_iff : Ascending l ↔ (l.map (·.id)).Pairwise (· < ·) := List.pairwise_map.symm

theorem ascending_persisted (h : Ascending l) : Ascending (persisted l) :=
  List.pairwise_map.mpr ((h.filter _).drop)

theorem ascending_load (h : Ascending l) : Ascending (loadCachedMessages (some l)) :=
  List.pairwise_map.mpr (h.filter _)

/-- Ids that ascend and stay below the next one, in the copy as well, which is a saved one. -/
structure Kept (s : State μ) : Prop where
  ids : Ascending s.messages
  below : ∀ m ∈ s.messages, m.id < s.nextId
  stored : ∀ l ∈ s.stored, Ascending l
  written : ∃ l, loadCachedMessages s.stored = persisted l

theorem kept_push (h : Kept s) (role : Role) (text : JsString) (ts : ℤ) (streamId : Option String) (metadata : Option μ) :
    Kept (push s role text ts streamId metadata) where
  ids := by
    refine List.pairwise_append.mpr ⟨h.ids, List.pairwise_singleton _ _, fun m hm m' hm' => ?_⟩
    rw [List.mem_singleton.mp hm']
    exact h.below m hm
  below m hm := by
    rcases List.mem_append.mp hm with hold | hnew
    · exact (h.below m hold).trans (Nat.lt_succ_self _)
    · rw [List.mem_singleton.mp hnew]
      exact Nat.lt_succ_self _
  stored := h.stored
  written := h.written

theorem kept_withStreaming {streamId : String} {change : Message μ → Message μ} (h : Kept s)
    (hl : withStreaming s.messages streamId change = some l) (hchange : ∀ m, (change m).id = m.id) (typing : Bool) :
    Kept { s with messages := l, typing := typing, saving := true } := by
  have hids : l.map (·.id) = s.messages.map (·.id) := Lists.map_of_modifyLast hchange hl
  refine ⟨?_, fun m hm => ?_, h.stored, h.written⟩
  · rw [ascending_iff, hids, ← ascending_iff]
    exact h.ids
  · have hm' : m.id ∈ s.messages.map (·.id) := hids ▸ List.mem_map_of_mem hm
    obtain ⟨m', hmem, heq⟩ := List.mem_map.mp hm'
    rw [← heq]
    exact h.below m' hmem

theorem kept_save (h : Kept s) (refused : Bool) : Kept (saveCachedMessages s refused) := by
  unfold saveCachedMessages
  split_ifs
  · exact h
  · refine ⟨h.ids, h.below, fun l hl => ?_, ⟨s.messages, load_persisted _⟩⟩
    rw [← Option.some.inj hl]
    exact ascending_persisted h.ids

theorem kept_createChat {stored : Option (List (Message μ))} (h : ∀ l ∈ stored, Ascending l)
    (hwritten : ∃ l, loadCachedMessages stored = persisted l) : Kept (createChat stored) where
  ids := by
    cases stored with
    | none => exact .nil
    | some l => exact ascending_load (h l rfl)
  below m hm := by
    have hid : m.id ∈ (loadCachedMessages stored).map (·.id) := List.mem_map_of_mem hm
    unfold createChat
    dsimp only
    split
    · rename_i last hlast
      have hle := (List.max?_eq_some_iff.mp hlast).2 m.id hid
      omega
    · rename_i hnone
      rw [List.max?_eq_none_iff.mp hnone] at hid
      cases hid
  stored := h
  written := hwritten

theorem kept_step (h : Kept s) (hs : step s e = some s') : Kept s' := by
  cases e with
  | reply text metadata ts =>
    cases hs
    exact kept_push (s := { s with typing := false }) { h with } ..
  | replyChunk messageId delta ts =>
    cases hs
    unfold onReplyChunk
    split
    · rename_i messages hmessages
      exact kept_withStreaming h hmessages (fun _ => rfl) _
    · exact kept_push (s := { s with typing := false }) { h with } ..
  | replyEnd messageId =>
    cases hs
    unfold onReplyEnd
    split
    · rename_i messages hmessages
      exact kept_withStreaming h hmessages (fun _ => rfl) _
    · exact h
  | commandResult muted note ts =>
    cases hs
    cases muted with
    | true => exact h
    | false => exact kept_push h ..
  | pushSystem text ts =>
    cases hs
    exact kept_push h ..
  | sendText trimmed connected ts =>
    cases hs
    unfold sendText
    split_ifs
    · exact h
    · exact kept_push h ..
    · exact kept_push h ..
  | saveTimeout refused =>
    rw [step] at hs
    split_ifs at hs
    cases hs
    exact kept_save (s := { s with saving := false }) { h with } refused
  | clearMessages refused =>
    cases hs
    have hcleared : Kept { s with messages := [] } := ⟨.nil, fun _ hm => absurd hm List.not_mem_nil, h.stored, h.written⟩
    exact kept_save hcleared refused
  | reload =>
    cases hs
    exact kept_createChat h.stored h.written
  | typing | typingTimeout =>
    cases hs
    exact { h with }

theorem kept_init : Kept (init : State μ) :=
  kept_createChat (fun _ h => nomatch h) ⟨[], persisted_nil.symm⟩

/-! Nothing unsaved -/

def Event.refused : Event μ → Bool
  | .saveTimeout refused | .clearMessages refused => refused
  | _ => false

/-- With no save to come, a page loaded anew finds all there is to be found. -/
def Saved (s : State μ) : Prop := s.saving = false → loadCachedMessages s.stored = persisted s.messages

theorem saved_step (hkept : Kept s) (h : Saved s) (hs : step s e = some s') (hrefused : e.refused = false) : Saved s' := by
  cases e with
  | replyChunk messageId delta ts =>
    cases hs
    unfold onReplyChunk
    split <;> exact fun hsaving => nomatch hsaving
  | replyEnd messageId =>
    cases hs
    unfold onReplyEnd
    split
    · exact fun hsaving => nomatch hsaving
    · exact h
  | commandResult muted note ts =>
    cases hs
    cases muted with
    | true => exact h
    | false => exact fun hsaving => nomatch hsaving
  | sendText trimmed connected ts =>
    cases hs
    unfold sendText
    split_ifs
    · exact h
    · exact fun hsaving => nomatch hsaving
    · exact fun hsaving => nomatch hsaving
  | saveTimeout refused =>
    rw [step] at hs
    split_ifs at hs
    cases hs
    rw [Event.refused] at hrefused
    rw [hrefused]
    exact fun _ => load_persisted _
  | clearMessages refused =>
    cases hs
    rw [Event.refused] at hrefused
    rw [hrefused]
    exact fun _ => load_persisted _
  | reload =>
    cases hs
    intro _
    obtain ⟨l, hl⟩ := hkept.written
    show loadCachedMessages s.stored = persisted (loadCachedMessages s.stored)
    rw [hl, persisted_persisted]
  | reply text metadata ts | pushSystem text ts =>
    cases hs
    exact fun hsaving => nomatch hsaving
  | typing | typingTimeout =>
    cases hs
    exact h

theorem saved_init : Saved (init : State μ) := fun _ => persisted_nil.symm

/-- In every run the ids ascend, so that no two messages share one, also over reloads of the page; and while the storage
refuses nothing and no save is to come, a reload shows the last messages of the user and the agent. -/
theorem transcript_kept (h : Runs.run step init events = some s) : Ascending s.messages ∧
    ((∀ e ∈ events, e.refused = false) → s.saving = false →
      ∀ s', step s .reload = some s' → s'.messages = lastSaid s.messages) := by
  refine ⟨(Runs.run_inv_all Kept (fun _ _ _ hk hs => kept_step hk hs) kept_init h).ids, fun hrefused hsaving s' hs => ?_⟩
  have hinv : Kept s ∧ Saved s :=
    Runs.run_inv (fun s => Kept s ∧ Saved s) (fun s e s' hi he hs => ⟨kept_step hi.1 hs, saved_step hi.1 hi.2 hs he⟩)
      ⟨kept_init, saved_init⟩ (Runs.runOk_of_mem (fun e he _ => hrefused e he) init) h
  cases hs
  rw [← persisted_eq_lastSaid]
  exact hinv.2 hsaving

/-- A page that is sent to while a message streams. -/
def page : List (Event Unit) :=
  [.pushSystem (ascii "connected") 1, .sendText [63] true 2, .typing, .replyChunk StreamReplies.spoken.id [72] 3,
    .replyChunk StreamReplies.spoken.id [105] 4, .saveTimeout false, .sendText [33] true 5,
    .replyChunk StreamReplies.spoken.id [33] 6, .replyEnd StreamReplies.spoken.id, .saveTimeout false]

def shown : State Unit where
  messages := [⟨1, none, .system, ascii "connected", 1, false, none⟩, ⟨2, none, .user, [63], 2, false, none⟩,
    ⟨3, some StreamReplies.spoken.id, .agent, [72, 105, 33], 3, false, none⟩, ⟨4, none, .user, [33], 5, false, none⟩]
  nextId := 5
  stored := some [⟨2, none, .user, [63], 2, false, none⟩, ⟨3, none, .agent, [72, 105, 33], 3, false, none⟩,
    ⟨4, none, .user, [33], 5, false, none⟩]
  saving := false
  typing := false

theorem page_shown : Runs.run step init page = some shown := by
  rfl

theorem transcript_kept_page :
    Ascending shown.messages ∧ ∀ s', step shown .reload = some s' → s'.messages = lastSaid shown.messages :=
  ⟨(transcript_kept page_shown).1, (transcript_kept page_shown).2 (by decide) rfl⟩

/-! Streams. What a stream has made of the transcript: the messages that have a stream id. -/

structure Bubble where
  messageId : String
  role : Role
  text : JsString
  streaming : Bool

def bubbleOf (m : Message μ) : Option Bubble := m.streamId.map fun id => ⟨id, m.role, m.text, m.streaming⟩

def bubbles (l : List (Message μ)) : List Bubble := l.filterMap bubbleOf

inductive Piece where
  | chunk (messageId : String) (delta : JsString)
  | fin (messageId : String)

def Piece.under : Piece → String
  | .chunk id _ | .fin id => id

def Event.piece : Event μ → Option Piece
  | .replyChunk id delta _ => some (.chunk id delta)
  | .replyEnd id => some (.fin id)
  | _ => none

/-- What the page gets of what goes to the sender; `wire` is what the encoding makes of a text. -/
def carry (wire : JsString → JsString) : Sent → Option Piece
  | .chunk _ id delta => some (.chunk id (wire delta))
  | .fin _ id => some (.fin id)
  | .reply _ _ _ => none

def Event.inPage : Event μ → Bool
  | .clearMessages _ | .reload => false
  | _ => true

def put (l : List Bubble) : Piece → List Bubble
  | .chunk id delta =>
    (Lists.modifyLast (fun b => b.messageId = id) (fun b => { b with text := b.text ++ delta }) l).getD
      (l ++ [⟨id, .agent, delta, true⟩])
  | .fin id => (Lists.modifyLast (fun b => b.messageId = id) (fun b => { b with streaming := false }) l).getD l

section Put
variable {id : String} {pieces : List Piece} {bs : List Bubble} {b : Bubble}

theorem bubbles_push (s : State μ) (role : Role) (text : JsString) (ts : ℤ) (metadata : Option μ) :
    bubbles (push s role text ts none metadata).messages = bubbles s.messages := by
  simp [bubbles, push, bubbleOf]

theorem bubbles_withStreaming {change : Message μ → Message μ} {change' : Bubble → Bubble}
    (hchange : ∀ m, bubbleOf (change m) = (bubbleOf m).map change') (l : List (Message μ)) (id : String) :
    Lists.modifyLast (fun b => b.messageId = id) change' (bubbles l) = (withStreaming l id change).map bubbles := by
  refine Lists.modifyLast_filterMap (fun m => ?_) hchange l
  unfold bubbleOf
  cases m.streamId <;> simp

theorem bubbles_onReplyChunk (s : State μ) (id : String) (delta : JsString) (ts : ℤ) :
    bubbles (onReplyChunk s id delta ts).messages = put (bubbles s.messages) (.chunk id delta) := by
  have hchange : ∀ m : Message μ, bubbleOf { m with text := m.text ++ delta } =
      (bubbleOf m).map fun b => { b with text := b.text ++ delta } := by
    intro m
    unfold bubbleOf
    cases m.streamId <;> rfl
  rw [put, bubbles_withStreaming hchange, onReplyChunk]
  cases withStreaming s.messages id fun m => { m with text := m.text ++ delta } with
  | some messages => rfl
  | none => simp [bubbles, push, bubbleOf]

theorem bubbles_onReplyEnd (s : State μ) (id : String) :
    bubbles (onReplyEnd s id).messages = put (bubbles s.messages) (.fin id) := by
  have hchange : ∀ m : Message μ, bubbleOf { m with streaming := false } =
      (bubbleOf m).map fun b => { b with streaming := false } := by
    intro m
    unfold bubbleOf
    cases m.streamId <;> rfl
  rw [put, bubbles_withStreaming hchange, onReplyEnd]
  cases withStreaming s.messages id fun m => { m with streaming := false } with
  | some messages => rfl
  | none => rfl

/-- Only the pieces of streams touch the bubbles. -/
theorem bubbles_step (hs : step s e = some s') (hpage : e.inPage = true) :
    bubbles s'.messages = e.piece.toList.foldl put (bubbles s.messages) := by
  cases e with
  | replyChunk messageId delta ts =>
    cases hs
    exact bubbles_onReplyChunk s messageId delta ts
  | replyEnd messageId =>
    cases hs
    exact bubbles_onReplyEnd s messageId
  | commandResult muted note ts =>
    cases hs
    cases muted with
    | true => rfl
    | false => exact bubbles_push s _ _ _ _
  | sendText trimmed connected ts =>
    cases hs
    unfold sendText
    split_ifs
    · rfl
    · exact bubbles_push s _ _ _ _
    · exact bubbles_push s _ _ _ _
  | saveTimeout refused =>
    rw [step] at hs
    split_ifs at hs
    cases hs
    cases refused <;> rfl
  | clearMessages | reload => cases hpage
  | reply text metadata ts =>
    cases hs
    exact bubbles_push { s with typing := false } _ _ _ _
  | pushSystem text ts =>
    cases hs
    exact bubbles_push s _ _ _ _
  | typing | typingTimeout =>
    cases hs
    rfl

theorem bubbles_run (h : Runs.run step s events = some s') (hpage : ∀ e ∈ events, e.inPage = true) :
    bubbles s'.messages = (events.filterMap Event.piece).foldl put (bubbles s.messages) := by
  induction events generalizing s with
  | nil =>
    cases h
    rfl
  | cons e events ih =>
    obtain ⟨m, hs, hrest⟩ := Runs.run_cons h
    rw [ih hrest fun e' he' => hpage e' (List.mem_cons_of_mem _ he'), bubbles_step hs (hpage e List.mem_cons_self),
      List.filterMap_cons, ← List.foldl_append]
    cases e.piece <;> rfl

/-! One stream -/

theorem put_new (hnew : ∀ b ∈ bs, b.messageId ≠ id) (delta : JsString) :
    put bs (.chunk id delta) = bs ++ [⟨id, .agent, delta, true⟩] ∧ put bs (.fin id) = bs := by
  have hnone : ∀ b ∈ bs, decide (b.messageId = id) = false := fun b hb => decide_eq_false (hnew b hb)
  rw [put, put, Lists.modifyLast_eq_none hnone, Lists.modifyLast_eq_none hnone]
  exact ⟨rfl, rfl⟩

theorem put_last (bs : List Bubble) (hid : b.messageId = id) (delta : JsString) :
    put (bs ++ [b]) (.chunk id delta) = bs ++ [{ b with text := b.text ++ delta }] ∧
      put (bs ++ [b]) (.fin id) = bs ++ [{ b with streaming := false }] := by
  have hlast : decide (b.messageId = id) = true := decide_eq_true hid
  rw [put, put, Lists.modifyLast_concat (p := fun b' => decide (b'.messageId = id)) bs hlast,
    Lists.modifyLast_concat (p := fun b' => decide (b'.messageId = id)) bs hlast]
  exact ⟨rfl, rfl⟩

theorem put_chunks (bs : List Bubble) (b : Bubble) (deltas : List JsString) :
    (deltas.map (Piece.chunk b.messageId)).foldl put (bs ++ [b]) = bs ++ [{ b with text := b.text ++ deltas.flatten }] := by
  induction deltas generalizing b with
  | nil => rw [List.flatten_nil, List.append_nil, List.map_nil, List.foldl_nil]
  | cons delta deltas ih =>
    rw [List.map_cons, List.foldl_cons, (put_last bs rfl delta).1, List.flatten_cons, ← List.append_assoc]
    exact ih { b with text := b.text ++ delta }

/-- The pieces of one stream make at most one bubble, at the end. -/
theorem put_stream (hpieces : ∀ p ∈ pieces, p.under = id) (hnew : ∀ b ∈ bs, b.messageId ≠ id) (own : Option Bubble)
    (hown : ∀ b ∈ own, b.messageId = id) :
    ∃ own' : Option Bubble, pieces.foldl put (bs ++ own.toList) = bs ++ own'.toList ∧
    ∀ b ∈ own', b.messageId = id := by
  induction pieces generalizing own with
  | nil => exact ⟨own, rfl, hown⟩
  | cons p pieces ih =>
    have hrest := ih fun p' hp' => hpieces p' (List.mem_cons_of_mem _ hp')
    have hid := hpieces p List.mem_cons_self
    rw [List.foldl_cons]
    cases own with
    | none =>
      rw [Option.toList_none, List.append_nil]
      cases p with
      | chunk id' delta =>
        obtain rfl : id' = id := hid
        rw [(put_new hnew delta).1]
        exact hrest (some ⟨id', .agent, delta, true⟩) fun b hb => by rw [← Option.some.inj hb]
      | fin id' =>
        obtain rfl : id' = id := hid
        rw [(put_new hnew []).2]
        simpa using hrest none fun b hb => nomatch hb
    | some b =>
      have hb := hown b rfl
      rw [Option.toList_some]
      cases p with
      | chunk id' delta =>
        obtain rfl : id' = id := hid
        rw [(put_last bs hb delta).1]
        exact hrest (some { b with text := b.text ++ delta }) fun b' hb' => by rw [← Option.some.inj hb']; exact hb
      | fin id' =>
        obtain rfl : id' = id := hid
        rw [(put_last bs hb []).2]
        exact hrest (some { b with streaming := false }) fun b' hb' => by rw [← Option.some.inj hb']; exact hb

end Put

/-! Texts that are not cut inside a character -/

section Clean
variable {channelName id : String} {base : List Sent} {text text' : JsString} {r r' : StreamReplies.State} {d : Delivery}
  {ep : Episode} {episodes : List Episode}

def clean : Sent → Bool
  | .chunk _ _ delta => JsText.wellFormed delta
  | .fin _ _ | .reply _ _ _ => true

def Cleanly (r r' : StreamReplies.State) : Prop := ∃ new, r'.sent = r.sent ++ new ∧ ∀ x ∈ new, clean x = true

theorem Cleanly.of_sent_eq (h : r'.sent = r.sent) : Cleanly r r' :=
  ⟨[], by rw [h, List.append_nil], fun _ hx => absurd hx List.not_mem_nil⟩

theorem Cleanly.of_concat {x : Sent} (h : r'.sent = r.sent ++ [x]) (hx : clean x = true) : Cleanly r r' :=
  ⟨[x], h, fun y hy => by rw [List.mem_singleton.mp hy]; exact hx⟩

theorem Cleanly.trans {r'' : StreamReplies.State} (h : Cleanly r r') (h' : Cleanly r' r'') : Cleanly r r'' := by
  obtain ⟨new, hsent, hnew⟩ := h
  obtain ⟨new', hsent', hnew'⟩ := h'
  refine ⟨new ++ new', by rw [hsent', hsent, List.append_assoc], fun x hx => ?_⟩
  rcases List.mem_append.mp hx with hx | hx
  · exact hnew x hx
  · exact hnew' x hx

/-- What is sent of a text is what it adds to the one before it. -/
theorem cleanly_flush (h : StreamReplies.Open base id text r) (hpre : text <+: text') (htext : JsText.wellFormed text = true)
    (htext' : JsText.wellFormed text' = true) (address : StreamReplies.Address) :
    Cleanly r (StreamReplies.flush r address id text') := by
  obtain ⟨rest, rfl⟩ := hpre
  unfold StreamReplies.flush
  split_ifs
  · refine .of_concat rfl ?_
    rw [h.streamSent, List.drop_left, clean]
    exact JsText.wellFormed_of_append htext htext'
  · exact .of_sent_eq rfl

theorem cleanly_finish (r : StreamReplies.State) (d : Delivery) (text : JsString) :
    Cleanly r (StreamReplies.finish true channelName r d text) := by
  unfold StreamReplies.finish
  split
  · exact .of_concat rfl rfl
  · split_ifs
    · exact .of_sent_eq rfl
    · exact .of_concat rfl rfl

theorem text_of_event {message : StreamReplies.AgentMessage}
    (h : d.event = .messageUpdate message ∨ d.event = .messageEnd message) :
    d.text = StreamReplies.extractTextFromContent message.content := by
  rcases h with h | h <;> simp [StreamReplies.Delivery.text, StreamReplies.Delivery.message, h]

theorem cleanly_update (h : StreamReplies.Open base id text r)
    (hevent : ∃ message, d.event = .messageUpdate message ∧ message.role = .assistant)
    (hpre : text <+: d.text) (htext : JsText.wellFormed text = true) (htext' : JsText.wellFormed d.text = true) :
    Cleanly r (StreamReplies.onEvent true channelName r d) := by
  obtain ⟨message, hevent, hrole⟩ := hevent
  have hupdate : StreamReplies.onEvent true channelName r d =
      StreamReplies.flush r ⟨channelName, d.last.chatId⟩ id d.text := by
    rw [text_of_event (.inl hevent)]
    simp [StreamReplies.onEvent, hevent, hrole, StreamReplies.onUpdate, h.current]
  rw [hupdate]
  exact cleanly_flush h hpre htext htext' _

theorem cleanly_final (h : StreamReplies.Open base id text r)
    (hevent : ∃ message, d.event = .messageEnd message ∧ message.role = .assistant)
    (hpre : text <+: d.text) (htext : JsText.wellFormed text = true) (htext' : JsText.wellFormed d.text = true) :
    Cleanly r (StreamReplies.onEvent true channelName r d) := by
  obtain ⟨message, hevent, hrole⟩ := hevent
  have hend : StreamReplies.onEvent true channelName r d =
      StreamReplies.finish true channelName (StreamReplies.flush r ⟨channelName, d.last.chatId⟩ id d.text) d d.text := by
    rw [text_of_event (.inr hevent)]
    simp [StreamReplies.onEvent, hevent, hrole, StreamReplies.onEnd, StreamReplies.flushTail, h.current]
  rw [hend]
  exact (cleanly_flush h hpre htext htext' _).trans (cleanly_finish _ _ _)

theorem cleanly_updates (channelName : String) {updates : List Delivery} (h : StreamReplies.Open base id text r)
    (htext : JsText.wellFormed text = true)
    (hevents : ∀ d ∈ updates, ∃ message, d.event = .messageUpdate message ∧ message.role = .assistant)
    (hchain : List.IsChain (· <+: ·) (text :: updates.map Delivery.text))
    (htexts : ∀ d ∈ updates, JsText.wellFormed d.text = true) :
    Cleanly r (StreamReplies.run true channelName r updates) ∧
      JsText.wellFormed ((updates.map Delivery.text).getLastD text) = true := by
  induction updates generalizing r text with
  | nil => exact ⟨.of_sent_eq rfl, htext⟩
  | cons d updates ih =>
    obtain ⟨hpre, hrest⟩ := List.isChain_cons_cons.mp hchain
    have hevent := hevents d List.mem_cons_self
    have hd := htexts d List.mem_cons_self
    obtain ⟨hclean, hlast⟩ :=
      ih (h.update channelName hevent hpre) hd (fun d' hd' => hevents d' (List.mem_cons_of_mem _ hd'))
      hrest fun d' hd' => htexts d' (List.mem_cons_of_mem _ hd')
    rw [List.map_cons, List.getLastD_cons]
    exact ⟨(cleanly_update h hevent hpre htext hd).trans hclean, hlast⟩

/-- No text of the message, as far as it is known, ends inside a character. -/
def Readable (ep : Episode) : Prop := ∀ d ∈ ep.updates ++ ep.final.toList, JsText.wellFormed d.text = true

theorem cleanly_episode (hok : ep.Ok) (hread : Readable ep) (r : StreamReplies.State) :
    Cleanly r (StreamReplies.run true channelName r ep.deliveries) := by
  have hrun : StreamReplies.run true channelName r ep.deliveries =
      StreamReplies.run true channelName (StreamReplies.run true channelName (StreamReplies.onStart r ep.start) ep.updates)
        ep.final.toList := by
    rw [← StreamReplies.run_append, ← StreamReplies.onEvent_start true channelName hok r]
    rfl
  have hchain := hok.extends_
  rw [List.map_append] at hchain
  have hnil : List.IsChain (· <+: ·) (([] : JsString) :: ep.updates.map Delivery.text) :=
    (hchain.left_of_append).cons fun y _ => List.nil_prefix
  have hstart := StreamReplies.open_onStart r ep.start
  have hopen := hstart.updates channelName hok.updates hnil
  obtain ⟨hclean, hlast⟩ := cleanly_updates channelName hstart rfl hok.updates hnil
    fun d hd => hread d (List.mem_append_left _ hd)
  have hfirst : Cleanly r (StreamReplies.onStart r ep.start) := .of_sent_eq rfl
  rw [hrun]
  refine (hfirst.trans hclean).trans ?_
  cases hfinal : ep.final with
  | none => exact .of_sent_eq rfl
  | some d =>
    rw [hfinal] at hchain
    have hpre : (ep.updates.map Delivery.text).getLastD [] <+: d.text := by
      rw [List.getLastD_eq_getLast?]
      cases hmax : (ep.updates.map Delivery.text).getLast? with
      | none => exact List.nil_prefix
      | some text => exact (List.isChain_append.mp hchain).2.2 text hmax d.text rfl
    exact cleanly_final hopen (hok.final d hfinal) hpre hlast (hread d (List.mem_append_right _ (by simp [hfinal])))

theorem cleanly_run (channelName : String) (hok : ∀ ep ∈ episodes, ep.Ok) (hread : ∀ ep ∈ episodes, Readable ep)
    (r : StreamReplies.State) :
    Cleanly r (StreamReplies.run true channelName r (episodes.flatMap Episode.deliveries)) := by
  induction episodes generalizing r with
  | nil => exact .of_sent_eq rfl
  | cons ep episodes ih =>
    rw [List.flatMap_cons, StreamReplies.run_append]
    exact (cleanly_episode (hok ep List.mem_cons_self) (hread ep List.mem_cons_self) r).trans
      (ih (fun ep' hep' => hok ep' (List.mem_cons_of_mem _ hep'))
        (fun ep' hep' => hread ep' (List.mem_cons_of_mem _ hep')) _)

end Clean

/-! Messages -/

/-- What a message comes to: once it has ended, one bubble with its text, or none for an empty one. -/
structure Shown (ep : Episode) (own : Option Bubble) : Prop where
  under : ∀ b ∈ own, b.messageId = ep.id
  whole : ∀ d ∈ ep.final, own = if d.text = [] then none else some ⟨ep.id, .agent, d.text, false⟩

section Messages
variable {wire : JsString → JsString} {channelName : String} {r : StreamReplies.State} {new block : List Sent}
  {deliveries : List Delivery} {ep : Episode} {episodes : List Episode} {bs : List Bubble}

theorem under_of_carry {x : Sent} {p : Piece} (h : carry wire x = some p) : x.under = some p.under := by
  cases x with
  | chunk address id delta =>
    cases h
    rfl
  | fin address id =>
    cases h
    rfl
  | reply => cases h

theorem shown_block (hwire : ∀ text, JsText.wellFormed text = true → wire text = text)
    (hblock : StreamReplies.Streams ep block)
    (hclean : ∀ x ∈ block, clean x = true) (hnew : ∀ b ∈ bs, b.messageId ≠ ep.id) :
    ∃ own : Option Bubble, (block.filterMap (carry wire)).foldl put bs = bs ++ own.toList ∧ Shown ep own := by
  cases hfinal : ep.final with
  | none =>
    have hpieces : ∀ p ∈ block.filterMap (carry wire), p.under = ep.id := by
      intro p hp
      obtain ⟨x, hx, hcarry⟩ := List.mem_filterMap.mp hp
      exact Option.some.inj ((under_of_carry hcarry).symm.trans (hblock.own x hx))
    obtain ⟨own, hput, hown⟩ := put_stream hpieces hnew none fun _ hb => nomatch hb
    rw [Option.toList_none, List.append_nil] at hput
    exact ⟨own, hput, hown, fun d hd => by rw [hfinal] at hd; cases hd⟩
  | some d =>
    obtain ⟨hempty, hparts⟩ := hblock.whole d hfinal
    by_cases htext : d.text = []
    · refine ⟨none, ?_, fun _ hb => (nomatch hb), fun d' hd' => ?_⟩
      · rw [hempty htext, Option.toList_none, List.append_nil, List.filterMap_nil, List.foldl_nil]
      · rw [← Option.some.inj (hfinal.symm.trans hd'), if_pos htext]
    · obtain ⟨parts, chunks, address, hchunks, rfl⟩ := hparts htext
      obtain ⟨part, parts, rfl⟩ : ∃ part rest, parts = part :: rest := by
        refine List.exists_cons_of_ne_nil fun hnil => htext ?_
        rw [← hchunks.text, hnil, List.map_nil, List.flatten_nil]
      have hkept : ∀ p ∈ part :: parts, wire p.2 = p.2 := by
        intro p hp
        refine hwire _ (hclean (.chunk p.1 ep.id p.2) (List.mem_append_left _ ?_))
        rw [hchunks.block]
        exact List.mem_map_of_mem hp
      have hcarry : (chunks ++ [Sent.fin address ep.id]).filterMap (carry wire) =
          ((part :: parts).map (·.2)).map (Piece.chunk ep.id) ++ [.fin ep.id] := by
        rw [hchunks.block, List.filterMap_append, List.filterMap_map, List.map_map, ← List.filterMap_eq_map]
        congr 1
        refine List.filterMap_congr fun p hp => ?_
        rw [Function.comp_apply, carry, hkept p hp]
        rfl
      refine ⟨some ⟨ep.id, .agent, d.text, false⟩, ?_, fun b hb => by rw [← Option.some.inj hb], fun d' hd' => ?_⟩
      · have hput := put_chunks bs ⟨ep.id, .agent, part.2, true⟩ (parts.map (·.2))
        dsimp only at hput
        have hchunk : (((part :: parts).map (·.2)).map (Piece.chunk ep.id)).foldl put bs =
            bs ++ [⟨ep.id, .agent, d.text, true⟩] := by
          rw [List.map_cons, List.map_cons, List.foldl_cons, (put_new hnew part.2).1, hput, ← hchunks.text, List.map_cons,
            List.flatten_cons]
        rw [hcarry, List.foldl_append, hchunk, Option.toList_some]
        exact (put_last (b := ⟨ep.id, .agent, d.text, true⟩) bs rfl []).2
      · rw [← Option.some.inj (hfinal.symm.trans hd'), if_neg htext]

theorem shown_blocks {blocks : List (List Sent)} (hwire : ∀ text, JsText.wellFormed text = true → wire text = text)
    (hblocks : List.Forall₂ StreamReplies.Streams episodes blocks) (hclean : ∀ x ∈ blocks.flatten, clean x = true)
    (hids : (episodes.map Episode.id).Nodup) (hnew : ∀ ep ∈ episodes, ∀ b ∈ bs, b.messageId ≠ ep.id) :
    ∃ owns, List.Forall₂ Shown episodes owns ∧
      (blocks.flatten.filterMap (carry wire)).foldl put bs = bs ++ owns.reduceOption := by
  induction hblocks generalizing bs with
  | nil => exact ⟨[], .nil, (List.append_nil _).symm⟩
  | @cons ep block episodes blocks hblock _ ih =>
    rw [List.map_cons, List.nodup_cons] at hids
    rw [List.flatten_cons] at hclean ⊢
    obtain ⟨own, hput, hshown⟩ := shown_block hwire hblock (fun x hx => hclean x (List.mem_append_left _ hx))
      (hnew ep List.mem_cons_self)
    have hnew' : ∀ ep' ∈ episodes, ∀ b ∈ bs ++ own.toList, b.messageId ≠ ep'.id := by
      intro ep' hep' b hb
      rcases List.mem_append.mp hb with hold | hlast
      · exact hnew ep' (List.mem_cons_of_mem _ hep') b hold
      · rw [hshown.under b (Option.mem_toList.mp hlast)]
        exact fun heq => hids.1 (heq ▸ List.mem_map_of_mem hep')
    obtain ⟨owns, howns, hrest⟩ := ih (fun x hx => hclean x (List.mem_append_right _ hx)) hids.2 hnew'
    refine ⟨own :: owns, .cons hshown howns, ?_⟩
    rw [List.filterMap_append, List.foldl_append, hput, hrest, List.append_assoc]
    cases own <;> rfl

/-- From the events of the agent to the page: whatever else goes on in the page, the messages of a chat that streams end
as one bubble each, in their order, with their whole text and no longer marked as open, and an empty one as none. The
encoding may spoil texts that end inside a character, so none of the texts may. -/
theorem replies_shown (wire : JsString → JsString) (channelName : String)
    (hwire : ∀ text, JsText.wellFormed text = true → wire text = text)
    (hmessages : deliveries.filter Delivery.isAssistant = episodes.flatMap Episode.deliveries)
    (hok : ∀ ep ∈ episodes, ep.Ok)
    (hread : ∀ ep ∈ episodes, Readable ep) (hids : (episodes.map Episode.id).Nodup)
    (hsent : (StreamReplies.run true channelName r deliveries).sent = r.sent ++ new)
    (h : Runs.run step s events = some s') (hpage : ∀ e ∈ events, e.inPage = true)
    (hevents : events.filterMap Event.piece = new.filterMap (carry wire))
    (hnew : ∀ ep ∈ episodes, ∀ b ∈ bubbles s.messages, b.messageId ≠ ep.id) :
    ∃ owns, List.Forall₂ Shown episodes owns ∧ bubbles s'.messages = bubbles s.messages ++ owns.reduceOption := by
  obtain ⟨blocks, hstream, hblocks⟩ := StreamReplies.messages_stream channelName hok r
  obtain ⟨clean', hcleanly, hclean⟩ := cleanly_run channelName hok hread r
  rw [StreamReplies.run_filter, hmessages] at hsent
  have hflat : new = blocks.flatten := List.append_cancel_left (hsent.symm.trans hstream)
  rw [List.append_cancel_left (hcleanly.symm.trans hstream)] at hclean
  rw [bubbles_run h hpage, hevents, hflat]
  exact shown_blocks hwire hblocks hclean hids hnew

end Messages

theorem spoken_ok : StreamReplies.spoken.Ok where
  start := ⟨_, rfl, rfl⟩
  updates d hd := by
    simp only [StreamReplies.spoken, List.mem_cons, List.not_mem_nil, or_false] at hd
    rcases hd with rfl | rfl
    · exact ⟨_, rfl, rfl⟩
    · exact ⟨_, rfl, rfl⟩
  final d hd := by
    rw [← Option.some.inj hd]
    exact ⟨_, rfl, rfl⟩
  extends_ := by decide

def spokenDeliveries : List Delivery :=
  StreamReplies.spoken.deliveries ++ [⟨.toolExecutionEnd, StreamReplies.incoming, 0, ""⟩]

theorem replies_shown_page : ∃ owns, List.Forall₂ Shown [StreamReplies.spoken] owns ∧
    bubbles shown.messages = bubbles (init : State Unit).messages ++ owns.reduceOption := by
  have hmessages : spokenDeliveries.filter Delivery.isAssistant = [StreamReplies.spoken].flatMap Episode.deliveries := rfl
  have hsent : (StreamReplies.run true "ws" StreamReplies.init spokenDeliveries).sent = [] ++ _ := rfl
  refine replies_shown id "ws" (fun _ _ => rfl) hmessages ?_ ?_ (by decide) hsent page_shown (by decide) rfl ?_
  · intro ep hep
    rw [List.mem_singleton.mp hep]
    exact spoken_ok
  · intro ep hep
    rw [List.mem_singleton.mp hep]
    unfold Readable
    decide
  · exact fun _ _ b hb => absurd hb List.not_mem_nil

end Nexal.Transcript
