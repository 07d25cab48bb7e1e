import Nexal.Lib.Lists
import Nexal.Spec.Telegram

/-! Whose messages reach the agents. An empty list counts as a hit of its own, and one hit is enough: where only one
of the two lists is set, nothing is refused. -/

namespace Nexal.Telegram

def Done.messages : Done → List TelegramMessage
  | .refused _ _ => []
  | .executed msg _ _ _ => [msg]
  | .buffered _ item => [item.msg]
  | .dispatched items _ => items.map (·.msg)

def State.actedOn (s : State) : List TelegramMessage := s.done.flatMap Done.messages

def Configured (config : TelegramChannelConfig) : Prop := listed config.allowChats ≠ [] ∨ listed config.allowFrom ≠ []

def BothConfigured (config : TelegramChannelConfig) : Prop :=
    listed config.allowChats ≠ [] ∧ listed config.allowFrom ≠ []

/-- The chat or the sender is listed, or the message is forwarded from a channel. -/
def Admitted (config : TelegramChannelConfig) (msg : TelegramMessage) : Prop :=
  chatIdOf msg ∈ listed config.allowChats ∨ (extractSender msg).username ∈ listed config.allowFrom ∨
    isChannelBotForward msg = true

def Blank (download : String → Option (List UInt8)) (msg : TelegramMessage) : Prop :=
    extractContent download msg = ("", [])

def Acts (config : TelegramChannelConfig) (download : String → Option (List UInt8)) (msg : TelegramMessage) : Prop :=
  (allowChat config msg = true ∨ allowUser config msg = true) ∧ ¬Blank download msg

variable {config : TelegramChannelConfig} {download : String → Option (List UInt8)} {s : State} {msg m : TelegramMessage}
  {e : Event} {events : List Event}

/-! The gate -/

theorem passes_iff : allowChat config msg = true ∨ allowUser config msg = true ↔
    ¬BothConfigured config ∨ Admitted config msg := by
  simp only [allowChat, allowUser, BothConfigured, Admitted, Bool.or_eq_true, List.isEmpty_iff, List.contains_iff_mem]
  tauto

theorem acts_iff : Acts config download msg ↔ (¬BothConfigured config ∨ Admitted config msg) ∧ ¬Blank download msg :=
  and_congr passes_iff Iff.rfl

/-! Steps -/

@[simp] theorem actedOn_log (s : State) (d : Done) : (s.log d).actedOn = s.actedOn ++ d.messages := by
  simp [State.actedOn, State.log]

@[simp] theorem actedOn_bufferAlbum (s : State) (groupId : String) (item : Item) :
    (bufferAlbum s groupId item).actedOn = s.actedOn := by
  unfold bufferAlbum
  split <;> rfl

theorem actedOn_handleMessage : m ∈ (handleMessage config download s msg).actedOn ↔
    m ∈ s.actedOn ∨ m = msg ∧ Acts config download msg := by
  unfold handleMessage Acts Blank
  generalize extractContent download msg = content
  obtain ⟨text, images⟩ := content
  dsimp only
  split_ifs with hrefused hblank
  · simp only [Bool.and_eq_true, Bool.not_eq_true'] at hrefused
    simp [Done.messages, hrefused]
  · simp only [Bool.and_eq_true, decide_eq_true_eq, List.isEmpty_iff] at hblank
    simp [hblank]
  · have hpass : allowChat config msg = true ∨ allowUser config msg = true := by
      simpa [or_iff_not_imp_left] using hrefused
    have hnot : (text, images) ≠ ("", []) := by
      simpa [Prod.ext_iff] using hblank
    have hacts : m ∈ s.actedOn ++ [msg] ↔ m ∈ s.actedOn ∨
        m = msg ∧ (allowChat config msg = true ∨ allowUser config msg = true) ∧ (text, images) ≠ ("", []) := by
      rw [List.mem_append, List.mem_singleton, and_iff_left ⟨hpass, hnot⟩]
    cases commandOf config text with
    | some command => exact actedOn_log s _ ▸ hacts
    | none =>
      cases truthy msg.mediaGroupId with
      | some groupId =>
        dsimp only
        rw [actedOn_log, actedOn_bufferAlbum]
        exact hacts
      | none => exact actedOn_log s _ ▸ hacts

/-! Albums -/

def AlbumsOk (s : State) : Prop := ∀ g ∈ s.mediaGroups, ∀ item ∈ g.2, item.msg ∈ s.actedOn

theorem AlbumsOk.log (h : AlbumsOk s) (d : Done) : AlbumsOk (s.log d) := fun g hg item hitem => by
  rw [actedOn_log]
  exact List.mem_append_left _ (h g hg item hitem)

theorem albumsOk_buffered (h : AlbumsOk s) (groupId : String) (item : Item) :
    AlbumsOk ((bufferAlbum s groupId item).log (.buffered groupId item)) := by
  intro g hg item' hitem'
  rw [actedOn_log, actedOn_bufferAlbum]
  unfold bufferAlbum at hg
  split at hg
  · obtain ⟨g', hg', rfl⟩ := List.mem_map.mp hg
    split_ifs at hitem'
    · rcases List.mem_append.mp hitem' with hold | hnew
      · exact List.mem_append_left _ (h g' hg' item' hold)
      · rw [List.mem_singleton.mp hnew]
        exact List.mem_append_right _ List.mem_cons_self
    · exact List.mem_append_left _ (h g' hg' item' hitem')
  · rcases List.mem_append.mp hg with hold | hnew
    · exact List.mem_append_left _ (h g hold item' hitem')
    · rw [List.mem_singleton.mp hnew] at hitem'
      rw [List.mem_singleton.mp hitem']
      exact List.mem_append_right _ List.mem_cons_self

theorem albumsOk_handleMessage (h : AlbumsOk s) : AlbumsOk (handleMessage config download s msg) := by
  unfold handleMessage
  dsimp only
  split_ifs
  · exact h.log _
  · exact h
  · split
    · exact h.log _
    · split
      · exact albumsOk_buffered h _ _
      · exact h.log _

/-- A dispatched album is made of messages that were buffered before. -/
theorem actedOn_dispatchAlbum {items : List Item} (h : ∀ item ∈ items, item.msg ∈ s.actedOn) :
    m ∈ (dispatchAlbum s items).actedOn ↔ m ∈ s.actedOn := by
  cases items with
  | nil => rfl
  | cons first rest =>
    rw [dispatchAlbum, actedOn_log, List.mem_append, or_iff_left_iff_imp]
    intro hm
    obtain ⟨item, hitem, rfl⟩ := List.mem_map.mp hm
    exact h item hitem

theorem albumsOk_step (h : AlbumsOk s) : AlbumsOk (step config s e) := by
  cases e with
  | update up download =>
    simp only [step]
    cases up.msg with
    | some msg => exact albumsOk_handleMessage h
    | none => exact h
  | timer groupId =>
    simp only [step]
    cases hlookup : s.mediaGroups.lookup groupId with
    | none => exact h
    | some items =>
      have hrest : AlbumsOk { s with mediaGroups := s.mediaGroups.filter (·.1 ≠ groupId) } := fun g hg =>
        h g (List.mem_filter.mp hg).1
      cases items with
      | nil => exact hrest
      | cons first rest => exact hrest.log _
  | stop => exact fun g hg => absurd hg List.not_mem_nil

/-! Runs -/

def ActsOn (config : TelegramChannelConfig) (e : Event) (m : TelegramMessage) : Prop :=
  match e with
  | .update up download => up.msg = some m ∧ Acts config download m
  | .timer _ | .stop => False

theorem actedOn_step (h : AlbumsOk s) : m ∈ (step config s e).actedOn ↔ m ∈ s.actedOn ∨ ActsOn config e m := by
  cases e with
  | update up download =>
    simp only [step, ActsOn]
    cases up.msg with
    | some msg =>
      rw [actedOn_handleMessage, Option.some.injEq]
      refine or_congr Iff.rfl ⟨?_, ?_⟩
      · rintro ⟨rfl, hacts⟩
        exact ⟨rfl, hacts⟩
      · rintro ⟨rfl, hacts⟩
        exact ⟨rfl, hacts⟩
    | none => simp
  | timer groupId =>
    simp only [step, ActsOn, or_false]
    cases hlookup : s.mediaGroups.lookup groupId with
    | none => rfl
    | some items => exact actedOn_dispatchAlbum fun item hitem => h _ (Lists.mem_of_lookup_eq_some hlookup) item hitem
  | stop => simp [step, ActsOn, State.actedOn]

theorem actedOn_run (h : AlbumsOk s) : m ∈ (run config s events).actedOn ↔
    m ∈ s.actedOn ∨ ∃ e ∈ events, ActsOn config e m := by
  induction events generalizing s with
  | nil => simp [run]
  | cons e events ih =>
    have hrun : run config s (e :: events) = run config (step config s e) events := rfl
    rw [hrun, ih (albumsOk_step h), actedOn_step h, List.exists_mem_cons_iff, or_assoc]

/-- What comes in with an update, what its files hold, and the message. -/
def Receives (events : List Event) (download : String → Option (List UInt8)) (msg : TelegramMessage) : Prop :=
  ∃ up, Event.update up download ∈ events ∧ up.msg = some msg

theorem actedOn_from_init (botUsername : String) : m ∈ (run config (init botUsername) events).actedOn ↔
    ∃ download, Receives events download m ∧ Acts config download m := by
  have hempty : AlbumsOk (init botUsername) := fun g hg => absurd hg List.not_mem_nil
  have hnone : m ∉ (init botUsername).actedOn := List.not_mem_nil
  rw [actedOn_run hempty, or_iff_right hnone]
  constructor
  · rintro ⟨e, he, hacts⟩
    cases e with
    | update up download => exact ⟨download, ⟨up, he, hacts.1⟩, hacts.2⟩
    | timer groupId => exact hacts.elim
    | stop => exact hacts.elim
  · rintro ⟨download, ⟨up, he, hmsg⟩, hacts⟩
    exact ⟨_, he, hmsg, hacts⟩

/-- Only admitted messages are acted on exactly if every message that comes in is admitted or blank, unless both
lists are set. -/
theorem admitted_only_iff (config : TelegramChannelConfig) (botUsername : String) (events : List Event) :
    (∀ msg ∈ (run config (init botUsername) events).actedOn, Admitted config msg) ↔
      ∀ download msg, Receives events download msg → BothConfigured config ∨ Admitted config msg ∨
        Blank download msg := by
  constructor
  · intro hall download msg hreceives
    by_cases hacts : Acts config download msg
    · exact Or.inr (Or.inl (hall msg ((actedOn_from_init botUsername).mpr ⟨download, hreceives, hacts⟩)))
    · rw [acts_iff] at hacts
      tauto
  · intro hall msg hmsg
    obtain ⟨download, hreceives, hacts⟩ := (actedOn_from_init botUsername).mp hmsg
    have hpass := acts_iff.mp hacts
    rcases hall download msg hreceives with hboth | hadmitted | hblank
    · exact hpass.1.resolve_left (not_not_intro hboth)
    · exact hadmitted
    · exact absurd hblank hpass.2

def textFrom (username text : String) : TelegramMessage where
  messageId := 101
  «from» := some ⟨999, some false, some username, none⟩
  senderChat := none
  chat := ⟨-1, "group", none, none⟩
  date := 1700000000
  mediaGroupId := none
  text := some text
  caption := none
  authorSignature := none
  replyToFrom := none
  forwardFrom := none
  photo := none
  document := none
  sticker := none
  video := none
  voice := none
  animation := none
  audio := none

def received (msg : TelegramMessage) : Event := .update ⟨some msg, none, none⟩ fun _ => none

def bothLists : TelegramChannelConfig := ⟨some ["trusted"], some ["-999"], none⟩

def senderList : TelegramChannelConfig := ⟨some ["trusted"], none, none⟩

theorem admitted_only_trusted : ∀ msg ∈ (run bothLists (init "bot")
    [received (textFrom "stranger" "hi"), received (textFrom "trusted" "hi")]).actedOn, Admitted bothLists msg :=
  (admitted_only_iff bothLists "bot" _).mpr fun _ _ _ => Or.inl ⟨by decide, by decide⟩

/-- With a list of senders only, a stranger's message is dispatched. -/
theorem stranger_dispatched :
    Configured senderList ∧ ∃ msg ∈ (run senderList (init "bot") [received (textFrom "stranger" "hi")]).actedOn,
      ¬Admitted senderList msg := by
  refine ⟨Or.inr (by decide), textFrom "stranger" "hi", ?_, ?_⟩
  · refine (actedOn_from_init "bot").mpr ⟨_,
      ⟨⟨some (textFrom "stranger" "hi"), none, none⟩, List.mem_cons_self, rfl⟩, ?_⟩
    exact ⟨Or.inl (by decide), fun hblank => absurd (congrArg Prod.fst hblank) (by decide)⟩
  · unfold Admitted
    decide

end Nexal.Telegram
