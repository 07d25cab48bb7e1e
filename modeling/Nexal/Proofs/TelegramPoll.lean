import Nexal.Lib.Runs
import Nexal.Proofs.TelegramGate

/-! The poll loop of the Telegram channel. The offset confirms an update only when it has been handled, so whatever
fails, no update is passed over, and none is handled twice by one process. What the channel makes of the updates comes
out in their order, each album by itself. -/

namespace Nexal.Telegram

variable {config : TelegramChannelConfig} {s s' : Loop} {u : Update} {a : LoopAct} {acts : List LoopAct}

/-! Updates -/

/-- `seen` are updates that have been handled and are not yet confirmed, `later` those that are still to come. -/
structure LoopOk (s : Loop) (seen later : List Update) : Prop where
  sorted : s.posted.Pairwise (·.updateId < ·.updateId)
  positive : ∀ u ∈ s.posted, 0 < u.updateId
  suffix : s.queue <:+ s.posted
  queue : s.queue = s.handled ++ later
  unconfirmed : s.unconfirmed = seen ++ later
  handled : seen <:+ s.handled
  below : ∀ u ∈ s.handled, u.updateId < s.offset
  above : ∀ u ∈ later, s.offset ≤ u.updateId
  offset : s.offset = 0 ∨ ∃ u ∈ s.posted, s.offset = u.updateId + 1
  rest : ∀ updates, s.poll = .handling updates → updates <+: later
  confirmed : ∃ confirmed, s.posted = confirmed ++ s.unconfirmed ∧ ∀ u ∈ confirmed, u ∈ s.before ++ s.handled

variable {seen later : List Update}

theorem LoopOk.confirm_eq (h : LoopOk s seen later) : s.confirm = later := by
  have hseen : seen.filter (s.offset ≤ ·.updateId) = [] := List.filter_eq_nil_iff.mpr fun u hu => by
    rw [decide_eq_true_eq, Int.not_le]
    exact h.below u (h.handled.mem hu)
  have hlater : later.filter (s.offset ≤ ·.updateId) = later :=
    List.filter_eq_self.mpr fun u hu => decide_eq_true (h.above u hu)
  rw [Loop.confirm, h.unconfirmed, List.filter_append, hseen, hlater, List.nil_append]

/-- When the server has seen the offset, what it has left is what is to come. -/
theorem LoopOk.confirm (h : LoopOk s seen later) (poll : Poll)
    (hpoll : ∀ updates, poll = .handling updates → updates <+: later) :
    LoopOk { s with poll := poll, unconfirmed := s.confirm } [] later where
  sorted := h.sorted
  positive := h.positive
  suffix := h.suffix
  queue := h.queue
  unconfirmed := h.confirm_eq
  handled := List.nil_suffix
  below := h.below
  above := h.above
  offset := h.offset
  rest := hpoll
  confirmed := by
    obtain ⟨confirmed, hposted, hmem⟩ := h.confirmed
    refine ⟨confirmed ++ seen, ?_, fun u hu => ?_⟩
    · rw [hposted, h.unconfirmed, h.confirm_eq, List.append_assoc]
    · rcases List.mem_append.mp hu with hold | hnew
      · exact hmem u hold
      · exact List.mem_append_right _ (h.handled.mem hnew)

theorem LoopOk.move (h : LoopOk s seen later) (poll : Poll) (hpoll : ∀ updates, poll ≠ .handling updates) :
    LoopOk { s with poll := poll } seen later :=
  { h with rest := fun updates hupdates => absurd hupdates (hpoll updates) }

theorem LoopOk.post (h : LoopOk s seen later) (hpos : 0 < u.updateId) (hlast : ∀ v ∈ s.posted, v.updateId < u.updateId) :
    LoopOk { s with queue := s.queue ++ [u], posted := s.posted ++ [u], unconfirmed := s.unconfirmed ++ [u] }
      seen (later ++ [u]) where
  sorted := by
    rw [List.pairwise_append]
    exact ⟨h.sorted, List.pairwise_singleton _ _, fun v hv w hw => List.mem_singleton.mp hw ▸ hlast v hv⟩
  positive v hv := by
    rcases List.mem_append.mp hv with hold | hnew
    · exact h.positive v hold
    · exact List.mem_singleton.mp hnew ▸ hpos
  suffix := by
    obtain ⟨earlier, hearlier⟩ := h.suffix
    exact ⟨earlier, by rw [← hearlier, List.append_assoc]⟩
  queue := by rw [h.queue, List.append_assoc]
  unconfirmed := by rw [h.unconfirmed, List.append_assoc]
  handled := h.handled
  below := h.below
  above v hv := by
    rcases List.mem_append.mp hv with hold | hnew
    · exact h.above v hold
    · rw [List.mem_singleton.mp hnew]
      rcases h.offset with hzero | ⟨w, hw, hoffset⟩
      · exact hzero ▸ Int.le_of_lt hpos
      · exact hoffset ▸ Int.add_one_le_of_lt (hlast w hw)
  offset := h.offset.imp_right fun ⟨v, hv, hoffset⟩ => ⟨v, List.mem_append_left _ hv, hoffset⟩
  rest updates hupdates := (h.rest updates hupdates).trans (List.prefix_append _ _)
  confirmed := by
    obtain ⟨confirmed, hposted, hmem⟩ := h.confirmed
    exact ⟨confirmed, by rw [hposted, List.append_assoc], hmem⟩

/-- The first of what is to come has been handled. -/
theorem LoopOk.handle {updates : List Update} {channel : State} (h : LoopOk s seen (u :: later))
    (hrest : updates <+: later) :
    LoopOk { s with
      offset := u.updateId + 1, channel := channel, poll := .handling updates, handled := s.handled ++ [u] }
      (seen ++ [u]) later := by
  have hqueue : (s.handled ++ u :: later).Pairwise (·.updateId < ·.updateId) :=
    h.queue ▸ h.sorted.sublist h.suffix.sublist
  obtain ⟨-, hcons, hlt⟩ := List.pairwise_append.mp hqueue
  have hu : u ∈ s.posted := h.suffix.mem (h.queue ▸ List.mem_append_right _ List.mem_cons_self)
  exact
    { sorted := h.sorted
      positive := h.positive
      suffix := h.suffix
      queue := by rw [h.queue, List.append_assoc, List.singleton_append]
      unconfirmed := by rw [h.unconfirmed, List.append_assoc, List.singleton_append]
      handled := by
        obtain ⟨earlier, hearlier⟩ := h.handled
        exact ⟨earlier, by rw [← hearlier, List.append_assoc]⟩
      below := fun v hv => by
        rcases List.mem_append.mp hv with hold | hnew
        · exact Int.lt_trans (hlt v hold u List.mem_cons_self) (Int.lt_succ _)
        · exact List.mem_singleton.mp hnew ▸ Int.lt_succ _
      above := fun v hv => Int.add_one_le_of_lt (List.rel_of_pairwise_cons hcons hv)
      offset := Or.inr ⟨u, hu, rfl⟩
      rest := fun updates' hupdates' => by
        cases hupdates'
        exact hrest
      confirmed := by
        obtain ⟨confirmed, hposted, hmem⟩ := h.confirmed
        refine ⟨confirmed, hposted, fun v hv => ?_⟩
        rw [← List.append_assoc]
        exact List.mem_append_left _ (hmem v hv) }

theorem LoopOk.restart (h : LoopOk s seen later) {channel : State} :
    LoopOk { s with
      channel := channel, offset := 0, poll := .asking, stopping := false, handled := []
      before := s.before ++ s.handled, queue := s.unconfirmed } [] s.unconfirmed := by
  obtain ⟨confirmed, hposted, hmem⟩ := h.confirmed
  exact
    { sorted := h.sorted
      positive := h.positive
      suffix := ⟨confirmed, hposted.symm⟩
      queue := rfl
      unconfirmed := rfl
      handled := List.nil_suffix
      below := fun v hv => absurd hv List.not_mem_nil
      above := fun v hv => Int.le_of_lt (h.positive v (hposted ▸ List.mem_append_right _ hv))
      offset := Or.inl rfl
      rest := fun _ hupdates => nomatch hupdates
      confirmed := ⟨confirmed, hposted, fun v hv => by
        rw [List.append_nil]
        exact hmem v hv⟩ }

theorem loopOk_step (h : LoopOk s seen later) (hs : loopStep config s a = some s') :
    ∃ seen' later', LoopOk s' seen' later' := by
  cases a with
  | post u =>
    obtain ⟨⟨hpos, hlast⟩, hs⟩ := Option.ite_none_right_eq_some.mp hs
    cases hs
    exact ⟨_, _, h.post hpos hlast⟩
  | answer n =>
    simp only [loopStep] at hs
    split at hs
    · cases hs
      refine ⟨_, _, h.confirm _ fun updates hupdates => ?_⟩
      cases hupdates
      rw [h.confirm_eq]
      exact List.take_prefix n later
    · cases hs
  | fail reached =>
    simp only [loopStep] at hs
    split at hs
    · cases hs
      cases reached with
      | true => exact ⟨_, _, h.confirm .waiting nofun⟩
      | false => exact ⟨_, _, h.move .waiting nofun⟩
    · cases hs
  | next =>
    simp only [loopStep] at hs
    split at hs
    case h_3 => cases hs
    all_goals
      cases hs
      refine ⟨_, _, h.move _ fun updates => ?_⟩
      split_ifs <;> nofun
  | handle =>
    simp only [loopStep] at hs
    split at hs
    case h_2 => cases hs
    case h_1 u updates hpoll =>
      cases hs
      -- the answer is the first part of what is to come
      obtain ⟨more, rfl⟩ := h.rest _ hpoll
      exact ⟨_, _, h.handle (List.prefix_append updates more)⟩
  | timer groupId =>
    cases hs
    exact ⟨_, _, { h with }⟩
  | stop =>
    cases hs
    exact ⟨_, _, { h with }⟩
  | restart =>
    cases hs
    exact ⟨_, _, h.restart⟩

theorem loopOk_run {botUsername : String} (h : Runs.run (loopStep config) (Loop.start botUsername) acts = some s) :
    ∃ seen later, LoopOk s seen later := by
  refine Runs.run_inv_all (fun s => ∃ seen later, LoopOk s seen later)
    (fun s a s' ⟨_, _, hok⟩ hs => loopOk_step hok hs) ?_ h
  exact ⟨[], [],
    { sorted := .nil
      positive := fun _ hu => absurd hu List.not_mem_nil
      suffix := List.nil_suffix
      queue := rfl
      unconfirmed := rfl
      handled := List.nil_suffix
      below := fun _ hu => absurd hu List.not_mem_nil
      above := fun _ hu => absurd hu List.not_mem_nil
      offset := Or.inl rfl
      rest := fun _ hupdates => nomatch hupdates
      confirmed := ⟨[], rfl, fun _ hu => absurd hu List.not_mem_nil⟩ }⟩

/-! Messages -/

/-- The item a message becomes, if it is let through, is not blank and is no command. -/
def itemOf (config : TelegramChannelConfig) (download : String → Option (List UInt8)) (msg : TelegramMessage) :
    Option Item :=
  let content := extractContent download msg
  if (!allowChat config msg && !allowUser config msg) || (content.1 = "" && content.2.isEmpty) ||
    (commandOf config content.1).isSome then none else some ⟨content.1, content.2, msg⟩

def callOf (config : TelegramChannelConfig) (download : String → Option (List UInt8)) (msg : TelegramMessage) :
    Option (TelegramMessage × String × List String) :=
  let content := extractContent download msg
  if (!allowChat config msg && !allowUser config msg) || (content.1 = "" && content.2.isEmpty) then none
  else (commandOf config content.1).map fun command => (msg, command.2)

def Update.item (config : TelegramChannelConfig) (u : Update) : Option Item := u.up.msg.bind (itemOf config u.download)

def Update.call (config : TelegramChannelConfig) (u : Update) : Option (TelegramMessage × String × List String) :=
  u.up.msg.bind (callOf config u.download)

def Done.items : Done → List Item
  | .dispatched items _ => items
  | .refused _ _ | .executed _ _ _ _ | .buffered _ _ => []

def Done.call : Done → Option (TelegramMessage × String × List String)
  | .executed msg name args _ => some (msg, name, args)
  | .refused _ _ | .dispatched _ _ | .buffered _ _ => none

def Item.group (item : Item) : Option String := truthy item.msg.mediaGroupId

def ofGroup (group : Option String) (items : List Item) : List Item := items.filter (·.group = group)

def State.dispatched (c : State) : List Item := c.done.flatMap Done.items

def State.executed (c : State) : List (TelegramMessage × String × List String) := c.done.filterMap Done.call

/-- What waits for the timer of an album. -/
def State.waiting (c : State) (group : Option String) : List Item :=
  (group.bind fun groupId => c.mediaGroups.lookup groupId).getD []

def State.account (c : State) (group : Option String) : List Item := ofGroup group c.dispatched ++ c.waiting group

def GroupsOk (c : State) : Prop :=
  ∀ groupId items, c.mediaGroups.lookup groupId = some items → ∀ item ∈ items, item.group = some groupId

inductive Handled (config : TelegramChannelConfig) (download : String → Option (List UInt8)) (c : State)
    (msg : TelegramMessage) : State → Prop where
  | refused (chatId text : String) (item : itemOf config download msg = none) (call : callOf config download msg = none) :
    Handled config download c msg (c.log (.refused chatId text))
  | blank (item : itemOf config download msg = none) (call : callOf config download msg = none) :
    Handled config download c msg c
  | executed (name : String) (args : List String) (reply : Option String) (item : itemOf config download msg = none)
    (call : callOf config download msg = some (msg, name, args)) :
    Handled config download c msg (c.log (.executed msg name args reply))
  | buffered (groupId : String) (i : Item) (item : itemOf config download msg = some i)
    (call : callOf config download msg = none) (group : i.group = some groupId) :
    Handled config download c msg ((bufferAlbum c groupId i).log (.buffered groupId i))
  | dispatched (i : Item) (incoming : Debounce.IncomingMessage) (item : itemOf config download msg = some i)
    (call : callOf config download msg = none) (group : i.group = none) :
    Handled config download c msg (c.log (.dispatched [i] incoming))

variable {download : String → Option (List UInt8)} {c c' : State} {msg : TelegramMessage} {group : Option String}

theorem handled_handleMessage : Handled config download c msg (handleMessage config download c msg) := by
  unfold handleMessage
  dsimp only
  split_ifs with hrefused hblank
  · exact .refused _ _ (by simp [itemOf, hrefused]) (by simp [callOf, hrefused])
  · exact .blank (by simp [itemOf, hblank]) (by simp [callOf, hblank])
  · split
    · rename_i hcommand
      exact .executed _ _ _ (by simp [itemOf, hcommand]) (by simp [callOf, hcommand, hrefused, hblank])
    · rename_i hcommand
      have hitem : itemOf config download msg =
        some ⟨(extractContent download msg).1, (extractContent download msg).2, msg⟩ := by
        simp [itemOf, hcommand, hrefused, hblank]
      have hcall : callOf config download msg = none := by simp [callOf, hcommand]
      split
      · rename_i hgroup
        exact .buffered _ _ hitem hcall hgroup
      · rename_i hgroup
        exact .dispatched _ _ hitem hcall hgroup

@[simp] theorem lookup_log (d : Done) (groupId : String) :
    (c.log d).mediaGroups.lookup groupId = c.mediaGroups.lookup groupId := rfl

theorem lookup_bufferAlbum (c : State) (groupId : String) (i : Item) (groupId' : String) :
    (bufferAlbum c groupId i).mediaGroups.lookup groupId' =
      if groupId' = groupId then some ((c.mediaGroups.lookup groupId).getD [] ++ [i])
        else c.mediaGroups.lookup groupId' := by
  unfold bufferAlbum
  cases h : c.mediaGroups.lookup groupId with
  | some items =>
    dsimp only
    rw [Lists.lookup_map_at (· ++ [i])]
    split_ifs with hid
    · rw [hid, h, Option.map_some, Option.getD_some]
    · exact congrFun Option.map_id _
  | none =>
    dsimp only
    rw [List.lookup_append, List.lookup_cons, List.lookup_nil]
    split_ifs with hid
    · rw [hid, h, BEq.rfl]
      rfl
    · rw [beq_false_of_ne hid]
      exact Option.or_none

theorem ofGroup_append (group : Option String) (l l' : List Item) :
    ofGroup group (l ++ l') = ofGroup group l ++ ofGroup group l' :=
  List.filter_append l l'

theorem ofGroup_singleton (group : Option String) (i : Item) : ofGroup group [i] = if i.group = group then [i] else [] := by
  rw [ofGroup, List.filter_cons, List.filter_nil]
  simp only [decide_eq_true_eq]

theorem ofGroup_self {l : List Item} (h : ∀ i ∈ l, i.group = group) : ofGroup group l = l :=
  List.filter_eq_self.mpr fun i hi => decide_eq_true (h i hi)

theorem ofGroup_other {l : List Item} {group' : Option String} (h : ∀ i ∈ l, i.group = group') (hne : group' ≠ group) :
    ofGroup group l = [] :=
  List.filter_eq_nil_iff.mpr fun i hi heq => hne ((h i hi).symm.trans (of_decide_eq_true heq))

theorem filterMap_concat {α β : Type*} (f : α → Option β) (l : List α) (a : α) :
    (l ++ [a]).filterMap f = l.filterMap f ++ (f a).toList := by
  rw [List.filterMap_append]
  cases h : f a with
  | none => rw [List.filterMap_cons_none h, List.filterMap_nil, Option.toList_none]
  | some b => rw [List.filterMap_cons_some h, List.filterMap_nil, Option.toList_some]

theorem dispatched_log (d : Done) : (c.log d).dispatched = c.dispatched ++ d.items := by
  rw [State.dispatched, State.log, List.flatMap_append, List.flatMap_singleton, ← State.dispatched]

theorem executed_log (d : Done) : (c.log d).executed = c.executed ++ d.call.toList := filterMap_concat Done.call c.done d

@[simp] theorem done_bufferAlbum (groupId : String) (i : Item) : (bufferAlbum c groupId i).done = c.done := by
  unfold bufferAlbum
  split <;> rfl

/-- An entry that dispatches nothing. -/
theorem account_log {d : Done} (h : d.items = []) : (c.log d).account group = c.account group := by
  rw [State.account, dispatched_log, h, List.append_nil]
  rfl

theorem account_buffered {groupId : String} {i : Item} (h : i.group = some groupId) :
    ((bufferAlbum c groupId i).log (.buffered groupId i)).account group = c.account group ++ ofGroup group [i] := by
  have hdispatched : ((bufferAlbum c groupId i).log (.buffered groupId i)).dispatched = c.dispatched := by
    rw [dispatched_log, State.dispatched, done_bufferAlbum]
    exact List.append_nil _
  have hwaiting : ((bufferAlbum c groupId i).log (.buffered groupId i)).waiting group =
    c.waiting group ++ ofGroup group [i] := by
    rw [ofGroup_singleton, h]
    cases group with
    | none => rfl
    | some groupId' =>
      simp only [State.waiting, Option.bind_some, lookup_log, lookup_bufferAlbum, Option.some.injEq]
      by_cases hid : groupId' = groupId
      · rw [if_pos hid, if_pos hid.symm, hid, Option.getD_some]
      · rw [if_neg hid, if_neg (Ne.symm hid), List.append_nil]
  rw [State.account, hdispatched, hwaiting, ← List.append_assoc, State.account]

theorem account_dispatched {i : Item} {incoming : Debounce.IncomingMessage} (h : i.group = none) :
    (c.log (.dispatched [i] incoming)).account group = c.account group ++ ofGroup group [i] := by
  rw [State.account, dispatched_log, ofGroup_append, Done.items, ofGroup_singleton, h]
  cases group with
  | none =>
    rw [State.account, List.append_assoc, List.append_assoc]
    rfl
  | some groupId =>
    rw [if_neg nofun, List.append_nil, List.append_nil]
    rfl

def dropGroup (c : State) (groupId : String) : State := { c with mediaGroups := c.mediaGroups.filter (·.1 ≠ groupId) }

theorem step_timer (groupId : String) :
    step config c (.timer groupId) = ((c.mediaGroups.lookup groupId).map (dispatchAlbum (dropGroup c groupId))).getD c := by
  rw [step]
  cases c.mediaGroups.lookup groupId <;> rfl

theorem waiting_dropGroup (c : State) (groupId : String) (group : Option String) :
    (dropGroup c groupId).waiting group = if group = some groupId then [] else c.waiting group := by
  cases group with
  | none => rfl
  | some groupId' =>
    simp only [State.waiting, Option.bind_some, dropGroup, Lists.lookup_filter_ne, Option.some.injEq]
    split_ifs <;> rfl

@[simp] theorem mediaGroups_dispatchAlbum (c : State) (items : List Item) :
    (dispatchAlbum c items).mediaGroups = c.mediaGroups := by
  cases items <;> rfl

@[simp] theorem dispatched_dispatchAlbum (c : State) (items : List Item) :
    (dispatchAlbum c items).dispatched = c.dispatched ++ items := by
  cases items with
  | nil => exact (List.append_nil _).symm
  | cons first rest => exact dispatched_log _

/-- One album comes out whole, and the others stay as they are. -/
theorem account_timer (h : GroupsOk c) (groupId : String) :
    (step config c (.timer groupId)).account group = c.account group := by
  rw [step_timer]
  cases hlookup : c.mediaGroups.lookup groupId with
  | none => rfl
  | some items =>
    have hwaiting : (dispatchAlbum (dropGroup c groupId) items).waiting group = (dropGroup c groupId).waiting group := by
      rw [State.waiting, mediaGroups_dispatchAlbum, State.waiting]
    rw [Option.map_some, Option.getD_some, State.account, dispatched_dispatchAlbum, hwaiting, waiting_dropGroup,
      ofGroup_append, State.account, show (dropGroup c groupId).dispatched = c.dispatched from rfl]
    split_ifs with hgroup
    · subst hgroup
      rw [@ofGroup_self _ items (h groupId items hlookup), List.append_nil, State.waiting, Option.bind_some, hlookup,
        Option.getD_some]
    · rw [ofGroup_other (h groupId items hlookup) (Ne.symm hgroup), List.append_nil]

theorem account_stop : ((step config c .stop).account group).Sublist (c.account group) := by
  have hnone : (step config c .stop).waiting group = [] := by cases group <;> rfl
  rw [State.account, hnone, List.append_nil]
  exact List.sublist_append_left _ _

theorem account_handled (h : Handled config download c msg c') :
    c'.account group = c.account group ++ ofGroup group (itemOf config download msg).toList := by
  cases h with
  | refused chatId text item _ | executed name args reply item _ =>
    rw [item, account_log rfl]
    exact (List.append_nil _).symm
  | blank item _ =>
    rw [item]
    exact (List.append_nil _).symm
  | buffered groupId i item _ hgroup => rw [item, account_buffered hgroup, Option.toList_some]
  | dispatched i incoming item _ hgroup => rw [item, account_dispatched hgroup, Option.toList_some]

theorem executed_handled (h : Handled config download c msg c') :
    c'.executed = c.executed ++ (callOf config download msg).toList := by
  cases h with
  | refused chatId text _ call | executed name args reply _ call | dispatched i incoming _ call _ =>
    rw [call, executed_log]
    rfl
  | blank _ call =>
    rw [call]
    exact (List.append_nil _).symm
  | buffered groupId i _ call _ =>
    rw [call, executed_log, State.executed, done_bufferAlbum, State.executed]
    rfl

theorem groupsOk_handled (hc : GroupsOk c) (h : Handled config download c msg c') : GroupsOk c' := by
  cases h with
  | refused | executed | dispatched | blank => exact hc
  | buffered groupId i _ _ hgroup =>
    intro groupId' items hlookup j hj
    rw [lookup_log, lookup_bufferAlbum] at hlookup
    split_ifs at hlookup with hid
    · cases hlookup
      rcases List.mem_append.mp hj with hold | hnew
      · cases hold' : c.mediaGroups.lookup groupId with
        | none =>
          rw [hold'] at hold
          exact absurd hold List.not_mem_nil
        | some items =>
          rw [hold'] at hold
          exact hid ▸ hc groupId items hold' j hold
      · rw [List.mem_singleton.mp hnew, hid, hgroup]
    · exact hc groupId' items hlookup j hj

/-- What the channel has made of the updates of this process; only a stop makes it forget the albums it has begun. -/
structure Accounted (config : TelegramChannelConfig) (s : Loop) : Prop where
  groups : GroupsOk s.channel
  executed : s.channel.executed = s.handled.filterMap (·.call config)
  account : ∀ group, (s.channel.account group).Sublist (ofGroup group (s.handled.filterMap (·.item config)))
  whole : s.stopping = false → ∀ group, s.channel.account group = ofGroup group (s.handled.filterMap (·.item config))

/-- What one update adds. -/
theorem update_step (hc : GroupsOk c) (u : Update) :
    GroupsOk (step config c (.update u.up u.download)) ∧
      (step config c (.update u.up u.download)).executed = c.executed ++ (u.call config).toList ∧
      ∀ group, (step config c (.update u.up u.download)).account group =
        c.account group ++ ofGroup group (u.item config).toList := by
  simp only [step, Update.call, Update.item]
  cases u.up.msg with
  | some msg =>
    have hmsg := @handled_handleMessage config u.download c msg
    exact ⟨groupsOk_handled hc hmsg, executed_handled hmsg, fun group => account_handled hmsg⟩
  | none => exact ⟨hc, (List.append_nil _).symm, fun group => (List.append_nil _).symm⟩

theorem Accounted.update (h : Accounted config s) (u : Update) (offset : ℤ) (poll : Poll) :
    Accounted config { s with
      offset := offset, channel := step config s.channel (.update u.up u.download), poll := poll
      handled := s.handled ++ [u] } := by
  obtain ⟨hgroups, hexecuted, haccount⟩ := @update_step config _ h.groups u
  refine ⟨hgroups, ?_, fun group => ?_, fun hstop group => ?_⟩
  · rw [hexecuted, h.executed, filterMap_concat]
  · rw [haccount, filterMap_concat, ofGroup_append]
    exact (h.account group).append (.refl _)
  · rw [haccount, filterMap_concat, ofGroup_append, h.whole hstop]

theorem Accounted.timer (h : Accounted config s) (groupId : String) :
    Accounted config { s with channel := step config s.channel (.timer groupId) } where
  groups groupId' items hlookup := by
    rw [step_timer] at hlookup
    cases hgroup : s.channel.mediaGroups.lookup groupId with
    | none =>
      rw [hgroup] at hlookup
      exact h.groups groupId' items hlookup
    | some album =>
      rw [hgroup, Option.map_some, Option.getD_some, mediaGroups_dispatchAlbum, dropGroup, Lists.lookup_filter_ne] at hlookup
      split_ifs at hlookup
      exact h.groups groupId' items hlookup
  executed := by
    rw [← h.executed, step_timer]
    cases s.channel.mediaGroups.lookup groupId with
    | none => rfl
    | some items =>
      cases items with
      | nil => rfl
      | cons first rest => exact (executed_log _).trans (List.append_nil _)
  account group := by
    rw [account_timer h.groups]
    exact h.account group
  whole hstop group := by
    rw [account_timer h.groups]
    exact h.whole hstop group

theorem accounted_step (h : Accounted config s) (hs : loopStep config s a = some s') : Accounted config s' := by
  cases a with
  | post u =>
    obtain ⟨-, hs⟩ := Option.ite_none_right_eq_some.mp hs
    cases hs
    exact { h with }
  | answer | fail | next =>
    simp only [loopStep] at hs
    split at hs
    all_goals
      cases hs
      try exact { h with }
  | handle =>
    simp only [loopStep] at hs
    split at hs
    · cases hs
      exact h.update _ _ _
    · cases hs
  | timer groupId =>
    cases hs
    exact h.timer groupId
  | stop =>
    cases hs
    exact ⟨nofun, h.executed, fun group => (@account_stop config _ _).trans (h.account group), nofun⟩
  | restart =>
    cases hs
    exact ⟨nofun, rfl, fun group => by cases group <;> exact .refl _, fun _ group => by cases group <;> rfl⟩

/-- Whatever fails and whenever the process is restarted: no update is confirmed before it has been handled, and one
process handles the updates the server has for it in their order, without a gap and none twice. -/
theorem updates_in_order (config : TelegramChannelConfig) (botUsername : String) {acts : List LoopAct} {s : Loop}
    (h : Runs.run (loopStep config) (Loop.start botUsername) acts = some s) :
    (∀ u ∈ s.posted, u ∈ s.unconfirmed ∨ u ∈ s.before ++ s.handled) ∧
      s.handled.Pairwise (·.updateId < ·.updateId) ∧
      ∃ later, s.queue = s.handled ++ later ∧ later <:+ s.unconfirmed ∧
        (∀ u ∈ s.handled, u.updateId < s.offset) ∧ ∀ u ∈ later, s.offset ≤ u.updateId := by
  obtain ⟨seen, later, hok⟩ := loopOk_run h
  refine ⟨fun u hu => ?_, ?_, later, hok.queue, ?_, hok.below, hok.above⟩
  · obtain ⟨confirmed, hposted, hmem⟩ := hok.confirmed
    rw [hposted] at hu
    exact (List.mem_append.mp hu).symm.imp_right (hmem u)
  · have hqueue := hok.sorted.sublist hok.suffix.sublist
    rw [hok.queue] at hqueue
    exact (List.pairwise_append.mp hqueue).1
  · rw [hok.unconfirmed]
    exact List.suffix_append seen later

/-- Each command is executed once, and the items of an album come out in their order and once, whenever its timer
fires; what is not out yet is still in the album, unless the channel is stopped. -/
theorem messages_in_order (config : TelegramChannelConfig) (botUsername : String) {acts : List LoopAct} {s : Loop}
    (h : Runs.run (loopStep config) (Loop.start botUsername) acts = some s) :
    s.channel.executed = s.handled.filterMap (·.call config) ∧
      (∀ group, (ofGroup group s.channel.dispatched ++ s.channel.waiting group).Sublist
        (ofGroup group (s.handled.filterMap (·.item config)))) ∧
      (s.stopping = false → ∀ group, ofGroup group s.channel.dispatched ++ s.channel.waiting group =
        ofGroup group (s.handled.filterMap (·.item config))) := by
  have hstart : Accounted config (Loop.start botUsername) :=
    ⟨nofun, rfl, fun group => by cases group <;> exact .refl _, fun _ group => by cases group <;> rfl⟩
  have hs := Runs.run_inv_all (Accounted config) (fun s a s' hs hstep => accounted_step hs hstep) hstart h
  exact ⟨hs.executed, hs.account, hs.whole⟩

def albumUpdate (updateId : ℤ) (text : String) : Update :=
  ⟨updateId, ⟨some { textFrom "trusted" text with mediaGroupId := some "album" }, none, none⟩, fun _ => none⟩

/-- The process ends before the first update is confirmed: the next one handles it again. -/
def restarted : List LoopAct :=
  [.post (albumUpdate 7 "a"), .post (albumUpdate 8 "b"), .answer 2, .handle, .restart, .fail true, .next, .answer 1, .handle]

/-- The timer of an album fires between two of its messages. -/
def cutAlbum : List LoopAct :=
  [.post (albumUpdate 7 "a"), .post (albumUpdate 8 "b"), .answer 2, .handle, .timer "album", .handle]

theorem updates_in_order_restarted : ∃ s, Runs.run (loopStep bothLists) (Loop.start "bot") restarted = some s ∧
    s.before.map (·.updateId) = [7] ∧ s.handled.map (·.updateId) = [7] ∧
    ∃ later, s.queue = s.handled ++ later ∧ later <:+ s.unconfirmed ∧
      (∀ u ∈ s.handled, u.updateId < s.offset) ∧ ∀ u ∈ later, s.offset ≤ u.updateId := by
  have hrun : Runs.run (loopStep bothLists) (Loop.start "bot") restarted = some _ := rfl
  exact ⟨_, hrun, rfl, rfl, (updates_in_order bothLists "bot" hrun).2.2⟩

theorem messages_in_order_album : ∃ s, Runs.run (loopStep bothLists) (Loop.start "bot") cutAlbum = some s ∧
    ∀ group, ofGroup group s.channel.dispatched ++ s.channel.waiting group =
      ofGroup group (s.handled.filterMap (·.item bothLists)) := by
  have hrun : Runs.run (loopStep bothLists) (Loop.start "bot") cutAlbum = some _ := rfl
  exact ⟨_, hrun, (messages_in_order bothLists "bot" hrun).2.2 rfl⟩

end Nexal.Telegram
