import Nexal.Sanity.WsChannel

/-! Who is in which chat, and who gets what is said there. The map agrees with the sockets; but a socket is in the
default chat from its opening on, before it has authenticated. -/

namespace Nexal.WsChannel

open Runs

/-- Each open socket is a recipient in its own chat only, no closed one is a recipient, and no chat without recipients is
kept. -/
def Seated (s : State) : Prop :=
  (∀ (i : ℕ) (ws : BunWs), s.sockets[i]? = some ws → ws.wired = true → ws.readyState = .live →
    ∀ chatId, Member s chatId i ↔ chatId = ws.state.chatId) ∧
  (∀ (i : ℕ) (ws : BunWs), s.sockets[i]? = some ws → ws.readyState = .closed → ∀ chatId, ¬ Member s chatId i) ∧
  ∀ chatId, s.clients.lookup chatId ≠ some []

/-- Nothing has been sent to a socket that had not authenticated. -/
def Confidential (s : State) : Prop := ∀ d ∈ s.sent, d.state.authed = true

def chatOf (s : State) : Act → Option String
  | .reply chatId _ _ | .sendChunk chatId _ _ | .sendEnd chatId _ | .startTyping chatId => some chatId
  | .typingTick k => s.timers[k]?
  | _ => none

/-- Nothing is sent to the default chat while an open socket has not authenticated. -/
def DefaultGuarded (s : State) (a : Act) : Prop :=
  chatOf s a = some defaultChatId → ∀ ws ∈ s.sockets, ws.receives = true → ws.state.authed = true

instance (s : State) (a : Act) : Decidable (DefaultGuarded s a) :=
  inferInstanceAs (Decidable (chatOf s a = some defaultChatId →
    ∀ ws ∈ s.sockets, ws.receives = true → ws.state.authed = true))

/-- A socket that has not authenticated is still in the default chat, and runs no command. -/
structure AuthOk (s : State) : Prop where
  waits : ∀ (i : ℕ) (ws : BunWs), s.sockets[i]? = some ws → ws.state.authed = false → ws.state.chatId = defaultChatId
  executing : ∀ e ∈ s.executing, ∃ ws : BunWs, s.sockets[e.socket]? = some ws ∧ ws.state.authed = true

variable {cfg : WsChannelConfig} {s s' : State} {chatId : String} {i : ℕ} {ws ws' : BunWs} {n : ChatNotification}
  {d : Sent}
  {a : Act}

/-! The recipients -/

theorem seated_of_clientsOk (h : ClientsOk s) : Seated s := by
  refine ⟨fun i ws hws hwired hlive chatId => ⟨fun hm => (h.own hws hm).symm, ?_⟩,
    fun i ws hws hclosed chatId hm => ?_, h.noEmpty⟩
  · rintro rfl
    refine h.joined i ws hws ?_
    rw [BunWs.receives, hwired, hlive]
    rfl
  · obtain ⟨ws', hws', -, hready, -⟩ := h.placed chatId i hm
    cases hws.symm.trans hws'
    exact hready hclosed

/-- Whatever sockets open, speak, authenticate and close in whatever order, the map agrees with their chat ids. -/
theorem clients_agree (cfg : WsChannelConfig) (acts : List Act) (s : State) (hrun : run (step cfg) init acts = some s) :
    Seated s :=
  seated_of_clientsOk (run_inv_all ClientsOk (fun _ _ _ h hs => clientsOk_step h hs) clientsOk_init hrun)

/-- Two sockets in the chat `a`; the first one goes on to `b` and comes back, and then closes. -/
def twoSockets : List Act :=
  [.start, .upgrade, .upgrade, .opened 0, .opened 1, .authenticate 0 "t", .verified 0 (some ⟨"u", none⟩),
    .authenticate 1 "t",
    .verified 0 (some ⟨"v", none⟩), .send 0 (some "a") none none [], .command 1 (some "a") "help", .send 0
      (some "b") none none [],
    .send 0 (some "a") none none [], .close 0]

theorem clients_agree_twoSockets : ∃ s, run (step ⟨true, fun _ => false⟩) init twoSockets = some s ∧
    s.clients.lookup "a" = some [1] ∧ Seated s := by
  obtain ⟨s, hs, hset⟩ : ∃ s, run (step ⟨true, fun _ => false⟩) init twoSockets = some s ∧
    s.clients.lookup "a" = some [1] :=
    ⟨_, rfl, rfl⟩
  exact ⟨s, hs, hset, clients_agree _ twoSockets s hs⟩

/-! What is sent -/

theorem mem_sent_notify : d ∈ (notify i n s).sent ↔
    d ∈ s.sent ∨ ∃ ws : BunWs, s.sockets[i]? = some ws ∧ ws.receives = true ∧ d = ⟨i, ws.state, n⟩ := by
  unfold notify
  split
  · rename_i hnone
    simp [hnone]
  · rename_i ws hws
    split_ifs with hreceives
    · simp [hws, hreceives]
    · simp [hws, hreceives]

theorem mem_sent_notifyAll (set : List ℕ) : d ∈ (set.foldl (fun s i => notify i n s) s).sent ↔
    d ∈ s.sent ∨ ∃ i ∈ set, ∃ ws : BunWs, s.sockets[i]? = some ws ∧ ws.receives = true ∧
    d = ⟨i, ws.state, n⟩ := by
  induction set generalizing s with
  | nil => simp
  | cons i set ih =>
    rw [List.foldl_cons, ih, mem_sent_notify, (sameSeats_notify i n s).sockets]
    simp only [List.mem_cons, exists_eq_or_imp, or_assoc]

theorem mem_sent_broadcast : d ∈ (broadcast chatId n s).sent ↔ d ∈ s.sent ∨
    ∃ i, Member s chatId i ∧ ∃ ws : BunWs, s.sockets[i]? = some ws ∧ ws.receives = true ∧
    d = ⟨i, ws.state, n⟩ := by
  rw [broadcast, mem_sent_notifyAll]
  simp only [mem_getD_iff]

/-! The sockets that have authenticated -/

/-- A step lets no socket fall back, and a socket that has not authenticated keeps its state. -/
structure Advances (s s' : State) : Prop where
  length : s.sockets.length ≤ s'.sockets.length
  unauthed : ∀ (i : ℕ) (ws' : BunWs), s'.sockets[i]? = some ws' → ws'.state.authed = false →
    s.sockets[i]? = none ∧ ws'.state.chatId = defaultChatId ∨
      ∃ ws : BunWs, s.sockets[i]? = some ws ∧ ws.state = ws'.state

theorem advances_of_eq (h : s'.sockets = s.sockets) : Advances s s' := by
  refine ⟨h ▸ Nat.le_refl _, fun i ws' hws' _ => Or.inr ⟨ws', ?_, rfl⟩⟩
  rw [← h]
  exact hws'

theorem Advances.same {s'' : State} (h : Advances s s') (hsame : SameSeats s' s'') : Advances s s'' := by
  refine ⟨?_, ?_⟩
  · rw [hsame.sockets]
    exact h.length
  · rw [hsame.sockets]
    exact h.unauthed

/-- One socket changes, to a state that has authenticated or not at all. -/
theorem advances_modifySocket {f : BunWs → BunWs} (h : s'.sockets = (modifySocket i f s).sockets)
    (hf : ∀ ws : BunWs, s.sockets[i]? = some ws → (f ws).state.authed = true ∨ (f ws).state = ws.state) :
    Advances s s' := by
  refine ⟨?_, fun j ws' hws' hunauthed => ?_⟩
  · rw [h, modifySocket, List.length_modify]
  · rw [h] at hws'
    by_cases hij : i = j
    · subst hij
      obtain ⟨ws, hws, rfl⟩ := modifySocket_cases hws'
      rcases hf ws hws with hauthed | hsame
      · cases hunauthed.symm.trans hauthed
      · exact Or.inr ⟨ws, hws, hsame.symm⟩
    · rw [modifySocket_ne hij] at hws'
      exact Or.inr ⟨ws', hws', rfl⟩

theorem advances_rebindChat (hws : s.sockets[i]? = some ws) (hauthed : ws.state.authed = true) :
    Advances s (rebindChat i chatId s) := by
  rw [rebindChat, hws]
  dsimp only
  split_ifs
  · exact advances_of_eq rfl
  · refine advances_modifySocket (i := i) (f := fun ws => { ws with state := { ws.state with chatId := chatId } }) ?_
      fun ws' hws' => ?_
    · rw [addClient_sockets, modifySocket, modifySocket, removeClient_sockets]
    · cases hws.symm.trans hws'
      exact Or.inl hauthed

theorem advances_step (hs : step cfg s a = some s') : Advances s s' := by
  cases step_moves hs with
  | same hsame => exact advances_of_eq hsame.sockets
  | upgraded hsame =>
    refine Advances.same ⟨?_, fun i ws' hws' hunauthed => ?_⟩ hsame
    · dsimp only
      rw [List.length_append]
      exact Nat.le_add_right _ _
    · dsimp only at hws'
      rw [Lists.getElem?_concat] at hws'
      split_ifs at hws' with hlast
      · cases hws'
        exact Or.inl ⟨List.getElem?_eq_none (Nat.le_of_eq hlast.symm), rfl⟩
      · exact Or.inr ⟨ws', hws', rfl⟩
  | attached i ws hws hlive hsame =>
    refine (advances_modifySocket (i := i) (f := fun ws => { ws with wired := true }) ?_ fun _ _ => Or.inr rfl).same hsame
    rw [attach, hws]
    rfl
  | verified i user hsame => exact (advances_modifySocket rfl fun _ _ => Or.inl rfl).same hsame
  | rebound i chatId ws hws hauthed hsame => exact (advances_rebindChat (receiving_eq_some hws).1 hauthed).same hsame
  | closed i ws hws hsame =>
    refine (advances_modifySocket (i := i) (f := fun ws => { ws with readyState := .closed }) ?_ fun _ _ =>
      Or.inr rfl).same hsame
    exact removeClient_sockets
  | stopped hsame =>
    refine Advances.same ⟨?_, fun i ws' hws' hunauthed => ?_⟩ hsame
    · rw [stop, List.length_mapIdx]
    · rw [stop] at hws'
      dsimp only at hws'
      rw [List.getElem?_mapIdx] at hws'
      obtain ⟨ws, hws, rfl⟩ := Option.map_eq_some_iff.mp hws'
      refine Or.inr ⟨ws, hws, ?_⟩
      split_ifs
      · rfl
      · rfl

theorem Advances.authed (h : Advances s s') (hws : s.sockets[i]? = some ws) (hauthed : ws.state.authed = true) :
    ∃ ws' : BunWs, s'.sockets[i]? = some ws' ∧ ws'.state.authed = true := by
  have hlt : i < s'.sockets.length := Nat.lt_of_lt_of_le (List.getElem?_eq_some_iff.mp hws).1 h.length
  have hws' := List.getElem?_eq_getElem hlt
  refine ⟨_, hws', ?_⟩
  by_contra hnot
  rcases h.unauthed i _ hws' (Bool.eq_false_iff.mpr hnot) with ⟨hnone, -⟩ | ⟨old, hold, hstate⟩
  · cases hws.symm.trans hnone
  · cases hws.symm.trans hold
    rw [← hstate] at hnot
    exact hnot hauthed

/-! The commands -/

theorem executing_notify (i : ℕ) (n : ChatNotification) (s : State) : (notify i n s).executing = s.executing := by
  unfold notify
  split
  · rfl
  · split_ifs
    · rfl
    · rfl

theorem executing_broadcast (chatId : String) (n : ChatNotification) (s : State) :
    (broadcast chatId n s).executing = s.executing := by
  rw [broadcast]
  induction (s.clients.lookup chatId).getD [] generalizing s with
  | nil => rfl
  | cons i set ih => exact (ih (notify i n s)).trans (executing_notify i n s)

theorem removeClient_aside (chatId : String) (i : ℕ) (s : State) :
    (removeClient chatId i s).executing = s.executing ∧ (removeClient chatId i s).sent = s.sent := by
  unfold removeClient
  split
  · exact ⟨rfl, rfl⟩
  · exact ⟨rfl, rfl⟩

theorem rebindChat_aside (i : ℕ) (chatId : String) (s : State) :
    (rebindChat i chatId s).executing = s.executing ∧ (rebindChat i chatId s).sent = s.sent := by
  unfold rebindChat
  split
  · exact ⟨rfl, rfl⟩
  · split_ifs
    · exact ⟨rfl, rfl⟩
    · exact removeClient_aside _ i s

theorem attach_aside (i : ℕ) (s : State) : (attach i s).executing = s.executing ∧ (attach i s).sent = s.sent := by
  unfold attach
  split
  · exact ⟨rfl, rfl⟩
  · exact ⟨rfl, rfl⟩

inductive Says (s s' : State) (chat : Option String) : Prop where
  /-- at most the result of a command is sent, to the socket it came from -/
  | aside (hchat : chat = none)
    (hexecuting : ∀ e ∈ s'.executing, e ∈ s.executing ∨
      ∃ ws : BunWs, s.sockets[e.socket]? = some ws ∧ ws.state.authed = true)
    (hsent : ∀ d ∈ s'.sent, d ∈ s.sent ∨ d.state.authed = true)
  | broadcast (chatId : String) (n : ChatNotification) (hchat : chat = some chatId) (hexecuting : s'.executing = s.executing)
    (hsent : ∀ d, d ∈ s'.sent ↔ d ∈ s.sent ∨
      ∃ i, Member s chatId i ∧ ∃ ws : BunWs, s.sockets[i]? = some ws ∧ ws.receives = true ∧
        d = ⟨i, ws.state, n⟩)

theorem says_nothing (hexecuting : s'.executing = s.executing) (hsent : s'.sent = s.sent) : Says s s' none :=
  .aside rfl (fun _ he => Or.inl (hexecuting ▸ he)) fun _ hd => Or.inl (hsent ▸ hd)

theorem says_broadcast (chatId : String) (n : ChatNotification) (s : State) : Says s (broadcast chatId n s) (some chatId) :=
  .broadcast chatId n rfl (executing_broadcast chatId n s) fun _ => mem_sent_broadcast

theorem says_handleCommand {name : String} (hws : s.sockets[i]? = some ws) (hauthed : ws.state.authed = true) :
    Says s (handleCommand cfg i chatId name (rebindChat i chatId s)) none := by
  have haside := rebindChat_aside i chatId s
  unfold handleCommand
  split_ifs
  · refine .aside rfl (fun e he => ?_) fun d hd => Or.inl (haside.2 ▸ hd)
    rcases List.mem_append.mp he with he | he
    · exact Or.inl (haside.1 ▸ he)
    · cases List.mem_singleton.mp he
      exact Or.inr ⟨ws, hws, hauthed⟩
  · refine .aside rfl (fun e he => ?_) fun d hd => ?_
    · rw [executing_notify] at he
      exact Or.inl (haside.1 ▸ he)
    · rcases mem_sent_notify.mp hd with hd | ⟨ws', hws', -, rfl⟩
      · exact Or.inl (haside.2 ▸ hd)
      · obtain ⟨ws'', hws'', hauthed'⟩ := (advances_rebindChat hws hauthed).authed hws hauthed
        cases hws'.symm.trans hws''
        exact Or.inr hauthed'

theorem step_says (hok : AuthOk s) (hs : step cfg s a = some s') : Says s s' (chatOf s a) := by
  cases a with
  | start | stop =>
    cases hs
    exact says_nothing rfl rfl
  | upgrade | post | stopTyping =>
    rw [step] at hs
    split_ifs at hs
    cases hs
    exact says_nothing rfl rfl
  | opened i =>
    obtain ⟨ws, -, hs⟩ := Option.bind_eq_some_iff.mp hs
    split_ifs at hs
    cases hs
    exact says_nothing (attach_aside i s).1 (attach_aside i s).2
  | authenticate i token =>
    obtain ⟨ws, -, rfl⟩ := Option.map_eq_some_iff.mp hs
    split_ifs
    · exact says_nothing rfl rfl
    · exact says_nothing rfl rfl
  | verified k user =>
    obtain ⟨i, -, rfl⟩ := Option.map_eq_some_iff.mp hs
    cases user with
    | none => exact says_nothing rfl rfl
    | some user => exact says_nothing rfl rfl
  | send i chatId sender text images =>
    obtain ⟨ws, -, rfl⟩ := Option.map_eq_some_iff.mp hs
    split_ifs
    · exact says_nothing (rebindChat_aside i _ s).1 (rebindChat_aside i _ s).2
    · exact says_nothing rfl rfl
  | command i chatId name =>
    obtain ⟨ws, hws, rfl⟩ := Option.map_eq_some_iff.mp hs
    split_ifs with hauthed
    · exact says_handleCommand (receiving_eq_some hws).1 hauthed
    · exact says_nothing rfl rfl
  | executed k outcome =>
    obtain ⟨e, he, rfl⟩ := Option.map_eq_some_iff.mp hs
    refine .aside rfl (fun e' he' => ?_) fun d hd => ?_
    · rw [executing_notify] at he'
      exact Or.inl (List.mem_of_mem_eraseIdx he')
    · rcases mem_sent_notify.mp hd with hd | ⟨ws, hws, -, rfl⟩
      · exact Or.inl hd
      · obtain ⟨ws', hws', hauthed⟩ := hok.executing e (List.mem_of_getElem? he)
        cases hws.symm.trans hws'
        exact Or.inr hauthed
  | close i =>
    obtain ⟨ws, -, hs⟩ := Option.bind_eq_some_iff.mp hs
    split_ifs at hs
    cases hs
    have haside := removeClient_aside ws.state.chatId i (modifySocket i (fun ws => { ws with readyState := .closed }) s)
    exact says_nothing haside.1 haside.2
  | reply chatId text metadata =>
    cases hs
    exact says_broadcast chatId _ s
  | sendChunk chatId messageId delta =>
    cases hs
    exact says_broadcast chatId _ s
  | sendEnd chatId messageId =>
    cases hs
    exact says_broadcast chatId _ s
  | startTyping chatId =>
    rw [step] at hs
    split_ifs at hs with hnil
    · cases hs
      refine .broadcast chatId (.typing chatId) rfl rfl fun d => ⟨Or.inl, ?_⟩
      rintro (hd | ⟨i, hm, -⟩)
      · exact hd
      · rw [← mem_getD_iff, hnil] at hm
        cases hm
    · cases hs
      exact .broadcast chatId _ rfl (executing_broadcast chatId _ s) fun _ => mem_sent_broadcast
  | typingTick k =>
    obtain ⟨chatId, htimer, rfl⟩ := Option.map_eq_some_iff.mp hs
    rw [chatOf, htimer]
    exact says_broadcast chatId _ s

theorem authOk_step (h : AuthOk s) (hs : step cfg s a = some s') : AuthOk s' := by
  have hadvances := advances_step hs
  refine ⟨fun i ws' hws' hunauthed => ?_, fun e he => ?_⟩
  · rcases hadvances.unauthed i ws' hws' hunauthed with ⟨-, hdefault⟩ | ⟨ws, hws, hstate⟩
    · exact hdefault
    · rw [← hstate] at hunauthed ⊢
      exact h.waits i ws hws hunauthed
  · have hbefore : e ∈ s.executing ∨ ∃ ws : BunWs, s.sockets[e.socket]? = some ws ∧ ws.state.authed = true := by
      cases step_says h hs with
      | aside hchat hexecuting hsent => exact hexecuting e he
      | broadcast chatId n hchat hexecuting hsent => exact Or.inl (hexecuting ▸ he)
    obtain ⟨ws, hws, hauthed⟩ := hbefore.elim (h.executing e) id
    exact hadvances.authed hws hauthed

/-! Confidentiality -/

theorem confidential_step (hclients : ClientsOk s) (hok : AuthOk s) (h : Confidential s) (hs : step cfg s a = some s') :
    Confidential s' ↔ DefaultGuarded s a := by
  cases step_says hok hs with
  | aside hchat hexecuting hsent =>
    refine ⟨fun _ hdefault => (by cases hchat.symm.trans hdefault), fun _ d hd => ?_⟩
    exact (hsent d hd).elim (h d) id
  | broadcast chatId n hchat hexecuting hsent =>
    constructor
    · intro hconfidential hdefault ws hws hreceives
      cases hchat.symm.trans hdefault
      obtain ⟨i, hi⟩ := Lists.exists_getElem?_of_mem hws
      by_contra hnot
      -- a socket that has not authenticated is in the default chat
      have hmember := hclients.joined i ws hi hreceives
      rw [hok.waits i ws hi (Bool.eq_false_iff.mpr hnot)] at hmember
      exact hnot (hconfidential ⟨i, ws.state, n⟩ ((hsent _).mpr (Or.inr ⟨i, hmember, ws, hi, hreceives, rfl⟩)))
    · intro hguarded d hd
      rcases (hsent d).mp hd with hd | ⟨i, hmember, ws, hws, hreceives, rfl⟩
      · exact h d hd
      · by_contra hnot
        have hdefault : chatId = defaultChatId :=
          (hclients.own hws hmember).symm.trans (hok.waits i ws hws (Bool.eq_false_iff.mpr hnot))
        exact hnot (hguarded (hdefault ▸ hchat) ws (List.mem_of_getElem? hws) hreceives)

/-- At every point of a run nothing has been sent to a socket before it had authenticated, exactly if nothing was sent to
the default chat while an open socket had not. -/
theorem confidential_iff_defaultGuarded (cfg : WsChannelConfig) (acts : List Act) (s : State)
    (hrun : run (step cfg) init acts = some s) :
    RunOk (step cfg) DefaultGuarded init acts ↔
      ∀ acts' m, acts' <+: acts → run (step cfg) init acts' = some m → Confidential m := by
  have hinit : AuthOk init := ⟨fun _ _ h => (by cases h), fun _ h => absurd h List.not_mem_nil⟩
  refine runOk_iff_prefixes (H := fun _ _ => True) (fun s => ClientsOk s ∧ AuthOk s) Confidential
    (fun s a s' h hc _ hs => ?_)
    ⟨clientsOk_init, hinit⟩ (fun _ h => absurd h List.not_mem_nil) (runOk_of_forall (fun _ _ => trivial) init acts) hrun
  exact ⟨⟨clientsOk_step h.1 hs, authOk_step h.2 hs⟩, confidential_step h.1 h.2 hc hs⟩

/-- The second client authenticates before the reply to the first one comes. -/
def guardedRun : List Act :=
  [.start, .upgrade, .opened 0, .authenticate 0 "t", .verified 0 (some ⟨"u", none⟩),
    .send 0 none none (some "hi") [], .upgrade,
    .opened 1, .authenticate 1 "t", .verified 0 (some ⟨"v", none⟩), .reply "default" "hello" none]

theorem confidential_iff_defaultGuarded_guardedRun :
    ∃ s, run (step ⟨true, fun _ => false⟩) init guardedRun = some s ∧
    s.sent.length = 2 ∧ Confidential s := by
  obtain ⟨s, hs, hlength⟩ : ∃ s, run (step ⟨true, fun _ => false⟩) init guardedRun = some s ∧
    s.sent.length = 2 := ⟨_, rfl, rfl⟩
  have hiff := confidential_iff_defaultGuarded ⟨true, fun _ => false⟩ guardedRun s hs
  exact ⟨s, hs, hlength, hiff.mp (by decide) guardedRun s (List.prefix_refl _) hs⟩

/-- A second client opens a socket and does nothing else. -/
def listeningRun : List Act :=
  [.start, .upgrade, .opened 0, .authenticate 0 "t", .verified 0 (some ⟨"u", none⟩),
    .send 0 none none (some "hi") [], .upgrade,
    .opened 1, .reply "default" "hello" none]

theorem listener_gets_reply : ¬ ∀ (cfg : WsChannelConfig) (acts : List Act) (s : State), cfg.isAuthEnabled = true →
    run (step cfg) init acts = some s → Confidential s := by
  intro hall
  obtain ⟨s, hs, hsent⟩ : ∃ s, run (step ⟨true, fun _ => false⟩) init listeningRun = some s ∧
      s.sent.map (·.state.authed) = [true, false] := ⟨_, rfl, rfl⟩
  have hconfidential : ∀ authed ∈ s.sent.map (·.state.authed), authed = true :=
    List.forall_mem_map.mpr (hall ⟨true, fun _ => false⟩ listeningRun s rfl hs)
  rw [hsent] at hconfidential
  cases hconfidential false (by decide)

end Nexal.WsChannel
