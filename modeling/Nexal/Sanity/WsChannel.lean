import Nexal.Lib.Lists
import Nexal.Spec.WsChannel

/-! Which sockets are in which chat. A step moves at most one socket, or closes the channel, and keeps the map in line
with the chat ids of the sockets. -/

namespace Nexal.WsChannel

def Member (s : State) (chatId : String) (i : ℕ) : Prop := ∃ set, s.clients.lookup chatId = some set ∧ i ∈ set

structure ClientsOk (s : State) : Prop where
  noEmpty : ∀ chatId, s.clients.lookup chatId ≠ some []
  joined : ∀ (i : ℕ) (ws : BunWs), s.sockets[i]? = some ws → ws.receives = true → Member s ws.state.chatId i
  placed : ∀ chatId i, Member s chatId i →
    ∃ ws : BunWs, s.sockets[i]? = some ws ∧ ws.wired = true ∧ ws.readyState ≠ .closed ∧ ws.state.chatId = chatId

structure SameSeats (s s' : State) : Prop where
  sockets : s'.sockets = s.sockets
  clients : s'.clients = s.clients

variable {cfg : WsChannelConfig} {s s' : State} {chatId other : String} {i j : ℕ} {ws : BunWs} {a : Act}

/-! The map -/

theorem mem_getD_iff : i ∈ (s.clients.lookup chatId).getD [] ↔ Member s chatId i := by
  unfold Member
  cases s.clients.lookup chatId with
  | none => simp
  | some set => simp

theorem member_congr (h : s'.clients = s.clients) : Member s' chatId i ↔ Member s chatId i := by rw [Member, Member, h]

theorem member_addClient : Member (addClient chatId i s) other j ↔ Member s other j ∨ other = chatId ∧ j = i := by
  by_cases heq : other = chatId
  · subst heq
    rw [← mem_getD_iff, ← mem_getD_iff, addClient]
    dsimp only
    rw [AList.lookup_insert, Option.getD_some]
    split_ifs with hi
    · refine ⟨Or.inl, ?_⟩
      rintro (hj | ⟨-, rfl⟩)
      · exact hj
      · exact hi
    · rw [List.mem_append, List.mem_singleton]
      exact or_congr_right (by simp)
  · rw [Member, Member, addClient]
    dsimp only
    rw [AList.lookup_insert_ne heq]
    exact ⟨Or.inl, fun h => h.resolve_right fun h' => heq h'.1⟩

theorem member_removeClient : Member (removeClient chatId i s) other j ↔
    Member s other j ∧ ¬ (other = chatId ∧ j = i) := by
  unfold removeClient
  cases hset : s.clients.lookup chatId with
  | none =>
    refine ⟨fun h => ⟨h, ?_⟩, And.left⟩
    rintro ⟨rfl, -⟩
    obtain ⟨set, hlookup, -⟩ := h
    cases hset.symm.trans hlookup
  | some set =>
    dsimp only
    by_cases heq : other = chatId
    · subst heq
      have hold : Member s other j ↔ j ∈ set := by rw [← mem_getD_iff, hset, Option.getD_some]
      have hfilter : j ∈ set.filter (· ≠ i) ↔ Member s other j ∧ ¬ (other = other ∧ j = i) := by
        rw [List.mem_filter, hold]
        simp
      rw [← hfilter, ← mem_getD_iff]
      split_ifs with hnil
      · rw [AList.lookup_erase, hnil, Option.getD_none]
      · rw [AList.lookup_insert, Option.getD_some]
    · have hlookup : (if set.filter (· ≠ i) = [] then s.clients.erase chatId
          else s.clients.insert chatId (set.filter (· ≠ i))).lookup other = s.clients.lookup other := by
        split_ifs
        · exact AList.lookup_erase_ne heq
        · exact AList.lookup_insert_ne heq
      rw [Member, Member, hlookup]
      exact ⟨fun h => ⟨h, fun h' => heq h'.1⟩, And.left⟩

theorem noEmpty_addClient (h : ∀ other, s.clients.lookup other ≠ some []) :
    (addClient chatId i s).clients.lookup other ≠ some [] := by
  intro hempty
  by_cases heq : other = chatId
  · have hmember : Member (addClient chatId i s) other i := member_addClient.mpr (Or.inr ⟨heq, rfl⟩)
    obtain ⟨set, hlookup, hi⟩ := hmember
    cases hempty.symm.trans hlookup
    exact List.not_mem_nil hi
  · refine h other ?_
    rw [addClient] at hempty
    exact (AList.lookup_insert_ne heq).symm.trans hempty

theorem noEmpty_removeClient (h : ∀ other, s.clients.lookup other ≠ some []) :
    (removeClient chatId i s).clients.lookup other ≠ some [] := by
  unfold removeClient
  split
  · exact h other
  · rename_i set hset
    dsimp only
    by_cases heq : other = chatId
    · subst heq
      split_ifs with hnil
      · rw [AList.lookup_erase]
        exact nofun
      · rw [AList.lookup_insert]
        exact fun hempty => hnil (Option.some.inj hempty)
    · split_ifs
      · rw [AList.lookup_erase_ne heq]
        exact h other
      · rw [AList.lookup_insert_ne heq]
        exact h other

/-! The sockets -/

theorem addClient_sockets : (addClient chatId i s).sockets = s.sockets := rfl

theorem removeClient_sockets : (removeClient chatId i s).sockets = s.sockets := by
  unfold removeClient
  split
  · rfl
  · rfl

theorem modifySocket_self {f : BunWs → BunWs} (h : s.sockets[i]? = some ws) :
    (modifySocket i f s).sockets[i]? = some (f ws) := by
  rw [modifySocket, List.getElem?_modify, h]
  simp

theorem modifySocket_ne {f : BunWs → BunWs} (h : i ≠ j) : (modifySocket i f s).sockets[j]? = s.sockets[j]? := by
  rw [modifySocket, List.getElem?_modify]
  simp [h]

/-- A step that moves one socket. -/
theorem clientsOk_moved (h : ClientsOk s) (hnoEmpty : ∀ chatId, s'.clients.lookup chatId ≠ some [])
    (hother : ∀ j, j ≠ i → s'.sockets[j]? = s.sockets[j]?)
    (hmember : ∀ chatId j, j ≠ i → (Member s' chatId j ↔ Member s chatId j))
    (hjoined : ∀ ws : BunWs, s'.sockets[i]? = some ws → ws.receives = true → Member s' ws.state.chatId i)
    (hplaced : ∀ chatId, Member s' chatId i →
      ∃ ws : BunWs, s'.sockets[i]? = some ws ∧ ws.wired = true ∧ ws.readyState ≠ .closed ∧
        ws.state.chatId = chatId) :
    ClientsOk s' := by
  refine ⟨hnoEmpty, fun j ws hws hreceives => ?_, fun chatId j hj => ?_⟩
  · by_cases heq : j = i
    · subst heq
      exact hjoined ws hws hreceives
    · exact (hmember _ j heq).mpr (h.joined j ws (hother j heq ▸ hws) hreceives)
  · by_cases heq : j = i
    · subst heq
      exact hplaced chatId hj
    · rw [hother j heq]
      exact h.placed chatId j ((hmember chatId j heq).mp hj)

theorem ClientsOk.congr (h : ClientsOk s) (hsame : SameSeats s s') : ClientsOk s' := by
  refine ⟨?_, ?_, ?_⟩
  · rw [hsame.clients]
    exact h.noEmpty
  · rw [hsame.sockets]
    exact fun i ws hws hreceives => (member_congr hsame.clients).mpr (h.joined i ws hws hreceives)
  · rw [hsame.sockets]
    exact fun chatId i hi => h.placed chatId i ((member_congr hsame.clients).mp hi)

/-! One step -/

theorem SameSeats.refl (s : State) : SameSeats s s := ⟨rfl, rfl⟩

theorem SameSeats.trans {s'' : State} (h : SameSeats s s') (h' : SameSeats s' s'') : SameSeats s s'' :=
  ⟨h'.sockets.trans h.sockets, h'.clients.trans h.clients⟩

theorem sameSeats_notify (i : ℕ) (n : ChatNotification) (s : State) : SameSeats s (notify i n s) := by
  unfold notify
  split
  · exact .refl s
  · split_ifs
    · exact ⟨rfl, rfl⟩
    · exact .refl s

theorem sameSeats_notifyAll (n : ChatNotification) (set : List ℕ) (s : State) :
    SameSeats s (set.foldl (fun s i => notify i n s) s) := by
  induction set generalizing s with
  | nil => exact .refl s
  | cons i set ih => exact (sameSeats_notify i n s).trans (ih (notify i n s))

theorem sameSeats_broadcast (chatId : String) (n : ChatNotification) (s : State) : SameSeats s (broadcast chatId n s) :=
  sameSeats_notifyAll n _ s

theorem sameSeats_handleCommand (cfg : WsChannelConfig) (i : ℕ) (chatId name : String) (s : State) :
    SameSeats s (handleCommand cfg i chatId name s) := by
  unfold handleCommand
  split_ifs
  · exact ⟨rfl, rfl⟩
  · exact sameSeats_notify _ _ s

theorem receiving_eq_some (h : receiving s i = some ws) :
    s.sockets[i]? = some ws ∧ ws.wired = true ∧ ws.readyState ≠ .closed := by
  obtain ⟨hws, hopen⟩ := Option.filter_eq_some_iff.mp h
  rw [Bool.and_eq_true, bne_iff_ne] at hopen
  exact ⟨hws, hopen⟩

inductive Moves (cfg : WsChannelConfig) (s s' : State) : Prop where
  | same (h : SameSeats s s')
  | upgraded (h : SameSeats { s with sockets := s.sockets ++
    [⟨⟨defaultChatId, !cfg.isAuthEnabled, none⟩, .live, false⟩] } s')
  | attached (i : ℕ) (ws : BunWs) (hws : s.sockets[i]? = some ws) (hlive : ws.readyState = .live)
    (h : SameSeats (attach i s) s')
  | verified (i : ℕ) (user : User) (h : SameSeats (modifySocket i
      (fun ws => { ws with state := { ws.state with authed := true, userId := some user.sub } }) s) s')
  | rebound (i : ℕ) (chatId : String) (ws : BunWs) (hws : receiving s i = some ws) (hauthed : ws.state.authed = true)
    (h : SameSeats (rebindChat i chatId s) s')
  | closed (i : ℕ) (ws : BunWs) (hws : s.sockets[i]? = some ws)
    (h : SameSeats (removeClient ws.state.chatId i (modifySocket i (fun ws => { ws with readyState := .closed }) s)) s')
  | stopped (h : SameSeats (stop s) s')

theorem step_moves (hs : step cfg s a = some s') : Moves cfg s s' := by
  cases a with
  | start =>
    cases hs
    exact .same ⟨rfl, rfl⟩
  | upgrade =>
    rw [step] at hs
    split_ifs at hs
    cases hs
    exact .upgraded (.refl _)
  | opened i =>
    obtain ⟨ws, hws, hs⟩ := Option.bind_eq_some_iff.mp hs
    split_ifs at hs with hopen
    cases hs
    exact .attached i ws hws hopen.2 (.refl _)
  | authenticate i token =>
    obtain ⟨ws, -, rfl⟩ := Option.map_eq_some_iff.mp hs
    split_ifs
    · exact .same ⟨rfl, rfl⟩
    · exact .same ⟨rfl, rfl⟩
  | verified k user =>
    obtain ⟨i, -, rfl⟩ := Option.map_eq_some_iff.mp hs
    cases user with
    | none => exact .same ⟨rfl, rfl⟩
    | some user => exact .verified i user ⟨rfl, rfl⟩
  | send i chatId sender text images =>
    obtain ⟨ws, hws, rfl⟩ := Option.map_eq_some_iff.mp hs
    split_ifs with hauthed
    · exact .rebound i (chatId.getD defaultChatId) ws hws hauthed ⟨rfl, rfl⟩
    · exact .same (.refl s)
  | command i chatId name =>
    obtain ⟨ws, hws, rfl⟩ := Option.map_eq_some_iff.mp hs
    split_ifs with hauthed
    · exact .rebound i (chatId.getD defaultChatId) ws hws hauthed (sameSeats_handleCommand cfg i _ name _)
    · exact .same (.refl s)
  | executed k outcome =>
    obtain ⟨e, -, rfl⟩ := Option.map_eq_some_iff.mp hs
    have haside : SameSeats s { s with executing := s.executing.eraseIdx k } := ⟨rfl, rfl⟩
    exact .same (haside.trans (sameSeats_notify _ _ _))
  | close i =>
    obtain ⟨ws, hws, hs⟩ := Option.bind_eq_some_iff.mp hs
    split_ifs at hs
    cases hs
    exact .closed i ws hws (.refl _)
  | post chatId sender text =>
    rw [step] at hs
    split_ifs at hs
    cases hs
    exact .same ⟨rfl, rfl⟩
  | reply chatId text metadata =>
    cases hs
    exact .same (sameSeats_broadcast _ _ s)
  | sendChunk chatId messageId delta =>
    cases hs
    exact .same (sameSeats_broadcast _ _ s)
  | sendEnd chatId messageId =>
    cases hs
    exact .same (sameSeats_broadcast _ _ s)
  | startTyping chatId =>
    rw [step] at hs
    split_ifs at hs
    · cases hs
      exact .same (.refl s)
    · cases hs
      have hsame := sameSeats_broadcast chatId (.typing chatId) s
      exact .same ⟨hsame.sockets, hsame.clients⟩
  | typingTick k =>
    obtain ⟨chatId, -, rfl⟩ := Option.map_eq_some_iff.mp hs
    exact .same (sameSeats_broadcast _ _ s)
  | stopTyping k =>
    rw [step] at hs
    split_ifs at hs
    cases hs
    exact .same ⟨rfl, rfl⟩
  | stop =>
    cases hs
    exact .stopped (.refl _)

/-! The invariant -/

theorem modifySocket_cases {f : BunWs → BunWs} (h : (modifySocket i f s).sockets[i]? = some ws) :
    ∃ old, s.sockets[i]? = some old ∧ ws = f old := by
  rw [modifySocket, List.getElem?_modify] at h
  obtain ⟨old, hold, hf⟩ := Option.map_eq_some_iff.mp h
  exact ⟨old, hold, by simpa using hf.symm⟩

/-- The chat a socket is in is the one it has as its own. -/
theorem ClientsOk.own (h : ClientsOk s) (hws : s.sockets[i]? = some ws) (hmember : Member s chatId i) :
    ws.state.chatId = chatId := by
  obtain ⟨ws', hws', -, -, hown⟩ := h.placed chatId i hmember
  cases hws.symm.trans hws'
  exact hown

theorem clientsOk_upgraded (h : ClientsOk s) (ws : BunWs) (hwired : ws.wired = false) :
    ClientsOk { s with sockets := s.sockets ++ [ws] } := by
  refine clientsOk_moved (i := s.sockets.length) h h.noEmpty (fun j hj => ?_) (fun _ _ _ => Iff.rfl)
    (fun ws' hws' hreceives => ?_)
    (fun chatId hmember => ?_)
  · dsimp only
    rw [Lists.getElem?_concat, if_neg hj]
  · dsimp only at hws'
    rw [List.getElem?_concat_length] at hws'
    cases hws'
    rw [BunWs.receives, hwired, Bool.false_and] at hreceives
    cases hreceives
  · obtain ⟨ws', hws', -⟩ := h.placed chatId s.sockets.length hmember
    rw [List.getElem?_eq_none (Nat.le_refl _)] at hws'
    cases hws'

theorem clientsOk_attach (h : ClientsOk s) (hws : s.sockets[i]? = some ws) (hlive : ws.readyState = .live) :
    ClientsOk (attach i s) := by
  have hown : (modifySocket i (fun ws => { ws with wired := true }) s).sockets[i]? = some { ws with wired := true } :=
    modifySocket_self hws
  rw [attach, hws]
  dsimp only
  refine clientsOk_moved (i := i) h (fun other => noEmpty_addClient h.noEmpty) (fun j hj => modifySocket_ne hj.symm)
    (fun other j hj => ?_) (fun ws' hws' _ => ?_) (fun other hmember => ?_)
  · rw [member_addClient]
    exact ⟨fun hm => hm.resolve_right fun heq => hj heq.2, Or.inl⟩
  · cases hown.symm.trans hws'
    exact member_addClient.mpr (Or.inr ⟨rfl, rfl⟩)
  · refine ⟨_, hown, rfl, ?_, ?_⟩
    · rw [hlive]
      exact nofun
    · rcases member_addClient.mp hmember with hm | ⟨rfl, -⟩
      · have hold : ws.state.chatId = other := h.own hws hm
        exact hold
      · rfl

theorem clientsOk_verified (h : ClientsOk s) (user : User) : ClientsOk (modifySocket i
    (fun ws => { ws with state := { ws.state with authed := true, userId := some user.sub } }) s) := by
  refine clientsOk_moved (i := i) h h.noEmpty (fun j hj => modifySocket_ne hj.symm) (fun _ _ _ => Iff.rfl)
    (fun ws hws hreceives => ?_) (fun chatId hmember => ?_)
  · obtain ⟨old, hold, rfl⟩ := modifySocket_cases hws
    exact h.joined i old hold hreceives
  · obtain ⟨old, hold, hwired, hready, hown⟩ := h.placed chatId i hmember
    exact ⟨_, modifySocket_self hold, hwired, hready, hown⟩

theorem clientsOk_rebindChat (h : ClientsOk s) (hws : receiving s i = some ws) : ClientsOk (rebindChat i chatId s) := by
  obtain ⟨hws, hwired, hready⟩ := receiving_eq_some hws
  rw [rebindChat, hws]
  dsimp only
  split_ifs
  · exact h
  · have hremoved : (removeClient ws.state.chatId i s).sockets[i]? = some ws := by
      rw [removeClient_sockets]
      exact hws
    have hown : (modifySocket i (fun ws => { ws with state := { ws.state with chatId := chatId } })
        (removeClient ws.state.chatId i s)).sockets[i]? = some { ws with state := { ws.state with chatId := chatId } } :=
      modifySocket_self hremoved
    have hmember : ∀ other j, Member (addClient chatId i (modifySocket i
        (fun ws => { ws with state := { ws.state with chatId := chatId } }) (removeClient ws.state.chatId i s))) other j ↔
        Member s other j ∧ ¬ (other = ws.state.chatId ∧ j = i) ∨ other = chatId ∧ j = i := fun other j =>
      member_addClient.trans (or_congr_left member_removeClient)
    refine clientsOk_moved (i := i) h (fun other => noEmpty_addClient fun other => noEmpty_removeClient h.noEmpty)
      (fun j hj => ?_) (fun other j hj => ?_) (fun ws' hws' _ => ?_) (fun other hm => ?_)
    · exact (modifySocket_ne hj.symm).trans (by rw [removeClient_sockets])
    · rw [hmember]
      exact ⟨fun hm => (hm.resolve_right fun heq => hj heq.2).1, fun hm => Or.inl ⟨hm, fun heq => hj heq.2⟩⟩
    · cases hown.symm.trans hws'
      exact (hmember chatId i).mpr (Or.inr ⟨rfl, rfl⟩)
    · refine ⟨_, hown, hwired, hready, ?_⟩
      rcases (hmember other i).mp hm with ⟨hold, hnot⟩ | ⟨rfl, -⟩
      · exact absurd ⟨(h.own hws hold).symm, rfl⟩ hnot
      · rfl

theorem clientsOk_closed (h : ClientsOk s) (hws : s.sockets[i]? = some ws) :
    ClientsOk (removeClient ws.state.chatId i (modifySocket i (fun ws => { ws with readyState := .closed }) s)) := by
  have hown : (modifySocket i (fun ws => { ws with readyState := .closed }) s).sockets[i]? =
      some { ws with readyState := .closed } := modifySocket_self hws
  refine clientsOk_moved (i := i) h (fun other => noEmpty_removeClient h.noEmpty) (fun j hj => ?_) (fun other j hj => ?_)
    (fun ws' hws' hreceives => ?_) (fun other hm => ?_)
  · rw [removeClient_sockets]
    exact modifySocket_ne hj.symm
  · rw [member_removeClient]
    exact ⟨And.left, fun hm => ⟨hm, fun heq => hj heq.2⟩⟩
  · rw [removeClient_sockets] at hws'
    cases hown.symm.trans hws'
    rw [BunWs.receives, Bool.and_eq_true] at hreceives
    cases hreceives.2
  · obtain ⟨hold, hnot⟩ := member_removeClient.mp hm
    exact absurd ⟨(h.own hws hold).symm, rfl⟩ hnot

theorem clientsOk_stop (h : ClientsOk s) : ClientsOk (stop s) := by
  refine ⟨fun chatId hempty => (by cases hempty), fun i ws hws hreceives => ?_, fun chatId i hm => ?_⟩
  · rw [stop] at hws
    dsimp only at hws
    rw [List.getElem?_mapIdx] at hws
    obtain ⟨old, hold, rfl⟩ := Option.map_eq_some_iff.mp hws
    split_ifs at hreceives with hshut
    · rw [BunWs.receives, Bool.and_eq_true] at hreceives
      cases hreceives.2
    · have hlive : old.readyState = .live := by
        rw [BunWs.receives, Bool.and_eq_true, beq_iff_eq] at hreceives
        exact hreceives.2
      obtain ⟨set, hlookup, hi⟩ := h.joined i old hold hreceives
      have hentry : (⟨old.state.chatId, set⟩ : Sigma fun _ : String => List ℕ) ∈ s.clients.entries :=
        AList.mem_lookup_iff.mp hlookup
      exact absurd ⟨List.mem_flatMap.mpr ⟨_, hentry, hi⟩, hlive⟩ hshut
  · obtain ⟨set, hlookup, -⟩ := hm
    cases hlookup

theorem clientsOk_step (h : ClientsOk s) (hs : step cfg s a = some s') : ClientsOk s' := by
  cases step_moves hs with
  | same hsame => exact h.congr hsame
  | upgraded hsame => exact (clientsOk_upgraded h _ rfl).congr hsame
  | attached i ws hws hlive hsame => exact (clientsOk_attach h hws hlive).congr hsame
  | verified i user hsame => exact (clientsOk_verified h user).congr hsame
  | rebound i chatId ws hws hauthed hsame => exact (clientsOk_rebindChat h hws).congr hsame
  | closed i ws hws hsame => exact (clientsOk_closed h hws).congr hsame
  | stopped hsame => exact (clientsOk_stop h).congr hsame

theorem clientsOk_init : ClientsOk init :=
  ⟨fun _ h => (by cases h), fun _ _ h => (by cases h), fun _ _ ⟨_, h, _⟩ => (by cases h)⟩

end Nexal.WsChannel
