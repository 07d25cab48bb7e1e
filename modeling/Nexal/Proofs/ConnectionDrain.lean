import Nexal.Lib.Lists
import Nexal.Sanity.Connection

/-! No request is left in a pending map once its level is closed, in runs in which no request
comes after the drain of its channel. -/

namespace Nexal.Conn

open Runs
open Wire (Value WireResponse)

def Drain.remaining : Drain → List ChanId
  | .rest chans => chans
  | _ => []

/-- A request enters only a channel that a drain will still see; a `reject_all` ends only when
no other drain has a stream left; and the pump sees `Reconnected` only when the requests of
earlier sockets have been answered. -/
def orderly (s : State) : Act → Bool
  | .request chan _ => chan ∉ s.swept
  | .task i _ =>
    match s.tasks[i]? with
    | some ⟨.closeStream _, _⟩ => true
    | some ⟨_, .rest []⟩ => s.tasks.all fun t => t.todo.remaining = []
    | _ => true
  | .pump =>
    match s.pump, s.events with
    | .idle, .reconnected socket :: _ => s.pending.all fun row => (s.sentOn row.req).all (socket ≤ ·)
    | _, _ => true
  | _ => true

/-- What closing promises: nothing waits on a closed level, nor on a lost socket. -/
structure NoneStuck (s : State) : Prop where
  disconnected : ∀ t ∈ s.tasks, t = ⟨.disconnect, .done⟩ → s.pending = []
  closed : ∀ t ∈ s.tasks, t = ⟨.close, .done⟩ → s.pending = []
  streamClosed : ∀ t ∈ s.tasks, ∀ c, t = ⟨.closeStream c, .done⟩ → ∀ row ∈ s.pending, row.chan ≠ c
  reconnected : ∀ row ∈ s.pending, ∀ socket, s.sentOn row.req = some socket → s.reconnected ≤ socket

/-! Drains -/

def TaskOk (k : Core) (t : Task) : Prop :=
  match t.kind, t.todo with
  | .closeStream c, .rest cs => cs = [c] ∨ (cs = [] ∧ c ∈ k.swept)
  | .closeStream c, .done => c ∈ k.swept
  | .closeStream _, _ => False
  | _, .root => True
  | _, .take => 0 ∈ k.swept
  | _, .rest _ => 0 ∈ k.swept ∧ k.taken = true
  | _, .done => k.taken = true ∧ ∀ c, c < k.channels.length → c ∈ k.swept

structure DrainInv (k : Core) : Prop where
  swept : ∀ row ∈ k.pending, row.chan ∉ k.swept
  rows : ∀ row ∈ k.pending, row.chan < k.channels.length
  placed : ∀ c, 0 < c → c < k.channels.length →
    c ∈ k.swept ∨ c ∈ k.streams.map (·.2) ∨ ∃ t ∈ k.tasks, c ∈ t.todo.remaining
  taken : k.taken = true → ∀ c ∈ k.streams.map (·.2), c ∈ k.swept
  tasks : ∀ t ∈ k.tasks, TaskOk k t

theorem drainInv_init : DrainInv init.core where
  swept := fun _ h => absurd h List.not_mem_nil
  rows := fun _ h => absurd h List.not_mem_nil
  placed := fun c h0 h1 => by
    have : c < 1 := h1
    omega
  taken := fun _ _ h => absurd h List.not_mem_nil
  tasks := fun _ h => absurd h List.not_mem_nil

variable {k k' : Core}

/-- Sweeping more keeps what a drain has done. -/
theorem TaskOk.mono {t : Task} (h : TaskOk k t) (hsw : k.swept ⊆ k'.swept)
    (htk : k.taken = true → k'.taken = true)
    (hch : k.taken = true → ∀ c, c < k'.channels.length → c < k.channels.length ∨ c ∈ k'.swept) :
    TaskOk k' t := by
  obtain ⟨kind, todo⟩ := t
  cases kind <;> cases todo <;> simp only [TaskOk] at h ⊢
  · exact hsw h
  · exact ⟨hsw h.1, htk h.2⟩
  · exact ⟨htk h.1, fun c hc => (hch h.1 c hc).elim (fun hc => hsw (h.2 c hc)) id⟩
  · exact hsw h
  · exact ⟨hsw h.1, htk h.2⟩
  · exact ⟨htk h.1, fun c hc => (hch h.1 c hc).elim (fun hc => hsw (h.2 c hc)) id⟩
  · exact h.imp_right fun h => ⟨h.1, hsw h.2⟩
  · exact hsw h

/-- A step that makes no channel, moves no stream and no drain: only rows may go. -/
theorem DrainInv.of_sublist (h : DrainInv k) (hch : k'.channels = k.channels) (hst : k'.streams = k.streams)
    (hta : k'.tasks = k.tasks) (hsw : k'.swept = k.swept) (htk : k'.taken = k.taken)
    (hpe : k'.pending ⊆ k.pending) : DrainInv k' where
  swept := fun row hrow => hsw ▸ h.swept row (hpe hrow)
  rows := fun row hrow => hch ▸ h.rows row (hpe hrow)
  placed := by simpa only [hch, hsw, hst, hta] using h.placed
  taken := by simpa only [htk, hst, hsw] using h.taken
  tasks := fun t ht => (h.tasks t (hta ▸ ht)).mono (hsw ▸ List.Subset.refl _) (htk ▸ id)
    fun _ c hc => Or.inl (hch ▸ hc)

/-- A new drain that has not begun, or one of a stream just taken out of the map. -/
theorem DrainInv.with_task (h : DrainInv k) {t : Task} {streams : List (String × ChanId)} {pump : Pump}
    (hst : ∀ p ∈ k.streams, p ∈ streams ∨ p.2 ∈ t.todo.remaining) (hsub : streams ⊆ k.streams)
    (ht : TaskOk k t) :
    DrainInv { k with streams := streams, tasks := k.tasks ++ [t], pump := pump } := by
  refine ⟨h.swept, h.rows, fun c h0 hc => ?_, fun htk c hc => ?_, fun t' ht' => ?_⟩
  · rcases h.placed c h0 hc with hs | hs | ⟨t', ht', hs⟩
    · exact Or.inl hs
    · obtain ⟨p, hp, rfl⟩ := List.mem_map.mp hs
      rcases hst p hp with hp | hp
      · exact Or.inr (Or.inl (List.mem_map_of_mem hp))
      · exact Or.inr (Or.inr ⟨t, List.mem_append_right _ List.mem_cons_self, hp⟩)
    · exact Or.inr (Or.inr ⟨t', List.mem_append_left _ ht', hs⟩)
  · obtain ⟨p, hp, rfl⟩ := List.mem_map.mp hc
    exact h.taken htk _ (List.mem_map_of_mem (hsub hp))
  · rcases List.mem_append.mp ht' with ht' | ht'
    · exact h.tasks t' ht'
    · rw [List.mem_singleton.mp ht']
      exact ht

theorem drainInv_stream (h : DrainInv k) (name : String) :
    DrainInv { k with
      channels := k.channels ++ [some name]
      streams := k.streams ++ [(name, k.channels.length)]
      swept := if k.taken then k.channels.length :: k.swept else k.swept } := by
  have hgrow : k.swept ⊆ if k.taken then k.channels.length :: k.swept else k.swept := by
    split_ifs
    · exact List.subset_cons_self _ _
    · exact List.Subset.refl _
  have hlen : (k.channels ++ [some name]).length = k.channels.length + 1 := by simp
  refine ⟨fun row hrow hsw => ?_, fun row hrow => ?_, fun c h0 hc => ?_, fun htk c hc => ?_, fun t ht => ?_⟩
  · have hlt : row.chan < k.channels.length := h.rows row hrow
    dsimp only at hsw
    split_ifs at hsw
    · rcases List.mem_cons.mp hsw with heq | hsw
      · exact absurd heq (Nat.ne_of_lt hlt)
      · exact h.swept row hrow hsw
    · exact h.swept row hrow hsw
  · have hlt : row.chan < k.channels.length := h.rows row hrow
    simp only [hlen]
    exact Nat.lt_succ_of_lt hlt
  · simp only [hlen] at hc
    by_cases hlast : c = k.channels.length
    · right
      left
      simp [hlast]
    · rcases h.placed c h0 (by omega) with hs | hs | hs
      · exact Or.inl (hgrow hs)
      · right
        left
        simpa using Or.inl (by simpa using hs)
      · exact Or.inr (Or.inr hs)
  · have htk' : k.taken = true := htk
    simp only [htk', if_true]
    simp only [List.map_append, List.mem_append, List.map_cons, List.map_nil, List.mem_singleton] at hc
    rcases hc with hc | rfl
    · exact List.mem_cons_of_mem _ (h.taken htk' c hc)
    · exact List.mem_cons_self
  · refine (h.tasks t ht).mono hgrow id fun htk c hc => ?_
    simp only [hlen] at hc
    by_cases hlast : c = k.channels.length
    · right
      simp [htk, hlast]
    · left
      omega

theorem drainInv_request (h : DrainInv k) {chan : ChanId} {id : Uuid} {stream : Option String}
    (hchan : k.channels[chan]? = some stream) (hopen : chan ∉ k.swept) :
    DrainInv { k with
      pending := k.pending.filter (fun row => ¬ (row.chan = chan ∧ row.key = id.text)) ++
        [⟨chan, id.text, k.requests.length⟩]
      requests := k.requests ++ [⟨chan, stream, id⟩] } := by
  refine ⟨fun row hrow => ?_, fun row hrow => ?_, h.placed, h.taken, h.tasks⟩
  · rcases List.mem_append.mp hrow with hrow | hrow
    · exact h.swept row (List.mem_filter.mp hrow).1
    · rw [List.mem_singleton.mp hrow]
      exact hopen
  · rcases List.mem_append.mp hrow with hrow | hrow
    · exact h.rows row (List.mem_filter.mp hrow).1
    · rw [List.mem_singleton.mp hrow]
      exact (List.getElem?_eq_some_iff.mp hchan).1

/-- A drain goes on: what it swept is swept, what is left of it is written down. -/
theorem DrainInv.with_todo (h : DrainInv k) {i : ℕ} {old new : Task} (hi : k.tasks[i]? = some old)
    (hch : k'.channels = k.channels) (hta : k'.tasks = k.tasks.set i new)
    (hsw : k.swept ⊆ k'.swept) (htk : k.taken = true → k'.taken = true)
    (hpe : ∀ row ∈ k'.pending, row ∈ k.pending ∧ row.chan ∉ k'.swept)
    (hmoved : ∀ c ∈ k.streams.map (·.2), c ∈ k'.streams.map (·.2) ∨ c ∈ new.todo.remaining)
    (hleft : ∀ c ∈ old.todo.remaining, c ∈ new.todo.remaining ∨ c ∈ k'.swept)
    (hnewtk : k'.taken = true → ∀ c ∈ k'.streams.map (·.2), c ∈ k'.swept)
    (hok : TaskOk k' new) : DrainInv k' := by
  have hnew : new ∈ k'.tasks := by
    rw [hta]
    exact List.mem_of_getElem? (Lists.getElem?_set_self_of_some hi)
  refine ⟨fun row hrow => (hpe row hrow).2, fun row hrow => hch ▸ h.rows row (hpe row hrow).1,
    fun c h0 hc => ?_, hnewtk, fun t ht => ?_⟩
  · rcases h.placed c h0 (hch ▸ hc) with hs | hs | ⟨t, ht, hs⟩
    · exact Or.inl (hsw hs)
    · rcases hmoved c hs with hs | hs
      · exact Or.inr (Or.inl hs)
      · exact Or.inr (Or.inr ⟨new, hnew, hs⟩)
    · rcases Lists.mem_set_of_mem (a := new) hi ht with rfl | ht
      · rcases hleft c hs with hs | hs
        · exact Or.inr (Or.inr ⟨new, hnew, hs⟩)
        · exact Or.inl hs
      · exact Or.inr (Or.inr ⟨t, hta ▸ ht, hs⟩)
  · rw [hta] at ht
    rcases List.mem_or_eq_of_mem_set ht with ht | rfl
    · exact (h.tasks t ht).mono hsw htk fun _ c hc => Or.inl (hch ▸ hc)
    · exact hok

theorem DrainInv.with_drain (h : DrainInv k) {i : ℕ} {c : ChanId} {old new : Task}
    (hi : k.tasks[i]? = some old)
    (hleft : ∀ c' ∈ old.todo.remaining, c' ∈ new.todo.remaining ∨ c' = c)
    (hok : TaskOk (k.drain c) new) : DrainInv ((k.drain c).setTask i new) := by
  have hgrow : k.swept ⊆ c :: k.swept := List.subset_cons_self _ _
  refine h.with_todo hi rfl rfl hgrow id (fun row hrow => ?_) (fun c' hc' => Or.inl hc')
    (fun c' hc' => ?_) (fun htk c' hc' => hgrow (h.taken htk c' hc')) hok
  · obtain ⟨hrow, hne⟩ := List.mem_filter.mp hrow
    refine ⟨hrow, fun hsw => ?_⟩
    rcases List.mem_cons.mp hsw with heq | hsw
    · exact of_decide_eq_true hne heq
    · exact h.swept row hrow hsw
  · rcases hleft c' hc' with hc' | rfl
    · exact Or.inl hc'
    · exact Or.inr List.mem_cons_self

/-- When no drain has a stream left, a `reject_all` that has got through its streams has swept
every channel. -/
theorem DrainInv.all_swept (h : DrainInv k) (h0 : 0 ∈ k.swept) (htk : k.taken = true)
    (hleft : ∀ t ∈ k.tasks, t.todo.remaining = []) (c : ChanId) (hc : c < k.channels.length) :
    c ∈ k.swept := by
  by_cases hroot : c = 0
  · rwa [hroot]
  · rcases h.placed c (Nat.pos_of_ne_zero hroot) hc with hs | hs | ⟨t, ht, hs⟩
    · exact hs
    · exact h.taken htk c hs
    · rw [hleft t ht] at hs
      exact absurd hs List.not_mem_nil

def OrderlyCore (k : Core) : Act → Prop
  | .request chan _ => chan ∉ k.swept
  | .task i _ => ∀ kind, k.tasks[i]? = some ⟨kind, .rest []⟩ → (∀ c, kind ≠ .closeStream c) →
      ∀ t ∈ k.tasks, t.todo.remaining = []
  | _ => True

theorem orderlyCore_of_orderly {s : State} {a : Act} (h : orderly s a = true) : OrderlyCore s.core a := by
  cases a with
  | request chan id =>
    show chan ∉ s.swept
    exact of_decide_eq_true h
  | task i chan =>
    intro kind hi hkind
    have hi : s.tasks[i]? = some ⟨kind, .rest []⟩ := hi
    simp only [orderly, hi] at h
    show ∀ t ∈ s.tasks, t.todo.remaining = []
    cases kind with
    | closeStream c => exact absurd rfl (hkind c)
    | disconnect => simpa using h
    | close => simpa using h
  | _ => trivial

variable {display : Value → String} {a : Act}

theorem drainInv_task (h : DrainInv k) {i : ℕ} {chan : ChanId} (horder : OrderlyCore k (.task i chan))
    (hs : CoreStep display (.task i chan) k k') : DrainInv k' := by
  cases hs with
  | @drainRoot _ _ _ kind ht =>
    have hold := h.tasks _ (List.mem_of_getElem? ht)
    refine h.with_drain ht (fun c' hc' => absurd hc' List.not_mem_nil) ?_
    cases kind with
    | closeStream c => exact hold.elim
    | disconnect => exact List.mem_cons_self
    | close => exact List.mem_cons_self
  | @drainTake _ _ _ kind ht =>
    have hold := h.tasks _ (List.mem_of_getElem? ht)
    refine h.with_todo ht rfl rfl (List.Subset.refl _) (fun _ => rfl) (fun row hrow => ⟨hrow, h.swept row hrow⟩)
      (fun c' hc' => Or.inr hc') (fun c' hc' => absurd hc' List.not_mem_nil)
      (fun _ c' hc' => absurd hc' List.not_mem_nil) ?_
    cases kind with
    | closeStream c => exact hold.elim
    | disconnect => exact ⟨hold, rfl⟩
    | close => exact ⟨hold, rfl⟩
  | @drainRest _ _ _ kind cs ht hmem =>
    have hold := h.tasks _ (List.mem_of_getElem? ht)
    refine h.with_drain ht (fun c' hc' => ?_) ?_
    · by_cases heq : c' = chan
      · exact Or.inr heq
      · exact Or.inl ((List.mem_erase_of_ne heq).mpr hc')
    · cases kind with
      | disconnect => exact ⟨List.mem_cons_of_mem _ hold.1, hold.2⟩
      | close => exact ⟨List.mem_cons_of_mem _ hold.1, hold.2⟩
      | closeStream c =>
        rcases hold with rfl | ⟨rfl, -⟩
        · obtain rfl : chan = c := List.mem_singleton.mp hmem
          exact Or.inr ⟨by simp, List.mem_cons_self⟩
        · exact absurd hmem List.not_mem_nil
  | @drainDone _ _ _ kind ht =>
    have hold := h.tasks _ (List.mem_of_getElem? ht)
    refine h.with_todo ht rfl rfl (List.Subset.refl _) id (fun row hrow => ⟨hrow, h.swept row hrow⟩)
      (fun c' hc' => Or.inl hc') (fun c' hc' => absurd hc' List.not_mem_nil) h.taken ?_
    cases kind with
    | closeStream c =>
      rcases hold with hold | ⟨-, hold⟩
      · cases hold
      · exact hold
    | disconnect => exact ⟨hold.2, h.all_swept hold.1 hold.2 (horder _ ht fun c hc => by cases hc)⟩
    | close => exact ⟨hold.2, h.all_swept hold.1 hold.2 (horder _ ht fun c hc => by cases hc)⟩

theorem drainInv_step (h : DrainInv k) (horder : OrderlyCore k a) (hs : CoreStep display a k k') :
    DrainInv k' := by
  cases hs with
  | stream hnone => exact drainInv_stream h _
  | request hchan => exact drainInv_request h hchan horder
  | @closeStream _ name c hname =>
    refine h.with_task (fun p hp => ?_) List.erase_subset (Or.inl rfl)
    by_cases hpc : p = (name, c)
    · right
      simp [hpc, Drain.remaining]
    · left
      exact (List.mem_erase_of_ne hpc).mpr hp
  | close => exact h.with_task (fun p hp => Or.inl hp) (List.Subset.refl _) trivial
  | stop hpump => exact h.with_task (fun p hp => Or.inl hp) (List.Subset.refl _) trivial
  | drainRoot ht => exact drainInv_task h horder (.drainRoot ht : CoreStep display _ _ _)
  | drainTake ht => exact drainInv_task h horder (.drainTake ht : CoreStep display _ _ _)
  | drainRest ht hmem => exact drainInv_task h horder (.drainRest ht hmem : CoreStep display _ _ _)
  | drainDone ht => exact drainInv_task h horder (.drainDone ht : CoreStep display _ _ _)
  | route hpump hlevel => exact h.of_sublist rfl rfl rfl rfl rfl (List.Subset.refl _)
  | slot hpump hrow hkey => exact h.of_sublist rfl rfl rfl rfl rfl List.erase_subset
  | unknown hpump => exact h.of_sublist rfl rfl rfl rfl rfl (List.Subset.refl _)
  | complete hpump => exact h.of_sublist rfl rfl rfl rfl rfl (List.Subset.refl _)

/-! Sockets -/

structure SockInv (s : State) : Prop where
  waiting : ∀ row ∈ s.pending, ∀ socket, s.sentOn row.req = some socket → s.reconnected ≤ socket
  unsent : ∀ req, s.requests.length ≤ req → s.sentOn req = none
  queued : ∀ req, Cmd.send req ∈ s.cmds → req < s.requests.length
  announced : ∀ socket, Event.reconnected socket ∈ s.events → socket ≤ s.sockets
  seen : s.reconnected ≤ s.sockets
  live : ∀ socket, s.driver = .connected socket → socket = s.sockets

theorem sockInv_init : SockInv init where
  waiting := fun _ h => absurd h List.not_mem_nil
  unsent := fun _ _ => rfl
  queued := fun _ h => absurd h List.not_mem_nil
  announced := fun _ h => absurd h List.not_mem_nil
  seen := Nat.le_refl 0
  live := fun _ h => (Driver.connected.inj h).symm

structure SockFrame (s s' : State) : Prop where
  pending : s'.pending ⊆ s.pending
  requests : s'.requests = s.requests
  sentOn : s'.sentOn = s.sentOn
  cmds : ∀ req, Cmd.send req ∈ s'.cmds → Cmd.send req ∈ s.cmds ∨ req < s.requests.length
  events : ∀ socket, Event.reconnected socket ∈ s'.events → Event.reconnected socket ∈ s.events
  sockets : s'.sockets = s.sockets
  reconnected : s'.reconnected = s.reconnected
  driver : ∀ socket, s'.driver = .connected socket → s.driver = .connected socket

variable {s s' s'' : State}

theorem SockFrame.trans (h : SockFrame s s') (h' : SockFrame s' s'') : SockFrame s s'' where
  pending := List.Subset.trans h'.pending h.pending
  requests := h'.requests.trans h.requests
  sentOn := h'.sentOn.trans h.sentOn
  cmds := fun req hreq => (h'.cmds req hreq).elim (h.cmds req) fun hlt => Or.inr (h.requests ▸ hlt)
  events := fun socket hsocket => h.events socket (h'.events socket hsocket)
  sockets := h'.sockets.trans h.sockets
  reconnected := h'.reconnected.trans h.reconnected
  driver := fun socket hsocket => h.driver socket (h'.driver socket hsocket)

theorem SockInv.of_frame (h : SockInv s) (hf : SockFrame s s') : SockInv s' where
  waiting := fun row hrow socket hsocket => by
    rw [hf.reconnected]
    exact h.waiting row (hf.pending hrow) socket (hf.sentOn ▸ hsocket)
  unsent := fun req hreq => by
    rw [hf.sentOn]
    exact h.unsent req (hf.requests ▸ hreq)
  queued := fun req hreq => by
    rw [hf.requests]
    exact (hf.cmds req hreq).elim (h.queued req) id
  announced := fun socket hsocket => by
    rw [hf.sockets]
    exact h.announced socket (hf.events socket hsocket)
  seen := by
    rw [hf.reconnected, hf.sockets]
    exact h.seen
  live := fun socket hsocket => by
    rw [hf.sockets]
    exact h.live socket (hf.driver socket hsocket)

/-- Only the maps change. -/
theorem sockFrame_maps {channels : List (Option String)} {streams : List (String × ChanId)} {pending : List Row}
    {calls : ReqId → CallPhase} {tasks : List Task} {pump : Pump} {completions : List Completion}
    {swept : List ChanId} {taken : Bool} (hpe : pending ⊆ s.pending) :
    SockFrame s { s with
      channels := channels, streams := streams, pending := pending, calls := calls, tasks := tasks, pump := pump
      completions := completions, swept := swept, taken := taken } :=
  ⟨hpe, rfl, rfl, fun _ h => Or.inl h, fun _ h => h, rfl, rfl, fun _ h => h⟩

/-- Only the driver and its queues change. -/
theorem sockFrame_driver {closed : Bool} {cmds : List Cmd} {events : List Event} {driver : Driver}
    (hcmds : ∀ req, Cmd.send req ∈ cmds → Cmd.send req ∈ s.cmds ∨ req < s.requests.length)
    (hevents : ∀ socket, Event.reconnected socket ∈ events → Event.reconnected socket ∈ s.events)
    (hdriver : ∀ socket, driver = .connected socket → s.driver = .connected socket) :
    SockFrame s { s with closed := closed, cmds := cmds, events := events, driver := driver } :=
  ⟨List.Subset.refl _, rfl, rfl, hcmds, hevents, rfl, rfl, hdriver⟩

theorem sockFrame_drainStep {pick : ChanId} {d todo : Drain} (h : drainStep pick s d = some (todo, s')) :
    SockFrame s s' := by
  cases d with
  | root =>
    obtain ⟨-, rfl⟩ := Prod.mk.inj (Option.some.inj h)
    exact sockFrame_maps (List.filter_subset_self _)
  | take =>
    obtain ⟨-, rfl⟩ := Prod.mk.inj (Option.some.inj h)
    exact sockFrame_maps (List.Subset.refl _)
  | done => cases h
  | rest cs =>
    cases cs with
    | nil =>
      obtain ⟨-, rfl⟩ := Prod.mk.inj (Option.some.inj h)
      exact sockFrame_maps (List.Subset.refl _)
    | cons c cs =>
      simp only [drainStep] at h
      split_ifs at h
      obtain ⟨-, rfl⟩ := Prod.mk.inj (Option.some.inj h)
      exact sockFrame_maps (List.filter_subset_self _)

theorem sockFrame_transportClose (s : State) : SockFrame s (transportClose s) := by
  unfold transportClose
  split_ifs
  · exact sockFrame_maps (List.Subset.refl _)
  · exact sockFrame_driver (fun req h => Or.inl (by simpa using h)) (fun _ h => h) fun _ h => h

theorem sockFrame_lost (reconnects : Bool) (s : State) : SockFrame s (lost reconnects s) := by
  unfold lost
  split_ifs
  · exact sockFrame_driver (fun _ h => Or.inl h) (fun _ h => h) fun _ h => by cases h
  · exact sockFrame_driver (fun _ h => Or.inl h) (fun _ h => by simpa using h) fun _ h => by cases h

theorem sockInv_request (h : SockInv s) {row : Row} {pending : List Row} {q : Request}
    (hpe : pending ⊆ s.pending) (hrow : row.req = s.requests.length) :
    SockInv { s with pending := pending ++ [row], requests := s.requests ++ [q] } := by
  have hlen : (s.requests ++ [q]).length = s.requests.length + 1 := by simp
  refine ⟨fun r hr socket hsocket => ?_, fun req hreq => ?_, fun req hreq => ?_, h.announced, h.seen, h.live⟩
  · rcases List.mem_append.mp hr with hr | hr
    · exact h.waiting r (hpe hr) socket hsocket
    · rw [List.mem_singleton.mp hr, hrow] at hsocket
      rw [show s.sentOn s.requests.length = none from h.unsent _ (Nat.le_refl _)] at hsocket
      cases hsocket
  · refine h.unsent req ?_
    simp only [hlen] at hreq
    omega
  · simp only [hlen]
    exact Nat.lt_succ_of_lt (h.queued req hreq)

/-- The driver takes a frame for the last socket, which it has or has just lost. -/
theorem sockInv_write (h : SockInv s) {req : ReqId} {cmds : List Cmd} {socket : ℕ}
    (hlast : socket = s.sockets) (hcmds : s.cmds = .send req :: cmds) :
    SockInv { s with cmds := cmds, sentOn := Function.update s.sentOn req (some socket) } := by
  have hreq : req < s.requests.length := h.queued req (hcmds ▸ List.mem_cons_self)
  refine ⟨fun row hrow n hn => ?_, fun r hr => ?_, fun r hr => h.queued r (hcmds ▸ List.mem_cons_of_mem _ hr),
    h.announced, h.seen, h.live⟩
  · dsimp only at hn ⊢
    by_cases heq : row.req = req
    · rw [heq, Function.update_self] at hn
      rw [← Option.some.inj hn, hlast]
      exact h.seen
    · rw [Function.update_of_ne heq] at hn
      exact h.waiting row hrow n hn
  · dsimp only at hr ⊢
    have hne : r ≠ req := Nat.ne_of_gt (Nat.lt_of_lt_of_le hreq hr)
    rw [Function.update_of_ne hne]
    exact h.unsent r hr

theorem sockInv_reconnect (h : SockInv s) :
    SockInv { s with
      driver := .connected (s.sockets + 1)
      sockets := s.sockets + 1
      events := s.events ++ [.reconnected (s.sockets + 1)] } := by
  refine ⟨h.waiting, h.unsent, h.queued, fun socket hsocket => ?_, Nat.le_succ_of_le h.seen,
    fun socket hsocket => (Driver.connected.inj hsocket).symm⟩
  rcases List.mem_append.mp hsocket with hsocket | hsocket
  · exact Nat.le_succ_of_le (h.announced socket hsocket)
  · obtain rfl := Event.reconnected.inj (List.mem_singleton.mp hsocket)
    exact Nat.le_refl _

theorem sockInv_seen (h : SockInv s) {socket : ℕ} {events : List Event}
    (hev : s.events = .reconnected socket :: events)
    (hpe : ∀ row ∈ s.pending, ∀ n, s.sentOn row.req = some n → socket ≤ n) :
    SockInv { s with events := events, reconnected := socket } :=
  ⟨hpe, h.unsent, h.queued, fun n hn => h.announced n (hev ▸ List.mem_cons_of_mem _ hn),
    h.announced socket (hev ▸ List.mem_cons_self), h.live⟩

variable {ε : Type} {decodeFrame : ByteArray → Except ε Value} {reconnects : Bool}

theorem sockInv_pump (h : SockInv s) (horder : orderly s .pump = true)
    (hs : pumpStep decodeFrame display s = some s') : SockInv s' := by
  unfold pumpStep at hs
  cases hpump : s.pump with
  | idle =>
    simp only [hpump] at hs
    cases hev : s.events with
    | nil =>
      rw [hev] at hs
      cases hs
    | cons ev events =>
      -- without the event, before it is handled
      have hrest : SockFrame s { s with events := events } :=
        sockFrame_driver (fun _ h => Or.inl h) (fun _ h => hev ▸ List.mem_cons_of_mem _ h) fun _ h => h
      simp only [hev] at hs
      cases ev with
      | heartbeatDead =>
        obtain rfl := Option.some.inj hs
        exact h.of_frame (hrest.trans (sockFrame_maps (List.Subset.refl _)))
      | reconnected socket =>
        simp only [orderly, hpump, hev] at horder
        have hlater := List.all_eq_true.mp horder
        have hseen : SockInv { s with events := events, reconnected := socket } := by
          refine sockInv_seen h hev fun row hrow n hn => ?_
          have := hlater row hrow
          rw [hn] at this
          exact of_decide_eq_true this
        obtain rfl := Option.some.inj hs
        exact hseen.of_frame (sockFrame_maps (List.Subset.refl _))
      | disconnected =>
        obtain rfl := Option.some.inj hs
        exact h.of_frame (hrest.trans (sockFrame_maps (List.Subset.refl _)))
      | frame bytes =>
        simp only at hs
        split at hs
        · cases hs
        · split at hs
          · obtain rfl := Option.some.inj hs
            exact h.of_frame (hrest.trans (sockFrame_maps (List.Subset.refl _)))
          · obtain ⟨c, -, rfl⟩ := Option.map_eq_some_iff.mp hs
            exact h.of_frame (hrest.trans (sockFrame_maps (List.Subset.refl _)))
        · obtain rfl := Option.some.inj hs
          exact h.of_frame (hrest.trans (sockFrame_maps (List.Subset.refl _)))
  | routed c resp stream =>
    simp only [hpump] at hs
    split at hs
    · obtain rfl := Option.some.inj hs
      exact h.of_frame (sockFrame_maps List.erase_subset)
    · obtain rfl := Option.some.inj hs
      exact h.of_frame (sockFrame_maps (List.Subset.refl _))
  | completing req resp stream =>
    simp only [hpump] at hs
    obtain rfl := Option.some.inj hs
    exact h.of_frame (sockFrame_maps (List.Subset.refl _))
  | stopped =>
    simp only [hpump] at hs
    cases hs

theorem sockInv_send {req : ℕ} (h : SockInv s) (hs : step decodeFrame display reconnects s (.send req) = some s') :
    SockInv s' := by
  simp only [step] at hs
  split_ifs at hs with hcall hclosed
  · obtain rfl := Option.some.inj hs
    exact h.of_frame (sockFrame_maps (List.Subset.refl _))
  · obtain rfl := Option.some.inj hs
    have hqueue : SockFrame s { s with cmds := s.cmds ++ [.send req] } := by
      refine sockFrame_driver (fun r hr => ?_) (fun _ h => h) fun _ h => h
      rcases List.mem_append.mp hr with hr | hr
      · exact Or.inl hr
      · obtain rfl := Cmd.send.inj (List.mem_singleton.mp hr)
        exact Or.inr hcall.1
    exact h.of_frame (hqueue.trans (sockFrame_maps (List.Subset.refl _)))

theorem sockInv_command (h : SockInv s) (hs : step decodeFrame display reconnects s .command = some s') :
    SockInv s' := by
  simp only [step] at hs
  split at hs
  · rename_i socket req cmds hdriver hcmds
    obtain rfl := Option.some.inj hs
    exact sockInv_write h (h.live socket hdriver) hcmds
  · rename_i req cmds hdriver hcmds
    obtain rfl := Option.some.inj hs
    exact sockInv_write h rfl hcmds
  · rename_i hdriver hcmds
    obtain rfl := Option.some.inj hs
    exact h.of_frame (sockFrame_driver (fun _ h => Or.inl (hcmds ▸ List.mem_cons_of_mem _ h)) (fun _ h => h)
      fun _ h => by cases h)
  · rename_i hdriver hcmds
    obtain rfl := Option.some.inj hs
    exact h.of_frame (sockFrame_driver (fun _ h => Or.inl (hcmds ▸ List.mem_cons_of_mem _ h)) (fun _ h => h)
      fun _ h => by cases h)
  · cases hs

theorem sockInv_step (h : SockInv s) (horder : orderly s a = true)
    (hs : step decodeFrame display reconnects s a = some s') : SockInv s' := by
  cases a with
  | stream name =>
    simp only [step] at hs
    split at hs
    · obtain rfl := Option.some.inj hs
      exact h
    · obtain rfl := Option.some.inj hs
      exact h.of_frame (sockFrame_maps (List.Subset.refl _))
  | request chan id =>
    obtain ⟨stream, -, rfl⟩ := Option.map_eq_some_iff.mp hs
    exact sockInv_request h (List.filter_subset_self _) rfl
  | encodeError req =>
    simp only [step] at hs
    split_ifs at hs
    obtain rfl := Option.some.inj hs
    exact h.of_frame (sockFrame_maps (List.Subset.refl _))
  | send req => exact sockInv_send h hs
  | closeStream name =>
    simp only [step] at hs
    split at hs
    · obtain rfl := Option.some.inj hs
      exact h
    · obtain rfl := Option.some.inj hs
      exact h.of_frame (sockFrame_maps (List.Subset.refl _))
  | close =>
    obtain rfl := Option.some.inj hs
    exact h.of_frame (sockFrame_maps (List.Subset.refl _))
  | task i chan =>
    obtain ⟨t, -, hs⟩ := Option.bind_eq_some_iff.mp hs
    obtain ⟨⟨todo, m⟩, hdrain, rfl⟩ := Option.map_eq_some_iff.mp hs
    have hset : SockFrame s { m with tasks := m.tasks.set i { t with todo := todo } } :=
      (sockFrame_drainStep hdrain).trans (sockFrame_maps (List.Subset.refl _))
    dsimp only
    split_ifs
    · exact h.of_frame (hset.trans (sockFrame_transportClose _))
    · exact h.of_frame hset
  | pump => exact sockInv_pump h horder hs
  | command => exact sockInv_command h hs
  | writeError =>
    simp only [step] at hs
    split at hs
    · rename_i socket req cmds hdriver hcmds
      obtain rfl := Option.some.inj hs
      exact (sockInv_write h (h.live socket hdriver) hcmds).of_frame (sockFrame_lost reconnects _)
    · cases hs
  | lose =>
    simp only [step] at hs
    split at hs
    · obtain rfl := Option.some.inj hs
      exact h.of_frame (sockFrame_lost reconnects _)
    · cases hs
  | reconnect =>
    simp only [step] at hs
    split at hs
    · obtain rfl := Option.some.inj hs
      exact sockInv_reconnect h
    · cases hs
  | receive bytes | heartbeatDead =>
    simp only [step] at hs
    split at hs
    · obtain rfl := Option.some.inj hs
      exact h.of_frame (sockFrame_driver (fun _ h => Or.inl h) (fun _ h => by simpa using h) fun _ h => h)
    · cases hs
  | giveUp =>
    simp only [step] at hs
    split at hs
    · obtain rfl := Option.some.inj hs
      exact h.of_frame (sockFrame_driver (fun _ h => Or.inl h) (fun _ h => by simpa using h) fun _ h => by cases h)
    · cases hs

/-! Runs -/

theorem noneStuck_of_inv (hd : DrainInv s.core) (hk : SockInv s) : NoneStuck s := by
  have hall (h : ∀ c, c < s.channels.length → c ∈ s.swept) : s.pending = [] :=
    List.eq_nil_iff_forall_not_mem.mpr fun row hrow => hd.swept row hrow (h _ (hd.rows row hrow))
  refine ⟨fun t ht heq => ?_, fun t ht heq => ?_, fun t ht c heq row hrow hc => ?_, hk.waiting⟩
  · subst heq
    exact hall (hd.tasks _ ht).2
  · subst heq
    exact hall (hd.tasks _ ht).2
  · subst heq
    exact hd.swept row hrow (hc ▸ hd.tasks _ ht)

/-- Whatever the interleaving, an orderly run leaves no request in a map that its level's closing
should have emptied. -/
theorem none_stuck_in_orderly_runs (decodeFrame : ByteArray → Except ε Value) (display : Value → String)
    (reconnects : Bool) (acts : List Act) (s : State)
    (horder : RunOk (step decodeFrame display reconnects) (fun s a => orderly s a = true) init acts)
    (hrun : run (step decodeFrame display reconnects) init acts = some s) : NoneStuck s := by
  have hinv : DrainInv s.core ∧ SockInv s := by
    refine run_inv (fun s => DrainInv s.core ∧ SockInv s) (fun s a s' hi ho hs => ⟨?_, ?_⟩)
      ⟨drainInv_init, sockInv_init⟩ horder hrun
    · rcases step_core hs with heq | hstep
      · exact heq ▸ hi.1
      · exact drainInv_step hi.1 (orderlyCore_of_orderly ho) hstep
    · exact sockInv_step hi.2 ho hs
  exact noneStuck_of_inv hinv.1 hinv.2

def streamId : Uuid := ⟨"7d444840-9dc0-41d1-b245-5ffdce74fad2", by decide⟩

/-- A decoder for runs in which no frame comes in. -/
def decodeNothing (_ : ByteArray) : Except Unit Value := .error ()

/-- A request on a stream, then the socket is lost and the pump rejects everything. -/
def rejectedRun : List Act :=
  [.stream "agent-1", .request 1 streamId, .send 0, .command, .lose, .pump, .task 0 0, .task 0 0, .task 0 1,
    .task 0 0]

theorem none_stuck_in_rejectedRun :
    ∃ s, run (step decodeNothing (fun _ => "nil") false) init rejectedRun = some s ∧
      s.tasks = [⟨.disconnect, .done⟩] ∧ s.completions.map (·.req) = [0] ∧ NoneStuck s := by
  obtain ⟨s, hs, htasks, hdone⟩ : ∃ s, run (step decodeNothing (fun _ => "nil") false) init rejectedRun = some s ∧
      s.tasks = [⟨.disconnect, .done⟩] ∧ s.completions.map (·.req) = [0] := ⟨_, rfl, rfl, rfl⟩
  have horder : RunOk (step decodeNothing (fun _ => "nil") false) (fun s a => orderly s a = true) init rejectedRun := by
    decide
  exact ⟨s, hs, htasks, hdone, none_stuck_in_orderly_runs decodeNothing _ false rejectedRun s horder hs⟩

/-- The socket is lost, the pump rejects everything and stops; then a request comes. -/
def lateRun : List Act :=
  [.lose, .pump, .task 0 0, .task 0 0, .task 0 0, .request 0 streamId, .send 0]

/-- A request is written, its socket is lost and the driver dials again. -/
def redialRun : List Act :=
  [.request 0 streamId, .send 0, .command, .lose, .reconnect, .pump]

/-- The write of a request fails, which is how the driver learns that the socket is lost. -/
def failedWriteRun : List Act :=
  [.request 0 streamId, .send 0, .writeError, .reconnect, .pump]

theorem stuck_of_sentOn (hseen : s.reconnected = 1) (hsent : s.sentOn 0 = some 0)
    (hrows : s.pending = [⟨0, streamId.text, 0⟩]) : ¬ NoneStuck s := by
  intro h
  have hlate := h.reconnected ⟨0, streamId.text, 0⟩ (hrows ▸ List.mem_cons_self) 0 hsent
  omega

theorem requests_left_waiting :
    (∃ s, run (step decodeNothing (fun _ => "nil") false) init lateRun = some s ∧
      s.tasks = [⟨.disconnect, .done⟩] ∧ s.pending = [⟨0, streamId.text, 0⟩] ∧ ¬ NoneStuck s) ∧
    (∃ s, run (step decodeNothing (fun _ => "nil") true) init redialRun = some s ∧
      s.reconnected = 1 ∧ s.sentOn 0 = some 0 ∧ s.pending = [⟨0, streamId.text, 0⟩] ∧ ¬ NoneStuck s) ∧
    ∃ s, run (step decodeNothing (fun _ => "nil") true) init failedWriteRun = some s ∧
      s.reconnected = 1 ∧ s.sentOn 0 = some 0 ∧ s.pending = [⟨0, streamId.text, 0⟩] ∧ ¬ NoneStuck s := by
  refine ⟨?_, ?_, ?_⟩
  · obtain ⟨s, hs, htasks, hrows⟩ : ∃ s, run (step decodeNothing (fun _ => "nil") false) init lateRun = some s ∧
        s.tasks = [⟨.disconnect, .done⟩] ∧ s.pending = [⟨0, streamId.text, 0⟩] := ⟨_, rfl, rfl, rfl⟩
    refine ⟨s, hs, htasks, hrows, fun h => ?_⟩
    have hempty := h.disconnected ⟨.disconnect, .done⟩ (htasks ▸ List.mem_cons_self) rfl
    rw [hrows] at hempty
    cases hempty
  · obtain ⟨s, hs, hseen, hsent, hrows⟩ : ∃ s, run (step decodeNothing (fun _ => "nil") true) init redialRun =
      some s ∧
        s.reconnected = 1 ∧ s.sentOn 0 = some 0 ∧ s.pending = [⟨0, streamId.text, 0⟩] := ⟨_, rfl, rfl, rfl, rfl⟩
    exact ⟨s, hs, hseen, hsent, hrows, stuck_of_sentOn hseen hsent hrows⟩
  · obtain ⟨s, hs, hseen, hsent, hrows⟩ :
        ∃ s, run (step decodeNothing (fun _ => "nil") true) init failedWriteRun = some s ∧
          s.reconnected = 1 ∧ s.sentOn 0 = some 0 ∧ s.pending = [⟨0, streamId.text, 0⟩] :=
            ⟨_, rfl, rfl, rfl, rfl⟩
    exact ⟨s, hs, hseen, hsent, hrows, stuck_of_sentOn hseen hsent hrows⟩

end Nexal.Conn
