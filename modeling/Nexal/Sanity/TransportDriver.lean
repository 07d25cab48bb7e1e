import Mathlib.Tactic.Cases
import Mathlib.Tactic.SplitIfs
import Nexal.Lib.Lists
import Nexal.Lib.Runs
import Nexal.Spec.TransportDriver

/-! What a step of a driver can do to the heartbeat, and to the commands and the end of the connection. -/

namespace Nexal.Driver

variable {ε : Type} {task : Task} {decodeFrame : ByteArray → Except ε Wire.Value} {s s' : State} {a : Act} {ok : Bool}

def Entry.beat : Entry → Bool
  | .socket | .ping | .pong | .event .heartbeatDead => true
  | _ => false

def State.notes (s : State) (es : List Entry) : List (ℕ × Entry) := s.trace ++ es.map (s.now, ·)

inductive Beats (task : Task) (s : State) (a : Act) (s' : State) : Prop where
  | elapsed (ms : ℕ) (act : a = .elapse ms) (eq : s' = { s with now := s.now + ms })
  /-- Where the socket stays, so do the timers. -/
  | aside (es : List Entry) (quiet : ∀ e ∈ es, e.beat = false) (now : s'.now = s.now) (trace : s'.trace = s.notes es)
      (timers : s'.phase = .connected → s.phase = .connected ∧ s'.hbDeadline = s.hbDeadline ∧
        s'.hbInterval = s.hbInterval)
      (enabled : s'.hbEnabled = s.hbEnabled)
  | started (cmd : .startHeartbeat ∈ s.cmds) (now : s'.now = s.now) (trace : s'.trace = s.trace)
    (phase : s'.phase = s.phase)
      (deadline : s'.hbDeadline = s.hbDeadline)
  | stopped (cmd : .stopHeartbeat ∈ s.cmds) (now : s'.now = s.now) (trace : s'.trace = s.trace)
    (phase : s'.phase = s.phase)
      (deadline : s'.hbDeadline = none) (interval : s'.hbInterval = none)
  | pinged (due : ℕ) (was : s.hbInterval = some due) (late : due ≤ s.now) (phase : s.phase = .connected)
    (now : s'.now = s.now)
      (trace : s'.trace = s.notes [.ping]) (deadline : s'.hbDeadline = some (s.now + task.hb.timeout))
      (interval : s'.hbInterval = some (nextTick task due s.now)) (enabled : s'.hbEnabled = s.hbEnabled)
  | ponged (now : s'.now = s.now) (trace : s'.trace = s.notes [.pong]) (phase : s.phase = .connected)
      (deadline : s'.hbDeadline = none) (interval : s'.hbInterval = s.hbInterval) (enabled : s'.hbEnabled = s.hbEnabled)
  | dead (d : ℕ) (was : s.hbDeadline = some d) (late : d ≤ s.now) (phase : s.phase = .connected) (now : s'.now = s.now)
      (trace : s'.trace = s.notes (if s.listening then [.event .heartbeatDead] else [])) (deadline : s'.hbDeadline = none)
      (interval : s'.hbInterval = s.hbInterval) (enabled : s'.hbEnabled = s.hbEnabled)
  | connected (es : List Entry) (quiet : ∀ e ∈ es, e.beat = false) (now : s'.now = s.now)
      (trace : s'.trace = s.notes (es ++ [.socket])) (deadline : s'.hbDeadline = none)
      (interval : s'.hbInterval = makeHeartbeatInterval task s.hbEnabled s.now) (enabled : s'.hbEnabled = s.hbEnabled)

theorem note_eq (e : Entry) : s.note e = { s with trace := s.notes [e] } := rfl

theorem notes_nil : s.notes [] = s.trace := List.append_nil _

theorem emit_eq (e : TransportEvent) : s.emit e = { s with trace := s.notes (if s.listening then [.event e] else []) } := by
  unfold State.emit
  split_ifs with hl
  · exact note_eq _
  · rw [notes_nil]

structure Lost (task : Task) (s s' : State) : Prop where
  now : s'.now = s.now
  sending : s'.sending = s.sending
  closing : s'.closing = s.closing
  handles : s'.handles = s.handles
  listening : s'.listening = s.listening
  cmds : s'.cmds = s.cmds
  hbEnabled : s'.hbEnabled = s.hbEnabled
  ends : (s'.phase = .waiting ∧ task.reconnect ≠ none ∧ s'.trace = s.trace) ∨
    (s'.phase = .finished ∧ s'.trace = s.notes (if s.listening then [.event .disconnected] else []))

theorem attemptReconnect_lost (task : Task) (s : State) : Lost task s (attemptReconnect task s) := by
  unfold attemptReconnect
  split_ifs with hmore
  · refine ⟨rfl, rfl, rfl, rfl, rfl, rfl, rfl, Or.inl ⟨rfl, fun hnone => ?_, rfl⟩⟩
    rw [hnone] at hmore
    cases hmore
  · rw [emit_eq]
    exact ⟨rfl, rfl, rfl, rfl, rfl, rfl, rfl, Or.inr ⟨rfl, rfl⟩⟩

theorem lost_lost (task : Task) (s : State) : Lost task s (lost task s) := by
  unfold lost
  split_ifs with hnone
  · rw [emit_eq]
    exact ⟨rfl, rfl, rfl, rfl, rfl, rfl, rfl, Or.inr ⟨rfl, rfl⟩⟩
  · exact attemptReconnect_lost task s

theorem Lost.beats {m : State} (h : Lost task m s') (now : m.now = s.now) (trace : m.trace = s.trace)
    (enabled : m.hbEnabled = s.hbEnabled) :
    Beats task s a s' := by
  have hnotes : ∀ es, m.notes es = s.notes es := fun es => by rw [State.notes, now, trace, State.notes]
  rcases h.ends with ⟨hphase, -, htrace⟩ | ⟨hphase, htrace⟩
  · refine .aside [] (fun e he => absurd he List.not_mem_nil) (h.now.trans now) (htrace.trans (trace.trans notes_nil.symm))
      (fun hc => ?_) (h.hbEnabled.trans enabled)
    rw [hphase] at hc
    cases hc
  · refine .aside _ (fun e he => ?_) (h.now.trans now) (htrace.trans (hnotes _)) (fun hc => ?_) (h.hbEnabled.trans enabled)
    · split_ifs at he with hl
      · rw [List.mem_singleton.mp he]
        rfl
      · cases he
    · rw [hphase] at hc
      cases hc

/-- A step that adds entries and leaves the socket and its timers. -/
theorem beats_aside (es : List Entry) (quiet : ∀ e ∈ es, e.beat = false) (now : s'.now = s.now)
    (trace : s'.trace = s.notes es)
    (phase : s'.phase = .connected → s.phase = .connected) (deadline : s'.hbDeadline = s.hbDeadline)
    (interval : s'.hbInterval = s.hbInterval) (enabled : s'.hbEnabled = s.hbEnabled) : Beats task s a s' :=
  .aside es quiet now trace (fun h => ⟨phase h, deadline, interval⟩) enabled

theorem beats_same (now : s'.now = s.now) (trace : s'.trace = s.trace)
    (phase : s'.phase = .connected → s.phase = .connected) (deadline : s'.hbDeadline = s.hbDeadline)
    (interval : s'.hbInterval = s.hbInterval) (enabled : s'.hbEnabled = s.hbEnabled) : Beats task s a s' :=
  beats_aside [] (fun _ he => absurd he List.not_mem_nil) now (trace.trans notes_nil.symm) phase deadline interval enabled

theorem quiet_singleton {e : Entry} (h : e.beat = false) : ∀ e' ∈ [e], e'.beat = false := by
  intro e' he'
  rw [List.mem_singleton.mp he']
  exact h

theorem push_beats {m : State} (c : Cmd) (now : m.now = s.now) (trace : m.trace = s.trace) (phase : m.phase = s.phase)
    (deadline : m.hbDeadline = s.hbDeadline) (interval : m.hbInterval = s.hbInterval) (enabled : m.hbEnabled = s.hbEnabled) :
    Beats task s a (m.push c) := by
  unfold State.push
  split_ifs with hover
  · exact beats_same now trace (fun h => phase.symm.trans h) deadline interval enabled
  · cases c with
    | send frame =>
      refine beats_aside _ (quiet_singleton (e := .queued frame) rfl) now ?_
        (fun h => phase.symm.trans h) deadline interval enabled
      change m.notes [.queued frame] = s.notes [.queued frame]
      rw [State.notes, State.notes, now, trace]
    | startHeartbeat | stopHeartbeat | close =>
      exact beats_same now trace (fun h => phase.symm.trans h) deadline interval enabled

theorem finish_beats {m : State} (now : m.now = s.now) (trace : m.trace = s.trace) (deadline : m.hbDeadline = s.hbDeadline)
    (interval : m.hbInterval = s.hbInterval) (enabled : m.hbEnabled = s.hbEnabled) : Beats task s a (finish m) :=
  beats_same now trace (fun h => nomatch h) deadline interval enabled

theorem write_beats {m : State} {e : Entry} (hquiet : e.beat = false) (now : m.now = s.now) (trace : m.trace = s.trace)
    (phase : m.phase = s.phase) (deadline : m.hbDeadline = s.hbDeadline) (interval : m.hbInterval = s.hbInterval)
    (enabled : m.hbEnabled = s.hbEnabled) : Beats task s a (write task m e ok) := by
  unfold write
  split_ifs with hok
  · refine beats_aside _ (quiet_singleton hquiet) now ?_ (fun h => phase.symm.trans h) deadline interval enabled
    rw [note_eq, State.notes, State.notes, now, trace]
  · exact (lost_lost task m).beats now trace enabled

theorem onCmd_beats (h : onCmd task s ok = some s') : Beats task s a s' := by
  unfold onCmd at h
  split at h
  · rename_i frame cmds hcmds
    cases h
    exact write_beats rfl rfl rfl rfl rfl rfl rfl
  · rename_i cmds hcmds
    cases h
    exact .started (hcmds ▸ List.mem_cons_self) rfl rfl rfl rfl
  · rename_i cmds hcmds
    cases h
    exact .stopped (hcmds ▸ List.mem_cons_self) rfl rfl rfl rfl rfl
  · cases h
    exact finish_beats rfl rfl rfl rfl rfl
  · split_ifs at h with hhandles
    cases h
    exact finish_beats rfl rfl rfl rfl rfl

theorem onCmdWaiting_beats (h : onCmdWaiting s = some s') : Beats task s a s' := by
  unfold onCmdWaiting at h
  split at h
  · cases h
    exact finish_beats rfl rfl rfl rfl rfl
  · cases h
    exact beats_same rfl rfl (fun h => nomatch h) rfl rfl rfl
  · split_ifs at h with hhandles
    cases h
    exact finish_beats rfl rfl rfl rfl rfl

theorem onTick_beats {due : ℕ} (hphase : s.phase = .connected) (hwas : s.hbInterval = some due) (hlate : due ≤ s.now) :
    Beats task s a (onTick task s due ok) := by
  unfold onTick
  dsimp only
  split_ifs with hok
  · exact .pinged due hwas hlate hphase rfl rfl rfl rfl rfl
  · exact (lost_lost task _).beats rfl rfl rfl

theorem onDeadline_beats {d : ℕ} (hphase : s.phase = .connected) (hwas : s.hbDeadline = some d) (hlate : d ≤ s.now) :
    Beats task s a (onDeadline s) := by
  rw [onDeadline, emit_eq]
  exact .dead d hwas hlate hphase rfl rfl rfl rfl rfl

theorem onIncoming_beats {msg : Incoming} (hphase : s.phase = .connected) :
    Beats task s a (onIncoming task decodeFrame s ok msg) := by
  cases msg with
  | binary bytes =>
    unfold onIncoming
    dsimp only
    split
    · split_ifs with hok
      · exact beats_same rfl rfl id rfl rfl rfl
      · exact (lost_lost task s).beats rfl rfl rfl
    · exact .ponged rfl rfl hphase rfl rfl rfl
    · split_ifs with hl
      · have hl' : (s.note (.received bytes)).listening = true := hl
        rw [emit_eq, if_pos hl']
        refine beats_aside [.received bytes, .event (.frame bytes)] (fun e he => ?_) rfl ?_ id rfl rfl rfl
        · rcases List.mem_pair.mp he with rfl | rfl <;> rfl
        · rw [note_eq, State.notes, State.notes, State.notes, List.append_assoc]
          rfl
      · exact beats_aside _ (quiet_singleton rfl) rfl rfl (fun h => nomatch h) rfl rfl rfl
  | other => exact beats_same rfl rfl id rfl rfl rfl
  | ended => exact (lost_lost task s).beats rfl rfl rfl

theorem dialed_beats : Beats task s a (State.connect task ({ s with reconnectAttempts := 0 }.emit .reconnected)) := by
  rw [emit_eq]
  refine .connected (if s.listening then [.event .reconnected] else []) (fun e he => ?_) rfl ?_ rfl rfl rfl
  · split_ifs at he with hl
    · rw [List.mem_singleton.mp he]
      rfl
    · cases he
  · rw [State.connect, note_eq, State.notes, State.notes, State.notes, List.map_append, List.append_assoc]

theorem step_beats (h : step task decodeFrame s a = some s') : Beats task s a s' := by
  cases a with
  | elapse ms =>
    cases h
    exact .elapsed ms rfl rfl
  | send frame =>
    rw [step] at h
    split_ifs at h with hhandles hclosed <;> cases h <;> exact beats_same rfl rfl id rfl rfl rfl
  | sent i =>
    rw [step, Option.map_eq_some_iff] at h
    obtain ⟨frame, hi, rfl⟩ := h
    exact push_beats _ rfl rfl rfl rfl rfl rfl
  | close =>
    rw [step] at h
    split_ifs at h with hhandles hclosed <;> cases h <;> exact beats_same rfl rfl id rfl rfl rfl
  | closeSent =>
    rw [step] at h
    split_ifs at h with hclosing
    cases h
    exact push_beats _ rfl rfl rfl rfl rfl rfl
  | startHeartbeat | stopHeartbeat =>
    rw [step] at h
    split_ifs at h with hhandles
    cases h
    exact push_beats _ rfl rfl rfl rfl rfl rfl
  | dropHandles =>
    rw [step] at h
    split_ifs at h with hidle
    cases h
    exact beats_same rfl rfl id rfl rfl rfl
  | dropReceiver =>
    cases h
    exact beats_same rfl rfl id rfl rfl rfl
  | cmd ok =>
    rw [step] at h
    split at h
    · exact onCmd_beats h
    · exact onCmdWaiting_beats h
    · cases h
    · cases h
  | tick ok =>
    rw [step] at h
    split_ifs at h with hguard
    split at h
    · rename_i due hwas
      split_ifs at h with hlate
      cases h
      exact onTick_beats hguard.1 hwas hlate
    · cases h
  | deadline =>
    rw [step] at h
    split_ifs at h with hguard
    cases h
    obtain ⟨d, hwas, hlate⟩ := (Option.any_eq_true ..).mp hguard.2
    exact onDeadline_beats hguard.1 hwas (of_decide_eq_true hlate)
  | incoming msg ok =>
    rw [step] at h
    split_ifs at h with hphase
    cases h
    exact onIncoming_beats hphase
  | delayOver =>
    rw [step] at h
    split_ifs at h with hphase
    cases h
    exact beats_same rfl rfl (fun h => nomatch h) rfl rfl rfl
  | dialed ok =>
    rw [step] at h
    split_ifs at h with hphase hok
    · cases h
      exact dialed_beats
    · cases h
      exact (attemptReconnect_lost task s).beats rfl rfl rfl

/-! Commands -/

def Act.puts : Act → Cmd → Prop
  | .sent _, .send _ | .startHeartbeat, .startHeartbeat | .stopHeartbeat, .stopHeartbeat | .closeSent, .close => True
  | _, _ => False

def Cmd.frame : Cmd → Option ByteArray
  | .send frame => some frame
  | _ => none

def Entry.queued? : Entry → Option ByteArray
  | .queued frame => some frame
  | _ => none

def Entry.wrote? : Entry → Option ByteArray
  | .wrote frame => some frame
  | _ => none

def Entry.plain : Entry → Bool
  | .queued _ | .wrote _ | .event .disconnected => false
  | _ => true

inductive Ends (s : State) (s' : State) : Prop where
  | lost (trace : s'.trace = s.notes (if s.listening then [.event .disconnected] else []))
  | closed (cmd : .close ∈ s.cmds) (trace : s'.trace = s.trace)
  | dropped (handles : s.handles = false) (trace : s'.trace = s.trace)
  | unheard (listening : s.listening = false) (frame : ByteArray) (trace : s'.trace = s.notes [.received frame])

inductive Moves (task : Task) (s : State) (a : Act) (s' : State) : Prop where
  | finished (was : s.phase = .finished) (phase : s'.phase = .finished) (cmds : s'.cmds = s.cmds)
    (trace : s'.trace = s.trace)
  | stays (es : List Entry) (plain : ∀ e ∈ es, e.plain = true) (was : s.phase ≠ .finished)
    (phase : s'.phase ≠ .finished)
      (alone : s.phase = .connected → task.reconnect = none →
        s'.phase = .connected) (cmds : s'.cmds = s.cmds) (trace : s'.trace = s.notes es)
  | pushed (c : Cmd) (puts : a.puts c) (was : s.phase ≠ .finished) (phase : s'.phase = s.phase)
    (cmds : s'.cmds = s.cmds ++ [c])
      (trace : s'.trace = s.notes (c.frame.map .queued).toList)
  | taken (c : Cmd) (cmds : s.cmds = c :: s'.cmds) (was : s.phase = .connected) (phase : s'.phase = .connected)
      (trace : s'.trace = s.notes (c.frame.map .wrote).toList)
  | lost (c : Cmd) (cmds : s.cmds = c :: s'.cmds) (was : s.phase ≠ .finished) (phase : s'.phase ≠ .finished)
      (some : s.phase = .connected → task.reconnect ≠ none) (trace : s'.trace = s.trace)
  | ended (cmds : s'.cmds <:+ s.cmds) (was : s.phase ≠ .finished) (phase : s'.phase = .finished) (ends : Ends s s')

theorem Lost.moves {m : State} (h : Lost task m s') (was : s.phase ≠ .finished) (now : m.now = s.now)
    (trace : m.trace = s.trace)
    (listening : m.listening = s.listening) (cmds : m.cmds = s.cmds ∨ ∃ c, s.cmds = c :: m.cmds) :
    Moves task s a s' := by
  rcases h.ends with ⟨hphase, hsome, htrace⟩ | ⟨hphase, htrace⟩
  · have halive : s'.phase ≠ .finished := fun hover => nomatch hphase.symm.trans hover
    rcases cmds with hcmds | ⟨c, hcmds⟩
    · refine .stays [] (fun e he => absurd he List.not_mem_nil) was halive (fun _ hnone => absurd hnone hsome)
        (h.cmds.trans hcmds) ?_
      exact htrace.trans (trace.trans notes_nil.symm)
    · exact .lost c (h.cmds ▸ hcmds) was halive (fun _ => hsome) (htrace.trans trace)
  · refine .ended ?_ was hphase (.lost ?_)
    · rcases cmds with hcmds | ⟨c, hcmds⟩
      · exact (h.cmds.trans hcmds).symm ▸ List.suffix_refl _
      · rw [h.cmds, hcmds]
        exact List.suffix_cons c _
    · rw [htrace, State.notes, State.notes, trace, now, listening]

/-- A step that adds entries and leaves the commands. -/
theorem moves_stays (es : List Entry) (plain : ∀ e ∈ es, e.plain = true) (was : s.phase ≠ .finished)
    (phase : s'.phase = s.phase)
    (cmds : s'.cmds = s.cmds) (trace : s'.trace = s.notes es) : Moves task s a s' :=
  .stays es plain was (phase ▸ was) (fun hc _ => phase.trans hc) cmds trace

/-- A step of the handles that only they see. -/
theorem moves_same (phase : s'.phase = s.phase) (cmds : s'.cmds = s.cmds) (trace : s'.trace = s.trace) :
    Moves task s a s' := by
  by_cases hover : s.phase = .finished
  · exact .finished hover (phase.trans hover) cmds trace
  · exact moves_stays [] (fun e he => absurd he List.not_mem_nil) hover phase cmds (trace.trans notes_nil.symm)

theorem push_moves {m : State} {c : Cmd} (puts : a.puts c) (now : m.now = s.now) (trace : m.trace = s.trace)
    (phase : m.phase = s.phase) (cmds : m.cmds = s.cmds) : Moves task s a (m.push c) := by
  unfold State.push
  split_ifs with hover
  · exact moves_same phase cmds trace
  · rw [phase] at hover
    cases c with
    | send frame =>
      refine .pushed (.send frame) puts hover phase ?_ ?_
      · change m.cmds ++ _ = _
        rw [cmds]
      · change m.notes [.queued frame] = s.notes [.queued frame]
        rw [State.notes, State.notes, now, trace]
    | startHeartbeat | stopHeartbeat | close =>
      refine .pushed _ puts hover phase ?_ (trace.trans notes_nil.symm)
      change m.cmds ++ _ = _
      rw [cmds]

theorem finish_moves {m : State} (was : s.phase ≠ .finished) (cmds : m.cmds <:+ s.cmds) (ends : Ends s (finish m)) :
    Moves task s a (finish m) :=
  .ended cmds was rfl ends

theorem onCmd_moves (hphase : s.phase = .connected) (h : onCmd task s ok = some s') : Moves task s a s' := by
  have was : s.phase ≠ .finished := fun hover => nomatch hphase.symm.trans hover
  unfold onCmd at h
  split at h
  · rename_i frame cmds hcmds
    cases h
    unfold write
    split_ifs with hok
    · exact .taken (.send frame) hcmds hphase hphase rfl
    · exact (lost_lost task _).moves was rfl rfl rfl (Or.inr ⟨_, hcmds⟩)
  · rename_i cmds hcmds
    cases h
    exact .taken .startHeartbeat hcmds hphase hphase notes_nil.symm
  · rename_i cmds hcmds
    cases h
    exact .taken .stopHeartbeat hcmds hphase hphase notes_nil.symm
  · rename_i cmds hcmds
    cases h
    exact finish_moves was (hcmds ▸ List.suffix_cons _ _) (.closed (hcmds ▸ List.mem_cons_self) rfl)
  · split_ifs at h with hhandles
    cases h
    exact finish_moves was (List.suffix_refl _) (.dropped (Bool.eq_false_iff.mpr hhandles) rfl)

theorem onCmdWaiting_moves (hphase : s.phase = .waiting) (h : onCmdWaiting s = some s') :
    Moves task s a s' := by
  have was : s.phase ≠ .finished := fun hover => nomatch hphase.symm.trans hover
  unfold onCmdWaiting at h
  split at h
  · rename_i cmds hcmds
    cases h
    exact finish_moves was (hcmds ▸ List.suffix_cons _ _) (.closed (hcmds ▸ List.mem_cons_self) rfl)
  · rename_i c cmds hclose hcmds
    cases h
    exact .lost c hcmds was (fun h => nomatch h) (fun hc => nomatch hphase.symm.trans hc) rfl
  · split_ifs at h with hhandles
    cases h
    exact finish_moves was (List.suffix_refl _) (.dropped (Bool.eq_false_iff.mpr hhandles) rfl)

theorem plain_singleton {e : Entry} (h : e.plain = true) : ∀ e' ∈ [e], e'.plain = true := by
  intro e' he'
  rw [List.mem_singleton.mp he']
  exact h

theorem emit_moves {m : State} {e : TransportEvent} (he : (Entry.event e).plain = true) (was : s.phase ≠ .finished)
    (phase : m.phase = s.phase) (cmds : m.cmds = s.cmds) (now : m.now = s.now) (trace : m.trace = s.trace) :
    Moves task s a (m.emit e) := by
  rw [emit_eq]
  refine moves_stays (if m.listening then [.event e] else []) (fun e' he' => ?_) was phase cmds ?_
  · split_ifs at he' with hl
    · rw [List.mem_singleton.mp he']
      exact he
    · cases he'
  · change m.notes _ = _
    rw [State.notes, State.notes, now, trace]

theorem onIncoming_moves {msg : Incoming} (hphase : s.phase = .connected) :
    Moves task s a (onIncoming task decodeFrame s ok msg) := by
  have was : s.phase ≠ .finished := fun hover => nomatch hphase.symm.trans hover
  cases msg with
  | binary bytes =>
    unfold onIncoming
    dsimp only
    split
    · split_ifs with hok
      · exact moves_same rfl rfl rfl
      · exact (lost_lost task s).moves was rfl rfl rfl (Or.inl rfl)
    · exact moves_stays _ (plain_singleton rfl) was rfl rfl rfl
    · split_ifs with hl
      · have hl' : (s.note (.received bytes)).listening = true := hl
        rw [emit_eq, if_pos hl']
        refine moves_stays [.received bytes, .event (.frame bytes)] (fun e he => ?_) was rfl rfl ?_
        · rcases List.mem_pair.mp he with rfl | rfl <;> rfl
        · rw [note_eq, State.notes, State.notes, State.notes, List.append_assoc]
          rfl
      · have hl' : s.listening = false := Bool.eq_false_iff.mpr hl
        exact finish_moves was (List.suffix_refl _) (.unheard hl' bytes rfl)
  | other => exact moves_same rfl rfl rfl
  | ended => exact (lost_lost task s).moves was rfl rfl rfl (Or.inl rfl)

theorem dialed_moves (hphase : s.phase = .dialing) :
    Moves task s a (State.connect task ({ s with reconnectAttempts := 0 }.emit .reconnected)) := by
  rw [emit_eq]
  refine .stays ((if s.listening then [.event .reconnected] else []) ++ [.socket]) (fun e he => ?_)
    (fun h => nomatch hphase.symm.trans h) (fun h => nomatch h) (fun _ _ => rfl) rfl ?_
  · rcases List.mem_append.mp he with hevent | hsocket
    · split_ifs at hevent with hl
      · rw [List.mem_singleton.mp hevent]
        rfl
      · cases hevent
    · rw [List.mem_singleton.mp hsocket]
      rfl
  · rw [State.connect, note_eq, State.notes, State.notes, State.notes, List.map_append, List.append_assoc]

theorem step_moves (h : step task decodeFrame s a = some s') : Moves task s a s' := by
  cases a with
  | elapse ms =>
    cases h
    exact moves_same rfl rfl rfl
  | send frame =>
    rw [step] at h
    split_ifs at h with hhandles hclosed <;> cases h <;> exact moves_same rfl rfl rfl
  | sent i =>
    rw [step, Option.map_eq_some_iff] at h
    obtain ⟨frame, hi, rfl⟩ := h
    exact push_moves trivial rfl rfl rfl rfl
  | close =>
    rw [step] at h
    split_ifs at h with hhandles hclosed <;> cases h <;> exact moves_same rfl rfl rfl
  | closeSent =>
    rw [step] at h
    split_ifs at h with hclosing
    cases h
    exact push_moves trivial rfl rfl rfl rfl
  | startHeartbeat | stopHeartbeat =>
    rw [step] at h
    split_ifs at h with hhandles
    cases h
    exact push_moves trivial rfl rfl rfl rfl
  | dropHandles =>
    rw [step] at h
    split_ifs at h with hidle
    cases h
    exact moves_same rfl rfl rfl
  | dropReceiver =>
    cases h
    exact moves_same rfl rfl rfl
  | cmd ok =>
    rw [step] at h
    split at h
    · rename_i hphase
      exact onCmd_moves hphase h
    · rename_i hphase
      exact onCmdWaiting_moves hphase h
    · cases h
    · cases h
  | tick ok =>
    rw [step] at h
    split_ifs at h with hguard
    have was : s.phase ≠ .finished := fun hover => nomatch hguard.1.symm.trans hover
    split at h
    · split_ifs at h with hlate
      cases h
      unfold onTick
      dsimp only
      split_ifs with hok
      · exact moves_stays _ (plain_singleton rfl) was rfl rfl rfl
      · exact (lost_lost task _).moves was rfl rfl rfl (Or.inl rfl)
    · cases h
  | deadline =>
    rw [step] at h
    split_ifs at h with hguard
    cases h
    exact emit_moves rfl (fun hover => nomatch hguard.1.symm.trans hover) rfl rfl rfl rfl
  | incoming msg ok =>
    rw [step] at h
    split_ifs at h with hphase
    cases h
    exact onIncoming_moves hphase
  | delayOver =>
    rw [step] at h
    split_ifs at h with hphase
    cases h
    exact .stays [] (fun e he => absurd he List.not_mem_nil) (fun hover => nomatch hphase.symm.trans hover)
      (fun h => nomatch h)
      (fun hc => nomatch hphase.symm.trans hc) rfl notes_nil.symm
  | dialed ok =>
    rw [step] at h
    split_ifs at h with hphase hok
    · cases h
      exact dialed_moves hphase
    · cases h
      exact (attemptReconnect_lost task s).moves (fun hover => nomatch hphase.symm.trans hover) rfl rfl rfl (Or.inl rfl)

theorem step_cmds (h : step task decodeFrame s a = some s') {c : Cmd} (hc : c ∈ s'.cmds) : c ∈ s.cmds ∨ a.puts c := by
  cases step_moves h with
  | finished was phase cmds trace => exact Or.inl (cmds ▸ hc)
  | stays es plain was phase alone cmds trace => exact Or.inl (cmds ▸ hc)
  | pushed d puts was phase cmds trace =>
    rw [cmds] at hc
    rcases List.mem_append.mp hc with hold | hnew
    · exact Or.inl hold
    · rw [List.mem_singleton.mp hnew]
      exact Or.inr puts
  | taken d cmds was phase trace => exact Or.inl (cmds ▸ List.mem_cons_of_mem d hc)
  | lost d cmds was phase some trace => exact Or.inl (cmds ▸ List.mem_cons_of_mem d hc)
  | ended cmds was phase ends => exact Or.inl (cmds.subset hc)

/-! The owner -/

structure Owned (s : State) (a : Act) (s' : State) : Prop where
  handles : a ≠ .dropHandles → s'.handles = s.handles
  listening : a ≠ .dropReceiver → s'.listening = s.listening
  closing : a ≠ .close → s'.closing = true → s.closing = true

theorem owned_same (handles : s'.handles = s.handles) (listening : s'.listening = s.listening)
    (closing : s'.closing = s.closing) :
    Owned s a s' :=
  ⟨fun _ => handles, fun _ => listening, fun _ h => closing ▸ h⟩

theorem Lost.owned {m : State} (h : Lost task m s') (handles : m.handles = s.handles) (listening : m.listening = s.listening)
    (closing : m.closing = s.closing) : Owned s a s' :=
  owned_same (h.handles.trans handles) (h.listening.trans listening) (h.closing.trans closing)

theorem push_fields (s : State) (c : Cmd) :
    (s.push c).handles = s.handles ∧ (s.push c).listening = s.listening ∧ (s.push c).closing = s.closing := by
  unfold State.push
  split_ifs with hover
  · exact ⟨rfl, rfl, rfl⟩
  · cases c with
    | send frame | startHeartbeat | stopHeartbeat | close => exact ⟨rfl, rfl, rfl⟩

theorem onCmd_owned (h : onCmd task s ok = some s') : Owned s a s' := by
  unfold onCmd at h
  split at h
  · cases h
    unfold write
    split_ifs with hok
    · exact owned_same rfl rfl rfl
    · exact (lost_lost task _).owned rfl rfl rfl
  · cases h
    exact owned_same rfl rfl rfl
  · cases h
    exact owned_same rfl rfl rfl
  · cases h
    exact owned_same rfl rfl rfl
  · split_ifs at h with hhandles
    cases h
    exact owned_same rfl rfl rfl

theorem onCmdWaiting_owned (h : onCmdWaiting s = some s') : Owned s a s' := by
  unfold onCmdWaiting at h
  split at h
  · cases h
    exact owned_same rfl rfl rfl
  · cases h
    exact owned_same rfl rfl rfl
  · split_ifs at h with hhandles
    cases h
    exact owned_same rfl rfl rfl

theorem onIncoming_owned (msg : Incoming) : Owned s a (onIncoming task decodeFrame s ok msg) := by
  cases msg with
  | binary bytes =>
    unfold onIncoming
    dsimp only
    split
    · split_ifs with hok
      · exact owned_same rfl rfl rfl
      · exact (lost_lost task s).owned rfl rfl rfl
    · exact owned_same rfl rfl rfl
    · rw [emit_eq]
      split_ifs with hl
      · exact owned_same rfl rfl rfl
      · exact owned_same rfl rfl rfl
  | other => exact owned_same rfl rfl rfl
  | ended => exact (lost_lost task s).owned rfl rfl rfl

theorem step_owned (h : step task decodeFrame s a = some s') : Owned s a s' := by
  cases a with
  | elapse ms =>
    cases h
    exact owned_same rfl rfl rfl
  | send frame =>
    rw [step] at h
    split_ifs at h with hhandles hclosed <;> cases h <;> exact owned_same rfl rfl rfl
  | sent i =>
    rw [step, Option.map_eq_some_iff] at h
    obtain ⟨frame, hi, rfl⟩ := h
    obtain ⟨hh, hl, hc⟩ := push_fields { s with sending := s.sending.eraseIdx i } (.send frame)
    exact owned_same hh hl hc
  | close =>
    rw [step] at h
    split_ifs at h with hhandles hclosed
    · cases h
      exact owned_same rfl rfl rfl
    · cases h
      exact ⟨fun _ => rfl, fun _ => rfl, fun hne => absurd rfl hne⟩
  | closeSent =>
    rw [step] at h
    split_ifs at h with hclosing
    cases h
    obtain ⟨hh, hl, -⟩ := push_fields { s with closing := false } .close
    exact ⟨fun _ => hh, fun _ => hl, fun _ _ => hclosing⟩
  | startHeartbeat | stopHeartbeat =>
    rw [step] at h
    split_ifs at h with hhandles
    cases h
    obtain ⟨hh, hl, hc⟩ := push_fields s _
    exact owned_same hh hl hc
  | dropHandles =>
    rw [step] at h
    split_ifs at h with hidle
    cases h
    exact ⟨fun hne => absurd rfl hne, fun _ => rfl, fun _ hc => hc⟩
  | dropReceiver =>
    cases h
    exact ⟨fun _ => rfl, fun hne => absurd rfl hne, fun _ hc => hc⟩
  | cmd ok =>
    rw [step] at h
    split at h
    · exact onCmd_owned h
    · exact onCmdWaiting_owned h
    · cases h
    · cases h
  | tick ok =>
    rw [step] at h
    split_ifs at h with hguard
    split at h
    · split_ifs at h with hlate
      cases h
      unfold onTick
      dsimp only
      split_ifs with hok
      · exact owned_same rfl rfl rfl
      · exact (lost_lost task _).owned rfl rfl rfl
    · cases h
  | deadline =>
    rw [step] at h
    split_ifs at h with hguard
    cases h
    rw [onDeadline, emit_eq]
    exact owned_same rfl rfl rfl
  | incoming msg ok =>
    rw [step] at h
    split_ifs at h with hphase
    cases h
    exact onIncoming_owned msg
  | delayOver =>
    rw [step] at h
    split_ifs at h with hphase
    cases h
    exact owned_same rfl rfl rfl
  | dialed ok =>
    rw [step] at h
    split_ifs at h with hphase hok
    · cases h
      rw [emit_eq]
      exact owned_same rfl rfl rfl
    · cases h
      exact (attemptReconnect_lost task s).owned rfl rfl rfl

end Nexal.Driver
