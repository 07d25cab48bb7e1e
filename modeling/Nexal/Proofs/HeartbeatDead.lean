import Nexal.Sanity.TransportDriver

/-! What the application is told about a peer that does not answer: every `heartbeatDead` is about a ping that
has gone unanswered for the timeout, a silent peer is found out where the timeout is shorter than the interval,
and never where it is longer. -/

namespace Nexal.Driver

open Nexal.Lists Runs

variable {ε : Type} {task : Task} {decodeFrame : ByteArray → Except ε Wire.Value} {s s' : State} {a : Act}
  {acts : List Act}

/-! Sound -/

/-- A ping is the last thing about the heartbeat, and it is answered too late from `deadline` on. -/
def Waits (task : Task) (trace : List (ℕ × Entry)) (deadline : ℕ) : Prop :=
  ∃ before sent after, trace = before ++ (sent, .ping) :: after ∧ sent + task.hb.timeout = deadline ∧
    ∀ p ∈ after, p.2.beat = false

theorem Waits.append {trace trace' : List (ℕ × Entry)} {d : ℕ} (h : Waits task trace d)
    (hquiet : ∀ p ∈ trace', p.2.beat = false) :
    Waits task (trace ++ trace') d := by
  obtain ⟨before, sent, after, rfl, hd, hafter⟩ := h
  refine ⟨before, sent, after ++ trace', by rw [List.append_assoc, List.cons_append], hd, fun p hp => ?_⟩
  exact (List.mem_append.mp hp).elim (hafter p) (hquiet p)

def Unanswered (task : Task) (before : List (ℕ × Entry)) (p : ℕ × Entry) : Prop :=
  p.2 = .event .heartbeatDead → ∃ d ≤ p.1, Waits task before d

structure Sound (task : Task) (s : State) : Prop where
  said : InOrder (Unanswered task) s.trace
  deadline : s.phase = .connected → ∀ d, s.hbDeadline = some d → Waits task s.trace d

theorem mem_notes_quiet {es : List Entry} (h : ∀ e ∈ es, e.beat = false) :
    ∀ p ∈ es.map (s.now, ·), p.2.beat = false := by
  intro p hp
  obtain ⟨e, he, rfl⟩ := List.mem_map.mp hp
  exact h e he

theorem unanswered_of_ne {p : ℕ × Entry} (h : p.2 ≠ .event .heartbeatDead) (before : List (ℕ × Entry)) :
    Unanswered task before p :=
  fun hp => absurd hp h

theorem Sound.notes (h : Sound task s) {es : List Entry} (hes : ∀ e ∈ es, e ≠ .event .heartbeatDead) :
    InOrder (Unanswered task) (s.notes es) := by
  refine h.said.append fun p hp => ?_
  obtain ⟨e, he, rfl⟩ := List.mem_map.mp hp
  exact unanswered_of_ne (hes e he)

theorem ne_dead_of_quiet {es : List Entry} (h : ∀ e ∈ es, e.beat = false) :
    ∀ e ∈ es, e ≠ .event .heartbeatDead := by
  rintro e he rfl
  exact absurd (h _ he) (by decide)

theorem init_trace (task : Task) : (init task).trace = [(0, .socket)] := rfl

theorem init_hbDeadline (task : Task) : (init task).hbDeadline = none := rfl

theorem init_hbInterval (task : Task) :
    (init task).hbInterval = if task.options.heartbeat.isSome then some (0 + task.hb.interval) else none := rfl

theorem init_sound (task : Task) : Sound task (init task) := by
  refine ⟨inOrder_concat.mpr ⟨inOrder_nil, unanswered_of_ne (p := (0, .socket)) (fun h => nomatch h) _⟩,
    fun _ d hd => ?_⟩
  rw [init_hbDeadline] at hd
  cases hd

theorem step_sound (hs : Sound task s) (h : step task decodeFrame s a = some s') : Sound task s' := by
  cases step_beats h with
  | elapsed ms act eq =>
    subst eq
    exact ⟨hs.said, hs.deadline⟩
  | aside es quiet now trace timers enabled =>
    refine ⟨trace ▸ hs.notes (ne_dead_of_quiet quiet), fun hphase d hd => ?_⟩
    obtain ⟨hconnected, hdeadline, -⟩ := timers hphase
    rw [trace]
    exact (hs.deadline hconnected d (hdeadline ▸ hd)).append (mem_notes_quiet quiet)
  | started cmd now trace phase deadline =>
    refine ⟨trace ▸ hs.said, fun hphase d hd => ?_⟩
    rw [trace]
    exact hs.deadline (phase ▸ hphase) d (deadline ▸ hd)
  | stopped cmd now trace phase deadline interval =>
    exact ⟨trace ▸ hs.said, fun _ d hd => nomatch deadline.symm.trans hd⟩
  | pinged due was late phase now trace deadline interval enabled =>
    refine ⟨trace ▸ hs.notes (by simp), fun _ d hd => ?_⟩
    rw [deadline] at hd
    exact ⟨s.trace, s.now, [], trace, Option.some.inj hd, by simp⟩
  | ponged now trace phase deadline interval enabled =>
    exact ⟨trace ▸ hs.notes (by simp), fun _ d hd => nomatch deadline.symm.trans hd⟩
  | dead d was late phase now trace deadline interval enabled =>
    refine ⟨?_, fun _ d hd => nomatch deadline.symm.trans hd⟩
    rw [trace]
    split_ifs with hlistening
    · exact inOrder_concat.mpr ⟨hs.said, fun _ => ⟨d, late, hs.deadline phase d was⟩⟩
    · rw [notes_nil]
      exact hs.said
  | connected es quiet now trace deadline interval enabled =>
    refine ⟨trace ▸ hs.notes fun e he => ?_, fun _ d hd => nomatch deadline.symm.trans hd⟩
    rcases List.mem_append.mp he with hes | hsocket
    · exact ne_dead_of_quiet quiet e hes
    · rw [List.mem_singleton.mp hsocket]
      exact fun h => nomatch h

/-- In every run `heartbeatDead` is emitted only after a ping on this socket that has had the whole timeout and
no pong, once for each ping. -/
theorem heartbeatDead_unanswered (h : run (step task decodeFrame) (init task) acts = some s)
    {before after : List (ℕ × Entry)}
    {t : ℕ} (hcut : s.trace = before ++ (t, .event .heartbeatDead) :: after) :
    ∃ first sent later, before = first ++ (sent, .ping) :: later ∧ sent + task.hb.timeout ≤ t ∧ ∀ p ∈ later,
      p.2.beat = false := by
  have hs : Sound task s := run_inv_all (Sound task) (fun _ _ _ hm hstep => step_sound hm hstep) (init_sound task) h
  obtain ⟨d, hd, first, sent, later, hbefore, rfl, hlater⟩ := hs.said before _ after hcut rfl
  exact ⟨first, sent, later, hbefore, hd, hlater⟩

def shortTimeout : Task := .accepted ⟨some ⟨20, 10⟩, none⟩

theorem heartbeatDead_unanswered_once : ∃ first sent later,
    ([(0, .socket), (20, .ping)] : List (ℕ × Entry)) = first ++ (sent, .ping) :: later ∧ sent + 10 ≤ 30 ∧
      ∀ p ∈ later, p.2.beat = false :=
  @heartbeatDead_unanswered Unit shortTimeout (fun _ => .error ()) _ [.elapse 20, .tick true, .elapse 10,
    .deadline] rfl _ [] _ rfl

/-! On time -/

/-- Timers are served as they come due: no time passes beyond one that is set. -/
def Prompt (s : State) (a : Act) : Prop :=
  ∀ ms, a = .elapse ms → s.phase = .connected →
    (∀ due, s.hbInterval = some due → s.now + ms ≤ due) ∧ ∀ d, s.hbDeadline = some d → s.now + ms ≤ d

theorem prompt_elapse {ms : ℕ} (h : ∀ due ∈ s.hbInterval, s.now + ms ≤ due)
    (h' : ∀ d ∈ s.hbDeadline, s.now + ms ≤ d) :
    Prompt s (.elapse ms) := by
  rintro ms' ⟨⟩ -
  exact ⟨h, h'⟩

/-- Of a socket that is up: the deadline is as far from the last tick as the timeout is long. -/
structure Timers (task : Task) (s : State) : Prop where
  tick : ∀ due, s.hbInterval = some due → s.now ≤ due ∧ due ≤ s.now + task.hb.interval
  deadline : ∀ d, s.hbDeadline = some d →
    s.now ≤ d ∧ ∃ due, s.hbInterval = some due ∧ d + task.hb.interval = due + task.hb.timeout

structure OnTime (task : Task) (s : State) : Prop where
  timers : s.phase = .connected → Timers task s
  cmds : .startHeartbeat ∉ s.cmds

theorem timers_fresh {enabled : Bool} (interval : s.hbInterval = makeHeartbeatInterval task enabled s.now)
    (deadline : s.hbDeadline = none) :
    Timers task s := by
  refine ⟨fun due hdue => ?_, fun d hd => nomatch deadline.symm.trans hd⟩
  rw [interval, makeHeartbeatInterval] at hdue
  split_ifs at hdue with henabled
  cases hdue
  exact ⟨Nat.le_add_right _ _, Nat.le_refl _⟩

theorem init_onTime (task : Task) : OnTime task (init task) :=
  ⟨fun _ => timers_fresh rfl rfl, List.not_mem_nil⟩

theorem nextTick_prompt {due now : ℕ} (h : due ≤ now) (h' : now ≤ due) :
    nextTick task due now = now + task.hb.interval := by
  rw [nextTick, Nat.le_antisymm h h', Nat.sub_self, Nat.zero_mod, Nat.sub_zero]

theorem Timers.ping (h : Timers task s) {due : ℕ} (was : s.hbInterval = some due) (late : due ≤ s.now)
    (now : s'.now = s.now)
    (deadline : s'.hbDeadline = some (s.now + task.hb.timeout)) (interval : s'.hbInterval = some (nextTick task due s.now)) :
    Timers task s' := by
  rw [nextTick_prompt late (h.tick due was).1] at interval
  refine ⟨fun due' hdue => ?_, fun d hd => ?_⟩
  · rw [interval] at hdue
    cases hdue
    rw [now]
    exact ⟨Nat.le_add_right _ _, Nat.le_refl _⟩
  · rw [deadline] at hd
    cases hd
    rw [now]
    exact ⟨Nat.le_add_right _ _, _, interval, by omega⟩

/-- A socket that stays up and whose deadline has not been set. -/
theorem Timers.keep (h : Timers task s) (now : s'.now = s.now) (interval : s'.hbInterval = s.hbInterval)
    (deadline : ∀ d, s'.hbDeadline = some d → s.hbDeadline = some d) : Timers task s' := by
  refine ⟨fun due hdue => ?_, fun d hd => ?_⟩
  · rw [now]
    exact h.tick due (interval ▸ hdue)
  · rw [now, interval]
    exact h.deadline d (deadline d hd)

theorem Timers.elapse (h : Timers task s) {ms : ℕ} (hphase : s.phase = .connected) (hprompt : Prompt s (.elapse ms)) :
    Timers task { s with now := s.now + ms } := by
  obtain ⟨htick, hdeadline⟩ := hprompt ms rfl hphase
  refine ⟨fun due hdue => ⟨htick due hdue, ?_⟩, fun d hd => ⟨hdeadline d hd, (h.deadline d hd).2⟩⟩
  exact (h.tick due hdue).2.trans (Nat.add_le_add_right (Nat.le_add_right _ _) _)

theorem step_onTime (hs : OnTime task s) (hp : Prompt s a ∧ a ≠ .startHeartbeat)
    (h : step task decodeFrame s a = some s') :
    OnTime task s' := by
  have hcmds : .startHeartbeat ∉ s'.cmds := by
    intro hc
    rcases step_cmds h hc with hold | hputs
    · exact hs.cmds hold
    · cases a with
      | startHeartbeat => exact hp.2 rfl
      | _ => exact hputs
  refine ⟨fun hphase => ?_, hcmds⟩
  cases step_beats h with
  | elapsed ms act eq =>
    subst act eq
    exact (hs.timers hphase).elapse hphase hp.1
  | aside es quiet now trace timers enabled =>
    obtain ⟨hconnected, hdeadline, hinterval⟩ := timers hphase
    exact (hs.timers hconnected).keep now hinterval fun d hd => hdeadline ▸ hd
  | started cmd now trace phase deadline => exact absurd cmd hs.cmds
  | stopped cmd now trace phase deadline interval =>
    exact ⟨fun due hdue => (nomatch interval.symm.trans hdue), fun d hd => nomatch deadline.symm.trans hd⟩
  | pinged due was late phase now trace deadline interval enabled =>
    exact (hs.timers phase).ping was late now deadline interval
  | ponged now trace phase deadline interval enabled =>
    exact (hs.timers phase).keep now interval fun d hd => nomatch deadline.symm.trans hd
  | dead d was late phase now trace deadline interval enabled =>
    exact (hs.timers phase).keep now interval fun d hd => nomatch deadline.symm.trans hd
  | connected es quiet now trace deadline interval enabled =>
    rw [← now, ← enabled] at interval
    exact timers_fresh interval deadline

/-! Complete -/

/-- A step that adds entries, none of them `heartbeatDead`, unless a deadline was reached. -/
theorem step_dead (h : step task decodeFrame s a = some s') :
    (∃ es, (∀ e ∈ es, e ≠ .event .heartbeatDead) ∧ s'.trace = s.notes es) ∨
      (s.phase = .connected ∧ ∃ d ≤ s.now, s.hbDeadline = some d) := by
  cases step_beats h with
  | elapsed ms act eq =>
    subst eq
    exact Or.inl ⟨[], by simp, notes_nil.symm⟩
  | aside es quiet now trace timers enabled => exact Or.inl ⟨es, ne_dead_of_quiet quiet, trace⟩
  | started cmd now trace phase deadline => exact Or.inl ⟨[], by simp, trace.trans notes_nil.symm⟩
  | stopped cmd now trace phase deadline interval => exact Or.inl ⟨[], by simp, trace.trans notes_nil.symm⟩
  | pinged due was late phase now trace deadline interval enabled => exact Or.inl ⟨[.ping], by simp, trace⟩
  | ponged now trace phase deadline interval enabled => exact Or.inl ⟨[.pong], by simp, trace⟩
  | dead d was late phase now trace deadline interval enabled => exact Or.inr ⟨phase, d, late, was⟩
  | connected es quiet now trace deadline interval enabled =>
    refine Or.inl ⟨es ++ [.socket], fun e he => ?_, trace⟩
    rcases List.mem_append.mp he with hes | hsocket
    · exact ne_dead_of_quiet quiet e hes
    · rw [List.mem_singleton.mp hsocket]
      exact fun h => nomatch h

/-- A timeout longer than the interval comes to nothing: each tick sets the deadline anew before it is reached. -/
theorem long_timeout_never (hlong : task.hb.interval < task.hb.timeout)
    (hok : RunOk (step task decodeFrame) (fun s a => Prompt s a ∧ a ≠ .startHeartbeat) (init task) acts)
    (h : run (step task decodeFrame) (init task) acts = some s) : ∀ p ∈ s.trace, p.2 ≠ .event .heartbeatDead := by
  have hinv : OnTime task s ∧ ∀ p ∈ s.trace, p.2 ≠ .event .heartbeatDead := by
    refine run_inv (fun s => OnTime task s ∧ ∀ p ∈ s.trace, p.2 ≠ .event .heartbeatDead) ?_ ⟨init_onTime task,
      ?_⟩ hok h
    · rintro m b m' ⟨htime, hnone⟩ hp hstep
      refine ⟨step_onTime htime hp hstep, ?_⟩
      rcases step_dead hstep with ⟨es, hes, htrace⟩ | ⟨hphase, d, hlate, hd⟩
      · intro p hmem
        rw [htrace] at hmem
        rcases List.mem_append.mp hmem with hold | hnew
        · exact hnone p hold
        · obtain ⟨e, he, rfl⟩ := List.mem_map.mp hnew
          exact hes e he
      · -- the next tick is due before the deadline, and it has not come yet
        obtain ⟨-, due, hdue, hfar⟩ := (htime.timers hphase).deadline d hd
        have := ((htime.timers hphase).tick due hdue).1
        omega
    · intro p hp
      rw [init_trace] at hp
      rw [List.mem_singleton.mp hp]
      exact fun h => nomatch h
  exact hinv.2

def longTimeout : Task := .accepted ⟨some ⟨10, 20⟩, none⟩

theorem long_timeout_never_once :
    ∃ s, run (step longTimeout fun _ => (.error () : Except Unit _)) (init longTimeout)
        [.elapse 10, .tick true, .elapse 10, .tick true] = some s ∧
      s.trace.length = 3 ∧ ∀ p ∈ s.trace, p.2 ≠ .event .heartbeatDead := by
  have hok : RunOk (step longTimeout fun _ => .error ()) (fun s a => Prompt s a ∧ a ≠ .startHeartbeat) (init longTimeout)
      [.elapse 10, .tick true, .elapse 10, .tick true] := by
    refine runOk_cons rfl ⟨prompt_elapse (by decide) (by decide), nofun⟩ ?_
    refine runOk_cons rfl ⟨nofun, nofun⟩ ?_
    refine runOk_cons rfl ⟨prompt_elapse (by decide) (by decide), nofun⟩ ?_
    exact runOk_cons rfl ⟨nofun, nofun⟩ trivial
  exact ⟨_, rfl, rfl, @long_timeout_never Unit longTimeout (fun _ => .error ()) _ _ (by decide) hok rfl⟩

/-- Nobody has a part in the heartbeat but the driver. -/
def Undisturbed (s : State) (a : Act) : Prop :=
    Prompt s a ∧ a ≠ .startHeartbeat ∧ a ≠ .stopHeartbeat ∧ a ≠ .dropReceiver

def Settled (task : Task) (s : State) (sent : ℕ) (after : List (ℕ × Entry)) : Prop :=
  (∀ p ∈ after, p.2 ≠ .socket) → (∃ t ≤ sent + task.hb.timeout, (t, .pong) ∈ after) ∨
    (sent + task.hb.timeout, .event .heartbeatDead) ∈ after ∨ s.hbDeadline = some (sent + task.hb.timeout)

def Pinged (task : Task) (s : State) (t : ℕ) (after : List (ℕ × Entry)) : Prop :=
  (∀ p ∈ after, p.2 ≠ .socket ∧ p.2 ≠ .pong) → (∃ due ≤ t + task.hb.interval, s.hbInterval = some due) ∨
    ∃ mid, ∃ sent ≤ t + task.hb.interval, ∃ later, after = mid ++ (sent, .ping) :: later

/-- Every cut of the trace behind an entry of a kind has something after it. -/
def Behind (kind : Entry → Prop) (P : ℕ → List (ℕ × Entry) → Prop) (trace : List (ℕ × Entry)) : Prop :=
  ∀ before t e after, trace = before ++ (t, e) :: after → kind e → P t after

theorem Behind.notes {kind : Entry → Prop} {P P' : ℕ → List (ℕ × Entry) → Prop} {es : List Entry}
    (h : Behind kind P s.trace)
    (hold : ∀ t after, P t after → P' t (after ++ es.map (s.now, ·)))
    (hnew : ∀ first e later, es = first ++ e :: later → kind e → P' s.now (later.map (s.now, ·))) :
    Behind kind P' (s.notes es) := by
  intro before t e after hcut hkind
  rcases append_eq_cut hcut with ⟨rest, htrace, rfl⟩ | ⟨rest, hes, -⟩
  · exact hold t rest (h before t e rest htrace hkind)
  · obtain ⟨first, tail, rfl, -, htail⟩ := List.map_eq_append_iff.mp hes
    obtain ⟨e', later, rfl, he, rfl⟩ := List.map_eq_cons_iff.mp htail
    cases he
    exact hnew first e later rfl hkind

structure Watched (task : Task) (s : State) : Prop where
  time : OnTime task s
  cmds : .stopHeartbeat ∉ s.cmds
  listening : s.listening = true
  enabled : s.hbEnabled = true
  interval : s.phase = .connected → ∃ due, s.hbInterval = some due
  settled : s.phase = .connected → Behind (· = .ping) (Settled task s) s.trace
  pinged : s.phase = .connected → Behind (fun e => e = .socket ∨ e = .pong) (Pinged task s) s.trace

theorem Settled.mono {sent : ℕ} {after after' : List (ℕ × Entry)} (h : Settled task s sent after)
    (hdeadline : s.hbDeadline = some (sent + task.hb.timeout) →
      (sent + task.hb.timeout, .event .heartbeatDead) ∈ after' ∨
      s'.hbDeadline = some (sent + task.hb.timeout) ∨ ∃ t ≤ sent + task.hb.timeout, (t, .pong) ∈ after') :
    Settled task s' sent (after ++ after') := by
  intro hsocket
  rcases h fun p hp => hsocket p (List.mem_append_left after' hp) with ⟨t, ht, hpong⟩ | hdead | hwaits
  · exact Or.inl ⟨t, ht, List.mem_append_left after' hpong⟩
  · exact Or.inr (Or.inl (List.mem_append_left after' hdead))
  · rcases hdeadline hwaits with hdead | hkept | ⟨t, ht, hpong⟩
    · exact Or.inr (Or.inl (List.mem_append_right after hdead))
    · exact Or.inr (Or.inr hkept)
    · exact Or.inl ⟨t, ht, List.mem_append_right after hpong⟩

theorem Pinged.mono {t : ℕ} {after after' : List (ℕ × Entry)} (h : Pinged task s t after)
    (hinterval : ∀ due ≤ t + task.hb.interval, s.hbInterval = some due → s'.hbInterval = some due ∨
      ∃ mid, ∃ sent ≤ t + task.hb.interval, ∃ later, after' = mid ++ (sent, .ping) :: later) :
    Pinged task s' t (after ++ after') := by
  intro hsilent
  rcases h fun p hp => hsilent p (List.mem_append_left after' hp)
    with ⟨due, hdue, harmed⟩ | ⟨mid, sent, hsent, later, rfl⟩
  · rcases hinterval due hdue harmed with hkept | ⟨mid, sent, hsent, later, rfl⟩
    · exact Or.inl ⟨due, hdue, hkept⟩
    · exact Or.inr ⟨after ++ mid, sent, hsent, later, by rw [List.append_assoc]⟩
  · exact Or.inr ⟨mid, sent, hsent, later ++ after', by rw [List.append_assoc, List.cons_append]⟩

/-- Nothing that comes after a new socket or a pong is about the one before. -/
theorem pinged_of_mem {t : ℕ} {p : ℕ × Entry} {after : List (ℕ × Entry)} (hp : p ∈ after)
    (h : p.2 = .socket ∨ p.2 = .pong) :
    Pinged task s t after := by
  intro hsilent
  rcases h with hsocket | hpong
  · exact absurd hsocket (hsilent p hp).1
  · exact absurd hpong (hsilent p hp).2

theorem no_cut_of_quiet {kind : Entry → Prop} {es first later : List Entry} {e : Entry}
    (quiet : ∀ e ∈ es, e.beat = false)
    (hkind : ∀ e, kind e → e.beat = true) (hes : es = first ++ e :: later) (he : kind e) : False := by
  have hmem : e ∈ es := hes ▸ List.mem_append_right first List.mem_cons_self
  exact nomatch (hkind e he).symm.trans (quiet e hmem)

theorem singleton_cut {e e' : Entry} {first later : List Entry} (h : [e] = first ++ e' :: later) :
    e' = e ∧ later = [] := by
  rcases List.cons_eq_append_iff.mp h with ⟨-, hcons⟩ | ⟨rest, -, hnil⟩
  · exact ⟨(List.cons.inj hcons).1, (List.cons.inj hcons).2⟩
  · exact absurd hnil.symm (List.append_ne_nil_of_right_ne_nil rest (List.cons_ne_nil e' later))

theorem beat_of_ping : ∀ e : Entry, e = .ping → e.beat = true := by
  rintro e rfl
  rfl

theorem beat_of_answer : ∀ e : Entry, e = .socket ∨ e = .pong → e.beat = true := by
  rintro e (rfl | rfl) <;> rfl

/-- The trace and the timers of a step that is no part of the heartbeat. -/
theorem Watched.quiet (hs : Watched task s) {es : List Entry} (quiet : ∀ e ∈ es, e.beat = false)
    (trace : s'.trace = s.notes es)
    (phase : s.phase = .connected) (deadline : s'.hbDeadline = s.hbDeadline) (interval : s'.hbInterval = s.hbInterval) :
    Behind (· = .ping) (Settled task s') s'.trace ∧ Behind (fun e => e = .socket ∨ e = .pong)
    (Pinged task s') s'.trace := by
  rw [trace]
  refine ⟨(hs.settled phase).notes (fun t after h => ?_) fun first e later hes he =>
    (no_cut_of_quiet quiet beat_of_ping hes he).elim,
    (hs.pinged phase).notes (fun t after h => ?_) fun first e later hes he =>
      (no_cut_of_quiet quiet beat_of_answer hes he).elim⟩
  · exact h.mono fun hd => Or.inr (Or.inl (deadline.trans hd))
  · exact h.mono fun due _ hdue => Or.inl (interval.trans hdue)

theorem Watched.ping (hs : Watched task s) (hlt : task.hb.timeout < task.hb.interval) {due : ℕ}
    (was : s.hbInterval = some due)
    (late : due ≤ s.now) (phase : s.phase = .connected) (trace : s'.trace = s.notes [.ping])
    (deadline : s'.hbDeadline = some (s.now + task.hb.timeout)) :
    Behind (· = .ping) (Settled task s') s'.trace ∧ Behind (fun e => e = .socket ∨ e = .pong)
    (Pinged task s') s'.trace := by
  have htimers := hs.time.timers phase
  rw [trace]
  refine ⟨(hs.settled phase).notes (fun t after h => ?_) fun first e later hes he => ?_,
    (hs.pinged phase).notes (fun t after h => ?_) fun first e later hes he => ?_⟩
  · -- the last ping has been settled: its deadline came before this tick
    refine h.mono fun hd => ?_
    obtain ⟨hnow, due', hdue', hfar⟩ := htimers.deadline _ hd
    rw [was] at hdue'
    cases hdue'
    omega
  · obtain ⟨rfl, rfl⟩ := singleton_cut hes
    exact fun _ => Or.inr (Or.inr deadline)
  · refine h.mono fun due' hle hdue' => Or.inr ⟨[], s.now, ?_, [], rfl⟩
    rw [was] at hdue'
    cases hdue'
    exact (htimers.tick due was).1.trans hle
  · obtain ⟨rfl, rfl⟩ := singleton_cut hes
    rcases he with he | he <;> cases he

theorem Watched.pong (hs : Watched task s) (phase : s.phase = .connected) (trace : s'.trace = s.notes [.pong])
    (interval : s'.hbInterval = s.hbInterval) :
    Behind (· = .ping) (Settled task s') s'.trace ∧ Behind (fun e => e = .socket ∨ e = .pong)
    (Pinged task s') s'.trace := by
  have htimers := hs.time.timers phase
  rw [trace]
  refine ⟨(hs.settled phase).notes (fun t after h => ?_) fun first e later hes he => ?_,
    (hs.pinged phase).notes (fun t after h => ?_) fun first e later hes he => ?_⟩
  · exact h.mono fun hd => Or.inr (Or.inr ⟨s.now, (htimers.deadline _ hd).1, List.mem_cons_self⟩)
  · obtain ⟨rfl, rfl⟩ := singleton_cut hes
    cases he
  · exact pinged_of_mem (List.mem_append_right after List.mem_cons_self) (Or.inr rfl)
  · obtain ⟨rfl, rfl⟩ := singleton_cut hes
    obtain ⟨due, hdue⟩ := hs.interval phase
    exact fun _ => Or.inl ⟨due, (htimers.tick due hdue).2, interval.trans hdue⟩

theorem Watched.death (hs : Watched task s) {d : ℕ} (was : s.hbDeadline = some d) (late : d ≤ s.now)
    (phase : s.phase = .connected)
    (trace : s'.trace = s.notes (if s.listening then [.event .heartbeatDead] else []))
    (interval : s'.hbInterval = s.hbInterval) :
    Behind (· = .ping) (Settled task s') s'.trace ∧ Behind (fun e => e = .socket ∨ e = .pong)
    (Pinged task s') s'.trace := by
  have hnow : s.now = d := Nat.le_antisymm ((hs.time.timers phase).deadline d was).1 late
  rw [trace, if_pos hs.listening]
  refine ⟨(hs.settled phase).notes (fun t after h => ?_) fun first e later hes he => ?_,
    (hs.pinged phase).notes (fun t after h => ?_) fun first e later hes he => ?_⟩
  · refine h.mono fun hd => Or.inl ?_
    rw [← Option.some.inj (was.symm.trans hd), ← hnow]
    exact List.mem_cons_self
  · obtain ⟨rfl, rfl⟩ := singleton_cut hes
    cases he
  · exact h.mono fun due _ hdue => Or.inl (interval.trans hdue)
  · obtain ⟨rfl, rfl⟩ := singleton_cut hes
    rcases he with he | he <;> cases he

/-- A new socket, whether one was there before or not. -/
theorem behind_connect (es : List Entry) (quiet : ∀ e ∈ es, e.beat = false)
    (trace : s'.trace = s.notes (es ++ [.socket]))
    (interval : s'.hbInterval = some (s.now + task.hb.interval)) :
    Behind (· = .ping) (Settled task s') s'.trace ∧ Behind (fun e => e = .socket ∨ e = .pong)
    (Pinged task s') s'.trace := by
  have hsocket : ∀ after : List (ℕ × Entry), (s.now, Entry.socket) ∈
    after ++ (es ++ [Entry.socket]).map (s.now, ·) := fun after =>
    List.mem_append_right after (List.mem_map_of_mem (List.mem_append_right es List.mem_cons_self))
  have hnone : ∀ kind : Entry → Prop, Behind kind (fun _ _ => True) s.trace := fun _ _ _ _ _ _ _ => trivial
  rw [trace]
  refine ⟨(hnone _).notes (fun t after _ hno => absurd rfl (hno _ (hsocket after))) fun first e later hes he => ?_,
    (hnone _).notes (fun t after _ => pinged_of_mem (hsocket after) (Or.inl rfl)) fun first e later hes he => ?_⟩
  · rcases append_eq_cut hes with ⟨rest, hquiet, -⟩ | ⟨rest, hlast, -⟩
    · exact (no_cut_of_quiet quiet beat_of_ping hquiet he).elim
    · obtain ⟨rfl, rfl⟩ := singleton_cut hlast
      cases he
  · rcases append_eq_cut hes with ⟨rest, hquiet, -⟩ | ⟨rest, hlast, -⟩
    · exact (no_cut_of_quiet quiet beat_of_answer hquiet he).elim
    · obtain ⟨rfl, rfl⟩ := singleton_cut hlast
      exact fun _ => Or.inl ⟨_, Nat.le_refl _, interval⟩

theorem init_watched (henabled : task.options.heartbeat.isSome = true) : Watched task (init task) := by
  have htrace : Behind (· = .ping) (Settled task (init task)) (init task).trace ∧
      Behind (fun e => e = .socket ∨ e = .pong) (Pinged task (init task)) (init task).trace := by
    refine behind_connect (s := { init task with trace := [] }) [] (by simp) rfl ?_
    rw [init_hbInterval, if_pos henabled]
    rfl
  have hinterval := init_hbInterval task
  rw [if_pos henabled] at hinterval
  exact ⟨init_onTime task, List.not_mem_nil, rfl, henabled, fun _ => ⟨_, hinterval⟩, fun _ => htrace.1,
    fun _ => htrace.2⟩

theorem step_watched (hlt : task.hb.timeout < task.hb.interval) (hs : Watched task s) (hp : Undisturbed s a)
    (h : step task decodeFrame s a = some s') : Watched task s' := by
  obtain ⟨hprompt, hstart, hstop, hdrop⟩ := hp
  have htime := step_onTime hs.time ⟨hprompt, hstart⟩ h
  have hcmds : .stopHeartbeat ∉ s'.cmds := by
    intro hc
    rcases step_cmds h hc with hold | hputs
    · exact hs.cmds hold
    · cases a with
      | stopHeartbeat => exact hstop rfl
      | _ => exact hputs
  have hlistening : s'.listening = true := ((step_owned h).listening hdrop).trans hs.listening
  cases step_beats h with
  | elapsed ms act eq =>
    subst eq
    exact ⟨htime, hcmds, hlistening, hs.enabled, hs.interval, hs.settled, hs.pinged⟩
  | aside es quiet now trace timers enabled =>
    refine ⟨htime, hcmds, hlistening, enabled.trans hs.enabled, fun hphase => ?_, fun hphase => ?_, fun hphase => ?_⟩
    · exact (timers hphase).2.2 ▸ hs.interval (timers hphase).1
    · exact (hs.quiet quiet trace (timers hphase).1 (timers hphase).2.1 (timers hphase).2.2).1
    · exact (hs.quiet quiet trace (timers hphase).1 (timers hphase).2.1 (timers hphase).2.2).2
  | started cmd now trace phase deadline => exact absurd cmd hs.time.cmds
  | stopped cmd now trace phase deadline interval => exact absurd cmd hs.cmds
  | pinged due was late phase now trace deadline interval enabled =>
    obtain ⟨hsettled, hpinged⟩ := hs.ping hlt was late phase trace deadline
    exact ⟨htime, hcmds, hlistening, enabled.trans hs.enabled, fun _ => ⟨_, interval⟩, fun _ => hsettled,
      fun _ => hpinged⟩
  | ponged now trace phase deadline interval enabled =>
    obtain ⟨hsettled, hpinged⟩ := hs.pong phase trace interval
    exact ⟨htime, hcmds, hlistening, enabled.trans hs.enabled, fun _ => interval ▸ hs.interval phase,
      fun _ => hsettled, fun _ => hpinged⟩
  | dead d was late phase now trace deadline interval enabled =>
    obtain ⟨hsettled, hpinged⟩ := hs.death was late phase trace interval
    exact ⟨htime, hcmds, hlistening, enabled.trans hs.enabled, fun _ => interval ▸ hs.interval phase,
      fun _ => hsettled, fun _ => hpinged⟩
  | connected es quiet now trace deadline interval enabled =>
    rw [makeHeartbeatInterval, if_pos hs.enabled] at interval
    obtain ⟨hsettled, hpinged⟩ := behind_connect es quiet trace interval
    exact ⟨htime, hcmds, hlistening, enabled.trans hs.enabled, fun _ => ⟨_, interval⟩, fun _ => hsettled,
      fun _ => hpinged⟩

/-- With a timeout shorter than the interval a peer that has stopped answering is found out within one of each,
counted from its last pong or from when the socket was taken up. -/
theorem silence_detected (henabled : task.options.heartbeat.isSome = true) (hlt : task.hb.timeout < task.hb.interval)
    (hok : RunOk (step task decodeFrame) Undisturbed (init task) acts)
    (h : run (step task decodeFrame) (init task) acts = some s) (hphase : s.phase = .connected)
    {before after : List (ℕ × Entry)} {t : ℕ} {e : Entry} (hcut : s.trace = before ++ (t, e) :: after)
    (he : e = .socket ∨ e = .pong)
    (hsilent : ∀ p ∈ after, p.2 ≠ .socket ∧ p.2 ≠ .pong) (hlate : t + task.hb.interval + task.hb.timeout < s.now) :
    ∃ dead ≤ t + task.hb.interval + task.hb.timeout, (dead, .event .heartbeatDead) ∈ after := by
  have hs : Watched task s :=
    run_inv (Watched task) (fun _ _ _ hm hp hstep => step_watched hlt hm hp hstep) (init_watched henabled) hok h
  have htimers := hs.time.timers hphase
  rcases hs.pinged hphase before t e after hcut he hsilent with ⟨due, hdue, harmed⟩ | ⟨mid, sent, hsent, later, rfl⟩
  · have := (htimers.tick due harmed).1
    omega
  · have hping : s.trace = (before ++ (t, e) :: mid) ++ (sent, .ping) :: later := by
      rw [hcut, List.append_assoc, List.cons_append]
    have hlater : ∀ p ∈ later, p.2 ≠ .socket ∧ p.2 ≠ .pong := fun p hp =>
      hsilent p (List.mem_append_right mid (List.mem_cons_of_mem _ hp))
    rcases hs.settled hphase _ sent .ping later hping rfl (fun p hp => (hlater p hp).1)
      with ⟨t', -, hpong⟩ | hdead | hwaits
    · exact absurd rfl (hlater _ hpong).2
    · exact ⟨sent + task.hb.timeout, by omega, List.mem_append_right mid (List.mem_cons_of_mem _ hdead)⟩
    · have := (htimers.deadline _ hwaits).1
      omega

theorem silence_detected_once : ∃ dead ≤ 0 + 20 + 10, (dead, .event .heartbeatDead) ∈
    ([(20, .ping), (30, .event .heartbeatDead)] : List (ℕ × Entry)) := by
  have hok : RunOk (step shortTimeout fun _ => .error ()) Undisturbed (init shortTimeout)
      [.elapse 20, .tick true, .elapse 10, .deadline, .elapse 5] := by
    refine runOk_cons rfl ⟨prompt_elapse (by decide) (by decide), nofun, nofun, nofun⟩ ?_
    refine runOk_cons rfl ⟨nofun, nofun, nofun, nofun⟩ ?_
    refine runOk_cons rfl ⟨prompt_elapse (by decide) (by decide), nofun, nofun, nofun⟩ ?_
    refine runOk_cons rfl ⟨nofun, nofun, nofun, nofun⟩ ?_
    exact runOk_cons rfl ⟨prompt_elapse (by decide) (by decide), nofun, nofun, nofun⟩ trivial
  exact @silence_detected Unit shortTimeout (fun _ => .error ()) _ _ rfl (by
    decide) hok rfl rfl [] _ 0 .socket rfl (Or.inl rfl)
    (by simp) (by decide)

end Nexal.Driver
