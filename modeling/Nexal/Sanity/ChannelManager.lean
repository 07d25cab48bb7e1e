import Nexal.Lib.Lists
import Nexal.Spec.ChannelManager

/-! What a step of the manager leaves of its channels, as long as it has not been stopped: each name's place in the
map, its running channel and the hash it was applied with go together. -/

namespace Nexal.ChannelManager

variable {β : Type} {cfg : ChannelManagerConfig β}

def Tied (cfg : ChannelManagerConfig β) (s : State β) (name : String) : Prop :=
  match s.channels name with
  | some i => ∃ bucket, s.started[i]? = some ⟨name, bucket, false⟩ ∧ s.applied name = some (cfg.stringify bucket)
  | none => s.applied name = none ∨ s.applied name = some off

structure Running (cfg : ChannelManagerConfig β) (s : State β) : Prop where
  tied : ∀ name, Tied cfg s name
  apart : ∀ i c, s.started[i]? = some c → c.stopped = false → s.channels c.name = some i
  registered : ∀ name i, s.channels name = some i → name ∈ known

/-- The place of `doReconcile` while it waits. -/
def Held (s : State β) : Prop := ∀ all name rest i, s.phase = .stopping all name rest i →
  s.channels name = some i ∧ ∃ done, known = done ++ name :: rest

variable {s s' : State β} {all : Config β} {name other : String} {names rest : List String} {i : ℕ} {c : Channel β}
  {a : Act β}

theorem Running.channel (h : Running cfg s) (hi : s.channels name = some i) :
    ∃ bucket, s.started[i]? = some ⟨name, bucket, false⟩ ∧ s.applied name = some (cfg.stringify bucket) := by
  have htied := h.tied name
  rw [Tied, hi] at htied
  exact htied

/-- The loop has come one name further. -/
theorem advance {done : List String} (h : known = done ++ name :: rest) : known = (done ++ [name]) ++ rest := by
  rw [h, List.append_assoc, List.singleton_append]

/-- A rule for the loop of `doReconcile`: what its rounds keep, and what holds where it waits or ends. -/
theorem applyNames_rule (I : List String → State β → Prop) (R : State β → Prop)
    (hskip : ∀ name rest s, I (name :: rest) s → s.stopped = false → s.applied name = some (hash cfg all name) →
      I rest s)
    (hinstall : ∀ name rest s, I (name :: rest) s → s.stopped = false → s.applied name ≠ some (hash cfg all name) →
      s.channels name = none → I rest (install cfg all name s))
    (hwait : ∀ name rest s i, I (name :: rest) s → s.stopped = false → s.applied name ≠ some (hash cfg all name) →
      s.channels name = some i → R { s with phase := .stopping all name rest i })
    (hfinish : ∀ names s, I names s → names = [] ∨ s.stopped = true → R (finish s))
    (h : I names s) : R (applyNames cfg all names s) := by
  induction names generalizing s with
  | nil => exact hfinish [] s h (Or.inl rfl)
  | cons name rest ih =>
    unfold applyNames
    split_ifs with hstopped happlied
    · exact hfinish _ s h (Or.inr hstopped)
    · exact ih (hskip name rest s h (Bool.not_eq_true _ ▸ hstopped) happlied)
    · split
      · rename_i running hrunning
        exact hwait name rest s running h (Bool.not_eq_true _ ▸ hstopped) happlied hrunning
      · rename_i hnone
        exact ih (hinstall name rest s h (Bool.not_eq_true _ ▸ hstopped) happlied hnone)

/-! One step -/

theorem desired_none (h : desired cfg all name = none) : hash cfg all name = off := by rw [hash, h, Option.elim_none]

theorem desired_some {bucket : β} (h : desired cfg all name = some bucket) : hash cfg all name = cfg.stringify bucket := by
  rw [hash, h, Option.elim_some]

theorem install_none (h : desired cfg all name = none) : install cfg all name s =
    { s with applied := Function.update s.applied name (some off) } := by
  rw [install, h, desired_none h]

theorem install_some {bucket : β} (h : desired cfg all name = some bucket) : install cfg all name s = { s with
    started := s.started ++ [⟨name, bucket, false⟩]
    channels := Function.update s.channels name (some s.started.length)
    applied := Function.update s.applied name (some (cfg.stringify bucket)) } := by
  rw [install, h, desired_some h]

theorem applied_install (all : Config β) (name other : String) (s : State β) : (install cfg all name s).applied other =
    if other = name then some (hash cfg all name) else s.applied other :=
  Function.update_apply _ _ _ _

theorem channels_install (all : Config β) (hne : other ≠ name) :
    (install cfg all name s).channels other = s.channels other := by
  cases hdesired : desired cfg all name with
  | none => rw [install_none hdesired]
  | some bucket =>
    rw [install_some hdesired]
    exact Function.update_of_ne hne _ _

theorem started_install (all : Config β) (name : String) (h : s.started[i]? = some c) :
    (install cfg all name s).started[i]? = some c := by
  cases hdesired : desired cfg all name with
  | none =>
    rw [install_none hdesired]
    exact h
  | some bucket =>
    rw [install_some hdesired]
    exact Lists.getElem?_append_of_some h _

theorem Tied.congr (h : Tied cfg s name) (hchannels : s'.channels name = s.channels name)
    (happlied : s'.applied name = s.applied name)
    (hstarted : ∀ i c, s.channels name = some i → s.started[i]? = some c → s'.started[i]? = some c) :
    Tied cfg s' name := by
  rw [Tied, hchannels, happlied]
  rw [Tied] at h
  split at h
  · rename_i i hi
    obtain ⟨bucket, hc, hhash⟩ := h
    exact ⟨bucket, hstarted i _ hi hc, hhash⟩
  · exact h

/-- A name that is not in the map gets its channel, if there is to be one. -/
theorem running_install (htied : ∀ other, other ≠ name → Tied cfg s other)
    (hapart : ∀ i c, s.started[i]? = some c → c.stopped = false → s.channels c.name = some i)
    (hregistered : ∀ name i, s.channels name = some i → name ∈ known) (hname : name ∈ known)
    (hnone : s.channels name = none) : Running cfg (install cfg all name s) := by
  cases hdesired : desired cfg all name with
  | none =>
    rw [install_none hdesired]
    refine ⟨fun other => ?_, hapart, hregistered⟩
    by_cases heq : other = name
    · subst heq
      rw [Tied]
      dsimp only
      rw [hnone, Function.update_self]
      exact Or.inr rfl
    · exact (htied other heq).congr rfl (Function.update_of_ne heq _ _) fun _ _ _ hc => hc
  | some bucket =>
    rw [install_some hdesired]
    refine ⟨fun other => ?_, fun i c hc hstopped => ?_, fun other i hi => ?_⟩
    · by_cases heq : other = name
      · subst heq
        rw [Tied]
        dsimp only
        rw [Function.update_self, Function.update_self]
        exact ⟨bucket, List.getElem?_concat_length, rfl⟩
      · refine (htied other heq).congr (Function.update_of_ne heq _ _) (Function.update_of_ne heq _ _) fun i c _ hc => ?_
        exact Lists.getElem?_append_of_some hc _
    · dsimp only at hc ⊢
      rw [Lists.getElem?_concat] at hc
      split_ifs at hc with hlast
      · cases hc
        rw [Function.update_self, hlast]
      · have hold := hapart i c hc hstopped
        have hne : c.name ≠ name := fun heq => by cases (heq ▸ hold).symm.trans hnone
        rw [Function.update_of_ne hne]
        exact hold
    · dsimp only at hi
      by_cases heq : other = name
      · exact heq ▸ hname
      · rw [Function.update_of_ne heq] at hi
        exact hregistered other i hi

theorem Running.congr (h : Running cfg s) (hstarted : s'.started = s.started) (hchannels : s'.channels = s.channels)
    (happlied : s'.applied = s.applied) : Running cfg s' := by
  refine ⟨fun name => ?_, ?_, ?_⟩
  · exact (h.tied name).congr (congrFun hchannels name) (congrFun happlied name) fun i c _ hc => hstarted ▸ hc
  · rw [hstarted, hchannels]
    exact h.apart
  · rw [hchannels]
    exact h.registered

theorem finish_eq (s : State β) : ∃ phase rerun, finish s = { s with phase := phase, rerun := rerun } ∧
    (phase = .idle ∨ phase = .loading none) := by
  unfold finish
  split_ifs
  · exact ⟨_, _, rfl, Or.inr rfl⟩
  · exact ⟨_, _, rfl, Or.inl rfl⟩

theorem running_finish (h : Running cfg s) : Running cfg (finish s) ∧ Held (finish s) := by
  obtain ⟨phase, rerun, heq, hphase⟩ := finish_eq s
  rw [heq]
  refine ⟨h.congr rfl rfl rfl, fun all name rest i hp => ?_⟩
  rcases hphase with rfl | rfl
  · cases hp
  · cases hp

theorem running_applyNames (all : Config β) {done : List String} (h : Running cfg s) (hnames : known = done ++ names) :
    Running cfg (applyNames cfg all names s) ∧ Held (applyNames cfg all names s) := by
  refine applyNames_rule (fun names s => Running cfg s ∧ ∃ done, known = done ++ names)
    (fun s => Running cfg s ∧ Held s) ?_ ?_ ?_ ?_ ⟨h, done, hnames⟩
  · rintro name rest s ⟨h, done, hnames⟩ - -
    exact ⟨h, done ++ [name], advance hnames⟩
  · rintro name rest s ⟨h, done, hnames⟩ - - hnone
    have hname : name ∈ known := hnames ▸ List.mem_append_right _ List.mem_cons_self
    exact ⟨running_install (fun other _ => h.tied other) h.apart h.registered hname hnone, done ++ [name],
      advance hnames⟩
  · rintro name rest s i ⟨h, done, hnames⟩ - - hi
    refine ⟨h.congr rfl rfl rfl, fun all' name' rest' i' hp => ?_⟩
    cases hp
    exact ⟨hi, done, hnames⟩
  · rintro names s ⟨h, -⟩ -
    exact running_finish h

theorem started_markStopped (s : State β) (i j : ℕ) : (markStopped s i).started[j]? =
    if i = j then s.started[j]?.map fun c => { c with stopped := true } else s.started[j]? := by
  rw [markStopped, List.getElem?_modify]
  split_ifs
  · rfl
  · exact Option.map_id'

/-- The channel of a name has stopped and leaves the map. -/
def uninstall (s : State β) (name : String) (i : ℕ) : State β :=
  { markStopped s i with channels := Function.update s.channels name none }

theorem running_uninstall (h : Running cfg s) (hi : s.channels name = some i) (hname : name ∈ known) :
    Running cfg (install cfg all name (uninstall s name i)) := by
  have hone : ∀ other j, other ≠ name → s.channels other = some j → i ≠ j := by
    rintro other j hne hj rfl
    obtain ⟨bucket, hc, -⟩ := h.channel hi
    obtain ⟨bucket', hc', -⟩ := h.channel hj
    cases hc.symm.trans hc'
    exact hne rfl
  refine running_install (fun other hne => ?_) (fun j c hc hstopped => ?_) (fun other j hj => ?_) hname
    (Function.update_self _ _ _)
  · refine (h.tied other).congr (Function.update_of_ne hne _ _) rfl fun j c hj hc => ?_
    rw [uninstall, started_markStopped, if_neg (hone other j hne hj)]
    exact hc
  · rw [uninstall, started_markStopped] at hc
    split_ifs at hc with hij
    · obtain ⟨c', -, rfl⟩ := Option.map_eq_some_iff.mp hc
      cases hstopped
    · have hold := h.apart j c hc hstopped
      have hne : c.name ≠ name := fun heq => hij (Option.some.inj (hi.symm.trans (heq ▸ hold)))
      exact (Function.update_of_ne hne _ _).trans hold
  · dsimp only [uninstall] at hj
    by_cases heq : other = name
    · rw [heq, Function.update_self] at hj
      cases hj
    · rw [Function.update_of_ne heq] at hj
      exact h.registered other j hj

theorem reconcile_eq (s : State β) : ∃ phase rerun, reconcile s = { s with phase := phase, rerun := rerun } ∧
    (phase = s.phase ∨ phase = .loading none) := by
  unfold reconcile
  split_ifs
  · exact ⟨_, _, rfl, Or.inl rfl⟩
  · split
    · exact ⟨_, _, rfl, Or.inr rfl⟩
    · exact ⟨_, _, rfl, Or.inl rfl⟩
    · exact ⟨_, _, rfl, Or.inl rfl⟩

theorem running_reconcile (h : Running cfg s) (hheld : Held s) : Running cfg (reconcile s) ∧ Held (reconcile s) := by
  obtain ⟨phase, rerun, heq, hphase⟩ := reconcile_eq s
  rw [heq]
  refine ⟨h.congr rfl rfl rfl, fun all name rest i hp => ?_⟩
  rcases hphase with rfl | rfl
  · exact hheld all name rest i hp
  · cases hp

structure Beside (s s' : State β) : Prop where
  config : s'.config = s.config
  outstanding : s'.outstanding = s.outstanding
  stopped : s'.stopped = s.stopped
  subscribed : s'.subscribed = s.subscribed
  stopCalls : s'.stopCalls = s.stopCalls

theorem beside_refl (s : State β) : Beside s s := ⟨rfl, rfl, rfl, rfl, rfl⟩

theorem Beside.trans {s'' : State β} (h : Beside s s') (h' : Beside s' s'') : Beside s s'' :=
  ⟨h'.config.trans h.config, h'.outstanding.trans h.outstanding, h'.stopped.trans h.stopped,
    h'.subscribed.trans h.subscribed, h'.stopCalls.trans h.stopCalls⟩

theorem beside_finish (s : State β) : Beside s (finish s) := by
  obtain ⟨phase, rerun, heq, -⟩ := finish_eq s
  rw [heq]
  exact ⟨rfl, rfl, rfl, rfl, rfl⟩

theorem beside_install (all : Config β) (name : String) (s : State β) : Beside s (install cfg all name s) :=
  ⟨rfl, rfl, rfl, rfl, rfl⟩

theorem beside_applyNames (all : Config β) (names : List String) (s : State β) :
    Beside s (applyNames cfg all names s) := by
  refine applyNames_rule (fun _ v => Beside s v) (fun v => Beside s v) ?_ ?_ ?_ ?_ (beside_refl s)
  · exact fun _ _ _ h _ _ => h
  · exact fun name _ v h _ _ _ => h.trans (beside_install all name v)
  · exact fun _ _ _ _ h _ _ _ => h.trans ⟨rfl, rfl, rfl, rfl, rfl⟩
  · exact fun _ v h _ => h.trans (beside_finish v)

theorem beside_reconcile (s : State β) : Beside s (reconcile s) := by
  obtain ⟨phase, rerun, heq, -⟩ := reconcile_eq s
  rw [heq]
  exact ⟨rfl, rfl, rfl, rfl, rfl⟩

structure Aside (s m : State β) : Prop where
  started : m.started = s.started
  channels : m.channels = s.channels
  applied : m.applied = s.applied
  phase : m.phase = s.phase
  stopped : m.stopped = s.stopped
  stopCalls : m.stopCalls = s.stopCalls

inductive Does (cfg : ChannelManagerConfig β) (s : State β) : Act β → State β → Prop where
  | aside (a : Act β) (m : State β) (haside : Aside s m) : Does cfg s a m
  | reconciles (a : Act β) (m : State β) (haside : Aside s m) : Does cfg s a (reconcile m)
  | query (hphase : s.phase = .loading none) : Does cfg s .query { s with phase := .loading (some s.config) }
  | loaded (found : Option (Config β)) (all : Config β) (hphase : s.phase = .loading found) (hfound : found = some all) :
    Does cfg s (.loaded true) (applyNames cfg all known s)
  | failed (found : Option (Config β)) (hphase : s.phase = .loading found) :
    Does cfg s (.loaded false) (applyNames cfg (fun _ => none) known s)
  | stopped (all : Config β) (name : String) (rest : List String) (i : ℕ) (hphase : s.phase = .stopping all name rest i) :
    Does cfg s .stopped (applyNames cfg all rest (install cfg all name (uninstall s name i)))
  | stopAll : Does cfg s .stopAll (stopAll s)
  | stoppedFor (k i : ℕ) (call : StopCall) (hcall : s.stopCalls[k]? = some call) (hi : i ∈ call.waiting) :
    Does cfg s (.stoppedFor k i)
      { markStopped s i with stopCalls := s.stopCalls.set k { call with waiting := call.waiting.filter (· ≠ i) } }
  | stopAllGo (k : ℕ) (call : StopCall) (hcall : s.stopCalls[k]? = some call) (hwaiting : call.waiting = []) :
    Does cfg s (.stopAllGo k)
      { s with
        channels := fun _ => none
        applied := fun _ => none
        stopCalls := s.stopCalls.set k { call with resolved := true } }

theorem step_does (hs : step cfg s a = some s') : Does cfg s a s' := by
  cases a with
  | write name bucket =>
    cases hs
    exact .aside _ _ ⟨rfl, rfl, rfl, rfl, rfl, rfl⟩
  | notify =>
    rw [step] at hs
    split_ifs at hs
    cases hs
    dsimp only
    split_ifs
    · exact .reconciles _ { s with outstanding := s.outstanding - 1 } ⟨rfl, rfl, rfl, rfl, rfl, rfl⟩
    · exact .aside _ _ ⟨rfl, rfl, rfl, rfl, rfl, rfl⟩
  | startInitial =>
    cases hs
    exact .reconciles _ { s with subscribed := true, starting := true } ⟨rfl, rfl, rfl, rfl, rfl, rfl⟩
  | setTimer =>
    rw [step] at hs
    split_ifs at hs
    cases hs
    exact .aside _ _ ⟨rfl, rfl, rfl, rfl, rfl, rfl⟩
  | reconcile =>
    cases hs
    exact .reconciles _ s ⟨rfl, rfl, rfl, rfl, rfl, rfl⟩
  | poll =>
    rw [step] at hs
    split_ifs at hs
    cases hs
    exact .reconciles _ s ⟨rfl, rfl, rfl, rfl, rfl, rfl⟩
  | query =>
    rw [step] at hs
    split at hs
    · rename_i hphase
      cases hs
      exact .query hphase
    · cases hs
  | loaded ok =>
    rw [step] at hs
    split at hs
    · rename_i found hphase
      split at hs
      · rename_i all
        cases hs
        exact .loaded (some all) all hphase rfl
      · cases hs
      · cases hs
        exact .failed found hphase
    · cases hs
  | stopped =>
    rw [step] at hs
    split at hs
    · rename_i all name rest i hphase
      cases hs
      exact .stopped all name rest i hphase
    · cases hs
  | stopAll =>
    cases hs
    exact .stopAll
  | stoppedFor k i =>
    obtain ⟨call, hcall, hs⟩ := Option.bind_eq_some_iff.mp hs
    split_ifs at hs with hi
    cases hs
    exact .stoppedFor k i call hcall hi
  | stopAllGo k =>
    obtain ⟨call, hcall, hs⟩ := Option.bind_eq_some_iff.mp hs
    split_ifs at hs with hgo
    cases hs
    exact .stopAllGo k call hcall hgo.1

/-! A manager that has not been stopped -/

structure Steady (cfg : ChannelManagerConfig β) (s : State β) : Prop where
  running : Running cfg s
  held : Held s
  stopped : s.stopped = false
  stopCalls : s.stopCalls = []

theorem steady_init (config : Config β) : Steady cfg (init config) :=
  ⟨⟨fun _ => Or.inl rfl, fun _ _ h => (by cases h), fun _ _ h => (by cases h)⟩, fun _ _ _ _ h => (by cases h),
    rfl, rfl⟩

theorem Steady.aside {m : State β} (h : Steady cfg s) (ha : Aside s m) : Steady cfg m := by
  refine ⟨h.running.congr ha.started ha.channels ha.applied, fun all name rest i hp => ?_, ha.stopped.trans h.stopped,
    ha.stopCalls.trans h.stopCalls⟩
  rw [ha.channels]
  exact h.held all name rest i (ha.phase.symm.trans hp)

theorem steady_reconcile (h : Steady cfg s) : Steady cfg (reconcile s) := by
  have hreconcile := running_reconcile h.running h.held
  have hbeside := beside_reconcile s
  exact ⟨hreconcile.1, hreconcile.2, hbeside.stopped.trans h.stopped, hbeside.stopCalls.trans h.stopCalls⟩

theorem steady_applyNames {done : List String} (h : Running cfg s) (hstopped : s.stopped = false) (hcalls : s.stopCalls = [])
    (hnames : known = done ++ names) : Steady cfg (applyNames cfg all names s) := by
  have happly := running_applyNames all h hnames
  have hbeside : Beside s (applyNames cfg all names s) := beside_applyNames all names s
  exact ⟨happly.1, happly.2, hbeside.stopped.trans hstopped, hbeside.stopCalls.trans hcalls⟩

theorem Steady.no_call {k : ℕ} {call : StopCall} (h : Steady cfg s) : s.stopCalls[k]? ≠ some call := by
  rw [h.stopCalls]
  exact nofun

theorem steady_step (h : Steady cfg s) (ha : a ≠ .stopAll) (hs : step cfg s a = some s') : Steady cfg s' := by
  cases step_does hs with
  | aside a _ haside => exact h.aside haside
  | reconciles a m haside => exact steady_reconcile (h.aside haside)
  | query hphase => exact ⟨h.running.congr rfl rfl rfl, fun _ _ _ _ hp => (by cases hp), h.stopped, h.stopCalls⟩
  | loaded found all hphase hfound => exact steady_applyNames h.running h.stopped h.stopCalls (List.nil_append _).symm
  | failed found hphase => exact steady_applyNames h.running h.stopped h.stopCalls (List.nil_append _).symm
  | stopped all name rest i hphase =>
    obtain ⟨hi, done, hdone⟩ := h.held all name rest i hphase
    have hname : name ∈ known := hdone ▸ List.mem_append_right _ List.mem_cons_self
    exact steady_applyNames (running_uninstall h.running hi hname) h.stopped h.stopCalls (advance hdone)
  | stopAll => exact absurd rfl ha
  | stoppedFor k i call hcall hi => exact absurd hcall h.no_call
  | stopAllGo k call hcall hwaiting => exact absurd hcall h.no_call

/-- Buckets that hold nothing, or one of two tokens; the channels that are not always on need a token. -/
def twoTokens : ChannelManagerConfig (Option Bool) where
  builds name bucket := name ∈ alwaysOn ∨ bucket.isSome = true
  stringify
    | none => "\x7b\x7d"
    | some false => "\x7b\"token\":\"a\"\x7d"
    | some true => "\x7b\"token\":\"b\"\x7d"
  empty := none
  stringify_ne_off
    | none => by decide
    | some false => by decide
    | some true => by decide

def telegram (bucket : Option Bool) : Config (Option Bool) := fun name => if name = "telegram" then some bucket else none

end Nexal.ChannelManager
