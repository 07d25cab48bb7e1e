import Nexal.Sanity.TransportDriver

/-! What a driver writes and how it ends: the frames go out in the order in which `send` has put them into the
channel, and `disconnected` is the last the owner hears. -/

namespace Nexal.Driver

open Nexal.Lists Runs

variable {ε : Type} {task : Task} {decodeFrame : ByteArray → Except ε Wire.Value} {s s' : State} {a : Act}
  {acts : List Act}

/-! Frames -/

def written (s : State) : List ByteArray := s.trace.filterMap fun p => p.2.wrote?

def queued (s : State) : List ByteArray := s.trace.filterMap fun p => p.2.queued?

def pending (s : State) : List ByteArray := s.cmds.filterMap Cmd.frame

theorem filterMap_notes (f : Entry → Option ByteArray) (es : List Entry) :
    (s.notes es).filterMap (fun p => f p.2) = s.trace.filterMap (fun p => f p.2) ++ es.filterMap f := by
  rw [State.notes, List.filterMap_append, List.filterMap_map]
  rfl

theorem filterMap_eq_nil_of_plain {es : List Entry} (h : ∀ e ∈ es, e.plain = true) :
    es.filterMap Entry.wrote? = [] ∧ es.filterMap Entry.queued? = [] := by
  refine ⟨List.filterMap_eq_nil_iff.mpr fun e he => ?_, List.filterMap_eq_nil_iff.mpr fun e he => ?_⟩
  · cases e with
    | wrote frame => cases h _ he
    | _ => rfl
  · cases e with
    | queued frame => cases h _ he
    | _ => rfl

/-- What a step that adds no frame leaves. -/
theorem frames_of_notes {es : List Entry} (h : es.filterMap Entry.wrote? = [] ∧ es.filterMap Entry.queued? = [])
    (trace : s'.trace = s.notes es) : written s' = written s ∧ queued s' = queued s := by
  rw [written, queued, trace, filterMap_notes, filterMap_notes, h.1, h.2, List.append_nil, List.append_nil]
  exact ⟨rfl, rfl⟩

theorem frames_same (trace : s'.trace = s.trace) : written s' = written s ∧ queued s' = queued s :=
  @frames_of_notes s s' [] ⟨rfl, rfl⟩ (trace.trans notes_nil.symm)

theorem pending_cons {c : Cmd} (cmds : s.cmds = c :: s'.cmds) : pending s = c.frame.toList ++ pending s' := by
  rw [pending, cmds, List.filterMap_cons]
  cases c.frame <;> rfl

theorem frames_taken {c : Cmd} (cmds : s.cmds = c :: s'.cmds) (trace : s'.trace = s.notes (c.frame.map .wrote).toList) :
    written s' ++ pending s' = written s ++ pending s ∧ queued s' = queued s := by
  have hwritten : written s' = written s ++ c.frame.toList := by
    rw [written, trace, filterMap_notes, written]
    cases c.frame <;> rfl
  refine ⟨by rw [hwritten, pending_cons cmds, List.append_assoc], ?_⟩
  rw [queued, trace, filterMap_notes, queued]
  cases c.frame <;> exact List.append_nil _

theorem frames_pushed {c : Cmd} (cmds : s'.cmds = s.cmds ++ [c]) (trace : s'.trace = s.notes (c.frame.map .queued).toList) :
    written s' ++ pending s' = written s ++ pending s ++ c.frame.toList ∧ queued s' = queued s ++ c.frame.toList := by
  have hwritten : written s' = written s := by
    rw [written, trace, filterMap_notes, written]
    cases c.frame <;> exact List.append_nil _
  have hpending : pending s' = pending s ++ c.frame.toList := by
    rw [pending, cmds, List.filterMap_append, pending]
    cases c <;> rfl
  refine ⟨by rw [hwritten, hpending, List.append_assoc], ?_⟩
  rw [queued, trace, filterMap_notes, queued]
  cases c.frame <;> rfl

theorem frames_ended (h : Ends s s') : written s' = written s ∧ queued s' = queued s := by
  cases h with
  | lost trace =>
    refine frames_of_notes ?_ trace
    split_ifs <;> exact ⟨rfl, rfl⟩
  | closed cmd trace => exact frames_same trace
  | dropped handles trace => exact frames_same trace
  | unheard listening frame trace => exact frames_of_notes ⟨rfl, rfl⟩ trace

def InTurn (s : State) : Prop := (written s ++ pending s).Sublist (queued s)

theorem step_inTurn (hs : InTurn s) (h : step task decodeFrame s a = some s') : InTurn s' := by
  unfold InTurn at *
  cases step_moves h with
  | finished was phase cmds trace =>
    obtain ⟨hwritten, hqueued⟩ := frames_same trace
    rw [hwritten, hqueued, pending, cmds]
    exact hs
  | stays es plain was phase alone cmds trace =>
    obtain ⟨hwritten, hqueued⟩ := frames_of_notes (filterMap_eq_nil_of_plain plain) trace
    rw [hwritten, hqueued, pending, cmds]
    exact hs
  | pushed c puts was phase cmds trace =>
    obtain ⟨hleft, hright⟩ := frames_pushed cmds trace
    rw [hleft, hright]
    exact hs.append (List.Sublist.refl _)
  | taken c cmds was phase trace =>
    obtain ⟨hleft, hright⟩ := frames_taken cmds trace
    rw [hleft, hright]
    exact hs
  | lost c cmds was phase some trace =>
    obtain ⟨hwritten, hqueued⟩ := frames_same trace
    rw [hwritten, hqueued]
    rw [pending_cons cmds] at hs
    exact ((List.Sublist.refl _).append (List.sublist_append_right _ _)).trans hs
  | ended cmds was phase ends =>
    obtain ⟨hwritten, hqueued⟩ := frames_ended ends
    rw [hwritten, hqueued]
    exact ((List.Sublist.refl _).append (cmds.sublist.filterMap _)).trans hs

def Complete (s : State) : Prop :=
  (s.phase = .connected ∧ queued s = written s ++ pending s) ∨ (s.phase = .finished ∧ written s <+: queued s)

theorem step_complete (hnone : task.reconnect = none) (hs : Complete s) (h : step task decodeFrame s a = some s') :
    Complete s' := by
  cases step_moves h with
  | finished was phase cmds trace =>
    obtain ⟨hwritten, hqueued⟩ := frames_same trace
    refine Or.inr ⟨phase, ?_⟩
    rw [hwritten, hqueued]
    exact (hs.resolve_left fun hc => nomatch hc.1.symm.trans was).2
  | stays es plain was phase alone cmds trace =>
    obtain ⟨hphase, hall⟩ := hs.resolve_right fun hover => was hover.1
    obtain ⟨hwritten, hqueued⟩ := frames_of_notes (filterMap_eq_nil_of_plain plain) trace
    refine Or.inl ⟨alone hphase hnone, ?_⟩
    rw [hwritten, hqueued, pending, cmds]
    exact hall
  | pushed c puts was phase cmds trace =>
    obtain ⟨hphase, hall⟩ := hs.resolve_right fun hover => was hover.1
    obtain ⟨hleft, hright⟩ := frames_pushed cmds trace
    exact Or.inl ⟨phase.trans hphase, by rw [hleft, hright, hall]⟩
  | taken c cmds was phase trace =>
    obtain ⟨-, hall⟩ := hs.resolve_right fun hover => nomatch was.symm.trans hover.1
    obtain ⟨hleft, hright⟩ := frames_taken cmds trace
    exact Or.inl ⟨phase, by rw [hleft, hright, hall]⟩
  | lost c cmds was phase some trace =>
    obtain ⟨hphase, -⟩ := hs.resolve_right fun hover => was hover.1
    exact absurd hnone (some hphase)
  | ended cmds was phase ends =>
    obtain ⟨-, hall⟩ := hs.resolve_right fun hover => was hover.1
    obtain ⟨hwritten, hqueued⟩ := frames_ended ends
    refine Or.inr ⟨phase, ?_⟩
    rw [hwritten, hqueued, hall]
    exact List.prefix_append _ _

/-- In every run the frames are written in the order in which they were put into the channel, each at most once;
without reconnecting none is left out, and while the socket is up the rest is still in the channel. -/
theorem written_in_order (h : run (step task decodeFrame) (init task) acts = some s) :
    (written s).Sublist (queued s) ∧ (task.reconnect = none →
      written s <+: queued s ∧ (s.phase = .connected → queued s = written s ++ pending s)) := by
  have hinit : InTurn (init task) := List.Sublist.refl []
  have hturn : InTurn s := run_inv_all InTurn (fun _ _ _ hm hstep => step_inTurn hm hstep) hinit h
  refine ⟨(List.sublist_append_left _ _).trans hturn, fun hnone => ?_⟩
  have hcomplete : Complete s :=
    run_inv_all Complete (fun _ _ _ hm hstep => step_complete hnone hm hstep) (Or.inl ⟨rfl, rfl⟩) h
  rcases hcomplete with ⟨-, hall⟩ | ⟨hover, hpre⟩
  · exact ⟨hall ▸ List.prefix_append _ _, fun _ => hall⟩
  · exact ⟨hpre, fun hconnected => nomatch hconnected.symm.trans hover⟩

theorem written_in_order_once : (([⟨#[1]⟩] : List ByteArray).Sublist [⟨#[1]⟩, ⟨#[2]⟩]) ∧
    ((none : Option (Option ℕ)) = none →
    ([⟨#[1]⟩] : List ByteArray) <+: [⟨#[1]⟩, ⟨#[2]⟩] ∧
      (Phase.connected = .connected → ([⟨#[1]⟩, ⟨#[2]⟩] : List ByteArray) = [⟨#[1]⟩] ++ [⟨#[2]⟩])) :=
  @written_in_order Unit (.accepted ⟨none, none⟩) (fun _ => .error ()) _
    [.send ⟨#[1]⟩, .send ⟨#[2]⟩, .sent 0, .sent 0, .cmd true] rfl

/-! The end -/

/-- Nothing is said of the end before it comes, and nothing at all after it. -/
structure Last (s : State) : Prop where
  before : s.phase ≠ .finished → ∀ p ∈ s.trace, p.2 ≠ .event .disconnected
  last : ∀ before t after, s.trace = before ++ (t, .event .disconnected) :: after → after = []

theorem no_cut {trace before after : List (ℕ × Entry)} {t : ℕ} (h : ∀ p ∈ trace, p.2 ≠ .event .disconnected)
    (hcut : trace = before ++ (t, .event .disconnected) :: after) : after = [] :=
  absurd rfl (h _ (hcut ▸ List.mem_append_right before List.mem_cons_self))

theorem ne_of_plain {es : List Entry} (plain : ∀ e ∈ es, e.plain = true) : ∀ e ∈ es, e ≠ .event .disconnected := by
  rintro e he rfl
  exact nomatch plain _ he

theorem none_of_notes {es : List Entry} (h : ∀ p ∈ s.trace, p.2 ≠ .event .disconnected)
    (hes : ∀ e ∈ es, e ≠ .event .disconnected) :
    ∀ p ∈ s.notes es, p.2 ≠ .event .disconnected := by
  intro p hp
  rcases List.mem_append.mp hp with hold | hnew
  · exact h p hold
  · obtain ⟨e, he, rfl⟩ := List.mem_map.mp hnew
    exact hes e he

theorem last_of_none (h : ∀ p ∈ s.trace, p.2 ≠ .event .disconnected) :
    Last s := ⟨fun _ => h, fun _ _ _ hcut => no_cut h hcut⟩

theorem step_last (hs : Last s) (h : step task decodeFrame s a = some s') : Last s' := by
  cases step_moves h with
  | finished was phase cmds trace => exact ⟨fun hne => absurd phase hne, trace ▸ hs.last⟩
  | stays es plain was phase alone cmds trace =>
    exact last_of_none (trace ▸ none_of_notes (hs.before was) (ne_of_plain plain))
  | pushed c puts was phase cmds trace =>
    refine last_of_none (trace ▸ none_of_notes (hs.before was) ?_)
    cases c <;> simp [Cmd.frame]
  | taken c cmds was phase trace =>
    have halive : s.phase ≠ .finished := fun hover => nomatch was.symm.trans hover
    refine last_of_none (trace ▸ none_of_notes (hs.before halive) ?_)
    cases c <;> simp [Cmd.frame]
  | lost c cmds was phase some trace => exact last_of_none (trace ▸ hs.before was)
  | ended cmds was phase ends =>
    refine ⟨fun hne => absurd phase hne, fun before t after hcut => ?_⟩
    cases ends with
    | lost trace =>
      rw [trace] at hcut
      rcases append_eq_cut hcut with ⟨rest, hold, -⟩ | ⟨rest, hnew, -⟩
      · exact absurd rfl (hs.before was _ (hold ▸ List.mem_append_right before List.mem_cons_self))
      · split_ifs at hnew with hl
        · rcases List.cons_eq_append_iff.mp hnew with ⟨-, hcons⟩ | ⟨tail, -, hnil⟩
          · exact (List.cons.inj hcons).2
          · exact absurd hnil.symm (List.append_ne_nil_of_right_ne_nil tail (List.cons_ne_nil _ after))
        · exact absurd hnew.symm (List.append_ne_nil_of_right_ne_nil rest (List.cons_ne_nil _ after))
    | closed cmd trace => exact no_cut (hs.before was) (trace ▸ hcut)
    | dropped handles trace => exact no_cut (hs.before was) (trace ▸ hcut)
    | unheard listening frame trace =>
      refine no_cut (none_of_notes (hs.before was) ?_) (trace ▸ hcut)
      simp

/-- The owner goes on using the connection. -/
def Used (_ : State) (a : Act) : Prop := a ≠ .close ∧ a ≠ .dropHandles ∧ a ≠ .dropReceiver

structure InUse (s : State) : Prop where
  handles : s.handles = true
  listening : s.listening = true
  closing : s.closing = false
  cmds : .close ∉ s.cmds
  finished : s.phase = .finished → ∃ before t, s.trace = before ++ [(t, .event .disconnected)]

theorem step_inUse (hs : InUse s) (hp : Used s a) (h : step task decodeFrame s a = some s') : InUse s' := by
  obtain ⟨hclose, hhandles, hreceiver⟩ := hp
  have howned := step_owned h
  have hclosing : s'.closing = false := by
    by_contra hc
    exact Bool.false_ne_true (hs.closing.symm.trans (howned.closing hclose (Bool.not_eq_false _ ▸ hc)))
  have hcmds : .close ∉ s'.cmds := by
    intro hc
    rcases step_cmds h hc with hold | hputs
    · exact hs.cmds hold
    · cases a with
      | closeSent =>
        rw [step, hs.closing] at h
        cases h
      | _ => exact hputs
  refine ⟨(howned.handles hhandles).trans hs.handles, (howned.listening hreceiver).trans hs.listening, hclosing,
    hcmds, fun hover => ?_⟩
  cases step_moves h with
  | finished was phase cmds trace => exact trace ▸ hs.finished was
  | stays es plain was phase alone cmds trace => exact absurd hover phase
  | pushed c puts was phase cmds trace => exact absurd (phase.symm.trans hover) was
  | taken c cmds was phase trace => cases phase.symm.trans hover
  | lost c cmds was phase some trace => exact absurd hover phase
  | ended cmds was phase ends =>
    cases ends with
    | lost trace =>
      rw [if_pos hs.listening] at trace
      exact ⟨s.trace, s.now, trace⟩
    | closed cmd trace => exact absurd cmd hs.cmds
    | dropped handles trace => cases hs.handles.symm.trans handles
    | unheard listening frame trace => cases hs.listening.symm.trans listening

/-- `disconnected` is emitted at most once and nothing after it; a driver whose owner neither closes the connection
nor lets go of it ends with this event and never without. -/
theorem disconnected_last (h : run (step task decodeFrame) (init task) acts = some s) :
    (∀ before t after, s.trace = before ++ (t, .event .disconnected) :: after → after = [] ∧ s.phase = .finished) ∧
      (RunOk (step task decodeFrame) Used (init task) acts →
        s.phase = .finished → ∃ before t, s.trace = before ++ [(t, .event .disconnected)]) := by
  have hnone : ∀ p ∈ (init task).trace, p.2 ≠ .event .disconnected := by
    intro p hp
    rw [List.mem_singleton.mp hp]
    exact nofun
  have hs : Last s := run_inv_all Last (fun _ _ _ hm hstep => step_last hm hstep) (last_of_none hnone) h
  refine ⟨fun before t after hcut => ⟨hs.last before t after hcut, ?_⟩, fun hok => ?_⟩
  · by_contra halive
    exact hs.before halive _ (hcut ▸ List.mem_append_right before List.mem_cons_self) rfl
  · have hinit : InUse (init task) := ⟨rfl, rfl, rfl, List.not_mem_nil, nofun⟩
    exact (run_inv InUse (fun _ _ _ hm hp hstep => step_inUse hm hp hstep) hinit hok h).finished

theorem disconnected_last_once : ∃ before t,
    ([(0, .socket), (0, .event .disconnected)] : List (ℕ × Entry)) = before ++ [(t, .event .disconnected)] := by
  have hok : RunOk (step (.accepted ⟨none, none⟩) fun _ => .error ()) Used
    (init (.accepted ⟨none, none⟩)) [.incoming .ended true] :=
    runOk_cons rfl ⟨nofun, nofun, nofun⟩ trivial
  exact (@disconnected_last Unit (.accepted ⟨none, none⟩) (fun _ => .error ()) _ [.incoming .ended true] rfl).2 hok rfl

end Nexal.Driver
