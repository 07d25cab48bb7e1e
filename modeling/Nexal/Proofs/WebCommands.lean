import Nexal.Lib.Lists
import Nexal.Lib.Runs
import Nexal.Spec.WebCommands

/-! Which results of slash commands go astray. A result goes to every waiting call of its name, and a call of that
name, waiting or timed out, mutes whichever result comes first: all is well as long as no later command of the name
is awaited when a result comes. -/

namespace Nexal.WebCommands

variable {δ : Type} {s s' : State δ} {r : Result δ} {e : Event δ} {es : List (Event δ)} {c : Command}

/-- Nothing but the call that sent the command is resolved by its result, which is shown if the command was not
awaited. -/
def Matched (s : State δ) : Event δ → Prop
  | .result r => ∀ c s', s.commands[s.delivered]? = some c → step s (.result r) = some s' →
      (∃ resolved, s'.resolved = s.resolved ++ resolved ∧ ∀ p ∈ resolved, p = (s.delivered, r)) ∧
        (c.awaited = false → s'.messages = s.messages ++ [note c.name r])
  | _ => True

/-- A later command of the name is awaited only if its call has timed out and the result is an awaited command's. -/
def Apart (s : State δ) : Event δ → Prop
  | .result _ => ∀ c ∈ s.commands[s.delivered]?, ∀ d ∈ s.commands.drop (s.delivered + 1),
      d.name = c.name → d.awaited = true → c.awaited = true ∧ d.timedOut = true
  | _ => True

instance (s : State δ) : (e : Event δ) → Decidable (Apart s e)
  | .result _ => inferInstanceAs (Decidable (∀ c ∈ s.commands[s.delivered]?, ∀ d ∈ s.commands.drop (s.delivered + 1),
      d.name = c.name → d.awaited = true → c.awaited = true ∧ d.timedOut = true))
  | .runCommand _ | .runCommandAwait _ | .timeout _ => isTrue trivial

/-! The invariant -/

def mutes (name : String) (c : Command) : Bool := c.awaited && c.name = name

/-- The callbacks are those of the awaited commands that have neither been answered nor timed out, and a name is
muted once for each awaited command that has not been answered. -/
structure Inv (s : State δ) : Prop where
  awaiters : ∀ w, w ∈ s.awaiters ↔ s.delivered ≤ w.call ∧ s.commands[w.call]? = some ⟨w.name, true, false⟩
  muted : ∀ name, s.mutedCounts name = (s.commands.drop s.delivered).countP (mutes name)
  delivered : s.delivered ≤ s.commands.length

theorem init_inv : Inv (init : State δ) := by
  constructor <;> simp [init]

theorem countP_mutes (name : String) (l : List Command) (k : ℕ) :
    (l.drop k).countP (mutes name) = ((l.map (mutes name)).drop k).countP id := by
  rw [← List.map_drop, List.countP_map, Function.id_comp]

/-! Calls and timeouts -/

theorem inv_runCommand {name : String} (h : Inv s) : Inv (runCommand s name) where
  awaiters := fun w => by
    rw [runCommand, h.awaiters, Lists.getElem?_concat]
    split_ifs with hlast
    · simp [hlast]
    · rfl
  muted := fun n => by
    simp only [runCommand, List.drop_append_of_le_length h.delivered, List.countP_append, h.muted n]
    simp [mutes]
  delivered := by
    have hle := h.delivered
    simp only [runCommand, List.length_append]
    omega

theorem inv_runCommandAwait {name : String} (h : Inv s) : Inv (runCommandAwait s name) where
  awaiters := fun w => by
    rw [runCommandAwait, List.mem_append, h.awaiters, Lists.getElem?_concat, List.mem_singleton]
    have hle := h.delivered
    obtain ⟨call, name'⟩ := w
    split_ifs with hlast
    · subst hlast
      simp [hle, eq_comm]
    · simp [hlast]
  muted := fun n => by
    simp only [runCommandAwait, List.drop_append_of_le_length h.delivered, List.countP_append, Function.update_apply,
      h.muted]
    split_ifs with hn
    · simp [mutes, hn]
    · simp [mutes, Ne.symm hn]
  delivered := by
    have hle := h.delivered
    simp only [runCommandAwait, List.length_append]
    omega

theorem inv_onTimeout {w : Awaiter} (h : Inv s) : Inv (onTimeout s w) where
  awaiters := fun w' => by
    simp only [onTimeout, List.mem_filter, h.awaiters, List.getElem?_modify, decide_eq_true_eq]
    by_cases hcall : w.call = w'.call
    · simp [hcall]
    · simp [hcall, Ne.symm hcall]
  muted := fun n => by
    have hsame : (onTimeout s w).commands.map (mutes n) = s.commands.map (mutes n) :=
      Lists.map_modify_of_eq (by intro; rfl) _ _
    rw [countP_mutes, hsame, onTimeout, ← countP_mutes]
    exact h.muted n
  delivered := by simpa [onTimeout] using h.delivered

/-! Results -/

theorem drop_delivered (hc : s.commands[s.delivered]? = some c) :
    s.commands.drop s.delivered = c :: s.commands.drop (s.delivered + 1) := by
  obtain ⟨hlt, rfl⟩ := List.getElem?_eq_some_iff.mp hc
  exact List.drop_eq_getElem_cons hlt

theorem muted_delivered (h : Inv s) (hc : s.commands[s.delivered]? = some c) (name : String) : s.mutedCounts name =
    (s.commands.drop (s.delivered + 1)).countP (mutes name) + if mutes name c then 1 else 0 := by
  rw [h.muted, drop_delivered hc, List.countP_cons]

theorem apart_iff (hc : s.commands[s.delivered]? = some c) : Apart s (.result r) ↔
    ∀ d ∈ s.commands.drop (s.delivered + 1), d.name = c.name → d.awaited = true →
      c.awaited = true ∧ d.timedOut = true := by
  simp [Apart, hc]

/-- A waiting call of a later command. -/
theorem waiting_iff (h : Inv s) {name : String} :
    (∀ w ∈ s.awaiters, w.name = name → w.call = s.delivered) ↔
      ∀ d ∈ s.commands.drop (s.delivered + 1), d.name = name → d.awaited = true → d.timedOut = true := by
  constructor
  · intro hw d hd hname hawaited
    by_contra hnot
    obtain ⟨i, hi⟩ := Lists.exists_getElem?_of_mem hd
    rw [List.getElem?_drop] at hi
    have hd' : d = ⟨name, true, false⟩ := by
      obtain ⟨_, _, _⟩ := d
      simp_all
    have hmem : (⟨s.delivered + 1 + i, name⟩ : Awaiter) ∈ s.awaiters :=
      (h.awaiters _).mpr ⟨by simp; omega, hd' ▸ hi⟩
    have hcall := hw _ hmem rfl
    simp only at hcall
    omega
  · intro hd w hw hname
    obtain ⟨hle, hcommand⟩ := (h.awaiters w).mp hw
    by_contra hne
    obtain ⟨i, hi⟩ : ∃ i, w.call = s.delivered + 1 + i := ⟨w.call - (s.delivered + 1), by omega⟩
    have hmem : (⟨w.name, true, false⟩ : Command) ∈ s.commands.drop (s.delivered + 1) :=
      List.mem_of_getElem? (i := i) (by rw [List.getElem?_drop, ← hi, hcommand])
    simpa using hd _ hmem hname rfl

/-- An unawaited command's result is shown if its name is not muted. -/
theorem muted_iff (h : Inv s) (hc : s.commands[s.delivered]? = some c) (hawaited : c.awaited = false) :
    s.mutedCounts c.name = 0 ↔ ∀ d ∈ s.commands.drop (s.delivered + 1), d.name = c.name → d.awaited = false := by
  have hself : mutes c.name c = false := by simp [mutes, hawaited]
  rw [muted_delivered h hc, hself, if_neg Bool.false_ne_true, Nat.add_zero, List.countP_eq_zero]
  refine forall₂_congr fun d _ => ?_
  cases hd : d.awaited <;> simp [mutes, hd]

theorem resolved_onCommandResult (s : State δ) (name : String) (r : Result δ) :
    (onCommandResult s name r).resolved =
      s.resolved ++ (s.awaiters.filter (·.name = name)).map fun w : Awaiter => (w.call, r) := by
  unfold onCommandResult
  dsimp only
  split <;> rfl

theorem messages_onCommandResult (s : State δ) (name : String) (r : Result δ) :
    (onCommandResult s name r).messages =
      if s.mutedCounts name = 0 then s.messages ++ [note name r] else s.messages := by
  unfold onCommandResult
  dsimp only
  split_ifs <;> first | rfl | omega

theorem matched_iff (hc : s.commands[s.delivered]? = some c) : Matched s (.result r) ↔
    (∀ w ∈ s.awaiters, w.name = c.name → w.call = s.delivered) ∧
    (c.awaited = false → s.mutedCounts c.name = 0) := by
  have hstep : step s (.result r) = some (onCommandResult { s with delivered := s.delivered + 1 } c.name r) := by
    simp [step, hc]
  have hunique : Matched s (.result r) ↔ _ := ⟨fun h => h c _ hc hstep, fun h c' s' hc' hs' => by
    cases hc.symm.trans hc'
    cases hstep.symm.trans hs'
    exact h⟩
  rw [hunique, resolved_onCommandResult, messages_onCommandResult]
  refine and_congr ?_ (imp_congr_right fun _ => ?_)
  · constructor
    · rintro ⟨resolved, heq, hall⟩ w hw hname
      obtain rfl := List.append_cancel_left heq
      have hpair := hall (w.call, r) (List.mem_map_of_mem (List.mem_filter.mpr ⟨hw, by simpa using hname⟩))
      exact (Prod.mk.inj hpair).1
    · intro hall
      refine ⟨_, rfl, fun p hp => ?_⟩
      obtain ⟨w, hw, rfl⟩ := List.mem_map.mp hp
      obtain ⟨hmem, hname⟩ := List.mem_filter.mp hw
      rw [hall w hmem (by simpa using hname)]
  · by_cases hmuted : s.mutedCounts c.name = 0 <;> simp [hmuted]

theorem matched_iff_apart (h : Inv s) (hc : s.commands[s.delivered]? = some c) :
    Matched s (.result r) ↔ Apart s (.result r) := by
  rw [matched_iff hc, apart_iff hc, waiting_iff h]
  constructor
  · rintro ⟨hwaiting, hmuted⟩ d hd hname hawaited
    refine ⟨?_, hwaiting d hd hname hawaited⟩
    by_contra hnot
    have hnone := (muted_iff h hc (by simpa using hnot)).mp (hmuted (by simpa using hnot)) d hd hname
    simp [hnone] at hawaited
  · intro hapart
    refine ⟨fun d hd hname hawaited => (hapart d hd hname hawaited).2, fun hawaited => ?_⟩
    refine (muted_iff h hc hawaited).mpr fun d hd hname => ?_
    by_contra hnot
    have hboth := hapart d hd hname (by simpa using hnot)
    simp [hawaited] at hboth

theorem inv_onCommandResult (h : Inv s) (hc : s.commands[s.delivered]? = some c) (hapart : Apart s (.result r)) :
    Inv (onCommandResult { s with delivered := s.delivered + 1 } c.name r) := by
  rw [apart_iff hc] at hapart
  have hcount := muted_delivered h hc
  have hlt := (List.getElem?_eq_some_iff.mp hc).1
  have hawaiters : ∀ w, w ∈ s.awaiters.filter (·.name ≠ c.name) ↔
      s.delivered + 1 ≤ w.call ∧ s.commands[w.call]? = some ⟨w.name, true, false⟩ := fun w => by
    rw [List.mem_filter, h.awaiters, decide_eq_true_eq]
    constructor
    · rintro ⟨⟨hle, hcommand⟩, hname⟩
      refine ⟨Nat.lt_of_le_of_ne hle fun heq => hname ?_, hcommand⟩
      rw [← heq, hc] at hcommand
      rw [Option.some.inj hcommand]
    · rintro ⟨hlt, hcommand⟩
      refine ⟨⟨Nat.le_of_lt hlt, hcommand⟩, fun hname => ?_⟩
      obtain ⟨i, hi⟩ : ∃ i, w.call = s.delivered + 1 + i := ⟨w.call - (s.delivered + 1), by omega⟩
      have hmem := List.mem_of_getElem? (i := i) (by rw [List.getElem?_drop, ← hi, hcommand])
      simpa using (hapart _ hmem hname rfl).2
  unfold onCommandResult
  dsimp only
  split_ifs with hmuted
  · refine ⟨hawaiters, fun n => ?_, hlt⟩
    have hself : mutes c.name c = true := by
      by_contra hnot
      have hawaited : c.awaited = false := by simpa [mutes] using hnot
      refine Nat.pos_iff_ne_zero.mp hmuted ((muted_iff h hc hawaited).mpr fun d hd hname => ?_)
      by_contra hd'
      simpa [hawaited] using (hapart d hd hname (by simpa using hd')).1
    dsimp only
    rw [Function.update_apply]
    split_ifs with hn
    · subst hn
      rw [hcount, if_pos hself, Nat.add_sub_cancel]
    · have hother : mutes n c = false := by simp [mutes, Ne.symm hn]
      rw [hcount, hother, if_neg Bool.false_ne_true, Nat.add_zero]
  · refine ⟨hawaiters, fun n => ?_, hlt⟩
    have hzero := hcount c.name
    rw [hcount n]
    have hother : mutes n c = false := by
      by_contra hnot
      obtain ⟨hawaited, hname⟩ : c.awaited = true ∧ c.name = n := by simpa [mutes] using hnot
      have hself : mutes c.name c = true := by simp [mutes, hawaited]
      rw [if_pos hself] at hzero
      omega
    rw [hother, if_neg Bool.false_ne_true, Nat.add_zero]

/-! Runs -/

theorem step_matched (h : Inv s) (hs : step s e = some s') : (Matched s e ↔ Apart s e) ∧ (Apart s e → Inv s') := by
  cases e with
  | runCommand name =>
    cases hs
    exact ⟨Iff.rfl, fun _ => inv_runCommand h⟩
  | runCommandAwait name =>
    cases hs
    exact ⟨Iff.rfl, fun _ => inv_runCommandAwait h⟩
  | result r =>
    obtain ⟨c, hc, rfl⟩ := Option.map_eq_some_iff.mp hs
    exact ⟨matched_iff_apart h hc, inv_onCommandResult h hc⟩
  | timeout call =>
    obtain ⟨w, -, rfl⟩ := Option.map_eq_some_iff.mp hs
    exact ⟨Iff.rfl, fun _ => inv_onTimeout h⟩

theorem results_matched_iff (h : Runs.run step init es = some s) :
    Runs.RunOk step Matched init es ↔ Runs.RunOk step Apart init es :=
  Runs.runOk_congr_of_ok Inv (fun _ _ _ => step_matched) init_inv h

/-- A call that times out, whose result comes late, and commands of the same name before and after it. -/
theorem late_result_matched : Runs.RunOk step Matched (init : State Unit)
    [.runCommand "tapes", .result ⟨some "a", none, none⟩, .runCommandAwait "tapes", .timeout 1,
      .result ⟨some "b", none, none⟩, .runCommand "tapes", .result ⟨none, some "c", none⟩] :=
  (results_matched_iff rfl).mpr (by decide)

/-- The first result resolves both calls. -/
theorem one_result_two_calls : ¬Runs.RunOk step Matched (init : State Unit)
    [.runCommandAwait "tapes", .runCommandAwait "tapes", .result ⟨some "a", none, none⟩] := by
  rintro ⟨-, hok⟩
  obtain ⟨-, hok⟩ := hok _ rfl
  obtain ⟨hmatched, -⟩ := hok _ rfl
  obtain ⟨⟨resolved, heq, hall⟩, -⟩ := hmatched _ _ rfl rfl
  have htwo : resolved = [(0, ⟨some "a", none, none⟩), (1, ⟨some "a", none, none⟩)] := heq.symm
  have hcall : 1 = 0 := congrArg Prod.fst (hall (1, ⟨some "a", none, none⟩) (by simp [htwo]))
  exact absurd hcall (by decide)

end Nexal.WebCommands
