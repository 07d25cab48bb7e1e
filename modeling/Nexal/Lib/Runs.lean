import Mathlib.Algebra.BigOperators.Group.List.Basic
import Mathlib.Algebra.Ring.Int.Defs
import Mathlib.Algebra.Ring.Nat

/-! Runs of a partial step function. A system is a function `step : σ → ε → Option σ`
that refuses the events that are not enabled; a run is a list of events that are all
accepted. Every interleaving of several parties is one such list. -/

namespace Nexal.Runs

variable {σ ε : Type*} {step : σ → ε → Option σ} {P : σ → ε → Prop}

def run (step : σ → ε → Option σ) : σ → List ε → Option σ
  | s, [] => some s
  | s, e :: es => (step s e).bind fun s' => run step s' es

@[simp] theorem run_nil (s : σ) : run step s [] = some s := rfl

theorem run_cons {s s' : σ} {e : ε} {es : List ε} (h : run step s (e :: es) = some s') :
    ∃ m, step s e = some m ∧ run step m es = some s' :=
  Option.bind_eq_some_iff.mp h

/-- Every event of the run meets `P` in the state in which it is taken. -/
def RunOk (step : σ → ε → Option σ) (P : σ → ε → Prop) : σ → List ε → Prop
  | _, [] => True
  | s, e :: es => P s e ∧ ∀ m, step s e = some m → RunOk step P m es

instance decidableRunOk [∀ s e, Decidable (P s e)] :
    (s : σ) → (es : List ε) → Decidable (RunOk step P s es)
  | _, [] => isTrue trivial
  | s, e :: es =>
    match h : step s e with
    | none => decidable_of_iff (P s e) ⟨fun hp => ⟨hp, fun m hm => by simp [h] at hm⟩, And.left⟩
    | some m =>
      have := decidableRunOk m es
      decidable_of_iff (P s e ∧ RunOk step P m es)
        ⟨fun hp => ⟨hp.1, fun m' hm => by rw [h] at hm; exact Option.some.inj hm ▸ hp.2⟩,
          fun hp => ⟨hp.1, hp.2 m h⟩⟩

theorem runOk_cons {s m : σ} {e : ε} {es : List ε} (hs : step s e = some m) (hp : P s e) (h : RunOk step P m es) :
    RunOk step P s (e :: es) :=
  ⟨hp, fun _ hm => Option.some.inj (hs.symm.trans hm) ▸ h⟩

theorem runOk_of_forall (h : ∀ s e, P s e) (s : σ) (es : List ε) : RunOk step P s es := by
  induction es generalizing s with
  | nil => trivial
  | cons e es ih => exact ⟨h s e, fun m _ => ih m⟩

theorem runOk_of_mem {es : List ε} (h : ∀ e ∈ es, ∀ s, P s e) (s : σ) : RunOk step P s es := by
  induction es generalizing s with
  | nil => trivial
  | cons e es ih => exact ⟨h e List.mem_cons_self s, fun m _ => ih (fun e' he' => h e' (List.mem_cons_of_mem e he')) m⟩

theorem runOk_and {Q : σ → ε → Prop} {es : List ε} {s : σ} (hP : RunOk step P s es) (hQ : RunOk step Q s es) :
    RunOk step (fun s e => P s e ∧ Q s e) s es := by
  induction es generalizing s with
  | nil => trivial
  | cons e es ih => exact ⟨⟨hP.1, hQ.1⟩, fun m hm => ih (hP.2 m hm) (hQ.2 m hm)⟩

theorem runOk_append {es es' : List ε} {s m : σ} (h : run step s es = some m) (hok : RunOk step P s es)
    (hok' : RunOk step P m es') : RunOk step P s (es ++ es') := by
  induction es generalizing s with
  | nil =>
    cases h
    exact hok'
  | cons e es ih =>
    obtain ⟨k, hk, hrest⟩ := run_cons h
    exact runOk_cons hk hok.1 (ih hrest (hok.2 k hk))

/-- What one step that meets `P` preserves, a whole run that meets `P` preserves. -/
theorem run_inv (I : σ → Prop)
    (hstep : ∀ s e s', I s → P s e → step s e = some s' → I s')
    {es : List ε} {s s' : σ} (h0 : I s) (hok : RunOk step P s es)
    (h : run step s es = some s') : I s' := by
  induction es generalizing s with
  | nil =>
    cases h
    exact h0
  | cons e es ih =>
    obtain ⟨m, hm, hrest⟩ := run_cons h
    exact ih (hstep s e m h0 hok.1 hm) (hok.2 m hm) hrest

/-- The same rule when nothing is asked of the steps. -/
theorem run_inv_all (I : σ → Prop) (hstep : ∀ s e s', I s → step s e = some s' → I s')
    {es : List ε} {s s' : σ} (h0 : I s) (h : run step s es = some s') : I s' :=
  run_inv (P := fun _ _ => True) I (fun s e s' hi _ hs => hstep s e s' hi hs) h0
    (runOk_of_forall (fun _ _ => trivial) s es) h

/-- What every step from a state with `I` raises by at most its cost, a whole run raises by at most the
costs of its events. -/
theorem run_le (I : σ → Prop) (φ : σ → ℕ) (cost : ε → ℕ)
    (hinv : ∀ s e s', I s → step s e = some s' → I s')
    (hstep : ∀ s e s', I s → P s e → step s e = some s' → φ s' ≤ φ s + cost e)
    {es : List ε} {s s' : σ} (h0 : I s) (hok : RunOk step P s es) (h : run step s es = some s') :
    φ s' ≤ φ s + (es.map cost).sum := by
  induction es generalizing s with
  | nil =>
    cases h
    exact Nat.le_refl _
  | cons e es ih =>
    obtain ⟨m, hm, hrest⟩ := run_cons h
    have hfirst := hstep s e m h0 hok.1 hm
    have hlater := ih (hinv s e m h0 hm) (hok.2 m hm) hrest
    rw [List.map_cons, List.sum_cons]
    omega

/-- What every step from a state with `I` lowers by at least its gain, a whole run lowers by at least the
gains of its events. -/
theorem run_lowers (I : σ → Prop) (φ : σ → ℕ) (gain : ε → ℕ)
    (hinv : ∀ s e s', I s → step s e = some s' → I s')
    (hstep : ∀ s e s', I s → step s e = some s' → φ s' + gain e ≤ φ s)
    {es : List ε} {s s' : σ} (h0 : I s) (h : run step s es = some s') : φ s' + (es.map gain).sum ≤ φ s := by
  induction es generalizing s with
  | nil =>
    cases h
    exact Nat.le_refl _
  | cons e es ih =>
    obtain ⟨m, hm, hrest⟩ := run_cons h
    have hfirst := hstep s e m h0 hm
    have hlater := ih (hinv s e m h0 hm) hrest
    rw [List.map_cons, List.sum_cons]
    omega

/-- Where a step that meets `H` keeps `Q` exactly if it meets `P`, the steps of a run all meet `P` exactly if
`Q` holds at every point of it. -/
theorem runOk_iff_prefixes {H : σ → ε → Prop} (I Q : σ → Prop)
    (hstep : ∀ s e s', I s → Q s → H s e → step s e = some s' → I s' ∧ (Q s' ↔ P s e))
    {es : List ε} {s s' : σ} (hI : I s) (hQ : Q s) (hok : RunOk step H s es) (h : run step s es = some s') :
    RunOk step P s es ↔ ∀ es' m, es' <+: es → run step s es' = some m → Q m := by
  induction es generalizing s with
  | nil =>
    refine ⟨fun _ es' m hprefix hm => ?_, fun _ => trivial⟩
    rw [List.prefix_nil.mp hprefix] at hm
    cases hm
    exact hQ
  | cons e es ih =>
    obtain ⟨k, hk, hrest⟩ := run_cons h
    obtain ⟨hI', hQ'⟩ := hstep s e k hI hQ hok.1 hk
    constructor
    · intro hP es' m hprefix hm
      cases es' with
      | nil =>
        cases hm
        exact hQ
      | cons e' es' =>
        obtain ⟨rfl, htail⟩ := List.cons_prefix_cons.mp hprefix
        obtain ⟨k', hk', hm'⟩ := run_cons hm
        cases hk.symm.trans hk'
        exact (ih hI' (hQ'.mpr hP.1) (hok.2 k hk) hrest).mp (hP.2 k hk) es' m htail hm'
    · intro hall
      have hone : run step s [e] = some k := by rw [run, hk, Option.bind_some, run_nil]
      have hQk : Q k := hall [e] k (List.cons_prefix_cons.mpr ⟨rfl, List.nil_prefix⟩) hone
      refine ⟨hQ'.mp hQk, fun k' hk' => ?_⟩
      cases hk.symm.trans hk'
      refine (ih hI' hQk (hok.2 k hk) hrest).mpr fun es' m hprefix hm => ?_
      refine hall (e :: es') m (List.cons_prefix_cons.mpr ⟨rfl, hprefix⟩) ?_
      rw [run, hk, Option.bind_some]
      exact hm

/-- Conditions that agree on the states of a run, as far as they have been met. -/
theorem runOk_congr_of_ok {Q : σ → ε → Prop} (I : σ → Prop)
    (hstep : ∀ s e s', I s → step s e = some s' → (P s e ↔ Q s e) ∧ (Q s e → I s'))
    {es : List ε} {s s' : σ} (hI : I s) (h : run step s es = some s') : RunOk step P s es ↔ RunOk step Q s es := by
  induction es generalizing s with
  | nil => exact Iff.rfl
  | cons e es ih =>
    obtain ⟨m, hm, hrest⟩ := run_cons h
    obtain ⟨hiff, hnext⟩ := hstep s e m hI hm
    refine (and_congr_left_iff.mpr fun _ => hiff).trans (and_congr_right fun hQ => ?_)
    refine ⟨fun hok k hk => ?_, fun hok k hk => ?_⟩
    · cases hm.symm.trans hk
      exact (ih (hnext hQ) hrest).mp (hok m hm)
    · cases hm.symm.trans hk
      exact (ih (hnext hQ) hrest).mpr (hok m hm)

/-- Conditions that agree on the states of a run. -/
theorem runOk_congr {Q : σ → ε → Prop} (I : σ → Prop)
    (hstep : ∀ s e s', I s → step s e = some s' → I s' ∧ (P s e ↔ Q s e))
    {es : List ε} {s s' : σ} (hI : I s) (h : run step s es = some s') : RunOk step P s es ↔ RunOk step Q s es :=
  runOk_congr_of_ok I (fun s e s' hi hs => ⟨(hstep s e s' hi hs).2, fun _ => (hstep s e s' hi hs).1⟩) hI h

theorem run_of_step {s m s' : σ} {e : ε} {es : List ε} (hs : step s e = some m) (h : run step m es = some s') :
    run step s (e :: es) = some s' := by
  rw [run, hs, Option.bind_some]
  exact h

theorem run_append {es es' : List ε} {s m s' : σ} (h : run step s es = some m) (h' : run step m es' = some s') :
    run step s (es ++ es') = some s' := by
  induction es generalizing s with
  | nil =>
    cases h
    exact h'
  | cons e es ih =>
    obtain ⟨k, hk, hrest⟩ := run_cons h
    exact run_of_step hk (ih hrest)

end Nexal.Runs
